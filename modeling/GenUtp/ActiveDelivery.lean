/-
Active delivery: what an active socket still holds back.

One call of `emit_read_buffer` sends every chunk of a raw queue, but of a
queue of frames only the first one, and each chunk or `setopts` makes one
call. So a socket that is active for good holds no raw bytes back, and no
whole frame exactly when no call finds two of them (`active_holds_nothing`).
That is said of calls that read the frame's header right: it lies in the
first segment of the driver queue, and the frame it announces is not empty
and fits a `uint32_t`.
-/
import GenUtp.ReadStream
import GenUtp.Lifecycle

namespace GenUtp

open Frames Segments

/-- A size of the length prefix. -/
def PacketSetting (p : Nat) : Prop := p = 0 ∨ p = 1 ∨ p = 2 ∨ p = 4

namespace UtpHandler

variable {h h' g g' : UtpHandler} {e : Event} {o : List Effect} {t : Trace} {mem : Mem}

/-- Nothing that could be delivered is in the driver queue. -/
def HoldsNothing (h : UtpHandler) : Prop :=
  h.sockopts.active = .activeTrue →
    if h.sockopts.packet = 0 then h.queue.flatten = [] else ¬Begins h.sockopts.packet h.queue.flatten

/-- `emit_read_buffer` reads the header of the first frame right: it lies in
the first segment, and the frame is not empty and fits a `uint32_t`. -/
structure ReadsHeader (h : UtpHandler) : Prop where
  whole : h.sockopts.packet ≤ (h.queue.headD []).length
  fits : h.sockopts.packet + headLen h.sockopts.packet h.queue.flatten < 2 ^ 32
  filled : headLen h.sockopts.packet h.queue.flatten ≠ 0

/-! ## One call -/

theorem announced_eq (hp : PacketSetting h.sockopts.packet) (hw : h.sockopts.packet ≤ (h.queue.headD []).length) :
    h.announced mem = headLen h.sockopts.packet h.queue.flatten := by
  rcases hq : h.queue with _ | ⟨seg, queue⟩
  · rw [hq] at hw
    have h0 : h.sockopts.packet = 0 := Nat.le_zero.1 hw
    simp [announced, headLen, h0, beVal]
  · simp only [hq, List.headD_cons] at hw
    rcases hp with hp | hp | hp | hp <;> rw [hp] at hw <;> simp only [announced, headLen, hp, hq, List.headD_cons]
    · rfl
    · obtain ⟨a, seg, rfl⟩ := List.exists_cons_of_length_pos hw
      rfl
    · rcases seg with _ | ⟨a, _ | ⟨b, seg⟩⟩ <;> simp at hw
      rfl
    · rcases seg with _ | ⟨a, _ | ⟨b, _ | ⟨c, _ | ⟨d, seg⟩⟩⟩⟩ <;> simp at hw
      rfl

theorem delivery_frame {len : Nat} {ms : List Packet} {queue : List (List UInt8)} {rc : List Nat}
    (ha : h.announced mem ≠ 0) (hfit : h.sockopts.packet + h.announced mem ≤ h.sizeq)
    (hm : h.delivery len mem = .some (ms, queue, rc)) :
    queue.flatten = h.queue.flatten.drop (h.sockopts.packet + h.announced mem) := by
  rw [delivery, if_pos ha] at hm
  obtain ⟨rc', -, ht⟩ := Option.bind_eq_some_iff.1 hm
  have hsize : h.announced mem ≤ size (deqSegs h.sockopts.packet h.queue) := by
    rw [size_deqSegs (by simp only [sizeq] at hfit; omega)]
    simp only [sizeq] at hfit
    omega
  rw [takePacket, if_neg (by rw [length_takeSegs hsize]; exact ha)] at ht
  obtain ⟨-, rfl, -⟩ := ht
  have hle : h.sockopts.packet ≤ size h.queue := by
    simp only [sizeq] at hfit
    omega
  rw [deqSegs_eq hsize, flatten_dropSegs, deqSegs_eq hle, flatten_dropSegs, List.drop_drop]

/-- **A call on a queue of frames sends one of them**: a whole frame is left
at the head exactly when there were two. -/
theorem Emission.framed {qsize : Nat} {sent : Bool} {q : Nat}
    (he : Emission h 0 .connected qsize mem sent q o h') (hp : PacketSetting h.sockopts.packet)
    (h0 : h.sockopts.packet ≠ 0) (hr : h.sockopts.packet ≤ h.sizeq → ReadsHeader h) :
    Begins h.sockopts.packet h'.queue.flatten ↔ BeginsTwo h.sockopts.packet h.queue.flatten := by
  -- a call that sends nothing has found no whole frame
  have hnone : ¬Begins h.sockopts.packet h.queue.flatten →
      (Begins h.sockopts.packet h.queue.flatten ↔ BeginsTwo h.sockopts.packet h.queue.flatten) := by
    intro hnot
    exact iff_of_false hnot fun htwo => hnot htwo.1
  cases he with
  | closed _ hnil =>
    refine hnone ?_
    rw [size_eq_zero.1 hnil]
    exact not_begins_nil (Nat.pos_of_ne_zero h0)
  | held _ hd =>
    refine hnone fun hbegins => ?_
    have hsize : h.sockopts.packet + headLen h.sockopts.packet h.queue.flatten ≤ h.sizeq := hbegins
    obtain ⟨hw, hfit, hfill⟩ := hr (by omega)
    have hmod := Nat.mod_eq_of_lt hfit
    simp only [deliverable, announced_eq hp hw, hmod, decide_eq_false_iff_not] at hd
    omega
  | @sent _ queue _ hd hm =>
    simp only [deliverable, decide_eq_true_eq] at hd
    obtain ⟨-, -, hle, hframe⟩ := hd
    obtain ⟨hw, hfit, hfill⟩ := hr hle
    rw [announced_eq hp hw, Nat.mod_eq_of_lt hfit] at hframe
    have hsize : h.sockopts.packet + headLen h.sockopts.packet h.queue.flatten ≤ h.sizeq := by omega
    have hrest := delivery_frame (by rwa [announced_eq hp hw]) (by rwa [announced_eq hp hw]) hm
    rw [announced_eq hp hw] at hrest
    show Begins h.sockopts.packet queue.flatten ↔ _
    rw [hrest]
    exact ⟨fun hsecond => ⟨hsize, hsecond⟩, fun htwo => htwo.2⟩

theorem Emission.rawDrained {qsize : Nat} {sent : Bool} {q : Nat}
    (he : Emission h 0 .connected qsize mem sent q o h') (h0 : h.sockopts.packet = 0)
    (ha : Agree h.queue h.readCount) (hact : h.sockopts.active = .activeTrue) : h'.queue.flatten = [] := by
  have hnone : h.announced mem = 0 := announced_of_raw h0 mem
  have hplain : h.PlainCall 0 mem := by
    intro _
    refine ⟨hnone, fun hfalse => ?_⟩
    rw [hact] at hfalse
    cases hfalse
  have hdrained := (he.read ha hplain).2.2.2
  cases he with
  | closed _ hnil => exact size_eq_zero.1 hnil
  | held _ hd =>
    simp only [deliverable, hnone, h0, decide_eq_false_iff_not] at hd
    exact size_eq_zero.1 (by simp only [sizeq] at hd; omega)
  | sent => exact hdrained rfl hact

/-! ## Over a run -/

/-- The call of `emit_read_buffer` an event makes on a socket active for
good. -/
def ActiveCall (h : UtpHandler) (e : Event) (g : UtpHandler) : Prop :=
  (∃ len mem, h.emissionOf e = .some (g, len, mem)) ∧ g.sockopts.active = .activeTrue

/-- Chunks come, and `setopts` changes nothing but `active`; every call on a
queue of frames reads the header right. -/
def ActiveGuard : Runs.Guard UtpHandler Event (List Effect) := fun _ h e =>
  (match e with
    | .doRead bytes _ => bytes.length < 2 ^ 32
    | .setopts _ buf numericHost _ => ∀ bin, decodeBinary buf = .some bin →
        h.sockopts.decodeAndMerge numericHost bin = .error .invalidArgument ∨
          ∃ a, a.Valid ∧ h.sockopts.decodeAndMerge numericHost bin = .ok { h.sockopts with active := a }
    | _ => False) ∧
  ∀ g, ActiveCall h e g → g.sockopts.packet ≠ 0 → g.sockopts.packet ≤ g.sizeq → ReadsHeader g

/-- No call of the event finds two whole frames. -/
def OneFrame (h : UtpHandler) (e : Event) : Prop :=
  ∀ g, ActiveCall h e g → g.sockopts.packet ≠ 0 → ¬BeginsTwo g.sockopts.packet g.queue.flatten

/-- What such a run keeps. -/
structure ActiveOk (h : UtpHandler) : Prop where
  packet : PacketSetting h.sockopts.packet
  active : h.sockopts.active.Valid
  alone : h.receiverWaiting = false
  agree : h.sockopts.packet = 0 → Agree h.queue h.readCount

theorem oneFrame_iff {len : Nat} (hc : h.emissionOf e = .some (g, len, mem)) : OneFrame h e ↔
    (g.sockopts.active = .activeTrue → g.sockopts.packet ≠ 0 → ¬BeginsTwo g.sockopts.packet g.queue.flatten) := by
  refine ⟨fun h hact => h g ⟨⟨len, mem, hc⟩, hact⟩, ?_⟩
  intro hone g' hcall
  obtain ⟨⟨len', mem', hc'⟩, hact⟩ := hcall
  obtain ⟨rfl, -⟩ := Prod.mk.inj (Option.some.inj (hc.symm.trans hc'))
  exact hone hact

theorem oneFrame_none (hc : h.emissionOf e = .none) : OneFrame h e := by
  intro g hcall
  obtain ⟨⟨len, mem, hc'⟩, -⟩ := hcall
  rw [hc] at hc'
  cases hc'

theorem Emission.active {qsize : Nat} {sent : Bool} {q : Nat} (he : Emission h 0 .connected qsize mem sent q o h')
    (hok : ActiveOk h)
    (hr : h.sockopts.active = .activeTrue → h.sockopts.packet ≠ 0 → h.sockopts.packet ≤ h.sizeq → ReadsHeader h)
    (hact : h.sockopts.active ≠ .activeFalse) :
    ActiveOk h' ∧ (HoldsNothing h' ↔ (h.sockopts.active = .activeTrue → h.sockopts.packet ≠ 0 →
      ¬BeginsTwo h.sockopts.packet h.queue.flatten)) := by
  have hso : h'.sockopts = h.sockopts ∨ h'.sockopts = h.sockopts.reverted := by
    cases he with
    | closed | held => exact .inl rfl
    | sent => exact .inr rfl
  have hpacket : h'.sockopts.packet = h.sockopts.packet := by
    rcases hso with hso | hso <;> simp [hso]
  have halone : h'.receiverWaiting = h.receiverWaiting := by cases he <;> rfl
  have hvalid : h'.sockopts.active.Valid := by
    rcases hso with hso | hso <;> rw [hso]
    · exact hok.active
    · rw [SockOpts.reverted_active]
      split
      · exact fun b hb => by cases hb
      · exact hok.active
  have hagree : h'.sockopts.packet = 0 → Agree h'.queue h'.readCount := by
    intro h0
    rw [hpacket] at h0
    have hplain : h.PlainCall 0 mem := fun _ => ⟨announced_of_raw h0 mem, fun hfalse => absurd hfalse hact⟩
    exact (he.read (hok.agree h0) hplain).1
  refine ⟨⟨hpacket ▸ hok.packet, hvalid, halone ▸ hok.alone, hagree⟩, ?_⟩
  by_cases htrue : h.sockopts.active = .activeTrue
  · have hsame : h'.sockopts.active = .activeTrue := by
      rcases hso with hso | hso
      · rw [hso, htrue]
      · rw [hso, SockOpts.reverted_active, htrue]
        rfl
    simp only [HoldsNothing, hsame, htrue, hpacket, true_implies]
    by_cases h0 : h.sockopts.packet = 0
    · simpa [h0] using he.rawDrained h0 (hok.agree h0) htrue
    · rw [if_neg h0, he.framed hok.packet h0 (hr htrue h0)]
      simp [h0]
  · refine iff_of_true (fun hact' => ?_) fun hact' => absurd hact' htrue
    rcases hso with hso | hso
    · exact absurd (hso ▸ hact') htrue
    · rw [hso, SockOpts.reverted_active] at hact'
      split at hact'
      · cases hact'
      · exact absurd hact' htrue

/-- **One step**: nothing is held back after it exactly when its call has not
found two frames. -/
theorem active_step (hs : Step h e o h') (hok : ActiveOk h) (hq : HoldsNothing h) (hg : ActiveGuard t h e) :
    ActiveOk h' ∧ (HoldsNothing h' ↔ OneFrame h e) := by
  obtain ⟨hev, hread⟩ := hg
  cases e with
  | doRead bytes m =>
    have hbytes : bytes.length < 2 ^ 32 := hev
    have hok' : ActiveOk (h.received bytes) :=
      ⟨hok.packet, hok.active, hok.alone, fun h0 => (hok.agree h0).received hbytes⟩
    cases hs with
    | doReadNothing => exact ⟨hok, iff_of_true hq (oneFrame_none rfl)⟩
    | doReadQueued hb hact hw =>
      refine ⟨hok', iff_of_true (fun htrue => ?_) (oneFrame_none (by simp [emissionOf, hact, hw]))⟩
      have htrue : h.sockopts.active = .activeTrue := htrue
      rw [hact] at htrue
      cases htrue
    | doReadAnswers _ _ hw | doReadShort _ _ hw =>
      rw [hok.alone] at hw
      cases hw
    | doReadActive hb hact he =>
      have hcall : h.emissionOf (.doRead bytes m) = _ := emissionOf_active hb hact
      rw [oneFrame_iff hcall]
      exact he.active hok' (fun htrue => hread _ ⟨⟨_, _, hcall⟩, htrue⟩) hact
  | setopts p buf numericHost m =>
    cases hs with
    | setoptsBadarg hbad =>
      refine ⟨hok, iff_of_true hq (oneFrame_none ?_)⟩
      cases hd : decodeBinary buf with
      | none => simp [emissionOf, hd]
      | some bin => simp [emissionOf, hd, hbad bin hd]
    | @setoptsQuiet _ _ _ _ bin so hd hm hsend =>
      rcases hev bin hd with hm' | ⟨a, ha, hm'⟩ <;> cases hm.symm.trans hm'
      refine ⟨⟨hok.packet, ha, hok.alone, hok.agree⟩, iff_of_true (fun htrue => ?_) (oneFrame_none ?_)⟩
      · have htrue : a = .activeTrue := htrue
        subst htrue
        cases hold : h.sockopts.active with
        | invalid b => exact absurd hold (hok.active b)
        | _ => simp [sendOnSetopts, hold] at hsend
      · simp [emissionOf, hd, hm, hsend]
    | @setoptsEmit _ _ _ _ bin so _ _ _ _ hd hm hsend he =>
      have hcall : h.emissionOf (.setopts p buf numericHost m) = _ := emissionOf_setopts hd hm hsend
      rcases hev bin hd with hm' | ⟨a, ha, hm'⟩ <;> cases hm.symm.trans hm'
      have hok' : ActiveOk { h with sockopts := { h.sockopts with active := a } } :=
        ⟨hok.packet, ha, hok.alone, hok.agree⟩
      have hact : a ≠ .activeFalse := by
        rintro rfl
        cases hold : h.sockopts.active <;> simp [sendOnSetopts, hold] at hsend
      rw [oneFrame_iff hcall]
      exact he.active hok' (fun htrue => hread _ ⟨⟨_, _, hcall⟩, htrue⟩) hact
  | _ => exact hev.elim

theorem ActiveOk.start {h₀ : UtpHandler} (hs : Started h₀) (hp : PacketSetting h₀.sockopts.packet)
    (ha : h₀.sockopts.active.Valid) : ActiveOk h₀ ∧ HoldsNothing h₀ := by
  have hnil : h₀.queue = [] ∧ h₀.readCount = [] ∧ h₀.receiverWaiting = false := by
    cases hs with
    | client => exact ⟨rfl, rfl, rfl⟩
    | server =>
      refine ⟨?_, ?_, ?_⟩ <;> simp [startServer, doIncoming, setPort, setUtpCallbacks, emit, new]
  obtain ⟨hq, hrc, hw⟩ := hnil
  refine ⟨⟨hp, ha, hw, fun _ => by rw [hq, hrc]; exact ⟨rfl, by simp⟩⟩, fun _ => ?_⟩
  rw [hq]
  split
  · rfl
  · next h0 => exact not_begins_nil (Nat.pos_of_ne_zero h0)

/-- **A socket active for good holds nothing back, in any state of a run,
exactly when no call of the run finds two whole frames.** In raw mode none
does. -/
theorem active_holds_nothing {h₀ : UtpHandler} (hs : Started h₀) (hp : PacketSetting h₀.sockopts.packet)
    (ha : h₀.sockopts.active.Valid) (run : Runs.Run machine ActiveGuard [] h₀ t h) :
    Runs.Each (Runs.After machine fun _ h => HoldsNothing h) t ↔ Runs.Each (fun _ x => OneFrame x.pre x.event) t := by
  obtain ⟨hok, hq⟩ := ActiveOk.start hs hp ha
  refine Runs.Run.each_iff (I := fun _ h => ActiveOk h) hok hq ?_ run
  intro t h e h' o hok hq hg hm
  exact active_step (machine_step hm) hok hq hg

/-- One frame for an active socket, under a length of one byte. -/
theorem active_holds_nothing_frame : ∃ t h,
    Runs.Run machine ActiveGuard [] (startServer { SockOpts.new with packet := 1 } 1) t h ∧
    t.flatMap (fun x => (payloads x.out).map (·.buf)) = [[0xAA]] ∧
    (Runs.Each (Runs.After machine fun _ h => HoldsNothing h) t ↔ Runs.Each (fun _ x => OneFrame x.pre x.event) t) := by
  have hread : ∀ g, ActiveCall (startServer { SockOpts.new with packet := 1 } 1) (.doRead [1, 0xAA] fun _ => 0) g →
      g.sockopts.packet ≠ 0 → g.sockopts.packet ≤ g.sizeq → ReadsHeader g := by
    intro g hcall _ _
    obtain ⟨⟨len, mem, hc⟩, -⟩ := hcall
    cases hc
    exact ⟨by decide, by decide, by decide⟩
  have run := (Runs.Run.start machine ActiveGuard (startServer { SockOpts.new with packet := 1 } 1)).next
    (.doRead [1, 0xAA] fun _ => 0) ⟨by decide, hread⟩ rfl
  exact ⟨_, _, run, rfl, active_holds_nothing (.server _ _) (.inr (.inl rfl)) (fun _ hb => by cases hb) run⟩

/-- Two frames in one chunk: the second stays in the queue of a socket that
is active for good. -/
theorem second_frame_sits : ∃ t h,
    Runs.Run machine (fun _ _ _ => True) [] (startServer { SockOpts.new with packet := 1 } 1) t h ∧
    h.sockopts.active = .activeTrue ∧ h.queue.flatten = [1, 0xBB] ∧ ¬HoldsNothing h := by
  have run := (Runs.Run.start machine (fun _ _ _ => True) (startServer { SockOpts.new with packet := 1 } 1)).next
    (.doRead [1, 0xAA, 1, 0xBB] fun _ => 0) trivial rfl
  refine ⟨_, _, run, rfl, rfl, fun hnone => ?_⟩
  have hsecond : ¬Begins 1 [1, 0xBB] := hnone rfl
  exact hsecond (by decide)

end UtpHandler

end GenUtp
