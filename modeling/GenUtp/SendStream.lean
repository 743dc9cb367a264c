/-
The send stream: what `do_write` hands to libutp, then what `write_queue`
still holds, is what the sends answered `ok` put in, in order.

`sent_step` says it of one step: what the step hands over and the queue it
leaves are the queue before and the send's own bytes (`sentBytes`). With it
go the facts that make it so: while the handler is writable, or has no
socket, the write queue is empty. They hold after every run up to the first
EOF, which throws the queue away.

A send of no bytes puts nothing in, in packet mode too: `outputv` writes a
length header only before a payload.

Of libutp it is assumed that `UTP_Write` of `n` bytes asks for at most `n`
in all and answers true only when it asked for all (`UtpWrite.Lawful`), that
`do_write` is called from nowhere else, and that CONNECT comes at most once
and before any send (`SendGuard`).
-/
import GenUtp.Step

namespace GenUtp

open Frames Segments

/-! ## What is sent -/

def ErlIOVec.payload (ev : ErlIOVec) : List UInt8 := ev.iov.flatMap (·.base)

/-- The size is right, and an entry without bytes has no binary. -/
structure ErlIOVec.Wf (ev : ErlIOVec) : Prop where
  size : ev.size = ev.payload.length
  empty : ∀ v ∈ ev.iov, v.base = [] → v.bin = .none

/-- What `UTP_Write` promises of its `do_write` calls. -/
structure UtpWrite.Lawful (w : UtpWrite) : Prop where
  le : ∀ n, (w.counts n).sum ≤ n
  all : ∀ n, w.ret n = true → (w.counts n).sum = n

/-- A libutp that takes everything, and one that takes nothing. -/
def UtpWrite.whole : UtpWrite := ⟨fun n => [n], fun _ => true⟩
def UtpWrite.nothing : UtpWrite := ⟨fun _ => [], fun n => n == 0⟩

theorem UtpWrite.whole_lawful : UtpWrite.whole.Lawful :=
  ⟨fun n => by simp [UtpWrite.whole], fun n => by simp [UtpWrite.whole]⟩

theorem UtpWrite.nothing_lawful : UtpWrite.nothing.Lawful :=
  ⟨fun n => Nat.zero_le n, fun _ hr => (beq_iff_eq.1 hr).symm⟩

/-- The bytes before a payload of `n`: its length in `packet` big-endian
bytes. For a `packet` that is no setting, whatever lay in the buffer. -/
def headerBytes (packet n : Nat) (mem : Mem) : List UInt8 :=
  if packet ∈ [0, 1, 2, 4] then beBytes packet n else (List.range packet).map mem

/-- What a send that is answered `ok` puts on the stream. -/
def framed (packet : Nat) (mem : Mem) (payload : List UInt8) : List UInt8 :=
  if payload = [] then [] else headerBytes packet payload.length mem ++ payload

/-- The send of `p` is answered `ok`. -/
def answersOk (p : Pid) (o : List Effect) : Bool := decide (Effect.send (.pid p) (.utpReply .ok) ∈ o)

/-- What a step adds to the stream: a send answered `ok` adds its frame. -/
def sentBytes (h : UtpHandler) (e : Event) (o : List Effect) : List UInt8 :=
  match e with
  | .outputv p ev _ mem => if answersOk p o then framed h.sockopts.packet mem ev.payload else []
  | _ => []

/-- The stream of the sends answered `ok`. -/
def sentStream (t : Trace) : List UInt8 := t.flatMap fun x => sentBytes x.pre x.event x.out

def Effect.handed : Effect → List UInt8
  | .written bytes _ => bytes
  | _ => []

/-- The bytes handed to libutp. -/
def handed (t : Trace) : List UInt8 := t.flatMap fun x => x.out.flatMap Effect.handed

/-- Neither a `do_write` nor a `UTP_Close`. -/
def Effect.quiet : Effect → Bool
  | .written _ _ => false
  | .utp _ (.close _) => false
  | _ => true

theorem handed_of_quiet : ∀ {o : List Effect}, o.all Effect.quiet = true → o.flatMap Effect.handed = []
  | [], _ => rfl
  | x :: o, h => by
    simp only [List.all_cons, Bool.and_eq_true] at h
    rw [List.flatMap_cons, handed_of_quiet h.2, List.append_nil]
    cases x <;> first | rfl | simp [Effect.quiet] at h

namespace WriteQueue

theorem Ok.pushIoVec {wq : WriteQueue} (h : wq.Ok) {v : IoVec} (hv : v.base = [] → v.bin = .none) :
    (UtpHandler.pushIoVec wq v).Ok ∧ (UtpHandler.pushIoVec wq v).bytes = wq.bytes ++ v.base := by
  rcases hb : v.base with _ | ⟨b, bs⟩
  · simp [UtpHandler.pushIoVec, hb, hv hb, h]
  · simpa [UtpHandler.pushIoVec, hb] using ⟨h.pushBack (b :: bs), h.bytes_pushBack (b :: bs)⟩

theorem Ok.pushIoVecs : ∀ (iov : List IoVec) {wq : WriteQueue}, wq.Ok → (∀ v ∈ iov, v.base = [] → v.bin = .none) →
    (iov.foldl UtpHandler.pushIoVec wq).Ok ∧
      (iov.foldl UtpHandler.pushIoVec wq).bytes = wq.bytes ++ iov.flatMap (·.base)
  | [], wq, h, _ => by simpa using h
  | v :: iov, wq, h, hv => by
    obtain ⟨hok, hb⟩ := h.pushIoVec (hv v (by simp))
    obtain ⟨hok', hb'⟩ := hok.pushIoVecs iov fun u hu => hv u (by simp [hu])
    exact ⟨hok', by rw [List.foldl_cons, hb', hb, List.flatMap_cons, List.append_assoc]⟩

end WriteQueue

namespace UtpHandler

theorem lengthHeader_eq (packet n : Nat) (mem : Mem) : lengthHeader packet n mem = headerBytes packet n mem := by
  by_cases hp : packet ∈ [0, 1, 2, 4]
  · rw [headerBytes, if_pos hp]
    simp only [List.mem_cons, List.not_mem_nil, or_false] at hp
    rcases hp with rfl | rfl | rfl | rfl
    · rfl
    · have hmask : n &&& 0xFF = n % 256 ^ 1 := Nat.and_two_pow_sub_one_eq_mod n 8
      rw [lengthHeader, hmask, beBytes_mod]
    · have hmask : n &&& 0xFFFF = n % 256 ^ 2 := Nat.and_two_pow_sub_one_eq_mod n 16
      rw [lengthHeader, hmask, beBytes_mod]
    · have hmask : n &&& 0xFFFFFFFF = n % 256 ^ 4 := Nat.and_two_pow_sub_one_eq_mod n 32
      rw [lengthHeader, hmask, beBytes_mod]
  · rw [headerBytes, if_neg hp]
    unfold lengthHeader
    split <;> first | rfl | simp at hp

theorem enqueueSend_eq {wq wq' : WriteQueue} {packet n : Nat} {ev : ErlIOVec} {mem : Mem} (h : wq.Ok) (hev : ev.Wf)
    (he : enqueueSend wq packet ev mem = (wq', n)) :
    wq'.Ok ∧ wq'.bytes = wq.bytes ++ framed packet mem ev.payload ∧ n = (framed packet mem ev.payload).length := by
  have hlen : ∀ n, (headerBytes packet n mem).length = packet := by
    intro n; unfold headerBytes; split <;> simp
  simp only [enqueueSend] at he
  split at he
  · next hs =>
    have hp : ev.payload ≠ [] := by
      rw [hev.size] at hs
      exact List.length_pos_iff.1 hs
    split at he
    · next hpk =>
      obtain ⟨rfl, rfl⟩ := Prod.mk.inj he
      obtain ⟨hok, hb⟩ := (h.pushBack (lengthHeader packet ev.size mem)).pushIoVecs ev.iov hev.empty
      refine ⟨hok, ?_, by simp [framed, hp, hlen, hev.size]⟩
      rw [hb, h.bytes_pushBack, framed, if_neg hp, lengthHeader_eq, hev.size, List.append_assoc]
      rfl
    · next hpk =>
      obtain rfl : packet = 0 := by omega
      obtain ⟨rfl, rfl⟩ := Prod.mk.inj he
      obtain ⟨hok, hb⟩ := h.pushIoVecs ev.iov hev.empty
      exact ⟨hok, by rw [hb, framed, if_neg hp]; rfl, by simp [framed, hp, headerBytes, beBytes, hev.size]⟩
  · next hs =>
    have hp : ev.payload = [] := by
      rw [hev.size] at hs
      exact List.length_eq_zero_iff.1 (by omega)
    obtain ⟨rfl, rfl⟩ := Prod.mk.inj he
    exact ⟨h, by simp [framed, hp], by simp [framed, hp]⟩

theorem writes_eq : ∀ (counts : List Nat) {wq : WriteQueue}, wq.Ok → counts.sum ≤ wq.size →
    ∃ ws wq', writes wq counts = .some (ws, wq') ∧ wq'.Ok ∧ ws.flatMap Effect.handed ++ wq'.bytes = wq.bytes ∧
      wq'.size = wq.size - counts.sum ∧ ∀ x ∈ ws, ∃ bytes queued, x = .written bytes queued ∧ bytes.length ≤ queued
  | [], wq, h, _ => ⟨[], wq, rfl, h, rfl, rfl, by simp⟩
  | 0 :: counts, wq, h, hc => by
    obtain ⟨ws, wq', hw, hok, hb, hs, hx⟩ := writes_eq counts h (by simpa using hc)
    exact ⟨ws, wq', by rw [writes, if_pos rfl, hw], hok, hb, by simpa using hs, hx⟩
  | (count + 1) :: counts, wq, h, hc => by
    rw [List.sum_cons] at hc
    obtain ⟨wq₁, hp, hok₁, hb₁⟩ := WriteQueue.popBytes_eq h (show count + 1 ≤ wq.size by omega)
    have hs₁ : wq₁.size = wq.size - (count + 1) := by
      rw [← hok₁.length_bytes, ← h.length_bytes, hb₁, List.length_drop]
    obtain ⟨ws, wq', hw, hok, hb, hs, hx⟩ := writes_eq counts hok₁ (by omega)
    refine ⟨_ :: ws, wq', by rw [writes, if_neg (by omega), hp, Option.bind_some, hw]; rfl, hok, ?_, ?_, ?_⟩
    · rw [List.flatMap_cons, List.append_assoc, hb, hb₁]
      exact List.take_append_drop _ _
    · rw [hs, hs₁, List.sum_cons]
      omega
    · refine List.forall_mem_cons.2 ⟨⟨_, _, rfl, ?_⟩, hx⟩
      rw [List.length_take, h.length_bytes]
      omega

/-- The `do_write` calls of a `UTP_Write` that is defined. -/
theorem writes_hands : ∀ (counts : List Nat) {wq wq' : WriteQueue} {ws : List Effect}, wq.Ok →
    writes wq counts = .some (ws, wq') → wq'.Ok ∧ ws.flatMap Effect.handed ++ wq'.bytes = wq.bytes
  | [], wq, _, _, hok, hw => by
    cases hw
    exact ⟨hok, rfl⟩
  | count :: counts, wq, _, _, hok, hw => by
    rw [writes] at hw
    by_cases hzero : count = 0
    · rw [if_pos hzero] at hw
      exact writes_hands counts hok hw
    · rw [if_neg hzero] at hw
      obtain ⟨r, hr, hrest⟩ := Option.bind_eq_some_iff.1 hw
      obtain ⟨rest, hws, heq⟩ := Option.map_eq_some_iff.1 hrest
      cases heq
      have hle : count ≤ wq.size := (WriteQueue.popBytes_isSome hok count).1 (by rw [hr]; rfl)
      obtain ⟨wq₁, hpop, hok₁, hbytes⟩ := WriteQueue.popBytes_eq hok hle
      cases hpop.symm.trans hr
      obtain ⟨hok', hhands⟩ := writes_hands counts hok₁ hws
      refine ⟨hok', ?_⟩
      rw [List.flatMap_cons, List.append_assoc, hhands, hbytes]
      exact List.take_append_drop count _

/-- They are defined exactly up to the size of the queue. -/
theorem writes_isSome (counts : List Nat) {wq : WriteQueue} (hok : wq.Ok) :
    (writes wq counts).isSome = true ↔ counts.sum ≤ wq.size := by
  induction counts generalizing wq with
  | nil => simp [writes]
  | cons count counts ih =>
    rw [writes, List.sum_cons]
    by_cases hzero : count = 0
    · rw [if_pos hzero, ih hok, hzero, Nat.zero_add]
    rw [if_neg hzero]
    by_cases hle : count ≤ wq.size
    · obtain ⟨wq₁, hpop, hok₁, hbytes⟩ := WriteQueue.popBytes_eq hok hle
      have hsize : wq₁.size = wq.size - count := by
        rw [← hok₁.length_bytes, ← hok.length_bytes, hbytes, List.length_drop]
      rw [hpop, Option.bind_some, Option.isSome_map, ih hok₁, hsize]
      omega
    · have hnone : wq.popBytes count = .none := by
        rw [← Option.not_isSome_iff_eq_none, WriteQueue.popBytes_isSome hok]
        exact hle
      rw [hnone, Option.bind_none]
      exact iff_of_false (by simp) (by omega)

theorem pushIoVecs_ok (iov : List IoVec) {wq : WriteQueue} (hok : wq.Ok) : (iov.foldl pushIoVec wq).Ok := by
  induction iov generalizing wq with
  | nil => exact hok
  | cons v iov ih =>
    refine ih ?_
    unfold pushIoVec
    split
    · exact hok.pushBack _
    split
    · exact hok.pushBack _
    · exact hok

/-- The queue keeps its count and its offset, whatever is pushed. -/
theorem enqueueSend_ok {wq wq' : WriteQueue} {packet n : Nat} {ev : ErlIOVec} {mem : Mem} (hok : wq.Ok)
    (he : enqueueSend wq packet ev mem = (wq', n)) : wq'.Ok := by
  unfold enqueueSend at he
  split at he
  · split at he
    · obtain ⟨rfl, -⟩ := Prod.mk.inj he
      exact pushIoVecs_ok _ (hok.pushBack _)
    · obtain ⟨rfl, -⟩ := Prod.mk.inj he
      exact pushIoVecs_ok _ hok
  · obtain ⟨rfl, -⟩ := Prod.mk.inj he
    exact hok

/-! ## One step -/

/-- The environment up to the first EOF. -/
def SendGuard : Runs.Guard UtpHandler Event (List Effect) := fun t _ e =>
  match e with
  | .outputv _ ev w _ => ev.Wf ∧ w.Lawful
  | .stateChange .writable w => w.Lawful
  | .stateChange .connect _ => ∀ x ∈ t, (∀ p ev w mem, x.event ≠ .outputv p ev w mem) ∧
      ∀ w, x.event ≠ .stateChange .connect w
  | .stateChange .eof _ => False
  | .doWrite _ => False
  | _ => True

/-- What the sends rest on. -/
structure SendOk (h : UtpHandler) : Prop where
  ok : h.writeQueue.Ok
  writable : h.writable = true → h.writeQueue.size = 0
  live : h.utp = .none → h.writeQueue.size = 0

/-- Every `do_write` asks for what there is, and every `UTP_Close` finds an
empty queue. -/
def Orderly (o : List Effect) : Prop :=
  ∀ x ∈ o, (∀ bytes queued, x = .written bytes queued → bytes.length ≤ queued) ∧
    ∀ s n, x = .utp s (.close n) → n = 0

theorem Orderly.of_quiet {o : List Effect} (h : o.all Effect.quiet = true) : Orderly o := by
  intro x hx
  have hq : x.quiet = true := List.all_eq_true.1 h x hx
  refine ⟨?_, ?_⟩
  · intro bytes queued he
    rw [he] at hq
    cases hq
  · intro s n he
    rw [he] at hq
    cases hq

theorem Orderly.append {o o' : List Effect} (h : Orderly o) (h' : Orderly o') : Orderly (o ++ o') := by
  intro x hx
  exact (List.mem_append.1 hx).elim (h x) (h' x)

theorem Orderly.of_writes {ws : List Effect}
    (h : ∀ x ∈ ws, ∃ bytes queued, x = .written bytes queued ∧ bytes.length ≤ queued) : Orderly ws := by
  intro x hx
  obtain ⟨bytes, queued, rfl, hle⟩ := h x hx
  exact ⟨fun _ _ he => by cases he; exact hle, fun _ _ he => by cases he⟩

/-- What a step does to the stream. -/
structure SendStep (h : UtpHandler) (e : Event) (o : List Effect) (h' : UtpHandler) : Prop where
  after : SendOk h'
  bytes : o.flatMap Effect.handed ++ h'.writeQueue.bytes = h.writeQueue.bytes ++ sentBytes h e o
  orderly : Orderly o

@[simp] theorem all_quiet_dataMessages (so : SockOpts) (receiver : Receiver) (ms : List Packet) :
    (dataMessages so receiver ms).all Effect.quiet = true :=
  all_dataMessages so receiver ms fun _ => by cases receiver <;> rfl

@[simp] theorem all_quiet_bufferSets (utp : Option UTPSocket) (saved so : SockOpts) :
    (bufferSets utp saved so).all Effect.quiet = true :=
  all_bufferSets utp saved so fun _ _ => rfl

@[simp] theorem all_quiet_drainedCall (utp : Option UTPSocket) (qsize : Nat) :
    (drainedCall utp qsize).all Effect.quiet = true :=
  all_drainedCall utp qsize rfl

@[simp] theorem all_quiet_deselect (h : UtpHandler) : h.deselect.all Effect.quiet = true :=
  all_deselect h rfl

variable {h h' : UtpHandler} {e : Event} {o : List Effect}

theorem Emission.quiet {len : Nat} {receiver : Receiver} {qsize : Nat} {mem : Mem} {sent : Bool} {q : Nat}
    (he : Emission h len receiver qsize mem sent q o h') : o.all Effect.quiet = true := by
  cases he <;> simp [Effect.quiet]

theorem Emission.writeSide {len : Nat} {receiver : Receiver} {qsize : Nat} {mem : Mem} {sent : Bool} {q : Nat}
    (he : Emission h len receiver qsize mem sent q o h') :
    h'.writeQueue = h.writeQueue ∧ h'.writable = h.writable ∧ h'.utp = h.utp := by
  cases he <;> exact ⟨rfl, rfl, rfl⟩

theorem CloseUtp.writeQueue (hc : CloseUtp h o h') : h'.writeQueue = h.writeQueue := by
  cases hc <;> rfl

theorem Flush.queueOk {w : UtpWrite} (hf : Flush h w o h') (hok : h.writeQueue.Ok) : h'.writeQueue.Ok := by
  cases hf with
  | empty => exact hok
  | wrote _ hws => exact (writes_hands _ hok hws).1

/-- Every step keeps the write queue in order, whatever the environment
does. -/
theorem Step.queueOk (hs : Step h e o h') (hok : h.writeQueue.Ok) : h'.writeQueue.Ok := by
  cases hs with
  | outputvAccepted _ _ _ he hws =>
    exact (writes_hands _ (enqueueSend_ok hok he) hws).1
  | recvSent _ _ hem | recvParked _ _ hem => exact hem.writeSide.1 ▸ hok
  | setoptsEmit _ _ _ hem | doReadActive _ _ hem => exact hem.writeSide.1 ▸ hok
  | doReadAnswers _ _ _ hem => exact hem.writeSide.1 ▸ hok
  | closeOpened _ _ hcl | errorReset _ hcl => exact hcl.writeQueue ▸ hok
  | stopDeleted hcl | stopped hcl => exact hcl.writeQueue ▸ hok
  | doWrite hws => exact (writes_hands _ hok hws).1
  | eof _ hcl => exact hcl.writeQueue ▸ .new
  | eofStopped => exact .new
  | writable hf hr =>
    have hflush := hf.queueOk hok
    cases hr <;> exact hflush
  | writableCloses hf hr _ hcl =>
    have hflush := hf.queueOk hok
    cases hr <;> exact hcl.writeQueue ▸ hflush
  | _ => exact hok

theorem SendStep.frame (hi : SendOk h) (hq : h'.writeQueue = h.writeQueue) (hw : h'.writable = h.writable)
    (hu : h'.utp = h.utp) (he : sentBytes h e o = []) (ho : o.all Effect.quiet = true) : SendStep h e o h' :=
  ⟨⟨hq ▸ hi.ok, by rw [hq, hw]; exact hi.writable, by rw [hq, hu]; exact hi.live⟩,
    by rw [handed_of_quiet ho, he, hq, List.nil_append, List.append_nil], .of_quiet ho⟩

/-- `close_utp` keeps the queue, and closes only over an empty one. -/
theorem CloseUtp.send (hc : CloseUtp h o h') (hi : SendOk h) :
    SendOk h' ∧ h'.writeQueue = h.writeQueue ∧ h'.writable = h.writable ∧ o.flatMap Effect.handed = [] ∧ Orderly o := by
  cases hc with
  | done _ _ h0 =>
    refine ⟨⟨hi.ok, hi.writable, fun _ => h0⟩, rfl, rfl, rfl, ?_⟩
    intro x hx
    obtain rfl := List.mem_singleton.1 hx
    exact ⟨by simp, by simp⟩
  | skipped => exact ⟨hi, rfl, rfl, rfl, .of_quiet rfl⟩

/-- The flush hands over the front of the queue, and only a handler whose
queue is empty becomes writable. -/
theorem Flush.send {w : UtpWrite} (hf : Flush h w o h') (hw : w.Lawful) (hi : SendOk h) :
    SendOk h' ∧ o.flatMap Effect.handed ++ h'.writeQueue.bytes = h.writeQueue.bytes ∧ Orderly o := by
  cases hf with
  | empty h0 => exact ⟨⟨hi.ok, fun _ => h0, fun _ => h0⟩, rfl, .of_quiet rfl⟩
  | wrote h0 hws =>
    obtain ⟨ws', wq', hws', hok, hb, hs, hx⟩ := writes_eq _ hi.ok (hw.le h.writeQueue.size)
    obtain ⟨rfl, rfl⟩ := Prod.mk.inj (Option.some.inj (hws'.symm.trans hws))
    refine ⟨⟨hok, fun hr => ?_, fun hu => absurd (hi.live hu) h0⟩, by simpa [Effect.handed] using hb, ?_⟩
    · show wq'.size = 0
      rw [hs, hw.all _ hr, Nat.sub_self]
    · exact (Orderly.of_quiet (o := [_]) rfl).append (.of_writes hx)

theorem Retry.send (hr : Retry h o h') (hi : SendOk h) :
    SendOk h' ∧ h'.writeQueue = h.writeQueue ∧ o.flatMap Effect.handed = [] ∧ Orderly o := by
  cases hr with
  | retried => exact ⟨⟨hi.ok, hi.writable, hi.live⟩, rfl, rfl, .of_quiet rfl⟩
  | quiet => exact ⟨hi, rfl, rfl, .of_quiet rfl⟩

theorem SendOk.of_eq (hi : SendOk h) (hq : h'.writeQueue = h.writeQueue) (hw : h'.writable = h.writable)
    (hu : h'.utp = h.utp) : SendOk h' :=
  ⟨hq ▸ hi.ok, by rw [hq, hw]; exact hi.writable, by rw [hq, hu]; exact hi.live⟩

theorem SendStep.close {h₁ h₂ : UtpHandler} {o₁ o₂ : List Effect} (hc : CloseUtp h₁ o₁ h₂) (hi : SendOk h₁)
    (hq₁ : h₁.writeQueue = h.writeQueue) (hq : h'.writeQueue = h₂.writeQueue)
    (hw : h'.writable = h₂.writable) (hu : h'.utp = h₂.utp) (he : sentBytes h e (o₁ ++ o₂) = [])
    (ho : o₂.all Effect.quiet = true) : SendStep h e (o₁ ++ o₂) h' := by
  obtain ⟨hi₂, hq₂, -, hnil, hord⟩ := hc.send hi
  refine ⟨hi₂.of_eq hq hw hu, ?_, hord.append (.of_quiet ho)⟩
  rw [List.flatMap_append, hnil, handed_of_quiet ho, he, hq, hq₂, hq₁, List.append_nil, List.nil_append,
    List.append_nil]

theorem outputvAccepted_send {p : Pid} {ev : ErlIOVec} {w : UtpWrite} {mem : Mem} {s : UTPSocket} {wq wq' : WriteQueue}
    {n : Nat} {ws : List Effect} (hi : SendOk h) (hev : ev.Wf) (hw : w.Lawful) (hwr : h.writable = true)
    (hu : h.utp = .some s) (he : enqueueSend h.writeQueue h.sockopts.packet ev mem = (wq, n))
    (hws : writes wq (w.counts n) = .some (ws, wq')) :
    SendStep h (.outputv p ev w mem) (.utp (.some s) (.write n) :: ws ++ [.send (.pid p) (.utpReply .ok)])
      { h with writeQueue := wq', writable := w.ret n } := by
  obtain ⟨hok, hb, hn⟩ := enqueueSend_eq hi.ok hev he
  have hempty : h.writeQueue.bytes = [] := hi.ok.bytes_eq_nil.2 (hi.writable hwr)
  have hsize : wq.size = n := by rw [← hok.length_bytes, hb, hempty, hn, List.nil_append]
  obtain ⟨ws', wq'', hws', hok', hb', hs', hx⟩ := writes_eq _ hok ((hw.le n).trans_eq hsize.symm)
  obtain ⟨rfl, rfl⟩ := Prod.mk.inj (Option.some.inj (hws'.symm.trans hws))
  refine ⟨⟨hok', fun hr => ?_, fun hn => by rw [hu] at hn; cases hn⟩, ?_, ?_⟩
  · -- `UTP_Write` answers true only when it took everything
    show WriteQueue.size _ = 0
    rw [hs', hw.all n hr, hsize, Nat.sub_self]
  · have hsent : sentBytes h (.outputv p ev w mem)
        (.utp (.some s) (.write n) :: ws' ++ [.send (.pid p) (.utpReply .ok)]) =
          framed h.sockopts.packet mem ev.payload := by simp [sentBytes, answersOk]
    rw [hsent, ← hb, ← hb']
    simp [Effect.handed]
  · exact ((Orderly.of_quiet (o := [_]) rfl).append (.of_writes hx)).append (.of_quiet rfl)

/-- **One step conserves the stream.** A CONNECT must find an empty queue. -/
theorem sent_step {t : Trace} (hs : Step h e o h') (hi : SendOk h) (hg : SendGuard t h e)
    (hconn : ∀ w, e = .stateChange .connect w → h.writeQueue.size = 0) : SendStep h e o h' := by
  cases hs with
  | outputvRefused => exact .frame hi rfl rfl rfl (by simp [sentBytes, answersOk]) rfl
  | outputvAccepted _ hu hwr he hws => exact outputvAccepted_send hi hg.1 hg.2 hwr hu he hws
  | outputvTimedOut => exact .frame hi rfl rfl rfl (by simp [sentBytes, answersOk]) rfl
  | outputvParked =>
    refine .frame hi rfl rfl rfl ?_ rfl
    simp only [sentBytes, answersOk, parkReply]
    split <;> simp
  | recvSent _ _ he =>
    obtain ⟨hq, hw, hu⟩ := he.writeSide
    exact .frame hi hq hw hu rfl (by simp [he.quiet, Effect.quiet])
  | recvParked _ _ he =>
    obtain ⟨hq, hw, hu⟩ := he.writeSide
    exact .frame hi hq hw hu rfl (by simp [he.quiet, Effect.quiet])
  | closeOpened _ _ hc => exact .close hc (hi.of_eq rfl rfl rfl) rfl rfl rfl rfl rfl rfl
  | setoptsQuiet => exact .frame hi rfl rfl rfl rfl (by simp [Effect.quiet])
  | setoptsEmit _ _ _ he =>
    obtain ⟨hq, hw, hu⟩ := he.writeSide
    exact .frame hi hq hw hu rfl (by simp [he.quiet, Effect.quiet])
  | stopDeleted hc => exact .close hc hi rfl rfl rfl rfl rfl rfl
  | stopped hc =>
    rw [← List.append_nil o]
    exact .close hc hi rfl rfl rfl rfl rfl rfl
  | doReadAnswers _ _ _ he =>
    obtain ⟨hq, hw, hu⟩ := he.writeSide
    exact .frame hi hq hw hu rfl (by simp [he.quiet])
  | doReadActive _ _ he =>
    obtain ⟨hq, hw, hu⟩ := he.writeSide
    exact .frame hi hq hw hu rfl (by simp [he.quiet])
  | doWrite => exact hg.elim
  | eof => exact hg.elim
  | eofStopped => exact hg.elim
  | writable hf hr =>
    obtain ⟨hi₁, hb₁, ho₁⟩ := hf.send hg hi
    obtain ⟨hi₂, hq₂, hb₂, ho₂⟩ := hr.send hi₁
    refine ⟨hi₂, ?_, ho₁.append ho₂⟩
    rw [List.flatMap_append, hb₂, hq₂, List.append_nil, hb₁]
    exact (List.append_nil _).symm
  | writableCloses hf hr _ hc =>
    obtain ⟨hi₁, hb₁, ho₁⟩ := hf.send hg hi
    obtain ⟨hi₂, hq₂, hb₂, ho₂⟩ := hr.send hi₁
    obtain ⟨hi₃, hq₃, -, hb₃, ho₃⟩ := hc.send hi₂
    refine ⟨hi₃, ?_, (ho₁.append ho₂).append ho₃⟩
    rw [List.flatMap_append, List.flatMap_append, hb₂, hb₃, hq₃, hq₂, List.append_nil, List.append_nil, hb₁]
    exact (List.append_nil _).symm
  | connectAnswers | connects =>
    have h0 := hconn _ rfl
    exact ⟨⟨hi.ok, fun _ => h0, fun _ => h0⟩, (List.append_nil _).symm, .of_quiet rfl⟩
  | destroyingAnswers =>
    refine ⟨⟨hi.ok, by simp, hi.live⟩, ?_, ?_⟩
    · rw [handed_of_quiet (by split <;> simp [Effect.quiet])]
      exact (List.append_nil _).symm
    · exact .of_quiet (by split <;> simp [Effect.quiet])
  | destroyingNotifies =>
    refine ⟨⟨hi.ok, by simp, hi.live⟩, ?_, ?_⟩
    · rw [handed_of_quiet (by split <;> simp [Effect.quiet])]
      exact (List.append_nil _).symm
    · exact .of_quiet (by split <;> simp [Effect.quiet])
  | destroyingDeletes => exact .frame hi rfl rfl rfl rfl (by simp [Effect.quiet])
  | destroyingIgnored => exact .frame hi rfl rfl rfl rfl (by simp)
  | errorConnecting _ ho =>
    refine .frame hi rfl rfl rfl rfl (List.all_eq_true.2 fun x hx => ?_)
    obtain ⟨ref, rfl⟩ := ho x hx
    rfl
  | errorReset _ hc =>
    rw [← List.append_nil o]
    exact .close hc (hi.of_eq rfl rfl rfl) rfl rfl rfl rfl rfl rfl
  | errorReported => exact .frame hi rfl rfl rfl rfl (by split <;> rfl)
  | incomingTaken _ hu => exact ⟨⟨hi.ok, fun _ => hi.live hu, by simp⟩, (List.append_nil _).symm, .of_quiet rfl⟩
  | _ => exact .frame hi rfl rfl rfl rfl rfl

/-! ## Runs -/

/-- What every run keeps. -/
structure Conserved (t : Trace) (h : UtpHandler) : Prop where
  send : SendOk h
  bytes : handed t ++ h.writeQueue.bytes = sentStream t
  orderly : ∀ x ∈ t, Orderly x.out

theorem Conserved.start {h₀ : UtpHandler} (hq : h₀.writeQueue = .new) : Conserved [] h₀ :=
  ⟨⟨hq ▸ .new, fun _ => by rw [hq]; rfl, fun _ => by rw [hq]; rfl⟩, by rw [hq]; rfl, by simp⟩

/-- No send so far, so the queue is empty: what CONNECT relies on. -/
theorem Conserved.size_of_no_send {t : Trace} (hc : Conserved t h)
    (ht : ∀ x ∈ t, ∀ p ev w mem, x.event ≠ .outputv p ev w mem) : h.writeQueue.size = 0 := by
  have hnil : sentStream t = [] := by
    simp only [sentStream, List.flatMap_eq_nil_iff]
    intro x hx
    unfold sentBytes
    split
    · next p ev w mem he => exact absurd he (ht x hx p ev w mem)
    · rfl
  have hb := hc.bytes
  rw [hnil, List.append_eq_nil_iff] at hb
  exact hc.send.ok.bytes_eq_nil.1 hb.2

theorem Conserved.step {t : Trace} (hc : Conserved t h) (hg : SendGuard t h e)
    (hm : machine h e = .some (h', o)) : Conserved (t ++ [⟨h, e, o⟩]) h' := by
  have hstep := sent_step (machine_step hm) hc.send hg (by
    rintro w rfl
    exact hc.size_of_no_send fun x hx => (hg x hx).1)
  refine ⟨hstep.after, ?_, ?_⟩
  · have hb := hc.bytes
    simp only [handed, sentStream, List.flatMap_append, List.flatMap_cons, List.flatMap_nil, List.append_nil] at hb ⊢
    rw [List.append_assoc, hstep.bytes, ← List.append_assoc, hb]
  · intro x hx
    rcases List.mem_append.1 hx with hx | hx
    · exact hc.orderly x hx
    · obtain rfl := List.mem_singleton.1 hx
      exact hstep.orderly

theorem conserved {h₀ : UtpHandler} {t : Trace} (hq : h₀.writeQueue = .new)
    (run : Runs.Run machine SendGuard [] h₀ t h) : Conserved t h :=
  run.invariant (.start hq) fun _ _ _ _ _ hc hg hm => hc.step hg hm

/-- The calls the send stream is made of. -/
def Event.sends : Event → Bool
  | .outputv .. => true
  | .close .. => true
  | .stateChange .writable _ => true
  | _ => false

/-- While the queue is in order these calls are defined: no `pop_bytes`
takes the front of an empty list. -/
theorem SendOk.defined {t : Trace} (hi : SendOk h) (he : Event.sends e = true) (hg : SendGuard t h e) :
    (machine h e).isSome = true := by
  rw [machine, Option.isSome_map]
  cases e with
  | outputv p ev w mem =>
    simp only [handle, outputv]
    split
    · rfl
    split
    · next hwr =>
      rcases heq : enqueueSend h.writeQueue h.sockopts.packet ev mem with ⟨wq, n⟩
      obtain ⟨hok, hb, hn⟩ := enqueueSend_eq hi.ok hg.1 heq
      have hempty : h.writeQueue.bytes = [] := hi.ok.bytes_eq_nil.2 (hi.writable hwr)
      have hsize : wq.size = n := by rw [← hok.length_bytes, hb, hempty, hn, List.nil_append]
      obtain ⟨ws, wq', hws, -⟩ := writes_eq _ hok ((hg.2.le n).trans_eq hsize.symm)
      simp [utpWrite_eq, hws]
    · split <;> rfl
  | close p buf => rfl
  | stateChange s w =>
    cases s with
    | writable =>
      simp only [handle, doStateChange, stateWritable]
      split
      · obtain ⟨ws, wq', hws, -⟩ := writes_eq _ hi.ok (hg.le h.writeQueue.size)
        simp [utpWrite_eq, hws]
      · rfl
    | connect | eof | destroying => cases he
  | _ => cases he

/-- **The send stream is conserved**: after every run up to the first EOF,
what was handed to libutp and what is still queued are the frames of the
sends answered `ok`. A writable handler has an empty queue, no `do_write`
asks for more than there is, and no `UTP_Close` leaves bytes behind. -/
theorem send_stream_conserved {h₀ h : UtpHandler} {t : Trace} (hq : h₀.writeQueue = .new)
    (run : Runs.Run machine SendGuard [] h₀ t h) :
    handed t ++ h.writeQueue.bytes = sentStream t ∧ (h.writable = true → h.writeQueue.size = 0) ∧
      (∀ x ∈ t, ∀ bytes queued, .written bytes queued ∈ x.out → bytes.length ≤ queued) ∧
      (∀ x ∈ t, ∀ s unsent, .utp s (.close unsent) ∈ x.out → unsent = 0) ∧
      (∀ e, Event.sends e = true → SendGuard t h e → (machine h e).isSome = true) := by
  have hc := conserved hq run
  refine ⟨hc.bytes, hc.send.writable, ?_, ?_, fun e he hg => hc.send.defined he hg⟩
  · intro x hx bytes queued hw
    exact (hc.orderly x hx _ hw).1 _ _ rfl
  · intro x hx s unsent hw
    exact (hc.orderly x hx _ hw).2 _ _ rfl

/-- A send that libutp takes nothing of, and the flush. -/
theorem send_stream_conserved_partial :
    ∃ t h, Runs.Run machine SendGuard [] (startServer { SockOpts.new with packet := 2 } 1) t h ∧
      handed t ++ h.writeQueue.bytes = [0, 3, 7, 8, 9] ∧
      (handed t ++ h.writeQueue.bytes = sentStream t ∧ (h.writable = true → h.writeQueue.size = 0) ∧
        (∀ x ∈ t, ∀ bytes queued, .written bytes queued ∈ x.out → bytes.length ≤ queued) ∧
        (∀ x ∈ t, ∀ s unsent, .utp s (.close unsent) ∈ x.out → unsent = 0) ∧
        (∀ e, Event.sends e = true → SendGuard t h e → (machine h e).isSome = true)) :=
  let ev : ErlIOVec := ⟨3, [⟨[7, 8], .none⟩, ⟨[9], .some [9]⟩]⟩
  have run := ((Runs.Run.start machine SendGuard (startServer { SockOpts.new with packet := 2 } 1)).next
    (.outputv 1 ev .nothing fun _ => 0) ⟨⟨rfl, by simp [ev]⟩, UtpWrite.nothing_lawful⟩ rfl).next
    (.stateChange .writable .whole) UtpWrite.whole_lawful rfl
  ⟨_, _, run, by decide, send_stream_conserved rfl run⟩

/-- The stream with a length header before every payload, empty ones too. -/
def headedStream (t : Trace) : List UInt8 :=
  t.flatMap fun x => match x.event with
    | .outputv p ev _ mem =>
      if answersOk p x.out then headerBytes x.pre.sockopts.packet ev.payload.length mem ++ ev.payload else []
    | _ => []

/-- A send of no bytes in packet mode is answered `ok`, and puts no header
on the stream. -/
theorem empty_send_has_no_header :
    ∃ t h, Runs.Run machine SendGuard [] (startServer { SockOpts.new with packet := 1 } 1) t h ∧
      handed t ++ h.writeQueue.bytes = [] ∧ headedStream t = [0] :=
  ⟨_, _, (Runs.Run.start machine SendGuard _).next (.outputv 1 ⟨0, []⟩ .nothing fun _ => 0)
    ⟨⟨rfl, by simp⟩, UtpWrite.nothing_lawful⟩ rfl, rfl, rfl⟩

/-! ## Frames -/

/-- The payloads of the sends answered `ok`. -/
def accepted (t : Trace) : List (List UInt8) :=
  t.filterMap fun x => match x.event with
    | .outputv p ev _ _ => if answersOk p x.out then .some ev.payload else .none
    | _ => .none

/-- Sends of non-empty payloads, while the packet setting is `p`. As in
`SendGuard` no empty entry of an `iovec` brings a binary: it would put its
bytes behind a length that does not count them. -/
def FramedGuard (p : Nat) : Runs.Guard UtpHandler Event (List Effect) := fun t h e =>
  SendGuard t h e ∧ ∀ q ev w mem, e = .outputv q ev w mem → ev.payload ≠ [] ∧ h.sockopts.packet = p

/-- `outputv` takes what it is given. -/
def takes (h : UtpHandler) : Prop := h.status = .connected ∧ h.utp ≠ .none ∧ h.writable = true

/-- A send is answered `ok` exactly in these states: nothing about its
payload is asked. -/
theorem answersOk_iff {p : Pid} {ev : ErlIOVec} {w : UtpWrite} {mem : Mem}
    (hm : machine h (.outputv p ev w mem) = .some (h', o)) : answersOk p o = true ↔ h.takes := by
  rcases machine_step hm with hc | ⟨hc, hu, hw, -, -⟩ | ⟨-, -, hw, -⟩ | ⟨-, -, hw, -⟩
  · simp only [answersOk, takes]
    rcases hc with hc | hc <;> simp [hc]
  · simp [answersOk, takes, hc, hu, hw]
  · simp [answersOk, takes, hw]
  · simp only [answersOk, parkReply, takes, hw]
    split <;> simp

/-- The stream of a run is the frames of the payloads it accepted. -/
theorem framed_stream {p : Nat} {h₀ : UtpHandler} {t : Trace} (hp : p ∈ [1, 2, 4]) (hq : h₀.writeQueue = .new)
    (run : Runs.Run machine (FramedGuard p) [] h₀ t h) :
    handed t ++ h.writeQueue.bytes = (accepted t).flatMap (frame p) := by
  rw [(conserved hq (run.mono fun _ _ _ hg => hg.1)).bytes]
  have hentry : ∀ x ∈ t, ∀ q ev w mem, x.event = .outputv q ev w mem →
      framed x.pre.sockopts.packet mem ev.payload = frame p ev.payload := by
    intro x hx q ev w mem he
    obtain ⟨_, _, hg, _⟩ := (run.entry hx).resolve_left (by simp)
    obtain ⟨hne, hpk⟩ := hg.2 _ _ _ _ he
    rw [framed, if_neg hne, hpk, headerBytes, if_pos (by simp at hp ⊢; omega), frame]
  clear run
  induction t with
  | nil => rfl
  | cons x t ih =>
    have ih := ih fun y hy => hentry y (by simp [hy])
    have hx := hentry x (by simp)
    simp only [sentStream, accepted] at ih ⊢
    rw [List.flatMap_cons, ih, List.filterMap_cons]
    rcases he : x.event with ⟨q, ev, w, mem⟩ | _ <;> try simp [sentBytes]
    by_cases hok : answersOk q x.out = true <;> simp [hok, hx q ev w mem he]

/-- **Framing round trips exactly when every payload fits**: in every run of
non-empty sends with packet setting 1, 2 or 4, the stream deframes to the
payloads accepted, none of them too long, if and only if no payload too long
for `p` bytes reached a handler that takes sends. -/
theorem framing_iff_fits {p : Nat} {h₀ h : UtpHandler} {t : Trace} (hp : p ∈ [1, 2, 4]) (hq : h₀.writeQueue = .new)
    (run : Runs.Run machine (FramedGuard p) [] h₀ t h) :
    (deframe p (handed t ++ h.writeQueue.bytes) = .some (accepted t) ∧ ∀ x ∈ accepted t, x.length < 256 ^ p) ↔
      ∀ x ∈ t, ∀ q ev w mem, x.event = .outputv q ev w mem → x.pre.takes → ev.payload.length < 256 ^ p := by
  have hpos : 0 < p := by simp at hp; omega
  rw [framed_stream hp hq run, deframe_frames hpos, and_self]
  constructor
  · intro hfit x hx q ev w mem he ht
    obtain ⟨_, _, _, hm⟩ := (run.entry hx).resolve_left (by simp)
    rw [he] at hm
    refine hfit _ (List.mem_filterMap.2 ⟨x, hx, ?_⟩)
    simp [he, (answersOk_iff hm).2 ht]
  · intro hfit y hy
    obtain ⟨x, hx, hy⟩ := List.mem_filterMap.1 hy
    obtain ⟨_, _, _, hm⟩ := (run.entry hx).resolve_left (by simp)
    rcases he : x.event with ⟨q, ev, w, mem⟩ | _ <;> simp only [he] at hy <;> try cases hy
    split at hy
    · next hok =>
      obtain rfl := Option.some.inj hy
      rw [he] at hm
      exact hfit x hx q ev w mem he ((answersOk_iff hm).1 hok)
    · cases hy

/-- One byte in two-byte packet mode: it fits. -/
theorem framing_fits_one :
    ∃ t h, Runs.Run machine (FramedGuard 2) [] (startServer { SockOpts.new with packet := 2 } 1) t h ∧
      accepted t = [[7]] ∧
      ((deframe 2 (handed t ++ h.writeQueue.bytes) = .some (accepted t) ∧ ∀ x ∈ accepted t, x.length < 256 ^ 2) ↔
        ∀ x ∈ t, ∀ q ev w mem, x.event = .outputv q ev w mem → x.pre.takes → ev.payload.length < 256 ^ 2) :=
  let ev : ErlIOVec := ⟨1, [⟨[7], .none⟩]⟩
  have run := (Runs.Run.start machine (FramedGuard 2) (startServer { SockOpts.new with packet := 2 } 1)).next
    (.outputv 1 ev .nothing fun _ => 0)
    ⟨⟨⟨rfl, by simp [ev]⟩, UtpWrite.nothing_lawful⟩,
      by rintro _ _ _ _ ⟨⟩; exact ⟨by simp [ev, ErlIOVec.payload], rfl⟩⟩ rfl
  ⟨_, _, run, rfl, framing_iff_fits (by simp) rfl run⟩

theorem one_send (x : List UInt8) (hx : x ≠ []) :
    ∃ t h, Runs.Run machine (FramedGuard 1) [] (startServer { SockOpts.new with packet := 1 } 1) t h ∧
      accepted t = [x] := by
  have hpay : (⟨x.length, [⟨x, .none⟩]⟩ : ErlIOVec).payload = x := by simp [ErlIOVec.payload]
  have run := (Runs.Run.start machine (FramedGuard 1) (startServer { SockOpts.new with packet := 1 } 1)).next
    (.outputv 1 ⟨x.length, [⟨x, .none⟩]⟩ .nothing fun _ => 0)
    ⟨⟨⟨by rw [hpay], by simp⟩, UtpWrite.nothing_lawful⟩, by rintro _ _ _ _ ⟨⟩; exact ⟨by rwa [hpay], rfl⟩⟩
    (by
      have hlen : x.length > 0 := List.length_pos_iff.2 hx
      simp only [machine, handle, outputv, enqueueSend, hlen, if_true]
      rfl)
  refine ⟨_, _, run, ?_⟩
  simp [accepted, answersOk, hpay, UtpWrite.nothing]

/-- 256 bytes in one-byte packet mode are accepted, and do not deframe. Nor does
one byte after an empty entry that brings a binary of two. -/
theorem oversized_send_accepted :
    (∃ t h, Runs.Run machine (FramedGuard 1) [] (startServer { SockOpts.new with packet := 1 } 1) t h ∧
      accepted t = [List.replicate 256 7] ∧ deframe 1 (handed t ++ h.writeQueue.bytes) ≠ .some (accepted t)) ∧
    ∃ t h, Runs.Run machine (fun _ _ _ => True) [] (startServer { SockOpts.new with packet := 1 } 1) t h ∧
      accepted t = [[7]] ∧ deframe 1 (handed t ++ h.writeQueue.bytes) ≠ .some (accepted t) := by
  constructor
  · obtain ⟨t, h, run, ha⟩ := one_send (List.replicate 256 7) (by rw [ne_eq, List.replicate_eq_nil_iff]; decide)
    refine ⟨t, h, run, ha, fun hd => ?_⟩
    rw [framed_stream (by simp) rfl run, ha] at hd
    have hfit := (deframe_frames (by decide) _).1 hd _ (List.mem_singleton.2 rfl)
    rw [List.length_replicate] at hfit
    exact absurd hfit (by decide)
  · have run := (Runs.Run.start machine (fun _ _ _ => True) (startServer { SockOpts.new with packet := 1 } 1)).next
      (.outputv 1 ⟨1, [⟨[], .some [9, 9]⟩, ⟨[7], .none⟩]⟩ .nothing fun _ => 0) trivial rfl
    refine ⟨_, _, run, rfl, ?_⟩
    decide

end UtpHandler

end GenUtp
