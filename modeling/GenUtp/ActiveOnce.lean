/-
Active once: from one arming to the next `setopts` that sets `active`, the
connected process is sent one data message at most.

A socket that is armed waits for its message: no step but one that sends it
one changes `active`, and that step sets it to `false`. From then on no step
sends the connected process anything, a `setopts` of other options included,
and a chunk stays in the queue or goes to a `recv`. `once_per_arming` follows
both phases over any run, with every other request and callback in between.
-/
import GenUtp.Getopts

namespace GenUtp

/-! ## The merge of `active` -/

namespace SockOpts

theorem mergeOne_active {so cur r : SockOpts} {o : Opt} (ho : o ≠ .active) (hm : mergeOne so cur o = .ok r) :
    r.active = cur.active := by
  cases o with
  | active => exact absurd rfl ho
  | ip | port | inet | inet6 => cases hm
  | _ =>
    cases hm
    rfl

theorem merge_active {so r : SockOpts} {names : List Opt} {cur : SockOpts} (hno : .active ∉ names)
    (hm : names.foldlM (mergeOne so) cur = .ok r) : r.active = cur.active := by
  induction names generalizing cur with
  | nil =>
    cases hm
    rfl
  | cons o names ih =>
    rw [List.mem_cons, not_or] at hno
    rw [List.foldlM_cons] at hm
    cases h₁ : mergeOne so cur o with
    | error f =>
      rw [h₁] at hm
      cases hm
    | ok cur' =>
      rw [h₁] at hm
      rw [ih hno.2 hm]
      exact mergeOne_active (fun heq => hno.1 heq.symm) h₁

end SockOpts

/-! ## Messages to the connected process -/

def Effect.message : Effect → Option Payload
  | .output (.utp p) => .some p
  | _ => .none

/-- The data messages to the connected process among some effects. -/
def messages (o : List Effect) : List Payload := o.filterMap Effect.message

@[simp] theorem messages_append (o o' : List Effect) : messages (o ++ o') = messages o ++ messages o' :=
  List.filterMap_append

theorem Effect.message_payload {x : Effect} {p : Payload} (h : x.message = .some p) : x.payload = .some p := by
  unfold message at h
  split at h
  · exact h
  · cases h

theorem messages_nil {o : List Effect} (h : payloads o = []) : messages o = [] := by
  simp only [payloads, messages, List.filterMap_eq_nil_iff] at h ⊢
  intro x hx
  cases hm : x.message with
  | none => rfl
  | some p =>
    have hp := h x hx
    rw [Effect.message_payload hm] at hp
    cases hp

namespace UtpHandler

variable {h h' : UtpHandler} {e : Event} {o : List Effect}

theorem messages_proc (so : SockOpts) (caller : ErlDrvTermData) (ref : Option Ref) (ms : List Packet) :
    messages (dataMessages so (.proc caller ref) ms) = [] := by
  unfold messages dataMessages
  rw [List.filterMap_map, List.filterMap_eq_nil_iff]
  exact fun _ _ => rfl

theorem messages_connected (so : SockOpts) (m : Packet) :
    messages (dataMessages so .connected [m]) = [packetPayload so .connected m] := rfl

/-! ## One step -/

/-- The event is a `setopts` that is taken, and one of the options it names
is `active`, which it sets to `a`. -/
def SetsActive (h : UtpHandler) (e : Event) (a : Active) : Prop :=
  ∃ p buf numericHost mem bin new names so, e = .setopts p buf numericHost mem ∧ decodeBinary buf = .some bin ∧
    SockOpts.decode numericHost .new bin = .ok (new, names) ∧
    h.sockopts.decodeAndMerge numericHost bin = .ok so ∧ .active ∈ names ∧ so.active = a

/-- It is not. -/
def KeepsActive (h : UtpHandler) (e : Event) : Prop := ∀ a, ¬SetsActive h e a

/-- An armed socket after a step: still armed, or one message has gone out
and it is armed no more. -/
def Outcome (o : List Effect) (h' : UtpHandler) : Prop :=
  (messages o = [] ∧ h'.sockopts.active = .activeOnce) ∨
    ∃ p, messages o = [p] ∧ h'.sockopts.active = .activeFalse

theorem KeepsActive.merged {p : Pid} {buf : EiBuf} {numericHost : List UInt8 → Bool} {mem : Mem} {bin : List UInt8}
    {so : SockOpts} (hk : KeepsActive h (.setopts p buf numericHost mem)) (hd : decodeBinary buf = .some bin)
    (hm : h.sockopts.decodeAndMerge numericHost bin = .ok so) : so.active = h.sockopts.active := by
  have hm' := hm
  unfold SockOpts.decodeAndMerge at hm'
  cases hdec : SockOpts.decode numericHost .new bin with
  | error f =>
    rw [hdec] at hm'
    cases hm'
  | ok r =>
    obtain ⟨new, names⟩ := r
    rw [hdec] at hm'
    refine SockOpts.merge_active (fun hmem => ?_) hm'
    exact hk so.active ⟨p, buf, numericHost, mem, bin, new, names, so, rfl, hd, hdec, hm, hmem, rfl⟩

theorem emissionOf_active_eq {g : UtpHandler} {len : Nat} {mem : Mem} (hk : KeepsActive h e)
    (hcall : h.emissionOf e = .some (g, len, mem)) : g.sockopts.active = h.sockopts.active := by
  rcases emissionOf_cases hcall with ⟨rfl, -⟩ | ⟨p, buf, numericHost, m, bin, so, rfl, hd, hm, rfl⟩ | ⟨rfl, -⟩
  · rfl
  · exact hk.merged hd hm
  · rfl

theorem Emission.outcome {g g' : UtpHandler} {len qsize : Nat} {mem : Mem} {sent : Bool} {q : Nat}
    (he : Emission g len .connected qsize mem sent q o g') (ha : g.sockopts.active = .activeOnce) : Outcome o g' := by
  cases he with
  | closed | held => exact .inl ⟨rfl, ha⟩
  | sent _ hm =>
    obtain ⟨m, rfl⟩ := delivery_one (by simp [ha]) hm
    refine .inr ⟨_, messages_connected _ m, ?_⟩
    show g.sockopts.reverted.active = _
    rw [SockOpts.reverted_active, if_pos ha]

/-- **An armed socket** stays armed until its message goes out. -/
theorem armed_step (hs : Step h e o h') (ha : h.sockopts.active = .activeOnce) (hk : KeepsActive h e) :
    Outcome o h' := by
  cases read_case hs with
  | aside _ _ hso ho | stopped _ _ _ hso ho =>
    refine .inl ⟨messages_nil ho, ?_⟩
    rw [hso, ha]
  | setOnly heq hd hm _ _ _ hso ho =>
    subst heq
    refine .inl ⟨messages_nil ho, ?_⟩
    rw [hso, hk.merged hd hm, ha]
  | queued _ _ hact => cases ha.symm.trans hact
  | @emitted g g' len receiver qsize mem sent q o₁ o₂ hcall he ho ho₂ _ _ hso hreceiver =>
    have hg : g.sockopts.active = .activeOnce := (emissionOf_active_eq hk hcall).trans ha
    rcases hreceiver with ⟨rfl, -⟩ | hfalse
    · have hout := he.outcome hg
      rw [ho, Outcome, messages_append, messages_nil ho₂, List.append_nil, hso]
      exact hout
    · cases hg.symm.trans hfalse

/-- **Arming** sends a message at once, or leaves the socket armed. -/
theorem arming_step (hs : Step h e o h') (ha : SetsActive h e .activeOnce) : Outcome o h' := by
  obtain ⟨p, buf, numericHost, mem, bin, new, names, so, rfl, hd, -, hm, -, hso⟩ := ha
  obtain ⟨rfl, rfl⟩ | ⟨sent, q, o', he, rfl⟩ := hs.setopts_merged hd hm
  · refine .inl ⟨messages_nil ?_, hso⟩
    rw [payloads_append, payloads_bufferSets]
    rfl
  · have hsets : messages (bufferSets h.utp h.sockopts so) = [] := messages_nil (payloads_bufferSets _ _ _)
    have hout := he.outcome hso
    have hreply : messages [Effect.reply .ok] = [] := rfl
    rw [Outcome, messages_append, messages_append, hsets, hreply, List.append_nil, List.append_nil]
    exact hout

theorem sendOnSetopts_off (saved : Active) (readCount : List Nat) :
    sendOnSetopts saved .activeFalse readCount = false := by
  cases saved <;> rfl

theorem messages_step (hs : Step h e o h') (hno : ∀ g len mem, h.emissionOf e = .some (g, len, mem) →
    g.sockopts.active = .activeFalse) : messages o = [] := by
  have hs' := hs
  have hproc : ∀ {g g' : UtpHandler} {len qsize : Nat} {caller : ErlDrvTermData} {ref : Option Ref} {mem : Mem}
      {sent : Bool} {q : Nat} {o₁ : List Effect}, Emission g len (.proc caller ref) qsize mem sent q o₁ g' →
      messages o₁ = [] := by
    intro g g' len qsize caller ref mem sent q o₁ he
    cases he with
    | closed | held => rfl
    | sent => exact messages_proc _ _ _ _
  have hnone : h.emissionOf e = .none → messages o = [] := by
    intro hcall
    cases read_case hs' with
    | aside _ _ _ ho | stopped _ _ _ _ ho | setOnly _ _ _ _ _ _ _ ho => exact messages_nil ho
    | queued _ _ _ _ _ ho =>
      rw [ho]
      rfl
    | emitted hcall' =>
      rw [hcall] at hcall'
      cases hcall'
  cases hs with
  | recvSent _ _ he =>
    rw [messages_append, messages_append, hproc he, messages_nil (payloads_drainedCall _ _)]
    rfl
  | recvParked _ _ he =>
    rw [messages_append, hproc he]
    rfl
  | doReadAnswers _ _ _ he =>
    rw [messages_append, hproc he, messages_nil (payloads_drainedCall _ _)]
    rfl
  | setoptsEmit hd hm hsend =>
    have hfalse := hno _ _ _ (emissionOf_setopts hd hm hsend)
    simp only at hfalse
    rw [hfalse, sendOnSetopts_off] at hsend
    cases hsend
  | doReadActive hb hact => exact absurd (hno _ _ _ (emissionOf_active hb hact)) hact
  | setoptsQuiet => exact messages_nil (by rw [payloads_append, payloads_bufferSets]; rfl)
  | recvBadarg | setoptsBadarg | doReadNothing | doReadQueued | doReadShort => rfl
  | _ => exact hnone rfl

/-- **A socket whose message has gone out** sends the connected process
nothing. -/
theorem off_step (hs : Step h e o h') (ha : h.sockopts.active = .activeFalse) (hk : KeepsActive h e) :
    messages o = [] ∧ h'.sockopts.active = .activeFalse := by
  refine ⟨messages_step hs fun g len mem hcall => (emissionOf_active_eq hk hcall).trans ha, ?_⟩
  cases read_case hs with
  | aside _ _ hso | stopped _ _ _ hso => rw [hso, ha]
  | setOnly heq hd hm _ _ _ hso =>
    subst heq
    rw [hso, hk.merged hd hm, ha]
  | queued _ _ _ _ hh =>
    rw [hh]
    exact ha
  | @emitted g _ _ _ _ _ _ _ _ _ hcall he _ _ _ _ hso =>
    have hg : g.sockopts.active = .activeFalse := (emissionOf_active_eq hk hcall).trans ha
    rw [hso, he.sockopts]
    split
    · exact hg
    · rw [SockOpts.reverted_active, if_neg (by simp [hg]), hg]

theorem doRead_kept (ha : h.sockopts.active = .activeFalse) (hw : h.receiverWaiting = false) {bytes : List UInt8}
    (hb : bytes ≠ []) (mem : Mem) : machine h (.doRead bytes mem) = .some (h.received bytes, []) := by
  have hlen : bytes.length ≠ 0 := fun h0 => hb (List.length_eq_zero_iff.1 h0)
  simp [machine, handle, doRead, driverEnq, received, hlen, ha, hw]

/-! ## Any run -/

/-- The messages to the connected process over some steps. -/
def messagesOf (t : Trace) : List Payload := t.flatMap fun x => messages x.out

/-- What one arming has led to so far: no message and still armed, or one
message and `active` is `false`. -/
def OncePhase (t : Trace) (h : UtpHandler) : Prop :=
  (messagesOf t = [] ∧ h.sockopts.active = .activeOnce) ∨
    ∃ p, messagesOf t = [p] ∧ h.sockopts.active = .activeFalse

/-- A step of another kind takes one phase to the other, or leaves it. -/
theorem OncePhase.step {t : Trace} (hp : OncePhase t h) (hs : Step h e o h') (hk : KeepsActive h e) :
    OncePhase (t ++ [⟨h, e, o⟩]) h' := by
  have hsnoc : messagesOf (t ++ [⟨h, e, o⟩]) = messagesOf t ++ messages o := by
    simp [messagesOf]
  rw [OncePhase, hsnoc]
  rcases hp with ⟨hnone, harmed⟩ | ⟨p, hone, hoff⟩
  · rw [hnone, List.nil_append]
    exact armed_step hs harmed hk
  · obtain ⟨hnone, hoff'⟩ := off_step hs hoff hk
    rw [hone, hnone, List.append_nil]
    exact .inr ⟨p, rfl, hoff'⟩

/-- **Active once sends one message for each arming.** In any run, of any
requests and callbacks, from an arming on and up to where `active` is next
set: the connected process has been sent at most one data message; the socket
is still armed if it has been sent none, and passive if it has; and then a
chunk stays in the queue, unless a `recv` waits for it. -/
theorem once_per_arming {h₀ : UtpHandler} {t : Trace} (run : Runs.Run machine (fun _ _ _ => True) [] h₀ t h) :
    ∀ t₁ a t₂, t = t₁ ++ a :: t₂ → SetsActive a.pre a.event .activeOnce → (∀ x ∈ t₂, KeepsActive x.pre x.event) →
      (messagesOf (a :: t₂)).length ≤ 1 ∧
      (messagesOf (a :: t₂) = [] → h.sockopts.active = .activeOnce) ∧
      (messagesOf (a :: t₂) ≠ [] → h.sockopts.active = .activeFalse ∧ ∀ bytes mem, bytes ≠ [] →
        h.receiverWaiting = false → machine h (.doRead bytes mem) = .some (h.received bytes, [])) := by
  intro t₁ a t₂ ht harms hkeeps
  have hphase : OncePhase (a :: t₂) h := by
    refine run.since (A := fun x => SetsActive x.pre x.event .activeOnce) (K := fun x => KeepsActive x.pre x.event)
      (J := OncePhase) ?_ ?_ t₁ a t₂ ht harms hkeeps
    · intro s e s' o harms hm
      have hone : messagesOf [⟨s, e, o⟩] = messages o := by simp [messagesOf]
      rw [OncePhase, hone]
      exact arming_step (machine_step hm) harms
    · intro t s e s' o hp hk hm
      exact hp.step (machine_step hm) hk
  rcases hphase with ⟨hnone, harmed⟩ | ⟨p, hone, hoff⟩
  · rw [hnone]
    exact ⟨Nat.zero_le _, fun _ => harmed, fun hne => absurd rfl hne⟩
  · rw [hone]
    refine ⟨Nat.le_refl _, ?_, ?_⟩
    · intro hnil
      cases hnil
    · intro _
      exact ⟨hoff, fun bytes mem hb hw => doRead_kept hoff hw hb mem⟩

/-- A server is armed, and two chunks come in: the first goes out, the second
stays. -/
theorem once_per_arming_two : ∃ h a t₂, Runs.Run machine (fun _ _ _ => True) [] (startServer .new 1) (a :: t₂) h ∧
    messagesOf (a :: t₂) = [⟨[9], 1, 0, .dataList⟩] ∧ h.queue = [[8]] ∧ (messagesOf (a :: t₂)).length ≤ 1 ∧
    (messagesOf (a :: t₂) = [] → h.sockopts.active = .activeOnce) ∧
    (messagesOf (a :: t₂) ≠ [] → h.sockopts.active = .activeFalse ∧ ∀ bytes mem, bytes ≠ [] →
      h.receiverWaiting = false → machine h (.doRead bytes mem) = .some (h.received bytes, [])) := by
  have run := (((Runs.Run.start machine (fun _ _ _ => True) (startServer .new 1)).next
    (.setopts 7 [.version, .binary [10, 1]] (fun _ => false) fun _ => 0) trivial rfl).next
    (.doRead [9] fun _ => 0) trivial rfl).next (.doRead [8] fun _ => 0) trivial rfl
  refine ⟨_, _, _, run, rfl, rfl, once_per_arming run [] _ _ rfl ?_ ?_⟩
  · exact ⟨_, _, _, _, [10, 1], { SockOpts.new with active := .activeOnce }, [.active], _, rfl, rfl, rfl, rfl,
      List.mem_singleton.2 rfl, rfl⟩
  · intro x hx a hsets
    obtain ⟨p, buf, numericHost, mem, bin, new, names, so, he, -⟩ := hsets
    rcases List.mem_cons.1 hx with rfl | hx
    · cases he
    · obtain rfl := List.mem_singleton.1 hx
      cases he

end UtpHandler

end GenUtp
