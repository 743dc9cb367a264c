/-
The close handshake: a close that is answered `wait` gets its `{Ref, ok}`
when the connection is destroyed.

The process that closes has no `recv` and no other close waiting (`OneProcess`;
a send that it gave up may still be registered), and the flags say so
(`Pends`). From then on the caller, the reference and `closePending` are its
own (`Awaiting`), and none of the callbacks that may still come touches them
or leaves `closing`: a read finds no `recv` to answer, a flush may retry a
send but keeps the caller, and an error is past reporting (`await_step`).
DESTROYING therefore finds the close, and answers it instead of sending
`utp_closed` (`close_answered`).

A close that is answered `ok` at once comes too late to matter: `Known` says
that a handler with no close waiting is `closing` only after `UTP_Close`, and
`destroying` only after DESTROYING.
-/
import GenUtp.FrameHeader
import GenUtp.Waiters

namespace GenUtp

def Waiter.isSend : Waiter → Bool
  | .send _ => true
  | _ => false

namespace Event

/-- The callbacks that may come before DESTROYING. -/
def isCallback : Event → Bool
  | .doRead .. | .doWrite _ | .stateChange .writable _ | .stateChange .eof _ | .doError _ => true
  | _ => false

end Event

namespace UtpHandler

variable {h h' : UtpHandler} {e : Event} {o : List Effect} {t : Trace}

/-! ## One process -/

/-- A process asks when no `recv` and no close waits, and cancels when no
close does. -/
def AsksAlone (t : Trace) : Event → Prop
  | .outputv .. | .recv .. | .close .. | .setopts .. | .getopts .. | .peername .. | .connectValidate .. =>
      ∀ w ∈ waiters t, w.isSend = true
  | .cancelSend _ | .cancelRecv _ => ∀ w ∈ waiters t, w.isClose = false
  | _ => True

/-- The runs of one process through `gen_utp`, whose close requests name
their reference. -/
def OneProcess : Runs.Guard UtpHandler Event (List Effect) := fun t _ e =>
  AsksAlone t e ∧ ∀ p buf, e = .close p buf → decodeBinary buf ≠ .none

/-- Every `recv` and every close that the flags register waits. -/
structure Pends (t : Trace) (h : UtpHandler) : Prop where
  receiver : h.receiverWaiting = true → ∃ p ref, .recv p ref ∈ waiters t
  closer : h.closePending = true → ∃ p ref, .close p ref ∈ waiters t

/-- When only sends wait, no `recv` and no close is registered. -/
theorem Pends.free (hi : Pends t h) (hw : ∀ w ∈ waiters t, w.isSend = true) :
    h.receiverWaiting = false ∧ h.closePending = false := by
  refine ⟨Bool.eq_false_iff.2 fun hr => ?_, Bool.eq_false_iff.2 fun hc => ?_⟩
  · obtain ⟨p, ref, hmem⟩ := hi.receiver hr
    cases hw _ hmem
  · obtain ⟨p, ref, hmem⟩ := hi.closer hc
    cases hw _ hmem

/-- The flags of a `recv` and of a close that are still set were set before,
and the step has neither cancelled nor answered such a request; or it is that
request. -/
structure Carries (h : UtpHandler) (e : Event) (o : List Effect) (h' : UtpHandler) : Prop where
  receiver : h'.receiverWaiting = true →
    (h.receiverWaiting = true ∨ ∃ p ref, asked e o = .some (.recv p ref)) ∧
      ∀ p ref, e.cancels (.recv p ref) = false ∧ ∀ y ∈ o, y.answers ≠ .some (.recv p ref)
  closer : h'.closePending = true →
    (h.closePending = true ∨ ∃ p ref, asked e o = .some (.close p ref)) ∧
      ∀ p ref, e.cancels (.close p ref) = false ∧ ∀ y ∈ o, y.answers ≠ .some (.close p ref)

theorem Pends.carries (hi : Pends t h) (hc : Carries h e o h') : Pends (t ++ [⟨h, e, o⟩]) h' := by
  constructor
  · intro hr
    obtain ⟨hold | ⟨p, ref, hask⟩, hno⟩ := hc.receiver hr
    · obtain ⟨p, ref, hmem⟩ := hi.receiver hold
      exact ⟨p, ref, mem_waiters_snoc.2 ⟨mem_present.2 (.inl ⟨hmem, (hno p ref).1⟩), (hno p ref).2⟩⟩
    · exact ⟨p, ref, mem_waiters_snoc.2 ⟨mem_present.2 (.inr hask), (hno p ref).2⟩⟩
  · intro hp
    obtain ⟨hold | ⟨p, ref, hask⟩, hno⟩ := hc.closer hp
    · obtain ⟨p, ref, hmem⟩ := hi.closer hold
      exact ⟨p, ref, mem_waiters_snoc.2 ⟨mem_present.2 (.inl ⟨hmem, (hno p ref).1⟩), (hno p ref).2⟩⟩
    · exact ⟨p, ref, mem_waiters_snoc.2 ⟨mem_present.2 (.inr hask), (hno p ref).2⟩⟩

theorem Carries.frame (hr : h'.receiverWaiting = h.receiverWaiting) (hc : h'.closePending = h.closePending)
    (hcan : ∀ p ref, e.cancels (.recv p ref) = false ∧ e.cancels (.close p ref) = false)
    (ho : ∀ y ∈ o, ∀ p ref, y.answers ≠ .some (.recv p ref) ∧ y.answers ≠ .some (.close p ref)) : Carries h e o h' where
  receiver := fun hn => ⟨.inl (hr.symm.trans hn), fun p ref => ⟨(hcan p ref).1, fun y hy => (ho y hy p ref).1⟩⟩
  closer := fun hn => ⟨.inl (hc.symm.trans hn), fun p ref => ⟨(hcan p ref).2, fun y hy => (ho y hy p ref).2⟩⟩

theorem Carries.mute (hs : SameWaits h h') (hcan : ∀ w, e.cancels w = false) (ho : o.all Effect.mute = true) :
    Carries h e o h' :=
  .frame hs.2 hs.3 (fun _ _ => ⟨hcan _, hcan _⟩) fun _ hy _ _ => ⟨answers_of_mute ho hy _, answers_of_mute ho hy _⟩

theorem Carries.unset (hr : h'.receiverWaiting = false) (hc : h'.closePending = false) : Carries h e o h' where
  receiver := fun hn => by rw [hr] at hn; cases hn
  closer := fun hn => by rw [hc] at hn; cases hn

theorem Carries.flush {w : UtpWrite} {h₁ h₂ : UtpHandler} {o₁ o₂ o₃ : List Effect} (hf : Flush h w o₁ h₁)
    (hr : Retry h₁ o₂ h₂) (hs : SameWaits h₂ h') (ho₃ : o₃.all Effect.mute = true) :
    Carries h (.stateChange .writable w) (o₁ ++ o₂ ++ o₃) h' := by
  obtain ⟨hs₁, ho₁⟩ := hf.waits
  cases hr with
  | quiet => exact .mute (hs₁.trans hs) (fun _ => rfl) (by simp [ho₁, ho₃])
  | retried =>
    refine .frame (hs.2.trans hs₁.2) (hs.3.trans hs₁.3) (fun _ _ => ⟨rfl, rfl⟩) fun y hy p ref => ?_
    simp only [List.append_assoc, List.mem_append, List.mem_singleton] at hy
    rcases hy with hy | rfl | hy
    · exact ⟨answers_of_mute ho₁ hy _, answers_of_mute ho₁ hy _⟩
    · cases h₁.caller <;> exact ⟨nofun, nofun⟩
    · exact ⟨answers_of_mute ho₃ hy _, answers_of_mute ho₃ hy _⟩

theorem carries_step (hi : Pends t h) (hg : OneProcess t h e) (hs : Step h e o h') : Carries h e o h' := by
  obtain ⟨halone, hdec⟩ := hg
  cases hs with
  | outputvRefused | outputvAccepted | outputvTimedOut | outputvParked | recvBadarg | closeAnswered | setoptsBadarg
  | setoptsQuiet | getopts | peernameRefused | peernameAnswered | validateAnswered | validateWaits | validateFailed =>
    obtain ⟨hr, hc⟩ := hi.free halone
    exact .unset hr hc
  | recvSent hact _ he =>
    obtain ⟨hr, hc⟩ := hi.free halone
    obtain ⟨hsame, -⟩ := he.proc hact
    exact .unset (hsame.2.trans hr) (hsame.3.trans hc)
  | @recvParked p buf mem len ref q o h' hact hd he =>
    obtain ⟨hr, hc⟩ := hi.free halone
    have hask : asked (.recv p buf mem) (o ++ [.reply .wait]) = .some (.recv p ref) := by
      simp [asked, Event.request, hd, Effect.isWait]
    cases he with
    | closed hp => rw [hc] at hp; cases hp
    | held =>
      refine ⟨fun _ => ⟨.inr ⟨p, ref, hask⟩, fun _ _ => ⟨rfl, by simp [Effect.answers]⟩⟩, fun hp => ?_⟩
      have hp : h.closePending = true := hp
      rw [hc] at hp; cases hp
  | closeBadarg _ hnone => exact absurd hnone (hdec _ _ rfl)
  | @closeOpened p buf ref o h' _ hd hcl =>
    obtain ⟨hr, -⟩ := hi.free halone
    obtain ⟨hsame, hmute⟩ := hcl.waits
    have hask : asked (.close p buf) (o ++ [.reply .wait]) = .some (.close p ref) := by
      simp [asked, Event.request, hd, Effect.isWait]
    refine ⟨fun hn => ?_, fun _ => ⟨.inr ⟨p, ref, hask⟩, fun _ _ => ⟨rfl, fun y hy => ?_⟩⟩⟩
    · have hn : h.receiverWaiting = true := hsame.2.symm.trans hn
      rw [hr] at hn; cases hn
    · rcases List.mem_append.1 hy with hy | hy
      · exact answers_of_mute hmute hy _
      · rw [List.mem_singleton.1 hy]; simp [Effect.answers]
  | setoptsEmit _ _ _ he =>
    obtain ⟨hr, hc⟩ := hi.free halone
    obtain ⟨hsame, -⟩ := he.waits fun hp => by
      have hp : h.closePending = true := hp
      rw [hc] at hp; cases hp
    exact .unset (hsame.2.trans hr) (hsame.3.trans hc)
  | cancelSend =>
    exact .frame rfl rfl (fun _ _ => ⟨by simp [Event.cancels], by simp [Event.cancels]⟩)
      (by simp [Effect.answers])
  | cancelRecv =>
    refine .unset rfl (Bool.eq_false_iff.2 fun hc => ?_)
    obtain ⟨_, _, hmem⟩ := hi.closer hc
    cases halone _ hmem
  | stopDeleted hcl =>
    obtain ⟨hsame, hmute⟩ := hcl.waits
    exact .mute ⟨hsame.1, hsame.2, hsame.3, hsame.4, hsame.5⟩ (fun _ => rfl)
      (by simp [hmute, Effect.mute, Effect.isWait, Effect.isAnswer])
  | stopped hcl | eof _ hcl | errorReset _ hcl =>
    obtain ⟨hsame, hmute⟩ := hcl.waits
    exact .mute ⟨hsame.1, hsame.2, hsame.3, hsame.4, hsame.5⟩ (fun _ => rfl) hmute
  | doReadQueued | doReadShort | eofStopped | connects | errorIgnored | incomingTaken =>
    exact .mute ⟨rfl, rfl, rfl, rfl, rfl⟩ (fun _ => rfl) rfl
  | doReadAnswers _ hact _ he =>
    obtain ⟨hsame, -, data, rfl⟩ := he.proc hact
    refine ⟨fun hr => (by cases hr), fun hp => ⟨.inl (hsame.3.symm.trans hp), fun _ _ => ⟨rfl, fun y hy => ?_⟩⟩⟩
    rcases List.mem_append.1 hy with hy | hy
    · rw [List.mem_singleton.1 hy]
      unfold Effect.answers
      split <;> simp_all
    · exact answers_of_mute (all_mute_drainedCall _ _) hy _
  | doReadActive hb _ he =>
    obtain ⟨hsame, hmute⟩ := he.waits fun _ => received_sizeq hb
    exact .mute ⟨hsame.1, hsame.2, hsame.3, hsame.4, hsame.5⟩ (fun _ => rfl) (by simp [hmute])
  | doWrite hws =>
    have hmute := all_mute_writes _ hws
    exact .mute ⟨rfl, rfl, rfl, rfl, rfl⟩ (fun _ => rfl) hmute
  | writable hf hr =>
    rw [← List.append_nil (_ ++ _)]
    exact .flush hf hr .same rfl
  | writableCloses hf hr _ hcl =>
    obtain ⟨hsame, hmute⟩ := hcl.waits
    exact .flush hf hr hsame hmute
  | connectAnswers => exact .frame rfl rfl (fun _ _ => ⟨rfl, rfl⟩) (by simp [Effect.answers])
  | destroyingAnswers =>
    refine ⟨fun hr => ⟨.inl hr, fun _ _ => ⟨rfl, fun y hy => ?_⟩⟩, fun hc => by cases hc⟩
    rcases List.mem_append.1 hy with hy | hy
    · exact answers_of_mute (all_mute_deselect h) hy _
    · rw [List.mem_singleton.1 hy]
      split
      · cases h.caller <;> simp [Effect.answers]
      · simp [Effect.answers]
  | destroyingNotifies =>
    refine .mute ⟨rfl, rfl, rfl, rfl, rfl⟩ (fun _ => rfl) ?_
    split <;> simp [Effect.mute, Effect.isWait, Effect.isAnswer]
  | destroyingDeletes =>
    exact .mute ⟨rfl, rfl, rfl, rfl, rfl⟩ (fun _ => rfl) (by simp [Effect.mute, Effect.isWait, Effect.isAnswer])
  | destroyingIgnored => exact .mute ⟨rfl, rfl, rfl, rfl, rfl⟩ (fun _ => rfl) (by simp)
  | errorConnecting _ ho =>
    refine .frame rfl rfl (fun _ _ => ⟨rfl, rfl⟩) fun y hy _ _ => ?_
    obtain ⟨ref, rfl⟩ := ho y hy
    simp [Effect.answers]
  | errorReported => exact .mute ⟨rfl, rfl, rfl, rfl, rfl⟩ (fun _ => rfl) (by split <;> rfl)
  | _ => exact .mute .same (fun _ => rfl) rfl

/-! ## What a close finds -/

/-- What these runs know of the end of a handler. -/
structure Known (t : Trace) (h : UtpHandler) : Prop where
  pends : Pends t h
  closing : h.status = .closing → h.closePending = true ∨ closeSeen t = true
  destroying : h.status = .destroying → seen Event.isDestroying t = true

/-- A close waits until DESTROYING: the requests that could drop it do not
come while it waits. -/
theorem pending_step (hi : Pends t h) (hg : OneProcess t h e) (hs : Step h e o h') (hc : h.closePending = true) :
    h'.closePending = true ∨ e.isDestroying = true := by
  have hbusy : ¬∀ w ∈ waiters t, w.isSend = true := fun hw => by
    have hfree := (hi.free hw).2
    rw [hc] at hfree; cases hfree
  cases hs with
  | recvSent | recvParked => exact absurd hg.1 hbusy
  | setoptsQuiet | setoptsEmit => exact absurd hg.1 hbusy
  | closeBadarg | closeOpened => exact absurd hg.1 hbusy
  | stopDeleted hcl | stopped hcl | errorReset _ hcl =>
    have hkeep := hcl.waits.1.closePending
    exact .inl (hkeep.trans hc)
  | eof _ hcl =>
    have hkeep := hcl.waits.1.closePending
    exact .inl (hkeep.trans hc)
  | doReadAnswers _ hact _ he =>
    have hkeep := (he.proc hact).1.closePending
    exact .inl (hkeep.trans hc)
  | doReadActive hb _ he =>
    have hkeep := (he.waits fun _ => received_sizeq hb).1.closePending
    exact .inl (hkeep.trans hc)
  | writable hf hr =>
    have hkeep := hf.waits.1.closePending
    cases hr <;> exact .inl (hkeep.trans hc)
  | writableCloses hf hr _ hcl =>
    have hkeep := hcl.waits.1.closePending
    have hkeep' := hf.waits.1.closePending
    cases hr <;> exact .inl (hkeep.trans (hkeep'.trans hc))
  | destroyingAnswers | destroyingNotifies | destroyingDeletes | destroyingIgnored => exact .inr rfl
  | _ => exact .inl hc

theorem destroying_step (hs : Step h e o h') (he : e.isDestroying = true) : h'.status ≠ .closing := by
  cases hs with
  | destroyingAnswers | destroyingNotifies => exact nofun
  | destroyingDeletes hst =>
    intro hcl
    cases hst.symm.trans hcl
  | destroyingIgnored hne => exact hne
  | _ => cases he

theorem Known.step (hk : Known t h) (hg : OneProcess t h e) (hs : Step h e o h') : Known (t ++ [⟨h, e, o⟩]) h' := by
  refine ⟨hk.pends.carries (carries_step hk.pends hg hs), ?_, ?_⟩ <;>
    simp only [seen_snoc, closeSeen_snoc, Bool.or_eq_true]
  · intro hst'
    cases moves hs with
    | keeps hst =>
      rcases hk.closing (hst.symm.trans hst') with hc | hc
      · rcases pending_step hk.pends hg hs hc with hc | hd
        · exact .inl hc
        · exact absurd hst' (destroying_step hs hd)
      · exact .inr (.inl hc)
    | closes hcl => exact .inr (.inr hcl)
    | opens _ hc => exact .inl hc
    | stops hst | connects hst | destroys _ hst | fails _ hst | validates _ hst | takes _ _ hst =>
      cases hst.symm.trans hst'
  · intro hst'
    cases moves hs with
    | keeps hst => exact .inl (hk.destroying (hst.symm.trans hst'))
    | destroys => exact .inr rfl
    | closes _ hst | opens hst | stops hst | connects hst | fails _ hst | validates _ hst | takes _ _ hst =>
      cases hst.symm.trans hst'

theorem known {h₀ : UtpHandler} (hs : Started h₀) (run : Runs.Run machine OneProcess [] h₀ t h) : Known t h := by
  have hstart : Known [] h₀ := by cases hs <;> exact ⟨⟨nofun, nofun⟩, nofun, nofun⟩
  refine run.invariant (I := Known) hstart ?_
  intro t s e s' o hk hg hm
  exact hk.step hg (machine_step hm)

/-! ## While a close waits -/

/-- The close of `p` under `ref` waits, and no `recv` does. -/
structure Awaiting (p : Pid) (ref : Ref) (h : UtpHandler) : Prop where
  closing : h.status = .closing
  pending : h.closePending = true
  caller : h.caller = .pid p
  callerRef : h.callerRef = .some ref
  noReceiver : h.receiverWaiting = false

variable {p : Pid} {ref : Ref}

theorem Awaiting.same (hi : Awaiting p ref h) (hs : SameWaits h h') (hst : h'.status = .closing) : Awaiting p ref h' :=
  ⟨hst, hs.3.trans hi.2, hs.4.trans hi.3, hs.5.trans hi.4, hs.2.trans hi.5⟩

/-- `{Ref, ok}` to the process that closes. -/
def ack (p : Pid) (ref : Ref) : Effect := .send (.pid p) (.refOk ref)

theorem not_ack_of_mute (ho : o.all Effect.mute = true) : ack p ref ∉ o := fun hmem => by
  cases List.all_eq_true.1 ho _ hmem

/-- **No callback disturbs a close that waits**, nor answers it. -/
theorem await_step (hs : Step h e o h') (hi : Awaiting p ref h) (he : e.isCallback = true) :
    Awaiting p ref h' ∧ ack p ref ∉ o := by
  have hst := hi.closing
  cases hs with
  | doReadNothing => exact ⟨hi, List.not_mem_nil⟩
  | doReadQueued => exact ⟨hi.same ⟨rfl, rfl, rfl, rfl, rfl⟩ hst, List.not_mem_nil⟩
  | doReadAnswers _ _ hr => rw [hi.noReceiver] at hr; cases hr
  | doReadShort _ _ hr => rw [hi.noReceiver] at hr; cases hr
  | doReadActive hb _ hem =>
    obtain ⟨hsame, hmute⟩ := hem.waits fun _ => received_sizeq hb
    have hkeep := hem.life.1
    exact ⟨hi.same ⟨hsame.1, hsame.2, hsame.3, hsame.4, hsame.5⟩ (hkeep.trans hst), not_ack_of_mute (by simp [hmute])⟩
  | doWrite hws =>
    have hmute := all_mute_writes _ hws
    exact ⟨hi.same ⟨rfl, rfl, rfl, rfl, rfl⟩ hst, not_ack_of_mute hmute⟩
  | eof _ hcl =>
    obtain ⟨hsame, hmute⟩ := hcl.waits
    have hkeep := hcl.life.1
    exact ⟨hi.same ⟨hsame.1, hsame.2, hsame.3, hsame.4, hsame.5⟩ (hkeep.elim (·.trans hst) id), not_ack_of_mute hmute⟩
  | eofStopped hstop => cases hst.symm.trans hstop
  | writable _ _ hc => rw [hi.pending] at hc; cases hc
  | writableCloses hf hr _ hcl =>
    obtain ⟨hs₁, ho₁⟩ := hf.waits
    obtain ⟨hs₃, ho₃⟩ := hcl.waits
    have hst₃ : h'.status = .closing :=
      hcl.life.1.elim (fun heq => heq.trans (hr.life.1.trans (hf.life.1.trans hst))) id
    cases hr with
    | quiet => exact ⟨hi.same (hs₁.trans hs₃) hst₃, not_ack_of_mute (by simp [ho₁, ho₃])⟩
    | retried =>
      -- the retry takes the sender's flag, and leaves the caller
      refine ⟨⟨hst₃, ?_, ?_, ?_, ?_⟩, fun hmem => ?_⟩
      · exact hs₃.3.trans (hs₁.3.trans hi.2)
      · exact hs₃.4.trans (hs₁.4.trans hi.3)
      · exact hs₃.5.trans (hs₁.5.trans hi.4)
      · exact hs₃.2.trans (hs₁.2.trans hi.5)
      · simp only [List.append_assoc, List.mem_append, List.mem_singleton] at hmem
        rcases hmem with hmem | hmem | hmem
        · exact not_ack_of_mute ho₁ hmem
        · simp [ack] at hmem
        · exact not_ack_of_mute ho₃ hmem
  | errorConnecting hpend => cases hst.symm.trans hpend
  | errorReset hconn => cases hst.symm.trans hconn
  | errorReported hconn => cases hst.symm.trans hconn
  | errorIgnored => exact ⟨hi.same ⟨rfl, rfl, rfl, rfl, rfl⟩ hst, List.not_mem_nil⟩
  | _ => cases he

/-- The runs of callbacks between the close and DESTROYING. -/
def Callbacks : Runs.Guard UtpHandler Event (List Effect) := fun _ _ e => e.isCallback = true

theorem await_run {t₀ : Trace} {h₀ : UtpHandler} (hi : Awaiting p ref h₀)
    (run : Runs.Run machine Callbacks t₀ h₀ t h) :
    Awaiting p ref h ∧ (effects t).count (ack p ref) = (effects t₀).count (ack p ref) := by
  refine run.invariant
    (I := fun t h => Awaiting p ref h ∧ (effects t).count (ack p ref) = (effects t₀).count (ack p ref)) ⟨hi, rfl⟩ ?_
  intro t s e s' o hboth hg hm
  obtain ⟨hs, hcount⟩ := hboth
  obtain ⟨hs', hno⟩ := await_step (machine_step hm) hs hg
  exact ⟨hs', by rw [effects_snoc, List.count_append, List.count_eq_zero.2 hno, hcount, Nat.add_zero]⟩

/-- DESTROYING answers the close, and says nothing else. -/
theorem Awaiting.destroyed {w : UtpWrite} (hi : Awaiting p ref h) (hs : Step h (.stateChange .destroying w) o h') :
    o.count (ack p ref) = 1 ∧ .output .utpClosed ∉ o ∧ h'.closePending = false := by
  have hsel := all_mute_deselect h
  cases hs with
  | destroyingAnswers _ href hc =>
    obtain rfl := Option.some.inj (hi.callerRef.symm.trans href)
    have hsend : (if h.caller ≠ .nil then Effect.send h.caller (.refOk ref) else .output (.refOk ref)) = ack p ref := by
      rw [hi.caller]; rfl
    rw [hsend]
    refine ⟨?_, fun hmem => ?_, rfl⟩
    · rw [List.count_append, List.count_eq_zero.2 (not_ack_of_mute hsel), Nat.zero_add, List.count_singleton_self]
    · rcases List.mem_append.1 hmem with hmem | hmem
      · unfold deselect at hmem
        split at hmem <;> simp at hmem
      · simp [ack] at hmem
  | destroyingNotifies _ hor =>
    rcases hor with hn | hn
    · rw [hi.callerRef] at hn; cases hn
    · rw [hi.pending] at hn; cases hn
  | destroyingDeletes hst => cases hi.closing.symm.trans hst
  | destroyingIgnored hne => exact absurd hi.closing hne

/-! ## Callbacks that are defined -/

/-- What a callback takes is there: the bytes of a write are on the write
queue, and the chunk counts cover what a read of an active socket takes. -/
def Covered (h : UtpHandler) : Event → Prop
  | .doRead bytes mem => bytes ≠ [] → h.sockopts.active ≠ .activeFalse → (h.received bytes).Covers mem
  | .doWrite count => count ≤ h.writeQueue.size
  | .stateChange .writable w => h.writeQueue.size ≠ 0 → (w.counts h.writeQueue.size).sum ≤ h.writeQueue.size
  | _ => True

theorem doRead_isSome {bytes : List UInt8} {mem : Mem} (hrw : h.receiverWaiting = false) :
    (machine h (.doRead bytes mem)).isSome = true ↔ Covered h (.doRead bytes mem) := by
  rw [machine, Option.isSome_map]
  simp only [handle, doRead, driverEnq, Covered]
  by_cases hb : bytes = []
  · simp [hb]
  rw [if_pos (by simpa using hb)]
  by_cases hact : h.sockopts.active = .activeFalse
  · simp [hact, hrw]
  simp only [hact, if_false, Option.isSome_map, ne_eq, hb, not_false_eq_true, true_implies]
  exact active_isSome_iff (h := { h.received bytes with out := [] }) hact (received_sizeq hb) (by simp [received])

theorem doWrite_isSome (hok : h.writeQueue.Ok) (count : Nat) :
    (machine h (.doWrite count)).isSome = true ↔ count ≤ h.writeQueue.size := by
  have hfold : handle { h with out := [] } (.doWrite count) = [count].foldlM doWrite { h with out := [] } := by
    simp [handle]
  rw [machine, Option.isSome_map, hfold, doWrites_eq, Option.isSome_map, writes_isSome _ hok, List.sum_singleton]

theorem writable_isSome (hok : h.writeQueue.Ok) (w : UtpWrite) :
    (machine h (.stateChange .writable w)).isSome = true ↔ Covered h (.stateChange .writable w) := by
  rw [machine, Option.isSome_map]
  simp only [handle, doStateChange, stateWritable, Covered]
  by_cases h0 : h.writeQueue.size = 0
  · simp [h0]
  · rw [if_pos h0, utpWrite_eq, Option.isSome_map, Option.isSome_map, writes_isSome _ hok]
    simp [h0]

/-- **A callback is defined exactly when what it takes is there.** -/
theorem callback_isSome (hi : Awaiting p ref h) (hok : h.writeQueue.Ok) (he : e.isCallback = true) :
    (machine h e).isSome = true ↔ Covered h e := by
  cases e with
  | doRead bytes mem => exact doRead_isSome hi.noReceiver
  | doWrite count => exact doWrite_isSome hok count
  | doError e => exact iff_of_true rfl trivial
  | stateChange s w =>
    cases s with
    | writable => exact writable_isSome hok w
    | eof => exact iff_of_true rfl trivial
    | connect | destroying => cases he
  | _ => cases he

theorem queueOk {h₀ : UtpHandler} {t₀ : Trace} {G : Runs.Guard UtpHandler Event (List Effect)}
    (hok : h₀.writeQueue.Ok) (run : Runs.Run machine G t₀ h₀ t h) : h.writeQueue.Ok :=
  run.invariant (I := fun _ h => h.writeQueue.Ok) hok fun _ _ _ _ _ hq _ hm => (machine_step hm).queueOk hq

/-! ## The handshake -/

theorem close_step {buf : EiBuf} (hs : Step h (.close p buf) o h') (hd : decodeBinary buf = .some ref)
    (hrw : h.receiverWaiting = false) :
    (.reply .wait ∈ o → Awaiting p ref h' ∧ ack p ref ∉ o) ∧ (.reply .ok ∈ o → ¬h.closeOpens) := by
  cases hs with
  | closeAnswered hno => exact ⟨by simp, fun _ => hno⟩
  | closeBadarg _ hnone => rw [hd] at hnone; cases hnone
  | closeOpened _ hdec hcl =>
    obtain rfl := Option.some.inj (hdec.symm.trans hd)
    obtain ⟨hsame, hmute⟩ := hcl.waits
    have hst : h'.status = .closing := hcl.life.1.elim id id
    refine ⟨fun _ => ⟨⟨hst, hsame.3, hsame.4, hsame.5, hsame.2.trans hrw⟩, fun hmem => ?_⟩, fun hmem => ?_⟩
    · rcases List.mem_append.1 hmem with hmem | hmem
      · exact not_ack_of_mute hmute hmem
      · simp [ack] at hmem
    · rcases List.mem_append.1 hmem with hmem | hmem
      · cases hcl <;> simp at hmem
      · simp at hmem

/-- **A close is answered, as long as the callbacks take what is there.**
When a process closes and is told to wait, then after any callbacks the next
one is defined exactly when what it takes is there, and DESTROYING is: it
sends the process `{Ref, ok}`, once, and no `utp_closed`. When it is answered
`ok`, the connection had been destroyed, or `UTP_Close` called. -/
theorem close_answered {h₀ h₁ : UtpHandler} {buf : EiBuf} (hs : Started h₀)
    (run : Runs.Run machine OneProcess [] h₀ t h) (hg : OneProcess t h (.close p buf))
    (hd : decodeBinary buf = .some ref) (hm : machine h (.close p buf) = .some (h₁, o)) :
    (.reply .wait ∈ o → ∀ t₂ h₂, Runs.Run machine Callbacks (t ++ [⟨h, .close p buf, o⟩]) h₁ t₂ h₂ →
      (∀ e, e.isCallback = true → ((machine h₂ e).isSome = true ↔ Covered h₂ e)) ∧
      ∀ w, ∃ h₃ o₃, machine h₂ (.stateChange .destroying w) = .some (h₃, o₃) ∧
        (effects t₂).count (ack p ref) = (effects t).count (ack p ref) ∧ o₃.count (ack p ref) = 1 ∧
          .output .utpClosed ∉ o₃ ∧ h₃.closePending = false) ∧
      (.reply .ok ∈ o → seen Event.isDestroying t = true ∨ closeSeen t = true) := by
  have hknown : Known t h := known hs run
  obtain ⟨hrw, hcp⟩ := hknown.pends.free hg.1
  obtain ⟨hwait, hok⟩ := close_step (machine_step hm) hd hrw
  refine ⟨fun hmem t₂ h₂ run₂ => ?_, fun hmem => ?_⟩
  · obtain ⟨hawait, hnone⟩ := hwait hmem
    obtain ⟨hawait₂, hcount⟩ := await_run hawait run₂
    rw [effects_snoc, List.count_append, List.count_eq_zero.2 hnone, Nat.add_zero] at hcount
    have hqueue : h.writeQueue.Ok := queueOk (by cases hs <;> exact .new) run
    have hqueue₂ : h₂.writeQueue.Ok := queueOk ((machine_step hm).queueOk hqueue) run₂
    refine ⟨fun e he => callback_isSome hawait₂ hqueue₂ he, fun w => ?_⟩
    have hm₃ : machine h₂ (.stateChange .destroying w) = .some _ := rfl
    exact ⟨_, _, hm₃, hcount, hawait₂.destroyed (machine_step hm₃)⟩
  · have hno := hok hmem
    simp only [closeOpens, hcp, true_and, not_or, not_and_or, not_not] at hno
    rcases hno.2 with hst | hst
    · rcases hknown.closing hst with hc | hc
      · rw [hcp] at hc; cases hc
      · exact .inr hc
    · exact .inl (hknown.destroying hst)

/-- A close that waits for the write queue: the flush, EOF, DESTROYING. -/
theorem close_answered_flushed :
    ∃ t h t₂ h₂, Runs.Run machine OneProcess [] (startServer SockOpts.new 1) t h ∧ t₂.length = t.length + 3 ∧
      (∀ e, e.isCallback = true → ((machine h₂ e).isSome = true ↔ Covered h₂ e)) ∧
      ∀ w, ∃ h₃ o₃, machine h₂ (.stateChange .destroying w) = .some (h₃, o₃) ∧
        (effects t₂).count (ack 1 [8]) = (effects t).count (ack 1 [8]) ∧ o₃.count (ack 1 [8]) = 1 ∧
          .output .utpClosed ∉ o₃ ∧ h₃.closePending = false :=
  have run := (Runs.Run.start machine OneProcess (startServer SockOpts.new 1)).next
      (.outputv 1 ⟨1, [⟨[7], .none⟩]⟩ .nothing fun _ => 0) ⟨nofun, nofun⟩ rfl
  have answered := close_answered (p := 1) (.server SockOpts.new 1) run ⟨nofun, fun _ _ he => by cases he; exact nofun⟩
      (show decodeBinary [.version, .binary [8]] = .some [8] from rfl) rfl
  have run₂ := ((Runs.Run.refl (M := machine) (G := Callbacks)).next (.stateChange .writable .whole) rfl rfl).next
      (.stateChange .eof .nothing) rfl rfl
  ⟨_, _, _, _, run, rfl, answered.1 (by decide) _ _ run₂⟩

/-- A close waits for one byte to be sent, and a chunk comes that is a length
of 2³² - 1: the read never returns, and the close is never answered. -/
theorem closing_read_overruns : ∃ t h h₁ o mem,
    Runs.Run machine OneProcess [] (startServer { SockOpts.new with packet := 4 } 1) t h ∧
    OneProcess t h (.close 1 [.version, .binary [8]]) ∧
    machine h (.close 1 [.version, .binary [8]]) = .some (h₁, o) ∧ .reply .wait ∈ o ∧
    machine h₁ (.doRead [255, 255, 255, 255] mem) = .none := by
  have run := (Runs.Run.start machine OneProcess (startServer { SockOpts.new with packet := 4 } 1)).next
      (.outputv 1 ⟨1, [⟨[7], .none⟩]⟩ .nothing fun _ => 0) ⟨nofun, nofun⟩ rfl
  refine ⟨_, _, _, _, fun _ => 0, run, ⟨nofun, fun _ _ he => by cases he; exact nofun⟩, rfl, by decide, ?_⟩
  rw [← Option.not_isSome_iff_eq_none, doRead_isSome rfl]
  exact fun hc => wrapped_not_covers rfl rfl rfl _ (hc nofun nofun)

end UtpHandler

end GenUtp
