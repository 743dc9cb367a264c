/-
From `gen_utp:send/2` to `gen_utp:recv/3`: a process that sends at one end of
a connection, and one that receives at the other.

A `Transfer` is the sending process with its port, the bytes under way and the
receiving process with its port, in raw passive mode. Their calls, the parts
of their requests, timeouts, cancels and the callbacks of libutp at both ends
come in any order; the wire keeps the bytes and their order.

What the calls of `recv` have returned, and all that is on the way to them,
is the data of the calls of `send` that returned `ok`, and of the one in
progress once its driver took it (`sent_is_received`). A call of `send` that
returns an error has put nothing on the way, and one that returns `ok` all.
This is before an EOF at the sender; no empty entry of its data brings a
binary (`SourceGuard`), and the lengths and timeouts of `recv` are numbers of
32 bits (`RecvGuard`).

The sender's side is `Stream`, which each part of a request keeps
(`Port.Step.hands`); the receiver's is the invariant of `recv_exact`.
-/
import GenUtp.Lib.Pipe
import GenUtp.RecvCall
import GenUtp.SendDeadline

namespace GenUtp

open Segments UtpHandler

/-! ## The write queue, part by part -/

namespace UtpHandler

variable {h h' : UtpHandler} {e : Event} {o : List Effect}

/-- The front of the write queue is handed over, and the rest stays. -/
structure Hands (h : UtpHandler) (o : List Effect) (h' : UtpHandler) : Prop where
  ok : h'.writeQueue.Ok
  bytes : o.flatMap Effect.handed ++ h'.writeQueue.bytes = h.writeQueue.bytes

theorem Hands.frame (hok : h.writeQueue.Ok) (hq : h'.writeQueue = h.writeQueue) (ho : o.all Effect.quiet = true) :
    Hands h o h' :=
  ⟨hq ▸ hok, by rw [handed_of_quiet ho, hq, List.nil_append]⟩

theorem CloseUtp.hands (hc : CloseUtp h o h') (hok : h.writeQueue.Ok) : Hands h o h' := by
  cases hc with
  | done => exact ⟨hok, rfl⟩
  | skipped => exact ⟨hok, rfl⟩

theorem Flush.hands {w : UtpWrite} (hf : Flush h w o h') (hok : h.writeQueue.Ok) : Hands h o h' := by
  cases hf with
  | empty => exact .frame hok rfl rfl
  | wrote _ hws =>
    obtain ⟨hok', hbytes⟩ := writes_hands _ hok hws
    exact ⟨hok', by simpa [Effect.handed] using hbytes⟩

theorem Retry.hands (hr : Retry h o h') (hok : h.writeQueue.Ok) : Hands h o h' := by
  cases hr with
  | retried => exact .frame hok rfl rfl
  | quiet => exact .frame hok rfl rfl

theorem Hands.append {h₁ : UtpHandler} {o₁ : List Effect} (ha : Hands h o h₁) (hb : Hands h₁ o₁ h') :
    Hands h (o ++ o₁) h' :=
  ⟨hb.ok, by rw [List.flatMap_append, List.append_assoc, hb.bytes, ha.bytes]⟩

/-- No step but a send and an EOF does anything else to the queue. -/
theorem Step.hands (hs : Step h e o h') (hok : h.writeQueue.Ok) (ha : e.aside = true)
    (heof : ∀ w, e ≠ .stateChange .eof w) : Hands h o h' := by
  cases hs with
  | setoptsQuiet => exact .frame hok rfl (by simp [Effect.quiet])
  | setoptsEmit _ _ _ hem => exact .frame hok hem.writeSide.1 (by simp [hem.quiet, Effect.quiet])
  | doReadAnswers _ _ _ hem => exact .frame hok hem.writeSide.1 (by simp [hem.quiet])
  | doReadActive _ _ hem => exact .frame hok hem.writeSide.1 (by simp [hem.quiet])
  | doWrite hws =>
    obtain ⟨hok', hbytes⟩ := writes_hands _ hok hws
    exact ⟨hok', hbytes⟩
  | eof | eofStopped => exact absurd rfl (heof _)
  | writable hf hr =>
    have hflush := hf.hands hok
    exact hflush.append (hr.hands hflush.ok)
  | writableCloses hf hr _ hcl =>
    have hflush := hf.hands hok
    have hretry := hr.hands hflush.ok
    exact (hflush.append hretry).append (hcl.hands hretry.ok)
  | destroyingAnswers => exact .frame hok rfl (by split <;> simp [Effect.quiet])
  | destroyingNotifies => exact .frame hok rfl (by split <;> simp [Effect.quiet])
  | destroyingDeletes => exact .frame hok rfl (by simp [Effect.quiet])
  | destroyingIgnored => exact .frame hok rfl (by simp)
  | errorConnecting _ ho =>
    refine .frame hok rfl (List.all_eq_true.2 fun x hx => ?_)
    obtain ⟨ref, rfl⟩ := ho x hx
    rfl
  | errorReset _ hcl =>
    have hclose := hcl.hands hok
    exact ⟨hclose.ok, hclose.bytes⟩
  | errorReported => exact .frame hok rfl (by split <;> rfl)
  | outputvRefused | outputvAccepted | outputvTimedOut | outputvParked | recvBadarg | recvSent | recvParked
  | cancelSend | cancelRecv | closeAnswered | closeBadarg | closeOpened | validateAnswered | validateWaits
  | validateFailed | stopDeleted | stopped => cases ha
  | _ => exact .frame hok rfl rfl

theorem framed_zero (mem : Mem) (payload : List UInt8) : framed 0 mem payload = payload := by
  unfold framed
  split
  next hnil => exact hnil.symm
  next => simp [headerBytes, Frames.beBytes]

end UtpHandler

def Pending.isWrite : Pending → Bool
  | .write .. => true
  | _ => false

namespace Port

/-- What `outputv` has put on the queue, when its `UTP_Write` is still to
come. -/
def queues : PortEvent → Option Pending → List UInt8
  | .start (.outputv _ ev _ _), .some (.write ..) => ev.payload
  | _, _ => []

/-- What comes to the port of a process that sends without a length prefix,
before the EOF. -/
def Sends (s : Port) (e : PortEvent) : Prop := ∀ x, e = .start x →
  (x.aside = true ∧ ∀ w, x ≠ .stateChange .eof w) ∨ (∃ p, x = .cancelSend p) ∨
    ∃ p ev w mem, x = .outputv p ev w mem ∧ ev.Wf ∧ s.h.sockopts.packet = 0

/-- Each part of a request hands over the front of what was queued. -/
theorem Step.hands {s s' : Port} {e : PortEvent} {o : List Effect} (hs : Step s e o s') (hok : s.h.writeQueue.Ok)
    (he : Sends s e) : s'.h.writeQueue.Ok ∧
      o.flatMap Effect.handed ++ s'.h.writeQueue.bytes = s.h.writeQueue.bytes ++ queues e s'.pending := by
  cases hs with
  | @whole h h' c x o hparts hst =>
    rcases he x rfl with ⟨ha, heof⟩ | ⟨p, rfl⟩ | ⟨p, ev, w, mem, rfl, -⟩
    · have hhands := hst.hands hok ha heof
      have hnone : queues (.start x) c = [] := by
        cases x <;> first | rfl | cases ha
      exact ⟨hhands.ok, by rw [hhands.bytes, hnone, List.append_nil]⟩
    · cases hst
      exact ⟨hok, (List.append_nil _).symm⟩
    · cases hparts
  | @sendQueued h c p ev w mem u wq n _ _ _ hq =>
    obtain ⟨hwf, hpacket⟩ : ev.Wf ∧ h.sockopts.packet = 0 := by
      rcases he _ rfl with ⟨ha, -⟩ | ⟨q, hc⟩ | ⟨q, ev', w', mem', heq, hrest⟩
      · cases ha
      · cases hc
      · cases heq
        exact hrest
    obtain ⟨hok', hbytes, -⟩ := enqueueSend_eq hok hwf hq
    refine ⟨hok', ?_⟩
    show wq.bytes = h.writeQueue.bytes ++ ev.payload
    rw [hbytes, hpacket, framed_zero]
  | wrote hws =>
    obtain ⟨hok', hbytes⟩ := writes_hands _ hok hws
    exact ⟨hok', by simpa [Effect.handed, queues] using hbytes⟩
  | recvBadarg | recvDrains | recvSent | recvShort | validateReads | validateAnswered =>
    rcases he _ rfl with ⟨ha, -⟩ | ⟨q, hc⟩ | ⟨q, ev', w', mem', heq, -⟩
    · cases ha
    · cases hc
    · cases heq
  | _ => exact ⟨hok, (List.append_nil _).symm⟩

variable {s s' : Port} {e : Event} {o : List Effect}

theorem start_pending (hs : Step s (.start e) o s') (ha : e.aside = true) : s'.pending = s.pending := by
  cases hs with
  | whole => rfl
  | _ => cases ha

theorem cancel_pending {p : Pid} (hs : Step s (.start (.cancelSend p)) o s') : s'.pending = s.pending := by
  cases hs
  rfl

theorem resume_pending {w : UtpWrite} (hs : Step s (.resume w) o s') : s'.pending.any Pending.isWrite = false := by
  cases hs <;> rfl

end Port

/-! ## The sending process -/

/-- The data of the call in progress. -/
def SendPhase.data (ph : SendPhase) : List UInt8 := ph.args.elim [] fun c => c.data.payload

namespace Sender

/-- The bytes handed to libutp. -/
def handed (t : SendTrace) : List UInt8 := t.flatMap fun x => x.out.effects.flatMap Effect.handed

/-- The data of the calls that returned `ok`. -/
def sent (t : SendTrace) : List UInt8 :=
  t.flatMap fun x => if x.out.exit = .some (.returned .ok) then x.pre.phase.data else []

/-- The data of the call in progress, once the driver has taken it: libutp has
it (`acc`), or its `UTP_Write` is to come. -/
def inCall (s : Sender) (acc : Bool) : List UInt8 :=
  if acc || s.port.pending.any Pending.isWrite then s.phase.data else []

variable {p : Pid} {s s' : Sender} {t : SendTrace} {e : SendEvent} {out : SendOut} {acc : Bool}

/-- What a step is: a request, a part of one or a callback, or the process
alone. -/
inductive Moves (p : Pid) (s : Sender) : SendEvent → SendOut → Sender → Prop
  | called {c w mem port o m} : s.phase = .idle → s.port.pending = .none →
      s.port.machine (.start (.outputv p c.data w mem)) = .some (port, o) →
      Moves p s (.call c mem) ⟨o, .none⟩ ⟨port, m, .replying c⟩
  | retried {current c w mem port o m} : (s.phase = .retrying c ∨ ∃ wait, s.phase = .retryingFor c wait) →
      s.port.pending = .none → s.port.machine (.start (.outputv p c.data w mem)) = .some (port, o) →
      Moves p s (.take current mem) ⟨o, .none⟩ ⟨port, m, .replying c⟩
  | driver {e port o m} : s.port.machine e = .some (port, o) → Moves p s (.driver e) ⟨o, .none⟩ ⟨port, m, s.phase⟩
  | cancelled {c port o m} : s.phase = .expired c → s.port.pending = .none →
      s.port.machine (.start (.cancelSend p)) = .some (port, o) →
      Moves p s .cancel ⟨o, .none⟩ ⟨port, m, .cancelled c⟩
  | enters {e m ph} : e.isCall = false → (∀ o, accepts ⟨s, e, o⟩ = false) → ph.args = s.phase.args →
      Moves p s e ⟨[], .none⟩ ⟨s.port, m, ph⟩
  | leaves {e m r} : e.isCall = false → (∀ o, accepts ⟨s, e, o⟩ = false) →
      Moves p s e ⟨[], .some (.returned r)⟩ ⟨s.port, m, .idle⟩
  | raises {c wait m} : s.phase = .retryingFor c wait → Moves p s .expire ⟨[], .some .raised⟩ ⟨s.port, m, .idle⟩

theorem request_moves {x : Event} {ph : SendPhase} (h : s.request p x ph = .some (s', out)) :
    s.port.pending = .none ∧ ∃ port o m, s.port.machine (.start x) = .some (port, o) ∧ s' = ⟨port, m, ph⟩ ∧
      out = ⟨o, .none⟩ := by
  rw [request] at h
  split at h
  next => cases h
  next hfree =>
    obtain ⟨r, hr, heq⟩ := Option.map_eq_some_iff.1 h
    cases heq
    exact ⟨not_not.1 hfree, r.1, r.2, _, hr, rfl, rfl⟩

theorem takeReply_moves {c : SendArgs} {current : Timestamp} {mem : Mem} : ∀ {m : List SendReply},
    s.phase = .replying c → s.takeReply c current m = .some (s', out) → Moves p s (.take current mem) out s'
  | [], _, h => by cases h
  | .wait :: m, hph, h => by
    cases h
    exact .enters rfl (fun _ => rfl) (by rw [hph]; rfl)
  | .waitFor timeout :: m, hph, h => by
    rw [takeReply] at h
    split at h
    next =>
      cases h
      exact .leaves rfl fun _ => rfl
    next =>
      cases h
      exact .enters rfl (fun _ => rfl) (by rw [hph]; rfl)
  | .ok :: m, _, h | .retry :: m, _, h | .error _ :: m, _, h => by
    cases h
    exact .leaves rfl fun _ => rfl

theorem takeRetry_moves {c : SendArgs} {current : Timestamp} {mem : Mem}
    (hph : s.phase = .retrying c ∨ ∃ wait, s.phase = .retryingFor c wait)
    (h : s.takeRetry p c mem = .some (s', out)) : Moves p s (.take current mem) out s' := by
  rw [takeRetry] at h
  split at h
  next =>
    obtain ⟨hfree, port, o, m, hport, rfl, rfl⟩ := request_moves h
    exact .retried hph hfree hport
  next => cases h

theorem machine_moves (hm : machine p s e = .some (s', out)) : Moves p s e out s' := by
  cases e with
  | call c mem =>
    simp only [machine] at hm
    split at hm
    next hidle =>
      obtain ⟨hfree, port, o, m, hport, rfl, rfl⟩ := request_moves hm
      exact .called hidle hfree hport
    next => cases hm
  | driver e =>
    obtain ⟨r, hr, heq⟩ := Option.map_eq_some_iff.1 hm
    cases heq
    exact .driver hr
  | take current mem =>
    simp only [machine] at hm
    split at hm
    next hph => exact takeReply_moves hph hm
    next hph => exact takeRetry_moves (.inl hph) hm
    next wait hph => exact takeRetry_moves (.inr ⟨wait, hph⟩) hm
    next => cases hm
  | expire =>
    simp only [machine] at hm
    split at hm
    next c wait hph =>
      split at hm
      next => cases hm
      next =>
        split at hm
        next =>
          cases hm
          exact .enters rfl (fun _ => rfl) (by rw [hph]; rfl)
        next =>
          cases hm
          exact .raises hph
    next => cases hm
  | cancel =>
    simp only [machine] at hm
    split at hm
    next c hph =>
      obtain ⟨hfree, port, o, m, hport, rfl, rfl⟩ := request_moves hm
      exact .cancelled hph hfree hport
    next => cases hm
  | drain =>
    simp only [machine] at hm
    split at hm
    next =>
      cases hm
      exact .leaves rfl fun _ => rfl
    next =>
      cases hm
      exact .leaves rfl fun _ => rfl
    next =>
      cases hm
      exact .leaves rfl fun _ => rfl
    next => cases hm

/-- What is asked of a run: that it is one of `send/2` (`SendGuard`), with no
length prefix, no EOF, and data whose size is right and that has no binary in
an empty entry. -/
def SourceGuard : Runs.Guard Sender SendEvent SendOut := fun t s e =>
  SendGuard t s e ∧ s.port.h.sockopts.packet = 0 ∧ (∀ c mem, e = .call c mem → c.data.Wf) ∧
    ∀ w, e ≠ .driver (.start (.stateChange .eof w))

/-- What was handed over and what is queued is the data of the calls that
returned `ok`, and of the one in progress. -/
structure Stream (t : SendTrace) (s : Sender) : Prop where
  ok : s.port.h.writeQueue.Ok
  wf : ∀ c, s.phase.args = .some c → c.data.Wf
  bytes : handed t ++ s.port.h.writeQueue.bytes = sent t ++ s.inCall (accepted t)

theorem Stream.command {c : SendArgs} {w : UtpWrite} {mem : Mem} {port : Port} {o : List Effect} {m : List SendReply}
    (hi : Stream t s) (hin : s.inCall (accepted t) = []) (hwf : c.data.Wf) (hpacket : s.port.h.sockopts.packet = 0)
    (hacc : accepted (t ++ [⟨s, e, ⟨o, .none⟩⟩]) = false)
    (hport : s.port.machine (.start (.outputv p c.data w mem)) = .some (port, o)) :
    Stream (t ++ [⟨s, e, ⟨o, .none⟩⟩]) ⟨port, m, .replying c⟩ := by
  have hsends : Port.Sends s.port (.start (.outputv p c.data w mem)) := by
    intro x hx
    cases hx
    exact .inr (.inr ⟨p, c.data, w, mem, rfl, hwf, hpacket⟩)
  obtain ⟨hok, hbytes⟩ := (Port.machine_does hport).hands hi.ok hsends
  have hqueues : Port.queues (.start (.outputv p c.data w mem)) port.pending =
      inCall ⟨port, m, .replying c⟩ false := by
    unfold inCall Port.queues
    cases port.pending with
    | none => rfl
    | some x => cases x <;> rfl
  refine ⟨hok, fun c' hc => ?_, ?_⟩
  · cases hc
    exact hwf
  · have hold := hi.bytes
    rw [hin, List.append_nil] at hold
    rw [hacc, ← hqueues]
    simp only [handed, sent, List.flatMap_append, List.flatMap_singleton] at hold ⊢
    rw [List.append_assoc, hbytes, ← List.append_assoc, hold]
    simp

theorem Stream.aside {x : PortEvent} {port : Port} {o : List Effect} {m : List SendReply} {ph : SendPhase}
    (hi : Stream t s) (hargs : ph.args = s.phase.args) (hsends : Port.Sends s.port x)
    (hport : s.port.machine x = .some (port, o)) (hqueues : Port.queues x port.pending = [])
    (hin : inCall ⟨port, m, ph⟩ (accepted (t ++ [⟨s, e, ⟨o, .none⟩⟩])) = s.inCall (accepted t)) :
    Stream (t ++ [⟨s, e, ⟨o, .none⟩⟩]) ⟨port, m, ph⟩ := by
  obtain ⟨hok, hbytes⟩ := (Port.machine_does hport).hands hi.ok hsends
  rw [hqueues, List.append_nil] at hbytes
  refine ⟨hok, fun c hc => hi.wf c (hargs ▸ hc), ?_⟩
  have hold := hi.bytes
  rw [hin]
  simp only [handed, sent, List.flatMap_append, List.flatMap_singleton] at hold ⊢
  rw [List.append_assoc, hbytes, hold]
  simp

theorem inCall_congr {port : Port} {m : List SendReply} {ph : SendPhase} {acc' : Bool} (hargs : ph.args = s.phase.args)
    (htook : (acc' || port.pending.any Pending.isWrite) = (acc || s.port.pending.any Pending.isWrite)) :
    inCall ⟨port, m, ph⟩ acc' = s.inCall acc := by
  simp only [inCall, SendPhase.data, hargs, htook]

theorem driver_stream {x : PortEvent} {port : Port} {o : List Effect} {m : List SendReply} (hi : Stream t s)
    (hg : SourceGuard t s (.driver x)) (hport : s.port.machine x = .some (port, o)) :
    Stream (t ++ [⟨s, .driver x, ⟨o, .none⟩⟩]) ⟨port, m, s.phase⟩ := by
  obtain ⟨⟨hone, -⟩, -, -, heof⟩ := hg
  cases x with
  | start e =>
    have hnone : ∀ c, Port.queues (.start e) c = [] := by
      intro c
      cases e <;> first | rfl | cases hone.1
    refine hi.aside rfl ?_ hport (hnone _) (inCall_congr rfl ?_)
    · intro x hx
      cases hx
      exact .inl ⟨hone.1, fun w hw => heof w (by rw [hw])⟩
    · rw [Port.start_pending (Port.machine_does hport) hone.1]
      simp [accepts, SendEvent.isCall]
  | resume w =>
    refine hi.aside rfl (fun x hx => by cases hx) hport rfl (inCall_congr rfl ?_)
    have haccepts : accepts ⟨s, .driver (.resume w), ⟨o, .none⟩⟩ = s.port.pending.any Pending.isWrite := by
      unfold accepts
      cases s.port.pending with
      | none => rfl
      | some c => cases c <;> rfl
    rw [Port.resume_pending (Port.machine_does hport), accepted_snoc, haccepts]
    simp [SendEvent.isCall]

/-- A call that waits for its `retry` has put nothing on the way. -/
theorem Owes.untaken {rs : List SendReply} {ph : SendPhase} {c : Option Pending} {m : List SendReply} {sw : Bool}
    {a : SendArgs} (ho : Owes p acc rs ph c m sw) (hph : ph = .retrying a ∨ ∃ wait, ph = .retryingFor a wait) :
    acc = false ∧ c = .none := by
  cases ho with
  | retrying hacc => exact ⟨hacc, rfl⟩
  | retryingFor hacc => exact ⟨hacc, rfl⟩
  | _ => rcases hph with h | ⟨wait, h⟩ <;> cases h

/-- **One step keeps the stream.** -/
theorem stream_step (hok : SendOk p t s) (hi : Stream t s) (hg : SourceGuard t s e)
    (hm : machine p s e = .some (s', out)) : Stream (t ++ [⟨s, e, out⟩]) s' := by
  have hresult := (send_step hok hg.1 hm).2
  cases machine_moves hm with
  | called hidle _ hport =>
    have hin : s.inCall (accepted t) = [] := by simp [inCall, SendPhase.data, hidle, SendPhase.args]
    exact hi.command hin (hg.2.2.1 _ _ rfl) hg.2.1 (by simp [SendEvent.isCall]) hport
  | @retried current c w mem port o m hph hfree hport =>
    have hargs : s.phase.args = .some c := by
      rcases hph with hph | ⟨wait, hph⟩ <;> rw [hph] <;> rfl
    have hacc : accepted t = false := (hok.owes.untaken hph).1
    exact hi.command (by simp [inCall, hacc, hfree]) (hi.wf c hargs) hg.2.1
      (by simp [hacc, accepts, SendEvent.isCall]) hport
  | driver hport => exact driver_stream hi hg hport
  | @cancelled c port o m hph hfree hport =>
    have hpending : port.pending = .none := by
      rw [Port.cancel_pending (Port.machine_does hport), hfree]
    refine hi.aside (by rw [hph]; rfl) (fun x hx => ?_) hport rfl (inCall_congr (by rw [hph]; rfl) ?_)
    · cases hx
      exact .inr (.inl ⟨p, rfl⟩)
    · simp [hpending, hfree, accepts, SendEvent.isCall]
  | @enters e m ph hcall hacc hargs =>
    have hin : inCall ⟨s.port, m, ph⟩ (accepted (t ++ [⟨s, e, ⟨[], .none⟩⟩])) = s.inCall (accepted t) :=
      inCall_congr hargs (by simp [hcall, hacc])
    refine ⟨hi.ok, fun c hc => hi.wf c (hargs ▸ hc), ?_⟩
    rw [hin]
    simpa [handed, sent] using hi.bytes
  | @leaves e m r hcall hacc =>
    obtain ⟨hres, hclean⟩ := hresult r rfl
    have hfree : s.port.pending = .none := hclean.pending
    have hbytes := hi.bytes
    refine ⟨hi.ok, fun c hc => (by cases hc), ?_⟩
    by_cases hr : r = .ok
    · have hin : s.inCall (accepted t) = s.phase.data := by simp [inCall, hres.ok.1 hr]
      rw [hin] at hbytes
      simpa [handed, sent, hr, inCall, SendPhase.data, SendPhase.args] using hbytes
    · have hin : s.inCall (accepted t) = [] := by
        have hacc' : accepted t = false := Bool.eq_false_iff.2 fun ha => hr (hres.ok.2 ha)
        simp [inCall, hacc', hfree]
      rw [hin] at hbytes
      simpa [handed, sent, hr, inCall, SendPhase.data, SendPhase.args] using hbytes
  | @raises c wait m hph =>
    obtain ⟨hacc, hfree⟩ := hok.owes.untaken (.inr ⟨wait, hph⟩)
    have hin : s.inCall (accepted t) = [] := by simp [inCall, hacc, hfree]
    have hbytes := hi.bytes
    refine ⟨hi.ok, fun c hc => (by cases hc), ?_⟩
    rw [hin] at hbytes
    simpa [handed, sent, inCall, SendPhase.data, SendPhase.args] using hbytes

theorem stream_run {h₀ : UtpHandler} (hs : Started h₀)
    (run : Runs.Run (machine p) SourceGuard [] ⟨⟨h₀, .none⟩, [], .idle⟩ t s) : Stream t s := by
  have hstart : SendOk p [] ⟨⟨h₀, .none⟩, [], .idle⟩ ∧ Stream [] ⟨⟨h₀, .none⟩, [], .idle⟩ := by
    cases hs <;> exact ⟨⟨⟨rfl, rfl, nofun⟩, .idle⟩, .new, nofun, rfl⟩
  refine (run.invariant (I := fun t s => SendOk p t s ∧ Stream t s) hstart ?_).2
  intro t s e s' out hi hg hm
  exact ⟨(send_step hi.1 hg.1 hm).1, stream_step hi.1 hi.2 hg hm⟩

end Sender

/-! ## Both ends -/

/-- The sending process, the bytes under way, and the receiving process. -/
abbrev Transfer := Runs.Pipe Sender Receiving UInt8

namespace Transfer

open Runs.Pipe Receiving

abbrev TransferTrace := Runs.Trace Transfer (SendEvent ⊕ RecvEvent) (SendOut ⊕ RecvOut)

/-- `p` sends at one end, `q` receives at the other. -/
def machine (p q : Pid) : Runs.Machine Transfer (SendEvent ⊕ RecvEvent) (SendOut ⊕ RecvOut) :=
  Runs.Pipe.machine (Sender.machine p) (Receiving.machine q) (fun o => o.effects.flatMap Effect.handed) RecvEvent.chunk

/-- Each end as it is by itself, and the wire gives what comes next. -/
def Ends (q : Pid) : Runs.Guard Transfer (SendEvent ⊕ RecvEvent) (SendOut ⊕ RecvOut) := fun t s x =>
  (∀ e, x = .inl e → Sender.SourceGuard (sourceSteps t) s.source e) ∧
    ∀ e, x = .inr e → RecvGuard q (sinkSteps t) s.sink e ∧ e.chunk <+: s.wire

theorem Ends.near {q : Pid} {t : TransferTrace} {s : Transfer} {e : SendEvent}
    (h : Sender.SourceGuard (sourceSteps t) s.source e) : Ends q t s (.inl e) :=
  ⟨fun _ he => (by cases he; exact h), fun _ he => (by cases he)⟩

theorem Ends.far {q : Pid} {t : TransferTrace} {s : Transfer} {e : RecvEvent} (h : RecvGuard q (sinkSteps t) s.sink e)
    (hc : e.chunk <+: s.wire) : Ends q t s (.inr e) :=
  ⟨fun _ he => (by cases he), fun _ he => (by cases he; exact ⟨h, hc⟩)⟩

/-- Two handlers, and no call yet. -/
def opened (h₀ h₁ : UtpHandler) : Transfer := ⟨⟨⟨h₀, .none⟩, [], .idle⟩, [], ⟨⟨h₁, .none⟩, [], .idle⟩⟩

/-- **What `recv` returns is what `send` sent**: in every interleaving of the
calls, their timeouts and the callbacks at both ends, the data that the calls
of `recv` have returned, and after it all that is on the way to them, is the
data of the calls of `send` that returned `ok`, in order, and of the call in
progress once its driver has taken it. Nothing else arrives: not the data of
a call that failed, and not the same data twice. -/
theorem sent_is_received {p q : Pid} {h₀ h₁ : UtpHandler} {t : TransferTrace} {s : Transfer} (hs : Started h₀)
    (hp : PassiveOk h₁) (hr : h₁.receiverWaiting = false) (hq : h₁.queue = [])
    (run : Runs.Run (machine p q) (Ends q) [] (opened h₀ h₁) t s) :
    returned (sinkSteps t) ++ held s.sink.mailbox ++ s.sink.port.h.queue.flatten ++ s.wire ++
        s.source.port.h.writeQueue.bytes =
      Sender.sent (sourceSteps t) ++ s.source.inCall (Sender.accepted (sourceSteps t)) := by
  have hsource := Sender.stream_run hs (run.source fun _ _ _ hg => hg.1 _ rfl)
  have hsink : RecvOk q h₁ (sinkSteps t) s.sink := by
    have hstart : RecvOk q h₁ [] (opened h₀ h₁).sink :=
      ⟨hp, by simp [opened, returned, arrived, held], .idle hr, nofun, nofun⟩
    refine (run.sink fun _ _ _ hg => (hg.2 _ rfl).1).invariant (I := RecvOk q h₁) hstart ?_
    intro t s e s' out hi hg hm
    exact (recv_step hi hg hm).keeps
  have hwire : arrived (sinkSteps t) ++ s.wire = Sender.handed (sourceSteps t) :=
    run.piped rfl fun _ _ _ hg => (hg.2 _ rfl).2
  have hstream := hsink.stream
  rw [hq, List.flatten_nil, List.nil_append] at hstream
  rw [hstream, hwire]
  exact hsource.bytes

/-- Three bytes are sent: libutp takes two of them, and the peer has read and
returned the first when the sender is still in its call. -/
theorem sent_is_received_first : ∃ t s, Runs.Run (machine 1 2) (Ends 2) []
      (opened (startServer SockOpts.new 1) passiveServer) t s ∧
    returned (sinkSteps t) = [7] ∧ s.wire = [8] ∧ s.source.port.h.writeQueue.bytes = [9] ∧
    returned (sinkSteps t) ++ held s.sink.mailbox ++ s.sink.port.h.queue.flatten ++ s.wire ++
        s.source.port.h.writeQueue.bytes =
      Sender.sent (sourceSteps t) ++ s.source.inCall (Sender.accepted (sourceSteps t)) := by
  have hwf : (⟨3, [⟨[7, 8, 9], .none⟩]⟩ : ErlIOVec).Wf := ⟨rfl, by simp⟩
  have sends := ((Runs.Run.start (machine 1 2) (Ends 2) (opened (startServer SockOpts.new 1) passiveServer)).next
      (.inl (.call ⟨⟨3, [⟨[7, 8, 9], .none⟩]⟩, ⟨0, 0, 0⟩⟩ fun _ => 0))
      (.near ⟨⟨trivial, trivial⟩, rfl, fun _ _ he => (by cases he; exact hwf), nofun⟩) rfl).next
      (.inl (.driver (.resume ⟨fun _ => [2], fun _ => false⟩)))
      (.near ⟨⟨trivial, trivial⟩, rfl, nofun, nofun⟩) rfl
  have reads := (sends.next (.inr (.driver (.start (.doRead [7] fun _ => 0))))
      (.far ⟨⟨rfl, nofun, trivial⟩, by rintro _ _ _ ⟨⟩⟩ ⟨[8], rfl⟩) rfl).next
      (.inr (.call ⟨[5], 1, .some 5⟩ fun _ => 0))
      (.far ⟨show [5] ∉ ([] : List Ref) by decide, by rintro _ _ _ ⟨⟩ -; decide⟩ ⟨[8], rfl⟩) rfl
  have returns := (reads.next (.inr (.driver (.resume .nothing))) (.far ⟨trivial, trivial⟩ ⟨[8], rfl⟩) rfl).next
      (.inr .take) (.far ⟨trivial, trivial⟩ ⟨[8], rfl⟩) rfl
  have hpassive : PassiveOk passiveServer := ⟨⟨rfl, rfl, rfl⟩, rfl, nofun⟩
  exact ⟨_, _, returns, rfl, rfl, rfl, sent_is_received (.server _ 1) hpassive rfl rfl returns⟩

end Transfer

end GenUtp
