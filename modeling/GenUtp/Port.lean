/-
The requests of a port, in the parts their locking makes of them.

The port lock lets one request in at a time. The callbacks of libutp run on
the thread of the main port, under `utp_mutex` alone, so they may come between
what a request reads and what it records: `outputv` reads `writable`, `recv`
the driver queue and `connect_validate` the status, and each acts on it
later. A `Port` is a handler with the part of such a request that is still to
run; the other requests, and the callbacks, are one step each.

`unbroken` says that nothing else is different: parts with no callback
between them do what `machine` does. `machine_does` lists what each part
can do, as `machine_step` does for whole events.
-/
import GenUtp.Teardown

namespace GenUtp

/-- What is left to run of a request, with the local variables it still
reads. -/
inductive Pending
  /-- `outputv` has queued its data: `UTP_Write` of `n` bytes. -/
  | write (p : Pid) (n : Nat)
  /-- `outputv` found no room: it records the sender. -/
  | park (p : Pid)
  /-- The answer of `outputv`, after its `utp_mutex` section. -/
  | reply (p : Pid) (r : SendReply)
  /-- `recv` sent all there was: `UTP_RBDrained`. -/
  | drained
  /-- `recv` found too little: it records the receiver. -/
  | recvPark (p : Pid) (len : Nat) (ref : Ref)
  /-- `connect_validate` found the connection pending: it stores the
  reference. -/
  | validate (ref : Ref)
  deriving DecidableEq, Repr

structure Port where
  h : UtpHandler
  pending : Option Pending
  deriving DecidableEq, Repr

/-- A request up to the first gap (an `outputv` leaves `UTP_Write` to a later
part) or a whole callback; or the next part of the request in progress. -/
inductive PortEvent
  | start (e : Event)
  | resume (w : UtpWrite)

abbrev PortTrace := Runs.Trace Port PortEvent (List Effect)

namespace Event

/-- The requests that run in parts. -/
def inParts : Event → Bool
  | .outputv .. | .recv .. | .connectValidate .. => true
  | _ => false

/-- What holds the port lock. -/
def isRequest : Event → Bool
  | .doRead .. | .doWrite _ | .stateChange .. | .doError _ | .doIncoming _ => false
  | _ => true

end Event

namespace UtpHandler

/-! ## The parts -/

/-- `outputv` up to its `utp_mutex` section. -/
def outputvTest (h : UtpHandler) (p : Pid) (ev : ErlIOVec) (mem : Mem) : UtpHandler × Option Pending :=
  if h.status ≠ .connected ∨ h.utp = .none then (h.emit (.send (.pid p) (.utpReply (.error .enotconn))), .none)
  else if h.writable then
    let (wq, writeTotal) := enqueueSend h.writeQueue h.sockopts.packet ev mem
    ({ h with writeQueue := wq }, .some (.write p writeTotal))
  else if h.sockopts.sendTmout = 0 then (h.emit (.send (.pid p) (.utpReply (.error .etimedout))), .none)
  else (h, .some (.park p))

/-- `recv` up to its `utp_mutex` section. -/
def recvTest (h : UtpHandler) (p : Pid) (buf : EiBuf) (mem : Mem) : Option (UtpHandler × Option Pending) :=
  if h.sockopts.active ≠ .activeFalse then .some (h.emit (.reply .badarg), .none)
  else match decodeRecv buf with
    | .none => .some (h.emit (.reply .badarg), .none)
    | .some (length, ref) =>
      (h.emitReadBuffer length (.proc (.pid p) (.some ref)) 1 mem).map fun r =>
        if r.sent then if r.qsize = 0 then (r.h, .some .drained) else (r.h.emit (.reply .wait), .none)
        else (r.h, .some (.recvPark p length ref))

/-- `connect_validate` up to where it stores the reference. -/
def validateTest (h : UtpHandler) (buf : EiBuf) : UtpHandler × Option Pending :=
  match h.kind, decodeBinary buf, h.status with
  | .client, .some ref, .connectPending => (h, .some (.validate ref))
  | _, _, _ => (h.connectValidate buf, .none)

/-- The first part of a request. -/
def begins (h : UtpHandler) : Event → Option (UtpHandler × Option Pending)
  | .outputv p ev _ mem => .some (h.outputvTest p ev mem)
  | .recv p buf mem => h.recvTest p buf mem
  | .connectValidate _ buf => .some (h.validateTest buf)
  | e => (h.handle e).map fun h => (h, .none)

/-- The next part. -/
def resume (h : UtpHandler) (w : UtpWrite) : Pending → Option (UtpHandler × Option Pending)
  | .write p n => (h.utpWrite w n).map fun (ret, h) => ({ h with writable := ret }, .some (.reply p .ok))
  | .park p =>
    let reply := if h.sockopts.sendTmout = -1 then .wait else .waitFor h.sockopts.sendTmout.toNat
    .some ({ h with caller := .pid p, senderWaiting := true }, .some (.reply p reply))
  | .reply p r => .some (h.emit (.send (.pid p) (.utpReply r)), .none)
  | .drained => .some (h.rbDrained.emit (.reply .wait), .none)
  | .recvPark p length ref =>
    let h := { h with callerRef := .some ref, caller := .pid p, recvLen := length, receiverWaiting := true }
    .some (h.emit (.reply .wait), .none)
  | .validate ref => .some ({ h with callerRef := .some ref, out := h.out ++ [.reply .wait] }, .none)

end UtpHandler

namespace Port

open UtpHandler

def step (s : Port) : PortEvent → Option Port
  | .start e =>
    if e.inParts then (s.h.begins e).map fun r => ⟨r.1, r.2⟩ else (s.h.handle e).map fun h => ⟨h, s.pending⟩
  | .resume w => s.pending.bind fun c => (s.h.resume w c).map fun r => ⟨r.1, r.2⟩

/-- As `UtpHandler.machine`: `out` is only used within the step. -/
def machine (s : Port) (e : PortEvent) : Option (Port × List Effect) :=
  (step { s with h := { s.h with out := [] } } e).map fun s' =>
    ({ s' with h := { s'.h with out := s.h.out } }, s'.h.out)

/-- A request comes when none is in progress. -/
def Locked (s : Port) : PortEvent → Prop
  | .start e => e.isRequest = true → s.pending = .none
  | .resume _ => True

/-- The parts still to run, one after the other. -/
def finish (w : UtpWrite) : Nat → UtpHandler × Option Pending → Option UtpHandler
  | _, (h, .none) => .some h
  | 0, (_, .some _) => .none
  | n + 1, (h, .some c) => (h.resume w c).bind (finish w n)

/-- The `UTP_Write` of an `outputv`. -/
def writeOf : Event → UtpWrite
  | .outputv _ _ w _ => w
  | _ => ⟨fun _ => [], fun _ => false⟩

/-- **Parts without a gap are the request**: there are at most three, and run
one after the other they do what the handler does in one step. -/
theorem unbroken (h : UtpHandler) (e : Event) : (h.begins e).bind (finish (writeOf e) 2) = h.handle e := by
  cases e with
  | outputv p ev w mem =>
    simp only [begins, outputvTest, handle, outputv, Option.bind_some]
    split
    · rfl
    split
    · simp only [finish, resume, writeOf, Option.bind_map, Option.bind_some, Function.comp_def, emit]
      cases utpWrite { h with writeQueue := (enqueueSend h.writeQueue h.sockopts.packet ev mem).1 } w
        (enqueueSend h.writeQueue h.sockopts.packet ev mem).2 <;> rfl
    split
    · rfl
    · rfl
  | recv p buf mem =>
    simp only [begins, recvTest, handle, recv]
    split
    · rfl
    rcases decodeRecv buf with _ | ⟨len, ref⟩
    · rfl
    dsimp only
    rcases h.emitReadBuffer len (.proc (.pid p) (.some ref)) 1 mem with _ | ⟨sent, q, h'⟩
    · rfl
    rcases sent with _ | _
    · simp [finish, resume]
    · by_cases hq : q = 0 <;> simp [hq, finish, resume]
  | connectValidate p buf =>
    simp only [begins, validateTest, handle, Option.bind_some]
    split
    · next hk hd hs =>
      simp [finish, resume, connectValidate, hk, hd, hs]
    · rfl
  | _ => simp [begins, Option.bind_map, Function.comp_def, finish]

/-! ## The rules -/

/-- Every outcome of a part, and of what is not in parts. -/
inductive Step : Port → PortEvent → List Effect → Port → Prop
  | whole {h h' c e o} : e.inParts = false → UtpHandler.Step h e o h' → Step ⟨h, c⟩ (.start e) o ⟨h', c⟩
  | sendRefused {h c p ev w mem} : (h.status ≠ .connected ∨ h.utp = .none) →
      Step ⟨h, c⟩ (.start (.outputv p ev w mem)) [.send (.pid p) (.utpReply (.error .enotconn))] ⟨h, .none⟩
  | sendQueued {h c p ev w mem s wq n} : h.status = .connected → h.utp = .some s → h.writable = true →
      enqueueSend h.writeQueue h.sockopts.packet ev mem = (wq, n) →
      Step ⟨h, c⟩ (.start (.outputv p ev w mem)) [] ⟨{ h with writeQueue := wq }, .some (.write p n)⟩
  | sendTimedOut {h c p ev w mem s} : h.status = .connected → h.utp = .some s → h.writable = false →
      h.sockopts.sendTmout = 0 →
      Step ⟨h, c⟩ (.start (.outputv p ev w mem)) [.send (.pid p) (.utpReply (.error .etimedout))] ⟨h, .none⟩
  | sendNoRoom {h c p ev w mem s} : h.status = .connected → h.utp = .some s → h.writable = false →
      h.sockopts.sendTmout ≠ 0 → Step ⟨h, c⟩ (.start (.outputv p ev w mem)) [] ⟨h, .some (.park p)⟩
  | recvBadarg {h c p buf mem} : Step ⟨h, c⟩ (.start (.recv p buf mem)) [.reply .badarg] ⟨h, .none⟩
  | recvDrains {h c p buf mem len ref o h'} : h.sockopts.active = .activeFalse →
      decodeRecv buf = .some (len, ref) → Emission h len (.proc (.pid p) (.some ref)) 1 mem true 0 o h' →
      Step ⟨h, c⟩ (.start (.recv p buf mem)) o ⟨h', .some .drained⟩
  | recvSent {h c p buf mem len ref q o h'} : h.sockopts.active = .activeFalse →
      decodeRecv buf = .some (len, ref) → Emission h len (.proc (.pid p) (.some ref)) 1 mem true q o h' → q ≠ 0 →
      Step ⟨h, c⟩ (.start (.recv p buf mem)) (o ++ [.reply .wait]) ⟨h', .none⟩
  | recvShort {h c p buf mem len ref q o h'} : h.sockopts.active = .activeFalse →
      decodeRecv buf = .some (len, ref) → Emission h len (.proc (.pid p) (.some ref)) 1 mem false q o h' →
      Step ⟨h, c⟩ (.start (.recv p buf mem)) o ⟨h', .some (.recvPark p len ref)⟩
  | validateReads {h c p buf ref} : h.kind = .client → decodeBinary buf = .some ref → h.status = .connectPending →
      Step ⟨h, c⟩ (.start (.connectValidate p buf)) [] ⟨h, .some (.validate ref)⟩
  | validateAnswered {h c p buf o h'} : (h.kind = .server ∨ h.status ≠ .connectPending ∨ decodeBinary buf = .none) →
      UtpHandler.Step h (.connectValidate p buf) o h' →
      Step ⟨h, c⟩ (.start (.connectValidate p buf)) o ⟨h', .none⟩
  | wrote {h p n w ws wq} : writes h.writeQueue (w.counts n) = .some (ws, wq) →
      Step ⟨h, .some (.write p n)⟩ (.resume w) (.utp h.utp (.write n) :: ws)
        ⟨{ h with writeQueue := wq, writable := w.ret n }, .some (.reply p .ok)⟩
  | parked {h p w} : Step ⟨h, .some (.park p)⟩ (.resume w) []
      ⟨{ h with caller := .pid p, senderWaiting := true }, .some (.reply p (parkReply h.sockopts))⟩
  | replied {h p r w} :
      Step ⟨h, .some (.reply p r)⟩ (.resume w) [.send (.pid p) (.utpReply r)] ⟨h, .none⟩
  | drained {h w} : Step ⟨h, .some .drained⟩ (.resume w) [.utp h.utp .rbDrained, .reply .wait] ⟨h, .none⟩
  | recvParked {h p len ref w} : Step ⟨h, .some (.recvPark p len ref)⟩ (.resume w) [.reply .wait]
      ⟨{ h with callerRef := .some ref, caller := .pid p, recvLen := len, receiverWaiting := true }, .none⟩
  | validateStored {h ref w} :
      Step ⟨h, .some (.validate ref)⟩ (.resume w) [.reply .wait] ⟨{ h with callerRef := .some ref }, .none⟩

variable {h : UtpHandler} {c : Option Pending}

/-- `s'` is what some rule for `e` leads to. -/
def Does (s : Port) (e : PortEvent) (s' : Port) : Prop :=
  ∃ o r, Step s e o r ∧ s' = { r with h := { r.h with out := o } }

theorem outputv_begins {p : Pid} {ev : ErlIOVec} {w : UtpWrite} {mem : Mem} {r : UtpHandler × Option Pending}
    (hr : { h with out := [] }.outputvTest p ev mem = r) : Does ⟨h, c⟩ (.start (.outputv p ev w mem)) ⟨r.1, r.2⟩ := by
  subst hr
  simp only [outputvTest]
  split
  · next hc => exact ⟨_, _, .sendRefused hc, rfl⟩
  next hc =>
  simp only [not_or, not_not] at hc
  obtain ⟨s, hs⟩ := Option.ne_none_iff_exists'.1 hc.2
  split
  · next hw => exact ⟨_, _, .sendQueued hc.1 hs hw rfl, rfl⟩
  next hw =>
  have hw : h.writable = false := Bool.eq_false_iff.2 hw
  split
  · next ht => exact ⟨_, _, .sendTimedOut hc.1 hs hw ht, rfl⟩
  · next ht => exact ⟨_, _, .sendNoRoom hc.1 hs hw ht, rfl⟩

theorem recv_begins {p : Pid} {buf : EiBuf} {mem : Mem} {r : UtpHandler × Option Pending}
    (hr : { h with out := [] }.recvTest p buf mem = .some r) : Does ⟨h, c⟩ (.start (.recv p buf mem)) ⟨r.1, r.2⟩ := by
  simp only [recvTest] at hr
  split at hr
  · obtain rfl := Option.some.inj hr
    exact ⟨_, _, .recvBadarg, rfl⟩
  next ha =>
  have ha : h.sockopts.active = .activeFalse := not_not.1 ha
  split at hr
  · obtain rfl := Option.some.inj hr
    exact ⟨_, _, .recvBadarg, rfl⟩
  next len ref hd =>
  obtain ⟨⟨sent, q, hm⟩, he, rfl⟩ := Option.map_eq_some_iff.1 hr
  obtain ⟨o, h', hem, hh'⟩ := emit_cases he
  simp only at hem hh'
  subst hh'
  rcases sent with _ | _
  · exact ⟨_, _, .recvShort ha hd hem, rfl⟩
  · by_cases hq : q = 0
    · subst hq
      exact ⟨_, _, .recvDrains ha hd hem, rfl⟩
    · exact ⟨_, _, .recvSent ha hd hem hq, by simp [hq, emit]⟩

theorem validate_begins {p : Pid} {buf : EiBuf} {r : UtpHandler × Option Pending}
    (hr : { h with out := [] }.validateTest buf = r) :
    Does ⟨h, c⟩ (.start (.connectValidate p buf)) ⟨r.1, r.2⟩ := by
  subst hr
  simp only [validateTest]
  split
  · next hk hd hs => exact ⟨_, _, .validateReads hk hd hs, rfl⟩
  · next hno =>
    obtain ⟨o, h', hs, heq⟩ : UtpHandler.Does h [] (.connectValidate p buf) _ := connectValidate_does
    refine ⟨o, ⟨h', .none⟩, .validateAnswered ?_ hs, by rw [heq]; rfl⟩
    by_contra hc
    simp only [not_or, not_not] at hc
    obtain ⟨ref, hd⟩ := Option.ne_none_iff_exists'.1 hc.2.2
    have hk : h.kind = .client := by
      cases hk : h.kind with
      | client => rfl
      | server => exact absurd hk hc.1
    exact hno ref hk hd hc.2.1

theorem resume_does {w : UtpWrite} {p : Pending} {r : UtpHandler × Option Pending}
    (hr : { h with out := [] }.resume w p = .some r) : Does ⟨h, .some p⟩ (.resume w) ⟨r.1, r.2⟩ := by
  cases p with
  | write p n =>
    simp only [resume, utpWrite_eq, Option.map_map, Option.map_eq_some_iff, Function.comp_def] at hr
    obtain ⟨⟨ws, wq⟩, hws, rfl⟩ := hr
    exact ⟨_, _, .wrote hws, rfl⟩
  | park p =>
    obtain rfl := Option.some.inj hr
    exact ⟨_, _, .parked, rfl⟩
  | reply p reply =>
    obtain rfl := Option.some.inj hr
    exact ⟨_, _, .replied, rfl⟩
  | drained =>
    obtain rfl := Option.some.inj hr
    exact ⟨_, _, .drained, rfl⟩
  | recvPark p len ref =>
    obtain rfl := Option.some.inj hr
    exact ⟨_, _, .recvParked, rfl⟩
  | validate ref =>
    obtain rfl := Option.some.inj hr
    exact ⟨_, _, .validateStored, rfl⟩

theorem Step.out {s s' : Port} {e : PortEvent} {o : List Effect} (hs : Step s e o s') : s'.h.out = s.h.out := by
  cases hs with
  | whole _ hst | validateAnswered _ hst => exact hst.out
  | recvDrains _ _ he | recvSent _ _ he | recvShort _ _ he => exact he.out
  | _ => rfl

/-- **A part does what the rules say**, and nothing else. -/
theorem machine_does {s s' : Port} {e : PortEvent} {o : List Effect} (hm : machine s e = .some (s', o)) :
    Step s e o s' := by
  simp only [machine, Option.map_eq_some_iff, Prod.mk.injEq] at hm
  obtain ⟨r, hr, rfl, rfl⟩ := hm
  obtain ⟨h, c⟩ := s
  have key : Does ⟨h, c⟩ e r := by
    cases e with
    | start e =>
      simp only [step] at hr
      split at hr
      · next hp =>
        obtain ⟨r', hr', rfl⟩ := Option.map_eq_some_iff.1 hr
        cases e with
        | outputv p ev w mem => exact outputv_begins (Option.some.inj hr')
        | recv p buf mem => exact recv_begins hr'
        | connectValidate p buf => exact validate_begins (Option.some.inj hr')
        | _ => cases hp
      · next hp =>
        obtain ⟨h', hh', rfl⟩ := Option.map_eq_some_iff.1 hr
        have hm : UtpHandler.machine h e = .some ({ h' with out := h.out }, h'.out) := by
          rw [UtpHandler.machine, hh']
          rfl
        exact ⟨_, _, .whole (Bool.eq_false_iff.2 hp) (machine_step hm), rfl⟩
    | resume w =>
      obtain ⟨p, rfl, hr'⟩ := Option.bind_eq_some_iff.1 hr
      obtain ⟨r', hr'', rfl⟩ := Option.map_eq_some_iff.1 hr'
      exact resume_does hr''
  obtain ⟨o, ⟨h', c'⟩, hs, rfl⟩ := key
  have hout : h'.out = h.out := hs.out
  rw [← hout]
  exact hs

end Port

end GenUtp
