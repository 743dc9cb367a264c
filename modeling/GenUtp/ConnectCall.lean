/-
`gen_utp:connect/3`: one process that connects, against the driver.

The process asks once, with `UTP_CONNECT_VALIDATE`. CONNECT and errors come
when libutp reports them: before the request, after it, more than once. A
`Connecting` is the handler, the messages with the reference of the request
in the mailbox of the process, and where its call is.

There is one outcome (`connect_once`): the answer of the request, or the
message that follows a `wait`. The handler sends such a message only while
its status is `connect_pending`; the first CONNECT or error ends that for
good (`report_step`), and what the process asks for afterwards carries
references of its own (`silent_step`).

A connection that ends after its CONNECT and before the request is answered
with an error, though none was reported (`ended_before_validate`).
-/
import GenUtp.Port
import GenUtp.Waiters

namespace GenUtp

/-! ## The process -/

/-- The outcome of `validate_connect/1`. -/
inductive ConnectResult
  /-- `{ok, Sock}` -/
  | ok
  | error (e : Errno)
  /-- `{error, "utpdrv illegal connect state: N"}` -/
  | illegalState (text : String)
  /-- `{error, closed}`: the request raised `badarg`, which `connect/3`
  catches. -/
  | closed
  /-- `{ok, Payload}`, from a message that answers a `recv`. -/
  | data (p : Payload)
  deriving DecidableEq, Repr

/-- Where the process is in `connect/3`. -/
inductive ConnectPhase
  /-- `UTP_CONNECT_START` was answered `ok`. -/
  | started
  /-- After `wait`, in the `receive`. -/
  | waiting
  /-- With its outcome; where that is an error, it goes on to close the
  port. -/
  | decided (r : ConnectResult)
  deriving DecidableEq, Repr

/-- The handler, the messages `{Ref, R}` in the mailbox, and the phase. -/
structure Connecting where
  h : UtpHandler
  mailbox : List ConnectResult
  phase : ConnectPhase
  deriving DecidableEq, Repr

inductive ConnectEvent
  /-- `port_control` with `UTP_CONNECT_VALIDATE`. -/
  | validate
  | driver (e : Event)
  /-- The `receive` finds its message. -/
  | take

abbrev ConnectTrace := Runs.Trace Connecting ConnectEvent (List Effect)

/-- What the `receive` of `validate_connect/1` makes of a message, when it has
the reference. -/
def Msg.outcome (ref : Ref) : Msg → Option ConnectResult
  | .refOk r => if r = ref then .some .ok else .none
  | .refError r e => if r = ref then .some (.error e) else .none
  | .refData r p => if r = .some ref then .some (.data p) else .none
  | _ => .none

/-- The outcomes sent to `p`, which has opened the port. -/
def outcomesTo (p : Pid) (ref : Ref) (o : List Effect) : List ConnectResult :=
  o.filterMap fun
    | .output m => m.outcome ref
    | .send (.pid q) m => if q = p then m.outcome ref else .none
    | _ => .none

/-- The answer of a request. -/
def replyOf (o : List Effect) : Option Reply :=
  o.findSome? fun
    | .reply r => .some r
    | _ => .none

/-- The first `case` of `validate_connect/1`; `none` is `wait`. -/
def Reply.outcome : Reply → Option ConnectResult
  | .wait => .none
  | .ok => .some .ok
  | .error e => .some (.error e)
  | .errorString text => .some (.illegalState text)
  | _ => .some .closed

/-- Where the answer leaves the process. -/
def Reply.phase (r : Reply) : ConnectPhase :=
  match r.outcome with
  | .some x => .decided x
  | .none => .waiting

namespace Connecting

variable (p : Pid) (ref : Ref)

def machine (s : Connecting) : ConnectEvent → Option (Connecting × List Effect)
  | .validate => match s.phase with
    | .started => (s.h.machine (.connectValidate p (refArgs ref))).bind fun (h, o) =>
      (replyOf o).map fun r => (⟨h, s.mailbox ++ outcomesTo p ref o, r.phase⟩, o)
    | _ => .none
  | .driver e => (s.h.machine e).map fun (h, o) => (⟨h, s.mailbox ++ outcomesTo p ref o, s.phase⟩, o)
  | .take => match s.phase, s.mailbox with
    | .waiting, r :: m => .some (⟨s.h, m, .decided r⟩, [])
    | _, _ => .none

end Connecting

/-! ## What was asked and answered -/

namespace Event

def isError : Event → Bool
  | .doError _ => true
  | _ => false

def isEof : Event → Bool
  | .stateChange .eof _ => true
  | _ => false

theorem eq_error {e : Event} (h : e.isError = true) : ∃ err, e = .doError err := by
  cases e with
  | doError err => exact ⟨err, rfl⟩
  | _ => cases h

end Event

def ConnectEvent.isValidate : ConnectEvent → Bool
  | .validate => true
  | _ => false

/-- An event of this kind at the handler. -/
def ConnectEvent.driven (f : Event → Bool) : ConnectEvent → Bool
  | .driver e => f e
  | _ => false

namespace Connecting

/-- The request was made. -/
def asked (t : ConnectTrace) : Bool := t.any fun x => x.event.isValidate

def saw (f : Event → Bool) (t : ConnectTrace) : Bool := t.any fun x => x.event.driven f

/-- CONNECT or an error was reported. -/
def resolved (t : ConnectTrace) : Bool := saw Event.isConnect t || saw Event.isError t

/-- The driver has called `UTP_Close`. -/
def closes (t : ConnectTrace) : Bool := t.any fun x => x.out.any Effect.isClose

/-- The outcome a request answers at once. -/
def answered (x : Runs.Entry Connecting ConnectEvent (List Effect)) : List ConnectResult :=
  match x.event with
  | .validate => ((replyOf x.out).bind Reply.outcome).toList
  | _ => []

/-- Every outcome so far, answered or sent. -/
def outcomes (p : Pid) (ref : Ref) (t : ConnectTrace) : List ConnectResult :=
  t.flatMap fun x => answered x ++ outcomesTo p ref x.out

variable {t : ConnectTrace} {x : Runs.Entry Connecting ConnectEvent (List Effect)}

@[simp] theorem asked_snoc : asked (t ++ [x]) = (asked t || x.event.isValidate) := by simp [asked]

@[simp] theorem saw_snoc (f : Event → Bool) : saw f (t ++ [x]) = (saw f t || x.event.driven f) := by simp [saw]

@[simp] theorem closes_snoc : closes (t ++ [x]) = (closes t || x.out.any Effect.isClose) := by simp [closes]

@[simp] theorem outcomes_snoc (p : Pid) (ref : Ref) :
    outcomes p ref (t ++ [x]) = outcomes p ref t ++ (answered x ++ outcomesTo p ref x.out) := by
  simp [outcomes]

theorem resolved_snoc : resolved (t ++ [x]) =
    (resolved t || (x.event.driven Event.isConnect || x.event.driven Event.isError)) := by
  simp only [resolved, saw_snoc]
  grind

/-! ## The environment -/

/-- A request whose reference, where it has one, is not `ref`. -/
def OtherRefs (ref : Ref) : Event → Prop
  | .recv _ buf _ => ∀ r ∈ decodeRecv buf, r.2 ≠ ref
  | .close _ buf => ∃ r, decodeBinary buf = .some r ∧ r ≠ ref
  | .connectValidate .. => False
  | _ => True

/-- While the call runs its process makes no other request, and later ones
bring references of their own. EOF and DESTROYING come once the connection
was established, or after `UTP_Close`. -/
def ConnectGuard (ref : Ref) : Runs.Guard Connecting ConnectEvent (List Effect) := fun t s e =>
  match e with
  | .driver e =>
    (e.isRequest = true → (∃ r, s.phase = .decided r) ∧ OtherRefs ref e) ∧
      (e.isEof = true ∨ e.isDestroying = true → saw Event.isConnect t = true ∨ closes t = true)
  | _ => True

end Connecting

/-! ## What the handler sends -/

/-- A message without a reference. -/
def Msg.bare : Msg → Bool
  | .refOk _ | .refError .. | .refData .. => false
  | _ => true

/-- No message with a reference is sent. -/
def Effect.bare : Effect → Bool
  | .output m | .send _ m => m.bare
  | _ => true

theorem Msg.outcome_of_bare (ref : Ref) {m : Msg} (h : m.bare = true) : m.outcome ref = .none := by
  cases m <;> first | rfl | cases h

namespace UtpHandler

variable {h h' : UtpHandler} {e : Event} {o : List Effect} {p : Pid} {ref : Ref}

theorem outcomesTo_append (p : Pid) (ref : Ref) (o o' : List Effect) :
    outcomesTo p ref (o ++ o') = outcomesTo p ref o ++ outcomesTo p ref o' := List.filterMap_append

theorem outcomesTo_of_bare (p : Pid) (ref : Ref) (ho : o.all Effect.bare = true) : outcomesTo p ref o = [] := by
  rw [outcomesTo, List.filterMap_eq_nil_iff]
  intro x hx
  have hbare := List.all_eq_true.1 ho x hx
  split
  · next m => exact Msg.outcome_of_bare ref hbare
  · next q m =>
    rw [Msg.outcome_of_bare ref hbare, ite_self]
  · rfl

@[simp] theorem all_bare_connected (so : SockOpts) (ms : List Packet) :
    (dataMessages so .connected ms).all Effect.bare = true :=
  all_dataMessages so .connected ms fun _ => rfl

@[simp] theorem all_bare_bufferSets (utp : Option UTPSocket) (saved so : SockOpts) :
    (bufferSets utp saved so).all Effect.bare = true :=
  all_bufferSets utp saved so fun _ _ => rfl

@[simp] theorem all_bare_drainedCall (utp : Option UTPSocket) (qsize : Nat) :
    (drainedCall utp qsize).all Effect.bare = true :=
  all_drainedCall utp qsize rfl

@[simp] theorem all_bare_deselect (h : UtpHandler) : h.deselect.all Effect.bare = true :=
  all_deselect h rfl

theorem all_bare_writes (counts : List Nat) {wq wq' : WriteQueue} {ws : List Effect}
    (hw : writes wq counts = .some (ws, wq')) : ws.all Effect.bare = true :=
  all_writes (fun _ _ => rfl) counts hw

theorem CloseUtp.bare (hc : CloseUtp h o h') : o.all Effect.bare = true := by
  cases hc <;> rfl

theorem Flush.bare {w : UtpWrite} (hf : Flush h w o h') : o.all Effect.bare = true :=
  all_flush hf (fun _ => rfl) fun _ _ => rfl

theorem Retry.bare (hr : Retry h o h') : o.all Effect.bare = true := by
  cases hr <;> rfl

theorem Emission.bare {len qsize : Nat} {mem : Mem} {sent : Bool} {q : Nat}
    (he : Emission h len .connected qsize mem sent q o h') : o.all Effect.bare = true := by
  cases he with
  | sent => exact all_bare_connected _ _
  | _ => rfl

/-- Nothing that waits will be answered with this reference. -/
def Silent (ref : Ref) (h : UtpHandler) : Prop :=
  h.closePending = true ∨ h.receiverWaiting = true → h.callerRef ≠ .some ref

/-- No step goes back to `connect_pending`. -/
theorem settled_step (hs : Step h e o h') (hst : h.status ≠ .connectPending) : h'.status ≠ .connectPending := by
  cases moves hs with
  | keeps heq => rwa [heq]
  | closes _ heq | opens heq | stops heq | connects heq | destroys _ heq | fails _ heq | validates _ heq
  | takes _ _ heq => rw [heq]; exact nofun

/-- A step that sends nothing with a reference, and leaves the close and the
`recv` that wait alone. -/
theorem silent_frame (hq : Silent ref h) (ho : o.all Effect.bare = true)
    (hw : (h'.closePending = true → h.closePending = true) ∧
      (h'.receiverWaiting = true → h.receiverWaiting = true) ∧ h'.callerRef = h.callerRef) :
    outcomesTo p ref o = [] ∧ Silent ref h' := by
  obtain ⟨hcp, hrw, hcr⟩ := hw
  refine ⟨outcomesTo_of_bare p ref ho, fun hor => ?_⟩
  rw [hcr]
  exact hq (hor.imp hcp hrw)

theorem silent_same (hq : Silent ref h) (ho : o.all Effect.bare = true) (hs : SameWaits h h') :
    outcomesTo p ref o = [] ∧ Silent ref h' :=
  silent_frame hq ho ⟨fun hn => hs.closePending.symm.trans hn, fun hn => hs.receiverWaiting.symm.trans hn, hs.callerRef⟩

/-- **Once the connection is settled, the reference is not used again**: no
step with references of its own sends anything with it. -/
theorem silent_step (hs : Step h e o h') (hst : h.status ≠ .connectPending) (hq : Silent ref h)
    (he : Connecting.OtherRefs ref e) : outcomesTo p ref o = [] ∧ Silent ref h' := by
  have hother : ∀ {ref' : Ref} {h₁ : UtpHandler}, ref' ≠ ref → h₁.callerRef = .some ref' → Silent ref h₁ :=
    fun hne hr _ hn => hne (Option.some.inj (hr.symm.trans hn))
  have hwaits : ∀ {h₁ : UtpHandler} {o₁ : List Effect}, o₁.all Effect.bare = true → SameWaits h h₁ →
      outcomesTo p ref o₁ = [] ∧ Silent ref h₁ := fun ho hs => silent_same hq ho hs
  cases hs with
  | outputvAccepted _ _ _ _ hws =>
    have hall := all_bare_writes _ hws
    exact hwaits (by simp [hall, Effect.bare, Msg.bare]) ⟨rfl, rfl, rfl, rfl, rfl⟩
  | @recvSent p' buf mem len ref' q o h' hact hdec hem =>
    have hne : ref' ≠ ref := he _ hdec
    obtain ⟨hsame, -, data, rfl⟩ := hem.proc hact
    have hbare : (drainedCall h.utp q ++ [Effect.reply .wait]).all Effect.bare = true := by
      simp [Effect.bare]
    have hnone : ([] : List Effect).all Effect.bare = true := rfl
    refine ⟨?_, (hwaits hnone hsame).2⟩
    rw [List.append_assoc, outcomesTo_append, outcomesTo_of_bare p ref hbare]
    simp [outcomesTo, Msg.outcome, hne]
  | @recvParked p' buf mem len ref' q o h' hact hdec hem =>
    have hne : ref' ≠ ref := he _ hdec
    refine ⟨?_, hother hne rfl⟩
    cases hem <;> rfl
  | outputvParked | cancelSend => exact silent_frame hq rfl ⟨id, id, rfl⟩
  | cancelRecv => exact ⟨rfl, fun _ => nofun⟩
  | closeBadarg _ hnone =>
    obtain ⟨ref', hdec, -⟩ := he
    rw [hnone] at hdec
    cases hdec
  | closeOpened _ hdec hcl =>
    obtain ⟨ref', hdec', hne⟩ := he
    obtain rfl := Option.some.inj (hdec.symm.trans hdec')
    refine ⟨outcomesTo_of_bare p ref (by simp [hcl.bare, Effect.bare]), hother hne ?_⟩
    exact hcl.waits.1.callerRef
  | setoptsQuiet =>
    refine hwaits ?_ ⟨rfl, rfl, rfl, rfl, rfl⟩
    simp [Effect.bare]
  | setoptsEmit _ _ _ hem =>
    refine silent_frame hq (by simp [hem.bare, Effect.bare]) ?_
    cases hem with
    | closed => exact ⟨nofun, id, rfl⟩
    | held | sent => exact ⟨id, id, rfl⟩
  | validateWaits | validateFailed | validateAnswered => exact he.elim
  | stopDeleted hcl _ =>
    have hw := hcl.waits.1
    exact hwaits (by simp [hcl.bare, Effect.bare]) ⟨hw.1, hw.2, hw.3, hw.4, hw.5⟩
  | stopped hcl _ =>
    have hw := hcl.waits.1
    exact hwaits hcl.bare ⟨hw.1, hw.2, hw.3, hw.4, hw.5⟩
  | @doReadAnswers bytes mem q o h' hb hact hrw hem =>
    have hne := hq (.inr hrw)
    obtain ⟨-, -, data, rfl⟩ := hem.proc hact
    refine ⟨?_, fun _ => nofun⟩
    rw [outcomesTo_append, outcomesTo_of_bare p ref (all_bare_drainedCall _ _)]
    cases h.caller <;> simp [outcomesTo, Msg.outcome, hne]
  | doReadActive _ _ hem =>
    refine silent_frame hq (by simp [hem.bare]) ?_
    cases hem with
    | closed => exact ⟨nofun, id, rfl⟩
    | held | sent => exact ⟨id, id, rfl⟩
  | doWrite hws =>
    have hall := all_bare_writes _ hws
    exact hwaits hall ⟨rfl, rfl, rfl, rfl, rfl⟩
  | eof _ hcl | errorReset _ hcl =>
    have hw := hcl.waits.1
    exact hwaits hcl.bare ⟨hw.1, hw.2, hw.3, hw.4, hw.5⟩
  | writable hf hr =>
    refine silent_frame hq (by simp [hf.bare, hr.bare]) ?_
    have hw := hf.waits.1
    cases hr <;> exact ⟨fun hn => hw.closePending.symm.trans hn, fun hn => hw.receiverWaiting.symm.trans hn,
      hw.callerRef⟩
  | writableCloses hf hr _ hcl =>
    refine silent_frame hq (by simp [hf.bare, hr.bare, hcl.bare]) ?_
    have hw := hf.waits.1
    have hw' := hcl.waits.1
    cases hr <;> exact ⟨fun hn => hw.closePending.symm.trans (hw'.closePending.symm.trans hn),
      fun hn => hw.receiverWaiting.symm.trans (hw'.receiverWaiting.symm.trans hn), hw'.callerRef.trans hw.callerRef⟩
  | connectAnswers _ hn => exact absurd hn hst
  | @destroyingAnswers w ref' _ hr hcp =>
    have hne : ref' ≠ ref := fun heq => hq (.inl hcp) (by rw [hr, heq])
    refine ⟨?_, fun hor => hq (hor.imp nofun id)⟩
    rw [outcomesTo_append, outcomesTo_of_bare p ref (all_bare_deselect h)]
    cases hc : h.caller <;> simp [outcomesTo, Msg.outcome, hne]
  | destroyingNotifies =>
    refine hwaits ?_ ⟨rfl, rfl, rfl, rfl, rfl⟩
    split <;> simp [Effect.bare, Msg.bare]
  | destroyingDeletes => exact hwaits (by simp [Effect.bare]) ⟨rfl, rfl, rfl, rfl, rfl⟩
  | destroyingIgnored => exact hwaits (all_bare_deselect h) ⟨rfl, rfl, rfl, rfl, rfl⟩
  | errorConnecting hn => exact absurd hn hst
  | errorReported =>
    refine hwaits ?_ ⟨rfl, rfl, rfl, rfl, rfl⟩
    split <;> rfl
  | _ => exact hwaits rfl ⟨rfl, rfl, rfl, rfl, rfl⟩

/-! ## What libutp reports -/

/-- What a report does while no request waits, and `callerRef` is the call's
or none. -/
inductive Report (p : Pid) (ref : Ref) (h : UtpHandler) (e : Event) (o : List Effect) (h' : UtpHandler) : Prop
  | connects : e.isConnect = true → h'.status = .connected →
      outcomesTo p ref o = (if h.status = .connectPending ∧ h.callerRef = .some ref then [.ok] else []) →
      Report p ref h e o h'
  | fails {err} : e = .doError err → h.status = .connectPending → h'.status = .connectFailed →
      outcomesTo p ref o = (if h.callerRef = .some ref then [.error err] else []) → Report p ref h e o h'
  /-- `close_utp`, for EOF or a reset. -/
  | ends : (e.isEof = true ∨ e.isError = true) → h.status ≠ .connectPending → h'.status = .closing →
      outcomesTo p ref o = [] → Report p ref h e o h'
  | destroys : h.status = .closing → h'.status = .destroying → outcomesTo p ref o = [] → Report p ref h e o h'
  | stays : h'.status = h.status → e.isConnect = false →
      (h.status = .connectPending → e.isError = false ∧ o.any Effect.isClose = false) →
      outcomesTo p ref o = [] → Report p ref h e o h'

/-- A client that waits for no close and no `recv`. -/
structure Quiet (h : UtpHandler) : Prop where
  kind : h.kind = .client
  closePending : h.closePending = false
  receiverWaiting : h.receiverWaiting = false

theorem outcomesTo_refOk (p : Pid) (ref r : Ref) :
    outcomesTo p ref [.output (.refOk r)] = if r = ref then [.ok] else [] := by
  by_cases hr : r = ref <;> simp [outcomesTo, Msg.outcome, hr]

theorem outcomesTo_refError (p : Pid) (ref r : Ref) (err : Errno) :
    outcomesTo p ref [.output (.refError r err)] = if r = ref then [.error err] else [] := by
  by_cases hr : r = ref <;> simp [outcomesTo, Msg.outcome, hr]

theorem machine_doError (h : UtpHandler) (err : Errno) (hst : h.status = .connectPending) :
    machine h (.doError err) = .some ({ h with errorCode := err, status := .connectFailed },
      (h.callerRef.map fun r => Effect.output (.refError r err)).toList) := by
  cases hr : h.callerRef <;> simp [machine, handle, doError, hst, hr, emit]

theorem connect_report {w : UtpWrite} (hm : machine h (.stateChange .connect w) = .some (h', o)) (hi : Quiet h) :
    (Quiet h' ∧ h'.callerRef = h.callerRef) ∧ Report p ref h (.stateChange .connect w) o h' := by
  cases machine_step hm with
  | @connectAnswers w ref' hr hst =>
    refine ⟨⟨⟨hi.1, hi.2, hi.3⟩, rfl⟩, .connects rfl rfl ?_⟩
    rw [outcomesTo_refOk]
    simp [hst, hr]
  | connects hor =>
    refine ⟨⟨⟨hi.1, hi.2, hi.3⟩, rfl⟩, .connects rfl rfl ?_⟩
    rw [if_neg fun hn => hor.elim (fun hr => by rw [hr] at hn; cases hn.2) fun hst => hst hn.1]
    rfl

theorem error_report {err : Errno} (hm : machine h (.doError err) = .some (h', o)) (hi : Quiet h) :
    (Quiet h' ∧ h'.callerRef = h.callerRef) ∧ Report p ref h (.doError err) o h' := by
  by_cases hst : h.status = .connectPending
  · rw [machine_doError h err hst] at hm
    obtain ⟨rfl, rfl⟩ := Prod.mk.inj (Option.some.inj hm)
    refine ⟨⟨⟨hi.1, hi.2, hi.3⟩, rfl⟩, .fails rfl hst rfl ?_⟩
    rcases h.callerRef with - | r
    · rfl
    · simpa using outcomesTo_refError p ref r err
  · cases machine_step hm with
    | errorConnecting hn => exact absurd hn hst
    | errorReset hcon hcl =>
      have hw := hcl.waits.1
      have hsame : Quiet h' ∧ h'.callerRef = h.callerRef := by
        refine ⟨⟨?_, hw.closePending.trans hi.2, hw.receiverWaiting.trans hi.3⟩, hw.callerRef⟩
        cases hcl <;> exact hi.1
      refine ⟨hsame, ?_⟩
      have hout := outcomesTo_of_bare p ref hcl.bare
      cases hcl with
      | done => exact .ends (.inr rfl) hst rfl hout
      | skipped => exact .stays rfl rfl (fun hn => absurd hn hst) hout
    | errorReported =>
      refine ⟨⟨⟨hi.1, hi.2, hi.3⟩, rfl⟩, .stays rfl rfl (fun hn => absurd hn hst) ?_⟩
      exact outcomesTo_of_bare p ref (by split <;> rfl)
    | errorIgnored => exact ⟨⟨⟨hi.1, hi.2, hi.3⟩, rfl⟩, .stays rfl rfl (fun hn => absurd hn hst) rfl⟩

/-- **Every callback is a report**, of one of five kinds. -/
theorem report_step (hm : machine h e = .some (h', o)) (he : e.isRequest = false) (hi : Quiet h)
    (hend : h.status = .connectPending → e.isEof = false) :
    (Quiet h' ∧ h'.callerRef = h.callerRef) ∧ Report p ref h e o h' := by
  by_cases hcon : e.isConnect = true
  · obtain ⟨w, rfl⟩ := Event.eq_connect hcon
    exact connect_report hm hi
  by_cases herr : e.isError = true
  · obtain ⟨err, rfl⟩ := Event.eq_error herr
    exact error_report hm hi
  have hcon : e.isConnect = false := Bool.eq_false_iff.2 hcon
  have herr : e.isError = false := Bool.eq_false_iff.2 herr
  -- the rest leaves the status, but for an end of the connection
  have hstays : ∀ {h₁ : UtpHandler} {o₁ : List Effect}, h₁.kind = h.kind → h₁.closePending = h.closePending →
      h₁.receiverWaiting = h.receiverWaiting → h₁.callerRef = h.callerRef → h₁.status = h.status →
      (h.status = .connectPending → o₁.any Effect.isClose = false) → o₁.all Effect.bare = true →
      (Quiet h₁ ∧ h₁.callerRef = h.callerRef) ∧ Report p ref h e o₁ h₁ := by
    intro h₁ o₁ hk hcp hrw hcr hst hcl ho
    refine ⟨⟨⟨hk.trans hi.1, hcp.trans hi.2, hrw.trans hi.3⟩, hcr⟩, ?_⟩
    exact .stays hst hcon (fun hp => ⟨herr, hcl hp⟩) (outcomesTo_of_bare p ref ho)
  cases machine_step hm with
  | doReadNothing | doReadQueued | doReadShort => exact hstays rfl rfl rfl rfl rfl (fun _ => rfl) rfl
  | doReadAnswers _ _ hrw =>
    rw [hi.receiverWaiting] at hrw
    cases hrw
  | @doReadActive bytes mem sent q o₁ _ _ _ hem =>
    have hw := (hem.waits fun hcp => by cases hi.closePending.symm.trans hcp).1
    have hk : h'.kind = h.kind := by cases hem <;> rfl
    have hmild : (o₁ ++ drainedCall h.utp q).all Effect.mild = true := by simp [hem.life.2.2.2.2]
    exact hstays hk hw.closePending hw.receiverWaiting hw.callerRef hem.life.1 (fun _ => not_close_of_mild hmild)
      (by simp [hem.bare])
  | doWrite hws =>
    exact hstays rfl rfl rfl rfl rfl (fun _ => not_close_of_mild (all_mild_writes _ hws)) (all_bare_writes _ hws)
  | eof _ hcl =>
    have hnot : h.status ≠ .connectPending := fun hp => by cases hend hp
    cases hcl with
    | done =>
      exact ⟨⟨⟨hi.1, hi.2, hi.3⟩, rfl⟩, .ends (.inl rfl) hnot rfl rfl⟩
    | skipped => exact hstays rfl rfl rfl rfl rfl (fun _ => rfl) rfl
  | eofStopped => exact hstays rfl rfl rfl rfl rfl (fun _ => rfl) rfl
  | @writable w o₁ h₁ o₂ h₂ hf hr =>
    have hw := hf.waits.1
    have hmild : (o₁ ++ o₂).all Effect.mild = true := by simp [hf.life.2.2.2.1, hr.life.2.2.2.2]
    have hk : h'.kind = h.kind := by cases hf <;> cases hr <;> rfl
    have hkept : h'.closePending = h₁.closePending ∧ h'.receiverWaiting = h₁.receiverWaiting ∧
        h'.callerRef = h₁.callerRef := by cases hr <;> exact ⟨rfl, rfl, rfl⟩
    exact hstays hk (hkept.1.trans hw.closePending) (hkept.2.1.trans hw.receiverWaiting) (hkept.2.2.trans hw.callerRef)
      (hr.life.1.trans hf.life.1) (fun _ => not_close_of_mild hmild) (by simp [hf.bare, hr.bare])
  | writableCloses _ _ hcp =>
    rw [hi.closePending] at hcp
    cases hcp
  | destroyingAnswers _ _ hcp =>
    rw [hi.closePending] at hcp
    cases hcp
  | destroyingNotifies hst =>
    refine ⟨⟨⟨hi.1, hi.2, hi.3⟩, rfl⟩, .destroys hst rfl (outcomesTo_of_bare p ref ?_)⟩
    split <;> simp [Effect.bare, Msg.bare]
  | destroyingDeletes hst =>
    exact hstays rfl rfl rfl rfl rfl (fun hp => by rw [hp] at hst; cases hst) (by simp [Effect.bare])
  | destroyingIgnored =>
    refine hstays rfl rfl rfl rfl rfl (fun _ => ?_) (all_bare_deselect h)
    unfold deselect
    split <;> rfl
  | incomingIgnored => exact hstays rfl rfl rfl rfl rfl (fun _ => rfl) rfl
  | incomingTaken hk =>
    rw [hi.kind] at hk
    cases hk
  | connectAnswers | connects => cases hcon
  | errorConnecting | errorReset | errorReported | errorIgnored => cases herr
  | _ => cases he

/-- The answer of the request, by the status it finds. -/
theorem machine_validate (p : Pid) (ref : Ref) (hk : h.kind = .client) :
    machine h (.connectValidate p (refArgs ref)) = .some (match h.status with
      | .connectPending => ({ h with callerRef := .some ref }, [.reply .wait])
      | .connectFailed => ({ h with status := .notConnected }, [.reply (.error h.errorCode)])
      | .connected => (h, [.reply .ok])
      | s => (h, [.reply (.errorString s!"utpdrv illegal connect state: {statusNumber s}")])) := by
  rcases h with ⟨kind, _, _, _, _, _, _, _, _, _, _, status, _⟩
  cases hk
  cases status <;> rfl

end UtpHandler

namespace Connecting

open UtpHandler

variable {p : Pid} {ref : Ref} {t : ConnectTrace} {s s' : Connecting} {o : List Effect}

/-! ## The invariant -/

/-- How a status comes about before the request. -/
def Explains (t : ConnectTrace) : UtpPortStatus → Prop
  | .connectPending => True
  | .connected => saw Event.isConnect t = true
  | .connectFailed => saw Event.isError t = true
  | .closing | .destroying =>
    saw Event.isError t = true ∨ (saw Event.isConnect t = true ∧ saw Event.isEof t = true)
  | _ => False

/-- Where the call is, whether it has asked, its outcomes and its mailbox:
there is an outcome as soon as it has asked and the status is settled. -/
inductive Stands (ref : Ref) (t : ConnectTrace) (h : UtpHandler) :
    ConnectPhase → Bool → List ConnectResult → List ConnectResult → Prop
  | started : Quiet h → h.callerRef = .none → Explains t h.status → Stands ref t h .started false [] []
  | waiting : Quiet h → h.callerRef = .some ref → h.status = .connectPending → Stands ref t h .waiting true [] []
  | told {r} : h.status ≠ .connectPending → Silent ref h → Stands ref t h .waiting true [r] [r]
  | decided {r} : h.status ≠ .connectPending → Silent ref h → Stands ref t h (.decided r) true [r] []

/-- What was reported, for each outcome. -/
structure Reported (p : Pid) (ref : Ref) (t : ConnectTrace) : Prop where
  ok : .ok ∈ outcomes p ref t → saw Event.isConnect t = true
  error : ∀ r ∈ outcomes p ref t, r ≠ .ok →
    saw Event.isError t = true ∨ (saw Event.isConnect t = true ∧ saw Event.isEof t = true)
  message : ∀ x ∈ t, ∀ r ∈ outcomesTo p ref x.out, r = .ok ∨ ∃ err, r = .error err

/-- What the runs keep. -/
structure ConnectOk (p : Pid) (ref : Ref) (t : ConnectTrace) (s : Connecting) : Prop where
  settled : resolved t = true ↔ s.h.status ≠ .connectPending
  open_ : s.h.status = .connectPending → closes t = false
  reported : Reported p ref t
  stands : Stands ref t s.h s.phase (asked t) (outcomes p ref t) s.mailbox

theorem saw_mono (f : Event → Bool) {x : Runs.Entry Connecting ConnectEvent (List Effect)} (h : saw f t = true) :
    saw f (t ++ [x]) = true := by
  rw [saw_snoc, h]
  rfl

theorem Explains.mono {st : UtpPortStatus} {x : Runs.Entry Connecting ConnectEvent (List Effect)}
    (h : Explains t st) : Explains (t ++ [x]) st := by
  cases st with
  | connected | connectFailed => exact saw_mono _ h
  | closing | destroying => exact h.imp (saw_mono _) fun hc => ⟨saw_mono _ hc.1, saw_mono _ hc.2⟩
  | _ => exact h

theorem Reported.same {x : Runs.Entry Connecting ConnectEvent (List Effect)} (h : Reported p ref t)
    (hx : answered x ++ outcomesTo p ref x.out = []) : Reported p ref (t ++ [x]) := by
  have hsame : outcomes p ref (t ++ [x]) = outcomes p ref t := by rw [outcomes_snoc, hx, List.append_nil]
  have hno : outcomesTo p ref x.out = [] := (List.append_eq_nil_iff.1 hx).2
  refine ⟨fun hmem => saw_mono _ (h.ok (hsame ▸ hmem)), fun r hmem hne => ?_, ?_⟩
  · exact (h.error r (hsame ▸ hmem) hne).imp (saw_mono _) fun hc => ⟨saw_mono _ hc.1, saw_mono _ hc.2⟩
  · intro y hy
    rcases List.mem_append.1 hy with hy | hy
    · exact h.message y hy
    · rw [List.mem_singleton.1 hy, hno]
      exact fun _ => nofun

theorem Reported.first {x : Runs.Entry Connecting ConnectEvent (List Effect)} {r : ConnectResult}
    (h : Reported p ref t) (hnone : outcomes p ref t = []) (hx : answered x ++ outcomesTo p ref x.out = [r])
    (hok : r = .ok → saw Event.isConnect (t ++ [x]) = true)
    (herr : r ≠ .ok → saw Event.isError (t ++ [x]) = true ∨
      (saw Event.isConnect (t ++ [x]) = true ∧ saw Event.isEof (t ++ [x]) = true))
    (hmsg : ∀ r' ∈ outcomesTo p ref x.out, r' = .ok ∨ ∃ err, r' = .error err) : Reported p ref (t ++ [x]) := by
  have hone : outcomes p ref (t ++ [x]) = [r] := by rw [outcomes_snoc, hx, hnone]; rfl
  refine ⟨fun hmem => hok ?_, fun r' hmem hne => herr ?_, fun y hy => ?_⟩
  · rw [hone] at hmem
    exact (List.mem_singleton.1 hmem).symm
  · rw [hone] at hmem
    rwa [← List.mem_singleton.1 hmem]
  · rcases List.mem_append.1 hy with hy | hy
    · exact h.message y hy
    · rwa [List.mem_singleton.1 hy]

theorem ConnectOk.start (so : SockOpts) (sock : UTPSocket) :
    ConnectOk p ref [] ⟨startClient so sock, [], .started⟩ where
  settled := by
    constructor
    · nofun
    · intro hn
      exact absurd rfl hn
  open_ := fun _ => rfl
  reported := ⟨nofun, nofun, fun _ hx => by cases hx⟩
  stands := .started ⟨rfl, rfl, rfl⟩ rfl trivial

/-! ## The steps -/

theorem machine_started {h h₁ : UtpHandler} {a : Reply}
    (hv : h.machine (.connectValidate p (refArgs ref)) = .some (h₁, [.reply a])) :
    machine p ref ⟨h, [], .started⟩ .validate = .some (⟨h₁, [], a.phase⟩, [.reply a]) := by
  simp [machine, hv, replyOf, outcomesTo]

/-- The request is answered with the outcome there is, or waits for it. -/
theorem validate_step (hi : ConnectOk p ref t s) (hm : machine p ref s .validate = .some (s', o)) :
    ConnectOk p ref (t ++ [⟨s, .validate, o⟩]) s' := by
  obtain ⟨hres, hopen, hrep, hst⟩ := hi
  obtain ⟨h, m, ph⟩ := s
  simp only at hst hres hopen
  generalize hask : asked t = a at hst
  generalize hout : outcomes p ref t = os at hst
  cases hst with
  | waiting | told | decided => cases hm
  | started hq hcr hex =>
    have hval := machine_validate p ref hq.kind
    have hsnoc : ∀ x : Runs.Entry Connecting ConnectEvent (List Effect), x.event = .validate →
        saw Event.isConnect (t ++ [x]) = saw Event.isConnect t ∧ saw Event.isError (t ++ [x]) = saw Event.isError t ∧
          saw Event.isEof (t ++ [x]) = saw Event.isEof t ∧ resolved (t ++ [x]) = resolved t := by
      intro x hx
      simp [resolved_snoc, hx, ConnectEvent.driven]
    -- an answer at once is the outcome of a settled connection
    have hdecided : ∀ {h₁ : UtpHandler} {a : Reply} {r : ConnectResult}, a.outcome = .some r →
        h.machine (.connectValidate p (refArgs ref)) = .some (h₁, [.reply a]) →
        h.status ≠ .connectPending → h₁.status ≠ .connectPending → Quiet h₁ →
        (r = .ok → saw Event.isConnect t = true) →
        (r ≠ .ok → saw Event.isError t = true ∨ (saw Event.isConnect t = true ∧ saw Event.isEof t = true)) →
        ConnectOk p ref (t ++ [⟨⟨h, [], .started⟩, .validate, o⟩]) s' := by
      intro h₁ a r hr hv hne hne₁ hq₁ hok herr
      rw [machine_started hv] at hm
      obtain ⟨rfl, rfl⟩ := Prod.mk.inj (Option.some.inj hm)
      obtain ⟨h₁', h₂', h₃', h₄'⟩ := hsnoc ⟨⟨h, [], .started⟩, .validate, [.reply a]⟩ rfl
      have hx : answered ⟨⟨h, [], .started⟩, .validate, [.reply a]⟩ ++ outcomesTo p ref [.reply a] = [r] := by
        simp [answered, replyOf, hr, outcomesTo]
      have hph : a.phase = .decided r := by rw [Reply.phase, hr]
      refine ⟨?_, fun hn => absurd hn hne₁, hrep.first hout hx ?_ ?_ ?_, ?_⟩
      · rw [h₄', hres]
        exact iff_of_true hne hne₁
      · rwa [h₁']
      · rwa [h₁', h₂', h₃']
      · exact fun _ => nofun
      · rw [outcomes_snoc, hout, hx, asked_snoc, hask, hph]
        refine .decided hne₁ fun hor => ?_
        simp [hq₁.closePending, hq₁.receiverWaiting] at hor
    cases hstat : h.status with
    | connectPending =>
      rw [hstat] at hval
      rw [machine_started hval] at hm
      obtain ⟨rfl, rfl⟩ := Prod.mk.inj (Option.some.inj hm)
      obtain ⟨-, -, -, h₄'⟩ := hsnoc ⟨⟨h, [], .started⟩, .validate, [.reply .wait]⟩ rfl
      refine ⟨?_, ?_, hrep.same rfl, ?_⟩
      · rw [h₄', hres, hstat]
      · intro _
        rw [closes_snoc, hopen hstat]
        rfl
      · rw [outcomes_snoc, hout, asked_snoc, hask]
        exact .waiting ⟨hq.1, hq.2, hq.3⟩ rfl rfl
    | connectFailed =>
      rw [hstat] at hval hex
      exact hdecided rfl hval (by simp [hstat]) nofun ⟨hq.1, hq.2, hq.3⟩ nofun fun _ => .inl hex
    | connected =>
      rw [hstat] at hval hex
      exact hdecided rfl hval (by simp [hstat]) (by simp [hstat]) hq (fun _ => hex) fun hn => absurd rfl hn
    | closing | destroying =>
      rw [hstat] at hval hex
      exact hdecided rfl hval (by simp [hstat]) (by simp [hstat]) hq nofun fun _ => hex
    | notConnected | listening | stopped =>
      rw [hstat] at hex
      exact hex.elim

theorem take_step (hi : ConnectOk p ref t s) (hm : machine p ref s .take = .some (s', o)) :
    ConnectOk p ref (t ++ [⟨s, .take, o⟩]) s' := by
  obtain ⟨hres, hopen, hrep, hst⟩ := hi
  obtain ⟨h, m, ph⟩ := s
  simp only at hst hres hopen
  generalize hask : asked t = a at hst
  generalize hout : outcomes p ref t = os at hst
  cases hst with
  | told hne hq =>
    obtain ⟨rfl, rfl⟩ := Prod.mk.inj (Option.some.inj hm)
    refine ⟨?_, fun hn => absurd hn hne, hrep.same rfl, ?_⟩
    · rw [resolved_snoc]
      simpa [ConnectEvent.driven] using hres
    · rw [outcomes_snoc, hout, asked_snoc, hask]
      exact .decided hne hq
  | _ => cases hm

theorem guard_other {e : Event} (hg : ConnectGuard ref t s (.driver e)) : OtherRefs ref e := by
  by_cases he : e.isRequest = true
  · exact (hg.1 he).2
  · cases e <;> trivial

/-- The process makes no request before it has its outcome. -/
theorem guard_callback {e : Event} (hg : ConnectGuard ref t s (.driver e)) (hp : ∀ r, s.phase ≠ .decided r) :
    e.isRequest = false := by
  refine Bool.eq_false_iff.2 fun he => ?_
  obtain ⟨r, hr⟩ := (hg.1 he).1
  exact hp r hr

/-- After the connection is settled nothing more comes. -/
theorem settled_driver {h h' : UtpHandler} {m os : List ConnectResult} {ph : ConnectPhase} {e : Event}
    (hres : resolved t = true) (hrep : Reported p ref t) (hout : outcomes p ref t = os)
    (hm : h.machine e = .some (h', o)) (hne : h.status ≠ .connectPending) (hq : Silent ref h)
    (he : OtherRefs ref e)
    (hst : ∀ t', h'.status ≠ .connectPending → Silent ref h' → Stands ref t' h' ph (asked t) os m) :
    ConnectOk p ref (t ++ [⟨⟨h, m, ph⟩, .driver e, o⟩]) ⟨h', m ++ outcomesTo p ref o, ph⟩ := by
  have hs := machine_step hm
  obtain ⟨hno, hq'⟩ := silent_step (p := p) hs hne hq he
  have hne' := settled_step hs hne
  have hx : answered ⟨⟨h, m, ph⟩, .driver e, o⟩ ++ outcomesTo p ref o = [] := hno
  refine ⟨?_, fun hn => absurd hn hne', hrep.same hx, ?_⟩
  · rw [resolved_snoc, hres]
    exact iff_of_true rfl hne'
  · rw [outcomes_snoc, hout, hx, List.append_nil, hno, List.append_nil, asked_snoc]
    have hask : (asked t || (ConnectEvent.driver e).isValidate) = asked t := Bool.or_false _
    rw [hask]
    exact hst _ hne' hq'

theorem settled_report {h h' : UtpHandler} {e : Event} (hr : Report p ref h e o h')
    (hres : resolved t = true ↔ h.status ≠ .connectPending) (hopen : h.status = .connectPending → closes t = false) :
    (resolved (t ++ [⟨s, .driver e, o⟩]) = true ↔ h'.status ≠ .connectPending) ∧
      (h'.status = .connectPending → closes (t ++ [⟨s, .driver e, o⟩]) = false) := by
  have hset : h.status ≠ .connectPending → h'.status ≠ .connectPending →
      (resolved (t ++ [⟨s, .driver e, o⟩]) = true ↔ h'.status ≠ .connectPending) ∧
        (h'.status = .connectPending → closes (t ++ [⟨s, .driver e, o⟩]) = false) := by
    intro hne hne'
    refine ⟨?_, fun hn => absurd hn hne'⟩
    rw [resolved_snoc, hres.2 hne]
    exact iff_of_true rfl hne'
  cases hr with
  | connects hc hst =>
    have hne : h'.status ≠ .connectPending := by rw [hst]; exact nofun
    refine ⟨?_, fun hn => absurd hn hne⟩
    simp [resolved_snoc, ConnectEvent.driven, hc, hst]
  | fails he _ hst =>
    have hne : h'.status ≠ .connectPending := by rw [hst]; exact nofun
    refine ⟨?_, fun hn => absurd hn hne⟩
    subst he
    simp [resolved_snoc, ConnectEvent.driven, Event.isError, hst]
  | ends _ hne hst => exact hset hne (by rw [hst]; exact nofun)
  | destroys hcl hst => exact hset (by rw [hcl]; exact nofun) (by rw [hst]; exact nofun)
  | stays hst hc hp =>
    by_cases hpend : h.status = .connectPending
    · obtain ⟨he, hcl⟩ := hp hpend
      refine ⟨?_, fun _ => ?_⟩
      · simp [resolved_snoc, ConnectEvent.driven, hc, he, hst, hres]
      · rw [closes_snoc, hopen hpend, hcl]
        rfl
    · exact hset hpend (by rwa [hst])

/-- EOF comes after CONNECT or a settled connection. -/
theorem guard_end {e : Event} (hi : ConnectOk p ref t s) (hg : ConnectGuard ref t s (.driver e))
    (hst : s.h.status = .connectPending) : e.isEof = false := by
  refine Bool.eq_false_iff.2 fun he => ?_
  have hopen : resolved t = false := Bool.eq_false_iff.2 fun hr => hi.settled.1 hr hst
  rcases hg.2 (.inl he) with hc | hcl
  · simp [resolved, hc] at hopen
  · rw [hi.open_ hst] at hcl
    cases hcl

/-- Nothing is sent before the request has brought the reference, and the
status is one that was reported. -/
theorem unasked_report {h h' : UtpHandler} {e : Event} (hr : Report p ref h e o h') (hcr : h.callerRef = .none)
    (hres : resolved t = true ↔ h.status ≠ .connectPending) (hex : Explains t h.status) :
    outcomesTo p ref o = [] ∧ Explains (t ++ [⟨s, .driver e, o⟩]) h'.status := by
  cases hr with
  | connects hc hst ho =>
    rw [if_neg fun hn => by rw [hcr] at hn; cases hn.2] at ho
    refine ⟨ho, ?_⟩
    rw [hst]
    simp [Explains, ConnectEvent.driven, hc]
  | fails he _ hst ho =>
    rw [if_neg fun hn => by rw [hcr] at hn; cases hn] at ho
    refine ⟨ho, ?_⟩
    rw [hst, he]
    simp [Explains, ConnectEvent.driven, Event.isError]
  | ends hor hne hst ho =>
    refine ⟨ho, ?_⟩
    have hset := hres.2 hne
    rw [hst]
    simp only [Explains, saw_snoc, ConnectEvent.driven, resolved, Bool.or_eq_true] at hset ⊢
    rcases hor with he | he
    · rcases hset with hc | herr
      · exact .inr ⟨.inl hc, .inr he⟩
      · exact .inl (.inl herr)
    · exact .inl (.inr he)
  | destroys hcl hst ho =>
    rw [hcl] at hex
    rw [hst]
    exact ⟨ho, Explains.mono hex⟩
  | stays hst _ _ ho =>
    rw [hst]
    exact ⟨ho, hex.mono⟩

theorem driver_step {e : Event} (hi : ConnectOk p ref t s) (hg : ConnectGuard ref t s (.driver e))
    (hm : machine p ref s (.driver e) = .some (s', o)) : ConnectOk p ref (t ++ [⟨s, .driver e, o⟩]) s' := by
  have hend := guard_end hi hg
  obtain ⟨hres, hopen, hrep, hst⟩ := hi
  obtain ⟨⟨h', o'⟩, hmach, heq⟩ := Option.map_eq_some_iff.1 hm
  obtain ⟨rfl, rfl⟩ := Prod.mk.inj heq
  obtain ⟨h, m, ph⟩ := s
  simp only at hst hres hopen hmach
  generalize hask : asked t = a at hst
  generalize hout : outcomes p ref t = os at hst
  have hmono : asked (t ++ [⟨⟨h, m, ph⟩, .driver e, o'⟩]) = a := by
    rw [asked_snoc, hask]
    exact Bool.or_false _
  cases hst with
  | told hne hq =>
    refine settled_driver (hres.2 hne) hrep hout hmach hne hq (guard_other hg) ?_
    rw [hask]
    exact fun _ => .told
  | decided hne hq =>
    refine settled_driver (hres.2 hne) hrep hout hmach hne hq (guard_other hg) ?_
    rw [hask]
    exact fun _ => .decided
  | started hq hcr hex =>
    obtain ⟨⟨hq', hcr'⟩, hr⟩ : _ ∧ Report p ref h e o' h' := report_step hmach (guard_callback hg nofun) hq hend
    obtain ⟨hres', hopen'⟩ := settled_report (s := ⟨h, [], .started⟩) hr hres hopen
    obtain ⟨hno, hex'⟩ := unasked_report (s := ⟨h, [], .started⟩) hr hcr hres hex
    have hx : answered ⟨⟨h, [], .started⟩, .driver e, o'⟩ ++ outcomesTo p ref o' = [] := hno
    refine ⟨hres', hopen', hrep.same hx, ?_⟩
    rw [hmono, outcomes_snoc, hout, hx, hno]
    exact .started hq' (hcr'.trans hcr) hex'
  | waiting hq hcr hstat =>
    obtain ⟨⟨hq', hcr'⟩, hr⟩ : _ ∧ Report p ref h e o' h' := report_step hmach (guard_callback hg nofun) hq hend
    obtain ⟨hres', hopen'⟩ := settled_report (s := ⟨h, [], .waiting⟩) hr hres hopen
    have hsilent : Silent ref h' := fun hor => by simp [hq'.closePending, hq'.receiverWaiting] at hor
    -- the message for the process is its outcome
    have htold : ∀ {r : ConnectResult}, outcomesTo p ref o' = [r] → h'.status ≠ .connectPending →
        (r = .ok → e.isConnect = true) → (r ≠ .ok → e.isError = true) → (r = .ok ∨ ∃ err, r = .error err) →
        ConnectOk p ref (t ++ [⟨⟨h, [], .waiting⟩, .driver e, o'⟩]) ⟨h', outcomesTo p ref o', .waiting⟩ := by
      intro r ho hne hok herr hmsg
      have hx : answered ⟨⟨h, [], .waiting⟩, .driver e, o'⟩ ++ outcomesTo p ref o' = [r] := ho
      refine ⟨hres', hopen', hrep.first hout hx (fun hr => ?_) (fun hr => .inl ?_) ?_, ?_⟩
      · simp [ConnectEvent.driven, hok hr]
      · simp [ConnectEvent.driven, herr hr]
      · simpa [ho] using hmsg
      · rw [hmono, outcomes_snoc, hout, hx, ho]
        exact .told hne hsilent
    cases hr with
    | connects hc hst ho =>
      rw [if_pos ⟨hstat, hcr⟩] at ho
      exact htold ho (by simp [hst]) (fun _ => hc) (fun hn => absurd rfl hn) (.inl rfl)
    | @fails err he _ hst ho =>
      rw [if_pos hcr] at ho
      exact htold ho (by simp [hst]) nofun (fun _ => by rw [he]; rfl) (.inr ⟨err, rfl⟩)
    | ends _ hne => exact absurd hstat hne
    | destroys hcl => rw [hstat] at hcl; cases hcl
    | stays hst _ _ ho =>
      have hx : answered ⟨⟨h, [], .waiting⟩, .driver e, o'⟩ ++ outcomesTo p ref o' = [] := ho
      refine ⟨hres', hopen', hrep.same hx, ?_⟩
      rw [hmono, outcomes_snoc, hout, hx, ho]
      exact .waiting hq' (hcr'.trans hcr) (hst.trans hstat)

/-! ## The runs -/

theorem connect_step {e : ConnectEvent} (hi : ConnectOk p ref t s) (hg : ConnectGuard ref t s e)
    (hm : machine p ref s e = .some (s', o)) : ConnectOk p ref (t ++ [⟨s, e, o⟩]) s' := by
  cases e with
  | validate => exact validate_step hi hm
  | driver e => exact driver_step hi hg hm
  | take => exact take_step hi hm

/-- **One outcome of `connect/3`**: in every run there is exactly one as soon
as the request was made and a first CONNECT or error was reported, and none
before. It is the answer of the request, or the one `{Ref, ok}` or
`{Ref, {error, E}}` after a `wait`; the process returns it, or finds it in its
mailbox. It is `ok` only after a CONNECT, and an error only after an error,
or after an EOF that followed a CONNECT. -/
theorem connect_once {so : SockOpts} {sock : UTPSocket}
    (run : Runs.Run (machine p ref) (ConnectGuard ref) [] ⟨startClient so sock, [], .started⟩ t s) :
    (outcomes p ref t).length = (if asked t && resolved t then 1 else 0) ∧
      (∀ r, s.phase = .decided r → outcomes p ref t = [r]) ∧
      (s.phase = .waiting → s.mailbox = outcomes p ref t) ∧
      (∀ x ∈ t, ∀ r ∈ outcomesTo p ref x.out, r = .ok ∨ ∃ err, r = .error err) ∧
      (.ok ∈ outcomes p ref t → saw Event.isConnect t = true) ∧
      ∀ r ∈ outcomes p ref t, r ≠ .ok →
        saw Event.isError t = true ∨ (saw Event.isConnect t = true ∧ saw Event.isEof t = true) := by
  have hi : ConnectOk p ref t s :=
    run.invariant (.start so sock) fun t s e s' o hi hg hm => connect_step hi hg hm
  obtain ⟨hres, -, ⟨hok, herr, hmsg⟩, hst⟩ := hi
  obtain ⟨h, m, ph⟩ := s
  simp only at hst hres
  generalize asked t = a at hst
  generalize hout : outcomes p ref t = os at hst hok herr
  refine ⟨?_, ?_, ?_, hmsg, hok, herr⟩
  · cases hst with
    | started => rfl
    | waiting _ _ hstat =>
      have hno : resolved t = false := Bool.eq_false_iff.2 fun hr => hres.1 hr hstat
      rw [hno]
      rfl
    | told hne | decided hne =>
      rw [hres.2 hne]
      rfl
  · intro r hph
    cases hph
    cases hst
    rfl
  · intro hph
    cases hph
    cases hst <;> rfl

/-- The request waits, an error is reported, then a CONNECT after all. -/
theorem connect_once_waits :
    ∃ t s, Runs.Run (machine 1 [9]) (ConnectGuard [9]) [] ⟨startClient .new 1, [], .started⟩ t s ∧ t.length = 4 ∧
      s.phase = .decided (.error .etimedout) ∧ outcomes 1 [9] t = [.error .etimedout] := by
  have run := ((((Runs.Run.start (machine 1 [9]) (ConnectGuard [9]) ⟨startClient .new 1, [], .started⟩).next
      .validate trivial rfl).next (.driver (.doError .etimedout)) ⟨nofun, by simp [Event.isEof, Event.isDestroying]⟩
      rfl).next (.driver (.stateChange .connect .nothing)) ⟨nofun, by simp [Event.isEof, Event.isDestroying]⟩ rfl).next
      .take trivial rfl
  exact ⟨_, _, run, rfl, rfl, (connect_once run).2.1 _ rfl⟩

/-- A connection that has ended before the request is answered with an error,
though none was reported. -/
theorem ended_before_validate :
    ∃ t s text, Runs.Run (machine 1 [9]) (ConnectGuard [9]) [] ⟨startClient .new 1, [], .started⟩ t s ∧
      outcomes 1 [9] t = [.illegalState text] ∧ s.phase = .decided (.illegalState text) ∧
      saw Event.isError t = false := by
  have run := (((Runs.Run.start (machine 1 [9]) (ConnectGuard [9]) ⟨startClient .new 1, [], .started⟩).next
      (.driver (.stateChange .connect .nothing)) ⟨nofun, by simp [Event.isEof, Event.isDestroying]⟩ rfl).next
      (.driver (.stateChange .eof .nothing)) ⟨nofun, fun _ => .inl rfl⟩ rfl).next .validate trivial rfl
  exact ⟨_, _, _, run, rfl, rfl, rfl⟩

end Connecting

end GenUtp
