/-
Requests that wait, and who gets their answers.

A send, a `recv` and a close may be answered `wait`; what answers them comes
in a later step. `waiters` reads off a trace, and off nothing else, which
requests are still to be answered. The handler keeps the same list as three
flags that share one `caller` and one `caller_ref`: `registered`.

The two agree as long as every step meets `KeepsWaiters`: a request does not
wait while another process does, and none takes the caller away from another
(`keeps_step`, and `Routed` over a run). Where they come apart, an answer
goes to the wrong process; nothing in the source looks at the flags before it
overwrites the caller.

Processes that take turns (`OneAtATime`) always meet it. What they may still
meet is a destroyed connection: DESTROYING answers a close, and leaves a
`recv` or a send that waits where it is.
-/
import GenUtp.Lifecycle

namespace GenUtp

/-! ## The requests that wait, from the trace -/

/-- A request that was answered `wait`. -/
inductive Waiter
  | send (p : Pid)
  | recv (p : Pid) (ref : Ref)
  | close (p : Pid) (ref : Ref)
  deriving DecidableEq, Repr

def Waiter.isClose : Waiter → Bool
  | .close .. => true
  | _ => false

/-- What a request becomes, when it has to wait. -/
def Event.request : Event → Option Waiter
  | .outputv p _ _ _ => .some (.send p)
  | .recv p buf _ => (decodeRecv buf).map fun r => .recv p r.2
  | .close p buf => (decodeBinary buf).map (.close p)
  | _ => .none

/-- `cancel_send` and `cancel_recv` take back the requests of their own
process. -/
def Event.cancels (e : Event) (w : Waiter) : Bool :=
  match e with
  | .cancelSend p => decide (w = .send p)
  | .cancelRecv p => match w with
    | .recv q _ => decide (q = p)
    | _ => false
  | _ => false

/-- The answer `wait`. -/
def Effect.isWait : Effect → Bool
  | .send _ (.utpReply .wait) => true
  | .send _ (.utpReply (.waitFor _)) => true
  | .reply .wait => true
  | _ => false

/-- A message that answers a request which waited, wherever it is sent. -/
def Effect.isAnswer : Effect → Bool
  | .send _ (.utpReply .retry) => true
  | .send _ (.refData _ _) => true
  | .send _ (.refOk _) => true
  | .send _ (.refError _ _) => true
  | .output (.refOk _) => true
  | .output (.refError _ _) => true
  | _ => false

/-- The request an answer is for, by the process it is sent to and the
reference it carries. -/
def Effect.answers : Effect → Option Waiter
  | .send (.pid p) (.utpReply .retry) => .some (.send p)
  | .send (.pid p) (.refData (.some ref) _) => .some (.recv p ref)
  | .send (.pid p) (.refError ref _) => .some (.recv p ref)
  | .send (.pid p) (.refOk ref) => .some (.close p ref)
  | _ => .none

/-- Neither `wait` nor an answer. -/
def Effect.mute (x : Effect) : Bool := !x.isWait && !x.isAnswer

theorem Effect.mute_iff {x : Effect} : x.mute = true ↔ x.isWait = false ∧ x.isAnswer = false := by
  rw [mute, Bool.and_eq_true, Bool.not_eq_true', Bool.not_eq_true']

theorem Effect.isAnswer_of_answers {x : Effect} {w : Waiter} (h : x.answers = .some w) : x.isAnswer = true := by
  unfold answers at h
  split at h <;> first | rfl | cases h

/-- The request of a step, when it was answered `wait`. -/
def asked (e : Event) (o : List Effect) : Option Waiter :=
  if o.any Effect.isWait then e.request else .none

/-- The requests that a step may answer: those before it which it does not
cancel, and its own. -/
def present (l : List Waiter) (x : Runs.Entry UtpHandler Event (List Effect)) : List Waiter :=
  l.filter (fun w => !x.event.cancels w) ++ (asked x.event x.out).toList

/-- The requests still to be answered. -/
def waiters (t : Trace) : List Waiter :=
  t.foldl (fun l x => (present l x).filter fun w => !x.out.any fun y => decide (y.answers = .some w)) []

theorem mem_present {l : List Waiter} {x : Runs.Entry UtpHandler Event (List Effect)} {w : Waiter} :
    w ∈ present l x ↔ (w ∈ l ∧ x.event.cancels w = false) ∨ asked x.event x.out = .some w := by
  simp [present]

@[simp] theorem mem_waiters_snoc {t : Trace} {x : Runs.Entry UtpHandler Event (List Effect)} {w : Waiter} :
    w ∈ waiters (t ++ [x]) ↔ w ∈ present (waiters t) x ∧ ∀ y ∈ x.out, y.answers ≠ .some w := by
  simp [waiters]

namespace UtpHandler

variable {h h' : UtpHandler} {e : Event} {o : List Effect} {t : Trace}

/-! ## The requests that wait, as the handler keeps them -/

def registered (h : UtpHandler) : Waiter → Prop
  | .send p => h.senderWaiting = true ∧ h.caller = .pid p
  | .recv p ref => h.receiverWaiting = true ∧ h.caller = .pid p ∧ h.callerRef = .some ref
  | .close p ref => h.closePending = true ∧ h.caller = .pid p ∧ h.callerRef = .some ref

/-- A flag that is set has its caller, and a reference where it needs one. -/
structure Held (h : UtpHandler) : Prop where
  caller : h.senderWaiting = true ∨ h.receiverWaiting = true ∨ h.closePending = true → ∃ p, h.caller = .pid p
  ref : h.receiverWaiting = true ∨ h.closePending = true → ∃ ref, h.callerRef = .some ref
  apart : h.receiverWaiting = true → h.closePending = false

/-- The fields the waiting requests are kept in. -/
structure SameWaits (h h' : UtpHandler) : Prop where
  senderWaiting : h'.senderWaiting = h.senderWaiting
  receiverWaiting : h'.receiverWaiting = h.receiverWaiting
  closePending : h'.closePending = h.closePending
  caller : h'.caller = h.caller
  callerRef : h'.callerRef = h.callerRef

theorem SameWaits.same {h : UtpHandler} : SameWaits h h := ⟨.refl _, .refl _, .refl _, .refl _, .refl _⟩

theorem SameWaits.trans {h₁ h₂ h₃ : UtpHandler} (h₁₂ : SameWaits h₁ h₂) (h₂₃ : SameWaits h₂ h₃) : SameWaits h₁ h₃ :=
  ⟨h₂₃.1.trans h₁₂.1, h₂₃.2.trans h₁₂.2, h₂₃.3.trans h₁₂.3, h₂₃.4.trans h₁₂.4, h₂₃.5.trans h₁₂.5⟩

theorem SameWaits.registered (hs : SameWaits h h') (w : Waiter) : h'.registered w ↔ h.registered w := by
  cases w <;> simp only [UtpHandler.registered, hs.1, hs.2, hs.3, hs.4, hs.5]

theorem SameWaits.held (hs : SameWaits h h') (hi : Held h) : Held h' := by
  constructor
  · rw [hs.1, hs.2, hs.3, hs.4]
    exact hi.caller
  · rw [hs.2, hs.3, hs.5]
    exact hi.ref
  · rw [hs.2, hs.3]
    exact hi.apart

theorem Held.registered_none (hs : h.senderWaiting = false) (hr : h.receiverWaiting = false)
    (hc : h.closePending = false) (w : Waiter) : ¬h.registered w := by
  cases w <;> simp [registered, hs, hr, hc]

/-! ## What a step does to them -/

/-- A step keeps the registered requests in line with its event and its
effects, and answers only requests it finds registered, or its own. -/
structure Keeps (h : UtpHandler) (e : Event) (o : List Effect) (h' : UtpHandler) : Prop where
  held : Held h'
  registered : ∀ w, h'.registered w ↔
    ((h.registered w ∧ e.cancels w = false) ∨ asked e o = .some w) ∧ ∀ y ∈ o, y.answers ≠ .some w
  routed : h.status ≠ .connectPending → ∀ y ∈ o, y.isAnswer = true →
    ∃ w, y.answers = .some w ∧ ((h.registered w ∧ e.cancels w = false) ∨ asked e o = .some w)

theorem asked_of_mute (ho : o.all Effect.mute = true) : asked e o = .none := by
  have hno : o.any Effect.isWait = false := List.any_eq_false.2 fun x hx => by
    simp [(Effect.mute_iff.1 (List.all_eq_true.1 ho x hx)).1]
  rw [asked, hno]
  rfl

theorem isAnswer_of_mute (ho : o.all Effect.mute = true) {y : Effect} (hy : y ∈ o) : y.isAnswer = false :=
  (Effect.mute_iff.1 (List.all_eq_true.1 ho y hy)).2

theorem answers_of_mute (ho : o.all Effect.mute = true) {y : Effect} (hy : y ∈ o) (w : Waiter) :
    y.answers ≠ .some w := by
  intro ha
  have hmute := isAnswer_of_mute ho hy
  rw [Effect.isAnswer_of_answers ha] at hmute
  cases hmute

theorem Keeps.same (hi : Held h') (hreg : ∀ w, h'.registered w ↔ h.registered w) (hc : ∀ w, e.cancels w = false)
    (hask : asked e o = .none) (ho : ∀ y ∈ o, ∀ w, y.answers ≠ .some w)
    (hroute : h.status ≠ .connectPending → ∀ y ∈ o, y.isAnswer = false) : Keeps h e o h' where
  held := hi
  registered := fun w => by
    have hno : ∀ y ∈ o, y.answers ≠ .some w := fun y hy => ho y hy w
    rw [hreg, hask]
    simp only [hc w, and_true, reduceCtorEq, or_false, and_iff_left hno]
  routed := fun hst y hy ha => by rw [hroute hst y hy] at ha; cases ha

/-- A step that neither asks, nor answers, nor cancels. -/
theorem Keeps.frame (hi : Held h) (hs : SameWaits h h') (hc : ∀ w, e.cancels w = false)
    (ho : o.all Effect.mute = true) : Keeps h e o h' :=
  .same (hs.held hi) hs.registered hc (asked_of_mute ho) (fun _ hy => answers_of_mute ho hy)
    fun _ _ hy => isAnswer_of_mute ho hy

theorem Keeps.asks (w₀ : Waiter) (hi : Held h') (hreq : e.request = .some w₀) (hc : ∀ w, e.cancels w = false)
    (hreg : ∀ w, h'.registered w ↔ h.registered w ∨ w = w₀) (hw : o.any Effect.isWait = true)
    (ho : ∀ y ∈ o, y.isAnswer = false) : Keeps h e o h' where
  held := hi
  registered := fun w => by
    have hno : ∀ y ∈ o, y.answers ≠ .some w := fun y hy ha => by
      have hfalse := ho y hy
      rw [Effect.isAnswer_of_answers ha] at hfalse
      cases hfalse
    rw [hreg, asked, if_pos hw, hreq]
    simp only [hc w, and_true, Option.some.injEq, eq_comm (a := w₀), and_iff_left hno]
  routed := fun _ y hy ha => by rw [ho y hy] at ha; cases ha

theorem Keeps.answered (w₀ : Waiter) (y₀ : Effect) (hi : Held h') (h₀ : h.registered w₀) (hc : ∀ w, e.cancels w = false)
    (hreg : ∀ w, h'.registered w ↔ h.registered w ∧ w ≠ w₀) (hy₀ : y₀ ∈ o)
    (ha₀ : y₀.answers = .some w₀) (ho : ∀ y ∈ o, y = y₀ ∨ y.mute = true) : Keeps h e o h' := by
  have hask : asked e o = .none := by
    have hno : o.any Effect.isWait = false := List.any_eq_false.2 fun y hy => by
      rcases ho y hy with rfl | hm
      · unfold Effect.answers at ha₀
        split at ha₀ <;> simp_all [Effect.isWait]
      · simp [(Effect.mute_iff.1 hm).1]
    rw [asked, hno]
    rfl
  have hans : ∀ y ∈ o, ∀ w, y.answers = .some w → w = w₀ := by
    intro y hy w ha
    rcases ho y hy with rfl | hm
    · rw [ha₀] at ha
      exact (Option.some.inj ha).symm
    · have hfalse := (Effect.mute_iff.1 hm).2
      rw [Effect.isAnswer_of_answers ha] at hfalse
      cases hfalse
  refine ⟨hi, fun w => ?_, fun _ y hy ha => ?_⟩
  · rw [hreg, hask]
    simp only [hc w, and_true, reduceCtorEq, or_false]
    refine and_congr_right fun _ => ⟨fun hne y hy ha => hne (hans y hy w ha), fun hno heq => ?_⟩
    subst heq
    exact hno y₀ hy₀ ha₀
  · rcases ho y hy with rfl | hm
    · exact ⟨w₀, ha₀, .inl ⟨h₀, hc w₀⟩⟩
    · rw [(Effect.mute_iff.1 hm).2] at ha
      cases ha

theorem Keeps.served (w₀ : Waiter) (y₀ : Effect) (hi : Held h) (hs : SameWaits h h') (hreq : e.request = .some w₀)
    (hc : ∀ w, e.cancels w = false) (hnew : ¬h.registered w₀) (hw : o.any Effect.isWait = true)
    (hy₀ : y₀ ∈ o) (ha₀ : y₀.answers = .some w₀) (ho : ∀ y ∈ o, y = y₀ ∨ y.isAnswer = false) : Keeps h e o h' := by
  have hask : asked e o = .some w₀ := by rw [asked, if_pos hw, hreq]
  refine ⟨hs.held hi, fun w => ?_, fun _ y hy ha => ?_⟩
  · rw [hs.registered, hask]
    simp only [hc w, and_true, Option.some.injEq]
    constructor
    · intro hreg
      refine ⟨.inl hreg, fun y hy ha => ?_⟩
      rcases ho y hy with rfl | hno
      · rw [ha₀] at ha
        obtain rfl := Option.some.inj ha
        exact hnew hreg
      · rw [Effect.isAnswer_of_answers ha] at hno
        cases hno
    · intro hkept
      obtain ⟨hreg | rfl, hno⟩ := hkept
      · exact hreg
      · exact absurd ha₀ (hno y₀ hy₀)
  · rcases ho y hy with rfl | hno
    · exact ⟨w₀, ha₀, .inr hask⟩
    · rw [hno] at ha
      cases ha

theorem Keeps.cancelled {r : Reply} (hsw : h'.senderWaiting = false) (hrw : h'.receiverWaiting = false)
    (hcp : h'.closePending = false) (hreq : e.request = .none) (hc : ∀ w, h.registered w → e.cancels w = true) :
    Keeps h e [.reply r] h' := by
  have hask : asked e [.reply r] = .none := by rw [asked, hreq, ite_self]
  refine ⟨⟨?_, ?_, ?_⟩, fun w => ?_, fun _ y hy ha => ?_⟩
  · intro hn
    rcases hn with hn | hn | hn
    · rw [hsw] at hn; cases hn
    · rw [hrw] at hn; cases hn
    · rw [hcp] at hn; cases hn
  · intro hn
    rcases hn with hn | hn
    · rw [hrw] at hn; cases hn
    · rw [hcp] at hn; cases hn
  · exact fun _ => hcp
  · rw [hask]
    refine iff_of_false (Held.registered_none hsw hrw hcp w) ?_
    intro hkept
    obtain ⟨⟨hreg, hno⟩ | hn, -⟩ := hkept
    · rw [hc w hreg] at hno; cases hno
    · cases hn
  · obtain rfl := List.mem_singleton.1 hy
    cases ha

/-! ## The parts of a step -/

@[simp] theorem all_mute_connected (so : SockOpts) (ms : List Packet) :
    (dataMessages so .connected ms).all Effect.mute = true :=
  all_dataMessages so .connected ms fun _ => rfl

@[simp] theorem all_mute_bufferSets (utp : Option UTPSocket) (saved so : SockOpts) :
    (bufferSets utp saved so).all Effect.mute = true :=
  all_bufferSets utp saved so fun _ _ => rfl

@[simp] theorem all_mute_drainedCall (utp : Option UTPSocket) (qsize : Nat) :
    (drainedCall utp qsize).all Effect.mute = true :=
  all_drainedCall utp qsize rfl

@[simp] theorem all_mute_deselect (h : UtpHandler) : h.deselect.all Effect.mute = true :=
  all_deselect h rfl

theorem all_mute_writes (counts : List Nat) {wq wq' : WriteQueue} {ws : List Effect}
    (hw : writes wq counts = .some (ws, wq')) : ws.all Effect.mute = true :=
  all_writes (fun _ _ => rfl) counts hw

theorem CloseUtp.waits (hc : CloseUtp h o h') : SameWaits h h' ∧ o.all Effect.mute = true := by
  cases hc with
  | done => exact ⟨⟨rfl, rfl, rfl, rfl, rfl⟩, rfl⟩
  | skipped => exact ⟨.same, rfl⟩

theorem Flush.waits {w : UtpWrite} (hf : Flush h w o h') : SameWaits h h' ∧ o.all Effect.mute = true := by
  have hmute : o.all Effect.mute = true := all_flush hf (fun _ => rfl) fun _ _ => rfl
  cases hf <;> exact ⟨⟨rfl, rfl, rfl, rfl, rfl⟩, hmute⟩

theorem received_sizeq {bytes : List UInt8} (hb : bytes ≠ []) : (h.received bytes).sizeq ≠ 0 := by
  have hlen : bytes.length ≠ 0 := by simpa using hb
  simp [sizeq, received, hlen, Segments.size]

theorem Emission.waits {len qsize : Nat} {mem : Mem} {sent : Bool} {q : Nat}
    (he : Emission h len .connected qsize mem sent q o h') (hc : h.closePending = true → h.sizeq ≠ 0) :
    SameWaits h h' ∧ o.all Effect.mute = true := by
  cases he with
  | closed hcp h0 => exact absurd h0 (hc hcp)
  | held => exact ⟨.same, rfl⟩
  | sent => exact ⟨⟨rfl, rfl, rfl, rfl, rfl⟩, all_mute_connected _ _⟩

/-- Data for a process is one message, with the reference it was asked by. -/
theorem Emission.proc {len qsize : Nat} {mem : Mem} {q : Nat} {caller : ErlDrvTermData} {ref : Option Ref}
    (he : Emission h len (.proc caller ref) qsize mem true q o h') (ha : h.sockopts.active = .activeFalse) :
    SameWaits h h' ∧ h.deliverable len mem = true ∧ ∃ data, o = [.send caller (.refData ref data)] := by
  cases he with
  | sent hd hm =>
    obtain ⟨m, rfl⟩ := delivery_one (by simp [ha]) hm
    exact ⟨⟨rfl, rfl, rfl, rfl, rfl⟩, hd, _, rfl⟩

/-! ## The steps that keep them -/

/-- A step takes the caller, or the flags, of no request but its own. -/
def KeepsWaiters (h : UtpHandler) : Event → Prop
  | .outputv p _ _ _ => h.status = .connected → h.utp ≠ .none → h.writable = false → h.sockopts.sendTmout ≠ 0 →
      h.senderWaiting = true ∨ h.receiverWaiting = true ∨ h.closePending = true → h.caller = .pid p
  | .recv p buf mem => ∀ len ref, h.sockopts.active = .activeFalse → decodeRecv buf = .some (len, ref) →
      h.deliverable len mem = false →
      h.receiverWaiting = false ∧ h.closePending = false ∧ (h.senderWaiting = true → h.caller = .pid p)
  | .cancelSend p => h.receiverWaiting = false ∧ h.closePending = false ∧
      (h.senderWaiting = true → h.caller = .pid p)
  | .cancelRecv p => h.senderWaiting = false ∧ h.closePending = false ∧
      (h.receiverWaiting = true → h.caller = .pid p)
  | .close p _ => h.closeOpens → h.receiverWaiting = false ∧ (h.senderWaiting = true → h.caller = .pid p)
  | .setopts .. => h.closePending = true → h.sizeq ≠ 0
  | .connectValidate .. => h.status = .connectPending → h.receiverWaiting = false ∧ h.closePending = false
  | .doRead bytes mem => h.receiverWaiting = true → h.sockopts.active = .activeFalse →
      (h.received bytes).deliverable h.recvLen mem = true → h.senderWaiting = false
  | .stateChange .destroying _ => h.status = .closing → h.closePending = true → h.senderWaiting = false
  | _ => True

/-- References are well formed, and new: `make_ref`. -/
def NewRefs (t : Trace) (e : Event) : Prop :=
  (∀ p buf, e = .close p buf → decodeBinary buf ≠ .none) ∧
    ∀ p buf mem w, e = .recv p buf mem → e.request = .some w → w ∉ waiters t

theorem Keeps.flush {w : UtpWrite} {h₁ h₂ : UtpHandler} {o₁ o₂ o₃ : List Effect} (hi : Held h) (hf : Flush h w o₁ h₁)
    (hr : Retry h₁ o₂ h₂) (hs : SameWaits h₂ h') (ho₃ : o₃.all Effect.mute = true) :
    Keeps h (.stateChange .writable w) (o₁ ++ o₂ ++ o₃) h' := by
  obtain ⟨hs₁, ho₁⟩ := hf.waits
  cases hr with
  | quiet => exact .frame hi (hs₁.trans hs) (fun _ => rfl) (by simp [ho₁, ho₃])
  | retried _ hsw =>
    have hsw₀ : h.senderWaiting = true := hs₁.senderWaiting.symm.trans hsw
    obtain ⟨p, hp⟩ := hi.caller (.inl hsw₀)
    have hcaller : h₁.caller = .pid p := hs₁.caller.trans hp
    have hheld : Held { h₁ with senderWaiting := false } := by
      have hi₁ := hs₁.held hi
      exact ⟨fun hor => hi₁.caller (hor.elim nofun .inr), hi₁.ref, hi₁.apart⟩
    refine .answered (.send p) (.send h₁.caller (.utpReply .retry)) (hs.held hheld) ⟨hsw₀, hp⟩
      (fun _ => rfl) (fun w => ?_) (by simp) (by rw [hcaller]; rfl) ?_
    · rw [hs.registered, ← hs₁.registered w]
      cases w <;> simp only [UtpHandler.registered] <;> grind
    · intro y hy
      simp only [List.append_assoc, List.mem_append, List.mem_singleton] at hy
      rcases hy with hy | rfl | hy
      · exact .inr (List.all_eq_true.1 ho₁ y hy)
      · exact .inl rfl
      · exact .inr (List.all_eq_true.1 ho₃ y hy)

/-- **A step keeps the requests that wait**, when it takes the caller from
none of them. -/
theorem keeps_step (hs : Step h e o h') (hi : Held h) (hk : KeepsWaiters h e)
    (hd : ∀ p buf, e = .close p buf → decodeBinary buf ≠ .none)
    (hnew : ∀ p buf mem w, e = .recv p buf mem → e.request = .some w → ¬h.registered w) : Keeps h e o h' := by
  cases hs with
  | outputvAccepted _ _ _ _ hws =>
    have hmute := all_mute_writes _ hws
    exact .frame hi ⟨rfl, rfl, rfl, rfl, rfl⟩ (fun _ => rfl)
      (by simp [hmute, Effect.mute, Effect.isWait, Effect.isAnswer])
  | @outputvParked p ev w mem s hst hu hw htm =>
    have hcaller := hk hst (by simp [hu]) hw htm
    refine .asks (.send p) ⟨fun _ => ⟨p, rfl⟩, hi.ref, hi.apart⟩ rfl (fun _ => rfl) (fun w => ?_) ?_ ?_
    · cases w <;> simp only [registered] <;> grind
    · unfold parkReply
      split <;> rfl
    · rw [List.forall_mem_singleton]
      unfold parkReply
      split <;> rfl
  | @recvSent p buf mem len ref q o h' hact hdec he =>
    obtain ⟨hsame, -, data, rfl⟩ := he.proc hact
    have hreq : Event.request (.recv p buf mem) = .some (.recv p ref) := by simp [Event.request, hdec]
    refine .served (.recv p ref) (.send (.pid p) (.refData (.some ref) data)) hi hsame hreq (fun _ => rfl)
      (hnew p buf mem _ rfl hreq) (by simp [Effect.isWait]) (by simp) rfl ?_
    intro y hy
    simp only [List.append_assoc, List.mem_append, List.mem_singleton] at hy
    rcases hy with rfl | hy | rfl
    · exact .inl rfl
    · exact .inr (isAnswer_of_mute (all_mute_drainedCall _ _) hy)
    · exact .inr rfl
  | @recvParked p buf mem len ref q o h' hact hdec he =>
    have hreq : Event.request (.recv p buf mem) = .some (.recv p ref) := by simp [Event.request, hdec]
    have hcond := hk len ref hact hdec
    cases he with
    | closed hcp h0 =>
      have hno : h.deliverable len mem = false := by simp [deliverable, h0]
      rw [(hcond hno).2.1] at hcp
      cases hcp
    | held _ hno =>
      obtain ⟨hrw, hcp, hcaller⟩ := hcond hno
      refine .asks (.recv p ref) ⟨fun _ => ⟨p, rfl⟩, fun _ => ⟨ref, rfl⟩, fun _ => hcp⟩ hreq (fun _ => rfl)
        (fun w => ?_) rfl (by simp [Effect.isAnswer])
      cases w <;> simp only [registered] <;> grind
  | @cancelSend p =>
    obtain ⟨hrw, hcp, hcaller⟩ := hk
    refine .cancelled rfl hrw hcp rfl fun w hreg => ?_
    cases w <;> simp only [registered] at hreg <;> simp only [Event.cancels] <;> grind
  | @cancelRecv p =>
    obtain ⟨hsw, hcp, hcaller⟩ := hk
    refine .cancelled hsw rfl hcp rfl fun w hreg => ?_
    cases w <;> simp only [registered] at hreg <;> simp only [Event.cancels] <;> grind
  | closeBadarg _ hnone => exact absurd hnone (hd _ _ rfl)
  | @closeOpened p buf ref o h' hop hdec hcl =>
    obtain ⟨hsame, hmute⟩ := hcl.waits
    obtain ⟨hrw, hcaller⟩ := hk hop
    have hcp : h.closePending = false := hop.1
    refine .asks (.close p ref) (hsame.held ⟨fun _ => ⟨p, rfl⟩, fun _ => ⟨ref, rfl⟩, fun hn => ?_⟩)
      (by simp [Event.request, hdec]) (fun _ => rfl) (fun w => ?_) (by simp [Effect.isWait]) ?_
    · have hn : h.receiverWaiting = true := hn
      rw [hrw] at hn; cases hn
    · rw [hsame.registered]
      cases w <;> simp only [registered, opened] <;> grind
    · intro y hy
      rcases List.mem_append.1 hy with hy | hy
      · exact isAnswer_of_mute hmute hy
      · rw [List.mem_singleton.1 hy]; rfl
  | setoptsQuiet =>
    exact .frame hi ⟨rfl, rfl, rfl, rfl, rfl⟩ (fun _ => rfl) (by simp [Effect.mute, Effect.isWait, Effect.isAnswer])
  | setoptsEmit _ _ _ he =>
    obtain ⟨hsame, hmute⟩ := he.waits hk
    have hsame : SameWaits h h' := ⟨hsame.1, hsame.2, hsame.3, hsame.4, hsame.5⟩
    exact .frame hi hsame (fun _ => rfl) (by simp [hmute, Effect.mute, Effect.isWait, Effect.isAnswer])
  | getopts | peernameAnswered =>
    exact .same hi (fun _ => .rfl) (fun _ => rfl) (ite_self _) (by simp [Effect.answers]) (by simp [Effect.isAnswer])
  | validateAnswered =>
    exact .same hi (fun _ => .rfl) (fun _ => rfl) (ite_self _) (by simp [Effect.answers]) (by simp [Effect.isAnswer])
  | validateWaits _ _ hst =>
    obtain ⟨hrw, hcp⟩ := hk hst
    refine .same ⟨hi.caller, fun hor => ?_, hi.apart⟩ (fun w => ?_) (fun _ => rfl) (ite_self _)
      (by simp [Effect.answers])
      (by simp [Effect.isAnswer])
    · have hor : h.receiverWaiting = true ∨ h.closePending = true := hor
      simp [hrw, hcp] at hor
    · cases w <;> simp [registered, hrw, hcp]
  | stopDeleted hcl =>
    obtain ⟨hsame, hmute⟩ := hcl.waits
    exact .frame hi ⟨hsame.1, hsame.2, hsame.3, hsame.4, hsame.5⟩ (fun _ => rfl)
      (by simp [hmute, Effect.mute, Effect.isWait, Effect.isAnswer])
  | stopped hcl =>
    obtain ⟨hsame, hmute⟩ := hcl.waits
    exact .frame hi ⟨hsame.1, hsame.2, hsame.3, hsame.4, hsame.5⟩ (fun _ => rfl) hmute
  | doReadQueued => exact .frame hi ⟨rfl, rfl, rfl, rfl, rfl⟩ (fun _ => rfl) rfl
  | doReadShort => exact .frame hi ⟨rfl, rfl, rfl, rfl, rfl⟩ (fun _ => rfl) rfl
  | @doReadAnswers bytes mem q o h' _ hact hrw he =>
    obtain ⟨hsame, hdel, data, rfl⟩ := he.proc hact
    obtain ⟨p, hp⟩ := hi.caller (.inr (.inl hrw))
    obtain ⟨ref, href⟩ := hi.ref (.inl hrw)
    have hsw := hk hrw hact hdel
    have hcp := hi.apart hrw
    have hsw' : h'.senderWaiting = false := hsame.senderWaiting.trans hsw
    have hcp' : h'.closePending = false := hsame.closePending.trans hcp
    refine .answered (.recv p ref) (.send h.caller (.refData h.callerRef data)) ⟨?_, ?_, fun _ => hcp'⟩
      ⟨hrw, hp, href⟩ (fun _ => rfl) (fun w => ?_) (by simp) (by rw [hp, href]; rfl) ?_
    · simp [resetWaitingRecv, hsw', hcp']
    · simp [resetWaitingRecv, hcp']
    · refine iff_of_false (Held.registered_none (by exact hsw') rfl (by exact hcp') w) ?_
      intro hreg'
      obtain ⟨hreg, hne⟩ := hreg'
      cases w <;> simp only [registered] at hreg <;> grind
    · intro y hy
      rcases List.mem_append.1 hy with hy | hy
      · exact .inl (List.mem_singleton.1 hy)
      · exact .inr (List.all_eq_true.1 (all_mute_drainedCall _ _) y hy)
  | @doReadActive bytes mem sent q o h' hb _ he =>
    obtain ⟨hsame, hmute⟩ := he.waits fun _ => received_sizeq hb
    exact .frame hi ⟨hsame.1, hsame.2, hsame.3, hsame.4, hsame.5⟩ (fun _ => rfl) (by simp [hmute])
  | doWrite hws =>
    have hmute := all_mute_writes _ hws
    exact .frame hi ⟨rfl, rfl, rfl, rfl, rfl⟩ (fun _ => rfl) hmute
  | eof _ hcl =>
    obtain ⟨hsame, hmute⟩ := hcl.waits
    exact .frame hi ⟨hsame.1, hsame.2, hsame.3, hsame.4, hsame.5⟩ (fun _ => rfl) hmute
  | eofStopped => exact .frame hi ⟨rfl, rfl, rfl, rfl, rfl⟩ (fun _ => rfl) rfl
  | writable hf hr =>
    rw [← List.append_nil (_ ++ _)]
    exact .flush hi hf hr .same rfl
  | writableCloses hf hr _ hcl =>
    obtain ⟨hsame, hmute⟩ := hcl.waits
    exact .flush hi hf hr hsame hmute
  | connectAnswers _ hst =>
    refine .same ⟨hi.caller, hi.ref, hi.apart⟩ (fun w => ?_) (fun _ => rfl) rfl (by simp [Effect.answers])
      fun hne => absurd hst hne
    cases w <;> rfl
  | connects => exact .frame hi ⟨rfl, rfl, rfl, rfl, rfl⟩ (fun _ => rfl) rfl
  | @destroyingAnswers w ref hst href hcp =>
    obtain ⟨p, hp⟩ := hi.caller (.inr (.inr hcp))
    have hsw := hk hst hcp
    have hrw : h.receiverWaiting = false := Bool.eq_false_iff.2 fun hrw => by rw [hi.apart hrw] at hcp; cases hcp
    have hsend : (if h.caller ≠ .nil then Effect.send h.caller (.refOk ref) else .output (.refOk ref)) =
        .send (.pid p) (.refOk ref) := by rw [hp]; rfl
    rw [hsend]
    refine .answered (.close p ref) (.send (.pid p) (.refOk ref)) ⟨?_, ?_, fun _ => rfl⟩ ⟨hcp, hp, href⟩
      (fun _ => rfl) (fun w => ?_) (by simp) rfl ?_
    · simp [hsw, hrw]
    · simp [hrw]
    · refine iff_of_false (Held.registered_none (by exact hsw) (by exact hrw) rfl w) ?_
      intro hreg'
      obtain ⟨hreg, hne⟩ := hreg'
      cases w <;> simp only [registered] at hreg <;> grind
    · intro y hy
      rcases List.mem_append.1 hy with hy | hy
      · exact .inr (List.all_eq_true.1 (all_mute_deselect h) y hy)
      · exact .inl (List.mem_singleton.1 hy)
  | destroyingNotifies =>
    refine .frame hi ⟨rfl, rfl, rfl, rfl, rfl⟩ (fun _ => rfl) ?_
    split <;> simp [Effect.mute, Effect.isWait, Effect.isAnswer]
  | destroyingDeletes =>
    exact .frame hi ⟨rfl, rfl, rfl, rfl, rfl⟩ (fun _ => rfl) (by simp [Effect.mute, Effect.isWait, Effect.isAnswer])
  | destroyingIgnored => exact .frame hi ⟨rfl, rfl, rfl, rfl, rfl⟩ (fun _ => rfl) (by simp)
  | errorConnecting hst ho =>
    refine .same ⟨hi.caller, hi.ref, hi.apart⟩ (fun w => ?_) (fun _ => rfl) (ite_self _) (fun y hy w => ?_)
      fun hne => absurd hst hne
    · cases w <;> rfl
    · obtain ⟨ref, rfl⟩ := ho y hy
      simp [Effect.answers]
  | errorReset _ hcl =>
    obtain ⟨hsame, hmute⟩ := hcl.waits
    exact .frame hi ⟨hsame.1, hsame.2, hsame.3, hsame.4, hsame.5⟩ (fun _ => rfl) hmute
  | errorReported => exact .frame hi ⟨rfl, rfl, rfl, rfl, rfl⟩ (fun _ => rfl) (by split <;> rfl)
  | errorIgnored => exact .frame hi ⟨rfl, rfl, rfl, rfl, rfl⟩ (fun _ => rfl) rfl
  | incomingTaken => exact .frame hi ⟨rfl, rfl, rfl, rfl, rfl⟩ (fun _ => rfl) rfl
  | validateFailed => exact .frame hi ⟨rfl, rfl, rfl, rfl, rfl⟩ (fun _ => rfl) rfl
  | _ => exact .frame hi .same (fun _ => rfl) rfl

/-! ## Runs -/

/-- The trace and the handler agree on who waits. -/
structure Routed (t : Trace) (h : UtpHandler) : Prop where
  held : Held h
  waits : ∀ w, w ∈ waiters t ↔ h.registered w

theorem Routed.start {h₀ : UtpHandler} (hs : h₀.senderWaiting = false) (hr : h₀.receiverWaiting = false)
    (hc : h₀.closePending = false) : Routed [] h₀ where
  held := ⟨by simp [hs, hr, hc], by simp [hr, hc], fun _ => hc⟩
  waits := fun w => iff_of_false List.not_mem_nil (Held.registered_none hs hr hc w)

theorem Routed.keeps (hi : Routed t h) (hk : Keeps h e o h') : Routed (t ++ [⟨h, e, o⟩]) h' where
  held := hk.held
  waits := fun w => by rw [mem_waiters_snoc, mem_present, hi.waits, hk.registered]

/-- References are new, and no step takes the caller of another request. -/
def RoutedGuard : Runs.Guard UtpHandler Event (List Effect) := fun t h e => NewRefs t e ∧ KeepsWaiters h e

theorem Routed.step (hi : Routed t h) (hg : RoutedGuard t h e) (hs : Step h e o h') : Keeps h e o h' :=
  keeps_step hs hi.held hg.2 hg.1.1 fun p buf mem w he hreq hold => hg.1.2 p buf mem w he hreq ((hi.waits w).2 hold)

theorem not_pending_step (hs : Step h e o h') (hn : h.status ≠ .connectPending) : h'.status ≠ .connectPending := by
  cases moves hs with
  | keeps hst => rwa [hst]
  | closes _ hst | opens hst | stops hst | connects hst | destroys _ hst | fails _ hst | validates _ hst
  | takes _ _ hst => rw [hst]; exact nofun

/-- A connected handler on which nobody waits. -/
structure Idle (h : UtpHandler) : Prop where
  connected : h.status = .connected
  noSender : h.senderWaiting = false
  noReceiver : h.receiverWaiting = false
  noClose : h.closePending = false

/-- Every answer of the step is for a request that waits, and goes to the
process that made it, with its reference. -/
def Routes (t : Trace) (x : Runs.Entry UtpHandler Event (List Effect)) : Prop :=
  ∀ y ∈ x.out, y.isAnswer = true → ∃ w, y.answers = .some w ∧ w ∈ present (waiters t) x

/-- **Answers reach who asked**, in every run whose steps take no caller from
another request: the requests that wait are those registered, each with its
own process and reference, and every answer is for one of them. -/
theorem replies_routed {h₀ : UtpHandler} (hs : Idle h₀) (run : Runs.Run machine RoutedGuard [] h₀ t h) :
    (∀ w, w ∈ waiters t ↔ h.registered w) ∧ Runs.Each Routes t := by
  have hstart : Routed [] h₀ ∧ h₀.status ≠ .connectPending :=
    ⟨.start hs.noSender hs.noReceiver hs.noClose, by rw [hs.connected]; exact nofun⟩
  have hstep : ∀ t s e s' o, (Routed t s ∧ s.status ≠ .connectPending) → RoutedGuard t s e →
      machine s e = .some (s', o) →
      (Routed (t ++ [⟨s, e, o⟩]) s' ∧ s'.status ≠ .connectPending) ∧ Routes t ⟨s, e, o⟩ := by
    intro t s e s' o hboth hg hm
    obtain ⟨hi, hn⟩ := hboth
    have hst := machine_step hm
    have hk : Keeps s e o s' := hi.step hg hst
    refine ⟨⟨hi.keeps hk, not_pending_step hst hn⟩, fun y hy ha => ?_⟩
    obtain ⟨w, hw, hor⟩ := hk.routed hn y hy ha
    refine ⟨w, hw, ?_⟩
    rw [mem_present, hi.waits]
    exact hor
  obtain ⟨hall, hroutes⟩ := run.each (I := fun t s => Routed t s ∧ s.status ≠ .connectPending) hstart hstep .nil
  exact ⟨hall.1.waits, hroutes⟩

/-- A `recv` that waits and is answered, then a close. -/
theorem replies_routed_turns :
    ∃ t h, Runs.Run machine RoutedGuard [] (startServer { SockOpts.new with active := .activeFalse } 1) t h ∧
      waiters t = [.close 2 [8]] ∧ ((∀ w, w ∈ waiters t ↔ h.registered w) ∧ Runs.Each Routes t) :=
  have run := (((Runs.Run.start machine RoutedGuard
      (startServer { SockOpts.new with active := .activeFalse } 1)).next
      (.recv 1 [.version, .tuple 2, .int 1, .binary [9]] fun _ => 0)
      ⟨⟨nofun, fun _ _ _ _ _ _ => List.not_mem_nil⟩, fun _ _ _ _ _ => ⟨rfl, rfl, nofun⟩⟩ rfl).next
      (.doRead [7] fun _ => 0) ⟨⟨nofun, nofun⟩, fun _ _ _ => rfl⟩ rfl).next
      (.close 2 [.version, .binary [8]]) ⟨⟨fun _ _ he => by cases he; exact nofun, nofun⟩, fun _ => ⟨rfl, nofun⟩⟩ rfl
  ⟨_, _, run, by decide, replies_routed ⟨rfl, rfl, rfl, rfl⟩ run⟩

/-- A send that waits takes the caller of a `recv` that waits: the data the
`recv` asked for goes, under its reference, to the process that sends. -/
theorem answer_to_another_process :
    ∃ t h, Runs.Run machine (fun t _ e => NewRefs t e) []
        (startServer { SockOpts.new with active := .activeFalse } 1) t h ∧
      .send (.pid 2) (.refData (.some [9]) ⟨[7], 1, 0, .dataBinary⟩) ∈ effects t ∧
      .recv 1 [9] ∈ waiters t ∧ .send 2 ∈ waiters t ∧ h.caller = .zero := by
  have run := ((((Runs.Run.start machine (fun t _ e => NewRefs t e)
      (startServer { SockOpts.new with active := .activeFalse } 1)).next
      (.outputv 1 ⟨1, [⟨[5], .none⟩]⟩ .nothing fun _ => 0) ⟨nofun, nofun⟩ rfl).next
      (.recv 1 [.version, .tuple 2, .int 1, .binary [9]] fun _ => 0)
      ⟨nofun, fun _ _ _ _ _ _ => List.not_mem_nil⟩ rfl).next
      (.outputv 2 ⟨1, [⟨[6], .none⟩]⟩ .nothing fun _ => 0) ⟨nofun, nofun⟩ rfl).next
      (.doRead [7] fun _ => 0) ⟨nofun, nofun⟩ rfl
  exact ⟨_, _, run, by decide, by decide, by decide, rfl⟩

/-! ## Taking turns -/

/-- A request comes when no other waits, and a process cancels what it waits
for itself. -/
def TakesTurn (t : Trace) : Event → Prop
  | .outputv .. | .recv .. | .close .. | .setopts .. | .getopts .. | .peername ..
  | .connectValidate .. => waiters t = []
  | .cancelSend p => ∀ w ∈ waiters t, w = .send p
  | .cancelRecv p => ∀ w ∈ waiters t, ∃ ref, w = .recv p ref
  | _ => True

/-- The runs in which one process at a time uses the socket, and a close
request names its reference. -/
def OneAtATime : Runs.Guard UtpHandler Event (List Effect) := fun t _ e =>
  TakesTurn t e ∧ ∀ p buf, e = .close p buf → decodeBinary buf ≠ .none

theorem Routed.sender (hi : Routed t h) (hs : h.senderWaiting = true) :
    ∃ p, h.caller = .pid p ∧ .send p ∈ waiters t := by
  obtain ⟨p, hp⟩ := hi.held.caller (.inl hs)
  exact ⟨p, hp, (hi.waits (.send p)).2 ⟨hs, hp⟩⟩

theorem Routed.receiver (hi : Routed t h) (hr : h.receiverWaiting = true) :
    ∃ p ref, h.caller = .pid p ∧ .recv p ref ∈ waiters t := by
  obtain ⟨p, hp⟩ := hi.held.caller (.inr (.inl hr))
  obtain ⟨ref, href⟩ := hi.held.ref (.inl hr)
  exact ⟨p, ref, hp, (hi.waits (.recv p ref)).2 ⟨hr, hp, href⟩⟩

theorem Routed.closer (hi : Routed t h) (hc : h.closePending = true) : ∃ p ref, .close p ref ∈ waiters t := by
  obtain ⟨p, hp⟩ := hi.held.caller (.inr (.inr hc))
  obtain ⟨ref, href⟩ := hi.held.ref (.inr hc)
  exact ⟨p, ref, (hi.waits (.close p ref)).2 ⟨hc, hp, href⟩⟩

theorem Routed.idle (hi : Routed t h) (hw : waiters t = []) :
    h.senderWaiting = false ∧ h.receiverWaiting = false ∧ h.closePending = false := by
  refine ⟨Bool.eq_false_iff.2 fun hs => ?_, Bool.eq_false_iff.2 fun hr => ?_, Bool.eq_false_iff.2 fun hc => ?_⟩
  · obtain ⟨p, -, hmem⟩ := hi.sender hs
    rw [hw] at hmem; cases hmem
  · obtain ⟨p, ref, -, hmem⟩ := hi.receiver hr
    rw [hw] at hmem; cases hmem
  · obtain ⟨p, ref, hmem⟩ := hi.closer hc
    rw [hw] at hmem; cases hmem

/-- What turns keep: at most one request waits. -/
structure Turns (t : Trace) (h : UtpHandler) : Prop where
  routed : Routed t h
  single : ∀ w ∈ waiters t, ∀ w' ∈ waiters t, w = w'

/-- **Turns keep the requests that wait apart.** -/
theorem Turns.guard (hi : Turns t h) (hg : OneAtATime t h e) : RoutedGuard t h e := by
  obtain ⟨hturn, hdec⟩ := hg
  refine ⟨⟨hdec, fun p buf mem w he _ hmem => ?_⟩, ?_⟩
  · subst he
    have hnil : waiters t = [] := hturn
    rw [hnil] at hmem; cases hmem
  cases e with
  | outputv =>
    obtain ⟨hsw, hrw, hcp⟩ := hi.routed.idle hturn
    intro _ _ _ _ hor
    simp [hsw, hrw, hcp] at hor
  | recv =>
    obtain ⟨hsw, hrw, hcp⟩ := hi.routed.idle hturn
    exact fun _ _ _ _ _ => ⟨hrw, hcp, fun hs => by rw [hsw] at hs; cases hs⟩
  | cancelSend p =>
    refine ⟨Bool.eq_false_iff.2 fun hr => ?_, Bool.eq_false_iff.2 fun hc => ?_, fun hs => ?_⟩
    · obtain ⟨q, ref, -, hmem⟩ := hi.routed.receiver hr
      cases hturn _ hmem
    · obtain ⟨q, ref, hmem⟩ := hi.routed.closer hc
      cases hturn _ hmem
    · obtain ⟨q, hq, hmem⟩ := hi.routed.sender hs
      cases hturn _ hmem
      exact hq
  | cancelRecv p =>
    refine ⟨Bool.eq_false_iff.2 fun hs => ?_, Bool.eq_false_iff.2 fun hc => ?_, fun hr => ?_⟩
    · obtain ⟨q, -, hmem⟩ := hi.routed.sender hs
      obtain ⟨_, heq⟩ := hturn _ hmem
      cases heq
    · obtain ⟨q, ref, hmem⟩ := hi.routed.closer hc
      obtain ⟨_, heq⟩ := hturn _ hmem
      cases heq
    · obtain ⟨q, ref, hq, hmem⟩ := hi.routed.receiver hr
      obtain ⟨_, heq⟩ := hturn _ hmem
      cases heq
      exact hq
  | close =>
    obtain ⟨hsw, hrw, hcp⟩ := hi.routed.idle hturn
    exact fun _ => ⟨hrw, fun hs => by rw [hsw] at hs; cases hs⟩
  | setopts =>
    obtain ⟨-, -, hcp⟩ := hi.routed.idle hturn
    exact fun hc => by rw [hcp] at hc; cases hc
  | connectValidate =>
    obtain ⟨-, hrw, hcp⟩ := hi.routed.idle hturn
    exact fun _ => ⟨hrw, hcp⟩
  | doRead =>
    refine fun hr _ _ => Bool.eq_false_iff.2 fun hs => ?_
    obtain ⟨_, _, -, hrecv⟩ := hi.routed.receiver hr
    obtain ⟨_, -, hsend⟩ := hi.routed.sender hs
    cases hi.single _ hrecv _ hsend
  | stateChange s =>
    cases s with
    | destroying =>
      refine fun _ hc => Bool.eq_false_iff.2 fun hs => ?_
      obtain ⟨_, _, hclose⟩ := hi.routed.closer hc
      obtain ⟨_, -, hsend⟩ := hi.routed.sender hs
      cases hi.single _ hclose _ hsend
    | _ => trivial
  | _ => trivial

/-- Only a request that comes in its turn can begin to wait. -/
theorem alone_of_asked {w : Waiter} (hg : OneAtATime t h e) (ha : asked e o = .some w) : waiters t = [] := by
  unfold asked at ha
  split at ha
  · cases e <;> first | exact hg.1 | cases ha
  · cases ha

theorem Turns.step (hi : Turns t h) (hg : OneAtATime t h e) (hs : Step h e o h') : Turns (t ++ [⟨h, e, o⟩]) h' := by
  refine ⟨hi.routed.keeps (hi.routed.step (hi.guard hg) hs), fun w hw w' hw' => ?_⟩
  rw [mem_waiters_snoc, mem_present] at hw hw'
  rcases hw.1 with ⟨hold, -⟩ | hask
  · rcases hw'.1 with ⟨hold', -⟩ | hask'
    · exact hi.single w hold w' hold'
    · rw [alone_of_asked hg hask'] at hold; cases hold
  · rcases hw'.1 with ⟨hold', -⟩ | hask'
    · rw [alone_of_asked hg hask] at hold'; cases hold'
    · exact Option.some.inj (hask.symm.trans hask')

theorem Turns.start {h₀ : UtpHandler} (hs : Started h₀) : Turns [] h₀ where
  routed := by cases hs <;> exact .start rfl rfl rfl
  single := fun _ hw => by cases hw

/-- Every run in turns keeps them. -/
theorem turns {h₀ : UtpHandler} (hs : Started h₀) (run : Runs.Run machine OneAtATime [] h₀ t h) : Turns t h := by
  refine run.invariant (I := Turns) (.start hs) ?_
  intro t s e s' o hi hg hm
  exact hi.step hg (machine_step hm)

/-! ## The end of the connection -/

/-- The request does not begin to wait. -/
def NoPark (h : UtpHandler) : Event → Prop
  | .outputv .. => h.status = .connected → h.utp ≠ .none → h.writable = false → h.sockopts.sendTmout = 0
  | .recv _ buf mem => ∀ len ref, h.sockopts.active = .activeFalse → decodeRecv buf = .some (len, ref) →
      h.deliverable len mem = true
  | _ => True

/-- DESTROYING finds no send and no `recv` waiting, and none begins to wait
after it. -/
def Discharged (t : Trace) (h : UtpHandler) (e : Event) : Prop :=
  (e.isDestroying = true → h.senderWaiting = false ∧ h.receiverWaiting = false) ∧
    (seen Event.isDestroying t = true → NoPark h e)

theorem Emission.flags {len : Nat} {receiver : Receiver} {qsize : Nat} {mem : Mem} {sent : Bool} {q : Nat}
    (he : Emission h len receiver qsize mem sent q o h') :
    h'.senderWaiting = h.senderWaiting ∧ h'.receiverWaiting = h.receiverWaiting := by
  cases he <;> exact ⟨rfl, rfl⟩

/-- A flag is set by a request that begins to wait, and by nothing else. -/
theorem flags_step (hs : Step h e o h') (hn : NoPark h e)
    (hw : h.senderWaiting = false ∧ h.receiverWaiting = false) :
    h'.senderWaiting = false ∧ h'.receiverWaiting = false := by
  obtain ⟨hsw, hrw⟩ := hw
  have hsame : ∀ {h₁ h₂ : UtpHandler}, SameWaits h₁ h₂ → h₁.senderWaiting = false → h₁.receiverWaiting = false →
      h₂.senderWaiting = false ∧ h₂.receiverWaiting = false := fun hs h₁ h₂ =>
    ⟨hs.senderWaiting.trans h₁, hs.receiverWaiting.trans h₂⟩
  have hretry : ∀ {h₁ h₂ : UtpHandler} {w : UtpWrite} {o₁ o₂ : List Effect}, Flush h w o₁ h₁ → Retry h₁ o₂ h₂ →
      h₂.senderWaiting = false ∧ h₂.receiverWaiting = false := by
    intro h₁ h₂ w o₁ o₂ hf hr
    obtain ⟨h₃, h₄⟩ := hsame hf.waits.1 hsw hrw
    cases hr <;> exact ⟨by first | rfl | exact h₃, h₄⟩
  cases hs with
  | outputvParked hst hu hwr htm => exact absurd (hn hst (by simp [hu]) hwr) htm
  | recvSent _ _ he | doReadActive _ _ he =>
    obtain ⟨h₁, h₂⟩ := he.flags
    exact ⟨h₁.trans hsw, h₂.trans hrw⟩
  | setoptsEmit _ _ _ he =>
    obtain ⟨h₁, h₂⟩ := he.flags
    exact ⟨h₁.trans hsw, h₂.trans hrw⟩
  | recvParked hact hdec he =>
    have hdel := hn _ _ hact hdec
    cases he with
    | closed _ h0 => simp [deliverable, h0] at hdel
    | held _ hno => rw [hdel] at hno; cases hno
  | doReadAnswers _ _ hr => rw [hrw] at hr; cases hr
  | closeOpened _ _ hcl | stopDeleted hcl | stopped hcl | errorReset _ hcl =>
    have hboth := hsame hcl.waits.1 hsw hrw
    exact hboth
  | eof _ hcl =>
    have hboth := hsame hcl.waits.1 hsw hrw
    exact hboth
  | writable hf hr => exact hretry hf hr
  | writableCloses hf hr _ hcl =>
    obtain ⟨h₁, h₂⟩ := hretry hf hr
    exact hsame hcl.waits.1 h₁ h₂
  | cancelSend => exact ⟨rfl, hrw⟩
  | cancelRecv => exact ⟨hsw, rfl⟩
  | _ => exact ⟨hsw, hrw⟩

/-- After DESTROYING both flags stay down. -/
theorem flags_down {G : Runs.Guard UtpHandler Event (List Effect)} {h₀ : UtpHandler}
    (hG : ∀ t h e, G t h e → Discharged t h e) (run : Runs.Run machine G [] h₀ t h)
    (hd : seen Event.isDestroying t = true) : h.senderWaiting = false ∧ h.receiverWaiting = false := by
  have hall : seen Event.isDestroying t = true → h.senderWaiting = false ∧ h.receiverWaiting = false := by
    refine run.invariant
      (I := fun t h => seen Event.isDestroying t = true → h.senderWaiting = false ∧ h.receiverWaiting = false)
      (fun hnil => by cases hnil) ?_
    intro t s e s' o hi hg hm hseen
    rw [seen_snoc, Bool.or_eq_true] at hseen
    have hst := machine_step hm
    obtain ⟨hfinds, hafter⟩ := hG t s e hg
    rcases hseen with hold | hnow
    · exact flags_step hst (hafter hold) (hi hold)
    · have hn : NoPark s e := by cases e <;> trivial
      exact flags_step hst hn (hfinds hnow)
  exact hall hd

theorem Routed.only_close (hi : Routed t h) (hs : h.senderWaiting = false) (hr : h.receiverWaiting = false) {w : Waiter}
    (hw : w ∈ waiters t) : w.isClose = true := by
  have hreg := (hi.waits w).1 hw
  cases w with
  | send p => rw [registered, hs] at hreg; cases hreg.1
  | recv p ref => rw [registered, hr] at hreg; cases hreg.1
  | close => rfl

/-- Processes that take turns leave nobody waiting either. -/
theorem turns_discharged {h₀ : UtpHandler} (hs : Started h₀)
    (run : Runs.Run machine (fun t h e => OneAtATime t h e ∧ Discharged t h e) [] h₀ t h)
    (hd : seen Event.isDestroying t = true) : ∀ w ∈ waiters t, w.isClose = true := by
  have hturns : Turns t h := turns hs (run.mono fun _ _ _ hg => hg.1)
  obtain ⟨hsw, hrw⟩ := flags_down (fun _ _ _ hg => hg.2) run hd
  exact fun w hw => hturns.routed.only_close hsw hrw hw

/-- The runs in which no request displaces another, DESTROYING finds no flag
set, and none is set after it. -/
def DischargeGuard : Runs.Guard UtpHandler Event (List Effect) := fun t h e =>
  RoutedGuard t h e ∧ Discharged t h e

/-- **Nobody is left waiting** on a destroyed connection: in every such run,
once DESTROYING has been processed, every send and every `recv` that was told
to wait has been answered or cancelled, and neither flag is set. -/
theorem none_abandoned {h₀ : UtpHandler} (hs : Started h₀) (run : Runs.Run machine DischargeGuard [] h₀ t h)
    (hd : seen Event.isDestroying t = true) :
    (∀ w ∈ waiters t, w.isClose = true) ∧ h.senderWaiting = false ∧ h.receiverWaiting = false := by
  have hrouted : Routed t h := by
    have hstart : Routed [] h₀ := by cases hs <;> exact .start rfl rfl rfl
    refine run.invariant (I := Routed) hstart ?_
    intro t s e s' o hi hg hm
    exact hi.keeps (hi.step hg.1 (machine_step hm))
  obtain ⟨hsw, hrw⟩ := flags_down (fun _ _ _ hg => hg.2) run hd
  exact ⟨fun w hw => hrouted.only_close hsw hrw hw, hsw, hrw⟩

/-- A `recv` that is answered before the connection ends. -/
theorem none_abandoned_answered :
    ∃ t h, Runs.Run machine DischargeGuard [] (startServer { SockOpts.new with active := .activeFalse } 1) t h ∧
      t.length = 4 ∧ (∀ w ∈ waiters t, w.isClose = true) ∧ h.senderWaiting = false ∧ h.receiverWaiting = false :=
  have run := ((((Runs.Run.start machine DischargeGuard
      (startServer { SockOpts.new with active := .activeFalse } 1)).next
      (.recv 1 [.version, .tuple 2, .int 1, .binary [9]] fun _ => 0)
      ⟨⟨⟨nofun, fun _ _ _ _ _ _ => List.not_mem_nil⟩, fun _ _ _ _ _ => ⟨rfl, rfl, nofun⟩⟩, nofun, nofun⟩ rfl).next
      (.doRead [7] fun _ => 0) ⟨⟨⟨nofun, nofun⟩, fun _ _ _ => rfl⟩, nofun, nofun⟩ rfl).next
      (.stateChange .eof .nothing) ⟨⟨⟨nofun, nofun⟩, trivial⟩, nofun, nofun⟩ rfl).next
      (.stateChange .destroying .nothing) ⟨⟨⟨nofun, nofun⟩, fun _ _ => rfl⟩, fun _ => ⟨rfl, rfl⟩, nofun⟩ rfl
  ⟨_, _, run, rfl, none_abandoned (.server _ 1) run rfl⟩

/-- A `recv` and a send that wait when the connection ends, and a `recv` that
comes after, wait on. -/
theorem waits_on_destroyed_connection :
    (∃ t h, Runs.Run machine OneAtATime [] (startServer { SockOpts.new with active := .activeFalse } 1) t h ∧
      h.status = .destroying ∧ waiters t = [.recv 1 [9]] ∧ h.receiverWaiting = true) ∧
    (∃ t h, Runs.Run machine OneAtATime [] (startServer SockOpts.new 1) t h ∧
      h.status = .destroying ∧ waiters t = [.send 1] ∧ h.senderWaiting = true) ∧
    ∃ t h h' o, Runs.Run machine OneAtATime [] (startServer { SockOpts.new with active := .activeFalse } 1) t h ∧
      h.status = .destroying ∧
      machine h (.recv 1 [.version, .tuple 2, .int 1, .binary [9]] fun _ => 0) = .some (h', o) ∧
      .reply .wait ∈ o ∧ h'.receiverWaiting = true := by
  have passive := Runs.Run.start machine OneAtATime (startServer { SockOpts.new with active := .activeFalse } 1)
  have reads := ((passive.next (.recv 1 [.version, .tuple 2, .int 1, .binary [9]] fun _ => 0) ⟨rfl, nofun⟩ rfl).next
      (.stateChange .eof .nothing) ⟨trivial, nofun⟩ rfl).next (.stateChange .destroying .nothing) ⟨trivial, nofun⟩ rfl
  have sends := ((((Runs.Run.start machine OneAtATime (startServer SockOpts.new 1)).next
      (.outputv 1 ⟨1, [⟨[5], .none⟩]⟩ .nothing fun _ => 0) ⟨rfl, nofun⟩ rfl).next
      (.outputv 1 ⟨1, [⟨[5], .none⟩]⟩ .nothing fun _ => 0) ⟨rfl, nofun⟩ rfl).next
      (.stateChange .eof .nothing) ⟨trivial, nofun⟩ rfl).next (.stateChange .destroying .nothing) ⟨trivial, nofun⟩ rfl
  have ends := (passive.next (.stateChange .eof .nothing) ⟨trivial, nofun⟩ rfl).next
      (.stateChange .destroying .nothing) ⟨trivial, nofun⟩ rfl
  exact ⟨⟨_, _, reads, rfl, by decide, rfl⟩, ⟨_, _, sends, rfl, by decide, rfl⟩, _, _, _, _, ends, rfl, rfl,
    by decide, rfl⟩

end UtpHandler

end GenUtp
