/-
`gen_utp:send/2`: one process that sends on one socket, against the driver.

The process and the driver exchange messages without a reference,
`{utp_reply, Sock, R}`, so a call owns whatever comes while it runs: what it
leaves behind, the next call takes for its own. A `Sender` is the port, the
replies in the mailbox of the process, and where its call is; the callbacks
of libutp, the parts of `outputv` and the steps of the call come in any order.

Two orders leave a reply behind (`stale_replies`). A `{wait, T}` that is read
after `T` milliseconds returns without `cancel_send`, and a WRITABLE after
`outputv` has recorded the sender sends `retry` ahead of the `wait` it is
about to send. In every run without these, a call that returns has read all
its replies, its sender is not registered any more, and its result is the
driver's answer to its own data (`send_leaves_nothing`).

The invariant is `Owes`: for each place the call can be at, what the mailbox
holds and what the driver still owes. A `retry` is owed while the sender is
registered and in the mailbox after (`RetryOwed`); a callback moves it from
the one to the other, and does nothing else (`aside_step`).
-/
import Mathlib.Algebra.Group.Int.Defs
import GenUtp.Port

namespace GenUtp

/-! ## The clock -/

/-- `os:timestamp()` -/
structure Timestamp where
  mega : Int
  sec : Int
  micro : Int
  deriving DecidableEq, Repr

/-- `timer:now_diff`, in microseconds. -/
def nowDiff (t₂ t₁ : Timestamp) : Int :=
  ((t₂.mega - t₁.mega) * 1000000 + t₂.sec - t₁.sec) * 1000000 + t₂.micro - t₁.micro

/-- `TDiff`: milliseconds since the call began. -/
def tdiff (current start : Timestamp) : Int := (nowDiff current start).tdiv 1000

/-- `Wait`: milliseconds until `Done`. -/
def waitTime (timeout : Nat) (start current : Timestamp) : Int :=
  (nowDiff ⟨start.mega, start.sec, timeout * 1000 + start.micro⟩ current).tdiv 1000

/-- While the timeout has not passed, what is left of it is not negative. -/
theorem waitTime_nonneg {timeout : Nat} {start current : Timestamp} (h : tdiff current start < timeout) :
    0 ≤ waitTime timeout start current := by
  have hlt : nowDiff current start < timeout * 1000 := by
    by_cases h0 : 0 ≤ nowDiff current start
    · rw [tdiff, Int.tdiv_eq_ediv_of_nonneg h0] at h
      omega
    · omega
  refine Int.tdiv_nonneg ?_ (by decide)
  simp only [nowDiff] at hlt ⊢
  omega

/-! ## The process -/

/-- The arguments of `send/3`. -/
structure SendArgs where
  data : ErlIOVec
  start : Timestamp
  deriving DecidableEq, Repr

/-- Where the process is in `send/3`. -/
inductive SendPhase
  /-- Not in a call. -/
  | idle
  /-- After `port_command`: in the first `receive`. -/
  | replying (c : SendArgs)
  /-- After `wait`. -/
  | retrying (c : SendArgs)
  /-- After `{wait, Timeout}`, with `Wait`. -/
  | retryingFor (c : SendArgs) (wait : Int)
  /-- `Wait` is over, `UTP_CANCEL_SEND` still to come. -/
  | expired (c : SendArgs)
  /-- In the last `receive`, which does not wait. -/
  | cancelled (c : SendArgs)
  deriving DecidableEq, Repr

/-- How a call ends: its result, or the error of a timeout that is none. -/
inductive SendExit
  | returned (r : SendReply)
  | raised
  deriving DecidableEq, Repr

/-- The process, the `utp_reply` messages in its mailbox, and its port. -/
structure Sender where
  port : Port
  mailbox : List SendReply
  phase : SendPhase
  deriving DecidableEq, Repr

inductive SendEvent
  | call (c : SendArgs) (mem : Mem)
  | driver (e : PortEvent)
  /-- The process reads a reply; `current` is the clock then. -/
  | take (current : Timestamp) (mem : Mem)
  | expire
  | cancel
  | drain

structure SendOut where
  effects : List Effect
  exit : Option SendExit
  deriving DecidableEq, Repr

abbrev SendTrace := Runs.Trace Sender SendEvent SendOut

/-- What can come to the port while one process sends: callbacks, and the
requests that ask or set options. -/
def Event.aside : Event → Bool
  | .setopts .. | .getopts .. | .peername .. => true
  | e => !e.isRequest

/-- Nothing sent to a process. -/
def Effect.unsent : Effect → Bool
  | .send .. => false
  | _ => true

/-- The replies among some effects that go to `p`. -/
def repliesTo (p : Pid) (o : List Effect) : List SendReply :=
  o.filterMap fun
    | .send (.pid q) (.utpReply r) => if q = p then .some r else .none
    | _ => .none

namespace Sender

variable (p : Pid)

/-- A request that is let in by the port lock. -/
def request (s : Sender) (e : Event) (phase : SendPhase) : Option (Sender × SendOut) :=
  if s.port.pending ≠ .none then .none
  else (s.port.machine (.start e)).map fun r => (⟨r.1, s.mailbox ++ repliesTo p r.2, phase⟩, ⟨r.2, .none⟩)

/-- `port_command`. The `UTP_Write` of the request is a later part. -/
def portCommand (s : Sender) (c : SendArgs) (mem : Mem) : Option (Sender × SendOut) :=
  s.request p (.outputv p c.data ⟨fun _ => [], fun _ => false⟩ mem) (.replying c)

def leave (s : Sender) (mailbox : List SendReply) (x : SendExit) : Option (Sender × SendOut) :=
  .some (⟨s.port, mailbox, .idle⟩, ⟨[], .some x⟩)

def enter (s : Sender) (mailbox : List SendReply) (phase : SendPhase) : Option (Sender × SendOut) :=
  .some (⟨s.port, mailbox, phase⟩, ⟨[], .none⟩)

/-- The first `receive` of `send/3`: every reply matches one of its
patterns. -/
def takeReply (s : Sender) (c : SendArgs) (current : Timestamp) : List SendReply → Option (Sender × SendOut)
  | [] => .none
  | .wait :: m => s.enter m (.retrying c)
  | .waitFor timeout :: m =>
    if tdiff current c.start ≥ timeout then s.leave m (.returned (.error .etimedout))
    else s.enter m (.retryingFor c (waitTime timeout c.start current))
  | r :: m => s.leave m (.returned r)

/-- The `receive` of a `retry`, and the recursive call. -/
def takeRetry (s : Sender) (c : SendArgs) (mem : Mem) : Option (Sender × SendOut) :=
  if .retry ∈ s.mailbox then portCommand p { s with mailbox := s.mailbox.erase .retry } c mem else .none

def machine (s : Sender) : SendEvent → Option (Sender × SendOut)
  | .call c mem => match s.phase with
    | .idle => s.portCommand p c mem
    | _ => .none
  | .driver e =>
    (s.port.machine e).map fun r => (⟨r.1, s.mailbox ++ repliesTo p r.2, s.phase⟩, ⟨r.2, .none⟩)
  | .take current mem => match s.phase with
    | .replying c => s.takeReply c current s.mailbox
    | .retrying c => s.takeRetry p c mem
    | .retryingFor c _ => s.takeRetry p c mem
    | _ => .none
  | .expire => match s.phase with
    | .retryingFor c wait =>
      if .retry ∈ s.mailbox then .none
      -- a timeout is a number of 32 bits
      else if 0 ≤ wait ∧ wait < 2 ^ 32 then s.enter s.mailbox (.expired c)
      else s.leave s.mailbox .raised
    | _ => .none
  | .cancel => match s.phase with
    | .expired c => s.request p (.cancelSend p) (.cancelled c)
    | _ => .none
  | .drain => match s.phase, s.mailbox with
    | .cancelled _, [] => s.leave [] (.returned (.error .etimedout))
    | .cancelled _, .ok :: m => s.leave m (.returned .ok)
    | .cancelled _, _ :: m => s.leave m (.returned (.error .etimedout))
    | _, _ => .none

/-! ## What a call has done -/

end Sender

def SendEvent.isCall : SendEvent → Bool
  | .call .. => true
  | _ => false

namespace Sender

/-- The step hands the data of the call to libutp. -/
def accepts (x : Runs.Entry Sender SendEvent SendOut) : Bool :=
  match x.event, x.pre.port.pending with
  | .driver (.resume _), .some (.write ..) => true
  | _, _ => false

/-- The data of the current call was accepted. -/
def accepted (t : SendTrace) : Bool :=
  t.foldl (fun a x => if x.event.isCall then false else a || accepts x) false

/-- What the driver has answered to the current call. -/
def replies (p : Pid) (t : SendTrace) : List SendReply :=
  t.foldl (fun l x => (if x.event.isCall then [] else l) ++ repliesTo p x.out.effects) []

@[simp] theorem accepted_snoc (t : SendTrace) (x : Runs.Entry Sender SendEvent SendOut) :
    accepted (t ++ [x]) = if x.event.isCall then false else accepted t || accepts x := by
  simp [accepted]

@[simp] theorem replies_snoc (p : Pid) (t : SendTrace) (x : Runs.Entry Sender SendEvent SendOut) :
    replies p (t ++ [x]) = (if x.event.isCall then [] else replies p t) ++ repliesTo p x.out.effects := by
  simp [replies]

end Sender

/-! ## What comes in between -/

theorem repliesTo_append (p : Pid) (o o' : List Effect) : repliesTo p (o ++ o') = repliesTo p o ++ repliesTo p o' :=
  List.filterMap_append

theorem repliesTo_of_unsent (p : Pid) {o : List Effect} (h : o.all Effect.unsent = true) : repliesTo p o = [] := by
  rw [repliesTo, List.filterMap_eq_nil_iff]
  intro x hx
  have hun := List.all_eq_true.1 h x hx
  cases x <;> first | rfl | cases hun

namespace UtpHandler

variable {h h' : UtpHandler} {e : Event} {o : List Effect} {p : Pid}

@[simp] theorem all_unsent_connected (so : SockOpts) (ms : List Packet) :
    (dataMessages so .connected ms).all Effect.unsent = true :=
  all_dataMessages so .connected ms fun _ => rfl

@[simp] theorem all_unsent_bufferSets (utp : Option UTPSocket) (saved so : SockOpts) :
    (bufferSets utp saved so).all Effect.unsent = true :=
  all_bufferSets utp saved so fun _ _ => rfl

@[simp] theorem all_unsent_drainedCall (utp : Option UTPSocket) (qsize : Nat) :
    (drainedCall utp qsize).all Effect.unsent = true :=
  all_drainedCall utp qsize rfl

@[simp] theorem all_unsent_deselect (h : UtpHandler) : h.deselect.all Effect.unsent = true :=
  all_deselect h rfl

theorem all_unsent_writes (counts : List Nat) {wq wq' : WriteQueue} {ws : List Effect}
    (hw : writes wq counts = .some (ws, wq')) : ws.all Effect.unsent = true :=
  all_writes (fun _ _ => rfl) counts hw

/-- Only the sends of `p` wait. -/
structure OnlySends (p : Pid) (h : UtpHandler) : Prop where
  receiver : h.receiverWaiting = false
  close : h.closePending = false
  caller : h.senderWaiting = true → h.caller = .pid p

theorem OnlySends.same (hi : OnlySends p h) (hs : SameWaits h h') : OnlySends p h' :=
  ⟨hs.receiverWaiting.trans hi.receiver, hs.closePending.trans hi.close,
    fun hn => hs.caller.trans (hi.caller (hs.senderWaiting.symm.trans hn))⟩

/-- The send of `p` that waits is told to retry, or nobody is told anything. -/
inductive Tells (p : Pid) (h : UtpHandler) (e : Event) (o : List Effect) (h' : UtpHandler) : Prop
  | nothing : repliesTo p o = [] → h'.senderWaiting = h.senderWaiting → Tells p h e o h'
  | retry {w} : repliesTo p o = [.retry] → h.senderWaiting = true → h'.senderWaiting = false →
      e = .stateChange .writable w → (h.writeQueue.size = 0 ∨ w.ret h.writeQueue.size = true) → Tells p h e o h'

theorem tells_nothing (hs : SameWaits h h') (ho : o.all Effect.unsent = true) (hi : OnlySends p h) :
    OnlySends p h' ∧ Tells p h e o h' :=
  ⟨hi.same hs, .nothing (repliesTo_of_unsent p ho) hs.senderWaiting⟩

theorem CloseUtp.unsent (hc : CloseUtp h o h') : o.all Effect.unsent = true := by
  cases hc <;> rfl

theorem Emission.unsent {len qsize : Nat} {mem : Mem} {sent : Bool} {q : Nat}
    (he : Emission h len .connected qsize mem sent q o h') (hc : h.closePending = false) :
    SameWaits h h' ∧ o.all Effect.unsent = true := by
  cases he with
  | closed hcp => rw [hc] at hcp; cases hcp
  | held => exact ⟨.same, rfl⟩
  | sent => exact ⟨⟨rfl, rfl, rfl, rfl, rfl⟩, all_unsent_connected _ _⟩

theorem Flush.tells {w : UtpWrite} {h₁ h₂ : UtpHandler} {o₁ o₂ : List Effect} (hf : Flush h w o₁ h₁)
    (hr : Retry h₁ o₂ h₂) (hi : OnlySends p h) :
    OnlySends p h₂ ∧ Tells p h (.stateChange .writable w) (o₁ ++ o₂) h₂ := by
  obtain ⟨hs, -⟩ := hf.waits
  have ho : o₁.all Effect.unsent = true := all_flush hf (fun _ => rfl) fun _ _ => rfl
  cases hr with
  | quiet =>
    rw [List.append_nil]
    exact tells_nothing hs ho hi
  | retried hw hsw =>
    have hsw₀ := hs.senderWaiting.symm.trans hsw
    have hcaller := hs.caller.trans (hi.caller hsw₀)
    have hi₁ := hi.same hs
    refine ⟨⟨hi₁.receiver, hi₁.close, nofun⟩, .retry ?_ hsw₀ rfl rfl ?_⟩
    · rw [repliesTo_append, repliesTo_of_unsent p ho, hcaller]
      simp [repliesTo]
    · cases hf with
      | empty h0 => exact .inl h0
      | wrote => exact .inr hw

/-- What comes in between leaves the send of `p` waiting, or tells it to
retry. -/
theorem aside_step (hs : Step h e o h') (he : e.aside = true) (hi : OnlySends p h) :
    OnlySends p h' ∧ Tells p h e o h' := by
  have hsame : ∀ {h₁ : UtpHandler} {o₁ : List Effect}, SameWaits h h₁ → o₁.all Effect.unsent = true →
      OnlySends p h₁ ∧ Tells p h e o₁ h₁ := fun hs ho => tells_nothing hs ho hi
  cases hs with
  | setoptsQuiet => exact hsame ⟨rfl, rfl, rfl, rfl, rfl⟩ (by simp [Effect.unsent])
  | setoptsEmit _ _ _ hem =>
    obtain ⟨hs, ho⟩ := hem.unsent hi.close
    exact hsame ⟨hs.1, hs.2, hs.3, hs.4, hs.5⟩ (by simp [ho, Effect.unsent])
  | doReadAnswers _ _ hrw => rw [hi.receiver] at hrw; cases hrw
  | doReadActive _ _ hem =>
    obtain ⟨hs, ho⟩ := hem.unsent hi.close
    exact hsame ⟨hs.1, hs.2, hs.3, hs.4, hs.5⟩ (by simp [ho])
  | doWrite hws =>
    have hun := all_unsent_writes _ hws
    exact hsame ⟨rfl, rfl, rfl, rfl, rfl⟩ hun
  | eof _ hcl | errorReset _ hcl =>
    have hs := hcl.waits.1
    exact hsame ⟨hs.1, hs.2, hs.3, hs.4, hs.5⟩ hcl.unsent
  | writable hf hr => exact hf.tells hr hi
  | writableCloses _ _ hcp => rw [hi.close] at hcp; cases hcp
  | destroyingAnswers _ _ hcp => rw [hi.close] at hcp; cases hcp
  | destroyingNotifies =>
    refine hsame ⟨rfl, rfl, rfl, rfl, rfl⟩ ?_
    split <;> simp [Effect.unsent]
  | destroyingDeletes => exact hsame ⟨rfl, rfl, rfl, rfl, rfl⟩ (by simp [Effect.unsent])
  | destroyingIgnored => exact hsame ⟨rfl, rfl, rfl, rfl, rfl⟩ (by simp)
  | errorConnecting _ ho =>
    refine hsame ⟨rfl, rfl, rfl, rfl, rfl⟩ (List.all_eq_true.2 fun x hx => ?_)
    obtain ⟨ref, rfl⟩ := ho x hx
    rfl
  | errorReported =>
    refine hsame ⟨rfl, rfl, rfl, rfl, rfl⟩ ?_
    split <;> rfl
  | outputvRefused | outputvAccepted | outputvTimedOut | outputvParked | recvBadarg | recvSent | recvParked
  | cancelSend | cancelRecv | closeAnswered | closeBadarg | closeOpened | validateAnswered | validateWaits
  | validateFailed | stopDeleted | stopped => cases he
  | _ => exact hsame ⟨rfl, rfl, rfl, rfl, rfl⟩ rfl

end UtpHandler

namespace SendReply

/-- The sender is recorded, and told to wait. -/
def parks : SendReply → Bool
  | .wait | .waitFor _ => true
  | _ => false

/-- An answer after which nothing comes. -/
def final : SendReply → Bool
  | .ok | .error _ => true
  | _ => false

end SendReply

namespace Sender

open UtpHandler

variable {p : Pid} {s s' : Sender} {t : SendTrace} {acc : Bool} {rs : List SendReply}

/-! ## What is owed -/

/-- A `retry`, in the mailbox `m` or from a sender that is registered
(`sw`). -/
def RetryOwed (m : List SendReply) (sw : Bool) : Prop := (m = [] ∧ sw = true) ∨ (m = [.retry] ∧ sw = false)

/-- Where the call is, the part of its request that is left, its mailbox and
whether its sender is registered; `acc` says if its data was accepted, and
`rs` what it was answered so far. -/
inductive Owes (p : Pid) (acc : Bool) (rs : List SendReply) :
    SendPhase → Option Pending → List SendReply → Bool → Prop
  | idle : Owes p acc rs .idle .none [] false
  | writing {c n} : acc = false → Owes p acc rs (.replying c) (.some (.write p n)) [] false
  | parking {c} : acc = false → Owes p acc rs (.replying c) (.some (.park p)) [] false
  | answering {c} : acc = true → Owes p acc rs (.replying c) (.some (.reply p .ok)) [] false
  | telling {c r} : acc = false → r.parks = true → Owes p acc rs (.replying c) (.some (.reply p r)) [] true
  | answered {c r} : r.final = true → (r = .ok ↔ acc = true) → rs.getLast? = .some r →
      Owes p acc rs (.replying c) .none [r] false
  | told {c r m sw} : acc = false → r.parks = true → r ∈ rs → RetryOwed m sw →
      Owes p acc rs (.replying c) .none (r :: m) sw
  | retrying {c m sw} : acc = false → RetryOwed m sw → Owes p acc rs (.retrying c) .none m sw
  | retryingFor {c wait tmout m sw} : acc = false → .waitFor tmout ∈ rs → RetryOwed m sw → 0 ≤ wait → wait < 2 ^ 32 →
      Owes p acc rs (.retryingFor c wait) .none m sw
  | expired {c tmout m sw} : acc = false → .waitFor tmout ∈ rs → RetryOwed m sw → Owes p acc rs (.expired c) .none m sw
  | cancelled {c tmout m} : acc = false → .waitFor tmout ∈ rs → (m = [] ∨ m = [.retry]) →
      Owes p acc rs (.cancelled c) .none m false

/-- What the runs keep. -/
structure SendOk (p : Pid) (t : SendTrace) (s : Sender) : Prop where
  only : OnlySends p s.port.h
  owes : Owes p (accepted t) (replies p t) s.phase s.port.pending s.mailbox s.port.h.senderWaiting

theorem RetryOwed.retry {m : List SendReply} (h : RetryOwed m true) : RetryOwed (m ++ [.retry]) false := by
  rcases h with ⟨rfl, -⟩ | ⟨-, hn⟩
  · exact .inr ⟨rfl, rfl⟩
  · cases hn

/-- The `retry` comes, but not before the `wait`. -/
theorem Owes.retry {ph : SendPhase} {c : Option Pending} {m : List SendReply} (h : Owes p acc rs ph c m true)
    (hc : ∀ r, c = .some (.reply p r) → r = .ok) : Owes p acc (rs ++ [.retry]) ph c (m ++ [.retry]) false := by
  cases h with
  | telling _ hr =>
    rw [hc _ rfl] at hr; cases hr
  | told ha hr hmem ho => exact .told ha hr (List.mem_append_left _ hmem) ho.retry
  | retrying ha ho => exact .retrying ha ho.retry
  | retryingFor ha hmem ho h₀ h₁ => exact .retryingFor ha (List.mem_append_left _ hmem) ho.retry h₀ h₁
  | expired ha hmem ho => exact .expired ha (List.mem_append_left _ hmem) ho.retry

/-! ## The steps -/

/-- One process sends, and what else comes to the port is a callback, or asks
or sets options. -/
def OneSender (s : Sender) : SendEvent → Prop
  | .driver (.start e) => e.aside = true ∧ (e.isRequest = true → s.port.pending = .none)
  | _ => True

/-- `{wait, T}` is read when `T` has not passed, and the rest of it is a
timeout; and WRITABLE makes no room between the part of `outputv` that
records the sender and the one that tells it to wait. -/
def InOrder (s : Sender) : SendEvent → Prop
  | .take current _ => ∀ c tmout m, s.phase = .replying c → s.mailbox = .waitFor tmout :: m →
      tdiff current c.start < tmout ∧ waitTime tmout c.start current < 2 ^ 32
  | .driver (.start (.stateChange .writable w)) => ∀ q r, s.port.pending = .some (.reply q r) → r ≠ .ok →
      s.port.h.writeQueue.size ≠ 0 ∧ w.ret s.port.h.writeQueue.size = false
  | _ => True

def SendGuard : Runs.Guard Sender SendEvent SendOut := fun _ s e => OneSender s e ∧ InOrder s e

theorem portCommand_owes (rs : List SendReply) {c : SendArgs} {mem : Mem} {out : SendOut} (hi : OnlySends p s.port.h)
    (hm : s.mailbox = []) (hw : s.port.h.senderWaiting = false) (h : s.portCommand p c mem = .some (s', out)) :
    out.exit = .none ∧ OnlySends p s'.port.h ∧
      Owes p false (rs ++ repliesTo p out.effects) s'.phase s'.port.pending s'.mailbox s'.port.h.senderWaiting := by
  rw [portCommand, request] at h
  split at h
  · cases h
  obtain ⟨⟨port, o⟩, hport, heq⟩ := Option.map_eq_some_iff.1 h
  obtain ⟨rfl, rfl⟩ := Prod.mk.inj heq
  refine ⟨rfl, ?_⟩
  obtain ⟨⟨h₀, c₀⟩, m, ph⟩ := s
  have hw : h₀.senderWaiting = false := hw
  have hm : m = [] := hm
  subst hm
  have hto : ∀ r, repliesTo p [.send (.pid p) (.utpReply r)] = [r] := fun r => by simp [repliesTo]
  cases Port.machine_does hport with
  | whole hp => cases hp
  | sendRefused | sendTimedOut =>
    refine ⟨hi, ?_⟩
    rw [hw, hto]
    exact .answered rfl (by simp) (by simp)
  | sendQueued =>
    refine ⟨⟨hi.receiver, hi.close, fun hn => ?_⟩, ?_⟩
    · cases hw.symm.trans hn
    · rw [hw]
      exact .writing rfl
  | sendNoRoom =>
    refine ⟨hi, ?_⟩
    rw [hw]
    exact .parking rfl

/-- A result: `ok` exactly if the data was accepted; and the last answer of
the driver, or `etimedout` when it gave a timeout. -/
structure Result (p : Pid) (t : SendTrace) (r : SendReply) : Prop where
  ok : r = .ok ↔ accepted t = true
  own : (replies p t).getLast? = .some r ∨ (r = .error .etimedout ∧ ∃ tmout, .waitFor tmout ∈ replies p t)

/-- Nothing is left of a call: in the mailbox, or still to be sent. -/
structure Clean (s : Sender) : Prop where
  mailbox : s.mailbox = []
  sender : s.port.h.senderWaiting = false
  pending : s.port.pending = .none

/-- What a step keeps, and what it does when the call returns. -/
def StepOk (p : Pid) (t : SendTrace) (s : Sender) (e : SendEvent) (out : SendOut) (s' : Sender) : Prop :=
  SendOk p (t ++ [⟨s, e, out⟩]) s' ∧ ∀ r, out.exit = .some (.returned r) → Result p t r ∧ Clean s'

theorem call_step {c : SendArgs} {mem : Mem} {out : SendOut} (hi : SendOk p t s)
    (hm : machine p s (.call c mem) = .some (s', out)) : StepOk p t s (.call c mem) out s' := by
  obtain ⟨⟨h₀, c₀⟩, m, ph⟩ := s
  obtain ⟨honly, howes⟩ := hi
  cases ph with
  | idle =>
    have hnone : m = [] ∧ h₀.senderWaiting = false := by
      generalize h₀.senderWaiting = sw at howes
      cases howes
      exact ⟨rfl, rfl⟩
    obtain ⟨hexit, honly', howes'⟩ := portCommand_owes [] honly hnone.1 hnone.2 hm
    refine ⟨⟨honly', ?_⟩, fun r hr => by rw [hexit] at hr; cases hr⟩
    simpa [SendEvent.isCall] using howes'
  | _ => cases hm

theorem driver_step {e : PortEvent} {out : SendOut} (hi : SendOk p t s) (hg : SendGuard t s (.driver e))
    (hm : machine p s (.driver e) = .some (s', out)) : StepOk p t s (.driver e) out s' := by
  obtain ⟨⟨h, c⟩, m, ph⟩ := s
  obtain ⟨honly, howes⟩ := hi
  obtain ⟨⟨port, o⟩, hport, heq⟩ := Option.map_eq_some_iff.1 hm
  obtain ⟨rfl, rfl⟩ := Prod.mk.inj heq
  refine ⟨?_, nofun⟩
  have hto : ∀ r, repliesTo p [.send (.pid p) (.utpReply r)] = [r] := fun r => by simp [repliesTo]
  simp only at honly howes
  cases Port.machine_does hport with
  | whole hp hst =>
    have hsnoc : ∀ x : Runs.Entry Sender SendEvent SendOut, accepts x = false → x.event.isCall = false →
        accepted (t ++ [x]) = accepted t := fun x ha hc => by simp [ha, hc]
    obtain ⟨honly', htells⟩ := aside_step hst hg.1.1 honly
    refine ⟨honly', ?_⟩
    rw [hsnoc _ rfl rfl, replies_snoc]
    simp only [SendEvent.isCall, Bool.false_eq_true, if_false]
    cases htells with
    | nothing hno hsw => rw [hno, hsw, List.append_nil, List.append_nil]; exact howes
    | retry hret hsw hsw' he hroom =>
      subst he
      rw [hret, hsw']
      rw [hsw] at howes
      refine howes.retry fun r hc => ?_
      by_contra hne
      obtain ⟨hsize, hret⟩ := hg.2 p r hc hne
      rcases hroom with h0 | h1
      · exact hsize h0
      · rw [hret] at h1; cases h1
  | sendRefused | sendQueued | sendTimedOut | sendNoRoom | recvBadarg | recvDrains | recvSent | recvShort
  | validateReads
  | validateAnswered => cases hg.1.1
  | wrote hws =>
    have hun := all_unsent_writes _ hws
    refine ⟨⟨honly.receiver, honly.close, honly.caller⟩, ?_⟩
    generalize UtpHandler.senderWaiting _ = sw at howes ⊢
    cases howes with
    | writing =>
      simp only [replies_snoc, SendEvent.isCall, Bool.false_eq_true, if_false]
      rw [repliesTo_of_unsent p (by simpa [Effect.unsent] using hun), List.append_nil]
      exact .answering (by simp [accepts, SendEvent.isCall])
  | parked =>
    generalize UtpHandler.senderWaiting _ = sw at howes ⊢
    cases howes with
    | parking hacc =>
      refine ⟨⟨honly.receiver, honly.close, fun _ => rfl⟩, ?_⟩
      simp only [replies_snoc, SendEvent.isCall, Bool.false_eq_true, if_false, repliesTo, List.filterMap_nil,
        List.append_nil]
      refine .telling (by simp [accepts, hacc]) ?_
      unfold parkReply
      split <;> rfl
  | replied =>
    refine ⟨honly, ?_⟩
    generalize UtpHandler.senderWaiting _ = sw at howes ⊢
    cases howes with
    | answering hacc =>
      simp only [replies_snoc, SendEvent.isCall, Bool.false_eq_true, if_false, hto]
      exact .answered rfl (by simp [accepts, SendEvent.isCall, hacc]) (by simp)
    | telling hacc hr =>
      simp only [replies_snoc, SendEvent.isCall, Bool.false_eq_true, if_false, hto]
      exact .told (by simp [accepts, hacc]) hr (by simp) (.inl ⟨rfl, rfl⟩)
  | drained | recvParked | validateStored =>
    generalize UtpHandler.senderWaiting _ = sw at howes
    cases howes

theorem SendOk.alone {e : SendEvent} {x : Option SendExit} (honly : OnlySends p s'.port.h) (hc : e.isCall = false)
    (ha : accepts ⟨s, e, ⟨[], x⟩⟩ = false)
    (ho : Owes p (accepted t) (replies p t) s'.phase s'.port.pending s'.mailbox s'.port.h.senderWaiting) :
    SendOk p (t ++ [⟨s, e, ⟨[], x⟩⟩]) s' where
  only := honly
  owes := by
    have hr : repliesTo p [] = [] := rfl
    simpa [hc, ha, hr] using ho

theorem takeRetry_step {c : SendArgs} {current : Timestamp} {mem : Mem} {out : SendOut} (hi : SendOk p t s)
    (hr : accepted t = false) (ho : RetryOwed s.mailbox s.port.h.senderWaiting)
    (hm : s.takeRetry p c mem = .some (s', out)) : StepOk p t s (.take current mem) out s' := by
  rw [takeRetry] at hm
  split at hm
  · next hmem =>
    rcases ho with ⟨hnil, -⟩ | ⟨hbox, hw⟩
    · rw [hnil] at hmem; cases hmem
    have hempty : s.mailbox.erase .retry = [] := by rw [hbox]; rfl
    obtain ⟨hexit, honly, howes⟩ := portCommand_owes (replies p t)
      (s := { s with mailbox := s.mailbox.erase .retry }) hi.only hempty hw hm
    refine ⟨⟨honly, ?_⟩, fun r hr => by rw [hexit] at hr; cases hr⟩
    simpa [SendEvent.isCall, accepts, hr] using howes
  · cases hm

theorem take_step {current : Timestamp} {mem : Mem} {out : SendOut} (hi : SendOk p t s)
    (hg : SendGuard t s (.take current mem)) (hm : machine p s (.take current mem) = .some (s', out)) :
    StepOk p t s (.take current mem) out s' := by
  have howes := hi.owes
  obtain ⟨⟨h, c⟩, m, ph⟩ := s
  simp only at howes
  generalize hsw : h.senderWaiting = sw at howes
  cases howes with
  | idle | expired | cancelled | writing | parking | answering | telling => cases hm
  | @answered c r hfin hok hlast =>
    have hm : takeReply _ c current [r] = .some (s', out) := hm
    have hleave : leave ⟨⟨h, .none⟩, [r], .replying c⟩ [] (.returned r) = .some (s', out) := by
      cases r <;> first | exact hm | cases hfin
    obtain ⟨rfl, rfl⟩ := Prod.mk.inj (Option.some.inj hleave)
    refine ⟨.alone hi.only rfl rfl (by rw [hsw]; exact .idle), fun r' hr' => ?_⟩
    obtain rfl := SendExit.returned.inj (Option.some.inj hr')
    exact ⟨⟨hok, .inl hlast⟩, rfl, hsw, rfl⟩
  | @told c r m sw hacc hpark hmem ho =>
    cases r with
    | wait =>
      obtain ⟨rfl, rfl⟩ := Prod.mk.inj (Option.some.inj hm)
      exact ⟨.alone hi.only rfl rfl (by rw [hsw]; exact .retrying hacc ho), nofun⟩
    | waitFor tmout =>
      obtain ⟨hlt, hbig⟩ := hg.2 c tmout m rfl rfl
      have hm : takeReply _ c current (.waitFor tmout :: m) = .some (s', out) := hm
      rw [takeReply, if_neg (by omega)] at hm
      obtain ⟨rfl, rfl⟩ := Prod.mk.inj (Option.some.inj hm)
      refine ⟨.alone hi.only rfl rfl ?_, nofun⟩
      rw [hsw]
      exact .retryingFor hacc hmem ho (waitTime_nonneg hlt) hbig
    | _ => cases hpark
  | retrying hacc ho => exact takeRetry_step hi hacc (hsw ▸ ho) hm
  | retryingFor hacc _ ho => exact takeRetry_step hi hacc (hsw ▸ ho) hm

theorem expire_step {out : SendOut} (hi : SendOk p t s) (hm : machine p s .expire = .some (s', out)) :
    StepOk p t s .expire out s' := by
  have howes := hi.owes
  obtain ⟨⟨h, c⟩, m, ph⟩ := s
  simp only at howes
  generalize hsw : h.senderWaiting = sw at howes
  cases howes with
  | @retryingFor c wait tmout m sw hacc hmem ho h0 h1 =>
    simp only [machine] at hm
    split at hm
    · cases hm
    · rw [if_pos ⟨h0, h1⟩] at hm
      obtain ⟨rfl, rfl⟩ := Prod.mk.inj (Option.some.inj hm)
      exact ⟨.alone hi.only rfl rfl (by rw [hsw]; exact .expired hacc hmem ho), nofun⟩
  | _ => cases hm

theorem cancel_step {out : SendOut} (hi : SendOk p t s) (hm : machine p s .cancel = .some (s', out)) :
    StepOk p t s .cancel out s' := by
  have howes := hi.owes
  obtain ⟨⟨h, c⟩, m, ph⟩ := s
  simp only at howes
  generalize hsw : h.senderWaiting = sw at howes
  cases howes with
  | @expired c tmout m sw hacc hmem ho =>
    have hm : request p ⟨⟨h, .none⟩, m, .expired c⟩ (.cancelSend p) (.cancelled c) = .some (s', out) := hm
    rw [request, if_neg (by simp)] at hm
    obtain ⟨⟨port, o⟩, hport, heq⟩ := Option.map_eq_some_iff.1 hm
    obtain ⟨rfl, rfl⟩ := Prod.mk.inj heq
    cases Port.machine_does hport with
    | whole _ hst =>
      cases hst
      refine ⟨⟨⟨hi.only.receiver, hi.only.close, nofun⟩, ?_⟩, nofun⟩
      have hbox : m = [] ∨ m = [.retry] := ho.imp And.left And.left
      simpa [SendEvent.isCall, accepts, repliesTo] using .cancelled hacc hmem hbox
  | _ => cases hm

theorem drain_step {out : SendOut} (hi : SendOk p t s) (hm : machine p s .drain = .some (s', out)) :
    StepOk p t s .drain out s' := by
  have howes := hi.owes
  obtain ⟨⟨h, c⟩, m, ph⟩ := s
  simp only at howes
  generalize hsw : h.senderWaiting = sw at howes
  cases howes with
  | @cancelled c tmout m hacc hmem hbox =>
    have hleave : leave ⟨⟨h, .none⟩, m, .cancelled c⟩ [] (.returned (.error .etimedout)) = .some (s', out) := by
      rcases hbox with rfl | rfl <;> exact hm
    obtain ⟨rfl, rfl⟩ := Prod.mk.inj (Option.some.inj hleave)
    refine ⟨.alone hi.only rfl rfl (by rw [hsw]; exact .idle), fun r hr => ?_⟩
    obtain rfl := SendExit.returned.inj (Option.some.inj hr)
    exact ⟨⟨by simp [hacc], .inr ⟨rfl, tmout, hmem⟩⟩, rfl, hsw, rfl⟩
  | _ => cases hm

theorem send_step {e : SendEvent} {out : SendOut} (hi : SendOk p t s) (hg : SendGuard t s e)
    (hm : machine p s e = .some (s', out)) : StepOk p t s e out s' := by
  cases e with
  | call => exact call_step hi hm
  | driver => exact driver_step hi hg hm
  | take => exact take_step hi hg hm
  | expire => exact expire_step hi hm
  | cancel => exact cancel_step hi hm
  | drain => exact drain_step hi hm

/-- When the call returns: its result is the driver's answer to it, and
nothing of it is left. -/
def Leaves (p : Pid) (t : SendTrace) (x : Runs.Entry Sender SendEvent SendOut) : Prop :=
  ∀ r, x.out.exit = .some (.returned r) → Result p t r ∧ Runs.After (machine p) (fun _ s' => Clean s') t x

/-- **`send/2` leaves nothing behind**, in every run in which `{wait, T}` is
read in time and `retry` does not overtake its `wait`: each call that returns
has read all its replies and is not registered any more, and its result is the
answer to its own data. -/
theorem send_leaves_nothing {h₀ : UtpHandler} (hs : Started h₀)
    (run : Runs.Run (machine p) SendGuard [] ⟨⟨h₀, .none⟩, [], .idle⟩ t s) : Runs.Each (Leaves p) t := by
  have hstart : SendOk p [] ⟨⟨h₀, .none⟩, [], .idle⟩ := by
    cases hs <;> exact ⟨⟨rfl, rfl, nofun⟩, .idle⟩
  refine (run.each (I := SendOk p) hstart ?_ .nil).2
  intro t s e s' out hi hg hm
  obtain ⟨hkeep, hreturn⟩ := send_step hi hg hm
  refine ⟨hkeep, fun r hr => ?_⟩
  obtain ⟨hresult, hclean⟩ := hreturn r hr
  exact ⟨hresult, (Runs.after_iff hm).2 hclean⟩

/-- A call that is accepted, and one that waits for a WRITABLE, retries and is
accepted. -/
theorem send_leaves_nothing_retried :
    ∃ t s, Runs.Run (machine 1) SendGuard [] ⟨⟨startServer SockOpts.new 1, .none⟩, [], .idle⟩ t s ∧
      t.length = 14 ∧ s = ⟨s.port, [], .idle⟩ ∧ (t.filter fun x => x.out.exit = .some (.returned .ok)).length = 2 ∧
      Runs.Each (Leaves 1) t := by
  have first := ((((Runs.Run.start (machine 1) SendGuard ⟨⟨startServer SockOpts.new 1, .none⟩, [], .idle⟩).next
      (.call ⟨⟨1, [⟨[7], .none⟩]⟩, ⟨0, 0, 0⟩⟩ fun _ => 0) ⟨trivial, trivial⟩ rfl).next
      (.driver (.resume .nothing)) ⟨trivial, trivial⟩ rfl).next
      (.driver (.resume .nothing)) ⟨trivial, trivial⟩ rfl).next
      (.take ⟨0, 0, 0⟩ fun _ => 0) ⟨trivial, fun _ _ _ _ => nofun⟩ rfl
  have waits := ((((first.next (.call ⟨⟨1, [⟨[8], .none⟩]⟩, ⟨0, 0, 0⟩⟩ fun _ => 0) ⟨trivial, trivial⟩ rfl).next
      (.driver (.resume .nothing)) ⟨trivial, trivial⟩ rfl).next
      (.driver (.resume .nothing)) ⟨trivial, trivial⟩ rfl).next
      (.take ⟨0, 0, 0⟩ fun _ => 0) ⟨trivial, fun _ _ _ _ => nofun⟩ rfl).next
      (.driver (.start (.stateChange .writable .whole))) ⟨⟨rfl, nofun⟩, nofun⟩ rfl
  have run := ((((waits.next (.take ⟨0, 0, 0⟩ fun _ => 0) ⟨trivial, nofun⟩ rfl).next
      (.driver (.resume .whole)) ⟨trivial, trivial⟩ rfl).next (.driver (.resume .whole)) ⟨trivial, trivial⟩ rfl).next
      (.take ⟨0, 0, 0⟩ fun _ => 0) ⟨trivial, fun _ _ _ _ => nofun⟩ rfl).next
      (.driver (.start (.stateChange .writable .whole))) ⟨⟨rfl, nofun⟩, nofun⟩ rfl
  exact ⟨_, _, run, rfl, rfl, by decide, send_leaves_nothing (.server _ 1) run⟩

/-- A `{wait, 5}` read after 5 ms returns with its sender registered; its
`retry` is the result of the next call, which was accepted; and a `retry`
that overtakes its `wait` is a result, with the `wait` left behind. -/
theorem stale_replies :
    (∃ t s x, Runs.Run (machine 1) (fun _ s e => OneSender s e) []
        ⟨⟨startServer { SockOpts.new with sendTmout := 5 } 1, .none⟩, [], .idle⟩ (t ++ [x]) s ∧
      x.out.exit = .some (.returned (.error .etimedout)) ∧ s.port.h.senderWaiting = true) ∧
    (∃ t s x, Runs.Run (machine 1) (fun _ s e => OneSender s e) []
        ⟨⟨startServer { SockOpts.new with sendTmout := 5 } 1, .none⟩, [], .idle⟩ (t ++ [x]) s ∧
      x.out.exit = .some (.returned .retry) ∧ accepted t = true ∧ s.mailbox = [.ok]) ∧
    ∃ t s x, Runs.Run (machine 1) (fun _ s e => OneSender s e) []
        ⟨⟨startServer SockOpts.new 1, .none⟩, [], .idle⟩ (t ++ [x]) s ∧
      x.out.exit = .some (.returned .retry) ∧ accepted t = false ∧ s.mailbox = [.wait] := by
  have timed := ((((((((Runs.Run.start (machine 1) (fun _ s e => OneSender s e)
      ⟨⟨startServer { SockOpts.new with sendTmout := 5 } 1, .none⟩, [], .idle⟩).next
      (.call ⟨⟨1, [⟨[7], .none⟩]⟩, ⟨0, 0, 0⟩⟩ fun _ => 0) trivial rfl).next
      (.driver (.resume .nothing)) trivial rfl).next (.driver (.resume .nothing)) trivial rfl).next
      (.take ⟨0, 0, 0⟩ fun _ => 0) trivial rfl).next
      (.call ⟨⟨1, [⟨[8], .none⟩]⟩, ⟨0, 0, 0⟩⟩ fun _ => 0) trivial rfl).next
      (.driver (.resume .nothing)) trivial rfl).next (.driver (.resume .nothing)) trivial rfl).next
      (.take ⟨0, 0, 5000⟩ fun _ => 0) trivial rfl
  have overtaken := (((((((((Runs.Run.start (machine 1) (fun _ s e => OneSender s e)
      ⟨⟨startServer SockOpts.new 1, .none⟩, [], .idle⟩).next
      (.call ⟨⟨1, [⟨[7], .none⟩]⟩, ⟨0, 0, 0⟩⟩ fun _ => 0) trivial rfl).next
      (.driver (.resume .nothing)) trivial rfl).next (.driver (.resume .nothing)) trivial rfl).next
      (.take ⟨0, 0, 0⟩ fun _ => 0) trivial rfl).next
      (.call ⟨⟨1, [⟨[8], .none⟩]⟩, ⟨0, 0, 0⟩⟩ fun _ => 0) trivial rfl).next
      (.driver (.resume .nothing)) trivial rfl).next
      (.driver (.start (.stateChange .writable .whole))) ⟨rfl, nofun⟩ rfl).next
      (.driver (.resume .nothing)) trivial rfl).next
      (.take ⟨0, 0, 0⟩ fun _ => 0) trivial rfl
  have next := ((((timed.next (.driver (.start (.stateChange .writable .whole))) ⟨rfl, nofun⟩ rfl).next
      (.call ⟨⟨1, [⟨[9], .none⟩]⟩, ⟨0, 0, 9000⟩⟩ fun _ => 0) trivial rfl).next
      (.driver (.resume .whole)) trivial rfl).next (.driver (.resume .whole)) trivial rfl).next
      (.take ⟨0, 0, 9000⟩ fun _ => 0) trivial rfl
  exact ⟨⟨_, _, _, timed, rfl, rfl⟩, ⟨_, _, _, next, rfl, rfl, rfl⟩, _, _, _, overtaken, rfl, rfl, rfl⟩

end Sender

end GenUtp
