/-
`gen_utp:recv/3`: one process that receives from one socket in raw passive
mode (no length header, no list header, `active` false), against the driver.

`recv` is answered with data at once, or parks, and then the next chunk may
answer it, at any moment: while the process waits, after its timeout, while
its `UTP_CANCEL_RECV` is on the way. A `Receiving` is the port, the messages
`{Ref, R}` in the mailbox of the process, and where its call is; the parts of
`recv`, the callbacks of libutp and the steps of the call come in any order.

Each call gets what it asked for (`recv_exact`): its data is the next part of
the stream, a timeout has taken nothing off the queue, and nothing is left of
the call when it returns. The invariant is `Owes`: the bytes of a call are in
the queue while it is registered, and in the mailbox once it is not.

`pkt_size` is a `uint32_t`: a length from `2 ^ 32` on is cut to 32 bits
(`long_recv_cut`). And a timeout from `2 ^ 32` on makes the `receive` raise,
which leaves the call registered.
-/
import GenUtp.ConnectCall
import GenUtp.ReadStream
import GenUtp.SendCall

namespace GenUtp

open Segments

/-! ## The process -/

/-- The arguments of `recv/3`, and the reference it makes; a timeout of
`none` is `infinity`. -/
structure RecvArgs where
  ref : Ref
  length : Nat
  timeout : Option Nat
  deriving DecidableEq, Repr

/-- What `recv/3` returns. -/
inductive RecvResult
  /-- `{ok, Data}` -/
  | ok (data : Payload)
  /-- `ok`, from a message that answers a close. -/
  | done
  | error (e : Errno)
  /-- `{error, closed}`: the request raised `badarg`. -/
  | closed
  deriving DecidableEq, Repr

/-- Where the process is in `recv/3`. -/
inductive RecvPhase
  /-- Not in a call. -/
  | idle
  /-- In `port_control` with `UTP_RECV`. -/
  | calling (c : RecvArgs)
  /-- After `wait`, in the first `receive`. -/
  | waiting (c : RecvArgs)
  /-- The timeout is over, `UTP_CANCEL_RECV` still to come. -/
  | expired (c : RecvArgs)
  /-- In the last `receive`, which does not wait. -/
  | cancelled (c : RecvArgs)
  deriving DecidableEq, Repr

/-- How a call ends: its result, or the error of a timeout that is none. -/
inductive RecvExit
  | returned (r : RecvResult)
  | raised
  deriving DecidableEq, Repr

/-- The messages of the process that carry a reference. -/
abbrev RecvMailbox := List (Ref × RecvResult)

structure Receiving where
  port : Port
  mailbox : RecvMailbox
  phase : RecvPhase
  deriving DecidableEq, Repr

inductive RecvEvent
  | call (c : RecvArgs) (mem : Mem)
  | driver (e : PortEvent)
  /-- The first `receive` finds its message. -/
  | take
  | expire
  | cancel
  | drain

structure RecvOut where
  effects : List Effect
  exit : Option RecvExit
  deriving DecidableEq, Repr

abbrev RecvTrace := Runs.Trace Receiving RecvEvent RecvOut

/-- `term_to_binary({Length, term_to_binary(Ref)})` -/
def recvArgs (c : RecvArgs) : EiBuf := [.version, .tuple 2, .int c.length, .binary c.ref]

/-- A message that matches `{Ref, Reply}` for some reference. -/
def Msg.answer : Msg → Option (Ref × RecvResult)
  | .refOk ref => .some (ref, .done)
  | .refError ref e => .some (ref, .error e)
  | .refData ref data => ref.map fun r => (r, .ok data)
  | _ => .none

/-- The answers among some effects that go to `p`, or to the connected
process. -/
def answersTo (p : Pid) (o : List Effect) : RecvMailbox :=
  o.filterMap fun
    | .output m => m.answer
    | .send (.pid q) m => if q = p then m.answer else .none
    | _ => .none

/-- The pattern `{Ref, Reply}`: the first message that matches, and the
mailbox without it. -/
def receiveRef (ref : Ref) (m : RecvMailbox) : Option (RecvResult × RecvMailbox) :=
  (m.find? fun x => x.1 = ref).map fun x => (x.2, m.eraseP fun x => x.1 = ref)

namespace Receiving

variable (p : Pid)

/-- What the answer of the request makes of the call: `wait`, or `badarg`, the
exception `recv/3` catches. Without an answer the request goes on. -/
def onReply (c : RecvArgs) : Option Reply → RecvPhase × Option RecvExit
  | .none => (.calling c, .none)
  | .some .wait => (.waiting c, .none)
  | .some _ => (.idle, .some (.returned .closed))

/-- The request, up to its first gap. -/
def request (s : Receiving) (c : RecvArgs) (mem : Mem) : Option (Receiving × RecvOut) :=
  if s.port.pending ≠ .none then .none
  else (s.port.machine (.start (.recv p (recvArgs c) mem))).map fun (port, o) =>
    let (phase, exit) := onReply c (replyOf o)
    (⟨port, s.mailbox ++ answersTo p o, phase⟩, ⟨o, exit⟩)

/-- `port_control` with `UTP_CANCEL_RECV`. -/
def cancelRecv (s : Receiving) (c : RecvArgs) : Option (Receiving × RecvOut) :=
  if s.port.pending ≠ .none then .none
  else (s.port.machine (.start (.cancelRecv p))).map fun (port, o) =>
    (⟨port, s.mailbox ++ answersTo p o, .cancelled c⟩, ⟨o, .none⟩)

def leave (s : Receiving) (mailbox : RecvMailbox) (x : RecvExit) : Option (Receiving × RecvOut) :=
  .some (⟨s.port, mailbox, .idle⟩, ⟨[], .some x⟩)

def enter (s : Receiving) (phase : RecvPhase) : Option (Receiving × RecvOut) :=
  .some (⟨s.port, s.mailbox, phase⟩, ⟨[], .none⟩)

def machine (s : Receiving) : RecvEvent → Option (Receiving × RecvOut)
  | .call c mem => match s.phase with
    | .idle => s.request p c mem
    | _ => .none
  | .driver e => (s.port.machine e).map fun (port, o) =>
    let (phase, exit) := match s.phase, e with
      | .calling c, .resume _ => onReply c (replyOf o)
      | phase, _ => (phase, .none)
    (⟨port, s.mailbox ++ answersTo p o, phase⟩, ⟨o, exit⟩)
  | .take => match s.phase with
    | .waiting c => (receiveRef c.ref s.mailbox).bind fun (r, m) => s.leave m (.returned r)
    | _ => .none
  | .expire => match s.phase with
    | .waiting c => match c.timeout with
      | .some timeout =>
        if (receiveRef c.ref s.mailbox).isSome then .none
        -- a timeout is a number of 32 bits
        else if timeout < 2 ^ 32 then s.enter (.expired c)
        else s.leave s.mailbox .raised
      | .none => .none
    | _ => .none
  | .cancel => match s.phase with
    | .expired c => s.cancelRecv p c
    | _ => .none
  | .drain => match s.phase with
    | .cancelled c => match receiveRef c.ref s.mailbox with
      | .some (r, m) => s.leave m (.returned r)
      | .none => s.leave s.mailbox (.returned (.error .etimedout))
    | _ => .none

end Receiving

/-! ## What has come, and what was returned -/

/-- The call in progress. -/
def RecvPhase.args : RecvPhase → Option RecvArgs
  | .calling c | .waiting c | .expired c | .cancelled c => .some c
  | .idle => .none

namespace RecvEvent

/-- The bytes libutp brings. -/
def chunk : RecvEvent → List UInt8
  | .driver (.start e) => e.chunk
  | _ => []

def isCall : RecvEvent → Bool
  | .call .. => true
  | _ => false

end RecvEvent

namespace Receiving

/-- The call a step belongs to. -/
def callOf (x : Runs.Entry Receiving RecvEvent RecvOut) : Option RecvArgs :=
  match x.event with
  | .call c _ => .some c
  | _ => x.pre.phase.args

/-- The references made so far. -/
def used (t : RecvTrace) : List Ref :=
  t.flatMap fun x => match x.event with
    | .call c _ => [c.ref]
    | _ => []

/-- The references of the calls that have ended. -/
def finished (t : RecvTrace) : List Ref :=
  t.flatMap fun x => if x.out.exit.isSome then (callOf x).toList.map RecvArgs.ref else []

/-- The bytes libutp has brought. -/
def arrived (t : RecvTrace) : List UInt8 := t.flatMap fun x => x.event.chunk

/-- The bytes a step returns to the caller. -/
def returns (x : Runs.Entry Receiving RecvEvent RecvOut) : List UInt8 :=
  match x.out.exit with
  | .some (.returned (.ok data)) => data.data.getD []
  | _ => []

def returned (t : RecvTrace) : List UInt8 := t.flatMap returns

/-- What was queued before a step, and what came in it. -/
def queued (x : Runs.Entry Receiving RecvEvent RecvOut) : List UInt8 := x.pre.port.h.queue.flatten ++ x.event.chunk

/-- What the current call found queued, and what has come since. -/
def offered (t : RecvTrace) : List UInt8 :=
  t.foldl (fun l x => if x.event.isCall then queued x else l ++ x.event.chunk) []

/-- What was queued when data was last sent. -/
def served (t : RecvTrace) : List UInt8 :=
  t.foldl (fun l x => if payloads x.out.effects ≠ [] then queued x else l) []

variable {t : RecvTrace} {x : Runs.Entry Receiving RecvEvent RecvOut}

@[simp] theorem used_snoc : used (t ++ [x]) = used t ++ used [x] := by simp [used]
@[simp] theorem arrived_snoc : arrived (t ++ [x]) = arrived t ++ x.event.chunk := by simp [arrived]
@[simp] theorem returned_snoc : returned (t ++ [x]) = returned t ++ returns x := by simp [returned]

@[simp] theorem offered_snoc :
    offered (t ++ [x]) = if x.event.isCall then queued x else offered t ++ x.event.chunk := by
  simp [offered]

theorem callOf_other (hx : x.event.isCall = false) : callOf x = x.pre.phase.args := by
  cases he : x.event with
  | call => simp [he, RecvEvent.isCall] at hx
  | _ => simp [callOf, he]

theorem finished_running (hx : x.out.exit = .none) : finished (t ++ [x]) = finished t := by
  simp [finished, hx]

theorem finished_ended {c : RecvArgs} (hx : x.out.exit.isSome = true) (hc : callOf x = .some c) :
    finished (t ++ [x]) = finished t ++ [c.ref] := by
  simp [finished, hx, hc]

theorem used_other (hx : x.event.isCall = false) : used (t ++ [x]) = used t := by
  rw [used_snoc]
  cases he : x.event with
  | call => simp [he, RecvEvent.isCall] at hx
  | _ => simp [used, he]

@[simp] theorem served_snoc : served (t ++ [x]) = if payloads x.out.effects ≠ [] then queued x else served t := by
  simp [served]

end Receiving

/-! ## The driver in raw passive mode -/

/-- Raw passive options. -/
structure SockOpts.Passive (so : SockOpts) : Prop where
  packet : so.packet = 0
  header : so.header = 0
  active : so.active = .activeFalse

theorem SockOpts.Passive.reverted_eq {so : SockOpts} (h : so.Passive) : so.reverted = so := by
  rw [reverted, if_neg (by simp [h.active])]

namespace UtpHandler

variable {h h' : UtpHandler} {e : Event} {o : List Effect} {p : Pid}

/-- What a `recv` of `len` bytes takes. -/
def amount (h : UtpHandler) (len : Nat) : Nat := if len = 0 then h.sizeq else len

/-- What a `recv` that is answered takes can be said in 32 bits. -/
def FitsCall (h : UtpHandler) (e : Event) : Prop :=
  ∀ g len mem, h.emissionOf e = .some (g, len, mem) → g.deliverable len mem = true → g.amount len < 2 ^ 32

/-- The data message for a `recv`. -/
def rawData (bytes : List UInt8) : Payload := ⟨bytes, bytes.length, 0, .dataBinary⟩

theorem rawData_data {bytes : List UInt8} (hb : bytes.length < 2 ^ 32) : (rawData bytes).data = .some bytes := by
  have htail : (rawData bytes).tailLen = bytes.length := by
    simp only [rawData, Payload.tailLen, Nat.sub_zero, Nat.add_mod_right]
    exact Nat.mod_eq_of_lt hb
  rw [Payload.data, htail]
  simp [rawData]

/-- `bytes` is what a `recv` of `len` bytes takes off `queue`, and `rest` is
left. -/
structure Takes (len : Nat) (queue bytes rest : List UInt8) : Prop where
  split : bytes ++ rest = queue
  some : bytes ≠ []
  small : bytes.length < 2 ^ 32
  exact : 0 < len → bytes.length = len
  all : len = 0 → bytes = queue

/-- **A raw passive delivery** is one message, with what was asked for. -/
theorem Emission.passive {len qsize : Nat} {mem : Mem} {q : Nat} {caller : ErlDrvTermData} {ref : Option Ref}
    (he : Emission h len (.proc caller ref) qsize mem true q o h') (hp : h.sockopts.Passive)
    (hfits : h.amount len < 2 ^ 32) :
    ∃ bytes, o = [.send caller (.refData ref (rawData bytes))] ∧ Takes len h.queue.flatten bytes h'.queue.flatten ∧
      h'.sockopts = h.sockopts := by
  cases he with
  | @sent ms queue rc hd hm =>
    have hann := announced_of_raw hp.packet mem
    simp only [deliverable, decide_eq_true_eq] at hd
    obtain ⟨h0, hlen, -, -⟩ := hd
    rw [delivery, if_neg (not_not.2 hann), if_pos hp.active] at hm
    obtain ⟨rc', -, ht⟩ := Option.bind_eq_some_iff.1 hm
    -- the cut to 32 bits does nothing
    have hk : (if len = 0 then h.sizeq else len) % 2 ^ 32 = h.amount len := Nat.mod_eq_of_lt hfits
    have hle : h.amount len ≤ size h.queue := by
      unfold amount
      split
      · exact Nat.le_refl _
      · exact hlen
    have hpos : 0 < h.amount len := by
      unfold amount
      split <;> omega
    have hlenk := length_takeSegs hle
    rw [hk, takePacket, if_neg (by omega)] at ht
    obtain ⟨rfl, heq⟩ := Prod.mk.inj (Option.some.inj ht)
    obtain ⟨rfl, rfl⟩ := Prod.mk.inj heq
    refine ⟨takeSegs (h.amount len) h.queue, ?_, ⟨takeSegs_append_deqSegs hle, ?_, ?_, ?_, ?_⟩, hp.reverted_eq⟩
    · simp [dataMessages, dataMessage, rawData, hp.header, hlenk]
    · intro hnil
      rw [hnil] at hlenk
      exact absurd hlenk (by simp; omega)
    · rwa [hlenk]
    · intro hl
      rw [hlenk, amount, if_neg (by omega)]
    · intro hl
      rw [takeSegs_eq, amount, if_pos hl]
      exact List.take_length

end UtpHandler

/-- Neither data nor an answer. -/
def Msg.inert : Msg → Bool
  | .utp _ | .refOk _ | .refError .. | .refData .. => false
  | _ => true

def Effect.inert : Effect → Bool
  | .output m | .send _ m => m.inert
  | _ => true

namespace UtpHandler

theorem answersTo_append (p : Pid) (o o' : List Effect) : answersTo p (o ++ o') = answersTo p o ++ answersTo p o' :=
  List.filterMap_append

/-- Inert effects carry nothing. -/
theorem inert_carries (p : Pid) (ho : o.all Effect.inert = true) : answersTo p o = [] ∧ payloads o = [] := by
  have hmsg : ∀ {m : Msg}, m.inert = true → m.answer = .none := by
    intro m hm
    cases m <;> first | rfl | cases hm
  refine ⟨List.filterMap_eq_nil_iff.2 fun x hx => ?_, List.filterMap_eq_nil_iff.2 fun x hx => ?_⟩
  · have hinert := List.all_eq_true.1 ho x hx
    split
    · next m => exact hmsg hinert
    · next q m => rw [hmsg hinert, ite_self]
    · rfl
  · have hinert := List.all_eq_true.1 ho x hx
    unfold Effect.payload
    split <;> first | rfl | cases hinert

@[simp] theorem all_inert_bufferSets (utp : Option UTPSocket) (saved so : SockOpts) :
    (bufferSets utp saved so).all Effect.inert = true :=
  all_bufferSets utp saved so fun _ _ => rfl

@[simp] theorem all_inert_drainedCall (utp : Option UTPSocket) (qsize : Nat) :
    (drainedCall utp qsize).all Effect.inert = true :=
  all_drainedCall utp qsize rfl

@[simp] theorem all_inert_deselect (h : UtpHandler) : h.deselect.all Effect.inert = true :=
  all_deselect h rfl

theorem all_inert_writes (counts : List Nat) {wq wq' : WriteQueue} {ws : List Effect}
    (hw : writes wq counts = .some (ws, wq')) : ws.all Effect.inert = true :=
  all_writes (fun _ _ => rfl) counts hw

theorem CloseUtp.inert (hc : CloseUtp h o h') : o.all Effect.inert = true := by
  cases hc <;> rfl

theorem Flush.inert {w : UtpWrite} (hf : Flush h w o h') : o.all Effect.inert = true :=
  all_flush hf (fun _ => rfl) fun _ _ => rfl

theorem Retry.inert (hr : Retry h o h') : o.all Effect.inert = true := by
  cases hr <;> rfl

/-- Who waits for data, and for how much. -/
structure SameReceiver (h h' : UtpHandler) : Prop where
  receiverWaiting : h'.receiverWaiting = h.receiverWaiting
  caller : h'.caller = h.caller
  callerRef : h'.callerRef = h.callerRef
  recvLen : h'.recvLen = h.recvLen

/-- What the runs keep of the handler: raw passive options, no close, and no
connection that is still set up. -/
structure PassiveOk (h : UtpHandler) : Prop where
  opts : h.sockopts.Passive
  closePending : h.closePending = false
  settled : h.status ≠ .connectPending

/-- The options a `setopts` sets are raw and passive too. -/
def KeepsPassive (h : UtpHandler) : Event → Prop
  | .setopts _ buf numericHost _ => ∀ bin so, decodeBinary buf = .some bin →
      h.sockopts.decodeAndMerge numericHost bin = .ok so → so.Passive
  | _ => True

/-- A step beside the `recv` calls: a chunk is only queued, or answers the
`recv` that waits. -/
inductive Arrival (h : UtpHandler) (e : Event) (o : List Effect) (h' : UtpHandler) : Prop
  | queued : SameReceiver h h' → h'.queue.flatten = h.queue.flatten ++ e.chunk → o.all Effect.inert = true →
      Arrival h e o h'
  | answered {bytes} : h.receiverWaiting = true → h'.receiverWaiting = false →
      Takes h.recvLen (h.queue.flatten ++ e.chunk) bytes h'.queue.flatten →
      (∃ o₁, o = .send h.caller (.refData h.callerRef (rawData bytes)) :: o₁ ∧ o₁.all Effect.inert = true) →
      Arrival h e o h'

/-- **Whatever comes beside the calls** leaves the receiver alone, or answers
it. -/
theorem arrival_step (hs : Step h e o h') (he : e.aside = true) (hi : PassiveOk h) (hk : KeepsPassive h e)
    (hfits : h.FitsCall e) : PassiveOk h' ∧ Arrival h e o h' := by
  have hsettled := settled_step hs hi.settled
  -- nothing but the write side changes
  have hplain : ∀ {h₁ : UtpHandler} {o₁ : List Effect}, h₁.sockopts.Passive → h₁.closePending = h.closePending →
      h₁.status ≠ .connectPending → SameReceiver h h₁ → h₁.queue.flatten = h.queue.flatten ++ e.chunk →
      o₁.all Effect.inert = true → PassiveOk h₁ ∧ Arrival h e o₁ h₁ :=
    fun hso hcp hst hr hq ho => ⟨⟨hso, hcp.trans hi.closePending, hst⟩, .queued hr hq ho⟩
  have hnil : ∀ {q : List (List UInt8)}, q = h.queue → q.flatten = h.queue.flatten ++ [] := by
    rintro _ rfl
    rw [List.append_nil]
  cases hs with
  | setoptsBadarg => exact hplain hi.opts rfl hsettled ⟨rfl, rfl, rfl, rfl⟩ (hnil rfl) rfl
  | setoptsQuiet hd hm =>
    exact hplain (hk _ _ hd hm) rfl hsettled ⟨rfl, rfl, rfl, rfl⟩ (hnil rfl) (by simp [Effect.inert])
  | setoptsEmit hd hm hsend =>
    have hact := (hk _ _ hd hm).active
    rw [hi.opts.active, hact] at hsend
    cases hsend
  | doReadQueued => exact hplain hi.opts rfl hsettled ⟨rfl, rfl, rfl, rfl⟩ (by simp [received, Event.chunk]) rfl
  | doReadShort => exact hplain hi.opts rfl hsettled ⟨rfl, rfl, rfl, rfl⟩ (by simp [received, Event.chunk]) rfl
  | @doReadAnswers bytes mem q o₁ h₁ hb hact hrw hem =>
    have hfit : (h.received bytes).amount h.recvLen < 2 ^ 32 := by
      cases hem with
      | sent hd => exact hfits _ _ _ (emissionOf_answers hb hact hrw) hd
    have hwaits := (hem.proc hact).1
    have hst := hem.life.1
    obtain ⟨got, rfl, htakes, hso⟩ := hem.passive hi.opts hfit
    have hflat : (h.received bytes).queue.flatten = h.queue.flatten ++ bytes := by simp [received]
    rw [hflat] at htakes
    refine ⟨⟨?_, hwaits.closePending.trans hi.closePending, hsettled⟩, .answered hrw rfl htakes ⟨_, rfl, by simp⟩⟩
    exact hso ▸ hi.opts
  | doReadActive _ hact => exact absurd hi.opts.active hact
  | doWrite hws =>
    exact hplain hi.opts rfl hsettled ⟨rfl, rfl, rfl, rfl⟩ (hnil rfl) (all_inert_writes _ hws)
  | eof _ hcl | errorReset _ hcl =>
    have hw := hcl.waits.1
    obtain ⟨hq, -, hso, -⟩ := hcl.readSide
    refine hplain ?_ hw.closePending hsettled ⟨hw.receiverWaiting, hw.caller, hw.callerRef, ?_⟩ (hnil hq) hcl.inert
    · exact hso ▸ hi.opts
    · cases hcl <;> rfl
  | writable hf hr =>
    have hw := hf.waits.1
    obtain ⟨hq₁, -, hso₁, -⟩ := hf.readSide
    obtain ⟨hq₂, -, hso₂, -⟩ := hr.readSide
    refine hplain ?_ ?_ hsettled ?_ (hnil (hq₂.trans hq₁)) (by simp [hf.inert, hr.inert])
    · exact (hso₂.trans hso₁) ▸ hi.opts
    · cases hr <;> exact hw.closePending
    · have hlen : h'.recvLen = h.recvLen := by cases hf <;> cases hr <;> rfl
      cases hr <;> exact ⟨hw.receiverWaiting, hw.caller, hw.callerRef, hlen⟩
  | writableCloses _ _ hcp => cases hi.closePending.symm.trans hcp
  | destroyingAnswers _ _ hcp => cases hi.closePending.symm.trans hcp
  | destroyingNotifies =>
    refine hplain hi.opts rfl hsettled ⟨rfl, rfl, rfl, rfl⟩ (hnil rfl) ?_
    split <;> simp [Effect.inert, Msg.inert]
  | destroyingDeletes =>
    exact hplain hi.opts rfl hsettled ⟨rfl, rfl, rfl, rfl⟩ (hnil rfl) (by simp [Effect.inert])
  | destroyingIgnored => exact hplain hi.opts rfl hsettled ⟨rfl, rfl, rfl, rfl⟩ (hnil rfl) (all_inert_deselect h)
  | connectAnswers _ hst => exact absurd hst hi.settled
  | errorConnecting hst => exact absurd hst hi.settled
  | errorReported =>
    refine hplain hi.opts rfl hsettled ⟨rfl, rfl, rfl, rfl⟩ (hnil rfl) ?_
    split <;> rfl
  | outputvRefused | outputvAccepted | outputvTimedOut | outputvParked | recvBadarg | recvSent | recvParked
  | cancelSend | cancelRecv | closeAnswered | closeBadarg | closeOpened | validateAnswered | validateWaits
  | validateFailed | stopDeleted | stopped => cases he
  | _ => exact hplain hi.opts rfl hsettled ⟨rfl, rfl, rfl, rfl⟩ (hnil rfl) rfl

end UtpHandler

namespace Receiving

open UtpHandler

/-! ## The environment -/

/-- References are made once. What comes beside the calls is the callbacks of
libutp, and requests that ask or set options, one at a time, and keep them
raw and passive. -/
def RecvContract : Runs.Guard Receiving RecvEvent RecvOut := fun t s e =>
  match e with
  | .call c _ => c.ref ∉ used t
  | .driver (.start e) =>
    e.aside = true ∧ (e.isRequest = true → s.port.pending = .none) ∧ KeepsPassive s.port.h e
  | _ => True

/-- What a `recv` takes, and a timeout that is set, are numbers of 32 bits. -/
def Fits (p : Pid) (s : Receiving) : RecvEvent → Prop
  | .call c mem => s.port.h.FitsCall (.recv p (recvArgs c) mem)
  | .driver (.start e) => s.port.h.FitsCall e
  | .expire => ∀ c timeout, s.phase = .waiting c → c.timeout = .some timeout → timeout < 2 ^ 32
  | _ => True

def RecvGuard (p : Pid) : Runs.Guard Receiving RecvEvent RecvOut := fun t s e => RecvContract t s e ∧ Fits p s e

/-! ## The invariant -/

variable {p : Pid} {h₀ : UtpHandler} {t : RecvTrace} {s s' : Receiving}

/-- `bytes` answers the call `c`, when `sv` was queued. -/
structure Answer (c : RecvArgs) (sv bytes : List UInt8) : Prop where
  some : bytes ≠ []
  small : bytes.length < 2 ^ 32
  exact : 0 < c.length → bytes.length = c.length
  all : c.length = 0 → bytes = sv

/-- The handler keeps the call. -/
structure Registered (p : Pid) (c : RecvArgs) (h : UtpHandler) : Prop where
  waiting : h.receiverWaiting = true
  caller : h.caller = .pid p
  callerRef : h.callerRef = .some c.ref
  recvLen : h.recvLen = c.length

/-- Where the call is, the part of its request that is left and its mailbox:
what it was offered (`off`) is in the queue while it is registered or about
to be; after that its answer is in the mailbox, and the rest in the queue. -/
inductive Owes (p : Pid) (h : UtpHandler) (sv off : List UInt8) : RecvPhase → Option Pending → RecvMailbox → Prop
  | idle : h.receiverWaiting = false → Owes p h sv off .idle .none []
  | parking {c} : h.receiverWaiting = false → h.queue.flatten = off →
      Owes p h sv off (.calling c) (.some (.recvPark p c.length c.ref)) []
  | draining {c bytes} : h.receiverWaiting = false → Answer c sv bytes → bytes ++ h.queue.flatten = off →
      Owes p h sv off (.calling c) (.some .drained) [(c.ref, .ok (rawData bytes))]
  | registered {c ph} : (ph = .waiting c ∨ ph = .expired c) → Registered p c h → h.queue.flatten = off →
      Owes p h sv off ph .none []
  | answered {c ph bytes} : (ph = .waiting c ∨ ph = .expired c ∨ ph = .cancelled c) → h.receiverWaiting = false →
      Answer c sv bytes → bytes ++ h.queue.flatten = off → Owes p h sv off ph .none [(c.ref, .ok (rawData bytes))]
  | cancelled {c} : h.receiverWaiting = false → h.queue.flatten = off → Owes p h sv off (.cancelled c) .none []

/-- The bytes in a mailbox. -/
def held (m : RecvMailbox) : List UInt8 :=
  m.flatMap fun x => match x.2 with
    | .ok data => data.data.getD []
    | _ => []

/-- What the runs keep. -/
structure RecvOk (p : Pid) (h₀ : UtpHandler) (t : RecvTrace) (s : Receiving) : Prop where
  passive : PassiveOk s.port.h
  stream : returned t ++ held s.mailbox ++ s.port.h.queue.flatten = h₀.queue.flatten ++ arrived t
  owes : Owes p s.port.h (served t) (offered t) s.phase s.port.pending s.mailbox
  past : ∀ ref ∈ finished t, ref ∈ used t
  present : ∀ c, s.phase.args = .some c → c.ref ∈ used t ∧ c.ref ∉ finished t

/-- When the call `c` has returned `r`: its data is what it asked for, and
the next part of the stream; a timeout has left the queue as it was; and
nothing of the call is left. -/
structure Exact (h₀ : UtpHandler) (c : RecvArgs) (r : RecvResult) (t : RecvTrace) (s : Receiving) : Prop where
  data : ∀ data, r = .ok data → ∃ bytes, data.data = .some bytes ∧ bytes ≠ [] ∧
    (0 < c.length → bytes.length = c.length) ∧ (c.length = 0 → bytes = served t) ∧
    bytes ++ s.port.h.queue.flatten = offered t
  timeout : r = .error .etimedout → s.port.h.queue.flatten = offered t
  stream : returned t ++ s.port.h.queue.flatten = h₀.queue.flatten ++ arrived t
  clean : s.mailbox = [] ∧ s.port.h.receiverWaiting = false ∧ s.port.pending = .none

/-- What a step does: it keeps the invariant, a call that returns in it is
exact, and it sends nothing for a call that has ended. -/
structure StepOk (p : Pid) (h₀ : UtpHandler) (t : RecvTrace) (s : Receiving) (e : RecvEvent) (out : RecvOut)
    (s' : Receiving) : Prop where
  keeps : RecvOk p h₀ (t ++ [⟨s, e, out⟩]) s'
  exact : ∀ c r, callOf ⟨s, e, out⟩ = .some c → out.exit = .some (.returned r) →
    Exact h₀ c r (t ++ [⟨s, e, out⟩]) s'
  late : ∀ ref ∈ finished t, ∀ a ∈ answersTo p out.effects, a.1 ≠ ref

theorem held_answer {ref : Ref} {bytes : List UInt8} (hb : bytes.length < 2 ^ 32) :
    held [(ref, .ok (rawData bytes))] = bytes := by
  simp [held, rawData_data hb]

theorem Owes.unregistered {h : UtpHandler} {sv off : List UInt8} {c : Option Pending} {m : RecvMailbox}
    (ho : Owes p h sv off .idle c m) : h.receiverWaiting = false ∧ c = .none ∧ m = [] := by
  cases ho with
  | idle hrw => exact ⟨hrw, rfl, rfl⟩
  | registered hor => rcases hor with hn | hn <;> cases hn
  | answered hor => rcases hor with hn | hn | hn <;> cases hn

/-! ## The steps -/

theorem ulongval_nat {n : Nat} {d : EiBuf} {r : Nat × EiBuf} (h : EiDecoder.ulongval (.int n :: d) = .some r) :
    r = (n, d) := by
  rw [EiDecoder.ulongval] at h
  split at h
  · exact (Option.some.inj h).symm
  · cases h

theorem decodeRecv_recvArgs {c : RecvArgs} {len : Nat} {ref : Ref} (hd : decodeRecv (recvArgs c) = .some (len, ref)) :
    len = c.length ∧ ref = c.ref := by
  simp only [decodeRecv, Option.bind_eq_bind, Option.bind_eq_some_iff] at hd
  obtain ⟨d, hstart, ⟨arity, d₂⟩, htuple, hd⟩ := hd
  obtain rfl := Option.some.inj hstart
  obtain ⟨rfl, rfl⟩ := Prod.mk.inj (Option.some.inj htuple)
  have hd : ((EiDecoder.ulongval [.int c.length, .binary c.ref]).bind fun x =>
      (EiDecoder.binary x.2).bind fun y => .some (x.1, y.1)) = .some (len, ref) := hd
  obtain ⟨x, hx, hd⟩ := Option.bind_eq_some_iff.1 hd
  obtain rfl := ulongval_nat hx
  obtain ⟨y, hy, heq⟩ := Option.bind_eq_some_iff.1 hd
  obtain rfl := Option.some.inj hy
  obtain ⟨rfl, rfl⟩ := Prod.mk.inj (Option.some.inj heq)
  exact ⟨rfl, rfl⟩

/-- What a request that sends data sends, and what it leaves. -/
theorem serve_step {h h' : UtpHandler} {c : RecvArgs} {mem : Mem} {len : Nat} {ref : Ref} {q : Nat} {o : List Effect}
    (hp : PassiveOk h) (hg : Fits p ⟨⟨h, .none⟩, [], .idle⟩ (.call c mem))
    (hd : decodeRecv (recvArgs c) = .some (len, ref))
    (he : Emission h len (.proc (.pid p) (.some ref)) 1 mem true q o h') :
    ∃ bytes, o = [.send (.pid p) (.refData (.some c.ref) (rawData bytes))] ∧ Answer c h.queue.flatten bytes ∧
      bytes ++ h'.queue.flatten = h.queue.flatten ∧ PassiveOk h' ∧ h'.receiverWaiting = h.receiverWaiting := by
  obtain ⟨rfl, rfl⟩ := decodeRecv_recvArgs hd
  have hfit : h.amount c.length < 2 ^ 32 := by
    cases he with
    | sent hdel => exact hg _ _ _ (emissionOf_recv hp.opts.active hd) hdel
  have hw := (he.proc hp.opts.active).1
  have hst := he.life.1
  obtain ⟨bytes, rfl, htakes, hso⟩ := he.passive hp.opts hfit
  refine ⟨bytes, rfl, ⟨htakes.some, htakes.small, htakes.exact, htakes.all⟩, htakes.split, ⟨?_, ?_, ?_⟩,
    hw.receiverWaiting⟩
  · exact hso ▸ hp.opts
  · exact hw.closePending.trans hp.closePending
  · exact hst ▸ hp.settled

theorem goes_on {e : RecvEvent} {o : List Effect} (hi : RecvOk p h₀ t s) (he : e.isCall = false)
    (hph : s'.phase.args = s.phase.args) (hpass : PassiveOk s'.port.h)
    (hbytes : held s'.mailbox ++ s'.port.h.queue.flatten = held s.mailbox ++ (s.port.h.queue.flatten ++ e.chunk))
    (howes : Owes p s'.port.h (if payloads o ≠ [] then s.port.h.queue.flatten ++ e.chunk else served t)
      (offered t ++ e.chunk) s'.phase s'.port.pending s'.mailbox)
    (hlate : ∀ a ∈ answersTo p o, ∃ c, s.phase.args = .some c ∧ a.1 = c.ref) :
    StepOk p h₀ t s e ⟨o, .none⟩ s' := by
  refine ⟨⟨hpass, ?_, ?_, ?_, ?_⟩, nofun, ?_⟩
  · have hret : returns ⟨s, e, ⟨o, .none⟩⟩ = [] := rfl
    simp only [returned_snoc, arrived_snoc, hret, List.append_nil]
    rw [List.append_assoc, hbytes, ← List.append_assoc (h₀.queue.flatten), ← hi.stream]
    simp only [List.append_assoc]
  · simpa [queued, he] using howes
  · rw [finished_running rfl, used_other he]
    exact hi.past
  · rw [finished_running rfl, used_other he, hph]
    exact hi.present
  · intro ref href a ha heq
    obtain ⟨c, hc, hac⟩ := hlate a ha
    exact (hi.present c hc).2 (hac ▸ heq ▸ href)

theorem ends {e : RecvEvent} {c : RecvArgs} {r : RecvResult} (hi : RecvOk p h₀ t s) (he : e.isCall = false)
    (hc : s.phase.args = .some c) (hchunk : e.chunk = []) (hpend : s.port.pending = .none)
    (hrw : s.port.h.receiverWaiting = false)
    (hret : returns ⟨s, e, ⟨[], .some (.returned r)⟩⟩ = held s.mailbox)
    (hdata : ∀ data, r = .ok data → ∃ bytes, data.data = .some bytes ∧ Answer c (served t) bytes ∧
      bytes ++ s.port.h.queue.flatten = offered t)
    (htimeout : r = .error .etimedout → s.port.h.queue.flatten = offered t) :
    StepOk p h₀ t s e ⟨[], .some (.returned r)⟩ ⟨s.port, [], .idle⟩ := by
  have hcall : callOf ⟨s, e, ⟨[], .some (.returned r)⟩⟩ = .some c := (callOf_other he).trans hc
  have hserved : served (t ++ [⟨s, e, ⟨[], .some (.returned r)⟩⟩]) = served t := by simp
  have hoffered : offered (t ++ [⟨s, e, ⟨[], .some (.returned r)⟩⟩]) = offered t := by simp [he, hchunk]
  have hstream : returned (t ++ [⟨s, e, ⟨[], .some (.returned r)⟩⟩]) ++ s.port.h.queue.flatten =
      h₀.queue.flatten ++ arrived (t ++ [⟨s, e, ⟨[], .some (.returned r)⟩⟩]) := by
    simpa only [returned_snoc, arrived_snoc, hret, hchunk, List.append_nil] using hi.stream
  refine ⟨⟨hi.passive, ?_, ?_, ?_, nofun⟩, ?_, fun _ _ _ => nofun⟩
  · simpa [held] using hstream
  · rw [hserved, hoffered, hpend]
    exact .idle hrw
  · intro ref href
    rw [finished_ended rfl hcall] at href
    rw [used_other he]
    rcases List.mem_append.1 href with href | href
    · exact hi.past ref href
    · rw [List.mem_singleton.1 href]
      exact (hi.present c hc).1
  · intro c' r' hc' hr'
    obtain rfl := Option.some.inj (hcall.symm.trans hc')
    obtain rfl := RecvExit.returned.inj (Option.some.inj hr')
    refine ⟨fun data hd => ?_, fun hr => hoffered ▸ htimeout hr, hstream, rfl, hrw, hpend⟩
    obtain ⟨bytes, hb, hans, hoff⟩ := hdata data hd
    exact ⟨bytes, hb, hans.some, hans.exact, fun hl => hserved ▸ hans.all hl, hoffered ▸ hoff⟩

theorem starts {h : UtpHandler} {c : RecvArgs} {mem : Mem} {port : Port} {o : List Effect} {m : RecvMailbox}
    {ph : RecvPhase} (hi : RecvOk p h₀ t ⟨⟨h, .none⟩, [], .idle⟩)
    (hg : RecvGuard p t ⟨⟨h, .none⟩, [], .idle⟩ (.call c mem)) (hph : ph.args = .some c) (hm : m = answersTo p o)
    (hall : ∀ a ∈ m, a.1 = c.ref) (hpass : PassiveOk port.h)
    (hbytes : held m ++ port.h.queue.flatten = h.queue.flatten)
    (howes : Owes p port.h (if payloads o ≠ [] then h.queue.flatten else served t) h.queue.flatten ph port.pending m) :
    StepOk p h₀ t ⟨⟨h, .none⟩, [], .idle⟩ (.call c mem) ⟨o, .none⟩ ⟨port, m, ph⟩ := by
  have hnew : c.ref ∉ used t := hg.1
  refine ⟨⟨hpass, ?_, ?_, ?_, ?_⟩, nofun, ?_⟩
  · simp only [returned_snoc, arrived_snoc, returns, RecvEvent.chunk, List.append_nil, List.append_assoc, hbytes]
    simpa [held] using hi.stream
  · simpa [queued, RecvEvent.isCall, RecvEvent.chunk] using howes
  · intro ref href
    rw [finished_running rfl] at href
    rw [used_snoc]
    exact List.mem_append_left _ (hi.past ref href)
  · intro c' hc'
    obtain rfl := Option.some.inj (hph.symm.trans hc')
    rw [finished_running rfl]
    exact ⟨by simp [used], fun href => hnew (hi.past _ href)⟩
  -- the reference is new, so it is none of those that have ended
  · intro ref href a ha heq
    exact hnew (hi.past _ (by rw [← hall a (hm ▸ ha), heq]; exact href))

theorem call_step {c : RecvArgs} {mem : Mem} {out : RecvOut} (hi : RecvOk p h₀ t s)
    (hg : RecvGuard p t s (.call c mem)) (hm : machine p s (.call c mem) = .some (s', out)) :
    StepOk p h₀ t s (.call c mem) out s' := by
  obtain ⟨⟨h, pend⟩, m, ph⟩ := s
  cases ph with
  | idle =>
    obtain ⟨hrw, rfl, rfl⟩ := hi.owes.unregistered
    have hpass : PassiveOk h := hi.passive
    have hm : request p ⟨⟨h, .none⟩, [], .idle⟩ c mem = .some (s', out) := hm
    rw [request, if_neg (by simp)] at hm
    obtain ⟨⟨port, o⟩, hport, heq⟩ := Option.map_eq_some_iff.1 hm
    obtain ⟨rfl, rfl⟩ := Prod.mk.inj heq
    cases Port.machine_does hport with
    | whole hp => cases hp
    | recvBadarg =>
      have hstream : returned t ++ h.queue.flatten = h₀.queue.flatten ++ arrived t := by simpa [held] using hi.stream
      refine ⟨⟨hpass, ?_, ?_, ?_, nofun⟩, ?_, fun _ _ _ => nofun⟩
      · simpa [returns, RecvEvent.chunk, onReply, replyOf, answersTo, held] using hstream
      · exact .idle hrw
      · intro ref href
        rw [finished_ended (c := c) rfl rfl] at href
        rw [used_snoc]
        rcases List.mem_append.1 href with href | href
        · exact List.mem_append_left _ (hi.past ref href)
        · exact List.mem_append_right _ href
      · intro c' r hc' hr
        obtain rfl := RecvExit.returned.inj (Option.some.inj hr)
        refine ⟨fun _ hd => ?_, fun he => ?_, ?_, rfl, hrw, rfl⟩
        · cases hd
        · cases he
        · simpa [returns, RecvEvent.chunk, onReply, replyOf] using hstream
    | recvDrains hact hd hem =>
      obtain ⟨bytes, rfl, hans, hsplit, hpass', hrw'⟩ := serve_step hpass hg.2 hd hem
      have hm' : answersTo p [.send (.pid p) (.refData (.some c.ref) (rawData bytes))] =
          [(c.ref, .ok (rawData bytes))] := by
        simp [answersTo, Msg.answer]
      simp only [hm', List.nil_append]
      refine starts hi hg rfl hm'.symm (by simp) hpass' ?_ ?_
      · rwa [held_answer hans.small]
      · exact .draining (hrw'.trans hrw) hans hsplit
    | recvSent hact hd hem =>
      obtain ⟨bytes, rfl, hans, hsplit, hpass', hrw'⟩ := serve_step hpass hg.2 hd hem
      have hm' : answersTo p [.send (.pid p) (.refData (.some c.ref) (rawData bytes)), .reply .wait] =
          [(c.ref, .ok (rawData bytes))] := by
        simp [answersTo, Msg.answer]
      simp only [List.cons_append, List.nil_append, hm']
      refine starts hi hg rfl hm'.symm (by simp) hpass' ?_ ?_
      · rwa [held_answer hans.small]
      · exact .answered (.inl rfl) (hrw'.trans hrw) hans hsplit
    | recvShort hact hd hem =>
      obtain ⟨rfl, rfl⟩ := decodeRecv_recvArgs hd
      cases hem with
      | closed hcp => cases hpass.closePending.symm.trans hcp
      | held => exact starts hi hg rfl rfl (by simp [answersTo]) hpass rfl (.parking hrw rfl)
  | _ => cases hm

theorem Owes.queued {h h' : UtpHandler} {sv off bytes : List UInt8} {ph : RecvPhase} {c : Option Pending}
    {m : RecvMailbox} (ho : Owes p h sv off ph c m) (hr : SameReceiver h h')
    (hq : h'.queue.flatten = h.queue.flatten ++ bytes) : Owes p h' sv (off ++ bytes) ph c m := by
  cases ho with
  | idle hrw => exact .idle (hr.receiverWaiting.trans hrw)
  | parking hrw hoff => exact .parking (hr.receiverWaiting.trans hrw) (hoff ▸ hq)
  | draining hrw hans hoff =>
    exact .draining (hr.receiverWaiting.trans hrw) hans (by rw [hq, ← hoff, List.append_assoc])
  | registered hor hreg hoff =>
    refine .registered hor ⟨?_, ?_, ?_, ?_⟩ (hoff ▸ hq)
    · exact hr.receiverWaiting.trans hreg.waiting
    · exact hr.caller.trans hreg.caller
    · exact hr.callerRef.trans hreg.callerRef
    · exact hr.recvLen.trans hreg.recvLen
  | answered hor hrw hans hoff =>
    exact .answered hor (hr.receiverWaiting.trans hrw) hans (by rw [hq, ← hoff, List.append_assoc])
  | cancelled hrw hoff => exact .cancelled (hr.receiverWaiting.trans hrw) (hoff ▸ hq)

/-- Only a registered call has a receiver that waits. -/
theorem Owes.waits {h : UtpHandler} {sv off : List UInt8} {ph : RecvPhase} {c : Option Pending} {m : RecvMailbox}
    (ho : Owes p h sv off ph c m) (hw : h.receiverWaiting = true) :
    ∃ a, (ph = .waiting a ∨ ph = .expired a) ∧ Registered p a h ∧ h.queue.flatten = off ∧ c = .none ∧ m = [] := by
  cases ho with
  | registered hor hreg hoff => exact ⟨_, hor, hreg, hoff, rfl, rfl⟩
  | idle hrw | parking hrw | draining hrw | answered _ hrw | cancelled hrw => cases hrw.symm.trans hw

theorem Owes.expire {h : UtpHandler} {sv off : List UInt8} {a : RecvArgs} {c : Option Pending} {m : RecvMailbox}
    (ho : Owes p h sv off (.waiting a) c m) : Owes p h sv off (.expired a) c m := by
  cases ho with
  | registered hor hreg hoff =>
    rcases hor with hor | hor
    · obtain rfl := RecvPhase.waiting.inj hor
      exact .registered (.inr rfl) hreg hoff
    · cases hor
  | answered hor hrw hans hoff =>
    rcases hor with hor | hor | hor
    · obtain rfl := RecvPhase.waiting.inj hor
      exact .answered (.inr (.inl rfl)) hrw hans hoff
    · cases hor
    · cases hor

theorem Owes.cancel {h : UtpHandler} {sv off : List UInt8} {a : RecvArgs} {c : Option Pending} {m : RecvMailbox}
    (ho : Owes p h sv off (.expired a) c m) : Owes p h.resetWaitingRecv sv off (.cancelled a) c m := by
  cases ho with
  | registered hor hreg hoff => exact .cancelled rfl hoff
  | answered hor hrw hans hoff =>
    rcases hor with hor | hor | hor
    · cases hor
    · obtain rfl := RecvPhase.expired.inj hor
      exact .answered (.inr (.inr rfl)) rfl hans hoff
    · cases hor

theorem machine_start {e : Event} : machine p s (.driver (.start e)) = (s.port.machine (.start e)).map fun x =>
    (⟨x.1, s.mailbox ++ answersTo p x.2, s.phase⟩, ⟨x.2, .none⟩) := by
  obtain ⟨port, m, ph⟩ := s
  cases ph <;> rfl

theorem machine_starts {port port' : Port} {m : RecvMailbox} {ph : RecvPhase} {e : Event} {o : List Effect}
    (hm : port.machine (.start e) = .some (port', o)) :
    machine p ⟨port, m, ph⟩ (.driver (.start e)) = .some (⟨port', m ++ answersTo p o, ph⟩, ⟨o, .none⟩) := by
  rw [machine_start, hm]
  rfl

theorem machine_resume {port : Port} {m : RecvMailbox} {c : RecvArgs} {w : UtpWrite} :
    machine p ⟨port, m, .calling c⟩ (.driver (.resume w)) = (port.machine (.resume w)).map fun x =>
      (⟨x.1, m ++ answersTo p x.2, (onReply c (replyOf x.2)).1⟩, ⟨x.2, (onReply c (replyOf x.2)).2⟩) := rfl

theorem start_step {e : Event} {out : RecvOut} (hi : RecvOk p h₀ t s) (hg : RecvGuard p t s (.driver (.start e)))
    (hm : machine p s (.driver (.start e)) = .some (s', out)) : StepOk p h₀ t s (.driver (.start e)) out s' := by
  rw [machine_start] at hm
  obtain ⟨⟨port, o⟩, hport, heq⟩ := Option.map_eq_some_iff.1 hm
  obtain ⟨rfl, rfl⟩ := Prod.mk.inj heq
  obtain ⟨⟨haside, -, hkeeps⟩, hfits⟩ := hg
  obtain ⟨⟨h, pend⟩, m, ph⟩ := s
  have hs := Port.machine_does hport
  cases hs with
  | whole _ hst =>
    obtain ⟨hpass, harr⟩ := arrival_step hst haside hi.passive hkeeps hfits
    cases harr with
    | queued hr hq ho =>
      obtain ⟨hnone, hpay⟩ := inert_carries p ho
      refine goes_on hi rfl rfl hpass ?_ ?_ ?_
      · simp only [hnone, List.append_nil]
        rw [hq]
        rfl
      · simpa [hnone, hpay, RecvEvent.chunk] using hi.owes.queued hr hq
      · simp [hnone]
    | @answered bytes hrw hrw' htakes ho =>
      obtain ⟨c, hor, hreg, hoff, rfl, rfl⟩ := hi.owes.waits hrw
      obtain ⟨o₁, rfl, ho₁⟩ := ho
      obtain ⟨hnone, -⟩ := inert_carries p ho₁
      have hans : answersTo p (.send h.caller (.refData h.callerRef (rawData bytes)) :: o₁) =
          [(c.ref, .ok (rawData bytes))] := by
        rw [← List.singleton_append, answersTo_append, hnone, hreg.caller, hreg.callerRef]
        simp [answersTo, Msg.answer]
      have hargs : ph.args = .some c := by rcases hor with rfl | rfl <;> rfl
      refine goes_on hi rfl rfl hpass ?_ ?_ ?_
      · simp only [hans, List.nil_append, held_answer htakes.small, htakes.split]
        rfl
      · rw [if_pos (by simp [payloads, Effect.payload])]
        simp only [hans, List.nil_append]
        refine .answered (hor.imp_right .inl) hrw' ⟨htakes.some, htakes.small, ?_, ?_⟩ ?_
        · exact hreg.recvLen ▸ htakes.exact
        · exact hreg.recvLen ▸ htakes.all
        · exact hoff ▸ htakes.split
      · intro a ha
        rw [hans] at ha
        exact ⟨c, hargs, by rw [List.mem_singleton.1 ha]⟩
  | _ => cases haside

theorem resume_step {w : UtpWrite} {out : RecvOut} (hi : RecvOk p h₀ t s)
    (hm : machine p s (.driver (.resume w)) = .some (s', out)) : StepOk p h₀ t s (.driver (.resume w)) out s' := by
  have howes := hi.owes
  obtain ⟨⟨h, pend⟩, m, ph⟩ := s
  simp only at howes
  generalize hoff : offered t = off at howes
  generalize hsv : served t = sv at howes
  cases howes with
  | parking hrw hq =>
    rw [machine_resume] at hm
    obtain ⟨⟨port, o⟩, hport, heq⟩ := Option.map_eq_some_iff.1 hm
    obtain ⟨rfl, rfl⟩ := Prod.mk.inj heq
    cases Port.machine_does hport
    have hpass := hi.passive
    refine goes_on hi rfl rfl ⟨hpass.opts, hpass.closePending, hpass.settled⟩ ?_ ?_ (by simp [answersTo])
    · simp [answersTo, RecvEvent.chunk]
    · rw [hoff]
      exact .registered (.inl rfl) ⟨rfl, rfl, rfl, rfl⟩ (hq.trans (List.append_nil _).symm)
  | draining hrw hans hq =>
    rw [machine_resume] at hm
    obtain ⟨⟨port, o⟩, hport, heq⟩ := Option.map_eq_some_iff.1 hm
    obtain ⟨rfl, rfl⟩ := Prod.mk.inj heq
    cases Port.machine_does hport
    refine goes_on hi rfl rfl hi.passive ?_ ?_ (by simp [answersTo])
    · simp [answersTo, RecvEvent.chunk]
    · rw [hoff]
      exact .answered (.inl rfl) hrw (hsv.symm ▸ hans) (hq.trans (List.append_nil _).symm)
  | _ =>
    rw [machine] at hm
    obtain ⟨⟨port, o⟩, hport, heq⟩ := Option.map_eq_some_iff.1 hm
    cases hport

theorem receiveRef_answer {c : RecvArgs} {bytes : List UInt8} :
    receiveRef c.ref [(c.ref, .ok (rawData bytes))] = .some (.ok (rawData bytes), []) := by
  simp [receiveRef]

theorem returns_answer {e : RecvEvent} {c : RecvArgs} {ph : RecvPhase} {port : Port} {m : RecvMailbox}
    {bytes : List UInt8} (hi : RecvOk p h₀ t ⟨port, m, ph⟩) (he : e.isCall = false) (hchunk : e.chunk = [])
    (hc : ph.args = .some c) (hm : m = [(c.ref, .ok (rawData bytes))]) (hpend : port.pending = .none)
    (hrw : port.h.receiverWaiting = false) (hans : Answer c (served t) bytes)
    (hoff : bytes ++ port.h.queue.flatten = offered t) :
    StepOk p h₀ t ⟨port, m, ph⟩ e ⟨[], .some (.returned (.ok (rawData bytes)))⟩ ⟨port, [], .idle⟩ := by
  subst hm
  refine ends hi he hc hchunk hpend hrw ?_ ?_ nofun
  · rw [held_answer hans.small]
    simp [returns, rawData_data hans.small]
  · intro data hdata
    cases hdata
    exact ⟨bytes, rawData_data hans.small, hans, hoff⟩

theorem take_step {out : RecvOut} (hi : RecvOk p h₀ t s) (hm : machine p s .take = .some (s', out)) :
    StepOk p h₀ t s .take out s' := by
  have howes := hi.owes
  obtain ⟨⟨h, pend⟩, m, ph⟩ := s
  simp only at howes
  generalize hoff : offered t = off at howes
  generalize hsv : served t = sv at howes
  cases howes with
  | registered hor => rcases hor with rfl | rfl <;> cases hm
  | @answered c ph bytes hor hrw hans hq =>
    rcases hor with rfl | rfl | rfl
    · simp only [machine, receiveRef_answer] at hm
      obtain ⟨rfl, rfl⟩ := Prod.mk.inj (Option.some.inj hm)
      exact returns_answer hi rfl rfl rfl rfl rfl hrw (hsv.symm ▸ hans) (hq.trans hoff.symm)
    · cases hm
    · cases hm
  | _ => cases hm

theorem expire_step {out : RecvOut} (hi : RecvOk p h₀ t s) (hg : RecvGuard p t s .expire)
    (hm : machine p s .expire = .some (s', out)) : StepOk p h₀ t s .expire out s' := by
  have howes := hi.owes
  obtain ⟨⟨h, pend⟩, m, ph⟩ := s
  cases ph with
  | waiting c =>
    rcases htime : c.timeout with _ | timeout
    · simp [machine, htime] at hm
    have h32 : timeout < 2 ^ 32 := hg.2 c timeout rfl htime
    simp only [machine, htime] at hm
    split at hm
    · cases hm
    obtain ⟨rfl, rfl⟩ := Prod.mk.inj (Option.some.inj hm)
    refine goes_on hi rfl rfl hi.passive ?_ ?_ (by simp [answersTo])
    · simp [RecvEvent.chunk]
    · simpa [RecvEvent.chunk] using howes.expire
  | _ => cases hm

theorem cancel_step {out : RecvOut} (hi : RecvOk p h₀ t s) (hm : machine p s .cancel = .some (s', out)) :
    StepOk p h₀ t s .cancel out s' := by
  have howes := hi.owes
  obtain ⟨⟨h, pend⟩, m, ph⟩ := s
  cases ph with
  | expired c =>
    have hpend : pend = .none := by cases howes <;> rfl
    subst hpend
    have hm : cancelRecv p ⟨⟨h, .none⟩, m, .expired c⟩ c = .some (s', out) := hm
    rw [cancelRecv, if_neg (by simp)] at hm
    obtain ⟨⟨port, o⟩, hport, heq⟩ := Option.map_eq_some_iff.1 hm
    obtain ⟨rfl, rfl⟩ := Prod.mk.inj heq
    cases Port.machine_does hport with
    | whole _ hst =>
      cases hst
      have hpass := hi.passive
      refine goes_on hi rfl rfl ⟨hpass.opts, hpass.closePending, hpass.settled⟩ ?_ ?_ (by simp [answersTo])
      · simp [answersTo, RecvEvent.chunk, resetWaitingRecv]
      · simpa [answersTo, payloads, Effect.payload, RecvEvent.chunk] using howes.cancel
  | _ => cases hm

theorem drain_step {out : RecvOut} (hi : RecvOk p h₀ t s) (hm : machine p s .drain = .some (s', out)) :
    StepOk p h₀ t s .drain out s' := by
  have howes := hi.owes
  obtain ⟨⟨h, pend⟩, m, ph⟩ := s
  simp only at howes
  generalize hoff : offered t = off at howes
  generalize hsv : served t = sv at howes
  cases howes with
  | registered hor => rcases hor with rfl | rfl <;> cases hm
  | answered hor hrw hans hq =>
    rcases hor with rfl | rfl | rfl
    · cases hm
    · cases hm
    · simp only [machine, receiveRef_answer] at hm
      obtain ⟨rfl, rfl⟩ := Prod.mk.inj (Option.some.inj hm)
      exact returns_answer hi rfl rfl rfl rfl rfl hrw (hsv.symm ▸ hans) (hq.trans hoff.symm)
  | cancelled hrw hq =>
    obtain ⟨rfl, rfl⟩ := Prod.mk.inj (Option.some.inj hm)
    exact ends hi rfl rfl rfl rfl hrw rfl nofun fun _ => hq.trans hoff.symm
  | _ => cases hm

theorem recv_step {e : RecvEvent} {out : RecvOut} (hi : RecvOk p h₀ t s) (hg : RecvGuard p t s e)
    (hm : machine p s e = .some (s', out)) : StepOk p h₀ t s e out s' := by
  cases e with
  | call => exact call_step hi hg hm
  | driver e =>
    cases e with
    | start => exact start_step hi hg hm
    | resume => exact resume_step hi hm
  | take => exact take_step hi hm
  | expire => exact expire_step hi hg hm
  | cancel => exact cancel_step hi hm
  | drain => exact drain_step hi hm

theorem Owes.addressed {h : UtpHandler} {sv off : List UInt8} {ph : RecvPhase} {c : Option Pending} {m : RecvMailbox}
    (ho : Owes p h sv off ph c m) : ∀ a ∈ m, ∃ c, ph.args = .some c ∧ a.1 = c.ref := by
  cases ho with
  | @draining c => simp [RecvPhase.args]
  | @answered c _ _ hor => rcases hor with rfl | rfl | rfl <;> simp [RecvPhase.args]
  | _ => nofun

/-- When a call returns it is exact; and nothing is sent for a call that has
ended. -/
def Serves (p : Pid) (h₀ : UtpHandler) (t : RecvTrace) (x : Runs.Entry Receiving RecvEvent RecvOut) : Prop :=
  (∀ c r, callOf x = .some c → x.out.exit = .some (.returned r) → Runs.After (machine p) (Exact h₀ c r) t x) ∧
    ∀ ref ∈ finished t, ∀ a ∈ answersTo p x.out.effects, a.1 ≠ ref

/-- **`recv/3` is exact**, in every run in which what is taken, and a timeout
that is set, are numbers of 32 bits: each call that returns has what it asked
for, the next part of the stream, or has taken nothing; and no message for it
is in the mailbox then, or is sent later. -/
theorem recv_exact (hp : PassiveOk h₀) (hr : h₀.receiverWaiting = false)
    (run : Runs.Run (machine p) (RecvGuard p) [] ⟨⟨h₀, .none⟩, [], .idle⟩ t s) :
    Runs.Each (Serves p h₀) t ∧ ∀ a ∈ s.mailbox, a.1 ∉ finished t := by
  have hstart : RecvOk p h₀ [] ⟨⟨h₀, .none⟩, [], .idle⟩ :=
    ⟨hp, by simp [returned, arrived, held], .idle hr, nofun, nofun⟩
  have hrun : RecvOk p h₀ t s ∧ Runs.Each (Serves p h₀) t := by
    refine run.each (I := RecvOk p h₀) hstart ?_ .nil
    intro t s e s' out hi hg hm
    obtain ⟨hkeep, hexact, hlate⟩ := recv_step hi hg hm
    exact ⟨hkeep, fun c r hc hx => (Runs.after_iff hm).2 (hexact c r hc hx), hlate⟩
  obtain ⟨hi, heach⟩ := hrun
  refine ⟨heach, fun a ha href => ?_⟩
  obtain ⟨c, hc, heq⟩ := hi.owes.addressed a ha
  exact (hi.present c hc).2 (heq ▸ href)

/-- An accepted connection in raw passive mode. -/
def passiveServer : UtpHandler := startServer { SockOpts.new with active := .activeFalse } 1

/-- A chunk that comes between the timeout and the cancel answers the call; the
next call takes the rest, and the third times out. -/
theorem recv_exact_crossing :
    ∃ t s, Runs.Run (machine 1) (RecvGuard 1) [] ⟨⟨passiveServer, .none⟩, [], .idle⟩ t s ∧
      t.length = 15 ∧
      t.filterMap (fun x => x.out.exit) = [.returned (.ok (rawData [1, 2, 3])), .returned (.ok (rawData [4])),
        .returned (.error .etimedout)] ∧
      Runs.Each (Serves 1 passiveServer) t ∧
      ∀ a ∈ s.mailbox, a.1 ∉ finished t := by
  have first := ((((((((Runs.Run.start (machine 1) (RecvGuard 1) ⟨⟨passiveServer, .none⟩, [], .idle⟩).next
      (.call ⟨[7], 3, .some 5⟩ fun _ => 0)
      ⟨show [7] ∉ ([] : List Ref) by decide, by rintro _ _ _ ⟨⟩ hd; cases hd⟩ rfl).next
      (.driver (.resume .nothing)) ⟨trivial, trivial⟩ rfl).next
      (.driver (.start (.doRead [1, 2] fun _ => 0))) ⟨⟨rfl, nofun, trivial⟩, by rintro _ _ _ ⟨⟩ -; decide⟩ rfl).next
      .expire ⟨trivial, by rintro _ _ ⟨⟩ ⟨⟩; decide⟩ rfl).next
      (.driver (.start (.doRead [3, 4] fun _ => 0))) ⟨⟨rfl, nofun, trivial⟩, by rintro _ _ _ ⟨⟩ -; decide⟩ rfl).next
      .cancel ⟨trivial, trivial⟩ rfl).next .drain ⟨trivial, trivial⟩ rfl)
  have second := ((first.next (.call ⟨[8], 0, .none⟩ fun _ => 0)
      ⟨show [8] ∉ ([[7]] : List Ref) by decide, by rintro _ _ _ ⟨⟩ -; decide⟩ rfl).next
      (.driver (.resume .nothing)) ⟨trivial, trivial⟩ rfl).next .take ⟨trivial, trivial⟩ rfl
  have third := ((((second.next (.call ⟨[9], 1, .some 0⟩ fun _ => 0)
      ⟨show [9] ∉ ([[7], [8]] : List Ref) by decide, by rintro _ _ _ ⟨⟩ hd; cases hd⟩ rfl).next
      (.driver (.resume .nothing)) ⟨trivial, trivial⟩ rfl).next .expire ⟨trivial, by rintro _ _ ⟨⟩ ⟨⟩; decide⟩ rfl).next
      .cancel ⟨trivial, trivial⟩ rfl).next .drain ⟨trivial, trivial⟩ rfl
  exact ⟨_, _, third, rfl, rfl, recv_exact ⟨⟨rfl, rfl, rfl⟩, rfl, nofun⟩ rfl third⟩

theorem emitReadBuffer_cut {h : UtpHandler} {bytes : List UInt8} {mem : Mem} {p : Pid} {ref : Ref} {k : Nat}
    (hp : PassiveOk h) (hq : h.queue = [bytes]) (hc : h.readCount = [bytes.length])
    (hk : bytes.length % 2 ^ 32 = k) (hpos : 0 < k) (hlong : 2 ^ 32 ≤ bytes.length) :
    h.emitReadBuffer bytes.length (.proc (.pid p) (.some ref)) 1 mem =
      .some ⟨true, bytes.length - k, { h with
        queue := deqSegs k [bytes], readCount := [bytes.length - k]
        out := h.out ++ [.send (.pid p) (.refData (.some ref) ⟨bytes.take k, k, 0, .dataBinary⟩)] }⟩ := by
  have hlt : k < 2 ^ 32 := hk ▸ Nat.mod_lt _ (by decide)
  have hraw : h.announced mem = 0 := announced_of_raw hp.opts.packet mem
  have hpacket := hp.opts.packet
  have hsize : h.sizeq = bytes.length := by simp [sizeq, size, hq]
  have hd : h.deliverable bytes.length mem = true := by
    simp only [deliverable, decide_eq_true_eq, hsize, hraw]
    omega
  have hred : reduceReadCount k 0 [bytes.length] = .some [bytes.length - k] := by
    rw [reduceReadCount, if_pos hpos, if_pos (by omega), Nat.zero_add]
  have hdel : h.delivery bytes.length mem = .some ([(bytes.take k, k)], deqSegs k [bytes], [bytes.length - k]) := by
    rw [delivery, if_neg (not_not.2 hraw), if_pos hp.opts.active]
    simp only [if_neg (show bytes.length ≠ 0 by omega), hk, hc, hred, hq, Option.bind_some]
    rw [takePacket, takeSegs_eq, List.flatten_singleton, if_neg]
    rw [List.length_take]
    omega
  have hleft : size (deqSegs k [bytes]) = bytes.length - k := by
    have hle : k ≤ size [bytes] := by simp [size]; omega
    rw [deqSegs_eq hle, size_dropSegs]
    simp [size]
  rw [emitReadBuffer_eq, if_neg (by simp [hp.closePending]), if_pos hd, hdel, Option.map_some]
  simp [dataMessages, dataMessage, delivered, hp.opts.header, hp.opts.reverted_eq, hleft]

theorem doRead_cut {h : UtpHandler} {c : Option Pending} {bytes : List UInt8} {mem : Mem} {ref : Ref} {k : Nat}
    (hp : PassiveOk h) (hw : h.receiverWaiting = true) (hcaller : h.caller = .pid p) (href : h.callerRef = .some ref)
    (hlen : h.recvLen = bytes.length) (hq : h.queue = []) (hc : h.readCount = [])
    (hk : bytes.length % 2 ^ 32 = k) (hpos : 0 < k) (hlong : 2 ^ 32 ≤ bytes.length) :
    Port.machine ⟨h, c⟩ (.start (.doRead bytes mem)) =
      .some (⟨{ h with queue := deqSegs k [bytes], readCount := [bytes.length - k] }.resetWaitingRecv, c⟩,
        [.send (.pid p) (.refData (.some ref) ⟨bytes.take k, k, 0, .dataBinary⟩)]) := by
  have hlt : k < 2 ^ 32 := hk ▸ Nat.mod_lt _ (by decide)
  have hleft : bytes.length - k ≠ 0 := by omega
  have hem : emitReadBuffer { h with queue := [bytes], readCount := [bytes.length], out := [] } bytes.length
      (.proc (.pid p) (.some ref)) 1 mem = _ :=
    emitReadBuffer_cut ⟨hp.opts, hp.closePending, hp.settled⟩ rfl rfl hk hpos hlong
  have hread : doRead { h with out := [] } bytes mem =
      .some { h with
        queue := deqSegs k [bytes], readCount := [bytes.length - k], receiverWaiting := false, recvLen := 0
        callerRef := .none, caller := .zero
        out := [.send (.pid p) (.refData (.some ref) ⟨bytes.take k, k, 0, .dataBinary⟩)] } := by
    simp only [doRead, if_pos (show bytes.length ≠ 0 by omega), driverEnq, hp.opts.active, hw, hq, hc, hcaller, href,
      hlen, if_true, List.nil_append]
    simp only [hw, hcaller, href, hlen] at hem
    rw [hem]
    simp [hleft, resetWaitingRecv]
  simp [Port.machine, Port.step, Event.inParts, handle, hread, resetWaitingRecv]

/-- With a `recv` of `2 ^ 32 + 1` bytes. -/
def waitingServer : UtpHandler :=
  { passiveServer with callerRef := .some [7], caller := .pid 1, recvLen := 4294967297, receiverWaiting := true }

/-- A `recv` of `2 ^ 32 + 1` bytes is answered with one. -/
theorem long_recv_cut :
    ∃ t s, Runs.Run (machine 1) RecvContract [] ⟨⟨passiveServer, .none⟩, [], .idle⟩ t s ∧
      ¬Runs.Each (Serves 1 passiveServer) t := by
  obtain ⟨bytes, hb⟩ : ∃ bytes : List UInt8, bytes.length = 4294967297 :=
    ⟨List.replicate 4294967297 0, List.length_replicate⟩
  obtain ⟨t, run⟩ : ∃ t, Runs.Run (machine 1) RecvContract [] ⟨⟨passiveServer, .none⟩, [], .idle⟩ t
      ⟨⟨waitingServer, .none⟩, [], .waiting ⟨[7], 4294967297, .none⟩⟩ :=
    ⟨_, ((Runs.Run.start (machine 1) RecvContract ⟨⟨passiveServer, .none⟩, [], .idle⟩).next
      (.call ⟨[7], 4294967297, .none⟩ fun _ => 0) (show [7] ∉ ([] : List Ref) by decide) rfl).next
      (.driver (.resume .nothing)) trivial rfl⟩
  have hread : Port.machine ⟨waitingServer, .none⟩ (.start (.doRead bytes fun _ => 0)) = _ :=
    doRead_cut (k := 1) ⟨⟨rfl, rfl, rfl⟩, rfl, nofun⟩ rfl rfl rfl hb.symm rfl rfl (by omega) (by decide) (by omega)
  have run := (run.next (.driver (.start (.doRead bytes fun _ => 0))) ⟨rfl, nofun, trivial⟩ (machine_starts hread)).next
    .take trivial rfl
  refine ⟨_, _, run, fun heach => ?_⟩
  have hserves := (heach _ _ [] rfl).1 ⟨[7], 4294967297, .none⟩ _ rfl rfl
  obtain ⟨got, hgot, -, hexact, -⟩ := (hserves _ rfl).data _ rfl
  have hone : (bytes.take 1).length = 1 := by
    rw [List.length_take]
    omega
  have hpay : (rawData (bytes.take 1)).data = .some got := by
    rw [rawData, hone]
    exact hgot
  rw [rawData_data (by omega)] at hpay
  obtain rfl := Option.some.inj hpay
  have hlong : (bytes.take 1).length = 4294967297 := hexact (by decide)
  omega

end Receiving

end GenUtp
