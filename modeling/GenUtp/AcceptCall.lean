/-
`gen_utp:accept/2`: one process that accepts on one listener, among any
others.

The driver sends `{utp_async, Sock, Ref, Reply}` on two paths, with
`{ok, NewPort}` for a connection and `{error, E}` where `connect` fails on the
new UDP socket; both `receive`s of `accept/2` have the pattern `{ok, _}` only.
An `Accepting` is the listener, the messages in the mailbox of the process,
and where its call is; what the others do to the listener comes as driver
events, in any order with the steps of the call.

An `{error, E}` stays in the mailbox, and the call waits on or returns
`etimedout`; and a timeout from `2 ^ 32` on makes the `receive` raise, which
leaves the call in the queue (`error_not_received`). In every run without
either, each call takes the message that was sent to it for its result, and
leaves nothing (`accept_agrees`). The invariant is `Stands`: a call in
progress is queued and was sent nothing, or it was sent one `{ok, NewPort}`.
-/
import GenUtp.Acceptors

namespace GenUtp

/-! ## The process -/

/-- Where the process is in `accept/2`; a timeout of `none` is `infinity`. -/
inductive AcceptPhase
  /-- Not in a call. -/
  | idle
  | waiting (ref : Ref) (timeout : Option Nat)
  /-- The timeout is over, `UTP_CANCEL_ACCEPT` still to come. -/
  | expired (ref : Ref)
  /-- In the last `receive`, which does not wait. -/
  | cancelled (ref : Ref)
  /-- The process is dead. -/
  | exited
  deriving DecidableEq, Repr

/-- The reference of the call in progress. -/
def AcceptPhase.ref : AcceptPhase → Option Ref
  | .waiting ref _ | .expired ref | .cancelled ref => .some ref
  | .idle | .exited => .none

/-- The call has sent `UTP_CANCEL_ACCEPT`. -/
def AcceptPhase.hasCancelled : AcceptPhase → Bool
  | .cancelled _ => true
  | _ => false

/-- The messages of the process that carry a reference. -/
abbrev Mailbox := List (Ref × AsyncReply)

structure Accepting where
  listener : Listener
  mailbox : Mailbox
  phase : AcceptPhase
  deriving DecidableEq, Repr

inductive AcceptEvent
  | call (ref : Ref) (timeout : Option Nat) (monitored : Bool)
  | driver (e : ListenerEvent)
  /-- The first `receive` finds its message. -/
  | take
  | expire
  | cancel
  | drain
  | exit

/-- How a call ends: its result, or the error of a timeout that is none. -/
inductive AcceptExit
  | returned (r : AsyncReply)
  | raised
  deriving DecidableEq, Repr

/-- The effects of a step, and the end of the call if it is the last. -/
structure AcceptOut where
  effects : List ListenerEffect
  exit : Option AcceptExit
  deriving DecidableEq, Repr

abbrev AcceptTrace := Runs.Trace Accepting AcceptEvent AcceptOut

/-- The messages of a step that go to `p`. -/
def messagesTo (p : Pid) (ms : List (Acceptor × AsyncReply)) : Mailbox :=
  ms.filterMap fun m => if m.1.caller = p then .some (m.1.ref, m.2) else .none

/-- The pattern `{utp_async, Sock, Ref, {ok, _}}`: the first message that
matches, and the mailbox without it. -/
def receiveOk (ref : Ref) : Mailbox → Option (ErlDrvPort × Mailbox)
  | [] => .none
  | (r, .ok newPort) :: m =>
    if r = ref then .some (newPort, m) else (receiveOk ref m).map fun (q, m') => (q, (r, .ok newPort) :: m')
  | x :: m => (receiveOk ref m).map fun (q, m') => (q, x :: m')

namespace Accepting

def leave (s : Accepting) (mailbox : Mailbox) (x : AcceptExit) : Option (Accepting × AcceptOut) :=
  .some (⟨s.listener, mailbox, .idle⟩, ⟨[], .some x⟩)

def enter (s : Accepting) (phase : AcceptPhase) : Option (Accepting × AcceptOut) :=
  .some (⟨s.listener, s.mailbox, phase⟩, ⟨[], .none⟩)

/-- `async_accept/2`. An empty answer, and `badarg`, are `{error, einval}`. -/
def asyncAccept (p : Pid) (s : Accepting) (ref : Ref) (timeout : Option Nat) (monitored : Bool) :
    Option (Accepting × AcceptOut) :=
  let (l, o) := s.listener.accept p (refArgs ref) monitored
  if .reply (.okRef ref) ∈ o then .some (⟨l, s.mailbox, .waiting ref timeout⟩, ⟨o, .none⟩)
  else .some (⟨l, s.mailbox, .idle⟩, ⟨o, .some (.returned (.error .einval))⟩)

/-- `port_control` with `UTP_CANCEL_ACCEPT`. -/
def cancelAccept (s : Accepting) (ref : Ref) : Option (Accepting × AcceptOut) :=
  let (l, o) := s.listener.cancelAccept (refArgs ref)
  if .reply .badarg ∈ o then .some (⟨l, s.mailbox, .idle⟩, ⟨o, .some (.returned (.error .einval))⟩)
  else .some (⟨l, s.mailbox, .cancelled ref⟩, ⟨o, .none⟩)

def machine (p : Pid) (s : Accepting) : AcceptEvent → Option (Accepting × AcceptOut)
  | .call ref timeout monitored => match s.phase with
    | .idle => s.asyncAccept p ref timeout monitored
    | _ => .none
  | .driver e => (s.listener.machine e).map fun (l, o) =>
    (⟨l, if s.phase = .exited then [] else s.mailbox ++ messagesTo p (asyncs o), s.phase⟩, ⟨o, .none⟩)
  | .take => match s.phase with
    | .waiting ref _ => (receiveOk ref s.mailbox).bind fun (newPort, m) => s.leave m (.returned (.ok newPort))
    | _ => .none
  | .expire => match s.phase with
    | .waiting ref (.some timeout) =>
      if (receiveOk ref s.mailbox).isSome then .none
      -- a timeout is a number of 32 bits
      else if timeout < 2 ^ 32 then s.enter (.expired ref)
      else s.leave s.mailbox .raised
    | _ => .none
  | .cancel => match s.phase with
    | .expired ref => s.cancelAccept ref
    | _ => .none
  | .drain => match s.phase with
    | .cancelled ref => match receiveOk ref s.mailbox with
      | .some (newPort, m) => s.leave m (.returned (.ok newPort))
      | .none => s.leave s.mailbox (.returned (.error .etimedout))
    | _ => .none
  | .exit => if s.phase = .exited then .none else .some (⟨s.listener, [], .exited⟩, ⟨[], .none⟩)

end Accepting

/-! ## What was asked, sent and returned -/

/-- The references a step asks with. -/
def AcceptEvent.asks : AcceptEvent → List Ref
  | .call ref _ _ => [ref]
  | .driver (.accept _ buf _) => (decodeBinary buf).toList
  | _ => []

/-- The replies among some messages that are for a reference. -/
def repliesFor (ref : Ref) (ms : List (Acceptor × AsyncReply)) : List AsyncReply :=
  ms.filterMap fun m => if m.1.ref = ref then .some m.2 else .none

/-- The replies in the mailbox for a reference. -/
def inbox (ref : Ref) (m : Mailbox) : List AsyncReply :=
  m.filterMap fun m => if m.1 = ref then .some m.2 else .none

namespace Accepting

def used (t : AcceptTrace) : List Ref := t.flatMap fun x => x.event.asks

/-- What the driver has sent for a reference, to whomever. -/
def sent (ref : Ref) (t : AcceptTrace) : List AsyncReply := t.flatMap fun x => repliesFor ref (asyncs x.out.effects)

/-- The reference of the call that ends in a step. -/
def returns (x : Runs.Entry Accepting AcceptEvent AcceptOut) : List Ref :=
  match x.out.exit, x.event with
  | .none, _ => []
  | .some _, .call ref _ _ => [ref]
  | .some _, _ => x.pre.phase.ref.toList

def returned (t : AcceptTrace) : List Ref := t.flatMap returns

@[simp] theorem used_snoc (t : AcceptTrace) (x : Runs.Entry Accepting AcceptEvent AcceptOut) :
    used (t ++ [x]) = used t ++ x.event.asks := by
  simp [used]

@[simp] theorem sent_snoc (ref : Ref) (t : AcceptTrace) (x : Runs.Entry Accepting AcceptEvent AcceptOut) :
    sent ref (t ++ [x]) = sent ref t ++ repliesFor ref (asyncs x.out.effects) := by
  simp [sent]

@[simp] theorem returned_snoc (t : AcceptTrace) (x : Runs.Entry Accepting AcceptEvent AcceptOut) :
    returned (t ++ [x]) = returned t ++ returns x := by
  simp [returned]

/-! ## The environment -/

/-- References are made once; nobody else cancels the reference of a call; and
the runtime reports the exit of a process that is dead. -/
def AcceptContract (p : Pid) : Runs.Guard Accepting AcceptEvent AcceptOut := fun t s e =>
  match e with
  | .call ref _ _ => ref ∉ used t
  | .driver (.accept _ buf _) => ∀ ref ∈ decodeBinary buf, ref ∉ used t
  | .driver (.cancelAccept _ buf) => ∀ ref ∈ decodeBinary buf, s.phase.ref ≠ .some ref
  | .driver (.processExited q) => q = p → s.phase = .exited
  | _ => True

/-- A datagram that answers the call in progress finds no error of
`connect`. -/
def Connects (p : Pid) (s : Accepting) (e : AcceptEvent) : Prop :=
  match e with
  | .driver (.inputReady d) => ∀ ref rest, s.phase.ref = .some ref → s.listener.acceptorQueue = ⟨p, ref⟩ :: rest →
    0 < d.len → ∀ err, connectAnswer d.connect ≠ .some (.failed err)
  | _ => True

/-- A timeout that is over is one that `receive` knows. -/
def Timely (s : Accepting) (e : AcceptEvent) : Prop :=
  match e with
  | .expire => ∀ ref timeout, s.phase = .waiting ref (.some timeout) → timeout < 2 ^ 32
  | _ => True

def AcceptGuard (p : Pid) : Runs.Guard Accepting AcceptEvent AcceptOut := fun t s e =>
  AcceptContract p t s e ∧ Connects p s e ∧ Timely s e

/-! ## The mailbox -/

theorem inbox_append (ref : Ref) (m m' : Mailbox) : inbox ref (m ++ m') = inbox ref m ++ inbox ref m' :=
  List.filterMap_append

theorem receiveOk_some {ref : Ref} {newPort : ErlDrvPort} {m m' : Mailbox} (h : receiveOk ref m = .some (newPort, m')) :
    ∃ m₁ m₂, m = m₁ ++ (ref, .ok newPort) :: m₂ ∧ m' = m₁ ++ m₂ := by
  induction m generalizing m' with
  | nil => cases h
  | cons x m ih =>
    -- a message that does not match stays in front
    have hskip : (receiveOk ref m).map (fun (q, m') => (q, x :: m')) = .some (newPort, m') →
        ∃ m₁ m₂, x :: m = m₁ ++ (ref, .ok newPort) :: m₂ ∧ m' = m₁ ++ m₂ := by
      intro hmap
      obtain ⟨⟨q, m''⟩, hrest, heq⟩ := Option.map_eq_some_iff.1 hmap
      obtain ⟨rfl, rfl⟩ := Prod.mk.inj heq
      obtain ⟨m₁, m₂, rfl, rfl⟩ := ih hrest
      exact ⟨x :: m₁, m₂, rfl, rfl⟩
    obtain ⟨r, reply⟩ := x
    cases reply with
    | ok q =>
      rw [receiveOk] at h
      split at h
      · next hr =>
        obtain ⟨rfl, rfl⟩ := Prod.mk.inj (Option.some.inj h)
        exact ⟨[], m, by rw [hr]; rfl, rfl⟩
      · exact hskip h
    | error e => exact hskip h

theorem receiveOk_ne_none {ref : Ref} {m : Mailbox} {newPort : ErlDrvPort} (h : .ok newPort ∈ inbox ref m) :
    receiveOk ref m ≠ .none := by
  induction m with
  | nil => cases h
  | cons x m ih =>
    obtain ⟨r, reply⟩ := x
    cases reply with
    | ok q =>
      rw [receiveOk]
      split
      · exact Option.some_ne_none _
      · next hr =>
        have hrest : AsyncReply.ok newPort ∈ inbox ref m := by simpa [inbox, hr] using h
        simpa using ih hrest
    | error e =>
      have hrest : AsyncReply.ok newPort ∈ inbox ref m := by
        by_cases hr : r = ref
        · simpa [inbox, hr] using h
        · simpa [inbox, hr] using h
      simpa [receiveOk] using ih hrest

/-- The one `{ok, _}` for a reference: it is taken out, and nothing else. -/
theorem receiveOk_one {ref : Ref} {newPort : ErlDrvPort} {m : Mailbox} (h : inbox ref m = [.ok newPort]) :
    ∃ m', receiveOk ref m = .some (newPort, m') ∧ inbox ref m' = [] ∧
      ∀ ref', inbox ref' m = [] → inbox ref' m' = [] := by
  have hmem : AsyncReply.ok newPort ∈ inbox ref m := by
    rw [h]
    exact List.mem_singleton_self _
  obtain ⟨⟨q, m'⟩, hrec⟩ := Option.ne_none_iff_exists'.1 (receiveOk_ne_none hmem)
  obtain ⟨m₁, m₂, rfl, rfl⟩ := receiveOk_some hrec
  have hsplit : ∀ r, inbox r (m₁ ++ (ref, .ok q) :: m₂) = inbox r m₁ ++ (inbox r [(ref, .ok q)] ++ inbox r m₂) :=
    fun r => by rw [inbox_append, ← inbox_append r [_] m₂]; rfl
  have hone : inbox ref m₁ ++ .ok q :: inbox ref m₂ = [.ok newPort] := by
    rw [← h, hsplit]
    simp [inbox]
  obtain ⟨h₁, hq, h₂⟩ : inbox ref m₁ = [] ∧ q = newPort ∧ inbox ref m₂ = [] := by
    rcases hm : inbox ref m₁ with - | ⟨a, as⟩
    · rw [hm] at hone
      simpa using hone
    · rw [hm] at hone
      simp at hone
  subst hq
  refine ⟨_, hrec, by rw [inbox_append, h₁, h₂]; rfl, fun ref' h' => ?_⟩
  rw [hsplit] at h'
  simp only [List.append_eq_nil_iff] at h'
  rw [inbox_append, h'.1, h'.2.2]
  rfl

theorem receiveOk_empty {ref : Ref} {m : Mailbox} (h : inbox ref m = []) : receiveOk ref m = .none := by
  by_contra hne
  obtain ⟨⟨q, m'⟩, hrec⟩ := Option.ne_none_iff_exists'.1 hne
  obtain ⟨m₁, m₂, rfl, rfl⟩ := receiveOk_some hrec
  simp [inbox] at h

/-! ## The invariant -/

variable {p : Pid} {t : AcceptTrace} {s s' : Accepting} {l : Listener} {o : List ListenerEffect} {ref : Ref}

/-- How a call stands that was sent `rs`: it is queued, or it is not and was
sent its connection, or it has cancelled in time. -/
inductive Stands (p : Pid) (ref : Ref) (q : List Acceptor) : Bool → List AsyncReply → Prop
  | queued : ⟨p, ref⟩ ∈ q → Stands p ref q false []
  | cancelled : (∀ a ∈ q, a.ref ≠ ref) → Stands p ref q true []
  | answered {c newPort} : (∀ a ∈ q, a.ref ≠ ref) → Stands p ref q c [.ok newPort]

/-- Nothing of a reference is left. -/
def Gone (ref : Ref) (s : Accepting) : Prop :=
  (∀ a ∈ s.listener.acceptorQueue, a.ref ≠ ref) ∧ inbox ref s.mailbox = []

structure AcceptOk (p : Pid) (t : AcceptTrace) (s : Accepting) : Prop where
  distinct : (s.listener.acceptorQueue.map Acceptor.ref).Nodup
  known : ∀ a ∈ s.listener.acceptorQueue, a.ref ∈ used t
  fresh : ∀ ref, ref ∉ used t → sent ref t = [] ∧ inbox ref s.mailbox = []
  gone : ∀ ref ∈ returned t, ref ∈ used t ∧ Gone ref s
  call : ∀ ref, s.phase.ref = .some ref → ref ∈ used t ∧ inbox ref s.mailbox = sent ref t ∧
    Stands p ref s.listener.acceptorQueue s.phase.hasCancelled (sent ref t)

/-! ## What the driver does to a call -/

theorem inbox_messagesTo_of_ne {a : Acceptor} {r : AsyncReply} (h : a.ref ≠ ref) :
    inbox ref (messagesTo p [(a, r)]) = [] := by
  by_cases hc : a.caller = p <;> simp [inbox, messagesTo, hc, h]

theorem repliesFor_of_ne {a : Acceptor} {r : AsyncReply} (h : a.ref ≠ ref) : repliesFor ref [(a, r)] = [] := by
  simp [repliesFor, h]

/-- The mailbox after the messages of a step. -/
def delivered (p : Pid) (s : Accepting) (ms : List (Acceptor × AsyncReply)) : Mailbox :=
  if s.phase = .exited then [] else s.mailbox ++ messagesTo p ms

theorem inbox_delivered_nil {ms : List (Acceptor × AsyncReply)} (h : inbox ref s.mailbox = [])
    (hm : inbox ref (messagesTo p ms) = []) : inbox ref (delivered p s ms) = [] := by
  unfold delivered
  split
  · rfl
  · rw [inbox_append, h, hm]; rfl

theorem inbox_delivered {ms : List (Acceptor × AsyncReply)} (h : s.phase.ref = .some ref) :
    inbox ref (delivered p s ms) = inbox ref s.mailbox ++ inbox ref (messagesTo p ms) := by
  have halive : s.phase ≠ .exited := by
    intro he
    rw [he] at h
    cases h
  rw [delivered, if_neg halive, inbox_append]

/-- The front of the queue is answered: another acceptor, or the call with its
connection. -/
theorem Stands.served {a : Acceptor} {r : AsyncReply} {q : List Acceptor} {c : Bool} {rs : List AsyncReply}
    (hst : Stands p ref (a :: q) c rs) (hother : ∀ b ∈ q, b.ref ≠ a.ref)
    (hok : a = ⟨p, ref⟩ → ∃ newPort, r = .ok newPort) :
    inbox ref (messagesTo p [(a, r)]) = repliesFor ref [(a, r)] ∧ Stands p ref q c (rs ++ repliesFor ref [(a, r)]) := by
  have hnot : a.ref ≠ ref → inbox ref (messagesTo p [(a, r)]) = repliesFor ref [(a, r)] ∧
      rs ++ repliesFor ref [(a, r)] = rs := fun he => by
    rw [inbox_messagesTo_of_ne he, repliesFor_of_ne he, List.append_nil]
    exact ⟨rfl, rfl⟩
  cases hst with
  | queued hmem =>
    by_cases he : a.ref = ref
    · have hfront : a = ⟨p, ref⟩ := by
        rcases List.mem_cons.1 hmem with rfl | htail
        · rfl
        · exact absurd he.symm (hother _ htail)
      obtain ⟨newPort, rfl⟩ := hok hfront
      subst hfront
      exact ⟨by simp [inbox, messagesTo, repliesFor], by simpa [repliesFor] using .answered hother⟩
    · obtain ⟨hbox, hrs⟩ := hnot he
      rw [hrs]
      refine ⟨hbox, .queued ?_⟩
      rcases List.mem_cons.1 hmem with rfl | htail
      · exact absurd rfl he
      · exact htail
  | cancelled hnone =>
    obtain ⟨hbox, hrs⟩ := hnot (hnone a (by simp))
    rw [hrs]
    exact ⟨hbox, .cancelled fun b hb => hnone b (by simp [hb])⟩
  | answered hnone =>
    obtain ⟨hbox, hrs⟩ := hnot (hnone a (by simp))
    rw [hrs]
    exact ⟨hbox, .answered fun b hb => hnone b (by simp [hb])⟩

theorem AcceptOk.served {a : Acceptor} {r : AsyncReply} {d : Datagram} (hi : AcceptOk p t s)
    (hg : Connects p s (.driver (.inputReady d))) (hans : d.Answers r)
    (hq : s.listener.acceptorQueue = a :: l.acceptorQueue) (ho : asyncs o = [(a, r)]) :
    AcceptOk p (t ++ [⟨s, .driver (.inputReady d), ⟨o, .none⟩⟩]) ⟨l, delivered p s [(a, r)], s.phase⟩ := by
  have hdist := hi.distinct
  rw [hq, List.map_cons, List.nodup_cons] at hdist
  have hother : ∀ b ∈ l.acceptorQueue, b.ref ≠ a.ref := fun b hb he => hdist.1 (List.mem_map.2 ⟨b, hb, he⟩)
  have hknown : a.ref ∈ used t := hi.known a (by simp [hq])
  have hused : used (t ++ [⟨s, .driver (.inputReady d), ⟨o, .none⟩⟩]) = used t := by simp [AcceptEvent.asks]
  refine ⟨hdist.2, ?_, ?_, ?_, ?_⟩
  · intro b hb
    rw [hused]
    exact hi.known b (by simp [hq, hb])
  · intro ref hr
    rw [hused] at hr
    have hne : a.ref ≠ ref := fun he => hr (he ▸ hknown)
    obtain ⟨hsent, hbox⟩ := hi.fresh ref hr
    refine ⟨?_, inbox_delivered_nil hbox (inbox_messagesTo_of_ne hne)⟩
    rw [sent_snoc, hsent, ho, repliesFor_of_ne hne]
    rfl
  · intro ref hr
    have hr : ref ∈ returned t := by simpa [returns] using hr
    obtain ⟨hin, hnone, hbox⟩ := hi.gone ref hr
    have hne : a.ref ≠ ref := hnone a (by simp [hq])
    rw [hused]
    exact ⟨hin, fun b hb => hnone b (by simp [hq, hb]), inbox_delivered_nil hbox (inbox_messagesTo_of_ne hne)⟩
  · intro ref hr
    simp only at hr ⊢
    obtain ⟨hin, hbox, hst⟩ := hi.call ref hr
    rw [hq] at hst
    have hok : a = ⟨p, ref⟩ → ∃ newPort, r = .ok newPort := by
      intro hfront
      cases r with
      | ok newPort => exact ⟨newPort, rfl⟩
      | error err => exact absurd hans.2 (hg ref l.acceptorQueue hr (hfront ▸ hq) hans.1 err)
    obtain ⟨hsame, hst⟩ := hst.served hother hok
    rw [hused, inbox_delivered hr, sent_snoc, ho, hbox, hsame]
    exact ⟨hin, rfl, hst⟩

/-- Whoever joins the queue is new. -/
def Joins (t : AcceptTrace) (e : AcceptEvent) (q q' : List Acceptor) : Prop :=
  ∀ a ∈ q', a ∈ q ∨ a.ref ∉ used t ∧ a.ref ∈ e.asks

theorem Joins.absent {e : AcceptEvent} {q q' : List Acceptor} (hj : Joins t e q q') (hin : ref ∈ used t)
    (hno : ∀ a ∈ q, a.ref ≠ ref) : ∀ a ∈ q', a.ref ≠ ref := by
  intro a ha he
  rcases hj a ha with hold | ⟨hnew, -⟩
  · exact hno a hold he
  · exact hnew (he ▸ hin)

/-- A step that sends nothing keeps all but the call in progress. -/
theorem AcceptOk.unsent {e : AcceptEvent} {out : AcceptOut} (hi : AcceptOk p t s) (ho : asyncs out.effects = [])
    (hdist : (s'.listener.acceptorQueue.map Acceptor.ref).Nodup)
    (hj : Joins t e s.listener.acceptorQueue s'.listener.acceptorQueue)
    (hm : ∀ ref, inbox ref s.mailbox = [] → inbox ref s'.mailbox = [])
    (hret : ∀ ref ∈ returns ⟨s, e, out⟩, ref ∈ used t ++ e.asks ∧ Gone ref s')
    (hcall : ∀ ref, s'.phase.ref = .some ref → ref ∈ used t ++ e.asks ∧ inbox ref s'.mailbox = sent ref t ∧
      Stands p ref s'.listener.acceptorQueue s'.phase.hasCancelled (sent ref t)) :
    AcceptOk p (t ++ [⟨s, e, out⟩]) s' := by
  have hsent : ∀ ref, sent ref (t ++ [⟨s, e, out⟩]) = sent ref t := by
    intro ref
    simp [ho, repliesFor]
  refine ⟨hdist, ?_, ?_, ?_, ?_⟩
  · intro a ha
    rw [used_snoc, List.mem_append]
    exact (hj a ha).imp (hi.known a) And.right
  · intro ref hr
    rw [used_snoc, List.mem_append, not_or] at hr
    obtain ⟨hs, hbox⟩ := hi.fresh ref hr.1
    exact ⟨(hsent ref).trans hs, hm ref hbox⟩
  · intro ref hr
    rw [used_snoc]
    rw [returned_snoc] at hr
    rcases List.mem_append.1 hr with hold | hnow
    · obtain ⟨hin, hno, hbox⟩ := hi.gone ref hold
      exact ⟨List.mem_append_left _ hin, hj.absent hin hno, hm ref hbox⟩
    · exact hret ref hnow
  · intro ref hr
    rw [used_snoc, hsent]
    exact hcall ref hr

/-- A step of the others that sends nothing, and leaves the call in the
queue. -/
theorem AcceptOk.silent {e : ListenerEvent} (hi : AcceptOk p t s) (ho : asyncs o = [])
    (hdist : (l.acceptorQueue.map Acceptor.ref).Nodup)
    (hj : Joins t (.driver e) s.listener.acceptorQueue l.acceptorQueue)
    (hkeep : ∀ ref, s.phase.ref = .some ref → ⟨p, ref⟩ ∈ s.listener.acceptorQueue → ⟨p, ref⟩ ∈ l.acceptorQueue) :
    AcceptOk p (t ++ [⟨s, .driver e, ⟨o, .none⟩⟩]) ⟨l, delivered p s [], s.phase⟩ := by
  refine hi.unsent ho hdist hj ?_ ?_ ?_
  · intro ref hbox
    exact inbox_delivered_nil hbox rfl
  · intro ref hr
    simp [returns] at hr
  · intro ref hr
    obtain ⟨hin, hbox, hst⟩ := hi.call ref hr
    simp only at hr ⊢
    rw [inbox_delivered hr, hbox]
    refine ⟨List.mem_append_left _ hin, List.append_nil _, ?_⟩
    generalize s.phase.hasCancelled = c, sent ref t = rs at hst
    cases hst with
    | queued hmem => exact .queued (hkeep ref hr hmem)
    | cancelled hno => exact .cancelled (hj.absent hin hno)
    | answered hno => exact .answered (hj.absent hin hno)

theorem AcceptOk.driver {e : ListenerEvent} (hi : AcceptOk p t s) (hg : AcceptGuard p t s (.driver e))
    (hm : s.listener.machine e = .some (l, o)) :
    AcceptOk p (t ++ [⟨s, .driver e, ⟨o, .none⟩⟩]) ⟨l, delivered p s (asyncs o), s.phase⟩ := by
  have hmv := (Listener.machine_step hm).moves hi.distinct
  generalize e.accepted o = acc at hmv
  generalize ho : asyncs o = ms at hmv ⊢
  cases hmv with
  | @served a r _ he hq =>
    obtain ⟨d, rfl, hans⟩ := he
    exact hi.served hg.2.1 hans hq ho
  | @joined q buf ref m _ he hd hq =>
    subst he
    have hnew : ref ∉ used t := hg.1 ref (by simp [hd])
    refine hi.silent ho ?_ ?_ ?_
    · rw [hq]
      have hother : ∀ b ∈ s.listener.acceptorQueue, b.ref ≠ ref := by
        intro b hb he
        exact hnew (he ▸ hi.known b hb)
      exact Listener.nodup_joined hi.distinct hother
    · intro a ha
      rw [hq] at ha
      rcases List.mem_append.1 ha with hold | hjoined
      · exact .inl hold
      · obtain rfl := List.mem_singleton.1 hjoined
        exact .inr ⟨hnew, by simp [AcceptEvent.asks, hd]⟩
    · intro ref' _ hmem
      rw [hq]
      exact List.mem_append_left _ hmem
  | kept hq =>
    refine hi.silent ho ?_ ?_ ?_
    · rw [hq]
      exact hi.distinct.sublist (List.filter_sublist.map _)
    · intro a ha
      rw [hq] at ha
      exact .inl (List.mem_filter.1 ha).1
    · intro ref hr hmem
      rw [hq]
      refine List.mem_filter.2 ⟨hmem, ?_⟩
      -- nobody else cancels the call, and its process is alive
      cases e with
      | cancelAccept q buf =>
        have hne : decodeBinary buf ≠ .some ref := fun hd => hg.1 ref (by simp [hd]) hr
        simpa [ListenerEvent.withdraws] using hne
      | processExited q =>
        have hne : p ≠ q := by
          rintro rfl
          rw [hg.1 rfl] at hr
          cases hr
        simpa [ListenerEvent.withdraws] using hne
      | _ => rfl

/-! ## The steps of the call -/

/-- The result of a call: what it was sent, or an error of its own when it was
sent nothing. -/
def Result (ref : Ref) (t : AcceptTrace) (r : AsyncReply) : Prop :=
  sent ref t = [r] ∨ (sent ref t = [] ∧ (r = .error .etimedout ∨ r = .error .einval))

/-- A call ends by returning its result. -/
def Leaves (t : AcceptTrace) (x : Runs.Entry Accepting AcceptEvent AcceptOut) : Prop :=
  ∀ y, x.out.exit = .some y → ∃ r, y = .returned r ∧ ∀ ref ∈ returns x, Result ref t r

/-- What a step of the process keeps. -/
def StepOk (p : Pid) (t : AcceptTrace) (s : Accepting) (e : AcceptEvent) (out : AcceptOut) (s' : Accepting) : Prop :=
  AcceptOk p (t ++ [⟨s, e, out⟩]) s' ∧ Leaves t ⟨s, e, out⟩

/-- The call for `ref` ends, with the mailbox `m`. -/
theorem AcceptOk.left {e : AcceptEvent} {m : Mailbox} {r : AsyncReply} (hi : AcceptOk p t s)
    (hr : returns ⟨s, e, ⟨[], .some (.returned r)⟩⟩ = [ref]) (hused : ref ∈ used t)
    (hno : ∀ a ∈ s.listener.acceptorQueue, a.ref ≠ ref) (hnil : inbox ref m = [])
    (hm : ∀ ref', inbox ref' s.mailbox = [] → inbox ref' m = []) (hres : Result ref t r) :
    StepOk p t s e ⟨[], .some (.returned r)⟩ ⟨s.listener, m, .idle⟩ := by
  refine ⟨hi.unsent rfl hi.distinct (fun a ha => .inl ha) hm ?_ ?_, ?_⟩
  · intro ref' h'
    rw [hr] at h'
    obtain rfl := List.mem_singleton.1 h'
    exact ⟨List.mem_append_left _ hused, hno, hnil⟩
  · intro ref' h'
    cases h'
  · intro y hy
    obtain rfl := Option.some.inj hy
    refine ⟨r, rfl, fun ref' h' => ?_⟩
    rw [hr] at h'
    obtain rfl := List.mem_singleton.1 h'
    exact hres

theorem AcceptOk.takes {e : AcceptEvent} {newPort : ErlDrvPort} {m : Mailbox} (hi : AcceptOk p t s)
    (hnc : ∀ ref timeout monitored, e ≠ .call ref timeout monitored) (hr : s.phase.ref = .some ref)
    (hrec : receiveOk ref s.mailbox = .some (newPort, m)) :
    StepOk p t s e ⟨[], .some (.returned (.ok newPort))⟩ ⟨s.listener, m, .idle⟩ := by
  obtain ⟨hused, hbox, hst⟩ := hi.call ref hr
  have hret : returns ⟨s, e, ⟨[], .some (.returned (.ok newPort))⟩⟩ = [ref] := by
    cases e with
    | call => exact absurd rfl (hnc _ _ _)
    | _ => simp [returns, hr]
  generalize hsent : sent ref t = rs at hbox hst
  generalize s.phase.hasCancelled = c at hst
  cases hst with
  | queued | cancelled =>
    rw [receiveOk_empty hbox] at hrec
    cases hrec
  | @answered _ port hno =>
    obtain ⟨m', hrec', hnil, hkeep⟩ := receiveOk_one hbox
    rw [hrec] at hrec'
    obtain ⟨rfl, rfl⟩ := Prod.mk.inj (Option.some.inj hrec')
    exact hi.left hret hused hno hnil hkeep (.inl hsent)

/-- A step that neither asks nor sends, and does not return. -/
theorem AcceptOk.moved {e : AcceptEvent} (hi : AcceptOk p t s) (ho : asyncs o = [])
    (hsub : s'.listener.acceptorQueue.Sublist s.listener.acceptorQueue)
    (hm : ∀ ref, inbox ref s.mailbox = [] → inbox ref s'.mailbox = [])
    (hcall : ∀ ref, s'.phase.ref = .some ref → s.phase.ref = .some ref ∧ s'.mailbox = s.mailbox ∧
      ∀ rs, Stands p ref s.listener.acceptorQueue s.phase.hasCancelled rs →
        Stands p ref s'.listener.acceptorQueue s'.phase.hasCancelled rs) :
    StepOk p t s e ⟨o, .none⟩ s' := by
  refine ⟨hi.unsent ho (hi.distinct.sublist (hsub.map _)) (fun a ha => .inl (hsub.subset ha)) hm ?_ ?_, ?_⟩
  · intro ref hr
    simp [returns] at hr
  · intro ref hr
    obtain ⟨hr, hmail, hst⟩ := hcall ref hr
    obtain ⟨hin, hbox, hold⟩ := hi.call ref hr
    rw [hmail]
    exact ⟨List.mem_append_left _ hin, hbox, hst _ hold⟩
  · intro r hr
    cases hr

theorem asyncAccept_eq (p : Pid) (s : Accepting) (ref : Ref) (timeout : Option Nat) (monitored : Bool) :
    s.asyncAccept p ref timeout monitored = .some (if monitored then
      (⟨{ s.listener with acceptorQueue := s.listener.acceptorQueue ++ [⟨p, ref⟩] }, s.mailbox, .waiting ref timeout⟩,
        ⟨[.addMonitor p true, .reply (.okRef ref)], .none⟩)
    else (⟨s.listener, s.mailbox, .idle⟩,
      ⟨[.addMonitor p false, .reply .empty], .some (.returned (.error .einval))⟩)) := by
  have hd : decodeBinary (refArgs ref) = .some ref := rfl
  cases monitored <;> simp [asyncAccept, Listener.accept, hd]

theorem call_step {timeout : Option Nat} {monitored : Bool} {out : AcceptOut} (hi : AcceptOk p t s)
    (hg : ref ∉ used t) (hm : machine p s (.call ref timeout monitored) = .some (s', out)) :
    StepOk p t s (.call ref timeout monitored) out s' := by
  obtain ⟨l, m, ph⟩ := s
  cases ph with
  | idle =>
    obtain ⟨hsent, hbox⟩ := hi.fresh ref hg
    have hnew : ∀ a ∈ l.acceptorQueue, a.ref ≠ ref := by
      intro a ha he
      exact hg (he ▸ hi.known a ha)
    have hm : asyncAccept p ⟨l, m, .idle⟩ ref timeout monitored = .some (s', out) := hm
    rw [asyncAccept_eq] at hm
    cases monitored with
    | true =>
      obtain ⟨rfl, rfl⟩ := Prod.mk.inj (Option.some.inj hm)
      refine ⟨hi.unsent rfl (Listener.nodup_joined hi.distinct hnew) ?_ (fun _ h => h) ?_ ?_, nofun⟩
      · intro a ha
        rcases List.mem_append.1 ha with hold | hjoined
        · exact .inl hold
        · obtain rfl := List.mem_singleton.1 hjoined
          exact .inr ⟨hg, by simp [AcceptEvent.asks]⟩
      · intro ref' hr
        simp [returns] at hr
      · intro ref' hr
        obtain rfl := Option.some.inj hr
        rw [hsent]
        exact ⟨by simp [AcceptEvent.asks], hbox, .queued (by simp)⟩
    | false =>
      obtain ⟨rfl, rfl⟩ := Prod.mk.inj (Option.some.inj hm)
      refine ⟨hi.unsent rfl hi.distinct (fun a ha => .inl ha) (fun _ h => h) ?_ ?_, ?_⟩
      · intro ref' hr
        obtain rfl : ref' = ref := by simpa [returns] using hr
        exact ⟨by simp [AcceptEvent.asks], hnew, hbox⟩
      · intro ref' hr
        cases hr
      · intro y hy
        obtain rfl := Option.some.inj hy
        refine ⟨_, rfl, fun ref' h' => ?_⟩
        obtain rfl : ref' = ref := by simpa [returns] using h'
        exact .inr ⟨hsent, .inr rfl⟩
  | _ => cases hm

theorem expire_step {out : AcceptOut} (hi : AcceptOk p t s) (hg : Timely s .expire)
    (hm : machine p s .expire = .some (s', out)) : StepOk p t s .expire out s' := by
  obtain ⟨l, m, ph⟩ := s
  cases ph with
  | waiting ref timeout =>
    cases timeout with
    | none => cases hm
    | some timeout =>
      have hknown : timeout < 2 ^ 32 := hg ref timeout rfl
      simp only [machine, if_pos hknown] at hm
      split at hm
      · cases hm
      · obtain ⟨rfl, rfl⟩ := Prod.mk.inj (Option.some.inj hm)
        exact hi.moved rfl (.refl _) (fun _ h => h) fun ref' hr => ⟨hr, rfl, fun _ h => h⟩
  | _ => cases hm

/-- After `cancel_accept` the call does not stand in the queue. -/
theorem Stands.cancels {q : List Acceptor} {rs : List AsyncReply} (hst : Stands p ref q false rs)
    {q' : List Acceptor} (hsub : ∀ a ∈ q', a ∈ q ∧ a.ref ≠ ref) : Stands p ref q' true rs := by
  cases hst with
  | queued => exact .cancelled fun a ha => (hsub a ha).2
  | answered => exact .answered fun a ha => (hsub a ha).2

theorem cancel_step {out : AcceptOut} (hi : AcceptOk p t s) (hm : machine p s .cancel = .some (s', out)) :
    StepOk p t s .cancel out s' := by
  obtain ⟨l, m, ph⟩ := s
  cases ph with
  | expired ref =>
    have hm : Accepting.cancelAccept ⟨l, m, .expired ref⟩ ref = .some (s', out) := hm
    have hstep := Listener.cancelAccept_step l p (refArgs ref)
    unfold Accepting.cancelAccept at hm
    generalize l.cancelAccept (refArgs ref) = res at hm hstep
    obtain ⟨l', o⟩ := res
    simp only at hm hstep
    have hd : decodeBinary (refArgs ref) = .some ref := rfl
    cases hstep with
    | cancelBadarg hnone => rw [hd] at hnone; cases hnone
    | @cancelFound _ _ ref' acc hd' =>
      obtain rfl : ref = ref' := Option.some.inj (hd.symm.trans hd')
      rw [if_neg (by simp)] at hm
      obtain ⟨rfl, rfl⟩ := Prod.mk.inj (Option.some.inj hm)
      refine hi.moved rfl List.eraseP_sublist (fun _ h => h) fun ref' hr => ?_
      obtain rfl := Option.some.inj hr
      refine ⟨rfl, rfl, fun rs hst => hst.cancels fun a ha => ?_⟩
      rw [Listener.eraseP_eq_filter ref hi.distinct] at ha
      simpa using ha
    | @cancelUnknown _ _ ref' hd' hno =>
      obtain rfl : ref = ref' := Option.some.inj (hd.symm.trans hd')
      rw [if_neg (by simp)] at hm
      obtain ⟨rfl, rfl⟩ := Prod.mk.inj (Option.some.inj hm)
      refine hi.moved rfl (.refl _) (fun _ h => h) fun ref' hr => ?_
      obtain rfl := Option.some.inj hr
      exact ⟨rfl, rfl, fun rs hst => hst.cancels fun a ha => ⟨ha, hno a ha⟩⟩
  | _ => cases hm

theorem drain_step {out : AcceptOut} (hi : AcceptOk p t s) (hm : machine p s .drain = .some (s', out)) :
    StepOk p t s .drain out s' := by
  obtain ⟨l, m, ph⟩ := s
  cases ph with
  | cancelled ref =>
    simp only [machine] at hm
    split at hm
    · next newPort m' hrec =>
      obtain ⟨rfl, rfl⟩ := Prod.mk.inj (Option.some.inj hm)
      exact hi.takes nofun rfl hrec
    · next hnone =>
      obtain ⟨rfl, rfl⟩ := Prod.mk.inj (Option.some.inj hm)
      obtain ⟨hused, hbox, hst⟩ := hi.call ref rfl
      simp only at hbox
      generalize hsent : sent ref t = rs at hbox hst
      cases hst with
      | cancelled hno => exact hi.left rfl hused hno hbox (fun _ h => h) (.inr ⟨hsent, .inl rfl⟩)
      | answered =>
        obtain ⟨m', hrec, -⟩ := receiveOk_one hbox
        rw [hnone] at hrec
        cases hrec
  | _ => cases hm

theorem exit_step {out : AcceptOut} (hi : AcceptOk p t s) (hm : machine p s .exit = .some (s', out)) :
    StepOk p t s .exit out s' := by
  simp only [machine] at hm
  split at hm
  · cases hm
  · obtain ⟨rfl, rfl⟩ := Prod.mk.inj (Option.some.inj hm)
    exact hi.moved rfl (.refl _) (fun _ _ => rfl) nofun

theorem take_step {out : AcceptOut} (hi : AcceptOk p t s) (hm : machine p s .take = .some (s', out)) :
    StepOk p t s .take out s' := by
  obtain ⟨l, m, ph⟩ := s
  cases ph with
  | waiting ref timeout =>
    obtain ⟨⟨newPort, m'⟩, hrec, heq⟩ := Option.bind_eq_some_iff.1 hm
    obtain ⟨rfl, rfl⟩ := Prod.mk.inj (Option.some.inj heq)
    exact hi.takes nofun rfl hrec
  | _ => cases hm

theorem accept_step {e : AcceptEvent} {out : AcceptOut} (hi : AcceptOk p t s) (hg : AcceptGuard p t s e)
    (hm : machine p s e = .some (s', out)) : StepOk p t s e out s' := by
  cases e with
  | call ref timeout monitored => exact call_step hi hg.1 hm
  | driver e =>
    obtain ⟨⟨l, o⟩, hl, heq⟩ := Option.map_eq_some_iff.1 hm
    obtain ⟨rfl, rfl⟩ := Prod.mk.inj heq
    exact ⟨hi.driver hg hl, nofun⟩
  | take => exact take_step hi hm
  | expire => exact expire_step hi hg.2.2 hm
  | cancel => exact cancel_step hi hm
  | drain => exact drain_step hi hm
  | exit => exact exit_step hi hm

/-! ## Every run -/

end Accepting

/-- The steps the process makes by itself when there is a message for it. -/
def AcceptEvent.own : AcceptEvent → Bool
  | .take | .cancel | .drain => true
  | _ => false

namespace Accepting

/-- The process, left to itself, returns `r`. -/
def Takes (p : Pid) (s : Accepting) (r : AsyncReply) : Prop :=
  ∃ t s', Runs.Run (machine p) (fun _ _ e => e.own = true) [] s t s' ∧ ∃ x ∈ t, x.out.exit = .some (.returned r)

theorem AcceptOk.consumes {r : AsyncReply} (hi : AcceptOk p t s) (hr : s.phase.ref = .some ref)
    (hmem : r ∈ inbox ref s.mailbox) : Takes p s r := by
  obtain ⟨-, hbox, hst⟩ := hi.call ref hr
  obtain ⟨newPort, hsent, hno⟩ : ∃ newPort, sent ref t = [.ok newPort] ∧
      ∀ a ∈ s.listener.acceptorQueue, a.ref ≠ ref := by
    rw [hbox] at hmem
    generalize s.phase.hasCancelled = c, sent ref t = rs at hmem hst
    cases hst with
    | queued | cancelled => cases hmem
    | answered hno => exact ⟨_, rfl, hno⟩
  obtain ⟨m, hrec, -⟩ := receiveOk_one (hbox.trans hsent)
  rw [hbox, hsent] at hmem
  obtain rfl := List.mem_singleton.1 hmem
  obtain ⟨l, mb, ph⟩ := s
  simp only at hrec hno
  cases ph with
  | idle | exited => cases hr
  | waiting ref' timeout =>
    obtain rfl := Option.some.inj hr
    have htake : machine p ⟨l, mb, .waiting ref' timeout⟩ .take =
        .some (⟨l, m, .idle⟩, ⟨[], .some (.returned (.ok newPort))⟩) := by
      simp [machine, hrec, leave]
    exact ⟨_, _, (Runs.Run.start _ _ _).step rfl htake, _, List.mem_singleton_self _, rfl⟩
  | expired ref' =>
    obtain rfl := Option.some.inj hr
    have hnone : l.acceptorQueue.find? (fun acc => acc.ref = ref') = .none := by simpa using hno
    have hkeep : (l.acceptorQueue.eraseP fun acc => acc.ref = ref') = l.acceptorQueue :=
      List.eraseP_of_forall_not fun acc hacc => by simpa using hno acc hacc
    have hd : decodeBinary (refArgs ref') = .some ref' := rfl
    have hcancel : machine p ⟨l, mb, .expired ref'⟩ .cancel =
        .some (⟨l, mb, .cancelled ref'⟩, ⟨[.reply .empty], .none⟩) := by
      simp [machine, Accepting.cancelAccept, Listener.cancelAccept, hd, Listener.cancelLoop_eq, hnone, hkeep]
    have hdrain : machine p ⟨l, mb, .cancelled ref'⟩ .drain =
        .some (⟨l, m, .idle⟩, ⟨[], .some (.returned (.ok newPort))⟩) := by
      simp [machine, hrec, leave]
    exact ⟨_, _, ((Runs.Run.start _ _ _).step rfl hcancel).step rfl hdrain, _,
      List.mem_append_right _ (List.mem_singleton_self _), rfl⟩
  | cancelled ref' =>
    obtain rfl := Option.some.inj hr
    have hdrain : machine p ⟨l, mb, .cancelled ref'⟩ .drain =
        .some (⟨l, m, .idle⟩, ⟨[], .some (.returned (.ok newPort))⟩) := by
      simp [machine, hrec, leave]
    exact ⟨_, _, (Runs.Run.start _ _ _).step rfl hdrain, _, List.mem_singleton_self _, rfl⟩

/-- **`accept/2` agrees with the driver**, in every run in which `connect` does
not fail for a datagram that answers the call and no timeout is over that
`receive` does not know: a call returns what it was sent, or an error of its
own when it was sent nothing; a message that is there for it is taken; and of
the calls that have returned nothing is left, neither in the mailbox nor in
the queue. -/
theorem accept_agrees {so : SockOpts}
    (run : Runs.Run (machine p) (AcceptGuard p) [] ⟨Listener.new so, [], .idle⟩ t s) :
    Runs.Each Leaves t ∧ (∀ ref ∈ returned t, Gone ref s) ∧
      ∀ ref r, s.phase.ref = .some ref → r ∈ inbox ref s.mailbox → Takes p s r := by
  have hstart : AcceptOk p [] ⟨Listener.new so, [], .idle⟩ := by
    refine ⟨List.nodup_nil, ?_, fun ref _ => ⟨rfl, rfl⟩, ?_, ?_⟩
    · intro a ha
      cases ha
    · intro ref hr
      cases hr
    · intro ref hr
      cases hr
  have hall : AcceptOk p t s ∧ Runs.Each Leaves t :=
    run.each hstart (fun t s e s' out hi hg hm => accept_step hi hg hm) .nil
  exact ⟨hall.2, fun ref hr => (hall.1.gone ref hr).2, fun ref r hr hmem => hall.1.consumes hr hmem⟩

/-- A connection that crosses the timeout is the result of the call; the next
call times out, with another process in the queue. -/
theorem accept_agrees_run : ∃ t s,
    Runs.Run (machine 1) (AcceptGuard 1) [] ⟨Listener.new SockOpts.new, [], .idle⟩ t s ∧
      returned t = [[1], [2]] ∧ Runs.Each Leaves t ∧ ∀ ref ∈ returned t, Gone ref s := by
  have timely : ∀ l m ref, Timely ⟨l, m, .waiting ref (.some 10)⟩ .expire := by
    rintro l m ref _ _ ⟨⟩
    decide
  have crossed := ((((Runs.Run.start (machine 1) (AcceptGuard 1) ⟨Listener.new SockOpts.new, [], .idle⟩).next
      (.call [1] (.some 10) true) ⟨by exact List.not_mem_nil, trivial, trivial⟩ rfl).next
      .expire ⟨trivial, trivial, timely _ _ _⟩ rfl).next
      (.driver (.inputReady (.connecting 7 1 100))) ⟨trivial, by exact fun _ _ _ _ _ _ => nofun, trivial⟩ rfl).next
      .cancel ⟨trivial, trivial, trivial⟩ rfl
  have run := (((((crossed.next .drain ⟨trivial, trivial, trivial⟩ rfl).next
      (.driver (.accept 2 [.version, .binary [9]] true)) ⟨by rintro _ ⟨⟩; decide, trivial, trivial⟩ rfl).next
      (.call [2] (.some 10) true) ⟨by show ([2] : Ref) ∉ used _; decide, trivial, trivial⟩ rfl).next
      .expire ⟨trivial, trivial, timely _ _ _⟩ rfl).next
      .cancel ⟨trivial, trivial, trivial⟩ rfl).next
      .drain ⟨trivial, trivial, trivial⟩ rfl
  obtain ⟨hleaves, hgone, -⟩ := accept_agrees run
  exact ⟨_, _, run, rfl, hleaves, hgone⟩

/-- The `{error, E}` of a `connect` that fails is not received: the call times
out and leaves it in the mailbox, and with no timeout it waits for ever. And a
timeout of `2 ^ 32` ends the call with an error that leaves it in the queue. -/
theorem error_not_received :
    (∃ t s x, Runs.Run (machine 1) (AcceptContract 1) [] ⟨Listener.new SockOpts.new, [], .idle⟩ (t ++ [x]) s ∧
      x.out.exit = .some (.returned (.error .etimedout)) ∧ sent [1] t = [.error (.other 101)] ∧
      s.mailbox = [([1], .error (.other 101))]) ∧
    (∃ t s, Runs.Run (machine 1) (AcceptContract 1) [] ⟨Listener.new SockOpts.new, [], .idle⟩ t s ∧
      s.phase = .waiting [1] .none ∧ s.mailbox = [([1], .error (.other 101))] ∧
      s.listener.acceptorQueue = [] ∧ ¬Takes 1 s (.error (.other 101))) ∧
    ∃ t s x, Runs.Run (machine 1) (AcceptContract 1) [] ⟨Listener.new SockOpts.new, [], .idle⟩ (t ++ [x]) s ∧
      x.out.exit = .some .raised ∧ s.listener.acceptorQueue = [⟨1, [1]⟩] := by
  have asked (timeout : Option Nat) := (Runs.Run.start (machine 1) (AcceptContract 1)
      ⟨Listener.new SockOpts.new, [], .idle⟩).next
      (.call [1] timeout true) (by exact List.not_mem_nil) rfl
  have failed (timeout : Option Nat) := (asked timeout).next
      (.driver (.inputReady { Datagram.connecting 7 1 100 with connect := [.failed (.other 101)] })) trivial rfl
  refine ⟨?_, ?_, ?_⟩
  · have run := ((((failed (.some 10)).next .expire trivial rfl).next .cancel trivial rfl).next .drain trivial rfl)
    exact ⟨_, _, _, run, rfl, rfl, rfl⟩
  · refine ⟨_, _, failed .none, rfl, rfl, rfl, ?_⟩
    rintro ⟨t, s, run, x, hx, -⟩
    -- the process takes no step of its own
    have hstuck : t = [] := by
      refine (run.invariant (I := fun t s => t = [] ∧ s = _) ⟨rfl, rfl⟩ ?_).1
      rintro t s e s' o ⟨-, rfl⟩ he hm
      cases e with
      | take | cancel | drain => cases hm
      | _ => cases he
    rw [hstuck] at hx
    cases hx
  · exact ⟨_, _, _, (asked (.some 4294967296)).next .expire trivial rfl, rfl, rfl⟩

end Accepting

end GenUtp
