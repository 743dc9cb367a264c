/-
The acceptor queue of a listener, over every order of `accept`,
`cancel_accept`, `process_exited` and `input_ready`.

Entries leave the queue by three keys: a datagram takes the front, a cancel
the entry with a reference, an exit every entry of a process. `history` keeps
what became of each accepted reference, and the invariant is one equation:
what was accepted and not withdrawn is what was answered followed by what is
queued (`Served.order`). `answered_in_order` reads the law of the queue off
it. References are distinct, as `make_ref` makes them.

`Moves` says once what a step does to the queue.
-/
import Mathlib.Data.List.Nodup
import GenUtp.Listener

namespace GenUtp

/-- The `utp_async` messages of a step. -/
def asyncs (o : List ListenerEffect) : List (Acceptor × AsyncReply) :=
  o.filterMap fun
    | .async p ref r => .some (⟨p, ref⟩, r)
    | _ => .none

/-- The acceptors a step answers. -/
def answeredBy (o : List ListenerEffect) : List Acceptor := (asyncs o).map Prod.fst

/-- What a datagram can tell an acceptor: the new port, or why `connect`
failed. -/
def Datagram.Answers (d : Datagram) : AsyncReply → Prop
  | .ok newPort => newPort = d.newPort
  | .error e => 0 < d.len ∧ connectAnswer d.connect = .some (.failed e)

@[simp] theorem asyncs_append (o o' : List ListenerEffect) : asyncs (o ++ o') = asyncs o ++ asyncs o' :=
  List.filterMap_append

theorem Opening.unanswered {c : OpenCalls} {r : Opened} (h : Opening c r) : asyncs r.out = [] := by
  cases h <;> rfl

namespace ListenerEvent

/-- The acceptors whose `accept` is answered `{ok, Ref}`. -/
def accepted : ListenerEvent → List ListenerEffect → List Acceptor
  | .accept p _ _, o => o.filterMap fun
    | .reply (.okRef ref) => .some ⟨p, ref⟩
    | _ => .none
  | _, _ => []

/-- The step cancels the acceptor, or its process exits. -/
def withdraws : ListenerEvent → Acceptor → Bool
  | .cancelAccept _ buf, a => decodeBinary buf = .some a.ref
  | .processExited p, a => a.caller = p
  | _, _ => false

end ListenerEvent

namespace Listener

/-- What became of the accepted references, each list in the order of the
steps. -/
structure History where
  accepted : List Acceptor
  answered : List Acceptor
  withdrawn : List Acceptor

/-- A step withdraws what is accepted and not answered. -/
def History.add (h : History) (x : Runs.Entry Listener ListenerEvent (List ListenerEffect)) : History where
  accepted := h.accepted ++ x.event.accepted x.out
  answered := h.answered ++ answeredBy x.out
  withdrawn := h.withdrawn ++ h.accepted.filter fun a => a ∉ h.answered ∧ x.event.withdraws a

def history (t : ListenerTrace) : History := t.foldl History.add ⟨[], [], []⟩

@[simp] theorem history_snoc (t : ListenerTrace) (x : Runs.Entry Listener ListenerEvent (List ListenerEffect)) :
    history (t ++ [x]) = (history t).add x := by
  simp [history]

/-- A process asks with references that were not accepted before. -/
def DistinctRefs : Runs.Guard Listener ListenerEvent (List ListenerEffect) := fun t _ e =>
  match e with
  | .accept _ buf _ => ∀ ref ∈ decodeBinary buf, ref ∉ (history t).accepted.map Acceptor.ref
  | _ => True

/-! ## One step -/

/-- What a step does to the queue, with what it accepts and the messages it
sends. -/
inductive Moves (l : Listener) (e : ListenerEvent) :
    List Acceptor → List (Acceptor × AsyncReply) → Listener → Prop
  | joined {p buf ref m l'} : e = .accept p buf m → decodeBinary buf = .some ref →
      l'.acceptorQueue = l.acceptorQueue ++ [⟨p, ref⟩] → Moves l e [⟨p, ref⟩] [] l'
  | served {a r l'} : (∃ d, e = .inputReady d ∧ d.Answers r) → l.acceptorQueue = a :: l'.acceptorQueue →
      Moves l e [] [(a, r)] l'
  | kept {l'} : l'.acceptorQueue = l.acceptorQueue.filter (fun a => !e.withdraws a) → Moves l e [] [] l'

variable {t : ListenerTrace} {l l' : Listener} {e : ListenerEvent} {o : List ListenerEffect}

theorem Moves.still {accepted : List Acceptor} {sent : List (Acceptor × AsyncReply)} (ha : accepted = [])
    (hs : sent = []) (he : ∀ a, e.withdraws a = false) (hq : l'.acceptorQueue = l.acceptorQueue) :
    Moves l e accepted sent l' := by
  subst ha hs
  refine .kept ?_
  rw [hq, List.filter_eq_self.2 fun a _ => by simp [he a]]

theorem Incoming.moves {d : Datagram} (h : Incoming l d o l') : Moves l (.inputReady d) [] (asyncs o) l' := by
  cases h with
  | dropped => exact .still rfl rfl (fun _ => rfl) rfl
  | refused hlen hq hr hc =>
    rw [asyncs_append, hr.unanswered]
    exact .served ⟨d, rfl, hlen, hc⟩ hq
  | handedOver _ hq hr =>
    rw [created, asyncs_append, asyncs_append, hr.unanswered]
    exact .served ⟨d, rfl, rfl⟩ hq
  | discarded _ _ hr =>
    refine .still rfl ?_ (fun _ => rfl) rfl
    simp only [created, asyncs_append, hr.unanswered]
    rfl

/-- Where references are distinct, a cancel takes out every entry with its
reference. -/
theorem eraseP_eq_filter (ref : Ref) {q : List Acceptor} (hn : (q.map Acceptor.ref).Nodup) :
    (q.eraseP fun a => a.ref = ref) = q.filter fun a => a.ref ≠ ref := by
  induction q with
  | nil => rfl
  | cons a q ih =>
    obtain ⟨hnew, hn⟩ := List.nodup_cons.1 hn
    by_cases h : a.ref = ref
    · have hall : ∀ b ∈ q, b.ref ≠ ref := by
        intro b hb he
        exact hnew (List.mem_map.2 ⟨b, hb, he.trans h.symm⟩)
      simp only [List.eraseP_cons, List.filter_cons, h, decide_true, cond_true, ne_eq, not_true_eq_false, decide_false]
      rw [if_neg (by simp), List.filter_eq_self.2 fun b hb => by simpa using hall b hb]
    · simpa [List.eraseP_cons, List.filter_cons, h] using ih hn

theorem Step.moves (hs : Step l e o l') (hn : (l.acceptorQueue.map Acceptor.ref).Nodup) :
    Moves l e (e.accepted o) (asyncs o) l' := by
  cases hs with
  | acceptQueued hd => exact .joined rfl hd rfl
  | cancelBadarg hd => exact .still rfl rfl (fun a => by simp [ListenerEvent.withdraws, hd]) rfl
  | @cancelFound p buf ref acc hd =>
    refine .kept ?_
    rw [eraseP_eq_filter ref hn]
    exact List.filter_congr fun a _ => by simp [ListenerEvent.withdraws, hd, eq_comm]
  | cancelUnknown hd hne =>
    refine .kept (List.filter_eq_self.2 fun a ha => ?_).symm
    simpa [ListenerEvent.withdraws, hd] using Ne.symm (hne a ha)
  | exited => exact .kept (List.filter_congr fun a _ => by simp [ListenerEvent.withdraws])
  | arrived hin => exact hin.moves
  | acceptBadarg | acceptRefused | closed | peername | notConnected => exact .still rfl rfl (fun _ => rfl) rfl

/-- The acceptor that gets the new port is told of it. -/
theorem Step.told (hs : Step l e o l') (p : Pid) (newPort : ErlDrvPort) (server : UtpHandler)
    (ho : .createPort p newPort server ∈ o) : ∃ ref, .async p ref (.ok newPort) ∈ o := by
  cases hs with
  | arrived hin =>
    have hno : ∀ {c : OpenCalls} {r : Opened}, Opening c r → .createPort p newPort server ∉ r.out := by
      intro c r hr
      cases hr <;> simp
    cases hin with
    | dropped => cases ho
    | refused _ _ hr => simp [hno hr] at ho
    | @handedOver acc _ r _ _ hr =>
      simp only [created, List.mem_append, hno hr, List.mem_cons, reduceCtorEq, ListenerEffect.createPort.injEq,
        List.not_mem_nil, or_false, false_or] at ho
      obtain ⟨rfl, rfl, -⟩ := ho
      exact ⟨acc.ref, by simp⟩
    | discarded _ _ hr => simp [created, deleteServer, deleteMainHandler, hno hr] at ho
  | _ => simp at ho

/-! ## Every run -/

/-- What was accepted and not withdrawn is what was answered, in this order,
and then what is queued; and no reference is answered twice. -/
structure Served (t : ListenerTrace) (l : Listener) : Prop where
  order : ((history t).accepted.filter fun a => a ∉ (history t).withdrawn) = (history t).answered ++ l.acceptorQueue
  once : ((history t).answered.map Acceptor.ref).Nodup

/-- What a step answers, in view of the steps before it. -/
structure Orderly (t : ListenerTrace) (x : Runs.Entry Listener ListenerEvent (List ListenerEffect)) : Prop where
  /-- A datagram is given to one acceptor at most; nothing else answers. -/
  one : answeredBy x.out = [] ∨ ∃ a d, answeredBy x.out = [a] ∧ x.event = .inputReady d
  /-- Whose port it is, is who is told of it. -/
  given : ∀ p newPort server, .createPort p newPort server ∈ x.out → ∃ ref, .async p ref (.ok newPort) ∈ x.out
  waiting : ∀ a ∈ answeredBy x.out, a ∈ (history t).accepted ∧ a ∉ (history t).answered
  /-- After a cancel of its reference, or the exit of its process, nothing is
  sent. -/
  silent : ∀ t₁ y t₂ a, t = t₁ ++ y :: t₂ → a ∈ (history t₁).accepted → y.event.withdraws a = true →
    a ∉ answeredBy x.out
  /-- A cancel finds only a reference that waits. -/
  cancel : ∀ p buf ref, x.event = .cancelAccept p buf → decodeBinary buf = .some ref →
    (∀ a ∈ (history t).accepted, a.ref = ref → a ∈ (history t).answered) →
    Runs.After machine (fun _ l' => l'.acceptorQueue = x.pre.acceptorQueue) t x

/-- The invariant: `Served`, with distinct references. -/
structure QueueOk (t : ListenerTrace) (l : Listener) : Prop where
  order : ((history t).accepted.filter fun a => a ∉ (history t).withdrawn) = (history t).answered ++ l.acceptorQueue
  distinct : ((history t).accepted.map Acceptor.ref).Nodup
  known : ∀ a ∈ (history t).withdrawn, a ∈ (history t).accepted

namespace QueueOk

theorem refs (hi : QueueOk t l) : (((history t).answered ++ l.acceptorQueue).map Acceptor.ref).Nodup := by
  rw [← hi.order]
  exact hi.distinct.sublist (List.filter_sublist.map _)

theorem served (hi : QueueOk t l) : Served t l where
  order := hi.order
  once := by
    have hrefs := hi.refs
    rw [List.map_append] at hrefs
    exact hrefs.of_append_left

theorem queueRefs (hi : QueueOk t l) : (l.acceptorQueue.map Acceptor.ref).Nodup := by
  have hrefs := hi.refs
  rw [List.map_append] at hrefs
  exact hrefs.of_append_right

/-- Who is queued was accepted, is not answered and not withdrawn. -/
theorem queued (hi : QueueOk t l) {a : Acceptor} (ha : a ∈ l.acceptorQueue) :
    a ∈ (history t).accepted ∧ a ∉ (history t).answered ∧ a ∉ (history t).withdrawn := by
  have hmem : a ∈ (history t).accepted.filter fun a => a ∉ (history t).withdrawn := by
    rw [hi.order]
    exact List.mem_append_right _ ha
  obtain ⟨hacc, hnot⟩ := List.mem_filter.1 hmem
  have hdisj := (List.nodup_append.1 (List.Nodup.of_map _ hi.refs)).2.2
  exact ⟨hacc, fun hans => hdisj a hans a ha rfl, by simpa using hnot⟩

end QueueOk

theorem withdrawn_none {x : Runs.Entry Listener ListenerEvent (List ListenerEffect)} {h : History}
    (hx : ∀ a, x.event.withdraws a = false) : (h.add x).withdrawn = h.withdrawn := by
  simp [History.add, hx]

theorem QueueOk.step (hi : QueueOk t l) (hg : DistinctRefs t l e) (hm : machine l e = .some (l', o)) :
    QueueOk (t ++ [⟨l, e, o⟩]) l' := by
  have hmv := (machine_step hm).moves hi.queueRefs
  have hadd : history (t ++ [⟨l, e, o⟩]) = (history t).add ⟨l, e, o⟩ := history_snoc t _
  have hacc : (history (t ++ [⟨l, e, o⟩])).accepted = (history t).accepted ++ e.accepted o := by rw [hadd]; rfl
  have hans : (history (t ++ [⟨l, e, o⟩])).answered = (history t).answered ++ answeredBy o := by rw [hadd]; rfl
  rw [answeredBy] at hans
  generalize e.accepted o = acc, asyncs o = sent at hmv hacc hans
  cases hmv with
  | @joined p buf ref m _ he hd hq =>
    subst he
    have hw : (history (t ++ [⟨l, .accept p buf m, o⟩])).withdrawn = (history t).withdrawn := by
      rw [hadd]
      exact withdrawn_none fun _ => rfl
    have hnew : ref ∉ (history t).accepted.map Acceptor.ref := hg ref (by simp [hd])
    have hout : (⟨p, ref⟩ : Acceptor) ∉ (history t).withdrawn := fun hmem =>
      hnew (List.mem_map.2 ⟨_, hi.known _ hmem, rfl⟩)
    refine ⟨?_, ?_, ?_⟩
    · rw [hacc, hw, hans, hq, List.filter_append, hi.order]
      simp [hout]
    · rw [hacc]
      exact nodup_joined hi.distinct fun b hb he => hnew (List.mem_map.2 ⟨b, hb, he⟩)
    · intro a ha
      rw [hw] at ha
      rw [hacc]
      exact List.mem_append_left _ (hi.known a ha)
  | served he hq =>
    obtain ⟨d, rfl, -⟩ := he
    have hw : (history (t ++ [⟨l, .inputReady d, o⟩])).withdrawn = (history t).withdrawn := by
      rw [hadd]
      exact withdrawn_none fun _ => rfl
    rw [List.append_nil] at hacc
    refine ⟨?_, by rw [hacc]; exact hi.distinct, ?_⟩
    · rw [hacc, hw, hans, hi.order, hq]
      simp
    · intro a ha
      rw [hw] at ha
      rw [hacc]
      exact hi.known a ha
  | kept hq =>
    have hw : (history (t ++ [⟨l, e, o⟩])).withdrawn = (history t).withdrawn ++
        (history t).accepted.filter fun a => a ∉ (history t).answered ∧ e.withdraws a := by rw [hadd]; rfl
    rw [List.append_nil] at hacc
    rw [List.map_nil, List.append_nil] at hans
    refine ⟨?_, by rw [hacc]; exact hi.distinct, ?_⟩
    · have hsplit : (history t).accepted.filter (fun a => a ∉ (history (t ++ [⟨l, e, o⟩])).withdrawn) =
          ((history t).accepted.filter fun a => a ∉ (history t).withdrawn).filter
            fun a => !(a ∉ (history t).answered ∧ e.withdraws a : Bool) := by
        rw [hw, List.filter_filter]
        refine List.filter_congr fun a ha => ?_
        simp [ha, Bool.and_comm]
      rw [hacc, hans, hsplit, hi.order, hq, List.filter_append]
      congr 1
      · exact List.filter_eq_self.2 fun a ha => by simp [ha]
      · exact List.filter_congr fun a ha => by simp [(hi.queued ha).2.1]
    · intro a ha
      rw [hacc]
      rw [hw] at ha
      rcases List.mem_append.1 ha with hold | hnew
      · exact hi.known a hold
      · exact (List.mem_filter.1 hnew).1

/-! What was accepted, answered or withdrawn stays so. -/

theorem history_append (t₁ t₂ : ListenerTrace) :
    (∀ a ∈ (history t₁).answered, a ∈ (history (t₁ ++ t₂)).answered) ∧
      ∀ a ∈ (history t₁).withdrawn, a ∈ (history (t₁ ++ t₂)).withdrawn := by
  induction t₂ using List.reverseRecOn with
  | nil => simp
  | append_singleton t₂ x ih =>
    rw [← List.append_assoc, history_snoc]
    exact ⟨fun a ha => List.mem_append_left _ (ih.1 a ha), fun a ha => List.mem_append_left _ (ih.2 a ha)⟩

/-- Once its reference is cancelled or its process has exited, an acceptor
does not wait any more. -/
theorem gone_of_withdraws {t₁ t₂ : ListenerTrace} {y : Runs.Entry Listener ListenerEvent (List ListenerEffect)}
    {a : Acceptor} (ha : a ∈ (history t₁).accepted) (hy : y.event.withdraws a = true) :
    a ∈ (history (t₁ ++ y :: t₂)).answered ∨ a ∈ (history (t₁ ++ y :: t₂)).withdrawn := by
  have hsplit : t₁ ++ y :: t₂ = (t₁ ++ [y]) ++ t₂ := by simp
  have hlater := history_append (t₁ ++ [y]) t₂
  rw [hsplit]
  by_cases hans : a ∈ (history t₁).answered
  · refine .inl (hlater.1 a ?_)
    rw [history_snoc]
    exact List.mem_append_left _ hans
  · refine .inr (hlater.2 a ?_)
    rw [history_snoc]
    exact List.mem_append_right _ (List.mem_filter.2 ⟨ha, by simp [hans, hy]⟩)

theorem QueueOk.orderly (hi : QueueOk t l) (hm : machine l e = .some (l', o)) : Orderly t ⟨l, e, o⟩ := by
  have hmv := (machine_step hm).moves hi.queueRefs
  have hfront : ∀ a ∈ answeredBy o, a ∈ l.acceptorQueue := by
    intro a ha
    rw [answeredBy] at ha
    generalize e.accepted o = acc, asyncs o = sent at hmv ha
    cases hmv with
    | served _ hq =>
      obtain rfl := List.mem_singleton.1 ha
      rw [hq]
      exact List.mem_cons_self
    | joined | kept => cases ha
  refine ⟨?_, (machine_step hm).told, ?_, ?_, ?_⟩
  · simp only [answeredBy]
    generalize e.accepted o = acc, asyncs o = sent at hmv
    cases hmv with
    | @served a r _ he =>
      obtain ⟨d, rfl, -⟩ := he
      exact .inr ⟨a, d, rfl, rfl⟩
    | joined | kept => exact .inl rfl
  · intro a ha
    exact ⟨(hi.queued (hfront a ha)).1, (hi.queued (hfront a ha)).2.1⟩
  · intro t₁ y t₂ a ht hacc hy ha
    subst ht
    have hqueued := hi.queued (hfront a ha)
    exact (gone_of_withdraws hacc hy).elim hqueued.2.1 hqueued.2.2
  · intro p buf ref he hd hgone
    simp only at he
    subst he
    refine (Runs.after_iff hm).2 ?_
    have hnone : ∀ a ∈ l.acceptorQueue, (!(ListenerEvent.cancelAccept p buf).withdraws a) = true := by
      intro a ha
      have hqueued := hi.queued ha
      have hne : a.ref ≠ ref := fun h => hqueued.2.1 (hgone a hqueued.1 h)
      simpa [ListenerEvent.withdraws, hd] using Ne.symm hne
    generalize ListenerEvent.accepted _ o = acc, asyncs o = sent at hmv
    cases hmv with
    | joined he => cases he
    | served he => obtain ⟨d, hd, -⟩ := he; cases hd
    | kept hq => rw [hq, List.filter_eq_self.2 hnone]

/-- **The acceptor queue answers in order and at most once**, in every run of
a listener: the references accepted, less those cancelled and those of exited
processes, are the ones answered and then the ones queued; a step answers at
most the front, and only for a datagram; nothing is sent after a cancel or an
exit; and a cancel of a reference that is unknown or answered changes
nothing. -/
theorem answered_in_order {so : SockOpts} (run : Runs.Run machine DistinctRefs [] (new so) t l) :
    Served t l ∧ Runs.Each Orderly t := by
  have hstart : QueueOk [] (new so) := ⟨rfl, List.nodup_nil, fun a ha => by cases ha⟩
  have hall : QueueOk t l ∧ Runs.Each Orderly t :=
    run.each hstart (fun t l e l' o hi hg hm => ⟨hi.step hg hm, hi.orderly hm⟩) .nil
  exact ⟨hall.1.served, hall.2⟩

/-- Two processes accept four references: the second is cancelled, the exit of
the first process takes the third away, and two datagrams answer the others. -/
theorem answered_in_order_run : ∃ t l, Runs.Run machine DistinctRefs [] (new SockOpts.new) t l ∧
    t.length = 8 ∧ (history t).answered = [⟨1, [1]⟩, ⟨2, [4]⟩] ∧ Served t l ∧ Runs.Each Orderly t := by
  have run := ((((((((Runs.Run.start machine DistinctRefs (new SockOpts.new)).next
      (.accept 1 [.version, .binary [1]] true) (by rintro _ ⟨⟩; decide) rfl).next
      (.accept 2 [.version, .binary [2]] true) (by rintro _ ⟨⟩; decide) rfl).next
      (.accept 1 [.version, .binary [3]] true) (by rintro _ ⟨⟩; decide) rfl).next
      (.cancelAccept 2 [.version, .binary [2]]) trivial rfl).next
      (.inputReady (.connecting 7 1 100)) trivial rfl).next
      (.accept 2 [.version, .binary [4]] true) (by rintro _ ⟨⟩; decide) rfl).next
      (.processExited 1) trivial rfl).next
      (.inputReady (.connecting 8 2 101)) trivial rfl
  exact ⟨_, _, run, rfl, rfl, answered_in_order run⟩

end Listener

end GenUtp
