/-
`gen_utp:controlling_process/2`: handing a port over.

A call asks the runtime who owns the port, and if it is the caller, makes
another process the owner and removes its own link. These are three calls of
the runtime, and whatever other processes do may come between them: calls of
their own, closing the port, their exit. The driver's messages go to the
owner.

Each call is nonetheless one step (`transfers_atomic`): only the owner gets
past the question, so nobody can take the port away before it answers. The
link is another matter. A port ends with its owner because they are linked,
and a process to which the port has come back removes its link to it when it
goes on with its own call (`ends_with_owner_iff`).

Of the runtime: `port_connect` links the new owner and raises `badarg` when
the port is closed or the process is gone; a port ends when a process linked
to it does, be it its owner or for a reason other than `normal`.
-/
import Mathlib.Logic.Function.Basic
import GenUtp.Lib.Run
import GenUtp.Terms

namespace GenUtp

namespace Ownership

/-- Where a process is in its call. -/
inductive Phase
  | idle
  /-- `port_info` has said that it is the owner. -/
  | checked (newOwner : Pid)
  /-- After `port_connect`. -/
  | connected (newOwner : Pid)
  deriving DecidableEq, Repr

/-- What a call returns. -/
inductive Answer
  | ok
  | notOwner
  | einval
  | badarg
  deriving DecidableEq, Repr

structure Return where
  proc : Pid
  newOwner : Pid
  answer : Answer
  deriving DecidableEq, Repr

structure Proc where
  alive : Bool
  /-- To the port. -/
  linked : Bool
  phase : Phase
  deriving DecidableEq, Repr

/-- A port, and the processes about it; a closed port has no owner. -/
structure Socket where
  owner : Option Pid
  proc : Pid → Proc

inductive SocketEvent
  /-- The call, with its `port_info`. -/
  | call (p newOwner : Pid)
  | connect (p : Pid)
  | unlink (p : Pid)
  /-- `port_close`, by whomever. -/
  | close
  | exit (p : Pid) (normal : Bool)
  deriving DecidableEq, Repr

abbrev SocketTrace := Runs.Trace Socket SocketEvent (Option Return)

namespace Socket

/-- `open_port` by `p`. -/
def opened (p : Pid) (alive : Pid → Bool) : Socket := ⟨.some p, fun q => ⟨alive q, q = p, .idle⟩⟩

def set (s : Socket) (p : Pid) (x : Proc) : Socket := { s with proc := Function.update s.proc p x }

def enter (s : Socket) (p : Pid) (ph : Phase) : Socket := s.set p { s.proc p with phase := ph }

def closed (s : Socket) : Socket := ⟨.none, fun q => { s.proc q with linked := false }⟩

/-- `port_connect` -/
def connectTo (s : Socket) (newOwner : Pid) : Socket :=
  { s.set newOwner { s.proc newOwner with linked := true } with owner := .some newOwner }

/-- A process that ends takes the port with it. -/
def Ends (s : Socket) (p : Pid) (normal : Bool) : Prop :=
  (s.proc p).linked = true ∧ (s.owner = .some p ∨ normal = false)

instance (s : Socket) (p : Pid) (normal : Bool) : Decidable (s.Ends p normal) := inferInstanceAs (Decidable (_ ∧ _))

@[simp] theorem set_proc (s : Socket) (p q : Pid) (x : Proc) : (s.set p x).proc q = if q = p then x else s.proc q :=
  Function.update_apply ..

@[simp] theorem set_owner (s : Socket) (p : Pid) (x : Proc) : (s.set p x).owner = s.owner := rfl

end Socket

open Socket

def machine (s : Socket) : SocketEvent → Option (Socket × Option Return)
  | .call p newOwner =>
    if (s.proc p).alive = true ∧ (s.proc p).phase = .idle then
      match s.owner with
      | .some pid =>
        if pid = newOwner then .some (s, .some ⟨p, newOwner, .ok⟩)
        else if pid ≠ p then .some (s, .some ⟨p, newOwner, .notOwner⟩)
        else .some (s.enter p (.checked newOwner), .none)
      | .none => .some (s, .some ⟨p, newOwner, .einval⟩)
    else .none
  | .connect p =>
    match (s.proc p).phase with
    | .checked newOwner =>
      if s.owner ≠ .none ∧ (s.proc newOwner).alive = true then
        .some ((s.connectTo newOwner).enter p (.connected newOwner), .none)
      else .some (s.enter p .idle, .some ⟨p, newOwner, .badarg⟩)
    | _ => .none
  | .unlink p =>
    match (s.proc p).phase with
    | .connected newOwner =>
      .some (s.set p { s.proc p with linked := false, phase := .idle }, .some ⟨p, newOwner, .ok⟩)
    | _ => .none
  | .close => .some (s.closed, .none)
  | .exit p normal =>
    if (s.proc p).alive = true then
      let s' := s.set p ⟨false, false, .idle⟩
      .some (if s.Ends p normal then s'.closed else s', .none)
    else .none

/-! ## A transfer in one step -/

/-- The owner, and who is alive. -/
structure Owner where
  owner : Option Pid
  alive : Pid → Bool

inductive OwnerEvent
  /-- `raised`: how a closed port is told. -/
  | transfer (p newOwner : Pid) (raised : Bool)
  | close
  /-- `closes`: the port ends too. -/
  | exit (p : Pid) (closes : Bool)
  deriving DecidableEq, Repr

abbrev OwnerTrace := Runs.Trace Owner OwnerEvent (Option Return)

/-- What a transfer is for: the owner, and nobody else, gives the port to a
process that lives. -/
def atomic (a : Owner) : OwnerEvent → Option (Owner × Option Return)
  | .transfer p newOwner raised =>
    match a.owner with
    | .none => .some (a, .some ⟨p, newOwner, if raised then .badarg else .einval⟩)
    | .some pid =>
      if pid = newOwner then .some (a, .some ⟨p, newOwner, .ok⟩)
      else if pid ≠ p then .some (a, .some ⟨p, newOwner, .notOwner⟩)
      else if a.alive newOwner = true then .some ({ a with owner := .some newOwner }, .some ⟨p, newOwner, .ok⟩)
      else .some (a, .some ⟨p, newOwner, .badarg⟩)
  | .close => .some ({ a with owner := .none }, .none)
  | .exit p closes => .some (⟨if closes then .none else a.owner, Function.update a.alive p false⟩, .none)

/-- What was asked for by `p`, and the answers. -/
def answers {σ ε : Type} (p : Pid) (t : Runs.Trace σ ε (Option Return)) : List (Pid × Answer) :=
  t.filterMap fun x => x.out.bind fun r => if r.proc = p then .some (r.newOwner, r.answer) else .none

variable {s s' : Socket} {e : SocketEvent} {o : Option Return}

/-- Every outcome of a step. -/
inductive Does (s : Socket) : SocketEvent → Option Return → Socket → Prop
  | given {p n} : (s.proc p).alive = true → (s.proc p).phase = .idle → s.owner = .some n →
      Does s (.call p n) (.some ⟨p, n, .ok⟩) s
  | refused {p n pid} : (s.proc p).alive = true → (s.proc p).phase = .idle → s.owner = .some pid → pid ≠ n → pid ≠ p →
      Does s (.call p n) (.some ⟨p, n, .notOwner⟩) s
  | checks {p n} : (s.proc p).alive = true → (s.proc p).phase = .idle → s.owner = .some p → p ≠ n →
      Does s (.call p n) .none (s.enter p (.checked n))
  | gone {p n} : (s.proc p).alive = true → (s.proc p).phase = .idle → s.owner = .none →
      Does s (.call p n) (.some ⟨p, n, .einval⟩) s
  | connects {p n} : (s.proc p).phase = .checked n → s.owner ≠ .none → (s.proc n).alive = true →
      Does s (.connect p) .none ((s.connectTo n).enter p (.connected n))
  | raises {p n} : (s.proc p).phase = .checked n → (s.owner = .none ∨ (s.proc n).alive = false) →
      Does s (.connect p) (.some ⟨p, n, .badarg⟩) (s.enter p .idle)
  | unlinks {p n} : (s.proc p).phase = .connected n →
      Does s (.unlink p) (.some ⟨p, n, .ok⟩) (s.set p { s.proc p with linked := false, phase := .idle })
  | closes : Does s .close .none s.closed
  | ends {p normal} : (s.proc p).alive = true → s.Ends p normal →
      Does s (.exit p normal) .none (s.set p ⟨false, false, .idle⟩).closed
  | leaves {p normal} : (s.proc p).alive = true → ¬s.Ends p normal →
      Does s (.exit p normal) .none (s.set p ⟨false, false, .idle⟩)

theorem machine_does (hm : machine s e = .some (s', o)) : Does s e o s' := by
  cases e with
  | call p n =>
    simp only [machine] at hm
    split at hm
    next hfree =>
      split at hm
      next pid howner =>
        split at hm
        next heq =>
          cases hm
          exact .given hfree.1 hfree.2 (heq ▸ howner)
        next hne =>
          split at hm
          next hother =>
            cases hm
            exact .refused hfree.1 hfree.2 howner hne hother
          next hself =>
            obtain rfl := not_not.1 hself
            cases hm
            exact .checks hfree.1 hfree.2 howner hne
      next howner =>
        cases hm
        exact .gone hfree.1 hfree.2 howner
    next => cases hm
  | connect p =>
    simp only [machine] at hm
    split at hm
    next n hph =>
      split at hm
      next hopen =>
        cases hm
        exact .connects hph hopen.1 hopen.2
      next hno =>
        cases hm
        refine .raises hph ?_
        by_cases howner : s.owner = .none
        · exact .inl howner
        · exact .inr (Bool.eq_false_iff.2 fun ha => hno ⟨howner, ha⟩)
    next => cases hm
  | unlink p =>
    simp only [machine] at hm
    split at hm
    next n hph =>
      cases hm
      exact .unlinks hph
    next => cases hm
  | close =>
    cases hm
    exact .closes
  | exit p normal =>
    simp only [machine] at hm
    split at hm
    next hlive =>
      split at hm
      next hends =>
        cases hm
        exact .ends hlive hends
      next hno =>
        cases hm
        exact .leaves hlive hno
    next => cases hm

/-! ## What every step keeps -/

/-- A process that is past its question is the owner, while the port is open;
and besides the owner only a process in its call is linked. -/
structure Holds (owner : Option Pid) (p : Pid) (x : Proc) : Prop where
  checked : ∀ n, x.phase = .checked n → p ≠ n ∧ (owner = .some p ∨ owner = .none)
  busy : x.phase ≠ .idle → x.alive = true
  linked : x.linked = true → owner = .some p ∨ ∃ n, x.phase = .connected n

def Ok (s : Socket) : Prop := ∀ p, Holds s.owner p (s.proc p)

theorem ok_opened (p : Pid) (alive : Pid → Bool) : Ok (opened p alive) := by
  refine fun q => ⟨nofun, fun hq => absurd rfl hq, fun hq => .inl ?_⟩
  have hqp : q = p := by simpa [opened] using hq
  rw [hqp]
  rfl

theorem Ok.set {p : Pid} {x : Proc} (hi : Ok s) (hx : Holds s.owner p x) : Ok (s.set p x) := by
  intro q
  rw [set_proc, set_owner]
  split
  next heq => exact heq ▸ hx
  next => exact hi q

theorem Ok.closed (hi : Ok s) : Ok s.closed :=
  fun q => ⟨fun n hn => ⟨((hi q).checked n hn).1, .inr rfl⟩, (hi q).busy, nofun⟩

theorem holds_idle {owner : Option Pid} {p : Pid} {alive : Bool} : Holds owner p ⟨alive, false, .idle⟩ :=
  ⟨nofun, fun h => absurd rfl h, nofun⟩

theorem Ok.step (hi : Ok s) (hd : Does s e o s') : Ok s' := by
  cases hd with
  | given | refused | gone => exact hi
  | @checks p n hlive _ howner hne =>
    refine hi.set ⟨fun m hm => ?_, fun _ => hlive, fun _ => .inl howner⟩
    cases hm
    exact ⟨hne, .inl howner⟩
  | @connects p n hph hopen hlive =>
    have howner : s.owner = .some p := ((hi p).checked n hph).2.resolve_right hopen
    have hne : p ≠ n := ((hi p).checked n hph).1
    -- the owner is the caller, so nobody else is past its question
    have hother : ∀ q, q ≠ p → s.owner ≠ .some q := by
      intro q hq heq
      exact hq (Option.some.inj (heq.symm.trans howner))
    have hrest : ∀ q, q ≠ p → Holds (.some n) q (s.proc q) := by
      intro q hq
      refine ⟨fun m hm => ?_, (hi q).busy, fun hl => ?_⟩
      · exact absurd (((hi q).checked m hm).2.resolve_right hopen) (hother q hq)
      · exact .inr (((hi q).linked hl).resolve_left (hother q hq))
    intro q
    show Holds (.some n) q (((s.connectTo n).enter p (.connected n)).proc q)
    simp only [enter, connectTo, set_proc]
    by_cases hqp : q = p
    · subst hqp
      rw [if_pos rfl, if_neg hne]
      refine ⟨nofun, fun _ => (hi q).busy fun hidle => ?_, fun _ => .inr ⟨n, rfl⟩⟩
      rw [hph] at hidle
      cases hidle
    · rw [if_neg hqp]
      split
      next heq =>
        subst heq
        exact ⟨(hrest q hqp).checked, (hrest q hqp).busy, fun _ => .inl rfl⟩
      next => exact hrest q hqp
  | @raises p n hph =>
    refine hi.set ⟨nofun, fun h => absurd rfl h, fun hl => ?_⟩
    rcases (hi p).linked hl with howner | ⟨m, hm⟩
    · exact .inl howner
    · rw [hph] at hm
      cases hm
  | @unlinks p => exact hi.set holds_idle
  | closes => exact hi.closed
  | ends => exact (hi.set holds_idle).closed
  | leaves => exact hi.set holds_idle

/-! ## The steps of a transfer -/

def abs (s : Socket) : Owner := ⟨s.owner, fun p => (s.proc p).alive⟩

/-- The answer a call has before it returns. -/
def Phase.due : Phase → List (Pid × Answer)
  | .connected n => [(n, .ok)]
  | _ => []

def due (s : Socket) (p : Pid) : List (Pid × Answer) := (s.proc p).phase.due

/-- The calls of each process have returned what its transfers answered, up to
the one it is still in, or was in when it ended. -/
def Agree (s : Socket) (t : SocketTrace) (u : OwnerTrace) : Prop :=
  ∀ p, ∃ rest, answers p u = answers p t ++ rest ∧ ((s.proc p).alive = true → rest = due s p)

variable {t : SocketTrace} {u : OwnerTrace}

theorem answers_nil {σ ε : Type} (p : Pid) : answers p ([] : Runs.Trace σ ε (Option Return)) = [] := rfl

theorem answers_append {σ ε : Type} (p : Pid) (t u : Runs.Trace σ ε (Option Return)) :
    answers p (t ++ u) = answers p t ++ answers p u := List.filterMap_append

theorem answers_one {σ ε : Type} (p : Pid) (r : Return) (a : σ) (e : ε) :
    answers p [⟨a, e, .some r⟩] = if r.proc = p then [(r.newOwner, r.answer)] else [] := by
  by_cases hrp : r.proc = p <;> simp [answers, hrp]

theorem answers_none {σ ε : Type} (p : Pid) (a : σ) (e : ε) : answers p [⟨a, e, .none⟩] = [] := rfl

/-- A step with what it takes of transfers: of the answers of a process that
lives, the first are returned, and the others are due. -/
theorem Agree.step {x : Runs.Entry Socket SocketEvent (Option Return)} {ys : OwnerTrace} (h : Agree s t u)
    (hlive : ∀ p, (s'.proc p).alive = true → (s.proc p).alive = true ∧
      due s p ++ answers p ys = answers p [x] ++ due s' p)
    (hdead : ∀ p, (s'.proc p).alive = false → answers p [x] = [] ∧ answers p ys = []) :
    Agree s' (t ++ [x]) (u ++ ys) := by
  intro p
  obtain ⟨rest, hrest, hdue⟩ := h p
  simp only [answers_append, hrest, List.append_assoc]
  cases ha : (s'.proc p).alive with
  | true =>
    obtain ⟨hold, heq⟩ := hlive p ha
    refine ⟨due s' p, ?_, fun _ => rfl⟩
    rw [hdue hold, heq]
  | false =>
    obtain ⟨hx, hys⟩ := hdead p ha
    refine ⟨rest, ?_, nofun⟩
    rw [hx, hys, List.append_nil, List.nil_append]

theorem Agree.both {r : Return} {a : Owner} {e' : OwnerEvent} (h : Agree s t u)
    (hr : (s'.proc r.proc).alive = true) (hdue : due s r.proc = []) (hsame : ∀ p, due s' p = due s p)
    (hold : ∀ p, (s'.proc p).alive = (s.proc p).alive) :
    Agree s' (t ++ [⟨s, e, .some r⟩]) (u ++ [⟨a, e', .some r⟩]) := by
  refine h.step (fun p hp => ⟨hold p ▸ hp, ?_⟩) fun p hp => ?_
  · rw [answers_one, answers_one, hsame]
    by_cases hrp : r.proc = p
    · rw [if_pos hrp, ← hrp, hdue]
      rfl
    · rw [if_neg hrp, List.append_nil, List.nil_append]
  · have hrp : r.proc ≠ p := by
      intro heq
      rw [← heq, hr] at hp
      cases hp
    rw [answers_one, answers_one, if_neg hrp]
    exact ⟨rfl, rfl⟩

theorem Agree.silent {ys : OwnerTrace} (h : Agree s t u) (hys : ∀ p, answers p ys = [])
    (hold : ∀ p, (s'.proc p).alive = true → (s.proc p).alive = true ∧ due s' p = due s p) :
    Agree s' (t ++ [⟨s, e, .none⟩]) (u ++ ys) := by
  refine h.step (fun p hp => ⟨(hold p hp).1, ?_⟩) fun p _ => ⟨rfl, hys p⟩
  rw [hys, answers_none, (hold p hp).2, List.append_nil, List.nil_append]

theorem alive_set {p : Pid} {x : Proc} (hx : x.alive = (s.proc p).alive) (q : Pid) :
    ((s.set p x).proc q).alive = (s.proc q).alive := by
  rw [set_proc]
  split
  next heq => rw [hx, heq]
  next => rfl

theorem alive_enter {p : Pid} {ph : Phase} (q : Pid) : ((s.enter p ph).proc q).alive = (s.proc q).alive :=
  alive_set (x := { s.proc p with phase := ph }) rfl q

theorem alive_connectTo {n : Pid} (q : Pid) : ((s.connectTo n).proc q).alive = (s.proc q).alive :=
  alive_set (x := { s.proc n with linked := true }) rfl q

theorem alive_unlink {p : Pid} (q : Pid) :
    ((s.set p { s.proc p with linked := false, phase := .idle }).proc q).alive = (s.proc q).alive :=
  alive_set (x := { s.proc p with linked := false, phase := .idle }) rfl q

theorem abs_set {p : Pid} {x : Proc} (hx : x.alive = (s.proc p).alive) : abs (s.set p x) = abs s :=
  congrArg (Owner.mk s.owner) (funext (alive_set hx))

theorem due_set {p q : Pid} {x : Proc} (hx : x.phase.due = (s.proc p).phase.due) : due (s.set p x) q = due s q := by
  unfold due
  rw [set_proc]
  split
  next heq => rw [hx, heq]
  next => rfl

theorem abs_closed : abs s.closed = { abs s with owner := .none } := rfl

theorem abs_exit {p : Pid} :
    abs (s.set p ⟨false, false, .idle⟩) = ⟨s.owner, Function.update (abs s).alive p false⟩ := by
  refine congrArg (Owner.mk s.owner) (funext fun q => ?_)
  simp only [abs, set_proc, Function.update_apply]
  split <;> rfl

theorem live_exit {p q : Pid} (hq : ((s.set p ⟨false, false, .idle⟩).proc q).alive = true) :
    (s.proc q).alive = true ∧ due (s.set p ⟨false, false, .idle⟩) q = due s q := by
  have hqp : q ≠ p := by
    intro heq
    simp [heq] at hq
  simpa [due, hqp] using hq

/-- Any transfers, closings and exits. -/
def Any : Runs.Guard Owner OwnerEvent (Option Return) := fun _ _ _ => True

/-- **Each step is none or one of the atomic machine.** -/
theorem transfer_step (hi : Ok s) (ha : Agree s t u) (hd : Does s e o s') :
    ∃ u', Runs.Run atomic Any u (abs s) u' (abs s') ∧ Agree s' (t ++ [⟨s, e, o⟩]) u' := by
  have hidle : ∀ {p}, (s.proc p).phase = .idle → due s p = [] := by
    intro p hp
    rw [due, hp]
    rfl
  cases hd with
  | @given p n hlive hph howner =>
    have hstep : atomic (abs s) (.transfer p n false) = .some (abs s, .some ⟨p, n, .ok⟩) := by
      simp [atomic, abs, howner]
    exact ⟨_, Runs.Run.refl.step trivial hstep, ha.both hlive (hidle hph) (fun _ => rfl) fun _ => rfl⟩
  | @refused p n pid hlive hph howner hne hother =>
    have hstep : atomic (abs s) (.transfer p n false) = .some (abs s, .some ⟨p, n, .notOwner⟩) := by
      simp [atomic, abs, howner, hne, hother]
    exact ⟨_, Runs.Run.refl.step trivial hstep, ha.both hlive (hidle hph) (fun _ => rfl) fun _ => rfl⟩
  | @gone p n hlive hph howner =>
    have hstep : atomic (abs s) (.transfer p n false) = .some (abs s, .some ⟨p, n, .einval⟩) := by
      simp [atomic, abs, howner]
    exact ⟨_, Runs.Run.refl.step trivial hstep, ha.both hlive (hidle hph) (fun _ => rfl) fun _ => rfl⟩
  | @checks p n hlive hph howner hne =>
    have hsame : abs (s.enter p (.checked n)) = abs s := abs_set rfl
    rw [hsame]
    refine ⟨u ++ [], by rw [List.append_nil]; exact .refl, ha.silent (fun _ => rfl) fun q hq => ⟨?_, ?_⟩⟩
    · rwa [alive_enter] at hq
    · exact due_set (by rw [hph]; rfl)
  | @connects p n hph hopen hlive =>
    obtain ⟨hne, howner⟩ := (hi p).checked n hph
    have hbusy : (s.proc p).alive = true := (hi p).busy (by rw [hph]; nofun)
    have hstep : atomic (abs s) (.transfer p n false) = .some ({ abs s with owner := .some n }, .some ⟨p, n, .ok⟩) := by
      simp [atomic, abs, howner.resolve_right hopen, hne, hlive]
    have halive : ∀ q, (((s.connectTo n).enter p (.connected n)).proc q).alive = (s.proc q).alive :=
      fun q => (alive_enter q).trans (alive_connectTo q)
    have hsame : abs ((s.connectTo n).enter p (.connected n)) = { abs s with owner := .some n } :=
      congrArg (Owner.mk (.some n)) (funext halive)
    rw [hsame]
    refine ⟨_, Runs.Run.refl.step trivial hstep, ha.step (fun q hq => ⟨halive q ▸ hq, ?_⟩) fun q hq => ⟨rfl, ?_⟩⟩
    · rw [answers_one, answers_none, List.nil_append]
      by_cases hqp : p = q
      · subst hqp
        simp [due, enter, hph, Phase.due]
      · have hdue : due ((s.connectTo n).enter p (.connected n)) q = due s q := by
          simp only [due, enter, set_proc, if_neg (Ne.symm hqp), connectTo]
          split
          next heq => rw [heq]
          next => rfl
        rw [if_neg hqp, hdue, List.append_nil]
    · rw [answers_one, if_neg]
      intro hpq
      rw [halive, ← hpq, hbusy] at hq
      cases hq
  | @raises p n hph hno =>
    obtain ⟨hne, howner⟩ := (hi p).checked n hph
    have hbusy : (s.proc p).alive = true := (hi p).busy (by rw [hph]; nofun)
    have hsame : abs (s.enter p .idle) = abs s := abs_set rfl
    have hstep : atomic (abs s) (.transfer p n true) = .some (abs s, .some ⟨p, n, .badarg⟩) := by
      rcases howner with howner | howner
      · have hdead : (s.proc n).alive = false := hno.resolve_left (by rw [howner]; nofun)
        simp [atomic, abs, howner, hne, hdead]
      · simp [atomic, abs, howner]
    rw [hsame]
    refine ⟨_, Runs.Run.refl.step trivial hstep, ha.both ?_ ?_ (fun q => ?_) alive_enter⟩
    · rwa [alive_enter]
    · rw [due, hph]
      rfl
    · exact due_set (by rw [hph]; rfl)
  | @unlinks p n hph =>
    have hbusy : (s.proc p).alive = true := (hi p).busy (by rw [hph]; nofun)
    have hsame : abs (s.set p { s.proc p with linked := false, phase := .idle }) = abs s := abs_set rfl
    rw [hsame]
    refine ⟨u ++ [], by rw [List.append_nil]; exact .refl, ha.step (fun q hq => ⟨?_, ?_⟩) fun q hq => ⟨?_, rfl⟩⟩
    · rwa [alive_unlink] at hq
    · rw [answers_one, answers_nil, List.append_nil]
      by_cases hqp : p = q
      · subst hqp
        simp only [due, hph, set_proc, if_pos]
        rfl
      · simp [due, hqp, Ne.symm hqp]
    · rw [answers_one, if_neg]
      intro hpq
      rw [alive_unlink, ← hpq, hbusy] at hq
      cases hq
  | closes =>
    have hstep : atomic (abs s) .close = .some (abs s.closed, .none) := rfl
    exact ⟨_, Runs.Run.refl.step trivial hstep, ha.silent (fun _ => rfl) fun q hq => ⟨hq, rfl⟩⟩
  | @ends p normal hlive hends =>
    have hstep : atomic (abs s) (.exit p true) = .some (abs (s.set p ⟨false, false, .idle⟩).closed, .none) := by
      rw [abs_closed, abs_exit]
      rfl
    exact ⟨_, Runs.Run.refl.step trivial hstep, ha.silent (fun _ => rfl) fun q hq => live_exit hq⟩
  | @leaves p normal hlive hends =>
    have hstep : atomic (abs s) (.exit p false) = .some (abs (s.set p ⟨false, false, .idle⟩), .none) := by
      rw [abs_exit]
      rfl
    exact ⟨_, Runs.Run.refl.step trivial hstep, ha.silent (fun _ => rfl) fun q hq => live_exit hq⟩

/-- **A transfer is one step.** Whatever comes between the three calls of the
runtime, the port and what the calls return are as if each call had been one
step. -/
theorem transfers_atomic {G : Runs.Guard Socket SocketEvent (Option Return)} {p : Pid} {alive : Pid → Bool}
    (h : Runs.Run machine G [] (opened p alive) t s) :
    ∃ u, Runs.Run atomic Any [] ⟨.some p, alive⟩ u ⟨s.owner, fun q => (s.proc q).alive⟩ ∧ Agree s t u := by
  have key : ∃ u a, Runs.Run atomic Any [] (abs (opened p alive)) u a ∧ Ok s ∧ a = abs s ∧ Agree s t u := by
    refine h.follows (I := fun t s u a => Ok s ∧ a = abs s ∧ Agree s t u) ⟨ok_opened p alive, rfl, ?_⟩ ?_
    · exact fun q => ⟨[], rfl, fun _ => rfl⟩
    · intro t s e s' o u a hi _ hm
      obtain ⟨hok, rfl, hagree⟩ := hi
      have hd := machine_does hm
      obtain ⟨u', hrun, hagree'⟩ := transfer_step hok hagree hd
      exact ⟨u', _, hrun, hok.step hd, rfl, hagree'⟩
  obtain ⟨u, a, hrun, -, rfl, hagree⟩ := key
  exact ⟨u, hrun, hagree⟩

/-- While the port is on its way from process 0 to process 1, process 2 asks
for it, and process 1 closes it before process 0 returns. -/
theorem transfers_atomic_closed : ∃ t s u, Runs.Run machine (fun _ _ _ => True) [] (opened 0 fun _ => true) t s ∧
    answers 0 t = [(1, .ok)] ∧ answers 2 t = [(2, .notOwner)] ∧
    Runs.Run atomic Any [] ⟨.some 0, fun _ => true⟩ u ⟨.none, fun q => (s.proc q).alive⟩ ∧ Agree s t u := by
  have run := (((((Runs.Run.start machine (fun _ _ _ => True) (opened 0 fun _ => true)).next (.call 0 1) trivial
    rfl).next (.call 2 2) trivial rfl).next (.connect 0) trivial rfl).next .close trivial rfl).next (.unlink 0)
    trivial rfl
  obtain ⟨u, hrun, hagree⟩ := transfers_atomic run
  exact ⟨_, _, u, run, rfl, rfl, hrun, hagree⟩

/-! ## The link of the owner -/

/-- The port ends when its owner does, however that ends. -/
def Tied (s : Socket) : Prop := ∀ p, s.owner = .some p → (s.proc p).alive = true ∧ ∀ normal, s.Ends p normal

/-- A call that goes on after the port has come back to its caller. -/
def Unties (x : Runs.Entry Socket SocketEvent (Option Return)) : Prop :=
  ∃ p, x.event = .unlink p ∧ x.pre.owner = .some p

theorem tied_iff : Tied s ↔ ∀ p, s.owner = .some p → (s.proc p).alive = true ∧ (s.proc p).linked = true := by
  refine forall₂_congr fun p hp => and_congr_right fun _ => ?_
  exact ⟨fun h => (h true).1, fun h _ => ⟨h, .inl hp⟩⟩

theorem tied_opened {p : Pid} {alive : Pid → Bool} (hp : alive p = true) : Tied (opened p alive) := by
  rw [tied_iff]
  intro q hq
  cases hq
  exact ⟨hp, by simp [opened]⟩

theorem Tied.set {p : Pid} {x : Proc} (ht : Tied s) (hx : s.owner = .some p → x.alive = true ∧ x.linked = true) :
    Tied (s.set p x) := by
  rw [tied_iff] at ht ⊢
  intro q hq
  rw [set_proc]
  split
  next heq => exact hx (heq ▸ hq)
  next => exact ht q hq

theorem Tied.enter {p : Pid} {ph : Phase} (ht : Tied s) : Tied (s.enter p ph) := ht.set (tied_iff.1 ht p)

theorem tied_connectTo {n : Pid} (hn : (s.proc n).alive = true) : Tied (s.connectTo n) := by
  rw [tied_iff]
  intro q hq
  cases hq
  simp [connectTo, hn]

/-- An unlink of the owner, and nothing else, unties the port. -/
theorem tied_step (ht : Tied s) (hd : Does s e o s') : Tied s' ↔ ¬Unties ⟨s, e, o⟩ := by
  cases hd with
  | given | refused | gone => exact iff_of_true ht (by simp [Unties])
  | checks | raises => exact iff_of_true ht.enter (by simp [Unties])
  | connects _ _ hn => exact iff_of_true (tied_connectTo hn).enter (by simp [Unties])
  | closes | ends => exact iff_of_true nofun (by simp [Unties])
  | @leaves p normal _ hno =>
    refine iff_of_true (ht.set fun howner => ?_) (by simp [Unties])
    exact absurd ((ht p howner).2 normal) hno
  | @unlinks p n =>
    by_cases howner : s.owner = .some p
    · refine iff_of_false (fun h => ?_) (not_not.2 ⟨p, rfl, howner⟩)
      have hlinked := (tied_iff.1 h p howner).2
      simp at hlinked
    · refine iff_of_true (ht.set fun h => absurd h howner) ?_
      simpa [Unties] using howner

/-- **A port ends with its owner, unless a call takes its link away.** In a run
from the opening of a port, an open port always ends with its owner exactly
when no process goes on to remove its link after the port has come back to it. -/
theorem ends_with_owner_iff {G : Runs.Guard Socket SocketEvent (Option Return)} {p : Pid} {alive : Pid → Bool}
    (hp : alive p = true) (h : Runs.Run machine G [] (opened p alive) t s) :
    Runs.Each (Runs.After machine fun _ s => Tied s) t ↔ Runs.Each (fun _ x => ¬Unties x) t :=
  h.each_iff (I := fun _ _ => True) trivial (tied_opened hp) fun _ _ _ _ _ _ ht _ hm =>
    ⟨trivial, tied_step ht (machine_does hm)⟩

/-- Process 1 hands the port back before process 0 has removed its link. -/
theorem ends_with_owner_iff_crossed : ∃ t s, Runs.Run machine (fun _ _ _ => True) [] (opened 0 fun _ => true) t s ∧
    s.owner = .some 0 ∧ (s.proc 0).linked = false ∧ ¬Runs.Each (Runs.After machine fun _ s => Tied s) t := by
  have run₀ := (((Runs.Run.start machine (fun _ _ _ => True) (opened 0 fun _ => true)).next (.call 0 1) trivial
    rfl).next (.connect 0) trivial rfl).next (.call 1 0) trivial rfl
  have run₁ := (run₀.next (.connect 1) trivial rfl).next (.unlink 0) trivial rfl
  refine ⟨_, _, run₁, rfl, rfl, fun h => ?_⟩
  exact (ends_with_owner_iff rfl run₁).1 h _ _ [] rfl ⟨0, rfl, rfl⟩

end Ownership

end GenUtp
