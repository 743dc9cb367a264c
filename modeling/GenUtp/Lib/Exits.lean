/-
Programs that return or raise, over a state that both leave behind: the
exceptions of Erlang, and what holds at every exit.

`Ends c Q s` is the weakest precondition of such a program: `Q` holds of how
`c` ends and of the state it ends in. There is one rule for each construct,
for `try` in both its forms (with and without a clause for the result) and
for `after`, which runs at every exit. As a program has one exit from each
state, each rule is an equivalence, and the rules are simp lemmas: together
they walk a program to its exits.
-/
import Mathlib.Tactic.TypeStar

namespace Exits

/-- A program that returns an `α` or raises an `ε`. -/
abbrev Prog (σ ε α : Type) := ExceptT ε (StateM σ) α

variable {σ ε α β : Type}

/-- A program by its exit and its last state. -/
def prog (f : σ → Except ε α × σ) : Prog σ ε α := f

/-- `try c catch .. end`: the handler takes the exceptions that match, once
`c` has stopped. -/
def catching (c : Prog σ ε α) (handler : ε → Option (Prog σ ε α)) : Prog σ ε α := prog fun s =>
  match c s with
  | (.error e, s') =>
    match handler e with
    | .some c' => c' s'
    | .none => (.error e, s')
  | r => r

/-- `try c of .. catch .. end`: what follows a result is not protected. -/
def tryOf (c : Prog σ ε α) (next : α → Prog σ ε β) (handler : ε → Option (Prog σ ε β)) : Prog σ ε β := prog fun s =>
  match c s with
  | (.ok a, s') => next a s'
  | (.error e, s') =>
    match handler e with
    | .some c' => c' s'
    | .none => (.error e, s')

/-- `try c after f end`: `f` runs at either exit, and what it raises takes the
place of the exit. -/
def after (c : Prog σ ε α) (f : Prog σ ε Unit) : Prog σ ε α := prog fun s =>
  match c s with
  | (r, s') =>
    match f s' with
    | (.ok _, s'') => (r, s'')
    | (.error e, s'') => (.error e, s'')

/-- `Q` holds of the exit of `c` from `s`, and of the state there. -/
def Ends (c : Prog σ ε α) (Q : Except ε α → σ → Prop) (s : σ) : Prop := Q (c s).1 (c s).2

variable {c : Prog σ ε α} {s : σ}

@[simp] theorem ends_pure (a : α) (Q : Except ε α → σ → Prop) : Ends (pure a) Q s ↔ Q (.ok a) s := Iff.rfl

@[simp] theorem ends_throw (e : ε) (Q : Except ε α → σ → Prop) : Ends (throw e) Q s ↔ Q (.error e) s := Iff.rfl

@[simp] theorem ends_prog (f : σ → Except ε α × σ) (Q : Except ε α → σ → Prop) :
    Ends (prog f) Q s ↔ Q (f s).1 (f s).2 := Iff.rfl

/-- Sequence: the second program runs when the first returns. -/
@[simp] theorem ends_bind (f : α → Prog σ ε β) (Q : Except ε β → σ → Prop) :
    Ends (c >>= f) Q s ↔ Ends c (fun r s' => match r with
      | .ok a => Ends (f a) Q s'
      | .error e => Q (.error e) s') s := by
  have hbind : (c >>= f) s = match c s with
      | (.ok a, s') => f a s'
      | (.error e, s') => (.error e, s') := by
    show (StateT.bind c (ExceptT.bindCont f)) s = _
    simp only [StateT.bind, bind]
    rcases c s with ⟨_ | _, _⟩ <;> rfl
  unfold Ends
  rw [hbind]
  rcases c s with ⟨_ | _, _⟩ <;> rfl

@[simp] theorem ends_map (f : α → β) (Q : Except ε β → σ → Prop) :
    Ends (f <$> c) Q s ↔ Ends c (fun r s' => match r with
      | .ok a => Q (.ok (f a)) s'
      | .error e => Q (.error e) s') s := by
  rw [← bind_pure_comp, ends_bind]
  rfl

@[simp] theorem ends_catching (handler : ε → Option (Prog σ ε α)) (Q : Except ε α → σ → Prop) :
    Ends (catching c handler) Q s ↔ Ends c (fun r s' => match r with
      | .ok a => Q (.ok a) s'
      | .error e => match handler e with
        | .some c' => Ends c' Q s'
        | .none => Q (.error e) s') s := by
  simp only [Ends, catching, prog]
  rcases c s with ⟨e | a, s'⟩
  · dsimp only
    cases handler e <;> rfl
  · rfl

@[simp] theorem ends_tryOf (next : α → Prog σ ε β) (handler : ε → Option (Prog σ ε β)) (Q : Except ε β → σ → Prop) :
    Ends (tryOf c next handler) Q s ↔ Ends c (fun r s' => match r with
      | .ok a => Ends (next a) Q s'
      | .error e => match handler e with
        | .some c' => Ends c' Q s'
        | .none => Q (.error e) s') s := by
  simp only [Ends, tryOf, prog]
  rcases c s with ⟨e | a, s'⟩
  · dsimp only
    cases handler e <;> rfl
  · rfl

@[simp] theorem ends_after (f : Prog σ ε Unit) (Q : Except ε α → σ → Prop) :
    Ends (after c f) Q s ↔ Ends c (fun r s' => Ends f (fun r' s'' => match r' with
      | .ok _ => Q r s''
      | .error e => Q (.error e) s'') s') s := by
  simp only [Ends, after, prog]
  rcases c s with ⟨r, s'⟩
  dsimp only
  rcases f s' with ⟨_ | _, _⟩ <;> rfl

/-- What holds at the exit may be weakened. -/
theorem Ends.mono {Q Q' : Except ε α → σ → Prop} (h : Ends c Q s) (hq : ∀ r s', Q r s' → Q' r s') : Ends c Q' s :=
  hq _ _ h

end Exits
