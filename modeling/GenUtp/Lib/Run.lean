/-
Runs of a partial machine under an environment.

A machine answers an event with its next state and what it put out, or with
`none` where its behaviour is undefined. The environment is a guard: given
the trace so far and the state, which event may come next. A run is any
sequence of allowed events whose steps are all defined, together with its
trace, and a statement about every run is a statement about every order in
which the environment may act.

`Run.invariant` is the rule everything else goes through: what holds at the
start and is kept by every allowed step holds after every run. `Run.follows`
is the rule for a second machine that goes along, `Run.mono` weakens the guard
of a run, `Run.since` is the rule for what one step begins, `Run.since_iff`
for what some steps begin and others end, and `Each` says of a trace what each
of its steps did in view of the steps before it.
-/
import Mathlib.Data.List.Basic

namespace Runs

variable {σ ε ο : Type*}

/-- A partial machine: `none` where the behaviour is undefined. -/
abbrev Machine (σ ε ο : Type*) := σ → ε → Option (σ × ο)

/-- One step: the state it was taken in, the event, and what it put out. -/
structure Entry (σ ε ο : Type*) where
  pre : σ
  event : ε
  out : ο

/-- What happened so far. -/
abbrev Trace (σ ε ο : Type*) := List (Entry σ ε ο)

/-- Which event the environment may deliver next. -/
abbrev Guard (σ ε ο : Type*) := Trace σ ε ο → σ → ε → Prop

/-- Runs from `s₀`, where `t₀` has already happened. -/
inductive Run (M : Machine σ ε ο) (G : Guard σ ε ο) (t₀ : Trace σ ε ο) (s₀ : σ) : Trace σ ε ο → σ → Prop
  | refl : Run M G t₀ s₀ t₀ s₀
  | step {t s e s' o} : Run M G t₀ s₀ t s → G t s e → M s e = .some (s', o) →
      Run M G t₀ s₀ (t ++ [⟨s, e, o⟩]) s'

variable {M : Machine σ ε ο} {G G' : Guard σ ε ο} {t₀ t t' : Trace σ ε ο} {s₀ s s' : σ}

theorem Run.start (M : Machine σ ε ο) (G : Guard σ ε ο) (s : σ) : Run M G [] s [] s := .refl

theorem Run.next {r : σ × ο} (h : Run M G t₀ s₀ t s) (e : ε) (hg : G t s e) (hm : M s e = .some r) :
    Run M G t₀ s₀ (t ++ [⟨s, e, r.2⟩]) r.1 := h.step hg hm

theorem Run.trans (h : Run M G t₀ s₀ t s) (h' : Run M G t s t' s') : Run M G t₀ s₀ t' s' := by
  induction h' with
  | refl => exact h
  | step _ hg hm ih => exact ih.step hg hm

/-- What holds at the start and is kept by every allowed step holds after
every run. -/
theorem Run.invariant {I : Trace σ ε ο → σ → Prop} (h₀ : I t₀ s₀)
    (hs : ∀ t s e s' o, I t s → G t s e → M s e = .some (s', o) → I (t ++ [⟨s, e, o⟩]) s')
    (h : Run M G t₀ s₀ t s) : I t s := by
  induction h with
  | refl => exact h₀
  | step _ hg hm ih => exact hs _ _ _ _ _ ih hg hm

/-- An abstract machine that goes along, however many of its steps each step
takes, has a run of its own. -/
theorem Run.follows {σ' ε' ο' : Type*} {A : Machine σ' ε' ο'} {H : Guard σ' ε' ο'} {a₀ : σ'}
    {I : Trace σ ε ο → σ → Trace σ' ε' ο' → σ' → Prop} (h₀ : I [] s₀ [] a₀)
    (hs : ∀ t s e s' o u a, I t s u a → G t s e → M s e = .some (s', o) →
      ∃ u' a', Run A H u a u' a' ∧ I (t ++ [⟨s, e, o⟩]) s' u' a')
    (h : Run M G [] s₀ t s) : ∃ u a, Run A H [] a₀ u a ∧ I t s u a := by
  induction h with
  | refl => exact ⟨[], a₀, .refl, h₀⟩
  | step _ hg hm ih =>
    obtain ⟨u, a, hrun, hi⟩ := ih
    obtain ⟨u', a', hmore, hi'⟩ := hs _ _ _ _ _ u a hi hg hm
    exact ⟨u', a', hrun.trans hmore, hi'⟩

/-- A run under a stricter guard is a run. -/
theorem Run.mono (hG : ∀ t s e, G t s e → G' t s e) (h : Run M G t₀ s₀ t s) : Run M G' t₀ s₀ t s := by
  induction h with
  | refl => exact .refl
  | step _ hg hm ih => exact .step ih (hG _ _ _ hg) hm

/-- Each entry of a run's trace is an allowed step of the machine. -/
theorem Run.entry {x : Entry σ ε ο} (h : Run M G t₀ s₀ t s) (hx : x ∈ t) :
    x ∈ t₀ ∨ ∃ t₁ s₁, G t₁ x.pre x.event ∧ M x.pre x.event = .some (s₁, x.out) := by
  induction h with
  | refl => exact .inl hx
  | step _ hg hm ih =>
    rcases List.mem_append.1 hx with hx | hx
    · exact ih hx
    · obtain rfl := List.mem_singleton.1 hx
      exact .inr ⟨_, _, hg, hm⟩

/-! ## Steps of a trace -/

/-- `P` holds of each step of a trace, in view of the steps before it. -/
def Each (P : Trace σ ε ο → Entry σ ε ο → Prop) (t : Trace σ ε ο) : Prop :=
  ∀ t₁ x t₂, t = t₁ ++ x :: t₂ → P t₁ x

variable {P : Trace σ ε ο → Entry σ ε ο → Prop} {x : Entry σ ε ο}

theorem Each.nil : Each P [] := by
  intro t₁ x t₂ h
  simp at h

theorem Each.snoc (h : Each P t) (hp : P t x) : Each P (t ++ [x]) := by
  intro t₁ y t₂ ht
  rcases List.eq_nil_or_concat t₂ with rfl | ⟨u, z, rfl⟩
  · obtain ⟨rfl, hx⟩ := List.append_inj' ht rfl
    obtain rfl := List.head_eq_of_cons_eq hx
    exact hp
  · rw [List.concat_eq_append, ← List.cons_append, ← List.append_assoc] at ht
    obtain ⟨rfl, -⟩ := List.append_inj' ht rfl
    exact h _ _ _ rfl

theorem each_snoc : Each P (t ++ [x]) ↔ Each P t ∧ P t x := by
  refine ⟨fun h => ⟨fun t₁ y t₂ ht => h t₁ y (t₂ ++ [x]) (by simp [ht]), h t x [] rfl⟩, fun h => h.1.snoc h.2⟩

/-- What a step of kind `A` begins and the steps of kind `K` keep holds of the
part of a run from such a step on, as long as only steps of kind `K` follow. -/
theorem Run.since {A K : Entry σ ε ο → Prop} {J : Trace σ ε ο → σ → Prop}
    (ha : ∀ s e s' o, A ⟨s, e, o⟩ → M s e = .some (s', o) → J [⟨s, e, o⟩] s')
    (hk : ∀ t s e s' o, J t s → K ⟨s, e, o⟩ → M s e = .some (s', o) → J (t ++ [⟨s, e, o⟩]) s')
    (h : Run M G [] s₀ t s) : ∀ t₁ a t₂, t = t₁ ++ a :: t₂ → A a → (∀ x ∈ t₂, K x) → J (a :: t₂) s := by
  refine h.invariant (I := fun t s => ∀ t₁ a t₂, t = t₁ ++ a :: t₂ → A a → (∀ x ∈ t₂, K x) → J (a :: t₂) s) ?_ ?_
  · intro t₁ a t₂ ht
    cases t₁ <;> cases ht
  · intro t s e s' o hi _ hm t₁ a t₂ ht hbegins hkeep
    -- the last step is the first of the part, or comes after it
    rcases List.eq_nil_or_concat t₂ with rfl | ⟨u, z, rfl⟩
    · obtain ⟨-, hlast⟩ := List.append_inj' ht rfl
      obtain rfl := List.head_eq_of_cons_eq hlast
      exact ha s e s' o hbegins hm
    · rw [List.concat_eq_append] at ht hkeep ⊢
      rw [← List.cons_append, ← List.append_assoc] at ht
      obtain ⟨hrest, hlast⟩ := List.append_inj' ht rfl
      obtain rfl := List.head_eq_of_cons_eq hlast
      rw [List.forall_mem_append, List.forall_mem_singleton] at hkeep
      exact hk (a :: u) s e s' o (hi t₁ a u hrest hbegins hkeep.1) hkeep.2 hm

/-- Some step of kind `A` was taken, and none of kind `B` after it. -/
def Since (A B : Entry σ ε ο → Prop) (t : Trace σ ε ο) : Prop :=
  ∃ t₁ a t₂, t = t₁ ++ a :: t₂ ∧ A a ∧ ∀ x ∈ t₂, ¬B x

section Since

variable {A B : Entry σ ε ο → Prop}

theorem not_since_nil : ¬Since A B [] := by
  intro h
  obtain ⟨t₁, a, t₂, ht, -⟩ := h
  cases t₁ <;> cases ht

theorem since_snoc : Since A B (t ++ [x]) ↔ A x ∨ Since A B t ∧ ¬B x := by
  constructor
  · intro h
    obtain ⟨t₁, a, t₂, ht, ha, hno⟩ := h
    rcases List.eq_nil_or_concat t₂ with rfl | ⟨u, z, rfl⟩
    · obtain ⟨-, hlast⟩ := List.append_inj' ht rfl
      obtain rfl := List.head_eq_of_cons_eq hlast
      exact .inl ha
    · rw [List.concat_eq_append] at ht hno
      rw [← List.cons_append, ← List.append_assoc] at ht
      obtain ⟨hrest, hlast⟩ := List.append_inj' ht rfl
      obtain rfl := List.head_eq_of_cons_eq hlast
      rw [List.forall_mem_append, List.forall_mem_singleton] at hno
      exact .inr ⟨⟨t₁, a, u, hrest, ha, hno.1⟩, hno.2⟩
  · intro h
    rcases h with ha | ⟨⟨t₁, a, t₂, rfl, ha, hno⟩, hb⟩
    · exact ⟨t, x, [], rfl, ha, by simp⟩
    · refine ⟨t₁, a, t₂ ++ [x], by simp, ha, ?_⟩
      rw [List.forall_mem_append, List.forall_mem_singleton]
      exact ⟨hno, hb⟩

/-- What steps of kind `A` begin, steps of kind `B` end and no others change
holds exactly since the last that began it. -/
theorem Run.since_iff {I : Trace σ ε ο → σ → Prop} {Q : σ → Prop} (h₀ : I [] s₀) (hq : ¬Q s₀)
    (hs : ∀ t s e s' o, I t s → G t s e → M s e = .some (s', o) →
      I (t ++ [⟨s, e, o⟩]) s' ∧ (Q s' ↔ A ⟨s, e, o⟩ ∨ Q s ∧ ¬B ⟨s, e, o⟩))
    (h : Run M G [] s₀ t s) : Q s ↔ Since A B t := by
  have key : I t s ∧ (Q s ↔ Since A B t) := by
    refine h.invariant (I := fun t s => I t s ∧ (Q s ↔ Since A B t)) ⟨h₀, iff_of_false hq not_since_nil⟩ ?_
    intro t s e s' o hi hg hm
    obtain ⟨hinv, hiff⟩ := hi
    obtain ⟨hinv', hstep⟩ := hs t s e s' o hinv hg hm
    refine ⟨hinv', ?_⟩
    rw [hstep, since_snoc, hiff]
  exact key.2

end Since

/-- What every allowed step does, each step of a run does, and what it keeps
holds after the run. -/
theorem Run.each {I : Trace σ ε ο → σ → Prop} (h₀ : I t₀ s₀)
    (hs : ∀ t s e s' o, I t s → G t s e → M s e = .some (s', o) →
      I (t ++ [⟨s, e, o⟩]) s' ∧ P t ⟨s, e, o⟩)
    (ht₀ : Each P t₀) (h : Run M G t₀ s₀ t s) : I t s ∧ Each P t := by
  refine h.invariant (I := fun t s => I t s ∧ Each P t) ⟨h₀, ht₀⟩ ?_
  intro t s e s' o hi hg hm
  obtain ⟨hkeep, hdoes⟩ := hs t s e s' o hi.1 hg hm
  exact ⟨hkeep, hi.2.snoc hdoes⟩

/-- `Q` holds in the state a step leads to. -/
def After (M : Machine σ ε ο) (Q : Trace σ ε ο → σ → Prop) (t : Trace σ ε ο) (x : Entry σ ε ο) : Prop :=
  ∀ s', M x.pre x.event = .some (s', x.out) → Q (t ++ [x]) s'

theorem after_iff {Q : Trace σ ε ο → σ → Prop} {e : ε} {o : ο} (hm : M s e = .some (s', o)) :
    After M Q t ⟨s, e, o⟩ ↔ Q (t ++ [⟨s, e, o⟩]) s' := by
  refine ⟨fun h => h s' hm, fun h s'' hm' => ?_⟩
  obtain ⟨rfl, -⟩ := Prod.mk.inj (Option.some.inj (hm.symm.trans hm'))
  exact h

/-- Where each step leads to `Q` exactly when it meets `P`, all states of a
run are in `Q` exactly when all its steps meet `P`. -/
theorem Run.each_iff {I Q : Trace σ ε ο → σ → Prop} (h₀ : I [] s₀) (hq : Q [] s₀)
    (hs : ∀ t s e s' o, I t s → Q t s → G t s e → M s e = .some (s', o) →
      I (t ++ [⟨s, e, o⟩]) s' ∧ (Q (t ++ [⟨s, e, o⟩]) s' ↔ P t ⟨s, e, o⟩))
    (h : Run M G [] s₀ t s) : Each (After M Q) t ↔ Each P t := by
  have key : (Each (After M Q) t ↔ Each P t) ∧ (Each (After M Q) t → I t s ∧ Q t s) := by
    refine h.invariant (I := fun t s => (Each (After M Q) t ↔ Each P t) ∧ (Each (After M Q) t → I t s ∧ Q t s))
      ⟨iff_of_true .nil .nil, fun _ => ⟨h₀, hq⟩⟩ ?_
    intro t s e s' o hi hg hm
    obtain ⟨hiff, hall⟩ := hi
    simp only [each_snoc, after_iff hm]
    refine ⟨?_, fun h => ?_⟩
    · rw [← hiff]
      refine and_congr_right fun hold => ?_
      obtain ⟨hinv, hq⟩ := hall hold
      exact (hs t s e s' o hinv hq hg hm).2
    · obtain ⟨hinv, hq⟩ := hall h.1
      exact ⟨(hs t s e s' o hinv hq hg hm).1, h.2⟩
  exact key.1

end Runs
