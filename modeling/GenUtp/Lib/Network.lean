/-
Machines of one kind around a medium.

A `Net` has a node for each name, and one medium. An event is an event of one
node: the medium gives up what the event takes from it, and gets what the
step puts out. Seen from a node, a run of the net is a run of that node
(`Run.node`), so what is known of one machine holds of every node, however
the others act in between.

`wires` is the medium of reliable, ordered links, one queue for what each
node puts out. What its peer has taken and what is on the way are what was
put in (`Run.wire`).
-/
import Mathlib.Logic.Function.Basic
import GenUtp.Lib.Run

namespace Runs

variable {ι σ ε ο μ α : Type*}

structure Net (ι σ μ : Type*) where
  node : ι → σ
  medium : μ

/-- What the events and the outputs of a node do to the medium. -/
structure Link (ι ε ο μ : Type*) where
  take : μ → ι → ε → μ
  put : μ → ι → ο → μ

section Nodes

variable [DecidableEq ι] {M : Machine σ ε ο} {L : Link ι ε ο μ} {G : Guard (Net ι σ μ) (ι × ε) ο}
  {s₀ s : Net ι σ μ} {t : Trace (Net ι σ μ) (ι × ε) ο} {i : ι}

/-- One event of one node. -/
def Net.machine (M : Machine σ ε ο) (L : Link ι ε ο μ) : Machine (Net ι σ μ) (ι × ε) ο := fun s x =>
  (M (s.node x.1) x.2).map fun r =>
    (⟨Function.update s.node x.1 r.1, L.put (L.take s.medium x.1 x.2) x.1 r.2⟩, r.2)

theorem Net.machine_cases {s s' : Net ι σ μ} {x : ι × ε} {o : ο} (hm : Net.machine M L s x = .some (s', o)) :
    ∃ a, M (s.node x.1) x.2 = .some (a, o) ∧
      s' = ⟨Function.update s.node x.1 a, L.put (L.take s.medium x.1 x.2) x.1 o⟩ := by
  obtain ⟨r, hr, heq⟩ := Option.map_eq_some_iff.1 hm
  obtain ⟨rfl, rfl⟩ := Prod.mk.inj heq
  exact ⟨r.1, hr, rfl⟩

/-- The steps of one node. -/
def stepsOf (i : ι) (t : Trace (Net ι σ μ) (ι × ε) ο) : Trace σ ε ο :=
  t.filterMap fun x => if x.event.1 = i then .some ⟨x.pre.node i, x.event.2, x.out⟩ else .none

@[simp] theorem stepsOf_nil : stepsOf i ([] : Trace (Net ι σ μ) (ι × ε) ο) = [] := rfl

theorem stepsOf_self (t : Trace (Net ι σ μ) (ι × ε) ο) (s : Net ι σ μ) (e : ε) (o : ο) :
    stepsOf i (t ++ [⟨s, (i, e), o⟩]) = stepsOf i t ++ [⟨s.node i, e, o⟩] := by
  simp [stepsOf]

theorem stepsOf_other {j : ι} (hj : j ≠ i) (t : Trace (Net ι σ μ) (ι × ε) ο) (s : Net ι σ μ) (e : ε) (o : ο) :
    stepsOf i (t ++ [⟨s, (j, e), o⟩]) = stepsOf i t := by
  simp [stepsOf, hj]

/-- **Seen from a node, a run of the net is a run of the node**, under what
the guard of the net says of its events. -/
theorem Run.node {G' : Guard σ ε ο} (hG : ∀ t s e, G t s (i, e) → G' (stepsOf i t) (s.node i) e)
    (run : Run (Net.machine M L) G [] s₀ t s) : Run M G' [] (s₀.node i) (stepsOf i t) (s.node i) := by
  induction run with
  | refl => exact .refl
  | @step t s x s' o _ hg hm ih =>
    obtain ⟨a, ha, rfl⟩ := Net.machine_cases hm
    obtain ⟨j, e⟩ := x
    by_cases hj : j = i
    · subst hj
      rw [stepsOf_self]
      show Run M G' [] (s₀.node j) _ (Function.update s.node j a j)
      rw [Function.update_self]
      exact ih.step (hG t s e hg) ha
    · rw [stepsOf_other hj]
      show Run M G' [] (s₀.node i) _ (Function.update s.node j a i)
      rw [Function.update_of_ne (Ne.symm hj)]
      exact ih

end Nodes

/-! ## Ordered links -/

section Wires

variable [DecidableEq ι] {M : Machine σ ε ο} {peer : ι → ι} {gets : ε → List α} {puts : ο → List α}
  {s₀ s : Net ι σ (ι → List α)} {t : Trace (Net ι σ (ι → List α)) (ι × ε) ο} {i : ι}
  {G : Guard (Net ι σ (ι → List α)) (ι × ε) ο}

/-- A node's queue holds what it has put out and its peer has not taken. -/
def wires (peer : ι → ι) (gets : ε → List α) (puts : ο → List α) : Link ι ε ο (ι → List α) where
  take m i e := Function.update m (peer i) ((m (peer i)).drop (gets e).length)
  put m i o := Function.update m i (m i ++ puts o)

/-- **Nothing is lost, doubled or overtaken on a link** whose far end only
takes what comes next. -/
theorem Run.wire (hp : Function.Involutive peer) (hi : peer i ≠ i) (h₀ : s₀.medium i = [])
    (hG : ∀ t s e, G t s (peer i, e) → gets e <+: s.medium i)
    (run : Run (Net.machine M (wires peer gets puts)) G [] s₀ t s) :
    (stepsOf (peer i) t).flatMap (fun x => gets x.event) ++ s.medium i =
      (stepsOf i t).flatMap fun x => puts x.out := by
  induction run with
  | refl => simpa using h₀
  | @step t s x s' o _ hg hm ih =>
    obtain ⟨a, -, rfl⟩ := Net.machine_cases hm
    obtain ⟨j, e⟩ := x
    by_cases hput : j = i
    · -- the near end: its event takes from the other queue
      subst hput
      rw [stepsOf_other (Ne.symm hi), stepsOf_self, List.flatMap_append, ← ih]
      simp [wires, Function.update_of_ne (Ne.symm hi)]
    rw [stepsOf_other hput]
    by_cases htake : j = peer i
    · subst htake
      obtain ⟨rest, hrest⟩ := hG t s e hg
      rw [stepsOf_self, List.flatMap_append, ← ih, ← hrest]
      simp [wires, Function.update_of_ne (Ne.symm hi), hp i, ← hrest]
    · have hne : i ≠ peer j := by
        intro hc
        exact htake (by rw [hc, hp j])
      rw [stepsOf_other htake, ← ih]
      simp [wires, Function.update_of_ne hne, Function.update_of_ne (Ne.symm hput)]

end Wires

end Runs
