/-
A source and a sink, machines of two kinds, with a wire from the one to the
other.

What a step of the source puts out goes on the wire, and an event of the sink
takes the next of it. Seen from either end, a run of the pipe is a run of that
end (`Run.source`, `Run.sink`), and nothing is lost on the wire
(`Run.piped`).
-/
import GenUtp.Lib.Run

namespace Runs

variable {σ τ ε φ ο π α : Type*}

structure Pipe (σ τ α : Type*) where
  source : σ
  wire : List α
  sink : τ

namespace Pipe

/-- One event of one end. -/
def machine (M : Machine σ ε ο) (N : Machine τ φ π) (puts : ο → List α) (gets : φ → List α) :
    Machine (Pipe σ τ α) (ε ⊕ φ) (ο ⊕ π) := fun s x =>
  match x with
  | .inl e => (M s.source e).map fun r => (⟨r.1, s.wire ++ puts r.2, s.sink⟩, .inl r.2)
  | .inr f => (N s.sink f).map fun r => (⟨s.source, s.wire.drop (gets f).length, r.1⟩, .inr r.2)

def nearStep : Entry (Pipe σ τ α) (ε ⊕ φ) (ο ⊕ π) → Option (Entry σ ε ο)
  | ⟨s, .inl e, .inl o⟩ => .some ⟨s.source, e, o⟩
  | _ => .none

def farStep : Entry (Pipe σ τ α) (ε ⊕ φ) (ο ⊕ π) → Option (Entry τ φ π)
  | ⟨s, .inr f, .inr o⟩ => .some ⟨s.sink, f, o⟩
  | _ => .none

/-- The steps of the source, and those of the sink. -/
def sourceSteps (t : Trace (Pipe σ τ α) (ε ⊕ φ) (ο ⊕ π)) : Trace σ ε ο := t.filterMap nearStep

def sinkSteps (t : Trace (Pipe σ τ α) (ε ⊕ φ) (ο ⊕ π)) : Trace τ φ π := t.filterMap farStep

variable {M : Machine σ ε ο} {N : Machine τ φ π} {puts : ο → List α} {gets : φ → List α}
  {G : Guard (Pipe σ τ α) (ε ⊕ φ) (ο ⊕ π)} {s₀ s s' : Pipe σ τ α} {t : Trace (Pipe σ τ α) (ε ⊕ φ) (ο ⊕ π)}

/-- What a step is: one of the source, or one of the sink. -/
inductive Does (M : Machine σ ε ο) (N : Machine τ φ π) (puts : ο → List α) (gets : φ → List α) (s : Pipe σ τ α) :
    ε ⊕ φ → ο ⊕ π → Pipe σ τ α → Prop
  | near {e a o} : M s.source e = .some (a, o) → Does M N puts gets s (.inl e) (.inl o) ⟨a, s.wire ++ puts o, s.sink⟩
  | far {f b o} : N s.sink f = .some (b, o) →
      Does M N puts gets s (.inr f) (.inr o) ⟨s.source, s.wire.drop (gets f).length, b⟩

theorem machine_does {x : ε ⊕ φ} {o : ο ⊕ π} (hm : machine M N puts gets s x = .some (s', o)) :
    Does M N puts gets s x o s' := by
  cases x with
  | inl e =>
    obtain ⟨r, hr, heq⟩ := Option.map_eq_some_iff.1 hm
    cases heq
    exact .near hr
  | inr f =>
    obtain ⟨r, hr, heq⟩ := Option.map_eq_some_iff.1 hm
    cases heq
    exact .far hr

theorem steps_near (t : Trace (Pipe σ τ α) (ε ⊕ φ) (ο ⊕ π)) (s : Pipe σ τ α) (e : ε) (o : ο) :
    sourceSteps (t ++ [⟨s, .inl e, .inl o⟩]) = sourceSteps t ++ [⟨s.source, e, o⟩] ∧
      sinkSteps (t ++ [⟨s, .inl e, .inl o⟩]) = sinkSteps t := by
  simp [sourceSteps, sinkSteps, nearStep, farStep]

theorem steps_far (t : Trace (Pipe σ τ α) (ε ⊕ φ) (ο ⊕ π)) (s : Pipe σ τ α) (f : φ) (o : π) :
    sourceSteps (t ++ [⟨s, .inr f, .inr o⟩]) = sourceSteps t ∧
      sinkSteps (t ++ [⟨s, .inr f, .inr o⟩]) = sinkSteps t ++ [⟨s.sink, f, o⟩] := by
  simp [sourceSteps, sinkSteps, nearStep, farStep]

end Pipe

open Pipe

variable {M : Machine σ ε ο} {N : Machine τ φ π} {puts : ο → List α} {gets : φ → List α}
  {G : Guard (Pipe σ τ α) (ε ⊕ φ) (ο ⊕ π)} {s₀ s : Pipe σ τ α} {t : Trace (Pipe σ τ α) (ε ⊕ φ) (ο ⊕ π)}

/-- **Seen from the source, a run of the pipe is a run of the source**, under
what the guard of the pipe says of its events. -/
theorem Run.source {G' : Guard σ ε ο} (hG : ∀ t s e, G t s (.inl e) → G' (sourceSteps t) s.source e)
    (run : Run (Pipe.machine M N puts gets) G [] s₀ t s) : Run M G' [] s₀.source (sourceSteps t) s.source := by
  induction run with
  | refl => exact .refl
  | @step t s x s' o _ hg hm ih =>
    cases machine_does hm with
    | near ha =>
      rw [(steps_near t s _ _).1]
      exact ih.step (hG t s _ hg) ha
    | far hb =>
      rw [(steps_far t s _ _).1]
      exact ih

theorem Run.sink {G' : Guard τ φ π} (hG : ∀ t s f, G t s (.inr f) → G' (sinkSteps t) s.sink f)
    (run : Run (Pipe.machine M N puts gets) G [] s₀ t s) : Run N G' [] s₀.sink (sinkSteps t) s.sink := by
  induction run with
  | refl => exact .refl
  | @step t s x s' o _ hg hm ih =>
    cases machine_does hm with
    | near ha =>
      rw [(steps_near t s _ _).2]
      exact ih
    | far hb =>
      rw [(steps_far t s _ _).2]
      exact ih.step (hG t s _ hg) hb

/-- **Nothing is lost, doubled or overtaken on the wire**, when the sink only
takes what comes next. -/
theorem Run.piped (h₀ : s₀.wire = []) (hG : ∀ t s f, G t s (.inr f) → gets f <+: s.wire)
    (run : Run (Pipe.machine M N puts gets) G [] s₀ t s) :
    (sinkSteps t).flatMap (fun x => gets x.event) ++ s.wire = (sourceSteps t).flatMap fun x => puts x.out := by
  induction run with
  | refl => simpa [sourceSteps, sinkSteps] using h₀
  | @step t s x s' o _ hg hm ih =>
    cases machine_does hm with
    | near ha =>
      rw [(steps_near t s _ _).1, (steps_near t s _ _).2, List.flatMap_append, ← ih]
      simp
    | @far f b o hb =>
      obtain ⟨rest, hrest⟩ := hG t s f hg
      rw [(steps_far t s f o).1, (steps_far t s f o).2, List.flatMap_append, ← ih, ← hrest]
      simp

end Runs
