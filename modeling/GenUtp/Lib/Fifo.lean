/-
What a first-in first-out queue is for: everything put in since it was last
cleared, in order, and how much of it has come out again. What is inside is
the rest, and the next elements out are the first ones of the rest.

The queue that a program keeps forgets what has come out. `rest` is all it
has to know: the lemmas say what each operation does to it.
-/
import Mathlib.Data.List.Basic

/-- A queue by its history. No more has come out than went in. -/
structure Fifo (α : Type*) where
  pushed : List α
  popped : Nat
  le : popped ≤ pushed.length

namespace Fifo

variable {α : Type*}

def new : Fifo α := ⟨[], 0, by simp⟩

def push (f : Fifo α) (xs : List α) : Fifo α :=
  ⟨f.pushed ++ xs, f.popped, by simp only [List.length_append]; have := f.le; omega⟩

/-- At most what is inside comes out. -/
def pop (f : Fifo α) (n : Nat) : Fifo α := ⟨f.pushed, min (f.popped + n) f.pushed.length, by omega⟩

/-- How many are inside. -/
def size (f : Fifo α) : Nat := f.pushed.length - f.popped

def rest (f : Fifo α) : List α := f.pushed.drop f.popped

/-- The next `n` to come out. -/
def next (f : Fifo α) (n : Nat) : List α := (f.pushed.drop f.popped).take n

@[simp] theorem rest_new : (new : Fifo α).rest = [] := rfl

@[simp] theorem length_rest (f : Fifo α) : f.rest.length = f.size := by simp [rest, size]

@[simp] theorem take_rest (f : Fifo α) (n : Nat) : f.rest.take n = f.next n := rfl

@[simp] theorem rest_push (f : Fifo α) (xs : List α) : (f.push xs).rest = f.rest ++ xs :=
  List.drop_append_of_le_length f.le

@[simp] theorem rest_pop (f : Fifo α) (n : Nat) : (f.pop n).rest = f.rest.drop n := by
  simp only [rest, pop, List.drop_drop]
  by_cases h : f.popped + n ≤ f.pushed.length
  · rw [Nat.min_eq_left h]
  · rw [Nat.min_eq_right (by omega), List.drop_length, List.drop_eq_nil_of_le (by omega)]

end Fifo
