/-
Byte queues kept as a list of segments: each enqueue adds a segment of its
own, and a dequeue frees whole segments and cuts into the last one it
reaches. `dropSegs` and `takeSegs` work segment by segment, as such code
does; the lemmas say what they do to the concatenation (`List.flatten`),
which is all a reader of the queue may rely on.
-/
import Mathlib.Data.List.Basic

namespace Segments

variable {α : Type*}

/-- Bytes in the queue. -/
def size (q : List (List α)) : Nat := q.flatten.length

@[simp] theorem size_nil : size ([] : List (List α)) = 0 := rfl

@[simp] theorem size_cons (s : List α) (q : List (List α)) : size (s :: q) = s.length + size q := by
  simp [size]

@[simp] theorem size_append (p q : List (List α)) : size (p ++ q) = size p + size q := by
  simp [size]

theorem size_eq_zero {q : List (List α)} : size q = 0 ↔ q.flatten = [] := by
  simp only [size, List.length_eq_zero_iff]

/-- Frees the first `n` bytes. -/
def dropSegs : Nat → List (List α) → List (List α)
  | _, [] => []
  | n, s :: q => if n < s.length then s.drop n :: q else dropSegs (n - s.length) q

theorem flatten_dropSegs : ∀ (n : Nat) (q : List (List α)), (dropSegs n q).flatten = q.flatten.drop n
  | _, [] => by simp [dropSegs]
  | n, s :: q => by
    simp only [dropSegs]
    split
    · next h => rw [List.flatten_cons, List.flatten_cons, List.drop_append_of_le_length (by omega)]
    · next h =>
      have hs : s.drop n = [] := List.drop_eq_nil_of_le (by omega)
      rw [flatten_dropSegs, List.flatten_cons, List.drop_append, hs, List.nil_append]

theorem size_dropSegs (n : Nat) (q : List (List α)) : size (dropSegs n q) = size q - n := by
  simp [size, flatten_dropSegs]

theorem dropSegs_of_size_le : ∀ {n : Nat} {q : List (List α)}, size q ≤ n → dropSegs n q = []
  | _, [], _ => rfl
  | n, s :: q, h => by
    rw [size_cons] at h
    rw [dropSegs, if_neg (by omega), dropSegs_of_size_le (by omega)]

/-- Frees the first `n` bytes, or nothing when there are fewer. -/
def deqSegs (n : Nat) (q : List (List α)) : List (List α) := if size q < n then q else dropSegs n q

theorem deqSegs_eq {n : Nat} {q : List (List α)} (h : n ≤ size q) : deqSegs n q = dropSegs n q :=
  if_neg (by omega)

theorem flatten_deqSegs (n : Nat) (q : List (List α)) :
    (deqSegs n q).flatten = if size q < n then q.flatten else q.flatten.drop n := by
  unfold deqSegs
  split
  · rfl
  · exact flatten_dropSegs n q

theorem size_deqSegs_le (n : Nat) (q : List (List α)) : size (deqSegs n q) ≤ size q := by
  unfold deqSegs
  split
  · exact Nat.le_refl _
  · rw [size_dropSegs]
    exact Nat.sub_le _ _

@[simp] theorem deqSegs_size (q : List (List α)) : deqSegs (size q) q = [] := by
  rw [deqSegs_eq (Nat.le_refl _), dropSegs_of_size_le (Nat.le_refl _)]

/-- No segment is empty. -/
def Filled (q : List (List α)) : Prop := ∀ s ∈ q, s ≠ []

theorem Filled.append {q : List (List α)} {s : List α} (h : Filled q) (hs : s ≠ []) : Filled (q ++ [s]) := by
  intro x hx
  rcases List.mem_append.1 hx with hx | hx
  · exact h x hx
  · rw [List.mem_singleton.1 hx]
    exact hs

theorem Filled.dropSegs : ∀ {q : List (List α)} (n : Nat), Filled q → Filled (dropSegs n q)
  | [], _, _ => by simp [Segments.dropSegs, Filled]
  | s :: q, n, h => by
    obtain ⟨-, hq⟩ := List.forall_mem_cons.1 h
    rw [Segments.dropSegs]
    split
    · next hn =>
      refine List.forall_mem_cons.2 ⟨?_, hq⟩
      rw [ne_eq, List.drop_eq_nil_iff]
      omega
    · exact Filled.dropSegs _ hq

theorem Filled.deqSegs {q : List (List α)} (n : Nat) (h : Filled q) : Filled (deqSegs n q) := by
  unfold Segments.deqSegs
  split
  · exact h
  · exact h.dropSegs n

theorem Filled.head_pos {q : List (List α)} (h : Filled q) (hq : size q ≠ 0) : 0 < (q.headD []).length := by
  cases q with
  | nil => exact absurd rfl hq
  | cons s q => exact List.length_pos_iff.2 (h s (by simp))

/-- Copies the first `n` bytes out, or all there are. -/
def takeSegs : Nat → List (List α) → List α
  | _, [] => []
  | n, s :: q => if s.length < n then s ++ takeSegs (n - s.length) q else s.take n

theorem takeSegs_eq : ∀ (n : Nat) (q : List (List α)), takeSegs n q = q.flatten.take n
  | _, [] => by simp [takeSegs]
  | n, s :: q => by
    simp only [takeSegs]
    split
    · next h =>
      have hs : s.take n = s := List.take_of_length_le (by omega)
      rw [takeSegs_eq, List.flatten_cons, List.take_append, hs]
    · next h => rw [List.flatten_cons, List.take_append_of_le_length (by omega)]

theorem length_takeSegs {n : Nat} {q : List (List α)} (h : n ≤ size q) : (takeSegs n q).length = n := by
  rw [takeSegs_eq, List.length_take]
  exact Nat.min_eq_left h

theorem takeSegs_append_dropSegs (n : Nat) (q : List (List α)) :
    takeSegs n q ++ (dropSegs n q).flatten = q.flatten := by
  rw [takeSegs_eq, flatten_dropSegs, List.take_append_drop]

end Segments
