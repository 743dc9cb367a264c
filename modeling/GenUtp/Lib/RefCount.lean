/-
Reference counting: cells that are shared, and freed by whoever lets go last.

A cell keeps its value and the number of references to it. At 0 it is freed,
and to take or drop a reference to it, or to look into it, is `none`. The
references are in slots, each of them empty or with one cell.

`Counted` says that every cell counts the slots that refer to it. The rules
say of each operation that it is defined in a counted store, keeps it counted,
and does to the values in the slots (`vals`) what it would if each slot had
its own. Only writing can show that a cell is shared, so `Counted.write` asks
for one that is not.
-/
import Mathlib.Data.List.Basic

namespace RefCount

structure Cell (α : Type*) where
  refs : Nat
  value : α
  deriving DecidableEq, Repr

/-- The cells in the order of creation, and the slots. -/
structure Store (α : Type*) where
  cells : List (Cell α)
  slots : List (Option Nat)
  deriving DecidableEq, Repr

namespace Store

variable {α : Type*}

def empty : Store α := ⟨[], []⟩

def refs (s : Store α) (a : Nat) : Nat := (s.cells[a]?.map Cell.refs).getD 0

/-- The cell at `a`, unless it is freed. -/
def cell (s : Store α) (a : Nat) : Option (Cell α) := if s.refs a = 0 then .none else s.cells[a]?

def setCell (s : Store α) (a : Nat) (c : Cell α) : Store α := { s with cells := s.cells.set a c }

def put (s : Store α) (i : Nat) (p : Option Nat) : Store α := { s with slots := s.slots.set i p }

def retain (s : Store α) (a : Nat) : Option (Store α) :=
  (s.cell a).map fun c => s.setCell a { c with refs := c.refs + 1 }

def release (s : Store α) (a : Nat) : Option (Store α) :=
  (s.cell a).map fun c => s.setCell a { c with refs := c.refs - 1 }

/-- A new slot. -/
def push (s : Store α) : Store α := { s with slots := s.slots ++ [.none] }

/-- Slot `i` lets go. -/
def drop (s : Store α) (i : Nat) : Option (Store α) :=
  match s.slots[i]? with
  | .some (.some a) => (s.release a).map fun s' => s'.put i .none
  | .some .none => .some s
  | .none => .none

/-- Slot `i` gets the cell of slot `j`. -/
def share (s : Store α) (i j : Nat) : Option (Store α) :=
  match s.slots[j]? with
  | .some (.some a) => (s.retain a).map fun s' => s'.put i (.some a)
  | .some .none => .some s
  | .none => .none

/-- Slot `i` gets a new cell. -/
def create (s : Store α) (i : Nat) (v : α) : Store α :=
  ⟨s.cells ++ [⟨1, v⟩], s.slots.set i (.some s.cells.length)⟩

def write (s : Store α) (i : Nat) (v : α) : Option (Store α) :=
  match s.slots[i]? with
  | .some (.some a) => (s.cell a).map fun c => s.setCell a { c with value := v }
  | _ => .none

def swap (s : Store α) (i j : Nat) : Option (Store α) :=
  match s.slots[i]?, s.slots[j]? with
  | .some p, .some q => .some ((s.put j p).put i q)
  | _, _ => .none

def read (s : Store α) (i : Nat) : Option (Option α) :=
  match s.slots[i]? with
  | .some (.some a) => (s.cell a).map fun c => .some c.value
  | .some .none => .some .none
  | .none => .none

/-- What was last in the cell, freed or not. -/
def value (s : Store α) (a : Nat) : Option α := s.cells[a]?.map Cell.value

/-- The values in the slots. -/
def vals (s : Store α) : List (Option α) := s.slots.map fun p => p.bind s.value

/-- Every cell counts the slots that refer to it. -/
def Counted (s : Store α) : Prop := ∀ a, s.refs a = s.slots.count (.some a)

/-! ## Cells and slots -/

variable {s s' : Store α} {i j a : Nat} {c c' : Cell α} {p q : Option Nat} {v : α}

@[simp] theorem slots_setCell (s : Store α) (a : Nat) (c : Cell α) : (s.setCell a c).slots = s.slots := rfl

theorem refs_of (hc : s.cells[a]? = .some c) : s.refs a = c.refs := by
  simp [refs, hc]

theorem refs_setCell (hc : s.cells[a]? = .some c) (b : Nat) :
    (s.setCell a c').refs b = if b = a then c'.refs else s.refs b := by
  obtain ⟨ha, -⟩ := List.getElem?_eq_some_iff.1 hc
  unfold refs setCell
  by_cases hb : b = a
  · subst hb
    simp [List.getElem?_set_self ha]
  · simp [List.getElem?_set_ne (Ne.symm hb), hb]

theorem value_setCell (hc : s.cells[a]? = .some c) (b : Nat) :
    (s.setCell a c').value b = if b = a then .some c'.value else s.value b := by
  obtain ⟨ha, -⟩ := List.getElem?_eq_some_iff.1 hc
  unfold value setCell
  by_cases hb : b = a
  · subst hb
    simp [List.getElem?_set_self ha]
  · simp [List.getElem?_set_ne (Ne.symm hb), hb]

theorem count_set {l : List (Option Nat)} (hi : l[i]? = .some p) (q r : Option Nat) :
    (l.set i q).count r + (if p = r then 1 else 0) = l.count r + if q = r then 1 else 0 := by
  obtain ⟨hlt, rfl⟩ := List.getElem?_eq_some_iff.1 hi
  have hone : l[i] = r → 0 < l.count r := by
    intro heq
    exact List.count_pos_iff.2 (heq ▸ List.getElem_mem hlt)
  rw [List.count_set hlt]
  simp only [beq_iff_eq]
  split
  next heq =>
    have := hone heq
    omega
  next => omega

theorem getElem?_vals (hi : s.slots[i]? = .some p) : s.vals[i]? = .some (p.bind s.value) := by
  simp [vals, hi]

@[simp] theorem vals_put (s : Store α) (i : Nat) (p : Option Nat) :
    (s.put i p).vals = s.vals.set i (p.bind s.value) := List.map_set

theorem value_setCell_same (hc : s.cells[a]? = .some c) (hv : c'.value = c.value) :
    (s.setCell a c').value = s.value := by
  funext b
  rw [value_setCell hc]
  split
  next heq => simp [heq, value, hc, hv]
  next => rfl

theorem set_same (hi : s.slots[i]? = .some p) : s.put i p = s := by
  obtain ⟨hlt, rfl⟩ := List.getElem?_eq_some_iff.1 hi
  rw [put, List.set_getElem_self]

/-! ## The rules -/

theorem counted_empty : (empty : Store α).Counted := fun a => by simp [refs, empty]

theorem Counted.cell (h : s.Counted) (ha : .some a ∈ s.slots) :
    ∃ c, s.cell a = .some c ∧ s.cells[a]? = .some c ∧ c.refs = s.slots.count (.some a) := by
  have hpos : 0 < s.refs a := by
    rw [h a]
    exact List.count_pos_iff.2 ha
  cases hc : s.cells[a]? with
  | none => simp [refs, hc] at hpos
  | some c =>
    refine ⟨c, ?_, rfl, ?_⟩
    · rw [Store.cell, if_neg (by omega), hc]
    · rw [← refs_of hc, h a]

theorem Counted.push (h : s.Counted) : s.push.Counted ∧ s.push.vals = s.vals ++ [.none] := by
  refine ⟨fun a => ?_, ?_⟩
  · show s.refs a = (s.slots ++ [none]).count (some a)
    rw [List.count_append, h a]
    simp
  · exact List.map_append

/-- A reference to one cell that is taken or dropped, and counted. -/
theorem Counted.move {n : Nat} (h : s.Counted) (hc : s.cells[a]? = .some c) (hi : s.slots[i]? = .some p)
    (hp : p = .none ∨ p = .some a) (hq : q = .none ∨ q = .some a)
    (hn : n + (if p = .some a then 1 else 0) = c.refs + if q = .some a then 1 else 0) :
    ((s.setCell a ⟨n, c.value⟩).put i q).Counted ∧
      ((s.setCell a ⟨n, c.value⟩).put i q).vals = s.vals.set i (q.bind s.value) := by
  refine ⟨fun b => ?_, ?_⟩
  · show (s.setCell a ⟨n, c.value⟩).refs b = (s.slots.set i q).count (.some b)
    have hcount := count_set hi q (.some b)
    have hold := h b
    rw [refs_setCell hc]
    split
    next heq =>
      rw [heq] at hcount hold ⊢
      rw [refs_of hc] at hold
      simp only
      omega
    next hne =>
      have hother : ∀ {r : Option Nat}, r = .none ∨ r = .some a → r ≠ .some b := by
        rintro r (rfl | rfl) heq
        · cases heq
        · exact hne (Option.some.inj heq).symm
      rw [if_neg (hother hp), if_neg (hother hq)] at hcount
      omega
  · have hv : (s.setCell a ⟨n, c.value⟩).value = s.value := value_setCell_same hc rfl
    rw [vals_put, hv, vals, vals, hv, slots_setCell]

theorem Counted.drop (h : s.Counted) (hi : i < s.slots.length) :
    ∃ s', s.drop i = .some s' ∧ s'.Counted ∧ s'.slots = s.slots.set i .none ∧ s'.vals = s.vals.set i .none := by
  obtain ⟨p, hp⟩ : ∃ p, s.slots[i]? = .some p := ⟨_, List.getElem?_eq_getElem hi⟩
  cases p with
  | none =>
    have hsame := set_same hp
    refine ⟨s, by simp [Store.drop, hp], h, (congrArg slots hsame).symm, ?_⟩
    exact (congrArg vals hsame).symm.trans (vals_put s i .none)
  | some a =>
    obtain ⟨c, hcell, hc, hrefs⟩ := h.cell (List.mem_of_getElem? hp)
    have hpos : 0 < c.refs := by
      rw [hrefs]
      exact List.count_pos_iff.2 (List.mem_of_getElem? hp)
    obtain ⟨hcounted, hvals⟩ := h.move (n := c.refs - 1) (q := .none) hc hp (.inr rfl) (.inl rfl) (by simp; omega)
    exact ⟨_, by simp [Store.drop, hp, release, hcell], hcounted, rfl, hvals⟩

theorem Counted.share (h : s.Counted) (hi : s.slots[i]? = .some .none) (hj : s.slots[j]? = .some p) :
    ∃ s', s.share i j = .some s' ∧ s'.Counted ∧ s'.slots = s.slots.set i p ∧
      s'.vals = s.vals.set i (p.bind s.value) := by
  cases p with
  | none =>
    have hsame := set_same hi
    refine ⟨s, by simp [Store.share, hj], h, (congrArg slots hsame).symm, ?_⟩
    exact (congrArg vals hsame).symm.trans (vals_put s i .none)
  | some a =>
    obtain ⟨c, hcell, hc, hrefs⟩ := h.cell (List.mem_of_getElem? hj)
    obtain ⟨hcounted, hvals⟩ := h.move (n := c.refs + 1) (q := .some a) hc hi (.inl rfl) (.inr rfl) (by simp)
    exact ⟨_, by simp [Store.share, hj, retain, hcell], hcounted, rfl, hvals⟩

theorem Counted.push_share (h : s.Counted) (hj : s.slots[j]? = .some p) :
    ∃ s', s.push.share s.slots.length j = .some s' ∧ s'.Counted ∧ s'.slots = s.slots ++ [p] ∧
      s'.vals = s.vals ++ [p.bind s.value] := by
  obtain ⟨hc, hv⟩ := h.push
  obtain ⟨hlt, -⟩ := List.getElem?_eq_some_iff.1 hj
  have hempty : s.push.slots[s.slots.length]? = .some .none := by simp [Store.push]
  have hold : s.push.slots[j]? = .some p := by
    rw [Store.push, List.getElem?_append_left hlt, hj]
  obtain ⟨s', hs', hc', hslots, hvals⟩ := hc.share hempty hold
  refine ⟨s', hs', hc', ?_, ?_⟩
  · rw [hslots]
    simp [Store.push]
  · have hlen : s.slots.length = s.vals.length := by simp [vals]
    rw [hvals, hv, hlen, List.set_append_right _ _ (Nat.le_refl _), Nat.sub_self]
    rfl

theorem refs_create (s : Store α) (i : Nat) (v : α) (b : Nat) :
    (s.create i v).refs b = if b = s.cells.length then 1 else s.refs b := by
  simp only [refs, Store.create, List.getElem?_append]
  rcases Nat.lt_trichotomy b s.cells.length with hb | rfl | hb
  · rw [if_pos hb, if_neg (Nat.ne_of_lt hb)]
  · simp
  · have hone : b - s.cells.length ≠ 0 := by omega
    rw [if_neg (by omega), if_neg (by omega), List.getElem?_eq_none (l := s.cells) (by omega)]
    simp [hone]

theorem Counted.create (h : s.Counted) (hi : s.slots[i]? = .some .none) (v : α) :
    (s.create i v).Counted ∧ (s.create i v).slots = s.slots.set i (.some s.cells.length) ∧
      (s.create i v).vals = s.vals.set i (.some v) := by
  -- nothing refers to the place of the new cell
  have hfree : ∀ b, s.cells.length ≤ b → s.slots.count (.some b) = 0 := by
    intro b hb
    rw [← h b]
    simp [refs, hb]
  have hvalue : ∀ b, .some b ∈ s.slots → (s.create i v).value b = s.value b := by
    intro b hb
    have hlt : b < s.cells.length := by
      by_contra hge
      have hnone := hfree b (Nat.le_of_not_lt hge)
      exact absurd hb (List.count_eq_zero.1 hnone)
    simp [value, Store.create, List.getElem?_append_left hlt]
  refine ⟨fun b => ?_, rfl, ?_⟩
  · show (s.create i v).refs b = (s.slots.set i (.some s.cells.length)).count (.some b)
    have hcount := count_set hi (.some s.cells.length) (.some b)
    have hnew := hfree s.cells.length (Nat.le_refl _)
    have hold := h b
    rw [refs_create]
    simp only [reduceCtorEq, if_false, Option.some.injEq] at hcount
    split
    next heq =>
      subst heq
      rw [if_pos rfl] at hcount
      omega
    next hne =>
      rw [if_neg (Ne.symm hne)] at hcount
      omega
  · have hnew : (s.create i v).value s.cells.length = .some v := by simp [value, Store.create]
    have hsame : s.slots.map (fun p => p.bind (s.create i v).value) = s.vals := by
      refine List.map_congr_left fun p hp => ?_
      cases p with
      | none => rfl
      | some a => exact hvalue a hp
    show (s.slots.set i (.some s.cells.length)).map _ = _
    rw [List.map_set, hsame]
    exact congrArg _ hnew

theorem Counted.write (h : s.Counted) (hi : s.slots[i]? = .some (.some a)) (hone : s.slots.count (.some a) = 1)
    (v : α) : ∃ s', s.write i v = .some s' ∧ s'.Counted ∧ s'.slots = s.slots ∧ s'.vals = s.vals.set i (.some v) := by
  obtain ⟨c, hcell, hc, -⟩ := h.cell (List.mem_of_getElem? hi)
  refine ⟨s.setCell a { c with value := v }, by simp [Store.write, hi, hcell], fun b => ?_, rfl, ?_⟩
  · rw [refs_setCell hc, slots_setCell, ← h b]
    split
    next heq => rw [heq, refs_of hc]
    next => rfl
  · -- no other slot refers to the cell
    have hother : .some a ∉ s.slots.set i .none := by
      have hcount := count_set hi .none (.some a)
      simp only [reduceCtorEq, if_true, if_false] at hcount
      exact List.count_eq_zero.1 (by omega)
    refine List.ext_getElem? fun k => ?_
    by_cases hk : k = i
    · subst hk
      have hlt : k < s.vals.length := (List.getElem?_eq_some_iff.1 (getElem?_vals hi)).1
      have hnew : (s.setCell a { c with value := v }).slots[k]? = .some (.some a) := hi
      rw [getElem?_vals hnew, List.getElem?_set_self hlt, Option.bind_some, value_setCell hc, if_pos rfl]
    · rw [List.getElem?_set_ne (Ne.symm hk)]
      simp only [vals, List.getElem?_map, slots_setCell]
      refine Option.map_congr fun q hq => ?_
      cases q with
      | none => rfl
      | some b =>
        have hb : b ≠ a := by
          rintro rfl
          refine hother (List.mem_of_getElem? (i := k) ?_)
          rw [List.getElem?_set_ne (Ne.symm hk), hq]
        rw [Option.bind_some, Option.bind_some, value_setCell hc, if_neg hb]

theorem Counted.swap (h : s.Counted) (hi : s.slots[i]? = .some p) (hj : s.slots[j]? = .some q) :
    ∃ s', s.swap i j = .some s' ∧ s'.Counted ∧ s'.slots = (s.slots.set j p).set i q ∧
      s'.vals = (s.vals.set j (p.bind s.value)).set i (q.bind s.value) := by
  have hback : (s.slots.set j p)[i]? = .some p := by
    by_cases hij : i = j
    · subst hij
      exact List.getElem?_set_self (List.getElem?_eq_some_iff.1 hi).1
    · rw [List.getElem?_set_ne (Ne.symm hij), hi]
  refine ⟨(s.put j p).put i q, by simp [Store.swap, hi, hj], fun a => ?_, rfl, ?_⟩
  · show s.refs a = ((s.slots.set j p).set i q).count (.some a)
    have hfirst := count_set hj p (.some a)
    have hsecond := count_set hback q (.some a)
    rw [h a]
    omega
  · rw [vals_put, vals_put]
    rfl

theorem Counted.read (h : s.Counted) (i : Nat) : s.read i = s.vals[i]? := by
  unfold Store.read
  split
  next a hi =>
    obtain ⟨c, hcell, hc, -⟩ := h.cell (List.mem_of_getElem? hi)
    rw [getElem?_vals hi, hcell]
    simp [value, hc]
  next hi => rw [getElem?_vals hi, Option.bind_none]
  next hi => simp [vals, hi]

/-- When no slot refers to a cell, all are freed. -/
theorem Counted.freed (h : s.Counted) (hslots : ∀ p ∈ s.slots, p = .none) : ∀ c ∈ s.cells, c.refs = 0 := by
  intro c hc
  obtain ⟨a, ha⟩ := List.mem_iff_getElem?.1 hc
  rw [← refs_of ha, h a]
  exact List.count_eq_zero.2 fun hmem => by cases hslots _ hmem

end Store

end RefCount
