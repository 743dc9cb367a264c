/-
`std::map` over Mathlib's association lists.

Two of its operations are not those of a functional map: `insert` keeps the
value of a key that is there already, and a loop that erases while it iterates
is a filter. Each has one lemma that says what a lookup finds after it.
-/
import Mathlib.Data.List.AList

/-- A `std::map` from `α` to `β`. -/
abbrev StdMap (α β : Type*) := AList fun _ : α => β

namespace StdMap

variable {α β : Type*} [DecidableEq α]

/-- `insert`: it does nothing when the key is there. -/
def insertNew (s : StdMap α β) (k : α) (v : β) : StdMap α β := if k ∈ s then s else s.insert k v

/-- A loop over the entries that erases those with `p`. -/
def eraseIf (s : StdMap α β) (p : α → β → Bool) : StdMap α β :=
  ⟨s.entries.filter fun e => !p e.1 e.2, s.nodupKeys.sublist List.filter_sublist⟩

/-- Some key has the value. -/
def hasValue [DecidableEq β] (s : StdMap α β) (v : β) : Bool := s.entries.any fun e => e.2 = v

variable {s : StdMap α β} {a k : α} {b v : β}

theorem lookup_iff : s.lookup a = .some b ↔ ⟨a, b⟩ ∈ s.entries := AList.mem_lookup_iff

theorem lookup_erase_iff : (s.erase k).lookup a = .some b ↔ a ≠ k ∧ s.lookup a = .some b := by
  by_cases h : a = k
  · subst h; simp
  · simp [AList.lookup_erase_ne h, h]

theorem lookup_insert_iff :
    (s.insert k v).lookup a = .some b ↔ a = k ∧ b = v ∨ a ≠ k ∧ s.lookup a = .some b := by
  by_cases h : a = k
  · subst h; simp [AList.lookup_insert, eq_comm]
  · simp [AList.lookup_insert_ne h, h]

theorem lookup_insertNew_iff :
    (insertNew s k v).lookup a = .some b ↔ s.lookup a = .some b ∨ a = k ∧ b = v ∧ s.lookup k = .none := by
  unfold insertNew
  by_cases hk : k ∈ s
  · rw [if_pos hk]
    have hsome : s.lookup k ≠ .none := fun h => AList.lookup_eq_none.1 h hk
    simp [hsome]
  · rw [if_neg hk]
    have hnone : s.lookup k = .none := AList.lookup_eq_none.2 hk
    by_cases h : a = k
    · subst h; simp [hnone, eq_comm]
    · simp [AList.lookup_insert_ne h, h]

theorem lookup_eraseIf_iff {p : α → β → Bool} :
    (eraseIf s p).lookup a = .some b ↔ s.lookup a = .some b ∧ p a b = false := by
  rw [lookup_iff, lookup_iff, eraseIf, List.mem_filter]
  simp

theorem hasValue_iff [DecidableEq β] : hasValue s v = true ↔ ∃ a, s.lookup a = .some v := by
  rw [hasValue, List.any_eq_true]
  constructor
  · rintro ⟨⟨a, b⟩, hmem, hb⟩
    obtain rfl : b = v := by simpa using hb
    exact ⟨a, lookup_iff.2 hmem⟩
  · rintro ⟨a, ha⟩
    exact ⟨⟨a, v⟩, lookup_iff.1 ha, by simp⟩

end StdMap
