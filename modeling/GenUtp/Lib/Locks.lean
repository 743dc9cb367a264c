/-
Locks that are taken for a block, and why an order on them excludes deadlock.

A call is a `Code`: it takes a lock for a block and gives it back at the end,
uses what the locks protect, and may choose and repeat. Any number of threads
make calls, one at a time each, and their actions interleave in any order
(`machine`). A `Discipline` gives each lock a rank and says which lock a use
needs.

Where every call takes a lock only while all it holds are of lower rank, some
thread can go on whenever a call is not done (`exists_step`), the calls in
progress can all be finished without any new one (`all_finish`), and no two
threads are at uses that need the same lock (`exclusive`).
-/
import Mathlib.Algebra.BigOperators.Group.Finset.Basic
import Mathlib.Algebra.Order.BigOperators.Group.Finset
import Mathlib.Logic.Function.Basic
import GenUtp.Lib.Run

namespace Locks

variable {ι μ υ : Type*}

inductive Action (μ υ : Type*)
  | lock (m : μ)
  | unlock (m : μ)
  | use (u : υ)

/-- What a call may do. -/
inductive Code (μ υ : Type*)
  | skip
  | use (u : υ)
  | seq (a b : Code μ υ)
  | alt (a b : Code μ υ)
  /-- Any number of times. -/
  | loop (a : Code μ υ)
  /-- A block with the lock. -/
  | locked (m : μ) (a : Code μ υ)

/-- The actions a call may take, in order. -/
inductive Code.Takes : Code μ υ → List (Action μ υ) → Prop
  | skip : Takes .skip []
  | use {u} : Takes (.use u) [.use u]
  | seq {a b t t'} : a.Takes t → b.Takes t' → Takes (.seq a b) (t ++ t')
  | left {a b t} : a.Takes t → Takes (.alt a b) t
  | right {a b t} : b.Takes t → Takes (.alt a b) t
  | done {a} : Takes (.loop a) []
  | again {a t t'} : a.Takes t → Takes (.loop a) t' → Takes (.loop a) (t ++ t')
  | locked {m a t} : a.Takes t → Takes (.locked m a) (.lock m :: (t ++ [.unlock m]))

/-! ## The order -/

structure Discipline (μ υ : Type*) where
  rank : μ → ℕ
  /-- The lock that a use needs. -/
  needs : υ → Option μ

/-- The code, begun with some locks, takes locks upwards and uses nothing
without its lock. -/
def Code.Keeps (d : Discipline μ υ) : List μ → Code μ υ → Prop
  | _, .skip => True
  | held, .use u => ∀ m, d.needs u = .some m → m ∈ held
  | held, .seq a b => a.Keeps d held ∧ b.Keeps d held
  | held, .alt a b => a.Keeps d held ∧ b.Keeps d held
  | held, .loop a => a.Keeps d held
  | held, .locked m a => (∀ h ∈ held, d.rank h < d.rank m) ∧ a.Keeps d (m :: held)

/-- So do the actions, and they give every lock back, the last taken first. -/
def Orderly (d : Discipline μ υ) : List μ → List (Action μ υ) → Prop
  | held, [] => held = []
  | held, .lock m :: t => (∀ h ∈ held, d.rank h < d.rank m) ∧ Orderly d (m :: held) t
  | held, .unlock m :: t => ∃ held', held = m :: held' ∧ Orderly d held' t
  | held, .use u :: t => (∀ m, d.needs u = .some m → m ∈ held) ∧ Orderly d held t

variable {d : Discipline μ υ} {held : List μ} {a : Code μ υ} {t t' : List (Action μ υ)}

theorem Code.Takes.orderly (ht : a.Takes t) (ha : a.Keeps d held) (h : Orderly d held t') :
    Orderly d held (t ++ t') := by
  induction ht generalizing held t' with
  | skip | done => exact h
  | use => exact ⟨ha, h⟩
  | seq _ _ ih ih' =>
    rw [List.append_assoc]
    exact ih ha.1 (ih' ha.2 h)
  | left _ ih => exact ih ha.1 h
  | right _ ih => exact ih ha.2 h
  | again _ _ ih ih' =>
    rw [List.append_assoc]
    exact ih ha (ih' ha h)
  | @locked m a t _ ih =>
    rw [List.cons_append, List.append_assoc]
    exact ⟨ha.1, ih ha.2 ⟨held, rfl, h⟩⟩

/-! ## Threads -/

/-- What each thread has left to do of its call, and who owns each lock. -/
structure State (ι μ υ : Type*) where
  rest : ι → List (Action μ υ)
  owner : μ → Option ι

inductive Event (ι μ υ : Type*)
  /-- The thread begins a call that will take these actions. -/
  | call (i : ι) (t : List (Action μ υ))
  | step (i : ι)

abbrev Threads (ι μ υ : Type*) := Runs.Trace (State ι μ υ) (Event ι μ υ) Unit

def idle : State ι μ υ := ⟨fun _ => [], fun _ => .none⟩

/-- The locks each thread holds are those it owns, and what it has left keeps
the order. -/
def Held (d : Discipline μ υ) (s : State ι μ υ) (held : ι → List μ) : Prop :=
  ∀ i, Orderly d (held i) (s.rest i) ∧ (held i).Nodup ∧ ∀ m, s.owner m = .some i ↔ m ∈ held i

variable {s s' : State ι μ υ} {i j : ι} {m : μ} {u u' : υ} {hs : ι → List μ}

theorem held_idle : Held d (idle : State ι μ υ) fun _ => [] := by
  intro i
  exact ⟨rfl, List.nodup_nil, by simp [idle]⟩

/-- No two threads are at uses that need the same lock. -/
theorem exclusive (h : Held d s hs) {t t' : List (Action μ υ)} (hi : s.rest i = .use u :: t)
    (hj : s.rest j = .use u' :: t') (hu : d.needs u = .some m) (hu' : d.needs u' = .some m) : i = j := by
  obtain ⟨hki, -, hoi⟩ := h i
  obtain ⟨hkj, -, hoj⟩ := h j
  rw [hi] at hki
  rw [hj] at hkj
  have hown : s.owner m = .some i := (hoi m).2 (hki.1 m hu)
  exact Option.some.inj (hown.symm.trans ((hoj m).2 (hkj.1 m hu')))

theorem Held.update [DecidableEq ι] {rest : List (Action μ υ)} {new : List μ} {owner : μ → Option ι} (h : Held d s hs)
    (hk : Orderly d new rest) (hn : new.Nodup) (hi : ∀ m, owner m = .some i ↔ m ∈ new)
    (hj : ∀ j, j ≠ i → ∀ m, owner m = .some j ↔ s.owner m = .some j) :
    Held d ⟨Function.update s.rest i rest, owner⟩ (Function.update hs i new) := by
  intro j
  by_cases heq : j = i
  · subst heq
    rw [Function.update_self]
    exact ⟨by simpa using hk, hn, hi⟩
  · rw [Function.update_of_ne heq]
    obtain ⟨hkeep, hnodup, howner⟩ := h j
    exact ⟨by simpa [Function.update_of_ne heq] using hkeep, hnodup, fun m => (hj j heq m).trans (howner m)⟩

section Machine

variable [DecidableEq ι] [DecidableEq μ]

/-- A lock is waited for until nobody owns it. -/
def machine (s : State ι μ υ) : Event ι μ υ → Option (State ι μ υ × Unit)
  | .call i t => .some ({ s with rest := Function.update s.rest i t }, ())
  | .step i =>
    match s.rest i with
    | [] => .none
    | .lock m :: t =>
      match s.owner m with
      | .some _ => .none
      | .none => .some (⟨Function.update s.rest i t, Function.update s.owner m (.some i)⟩, ())
    | .unlock m :: t => .some (⟨Function.update s.rest i t, Function.update s.owner m .none⟩, ())
    | .use _ :: t => .some ({ s with rest := Function.update s.rest i t }, ())

/-- A thread that has nothing left to do may begin any of the calls. -/
def Calls (calls : Code μ υ → Prop) : Runs.Guard (State ι μ υ) (Event ι μ υ) Unit := fun _ s e =>
  match e with
  | .call i t => s.rest i = [] ∧ ∃ a, calls a ∧ a.Takes t
  | .step _ => True

/-- No call is begun. -/
def Finishing : Runs.Guard (State ι μ υ) (Event ι μ υ) Unit := fun _ _ e =>
  match e with
  | .call _ _ => False
  | .step _ => True

variable {e : Event ι μ υ} {o : Unit} {calls : Code μ υ → Prop} {tr : Threads ι μ υ}

theorem Held.step (h : Held d s hs) (hm : machine s e = .some (s', o))
    (hcall : ∀ i t, e = .call i t → s.rest i = [] ∧ Orderly d [] t) : ∃ hs', Held d s' hs' := by
  cases e with
  | call i t =>
    obtain ⟨hrest, hkeep⟩ := hcall i t rfl
    obtain ⟨hold, hnodup, howner⟩ := h i
    have hnone : hs i = [] := by simpa [hrest, Orderly] using hold
    cases hm
    exact ⟨_, h.update hkeep List.nodup_nil (by simpa [hnone] using howner) fun _ _ _ => .rfl⟩
  | step i =>
    obtain ⟨hold, hnodup, howner⟩ := h i
    simp only [machine] at hm
    split at hm
    · cases hm
    next m t hrest =>
      rw [hrest] at hold
      obtain ⟨hlow, hkeep⟩ := hold
      split at hm
      · cases hm
      next hfree =>
        cases hm
        have hnew : m ∉ hs i := fun hmem => by
          cases ((howner m).2 hmem).symm.trans hfree
        refine ⟨_, h.update hkeep (List.nodup_cons.2 ⟨hnew, hnodup⟩) ?_ ?_⟩
        · intro m'
          by_cases heq : m' = m
          · simp [heq]
          · simp [heq, howner]
        · intro j hj m'
          by_cases heq : m' = m
          · simp [heq, hfree, Ne.symm hj]
          · simp [Function.update_of_ne heq]
    next m t hrest =>
      rw [hrest] at hold
      obtain ⟨held', hheld, hkeep⟩ := hold
      rw [hheld] at hnodup
      obtain ⟨hout, hnodup⟩ := List.nodup_cons.1 hnodup
      have hown : s.owner m = .some i := (howner m).2 (by simp [hheld])
      cases hm
      refine ⟨_, h.update hkeep hnodup ?_ ?_⟩
      · intro m'
        by_cases heq : m' = m
        · simp [heq, hout]
        · simp [howner, hheld, heq]
      · intro j hj m'
        by_cases heq : m' = m
        · simp [heq, hown, Ne.symm hj]
        · simp [Function.update_of_ne heq]
    next u t hrest =>
      rw [hrest] at hold
      cases hm
      exact ⟨_, h.update hold.2 hnodup howner fun _ _ _ => .rfl⟩

theorem held_of_run (hcalls : ∀ a, calls a → a.Keeps d []) (run : Runs.Run machine (Calls calls) [] idle tr s) :
    ∃ hs, Held d s hs := by
  refine run.invariant (I := fun _ s => ∃ hs, Held d s hs) ⟨_, held_idle⟩ ?_
  intro tr s e s' o hi hg hm
  obtain ⟨hs, h⟩ := hi
  refine h.step hm ?_
  rintro i t rfl
  obtain ⟨hrest, a, ha, ht⟩ := hg
  have horder : Orderly d [] (t ++ []) := ht.orderly (hcalls a ha) rfl
  exact ⟨hrest, by rwa [List.append_nil] at horder⟩

/-! ## Nobody waits in a circle -/

/-- From the owner of a lock there is a chain of owners, each waiting for a
lock of higher rank, that ends in one who can go on. -/
theorem owner_step (h : Held d s hs) {N : ℕ} (hb : ∀ m, d.rank m < N) :
    ∀ n, ∀ m i, N ≤ d.rank m + n → s.owner m = .some i → ∃ j s', machine s (.step j) = .some (s', ())
  | 0, m, i, hn, _ => by
    have := hb m
    omega
  | n + 1, m, i, hn, hown => by
    obtain ⟨hkeep, -, howner⟩ := h i
    have hmem : m ∈ hs i := (howner m).1 hown
    cases hrest : s.rest i with
    | nil =>
      rw [hrest] at hkeep
      have hnone : hs i = [] := hkeep
      rw [hnone] at hmem
      cases hmem
    | cons a t =>
      cases a with
      | unlock m' => exact ⟨i, _, by simp [machine, hrest]; rfl⟩
      | use u => exact ⟨i, _, by simp [machine, hrest]; rfl⟩
      | lock m' =>
        cases hnext : s.owner m' with
        | none => exact ⟨i, _, by simp [machine, hrest, hnext]; rfl⟩
        | some k =>
          rw [hrest] at hkeep
          have hlt := hkeep.1 m hmem
          exact owner_step h hb n m' k (by omega) hnext

/-- Some thread can go on while a call is not done. -/
theorem exists_step (h : Held d s hs) {N : ℕ} (hb : ∀ m, d.rank m < N) (hi : s.rest i ≠ []) :
    ∃ j s', machine s (.step j) = .some (s', ()) := by
  cases hrest : s.rest i with
  | nil => exact absurd hrest hi
  | cons a t =>
    cases a with
    | unlock m => exact ⟨i, _, by simp [machine, hrest]; rfl⟩
    | use u => exact ⟨i, _, by simp [machine, hrest]; rfl⟩
    | lock m =>
      cases hown : s.owner m with
      | none => exact ⟨i, _, by simp [machine, hrest, hown]; rfl⟩
      | some k => exact owner_step h hb N m k (by omega) hown

theorem step_rest (hm : machine s (.step i) = .some (s', o)) :
    ∃ a, s.rest i = a :: s'.rest i ∧ ∀ j, j ≠ i → s'.rest j = s.rest j := by
  simp only [machine] at hm
  split at hm
  · cases hm
  next m t hrest =>
    split at hm <;> cases hm
    exact ⟨_, by simpa using hrest, fun j hj => Function.update_of_ne hj _ _⟩
  next m t hrest =>
    cases hm
    exact ⟨_, by simpa using hrest, fun j hj => Function.update_of_ne hj _ _⟩
  next u t hrest =>
    cases hm
    exact ⟨_, by simpa using hrest, fun j hj => Function.update_of_ne hj _ _⟩

/-- Only threads that have begun a call have something to do. -/
theorem busy_of_run (run : Runs.Run machine (Calls calls) [] idle tr s) :
    ∃ B : Finset ι, ∀ i, i ∉ B → s.rest i = [] := by
  refine run.invariant (I := fun _ s => ∃ B : Finset ι, ∀ i, i ∉ B → s.rest i = []) ⟨∅, fun _ _ => rfl⟩ ?_
  intro tr s e s' o hi _ hm
  obtain ⟨B, hB⟩ := hi
  cases e with
  | call i t =>
    cases hm
    refine ⟨insert i B, fun j hj => ?_⟩
    rw [Finset.mem_insert, not_or] at hj
    exact (Function.update_of_ne hj.1 _ _).trans (hB j hj.2)
  | step i =>
    obtain ⟨a, hrest, hother⟩ := step_rest hm
    refine ⟨B, fun j hj => ?_⟩
    by_cases heq : j = i
    · subst heq
      cases (hB j hj).symm.trans hrest
    · exact (hother j heq).trans (hB j hj)

theorem finish (B : Finset ι) {N : ℕ} (hb : ∀ m, d.rank m < N) : ∀ (n : ℕ) (s : State ι μ υ) (tr : Threads ι μ υ) hs,
    Held d s hs → (∀ i, i ∉ B → s.rest i = []) → ∑ i ∈ B, (s.rest i).length = n →
      ∃ tr' s', Runs.Run machine Finishing tr s tr' s' ∧ ∀ i, s'.rest i = []
  | 0, s, tr, _, _, hB, hsum => by
    refine ⟨tr, s, .refl, fun i => ?_⟩
    by_cases hi : i ∈ B
    · exact List.length_eq_zero_iff.1 (Finset.sum_eq_zero_iff.1 hsum i hi)
    · exact hB i hi
  | n + 1, s, tr, hs, h, hB, hsum => by
    obtain ⟨i, hi⟩ : ∃ i, s.rest i ≠ [] := by
      by_contra hno
      push Not at hno
      simp [hno] at hsum
    obtain ⟨j, s', hm⟩ := exists_step h hb hi
    obtain ⟨a, hrest, hother⟩ := step_rest hm
    have hj : j ∈ B := by
      by_contra hj
      cases (hB j hj).symm.trans hrest
    obtain ⟨hs', h'⟩ := h.step hm (by simp)
    have hB' : ∀ k, k ∉ B → s'.rest k = [] := by
      intro k hk
      have hne : k ≠ j := by
        rintro rfl
        exact hk hj
      exact (hother k hne).trans (hB k hk)
    have hsum' : ∑ k ∈ B, (s'.rest k).length = n := by
      have hrestsum : ∑ k ∈ B.erase j, (s'.rest k).length = ∑ k ∈ B.erase j, (s.rest k).length :=
        Finset.sum_congr rfl fun k hk => by rw [hother k (Finset.ne_of_mem_erase hk)]
      rw [← Finset.add_sum_erase B _ hj] at hsum ⊢
      rw [hrestsum]
      rw [hrest, List.length_cons] at hsum
      omega
    obtain ⟨tr', s'', run, hdone⟩ := finish B hb n s' (tr ++ [⟨s, .step j, ()⟩]) hs' h' hB' hsum'
    have hstep : Runs.Run machine Finishing tr s (tr ++ [⟨s, .step j, ()⟩]) s' := .step .refl (by trivial) hm
    exact ⟨tr', s'', hstep.trans run, hdone⟩

/-- The calls in progress can all be finished, with no new one. -/
theorem all_finish (hcalls : ∀ a, calls a → a.Keeps d []) {N : ℕ} (hb : ∀ m, d.rank m < N)
    (run : Runs.Run machine (Calls calls) [] idle tr s) :
    ∃ tr' s', Runs.Run machine Finishing tr s tr' s' ∧ ∀ i, s'.rest i = [] := by
  obtain ⟨hs, h⟩ := held_of_run hcalls run
  obtain ⟨B, hB⟩ := busy_of_run run
  exact finish B hb _ s tr hs h hB rfl

end Machine

end Locks
