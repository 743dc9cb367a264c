/-
Which handler a descriptor's input goes to: `MainHandler::select`, `deselect`
and `ready_input` (`main_handler.cc`).

`select` and `deselect` are two steps each, one in the emulator and one under
`map_mutex`, and the steps of other handlers come in between. The first step
of `deselect` may close the descriptor through `utp_stop_select`, and then
`socket` may return its number while the old entry is still in `fdmap`. An
insert that comes before the erase does not replace that entry, and the erase
takes it away: the new owner is left without one (`number_reused_early`).
Where no insert comes in between, `fdmap` is the map of the selected handlers
whenever no call is in progress (`fdmap_follows`).
-/
import Mathlib.Data.Finset.Basic
import GenUtp.Lib.Run
import GenUtp.Lib.StdMap
import GenUtp.Listener

namespace GenUtp

namespace Descriptors

/-! ## The steps -/

/-- A `SocketHandler*`. -/
abbrev HandlerPtr := Nat

/-- Where a handler is with its `udp_sock`. -/
inductive Socket
  | unopened
  | opened (fd : Fd)
  /-- In `select`, before the insert. -/
  | selecting (fd : Fd)
  | selected (fd : Fd)
  /-- In `deselect`, before the erase. -/
  | deselecting (fd : Fd)
  | released
  deriving DecidableEq, Repr

/-- The open descriptor a handler has. -/
def Socket.held : Socket → Option Fd
  | .opened fd | .selecting fd | .selected fd => .some fd
  | _ => .none

/-- The number a handler has an entry for. -/
def Socket.entry : Socket → Option Fd
  | .selected fd | .deselecting fd => .some fd
  | _ => .none

/-- `fdmap`, the open descriptors, those `utp_stop_select` is to close, and
the handlers. -/
structure Driver where
  fdmap : StdMap Fd HandlerPtr
  opened : Finset Fd
  stopping : Finset Fd
  sockets : HandlerPtr → Socket

inductive DriverEvent
  /-- `socket` returns a number that is closed. -/
  | socket (i : HandlerPtr) (fd : Fd)
  /-- `close` of a socket that is not selected. -/
  | close (i : HandlerPtr)
  /-- `driver_select` on. -/
  | selectOn (i : HandlerPtr)
  | insert (i : HandlerPtr)
  /-- `driver_select` off. -/
  | selectOff (i : HandlerPtr)
  /-- `utp_stop_select`, at once or later. -/
  | stopSelect (fd : Fd)
  | erase (i : HandlerPtr)
  deriving DecidableEq, Repr

namespace Driver

def new : Driver := ⟨∅, ∅, ∅, fun _ => .unopened⟩

def setSocket (s : Driver) (i : HandlerPtr) (k : Socket) : Driver := { s with sockets := Function.update s.sockets i k }

def machine (s : Driver) : DriverEvent → Option (Driver × Unit)
  | .socket i fd =>
    if s.sockets i = .unopened ∧ fd ∉ s.opened then
      .some ({ s.setSocket i (.opened fd) with opened := insert fd s.opened }, ())
    else .none
  | .close i =>
    match s.sockets i with
    | .opened fd => .some ({ s.setSocket i .released with opened := s.opened.erase fd }, ())
    | _ => .none
  | .selectOn i =>
    match s.sockets i with
    | .opened fd => .some (s.setSocket i (.selecting fd), ())
    | _ => .none
  | .insert i =>
    match s.sockets i with
    | .selecting fd => .some ({ s.setSocket i (.selected fd) with fdmap := StdMap.insertNew s.fdmap fd i }, ())
    | _ => .none
  | .selectOff i =>
    match s.sockets i with
    | .selected fd => .some ({ s.setSocket i (.deselecting fd) with stopping := insert fd s.stopping }, ())
    | _ => .none
  | .stopSelect fd =>
    if fd ∈ s.stopping then
      .some ({ s with opened := s.opened.erase fd, stopping := s.stopping.erase fd }, ())
    else .none
  | .erase i =>
    match s.sockets i with
    | .deselecting fd => .some ({ s.setSocket i .released with fdmap := s.fdmap.erase fd }, ())
    | _ => .none

/-- `ready_input`: the handler that is told. -/
def readyInput (s : Driver) (fd : Fd) : Option HandlerPtr := s.fdmap.lookup fd

/-! ## What is promised -/

/-- The steps come in any order. -/
def AnyOrder : Runs.Guard Driver DriverEvent Unit := fun _ _ _ => True

/-- No `select` or `deselect` is in progress. -/
def Quiet (s : Driver) : Prop := ∀ i fd, s.sockets i ≠ .selecting fd ∧ s.sockets i ≠ .deselecting fd

/-- Each selected handler has the entry of its descriptor, and there is no
other entry. -/
def Follows (s : Driver) : Prop := ∀ fd i, s.readyInput fd = .some i ↔ s.sockets i = .selected fd

/-- An insert comes while no `deselect` of the same number is in progress. -/
def Uncrossed (s : Driver) : DriverEvent → Prop
  | .insert i => ∀ fd j, s.sockets i = .selecting fd → s.sockets j ≠ .deselecting fd
  | _ => True

/-- One rule for each step. -/
inductive Step (s : Driver) : DriverEvent → Driver → Prop
  | socket {i fd} : s.sockets i = .unopened → fd ∉ s.opened →
      Step s (.socket i fd) { s.setSocket i (.opened fd) with opened := insert fd s.opened }
  | close {i fd} : s.sockets i = .opened fd →
      Step s (.close i) { s.setSocket i .released with opened := s.opened.erase fd }
  | selectOn {i fd} : s.sockets i = .opened fd → Step s (.selectOn i) (s.setSocket i (.selecting fd))
  | insert {i fd} : s.sockets i = .selecting fd →
      Step s (.insert i) { s.setSocket i (.selected fd) with fdmap := StdMap.insertNew s.fdmap fd i }
  | selectOff {i fd} : s.sockets i = .selected fd →
      Step s (.selectOff i) { s.setSocket i (.deselecting fd) with stopping := insert fd s.stopping }
  | stopSelect {fd} : fd ∈ s.stopping →
      Step s (.stopSelect fd) { s with opened := s.opened.erase fd, stopping := s.stopping.erase fd }
  | erase {i fd} : s.sockets i = .deselecting fd →
      Step s (.erase i) { s.setSocket i .released with fdmap := s.fdmap.erase fd }

variable {s s' : Driver} {e : DriverEvent} {o : Unit} {i j : HandlerPtr} {fd : Fd} {k : Socket}

theorem machine_step (hm : machine s e = .some (s', o)) : Step s e s' := by
  cases e with
  | socket i fd =>
    simp only [machine] at hm
    split at hm <;> cases hm
    next h => exact .socket h.1 h.2
  | stopSelect fd =>
    simp only [machine] at hm
    split at hm <;> cases hm
    next h => exact .stopSelect h
  | close i =>
    simp only [machine] at hm
    split at hm <;> cases hm
    next h => exact .close h
  | selectOn i =>
    simp only [machine] at hm
    split at hm <;> cases hm
    next h => exact .selectOn h
  | insert i =>
    simp only [machine] at hm
    split at hm <;> cases hm
    next h => exact .insert h
  | selectOff i =>
    simp only [machine] at hm
    split at hm <;> cases hm
    next h => exact .selectOff h
  | erase i =>
    simp only [machine] at hm
    split at hm <;> cases hm
    next h => exact .erase h

/-! ## Ownership -/

/-- No descriptor has two owners, and the entries are those of the handlers
from their insert to their erase. -/
structure Owned (s : Driver) : Prop where
  held : ∀ i fd, (s.sockets i).held = .some fd → fd ∈ s.opened ∧ fd ∉ s.stopping
  one : ∀ i j fd, (s.sockets i).held = .some fd → (s.sockets j).held = .some fd → i = j
  stopping : s.stopping ⊆ s.opened
  entry : ∀ fd i, s.fdmap.lookup fd = .some i ↔ (s.sockets i).entry = .some fd

theorem new_owned : new.Owned where
  held := by simp [new, Socket.held]
  one := by simp [new, Socket.held]
  stopping := by simp [new]
  entry := by simp [new, Socket.entry]

/-- In between calls, an entry is a selected handler. -/
theorem Owned.follows (hs : s.Owned) (hq : s.Quiet) : s.Follows := by
  intro fd i
  rw [readyInput, hs.entry]
  cases hk : s.sockets i with
  | deselecting fd' => exact absurd hk (hq i fd').2
  | _ => simp [Socket.entry]

theorem setSocket_self : (s.setSocket i k).sockets i = k := by simp [setSocket]

theorem setSocket_other (h : j ≠ i) : (s.setSocket i k).sockets j = s.sockets j := by simp [setSocket, h]

theorem held_setSocket (hk : ∀ fd, k.held = .some fd → (s.sockets i).held = .some fd)
    (h : ((s.setSocket i k).sockets j).held = .some fd) : (s.sockets j).held = .some fd := by
  by_cases hj : j = i
  · subst hj
    rw [setSocket_self] at h
    exact hk fd h
  · rwa [setSocket_other hj] at h

/-- A handler that gives its descriptor up is no owner. -/
theorem held_given_up (hk : k.held = .none) (h : ((s.setSocket i k).sockets j).held = .some fd) :
    j ≠ i ∧ (s.sockets j).held = .some fd := by
  have hj : j ≠ i := by
    rintro rfl
    rw [setSocket_self, hk] at h
    cases h
  rw [setSocket_other hj] at h
  exact ⟨hj, h⟩

theorem entry_setSocket (hk : k.entry = (s.sockets i).entry) :
    ((s.setSocket i k).sockets j).entry = (s.sockets j).entry := by
  by_cases hj : j = i
  · subst hj
    rw [setSocket_self, hk]
  · rw [setSocket_other hj]

theorem Owned.held_ne (hs : s.Owned) {fd' : Fd} (hi : (s.sockets i).held = .some fd)
    (hj : (s.sockets j).held = .some fd') (hij : j ≠ i) : fd' ≠ fd := by
  rintro rfl
  exact hij (hs.one j i _ hj hi)

theorem Owned.entry_one (hs : s.Owned) (hi : (s.sockets i).entry = .some fd) (hj : (s.sockets j).entry = .some fd) :
    i = j :=
  Option.some.inj (((hs.entry fd i).2 hi).symm.trans ((hs.entry fd j).2 hj))

/-- A step in which no handler takes a descriptor keeps every owner. -/
theorem Owned.keeps (hs : s.Owned) (hk : ∀ fd, k.held = .some fd → (s.sockets i).held = .some fd) :
    ∀ j j' fd, ((s.setSocket i k).sockets j).held = .some fd → ((s.setSocket i k).sockets j').held = .some fd →
      j = j' :=
  fun j j' fd h h' => hs.one j j' fd (held_setSocket hk h) (held_setSocket hk h')

theorem Owned.keeps_held (hs : s.Owned) (hk : ∀ fd, k.held = .some fd → (s.sockets i).held = .some fd) :
    ∀ j fd, ((s.setSocket i k).sockets j).held = .some fd → fd ∈ s.opened ∧ fd ∉ s.stopping :=
  fun j fd h => hs.held j fd (held_setSocket hk h)

theorem Owned.keeps_entry (hs : s.Owned) (hk : k.entry = (s.sockets i).entry) :
    ∀ fd j, s.fdmap.lookup fd = .some j ↔ ((s.setSocket i k).sockets j).entry = .some fd := by
  intro fd j
  rw [entry_setSocket hk]
  exact hs.entry fd j

/-- An insert keeps ownership exactly when it crosses no erase. -/
theorem owned_insert (hs : s.Owned) (hi : s.sockets i = .selecting fd) :
    Owned { s.setSocket i (.selected fd) with fdmap := StdMap.insertNew s.fdmap fd i } ↔ s.Uncrossed (.insert i) := by
  have hheld : ∀ fd', (Socket.selected fd).held = .some fd' → (s.sockets i).held = .some fd' := by
    simp [hi, Socket.held]
  have hself : ((s.setSocket i (.selected fd)).sockets i).entry = .some fd := by rw [setSocket_self]; rfl
  constructor
  · intro howned fd' j hi' hj
    obtain rfl : fd = fd' := Socket.selecting.inj (hi.symm.trans hi')
    -- the entry of `j` is still there, and it is that of `i` too
    have hij : j ≠ i := by
      rintro rfl
      cases hi.symm.trans hj
    have hold : s.fdmap.lookup fd = .some j := (hs.entry fd j).2 (by rw [hj]; rfl)
    have hnew := (howned.entry fd i).2 hself
    rw [StdMap.lookup_insertNew_iff, hold] at hnew
    simp only [Option.some.injEq, reduceCtorEq, and_false, or_false] at hnew
    exact hij hnew
  · intro hun
    have hfree : s.fdmap.lookup fd = .none := by
      by_contra hsome
      obtain ⟨j, hj⟩ := Option.ne_none_iff_exists'.1 hsome
      have hentry := (hs.entry fd j).1 hj
      cases hk : s.sockets j with
      | selected fd' =>
        rw [hk] at hentry
        obtain rfl := Option.some.inj hentry
        obtain rfl := hs.one j i fd' (by rw [hk]; rfl) (by rw [hi]; rfl)
        cases hi.symm.trans hk
      | deselecting fd' =>
        rw [hk] at hentry
        obtain rfl := Option.some.inj hentry
        exact hun fd' j hi hk
      | _ =>
        rw [hk] at hentry
        cases hentry
    refine ⟨hs.keeps_held hheld, hs.keeps hheld, hs.stopping, ?_⟩
    intro fd' j
    rw [StdMap.lookup_insertNew_iff, hs.entry]
    by_cases hj : j = i
    · subst hj
      simp [hi, Socket.entry, setSocket_self, hfree, eq_comm]
    · simp [setSocket_other hj, hj]

theorem owned_socket (hs : s.Owned) (hi : s.sockets i = .unopened) (hfd : fd ∉ s.opened) :
    Owned { s.setSocket i (.opened fd) with opened := insert fd s.opened } := by
  have hcase : ∀ {j fd'}, ((s.setSocket i (.opened fd)).sockets j).held = .some fd' →
      j = i ∧ fd' = fd ∨ (s.sockets j).held = .some fd' ∧ fd' ≠ fd := by
    intro j fd' h
    by_cases hj : j = i
    · subst hj
      rw [setSocket_self] at h
      exact .inl ⟨rfl, (Option.some.inj h).symm⟩
    · rw [setSocket_other hj] at h
      refine .inr ⟨h, ?_⟩
      rintro rfl
      exact hfd (hs.held j fd' h).1
  have hentry : (Socket.opened fd).entry = (s.sockets i).entry := by rw [hi]; rfl
  refine ⟨?_, ?_, hs.stopping.trans (Finset.subset_insert fd s.opened), hs.keeps_entry hentry⟩
  · intro j fd' h
    rcases hcase h with ⟨rfl, rfl⟩ | ⟨h, -⟩
    · exact ⟨Finset.mem_insert_self _ _, fun hstop => hfd (hs.stopping hstop)⟩
    · exact ⟨Finset.mem_insert_of_mem (hs.held j fd' h).1, (hs.held j fd' h).2⟩
  · intro j j' fd' h h'
    rcases hcase h with ⟨rfl, rfl⟩ | ⟨h, hne⟩
    · rcases hcase h' with ⟨rfl, -⟩ | ⟨-, hne⟩
      · rfl
      · exact absurd rfl hne
    · rcases hcase h' with ⟨-, rfl⟩ | ⟨h', -⟩
      · exact absurd rfl hne
      · exact hs.one j j' fd' h h'

/-- A number of which the entry is erased was one handler's. -/
theorem owned_erase (hs : s.Owned) (hi : s.sockets i = .deselecting fd) :
    Owned { s.setSocket i .released with fdmap := s.fdmap.erase fd } := by
  have hentry : (s.sockets i).entry = .some fd := by rw [hi]; rfl
  have hheld : ∀ fd', Socket.released.held = .some fd' → (s.sockets i).held = .some fd' := by simp [Socket.held]
  refine ⟨hs.keeps_held hheld, hs.keeps hheld, hs.stopping, ?_⟩
  intro fd' j
  rw [StdMap.lookup_erase_iff, hs.entry]
  by_cases hj : j = i
  · subst hj
    rw [setSocket_self, hentry]
    exact iff_of_false (fun h => h.1 (Option.some.inj h.2).symm) (by simp [Socket.entry])
  · rw [setSocket_other hj, and_iff_right_iff_imp]
    rintro h rfl
    exact hj (hs.entry_one h hentry)

theorem owned_step (hs : s.Owned) (hst : Step s e s') : s'.Owned ↔ s.Uncrossed e := by
  cases hst with
  | insert hi => exact owned_insert hs hi
  | socket hi hfd => exact iff_of_true (owned_socket hs hi hfd) trivial
  | erase hi => exact iff_of_true (owned_erase hs hi) trivial
  | @close i fd hi =>
    have hown : (s.sockets i).held = .some fd := by rw [hi]; rfl
    have hentry : Socket.released.entry = (s.sockets i).entry := by rw [hi]; rfl
    refine iff_of_true ⟨?_, hs.keeps (by simp [Socket.held]), ?_, hs.keeps_entry hentry⟩ trivial
    · intro j fd' h
      obtain ⟨hj, h⟩ := held_given_up rfl h
      exact ⟨Finset.mem_erase.2 ⟨hs.held_ne hown h hj, (hs.held j fd' h).1⟩, (hs.held j fd' h).2⟩
    · intro fd' hstop
      refine Finset.mem_erase.2 ⟨?_, hs.stopping hstop⟩
      rintro rfl
      exact (hs.held i fd' hown).2 hstop
  | @selectOn i fd hi =>
    have hheld : ∀ fd', (Socket.selecting fd).held = .some fd' → (s.sockets i).held = .some fd' := by
      simp [hi, Socket.held]
    have hentry : (Socket.selecting fd).entry = (s.sockets i).entry := by rw [hi]; rfl
    exact iff_of_true ⟨hs.keeps_held hheld, hs.keeps hheld, hs.stopping, hs.keeps_entry hentry⟩ trivial
  | @selectOff i fd hi =>
    have hown : (s.sockets i).held = .some fd := by rw [hi]; rfl
    have hentry : (Socket.deselecting fd).entry = (s.sockets i).entry := by rw [hi]; rfl
    refine iff_of_true ⟨?_, hs.keeps (by simp [Socket.held]), ?_, hs.keeps_entry hentry⟩ trivial
    · intro j fd' h
      obtain ⟨hj, hold⟩ := held_given_up rfl h
      refine ⟨(hs.held j fd' hold).1, fun hstop => ?_⟩
      rcases Finset.mem_insert.1 hstop with heq | hstop
      · exact hs.held_ne hown hold hj heq
      · exact (hs.held j fd' hold).2 hstop
    · exact Finset.insert_subset (hs.held i fd hown).1 hs.stopping
  | @stopSelect fd hfd =>
    refine iff_of_true ⟨?_, hs.one, Finset.erase_subset_erase fd hs.stopping, hs.entry⟩ trivial
    intro j fd' h
    obtain ⟨hopen, hstop⟩ := hs.held j fd' h
    have hne : fd' ≠ fd := by
      rintro rfl
      exact hstop hfd
    exact ⟨Finset.mem_erase.2 ⟨hne, hopen⟩, fun h => hstop (Finset.mem_of_mem_erase h)⟩

/-! ## Runs -/

/-- Along a run ownership is kept exactly when no insert crosses an erase. -/
theorem owned_iff {t : Runs.Trace Driver DriverEvent Unit} (run : Runs.Run machine AnyOrder [] new t s) :
    Runs.Each (Runs.After machine fun _ s => s.Owned) t ↔ Runs.Each (fun _ x => x.pre.Uncrossed x.event) t := by
  refine Runs.Run.each_iff (I := fun _ _ => True) (Q := fun _ s => s.Owned) trivial new_owned ?_ run
  intro t s e s' o _ hs _ hm
  exact ⟨trivial, owned_step hs (machine_step hm)⟩

/-- **In a run whose inserts all come while no `deselect` of the same number
is in progress, `fdmap` is the map of the selected handlers whenever no call
is.** -/
theorem fdmap_follows {t : Runs.Trace Driver DriverEvent Unit} (run : Runs.Run machine AnyOrder [] new t s)
    (huncrossed : Runs.Each (fun _ x => x.pre.Uncrossed x.event) t) :
    Runs.Each (Runs.After machine fun _ s => s.Quiet → s.Follows) t := by
  intro t₁ x t₂ ht s' hm hq
  exact ((owned_iff run).2 huncrossed t₁ x t₂ ht s' hm).follows hq

theorem fdmap_follows_one : ∃ t s, Runs.Run machine AnyOrder [] new t s ∧ s.sockets 0 = .selected 5 ∧
    Runs.Each (Runs.After machine fun _ s => s.Quiet → s.Follows) t := by
  have run := (((Runs.Run.start machine AnyOrder new).next (.socket 0 5) trivial rfl).next (.selectOn 0) trivial
    rfl).next (.insert 0) trivial rfl
  refine ⟨_, _, run, rfl, fdmap_follows run (((Runs.Each.nil.snoc trivial).snoc trivial).snoc ?_)⟩
  intro fd j _
  by_cases hj : j = 0 <;> simp [setSocket, new, hj]

/-- Handler 0 gives number 5 up, handler 1 gets it and selects it before the
entry of 0 is erased, and is left without one. -/
theorem number_reused_early : ∃ t s, Runs.Run machine AnyOrder [] new t s ∧ s.Quiet ∧ s.sockets 1 = .selected 5 ∧
    s.readyInput 5 = .none := by
  have run₀ := ((((Runs.Run.start machine AnyOrder new).next (.socket 0 5) trivial rfl).next (.selectOn 0) trivial
    rfl).next (.insert 0) trivial rfl).next (.selectOff 0) trivial rfl
  have run₁ := ((((run₀.next (.stopSelect 5) trivial rfl).next (.socket 1 5) trivial rfl).next (.selectOn 1) trivial
    rfl).next (.insert 1) trivial rfl).next (.erase 0) trivial rfl
  refine ⟨_, _, run₁, ?_, rfl, rfl⟩
  intro i fd
  by_cases h₀ : i = 0 <;> by_cases h₁ : i = 1 <;> simp [setSocket, new, h₀, h₁]

end Driver

end Descriptors

end GenUtp
