/-
The class `Binary`: driver binaries that objects share.

An object points to an `ErlDrvBinary` or to none, and its copies point to the
same one. The handlers keep the references of their callers and the options
they decode in such objects, copy them into receivers and queues, and swap
them; as terms they are plain optional byte strings.

They are. Whatever is done with any number of objects, each behaves as a value
of its own, no step touches a binary that was freed, and when the objects are
gone so are the binaries (`binaries_are_values`). No copy can tell, since the
only one to write into a binary is `decode`, which allocates it first.

Of the runtime: `driver_alloc_binary` returns a binary with one reference and
any bytes, or a null pointer; the last `driver_free_binary` frees it. The
constructor and the `reset` that take an `ErlDrvBinary*` have no callers.
-/
import GenUtp.Lib.RefCount
import GenUtp.Lib.Run

namespace GenUtp

namespace Binary

/-- An object is its place in the order of construction. -/
inductive BinaryOp
  | new
  /-- `Binary(const Binary& b)` -/
  | copy (b : Nat)
  | destroy (i : Nat)
  /-- `operator=` -/
  | assign (i b : Nat)
  /-- `orig`: the binary that is allocated. -/
  | alloc (i : Nat) (orig : Option (List UInt8))
  | reset (i : Nat)
  | swap (i b : Nat)
  /-- `bytes`: what the decoder reads, if it finds a binary. -/
  | decode (i : Nat) (orig : Option (List UInt8)) (bytes : Option (List UInt8))
  /-- `data`, `size` and `operator bool`. -/
  | look (i : Nat)
  | eq (i b : Nat)
  deriving DecidableEq, Repr

inductive BinaryOut
  | done
  | size (sz : Nat)
  | eiError
  | data (v : Option (List UInt8))
  | equal (b : Bool)
  deriving DecidableEq, Repr

/-- The objects, and which of them are not destroyed yet. -/
structure Binaries where
  store : RefCount.Store (List UInt8)
  live : List Bool
  deriving DecidableEq, Repr

namespace Binaries

def none : Binaries := ⟨.empty, []⟩

/-- `reset()`, then `driver_alloc_binary`. -/
def alloc (s : Binaries) (i : Nat) (orig : Option (List UInt8)) : Option Binaries :=
  (s.store.drop i).map fun st => { s with store := orig.elim st (st.create i) }

end Binaries

/-- `operator==` on what two objects point to. -/
def equal : Option (List UInt8) → Option (List UInt8) → Bool
  | bin, .none => bin.isNone
  | .none, .some _ => false
  | .some bin, .some b => if b.length ≠ bin.length then false else bin = b

/-- `bytes` over the first of a binary's. -/
def overwrite (orig bytes : List UInt8) : List UInt8 := bytes ++ orig.drop bytes.length

/-- `none` for an object that is not there, a binary that is freed, a null
pointer that is followed, or bytes that do not fit. -/
def machine (s : Binaries) : BinaryOp → Option (Binaries × BinaryOut)
  | .new => .some (⟨s.store.push, s.live ++ [true]⟩, .done)
  | .copy b =>
    if s.live[b]? = .some true then
      (s.store.push.share s.store.slots.length b).map fun st => (⟨st, s.live ++ [true]⟩, .done)
    else .none
  | .destroy i =>
    if s.live[i]? = .some true then (s.store.drop i).map fun st => (⟨st, s.live.set i false⟩, .done) else .none
  | .assign i b =>
    if s.live[i]? = .some true ∧ s.live[b]? = .some true then
      if b ≠ i then
        (s.store.drop i).bind fun st => (st.share i b).map fun st' => ({ s with store := st' }, .done)
      else .some (s, .done)
    else .none
  | .alloc i orig =>
    if s.live[i]? = .some true then (s.alloc i orig).map fun s' => (s', .done) else .none
  | .reset i =>
    if s.live[i]? = .some true then (s.store.drop i).map fun st => ({ s with store := st }, .done) else .none
  | .swap i b =>
    if s.live[i]? = .some true ∧ s.live[b]? = .some true then
      (s.store.swap i b).map fun st => ({ s with store := st }, .done)
    else .none
  | .decode i orig bytes =>
    if s.live[i]? = .some true then
      (s.alloc i orig).bind fun s' =>
        match orig, bytes with
        | .none, _ => .none
        | .some _, .none => .some (s', .eiError)
        | .some orig, .some bytes =>
          if bytes.length ≤ orig.length then
            (s'.store.write i (overwrite orig bytes)).map fun st => ({ s' with store := st }, .size bytes.length)
          else .none
    else .none
  | .look i => if s.live[i]? = .some true then (s.store.read i).map fun v => (s, .data v) else .none
  | .eq i b =>
    if s.live[i]? = .some true ∧ s.live[b]? = .some true then
      (s.store.read i).bind fun bin => (s.store.read b).map fun v => (s, .equal (equal bin v))
    else .none

/-! ## Values -/

/-- Objects that share nothing. -/
structure Values where
  vals : List (Option (List UInt8))
  live : List Bool
  deriving DecidableEq, Repr

/-- What the operations are for. -/
def values (s : Values) : BinaryOp → Option (Values × BinaryOut)
  | .new => .some (⟨s.vals ++ [.none], s.live ++ [true]⟩, .done)
  | .copy b =>
    if s.live[b]? = .some true then s.vals[b]?.map fun v => (⟨s.vals ++ [v], s.live ++ [true]⟩, .done) else .none
  | .destroy i => if s.live[i]? = .some true then .some (⟨s.vals.set i .none, s.live.set i false⟩, .done) else .none
  | .assign i b =>
    if s.live[i]? = .some true ∧ s.live[b]? = .some true then
      s.vals[b]?.map fun v => ({ s with vals := s.vals.set i v }, .done)
    else .none
  | .alloc i orig => if s.live[i]? = .some true then .some ({ s with vals := s.vals.set i orig }, .done) else .none
  | .reset i => if s.live[i]? = .some true then .some ({ s with vals := s.vals.set i .none }, .done) else .none
  | .swap i b =>
    if s.live[i]? = .some true ∧ s.live[b]? = .some true then
      s.vals[i]?.bind fun v => s.vals[b]?.map fun w => ({ s with vals := (s.vals.set b v).set i w }, .done)
    else .none
  | .decode i orig bytes =>
    if s.live[i]? = .some true then
      match orig, bytes with
      | .none, _ => .none
      | .some orig, .none => .some ({ s with vals := s.vals.set i (.some orig) }, .eiError)
      | .some orig, .some bytes =>
        if bytes.length ≤ orig.length then
          .some ({ s with vals := s.vals.set i (.some (overwrite orig bytes)) }, .size bytes.length)
        else .none
    else .none
  | .look i => if s.live[i]? = .some true then s.vals[i]?.map fun v => (s, .data v) else .none
  | .eq i b =>
    if s.live[i]? = .some true ∧ s.live[b]? = .some true then
      s.vals[i]?.bind fun v => s.vals[b]?.map fun w => (s, .equal (v = w))
    else .none

/-- The values the objects have. -/
def Binaries.view (s : Binaries) : Values := ⟨s.store.vals, s.live⟩

/-- The binaries count the objects, and a destroyed object points to none. -/
structure Binaries.Ok (s : Binaries) : Prop where
  counted : s.store.Counted
  length : s.live.length = s.store.slots.length
  dead : ∀ i : Nat, s.live[i]? = .some false → s.store.slots[i]? = .some .none

namespace Binaries

variable {s s' : Binaries} {i b : Nat} {l : Bool} {st : RefCount.Store (List UInt8)} {p q : Option Nat}

theorem ok_none : none.Ok := ⟨RefCount.Store.counted_empty, rfl, nofun⟩

theorem Ok.lt (h : s.Ok) (hi : s.live[i]? = .some l) : i < s.store.slots.length := by
  obtain ⟨hlt, -⟩ := List.getElem?_eq_some_iff.1 hi
  rw [← h.length]
  exact hlt

theorem Ok.slot (h : s.Ok) (hi : s.live[i]? = .some l) : ∃ p, s.store.slots[i]? = .some p :=
  ⟨_, List.getElem?_eq_getElem (h.lt hi)⟩

theorem Ok.getElem?_view (_ : s.Ok) (hi : s.store.slots[i]? = .some p) :
    s.view.vals[i]? = .some (p.bind s.store.value) := RefCount.Store.getElem?_vals hi

theorem Ok.read (h : s.Ok) (i : Nat) : s.store.read i = s.view.vals[i]? := h.counted.read i

theorem Ok.push (h : s.Ok) (hc : st.Counted) (hs : st.slots = s.store.slots ++ [p]) :
    Ok ⟨st, s.live ++ [true]⟩ := by
  refine ⟨hc, by simp [hs, h.length], fun i hi => ?_⟩
  have hlive : s.live[i]? = .some false := by
    rw [List.getElem?_append] at hi
    split at hi
    next => exact hi
    next =>
      obtain ⟨hlt, heq⟩ := List.getElem?_eq_some_iff.1 hi
      simp at heq
  have hlt := h.lt hlive
  rw [hs, List.getElem?_append_left hlt]
  exact h.dead i hlive

/-- What a live object points to is nothing to a dead one. -/
theorem set_dead {k : Nat} {slots : List (Option Nat)} (hi : s.live[i]? = .some true) (hk : s.live[k]? = .some false) :
    (slots.set i p)[k]? = slots[k]? := by
  refine List.getElem?_set_ne ?_
  rintro rfl
  rw [hi] at hk
  cases hk

theorem Ok.set (h : s.Ok) (hi : s.live[i]? = .some true) (hc : st.Counted) (hs : st.slots = s.store.slots.set i p) :
    Ok { s with store := st } := by
  refine ⟨hc, by simp [hs, h.length], fun k hk => ?_⟩
  rw [hs, set_dead hi hk]
  exact h.dead k hk

theorem Ok.swap (h : s.Ok) (hi : s.live[i]? = .some true) (hb : s.live[b]? = .some true) (hc : st.Counted)
    (hs : st.slots = (s.store.slots.set b p).set i q) : Ok { s with store := st } := by
  refine ⟨hc, by simp [hs, h.length], fun k hk => ?_⟩
  rw [hs, set_dead hi hk, set_dead hb hk]
  exact h.dead k hk

theorem Ok.destroy (h : s.Ok) (hi : s.live[i]? = .some true) (hc : st.Counted)
    (hs : st.slots = s.store.slots.set i .none) : Ok ⟨st, s.live.set i false⟩ := by
  refine ⟨hc, by simp [hs, h.length], fun k hk => ?_⟩
  rw [hs]
  by_cases hik : i = k
  · subst hik
    exact List.getElem?_set_self (h.lt hi)
  · rw [List.getElem?_set_ne hik] at hk ⊢
    exact h.dead k hk

theorem Ok.alloc (h : s.Ok) (hi : s.live[i]? = .some true) (orig : Option (List UInt8)) :
    ∃ s', s.alloc i orig = .some s' ∧ s'.Ok ∧ s'.live = s.live ∧ s'.store.vals = s.store.vals.set i orig ∧
      (orig ≠ .none → ∃ a, s'.store.slots[i]? = .some (.some a) ∧ s'.store.slots.count (.some a) = 1) := by
  obtain ⟨st, hst, hc, hs, hv⟩ := h.counted.drop (h.lt hi)
  cases orig with
  | none => exact ⟨_, by simp [Binaries.alloc, hst], h.set hi hc hs, rfl, hv, fun hne => absurd rfl hne⟩
  | some orig =>
    have hempty : st.slots[i]? = .some .none := by
      rw [hs, List.getElem?_set_self (h.lt hi)]
    obtain ⟨hc', hs', hv'⟩ := hc.create hempty orig
    have hslots : (st.create i orig).slots = s.store.slots.set i (.some st.cells.length) := by
      rw [hs', hs, List.set_set]
    refine ⟨_, by simp [Binaries.alloc, hst], h.set hi hc' hslots, rfl, ?_, fun _ => ⟨st.cells.length, ?_, ?_⟩⟩
    · show (st.create i orig).vals = _
      rw [hv', hv, List.set_set]
    · show (st.create i orig).slots[i]? = _
      rw [hslots, List.getElem?_set_self (h.lt hi)]
    · show (st.create i orig).slots.count _ = 1
      rw [← hc', RefCount.Store.refs_create, if_pos rfl]

end Binaries

/-- The outcome of a step on objects, and of a step on values. -/
def Simulates (r : Option (Binaries × BinaryOut)) (w : Option (Values × BinaryOut)) : Prop :=
  r.map (fun r => (r.1.view, r.2)) = w ∧ ∀ s' o, r = .some (s', o) → s'.Ok

section Simulates

variable {s : Binaries} {w : Values} {o : BinaryOut}

theorem simulates_none : Simulates .none .none := ⟨rfl, nofun⟩

theorem simulates_some (h : s.Ok) (hw : s.view = w) : Simulates (.some (s, o)) (.some (w, o)) := by
  refine ⟨by rw [← hw]; rfl, fun s' o' heq => ?_⟩
  cases heq
  exact h

theorem simulates_ite {c : Prop} [Decidable c] {r : Option (Binaries × BinaryOut)} {w : Option (Values × BinaryOut)}
    (h : c → Simulates r w) : Simulates (if c then r else .none) (if c then w else .none) := by
  split
  next hc => exact h hc
  next => exact simulates_none

end Simulates

theorem equal_eq (v w : Option (List UInt8)) : equal v w = decide (v = w) := by
  cases v <;> cases w <;> simp [equal]
  grind

/-- **A step is a step of values.** -/
theorem step_values {s : Binaries} (h : s.Ok) (e : BinaryOp) : Simulates (machine s e) (values s.view e) := by
  cases e with
  | new => 
    obtain ⟨hc, hv⟩ := h.counted.push
    exact simulates_some (h.push hc rfl) (by rw [Binaries.view, hv]; rfl)
  | copy b =>
    refine simulates_ite fun hb => ?_
    obtain ⟨p, hp⟩ := h.slot hb
    obtain ⟨st, hst, hc, hs, hv⟩ := h.counted.push_share hp
    rw [hst, h.getElem?_view hp]
    exact simulates_some (h.push hc hs) (by rw [Binaries.view, hv]; rfl)
  | destroy i =>
    refine simulates_ite fun hi => ?_
    obtain ⟨st, hst, hc, hs, hv⟩ := h.counted.drop (h.lt hi)
    rw [hst]
    exact simulates_some (h.destroy hi hc hs) (by rw [Binaries.view, hv]; rfl)
  | assign i b =>
    refine simulates_ite fun hib => ?_
    obtain ⟨hi, hb⟩ := hib
    obtain ⟨p, hp⟩ := h.slot hb
    rw [h.getElem?_view hp]
    by_cases hne : b = i
    · subst hne
      rw [if_neg (not_not.2 rfl)]
      refine simulates_some h ?_
      obtain ⟨hlt, heq⟩ := List.getElem?_eq_some_iff.1 (h.getElem?_view hp)
      rw [← heq, List.set_getElem_self]
    · rw [if_pos hne]
      obtain ⟨st, hst, hc, hs, hv⟩ := h.counted.drop (h.lt hi)
      have hempty : st.slots[i]? = .some .none := by rw [hs, List.getElem?_set_self (h.lt hi)]
      have hold : st.slots[b]? = .some p := by rw [hs, List.getElem?_set_ne (Ne.symm hne), hp]
      obtain ⟨st', hst', hc', hs', hv'⟩ := hc.share hempty hold
      have hsame : p.bind st.value = p.bind s.store.value := by
        have hval := RefCount.Store.getElem?_vals hold
        rw [hv, List.getElem?_set_ne (Ne.symm hne), RefCount.Store.getElem?_vals hp] at hval
        exact (Option.some.inj hval).symm
      rw [hst, Option.bind_some, hst']
      refine simulates_some (h.set hi hc' (p := p) (by rw [hs', hs, List.set_set])) ?_
      rw [Binaries.view, hv', hv, List.set_set, hsame]
      rfl
  | alloc i orig =>
    refine simulates_ite fun hi => ?_
    obtain ⟨s', hs', hok, hlive, hvals, -⟩ := h.alloc hi orig
    rw [hs']
    exact simulates_some hok (by rw [Binaries.view, hvals, hlive]; rfl)
  | reset i =>
    refine simulates_ite fun hi => ?_
    obtain ⟨st, hst, hc, hs, hv⟩ := h.counted.drop (h.lt hi)
    rw [hst]
    exact simulates_some (h.set hi hc hs) (by rw [Binaries.view, hv]; rfl)
  | swap i b =>
    refine simulates_ite fun hib => ?_
    obtain ⟨p, hp⟩ := h.slot hib.1
    obtain ⟨q, hq⟩ := h.slot hib.2
    obtain ⟨st, hst, hc, hs, hv⟩ := h.counted.swap hp hq
    rw [hst, h.getElem?_view hp, h.getElem?_view hq]
    exact simulates_some (h.swap hib.1 hib.2 hc hs) (by rw [Binaries.view, hv]; rfl)
  | decode i orig bytes =>
    refine simulates_ite fun hi => ?_
    obtain ⟨s', hs', hok, hlive, hvals, hown⟩ := h.alloc hi orig
    rw [hs', Option.bind_some]
    cases orig with
    | none => exact simulates_none
    | some orig =>
      cases bytes with
      | none => exact simulates_some hok (by rw [Binaries.view, hvals, hlive]; rfl)
      | some bytes =>
        refine simulates_ite fun hfit => ?_
        obtain ⟨a, ha, hone⟩ := hown nofun
        obtain ⟨st, hst, hc, hs, hv⟩ := hok.counted.write ha hone (overwrite orig bytes)
        rw [hst]
        refine simulates_some ⟨hc, ?_, fun k hk => ?_⟩ ?_
        · rw [hs]
          exact hok.length
        · rw [hs]
          exact hok.dead k hk
        · rw [Binaries.view, hv, hvals, List.set_set, hlive]
          rfl
  | look i =>
    refine simulates_ite fun hi => ?_
    obtain ⟨p, hp⟩ := h.slot hi
    rw [h.read, h.getElem?_view hp]
    exact simulates_some h rfl
  | eq i b =>
    refine simulates_ite fun hib => ?_
    obtain ⟨p, hp⟩ := h.slot hib.1
    obtain ⟨q, hq⟩ := h.slot hib.2
    rw [h.read, h.read, h.getElem?_view hp, h.getElem?_view hq, Option.bind_some, Option.bind_some, Option.map_some,
      equal_eq]
    exact simulates_some h rfl

/-- What was done, and what came of it. -/
def done {σ : Type} (t : Runs.Trace σ BinaryOp BinaryOut) : List (BinaryOp × BinaryOut) :=
  t.map fun x => (x.event, x.out)

variable {G : Runs.Guard Binaries BinaryOp BinaryOut} {t : Runs.Trace Binaries BinaryOp BinaryOut} {s : Binaries}

/-- **Objects that share are values.** After any operations, with the outcomes
of values that share nothing, the next has such an outcome too: it is
undefined only where it is on values. Every binary counts the objects that
point to it, and all are freed once the objects are destroyed. -/
theorem binaries_are_values (h : Runs.Run machine G [] .none t s) :
    (∃ u, Runs.Run values (fun _ _ _ => True) [] ⟨[], []⟩ u s.view ∧ done u = done t) ∧
      (∀ e, (machine s e).map Prod.snd = (values s.view e).map Prod.snd) ∧
      s.store.Counted ∧ ((∀ l ∈ s.live, l = false) → ∀ c ∈ s.store.cells, c.refs = 0) := by
  have key : ∃ u w, Runs.Run values (fun _ _ _ => True) [] ⟨[], []⟩ u w ∧ s.Ok ∧ w = s.view ∧ done u = done t := by
    refine h.follows (A := values) (I := fun t (s : Binaries) u w => s.Ok ∧ w = s.view ∧ done u = done t)
      ⟨Binaries.ok_none, rfl, rfl⟩ ?_
    intro t s e s' o u w hi _ hm
    obtain ⟨hok, rfl, hdone⟩ := hi
    obtain ⟨hval, hok'⟩ := step_values hok e
    rw [hm] at hval
    refine ⟨_, _, Runs.Run.refl.step trivial hval.symm, hok' s' o hm, rfl, ?_⟩
    simp only [done, List.map_append] at hdone ⊢
    rw [hdone]
    rfl
  obtain ⟨u, w, hrun, hok, rfl, hdone⟩ := key
  refine ⟨⟨u, hrun, hdone⟩, fun e => ?_, hok.counted, fun hdead => ?_⟩
  · rw [← (step_values hok e).1, Option.map_map]
    rfl
  · refine hok.counted.freed fun p hp => ?_
    obtain ⟨i, hi⟩ := List.mem_iff_getElem?.1 hp
    have hlt : i < s.live.length := by
      rw [hok.length]
      exact (List.getElem?_eq_some_iff.1 hi).1
    have hlive : s.live[i]? = .some false := by
      rw [List.getElem?_eq_getElem hlt, hdead _ (List.getElem_mem hlt)]
    rw [hok.dead i hlive] at hi
    exact (Option.some.inj hi).symm

/-- A reference is decoded, copied, and decoded anew; the copy keeps the first
one, and both binaries are freed. -/
theorem binaries_are_values_copy : ∃ t s, Runs.Run machine (fun _ _ _ => True) [] .none t s ∧
    (.look 1, .data (.some [7])) ∈ done t ∧ s.store.cells.length = 2 ∧ ∀ c ∈ s.store.cells, c.refs = 0 := by
  have run := ((((((((Runs.Run.start machine (fun _ _ _ => True) .none).next .new trivial rfl).next
    (.decode 0 (.some [0]) (.some [7])) trivial rfl).next (.copy 0) trivial rfl).next
    (.decode 0 (.some [0]) (.some [8])) trivial rfl).next (.look 1) trivial rfl).next (.destroy 0) trivial rfl).next
    (.destroy 1) trivial rfl)
  exact ⟨_, _, run, by decide, rfl, (binaries_are_values run).2.2.2 (by decide)⟩

end Binary

end GenUtp
