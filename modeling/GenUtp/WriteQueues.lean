/-
Write queues over their lives: the binaries a queue points to, the
references it is given, and its calls of `driver_free_binary`.

Any number of queues are created, copied, used and destroyed, in any order.
Each is a byte FIFO (`queues_fifo`), the copies included. The references come
out even exactly when `clear` never finds a binary (`settled_iff`): it empties
the list without freeing what is in it, where the destructor, which has the
same to do, frees each. It is called on every end of file.
-/
import GenUtp.Lib.Fifo
import GenUtp.Lib.Run
import GenUtp.WriteQueue

namespace GenUtp

/-- A binary by its address, with its `orig_bytes`. -/
structure ErlDrvBinary where
  addr : Nat
  origBytes : List UInt8
  deriving DecidableEq, Repr

/-- A `WriteQueue` as the list of binaries it is. -/
structure BinaryQueue where
  queue : List ErlDrvBinary
  sz : Nat
  offset : Nat
  deriving DecidableEq, Repr

namespace BinaryQueue

def new : BinaryQueue := ⟨[], 0, 0⟩

def size (wq : BinaryQueue) : Nat := wq.sz

/-- The loop of the copy constructor: the list it builds, and the binaries of
its `driver_binary_inc_refc`. -/
def copyLoop : List ErlDrvBinary → List ErlDrvBinary → List ErlDrvBinary → List ErlDrvBinary × List ErlDrvBinary
  | [], queue, refs => (queue, refs)
  | bin :: it, queue, refs => copyLoop it (queue ++ [bin]) (refs ++ [bin])

def copy (wq : BinaryQueue) : BinaryQueue × List ErlDrvBinary :=
  let (queue, refs) := copyLoop wq.queue [] []
  (⟨queue, wq.sz, wq.offset⟩, refs)

def pushBack (wq : BinaryQueue) (bin : ErlDrvBinary) : BinaryQueue :=
  { wq with queue := wq.queue ++ [bin], sz := wq.sz + bin.origBytes.length }

/-- The loop of `pop_bytes`: what it copies, the binaries it frees, and the
queue it leaves. -/
def popLoop : List ErlDrvBinary → Nat → Nat → Nat → Option (List UInt8 × List ErlDrvBinary × BinaryQueue)
  | queue, sz, offset, 0 => .some ([], [], ⟨queue, sz, offset⟩)
  | [], _, _, _ + 1 => .none
  | bin :: queue, sz, offset, count + 1 =>
    if bin.origBytes.length - offset > count + 1 then
      .some ((bin.origBytes.drop offset).take (count + 1), [],
        ⟨bin :: queue, sz - (count + 1), offset + (count + 1)⟩)
    else
      let toCopy := bin.origBytes.length - offset
      (popLoop queue (sz - toCopy) 0 (count + 1 - toCopy)).map fun r =>
        (bin.origBytes.drop offset ++ r.1, bin :: r.2.1, r.2.2)

def popBytes (wq : BinaryQueue) (count : Nat) : Option (List UInt8 × List ErlDrvBinary × BinaryQueue) :=
  popLoop wq.queue wq.sz wq.offset count

/-- `clear`, which frees nothing. -/
def clear (_ : BinaryQueue) : BinaryQueue := new

/-- The bytes of the queue, as the handler has them. -/
def view (wq : BinaryQueue) : WriteQueue := ⟨wq.queue.map ErlDrvBinary.origBytes, wq.sz, wq.offset⟩

/-! ## The view -/

variable {wq wq' : BinaryQueue} {bin b : ErlDrvBinary} {bs : List UInt8} {freed : List ErlDrvBinary}

theorem copyLoop_eq (it queue refs : List ErlDrvBinary) : copyLoop it queue refs = (queue ++ it, refs ++ it) := by
  induction it generalizing queue refs with
  | nil => simp [copyLoop]
  | cons bin it ih => simp [copyLoop, ih]

/-- A copy is the queue itself, with a reference to each of its binaries. -/
@[simp] theorem copy_eq (wq : BinaryQueue) : wq.copy = (wq, wq.queue) := by
  simp [copy, copyLoop_eq]

@[simp] theorem view_new : new.view = .new := rfl

@[simp] theorem view_pushBack (wq : BinaryQueue) (bin : ErlDrvBinary) :
    (wq.pushBack bin).view = wq.view.pushBack bin.origBytes := by
  simp [view, pushBack, WriteQueue.pushBack]

theorem view_popLoop : ∀ (queue : List ErlDrvBinary) (sz offset count : Nat),
    (popLoop queue sz offset count).map (fun r => (r.1, r.2.2.view)) =
      WriteQueue.popLoop (queue.map ErlDrvBinary.origBytes) sz offset count
  | queue, _, _, 0 => by cases queue <;> rfl
  | [], _, _, _ + 1 => rfl
  | bin :: queue, sz, offset, count + 1 => by
    simp only [popLoop, List.map_cons, WriteQueue.popLoop]
    split
    · rfl
    · rw [← view_popLoop]
      simp only [Option.map_map]
      rfl

theorem view_popBytes (wq : BinaryQueue) (count : Nat) :
    (wq.popBytes count).map (fun r => (r.1, r.2.2.view)) = wq.view.popBytes count :=
  view_popLoop _ _ _ _

theorem popLoop_freed : ∀ {queue freed : List ErlDrvBinary} {sz offset count : Nat} {bs : List UInt8}
    {wq' : BinaryQueue}, popLoop queue sz offset count = .some (bs, freed, wq') → queue = freed ++ wq'.queue
  | queue, _, _, _, 0, _, _, h => by cases queue <;> cases h <;> rfl
  | [], _, _, _, _ + 1, _, _, h => by cases h
  | bin :: queue, _, sz, offset, count + 1, _, _, h => by
    simp only [popLoop] at h
    split at h
    · cases h
      rfl
    · obtain ⟨r, hr, heq⟩ := Option.map_eq_some_iff.1 h
      cases heq
      rw [List.cons_append, ← popLoop_freed hr]

/-- `pop_bytes` frees the binaries it takes off the list. -/
theorem popBytes_freed {count : Nat} (h : wq.popBytes count = .some (bs, freed, wq')) :
    wq.queue = freed ++ wq'.queue := popLoop_freed h

end BinaryQueue

/-! ## The operations, with an account of the references -/

/-- A queue, the references given to it, and its calls of
`driver_free_binary`. -/
structure Holder where
  wq : BinaryQueue
  took : List ErlDrvBinary
  freed : List ErlDrvBinary
  destroyed : Bool
  deriving DecidableEq, Repr

inductive QueueOp
  | pushBack (bin : ErlDrvBinary)
  | popBytes (count : Nat)
  | clear
  | destroy
  deriving DecidableEq, Repr

/-- What may happen to the queues, which are numbered in the order of their
construction. -/
inductive QueueEvent
  | create
  | copy (i : Nat)
  | op (i : Nat) (x : QueueOp)
  deriving DecidableEq, Repr

namespace Holder

def new : Holder := ⟨.new, [], [], false⟩

/-- The copy is given one reference for each binary. -/
def copy (c : Holder) : Holder := ⟨c.wq.copy.1, c.wq.copy.2, [], false⟩

/-- One operation, and the bytes it copies out. -/
def apply (c : Holder) : QueueOp → Option (Holder × List UInt8)
  | .pushBack bin => .some ({ c with wq := c.wq.pushBack bin, took := c.took ++ [bin] }, [])
  | .popBytes count => (c.wq.popBytes count).map fun r => ({ c with wq := r.2.2, freed := c.freed ++ r.2.1 }, r.1)
  | .clear => .some ({ c with wq := c.wq.clear }, [])
  -- the destructor frees each binary of the list
  | .destroy => .some ({ c with wq := .new, freed := c.freed ++ c.wq.queue, destroyed := true }, [])

/-- The bytes that some operations copy out, one after the other. -/
def outputs (c : Holder) : List QueueOp → Option (List (List UInt8))
  | [] => .some []
  | x :: xs => (c.apply x).bind fun r => (r.1.outputs xs).map (r.2 :: ·)

end Holder

namespace WriteQueues

abbrev World := List Holder

def machine (w : World) : QueueEvent → Option (World × List UInt8)
  | .create => .some (w ++ [.new], [])
  | .copy i => w[i]?.map fun c => (w ++ [c.copy], [])
  | .op i x => w[i]?.bind fun c => (c.apply x).map fun r => (w.set i r.1, r.2)

abbrev Trace := Runs.Trace World QueueEvent (List UInt8)

/-- What is asked of `pop_bytes` is in the queue. -/
def Within (c : Holder) : QueueOp → Prop
  | .popBytes count => count ≤ c.wq.size
  | _ => True

/-- The uses of a queue that is there and has not been destroyed. -/
def Allowed : Runs.Guard World QueueEvent (List UInt8) := fun _ w e =>
  match e with
  | .create => True
  | .copy i => ∃ c, w[i]? = .some c ∧ c.destroyed = false
  | .op i x => ∃ c, w[i]? = .some c ∧ c.destroyed = false ∧ Within c x

/-! ## Each queue is a FIFO -/

/-- An operation, on what the queue is for. -/
def applied (f : Fifo UInt8) : QueueOp → Fifo UInt8
  | .pushBack bin => f.push bin.origBytes
  | .popBytes count => f.pop count
  | .clear => .new
  | .destroy => f

/-- An event, on the histories of the queues. A copy has that of the
original. -/
def recorded (fs : List (Fifo UInt8)) : QueueEvent → List (Fifo UInt8)
  | .create => fs ++ [.new]
  | .copy i => fs ++ fs[i]?.toList
  | .op i x => fs.modify i (applied · x)

/-- What was pushed to each queue since its last `clear`, and how much of it
was popped. -/
def histories (t : Trace) : List (Fifo UInt8) := t.foldl (fun fs x => recorded fs x.event) []

theorem histories_snoc (t : Trace) (x : Runs.Entry World QueueEvent (List UInt8)) :
    histories (t ++ [x]) = recorded (histories t) x.event := by
  simp [histories]

/-- A queue holds what is left of its history. -/
def Tracks (c : Holder) (f : Fifo UInt8) : Prop :=
  c.destroyed = false → c.wq.view.Ok ∧ c.wq.view.bytes = f.rest

/-- The bytes an operation copies out. -/
def yields (f : Fifo UInt8) : QueueOp → List UInt8
  | .popBytes count => f.next count
  | _ => []

variable {c c' : Holder} {f : Fifo UInt8} {x : QueueOp}

theorem Tracks.size (ht : Tracks c f) (hd : c.destroyed = false) : c.wq.size = f.size := by
  obtain ⟨hok, hb⟩ := ht hd
  rw [← Fifo.length_rest, ← hb, hok.length_bytes]
  rfl

theorem apply_tracks (ht : Tracks c f) (hd : c.destroyed = false) (hx : Within c x) :
    ∃ c', c.apply x = .some (c', yields f x) ∧ Tracks c' (applied f x) := by
  obtain ⟨hok, hb⟩ := ht hd
  cases x with
  | pushBack bin =>
    refine ⟨_, rfl, fun _ => ?_⟩
    simp only [BinaryQueue.view_pushBack, applied, Fifo.rest_push]
    exact ⟨hok.pushBack _, by rw [hok.bytes_pushBack, hb]⟩
  | popBytes count =>
    obtain ⟨wq', hpop, hok', hb'⟩ := WriteQueue.popBytes_eq hok hx
    rw [← BinaryQueue.view_popBytes] at hpop
    obtain ⟨⟨bs, freed, wq⟩, hp, heq⟩ := Option.map_eq_some_iff.1 hpop
    obtain ⟨rfl, rfl⟩ := Prod.mk.inj heq
    refine ⟨{ c with wq := wq, freed := c.freed ++ freed }, ?_, fun _ => ⟨hok', ?_⟩⟩
    · simp [Holder.apply, hp, yields, hb]
    · rw [applied, Fifo.rest_pop, ← hb, hb']
  | clear => exact ⟨_, rfl, fun _ => ⟨.new, rfl⟩⟩
  | destroy => exact ⟨_, rfl, nofun⟩

/-- Every queue has its history. -/
structure Tracked (fs : List (Fifo UInt8)) (w : World) : Prop where
  length : w.length = fs.length
  each : ∀ (i : Nat) c, w[i]? = .some c → ∃ f, fs[i]? = .some f ∧ Tracks c f

variable {fs : List (Fifo UInt8)} {w w' : World} {t : Trace} {e : QueueEvent} {o : List UInt8} {i : Nat}

theorem lookup_snoc {c c' : Holder} (h : (w ++ [c])[i]? = .some c') : w[i]? = .some c' ∨ i = w.length ∧ c' = c := by
  rw [List.getElem?_append] at h
  split at h
  · exact .inl h
  · next hi =>
    obtain ⟨hlt, heq⟩ := List.getElem?_eq_some_iff.1 h
    simp only [List.length_singleton] at hlt
    exact .inr ⟨by omega, by simpa [eq_comm] using heq⟩

theorem lookup_set {c c' : Holder} {j : Nat} (h : (w.set i c)[j]? = .some c') :
    (j = i ∧ c' = c) ∨ (j ≠ i ∧ w[j]? = .some c') := by
  rw [List.getElem?_set] at h
  by_cases hij : i = j
  · rw [if_pos hij] at h
    split at h
    · exact .inl ⟨hij.symm, (Option.some.inj h).symm⟩
    · cases h
  · rw [if_neg hij] at h
    exact .inr ⟨Ne.symm hij, h⟩

theorem Tracked.snoc (h : Tracked fs w) (hc : Tracks c f) : Tracked (fs ++ [f]) (w ++ [c]) := by
  refine ⟨by simp [h.length], fun i c' hi => ?_⟩
  obtain hold | ⟨rfl, rfl⟩ := lookup_snoc hi
  · obtain ⟨f', hf', ht⟩ := h.each i c' hold
    exact ⟨f', by rw [List.getElem?_append_left (List.getElem?_eq_some_iff.1 hf').1, hf'], ht⟩
  · exact ⟨f, by simp [h.length], hc⟩

theorem Tracked.set {g : Fifo UInt8 → Fifo UInt8} (h : Tracked fs w) (hf : fs[i]? = .some f) (hc : Tracks c (g f)) :
    Tracked (fs.modify i g) (w.set i c) := by
  refine ⟨by simp [h.length], fun j c' hj => ?_⟩
  obtain ⟨rfl, rfl⟩ | ⟨hij, hold⟩ := lookup_set hj
  · exact ⟨g f, by simp [hf], hc⟩
  · obtain ⟨f', hf', ht⟩ := h.each j c' hold
    exact ⟨f', by simp [hf', Ne.symm hij], ht⟩

theorem Tracks.copy (h : Tracks c f) (hd : c.destroyed = false) : Tracks c.copy f := by
  intro _
  simpa [Holder.copy] using h hd

/-- An allowed event is defined, keeps the histories, and copies out the next
bytes. -/
theorem machine_tracked (h : Tracked fs w) (hg : Allowed t w e) :
    ∃ w' o, machine w e = .some (w', o) ∧ Tracked (recorded fs e) w' ∧
      ∀ i x, e = .op i x → ∃ f, fs[i]? = .some f ∧ o = yields f x := by
  cases e with
  | create => exact ⟨_, _, rfl, h.snoc fun _ => ⟨.new, rfl⟩, nofun⟩
  | copy i =>
    obtain ⟨c, hc, hd⟩ := hg
    obtain ⟨f, hf, ht⟩ := h.each i c hc
    refine ⟨w ++ [c.copy], [], by simp [machine, hc], ?_, nofun⟩
    simpa [recorded, hf] using h.snoc (ht.copy hd)
  | op i x =>
    obtain ⟨c, hc, hd, hx⟩ := hg
    obtain ⟨f, hf, ht⟩ := h.each i c hc
    obtain ⟨c', ha, ht'⟩ := apply_tracks ht hd hx
    refine ⟨w.set i c', yields f x, by simp [machine, hc, ha], h.set hf ht', fun j y heq => ?_⟩
    cases heq
    exact ⟨f, hf, rfl⟩

/-- What an operation copies out does not depend on the account. -/
theorem outputs_congr (xs : List QueueOp) : ∀ {c c' : Holder}, c.wq = c'.wq → c.outputs xs = c'.outputs xs := by
  induction xs with
  | nil => simp [Holder.outputs]
  | cons x xs ih =>
    intro c c' hwq
    have hnext : ∀ {r r' : Holder × List UInt8}, r.1.wq = r'.1.wq → r.2 = r'.2 →
        (r.1.outputs xs).map (r.2 :: ·) = (r'.1.outputs xs).map (r'.2 :: ·) := by
      intro r r' hq ho
      rw [ih hq, ho]
    cases x with
    | popBytes count =>
      simp only [Holder.outputs, Holder.apply, hwq]
      cases c'.wq.popBytes count with
      | none => rfl
      | some r => exact hnext rfl rfl
    | pushBack bin => exact hnext (by simp [hwq]) rfl
    | clear | destroy => exact hnext rfl rfl

/-- What holds of the queues after a run. -/
structure AreFifos (t : Trace) (w : World) : Prop where
  /-- No allowed call is undefined: none takes the front of an empty list. -/
  defined : ∀ e, Allowed t w e → (machine w e).isSome
  size : ∀ (i : Nat) c, w[i]? = .some c → c.destroyed = false →
    ∃ f, (histories t)[i]? = .some f ∧ c.wq.size = f.pushed.length - f.popped
  offset : ∀ c ∈ w, c.destroyed = false → c.wq.offset ≤ ((c.wq.queue.map ErlDrvBinary.origBytes).headD []).length
  pops : Runs.Each (fun t x => ∀ i count, x.event = .op i (.popBytes count) →
    ∃ f, (histories t)[i]? = .some f ∧ x.out = (f.pushed.drop f.popped).take count) t
  copies : ∀ (i : Nat) c w' o c', w[i]? = .some c → machine w (.copy i) = .some (w', o) → w'[w.length]? = .some c' →
    ∀ xs, c'.outputs xs = c.outputs xs

/-- **Every queue is a byte FIFO**, through any operations of any queues. -/
theorem queues_fifo (run : Runs.Run machine Allowed [] [] t w) : AreFifos t w := by
  have hinv : Tracked (histories t) w ∧ Runs.Each (fun t x => ∀ i count, x.event = .op i (.popBytes count) →
      ∃ f, (histories t)[i]? = .some f ∧ x.out = (f.pushed.drop f.popped).take count) t := by
    refine run.each (I := fun t w => Tracked (histories t) w) ⟨rfl, by simp⟩ ?_ .nil
    intro t w e w' o ht hg hm
    obtain ⟨w'', o', hm', ht', ho⟩ := machine_tracked ht hg
    obtain ⟨rfl, rfl⟩ := Prod.mk.inj (Option.some.inj (hm'.symm.trans hm))
    refine ⟨by rwa [histories_snoc], fun i count heq => ?_⟩
    obtain ⟨f, hf, rfl⟩ := ho i _ heq
    exact ⟨f, hf, rfl⟩
  obtain ⟨ht, hpops⟩ := hinv
  refine ⟨?_, ?_, ?_, hpops, ?_⟩
  · intro e hg
    obtain ⟨w', o, hm, -⟩ := machine_tracked ht hg
    simp [hm]
  · intro i c hc hd
    obtain ⟨f, hf, htr⟩ := ht.each i c hc
    exact ⟨f, hf, htr.size hd⟩
  · intro c hc hd
    obtain ⟨i, hi⟩ := List.mem_iff_getElem?.1 hc
    obtain ⟨f, -, htr⟩ := ht.each i c hi
    exact (htr hd).1.front
  · intro i c w' o c' hc hm hc' xs
    simp only [machine, hc, Option.map_some, Option.some.injEq, Prod.mk.injEq] at hm
    obtain ⟨rfl, -⟩ := hm
    obtain rfl : c.copy = c' := by simpa using hc'
    exact outputs_congr xs (by simp [Holder.copy])

/-- A copy of a queue that has been popped in the middle of a binary, with an
empty one behind it. -/
theorem queues_fifo_copy : ∃ (t : Trace) (w : World), t.map Runs.Entry.event = [.create,
    .op 0 (.pushBack ⟨0, [1, 2, 3]⟩), .op 0 (.pushBack ⟨1, []⟩), .op 0 (.popBytes 2), .copy 0, .op 1 (.popBytes 1)] ∧
    AreFifos t w := by
  have run := ((((((Runs.Run.start machine Allowed []).next .create trivial rfl).next
    (.op 0 (.pushBack ⟨0, [1, 2, 3]⟩)) ⟨_, rfl, rfl, trivial⟩ rfl).next
    (.op 0 (.pushBack ⟨1, []⟩)) ⟨_, rfl, rfl, trivial⟩ rfl).next
    (.op 0 (.popBytes 2)) ⟨_, rfl, rfl, show (2 : Nat) ≤ 3 by decide⟩ rfl).next
    (.copy 0) ⟨_, rfl, rfl⟩ rfl).next
    (.op 1 (.popBytes 1)) ⟨_, rfl, rfl, show (1 : Nat) ≤ 1 by decide⟩ rfl
  exact ⟨_, _, rfl, queues_fifo run⟩

/-! ## References -/

/-- Every reference was released once. -/
def Settled (c : Holder) : Prop := ∀ b, c.took.count b = c.freed.count b

/-- Each place in the queue has a reference that has not been released. -/
def Backed (c : Holder) : Prop := ∀ b, c.freed.count b + c.wq.queue.count b ≤ c.took.count b

/-- Nothing but what is in the queue is still to be released. -/
def Balanced (c : Holder) : Prop := ∀ b, c.took.count b = c.freed.count b + c.wq.queue.count b

/-- Where an operation loses references. -/
def Loses (c : Holder) (x : QueueOp) : Prop := x = .clear ∧ c.wq.queue ≠ []

theorem Backed.apply (hb : Backed c) (ha : c.apply x = .some (c', o)) : Backed c' := by
  intro b
  have := hb b
  cases x with
  | pushBack bin =>
    cases ha
    simp only [BinaryQueue.pushBack, List.count_append]
    omega
  | popBytes count =>
    obtain ⟨⟨bs, freed, wq⟩, hp, heq⟩ := Option.map_eq_some_iff.1 ha
    cases heq
    rw [BinaryQueue.popBytes_freed hp, List.count_append] at this
    simp only [List.count_append]
    omega
  | clear =>
    cases ha
    simp only [BinaryQueue.clear, BinaryQueue.new, List.count_nil]
    omega
  | destroy =>
    cases ha
    simp only [BinaryQueue.new, List.count_append, List.count_nil]
    omega

/-- The account stays balanced exactly when nothing is lost. -/
theorem balanced_apply (hb : Backed c) (ha : c.apply x = .some (c', o)) : Balanced c' ↔ Balanced c ∧ ¬Loses c x := by
  cases x with
  | pushBack bin =>
    cases ha
    simp only [Balanced, Loses, BinaryQueue.pushBack, List.count_append, reduceCtorEq, false_and, not_false_eq_true,
      and_true]
    exact forall_congr' fun b => by omega
  | popBytes count =>
    obtain ⟨⟨bs, freed, wq⟩, hp, heq⟩ := Option.map_eq_some_iff.1 ha
    cases heq
    simp only [Balanced, Loses, BinaryQueue.popBytes_freed hp, List.count_append, reduceCtorEq, false_and,
      not_false_eq_true, and_true]
    exact forall_congr' fun b => by omega
  | clear =>
    cases ha
    simp only [Balanced, Loses, BinaryQueue.clear, BinaryQueue.new, List.count_nil, true_and, not_not]
    constructor
    · intro hall
      have hnone : ∀ b, c.wq.queue.count b = 0 := fun b => by
        have := hb b
        have := hall b
        omega
      refine ⟨fun b => by rw [hall b, hnone b], List.eq_nil_iff_forall_not_mem.2 fun b => ?_⟩
      exact List.count_eq_zero.1 (hnone b)
    · intro hall
      obtain ⟨hall, hnil⟩ := hall
      simpa [hnil] using hall
  | destroy =>
    cases ha
    simp only [Balanced, Loses, BinaryQueue.new, List.count_append, List.count_nil, reduceCtorEq, false_and,
      not_false_eq_true, and_true]
    exact forall_congr' fun b => by omega

theorem apply_over (hd : c.destroyed = false) (ha : c.apply x = .some (c', o)) (hd' : c'.destroyed = true) :
    c'.wq.queue = [] := by
  cases x with
  | popBytes count =>
    obtain ⟨r, -, heq⟩ := Option.map_eq_some_iff.1 ha
    cases heq
    rw [hd] at hd'
    cases hd'
  | destroy =>
    cases ha
    rfl
  | pushBack bin | clear =>
    cases ha
    rw [hd] at hd'
    cases hd'

/-- Every `clear` of a queue found it empty. -/
def ClearsEmpty (t : Trace) (i : Nat) : Prop :=
  ∀ x ∈ t, x.event = .op i .clear → ∀ c, x.pre[i]? = .some c → c.wq.queue = []

/-- What is kept of the accounts. -/
structure Accounts (t : Trace) (w : World) : Prop where
  used : ∀ x ∈ t, ∀ i y, x.event = .op i y → i < w.length
  backed : ∀ (i : Nat) c, w[i]? = .some c → Backed c
  emptied : ∀ (i : Nat) c, w[i]? = .some c → c.destroyed = true → c.wq.queue = []
  balanced : ∀ (i : Nat) c, w[i]? = .some c → (Balanced c ↔ ClearsEmpty t i)

theorem clearsEmpty_snoc {x : Runs.Entry World QueueEvent (List UInt8)} : ClearsEmpty (t ++ [x]) i ↔
    ClearsEmpty t i ∧ (x.event = .op i .clear → ∀ c, x.pre[i]? = .some c → c.wq.queue = []) := by
  simp only [ClearsEmpty, List.forall_mem_append, List.forall_mem_singleton]

theorem Accounts.snoc (h : Accounts t w) (he : ∀ i y, e ≠ .op i y) (hb : Balanced c) (hd : c.destroyed = false) :
    Accounts (t ++ [⟨w, e, o⟩]) (w ++ [c]) := by
  have hsame : ∀ i, ClearsEmpty (t ++ [⟨w, e, o⟩]) i ↔ ClearsEmpty t i := by
    intro i
    rw [clearsEmpty_snoc]
    exact and_iff_left fun heq => absurd heq (he i _)
  refine ⟨?_, ?_, ?_, ?_⟩
  · intro x hx i y heq
    rw [List.length_append]
    rcases List.mem_append.1 hx with hx | hx
    · exact Nat.lt_add_right _ (h.used x hx i y heq)
    · obtain rfl := List.mem_singleton.1 hx
      exact absurd heq (he i y)
  · intro i c' hi
    obtain hold | ⟨-, rfl⟩ := lookup_snoc hi
    · exact h.backed i c' hold
    · exact fun b => Nat.le_of_eq (hb b).symm
  · intro i c' hi hdest
    obtain hold | ⟨-, rfl⟩ := lookup_snoc hi
    · exact h.emptied i c' hold hdest
    · rw [hd] at hdest
      cases hdest
  · intro i c' hi
    rw [hsame]
    obtain hold | ⟨rfl, rfl⟩ := lookup_snoc hi
    · exact h.balanced i c' hold
    · -- nothing was done to a queue that was not there
      exact iff_of_true hb fun x hx heq => absurd (h.used x hx _ _ heq) (Nat.lt_irrefl _)

theorem Accounts.set (h : Accounts t w) (hc : w[i]? = .some c) (hd : c.destroyed = false)
    (ha : c.apply x = .some (c', o)) : Accounts (t ++ [⟨w, .op i x, o⟩]) (w.set i c') := by
  have hlt : i < w.length := (List.getElem?_eq_some_iff.1 hc).1
  refine ⟨?_, ?_, ?_, ?_⟩
  · intro y hy j z heq
    rw [List.length_set]
    rcases List.mem_append.1 hy with hy | hy
    · exact h.used y hy j z heq
    · obtain rfl := List.mem_singleton.1 hy
      cases heq
      exact hlt
  · intro j d hj
    obtain ⟨rfl, rfl⟩ | ⟨-, hold⟩ := lookup_set hj
    · exact (h.backed _ _ hc).apply ha
    · exact h.backed j d hold
  · intro j d hj hdest
    obtain ⟨rfl, rfl⟩ | ⟨-, hold⟩ := lookup_set hj
    · exact apply_over hd ha hdest
    · exact h.emptied j d hold hdest
  · intro j d hj
    rw [clearsEmpty_snoc]
    obtain ⟨rfl, rfl⟩ | ⟨hne, hold⟩ := lookup_set hj
    · rw [balanced_apply (h.backed _ _ hc) ha, h.balanced _ _ hc]
      refine and_congr_right fun _ => ?_
      simp [Loses, hc]
    · rw [h.balanced j d hold]
      refine (and_iff_left fun heq => ?_).symm
      cases heq
      exact absurd rfl hne

theorem accounts_step (h : Accounts t w) (hg : Allowed t w e) (hm : machine w e = .some (w', o)) :
    Accounts (t ++ [⟨w, e, o⟩]) w' := by
  cases e with
  | create =>
    cases hm
    exact h.snoc nofun (fun b => by simp [Holder.new, BinaryQueue.new]) rfl
  | copy i =>
    obtain ⟨c, hc, -⟩ := hg
    simp only [machine, hc, Option.map_some, Option.some.injEq, Prod.mk.injEq] at hm
    obtain ⟨rfl, rfl⟩ := hm
    exact h.snoc nofun (fun b => by simp [Holder.copy]) rfl
  | op i x =>
    obtain ⟨c, hc, hd, -⟩ := hg
    simp only [machine, hc, Option.bind_some] at hm
    obtain ⟨⟨c', o'⟩, ha, heq⟩ := Option.map_eq_some_iff.1 hm
    cases heq
    exact h.set hc hd ha

/-- Whatever stands in a queue, at any time, has its reference. -/
def NeverEarly (t : Trace) : Prop := Runs.Each (Runs.After machine fun _ w => ∀ c ∈ w, Backed c) t

/-- **A queue that is destroyed has released each reference once exactly when
no `clear` found a binary in it**; none was ever released early. -/
theorem settled_iff (run : Runs.Run machine Allowed [] [] t w) (hc : w[i]? = .some c) (hd : c.destroyed = true) :
    Settled c ∧ NeverEarly t ↔ ClearsEmpty t i := by
  have hinv : Accounts t w ∧ NeverEarly t := by
    refine run.each ⟨by simp, by simp, by simp, by simp⟩ ?_ .nil
    intro t w e w' o hi hg hm
    have hi' := accounts_step hi hg hm
    refine ⟨hi', (Runs.after_iff hm).2 fun c hc => ?_⟩
    obtain ⟨i, hi⟩ := List.mem_iff_getElem?.1 hc
    exact hi'.backed i c hi
  obtain ⟨hacc, hearly⟩ := hinv
  rw [and_iff_left hearly, ← hacc.balanced i c hc]
  simp [Settled, Balanced, hacc.emptied i c hc hd]

theorem settled_iff_popped : ∃ t : Trace, t.map Runs.Entry.event = [.create, .op 0 (.pushBack ⟨0, [1, 2, 3]⟩),
    .op 0 (.pushBack ⟨1, [4]⟩), .op 0 (.popBytes 3), .op 0 .destroy] ∧
    (Settled ⟨.new, [⟨0, [1, 2, 3]⟩, ⟨1, [4]⟩], [⟨0, [1, 2, 3]⟩, ⟨1, [4]⟩], true⟩ ∧ NeverEarly t ↔
      ClearsEmpty t 0) := by
  have run : Runs.Run machine Allowed [] [] _ [⟨.new, [⟨0, [1, 2, 3]⟩, ⟨1, [4]⟩], [⟨0, [1, 2, 3]⟩, ⟨1, [4]⟩], true⟩] :=
    (((((Runs.Run.start machine Allowed []).next .create trivial rfl).next
    (.op 0 (.pushBack ⟨0, [1, 2, 3]⟩)) ⟨_, rfl, rfl, trivial⟩ rfl).next
    (.op 0 (.pushBack ⟨1, [4]⟩)) ⟨_, rfl, rfl, trivial⟩ rfl).next
    (.op 0 (.popBytes 3)) ⟨_, rfl, rfl, show (3 : Nat) ≤ 4 by decide⟩ rfl).next
    (.op 0 .destroy) ⟨_, rfl, rfl, trivial⟩ rfl
  exact ⟨_, rfl, settled_iff run rfl rfl⟩

/-- One binary, cleared and never freed. -/
theorem clear_leaks : ∃ (t : Trace) (w : World) (c : Holder), Runs.Run machine Allowed [] [] t w ∧
    t.map Runs.Entry.event = [.create, .op 0 (.pushBack ⟨0, [1]⟩), .op 0 .clear, .op 0 .destroy] ∧
    w[0]? = .some c ∧ c.destroyed = true ∧ c.took = [⟨0, [1]⟩] ∧ c.freed = [] ∧ ¬Settled c := by
  have run := ((((Runs.Run.start machine Allowed []).next .create trivial rfl).next
    (.op 0 (.pushBack ⟨0, [1]⟩)) ⟨_, rfl, rfl, trivial⟩ rfl).next
    (.op 0 .clear) ⟨_, rfl, rfl, trivial⟩ rfl).next
    (.op 0 .destroy) ⟨_, rfl, rfl, trivial⟩ rfl
  refine ⟨_, _, _, run, rfl, rfl, rfl, rfl, rfl, fun h => ?_⟩
  have hone := h ⟨0, [1]⟩
  revert hone
  decide

end WriteQueues

end GenUtp
