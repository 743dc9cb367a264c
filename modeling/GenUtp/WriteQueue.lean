/-
The driver's write queue (`write_queue.cc`): a list of binaries, how many
bytes of the front one are already gone, and the number of bytes left.

`WriteQueue.Ok` is what its operations keep: the count is right and the
offset lies in the front binary. Under it the queue is a byte FIFO:
`pop_bytes` copies out exactly the next bytes of `bytes`, and is defined
exactly when there are that many (`popBytes_eq`, `popBytes_isSome`). Asked
for more it takes the front of an empty list, which is undefined in C++ and
`none` here.
-/
import GenUtp.Lib.Segments

namespace GenUtp

open Segments

structure WriteQueue where
  queue : List (List UInt8)
  sz : Nat
  offset : Nat
  deriving DecidableEq, Repr

namespace WriteQueue

def new : WriteQueue := ⟨[], 0, 0⟩

def size (wq : WriteQueue) : Nat := wq.sz

def pushBack (wq : WriteQueue) (bin : List UInt8) : WriteQueue :=
  { wq with queue := wq.queue ++ [bin], sz := wq.sz + bin.length }

/-- The loop of `pop_bytes`: what it copies, and the queue it leaves. -/
def popLoop : List (List UInt8) → Nat → Nat → Nat → Option (List UInt8 × WriteQueue)
  | queue, sz, offset, 0 => .some ([], ⟨queue, sz, offset⟩)
  | [], _, _, _ + 1 => .none
  | bin :: queue, sz, offset, count + 1 =>
    if bin.length - offset > count + 1 then
      .some ((bin.drop offset).take (count + 1), ⟨bin :: queue, sz - (count + 1), offset + (count + 1)⟩)
    else
      let toCopy := bin.length - offset
      (popLoop queue (sz - toCopy) 0 (count + 1 - toCopy)).map fun r => (bin.drop offset ++ r.1, r.2)

def popBytes (wq : WriteQueue) (count : Nat) : Option (List UInt8 × WriteQueue) :=
  popLoop wq.queue wq.sz wq.offset count

/-- `clear` empties the list and zeroes `sz` and `offset` (the references it
held are not released, which this model does not count). -/
def clear (_ : WriteQueue) : WriteQueue := new

/-- The bytes still to be written. -/
def bytes (wq : WriteQueue) : List UInt8 := wq.queue.flatten.drop wq.offset

structure Ok (wq : WriteQueue) : Prop where
  front : wq.offset ≤ (wq.queue.headD []).length
  count : wq.sz + wq.offset = Segments.size wq.queue

@[simp] theorem clear_eq (wq : WriteQueue) : wq.clear = new := rfl

theorem Ok.new : WriteQueue.new.Ok := ⟨by simp [WriteQueue.new], by simp [WriteQueue.new]⟩

theorem Ok.length_bytes {wq : WriteQueue} (h : wq.Ok) : wq.bytes.length = wq.size := by
  have := h.count
  simp only [bytes, WriteQueue.size, List.length_drop, Segments.size] at *
  omega

theorem Ok.bytes_eq_nil {wq : WriteQueue} (h : wq.Ok) : wq.bytes = [] ↔ wq.size = 0 := by
  rw [← h.length_bytes, List.length_eq_zero_iff]

theorem Ok.pushBack {wq : WriteQueue} (h : wq.Ok) (bin : List UInt8) : (wq.pushBack bin).Ok := by
  obtain ⟨hf, hc⟩ := h
  refine ⟨?_, by simp [WriteQueue.pushBack]; omega⟩
  rcases hq : wq.queue with _ | ⟨s, q⟩ <;> simp [WriteQueue.pushBack, hq] at hf ⊢ <;> omega

theorem Ok.bytes_pushBack {wq : WriteQueue} (h : wq.Ok) (bin : List UInt8) :
    (wq.pushBack bin).bytes = wq.bytes ++ bin := by
  have := h.count
  simp only [bytes, WriteQueue.pushBack, List.flatten_append, List.flatten_cons, List.flatten_nil, List.append_nil]
  rw [List.drop_append_of_le_length (by simp only [Segments.size] at this; omega)]

theorem popLoop_eq : ∀ (queue : List (List UInt8)) (sz offset count : Nat),
    (⟨queue, sz, offset⟩ : WriteQueue).Ok → count ≤ sz →
      ∃ wq, popLoop queue sz offset count = .some ((queue.flatten.drop offset).take count, wq) ∧ wq.Ok ∧
        wq.bytes = queue.flatten.drop (offset + count)
  | queue, sz, offset, 0, h, _ => by
    refine ⟨⟨queue, sz, offset⟩, ?_, h, rfl⟩
    cases queue <;> simp [popLoop]
  | [], sz, offset, count + 1, h, hc => by
    have := h.count
    simp at this
    omega
  | bin :: queue, sz, offset, count + 1, h, hc => by
    have hf : offset ≤ bin.length := h.front
    have hs : sz + offset = bin.length + Segments.size queue := by simpa using h.count
    simp only [popLoop]
    split
    · next hlt =>
      refine ⟨⟨bin :: queue, sz - (count + 1), offset + (count + 1)⟩, ?_, ⟨?_, ?_⟩, rfl⟩
      · rw [List.flatten_cons, List.drop_append_of_le_length hf, List.take_append_of_le_length (by simp; omega)]
      · simp only [List.headD_cons]
        omega
      · simp only [Segments.size_cons]
        omega
    · next hge =>
      -- the front binary is used up: the rest of the loop starts at offset 0
      obtain ⟨wq, hp, hok, hb⟩ := popLoop_eq queue (sz - (bin.length - offset)) 0 (count + 1 - (bin.length - offset))
        ⟨by simp, by simp; omega⟩ (by omega)
      have hnil : bin.drop (offset + (count + 1)) = [] := List.drop_eq_nil_of_le (by omega)
      refine ⟨wq, ?_, hok, ?_⟩
      · have htake : (bin.drop offset).take (count + 1) = bin.drop offset :=
          List.take_of_length_le (by simp; omega)
        rw [hp, Option.map_some, List.flatten_cons, List.drop_append_of_le_length hf, List.take_append, htake]
        simp
      · rw [hb, List.flatten_cons, List.drop_append, hnil, List.nil_append]
        congr 1
        omega

/-- **`pop_bytes` takes the next bytes**: within `size` it copies out exactly
the next `count` bytes and leaves the others. -/
theorem popBytes_eq {wq : WriteQueue} (h : wq.Ok) {count : Nat} (hc : count ≤ wq.size) :
    ∃ wq', wq.popBytes count = .some (wq.bytes.take count, wq') ∧ wq'.Ok ∧ wq'.bytes = wq.bytes.drop count := by
  obtain ⟨wq', hp, hok, hb⟩ := popLoop_eq wq.queue wq.sz wq.offset count h hc
  exact ⟨wq', hp, hok, by rw [hb, bytes, List.drop_drop]⟩

theorem popLoop_none : ∀ (queue : List (List UInt8)) (sz offset count : Nat),
    (⟨queue, sz, offset⟩ : WriteQueue).Ok → sz < count → popLoop queue sz offset count = .none
  | _, _, _, 0, _, hc => by omega
  | [], _, _, _ + 1, _, _ => rfl
  | bin :: queue, sz, offset, count + 1, h, hc => by
    have hf : offset ≤ bin.length := h.front
    have hs : sz + offset = bin.length + Segments.size queue := by simpa using h.count
    simp only [popLoop]
    rw [if_neg (by omega), popLoop_none queue _ 0 _ ⟨by simp, by simp; omega⟩ (by omega)]
    rfl

theorem popBytes_isSome {wq : WriteQueue} (h : wq.Ok) (count : Nat) :
    (wq.popBytes count).isSome ↔ count ≤ wq.size := by
  constructor
  · intro hs
    by_contra hc
    have hnone : wq.popBytes count = .none := popLoop_none wq.queue wq.sz wq.offset count h (Nat.not_le.1 hc)
    simp [hnone] at hs
  · intro hc
    obtain ⟨wq', hp, -, -⟩ := popBytes_eq h hc
    simp [hp]

end WriteQueue

end GenUtp
