/-
Length-prefixed framing over bytes: a frame is the payload's length in `p`
big-endian bytes, then the payload.

The encoder writes the length modulo `256 ^ p` (`beBytes`), so a payload too
long for its prefix is written with a wrong length. `deframe_frames` is the
round trip, and says when there is one: the stream deframes to the payloads
it was made of exactly when every one of them fits its prefix.
-/
import Mathlib.Data.List.Basic
import Mathlib.Data.UInt
import Mathlib.Tactic.Ring

namespace Frames

/-! ## Big-endian numbers -/

/-- The last `p` base-256 digits of `n`, most significant first. -/
def beBytes : Nat → Nat → List UInt8
  | 0, _ => []
  | p + 1, n => beBytes p (n / 256) ++ [UInt8.ofNat (n % 256)]

/-- The number some big-endian bytes spell. -/
def beVal (bs : List UInt8) : Nat := bs.foldl (fun n b => n * 256 + b.toNat) 0

@[simp] theorem length_beBytes (p n : Nat) : (beBytes p n).length = p := by
  induction p generalizing n with
  | zero => rfl
  | succ p ih => simp [beBytes, ih]

theorem beVal_concat (bs : List UInt8) (b : UInt8) : beVal (bs ++ [b]) = beVal bs * 256 + b.toNat := by
  simp [beVal, List.foldl_append]

/-- Writing a number and reading it back keeps it modulo `256 ^ p`. -/
theorem beVal_beBytes (p n : Nat) : beVal (beBytes p n) = n % 256 ^ p := by
  induction p generalizing n with
  | zero => simp [beBytes, beVal, Nat.mod_one]
  | succ p ih =>
    rw [beBytes, beVal_concat, ih, UInt8.toNat_ofNat_of_lt' (Nat.mod_lt n (by decide)), Nat.pow_succ,
      Nat.mul_comm (256 ^ p) 256, Nat.mod_mul]
    ring

/-- Only the last `p` digits are written. -/
theorem beBytes_mod (p n : Nat) : beBytes p (n % 256 ^ p) = beBytes p n := by
  induction p generalizing n with
  | zero => rfl
  | succ p ih =>
    have hdiv : n % 256 ^ (p + 1) / 256 = n / 256 % 256 ^ p := by
      rw [Nat.pow_succ, Nat.mul_comm, Nat.mod_mul_right_div_self]
    have hmod : n % 256 ^ (p + 1) % 256 = n % 256 := by
      rw [Nat.pow_succ, Nat.mul_comm, Nat.mod_mul_right_mod]
    rw [beBytes, beBytes, hdiv, hmod, ih]

/-! ## Frames -/

/-- A payload under its length. -/
def frame (p : Nat) (x : List UInt8) : List UInt8 := beBytes p x.length ++ x

/-- Reads frames off a stream that holds at most `fuel` of them, `none` when
the stream ends inside one. -/
def deframeFuel (p : Nat) : Nat → List UInt8 → Option (List (List UInt8))
  | _, [] => .some []
  | 0, _ :: _ => .none
  | fuel + 1, s =>
    let n := beVal (s.take p)
    if s.length < p + n then .none
    else (deframeFuel p fuel (s.drop (p + n))).map ((s.drop p).take n :: ·)

/-- The payloads of a stream of frames: read `p` bytes as `n`, then take `n`
bytes, until the stream ends. -/
def deframe (p : Nat) (s : List UInt8) : Option (List (List UInt8)) := deframeFuel p s.length s

theorem deframeFuel_frame {p n : Nat} (hp : 0 < p) (x s : List UInt8) (hx : x.length < 256 ^ p) :
    deframeFuel p (n + 1) (frame p x ++ s) = (deframeFuel p n s).map (x :: ·) := by
  obtain ⟨b, bs, hb⟩ : ∃ b bs, frame p x ++ s = b :: bs := by
    rcases h : frame p x ++ s with _ | ⟨b, bs⟩
    · have := congrArg List.length h
      simp [frame] at this
      omega
    · exact ⟨b, bs, rfl⟩
  have htake : (frame p x ++ s).take p = beBytes p x.length := by
    rw [frame, List.append_assoc, List.take_append_of_le_length (by simp), List.take_of_length_le (by simp)]
  have hdrop : (frame p x ++ s).drop p = x ++ s := by
    rw [frame, List.append_assoc, List.drop_append, List.drop_eq_nil_of_le (by simp)]
    simp
  have hval : beVal ((frame p x ++ s).take p) = x.length := by
    rw [htake, beVal_beBytes, Nat.mod_eq_of_lt hx]
  have hrest : (frame p x ++ s).drop (p + x.length) = s := by
    rw [← List.drop_drop, hdrop, List.drop_append, List.drop_eq_nil_of_le (le_refl _)]
    simp
  have hstep : deframeFuel p (n + 1) (frame p x ++ s) =
      if (frame p x ++ s).length < p + beVal ((frame p x ++ s).take p) then .none
      else (deframeFuel p n ((frame p x ++ s).drop (p + beVal ((frame p x ++ s).take p)))).map
        (((frame p x ++ s).drop p).take (beVal ((frame p x ++ s).take p)) :: ·) := by
    rw [hb]; rfl
  rw [hstep, hval, if_neg (by simp [frame]), hrest, hdrop, List.take_append_of_le_length (le_refl _),
    List.take_of_length_le (le_refl _)]

/-- The round trip, as far as the payloads fit. -/
theorem deframeFuel_frames {p : Nat} (hp : 0 < p) :
    ∀ (xs : List (List UInt8)) (n : Nat), (∀ x ∈ xs, x.length < 256 ^ p) → (xs.flatMap (frame p)).length ≤ n →
      deframeFuel p n (xs.flatMap (frame p)) = .some xs
  | [], n, _, _ => by cases n <;> rfl
  | x :: xs, 0, _, hn => by simp [frame] at hn; omega
  | x :: xs, n + 1, hx, hn => by
    rw [List.flatMap_cons, deframeFuel_frame hp x _ (hx x (by simp)),
      deframeFuel_frames hp xs n (fun y hy => hx y (by simp [hy])) (by simp [frame] at hn ⊢; omega)]
    rfl

/-- The first payload read off a stream has the length its prefix spells. -/
theorem deframeFuel_head {p n : Nat} {s : List UInt8} {x : List UInt8} {xs : List (List UInt8)}
    (h : deframeFuel p n s = .some (x :: xs)) : x.length = beVal (s.take p) := by
  rcases n with _ | n <;> rcases s with _ | ⟨b, s⟩ <;> simp only [deframeFuel] at h
  · cases h
  · cases h
  · cases h
  · split at h
    · cases h
    · next hlen =>
      simp only [Option.map_eq_some_iff, List.cons.injEq] at h
      obtain ⟨_, _, rfl, _⟩ := h
      rw [List.length_take, List.length_drop]
      omega

theorem fits_of_deframeFuel {p : Nat} (hp : 0 < p) :
    ∀ (xs : List (List UInt8)) (n : Nat), deframeFuel p n (xs.flatMap (frame p)) = .some xs →
      ∀ x ∈ xs, x.length < 256 ^ p
  | [], _, _ => by simp
  | x :: xs, n, h => by
    have hpos : 0 < 256 ^ p := Nat.pow_pos (by decide)
    have htake : ((x :: xs).flatMap (frame p)).take p = beBytes p x.length := by
      rw [List.flatMap_cons, frame, List.append_assoc, List.take_append_of_le_length (by simp),
        List.take_of_length_le (by simp)]
    have hx : x.length < 256 ^ p := by
      have hlen := deframeFuel_head h
      rw [htake, beVal_beBytes] at hlen
      rw [hlen]
      exact Nat.mod_lt _ hpos
    rcases n with _ | n
    · rcases hs : (x :: xs).flatMap (frame p) with _ | ⟨b, s⟩ <;> rw [hs] at h <;> simp [deframeFuel] at h
    · rw [List.flatMap_cons, deframeFuel_frame hp x _ hx] at h
      simp only [Option.map_eq_some_iff, List.cons.injEq, true_and, exists_eq_right] at h
      intro y hy
      rcases List.mem_cons.1 hy with rfl | hy
      · exact hx
      · exact fits_of_deframeFuel hp xs n h y hy

/-- **The round trip, exactly**: the stream of some payloads deframes to them
if and only if each fits its prefix. -/
theorem deframe_frames {p : Nat} (hp : 0 < p) (xs : List (List UInt8)) :
    deframe p (xs.flatMap (frame p)) = .some xs ↔ ∀ x ∈ xs, x.length < 256 ^ p :=
  ⟨fits_of_deframeFuel hp xs _, fun h => deframeFuel_frames hp xs _ h (le_refl _)⟩

/-! ## The frame a stream begins with -/

/-- The length the prefix announces. -/
def headLen (p : Nat) (s : List UInt8) : Nat := beVal (s.take p)

theorem headLen_frame {p : Nat} {x : List UInt8} (hx : x.length < 256 ^ p) (s : List UInt8) :
    headLen p (frame p x ++ s) = x.length := by
  rw [headLen, frame, List.append_assoc, List.take_left' (length_beBytes p _), beVal_beBytes, Nat.mod_eq_of_lt hx]

/-- The length is there as soon as the prefix is, however much of the frame
has come. -/
theorem headLen_of_prefix {p : Nat} {x s u : List UInt8} (hx : x.length < 256 ^ p) (hs : s <+: frame p x ++ u)
    (hp : p ≤ s.length) : headLen p s = x.length := by
  have htake : s.take p = (frame p x ++ u).take p := by
    rw [List.prefix_iff_eq_take.1 hs, List.take_take, Nat.min_eq_left hp]
  rw [headLen, htake]
  exact headLen_frame hx u

theorem eq_frame_append_of_prefix {p : Nat} {x s u : List UInt8} (hs : s <+: frame p x ++ u)
    (hle : p + x.length ≤ s.length) : ∃ rest, s = frame p x ++ rest ∧ rest <+: u := by
  have hlen : (frame p x).length ≤ s.length := by
    rw [frame, List.length_append, length_beBytes]
    exact hle
  obtain ⟨rest, rfl⟩ := List.prefix_of_prefix_length_le (List.prefix_append (frame p x) u) hs hlen
  exact ⟨rest, rfl, (List.prefix_append_right_inj _).1 hs⟩

/-- The stream begins with a whole frame. -/
def Begins (p : Nat) (s : List UInt8) : Prop := p + headLen p s ≤ s.length

instance (p : Nat) (s : List UInt8) : Decidable (Begins p s) := inferInstanceAs (Decidable (_ ≤ _))

/-- The stream after its first frame. -/
def rest (p : Nat) (s : List UInt8) : List UInt8 := s.drop (p + headLen p s)

/-- The stream begins with two whole frames. -/
def BeginsTwo (p : Nat) (s : List UInt8) : Prop := Begins p s ∧ Begins p (rest p s)

theorem not_begins_nil {p : Nat} (hp : 0 < p) : ¬Begins p [] := by
  simp only [Begins, List.length_nil]
  omega

example : deframe 2 ([[7, 8], [9]].flatMap (frame 2)) = .some [[7, 8], [9]] := by decide

end Frames
