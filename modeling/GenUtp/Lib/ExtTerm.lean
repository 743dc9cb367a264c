/-
The external term format: Erlang terms as bytes.

A term is written as tokens, each a tag with what belongs to it: a tuple or a
list is announced by its size, and its elements follow. Numbers are written
short where they fit; how far that goes is up to the writer (`bits`), and a
reader takes all forms.

No encoding is the beginning of another, so a reader finds the term whatever
bytes come after it: `next_bytes` for a token, `binaryToTerm_bytes` for a
term.
-/
import Mathlib.Data.Nat.Digits.Defs
import GenUtp.Lib.Frames

namespace ExtTerm

open Frames

/-- Terms, with lists that end in `[]`. A list of characters that is written
as a `string` is kept as one. -/
inductive Term
  | atom (name : List UInt8)
  | int (n : Int)
  | string (text : List UInt8)
  | binary (bytes : List UInt8)
  | tuple (elems : List Term)
  | list (elems : List Term)

inductive Token
  | atom (name : List UInt8)
  | int (n : Int)
  | string (text : List UInt8)
  | binary (bytes : List UInt8)
  | tuple (arity : Nat)
  | list (size : Nat)
  | nil
  deriving DecidableEq, Repr

/-! ## Tokens -/

/-- The digits of a number to the base 256, the lowest first. -/
def leBytes (n : Nat) : List UInt8 := (Nat.digits 256 n).map UInt8.ofNat

def leVal (bs : List UInt8) : Nat := Nat.ofDigits 256 (bs.map UInt8.toNat)

/-- `SMALL_INTEGER_EXT`, `INTEGER_EXT` up to `bits` bits and a sign,
`SMALL_BIG_EXT` and `LARGE_BIG_EXT`. -/
def intBytes (bits : Nat) (n : Int) : List UInt8 :=
  if 0 ≤ n ∧ n < 256 then [97, UInt8.ofNat n.toNat]
  else if -2 ^ bits ≤ n ∧ n < 2 ^ bits then 98 :: beBytes 4 (n % 2 ^ 32).toNat
  else
    let ds := leBytes n.natAbs
    (if ds.length < 256 then 110 :: beBytes 1 ds.length else 111 :: beBytes 4 ds.length) ++
      (if n < 0 then 1 else 0) :: ds

/-- Bytes under their length. -/
def sized (tag : UInt8) (p : Nat) (bs : List UInt8) : List UInt8 := tag :: frame p bs

def Token.bytes (bits : Nat) : Token → List UInt8
  | .atom name => sized 100 2 name
  | .int n => intBytes bits n
  | .string text => sized 107 2 text
  | .binary bs => sized 109 4 bs
  | .tuple arity => if arity < 256 then 104 :: beBytes 1 arity else 105 :: beBytes 4 arity
  | .list size => 108 :: beBytes 4 size
  | .nil => [106]

/-- There is room for its sizes. -/
def Token.Fits : Token → Prop
  | .atom name => name.length < 2 ^ 16
  | .int n => (leBytes n.natAbs).length < 2 ^ 32
  | .string text => text.length < 2 ^ 16
  | .binary bs => bs.length < 2 ^ 32
  | .tuple arity => arity < 2 ^ 32
  | .list size => size < 2 ^ 32
  | .nil => True

def split (n : Nat) (bs : List UInt8) : Option (List UInt8 × List UInt8) :=
  if bs.length < n then .none else .some (bs.take n, bs.drop n)

/-- A number of `p` bytes. -/
def readNat (p : Nat) (bs : List UInt8) : Option (Nat × List UInt8) := (split p bs).map fun r => (beVal r.1, r.2)

/-- Bytes under a length of `p` bytes. -/
def readSized (p : Nat) (bs : List UInt8) : Option (List UInt8 × List UInt8) :=
  (readNat p bs).bind fun r => split r.1 r.2

/-- The digits of a number, their count in `p` bytes and its sign in front. -/
def readBig (p : Nat) (bs : List UInt8) : Option (Int × List UInt8) := do
  let (size, bs) ← readNat p bs
  let (sign, bs) ← readNat 1 bs
  let (ds, bs) ← split size bs
  .some (if sign = 0 then leVal ds else -leVal ds, bs)

/-- Of 32 bits, the highest is the sign. -/
def signed (n : Nat) : Int := if n < 2 ^ 31 then n else n - 2 ^ 32

/-- What stands after a tag. -/
def afterTag : Nat → List UInt8 → Option (Token × List UInt8)
  | 97, bs => (readNat 1 bs).map fun r => (.int r.1, r.2)
  | 98, bs => (readNat 4 bs).map fun r => (.int (signed r.1), r.2)
  | 100, bs => (readSized 2 bs).map fun r => (.atom r.1, r.2)
  | 104, bs => (readNat 1 bs).map fun r => (.tuple r.1, r.2)
  | 105, bs => (readNat 4 bs).map fun r => (.tuple r.1, r.2)
  | 106, bs => .some (.nil, bs)
  | 107, bs => (readSized 2 bs).map fun r => (.string r.1, r.2)
  | 108, bs => (readNat 4 bs).map fun r => (.list r.1, r.2)
  | 109, bs => (readSized 4 bs).map fun r => (.binary r.1, r.2)
  | 110, bs => (readBig 1 bs).map fun r => (.int r.1, r.2)
  | 111, bs => (readBig 4 bs).map fun r => (.int r.1, r.2)
  | _, _ => .none

def next : List UInt8 → Option (Token × List UInt8)
  | [] => .none
  | tag :: bs => afterTag tag.toNat bs

variable {bits n p : Nat} {bs rest : List UInt8} {tok : Token}

theorem split_append (h : bs.length = n) : split n (bs ++ rest) = .some (bs, rest) := by
  have hlong : ¬(bs ++ rest).length < n := by
    rw [List.length_append]
    omega
  rw [split, if_neg hlong, List.take_left' h, List.drop_left' h]

theorem readNat_beBytes (h : n < 256 ^ p) : readNat p (beBytes p n ++ rest) = .some (n, rest) := by
  rw [readNat, split_append (length_beBytes p n), Option.map_some, beVal_beBytes, Nat.mod_eq_of_lt h]

theorem readSized_frame (h : bs.length < 256 ^ p) : readSized p (frame p bs ++ rest) = .some (bs, rest) := by
  rw [readSized, frame, List.append_assoc, readNat_beBytes h, Option.bind_some, split_append rfl]

theorem leVal_leBytes (n : Nat) : leVal (leBytes n) = n := by
  have hdigits : (leBytes n).map UInt8.toNat = Nat.digits 256 n := by
    rw [leBytes, List.map_map]
    refine (List.map_congr_left fun d hd => ?_).trans (List.map_id _)
    exact UInt8.toNat_ofNat_of_lt' (Nat.digits_lt_base (by decide) hd)
  rw [leVal, hdigits, Nat.ofDigits_digits]

theorem readBig_bytes {z : Int} (h : (leBytes z.natAbs).length < 256 ^ p) :
    readBig p (beBytes p (leBytes z.natAbs).length ++ (if z < 0 then 1 else 0) :: leBytes z.natAbs ++ rest) =
      .some (z, rest) := by
  have hsign : ∀ b : UInt8, readNat 1 (b :: leBytes z.natAbs ++ rest) = .some (b.toNat, leBytes z.natAbs ++ rest) := by
    intro b
    rw [readNat, List.cons_append, ← List.singleton_append, split_append (by rfl)]
    simp [beVal]
  simp only [readBig, List.append_assoc, Option.bind_eq_bind, readNat_beBytes h, Option.bind_some, hsign,
    split_append rfl, leVal_leBytes]
  by_cases hz : z < 0
  · simp only [if_pos hz]
    congr 2
    show -(z.natAbs : Int) = z
    omega
  · simp only [if_neg hz]
    congr 2
    show (z.natAbs : Int) = z
    omega

theorem signed_mod {z : Int} (hlow : -2 ^ 31 ≤ z) (hhigh : z < 2 ^ 31) : signed (z % 2 ^ 32).toNat = z := by
  unfold signed
  split <;> omega

/-- A number with many digits, under the tag of a small or a large one. -/
theorem next_big {z : Int} (h : (leBytes z.natAbs).length < 2 ^ 32) :
    next ((if (leBytes z.natAbs).length < 256 then 110 :: beBytes 1 (leBytes z.natAbs).length
        else 111 :: beBytes 4 (leBytes z.natAbs).length) ++ (if z < 0 then 1 else 0) :: leBytes z.natAbs ++ rest) =
      .some (.int z, rest) := by
  split
  next hshort =>
    rw [List.cons_append, List.cons_append]
    show afterTag 110 _ = _
    rw [afterTag, readBig_bytes (by simpa using hshort), Option.map_some]
  next =>
    rw [List.cons_append, List.cons_append]
    show afterTag 111 _ = _
    rw [afterTag, readBig_bytes (by simpa using h), Option.map_some]

theorem next_int {z : Int} (hbits : bits ≤ 31) (h : (Token.int z).Fits) :
    next (intBytes bits z ++ rest) = .some (.int z, rest) := by
  unfold intBytes
  by_cases hsmall : 0 ≤ z ∧ z < 256
  · have hread : readNat 1 (UInt8.ofNat z.toNat :: rest) = .some (z.toNat, rest) := by
      rw [readNat, ← List.singleton_append, split_append (by rfl), Option.map_some]
      have hlt : z.toNat < 256 := by omega
      simp [beVal, UInt8.toNat_ofNat_of_lt' hlt]
    rw [if_pos hsmall]
    show afterTag 97 (UInt8.ofNat z.toNat :: rest) = _
    rw [afterTag, hread, Option.map_some, Int.toNat_of_nonneg hsmall.1]
  · rw [if_neg hsmall]
    by_cases hmid : -2 ^ bits ≤ z ∧ z < 2 ^ bits
    · have hpow : (2 : Int) ^ bits ≤ 2 ^ 31 := by exact_mod_cast Nat.pow_le_pow_right (by decide) hbits
      have hlt : (z % 2 ^ 32).toNat < 256 ^ 4 := by omega
      have htag : (98 : UInt8).toNat = 98 := rfl
      rw [if_pos hmid, List.cons_append, next, htag, afterTag, readNat_beBytes hlt, Option.map_some,
        signed_mod (by omega) (by omega)]
    · rw [if_neg hmid]
      exact next_big h

/-- A token is read back, whatever comes after it. -/
theorem next_bytes (hbits : bits ≤ 31) (h : tok.Fits) : next (tok.bytes bits ++ rest) = .some (tok, rest) := by
  cases tok with
  | int z => exact next_int hbits h
  | nil => rfl
  | atom name =>
    show afterTag 100 (frame 2 name ++ rest) = _
    rw [afterTag, readSized_frame (by simpa [Token.Fits] using h), Option.map_some]
  | string text =>
    show afterTag 107 (frame 2 text ++ rest) = _
    rw [afterTag, readSized_frame (by simpa [Token.Fits] using h), Option.map_some]
  | binary bs =>
    show afterTag 109 (frame 4 bs ++ rest) = _
    rw [afterTag, readSized_frame (by simpa [Token.Fits] using h), Option.map_some]
  | list size =>
    show afterTag 108 (beBytes 4 size ++ rest) = _
    rw [afterTag, readNat_beBytes (by simpa [Token.Fits] using h), Option.map_some]
  | tuple arity =>
    rw [Token.bytes]
    by_cases hshort : arity < 256
    · rw [if_pos hshort]
      show afterTag 104 (beBytes 1 arity ++ rest) = _
      rw [afterTag, readNat_beBytes (by simpa using hshort), Option.map_some]
    · rw [if_neg hshort]
      show afterTag 105 (beBytes 4 arity ++ rest) = _
      rw [afterTag, readNat_beBytes (by simpa [Token.Fits] using h), Option.map_some]

theorem bytes_ne_nil (bits : Nat) (tok : Token) : tok.bytes bits ≠ [] := by
  cases tok with
  | int z =>
    show intBytes bits z ≠ []
    unfold intBytes
    split_ifs <;> simp
  | tuple arity =>
    rw [Token.bytes]
    split_ifs <;> simp
  | _ => simp [Token.bytes, sized]

/-! ## Terms -/

mutual

def Term.tokens : Term → List Token
  | .atom name => [.atom name]
  | .int n => [.int n]
  | .string text => [.string text]
  | .binary bs => [.binary bs]
  | .tuple elems => .tuple elems.length :: Term.tokensAll elems
  | .list [] => [.nil]
  | .list (t :: ts) => .list (ts.length + 1) :: (Term.tokens t ++ Term.tokensAll ts ++ [.nil])

def Term.tokensAll : List Term → List Token
  | [] => []
  | t :: ts => Term.tokens t ++ Term.tokensAll ts

end

/-- The term that a token begins, where `elems` reads the elements. -/
def finish (elems : Nat → List UInt8 → Option (List Term × List UInt8)) :
    Token × List UInt8 → Option (Term × List UInt8)
  | (.atom name, bs) => .some (.atom name, bs)
  | (.int n, bs) => .some (.int n, bs)
  | (.string text, bs) => .some (.string text, bs)
  | (.binary b, bs) => .some (.binary b, bs)
  | (.nil, bs) => .some (.list [], bs)
  | (.tuple k, bs) => (elems k bs).map fun r => (.tuple r.1, r.2)
  | (.list k, bs) => do
    let (ts, bs) ← elems k bs
    let (tail, bs) ← next bs
    if tail = .nil then .some (.list ts, bs) else .none

/-- Reads `n` terms. -/
def reads : Nat → Nat → List UInt8 → Option (List Term × List UInt8)
  | _, 0, bs => .some ([], bs)
  | 0, _ + 1, _ => .none
  | fuel + 1, n + 1, bs => do
    let tok ← next bs
    let (t, bs) ← finish (reads fuel) tok
    let (ts, bs) ← reads fuel n bs
    .some (t :: ts, bs)

/-- `binary_to_term`: what comes after the term is left alone. -/
def binaryToTerm : List UInt8 → Option Term
  | [] => .none
  | version :: bs =>
    if version = 131 then (reads bs.length 1 bs).bind fun r => r.1.head? else .none

/-- A term under its version. -/
def Term.bytes (bits : Nat) (t : Term) : List UInt8 := 131 :: t.tokens.flatMap (Token.bytes bits)

theorem length_le_bytes (bits : Nat) (toks : List Token) : toks.length ≤ (toks.flatMap (Token.bytes bits)).length := by
  induction toks with
  | nil => simp
  | cons tok toks ih =>
    have hpos := List.length_pos_iff.2 (bytes_ne_nil bits tok)
    rw [List.flatMap_cons, List.length_append, List.length_cons]
    omega

theorem reads_cons {elems : List UInt8} {t : Term} {ts : List Term} {fuel : Nat} {rest' : List UInt8}
    (hnext : next bs = .some (tok, elems)) (hfinish : finish (reads fuel) (tok, elems) = .some (t, rest))
    (hafter : reads fuel ts.length rest = .some (ts, rest')) :
    reads (fuel + 1) (ts.length + 1) bs = .some (t :: ts, rest') := by
  simp only [reads, hnext, Option.bind_eq_bind, Option.bind_some, hfinish, hafter]

/-- Terms are read back one after the other, whatever comes after them. -/
theorem reads_tokens (hbits : bits ≤ 31) : ∀ (fuel : Nat) (ts : List Term) (rest : List UInt8),
    (Term.tokensAll ts).length ≤ fuel → (∀ tok ∈ Term.tokensAll ts, tok.Fits) →
      reads fuel ts.length ((Term.tokensAll ts).flatMap (Token.bytes bits) ++ rest) = .some (ts, rest)
  | fuel, [], rest, _, _ => by
    cases fuel <;> rfl
  | 0, t :: ts, rest, hfuel, _ => by
    have hpos : t.tokens ≠ [] := by
      rcases t with _ | _ | _ | _ | _ | ⟨_ | _⟩ <;> simp [Term.tokens]
    have := List.length_pos_iff.2 hpos
    rw [Term.tokensAll, List.length_append] at hfuel
    omega
  | fuel + 1, t :: ts, rest, hfuel, hfits => by
    rw [Term.tokensAll, List.length_append] at hfuel
    rw [Term.tokensAll, List.forall_mem_append] at hfits
    rw [Term.tokensAll, List.flatMap_append, List.append_assoc, List.length_cons]
    have hafter : (Term.tokensAll ts).length ≤ fuel → _ := fun h => reads_tokens hbits fuel ts rest h hfits.2
    cases t with
    | tuple us =>
      rw [Term.tokens, List.forall_mem_cons] at hfits
      rw [Term.tokens, List.length_cons] at hfuel
      rw [Term.tokens, List.flatMap_cons, List.append_assoc]
      have hus := reads_tokens hbits fuel us ((Term.tokensAll ts).flatMap (Token.bytes bits) ++ rest) (by omega)
        hfits.1.2
      refine reads_cons (next_bytes hbits hfits.1.1) ?_ (hafter (by omega))
      simp only [finish, hus, Option.map_some]
    | list us =>
      cases us with
      | nil =>
        rw [Term.tokens, List.length_singleton] at hfuel
        rw [Term.tokens, List.flatMap_singleton]
        have hnil : Token.Fits .nil := trivial
        exact reads_cons (next_bytes hbits hnil) rfl (hafter (by omega))
      | cons u us =>
        rw [Term.tokens, List.forall_mem_cons, List.forall_mem_append] at hfits
        rw [Term.tokens, List.length_cons, List.length_append, List.length_singleton] at hfuel
        rw [Term.tokens, List.flatMap_cons, List.flatMap_append, List.append_assoc, List.append_assoc,
          List.flatMap_singleton]
        have hus := reads_tokens hbits fuel (u :: us)
          (Token.nil.bytes bits ++ ((Term.tokensAll ts).flatMap (Token.bytes bits) ++ rest))
          (by rw [Term.tokensAll]; omega) (by rw [Term.tokensAll]; exact hfits.1.2.1)
        rw [Term.tokensAll, List.length_cons] at hus
        have hnil : Token.Fits .nil := trivial
        refine reads_cons (next_bytes hbits hfits.1.1) ?_ (hafter (by omega))
        simp only [finish, hus, Option.bind_eq_bind, Option.bind_some, next_bytes hbits hnil, if_true]
    | atom | int | string | binary =>
      rw [Term.tokens, List.forall_mem_singleton] at hfits
      rw [Term.tokens, List.length_singleton] at hfuel
      rw [Term.tokens, List.flatMap_singleton]
      exact reads_cons (next_bytes hbits hfits.1) rfl (hafter (by omega))

/-- **A term is read back, whatever comes after it.** -/
theorem binaryToTerm_bytes (hbits : bits ≤ 31) {t : Term} (h : ∀ tok ∈ t.tokens, tok.Fits) (rest : List UInt8) :
    binaryToTerm (t.bytes bits ++ rest) = .some t := by
  have hall : Term.tokensAll [t] = t.tokens := by simp [Term.tokensAll]
  have hlen : (Term.tokensAll [t]).length ≤ (t.tokens.flatMap (Token.bytes bits) ++ rest).length := by
    have := length_le_bytes bits t.tokens
    rw [hall, List.length_append]
    omega
  have hread := reads_tokens hbits _ [t] rest hlen (by rwa [hall])
  rw [hall] at hread
  rw [Term.bytes, List.cons_append, binaryToTerm, if_pos rfl]
  exact congrArg (·.bind fun r => r.1.head?) hread

end ExtTerm
