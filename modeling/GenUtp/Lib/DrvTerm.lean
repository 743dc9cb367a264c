/-
Term arrays: how a driver of the Erlang runtime spells a term.

The array is a program for a stack machine. An atom, a port or an encoded
term is pushed as it is (`leaf`); a string or a binary is given by its place
in memory; a tuple takes its elements off the stack, and a list takes its
tail and then its elements. A list is built on whatever its tail is, so one
whose tail is a binary is improper, and no list of bytes.

`run_prefixed` is the rule for a list spelled out word by word.
-/
import Mathlib.Data.List.Basic

namespace DrvTerm

/-- Erlang terms. `leaf` is one the array names and does not build. -/
inductive Term (α : Type*)
  | leaf (a : α)
  | int (n : Nat)
  | nil
  | cons (head tail : Term α)
  | binary (bytes : List UInt8)
  | tuple (elems : List (Term α))

variable {α : Type*}

namespace Term

/-- The integers `ns`, then `tail`. -/
def prefixed (ns : List Nat) (tail : Term α) : Term α := ns.foldr (fun n t => .cons (.int n) t) tail

/-- A list of bytes. -/
def ofBytes (bytes : List UInt8) : Term α := prefixed (bytes.map UInt8.toNat) .nil

/-- A list of bytes, as a string is. -/
def IsBytes (t : Term α) : Prop := ∃ bytes, t = ofBytes bytes

/-- A binary, or an improper list with one at its end. -/
def EndsInBinary : Term α → Prop
  | .binary _ => True
  | .cons _ tail => tail.EndsInBinary
  | _ => False

theorem prefixed_cons (n : Nat) (ns : List Nat) (tail : Term α) :
    prefixed (n :: ns) tail = .cons (.int n) (prefixed ns tail) := rfl

theorem endsInBinary_prefixed (ns : List Nat) {tail : Term α} :
    (prefixed ns tail).EndsInBinary ↔ tail.EndsInBinary := by
  induction ns with
  | nil => rfl
  | cons n ns ih =>
    rw [prefixed_cons]
    exact ih

theorem not_endsInBinary_ofBytes (bytes : List UInt8) : ¬(ofBytes bytes : Term α).EndsInBinary := by
  unfold ofBytes
  rw [endsInBinary_prefixed]
  exact id

theorem IsBytes.not_endsInBinary {t : Term α} (h : t.IsBytes) : ¬t.EndsInBinary := by
  obtain ⟨bytes, rfl⟩ := h
  exact not_endsInBinary_ofBytes bytes

end Term

/-- The words of an array: `ERL_DRV_UINT`, `ERL_DRV_STRING` and so on, with
their arguments. -/
inductive Word (α : Type*)
  | leaf (a : α)
  | uint (n : Nat)
  | string (p len : Nat)
  | buf2binary (p len : Nat)
  | list (size : Nat)
  | tuple (size : Nat)
  deriving DecidableEq, Repr

/-- `len` bytes from place `p` on. -/
def readBytes (mem : Nat → UInt8) (p len : Nat) : List UInt8 := (List.range' p len).map mem

/-- A list of what is on the stack: its tail is on top, and its last element
below. -/
def buildList : Term α → List (Term α) → Term α := List.foldl fun t e => .cons e t

/-- One word, with the top of the stack first. `none` where the stack is too
short. -/
def step (mem : Nat → UInt8) (stack : List (Term α)) : Word α → Option (List (Term α))
  | .leaf a => .some (.leaf a :: stack)
  | .uint n => .some (.int n :: stack)
  | .string p len => .some (.ofBytes (readBytes mem p len) :: stack)
  | .buf2binary p len => .some (.binary (readBytes mem p len) :: stack)
  | .list size =>
    match size, stack with
    | n + 1, tail :: rest =>
      if rest.length < n then .none else .some (buildList tail (rest.take n) :: rest.drop n)
    | _, _ => .none
  | .tuple size =>
    if stack.length < size then .none else .some (.tuple (stack.take size).reverse :: stack.drop size)

def run (mem : Nat → UInt8) (stack : List (Term α)) (words : List (Word α)) : Option (List (Term α)) :=
  words.foldlM (step mem) stack

/-- The term of an array: all that is left on the stack. -/
def value (mem : Nat → UInt8) (words : List (Word α)) : Option (Term α) :=
  match run mem [] words with
  | .some [t] => .some t
  | _ => .none

variable {mem : Nat → UInt8} {stack : List (Term α)}

theorem run_cons (w : Word α) (ws : List (Word α)) :
    run mem stack (w :: ws) = (step mem stack w).bind fun s => run mem s ws := rfl

theorem run_append (ws₁ ws₂ : List (Word α)) :
    run mem stack (ws₁ ++ ws₂) = (run mem stack ws₁).bind fun s => run mem s ws₂ := by
  simp only [run, List.foldlM_append]
  rfl

theorem run_uints (ns : List Nat) :
    run mem stack (ns.map Word.uint) = .some ((ns.map Term.int).reverse ++ stack) := by
  induction ns generalizing stack with
  | nil => rfl
  | cons n ns ih =>
    rw [List.map_cons, run_cons]
    show run mem (.int n :: stack) (ns.map Word.uint) = _
    rw [ih]
    simp

theorem buildList_ints (ns : List Nat) (tail : Term α) :
    buildList tail (ns.map Term.int).reverse = .prefixed ns tail := by
  simp [buildList, Term.prefixed, List.foldr_map]

/-- `ERL_DRV_LIST` over a tail and the integers under it. -/
theorem step_list (ns : List Nat) (tail : Term α) :
    step mem (tail :: ((ns.map Term.int).reverse ++ stack)) (.list (ns.length + 1)) =
      .some (.prefixed ns tail :: stack) := by
  have hlen : (ns.map (Term.int (α := α))).reverse.length = ns.length := by simp
  have hlong : ¬((ns.map Term.int).reverse ++ stack).length < ns.length := by
    rw [List.length_append, hlen]
    omega
  simp only [step]
  rw [if_neg hlong, List.take_left' hlen, List.drop_left' hlen, buildList_ints]

/-- **A list spelled out.** Integers, the word that makes the tail, and the
word that makes a list of them, which a list of none can do without. -/
theorem run_prefixed {ns : List Nat} {w : Word α} {tail : Term α} {close : List (Word α)}
    (hw : ∀ s, step mem s w = .some (tail :: s))
    (hclose : close = if ns.length = 0 then [] else [.list (ns.length + 1)]) :
    run mem stack (ns.map Word.uint ++ w :: close) = .some (.prefixed ns tail :: stack) := by
  rw [run_append, run_uints, Option.bind_some, run_cons, hw, Option.bind_some]
  cases ns with
  | nil =>
    subst hclose
    rfl
  | cons n ns =>
    rw [hclose, if_neg (by simp), run_cons, step_list (n :: ns) tail]
    rfl

end DrvTerm
