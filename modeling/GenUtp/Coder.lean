/-
The decoding of request arguments (`coder.cc`, `drv_types.cc`).

The `ei` library under `EiDecoder` is not part of the driver. An argument
buffer is taken as the terms `ei` reads off it, one by one: each decoder
call takes the next or throws (`EiError`, here `none`). Every request turns
an `EiError`, and a term of the wrong type, into `ERL_DRV_ERROR_BADARG`, so
one `none` stands for both.
-/
import Mathlib.Algebra.Group.Int.Defs
import GenUtp.Terms

namespace GenUtp

/-- The next thing `ei` finds in a buffer. -/
inductive EiToken
  | version
  | tuple (arity : Nat)
  | int (n : Int)
  | binary (bytes : List UInt8)
  | string (text : List UInt8)
  | other
  deriving DecidableEq, Repr

abbrev EiBuf := List EiToken

namespace EiDecoder

/-- The constructor checks the version byte. -/
def start : EiBuf → Option EiBuf
  | .version :: d => .some d
  | _ => .none

def tupleHeader : EiBuf → Option (Nat × EiBuf)
  | .tuple arity :: d => .some (arity, d)
  | _ => .none

/-- `ei_decode_ulong`: a non-negative integer of 64 bits. -/
def ulongval : EiBuf → Option (Nat × EiBuf)
  | .int n :: d => if 0 ≤ n ∧ n < 2 ^ 64 then .some (n.toNat, d) else .none
  | _ => .none

/-- `type` finds `ERL_BINARY_EXT`, then `Binary::decode`. -/
def binary : EiBuf → Option (List UInt8 × EiBuf)
  | .binary bytes :: d => .some (bytes, d)
  | _ => .none

def string : EiBuf → Option (List UInt8 × EiBuf)
  | .string text :: d => .some (text, d)
  | _ => .none

end EiDecoder

/-- The argument of `close`, `setopts`, `getopts`, `connect_validate`: one
binary. -/
def decodeBinary (buf : EiBuf) : Option (List UInt8) := do
  let d ← EiDecoder.start buf
  let (bytes, _) ← EiDecoder.binary d
  .some bytes

/-- `term_to_binary(term_to_binary(Ref))` -/
def refArgs (ref : Ref) : EiBuf := [.version, .binary ref]

/-- The argument of `recv`: `{Length, RefBinary}`. -/
def decodeRecv (buf : EiBuf) : Option (Nat × Ref) := do
  let d ← EiDecoder.start buf
  let (arity, d) ← EiDecoder.tupleHeader d
  if arity ≠ 2 then .none
  else
    let (length, d) ← EiDecoder.ulongval d
    let (ref, _) ← EiDecoder.binary d
    .some (length, ref)

end GenUtp
