/-
Socket options (`SocketHandler::SockOpts`): their defaults, the parser of
their binary encoding, and the merge `setopts` makes.

`decode` walks the bytes of the binary. A tag whose argument is cut short
makes it read past the binary, which is undefined in C++; so is an address
too long for `addrstr`. Both are the fault `overread`. `badSockAddr` is the
exception `from_addrport` throws and `setopts` does not catch.
-/
import GenUtp.Coder
import GenUtp.Lib.Frames

namespace GenUtp

open Frames

/-- `SocketHandler::Opts`, the tags of `gen_utp_opts.hrl`. -/
inductive Opt
  | ip
  | port
  | list
  | binary
  | inet
  | inet6
  | sendTmout
  | sendTmoutInfinite
  | active
  | packet
  | header
  | sndbuf
  | recbuf
  deriving DecidableEq, Repr

/-- `SocketHandler::Active`. The parser casts any byte to it, so a value
outside the enumeration can be stored. -/
inductive Active
  | activeFalse
  | activeOnce
  | activeTrue
  | invalid (b : UInt8)
  deriving DecidableEq, Repr

def Active.ofByte (b : UInt8) : Active :=
  if b = 0 then .activeFalse else if b = 1 then .activeOnce else if b = 2 then .activeTrue else .invalid b

structure SockOpts where
  /-- The address and port `from_addrport` was last given. -/
  addr : Option (List UInt8 × Nat)
  addrstr : List UInt8
  sendTmout : Int
  active : Active
  header : Nat
  sndbuf : Int
  recbuf : Int
  port : Nat
  deliveryMode : DeliveryMode
  packet : Nat
  inet6 : Bool
  addrSet : Bool
  deriving DecidableEq, Repr

def utpSndbufDefault : Int := 16384
def utpRecbufDefault : Int := 16384

namespace SockOpts

/-- The default options. -/
def new : SockOpts where
  addr := .none
  addrstr := []
  sendTmout := -1
  active := .activeTrue
  header := 0
  sndbuf := utpSndbufDefault
  recbuf := utpRecbufDefault
  port := 0
  deliveryMode := .dataList
  packet := 0
  inet6 := false
  addrSet := false

inductive Fault
  | invalidArgument
  | badSockAddr
  | overread
  deriving DecidableEq, Repr

def inet6Addrstrlen : Nat := 46

/-- A `uint32_t` stored in an `int`. -/
def toInt32 (n : Nat) : Int := if n < 2 ^ 31 then n else (n : Int) - 2 ^ 32

/-- `strcpy` and `strlen`: the bytes up to a NUL, and those after it. -/
def cstring : List UInt8 → Option (List UInt8 × List UInt8)
  | [] => .none
  | b :: bs => if b = 0 then .some ([], bs) else (cstring bs).map fun r => (b :: r.1, r.2)

/-- One turn of the loop of `decode`: the tag `*data++` and what it reads. -/
def decodeOne (so : SockOpts) (tag : UInt8) (data : List UInt8) :
    Except Fault (SockOpts × Option Opt × List UInt8) :=
  match tag.toNat, data with
  | 1, data =>
    match cstring data with
    | .none => .error .overread
    | .some (s, rest) =>
      if s.length < inet6Addrstrlen then .ok ({ so with addrstr := s, addrSet := true }, .some .ip, rest)
      else .error .overread
  | 2, a :: b :: rest => .ok ({ so with port := beVal [a, b] }, .some .port, rest)
  | 3, data => .ok ({ so with deliveryMode := .dataList }, .some .list, data)
  | 4, data => .ok ({ so with deliveryMode := .dataBinary }, .some .binary, data)
  | 6, data => .ok ({ so with inet6 := false }, .some .inet, data)
  | 7, data => .ok ({ so with inet6 := true }, .some .inet6, data)
  | 8, a :: b :: c :: d :: rest => .ok ({ so with sendTmout := beVal [a, b, c, d] }, .some .sendTmout, rest)
  | 9, data => .ok ({ so with sendTmout := -1 }, .some .sendTmoutInfinite, data)
  | 10, a :: rest => .ok ({ so with active := .ofByte a }, .some .active, rest)
  | 11, a :: rest => .ok ({ so with packet := a.toNat }, .some .packet, rest)
  | 12, a :: b :: rest => .ok ({ so with header := beVal [a, b] }, .some .header, rest)
  | 13, a :: b :: c :: d :: rest => .ok ({ so with sndbuf := toInt32 (beVal [a, b, c, d]) }, .some .sndbuf, rest)
  | 14, a :: b :: c :: d :: rest => .ok ({ so with recbuf := toInt32 (beVal [a, b, c, d]) }, .some .recbuf, rest)
  | 2, _ | 8, _ | 10, _ | 11, _ | 12, _ | 13, _ | 14, _ => .error .overread
  -- no `default` in the switch: any other byte is skipped
  | _, data => .ok (so, .none, data)

/-- The loop of `decode`; each turn takes at least the tag, so as many turns
as bytes are enough. -/
def decodeLoop : Nat → SockOpts → List Opt → List UInt8 → Except Fault (SockOpts × List Opt)
  | _, so, opts, [] => .ok (so, opts)
  | 0, so, opts, _ :: _ => .ok (so, opts)
  | n + 1, so, opts, tag :: data => do
    let (so, o, rest) ← decodeOne so tag data
    decodeLoop n so (opts ++ o.toList) rest

/-- `SockOpts::decode`. `numericHost` is what `getaddrinfo` with
`AI_NUMERICHOST` says of an address text. -/
def decode (numericHost : List UInt8 → Bool) (so : SockOpts) (bin : List UInt8) :
    Except Fault (SockOpts × List Opt) := do
  let (so, opts) ← decodeLoop bin.length so [] bin
  if so.addrSet then
    if numericHost so.addrstr then .ok ({ so with addr := .some (so.addrstr, so.port) }, opts)
    else .error .badSockAddr
  else .ok (so, opts)

/-- One turn of the loop of `decode_and_merge`. -/
def mergeOne (so cur : SockOpts) : Opt → Except Fault SockOpts
  | .ip | .port | .inet | .inet6 => .error .invalidArgument
  | .list | .binary => .ok { cur with deliveryMode := so.deliveryMode }
  | .sendTmout | .sendTmoutInfinite => .ok { cur with sendTmout := so.sendTmout }
  | .active => .ok { cur with active := so.active }
  | .packet => .ok { cur with packet := so.packet }
  | .header => .ok { cur with header := so.header }
  | .sndbuf => .ok { cur with sndbuf := so.sndbuf }
  | .recbuf => .ok { cur with recbuf := so.recbuf }

def decodeAndMerge (numericHost : List UInt8 → Bool) (cur : SockOpts) (bin : List UInt8) :
    Except Fault SockOpts := do
  let (so, opts) ← decode numericHost new bin
  opts.foldlM (mergeOne so) cur

end SockOpts

end GenUtp
