/-
What a handler exchanges with the outside: the terms it sends to Erlang
processes, the answers of its port requests, and its calls into libutp.

A message is kept as the term array the driver builds, not as the term the
runtime makes of it. In particular a `Payload` keeps the buffer the bytes
were copied into apart from the length written in the term (`pktSize`, a
`uint32_t`): nothing in the driver makes the two agree.
-/
import Mathlib.Algebra.Group.Nat.Defs

namespace GenUtp

/-- An Erlang process. -/
abbrev Pid := Nat

/-- The bytes of an encoded reference, as the caller passed them. -/
abbrev Ref := List UInt8

/-- A `UTPSocket*`; a null pointer is `none`. -/
abbrev UTPSocket := Nat

/-- What the `caller` field can hold: `driver_term_nil`, the `0` of
`reset_waiting_recv`, or a process. -/
inductive ErlDrvTermData
  | nil
  | zero
  | pid (p : Pid)
  deriving DecidableEq, Repr

/-- The error codes the driver names, and any other `errno`. -/
inductive Errno
  | econnreset
  | einval
  | enotconn
  | etimedout
  | other (n : Nat)
  deriving DecidableEq, Repr

/-- Type of the delivery of data to Erlang (`handler.h`). -/
inductive DeliveryMode
  | dataList
  | dataBinary
  deriving DecidableEq, Repr

/-- `R` in `{utp_reply, Port, R}`. -/
inductive SendReply
  | ok
  | retry
  | wait
  | waitFor (tmout : Nat)
  | error (e : Errno)
  deriving DecidableEq, Repr

/-- The data part of a message: `header` bytes of `buf` as integers, then
`pktSize - header` more as a string or a binary. -/
structure Payload where
  buf : List UInt8
  pktSize : Nat
  header : Nat
  mode : DeliveryMode
  deriving DecidableEq, Repr

/-- The length written for the string or binary, in `uint32_t` arithmetic. -/
def Payload.tailLen (p : Payload) : Nat := (p.pktSize + 2 ^ 32 - p.header) % 2 ^ 32

/-- The bytes the term refers to, when they all lie in `buf`. -/
def Payload.data (p : Payload) : Option (List UInt8) :=
  if p.header + p.tailLen ≤ p.buf.length then .some (p.buf.take (p.header + p.tailLen)) else .none

inductive Msg
  /-- `{utp_reply, Port, R}` -/
  | utpReply (r : SendReply)
  /-- `{utp, Port, Payload}` -/
  | utp (p : Payload)
  /-- `{utp_closed, Port}` -/
  | utpClosed
  /-- `{utp_error, Port, E}` -/
  | utpError (e : Errno)
  /-- `{Ref, ok}` -/
  | refOk (ref : Ref)
  /-- `{Ref, {error, E}}` -/
  | refError (ref : Ref) (e : Errno)
  /-- `{Ref, {ok, Payload}}`; `ref` is a `Binary`, possibly null. -/
  | refData (ref : Option Ref) (p : Payload)
  deriving DecidableEq, Repr

/-- A value `getopts` reports. -/
inductive OptVal
  | atom (a : String)
  | int (n : Int)
  deriving DecidableEq, Repr

/-- What a port request returns. -/
inductive Reply
  /-- `ERL_DRV_ERROR_BADARG` -/
  | badarg
  /-- `ERL_DRV_ERROR_GENERAL` -/
  | general
  /-- `return 0`: an empty binary. -/
  | empty
  | ok
  | wait
  | error (e : Errno)
  /-- `{error, "utpdrv illegal connect state: N"}` -/
  | errorString (s : String)
  /-- `{ok, {Addr, Port}}` -/
  | addr (host : String) (port : Nat)
  /-- `{ok, [{Name, Value}]}` -/
  | opts (l : List (String × OptVal))
  deriving DecidableEq, Repr

/-- The socket options of libutp the driver sets. -/
inductive SockBuf
  | sndbuf
  | rcvbuf
  deriving DecidableEq, Repr

/-- A call into libutp. `close` notes how many bytes `write_queue` held. -/
inductive UtpCall
  | setCallbacks
  | connect
  | setSockopt (opt : SockBuf) (val : Int)
  | write (bytes : Nat)
  | rbDrained
  | getPeerName
  | close (unsent : Nat)
  deriving DecidableEq, Repr

/-- What a step does to the outside, in order. -/
inductive Effect
  /-- `utp_output_term`: to the port's connected process. -/
  | output (m : Msg)
  /-- `utp_send_term` -/
  | send (dest : ErlDrvTermData) (m : Msg)
  | reply (r : Reply)
  | utp (s : Option UTPSocket) (c : UtpCall)
  /-- `do_write` handed `bytes` to libutp, off a queue of `queued` bytes. -/
  | written (bytes : List UInt8) (queued : Nat)
  /-- `MainHandler::stop_input` -/
  | stopInput
  /-- `delete this` -/
  | delete
  deriving DecidableEq, Repr

end GenUtp
