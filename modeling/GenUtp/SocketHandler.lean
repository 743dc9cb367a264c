/-
The handler of one uTP port: its state, and the delivery of received data
(`socket_handler.cc`).

The state is the fields of `SocketHandler` and `UtpHandler` that some
function reads, with the port's driver queue (`queue`, one segment for each
`driver_enq`) and the effects of the current step (`out`). `state`, which
only the trace output reads, and the socket number are left out.

Undefined behaviour is `none`: `front` or `pop_front` of an empty list. A
read past the first segment of the driver queue (`announced`) is given
whatever `mem` says lies there.
-/
import GenUtp.Lib.Segments
import GenUtp.SockOpts
import GenUtp.WriteQueue

namespace GenUtp

open Frames Segments

/-- `UtpHandler::UtpPortStatus` -/
inductive UtpPortStatus
  | notConnected
  | listening
  | connectPending
  | connected
  | connectFailed
  | closing
  | destroying
  | stopped
  deriving DecidableEq, Repr

/-- The subclass a handler is: they differ in `do_incoming` and in the
requests they take. -/
inductive Kind
  | client
  | server
  deriving DecidableEq, Repr

structure UtpHandler where
  kind : Kind
  queue : List (List UInt8)
  readCount : List Nat
  sockopts : SockOpts
  closePending : Bool
  selected : Bool
  writeQueue : WriteQueue
  callerRef : Option Ref
  caller : ErlDrvTermData
  utp : Option UTPSocket
  recvLen : Nat
  status : UtpPortStatus
  errorCode : Errno
  writable : Bool
  senderWaiting : Bool
  receiverWaiting : Bool
  eofSeen : Bool
  out : List Effect
  deriving DecidableEq, Repr

/-- Memory the driver reads without having written it: what lies at an index
past the end of a buffer, or in a freshly allocated one. -/
abbrev Mem := Nat → UInt8

/-- `SocketHandler::Receiver`: where `emit_read_buffer` sends the data. -/
inductive Receiver
  /-- `send_to_connected` -/
  | connected
  | proc (caller : ErlDrvTermData) (callerRef : Option Ref)
  deriving DecidableEq, Repr

namespace UtpHandler

def emit (h : UtpHandler) (x : Effect) : UtpHandler := { h with out := h.out ++ [x] }

/-! ## The driver queue -/

/-- `driver_sizeq` -/
def sizeq (h : UtpHandler) : Nat := size h.queue

/-- `driver_enq` copies the bytes into a segment of their own. -/
def driverEnq (h : UtpHandler) (bytes : List UInt8) : UtpHandler := { h with queue := h.queue ++ [bytes] }

/-- `driver_deq` does nothing when asked for more than there is. -/
def driverDeq (h : UtpHandler) (n : Nat) : UtpHandler := { h with queue := deqSegs n h.queue }

/-! ## `emit_read_buffer` -/

/-- `emit_closed_message`, and whether it sent the message. -/
def emitClosedMessage (h : UtpHandler) : Bool × UtpHandler :=
  if h.sizeq = 0 then (true, h.emit (.output .utpClosed)) else (false, h)

/-- The loop of `reduce_read_count`, with its count `i` so far. -/
def reduceReadCount (reduction : Nat) : Nat → List Nat → Option (List Nat)
  | i, [] => if i < reduction then .none else .some []
  | i, c :: rc =>
    if i < reduction then
      if i + c > reduction then .some ((i + c - reduction) :: rc) else reduceReadCount reduction (i + c) rc
    else .some (c :: rc)

/-- `move_read_data`: the bytes appended to the (empty) buffer. -/
def moveReadData (h : UtpHandler) (pktSize : Nat) : List UInt8 × UtpHandler :=
  (takeSegs pktSize h.queue, h.driverDeq pktSize)

/-- The `pkt_size` read off the first segment. -/
def announced (h : UtpHandler) (mem : Mem) : Nat :=
  let byte i := (h.queue.headD []).getD i (mem i)
  match h.sockopts.packet with
  | 1 => beVal [byte 0]
  | 2 => beVal [byte 0, byte 1]
  | 4 => beVal [byte 0, byte 1, byte 2, byte 3]
  | _ => 0

/-- The message the loop of `emit_read_buffer` builds and sends. -/
def dataMessage (so : SockOpts) (buf : List UInt8) (pktSize : Nat) : Receiver → Effect
  | .connected => .output (.utp ⟨buf, pktSize, so.header, so.deliveryMode⟩)
  | .proc caller ref => .send caller (.refData ref ⟨buf, pktSize, so.header, .dataBinary⟩)

/-- The loop of `emit_read_buffer`; `buf` is cleared before each further
turn. It ends with `new_qsize`. -/
def emitLoop (receiver : Receiver) : Nat → List UInt8 → Nat → Nat → UtpHandler → Option (Nat × UtpHandler)
  | 0, _, _, newQsize, h => .some (newQsize, h)
  | n + 1, buf, pktSize, newQsize, h =>
    if buf.length = 0 then
      match h.readCount with
      | [] => .none
      | c :: rc =>
        let pktSize := c % 2 ^ 32
        let (buf, h) := { h with readCount := rc }.moveReadData pktSize
        emitLoop receiver n [] pktSize h.sizeq (h.emit (dataMessage h.sockopts buf pktSize receiver))
    else emitLoop receiver n [] pktSize newQsize (h.emit (dataMessage h.sockopts buf pktSize receiver))

/-- What `emit_read_buffer` returns, and the `new_qsize` it leaves. -/
structure Emitted where
  sent : Bool
  qsize : Nat
  h : UtpHandler

/-- The end of `emit_read_buffer`: the loop, then `once` reverts. -/
def emitPackets (receiver : Receiver) (pktsToSend : Nat) (buf : List UInt8) (pktSize newQsize : Nat)
    (h : UtpHandler) : Option Emitted :=
  (emitLoop receiver pktsToSend buf pktSize newQsize h).map fun (q, h) =>
    if h.sockopts.active = .activeOnce then
      ⟨true, q, { h with sockopts := { h.sockopts with active := .activeFalse } }⟩
    else ⟨true, q, h⟩

/-- `qsize` is what the caller left in `new_qsize`. `sockopts.packet +
pkt_size` is `uint32_t` arithmetic, and so is `pkt_size` itself. -/
def emitReadBuffer (h : UtpHandler) (len : Nat) (receiver : Receiver) (qsize : Nat) (mem : Mem) : Option Emitted :=
  if h.closePending = true ∧ h.emitClosedMessage.1 = true then
    .some ⟨false, qsize, { h.emitClosedMessage.2 with closePending := false }⟩
  else if h.sizeq = 0 ∨ h.sizeq < len ∨ h.sizeq < h.sockopts.packet then .some ⟨false, h.sizeq, h⟩
  else
    let pktSize := h.announced mem
    if pktSize ≠ 0 then
      if h.sizeq < (h.sockopts.packet + pktSize) % 2 ^ 32 then .some ⟨false, h.sizeq, h⟩
      else
        let (buf, h) := (h.driverDeq h.sockopts.packet).moveReadData pktSize
        (reduceReadCount pktSize 0 h.readCount).bind fun rc =>
          emitPackets receiver 1 buf pktSize h.sizeq { h with readCount := rc }
    else if h.sockopts.active = .activeFalse then
      let pktSize := (if len = 0 then h.sizeq else len) % 2 ^ 32
      (if len = 0 then .some [] else reduceReadCount pktSize 0 h.readCount).bind fun rc =>
        let (buf, h) := { h with readCount := rc }.moveReadData pktSize
        emitPackets receiver 1 buf pktSize h.sizeq h
    else
      emitPackets receiver (if h.sockopts.active = .activeTrue then h.readCount.length else 1) [] 0 h.sizeq h

end UtpHandler

end GenUtp
