/-
The connection handler (`utp_handler.cc`, with what `client.cc` and
`server.cc` add): its requests, its libutp callbacks, and the machine they
make together.

Each request and callback is a function on the state, under its name in the
source; an `Event` is a call of one of them with its arguments and with what
the code outside the driver answers during the call (`UtpWrite` for
`UTP_Write`, `Mem` for memory the driver did not write, the verdict of
`getaddrinfo`). Requests carry the process that `driver_caller` returns.
`machine` runs one event at a time, as the port lock and `utp_mutex` do, and
puts out the effects of the step.
-/
import GenUtp.Lib.Run
import GenUtp.SocketHandler

namespace GenUtp

open Frames

/-- One entry of an `ErlIOVec`: its bytes, and the binary behind it. -/
structure IoVec where
  base : List UInt8
  bin : Option (List UInt8)
  deriving DecidableEq, Repr

structure ErlIOVec where
  size : Nat
  iov : List IoVec
  deriving DecidableEq, Repr

/-- What a `UTP_Write` of `n` bytes does: the counts of the `do_write` calls
it makes, and its answer. -/
structure UtpWrite where
  counts : Nat → List Nat
  ret : Nat → Bool

/-- The states libutp reports. -/
inductive UtpState
  | connect
  | writable
  | eof
  | destroying
  deriving DecidableEq, Repr

namespace UtpHandler

/-- The constructor. -/
def new (kind : Kind) (so : SockOpts) : UtpHandler where
  kind := kind
  queue := []
  readCount := []
  sockopts := so
  closePending := false
  selected := false
  writeQueue := .new
  callerRef := .none
  caller := .nil
  utp := .none
  recvLen := 0
  status := .notConnected
  errorCode := .other 0
  writable := false
  senderWaiting := false
  receiverWaiting := false
  eofSeen := false
  out := []

/-! ## Helpers -/

/-- `close_utp` -/
def closeUtp (h : UtpHandler) : UtpHandler :=
  if h.utp ≠ .none ∧ h.status ≠ .destroying then
    if h.writeQueue.size ≠ 0 then h
    else { h.emit (.utp h.utp (.close h.writeQueue.size)) with status := .closing, utp := .none }
  else h

def resetWaitingRecv (h : UtpHandler) : UtpHandler :=
  { h with receiverWaiting := false, recvLen := 0, callerRef := .none, caller := .zero }

/-- `do_write` -/
def doWrite (h : UtpHandler) (count : Nat) : Option UtpHandler :=
  if count = 0 then .some h
  else (h.writeQueue.popBytes count).map fun r =>
    { h with writeQueue := r.2, out := h.out ++ [.written r.1 h.writeQueue.size] }

/-- `UTP_Write(utp, n)`, with the `do_write` calls libutp makes inside it. -/
def utpWrite (h : UtpHandler) (w : UtpWrite) (n : Nat) : Option (Bool × UtpHandler) :=
  ((w.counts n).foldlM doWrite (h.emit (.utp h.utp (.write n)))).map fun h => (w.ret n, h)

/-- `UTP_RBDrained` -/
def rbDrained (h : UtpHandler) : UtpHandler := h.emit (.utp h.utp .rbDrained)

def setUtpCallbacks (h : UtpHandler) : UtpHandler :=
  if h.utp ≠ .none then
    ((h.emit (.utp h.utp .setCallbacks)).emit (.utp h.utp (.setSockopt .sndbuf utpSndbufDefault))).emit
      (.utp h.utp (.setSockopt .rcvbuf utpRecbufDefault))
  else h

/-! ## `outputv` -/

/-- The length header of a send: `packet` fresh bytes, set for 1, 2 and 4. -/
def lengthHeader (packet size : Nat) (mem : Mem) : List UInt8 :=
  match packet with
  | 1 => beBytes 1 (size &&& 0xFF)
  | 2 => beBytes 2 (size &&& 0xFFFF)
  | 4 => beBytes 4 (size &&& 0xFFFFFFFF)
  | p => (List.range p).map mem

/-- What one entry puts on the write queue. -/
def pushIoVec (wq : WriteQueue) (v : IoVec) : WriteQueue :=
  if v.base.length > 0 then wq.pushBack v.base
  else match v.bin with
    | .some bin => wq.pushBack bin
    | .none => wq

/-- The pushes of a send, and `write_total`. -/
def enqueueSend (wq : WriteQueue) (packet : Nat) (ev : ErlIOVec) (mem : Mem) : WriteQueue × Nat :=
  if ev.size > 0 then
    if packet > 0 then
      (ev.iov.foldl pushIoVec (wq.pushBack (lengthHeader packet ev.size mem)), packet + ev.size)
    else (ev.iov.foldl pushIoVec wq, ev.size)
  else (wq, 0)

def outputv (h : UtpHandler) (p : Pid) (ev : ErlIOVec) (w : UtpWrite) (mem : Mem) : Option UtpHandler :=
  if h.status ≠ .connected ∨ h.utp = .none then .some (h.emit (.send (.pid p) (.utpReply (.error .enotconn))))
  else if h.writable then
    let (wq, writeTotal) := enqueueSend h.writeQueue h.sockopts.packet ev mem
    let h : UtpHandler := { h with writeQueue := wq }
    (h.utpWrite w writeTotal).map fun (ret, h) =>
      { h with writable := ret, out := h.out ++ [.send (.pid p) (.utpReply .ok)] }
  else if h.sockopts.sendTmout = 0 then .some (h.emit (.send (.pid p) (.utpReply (.error .etimedout))))
  else
    let reply := if h.sockopts.sendTmout = -1 then .wait else .waitFor h.sockopts.sendTmout.toNat
    .some { h with caller := .pid p, senderWaiting := true, out := h.out ++ [.send (.pid p) (.utpReply reply)] }

/-! ## Control requests -/

def recv (h : UtpHandler) (p : Pid) (buf : EiBuf) (mem : Mem) : Option UtpHandler :=
  if h.sockopts.active ≠ .activeFalse then .some (h.emit (.reply .badarg))
  else match decodeRecv buf with
    | .none => .some (h.emit (.reply .badarg))
    | .some (length, ref) =>
      (h.emitReadBuffer length (.proc (.pid p) (.some ref)) 1 mem).map fun r =>
        let h := if r.sent ∧ r.qsize = 0 then r.h.rbDrained else r.h
        let h :=
          if r.sent then h
          else { h with callerRef := .some ref, caller := .pid p, recvLen := length, receiverWaiting := true }
        h.emit (.reply .wait)

def cancelSend (h : UtpHandler) : UtpHandler :=
  { h with senderWaiting := false, caller := .nil, out := h.out ++ [.reply .empty] }

def cancelRecv (h : UtpHandler) : UtpHandler := h.resetWaitingRecv.emit (.reply .empty)

/-- The flags are set before the argument is decoded. -/
def close (h : UtpHandler) (p : Pid) (buf : EiBuf) : UtpHandler :=
  if h.closePending = false ∧ (h.eofSeen = true ∨ (h.status ≠ .closing ∧ h.status ≠ .destroying)) then
    let h := { h with status := .closing, closePending := true, eofSeen := false }
    match decodeBinary buf with
    | .none => h.emit (.reply .badarg)
    | .some ref => ({ h with callerRef := .some ref, caller := .pid p }.closeUtp).emit (.reply .wait)
  else h.emit (.reply .ok)

/-- The `send` flag of `SocketHandler::setopts`. -/
def sendOnSetopts (saved active : Active) (readCount : List Nat) : Bool :=
  match saved, active with
  | .activeFalse, .activeOnce => readCount.length > 0
  | .activeFalse, .activeTrue => true
  | .activeOnce, .activeTrue => true
  | .activeTrue, .activeTrue => true
  | _, _ => false

/-- `SocketHandler::setopts` -/
def socketSetopts (h : UtpHandler) (buf : EiBuf) (numericHost : List UInt8 → Bool) (mem : Mem) :
    Option (Reply × UtpHandler) :=
  match decodeBinary buf with
  | .none => .some (.badarg, h)
  | .some binopts =>
    match h.sockopts.decodeAndMerge numericHost binopts with
    | .error .invalidArgument => .some (.badarg, h)
    | .error _ => .none
    | .ok opts =>
      let h' := { h with sockopts := opts }
      if sendOnSetopts h.sockopts.active opts.active h.readCount then
        (h'.emitReadBuffer 0 .connected 0 mem).map fun r => (.ok, r.h)
      else .some (.ok, h')

/-- `UTP_SetSockopt` asserts that the socket is there and that a send buffer
has at least one byte. The calls are listed, and an assertion that fails
aborts the emulator: the states after it are those of no run. -/
def setopts (h : UtpHandler) (buf : EiBuf) (numericHost : List UInt8 → Bool) (mem : Mem) : Option UtpHandler :=
  (h.socketSetopts buf numericHost mem).map fun (reply, h') =>
    let h₁ :=
      if h.sockopts.sndbuf ≠ h'.sockopts.sndbuf then h'.emit (.utp h'.utp (.setSockopt .sndbuf h'.sockopts.sndbuf))
      else h'
    let h₂ :=
      if h.sockopts.recbuf ≠ h₁.sockopts.recbuf then h₁.emit (.utp h₁.utp (.setSockopt .rcvbuf h₁.sockopts.recbuf))
      else h₁
    h₂.emit (.reply reply)

/-- One requested name of `getopts`; `none` is `{error, einval}`. -/
def getopt (so : SockOpts) (tag : UInt8) : Option (String × OptVal) :=
  match tag.toNat with
  | 10 => .some ("active", match so.active with
    | .activeFalse => .atom "false"
    | .activeTrue => .atom "true"
    | _ => .atom "once")
  | 5 => .some ("mode", match so.deliveryMode with
    | .dataList => .atom "list"
    | .dataBinary => .atom "binary")
  | 8 => .some ("send_timeout", if so.sendTmout = -1 then .atom "infinity" else .int so.sendTmout)
  | 11 => .some ("packet", .int so.packet)
  -- `ulongval` takes the `int` as an `unsigned long`
  | 13 => .some ("sndbuf", .int (so.sndbuf % 2 ^ 64))
  | 14 => .some ("recbuf", .int (so.recbuf % 2 ^ 64))
  | _ => .none

def getopts (h : UtpHandler) (buf : EiBuf) : UtpHandler :=
  match decodeBinary buf with
  | .none => h.emit (.reply .badarg)
  | .some binopts =>
    match binopts.mapM (getopt h.sockopts) with
    | .none => h.emit (.reply (.error .einval))
    | .some l => h.emit (.reply (.opts l))

/-- `addr` is what `UTP_GetPeerName` and `getnameinfo` give. -/
def peername (h : UtpHandler) (addr : Except Errno (String × Nat)) : UtpHandler :=
  if h.status ≠ .connected ∨ h.utp = .none then h.emit (.reply (.error .enotconn))
  else
    (h.emit (.utp h.utp .getPeerName)).emit (.reply (match addr with
      | .ok (host, port) => .addr host port
      | .error e => .error e))

/-- The number of a status, as `%d` prints it. -/
def statusNumber : UtpPortStatus → Nat
  | .notConnected => 0
  | .listening => 1
  | .connectPending => 2
  | .connected => 3
  | .connectFailed => 4
  | .closing => 5
  | .destroying => 6
  | .stopped => 7

/-- `Client::connect_validate`; `SocketHandler::control` does not know the
command. -/
def connectValidate (h : UtpHandler) (buf : EiBuf) : UtpHandler :=
  match h.kind with
  | .server => h.emit (.reply .general)
  | .client =>
    match decodeBinary buf with
    | .none => h.emit (.reply .badarg)
    | .some ref =>
      match h.status with
      | .connectPending => { h with callerRef := .some ref, out := h.out ++ [.reply .wait] }
      | .connectFailed => { h with status := .notConnected, out := h.out ++ [.reply (.error h.errorCode)] }
      | .connected => h.emit (.reply .ok)
      | s => h.emit (.reply (.errorString s!"utpdrv illegal connect state: {statusNumber s}"))

/-- The port is closed. -/
def stop (h : UtpHandler) : UtpHandler :=
  let h := if h.utp ≠ .none then h.closeUtp else h
  let h := h.driverDeq h.sizeq
  if h.status = .destroying then h.emit .delete else { h with status := .stopped }

/-! ## Callbacks -/

def doRead (h : UtpHandler) (bytes : List UInt8) (mem : Mem) : Option UtpHandler :=
  if bytes.length ≠ 0 then
    let h := { h.driverEnq bytes with readCount := h.readCount ++ [bytes.length] }
    let drained (r : Emitted) (h : UtpHandler) := if r.qsize = 0 then h.rbDrained else h
    if h.sockopts.active = .activeFalse then
      if h.receiverWaiting then
        (h.emitReadBuffer h.recvLen (.proc h.caller h.callerRef) 1 mem).map fun r =>
          drained r (if r.sent then r.h.resetWaitingRecv else r.h)
      else .some h
    else (h.emitReadBuffer 0 .connected 1 mem).map fun r => drained r r.h
  else .some h

def stateEof (h : UtpHandler) : UtpHandler :=
  let h := { h with writeQueue := h.writeQueue.clear }
  let h := if h.status ≠ .stopped then h.closeUtp else h
  { h with writable := false, eofSeen := true }

/-- The retry of a parked send, and the close that waited for the queue. -/
def afterFlush (h : UtpHandler) : UtpHandler :=
  let h :=
    if h.writable ∧ h.senderWaiting then
      { h with senderWaiting := false, out := h.out ++ [.send h.caller (.utpReply .retry)] }
    else h
  if h.closePending then h.closeUtp else h

def stateWritable (h : UtpHandler) (w : UtpWrite) : Option UtpHandler :=
  let h := { h with writable := true }
  let sz := h.writeQueue.size
  if sz ≠ 0 then (h.utpWrite w sz).map fun (ret, h) => { h with writable := ret }.afterFlush
  else .some h.afterFlush

def stateConnect (h : UtpHandler) : UtpHandler :=
  let h : UtpHandler := match h.callerRef with
    | .some ref => if h.status = .connectPending then h.emit (.output (.refOk ref)) else h
    | .none => h
  { h with status := .connected, writable := true }

/-- The answer to a pending close, or else the notice of an active socket. -/
def answerClose (h : UtpHandler) : UtpHandler :=
  let notice := if h.sockopts.active ≠ .activeFalse then h.emitClosedMessage.2 else h
  match h.callerRef with
  | .some ref =>
    if h.closePending then
      let answer := if h.caller ≠ .nil then .send h.caller (.refOk ref) else .output (.refOk ref)
      { h with caller := .nil, closePending := false, out := h.out ++ [answer] }
    else notice
  | .none => notice

def stateDestroying (h : UtpHandler) : UtpHandler :=
  let h := if h.selected then { h with selected := false, out := h.out ++ [.stopInput] } else h
  if h.status = .closing then { h.answerClose with writable := false, status := .destroying, eofSeen := false }
  else if h.status = .stopped then h.emit .delete
  else h

/-- `do_state_change` -/
def doStateChange (h : UtpHandler) (s : UtpState) (w : UtpWrite) : Option UtpHandler :=
  match s with
  | .eof => .some h.stateEof
  | .writable => h.stateWritable w
  | .connect => .some h.stateConnect
  | .destroying => .some h.stateDestroying

def doError (h : UtpHandler) (e : Errno) : UtpHandler :=
  let h := { h with errorCode := e }
  match h.status with
  | .connectPending =>
    let h := { h with status := .connectFailed }
    match h.callerRef with
    | .some ref => h.emit (.output (.refError ref e))
    | .none => h
  | .connected =>
    if e = .econnreset then h.closeUtp
    else if h.sockopts.active ≠ .activeFalse then h.emit (.output (.utpError e))
    else h
  | _ => h

/-- `Client::do_incoming` does nothing. -/
def doIncoming (h : UtpHandler) (s : UTPSocket) : UtpHandler :=
  match h.kind with
  | .client => h
  | .server =>
    if h.utp = .none then
      { { h with utp := .some s }.setUtpCallbacks with writable := true, status := .connected }
    else h

/-! ## How a handler starts -/

/-- `SocketHandler::set_port` -/
def setPort (h : UtpHandler) : UtpHandler := { h with selected := true }

/-- `Client::connect_to`, with the socket `UTP_Create` returns. -/
def connectTo (h : UtpHandler) (s : UTPSocket) : UtpHandler :=
  let h := { h with status := .connectPending, utp := .some s }.setUtpCallbacks
  h.emit (.utp h.utp .connect)

/-- The client of `MainHandler::connect_start`. -/
def startClient (so : SockOpts) (s : UTPSocket) : UtpHandler := ((new .client so).setPort).connectTo s

/-- The server of `Listener::input_ready`, for a new connection. -/
def startServer (so : SockOpts) (s : UTPSocket) : UtpHandler := ((new .server so).doIncoming s).setPort

end UtpHandler

/-! ## The machine -/

inductive Event
  | outputv (p : Pid) (ev : ErlIOVec) (w : UtpWrite) (mem : Mem)
  | recv (p : Pid) (buf : EiBuf) (mem : Mem)
  | cancelSend (p : Pid)
  | cancelRecv (p : Pid)
  | close (p : Pid) (buf : EiBuf)
  | setopts (p : Pid) (buf : EiBuf) (numericHost : List UInt8 → Bool) (mem : Mem)
  | getopts (p : Pid) (buf : EiBuf)
  | peername (p : Pid) (addr : Except Errno (String × Nat))
  | connectValidate (p : Pid) (buf : EiBuf)
  | stop
  | doRead (bytes : List UInt8) (mem : Mem)
  | doWrite (count : Nat)
  | stateChange (s : UtpState) (w : UtpWrite)
  | doError (e : Errno)
  | doIncoming (s : UTPSocket)

abbrev Trace := Runs.Trace UtpHandler Event (List Effect)

namespace UtpHandler

def handle (h : UtpHandler) : Event → Option UtpHandler
  | .outputv p ev w mem => h.outputv p ev w mem
  | .recv p buf mem => h.recv p buf mem
  | .cancelSend _ => .some h.cancelSend
  | .cancelRecv _ => .some h.cancelRecv
  | .close p buf => .some (h.close p buf)
  | .setopts _ buf numericHost mem => h.setopts buf numericHost mem
  | .getopts _ buf => .some (h.getopts buf)
  | .peername _ addr => .some (h.peername addr)
  | .connectValidate _ buf => .some (h.connectValidate buf)
  | .stop => .some h.stop
  | .doRead bytes mem => h.doRead bytes mem
  | .doWrite count => h.doWrite count
  | .stateChange s w => h.doStateChange s w
  | .doError e => .some (h.doError e)
  | .doIncoming s => .some (h.doIncoming s)

/-- One event: the next state, and the effects of this step. `out` is only
used within the step. -/
def machine (h : UtpHandler) (e : Event) : Option (UtpHandler × List Effect) :=
  (handle { h with out := [] } e).map fun h' => ({ h' with out := h.out }, h'.out)

end UtpHandler

end GenUtp
