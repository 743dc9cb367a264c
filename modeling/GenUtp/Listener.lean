/-
The listener (`listener.cc`): the processes that wait in `accept`, and what
a datagram does to them.

A datagram comes with what the calls of `input_ready` answer: `recvfrom`,
the calls inside `open_udp_socket`, each `connect`, libutp's
`UTP_IsIncomingUTP` with the callbacks it makes, and `driver_create_port`.
The state is the acceptor queue and the fields a step reads; an `accept`
comes with the answer of `driver_monitor_process`. The effects of a step are
the log of what it opened, created, closed and deleted, in order, with the
calls into `MainHandler` and the messages sent.

`inputReady_incoming` says once what a datagram can do, and `machine_step`
what any step can do.
-/
import GenUtp.UtpHandler

namespace GenUtp

open UtpHandler

/-- A file descriptor; the -1 of a `socket` that failed is `none`. -/
abbrev Fd := Nat

/-- What `errno` holds after a call has failed. -/
abbrev ErrnoValue := { n : Int // 0 < n }

/-- An Erlang port. -/
abbrev ErlDrvPort := Nat

/-- `Listener::Acceptor` -/
structure Acceptor where
  caller : Pid
  ref : Ref
  deriving DecidableEq, Repr

structure Listener where
  sockopts : SockOpts
  selected : Bool
  acceptorQueue : List Acceptor
  deriving DecidableEq, Repr

/-- `R` in `{utp_async, Sock, Ref, R}`. -/
inductive AsyncReply
  | ok (newPort : ErlDrvPort)
  | error (e : Errno)
  deriving DecidableEq, Repr

/-- What a request to a listener returns. -/
inductive ListenerReply
  | badarg
  /-- `return 0` -/
  | empty
  | ok
  /-- `{ok, Ref}` -/
  | okRef (ref : Ref)
  | error (e : Errno)
  deriving DecidableEq, Repr

/-- The handlers `del_monitors` is called for: the listener, or the server it
created. -/
inductive Deleted
  | listener
  | server
  deriving DecidableEq, Repr

inductive ListenerEffect
  /-- `MainHandler::add_monitor`, and its answer. -/
  | addMonitor (p : Pid) (monitored : Bool)
  | delMonitor (p : Pid)
  | delMonitors (h : Deleted)
  /-- A `socket` that succeeded. -/
  | openFd (fd : Fd)
  | closeFd (sock : Option Fd)
  | newServer (sock : Option Fd)
  | newMainHandler
  | deleteServer
  | deleteMainHandler
  /-- `driver_create_port` for `owner`, and the server of the new port. -/
  | createPort (owner : Pid) (newPort : ErlDrvPort) (server : UtpHandler)
  /-- `{utp_async, Sock, Ref, R}` -/
  | async (dest : Pid) (ref : Ref) (r : AsyncReply)
  /-- `{utp_reply, Sock, R}` -/
  | sendReply (dest : Pid) (r : SendReply)
  | reply (r : ListenerReply)
  | stopInput
  | delete
  deriving DecidableEq, Repr

/-! ## What the calls of `input_ready` answer -/

/-- The calls of `open_udp_socket`: an error is what `errno` holds when it
returns it. -/
structure OpenCalls where
  socket : Except ErrnoValue Fd
  fcntl : Except ErrnoValue Unit
  setsockopt : Except ErrnoValue Unit
  bind : Except ErrnoValue Unit

/-- One `connect`; `failed` is any error but EINTR. -/
inductive ConnectCall
  | ok
  | eintr
  | failed (e : Errno)
  deriving DecidableEq, Repr

/-- `UTP_IsIncomingUTP`: the packets it failed to send through `send_to`, the
new socket it gave to `utp_incoming` if it called it, and its answer. -/
structure IncomingCall where
  sendErrors : List Errno
  socket : Option UTPSocket
  isUtp : Bool
  deriving DecidableEq, Repr

/-- A datagram: its length, which is the result of `recvfrom`, and what the
calls after it answer. -/
structure Datagram where
  len : Int
  opening : OpenCalls
  connect : List ConnectCall
  incoming : IncomingCall
  newPort : ErlDrvPort

/-- A datagram that opens the connection `s`: nothing fails. -/
def Datagram.connecting (fd : Fd) (s : UTPSocket) (newPort : ErlDrvPort) : Datagram where
  len := 1
  opening := ⟨.ok fd, .ok (), .ok (), .ok ()⟩
  connect := [.ok]
  incoming := ⟨[], .some s, true⟩
  newPort := newPort

/-- `open_udp_socket`: its result, and what it leaves in `udp_sock`. -/
structure Opened where
  result : Int
  sock : Option Fd
  out : List ListenerEffect

def openUdpSocket (c : OpenCalls) (reuseaddr : Bool) : Opened :=
  match c.socket with
  | .error e => ⟨e, .none, []⟩
  | .ok fd =>
    match c.fcntl with
    | .error e => ⟨e, fd, [.openFd fd, .closeFd fd]⟩
    | .ok () =>
      match if reuseaddr then c.setsockopt else .ok () with
      | .error e => ⟨e, fd, [.openFd fd, .closeFd fd]⟩
      | .ok () =>
        match c.bind with
        | .error e => ⟨e, fd, [.openFd fd, .closeFd fd]⟩
        | .ok () => ⟨0, fd, [.openFd fd]⟩

/-- The loop around `connect`: it calls again on EINTR. `none` is a loop that
has not ended. -/
def connectLoop : List ConnectCall → Option (Except Errno Unit)
  | [] => .none
  | .ok :: _ => .some (.ok ())
  | .eintr :: cs => connectLoop cs
  | .failed e :: _ => .some (.error e)

/-- What `UTP_IsIncomingUTP` makes of the server. -/
def IncomingCall.run (i : IncomingCall) (server : UtpHandler) : UtpHandler :=
  let server := i.sendErrors.foldl doError server
  match i.socket with
  | .some s => server.doIncoming s
  | .none => server

namespace Listener

def new (so : SockOpts) : Listener := ⟨so, true, []⟩

/-! ## The operations -/

/-- `~Server`, down to `~SocketHandler`. -/
def deleteServer : List ListenerEffect := [.deleteServer, .delMonitors .server]

/-- `~MainHandler` deletes the handler it delegates to. -/
def deleteMainHandler : List ListenerEffect := .deleteMainHandler :: deleteServer

def inputReady (l : Listener) (d : Datagram) : Option (Listener × List ListenerEffect) :=
  if d.len ≤ 0 then .some (l, [])
  else match l.acceptorQueue with
    | [] => .some (l, [])
    | acc :: rest =>
      let opened := openUdpSocket d.opening true
      if opened.result < 0 then .some (l, opened.out)
      else (connectLoop d.connect).map fun
        | .error e =>
          ({ l with acceptorQueue := rest },
            opened.out ++ [.closeFd opened.sock, .delMonitor acc.caller, .async acc.caller acc.ref (.error e)])
        | .ok () =>
          let server := d.incoming.run (UtpHandler.new .server l.sockopts)
          let created := opened.out ++ [.newServer opened.sock, .newMainHandler]
          if d.incoming.isUtp then
            ({ l with acceptorQueue := rest },
              created ++ [.delMonitor acc.caller, .createPort acc.caller d.newPort server.setPort,
                .async acc.caller acc.ref (.ok d.newPort)])
          else (l, created ++ [.closeFd opened.sock] ++ deleteServer ++ deleteMainHandler)

/-- The loop of `process_exited`. -/
def processExited (l : Listener) (p : Pid) : Listener :=
  { l with acceptorQueue := l.acceptorQueue.filter fun acc => acc.caller ≠ p }

def accept (l : Listener) (p : Pid) (buf : EiBuf) (monitored : Bool) : Listener × List ListenerEffect :=
  match decodeBinary buf with
  | .none => (l, [.reply .badarg])
  | .some ref =>
    if monitored then
      ({ l with acceptorQueue := l.acceptorQueue ++ [⟨p, ref⟩] }, [.addMonitor p true, .reply (.okRef ref)])
    else (l, [.addMonitor p false, .reply .empty])

/-- The loop of `cancel_accept`: the entry it stops at, and the queue without
it. -/
def cancelLoop (ref : Ref) : List Acceptor → Option Acceptor × List Acceptor
  | [] => (.none, [])
  | acc :: q =>
    if acc.ref = ref then (.some acc, q)
    else
      let (found, q') := cancelLoop ref q
      (found, acc :: q')

def cancelAccept (l : Listener) (buf : EiBuf) : Listener × List ListenerEffect :=
  match decodeBinary buf with
  | .none => (l, [.reply .badarg])
  | .some ref =>
    match cancelLoop ref l.acceptorQueue with
    | (.some acc, q) => ({ l with acceptorQueue := q }, [.delMonitor acc.caller, .reply .empty])
    | (.none, q) => ({ l with acceptorQueue := q }, [.reply .empty])

/-- `stop`, and the destructors it ends in. -/
def stop (l : Listener) : List ListenerEffect :=
  (if l.selected then [.stopInput] else []) ++ [.delete, .delMonitors .listener]

/-! ## What a datagram can do -/

end Listener

/-- What `open_udp_socket` can leave: an open descriptor, one it has closed
again, or none. -/
inductive Opening (c : OpenCalls) : Opened → Prop
  | opened {fd} : c.socket = .ok fd → c.fcntl = .ok () → c.setsockopt = .ok () → c.bind = .ok () →
      Opening c ⟨0, .some fd, [.openFd fd]⟩
  | closed {fd e} : 0 < e → c.fcntl ≠ .ok () ∨ c.setsockopt ≠ .ok () ∨ c.bind ≠ .ok () →
      Opening c ⟨e, .some fd, [.openFd fd, .closeFd (.some fd)]⟩
  | failed {e e'} : 0 < e → c.socket = .error e' → Opening c ⟨e, .none, []⟩

theorem openUdpSocket_opening (c : OpenCalls) : Opening c (openUdpSocket c true) := by
  unfold openUdpSocket
  split
  · next e hs => exact .failed e.2 hs
  · next fd hs =>
    split
    · next e hf => exact .closed e.2 (.inl (by simp [hf]))
    · next hf =>
      split
      · next e ho => exact .closed e.2 (.inr (.inl fun h => by simp [h] at ho))
      · next ho =>
        split
        · next e hb => exact .closed e.2 (.inr (.inr (by simp [hb])))
        · next hb => exact .opened hs hf ho hb

theorem Opening.nonneg {c : OpenCalls} {r : Opened} (h : Opening c r) : 0 ≤ r.result := by
  cases h with
  | opened => exact Int.le_refl 0
  | closed he => exact Int.le_of_lt he
  | failed he => exact Int.le_of_lt he

/-- What `connect` answers in the end: the first answer but EINTR. -/
def connectAnswer (cs : List ConnectCall) : Option ConnectCall := cs.find? fun c => c ≠ .eintr

theorem connectLoop_eq (cs : List ConnectCall) : connectLoop cs = (connectAnswer cs).bind fun
    | .ok => .some (.ok ())
    | .eintr => .none
    | .failed e => .some (.error e) := by
  induction cs with
  | nil => rfl
  | cons c cs ih =>
    cases c with
    | ok | failed => rfl
    | eintr => simpa [connectLoop, connectAnswer] using ih

theorem connectLoop_ok {cs : List ConnectCall} (h : connectLoop cs = .some (.ok ())) :
    connectAnswer cs = .some .ok := by
  rw [connectLoop_eq] at h
  rcases hc : connectAnswer cs with - | (- | - | e) <;> simp_all

theorem connectLoop_error {cs : List ConnectCall} {e : Errno} (h : connectLoop cs = .some (.error e)) :
    connectAnswer cs = .some (.failed e) := by
  rw [connectLoop_eq] at h
  rcases hc : connectAnswer cs with - | (- | - | e') <;> simp_all

namespace Listener

/-- What is created before `UTP_IsIncomingUTP` is asked. -/
def created (r : Opened) : List ListenerEffect := r.out ++ [.newServer r.sock, .newMainHandler]

/-- The server of a datagram. -/
def serverOf (l : Listener) (d : Datagram) : UtpHandler := d.incoming.run (UtpHandler.new .server l.sockopts)

/-- One rule for each way `input_ready` can end. The return for an error of
`open_udp_socket` is not among them. -/
inductive Incoming (l : Listener) (d : Datagram) : List ListenerEffect → Listener → Prop
  | dropped : d.len ≤ 0 ∨ l.acceptorQueue = [] → Incoming l d [] l
  | refused {acc rest r e} : 0 < d.len → l.acceptorQueue = acc :: rest → Opening d.opening r →
      connectAnswer d.connect = .some (.failed e) →
      Incoming l d (r.out ++ [.closeFd r.sock, .delMonitor acc.caller, .async acc.caller acc.ref (.error e)])
        { l with acceptorQueue := rest }
  | handedOver {acc rest r} : 0 < d.len → l.acceptorQueue = acc :: rest → Opening d.opening r →
      connectAnswer d.connect = .some .ok → d.incoming.isUtp = true →
      Incoming l d (created r ++ [.delMonitor acc.caller, .createPort acc.caller d.newPort (l.serverOf d).setPort,
        .async acc.caller acc.ref (.ok d.newPort)]) { l with acceptorQueue := rest }
  | discarded {acc rest r} : 0 < d.len → l.acceptorQueue = acc :: rest → Opening d.opening r →
      connectAnswer d.connect = .some .ok → d.incoming.isUtp = false →
      Incoming l d (created r ++ [.closeFd r.sock] ++ deleteServer ++ deleteMainHandler) l

theorem inputReady_incoming {l l' : Listener} {d : Datagram} {o : List ListenerEffect}
    (h : l.inputReady d = .some (l', o)) : Incoming l d o l' := by
  unfold inputReady at h
  split at h
  · next hlen =>
    obtain ⟨rfl, rfl⟩ := Prod.mk.inj (Option.some.inj h)
    exact .dropped (.inl hlen)
  · next hlen =>
    split at h
    · next hq =>
      obtain ⟨rfl, rfl⟩ := Prod.mk.inj (Option.some.inj h)
      exact .dropped (.inr hq)
    · next acc rest hq =>
      have hopen := openUdpSocket_opening d.opening
      have hpos : 0 < d.len := by omega
      rw [if_neg (by have := hopen.nonneg; omega)] at h
      obtain ⟨res, hconn, heq⟩ := Option.map_eq_some_iff.1 h
      cases res with
      | error e =>
        obtain ⟨rfl, rfl⟩ := Prod.mk.inj heq
        exact .refused hpos hq hopen (connectLoop_error hconn)
      | ok =>
        have hconn := connectLoop_ok hconn
        simp only at heq
        split at heq
        · next hutp =>
          obtain ⟨rfl, rfl⟩ := Prod.mk.inj heq
          exact .handedOver hpos hq hopen hconn hutp
        · next hutp =>
          obtain ⟨rfl, rfl⟩ := Prod.mk.inj heq
          exact .discarded hpos hq hopen hconn (by simpa using hutp)

end Listener

/-! ## The machine -/

inductive ListenerEvent
  | accept (p : Pid) (buf : EiBuf) (monitored : Bool)
  | cancelAccept (p : Pid) (buf : EiBuf)
  | processExited (p : Pid)
  | inputReady (d : Datagram)
  | close (p : Pid)
  | peername (p : Pid)
  | outputv (p : Pid)

abbrev ListenerTrace := Runs.Trace Listener ListenerEvent (List ListenerEffect)

namespace Listener

def machine (l : Listener) : ListenerEvent → Option (Listener × List ListenerEffect)
  | .accept p buf monitored => .some (l.accept p buf monitored)
  | .cancelAccept _ buf => .some (l.cancelAccept buf)
  | .processExited p => .some (l.processExited p, [])
  | .inputReady d => l.inputReady d
  | .close _ => .some (l, [.reply .ok])
  | .peername _ => .some (l, [.reply (.error .enotconn)])
  | .outputv p => .some (l, [.sendReply p (.error .enotconn)])

/-- `cancel_accept` takes out the first entry with the reference. -/
theorem cancelLoop_eq (ref : Ref) (q : List Acceptor) :
    cancelLoop ref q = (q.find? fun acc => acc.ref = ref, q.eraseP fun acc => acc.ref = ref) := by
  induction q with
  | nil => rfl
  | cons acc q ih =>
    unfold cancelLoop
    by_cases h : acc.ref = ref
    · simp [h]
    · simp [h, ih]

theorem nodup_joined {κ : Type*} {f : Acceptor → κ} {q : List Acceptor} {a : Acceptor} (hn : (q.map f).Nodup)
    (hnew : ∀ b ∈ q, f b ≠ f a) : ((q ++ [a]).map f).Nodup := by
  rw [List.map_append]
  refine List.nodup_append.2 ⟨hn, by simp, ?_⟩
  intro x hx y hy
  obtain ⟨b, hb, rfl⟩ := List.mem_map.1 hx
  obtain rfl := List.mem_singleton.1 hy
  exact hnew b hb

/-- One rule for each way a step can end. -/
inductive Step (l : Listener) : ListenerEvent → List ListenerEffect → Listener → Prop
  | acceptBadarg {p buf m} : decodeBinary buf = .none → Step l (.accept p buf m) [.reply .badarg] l
  | acceptQueued {p buf ref} : decodeBinary buf = .some ref →
      Step l (.accept p buf true) [.addMonitor p true, .reply (.okRef ref)]
        { l with acceptorQueue := l.acceptorQueue ++ [⟨p, ref⟩] }
  | acceptRefused {p buf ref} : decodeBinary buf = .some ref →
      Step l (.accept p buf false) [.addMonitor p false, .reply .empty] l
  | cancelBadarg {p buf} : decodeBinary buf = .none → Step l (.cancelAccept p buf) [.reply .badarg] l
  | cancelFound {p buf ref acc} : decodeBinary buf = .some ref →
      l.acceptorQueue.find? (fun acc => acc.ref = ref) = .some acc →
      Step l (.cancelAccept p buf) [.delMonitor acc.caller, .reply .empty]
        { l with acceptorQueue := l.acceptorQueue.eraseP fun acc => acc.ref = ref }
  | cancelUnknown {p buf ref} : decodeBinary buf = .some ref → (∀ acc ∈ l.acceptorQueue, acc.ref ≠ ref) →
      Step l (.cancelAccept p buf) [.reply .empty] l
  | exited {p} : Step l (.processExited p) [] (l.processExited p)
  | arrived {d o l'} : Incoming l d o l' → Step l (.inputReady d) o l'
  | closed {p} : Step l (.close p) [.reply .ok] l
  | peername {p} : Step l (.peername p) [.reply (.error .enotconn)] l
  | notConnected {p} : Step l (.outputv p) [.sendReply p (.error .enotconn)] l

theorem accept_step (l : Listener) (p : Pid) (buf : EiBuf) (m : Bool) :
    Step l (.accept p buf m) (l.accept p buf m).2 (l.accept p buf m).1 := by
  unfold accept
  split
  · next hd => exact .acceptBadarg hd
  · next ref hd =>
    cases m with
    | true => exact .acceptQueued hd
    | false => exact .acceptRefused hd

theorem cancelAccept_step (l : Listener) (p : Pid) (buf : EiBuf) :
    Step l (.cancelAccept p buf) (l.cancelAccept buf).2 (l.cancelAccept buf).1 := by
  unfold cancelAccept
  split
  · next hd => exact .cancelBadarg hd
  · next ref hd =>
    rw [cancelLoop_eq]
    cases hf : l.acceptorQueue.find? fun acc => acc.ref = ref with
    | some acc => exact .cancelFound hd hf
    | none =>
      have hne : ∀ acc ∈ l.acceptorQueue, acc.ref ≠ ref := by simpa using hf
      have hq : (l.acceptorQueue.eraseP fun acc => acc.ref = ref) = l.acceptorQueue :=
        List.eraseP_of_forall_not fun acc hacc => by simpa using hne acc hacc
      simp only [hq]
      exact .cancelUnknown hd hne

theorem machine_step {l l' : Listener} {e : ListenerEvent} {o : List ListenerEffect}
    (hm : machine l e = .some (l', o)) : Step l e o l' := by
  cases e with
  | accept p buf m =>
    obtain ⟨rfl, rfl⟩ := Prod.mk.inj (Option.some.inj hm)
    exact accept_step l p buf m
  | cancelAccept p buf =>
    obtain ⟨rfl, rfl⟩ := Prod.mk.inj (Option.some.inj hm)
    exact cancelAccept_step l p buf
  | inputReady d => exact .arrived (inputReady_incoming hm)
  | processExited p =>
    obtain ⟨rfl, rfl⟩ := Prod.mk.inj (Option.some.inj hm)
    exact .exited
  | close p =>
    obtain ⟨rfl, rfl⟩ := Prod.mk.inj (Option.some.inj hm)
    exact .closed
  | peername p =>
    obtain ⟨rfl, rfl⟩ := Prod.mk.inj (Option.some.inj hm)
    exact .peername
  | outputv p =>
    obtain ⟨rfl, rfl⟩ := Prod.mk.inj (Option.some.inj hm)
    exact .notConnected

end Listener

end GenUtp
