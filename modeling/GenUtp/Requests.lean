/-
The requests of a port: `MainHandler::control`, and the `control` functions
of the handler it delegates to.

A port begins with no delegatee. `listen` and `connect_start` decode their
options, open a UDP socket bound to a local address, and leave a listener or
a client; every later request goes to it. Of `open_udp_socket` only the
`bind` is noted among the effects. A request is `none` where the driver reads
or writes past a buffer, or lets an exception out.
-/
import GenUtp.Lifecycle
import GenUtp.Listener

namespace GenUtp

open UtpHandler

/-! ## Socket addresses -/

/-- `AF_INET` or `AF_INET6`. -/
inductive Family
  | inet
  | inet6
  deriving DecidableEq, Repr

/-- The bytes of an `in_addr` or an `in6_addr`. -/
abbrev Host := List UInt8

structure SockAddr where
  family : Family
  host : Host
  port : Nat
  deriving DecidableEq, Repr

/-- What `getaddrinfo` makes of an address text under `AI_NUMERICHOST`. -/
abbrev GetAddrInfo := List UInt8 → Option (Family × Host)

def GetAddrInfo.numericHost (g : GetAddrInfo) (text : List UInt8) : Bool := (g text).isSome

/-- `from_addrport`; `none` is the exception `BadSockAddr`. The port is an
`unsigned short`. -/
def fromAddrport (g : GetAddrInfo) (addrstr : List UInt8) (port : Nat) : Option SockAddr :=
  (g addrstr).map fun r => ⟨r.1, r.2, port % 2 ^ 16⟩

/-- `INADDR_ANY` -/
def inaddrAny : Host := [0, 0, 0, 0]

/-- `"::"` -/
def in6AnyText : List UInt8 := [58, 58]

/-- The local address `listen` and `connect_start` bind; `opts.fd` is never
set. -/
def localAddr (g : GetAddrInfo) (opts : SockOpts) : Option SockAddr :=
  if opts.addrSet then opts.addr.bind fun a => fromAddrport g a.1 a.2
  else if opts.inet6 then fromAddrport g in6AnyText 0
  else .some ⟨.inet, inaddrAny, opts.port % 2 ^ 16⟩

/-! ## `listen` and `connect_start` -/

inductive Delegatee
  | utp (h : UtpHandler)
  | listener (l : Listener)
  deriving DecidableEq, Repr

structure MainHandler where
  delegatee : Option Delegatee
  deriving DecidableEq, Repr

inductive PortEffect
  | utp (x : Effect)
  | listener (x : ListenerEffect)
  | bind (addr : SockAddr)
  | reply (r : Reply)
  deriving DecidableEq, Repr

/-- What the calls of `listen` and `connect_start` answer: those of
`open_udp_socket`, whether the `getsockname` of the listener's constructor
succeeds, and the socket `UTP_Create` returns. -/
structure StartCalls where
  opening : OpenCalls
  getsockname : Bool
  utpCreate : UTPSocket

/-- `erl_errno_id` of a positive `errno`. -/
def errnoOf (n : Int) : Errno :=
  if n = 22 then .einval else if n = 104 then .econnreset else if n = 107 then .enotconn
  else if n = 110 then .etimedout else .other n.toNat

/-- The `bind` of `open_udp_socket`, when it gets there. -/
def bindCall (c : OpenCalls) (reuseaddr : Bool) (addr : SockAddr) : List PortEffect :=
  match c.socket, c.fcntl, if reuseaddr then c.setsockopt else .ok () with
  | .ok _, .ok (), .ok () => [.bind addr]
  | _, _, _ => []

namespace MainHandler

def new : MainHandler := ⟨.none⟩

def listen (g : GetAddrInfo) (buf : EiBuf) (c : StartCalls) : Option (MainHandler × List PortEffect) :=
  match decodeBinary buf with
  | .none => .some (new, [.reply .badarg])
  | .some binopts =>
    match SockOpts.decode g.numericHost .new binopts with
    | .error _ => .none
    | .ok (opts, _) =>
      (localAddr g opts).bind fun addr =>
        let err := (openUdpSocket c.opening true).result
        if err ≠ 0 then .some (new, bindCall c.opening true addr ++ [.reply (.error (errnoOf err))])
        else if c.getsockname then
          .some (⟨.some (.listener (.new opts))⟩, bindCall c.opening true addr ++ [.reply .ok])
        else .none

/-- The argument of `connect_start`, `{Addr, Port, Options}`. The outer
`none` is an address too long for `addrstr`. -/
def decodeConnectStart (buf : EiBuf) : Option (Option (List UInt8 × Nat × List UInt8)) :=
  let addr : Option (List UInt8 × EiBuf) := do
    let d ← EiDecoder.start buf
    let (arity, d) ← EiDecoder.tupleHeader d
    if arity ≠ 3 then .none else EiDecoder.string d
  match addr with
  | .none => .some .none
  | .some (addrstr, d) =>
    if addrstr.length < SockOpts.inet6Addrstrlen then
      .some do
        let (addrport, d) ← EiDecoder.ulongval d
        let (binopts, _) ← EiDecoder.binary d
        .some (addrstr, addrport, binopts)
    else .none

def connectStart (g : GetAddrInfo) (buf : EiBuf) (c : StartCalls) : Option (MainHandler × List PortEffect) :=
  (decodeConnectStart buf).bind fun
    | .none => .some (new, [.reply .badarg])
    | .some (addrstr, addrport, binopts) =>
      match fromAddrport g (addrstr.takeWhile (· ≠ 0)) addrport with
      | .none => .some (new, [.reply .badarg])
      | .some _ =>
        match SockOpts.decode g.numericHost .new binopts with
        | .error _ => .none
        | .ok (opts, _) =>
          (localAddr g opts).bind fun addr =>
            let err := (openUdpSocket c.opening false).result
            if err ≠ 0 then .some (new, bindCall c.opening false addr ++ [.reply (.error (errnoOf err))])
            else .some (⟨.some (.utp (startClient opts c.utpCreate))⟩, bindCall c.opening false addr ++ [.reply .ok])

end MainHandler

/-! ## `control` -/

/-- A request, with its argument and what the calls it makes answer. -/
inductive Request
  | listen (buf : EiBuf) (c : StartCalls)
  | connectStart (buf : EiBuf) (c : StartCalls)
  | connectValidate (buf : EiBuf)
  | close (buf : EiBuf)
  | accept (buf : EiBuf) (monitored : Bool)
  | cancelAccept (buf : EiBuf)
  | cancelSend
  | sockname (addr : Except Errno (String × Nat))
  | peername (addr : Except Errno (String × Nat))
  | setopts (buf : EiBuf) (mem : Mem)
  | getopts (buf : EiBuf)
  | recv (buf : EiBuf) (mem : Mem)
  | cancelRecv

/-- `SocketHandler::sockname` -/
def sockname : Except Errno (String × Nat) → Reply
  | .ok (host, port) => .addr host port
  | .error e => .error e

namespace Listener

/-- `SocketHandler::setopts` on a listener, whose driver queue is empty: a
delivery sends nothing. -/
def setopts (l : Listener) (buf : EiBuf) (numericHost : List UInt8 → Bool) : Option (Listener × Reply) :=
  match decodeBinary buf with
  | .none => .some (l, .badarg)
  | .some binopts =>
    match l.sockopts.decodeAndMerge numericHost binopts with
    | .error .invalidArgument => .some (l, .badarg)
    | .error _ => .none
    | .ok opts => .some ({ l with sockopts := opts }, .ok)

def getopts (l : Listener) (buf : EiBuf) : Reply :=
  match decodeBinary buf with
  | .none => .badarg
  | .some binopts =>
    match binopts.mapM (getopt l.sockopts) with
    | .none => .error .einval
    | .some opts => .opts opts

/-- `Listener::control` -/
def control (g : GetAddrInfo) (l : Listener) (p : Pid) (r : Request) : Option (Listener × List PortEffect) :=
  let run (e : ListenerEvent) := (machine l e).map fun (l', o) => (l', o.map .listener)
  match r with
  | .accept buf monitored => run (.accept p buf monitored)
  | .cancelAccept buf => run (.cancelAccept p buf)
  | .close _ => run (.close p)
  | .peername _ => run (.peername p)
  | .sockname addr => .some (l, [.reply (GenUtp.sockname addr)])
  | .setopts buf _ => (l.setopts buf g.numericHost).map fun (l', r) => (l', [.reply r])
  | .getopts buf => .some (l, [.reply (l.getopts buf)])
  | .recv _ _ => .some (l, [.reply (.error .enotconn)])
  | .listen _ _ | .connectStart _ _ | .connectValidate _ | .cancelSend | .cancelRecv =>
    .some (l, [.reply .general])

end Listener

/-- `Client::control` and `UtpHandler::control` -/
def UtpHandler.control (g : GetAddrInfo) (h : UtpHandler) (p : Pid) (r : Request) :
    Option (UtpHandler × List PortEffect) :=
  let run (e : Event) := (machine h e).map fun (h', o) => (h', o.map .utp)
  match r with
  | .connectValidate buf => run (.connectValidate p buf)
  | .close buf => run (.close p buf)
  | .cancelSend => run (.cancelSend p)
  | .peername addr => run (.peername p addr)
  | .sockname addr => .some (h, [.reply (GenUtp.sockname addr)])
  | .setopts buf mem => run (.setopts p buf g.numericHost mem)
  | .getopts buf => run (.getopts p buf)
  | .recv buf mem => run (.recv p buf mem)
  | .cancelRecv => run (.cancelRecv p)
  | .listen _ _ | .connectStart _ _ | .accept _ _ | .cancelAccept _ => .some (h, [.reply .general])

/-- `ENOTSUP` -/
def enotsup : Errno := .other 95

/-- `MainHandler::control` -/
def MainHandler.control (g : GetAddrInfo) (m : MainHandler) (p : Pid) (r : Request) :
    Option (MainHandler × List PortEffect) :=
  match m.delegatee with
  | .some (.utp h) => (h.control g p r).map fun (h', o) => (⟨.some (.utp h')⟩, o)
  | .some (.listener l) => (l.control g p r).map fun (l', o) => (⟨.some (.listener l')⟩, o)
  | .none =>
    match r with
    | .listen buf c => listen g buf c
    | .connectStart buf c => connectStart g buf c
    | _ => .some (m, [.reply (.error enotsup)])

/-! ## Rejected requests -/

/-- A `BADARG` answer. -/
def PortEffect.isBadarg : PortEffect → Bool
  | .utp (.reply .badarg) | .listener (.reply .badarg) | .reply .badarg => true
  | _ => false

namespace UtpHandler

variable {h h' : UtpHandler} {o : List Effect} {p : Pid} {buf : EiBuf} {mem : Mem}

/-- An effect that is no answer. -/
def silent : Effect → Bool
  | .reply _ => false
  | _ => true

theorem Emission.silent {len : Nat} {receiver : Receiver} {qsize : Nat} {sent : Bool} {q : Nat}
    (he : Emission h len receiver qsize mem sent q o h') : o.all UtpHandler.silent = true := by
  cases he with
  | closed | held => rfl
  | sent => exact all_dataMessages _ _ _ fun m => by cases receiver <;> rfl

theorem not_badarg_of_silent (ho : o.all silent = true) : .reply .badarg ∉ o := by
  intro hb
  have := List.all_eq_true.1 ho _ hb
  cases this

theorem recv_badarg (hs : Step h (.recv p buf mem) o h') (hb : .reply .badarg ∈ o) :
    h' = h ∧ o = [.reply .badarg] := by
  cases hs with
  | recvBadarg => exact ⟨rfl, rfl⟩
  | recvSent _ _ he =>
    have hd := fun q => not_badarg_of_silent (all_drainedCall h.utp q (P := silent) rfl)
    simp [not_badarg_of_silent he.silent, hd] at hb
  | recvParked _ _ he => simp [not_badarg_of_silent he.silent] at hb

theorem setopts_badarg {numericHost : List UInt8 → Bool} (hs : Step h (.setopts p buf numericHost mem) o h')
    (hb : .reply .badarg ∈ o) : h' = h ∧ o = [.reply .badarg] := by
  cases hs with
  | setoptsBadarg => exact ⟨rfl, rfl⟩
  | setoptsQuiet =>
    have hset := fun so => not_badarg_of_silent (all_bufferSets h.utp h.sockopts so (P := silent) fun _ _ => rfl)
    simp [hset] at hb
  | setoptsEmit _ _ _ he =>
    have hset := fun so => not_badarg_of_silent (all_bufferSets h.utp h.sockopts so (P := silent) fun _ _ => rfl)
    simp [not_badarg_of_silent he.silent, hset] at hb

theorem other_badarg {e : Event} (hs : Step h e o h') (hb : .reply .badarg ∈ o)
    (he : (∃ buf, e = .getopts p buf) ∨ (∃ buf, e = .connectValidate p buf) ∨ e = .cancelSend p ∨ e = .cancelRecv p) :
    h' = h ∧ o = [.reply .badarg] := by
  rcases he with ⟨buf, rfl⟩ | ⟨buf, rfl⟩ | rfl | rfl
  · cases hs with
    | getopts =>
      obtain rfl := Effect.reply.inj (List.mem_singleton.1 hb)
      exact ⟨rfl, rfl⟩
  · cases hs with
    | validateAnswered =>
      obtain rfl := Effect.reply.inj (List.mem_singleton.1 hb)
      exact ⟨rfl, rfl⟩
    | validateWaits | validateFailed => simp at hb
  · cases hs with
    | cancelSend => simp at hb
  · cases hs with
    | cancelRecv => simp at hb

/-- `peername` has no argument to refuse. -/
theorem peername_badarg {addr : Except Errno (String × Nat)} (hm : machine h (.peername p addr) = .some (h', o)) :
    .reply .badarg ∉ o := by
  simp only [machine, handle, peername, Option.map_some, Option.some.injEq, Prod.mk.injEq] at hm
  obtain ⟨-, rfl⟩ := hm
  split
  · simp [emit]
  · cases addr <;> simp [emit]

/-- A refused `close` has set its flags, if the connection was open. -/
theorem close_badarg (hs : Step h (.close p buf) o h') (hb : .reply .badarg ∈ o) :
    h.closeOpens ∧ h' = h.opened ∧ o = [.reply .badarg] := by
  cases hs with
  | closeAnswered => simp at hb
  | closeBadarg ho => exact ⟨ho, rfl, rfl⟩
  | closeOpened _ _ hc => cases hc <;> simp at hb

theorem opened_ne (ho : h.closeOpens) : h.opened ≠ h := by
  intro heq
  have hp : h.opened.closePending = h.closePending := by rw [heq]
  rw [ho.1] at hp
  cases hp

end UtpHandler

section

variable {g : GetAddrInfo} {m m' : MainHandler} {p : Pid} {r : Request} {o : List PortEffect}

theorem badarg_mem {α : Type} {f : α → PortEffect} {y : α} {o : List α} (hy : ∀ x, (f x).isBadarg = true → x = y)
    (hb : (o.map f).any PortEffect.isBadarg = true) : y ∈ o := by
  simp only [List.any_map, List.any_eq_true, Function.comp_apply] at hb
  obtain ⟨x, hx, hbad⟩ := hb
  exact hy x hbad ▸ hx

theorem badarg_utp {o : List Effect} (hb : (o.map PortEffect.utp).any PortEffect.isBadarg = true) :
    .reply .badarg ∈ o := by
  refine badarg_mem (fun x hx => ?_) hb
  unfold PortEffect.isBadarg at hx
  split at hx <;> simp_all

/-- The requests a connection's handler answers itself, as events. -/
inductive Forwards (g : GetAddrInfo) (p : Pid) : Request → Event → Prop
  | connectValidate {buf} : Forwards g p (.connectValidate buf) (.connectValidate p buf)
  | close {buf} : Forwards g p (.close buf) (.close p buf)
  | cancelSend : Forwards g p .cancelSend (.cancelSend p)
  | peername {addr} : Forwards g p (.peername addr) (.peername p addr)
  | setopts {buf mem} : Forwards g p (.setopts buf mem) (.setopts p buf g.numericHost mem)
  | getopts {buf} : Forwards g p (.getopts buf) (.getopts p buf)
  | recv {buf mem} : Forwards g p (.recv buf mem) (.recv p buf mem)
  | cancelRecv : Forwards g p .cancelRecv (.cancelRecv p)

theorem UtpHandler.control_cases {h h' : UtpHandler} (hc : h.control g p r = .some (h', o)) :
    (h' = h ∧ o.any PortEffect.isBadarg = false) ∨
      ∃ e a, Forwards g p r e ∧ machine h e = .some (h', a) ∧ o = a.map .utp := by
  have run : ∀ {e : Event}, Forwards g p r e →
      ((machine h e).map fun r => (r.1, r.2.map PortEffect.utp)) = .some (h', o) →
      ∃ e a, Forwards g p r e ∧ machine h e = .some (h', a) ∧ o = a.map .utp := by
    intro e hf hmap
    obtain ⟨⟨h'', a⟩, hm, heq⟩ := Option.map_eq_some_iff.1 hmap
    obtain ⟨rfl, rfl⟩ := Prod.mk.inj heq
    exact ⟨e, a, hf, hm, rfl⟩
  cases r with
  | listen | connectStart | accept | cancelAccept =>
    cases hc
    exact .inl ⟨rfl, rfl⟩
  | sockname addr =>
    cases hc
    cases addr <;> exact .inl ⟨rfl, rfl⟩
  | connectValidate => exact .inr (run .connectValidate hc)
  | close => exact .inr (run .close hc)
  | cancelSend => exact .inr (run .cancelSend hc)
  | peername => exact .inr (run .peername hc)
  | setopts => exact .inr (run .setopts hc)
  | getopts => exact .inr (run .getopts hc)
  | recv => exact .inr (run .recv hc)
  | cancelRecv => exact .inr (run .cancelRecv hc)

/-- What a refusal leaves of a connection's handler: a `close` has set its
flags. -/
theorem UtpHandler.control_badarg {h h' : UtpHandler} (hc : h.control g p r = .some (h', o))
    (hb : o.any PortEffect.isBadarg = true) : (∀ x ∈ o, x.isBadarg = true) ∧
      (h' = h ∧ (∀ buf, r ≠ .close buf) ∨ h.closeOpens ∧ h' = h.opened ∧ ∃ buf, r = .close buf) := by
  rcases control_cases hc with ⟨-, hnot⟩ | ⟨e, a, hf, hm, rfl⟩
  · rw [hnot] at hb
    cases hb
  have hbad := badarg_utp hb
  have refused : a = [.reply .badarg] → ∀ x ∈ a.map PortEffect.utp, x.isBadarg = true := by
    rintro rfl
    simp [PortEffect.isBadarg]
  have hs := machine_step hm
  cases hf with
  | close =>
    obtain ⟨ho, rfl, ha⟩ := close_badarg hs hbad
    exact ⟨refused ha, .inr ⟨ho, rfl, _, rfl⟩⟩
  | peername => exact absurd hbad (peername_badarg hm)
  | setopts =>
    obtain ⟨rfl, ha⟩ := setopts_badarg hs hbad
    exact ⟨refused ha, .inl ⟨rfl, by simp⟩⟩
  | recv =>
    obtain ⟨rfl, ha⟩ := recv_badarg hs hbad
    exact ⟨refused ha, .inl ⟨rfl, by simp⟩⟩
  | getopts =>
    obtain ⟨rfl, ha⟩ := other_badarg hs hbad (.inl ⟨_, rfl⟩)
    exact ⟨refused ha, .inl ⟨rfl, by simp⟩⟩
  | connectValidate =>
    obtain ⟨rfl, ha⟩ := other_badarg hs hbad (.inr (.inl ⟨_, rfl⟩))
    exact ⟨refused ha, .inl ⟨rfl, by simp⟩⟩
  | cancelSend =>
    obtain ⟨rfl, ha⟩ := other_badarg hs hbad (.inr (.inr (.inl rfl)))
    exact ⟨refused ha, .inl ⟨rfl, by simp⟩⟩
  | cancelRecv =>
    obtain ⟨rfl, ha⟩ := other_badarg hs hbad (.inr (.inr (.inr rfl)))
    exact ⟨refused ha, .inl ⟨rfl, by simp⟩⟩

theorem badarg_listener {o : List ListenerEffect} (hb : (o.map PortEffect.listener).any PortEffect.isBadarg = true) :
    .reply .badarg ∈ o := by
  refine badarg_mem (fun x hx => ?_) hb
  unfold PortEffect.isBadarg at hx
  split at hx <;> simp_all

/-- A refusal leaves a listener as it was. -/
theorem Listener.control_badarg {l l' : Listener} (hc : l.control g p r = .some (l', o))
    (hb : o.any PortEffect.isBadarg = true) : l' = l ∧ ∀ x ∈ o, x.isBadarg = true := by
  have run : ∀ e : ListenerEvent, (∀ d, e ≠ .inputReady d) →
      ((machine l e).map fun r => (r.1, r.2.map PortEffect.listener)) = .some (l', o) →
      l' = l ∧ ∀ x ∈ o, x.isBadarg = true := by
    intro e harr hmap
    obtain ⟨⟨l'', a⟩, hm, heq⟩ := Option.map_eq_some_iff.1 hmap
    obtain ⟨rfl, rfl⟩ := Prod.mk.inj heq
    have hbad := badarg_listener hb
    cases machine_step hm with
    | acceptBadarg | cancelBadarg => exact ⟨rfl, by simp [PortEffect.isBadarg]⟩
    | arrived => exact absurd rfl (harr _)
    | _ => simp at hbad
  cases r with
  | accept buf monitored => exact run (.accept p buf monitored) (by simp) hc
  | cancelAccept buf => exact run (.cancelAccept p buf) (by simp) hc
  | close => exact run (.close p) (by simp) hc
  | peername => exact run (.peername p) (by simp) hc
  | listen | connectStart | connectValidate | cancelSend | cancelRecv | recv =>
    cases hc
    cases hb
  | sockname addr =>
    cases hc
    cases addr <;> cases hb
  | getopts buf =>
    cases hc
    refine ⟨rfl, ?_⟩
    simpa using hb
  | setopts buf mem =>
    obtain ⟨⟨l'', reply⟩, hset, heq⟩ := Option.map_eq_some_iff.1 hc
    obtain ⟨rfl, rfl⟩ := Prod.mk.inj heq
    refine ⟨?_, by simpa using hb⟩
    unfold setopts at hset
    split at hset
    · cases hset
      rfl
    split at hset <;> cases hset
    · rfl
    · simp [PortEffect.isBadarg] at hb

/-- The options `bin` decode to are bound, and the answer is no refusal. -/
def Binds (g : GetAddrInfo) (bin : List UInt8) (c : StartCalls) (reuseaddr : Bool) (o : List PortEffect) : Prop :=
  ∃ opts names addr r, SockOpts.decode g.numericHost .new bin = .ok (opts, names) ∧ localAddr g opts = .some addr ∧
    r ≠ .badarg ∧ o = bindCall c.opening reuseaddr addr ++ [.reply r]

theorem Binds.not_badarg {bin : List UInt8} {c : StartCalls} {reuse : Bool} (hs : Binds g bin c reuse o) :
    o.any PortEffect.isBadarg = false := by
  obtain ⟨opts, names, addr, r, -, -, hr, rfl⟩ := hs
  have hcall : (bindCall c.opening reuse addr).any PortEffect.isBadarg = false := by
    unfold bindCall
    split <;> rfl
  rw [List.any_append, hcall]
  cases r <;> first | rfl | exact absurd rfl hr

namespace MainHandler

variable {buf : EiBuf} {c : StartCalls}

/-- `listen` refuses its argument before anything else, or binds. -/
theorem listen_cases (hl : listen g buf c = .some (m', o)) :
    (m' = new ∧ o = [.reply .badarg]) ∨ ∃ bin, decodeBinary buf = .some bin ∧ Binds g bin c true o := by
  unfold listen at hl
  split at hl
  · cases hl
    exact .inl ⟨rfl, rfl⟩
  next bin hbin =>
  split at hl
  · cases hl
  next opts names hd =>
  obtain ⟨addr, ha, hl⟩ := Option.bind_eq_some_iff.1 hl
  dsimp only at hl
  split at hl
  · cases hl
    exact .inr ⟨bin, hbin, opts, names, addr, _, hd, ha, by simp, rfl⟩
  split at hl <;> cases hl
  exact .inr ⟨bin, hbin, opts, names, addr, _, hd, ha, by simp, rfl⟩

theorem connectStart_cases (hl : connectStart g buf c = .some (m', o)) : (m' = new ∧ o = [.reply .badarg]) ∨
    ∃ addrstr port bin, decodeConnectStart buf = .some (.some (addrstr, port, bin)) ∧ Binds g bin c false o := by
  obtain ⟨arg, harg, hl⟩ := Option.bind_eq_some_iff.1 hl
  dsimp only at hl
  split at hl
  · cases hl
    exact .inl ⟨rfl, rfl⟩
  next addrstr port bin =>
  split at hl
  · cases hl
    exact .inl ⟨rfl, rfl⟩
  split at hl
  · cases hl
  next opts names hd =>
  obtain ⟨addr, ha, hl⟩ := Option.bind_eq_some_iff.1 hl
  split at hl <;> cases hl <;> exact .inr ⟨addrstr, port, bin, harg, opts, names, addr, _, hd, ha, by simp, rfl⟩

/-- The request is a `close` that finds the connection open. -/
def ClosesOpen (m : MainHandler) (r : Request) : Prop :=
  ∃ h buf, m.delegatee = .some (.utp h) ∧ r = .close buf ∧ h.closeOpens

/-- Nothing has changed, and nothing but the refusal was put out. -/
def Untouched (m m' : MainHandler) (o : List PortEffect) : Prop := m' = m ∧ ∀ x ∈ o, x.isBadarg = true

/-- **A refusal changes nothing, unless it refuses the `close` of an open
connection.** -/
theorem badarg_changes_nothing (hc : m.control g p r = .some (m', o)) (hb : o.any PortEffect.isBadarg = true) :
    m.Untouched m' o ↔ ¬m.ClosesOpen r := by
  unfold control at hc
  split at hc
  · next h hd =>
    obtain ⟨⟨h', a⟩, hcon, heq⟩ := Option.map_eq_some_iff.1 hc
    obtain ⟨rfl, rfl⟩ := Prod.mk.inj heq
    obtain ⟨hall, ⟨rfl, hr⟩ | ⟨ho, rfl, buf, rfl⟩⟩ := UtpHandler.control_badarg hcon hb
    · refine iff_of_true ⟨by rw [← hd], hall⟩ ?_
      intro hcl
      obtain ⟨_, buf, -, hclose, -⟩ := hcl
      exact hr buf hclose
    · refine iff_of_false ?_ (not_not.2 ⟨h, buf, hd, rfl, ho⟩)
      intro hcl
      obtain ⟨heq, -⟩ := hcl
      rw [← heq] at hd
      exact opened_ne ho (Delegatee.utp.inj (Option.some.inj hd))
  · next l hd =>
    obtain ⟨⟨l', a⟩, hcon, heq⟩ := Option.map_eq_some_iff.1 hc
    obtain ⟨rfl, rfl⟩ := Prod.mk.inj heq
    obtain ⟨rfl, hall⟩ := Listener.control_badarg hcon hb
    refine iff_of_true ⟨by rw [← hd], hall⟩ ?_
    intro hcl
    obtain ⟨h, buf, hutp, -⟩ := hcl
    rw [hd] at hutp
    cases hutp
  · next hd =>
    have hnew : m = new := by rw [new, ← hd]
    have hnot : ¬m.ClosesOpen r := by
      intro hcl
      obtain ⟨h, buf, hutp, -⟩ := hcl
      rw [hd] at hutp
      cases hutp
    refine iff_of_true ?_ hnot
    split at hc
    · next buf c =>
      obtain ⟨rfl, rfl⟩ | ⟨bin, -, hbinds⟩ := listen_cases hc
      · exact ⟨hnew.symm, by simp [PortEffect.isBadarg]⟩
      · rw [hbinds.not_badarg] at hb
        cases hb
    · next buf c =>
      obtain ⟨rfl, rfl⟩ | ⟨addrstr, port, bin, -, hbinds⟩ := connectStart_cases hc
      · exact ⟨hnew.symm, by simp [PortEffect.isBadarg]⟩
      · rw [hbinds.not_badarg] at hb
        cases hb
    · cases hc
      cases hb

theorem badarg_changes_nothing_accept :
    Untouched ⟨.some (.listener (.new .new))⟩ ⟨.some (.listener (.new .new))⟩ [.listener (.reply .badarg)] ↔
      ¬ClosesOpen ⟨.some (.listener (.new .new))⟩ (.accept [] true) :=
  have hc : control (fun _ => .none) ⟨.some (.listener (.new .new))⟩ 7 (.accept [] true) =
      .some (⟨.some (.listener (.new .new))⟩, [.listener (.reply .badarg)]) := rfl
  badarg_changes_nothing hc rfl

/-- A `close` with no argument at all leaves a connection closing, with its
close pending. -/
theorem refused_close_marks : ∃ h₀ t h m', Started h₀ ∧ Runs.Run machine (fun _ _ _ => True) [] h₀ t h ∧
    h.status = .connected ∧ MainHandler.control (fun _ => .none) ⟨.some (.utp h)⟩ 7 (.close []) =
      .some (m', [.utp (.reply .badarg)]) ∧ m' ≠ ⟨.some (.utp h)⟩ := by
  have w : UtpWrite := ⟨fun _ => [], fun _ => true⟩
  refine ⟨startClient .new 0, _, _, ⟨.some (.utp (startClient .new 0).stateConnect.opened)⟩, .client _ _,
    (Runs.Run.start machine (fun _ _ _ => True) (startClient .new 0)).next (.stateChange .connect w) trivial
      (r := ((startClient .new 0).stateConnect, [])) rfl, rfl, rfl, ?_⟩
  intro heq
  exact opened_ne (by exact ⟨rfl, .inr ⟨by decide, by decide⟩⟩)
    (Delegatee.utp.inj (Option.some.inj (MainHandler.mk.inj heq)))

end MainHandler

end

end GenUtp
