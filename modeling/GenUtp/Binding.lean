/-
The local address of a port: from the arguments of `gen_utp:listen` and
`gen_utp:connect` to the `bind` of the driver.

`listen` puts its port in front of the options as one more, `connect` has it
among them; both are validated, encoded, decoded and bound. Three of the four
branches of `MainHandler::listen` and `connect_start` use the port of the
options, the one for the IPv6 wildcard says 0 (`binds_as_asked`).
-/
import Mathlib.Data.List.TakeWhile
import GenUtp.Requests
import GenUtp.Options

namespace GenUtp

open UtpOptions

/-! ## The Erlang side -/

/-- `{port, Port}` -/
def portOpt (port : Fin 65536) : ErlTerm := .tuple [.atom .port, .int port.val]

/-- The argument of `UTP_LISTEN`, as `listen(Port, Options)` builds it. -/
def listenArgs (inet : Inet) (port : Fin 65536) (options : List ErlTerm) : Option EiBuf := do
  let o ← validate inet (portOpt port :: options)
  let bin ← o.optionsToBinary
  .some [.version, .binary bin]

/-- The text of the address to connect to. -/
def addrStr (inet : Inet) (addr : ErlTerm) : Option (List UInt8) :=
  let listAddr := match addr with
    | .tuple _ => (inet.ntoa addr).map ErlTerm.string
    | _ => .some addr
  listAddr.bind fun listAddr =>
    match inet.getaddr listAddr .inet with
    | .some addrTuple => inet.ntoa addrTuple
    | .none => (inet.getaddr listAddr .inet6).bind inet.ntoa

/-- The argument of `UTP_CONNECT_START`, as `connect(Addr, Port, Opts)` builds
it. -/
def connectArgs (inet : Inet) (addr : ErlTerm) (port : Fin 65536) (opts : List ErlTerm) : Option EiBuf := do
  let text ← addrStr inet addr
  let o ← validate inet opts
  let bin ← o.optionsToBinary
  .some [.version, .tuple 3, .string text, .int port.val, .binary bin]

/-! ## What is asked for -/

/-- The address an `ip` or `ifaddr` option stands for, and its family. -/
def resolve (inet : Inet) (ip : ErlTerm) : Option (Family × ErlTerm) :=
  let listAddr := match ip with
    | .tuple _ => (inet.ntoa ip).map ErlTerm.string
    | .list _ => .some ip
    | _ => .none
  listAddr.bind fun listAddr =>
    match inet.getaddr listAddr .inet with
    | .some addr => .some (.inet, addr)
    | .none => (inet.getaddr listAddr .inet6).map fun addr => (.inet6, addr)

/-- `in6addr_any` -/
def in6addrAny : Host := List.replicate 16 0

/-- The local address some options ask for. -/
inductive Asks (inet : Inet) (port : Nat) (opts : List ErlTerm) : SockAddr → Prop
  | address {ip f addr} : given [.ip, .ifaddr] opts = .some ip → resolve inet ip = .some (f, addr) →
      Asks inet port opts ⟨f, inet.host addr, port⟩
  | anyInet6 : given [.ip, .ifaddr] opts = .none → lastFamily opts = .some .inet6 →
      Asks inet port opts ⟨.inet6, in6addrAny, port⟩
  | anyInet : given [.ip, .ifaddr] opts = .none → lastFamily opts ≠ .some .inet6 →
      Asks inet port opts ⟨.inet, inaddrAny, port⟩

variable {inet : Inet} {g : GetAddrInfo} {port : Fin 65536} {opts : List ErlTerm} {o : UtpOptions} {addr : SockAddr}

/-! ## What is bound -/

/-- The calls up to `bind` succeed, and the constructor of a listener does. -/
structure ReachesBind (c : StartCalls) : Prop where
  socket : ∃ fd, c.opening.socket = .ok fd
  fcntl : c.opening.fcntl = .ok ()
  setsockopt : c.opening.setsockopt = .ok ()
  getsockname : c.getsockname = true

/-- A request on a new port binds `addr`, and nothing else. -/
def RequestBinds (g : GetAddrInfo) (r : StartCalls → Request) (addr : SockAddr) : Prop :=
  ∀ p c, ReachesBind c → ∃ m' o, MainHandler.control g .new p (r c) = .some (m', o) ∧ ∀ a, .bind a ∈ o ↔ a = addr

theorem bindCall_reached {c : StartCalls} (hc : ReachesBind c) (reuseaddr : Bool) :
    bindCall c.opening reuseaddr addr = [.bind addr] := by
  obtain ⟨⟨fd, hsock⟩, hfcntl, hset, -⟩ := hc
  cases reuseaddr <;> simp [bindCall, hsock, hfcntl, hset]

theorem listen_binds {bin : List UInt8} {so : SockOpts} {names : List Opt}
    (hd : SockOpts.decode g.numericHost .new bin = .ok (so, names)) (ha : localAddr g so = .some addr) :
    RequestBinds g (.listen [.version, .binary bin]) addr := by
  intro p c hc
  have hbin : decodeBinary [.version, .binary bin] = .some bin := rfl
  simp only [MainHandler.control, MainHandler.new, MainHandler.listen, hbin, hd, ha, Option.bind_some,
    bindCall_reached hc, hc.getsockname, if_true]
  split <;> exact ⟨_, _, rfl, by simp⟩

theorem connectStart_binds (port : Fin 65536) {text bin : List UInt8} {so : SockOpts} {names : List Opt}
    {remote : Family × Host}
    (htext : 0 ∉ text ∧ text.length < SockOpts.inet6Addrstrlen) (hr : g text = .some remote)
    (hd : SockOpts.decode g.numericHost .new bin = .ok (so, names)) (ha : localAddr g so = .some addr) :
    RequestBinds g (.connectStart [.version, .tuple 3, .string text, .int port.val, .binary bin]) addr := by
  intro p c hc
  have hpos : (0 : Int) ≤ (port.val : Int) ∧ (port.val : Int) < 2 ^ 64 := by omega
  have hargs : MainHandler.decodeConnectStart [.version, .tuple 3, .string text, .int port.val, .binary bin] =
      .some (.some (text, port.val, bin)) := by
    have hval : ∀ d, EiDecoder.ulongval (.int port.val :: d) = .some (port.val, d) := fun d => by
      rw [EiDecoder.ulongval, if_pos hpos, Int.toNat_natCast]
    simp [MainHandler.decodeConnectStart, EiDecoder.start, EiDecoder.tupleHeader, EiDecoder.string, hval,
      EiDecoder.binary, htext.2]
  have hnul : text.takeWhile (· ≠ 0) = text := by
    refine List.takeWhile_eq_self_iff.2 fun b hb => ?_
    simp only [ne_eq, decide_not, Bool.not_eq_eq_eq_not, Bool.not_true, decide_eq_false_iff_not]
    rintro rfl
    exact htext.1 hb
  simp only [MainHandler.control, MainHandler.new, MainHandler.connectStart, hargs, Option.bind_some, hnul,
    fromAddrport, hr, Option.map_some, hd, ha, bindCall_reached hc]
  split <;> exact ⟨_, _, rfl, by simp⟩

theorem reachesBind : ReachesBind ⟨⟨.ok 0, .ok (), .ok (), .ok ()⟩, true, 0⟩ := ⟨⟨0, rfl⟩, rfl, rfl, rfl⟩

theorem requestBinds_iff {r : StartCalls → Request} {a : SockAddr} (h : RequestBinds g r a) :
    RequestBinds g r addr ↔ a = addr := by
  constructor
  · intro h'
    obtain ⟨m, out, hm, hout⟩ := h 0 _ reachesBind
    obtain ⟨m', out', hm', hout'⟩ := h' 0 _ reachesBind
    obtain ⟨-, rfl⟩ := Prod.mk.inj (Option.some.inj (hm.symm.trans hm'))
    exact (hout' a).1 ((hout a).2 rfl)
  · rintro rfl
    exact h

theorem addrStr_getaddr {remote : ErlTerm} {text : List UInt8} (h : addrStr inet remote = .some text) :
    ∃ t f a, inet.getaddr t f = .some a ∧ inet.ntoa a = .some text := by
  obtain ⟨listAddr, -, h⟩ := Option.bind_eq_some_iff.1 h
  split at h
  · next a hget => exact ⟨listAddr, _, a, hget, h⟩
  · obtain ⟨a, hget, hntoa⟩ := Option.bind_eq_some_iff.1 h
    exact ⟨listAddr, _, a, hget, hntoa⟩

/-! ## The local address of validated options -/

/-- The IPv6 wildcard is asked for. -/
def AnyInet6 (opts : List ErlTerm) : Prop := given [.ip, .ifaddr] opts = .none ∧ lastFamily opts = .some .inet6

theorem validateIpaddr_eq (ip : ErlTerm) : validateIpaddr inet ip =
    (resolve inet ip).bind fun x => (inet.ntoa x.2).map fun s => (x.1, s) := by
  unfold validateIpaddr resolve
  dsimp only
  rw [Option.bind_assoc]
  congr 1
  funext listAddr
  cases inet.getaddr listAddr .inet with
  | some addr => rfl
  | none => cases inet.getaddr listAddr .inet6 <;> rfl

theorem resolve_getaddr {ip : ErlTerm} {f : Family} {a : ErlTerm} (h : resolve inet ip = .some (f, a)) :
    ∃ t, inet.getaddr t f = .some a := by
  obtain ⟨listAddr, -, h⟩ := Option.bind_eq_some_iff.1 h
  split at h
  · next hget =>
    obtain ⟨rfl, rfl⟩ := Prod.mk.inj (Option.some.inj h)
    exact ⟨listAddr, hget⟩
  · obtain ⟨a', hget, heq⟩ := Option.map_eq_some_iff.1 h
    obtain ⟨rfl, rfl⟩ := Prod.mk.inj heq
    exact ⟨listAddr, hget⟩

theorem carried_port (hn : Numbers opts o) (hp : given [.port] opts = .some (.int port.val)) :
    o.carried.port = port.val := by
  have hport := hn.port
  rw [hp] at hport
  rcases ho : o.port with _ | n
  · rw [ho] at hport
    cases hport
  · rw [ho] at hport
    cases hport with
    | some hval =>
      have hn : n = port := by
        simp only [asPort] at hval
        split at hval
        · exact (Option.some.inj hval).symm.trans (Fin.ext (Int.toNat_natCast _))
        · cases hval
      simp [carried, sockOpts, ho, hn]

/-- **The local address is the one asked for, unless that is the IPv6
wildcard with a port.** -/
theorem localAddr_asked (hg : inet.Agrees g) (hany : g in6AnyText = .some (.inet6, in6addrAny))
    (hv : validate inet opts = .some o) (hp : given [.port] opts = .some (.int port.val))
    (ha : Asks inet port opts addr) :
    ∃ a, localAddr g o.carried = .some a ∧ (a = addr ↔ (AnyInet6 opts → port = 0)) := by
  have hport := carried_port (numbers hv) hp
  have hmod : port.val % 2 ^ 16 = port.val := Nat.mod_eq_of_lt port.isLt
  cases located hv with
  | @address ip x hgiven hx hip hf =>
    rw [validateIpaddr_eq] at hx
    obtain ⟨⟨f, a⟩, hres, hx⟩ := Option.bind_eq_some_iff.1 hx
    obtain ⟨s, hs, rfl⟩ := Option.map_eq_some_iff.1 hx
    obtain ⟨t, hget⟩ := resolve_getaddr hres
    have hinfo := hg.info hget hs
    have hset : o.carried.addrSet = true ∧ o.carried.addr = .some (s, o.carried.port) := by
      simp [carried, sockOpts, hip]
    refine ⟨⟨f, inet.host a, port⟩, ?_, ?_⟩
    · rw [localAddr, if_pos hset.1, hset.2, hport]
      simp [fromAddrport, hinfo]
    · refine iff_of_true ?_ fun hw => absurd hw.1 (by simp [hgiven])
      cases ha with
      | address hgiven' hres' =>
        obtain rfl := Option.some.inj (hgiven.symm.trans hgiven')
        obtain ⟨rfl, rfl⟩ := Prod.mk.inj (Option.some.inj (hres.symm.trans hres'))
        rfl
      | anyInet6 hnone | anyInet hnone =>
        rw [hgiven] at hnone
        cases hnone
  | anywhere hgiven hip hf =>
    have hset : o.carried.addrSet = false := by simp [carried, sockOpts, hip]
    have hfam : o.carried.inet6 = decide (lastFamily opts = .some .inet6) := by simp [carried, sockOpts, hf]
    rw [localAddr, hset, hfam, hport, hmod]
    cases ha with
    | address hgiven' =>
      rw [hgiven] at hgiven'
      cases hgiven'
    | anyInet6 _ hlast =>
      refine ⟨⟨.inet6, in6addrAny, 0⟩, by simp [hlast, fromAddrport, hany], ?_⟩
      simp only [SockAddr.mk.injEq, true_and]
      exact ⟨fun h0 _ => Fin.ext h0.symm, fun himp => by rw [himp ⟨hgiven, hlast⟩]; rfl⟩
    | anyInet _ hlast =>
      exact ⟨⟨.inet, inaddrAny, port⟩, by simp [hlast], iff_of_true rfl fun hw => absurd hw.2 hlast⟩

/-! ## `listen` and `connect` -/

theorem given_cons (names : List Atom) (t : ErlTerm) (opts : List ErlTerm) :
    given names (t :: opts) = (given names opts).or (given names [t]) := by
  induction opts using List.reverseRecOn with
  | nil => simp [given]
  | append_singleton opts t' ih =>
    rw [← List.cons_append, given_snoc, given_snoc, ih]
    split
    · split <;> simp
    · rfl

theorem given_portOpt {names : List Atom} (hn : .port ∉ names) :
    given names (portOpt port :: opts) = given names opts := by
  rw [given_cons]
  simp [given, portOpt, hn]

theorem lastFamily_portOpt : lastFamily (portOpt port :: opts) = lastFamily opts := rfl

/-- The port is bound as asked when `bind` is reached at all, and the IPv6
wildcard is not asked for with a port. -/
def BindsAsked (port : Fin 65536) (opts : List ErlTerm) : Prop :=
  (∀ x, given [.packet] opts ≠ .some (.float x)) ∧ (AnyInet6 opts → port = 0)

/-- Of a validated record, whatever request carries its binary. -/
theorem binds_iff (hg : inet.Agrees g) (hany : g in6AnyText = .some (.inet6, in6addrAny))
    (hv : validate inet opts = .some o) (hp : given [.port] opts = .some (.int port.val))
    (ha : Asks inet port opts addr) {r : List UInt8 → StartCalls → Request}
    (hr : ∀ {bin so names a}, SockOpts.decode g.numericHost .new bin = .ok (so, names) → localAddr g so = .some a →
      RequestBinds g (r bin) a) :
    (∃ bin, o.optionsToBinary = .some bin ∧ RequestBinds g (r bin) addr) ↔ BindsAsked port opts := by
  rw [BindsAsked, ← packet_float (numbers hv).packet]
  obtain ⟨a, hlocal, hiff⟩ := localAddr_asked hg hany hv hp ha
  constructor
  · intro hasked
    obtain ⟨bin, hbin, hbinds⟩ := hasked
    have hpacket : o.PacketInt := packetInt hbin
    obtain ⟨bin', hbin', hd⟩ := decode_validated hg hv hpacket
    obtain rfl := Option.some.inj (hbin.symm.trans hbin')
    exact ⟨hpacket, hiff.1 ((requestBinds_iff (hr hd hlocal)).1 hbinds)⟩
  · intro hfits
    obtain ⟨hpacket, hport⟩ := hfits
    obtain ⟨bin, hbin, hd⟩ := decode_validated hg hv hpacket
    exact ⟨bin, hbin, (requestBinds_iff (hr hd hlocal)).2 (hiff.2 hport)⟩

/-- **`listen` and `connect` bind the address asked for, unless that is the
IPv6 wildcard with a port, or the packet size is a float.** -/
theorem binds_as_asked (hg : inet.Agrees g) (hany : g in6AnyText = .some (.inet6, in6addrAny)) :
    (∀ {port options o addr}, given [.port] options = .none → validate inet (portOpt port :: options) = .some o →
      Asks inet port.val options addr →
      ((∃ buf, listenArgs inet port options = .some buf ∧ RequestBinds g (.listen buf) addr) ↔
        BindsAsked port options)) ∧
    ∀ {remote remotePort text opts o port addr}, addrStr inet remote = .some text → validate inet opts = .some o →
      given [.port] opts = .some (.int port.val) → Asks inet port.val opts addr →
      ((∃ buf, connectArgs inet remote remotePort opts = .some buf ∧ RequestBinds g (.connectStart buf) addr) ↔
        BindsAsked port opts) := by
  constructor
  · intro port options o addr hown hv ha
    have hp : given [.port] (portOpt port :: options) = .some (.int port.val) := by
      rw [given_cons, hown]
      rfl
    have haddr : given [.ip, .ifaddr] (portOpt port :: options) = given [.ip, .ifaddr] options :=
      given_portOpt (by simp)
    have ha' : Asks inet port.val (portOpt port :: options) addr := by
      cases ha with
      | address hgiven hres => exact .address (haddr.trans hgiven) hres
      | anyInet6 hgiven hlast => exact .anyInet6 (haddr.trans hgiven) hlast
      | anyInet hgiven hlast => exact .anyInet (haddr.trans hgiven) hlast
    have hsame : BindsAsked port (portOpt port :: options) ↔ BindsAsked port options := by
      rw [BindsAsked, BindsAsked, AnyInet6, AnyInet6, haddr, given_portOpt (by simp), lastFamily_portOpt]
    rw [← hsame, ← binds_iff hg hany hv hp ha' fun hd hl => listen_binds hd hl]
    simp only [listenArgs, hv, Option.bind_eq_bind, Option.bind_some]
    cases o.optionsToBinary <;> simp
  · intro remote remotePort text opts o port addr htext hv hp ha
    obtain ⟨t, f, a, hget, hntoa⟩ := addrStr_getaddr htext
    rw [← binds_iff hg hany hv hp ha fun hd hl =>
      connectStart_binds remotePort (hg.text hget hntoa) (hg.info hget hntoa) hd hl]
    simp only [connectArgs, htext, hv, Option.bind_eq_bind, Option.bind_some]
    cases o.optionsToBinary <;> simp

/-- The IPv6 wildcard is all `getaddrinfo` knows. -/
def anyInfo : GetAddrInfo := fun s => if s = in6AnyText then .some (.inet6, in6addrAny) else .none

theorem noInet_agrees_any : noInet.Agrees anyInfo := ⟨by simp [noInet], by simp [noInet]⟩

/-- A listener on port 80 of the IPv4 wildcard. -/
theorem binds_as_asked_inet :
    (∃ buf, listenArgs noInet ⟨80, by decide⟩ [.atom .inet] = .some buf ∧
        RequestBinds anyInfo (.listen buf) ⟨.inet, inaddrAny, 80⟩) ↔
      BindsAsked ⟨80, by decide⟩ [.atom .inet] :=
  (binds_as_asked noInet_agrees_any rfl).1 rfl rfl (.anyInet rfl (by decide))

/-- `listen(80, [inet6])` binds the IPv6 wildcard with port 0. -/
theorem listen_inet6_loses_port : ∃ buf, listenArgs noInet ⟨80, by decide⟩ [.atom .inet6] = .some buf ∧
    Asks noInet 80 [.atom .inet6] ⟨.inet6, in6addrAny, 80⟩ ∧
    RequestBinds anyInfo (.listen buf) ⟨.inet6, in6addrAny, 0⟩ ∧
    ¬RequestBinds anyInfo (.listen buf) ⟨.inet6, in6addrAny, 80⟩ := by
  have hbinds : RequestBinds anyInfo (.listen [.version, .binary [7, 2, 0, 80]]) ⟨.inet6, in6addrAny, 0⟩ :=
    listen_binds rfl rfl
  refine ⟨[.version, .binary [7, 2, 0, 80]], rfl, .anyInet6 rfl rfl, hbinds, ?_⟩
  rw [requestBinds_iff hbinds]
  decide

end GenUtp
