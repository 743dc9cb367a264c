/-
Options on the Erlang side: `validate` (`gen_utp_opts.erl`), the record it
makes, and `options_to_binary` (`gen_utp.erl`).

The record is read back by `SockOpts::decode`. It comes back as it was
exactly when no value is wider than its field in the binary and the packet
size is an integer (`roundtrip_iff`): `validate` bounds neither a send
timeout nor a buffer size, and it compares the packet size with `==`, which
a float passes too.
-/
import GenUtp.OptionGrammar

namespace GenUtp

open Frames

/-- The atoms `validate` knows, and any other. -/
inductive Atom
  | mode
  | list
  | binary
  | ip
  | ifaddr
  | port
  | inet
  | inet6
  | sendTimeout
  | infinity
  | active
  | true
  | false
  | once
  | packet
  | raw
  | header
  | sndbuf
  | recbuf
  | other (name : String)
  deriving DecidableEq, Repr

/-- A term, as far as the guards of `validate` look into it. A float is its
value. -/
inductive ErlTerm
  | int (n : Int)
  | float (x : Rat)
  | atom (a : Atom)
  | tuple (elements : List ErlTerm)
  | list (elements : List ErlTerm)
  | other
  deriving Repr

/-- A string is the list of its characters. -/
def ErlTerm.string (text : List UInt8) : ErlTerm := .list (text.map fun b => .int b.toNat)

/-- What `inet_parse:ntoa` and `inet:getaddr` answer; `none` is anything but
a text or an address. `host` is the address a tuple stands for. -/
structure Inet where
  ntoa : ErlTerm → Option (List UInt8)
  getaddr : ErlTerm → Family → Option ErlTerm
  host : ErlTerm → Host

/-- The text of an address has no NUL and fits `addrstr`, and `getaddrinfo`
reads the address off it. -/
structure Inet.Agrees (inet : Inet) (g : GetAddrInfo) : Prop where
  text : ∀ {t f addr s}, inet.getaddr t f = .some addr → inet.ntoa addr = .some s →
    0 ∉ s ∧ s.length < SockOpts.inet6Addrstrlen
  info : ∀ {t f addr s}, inet.getaddr t f = .some addr → inet.ntoa addr = .some s → g s = .some (f, inet.host addr)

/-! ## The record -/

/-- A `pos_integer()`. -/
abbrev PosInteger := { n : Nat // 0 < n }

abbrev HeaderSize := { n : Nat // 0 < n ∧ n < 65536 }

abbrev PacketWidth := { n : Nat // n = 0 ∨ n = 1 ∨ n = 2 ∨ n = 4 }

inductive Timeout
  | infinity
  | ms (n : PosInteger)
  deriving DecidableEq, Repr

inductive UtpActive
  | bool (b : Bool)
  | once
  deriving DecidableEq, Repr

/-- A packet size that passed the guard: an integer, or a float equal to it. -/
inductive PacketSize
  | int (n : PacketWidth)
  | float (n : PacketWidth)
  deriving DecidableEq, Repr

/-- `#utp_options{}`; `none` is `undefined`. -/
structure UtpOptions where
  mode : Option DeliveryMode
  ip : Option (List UInt8)
  port : Option (Fin 65536)
  family : Option Family
  sendTmout : Option Timeout
  active : Option UtpActive
  packet : Option PacketSize
  header : Option HeaderSize
  sndbuf : Option PosInteger
  recbuf : Option PosInteger
  deriving DecidableEq, Repr

namespace UtpOptions

def new : UtpOptions := ⟨.none, .none, .none, .none, .none, .none, .none, .none, .none, .none⟩

/-! ## `validate` -/

def asMode : ErlTerm → Option DeliveryMode
  | .atom .list => .some .dataList
  | .atom .binary => .some .dataBinary
  | _ => .none

def asPort : ErlTerm → Option (Fin 65536)
  | .int n => if h : 0 ≤ n ∧ n < 65536 then .some ⟨n.toNat, by omega⟩ else .none
  | _ => .none

def asPosInteger : ErlTerm → Option PosInteger
  | .int n => if h : 0 < n then .some ⟨n.toNat, by omega⟩ else .none
  | _ => .none

def asTimeout : ErlTerm → Option Timeout
  | .atom .infinity => .some .infinity
  | t => (asPosInteger t).map .ms

def asActive : ErlTerm → Option UtpActive
  | .atom .true => .some (.bool true)
  | .atom .false => .some (.bool false)
  | .atom .once => .some .once
  | _ => .none

def packetWidth (x : Rat) : Option PacketWidth :=
  if x = 0 then .some ⟨0, by decide⟩ else if x = 1 then .some ⟨1, by decide⟩
  else if x = 2 then .some ⟨2, by decide⟩ else if x = 4 then .some ⟨4, by decide⟩ else .none

def asPacket : ErlTerm → Option PacketSize
  | .atom .raw => .some (.int ⟨0, by decide⟩)
  -- `==` compares an integer with a float by value
  | .int n => (packetWidth n).map .int
  | .float x => (packetWidth x).map .float
  | _ => .none

def asHeader : ErlTerm → Option HeaderSize
  | .int n => if h : 0 < n ∧ n < 65536 then .some ⟨n.toNat, by omega⟩ else .none
  | _ => .none

/-- `validate_ipaddr`: the family and the text of the address. -/
def validateIpaddr (inet : Inet) (ip : ErlTerm) : Option (Family × List UInt8) :=
  let listAddr := match ip with
    | .tuple _ => (inet.ntoa ip).map ErlTerm.string
    | .list _ => .some ip
    | _ => .none
  listAddr.bind fun listAddr =>
    match inet.getaddr listAddr .inet with
    | .some addr => (inet.ntoa addr).map fun s => (.inet, s)
    | .none =>
      (inet.getaddr listAddr .inet6).bind fun addr => (inet.ntoa addr).map fun s => (.inet6, s)

/-- The options `inet` and `inet6`. -/
def validateFamily (o : UtpOptions) (f : Family) : Option UtpOptions :=
  match o.ip with
  | .none => .some { o with family := .some f }
  | .some _ => if o.family = .some f then .some o else .none

/-- One option of `validate`. -/
def validateOpt (inet : Inet) (o : UtpOptions) : ErlTerm → Option UtpOptions
  | .tuple [.atom .mode, t] => (asMode t).map fun x => { o with mode := .some x }
  | .atom .binary => .some { o with mode := .some .dataBinary }
  | .atom .list => .some { o with mode := .some .dataList }
  | .tuple [.atom .ip, t] => (validateIpaddr inet t).map fun x => { o with family := .some x.1, ip := .some x.2 }
  | .tuple [.atom .ifaddr, t] => (validateIpaddr inet t).map fun x => { o with family := .some x.1, ip := .some x.2 }
  | .tuple [.atom .port, t] => (asPort t).map fun x => { o with port := .some x }
  | .atom .inet => o.validateFamily .inet
  | .atom .inet6 => o.validateFamily .inet6
  | .tuple [.atom .sendTimeout, t] => (asTimeout t).map fun x => { o with sendTmout := .some x }
  | .tuple [.atom .active, t] => (asActive t).map fun x => { o with active := .some x }
  | .tuple [.atom .packet, t] => (asPacket t).map fun x => { o with packet := .some x }
  | .tuple [.atom .header, t] => (asHeader t).map fun x => { o with header := .some x }
  | .tuple [.atom .sndbuf, t] => (asPosInteger t).map fun x => { o with sndbuf := .some x }
  | .tuple [.atom .recbuf, t] => (asPosInteger t).map fun x => { o with recbuf := .some x }
  | _ => .none

/-- `validate`; `none` is an error. `{header, Size}` is valid only in binary
mode. -/
def validate (inet : Inet) (opts : List ErlTerm) : Option UtpOptions := do
  let o ← opts.foldlM (validateOpt inet) new
  match o.header, o.mode with
  | .none, _ => .some o
  | .some _, .some .dataBinary => .some o
  | .some _, _ => .none

/-! ## `options_to_binary` -/

def modeBinary : Option DeliveryMode → List UInt8
  | .none => []
  | .some .dataList => [3]
  | .some .dataBinary => [4]

def familyBinary : Option Family → List UInt8
  | .none => []
  | .some .inet => []
  | .some .inet6 => [7]

def ipBinary : Option (List UInt8) → List UInt8
  | .none => []
  | .some addrStr => 1 :: addrStr ++ [0]

def portBinary : Option (Fin 65536) → List UInt8
  | .none => []
  | .some port => 2 :: beBytes 2 port

def sendTmoutBinary : Option Timeout → List UInt8
  | .none => []
  | .some .infinity => [9]
  | .some (.ms tm) => 8 :: beBytes 4 tm

def activeBinary : Option UtpActive → List UInt8
  | .none => []
  | .some (.bool false) => [10, 0]
  | .some .once => [10, 1]
  | .some (.bool true) => [10, 2]

/-- A float is no value of an integer segment. -/
def packetBinary : Option PacketSize → Option (List UInt8)
  | .none => .some []
  | .some (.int n) => .some (11 :: beBytes 1 n)
  | .some (.float _) => .none

def headerBinary : Option HeaderSize → List UInt8
  | .none => []
  | .some hdrSize => 12 :: beBytes 2 hdrSize

def sndbufBinary : Option PosInteger → List UInt8
  | .none => []
  | .some sndBuf => 13 :: beBytes 4 sndBuf

def recbufBinary : Option PosInteger → List UInt8
  | .none => []
  | .some recBuf => 14 :: beBytes 4 recBuf

/-- `options_to_binary`; a segment keeps the low bits of its value. `none` is
a `badarg`. -/
def optionsToBinary (o : UtpOptions) : Option (List UInt8) := do
  let packet ← packetBinary o.packet
  .some (modeBinary o.mode ++ familyBinary o.family ++ ipBinary o.ip ++ portBinary o.port ++
    sendTmoutBinary o.sendTmout ++ activeBinary o.active ++ packet ++ headerBinary o.header ++
    sndbufBinary o.sndbuf ++ recbufBinary o.recbuf)

/-! ## The binary is a string of items -/

/-- The four bytes of an integer segment as the argument of an item. -/
def word (item : UInt8 → UInt8 → UInt8 → UInt8 → Item) (n : Nat) : Item :=
  item (UInt8.ofNat (n / 256 / 256 / 256 % 256)) (UInt8.ofNat (n / 256 / 256 % 256)) (UInt8.ofNat (n / 256 % 256))
    (UInt8.ofNat (n % 256))

/-- The same for two bytes. -/
def half (item : UInt8 → UInt8 → Item) (n : Nat) : Item := item (UInt8.ofNat (n / 256 % 256)) (UInt8.ofNat (n % 256))

def modeItem : Option DeliveryMode → Option Item
  | .none => .none
  | .some .dataList => .some .list
  | .some .dataBinary => .some .binary

def familyItem : Option Family → Option Item
  | .some .inet6 => .some .inet6
  | _ => .none

def ipItem (ip : Option (List UInt8)) : Option Item :=
  ip.bind fun s => if h : 0 ∉ s then .some (.ip s h) else .none

def portItem (port : Option (Fin 65536)) : Option Item := port.map fun port => half .port port.val

def sendTmoutItem : Option Timeout → Option Item
  | .none => .none
  | .some .infinity => .some .sendTmoutInfinite
  | .some (.ms tm) => .some (word .sendTmout tm)

def activeItem : Option UtpActive → Option Item
  | .none => .none
  | .some (.bool false) => .some (.active 0)
  | .some .once => .some (.active 1)
  | .some (.bool true) => .some (.active 2)

def packetItem : Option PacketSize → Option Item
  | .none => .none
  | .some (.int n) | .some (.float n) => .some (.packet (UInt8.ofNat n))

def headerItem (header : Option HeaderSize) : Option Item := header.map fun n => half .header n.val

def sndbufItem (sndbuf : Option PosInteger) : Option Item := sndbuf.map fun n => word .sndbuf n.val

def recbufItem (recbuf : Option PosInteger) : Option Item := recbuf.map fun n => word .recbuf n.val

/-- One item for each field that is defined and has an encoding. -/
def items (o : UtpOptions) : List Item :=
  (modeItem o.mode).toList ++ (familyItem o.family).toList ++ (ipItem o.ip).toList ++ (portItem o.port).toList ++
    (sendTmoutItem o.sendTmout).toList ++ (activeItem o.active).toList ++ (packetItem o.packet).toList ++
    (headerItem o.header).toList ++ (sndbufItem o.sndbuf).toList ++ (recbufItem o.recbuf).toList

/-- The address has no NUL and fits `addrstr`. -/
def IpFits (o : UtpOptions) : Prop := ∀ s, o.ip = .some s → 0 ∉ s ∧ s.length < SockOpts.inet6Addrstrlen

/-- The packet size is an integer. -/
def PacketInt (o : UtpOptions) : Prop := ∀ n, o.packet ≠ .some (.float n)

variable {o : UtpOptions} {bin : List UInt8}

theorem packetBinary_some (hp : o.PacketInt) :
    packetBinary o.packet = .some ((packetItem o.packet).toList.flatMap Item.bytes) := by
  rcases hpk : o.packet with _ | n | n
  · rfl
  · obtain ⟨n, rfl | rfl | rfl | rfl⟩ := n <;> rfl
  · exact absurd hpk (hp n)

/-- `options_to_binary` writes the items, or fails on a float. -/
theorem optionsToBinary_spells (hi : o.IpFits) (hp : o.PacketInt) :
    o.optionsToBinary = .some (o.items.flatMap Item.bytes) := by
  have hmode : modeBinary o.mode = (modeItem o.mode).toList.flatMap Item.bytes := by
    rcases o.mode with _ | _ | _ <;> rfl
  have hfamily : familyBinary o.family = (familyItem o.family).toList.flatMap Item.bytes := by
    rcases o.family with _ | _ | _ <;> rfl
  have hip : ipBinary o.ip = (ipItem o.ip).toList.flatMap Item.bytes := by
    rcases h : o.ip with _ | s
    · rfl
    · simp [ipBinary, ipItem, (hi s h).1, Item.bytes, Item.tag, Item.argument]
  have hport : portBinary o.port = (portItem o.port).toList.flatMap Item.bytes := by
    rcases o.port with _ | n <;> rfl
  have htmout : sendTmoutBinary o.sendTmout = (sendTmoutItem o.sendTmout).toList.flatMap Item.bytes := by
    rcases o.sendTmout with _ | _ | n <;> rfl
  have hactive : activeBinary o.active = (activeItem o.active).toList.flatMap Item.bytes := by
    rcases o.active with _ | (_ | _) | _ <;> rfl
  have hheader : headerBinary o.header = (headerItem o.header).toList.flatMap Item.bytes := by
    rcases o.header with _ | n <;> rfl
  have hsndbuf : sndbufBinary o.sndbuf = (sndbufItem o.sndbuf).toList.flatMap Item.bytes := by
    rcases o.sndbuf with _ | n <;> rfl
  have hrecbuf : recbufBinary o.recbuf = (recbufItem o.recbuf).toList.flatMap Item.bytes := by
    rcases o.recbuf with _ | n <;> rfl
  rw [optionsToBinary, packetBinary_some hp, hmode, hfamily, hip, hport, htmout, hactive, hheader, hsndbuf, hrecbuf]
  simp [items]

theorem packetInt (hb : o.optionsToBinary = .some bin) : o.PacketInt := by
  intro n hfloat
  rw [optionsToBinary, hfloat] at hb
  cases hb

theorem items_text (hi : o.IpFits) : Item.addresses o.items = o.ip.toList := by
  have hip : (ipItem o.ip).toList.filterMap Item.text = o.ip.toList := by
    rcases h : o.ip with _ | s
    · rfl
    · simp [ipItem, (hi s h).1, Item.text]
  have hmode : (modeItem o.mode).toList.filterMap Item.text = [] := by
    rcases o.mode with _ | _ | _ <;> rfl
  have hfamily : (familyItem o.family).toList.filterMap Item.text = [] := by
    rcases o.family with _ | _ | _ <;> rfl
  have hport : (portItem o.port).toList.filterMap Item.text = [] := by
    rcases o.port with _ | n <;> rfl
  have htmout : (sendTmoutItem o.sendTmout).toList.filterMap Item.text = [] := by
    rcases o.sendTmout with _ | _ | n <;> rfl
  have hactive : (activeItem o.active).toList.filterMap Item.text = [] := by
    rcases o.active with _ | (_ | _) | _ <;> rfl
  have hpacket : (packetItem o.packet).toList.filterMap Item.text = [] := by
    rcases o.packet with _ | n | n <;> rfl
  have hheader : (headerItem o.header).toList.filterMap Item.text = [] := by
    rcases o.header with _ | n <;> rfl
  have hsndbuf : (sndbufItem o.sndbuf).toList.filterMap Item.text = [] := by
    rcases o.sndbuf with _ | n <;> rfl
  have hrecbuf : (recbufItem o.recbuf).toList.filterMap Item.text = [] := by
    rcases o.recbuf with _ | n <;> rfl
  simp only [Item.addresses, items, List.filterMap_append, hip, hmode, hfamily, hport, htmout, hactive, hpacket,
    hheader, hsndbuf, hrecbuf, List.append_nil, List.nil_append]

theorem items_fit (hi : o.IpFits) : ∀ i ∈ o.items, i.Fits := by
  intro i hmem
  rw [Item.fits_iff]
  intro s hs
  have haddr : s ∈ Item.addresses o.items := List.mem_filterMap.2 ⟨i, hmem, hs⟩
  rw [items_text hi, Option.mem_toList] at haddr
  exact (hi s haddr).2

/-! ## What the binary decodes to -/

def timeoutVal (tmout : Nat → Int) : Timeout → Int
  | .infinity => -1
  | .ms n => tmout n

def activeVal : UtpActive → Active
  | .bool b => if b then .activeTrue else .activeFalse
  | .once => .activeOnce

def packetVal : PacketSize → Nat
  | .int n | .float n => n

/-- The socket options of a record, defaults where it is undefined. `tmout`
and `buf` say what becomes of a timeout and of a buffer size. -/
def sockOpts (tmout buf : Nat → Int) (o : UtpOptions) : SockOpts :=
  let port := (o.port.map Fin.val).getD SockOpts.new.port
  { addr := o.ip.map fun s => (s, port)
    addrstr := o.ip.getD SockOpts.new.addrstr
    sendTmout := (o.sendTmout.map (timeoutVal tmout)).getD SockOpts.new.sendTmout
    active := (o.active.map activeVal).getD SockOpts.new.active
    header := (o.header.map Subtype.val).getD SockOpts.new.header
    sndbuf := (o.sndbuf.map fun n => buf n.val).getD SockOpts.new.sndbuf
    recbuf := (o.recbuf.map fun n => buf n.val).getD SockOpts.new.recbuf
    port := port
    deliveryMode := o.mode.getD SockOpts.new.deliveryMode
    packet := (o.packet.map packetVal).getD SockOpts.new.packet
    inet6 := o.family = .some .inet6
    addrSet := o.ip.isSome }

/-- Every field as validated. -/
def meant (o : UtpOptions) : SockOpts := o.sockOpts (fun n => n) fun n => n

/-- Every field as the binary holds it. -/
def carried (o : UtpOptions) : SockOpts :=
  o.sockOpts (fun n => (n % 2 ^ 32 : Nat)) fun n => SockOpts.toInt32 (n % 2 ^ 32)

theorem beVal_word (n : Nat) : beVal [UInt8.ofNat (n / 256 / 256 / 256 % 256), UInt8.ofNat (n / 256 / 256 % 256),
    UInt8.ofNat (n / 256 % 256), UInt8.ofNat (n % 256)] = n % 2 ^ 32 := beVal_beBytes 4 n

theorem beVal_half {n : Nat} (hn : n < 65536) : beVal [UInt8.ofNat (n / 256 % 256), UInt8.ofNat (n % 256)] = n :=
  (beVal_beBytes 2 n).trans (Nat.mod_eq_of_lt hn)

theorem decoded_items (hi : o.IpFits) : SockOpts.decoded o.items = o.carried := by
  have hmode : ∀ so, (modeItem o.mode).toList.foldl Item.apply so =
      { so with deliveryMode := o.mode.getD so.deliveryMode } := by
    intro so
    rcases o.mode with _ | _ | _ <;> rfl
  have hfamily : ∀ so, (familyItem o.family).toList.foldl Item.apply so =
      { so with inet6 := if o.family = .some .inet6 then true else so.inet6 } := by
    intro so
    rcases o.family with _ | _ | _ <;> rfl
  have hip : ∀ so, (ipItem o.ip).toList.foldl Item.apply so =
      { so with addrstr := o.ip.getD so.addrstr, addrSet := o.ip.isSome || so.addrSet } := by
    intro so
    rcases h : o.ip with _ | s
    · rfl
    · simp [ipItem, (hi s h).1, Item.apply]
  have hport : ∀ so, (portItem o.port).toList.foldl Item.apply so =
      { so with port := (o.port.map Fin.val).getD so.port } := by
    intro so
    rcases o.port with _ | n
    · rfl
    · simp [portItem, half, Item.apply, beVal_half n.isLt]
  have htmout : ∀ so, (sendTmoutItem o.sendTmout).toList.foldl Item.apply so =
      { so with sendTmout := (o.sendTmout.map (timeoutVal fun n => (n % 2 ^ 32 : Nat))).getD so.sendTmout } := by
    intro so
    rcases o.sendTmout with _ | _ | n
    · rfl
    · rfl
    · simp only [sendTmoutItem, word, Option.toList_some, List.foldl_cons, List.foldl_nil, Item.apply, beVal_word]
      rfl
  have hactive : ∀ so, (activeItem o.active).toList.foldl Item.apply so =
      { so with active := (o.active.map activeVal).getD so.active } := by
    intro so
    rcases o.active with _ | (_ | _) | _ <;> rfl
  have hpacket : ∀ so, (packetItem o.packet).toList.foldl Item.apply so =
      { so with packet := (o.packet.map packetVal).getD so.packet } := by
    intro so
    rcases o.packet with _ | ⟨n, rfl | rfl | rfl | rfl⟩ | ⟨n, rfl | rfl | rfl | rfl⟩ <;> rfl
  have hheader : ∀ so, (headerItem o.header).toList.foldl Item.apply so =
      { so with header := (o.header.map Subtype.val).getD so.header } := by
    intro so
    rcases o.header with _ | n
    · rfl
    · simp [headerItem, half, Item.apply, beVal_half n.2.2]
  have hsndbuf : ∀ so, (sndbufItem o.sndbuf).toList.foldl Item.apply so =
      { so with sndbuf := (o.sndbuf.map fun n => SockOpts.toInt32 (n.val % 2 ^ 32)).getD so.sndbuf } := by
    intro so
    rcases o.sndbuf with _ | n
    · rfl
    · simp only [sndbufItem, word, Option.map_some, Option.toList_some, List.foldl_cons, List.foldl_nil, Item.apply,
        beVal_word, Option.getD_some]
  have hrecbuf : ∀ so, (recbufItem o.recbuf).toList.foldl Item.apply so =
      { so with recbuf := (o.recbuf.map fun n => SockOpts.toInt32 (n.val % 2 ^ 32)).getD so.recbuf } := by
    intro so
    rcases o.recbuf with _ | n
    · rfl
    · simp only [recbufItem, word, Option.map_some, Option.toList_some, List.foldl_cons, List.foldl_nil, Item.apply,
        beVal_word, Option.getD_some]
  have hlast : Item.lastAddress o.items = o.ip := by
    rw [Item.lastAddress, items_text hi]
    cases o.ip <;> rfl
  simp only [SockOpts.decoded, hlast]
  simp only [items, List.foldl_append, hmode, hfamily, hip, hport, htmout, hactive, hpacket, hheader, hsndbuf, hrecbuf]
  simp [carried, sockOpts, SockOpts.new]

/-! ## What `validate` accepts -/

/-- One rule for each option `validate` takes. -/
inductive Sets (inet : Inet) (o : UtpOptions) : ErlTerm → UtpOptions → Prop
  | mode {t x} : asMode t = .some x → Sets inet o (.tuple [.atom .mode, t]) { o with mode := .some x }
  | binary : Sets inet o (.atom .binary) { o with mode := .some .dataBinary }
  | list : Sets inet o (.atom .list) { o with mode := .some .dataList }
  | ip {a t x} : a = .ip ∨ a = .ifaddr → validateIpaddr inet t = .some x →
      Sets inet o (.tuple [.atom a, t]) { o with family := .some x.1, ip := .some x.2 }
  | port {t x} : asPort t = .some x → Sets inet o (.tuple [.atom .port, t]) { o with port := .some x }
  | family {a f} : a = .inet ∧ f = .inet ∨ a = .inet6 ∧ f = .inet6 → o.ip = .none →
      Sets inet o (.atom a) { o with family := .some f }
  | sameFamily {a f} : a = .inet ∧ f = .inet ∨ a = .inet6 ∧ f = .inet6 → o.ip ≠ .none → o.family = .some f →
      Sets inet o (.atom a) o
  | sendTmout {t x} : asTimeout t = .some x →
      Sets inet o (.tuple [.atom .sendTimeout, t]) { o with sendTmout := .some x }
  | active {t x} : asActive t = .some x → Sets inet o (.tuple [.atom .active, t]) { o with active := .some x }
  | packet {t x} : asPacket t = .some x → Sets inet o (.tuple [.atom .packet, t]) { o with packet := .some x }
  | header {t x} : asHeader t = .some x → Sets inet o (.tuple [.atom .header, t]) { o with header := .some x }
  | sndbuf {t x} : asPosInteger t = .some x → Sets inet o (.tuple [.atom .sndbuf, t]) { o with sndbuf := .some x }
  | recbuf {t x} : asPosInteger t = .some x → Sets inet o (.tuple [.atom .recbuf, t]) { o with recbuf := .some x }

variable {inet : Inet} {o' : UtpOptions} {t : ErlTerm} {opts : List ErlTerm}

theorem validateFamily_sets {a : Atom} {f : Family} (ha : a = .inet ∧ f = .inet ∨ a = .inet6 ∧ f = .inet6)
    (h : o.validateFamily f = .some o') : Sets inet o (.atom a) o' := by
  unfold validateFamily at h
  split at h
  · next hip =>
    cases h
    exact .family ha hip
  · next s hip =>
    split at h
    · next hf =>
      cases h
      exact .sameFamily ha (by simp [hip]) hf
    · cases h

theorem validateOpt_sets (h : validateOpt inet o t = .some o') : Sets inet o t o' := by
  unfold validateOpt at h
  split at h
  · obtain ⟨x, hx, rfl⟩ := Option.map_eq_some_iff.1 h
    exact .mode hx
  · cases h
    exact .binary
  · cases h
    exact .list
  · obtain ⟨x, hx, rfl⟩ := Option.map_eq_some_iff.1 h
    exact .ip (.inl rfl) hx
  · obtain ⟨x, hx, rfl⟩ := Option.map_eq_some_iff.1 h
    exact .ip (.inr rfl) hx
  · obtain ⟨x, hx, rfl⟩ := Option.map_eq_some_iff.1 h
    exact .port hx
  · exact validateFamily_sets (.inl ⟨rfl, rfl⟩) h
  · exact validateFamily_sets (.inr ⟨rfl, rfl⟩) h
  · obtain ⟨x, hx, rfl⟩ := Option.map_eq_some_iff.1 h
    exact .sendTmout hx
  · obtain ⟨x, hx, rfl⟩ := Option.map_eq_some_iff.1 h
    exact .active hx
  · obtain ⟨x, hx, rfl⟩ := Option.map_eq_some_iff.1 h
    exact .packet hx
  · obtain ⟨x, hx, rfl⟩ := Option.map_eq_some_iff.1 h
    exact .header hx
  · obtain ⟨x, hx, rfl⟩ := Option.map_eq_some_iff.1 h
    exact .sndbuf hx
  · obtain ⟨x, hx, rfl⟩ := Option.map_eq_some_iff.1 h
    exact .recbuf hx
  · cases h

/-- What holds of the empty record, and is kept by each option in turn, holds
of every record `validate` makes. -/
theorem validate_invariant {I : List ErlTerm → UtpOptions → Prop} (h₀ : I [] new)
    (hs : ∀ opts o t o', I opts o → Sets inet o t o' → I (opts ++ [t]) o') (h : validate inet opts = .some o) :
    I opts o := by
  have key : ∀ (todo done : List ErlTerm) (o₁ o₂ : UtpOptions), I done o₁ →
      todo.foldlM (validateOpt inet) o₁ = .some o₂ → I (done ++ todo) o₂ := by
    intro todo
    induction todo with
    | nil =>
      intro done o₁ o₂ hi hf
      cases hf
      simpa using hi
    | cons t todo ih =>
      intro done o₁ o₂ hi hf
      obtain ⟨o₃, ho₃, hf⟩ := Option.bind_eq_some_iff.1 hf
      have := ih (done ++ [t]) o₃ o₂ (hs _ _ _ _ hi (validateOpt_sets ho₃)) hf
      simpa using this
  obtain ⟨o₁, hf, h⟩ := Option.bind_eq_some_iff.1 h
  have hi := key opts [] new o₁ h₀ hf
  split at h <;> cases h <;> exact hi

/-- The value of an option list under some names, if it has one: the last. -/
def given (names : List Atom) (opts : List ErlTerm) : Option ErlTerm :=
  opts.foldl (fun v t => match t with
    | .tuple [.atom a, x] => if a ∈ names then .some x else v
    | _ => v) .none

theorem given_snoc (names : List Atom) (opts : List ErlTerm) (t : ErlTerm) : given names (opts ++ [t]) = (match t with
    | .tuple [.atom a, x] => if a ∈ names then .some x else given names opts
    | _ => given names opts) := by
  rw [given, List.foldl_append]
  rfl

/-- A field comes from the option of its name. -/
def Comes {α : Type} (as : ErlTerm → Option α) (v : Option ErlTerm) (x : Option α) : Prop :=
  Option.Rel (fun t x => as t = .some x) v x

/-- The fields that hold a number come from the options of their names. -/
structure Numbers (opts : List ErlTerm) (o : UtpOptions) : Prop where
  port : Comes asPort (given [.port] opts) o.port
  sendTmout : Comes asTimeout (given [.sendTimeout] opts) o.sendTmout
  packet : Comes asPacket (given [.packet] opts) o.packet
  sndbuf : Comes asPosInteger (given [.sndbuf] opts) o.sndbuf
  recbuf : Comes asPosInteger (given [.recbuf] opts) o.recbuf

theorem numbers (h : validate inet opts = .some o) : Numbers opts o := by
  refine validate_invariant (I := Numbers) ⟨.none, .none, .none, .none, .none⟩ ?_ h
  intro opts o t o' hi hs
  obtain ⟨hport, htmout, hpacket, hsndbuf, hrecbuf⟩ := hi
  cases hs with
  | ip ha => rcases ha with rfl | rfl <;> constructor <;> simpa [given_snoc]
  | port hx | sendTmout hx | packet hx | sndbuf hx | recbuf hx =>
    constructor <;> simp [given_snoc] <;> first | exact .some hx | assumption
  | _ => constructor <;> simpa [given_snoc]

/-- The last of the options `inet` and `inet6`. -/
def lastFamily (opts : List ErlTerm) : Option Family :=
  opts.foldl (fun v t => match t with
    | .atom .inet => .some .inet
    | .atom .inet6 => .some .inet6
    | _ => v) .none

theorem lastFamily_snoc (opts : List ErlTerm) (t : ErlTerm) : lastFamily (opts ++ [t]) = (match t with
    | .atom .inet => .some .inet
    | .atom .inet6 => .some .inet6
    | _ => lastFamily opts) := by
  rw [lastFamily, List.foldl_append]
  rfl

/-- Where the address and the family of a record come from. -/
inductive Located (inet : Inet) (opts : List ErlTerm) (o : UtpOptions) : Prop
  | anywhere : given [.ip, .ifaddr] opts = .none → o.ip = .none → o.family = lastFamily opts → Located inet opts o
  | address {t x} : given [.ip, .ifaddr] opts = .some t → validateIpaddr inet t = .some x → o.ip = .some x.2 →
      o.family = .some x.1 → Located inet opts o

theorem located (h : validate inet opts = .some o) : Located inet opts o := by
  refine validate_invariant (I := Located inet) (.anywhere rfl rfl rfl) ?_ h
  intro opts o t o' hi hs
  cases hs with
  | ip ha hx => rcases ha with rfl | rfl <;> exact .address (by simp [given_snoc]) hx rfl rfl
  | family ha hip =>
    cases hi with
    | anywhere hg =>
      rcases ha with ⟨rfl, rfl⟩ | ⟨rfl, rfl⟩ <;> exact .anywhere (by simpa [given_snoc]) hip (by simp [lastFamily_snoc])
    | address _ _ hip' =>
      rw [hip] at hip'
      cases hip'
  | sameFamily ha hip =>
    cases hi with
    | anywhere _ hip' => exact absurd hip' hip
    | address hg hx hip' hf =>
      rcases ha with ⟨rfl, -⟩ | ⟨rfl, -⟩ <;> exact .address (by simpa [given_snoc]) hx hip' hf
  | _ =>
    cases hi with
    | anywhere hg hip hf => exact .anywhere (by simpa [given_snoc]) hip (by simpa [lastFamily_snoc])
    | address hg hx hip hf => exact .address (by simpa [given_snoc]) hx hip hf

theorem validateIpaddr_some {x : Family × List UInt8} (h : validateIpaddr inet t = .some x) :
    ∃ t' addr, inet.getaddr t' x.1 = .some addr ∧ inet.ntoa addr = .some x.2 := by
  obtain ⟨listAddr, -, h⟩ := Option.bind_eq_some_iff.1 h
  split at h
  · next addr hget =>
    obtain ⟨s, hs, rfl⟩ := Option.map_eq_some_iff.1 h
    exact ⟨listAddr, addr, hget, hs⟩
  · obtain ⟨addr, hget, h⟩ := Option.bind_eq_some_iff.1 h
    obtain ⟨s, hs, rfl⟩ := Option.map_eq_some_iff.1 h
    exact ⟨listAddr, addr, hget, hs⟩

theorem ip_reads {g : GetAddrInfo} (hg : inet.Agrees g) (h : validate inet opts = .some o) :
    o.IpFits ∧ ∀ s, o.ip = .some s → g.numericHost s = true := by
  cases located h with
  | anywhere _ hip => exact ⟨by simp [IpFits, hip], by simp [hip]⟩
  | @address t x _ hx hip =>
    obtain ⟨t', addr, hget, hntoa⟩ := validateIpaddr_some hx
    refine ⟨?_, ?_⟩
    · intro s hs
      obtain rfl := Option.some.inj (hip.symm.trans hs)
      exact hg.text hget hntoa
    · intro s hs
      obtain rfl := Option.some.inj (hip.symm.trans hs)
      rw [GetAddrInfo.numericHost, hg.info hget hntoa]
      rfl

/-! ## The round trip -/

/-- `options_to_binary` succeeds, and `decode` of its binary gives every
field as validated, one option read for each item. -/
def RoundTrips (g : GetAddrInfo) (o : UtpOptions) : Prop :=
  ∃ bin, o.optionsToBinary = .some bin ∧
    SockOpts.decode g.numericHost .new bin = .ok (o.meant, o.items.filterMap Item.opt)

/-- No number is wider than its field, and the packet size is no float. -/
structure FitsWidths (opts : List ErlTerm) : Prop where
  sendTmout : ∀ n, given [.sendTimeout] opts = .some (.int n) → n < 2 ^ 32
  packet : ∀ x, given [.packet] opts ≠ .some (.float x)
  sndbuf : ∀ n, given [.sndbuf] opts = .some (.int n) → n < 2 ^ 31
  recbuf : ∀ n, given [.recbuf] opts = .some (.int n) → n < 2 ^ 31

theorem decode_validated {g : GetAddrInfo} (hg : inet.Agrees g) (h : validate inet opts = .some o) (hp : o.PacketInt) :
    ∃ bin, o.optionsToBinary = .some bin ∧
      SockOpts.decode g.numericHost .new bin = .ok (o.carried, o.items.filterMap Item.opt) := by
  obtain ⟨hi, hnum⟩ := ip_reads hg h
  refine ⟨_, optionsToBinary_spells hi hp, ?_⟩
  rw [← decoded_items hi]
  refine SockOpts.decode_spells rfl (items_fit hi) ?_
  intro s hs
  rw [Item.lastAddress, items_text hi] at hs
  refine hnum s ?_
  cases hip : o.ip <;> simp_all

theorem asPosInteger_some {x : PosInteger} (h : asPosInteger t = .some x) : t = .int x.val := by
  cases t with
  | int n =>
    simp only [asPosInteger, Option.dite_none_right_eq_some, Option.some.injEq] at h
    obtain ⟨hpos, rfl⟩ := h
    simp only [ErlTerm.int.injEq]
    omega
  | _ => cases h

theorem asTimeout_some {x : Timeout} (h : asTimeout t = .some x) :
    (t = .atom .infinity ∧ x = .infinity) ∨ ∃ n, t = .int n.val ∧ x = .ms n := by
  unfold asTimeout at h
  split at h
  · cases h
    exact .inl ⟨rfl, rfl⟩
  · obtain ⟨n, hn, rfl⟩ := Option.map_eq_some_iff.1 h
    exact .inr ⟨n, asPosInteger_some hn, rfl⟩

theorem toInt32_eq_iff (n : Nat) : SockOpts.toInt32 (n % 2 ^ 32) = n ↔ n < 2 ^ 31 := by
  unfold SockOpts.toInt32
  split <;> omega

/-- The binary holds what is meant exactly when nothing is cut. -/
theorem carried_eq_meant_iff : o.carried = o.meant ↔ (∀ n, o.sendTmout = .some (.ms n) → n.val < 2 ^ 32) ∧
    (∀ n, o.sndbuf = .some n → n.val < 2 ^ 31) ∧ ∀ n, o.recbuf = .some n → n.val < 2 ^ 31 := by
  have htmout : (o.sendTmout.map (timeoutVal fun n => (n % 2 ^ 32 : Nat))).getD (-1) =
      (o.sendTmout.map (timeoutVal fun n => n)).getD (-1) ↔ ∀ n, o.sendTmout = .some (.ms n) → n.val < 2 ^ 32 := by
    rcases o.sendTmout with _ | _ | n
    · simp
    · simp [timeoutVal]
    · simp only [Option.map_some, Option.getD_some, timeoutVal, Option.some.injEq, Timeout.ms.injEq, forall_eq']
      omega
  have hbuf : ∀ (b : Option PosInteger) (d : Int), (b.map fun n => SockOpts.toInt32 (n.val % 2 ^ 32)).getD d =
      (b.map fun n => (n.val : Int)).getD d ↔ ∀ n, b = .some n → n.val < 2 ^ 31 := by
    intro b d
    rcases b with _ | n
    · simp
    · simpa using toInt32_eq_iff n.val
  simp only [carried, meant, sockOpts, SockOpts.mk.injEq, true_and, and_true]
  rw [← htmout, ← hbuf o.sndbuf SockOpts.new.sndbuf, ← hbuf o.recbuf SockOpts.new.recbuf]
  rfl

theorem packet_float {v : Option ErlTerm} {p : Option PacketSize} (h : Comes asPacket v p) :
    (∀ n, p ≠ .some (.float n)) ↔ ∀ x, v ≠ .some (.float x) := by
  cases h with
  | none => simp
  | @some t x ht =>
    cases t with
    | float y =>
      obtain ⟨n, -, rfl⟩ := Option.map_eq_some_iff.1 ht
      simp
    | int y =>
      obtain ⟨n, -, rfl⟩ := Option.map_eq_some_iff.1 ht
      simp
    | atom a => cases a <;> cases ht; simp
    | _ => cases ht

theorem posInteger_bound {v : Option ErlTerm} {b : Option PosInteger} {k : Nat} (h : Comes asPosInteger v b) :
    (∀ n, b = .some n → n.val < k) ↔ ∀ n : Int, v = .some (.int n) → n < k := by
  cases h with
  | none => simp
  | @some t x ht =>
    rw [asPosInteger_some ht]
    simp

theorem timeout_bound {v : Option ErlTerm} {b : Option Timeout} {k : Nat} (h : Comes asTimeout v b) :
    (∀ n, b = .some (.ms n) → n.val < k) ↔ ∀ n : Int, v = .some (.int n) → n < k := by
  cases h with
  | none => simp
  | @some t x ht =>
    obtain ⟨rfl, rfl⟩ | ⟨n, rfl, rfl⟩ := asTimeout_some ht <;> simp

/-- **The options come back as validated exactly when no number is wider than
its field and the packet size is no float.** -/
theorem roundtrip_iff {g : GetAddrInfo} (hg : inet.Agrees g) (h : validate inet opts = .some o) :
    o.RoundTrips g ↔ FitsWidths opts := by
  have hn := numbers h
  have hwidths : o.PacketInt ∧ o.carried = o.meant ↔ FitsWidths opts := by
    rw [PacketInt, packet_float hn.packet, carried_eq_meant_iff, timeout_bound hn.sendTmout, posInteger_bound hn.sndbuf,
      posInteger_bound hn.recbuf]
    exact ⟨fun ⟨hp, ht, hs, hr⟩ => ⟨ht, hp, hs, hr⟩, fun ⟨ht, hp, hs, hr⟩ => ⟨hp, ht, hs, hr⟩⟩
  rw [← hwidths]
  constructor
  · intro hround
    obtain ⟨bin, hbin, hd⟩ := hround
    have hp : o.PacketInt := packetInt hbin
    obtain ⟨bin', hbin', hd'⟩ := decode_validated hg h hp
    obtain rfl := Option.some.inj (hbin.symm.trans hbin')
    rw [hd'] at hd
    exact ⟨hp, (Prod.mk.inj (Except.ok.inj hd)).1⟩
  · intro hfits
    obtain ⟨hp, heq⟩ := hfits
    obtain ⟨bin, hbin, hd⟩ := decode_validated hg h hp
    exact ⟨bin, hbin, by rw [hd, heq]⟩

/-- Nothing resolves. -/
def noInet : Inet := ⟨fun _ => .none, fun _ _ => .none, fun _ => []⟩

/-- `{127,0,0,1}` is all that resolves, as IPv4. -/
def loopInet : Inet where
  ntoa
    | .tuple [.int 127, .int 0, .int 0, .int 1] => .some [49, 50, 55, 46, 48, 46, 48, 46, 49]
    | _ => .none
  getaddr
    | .list [.int 49, .int 50, .int 55, .int 46, .int 48, .int 46, .int 48, .int 46, .int 49], .inet =>
      .some (.tuple [.int 127, .int 0, .int 0, .int 1])
    | _, _ => .none
  host := fun _ => [127, 0, 0, 1]

def loopback : ErlTerm := .tuple [.atom .ip, .tuple [.int 127, .int 0, .int 0, .int 1]]

/-- `getaddrinfo` where only `{127,0,0,1}` resolves. -/
def loopInfo : GetAddrInfo := fun s =>
  if s = [49, 50, 55, 46, 48, 46, 48, 46, 49] then .some (.inet, [127, 0, 0, 1]) else .none

theorem loopInet_agrees : loopInet.Agrees loopInfo := by
  have hall : ∀ {t f addr s}, loopInet.getaddr t f = .some addr → loopInet.ntoa addr = .some s →
      f = .inet ∧ s = [49, 50, 55, 46, 48, 46, 48, 46, 49] := by
    intro t f addr s hget hntoa
    simp only [loopInet] at hget hntoa
    split at hget
    · cases hget
      exact ⟨rfl, (Option.some.inj hntoa).symm⟩
    · cases hget
  constructor
  · intro t f addr s hget hntoa
    obtain ⟨-, rfl⟩ := hall hget hntoa
    decide
  · intro t f addr s hget hntoa
    obtain ⟨rfl, rfl⟩ := hall hget hntoa
    rfl

theorem roundtrip_iff_sndbuf :
    ({ new with
      family := .some .inet, ip := .some [49, 50, 55, 46, 48, 46, 48, 46, 49], sndbuf := .some ⟨4096, by decide⟩ } :
      UtpOptions).RoundTrips loopInfo ↔ FitsWidths [loopback, .tuple [.atom .sndbuf, .int 4096]] :=
  roundtrip_iff loopInet_agrees rfl

/-- A send timeout of 2³² milliseconds comes back as 0, and a
packet size of `1.0` as no binary. -/
theorem timeout_wraps : ∃ o o' : UtpOptions, validate noInet [.tuple [.atom .sendTimeout, .int (2 ^ 32)]] = .some o ∧
    ¬o.RoundTrips (fun _ => .none) ∧ validate noInet [.tuple [.atom .packet, .float 1]] = .some o' ∧
    ¬o'.RoundTrips fun _ => .none := by
  refine ⟨{ new with sendTmout := .some (.ms ⟨2 ^ 32, by decide⟩) },
    { new with packet := .some (.float ⟨1, by decide⟩) },
    rfl, ?_, rfl, ?_⟩
  · intro hround
    obtain ⟨bin, hbin, hd⟩ := hround
    obtain rfl := Option.some.inj hbin
    have htmout := congrArg (fun r => r.toOption.map fun r => r.1.sendTmout) hd
    revert htmout
    decide
  · intro hround
    obtain ⟨bin, hbin, -⟩ := hround
    cases hbin

end UtpOptions

end GenUtp
