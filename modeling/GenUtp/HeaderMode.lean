/-
A header in binary mode: `validate` refuses `{header, Size}` without `binary`,
and `gen_utp:setopts` calls it on the options of one call.

The options of a socket are those it was opened with, or those of the
listener it was accepted by, merged with every `setopts` since. `machine` has
all sockets of a node in one state and lets the calls and the driver's events
come in any order. A header always comes with binary mode, but `list` comes
with no header to check it against: the invariant holds along a run exactly
when every `setopts` to list mode finds the header 0 (`header_binary_iff`).
-/
import GenUtp.Arrivals
import GenUtp.Binding
import GenUtp.Getopts
import GenUtp.OptionOrder

namespace GenUtp

open UtpOptions

/-- The header is 0, or the mode is binary. -/
def SockOpts.HeaderBinary (so : SockOpts) : Prop := so.header ≠ 0 → so.deliveryMode = .dataBinary

/-- The handler behind each port, in the order they were opened. -/
abbrev Ports := List Delegatee

namespace Ports

instance (o : UtpOptions) : Decidable o.Free := inferInstanceAs (Decidable (_ ∧ _ ∧ _))

/-- The argument of `UTP_SETOPTS`, as `setopts(Sock, Opts)` builds it. -/
def setoptsArgs (inet : Inet) (opts : List ErlTerm) : Option EiBuf := do
  let o ← validate inet opts
  if o.Free then
    let bin ← o.optionsToBinary
    .some [.version, .binary bin]
  else .none

/-! ## All sockets -/

/-- A call of `gen_utp`, with what the driver's calls answer, or an event of
one handler. -/
inductive PortEvent
  | listen (p : Pid) (port : Fin 65536) (options : List ErlTerm) (c : StartCalls)
  | connect (p : Pid) (addr : ErlTerm) (port : Fin 65536) (opts : List ErlTerm) (c : StartCalls)
  | setopts (i : Nat) (p : Pid) (opts : List ErlTerm) (mem : Mem)
  | utp (i : Nat) (e : Event)
  | listener (i : Nat) (e : ListenerEvent)

/-- The ports a listener creates. -/
def servers (o : List ListenerEffect) : List Delegatee := o.filterMap fun
  | .createPort _ _ server => .some (.utp server)
  | _ => .none

/-- A new port and its first request; `none` for the argument is an exception
before the port is opened. -/
def openPort (g : GetAddrInfo) (w : Ports) (p : Pid) (r : EiBuf → Request) :
    Option EiBuf → Option (Ports × List PortEffect)
  | .none => .some (w, [])
  | .some buf => (MainHandler.control g .new p (r buf)).map fun x => (w ++ x.1.delegatee.toList, x.2)

def machine (inet : Inet) (g : GetAddrInfo) (w : Ports) : PortEvent → Option (Ports × List PortEffect)
  | .listen p port options c => openPort g w p (.listen · c) (listenArgs inet port options)
  | .connect p addr port opts c => openPort g w p (.connectStart · c) (connectArgs inet addr port opts)
  | .setopts i p opts mem =>
    match setoptsArgs inet opts with
    | .none => .some (w, [])
    | .some buf => do
      let d ← w[i]?
      let x ← MainHandler.control g ⟨.some d⟩ p (.setopts buf mem)
      .some (w.set i (x.1.delegatee.getD d), x.2)
  | .utp i e =>
    match w[i]? with
    | .some (.utp h) => (UtpHandler.machine h e).map fun x => (w.set i (.utp x.1), x.2.map .utp)
    | _ => .none
  | .listener i e =>
    match w[i]? with
    | .some (.listener l) =>
      (Listener.machine l e).map fun x => (w.set i (.listener x.1) ++ servers x.2, x.2.map .listener)
    | _ => .none

/-- No `UTP_SETOPTS` but those of `gen_utp:setopts`. -/
def ByCall : Runs.Guard Ports PortEvent (List PortEffect)
  | _, _, .utp _ e => e.isSetopts = false
  | _, _, _ => True

/-- Every header comes with binary mode. -/
def HeadersBinary (w : Ports) : Prop := ∀ d ∈ w, d.sockopts.HeaderBinary

/-- A `setopts` to list mode finds no header. -/
def FindsNoHeader (inet : Inet) (w : Ports) : PortEvent → Prop
  | .setopts i _ opts _ => ∀ o d, validate inet opts = .some o → o.Free → o.PacketInt → o.mode = .some .dataList →
      w[i]? = .some d → d.sockopts.header = 0
  | _ => True

variable {inet : Inet} {g : GetAddrInfo} {opts : List ErlTerm} {o : UtpOptions} {so cur : SockOpts}

/-! ## One record -/

theorem validate_header (hv : validate inet opts = .some o) (hh : o.header ≠ .none) : o.mode = .some .dataBinary := by
  obtain ⟨o₁, -, hv⟩ := Option.bind_eq_some_iff.1 hv
  split at hv
  · next hnone =>
    cases hv
    exact absurd hnone hh
  · next hmode =>
    cases hv
    exact hmode
  · cases hv

theorem carried_headerBinary (hv : validate inet opts = .some o) : o.carried.HeaderBinary := by
  intro hh
  have hmode : o.mode = .some .dataBinary := by
    refine validate_header hv fun hnone => hh ?_
    simp [carried, sockOpts, hnone, SockOpts.new]
  simp [carried, sockOpts, hmode]

/-- Merged into options that have it, a record keeps the invariant unless it
sets list mode under a header. -/
theorem merged_headerBinary (hv : validate inet opts = .some o) (hcur : cur.HeaderBinary) :
    (o.merged cur).HeaderBinary ↔ (o.mode = .some .dataList → cur.header = 0) := by
  have hheader : o.mode ≠ .some .dataBinary → o.header = .none := by
    intro hmode
    by_contra hh
    exact hmode (validate_header hv hh)
  rcases hm : o.mode with _ | _ | _
  · simpa [SockOpts.HeaderBinary, UtpOptions.merged, hm, hheader] using hcur
  · simp [SockOpts.HeaderBinary, UtpOptions.merged, hm, hheader]
  · simp [SockOpts.HeaderBinary, UtpOptions.merged, hm]

theorem reverted_headerBinary : so.reverted.HeaderBinary ↔ so.HeaderBinary := by
  simp [SockOpts.HeaderBinary]

/-! ## Opening -/

variable {w w' : Ports} {m' : MainHandler} {p : Pid} {c : StartCalls} {out : List PortEffect} {bin : List UInt8}

theorem headersBinary_nil : HeadersBinary [] := List.forall_mem_nil _

theorem decode_binary (hg : inet.Agrees g) (hv : validate inet opts = .some o) (hb : o.optionsToBinary = .some bin) :
    ∃ names, SockOpts.decode g.numericHost .new bin = .ok (o.carried, names) := by
  obtain ⟨bin', hb', hd⟩ := decode_validated hg hv (packetInt hb)
  obtain rfl := Option.some.inj (hb.symm.trans hb')
  exact ⟨_, hd⟩

theorem listen_headerBinary {port : Fin 65536} {options : List ErlTerm} {buf : EiBuf} (hg : inet.Agrees g)
    (ha : listenArgs inet port options = .some buf)
    (hc : MainHandler.control g .new p (.listen buf c) = .some (m', out)) :
    HeadersBinary m'.delegatee.toList := by
  simp only [listenArgs, Option.bind_eq_bind, Option.bind_eq_some_iff, Option.some.injEq] at ha
  obtain ⟨o, hv, bin, hb, rfl⟩ := ha
  obtain ⟨names, hd⟩ := decode_binary hg hv hb
  have hbin : decodeBinary [.version, .binary bin] = .some bin := rfl
  simp only [MainHandler.control, MainHandler.new, MainHandler.listen, hbin, hd] at hc
  obtain ⟨addr, -, hc⟩ := Option.bind_eq_some_iff.1 hc
  split at hc
  · cases hc
    exact headersBinary_nil
  · split at hc
    · cases hc
      exact List.forall_mem_singleton.2 (carried_headerBinary hv)
    · cases hc

theorem decodeConnectStart_binary {text : List UInt8} {port : Int} {a : List UInt8 × Nat × List UInt8}
    (h : MainHandler.decodeConnectStart [.version, .tuple 3, .string text, .int port, .binary bin] = .some (.some a)) :
    a.2.2 = bin := by
  simp only [MainHandler.decodeConnectStart, EiDecoder.start, EiDecoder.tupleHeader, EiDecoder.string,
    EiDecoder.ulongval, EiDecoder.binary, ne_eq, not_true_eq_false, if_false, Option.bind_eq_bind, Option.bind_some,
    Option.ite_none_right_eq_some, Option.some.injEq, Option.bind_eq_some_iff] at h
  obtain ⟨-, x, ⟨-, rfl⟩, y, hy, rfl⟩ := h
  exact (congrArg Prod.fst (Option.some.inj hy)).symm

theorem connect_headerBinary {addr : ErlTerm} {port : Fin 65536} {buf : EiBuf} (hg : inet.Agrees g)
    (ha : connectArgs inet addr port opts = .some buf)
    (hc : MainHandler.control g .new p (.connectStart buf c) = .some (m', out)) :
    HeadersBinary m'.delegatee.toList := by
  obtain ⟨text, -, ha⟩ := Option.bind_eq_some_iff.1 ha
  obtain ⟨o, hv, ha⟩ := Option.bind_eq_some_iff.1 ha
  obtain ⟨bin, hb, ha⟩ := Option.bind_eq_some_iff.1 ha
  obtain rfl := Option.some.inj ha
  obtain ⟨names, hd⟩ := decode_binary hg hv hb
  obtain ⟨arg, harg, hc⟩ := Option.bind_eq_some_iff.1 hc
  rcases arg with _ | ⟨addrstr, addrport, binopts⟩
  · cases hc
    exact headersBinary_nil
  · have hbin : binopts = bin := decodeConnectStart_binary harg
    simp only [hbin, hd] at hc
    split at hc
    · cases hc
      exact headersBinary_nil
    · obtain ⟨a, -, hc⟩ := Option.bind_eq_some_iff.1 hc
      split at hc
      · cases hc
        exact headersBinary_nil
      · cases hc
        exact List.forall_mem_singleton.2 (carried_headerBinary hv)

/-! ## `setopts` -/

/-- `setopts` merges the record into the options of the port; a delivery after
it reverts `once` at most. -/
theorem setopts_sockopts {d : Delegatee} {mem : Mem} (hfree : o.Free) (hb : o.optionsToBinary = .some bin)
    (hc : MainHandler.control g ⟨.some d⟩ p (.setopts [.version, .binary bin] mem) = .some (m', out)) :
    ∃ d', m'.delegatee = .some d' ∧
      (d'.sockopts = o.merged d.sockopts ∨ d'.sockopts = (o.merged d.sockopts).reverted) := by
  have hmerge := decodeAndMerge_record hfree hb g.numericHost d.sockopts
  have hbin : decodeBinary [.version, .binary bin] = .some bin := rfl
  cases d with
  | utp h =>
    obtain ⟨⟨h', o'⟩, hcon, heq⟩ := Option.map_eq_some_iff.1 hc
    obtain ⟨rfl, rfl⟩ := Prod.mk.inj heq
    obtain ⟨⟨h'', x⟩, hm, heq⟩ := Option.map_eq_some_iff.1 hcon
    obtain ⟨rfl, rfl⟩ := Prod.mk.inj heq
    refine ⟨.utp h'', rfl, ?_⟩
    have hso := UtpHandler.sockopts_setopts hbin hmerge (UtpHandler.machine_step hm)
    by_cases hx : payloads x = []
    · exact .inl (hso.trans (if_pos hx))
    · exact .inr (hso.trans (if_neg hx))
  | listener l =>
    obtain ⟨⟨l', o'⟩, hcon, heq⟩ := Option.map_eq_some_iff.1 hc
    obtain ⟨rfl, rfl⟩ := Prod.mk.inj heq
    obtain ⟨⟨l'', r⟩, hset, heq⟩ := Option.map_eq_some_iff.1 hcon
    obtain ⟨rfl, rfl⟩ := Prod.mk.inj heq
    refine ⟨.listener l'', rfl, .inl ?_⟩
    simp only [Delegatee.sockopts] at hmerge
    simp only [Listener.setopts, hbin, hmerge, Option.some.injEq, Prod.mk.injEq] at hset
    rw [← hset.1]
    rfl

theorem setoptsArgs_some {buf : EiBuf} (ha : setoptsArgs inet opts = .some buf) :
    ∃ o bin, validate inet opts = .some o ∧ o.Free ∧ o.optionsToBinary = .some bin ∧ buf = [.version, .binary bin] := by
  obtain ⟨o, hv, ha⟩ := Option.bind_eq_some_iff.1 ha
  split at ha
  · next hfree =>
    obtain ⟨bin, hb, ha⟩ := Option.bind_eq_some_iff.1 ha
    exact ⟨o, bin, hv, hfree, hb, (Option.some.inj ha).symm⟩
  · cases ha

/-- A record with nothing fixed and no float is sent. -/
theorem setoptsArgs_sent (hv : validate inet opts = .some o) (hfree : o.Free) (hp : o.PacketInt) :
    setoptsArgs inet opts ≠ .none := by
  have hb := optionsToBinary_spells hfree.ipFits hp
  simp [setoptsArgs, hv, hfree, hb]

theorem headersBinary_set {i : Nat} {d d' : Delegatee} (hd : w[i]? = .some d) (hw : HeadersBinary w) :
    HeadersBinary (w.set i d') ↔ d'.sockopts.HeaderBinary := by
  constructor
  · intro hall
    exact hall d' (List.mem_set (List.getElem?_eq_some_iff.1 hd).1 d')
  · intro hd' x hx
    rcases List.mem_or_eq_of_mem_set hx with hx | rfl
    · exact hw x hx
    · exact hd'

/-- The servers a listener creates have its options. -/
theorem serverOf_sockopts (l : Listener) (d : Datagram) : (l.serverOf d).setPort.sockopts = l.sockopts := by
  obtain ⟨e, he⟩ := Listener.doErrors_eq d.incoming.sendErrors (h := UtpHandler.new .server l.sockopts) rfl
  simp only [Listener.serverOf, IncomingCall.run, he]
  cases d.incoming.socket <;> rfl

theorem servers_opening {c : OpenCalls} {r : Opened} (h : Opening c r) : servers r.out = [] := by
  cases h <;> rfl

theorem servers_append (o o' : List ListenerEffect) : servers (o ++ o') = servers o ++ servers o' :=
  List.filterMap_append

/-- What is put out before the server creates no port. -/
theorem servers_created {c : OpenCalls} {r : Opened} (h : Opening c r) (o : List ListenerEffect) :
    servers (Listener.created r ++ o) = servers o := by
  rw [servers_append, Listener.created, servers_append, servers_opening h]
  rfl

theorem servers_sockopts {l l' : Listener} {e : ListenerEvent} {x : List ListenerEffect}
    (hm : l.machine e = .some (l', x)) : ∀ d ∈ servers x, d.sockopts = l.sockopts := by
  have hnone : ∀ {o : List ListenerEffect}, servers o = [] → ∀ d ∈ servers o, d.sockopts = l.sockopts := by
    intro o ho d hd
    rw [ho] at hd
    cases hd
  cases Listener.machine_step hm with
  | arrived hi =>
    cases hi with
    | dropped => exact hnone rfl
    | refused _ _ ho =>
      rw [servers_append, servers_opening ho]
      exact hnone rfl
    | handedOver _ _ ho =>
      rw [servers_created ho]
      exact List.forall_mem_singleton.2 (serverOf_sockopts l _)
    | discarded _ _ ho =>
      rw [List.append_assoc, List.append_assoc, servers_created ho]
      exact hnone rfl
  | _ => exact hnone rfl

/-! ## Runs -/

theorem openPort_headersBinary {r : EiBuf → Request} {args : Option EiBuf} (hw : HeadersBinary w)
    (hopen : ∀ buf m' out, args = .some buf → MainHandler.control g .new p (r buf) = .some (m', out) →
      HeadersBinary m'.delegatee.toList)
    (hm : openPort g w p r args = .some (w', out)) : HeadersBinary w' := by
  cases args with
  | none =>
    cases hm
    exact hw
  | some buf =>
    obtain ⟨⟨m', x⟩, hc, heq⟩ := Option.map_eq_some_iff.1 hm
    obtain ⟨rfl, -⟩ := Prod.mk.inj heq
    exact List.forall_mem_append.2 ⟨hw, hopen buf m' x rfl hc⟩

/-- A `setopts` keeps the invariant exactly when it sets no list mode under a
header. -/
theorem setopts_headersBinary {i : Nat} {mem : Mem} (hw : HeadersBinary w)
    (hm : machine inet g w (.setopts i p opts mem) = .some (w', out)) :
    HeadersBinary w' ↔ FindsNoHeader inet w (.setopts i p opts mem) := by
  simp only [machine] at hm
  split at hm
  · next hargs =>
    cases hm
    refine iff_of_true hw ?_
    intro o d hv hfree hp
    exact absurd hargs (setoptsArgs_sent hv hfree hp)
  · next buf hargs =>
    obtain ⟨o, bin, hv, hfree, hb, rfl⟩ := setoptsArgs_some hargs
    obtain ⟨d, hd, hm⟩ := Option.bind_eq_some_iff.1 hm
    obtain ⟨⟨m', x⟩, hc, hm⟩ := Option.bind_eq_some_iff.1 hm
    obtain ⟨rfl, -⟩ := Prod.mk.inj (Option.some.inj hm)
    obtain ⟨d', hd', hso⟩ := setopts_sockopts hfree hb hc
    have hmerged : d'.sockopts.HeaderBinary ↔ (o.merged d.sockopts).HeaderBinary := by
      rcases hso with hso | hso
      · rw [hso]
      · rw [hso, reverted_headerBinary]
    rw [hd', Option.getD_some, headersBinary_set hd hw, hmerged,
      merged_headerBinary hv (hw d (List.mem_of_getElem? hd))]
    constructor
    · intro hmode o₁ d₁ hv₁ _ _ hlist hd₁
      obtain rfl := Option.some.inj (hv.symm.trans hv₁)
      obtain rfl := Option.some.inj (hd.symm.trans hd₁)
      exact hmode hlist
    · intro hfinds hlist
      exact hfinds o d hv hfree (packetInt hb) hlist hd

/-- One step keeps the invariant exactly when it is no `setopts` to list mode
under a header. -/
theorem headersBinary_step {e : PortEvent} {t : Runs.Trace Ports PortEvent (List PortEffect)} (hg : inet.Agrees g)
    (hw : HeadersBinary w) (he : ByCall t w e) (hm : machine inet g w e = .some (w', out)) :
    HeadersBinary w' ↔ FindsNoHeader inet w e := by
  cases e with
  | listen p port options c =>
    have hm : openPort g w p (.listen · c) (listenArgs inet port options) = .some (w', out) := hm
    refine iff_of_true (openPort_headersBinary hw ?_ hm) trivial
    intro buf m' out ha hc
    exact listen_headerBinary hg ha hc
  | connect p addr port opts c =>
    refine iff_of_true (openPort_headersBinary hw ?_ hm) trivial
    intro buf m' out ha hc
    exact connect_headerBinary hg ha hc
  | setopts i p opts mem => exact setopts_headersBinary hw hm
  | utp i e =>
    refine iff_of_true ?_ trivial
    simp only [machine] at hm
    split at hm
    · next h hd =>
      obtain ⟨⟨h', x⟩, hstep, heq⟩ := Option.map_eq_some_iff.1 hm
      obtain ⟨rfl, -⟩ := Prod.mk.inj heq
      have hold : h.sockopts.HeaderBinary := hw _ (List.mem_of_getElem? hd)
      refine (headersBinary_set hd hw).2 ?_
      show h'.sockopts.HeaderBinary
      rw [UtpHandler.sockopts_step (UtpHandler.machine_step hstep) he]
      split
      · exact hold
      · exact reverted_headerBinary.2 hold
    · cases hm
  | listener i e =>
    refine iff_of_true ?_ trivial
    simp only [machine] at hm
    split at hm
    · next l hd =>
      obtain ⟨⟨l', x⟩, hstep, heq⟩ := Option.map_eq_some_iff.1 hm
      obtain ⟨rfl, -⟩ := Prod.mk.inj heq
      have hold : l.sockopts.HeaderBinary := hw _ (List.mem_of_getElem? hd)
      refine List.forall_mem_append.2 ⟨(headersBinary_set hd hw).2 ?_, ?_⟩
      · show l'.sockopts.HeaderBinary
        rw [Listener.sockopts_step hstep]
        exact hold
      · intro d hserver
        rw [servers_sockopts hstep d hserver]
        exact hold
    · cases hm

/-- **Along a run every header comes with binary mode exactly when every
`setopts` to list mode finds the header 0.** -/
theorem header_binary_iff {t : Runs.Trace Ports PortEvent (List PortEffect)} (hg : inet.Agrees g)
    (run : Runs.Run (machine inet g) ByCall [] [] t w) :
    Runs.Each (Runs.After (machine inet g) fun _ w => HeadersBinary w) t ↔
      Runs.Each (fun _ x => FindsNoHeader inet x.pre x.event) t := by
  refine Runs.Run.each_iff (I := fun _ _ => True) (Q := fun _ w => HeadersBinary w) trivial headersBinary_nil ?_ run
  intro t w e w' o _ hw he hm
  exact ⟨trivial, headersBinary_step hg hw he hm⟩

/-- A client with `binary` and a header of 2. -/
def headerClient : PortEvent :=
  .connect 7 (.tuple [.int 127, .int 0, .int 0, .int 1]) ⟨80, by decide⟩
    [.atom .binary, .tuple [.atom .header, .int 2]] ⟨⟨.ok 0, .ok (), .ok (), .ok ()⟩, true, 1⟩

def headerOpts : SockOpts := { SockOpts.new with header := 2, deliveryMode := .dataBinary }

theorem headerClient_step : machine loopInet loopInfo [] headerClient =
    .some ([.utp (UtpHandler.startClient headerOpts 1)], [.bind ⟨.inet, inaddrAny, 0⟩, .reply .ok]) := rfl

def headerRun : Runs.Trace Ports PortEvent (List PortEffect) :=
  [⟨[], headerClient, [.bind ⟨.inet, inaddrAny, 0⟩, .reply .ok]⟩]

theorem header_binary_iff_client :
    Runs.Each (Runs.After (machine loopInet loopInfo) fun _ w => HeadersBinary w) headerRun ↔
      Runs.Each (fun _ x => FindsNoHeader loopInet x.pre x.event) headerRun :=
  have run := (Runs.Run.start (machine loopInet loopInfo) ByCall []).next headerClient trivial headerClient_step
  header_binary_iff loopInet_agrees run

/-- A client opened with `binary` and a header, then set to list mode. -/
theorem header_outlives_binary : ∃ t w, Runs.Run (machine loopInet loopInfo) ByCall [] [] t w ∧ ¬HeadersBinary w := by
  have run := (Runs.Run.start (machine loopInet loopInfo) ByCall []).next headerClient trivial headerClient_step
  have hlist : machine loopInet loopInfo [.utp (UtpHandler.startClient headerOpts 1)]
      (.setopts 0 7 [.atom .list] fun _ => 0) =
      .some ([.utp { UtpHandler.startClient headerOpts 1 with
        sockopts := { headerOpts with deliveryMode := .dataList } }], [.utp (.reply .ok)]) := rfl
  refine ⟨_, _, run.next (.setopts 0 7 [.atom .list] fun _ => 0) trivial hlist, ?_⟩
  intro hall
  have hmode := hall _ (List.mem_singleton.2 rfl) (show 2 ≠ 0 by decide)
  cases hmode

end Ports

end GenUtp
