/-
The merge as an override: what `decode_and_merge` makes of the current options
and of an encoded record.

The loop replays the tags `decode` has noted, so what counts is which tags a
record leads to: one for each field it defines, and no other. `overrides` says
what comes out, field by field, and `decodeAndMerge_overrides` that it does.
Records merged one after the other are one record in which the later
definition of a field wins (`later`), whether or not `validate` would build
it. A record that fixes what a bound socket cannot change is refused as a
whole: the merge works on a copy, and the copy is dropped.
-/
import GenUtp.Getopts

namespace GenUtp

open UtpOptions

namespace UtpOptions

/-- `cur`, with the fields `o` defines as they are in `so`. -/
def overrides (o : UtpOptions) (so cur : SockOpts) : SockOpts :=
  { cur with
    deliveryMode := if o.mode.isSome then so.deliveryMode else cur.deliveryMode
    sendTmout := if o.sendTmout.isSome then so.sendTmout else cur.sendTmout
    active := if o.active.isSome then so.active else cur.active
    packet := if o.packet.isSome then so.packet else cur.packet
    header := if o.header.isSome then so.header else cur.header
    sndbuf := if o.sndbuf.isSome then so.sndbuf else cur.sndbuf
    recbuf := if o.recbuf.isSome then so.recbuf else cur.recbuf }

/-- One record of two: a field is as `o'` defines it, or else as `o` does. -/
def later (o o' : UtpOptions) : UtpOptions where
  mode := o'.mode.or o.mode
  ip := o'.ip.or o.ip
  port := o'.port.or o.port
  family := o'.family.or o.family
  sendTmout := o'.sendTmout.or o.sendTmout
  active := o'.active.or o.active
  packet := o'.packet.or o.packet
  header := o'.header.or o.header
  sndbuf := o'.sndbuf.or o.sndbuf
  recbuf := o'.recbuf.or o.recbuf

/-- The record defines what a bound socket cannot change, and the encoding
tells. -/
def Fixed (o : UtpOptions) : Prop := o.ip ≠ .none ∨ o.port ≠ .none ∨ o.family = .some .inet6

variable {o o' : UtpOptions} {cur : SockOpts} {bin bin' : List UInt8}

theorem getD_override {α β : Type} (x : Option α) (f : α → β) (d c : β) :
    (x.map f).getD c = if x.isSome then (x.map f).getD d else c := by
  cases x <;> rfl

theorem merged_eq (o : UtpOptions) (cur : SockOpts) : o.merged cur = o.overrides o.carried cur := by
  unfold merged overrides carried sockOpts
  rw [getD_override o.sendTmout _ SockOpts.new.sendTmout, getD_override o.active _ SockOpts.new.active,
    getD_override o.packet _ SockOpts.new.packet, getD_override o.header _ SockOpts.new.header,
    getD_override o.sndbuf _ SockOpts.new.sndbuf, getD_override o.recbuf _ SockOpts.new.recbuf]
  cases o.mode <;> rfl

/-! ## Two records -/

theorem Free.later (h : o.Free) (h' : o'.Free) : (o.later o').Free := by
  obtain ⟨hip, hport, hfamily⟩ := h
  obtain ⟨hip', hport', hfamily'⟩ := h'
  simp [UtpOptions.later, Free, hip, hport, hfamily, hip', hport', hfamily']

theorem PacketInt.later (h : o.PacketInt) (h' : o'.PacketInt) : (o.later o').PacketInt := by
  intro n hn
  rcases Option.or_eq_some_iff.1 hn with hn' | ⟨-, hn⟩
  · exact h' n hn'
  · exact h n hn

theorem merged_later (o o' : UtpOptions) (cur : SockOpts) : (o.later o').merged cur = o'.merged (o.merged cur) := by
  simp only [later, merged, Option.map_or, Option.getD_or]

/-! ## The merge -/

/-- **What is merged**: the fields a record defines are as `decode` gives
them, the others as they were. -/
theorem decodeAndMerge_overrides (hfree : o.Free) (hb : o.optionsToBinary = .some bin)
    (numericHost : List UInt8 → Bool) (cur : SockOpts) : ∃ so names,
      SockOpts.decode numericHost .new bin = .ok (so, names) ∧
      cur.decodeAndMerge numericHost bin = .ok (o.overrides so cur) := by
  have hi := hfree.ipFits
  have hmerge := decodeAndMerge_record hfree hb numericHost cur
  obtain rfl := Option.some.inj (hb.symm.trans (optionsToBinary_spells hi (packetInt hb)))
  have hdecode : SockOpts.decode numericHost .new (o.items.flatMap Item.bytes) = _ :=
    SockOpts.decode_spells rfl (items_fit hi) (hfree.numeric numericHost)
  rw [decoded_items hi] at hdecode
  rw [merged_eq] at hmerge
  exact ⟨o.carried, _, hdecode, hmerge⟩

/-- **Two merges are one.** -/
theorem decodeAndMerge_later (hfree : o.Free) (hfree' : o'.Free) (hb : o.optionsToBinary = .some bin)
    (hb' : o'.optionsToBinary = .some bin') (numericHost : List UInt8 → Bool) (cur : SockOpts) : ∃ both r,
      (o.later o').optionsToBinary = .some both ∧ cur.decodeAndMerge numericHost both = .ok r ∧
      (cur.decodeAndMerge numericHost bin).bind (fun cur' => cur'.decodeAndMerge numericHost bin') = .ok r := by
  have hfree₂ := hfree.later hfree'
  have hboth := optionsToBinary_spells hfree₂.ipFits ((packetInt hb).later (packetInt hb'))
  refine ⟨_, _, hboth, decodeAndMerge_record hfree₂ hboth numericHost cur, ?_⟩
  rw [decodeAndMerge_record hfree hb, merged_later]
  exact decodeAndMerge_record hfree' hb' numericHost (o.merged cur)

/-! ## A record that is refused -/

theorem refused_item (hi : o.IpFits) (hfixed : o.Fixed) : ∃ i ∈ o.items, i.refused = true := by
  have hmem : ∀ {i : Item}, i ∈ familyItem o.family ∨ i ∈ ipItem o.ip ∨ i ∈ portItem o.port → i ∈ o.items := by
    intro i hi
    simp only [items, List.mem_append, Option.mem_toList]
    tauto
  rcases hfixed with hip | hport | hfamily
  · obtain ⟨s, hs⟩ := Option.ne_none_iff_exists'.1 hip
    refine ⟨.ip s (hi s hs).1, hmem (.inr (.inl ?_)), rfl⟩
    simp [ipItem, hs, (hi s hs).1]
  · obtain ⟨n, hn⟩ := Option.ne_none_iff_exists'.1 hport
    refine ⟨half .port n.val, hmem (.inr (.inr ?_)), rfl⟩
    simp [portItem, hn]
  · refine ⟨.inet6, hmem (.inl ?_), rfl⟩
    simp [familyItem, hfamily]

variable {inet : Inet} {g : GetAddrInfo} {opts : List ErlTerm}

theorem decodeAndMerge_fixed (hg : inet.Agrees g) (hv : validate inet opts = .some o) (hfixed : o.Fixed)
    (hb : o.optionsToBinary = .some bin) (cur : SockOpts) :
    cur.decodeAndMerge g.numericHost bin = .error .invalidArgument := by
  obtain ⟨hi, hnum⟩ := ip_reads hg hv
  obtain rfl := Option.some.inj (hb.symm.trans (optionsToBinary_spells hi (packetInt hb)))
  refine SockOpts.decodeAndMerge_refused cur rfl (items_fit hi) ?_ (refused_item hi hfixed)
  intro s hs
  rw [Item.lastAddress, items_text hi] at hs
  refine hnum s ?_
  cases hip : o.ip <;> simp_all

end UtpOptions

variable {g : GetAddrInfo} {m : MainHandler} {d : Delegatee} {bin : List UInt8}

/-- The driver's `setopts`, where the merge throws. -/
theorem MainHandler.setopts_refused (hd : m.delegatee = .some d)
    (hmerge : d.sockopts.decodeAndMerge g.numericHost bin = .error .invalidArgument) (p : Pid) (mem : Mem) :
    ∃ o, m.control g p (.setopts [.version, .binary bin] mem) = .some (m, o) ∧ Answers o .badarg := by
  have hbin : decodeBinary [.version, .binary bin] = .some bin := rfl
  obtain ⟨_⟩ := m
  subst hd
  cases d with
  | utp h =>
    have hm : UtpHandler.machine h (.setopts p [.version, .binary bin] g.numericHost mem) =
        .some (h, [.reply .badarg]) := by
      simp only [Delegatee.sockopts] at hmerge
      simp [UtpHandler.machine, UtpHandler.handle, UtpHandler.setopts, UtpHandler.socketSetopts, hbin, hmerge,
        UtpHandler.emit]
    refine ⟨[.utp (.reply .badarg)], ?_, .inl (by simp)⟩
    simp only [MainHandler.control, UtpHandler.control, hm, Option.map_some]
    rfl
  | listener l =>
    have hl : l.setopts [.version, .binary bin] g.numericHost = .some (l, .badarg) := by
      simp only [Delegatee.sockopts] at hmerge
      simp [Listener.setopts, hbin, hmerge]
    refine ⟨[.reply .badarg], ?_, .inr (by simp)⟩
    simp only [MainHandler.control, Listener.control, hl, Option.map_some]

/-- **Option merge is a field-wise override.** One merge, two in turn, and a
record the driver refuses. -/
theorem option_merge_overrides {inet : Inet} (hg : inet.Agrees g) :
    (∀ (o : UtpOptions) (bin : List UInt8) (cur : SockOpts), o.Free → o.optionsToBinary = .some bin →
      ∃ so names, SockOpts.decode g.numericHost .new bin = .ok (so, names) ∧
        cur.decodeAndMerge g.numericHost bin = .ok (o.overrides so cur)) ∧
    (∀ (o o' : UtpOptions) (bin bin' : List UInt8) (cur : SockOpts), o.Free → o'.Free →
      o.optionsToBinary = .some bin → o'.optionsToBinary = .some bin' →
      ∃ both r, (o.later o').optionsToBinary = .some both ∧ cur.decodeAndMerge g.numericHost both = .ok r ∧
        (cur.decodeAndMerge g.numericHost bin).bind (fun cur' => cur'.decodeAndMerge g.numericHost bin') = .ok r) ∧
    (∀ (opts : List ErlTerm) (o : UtpOptions) (bin : List UInt8), validate inet opts = .some o → o.Fixed →
      o.optionsToBinary = .some bin → ∀ (m : MainHandler) (p : Pid) (mem : Mem), m.delegatee ≠ .none →
      ∃ x, m.control g p (.setopts [.version, .binary bin] mem) = .some (m, x) ∧ Answers x .badarg) := by
  refine ⟨?_, ?_, ?_⟩
  · intro o bin cur hfree hb
    exact decodeAndMerge_overrides hfree hb g.numericHost cur
  · intro o o' bin bin' cur hfree hfree' hb hb'
    exact decodeAndMerge_later hfree hfree' hb hb' g.numericHost cur
  · intro opts o bin hv hfixed hb m p mem hm
    obtain ⟨d, hd⟩ := Option.ne_none_iff_exists'.1 hm
    exact MainHandler.setopts_refused hd (decodeAndMerge_fixed hg hv hfixed hb d.sockopts) p mem

/-- `{active, once}` with a packet size and a send buffer, and after it
`{active, false}` with a receive buffer. -/
def onceRecord : UtpOptions :=
  { UtpOptions.new with
    active := .some .once, packet := UtpOptions.asPacket (.int 2), sndbuf := .some ⟨4096, by decide⟩ }
def offRecord : UtpOptions :=
  { UtpOptions.new with active := .some (.bool false), recbuf := .some ⟨65536, by decide⟩ }

theorem option_merge_overrides_once :
    (∃ so names, SockOpts.decode loopInfo.numericHost .new [10, 1, 11, 2, 13, 0, 0, 16, 0] = .ok (so, names) ∧
      SockOpts.new.decodeAndMerge loopInfo.numericHost [10, 1, 11, 2, 13, 0, 0, 16, 0] =
        .ok (onceRecord.overrides so .new)) ∧
    (∃ both r, (onceRecord.later offRecord).optionsToBinary = .some both ∧
      SockOpts.new.decodeAndMerge loopInfo.numericHost both = .ok r ∧
      (SockOpts.new.decodeAndMerge loopInfo.numericHost [10, 1, 11, 2, 13, 0, 0, 16, 0]).bind
        (fun cur => cur.decodeAndMerge loopInfo.numericHost [10, 0, 14, 0, 1, 0, 0]) = .ok r) ∧
    ∃ x, MainHandler.control loopInfo ⟨.some (.utp (UtpHandler.startServer .new 1))⟩ 7
      (.setopts [.version, .binary [3, 1, 49, 50, 55, 46, 48, 46, 48, 46, 49, 0]] fun _ => 0) =
        .some (⟨.some (.utp (UtpHandler.startServer .new 1))⟩, x) ∧ Answers x .badarg := by
  obtain ⟨hone, htwo, hrefused⟩ := option_merge_overrides loopInet_agrees
  have hfree : onceRecord.Free ∧ offRecord.Free := ⟨⟨rfl, rfl, rfl⟩, ⟨rfl, rfl, rfl⟩⟩
  refine ⟨hone _ _ _ hfree.1 rfl, htwo _ _ _ _ _ hfree.1 hfree.2 rfl rfl, ?_⟩
  exact hrefused [loopback, .atom .list] _ _ rfl (.inl (by simp)) rfl _ 7 _ (by simp)

end GenUtp
