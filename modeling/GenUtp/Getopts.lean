/-
`getopts`: what it answers, and what it says of the options last set.

The answer is one pair for each name, in order, with the setting, unless
the names ask for `header`, which `validate_names` encodes and
`SocketHandler::getopts` has no case for, or for a setting it cannot tell: a
negative buffer size, or an `active` value that is none. After a `setopts`
and any events but another `setopts`, every option comes back as it was set,
`once` as `false` when a message has gone out since, if its field in the
binary was wide enough (`getopts_reports`).
-/
import GenUtp.Options
import GenUtp.ReadStream

namespace GenUtp

open UtpHandler UtpOptions

/-! ## `validate_names` -/

def nameTag : ErlTerm → Option UInt8
  | .atom .active => .some 10
  | .atom .mode => .some 5
  | .atom .sendTimeout => .some 8
  | .atom .packet => .some 11
  | .atom .header => .some 12
  | .atom .sndbuf => .some 13
  | .atom .recbuf => .some 14
  | _ => .none

/-- `validate_names`: a fold that stays with its first error. -/
def validateNames (optNames : List ErlTerm) : Option (List UInt8) :=
  optNames.foldlM (fun bin name => (nameTag name).map fun tag => bin ++ [tag]) []

theorem validateNames_eq (optNames : List ErlTerm) : validateNames optNames = optNames.mapM nameTag := by
  have key : ∀ (names : List ErlTerm) (bin : List UInt8),
      names.foldlM (fun bin name => (nameTag name).map fun tag => bin ++ [tag]) bin =
        (names.mapM nameTag).map (bin ++ ·) := by
    intro names
    induction names with
    | nil => simp
    | cons name names ih =>
      intro bin
      rw [List.foldlM_cons, List.mapM_cons]
      cases nameTag name with
      | none => rfl
      | some tag =>
        simp only [Option.map_some, Option.bind_eq_bind, Option.bind_some, ih]
        cases names.mapM nameTag <;> simp
  rw [validateNames, key]
  cases optNames.mapM nameTag <;> simp

/-! ## The settings -/

/-- A setting under its name; `active` may hold a value that is none. -/
def setting (so : SockOpts) : ErlTerm → Option (String × OptVal)
  | .atom .active => match so.active with
    | .activeFalse => .some ("active", .atom "false")
    | .activeOnce => .some ("active", .atom "once")
    | .activeTrue => .some ("active", .atom "true")
    | .invalid _ => .none
  | .atom .mode => .some ("mode", match so.deliveryMode with
    | .dataList => .atom "list"
    | .dataBinary => .atom "binary")
  | .atom .sendTimeout => .some ("send_timeout", if so.sendTmout = -1 then .atom "infinity" else .int so.sendTmout)
  | .atom .packet => .some ("packet", .int so.packet)
  | .atom .header => .some ("header", .int so.header)
  | .atom .sndbuf => .some ("sndbuf", .int so.sndbuf)
  | .atom .recbuf => .some ("recbuf", .int so.recbuf)
  | _ => .none

/-- The settings `getopts` can tell: not `header`, no negative size, no
`active` value that is none. -/
def Tells (so : SockOpts) : ErlTerm → Prop
  | .atom .header => False
  | .atom .active => so.active.Valid
  | .atom .sndbuf => 0 ≤ so.sndbuf ∧ so.sndbuf < 2 ^ 64
  | .atom .recbuf => 0 ≤ so.recbuf ∧ so.recbuf < 2 ^ 64
  | _ => True

variable {so : SockOpts} {names : List ErlTerm} {bin : List UInt8}

theorem self_eq_emod_iff (n : Int) : n = n % 2 ^ 64 ↔ 0 ≤ n ∧ n < 2 ^ 64 := by
  omega

theorem getopt_setting {name : ErlTerm} {tag : UInt8} (hn : nameTag name = .some tag) :
    (∃ x, getopt so tag = .some x ∧ setting so name = .some x) ↔ Tells so name := by
  unfold nameTag at hn
  split at hn <;> cases hn
  · rcases ha : so.active with _ | _ | _ | b <;> simp [getopt, setting, Tells, ha, Active.Valid]
  · cases hm : so.deliveryMode <;> simp [getopt, setting, Tells, hm]
  · simp [getopt, setting, Tells]
  · simp [getopt, setting, Tells]
  · simp [getopt, Tells]
  · simpa [getopt, setting, Tells] using self_eq_emod_iff so.sndbuf
  · simpa [getopt, setting, Tells] using self_eq_emod_iff so.recbuf

theorem getopts_table {f : ErlTerm → Option (String × OptVal)} {P : ErlTerm → Prop} :
    ∀ {names : List ErlTerm} {bin : List UInt8}, names.mapM nameTag = .some bin →
      (∀ name ∈ names, ∀ tag, nameTag name = .some tag → ((∃ x, getopt so tag = .some x ∧ f name = .some x) ↔ P name)) →
      ((∃ l, bin.mapM (getopt so) = .some l ∧ names.mapM f = .some l) ↔ ∀ name ∈ names, P name)
  | [], bin, hn, _ => by
    cases hn
    simp
  | name :: names, bin, hn, hf => by
    rw [List.mapM_cons] at hn
    obtain ⟨tag, htag, hn⟩ := Option.bind_eq_some_iff.1 hn
    obtain ⟨tags, htags, hn⟩ := Option.bind_eq_some_iff.1 hn
    obtain rfl := Option.some.inj hn
    have hrest := getopts_table (f := f) (P := P) htags fun name hmem => hf name (by simp [hmem])
    rw [List.forall_mem_cons, ← hf name (by simp) tag htag, ← hrest, List.mapM_cons, List.mapM_cons]
    constructor
    · intro hget
      obtain ⟨l, hget, hset⟩ := hget
      obtain ⟨x, hx, hget⟩ := Option.bind_eq_some_iff.1 hget
      obtain ⟨xs, hxs, hget⟩ := Option.bind_eq_some_iff.1 hget
      obtain ⟨y, hy, hset⟩ := Option.bind_eq_some_iff.1 hset
      obtain ⟨ys, hys, hset⟩ := Option.bind_eq_some_iff.1 hset
      obtain ⟨rfl, rfl⟩ := List.cons.inj ((Option.some.inj hget).trans (Option.some.inj hset).symm)
      exact ⟨⟨x, hx, hy⟩, xs, hxs, hys⟩
    · intro hall
      obtain ⟨⟨x, hx, hy⟩, xs, hxs, hys⟩ := hall
      exact ⟨x :: xs, by simp [hx, hxs], by simp [hy, hys]⟩

/-! ## The answer -/

/-- The options of the handler behind a port. -/
def Delegatee.sockopts : Delegatee → SockOpts
  | .utp h => h.sockopts
  | .listener l => l.sockopts

theorem getopts_answers {g : GetAddrInfo} {m m' : MainHandler} {d : Delegatee} {p : Pid} {buf : EiBuf}
    {o : List PortEffect} {l : List (String × OptVal)} (hd : m.delegatee = .some d) (hb : decodeBinary buf = .some bin)
    (hc : m.control g p (.getopts buf) = .some (m', o)) :
    Answers o (.opts l) ↔ bin.mapM (getopt d.sockopts) = .some l := by
  unfold MainHandler.control at hc
  rw [hd] at hc
  cases d with
  | utp h =>
    obtain ⟨⟨h', o'⟩, hcon, heq⟩ := Option.map_eq_some_iff.1 hc
    obtain ⟨rfl, rfl⟩ := Prod.mk.inj heq
    simp only [UtpHandler.control, machine, handle, UtpHandler.getopts, hb, Option.map_some, Option.some.injEq,
      Prod.mk.injEq] at hcon
    obtain ⟨-, rfl⟩ := hcon
    simp only [Delegatee.sockopts]
    cases bin.mapM (getopt h.sockopts) with
    | none => simp [emit, Answers]
    | some l' => simp [emit, Answers, eq_comm]
  | listener l' =>
    obtain ⟨⟨l'', o'⟩, hcon, heq⟩ := Option.map_eq_some_iff.1 hc
    obtain ⟨rfl, rfl⟩ := Prod.mk.inj heq
    obtain ⟨-, rfl⟩ := Prod.mk.inj (Option.some.inj hcon)
    simp only [Listener.getopts, hb, Delegatee.sockopts]
    cases bin.mapM (getopt l'.sockopts) with
    | none => simp [Answers]
    | some l' => simp [Answers, eq_comm]

/-! ## `setopts` of a record -/

/-- The test of `gen_utp:setopts`: nothing a bound socket cannot change. -/
def UtpOptions.Free (o : UtpOptions) : Prop := o.ip = .none ∧ o.port = .none ∧ o.family = .none

/-- The options after `setopts`: a field that is defined replaces the old
one. -/
def UtpOptions.merged (o : UtpOptions) (cur : SockOpts) : SockOpts :=
  { cur with
    deliveryMode := o.mode.getD cur.deliveryMode
    sendTmout := (o.sendTmout.map (timeoutVal fun n => (n % 2 ^ 32 : Nat))).getD cur.sendTmout
    active := (o.active.map activeVal).getD cur.active
    packet := (o.packet.map packetVal).getD cur.packet
    header := (o.header.map Subtype.val).getD cur.header
    sndbuf := (o.sndbuf.map fun n => SockOpts.toInt32 (n.val % 2 ^ 32)).getD cur.sndbuf
    recbuf := (o.recbuf.map fun n => SockOpts.toInt32 (n.val % 2 ^ 32)).getD cur.recbuf }

variable {o : UtpOptions}

theorem ok_bind (cur : SockOpts) (f : SockOpts → Except SockOpts.Fault SockOpts) : (Except.ok cur >>= f) = f cur := rfl

theorem merge_field {α β : Type} {so cur : SockOpts} {x : Option α} {f : α → β} {d : β} {item : Option α → Option Item}
    (get : SockOpts → β) (put : β → SockOpts) (hget : get so = (x.map f).getD d) (hput : put (get cur) = cur)
    (hnone : item .none = .none) (hsome : ∀ a, ((item (.some a)).toList.filterMap Item.opt).foldlM
      (SockOpts.mergeOne so) cur = .ok (put (get so))) :
    ((item x).toList.filterMap Item.opt).foldlM (SockOpts.mergeOne so) cur = .ok (put ((x.map f).getD (get cur))) := by
  cases x with
  | none =>
    rw [hnone]
    exact congrArg Except.ok hput.symm
  | some a => rw [hsome a, hget, Option.map_some, Option.getD_some, Option.getD_some]

theorem merge_items (hfree : o.Free) (cur : SockOpts) :
    (o.items.filterMap Item.opt).foldlM (SockOpts.mergeOne o.carried) cur = .ok (o.merged cur) := by
  obtain ⟨hip, hport, hfamily⟩ := hfree
  have hmode : ∀ cur, ((modeItem o.mode).toList.filterMap Item.opt).foldlM (SockOpts.mergeOne o.carried) cur =
      .ok { cur with deliveryMode := o.mode.getD cur.deliveryMode } := by
    intro cur
    have hval : o.carried.deliveryMode = (o.mode.map fun m => m).getD SockOpts.new.deliveryMode := by
      rw [Option.map_id']
      rfl
    have hfield : ((modeItem o.mode).toList.filterMap Item.opt).foldlM (SockOpts.mergeOne o.carried) cur =
        .ok { cur with deliveryMode := (o.mode.map fun m => m).getD cur.deliveryMode } := by
      refine merge_field SockOpts.deliveryMode (fun m => { cur with deliveryMode := m }) hval rfl rfl fun m => ?_
      cases m <;> rfl
    rwa [Option.map_id'] at hfield
  have htmout : ∀ cur,
      ((sendTmoutItem o.sendTmout).toList.filterMap Item.opt).foldlM (SockOpts.mergeOne o.carried) cur =
      .ok { cur with sendTmout := (o.sendTmout.map (timeoutVal fun n => (n % 2 ^ 32 : Nat))).getD cur.sendTmout } := by
    intro cur
    refine merge_field SockOpts.sendTmout (fun tm => { cur with sendTmout := tm }) rfl rfl rfl fun tm => ?_
    cases tm <;> rfl
  have hactive : ∀ cur, ((activeItem o.active).toList.filterMap Item.opt).foldlM (SockOpts.mergeOne o.carried) cur =
      .ok { cur with active := (o.active.map activeVal).getD cur.active } := by
    intro cur
    exact merge_field SockOpts.active (fun a => { cur with active := a }) rfl rfl rfl fun
      | .bool false | .bool true | .once => rfl
  have hpacket : ∀ cur, ((packetItem o.packet).toList.filterMap Item.opt).foldlM (SockOpts.mergeOne o.carried) cur =
      .ok { cur with packet := (o.packet.map packetVal).getD cur.packet } := by
    intro cur
    refine merge_field SockOpts.packet (fun n => { cur with packet := n }) rfl rfl rfl fun n => ?_
    cases n <;> rfl
  have hheader : ∀ cur, ((headerItem o.header).toList.filterMap Item.opt).foldlM (SockOpts.mergeOne o.carried) cur =
      .ok { cur with header := (o.header.map Subtype.val).getD cur.header } := by
    intro cur
    exact merge_field SockOpts.header (fun n => { cur with header := n }) rfl rfl rfl fun _ => rfl
  have hsndbuf : ∀ cur, ((sndbufItem o.sndbuf).toList.filterMap Item.opt).foldlM (SockOpts.mergeOne o.carried) cur =
      .ok { cur with sndbuf := (o.sndbuf.map fun n => SockOpts.toInt32 (n.val % 2 ^ 32)).getD cur.sndbuf } := by
    intro cur
    exact merge_field SockOpts.sndbuf (fun n => { cur with sndbuf := n }) rfl rfl rfl fun _ => rfl
  have hrecbuf : ∀ cur, ((recbufItem o.recbuf).toList.filterMap Item.opt).foldlM (SockOpts.mergeOne o.carried) cur =
      .ok { cur with recbuf := (o.recbuf.map fun n => SockOpts.toInt32 (n.val % 2 ^ 32)).getD cur.recbuf } := by
    intro cur
    exact merge_field SockOpts.recbuf (fun n => { cur with recbuf := n }) rfl rfl rfl fun _ => rfl
  have hitems : o.items = (modeItem o.mode).toList ++ (sendTmoutItem o.sendTmout).toList ++
      (activeItem o.active).toList ++ (packetItem o.packet).toList ++ (headerItem o.header).toList ++
      (sndbufItem o.sndbuf).toList ++ (recbufItem o.recbuf).toList := by
    simp [items, hip, hport, hfamily, ipItem, portItem, familyItem]
  rw [hitems]
  simp only [List.filterMap_append, List.foldlM_append, hmode, htmout, hactive, hpacket, hheader, hsndbuf, hrecbuf,
    ok_bind, UtpOptions.merged]

theorem UtpOptions.Free.ipFits (hfree : o.Free) : o.IpFits := by
  simp [IpFits, hfree.1]

theorem UtpOptions.Free.numeric (hfree : o.Free) (numericHost : List UInt8 → Bool) :
    Item.Numeric numericHost o.items := by
  simp [Item.Numeric, Item.lastAddress, items_text hfree.ipFits, hfree.1]

/-- The binary of a record is merged as the record. -/
theorem decodeAndMerge_record (hfree : o.Free) (hb : o.optionsToBinary = .some bin) (numericHost : List UInt8 → Bool)
    (cur : SockOpts) : cur.decodeAndMerge numericHost bin = .ok (o.merged cur) := by
  have hi := hfree.ipFits
  have hnum := hfree.numeric numericHost
  obtain rfl := Option.some.inj (hb.symm.trans (optionsToBinary_spells hi (packetInt hb)))
  rw [SockOpts.decodeAndMerge_spells cur rfl (items_fit hi) hnum, decoded_items hi, merge_items hfree]

/-! ## The options over a run -/

def Event.isSetopts : Event → Bool
  | .setopts _ _ _ _ => true
  | _ => false

/-- A data message has gone out. -/
def fired (t : Trace) : Bool := t.any fun x => !(payloads x.out).isEmpty

theorem SockOpts.reverted_reverted (so : SockOpts) : so.reverted.reverted = so.reverted := by
  by_cases ha : so.active = .activeOnce <;> simp [SockOpts.reverted, ha]

namespace UtpHandler

variable {h h' h₁ h₂ : UtpHandler} {e : Event} {x : List Effect} {t : Trace}

/-- A delivery that puts out a message reverts `once`. -/
theorem Emission.sockopts {len qsize : Nat} {receiver : Receiver} {mem : Mem} {sent : Bool} {q : Nat}
    (he : Emission h len receiver qsize mem sent q x h') :
    h'.sockopts = if payloads x = [] then h.sockopts else h.sockopts.reverted := by
  cases he with
  | closed | held => rfl
  | sent _ hm =>
    by_cases ha : h.sockopts.active = .activeTrue
    · have hrev : h.sockopts.reverted = h.sockopts := by simp [SockOpts.reverted, ha]
      rw [hrev, ite_self]
      exact hrev
    · obtain ⟨m, rfl⟩ := delivery_one ha hm
      rw [payloads_dataMessages]
      rfl

theorem sockopts_step (hs : Step h e x h') (he : e.isSetopts = false) :
    h'.sockopts = if payloads x = [] then h.sockopts else h.sockopts.reverted := by
  cases read_case hs with
  | aside _ _ hso ho | stopped _ _ _ hso ho => rw [if_pos ho, hso]
  | setOnly heq =>
    rw [heq] at he
    cases he
  | queued _ _ _ _ hh ho =>
    rw [hh, ho]
    rfl
  | emitted hcall hem ho ho₂ _ _ hso =>
    rw [ho, payloads_append, ho₂, List.append_nil, hso, hem.sockopts]
    rcases emissionOf_cases hcall with ⟨rfl, -⟩ | ⟨_, _, _, _, _, _, rfl, -⟩ | ⟨rfl, -⟩
    · rfl
    · cases he
    · rfl

/-- A `setopts` of options that merge sets them. -/
theorem sockopts_setopts {p : Pid} {buf : EiBuf} {numericHost : List UInt8 → Bool} {mem : Mem} {bin : List UInt8}
    {so : SockOpts} (hd : decodeBinary buf = .some bin) (hm : h.sockopts.decodeAndMerge numericHost bin = .ok so)
    (hs : Step h (.setopts p buf numericHost mem) x h') :
    h'.sockopts = if payloads x = [] then so else so.reverted := by
  obtain ⟨rfl, rfl⟩ | ⟨sent, q, o, hem, rfl⟩ := hs.setopts_merged hd hm
  · rw [payloads_append, payloads_bufferSets]
    rfl
  · rw [hem.sockopts, List.append_assoc, payloads_append, payloads_append, payloads_bufferSets]
    have hreply : payloads [Effect.reply .ok] = [] := rfl
    rw [hreply, List.append_nil, List.append_nil]

/-- No `setopts`. -/
def NoSetopts : Runs.Guard UtpHandler Event (List Effect) := fun _ _ e => e.isSetopts = false

/-- After a `setopts` the options are those it set, with `once` reverted when
a message has gone out. -/
theorem sockopts_run {so : SockOpts} (h₁so : h₁.sockopts = if payloads x = [] then so else so.reverted)
    (run : Runs.Run machine NoSetopts [⟨h, e, x⟩] h₁ t h₂) :
    h₂.sockopts = if fired t then so.reverted else so := by
  refine run.invariant (I := fun t h => h.sockopts = if fired t then so.reverted else so) ?_ ?_
  · rw [h₁so]
    cases hx : payloads x <;> simp [fired, hx]
  · intro t h e h' o hi hg hm
    rw [sockopts_step (machine_step hm) hg, hi]
    cases hf : fired t <;> cases ho : payloads o <;>
      simp_all [fired, SockOpts.reverted_reverted]

end UtpHandler

theorem Listener.sockopts_step {l l' : Listener} {e : ListenerEvent} {x : List ListenerEffect}
    (hm : l.machine e = .some (l', x)) : l'.sockopts = l.sockopts := by
  cases machine_step hm with
  | arrived hi => cases hi <;> rfl
  | _ => rfl

/-! ## What was set last -/

/-- The state behind a port after `setopts` of a record and any other events,
and whether a message has gone out since. -/
inductive LastSet (o : UtpOptions) : Bool → Delegatee → Prop
  | utp {p : Pid} {buf : EiBuf} {numericHost : List UInt8 → Bool} {mem : Mem} {bin : List UInt8}
      {h h₁ h₂ : UtpHandler} {x : List Effect} {t : Trace} : o.optionsToBinary = .some bin →
      decodeBinary buf = .some bin → machine h (.setopts p buf numericHost mem) = .some (h₁, x) →
      Runs.Run machine NoSetopts [⟨h, .setopts p buf numericHost mem, x⟩] h₁ t h₂ → LastSet o (fired t) (.utp h₂)
  | listener {buf : EiBuf} {numericHost : List UInt8 → Bool} {bin : List UInt8} {l l₁ l₂ : Listener} {r : Reply}
      {t : Runs.Trace Listener ListenerEvent (List ListenerEffect)} : o.optionsToBinary = .some bin →
      decodeBinary buf = .some bin → l.setopts buf numericHost = .some (l₁, r) →
      Runs.Run Listener.machine (fun _ _ _ => True) [] l₁ t l₂ → LastSet o false (.listener l₂)

/-- The options are those before, merged with the record, `once` reverted
when it has fired. -/
theorem LastSet.sockopts {gone : Bool} {d : Delegatee} (hfree : o.Free) (hl : LastSet o gone d) :
    ∃ cur, d.sockopts = if gone then (o.merged cur).reverted else o.merged cur := by
  cases hl with
  | @utp _ _ numericHost _ bin h _ _ _ _ hb hd hm run =>
    have hmerge := decodeAndMerge_record hfree hb numericHost h.sockopts
    exact ⟨h.sockopts, sockopts_run (sockopts_setopts hd hmerge (machine_step hm)) run⟩
  | @listener _ numericHost bin l l₁ l₂ _ _ hb hd hset run =>
    have hmerge := decodeAndMerge_record hfree hb numericHost l.sockopts
    have hsame : l₂.sockopts = l₁.sockopts := by
      refine run.invariant (I := fun _ l => l.sockopts = l₁.sockopts) rfl ?_
      intro _ _ _ _ _ hi _ hm
      exact (Listener.sockopts_step hm).trans hi
    refine ⟨l.sockopts, hsame.trans ?_⟩
    simp only [Listener.setopts, hd, hmerge] at hset
    obtain ⟨rfl, -⟩ := Prod.mk.inj (Option.some.inj hset)
    rfl

/-- The value a record gives a name, where an armed `once` has fired or
not. -/
def UtpOptions.recalled (o : UtpOptions) (gone : Bool) : ErlTerm → Option (String × OptVal)
  | .atom .active => o.active.map fun a => ("active", match a with
    | .bool b => .atom (if b then "true" else "false")
    | .once => .atom (if gone then "false" else "once"))
  | .atom .mode => o.mode.map fun m => ("mode", match m with
    | .dataList => .atom "list"
    | .dataBinary => .atom "binary")
  | .atom .sendTimeout => o.sendTmout.map fun tm => ("send_timeout", match tm with
    | .infinity => .atom "infinity"
    | .ms n => .int n.val)
  | .atom .packet => o.packet.map fun n => ("packet", .int (packetVal n))
  | .atom .header => o.header.map fun n => ("header", .int n.val)
  | .atom .sndbuf => o.sndbuf.map fun n => ("sndbuf", .int n.val)
  | .atom .recbuf => o.recbuf.map fun n => ("recbuf", .int n.val)
  | _ => .none

/-- A buffer size that a signed field of the binary gives back when it is
read as an unsigned one. -/
def SizeKept (n : Nat) : Prop := n < 2 ^ 31 ∨ 2 ^ 64 - 2 ^ 31 ≤ n ∧ n < 2 ^ 64

/-- The options of a record `getopts` gives back. -/
def UtpOptions.Kept (o : UtpOptions) : ErlTerm → Prop
  | .atom .active => o.active.isSome
  | .atom .mode => o.mode.isSome
  | .atom .sendTimeout => ∃ tm, o.sendTmout = .some tm ∧ ∀ n, tm = .ms n → n.val < 2 ^ 32
  | .atom .packet => o.packet.isSome
  | .atom .sndbuf => ∃ n, o.sndbuf = .some n ∧ SizeKept n.val
  | .atom .recbuf => ∃ n, o.recbuf = .some n ∧ SizeKept n.val
  | _ => False

theorem sizeKept_iff (n : Nat) : (SockOpts.toInt32 (n % 2 ^ 32) % 2 ^ 64 : Int) = n ↔ SizeKept n := by
  unfold SockOpts.toInt32 SizeKept
  split <;> omega

theorem getopt_recalled {cur : SockOpts} {gone : Bool} {name : ErlTerm} {tag : UInt8} (hn : nameTag name = .some tag)
    (hso : so = if gone then (o.merged cur).reverted else o.merged cur) :
    (∃ y, getopt so tag = .some y ∧ o.recalled gone name = .some y) ↔ o.Kept name := by
  have hactive : so.active = if gone then (o.merged cur).reverted.active else (o.merged cur).active := by
    rw [hso]
    split <;> rfl
  have hmerged : (o.merged cur).active = (o.active.map activeVal).getD cur.active := rfl
  have hother : so.deliveryMode = o.mode.getD cur.deliveryMode ∧
      so.sendTmout = (o.sendTmout.map (timeoutVal fun n => (n % 2 ^ 32 : Nat))).getD cur.sendTmout ∧
      so.packet = (o.packet.map packetVal).getD cur.packet ∧
      so.sndbuf = (o.sndbuf.map fun n => SockOpts.toInt32 (n.val % 2 ^ 32)).getD cur.sndbuf ∧
      so.recbuf = (o.recbuf.map fun n => SockOpts.toInt32 (n.val % 2 ^ 32)).getD cur.recbuf := by
    rw [hso]
    cases gone with
    | false => exact ⟨rfl, rfl, rfl, rfl, rfl⟩
    | true =>
      simp only [if_true, SockOpts.reverted_deliveryMode, SockOpts.reverted_sendTmout, SockOpts.reverted_packet,
        SockOpts.reverted_sndbuf, SockOpts.reverted_recbuf]
      exact ⟨rfl, rfl, rfl, rfl, rfl⟩
  obtain ⟨hmode, htmout, hpacket, hsndbuf, hrecbuf⟩ := hother
  unfold nameTag at hn
  split at hn <;> cases hn
  · rw [SockOpts.reverted_active, hmerged] at hactive
    rcases ha : o.active with _ | (_ | _) | _ <;> cases gone <;>
      simp [getopt, recalled, Kept, hactive, activeVal, ha]
  · rcases hm : o.mode with _ | _ | _ <;> simp [getopt, recalled, Kept, hmode, hm]
  · rcases ht : o.sendTmout with _ | _ | n
    · simp [recalled, Kept, ht]
    · simp [getopt, recalled, Kept, htmout, timeoutVal, ht]
    · have hval : so.sendTmout = (n.val % 2 ^ 32 : Nat) := by
        simp only [htmout, ht]
        rfl
      have hpos : ((n.val % 2 ^ 32 : Nat) : Int) ≠ -1 := by omega
      have hkept : o.Kept (.atom .sendTimeout) ↔ n.val < 2 ^ 32 := by
        simp only [Kept, ht, Option.some.injEq, exists_eq_left', Timeout.ms.injEq, forall_eq']
      rw [hkept]
      simp only [getopt, recalled, hval, if_neg hpos, ht]
      simp
      omega
  · rcases hp : o.packet with _ | n <;> simp [getopt, recalled, Kept, hpacket, hp]
  · simp [getopt, Kept]
  · rcases hs : o.sndbuf with _ | n
    · simp [recalled, Kept, hs]
    · simpa [getopt, recalled, Kept, hsndbuf, hs, eq_comm] using sizeKept_iff n.val
  · rcases hr : o.recbuf with _ | n
    · simp [recalled, Kept, hr]
    · simpa [getopt, recalled, Kept, hrecbuf, hr, eq_comm] using sizeKept_iff n.val

/-- **`getopts` answers the settings, in order, exactly when it can tell each
of them; and the values set last, exactly when it keeps each of them.** -/
theorem getopts_reports {g : GetAddrInfo} {m m' : MainHandler} {d : Delegatee} {p : Pid} {buf : EiBuf}
    {x : List PortEffect} (hd : m.delegatee = .some d) (hn : validateNames names = .some bin)
    (hb : decodeBinary buf = .some bin) (hc : m.control g p (.getopts buf) = .some (m', x)) :
    ((∃ l, Answers x (.opts l) ∧ names.mapM (setting d.sockopts) = .some l) ↔ ∀ name ∈ names, Tells d.sockopts name) ∧
      ∀ o gone, o.Free → LastSet o gone d →
        ((∃ l, Answers x (.opts l) ∧ names.mapM (o.recalled gone) = .some l) ↔ ∀ name ∈ names, o.Kept name) := by
  rw [validateNames_eq] at hn
  simp only [getopts_answers hd hb hc]
  refine ⟨getopts_table hn fun name _ tag htag => getopt_setting htag, ?_⟩
  intro o gone hfree hl
  obtain ⟨cur, hso⟩ := hl.sockopts hfree
  exact getopts_table hn fun name _ tag htag => getopt_recalled htag hso

/-- A send buffer of 32768 bytes, set and asked for. -/
theorem getopts_reports_sndbuf : ∃ h x,
    LastSet { UtpOptions.new with sndbuf := .some ⟨32768, by decide⟩ } false (.utp h) ∧
    ((∃ l, Answers x (.opts l) ∧ [ErlTerm.atom .sndbuf].mapM (setting h.sockopts) = .some l) ↔
      ∀ name ∈ [ErlTerm.atom .sndbuf], Tells h.sockopts name) ∧
    ∀ o gone, o.Free → LastSet o gone (.utp h) →
      ((∃ l, Answers x (.opts l) ∧ [ErlTerm.atom .sndbuf].mapM (o.recalled gone) = .some l) ↔
        ∀ name ∈ [ErlTerm.atom .sndbuf], o.Kept name) :=
  have hset : machine (startServer .new 1) (.setopts 7 [.version, .binary [13, 0, 0, 128, 0]] (fun _ => false)
      fun _ => 0) = .some (_, _) := rfl
  have hget {h : UtpHandler} : MainHandler.control (fun _ => .none) ⟨.some (.utp h)⟩ 7
      (.getopts [.version, .binary [13]]) = .some (_, _) := rfl
  ⟨_, _, .utp rfl rfl hset .refl, getopts_reports rfl rfl rfl hget⟩

/-- `header` is a name `getopts` refuses, and a receive buffer of 2³¹
bytes comes back as 2⁶⁴ - 2³¹. -/
theorem getopts_header_refused : ∃ h h', validateNames [.atom .header] = .some [12] ∧
    MainHandler.control (fun _ => .none) ⟨.some (.utp h)⟩ 7 (.getopts [.version, .binary [12]]) =
      .some (⟨.some (.utp h)⟩, [.utp (.reply (.error .einval))]) ∧
    LastSet { UtpOptions.new with recbuf := .some ⟨2 ^ 31, by decide⟩ } false (.utp h') ∧
    MainHandler.control (fun _ => .none) ⟨.some (.utp h')⟩ 7 (.getopts [.version, .binary [14]]) =
      .some (⟨.some (.utp h')⟩, [.utp (.reply (.opts [("recbuf", .int (2 ^ 64 - 2 ^ 31))]))]) :=
  have hset : machine (startServer .new 1) (.setopts 7 [.version, .binary [14, 128, 0, 0, 0]] (fun _ => false)
      fun _ => 0) = .some (_, _) := rfl
  ⟨startServer .new 1, _, rfl, rfl, .utp rfl rfl hset .refl, rfl⟩

end GenUtp
