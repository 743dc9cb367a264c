/-
The order of the options: `validate` (`gen_utp_opts.erl`) reads its list from
left to right, and each option but two writes a field of its own.

The two are the address and the family. `inet` and `inet6` are checked
against an address that came before them, and an address overwrites a family
that did. So a list in which they disagree is refused in one order and
accepted in the other, and the order of a list is free exactly when they
agree or when something else in it is refused anyway (`order_iff`).
-/
import GenUtp.Options
import Mathlib.Data.List.Perm.Basic

namespace GenUtp

namespace UtpOptions

/-! ## What `validate` raises -/

inductive Raised
  | badarg
  | functionClause
  deriving DecidableEq, Repr

/-- The guards of the clauses for an address. -/
def isIpAddr : ErlTerm → Bool
  | .tuple _ | .list _ => true
  | _ => false

/-- Some clause of `validate` is for the option: one that takes it, or one
that raises `badarg`. -/
def hasClause : ErlTerm → Bool
  | .atom .binary | .atom .list | .atom .inet | .atom .inet6 => true
  | .tuple [.atom .ip, t] | .tuple [.atom .ifaddr, t] => isIpAddr t
  | .tuple [.atom .mode, _] | .tuple [.atom .port, _] | .tuple [.atom .sendTimeout, _] => true
  | .tuple [.atom .active, _] | .tuple [.atom .packet, _] | .tuple [.atom .header, _] => true
  | .tuple [.atom .sndbuf, _] | .tuple [.atom .recbuf, _] => true
  | _ => false

/-- `{header, Size}` is valid only in binary mode. -/
def checkHeader (o : UtpOptions) : Option UtpOptions :=
  match o.header, o.mode with
  | .none, _ => .some o
  | .some _, .some .dataBinary => .some o
  | .some _, _ => .none

/-- One option, or what is raised for it. -/
def raisingOpt (inet : Inet) (o : UtpOptions) (t : ErlTerm) : Except Raised UtpOptions :=
  match validateOpt inet o t with
  | .some o' => .ok o'
  | .none => .error (if hasClause t then .badarg else .functionClause)

def orBadarg : Option UtpOptions → Except Raised UtpOptions
  | .some o => .ok o
  | .none => .error .badarg

/-- `validate`, with what it raises. -/
def outcome (inet : Inet) (opts : List ErlTerm) : Except Raised UtpOptions := do
  let o ← opts.foldlM (raisingOpt inet) new
  orBadarg (checkHeader o)

/-! ## Settings -/

inductive Setting
  | mode
  | address
  | family
  | port
  | sendTimeout
  | active
  | packet
  | header
  | sndbuf
  | recbuf
  deriving DecidableEq, Repr

/-- The setting an option is for. -/
def settingOf : ErlTerm → Option Setting
  | .tuple [.atom .mode, _] | .atom .binary | .atom .list => .some .mode
  | .tuple [.atom .ip, _] | .tuple [.atom .ifaddr, _] => .some .address
  | .atom .inet | .atom .inet6 => .some .family
  | .tuple [.atom .port, _] => .some .port
  | .tuple [.atom .sendTimeout, _] => .some .sendTimeout
  | .tuple [.atom .active, _] => .some .active
  | .tuple [.atom .packet, _] => .some .packet
  | .tuple [.atom .header, _] => .some .header
  | .tuple [.atom .sndbuf, _] => .some .sndbuf
  | .tuple [.atom .recbuf, _] => .some .recbuf
  | _ => .none

/-- Each setting is given at most once. -/
def EachOnce (opts : List ErlTerm) : Prop := (opts.filterMap settingOf).Nodup

/-- What an option asks for. -/
inductive Change
  | mode (x : DeliveryMode)
  | address (f : Family) (s : List UInt8)
  | family (f : Family)
  | port (x : Fin 65536)
  | sendTmout (x : Timeout)
  | active (x : UtpActive)
  | packet (x : PacketSize)
  | header (x : HeaderSize)
  | sndbuf (x : PosInteger)
  | recbuf (x : PosInteger)
  deriving DecidableEq, Repr

namespace Change

def setting : Change → Setting
  | mode _ => .mode
  | address _ _ => .address
  | family _ => .family
  | port _ => .port
  | sendTmout _ => .sendTimeout
  | active _ => .active
  | packet _ => .packet
  | header _ => .header
  | sndbuf _ => .sndbuf
  | recbuf _ => .recbuf

/-- The change written over the record, whatever is there. -/
def put (o : UtpOptions) : Change → UtpOptions
  | mode x => { o with mode := .some x }
  | address f s => { o with family := .some f, ip := .some s }
  | family f => { o with family := .some f }
  | port x => { o with port := .some x }
  | sendTmout x => { o with sendTmout := .some x }
  | active x => { o with active := .some x }
  | packet x => { o with packet := .some x }
  | header x => { o with header := .some x }
  | sndbuf x => { o with sndbuf := .some x }
  | recbuf x => { o with recbuf := .some x }

/-- The change as `validate` makes it: only a family looks at the record. -/
def make (o : UtpOptions) : Change → Option UtpOptions
  | family f => o.validateFamily f
  | c => .some (put o c)

end Change

/-- What an option asks for, if its value is valid. -/
def readOpt (inet : Inet) : ErlTerm → Option Change
  | .tuple [.atom .mode, t] => (asMode t).map .mode
  | .atom .binary => .some (.mode .dataBinary)
  | .atom .list => .some (.mode .dataList)
  | .tuple [.atom .ip, t] => (validateIpaddr inet t).map fun x => .address x.1 x.2
  | .tuple [.atom .ifaddr, t] => (validateIpaddr inet t).map fun x => .address x.1 x.2
  | .tuple [.atom .port, t] => (asPort t).map .port
  | .atom .inet => .some (.family .inet)
  | .atom .inet6 => .some (.family .inet6)
  | .tuple [.atom .sendTimeout, t] => (asTimeout t).map .sendTmout
  | .tuple [.atom .active, t] => (asActive t).map .active
  | .tuple [.atom .packet, t] => (asPacket t).map .packet
  | .tuple [.atom .header, t] => (asHeader t).map .header
  | .tuple [.atom .sndbuf, t] => (asPosInteger t).map .sndbuf
  | .tuple [.atom .recbuf, t] => (asPosInteger t).map .recbuf
  | _ => .none

variable {inet : Inet} {o o' : UtpOptions} {t : ErlTerm} {opts opts' : List ErlTerm} {c d : Change}

theorem map_make {α : Type} {x : Option α} {ask : α → Change} {set : α → UtpOptions}
    (h : ∀ a, Change.make o (ask a) = .some (set a)) : x.map set = (x.map ask).bind (Change.make o) := by
  cases x with
  | none => rfl
  | some a => exact (h a).symm

/-- `validate` reads the option, then changes the record. -/
theorem validateOpt_eq (inet : Inet) (o : UtpOptions) (t : ErlTerm) :
    validateOpt inet o t = (readOpt inet t).bind (Change.make o) := by
  unfold validateOpt
  split
  all_goals first | rfl | exact map_make fun _ => rfl | simp [readOpt]

theorem readOpt_setting (h : readOpt inet t = .some c) : settingOf t = .some c.setting := by
  unfold readOpt at h
  split at h
  all_goals first | (obtain ⟨x, -, rfl⟩ := Option.map_eq_some_iff.1 h; rfl) | (cases h <;> rfl)

/-- What the options of a list ask for, one by one. -/
def changes (inet : Inet) (opts : List ErlTerm) : List Change := opts.filterMap (readOpt inet)

/-! ## The fold over the changes -/

theorem fold_changes (h : ∀ t ∈ opts, readOpt inet t ≠ .none) :
    opts.foldlM (validateOpt inet) o = (changes inet opts).foldlM Change.make o := by
  induction opts generalizing o with
  | nil => rfl
  | cons t opts ih =>
    obtain ⟨c, hc⟩ := Option.ne_none_iff_exists'.1 (h t (by simp))
    have hcs : changes inet (t :: opts) = c :: changes inet opts := List.filterMap_cons_some hc
    rw [hcs, List.foldlM_cons, List.foldlM_cons, validateOpt_eq, hc, Option.bind_some]
    congr 1
    funext o'
    exact ih fun t ht => h t (by simp [ht])

theorem fold_invalid (ht : t ∈ opts) (h : readOpt inet t = .none) :
    opts.foldlM (validateOpt inet) o = .none := by
  induction opts generalizing o with
  | nil => cases ht
  | cons t' opts ih =>
    rw [List.foldlM_cons]
    rcases List.mem_cons.1 ht with rfl | ht
    · rw [validateOpt_eq, h]
      rfl
    · exact Option.bind_eq_none_iff.2 fun o' _ => ih ht

theorem validate_eq (inet : Inet) (opts : List ErlTerm) :
    validate inet opts = (opts.foldlM (validateOpt inet) new).bind checkHeader := rfl

/-- A change that is made is the one written over the record. -/
theorem make_put (h : Change.make o c = .some o') : o' = Change.put o c := by
  cases c with
  | family f =>
    simp only [Change.make, validateFamily] at h
    split at h
    · exact (Option.some.inj h).symm
    · obtain ⟨hf, h⟩ := Option.ite_none_right_eq_some.1 h
      cases h
      simp [Change.put, ← hf]
  | _ => exact (Option.some.inj h).symm

theorem fold_put {cs : List Change} (h : cs.foldlM Change.make o = .some o') : o' = cs.foldl Change.put o := by
  induction cs generalizing o with
  | nil => exact (Option.some.inj h).symm
  | cons c cs ih =>
    obtain ⟨o₁, ho₁, h⟩ := Option.bind_eq_some_iff.1 h
    rw [List.foldl_cons, ← make_put ho₁]
    exact ih h

/-- An address and a family in a list are of one family. -/
def Agree (cs : List Change) : Prop := ∀ f s f', .address f s ∈ cs → .family f' ∈ cs → f = f'

theorem Agree.tail {cs : List Change} (h : Agree (c :: cs)) : Agree cs := fun f s f' ha hf =>
  h f s f' (List.mem_cons_of_mem _ ha) (List.mem_cons_of_mem _ hf)

theorem make_family {f : Family} (h : o.ip = .none ∨ o.family = .some f) :
    Change.make o (.family f) = .some (Change.put o (.family f)) := by
  simp only [Change.make, validateFamily]
  split
  · rfl
  · next s hip =>
    have hf : o.family = .some f := h.resolve_left (by simp [hip])
    simp [Change.put, ← hf]

/-- The changes are all made where address and family agree, with each other
and with the record they start from. -/
theorem fold_make {cs : List Change} (honce : (cs.map Change.setting).Nodup) (hagree : Agree cs)
    (ho : ∀ f, .family f ∈ cs → o.ip = .none ∨ o.family = .some f) :
    cs.foldlM Change.make o = .some (cs.foldl Change.put o) := by
  induction cs generalizing o with
  | nil => rfl
  | cons c cs ih =>
    obtain ⟨hc, honce⟩ := List.nodup_cons.1 honce
    have hmake : Change.make o c = .some (Change.put o c) := by
      cases c with
      | family f => exact make_family (ho f (by simp))
      | _ => rfl
    rw [List.foldlM_cons, hmake]
    refine ih honce hagree.tail ?_
    intro f hf
    cases c with
    | address f' s => exact .inr (congrArg Option.some (hagree f' s f (by simp) (by simp [hf])))
    | family f' => exact absurd (List.mem_map.2 ⟨_, hf, rfl⟩) hc
    | _ => exact ho f (by simp [hf])

/-- Changes of different settings commute, but for an address and a family
that disagree. -/
theorem put_comm {cs : List Change} (honce : (cs.map Change.setting).Nodup) (hagree : Agree cs) (hc : c ∈ cs)
    (hd : d ∈ cs) (o : UtpOptions) : Change.put (Change.put o c) d = Change.put (Change.put o d) c := by
  by_cases hset : c.setting = d.setting
  · rw [List.inj_on_of_nodup_map honce hc hd hset]
  · cases c <;> cases d
    all_goals first | rfl | exact absurd rfl hset | skip
    · rw [Change.put, hagree _ _ _ hc hd]
      rfl
    · rw [Change.put, hagree _ _ _ hd hc]
      rfl

/-! ## Binary mode for a header -/

/-- A header is asked for, and binary mode is not. -/
def HeaderAlone (cs : List Change) : Prop := (∃ n, .header n ∈ cs) ∧ .mode .dataBinary ∉ cs

theorem fold_header (cs : List Change) (o : UtpOptions) :
    (cs.foldl Change.put o).header = .none ↔ o.header = .none ∧ ∀ n, .header n ∉ cs := by
  induction cs generalizing o with
  | nil => simp
  | cons c cs ih =>
    rw [List.foldl_cons, ih]
    cases c with
    | header n => exact ⟨fun h => absurd h.1 (by simp [Change.put]), fun h => absurd List.mem_cons_self (h.2 n)⟩
    | _ => simp [Change.put]

theorem fold_mode {cs : List Change} (honce : (cs.map Change.setting).Nodup) (o : UtpOptions) :
    (cs.foldl Change.put o).mode = .some .dataBinary ↔
      .mode .dataBinary ∈ cs ∨ o.mode = .some .dataBinary ∧ ∀ m, .mode m ∉ cs := by
  induction cs generalizing o with
  | nil => simp
  | cons c cs ih =>
    obtain ⟨hc, honce⟩ := List.nodup_cons.1 honce
    rw [List.foldl_cons, ih honce]
    cases c with
    | mode x =>
      have hno : ∀ m, .mode m ∉ cs := fun m hm => hc (List.mem_map.2 ⟨_, hm, rfl⟩)
      cases x <;> simp [Change.put, hno]
    | _ => simp [Change.put]

theorem checkHeader_iff : checkHeader o = .none ↔ o.header ≠ .none ∧ o.mode ≠ .some .dataBinary := by
  unfold checkHeader
  split <;> simp_all

/-- The last clause of `validate` refuses a header alone. -/
theorem checkHeader_fold {cs : List Change} (honce : (cs.map Change.setting).Nodup) :
    checkHeader (cs.foldl Change.put new) = .none ↔ HeaderAlone cs := by
  rw [checkHeader_iff, ne_eq, ne_eq, fold_header, fold_mode honce]
  simp only [HeaderAlone, new, true_and, not_forall, not_not, reduceCtorEq, false_and, or_false]

theorem checkHeader_some (h : checkHeader o = .some o') : o' = o := by
  unfold checkHeader at h
  split at h <;> cases h <;> rfl

/-! ## Orders -/

theorem changes_sublist (inet : Inet) (opts : List ErlTerm) :
    ((changes inet opts).map Change.setting).Sublist (opts.filterMap settingOf) := by
  induction opts with
  | nil => exact .slnil
  | cons t opts ih =>
    cases hc : readOpt inet t with
    | none =>
      rw [changes, List.filterMap_cons_none hc]
      exact ih.trans ((List.sublist_cons_self t opts).filterMap settingOf)
    | some c =>
      rw [changes, List.filterMap_cons_some hc, List.filterMap_cons_some (readOpt_setting hc)]
      exact ih.cons_cons c.setting

theorem EachOnce.changes (honce : EachOnce opts) : ((changes inet opts).map Change.setting).Nodup :=
  honce.sublist (changes_sublist inet opts)

theorem EachOnce.perm (honce : EachOnce opts) (hp : opts'.Perm opts) : EachOnce opts' :=
  (hp.filterMap settingOf).nodup_iff.2 honce

/-- The address and the family of the list, where it has both, are of one
family. -/
def FamiliesAgree (inet : Inet) (opts : List ErlTerm) : Prop := Agree (changes inet opts)

/-- Something in the list is refused wherever it stands: a value that is not
valid, or a header without binary mode. -/
def Refused (inet : Inet) (opts : List ErlTerm) : Prop :=
  (∃ t ∈ opts, readOpt inet t = .none) ∨ HeaderAlone (changes inet opts)

theorem FamiliesAgree.perm (h : FamiliesAgree inet opts) (hp : opts'.Perm opts) : FamiliesAgree inet opts' := by
  have hmem := fun c => (hp.filterMap (readOpt inet)).mem_iff (a := c)
  intro f s f' ha hf
  exact h f s f' ((hmem _).1 ha) ((hmem _).1 hf)

theorem Refused.perm (h : Refused inet opts) (hp : opts'.Perm opts) : Refused inet opts' := by
  have hmem := fun c => (hp.filterMap (readOpt inet)).mem_iff (a := c)
  rcases h with ⟨t, ht, hnone⟩ | ⟨⟨n, hn⟩, hmode⟩
  · exact .inl ⟨t, hp.mem_iff.2 ht, hnone⟩
  · exact .inr ⟨⟨n, (hmem _).2 hn⟩, fun hm => hmode ((hmem _).1 hm)⟩

theorem Refused.validate (honce : EachOnce opts) (h : Refused inet opts) : validate inet opts = .none := by
  rw [validate_eq]
  refine Option.bind_eq_none_iff.2 ?_
  intro o ho
  rcases h with ⟨t, ht, hnone⟩ | halone
  · rw [fold_invalid ht hnone] at ho
    cases ho
  · by_cases hbad : ∃ t ∈ opts, readOpt inet t = .none
    · obtain ⟨t, ht, hnone⟩ := hbad
      rw [fold_invalid ht hnone] at ho
      cases ho
    · rw [fold_changes fun t ht hnone => hbad ⟨t, ht, hnone⟩] at ho
      rw [fold_put ho]
      exact (checkHeader_fold honce.changes).2 halone

theorem validate_put (honce : EachOnce opts) (hread : ∀ t ∈ opts, readOpt inet t ≠ .none)
    (hfold : (changes inet opts).foldlM Change.make new = .some o) (halone : ¬HeaderAlone (changes inet opts)) :
    UtpOptions.validate inet opts = .some o := by
  rw [validate_eq, fold_changes hread, hfold, Option.bind_some]
  obtain ⟨o', ho'⟩ := Option.ne_none_iff_exists'.1 (mt (checkHeader_fold honce.changes).1 halone)
  rw [← fold_put hfold] at ho'
  rw [ho', checkHeader_some ho']

/-- The order is free where address and family agree. -/
theorem FamiliesAgree.validate (honce : EachOnce opts) (h : FamiliesAgree inet opts) (hp : opts'.Perm opts) :
    UtpOptions.validate inet opts' = UtpOptions.validate inet opts := by
  by_cases hrefused : Refused inet opts
  · rw [hrefused.validate honce, (hrefused.perm hp).validate (honce.perm hp)]
  · obtain ⟨hread, halone⟩ := not_or.1 hrefused
    have hread : ∀ t ∈ opts, readOpt inet t ≠ .none := fun t ht hnone => hread ⟨t, ht, hnone⟩
    have hread' : ∀ t ∈ opts', readOpt inet t ≠ .none := fun t ht => hread t (hp.mem_iff.1 ht)
    have halone' : ¬HeaderAlone (changes inet opts') := fun ha => hrefused (Refused.perm (.inr ha) hp.symm)
    have hfold := fold_make (o := new) honce.changes h fun _ _ => .inl rfl
    have hfold' := fold_make (o := new) (honce.perm hp).changes (h.perm hp) fun _ _ => .inl rfl
    have hcomm : (changes inet opts').foldl Change.put new = (changes inet opts).foldl Change.put new :=
      (hp.filterMap (readOpt inet)).foldl_eq' (fun c hc d hd o =>
        put_comm (honce.perm hp).changes (h.perm hp) hc hd o) new
    rw [validate_put honce hread hfold halone, validate_put (honce.perm hp) hread' hfold' halone', hcomm]

/-! ## The outcome -/

theorem raisingOpt_eq (hclause : hasClause t = true) : raisingOpt inet o t = orBadarg (validateOpt inet o t) := by
  unfold raisingOpt
  cases validateOpt inet o t with
  | none => simp [hclause, orBadarg]
  | some o' => rfl

theorem fold_raising (hclause : ∀ t ∈ opts, hasClause t = true) :
    opts.foldlM (raisingOpt inet) o = orBadarg (opts.foldlM (validateOpt inet) o) := by
  induction opts generalizing o with
  | nil => rfl
  | cons t opts ih =>
    have hrest : ∀ t ∈ opts, hasClause t = true := fun t ht => hclause t (by simp [ht])
    rw [List.foldlM_cons, List.foldlM_cons, raisingOpt_eq (hclause t (by simp))]
    cases validateOpt inet o t with
    | none => rfl
    | some o' => exact ih hrest

theorem outcome_eq (hclause : ∀ t ∈ opts, hasClause t = true) :
    outcome inet opts = orBadarg (validate inet opts) := by
  rw [outcome, fold_raising hclause, validate_eq]
  cases opts.foldlM (validateOpt inet) new <;> rfl

theorem isIpAddr_of_validateIpaddr {x : Family × List UInt8} (h : validateIpaddr inet t = .some x) :
    isIpAddr t = true := by
  cases t with
  | tuple _ | list _ => rfl
  | _ => cases h

theorem Sets.hasClause (h : Sets inet o t o') : UtpOptions.hasClause t = true := by
  cases h with
  | ip ha hx => rcases ha with rfl | rfl <;> exact isIpAddr_of_validateIpaddr hx
  | family ha | sameFamily ha => rcases ha with ⟨rfl, -⟩ | ⟨rfl, -⟩ <;> rfl
  | _ => rfl

theorem validateOpt_noClause (hclause : hasClause t = false) : validateOpt inet o t = .none := by
  refine Option.eq_none_iff_forall_ne_some.2 ?_
  intro o' ho'
  rw [(validateOpt_sets ho').hasClause] at hclause
  cases hclause

theorem outcome_noClause (hclause : hasClause t = false) : outcome inet (t :: opts) = .error .functionClause := by
  have hraise : raisingOpt inet new t = .error .functionClause := by
    simp [raisingOpt, validateOpt_noClause hclause, hclause]
  rw [outcome, List.foldlM_cons, hraise]
  rfl

/-- The same record, or `badarg` for both. -/
inductive Same : Except Raised UtpOptions → Except Raised UtpOptions → Prop
  | record (o : UtpOptions) : Same (.ok o) (.ok o)
  | badarg : Same (.error .badarg) (.error .badarg)

theorem same_self (x : Option UtpOptions) : Same (orBadarg x) (orBadarg x) := by
  cases x with
  | none => exact .badarg
  | some o => exact .record o

/-- The order of the options does not matter, and an address that contradicts
a family is refused on either side of it. -/
structure OrderFree (inet : Inet) (opts : List ErlTerm) : Prop where
  same : ∀ opts', opts'.Perm opts → Same (outcome inet opts) (outcome inet opts')
  refused : ¬FamiliesAgree inet opts → ∀ opts', opts'.Perm opts → outcome inet opts' = .error .badarg

theorem bring_front {a b : ErlTerm} (ha : a ∈ opts) (hb : b ∈ opts) (hab : a ≠ b) :
    ∃ rest, (a :: b :: rest).Perm opts := by
  obtain ⟨l₁, l₂, rfl⟩ := List.append_of_mem ha
  have hb : b ∈ l₁ ++ l₂ := (List.mem_cons.1 (List.perm_middle.mem_iff.1 hb)).resolve_left (Ne.symm hab)
  obtain ⟨m₁, m₂, hm⟩ := List.append_of_mem hb
  refine ⟨m₁ ++ m₂, ?_⟩
  have htail : (b :: (m₁ ++ m₂)).Perm (l₁ ++ l₂) := hm ▸ List.perm_middle.symm
  exact (htail.cons a).trans List.perm_middle.symm

theorem fold_cons (hread : readOpt inet t = .some c) :
    (t :: opts).foldlM (validateOpt inet) o = (Change.make o c).bind fun o => opts.foldlM (validateOpt inet) o := by
  rw [List.foldlM_cons, validateOpt_eq, hread]
  rfl

/-- An address after a family of the other kind is accepted: it overwrites
the family. -/
theorem family_first {ta tf : ErlTerm} {rest : List ErlTerm} {f f' : Family} {s : List UInt8}
    (honce : EachOnce (tf :: ta :: rest)) (ha : readOpt inet ta = .some (.address f s))
    (hf : readOpt inet tf = .some (.family f')) (hrefused : ¬Refused inet (tf :: ta :: rest)) :
    ∃ o, validate inet (tf :: ta :: rest) = .some o := by
  obtain ⟨hread, halone⟩ := not_or.1 hrefused
  have hcs : changes inet (tf :: ta :: rest) = .family f' :: .address f s :: changes inet rest := by
    simp [changes, hf, ha]
  have hset : ((changes inet (tf :: ta :: rest)).map Change.setting).Nodup := honce.changes
  rw [hcs] at hset
  obtain ⟨hnofamily, hset⟩ := List.nodup_cons.1 hset
  have hno : ∀ f'', .family f'' ∉ Change.address f s :: changes inet rest := fun f'' hm =>
    hnofamily (List.mem_map.2 ⟨_, hm, rfl⟩)
  -- no family is left to be checked against the address
  have hfold := fold_make (o := Change.put new (.family f')) hset (fun _ _ f'' _ hm => absurd hm (hno f''))
    fun f'' hm => absurd hm (hno f'')
  have hmade : (changes inet (tf :: ta :: rest)).foldlM Change.make new =
      .some ((changes inet (tf :: ta :: rest)).foldl Change.put new) := by
    rw [hcs]
    exact hfold
  exact ⟨_, validate_put honce (fun t ht hnone => hread ⟨t, ht, hnone⟩) hmade halone⟩

/-- A family after an address of the other kind is refused. -/
theorem address_first {ta tf : ErlTerm} {rest : List ErlTerm} {f f' : Family} {s : List UInt8}
    (ha : readOpt inet ta = .some (.address f s)) (hf : readOpt inet tf = .some (.family f')) (hne : f ≠ f') :
    validate inet (ta :: tf :: rest) = .none := by
  rw [validate_eq, fold_cons ha]
  have hmake : Change.make (Change.put new (.address f s)) (.family f') = .none := by
    simp [Change.make, validateFamily, Change.put, hne]
  show (((tf :: rest).foldlM (validateOpt inet) (Change.put new (.address f s))).bind checkHeader) = _
  rw [fold_cons hf, hmake]
  rfl

/-- A contradiction is refused in one order, and accepted in another unless
the list is refused anyway. -/
theorem contradiction_orders (honce : EachOnce opts) (hagree : ¬FamiliesAgree inet opts) :
    (∃ opts', opts'.Perm opts ∧ validate inet opts' = .none) ∧
      (¬Refused inet opts → ∃ opts' o, opts'.Perm opts ∧ validate inet opts' = .some o) := by
  simp only [FamiliesAgree, Agree, not_forall] at hagree
  obtain ⟨f, s, f', ha, hf, hne⟩ := hagree
  obtain ⟨ta, hta, ha⟩ := List.mem_filterMap.1 ha
  obtain ⟨tf, htf, hf⟩ := List.mem_filterMap.1 hf
  have hdiff : ta ≠ tf := by
    rintro rfl
    cases ha.symm.trans hf
  obtain ⟨rest, hp⟩ := bring_front hta htf hdiff
  have hp' : (tf :: ta :: rest).Perm opts := (List.Perm.swap ta tf rest).trans hp
  refine ⟨⟨_, hp, address_first ha hf hne⟩, ?_⟩
  intro hrefused
  obtain ⟨o, ho⟩ := family_first (honce.perm hp') ha hf fun h => hrefused (h.perm hp'.symm)
  exact ⟨_, o, hp', ho⟩

/-- **The order of a list of options is free exactly when its address and its
family agree, or when something else in it is refused.** -/
theorem order_iff (honce : EachOnce opts) :
    OrderFree inet opts ↔ (∀ t ∈ opts, hasClause t = true) ∧ (FamiliesAgree inet opts ∨ Refused inet opts) := by
  constructor
  · intro hfree
    have hclause : ∀ t ∈ opts, hasClause t = true := by
      intro t ht
      by_contra hno
      obtain ⟨l₁, l₂, rfl⟩ := List.append_of_mem ht
      have hs := hfree.same _ List.perm_middle.symm
      rw [outcome_noClause (by simpa using hno)] at hs
      generalize outcome inet _ = r at hs
      cases hs
    refine ⟨hclause, ?_⟩
    by_contra hno
    obtain ⟨hagree, hrefused⟩ := not_or.1 hno
    obtain ⟨⟨opts₁, hp₁, hnone⟩, hsome⟩ := contradiction_orders honce hagree
    obtain ⟨opts₂, o, hp₂, hsome⟩ := hsome hrefused
    have h₁ := hfree.same _ hp₁
    have h₂ := hfree.same _ hp₂
    rw [outcome_eq fun t ht => hclause t (hp₁.mem_iff.1 ht), hnone] at h₁
    rw [outcome_eq fun t ht => hclause t (hp₂.mem_iff.1 ht), hsome] at h₂
    generalize outcome inet opts = r at h₁ h₂
    cases h₁
    cases h₂
  · intro hcond
    obtain ⟨hclause, hcond⟩ := hcond
    have hclause' : ∀ opts' : List ErlTerm, opts'.Perm opts → ∀ t ∈ opts', hasClause t = true :=
      fun opts' hp t ht => hclause t (hp.mem_iff.1 ht)
    constructor
    · intro opts' hp
      have heq : validate inet opts' = validate inet opts := by
        rcases hcond with hagree | hrefused
        · exact hagree.validate honce hp
        · rw [hrefused.validate honce, (hrefused.perm hp).validate (honce.perm hp)]
      rw [outcome_eq hclause, outcome_eq (hclause' opts' hp), heq]
      exact same_self _
    · intro hagree opts' hp
      have hrefused := (hcond.resolve_left hagree).perm hp
      rw [outcome_eq (hclause' opts' hp), hrefused.validate (honce.perm hp)]
      rfl

theorem order_iff_loopback : OrderFree loopInet [loopback, .atom .inet] ↔
    (∀ t ∈ [loopback, .atom .inet], hasClause t = true) ∧
      (FamiliesAgree loopInet [loopback, .atom .inet] ∨ Refused loopInet [loopback, .atom .inet]) :=
  order_iff (show List.Nodup [Setting.address, .family] by decide)

/-- `inet6` before `{ip, {127,0,0,1}}` is accepted and comes out as `inet`;
after it, it is a `badarg`. -/
theorem family_overwritten : EachOnce [.atom .inet6, loopback] ∧
    outcome loopInet [.atom .inet6, loopback] =
      .ok { new with family := .some .inet, ip := .some [49, 50, 55, 46, 48, 46, 48, 46, 49] } ∧
    outcome loopInet [loopback, .atom .inet6] = .error .badarg ∧ ¬OrderFree loopInet [.atom .inet6, loopback] := by
  refine ⟨show List.Nodup [Setting.family, .address] by decide, rfl, rfl, ?_⟩
  intro hfree
  have hs := hfree.same [loopback, .atom .inet6] (List.Perm.swap _ _ _)
  cases hs

end UtpOptions

end GenUtp
