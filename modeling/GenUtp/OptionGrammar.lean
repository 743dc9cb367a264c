/-
The grammar of encoded options, and the parser against it.

An `Item` is one option of the encoding, a tag with its whole argument; a
string of options is a concatenation of items (`Item.Spells`).
`decodeLoop_ok_iff` says that the parser gets through a string exactly when
it is one, and does to the options what the items say; any other string makes
it read past the end. `setopts` is safe on a string exactly when that string
refuses itself by an `ip`, `port`, `inet` or `inet6` option or is well formed
(`setopts_safe_iff`): the parser steps over an unknown tag, and takes any
byte for the values of `active` and `packet`.
-/
import GenUtp.Requests

namespace GenUtp

open Frames

/-- The bytes that are no tag of the parser. -/
def unknownTag (tag : UInt8) : Prop := tag.toNat = 0 ∨ tag.toNat = 5 ∨ 14 < tag.toNat

instance (tag : UInt8) : Decidable (unknownTag tag) :=
  inferInstanceAs (Decidable (tag.toNat = 0 ∨ tag.toNat = 5 ∨ 14 < tag.toNat))

/-- One encoded option. -/
inductive Item
  | ip (text : List UInt8) (h : 0 ∉ text)
  | port (a b : UInt8)
  | list
  | binary
  | inet
  | inet6
  | sendTmout (a b c d : UInt8)
  | sendTmoutInfinite
  | active (a : UInt8)
  | packet (a : UInt8)
  | header (a b : UInt8)
  | sndbuf (a b c d : UInt8)
  | recbuf (a b c d : UInt8)
  | unknown (tag : UInt8) (h : unknownTag tag)

namespace Item

def tag : Item → UInt8
  | .ip _ _ => 1
  | .port _ _ => 2
  | .list => 3
  | .binary => 4
  | .inet => 6
  | .inet6 => 7
  | .sendTmout _ _ _ _ => 8
  | .sendTmoutInfinite => 9
  | .active _ => 10
  | .packet _ => 11
  | .header _ _ => 12
  | .sndbuf _ _ _ _ => 13
  | .recbuf _ _ _ _ => 14
  | .unknown tag _ => tag

def argument : Item → List UInt8
  | .ip text _ => text ++ [0]
  | .port a b | .header a b => [a, b]
  | .sendTmout a b c d | .sndbuf a b c d | .recbuf a b c d => [a, b, c, d]
  | .active a | .packet a => [a]
  | .list | .binary | .inet | .inet6 | .sendTmoutInfinite | .unknown _ _ => []

def bytes (i : Item) : List UInt8 := i.tag :: i.argument

/-- An address text has room in `addrstr`. -/
def Fits : Item → Prop
  | .ip text _ => text.length < SockOpts.inet6Addrstrlen
  | _ => True

/-- The option the parser notes. -/
def opt : Item → Option Opt
  | .ip _ _ => .some .ip
  | .port _ _ => .some .port
  | .list => .some .list
  | .binary => .some .binary
  | .inet => .some .inet
  | .inet6 => .some .inet6
  | .sendTmout _ _ _ _ => .some .sendTmout
  | .sendTmoutInfinite => .some .sendTmoutInfinite
  | .active _ => .some .active
  | .packet _ => .some .packet
  | .header _ _ => .some .header
  | .sndbuf _ _ _ _ => .some .sndbuf
  | .recbuf _ _ _ _ => .some .recbuf
  | .unknown _ _ => .none

/-- What the option does to the socket's options. -/
def apply (so : SockOpts) : Item → SockOpts
  | .ip text _ => { so with addrstr := text, addrSet := true }
  | .port a b => { so with port := beVal [a, b] }
  | .list => { so with deliveryMode := .dataList }
  | .binary => { so with deliveryMode := .dataBinary }
  | .inet => { so with inet6 := false }
  | .inet6 => { so with inet6 := true }
  | .sendTmout a b c d => { so with sendTmout := beVal [a, b, c, d] }
  | .sendTmoutInfinite => { so with sendTmout := -1 }
  | .active a => { so with active := .ofByte a }
  | .packet a => { so with packet := a.toNat }
  | .header a b => { so with header := beVal [a, b] }
  | .sndbuf a b c d => { so with sndbuf := SockOpts.toInt32 (beVal [a, b, c, d]) }
  | .recbuf a b c d => { so with recbuf := SockOpts.toInt32 (beVal [a, b, c, d]) }
  | .unknown _ _ => so

/-- The options a socket cannot change once it is bound. -/
def refused : Item → Bool
  | .ip _ _ | .port _ _ | .inet | .inet6 => true
  | _ => false

/-- An option `setopts` is meant to take: a known tag that is not refused,
with a value of its range. -/
def Settable : Item → Prop
  | .ip _ _ | .port _ _ | .inet | .inet6 | .unknown _ _ => False
  | .active a => a.toNat ≤ 2
  | .packet a => a.toNat = 0 ∨ a.toNat = 1 ∨ a.toNat = 2 ∨ a.toNat = 4
  | _ => True

/-- A string is the encoding of some items. -/
def Spells (items : List Item) (bin : List UInt8) : Prop := items.flatMap bytes = bin

end Item

namespace SockOpts

/-! ## The parser reads items -/

theorem cstring_append : ∀ {text : List UInt8} (rest : List UInt8), 0 ∉ text →
    cstring (text ++ 0 :: rest) = .some (text, rest)
  | [], rest, _ => by simp [cstring]
  | b :: text, rest, h => by
    simp only [List.mem_cons, not_or] at h
    rw [List.cons_append, cstring, if_neg (fun hb => h.1 hb.symm), cstring_append rest h.2]
    rfl

theorem cstring_some : ∀ {data text rest : List UInt8}, cstring data = .some (text, rest) →
    0 ∉ text ∧ data = text ++ 0 :: rest
  | b :: data, text, rest, h => by
    unfold cstring at h
    split at h
    · next hb =>
      cases h
      simp [hb]
    · next hb =>
      obtain ⟨⟨text', rest'⟩, hc, heq⟩ := Option.map_eq_some_iff.1 h
      cases heq
      obtain ⟨hn, rfl⟩ := cstring_some hc
      refine ⟨?_, rfl⟩
      rw [List.mem_cons, not_or]
      exact ⟨fun h0 => hb h0.symm, hn⟩

theorem decodeOne_ip (so : SockOpts) {data text rest : List UInt8} (hc : cstring data = .some (text, rest)) :
    decodeOne so 1 data = if text.length < inet6Addrstrlen then
      .ok ({ so with addrstr := text, addrSet := true }, .some .ip, rest) else .error .overread := by
  have htag : (1 : UInt8).toNat = 1 := rfl
  unfold decodeOne
  rw [htag]
  simp only [hc]

/-- A turn of the loop reads the item the string begins with. -/
theorem decodeOne_item (so : SockOpts) {i : Item} (hi : i.Fits) (rest : List UInt8) :
    decodeOne so i.tag (i.argument ++ rest) = .ok (i.apply so, i.opt, rest) := by
  cases i with
  | ip text h0 =>
    have hc : cstring (text ++ [0] ++ rest) = .some (text, rest) := by
      rw [List.append_assoc]
      exact cstring_append rest h0
    exact (decodeOne_ip so hc).trans (if_pos hi)
  | unknown tag h =>
    unfold decodeOne
    unfold unknownTag at h
    split <;> first | rfl | (simp only [Item.tag] at *; omega)
  | _ => rfl

theorem decodeOne_ok {so so' : SockOpts} {tag : UInt8} {data rest : List UInt8} {o : Option Opt}
    (h : decodeOne so tag data = .ok (so', o, rest)) :
    ∃ i : Item, i.Fits ∧ i.tag = tag ∧ data = i.argument ++ rest ∧ so' = i.apply so ∧ o = i.opt := by
  have hof : ∀ {n : Nat}, tag.toNat = n → UInt8.ofNat n = tag := by
    rintro n rfl
    exact UInt8.ofNat_toNat
  unfold decodeOne at h
  split at h
  · next ht =>
    obtain rfl := hof ht
    split at h
    · cases h
    next text rest' hc =>
    obtain ⟨h0, rfl⟩ := cstring_some hc
    split at h
    · next hlen =>
      cases h
      exact ⟨.ip text h0, hlen, rfl, by simp [Item.argument], rfl, rfl⟩
    · cases h
  · next a b rest' ht =>
    cases h
    exact ⟨.port a b, trivial, hof ht, rfl, rfl, rfl⟩
  · next ht =>
    cases h
    exact ⟨.list, trivial, hof ht, rfl, rfl, rfl⟩
  · next ht =>
    cases h
    exact ⟨.binary, trivial, hof ht, rfl, rfl, rfl⟩
  · next ht =>
    cases h
    exact ⟨.inet, trivial, hof ht, rfl, rfl, rfl⟩
  · next ht =>
    cases h
    exact ⟨.inet6, trivial, hof ht, rfl, rfl, rfl⟩
  · next a b c d rest' ht =>
    cases h
    exact ⟨.sendTmout a b c d, trivial, hof ht, rfl, rfl, rfl⟩
  · next ht =>
    cases h
    exact ⟨.sendTmoutInfinite, trivial, hof ht, rfl, rfl, rfl⟩
  · next a rest' ht =>
    cases h
    exact ⟨.active a, trivial, hof ht, rfl, rfl, rfl⟩
  · next a rest' ht =>
    cases h
    exact ⟨.packet a, trivial, hof ht, rfl, rfl, rfl⟩
  · next a b rest' ht =>
    cases h
    exact ⟨.header a b, trivial, hof ht, rfl, rfl, rfl⟩
  · next a b c d rest' ht =>
    cases h
    exact ⟨.sndbuf a b c d, trivial, hof ht, rfl, rfl, rfl⟩
  · next a b c d rest' ht =>
    cases h
    exact ⟨.recbuf a b c d, trivial, hof ht, rfl, rfl, rfl⟩
  all_goals cases h
  have hun : unknownTag tag := by
    simp only [imp_false] at *
    unfold unknownTag
    omega
  exact ⟨.unknown tag hun, trivial, rfl, rfl, rfl, rfl⟩

theorem decodeOne_error {so : SockOpts} {tag : UInt8} {data : List UInt8} {f : Fault}
    (h : decodeOne so tag data = .error f) : f = .overread := by
  unfold decodeOne at h
  split at h
  · split at h
    · cases h
      rfl
    · split at h <;> cases h
      rfl
  all_goals cases h
  all_goals rfl

variable {so so' : SockOpts} {bin : List UInt8} {names : List Opt} {f : Fault}

theorem decodeLoop_nil (n : Nat) (so : SockOpts) (acc : List Opt) : decodeLoop n so acc [] = .ok (so, acc) := by
  cases n <;> rfl

theorem decodeLoop_cons (n : Nat) (so : SockOpts) (acc : List Opt) (tag : UInt8) (data : List UInt8) :
    decodeLoop (n + 1) so acc (tag :: data) =
      (decodeOne so tag data).bind fun r => decodeLoop n r.1 (acc ++ r.2.1.toList) r.2.2 := rfl

/-- A turn for each item, and the options they leave. -/
theorem decodeLoop_spells : ∀ {items : List Item} {n : Nat} (so : SockOpts) (acc : List Opt) {bin : List UInt8},
    Item.Spells items bin → (∀ i ∈ items, i.Fits) → bin.length ≤ n →
      decodeLoop n so acc bin = .ok (items.foldl Item.apply so, acc ++ items.filterMap Item.opt)
  | [], n, so, acc, bin, hs, _, _ => by
    obtain rfl : bin = [] := hs.symm
    simp [decodeLoop_nil]
  | i :: items, 0, so, acc, bin, hs, _, hn => by
    obtain rfl := List.length_eq_zero_iff.1 (Nat.le_zero.1 hn)
    simp [Item.Spells, Item.bytes] at hs
  | i :: items, n + 1, so, acc, bin, hs, hf, hn => by
    obtain rfl : bin = i.tag :: (i.argument ++ items.flatMap Item.bytes) := by
      rw [← hs, List.flatMap_cons, Item.bytes, List.cons_append]
    have hlen : (items.flatMap Item.bytes).length ≤ n := by
      simp only [List.length_cons, List.length_append] at hn
      omega
    have hspells : Item.Spells items (items.flatMap Item.bytes) := rfl
    have hrest := decodeLoop_spells (i.apply so) (acc ++ i.opt.toList) hspells (fun j hj => hf j (by simp [hj])) hlen
    rw [decodeLoop_cons, decodeOne_item so (hf i (by simp)), List.foldl_cons]
    refine hrest.trans ?_
    cases hi : i.opt <;> simp [hi]

/-- What the loop gets through is a string of items. -/
theorem spells_of_decodeLoop : ∀ {n : Nat} {so : SockOpts} {acc : List Opt} {bin : List UInt8},
    bin.length ≤ n → decodeLoop n so acc bin = .ok (so', names) →
      ∃ items, Item.Spells items bin ∧ (∀ i ∈ items, i.Fits)
  | _, _, _, [], _, _ => ⟨[], rfl, by simp⟩
  | 0, _, _, _ :: _, hn, _ => by simp at hn
  | n + 1, so, acc, tag :: data, hn, h => by
    rw [decodeLoop_cons] at h
    rcases hone : decodeOne so tag data with f | ⟨so₁, o, rest⟩
    · rw [hone] at h
      cases h
    rw [hone] at h
    obtain ⟨i, hi, rfl, rfl, -, -⟩ := decodeOne_ok hone
    have hlen : rest.length ≤ n := by
      simp only [List.length_cons, List.length_append] at hn
      omega
    obtain ⟨items, hs, hf⟩ := spells_of_decodeLoop hlen h
    refine ⟨i :: items, ?_, ?_⟩
    · rw [Item.Spells, List.flatMap_cons, hs, Item.bytes, List.cons_append]
    · intro j hj
      rcases List.mem_cons.1 hj with rfl | hj
      · exact hi
      · exact hf j hj

theorem decodeLoop_error : ∀ {n : Nat} {so : SockOpts} {acc : List Opt} {bin : List UInt8},
    decodeLoop n so acc bin = .error f → f = .overread
  | 0, _, _, [], h | 0, _, _, _ :: _, h | _ + 1, _, _, [], h => by cases h
  | n + 1, so, acc, tag :: data, h => by
    rw [decodeLoop_cons] at h
    rcases hone : decodeOne so tag data with f' | ⟨so₁, o, rest⟩
    · rw [hone] at h
      cases h
      exact decodeOne_error hone
    · rw [hone] at h
      exact decodeLoop_error h

/-- **The loop gets through exactly the strings of items**, and does what the
items say. -/
theorem decodeLoop_ok_iff : decodeLoop bin.length so [] bin = .ok (so', names) ↔
    ∃ items, Item.Spells items bin ∧ (∀ i ∈ items, i.Fits) ∧ so' = items.foldl Item.apply so ∧
      names = items.filterMap Item.opt := by
  constructor
  · intro h
    obtain ⟨items, hs, hf⟩ := spells_of_decodeLoop (Nat.le_refl _) h
    have hloop := decodeLoop_spells so [] hs hf (Nat.le_refl _)
    rw [h] at hloop
    cases hloop
    exact ⟨items, hs, hf, rfl, rfl⟩
  · intro hrefused
    obtain ⟨items, hs, hf, rfl, rfl⟩ := hrefused
    exact decodeLoop_spells so [] hs hf (Nat.le_refl _)

end SockOpts

/-! ## The address and the merge -/

/-- The text of an address. -/
def Item.text : Item → Option (List UInt8)
  | .ip text _ => .some text
  | _ => .none

/-- The address texts of some items, in order. -/
def Item.addresses (items : List Item) : List (List UInt8) := items.filterMap text

theorem Item.fits_iff {i : Item} : i.Fits ↔ ∀ s, i.text = .some s → s.length < SockOpts.inet6Addrstrlen := by
  cases i <;> simp [Fits, text]

/-- The address `decode` builds at the end. -/
def Item.lastAddress (items : List Item) : Option (List UInt8) := (addresses items).getLast?

/-- `getaddrinfo` takes the address, if there is one. -/
def Item.Numeric (numericHost : List UInt8 → Bool) (items : List Item) : Prop :=
  ∀ text, lastAddress items = .some text → numericHost text = true

def Opt.refused : Opt → Bool
  | .ip | .port | .inet | .inet6 => true
  | _ => false

theorem Item.addresses_cons (i : Item) (items : List Item) :
    addresses (i :: items) = i.text.toList ++ addresses items := by
  cases i <;> rfl

/-- The address fields are those of the last address. -/
theorem Item.apply_address : ∀ (items : List Item) (so : SockOpts),
    (items.foldl apply so).addrSet = (so.addrSet || !(addresses items).isEmpty) ∧
      (items.foldl apply so).addrstr = (lastAddress items).getD so.addrstr ∧
      (items.foldl apply so).addr = so.addr
  | [], so => by simp [addresses, lastAddress]
  | i :: items, so => by
    obtain ⟨hset, hstr, haddr⟩ := apply_address items (i.apply so)
    rw [List.foldl_cons, hset, hstr, haddr, lastAddress, lastAddress, addresses_cons, List.getLast?_append]
    cases i with
    | ip s h0 => cases (addresses items).getLast? <;> simp [Item.text, apply]
    | _ => simp [Item.text, apply]

theorem Item.not_refused_address {items : List Item} (h : ∀ i ∈ items, i.refused = false) :
    lastAddress items = .none := by
  have hnil : addresses items = [] := by
    rw [addresses, List.filterMap_eq_nil_iff]
    intro i hi
    have hr := h i hi
    cases i <;> first | rfl | cases hr
  rw [lastAddress, hnil]
  rfl

namespace SockOpts

variable {so so' cur : SockOpts} {bin : List UInt8} {names : List Opt} {f : Fault}
  {numericHost : List UInt8 → Bool} {items : List Item}

/-- The options a string of items decodes to. -/
def decoded (items : List Item) : SockOpts :=
  let so := items.foldl Item.apply new
  { so with addr := (Item.lastAddress items).map fun text => (text, so.port) }

theorem decode_spells (hs : Item.Spells items bin) (hf : ∀ i ∈ items, i.Fits) (hn : Item.Numeric numericHost items) :
    decode numericHost new bin = .ok (decoded items, items.filterMap Item.opt) := by
  have hloop : decodeLoop bin.length new [] bin = .ok (items.foldl Item.apply new, items.filterMap Item.opt) :=
    decodeLoop_ok_iff.2 ⟨items, hs, hf, rfl, rfl⟩
  obtain ⟨hset, hstr, haddr⟩ := Item.apply_address items new
  simp only [decode, hloop, bind, Except.bind, decoded]
  rcases hl : Item.lastAddress items with _ | text
  · have hnil : Item.addresses items = [] := List.getLast?_eq_none_iff.1 hl
    have hunset : (items.foldl Item.apply new).addrSet = false := by
      rw [hset, hnil]
      rfl
    have hnone : (items.foldl Item.apply new).addr = .none := haddr
    rw [if_neg (by simp [hunset]), Option.map_none, ← hnone]
  · have hne : Item.addresses items ≠ [] := by
      intro hnil
      rw [Item.lastAddress, hnil] at hl
      cases hl
    rw [hset, hstr, hl]
    simp [hne, hn text hl]

/-- A string of items whose address `getaddrinfo` does not take makes
`from_addrport` throw. -/
theorem decode_badSockAddr (hs : Item.Spells items bin) (hf : ∀ i ∈ items, i.Fits) {text : List UInt8}
    (hl : Item.lastAddress items = .some text) (hn : numericHost text = false) :
    decode numericHost new bin = .error .badSockAddr := by
  have hloop : decodeLoop bin.length new [] bin = .ok (items.foldl Item.apply new, items.filterMap Item.opt) :=
    decodeLoop_ok_iff.2 ⟨items, hs, hf, rfl, rfl⟩
  obtain ⟨hset, hstr, -⟩ := Item.apply_address items new
  have hne : Item.addresses items ≠ [] := by
    intro hnil
    rw [Item.lastAddress, hnil] at hl
    cases hl
  simp only [decode, hloop, bind, Except.bind]
  rw [hset, hstr, hl]
  simp [hne, hn]

/-- The outcomes of `decode`: the string of some items, an address that is
none, or a read past the end. -/
theorem decode_cases (numericHost : List UInt8 → Bool) (bin : List UInt8) :
    (∃ items, Item.Spells items bin ∧ (∀ i ∈ items, i.Fits) ∧ Item.Numeric numericHost items) ∨
      decode numericHost new bin = .error .badSockAddr ∨ decode numericHost new bin = .error .overread := by
  rcases hloop : decodeLoop bin.length new [] bin with f | ⟨so, names⟩
  · obtain rfl := decodeLoop_error hloop
    exact .inr (.inr (by simp [decode, hloop, bind, Except.bind]))
  · obtain ⟨items, hs, hf, -, -⟩ := decodeLoop_ok_iff.1 hloop
    by_cases hn : Item.Numeric numericHost items
    · exact .inl ⟨items, hs, hf, hn⟩
    · simp only [Item.Numeric, not_forall, Bool.not_eq_true] at hn
      obtain ⟨text, hl, hn⟩ := hn
      exact .inr (.inl (decode_badSockAddr hs hf hl hn))

theorem mergeOne_ok (so cur : SockOpts) {o : Opt} (ho : o.refused = false) : ∃ r, mergeOne so cur o = .ok r := by
  cases o <;> first | exact ⟨_, rfl⟩ | cases ho

theorem mergeOne_refused {o : Opt} (ho : o.refused = true) : mergeOne so cur o = .error .invalidArgument := by
  cases o <;> first | rfl | cases ho

/-- The merge refuses exactly the options a bound socket cannot change. -/
theorem merge_cases (so : SockOpts) : ∀ (names : List Opt) (cur : SockOpts),
    (if names.any Opt.refused then names.foldlM (mergeOne so) cur = .error .invalidArgument
      else ∃ r, names.foldlM (mergeOne so) cur = .ok r)
  | [], cur => ⟨cur, rfl⟩
  | o :: names, cur => by
    rcases ho : o.refused with _ | _
    · obtain ⟨r, hr⟩ := mergeOne_ok so cur ho
      have hrest := merge_cases so names r
      simp only [List.any_cons, ho, Bool.false_or, List.foldlM_cons, hr]
      exact hrest
    · simp only [List.any_cons, ho, Bool.true_or, if_true, List.foldlM_cons, mergeOne_refused ho]
      rfl

theorem any_refused : (items.filterMap Item.opt).any Opt.refused = items.any Item.refused := by
  induction items with
  | nil => rfl
  | cons i items ih =>
    rw [List.any_cons, ← ih]
    cases i <;> rfl

theorem decodeAndMerge_spells (cur : SockOpts) (hs : Item.Spells items bin) (hf : ∀ i ∈ items, i.Fits)
    (hn : Item.Numeric numericHost items) : cur.decodeAndMerge numericHost bin =
      (items.filterMap Item.opt).foldlM (mergeOne (decoded items)) cur := by
  rw [decodeAndMerge, decode_spells hs hf hn]
  rfl

theorem decodeAndMerge_taken (cur : SockOpts) (hs : Item.Spells items bin) (hf : ∀ i ∈ items, i.Fits)
    (hr : ∀ i ∈ items, i.refused = false) : ∃ so, cur.decodeAndMerge numericHost bin = .ok so := by
  have hn : Item.Numeric numericHost items := by simp [Item.Numeric, Item.not_refused_address hr]
  have hm := merge_cases (decoded items) (items.filterMap Item.opt) cur
  rw [any_refused, if_neg (by simpa using hr)] at hm
  rw [decodeAndMerge_spells cur hs hf hn]
  exact hm

theorem decodeAndMerge_refused (cur : SockOpts) (hs : Item.Spells items bin) (hf : ∀ i ∈ items, i.Fits)
    (hn : Item.Numeric numericHost items) (hr : ∃ i ∈ items, i.refused = true) :
    cur.decodeAndMerge numericHost bin = .error .invalidArgument := by
  have hm := merge_cases (decoded items) (items.filterMap Item.opt) cur
  rw [any_refused, if_pos (by simpa using hr)] at hm
  rw [decodeAndMerge_spells cur hs hf hn]
  exact hm

theorem decodeAndMerge_error (cur : SockOpts) (hd : decode numericHost new bin = .error f) :
    cur.decodeAndMerge numericHost bin = .error f := by
  simp only [decodeAndMerge, hd, bind, Except.bind]

end SockOpts

/-! ## What `setopts` accepts -/

/-- The strings `setopts` is meant to take. -/
def WellFormed (bin : List UInt8) : Prop := ∃ items, Item.Spells items bin ∧ ∀ i ∈ items, i.Settable

/-- The string refuses itself: it is complete, its address is one, and some
option of it cannot be set. -/
def RefusesItself (numericHost : List UInt8 → Bool) (bin : List UInt8) : Prop :=
  ∃ items, Item.Spells items bin ∧ (∀ i ∈ items, i.Fits) ∧ Item.Numeric numericHost items ∧
    ∃ i ∈ items, i.refused = true

/-- A request was answered `r`. -/
def Answers (o : List PortEffect) (r : Reply) : Prop := .utp (.reply r) ∈ o ∨ .reply r ∈ o

/-- What `setopts` should make of a string: the parser stays inside it and
throws nothing that `setopts` does not catch, and the answer is `ok` for the
well-formed strings and `BADARG`, with nothing changed, for the others. -/
structure SetoptsSafe (g : GetAddrInfo) (bin : List UInt8) : Prop where
  parses : ∀ (cur : SockOpts) f, cur.decodeAndMerge g.numericHost bin = .error f → f = .invalidArgument
  answers : ∀ {m m' : MainHandler} {p buf mem o}, m.delegatee ≠ .none → decodeBinary buf = .some bin →
    m.control g p (.setopts buf mem) = .some (m', o) →
    (Answers o .ok ↔ WellFormed bin) ∧ (¬WellFormed bin → m.Untouched m' o ∧ Answers o .badarg)

section

variable {g : GetAddrInfo} {m m' : MainHandler} {p : Pid} {buf : EiBuf} {mem : Mem} {o : List PortEffect}
  {bin : List UInt8}

theorem not_answers_badarg : ¬Answers [.utp (.reply .badarg)] .ok ∧ ¬Answers [.reply .badarg] .ok := by
  simp [Answers]

theorem setopts_answers (hd : m.delegatee ≠ .none) (hb : decodeBinary buf = .some bin)
    (hc : m.control g p (.setopts buf mem) = .some (m', o)) :
    ∃ cur : SockOpts, ((∃ so, cur.decodeAndMerge g.numericHost bin = .ok so) ∧ Answers o .ok) ∨
      (cur.decodeAndMerge g.numericHost bin = .error .invalidArgument ∧ m.Untouched m' o ∧ Answers o .badarg ∧
        ¬Answers o .ok) := by
  unfold MainHandler.control at hc
  split at hc
  · next h hdel =>
    obtain ⟨⟨h', o'⟩, hcon, heq⟩ := Option.map_eq_some_iff.1 hc
    obtain ⟨rfl, rfl⟩ := Prod.mk.inj heq
    obtain ⟨⟨h'', a⟩, hm, heq⟩ := Option.map_eq_some_iff.1 hcon
    obtain ⟨rfl, rfl⟩ := Prod.mk.inj heq
    refine ⟨h.sockopts, ?_⟩
    cases UtpHandler.machine_step hm with
    | setoptsBadarg hall =>
      refine .inr ⟨hall bin hb, ⟨by rw [← hdel], by simp [PortEffect.isBadarg]⟩, ?_, not_answers_badarg.1⟩
      exact .inl (by simp)
    | setoptsQuiet hb' hm =>
      obtain rfl := Option.some.inj (hb.symm.trans hb')
      exact .inl ⟨⟨_, hm⟩, .inl (by simp)⟩
    | setoptsEmit hb' hm =>
      obtain rfl := Option.some.inj (hb.symm.trans hb')
      exact .inl ⟨⟨_, hm⟩, .inl (by simp)⟩
  · next l hdel =>
    obtain ⟨⟨l', o'⟩, hcon, heq⟩ := Option.map_eq_some_iff.1 hc
    obtain ⟨rfl, rfl⟩ := Prod.mk.inj heq
    obtain ⟨⟨l'', r⟩, hset, heq⟩ := Option.map_eq_some_iff.1 hcon
    obtain ⟨rfl, rfl⟩ := Prod.mk.inj heq
    refine ⟨l.sockopts, ?_⟩
    simp only [Listener.setopts, hb] at hset
    split at hset
    · next hm =>
      cases hset
      exact .inr ⟨hm, ⟨by rw [← hdel], by simp [PortEffect.isBadarg]⟩, .inr (by simp), not_answers_badarg.2⟩
    · cases hset
    · next so hm =>
      cases hset
      exact .inl ⟨⟨so, hm⟩, .inr (by simp)⟩
  · next hnone => exact absurd hnone hd

theorem Item.Settable.taken {i : Item} (h : i.Settable) : i.Fits ∧ i.refused = false := by
  cases i <;> first | exact ⟨trivial, rfl⟩ | cases h

theorem Item.Settable.known {i : Item} (h : i.Settable) : ¬unknownTag i.tag := by
  cases i with
  | ip | port | inet | inet6 | unknown => exact h.elim
  | _ => simp [unknownTag, Item.tag]

/-- The merge takes every well-formed string. -/
theorem WellFormed.merges (hw : WellFormed bin) (cur : SockOpts) :
    ∃ so, cur.decodeAndMerge g.numericHost bin = .ok so := by
  obtain ⟨items, hs, hall⟩ := hw
  exact SockOpts.decodeAndMerge_taken cur hs (fun i hi => (hall i hi).taken.1) fun i hi => (hall i hi).taken.2

theorem RefusesItself.merges (hr : RefusesItself g.numericHost bin) (cur : SockOpts) :
    cur.decodeAndMerge g.numericHost bin = .error .invalidArgument := by
  obtain ⟨items, hs, hf, hn, href⟩ := hr
  exact SockOpts.decodeAndMerge_refused cur hs hf hn href

/-- **`setopts` is safe exactly on the well-formed strings and on those that
refuse themselves.** -/
theorem setopts_safe_iff (g : GetAddrInfo) (bin : List UInt8) :
    SetoptsSafe g bin ↔ WellFormed bin ∨ RefusesItself g.numericHost bin := by
  constructor
  · intro hsafe
    obtain ⟨items, hs, hf, hn⟩ | hd | hd := SockOpts.decode_cases g.numericHost bin
    · by_cases hr : ∃ i ∈ items, i.refused = true
      · exact .inr ⟨items, hs, hf, hn, hr⟩
      have hr : ∀ i ∈ items, i.refused = false := by simpa using hr
      obtain ⟨so, hm⟩ : ∃ so, SockOpts.new.decodeAndMerge g.numericHost bin = .ok so :=
        SockOpts.decodeAndMerge_taken .new hs hf hr
      -- a fresh listener takes the string, so it has to be well formed
      have hset : MainHandler.control g ⟨.some (.listener (.new .new))⟩ 0
          (.setopts [.version, .binary bin] fun _ => 0) =
          .some (⟨.some (.listener { Listener.new .new with sockopts := so })⟩, [.reply .ok]) := by
        have hl : (Listener.new .new).setopts [.version, .binary bin] g.numericHost =
            .some ({ Listener.new .new with sockopts := so }, .ok) := by
          have hdec : decodeBinary [.version, .binary bin] = .some bin := rfl
          simp only [Listener.setopts, Listener.new, hdec, hm]
        simp only [MainHandler.control, Listener.control, hl, Option.map_some]
      exact .inl ((hsafe.answers (by simp) rfl hset).1.1 (.inr (by simp)))
    · cases hsafe.parses .new _ (SockOpts.decodeAndMerge_error .new hd)
    · cases hsafe.parses .new _ (SockOpts.decodeAndMerge_error .new hd)
  · intro hor
    rcases hor with hw | hr
    · refine ⟨?_, ?_⟩
      · intro cur f hf
        obtain ⟨so, hm⟩ := hw.merges (g := g) cur
        rw [hm] at hf
        cases hf
      · intro m m' p buf mem o hd hb hc
        refine ⟨iff_of_true ?_ hw, fun hnot => absurd hw hnot⟩
        obtain ⟨cur, ⟨-, hok⟩ | ⟨herr, -⟩⟩ := setopts_answers hd hb hc
        · exact hok
        · obtain ⟨so, hm⟩ := hw.merges (g := g) cur
          rw [hm] at herr
          cases herr
    · refine ⟨?_, ?_⟩
      · intro cur f hf
        rw [hr.merges cur] at hf
        cases hf
        rfl
      · intro m m' p buf mem o hd hb hc
        obtain ⟨cur, ⟨⟨so, hm⟩, -⟩ | ⟨-, hun, hbad, hnot⟩⟩ := setopts_answers hd hb hc
        · rw [hr.merges cur] at hm
          cases hm
        · refine ⟨iff_of_false hnot fun hw => ?_, fun _ => ⟨hun, hbad⟩⟩
          obtain ⟨so, hm⟩ := hw.merges (g := g) cur
          rw [hr.merges cur] at hm
          cases hm

theorem not_wellFormed_of_unknown {tag : UInt8} {data : List UInt8} (h : unknownTag tag) :
    ¬WellFormed (tag :: data) := by
  intro hspells
  obtain ⟨items, hs, hall⟩ := hspells
  cases items with
  | nil => cases hs
  | cons i items =>
    obtain ⟨htag, -⟩ := List.cons.inj (show i.tag :: (i.argument ++ items.flatMap Item.bytes) = tag :: data from hs)
    subst htag
    exact (hall i (by simp)).known h

/-- A `packet` option cut short is read past the end; and `setopts` answers
`ok` to a byte that is no tag. -/
theorem setopts_unsafe : ¬SetoptsSafe (fun _ => .none) [11] ∧ ¬SetoptsSafe (fun _ => .none) [5] := by
  constructor
  · intro h
    cases h.parses .new .overread rfl
  · intro h
    have hc : MainHandler.control (fun _ => .none) ⟨.some (.listener (.new .new))⟩ 0
        (.setopts [.version, .binary [5]] fun _ => 0) = .some (_, _) := rfl
    have hok := h.answers (by simp) rfl hc
    exact not_wellFormed_of_unknown (by decide) (hok.1.1 (.inr (by simp)))

end

end GenUtp
