/-
The bytes that pass through `port_control` (`coder.cc`, `utils.cc`).

A request is `term_to_binary` of its arguments, which `EiDecoder` reads from
the front, tag by tag. An answer is what `EiEncoder` was given, and one byte
more: `copy_to_binary` copies `index + 1` bytes of the buffer, of which the
last was never written. `binary_to_term` takes the term in front of it.

`request_read` says that the driver reads what `gen_utp` wrote, which is why
the arguments are tokens everywhere else, and `reply_read` that the process
reads the reply.
-/
import Mathlib.Data.Nat.Digits.Lemmas
import GenUtp.Lib.ExtTerm
import GenUtp.Requests
import GenUtp.RecvCall

namespace GenUtp

open ExtTerm Frames

/-! ## What `EiDecoder` reads -/

/-- A token as the decoders tell it. They know no atoms, and one list:
`ei_decode_string` reads `[]` as an empty text. -/
def eiToken : Token → EiToken
  | .tuple arity => .tuple arity
  | .int n => .int n
  | .string text => .string text
  | .binary bs => .binary bs
  | .nil => .string []
  | .atom _ | .list _ => .other

/-- The tokens from the front of a buffer on. -/
def eiTokens : Nat → List UInt8 → EiBuf
  | 0, _ => []
  | n + 1, bs =>
    match next bs with
    | .none => []
    | .some (tok, bs) => eiToken tok :: eiTokens n bs

/-- An argument buffer. -/
def eiBuf : List UInt8 → EiBuf
  | [] => []
  | version :: bs => if version = 131 then .version :: eiTokens bs.length bs else []

/-- `erlang:term_to_binary` -/
def termToBinary (t : Term) : List UInt8 := t.bytes 31

/-- `term_to_binary(term_to_binary(Ref))`, and the argument of `listen`,
`setopts` and `getopts`. -/
def binaryTerm (bs : List UInt8) : Term := .binary bs

/-- `{Length, term_to_binary(Ref)}` -/
def recvTerm (length : Int) (ref : Ref) : Term := .tuple [.int length, .binary ref]

/-- A string of characters, which is `[]` when it is empty. -/
def stringTerm (text : List UInt8) : Term := if text = [] then .list [] else .string text

/-- `{AddrStr, Port, OptBin}` -/
def connectTerm (addrStr : List UInt8) (port : Nat) (optBin : List UInt8) : Term :=
  .tuple [stringTerm addrStr, .int port, .binary optBin]

theorem eiTokens_bytes {bits : Nat} (hbits : bits ≤ 31) : ∀ (toks : List Token) (n : Nat), toks.length ≤ n →
    (∀ tok ∈ toks, tok.Fits) → eiTokens n (toks.flatMap (Token.bytes bits)) = toks.map eiToken
  | [], n, _, _ => by
    cases n <;> rfl
  | tok :: toks, 0, hn, _ => by
    simp at hn
  | tok :: toks, n + 1, hn, hfits => by
    rw [List.forall_mem_cons] at hfits
    rw [List.flatMap_cons, eiTokens, next_bytes hbits hfits.1, List.map_cons]
    exact congrArg _ (eiTokens_bytes hbits toks n (by simpa using hn) hfits.2)

theorem eiBuf_termToBinary {t : Term} (h : ∀ tok ∈ t.tokens, tok.Fits) :
    eiBuf (termToBinary t) = .version :: t.tokens.map eiToken := by
  rw [termToBinary, Term.bytes, eiBuf, if_pos rfl, eiTokens_bytes le_rfl _ _ (length_le_bytes 31 _) h]

theorem int_fits {n : Int} (h : n.natAbs < 2 ^ 64) : (Token.int n).Fits := by
  have hdigits : (Nat.digits 256 n.natAbs).length ≤ 8 := (Nat.digits_length_le_iff (by decide) _).2 (by omega)
  show (leBytes n.natAbs).length < 2 ^ 32
  rw [leBytes, List.length_map]
  omega

theorem stringTerm_read {text : List UInt8} (h : text.length < 2 ^ 16) :
    (stringTerm text).tokens.map eiToken = [.string text] ∧ ∀ tok ∈ (stringTerm text).tokens, tok.Fits := by
  unfold stringTerm
  split
  next hnil =>
    subst hnil
    simp [Term.tokens, eiToken, Token.Fits]
  next => simpa [Term.tokens, eiToken, Token.Fits] using h

/-- **The driver reads the arguments that `gen_utp` wrote**: a reference or
the options, the length and the reference of `recv`, for which a length that
is negative or has more than 64 bits is refused, and the address, port and
options of `connect`. An address that does not fit `addrstr` is not refused:
it is written past the end, which is undefined. -/
theorem request_read {bs addrStr : List UInt8} {ref : Ref} {length : Int} {port : Nat} (hbs : bs.length < 2 ^ 32)
    (href : ref.length < 2 ^ 32) (hlength : (Token.int length).Fits) (haddr : addrStr.length < 2 ^ 16)
    (hport : port < 65536) :
    decodeBinary (eiBuf (termToBinary (binaryTerm bs))) = .some bs ∧
    decodeRecv (eiBuf (termToBinary (recvTerm length ref))) =
      (if 0 ≤ length ∧ length < 2 ^ 64 then .some (length.toNat, ref) else .none) ∧
    MainHandler.decodeConnectStart (eiBuf (termToBinary (connectTerm addrStr port bs))) =
      (if addrStr.length < SockOpts.inet6Addrstrlen then .some (.some (addrStr, port, bs)) else .none) := by
  refine ⟨?_, ?_, ?_⟩
  · rw [eiBuf_termToBinary (by simpa [binaryTerm, Term.tokens, Token.Fits] using hbs)]
    rfl
  · have htokens : (recvTerm length ref).tokens = [.tuple 2, .int length, .binary ref] := by
      simp [recvTerm, Term.tokens, Term.tokensAll]
    have hfits : ∀ tok ∈ (recvTerm length ref).tokens, tok.Fits := by
      simp only [htokens, List.forall_mem_cons]
      exact ⟨by simp [Token.Fits], hlength, href, by simp⟩
    rw [eiBuf_termToBinary hfits, htokens]
    simp only [List.map_cons, List.map_nil, eiToken, decodeRecv, EiDecoder.start, EiDecoder.tupleHeader,
      EiDecoder.ulongval, Option.bind_eq_bind, Option.bind_some]
    by_cases hulong : 0 ≤ length ∧ length < 2 ^ 64
    · rw [if_pos hulong, if_pos hulong]
      rfl
    · rw [if_neg hulong, if_neg hulong]
      rfl
  · obtain ⟨hread, hfit⟩ := stringTerm_read haddr
    have htokens : (connectTerm addrStr port bs).tokens =
        .tuple 3 :: ((stringTerm addrStr).tokens ++ [.int port, .binary bs]) := by
      simp [connectTerm, Term.tokens, Term.tokensAll]
    have hfits : ∀ tok ∈ (connectTerm addrStr port bs).tokens, tok.Fits := by
      simp only [htokens, List.forall_mem_cons, List.forall_mem_append]
      exact ⟨by simp [Token.Fits], hfit, int_fits (by omega), hbs, by simp⟩
    have hulong : EiDecoder.ulongval [.int port, .binary bs] = .some (port, [.binary bs]) := by
      rw [EiDecoder.ulongval, if_pos (by omega), Int.toNat_natCast]
    rw [eiBuf_termToBinary hfits, htokens, List.map_cons, List.map_append, hread]
    show MainHandler.decodeConnectStart [.version, .tuple 3, .string addrStr, .int port, .binary bs] = _
    simp only [MainHandler.decodeConnectStart, EiDecoder.start, EiDecoder.tupleHeader, EiDecoder.string,
      Option.bind_eq_bind, Option.bind_some, ne_eq, not_true_eq_false, if_false, hulong]
    rfl

/-- `recv` of five bytes, and `connect` to the port 80 of an address of nine
characters. -/
theorem request_read_five : decodeBinary (eiBuf (termToBinary (binaryTerm [5]))) = .some [5] ∧
    decodeRecv (eiBuf (termToBinary (recvTerm 5 [131]))) = .some (5, [131]) ∧
    MainHandler.decodeConnectStart (eiBuf (termToBinary (connectTerm [49, 50, 55, 46, 48, 46, 48, 46, 49] 80 [5]))) =
      .some (.some ([49, 50, 55, 46, 48, 46, 48, 46, 49], 80, [5])) :=
  request_read (by decide) (by decide) (int_fits (by decide)) (by decide) (by decide)

/-! ## What `EiEncoder` writes -/

/-- The bytes of a text. -/
def chars (str : String) : List UInt8 := str.toUTF8.data.toList

/-- The buffer of an `EiEncoder`, up to its `index`. -/
abbrev EiEncoder := List UInt8

namespace EiEncoder

def new : EiEncoder := [131]

/-- A call of `ei_x_encode`; `ei` writes numbers of up to 27 bits as
`INTEGER_EXT`. -/
def put (enc : EiEncoder) (tok : Token) : EiEncoder := enc ++ tok.bytes 27

def tupleHeader (enc : EiEncoder) (arity : Nat) : EiEncoder := enc.put (.tuple arity)

def listHeader (enc : EiEncoder) (arity : Nat) : EiEncoder := enc.put (.list arity)

def emptyList (enc : EiEncoder) : EiEncoder := enc.put .nil

/-- `ei` cuts a name after 255 bytes; the names here are shorter. -/
def atom (enc : EiEncoder) (a : String) : EiEncoder := enc.put (.atom (chars a))

/-- `ei_encode_string`: an empty string is an empty list. -/
def string (enc : EiEncoder) (str : String) : EiEncoder :=
  if chars str = [] then enc.emptyList else enc.put (.string (chars str))

/-- `longval` and `ulongval` -/
def number (enc : EiEncoder) (val : Int) : EiEncoder := enc.put (.int val)

def binary (enc : EiEncoder) (bs : List UInt8) : EiEncoder := enc.put (.binary bs)

/-- `copy_to_binary`: whether it takes a new binary, for a reply buffer of
`rlen` bytes, and what it copies. `unwritten` is what lies at `index`. -/
def copyToBinary (enc : EiEncoder) (unwritten : UInt8) (rlen : Nat) : Bool × List UInt8 :=
  (rlen < enc.length + 1, enc ++ [unwritten])

end EiEncoder

/-- `encode_atom`, and the answers that are an atom. -/
def encodeAtom (a : String) : EiEncoder := EiEncoder.new.atom a

def encodeError (error : String) : EiEncoder := ((EiEncoder.new.tupleHeader 2).atom "error").atom error

/-- `connect_validate` in an illegal state. -/
def encodeErrorString (err : String) : EiEncoder := ((EiEncoder.new.tupleHeader 2).atom "error").string err

/-- `SockAddr::encode` -/
def encodeAddr (addrstr : String) (port : Nat) : EiEncoder :=
  (((EiEncoder.new.tupleHeader 2).atom "ok").tupleHeader 2 |>.string addrstr).number port

/-- The answer of `Listener::accept`. -/
def encodeOkRef (ref : Ref) : EiEncoder := ((EiEncoder.new.tupleHeader 2).atom "ok").binary ref

/-- One turn of the loop of `getopts`; `none` for an option it does not
know. -/
def encodeOpt (so : SockOpts) (enc : EiEncoder) (opt : UInt8) : Option EiEncoder :=
  match opt.toNat with
  | 10 =>
    let enc := (enc.tupleHeader 2).atom "active"
    .some (if so.active = .activeFalse then enc.atom "false"
      else if so.active = .activeTrue then enc.atom "true" else enc.atom "once")
  | 5 =>
    let enc := (enc.tupleHeader 2).atom "mode"
    .some (if so.deliveryMode = .dataList then enc.atom "list" else enc.atom "binary")
  | 8 =>
    let enc := (enc.tupleHeader 2).atom "send_timeout"
    .some (if so.sendTmout = -1 then enc.atom "infinity" else enc.number so.sendTmout)
  | 11 => .some (((enc.tupleHeader 2).atom "packet").number so.packet)
  | 13 => .some (((enc.tupleHeader 2).atom "sndbuf").number (so.sndbuf % 2 ^ 64))
  | 14 => .some (((enc.tupleHeader 2).atom "recbuf").number (so.recbuf % 2 ^ 64))
  | _ => .none

/-- The answer of `getopts`. An option it does not know makes it answer from
another encoder. -/
def encodeGetopts (einval : String) (so : SockOpts) (binopts : List UInt8) : EiEncoder :=
  let enc := (EiEncoder.new.tupleHeader 2).atom "ok"
  if binopts = [] then enc.emptyList
  else
    match binopts.foldlM (encodeOpt so) (enc.listHeader binopts.length) with
    | .some enc => enc.emptyList
    | .none => encodeError einval

/-! ## What the process reads -/

def atomTerm (a : String) : Term := .atom (chars a)

def OptVal.term : OptVal → Term
  | .atom a => atomTerm a
  | .int n => .int n

def pairTerm (x : String × OptVal) : Term := .tuple [atomTerm x.1, x.2.term]

def textTerm (str : String) : Term := stringTerm (chars str)

def okTerm (t : Term) : Term := .tuple [atomTerm "ok", t]

def errorTerm (reason : Term) : Term := .tuple [atomTerm "error", reason]

/-- The term that stands for an answer. `erlErrnoId` names the errors. -/
def Reply.term (erlErrnoId : Errno → String) : Reply → Option Term
  | .badarg | .general | .empty => .none
  | .ok => .some (atomTerm "ok")
  | .wait => .some (atomTerm "wait")
  | .error e => .some (errorTerm (atomTerm (erlErrnoId e)))
  | .errorString s => .some (errorTerm (textTerm s))
  | .addr host port => .some (okTerm (.tuple [textTerm host, .int port]))
  | .opts l => .some (okTerm (.list (l.map pairTerm)))

/-- What the driver encodes for it, the pairs of `getopts` apart. -/
def Reply.encode (erlErrnoId : Errno → String) : Reply → Option EiEncoder
  | .badarg | .general | .empty | .opts _ => .none
  | .ok => .some (encodeAtom "ok")
  | .wait => .some (encodeAtom "wait")
  | .error e => .some (encodeError (erlErrnoId e))
  | .errorString s => .some (encodeErrorString s)
  | .addr host port => .some (encodeAddr host port)

/-- The answer `getopts` has for an option string. -/
def getoptsReply (so : SockOpts) (binopts : List UInt8) : Reply :=
  (binopts.mapM (UtpHandler.getopt so)).elim (.error .einval) .opts

theorem getopts_reply {h : UtpHandler} {buf : EiBuf} {binopts : List UInt8} (hd : decodeBinary buf = .some binopts) :
    h.getopts buf = h.emit (.reply (getoptsReply h.sockopts binopts)) := by
  simp only [UtpHandler.getopts, hd, getoptsReply]
  cases binopts.mapM (UtpHandler.getopt h.sockopts) <;> rfl

@[simp] theorem length_chars (str : String) : (chars str).length = str.utf8ByteSize := by
  simp [chars]

theorem tokens_atomTerm (a : String) : (atomTerm a).tokens = [.atom (chars a)] := by
  simp [atomTerm, Term.tokens]

theorem tokens_pair (a : String) (t : Term) :
    (Term.tuple [atomTerm a, t]).tokens = [.tuple 2, .atom (chars a)] ++ t.tokens := by
  simp [Term.tokens, Term.tokensAll, tokens_atomTerm]

theorem tokens_int (n : Int) : (Term.int n).tokens = [.int n] := by
  simp [Term.tokens]

theorem string_eq (enc : EiEncoder) (str : String) :
    enc.string str = enc ++ (textTerm str).tokens.flatMap (Token.bytes 27) := by
  unfold EiEncoder.string textTerm stringTerm
  split <;> simp [EiEncoder.emptyList, EiEncoder.put, Term.tokens]

theorem encodeError_eq (e : String) : encodeError e = (errorTerm (atomTerm e)).bytes 27 := by
  simp [encodeError, errorTerm, Term.bytes, tokens_pair, tokens_atomTerm, EiEncoder.new, EiEncoder.tupleHeader,
    EiEncoder.atom, EiEncoder.put]

theorem encodeErrorString_eq (err : String) : encodeErrorString err = (errorTerm (textTerm err)).bytes 27 := by
  simp [encodeErrorString, errorTerm, Term.bytes, tokens_pair, string_eq, EiEncoder.new, EiEncoder.tupleHeader,
    EiEncoder.atom, EiEncoder.put]

theorem encodeAddr_eq (addrstr : String) (port : Nat) :
    encodeAddr addrstr port = (okTerm (.tuple [textTerm addrstr, .int port])).bytes 27 := by
  have htuple : (Term.tuple [textTerm addrstr, .int port]).tokens =
      .tuple 2 :: ((textTerm addrstr).tokens ++ [.int port]) := by
    simp [Term.tokens, Term.tokensAll]
  simp [encodeAddr, okTerm, Term.bytes, tokens_pair, htuple, string_eq, EiEncoder.new, EiEncoder.tupleHeader,
    EiEncoder.atom, EiEncoder.number, EiEncoder.put]

theorem encodeOkRef_eq (ref : Ref) : encodeOkRef ref = (okTerm (.binary ref)).bytes 27 := by
  simp [encodeOkRef, okTerm, Term.bytes, tokens_pair, Term.tokens, EiEncoder.new, EiEncoder.tupleHeader,
    EiEncoder.atom, EiEncoder.binary, EiEncoder.put]

theorem encodeOpt_eq (so : SockOpts) (enc : EiEncoder) (opt : UInt8) :
    encodeOpt so enc opt =
      (UtpHandler.getopt so opt).map fun x => enc ++ (pairTerm x).tokens.flatMap (Token.bytes 27) := by
  have hpair : ∀ (name : String) (v : OptVal),
      (pairTerm (name, v)).tokens = [.tuple 2, .atom (chars name)] ++ v.term.tokens :=
    fun name v => tokens_pair name v.term
  unfold encodeOpt UtpHandler.getopt
  generalize opt.toNat = tag
  split
  all_goals
    simp only [Option.map_some, Option.map_none, EiEncoder.tupleHeader, EiEncoder.atom, EiEncoder.number,
      EiEncoder.put, hpair]
  next =>
    cases so.active <;> simp [OptVal.term, tokens_atomTerm]
  next =>
    cases so.deliveryMode <;> simp [OptVal.term, tokens_atomTerm]
  next =>
    split <;> simp [OptVal.term, tokens_atomTerm, tokens_int]
  next =>
    simp [OptVal.term, tokens_int]
  next =>
    simp [OptVal.term, tokens_int]
  next =>
    simp [OptVal.term, tokens_int]

theorem encodeOpts_eq (so : SockOpts) : ∀ (binopts : List UInt8) (enc : EiEncoder),
    binopts.foldlM (encodeOpt so) enc = (binopts.mapM (UtpHandler.getopt so)).map fun l =>
      enc ++ (Term.tokensAll (l.map pairTerm)).flatMap (Token.bytes 27)
  | [], enc => by simp [Term.tokensAll]
  | opt :: binopts, enc => by
    rw [List.foldlM_cons, List.mapM_cons, encodeOpt_eq]
    cases UtpHandler.getopt so opt with
    | none => rfl
    | some x =>
      simp only [Option.map_some, Option.bind_eq_bind, Option.bind_some, encodeOpts_eq so binopts]
      cases binopts.mapM (UtpHandler.getopt so) with
      | none => rfl
      | some l => simp [Term.tokensAll]

theorem mapM_all {α β : Type} {f : α → Option β} {P : β → Prop} (hf : ∀ x y, f x = .some y → P y) :
    ∀ {xs : List α} {ys : List β}, xs.mapM f = .some ys → ys.length = xs.length ∧ ∀ y ∈ ys, P y
  | [], ys, h => by
    cases h
    exact ⟨rfl, fun y hy => by cases hy⟩
  | x :: xs, ys, h => by
    rw [List.mapM_cons] at h
    simp only [Option.bind_eq_bind, Option.bind_eq_some_iff] at h
    obtain ⟨y, hy, ys', hys, heq⟩ := h
    cases heq
    have hall := mapM_all hf hys
    rw [List.forall_mem_cons]
    exact ⟨congrArg (· + 1) hall.1, hf x y hy, hall.2⟩

theorem encodeGetopts_eq (erlErrnoId : Errno → String) (so : SockOpts) (binopts : List UInt8) :
    ∃ t, (getoptsReply so binopts).term erlErrnoId = .some t ∧
      encodeGetopts (erlErrnoId .einval) so binopts = t.bytes 27 := by
  unfold encodeGetopts getoptsReply
  by_cases hnil : binopts = []
  · subst hnil
    refine ⟨okTerm (.list []), rfl, ?_⟩
    simp [okTerm, Term.bytes, tokens_pair, Term.tokens, EiEncoder.new, EiEncoder.tupleHeader, EiEncoder.atom,
      EiEncoder.emptyList, EiEncoder.put]
  · simp only [if_neg hnil, encodeOpts_eq]
    cases hmap : binopts.mapM (UtpHandler.getopt so) with
    | none => exact ⟨_, rfl, encodeError_eq _⟩
    | some l =>
      have hlen : (l.map pairTerm).length = binopts.length := by
        rw [List.length_map]
        exact (mapM_all (P := fun _ => True) (fun _ _ _ => trivial) hmap).1
      refine ⟨okTerm (.list (l.map pairTerm)), rfl, ?_⟩
      cases hl : l.map pairTerm with
      | nil =>
        rw [hl] at hlen
        exact absurd (List.length_eq_zero_iff.1 hlen.symm) hnil
      | cons t ts =>
        have hall : Term.tokensAll (l.map pairTerm) = t.tokens ++ Term.tokensAll ts := by
          rw [hl, Term.tokensAll]
        rw [hl, List.length_cons] at hlen
        simp [okTerm, Term.bytes, tokens_pair, Term.tokens, hall, hlen, EiEncoder.new,
          EiEncoder.tupleHeader, EiEncoder.listHeader, EiEncoder.atom, EiEncoder.emptyList, EiEncoder.put]

theorem encode_eq {erlErrnoId : Errno → String} {r : Reply} {enc : EiEncoder} (h : r.encode erlErrnoId = .some enc) :
    ∃ t, r.term erlErrnoId = .some t ∧ enc = t.bytes 27 := by
  have hatom : ∀ a, encodeAtom a = (atomTerm a).bytes 27 := by
    intro a
    simp [encodeAtom, Term.bytes, tokens_atomTerm, EiEncoder.new, EiEncoder.atom, EiEncoder.put]
  cases r with
  | ok => exact ⟨_, rfl, (Option.some.inj h).symm.trans (hatom _)⟩
  | wait => exact ⟨_, rfl, (Option.some.inj h).symm.trans (hatom _)⟩
  | error e => exact ⟨_, rfl, (Option.some.inj h).symm.trans (encodeError_eq _)⟩
  | errorString s => exact ⟨_, rfl, (Option.some.inj h).symm.trans (encodeErrorString_eq _)⟩
  | addr host port => exact ⟨_, rfl, (Option.some.inj h).symm.trans (encodeAddr_eq _ _)⟩
  | badarg => cases h
  | general => cases h
  | empty => cases h
  | opts l => cases h

/-! ## What fits -/

def Fit (t : Term) : Prop := ∀ tok ∈ t.tokens, tok.Fits

theorem fit_atomTerm {a : String} (h : a.utf8ByteSize < 2 ^ 16) : Fit (atomTerm a) := by
  simpa [Fit, tokens_atomTerm, Token.Fits] using h

theorem fit_textTerm {str : String} (h : str.utf8ByteSize < 2 ^ 16) : Fit (textTerm str) := by
  unfold textTerm stringTerm
  split
  · simp [Fit, Term.tokens, Token.Fits]
  · simpa [Fit, Term.tokens, Token.Fits] using h

theorem fit_int {n : Int} (h : n.natAbs < 2 ^ 64) : Fit (.int n) := by
  rw [Fit, tokens_int, List.forall_mem_singleton]
  exact int_fits h

theorem fit_binary {bs : List UInt8} (h : bs.length < 2 ^ 32) : Fit (.binary bs) := by
  rw [Fit, Term.tokens, List.forall_mem_singleton]
  exact h

theorem fit_all {ts : List Term} (h : ∀ t ∈ ts, Fit t) : ∀ tok ∈ Term.tokensAll ts, tok.Fits := by
  induction ts with
  | nil => simp [Term.tokensAll]
  | cons t ts ih =>
    rw [List.forall_mem_cons] at h
    rw [Term.tokensAll, List.forall_mem_append]
    exact ⟨h.1, ih h.2⟩

theorem fit_tuple {ts : List Term} (hlen : ts.length < 2 ^ 32) (h : ∀ t ∈ ts, Fit t) : Fit (.tuple ts) := by
  rw [Fit, Term.tokens, List.forall_mem_cons]
  exact ⟨hlen, fit_all h⟩

theorem fit_list {ts : List Term} (hlen : ts.length < 2 ^ 32) (h : ∀ t ∈ ts, Fit t) : Fit (.list ts) := by
  cases ts with
  | nil => simp [Fit, Term.tokens, Token.Fits]
  | cons t ts =>
    have htoks := fit_all h
    rw [Term.tokensAll] at htoks
    rw [Fit, Term.tokens, List.forall_mem_cons, List.forall_mem_append, List.forall_mem_singleton]
    exact ⟨hlen, htoks, trivial⟩

theorem fit_two {t u : Term} (ht : Fit t) (hu : Fit u) : Fit (.tuple [t, u]) := by
  refine fit_tuple (by simp) ?_
  simp only [List.forall_mem_cons]
  exact ⟨ht, hu, by simp⟩

theorem fit_okTerm {t : Term} (h : Fit t) : Fit (okTerm t) := fit_two (fit_atomTerm (by decide)) h

theorem fit_errorTerm {t : Term} (h : Fit t) : Fit (errorTerm t) := fit_two (fit_atomTerm (by decide)) h

theorem fit_getopt {so : SockOpts} {opt : UInt8} {x : String × OptVal} (hsend : so.sendTmout.natAbs < 2 ^ 64)
    (hpacket : so.packet < 2 ^ 64) (h : UtpHandler.getopt so opt = .some x) : Fit (pairTerm x) := by
  have hpair : ∀ (name : String) (v : OptVal), name.utf8ByteSize < 2 ^ 16 → Fit v.term → Fit (pairTerm (name, v)) :=
    fun _ _ hname hv => fit_two (fit_atomTerm hname) hv
  have hmod : ∀ n : Int, (n % 2 ^ 64).natAbs < 2 ^ 64 := by
    intro n
    omega
  unfold UtpHandler.getopt at h
  split at h
  next =>
    cases h
    exact hpair "active" _ (by decide) (by cases so.active <;> exact fit_atomTerm (by decide))
  next =>
    cases h
    exact hpair "mode" _ (by decide) (by cases so.deliveryMode <;> exact fit_atomTerm (by decide))
  next =>
    cases h
    refine hpair "send_timeout" _ (by decide) ?_
    split
    · exact fit_atomTerm (by decide)
    · exact fit_int hsend
  next =>
    cases h
    exact hpair "packet" _ (by decide) (fit_int (by omega))
  next =>
    cases h
    exact hpair "sndbuf" _ (by decide) (fit_int (hmod _))
  next =>
    cases h
    exact hpair "recbuf" _ (by decide) (fit_int (hmod _))
  next =>
    cases h

/-- What an answer needs to be written. -/
def Reply.Fits : Reply → Prop
  | .errorString s => s.utf8ByteSize < 2 ^ 16
  | .addr host port => host.utf8ByteSize < 2 ^ 16 ∧ port < 2 ^ 64
  | _ => True

theorem fit_encode {erlErrnoId : Errno → String} {r : Reply} {t : Term}
    (hid : ∀ e, (erlErrnoId e).utf8ByteSize < 256) (hr : r.Fits) (hopts : ∀ l, r ≠ .opts l)
    (h : r.term erlErrnoId = .some t) : Fit t := by
  cases r with
  | ok =>
    cases h
    exact fit_atomTerm (by decide)
  | wait =>
    cases h
    exact fit_atomTerm (by decide)
  | error e =>
    cases h
    exact fit_errorTerm (fit_atomTerm (by have := hid e; omega))
  | errorString s =>
    cases h
    exact fit_errorTerm (fit_textTerm hr)
  | addr host port =>
    cases h
    exact fit_okTerm (fit_two (fit_textTerm hr.1) (fit_int hr.2))
  | opts l => exact absurd rfl (hopts l)
  | badarg => cases h
  | general => cases h
  | empty => cases h

/-- The byte that was never written does not matter. -/
theorem copyToBinary_read {t : Term} (h : Fit t) (unwritten : UInt8) (rlen : Nat) :
    binaryToTerm (EiEncoder.copyToBinary (t.bytes 27) unwritten rlen).2 = .some t :=
  binaryToTerm_bytes (by omega) h [unwritten]

/-- **The process reads the answers that the driver gave**: the ones of a
fixed form, the reference that `accept` finds waiting, and the options of
`getopts`, whether it knows all of them or not. The options it answers are
those of the port, for the option string that the process sent. -/
theorem reply_read {erlErrnoId : Errno → String} (hid : ∀ e, (erlErrnoId e).utf8ByteSize < 256)
    (unwritten : UInt8) (rlen : Nat) :
    (∀ (r : Reply) (enc : EiEncoder), r.Fits → r.encode erlErrnoId = .some enc →
      binaryToTerm (enc.copyToBinary unwritten rlen).2 = r.term erlErrnoId) ∧
    (∀ ref : Ref, ref.length < 2 ^ 32 →
      binaryToTerm ((encodeOkRef ref).copyToBinary unwritten rlen).2 = .some (okTerm (.binary ref))) ∧
    ∀ (h : UtpHandler) (binopts : List UInt8), binopts.length < 2 ^ 32 → h.sockopts.sendTmout.natAbs < 2 ^ 64 →
      h.sockopts.packet < 2 ^ 64 →
        ∃ r, h.getopts (eiBuf (termToBinary (binaryTerm binopts))) = h.emit (.reply r) ∧
          binaryToTerm ((encodeGetopts (erlErrnoId .einval) h.sockopts binopts).copyToBinary unwritten rlen).2 =
            r.term erlErrnoId := by
  refine ⟨?_, ?_, ?_⟩
  · intro r enc hfits henc
    obtain ⟨t, hterm, heq⟩ := encode_eq henc
    have hopts : ∀ l, r ≠ .opts l := by
      intro l hr
      rw [hr] at henc
      cases henc
    rw [heq, hterm]
    exact copyToBinary_read (fit_encode hid hfits hopts hterm) unwritten rlen
  · intro ref href
    rw [encodeOkRef_eq]
    exact copyToBinary_read (fit_okTerm (fit_binary href)) unwritten rlen
  · intro h binopts hlen hsend hpacket
    have hbuf : eiBuf (termToBinary (binaryTerm binopts)) = [.version, .binary binopts] :=
      eiBuf_termToBinary (fit_binary hlen)
    obtain ⟨t, hterm, heq⟩ := encodeGetopts_eq erlErrnoId h.sockopts binopts
    refine ⟨getoptsReply h.sockopts binopts, getopts_reply (congrArg decodeBinary hbuf), ?_⟩
    rw [heq, hterm]
    refine copyToBinary_read ?_ unwritten rlen
    unfold getoptsReply at hterm
    cases hmap : binopts.mapM (UtpHandler.getopt h.sockopts) with
    | none =>
      rw [hmap] at hterm
      cases hterm
      exact fit_errorTerm (fit_atomTerm (by have := hid .einval; omega))
    | some l =>
      rw [hmap] at hterm
      cases hterm
      have hall := mapM_all (fun _ _ => fit_getopt hsend hpacket) hmap
      refine fit_okTerm (fit_list ?_ ?_)
      · rw [List.length_map, hall.1]
        exact hlen
      · intro t ht
        obtain ⟨x, hx, heqx⟩ := List.mem_map.1 ht
        subst heqx
        exact hall.2 x hx

/-- An error, a reference of one byte, and the `active` and `packet` options
of a new server. -/
theorem reply_read_active :
    binaryToTerm ((encodeError "einval").copyToBinary 0 64).2 = .some (errorTerm (atomTerm "einval")) ∧
    binaryToTerm ((encodeOkRef [131]).copyToBinary 0 64).2 = .some (okTerm (.binary [131])) ∧
    ∃ r, (UtpHandler.startServer .new 1).getopts (eiBuf (termToBinary (binaryTerm [10, 11]))) =
        (UtpHandler.startServer .new 1).emit (.reply r) ∧
      binaryToTerm ((encodeGetopts "einval" (UtpHandler.startServer .new 1).sockopts [10, 11]).copyToBinary 0 64).2 =
        r.term fun e => if e = .einval then "einval" else "unknown" := by
  have hread := @reply_read (fun e => if e = .einval then "einval" else "unknown")
    (by intro e; show (if e = .einval then "einval" else "unknown").utf8ByteSize < 256; split <;> decide) 0 64
  exact ⟨hread.1 (.error .einval) _ trivial rfl, hread.2.1 [131] (by decide),
    hread.2.2 (UtpHandler.startServer .new 1) [10, 11] (by decide) (by decide) (by decide)⟩

end GenUtp
