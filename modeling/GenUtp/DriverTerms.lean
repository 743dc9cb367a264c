/-
The Erlang terms of data messages: the term arrays of `emit_read_buffer`, and
what the runtime makes of them.

The two branches of the loop spell out `{utp, Port, Payload}` and
`{Ref, {ok, Payload}}` word by word, header and tail included. `emitTerm`
keeps them apart, and `value_emitTerm` says which terms they are. They are
well formed, and no longer than the array that is set aside; but only the
first looks at the delivery mode. A caller of `recv` is given a binary
whatever the socket's mode is (`payload_agrees_iff`).
-/
import GenUtp.HeaderSplit
import GenUtp.Lib.DrvTerm

namespace GenUtp

open DrvTerm

/-- What the arrays name and do not build. -/
inductive Leaf
  | atomUtp
  | atomOk
  | port
  /-- The encoded reference of a caller. -/
  | ext2term (ref : Option Ref)
  deriving DecidableEq, Repr

/-- The `ErlDrvTermData` a word takes in the array. -/
def termData : Word Leaf → Nat
  | .leaf (.ext2term _) | .string .. | .buf2binary .. => 3
  | _ => 2

/-- What lies at a place in the buffer, or behind it. -/
def bufMem (buf : List UInt8) (mem : Mem) (i : Nat) : UInt8 := buf.getD i (mem i)

namespace SockOpts

/-- The array of each branch of the loop of `emit_read_buffer`. -/
def emitTerm (so : SockOpts) (buf : List UInt8) (mem : Mem) (pktSize : Nat) : Receiver → List (Word Leaf)
  | .connected =>
    let (ints, p) := Payload.headerLoop buf mem so.header 0
    [.leaf .atomUtp, .leaf .port] ++ (ints.map UInt8.toNat).map .uint ++
      (if so.deliveryMode = .dataList then .string p ((pktSize + 2 ^ 32 - so.header) % 2 ^ 32)
        else .buf2binary p ((pktSize + 2 ^ 32 - so.header) % 2 ^ 32)) ::
      (if so.header ≠ 0 then [.list (so.header + 1)] else []) ++ [.tuple 3]
  | .proc _ callerRef =>
    let (ints, p) := Payload.headerLoop buf mem so.header 0
    [.leaf (.ext2term callerRef), .leaf .atomOk] ++ (ints.map UInt8.toNat).map .uint ++
      .buf2binary p ((pktSize + 2 ^ 32 - so.header) % 2 ^ 32) ::
      (if so.header ≠ 0 then [.list (so.header + 1)] else []) ++ [.tuple 2, .tuple 2]

end SockOpts

namespace Payload

/-- The string or binary of a payload. -/
def tailTerm (pl : Payload) (mem : Mem) : Term Leaf :=
  let bytes := readBytes (bufMem pl.buf mem) (pl.term mem).start (pl.term mem).len
  match pl.mode with
  | .dataList => .ofBytes bytes
  | .dataBinary => .binary bytes

/-- The payload as an Erlang term. -/
def erl (pl : Payload) (mem : Mem) : Term Leaf := .prefixed ((pl.term mem).ints.map UInt8.toNat) (pl.tailTerm mem)

variable {pl : Payload} {mem : Mem}

theorem erl_binary (h : pl.mode = .dataBinary) : (pl.erl mem).EndsInBinary := by
  unfold erl tailTerm
  rw [h, Term.endsInBinary_prefixed]
  trivial

theorem length_headerLoop (buf : List UInt8) (mem : Mem) (n p : Nat) : (headerLoop buf mem n p).1.length = n := by
  induction n generalizing p with
  | zero => rfl
  | succ n ih =>
    show (headerLoop buf mem n (p + 1)).1.length + 1 = n + 1
    rw [ih]

end Payload

/-- The term of a data message. -/
def Msg.dataTerm (mem : Mem) : Msg → Option (Term Leaf)
  | .utp pl => .some (.tuple [.leaf .atomUtp, .leaf .port, pl.erl mem])
  | .refData ref pl => .some (.tuple [.leaf (.ext2term ref), .tuple [.leaf .atomOk, pl.erl mem]])
  | _ => .none

def Effect.dataTerm (mem : Mem) : Effect → Option (Term Leaf)
  | .output m | .send _ m => m.dataTerm mem
  | _ => .none

namespace SockOpts

variable (so : SockOpts) (buf : List UInt8) (mem : Mem) (pktSize : Nat)

/-- The word of either branch for the tail of a payload. -/
def TailWord (pl : Payload) (mem : Mem) (w : Word Leaf) : Prop :=
  ∀ s, step (bufMem pl.buf mem) s w = .some (pl.tailTerm mem :: s)

variable {so buf mem} in
/-- Either branch: what stands in front of the payload, its header and tail,
and what is made of it. -/
theorem run_payload {pl : Payload} (hbuf : pl.buf = buf) (hheader : pl.header = so.header) {w : Word Leaf}
    (hw : TailWord pl mem w) {front back : List (Word Leaf)} {stack : List (Term Leaf)}
    (hfront : run (bufMem buf mem) [] front = .some stack) :
    run (bufMem buf mem) [] (front ++ ((Payload.headerLoop buf mem so.header 0).1.map UInt8.toNat).map .uint ++
      w :: (if so.header ≠ 0 then [.list (so.header + 1)] else []) ++ back) =
      run (bufMem buf mem) (pl.erl mem :: stack) back := by
  subst hbuf
  have hints : (pl.term mem).ints = (Payload.headerLoop pl.buf mem so.header 0).1 := by
    rw [← hheader]
    rfl
  have hlen := Payload.length_headerLoop pl.buf mem so.header 0
  rw [run_append, List.append_assoc, run_append, hfront, Option.bind_some,
    run_prefixed hw (by rw [List.length_map, hlen, ite_not]), ← hints]
  rfl

/-- **The array of each branch is the term of the message.** -/
theorem value_emitTerm (receiver : Receiver) :
    value (bufMem buf mem) (so.emitTerm buf mem pktSize receiver) =
      (UtpHandler.dataMessage so buf pktSize receiver).dataTerm mem := by
  cases receiver with
  | connected =>
    let pl : Payload := ⟨buf, pktSize, so.header, so.deliveryMode⟩
    have hw : TailWord pl mem (if so.deliveryMode = .dataList
        then .string (pl.term mem).start (pl.term mem).len
        else .buf2binary (pl.term mem).start (pl.term mem).len) := by
      intro s
      cases hm : so.deliveryMode <;> simp [Payload.tailTerm, pl, hm, step]
    have hfront : run (bufMem buf mem) [] [.leaf Leaf.atomUtp, .leaf .port] =
      .some [.leaf .port, .leaf .atomUtp] := rfl
    have hrun : run (bufMem buf mem) [] (so.emitTerm buf mem pktSize .connected) =
      run (bufMem buf mem) [pl.erl mem, .leaf .port, .leaf .atomUtp] [.tuple 3] := run_payload rfl rfl hw hfront
    unfold value
    rw [hrun]
    rfl
  | proc caller ref =>
    let pl : Payload := ⟨buf, pktSize, so.header, .dataBinary⟩
    have hw : TailWord pl mem (.buf2binary (pl.term mem).start (pl.term mem).len) := fun s => rfl
    have hfront : run (bufMem buf mem) [] [.leaf (Leaf.ext2term ref), .leaf .atomOk] =
      .some [.leaf .atomOk, .leaf (.ext2term ref)] := rfl
    have hrun : run (bufMem buf mem) [] (so.emitTerm buf mem pktSize (.proc caller ref)) =
      run (bufMem buf mem) [pl.erl mem, .leaf .atomOk, .leaf (.ext2term ref)] [.tuple 2, .tuple 2] :=
      run_payload rfl rfl hw hfront
    unfold value
    rw [hrun]
    rfl

/-- The array that is set aside is long enough. -/
theorem emitTerm_fits (receiver : Receiver) :
    ((so.emitTerm buf mem pktSize receiver).map termData).sum ≤ 2 * so.header + 14 := by
  have hints : ∀ ints : List Nat, ((ints.map (Word.uint (α := Leaf))).map termData).sum = 2 * ints.length := by
    intro ints
    induction ints with
    | nil => rfl
    | cons n ns ih =>
      show 2 + ((ns.map Word.uint).map termData).sum = 2 * (ns.length + 1)
      omega
  have hlen := Payload.length_headerLoop buf mem so.header 0
  cases receiver <;>
    simp only [emitTerm, List.map_append, List.map_cons, List.map_nil, List.sum_append, List.sum_cons,
      List.sum_nil, hints, List.length_map, hlen]
  · by_cases hh : so.header = 0 <;> cases so.deliveryMode <;> simp [termData, hh] <;> omega
  · by_cases hh : so.header = 0
    · simp [termData, hh]
    · simp [termData, hh]
      omega

/-! ## The two receivers -/

/-- The payload in the term of a message. -/
def payloadOf : Receiver → Term Leaf → Option (Term Leaf)
  | .connected, .tuple [_, _, payload] => .some payload
  | .proc .., .tuple [_, .tuple [_, payload]] => .some payload
  | _, _ => .none

/-- The payload a receiver is sent. -/
def emitted (receiver : Receiver) : Option (Term Leaf) :=
  (value (bufMem buf mem) (so.emitTerm buf mem pktSize receiver)).bind (payloadOf receiver)

/-- Active and passive delivery agree: the connected process and a caller are
sent the same payload, a list of bytes in list mode, and in binary mode a
term that ends in a binary. -/
def Agree (caller : ErlDrvTermData) (callerRef : Option Ref) : Prop :=
  ∃ payload, so.emitted buf mem pktSize .connected = .some payload ∧
    so.emitted buf mem pktSize (.proc caller callerRef) = .some payload ∧
    (so.deliveryMode = .dataList → payload.IsBytes) ∧ (so.deliveryMode = .dataBinary → payload.EndsInBinary)

theorem emitted_eq (receiver : Receiver) : so.emitted buf mem pktSize receiver =
    .some ((UtpHandler.packetPayload so receiver (buf, pktSize)).erl mem) := by
  unfold emitted
  rw [value_emitTerm]
  cases receiver <;> rfl

theorem emitted_proc (caller : ErlDrvTermData) (callerRef : Option Ref) :
    ∃ payload, so.emitted buf mem pktSize (.proc caller callerRef) = .some payload ∧ payload.EndsInBinary :=
  ⟨_, so.emitted_eq buf mem pktSize _, Payload.erl_binary rfl⟩

/-- **Active and passive delivery agree exactly in binary mode.** -/
theorem payload_agrees_iff (caller : ErlDrvTermData) (callerRef : Option Ref) :
    so.Agree buf mem pktSize caller callerRef ↔ so.deliveryMode = .dataBinary := by
  constructor
  · intro hagree
    obtain ⟨payload, -, hproc, hlist, -⟩ := hagree
    obtain ⟨payload', hproc', hbinary⟩ := so.emitted_proc buf mem pktSize caller callerRef
    obtain rfl := Option.some.inj (hproc.symm.trans hproc')
    cases hm : so.deliveryMode with
    | dataList => exact absurd hbinary (hlist hm).not_endsInBinary
    | dataBinary => rfl
  · intro hm
    refine ⟨_, so.emitted_eq buf mem pktSize _, ?_, ?_, ?_⟩
    · rw [emitted_eq, UtpHandler.packetPayload, UtpHandler.packetPayload, hm]
    · intro hl
      rw [hm] at hl
      cases hl
    · intro _
      exact Payload.erl_binary hm

/-- One byte in list mode, without a header: `[1]` to the connected process,
`<<1>>` to a caller. -/
theorem payload_disagrees_list :
    SockOpts.new.emitted [1] (fun _ => 0) 1 .connected = .some (.ofBytes [1]) ∧
    SockOpts.new.emitted [1] (fun _ => 0) 1 (.proc (.pid 7) .none) = .some (.binary [1]) ∧
    ¬SockOpts.new.Agree [1] (fun _ => 0) 1 (.pid 7) .none := by
  refine ⟨rfl, rfl, fun hagree => ?_⟩
  obtain ⟨payload, hconnected, hproc, -, -⟩ := hagree
  cases hconnected
  cases hproc

end SockOpts

end GenUtp
