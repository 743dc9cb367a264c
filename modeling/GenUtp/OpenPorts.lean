/-
The port behind `gen_utp:listen/2` and `connect/3`: opened first, given back
open with `{ok, Sock}`, and to be closed at every other exit.

The state is the table of the ports, which is why an exception does not undo
an `open_port`. What the driver answers to each request is left open
(`Driver`); the calls are walked to their exits by the rules of `Exits`, and
`close/1` and `validate_connect/1` have one lemma each that says where they
leave the port.

`options_to_binary` is called after `open_port` and before the `try` of both
functions. It raises on a float, which `validate` lets through as a packet
size, and there the port stays open (`no_port_left_iff`).
-/
import GenUtp.Lib.Exits
import GenUtp.Binding
import GenUtp.ConnectCall
import GenUtp.OptionOrder

namespace GenUtp.OpenPorts

open Exits UtpOptions

/-- Every port opened so far; a port is its place. -/
abbrev Table := List Bool

/-- An exception. -/
inductive Raised
  /-- `error:badarg` -/
  | badarg
  /-- `error:function_clause` -/
  | functionClause
  /-- `error:{case_clause, R}` -/
  | caseClause (r : Reply)
  /-- `throw(badarg)`, which no `error:badarg` catches. -/
  | throwBadarg
  deriving DecidableEq, Repr

/-- What `listen` and `connect` return. -/
inductive Result
  /-- `{ok, Sock}` -/
  | ok (sock : Nat)
  /-- An answer of the driver, as it came. -/
  | answered (r : Reply)
  /-- `Err` of a message `{Ref, Err}`. -/
  | sent (err : ConnectResult)
  /-- `{error, einval}` -/
  | einval
  /-- `{error, closed}` -/
  | closed
  /-- What `inet:getaddr` says of an address it does not know. -/
  | unresolved
  deriving DecidableEq, Repr

/-- What the driver makes of one call: whether it is there to be opened, its
answer to each request, and the message that follows a `wait`. -/
structure Driver where
  loaded : Bool
  listen : EiBuf → Reply
  connectStart : EiBuf → Reply
  connectValidate : Reply
  message : ConnectResult
  close : Reply

abbrev Call := Prog Table Raised

/-! ## What the runtime does -/

/-- `erlang:open_port` -/
def openPort (d : Driver) : Call Nat := prog fun w =>
  if d.loaded then (.ok w.length, w ++ [true]) else (.error .badarg, w)

/-- `erlang:port_close` -/
def portClose (sock : Nat) : Call Unit := prog fun w =>
  if w[sock]? = .some true then (.ok (), w.set sock false) else (.error .badarg, w)

/-- `erlang:port_control`, which the driver answers with `r`. -/
def portControl (sock : Nat) (r : Reply) : Call Reply := prog fun w =>
  if w[sock]? = .some true ∧ r ≠ .badarg ∧ r ≠ .general then (.ok r, w) else (.error .badarg, w)

/-- `binary_to_term`; an empty binary is no term. -/
def binaryToTerm : Reply → Call Reply
  | .empty => throw .badarg
  | r => pure r

/-- `error:badarg -> ..` -/
def onBadarg {α : Type} (c : Call α) : Raised → Option (Call α)
  | .badarg => .some c
  | _ => .none

/-- A number between two bounds; every other term is greater than a number. -/
def within (low high : Rat → Prop) [DecidablePred low] [DecidablePred high] : ErlTerm → Bool
  | .int n => decide (low n ∧ high n)
  | .float x => decide (low x ∧ high x)
  | _ => false

/-! ## `gen_utp` -/

/-- `close/1`: the `receive` takes `{Ref, ok}`, and the port is closed at the
end of whatever happened. -/
def close (d : Driver) (sock : Nat) : Call Unit :=
  after (do
    let result ← portControl sock d.close
    match ← binaryToTerm result with
    | .wait => pure ()
    | .ok => pure ()
    | r => throw (.caseClause r)) (portClose sock)

/-- `validate_connect/1` -/
def validateConnect (d : Driver) (sock : Nat) : Call Result := do
  let bin ← portControl sock d.connectValidate
  match ← binaryToTerm bin with
  | .ok => pure (.ok sock)
  | .wait =>
    match d.message with
    | .ok => pure (.ok sock)
    | err => do
      close d sock
      pure (.sent err)
  | error => do
    portClose sock
    pure (.answered error)

/-- What `gen_utp_opts:validate` and `options_to_binary` return, or their
`badarg`. -/
def orBadarg {α : Type} : Option α → Call α
  | .some a => pure a
  | .none => throw .badarg

/-- `listen(Port, Options)` -/
def listen (inet : Inet) (d : Driver) (port : ErlTerm) (options : List ErlTerm) : Call Result :=
  if within (0 ≤ ·) (· < 65536) port then do
    let validOpts ← orBadarg (validate inet (.tuple [.atom .port, port] :: options))
    let sock ← openPort d
    let optBin ← orBadarg validOpts.optionsToBinary
    tryOf (portControl sock (d.listen [.version, .binary optBin]) >>= binaryToTerm)
      (fun
        | .ok => pure (.ok sock)
        | error => do
          portClose sock
          pure (.answered error))
      (onBadarg do
        portClose sock
        pure .einval)
  else throw .functionClause

/-- The port of `connect` as `term_to_binary` writes it. -/
def portToken : ErlTerm → EiToken
  | .int n => .int n
  | _ => .other

/-- The second clause of `connect(Addr, Port, Opts)`; the address is no
tuple. -/
def connectTo (inet : Inet) (d : Driver) (addr port : ErlTerm) (opts : List ErlTerm) : Call Result :=
  match addrStr inet addr with
  | .none => pure .unresolved
  | .some addrStr => do
    let validOpts ← orBadarg (validate inet opts)
    let sock ← openPort d
    let optBin ← orBadarg validOpts.optionsToBinary
    catching (do
      let result ← portControl sock
        (d.connectStart [.version, .tuple 3, .string addrStr, portToken port, .binary optBin])
      match ← binaryToTerm result with
      | .ok => validateConnect d sock
      | connectError => do
        portClose sock
        pure (.answered connectError))
      (onBadarg do
        portClose sock
        pure .closed)

/-- `connect(Addr, Port, Opts)` -/
def connect (inet : Inet) (d : Driver) (addr port : ErlTerm) (opts : List ErlTerm) : Call Result :=
  if within (0 < ·) (· ≤ 65535) port then
    match addr with
    | .tuple _ =>
      match inet.ntoa addr with
      | .some listAddr => connectTo inet d (.string listAddr) port opts
      | .none => throw .throwBadarg
    | _ => connectTo inet d addr port opts
  else throw .functionClause

/-! ## The port at the exits -/

variable {inet : Inet} {d : Driver} {w : Table} {port addr : ErlTerm} {opts : List ErlTerm} {o : UtpOptions}

/-- An exit without `{ok, Sock}`. -/
def Fails (r : Except Raised Result) : Prop := ∀ sock, r ≠ .ok (.ok sock)

/-- `{ok, Sock}` and `Sock` open, or the port that was opened is closed; every
other port is as it was. -/
inductive NoPortLeft (w : Table) (r : Except Raised Result) : Table → Prop
  | opened : r = .ok (.ok w.length) → NoPortLeft w r (w ++ [true])
  | closed : Fails r → NoPortLeft w r (w ++ [false])
  | unopened : Fails r → NoPortLeft w r w

/-- The same where a `badarg` may still leave the port open, for the `catch`
to close. -/
inductive LeftToCatch (w : Table) (r : Except Raised Result) : Table → Prop
  | opened : r = .ok (.ok w.length) → LeftToCatch w r (w ++ [true])
  | closed : Fails r → LeftToCatch w r (w ++ [false])
  | raised : r = .error .badarg → LeftToCatch w r (w ++ [true])

@[simp] theorem fails_error (e : Raised) : Fails (.error e) := fun _ => nofun

@[simp] theorem fails_ok (res : Result) : Fails (.ok res) ↔ ∀ sock, res ≠ .ok sock := by simp [Fails]

@[simp] theorem ends_portClose_open (Q : Except Raised Unit → Table → Prop) :
    Ends (portClose w.length) Q (w ++ [true]) ↔ Q (.ok ()) (w ++ [false]) := by
  simp [portClose]

@[simp] theorem ends_portClose_closed (Q : Except Raised Unit → Table → Prop) :
    Ends (portClose w.length) Q (w ++ [false]) ↔ Q (.error .badarg) (w ++ [false]) := by
  simp [portClose]

@[simp] theorem ends_portControl (r : Reply) (Q : Except Raised Reply → Table → Prop) :
    Ends (portControl w.length r) Q (w ++ [true]) ↔
      Q (if r ≠ .badarg ∧ r ≠ .general then .ok r else .error .badarg) (w ++ [true]) := by
  simp only [portControl, ends_prog, List.getElem?_concat_length, true_and]
  split <;> rfl

/-- `close/1` closes the port, whatever it is answered and however it ends. -/
theorem close_closes (d : Driver) : Ends (close d w.length) (fun _ w' => w' = w ++ [false]) (w ++ [true]) := by
  simp only [close, ends_after, ends_bind, ends_portControl]
  cases d.close <;> simp [binaryToTerm]

theorem validateConnect_leaves (d : Driver) : Ends (validateConnect d w.length) (LeftToCatch w) (w ++ [true]) := by
  have hclose : ∀ err, Ends (do close d w.length; pure (Result.sent err)) (LeftToCatch w) (w ++ [true]) := by
    intro err
    have hsent : Fails (.ok (.sent err)) := by simp
    rw [ends_bind]
    refine (close_closes d).mono fun r w' hw => ?_
    subst hw
    cases r with
    | ok => exact .closed hsent
    | error e => exact .closed (fails_error e)
  have hother : ∀ r, Ends (do portClose w.length; pure (Result.answered r)) (LeftToCatch w) (w ++ [true]) := by
    intro r
    simp only [ends_bind, ends_portClose_open, ends_pure]
    exact .closed (by simp)
  simp only [validateConnect, ends_bind, ends_portControl]
  cases d.connectValidate with
  | ok => exact .opened rfl
  | wait =>
    cases hm : d.message with
    | ok => simpa [binaryToTerm, hm] using LeftToCatch.opened rfl
    | _ => simpa [binaryToTerm, hm] using hclose _
  | badarg | general | empty => exact .raised rfl
  | _ => simpa [binaryToTerm] using hother _

/-- The `catch` of `connect` makes good what is left to it. -/
theorem catching_leaves {c : Call Result} {res : Result} (hres : Fails (.ok res))
    (hc : Ends c (LeftToCatch w) (w ++ [true])) :
    Ends (catching c (onBadarg do portClose w.length; pure res)) (NoPortLeft w) (w ++ [true]) := by
  rw [ends_catching]
  refine hc.mono fun r w' hw => ?_
  cases hw with
  | opened hr =>
    subst hr
    exact .opened rfl
  | closed hr =>
    cases r with
    | ok => exact .closed hr
    | error e =>
      cases e with
      | badarg => simpa [onBadarg] using NoPortLeft.closed (fails_error _)
      | _ => exact .closed (fails_error _)
  | raised hr =>
    subst hr
    simpa [onBadarg] using NoPortLeft.closed hres

/-! ## `listen` and `connect` -/

theorem port_left {r : Except Raised Result} (hr : Fails r) : ¬NoPortLeft w r (w ++ [true]) := by
  intro h
  generalize hw : w ++ [true] = w' at h
  cases h with
  | opened heq => exact hr _ heq
  | closed => simp at hw
  | unopened => simp at hw

@[simp] theorem ends_orBadarg {α : Type} (a : Option α) (Q : Except Raised α → Table → Prop) :
    Ends (orBadarg a) Q w ↔ Q (a.elim (.error .badarg) .ok) w := by
  cases a <;> rfl

@[simp] theorem ends_openPort (Q : Except Raised Nat → Table → Prop) : Ends (openPort d) Q w ↔
    (d.loaded = true → Q (.ok w.length) (w ++ [true])) ∧ (d.loaded = false → Q (.error .badarg) w) := by
  cases hl : d.loaded <;> simp [openPort, hl]

theorem optionsToBinary_isSome : (∃ bin, o.optionsToBinary = .some bin) ↔ o.PacketInt := by
  constructor
  · intro hsome
    obtain ⟨bin, hb⟩ := hsome
    exact packetInt hb
  · intro hp
    exact ⟨_, by rw [optionsToBinary, packetBinary_some hp]; rfl⟩

/-- Of either function, from `open_port` on: what comes after the binary
leaves no port, so all hangs on the binary. -/
theorem opened_leaves (hv : validate inet opts = .some o) {f : Nat → List UInt8 → Call Result}
    (hf : ∀ bin, Ends (f w.length bin) (NoPortLeft w) (w ++ [true])) :
    Ends (do
      let validOpts ← orBadarg (validate inet opts)
      let sock ← openPort d
      let optBin ← orBadarg validOpts.optionsToBinary
      f sock optBin) (NoPortLeft w) w ↔ (d.loaded = true → ∀ x, given [.packet] opts ≠ .some (.float x)) := by
  rw [← packet_float (numbers hv).packet]
  simp only [ends_bind, ends_orBadarg, hv, Option.elim_some, ends_openPort]
  constructor
  · intro hends hl
    have hbin := hends.1 hl
    cases hb : o.optionsToBinary with
    | some bin => exact packetInt hb
    | none =>
      rw [hb] at hbin
      exact absurd hbin (port_left (fails_error _))
  · intro hp
    refine ⟨fun hl => ?_, fun _ => .unopened (fails_error _)⟩
    obtain ⟨bin, hb⟩ := optionsToBinary_isSome.2 (hp hl)
    rw [hb]
    exact hf bin

theorem within_of_validate (hv : validate inet (.tuple [.atom .port, port] :: opts) = .some o) :
    within (0 ≤ ·) (· < 65536) port = true := by
  obtain ⟨o', ho', -⟩ := Option.bind_eq_some_iff.1 hv
  rw [List.foldlM_cons] at ho'
  obtain ⟨o'', hopt, -⟩ := Option.bind_eq_some_iff.1 ho'
  obtain ⟨x, hx, -⟩ := Option.map_eq_some_iff.1 hopt
  cases port with
  | int n =>
    simp only [asPort] at hx
    split at hx
    · next hn => simpa [within] using mod_cast hn
    · cases hx
  | _ => cases hx

theorem listen_leaves (hv : validate inet (.tuple [.atom .port, port] :: opts) = .some o) :
    Ends (listen inet d port opts) (NoPortLeft w) w ↔
      (d.loaded = true → ∀ x, given [.packet] opts ≠ .some (.float x)) := by
  have hgiven : given [.packet] (.tuple [.atom .port, port] :: opts) = given [.packet] opts := by
    rw [given_cons]
    simp [given]
  rw [listen, if_pos (within_of_validate hv), opened_leaves hv, hgiven]
  intro bin
  simp only [ends_tryOf, ends_bind, ends_portControl]
  cases d.listen [.version, .binary bin] with
  | ok => exact .opened rfl
  | badarg | general | empty => simpa [binaryToTerm, onBadarg] using NoPortLeft.closed (by simp)
  | _ => simpa [binaryToTerm] using NoPortLeft.closed (by simp)

theorem connectTo_leaves (hv : validate inet opts = .some o) :
    Ends (connectTo inet d addr port opts) (NoPortLeft w) w ↔
      ((addrStr inet addr).isSome = true → d.loaded = true → ∀ x, given [.packet] opts ≠ .some (.float x)) := by
  cases ha : addrStr inet addr with
  | none =>
    simp only [connectTo, ha, ends_pure]
    exact iff_of_true (.unopened (by simp)) (by simp)
  | some text =>
    simp only [connectTo, ha]
    rw [opened_leaves hv]
    · simp
    intro bin
    refine catching_leaves (by simp) ?_
    simp only [ends_bind, ends_portControl]
    cases d.connectStart [.version, .tuple 3, .string text, portToken port, .binary bin] with
    | ok => exact validateConnect_leaves d
    | badarg | general | empty => exact .raised rfl
    | _ => simpa [binaryToTerm] using LeftToCatch.closed (by simp)

/-- The guard and the address let `connect` come to `open_port`. -/
def Reaches (inet : Inet) (addr port : ErlTerm) : Prop :=
  within (0 < ·) (· ≤ 65535) port = true ∧ (addrStr inet addr).isSome = true

theorem connect_leaves (hv : validate inet opts = .some o) :
    Ends (connect inet d addr port opts) (NoPortLeft w) w ↔
      (Reaches inet addr port → d.loaded = true → ∀ x, given [.packet] opts ≠ .some (.float x)) := by
  by_cases hp : within (0 < ·) (· ≤ 65535) port = true
  · unfold connect
    rw [if_pos hp, Reaches, hp]
    simp only [true_and]
    cases addr with
    | tuple elements =>
      cases ht : inet.ntoa (.tuple elements) with
      | none =>
        simp only [addrStr, ht]
        exact iff_of_true (.unopened (fails_error _)) (by simp)
      | some text =>
        have ha : addrStr inet (.tuple elements) = addrStr inet (.string text) := by
          simp [addrStr, ht, ErlTerm.string]
        rw [ha]
        exact connectTo_leaves hv
    | _ => exact connectTo_leaves hv
  · unfold connect
    rw [if_neg hp]
    exact iff_of_true (.unopened (fails_error _)) fun h => absurd h.1 hp

/-- **`listen` and `connect` return the port open or leave none, unless they
open one and the packet size is a float.** -/
theorem no_port_left_iff (inet : Inet) (d : Driver) (w : Table) :
    (∀ {port options o}, validate inet (.tuple [.atom .port, port] :: options) = .some o →
      (Ends (listen inet d port options) (NoPortLeft w) w ↔
        (d.loaded = true → ∀ x, given [.packet] options ≠ .some (.float x)))) ∧
    ∀ {addr port opts o}, validate inet opts = .some o →
      (Ends (connect inet d addr port opts) (NoPortLeft w) w ↔
        (Reaches inet addr port → d.loaded = true → ∀ x, given [.packet] opts ≠ .some (.float x))) :=
  ⟨fun hv => listen_leaves hv, fun hv => connect_leaves hv⟩

/-- The driver refuses to listen, and has a `connect` wait for an error. -/
def refusing : Driver :=
  ⟨true, fun _ => .error .einval, fun _ => .ok, .wait, .error .econnreset, .ok⟩

theorem no_port_left_refused :
    Ends (listen noInet refusing (.int 0) []) (NoPortLeft []) [] ∧
    Ends (connect loopInet refusing (.tuple [.int 127, .int 0, .int 0, .int 1]) (.int 80) [.atom .binary])
      (NoPortLeft []) [] :=
  ⟨((no_port_left_iff noInet refusing []).1 rfl).2 fun _ _ => nofun,
    ((no_port_left_iff loopInet refusing []).2 rfl).2 fun _ _ _ => nofun⟩

/-- `listen(0, [{packet, 1.0}])` raises with its port open, and so does
`connect({127,0,0,1}, 80, [{packet, 1.0}])`. -/
theorem float_packet_leaves_port :
    (∃ o, validate noInet [.tuple [.atom .port, .int 0], .tuple [.atom .packet, .float 1]] = .some o) ∧
    listen noInet refusing (.int 0) [.tuple [.atom .packet, .float 1]] [] = (.error .badarg, [true]) ∧
    ¬Ends (listen noInet refusing (.int 0) [.tuple [.atom .packet, .float 1]]) (NoPortLeft []) [] ∧
    connect loopInet refusing (.tuple [.int 127, .int 0, .int 0, .int 1]) (.int 80)
      [.tuple [.atom .packet, .float 1]] [] = (.error .badarg, [true]) := by
  have hleft : listen noInet refusing (.int 0) [.tuple [.atom .packet, .float 1]] [] = (.error .badarg, [true]) := rfl
  refine ⟨⟨_, rfl⟩, hleft, ?_, rfl⟩
  rw [Ends, hleft]
  exact port_left (w := []) (fails_error _)

end GenUtp.OpenPorts
