/-
The datagrams of libutp: the loop of `UtpHandler::do_send_to` and
`Server::do_send_to`, which differ in the system call they make.

A call that is interrupted or would block is meant to be made again, and it
is, from one byte further ahead: the -1 it returned is added to the index
like a count. So the loop keeps to the buffer, and covers it, exactly when no
call has to be repeated (`send_loop_iff`). The index is an `int`, so partial
counts of 2³¹ bytes break it too.
-/
import GenUtp.Lib.Run
import GenUtp.Requests

namespace GenUtp

/-- The `errno` of a call that failed. -/
inductive SendErrno
  | eintr
  | eagain
  | ewouldblock
  | other (e : Errno)
  deriving DecidableEq, Repr

/-- What `sendto` and `send` return. -/
inductive SendResult
  | count (n : Nat)
  | failed (e : SendErrno)
  deriving DecidableEq, Repr

namespace SendResult

def value : SendResult → Int
  | .count n => n
  | .failed _ => -1

/-- The bytes a call has sent. -/
def bytes : SendResult → Nat
  | .count n => n
  | .failed _ => 0

/-- The call is to be made again. -/
def Again : SendResult → Prop
  | .failed .eintr | .failed .eagain | .failed .ewouldblock => True
  | _ => False

end SendResult

/-- Which system call is made. -/
inductive SendVia
  | sendto (addr : SockAddr)
  | send
  deriving DecidableEq, Repr

/-- A call: where in the buffer it starts, the length it is given, and what
it returns. -/
structure SendTo where
  via : SendVia
  start : Int
  len : Nat
  result : SendResult
  deriving DecidableEq, Repr

/-- `skipped` is a handler without a socket. -/
inductive SendState
  | sending (index : Int)
  | sent
  | error (e : Errno)
  | skipped
  deriving DecidableEq, Repr

/-- Conversions to `int`, `ssize_t` and `size_t`. -/
def toInt (n : Int) : Int := n.bmod (2 ^ 32)

def toSsize (n : Int) : Int := n.bmod (2 ^ 64)

def toSize (n : Int) : Nat := (n % 2 ^ 64).toNat

namespace SendState

def start (udpSock : Option Nat) : SendState := if udpSock.isSome then .sending 0 else .skipped

/-- One turn of the loop. -/
def turn (via : SendVia) (len : Nat) : SendState → SendResult → Option (SendState × SendTo)
  | .sending index, r =>
    .some (if r.value = toSsize (len - index) then .sent
      else match r with
        | .failed (.other e) => .error e
        | _ => .sending (toInt (index + r.value)), ⟨via, index, toSize (len - index), r⟩)
  | _, _ => .none

end SendState

def UtpHandler.doSendTo (addr : SockAddr) (len : Nat) : Runs.Machine SendState SendResult SendTo :=
  SendState.turn (.sendto addr) len

/-- `Server::do_send_to` has no use for the address: its socket is
connected. -/
def Server.doSendTo (_ : SockAddr) (len : Nat) : Runs.Machine SendState SendResult SendTo := SendState.turn .send len

namespace SendState

abbrev Trace := Runs.Trace SendState SendResult SendTo

/-- A call sends no more than it is given. -/
def Contract (len : Nat) : Runs.Guard SendState SendResult SendTo := fun _ s r =>
  ∀ index n, s = .sending index → r = .count n → n ≤ toSize (len - index)

/-- The places of the buffer a call has sent. -/
def places (c : SendTo) : List Int := (List.range c.result.bytes).map fun (k : Nat) => c.start + k

def allPlaces (t : Trace) : List Int := t.flatMap fun x => places x.out

/-- What is to hold in each state: the index is in the buffer, the next call
is given only places of the buffer that have not been sent, and at the end
each place has been sent once. -/
def Sound (len : Nat) (t : Trace) : SendState → Prop
  | .sending index => 0 ≤ index ∧ index ≤ len ∧
      ∀ i, index ≤ i → i < index + toSize (len - index) → 0 ≤ i ∧ i < len ∧ i ∉ allPlaces t
  | .sent => ∀ i, (allPlaces t).count i = if 0 ≤ i ∧ i < len then 1 else 0
  | _ => True

/-- The bytes sent before. -/
def counted (t : Trace) : Nat := (t.map fun x => x.event.bytes).sum

/-- A call that is not made again, and whose count, if it is not the last,
fits the index. -/
def Advances (len : Nat) (t : Trace) (x : Runs.Entry SendState SendResult SendTo) : Prop :=
  ¬x.event.Again ∧ (counted t + x.event.bytes < len → counted t + x.event.bytes < 2 ^ 31)

/-! ## One turn -/

variable {len : Nat} {via : SendVia} {t : Trace} {s s' : SendState} {r : SendResult} {c : SendTo} {index : Int}

theorem toInt_eq {n : Int} (h₁ : -2 ^ 31 ≤ n) (h₂ : n < 2 ^ 31) : toInt n = n :=
  Int.bmod_eq_of_le (by omega) (by omega)

theorem toInt_bounds (n : Int) : -2 ^ 31 ≤ toInt n ∧ toInt n < 2 ^ 31 := by
  have hle : -((2 ^ 32 : Nat) / 2 : Int) ≤ toInt n := Int.le_bmod (by omega)
  have hlt : toInt n < (((2 ^ 32 : Nat) : Int) + 1) / 2 := Int.bmod_lt (by omega)
  omega

theorem toSsize_eq {n : Int} (h₀ : 0 ≤ n) (h₁ : n < 2 ^ 63) : toSsize n = n :=
  Int.bmod_eq_of_le (by omega) (by omega)

theorem toSize_eq {n : Int} (h₀ : 0 ≤ n) (h₁ : n < 2 ^ 64) : (toSize n : Int) = n := by
  unfold toSize
  omega

/-- The index says how much has been sent. -/
structure Upto (len : Nat) (t : Trace) (index : Int) : Prop where
  index : index = counted t
  all : allPlaces t = (List.range (counted t)).map Nat.cast
  le : counted t ≤ len
  int : counted t < 2 ^ 31

theorem counted_snoc (t : Trace) (x : Runs.Entry SendState SendResult SendTo) :
    counted (t ++ [x]) = counted t + x.event.bytes := by
  simp [counted]

/-- The call that is made next, with its result. -/
def entry (via : SendVia) (len : Nat) (index : Int) (r : SendResult) : Runs.Entry SendState SendResult SendTo :=
  ⟨.sending index, r, ⟨via, index, toSize (len - index), r⟩⟩

theorem Upto.all_snoc (h : Upto len t index) (r : SendResult) :
    allPlaces (t ++ [entry via len index r]) = (List.range (counted t + r.bytes)).map Nat.cast := by
  have hnew : places (entry via len index r).out = (List.range r.bytes).map fun k => ((counted t + k : Nat) : Int) := by
    simp [places, entry, h.index]
  rw [allPlaces, List.flatMap_append, List.flatMap_singleton, hnew, List.range_add, List.map_append, List.map_map]
  exact congrArg (· ++ _) h.all

theorem mem_range_map {n : Nat} {i : Int} : i ∈ (List.range n).map (Nat.cast : Nat → Int) ↔ 0 ≤ i ∧ i < n := by
  simp only [List.mem_map, List.mem_range]
  constructor
  · intro h
    obtain ⟨k, hk, rfl⟩ := h
    omega
  · intro h
    exact ⟨i.toNat, by omega, by omega⟩

theorem Upto.sound (h : Upto len t index) : Sound len t (.sending index) := by
  have hi := h.index
  have hle := h.le
  refine ⟨by omega, by omega, fun i h₁ h₂ => ?_⟩
  rw [h.all, mem_range_map]
  have hsize : (toSize (len - index) : Int) ≤ len - index := by
    unfold toSize
    omega
  omega

theorem turn_cases (hm : turn via len (.sending index) r = .some (s', c)) :
    (⟨.sending index, r, c⟩ : Runs.Entry SendState SendResult SendTo) = entry via len index r ∧
      ((r.value = toSsize (len - index) ∧ s' = .sent) ∨ (∃ e, r = .failed (.other e) ∧ s' = .error e) ∨
      (r.value ≠ toSsize (len - index) ∧ (∀ e, r ≠ .failed (.other e)) ∧ s' = .sending (toInt (index + r.value)))) := by
  simp only [turn, Option.some.injEq, Prod.mk.injEq] at hm
  obtain ⟨rfl, rfl⟩ := hm
  refine ⟨rfl, ?_⟩
  split
  · next heq => exact .inl ⟨heq, rfl⟩
  · next hne =>
    split
    · next e => exact .inr (.inl ⟨e, rfl, rfl⟩)
    · next hother => exact .inr (.inr ⟨hne, fun e he => hother e he, rfl⟩)

theorem Upto.last (h : Upto len t index) (hr : counted t + r.bytes = len) :
    Sound len (t ++ [entry via len index r]) .sent := by
  intro i
  rw [h.all_snoc, hr, (List.nodup_range.map Nat.cast_injective).count]
  simp only [mem_range_map]

theorem Upto.next (h : Upto len t index) (hle : counted t + r.bytes ≤ len) (hint : counted t + r.bytes < 2 ^ 31) :
    Upto len (t ++ [entry via len index r]) (index + r.bytes) := by
  have hcount : counted (t ++ [entry via len index r]) = counted t + r.bytes := counted_snoc _ _
  have hi := h.index
  refine ⟨?_, ?_, ?_, ?_⟩
  · rw [hcount]
    omega
  · rw [h.all_snoc, hcount]
  · rw [hcount]
    exact hle
  · rw [hcount]
    exact hint

/-- An index that lies before what has been sent is wrong. -/
theorem Upto.not_sound {j : Int} (h : Upto len t index) (hl : len < 2 ^ 63) (hle : counted t + r.bytes ≤ len)
    (hj : j < counted t + r.bytes) : ¬Sound len (t ++ [entry via len index r]) (.sending j) := by
  intro hs
  obtain ⟨hnn, -, hnew⟩ := hs
  have hsize : (toSize (len - j) : Int) = len - j := toSize_eq (by omega) (by omega)
  obtain ⟨-, -, hnot⟩ := hnew j (by omega) (by omega)
  rw [h.all_snoc, mem_range_map] at hnot
  omega

/-- A turn is right exactly when the index advances by what was sent, and
then it leads to an index that says so. -/
def TurnOk (len : Nat) (t : Trace) (x : Runs.Entry SendState SendResult SendTo) (s' : SendState) : Prop :=
  (Sound len (t ++ [x]) s' ↔ Advances len t x) ∧ ∀ j, s' = .sending j → Advances len t x → Upto len (t ++ [x]) j

theorem TurnOk.wrong (hs : ¬Sound len (t ++ [entry via len index r]) s')
    (ha : ¬Advances len t (entry via len index r)) : TurnOk len t (entry via len index r) s' :=
  ⟨iff_of_false hs ha, fun _ _ h => absurd h ha⟩

theorem TurnOk.ended (hs : Sound len (t ++ [entry via len index r]) s')
    (ha : Advances len t (entry via len index r)) (hend : ∀ j, s' ≠ .sending j) :
    TurnOk len t (entry via len index r) s' :=
  ⟨iff_of_true hs ha, fun j hj => absurd hj (hend j)⟩

theorem count_step {n : Nat} (hl : len < 2 ^ 63) (h : Upto len t index) (hn : counted t + n < len) :
    TurnOk len t (entry via len index (.count n)) (.sending (toInt (index + n))) := by
  have hi := h.index
  have hbytes : (SendResult.count n).bytes = n := rfl
  by_cases hfit : counted t + n < 2 ^ 31
  · have hupto : Upto len (t ++ [entry via len index (.count n)]) (toInt (index + n)) := by
      rw [toInt_eq (by omega) (by omega)]
      exact h.next (Nat.le_of_lt hn) hfit
    refine ⟨iff_of_true hupto.sound ⟨id, fun _ => hfit⟩, fun j hj _ => ?_⟩
    obtain rfl := SendState.sending.inj hj
    exact hupto
  · -- the `int` has wrapped
    have hwrap := (toInt_bounds (index + n)).2
    have hlow : toInt (index + n) < counted t + n := by omega
    exact .wrong (h.not_sound hl (Nat.le_of_lt hn) hlow) fun ha => hfit (ha.2 hn)

/-- A call that is to be made again steps back by one. -/
theorem again_step {e : SendErrno} (hl : len < 2 ^ 63) (h : Upto len t index) (hagain : ∀ e', e ≠ .other e') :
    TurnOk len t (entry via len index (.failed e)) (.sending (toInt (index + -1))) := by
  have hi := h.index
  have hle := h.le
  have hint := h.int
  have hbytes : (SendResult.failed e).bytes = 0 := rfl
  rw [toInt_eq (by omega) (by omega)]
  refine .wrong (h.not_sound hl hle (by omega)) fun ha => ha.1 ?_
  cases e with
  | other e' => exact absurd rfl (hagain e')
  | _ => trivial

/-- One turn: the rule is kept exactly when the index advances by what was
sent. -/
theorem turn_step (hl : len < 2 ^ 63) (h : Upto len t index) (hg : Contract len t (.sending index) r)
    (hm : turn via len (.sending index) r = .some (s', c)) : TurnOk len t ⟨.sending index, r, c⟩ s' := by
  have hi := h.index
  have hle := h.le
  have hint := h.int
  have hsize : (toSize (len - index) : Int) = len - index := toSize_eq (by omega) (by omega)
  have hssize : toSsize (len - index) = len - index := toSsize_eq (by omega) (by omega)
  obtain ⟨hc, hcases⟩ := turn_cases hm
  rw [hc]
  cases r with
  | count n =>
    have hn : n ≤ toSize (len - index) := hg index n rfl rfl
    have hbytes : (SendResult.count n).bytes = n := rfl
    obtain ⟨hfull, rfl⟩ | ⟨e, he, -⟩ | ⟨hpart, -, rfl⟩ := hcases
    · rw [hssize, SendResult.value] at hfull
      refine .ended (h.last (by omega)) ⟨id, fun hlt => ?_⟩ nofun
      simp only [entry, SendResult.bytes] at hlt
      omega
    · cases he
    · rw [hssize, SendResult.value] at hpart
      exact count_step hl h (by omega)
  | failed e =>
    obtain ⟨hfull, -⟩ | ⟨e', he, rfl⟩ | ⟨-, hagain, rfl⟩ := hcases
    · rw [hssize, SendResult.value] at hfull
      omega
    · cases he
      refine .ended trivial ⟨id, fun _ => ?_⟩ nofun
      simpa [entry, SendResult.bytes] using hint
    · exact again_step hl h fun e' he => hagain e' (congrArg _ he)

/-- **The loop keeps to what is left of the buffer, and covers it, exactly
when no call is to be made again** and no partial counts reach 2³¹ bytes. -/
theorem send_loop_iff (addr : SockAddr) (udpSock : Option Nat) {M : Runs.Machine SendState SendResult SendTo}
    (hM : M = UtpHandler.doSendTo addr len ∨ M = Server.doSendTo addr len) (hl : len < 2 ^ 63)
    (run : Runs.Run M (Contract len) [] (start udpSock) t s) :
    Runs.Each (Runs.After M (Sound len)) t ↔ Runs.Each (Advances len) t := by
  obtain ⟨via, rfl⟩ : ∃ via, M = turn via len := by
    rcases hM with rfl | rfl <;> exact ⟨_, rfl⟩
  refine run.each_iff (I := fun t s => ∀ j, s = .sending j → Sound len t s → Upto len t j) ?_ ?_ ?_
  · intro j hj _
    cases udpSock with
    | none => cases hj
    | some fd =>
      cases hj
      exact ⟨rfl, rfl, by simp [counted], by simp [counted]⟩
  · cases udpSock with
    | none => trivial
    | some fd =>
      have hupto : Upto len [] 0 := ⟨rfl, rfl, by simp [counted], by simp [counted]⟩
      exact hupto.sound
  · intro t s r s' c hi hq hg hm
    cases s with
    | sending index =>
      obtain ⟨hiff, hnext⟩ := turn_step hl (hi index rfl hq) hg hm
      exact ⟨fun j hj hs => hnext j hj (hiff.1 hs), hiff⟩
    | _ => cases hm

/-- A partial count, then the rest. -/
theorem send_loop_iff_partial : ∃ t : Trace, t.map Runs.Entry.event = [.count 1, .count 2] ∧
    (Runs.Each (Runs.After (UtpHandler.doSendTo ⟨.inet, inaddrAny, 0⟩ 3) (Sound 3)) t ↔ Runs.Each (Advances 3) t) := by
  have run := ((Runs.Run.start (UtpHandler.doSendTo ⟨.inet, inaddrAny, 0⟩ 3) (Contract 3) (start (.some 7))).next
    (.count 1) (fun _ _ hs hr => by cases hs; cases hr; decide) rfl).next
    (.count 2) (fun _ _ hs hr => by cases hs; cases hr; decide) rfl
  exact ⟨_, rfl, send_loop_iff ⟨.inet, inaddrAny, 0⟩ (.some 7) (.inl rfl) (by omega) run⟩

/-- A call on a buffer of one byte would block; the next one is given two
bytes, from the one before the buffer. -/
theorem retry_steps_back : ∃ (t : Trace) (s : SendState),
    Runs.Run (UtpHandler.doSendTo ⟨.inet, inaddrAny, 0⟩ 1) (Contract 1) [] (start (.some 7)) t s ∧
    t.map Runs.Entry.event = [.failed .eagain] ∧ s = .sending (-1) ∧ toSize (1 - -1) = 2 ∧ ¬Sound 1 t s := by
  have run := (Runs.Run.start (UtpHandler.doSendTo ⟨.inet, inaddrAny, 0⟩ 1) (Contract 1) (start (.some 7))).next
    (.failed .eagain) (fun _ _ _ hr => by cases hr) rfl
  refine ⟨_, _, run, rfl, rfl, rfl, fun hs => ?_⟩
  have hnn : (0 : Int) ≤ -1 := hs.1
  omega

end SendState

end GenUtp
