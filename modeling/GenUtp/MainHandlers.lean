/-
The ports of the driver and the main handler among them (`utpdrv.cc`,
`main_handler.cc`).

Each port has a `MainHandler`. One of them is `main_handler`, the first that
was started while there was none: the driver's timer runs on its port, and
the descriptors of all sockets are selected on it and entered in its `fdmap`.
A port that listens or connects hands its `port` to its delegatee and is left
with 0, the main handler's port too.

An `Emulator` is what the emulator keeps of its ports and the globals and
objects of the driver, with the fields of a `MainHandler` by the port it was
made for. `utp_stop_select` closes a descriptor at once, and a port that is
closed loses its timer and its descriptors. A callback is one step: the
mutexes of callbacks that overlap are those of `LockOrder`, and the race over a
descriptor's number is in `Descriptors`. A step is `none` where the driver
reads a null pointer, locks a mutex that is not there, calls a handler that was
deleted or deletes one twice. The last is what a listener does with the server
it has made for a datagram that is not uTP (`DeletesTwice`).

Who is in office and until when, and what is defined, is `in_office`, how long
the timer runs `timer_runs_iff`, and which sockets are told of their input
`input_reaches_iff`.
-/
import Mathlib.Data.Finset.Basic
import Mathlib.Logic.Function.Basic
import GenUtp.Lib.Run
import GenUtp.Lib.StdMap
import GenUtp.Listener

namespace GenUtp

open StdMap

/-- A `SocketHandler*`. -/
abbrev SocketPtr := Nat

/-- A `SocketHandler`: its `udp_sock`, and whether it is a listener. -/
structure SocketFields where
  fd : Fd
  listens : Bool
  selected : Bool
  deriving DecidableEq, Repr

structure Emulator where
  mainHandler : Option ErlDrvPort
  /-- The open ports. -/
  live : Finset ErlDrvPort
  /-- The field `port` of a `MainHandler`; `none` is 0. -/
  port : ErlDrvPort → Option ErlDrvPort
  delegatee : ErlDrvPort → Option SocketPtr
  /-- The ports whose `map_mutex` exists. -/
  mapMutex : Finset ErlDrvPort
  fdmap : ErlDrvPort → StdMap Fd SocketPtr
  sockets : SocketPtr → Option SocketFields
  opened : Finset Fd
  /-- What was selected by `driver_select`, on which port. -/
  selects : Finset (ErlDrvPort × Fd)
  /-- The ports whose timer is set. -/
  timers : Finset ErlDrvPort

/-- A new connection a listener takes: its server, the server's descriptor,
and the number of its port. -/
structure NewServer where
  server : SocketPtr
  fd : Fd
  port : ErlDrvPort
  deriving DecidableEq, Repr

/-- What a listener finds on its socket. -/
inductive Received
  /-- No bytes, nobody who accepts, or no socket for the connection. -/
  | nothing
  | connection (c : NewServer)
  /-- Bytes that libutp does not take. -/
  | notUtp
  deriving DecidableEq, Repr

inductive EmulatorEvent
  /-- `open_port` -/
  | start (p : ErlDrvPort)
  /-- A `listen` or `connect_start` that has its socket. -/
  | delegate (p : ErlDrvPort) (i : SocketPtr) (fd : Fd) (listens : Bool)
  /-- Any other request, which goes to the delegatee. -/
  | request (p : ErlDrvPort)
  /-- A descriptor is ready; only a listener looks at what it finds. -/
  | input (p : ErlDrvPort) (fd : Fd) (received : Received)
  /-- `UTP_STATE_DESTROYING` of a connection. -/
  | destroying (i : SocketPtr)
  | stop (p : ErlDrvPort)
  | timeout (p : ErlDrvPort)
  deriving DecidableEq, Repr

abbrev EmulatorTrace := Runs.Trace Emulator EmulatorEvent (Option SocketPtr)

namespace Emulator

def new : Emulator where
  mainHandler := .none
  live := ∅
  port _ := .none
  delegatee _ := .none
  mapMutex := ∅
  fdmap _ := ∅
  sockets _ := .none
  opened := ∅
  selects := ∅
  timers := ∅

/-! ## The descriptor map -/

/-- `select` of the main handler `m`. -/
def select (s : Emulator) (m : ErlDrvPort) (fd : Fd) (i : SocketPtr) : Option Emulator :=
  if m ∈ s.mapMutex then
    .some { s with
      selects := match s.port m with
        | .some q => insert (q, fd) s.selects
        | .none => s.selects
      fdmap := Function.update s.fdmap m (insertNew (s.fdmap m) fd i) }
  else .none

/-- `deselect` of the main handler `m`; `driver_select` off closes the
descriptor. -/
def deselect (s : Emulator) (m : ErlDrvPort) (fd : Fd) : Option Emulator :=
  if m ∈ s.mapMutex then
    .some { s with
      selects := match s.port m with
        | .some q => s.selects.erase (q, fd)
        | .none => s.selects
      opened := match s.port m with
        | .some _ => s.opened.erase fd
        | .none => s.opened
      fdmap := Function.update s.fdmap m ((s.fdmap m).erase fd) }
  else .none

/-- `MainHandler::start_input` -/
def startInput (s : Emulator) (fd : Fd) (i : SocketPtr) : Option Emulator :=
  match s.mainHandler with
  | .none => .some s
  | .some m => s.select m fd i

/-- `MainHandler::stop_input` -/
def stopInput (s : Emulator) (fd : Fd) : Option Emulator :=
  match s.mainHandler with
  | .none => .some s
  | .some m => s.deselect m fd

def setSocket (s : Emulator) (i : SocketPtr) (k : Option SocketFields) : Emulator :=
  { s with sockets := Function.update s.sockets i k }

/-- `SocketHandler::set_port` -/
def setPort (s : Emulator) (i : SocketPtr) : Option Emulator :=
  match s.sockets i with
  | .none => .none
  | .some k =>
    if k.selected then .some s
    else (s.startInput k.fd i).map fun s => s.setSocket i (.some { k with selected := true })

/-- A new handler over a descriptor that `socket` has just returned. -/
def newSocket (s : Emulator) (i : SocketPtr) (fd : Fd) (listens : Bool) : Emulator :=
  let s : Emulator := { s with opened := insert fd s.opened }
  s.setSocket i (.some ⟨fd, listens, false⟩)

/-- What `Listener::stop` and DESTROYING begin with. -/
def release (s : Emulator) (i : SocketPtr) (k : SocketFields) : Option Emulator :=
  if k.selected then (s.stopInput k.fd).map fun s => s.setSocket i (.some { k with selected := false }) else .some s

/-! ## The callbacks of the driver -/

/-- `utp_start`: a new `MainHandler`, and its `start`. -/
def start (s : Emulator) (p : ErlDrvPort) : Emulator :=
  let s : Emulator := { s with
    live := insert p s.live
    port := Function.update s.port p (.some p)
    delegatee := Function.update s.delegatee p .none
    fdmap := Function.update s.fdmap p ∅ }
  if s.mainHandler = .none then
    { s with mainHandler := .some p, timers := insert p s.timers, mapMutex := insert p s.mapMutex }
  else s

/-- `listen` and `connect_start` once they have a socket. A port that has a
delegatee leaves the request to it. -/
def delegateTo (s : Emulator) (p : ErlDrvPort) (i : SocketPtr) (fd : Fd) (listens : Bool) : Option Emulator :=
  match s.delegatee p with
  | .some _ => .some s
  | .none =>
    let s := s.newSocket i fd listens
    let s : Emulator := { s with delegatee := Function.update s.delegatee p (.some i) }
    (s.setPort i).map fun s => { s with port := Function.update s.port p .none }

/-- The server of a new connection, and `driver_create_port` for it: there is
no port when the main handler has none. -/
def accept (s : Emulator) (c : NewServer) : Option Emulator :=
  match s.mainHandler with
  -- `drv_port` reads through a null pointer
  | .none => .none
  | .some m =>
    let s := s.newSocket c.server c.fd false
    let s : Emulator :=
      match s.port m with
      | .none => s
      | .some _ => { s with
          live := insert c.port s.live
          port := Function.update s.port c.port .none
          delegatee := Function.update s.delegatee c.port (.some c.server)
          fdmap := Function.update s.fdmap c.port ∅ }
    s.setPort c.server

/-- `ready_input`, and the handler it calls. -/
def readyInput (s : Emulator) (p : ErlDrvPort) (fd : Fd) (received : Received) :
    Option (Emulator × Option SocketPtr) :=
  if p ∈ s.mapMutex then
    match (s.fdmap p).lookup fd with
    | .none => .some (s, .none)
    | .some i =>
      match s.sockets i, received with
      | .none, _ => .none
      | .some ⟨_, true, _⟩, .connection c => (s.accept c).map fun s => (s, .some i)
      -- `delete server`, and `delete mh` deletes it again
      | .some ⟨_, true, _⟩, .notUtp => .none
      | .some _, _ => .some (s, .some i)
  else .none

/-- `control` and `outputv`. -/
def request (s : Emulator) (p : ErlDrvPort) : Option Emulator :=
  match s.delegatee p with
  | .none => .some s
  | .some i => (s.sockets i).map fun _ => s

/-- `Listener::stop` and `UtpHandler::stop`: the listener is deleted, and a
connection stays selected. -/
def handlerStop (s : Emulator) (i : SocketPtr) : Option Emulator :=
  match s.sockets i with
  | .none => .none
  | .some k => if k.listens then (s.release i k).map fun s => s.setSocket i .none else .some s

/-- The main handler's part of `stop`. -/
def leaveOffice (s : Emulator) (p : ErlDrvPort) : Emulator :=
  if s.mainHandler = .some p then
    { s with
      mainHandler := .none
      selects := match s.port p with
        | .some q => s.selects.filter fun x => ¬(x.1 = q ∧ x.2 ∈ s.fdmap p)
        | .none => s.selects
      opened := match s.port p with
        | .some _ => s.opened.filter fun fd => fd ∉ s.fdmap p
        | .none => s.opened
      timers := match s.port p with
        | .some q => s.timers.erase q
        | .none => s.timers
      mapMutex := s.mapMutex.erase p }
  else s

/-- The emulator closes a port. -/
def closePort (s : Emulator) (p : ErlDrvPort) : Emulator :=
  { s with
    live := s.live.erase p
    selects := s.selects.filter fun x => x.1 ≠ p
    timers := s.timers.erase p }

/-- `utp_stop` -/
def stop (s : Emulator) (p : ErlDrvPort) : Option Emulator :=
  (match s.delegatee p with
    | .some i => s.handlerStop i
    | .none => .some s).map fun s : Emulator => (s.leaveOffice p).closePort p

/-- `check_utp_timeouts`, after the timer of `p` has fired. -/
def checkUtpTimeouts (s : Emulator) (p : ErlDrvPort) : Emulator :=
  let fired := s.timers.erase p
  if s.mainHandler = .none then { s with timers := fired }
  else
    { s with
      timers := match s.port p with
        | .some q => insert q fired
        | .none => fired }

def machine (s : Emulator) : EmulatorEvent → Option (Emulator × Option SocketPtr)
  | .start p => .some (s.start p, .none)
  | .delegate p i fd listens => (s.delegateTo p i fd listens).map fun s => (s, .none)
  | .request p => (s.request p).map fun s => (s, .none)
  | .input p fd received => s.readyInput p fd received
  | .destroying i => (s.sockets i).bind fun k => (s.release i k).map fun s => (s, .none)
  | .stop p => (s.stop p).map fun s => (s, .none)
  | .timeout p => .some (s.checkUtpTimeouts p, .none)

/-- A connection is new. -/
def Admits (s : Emulator) : Received → Prop
  | .connection c => s.sockets c.server = .none ∧ c.fd ∉ s.opened ∧ c.port ∉ s.live
  | _ => True

/-- A listener finds bytes that are not uTP. -/
def DeletesTwice (s : Emulator) : EmulatorEvent → Prop
  | .input p fd .notUtp => ∃ i k, (s.fdmap p).lookup fd = .some i ∧ s.sockets i = .some k ∧ k.listens = true
  | _ => False

/-- What the emulator, the operating system and libutp do: a callback is for
an open port, with a descriptor that is selected on it or a timer that is set,
and what is new is not in use. -/
def Offered : Runs.Guard Emulator EmulatorEvent (Option SocketPtr) := fun _ s e =>
  match e with
  | .start p => p ∉ s.live
  | .delegate p i fd _ => p ∈ s.live ∧ s.sockets i = .none ∧ fd ∉ s.opened
  | .request p => p ∈ s.live
  | .input p fd received => p ∈ s.live ∧ (p, fd) ∈ s.selects ∧ s.Admits received
  | .destroying i => (s.sockets i).map SocketFields.listens = .some false
  | .stop p => p ∈ s.live
  | .timeout p => p ∈ s.live ∧ p ∈ s.timers

instance (s : Emulator) : ∀ r, Decidable (s.Admits r)
  | .connection c => inferInstanceAs (Decidable (s.sockets c.server = .none ∧ c.fd ∉ s.opened ∧ c.port ∉ s.live))
  | .nothing | .notUtp => inferInstanceAs (Decidable True)

instance (t : EmulatorTrace) (s : Emulator) : ∀ e, Decidable (Offered t s e)
  | .start p => inferInstanceAs (Decidable (p ∉ s.live))
  | .delegate p i fd _ => inferInstanceAs (Decidable (p ∈ s.live ∧ s.sockets i = .none ∧ fd ∉ s.opened))
  | .request p => inferInstanceAs (Decidable (p ∈ s.live))
  | .input p fd received =>
    inferInstanceAs (Decidable (p ∈ s.live ∧ (p, fd) ∈ s.selects ∧ s.Admits received))
  | .destroying i => inferInstanceAs (Decidable ((s.sockets i).map SocketFields.listens = .some false))
  | .stop p => inferInstanceAs (Decidable (p ∈ s.live))
  | .timeout p => inferInstanceAs (Decidable (p ∈ s.live ∧ p ∈ s.timers))

/-! ## What the calls of the main handler do -/

variable {s s' s₁ : Emulator} {p q m : ErlDrvPort} {fd fd' : Fd} {i j : SocketPtr} {k : SocketFields}
  {e : EmulatorEvent} {t : EmulatorTrace} {o : Option SocketPtr}

/-- Input on the descriptor is for the handler. -/
def Reaches (s : Emulator) (p : ErlDrvPort) (fd : Fd) (i : SocketPtr) : Prop :=
  (p, fd) ∈ s.selects ∧ (s.fdmap p).lookup fd = .some i

/-- `p` is the main handler, and its `port` is set. -/
def Serves (s : Emulator) (p : ErlDrvPort) : Prop := s.mainHandler = .some p ∧ s.port p = .some p

/-- Only descriptors and handlers changed. -/
structure Frame (s s' : Emulator) : Prop where
  mainHandler : s'.mainHandler = s.mainHandler
  live : s'.live = s.live
  port : s'.port = s.port
  delegatee : s'.delegatee = s.delegatee
  mapMutex : s'.mapMutex = s.mapMutex
  timers : s'.timers = s.timers

/-- Who is in office, and what each port has. -/
structure Office (s : Emulator) : Prop where
  mutex : ∀ p, p ∈ s.mapMutex ↔ s.mainHandler = .some p
  live : ∀ p, s.mainHandler = .some p → p ∈ s.live
  port : ∀ p q, s.port p = .some q → q = p
  timers : ∀ p ∈ s.timers, s.mainHandler = .some p
  given : ∀ p ∈ s.live, s.delegatee p ≠ .none → s.port p = .none
  handler : ∀ p ∈ s.live, ∀ i, s.delegatee p = .some i → s.sockets i ≠ .none
  own : ∀ p ∈ s.live, ∀ q ∈ s.live, ∀ i, s.delegatee p = .some i → s.delegatee q = .some i → p = q

/-- What is selected and entered belongs to the main handler and is open. -/
structure Entered (s : Emulator) : Prop where
  selects : ∀ p fd, (p, fd) ∈ s.selects → s.mainHandler = .some p ∧ fd ∈ s.opened
  entry : ∀ p fd i, s.mainHandler = .some p → (s.fdmap p).lookup fd = .some i →
    fd ∈ s.opened ∧ ∃ l, s.sockets i = .some ⟨fd, l, true⟩

theorem new_office : new.Office := by
  constructor <;> simp [new]

theorem new_entered : new.Entered := by
  constructor <;> simp [new]

theorem setSocket_self (s : Emulator) (i : SocketPtr) (k : Option SocketFields) : (s.setSocket i k).sockets i = k := by
  simp [setSocket]

theorem setSocket_other (k : Option SocketFields) (h : j ≠ i) : (s.setSocket i k).sockets j = s.sockets j := by
  simp [setSocket, h]

/-- The main handler has its mutex, and its `port` is its own. -/
def Ready (s : Emulator) : Prop :=
  ∀ p, s.mainHandler = .some p → p ∈ s.mapMutex ∧ ∀ q, s.port p = .some q → q = p

theorem Office.ready (hs : s.Office) : s.Ready :=
  fun p hm => ⟨(hs.mutex p).2 hm, hs.port p⟩

/-- What `start_input` does with a descriptor that is not entered. -/
structure Begins (s : Emulator) (fd : Fd) (i : SocketPtr) (s' : Emulator) : Prop extends Frame s s' where
  opened : s'.opened = s.opened
  selects : ∀ p fd', (p, fd') ∈ s'.selects ↔ s.Serves p ∧ fd' = fd ∨ (p, fd') ∈ s.selects
  entry : ∀ p fd' j, (s'.fdmap p).lookup fd' = .some j ↔
    s.mainHandler = .some p ∧ fd' = fd ∧ j = i ∨ (s.fdmap p).lookup fd' = .some j

/-- What `stop_input` does. -/
structure Ceases (s : Emulator) (fd : Fd) (s' : Emulator) : Prop extends Frame s s' where
  opened : ∀ fd', fd' ∈ s'.opened ↔ fd' ∈ s.opened ∧ ¬(fd' = fd ∧ ∃ p, s.Serves p)
  selects : ∀ p fd', (p, fd') ∈ s'.selects ↔ (p, fd') ∈ s.selects ∧ ¬(s.Serves p ∧ fd' = fd)
  entry : ∀ p fd' j, (s'.fdmap p).lookup fd' = .some j ↔
    (s.fdmap p).lookup fd' = .some j ∧ ¬(s.mainHandler = .some p ∧ fd' = fd)

theorem startInput_spec (hs : s.Ready) (i : SocketPtr)
    (hfree : ∀ p, s.mainHandler = .some p → (s.fdmap p).lookup fd = .none) :
    ∃ s', s.startInput fd i = .some s' ∧ Begins s fd i s' ∧ s'.sockets = s.sockets := by
  rw [startInput]
  cases hm : s.mainHandler with
  | none =>
    exact ⟨s, rfl, ⟨⟨rfl, rfl, rfl, rfl, rfl, rfl⟩, rfl, by simp [Serves, hm], by simp [hm]⟩, rfl⟩
  | some m =>
    obtain ⟨hmem, hport⟩ := hs m hm
    simp only [select, if_pos hmem]
    refine ⟨_, rfl, ⟨⟨rfl, rfl, rfl, rfl, rfl, rfl⟩, rfl, ?_, ?_⟩, rfl⟩
    · intro p fd'
      cases hp : s.port m with
      | none =>
        have hno : ¬s.Serves p := by
          intro h
          cases hm.symm.trans h.1
          cases hp.symm.trans h.2
        simp [hno]
      | some q =>
        obtain rfl := hport q hp
        simp only [Serves, hm, Finset.mem_insert, Prod.mk.injEq, Option.some.injEq]
        refine or_congr_left (and_congr_left fun _ => ⟨?_, fun h => h.1.symm⟩)
        rintro rfl
        exact ⟨rfl, hp⟩
    · intro p fd' j
      by_cases hp : p = m
      · subst hp
        simp only [Function.update_self, StdMap.lookup_insertNew_iff, or_comm]
        simp [hfree p hm, hm]
      · simp [Function.update_of_ne hp, hm, Ne.symm hp]

theorem stopInput_spec (hs : s.Ready) (fd : Fd) :
    ∃ s', s.stopInput fd = .some s' ∧ Ceases s fd s' ∧ s'.sockets = s.sockets := by
  rw [stopInput]
  cases hm : s.mainHandler with
  | none =>
    exact ⟨s, rfl, ⟨⟨rfl, rfl, rfl, rfl, rfl, rfl⟩, by simp [Serves, hm], by simp [Serves, hm], by simp [hm]⟩, rfl⟩
  | some m =>
    obtain ⟨hmem, hport⟩ := hs m hm
    have hserves : ∀ p, s.Serves p ↔ p = m ∧ s.port m = .some m := by
      intro p
      rw [Serves, hm, Option.some.injEq]
      constructor <;> rintro ⟨rfl, h⟩ <;> exact ⟨rfl, h⟩
    simp only [deselect, if_pos hmem]
    refine ⟨_, rfl, ⟨⟨rfl, rfl, rfl, rfl, rfl, rfl⟩, ?_, ?_, ?_⟩, rfl⟩
    · intro fd'
      cases hp : s.port m with
      | none => simp [hserves, hp]
      | some q =>
        obtain rfl := hport q hp
        simp [hserves, hp, and_comm]
    · intro p fd'
      cases hp : s.port m with
      | none => simp [hserves, hp]
      | some q =>
        obtain rfl := hport q hp
        simp [hserves, hp, and_comm]
    · intro p fd' j
      by_cases hp : p = m
      · subst hp
        simp [StdMap.lookup_erase_iff, hm, and_comm]
      · simp [Function.update_of_ne hp, hm, Ne.symm hp]

theorem setPort_spec (hs : s.Ready) (hi : s.sockets i = .some k) (hsel : k.selected = false)
    (hfree : ∀ p, s.mainHandler = .some p → (s.fdmap p).lookup k.fd = .none) :
    ∃ s', s.setPort i = .some s' ∧ Begins s k.fd i s' ∧
      s'.sockets = Function.update s.sockets i (.some { k with selected := true }) := by
  obtain ⟨s₁, hstart, hb, hsock⟩ := startInput_spec hs i hfree
  refine ⟨s₁.setSocket i (.some { k with selected := true }), by simp [setPort, hi, hsel, hstart], { hb with }, ?_⟩
  rw [setSocket, hsock]

theorem release_spec (hs : s.Ready) (i : SocketPtr) (hsel : k.selected = true) :
    ∃ s', s.release i k = .some s' ∧ Ceases s k.fd s' ∧
      s'.sockets = Function.update s.sockets i (.some { k with selected := false }) := by
  obtain ⟨s₁, hstop, hc, hsock⟩ := stopInput_spec hs k.fd
  refine ⟨s₁.setSocket i (.some { k with selected := false }), by simp [release, hsel, hstop], { hc with }, ?_⟩
  rw [setSocket, hsock]

/-! ## What a call leaves entered -/

theorem Entered.begins (hs : s.Entered) (hb : Begins s fd i s') (hopen : fd ∈ s.opened) {l : Bool}
    (hi : s'.sockets i = .some ⟨fd, l, true⟩)
    (hold : ∀ fd' l', s.sockets i ≠ .some ⟨fd', l', true⟩)
    (hother : ∀ j, j ≠ i → s'.sockets j = s.sockets j) : s'.Entered := by
  constructor
  · intro p fd' hsel
    rw [hb.mainHandler, hb.opened]
    rcases (hb.selects p fd').1 hsel with ⟨hserves, rfl⟩ | hsel
    · exact ⟨hserves.1, hopen⟩
    · exact hs.selects p fd' hsel
  · intro p fd' j hm hlook
    rw [hb.mainHandler] at hm
    rw [hb.opened]
    rcases (hb.entry p fd' j).1 hlook with ⟨-, rfl, rfl⟩ | hlook
    · exact ⟨hopen, l, hi⟩
    · obtain ⟨hopen', l', hj⟩ := hs.entry p fd' j hm hlook
      have hne : j ≠ i := by
        rintro rfl
        exact hold fd' l' hj
      exact ⟨hopen', l', (hother j hne).trans hj⟩

theorem Begins.reaches_iff (hb : Begins s fd i s')
    (hfree : ∀ p, s.mainHandler = .some p → (s.fdmap p).lookup fd = .none)
    (hsel : ∀ p, (p, fd) ∉ s.selects) :
    s'.Reaches p fd' j ↔ s.Serves p ∧ fd' = fd ∧ j = i ∨ s.Reaches p fd' j := by
  rw [Reaches, hb.selects, hb.entry, Reaches]
  constructor
  · intro h
    rcases h with ⟨⟨hserves, rfl⟩ | hold, ⟨-, hfd, hj⟩ | hlook⟩
    · exact .inl ⟨hserves, rfl, hj⟩
    · cases (hfree p hserves.1).symm.trans hlook
    · exact absurd (hfd ▸ hold) (hsel p)
    · exact .inr ⟨hold, hlook⟩
  · intro h
    rcases h with ⟨hserves, rfl, rfl⟩ | ⟨hold, hlook⟩
    · exact ⟨.inl ⟨hserves, rfl⟩, .inl ⟨hserves.1, rfl, rfl⟩⟩
    · exact ⟨.inr hold, .inr hlook⟩

theorem Entered.ceases (hs : s.Entered) (hc : Ceases s fd s') {l : Bool} (hi : s.sockets i = .some ⟨fd, l, true⟩)
    (hother : ∀ j, j ≠ i → s'.sockets j = s.sockets j) : s'.Entered := by
  constructor
  · intro p fd' hsel
    obtain ⟨hold, hno⟩ := (hc.selects p fd').1 hsel
    obtain ⟨hm, hopen⟩ := hs.selects p fd' hold
    refine ⟨hc.mainHandler.trans hm, (hc.opened fd').2 ⟨hopen, ?_⟩⟩
    rintro ⟨rfl, q, hserves⟩
    obtain rfl : p = q := Option.some.inj (hm.symm.trans hserves.1)
    exact hno ⟨hserves, rfl⟩
  · intro p fd' j hm hlook
    rw [hc.mainHandler] at hm
    obtain ⟨hold, hno⟩ := (hc.entry p fd' j).1 hlook
    have hfd : fd' ≠ fd := fun h => hno ⟨hm, h⟩
    obtain ⟨hopen, l', hj⟩ := hs.entry p fd' j hm hold
    have hne : j ≠ i := by
      rintro rfl
      cases hi.symm.trans hj
      exact hfd rfl
    exact ⟨(hc.opened fd').2 ⟨hopen, fun h => hfd h.1⟩, l', (hother j hne).trans hj⟩

theorem Ceases.reaches_iff (hs : s.Entered) (hc : Ceases s fd s') :
    s'.Reaches p fd' j ↔ s.Reaches p fd' j ∧ fd' ≠ fd := by
  rw [Reaches, hc.selects, hc.entry, Reaches]
  constructor
  · rintro ⟨⟨hsel, -⟩, hlook, hno⟩
    exact ⟨⟨hsel, hlook⟩, fun h => hno ⟨(hs.selects p fd' hsel).1, h⟩⟩
  · rintro ⟨⟨hsel, hlook⟩, hne⟩
    exact ⟨⟨hsel, fun h => hne h.2⟩, hlook, fun h => hne h.2⟩

/-! ## One step -/

/-- A listener took a connection, or a port got its delegatee, while `p` was
to select the descriptor of `i`. -/
def Registers (s : Emulator) (e : EmulatorEvent) (p : ErlDrvPort) (fd : Fd) (i : SocketPtr) : Prop :=
  s.Serves p ∧ match e with
    | .delegate q j fd' _ => s.delegatee q = .none ∧ fd = fd' ∧ i = j
    | .input q fd' (.connection c) =>
        (∃ j k, (s.fdmap q).lookup fd' = .some j ∧ s.sockets j = .some k ∧ k.listens = true) ∧
          fd = c.fd ∧ i = c.server
    | _ => False

/-- `p` is stopped, or some selected handler with this number is. -/
def Ends (s : Emulator) (e : EmulatorEvent) (p : ErlDrvPort) (fd : Fd) : Prop :=
  match e with
  | .stop q => q = p ∨ ∃ i k, s.delegatee q = .some i ∧ s.sockets i = .some k ∧ k.listens = true ∧
      k.selected = true ∧ k.fd = fd
  | .destroying i => ∃ k, s.sockets i = .some k ∧ k.selected = true ∧ k.fd = fd
  | _ => False

structure Does (s : Emulator) (e : EmulatorEvent) (s' : Emulator) : Prop where
  office : s'.Office
  entered : s'.Entered
  mainHandler : ∀ p, s'.mainHandler = .some p ↔
    e = .start p ∧ s.mainHandler = .none ∨ s.mainHandler = .some p ∧ e ≠ .stop p
  port : ∀ p, s'.mainHandler = .some p →
    (s'.port p = .none ↔ (∃ i fd l, e = .delegate p i fd l) ∨ s.port p = .none ∧ e ≠ .start p)
  timer : ∀ p, s'.mainHandler = .some p →
    (p ∈ s'.timers ↔ e = .start p ∨ p ∈ s.timers ∧ ¬(e = .timeout p ∧ s.port p = .none))
  reaches : ∀ p fd i, s'.Reaches p fd i ↔ s.Registers e p fd i ∨ s.Reaches p fd i ∧ ¬s.Ends e p fd

theorem Office.frame (hs : s.Office) (hf : Frame s s') (hsock : ∀ i, s.sockets i ≠ .none → s'.sockets i ≠ .none) :
    s'.Office := by
  obtain ⟨hmain, hlive, hport, hdel, hmutex, htimers⟩ := hf
  constructor
  · simpa only [hmutex, hmain] using hs.mutex
  · simpa only [hmain, hlive] using hs.live
  · simpa only [hport] using hs.port
  · simpa only [htimers, hmain] using hs.timers
  · simpa only [hlive, hdel, hport] using hs.given
  · simp only [hlive, hdel]
    intro p hp i hi
    exact hsock i (hs.handler p hp i hi)
  · simpa only [hlive, hdel] using hs.own

theorem Office.give (hs : s.Office) (hmain : s'.mainHandler = s.mainHandler) (hmutex : s'.mapMutex = s.mapMutex)
    (htimers : s'.timers = s.timers) (hlive : s'.live = insert p s.live)
    (hport : s'.port = Function.update s.port p .none)
    (hdel : s'.delegatee = Function.update s.delegatee p (.some i))
    (hi : s.sockets i = .none) (hi' : s'.sockets i ≠ .none) (hsock : ∀ j, j ≠ i → s'.sockets j = s.sockets j) :
    s'.Office := by
  have hfresh : ∀ q ∈ s.live, s.delegatee q ≠ .some i := fun q hq h => hs.handler q hq i h hi
  have hother : ∀ q ∈ s'.live, q ≠ p → q ∈ s.live ∧ s'.delegatee q = s.delegatee q ∧ s'.port q = s.port q := by
    intro q hq hne
    rw [hlive] at hq
    rw [hdel, hport]
    exact ⟨(Finset.mem_insert.1 hq).resolve_left hne, Function.update_of_ne hne _ _, Function.update_of_ne hne _ _⟩
  have hself : s'.delegatee p = .some i ∧ s'.port p = .none := by simp [hdel, hport]
  constructor
  · simpa only [hmutex, hmain] using hs.mutex
  · intro q hq
    rw [hlive]
    exact Finset.mem_insert_of_mem (hs.live q (hmain ▸ hq))
  · intro q r hq
    by_cases hne : q = p
    · subst hne
      cases hself.2.symm.trans hq
    · rw [hport, Function.update_of_ne hne] at hq
      exact hs.port q r hq
  · simpa only [htimers, hmain] using hs.timers
  · intro q hq hnone
    by_cases hne : q = p
    · subst hne
      exact hself.2
    · obtain ⟨hold, hd, hp⟩ := hother q hq hne
      rw [hd] at hnone
      exact hp.trans (hs.given q hold hnone)
  · intro q hq j hj
    by_cases hne : q = p
    · subst hne
      cases hself.1.symm.trans hj
      exact hi'
    · obtain ⟨hold, hd, -⟩ := hother q hq hne
      rw [hd] at hj
      have hji : j ≠ i := by
        rintro rfl
        exact hfresh q hold hj
      rw [hsock j hji]
      exact hs.handler q hold j hj
  · intro q hq r hr j hqj hrj
    by_cases hqp : q = p <;> by_cases hrp : r = p
    · rw [hqp, hrp]
    · obtain ⟨hold, hd, -⟩ := hother r hr hrp
      subst hqp
      cases hself.1.symm.trans hqj
      exact absurd (hd.symm.trans hrj) (hfresh r hold)
    · obtain ⟨hold, hd, -⟩ := hother q hq hqp
      subst hrp
      cases hself.1.symm.trans hrj
      exact absurd (hd.symm.trans hqj) (hfresh q hold)
    · obtain ⟨hold, hd, -⟩ := hother q hq hqp
      obtain ⟨hold', hd', -⟩ := hother r hr hrp
      exact hs.own q hold r hold' j (hd.symm.trans hqj) (hd'.symm.trans hrj)

/-- A handler and a descriptor that are not in use. -/
structure Fresh (s : Emulator) (i : SocketPtr) (fd : Fd) : Prop where
  socket : s.sockets i = .none
  fd : fd ∉ s.opened

theorem Fresh.entry (hnew : s.Fresh i fd) (hs : s.Entered) (p : ErlDrvPort) (hm : s.mainHandler = .some p) :
    (s.fdmap p).lookup fd = .none := by
  by_contra hne
  obtain ⟨j, hj⟩ := Option.ne_none_iff_exists'.1 hne
  exact hnew.fd (hs.entry p fd j hm hj).1

theorem Fresh.selects (hnew : s.Fresh i fd) (hs : s.Entered) (p : ErlDrvPort) : (p, fd) ∉ s.selects :=
  fun h => hnew.fd (hs.selects p fd h).2

theorem Fresh.entered (hnew : s.Fresh i fd) (hs : s.Entered) (l : Bool) : (s.newSocket i fd l).Entered := by
  constructor
  · intro p fd' h
    obtain ⟨hm, hopen⟩ := hs.selects p fd' h
    exact ⟨hm, Finset.mem_insert_of_mem hopen⟩
  · intro p fd' j hm hlook
    obtain ⟨hopen, l', hj⟩ := hs.entry p fd' j hm hlook
    refine ⟨Finset.mem_insert_of_mem hopen, l', ?_⟩
    have hne : j ≠ i := by
      rintro rfl
      cases hnew.socket.symm.trans hj
    exact (setSocket_other _ hne).trans hj

/-- What has been done with a new handler before its `set_port`. -/
structure Prepared (s : Emulator) (i : SocketPtr) (fd : Fd) (l : Bool) (s₁ : Emulator) : Prop where
  mainHandler : s₁.mainHandler = s.mainHandler
  mapMutex : s₁.mapMutex = s.mapMutex
  port : ∀ p, s.mainHandler = .some p → s₁.port p = s.port p
  fdmap : ∀ p, s.mainHandler = .some p → s₁.fdmap p = s.fdmap p
  selects : s₁.selects = s.selects
  opened : s₁.opened = insert fd s.opened
  sockets : s₁.sockets = (s.newSocket i fd l).sockets

theorem Prepared.setPort {l : Bool} (hp : Prepared s i fd l s₁) (hs : s.Office) (he : s.Entered)
    (hnew : s.Fresh i fd) :
    ∃ s', s₁.setPort i = .some s' ∧ Frame s₁ s' ∧ s'.Entered ∧
      s'.sockets i ≠ .none ∧ (∀ j, j ≠ i → s'.sockets j = s.sockets j) ∧
      ∀ p fd' j, s'.Reaches p fd' j ↔ s.Serves p ∧ fd' = fd ∧ j = i ∨ s.Reaches p fd' j := by
  have hserves : ∀ p, s₁.Serves p ↔ s.Serves p := by
    intro p
    rw [Serves, Serves, hp.mainHandler]
    exact and_congr_right fun hm => by rw [hp.port p hm]
  have hready : s₁.Ready := by
    intro p hm
    rw [hp.mainHandler] at hm
    rw [hp.mapMutex, hp.port p hm]
    exact hs.ready p hm
  have hself : s₁.sockets i = .some ⟨fd, l, false⟩ := by rw [hp.sockets]; exact setSocket_self _ _ _
  have hother : ∀ j, j ≠ i → s₁.sockets j = s.sockets j := by
    intro j hj
    rw [hp.sockets]
    exact setSocket_other _ hj
  have hent : s₁.Entered := by
    have hold := hnew.entered he l
    constructor
    · intro p fd' h
      rw [hp.selects] at h
      rw [hp.mainHandler, hp.opened]
      exact hold.selects p fd' h
    · intro p fd' j hm hlook
      rw [hp.mainHandler] at hm
      rw [hp.fdmap p hm] at hlook
      rw [hp.opened, hp.sockets]
      exact hold.entry p fd' j hm hlook
  have hfree : ∀ p, s₁.mainHandler = .some p → (s₁.fdmap p).lookup fd = .none := by
    intro p hm
    rw [hp.mainHandler] at hm
    rw [hp.fdmap p hm]
    exact hnew.entry he p hm
  obtain ⟨s', hset, hb, hsock⟩ := setPort_spec hready hself rfl hfree
  have hi' : s'.sockets i = .some ⟨fd, l, true⟩ := by rw [hsock, Function.update_self]
  have hj' : ∀ j, j ≠ i → s'.sockets j = s₁.sockets j := fun j hj => by rw [hsock, Function.update_of_ne hj]
  refine ⟨s', hset, hb.toFrame, ?_, by simp [hi'], fun j hj => (hj' j hj).trans (hother j hj), ?_⟩
  · refine hent.begins hb (by rw [hp.opened]; exact Finset.mem_insert_self _ _) hi' ?_ hj'
    intro fd' l' h
    cases hself.symm.trans h
  · intro p fd' j
    rw [hb.reaches_iff hfree (by rw [hp.selects]; exact hnew.selects he), hserves]
    refine or_congr_right ?_
    rw [Reaches, Reaches, hp.selects]
    exact and_congr_right fun h => by rw [hp.fdmap p (he.selects p fd' h).1]

theorem delegate_does {l : Bool} (hs : s.Office) (he : s.Entered) (hp : p ∈ s.live) (hnew : s.Fresh i fd) :
    ∃ s', s.delegateTo p i fd l = .some s' ∧ Does s (.delegate p i fd l) s' := by
  cases hd : s.delegatee p with
  | some j =>
    have hport : s.port p = .none := hs.given p hp (by simp [hd])
    refine ⟨s, by simp [delegateTo, hd], hs, he, by simp, ?_, by simp, by simp [Registers, Ends, hd]⟩
    intro q _
    by_cases hq : p = q
    · subst hq
      simp [hport]
    · simp [hq]
  | none =>
    have hprep : Prepared s i fd l { s.newSocket i fd l with delegatee := Function.update s.delegatee p (.some i) } :=
      ⟨rfl, rfl, fun _ _ => rfl, fun _ _ => rfl, rfl, rfl, rfl⟩
    obtain ⟨s₂, hset, hf, hent, hi', hj', hreach⟩ := hprep.setPort hs he hnew
    have hmain : s₂.mainHandler = s.mainHandler := hf.mainHandler
    have htimers : s₂.timers = s.timers := hf.timers
    have hport : s₂.port = s.port := hf.port
    refine ⟨{ s₂ with port := Function.update s₂.port p .none }, ?_, ?_, ⟨hent.selects, hent.entry⟩, ?_, ?_, ?_, ?_⟩
    · simp only [delegateTo, hd]
      exact congrArg (Option.map _) hset
    · refine hs.give hmain hf.mapMutex htimers ?_ (by simp only [hport]) hf.delegatee hnew.socket hi' hj'
      exact hf.live.trans (Finset.insert_eq_self.2 hp).symm
    · simp [hmain]
    · intro q _
      by_cases hq : q = p
      · simp [hq]
      · simp [Function.update_of_ne hq, hport, Ne.symm hq]
    · simp [htimers]
    · intro q fd' j
      refine (hreach q fd' j).trans ?_
      simp [Registers, Ends, hd]

theorem Does.of_frame (hs : s.Office) (hf : Frame s s') (hsock : ∀ i, s.sockets i ≠ .none → s'.sockets i ≠ .none)
    (hent : s'.Entered) (he : (∃ p, e = .request p) ∨ (∃ p fd r, e = .input p fd r) ∨ ∃ i, e = .destroying i)
    (hreach : ∀ p fd i, s'.Reaches p fd i ↔ s.Registers e p fd i ∨ s.Reaches p fd i ∧ ¬s.Ends e p fd) :
    Does s e s' := by
  refine ⟨hs.frame hf hsock, hent, ?_, ?_, ?_, hreach⟩ <;> intro p <;>
    rcases he with ⟨q, rfl⟩ | ⟨q, fd', r, rfl⟩ | ⟨i', rfl⟩ <;> simp [hf.mainHandler, hf.port, hf.timers]

theorem input_does {received : Received} (hs : s.Office) (he : s.Entered) (hsel : (p, fd) ∈ s.selects)
    (hnew : ∀ c, received = .connection c → s.Fresh c.server c.fd ∧ c.port ∉ s.live)
    (hno : ¬s.DeletesTwice (.input p fd received)) :
    ∃ r, s.readyInput p fd received = .some r ∧ Does s (.input p fd received) r.1 := by
  obtain ⟨hm, -⟩ := he.selects p fd hsel
  have hmem : p ∈ s.mapMutex := (hs.mutex p).2 hm
  have hstay : (∀ q fd' j, ¬s.Registers (.input p fd received) q fd' j) → Does s (.input p fd received) s := by
    intro hno
    exact .of_frame hs ⟨rfl, rfl, rfl, rfl, rfl, rfl⟩ (fun _ h => h) he (.inr (.inl ⟨p, fd, received, rfl⟩))
      (by simp [hno, Ends])
  cases hlook : (s.fdmap p).lookup fd with
  | none =>
    refine ⟨(s, .none), by simp [readyInput, hmem, hlook], hstay ?_⟩
    rintro q fd' j ⟨-, hr⟩
    cases received with
    | nothing | notUtp => exact hr
    | connection c =>
      obtain ⟨⟨i, k, hi, -⟩, -⟩ := hr
      cases hlook.symm.trans hi
  | some i =>
    obtain ⟨-, l, hi⟩ := he.entry p fd i hm hlook
    have hlistens : ∀ i' k, (s.fdmap p).lookup fd = .some i' → s.sockets i' = .some k → k.listens = l := by
      intro i' k hi' hk
      cases hlook.symm.trans hi'
      cases hi.symm.trans hk
      rfl
    cases received with
    | nothing =>
      exact ⟨(s, .some i), by cases l <;> simp [readyInput, hmem, hlook, hi], hstay fun q fd' j h => h.2⟩
    | notUtp =>
      cases l with
      | false => exact ⟨(s, .some i), by simp [readyInput, hmem, hlook, hi], hstay fun q fd' j h => h.2⟩
      | true => exact absurd ⟨i, _, hlook, hi, rfl⟩ hno
    | connection c =>
      cases l with
      | false =>
        refine ⟨(s, .some i), by simp [readyInput, hmem, hlook, hi], hstay ?_⟩
        rintro q fd' j ⟨-, ⟨i', k, hi', hk, hl⟩, -⟩
        cases (hlistens i' k hi' hk).symm.trans hl
      | true =>
        obtain ⟨hfresh, hport⟩ := hnew c rfl
        have hne : ∀ q, s.mainHandler = .some q → q ≠ c.port := by
          intro q hq heq
          exact hport (heq ▸ hs.live q hq)
        have hreg : ∀ q fd' j, s.Registers (.input p fd (.connection c)) q fd' j ↔
            s.Serves q ∧ fd' = c.fd ∧ j = c.server := by
          intro q fd' j
          exact and_congr_right fun _ => and_iff_right ⟨i, _, hlook, hi, rfl⟩
        cases hp : s.port p with
        | none =>
          have hprep : Prepared s c.server c.fd false (s.newSocket c.server c.fd false) :=
            ⟨rfl, rfl, fun _ _ => rfl, fun _ _ => rfl, rfl, rfl, rfl⟩
          obtain ⟨s', hset, hf, hent, hi', hj', hreach⟩ := hprep.setPort hs he hfresh
          have hrun : s.accept c = .some s' := by
            have hp' : (s.newSocket c.server c.fd false).port p = s.port p := rfl
            simp only [accept, hm, hp', hp]
            exact hset
          refine ⟨(s', .some i), by simp [readyInput, hmem, hlook, hi, hrun], ?_⟩
          refine .of_frame hs ⟨hf.mainHandler, hf.live, hf.port, hf.delegatee, hf.mapMutex, hf.timers⟩ ?_ hent
            (.inr (.inl ⟨p, fd, _, rfl⟩)) (by simp [hreach, hreg, Ends])
          intro j hj
          by_cases hji : j = c.server
          · exact hji ▸ hi'
          · rwa [hj' j hji]
        | some p' =>
          have hprep : Prepared s c.server c.fd false { s.newSocket c.server c.fd false with
              live := insert c.port s.live
              port := Function.update s.port c.port .none
              delegatee := Function.update s.delegatee c.port (.some c.server)
              fdmap := Function.update s.fdmap c.port ∅ } :=
            ⟨rfl, rfl, fun q hq => Function.update_of_ne (hne q hq) _ _,
              fun q hq => Function.update_of_ne (hne q hq) _ _, rfl, rfl, rfl⟩
          obtain ⟨s', hset, hf, hent, hi', hj', hreach⟩ := hprep.setPort hs he hfresh
          have hmain : s'.mainHandler = s.mainHandler := hf.mainHandler
          have htimers : s'.timers = s.timers := hf.timers
          have hrun : s.accept c = .some s' := by
            have hp' : (s.newSocket c.server c.fd false).port p = s.port p := rfl
            simp only [accept, hm, hp', hp]
            exact hset
          refine ⟨(s', .some i), by simp [readyInput, hmem, hlook, hi, hrun],
            hs.give hmain hf.mapMutex htimers hf.live hf.port hf.delegatee hfresh.socket hi' hj', hent, ?_, ?_, ?_, ?_⟩
          · simp [hmain]
          · intro q hq
            rw [hmain] at hq
            simp [hf.port, Function.update_of_ne (hne q hq)]
          · simp [htimers]
          · simp [hreach, hreg, Ends]

theorem input_deletesTwice {received : Received} (hs : s.Office) (he : s.Entered) (hsel : (p, fd) ∈ s.selects)
    (htwice : s.DeletesTwice (.input p fd received)) : s.readyInput p fd received = .none := by
  have hmem : p ∈ s.mapMutex := (hs.mutex p).2 (he.selects p fd hsel).1
  cases received with
  | nothing | connection => cases htwice
  | notUtp =>
    obtain ⟨i, ⟨fd', l, sel⟩, hlook, hi, rfl⟩ := htwice
    simp [readyInput, hmem, hlook, hi]

theorem request_does (hs : s.Office) (he : s.Entered) (hp : p ∈ s.live) :
    s.request p = .some s ∧ Does s (.request p) s := by
  refine ⟨?_, .of_frame hs ⟨rfl, rfl, rfl, rfl, rfl, rfl⟩ (fun _ h => h) he (.inl ⟨p, rfl⟩)
    (by simp [Registers, Ends])⟩
  cases hd : s.delegatee p with
  | none => simp [request, hd]
  | some i =>
    obtain ⟨k, hi⟩ := Option.ne_none_iff_exists'.1 (hs.handler p hp i hd)
    simp [request, hd, hi]

theorem release_does (hs : s.Office) (he : s.Entered) (hi : s.sockets i = .some k) :
    ∃ s', s.release i k = .some s' ∧ Frame s s' ∧ s'.Entered ∧ s'.sockets i ≠ .none ∧
      (∀ j, j ≠ i → s'.sockets j = s.sockets j) ∧ (∀ fd l, s'.sockets i ≠ .some ⟨fd, l, true⟩) ∧
      ∀ p fd j, s'.Reaches p fd j ↔ s.Reaches p fd j ∧ ¬(k.selected = true ∧ k.fd = fd) := by
  cases hsel : k.selected with
  | false =>
    refine ⟨s, by simp [release, hsel], ⟨rfl, rfl, rfl, rfl, rfl, rfl⟩, he, by simp [hi], by simp, ?_, by simp⟩
    intro fd l h
    cases hi.symm.trans h
    cases hsel
  | true =>
    obtain ⟨s', hrun, hc, hsock⟩ := release_spec hs.ready i hsel
    have hother : ∀ j, j ≠ i → s'.sockets j = s.sockets j := fun j hj => by rw [hsock, Function.update_of_ne hj]
    have hk : s.sockets i = .some ⟨k.fd, k.listens, true⟩ := by rw [hi, ← hsel]
    refine ⟨s', hrun, hc.toFrame, he.ceases hc hk hother, by simp [hsock], hother, by simp [hsock], ?_⟩
    intro p fd j
    rw [hc.reaches_iff he]
    simp [eq_comm]

theorem destroying_does (hs : s.Office) (he : s.Entered) (hi : s.sockets i = .some k) :
    ∃ s', s.release i k = .some s' ∧ Does s (.destroying i) s' := by
  obtain ⟨s', hrun, hf, hent, hi', hj', -, hreach⟩ := release_does hs he hi
  refine ⟨s', hrun, .of_frame hs hf ?_ hent (.inr (.inr ⟨i, rfl⟩)) ?_⟩
  · intro j hj
    by_cases hji : j = i
    · exact hji ▸ hi'
    · rwa [hj' j hji]
  · simp [hreach, Registers, Ends, hi]

theorem start_fields (s : Emulator) (p : ErlDrvPort) :
    (s.start p).live = insert p s.live ∧ (s.start p).port = Function.update s.port p (.some p) ∧
      (s.start p).delegatee = Function.update s.delegatee p .none ∧
      (s.start p).fdmap = Function.update s.fdmap p ∅ ∧ (s.start p).sockets = s.sockets ∧
      (s.start p).opened = s.opened ∧ (s.start p).selects = s.selects := by
  rw [start]
  split <;> exact ⟨rfl, rfl, rfl, rfl, rfl, rfl, rfl⟩

theorem start_office (s : Emulator) (p : ErlDrvPort) :
    s.mainHandler = .none ∧ (s.start p).mainHandler = .some p ∧ (s.start p).timers = insert p s.timers ∧
        (s.start p).mapMutex = insert p s.mapMutex ∨
      s.mainHandler ≠ .none ∧ (s.start p).mainHandler = s.mainHandler ∧ (s.start p).timers = s.timers ∧
        (s.start p).mapMutex = s.mapMutex := by
  by_cases hm : s.mainHandler = .none
  · exact .inl ⟨hm, by simp [start, hm], by simp [start, hm], by simp [start, hm]⟩
  · exact .inr ⟨hm, by simp [start, hm], by simp [start, hm], by simp [start, hm]⟩

theorem start_does (hs : s.Office) (he : s.Entered) (hp : p ∉ s.live) : Does s (.start p) (s.start p) := by
  obtain ⟨hlive, hport, hdel, hfdmap, hsock, hopen, hsel⟩ := start_fields s p
  have hmain : ∀ q, (s.start p).mainHandler = .some q ↔ q = p ∧ s.mainHandler = .none ∨ s.mainHandler = .some q := by
    intro q
    rcases start_office s p with ⟨hm, hm', -⟩ | ⟨hm, hm', -⟩
    · simp [hm, hm', eq_comm]
    · simp [hm, hm']
  have hother : ∀ q, s.mainHandler = .some q → q ≠ p := by
    intro q hq heq
    exact hp (heq ▸ hs.live q hq)
  constructor
  · constructor
    · intro q
      rw [hmain, ← hs.mutex q]
      rcases start_office s p with ⟨hm, -, -, hmutex⟩ | ⟨hm, -, -, hmutex⟩
      · simp [hmutex, hm]
      · simp [hmutex, hm]
    · intro q hq
      rw [hlive]
      rcases (hmain q).1 hq with ⟨rfl, -⟩ | hq
      · exact Finset.mem_insert_self _ _
      · exact Finset.mem_insert_of_mem (hs.live q hq)
    · intro q r hq
      rw [hport] at hq
      by_cases hne : q = p
      · subst hne
        rw [Function.update_self] at hq
        exact (Option.some.inj hq).symm
      · rw [Function.update_of_ne hne] at hq
        exact hs.port q r hq
    · intro q hq
      rw [hmain]
      rcases start_office s p with ⟨hm, -, htimers, -⟩ | ⟨hm, -, htimers, -⟩
      · rw [htimers, Finset.mem_insert] at hq
        exact hq.imp (fun h => ⟨h, hm⟩) (hs.timers q)
      · exact .inr (hs.timers q (htimers ▸ hq))
    · intro q hq hne
      rw [hlive, Finset.mem_insert] at hq
      rw [hdel] at hne
      rw [hport]
      by_cases hqp : q = p
      · subst hqp
        simp at hne
      · rw [Function.update_of_ne hqp] at hne ⊢
        exact hs.given q (hq.resolve_left hqp) hne
    · intro q hq i hi
      rw [hlive, Finset.mem_insert] at hq
      rw [hdel] at hi
      rw [hsock]
      by_cases hqp : q = p
      · subst hqp
        simp at hi
      · rw [Function.update_of_ne hqp] at hi
        exact hs.handler q (hq.resolve_left hqp) i hi
    · intro q hq r hr i hi hi'
      rw [hlive, Finset.mem_insert] at hq hr
      rw [hdel] at hi hi'
      by_cases hqp : q = p
      · subst hqp
        simp at hi
      · by_cases hrp : r = p
        · subst hrp
          simp at hi'
        · rw [Function.update_of_ne hqp] at hi
          rw [Function.update_of_ne hrp] at hi'
          exact hs.own q (hq.resolve_left hqp) r (hr.resolve_left hrp) i hi hi'
  · constructor
    · intro q fd h
      rw [hsel] at h
      obtain ⟨hq, hfd⟩ := he.selects q fd h
      exact ⟨(hmain q).2 (.inr hq), hopen ▸ hfd⟩
    · intro q fd i hq hlook
      rw [hfdmap] at hlook
      rw [hopen, hsock]
      rcases (hmain q).1 hq with ⟨rfl, -⟩ | hq
      · simp at hlook
      · rw [Function.update_of_ne (hother q hq)] at hlook
        exact he.entry q fd i hq hlook
  · intro q
    simp [hmain, eq_comm]
  · intro q hq
    rw [hport]
    rcases (hmain q).1 hq with ⟨rfl, -⟩ | hq
    · simp
    · simp [Function.update_of_ne (hother q hq), (hother q hq).symm]
  · intro q hq
    rcases start_office s p with ⟨-, -, htimers, -⟩ | ⟨hm, hm', htimers, -⟩
    · simp [htimers, eq_comm]
    · simp [htimers, (hother q (hm' ▸ hq)).symm]
  · intro q fd i
    have hiff : (s.start p).Reaches q fd i ↔ s.Reaches q fd i := by
      rw [Reaches, Reaches, hsel, hfdmap]
      refine and_congr_right fun h => ?_
      rw [Function.update_of_ne (hother q (he.selects q fd h).1)]
    simp [hiff, Registers, Ends]

theorem timeout_does (hs : s.Office) (he : s.Entered) (hp : p ∈ s.timers) :
    Does s (.timeout p) (s.checkUtpTimeouts p) := by
  have hm : s.mainHandler = .some p := hs.timers p hp
  obtain ⟨ts, hrun⟩ : ∃ ts, s.checkUtpTimeouts p = { s with timers := ts } := by
    rw [checkUtpTimeouts]
    split <;> exact ⟨_, rfl⟩
  have hmem : ∀ q, q ∈ ts ↔ q ∈ s.timers ∧ ¬(p = q ∧ s.port q = .none) := by
    intro q
    have hts : ts = (s.checkUtpTimeouts p).timers := by rw [hrun]
    simp only [hts, checkUtpTimeouts, hm, reduceCtorEq, if_false]
    cases hport : s.port p with
    | none =>
      show q ∈ s.timers.erase p ↔ _
      rw [Finset.mem_erase, and_comm]
      refine and_congr_right fun _ => ⟨fun h h' => h h'.1.symm, ?_⟩
      rintro h rfl
      exact h ⟨rfl, hport⟩
    | some r =>
      obtain rfl := hs.port p r hport
      show q ∈ insert r (s.timers.erase r) ↔ _
      rw [Finset.insert_erase hp]
      refine (and_iff_left_of_imp fun _ h => ?_).symm
      obtain ⟨rfl, hnone⟩ := h
      cases hport.symm.trans hnone
  rw [hrun]
  refine ⟨⟨hs.mutex, hs.live, hs.port, fun q hq => hs.timers q ((hmem q).1 hq).1, hs.given, hs.handler, hs.own⟩,
    ⟨he.selects, he.entry⟩, by simp, by simp, by simp [hmem], by simp [Reaches, Registers, Ends]⟩

theorem leave_same (s : Emulator) (p : ErlDrvPort) :
    ((s.leaveOffice p).closePort p).live = s.live.erase p ∧ ((s.leaveOffice p).closePort p).port = s.port ∧
      ((s.leaveOffice p).closePort p).delegatee = s.delegatee ∧ ((s.leaveOffice p).closePort p).fdmap = s.fdmap ∧
      ((s.leaveOffice p).closePort p).sockets = s.sockets := by
  rw [leaveOffice]
  split <;> exact ⟨rfl, rfl, rfl, rfl, rfl⟩

theorem leave_left (hmutex : ∀ p, p ∈ s.mapMutex ↔ s.mainHandler = .some p)
    (htimers : ∀ p ∈ s.timers, s.mainHandler = .some p) (he : s.Entered) (p : ErlDrvPort) :
    (∀ q, ((s.leaveOffice p).closePort p).mainHandler = .some q ↔ s.mainHandler = .some q ∧ q ≠ p) ∧
    (∀ q, q ∈ ((s.leaveOffice p).closePort p).mapMutex ↔ q ∈ s.mapMutex ∧ q ≠ p) ∧
    (∀ q, q ∈ ((s.leaveOffice p).closePort p).timers ↔ q ∈ s.timers ∧ q ≠ p) ∧
    (∀ q fd, (q, fd) ∈ ((s.leaveOffice p).closePort p).selects ↔ (q, fd) ∈ s.selects ∧ q ≠ p) ∧
    (s.mainHandler ≠ .some p → ((s.leaveOffice p).closePort p).opened = s.opened) := by
  by_cases hm : s.mainHandler = .some p
  · have htimer : ∀ q, q ∈ s.timers → q = p := fun q hq => Option.some.inj ((htimers q hq).symm.trans hm)
    have hsel : ∀ q fd, (q, fd) ∈ s.selects → q = p :=
      fun q fd hq => Option.some.inj ((he.selects q fd hq).1.symm.trans hm)
    simp only [leaveOffice, if_pos hm, closePort]
    refine ⟨by simp [hm, eq_comm], by simp [and_comm], ?_, ?_, fun h => absurd hm h⟩
    · intro q
      refine iff_of_false (fun h => ?_) fun h => h.2 (htimer q h.1)
      obtain ⟨hne, hq⟩ := Finset.mem_erase.1 h
      cases hport : s.port p with
      | none => exact hne (htimer q (by rwa [hport] at hq))
      | some r => exact hne (htimer q (by rw [hport] at hq; exact Finset.mem_of_mem_erase hq))
    · intro q fd
      refine iff_of_false (fun h => ?_) fun h => h.2 (hsel q fd h.1)
      obtain ⟨hq, hne⟩ := Finset.mem_filter.1 h
      cases hport : s.port p with
      | none => exact hne (hsel q fd (by rwa [hport] at hq))
      | some r => exact hne (hsel q fd (by rw [hport] at hq; exact Finset.mem_of_mem_filter _ hq))
  · have hmain : ∀ q, s.mainHandler = .some q → q ≠ p := by
      rintro q hq rfl
      exact hm hq
    simp only [leaveOffice, if_neg hm, closePort]
    refine ⟨fun q => (and_iff_left_of_imp (hmain q)).symm,
      fun q => (and_iff_left_of_imp fun h => hmain q ((hmutex q).1 h)).symm,
      by simp [and_comm], by simp, by simp⟩

/-- A listener is gone, and a connection stays as it is. -/
theorem handlerStop_does (hs : s.Office) (he : s.Entered) (hi : s.sockets i = .some k) :
    ∃ s', s.handlerStop i = .some s' ∧ Frame s s' ∧ s'.Entered ∧ (∀ j, j ≠ i → s'.sockets j = s.sockets j) ∧
      ∀ p fd j, s'.Reaches p fd j ↔
        s.Reaches p fd j ∧ ¬(k.listens = true ∧ k.selected = true ∧ k.fd = fd) := by
  cases hl : k.listens with
  | false => exact ⟨s, by simp [handlerStop, hi, hl], ⟨rfl, rfl, rfl, rfl, rfl, rfl⟩, he, fun _ _ => rfl, by simp⟩
  | true =>
    obtain ⟨s₁, hrun, hf, hent, -, hother, hout, hreach⟩ := release_does hs he hi
    refine ⟨s₁.setSocket i .none, by simp [handlerStop, hi, hl, hrun],
      ⟨hf.mainHandler, hf.live, hf.port, hf.delegatee, hf.mapMutex, hf.timers⟩, ⟨hent.selects, ?_⟩, ?_, ?_⟩
    · intro p fd j hm hlook
      obtain ⟨hopen, l, hj⟩ := hent.entry p fd j hm hlook
      have hne : j ≠ i := by
        rintro rfl
        exact hout fd l hj
      exact ⟨hopen, l, (setSocket_other _ hne).trans hj⟩
    · intro j hj
      exact (setSocket_other _ hj).trans (hother j hj)
    · intro p fd j
      refine (hreach p fd j).trans ?_
      simp

theorem stop_does (hs : s.Office) (he : s.Entered) (hp : p ∈ s.live) :
    ∃ s', s.stop p = .some s' ∧ Does s (.stop p) s' := by
  have hhandler : ∃ s₁, s.stop p = .some ((s₁.leaveOffice p).closePort p) ∧ Frame s s₁ ∧ s₁.Entered ∧
      (∀ j, s.delegatee p ≠ .some j → s₁.sockets j = s.sockets j) ∧
      ∀ q fd j, s₁.Reaches q fd j ↔ s.Reaches q fd j ∧ ¬∃ i k, s.delegatee p = .some i ∧ s.sockets i = .some k ∧
        k.listens = true ∧ k.selected = true ∧ k.fd = fd := by
    cases hd : s.delegatee p with
    | none => exact ⟨s, by simp [stop, hd], ⟨rfl, rfl, rfl, rfl, rfl, rfl⟩, he, fun _ _ => rfl, by simp⟩
    | some i =>
      obtain ⟨k, hi⟩ := Option.ne_none_iff_exists'.1 (hs.handler p hp i hd)
      obtain ⟨s₁, hrun, hf, hent, hother, hreach⟩ := handlerStop_does hs he hi
      refine ⟨s₁, by simp [stop, hd, hrun], hf, hent, ?_, ?_⟩
      · intro j hj
        exact hother j fun h => hj (h ▸ rfl)
      · intro q fd j
        rw [hreach]
        refine and_congr_right fun _ => not_congr ⟨fun h => ⟨i, k, rfl, hi, h⟩, ?_⟩
        rintro ⟨i', k', hi', hk', h⟩
        cases hi'
        cases hi.symm.trans hk'
        exact h
  obtain ⟨s₁, hrun, hf, hent, hother, hreach⟩ := hhandler
  obtain ⟨hlive, hport, hdel, hfdmap, hsock⟩ := leave_same s₁ p
  obtain ⟨hmain, hmutex, htimers, hsel, hopen⟩ := leave_left
    (by simpa only [hf.mapMutex, hf.mainHandler] using hs.mutex)
    (by simpa only [hf.timers, hf.mainHandler] using hs.timers) hent p
  rw [hf.live] at hlive
  rw [hf.port] at hport
  rw [hf.delegatee] at hdel
  simp only [hf.mainHandler, hf.mapMutex, hf.timers] at hmain hmutex htimers hopen
  refine ⟨_, hrun, ?_, ?_, ?_, ?_, ?_, ?_⟩
  · constructor
    · intro q
      rw [hmutex, hmain, hs.mutex]
    · intro q hq
      obtain ⟨hq, hne⟩ := (hmain q).1 hq
      rw [hlive]
      exact Finset.mem_erase.2 ⟨hne, hs.live q hq⟩
    · simpa only [hport] using hs.port
    · intro q hq
      obtain ⟨hq, hne⟩ := (htimers q).1 hq
      exact (hmain q).2 ⟨hs.timers q hq, hne⟩
    · intro q hq
      rw [hlive] at hq
      rw [hdel, hport]
      exact hs.given q (Finset.mem_of_mem_erase hq)
    · intro q hq i hi
      rw [hlive] at hq
      rw [hdel] at hi
      obtain ⟨hne, hq⟩ := Finset.mem_erase.1 hq
      rw [hsock, hother i fun h => hne (hs.own q hq p hp i hi h)]
      exact hs.handler q hq i hi
    · intro q hq r hr
      rw [hlive] at hq hr
      rw [hdel]
      exact hs.own q (Finset.mem_of_mem_erase hq) r (Finset.mem_of_mem_erase hr)
  · constructor
    · intro q fd h
      obtain ⟨hold, hne⟩ := (hsel q fd).1 h
      obtain ⟨hq, hfd⟩ := hent.selects q fd hold
      rw [hf.mainHandler] at hq
      rw [hopen fun h => hne (Option.some.inj (hq.symm.trans h))]
      exact ⟨(hmain q).2 ⟨hq, hne⟩, hfd⟩
    · intro q fd i hq hlook
      obtain ⟨hq, hne⟩ := (hmain q).1 hq
      rw [hfdmap] at hlook
      rw [hopen fun h => hne (Option.some.inj (hq.symm.trans h)), hsock]
      exact hent.entry q fd i (hf.mainHandler.trans hq) hlook
  · intro q
    rw [hmain]
    simp [eq_comm]
  · intro q _
    simp [hport]
  · intro q hq
    obtain ⟨-, hne⟩ := (hmain q).1 hq
    simp [htimers, hne]
  · intro q fd i
    have hiff : ((s₁.leaveOffice p).closePort p).Reaches q fd i ↔ s₁.Reaches q fd i ∧ q ≠ p := by
      rw [Reaches, hsel, hfdmap, Reaches, and_right_comm]
    rw [hiff, hreach]
    simp only [Registers, Ends, and_false, false_or, not_or, and_assoc, eq_comm (a := p)]
    exact and_congr_right fun _ => and_comm

/-- No event that is offered meets a null pointer, a mutex that is not there or
a deleted handler, and only one deletes a handler twice. -/
theorem machine_does (hs : s.Office) (he : s.Entered) (ho : Offered t s e) (hno : ¬s.DeletesTwice e) :
    ∃ r, machine s e = .some r ∧ Does s e r.1 := by
  cases e with
  | start p => exact ⟨_, rfl, start_does hs he ho⟩
  | timeout p => exact ⟨_, rfl, timeout_does hs he ho.2⟩
  | request p =>
    obtain ⟨hrun, hdoes⟩ := request_does hs he ho
    exact ⟨(s, .none), by simp [machine, hrun], hdoes⟩
  | input p fd received =>
    refine input_does hs he ho.2.1 ?_ hno
    rintro c rfl
    obtain ⟨hserver, hfd, hport⟩ := ho.2.2
    exact ⟨⟨hserver, hfd⟩, hport⟩
  | delegate p i fd l =>
    obtain ⟨s', hrun, hdoes⟩ := delegate_does (l := l) hs he ho.1 ⟨ho.2.1, ho.2.2⟩
    exact ⟨(s', .none), by simp [machine, hrun], hdoes⟩
  | stop p =>
    obtain ⟨s', hrun, hdoes⟩ := stop_does hs he ho
    exact ⟨(s', .none), by simp [machine, hrun], hdoes⟩
  | destroying i =>
    obtain ⟨k, hi, -⟩ := Option.map_eq_some_iff.1 ho
    obtain ⟨s', hrun, hdoes⟩ := destroying_does hs he hi
    exact ⟨(s', .none), by simp [machine, hi, hrun], hdoes⟩

theorem machine_deletesTwice (hs : s.Office) (he : s.Entered) (ho : Offered t s e) (htwice : s.DeletesTwice e) :
    machine s e = .none := by
  cases e with
  | input p fd received => exact input_deletesTwice hs he ho.2.1 htwice
  | _ => cases htwice

theorem machine_defined_iff (hs : s.Office) (he : s.Entered) (ho : Offered t s e) :
    (∃ r, machine s e = .some r) ↔ ¬s.DeletesTwice e := by
  constructor
  · intro hdef htwice
    obtain ⟨r, hr⟩ := hdef
    cases (machine_deletesTwice hs he ho htwice).symm.trans hr
  · intro hno
    obtain ⟨r, hr, -⟩ := machine_does hs he ho hno
    exact ⟨r, hr⟩

theorem step_does (hs : s.Office) (he : s.Entered) (ho : Offered t s e) (hm : machine s e = .some (s', o)) :
    Does s e s' := by
  obtain ⟨r, hr, hdoes⟩ := machine_does hs he ho ((machine_defined_iff hs he ho).1 ⟨_, hm⟩)
  cases hm.symm.trans hr
  exact hdoes

/-! ## Runs -/

/-- The port was told to listen or to connect since it was started. -/
def GaveUp (p : ErlDrvPort) : EmulatorTrace → Prop :=
  Runs.Since (fun x => ∃ i fd l, x.event = .delegate p i fd l) fun x => x.event = .start p

theorem port_step (hport : ∀ p, s.mainHandler = .some p → (s.port p = .none ↔ GaveUp p t))
    (hdoes : Does s e s') (o : Option SocketPtr) (p : ErlDrvPort) (hm : s'.mainHandler = .some p) :
    s'.port p = .none ↔ GaveUp p (t ++ [⟨s, e, o⟩]) := by
  rw [hdoes.port p hm, GaveUp, Runs.since_snoc]
  refine or_congr_right (and_congr_left fun hne => ?_)
  rcases (hdoes.mainHandler p).1 hm with ⟨hstart, -⟩ | ⟨hold, -⟩
  · exact absurd hstart hne
  · exact hport p hold

/-- **The driver's timer is set in every state that has a main handler exactly
when no timer fires on a port that has listened or connected.** -/
theorem timer_runs_iff (run : Runs.Run machine Offered [] new t s) :
    Runs.Each (Runs.After machine fun _ s => ∀ p, s.mainHandler = .some p → p ∈ s.timers) t ↔
      Runs.Each (fun t x => ∀ p, x.event = .timeout p → ¬GaveUp p t) t := by
  refine Runs.Run.each_iff
    (I := fun t s => s.Office ∧ s.Entered ∧ ∀ p, s.mainHandler = .some p → (s.port p = .none ↔ GaveUp p t))
    (Q := fun _ s => ∀ p, s.mainHandler = .some p → p ∈ s.timers)
    ⟨new_office, new_entered, by simp [new]⟩ (by simp [new]) ?_ run
  intro t s e s' o hi hq ho hm
  obtain ⟨hs, he, hport⟩ := hi
  have hdoes := step_does hs he ho hm
  refine ⟨⟨hdoes.office, hdoes.entered, port_step hport hdoes o⟩, ?_⟩
  constructor
  · intro hset p hev hgave
    obtain rfl : e = .timeout p := hev
    have hp : s.mainHandler = .some p := hs.timers p ho.2
    have hp' : s'.mainHandler = .some p := (hdoes.mainHandler p).2 (.inr ⟨hp, by simp⟩)
    rcases (hdoes.timer p hp').1 (hset p hp') with hstart | ⟨-, hno⟩
    · cases hstart
    · exact hno ⟨rfl, (hport p hp).2 hgave⟩
  · intro hno p hp'
    refine (hdoes.timer p hp').2 ?_
    rcases (hdoes.mainHandler p).1 hp' with ⟨hstart, -⟩ | ⟨hp, -⟩
    · exact .inl hstart
    · refine .inr ⟨hq p hp, ?_⟩
      rintro ⟨hev, hnone⟩
      exact hno p hev ((hport p hp).1 hnone)

/-- The only port there is listens, and its timer fires once. -/
theorem timer_runs_iff_lost : ∃ t s, Runs.Run machine Offered [] new t s ∧ s.mainHandler = .some 0 ∧ 0 ∉ s.timers ∧
    ¬Runs.Each (fun t x => ∀ p, x.event = .timeout p → ¬GaveUp p t) t := by
  have run := (((Runs.Run.start machine Offered new).next (.start 0) (by decide) rfl).next (.delegate 0 7 5 true)
    (by decide) rfl).next (.timeout 0) (by decide) rfl
  refine ⟨_, _, run, rfl, by decide, fun h => ?_⟩
  have hset := (timer_runs_iff run).2 h _ _ [] rfl _ rfl 0 rfl
  exact absurd hset (by decide)

theorem reaches_iff (hs : s.Office) (he : s.Entered) :
    s.Reaches p fd i ↔ Offered t s (.input p fd .nothing) ∧ machine s (.input p fd .nothing) = .some (s, .some i) := by
  constructor
  · intro h
    have hm := (he.selects p fd h.1).1
    obtain ⟨-, l, hi⟩ := he.entry p fd i hm h.2
    refine ⟨⟨hs.live p hm, h.1, trivial⟩, ?_⟩
    cases l <;> simp [machine, readyInput, (hs.mutex p).2 hm, h.2, hi]
  · intro h
    obtain ⟨⟨-, hsel, -⟩, hrun⟩ := h
    have hm := (he.selects p fd hsel).1
    refine ⟨hsel, ?_⟩
    rw [machine, readyInput, if_pos ((hs.mutex p).2 hm)] at hrun
    cases hlook : (s.fdmap p).lookup fd with
    | none => simp [hlook] at hrun
    | some j =>
      obtain ⟨-, l, hj⟩ := he.entry p fd j hm hlook
      cases l <;> simpa [hlook, hj] using hrun

/-- **Input on a descriptor reaches a handler exactly since the handler was
registered with it, while the main handler's `port` was set, and until that
port is stopped or any handler with the same number is.** -/
theorem input_reaches_iff (run : Runs.Run machine Offered [] new t s) (p : ErlDrvPort) (fd : Fd) (i : SocketPtr) :
    (Offered t s (.input p fd .nothing) ∧ machine s (.input p fd .nothing) = .some (s, .some i)) ↔
      Runs.Since (fun x => x.pre.Registers x.event p fd i) (fun x => x.pre.Ends x.event p fd) t := by
  have hinv : s.Office ∧ s.Entered := by
    refine run.invariant (I := fun _ s => s.Office ∧ s.Entered) ⟨new_office, new_entered⟩ ?_
    intro t s e s' o hi ho hm
    have hdoes := step_does hi.1 hi.2 ho hm
    exact ⟨hdoes.office, hdoes.entered⟩
  rw [← reaches_iff hinv.1 hinv.2]
  refine Runs.Run.since_iff (I := fun _ s => s.Office ∧ s.Entered) (Q := fun s => s.Reaches p fd i)
    ⟨new_office, new_entered⟩ (by simp [new, Reaches]) ?_ run
  intro t s e s' o hi ho hm
  have hdoes := step_does hi.1 hi.2 ho hm
  exact ⟨⟨hdoes.office, hdoes.entered⟩, hdoes.reaches p fd i⟩

/-- A connection outlives the main handler it was registered with, another one
gets its number, and the end of the first takes the entry of the second. -/
theorem input_reaches_iff_stale : ∃ t s, Runs.Run machine Offered [] new t s ∧
    s.sockets 11 = .some ⟨5, false, true⟩ ∧
    ¬Runs.Since (fun x => x.pre.Registers x.event 2 5 11) (fun x => x.pre.Ends x.event 2 5) t := by
  have run₀ := ((((Runs.Run.start machine Offered new).next (.start 0) (by decide) rfl).next (.start 1) (by decide)
    rfl).next (.delegate 1 10 5 false) (by decide) rfl).next (.stop 0) (by decide) rfl
  have run₁ := (((run₀.next (.start 2) (by decide) rfl).next (.start 3) (by decide) rfl).next (.delegate 3 11 5 false)
    (by decide) rfl).next (.destroying 10) (by decide) rfl
  refine ⟨_, _, run₁, rfl, fun h => ?_⟩
  have hinput := (input_reaches_iff run₁ 2 5 11).2 h
  exact absurd hinput.1 (by decide)

end Emulator

end GenUtp
