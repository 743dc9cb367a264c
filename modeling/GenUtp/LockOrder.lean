/-
The mutexes of the driver (`locker.h`, `globals.cc`): `utp_mutex`, a
`map_mutex` for each main handler and a `queue_mutex` for each listener, with
the lock of the port that the emulator takes around every callback
(`ERL_DRV_FLAG_USE_PORT_LOCKING`).

Each function is what it does with them: the blocks of its `MutexLocker`s,
what it uses of what they protect, and the calls it makes. A call of libutp
makes callbacks, which call libutp again, to any depth `n`; `m` is the port of
the main handler, for as long as a callback runs. A test the function makes is
left open, and so are the creation and the destruction of the mutexes
themselves.

Three places use what a mutex protects without it: `UtpHandler::setopts` calls
`UTP_SetSockopt` after `utp_mutex` was given back, `MainHandler::stop` walks
through `fdmap`, and `~Listener`, at the end of `Listener::stop`, destroys the
acceptor queue.
-/
import GenUtp.Lib.Locks
import GenUtp.Listener

namespace GenUtp

open Locks

namespace LockOrder

inductive Mutex
  /-- The lock of a port. -/
  | port (p : ErlDrvPort)
  /-- `queue_mutex` of a listener. -/
  | queue (l : Nat)
  | utp
  /-- `map_mutex` of the `MainHandler` of a port. -/
  | map (p : ErlDrvPort)
  deriving DecidableEq, Repr

inductive Use
  /-- A call of libutp. -/
  | libutp
  /-- `UTP_SetSockopt` in `UtpHandler::setopts`. -/
  | setSockopt
  | fdmap (p : ErlDrvPort)
  /-- The loop over `fdmap` in `MainHandler::stop`. -/
  | sweep (p : ErlDrvPort)
  /-- `mon_map` and `proc_mon_map` -/
  | monMap (p : ErlDrvPort)
  | acceptorQueue (l : Nat)
  /-- `~Listener` destroys `acceptor_queue`, and `queue_mutex` before it. -/
  | destroyQueue (l : Nat)
  deriving DecidableEq, Repr

abbrev DriverCode := Code Mutex Use

/-- A handler of a port. -/
inductive Kind
  | listener (l : Nat)
  | connection
  deriving DecidableEq, Repr

/-- Maybe. -/
def opt (a : DriverCode) : DriverCode := .alt .skip a

/-! ## `MainHandler` -/

def select (m : ErlDrvPort) : DriverCode := .locked (.map m) (.use (.fdmap m))

def deselect (m : ErlDrvPort) : DriverCode := opt (.locked (.map m) (.use (.fdmap m)))

def startInput (m : ErlDrvPort) : DriverCode := opt (select m)

def stopInput (m : ErlDrvPort) : DriverCode := opt (deselect m)

/-- `add_mon`, `del_mon` and `del_mons`. -/
def mons (m : ErlDrvPort) : DriverCode := .locked (.map m) (.use (.monMap m))

/-- `add_monitor`, `del_monitor` and `del_monitors`. -/
def monitors (m : ErlDrvPort) : DriverCode := opt (mons m)

/-- `~SocketHandler` -/
def deleteHandler (m : ErlDrvPort) : DriverCode := monitors m

/-- `~Listener` -/
def deleteListener (m : ErlDrvPort) (l : Nat) : DriverCode := .seq (.use (.destroyQueue l)) (deleteHandler m)

/-! ## The callbacks of libutp, which calls of libutp are `c` -/

def closeUtp (c : DriverCode) : DriverCode := opt c

def doRead (c : DriverCode) : DriverCode := opt c

def doError (c : DriverCode) : DriverCode := closeUtp c

def doSendTo (c : DriverCode) : DriverCode := opt (doError c)

/-- `UTP_SetCallbacks`, and `UTP_SetSockopt` twice. -/
def setUtpCallbacks (c : DriverCode) : DriverCode := opt (.seq c (.seq c c))

def doIncoming (c : DriverCode) : DriverCode := opt (setUtpCallbacks c)

/-- EOF; WRITABLE, which may write; DESTROYING. CONNECT takes no lock. -/
def doStateChange (c : DriverCode) (m : ErlDrvPort) : DriverCode :=
  .alt (opt (closeUtp c))
    (.alt (.seq (opt c) (opt (closeUtp c))) (.seq (opt (stopInput m)) (opt (deleteHandler m))))

/-- `utp_write`, `utp_get_rb_size` and `utp_overhead` take no lock. -/
def callbacks (c : DriverCode) (m : ErlDrvPort) : DriverCode :=
  opt (.alt (doRead c) (.alt (doStateChange c m) (.alt (doError c) (.alt (doSendTo c) (doIncoming c)))))

/-- A call of libutp, with callbacks to depth `n`. -/
def utpCall (m : ErlDrvPort) : Nat → DriverCode
  | 0 => .use .libutp
  | n + 1 => .seq (.use .libutp) (.loop (callbacks (utpCall m n) m))

/-! ## The requests -/

/-- `UTP_Create`, `set_utp_callbacks` and `UTP_Connect`. -/
def connectTo (c : DriverCode) : DriverCode := .locked .utp (.seq c (.seq (setUtpCallbacks c) c))

def listen (m : ErlDrvPort) : DriverCode := opt (startInput m)

def connectStart (c : DriverCode) (m : ErlDrvPort) : DriverCode := opt (.seq (startInput m) (connectTo c))

def accept (m : ErlDrvPort) (l : Nat) : DriverCode :=
  opt (.seq (monitors m) (opt (.locked (.queue l) (.use (.acceptorQueue l)))))

def cancelAccept (m : ErlDrvPort) (l : Nat) : DriverCode :=
  opt (.locked (.queue l) (.seq (.use (.acceptorQueue l)) (opt (.seq (monitors m) (.use (.acceptorQueue l))))))

/-- `SocketHandler::setopts`; `emit_read_buffer` takes no lock. -/
def socketSetopts : DriverCode := opt (.locked .utp .skip)

def setopts : DriverCode := .seq socketSetopts (.seq (opt (.use .setSockopt)) (opt (.use .setSockopt)))

def peername (c : DriverCode) : DriverCode := opt (.locked .utp c)

def close (c : DriverCode) : DriverCode := opt (.locked .utp (opt (closeUtp c)))

def recv (c : DriverCode) : DriverCode := opt (.seq (opt (.locked .utp c)) (opt (.locked .utp .skip)))

/-- `cancel_send` and `cancel_recv` -/
def cancel : DriverCode := .locked .utp .skip

/-- `UTP_Write`, or the caller is to wait. -/
def outputv (c : DriverCode) : DriverCode := opt (.alt (.locked .utp c) (opt (.locked .utp .skip)))

/-- `control` of a port that has no delegatee. -/
def mainControl (c : DriverCode) (m : ErlDrvPort) : DriverCode := opt (.alt (listen m) (connectStart c m))

/-- `control` of the delegatee; the requests that take no lock are one. -/
def control (c : DriverCode) (m : ErlDrvPort) : Kind → DriverCode
  | .listener l => opt (.alt (accept m l) (.alt (cancelAccept m l) socketSetopts))
  | .connection => opt (.alt setopts (.alt (peername c) (.alt (close c) (.alt (recv c) cancel))))

/-! ## The callbacks of the emulator -/

def start : DriverCode := .locked .utp .skip

def checkUtpTimeouts (c : DriverCode) : DriverCode := opt (.locked .utp c)

/-- `Listener::input_ready`: nobody accepts, `connect` fails, or libutp says
whose datagram it is. -/
def listenerInput (c : DriverCode) (m : ErlDrvPort) (l : Nat) : DriverCode :=
  opt (.locked (.queue l) (.seq (.use (.acceptorQueue l)) (opt
    (.alt (.seq (monitors m) (.use (.acceptorQueue l)))
      (.seq (.locked .utp c) (.alt (.seq (monitors m) (.seq (startInput m) (.use (.acceptorQueue l))))
        (.seq (deleteHandler m) (deleteHandler m))))))))

def inputReady (c : DriverCode) (m : ErlDrvPort) : Kind → DriverCode
  | .listener l => listenerInput c m l
  | .connection => opt (.locked .utp c)

/-- `ready_input` of the `MainHandler` of `p`. -/
def readyInput (c : DriverCode) (m p : ErlDrvPort) (k : Kind) : DriverCode :=
  .seq (.locked (.map p) (.use (.fdmap p))) (opt (inputReady c m k))

def processExited : Kind → DriverCode
  | .listener l => .locked (.queue l) (.use (.acceptorQueue l))
  | .connection => .skip

def processExit (p : ErlDrvPort) (k : Kind) : DriverCode :=
  .seq (.locked (.map p) (.use (.monMap p))) (opt (processExited k))

def handlerStop (c : DriverCode) (m : ErlDrvPort) : Kind → DriverCode
  | .listener l => .seq (opt (stopInput m)) (deleteListener m l)
  | .connection => .seq (opt (.locked .utp (closeUtp c))) (opt (deleteHandler m))

def stop (c : DriverCode) (m p : ErlDrvPort) (k : Kind) : DriverCode :=
  .seq (opt (handlerStop c m k)) (.locked .utp (opt (.use (.sweep p))))

/-- The callback of port `p` begins with its lock. -/
inductive Callback : DriverCode → Prop
  | start (p : ErlDrvPort) : Callback (.locked (.port p) start)
  | stop (p m : ErlDrvPort) (k : Kind) (n : Nat) : Callback (.locked (.port p) (stop (utpCall m n) m p k))
  | timeout (p m : ErlDrvPort) (n : Nat) : Callback (.locked (.port p) (checkUtpTimeouts (utpCall m n)))
  | readyInput (p m : ErlDrvPort) (k : Kind) (n : Nat) :
      Callback (.locked (.port p) (readyInput (utpCall m n) m p k))
  | processExit (p : ErlDrvPort) (k : Kind) : Callback (.locked (.port p) (processExit p k))
  | outputv (p m : ErlDrvPort) (n : Nat) : Callback (.locked (.port p) (outputv (utpCall m n)))
  | mainControl (p m : ErlDrvPort) (n : Nat) : Callback (.locked (.port p) (mainControl (utpCall m n) m))
  | control (p m : ErlDrvPort) (k : Kind) (n : Nat) : Callback (.locked (.port p) (control (utpCall m n) m k))

/-! ## The order -/

def rank : Mutex → Nat
  | .port _ => 0
  | .queue _ => 1
  | .utp => 2
  | .map _ => 3

def needs : Use → Option Mutex
  | .libutp => .some .utp
  | .fdmap p | .monMap p => .some (.map p)
  | .acceptorQueue l => .some (.queue l)
  | .setSockopt | .sweep _ | .destroyQueue _ => .none

def order : Discipline Mutex Use := ⟨rank, needs⟩

@[simp] theorem order_rank : order.rank = rank := rfl

@[simp] theorem order_needs : order.needs = needs := rfl

variable {held : List Mutex} {c : DriverCode} {m p : ErlDrvPort} {l : Nat} {k : Kind}

theorem keeps_opt {a : DriverCode} : (opt a).Keeps order held ↔ a.Keeps order held := by
  simp [opt, Code.Keeps]

/-- What is done with a `map_mutex` may be done with any other mutex. -/
theorem map_keeps (hlow : ∀ x ∈ held, rank x < 3) :
    (select m).Keeps order held ∧ (deselect m).Keeps order held ∧ (mons m).Keeps order held := by
  refine ⟨⟨hlow, ?_⟩, keeps_opt.2 ⟨hlow, ?_⟩, hlow, ?_⟩ <;> simp [Code.Keeps, order, needs]

theorem startInput_keeps (hlow : ∀ x ∈ held, rank x < 3) : (startInput m).Keeps order held :=
  keeps_opt.2 (map_keeps hlow).1

theorem stopInput_keeps (hlow : ∀ x ∈ held, rank x < 3) : (stopInput m).Keeps order held :=
  keeps_opt.2 (map_keeps hlow).2.1

theorem monitors_keeps (hlow : ∀ x ∈ held, rank x < 3) : (monitors m).Keeps order held :=
  keeps_opt.2 (map_keeps hlow).2.2

theorem callbacks_keep (hlow : ∀ x ∈ held, rank x < 3) (hc : c.Keeps order held) :
    (callbacks c m).Keeps order held := by
  simp [callbacks, doRead, doStateChange, doError, doSendTo, doIncoming, setUtpCallbacks, closeUtp, deleteHandler,
    keeps_opt, Code.Keeps, hc, stopInput_keeps hlow, monitors_keeps hlow]

/-- libutp may be called with `utp_mutex` and no `map_mutex`. -/
theorem utpCall_keeps (hmem : Mutex.utp ∈ held) (hlow : ∀ x ∈ held, rank x < 3) :
    ∀ n, (utpCall m n).Keeps order held
  | 0 => by simpa [utpCall, Code.Keeps, order, needs] using hmem
  | n + 1 => by
    refine ⟨by simpa [Code.Keeps, order, needs] using hmem, ?_⟩
    exact callbacks_keep hlow (utpCall_keeps hmem hlow n)

/-- With the locks of a port and of a listener at most, a function may call
`MainHandler`, and libutp once it has `utp_mutex`. -/
theorem low_keeps (hlow : ∀ x ∈ held, rank x < 2) (m : ErlDrvPort) :
    (startInput m).Keeps order held ∧ (stopInput m).Keeps order held ∧ (monitors m).Keeps order held ∧
      ∀ n, (utpCall m n).Keeps order (.utp :: held) := by
  have hlow' : ∀ x ∈ held, rank x < 3 := fun x hx => (hlow x hx).trans (by decide)
  refine ⟨startInput_keeps hlow', stopInput_keeps hlow', monitors_keeps hlow', utpCall_keeps List.mem_cons_self ?_⟩
  rw [List.forall_mem_cons]
  exact ⟨by decide, hlow'⟩

theorem callback_keeps {a : DriverCode} (ha : Callback a) : a.Keeps order [] := by
  have hport : ∀ p m : ErlDrvPort, (startInput m).Keeps order [.port p] ∧ (stopInput m).Keeps order [.port p] ∧
      (monitors m).Keeps order [.port p] ∧ ∀ n, (utpCall m n).Keeps order [.utp, .port p] :=
    fun p m => low_keeps (by simp [rank]) m
  have hqueue : ∀ (p m : ErlDrvPort) l, (startInput m).Keeps order [.queue l, .port p] ∧
      (stopInput m).Keeps order [.queue l, .port p] ∧ (monitors m).Keeps order [.queue l, .port p] ∧
      ∀ n, (utpCall m n).Keeps order [.utp, .queue l, .port p] :=
    fun p m l => low_keeps (by simp [rank]) m
  cases ha with
  | start p => simp [start, Code.Keeps, rank]
  | stop p m k n =>
    cases k <;> simp [stop, handlerStop, deleteListener, deleteHandler, closeUtp, keeps_opt, Code.Keeps, rank, needs,
      hport]
  | timeout p m n => simp [checkUtpTimeouts, keeps_opt, Code.Keeps, rank, hport]
  | readyInput p m k n =>
    cases k <;> simp [readyInput, inputReady, listenerInput, deleteHandler, keeps_opt, Code.Keeps, rank, needs, hport,
      hqueue]
  | processExit p k => cases k <;> simp [processExit, processExited, keeps_opt, Code.Keeps, rank, needs]
  | outputv p m n => simp [outputv, keeps_opt, Code.Keeps, rank, hport]
  | mainControl p m n =>
    simp [mainControl, listen, connectStart, connectTo, setUtpCallbacks, keeps_opt, Code.Keeps, rank, hport]
  | control p m k n =>
    cases k <;> simp [control, accept, cancelAccept, socketSetopts, setopts, peername, close, closeUtp, recv, cancel,
      keeps_opt, Code.Keeps, rank, needs, hport, hqueue]

/-! ## Threads -/

variable {ι : Type} [DecidableEq ι] {tr : Threads ι Mutex Use} {s : State ι Mutex Use}

/-- **However the callbacks of the emulator interleave, on any number of
threads, those in progress can all be brought to their end without any new
one: no threads wait for each other.** -/
theorem callbacks_finish (run : Runs.Run machine (Calls Callback) [] idle tr s) :
    ∃ tr' s', Runs.Run machine Finishing tr s tr' s' ∧ ∀ i, s'.rest i = [] :=
  all_finish (d := order) (fun _ => callback_keeps) (N := 4) (fun m => by cases m <;> simp [rank]) run

/-- Thread 1 waits for the `utp_mutex` of thread 0. -/
theorem callbacks_finish_two : ∃ (tr : Threads Nat Mutex Use) (s : State Nat Mutex Use),
    Runs.Run machine (Calls Callback) [] idle tr s ∧ machine s (.step 1) = .none ∧
    ∃ tr' s', Runs.Run machine Finishing tr s tr' s' ∧ ∀ i, s'.rest i = [] := by
  have hstart : ∀ p, ∃ a, Callback a ∧ a.Takes [.lock (.port p), .lock .utp, .unlock .utp, .unlock (.port p)] :=
    fun p => ⟨_, .start p, .locked (.locked .skip)⟩
  have run₀ := (((Runs.Run.start machine (Calls Callback) (idle : State Nat Mutex Use)).next (.call 0 _)
    ⟨rfl, hstart 7⟩ rfl).next (.step 0) trivial rfl).next (.step 0) trivial rfl
  have run₁ := (run₀.next (.call 1 _) ⟨rfl, hstart 8⟩ rfl).next (.step 1) trivial rfl
  exact ⟨_, _, run₁, rfl, callbacks_finish run₁⟩

/-- **No two threads are ever in libutp, or at the same map or queue, save for
`UTP_SetSockopt` in `setopts`, the loop in `stop` and the end of a queue.** -/
theorem uses_exclusive (run : Runs.Run machine (Calls Callback) [] idle tr s) {i j : ι} {u : Use}
    {t t' : List (Action Mutex Use)} (hi : s.rest i = .use u :: t) (hj : s.rest j = .use u :: t')
    (hu : u ≠ .setSockopt) (hsweep : ∀ p, u ≠ .sweep p) (hdestroy : ∀ l, u ≠ .destroyQueue l) : i = j := by
  obtain ⟨hs, h⟩ := held_of_run (d := order) (fun _ => callback_keeps) run
  cases u with
  | setSockopt => exact absurd rfl hu
  | sweep p => exact absurd rfl (hsweep p)
  | destroyQueue l => exact absurd rfl (hdestroy l)
  | libutp => exact exclusive h hi hj (m := .utp) rfl rfl
  | fdmap p => exact exclusive h hi hj (m := .map p) rfl rfl
  | monMap p => exact exclusive h hi hj (m := .map p) rfl rfl
  | acceptorQueue l => exact exclusive h hi hj (m := .queue l) rfl rfl

theorem uses_exclusive_timeout : ∃ (tr : Threads Nat Mutex Use) (s : State Nat Mutex Use) (t : List (Action Mutex Use)),
    Runs.Run machine (Calls Callback) [] idle tr s ∧ s.rest 0 = .use .libutp :: t ∧
    ∀ j t', s.rest j = .use .libutp :: t' → 0 = j := by
  have htimeout : ∃ a, Callback a ∧ a.Takes
      [.lock (.port 7), .lock .utp, .use .libutp, .unlock .utp, .unlock (.port 7)] :=
    ⟨_, .timeout 7 7 0, .locked (.right (.locked .use))⟩
  have run := (((Runs.Run.start machine (Calls Callback) (idle : State Nat Mutex Use)).next (.call 0 _)
    ⟨rfl, htimeout⟩ rfl).next (.step 0) trivial rfl).next (.step 0) trivial rfl
  exact ⟨_, _, _, run, rfl, fun j t' hj => uses_exclusive run rfl hj (by simp) (by simp) (by simp)⟩

/-- A `setopts` is at its `UTP_SetSockopt` while the timer's callback is in
libutp. -/
theorem setopts_beside_libutp : ∃ (tr : Threads Nat Mutex Use) (s : State Nat Mutex Use)
    (t t' : List (Action Mutex Use)), Runs.Run machine (Calls Callback) [] idle tr s ∧
      s.rest 0 = .use .setSockopt :: t ∧ s.rest 1 = .use .libutp :: t' := by
  have hsetopts : ∃ a, Callback a ∧ a.Takes
      [.lock (.port 3), .lock .utp, .unlock .utp, .use .setSockopt, .unlock (.port 3)] :=
    ⟨_, .control 3 7 .connection 0,
      .locked (.right (.left (.seq (.right (.locked .skip)) (.seq (.right .use) (.left .skip)))))⟩
  have htimeout : ∃ a, Callback a ∧ a.Takes
      [.lock (.port 7), .lock .utp, .use .libutp, .unlock .utp, .unlock (.port 7)] :=
    ⟨_, .timeout 7 7 0, .locked (.right (.locked .use))⟩
  have run₀ := ((((Runs.Run.start machine (Calls Callback) (idle : State Nat Mutex Use)).next (.call 0 _)
    ⟨rfl, hsetopts⟩ rfl).next (.step 0) trivial rfl).next (.step 0) trivial rfl).next (.step 0) trivial rfl
  have run₁ := ((run₀.next (.call 1 _) ⟨rfl, htimeout⟩ rfl).next (.step 1) trivial rfl).next (.step 1) trivial rfl
  exact ⟨_, _, _, _, run₁, rfl, rfl⟩

/-- A listener is closed, and its queue destroyed, while a datagram has the
main handler's port at that queue. -/
theorem destroyed_beside_input : ∃ (tr : Threads Nat Mutex Use) (s : State Nat Mutex Use)
    (t t' : List (Action Mutex Use)), Runs.Run machine (Calls Callback) [] idle tr s ∧
      s.rest 0 = .use (.destroyQueue 5) :: t ∧ s.rest 1 = .use (.acceptorQueue 5) :: t' := by
  have hstop : ∃ a, Callback a ∧ a.Takes
      [.lock (.port 3), .use (.destroyQueue 5), .lock .utp, .unlock .utp, .unlock (.port 3)] :=
    ⟨_, .stop 3 7 (.listener 5) 0,
      .locked (.seq (.right (.seq (.left .skip) (.seq .use (.left .skip)))) (.locked (.left .skip)))⟩
  have hinput : ∃ a, Callback a ∧ a.Takes [.lock (.port 7), .lock (.map 7), .use (.fdmap 7), .unlock (.map 7),
      .lock (.queue 5), .use (.acceptorQueue 5), .unlock (.queue 5), .unlock (.port 7)] :=
    ⟨_, .readyInput 7 7 (.listener 5) 0,
      .locked (.seq (.locked .use) (.right (.right (.locked (.seq .use (.left .skip))))))⟩
  have run₀ := ((Runs.Run.start machine (Calls Callback) (idle : State Nat Mutex Use)).next (.call 0 _)
    ⟨rfl, hstop⟩ rfl).next (.step 0) trivial rfl
  have run₁ := ((((((run₀.next (.call 1 _) ⟨rfl, hinput⟩ rfl).next (.step 1) trivial rfl).next (.step 1) trivial
    rfl).next (.step 1) trivial rfl).next (.step 1) trivial rfl).next (.step 1) trivial rfl)
  exact ⟨_, _, _, _, run₁, rfl, rfl⟩

end LockOrder

end GenUtp
