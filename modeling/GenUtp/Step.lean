/-
What one event can do, rule by rule.

`Step h e o h'` lists every outcome of an event: the tests that lead to it,
the effects `o` in order, and the fields of `h` that change. `Emission` (what
`emit_read_buffer` does), `CloseUtp`, `Flush` and `Retry` are the parts that
several rules share. `machine_step` says that the machine does nothing else,
so that what holds of every rule holds of every step.

The rules follow the source: where a request changes the state before it
refuses its argument (`closeBadarg`), so does its rule.
-/
import GenUtp.Delivery
import GenUtp.UtpHandler

namespace GenUtp

open Segments

namespace UtpHandler

/-! ## Parts of a step -/

/-- `close_utp` -/
inductive CloseUtp (h : UtpHandler) : List Effect → UtpHandler → Prop
  | done {s} : h.utp = .some s → h.status ≠ .destroying → h.writeQueue.size = 0 →
      CloseUtp h [.utp (.some s) (.close 0)] { h with status := .closing, utp := .none }
  /-- No socket, or already destroyed, or the close waits for the queue. -/
  | skipped : (h.utp = .none ∨ h.status = .destroying ∨ h.writeQueue.size ≠ 0) → CloseUtp h [] h

/-- The `do_write` calls of one `UTP_Write`: what they hand over, and the
queue after. -/
def writes : WriteQueue → List Nat → Option (List Effect × WriteQueue)
  | wq, [] => .some ([], wq)
  | wq, count :: counts =>
    if count = 0 then writes wq counts
    else (wq.popBytes count).bind fun r =>
      (writes r.2 counts).map fun rest => (.written r.1 wq.size :: rest.1, rest.2)

/-- `UTP_STATE_WRITABLE` before its retry: the flush of the write queue. -/
inductive Flush (h : UtpHandler) (w : UtpWrite) : List Effect → UtpHandler → Prop
  | empty : h.writeQueue.size = 0 → Flush h w [] { h with writable := true }
  | wrote {ws wq} : h.writeQueue.size ≠ 0 →
      writes h.writeQueue (w.counts h.writeQueue.size) = .some (ws, wq) →
      Flush h w (.utp h.utp (.write h.writeQueue.size) :: ws)
        { h with writeQueue := wq, writable := w.ret h.writeQueue.size }

/-- The answer to a parked send, when there is room again. -/
inductive Retry (h : UtpHandler) : List Effect → UtpHandler → Prop
  | retried : h.writable = true → h.senderWaiting = true →
      Retry h [.send h.caller (.utpReply .retry)] { h with senderWaiting := false }
  | quiet : ¬(h.writable = true ∧ h.senderWaiting = true) → Retry h [] h

/-- The reply of a send that has to wait. -/
def parkReply (so : SockOpts) : SendReply :=
  if so.sendTmout = -1 then .wait else .waitFor so.sendTmout.toNat

/-- The buffer sizes `setopts` passes on: those it changed. -/
def bufferSets (utp : Option UTPSocket) (saved so : SockOpts) : List Effect :=
  (if saved.sndbuf ≠ so.sndbuf then [.utp utp (.setSockopt .sndbuf so.sndbuf)] else []) ++
    (if saved.recbuf ≠ so.recbuf then [.utp utp (.setSockopt .rcvbuf so.recbuf)] else [])

/-- `UTP_RBDrained`, when the driver queue is empty. -/
def drainedCall (utp : Option UTPSocket) (qsize : Nat) : List Effect :=
  if qsize = 0 then [.utp utp .rbDrained] else []

/-- A chunk on the driver queue, before it is delivered. -/
def received (h : UtpHandler) (bytes : List UInt8) : UtpHandler :=
  { h with queue := h.queue ++ [bytes], readCount := h.readCount ++ [bytes.length] }

/-- `stop_input` of a selected socket. -/
def deselect (h : UtpHandler) : List Effect := if h.selected then [.stopInput] else []

/-- The test of `close`: a close opens, or is answered `ok`. -/
def closeOpens (h : UtpHandler) : Prop :=
  h.closePending = false ∧ (h.eofSeen = true ∨ (h.status ≠ .closing ∧ h.status ≠ .destroying))

/-- A close that opens, before its argument is decoded. -/
def opened (h : UtpHandler) : UtpHandler := { h with status := .closing, closePending := true, eofSeen := false }

/-! ## What the parts put out

What holds of each kind of effect a part puts out holds of all it puts out.
-/

section Puts

variable {P : Effect → Bool}

theorem all_dataMessages (so : SockOpts) (receiver : Receiver) (ms : List Packet)
    (hP : ∀ m : Packet, P (dataMessage so m.1 m.2 receiver) = true) : (dataMessages so receiver ms).all P = true := by
  simp only [dataMessages, List.all_map, List.all_eq_true]
  exact fun m _ => hP m

theorem all_bufferSets (utp : Option UTPSocket) (saved so : SockOpts)
    (hP : ∀ opt val, P (.utp utp (.setSockopt opt val)) = true) : (bufferSets utp saved so).all P = true := by
  unfold bufferSets
  split <;> split <;> simp [hP]

theorem all_drainedCall (utp : Option UTPSocket) (qsize : Nat) (hP : P (.utp utp .rbDrained) = true) :
    (drainedCall utp qsize).all P = true := by
  unfold drainedCall
  split <;> simp [hP]

theorem all_deselect (h : UtpHandler) (hP : P .stopInput = true) : h.deselect.all P = true := by
  unfold deselect
  split <;> simp [hP]

theorem all_writes (hP : ∀ bytes queued, P (.written bytes queued) = true) : ∀ (counts : List Nat)
    {wq wq' : WriteQueue} {ws : List Effect}, writes wq counts = .some (ws, wq') → ws.all P = true
  | [], _, _, _, hw => by
    simp only [writes, Option.some.injEq, Prod.mk.injEq] at hw
    obtain ⟨rfl, -⟩ := hw
    rfl
  | count :: counts, _, _, _, hw => by
    simp only [writes] at hw
    split at hw
    · exact all_writes hP counts hw
    · simp only [Option.bind_eq_some_iff, Option.map_eq_some_iff, Prod.mk.injEq] at hw
      obtain ⟨r, -, rest, hrest, rfl, -⟩ := hw
      have hall : rest.1.all P = true := all_writes hP counts hrest
      rw [List.all_cons, hP, hall]
      rfl

theorem all_flush {h h' : UtpHandler} {w : UtpWrite} {o : List Effect} (hf : Flush h w o h')
    (hu : ∀ n, P (.utp h.utp (.write n)) = true) (hP : ∀ bytes queued, P (.written bytes queued) = true) :
    o.all P = true := by
  cases hf with
  | empty => rfl
  | wrote _ hws =>
    have hall := all_writes hP _ hws
    rw [List.all_cons, hu, hall]
    rfl

end Puts

/-! ## The rules -/

inductive Step (h : UtpHandler) : Event → List Effect → UtpHandler → Prop
  | outputvRefused {p ev w mem} : (h.status ≠ .connected ∨ h.utp = .none) →
      Step h (.outputv p ev w mem) [.send (.pid p) (.utpReply (.error .enotconn))] h
  | outputvAccepted {p ev w mem s wq n ws wq'} : h.status = .connected → h.utp = .some s → h.writable = true →
      enqueueSend h.writeQueue h.sockopts.packet ev mem = (wq, n) → writes wq (w.counts n) = .some (ws, wq') →
      Step h (.outputv p ev w mem) (.utp (.some s) (.write n) :: ws ++ [.send (.pid p) (.utpReply .ok)])
        { h with writeQueue := wq', writable := w.ret n }
  | outputvTimedOut {p ev w mem s} : h.status = .connected → h.utp = .some s → h.writable = false →
      h.sockopts.sendTmout = 0 → Step h (.outputv p ev w mem) [.send (.pid p) (.utpReply (.error .etimedout))] h
  | outputvParked {p ev w mem s} : h.status = .connected → h.utp = .some s → h.writable = false →
      h.sockopts.sendTmout ≠ 0 →
      Step h (.outputv p ev w mem) [.send (.pid p) (.utpReply (parkReply h.sockopts))]
        { h with caller := .pid p, senderWaiting := true }
  | recvBadarg {p buf mem} : (h.sockopts.active ≠ .activeFalse ∨ decodeRecv buf = .none) →
      Step h (.recv p buf mem) [.reply .badarg] h
  | recvSent {p buf mem len ref q o h'} : h.sockopts.active = .activeFalse → decodeRecv buf = .some (len, ref) →
      Emission h len (.proc (.pid p) (.some ref)) 1 mem true q o h' →
      Step h (.recv p buf mem) (o ++ drainedCall h.utp q ++ [.reply .wait]) h'
  | recvParked {p buf mem len ref q o h'} : h.sockopts.active = .activeFalse → decodeRecv buf = .some (len, ref) →
      Emission h len (.proc (.pid p) (.some ref)) 1 mem false q o h' →
      Step h (.recv p buf mem) (o ++ [.reply .wait])
        { h' with callerRef := .some ref, caller := .pid p, recvLen := len, receiverWaiting := true }
  | cancelSend {p} : Step h (.cancelSend p) [.reply .empty] { h with senderWaiting := false, caller := .nil }
  | cancelRecv {p} : Step h (.cancelRecv p) [.reply .empty] h.resetWaitingRecv
  | closeAnswered {p buf} : ¬h.closeOpens → Step h (.close p buf) [.reply .ok] h
  /-- The flags stay set. -/
  | closeBadarg {p buf} : h.closeOpens → decodeBinary buf = .none → Step h (.close p buf) [.reply .badarg] h.opened
  | closeOpened {p buf ref o h'} : h.closeOpens → decodeBinary buf = .some ref →
      CloseUtp { h.opened with callerRef := .some ref, caller := .pid p } o h' →
      Step h (.close p buf) (o ++ [.reply .wait]) h'
  | setoptsBadarg {p buf numericHost mem} :
      (∀ bin, decodeBinary buf = .some bin → h.sockopts.decodeAndMerge numericHost bin = .error .invalidArgument) →
      Step h (.setopts p buf numericHost mem) [.reply .badarg] h
  | setoptsQuiet {p buf numericHost mem bin so} : decodeBinary buf = .some bin →
      h.sockopts.decodeAndMerge numericHost bin = .ok so →
      sendOnSetopts h.sockopts.active so.active h.readCount = false →
      Step h (.setopts p buf numericHost mem) (bufferSets h.utp h.sockopts so ++ [.reply .ok])
        { h with sockopts := so }
  | setoptsEmit {p buf numericHost mem bin so sent q o h'} : decodeBinary buf = .some bin →
      h.sockopts.decodeAndMerge numericHost bin = .ok so →
      sendOnSetopts h.sockopts.active so.active h.readCount = true →
      Emission { h with sockopts := so } 0 .connected 0 mem sent q o h' →
      Step h (.setopts p buf numericHost mem) (o ++ bufferSets h.utp h.sockopts so ++ [.reply .ok]) h'
  | getopts {p buf r} : Step h (.getopts p buf) [.reply r] h
  | peernameRefused {p addr} : (h.status ≠ .connected ∨ h.utp = .none) →
      Step h (.peername p addr) [.reply (.error .enotconn)] h
  | peernameAnswered {p addr s r} : h.status = .connected → h.utp = .some s →
      Step h (.peername p addr) [.utp (.some s) .getPeerName, .reply r] h
  | validateAnswered {p buf r} : (h.kind = .server ∨ h.status ≠ .connectPending ∨ decodeBinary buf = .none) →
      r ≠ .wait → Step h (.connectValidate p buf) [.reply r] h
  | validateWaits {p buf ref} : h.kind = .client → decodeBinary buf = .some ref → h.status = .connectPending →
      Step h (.connectValidate p buf) [.reply .wait] { h with callerRef := .some ref }
  | validateFailed {p buf ref} : h.kind = .client → decodeBinary buf = .some ref → h.status = .connectFailed →
      Step h (.connectValidate p buf) [.reply (.error h.errorCode)] { h with status := .notConnected }
  | stopDeleted {o h'} : CloseUtp h o h' → h'.status = .destroying →
      Step h .stop (o ++ [.delete]) { h' with queue := [] }
  | stopped {o h'} : CloseUtp h o h' → h'.status ≠ .destroying →
      Step h .stop o { h' with queue := [], status := .stopped }
  | doReadNothing {mem} : Step h (.doRead [] mem) [] h
  | doReadQueued {bytes mem} : bytes ≠ [] → h.sockopts.active = .activeFalse → h.receiverWaiting = false →
      Step h (.doRead bytes mem) [] (h.received bytes)
  | doReadAnswers {bytes mem q o h'} : bytes ≠ [] → h.sockopts.active = .activeFalse → h.receiverWaiting = true →
      Emission (h.received bytes) h.recvLen (.proc h.caller h.callerRef) 1 mem true q o h' →
      Step h (.doRead bytes mem) (o ++ drainedCall h.utp q) h'.resetWaitingRecv
  | doReadShort {bytes mem} : bytes ≠ [] → h.sockopts.active = .activeFalse → h.receiverWaiting = true →
      (h.received bytes).deliverable h.recvLen mem = false → Step h (.doRead bytes mem) [] (h.received bytes)
  | doReadActive {bytes mem sent q o h'} : bytes ≠ [] → h.sockopts.active ≠ .activeFalse →
      Emission (h.received bytes) 0 .connected 1 mem sent q o h' →
      Step h (.doRead bytes mem) (o ++ drainedCall h.utp q) h'
  | doWrite {count ws wq} : writes h.writeQueue [count] = .some (ws, wq) →
      Step h (.doWrite count) ws { h with writeQueue := wq }
  | eof {w o h'} : h.status ≠ .stopped → CloseUtp { h with writeQueue := .new } o h' →
      Step h (.stateChange .eof w) o { h' with writable := false, eofSeen := true }
  | eofStopped {w} : h.status = .stopped →
      Step h (.stateChange .eof w) [] { h with writeQueue := .new, writable := false, eofSeen := true }
  | writable {w o₁ h₁ o₂ h₂} : Flush h w o₁ h₁ → Retry h₁ o₂ h₂ → h.closePending = false →
      Step h (.stateChange .writable w) (o₁ ++ o₂) h₂
  | writableCloses {w o₁ h₁ o₂ h₂ o₃ h₃} : Flush h w o₁ h₁ → Retry h₁ o₂ h₂ → h.closePending = true →
      CloseUtp h₂ o₃ h₃ → Step h (.stateChange .writable w) (o₁ ++ o₂ ++ o₃) h₃
  | connectAnswers {w ref} : h.callerRef = .some ref → h.status = .connectPending →
      Step h (.stateChange .connect w) [.output (.refOk ref)] { h with status := .connected, writable := true }
  | connects {w} : (h.callerRef = .none ∨ h.status ≠ .connectPending) →
      Step h (.stateChange .connect w) [] { h with status := .connected, writable := true }
  | destroyingAnswers {w ref} : h.status = .closing → h.callerRef = .some ref → h.closePending = true →
      Step h (.stateChange .destroying w)
        (h.deselect ++ [if h.caller ≠ .nil then .send h.caller (.refOk ref) else .output (.refOk ref)])
        { h with
          selected := false, caller := .nil, closePending := false, writable := false
          status := .destroying, eofSeen := false }
  | destroyingNotifies {w} : h.status = .closing → (h.callerRef = .none ∨ h.closePending = false) →
      Step h (.stateChange .destroying w)
        (h.deselect ++ if h.sockopts.active ≠ .activeFalse ∧ h.sizeq = 0 then [.output .utpClosed] else [])
        { h with selected := false, writable := false, status := .destroying, eofSeen := false }
  | destroyingDeletes {w} : h.status = .stopped →
      Step h (.stateChange .destroying w) (h.deselect ++ [.delete]) { h with selected := false }
  | destroyingIgnored {w} : h.status ≠ .closing → h.status ≠ .stopped →
      Step h (.stateChange .destroying w) h.deselect { h with selected := false }
  | errorConnecting {e o} : h.status = .connectPending → (∀ x ∈ o, ∃ ref, x = .output (.refError ref e)) →
      Step h (.doError e) o { h with errorCode := e, status := .connectFailed }
  | errorReset {o h'} : h.status = .connected → CloseUtp { h with errorCode := .econnreset } o h' →
      Step h (.doError .econnreset) o h'
  | errorReported {e} : h.status = .connected → e ≠ .econnreset →
      Step h (.doError e) (if h.sockopts.active ≠ .activeFalse then [.output (.utpError e)] else [])
        { h with errorCode := e }
  | errorIgnored {e} : h.status ≠ .connectPending → h.status ≠ .connected →
      Step h (.doError e) [] { h with errorCode := e }
  | incomingIgnored {s} : (h.kind = .client ∨ h.utp ≠ .none) → Step h (.doIncoming s) [] h
  | incomingTaken {s} : h.kind = .server → h.utp = .none →
      Step h (.doIncoming s)
        [.utp (.some s) .setCallbacks, .utp (.some s) (.setSockopt .sndbuf utpSndbufDefault),
          .utp (.some s) (.setSockopt .rcvbuf utpRecbufDefault)]
        { h with utp := .some s, writable := true, status := .connected }

/-! ## The machine follows the rules

`x` is what the step has put out before the part at hand.
-/

variable {h : UtpHandler} {x : List Effect}

/-- `r` is what some rule for `e` leads to. -/
def Does (h : UtpHandler) (x : List Effect) (e : Event) (r : UtpHandler) : Prop :=
  ∃ o h', Step h e o h' ∧ r = { h' with out := x ++ o }

theorem closeUtp_cases (h : UtpHandler) (x : List Effect) :
    ∃ o h', CloseUtp h o h' ∧ { h with out := x }.closeUtp = { h' with out := x ++ o } := by
  simp only [closeUtp]
  split
  · next hc =>
    obtain ⟨s, hs⟩ := Option.ne_none_iff_exists'.1 hc.1
    split
    · next hq => exact ⟨[], h, .skipped (.inr (.inr hq)), by simp⟩
    · next hq => exact ⟨_, _, .done hs hc.2 (not_not.1 hq), by simp [emit, hs, not_not.1 hq]⟩
  · next hc => exact ⟨[], h, .skipped (by tauto), by simp⟩

theorem doWrites_eq : ∀ (counts : List Nat) {h : UtpHandler},
    counts.foldlM doWrite h = (writes h.writeQueue counts).map fun r =>
      { h with writeQueue := r.2, out := h.out ++ r.1 }
  | [], h => by simp [writes]
  | 0 :: counts, h => by
    simp only [List.foldlM_cons, doWrite, if_true, writes]
    exact doWrites_eq counts
  | (count + 1) :: counts, h => by
    simp only [List.foldlM_cons, doWrite, writes, Nat.add_eq_zero_iff, one_ne_zero, and_false, if_false]
    rcases h.writeQueue.popBytes (count + 1) with _ | r
    · rfl
    · simp only [Option.map_some, Option.bind_some, Option.bind_eq_bind, doWrites_eq counts, Option.map_map]
      congr 1
      funext r
      simp

theorem utpWrite_eq (h : UtpHandler) (w : UtpWrite) (n : Nat) :
    h.utpWrite w n = (writes h.writeQueue (w.counts n)).map fun r =>
      (w.ret n, { h with writeQueue := r.2, out := h.out ++ .utp h.utp (.write n) :: r.1 }) := by
  simp [utpWrite, doWrites_eq, emit, Function.comp_def]

theorem outputv_does {p : Pid} {ev : ErlIOVec} {w : UtpWrite} {mem : Mem} {r : UtpHandler}
    (hr : { h with out := x }.outputv p ev w mem = .some r) : Does h x (.outputv p ev w mem) r := by
  simp only [outputv] at hr
  split at hr
  · next hc =>
    obtain rfl := Option.some.inj hr
    exact ⟨_, _, .outputvRefused hc, rfl⟩
  next hc =>
  simp only [not_or, not_not] at hc
  obtain ⟨s, hs⟩ := Option.ne_none_iff_exists'.1 hc.2
  split at hr
  · next hw =>
    simp only [utpWrite_eq, Option.map_map, Option.map_eq_some_iff, Function.comp_def] at hr
    obtain ⟨⟨ws, wq'⟩, hws, rfl⟩ := hr
    rcases heq : enqueueSend h.writeQueue h.sockopts.packet ev mem with ⟨wq, n⟩
    rw [heq] at hws
    exact ⟨_, _, .outputvAccepted hc.1 hs hw heq hws, by simp [hs]⟩
  next hw =>
  have hw : h.writable = false := Bool.eq_false_iff.2 hw
  split at hr
  · next ht =>
    obtain rfl := Option.some.inj hr
    exact ⟨_, _, .outputvTimedOut hc.1 hs hw ht, rfl⟩
  · next ht =>
    obtain rfl := Option.some.inj hr
    exact ⟨_, _, .outputvParked hc.1 hs hw ht, rfl⟩

theorem recv_does {p : Pid} {buf : EiBuf} {mem : Mem} {r : UtpHandler}
    (hr : { h with out := x }.recv p buf mem = .some r) : Does h x (.recv p buf mem) r := by
  simp only [recv] at hr
  split at hr
  · next ha =>
    obtain rfl := Option.some.inj hr
    exact ⟨_, _, .recvBadarg (.inl ha), rfl⟩
  next ha =>
  split at hr
  · next hd =>
    obtain rfl := Option.some.inj hr
    exact ⟨_, _, .recvBadarg (.inr hd), rfl⟩
  next len ref hd =>
  obtain ⟨⟨sent, q, hm⟩, he, rfl⟩ := Option.map_eq_some_iff.1 hr
  obtain ⟨o, h', hem, hh'⟩ := emit_cases he
  simp only at hem hh'
  subst hh'
  rcases sent with _ | _
  · exact ⟨_, _, .recvParked (not_not.1 ha) hd hem, by simp [emit]⟩
  · have hutp : h'.utp = h.utp := by cases hem; rfl
    refine ⟨_, _, .recvSent (not_not.1 ha) hd hem, ?_⟩
    by_cases hq : q = 0 <;> simp [emit, hq, rbDrained, drainedCall, hutp]

theorem close_does {p : Pid} {buf : EiBuf} : Does h x (.close p buf) ({ h with out := x }.close p buf) := by
  simp only [close]
  split
  · next hc =>
    split
    · next hd => exact ⟨_, _, .closeBadarg hc hd, rfl⟩
    · next ref hd =>
      obtain ⟨o, h', hcl, heq⟩ := closeUtp_cases { h.opened with callerRef := .some ref, caller := .pid p } x
      refine ⟨_, _, .closeOpened hc hd hcl, ?_⟩
      rw [← List.append_assoc]
      exact congrArg (fun h : UtpHandler => h.emit (.reply .wait)) heq
  · next hc => exact ⟨_, _, .closeAnswered hc, rfl⟩

theorem setopts_does {p : Pid} {buf : EiBuf} {numericHost : List UInt8 → Bool} {mem : Mem} {r : UtpHandler}
    (hr : { h with out := x }.setopts buf numericHost mem = .some r) : Does h x (.setopts p buf numericHost mem) r := by
  simp only [setopts, Option.map_eq_some_iff] at hr
  obtain ⟨⟨reply, h'⟩, hs, rfl⟩ := hr
  simp only [socketSetopts] at hs
  split at hs
  · next hd =>
    obtain ⟨rfl, rfl⟩ := Prod.mk.inj (Option.some.inj hs)
    exact ⟨_, _, .setoptsBadarg (by simp [hd]), by simp [emit]⟩
  next bin hd =>
  split at hs
  · next hm =>
    obtain ⟨rfl, rfl⟩ := Prod.mk.inj (Option.some.inj hs)
    exact ⟨_, _, .setoptsBadarg (by simp [hd, hm]), by simp [emit]⟩
  · cases hs
  next so hm =>
  split at hs
  · next hsend =>
    obtain ⟨⟨sent, q, h''⟩, he, heq⟩ := Option.map_eq_some_iff.1 hs
    obtain ⟨rfl, rfl⟩ := Prod.mk.inj heq
    obtain ⟨o, h', hem, rfl⟩ := emit_cases (h := { h with sockopts := so }) he
    have hutp : h'.utp = h.utp := by cases hem <;> rfl
    have hbuf : h'.sockopts.sndbuf = so.sndbuf ∧ h'.sockopts.recbuf = so.recbuf := by
      cases hem <;> simp [delivered]
    refine ⟨_, _, .setoptsEmit hd hm hsend hem, ?_⟩
    by_cases h₁ : h.sockopts.sndbuf = so.sndbuf <;> by_cases h₂ : h.sockopts.recbuf = so.recbuf <;>
      simp [bufferSets, emit, hbuf, hutp, h₁, h₂]
  · next hsend =>
    obtain ⟨rfl, rfl⟩ := Prod.mk.inj (Option.some.inj hs)
    refine ⟨_, _, .setoptsQuiet hd hm (Bool.eq_false_iff.2 hsend), ?_⟩
    by_cases h₁ : h.sockopts.sndbuf = so.sndbuf <;> by_cases h₂ : h.sockopts.recbuf = so.recbuf <;>
      simp [bufferSets, emit, h₁, h₂]

theorem getopts_does {p : Pid} {buf : EiBuf} : Does h x (.getopts p buf) ({ h with out := x }.getopts buf) := by
  simp only [getopts]
  split
  · exact ⟨_, _, .getopts, rfl⟩
  · split <;> exact ⟨_, _, .getopts, rfl⟩

theorem peername_does {p : Pid} {addr : Except Errno (String × Nat)} :
    Does h x (.peername p addr) ({ h with out := x }.peername addr) := by
  simp only [peername]
  split
  · next hc => exact ⟨_, _, .peernameRefused hc, rfl⟩
  · next hc =>
    simp only [not_or, not_not] at hc
    obtain ⟨s, hs⟩ := Option.ne_none_iff_exists'.1 hc.2
    simp only [emit, hs, List.append_assoc, List.cons_append, List.nil_append]
    exact ⟨_, _, .peernameAnswered hc.1 hs, by rw [← hs]⟩

theorem connectValidate_does {p : Pid} {buf : EiBuf} :
    Does h x (.connectValidate p buf) ({ h with out := x }.connectValidate buf) := by
  simp only [connectValidate]
  split
  · next hk => exact ⟨_, _, .validateAnswered (.inl hk) (by simp), rfl⟩
  next hk =>
  split
  · next hd => exact ⟨_, _, .validateAnswered (.inr (.inr hd)) (by simp), rfl⟩
  next ref hd =>
  split
  · next hs => exact ⟨_, _, .validateWaits hk hd hs, rfl⟩
  · next hs => exact ⟨_, _, .validateFailed hk hd hs, rfl⟩
  · next hs => exact ⟨_, _, .validateAnswered (.inr (.inl (by simp [hs]))) (by simp), rfl⟩
  · next hs _ _ => exact ⟨_, _, .validateAnswered (.inr (.inl hs)) (by simp), rfl⟩

theorem stop_eq (h : UtpHandler) : h.stop =
    if h.closeUtp.status = .destroying then { h.closeUtp with queue := [] }.emit .delete
    else { h.closeUtp with queue := [], status := .stopped } := by
  have hclose : (if h.utp ≠ .none then h.closeUtp else h) = h.closeUtp := by
    split
    · rfl
    · next hu => rw [closeUtp, if_neg (fun hc => hu hc.1)]
  simp only [stop, hclose, driverDeq, sizeq, deqSegs_size]

theorem stop_does : Does h x .stop { h with out := x }.stop := by
  obtain ⟨o, h', hcl, heq⟩ := closeUtp_cases h x
  rw [stop_eq, heq]
  split
  · next hs => exact ⟨_, _, .stopDeleted hcl hs, by simp [emit]⟩
  · next hs => exact ⟨_, _, .stopped hcl hs, rfl⟩

theorem doRead_does {bytes : List UInt8} {mem : Mem} {r : UtpHandler}
    (hr : { h with out := x }.doRead bytes mem = .some r) : Does h x (.doRead bytes mem) r := by
  simp only [doRead, driverEnq] at hr
  split at hr
  next hb =>
    have hb : bytes ≠ [] := by simpa using hb
    by_cases ha : h.sockopts.active = .activeFalse
    · simp only [ha, if_true] at hr
      rcases hrw : h.receiverWaiting with _ | _
      · replace hr := (if_neg (by simp [hrw])).symm.trans hr
        obtain rfl := Option.some.inj hr
        exact ⟨_, _, .doReadQueued hb ha hrw, by simp [received]⟩
      · replace hr := (if_pos hrw).symm.trans hr
        obtain ⟨⟨sent, q, hm⟩, he, rfl⟩ := Option.map_eq_some_iff.1 hr
        obtain ⟨o, h', hem, hh'⟩ := emit_cases (h := h.received bytes) he
        simp only at hem hh'
        subst hh'
        cases hem with
        | closed _ h0 => exact absurd h0 (by simpa [sizeq, received] using fun _ => hb)
        | held _ hd =>
          refine ⟨_, _, .doReadShort hb ha hrw hd, ?_⟩
          rw [if_neg (by simpa [sizeq, received] using fun _ => hb)]
          simp
        | sent hd hm =>
          refine ⟨_, _, .doReadAnswers hb ha hrw (.sent hd hm), ?_⟩
          simp only [drainedCall, if_true]
          split <;> simp [rbDrained, emit, resetWaitingRecv, delivered, received]
    · simp only [ha, if_false] at hr
      obtain ⟨⟨sent, q, hm⟩, he, rfl⟩ := Option.map_eq_some_iff.1 hr
      obtain ⟨o, h', hem, hh'⟩ := emit_cases (h := h.received bytes) he
      simp only at hem hh'
      subst hh'
      have hutp : h'.utp = h.utp := by cases hem <;> rfl
      refine ⟨_, _, .doReadActive hb ha hem, ?_⟩
      simp only [drainedCall]
      split <;> simp [rbDrained, emit, hutp]
  next hb =>
    obtain rfl := Option.some.inj hr
    obtain rfl : bytes = [] := by simpa using hb
    exact ⟨_, _, .doReadNothing, by simp⟩

theorem doWrite_does {count : Nat} {r : UtpHandler} (hr : { h with out := x }.doWrite count = .some r) :
    Does h x (.doWrite count) r := by
  have hfold : [count].foldlM doWrite { h with out := x } = .some r := by simpa using hr
  rw [doWrites_eq] at hfold
  obtain ⟨⟨ws, wq⟩, hws, rfl⟩ := Option.map_eq_some_iff.1 hfold
  exact ⟨_, _, .doWrite hws, rfl⟩

theorem stateEof_does {w : UtpWrite} : Does h x (.stateChange .eof w) { h with out := x }.stateEof := by
  simp only [stateEof, WriteQueue.clear_eq]
  split
  · next hs =>
    obtain ⟨o, h', hcl, heq⟩ := closeUtp_cases { h with writeQueue := .new } x
    refine ⟨_, _, .eof hs hcl, ?_⟩
    exact congrArg (fun h : UtpHandler => { h with writable := false, eofSeen := true }) heq
  · next hs => exact ⟨_, _, .eofStopped (not_not.1 hs), by simp⟩

theorem retry_cases (h : UtpHandler) (x : List Effect) : ∃ o h', Retry h o h' ∧
    (if h.writable ∧ h.senderWaiting then
      { { h with out := x } with senderWaiting := false, out := x ++ [.send h.caller (.utpReply .retry)] }
    else { h with out := x }) = { h' with out := x ++ o } := by
  split
  · next hw => exact ⟨_, _, .retried hw.1 hw.2, rfl⟩
  · next hw => exact ⟨_, _, .quiet hw, by simp⟩

theorem afterFlush_does {w : UtpWrite} {o₁ : List Effect} {h₁ : UtpHandler} (hf : Flush h w o₁ h₁) :
    Does h x (.stateChange .writable w) { h₁ with out := x ++ o₁ }.afterFlush := by
  obtain ⟨o₂, h₂, hr, heq⟩ := retry_cases h₁ (x ++ o₁)
  have hcp : h₂.closePending = h.closePending := by cases hf <;> cases hr <;> rfl
  simp only [afterFlush, heq]
  split
  · next hc =>
    obtain ⟨o₃, h₃, hcl, heq⟩ := closeUtp_cases h₂ (x ++ o₁ ++ o₂)
    exact ⟨_, _, .writableCloses hf hr (hcp ▸ hc) hcl, by simpa using heq⟩
  · next hc => exact ⟨_, _, .writable hf hr (hcp ▸ Bool.eq_false_iff.2 hc), by simp⟩

theorem stateWritable_does {w : UtpWrite} {r : UtpHandler} (hr : { h with out := x }.stateWritable w = .some r) :
    Does h x (.stateChange .writable w) r := by
  simp only [stateWritable] at hr
  split at hr
  · next hsz =>
    simp only [utpWrite_eq, Option.map_map, Option.map_eq_some_iff, Function.comp_def] at hr
    obtain ⟨⟨ws, wq⟩, hws, rfl⟩ := hr
    exact afterFlush_does (.wrote hsz hws)
  · next hsz =>
    obtain rfl := Option.some.inj hr
    have := afterFlush_does (x := x) (.empty (w := w) (not_not.1 hsz))
    simpa using this

theorem stateConnect_does {w : UtpWrite} : Does h x (.stateChange .connect w) { h with out := x }.stateConnect := by
  simp only [stateConnect]
  split
  · next ref hr =>
    split
    · next hs => exact ⟨_, _, .connectAnswers hr hs, rfl⟩
    · next hs => exact ⟨_, _, .connects (.inr hs), by simp⟩
  · next hr => exact ⟨_, _, .connects (.inl hr), by simp⟩

theorem stateDestroying_does {w : UtpWrite} :
    Does h x (.stateChange .destroying w) { h with out := x }.stateDestroying := by
  have hsel : (if { h with out := x }.selected then
        { { h with out := x } with selected := false, out := x ++ [.stopInput] }
      else { h with out := x }) = { h with selected := false, out := x ++ h.deselect } := by
    by_cases hs : h.selected = true
    · simp [deselect, hs]
    · have hs : h.selected = false := Bool.eq_false_iff.2 hs
      rcases h
      simp_all [deselect]
  simp only [stateDestroying, hsel]
  split
  · next hs =>
    simp only [answerClose]
    split
    · next ref hr =>
      split
      · next hc => exact ⟨_, _, .destroyingAnswers hs hr hc, by simp⟩
      · next hc =>
        refine ⟨_, _, .destroyingNotifies hs (.inr (Bool.eq_false_iff.2 hc)), ?_⟩
        by_cases ha : h.sockopts.active = .activeFalse <;> by_cases h0 : size h.queue = 0 <;>
          simp [ha, h0, emitClosedMessage, emit, sizeq]
    · next hr =>
      refine ⟨_, _, .destroyingNotifies hs (.inl hr), ?_⟩
      by_cases ha : h.sockopts.active = .activeFalse <;> by_cases h0 : size h.queue = 0 <;>
        simp [ha, h0, emitClosedMessage, emit, sizeq]
  · next hs =>
    split
    · next hst => exact ⟨_, _, .destroyingDeletes hst, by simp [emit]⟩
    · next hst => exact ⟨_, _, .destroyingIgnored hs hst, rfl⟩

theorem doError_does {e : Errno} : Does h x (.doError e) ({ h with out := x }.doError e) := by
  simp only [doError]
  split
  · next hs =>
    split
    · next ref hr => exact ⟨_, _, .errorConnecting (o := [.output (.refError ref e)]) hs (by simp), rfl⟩
    · next hr => exact ⟨_, _, .errorConnecting (o := []) hs (by simp), by simp⟩
  · next hs =>
    split
    · next he =>
      subst he
      obtain ⟨o, h', hcl, heq⟩ := closeUtp_cases { h with errorCode := .econnreset } x
      exact ⟨_, _, .errorReset hs hcl, heq⟩
    · next he =>
      refine ⟨_, _, .errorReported hs he, ?_⟩
      split <;> simp [emit]
  · next h₁ h₂ => exact ⟨_, _, .errorIgnored h₁ h₂, by simp⟩

theorem doIncoming_does {s : UTPSocket} : Does h x (.doIncoming s) ({ h with out := x }.doIncoming s) := by
  simp only [doIncoming]
  split
  · next hk => exact ⟨_, _, .incomingIgnored (.inl hk), by simp⟩
  · next hk =>
    split
    · next hu => exact ⟨_, _, .incomingTaken hk hu, by simp [setUtpCallbacks, emit]⟩
    · next hu => exact ⟨_, _, .incomingIgnored (.inr hu), by simp⟩

theorem CloseUtp.out {o : List Effect} {h' : UtpHandler} (hc : CloseUtp h o h') : h'.out = h.out := by
  cases hc <;> rfl

theorem Emission.out {len : Nat} {receiver : Receiver} {qsize : Nat} {mem : Mem} {sent : Bool} {q : Nat}
    {o : List Effect} {h' : UtpHandler} (he : Emission h len receiver qsize mem sent q o h') : h'.out = h.out := by
  cases he <;> rfl

theorem Flush.out {w : UtpWrite} {o : List Effect} {h' : UtpHandler} (hf : Flush h w o h') : h'.out = h.out := by
  cases hf <;> rfl

theorem Retry.out {o : List Effect} {h' : UtpHandler} (hr : Retry h o h') : h'.out = h.out := by
  cases hr <;> rfl

theorem Step.out {e : Event} {o : List Effect} {h' : UtpHandler} (hs : Step h e o h') : h'.out = h.out := by
  cases hs with
  | recvSent _ _ he | recvParked _ _ he | doReadAnswers _ _ _ he | doReadActive _ _ he => exact he.out
  | setoptsEmit _ _ _ he => exact he.out
  | closeOpened _ _ hc | stopDeleted hc _ | stopped hc _ | eof _ hc | errorReset _ hc => exact hc.out
  | writable hf hr _ => exact hr.out.trans hf.out
  | writableCloses hf hr _ hc => exact hc.out.trans (hr.out.trans hf.out)
  | _ => rfl

/-- **The machine does what the rules say**, and nothing else. -/
theorem machine_step {e : Event} {o : List Effect} {h' : UtpHandler} (hm : machine h e = .some (h', o)) :
    Step h e o h' := by
  simp only [machine, Option.map_eq_some_iff, Prod.mk.injEq] at hm
  obtain ⟨r, hr, rfl, rfl⟩ := hm
  have key : Does h [] e r := by
    cases e with
    | outputv p ev w mem => exact outputv_does hr
    | recv p buf mem => exact recv_does hr
    | cancelSend p => exact Option.some.inj hr ▸ ⟨_, _, .cancelSend, rfl⟩
    | cancelRecv p => exact Option.some.inj hr ▸ ⟨_, _, .cancelRecv, rfl⟩
    | close p buf => exact Option.some.inj hr ▸ close_does
    | setopts p buf numericHost mem => exact setopts_does hr
    | getopts p buf => exact Option.some.inj hr ▸ getopts_does
    | peername p addr => exact Option.some.inj hr ▸ peername_does
    | connectValidate p buf => exact Option.some.inj hr ▸ connectValidate_does
    | stop => exact Option.some.inj hr ▸ stop_does
    | doRead bytes mem => exact doRead_does hr
    | doWrite count => exact doWrite_does hr
    | stateChange s w =>
      cases s with
      | connect => exact Option.some.inj hr ▸ stateConnect_does
      | writable => exact stateWritable_does hr
      | eof => exact Option.some.inj hr ▸ stateEof_does
      | destroying => exact Option.some.inj hr ▸ stateDestroying_does
    | doError e => exact Option.some.inj hr ▸ doError_does
    | doIncoming s => exact Option.some.inj hr ▸ doIncoming_does
  obtain ⟨o, h'', hs, rfl⟩ := key
  have hout := hs.out
  simpa [← hout] using hs

/-- A `setopts` whose options merge to `so` sets them, and may send under
them. -/
theorem Step.setopts_merged {p : Pid} {buf : EiBuf} {numericHost : List UInt8 → Bool} {mem : Mem} {bin : List UInt8}
    {so : SockOpts} {o : List Effect} {h' : UtpHandler} (hs : Step h (.setopts p buf numericHost mem) o h')
    (hd : decodeBinary buf = .some bin) (hm : h.sockopts.decodeAndMerge numericHost bin = .ok so) :
    (h' = { h with sockopts := so } ∧ o = bufferSets h.utp h.sockopts so ++ [.reply .ok]) ∨
      ∃ sent q o', Emission { h with sockopts := so } 0 .connected 0 mem sent q o' h' ∧
        o = o' ++ bufferSets h.utp h.sockopts so ++ [.reply .ok] := by
  cases hs with
  | setoptsBadarg hbad =>
    rw [hbad bin hd] at hm
    cases hm
  | setoptsQuiet hd' hm' =>
    obtain rfl := Option.some.inj (hd.symm.trans hd')
    obtain rfl := Except.ok.inj (hm.symm.trans hm')
    exact .inl ⟨rfl, rfl⟩
  | setoptsEmit hd' hm' _ hem =>
    obtain rfl := Option.some.inj (hd.symm.trans hd')
    obtain rfl := Except.ok.inj (hm.symm.trans hm')
    exact .inr ⟨_, _, _, hem, rfl⟩

end UtpHandler

end GenUtp
