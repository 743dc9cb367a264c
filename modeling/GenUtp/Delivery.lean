/-
What `emit_read_buffer` does, as one equation (`emitReadBuffer_eq`), and
every outcome of it as a case (`Emission`).

It delivers exactly when `deliverable` says so, a test on the state and the
length alone. `delivery` is what it then delivers: the messages, each with
the length announced for it, and the driver queue and chunk list it leaves.

The accounting is `delivery_plain`: while the chunk list adds up to the
driver queue, no length header is stripped, and no length is cut to 32 bits,
a delivery is defined, what it delivers is what leaves the queue, each
message has the length announced for it, and the chunk list still adds up.
-/
import GenUtp.SocketHandler

namespace GenUtp

open Segments

/-- `once` reverts to `false` after a delivery. -/
def SockOpts.reverted (so : SockOpts) : SockOpts :=
  if so.active = .activeOnce then { so with active := .activeFalse } else so

@[simp] theorem SockOpts.reverted_packet (so : SockOpts) : so.reverted.packet = so.packet := by
  unfold reverted; split <;> rfl
@[simp] theorem SockOpts.reverted_header (so : SockOpts) : so.reverted.header = so.header := by
  unfold reverted; split <;> rfl
@[simp] theorem SockOpts.reverted_sndbuf (so : SockOpts) : so.reverted.sndbuf = so.sndbuf := by
  unfold reverted; split <;> rfl
@[simp] theorem SockOpts.reverted_recbuf (so : SockOpts) : so.reverted.recbuf = so.recbuf := by
  unfold reverted; split <;> rfl
@[simp] theorem SockOpts.reverted_sendTmout (so : SockOpts) : so.reverted.sendTmout = so.sendTmout := by
  unfold reverted; split <;> rfl
@[simp] theorem SockOpts.reverted_deliveryMode (so : SockOpts) : so.reverted.deliveryMode = so.deliveryMode := by
  unfold reverted; split <;> rfl

theorem SockOpts.reverted_active (so : SockOpts) :
    so.reverted.active = if so.active = .activeOnce then .activeFalse else so.active := by
  unfold reverted; split <;> rfl

namespace UtpHandler

/-! ## What is delivered -/

/-- A message's buffer, and the length announced for it. -/
abbrev Packet := List UInt8 × Nat

/-- `emit_read_buffer` has something to deliver: enough bytes, and a whole
frame if the header announces one. -/
def deliverable (h : UtpHandler) (len : Nat) (mem : Mem) : Bool :=
  decide (h.sizeq ≠ 0 ∧ len ≤ h.sizeq ∧ h.sockopts.packet ≤ h.sizeq ∧
    (h.announced mem = 0 ∨ (h.sockopts.packet + h.announced mem) % 2 ^ 32 ≤ h.sizeq))

/-- The turns of the loop that take their length from the chunk list. -/
def takeChunks : Nat → List (List UInt8) → List Nat → Option (List Packet × List (List UInt8) × List Nat)
  | 0, queue, rc => .some ([], queue, rc)
  | _ + 1, _, [] => .none
  | n + 1, queue, c :: rc =>
    (takeChunks n (deqSegs (c % 2 ^ 32) queue) rc).map fun r =>
      ((takeSegs (c % 2 ^ 32) queue, c % 2 ^ 32) :: r.1, r.2)

theorem takeChunks_one {queue queue' : List (List UInt8)} {rc rc' : List Nat} {ms : List Packet}
    (ht : takeChunks 1 queue rc = .some (ms, queue', rc')) : ∃ m, ms = [m] := by
  rcases rc with _ | ⟨c, rc⟩
  · cases ht
  · exact ⟨_, (congrArg Prod.fst (Option.some.inj ht)).symm⟩

/-- One turn that may come with a buffer. -/
def takePacket (buf : List UInt8) (pktSize : Nat) (queue : List (List UInt8)) (rc : List Nat) :
    Option (List Packet × List (List UInt8) × List Nat) :=
  if buf.length = 0 then takeChunks 1 queue rc else .some ([(buf, pktSize)], queue, rc)

theorem takePacket_one {buf : List UInt8} {pktSize : Nat} {queue queue' : List (List UInt8)} {rc rc' : List Nat}
    {ms : List Packet} (ht : takePacket buf pktSize queue rc = .some (ms, queue', rc')) : ∃ m, ms = [m] := by
  unfold takePacket at ht
  split at ht
  · exact takeChunks_one ht
  · exact ⟨_, (congrArg Prod.fst (Option.some.inj ht)).symm⟩

/-- How many messages a delivery sends. -/
def packets (h : UtpHandler) (mem : Mem) : Nat :=
  if h.announced mem = 0 ∧ h.sockopts.active = .activeTrue then h.readCount.length else 1

/-- What is delivered, and the queue and the chunk list after. -/
def delivery (h : UtpHandler) (len : Nat) (mem : Mem) :
    Option (List Packet × List (List UInt8) × List Nat) :=
  if h.announced mem ≠ 0 then
    let queue := deqSegs h.sockopts.packet h.queue
    (reduceReadCount (h.announced mem) 0 h.readCount).bind
      (takePacket (takeSegs (h.announced mem) queue) (h.announced mem) (deqSegs (h.announced mem) queue))
  else if h.sockopts.active = .activeFalse then
    let pktSize := (if len = 0 then h.sizeq else len) % 2 ^ 32
    (if len = 0 then .some [] else reduceReadCount pktSize 0 h.readCount).bind
      (takePacket (takeSegs pktSize h.queue) pktSize (deqSegs pktSize h.queue))
  else takeChunks (h.packets mem) h.queue h.readCount

/-- Unless the socket is active for good, a delivery is one message. -/
theorem delivery_one {h : UtpHandler} {len : Nat} {mem : Mem} {ms : List Packet} {queue : List (List UInt8)}
    {rc : List Nat} (ha : h.sockopts.active ≠ .activeTrue) (hm : h.delivery len mem = .some (ms, queue, rc)) :
    ∃ m, ms = [m] := by
  rw [delivery] at hm
  split at hm
  · obtain ⟨_, -, ht⟩ := Option.bind_eq_some_iff.1 hm
    exact takePacket_one ht
  split at hm
  · obtain ⟨_, -, ht⟩ := Option.bind_eq_some_iff.1 hm
    exact takePacket_one ht
  · rw [packets, if_neg (fun h => ha h.2)] at hm
    exact takeChunks_one hm

theorem takeChunks_size_le : ∀ {n : Nat} {queue queue' : List (List UInt8)} {rc rc' : List Nat} {ms : List Packet},
    takeChunks n queue rc = .some (ms, queue', rc') → size queue' ≤ size queue
  | 0, _, _, _, _, _, ht => by
    obtain ⟨-, rfl, -⟩ := ht
    exact Nat.le_refl _
  | n + 1, _, _, [], _, _, ht => by cases ht
  | n + 1, queue, _, c :: rc, _, _, ht => by
    obtain ⟨⟨_, _, _⟩, hr, heq⟩ := Option.map_eq_some_iff.1 ht
    obtain ⟨-, rfl, -⟩ := heq
    exact (takeChunks_size_le hr).trans (size_deqSegs_le _ _)

theorem takePacket_size_le {buf : List UInt8} {pktSize : Nat} {queue queue' : List (List UInt8)} {rc rc' : List Nat}
    {ms : List Packet} (ht : takePacket buf pktSize queue rc = .some (ms, queue', rc')) : size queue' ≤ size queue := by
  unfold takePacket at ht
  split at ht
  · exact takeChunks_size_le ht
  · obtain ⟨-, rfl, -⟩ := ht
    exact Nat.le_refl _

theorem delivery_size_le {h : UtpHandler} {len : Nat} {mem : Mem} {ms : List Packet} {queue : List (List UInt8)}
    {rc : List Nat} (hm : h.delivery len mem = .some (ms, queue, rc)) : size queue ≤ h.sizeq := by
  rw [delivery] at hm
  split at hm
  · obtain ⟨_, -, ht⟩ := Option.bind_eq_some_iff.1 hm
    exact (takePacket_size_le ht).trans ((size_deqSegs_le _ _).trans (size_deqSegs_le _ _))
  split at hm
  · obtain ⟨_, -, ht⟩ := Option.bind_eq_some_iff.1 hm
    exact (takePacket_size_le ht).trans (size_deqSegs_le _ _)
  · exact takeChunks_size_le hm

def dataMessages (so : SockOpts) (receiver : Receiver) (ms : List Packet) : List Effect :=
  ms.map fun m => dataMessage so m.1 m.2 receiver

/-- The state after a delivery. -/
def delivered (h : UtpHandler) (queue : List (List UInt8)) (rc : List Nat) : UtpHandler :=
  { h with queue := queue, readCount := rc, sockopts := h.sockopts.reverted }

theorem emitLoop_eq {receiver : Receiver} : ∀ {n : Nat} {pktSize : Nat} {h : UtpHandler},
    emitLoop receiver n [] pktSize h.sizeq h = (takeChunks n h.queue h.readCount).map fun r =>
      (size r.2.1, { h with queue := r.2.1, readCount := r.2.2, out := h.out ++ dataMessages h.sockopts receiver r.1 })
  | 0, _, h => by simp [emitLoop, takeChunks, sizeq, dataMessages]
  | n + 1, _, h => by
    rcases hrc : h.readCount with _ | ⟨c, rc⟩
    · simp [emitLoop, takeChunks, hrc]
    · simp only [emitLoop, takeChunks, hrc, List.length_nil, if_true, moveReadData, driverDeq, emit]
      refine (emitLoop_eq (h := { h with
        queue := deqSegs (c % 2 ^ 32) h.queue
        readCount := rc
        out := h.out ++ [dataMessage h.sockopts (takeSegs (c % 2 ^ 32) h.queue) (c % 2 ^ 32) receiver] })).trans ?_
      simp [dataMessages, Function.comp_def]

theorem emitPackets_eq {receiver : Receiver} {n pktSize : Nat} {h : UtpHandler} :
    emitPackets receiver n [] pktSize h.sizeq h = (takeChunks n h.queue h.readCount).map fun r =>
      ⟨true, size r.2.1, { h.delivered r.2.1 r.2.2 with out := h.out ++ dataMessages h.sockopts receiver r.1 }⟩ := by
  simp only [emitPackets, emitLoop_eq, Option.map_map, Function.comp_def, delivered, SockOpts.reverted]
  congr 1
  funext r
  split <;> rfl

theorem emitPackets_one {receiver : Receiver} {buf : List UInt8} {pktSize : Nat} {h : UtpHandler} :
    emitPackets receiver 1 buf pktSize h.sizeq h = (takePacket buf pktSize h.queue h.readCount).map fun r =>
      ⟨true, size r.2.1, { h.delivered r.2.1 r.2.2 with out := h.out ++ dataMessages h.sockopts receiver r.1 }⟩ := by
  rcases buf with _ | ⟨b, buf⟩
  · exact emitPackets_eq
  · simp only [emitPackets, emitLoop, takePacket, List.length_cons, Nat.add_eq_zero_iff, one_ne_zero, and_false,
      if_false, Option.map_some, delivered, SockOpts.reverted, dataMessages, List.map_cons, List.map_nil, emit, sizeq]
    split <;> rfl

/-- **`emit_read_buffer` in one equation.** -/
theorem emitReadBuffer_eq (h : UtpHandler) (len : Nat) (receiver : Receiver) (qsize : Nat) (mem : Mem) :
    h.emitReadBuffer len receiver qsize mem =
      if h.closePending = true ∧ h.sizeq = 0 then
        .some ⟨false, qsize, { h with closePending := false, out := h.out ++ [.output .utpClosed] }⟩
      else if h.deliverable len mem then
        (h.delivery len mem).map fun r => ⟨true, size r.2.1,
          { h.delivered r.2.1 r.2.2 with out := h.out ++ dataMessages h.sockopts receiver r.1 }⟩
      else .some ⟨false, h.sizeq, h⟩ := by
  by_cases h0 : h.sizeq = 0
  · rcases hp : h.closePending <;> simp [emitReadBuffer, emitClosedMessage, deliverable, h0, hp, emit]
  have hclosed : ¬(h.closePending = true ∧ h.emitClosedMessage.1 = true) := by simp [emitClosedMessage, h0]
  simp only [emitReadBuffer, if_neg hclosed, if_neg (show ¬(h.closePending = true ∧ h.sizeq = 0) by simp [h0])]
  by_cases hs : h.sizeq = 0 ∨ h.sizeq < len ∨ h.sizeq < h.sockopts.packet
  · rw [if_pos hs, if_neg (by simp only [deliverable, decide_eq_true_eq]; omega)]
  rw [if_neg hs]
  by_cases ha : h.announced mem = 0
  · have hd : h.deliverable len mem = true := by simp only [deliverable, decide_eq_true_eq]; omega
    rw [if_neg (not_not.2 ha), if_pos hd, delivery, if_neg (not_not.2 ha)]
    by_cases hf : h.sockopts.active = .activeFalse
    · simp only [hf, if_true, Option.map_bind, reduceCtorEq, if_false]
      congr 1
      funext rc
      exact emitPackets_one (h := { h with readCount := rc }.driverDeq ((if len = 0 then h.sizeq else len) % 2 ^ 32))
    · simp only [hf, if_false, packets, ha, true_and]
      exact emitPackets_eq
  · rw [if_pos ha]
    by_cases hq : h.sizeq < (h.sockopts.packet + h.announced mem) % 2 ^ 32
    · rw [if_pos hq, if_neg (by simp only [deliverable, decide_eq_true_eq]; omega)]
    · have hd : h.deliverable len mem = true := by simp only [deliverable, decide_eq_true_eq]; omega
      rw [if_neg hq, if_pos hd, delivery, if_pos ha, Option.map_bind]
      congr 1
      funext rc
      exact emitPackets_one (h := { (h.driverDeq h.sockopts.packet).driverDeq (h.announced mem) with readCount := rc })

/-! ## Accounting -/

/-- The chunk list agrees with the driver queue, and no chunk is longer than
a `uint32_t` can say. -/
structure Agree (queue : List (List UInt8)) (rc : List Nat) : Prop where
  sum : rc.sum = size queue
  small : ∀ c ∈ rc, c < 2 ^ 32

/-- What leaves the queue is what the messages hold, under the length each
announces. -/
structure Moved (ms : List Packet) (queue queue' : List (List UInt8)) : Prop where
  bytes : ms.flatMap Prod.fst ++ queue'.flatten = queue.flatten
  lengths : ∀ m ∈ ms, m.2 = m.1.length

/-- A delivery that strips no header and cuts no length. -/
structure Plain (h : UtpHandler) (len : Nat) (mem : Mem) : Prop where
  agree : Agree h.queue h.readCount
  noHeader : h.announced mem = 0
  passive : h.sockopts.active = .activeFalse → len = 0 → h.sizeq < 2 ^ 32

theorem reduceReadCount_eq {k : Nat} : ∀ {i : Nat} (rc : List Nat), i ≤ k → k ≤ i + rc.sum →
    ∃ rc', reduceReadCount k i rc = .some rc' ∧ rc'.sum = i + rc.sum - k ∧
      ((∀ c ∈ rc, c < 2 ^ 32) → ∀ c ∈ rc', c < 2 ^ 32)
  | i, [], hi, hk => by
    simp only [List.sum_nil, Nat.add_zero] at hk
    exact ⟨[], by rw [reduceReadCount, if_neg (by omega)], by simp; omega, id⟩
  | i, c :: rc, hi, hk => by
    rw [List.sum_cons] at hk
    by_cases hlt : i < k
    · by_cases hc : i + c > k
      · refine ⟨(i + c - k) :: rc, by rw [reduceReadCount, if_pos hlt, if_pos hc], by simp; omega, ?_⟩
        intro hs x hx
        have hcs : c < 2 ^ 32 := hs c (by simp)
        rcases List.mem_cons.1 hx with rfl | hx
        · omega
        · exact hs x (by simp [hx])
      · obtain ⟨rc', hr, hsum, hsmall⟩ := reduceReadCount_eq rc (show i + c ≤ k by omega) (by omega)
        refine ⟨rc', by rw [reduceReadCount, if_pos hlt, if_neg hc, hr], by simp; omega, ?_⟩
        exact fun hs => hsmall fun x hx => hs x (by simp [hx])
    · exact ⟨c :: rc, by rw [reduceReadCount, if_neg hlt], by simp; omega, id⟩

theorem size_deqSegs {k : Nat} {queue : List (List UInt8)} (hk : k ≤ size queue) :
    size (deqSegs k queue) = size queue - k := by
  rw [deqSegs_eq hk, size_dropSegs]

theorem takeSegs_append_deqSegs {k : Nat} {queue : List (List UInt8)} (hk : k ≤ size queue) :
    takeSegs k queue ++ (deqSegs k queue).flatten = queue.flatten := by
  rw [deqSegs_eq hk, takeSegs_append_dropSegs]

theorem takeChunks_agree : ∀ {n : Nat} {queue : List (List UInt8)} {rc : List Nat}, n ≤ rc.length → Agree queue rc →
    ∃ ms queue', takeChunks n queue rc = .some (ms, queue', rc.drop n) ∧ Moved ms queue queue' ∧
      Agree queue' (rc.drop n)
  | 0, queue, rc, _, ha => ⟨[], queue, rfl, ⟨rfl, by simp⟩, ha⟩
  | n + 1, queue, c :: rc, hn, ha => by
    have hsum : c + rc.sum = size queue := by rw [← ha.sum, List.sum_cons]
    have hc : c % 2 ^ 32 = c := Nat.mod_eq_of_lt (ha.small c (by simp))
    have ha' : Agree (deqSegs c queue) rc :=
      ⟨by rw [size_deqSegs (by omega)]; omega, fun x hx => ha.small x (by simp [hx])⟩
    obtain ⟨ms, queue', ht, hm, hag⟩ := takeChunks_agree (n := n) (by simpa using hn) ha'
    refine ⟨(takeSegs c queue, c) :: ms, queue', by simp only [takeChunks, hc, ht]; rfl, ⟨?_, ?_⟩, hag⟩
    · rw [List.flatMap_cons, List.append_assoc, hm.bytes, takeSegs_append_deqSegs (by omega)]
    · simp only [List.forall_mem_cons]
      exact ⟨(length_takeSegs (by omega)).symm, hm.lengths⟩

/-- One message of `k` bytes, or of the next chunk when `k` is 0. -/
theorem takePacket_agree {k : Nat} {queue : List (List UInt8)} {rc : List Nat} (hk : k ≤ size queue)
    (h0 : size queue ≠ 0) (ha : Agree (deqSegs k queue) rc) :
    ∃ ms queue' rc', takePacket (takeSegs k queue) k (deqSegs k queue) rc = .some (ms, queue', rc') ∧
      Moved ms queue queue' ∧ Agree queue' rc' := by
  have hlen : (takeSegs k queue).length = k := length_takeSegs hk
  by_cases hk0 : k = 0
  · subst hk0
    have hrc : 1 ≤ rc.length := by
      have hsum : rc.sum = size queue := by rw [ha.sum, size_deqSegs hk, Nat.sub_zero]
      rcases rc with _ | ⟨c, rc⟩
      · exact absurd hsum.symm h0
      · simp
    obtain ⟨ms, queue', ht, hm, hag⟩ := takeChunks_agree hrc ha
    refine ⟨ms, queue', _, by rw [takePacket, if_pos hlen, ht], ⟨?_, hm.lengths⟩, hag⟩
    have hnil : takeSegs 0 queue = [] := List.length_eq_zero_iff.1 hlen
    rw [hm.bytes, ← takeSegs_append_deqSegs hk, hnil, List.nil_append]
  · refine ⟨[(takeSegs k queue, k)], deqSegs k queue, rc, by rw [takePacket, if_neg (by omega)], ⟨?_, ?_⟩, ha⟩
    · simpa using takeSegs_append_deqSegs hk
    · simp [hlen]

/-- **A plain delivery keeps the accounts**, and is defined. -/
theorem delivery_plain {h : UtpHandler} {len : Nat} {mem : Mem} (hd : h.deliverable len mem = true)
    (hp : h.Plain len mem) : ∃ ms queue rc, h.delivery len mem = .some (ms, queue, rc) ∧ Moved ms h.queue queue ∧
      Agree queue rc ∧ (h.sockopts.active = .activeTrue → queue.flatten = []) := by
  simp only [deliverable, decide_eq_true_eq] at hd
  obtain ⟨h0, hlen, -, -⟩ := hd
  have hsum := hp.agree.sum
  rw [delivery, if_neg (not_not.2 hp.noHeader)]
  by_cases hf : h.sockopts.active = .activeFalse
  · rw [if_pos hf]
    set k := (if len = 0 then h.sizeq else len) % 2 ^ 32 with hk
    have hkle : k ≤ size h.queue := by
      refine (Nat.mod_le _ _).trans ?_
      split <;> simp_all [sizeq]
    obtain ⟨rc, hrc, ha⟩ : ∃ rc, (if len = 0 then .some [] else reduceReadCount k 0 h.readCount) = .some rc ∧
        Agree (deqSegs k h.queue) rc := by
      by_cases hl : len = 0
      · have hall : k = size h.queue := by
          rw [hk, if_pos hl]
          exact Nat.mod_eq_of_lt (hp.passive hf hl)
        exact ⟨[], if_pos hl, by simp [hall], by simp⟩
      · obtain ⟨rc, hr, hrsum, hsmall⟩ :=
          reduceReadCount_eq h.readCount (Nat.zero_le k) (by omega)
        exact ⟨rc, by rw [if_neg hl, hr], by rw [hrsum, size_deqSegs hkle]; omega, hsmall hp.agree.small⟩
    obtain ⟨ms, queue, rc', ht, hm, hag⟩ := takePacket_agree hkle h0 ha
    exact ⟨ms, queue, rc', by simp only [hrc, Option.bind_some, ht], hm, hag, by simp [hf]⟩
  · rw [if_neg hf]
    have hrc : h.readCount ≠ [] := by
      intro hrc
      rw [hrc] at hsum
      exact h0 hsum.symm
    have hn : h.packets mem ≤ h.readCount.length := by
      have := List.length_pos_iff.2 hrc
      unfold packets
      split <;> omega
    obtain ⟨ms, queue, ht, hm, hag⟩ := takeChunks_agree hn hp.agree
    refine ⟨ms, queue, _, ht, hm, hag, fun htrue => ?_⟩
    have hpk : h.packets mem = h.readCount.length := if_pos ⟨hp.noHeader, htrue⟩
    rw [← size_eq_zero, ← hag.sum, hpk, List.drop_length, List.sum_nil]

/-! ## The outcomes -/

/-- The outcomes of `emit_read_buffer`: whether it sent, `new_qsize`, the
effects, and the state after. -/
inductive Emission (h : UtpHandler) (len : Nat) (receiver : Receiver) (qsize : Nat) (mem : Mem) :
    Bool → Nat → List Effect → UtpHandler → Prop
  /-- A pending close takes the `utp_closed` message. -/
  | closed : h.closePending = true → h.sizeq = 0 →
      Emission h len receiver qsize mem false qsize [.output .utpClosed] { h with closePending := false }
  | held : (h.closePending = true → h.sizeq ≠ 0) → h.deliverable len mem = false →
      Emission h len receiver qsize mem false h.sizeq [] h
  | sent {ms queue rc} : h.deliverable len mem = true → h.delivery len mem = .some (ms, queue, rc) →
      Emission h len receiver qsize mem true (size queue) (dataMessages h.sockopts receiver ms)
        (h.delivered queue rc)

/-- Every outcome is one of these. `x` is what the step has put out before. -/
theorem emit_cases {h : UtpHandler} {x : List Effect} {len : Nat} {receiver : Receiver} {qsize : Nat} {mem : Mem}
    {r : Emitted} (hr : { h with out := x }.emitReadBuffer len receiver qsize mem = .some r) :
    ∃ o h', Emission h len receiver qsize mem r.sent r.qsize o h' ∧ r.h = { h' with out := x ++ o } := by
  rw [emitReadBuffer_eq] at hr
  split at hr
  · next hc =>
    obtain rfl := (Option.some.inj hr).symm
    exact ⟨_, _, .closed hc.1 hc.2, rfl⟩
  next hc =>
  split at hr
  · next hd =>
    obtain ⟨⟨ms, queue, rc⟩, hm, rfl⟩ := Option.map_eq_some_iff.1 hr
    exact ⟨_, _, .sent hd hm, rfl⟩
  · next hd =>
    obtain rfl := (Option.some.inj hr).symm
    exact ⟨[], h, .held (fun hp h0 => hc ⟨hp, h0⟩) (Bool.eq_false_of_not_eq_true hd), by simp⟩

end UtpHandler

end GenUtp
