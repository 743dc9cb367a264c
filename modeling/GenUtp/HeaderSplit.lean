/-
The header option: what `emit_read_buffer` puts into the term of a data
message.

The term is the first `header` bytes of the buffer as integers, then a
pointer to the rest and its length. The loop goes as far as the option says
and the length is a `uint32_t` difference, so the split is right exactly for
messages that are as long as the header. In `Supplied` that is said of the
queue a call takes them from (`header_split_iff`).
-/
import GenUtp.ReadStream

namespace GenUtp

open Frames Segments

/-- The payload part of a term: the integers, the place in the buffer of the
string or binary, and its length. -/
structure PayloadTerm where
  ints : List UInt8
  start : Nat
  len : Nat
  deriving DecidableEq, Repr

namespace Payload

/-- The loop over the header, with `p` the place in the buffer. -/
def headerLoop (buf : List UInt8) (mem : Mem) : Nat → Nat → List UInt8 × Nat
  | 0, p => ([], p)
  | n + 1, p =>
    let loop := headerLoop buf mem n (p + 1)
    (buf.getD p (mem p) :: loop.1, loop.2)

/-- The two branches build the payload alike. -/
def term (pl : Payload) (mem : Mem) : PayloadTerm :=
  let loop := headerLoop pl.buf mem pl.header 0
  ⟨loop.1, loop.2, pl.tailLen⟩

/-- The term is right: the first bytes are integers, the others follow, no
place outside the buffer is read, and the length is the difference it is
written as. -/
structure Split (pl : Payload) (mem : Mem) : Prop where
  ints : (pl.term mem).ints = pl.buf.take (min pl.header pl.buf.length)
  start : (pl.term mem).start = min pl.header pl.buf.length
  len : (pl.term mem).len = pl.buf.length - min pl.header pl.buf.length
  inside : (pl.term mem).start + (pl.term mem).len ≤ pl.buf.length
  difference : ((pl.term mem).len : Int) = pl.pktSize - pl.header

variable {pl : Payload} {mem : Mem}

theorem headerLoop_start (buf : List UInt8) (mem : Mem) : ∀ n p : Nat, (headerLoop buf mem n p).2 = p + n
  | 0, _ => rfl
  | n + 1, p => by
    simp only [headerLoop]
    rw [headerLoop_start]
    omega

theorem headerLoop_ints {buf : List UInt8} (mem : Mem) : ∀ {n p : Nat}, p + n ≤ buf.length →
    (headerLoop buf mem n p).1 = (buf.drop p).take n
  | 0, p, _ => by simp [headerLoop]
  | n + 1, p, h => by
    have hp : p < buf.length := by omega
    simp only [headerLoop]
    rw [headerLoop_ints mem (by omega), List.drop_eq_getElem_cons hp, List.take_succ_cons]
    simp [hp]

/-- **The split of one payload**, whose buffer has at most `pkt_size`
bytes. -/
theorem split_iff (hle : pl.buf.length ≤ pl.pktSize) (hlt : pl.pktSize < 2 ^ 32) :
    pl.Split mem ↔ pl.header ≤ pl.buf.length ∧ pl.pktSize = pl.buf.length := by
  have hstart : (pl.term mem).start = pl.header := by
    simp only [term, headerLoop_start, Nat.zero_add]
  have hlen : (pl.term mem).len = pl.tailLen := rfl
  constructor
  · intro hs
    have h₁ := hs.start
    have h₂ := hs.len
    have h₃ := hs.difference
    omega
  · intro hfit
    obtain ⟨hh, heq⟩ := hfit
    have htail : pl.tailLen = pl.buf.length - pl.header := by
      unfold tailLen
      omega
    have hints : (pl.term mem).ints = pl.buf.take pl.header := by
      simp only [term]
      rw [headerLoop_ints mem (by omega), List.drop_zero]
    rw [← Nat.min_eq_left hh] at hints
    refine ⟨hints, ?_, ?_, ?_, ?_⟩ <;> omega

theorem data_full (heq : pl.buf.length = pl.pktSize) (hlt : pl.pktSize < 2 ^ 32) :
    pl.data = if pl.header ≤ pl.pktSize then .some pl.buf else .none := by
  unfold data
  by_cases hh : pl.header ≤ pl.pktSize
  · have htail : pl.header + pl.tailLen = pl.buf.length := by
      unfold tailLen
      omega
    rw [htail, if_pos (Nat.le_refl _), if_pos hh, List.take_length]
  · have htail : pl.buf.length < pl.header + pl.tailLen := by
      omega
    rw [if_neg (by omega), if_neg hh]

end Payload

namespace UtpHandler

variable {h : UtpHandler} {mem : Mem} {len qsize : Nat} {receiver : Receiver}

/-! ## The buffers of a delivery -/

/-- A buffer holds at most what is announced for it. -/
def Sized (m : Packet) : Prop := m.1.length ≤ m.2 ∧ m.2 < 2 ^ 32

/-- A message that is announced with bytes has the header, and all of them. -/
def Whole (header : Nat) (m : Packet) : Prop := m.2 ≠ 0 → header ≤ m.1.length ∧ m.2 = m.1.length

/-- `k` bytes can be taken off a queue of `q` and split: they are there, and
are as long as the header. -/
def Fits (header k q : Nat) : Prop := k = 0 ∨ header ≤ k ∧ k ≤ q

/-- The count of the chunk that fills an empty buffer, once the counts are
reduced by `n`. -/
def nextCount (n : Nat) (rc : List Nat) : Option Nat := ((reduceReadCount n 0 rc).bind List.head?).map (· % 2 ^ 32)

theorem sized_takeSegs {k : Nat} (hk : k < 2 ^ 32) (q : List (List UInt8)) : Sized (takeSegs k q, k) := by
  refine ⟨?_, hk⟩
  rw [takeSegs_eq]
  exact List.length_take_le _ _

theorem length_takeSegs_min (k : Nat) (q : List (List UInt8)) : (takeSegs k q).length = min k (size q) := by
  rw [takeSegs_eq, List.length_take, size]

theorem whole_takeSegs {header k : Nat} {q : List (List UInt8)} :
    Whole header (takeSegs k q, k) ↔ Fits header k (size q) := by
  simp only [Whole, Fits, length_takeSegs_min]
  omega

theorem announced_lt (h : UtpHandler) (mem : Mem) : h.announced mem < 2 ^ 32 := by
  unfold announced
  extract_lets byte
  have hbyte : ∀ i, (byte i).toNat < 256 := fun i => UInt8.toNat_lt _
  have h₀ := hbyte 0
  have h₁ := hbyte 1
  have h₂ := hbyte 2
  have h₃ := hbyte 3
  split <;> simp [beVal] <;> omega

/-- The next chunks fit, one after the other. -/
def ChunksFit (header : Nat) : Nat → Nat → List Nat → Prop
  | 0, _, _ => True
  | _ + 1, _, [] => True
  | n + 1, q, c :: rc =>
    Fits header (c % 2 ^ 32) q ∧ ChunksFit header n (if q < c % 2 ^ 32 then q else q - c % 2 ^ 32) rc

theorem size_deqSegs_ite (k : Nat) (q : List (List UInt8)) :
    size (deqSegs k q) = if size q < k then size q else size q - k := by
  unfold deqSegs
  split
  · rfl
  · exact size_dropSegs k q

theorem takeChunks_whole (header : Nat) : ∀ {n : Nat} {queue queue' : List (List UInt8)} {rc rc' : List Nat}
    {ms : List Packet}, takeChunks n queue rc = .some (ms, queue', rc') →
      (∀ m ∈ ms, Sized m) ∧ ((∀ m ∈ ms, Whole header m) ↔ ChunksFit header n (size queue) rc)
  | 0, _, _, _, _, _, ht => by
    cases ht
    simp [ChunksFit]
  | _ + 1, _, _, [], _, _, ht => by cases ht
  | n + 1, queue, _, c :: rc, _, _, ht => by
    obtain ⟨⟨ms, q, rc'⟩, hr, heq⟩ := Option.map_eq_some_iff.1 ht
    cases heq
    obtain ⟨hsized, hwhole⟩ := takeChunks_whole header hr
    rw [size_deqSegs_ite] at hwhole
    rw [List.forall_mem_cons, List.forall_mem_cons, whole_takeSegs, hwhole]
    exact ⟨⟨sized_takeSegs (Nat.mod_lt _ (by decide)) queue, hsized⟩, Iff.rfl⟩

/-- One message off the queue, or a chunk where it would be empty. -/
theorem takePacket_whole (header : Nat) {k : Nat} {queue q' : List (List UInt8)} {rc rc' : List Nat}
    {ms : List Packet} (ht : takePacket (takeSegs k queue) k (deqSegs k queue) rc = .some (ms, q', rc'))
    (hk : k < 2 ^ 32) :
    (∀ m ∈ ms, Sized m) ∧ ((∀ m ∈ ms, Whole header m) ↔
      if k = 0 ∨ size queue = 0 then ChunksFit header 1 (size queue) rc else Fits header k (size queue)) := by
  unfold takePacket at ht
  split at ht
  · next hnil =>
    obtain ⟨hsized, hwhole⟩ := takeChunks_whole header ht
    refine ⟨hsized, hwhole.trans ?_⟩
    rw [length_takeSegs_min] at hnil
    have hsame : (if size queue < k then size queue else size queue - k) = size queue := by
      split <;> omega
    rw [size_deqSegs_ite, hsame, if_pos (by omega)]
  · next hne =>
    cases ht
    rw [length_takeSegs_min] at hne
    rw [if_neg (by omega), List.forall_mem_singleton, List.forall_mem_singleton, whole_takeSegs]
    exact ⟨sized_takeSegs hk queue, Iff.rfl⟩

/-- A chunk can fill an empty buffer when it has no bytes. -/
theorem chunksFit_empty {header n : Nat} {rc rc' : List Nat} (hred : reduceReadCount n 0 rc = .some rc') :
    ChunksFit header 1 0 rc' ↔ ∀ c ∈ nextCount n rc, c = 0 := by
  rw [nextCount, hred, Option.bind_some]
  cases rc' with
  | nil => simp [ChunksFit]
  | cons c rc' =>
    simp only [ChunksFit, Fits, List.head?_cons, Option.map_some, Option.mem_some_iff, forall_eq', and_true]
    omega

/-- What a call takes off the queue can be split: the frame that is
announced, what a `recv` is answered with, or the chunks of an active
socket. A chunk takes the place of an empty message, also of a frame of
which the queue has nothing but the prefix. -/
def Supplied (h : UtpHandler) (len : Nat) (mem : Mem) : Prop :=
  let header := h.sockopts.header
  let pktSize := (if len = 0 then h.sizeq else len) % 2 ^ 32
  if h.announced mem ≠ 0 then
    if h.sizeq = h.sockopts.packet then ∀ c ∈ nextCount (h.announced mem) h.readCount, c = 0
    else Fits header (h.announced mem) (h.sizeq - h.sockopts.packet)
  else if h.sockopts.active = .activeFalse then
    if pktSize = 0 then len ≠ 0 → ChunksFit header 1 h.sizeq h.readCount else Fits header pktSize h.sizeq
  else ChunksFit header (h.packets mem) h.sizeq h.readCount

theorem reduceReadCount_zero (rc : List Nat) : reduceReadCount 0 0 rc = .some rc := by
  cases rc <;> rfl

/-- **The messages of a delivery can be split exactly when what it takes
can.** -/
theorem delivery_whole {ms : List Packet} {queue : List (List UInt8)} {rc : List Nat}
    (hd : h.deliverable len mem = true) (hm : h.delivery len mem = .some (ms, queue, rc)) :
    (∀ m ∈ ms, Sized m) ∧ ((∀ m ∈ ms, Whole h.sockopts.header m) ↔ h.Supplied len mem) := by
  simp only [deliverable, decide_eq_true_eq] at hd
  obtain ⟨hsize, -, hpacket, -⟩ := hd
  unfold delivery at hm
  unfold Supplied
  extract_lets header pktSize
  split at hm
  · next ha =>
    obtain ⟨rc', hred, ht⟩ := Option.bind_eq_some_iff.1 hm
    obtain ⟨hsized, hwhole⟩ := takePacket_whole header ht (announced_lt h mem)
    have hrest : size (deqSegs h.sockopts.packet h.queue) = h.sizeq - h.sockopts.packet := size_deqSegs hpacket
    rw [if_pos ha]
    refine ⟨hsized, hwhole.trans ?_⟩
    rw [hrest]
    by_cases hall : h.sizeq = h.sockopts.packet
    · -- nothing of the frame is there
      rw [if_pos hall, if_pos (by omega), hall, Nat.sub_self]
      exact chunksFit_empty hred
    · rw [if_neg hall, if_neg (by omega)]
  · next ha =>
    rw [if_neg ha]
    split at hm
    · next hf =>
      obtain ⟨rc', hred, ht⟩ := Option.bind_eq_some_iff.1 hm
      change (if len = 0 then some [] else reduceReadCount pktSize 0 h.readCount) = some rc' at hred
      obtain ⟨hsized, hwhole⟩ := takePacket_whole header ht (Nat.mod_lt _ (by decide))
      rw [if_pos hf]
      refine ⟨hsized, hwhole.trans ?_⟩
      have hqueue : size h.queue ≠ 0 := hsize
      by_cases h0 : pktSize = 0
      · rw [if_pos (.inl h0), if_pos h0]
        by_cases hl : len = 0
        · rw [if_pos hl] at hred
          cases hred
          exact iff_of_true trivial fun hne => absurd hl hne
        · -- nothing has been taken: the loop goes on with the first chunk
          rw [if_neg hl, h0, reduceReadCount_zero] at hred
          cases hred
          exact ⟨fun hc _ => hc, fun hc => hc hl⟩
      · rw [if_neg h0, if_neg (by tauto)]
        exact Iff.rfl
    · next hf =>
      rw [if_neg hf]
      exact takeChunks_whole header hm

/-! ## The messages of a call -/

/-- **The payload of every message that is announced with bytes is split right
exactly when what the call takes off the queue is there** and is no shorter
than the header. -/
theorem header_split_iff (mem' : Mem) {r : Emitted} (hr : h.emitReadBuffer len receiver qsize mem = .some r) :
    ∃ o, r.h.out = h.out ++ o ∧ ((∀ pl ∈ payloads o, pl.pktSize ≠ 0 → pl.Split mem') ↔
      (h.deliverable len mem = true → h.Supplied len mem)) := by
  rw [emitReadBuffer_eq] at hr
  split at hr
  · next hclosed =>
    cases hr
    have hnot : ¬h.deliverable len mem = true := by simp [deliverable, hclosed.2]
    exact ⟨_, rfl, by simp [payloads, Effect.payload, hnot]⟩
  split at hr
  · next hd =>
    obtain ⟨⟨ms, queue, rc⟩, hm, rfl⟩ := Option.map_eq_some_iff.1 hr
    refine ⟨_, rfl, ?_⟩
    obtain ⟨hsized, hwhole⟩ := delivery_whole hd hm
    have hsplit : ∀ m ∈ ms, (packetPayload h.sockopts receiver m).Split mem' ↔
        h.sockopts.header ≤ m.1.length ∧ m.2 = m.1.length := by
      intro m hmem
      obtain ⟨hle, hlt⟩ := hsized m hmem
      cases receiver <;> exact Payload.split_iff hle hlt
    have hlen : ∀ m, (packetPayload h.sockopts receiver m).pktSize = m.2 := by
      intro m
      cases receiver <;> rfl
    simp only [payloads_dataMessages, List.forall_mem_map, hlen, hd, forall_const, ← hwhole]
    exact forall₂_congr fun m hmem => imp_congr_right fun _ => hsplit m hmem
  · next hd =>
    cases hr
    exact ⟨[], by simp, by simp [hd]⟩

/-- A server whose options ask for a header. -/
def headerServer (n : Nat) : UtpHandler :=
  startServer { SockOpts.new with header := n, deliveryMode := .dataBinary } 1

/-- The same server with one chunk of three bytes. -/
def headerQueue : UtpHandler := { headerServer 2 with queue := [[7, 8, 9]], readCount := [3], out := [] }

theorem header_split_iff_long : ∃ r o, headerQueue.emitReadBuffer 0 .connected 1 (fun _ => 0) = .some r ∧
    r.h.out = headerQueue.out ++ o ∧ ((∀ pl ∈ payloads o, pl.pktSize ≠ 0 → pl.Split fun _ => 0) ↔
      (headerQueue.deliverable 0 (fun _ => 0) = true → headerQueue.Supplied 0 fun _ => 0)) := by
  have hr : headerQueue.emitReadBuffer 0 .connected 1 (fun _ => 0) = .some _ := rfl
  obtain ⟨o, ho⟩ := header_split_iff (fun _ => 0) hr
  exact ⟨_, o, hr, ho⟩

/-- A message of one byte under a header of two: the second integer lies
behind the buffer, and the rest has a length of 2³² - 1. And after a frame the
chunk counts say one byte more than there is, which is announced over an empty
buffer. -/
theorem header_overruns : (∃ (h : UtpHandler) (pl : Payload),
    machine (headerServer 2) (.doRead [9] fun _ => 0) = .some (h, [.output (.utp pl), .utp (.some 1) .rbDrained]) ∧
    pl = ⟨[9], 1, 2, .dataBinary⟩ ∧ (pl.term fun _ => 5) = ⟨[9, 5], 2, 4294967295⟩ ∧ ¬pl.Split fun _ => 5) ∧
    ∃ (h : UtpHandler) (o : List Effect) (pl : Payload),
    ((machine (startServer { SockOpts.new with packet := 1 } 1) (.doRead [1, 7] fun _ => 0)).bind fun r =>
      (machine r.1 (.setopts 1 [.version, .binary [11, 0]] (fun _ => false) fun _ => 0)).bind fun r =>
        machine r.1 (.doRead [5] fun _ => 0)) = .some (h, o) ∧
    .output (.utp pl) ∈ o ∧ pl = ⟨[], 1, 0, .dataList⟩ ∧ ¬pl.Split fun _ => 5 := by
  refine ⟨⟨_, _, rfl, rfl, rfl, fun hs => ?_⟩, _, _, _, rfl, by decide, rfl, fun hs => ?_⟩
  · have hstart := hs.start
    revert hstart
    decide
  · have hlen := hs.len
    revert hlen
    decide

end UtpHandler

end GenUtp
