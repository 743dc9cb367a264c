/-
The length prefix of a frame in the driver queue: where `emit_read_buffer`
reads it, and what it makes of it.

It asks whether the whole queue is as long as the prefix, but reads the
prefix off the first segment, and the messages also go by the chunk counts
(`header_read_iff`). The sum it compares with the size of the queue is a
`uint32_t` (`frame_held_iff`). And a length of 0 is also how it says that
there is no prefix, so an empty frame comes out as raw data
(`recv_deframes_iff`).
-/
import GenUtp.ActiveDelivery
import GenUtp.HeaderSplit

namespace GenUtp

open Frames Segments

namespace UtpHandler

variable {h h' : UtpHandler} {mem mem' : Mem} {len qsize : Nat} {receiver : Receiver}

/-! ## The cuts of the queue -/

/-- Two handlers that differ in nothing but where the bytes of their queues
are cut: the segments, and the chunk counts. -/
structure Recut (h h' : UtpHandler) : Prop where
  bytes : h.queue.flatten = h'.queue.flatten
  rest : h' = { h with queue := h'.queue, readCount := h'.readCount }

theorem Recut.sockopts (hc : Recut h h') : h'.sockopts = h.sockopts := by
  rw [hc.rest]

theorem Recut.sizeq (hc : Recut h h') : h'.sizeq = h.sizeq := by
  simp only [UtpHandler.sizeq, size, hc.bytes]

theorem takeSegs_congr {q q' : List (List UInt8)} (hq : q.flatten = q'.flatten) (k : Nat) :
    takeSegs k q = takeSegs k q' := by
  rw [takeSegs_eq, takeSegs_eq, hq]

theorem deqSegs_congr {q q' : List (List UInt8)} (hq : q.flatten = q'.flatten) (k : Nat) :
    (deqSegs k q).flatten = (deqSegs k q').flatten := by
  rw [flatten_deqSegs, flatten_deqSegs, size, size, hq]

/-- The messages of the next chunks go by the bytes of the queue and by the
counts. -/
theorem takeChunks_congr : ∀ (n : Nat) {q q' : List (List UInt8)} {rc rc' : List Nat}, q.flatten = q'.flatten →
    rc.map (· % 2 ^ 32) = rc'.map (· % 2 ^ 32) →
    (takeChunks n q rc).map Prod.fst = (takeChunks n q' rc').map Prod.fst
  | 0, _, _, _, _, _, _ => rfl
  | n + 1, _, _, [], [], _, _ => rfl
  | n + 1, _, _, [], _ :: _, _, hrc => by cases hrc
  | n + 1, _, _, _ :: _, [], _, hrc => by cases hrc
  | n + 1, q, q', c :: rc, c' :: rc', hq, hrc => by
    obtain ⟨hc, hrc⟩ := List.cons.inj hrc
    have hc : c % 2 ^ 32 = c' % 2 ^ 32 := hc
    have ih := takeChunks_congr n (deqSegs_congr hq (c % 2 ^ 32)) hrc
    have hcons : ∀ (x : Option (List Packet × List (List UInt8) × List Nat)) (m : Packet),
        (x.map fun r => (m :: r.1, r.2)).map Prod.fst = (x.map Prod.fst).map (m :: ·) := by
      intro x m
      cases x <;> rfl
    rw [takeChunks, takeChunks, hcons, hcons, ih, takeSegs_congr hq, hc]

theorem takeChunks_counts : ∀ (rc : List Nat) (q : List (List UInt8)),
    (takeChunks rc.length q rc).map (fun r => r.1.map Prod.snd) = .some (rc.map (· % 2 ^ 32))
  | [], _ => rfl
  | c :: rc, q => by
    have ih := takeChunks_counts rc (deqSegs (c % 2 ^ 32) q)
    obtain ⟨r, hr, hcounts⟩ := Option.map_eq_some_iff.1 ih
    rw [List.length_cons, takeChunks, hr]
    simp [hcounts]

theorem takeChunks_head (q : List (List UInt8)) (rc : List Nat) :
    (takeChunks 1 q rc).map Prod.fst = (rc.head?.map (· % 2 ^ 32)).map fun c => [(takeSegs c q, c)] := by
  cases rc <;> rfl

/-- One message in place of an empty buffer tells the count it came with. -/
theorem chunk_eq_iff {q q' : List (List UInt8)} {c c' : Option Nat} (hq : q.flatten = q'.flatten) :
    (c.map fun c => [(takeSegs c q, c)]) = (c'.map fun c => [(takeSegs c q', c)]) ↔ c = c' := by
  have hsame : (fun c => [(takeSegs c q', c)]) = fun c => [(takeSegs c q, c)] := by
    funext c
    rw [takeSegs_congr hq]
  rw [hsame]
  refine (Option.map_injective fun a b hab => ?_).eq_iff
  exact (Prod.mk.inj (List.cons.inj hab).1).2

theorem reduceReadCount_none {k i : Nat} (rc : List Nat) (hk : i + rc.sum < k) : reduceReadCount k i rc = .none := by
  induction rc generalizing i with
  | nil => rw [reduceReadCount, if_pos (by simpa using hk)]
  | cons c rc ih =>
    rw [List.sum_cons] at hk
    rw [reduceReadCount, if_pos (by omega), if_neg (by omega), ih (by omega)]

theorem reduceReadCount_isSome {k : Nat} (rc : List Nat) : (reduceReadCount k 0 rc).isSome = true ↔ k ≤ rc.sum := by
  constructor
  · intro hsome
    by_contra hk
    rw [reduceReadCount_none rc (by omega)] at hsome
    cases hsome
  · intro hk
    obtain ⟨rc', hrc', -⟩ := reduceReadCount_eq rc (Nat.zero_le k) (by omega)
    rw [hrc']
    rfl

theorem bind_takePacket {k : Nat} {q : List (List UInt8)} (rc : List Nat) (hk : k ≠ 0) (hq : size q ≠ 0) :
    ((reduceReadCount k 0 rc).bind (takePacket (takeSegs k q) k (deqSegs k q))).map Prod.fst =
      if k ≤ rc.sum then .some [(takeSegs k q, k)] else .none := by
  have hlen : (takeSegs k q).length ≠ 0 := by
    rw [length_takeSegs_min]
    omega
  by_cases hsum : k ≤ rc.sum
  · obtain ⟨rc', hrc'⟩ := Option.isSome_iff_exists.1 ((reduceReadCount_isSome rc).2 hsum)
    rw [if_pos hsum, hrc', Option.bind_some, takePacket, if_neg hlen]
    rfl
  · rw [if_neg hsum, reduceReadCount_none rc (by omega)]
    rfl

/-- Nothing to take: a chunk takes the place of the message. -/
theorem bind_takePacket_empty {n k : Nat} {q : List (List UInt8)} (rc : List Nat) (he : k = 0 ∨ size q = 0) :
    ((reduceReadCount n 0 rc).bind (takePacket (takeSegs k q) k (deqSegs k q))).map Prod.fst =
      (nextCount n rc).map fun c => [(takeSegs c (deqSegs k q), c)] := by
  have hlen : (takeSegs k q).length = 0 := by
    rw [length_takeSegs_min]
    omega
  rw [nextCount]
  cases reduceReadCount n 0 rc with
  | none => rfl
  | some rc' => rw [Option.bind_some, Option.bind_some, takePacket, if_pos hlen, takeChunks_head]

theorem ite_some_eq_iff {α : Type} {m : α} {P P' : Prop} [Decidable P] [Decidable P'] :
    (if P then some m else none) = (if P' then some m else none) ↔ (P ↔ P') := by
  by_cases hP : P <;> by_cases hP' : P' <;> simp [hP, hP']

/-- What the messages go by, of the chunk counts, when the length announced
is `n`. Of a frame it is whether they reach its end. Without one they are the
lengths of what an active socket sends, and a passive one asks whether they
reach as far as it takes bytes. The next of them counts where a buffer is
empty, which takes a sum, or a length, that is cut to 32 bits. -/
def CountsAlike (h h' : UtpHandler) (n : Nat) : Prop :=
  if n ≠ 0 then
    (h.sockopts.packet + n) % 2 ^ 32 ≤ h.sizeq →
      if h.sizeq = h.sockopts.packet then nextCount n h.readCount = nextCount n h'.readCount
      else n ≤ h.readCount.sum ↔ n ≤ h'.readCount.sum
  else if h.sockopts.active = .activeTrue then h.readCount.map (· % 2 ^ 32) = h'.readCount.map (· % 2 ^ 32)
  else if h.sockopts.active = .activeFalse then
    (∀ k, 0 < k → k < 2 ^ 32 → k ≤ h.sizeq → (k ≤ h.readCount.sum ↔ k ≤ h'.readCount.sum)) ∧
      (2 ^ 32 ≤ h.sizeq → nextCount 0 h.readCount = nextCount 0 h'.readCount)
  else nextCount 0 h.readCount = nextCount 0 h'.readCount

theorem frame_messages_iff {n : Nat} (hc : Recut h h') (ha : h.announced mem = n) (ha' : h'.announced mem' = n)
    (hn : n ≠ 0) (hp : h.sockopts.packet ≤ h.sizeq) (len : Nat) :
    (h.delivery len mem).map Prod.fst = (h'.delivery len mem').map Prod.fst ↔
      if h.sizeq = h.sockopts.packet then nextCount n h.readCount = nextCount n h'.readCount
      else n ≤ h.readCount.sum ↔ n ≤ h'.readCount.sum := by
  have hbytes := deqSegs_congr hc.bytes h.sockopts.packet
  have hrest : size (deqSegs h.sockopts.packet h.queue) = h.sizeq - h.sockopts.packet := size_deqSegs hp
  have hrest' : size (deqSegs h.sockopts.packet h'.queue) = h.sizeq - h.sockopts.packet := by
    rw [size, ← hbytes, ← hrest, size]
  rw [delivery, delivery, ha, ha', if_pos hn, if_pos hn, hc.sockopts]
  by_cases hall : h.sizeq = h.sockopts.packet
  · rw [if_pos hall, bind_takePacket_empty _ (.inr (by omega)), bind_takePacket_empty _ (.inr (by omega))]
    exact chunk_eq_iff (deqSegs_congr hbytes n)
  · rw [if_neg hall, bind_takePacket _ hn (by omega), bind_takePacket _ hn (by omega), takeSegs_congr hbytes]
    exact ite_some_eq_iff

theorem passive_messages_iff (hc : Recut h h') (ha : h.announced mem = 0) (ha' : h'.announced mem' = 0)
    (hact : h.sockopts.active = .activeFalse) (h0 : h.sizeq ≠ 0) :
    (h.delivery len mem).map Prod.fst = (h'.delivery len mem').map Prod.fst ↔ (len ≠ 0 →
      if len % 2 ^ 32 = 0 then nextCount 0 h.readCount = nextCount 0 h'.readCount
      else len % 2 ^ 32 ≤ h.readCount.sum ↔ len % 2 ^ 32 ≤ h'.readCount.sum) := by
  have hsize : size h.queue ≠ 0 := h0
  have hsize' : size h'.queue ≠ 0 := by
    rw [size, ← hc.bytes]
    exact hsize
  rw [delivery, delivery, ha, ha', hc.sockopts, if_neg (not_not.2 rfl), if_neg (not_not.2 rfl), if_pos hact,
    if_pos hact]
  by_cases hl : len = 0
  · simp only [hl, if_true, hc.sizeq, Option.bind_some, ne_eq, not_true_eq_false, false_implies, iff_true]
    rw [takePacket, takePacket, length_takeSegs_min, length_takeSegs_min, size, size, ← hc.bytes,
      takeSegs_congr hc.bytes]
    split <;> rfl
  simp only [hl, if_false, ne_eq, not_false_eq_true, true_implies]
  by_cases hk : len % 2 ^ 32 = 0
  · rw [if_pos hk, hk, bind_takePacket_empty _ (.inl rfl), bind_takePacket_empty _ (.inl rfl)]
    exact chunk_eq_iff (deqSegs_congr hc.bytes 0)
  · rw [if_neg hk, bind_takePacket _ hk hsize, bind_takePacket _ hk hsize', takeSegs_congr hc.bytes]
    exact ite_some_eq_iff

theorem active_messages_iff (hc : Recut h h') (ha : h.announced mem = 0) (ha' : h'.announced mem' = 0)
    (hact : h.sockopts.active ≠ .activeFalse) :
    (h.delivery len mem).map Prod.fst = (h'.delivery len mem').map Prod.fst ↔
      if h.sockopts.active = .activeTrue then h.readCount.map (· % 2 ^ 32) = h'.readCount.map (· % 2 ^ 32)
      else nextCount 0 h.readCount = nextCount 0 h'.readCount := by
  rw [delivery, delivery, ha, ha', hc.sockopts, if_neg (not_not.2 rfl), if_neg (not_not.2 rfl), if_neg hact,
    if_neg hact, packets, packets, ha, ha', hc.sockopts]
  by_cases htrue : h.sockopts.active = .activeTrue
  · rw [if_pos ⟨rfl, htrue⟩, if_pos ⟨rfl, htrue⟩, if_pos htrue]
    constructor
    · intro hms
      have hlens := congrArg (Option.map (List.map Prod.snd)) hms
      simp only [Option.map_map, Function.comp_def, takeChunks_counts] at hlens
      exact Option.some.inj hlens
    · intro hcounts
      have hlen : h.readCount.length = h'.readCount.length := by
        simpa using congrArg List.length hcounts
      rw [hlen]
      exact takeChunks_congr _ hc.bytes hcounts
  · rw [if_neg fun hand => htrue hand.2, if_neg fun hand => htrue hand.2, if_neg htrue, takeChunks_head,
      takeChunks_head, nextCount, nextCount, reduceReadCount_zero, reduceReadCount_zero, Option.bind_some,
      Option.bind_some]
    exact chunk_eq_iff hc.bytes

theorem dataMessages_inj {so : SockOpts} {ms ms' : List Packet} :
    dataMessages so .connected ms = dataMessages so .connected ms' ↔ ms = ms' := by
  refine (List.map_injective_iff.2 fun m m' heq => ?_).eq_iff
  simp only [dataMessage, Effect.output.injEq, Msg.utp.injEq, Payload.mk.injEq] at heq
  exact Prod.ext heq.1 heq.2.1

theorem emitReadBuffer_out (h0 : h.sizeq ≠ 0) : (h.emitReadBuffer len receiver qsize mem).map (·.h.out) =
    if h.deliverable len mem = true then
      ((h.delivery len mem).map Prod.fst).map fun ms => h.out ++ dataMessages h.sockopts receiver ms
    else .some h.out := by
  rw [emitReadBuffer_eq, if_neg fun hand => h0 hand.2]
  split
  · simp [Option.map_map, Function.comp_def]
  · rfl

/-- Both handlers send the same, whatever a call asks for. -/
def SameMessages (h h' : UtpHandler) : Prop := ∀ len receiver qsize mem mem',
  (h.emitReadBuffer len receiver qsize mem).map (·.h.out) = (h'.emitReadBuffer len receiver qsize mem').map (·.h.out)

/-- A length that is read off the queue leaves the delivery to the queue. -/
theorem delivery_mem {mem mem' : Mem} (ha : h.announced mem = h.announced mem') (len : Nat) :
    h.deliverable len mem = h.deliverable len mem' ∧ h.delivery len mem = h.delivery len mem' := by
  simp only [deliverable, delivery, packets, ha, and_self]

/-- The same calls deliver, so it comes to what each delivers. -/
theorem sameMessages_iff_deliveries {n : Nat} (hc : Recut h h') (h0 : h.sizeq ≠ 0) (ha : ∀ mem, h.announced mem = n)
    (ha' : ∀ mem, h'.announced mem = n) (m : Mem) : SameMessages h h' ↔ ∀ len, h.deliverable len m = true →
      (h.delivery len m).map Prod.fst = (h'.delivery len m).map Prod.fst := by
  have hmem : ∀ len mem, h.deliverable len mem = h.deliverable len m ∧ h.delivery len mem = h.delivery len m :=
    fun len mem => delivery_mem ((ha mem).trans (ha m).symm) len
  have hmem' : ∀ len mem, h'.deliverable len mem = h'.deliverable len m ∧ h'.delivery len mem = h'.delivery len m :=
    fun len mem => delivery_mem ((ha' mem).trans (ha' m).symm) len
  have hd : ∀ len, h'.deliverable len m = h.deliverable len m := by
    intro len
    rw [deliverable, deliverable, ha, ha', hc.sizeq, hc.sockopts]
  have hout : h'.out = h.out := by
    rw [hc.rest]
  simp only [SameMessages, emitReadBuffer_out h0, emitReadBuffer_out (h := h') (hc.sizeq ▸ h0), hout, hc.sockopts,
    (hmem _ _).1, (hmem _ _).2, (hmem' _ _).1, (hmem' _ _).2, hd]
  constructor
  · intro hs len hdel
    have hms := hs len .connected 0 m m
    rw [if_pos hdel, if_pos hdel] at hms
    exact Option.map_injective (fun ms ms' heq => dataMessages_inj.1 (List.append_cancel_left heq)) hms
  · intro hs len receiver _ _ _
    split
    · next hdel => rw [hs len hdel]
    · rfl

/-- **The messages are the same exactly when the counts are alike.** -/
theorem sameMessages_iff {n : Nat} (hc : Recut h h') (h0 : h.sizeq ≠ 0) (hp : h.sockopts.packet ≤ h.sizeq)
    (ha : ∀ mem, h.announced mem = n) (ha' : ∀ mem, h'.announced mem = n) :
    SameMessages h h' ↔ CountsAlike h h' n := by
  let m : Mem := fun _ => 0
  have hdel : ∀ len, h.deliverable len m = true ↔
      len ≤ h.sizeq ∧ (n = 0 ∨ (h.sockopts.packet + n) % 2 ^ 32 ≤ h.sizeq) := by
    intro len
    rw [deliverable, ha, decide_eq_true_eq]
    tauto
  rw [sameMessages_iff_deliveries hc h0 ha ha' m, CountsAlike]
  simp only [hdel]
  by_cases hn : n ≠ 0
  · rw [if_pos hn]
    simp only [frame_messages_iff hc (ha m) (ha' m) hn hp]
    exact ⟨fun hs hwhole => hs 0 ⟨Nat.zero_le _, .inr hwhole⟩, fun hs len hd => hs (hd.2.resolve_left hn)⟩
  obtain rfl := not_not.1 hn
  rw [if_neg hn]
  by_cases hact : h.sockopts.active = .activeFalse
  · rw [if_neg (by simp [hact]), if_pos hact]
    simp only [passive_messages_iff hc (ha m) (ha' m) hact h0, true_or, and_true]
    constructor
    · intro hs
      refine ⟨fun k hpos hk hle => ?_, fun hbig => ?_⟩
      · have hk' := hs k hle (by omega)
        rwa [Nat.mod_eq_of_lt hk, if_neg (by omega)] at hk'
      · exact hs (2 ^ 32) hbig (by omega)
    · intro hs len hle hl
      split
      · next hk => exact hs.2 (by omega)
      · next hk => exact hs.1 _ (by omega) (Nat.mod_lt _ (by decide)) ((Nat.mod_le _ _).trans hle)
  · simp only [active_messages_iff hc (ha m) (ha' m) hact, if_neg hact, true_or, and_true]
    exact ⟨fun hs => hs 0 (Nat.zero_le _), fun hs _ _ => hs⟩

/-! ## Where the length is read -/

/-- What is to hold of the length in front of a queue: it is the number its
first bytes spell, and nothing else is looked at. -/
structure ReadsPrefix (h : UtpHandler) : Prop where
  value : ∀ mem, h.announced mem = beVal (h.queue.flatten.take h.sockopts.packet)
  inside : ∀ mem mem', h.announced mem = h.announced mem'

/-- A length that is cut by the end of the first segment depends on what lies
behind it. -/
theorem announced_reads_on (hp : h.sockopts.packet = 1 ∨ h.sockopts.packet = 2 ∨ h.sockopts.packet = 4)
    (hw : (h.queue.headD []).length < h.sockopts.packet) : h.announced (fun _ => 0) ≠ h.announced fun _ => 1 := by
  generalize hseg : h.queue.headD [] = seg at hw
  rcases hp with hp | hp | hp <;> rw [hp] at hw <;> simp only [announced, hp, hseg]
  · rcases seg with _ | ⟨a, seg⟩
    · decide
    · simp at hw
  · rcases seg with _ | ⟨a, _ | ⟨b, seg⟩⟩
    · decide
    · simp [beVal]
    · simp only [List.length_cons] at hw
      omega
  · rcases seg with _ | ⟨a, _ | ⟨b, _ | ⟨c, _ | ⟨d, seg⟩⟩⟩⟩ <;> simp [beVal] at hw ⊢ <;> omega

/-- **The length is read right exactly when the first segment holds all of
it.** -/
theorem readsPrefix_iff (hp : h.sockopts.packet = 1 ∨ h.sockopts.packet = 2 ∨ h.sockopts.packet = 4) :
    ReadsPrefix h ↔ h.sockopts.packet ≤ (h.queue.headD []).length := by
  constructor
  · intro hr
    by_contra hw
    exact announced_reads_on hp (Nat.not_le.1 hw) (hr.inside _ _)
  · intro hw
    have hread : ∀ mem, h.announced mem = headLen h.sockopts.packet h.queue.flatten :=
      fun mem => announced_eq (.inr hp) hw
    exact ⟨hread, fun mem mem' => by rw [hread, hread]⟩

theorem headD_length_le (q : List (List UInt8)) : (q.headD []).length ≤ size q := by
  cases q <;> simp [size]

/-- **Two cuts of one queue make no difference exactly when the first segment
of both holds the length and their chunk counts are alike.** -/
theorem header_read_iff (hp : h.sockopts.packet = 1 ∨ h.sockopts.packet = 2 ∨ h.sockopts.packet = 4)
    (hc : Recut h h') : ReadsPrefix h ∧ ReadsPrefix h' ∧ SameMessages h h' ↔
      h.sockopts.packet ≤ (h.queue.headD []).length ∧ h.sockopts.packet ≤ (h'.queue.headD []).length ∧
        CountsAlike h h' (beVal (h.queue.flatten.take h.sockopts.packet)) := by
  have hp' : h'.sockopts.packet = 1 ∨ h'.sockopts.packet = 2 ∨ h'.sockopts.packet = 4 := by
    rwa [hc.sockopts]
  rw [readsPrefix_iff hp, readsPrefix_iff hp', hc.sockopts]
  refine and_congr_right fun hw => and_congr_right fun hw' => ?_
  have hsize : h.sockopts.packet ≤ h.sizeq := hw.trans (headD_length_le _)
  refine sameMessages_iff hc (by omega) hsize ((readsPrefix_iff hp).2 hw).value fun mem => ?_
  rw [((readsPrefix_iff hp').2 (by rwa [hc.sockopts])).value, hc.sockopts, hc.bytes]

/-- A passive server with a length prefix. -/
def framedServer (p : Nat) : UtpHandler := startServer { SockOpts.new with packet := p, active := .activeFalse } 1

/-- One frame, in one chunk and in two. -/
theorem header_read_iff_two :
    let h := { framedServer 2 with queue := [[0, 1, 7]], readCount := [3] }
    let h' := { framedServer 2 with queue := [[0, 1], [7]], readCount := [2, 1] }
    ReadsPrefix h ∧ ReadsPrefix h' ∧ SameMessages h h' ↔
      (2 : Nat) ≤ [0, 1, 7].length ∧ (2 : Nat) ≤ [0, 1].length ∧ CountsAlike h h' 1 :=
  header_read_iff (h := { framedServer 2 with queue := [[0, 1, 7]], readCount := [3] }) (.inr (.inl rfl)) ⟨rfl, rfl⟩

/-- A chunk of one byte, and one with the rest of the frame: the second byte
of the length is whatever lies behind the first chunk. And where the length
is 0, chunks of one byte come out one by one, once the socket is active. -/
theorem prefix_cut : (∃ (h : UtpHandler) (mem : Mem),
    ((machine (framedServer 2) (.doRead [0] mem)).bind fun r => machine r.1 (.doRead [1, 7] mem)) = .some (h, []) ∧
    h.queue = [[0], [1, 7]] ∧ h.announced mem = 5 ∧ beVal (h.queue.flatten.take 2) = 1 ∧ ¬ReadsPrefix h) ∧
    ∃ (h h' : UtpHandler) (mem : Mem),
    ((machine (framedServer 1) (.doRead [0] mem)).bind fun r => machine r.1 (.doRead [7] mem)) = .some (h, []) ∧
    machine (framedServer 1) (.doRead [0, 7] mem) = .some (h', []) ∧ Recut h h' ∧ ReadsPrefix h ∧ ReadsPrefix h' ∧
    (∃ r, machine h (.setopts 1 [.version, .binary [10, 2]] (fun _ => false) mem) =
      .some (r, [.output (.utp ⟨[0], 1, 0, .dataList⟩), .output (.utp ⟨[7], 1, 0, .dataList⟩), .reply .ok])) ∧
    ∃ r, machine h' (.setopts 1 [.version, .binary [10, 2]] (fun _ => false) mem) =
      .some (r, [.output (.utp ⟨[0, 7], 2, 0, .dataList⟩), .reply .ok]) := by
  refine ⟨⟨_, fun _ => 5, rfl, rfl, rfl, rfl, fun hr => ?_⟩,
    ⟨_, _, fun _ => 5, rfl, rfl, ⟨rfl, rfl⟩, ?_, ?_, ⟨_, rfl⟩, ⟨_, rfl⟩⟩⟩
  · have hval := hr.value fun _ => 5
    revert hval
    decide
  · exact (readsPrefix_iff (.inl rfl)).2 (by decide)
  · exact (readsPrefix_iff (.inl rfl)).2 (by decide)

/-! ## Whether the frame is there -/

/-- The tests of `emit_read_buffer` up to `driver_deq` of the prefix. -/
def TakesFrame (h : UtpHandler) (len : Nat) (mem : Mem) : Prop :=
  ¬(h.sizeq = 0 ∨ h.sizeq < len ∨ h.sizeq < h.sockopts.packet) ∧ h.announced mem ≠ 0 ∧
    ¬h.sizeq < (h.sockopts.packet + h.announced mem) % 2 ^ 32

/-- What the calls after them rely on. -/
structure HoldsFrame (h : UtpHandler) (mem : Mem) : Prop where
  queue : h.sockopts.packet + h.announced mem ≤ h.sizeq
  moved : h.announced mem ≤ (h.driverDeq h.sockopts.packet).sizeq
  counted : h.announced mem ≤ h.readCount.sum

theorem emitReadBuffer_takesFrame (ht : h.TakesFrame len mem) : h.emitReadBuffer len receiver qsize mem =
    (reduceReadCount (h.announced mem) 0 h.readCount).bind fun rc =>
      let r := (h.driverDeq h.sockopts.packet).moveReadData (h.announced mem)
      emitPackets receiver 1 r.1 (h.announced mem) r.2.sizeq { r.2 with readCount := rc } := by
  obtain ⟨hsize, hann, hsum⟩ := ht
  have hclosed : ¬(h.closePending = true ∧ h.emitClosedMessage.1 = true) := by
    simp only [not_or] at hsize
    simp [emitClosedMessage, hsize.1]
  rw [emitReadBuffer, if_neg hclosed, if_neg hsize]
  simp only [if_pos hann, if_neg hsum]
  rfl

/-- **A frame is only taken when it is there, exactly when the sum of prefix
and length does not wrap on a queue that is too short** and the chunk counts
reach the length of a frame that is there. -/
theorem frame_held_iff (hp : PacketSetting h.sockopts.packet) : (h.TakesFrame len mem → HoldsFrame h mem) ↔
    h.announced mem = 0 ∨ h.sizeq < len ∨ h.sizeq < h.sockopts.packet ∨
      ((h.sockopts.packet + h.announced mem < 2 ^ 32 ∨ h.sockopts.packet + h.announced mem ≤ h.sizeq) ∧
      (h.sockopts.packet + h.announced mem ≤ h.sizeq → h.announced mem ≤ h.readCount.sum)) := by
  have hlt := announced_lt h mem
  have hp4 : h.sockopts.packet ≤ 4 := by
    rcases hp with hp | hp | hp | hp <;> omega
  have hraw : h.sockopts.packet = 0 → h.announced mem = 0 := fun h0 => announced_of_raw h0 mem
  have hmod := Nat.mod_le (h.sockopts.packet + h.announced mem) (2 ^ 32)
  constructor
  · intro hholds
    by_cases hearly : h.announced mem = 0 ∨ h.sizeq < len ∨ h.sizeq < h.sockopts.packet
    · tauto
    · refine .inr (.inr (.inr ⟨?_, ?_⟩))
      · by_contra hwrap
        have htakes : h.TakesFrame len mem := ⟨by omega, by omega, by omega⟩
        have := (hholds htakes).queue
        omega
      · intro hall
        exact (hholds ⟨by omega, by omega, by omega⟩).counted
  · intro hcond htakes
    obtain ⟨hsize, hann, hsum⟩ := htakes
    obtain ⟨hfits, hcount⟩ : (h.sockopts.packet + h.announced mem < 2 ^ 32 ∨
        h.sockopts.packet + h.announced mem ≤ h.sizeq) ∧
        (h.sockopts.packet + h.announced mem ≤ h.sizeq → h.announced mem ≤ h.readCount.sum) := by
      rcases hcond with h0 | hlen | hpacket | hcond
      · exact absurd h0 hann
      · exact absurd (.inr (.inl hlen)) hsize
      · exact absurd (.inr (.inr hpacket)) hsize
      · exact hcond
    have hqueue : h.sockopts.packet + h.announced mem ≤ h.sizeq := by
      rcases hfits with hfits | hfits
      · rw [Nat.mod_eq_of_lt hfits] at hsum
        omega
      · exact hfits
    refine ⟨hqueue, ?_, hcount hqueue⟩
    have hle : h.sockopts.packet ≤ size h.queue := Nat.le_trans (Nat.le_add_right _ _) hqueue
    rw [sizeq, driverDeq, size_deqSegs hle]
    exact Nat.le_sub_of_add_le' hqueue

/-- A passive server with a length prefix and one chunk in its queue. -/
def holdingServer (p : Nat) (chunk : List UInt8) : UtpHandler :=
  { framedServer p with queue := [chunk], readCount := [chunk.length], out := [] }

theorem frame_held_iff_short :
    (TakesFrame (holdingServer 2 [0, 9, 7]) 0 (fun _ => 0) → HoldsFrame (holdingServer 2 [0, 9, 7]) fun _ => 0) ↔
    (9 : Nat) = 0 ∨ (3 : Nat) < 0 ∨ (3 : Nat) < 2 ∨
      (((2 : Nat) + 9 < 2 ^ 32 ∨ (2 : Nat) + 9 ≤ 3) ∧ ((2 : Nat) + 9 ≤ 3 → (9 : Nat) ≤ 3)) :=
  frame_held_iff (h := holdingServer 2 [0, 9, 7]) (.inr (.inr (.inl rfl)))

theorem wrapped_takesFrame (hp : h.sockopts.packet = 4) (hq : h.queue = [[255, 255, 255, 255]]) (mem : Mem) :
    h.announced mem = 4294967295 ∧ h.TakesFrame 0 mem := by
  have hann : h.announced mem = 4294967295 := by
    rw [announced, hp, hq]
    show beVal [255, 255, 255, 255] = 4294967295
    decide
  have hsize : h.sizeq = 4 := by
    rw [sizeq, hq]
    rfl
  refine ⟨hann, by omega, by omega, ?_⟩
  rw [hann, hsize, hp]
  omega

/-- Four bytes of 255 after a prefix of four announce a frame of 2³² - 1
bytes. It is taken off a queue that is empty by then, and the chunk counts
run out. -/
theorem length_wraps : ∃ h : UtpHandler, ∃ mem : Mem, h.sockopts.packet = 4 ∧ h.queue = [[255, 255, 255, 255]] ∧
    h.readCount = [4] ∧ h.announced mem = 4294967295 ∧ h.TakesFrame 0 mem ∧ ¬HoldsFrame h mem ∧
    h.emitReadBuffer 0 (.proc (.pid 1) .none) 1 mem = .none := by
  let h : UtpHandler := holdingServer 4 [255, 255, 255, 255]
  obtain ⟨hann, htakes⟩ := wrapped_takesFrame (h := h) rfl rfl fun _ => 0
  have hnot : ¬HoldsFrame h fun _ => 0 := fun hh => by
    have hqueue : h.sockopts.packet + h.announced (fun _ => 0) ≤ 4 := hh.queue
    rw [hann] at hqueue
    omega
  refine ⟨h, fun _ => 0, rfl, rfl, rfl, hann, htakes, hnot, ?_⟩
  have hrc : h.readCount = [4] := rfl
  rw [emitReadBuffer_takesFrame htakes, hann, hrc, reduceReadCount_none [4] (by simp)]
  rfl

/-- The chunk counts cover what a call takes off the queue: the frame that is
announced, and one chunk more when nothing of it is queued. -/
def Covers (h : UtpHandler) (mem : Mem) : Prop := h.TakesFrame 0 mem →
  if h.sizeq = h.sockopts.packet then (nextCount (h.announced mem) h.readCount).isSome = true
  else h.announced mem ≤ h.readCount.sum

theorem wrapped_not_covers (hp : h.sockopts.packet = 4) (hq : h.queue = [[255, 255, 255, 255]])
    (hrc : h.readCount = [4]) (mem : Mem) : ¬h.Covers mem := by
  obtain ⟨hann, htakes⟩ := wrapped_takesFrame hp hq mem
  intro hc
  have hsize : h.sizeq = h.sockopts.packet := by
    rw [sizeq, hq, hp]
    rfl
  have hnext := hc htakes
  rw [if_pos hsize, hann, hrc, nextCount, reduceReadCount_none [4] (by simp)] at hnext
  cases hnext

theorem takesFrame_iff : h.TakesFrame len mem ↔ h.deliverable len mem = true ∧ h.announced mem ≠ 0 := by
  simp only [TakesFrame, deliverable, decide_eq_true_eq]
  omega

theorem frame_isSome (hn : h.announced mem ≠ 0) (hp : h.sockopts.packet ≤ h.sizeq) (len : Nat) :
    (h.delivery len mem).isSome = true ↔
      if h.sizeq = h.sockopts.packet then (nextCount (h.announced mem) h.readCount).isSome = true
      else h.announced mem ≤ h.readCount.sum := by
  have hrest : size (deqSegs h.sockopts.packet h.queue) = h.sizeq - h.sockopts.packet := size_deqSegs hp
  rw [← Option.isSome_map (f := Prod.fst), delivery, if_pos hn]
  by_cases hall : h.sizeq = h.sockopts.packet
  · rw [if_pos hall, bind_takePacket_empty _ (.inr (by omega)), Option.isSome_map]
  · rw [if_neg hall, bind_takePacket _ hn (by omega)]
    split <;> simp_all

theorem takeChunks_isSome (n : Nat) (q : List (List UInt8)) {rc : List Nat} (hn : n ≤ rc.length) :
    (takeChunks n q rc).isSome = true := by
  induction n generalizing q rc with
  | zero => rfl
  | succ n ih =>
    cases rc with
    | nil => cases hn
    | cons c rc =>
      rw [takeChunks, Option.isSome_map]
      exact ih _ (Nat.le_of_succ_le_succ hn)

/-- **An active socket's call is defined exactly when the chunk counts cover
what it takes.** -/
theorem active_isSome_iff (hact : h.sockopts.active ≠ .activeFalse) (h0 : h.sizeq ≠ 0) (hrc : h.readCount ≠ []) :
    (h.emitReadBuffer 0 receiver qsize mem).isSome = true ↔ h.Covers mem := by
  rw [emitReadBuffer_eq, if_neg fun hand => h0 hand.2, Covers, takesFrame_iff]
  by_cases hd : h.deliverable 0 mem = true
  · rw [if_pos hd, Option.isSome_map]
    by_cases hn : h.announced mem = 0
    · refine iff_of_true ?_ fun hand => absurd hn hand.2
      have hlen : h.packets mem ≤ h.readCount.length := by
        have hpos := List.length_pos_iff.2 hrc
        unfold packets
        split <;> omega
      rw [delivery, if_neg (not_not.2 hn), if_neg hact]
      exact takeChunks_isSome _ _ hlen
    · have hp : h.sockopts.packet ≤ h.sizeq := by
        simp only [deliverable, decide_eq_true_eq] at hd
        omega
      rw [frame_isSome hn hp]
      exact ⟨fun hs _ => hs, fun hs => hs ⟨hd, hn⟩⟩
  · rw [if_neg hd]
    exact iff_of_true rfl fun hand => absurd hand.1 hd

/-! ## Passive frames -/

theorem recv_delivers {p : Pid} {buf : EiBuf} {ref : Ref} (hact : h.sockopts.active = .activeFalse)
    (hbuf : decodeRecv buf = .some (len, ref)) (hd : h.deliverable len mem = true) :
    machine h (.recv p buf mem) = (h.delivery len mem).map fun r =>
      ({ h.delivered r.2.1 r.2.2 with out := h.out },
        dataMessages h.sockopts (.proc (.pid p) (.some ref)) r.1 ++
          (if size r.2.1 = 0 then [.utp h.utp .rbDrained] else []) ++ [.reply .wait]) := by
  have h0 : h.sizeq ≠ 0 := by
    simp only [deliverable, decide_eq_true_eq] at hd
    exact hd.1
  have hem := emitReadBuffer_eq { h with out := [] } len (.proc (.pid p) (.some ref)) 1 mem
  rw [if_neg (fun hc => h0 hc.2), if_pos (show deliverable { h with out := [] } len mem = true from hd)] at hem
  simp only [machine, handle, recv, hact, hbuf, ne_eq, not_true_eq_false, if_false, hem, Option.map_map]
  have hdel : delivery { h with out := [] } len mem = h.delivery len mem := rfl
  rw [hdel]
  cases h.delivery len mem with
  | none => rfl
  | some r =>
    by_cases hq : size r.2.1 = 0 <;> simp [hq, emit, rbDrained, delivered]

theorem flatten_deqPrefix {payload rest : List UInt8} (hp : h.sockopts.packet ≤ h.sizeq)
    (hq : h.queue.flatten.drop h.sockopts.packet = payload ++ rest) :
    (deqSegs h.sockopts.packet h.queue).flatten = payload ++ rest := by
  rw [flatten_deqSegs, if_neg (show ¬size h.queue < _ from Nat.not_lt.2 hp), hq]

theorem delivery_frame_eq {payload rest : List UInt8} (hann : h.announced mem = payload.length)
    (hpos : 0 < payload.length) (hp : h.sockopts.packet ≤ h.sizeq)
    (hq : h.queue.flatten.drop h.sockopts.packet = payload ++ rest) :
    h.delivery len mem = (reduceReadCount payload.length 0 h.readCount).map fun rc =>
      ([(payload, payload.length)], deqSegs payload.length (deqSegs h.sockopts.packet h.queue), rc) := by
  have htake : takeSegs payload.length (deqSegs h.sockopts.packet h.queue) = payload := by
    rw [takeSegs_eq, flatten_deqPrefix hp hq, List.take_left]
  rw [delivery, hann, if_pos (by omega)]
  simp only [htake]
  cases reduceReadCount payload.length 0 h.readCount with
  | none => rfl
  | some rc => rw [Option.bind_some, takePacket, if_neg (by omega), Option.map_some]

/-- What is to happen to a `recv` without a length, in front of a whole
frame: the caller gets the payload, and the rest stays. -/
def Deframes (h : UtpHandler) (p : Pid) (buf : EiBuf) (mem : Mem) (ref : Ref) (payload rest : List UInt8) : Prop :=
  ∃ h' o pl, machine h (.recv p buf mem) = .some (h', o) ∧ payloads o = [pl] ∧
    .send (.pid p) (.refData (.some ref) pl) ∈ o ∧ pl.data = .some payload ∧ h'.queue.flatten = rest

theorem deframes_iff {p : Pid} {buf : EiBuf} {ref : Ref} {payload rest : List UInt8}
    (hact : h.sockopts.active = .activeFalse) (hbuf : decodeRecv buf = .some (0, ref))
    (hd : h.deliverable 0 mem = true) : Deframes h p buf mem ref payload rest ↔
      ∃ m queue rc, h.delivery 0 mem = .some ([m], queue, rc) ∧
        (⟨m.1, m.2, h.sockopts.header, .dataBinary⟩ : Payload).data = .some payload ∧ queue.flatten = rest := by
  rw [Deframes, recv_delivers hact hbuf hd]
  have hpay : ∀ (m : Packet) (queue : List (List UInt8)),
      payloads (dataMessages h.sockopts (.proc (.pid p) (.some ref)) [m] ++
        (if size queue = 0 then [.utp h.utp .rbDrained] else []) ++ [.reply .wait]) =
      [⟨m.1, m.2, h.sockopts.header, .dataBinary⟩] := by
    intro m queue
    by_cases hq : size queue = 0 <;>
      simp [payloads, dataMessages, dataMessage, Effect.payload, hq]
  constructor
  · intro hdef
    obtain ⟨h', o, pl, hm, hpl, -, hdata, hrest⟩ := hdef
    obtain ⟨⟨ms, queue, rc⟩, hdel, heq⟩ := Option.map_eq_some_iff.1 hm
    obtain ⟨m, rfl⟩ := delivery_one (by simp [hact]) hdel
    obtain ⟨rfl, rfl⟩ := Prod.mk.inj heq
    rw [hpay] at hpl
    obtain ⟨rfl, -⟩ := List.cons.inj hpl
    exact ⟨m, queue, rc, hdel, hdata, hrest⟩
  · intro hdel
    obtain ⟨m, queue, rc, hdel, hdata, hrest⟩ := hdel
    rw [hdel]
    exact ⟨_, _, _, rfl, hpay m queue, by simp [dataMessages, dataMessage], hdata, hrest⟩

theorem raw_ne_nil {m : Packet} {queue : List (List UInt8)} {rc : List Nat} {n : Nat}
    (hact : h.sockopts.active = .activeFalse) (hann : h.announced mem = 0)
    (hdel : h.delivery 0 mem = .some ([m], queue, rc)) :
    (⟨m.1, m.2, n, .dataBinary⟩ : Payload).data ≠ .some [] := by
  rw [delivery, if_neg (not_not.2 hann), if_pos hact] at hdel
  obtain ⟨rc', hrc, ht⟩ := Option.bind_eq_some_iff.1 hdel
  rw [if_pos rfl] at hrc ht
  cases hrc
  have hk : h.sizeq % 2 ^ 32 ≤ size h.queue := Nat.mod_le _ _
  have hlen := length_takeSegs hk
  unfold takePacket at ht
  split at ht
  · -- all chunk counts are gone
    cases ht
  · next hne =>
    cases ht
    rw [Payload.data_full hlen (Nat.mod_lt _ (by decide))]
    split
    · simpa [List.length_eq_zero_iff] using hne
    · simp

/-- A frame at the head of the queue is announced, is there, and goes on with
its payload. -/
theorem frame_ahead (mem : Mem) {payload rest : List UInt8}
    (hp : h.sockopts.packet = 1 ∨ h.sockopts.packet = 2 ∨ h.sockopts.packet = 4)
    (hfits : payload.length < 256 ^ h.sockopts.packet)
    (hq : h.queue.flatten = frame h.sockopts.packet payload ++ rest)
    (hw : h.sockopts.packet ≤ (h.queue.headD []).length) :
    h.announced mem = payload.length ∧ h.sockopts.packet + payload.length ≤ h.sizeq ∧
      h.queue.flatten.drop h.sockopts.packet = payload ++ rest := by
  refine ⟨?_, ?_, ?_⟩
  · rw [announced_eq (.inr hp) hw, hq, headLen_frame hfits]
  · simp [sizeq, size, hq, frame]
  · rw [hq, frame, List.append_assoc, List.drop_left' (length_beBytes _ _)]

/-- **A passive socket hands out the frame at the head of its queue exactly
when it is not empty**, no shorter than the header option, and covered by the
chunk counts. -/
theorem recv_deframes_iff {p : Pid} {buf : EiBuf} {ref : Ref} {payload rest : List UInt8}
    (hact : h.sockopts.active = .activeFalse)
    (hp : h.sockopts.packet = 1 ∨ h.sockopts.packet = 2 ∨ h.sockopts.packet = 4)
    (hbuf : decodeRecv buf = .some (0, ref)) (hfits : payload.length < 256 ^ h.sockopts.packet)
    (hq : h.queue.flatten = frame h.sockopts.packet payload ++ rest)
    (hw : h.sockopts.packet ≤ (h.queue.headD []).length) :
    Deframes h p buf mem ref payload rest ↔
      0 < payload.length ∧ h.sockopts.header ≤ payload.length ∧ payload.length ≤ h.readCount.sum := by
  obtain ⟨hann, hsize, hdrop⟩ := frame_ahead mem hp hfits hq hw
  have hd : h.deliverable 0 mem = true := by
    have hmod := Nat.mod_le (h.sockopts.packet + payload.length) (2 ^ 32)
    simp only [deliverable, hann, decide_eq_true_eq]
    omega
  have hlt : payload.length < 2 ^ 32 := hann ▸ announced_lt h mem
  rw [deframes_iff hact hbuf hd]
  by_cases hpos : 0 < payload.length
  · rw [delivery_frame_eq hann hpos (by omega) hdrop]
    by_cases hsum : payload.length ≤ h.readCount.sum
    · obtain ⟨rc, hrc, -⟩ := reduceReadCount_eq h.readCount (Nat.zero_le payload.length) (by omega)
      have hfull : (⟨payload, payload.length, h.sockopts.header, .dataBinary⟩ : Payload).data =
          if h.sockopts.header ≤ payload.length then .some payload else .none := Payload.data_full rfl hlt
      rw [hrc, Option.map_some]
      constructor
      · intro hdef
        obtain ⟨m, queue, rc', heq, hdata, -⟩ := hdef
        cases heq
        rw [hfull, Option.ite_none_right_eq_some] at hdata
        exact ⟨hpos, hdata.1, hsum⟩
      · intro hcond
        refine ⟨_, _, _, rfl, by rw [hfull, if_pos hcond.2.1], ?_⟩
        have hflat := flatten_deqPrefix (by omega) hdrop
        rw [flatten_deqSegs, if_neg (by simp [size, hflat]), hflat, List.drop_left]
    · rw [reduceReadCount_none h.readCount (by omega)]
      refine iff_of_false ?_ fun hcond => hsum hcond.2.2
      simp
  · refine iff_of_false ?_ fun hcond => hpos hcond.1
    intro hdef
    obtain ⟨m, queue, rc, hdel, hdata, -⟩ := hdef
    have hnil : payload = [] := List.length_eq_zero_iff.1 (by omega)
    rw [hnil] at hdata
    exact raw_ne_nil hact (by omega) hdel hdata

/-- `recv` without a length. -/
def recvAll (ref : Ref) : EiBuf := [.version, .tuple 2, .int 0, .binary ref]

theorem recv_deframes_iff_two : Deframes (holdingServer 1 [2, 7, 8, 9]) 3 (recvAll [5]) (fun _ => 0) [5] [7, 8] [9] ↔
    0 < [7, 8].length ∧ (0 : Nat) ≤ [7, 8].length ∧ [7, 8].length ≤ (4 : Nat) :=
  recv_deframes_iff (h := holdingServer 1 [2, 7, 8, 9]) (p := 3) rfl (.inl rfl) rfl (by decide) rfl (by decide)

/-- An empty frame comes out with its prefix and with all that follows. -/
theorem empty_frame_raw : ∃ h : UtpHandler,
    machine (holdingServer 1 [0, 7]) (.recv 3 (recvAll [5]) fun _ => 0) =
      .some (h, [.send (.pid 3) (.refData (.some [5]) ⟨[0, 7], 2, 0, .dataBinary⟩), .utp (.some 1) .rbDrained,
        .reply .wait]) ∧
    (holdingServer 1 [0, 7]).queue.flatten = frame 1 [] ++ [7] ∧
    ¬Deframes (holdingServer 1 [0, 7]) 3 (recvAll [5]) (fun _ => 0) [5] [] [7] := by
  refine ⟨_, rfl, rfl, fun hdef => ?_⟩
  obtain ⟨h', o, pl, hm, -, -, -, hrest⟩ := hdef
  cases hm
  cases hrest

end UtpHandler

end GenUtp
