/-
One send into the write queue: which binaries `outputv` pushes, and the
number of bytes it announces to `UTP_Write`.

The number is `ev.size` and the header's, and is taken from neither the
entries nor the queue. An entry with bytes is copied; one without is skipped,
unless it has a binary, which is then pushed whole. So what is announced is
what is pushed only where no entry without bytes has a binary with some
(`Stray`); `enqueues_iff` gives the exact condition, for every queue.

An empty send pushes nothing, and no header either.
-/
import GenUtp.ActiveDelivery
import GenUtp.Port

namespace GenUtp

open Frames

namespace WriteQueue

/-- One `push_back` after the other. -/
def append (wq : WriteQueue) (bins : List (List UInt8)) : WriteQueue := bins.foldl pushBack wq

theorem append_eq (wq : WriteQueue) (bins : List (List UInt8)) :
    wq.append bins = ⟨wq.queue ++ bins, wq.sz + bins.flatten.length, wq.offset⟩ := by
  induction bins generalizing wq with
  | nil => simp [append]
  | cons bin bins ih =>
    show (wq.pushBack bin).append bins = _
    rw [ih]
    simp [pushBack, Nat.add_assoc]

theorem append_append (wq : WriteQueue) (bins bins' : List (List UInt8)) :
    wq.append (bins ++ bins') = (wq.append bins).append bins' := List.foldl_append

theorem append_inj {wq : WriteQueue} {bins bins' : List (List UInt8)} (h : wq.append bins = wq.append bins') :
    bins = bins' := by
  rw [append_eq, append_eq, mk.injEq] at h
  exact List.append_cancel_left h.1

end WriteQueue

namespace IoVec

/-- The binary an entry has pushed. -/
def pushed (v : IoVec) : List (List UInt8) := if v.base.length > 0 then [v.base] else v.bin.toList

/-- No bytes, but a binary with some. -/
def Stray (v : IoVec) : Prop := v.base = [] ∧ ∃ bin, v.bin = .some bin ∧ bin ≠ []

theorem pushIoVec_eq (wq : WriteQueue) (v : IoVec) : UtpHandler.pushIoVec wq v = wq.append v.pushed := by
  unfold UtpHandler.pushIoVec pushed
  split
  · rfl
  · cases v.bin <;> rfl

theorem pushIoVecs_eq (wq : WriteQueue) (iov : List IoVec) :
    iov.foldl UtpHandler.pushIoVec wq = wq.append (iov.flatMap pushed) := by
  induction iov generalizing wq with
  | nil => rfl
  | cons v iov ih => rw [List.foldl_cons, ih, pushIoVec_eq, List.flatMap_cons, WriteQueue.append_append]

theorem flatten_pushed {v : IoVec} (h : ¬v.Stray) : v.pushed.flatten = v.base := by
  unfold pushed
  split
  · simp
  · next hlen =>
    have hnil : v.base = [] := List.length_eq_zero_iff.1 (by omega)
    rw [hnil]
    cases hb : v.bin with
    | none => rfl
    | some bin =>
      have hbin : bin = [] := by
        by_contra hne
        exact h ⟨hnil, bin, hb, hne⟩
      simp [hbin]

theorem length_lt_pushed {v : IoVec} (h : v.Stray) : v.base.length < v.pushed.flatten.length := by
  obtain ⟨hnil, bin, hb, hne⟩ := h
  have hpos := List.length_pos_iff.2 hne
  simp [pushed, hnil, hb, hpos]

theorem length_le_pushed (v : IoVec) : v.base.length ≤ v.pushed.flatten.length := by
  by_cases h : v.Stray
  · exact (length_lt_pushed h).le
  · rw [flatten_pushed h]

theorem length_le_flatten (iov : List IoVec) :
    (iov.flatMap (·.base)).length ≤ (iov.flatMap pushed).flatten.length := by
  induction iov with
  | nil => exact Nat.le_refl _
  | cons v iov ih =>
    have hv := length_le_pushed v
    simp only [List.flatMap_cons, List.flatten_append, List.length_append]
    omega

theorem length_lt_flatten {iov : List IoVec} {v : IoVec} (hmem : v ∈ iov) (hv : v.Stray) :
    (iov.flatMap (·.base)).length < (iov.flatMap pushed).flatten.length := by
  obtain ⟨front, back, rfl⟩ := List.append_of_mem hmem
  have hlt := length_lt_pushed hv
  have hfront := length_le_flatten front
  have hback := length_le_flatten back
  simp only [List.flatMap_append, List.flatMap_cons, List.flatten_append, List.length_append]
  omega

/-- The bytes of some entries are pushed, and no others, exactly when none of
them is stray. -/
theorem flatten_pushed_iff (iov : List IoVec) :
    (iov.flatMap pushed).flatten = iov.flatMap (·.base) ↔ ∀ v ∈ iov, ¬v.Stray := by
  constructor
  · intro heq v hmem hv
    have hlt := length_lt_flatten hmem hv
    rw [heq] at hlt
    omega
  · intro hall
    induction iov with
    | nil => rfl
    | cons v iov ih =>
      obtain ⟨hv, hrest⟩ := List.forall_mem_cons.1 hall
      rw [List.flatMap_cons, List.flatMap_cons, List.flatten_append, flatten_pushed hv, ih hrest]

end IoVec

namespace ErlIOVec

/-- The binaries of a send. -/
def pushes (ev : ErlIOVec) (packet : Nat) (mem : Mem) : List (List UInt8) :=
  if ev.size > 0 then
    (if packet > 0 then [UtpHandler.lengthHeader packet ev.size mem] else []) ++ ev.iov.flatMap IoVec.pushed
  else []

/-- `write_total` -/
def writeTotal (ev : ErlIOVec) (packet : Nat) : Nat := if ev.size > 0 then packet + ev.size else 0

variable {ev : ErlIOVec} {packet : Nat} {mem : Mem}

theorem enqueueSend_pushes (wq : WriteQueue) (ev : ErlIOVec) (packet : Nat) (mem : Mem) :
    UtpHandler.enqueueSend wq packet ev mem = (wq.append (ev.pushes packet mem), ev.writeTotal packet) := by
  unfold UtpHandler.enqueueSend pushes writeTotal
  by_cases hs : ev.size > 0
  · rw [if_pos hs, if_pos hs, if_pos hs]
    by_cases hp : packet > 0
    · rw [if_pos hp, if_pos hp, IoVec.pushIoVecs_eq]
      rfl
    · obtain rfl : packet = 0 := by omega
      rw [if_neg hp, if_neg hp, IoVec.pushIoVecs_eq, List.nil_append, Nat.zero_add]
  · rw [if_neg hs, if_neg hs, if_neg hs]
    rfl

theorem pushes_empty (h : ev.size = 0) : ev.pushes packet mem = [] := by
  unfold pushes
  rw [if_neg (by omega)]

theorem flatten_pushes (hp : PacketSetting packet) (h : 0 < ev.size) :
    (ev.pushes packet mem).flatten = beBytes packet ev.size ++ (ev.iov.flatMap IoVec.pushed).flatten := by
  have hheader : UtpHandler.lengthHeader packet ev.size mem = beBytes packet ev.size := by
    have hmem : packet ∈ [0, 1, 2, 4] := by
      simpa [PacketSetting] using hp
    rw [UtpHandler.lengthHeader_eq, headerBytes, if_pos hmem]
  unfold pushes
  rw [if_pos h, List.flatten_append, hheader]
  by_cases h0 : packet > 0
  · simp [h0]
  · obtain rfl : packet = 0 := by omega
    rfl

/-- With a stray entry more is pushed than is announced: the rest stays in
front of the next send. -/
theorem writeTotal_lt (hp : PacketSetting packet) (hsize : ev.size = ev.payload.length) (h : 0 < ev.size) {v : IoVec}
    (hmem : v ∈ ev.iov) (hv : v.Stray) : ev.writeTotal packet < (ev.pushes packet mem).flatten.length := by
  have hlt := IoVec.length_lt_flatten hmem hv
  rw [flatten_pushes hp h, List.length_append, length_beBytes, writeTotal, if_pos h, hsize]
  exact Nat.add_lt_add_left hlt packet

end ErlIOVec

/-! ## One send -/

namespace Port

open UtpHandler

/-- A send in the writable state puts `want` on the write queue, answers
nothing yet, and has `UTP_Write` called for just that many bytes. -/
def Enqueues (h : UtpHandler) (p : Pid) (ev : ErlIOVec) (w : UtpWrite) (mem : Mem) (want : List UInt8) : Prop :=
  ∃ added n s, machine ⟨h, .none⟩ (.start (.outputv p ev w mem)) = .some (s, []) ∧
    s = ⟨{ h with writeQueue := h.writeQueue.append added }, .some (.write p n)⟩ ∧
    (∀ w' s' o, machine s (.resume w') = .some (s', o) → ∃ ws, o = .utp h.utp (.write n) :: ws) ∧
    added.flatten = want ∧ n = added.flatten.length

/-- The writable state. -/
structure Writable (h : UtpHandler) : Prop where
  status : h.status = .connected
  utp : h.utp ≠ .none
  writable : h.writable = true

variable {h : UtpHandler} {p : Pid} {ev : ErlIOVec} {w : UtpWrite} {mem : Mem} {want : List UInt8}

theorem machine_outputv (hw : Writable h) : machine ⟨h, .none⟩ (.start (.outputv p ev w mem)) =
    .some (⟨{ h with writeQueue := h.writeQueue.append (ev.pushes h.sockopts.packet mem) },
      .some (.write p (ev.writeTotal h.sockopts.packet))⟩, []) := by
  have hopen : ¬(h.status ≠ .connected ∨ h.utp = .none) := by
    simp [hw.status, hw.utp]
  simp only [machine, step, Event.inParts, begins, outputvTest, ErlIOVec.enqueueSend_pushes, if_true, if_neg hopen,
    if_pos hw.writable, Option.map_some]

theorem write_resumed {h : UtpHandler} {n : Nat} {w' : UtpWrite} {s' : Port} {o : List Effect}
    (hm : machine ⟨h, .some (.write p n)⟩ (.resume w') = .some (s', o)) :
    ∃ ws, o = .utp h.utp (.write n) :: ws := by
  cases machine_does hm with
  | wrote _ => exact ⟨_, rfl⟩

/-- What a send enqueues and announces, told apart. -/
theorem enqueues_pushes_iff (hw : Writable h) : Enqueues h p ev w mem want ↔
    (ev.pushes h.sockopts.packet mem).flatten = want ∧ ev.writeTotal h.sockopts.packet = want.length := by
  have hm : machine ⟨h, .none⟩ (.start (.outputv p ev w mem)) = _ := machine_outputv hw
  constructor
  · intro he
    obtain ⟨added, n, s, hm', rfl, -, rfl, hn⟩ := he
    obtain ⟨hs, -⟩ := Prod.mk.inj (Option.some.inj (hm.symm.trans hm'))
    obtain ⟨hh, hp⟩ := Port.mk.inj hs
    have hadded := WriteQueue.append_inj (congrArg UtpHandler.writeQueue hh)
    obtain ⟨-, htotal⟩ := Pending.write.inj (Option.some.inj hp)
    rw [hadded, htotal]
    exact ⟨rfl, hn⟩
  · intro he
    obtain ⟨rfl, htotal⟩ := he
    refine ⟨_, _, _, hm, rfl, ?_, rfl, htotal⟩
    intro w' s' o hm'
    obtain ⟨ws, rfl⟩ := write_resumed hm'
    exact ⟨ws, rfl⟩

variable (hw : Writable h) (hp : PacketSetting h.sockopts.packet) (hsize : ev.size = ev.payload.length)
include hw hp hsize

/-- **Header and payload are enqueued, and announced, exactly when** the send
is not empty (or has no header), and none of its entries is stray. -/
theorem enqueues_iff : Enqueues h p ev w mem (beBytes h.sockopts.packet ev.size ++ ev.payload) ↔
    (ev.size = 0 → h.sockopts.packet = 0) ∧ (0 < ev.size → ∀ v ∈ ev.iov, ¬v.Stray) := by
  rw [enqueues_pushes_iff hw, List.length_append, length_beBytes, ← hsize]
  unfold ErlIOVec.writeTotal
  by_cases hs : 0 < ev.size
  · rw [ErlIOVec.flatten_pushes hp hs, List.append_cancel_left_eq, if_pos hs]
    have hiff := IoVec.flatten_pushed_iff ev.iov
    constructor
    · intro he
      exact ⟨fun h0 => by omega, fun _ => hiff.1 he.1⟩
    · intro hc
      exact ⟨hiff.2 (hc.2 hs), rfl⟩
  · have h0 : ev.size = 0 := by omega
    have hnil : ev.payload = [] := List.length_eq_zero_iff.1 (by omega)
    rw [ErlIOVec.pushes_empty h0, if_neg hs, h0, hnil]
    constructor
    · intro he
      exact ⟨fun _ => by omega, fun h => by omega⟩
    · intro hc
      rw [hc.1 rfl]
      exact ⟨rfl, rfl⟩

/-- **Bytes enqueued are bytes announced.** A send puts header and payload on
the queue, an empty one nothing. -/
theorem outputv_enqueues (hstray : 0 < ev.size → ∀ v ∈ ev.iov, ¬v.Stray) :
    Enqueues h p ev w mem (if ev.size = 0 then [] else beBytes h.sockopts.packet ev.size ++ ev.payload) := by
  by_cases h0 : ev.size = 0
  · rw [if_pos h0, enqueues_pushes_iff hw, ErlIOVec.pushes_empty h0]
    unfold ErlIOVec.writeTotal
    rw [if_neg (by omega)]
    exact ⟨rfl, rfl⟩
  · rw [if_neg h0, enqueues_iff hw hp hsize]
    exact ⟨fun h => absurd h h0, hstray⟩

omit hw hp hsize

/-- A server in the writable state, which sends frames under two bytes. -/
def framingServer : UtpHandler := startServer { SockOpts.new with packet := 2 } 1

theorem framingServer_writable : Writable framingServer := ⟨rfl, by decide, rfl⟩

/-- Two entries and an empty one, and the header in front of them. -/
theorem outputv_enqueues_two : Enqueues framingServer 1 ⟨3, [⟨[7, 8], .none⟩, ⟨[], .some []⟩, ⟨[9], .some [9, 9]⟩]⟩
    .nothing (fun _ => 0) [0, 3, 7, 8, 9] :=
  outputv_enqueues framingServer_writable (.inr (.inr (.inl rfl))) rfl (by simp [IoVec.Stray])

/-- A send of no bytes: no header is enqueued for it. -/
theorem empty_send_enqueues_nothing : Writable framingServer ∧
    ¬Enqueues framingServer 1 ⟨0, []⟩ .nothing (fun _ => 0) (beBytes 2 0 ++ (ErlIOVec.mk 0 []).payload) := by
  refine ⟨framingServer_writable, fun he => ?_⟩
  obtain ⟨hflat, -⟩ := (enqueues_pushes_iff framingServer_writable).1 he
  revert hflat
  decide

end Port

end GenUtp
