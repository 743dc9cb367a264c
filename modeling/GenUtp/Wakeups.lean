/-
Lost wakeups.

Three requests wait for a callback: a send for WRITABLE, a `recv` for enough
bytes, `connect_validate` for CONNECT or an error. Each tests first and
records that it waits later, so the callback can come in between: it finds
nobody to wake, and does not come again (`wakeups_lost`). A request that waits
can also be displaced, by one that overwrites its reference or by an option
that sends its bytes elsewhere.

`KeepsWakeups` leaves these steps out, and `no_lost_wakeup` says that there
are no others: in every run without them, nobody waits for something that is
there. The invariant is `WakeOk`, with one field for each flag and one for
each gap.

Of libutp it is assumed that CONNECT comes at most once, for a socket that
connects, and not after `UTP_Close`.
-/
import GenUtp.Port

namespace GenUtp

open Segments

namespace UtpHandler

variable {h h' : UtpHandler} {e : Event} {o : List Effect}

/-! ## What a whole step does to who waits -/

/-- The parts of a step that only write keep the receiver. -/
structure SameReader (h h' : UtpHandler) : Prop where
  kind : h'.kind = h.kind
  waiting : h'.receiverWaiting = h.receiverWaiting
  len : h'.recvLen = h.recvLen
  ref : h'.callerRef = h.callerRef
  queue : h'.queue = h.queue
  sockopts : h'.sockopts = h.sockopts

theorem SameReader.trans {h₁ h₂ h₃ : UtpHandler} (h₁₂ : SameReader h₁ h₂) (h₂₃ : SameReader h₂ h₃) :
    SameReader h₁ h₃ :=
  ⟨h₂₃.1.trans h₁₂.1, h₂₃.2.trans h₁₂.2, h₂₃.3.trans h₁₂.3, h₂₃.4.trans h₁₂.4, h₂₃.5.trans h₁₂.5,
    h₂₃.6.trans h₁₂.6⟩

theorem CloseUtp.reader (hc : CloseUtp h o h') : SameReader h h' := by
  cases hc <;> exact ⟨rfl, rfl, rfl, rfl, rfl, rfl⟩

theorem Flush.reader {w : UtpWrite} (hf : Flush h w o h') : SameReader h h' := by
  cases hf <;> exact ⟨rfl, rfl, rfl, rfl, rfl, rfl⟩

theorem Retry.reader (hr : Retry h o h') : SameReader h h' := by
  cases hr <;> exact ⟨rfl, rfl, rfl, rfl, rfl, rfl⟩

theorem Emission.size_le {len : Nat} {receiver : Receiver} {qsize : Nat} {mem : Mem} {sent : Bool} {q : Nat}
    (he : Emission h len receiver qsize mem sent q o h') : h'.sizeq ≤ h.sizeq := by
  cases he with
  | closed => exact Nat.le_refl _
  | held => exact Nat.le_refl _
  | sent _ hm => exact delivery_size_le hm

theorem Emission.kept {len : Nat} {receiver : Receiver} {qsize : Nat} {mem : Mem} {sent : Bool} {q : Nat}
    (he : Emission h len receiver qsize mem sent q o h') : h'.kind = h.kind ∧ h'.recvLen = h.recvLen ∧
    h'.callerRef = h.callerRef ∧ h'.sockopts.packet = h.sockopts.packet := by
  cases he <;> simp [delivered]

/-- What a whole step leaves of a `recv` that waits: nothing but a chunk adds
to the queue, and a chunk for a passive socket is tried on it. -/
structure Receives (h : UtpHandler) (e : Event) (h' : UtpHandler) : Prop where
  kind : h'.kind = h.kind
  flag : h'.receiverWaiting = true → h.receiverWaiting = true ∧ h'.recvLen = h.recvLen
  packet : h'.sockopts.packet = h.sockopts.packet ∨ ∃ p buf numericHost mem bin so,
    e = .setopts p buf numericHost mem ∧ decodeBinary buf = .some bin ∧
      h.sockopts.decodeAndMerge numericHost bin = .ok so ∧ h'.sockopts.packet = so.packet
  size : h'.sizeq ≤ h.sizeq + e.chunk.length
  tried : h'.receiverWaiting = true → h.sockopts.active = .activeFalse → h'.sockopts.packet = 0 →
    h'.sizeq ≤ h.sizeq ∨ h'.sizeq < max 1 h'.recvLen

theorem Receives.shrinks (hk : h'.kind = h.kind) (hw : h'.receiverWaiting = h.receiverWaiting)
    (hl : h'.recvLen = h.recvLen) (hp : h'.sockopts.packet = h.sockopts.packet) (hq : h'.sizeq ≤ h.sizeq) :
    Receives h e h' where
  kind := hk
  flag := fun hn => ⟨hw ▸ hn, hl⟩
  packet := .inl hp
  size := Nat.le_add_right_of_le hq
  tried := fun _ _ _ => .inl hq

theorem SameReader.receives (hs : SameReader h h') : Receives h e h' :=
  .shrinks hs.kind hs.waiting hs.len (congrArg _ hs.sockopts) (by simp only [sizeq, hs.queue]; exact Nat.le_refl _)

theorem sizeq_received (h : UtpHandler) (bytes : List UInt8) : (h.received bytes).sizeq = h.sizeq + bytes.length := by
  simp [sizeq, received]

theorem Receives.size_lt {n : Nat} (hr : Receives h e h') (hlt : h.sizeq < n)
    (hread : ∀ bytes mem, e = .doRead bytes mem → h.sizeq + bytes.length < n) : h'.sizeq < n := by
  have hsize := hr.size
  cases e with
  | doRead bytes mem => exact Nat.lt_of_le_of_lt hsize (hread bytes mem rfl)
  | _ => exact Nat.lt_of_le_of_lt hsize hlt

theorem short_of_held {len : Nat} {mem : Mem} (hd : h.deliverable len mem = false) (hp : h.sockopts.packet = 0) :
    h.sizeq < max 1 len := by
  simp only [deliverable, decide_eq_false_iff_not, announced_of_raw hp, hp] at hd
  omega

theorem receives_step (hs : Step h e o h') (he : e.inParts = false) : Receives h e h' := by
  cases hs with
  | cancelSend | closeAnswered | setoptsBadarg | getopts | peernameRefused | peernameAnswered | doReadNothing
  | doWrite | eofStopped | connectAnswers | connects | destroyingAnswers | destroyingNotifies | destroyingDeletes
  | destroyingIgnored | errorConnecting | errorReported | errorIgnored | incomingIgnored | incomingTaken
  | closeBadarg =>
    exact .shrinks rfl rfl rfl rfl (Nat.le_refl _)
  | cancelRecv => exact ⟨rfl, nofun, .inl rfl, Nat.le_add_right _ _, nofun⟩
  | closeOpened _ _ hcl | errorReset _ hcl | eof _ hcl =>
    have hsame := hcl.reader
    exact .shrinks hsame.1 hsame.2 hsame.3 (congrArg _ hsame.6) (Nat.le_of_eq (congrArg Segments.size hsame.5))
  | stopDeleted hcl | stopped hcl =>
    have hsame := hcl.reader
    exact .shrinks hsame.1 hsame.2 hsame.3 (congrArg _ hsame.6) (Nat.zero_le _)
  | writable hf hr => exact (hf.reader.trans hr.reader).receives
  | writableCloses hf hr _ hcl => exact ((hf.reader.trans hr.reader).trans hcl.reader).receives
  | setoptsQuiet hd hm =>
    exact ⟨rfl, fun hn => ⟨hn, rfl⟩, .inr ⟨_, _, _, _, _, _, rfl, hd, hm, rfl⟩, Nat.le_add_right _ _,
      fun _ _ _ => .inl (Nat.le_refl _)⟩
  | setoptsEmit hd hm _ hem =>
    obtain ⟨hk, hrl, -, hpk⟩ := hem.kept
    have hle : h'.sizeq ≤ h.sizeq := hem.size_le
    exact ⟨hk, fun hn => ⟨hem.flags.2.symm.trans hn, hrl⟩, .inr ⟨_, _, _, _, _, _, rfl, hd, hm, hpk⟩,
      Nat.le_add_right_of_le hle, fun _ _ _ => .inl hle⟩
  | doReadQueued _ _ hrw =>
    refine ⟨rfl, fun hn => ⟨hn, rfl⟩, .inl rfl, Nat.le_of_eq (sizeq_received _ _), fun hn => ?_⟩
    have hn : h.receiverWaiting = true := hn
    rw [hrw] at hn; cases hn
  | doReadAnswers _ _ _ hem =>
    obtain ⟨hk, -, -, hpk⟩ := hem.kept
    have hle := hem.size_le
    rw [sizeq_received] at hle
    exact ⟨hk, nofun, .inl hpk, hle, nofun⟩
  | doReadShort _ _ _ hd =>
    exact ⟨rfl, fun hn => ⟨hn, rfl⟩, .inl rfl, Nat.le_of_eq (sizeq_received _ _),
      fun _ _ hp => .inr (short_of_held hd hp)⟩
  | doReadActive _ ha hem =>
    obtain ⟨hk, hrl, -, hpk⟩ := hem.kept
    have hle := hem.size_le
    rw [sizeq_received] at hle
    exact ⟨hk, fun hn => ⟨hem.flags.2.symm.trans hn, hrl⟩, .inl hpk, hle, fun _ hf => absurd hf ha⟩
  | _ => cases he

/-- A whole step registers no sender, and WRITABLE leaves none where it
leaves room. -/
theorem sender_step (hs : Step h e o h') (he : e.inParts = false) (hw : h'.senderWaiting = true) :
    h.senderWaiting = true ∧ (e.isWritable = true → h'.writable = false) := by
  cases hs with
  | cancelSend => cases hw
  | closeOpened _ _ hcl | stopDeleted hcl | stopped hcl | eof _ hcl | errorReset _ hcl =>
    exact ⟨hcl.waits.1.senderWaiting.symm.trans hw, nofun⟩
  | setoptsEmit _ _ _ hem => exact ⟨hem.flags.1.symm.trans hw, nofun⟩
  | doReadAnswers _ _ _ hem | doReadActive _ _ hem => exact ⟨hem.flags.1.symm.trans hw, nofun⟩
  | writable hf hr =>
    cases hr with
    | retried => cases hw
    | quiet hno =>
      refine ⟨hf.waits.1.senderWaiting.symm.trans hw, fun _ => Bool.eq_false_iff.2 fun hwr => hno ⟨hwr, hw⟩⟩
  | writableCloses hf hr _ hcl =>
    have hsw := hcl.waits.1.senderWaiting.symm.trans hw
    have hwr := hcl.life.2.2.2.2.2
    rw [hwr]
    cases hr with
    | retried => cases hsw
    | quiet hno =>
      exact ⟨hf.waits.1.senderWaiting.symm.trans hsw, fun _ => Bool.eq_false_iff.2 fun hwr => hno ⟨hwr, hsw⟩⟩
  | outputvRefused | outputvAccepted | outputvTimedOut | outputvParked | recvBadarg | recvSent | recvParked
  | validateAnswered | validateWaits | validateFailed => cases he
  | _ => exact ⟨hw, nofun⟩

/-- A connection that is pending stays so, with the reference that waits for
it, until it ends, connects or fails. -/
theorem pending_reader (hs : Step h e o h') (he : e.inParts = false) (hst : h.status = .connectPending)
    (hk : h.kind = .client) (hrw : h.receiverWaiting = false) (hc : ∀ p, e ≠ .cancelRecv p) :
    (h'.status = .connectPending ∧ h'.callerRef = h.callerRef) ∨ ended h'.status = true ∨ e.isConnect = true ∨
      ∃ err, e = .doError err := by
  cases hs with
  | cancelRecv => exact absurd rfl (hc _)
  | closeOpened _ _ hcl =>
    have hst' : h'.status = .closing := hcl.life.1.elim id id
    exact .inr (.inl (by rw [hst']; rfl))
  | closeBadarg => exact .inr (.inl rfl)
  | stopDeleted _ hst' => exact .inr (.inl (by rw [show _ = UtpPortStatus.destroying from hst']; rfl))
  | stopped => exact .inr (.inl rfl)
  | setoptsEmit _ _ _ hem =>
    exact .inl ⟨hem.life.1.trans hst, hem.kept.2.2.1⟩
  | doReadAnswers _ _ hr => rw [hrw] at hr; cases hr
  | doReadActive _ _ hem =>
    exact .inl ⟨hem.life.1.trans hst, hem.kept.2.2.1⟩
  | eof _ hcl =>
    rcases hcl.life.1 with hst' | hst'
    · exact .inl ⟨hst'.trans hst, hcl.reader.ref⟩
    · exact .inr (.inl (by rw [show _ = UtpPortStatus.closing from hst']; rfl))
  | writable hf hr => exact .inl ⟨(hr.life.1.trans hf.life.1).trans hst, (hf.reader.trans hr.reader).ref⟩
  | writableCloses hf hr _ hcl =>
    rcases hcl.life.1 with hst' | hst'
    · exact .inl ⟨hst'.trans ((hr.life.1.trans hf.life.1).trans hst),
        ((hf.reader.trans hr.reader).trans hcl.reader).ref⟩
    · exact .inr (.inl (by rw [hst']; rfl))
  | connectAnswers | connects => exact .inr (.inr (.inl rfl))
  | destroyingAnswers hn | destroyingNotifies hn => rw [hst] at hn; cases hn
  | errorConnecting | errorReset | errorReported | errorIgnored => exact .inr (.inr (.inr ⟨_, rfl⟩))
  | incomingTaken hn => rw [hk] at hn; cases hn
  | outputvRefused | outputvAccepted | outputvTimedOut | outputvParked | recvBadarg | recvSent | recvParked
  | validateAnswered | validateWaits | validateFailed => cases he
  | _ => exact .inl ⟨hst, rfl⟩

end UtpHandler

/-! ## What happened at a port -/

/-- A whole event of this kind, or the first part of one, is in the trace. -/
def started (p : Event → Bool) (t : PortTrace) : Bool :=
  t.any fun x => match x.event with
    | .start e => p e
    | .resume _ => false

/-- `UTP_Close` has been called. -/
def portClosed (t : PortTrace) : Bool := t.any fun x => x.out.any Effect.isClose

/-- The reference that a `connect_validate` stores when it answers `wait`. -/
def stored (x : Runs.Entry Port PortEvent (List Effect)) : Option Ref :=
  match x.event, x.pre.pending with
  | .resume _, .some (.validate ref) => .some ref
  | _, _ => .none

/-- The reference whose connection this reports as made, or as failed. -/
def Effect.reports : Effect → Option Ref
  | .output (.refOk ref) => .some ref
  | .output (.refError ref _) => .some ref
  | _ => .none

/-- The references that were told to wait and have not been told more. -/
def validating (t : PortTrace) : List Ref :=
  t.foldl (fun l x => (l ++ (stored x).toList).filter fun ref => !x.out.any fun y => decide (y.reports = .some ref)) []

variable {s s' : Port} {e : PortEvent} {o : List Effect} {t : PortTrace}

@[simp] theorem started_snoc (p : Event → Bool) (t : PortTrace) (x : Runs.Entry Port PortEvent (List Effect)) :
    started p (t ++ [x]) = (started p t || match x.event with
      | .start e => p e
      | .resume _ => false) := by
  simp [started]

@[simp] theorem portClosed_snoc (t : PortTrace) (x : Runs.Entry Port PortEvent (List Effect)) :
    portClosed (t ++ [x]) = (portClosed t || x.out.any Effect.isClose) := by
  simp [portClosed]

@[simp] theorem mem_validating_snoc {x : Runs.Entry Port PortEvent (List Effect)} {ref : Ref} :
    ref ∈ validating (t ++ [x]) ↔ (ref ∈ validating t ∨ stored x = .some ref) ∧ ∀ y ∈ x.out, y.reports ≠ .some ref := by
  simp only [validating, List.foldl_append, List.foldl_cons, List.foldl_nil, List.mem_filter, List.mem_append]
  simp

theorem validating_snoc_nil {x : Runs.Entry Port PortEvent (List Effect)} (hnone : validating t = [])
    (hs : stored x = .none) : validating (t ++ [x]) = [] := by
  refine List.eq_nil_iff_forall_not_mem.2 ?_
  intro ref hmem
  rw [mem_validating_snoc, hnone, hs] at hmem
  rcases hmem.1 with hold | hnew
  · cases hold
  · cases hnew

namespace Port

open UtpHandler

/-- Nobody waits for what is there: a sender for room, a receiver for bytes
that are not framed, `connect_validate` for a connection that is made or has
failed. -/
structure Awake (t : PortTrace) (s : Port) : Prop where
  sender : ¬(s.h.senderWaiting = true ∧ s.h.writable = true ∧ s.h.writeQueue.size = 0)
  receiver : ¬(s.h.receiverWaiting = true ∧ s.h.sockopts.packet = 0 ∧ max 1 s.h.recvLen ≤ s.h.sizeq)
  validator : ∀ ref ∈ validating t, s.h.status ≠ .connected ∧ s.h.status ≠ .connectFailed

/-- The port lock, and libutp: CONNECT comes at most once, for a socket that
connects, and not after `UTP_Close`. -/
def PortContract : Runs.Guard Port PortEvent (List Effect) := fun t s e => Locked s e ∧
  ∀ w, e = .start (.stateChange .connect w) →
    s.h.kind = .client ∧ started Event.isConnect t = false ∧ portClosed t = false

/-- A `recv` of `len` is about to wait, or waits on a socket that is not
passive. -/
def Overlooks (s : Port) (len : Nat) : Prop :=
  (∃ p ref, s.pending = .some (.recvPark p len ref)) ∨
    (s.h.receiverWaiting = true ∧ s.h.sockopts.active ≠ .activeFalse ∧ s.h.recvLen = len)

/-- No callback brings what a request is about to wait for, and nothing takes
it from one that waits.

- WRITABLE between the parts of a send leaves no room, and a closed server
  takes no connection while a send waits.
- A chunk that a `recv` is not tried on is too short for it, and framing is
  not turned off where the bytes are enough.
- Neither CONNECT nor an error comes between the parts of `connect_validate`;
  while one waits for its connection no second comes, no `recv` waits and none
  is cancelled, and a close names its reference. -/
def KeepsWakeups (t : PortTrace) (s : Port) : PortEvent → Prop
  | .start (.stateChange .writable w) => ∀ p, s.pending = .some (.park p) →
      s.h.writeQueue.size ≠ 0 ∧ w.ret s.h.writeQueue.size = false
  | .start (.doIncoming _) => s.h.kind = .server → s.h.utp = .none →
      s.h.senderWaiting = false ∧ ∀ p, s.pending ≠ .some (.park p)
  | .start (.doRead bytes _) => s.h.sockopts.packet = 0 → ∀ len, s.Overlooks len →
      s.h.sizeq + bytes.length < max 1 len
  | .start (.setopts _ buf numericHost _) => s.h.receiverWaiting = true → ∀ bin so, decodeBinary buf = .some bin →
      s.h.sockopts.decodeAndMerge numericHost bin = .ok so → so.packet = 0 → s.h.sizeq < max 1 s.h.recvLen
  | .start (.stateChange .connect _) | .start (.doError _) => s.h.status = .connectPending →
      ∀ ref, s.pending ≠ .some (.validate ref)
  | .start (.connectValidate ..) => s.h.status = .connectPending → validating t = [] ∧ s.h.receiverWaiting = false
  | .start (.cancelRecv _) => s.h.status = .connectPending → validating t = []
  | .start (.close _ buf) => s.h.status = .connectPending → decodeBinary buf ≠ .none
  | .resume _ => ∀ p len ref, s.pending = .some (.recvPark p len ref) → s.h.status = .connectPending →
      validating t = []
  | _ => True

def WakeGuard : Runs.Guard Port PortEvent (List Effect) := fun t s e => PortContract t s e ∧ KeepsWakeups t s e

/-! ## The invariant -/

/-- A client before CONNECT: it has taken no send, and ends by `UTP_Close`. -/
structure Early (t : PortTrace) (s : Port) : Prop where
  status : s.h.status ≠ .connected
  sender : s.h.senderWaiting = false
  parking : ∀ p, s.pending ≠ .some (.park p)
  writing : ∀ p n, s.pending ≠ .some (.write p n)
  size : s.h.writeQueue.size = 0
  utp : portClosed t = false → s.h.utp ≠ .none

/-- A sender that waits, or is about to, finds no room. -/
structure SenderOk (s : Port) : Prop where
  waiting : s.h.senderWaiting = true → s.h.writable = false
  parking : ∀ p, s.pending = .some (.park p) → s.h.writable = false
  writing : ∀ p n, s.pending = .some (.write p n) → s.h.senderWaiting = false

/-- A receiver that waits, or is about to, finds too little. -/
structure ReceiverOk (s : Port) : Prop where
  waiting : s.h.receiverWaiting = true → s.h.sockopts.packet = 0 → s.h.sizeq < max 1 s.h.recvLen
  parking : ∀ p len ref, s.pending = .some (.recvPark p len ref) → s.h.sockopts.packet = 0 → s.h.sizeq < max 1 len

/-- The connection has ended, and CONNECT does not come any more. -/
def Over (t : PortTrace) (s : Port) : Prop :=
  ended s.h.status = true ∧ (started Event.isConnect t = true ∨ portClosed t = true)

/-- A reference that was told to wait, or is about to be, waits for a
connection that is pending, or has ended. -/
structure ValidatorOk (t : PortTrace) (s : Port) : Prop where
  waiting : ∀ ref ∈ validating t, s.h.kind = .client ∧
    ((s.h.status = .connectPending ∧ s.h.callerRef = .some ref ∧ s.h.receiverWaiting = false) ∨ Over t s)
  storing : ∀ ref, s.pending = .some (.validate ref) → s.h.kind = .client ∧
    ((s.h.status = .connectPending ∧ validating t = [] ∧ s.h.receiverWaiting = false) ∨ Over t s)

/-- What the runs keep: whoever waits, or is about to, waits for something
that is not there. -/
structure WakeOk (t : PortTrace) (s : Port) : Prop where
  early : s.h.kind = .client → started Event.isConnect t = false → Early t s
  sender : SenderOk s
  receiver : ReceiverOk s
  validator : ValidatorOk t s

theorem WakeOk.awake (hi : WakeOk t s) : Awake t s where
  sender := fun hw => by rw [hi.sender.waiting hw.1] at hw; cases hw.2.1
  receiver := fun hw => Nat.not_le_of_lt (hi.receiver.waiting hw.1 hw.2.1) hw.2.2
  validator := fun ref hmem => by
    rcases (hi.validator.waiting ref hmem).2 with ⟨hst, -⟩ | ⟨hst, -⟩
    · rw [hst]
      exact ⟨nofun, nofun⟩
    · constructor <;> intro hn <;> rw [hn] at hst <;> cases hst

theorem WakeOk.start {h₀ : UtpHandler} (hs : Started h₀) : WakeOk [] ⟨h₀, .none⟩ := by
  have hearly : h₀.kind = .client → Early [] ⟨h₀, .none⟩ := by
    intro hk
    cases hs with
    | client => exact ⟨nofun, rfl, nofun, nofun, rfl, fun _ => nofun⟩
    | server => cases hk
  cases hs <;> exact ⟨fun hk _ => hearly hk, ⟨nofun, nofun, nofun⟩, ⟨nofun, nofun⟩, ⟨nofun, nofun⟩⟩

/-! ### Before CONNECT -/

theorem kind_kept (hs : Step s e o s') : s'.h.kind = s.h.kind := by
  cases hs with
  | whole hp hst => exact (receives_step hst hp).kind
  | recvDrains _ _ hem | recvSent _ _ hem | recvShort _ _ hem => exact hem.kept.1
  | validateAnswered _ hst => cases hst <;> rfl
  | _ => rfl

theorem WakeOk.connect {w : UtpWrite} (hi : WakeOk t s) (hg : PortContract t s (.start (.stateChange .connect w))) :
    Early t s := by
  obtain ⟨hk, hseen, -⟩ := hg.2 w rfl
  exact hi.early hk hseen

theorem Early.step (hi : s.h.kind = .client → started Event.isConnect t = false → Early t s) (hs : Step s e o s')
    (hk : s'.h.kind = .client) (hseen : started Event.isConnect (t ++ [⟨s, e, o⟩]) = false) :
    Early (t ++ [⟨s, e, o⟩]) s' := by
  rw [started_snoc, Bool.or_eq_false_iff] at hseen
  have hk₀ : s.h.kind = .client := (kind_kept hs).symm.trans hk
  obtain ⟨hst, hsw, hpark, hwrite, hsize, hutp⟩ := hi hk₀ hseen.1
  have hopen : portClosed (t ++ [⟨s, e, o⟩]) = false → portClosed t = false ∧ o.any Effect.isClose = false := by
    rw [portClosed_snoc, Bool.or_eq_false_iff]
    exact id
  cases hs with
  | @whole h h' c e o hp hst' =>
    refine ⟨?_, ?_, hpark, hwrite, ?_, fun hno => socket_step hst' (hutp (hopen hno).1) (hopen hno).2⟩
    · cases moves hst' with
      | keeps heq => rwa [heq]
      | connects => cases hseen.2
      | takes hn => rw [hk₀] at hn; cases hn
      | closes _ heq | opens heq | stops heq | destroys _ heq | fails _ heq | validates _ heq => rw [heq]; exact nofun
    · exact Bool.eq_false_iff.2 fun hw => by rw [(sender_step hst' hp hw).1] at hsw; cases hsw
    · exact size_step hst' (by cases e <;> first | rfl | cases hp) hsize
  | sendQueued hc | sendTimedOut hc | sendNoRoom hc => exact absurd hc hst
  | recvDrains _ _ hem | recvSent _ _ hem | recvShort _ _ hem =>
    obtain ⟨h₁, h₂, h₃, -⟩ := hem.life
    exact ⟨h₁ ▸ hst, hem.flags.1.trans hsw, nofun, nofun, h₃ ▸ hsize, fun hno => h₂ ▸ hutp (hopen hno).1⟩
  | validateAnswered _ hst' =>
    cases hst' with
    | validateFailed => exact ⟨nofun, hsw, nofun, nofun, hsize, fun hno => hutp (hopen hno).1⟩
    | _ => exact ⟨hst, hsw, nofun, nofun, hsize, fun hno => hutp (hopen hno).1⟩
  | wrote => exact absurd rfl (hwrite _ _)
  | parked => exact absurd rfl (hpark _)
  | _ => exact ⟨hst, hsw, nofun, nofun, hsize, fun hno => hutp (hopen hno).1⟩

/-! ### The sender -/

/-- WRITABLE leaves no room where `UTP_Write` leaves none. -/
theorem writable_refused {h h' : UtpHandler} {w : UtpWrite} (hs : UtpHandler.Step h (.stateChange .writable w) o h')
    (hne : h.writeQueue.size ≠ 0) (hret : w.ret h.writeQueue.size = false) : h'.writable = false := by
  have hflush : ∀ {h₁ : UtpHandler} {o₁ : List Effect}, Flush h w o₁ h₁ → h₁.writable = false := by
    intro h₁ o₁ hf
    cases hf with
    | empty h0 => exact absurd h0 hne
    | wrote => exact hret
  cases hs with
  | writable hf hr => exact hr.life.2.2.2.1.trans (hflush hf)
  | writableCloses hf hr _ hcl => exact hcl.life.2.2.2.2.2.trans (hr.life.2.2.2.1.trans (hflush hf))

theorem SenderOk.step (hi : WakeOk t s) (hg : WakeGuard t s e) (hs : Step s e o s') : SenderOk s' := by
  obtain ⟨hwait, hpark, hwrite⟩ := hi.sender
  cases hs with
  | @whole h h' c e o hp hst =>
    -- what made room also found nobody waiting for it
    have hroom : h.writable = false → (∃ p, c = .some (.park p)) ∨ h'.senderWaiting = true → h'.writable = false := by
      intro hw hor
      refine Bool.eq_false_iff.2 fun hw' => ?_
      have hsend : h'.senderWaiting = true → e.isWritable = false := fun hsw => by
        refine Bool.eq_false_iff.2 fun hwr => ?_
        cases hw'.symm.trans ((sender_step hst hp hsw).2 hwr)
      have hcon : e.isConnect = false := Bool.eq_false_iff.2 fun hc => by
        obtain ⟨w, rfl⟩ := Event.eq_connect hc
        have hearly := hi.connect hg.1
        rcases hor with ⟨p, rfl⟩ | hsw
        · exact hearly.parking p rfl
        · have hsw := (sender_step hst hp hsw).1
          cases hsw.symm.trans hearly.sender
      have hwr : e.isWritable = true := by
        refine writable_step hst hw hw' hcon fun x hx => ?_
        subst hx
        by_contra hn
        simp only [not_or, not_not] at hn
        have hserver : h.kind = .server := by cases hk : h.kind <;> simp_all
        obtain ⟨hsw₀, hno⟩ := hg.2 hserver hn.2
        rcases hor with ⟨p, hc⟩ | hsw
        · exact hno p hc
        · cases (sender_step hst hp hsw).1.symm.trans hsw₀
      obtain ⟨w, rfl⟩ := Event.eq_writable hwr
      rcases hor with ⟨p, hc⟩ | hsw
      · obtain ⟨hne, hret⟩ := hg.2 p hc
        cases hw'.symm.trans (writable_refused hst hne hret)
      · rw [hsend hsw] at hwr; cases hwr
    refine ⟨?_, fun p hc => hroom (hpark p hc) (.inl ⟨p, hc⟩), ?_⟩
    · intro hsw
      exact hroom (hwait (sender_step hst hp hsw).1) (.inr hsw)
    · intro p n hc
      exact Bool.eq_false_iff.2 fun hsw => by
        cases (sender_step hst hp hsw).1.symm.trans (hwrite p n hc)
  | sendQueued _ _ hw =>
    refine ⟨hwait, nofun, fun _ _ _ => Bool.eq_false_iff.2 fun hsw => ?_⟩
    cases hw.symm.trans (hwait hsw)
  | sendNoRoom _ _ hw => exact ⟨hwait, fun _ _ => hw, nofun⟩
  | recvDrains _ _ hem | recvSent _ _ hem | recvShort _ _ hem =>
    exact ⟨fun hsw => hem.life.2.2.2.1.trans (hwait (hem.flags.1.symm.trans hsw)), nofun, nofun⟩
  | validateAnswered _ hst => cases hst <;> exact ⟨hwait, nofun, nofun⟩
  | wrote =>
    refine ⟨fun hsw => ?_, nofun, nofun⟩
    cases hsw.symm.trans (hwrite _ _ rfl)
  | parked => exact ⟨fun _ => hpark _ rfl, nofun, nofun⟩
  | _ => exact ⟨hwait, nofun, nofun⟩

/-! ### The receiver -/

theorem ReceiverOk.step (hi : ReceiverOk s) (hg : WakeGuard t s e) (hs : Step s e o s') : ReceiverOk s' := by
  obtain ⟨hwait, hpark⟩ := hi
  cases hs with
  | @whole h h' c e o hp hst =>
    have hr := receives_step hst hp
    refine ⟨?_, ?_⟩
    · intro hrw hpk
      obtain ⟨hrw₀, hlen⟩ := hr.flag hrw
      rw [show (Port.mk h' c).h.recvLen = h.recvLen from hlen]
      rcases hr.packet with hsame | ⟨p, buf, numericHost, mem, bin, so, rfl, hd, hm, hso⟩
      · have hold : h.sizeq < max 1 h.recvLen := hwait hrw₀ (hsame ▸ hpk)
        by_cases ha : h.sockopts.active = .activeFalse
        · rcases hr.tried hrw ha hpk with hle | hlt
          · exact Nat.lt_of_le_of_lt hle hold
          · exact hlen ▸ hlt
        · refine hr.size_lt hold ?_
          rintro bytes mem rfl
          exact hg.2 (hsame ▸ hpk) h.recvLen (.inr ⟨hrw₀, ha, rfl⟩)
      · have hlt := hg.2 hrw₀ bin so hd hm (hso ▸ hpk)
        exact Nat.lt_of_le_of_lt hr.size hlt
    · intro p len ref hc hpk
      have hnone : e.isRequest = false := Bool.eq_false_iff.2 fun hreq => by
        cases (hg.1.1 hreq).symm.trans hc
      have hsame : h'.sockopts.packet = h.sockopts.packet := by
        rcases hr.packet with hsame | ⟨p, buf, numericHost, mem, bin, so, rfl, -⟩
        · exact hsame
        · cases hnone
      refine hr.size_lt (hpark p len ref hc (hsame ▸ hpk)) ?_
      rintro bytes mem rfl
      exact hg.2 (hsame ▸ hpk) len (.inl ⟨p, ref, hc⟩)
  | recvDrains _ _ hem | recvSent _ _ hem =>
    obtain ⟨-, hlen, -, hpk⟩ := hem.kept
    refine ⟨fun hrw hp => ?_, by simp⟩
    rw [hlen]
    exact Nat.lt_of_le_of_lt hem.size_le (hwait (hem.flags.2.symm.trans hrw) (hpk ▸ hp))
  | recvShort _ _ hem =>
    obtain ⟨-, hlen, -, hpk⟩ := hem.kept
    refine ⟨?_, ?_⟩
    · intro hrw hp
      rw [hlen]
      exact Nat.lt_of_le_of_lt hem.size_le (hwait (hem.flags.2.symm.trans hrw) (hpk ▸ hp))
    · intro p len ref hc hp
      obtain ⟨rfl, rfl, rfl⟩ := Pending.recvPark.inj (Option.some.inj hc)
      cases hem with
      | closed _ h0 =>
        have h0 : size _ = 0 := h0
        simp only [sizeq, h0]
        omega
      | held _ hd => exact short_of_held hd hp
  | validateAnswered _ hst => cases hst <;> exact ⟨hwait, by simp⟩
  | recvParked => exact ⟨fun _ hp => hpark _ _ _ rfl hp, by simp⟩
  | _ => exact ⟨hwait, by simp⟩

/-! ### `connect_validate` -/

theorem Over.snoc {x : Runs.Entry Port PortEvent (List Effect)} (ho : Over t s) (hend : ended s'.h.status = true) :
    Over (t ++ [x]) s' := by
  refine ⟨hend, ?_⟩
  rw [started_snoc, portClosed_snoc]
  exact ho.2.imp (fun hn => by rw [hn]; rfl) fun hn => by rw [hn]; rfl

theorem Over.whole {h h' : UtpHandler} {c : Option Pending} {e : Event} (ho : Over t ⟨h, c⟩) (hk : h.kind = .client)
    (hg : PortContract t ⟨h, c⟩ (.start e)) (hs : UtpHandler.Step h e o h') :
    Over (t ++ [⟨⟨h, c⟩, .start e, o⟩]) ⟨h', c⟩ := by
  have hcon : e.isConnect = false := Bool.eq_false_iff.2 fun hc => by
    obtain ⟨w, rfl⟩ := Event.eq_connect hc
    obtain ⟨-, hseen, hclosed⟩ := hg.2 w rfl
    have hor := ho.2
    rw [hseen, hclosed] at hor
    simp at hor
  exact ho.snoc (ended_step hs ho.1 hcon fun _ _ => .inl hk)

/-- A pending connection stays pending, or is over, unless this step reports
on it. -/
theorem WakeOk.pending {h h' : UtpHandler} {c : Option Pending} {e : Event} (hi : WakeOk t ⟨h, c⟩)
    (hg : WakeGuard t ⟨h, c⟩ (.start e)) (hp : e.inParts = false) (hs : UtpHandler.Step h e o h')
    (hk : h.kind = .client)
    (hst : h.status = .connectPending) (hrw : h.receiverWaiting = false) (hcan : ∀ p, e ≠ .cancelRecv p)
    (hcon : e.isConnect = false) (herr : ∀ err, e ≠ .doError err) :
    (h'.status = .connectPending ∧ h'.callerRef = h.callerRef ∧ h'.receiverWaiting = false) ∨
      Over (t ++ [⟨⟨h, c⟩, .start e, o⟩]) ⟨h', c⟩ := by
  have hrw' : h'.receiverWaiting = false := Bool.eq_false_iff.2 fun hn => by
    cases ((receives_step hs hp).flag hn).1.symm.trans hrw
  rcases pending_reader hs hp hst hk hrw hcan with ⟨hst', href⟩ | hend | hc | ⟨err, he⟩
  · exact .inl ⟨hst', href, hrw'⟩
  · have hname : ∀ p buf, e = .close p buf → decodeBinary buf ≠ .none := by
      rintro p buf rfl
      exact hg.2 hst
    refine .inr ⟨hend, ?_⟩
    rw [started_snoc, portClosed_snoc, Bool.or_eq_true, Bool.or_eq_true]
    by_cases hseen : started Event.isConnect t = true
    · exact .inl (.inl hseen)
    · have hearly := hi.early hk (Bool.eq_false_iff.2 hseen)
      rcases ended_cases hs hend hname with hold | hclose | hu | hq
      · rw [hst] at hold; cases hold
      · exact .inr (.inr hclose)
      · exact .inr (.inl (Bool.eq_true_of_not_eq_false fun hno => hearly.utp hno hu))
      · exact absurd hearly.size hq
  · rw [hcon] at hc; cases hc
  · exact absurd he (herr err)

theorem ValidatorOk.whole {h h' : UtpHandler} {c : Option Pending} {e : Event} (hi : WakeOk t ⟨h, c⟩)
    (hg : WakeGuard t ⟨h, c⟩ (.start e)) (hp : e.inParts = false) (hs : UtpHandler.Step h e o h')
    (herr : ∀ err ref, e = .doError err → h.status = .connectPending → h.callerRef = .some ref →
      .output (.refError ref err) ∈ o) : ValidatorOk (t ++ [⟨⟨h, c⟩, .start e, o⟩]) ⟨h', c⟩ := by
  have hkind := (receives_step hs hp).kind
  refine ⟨?_, ?_⟩
  · intro ref hmem
    rw [mem_validating_snoc] at hmem
    obtain ⟨hold | hnew, hsilent⟩ := hmem
    · obtain ⟨hk, ⟨hst, href, hrw⟩ | hover⟩ := hi.validator.waiting ref hold
      · refine ⟨hkind.trans hk, ?_⟩
        have hcan : ∀ p, e ≠ .cancelRecv p := by
          rintro p rfl
          rw [show validating t = [] from hg.2 hst] at hold; cases hold
        have hcon : e.isConnect = false := Bool.eq_false_iff.2 fun hc => by
          cases hs with
          | connectAnswers href' _ =>
            obtain rfl := Option.some.inj (href.symm.trans href')
            exact hsilent _ (List.mem_singleton.2 rfl) rfl
          | connects hor =>
            rcases hor with hn | hn
            · cases href.symm.trans hn
            · exact hn hst
          | _ => cases hc
        have hne : ∀ err, e ≠ .doError err := by
          intro err he
          exact hsilent _ (herr err ref he hst href) rfl
        rcases hi.pending hg hp hs hk hst hrw hcan hcon hne with ⟨hst', href', hrw'⟩ | hover
        · exact .inl ⟨hst', href'.trans href, hrw'⟩
        · exact .inr hover
      · exact ⟨hkind.trans hk, .inr (hover.whole hk hg.1 hs)⟩
    · cases hnew
  · intro ref hc
    obtain ⟨hk, ⟨hst, hnone, hrw⟩ | hover⟩ := hi.validator.storing ref hc
    · refine ⟨hkind.trans hk, ?_⟩
      have hreq : e.isRequest = false := Bool.eq_false_iff.2 fun hreq => by
        cases (hg.1.1 hreq).symm.trans hc
      have hcan : ∀ p, e ≠ .cancelRecv p := by
        rintro p rfl
        cases hreq
      have hcon : e.isConnect = false := Bool.eq_false_iff.2 fun hcon => by
        obtain ⟨w, rfl⟩ := Event.eq_connect hcon
        exact hg.2 hst ref hc
      have hne : ∀ err, e ≠ .doError err := by
        rintro err rfl
        exact hg.2 hst ref hc
      rcases hi.pending hg hp hs hk hst hrw hcan hcon hne with ⟨hst', -, hrw'⟩ | hover
      · exact .inl ⟨hst', validating_snoc_nil hnone rfl, hrw'⟩
      · exact .inr hover
    · exact ⟨hkind.trans hk, .inr (hover.whole hk hg.1 hs)⟩

/-- A part that reports nothing and is not `connect_validate` keeps what
waits. -/
theorem ValidatorOk.part (hi : ValidatorOk t s) (hk : s'.h.kind = s.h.kind) (hst : s'.h.status = s.h.status)
    (href : s'.h.callerRef = s.h.callerRef) (hrw : s'.h.receiverWaiting = s.h.receiverWaiting)
    (hnew : stored ⟨s, e, o⟩ = .none) (hc : ∀ ref, s'.pending ≠ .some (.validate ref)) :
    ValidatorOk (t ++ [⟨s, e, o⟩]) s' := by
  refine ⟨fun ref hmem => ?_, fun ref hv => absurd hv (hc ref)⟩
  rw [mem_validating_snoc, hnew] at hmem
  obtain ⟨hk₀, hor⟩ := hi.waiting ref (hmem.1.resolve_right nofun)
  refine ⟨hk.trans hk₀, hor.imp (fun hp => ?_) fun hover => hover.snoc (by rw [hst]; exact hover.1)⟩
  exact ⟨hst.trans hp.1, href.trans hp.2.1, hrw.trans hp.2.2⟩

theorem ValidatorOk.step (hi : WakeOk t s) (hg : WakeGuard t s e) (hs : Step s e o s')
    (herr : ∀ err ref, e = .start (.doError err) → s.h.status = .connectPending → s.h.callerRef = .some ref →
      .output (.refError ref err) ∈ o) : ValidatorOk (t ++ [⟨s, e, o⟩]) s' := by
  have hv := hi.validator
  cases hs with
  | whole hp hst => exact .whole hi hg hp hst fun err ref he => herr err ref (by rw [he])
  | recvDrains _ _ hem | recvSent _ _ hem | recvShort _ _ hem =>
    obtain ⟨hk, -, href, -⟩ := hem.kept
    exact hv.part hk hem.life.1 href hem.flags.2 rfl nofun
  | @validateReads h c p buf ref hk _ hst =>
    obtain ⟨hnone, hrw⟩ := hg.2 hst
    have hnil : validating (t ++ [⟨⟨h, c⟩, .start (.connectValidate p buf), []⟩]) = [] :=
      validating_snoc_nil hnone rfl
    refine ⟨fun r hmem => ?_, fun _ _ => ⟨hk, .inl ⟨hst, hnil, hrw⟩⟩⟩
    rw [hnil] at hmem; cases hmem
  | @validateAnswered h c p buf o h' hno hst =>
    cases hst with
    | validateWaits hk hd hst =>
      rcases hno with hn | hn | hn
      · rw [hk] at hn; cases hn
      · exact absurd hst hn
      · rw [hd] at hn; cases hn
    | validateFailed _ _ hst =>
      refine ⟨fun r hmem => ?_, nofun⟩
      rw [mem_validating_snoc] at hmem
      obtain ⟨-, ⟨hp, -⟩ | ⟨hend, -⟩⟩ := hv.waiting r (hmem.1.resolve_right nofun)
      · rw [hst] at hp; cases hp
      · rw [hst] at hend; cases hend
    | validateAnswered => exact hv.part rfl rfl rfl rfl rfl nofun
  | @recvParked h p len ref w =>
    refine ⟨fun r hmem => ?_, nofun⟩
    rw [mem_validating_snoc] at hmem
    have hold := hmem.1.resolve_right nofun
    obtain ⟨hk, ⟨hst, -⟩ | hover⟩ := hv.waiting r hold
    · rw [hg.2 p len ref rfl hst] at hold; cases hold
    · exact ⟨hk, .inr (hover.snoc hover.1)⟩
  | @validateStored h ref w =>
    refine ⟨fun r hmem => ?_, nofun⟩
    rw [mem_validating_snoc] at hmem
    obtain ⟨hk, ⟨hst, hnone, hrw⟩ | hover⟩ := hv.storing ref rfl
    · rcases hmem.1 with hold | hnew
      · rw [hnone] at hold; cases hold
      · obtain rfl := Option.some.inj hnew
        exact ⟨hk, .inl ⟨hst, rfl, hrw⟩⟩
    · exact ⟨hk, .inr (hover.snoc hover.1)⟩
  | sendRefused | sendQueued | sendTimedOut | sendNoRoom | recvBadarg | wrote | parked | replied | drained =>
    exact hv.part rfl rfl rfl rfl rfl nofun

/-- An error that fails the connection answers who waits for it. -/
theorem error_reports {err : Errno} {ref : Ref} (hm : machine s (.start (.doError err)) = .some (s', o))
    (hst : s.h.status = .connectPending) (href : s.h.callerRef = .some ref) : .output (.refError ref err) ∈ o := by
  simp only [machine, step, Event.inParts, handle, doError, hst, href] at hm
  obtain ⟨-, rfl⟩ := hm
  exact List.mem_singleton.2 rfl

theorem WakeOk.step (hi : WakeOk t s) (hg : WakeGuard t s e) (hm : machine s e = .some (s', o)) :
    WakeOk (t ++ [⟨s, e, o⟩]) s' := by
  have hs := machine_does hm
  refine ⟨fun hk hseen => .step hi.early hs hk hseen, .step hi hg hs, hi.receiver.step hg hs, .step hi hg hs ?_⟩
  rintro err ref rfl hst href
  exact error_reports hm hst href

/-- **No lost wakeup**: in every run without the steps `KeepsWakeups` leaves
out, nobody waits for what is already there. -/
theorem no_lost_wakeup {h₀ : UtpHandler} (hs : Started h₀) (run : Runs.Run machine WakeGuard [] ⟨h₀, .none⟩ t s) :
    Awake t s := by
  have hall : WakeOk t s := by
    refine run.invariant (I := WakeOk) (.start hs) ?_
    intro t s e s' o hi hg hm
    exact hi.step hg hm
  exact hall.awake

/-- `connect_validate` in parts and its answer, a send with a chunk between
its parts, and a `recv` that waits. -/
theorem no_lost_wakeup_parts :
    ∃ t s, Runs.Run machine WakeGuard []
        ⟨startClient { SockOpts.new with active := .activeFalse } 1, .none⟩ t s ∧
      t.length = 9 ∧ s.h.status = .connected ∧ s.h.receiverWaiting = true ∧ Awake t s :=
  have run := (((((((((Runs.Run.start machine WakeGuard
      ⟨startClient { SockOpts.new with active := .activeFalse } 1, .none⟩).next
      (.start (.connectValidate 1 [.version, .binary [9]])) ⟨⟨fun _ => rfl, nofun⟩, fun _ => ⟨rfl, rfl⟩⟩ rfl).next
      (.resume .nothing) ⟨⟨trivial, nofun⟩, nofun⟩ rfl).next
      (.start (.stateChange .connect .nothing))
      ⟨⟨nofun, fun _ _ => ⟨rfl, rfl, rfl⟩⟩, fun _ => nofun⟩ rfl).next
      (.start (.outputv 1 ⟨1, [⟨[7], .none⟩]⟩ .nothing fun _ => 0)) ⟨⟨fun _ => rfl, nofun⟩, trivial⟩ rfl).next
      (.start (.doRead [5] fun _ => 0)) ⟨⟨nofun, nofun⟩, fun _ _ hov =>
        hov.elim (fun ⟨_, _, hc⟩ => by cases hc) fun hw => by cases hw.1⟩ rfl).next
      (.resume .whole) ⟨⟨trivial, nofun⟩, nofun⟩ rfl).next
      (.resume .nothing) ⟨⟨trivial, nofun⟩, nofun⟩ rfl).next
      (.start (.recv 1 [.version, .tuple 2, .int 4, .binary [8]] fun _ => 0)) ⟨⟨fun _ => rfl, nofun⟩, trivial⟩ rfl).next
      (.resume .nothing) ⟨⟨trivial, nofun⟩, nofun⟩ rfl
  ⟨_, _, run, rfl, rfl, rfl, no_lost_wakeup (.client _ 1) run⟩

/-- WRITABLE, a chunk, and CONNECT, each between the parts of the request
that waits for it. -/
theorem wakeups_lost :
    (∃ t s, Runs.Run machine PortContract [] ⟨startServer SockOpts.new 1, .none⟩ t s ∧
      s.pending = .some (.reply 1 .wait) ∧ s.h.senderWaiting = true ∧ s.h.writable = true ∧ s.h.writeQueue.size = 0) ∧
    (∃ t s, Runs.Run machine PortContract []
        ⟨startServer { SockOpts.new with active := .activeFalse } 1, .none⟩ t s ∧
      s.pending = .none ∧ s.h.receiverWaiting = true ∧ s.h.sockopts.packet = 0 ∧ s.h.recvLen = 1 ∧ s.h.sizeq = 1) ∧
    ∃ t s, Runs.Run machine PortContract [] ⟨startClient SockOpts.new 1, .none⟩ t s ∧
      s.pending = .none ∧ validating t = [[9]] ∧ s.h.status = .connected := by
  have sends := (((((Runs.Run.start machine PortContract ⟨startServer SockOpts.new 1, .none⟩).next
      (.start (.outputv 1 ⟨1, [⟨[7], .none⟩]⟩ .nothing fun _ => 0)) ⟨fun _ => rfl, nofun⟩ rfl).next
      (.resume .nothing) ⟨trivial, nofun⟩ rfl).next (.resume .nothing) ⟨trivial, nofun⟩ rfl).next
      (.start (.outputv 1 ⟨1, [⟨[8], .none⟩]⟩ .nothing fun _ => 0)) ⟨fun _ => rfl, nofun⟩ rfl).next
      (.start (.stateChange .writable .whole)) ⟨nofun, nofun⟩ rfl
  have reads := ((Runs.Run.start machine PortContract
      ⟨startServer { SockOpts.new with active := .activeFalse } 1, .none⟩).next
      (.start (.recv 1 [.version, .tuple 2, .int 1, .binary [9]] fun _ => 0)) ⟨fun _ => rfl, nofun⟩ rfl).next
      (.start (.doRead [7] fun _ => 0)) ⟨nofun, nofun⟩ rfl
  have connects := ((Runs.Run.start machine PortContract ⟨startClient SockOpts.new 1, .none⟩).next
      (.start (.connectValidate 1 [.version, .binary [9]])) ⟨fun _ => rfl, nofun⟩ rfl).next
      (.start (.stateChange .connect .nothing)) ⟨nofun, fun _ _ => ⟨rfl, rfl, rfl⟩⟩ rfl
  exact ⟨⟨_, _, sends.next (.resume .nothing) ⟨trivial, nofun⟩ rfl, rfl, rfl, rfl, rfl⟩,
    ⟨_, _, reads.next (.resume .nothing) ⟨trivial, nofun⟩ rfl, rfl, rfl, rfl, rfl, rfl⟩,
    _, _, connects.next (.resume .nothing) ⟨trivial, nofun⟩ rfl, rfl, by decide, rfl⟩

end Port

end GenUtp
