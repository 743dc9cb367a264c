/-
The receive stream: what was delivered to Erlang, then what the driver queue
still holds, is what `do_read` was given, in order; and the chunk list adds
up to the driver queue.

`emissionOf` is the call of `emit_read_buffer` an event makes. `read_step`
says of one step that the accounts are kept while that call is plain
(`PlainEvent`): it strips no length header and cuts no length to 32 bits.
Raw mode is always plain, so there the accounts hold in every run
(`raw_stream_conserved`). In packet mode `emit_read_buffer` takes the header
off the queue and only the payload off the chunk list, so the two part with
the first frame delivered (`framed_delivery_drifts`); `read_accounts` says
that nothing else parts them.
-/
import GenUtp.SendStream

namespace GenUtp

open Segments

/-! ## What is delivered -/

def Effect.payload : Effect → Option Payload
  | .output (.utp p) => .some p
  | .send _ (.refData _ p) => .some p
  | _ => .none

/-- The data messages among some effects. -/
def payloads (o : List Effect) : List Payload := o.filterMap Effect.payload

/-- The bytes moved into the buffers of the data messages. -/
def deliveredBytes (o : List Effect) : List UInt8 := (payloads o).flatMap (·.buf)

def Event.chunk : Event → List UInt8
  | .doRead bytes _ => bytes
  | _ => []

/-- Everything `do_read` was given. -/
def chunksRead (t : Trace) : List UInt8 := t.flatMap fun x => x.event.chunk

@[simp] theorem payloads_nil : payloads [] = [] := rfl

@[simp] theorem payloads_append (o o' : List Effect) : payloads (o ++ o') = payloads o ++ payloads o' :=
  List.filterMap_append

namespace UtpHandler

/-- A packet's payload in a message to `receiver`. -/
def packetPayload (so : SockOpts) (receiver : Receiver) (m : Packet) : Payload :=
  match receiver with
  | .connected => ⟨m.1, m.2, so.header, so.deliveryMode⟩
  | .proc _ _ => ⟨m.1, m.2, so.header, .dataBinary⟩

@[simp] theorem payloads_dataMessages (so : SockOpts) (receiver : Receiver) (ms : List Packet) :
    payloads (dataMessages so receiver ms) = ms.map (packetPayload so receiver) := by
  induction ms with
  | nil => rfl
  | cons m ms ih =>
    simp only [payloads, dataMessages, List.map_cons, List.filterMap_cons] at ih ⊢
    cases receiver <;> simp only [dataMessage, Effect.payload] <;> exact congrArg _ ih

@[simp] theorem payloads_bufferSets (utp : Option UTPSocket) (saved so : SockOpts) :
    payloads (bufferSets utp saved so) = [] := by
  unfold bufferSets; split <;> split <;> rfl

@[simp] theorem payloads_drainedCall (utp : Option UTPSocket) (qsize : Nat) :
    payloads (drainedCall utp qsize) = [] := by
  unfold drainedCall; split <;> rfl

@[simp] theorem payloads_deselect (h : UtpHandler) : payloads h.deselect = [] := by
  unfold deselect; split <;> rfl

/-- The call of `emit_read_buffer` an event makes: the state it is made in,
its length, and the memory it may read. -/
def emissionOf (h : UtpHandler) : Event → Option (UtpHandler × Nat × Mem)
  | .recv _ buf mem =>
    if h.sockopts.active = .activeFalse then (decodeRecv buf).map fun r => (h, r.1, mem) else .none
  | .doRead bytes mem =>
    if bytes = [] then .none
    else if h.sockopts.active = .activeFalse then
      if h.receiverWaiting then .some (h.received bytes, h.recvLen, mem) else .none
    else .some (h.received bytes, 0, mem)
  | .setopts _ buf numericHost mem =>
    (decodeBinary buf).bind fun bin =>
      match h.sockopts.decodeAndMerge numericHost bin with
      | .ok so =>
        if sendOnSetopts h.sockopts.active so.active h.readCount then .some ({ h with sockopts := so }, 0, mem)
        else .none
      | .error _ => .none
  | _ => .none

/-- A call of `emit_read_buffer` that delivers, if anything, a raw message:
no header announces a frame, and what it takes in all fits a `uint32_t`. -/
def PlainCall (h : UtpHandler) (len : Nat) (mem : Mem) : Prop :=
  h.deliverable len mem = true →
    h.announced mem = 0 ∧ (h.sockopts.active = .activeFalse → len = 0 → h.sizeq < 2 ^ 32)

/-- An event whose delivery is plain, and whose chunk fits a `uint32_t`. -/
structure PlainEvent (h : UtpHandler) (e : Event) : Prop where
  call : ∀ g len mem, h.emissionOf e = .some (g, len, mem) → g.PlainCall len mem
  chunk : e.chunk.length < 2 ^ 32

variable {h h' : UtpHandler} {e : Event} {o : List Effect}

theorem emissionOf_recv {p : Pid} {buf : EiBuf} {mem : Mem} {len : Nat} {ref : Ref}
    (ha : h.sockopts.active = .activeFalse) (hd : decodeRecv buf = .some (len, ref)) :
    h.emissionOf (.recv p buf mem) = .some (h, len, mem) := by
  simp [emissionOf, ha, hd]

theorem emissionOf_setopts {p : Pid} {buf : EiBuf} {numericHost : List UInt8 → Bool} {mem : Mem} {bin : List UInt8}
    {so : SockOpts} (hd : decodeBinary buf = .some bin) (hm : h.sockopts.decodeAndMerge numericHost bin = .ok so)
    (hs : sendOnSetopts h.sockopts.active so.active h.readCount = true) :
    h.emissionOf (.setopts p buf numericHost mem) = .some ({ h with sockopts := so }, 0, mem) := by
  simp [emissionOf, hd, hm, hs]

theorem emissionOf_answers {bytes : List UInt8} {mem : Mem} (hb : bytes ≠ [])
    (ha : h.sockopts.active = .activeFalse) (hr : h.receiverWaiting = true) :
    h.emissionOf (.doRead bytes mem) = .some (h.received bytes, h.recvLen, mem) := by
  simp [emissionOf, hb, ha, hr]

theorem emissionOf_active {bytes : List UInt8} {mem : Mem} (hb : bytes ≠ [])
    (ha : h.sockopts.active ≠ .activeFalse) :
    h.emissionOf (.doRead bytes mem) = .some (h.received bytes, 0, mem) := by
  simp [emissionOf, hb, ha]

/-- The state the call is made in: as before, with the options just set, or
with the chunk that has come. -/
theorem emissionOf_cases {g : UtpHandler} {len : Nat} {mem : Mem} (hc : h.emissionOf e = .some (g, len, mem)) :
    (g = h ∧ e.chunk = []) ∨
      (∃ p buf numericHost m bin so, e = .setopts p buf numericHost m ∧ decodeBinary buf = .some bin ∧
        h.sockopts.decodeAndMerge numericHost bin = .ok so ∧ g = { h with sockopts := so }) ∨
      (g = h.received e.chunk ∧ e.chunk ≠ []) := by
  cases e with
  | recv p buf m =>
    simp only [emissionOf] at hc
    split at hc
    · obtain ⟨r, -, hr⟩ := Option.map_eq_some_iff.1 hc
      exact .inl ⟨(Prod.mk.inj hr).1.symm, rfl⟩
    · cases hc
  | doRead bytes m =>
    simp only [emissionOf] at hc
    split at hc
    · cases hc
    next hb =>
    split at hc
    · split at hc
      · exact .inr (.inr ⟨(Prod.mk.inj (Option.some.inj hc)).1.symm, hb⟩)
      · cases hc
    · exact .inr (.inr ⟨(Prod.mk.inj (Option.some.inj hc)).1.symm, hb⟩)
  | setopts p buf numericHost m =>
    simp only [emissionOf, Option.bind_eq_some_iff] at hc
    obtain ⟨bin, hd, hc⟩ := hc
    split at hc
    · next so hm =>
      split at hc
      · exact .inr (.inl ⟨p, buf, numericHost, m, bin, so, rfl, hd, hm, (Prod.mk.inj (Option.some.inj hc)).1.symm⟩)
      · cases hc
    · cases hc
  | _ => cases hc

/-! ## The read side of a step -/

/-- `close_utp` leaves the read side alone. -/
theorem CloseUtp.readSide (hc : CloseUtp h o h') :
    h'.queue = h.queue ∧ h'.readCount = h.readCount ∧ h'.sockopts = h.sockopts ∧ payloads o = [] := by
  cases hc <;> exact ⟨rfl, rfl, rfl, rfl⟩

theorem payloads_writes (counts : List Nat) {wq wq' : WriteQueue} {ws : List Effect}
    (hw : writes wq counts = .some (ws, wq')) : payloads ws = [] := by
  have hall : ws.all (fun x => x.payload.isNone) = true := all_writes (fun _ _ => rfl) counts hw
  exact List.filterMap_eq_nil_iff.2 fun x hx => Option.isNone_iff_eq_none.1 (List.all_eq_true.1 hall x hx)

theorem Flush.readSide {w : UtpWrite} (hf : Flush h w o h') :
    h'.queue = h.queue ∧ h'.readCount = h.readCount ∧ h'.sockopts = h.sockopts ∧ payloads o = [] := by
  cases hf with
  | empty => exact ⟨rfl, rfl, rfl, rfl⟩
  | wrote _ hws =>
    have hnil := payloads_writes _ hws
    exact ⟨rfl, rfl, rfl, hnil⟩

theorem Retry.readSide (hr : Retry h o h') :
    h'.queue = h.queue ∧ h'.readCount = h.readCount ∧ h'.sockopts = h.sockopts ∧ payloads o = [] := by
  cases hr <;> exact ⟨rfl, rfl, rfl, rfl⟩

/-- What a step does to the read side: the driver queue, the chunk list, the
options, and the data messages. -/
inductive ReadCase (h : UtpHandler) (e : Event) (o : List Effect) (h' : UtpHandler) : Prop
  | aside : h'.queue = h.queue → h'.readCount = h.readCount → h'.sockopts = h.sockopts → payloads o = [] →
      e.chunk = [] → ReadCase h e o h'
  /-- A `setopts` that sends nothing. -/
  | setOnly {p buf numericHost mem bin so} : e = .setopts p buf numericHost mem → decodeBinary buf = .some bin →
      h.sockopts.decodeAndMerge numericHost bin = .ok so →
      sendOnSetopts h.sockopts.active so.active h.readCount = false →
      h'.queue = h.queue → h'.readCount = h.readCount → h'.sockopts = so → payloads o = [] → ReadCase h e o h'
  /-- A chunk that stays in the queue of a passive socket. -/
  | queued {bytes mem} : e = .doRead bytes mem → bytes ≠ [] → h.sockopts.active = .activeFalse →
      (h.receiverWaiting = true → (h.received bytes).deliverable h.recvLen mem = false) →
      h' = h.received bytes → o = [] → ReadCase h e o h'
  | emitted {g g' len receiver qsize mem sent q o₁ o₂} : h.emissionOf e = .some (g, len, mem) →
      Emission g len receiver qsize mem sent q o₁ g' → o = o₁ ++ o₂ → payloads o₂ = [] →
      h'.queue = g'.queue → h'.readCount = g'.readCount → h'.sockopts = g'.sockopts →
      (receiver = .connected ∧ (g.sockopts.active ≠ .activeFalse → len = 0) ∨ g.sockopts.active = .activeFalse) →
      ReadCase h e o h'
  | stopped : e = .stop → h'.queue = [] → h'.readCount = h.readCount → h'.sockopts = h.sockopts → payloads o = [] →
      ReadCase h e o h'

/-- **Every step is one of these.** -/
theorem read_case (hs : Step h e o h') : ReadCase h e o h' := by
  cases hs with
  | recvSent hact hd he =>
    exact .emitted (emissionOf_recv hact hd) he (List.append_assoc _ _ _)
      (by rw [payloads_append, payloads_drainedCall]; rfl)
      rfl rfl rfl (.inr hact)
  | recvParked hact hd he => exact .emitted (emissionOf_recv hact hd) he rfl rfl rfl rfl rfl (.inr hact)
  | closeOpened _ _ hc =>
    obtain ⟨hq, hr, hso, ho⟩ := hc.readSide
    exact .aside hq hr hso (by rw [payloads_append, ho]; rfl) rfl
  | setoptsQuiet hd hm hsend =>
    exact .setOnly rfl hd hm hsend rfl rfl rfl (by rw [payloads_append, payloads_bufferSets]; rfl)
  | setoptsEmit hd hm hsend he =>
    exact .emitted (emissionOf_setopts hd hm hsend) he (List.append_assoc _ _ _)
      (by rw [payloads_append, payloads_bufferSets]; rfl) rfl rfl rfl (.inl ⟨rfl, fun _ => rfl⟩)
  | stopDeleted hc =>
    obtain ⟨-, hr, hso, ho⟩ := hc.readSide
    exact .stopped rfl rfl hr hso (by rw [payloads_append, ho]; rfl)
  | stopped hc =>
    obtain ⟨-, hr, hso, ho⟩ := hc.readSide
    exact .stopped rfl rfl hr hso ho
  | doReadQueued hb hact hrw => exact .queued rfl hb hact (by simp [hrw]) rfl rfl
  | doReadShort hb hact hrw hd => exact .queued rfl hb hact (fun _ => hd) rfl rfl
  | doReadAnswers hb hact hrw he =>
    exact .emitted (emissionOf_answers hb hact hrw) he rfl (payloads_drainedCall _ _) rfl rfl rfl (.inr hact)
  | doReadActive hb hact he =>
    exact .emitted (emissionOf_active hb hact) he rfl (payloads_drainedCall _ _) rfl rfl rfl (.inl ⟨rfl, fun _ => rfl⟩)
  | doWrite hws => exact .aside rfl rfl rfl (payloads_writes _ hws) rfl
  | eof _ hc | errorReset _ hc =>
    obtain ⟨hq, hr, hso, ho⟩ := hc.readSide
    exact .aside hq hr hso ho rfl
  | outputvAccepted _ _ _ _ hws =>
    refine .aside rfl rfl rfl ?_ rfl
    rw [List.cons_append, ← List.singleton_append, payloads_append, payloads_append, payloads_writes _ hws]
    rfl
  | writable hf hr =>
    obtain ⟨hq₁, hr₁, hso₁, ho₁⟩ := hf.readSide
    obtain ⟨hq₂, hr₂, hso₂, ho₂⟩ := hr.readSide
    exact .aside (hq₂.trans hq₁) (hr₂.trans hr₁) (hso₂.trans hso₁) (by simp [ho₁, ho₂]) rfl
  | writableCloses hf hr _ hc =>
    obtain ⟨hq₁, hr₁, hso₁, ho₁⟩ := hf.readSide
    obtain ⟨hq₂, hr₂, hso₂, ho₂⟩ := hr.readSide
    obtain ⟨hq₃, hr₃, hso₃, ho₃⟩ := hc.readSide
    exact .aside (hq₃.trans (hq₂.trans hq₁)) (hr₃.trans (hr₂.trans hr₁)) (hso₃.trans (hso₂.trans hso₁))
      (by simp [ho₁, ho₂, ho₃]) rfl
  | destroyingAnswers | destroyingNotifies =>
    exact .aside rfl rfl rfl (by rw [payloads_append, payloads_deselect]; split <;> rfl) rfl
  | destroyingDeletes => exact .aside rfl rfl rfl (by rw [payloads_append, payloads_deselect]; rfl) rfl
  | destroyingIgnored => exact .aside rfl rfl rfl (payloads_deselect h) rfl
  | errorConnecting _ ho =>
    refine .aside rfl rfl rfl (List.filterMap_eq_nil_iff.2 fun x hx => ?_) rfl
    obtain ⟨ref, rfl⟩ := ho x hx
    rfl
  | errorReported => exact .aside rfl rfl rfl (by split <;> rfl) rfl
  | _ => exact .aside rfl rfl rfl rfl rfl

theorem Agree.received (ha : Agree h.queue h.readCount) {bytes : List UInt8} (hb : bytes.length < 2 ^ 32) :
    Agree (h.received bytes).queue (h.received bytes).readCount := by
  refine ⟨by simp [UtpHandler.received, ha.sum], ?_⟩
  intro c hc
  rcases List.mem_append.1 hc with hc | hc
  · exact ha.small c hc
  · rw [List.mem_singleton.1 hc]
    exact hb

theorem Agree.call (ha : Agree h.queue h.readCount) (hc : e.chunk.length < 2 ^ 32) {g : UtpHandler} {len : Nat}
    {mem : Mem} (hcall : h.emissionOf e = .some (g, len, mem)) : Agree g.queue g.readCount := by
  rcases emissionOf_cases hcall with ⟨rfl, -⟩ | ⟨_, _, _, _, _, _, -, -, -, rfl⟩ | ⟨rfl, -⟩
  · exact ha
  · exact ha
  · exact ha.received hc

/-! ## One step -/

/-- What a step does to the accounts. -/
structure ReadStep (h : UtpHandler) (e : Event) (o : List Effect) (h' : UtpHandler) : Prop where
  agree : Agree h'.queue h'.readCount
  bytes : deliveredBytes o ++ h'.queue.flatten = h.queue.flatten ++ e.chunk
  lengths : ∀ p ∈ payloads o, p.pktSize = p.buf.length
  headers : ∀ p ∈ payloads o, p.header = h'.sockopts.header

theorem Emission.read {len : Nat} {receiver : Receiver} {qsize : Nat} {mem : Mem} {sent : Bool} {q : Nat}
    (he : Emission h len receiver qsize mem sent q o h') (ha : Agree h.queue h.readCount)
    (hp : h.PlainCall len mem) :
    Agree h'.queue h'.readCount ∧ deliveredBytes o ++ h'.queue.flatten = h.queue.flatten ∧
      (∀ p ∈ payloads o, p.pktSize = p.buf.length ∧ p.header = h'.sockopts.header) ∧
      (sent = true → h.sockopts.active = .activeTrue → h'.queue.flatten = []) := by
  cases he with
  | closed => exact ⟨ha, rfl, by simp [payloads, Effect.payload], by simp⟩
  | held => exact ⟨ha, rfl, by simp, by simp⟩
  | sent hd hm =>
    obtain ⟨hnone, hall⟩ := hp hd
    obtain ⟨ms, queue, rc, hm', hmoved, hag, htrue⟩ := delivery_plain hd ⟨ha, hnone, hall⟩
    obtain ⟨rfl, hq⟩ := Prod.mk.inj (Option.some.inj (hm'.symm.trans hm))
    obtain ⟨rfl, rfl⟩ := Prod.mk.inj hq
    refine ⟨hag, ?_, ?_, fun _ => htrue⟩
    · have hbuf : deliveredBytes (dataMessages h.sockopts receiver ms) = ms.flatMap Prod.fst := by
        rw [deliveredBytes, payloads_dataMessages, List.flatMap_map]
        cases receiver <;> rfl
      rw [hbuf]
      exact hmoved.bytes
    · intro p hp
      rw [payloads_dataMessages] at hp
      obtain ⟨m, hmem, rfl⟩ := List.mem_map.1 hp
      have hlen := hmoved.lengths m hmem
      have hhead : h.sockopts.header = h.sockopts.reverted.header := h.sockopts.reverted_header.symm
      cases receiver <;> exact ⟨hlen, hhead⟩

theorem ReadStep.frame (ha : Agree h.queue h.readCount) (hq : h'.queue = h.queue) (hr : h'.readCount = h.readCount)
    (he : e.chunk = []) (ho : payloads o = []) : ReadStep h e o h' :=
  ⟨by rw [hq, hr]; exact ha, by rw [deliveredBytes, ho, he, hq, List.append_nil]; rfl, by simp [ho], by simp [ho]⟩

/-- A step around one call of `emit_read_buffer`, in a state `g` that has
taken the event's chunk. -/
theorem ReadStep.emission {g g' : UtpHandler} {len : Nat} {receiver : Receiver} {qsize : Nat} {mem : Mem} {sent : Bool}
    {q : Nat} {o₁ o₂ : List Effect} (he : Emission g len receiver qsize mem sent q o₁ g')
    (ha : Agree g.queue g.readCount) (hp : g.PlainCall len mem)
    (hg : g.queue.flatten = h.queue.flatten ++ e.chunk) (hq : h'.queue = g'.queue)
    (hr : h'.readCount = g'.readCount) (hso : h'.sockopts = g'.sockopts) (ho : payloads o₂ = []) :
    ReadStep h e (o₁ ++ o₂) h' := by
  obtain ⟨hag, hb, hp, -⟩ := he.read ha hp
  have hpay : payloads (o₁ ++ o₂) = payloads o₁ := by rw [payloads_append, ho, List.append_nil]
  refine ⟨by rw [hq, hr]; exact hag, ?_, ?_, ?_⟩
  · rw [deliveredBytes, hpay, hq, ← hg]
    exact hb
  · intro p hmem
    exact (hp p (hpay ▸ hmem)).1
  · intro p hmem
    rw [hso]
    exact (hp p (hpay ▸ hmem)).2

/-- **A plain step keeps the accounts.** -/
theorem read_step (hs : Step h e o h') (ha : Agree h.queue h.readCount) (hp : PlainEvent h e) (hstop : e ≠ .stop) :
    ReadStep h e o h' := by
  cases read_case hs with
  | aside hq hr _ ho hc => exact .frame ha hq hr hc ho
  | setOnly he _ _ _ hq hr _ ho =>
    subst he
    exact .frame ha hq hr rfl ho
  | queued he _ _ _ hh ho =>
    subst he hh ho
    exact ⟨ha.received hp.chunk, by simp [received, deliveredBytes, Event.chunk], by simp, by simp⟩
  | @emitted g _ _ _ _ _ _ _ _ _ hcall hem ho ho₂ hq hr hso =>
    subst ho
    have hflat : g.queue.flatten = h.queue.flatten ++ e.chunk := by
      rcases emissionOf_cases hcall with ⟨rfl, hc⟩ | ⟨_, _, _, _, _, _, rfl, -, -, rfl⟩ | ⟨rfl, -⟩
      · rw [hc, List.append_nil]
      · exact (List.append_nil _).symm
      · simp [received]
    exact .emission hem (ha.call hp.chunk hcall) (hp.call _ _ _ hcall) hflat hq hr hso ho₂
  | stopped he => exact absurd he hstop

/-! ## When a step is defined -/

/-- The calls the receive stream is made of. The options of a `setopts` are
whole: its parser stays inside the binary. -/
def Reads (h : UtpHandler) : Event → Prop
  | .doRead _ _ => True
  | .recv _ _ _ => True
  | .cancelRecv _ => True
  | .setopts _ buf numericHost _ => ∀ bin f, decodeBinary buf = .some bin →
      h.sockopts.decodeAndMerge numericHost bin = .error f → f = .invalidArgument
  | _ => False

theorem emitReadBuffer_isSome {x : List Effect} {len : Nat} {receiver : Receiver} {qsize : Nat} {mem : Mem}
    (ha : Agree h.queue h.readCount) (hp : h.PlainCall len mem) :
    ({ h with out := x }.emitReadBuffer len receiver qsize mem).isSome = true := by
  rw [emitReadBuffer_eq]
  split
  · rfl
  split
  · next hd =>
    have hd : h.deliverable len mem = true := hd
    obtain ⟨hnone, hall⟩ := hp hd
    obtain ⟨ms, queue, rc, hm, -⟩ := delivery_plain hd ⟨ha, hnone, hall⟩
    have hm' : { h with out := x }.delivery len mem = .some (ms, queue, rc) := hm
    rw [hm']
    rfl
  · rfl

theorem reads_isSome (hc : ∀ g len mem, h.emissionOf e = .some (g, len, mem) → ∀ x receiver qsize,
      ({ g with out := x }.emitReadBuffer len receiver qsize mem).isSome = true)
    (he : Reads h e) : (machine h e).isSome = true := by
  rw [machine, Option.isSome_map]
  cases e with
  | doRead bytes mem =>
    simp only [handle, doRead]
    split
    · next hb =>
      have hb : bytes ≠ [] := by simpa using hb
      by_cases hact : h.sockopts.active = .activeFalse
      · simp only [driverEnq, hact, if_true]
        by_cases hrw : h.receiverWaiting = true
        · have hdef : ({ h.received bytes with out := [] }.emitReadBuffer h.recvLen (.proc h.caller h.callerRef) 1
              mem).isSome = true := hc _ _ _ (emissionOf_answers hb hact hrw) _ _ _
          refine (congrArg Option.isSome (if_pos hrw)).trans ?_
          rw [Option.isSome_map]
          exact hdef
        · exact (congrArg Option.isSome (if_neg hrw)).trans rfl
      · simp only [driverEnq, hact, if_false]
        rw [Option.isSome_map]
        exact hc _ _ _ (emissionOf_active hb hact) _ _ _
    · rfl
  | recv p buf mem =>
    simp only [handle, recv]
    split
    · rfl
    · next hact =>
      split
      · rfl
      · next len ref hd =>
        rw [Option.isSome_map]
        exact hc _ _ _ (emissionOf_recv (not_not.1 hact) hd) _ _ _
  | cancelRecv p => rfl
  | setopts p buf numericHost mem =>
    simp only [handle, setopts, socketSetopts, Option.isSome_map]
    split
    · rfl
    · next bin hd =>
      split
      · rfl
      · next f hne hm => exact absurd (he bin f hd hm) hne
      · next so hm =>
        split
        · next hs =>
          rw [Option.isSome_map]
          exact hc { h with sockopts := so } _ _ (emissionOf_setopts hd hm hs) _ _ _
        · rfl
  | _ => exact he.elim

/-- A plain read is defined: nothing takes the front of an empty list. -/
theorem reads_defined (ha : Agree h.queue h.readCount) (hp : PlainEvent h e) (he : Reads h e) :
    (machine h e).isSome = true := by
  refine reads_isSome (fun g len mem hcall x receiver qsize => ?_) he
  exact emitReadBuffer_isSome (ha.call hp.chunk hcall) (hp.call g len mem hcall)

/-! ## Runs of plain steps -/

/-- Plain events, before `stop`. -/
def PlainGuard : Runs.Guard UtpHandler Event (List Effect) := fun _ h e => e ≠ .stop ∧ PlainEvent h e

/-- What runs of plain steps keep. -/
structure Accounts (t : Trace) (h : UtpHandler) : Prop where
  agree : Agree h.queue h.readCount
  bytes : t.flatMap (fun x => deliveredBytes x.out) ++ h.queue.flatten = chunksRead t
  lengths : ∀ x ∈ t, ∀ p ∈ payloads x.out, p.pktSize = p.buf.length

theorem Accounts.start {h₀ : UtpHandler} (hq : h₀.queue = []) (hr : h₀.readCount = []) : Accounts [] h₀ :=
  ⟨by rw [hq, hr]; exact ⟨rfl, by simp⟩, by rw [hq]; rfl, by simp⟩

theorem Accounts.step {t : Trace} (hc : Accounts t h) (hg : PlainGuard t h e)
    (hm : machine h e = .some (h', o)) : Accounts (t ++ [⟨h, e, o⟩]) h' := by
  have hstep := read_step (machine_step hm) hc.agree hg.2 hg.1
  refine ⟨hstep.agree, ?_, ?_⟩
  · have hb := hc.bytes
    simp only [chunksRead, List.flatMap_append, List.flatMap_cons, List.flatMap_nil, List.append_nil] at hb ⊢
    rw [List.append_assoc, hstep.bytes, ← List.append_assoc, hb]
  · intro x hx
    rcases List.mem_append.1 hx with hx | hx
    · exact hc.lengths x hx
    · rw [List.mem_singleton.1 hx]
      exact hstep.lengths

theorem accounts {h₀ : UtpHandler} {t : Trace} (hq : h₀.queue = []) (hr : h₀.readCount = [])
    (run : Runs.Run machine PlainGuard [] h₀ t h) : Accounts t h :=
  run.invariant (.start hq hr) fun _ _ _ _ _ hc hg hm => hc.step hg hm

/-- **The read accounts hold as long as no frame is delivered**: in every run
of plain steps before `stop`, the chunk list adds up to the driver queue,
every data message carries the length of its buffer, and no read takes the
front of an empty chunk list. -/
theorem read_accounts {h₀ h : UtpHandler} {t : Trace} (hq : h₀.queue = []) (hr : h₀.readCount = [])
    (run : Runs.Run machine PlainGuard [] h₀ t h) :
    h.readCount.sum = h.sizeq ∧ (∀ x ∈ t, ∀ p ∈ payloads x.out, p.pktSize = p.buf.length) ∧
      (∀ e, Reads h e → PlainGuard t h e → (machine h e).isSome = true) := by
  have hc := accounts hq hr run
  exact ⟨hc.agree.sum, hc.lengths, fun e he hg => reads_defined hc.agree hg.2 he⟩

/-- Two chunks for a passive socket, and a read of three bytes across them. -/
theorem read_accounts_passive :
    ∃ t h, Runs.Run machine PlainGuard [] (startServer { SockOpts.new with active := .activeFalse } 1) t h ∧
      h.readCount = [1] ∧
      (h.readCount.sum = h.sizeq ∧ (∀ x ∈ t, ∀ p ∈ payloads x.out, p.pktSize = p.buf.length) ∧
        (∀ e, Reads h e → PlainGuard t h e → (machine h e).isSome = true)) :=
  have run := (((Runs.Run.start machine PlainGuard
      (startServer { SockOpts.new with active := .activeFalse } 1)).next (.doRead [1, 2] fun _ => 0)
      ⟨nofun, by rintro _ _ _ ⟨⟩, by decide⟩ rfl).next (.doRead [3, 4] fun _ => 0)
      ⟨nofun, by rintro _ _ _ ⟨⟩, by decide⟩ rfl).next
      (.recv 1 [.version, .tuple 2, .int 3, .binary [9]] fun _ => 0)
      ⟨nofun, by rintro _ _ _ ⟨⟩ -; exact ⟨rfl, fun _ h0 => absurd h0 (by decide)⟩, by decide⟩ rfl
  ⟨_, _, run, rfl, read_accounts rfl rfl run⟩

/-- **A framed delivery parts them**: what is left of the chunk list is one
length header longer than what is left of the queue. -/
theorem framed_delivery_drifts {len : Nat} {mem : Mem} (hd : h.deliverable len mem = true)
    (hk : h.announced mem ≠ 0) (hfit : h.sockopts.packet + h.announced mem < 2 ^ 32)
    (ha : Agree h.queue h.readCount) :
    ∃ ms queue rc, h.delivery len mem = .some (ms, queue, rc) ∧ rc.sum = size queue + h.sockopts.packet := by
  simp only [deliverable, decide_eq_true_eq, hk, false_or, Nat.mod_eq_of_lt hfit] at hd
  obtain ⟨-, -, -, hframe⟩ := hd
  have hframe : h.sockopts.packet + h.announced mem ≤ size h.queue := hframe
  have hsize : size (deqSegs h.sockopts.packet h.queue) = size h.queue - h.sockopts.packet := size_deqSegs (by omega)
  obtain ⟨rc, hrc, hsum, -⟩ := reduceReadCount_eq h.readCount (Nat.zero_le (h.announced mem)) (by rw [ha.sum]; omega)
  set queue := deqSegs h.sockopts.packet h.queue with hqueue
  have hlen : (takeSegs (h.announced mem) queue).length = h.announced mem := length_takeSegs (by omega)
  have hdel : h.delivery len mem = .some ([(takeSegs (h.announced mem) queue, h.announced mem)],
      deqSegs (h.announced mem) queue, rc) := by
    rw [delivery, if_pos hk, hrc, Option.bind_some, takePacket, ← hqueue, if_neg (by omega)]
  refine ⟨_, _, rc, hdel, ?_⟩
  rw [hsum, ha.sum, size_deqSegs (by omega), hsize]
  omega

/-- One frame in one-byte packet mode leaves its header's byte on the chunk
list. Back in raw mode the next chunk is sent as two messages, the second
with one byte announced and none in its buffer. -/
theorem framed_then_raw_overreads :
    (∃ t h, Runs.Run machine (fun _ h e => Reads h e) [] (startServer { SockOpts.new with packet := 1 } 1) t h ∧
      h.readCount.sum = 1 ∧ h.sizeq = 0) ∧
    ∃ t h, Runs.Run machine (fun _ h e => Reads h e) [] (startServer { SockOpts.new with packet := 1 } 1) t h ∧
      ∃ x ∈ t, ∃ p ∈ payloads x.out, p.pktSize = 1 ∧ p.buf = [] := by
  have run := (Runs.Run.start machine (fun _ h e => Reads h e) (startServer { SockOpts.new with packet := 1 } 1)).next
    (.doRead [1, 0xAA] fun _ => 0) trivial rfl
  refine ⟨⟨_, _, run, rfl, rfl⟩, ?_⟩
  have run := (run.next (.setopts 1 [.version, .binary [11, 0]] (fun _ => false) fun _ => 0)
    (by rintro _ _ ⟨⟩ ⟨⟩) rfl).next (.doRead [5] fun _ => 0) trivial rfl
  exact ⟨_, _, run, _, List.mem_append_right _ (List.mem_singleton.2 rfl),
    ⟨[], 1, 0, .dataList⟩, by decide, rfl, rfl⟩

end UtpHandler

/-! ## Raw mode -/

/-- One of the three values of the option. -/
def Active.Valid (a : Active) : Prop := ∀ b, a ≠ .invalid b

/-- Raw options: no length header, no list header. -/
structure SockOpts.Raw (so : SockOpts) : Prop where
  packet : so.packet = 0
  header : so.header = 0
  active : so.active.Valid

theorem SockOpts.Raw.reverted {so : SockOpts} (h : so.Raw) : so.reverted.Raw := by
  refine ⟨by simp [h.packet], by simp [h.header], ?_⟩
  rw [SockOpts.reverted_active]
  split
  · exact nofun
  · exact h.active

namespace UtpHandler

variable {h h' : UtpHandler} {e : Event} {o : List Effect}

/-- A run in raw mode before `stop`: chunks are not empty, fewer than
`2 ^ 32` bytes are queued, and `setopts` keeps `packet` and `header` at 0. -/
def RawGuard : Runs.Guard UtpHandler Event (List Effect) := fun _ h e =>
  match e with
  | .stop => False
  | .doRead bytes _ => bytes ≠ [] ∧ h.sizeq + bytes.length < 2 ^ 32
  | .setopts _ buf numericHost _ => ∀ bin, decodeBinary buf = .some bin →
      h.sockopts.decodeAndMerge numericHost bin = .error .invalidArgument ∨
        ∃ so, h.sockopts.decodeAndMerge numericHost bin = .ok so ∧ so.Raw
  | _ => True

/-- What raw mode keeps beside the accounts: only a passive socket holds
bytes back. -/
structure RawOk (h : UtpHandler) : Prop where
  raw : h.sockopts.Raw
  small : h.sizeq < 2 ^ 32
  idle : h.sockopts.active ≠ .activeFalse → h.sizeq = 0

theorem announced_of_raw (hr : h.sockopts.packet = 0) (mem : Mem) : h.announced mem = 0 := by
  simp only [announced, hr]

theorem received_small {t : Trace} {bytes : List UInt8} {mem : Mem} (hg : RawGuard t h (.doRead bytes mem)) :
    (h.received bytes).sizeq < 2 ^ 32 := by
  have hlt : h.sizeq + bytes.length < 2 ^ 32 := hg.2
  simpa [sizeq, received] using hlt

theorem RawOk.call {t : Trace} {g : UtpHandler} {len : Nat} {mem : Mem} (hi : RawOk h) (hg : RawGuard t h e)
    (hcall : h.emissionOf e = .some (g, len, mem)) : g.sockopts.Raw ∧ g.sizeq < 2 ^ 32 := by
  rcases emissionOf_cases hcall with ⟨rfl, -⟩ | ⟨p, buf, numericHost, m, bin, so, rfl, hd, hm, rfl⟩ | ⟨rfl, hne⟩
  · exact ⟨hi.raw, hi.small⟩
  · rcases hg bin hd with hm' | ⟨so', hm', hraw⟩ <;> cases hm.symm.trans hm'
    exact ⟨hraw, hi.small⟩
  · cases e with
    | doRead bytes m => exact ⟨hi.raw, received_small hg⟩
    | _ => exact absurd rfl hne

theorem RawOk.plain {t : Trace} (hi : RawOk h) (hg : RawGuard t h e) : PlainEvent h e := by
  refine ⟨?_, ?_⟩
  · intro g len mem hcall _
    obtain ⟨hraw, hsmall⟩ := hi.call hg hcall
    exact ⟨announced_of_raw hraw.packet mem, fun _ _ => hsmall⟩
  · cases e with
    | doRead bytes m =>
      have hlt : h.sizeq + bytes.length < 2 ^ 32 := hg.2
      exact Nat.lt_of_le_of_lt (Nat.le_add_left _ _) hlt
    | _ => exact Nat.two_pow_pos 32

/-- A delivery empties the queue of an active socket, or makes it passive. -/
theorem Emission.raw {len : Nat} {receiver : Receiver} {qsize : Nat} {mem : Mem} {sent : Bool} {q : Nat}
    (he : Emission h len receiver qsize mem sent q o h') (ha : Agree h.queue h.readCount) (hr : h.sockopts.Raw)
    (hs : h.sizeq < 2 ^ 32) (hlen : h.sockopts.active ≠ .activeFalse → len = 0) : RawOk h' := by
  have hplain : h.PlainCall len mem := fun _ => ⟨announced_of_raw hr.packet mem, fun _ _ => hs⟩
  obtain ⟨-, hbytes, -, hdrained⟩ := he.read ha hplain
  have hle : h'.sizeq ≤ h.sizeq := by
    have hl := congrArg List.length hbytes
    rw [List.length_append] at hl
    simp only [sizeq, size]
    omega
  cases he with
  | closed _ h0 => exact ⟨hr, hs, fun _ => h0⟩
  | held _ hd =>
    refine ⟨hr, hs, fun hact => ?_⟩
    have hl := hlen hact
    simp only [deliverable, decide_eq_false_iff_not, announced_of_raw hr.packet, hr.packet, hl] at hd
    omega
  | sent hd hm =>
    refine ⟨hr.reverted, Nat.lt_of_le_of_lt hle hs, fun hact => ?_⟩
    have htrue : h.sockopts.active = .activeTrue := by
      have hact : h.sockopts.reverted.active ≠ .activeFalse := hact
      rw [SockOpts.reverted_active] at hact
      cases hv : h.sockopts.active with
      | activeFalse => simp [hv] at hact
      | activeOnce => simp [hv] at hact
      | activeTrue => rfl
      | invalid b => exact absurd hv (hr.active b)
    exact size_eq_zero.2 (hdrained rfl htrue)

theorem RawOk.of_eq (hi : RawOk h) (hq : h'.queue = h.queue) (hso : h'.sockopts = h.sockopts) : RawOk h' :=
  ⟨by rw [hso]; exact hi.raw, by rw [sizeq, hq]; exact hi.small, by rw [hso, sizeq, hq]; exact hi.idle⟩

/-- A `setopts` that sends nothing leaves nothing to send. -/
theorem RawOk.setopts_quiet {so : SockOpts} (hi : RawOk h) (ha : Agree h.queue h.readCount) (hr : so.Raw)
    (hs : sendOnSetopts h.sockopts.active so.active h.readCount = false) : RawOk { h with sockopts := so } := by
  refine ⟨hr, hi.small, fun hact => ?_⟩
  show h.sizeq = 0
  cases hold : h.sockopts.active with
  | activeFalse =>
    -- armed with an empty chunk list, so the queue is empty too
    cases hnew : so.active with
    | activeFalse => exact absurd hnew hact
    | activeOnce =>
      rw [hold, hnew] at hs
      have hnil : h.readCount = [] := by simpa [sendOnSetopts] using hs
      have hsum := ha.sum
      rw [hnil] at hsum
      exact hsum.symm
    | activeTrue => simp [sendOnSetopts, hold, hnew] at hs
    | invalid b => exact absurd hnew (hr.active b)
  | activeOnce => exact hi.idle (by simp [hold])
  | activeTrue => exact hi.idle (by simp [hold])
  | invalid b => exact absurd hold (hi.raw.active b)

/-- **A step in raw mode keeps raw mode**, and holds bytes back only from a
passive socket. -/
theorem raw_step {t : Trace} (hs : Step h e o h') (hi : RawOk h) (ha : Agree h.queue h.readCount)
    (hg : RawGuard t h e) : RawOk h' := by
  cases read_case hs with
  | aside hq _ hso => exact hi.of_eq hq hso
  | setOnly he hd hm hsend hq _ hso =>
    subst he
    rcases hg _ hd with hm' | ⟨so, hm', hraw⟩ <;> cases hm.symm.trans hm'
    exact (hi.setopts_quiet ha hraw hsend).of_eq hq hso
  | queued he _ hact _ hh =>
    subst he hh
    exact ⟨hi.raw, received_small hg, fun hne => absurd hact hne⟩
  | @emitted g _ _ _ _ _ _ _ _ _ hcall hem _ _ hq _ hso hrec =>
    obtain ⟨hraw, hsmall⟩ := hi.call hg hcall
    have hag := ha.call (hi.plain hg).chunk hcall
    refine (hem.raw hag hraw hsmall fun hne => ?_).of_eq hq hso
    rcases hrec with ⟨-, hlen⟩ | hact
    · exact hlen hne
    · exact absurd hact hne
  | stopped he =>
    subst he
    exact hg.elim

/-- A handler that has read nothing, in raw mode. -/
structure RawStart (h : UtpHandler) : Prop where
  queue : h.queue = []
  readCount : h.readCount = []
  raw : h.sockopts.Raw

/-- In a run in raw mode every payload is the whole of its buffer. -/
theorem raw_payload {t : Trace} (hs : ReadStep h e o h') (hi : RawOk h) (hi' : RawOk h') (hg : RawGuard t h e)
    {p : Payload} (hp : p ∈ payloads o) : p.data = .some p.buf := by
  have hhead : p.header = 0 := (hs.headers p hp).trans hi'.raw.header
  have hlen := hs.lengths p hp
  have hbuf : p.buf.length ≤ (deliveredBytes o).length := by
    obtain ⟨u, v, huv⟩ := List.append_of_mem hp
    rw [deliveredBytes, huv, List.flatMap_append, List.flatMap_cons]
    simp only [List.length_append]
    omega
  have hchunk : h.sizeq + e.chunk.length < 2 ^ 32 := by
    cases e with
    | doRead bytes mem => exact hg.2
    | _ => exact hi.small
  have hb := congrArg List.length hs.bytes
  simp only [List.length_append] at hb
  have hsmall : p.pktSize < 2 ^ 32 := by
    rw [hlen]
    simp only [sizeq, size] at hchunk
    omega
  have htail : p.tailLen = p.buf.length := by
    rw [Payload.tailLen, hhead, Nat.sub_zero, Nat.add_mod_right, Nat.mod_eq_of_lt hsmall, hlen]
  rw [Payload.data, htail, hhead, Nat.zero_add, if_pos (Nat.le_refl _), List.take_length]

/-- What every run in raw mode keeps. -/
structure RawAccounts (t : Trace) (h : UtpHandler) : Prop where
  ok : RawOk h
  accounts : Accounts t h
  whole : ∀ x ∈ t, ∀ p ∈ payloads x.out, p.data = .some p.buf

theorem raw_accounts {h₀ : UtpHandler} {t : Trace} (h₀raw : RawStart h₀)
    (run : Runs.Run machine RawGuard [] h₀ t h) : RawAccounts t h := by
  have hnil : h₀.sizeq = 0 := by rw [sizeq, h₀raw.queue]; rfl
  have hstart : RawAccounts [] h₀ :=
    ⟨⟨h₀raw.raw, by rw [hnil]; decide, fun _ => hnil⟩, .start h₀raw.queue h₀raw.readCount, by simp⟩
  refine run.invariant hstart fun t h e h' o hi hg hm => ?_
  have hplain : PlainEvent h e := hi.ok.plain hg
  have hstop : e ≠ .stop := fun he => by rw [he] at hg; exact hg
  have hok' := raw_step (machine_step hm) hi.ok hi.accounts.agree hg
  have hread := read_step (machine_step hm) hi.accounts.agree hplain hstop
  refine ⟨hok', hi.accounts.step ⟨hstop, hplain⟩ hm, ?_⟩
  intro x hx p hp
  rcases List.mem_append.1 hx with hx | hx
  · exact hi.whole x hx p hp
  · rw [List.mem_singleton.1 hx] at hp
    exact raw_payload hread hi.ok hok' hg hp

/-- **The receive stream is conserved in raw mode**: in every run before
`stop`, the payloads delivered are whole, and with the driver queue they are
the chunks read, in order. The chunk list adds up to the queue, an active
socket holds nothing back, and no read takes the front of an empty chunk
list. -/
theorem raw_stream_conserved {h₀ h : UtpHandler} {t : Trace} (h₀raw : RawStart h₀)
    (run : Runs.Run machine RawGuard [] h₀ t h) :
    (∀ x ∈ t, ∀ p ∈ payloads x.out, p.data = .some p.buf) ∧
      t.flatMap (fun x => (payloads x.out).flatMap (·.buf)) ++ h.queue.flatten = chunksRead t ∧
      h.readCount.sum = h.sizeq ∧ (h.sockopts.active ≠ .activeFalse → h.sizeq = 0) ∧
      (∀ e, Reads h e → RawGuard t h e → (machine h e).isSome = true) := by
  have hc := raw_accounts h₀raw run
  refine ⟨hc.whole, hc.accounts.bytes, hc.accounts.agree.sum, hc.ok.idle, ?_⟩
  exact fun e he hg => reads_defined hc.accounts.agree (hc.ok.plain hg) he

/-- A chunk held back, a read of its first byte, then `active` set to true. -/
theorem raw_stream_conserved_switch :
    ∃ t h, Runs.Run machine RawGuard [] (startServer { SockOpts.new with active := .activeFalse } 1) t h ∧
      t.flatMap (fun x => (payloads x.out).map (·.buf)) = [[1], [2, 3]] ∧
      ((∀ x ∈ t, ∀ p ∈ payloads x.out, p.data = .some p.buf) ∧
        t.flatMap (fun x => (payloads x.out).flatMap (·.buf)) ++ h.queue.flatten = chunksRead t ∧
        h.readCount.sum = h.sizeq ∧ (h.sockopts.active ≠ .activeFalse → h.sizeq = 0) ∧
        (∀ e, Reads h e → RawGuard t h e → (machine h e).isSome = true)) :=
  have run := (((Runs.Run.start machine RawGuard
      (startServer { SockOpts.new with active := .activeFalse } 1)).next (.doRead [1, 2, 3] fun _ => 0)
      ⟨nofun, by decide⟩ rfl).next (.recv 1 [.version, .tuple 2, .int 1, .binary [9]] fun _ => 0) trivial rfl).next
      (.setopts 1 [.version, .binary [10, 2]] (fun _ => false) fun _ => 0)
      (by rintro _ ⟨⟩; exact .inr ⟨_, rfl, ⟨rfl, rfl, show Active.Valid .activeTrue from fun _ hb => by cases hb⟩⟩) rfl
  ⟨_, _, run, rfl, raw_stream_conserved ⟨rfl, rfl, ⟨rfl, rfl, fun _ hb => by cases hb⟩⟩ run⟩

end UtpHandler

end GenUtp
