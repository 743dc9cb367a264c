/-
How a handler ends: the states `closing`, `destroying` and `stopped`, and
the deletion.

`stop` deletes a handler that is `destroying`, UTP_STATE_DESTROYING one that
is `stopped`, so each must find what the other left in `status`. `Calm` says
what every other step does to it. Three steps overwrite it: a WRITABLE whose
flush completes a pending close after `stop`, a close request that comes
after the end, and a connection taken by a handler that has closed its
socket. In every run without these (`KeepsStatus`) the handler is deleted
exactly once, by the later of the two (`deleted_once`); a run with the first
is `flush_after_stop_leaks`.

The states are final but for that last step: nothing else makes a handler
`connected` again, and only a WRITABLE callback makes it `writable`, which
opens nothing, as `outputv` asks for `connected` first (`no_resurrection`).

Of libutp it is assumed that CONNECT comes at most once, before any send and
not after `UTP_Close`, and DESTROYING at most once and after `UTP_Close`.
-/
import GenUtp.Sockets

namespace GenUtp

/-! ## What has happened -/

/-- The ways a handler starts. -/
inductive Started : UtpHandler → Prop
  | client (so : SockOpts) (s : UTPSocket) : Started (UtpHandler.startClient so s)
  | server (so : SockOpts) (s : UTPSocket) : Started (UtpHandler.startServer so s)

namespace Event

def isStop : Event → Bool
  | .stop => true
  | _ => false

def isSend : Event → Bool
  | .outputv .. => true
  | _ => false

def isConnect : Event → Bool
  | .stateChange .connect _ => true
  | _ => false

def isWritable : Event → Bool
  | .stateChange .writable _ => true
  | _ => false

def isDestroying : Event → Bool
  | .stateChange .destroying _ => true
  | _ => false

variable {e : Event}

theorem eq_stop (h : e.isStop = true) : e = .stop := by
  cases e with
  | stop => rfl
  | _ => cases h

theorem eq_connect (h : e.isConnect = true) : ∃ w, e = .stateChange .connect w := by
  cases e with
  | stateChange s w => cases s <;> first | exact ⟨w, rfl⟩ | cases h
  | _ => cases h

theorem eq_writable (h : e.isWritable = true) : ∃ w, e = .stateChange .writable w := by
  cases e with
  | stateChange s w => cases s <;> first | exact ⟨w, rfl⟩ | cases h
  | _ => cases h

theorem eq_destroying (h : e.isDestroying = true) : ∃ w, e = .stateChange .destroying w := by
  cases e with
  | stateChange s w => cases s <;> first | exact ⟨w, rfl⟩ | cases h
  | _ => cases h

end Event

/-- An event of this kind is in the trace. -/
def seen (p : Event → Bool) (t : Trace) : Bool := t.any fun x => p x.event

@[simp] theorem seen_nil (p : Event → Bool) : seen p [] = false := rfl

@[simp] theorem seen_snoc (p : Event → Bool) (t : Trace) (h : UtpHandler) (e : Event) (o : List Effect) :
    seen p (t ++ [⟨h, e, o⟩]) = (seen p t || p e) := by
  simp [seen]

def Effect.isClose : Effect → Bool
  | .utp _ (.close _) => true
  | _ => false

/-- Neither a `UTP_Close` nor a `delete`. -/
def Effect.mild : Effect → Bool
  | .utp _ (.close _) => false
  | .delete => false
  | _ => true

theorem not_close_of_mild {o : List Effect} (h : o.all Effect.mild = true) : o.any Effect.isClose = false := by
  rw [List.any_eq_false]
  intro x hx
  have hmild := List.all_eq_true.1 h x hx
  unfold Effect.isClose
  split
  · cases hmild
  · simp

theorem not_delete_of_mild {o : List Effect} (h : o.all Effect.mild = true) : .delete ∉ o :=
  fun hmem => by cases List.all_eq_true.1 h _ hmem

/-- `UTP_Close` has been called. -/
def closeSeen (t : Trace) : Bool := (effects t).any Effect.isClose

@[simp] theorem closeSeen_snoc (t : Trace) (h : UtpHandler) (e : Event) (o : List Effect) :
    closeSeen (t ++ [⟨h, e, o⟩]) = (closeSeen t || o.any Effect.isClose) := by
  simp [closeSeen]

namespace UtpHandler

variable {h h' : UtpHandler} {e : Event} {o : List Effect} {t : Trace}

/-- CONNECT comes at most once, before any send and not after `UTP_Close`. -/
def ConnectOnce (t : Trace) (e : Event) : Prop :=
  e.isConnect = true → seen Event.isConnect t = false ∧ seen Event.isSend t = false ∧ closeSeen t = false

@[simp] theorem all_mild_dataMessages (so : SockOpts) (receiver : Receiver) (ms : List Packet) :
    (dataMessages so receiver ms).all Effect.mild = true :=
  all_dataMessages so receiver ms fun _ => by cases receiver <;> rfl

@[simp] theorem all_mild_bufferSets (utp : Option UTPSocket) (saved so : SockOpts) :
    (bufferSets utp saved so).all Effect.mild = true :=
  all_bufferSets utp saved so fun _ _ => rfl

@[simp] theorem all_mild_drainedCall (utp : Option UTPSocket) (qsize : Nat) :
    (drainedCall utp qsize).all Effect.mild = true :=
  all_drainedCall utp qsize rfl

@[simp] theorem all_mild_deselect (h : UtpHandler) : h.deselect.all Effect.mild = true :=
  all_deselect h rfl

/-! ## What a `UTP_Write` leaves of the queue -/

theorem popLoop_size : ∀ (queue : List (List UInt8)) (sz offset count : Nat) {r : List UInt8 × WriteQueue},
    WriteQueue.popLoop queue sz offset count = .some r → r.2.size = sz - count
  | queue, sz, offset, 0, r, hr => by
    have hr : r = ([], ⟨queue, sz, offset⟩) := by
      cases queue <;> exact (Option.some.inj hr).symm
    rw [hr]
    rfl
  | [], _, _, _ + 1, _, hr => by cases hr
  | bin :: queue, sz, offset, count + 1, r, hr => by
    simp only [WriteQueue.popLoop] at hr
    split at hr
    · obtain rfl := Option.some.inj hr
      rfl
    · obtain ⟨r', hr', rfl⟩ := Option.map_eq_some_iff.1 hr
      have hsize := popLoop_size _ _ _ _ hr'
      show r'.2.size = sz - (count + 1)
      rw [hsize]
      omega

theorem writes_size : ∀ (counts : List Nat) {wq wq' : WriteQueue} {ws : List Effect},
    writes wq counts = .some (ws, wq') → wq'.size = wq.size - counts.sum
  | [], _, _, _, hw => by
    simp only [writes, Option.some.injEq, Prod.mk.injEq] at hw
    obtain ⟨-, rfl⟩ := hw
    rfl
  | count :: counts, wq, _, _, hw => by
    simp only [writes] at hw
    rw [List.sum_cons]
    split at hw
    · next h0 =>
      rw [h0, Nat.zero_add]
      exact writes_size counts hw
    · simp only [Option.bind_eq_some_iff, Option.map_eq_some_iff, Prod.mk.injEq] at hw
      obtain ⟨r, hr, rest, hrest, -, rfl⟩ := hw
      have hsize := writes_size counts hrest
      have hpop : r.2.size = wq.size - count := popLoop_size _ _ _ _ hr
      rw [hsize, hpop]
      omega

theorem all_mild_writes (counts : List Nat) {wq wq' : WriteQueue} {ws : List Effect}
    (hw : writes wq counts = .some (ws, wq')) : ws.all Effect.mild = true :=
  all_writes (fun _ _ => rfl) counts hw

theorem Flush.life {w : UtpWrite} (hf : Flush h w o h') : h'.status = h.status ∧ h'.utp = h.utp ∧
    h'.closePending = h.closePending ∧ o.all Effect.mild = true ∧
    (h'.writeQueue.size = 0 → h.writeQueue.size ≤ (w.counts h.writeQueue.size).sum) := by
  cases hf with
  | empty h0 => exact ⟨rfl, rfl, rfl, rfl, fun _ => by rw [h0]; exact Nat.zero_le _⟩
  | @wrote ws wq _ hws =>
    have hsize := writes_size _ hws
    have hmild := all_mild_writes _ hws
    refine ⟨rfl, rfl, rfl, by simpa [Effect.mild] using hmild, fun h0 => ?_⟩
    have h0 : wq.size = 0 := h0
    omega

theorem CloseUtp.life (hc : CloseUtp h o h') : (h'.status = h.status ∨ h'.status = .closing) ∧
    (o.any Effect.isClose = true → h'.status = .closing) ∧
    (h.utp ≠ .none → o.any Effect.isClose = false → h'.utp ≠ .none) ∧ .delete ∉ o ∧
    h'.writeQueue = h.writeQueue ∧ h'.writable = h.writable := by
  cases hc with
  | done => exact ⟨.inr rfl, fun _ => rfl, fun _ hany => by simp [Effect.isClose] at hany, by simp, rfl, rfl⟩
  | skipped => exact ⟨.inl rfl, nofun, fun hu _ => hu, by simp, rfl, rfl⟩

theorem Retry.life (hr : Retry h o h') : h'.status = h.status ∧ h'.utp = h.utp ∧ h'.writeQueue = h.writeQueue ∧
    h'.writable = h.writable ∧ o.all Effect.mild = true := by
  cases hr <;> exact ⟨rfl, rfl, rfl, rfl, rfl⟩

theorem Emission.life {len : Nat} {receiver : Receiver} {qsize : Nat} {mem : Mem} {sent : Bool} {q : Nat}
    (he : Emission h len receiver qsize mem sent q o h') : h'.status = h.status ∧ h'.utp = h.utp ∧
    h'.writeQueue = h.writeQueue ∧ h'.writable = h.writable ∧ o.all Effect.mild = true := by
  cases he <;> simp [delivered, Effect.mild]

/-! ## The socket and the write queue -/

/-- Only `UTP_Close` gives up the socket. -/
theorem socket_step (hs : Step h e o h') (hu : h.utp ≠ .none) (hc : o.any Effect.isClose = false) :
    h'.utp ≠ .none := by
  cases hs with
  | recvSent _ _ he | recvParked _ _ he | doReadAnswers _ _ _ he | doReadActive _ _ he =>
    have heq := he.life.2.1
    intro hn
    exact hu (heq.symm.trans hn)
  | setoptsEmit _ _ _ he =>
    have heq := he.life.2.1
    intro hn
    exact hu (heq.symm.trans hn)
  | closeOpened _ _ hcl => exact hcl.life.2.2.1 hu (by simpa [Effect.isClose] using hc)
  | stopDeleted hcl => exact hcl.life.2.2.1 hu (by simpa [Effect.isClose] using hc)
  | stopped hcl => exact hcl.life.2.2.1 hu hc
  | eof _ hcl => exact hcl.life.2.2.1 hu hc
  | errorReset _ hcl => exact hcl.life.2.2.1 hu hc
  | writable hf hr =>
    have heq : h'.utp = h.utp := hr.life.2.1.trans hf.life.2.1
    rwa [heq]
  | @writableCloses _ _ _ _ h₂ _ _ hf hr _ hcl =>
    have heq : h₂.utp = h.utp := hr.life.2.1.trans hf.life.2.1
    refine hcl.life.2.2.1 (by rwa [heq]) ?_
    rw [List.any_append, Bool.or_eq_false_iff] at hc
    exact hc.2
  | incomingTaken _ hn => exact absurd hn hu
  | _ => exact hu

/-- Only a send fills the write queue. -/
theorem size_step (hs : Step h e o h') (he : e.isSend = false) (h0 : h.writeQueue.size = 0) :
    h'.writeQueue.size = 0 := by
  cases hs with
  | outputvAccepted => cases he
  | recvSent _ _ hem | recvParked _ _ hem | doReadAnswers _ _ _ hem | doReadActive _ _ hem =>
    have hq := hem.life.2.2.1
    exact (congrArg WriteQueue.size hq).trans h0
  | setoptsEmit _ _ _ hem =>
    have hq := hem.life.2.2.1
    exact (congrArg WriteQueue.size hq).trans h0
  | closeOpened _ _ hcl | stopDeleted hcl | stopped hcl | errorReset _ hcl =>
    have hq := hcl.life.2.2.2.2.1
    exact (congrArg WriteQueue.size hq).trans h0
  | doWrite hws =>
    have hsize := writes_size _ hws
    exact hsize.trans (by rw [h0, Nat.zero_sub])
  | eof _ hcl =>
    have hq := hcl.life.2.2.2.2.1
    exact congrArg WriteQueue.size hq
  | eofStopped => rfl
  | writable hf hr =>
    have hq := hr.life.2.2.1
    rw [hq]
    cases hf with
    | empty => exact h0
    | wrote hne => exact absurd h0 hne
  | writableCloses hf hr _ hcl =>
    have hq₃ := hcl.life.2.2.2.2.1
    have hq₂ := hr.life.2.2.1
    rw [hq₃, hq₂]
    cases hf with
    | empty => exact h0
    | wrote hne => exact absurd h0 hne
  | _ => exact h0

/-! ## Every step but the last two -/

/-- The steps that overwrite how a handler ended are left out: a close
request after the end, a WRITABLE that completes a pending close after
`stop`, and a connection taken without a socket. -/
def KeepsStatus (h : UtpHandler) : Event → Prop
  | .close _ _ => h.closeOpens → h.status ≠ .stopped ∧ h.status ≠ .destroying
  | .stateChange .writable w => ¬(h.status = .stopped ∧ h.closePending = true ∧ h.utp ≠ .none ∧
      h.writeQueue.size ≤ (w.counts h.writeQueue.size).sum)
  | .doIncoming _ => h.kind = .client ∨ h.utp ≠ .none
  | _ => True

/-- What a step does to the end of a handler, when it is neither `stop` nor
DESTROYING. -/
structure Calm (h : UtpHandler) (e : Event) (o : List Effect) (h' : UtpHandler) : Prop where
  stopped : h.status = .stopped → h'.status = .stopped
  destroying : h.status = .destroying → h'.status = .destroying
  neither : h.status ≠ .stopped → h.status ≠ .destroying → h'.status ≠ .stopped ∧ h'.status ≠ .destroying
  closing : h.status = .closing → e.isConnect = false → h'.status = .closing
  closes : o.any Effect.isClose = true → h'.status = .closing
  noDelete : .delete ∉ o

theorem Calm.frame (hs : h'.status = h.status) (ho : o.all Effect.mild = true) : Calm h e o h' where
  stopped := fun hst => hs.trans hst
  destroying := fun hst => hs.trans hst
  neither := fun h₁ h₂ => by rw [hs]; exact ⟨h₁, h₂⟩
  closing := fun hst _ => hs.trans hst
  closes := fun hc => by rw [not_close_of_mild ho] at hc; cases hc
  noDelete := not_delete_of_mild ho

theorem Calm.move (h₁ : h.status ≠ .stopped) (h₂ : h.status ≠ .destroying)
    (h₃ : h.status = .closing → e.isConnect = true)
    (hs : h'.status ≠ .stopped ∧ h'.status ≠ .destroying) (ho : o.all Effect.mild = true) : Calm h e o h' where
  stopped := fun hst => absurd hst h₁
  destroying := fun hst => absurd hst h₂
  neither := fun _ _ => hs
  closing := fun hst hc => by rw [h₃ hst] at hc; cases hc
  closes := fun hc => by rw [not_close_of_mild ho] at hc; cases hc
  noDelete := not_delete_of_mild ho

theorem Calm.close {h₁ h₂ : UtpHandler} {o₁ o₂ o₃ : List Effect} (hc : CloseUtp h₁ o₂ h₂) (hs₁ : h₁.status = h.status)
    (hu₁ : h₁.utp = h.utp) (hs : h'.status = h₂.status)
    (hstop : h.status = .stopped → h.utp ≠ .none → h₁.writeQueue.size ≠ 0)
    (ho₁ : o₁.all Effect.mild = true) (ho₃ : o₃.all Effect.mild = true) : Calm h e (o₁ ++ o₂ ++ o₃) h' := by
  cases hc with
  | done hsome hd h0 =>
    rw [hu₁] at hsome
    rw [hs₁] at hd
    have hns : h.status ≠ .stopped := fun hst => hstop hst (by simp [hsome]) h0
    have hcl : h'.status = .closing := hs
    refine ⟨fun hst => absurd hst hns, fun hst => absurd hst hd, ?_, fun _ _ => hcl, fun _ => hcl, ?_⟩
    · intro _ _
      rw [hcl]
      exact ⟨nofun, nofun⟩
    · intro hmem
      simp only [List.append_assoc, List.mem_append, List.mem_singleton, reduceCtorEq, false_or] at hmem
      exact hmem.elim (not_delete_of_mild ho₁) (not_delete_of_mild ho₃)
  | skipped => exact .frame (hs.trans hs₁) (by simp [ho₁, ho₃])

/-- **A step keeps how the handler ended**, unless it is `stop`, DESTROYING,
or one of those `KeepsStatus` leaves out. -/
theorem calm_step (hs : Step h e o h') (hk : KeepsStatus h e) (hstop : e ≠ .stop) (hd : e.isDestroying = false)
    (hconn : e.isConnect = true → h.status ≠ .stopped ∧ h.status ≠ .destroying) : Calm h e o h' := by
  cases hs with
  | outputvAccepted _ _ _ _ hws =>
    have hmild := all_mild_writes _ hws
    exact .frame rfl (by simp [hmild, Effect.mild])
  | recvSent _ _ he =>
    obtain ⟨hst, -, -, -, ho⟩ := he.life
    exact .frame hst (by simp [ho, Effect.mild])
  | recvParked _ _ he =>
    obtain ⟨hst, -, -, -, ho⟩ := he.life
    exact .frame hst (by simp [ho, Effect.mild])
  | closeBadarg hop =>
    obtain ⟨h₁, h₂⟩ := hk hop
    exact ⟨fun hst => absurd hst h₁, fun hst => absurd hst h₂, fun _ _ => ⟨nofun, nofun⟩, fun _ _ => rfl, nofun,
      by simp⟩
  | closeOpened hop _ hcl =>
    obtain ⟨h₁, h₂⟩ := hk hop
    obtain ⟨hst, -, -, hdel, -⟩ := hcl.life
    have hst : h'.status = .closing := hst.elim id id
    refine ⟨fun h₃ => absurd h₃ h₁, fun h₃ => absurd h₃ h₂, ?_, fun _ _ => hst, fun _ => hst, ?_⟩
    · intro _ _
      rw [hst]
      exact ⟨nofun, nofun⟩
    · simpa using hdel
  | setoptsQuiet => exact .frame rfl (by simp [Effect.mild])
  | setoptsEmit _ _ _ he =>
    obtain ⟨hst, -, -, -, ho⟩ := he.life
    exact .frame hst (by simp [ho, Effect.mild])
  | validateFailed _ _ hst => exact .move (by simp [hst]) (by simp [hst]) (by simp [hst]) ⟨nofun, nofun⟩ rfl
  | stopDeleted => exact absurd rfl hstop
  | stopped => exact absurd rfl hstop
  | doReadAnswers _ _ _ he =>
    obtain ⟨hst, -, -, -, ho⟩ := he.life
    exact .frame hst (by simp [ho])
  | doReadActive _ _ he =>
    obtain ⟨hst, -, -, -, ho⟩ := he.life
    exact .frame hst (by simp [ho])
  | doWrite hws =>
    have hmild := all_mild_writes _ hws
    exact .frame rfl hmild
  | eof hst hcl =>
    rw [← List.nil_append o, ← List.append_nil ([] ++ o)]
    exact .close hcl rfl rfl rfl (fun h₁ => absurd h₁ hst) rfl rfl
  | writable hf hr =>
    obtain ⟨hs₁, -, -, ho₁, -⟩ := hf.life
    obtain ⟨hs₂, -, -, -, ho₂⟩ := hr.life
    exact .frame (hs₂.trans hs₁) (by simp [ho₁, ho₂])
  | writableCloses hf hr hcp hcl =>
    obtain ⟨hs₁, hu₁, -, ho₁, hfull⟩ := hf.life
    obtain ⟨hs₂, hu₂, hq₂, -, ho₂⟩ := hr.life
    rw [← List.append_nil (_ ++ _)]
    refine .close hcl (hs₂.trans hs₁) (hu₂.trans hu₁) rfl ?_ (by simp [ho₁, ho₂]) rfl
    intro hst hu h0
    rw [hq₂] at h0
    exact hk ⟨hst, hcp, hu, hfull h0⟩
  | connectAnswers | connects =>
    obtain ⟨h₁, h₂⟩ := hconn rfl
    exact .move h₁ h₂ (fun _ => rfl) ⟨nofun, nofun⟩ rfl
  | destroyingAnswers => cases hd
  | destroyingNotifies => cases hd
  | destroyingDeletes => cases hd
  | destroyingIgnored => cases hd
  | errorConnecting hst ho =>
    refine .move (by simp [hst]) (by simp [hst]) (by simp [hst]) ⟨nofun, nofun⟩ (List.all_eq_true.2 fun x hx => ?_)
    obtain ⟨ref, rfl⟩ := ho x hx
    rfl
  | errorReset hst hcl =>
    rw [← List.nil_append o, ← List.append_nil ([] ++ o)]
    exact .close hcl rfl rfl rfl (fun h₁ => by rw [hst] at h₁; cases h₁) rfl rfl
  | errorReported => exact .frame rfl (by split <;> rfl)
  | incomingTaken hkind hu =>
    rcases hk with hk | hk
    · rw [hkind] at hk; cases hk
    · exact absurd hu hk
  | _ => exact .frame rfl rfl

/-! ## Deletion -/

/-- One `stop`, one DESTROYING, and that after `UTP_Close`. -/
def LifeContract : Runs.Guard UtpHandler Event (List Effect) := fun t _ e =>
  ConnectOnce t e ∧ (e.isStop = true → seen Event.isStop t = false) ∧
    (e.isDestroying = true → seen Event.isDestroying t = false ∧ closeSeen t = true)

/-- The runs in which no step overwrites how the handler ended. -/
def LifeGuard : Runs.Guard UtpHandler Event (List Effect) := fun t h e => LifeContract t h e ∧ KeepsStatus h e

/-- What these runs keep: `status` says which of the two is still to come. -/
structure LifeOk (t : Trace) (h : UtpHandler) : Prop where
  noClose : closeSeen t = false → h.utp ≠ .none
  noSend : seen Event.isSend t = false → h.writeQueue.size = 0
  stopped : seen Event.isStop t = true → seen Event.isDestroying t = false → h.status = .stopped
  destroying : seen Event.isDestroying t = true → seen Event.isStop t = false → h.status = .destroying
  notStopped : seen Event.isStop t = false → h.status ≠ .stopped
  notDestroying : seen Event.isDestroying t = false → h.status ≠ .destroying
  closed : closeSeen t = true → seen Event.isStop t = false → seen Event.isDestroying t = false → h.status = .closing
  afterStop : seen Event.isStop t = true → closeSeen t = true ∨ seen Event.isSend t = true
  afterDestroying : seen Event.isDestroying t = true → closeSeen t = true
  deleted : (effects t).count .delete = if seen Event.isStop t && seen Event.isDestroying t then 1 else 0

theorem LifeOk.start {h₀ : UtpHandler} (hs : Started h₀) : LifeOk [] h₀ := by
  cases hs <;> constructor <;>
    simp [closeSeen, effects, startClient, startServer, connectTo, setPort, new, doIncoming, setUtpCallbacks, emit,
      WriteQueue.new, WriteQueue.size]

/-- CONNECT finds none of the last three states. -/
theorem LifeOk.connect (hi : LifeOk t h) (hc : ConnectOnce t e) (he : e.isConnect = true) :
    h.status ≠ .stopped ∧ h.status ≠ .destroying := by
  obtain ⟨-, hsend, hclose⟩ := hc he
  refine ⟨fun hst => ?_, fun hst => ?_⟩
  · have hstop : seen Event.isStop t = true := by
      by_contra hn
      exact hi.notStopped (Bool.eq_false_iff.2 hn) hst
    rcases hi.afterStop hstop with hcl | hsd
    · rw [hclose] at hcl; cases hcl
    · rw [hsend] at hsd; cases hsd
  · have hd : seen Event.isDestroying t = true := by
      by_contra hn
      exact hi.notDestroying (Bool.eq_false_iff.2 hn) hst
    have hcl := hi.afterDestroying hd
    rw [hclose] at hcl; cases hcl

theorem count_delete_of_not_mem {es o : List Effect} (ho : .delete ∉ o) :
    (es ++ o).count Effect.delete = es.count Effect.delete := by
  rw [List.count_append, List.count_eq_zero.2 ho, Nat.add_zero]

theorem LifeOk.calm (hi : LifeOk t h) (hg : LifeGuard t h e) (hs : Step h e o h') (hstop : e.isStop = false)
    (hd : e.isDestroying = false) : LifeOk (t ++ [⟨h, e, o⟩]) h' := by
  have hne : e ≠ .stop := fun he => by rw [he] at hstop; cases hstop
  have hcalm := calm_step hs hg.2 hne hd (hi.connect hg.1.1)
  have hconn : closeSeen t = true → e.isConnect = false := fun hc => Bool.eq_false_iff.2 fun he => by
    obtain ⟨-, -, hf⟩ := hg.1.1 he
    rw [hf] at hc; cases hc
  refine ⟨?_, ?_, ?_, ?_, ?_, ?_, ?_, ?_, ?_, ?_⟩ <;>
    simp only [seen_snoc, closeSeen_snoc, effects_snoc, hstop, hd, Bool.or_false, Bool.or_eq_false_iff, Bool.or_eq_true]
  · intro hno
    exact socket_step hs (hi.noClose hno.1) hno.2
  · intro hno
    exact size_step hs hno.2 (hi.noSend hno.1)
  · exact fun h₁ h₂ => hcalm.stopped (hi.stopped h₁ h₂)
  · exact fun h₁ h₂ => hcalm.destroying (hi.destroying h₁ h₂)
  · intro h₁ hst
    by_cases hold : h.status = .destroying
    · rw [hcalm.destroying hold] at hst; cases hst
    · exact (hcalm.neither (hi.notStopped h₁) hold).1 hst
  · intro h₁ hst
    by_cases hold : h.status = .stopped
    · rw [hcalm.stopped hold] at hst; cases hst
    · exact (hcalm.neither hold (hi.notDestroying h₁)).2 hst
  · rintro (h₁ | h₁) h₂ h₃
    · exact hcalm.closing (hi.closed h₁ h₂ h₃) (hconn h₁)
    · exact hcalm.closes h₁
  · exact fun h₁ => (hi.afterStop h₁).imp .inl .inl
  · exact fun h₁ => .inl (hi.afterDestroying h₁)
  · rw [count_delete_of_not_mem hcalm.noDelete]
    exact hi.deleted

/-- `stop`: the handler is deleted if DESTROYING came before, else it waits
for it. -/
theorem LifeOk.stop (hi : LifeOk t h) (hg : LifeGuard t h .stop) (hs : Step h .stop o h') :
    LifeOk (t ++ [⟨h, .stop, o⟩]) h' ∧ (.delete ∈ o → seen Event.isDestroying t = true) := by
  have hnew : seen Event.isStop t = false := hg.1.2.1 rfl
  have hcount := hi.deleted
  rw [hnew, Bool.false_and] at hcount
  have hnd := hi.notDestroying
  cases hs with
  | @stopDeleted o h₁ hcl hst =>
    obtain ⟨rfl, rfl⟩ : o = [] ∧ h₁ = h := by
      cases hcl with
      | done => cases hst
      | skipped => exact ⟨rfl, rfl⟩
    have hd : seen Event.isDestroying t = true := by
      by_contra hn
      exact hnd (Bool.eq_false_iff.2 hn) hst
    refine ⟨⟨?_, ?_, ?_, ?_, ?_, ?_, ?_, ?_, ?_, ?_⟩, fun _ => hd⟩ <;>
      simp only [seen_snoc, closeSeen_snoc, effects_snoc, Event.isStop, Event.isDestroying, Event.isSend, hnew, hd,
        Bool.or_false, Bool.or_true, false_implies, implies_true, true_implies, Bool.or_eq_true,
        Bool.or_eq_false_iff, Bool.true_eq_false]
    · exact fun h₁ => hi.noClose h₁.1
    · exact hi.noSend
    · exact .inl (.inl (hi.afterDestroying hd))
    · exact .inl (hi.afterDestroying hd)
    · simp [hcount]
  | stopped hcl hst =>
    have hd : seen Event.isDestroying t = false := Bool.eq_false_iff.2 fun hd => by
      have hold := hi.destroying hd hnew
      cases hcl with
      | done _ hne => exact hne hold
      | skipped => exact hst hold
    obtain ⟨-, -, hholds, hdel, hq, -⟩ := hcl.life
    refine ⟨⟨?_, ?_, ?_, ?_, ?_, ?_, ?_, ?_, ?_, ?_⟩, fun hmem => absurd hmem hdel⟩ <;>
      simp only [seen_snoc, closeSeen_snoc, effects_snoc, Event.isStop, Event.isDestroying, Event.isSend, hnew, hd,
        Bool.or_false, Bool.or_true, reduceCtorEq, false_implies, implies_true, true_implies, Bool.or_eq_true,
        Bool.or_eq_false_iff, Bool.true_eq_false, Bool.false_eq_true]
    · intro hno
      exact hholds (hi.noClose hno.1) hno.2
    · intro h₁
      rw [hq]
      exact hi.noSend h₁
    · exact nofun
    · -- the close was made, or it had been made, or it waits for sends
      cases hcl with
      | done => exact .inl (.inr (by simp [Effect.isClose]))
      | skipped hor =>
        rcases hor with hu | hst | hne
        · exact .inl (.inl (Bool.eq_true_of_not_eq_false fun hc => hi.noClose hc hu))
        · exact absurd hst (hnd hd)
        · exact .inr (Bool.eq_true_of_not_eq_false fun hc => hne (hi.noSend hc))
    · rw [count_delete_of_not_mem hdel, hcount]
      rfl

/-- DESTROYING: the handler is deleted if `stop` came before, else it waits
for it. -/
theorem LifeOk.destroy {w : UtpWrite} (hi : LifeOk t h) (hg : LifeGuard t h (.stateChange .destroying w))
    (hs : Step h (.stateChange .destroying w) o h') :
    LifeOk (t ++ [⟨h, .stateChange .destroying w, o⟩]) h' ∧ (.delete ∈ o → seen Event.isStop t = true) := by
  obtain ⟨hnew, hclose⟩ := hg.1.2.2 rfl
  have hcount := hi.deleted
  rw [hnew, Bool.and_false] at hcount
  -- the two outcomes: the handler was closing, or it was stopped
  have hcase : (seen Event.isStop t = false ∧ h'.status = .destroying ∧ .delete ∉ o) ∨
      (seen Event.isStop t = true ∧ o.count .delete = 1) := by
    have hns : h.status = .closing → seen Event.isStop t = false := fun hst => Bool.eq_false_iff.2 fun hstop => by
      rw [hi.stopped hstop hnew] at hst; cases hst
    have hsel : .delete ∉ h.deselect := not_delete_of_mild (all_mild_deselect h)
    cases hs with
    | destroyingAnswers hst =>
      refine .inl ⟨hns hst, rfl, fun hmem => ?_⟩
      rcases List.mem_append.1 hmem with hmem | hmem
      · exact hsel hmem
      · split at hmem <;> simp at hmem
    | destroyingNotifies hst =>
      refine .inl ⟨hns hst, rfl, fun hmem => ?_⟩
      rcases List.mem_append.1 hmem with hmem | hmem
      · exact hsel hmem
      · split at hmem <;> simp at hmem
    | destroyingDeletes hst =>
      have hstop : seen Event.isStop t = true := by
        by_contra hn
        exact hi.notStopped (Bool.eq_false_iff.2 hn) hst
      refine .inr ⟨hstop, ?_⟩
      rw [List.count_append, List.count_eq_zero.2 hsel]
      rfl
    | destroyingIgnored h₁ h₂ =>
      rcases hstop : seen Event.isStop t with _ | _
      · exact absurd (hi.closed hclose hstop hnew) h₁
      · exact absurd (hi.stopped hstop hnew) h₂
  have hu : h'.utp = h.utp ∧ h'.writeQueue = h.writeQueue := by cases hs <;> exact ⟨rfl, rfl⟩
  refine ⟨⟨?_, ?_, ?_, ?_, ?_, ?_, ?_, ?_, ?_, ?_⟩, fun hmem => ?_⟩
  case refine_11 =>
    rcases hcase with ⟨-, -, h₂⟩ | ⟨h₁, -⟩
    · exact absurd hmem h₂
    · exact h₁
  all_goals
    simp only [seen_snoc, closeSeen_snoc, effects_snoc, Event.isStop, Event.isDestroying, Event.isSend, hnew, hclose,
      Bool.or_false, Bool.or_true, Bool.true_or, reduceCtorEq, false_implies, implies_true,
      true_implies, Bool.and_true, true_or]
  · intro h₁
    rw [hu.2]
    exact hi.noSend h₁
  · intro h₁
    rcases hcase with ⟨-, hst, -⟩ | ⟨h₂, -⟩
    · exact hst
    · rw [h₁] at h₂; cases h₂
  · intro h₁
    rcases hcase with ⟨-, hst, -⟩ | ⟨h₂, -⟩
    · rw [hst]; exact nofun
    · rw [h₁] at h₂; cases h₂
  · rw [List.count_append, hcount]
    rcases hcase with ⟨h₁, -, h₂⟩ | ⟨h₁, h₂⟩
    · rw [h₁, List.count_eq_zero.2 h₂]; rfl
    · rw [h₁, h₂]; rfl

/-- A step that deletes the handler is the later of `stop` and DESTROYING. -/
def DeletesLast (t : Trace) (x : Runs.Entry UtpHandler Event (List Effect)) : Prop :=
  .delete ∈ x.out → (x.event.isStop = true ∧ seen Event.isDestroying t = true) ∨
    (x.event.isDestroying = true ∧ seen Event.isStop t = true)

theorem LifeOk.step (hi : LifeOk t h) (hg : LifeGuard t h e) (hm : machine h e = .some (h', o)) :
    LifeOk (t ++ [⟨h, e, o⟩]) h' ∧ DeletesLast t ⟨h, e, o⟩ := by
  have hs := machine_step hm
  cases hstop : e.isStop with
  | true =>
    obtain rfl := Event.eq_stop hstop
    obtain ⟨hok, hdel⟩ := hi.stop hg hs
    exact ⟨hok, fun hmem => .inl ⟨rfl, hdel hmem⟩⟩
  | false =>
    cases hd : e.isDestroying with
    | true =>
      obtain ⟨w, rfl⟩ := Event.eq_destroying hd
      obtain ⟨hok, hdel⟩ := hi.destroy hg hs
      exact ⟨hok, fun hmem => .inr ⟨rfl, hdel hmem⟩⟩
    | false =>
      have hne : e ≠ .stop := fun he => by rw [he] at hstop; cases hstop
      have hcalm := calm_step hs hg.2 hne hd (hi.connect hg.1.1)
      exact ⟨hi.calm hg hs hstop hd, fun hmem => absurd hmem hcalm.noDelete⟩

/-- **A handler is deleted once**, in every run whose steps do not overwrite
how it ended: when `stop` and DESTROYING have both happened, by the later of
the two, and not before. -/
theorem deleted_once {h₀ : UtpHandler} (hs : Started h₀) (run : Runs.Run machine LifeGuard [] h₀ t h) :
    (effects t).count .delete = (if seen Event.isStop t && seen Event.isDestroying t then 1 else 0) ∧
      Runs.Each DeletesLast t := by
  have hall : LifeOk t h ∧ Runs.Each DeletesLast t := by
    refine run.each (I := LifeOk) (.start hs) ?_ .nil
    intro t s e s' o hi hg hm
    exact hi.step hg hm
  obtain ⟨hok, hlast⟩ := hall
  exact ⟨hok.deleted, hlast⟩

/-- Closed, then stopped, then destroyed. -/
theorem deleted_once_stop_first :
    ∃ t h, Runs.Run machine LifeGuard [] (startServer SockOpts.new 1) t h ∧
      seen Event.isStop t = true ∧ seen Event.isDestroying t = true ∧
      ((effects t).count .delete = (if seen Event.isStop t && seen Event.isDestroying t then 1 else 0) ∧
        Runs.Each DeletesLast t) :=
  have run := (((Runs.Run.start machine LifeGuard (startServer SockOpts.new 1)).next
      (.close 1 [.version, .binary [8]]) ⟨⟨nofun, nofun, nofun⟩, fun _ => ⟨nofun, nofun⟩⟩ rfl).next
      .stop ⟨⟨nofun, fun _ => rfl, nofun⟩, trivial⟩ rfl).next
      (.stateChange .destroying .nothing) ⟨⟨nofun, nofun, fun _ => ⟨rfl, rfl⟩⟩, trivial⟩ rfl
  ⟨_, _, run, rfl, rfl, deleted_once (.server SockOpts.new 1) run⟩

/-- A close that waits for the write queue, `stop`, the flush, and
DESTROYING: the handler is never deleted. -/
theorem flush_after_stop_leaks :
    ∃ t h, Runs.Run machine LifeContract [] (startServer SockOpts.new 1) t h ∧
      seen Event.isStop t = true ∧ seen Event.isDestroying t = true ∧ (effects t).count .delete = 0 :=
  ⟨_, _, (((((Runs.Run.start machine LifeContract (startServer SockOpts.new 1)).next
      (.outputv 1 ⟨1, [⟨[7], .none⟩]⟩ .nothing fun _ => 0) ⟨nofun, nofun, nofun⟩ rfl).next
      (.close 1 [.version, .binary [8]]) ⟨nofun, nofun, nofun⟩ rfl).next
      .stop ⟨nofun, fun _ => rfl, nofun⟩ rfl).next
      (.stateChange .writable .whole) ⟨nofun, nofun, nofun⟩ rfl).next
      (.stateChange .destroying .nothing) ⟨nofun, nofun, fun _ => ⟨rfl, rfl⟩⟩ rfl, rfl, rfl, by decide⟩

/-! ## No way back -/

/-- The last three states. -/
def ended : UtpPortStatus → Bool
  | .closing | .destroying | .stopped => true
  | _ => false

/-- CONNECT comes when libutp reports it, and a close request names its
reference. -/
def EndContract : Runs.Guard UtpHandler Event (List Effect) := fun t _ e =>
  ConnectOnce t e ∧ ∀ p buf, e = .close p buf → decodeBinary buf ≠ .none

/-- The runs in which no connection is taken without a socket. -/
def EndGuard : Runs.Guard UtpHandler Event (List Effect) := fun t h e =>
  EndContract t h e ∧ ∀ s, e = .doIncoming s → h.kind = .client ∨ h.utp ≠ .none

/-- What a step does to `status`, and why. -/
inductive Moves (h : UtpHandler) : Event → List Effect → UtpHandler → Prop
  | keeps {e₁ o₁ h₁} : h₁.status = h.status → Moves h e₁ o₁ h₁
  | closes {e₁ o₁ h₁} : o₁.any Effect.isClose = true → h₁.status = .closing → Moves h e₁ o₁ h₁
  | opens {p buf o₁ h₁} : h₁.status = .closing → h₁.closePending = true →
      (decodeBinary buf = .none ∨ o₁.any Effect.isClose = true ∨ h.utp = .none ∨ h.writeQueue.size ≠ 0) →
      Moves h (.close p buf) o₁ h₁
  | stops {o₁ h₁} : h₁.status = .stopped →
      (o₁.any Effect.isClose = true ∨ h.utp = .none ∨ h.status = .destroying ∨ h.writeQueue.size ≠ 0) →
      Moves h .stop o₁ h₁
  | connects {w o₁ h₁} : h₁.status = .connected → Moves h (.stateChange .connect w) o₁ h₁
  | destroys {w o₁ h₁} : h.status = .closing → h₁.status = .destroying → Moves h (.stateChange .destroying w) o₁ h₁
  | fails {err o₁ h₁} : h.status = .connectPending → h₁.status = .connectFailed → Moves h (.doError err) o₁ h₁
  | validates {p buf o₁ h₁} : h.status = .connectFailed → h₁.status = .notConnected →
      Moves h (.connectValidate p buf) o₁ h₁
  | takes {s o₁ h₁} : h.kind = .server → h.utp = .none → h₁.status = .connected → Moves h (.doIncoming s) o₁ h₁

theorem Moves.close {h₁ h₂ : UtpHandler} {o₁ o₂ o₃ : List Effect} (hc : CloseUtp h₁ o₂ h₂) (hs₁ : h₁.status = h.status)
    (hs : h'.status = h₂.status) : Moves h e (o₁ ++ o₂ ++ o₃) h' := by
  cases hc with
  | done => exact .closes (by simp [Effect.isClose]) hs
  | skipped => exact .keeps (hs.trans hs₁)

theorem moves (hs : Step h e o h') : Moves h e o h' := by
  cases hs with
  | recvSent _ _ he | recvParked _ _ he | doReadAnswers _ _ _ he | doReadActive _ _ he =>
    have hst := he.life.1
    exact .keeps hst
  | setoptsEmit _ _ _ he =>
    have hst := he.life.1
    exact .keeps hst
  | closeBadarg _ hnone => exact .opens rfl rfl (.inl hnone)
  | closeOpened _ _ hcl =>
    cases hcl with
    | done => exact .opens rfl rfl (.inr (.inl rfl))
    | skipped hor =>
      rcases hor with hu | hst | hq
      · exact .opens rfl rfl (.inr (.inr (.inl hu)))
      · cases hst
      · exact .opens rfl rfl (.inr (.inr (.inr hq)))
  | validateFailed _ _ hst => exact .validates hst rfl
  | stopDeleted hcl hst =>
    cases hcl with
    | done => cases hst
    | skipped => exact .keeps rfl
  | stopped hcl =>
    cases hcl with
    | done => exact .stops rfl (.inl rfl)
    | skipped hor => exact .stops rfl (.inr hor)
  | eof _ hcl | errorReset _ hcl =>
    rw [← List.nil_append o, ← List.append_nil ([] ++ o)]
    exact .close hcl rfl rfl
  | writable hf hr => exact .keeps (hr.life.1.trans hf.life.1)
  | writableCloses hf hr _ hcl =>
    rw [← List.append_nil (_ ++ _)]
    exact .close hcl (hr.life.1.trans hf.life.1) rfl
  | connectAnswers | connects => exact .connects rfl
  | destroyingAnswers hst | destroyingNotifies hst => exact .destroys hst rfl
  | errorConnecting hst => exact .fails hst rfl
  | incomingTaken hk hu => exact .takes hk hu rfl
  | _ => exact .keeps rfl

theorem ended_step (hs : Step h e o h') (he : ended h.status = true) (hc : e.isConnect = false)
    (hin : ∀ s, e = .doIncoming s → h.kind = .client ∨ h.utp ≠ .none) : ended h'.status = true := by
  cases moves hs with
  | keeps hst => rwa [hst]
  | closes _ hst | opens hst | stops hst | destroys _ hst => rw [hst]; rfl
  | connects => cases hc
  | fails hst | validates hst => rw [hst] at he; cases he
  | takes hk hu =>
    rcases hin _ rfl with hcl | hne
    · rw [hk] at hcl; cases hcl
    · exact absurd hu hne

/-- What ends a handler: `UTP_Close`, or a close that waits. -/
theorem ended_cases (hs : Step h e o h') (he : ended h'.status = true)
    (hd : ∀ p buf, e = .close p buf → decodeBinary buf ≠ .none) :
    ended h.status = true ∨ o.any Effect.isClose = true ∨ h.utp = .none ∨ h.writeQueue.size ≠ 0 := by
  cases moves hs with
  | keeps hst => exact .inl (by rwa [hst] at he)
  | closes hcl => exact .inr (.inl hcl)
  | opens _ _ hor => exact .inr (hor.resolve_left (hd _ _ rfl))
  | stops _ hor =>
    rcases hor with hcl | hu | hst | hq
    · exact .inr (.inl hcl)
    · exact .inr (.inr (.inl hu))
    · exact .inl (by rw [hst]; rfl)
    · exact .inr (.inr (.inr hq))
  | destroys hst => exact .inl (by rw [hst]; rfl)
  | connects hst | fails _ hst | validates _ hst | takes _ _ hst => rw [hst] at he; cases he

/-- Only CONNECT, WRITABLE and a new connection make a handler writable. -/
theorem writable_step (hs : Step h e o h') (hw : h.writable = false) (hw' : h'.writable = true)
    (hc : e.isConnect = false) (hin : ∀ s, e = .doIncoming s → h.kind = .client ∨ h.utp ≠ .none) :
    e.isWritable = true := by
  have hno : h'.writable ≠ h.writable := by rw [hw, hw']; exact nofun
  cases hs with
  | outputvAccepted _ _ hwr =>
    rw [hw] at hwr
    cases hwr
  | recvSent _ _ hem | recvParked _ _ hem | doReadAnswers _ _ _ hem | doReadActive _ _ hem =>
    exact absurd hem.life.2.2.2.1 hno
  | setoptsEmit _ _ _ hem => exact absurd hem.life.2.2.2.1 hno
  | closeOpened _ _ hcl | stopDeleted hcl | stopped hcl | errorReset _ hcl => exact absurd hcl.life.2.2.2.2.2 hno
  | eof => cases hw'
  | eofStopped => cases hw'
  | writable => rfl
  | writableCloses => rfl
  | connectAnswers => cases hc
  | connects => cases hc
  | destroyingAnswers => cases hw'
  | destroyingNotifies => cases hw'
  | incomingTaken hk hu =>
    rcases hin _ rfl with hcl | hne
    · rw [hk] at hcl; cases hcl
    · exact absurd hu hne
  | _ => exact absurd rfl hno

/-- What the runs keep: a handler does not end before it has given up its
socket, or has taken a send. -/
structure EndOk (t : Trace) (h : UtpHandler) : Prop where
  noClose : closeSeen t = false → h.utp ≠ .none
  noSend : seen Event.isSend t = false → h.writeQueue.size = 0
  ended : UtpHandler.ended h.status = true → closeSeen t = true ∨ seen Event.isSend t = true

theorem EndOk.noConnect (hi : EndOk t h) (hg : EndGuard t h e) (he : UtpHandler.ended h.status = true) :
    e.isConnect = false := by
  by_contra hc
  obtain ⟨-, hsend, hclose⟩ := hg.1.1 (Bool.eq_true_of_not_eq_false hc)
  rcases hi.ended he with h₁ | h₁
  · rw [hclose] at h₁; cases h₁
  · rw [hsend] at h₁; cases h₁

theorem EndOk.start {h₀ : UtpHandler} (hs : Started h₀) : EndOk [] h₀ where
  noClose := (LifeOk.start hs).noClose
  noSend := (LifeOk.start hs).noSend
  ended := fun he => by cases hs <;> cases he

theorem EndOk.step (hi : EndOk t h) (hg : EndGuard t h e) (hs : Step h e o h') : EndOk (t ++ [⟨h, e, o⟩]) h' := by
  refine ⟨?_, ?_, ?_⟩ <;> simp only [seen_snoc, closeSeen_snoc, Bool.or_eq_false_iff, Bool.or_eq_true]
  · intro hno
    exact socket_step hs (hi.noClose hno.1) hno.2
  · intro hno
    exact size_step hs hno.2 (hi.noSend hno.1)
  · intro he
    rcases ended_cases hs he hg.1.2 with hold | hcl | hu | hq
    · exact (hi.ended hold).imp .inl .inl
    · exact .inl (.inr hcl)
    · exact .inl (.inl (Bool.eq_true_of_not_eq_false fun hc => hi.noClose hc hu))
    · exact .inr (.inl (Bool.eq_true_of_not_eq_false fun hc => hq (hi.noSend hc)))

/-- **No way back**: a handler that is `closing`, `destroying` or `stopped`
after a run stays so however the run goes on, answers every send with
`enotconn` and nothing else, and is made writable by WRITABLE callbacks
only. -/
theorem no_resurrection {h₀ : UtpHandler} {t' : Trace} (hs : Started h₀) (run : Runs.Run machine EndGuard [] h₀ t h)
    (he : ended h.status = true) (run' : Runs.Run machine EndGuard t h t' h') :
    ended h'.status = true ∧
      (∀ p ev w mem, machine h' (.outputv p ev w mem) = .some (h', [.send (.pid p) (.utpReply (.error .enotconn))])) ∧
      ∀ e h'' o, EndGuard t' h' e → machine h' e = .some (h'', o) → h'.writable = false → h''.writable = true →
        e.isWritable = true := by
  have hok : EndOk t h := run.invariant (I := EndOk) (.start hs) fun _ _ _ _ _ hi hg hm => hi.step hg (machine_step hm)
  have key : EndOk t' h' ∧ ended h'.status = true := by
    refine run'.invariant (I := fun t h => EndOk t h ∧ ended h.status = true) ⟨hok, he⟩ ?_
    intro t s e s' o hboth hg hm
    obtain ⟨hi, hend⟩ := hboth
    have hst := machine_step hm
    exact ⟨hi.step hg hst, ended_step hst hend (hi.noConnect hg hend) hg.2⟩
  obtain ⟨hok', hend⟩ := key
  have hne : h'.status ≠ .connected := fun hst => by rw [hst] at hend; cases hend
  refine ⟨hend, fun p ev w mem => ?_, fun e h'' o hg hm hw hw' => ?_⟩
  · simp [machine, handle, outputv, hne, emit]
  · exact writable_step (machine_step hm) hw hw' (hok'.noConnect hg hend) hg.2

/-- Closed, then told that it may write: it stays closed. -/
theorem no_resurrection_closed :
    ∃ t h t' h', Runs.Run machine EndGuard [] (startServer SockOpts.new 1) t h ∧ ended h.status = true ∧
      Runs.Run machine EndGuard t h t' h' ∧ t'.length = t.length + 1 ∧ ended h'.status = true ∧
      (∀ p ev w mem, machine h' (.outputv p ev w mem) = .some (h', [.send (.pid p) (.utpReply (.error .enotconn))])) ∧
      ∀ e h'' o, EndGuard t' h' e → machine h' e = .some (h'', o) → h'.writable = false → h''.writable = true →
        e.isWritable = true :=
  have run := ((Runs.Run.start machine EndGuard (startServer SockOpts.new 1)).next
      (.outputv 1 ⟨1, [⟨[7], .none⟩]⟩ .nothing fun _ => 0) ⟨⟨nofun, nofun⟩, nofun⟩ rfl).next
      (.close 1 [.version, .binary [8]]) ⟨⟨nofun, fun _ _ he => by cases he; exact nofun⟩, nofun⟩ rfl
  have run' := (Runs.Run.refl (M := machine) (G := EndGuard)).next (.stateChange .writable .whole)
      ⟨⟨nofun, nofun⟩, nofun⟩ rfl
  ⟨_, _, _, _, run, rfl, run', rfl, no_resurrection (.server SockOpts.new 1) run rfl run'⟩

/-- CONNECT does not come after `UTP_Close`; nothing else is asked. -/
def ConnectBeforeClose : Runs.Guard UtpHandler Event (List Effect) := fun t _ e =>
  e.isConnect = true → closeSeen t = false

/-- Without that: a closed handler takes a new connection, a close that waits
is made writable by WRITABLE, and CONNECT undoes one that waits and one whose
reference does not decode. -/
theorem ended_handlers_return :
    (∃ t h t' h', Runs.Run machine ConnectBeforeClose [] (startServer SockOpts.new 1) t h ∧ ended h.status = true ∧
      Runs.Run machine ConnectBeforeClose t h t' h' ∧ h'.status = .connected ∧ h'.utp = .some 2) ∧
    (∃ t h t' h', Runs.Run machine ConnectBeforeClose [] (startServer SockOpts.new 1) t h ∧ ended h.status = true ∧
      h.writable = false ∧ Runs.Run machine ConnectBeforeClose t h t' h' ∧ h'.writable = true) ∧
    (∃ t h t' h', Runs.Run machine ConnectBeforeClose [] (startServer SockOpts.new 1) t h ∧ ended h.status = true ∧
      h.writeQueue.size = 1 ∧ Runs.Run machine ConnectBeforeClose t h t' h' ∧ h'.status = .connected) ∧
    ∃ t h t' h', Runs.Run machine ConnectBeforeClose [] (startServer SockOpts.new 1) t h ∧ ended h.status = true ∧
      h.writeQueue.size = 0 ∧ Runs.Run machine ConnectBeforeClose t h t' h' ∧ h'.status = .connected := by
  have closed := (Runs.Run.start machine ConnectBeforeClose (startServer SockOpts.new 1)).next
      (.close 1 [.version, .binary [8]]) nofun rfl
  have waits := ((Runs.Run.start machine ConnectBeforeClose (startServer SockOpts.new 1)).next
      (.outputv 1 ⟨1, [⟨[7], .none⟩]⟩ .nothing fun _ => 0) nofun rfl).next (.close 1 [.version, .binary [8]]) nofun rfl
  have refused := (Runs.Run.start machine ConnectBeforeClose (startServer SockOpts.new 1)).next (.close 1 []) nofun rfl
  refine ⟨⟨_, _, _, _, closed, rfl, Runs.Run.refl.next (.doIncoming 2) nofun rfl, rfl, rfl⟩, ?_, ?_, ?_⟩
  · exact ⟨_, _, _, _, waits, rfl, rfl, Runs.Run.refl.next (.stateChange .writable .whole) nofun rfl, rfl⟩
  · exact ⟨_, _, _, _, waits, rfl, rfl, Runs.Run.refl.next (.stateChange .connect .nothing) (fun _ => rfl) rfl, rfl⟩
  · exact ⟨_, _, _, _, refused, rfl, rfl, Runs.Run.refl.next (.stateChange .connect .nothing) (fun _ => rfl) rfl, rfl⟩

end UtpHandler

end GenUtp
