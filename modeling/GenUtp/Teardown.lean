/-
The end of a connection that no close request ends: the port is closed
(`stop`), the peer resets, or libutp reports EOF and then DESTROYING.

Each of these goes through `close_utp`, which does nothing while the write
queue holds bytes. Who tries again later depends on how the end began.

`stop` leaves it to a flush that completes a pending close. Without one, a
flush that empties the queue leaves the socket open, and so does EOF, which
clears the queue and then spares a handler that is `stopped`
(`flush_abandons_socket`). These two are the only steps that leave an
abandoned socket behind (`abandoned_closes_iff`).

A reset is not tried again at all: libutp reports nothing further, so it must
find the queue empty and no close pending (`reset_closes_iff`).

The notice `utp_closed` is sent by DESTROYING if the socket is active and
everything was read, and never after (`closed_notified_iff`):
`emit_read_buffer` would send it later, but only for a close request.
-/
import GenUtp.CloseHandshake

namespace GenUtp

open Segments

namespace Event

/-- What can still come for a port that was closed: no requests. -/
def isLate : Event → Bool
  | .doRead .. | .stateChange .writable _ | .stateChange .eof _ | .stateChange .destroying _ | .doError _ => true
  | _ => false

end Event

/-- Not `utp_closed`. -/
def Effect.other : Effect → Bool
  | .output .utpClosed => false
  | _ => true

namespace UtpHandler

variable {h h' : UtpHandler} {e : Event} {o : List Effect} {t : Trace}

/-! ## A socket that is given up -/

/-- `close_utp` leaves no socket, or finds one it may not close. -/
theorem CloseUtp.gone (hc : CloseUtp h o h') :
    h'.utp = .none ∨ (h' = h ∧ (h.status = .destroying ∨ h.writeQueue.size ≠ 0)) := by
  cases hc with
  | done => exact .inl rfl
  | skipped hor =>
    rcases hor with hu | hor
    · exact .inl hu
    · exact .inr ⟨rfl, hor⟩

theorem CloseUtp.utp_none (hc : CloseUtp h o h') (hu : h.utp = .none) : h'.utp = .none := by
  rcases hc.gone with hn | ⟨rfl, -⟩
  · exact hn
  · exact hu

theorem gone_step (hs : Step h e o h') (hu : h.utp = .none) :
    h'.utp = .none ∨ (h.kind = .server ∧ h'.status = .connected ∧ ∃ s, e = .doIncoming s) := by
  cases hs with
  | recvSent _ _ he | recvParked _ _ he | doReadAnswers _ _ _ he | doReadActive _ _ he =>
    have heq := he.life.2.1
    exact .inl (heq.trans hu)
  | setoptsEmit _ _ _ he =>
    have heq := he.life.2.1
    exact .inl (heq.trans hu)
  | closeOpened _ _ hcl | stopDeleted hcl | stopped hcl | eof _ hcl | errorReset _ hcl => exact .inl (hcl.utp_none hu)
  | writable hf hr => exact .inl ((hr.life.2.1.trans hf.life.2.1).trans hu)
  | writableCloses hf hr _ hcl => exact .inl (hcl.utp_none ((hr.life.2.1.trans hf.life.2.1).trans hu))
  | incomingTaken hk => exact .inr ⟨hk, rfl, _, rfl⟩
  | _ => exact .inl hu

theorem gone_late (hs : Step h e o h') (hu : h.utp = .none) (he : e.isLate = true) : h'.utp = .none := by
  rcases gone_step hs hu with hn | ⟨-, -, s, rfl⟩
  · exact hn
  · cases he

theorem Flush.size {w : UtpWrite} (hf : Flush h w o h') :
    h'.writeQueue.size = h.writeQueue.size - (w.counts h.writeQueue.size).sum := by
  cases hf with
  | empty h0 => rw [h0, Nat.zero_sub, ← h0]
  | wrote _ hws => exact writes_size _ hws

/-! ## An abandoned port -/

/-- DESTROYING comes for a socket that was given up, and a closed port gets
no requests. -/
def AbandonContract : Runs.Guard UtpHandler Event (List Effect) := fun t h e =>
  (e.isDestroying = true → h.utp = .none) ∧ (seen Event.isStop t = true → e.isLate = true)

/-- An abandoned handler with nothing left to write has given up its
socket. -/
def Released (t : Trace) (h : UtpHandler) : Prop :=
  seen Event.isStop t = true → h.writeQueue.size = 0 → h.utp = .none

/-- On a stopped handler that holds its socket, EOF does not come, and a
flush that empties the write queue finds a close pending. -/
def Releases (h : UtpHandler) : Event → Prop
  | .stateChange .eof _ => h.status = .stopped → h.utp = .none
  | .stateChange .writable w => h.status = .stopped → h.utp ≠ .none →
      h.writeQueue.size ≤ (w.counts h.writeQueue.size).sum → h.closePending = true
  | _ => True

/-- What every run keeps: an abandoned handler that holds its socket is
`stopped`. -/
structure AbandonOk (t : Trace) (h : UtpHandler) : Prop where
  destroying : h.status = .destroying → h.utp = .none
  notStopped : seen Event.isStop t = false → h.status ≠ .stopped
  stopped : seen Event.isStop t = true → h.utp ≠ .none → h.status = .stopped

theorem AbandonOk.start {h₀ : UtpHandler} (hs : Started h₀) : AbandonOk [] h₀ := by
  cases hs <;> exact ⟨nofun, fun _ => nofun, nofun⟩

theorem stopped_step (hs : Step h e o h') (he : e.isLate = true) (hd : e.isDestroying = false)
    (hst : h.status = .stopped) (hu : h'.utp ≠ .none) : h'.status = .stopped := by
  cases hs with
  | doReadAnswers _ _ _ hem | doReadActive _ _ hem =>
    have heq := hem.life.1
    exact heq.trans hst
  | eof hne => exact absurd hst hne
  | writable hf hr => exact (hr.life.1.trans hf.life.1).trans hst
  | writableCloses hf hr _ hcl =>
    rcases hcl.gone with hn | ⟨rfl, -⟩
    · exact absurd hn hu
    · exact (hr.life.1.trans hf.life.1).trans hst
  | errorConnecting hp => rw [hst] at hp; cases hp
  | errorReset hp => rw [hst] at hp; cases hp
  | destroyingAnswers | destroyingNotifies | destroyingDeletes | destroyingIgnored => cases hd
  | doReadNothing | doReadQueued | doReadShort | eofStopped | errorReported | errorIgnored => exact hst
  | _ => cases he

theorem AbandonOk.step (hi : AbandonOk t h) (hg : AbandonContract t h e) (hs : Step h e o h') :
    AbandonOk (t ++ [⟨h, e, o⟩]) h' := by
  refine ⟨?_, ?_, ?_⟩
  · intro hst
    have hu : h.utp = .none := by
      cases moves hs with
      | keeps hk => exact hi.destroying (hk ▸ hst)
      | destroys => exact hg.1 rfl
      | closes _ hn | opens hn | stops hn | connects hn | fails _ hn | validates _ hn | takes _ _ hn =>
        rw [hn] at hst; cases hst
    rcases gone_step hs hu with hn | ⟨-, hc, -⟩
    · exact hn
    · rw [hc] at hst; cases hst
  · intro hseen
    rw [seen_snoc, Bool.or_eq_false_iff] at hseen
    have hold := hi.notStopped hseen.1
    cases moves hs with
    | keeps hk => rwa [hk]
    | stops => cases hseen.2
    | closes _ hn | opens hn | connects hn | destroys _ hn | fails _ hn | validates _ hn | takes _ _ hn =>
      rw [hn]; exact nofun
  · intro hseen hu
    rw [seen_snoc, Bool.or_eq_true] at hseen
    rcases hseen with hold | hnow
    · have hlate := hg.2 hold
      have hu₀ : h.utp ≠ .none := fun hn => hu (gone_late hs hn hlate)
      have hd : e.isDestroying = false := Bool.eq_false_iff.2 fun hd => hu₀ (hg.1 hd)
      exact stopped_step hs hlate hd (hi.stopped hold hu₀) hu
    · obtain rfl := Event.eq_stop hnow
      cases hs with
      | stopDeleted hcl hst =>
        rcases hcl.gone with hn | ⟨rfl, -⟩
        · exact absurd hn hu
        · exact absurd (hi.destroying hst) hu
      | stopped => rfl

/-- **Which step leaves a socket behind**: a step leads to an abandoned
socket exactly when it does not meet `Releases`. -/
theorem released_step (hi : AbandonOk t h) (hr : Released t h) (hg : AbandonContract t h e) (hs : Step h e o h') :
    Released (t ++ [⟨h, e, o⟩]) h' ↔ Releases h e := by
  by_cases hseen : seen Event.isStop t = true
  · have hlate := hg.2 hseen
    by_cases hu : h.utp = .none
    · refine iff_of_true (fun _ _ => gone_late hs hu hlate) ?_
      cases e with
      | stateChange s w =>
        cases s with
        | eof => exact fun _ => hu
        | writable => exact fun _ hn => absurd hu hn
        | _ => trivial
      | _ => trivial
    · have hst : h.status = .stopped := hi.stopped hseen hu
      have hne : h.writeQueue.size ≠ 0 := fun h0 => hu (hr hseen h0)
      have hkeep : h'.writeQueue = h.writeQueue → Released (t ++ [⟨h, e, o⟩]) h' := by
        intro hq _ h0
        rw [hq] at h0
        exact absurd h0 hne
      cases hs with
      | doReadAnswers _ _ _ hem | doReadActive _ _ hem =>
        have hq := hem.life.2.2.1
        exact iff_of_true (hkeep hq) trivial
      | doReadNothing | doReadQueued | doReadShort | errorConnecting | errorReported | errorIgnored =>
        exact iff_of_true (hkeep rfl) trivial
      | errorReset hp => rw [hst] at hp; cases hp
      | eof hne => exact absurd hst hne
      | eofStopped =>
        refine iff_of_false (fun hn => hu (hn (by simp [hseen]) rfl)) fun hn => hu (hn hst)
      | destroyingAnswers | destroyingNotifies | destroyingDeletes | destroyingIgnored => exact absurd (hg.1 rfl) hu
      | writable hf hrt hcp =>
        have hu' : h'.utp = h.utp := hrt.life.2.1.trans hf.life.2.1
        have hsize : h'.writeQueue.size = h.writeQueue.size - _ := (congrArg _ hrt.life.2.2.1).trans hf.size
        constructor
        · intro hrel _ _ hle
          exact absurd (hu'.symm.trans (hrel (by simp [hseen]) (by omega))) hu
        · intro hrel _ h0
          rw [hrel hst hu (by omega)] at hcp
          cases hcp
      | writableCloses hf hrt hcp hcl =>
        refine iff_of_true (fun _ h0 => ?_) fun _ _ _ => hcp
        rcases hcl.gone with hn | ⟨rfl, hor⟩
        · exact hn
        · rcases hor with hd | hq
          · rw [hrt.life.1, hf.life.1, hst] at hd; cases hd
          · exact absurd h0 hq
      | _ => cases hlate
  · have hseen : seen Event.isStop t = false := Bool.eq_false_iff.2 hseen
    have hns := hi.notStopped hseen
    refine iff_of_true (fun hnow h0 => ?_) ?_
    · rw [seen_snoc, hseen, Bool.false_or] at hnow
      obtain rfl := Event.eq_stop hnow
      cases hs with
      | stopDeleted hcl hst =>
        rcases hcl.gone with hn | ⟨rfl, -⟩
        · exact hn
        · exact hi.destroying hst
      | stopped hcl hst =>
        rcases hcl.gone with hn | ⟨rfl, hor⟩
        · exact hn
        · exact absurd h0 (hor.resolve_left hst)
    · cases e with
      | stateChange s w =>
        cases s with
        | eof => exact fun hst => absurd hst hns
        | writable => exact fun hst => absurd hst hns
        | _ => trivial
      | _ => trivial

/-- **An abandoned port closes its connection**, in every state with nothing
left to write, exactly in the runs whose steps all meet `Releases`. -/
theorem abandoned_closes_iff {h₀ : UtpHandler} (hs : Started h₀) (run : Runs.Run machine AbandonContract [] h₀ t h) :
    Runs.Each (Runs.After machine Released) t ↔ Runs.Each (fun _ x => Releases x.pre x.event) t := by
  refine run.each_iff (I := AbandonOk) (.start hs) nofun ?_
  intro t s e s' o hi hr hg hm
  have hst := machine_step hm
  exact ⟨hi.step hg hst, released_step hi hr hg hst⟩

/-- A close that waits for the write queue, `stop`, and the flush. -/
theorem abandoned_closes_flushed :
    ∃ t h, Runs.Run machine AbandonContract [] (startServer SockOpts.new 1) t h ∧
      seen Event.isStop t = true ∧ h.writeQueue.size = 0 ∧ h.utp = .none ∧
      (Runs.Each (Runs.After machine Released) t ↔ Runs.Each (fun _ x => Releases x.pre x.event) t) :=
  have run := ((((Runs.Run.start machine AbandonContract (startServer SockOpts.new 1)).next
      (.outputv 1 ⟨1, [⟨[7], .none⟩]⟩ .nothing fun _ => 0) ⟨nofun, nofun⟩ rfl).next
      (.close 1 [.version, .binary [8]]) ⟨nofun, nofun⟩ rfl).next
      .stop ⟨nofun, nofun⟩ rfl).next
      (.stateChange .writable .whole) ⟨nofun, fun _ => rfl⟩ rfl
  ⟨_, _, run, rfl, rfl, rfl, abandoned_closes_iff (.server SockOpts.new 1) run⟩

/-- `stop` with a byte to write, and then a flush or EOF: nothing is left to
write, and the socket is still open. -/
theorem flush_abandons_socket :
    (∃ t h, Runs.Run machine AbandonContract [] (startServer SockOpts.new 1) t h ∧
      seen Event.isStop t = true ∧ h.writeQueue.size = 0 ∧ h.utp = .some 1 ∧ closeSeen t = false) ∧
    ∃ t h w, Runs.Run machine AbandonContract [] (startServer SockOpts.new 1) (t ++ [⟨h, .stateChange .eof w, []⟩])
        { h with writeQueue := .new, writable := false, eofSeen := true } ∧
      seen Event.isStop t = true ∧ h.utp = .some 1 ∧ closeSeen t = false := by
  have stopped := ((Runs.Run.start machine AbandonContract (startServer SockOpts.new 1)).next
      (.outputv 1 ⟨1, [⟨[7], .none⟩]⟩ .nothing fun _ => 0) ⟨nofun, nofun⟩ rfl).next .stop ⟨nofun, nofun⟩ rfl
  exact ⟨⟨_, _, stopped.next (.stateChange .writable .whole) ⟨nofun, fun _ => rfl⟩ rfl, rfl, rfl, rfl, rfl⟩,
    _, _, .nothing, stopped.next (.stateChange .eof .nothing) ⟨nofun, fun _ => rfl⟩ rfl, rfl, rfl, rfl⟩

/-! ## A reset -/

theorem closed_of_gone {G : Runs.Guard UtpHandler Event (List Effect)} {h₀ : UtpHandler} (hs : Started h₀)
    (run : Runs.Run machine G [] h₀ t h) (hu : h.utp = .none) : closeSeen t = true := by
  have holds : closeSeen t = false → h.utp ≠ .none := by
    refine run.invariant (I := fun t h => closeSeen t = false → h.utp ≠ .none) (by cases hs <;> exact fun _ => nofun) ?_
    intro t s e s' o hi _ hm hno
    rw [closeSeen_snoc, Bool.or_eq_false_iff] at hno
    exact socket_step (machine_step hm) (hi hno.1) hno.2
  exact Bool.eq_true_of_not_eq_false fun hno => holds hno hu

/-- The socket was passed to `UTP_Close`, and every send is refused. -/
structure Freed (t : Trace) (h : UtpHandler) : Prop where
  closed : closeSeen t = true
  gone : h.utp = .none
  refuses : ∀ p ev w mem,
    machine h (.outputv p ev w mem) = .some (h, [.send (.pid p) (.utpReply (.error .enotconn))])

theorem Freed.of_gone (hc : closeSeen t = true) (hu : h.utp = .none) : Freed t h :=
  ⟨hc, hu, fun p ev w mem => by
    rw [machine, handle, outputv, if_pos (.inr hu)]
    rfl⟩

/-- No connection is taken without a socket. -/
def TakesNone (h : UtpHandler) (e : Event) : Prop := ∀ s, e = .doIncoming s → h.kind = .client ∨ h.utp ≠ .none

/-- When a reset leaves no socket. -/
theorem reset_step (hs : Step h (.doError .econnreset) o h') (hst : h.status = .connected ∨ h.status = .closing) :
    h'.utp = .none ↔ h.utp = .none ∨ (h.status = .connected ∧ h.writeQueue.size = 0) := by
  cases hs with
  | errorConnecting hp => rcases hst with hst | hst <;> rw [hst] at hp <;> cases hp
  | errorReset hc hcl =>
    cases hcl with
    | done _ _ h0 => exact iff_of_true rfl (.inr ⟨hc, h0⟩)
    | skipped hor =>
      refine ⟨.inl, fun hr => ?_⟩
      rcases hr with hu | ⟨-, h0⟩
      · exact hu
      · rcases hor with hu | hd | hne
        · exact hu
        · have hd : h.status = .destroying := hd
          rw [hc] at hd; cases hd
        · exact absurd h0 hne
  | errorReported _ hne => exact absurd rfl hne
  | errorIgnored _ hne => exact ⟨.inl, fun hr => hr.resolve_right fun hn => hne hn.1⟩

/-- **A reset closes the socket** for good exactly when it finds it closed,
or a connected handler with nothing to write. `G` is any environment that
brings no connection to a handler without a socket. -/
theorem reset_closes_iff {G₀ G : Runs.Guard UtpHandler Event (List Effect)} {h₀ h₁ : UtpHandler} (hs : Started h₀)
    (run : Runs.Run machine G₀ [] h₀ t h) (hst : h.status = .connected ∨ h.status = .closing)
    (hm : machine h (.doError .econnreset) = .some (h₁, o)) (hG : ∀ t h e, G t h e → TakesNone h e) :
    (∀ t₂ h₂, Runs.Run machine G (t ++ [⟨h, .doError .econnreset, o⟩]) h₁ t₂ h₂ → Freed t₂ h₂) ↔
      h.utp = .none ∨ (h.status = .connected ∧ h.writeQueue.size = 0) := by
  rw [← reset_step (machine_step hm) hst]
  refine ⟨fun hall => (hall _ _ .refl).gone, fun hu t₂ h₂ run₂ => ?_⟩
  have hrun : Runs.Run machine (fun _ _ _ => True) [] h₀ (t ++ [⟨h, .doError .econnreset, o⟩]) h₁ :=
    (run.mono fun _ _ _ _ => trivial).step trivial hm
  have hclosed := closed_of_gone hs hrun hu
  obtain ⟨hc, hu₂⟩ : closeSeen t₂ = true ∧ h₂.utp = .none := by
    refine run₂.invariant (I := fun t h => closeSeen t = true ∧ h.utp = .none) ⟨hclosed, hu⟩ ?_
    intro t s e s' o hi hg hm
    refine ⟨by rw [closeSeen_snoc, hi.1, Bool.true_or], ?_⟩
    rcases gone_step (machine_step hm) hi.2 with hn | ⟨hk, -, s, rfl⟩
    · exact hn
    · rcases hG _ _ _ hg s rfl with hcl | hne
      · rw [hk] at hcl; cases hcl
      · exact absurd hi.2 hne
  exact .of_gone hc hu₂

/-- After a reset libutp reports neither WRITABLE nor EOF, and DESTROYING
only after `UTP_Close`. -/
def ResetContract : Runs.Guard UtpHandler Event (List Effect) := fun t h e =>
  (∀ w, e ≠ .stateChange .writable w) ∧ (∀ w, e ≠ .stateChange .eof w) ∧
    (e.isDestroying = true → closeSeen t = true) ∧ TakesNone h e

/-- A connection with everything written is reset. -/
theorem reset_closes_written :
    ∃ t h h₁ o, Runs.Run machine (fun _ _ _ => True) [] (startServer SockOpts.new 1) t h ∧ h.status = .connected ∧
      t.length = 1 ∧ machine h (.doError .econnreset) = .some (h₁, o) ∧ h.writeQueue.size = 0 ∧
      ((∀ t₂ h₂, Runs.Run machine ResetContract (t ++ [⟨h, .doError .econnreset, o⟩]) h₁ t₂ h₂ → Freed t₂ h₂) ↔
        h.utp = .none ∨ (h.status = .connected ∧ h.writeQueue.size = 0)) :=
  have run := (Runs.Run.start machine (fun _ _ _ => True) (startServer SockOpts.new 1)).next
      (.outputv 1 ⟨1, [⟨[7], .none⟩]⟩ .whole fun _ => 0) trivial rfl
  ⟨_, _, _, _, run, rfl, rfl, rfl, rfl,
    reset_closes_iff (.server SockOpts.new 1) run (.inl rfl) rfl fun _ _ _ hg => hg.2.2.2⟩

/-- A reset that finds a byte to write, and one that finds a close waiting
for it: the socket stays open. -/
theorem reset_strands :
    (∃ t h h₁ o, Runs.Run machine (fun _ _ _ => True) [] (startServer SockOpts.new 1) t h ∧ h.status = .connected ∧
      machine h (.doError .econnreset) = .some (h₁, o) ∧ h₁.utp = .some 1 ∧ o = [] ∧ closeSeen t = false) ∧
    ∃ t h h₁ o, Runs.Run machine (fun _ _ _ => True) [] (startServer SockOpts.new 1) t h ∧ h.status = .closing ∧
      machine h (.doError .econnreset) = .some (h₁, o) ∧ h₁.utp = .some 1 ∧ o = [] ∧ closeSeen t = false := by
  have sent := (Runs.Run.start machine (fun _ _ _ => True) (startServer SockOpts.new 1)).next
      (.outputv 1 ⟨1, [⟨[7], .none⟩]⟩ .nothing fun _ => 0) trivial rfl
  have waits := sent.next (.close 1 [.version, .binary [8]]) trivial rfl
  exact ⟨⟨_, _, _, _, sent, rfl, rfl, rfl, rfl, rfl⟩, _, _, _, _, waits, rfl, rfl, rfl, rfl, rfl⟩

/-! ## The notice -/

theorem count_closed_of_other {o : List Effect} (h : o.all Effect.other = true) : o.count (.output .utpClosed) = 0 :=
  List.count_eq_zero.2 fun hmem => by cases List.all_eq_true.1 h _ hmem

@[simp] theorem all_other_dataMessages (so : SockOpts) (receiver : Receiver) (ms : List Packet) :
    (dataMessages so receiver ms).all Effect.other = true :=
  all_dataMessages so receiver ms fun _ => by cases receiver <;> rfl

@[simp] theorem all_other_bufferSets (utp : Option UTPSocket) (saved so : SockOpts) :
    (bufferSets utp saved so).all Effect.other = true :=
  all_bufferSets utp saved so fun _ _ => rfl

@[simp] theorem all_other_drainedCall (utp : Option UTPSocket) (qsize : Nat) :
    (drainedCall utp qsize).all Effect.other = true :=
  all_drainedCall utp qsize rfl

@[simp] theorem all_other_deselect (h : UtpHandler) : h.deselect.all Effect.other = true :=
  all_deselect h rfl

theorem all_other_writes (counts : List Nat) {wq wq' : WriteQueue} {ws : List Effect}
    (hw : writes wq counts = .some (ws, wq')) : ws.all Effect.other = true :=
  all_writes (fun _ _ => rfl) counts hw

/-- No close is requested, and DESTROYING comes at most once. -/
def NoClose : Runs.Guard UtpHandler Event (List Effect) := fun t _ e =>
  (∀ p buf, e ≠ .close p buf) ∧ (e.isDestroying = true → seen Event.isDestroying t = false)

/-- DESTROYING finds an active socket with everything read. -/
def NoticeDue (x : Runs.Entry UtpHandler Event (List Effect)) : Prop :=
  x.event.isDestroying = true ∧ x.pre.status = .closing ∧ x.pre.sockopts.active ≠ .activeFalse ∧ x.pre.sizeq = 0

theorem Emission.other {len : Nat} {receiver : Receiver} {qsize : Nat} {mem : Mem} {sent : Bool} {q : Nat}
    (he : Emission h len receiver qsize mem sent q o h') (hc : h.closePending = false) :
    h'.closePending = false ∧ o.all Effect.other = true := by
  cases he with
  | closed hp => rw [hc] at hp; cases hp
  | held => exact ⟨hc, rfl⟩
  | sent => exact ⟨hc, by simp⟩

theorem CloseUtp.other (hcl : CloseUtp h o h') : h'.closePending = h.closePending ∧ o.all Effect.other = true := by
  cases hcl <;> exact ⟨rfl, rfl⟩

theorem Flush.other {w : UtpWrite} (hf : Flush h w o h') :
    h'.closePending = h.closePending ∧ o.all Effect.other = true := by
  have hall : o.all Effect.other = true := all_flush hf (fun _ => rfl) fun _ _ => rfl
  cases hf <;> exact ⟨rfl, hall⟩

/-- Every step but DESTROYING says something else, as long as no close is
requested. -/
theorem other_step (hs : Step h e o h') (hc : h.closePending = false) (hn : ∀ p buf, e ≠ .close p buf)
    (hd : e.isDestroying = false) : h'.closePending = false ∧ o.all Effect.other = true := by
  cases hs with
  | outputvAccepted _ _ _ _ hws =>
    have hall := all_other_writes _ hws
    exact ⟨hc, by simp [hall, Effect.other]⟩
  | recvSent _ _ he =>
    obtain ⟨hc', ho⟩ := he.other hc
    exact ⟨hc', by simp [ho, Effect.other]⟩
  | recvParked _ _ he =>
    obtain ⟨hc', ho⟩ := he.other hc
    exact ⟨hc', by simp [ho, Effect.other]⟩
  | closeAnswered => exact absurd rfl (hn _ _)
  | closeBadarg => exact absurd rfl (hn _ _)
  | closeOpened => exact absurd rfl (hn _ _)
  | setoptsQuiet => exact ⟨hc, by simp [Effect.other]⟩
  | setoptsEmit _ _ _ he =>
    obtain ⟨hc', ho⟩ := he.other hc
    exact ⟨hc', by simp [ho, Effect.other]⟩
  | stopDeleted hcl =>
    obtain ⟨hc', ho⟩ := hcl.other
    exact ⟨hc'.trans hc, by simp [ho, Effect.other]⟩
  | stopped hcl | eof _ hcl | errorReset _ hcl =>
    obtain ⟨hc', ho⟩ := hcl.other
    exact ⟨hc'.trans hc, ho⟩
  | doReadAnswers _ _ _ he =>
    obtain ⟨hc', ho⟩ := he.other hc
    exact ⟨hc', by simp [ho]⟩
  | doReadActive _ _ he =>
    obtain ⟨hc', ho⟩ := he.other hc
    exact ⟨hc', by simp [ho]⟩
  | doWrite hws => exact ⟨hc, all_other_writes _ hws⟩
  | writable hf hr =>
    obtain ⟨hc', ho⟩ := hf.other
    cases hr with
    | retried => exact ⟨hc'.trans hc, by simp [ho, Effect.other]⟩
    | quiet => exact ⟨hc'.trans hc, by simp [ho]⟩
  | writableCloses _ _ hcp => rw [hc] at hcp; cases hcp
  | destroyingAnswers | destroyingNotifies | destroyingDeletes | destroyingIgnored => cases hd
  | errorConnecting _ ho =>
    refine ⟨hc, List.all_eq_true.2 fun x hx => ?_⟩
    obtain ⟨ref, rfl⟩ := ho x hx
    rfl
  | errorReported => exact ⟨hc, by split <;> rfl⟩
  | _ => exact ⟨hc, rfl⟩

theorem destroying_notice {w : UtpWrite} (hs : Step h (.stateChange .destroying w) o h') (hc : h.closePending = false) :
    h'.closePending = false ∧ ((NoticeDue ⟨h, .stateChange .destroying w, o⟩ ∧ o.count (.output .utpClosed) = 1) ∨
      (¬NoticeDue ⟨h, .stateChange .destroying w, o⟩ ∧ o.count (.output .utpClosed) = 0)) := by
  have hsel : h.deselect.count (.output .utpClosed) = 0 := count_closed_of_other (all_other_deselect h)
  cases hs with
  | destroyingAnswers _ _ hcp => rw [hc] at hcp; cases hcp
  | destroyingNotifies hst =>
    refine ⟨hc, ?_⟩
    split
    · next hdue => exact .inl ⟨⟨rfl, hst, hdue.1, hdue.2⟩, by rw [List.count_append, hsel]; rfl⟩
    · next hdue => exact .inr ⟨fun hn => hdue ⟨hn.2.2.1, hn.2.2.2⟩, by rw [List.append_nil, hsel]⟩
  | destroyingDeletes hst =>
    exact ⟨hc, .inr ⟨fun hn => (by cases hst.symm.trans hn.2.1), by rw [List.count_append, hsel]; rfl⟩⟩
  | destroyingIgnored hne => exact ⟨hc, .inr ⟨fun hn => hne hn.2.1, hsel⟩⟩

/-- What the runs keep: the notice was sent once if it was due, else not. -/
structure Noticed (t : Trace) (h : UtpHandler) : Prop where
  pending : h.closePending = false
  count : ((∃ x ∈ t, NoticeDue x) ∧ (effects t).count (.output .utpClosed) = 1) ∨
    ((∀ x ∈ t, ¬NoticeDue x) ∧ (effects t).count (.output .utpClosed) = 0)

theorem not_due_before (hd : seen Event.isDestroying t = false) : ∀ x ∈ t, ¬NoticeDue x := by
  intro x hx hdue
  have hany := List.any_eq_false.1 hd x hx
  exact hany hdue.1

theorem Noticed.step (hi : Noticed t h) (hg : NoClose t h e) (hs : Step h e o h') : Noticed (t ++ [⟨h, e, o⟩]) h' := by
  have hsnoc : ∀ x, x ∈ t ++ [⟨h, e, o⟩] ↔ x ∈ t ∨ x = ⟨h, e, o⟩ := by simp
  cases hd : e.isDestroying with
  | false =>
    obtain ⟨hc, ho⟩ := other_step hs hi.pending hg.1 hd
    have hnot : ¬NoticeDue ⟨h, e, o⟩ := fun hn => by cases hd.symm.trans hn.1
    refine ⟨hc, ?_⟩
    rw [effects_snoc, List.count_append, count_closed_of_other ho, Nat.add_zero]
    refine hi.count.imp (fun hold => ⟨?_, hold.2⟩) fun hold => ⟨fun x hx => ?_, hold.2⟩
    · obtain ⟨x, hx, hdue⟩ := hold.1
      exact ⟨x, (hsnoc x).2 (.inl hx), hdue⟩
    · rcases (hsnoc x).1 hx with hx | rfl
      · exact hold.1 x hx
      · exact hnot
  | true =>
    obtain ⟨w, rfl⟩ := Event.eq_destroying hd
    have hnone := not_due_before (hg.2 rfl)
    have h0 : (effects t).count (.output .utpClosed) = 0 := by
      rcases hi.count with ⟨⟨x, hx, hdue⟩, -⟩ | ⟨-, h0⟩
      · exact absurd hdue (hnone x hx)
      · exact h0
    obtain ⟨hc, hcount⟩ := destroying_notice hs hi.pending
    refine ⟨hc, ?_⟩
    rw [effects_snoc, List.count_append, h0, Nat.zero_add]
    refine hcount.imp (fun hdue => ⟨⟨_, (hsnoc _).2 (.inr rfl), hdue.1⟩, hdue.2⟩) fun hnot => ⟨fun x hx => ?_, hnot.2⟩
    rcases (hsnoc x).1 hx with hx | rfl
    · exact hnone x hx
    · exact hnot.1

/-- A destroyed active socket, with everything read. -/
def ClosedToReader (h : UtpHandler) : Prop := h.status = .destroying ∧ h.sizeq = 0 ∧ h.sockopts.active ≠ .activeFalse

/-- **Who is told that the peer closed.** In a run without a close request the
notice is never sent twice; and in a state where it must have been sent, it
was exactly if DESTROYING found the socket so. -/
theorem closed_notified_iff {h₀ : UtpHandler} (hs : Started h₀) (run : Runs.Run machine NoClose [] h₀ t h) :
    (effects t).count (.output .utpClosed) ≤ 1 ∧
      ((ClosedToReader h → (effects t).count (.output .utpClosed) = 1) ↔
        (ClosedToReader h → ∃ x ∈ t, NoticeDue x)) := by
  have hstart : Noticed [] h₀ := by
    cases hs <;> exact ⟨rfl, .inr ⟨fun _ hx => absurd hx List.not_mem_nil, rfl⟩⟩
  have hall : Noticed t h := by
    refine run.invariant (I := Noticed) hstart ?_
    intro t s e s' o hi hg hm
    exact hi.step hg (machine_step hm)
  rcases hall.count with ⟨hdue, hone⟩ | ⟨hnot, hzero⟩
  · exact ⟨hone.le, iff_of_true (fun _ => hone) fun _ => hdue⟩
  · refine ⟨by omega, forall_congr' fun _ => iff_of_false (by omega) ?_⟩
    rintro ⟨x, hx, hdue⟩
    exact hnot x hx hdue

/-- EOF and DESTROYING on an active socket. -/
theorem closed_notified_active :
    ∃ t h, Runs.Run machine NoClose [] (startServer SockOpts.new 1) t h ∧ ClosedToReader h ∧ (∃ x ∈ t, NoticeDue x) ∧
      (effects t).count (.output .utpClosed) ≤ 1 ∧
      ((ClosedToReader h → (effects t).count (.output .utpClosed) = 1) ↔
        (ClosedToReader h → ∃ x ∈ t, NoticeDue x)) :=
  have run := ((Runs.Run.start machine NoClose (startServer SockOpts.new 1)).next
      (.stateChange .eof .nothing) ⟨nofun, nofun⟩ rfl).next
      (.stateChange .destroying .nothing) ⟨nofun, fun _ => rfl⟩ rfl
  ⟨_, _, run, ⟨rfl, rfl, nofun⟩, ⟨_, List.mem_append_right _ (List.mem_singleton.2 rfl), rfl, rfl, nofun, rfl⟩,
    closed_notified_iff (.server SockOpts.new 1) run⟩

/-- `once` reverts with the data, EOF and DESTROYING find the socket passive,
and then it is armed again: nobody is told. -/
theorem rearmed_is_not_told :
    ∃ t h, Runs.Run machine NoClose [] (startServer { SockOpts.new with active := .activeOnce } 1) t h ∧
      t.length = 4 ∧ ClosedToReader h ∧ h.sockopts.active = .activeOnce ∧
      (effects t).count (.output .utpClosed) = 0 :=
  have run := ((((Runs.Run.start machine NoClose (startServer { SockOpts.new with active := .activeOnce } 1)).next
      (.doRead [7] fun _ => 0) ⟨nofun, nofun⟩ rfl).next
      (.stateChange .eof .nothing) ⟨nofun, nofun⟩ rfl).next
      (.stateChange .destroying .nothing) ⟨nofun, fun _ => rfl⟩ rfl).next
      (.setopts 1 [.version, .binary [10, 1]] (fun _ => false) fun _ => 0) ⟨nofun, nofun⟩ rfl
  ⟨_, _, run, rfl, ⟨rfl, rfl, nofun⟩, rfl, by decide⟩

end UtpHandler

end GenUtp
