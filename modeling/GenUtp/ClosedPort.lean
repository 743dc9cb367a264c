/-
What the driver still does with a port that was closed.

`stop` leaves the handler to libutp, which goes on calling it until the
connection is destroyed: there may be bytes to write, and the peer may send.
The handler does not ask whether it still has a port.

If no send waits and no close is pending when the port closes, one thing is
left: data that libutp delivers is put on the port's queue, and sent to its
owner if the socket is active. No other callback needs the port
(`closed_port_uses`).
-/
import GenUtp.Teardown

namespace GenUtp

/-- A message, which goes through the port. -/
def Effect.tells : Effect → Bool
  | .output _ | .send .. => true
  | _ => false

namespace UtpHandler

variable {h h' : UtpHandler} {e : Event} {o : List Effect} {t : Trace}

/-- Data that is not empty. -/
def Delivers (e : Event) : Prop := ∃ bytes mem, bytes ≠ [] ∧ e = .doRead bytes mem

/-- A message, `driver_enq`, or the `driver_sizeq` of `emit_closed_message`. -/
def UsesPort (x : Runs.Entry UtpHandler Event (List Effect)) : Prop :=
  x.out.any Effect.tells = true ∨ Delivers x.event ∨ (x.event.isDestroying = true ∧ x.pre.status = .closing)

/-- A port is closed when nobody waits, and gets no requests after it. -/
def IdleContract : Runs.Guard UtpHandler Event (List Effect) := fun t h e =>
  (seen Event.isStop t = true → e.isLate = true) ∧ (e = .stop → h.senderWaiting = false ∧ h.closePending = false)

/-- A handler whose port is closed and that has nobody to answer. -/
structure Unawaited (h : UtpHandler) : Prop where
  sender : h.senderWaiting = false
  close : h.closePending = false
  ended : h.status = .stopped ∨ h.status = .destroying

theorem Unawaited.keep (hi : h.Unawaited) (hs : h'.senderWaiting = h.senderWaiting) (hc : h'.closePending = false)
    (hst : h'.status = h.status) : h'.Unawaited := by
  refine ⟨hs.trans hi.sender, hc, ?_⟩
  rw [hst]
  exact hi.ended

theorem CloseUtp.waiters (hc : CloseUtp h o h') :
    h'.senderWaiting = h.senderWaiting ∧ h'.closePending = h.closePending := by
  cases hc <;> exact ⟨rfl, rfl⟩

theorem Emission.waiters {len : Nat} {receiver : Receiver} {qsize : Nat} {mem : Mem} {sent : Bool} {q : Nat}
    (he : Emission h len receiver qsize mem sent q o h') (hi : h.closePending = false) :
    h'.senderWaiting = h.senderWaiting ∧ h'.closePending = false := by
  cases he with
  | closed => exact ⟨rfl, rfl⟩
  | _ => exact ⟨rfl, hi⟩

theorem Flush.waiters {w : UtpWrite} (hf : Flush h w o h') :
    h'.senderWaiting = h.senderWaiting ∧ h'.closePending = h.closePending ∧ o.any Effect.tells = false := by
  have hall := all_flush (P := fun x => !x.tells) hf (fun _ => rfl) fun _ _ => rfl
  have hquiet : o.any Effect.tells = false := by simpa [List.any_eq_false] using hall
  cases hf <;> exact ⟨rfl, rfl, hquiet⟩

theorem tells_deselect (h : UtpHandler) : h.deselect.any Effect.tells = false := by
  have hall := all_deselect (P := fun x => !x.tells) h rfl
  simpa [List.any_eq_false] using hall

theorem Unawaited.stop (hs : Step h .stop o h') (hsender : h.senderWaiting = false) (hclose : h.closePending = false) :
    h'.Unawaited := by
  cases hs with
  | stopDeleted hcl hst => exact ⟨hcl.waiters.1.trans hsender, hcl.waiters.2.trans hclose, .inr hst⟩
  | stopped hcl => exact ⟨hcl.waiters.1.trans hsender, hcl.waiters.2.trans hclose, .inl rfl⟩

theorem uses_doRead {bytes : List UInt8} {mem : Mem} (hne : bytes ≠ []) :
    UsesPort ⟨h, .doRead bytes mem, o⟩ ↔ Delivers (.doRead bytes mem) :=
  iff_of_true (.inr (.inl ⟨bytes, mem, hne, rfl⟩)) ⟨bytes, mem, hne, rfl⟩

theorem unused (hquiet : o.any Effect.tells = false) (hd : ¬Delivers e) (hst : h.status ≠ .closing) :
    UsesPort ⟨h, e, o⟩ ↔ Delivers e := by
  refine iff_of_false ?_ hd
  rintro (htells | hdel | ⟨-, hcl⟩)
  · exact absurd (htells.symm.trans hquiet) nofun
  · exact hd hdel
  · exact hst hcl

/-- A callback after the end, and what it does with the port. -/
theorem Unawaited.late (hi : h.Unawaited) (hlate : e.isLate = true) (hs : Step h e o h') :
    h'.Unawaited ∧ (UsesPort ⟨h, e, o⟩ ↔ Delivers e) := by
  have hst : h.status ≠ .closing ∧ h.status ≠ .connected ∧ h.status ≠ .connectPending := by
    rcases hi.ended with hst | hst <;> rw [hst] <;> decide
  have hno : ∀ {e}, (∀ bytes mem, e ≠ .doRead bytes mem) → ¬Delivers e := by
    rintro e he ⟨bytes, mem, -, heq⟩
    exact he bytes mem heq
  cases hs with
  | doReadNothing =>
    refine ⟨hi, unused rfl ?_ hst.1⟩
    rintro ⟨bytes, mem, hne, heq⟩
    cases heq
    exact hne rfl
  | doReadQueued hne | doReadShort hne => exact ⟨hi.keep rfl hi.close rfl, uses_doRead hne⟩
  | doReadAnswers hne _ _ he | doReadActive hne _ he =>
    obtain ⟨hs, hc⟩ := he.waiters hi.close
    exact ⟨hi.keep hs hc he.life.1, uses_doRead hne⟩
  | eof hne hcl =>
    have hdes : h.status = .destroying := hi.ended.resolve_left hne
    cases hcl with
    | done _ hlive => exact absurd hdes hlive
    | skipped => exact ⟨hi.keep rfl hi.close rfl, unused rfl (hno nofun) hst.1⟩
  | eofStopped => exact ⟨hi.keep rfl hi.close rfl, unused rfl (hno nofun) hst.1⟩
  | writable hf hr =>
    obtain ⟨hs, hc, hquiet⟩ := hf.waiters
    cases hr with
    | retried _ hwaits =>
      rw [hs, hi.sender] at hwaits
      cases hwaits
    | quiet =>
      rw [List.append_nil]
      exact ⟨hi.keep hs (hc.trans hi.close) hf.life.1, unused hquiet (hno nofun) hst.1⟩
  | writableCloses _ _ hpending =>
    rw [hi.close] at hpending
    cases hpending
  | destroyingAnswers hcl | destroyingNotifies hcl => exact absurd hcl hst.1
  | destroyingDeletes =>
    refine ⟨hi.keep rfl hi.close rfl, unused ?_ (hno nofun) hst.1⟩
    rw [List.any_append, tells_deselect]
    rfl
  | destroyingIgnored => exact ⟨hi.keep rfl hi.close rfl, unused (tells_deselect h) (hno nofun) hst.1⟩
  | errorIgnored => exact ⟨hi.keep rfl hi.close rfl, unused rfl (hno nofun) hst.1⟩
  | errorConnecting hp => exact absurd hp hst.2.2
  | errorReset hp | errorReported hp => exact absurd hp hst.2.1
  | _ => cases hlate

/-- **What is left of a closed port.** In a run in which no send waits and no
close is pending when the port is closed, a later callback uses the port
exactly when it delivers data. -/
theorem closed_port_uses {h₀ : UtpHandler} (run : Runs.Run machine IdleContract [] h₀ t h) :
    Runs.Each (fun t x => seen Event.isStop t = true → (UsesPort x ↔ Delivers x.event)) t := by
  have hstart : seen Event.isStop [] = true → h₀.Unawaited := by
    intro hseen
    cases hseen
  refine (run.each (I := fun t h => seen Event.isStop t = true → h.Unawaited) hstart ?_ .nil).2
  intro t s e s' o hi hg hm
  have hstep := machine_step hm
  by_cases hseen : seen Event.isStop t = true
  · obtain ⟨hkeep, huses⟩ := (hi hseen).late (hg.1 hseen) hstep
    exact ⟨fun _ => hkeep, fun _ => huses⟩
  · refine ⟨fun hnow => ?_, fun h => absurd h hseen⟩
    rw [seen_snoc, Bool.eq_false_iff.2 hseen, Bool.false_or] at hnow
    obtain rfl := Event.eq_stop hnow
    obtain ⟨hsender, hclose⟩ := hg.2 rfl
    exact Unawaited.stop hstep hsender hclose

/-- A port closes with a byte to write, and the peer's data is queued on it. -/
theorem closed_port_uses_data : ∃ t h x, Runs.Run machine IdleContract [] (startServer SockOpts.new 1) (t ++ [x]) h ∧
    seen Event.isStop t = true ∧ x.pre.writeQueue.size = 1 ∧ h.utp = .some 1 ∧ UsesPort x := by
  have run := (((Runs.Run.start machine IdleContract (startServer SockOpts.new 1)).next
      (.outputv 1 ⟨1, [⟨[7], .none⟩]⟩ .nothing fun _ => 0) ⟨nofun, nofun⟩ rfl).next
      .stop ⟨nofun, fun _ => ⟨rfl, rfl⟩⟩ rfl).next
      (.doRead [9] fun _ => 0) ⟨fun _ => rfl, nofun⟩ rfl
  have huses := closed_port_uses run _ _ [] rfl rfl
  exact ⟨_, _, _, run, rfl, rfl, rfl, huses.2 ⟨[9], _, nofun, rfl⟩⟩

end UtpHandler

end GenUtp
