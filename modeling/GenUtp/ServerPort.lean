/-
The port of the `gen_utp` server (`gen_utp.erl`).

`init` opens a port and asks nothing of it, and `terminate` closes it. In
between sockets are opened by whoever calls `listen` and `connect`. The server
does not wait for its port to be in office, nor do they for the server: which
port is the main handler is left to the order of the calls.

As long as the server came first and stays, its port is the main handler, the
timer runs, and every socket is told of its input until libutp destroys its
connection (`server_serves`).
-/
import GenUtp.MainHandlers

namespace GenUtp

namespace Emulator

variable {s s' : Emulator} {p q : ErlDrvPort} {fd : Fd} {i j : SocketPtr} {k : SocketFields}
  {e : EmulatorEvent} {t : EmulatorTrace} {o : Option SocketPtr}

/-- Neither a `listen` or `connect_start` of the port nor its end. -/
def Spares (p : ErlDrvPort) : EmulatorEvent → Prop
  | .stop q | .delegate q _ _ _ => q ≠ p
  | _ => True

instance (p : ErlDrvPort) : ∀ e, Decidable (Spares p e)
  | .stop q | .delegate q _ _ _ => inferInstanceAs (Decidable (q ≠ p))
  | .start _ | .request _ | .input .. | .destroying _ | .timeout _ => inferInstanceAs (Decidable True)

/-- The server is there. -/
def Served (p : ErlDrvPort) : Runs.Guard Emulator EmulatorEvent (Option SocketPtr) := fun t s e =>
  Offered t s e ∧ Spares p e

instance (p : ErlDrvPort) (t : EmulatorTrace) (s : Emulator) (e : EmulatorEvent) : Decidable (Served p t s e) :=
  inferInstanceAs (Decidable (_ ∧ _))

/-- Where the socket `j` after a step comes from: it was there and is not
ended, it is new and registered, or its connection is destroyed. -/
inductive Comes (s : Emulator) (e : EmulatorEvent) (p : ErlDrvPort) (j : SocketPtr) (k : SocketFields) : Prop
  | old : s.sockets j = .some k → e ≠ .destroying j →
      (∀ q, e = .stop q → s.delegatee q = .some j → k.listens = false) → Comes s e p j k
  | new : s.Registers e p k.fd j → Comes s e p j k
  | destroyed : e = .destroying j → k.selected = false → Comes s e p j k

theorem Comes.keep (hj : s.sockets j = .some k) (hd : e ≠ .destroying j) (hstop : ∀ q, e ≠ .stop q) : Comes s e p j k :=
  .old hj hd fun q hq _ => absurd hq (hstop q)

/-- A socket that was set up and selected. -/
theorem Prepared.comes {l : Bool} {s₁ : Emulator} (hp : Prepared s i fd l s₁) (hs : s.Office) (he : s.Entered)
    (hnew : s.Fresh i fd) (hserves : s.Serves p) (hset : s₁.setPort i = .some s') :
    ∀ j k, s'.sockets j = .some k → j ≠ i ∧ s.sockets j = .some k ∨ j = i ∧ k.fd = fd := by
  obtain ⟨s₂, hset', hf, hent, -, hother, hreach⟩ := hp.setPort hs he hnew
  cases hset.symm.trans hset'
  intro j k hj
  by_cases hji : j = i
  · subst hji
    have hin : s'.Reaches p fd j := (hreach p fd j).2 (.inl ⟨hserves, rfl, rfl⟩)
    have hmain : s'.mainHandler = .some p := hf.mainHandler.trans (hp.mainHandler.trans hserves.1)
    obtain ⟨-, l', hk⟩ := hent.entry p fd j hmain hin.2
    cases hj.symm.trans hk
    exact .inr ⟨rfl, rfl⟩
  · exact .inl ⟨hji, hother j hji ▸ hj⟩

theorem sockets_step (hs : s.Office) (he : s.Entered) (hserves : s.Serves p) (ho : Offered t s e)
    (hm : machine s e = .some (s', o)) (hj : s'.sockets j = .some k) : Comes s e p j k := by
  cases e with
  | start q =>
    cases hm
    refine .keep ?_ (by simp) (by simp)
    rwa [(start_fields s q).2.2.2.2.1] at hj
  | timeout q =>
    cases hm
    refine .keep ?_ (by simp) (by simp)
    rw [checkUtpTimeouts] at hj
    split at hj <;> exact hj
  | delegate q i fd l =>
    obtain ⟨hlive, hnew⟩ := ho
    simp only [machine, delegateTo] at hm
    cases hd : s.delegatee q with
    | some i' =>
      simp only [hd, Option.map_some] at hm
      cases hm
      exact .keep hj (by simp) (by simp)
    | none =>
      simp only [hd, Option.map_map] at hm
      obtain ⟨s₂, hset, heq⟩ := Option.map_eq_some_iff.1 hm
      cases heq
      have hprep : Prepared s i fd l { s.newSocket i fd l with delegatee := Function.update s.delegatee q (.some i) } :=
        ⟨rfl, rfl, fun _ _ => rfl, fun _ _ => rfl, rfl, rfl, rfl⟩
      rcases hprep.comes hs he ⟨hnew.1, hnew.2⟩ hserves hset j k hj with ⟨-, hold⟩ | ⟨rfl, hfd⟩
      · exact .keep hold (by simp) (by simp)
      · exact .new ⟨hserves, hd, hfd, rfl⟩
  | request q =>
    obtain ⟨hrun, -⟩ := request_does hs he ho
    simp only [machine, hrun, Option.map_some] at hm
    cases hm
    exact .keep hj (by simp) (by simp)
  | input q fd received =>
    obtain ⟨-, hsel, hnew⟩ := ho
    obtain rfl : p = q := Option.some.inj (hserves.1.symm.trans (he.selects q fd hsel).1)
    simp only [machine, readyInput, if_pos ((hs.mutex p).2 hserves.1)] at hm
    split at hm
    next =>
      cases hm
      exact .keep hj (by simp) (by simp)
    next i hlook =>
      split at hm
      next => cases hm
      next fd' sel c hi =>
        obtain ⟨hsock, hopen, hport⟩ := hnew
        obtain ⟨s₂, haccept, heq⟩ := Option.map_eq_some_iff.1 hm
        cases heq
        simp only [accept, hserves.1] at haccept
        have hp' : (s.newSocket c.server c.fd false).port p = .some p := hserves.2
        simp only [hp'] at haccept
        have hne : ∀ q, s.mainHandler = .some q → q ≠ c.port := by
          intro q hq heq
          exact hport (heq ▸ hs.live q hq)
        have hprep : Prepared s c.server c.fd false { s.newSocket c.server c.fd false with
            live := insert c.port s.live
            port := Function.update s.port c.port .none
            delegatee := Function.update s.delegatee c.port (.some c.server)
            fdmap := Function.update s.fdmap c.port ∅ } :=
          ⟨rfl, rfl, fun q hq => Function.update_of_ne (hne q hq) _ _,
            fun q hq => Function.update_of_ne (hne q hq) _ _, rfl, rfl, rfl⟩
        rcases hprep.comes hs he ⟨hsock, hopen⟩ hserves haccept j k hj with ⟨-, hold⟩ | ⟨rfl, hfd⟩
        · exact .keep hold (by simp) (by simp)
        · exact .new ⟨hserves, ⟨i, _, hlook, hi, rfl⟩, hfd, rfl⟩
      next => cases hm
      next =>
        cases hm
        exact .keep hj (by simp) (by simp)
  | destroying i =>
    obtain ⟨k₀, hi, -⟩ := Option.map_eq_some_iff.1 ho
    obtain ⟨s₁, hrun, -, -, -, hother, hout, -⟩ := release_does hs he hi
    simp only [machine, hi, Option.bind_some, hrun, Option.map_some] at hm
    cases hm
    by_cases hji : j = i
    · subst hji
      refine .destroyed rfl ?_
      cases hsel : k.selected with
      | false => rfl
      | true => exact absurd (hj.trans (by rw [← hsel])) (hout k.fd k.listens)
    · rw [hother j hji] at hj
      refine .keep hj ?_ (by simp)
      rintro ⟨rfl⟩
      exact hji rfl
  | stop q =>
    simp only [machine, stop, Option.map_map] at hm
    obtain ⟨s₁, hstop, heq⟩ := Option.map_eq_some_iff.1 hm
    cases heq
    have hj₁ : s₁.sockets j = .some k := (congrFun (leave_same s₁ q).2.2.2.2 j).symm.trans hj
    have hcomes : s.sockets j = .some k ∧ (s.delegatee q = .some j → k.listens = false) := by
      cases hd : s.delegatee q with
      | none =>
        rw [hd] at hstop
        cases hstop
        exact ⟨hj₁, fun h => absurd h (by simp)⟩
      | some i =>
        rw [hd] at hstop
        obtain ⟨k₀, hi⟩ := Option.ne_none_iff_exists'.1 (hs.handler q ho i hd)
        obtain ⟨s₂, hrun, -, -, hother, -⟩ := handlerStop_does hs he hi
        cases hstop.symm.trans hrun
        by_cases hji : j = i
        · subst hji
          cases hl : k₀.listens with
          | false =>
            simp only [handlerStop, hi, hl, Bool.false_eq_true, if_false] at hrun
            cases hrun
            cases hi.symm.trans hj₁
            exact ⟨hi, fun _ => hl⟩
          | true =>
            -- a listener is deleted
            simp only [handlerStop, hi, hl, if_true] at hrun
            obtain ⟨s₃, -, heq⟩ := Option.map_eq_some_iff.1 hrun
            rw [← heq, setSocket_self] at hj₁
            cases hj₁
        · exact ⟨hother j hji ▸ hj₁, fun h => absurd (Option.some.inj h).symm hji⟩
    refine .old hcomes.1 (by simp) ?_
    rintro q' ⟨rfl⟩ hd
    exact hcomes.2 hd

/-- The server's port is in office, and every socket that is selected is told
of its input. -/
structure Serving (s : Emulator) (p : ErlDrvPort) : Prop where
  office : s.Office
  entered : s.Entered
  serves : s.Serves p
  timer : p ∈ s.timers
  reaches : ∀ j k, s.sockets j = .some k → k.selected = true → s.Reaches p k.fd j

theorem Serving.unique (h : s.Serving p) {k' : SocketFields} (hi : s.sockets i = .some k) (hsel : k.selected = true)
    (hj : s.sockets j = .some k') (hsel' : k'.selected = true) (hfd : k.fd = k'.fd) : i = j := by
  have hlook := (h.reaches i k hi hsel).2
  rw [hfd] at hlook
  exact Option.some.inj (hlook.symm.trans (h.reaches j k' hj hsel').2)

theorem Serving.step (h : s.Serving p) (ho : Served p t s e) (hm : machine s e = .some (s', o)) : s'.Serving p := by
  obtain ⟨hoffered, hspares⟩ := ho
  have hstop : e ≠ .stop p := by
    rintro rfl
    exact hspares rfl
  have hdoes := step_does h.office h.entered hoffered hm
  have hmain : s'.mainHandler = .some p := (hdoes.mainHandler p).2 (.inr ⟨h.serves.1, hstop⟩)
  have hport : s'.port p ≠ .none := by
    rw [Ne, hdoes.port p hmain, not_or]
    refine ⟨fun hd => ?_, fun hnone => ?_⟩
    · obtain ⟨i, fd, l, rfl⟩ := hd
      exact hspares rfl
    · cases h.serves.2.symm.trans hnone.1
  have hserves : s'.Serves p := by
    obtain ⟨q, hq⟩ := Option.ne_none_iff_exists'.1 hport
    obtain rfl := hdoes.office.port p q hq
    exact ⟨hmain, hq⟩
  refine ⟨hdoes.office, hdoes.entered, hserves, (hdoes.timer p hmain).2 (.inr ⟨h.timer, ?_⟩), ?_⟩
  · rintro ⟨-, hnone⟩
    cases h.serves.2.symm.trans hnone
  · intro j k hj hsel
    rw [hdoes.reaches]
    cases sockets_step h.office h.entered h.serves hoffered hm hj with
    | new hreg => exact .inl hreg
    | destroyed _ hno => cases hno.symm.trans hsel
    | old hold hne hlistens =>
      refine .inr ⟨h.reaches j k hold hsel, fun hends => ?_⟩
      -- a socket that ends has a descriptor of its own
      cases e with
      | stop q =>
        rcases hends with rfl | ⟨i, k', hd, hi, hl, hsel', hfd⟩
        · exact hstop rfl
        · obtain rfl := h.unique hi hsel' hold hsel hfd
          cases hi.symm.trans hold
          cases (hlistens q rfl hd).symm.trans hl
      | destroying i =>
        obtain ⟨k', hi, hsel', hfd⟩ := hends
        exact hne (congrArg _ (h.unique hi hsel' hold hsel hfd))
      | _ => exact hends

end Emulator

end GenUtp
