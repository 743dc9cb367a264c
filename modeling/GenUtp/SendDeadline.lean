/-
The deadline of `send/3`: its start, and `Timeout` milliseconds.

Each round computes the rest of the timeout anew, from the start the call was
given and a reading of the clock. `Done` is no normal timestamp, for it keeps
all of `Timeout` in its microseconds, and both differences are cut to
milliseconds. It comes out right: a reading at or past the deadline returns
`etimedout` (`tdiff_late`), and a reading before it leads to a wait that is
not negative and ends by the deadline (`waitTime_deadline`). The start is that
of the call in every round, a `retry` later too, so that no sequence of rounds
goes past it (`send_deadline`).

Nothing is asked of the clock for that. Where it has not gone back behind the
start, the wait is also no longer than `Timeout`, and so one `receive` takes.
-/
import GenUtp.SendCall

namespace GenUtp

namespace Timestamp

/-- Microseconds since the epoch. -/
def micros (t : Timestamp) : Int := (t.mega * 1000000 + t.sec) * 1000000 + t.micro

/-- The deadline of a call, in microseconds. -/
def deadline (start : Timestamp) (timeout : Nat) : Int := start.micros + timeout * 1000

end Timestamp

open Timestamp

variable {start current : Timestamp} {timeout : Nat}

theorem nowDiff_micros (t₂ t₁ : Timestamp) : nowDiff t₂ t₁ = t₂.micros - t₁.micros := by
  unfold nowDiff micros
  omega

theorem done_micros (start : Timestamp) (timeout : Nat) :
    micros ⟨start.mega, start.sec, timeout * 1000 + start.micro⟩ = deadline start timeout := by
  simp only [deadline, micros]
  omega

/-! ## The two divisions -/

/-- At the deadline the first division sees all of `Timeout`. -/
theorem tdiff_late (h : deadline start timeout ≤ current.micros) : timeout ≤ tdiff current start := by
  have hdiff := nowDiff_micros current start
  unfold deadline at h
  rw [tdiff, Int.tdiv_eq_ediv_of_nonneg (by omega)]
  omega

/-- Before it, less. -/
theorem tdiff_early (h0 : 0 < timeout) (h : current.micros < deadline start timeout) :
    tdiff current start < timeout := by
  have hdiff := nowDiff_micros current start
  unfold deadline at h
  by_cases hpast : 0 ≤ nowDiff current start
  · rw [tdiff, Int.tdiv_eq_ediv_of_nonneg hpast]
    omega
  · have hback : 0 ≤ -tdiff current start := by
      rw [tdiff, ← Int.neg_tdiv]
      exact Int.tdiv_nonneg (by omega) (by decide)
    omega

/-- **The wait ends by the deadline.** -/
theorem waitTime_deadline (h : tdiff current start < timeout) :
    current.micros + waitTime timeout start current * 1000 ≤ deadline start timeout := by
  have hlt : current.micros < deadline start timeout := by
    by_contra hge
    have hlate : timeout ≤ tdiff current start := tdiff_late (Int.not_lt.1 hge)
    omega
  rw [waitTime, nowDiff_micros, done_micros, Int.tdiv_eq_ediv_of_nonneg (by omega)]
  omega

theorem waitTime_le (hclock : start.micros ≤ current.micros) (h : tdiff current start < timeout) :
    waitTime timeout start current ≤ timeout := by
  have hend := waitTime_deadline h
  unfold deadline at hend
  omega

/-! ## The steps of a call -/

/-- The arguments of the call in progress. -/
def SendPhase.args : SendPhase → Option SendArgs
  | .idle => .none
  | .replying c | .retrying c | .retryingFor c _ | .expired c | .cancelled c => .some c

namespace Sender

open UtpHandler

/-- Where the call goes in one step, and how it ends if it does. -/
inductive PhaseStep (s : Sender) : SendEvent → SendPhase → Option SendExit → Prop
  | begins {c mem} : s.phase = .idle → PhaseStep s (.call c mem) (.replying c) .none
  | aside {e} : PhaseStep s (.driver e) s.phase .none
  | waits {c current mem m} : s.phase = .replying c → s.mailbox = .wait :: m →
      PhaseStep s (.take current mem) (.retrying c) .none
  | late {c current mem timeout m} : s.phase = .replying c → s.mailbox = .waitFor timeout :: m →
      timeout ≤ tdiff current c.start →
      PhaseStep s (.take current mem) .idle (.some (.returned (.error .etimedout)))
  | early {c current mem timeout m} : s.phase = .replying c → s.mailbox = .waitFor timeout :: m →
      tdiff current c.start < timeout →
      PhaseStep s (.take current mem) (.retryingFor c (waitTime timeout c.start current)) .none
  | returns {c current mem r m} : s.phase = .replying c → s.mailbox = r :: m → r.parks = false →
      PhaseStep s (.take current mem) .idle (.some (.returned r))
  | retries {c current mem} : s.phase = .retrying c → PhaseStep s (.take current mem) (.replying c) .none
  | retriesInTime {c wait current mem} : s.phase = .retryingFor c wait →
      PhaseStep s (.take current mem) (.replying c) .none
  | expires {c wait} : s.phase = .retryingFor c wait → PhaseStep s .expire (.expired c) .none
  | raises {c wait} : s.phase = .retryingFor c wait → ¬(0 ≤ wait ∧ wait < 2 ^ 32) →
      PhaseStep s .expire .idle (.some .raised)
  | cancels {c} : s.phase = .expired c → PhaseStep s .cancel (.cancelled c) .none
  | drains {c r} : s.phase = .cancelled c → PhaseStep s .drain .idle (.some (.returned r))

variable {p : Pid} {s s' : Sender} {e : SendEvent} {t : SendTrace} {out : SendOut}

theorem request_phase {e : Event} {ph : SendPhase} (hm : s.request p e ph = .some (s', out)) :
    s'.phase = ph ∧ out.exit = .none := by
  unfold request at hm
  split at hm
  · cases hm
  · obtain ⟨r, -, heq⟩ := Option.map_eq_some_iff.1 hm
    obtain ⟨rfl, rfl⟩ := Prod.mk.inj heq
    exact ⟨rfl, rfl⟩

theorem takeRetry_phase {c : SendArgs} {mem : Mem} (hm : s.takeRetry p c mem = .some (s', out)) :
    s'.phase = .replying c ∧ out.exit = .none := by
  unfold takeRetry at hm
  split at hm
  · exact request_phase hm
  · cases hm

/-- **A call does nothing else.** -/
theorem phase_step (hm : machine p s e = .some (s', out)) : PhaseStep s e s'.phase out.exit := by
  obtain ⟨port, box, ph⟩ := s
  cases e with
  | call c mem =>
    cases ph with
    | idle =>
      obtain ⟨hphase, hexit⟩ := request_phase hm
      rw [hphase, hexit]
      exact .begins rfl
    | _ => cases hm
  | driver e =>
    obtain ⟨r, -, heq⟩ := Option.map_eq_some_iff.1 hm
    obtain ⟨rfl, rfl⟩ := Prod.mk.inj heq
    exact .aside
  | take current mem =>
    cases ph with
    | replying c =>
      cases box with
      | nil => cases hm
      | cons r m => cases r with
        | wait =>
          obtain ⟨rfl, rfl⟩ := Prod.mk.inj (Option.some.inj hm)
          exact .waits rfl rfl
        | waitFor timeout =>
          simp only [machine, takeReply] at hm
          split at hm
          · next hlate =>
            obtain ⟨rfl, rfl⟩ := Prod.mk.inj (Option.some.inj hm)
            exact .late rfl rfl hlate
          · next hearly =>
            obtain ⟨rfl, rfl⟩ := Prod.mk.inj (Option.some.inj hm)
            exact .early rfl rfl (Int.not_le.1 hearly)
        | _ =>
          obtain ⟨rfl, rfl⟩ := Prod.mk.inj (Option.some.inj hm)
          exact .returns rfl rfl rfl
    | retrying c =>
      obtain ⟨hphase, hexit⟩ := takeRetry_phase hm
      rw [hphase, hexit]
      exact .retries rfl
    | retryingFor c wait =>
      obtain ⟨hphase, hexit⟩ := takeRetry_phase hm
      rw [hphase, hexit]
      exact .retriesInTime rfl
    | _ => cases hm
  | expire =>
    cases ph with
    | retryingFor c wait =>
      simp only [machine] at hm
      split at hm
      · cases hm
      split at hm
      · obtain ⟨rfl, rfl⟩ := Prod.mk.inj (Option.some.inj hm)
        exact .expires rfl
      · next hwait =>
        obtain ⟨rfl, rfl⟩ := Prod.mk.inj (Option.some.inj hm)
        exact .raises rfl hwait
    | _ => cases hm
  | cancel =>
    cases ph with
    | expired c =>
      obtain ⟨hphase, hexit⟩ := request_phase hm
      rw [hphase, hexit]
      exact .cancels rfl
    | _ => cases hm
  | drain =>
    cases ph with
    | cancelled c =>
      have hleave : ∃ m r, leave ⟨port, box, .cancelled c⟩ m (.returned r) = .some (s', out) := by
        cases box with
        | nil => exact ⟨_, _, hm⟩
        | cons r m => cases r <;> exact ⟨_, _, hm⟩
      obtain ⟨m, r, hm⟩ := hleave
      obtain ⟨rfl, rfl⟩ := Prod.mk.inj (Option.some.inj hm)
      exact .drains rfl
    | _ => cases hm

/-! ## The rounds -/

/-- The arguments `send/2` last gave. -/
def lastCall (t : SendTrace) : Option SendArgs :=
  t.foldl (fun a x => match x.event with
    | .call c _ => .some c
    | _ => a) .none

@[simp] theorem lastCall_snoc (t : SendTrace) (x : Runs.Entry Sender SendEvent SendOut) :
    lastCall (t ++ [x]) = match x.event with
      | .call c _ => .some c
      | _ => lastCall t := by
  simp [lastCall]

/-- The call in progress has the arguments it was given. -/
def Given (t : SendTrace) (s : Sender) : Prop := ∀ c, s.phase.args = .some c → lastCall t = .some c

theorem given_step (hi : Given t s) (hm : machine p s e = .some (s', out)) : Given (t ++ [⟨s, e, out⟩]) s' := by
  intro c hc
  rw [lastCall_snoc]
  have hstep := phase_step hm
  revert hc
  generalize s'.phase = ph, out.exit = x at hstep ⊢
  intro hc
  cases hstep with
  | begins => exact hc
  | aside => exact hi c hc
  | waits hph | early hph | retries hph | retriesInTime hph | expires hph | cancels hph =>
    obtain rfl := Option.some.inj hc
    exact hi _ (by rw [hph]; rfl)
  | late | returns | raises | drains => cases hc

/-- The step is a round of a call with the arguments `c`: it reads
`{wait, timeout}`, and the clock is at `current`. -/
def Round (x : Runs.Entry Sender SendEvent SendOut) (c : SendArgs) (timeout : Nat) (current : Timestamp) : Prop :=
  x.pre.phase = .replying c ∧ (∃ m, x.pre.mailbox = .waitFor timeout :: m) ∧ ∃ mem, x.event = .take current mem

theorem round_step {c : SendArgs} {timeout : Nat} {current : Timestamp} (hr : Round ⟨s, e, out⟩ c timeout current)
    (hm : machine p s e = .some (s', out)) :
    (timeout ≤ tdiff current c.start ∧ s'.phase = .idle ∧
      out.exit = .some (.returned (.error .etimedout))) ∨
    (tdiff current c.start < timeout ∧ s'.phase = .retryingFor c (waitTime timeout c.start current) ∧
      out.exit = .none) := by
  obtain ⟨hphase, ⟨m, hbox⟩, mem, he⟩ := hr
  simp only at hphase hbox he
  subst he
  obtain ⟨port, box, ph⟩ := s
  subst hphase hbox
  simp only [machine, takeReply] at hm
  split at hm
  · next hlate =>
    obtain ⟨rfl, rfl⟩ := Prod.mk.inj (Option.some.inj hm)
    exact .inl ⟨hlate, rfl, rfl⟩
  · next hearly =>
    obtain ⟨rfl, rfl⟩ := Prod.mk.inj (Option.some.inj hm)
    exact .inr ⟨Int.not_le.1 hearly, rfl, rfl⟩

/-- A wait was there before, or a round has computed it. -/
theorem wait_round {c : SendArgs} {wait : Int} {ph : SendPhase} {x : Option SendExit}
    (hp : ph = .retryingFor c wait) (hs : PhaseStep s e ph x) : s.phase = .retryingFor c wait ∨
      ∃ timeout current, Round ⟨s, e, out⟩ c timeout current ∧ 0 ≤ wait ∧
        current.micros + wait * 1000 ≤ deadline c.start timeout := by
  cases hs with
  | aside => exact .inl hp
  | @early c' current mem timeout m hph hbox hlt =>
    obtain ⟨rfl, rfl⟩ := SendPhase.retryingFor.inj hp
    exact .inr ⟨timeout, current, ⟨hph, ⟨m, hbox⟩, mem, rfl⟩, waitTime_nonneg hlt, waitTime_deadline hlt⟩
  | _ => cases hp

/-- What the deadline asks of a step. -/
structure DeadlineKept (p : Pid) (t : SendTrace) (x : Runs.Entry Sender SendEvent SendOut) : Prop where
  /-- A round has the start `send/2` gave the call. -/
  start : ∀ c timeout current, Round x c timeout current → lastCall t = .some c
  /-- A wait is computed by a round, and is one that ends by its deadline. -/
  waits : Runs.After (machine p) (fun _ s' => ∀ c wait, s'.phase = .retryingFor c wait →
    x.pre.phase = .retryingFor c wait ∨ ∃ timeout current, Round x c timeout current ∧ 0 ≤ wait ∧
      current.micros + wait * 1000 ≤ deadline c.start timeout) t x
  /-- A round at or past it returns. -/
  late : ∀ c timeout current, Round x c timeout current → deadline c.start timeout ≤ current.micros →
    x.out.exit = .some (.returned (.error .etimedout)) ∧ Runs.After (machine p) (fun _ s' => s'.phase = .idle) t x
  /-- One before it does not. -/
  early : ∀ c timeout current, Round x c timeout current → 0 < timeout → current.micros < deadline c.start timeout →
    x.out.exit = .none ∧ Runs.After (machine p) (fun _ s' => ∃ wait, s'.phase = .retryingFor c wait) t x

/-- **`send/3` keeps its deadline**, in every run of calls, replies and
callbacks, whatever the clock reads: every round has the start of its call;
each wait it computes is not negative and ends by the start plus the timeout;
and a round at or past that returns `etimedout` without waiting. -/
theorem send_deadline {port : Port} {box : List SendReply} {G : Runs.Guard Sender SendEvent SendOut}
    (run : Runs.Run (machine p) G [] ⟨port, box, .idle⟩ t s) : Runs.Each (DeadlineKept p) t := by
  have hstart : Given [] (⟨port, box, .idle⟩ : Sender) := by
    intro c hc
    cases hc
  refine (run.each (I := Given) hstart ?_ .nil).2
  intro t s e s' out hi _ hm
  refine ⟨given_step hi hm, ?_, ?_, ?_, ?_⟩
  · intro c timeout current hr
    have hphase : s.phase = .replying c := hr.1
    exact hi c (by rw [hphase]; rfl)
  · rw [Runs.after_iff hm]
    intro c wait hp
    exact wait_round hp (phase_step hm)
  · intro c timeout current hr hlate
    have hge := tdiff_late hlate
    rw [Runs.after_iff hm]
    rcases round_step hr hm with ⟨-, hidle, hexit⟩ | ⟨hlt, -⟩
    · exact ⟨hexit, hidle⟩
    · omega
  · intro c timeout current hr h0 hearly
    have hlt := tdiff_early h0 hearly
    rw [Runs.after_iff hm]
    rcases round_step hr hm with ⟨hge, -⟩ | ⟨-, hwait, hexit⟩
    · omega
    · exact ⟨hexit, _, hwait⟩

/-- A `{wait, 5}` is read after 2 ms, and waits for 3. -/
theorem send_deadline_waits : ∃ t s c, Runs.Run (machine 1) (fun _ _ _ => True) []
      ⟨⟨startServer { SockOpts.new with sendTmout := 5 } 1, .none⟩, [], .idle⟩ t s ∧
    s.phase = .retryingFor c (waitTime 5 ⟨0, 0, 1000⟩ ⟨0, 0, 3000⟩) ∧ waitTime 5 ⟨0, 0, 1000⟩ ⟨0, 0, 3000⟩ = 3 ∧
    c.start = ⟨0, 0, 1000⟩ ∧ Runs.Each (DeadlineKept 1) t := by
  have run := ((((((((Runs.Run.start (machine 1) (fun _ _ _ => True)
      ⟨⟨startServer { SockOpts.new with sendTmout := 5 } 1, .none⟩, [], .idle⟩).next
      (.call ⟨⟨1, [⟨[7], .none⟩]⟩, ⟨0, 0, 0⟩⟩ fun _ => 0) trivial rfl).next
      (.driver (.resume .nothing)) trivial rfl).next (.driver (.resume .nothing)) trivial rfl).next
      (.take ⟨0, 0, 0⟩ fun _ => 0) trivial rfl).next
      (.call ⟨⟨1, [⟨[8], .none⟩]⟩, ⟨0, 0, 1000⟩⟩ fun _ => 0) trivial rfl).next
      (.driver (.resume .nothing)) trivial rfl).next (.driver (.resume .nothing)) trivial rfl).next
      (.take ⟨0, 0, 3000⟩ fun _ => 0) trivial rfl
  exact ⟨_, _, ⟨⟨1, [⟨[8], .none⟩]⟩, ⟨0, 0, 1000⟩⟩, run, rfl, by decide, rfl, send_deadline run⟩

/-! ## The timeout of `receive` -/

/-- The clock has not gone back behind the start of a call, and timeouts have
32 bits, as `send_tmout` has. -/
def Clocked : Runs.Guard Sender SendEvent SendOut := fun _ s e =>
  ∀ out c timeout current, Round ⟨s, e, out⟩ c timeout current →
    c.start.micros ≤ current.micros ∧ timeout < 2 ^ 32

/-- **`receive` is never given a timeout it does not take**: no call ends in
the `badarg` that `send/3` turns into `einval`. -/
theorem send_never_raises {port : Port} {box : List SendReply}
    (run : Runs.Run (machine p) Clocked [] ⟨port, box, .idle⟩ t s) :
    Runs.Each (fun _ x => x.out.exit ≠ .some .raised) t := by
  refine (run.each (I := fun _ s => ∀ c wait, s.phase = .retryingFor c wait → 0 ≤ wait ∧ wait < 2 ^ 32) nofun ?_
    .nil).2
  intro t s e s' out hi hg hm
  have hstep := phase_step hm
  generalize s'.phase = ph, out.exit = x at hstep ⊢
  cases hstep with
  | aside => exact ⟨hi, nofun⟩
  | @early c current mem timeout m hph hbox hlt =>
    obtain ⟨hclock, h32⟩ := hg out c timeout current ⟨hph, ⟨m, hbox⟩, mem, rfl⟩
    refine ⟨fun c' wait hp => ?_, nofun⟩
    obtain ⟨-, rfl⟩ := SendPhase.retryingFor.inj hp
    have hle := waitTime_le hclock hlt
    exact ⟨waitTime_nonneg hlt, by omega⟩
  | raises hph hwait => exact absurd (hi _ _ hph) hwait
  | _ => exact ⟨fun c' wait hp => (by cases hp), nofun⟩

end Sender

end GenUtp
