/-
The monitors of the main handler (`main_handler.cc`), over any number of
listeners.

A process that waits in `accept` is monitored, so that its exit takes it off
the queue. `mon_map` says which handler a monitor belongs to, `proc_mon_map`
which monitor a process has; `add_mon` enters a new monitor in both, but
`std::map::insert` keeps an old entry, so the second monitor of a process is
never in `proc_mon_map`, and `del_mon` finds the first one instead. A `World`
is the listeners, the two maps and the monitors the runtime holds.

`monitored_iff` says when this goes wrong: acceptors are monitored exactly
while queued for as long as no process asks while it is queued already. The
proof has one lemma for everything that lets go of processes: accepting,
cancelling, an exit and a stop each remove the acceptors and the monitors of
the same processes (`Monitored.without`).
-/
import Mathlib.Logic.Function.Basic
import GenUtp.Lib.StdMap
import GenUtp.Listener

namespace GenUtp

open StdMap

/-- `ErlDrvMonitor` -/
abbrev Monitor := Nat

/-- A `Handler*` in `mon_map`: a listener, or a server that is being
deleted. -/
inductive HandlerPtr
  | listener (id : Nat)
  | server
  deriving DecidableEq, Repr

/-- The maps of the main handler, and the monitors of the runtime. -/
structure Monitors where
  monMap : StdMap Monitor HandlerPtr
  procMonMap : StdMap Pid Monitor
  active : StdMap Monitor Pid
  next : Monitor

namespace Monitors

/-- `add_mon`, when `driver_monitor_process` answers 0: a fresh monitor. -/
def addMon (ms : Monitors) (p : Pid) (h : HandlerPtr) : Monitors where
  monMap := insertNew ms.monMap ms.next h
  procMonMap := insertNew ms.procMonMap p ms.next
  active := ms.active.insert ms.next p
  next := ms.next + 1

/-- `m` is demonitored or has fired, and is erased from both maps. -/
def drop (ms : Monitors) (p : Pid) (m : Monitor) : Monitors where
  monMap := ms.monMap.erase m
  procMonMap := ms.procMonMap.erase p
  active := ms.active.erase m
  next := ms.next

def delMon (ms : Monitors) (p : Pid) : Monitors :=
  match ms.procMonMap.lookup p with
  | .some m => ms.drop p m
  | .none => ms

/-- The inner loop of `del_mons`, over `proc_mon_map`, and the erasure of the
entry of `mon_map` it was run for. -/
def delEntry (ms : Monitors) (m : Monitor) : Monitors where
  monMap := ms.monMap.erase m
  procMonMap := eraseIf ms.procMonMap fun _ m' => m' = m
  active := if hasValue ms.procMonMap m then ms.active.erase m else ms.active
  next := ms.next

/-- `del_mons` -/
def delMons (ms : Monitors) (h : HandlerPtr) : Monitors :=
  ((ms.monMap.entries.filter fun e => e.2 = h).map fun e => e.1).foldl delEntry ms

/-- What the listener `id` asks of the main handler. -/
def apply (id : Nat) (ms : Monitors) : ListenerEffect → Monitors
  | .addMonitor p true => ms.addMon p (.listener id)
  | .delMonitor p => ms.delMon p
  | .delMonitors .listener => ms.delMons (.listener id)
  | .delMonitors .server => ms.delMons .server
  | _ => ms

end Monitors

structure World where
  listeners : Nat → Option Listener
  monitors : Monitors

inductive WorldEvent
  | listener (id : Nat) (e : ListenerEvent)
  /-- The runtime reports the exit of a process to one of its monitors. -/
  | processExit (m : Monitor)
  /-- The port of the listener is closed. -/
  | stop (id : Nat)

abbrev WorldTrace := Runs.Trace World WorldEvent (List ListenerEffect)

namespace World

/-- Listeners that nobody has asked yet. -/
def start (so : Nat → Option SockOpts) : World where
  listeners id := (so id).map Listener.new
  monitors := ⟨∅, ∅, ∅, 0⟩

/-- `MainHandler::process_exit` for the monitor `m` of `p`, which has fired. -/
def processExit (w : World) (m : Monitor) (p : Pid) : World :=
  match w.monitors.monMap.lookup m with
  | .some (.listener id) =>
    ⟨Function.update w.listeners id ((w.listeners id).map fun l => l.processExited p), w.monitors.drop p m⟩
  | .some .server => ⟨w.listeners, w.monitors.drop p m⟩
  | .none => ⟨w.listeners, { w.monitors with active := w.monitors.active.erase m }⟩

/-- After a step of the listener `id`. -/
def stepped (w : World) (id : Nat) (l' : Listener) (o : List ListenerEffect) : World :=
  ⟨Function.update w.listeners id (.some l'), o.foldl (Monitors.apply id) w.monitors⟩

/-- A listener hears of an exit from the main handler only. -/
def machine (w : World) : WorldEvent → Option (World × List ListenerEffect)
  | .listener _ (.processExited _) => .none
  | .listener id e =>
    (w.listeners id).bind fun l => (l.machine e).map fun (l', o) => (w.stepped id l' o, o)
  | .processExit m => (w.monitors.active.lookup m).map fun p => (w.processExit m p, [])
  | .stop id => (w.listeners id).map fun l =>
    (⟨Function.update w.listeners id .none, l.stop.foldl (Monitors.apply id) w.monitors⟩, l.stop)

end World

/-! ## Monitored while queued -/

/-- An acceptor that waits at the listener `id`. -/
def World.Queued (w : World) (id : Nat) (acc : Acceptor) : Prop :=
  ∃ l, w.listeners id = .some l ∧ acc ∈ l.acceptorQueue

/-- The two maps describe the monitors of the runtime. -/
structure Monitors.Agree (ms : Monitors) : Prop where
  procMonMap : ∀ p m, ms.procMonMap.lookup p = .some m ↔ ms.active.lookup m = .some p
  monMap : ∀ m, (∃ h, ms.monMap.lookup m = .some h) ↔ ∃ p, ms.active.lookup m = .some p

/-- Acceptors are monitored exactly while queued. -/
structure World.Monitored (w : World) : Prop where
  queued : ∀ id acc, w.Queued id acc → ∃ m, w.monitors.active.lookup m = .some acc.caller ∧
    w.monitors.monMap.lookup m = .some (.listener id)
  exits : ∀ id acc, w.Queued id acc → ∃ m, w.monitors.active.lookup m = .some acc.caller ∧
    ¬(w.processExit m acc.caller).Queued id acc
  agree : w.monitors.Agree
  unused : ∀ p, (∀ id acc, w.Queued id acc → acc.caller ≠ p) → ∀ m, w.monitors.active.lookup m ≠ .some p

/-! ## The maps after each operation -/

namespace Monitors

variable {ms ms' : Monitors} {gone : Pid → Prop}

/-- The monitors of the processes in `gone` are taken out, and no others. -/
structure Without (ms : Monitors) (gone : Pid → Prop) (ms' : Monitors) : Prop where
  active : ∀ m p, ms'.active.lookup m = .some p ↔ ms.active.lookup m = .some p ∧ ¬gone p
  procMonMap : ∀ p m, ms'.procMonMap.lookup p = .some m ↔ ms.procMonMap.lookup p = .some m ∧ ¬gone p
  monMap : ∀ m h, ms'.monMap.lookup m = .some h ↔
    ms.monMap.lookup m = .some h ∧ ∀ p, ms.active.lookup m = .some p → ¬gone p
  next : ms'.next = ms.next

theorem Agree.without (ha : ms.Agree) (h : ms.Without gone ms') : ms'.Agree where
  procMonMap p m := by rw [h.procMonMap, h.active, ha.procMonMap]
  monMap m := by
    constructor
    · intro hboth
      obtain ⟨hd, hm⟩ := hboth
      obtain ⟨hmon, hstay⟩ := (h.monMap m hd).1 hm
      obtain ⟨p, hp⟩ := (ha.monMap m).1 ⟨hd, hmon⟩
      exact ⟨p, (h.active m p).2 ⟨hp, hstay p hp⟩⟩
    · intro hsome
      obtain ⟨p, hp⟩ := hsome
      obtain ⟨hact, hstay⟩ := (h.active m p).1 hp
      obtain ⟨hd, hmon⟩ := (ha.monMap m).2 ⟨p, hact⟩
      refine ⟨hd, (h.monMap m hd).2 ⟨hmon, fun q hq => ?_⟩⟩
      rw [hact] at hq
      exact Option.some.inj hq ▸ hstay

theorem Agree.drop {p : Pid} {m : Monitor} (ha : ms.Agree) (hm : ms.active.lookup m = .some p) :
    ms.Without (fun q => q = p) (ms.drop p m) := by
  -- `m` is the monitor of `p`, and of nobody else
  have hiff : ∀ k q, ms.active.lookup k = .some q → (k = m ↔ q = p) := by
    intro k q hk
    constructor
    · intro heq
      subst heq
      rw [hm] at hk
      exact (Option.some.inj hk).symm
    · intro heq
      subst heq
      have hone := ((ha.procMonMap q k).2 hk).symm.trans ((ha.procMonMap q m).2 hm)
      exact Option.some.inj hone
  refine ⟨?_, ?_, ?_, rfl⟩
  · intro k q
    rw [Monitors.drop, lookup_erase_iff, and_comm]
    exact and_congr_right fun hk => not_congr (hiff k q hk)
  · intro q k
    rw [Monitors.drop, lookup_erase_iff, and_comm]
  · intro k h
    rw [Monitors.drop, lookup_erase_iff, and_comm]
    refine and_congr_right fun hmon => ?_
    constructor
    · intro hne q hq hp
      exact hne ((hiff k q hq).2 hp)
    · intro hstay heq
      subst heq
      exact hstay p hm rfl

theorem Without.same (h : ∀ m p, ms.active.lookup m = .some p → ¬gone p) (ha : ms.Agree) : ms.Without gone ms where
  active m p := ⟨fun hm => ⟨hm, h m p hm⟩, And.left⟩
  procMonMap p m := ⟨fun hm => ⟨hm, h m p ((ha.procMonMap p m).1 hm)⟩, And.left⟩
  monMap m _ := ⟨fun hm => ⟨hm, h m⟩, And.left⟩
  next := rfl

theorem Agree.delMon (ha : ms.Agree) (p : Pid) : ms.Without (fun q => q = p) (ms.delMon p) := by
  unfold Monitors.delMon
  split
  · next m hm => exact ha.drop ((ha.procMonMap p m).1 hm)
  · next hnone =>
    refine .same (fun m q hm hq => ?_) ha
    subst hq
    rw [(ha.procMonMap q m).2 hm] at hnone
    cases hnone

/-- What the loop of `del_mons` leaves, after the monitors `ks`. -/
theorem delEntries_lookup : ∀ (ks : List Monitor) (ms : Monitors),
    (∀ m h, (ks.foldl delEntry ms).monMap.lookup m = .some h ↔ ms.monMap.lookup m = .some h ∧ m ∉ ks) ∧
    (∀ p m, (ks.foldl delEntry ms).procMonMap.lookup p = .some m ↔ ms.procMonMap.lookup p = .some m ∧ m ∉ ks) ∧
    (∀ m p, (ks.foldl delEntry ms).active.lookup m = .some p ↔
      ms.active.lookup m = .some p ∧ ¬(m ∈ ks ∧ ∃ q, ms.procMonMap.lookup q = .some m)) ∧
    (ks.foldl delEntry ms).next = ms.next
  | [], ms => by simp
  | k :: ks, ms => by
    obtain ⟨hmon, hproc, hact, hnext⟩ := delEntries_lookup ks (ms.delEntry k)
    have hproc₁ : ∀ p m, (ms.delEntry k).procMonMap.lookup p = .some m ↔
        ms.procMonMap.lookup p = .some m ∧ m ≠ k := by
      intro p m
      simp [delEntry, lookup_eraseIf_iff]
    have hact₁ : ∀ m p, (ms.delEntry k).active.lookup m = .some p ↔
        ms.active.lookup m = .some p ∧ ¬(m = k ∧ ∃ q, ms.procMonMap.lookup q = .some m) := by
      intro m p
      unfold delEntry
      by_cases hk : hasValue ms.procMonMap k = true
      · have hval := hasValue_iff.1 hk
        rw [if_pos hk, lookup_erase_iff, and_comm]
        refine and_congr_right fun _ => not_congr ⟨fun h => ⟨h, h ▸ hval⟩, And.left⟩
      · rw [if_neg hk]
        refine (and_iff_left ?_).symm
        intro hfound
        obtain ⟨rfl, hval⟩ := hfound
        exact hk (hasValue_iff.2 hval)
    simp only [List.foldl_cons]
    refine ⟨?_, ?_, ?_, hnext⟩
    · intro m h
      rw [hmon, delEntry, lookup_erase_iff, List.mem_cons]
      tauto
    · intro p m
      rw [hproc, hproc₁, List.mem_cons]
      tauto
    · intro m p
      rw [hact, hact₁, List.mem_cons]
      simp only [hproc₁]
      by_cases hmk : m = k
      · subst hmk; simp
      · simp [hmk]

theorem delMons_lookup (ms : Monitors) (h : HandlerPtr) :
    (∀ m h', (ms.delMons h).monMap.lookup m = .some h' ↔ ms.monMap.lookup m = .some h' ∧ h' ≠ h) ∧
    (∀ p m, (ms.delMons h).procMonMap.lookup p = .some m ↔
      ms.procMonMap.lookup p = .some m ∧ ms.monMap.lookup m ≠ .some h) ∧
    (∀ m p, (ms.delMons h).active.lookup m = .some p ↔
      ms.active.lookup m = .some p ∧ ¬(ms.monMap.lookup m = .some h ∧ ∃ q, ms.procMonMap.lookup q = .some m)) ∧
    (ms.delMons h).next = ms.next := by
  have hmem : ∀ m, m ∈ (ms.monMap.entries.filter fun e => e.2 = h).map (fun e => e.1) ↔
      ms.monMap.lookup m = .some h := by
    intro m
    rw [lookup_iff, List.mem_map]
    constructor
    · intro hstep
      obtain ⟨⟨m', h'⟩, he, rfl⟩ := hstep
      obtain ⟨hent, hh⟩ := List.mem_filter.1 he
      obtain rfl : h' = h := by simpa using hh
      exact hent
    · exact fun he => ⟨⟨m, h⟩, List.mem_filter.2 ⟨he, by simp⟩, rfl⟩
  obtain ⟨hmon, hproc, hact, hnext⟩ := delEntries_lookup
    ((ms.monMap.entries.filter fun e => e.2 = h).map fun e => e.1) ms
  refine ⟨?_, ?_, ?_, hnext⟩
  · intro m h'
    rw [delMons, hmon, hmem]
    refine and_congr_right fun hm => not_congr ?_
    rw [hm]
    exact ⟨Option.some.inj, congrArg _⟩
  · intro p m
    rw [delMons, hproc, hmem]
  · intro m p
    rw [delMons, hact, hmem]

/-- `del_mons` takes out the processes whose monitor belongs to the handler. -/
theorem Agree.delMons (ha : ms.Agree) (h : HandlerPtr) :
    ms.Without (fun p => ∃ m, ms.active.lookup m = .some p ∧ ms.monMap.lookup m = .some h) (ms.delMons h) := by
  obtain ⟨hmon, hproc, hact, hnext⟩ := delMons_lookup ms h
  -- the monitor of a process is the only one
  have hgone : ∀ m p, ms.active.lookup m = .some p →
      ((∃ k, ms.active.lookup k = .some p ∧ ms.monMap.lookup k = .some h) ↔ ms.monMap.lookup m = .some h) := by
    intro m p hm
    constructor
    · intro hval
      obtain ⟨k, hk, hkh⟩ := hval
      have hone := ((ha.procMonMap p k).2 hk).symm.trans ((ha.procMonMap p m).2 hm)
      exact Option.some.inj hone ▸ hkh
    · exact fun hh => ⟨m, hm, hh⟩
  refine ⟨?_, ?_, ?_, hnext⟩
  · intro m p
    rw [hact]
    refine and_congr_right fun hm => not_congr ?_
    rw [hgone m p hm]
    exact and_iff_left ⟨p, (ha.procMonMap p m).2 hm⟩
  · intro p m
    rw [hproc]
    exact and_congr_right fun hm => not_congr (hgone m p ((ha.procMonMap p m).1 hm)).symm
  · intro m h'
    rw [hmon]
    refine and_congr_right fun hm => ?_
    constructor
    · intro hne p hp hg
      have hh := (hgone m p hp).1 hg
      rw [hm] at hh
      exact hne (Option.some.inj hh)
    · intro hstay heq
      subst heq
      obtain ⟨p, hp⟩ := (ha.monMap m).1 ⟨h', hm⟩
      exact hstay p hp ⟨m, hp, hm⟩

end Monitors

/-! ## One step -/

namespace World

variable {w w' : World} {id : Nat} {l : Listener} {e : WorldEvent} {o : List ListenerEffect}

/-- What holds of every run: monitors are fresh, no server has one, and while
acceptors are monitored no process waits twice. -/
structure WorldOk (w : World) : Prop where
  fresh : ∀ m p, w.monitors.active.lookup m = .some p → m < w.monitors.next
  pointers : ∀ m, w.monitors.monMap.lookup m ≠ .some .server
  distinct : w.Monitored → ∀ id l, w.listeners id = .some l → (l.acceptorQueue.map Acceptor.caller).Nodup

/-- The exit of a process takes it off the queue its monitor belongs to. -/
theorem exit_dequeues {m : Monitor} {acc : Acceptor} (hm : w.monitors.monMap.lookup m = .some (.listener id)) :
    ¬(w.processExit m acc.caller).Queued id acc := by
  intro hwait
  obtain ⟨l', hl', hacc⟩ := hwait
  unfold World.processExit at hl'
  rw [hm] at hl'
  simp only [Function.update_self] at hl'
  obtain ⟨l, -, rfl⟩ := Option.map_eq_some_iff.1 hl'
  simp [Listener.processExited] at hacc

theorem Monitored.of (queued : ∀ id acc, w.Queued id acc → ∃ m, w.monitors.active.lookup m = .some acc.caller ∧
      w.monitors.monMap.lookup m = .some (.listener id)) (agree : w.monitors.Agree)
    (unused : ∀ p, (∀ id acc, w.Queued id acc → acc.caller ≠ p) → ∀ m, w.monitors.active.lookup m ≠ .some p) :
    w.Monitored := by
  refine ⟨queued, fun id acc h => ?_, agree, unused⟩
  obtain ⟨m, hact, hmon⟩ := queued id acc h
  exact ⟨m, hact, exit_dequeues hmon⟩

theorem Monitored.at_one (hq : w.Monitored) {id' : Nat} {acc acc' : Acceptor} (h : w.Queued id acc)
    (h' : w.Queued id' acc') (hc : acc'.caller = acc.caller) : id' = id := by
  obtain ⟨m, hact, hmon⟩ := hq.queued id acc h
  obtain ⟨m', hact', hmon'⟩ := hq.queued id' acc' h'
  rw [hc] at hact'
  have hone := ((hq.agree.procMonMap _ m).2 hact).symm.trans ((hq.agree.procMonMap _ m').2 hact')
  obtain rfl := Option.some.inj hone
  rw [hmon] at hmon'
  exact (HandlerPtr.listener.inj (Option.some.inj hmon')).symm

/-- **Letting go of processes** keeps the others monitored: the acceptors and
the monitors that go are those of the same processes. -/
theorem Monitored.without {gone : Pid → Prop} (hq : w.Monitored)
    (hQ : ∀ id acc, w'.Queued id acc ↔ w.Queued id acc ∧ ¬gone acc.caller)
    (hm : w.monitors.Without gone w'.monitors) : w'.Monitored := by
  refine .of (fun id acc h => ?_) (hq.agree.without hm) fun p hnone m h => ?_
  · obtain ⟨hold, hstay⟩ := (hQ id acc).1 h
    obtain ⟨m, hact, hmon⟩ := hq.queued id acc hold
    refine ⟨m, (hm.active m _).2 ⟨hact, hstay⟩, (hm.monMap m _).2 ⟨hmon, fun p hp => ?_⟩⟩
    rw [hact] at hp
    exact Option.some.inj hp ▸ hstay
  · obtain ⟨hact, hstay⟩ := (hm.active m p).1 h
    refine hq.unused p (fun id acc hold hc => ?_) m hact
    exact hnone id acc ((hQ id acc).2 ⟨hold, hc ▸ hstay⟩) hc

/-- A step that lets go of processes, whose queues only shrink. -/
theorem WorldOk.without {gone : Pid → Prop} (hi : WorldOk w) (hq : w.Monitored)
    (hQ : ∀ id acc, w'.Queued id acc ↔ w.Queued id acc ∧ ¬gone acc.caller)
    (hm : w.monitors.Without gone w'.monitors)
    (hsub : ∀ id l', w'.listeners id = .some l' →
      ∃ l, w.listeners id = .some l ∧ l'.acceptorQueue.Sublist l.acceptorQueue) : WorldOk w' ∧ w'.Monitored := by
  refine ⟨⟨fun m p h => ?_, fun m h => ?_, fun _ id l' hl' => ?_⟩, hq.without hQ hm⟩
  · rw [hm.next]
    exact hi.fresh m p ((hm.active m p).1 h).1
  · exact hi.pointers m ((hm.monMap m _).1 h).1
  · obtain ⟨l, hl, hle⟩ := hsub id l' hl'
    exact (hi.distinct hq id l hl).sublist (hle.map _)

theorem queued_update {l' : Listener} {ms : Monitors} {id' : Nat} {acc : Acceptor} :
    World.Queued ⟨Function.update w.listeners id (.some l'), ms⟩ id' acc ↔
      (id' = id ∧ acc ∈ l'.acceptorQueue) ∨ (id' ≠ id ∧ w.Queued id' acc) := by
  by_cases hid : id' = id
  · subst hid; simp [World.Queued]
  · simp [World.Queued, hid]

theorem WorldOk.one_gone {p : Pid} {q' : List Acceptor} {ms' : Monitors} (hi : WorldOk w) (hq : w.Monitored)
    (hl : w.listeners id = .some l) (hsub : q'.Sublist l.acceptorQueue)
    (hmem : ∀ acc ∈ l.acceptorQueue, acc ∈ q' ↔ acc.caller ≠ p)
    (hat : ∀ id' acc, w.Queued id' acc → acc.caller = p → id' = id)
    (hm : w.monitors.Without (fun q => q = p) ms') :
    WorldOk ⟨Function.update w.listeners id (.some { l with acceptorQueue := q' }), ms'⟩ ∧
      World.Monitored ⟨Function.update w.listeners id (.some { l with acceptorQueue := q' }), ms'⟩ := by
  refine hi.without hq (fun id' acc => ?_) hm fun id' l' hl' => ?_
  · rw [queued_update]
    by_cases hid : id' = id
    · subst hid
      have hat : w.Queued id' acc ↔ acc ∈ l.acceptorQueue := by simp [World.Queued, hl]
      rw [hat]
      simp only [true_and, ne_eq, not_true_eq_false, false_and, or_false]
      exact ⟨fun h => ⟨hsub.subset h, (hmem acc (hsub.subset h)).1 h⟩, fun h => (hmem acc h.1).2 h.2⟩
    · simp only [hid, false_and, ne_eq, not_false_eq_true, true_and, false_or]
      exact (and_iff_left_of_imp fun h hc => hid (hat id' acc h hc)).symm
  · simp only at hl'
    by_cases hid : id' = id
    · subst hid
      rw [Function.update_self] at hl'
      obtain rfl := Option.some.inj hl'
      exact ⟨l, hl, hsub⟩
    · rw [Function.update_of_ne hid] at hl'
      exact ⟨l', hl', .refl _⟩

theorem WorldOk.released {acc : Acceptor} {q₁ q₂ : List Acceptor} (hi : WorldOk w) (hq : w.Monitored)
    (hl : w.listeners id = .some l) (hqueue : l.acceptorQueue = q₁ ++ acc :: q₂) :
    WorldOk ⟨Function.update w.listeners id (.some { l with acceptorQueue := q₁ ++ q₂ }),
      w.monitors.delMon acc.caller⟩ ∧
      World.Monitored
        ⟨Function.update w.listeners id (.some { l with acceptorQueue := q₁ ++ q₂ }),
          w.monitors.delMon acc.caller⟩ := by
  have hnodup := hi.distinct hq id l hl
  have hacc : w.Queued id acc := ⟨l, hl, by simp [hqueue]⟩
  refine hi.one_gone hq hl ?_ (fun a ha => ?_) (fun id' a h hc => hq.at_one hacc h hc) (hq.agree.delMon _)
  · rw [hqueue]
    exact (List.Sublist.refl q₁).append (List.sublist_cons_self acc q₂)
  · rw [hqueue, List.map_append, List.map_cons, List.nodup_middle, ← List.map_append, List.nodup_cons] at hnodup
    constructor
    · exact fun hmem hc => hnodup.1 (List.mem_map.2 ⟨a, hmem, hc⟩)
    · intro hc
      rw [hqueue, List.mem_append, List.mem_cons] at ha
      rcases ha with h₁ | rfl | h₂
      · exact List.mem_append_left _ h₁
      · exact absurd rfl hc
      · exact List.mem_append_right _ h₂

theorem WorldOk.exited {p : Pid} {m : Monitor} (hi : WorldOk w) (hq : w.Monitored)
    (hp : w.monitors.active.lookup m = .some p) : WorldOk (w.processExit m p) ∧ (w.processExit m p).Monitored := by
  obtain ⟨h, hmon⟩ := (hq.agree.monMap m).2 ⟨p, hp⟩
  have hat : ∀ id' acc, w.Queued id' acc → acc.caller = p → h = .listener id' := by
    intro id' acc hacc hc
    obtain ⟨m', hact', hmon'⟩ := hq.queued id' acc hacc
    rw [hc] at hact'
    have hone := ((hq.agree.procMonMap p m).2 hp).symm.trans ((hq.agree.procMonMap p m').2 hact')
    obtain rfl := Option.some.inj hone
    rw [hmon] at hmon'
    exact Option.some.inj hmon'
  have hdrop := hq.agree.drop hp
  unfold World.processExit
  rw [hmon]
  cases h with
  | server => exact absurd hmon (hi.pointers m)
  | listener id =>
    simp only
    cases hl : w.listeners id with
    | some l =>
      refine hi.one_gone hq hl List.filter_sublist (fun acc hacc => ?_) (fun id' acc hacc hc => ?_) hdrop
      · simp [hacc]
      · exact (HandlerPtr.listener.inj (hat id' acc hacc hc)).symm
    | none =>
      -- a listener that is gone has no acceptors, and `p` waits nowhere else
      rw [Option.map_none, ← hl, Function.update_eq_self]
      refine hi.without hq (fun id' acc => ?_) hdrop fun id' l' hl' => ⟨l', hl', .refl _⟩
      refine (and_iff_left_of_imp fun hacc hc => ?_).symm
      obtain rfl := HandlerPtr.listener.inj (hat id' acc hacc hc)
      obtain ⟨l, hl', -⟩ := hacc
      rw [hl] at hl'
      cases hl'

theorem stop_apply (l : Listener) (id : Nat) (ms : Monitors) :
    l.stop.foldl (Monitors.apply id) ms = ms.delMons (.listener id) := by
  unfold Listener.stop
  split <;> rfl

theorem WorldOk.stopped (hi : WorldOk w) (hq : w.Monitored) (id : Nat) :
    WorldOk ⟨Function.update w.listeners id .none, w.monitors.delMons (.listener id)⟩ ∧
      World.Monitored ⟨Function.update w.listeners id .none, w.monitors.delMons (.listener id)⟩ := by
  refine hi.without hq (fun id' acc => ?_) (hq.agree.delMons _) fun id' l' hl' => ?_
  · by_cases hid : id' = id
    · subst hid
      have hgone :
          ¬World.Queued ⟨Function.update w.listeners id' .none, w.monitors.delMons (.listener id')⟩ id' acc := by
        intro hlive
        obtain ⟨l, hl, -⟩ := hlive
        simp at hl
      exact iff_of_false hgone fun h => h.2 (hq.queued id' acc h.1)
    · have hsame : World.Queued ⟨Function.update w.listeners id .none, w.monitors.delMons (.listener id)⟩ id' acc ↔
          w.Queued id' acc := by simp [World.Queued, hid]
      rw [hsame]
      refine (and_iff_left_of_imp fun h => ?_).symm
      -- its monitor belongs to the listener it waits at
      intro hmon
      obtain ⟨m, hact, hmon⟩ := hmon
      obtain ⟨m', hact', hmon'⟩ := hq.queued id' acc h
      have hone := ((hq.agree.procMonMap _ m).2 hact).symm.trans ((hq.agree.procMonMap _ m').2 hact')
      obtain rfl := Option.some.inj hone
      rw [hmon] at hmon'
      exact hid (HandlerPtr.listener.inj (Option.some.inj hmon')).symm
  · simp only at hl'
    by_cases hid : id' = id
    · subst hid
      rw [Function.update_self] at hl'
      cases hl'
    · rw [Function.update_of_ne hid] at hl'
      exact ⟨l', hl', .refl _⟩

/-! ## `accept` -/

/-- The world after an `accept` that is monitored. -/
def joined (w : World) (id : Nat) (l : Listener) (acc : Acceptor) : World :=
  ⟨Function.update w.listeners id (.some { l with acceptorQueue := l.acceptorQueue ++ [acc] }),
    w.monitors.addMon acc.caller (.listener id)⟩

theorem queued_joined (hl : w.listeners id = .some l) (new : Acceptor) {id' : Nat} {acc : Acceptor} :
    (w.joined id l new).Queued id' acc ↔ w.Queued id' acc ∨ id' = id ∧ acc = new := by
  rw [joined, queued_update]
  by_cases hid : id' = id
  · subst hid; simp [World.Queued, hl]
  · simp [hid]

end World

namespace Monitors

variable {ms : Monitors} {p : Pid} {h : HandlerPtr}

theorem addMon_lookup (ms : Monitors) (p : Pid) (h : HandlerPtr) :
    (∀ m q, (ms.addMon p h).active.lookup m = .some q ↔
      m = ms.next ∧ q = p ∨ m ≠ ms.next ∧ ms.active.lookup m = .some q) ∧
    (∀ q m, (ms.addMon p h).procMonMap.lookup q = .some m ↔
      ms.procMonMap.lookup q = .some m ∨ q = p ∧ m = ms.next ∧ ms.procMonMap.lookup p = .none) ∧
    ∀ m h', (ms.addMon p h).monMap.lookup m = .some h' ↔
      ms.monMap.lookup m = .some h' ∨ m = ms.next ∧ h' = h ∧ ms.monMap.lookup ms.next = .none :=
  ⟨fun _ _ => lookup_insert_iff, fun _ _ => lookup_insertNew_iff, fun _ _ => lookup_insertNew_iff⟩

/-- **The second monitor of a process breaks the maps**: `proc_mon_map` keeps
the first. -/
theorem Agree.not_second {m : Monitor} (ha : ms.Agree) (hnext : ∀ q, ms.active.lookup ms.next ≠ .some q)
    (hm : ms.active.lookup m = .some p) : ¬(ms.addMon p h).Agree := by
  intro ha'
  obtain ⟨hact, hproc, -⟩ := addMon_lookup ms p h
  have hnew := (ha'.procMonMap p ms.next).2 ((hact _ _).2 (.inl ⟨rfl, rfl⟩))
  rcases (hproc _ _).1 hnew with hsame | ⟨-, -, hnone⟩
  · exact hnext p ((ha.procMonMap _ _).1 hsame)
  · rw [(ha.procMonMap p m).2 hm] at hnone
    cases hnone

theorem Agree.first (ha : ms.Agree) (hnext : ∀ q, ms.active.lookup ms.next ≠ .some q)
    (hnone : ∀ m, ms.active.lookup m ≠ .some p) :
    (ms.addMon p h).Agree ∧ (ms.addMon p h).monMap.lookup ms.next = .some h := by
  obtain ⟨hact, hproc, hmon⟩ := addMon_lookup ms p h
  have hfree : ms.monMap.lookup ms.next = .none := by
    refine Option.eq_none_iff_forall_ne_some.2 fun h' hm => ?_
    obtain ⟨q, hq⟩ := (ha.monMap _).1 ⟨h', hm⟩
    exact hnext q hq
  have hunused : ms.procMonMap.lookup p = .none :=
    Option.eq_none_iff_forall_ne_some.2 fun m hm => hnone m ((ha.procMonMap p m).1 hm)
  have hold : ∀ m q, ms.active.lookup m = .some q → m ≠ ms.next := fun m q hq he => hnext q (he ▸ hq)
  refine ⟨⟨fun q m => ?_, fun m => ?_⟩, (hmon _ _).2 (.inr ⟨rfl, rfl, hfree⟩)⟩
  · rw [hproc, hact, ha.procMonMap]
    constructor
    · intro hor
      rcases hor with hq | ⟨rfl, rfl, -⟩
      · exact .inr ⟨hold m q hq, hq⟩
      · exact .inl ⟨rfl, rfl⟩
    · intro hor
      rcases hor with ⟨rfl, rfl⟩ | ⟨-, hq⟩
      · exact .inr ⟨rfl, rfl, hunused⟩
      · exact .inl hq
  · simp only [hmon, hact]
    constructor
    · intro hmem
      obtain ⟨h', hm | ⟨rfl, -⟩⟩ := hmem
      · obtain ⟨q, hq⟩ := (ha.monMap m).1 ⟨h', hm⟩
        exact ⟨q, .inr ⟨hold m q hq, hq⟩⟩
      · exact ⟨p, .inl ⟨rfl, rfl⟩⟩
    · intro hmem
      obtain ⟨q, ⟨rfl, -⟩ | ⟨-, hq⟩⟩ := hmem
      · exact ⟨h, .inr ⟨rfl, rfl, hfree⟩⟩
      · obtain ⟨h', hm⟩ := (ha.monMap m).2 ⟨q, hq⟩
        exact ⟨h', .inl hm⟩

end Monitors

namespace World

variable {w w' : World} {id : Nat} {l : Listener} {e : WorldEvent} {o : List ListenerEffect}

/-- An `accept` keeps acceptors monitored exactly if its process does not wait
yet. -/
theorem WorldOk.joined_iff (hi : WorldOk w) (hq : w.Monitored) (hl : w.listeners id = .some l) (acc : Acceptor) :
    (w.joined id l acc).Monitored ↔ ∀ id' acc', w.Queued id' acc' → acc'.caller ≠ acc.caller := by
  have hnext : ∀ q, w.monitors.active.lookup w.monitors.next ≠ .some q := fun q h =>
    Nat.lt_irrefl _ (hi.fresh _ q h)
  obtain ⟨hact, -, hmon⟩ := Monitors.addMon_lookup w.monitors acc.caller (.listener id)
  constructor
  · intro hq' id' acc' hacc hc
    obtain ⟨m, hm, -⟩ := hq.queued id' acc' hacc
    exact hq.agree.not_second hnext (hc ▸ hm) hq'.agree
  · intro halone
    obtain ⟨hagree, hnew⟩ := hq.agree.first (h := .listener id) hnext (hq.unused acc.caller halone)
    refine .of (fun id' acc' hacc => ?_) hagree fun q hempty m hm => ?_
    · rcases (queued_joined hl _).1 hacc with hold | ⟨rfl, rfl⟩
      · obtain ⟨m, hm, hh⟩ := hq.queued id' acc' hold
        exact ⟨m, (hact m _).2 (.inr ⟨fun he => hnext _ (he ▸ hm), hm⟩), (hmon m _).2 (.inl hh)⟩
      · exact ⟨w.monitors.next, (hact _ _).2 (.inl ⟨rfl, rfl⟩), hnew⟩
    · rcases (hact m q).1 hm with ⟨-, rfl⟩ | ⟨-, hold⟩
      · exact hempty id acc ((queued_joined hl _).2 (.inr ⟨rfl, rfl⟩)) rfl
      · exact hq.unused q (fun id' acc' h => hempty id' acc' ((queued_joined hl _).2 (.inl h))) m hold

theorem WorldOk.joined (hi : WorldOk w) (hq : w.Monitored) (hl : w.listeners id = .some l) (acc : Acceptor) :
    WorldOk (w.joined id l acc) := by
  obtain ⟨hact, -, hmon⟩ := Monitors.addMon_lookup w.monitors acc.caller (.listener id)
  refine ⟨?_, ?_, ?_⟩
  · intro m p h
    rcases (hact m p).1 h with ⟨rfl, -⟩ | ⟨-, hold⟩
    · exact Nat.lt_succ_self _
    · exact Nat.lt_succ_of_lt (hi.fresh m p hold)
  · intro m h
    rcases (hmon m _).1 h with hold | ⟨-, hh, -⟩
    · exact hi.pointers m hold
    · cases hh
  · intro hq' id' l' hl'
    have halone := (hi.joined_iff hq hl acc).1 hq'
    have hnodup := hi.distinct hq
    simp only [World.joined] at hl'
    by_cases hid : id' = id
    · subst hid
      rw [Function.update_self] at hl'
      obtain rfl := Option.some.inj hl'
      exact Listener.nodup_joined (hnodup id' l hl) fun a ha => halone id' a ⟨l, hl, ha⟩
    · rw [Function.update_of_ne hid] at hl'
      exact hnodup id' l' hl'

theorem apply_opening {c : OpenCalls} {r : Opened} (h : Opening c r) (id : Nat) (ms : Monitors) :
    r.out.foldl (Monitors.apply id) ms = ms := by
  cases h <;> rfl

theorem WorldOk.delMons_server (hi : WorldOk w) : w.monitors.delMons .server = w.monitors := by
  have hnone : (w.monitors.monMap.entries.filter fun e => e.2 = HandlerPtr.server) = [] := by
    refine List.filter_eq_nil_iff.2 fun e he => ?_
    have hne : e.2 ≠ .server := fun hs => hi.pointers e.1 (lookup_iff.2 (hs ▸ he))
    simpa using hne
  rw [Monitors.delMons, hnone]
  rfl

theorem WorldOk.quiet (hi : WorldOk w) (hq : w.Monitored) (hl : w.listeners id = .some l)
    (ho : o.foldl (Monitors.apply id) w.monitors = w.monitors) :
    WorldOk (w.stepped id l o) ∧ (w.stepped id l o).Monitored := by
  have hsame : w.stepped id l o = w := by rw [stepped, ho, ← hl, Function.update_eq_self]
  rw [hsame]
  exact ⟨hi, hq⟩

theorem eraseP_found {ref : Ref} {q : List Acceptor} {acc : Acceptor}
    (h : q.find? (fun a => a.ref = ref) = .some acc) :
    ∃ q₁ q₂, q = q₁ ++ acc :: q₂ ∧ (q.eraseP fun a => a.ref = ref) = q₁ ++ q₂ := by
  obtain ⟨href, q₁, q₂, hq, hno⟩ := List.find?_eq_some_iff_append.1 h
  refine ⟨q₁, q₂, hq, ?_⟩
  rw [hq, List.eraseP_append_right _ fun a ha => by simpa using hno a ha]
  simp [href]

/-- A datagram releases the front acceptor, or changes nothing here. -/
theorem WorldOk.arrived {d : Datagram} {l' : Listener} (hi : WorldOk w) (hq : w.Monitored)
    (hl : w.listeners id = .some l) (hin : Listener.Incoming l d o l') :
    WorldOk (w.stepped id l' o) ∧ (w.stepped id l' o).Monitored := by
  cases hin with
  | dropped => exact hi.quiet hq hl rfl
  | refused _ hqueue hr =>
    rw [stepped, List.foldl_append, apply_opening hr]
    have hfront : l.acceptorQueue = [] ++ _ :: _ := hqueue
    exact hi.released hq hl hfront
  | handedOver _ hqueue hr =>
    rw [stepped, Listener.created, List.foldl_append, List.foldl_append, apply_opening hr]
    have hfront : l.acceptorQueue = [] ++ _ :: _ := hqueue
    exact hi.released hq hl hfront
  | discarded _ _ hr =>
    refine hi.quiet hq hl ?_
    simp only [Listener.created, List.foldl_append, apply_opening hr]
    show (w.monitors.delMons .server).delMons .server = w.monitors
    rw [hi.delMons_server, hi.delMons_server]

/-- An `accept` that is monitored finds no acceptor of its process. -/
def Alone (w : World) : WorldEvent → Prop
  | .listener _ (.accept p buf true) => ∀ ref ∈ decodeBinary buf, ∀ id acc, w.Queued id acc → acc.caller ≠ p
  | _ => True

/-- Whether a step of one listener keeps acceptors monitored. -/
theorem WorldOk.listener_step {e : ListenerEvent} {l' : Listener} (hi : WorldOk w) (hq : w.Monitored)
    (hl : w.listeners id = .some l) (hs : Listener.Step l e o l') (he : ∀ p, e ≠ .processExited p) :
    WorldOk (w.stepped id l' o) ∧ ((w.stepped id l' o).Monitored ↔ w.Alone (.listener id e)) := by
  have hkeeps : ∀ {e' : ListenerEvent}, WorldOk (w.stepped id l' o) ∧ (w.stepped id l' o).Monitored →
      w.Alone (.listener id e') →
      WorldOk (w.stepped id l' o) ∧ ((w.stepped id l' o).Monitored ↔ w.Alone (.listener id e')) :=
    fun h ha => ⟨h.1, iff_of_true h.2 ha⟩
  cases hs with
  | @acceptQueued p buf ref hd =>
    refine ⟨hi.joined hq hl ⟨p, ref⟩, (hi.joined_iff hq hl ⟨p, ref⟩).trans ?_⟩
    simp [Alone, hd]
  | acceptBadarg hd =>
    refine hkeeps (hi.quiet hq hl rfl) ?_
    unfold Alone
    split <;> simp_all
  | @cancelFound p buf ref acc hd hf =>
    obtain ⟨q₁, q₂, hqueue, herase⟩ := eraseP_found hf
    refine hkeeps ?_ trivial
    rw [herase]
    exact hi.released hq hl hqueue
  | exited => exact absurd rfl (he _)
  | arrived hin => exact hkeeps (hi.arrived hq hl hin) trivial
  | acceptRefused | cancelBadarg | cancelUnknown | closed | peername | notConnected =>
    exact hkeeps (hi.quiet hq hl rfl) trivial

theorem WorldOk.step (hi : WorldOk w) (hq : w.Monitored) (hm : machine w e = .some (w', o)) :
    WorldOk w' ∧ (w'.Monitored ↔ w.Alone e) := by
  cases e with
  | listener id e =>
    have he : ∀ p, e ≠ .processExited p := by
      intro p heq
      subst heq
      cases hm
    have hm : ((w.listeners id).bind fun l => (l.machine e).map fun (l', o) => (w.stepped id l' o, o)) =
        .some (w', o) := by
      cases e with
      | processExited p => exact absurd rfl (he p)
      | _ => exact hm
    obtain ⟨l, hl, hm⟩ := Option.bind_eq_some_iff.1 hm
    obtain ⟨⟨l', o'⟩, hstep, heq⟩ := Option.map_eq_some_iff.1 hm
    obtain ⟨rfl, rfl⟩ := Prod.mk.inj heq
    exact hi.listener_step hq hl (Listener.machine_step hstep) he
  | processExit m =>
    obtain ⟨p, hp, heq⟩ := Option.map_eq_some_iff.1 hm
    obtain ⟨rfl, rfl⟩ := Prod.mk.inj heq
    obtain ⟨hok, hmon⟩ := hi.exited hq hp
    exact ⟨hok, iff_of_true hmon trivial⟩
  | stop id =>
    obtain ⟨l, hl, heq⟩ := Option.map_eq_some_iff.1 hm
    obtain ⟨rfl, rfl⟩ := Prod.mk.inj heq
    rw [stop_apply]
    obtain ⟨hok, hmon⟩ := hi.stopped hq id
    exact ⟨hok, iff_of_true hmon trivial⟩

/-! ## Every run -/

theorem not_queued_start (so : Nat → Option SockOpts) (id : Nat) (acc : Acceptor) : ¬(start so).Queued id acc := by
  intro hwait
  obtain ⟨l, hl, hacc⟩ := hwait
  obtain ⟨so', -, rfl⟩ := Option.map_eq_some_iff.1 hl
  cases hacc

theorem start_monitored (so : Nat → Option SockOpts) : (start so).Monitored := by
  refine .of (fun id acc h => absurd h (not_queued_start so id acc)) ⟨fun p m => ?_, fun m => ?_⟩ fun p _ m h => ?_
  · exact iff_of_false nofun nofun
  · exact iff_of_false nofun nofun
  · cases h

/-- **Acceptors are monitored exactly while queued** in all states of a run
exactly if no process asks while one of its acceptors is queued, at any
listener. -/
theorem monitored_iff {so : Nat → Option SockOpts} {t : WorldTrace}
    (run : Runs.Run machine (fun _ _ _ => True) [] (start so) t w) :
    Runs.Each (Runs.After machine fun _ w => w.Monitored) t ↔ Runs.Each (fun _ x => x.pre.Alone x.event) t := by
  have hstart : WorldOk (start so) := by
    refine ⟨fun m p h => ?_, fun m h => ?_, fun _ id l hl => ?_⟩
    · cases h
    · cases h
    obtain ⟨so', -, rfl⟩ := Option.map_eq_some_iff.1 hl
    exact List.nodup_nil
  refine run.each_iff (I := fun _ w => WorldOk w) hstart (start_monitored so) ?_
  intro t w e w' o hi hq _ hm
  exact hi.step hq hm

/-- Two processes wait at two listeners; the first exits, and a datagram answers
the second. -/
theorem monitored_run : ∃ t w, Runs.Run machine (fun _ _ _ => True) [] (start fun _ => .some SockOpts.new) t w ∧
    t.length = 4 ∧ Runs.Each (Runs.After machine fun _ w => w.Monitored) t := by
  have run := ((((Runs.Run.start machine (fun _ _ _ => True) (start fun _ => .some SockOpts.new)).next
      (.listener 0 (.accept 1 [.version, .binary [1]] true)) trivial rfl).next
      (.listener 1 (.accept 2 [.version, .binary [2]] true)) trivial rfl).next
      (.processExit 0) trivial rfl).next
      (.listener 1 (.inputReady (.connecting 7 1 100))) trivial rfl
  refine ⟨_, _, run, rfl, (monitored_iff run).2 ((((Runs.Each.nil.snoc ?_).snoc ?_).snoc trivial).snoc trivial)⟩
  · intro ref _ id acc hacc
    exact absurd hacc (not_queued_start _ id acc)
  · intro ref _ id acc hacc
    have hone := (queued_joined (w := start fun _ => .some SockOpts.new) (l := .new SockOpts.new) rfl ⟨1, [1]⟩).1 hacc
    rcases hone with hold | ⟨-, rfl⟩
    · exact absurd hold (not_queued_start _ id acc)
    · decide

/-- A process that waits twice: its second monitor is missing from
`proc_mon_map`; answered at the second listener, it has no monitor at the
first, and its acceptor stays there after its exit; and answered at one
listener and cancelled there, it keeps a monitor for nothing. -/
theorem monitors_lost :
    (∃ t w, Runs.Run machine (fun _ _ _ => True) [] (start fun _ => .some SockOpts.new) t w ∧
      ¬w.monitors.Agree ∧ ¬w.Monitored) ∧
    (∃ t w, Runs.Run machine (fun _ _ _ => True) [] (start fun _ => .some SockOpts.new) t w ∧
      w.Queued 0 ⟨1, [1]⟩ ∧ w.monitors.active = ∅ ∧ ¬w.Monitored) ∧
    ∃ t w, Runs.Run machine (fun _ _ _ => True) [] (start fun _ => .some SockOpts.new) t w ∧
      (∀ id acc, ¬w.Queued id acc) ∧ w.monitors.active.lookup 1 = .some 1 ∧ ¬w.Monitored := by
  have twice := ((Runs.Run.start machine (fun _ _ _ => True) (start fun _ => .some SockOpts.new)).next
      (.listener 0 (.accept 1 [.version, .binary [1]] true)) trivial rfl).next
      (.listener 1 (.accept 1 [.version, .binary [2]] true)) trivial rfl
  have dead := (twice.next (.listener 1 (.inputReady (.connecting 7 1 100))) trivial rfl).next
      (.processExit 1) trivial rfl
  have left := (twice.next (.listener 1 (.inputReady (.connecting 7 1 100))) trivial rfl).next
      (.listener 0 (.cancelAccept 1 [.version, .binary [1]])) trivial rfl
  refine ⟨⟨_, _, twice, fun ha => ?_, fun hq => ?_⟩, ⟨_, _, dead, ⟨_, rfl, by decide⟩, rfl, fun hq => ?_⟩,
    _, _, left, fun id acc hacc => ?_, rfl, fun hq => ?_⟩
  · cases (ha.procMonMap 1 1).2 rfl
  · cases (hq.agree.procMonMap 1 1).2 rfl
  · obtain ⟨m, hm, -⟩ := hq.queued 0 ⟨1, [1]⟩ ⟨_, rfl, by decide⟩
    cases hm
  · obtain ⟨l, hl, hmem⟩ := hacc
    rcases id with - | - | id <;> cases hl <;> cases hmem
  · refine hq.unused 1 (fun id acc hacc => ?_) 1 rfl
    obtain ⟨l, hl, hmem⟩ := hacc
    rcases id with - | - | id <;> cases hl <;> cases hmem

end World

end GenUtp
