/-
Every call into libutp is made on a live socket: one that is not null and
was not passed to `UTP_Close` before.

`calls` walks the calls of a step and keeps the socket at hand; `calls_step`
says that a step's calls lead from the handler's socket before it to the one
after. Two requests do not look at the socket they pass on: `recv` tells
libutp that it drained the queue, and `setopts` the buffer sizes it changed,
with a null socket too (`null_socket_calls`). `SparesSocket` leaves out just
these, and without them every call is live in every run (`calls_live`).

Of libutp it is assumed that `do_read` and WRITABLE come only for a socket
the handler still holds, and that a new connection brings a new socket
(`SocketContract`).
-/
import GenUtp.ReadStream

namespace GenUtp

open Segments

/-- Everything a run put out, in order. -/
def effects (t : Trace) : List Effect := t.flatMap (·.out)

@[simp] theorem effects_nil : effects [] = [] := rfl

@[simp] theorem effects_snoc (t : Trace) (x : Runs.Entry UtpHandler Event (List Effect)) :
    effects (t ++ [x]) = effects t ++ x.out := by
  simp [effects]

/-- `s` was passed to `UTP_Close`. -/
def ClosedIn (s : UTPSocket) (es : List Effect) : Prop := ∃ unsent, Effect.utp (.some s) (.close unsent) ∈ es

/-- Every call is made on a socket that is not null and not closed before. -/
def CallsLive (es : List Effect) : Prop :=
  ∀ es₁ u c es₂, es = es₁ ++ .utp u c :: es₂ → ∃ s, u = .some s ∧ ¬ClosedIn s es₁

/-! ## Following the socket at hand -/

/-- The socket after some calls, when each is made on the one at hand, or
takes the new socket `k`. -/
def calls (k : Option UTPSocket) : Option UTPSocket → List Effect → Option (Option UTPSocket)
  | u, [] => .some u
  | u, .utp s .setCallbacks :: o => if s ≠ .none ∧ u = .none ∧ s = k then calls k s o else .none
  | u, .utp s (.close _) :: o => if s ≠ .none ∧ s = u then calls k .none o else .none
  | u, .utp s _ :: o => if s ≠ .none ∧ s = u then calls k u o else .none
  | u, _ :: o => calls k u o

/-- The socket a new connection brings. -/
def Event.incoming : Event → Option UTPSocket
  | .doIncoming s => .some s
  | _ => .none

/-- Not a call into libutp. -/
def Effect.silent : Effect → Bool
  | .utp _ _ => false
  | _ => true

variable {k : Option UTPSocket}

@[simp] theorem calls_nil (u : Option UTPSocket) : calls k u [] = .some u := rfl

@[simp] theorem calls_setCallbacks (u s : Option UTPSocket) (o : List Effect) :
    calls k u (.utp s .setCallbacks :: o) = if s ≠ .none ∧ u = .none ∧ s = k then calls k s o else .none := rfl

@[simp] theorem calls_close (u s : Option UTPSocket) (n : Nat) (o : List Effect) :
    calls k u (.utp s (.close n) :: o) = if s ≠ .none ∧ s = u then calls k .none o else .none := rfl

@[simp] theorem calls_utp (u s : Option UTPSocket) {c : UtpCall} (o : List Effect) (hset : c ≠ .setCallbacks)
    (hclose : ∀ n, c ≠ .close n) :
    calls k u (.utp s c :: o) = if s ≠ .none ∧ s = u then calls k u o else .none := by
  cases c with
  | setCallbacks => exact absurd rfl hset
  | close n => exact absurd rfl (hclose n)
  | _ => rfl

theorem calls_append : ∀ (o : List Effect) {u : Option UTPSocket} {o' : List Effect},
    calls k u (o ++ o') = (calls k u o).bind fun v => calls k v o'
  | [], _, _ => rfl
  | x :: o, u, o' => by
    cases x with
    | utp s c =>
      cases c with
      | setCallbacks =>
        rw [List.cons_append, calls_setCallbacks, calls_setCallbacks]
        split
        · exact calls_append o
        · rfl
      | close n =>
        rw [List.cons_append, calls_close, calls_close]
        split
        · exact calls_append o
        · rfl
      | _ =>
        simp only [List.cons_append, calls_utp, ne_eq, reduceCtorEq, not_false_eq_true, implies_true]
        split
        · exact calls_append o
        · rfl
    | _ => exact calls_append o

theorem calls_of_silent {o : List Effect} {u : Option UTPSocket} (h : o.all Effect.silent = true) :
    calls k u o = .some u := by
  induction o with
  | nil => rfl
  | cons x o ih =>
    simp only [List.all_cons, Bool.and_eq_true] at h
    cases x with
    | utp => cases h.1
    | _ => exact ih h.2

theorem not_closedIn_snoc {s : UTPSocket} {es : List Effect} {x : Effect} (h : ¬ClosedIn s es)
    (hx : ∀ unsent, x ≠ .utp (.some s) (.close unsent)) : ¬ClosedIn s (es ++ [x]) := by
  intro hclose
  obtain ⟨unsent, hmem⟩ := hclose
  rcases List.mem_append.1 hmem with hmem | hmem
  · exact h ⟨unsent, hmem⟩
  · exact hx unsent (List.mem_singleton.1 hmem).symm

theorem CallsLive.snoc {es : List Effect} {x : Effect} (h : CallsLive es)
    (hx : ∀ u c, x = .utp u c → ∃ s, u = .some s ∧ ¬ClosedIn s es) : CallsLive (es ++ [x]) := by
  intro es₁ u c es₂ he
  rcases List.eq_nil_or_concat es₂ with rfl | ⟨v, y, rfl⟩
  · obtain ⟨rfl, hlast⟩ := List.append_inj' he rfl
    exact hx u c (List.head_eq_of_cons_eq hlast)
  · rw [List.concat_eq_append, ← List.cons_append, ← List.append_assoc] at he
    obtain ⟨rfl, -⟩ := List.append_inj' he rfl
    exact h es₁ u c v rfl

/-- Calls that follow the socket at hand keep every call live, and leave a
live socket, when the new one was not closed before. -/
theorem calls_safe : ∀ {o : List Effect} {u u' : Option UTPSocket} {es : List Effect}, calls k u o = .some u' →
    CallsLive es → (∀ s, u = .some s → ¬ClosedIn s es) → (∀ s, k = .some s → ¬ClosedIn s (es ++ o)) →
    CallsLive (es ++ o) ∧ ∀ s, u' = .some s → ¬ClosedIn s (es ++ o)
  | [], u, u', es, hc, hl, hu, _ => by
    obtain rfl := Option.some.inj hc
    rw [List.append_nil]
    exact ⟨hl, hu⟩
  | x :: o, u, u', es, hc, hl, hu, hk => by
    have hfresh : ∀ s, k = .some s → ¬ClosedIn s es :=
      fun s hs ⟨n, hn⟩ => hk s hs ⟨n, List.mem_append_left _ hn⟩
    have hsilent : x.silent = true → CallsLive (es ++ [x]) ∧ ∀ s, u = .some s → ¬ClosedIn s (es ++ [x]) := by
      intro hx
      refine ⟨hl.snoc ?_, fun s hs => not_closedIn_snoc (hu s hs) ?_⟩
      · intro u c heq
        subst heq
        cases hx
      · intro unsent heq
        subst heq
        cases hx
    have hcall : ∀ s c, s ≠ .none → s = u → x = .utp s c → CallsLive (es ++ [x]) := by
      intro s c hs heq heq'
      subst heq
      subst heq'
      obtain ⟨i, hi⟩ := Option.ne_none_iff_exists'.1 hs
      refine hl.snoc ?_
      intro u' c' hpair
      obtain ⟨rfl, rfl⟩ := hpair
      exact ⟨i, hi, hu i hi⟩
    -- after `x`: the calls so far are live, and so is the socket at hand
    obtain ⟨v, hv, hl', hu'⟩ : ∃ v, calls k v o = .some u' ∧ CallsLive (es ++ [x]) ∧
        ∀ s, v = .some s → ¬ClosedIn s (es ++ [x]) := by
      cases x with
      | utp s c =>
        cases c with
        | setCallbacks =>
          rw [calls_setCallbacks] at hc
          split at hc
          · next hs =>
            obtain ⟨i, rfl⟩ := Option.ne_none_iff_exists'.1 hs.1
            have hi : ¬ClosedIn i es := hfresh i hs.2.2.symm
            refine ⟨.some i, hc, hl.snoc ?_, ?_⟩
            · intro u' c' hpair
              obtain ⟨rfl, rfl⟩ := hpair
              exact ⟨i, rfl, hi⟩
            · intro s hs
              obtain ⟨rfl⟩ := hs
              exact not_closedIn_snoc hi nofun
          · cases hc
        | close n =>
          rw [calls_close] at hc
          split at hc
          · next hs => exact ⟨.none, hc, hcall s _ hs.1 hs.2 rfl, nofun⟩
          · cases hc
        | _ =>
          simp only [calls_utp, ne_eq, reduceCtorEq, not_false_eq_true, implies_true] at hc
          split at hc
          · next hs =>
            exact ⟨u, hc, hcall s _ hs.1 hs.2 rfl, fun i hi => not_closedIn_snoc (hu i hi) nofun⟩
          · cases hc
      | _ => exact ⟨u, hc, hsilent rfl⟩
    have hstep := calls_safe hv hl' hu' fun s hs => by
      rw [List.append_assoc]
      exact hk s hs
    rwa [List.append_assoc] at hstep

namespace UtpHandler

@[simp] theorem all_silent_dataMessages (so : SockOpts) (receiver : Receiver) (ms : List Packet) :
    (dataMessages so receiver ms).all Effect.silent = true :=
  all_dataMessages so receiver ms fun _ => by cases receiver <;> rfl

@[simp] theorem all_silent_deselect (h : UtpHandler) : h.deselect.all Effect.silent = true :=
  all_deselect h rfl

variable {h h' : UtpHandler} {e : Event} {o : List Effect}

/-! ## What a passive delivery leaves -/

/-- How many bytes a delivery to a passive receiver takes off the driver
queue. -/
def takenBytes (h : UtpHandler) (len : Nat) (mem : Mem) : Nat :=
  if h.announced mem ≠ 0 then h.sockopts.packet + h.announced mem else (if len = 0 then h.sizeq else len) % 2 ^ 32

theorem delivery_leaves {len : Nat} {mem : Mem} {ms : List Packet} {queue : List (List UInt8)} {rc : List Nat}
    (hd : h.deliverable len mem = true) (ha : h.sockopts.active = .activeFalse)
    (ht : h.takenBytes len mem < h.sizeq) (hm : h.delivery len mem = .some (ms, queue, rc)) : size queue ≠ 0 := by
  simp only [deliverable, decide_eq_true_eq] at hd
  obtain ⟨h0, hlen, -, -⟩ := hd
  have hq : h.sizeq = size h.queue := rfl
  rw [takenBytes] at ht
  rw [delivery] at hm
  split at hm
  · next hk =>
    rw [if_pos hk] at ht
    obtain ⟨rc', -, hp⟩ := Option.bind_eq_some_iff.1 hm
    have hsize : size (deqSegs h.sockopts.packet h.queue) = size h.queue - h.sockopts.packet := size_deqSegs (by omega)
    have hbuf : (takeSegs (h.announced mem) (deqSegs h.sockopts.packet h.queue)).length = h.announced mem :=
      length_takeSegs (by omega)
    rw [takePacket, if_neg (by omega)] at hp
    obtain ⟨-, hp⟩ := Prod.mk.inj (Option.some.inj hp)
    obtain ⟨rfl, -⟩ := Prod.mk.inj hp
    rw [size_deqSegs (by omega)]
    omega
  · next hk =>
    rw [if_neg hk] at ht
    obtain ⟨rc', hrc, hp⟩ := Option.bind_eq_some_iff.1 hm
    set k := (if len = 0 then h.sizeq else len) % 2 ^ 32 with hkdef
    have hbuf : (takeSegs k h.queue).length = k := length_takeSegs (by omega)
    rw [takePacket, hbuf] at hp
    split at hp
    · next hk0 =>
      -- a length that is a multiple of `2 ^ 32`: the next chunk is shorter
      rcases rc' with _ | ⟨c, rc'⟩
      · cases hp
      · have hne : len ≠ 0 := by
          intro heq
          subst heq
          cases hrc
        rw [if_neg hne] at hkdef
        have hbig : 2 ^ 32 ≤ len := Nat.le_of_not_lt fun hlt => hne (by rw [← Nat.mod_eq_of_lt hlt]; omega)
        have hc : c % 2 ^ 32 < 2 ^ 32 := Nat.mod_lt _ (by decide)
        have hsize : size (deqSegs k h.queue) = size h.queue := by rw [size_deqSegs (by omega)]; omega
        simp only [takeChunks, Option.map_some, Option.some.injEq, Prod.mk.injEq] at hp
        obtain ⟨-, rfl, -⟩ := hp
        rw [size_deqSegs (by omega)]
        omega
    · next hk0 =>
      obtain ⟨-, hp⟩ := Prod.mk.inj (Option.some.inj hp)
      obtain ⟨rfl, -⟩ := Prod.mk.inj hp
      rw [size_deqSegs (by omega)]
      omega

/-! ## One step -/

/-- Callbacks come for a socket the handler holds, and a new connection
brings a fresh socket. -/
def SocketContract : Runs.Guard UtpHandler Event (List Effect) := fun t h e =>
  match e with
  | .doRead _ _ => h.utp ≠ .none
  | .stateChange .writable _ => h.utp ≠ .none
  | .doIncoming s => ¬ClosedIn s (effects t)
  | _ => True

/-- Without a socket, no `recv` takes all that is queued, and no `setopts`
changes a buffer size. -/
def SparesSocket (h : UtpHandler) : Event → Prop
  | .recv _ buf mem => h.utp = .none → h.sockopts.active = .activeFalse → ∀ len ref,
      decodeRecv buf = .some (len, ref) → h.deliverable len mem = true → h.takenBytes len mem < h.sizeq
  | .setopts _ buf numericHost _ => h.utp = .none → ∀ bin so, decodeBinary buf = .some bin →
      h.sockopts.decodeAndMerge numericHost bin = .ok so →
      so.sndbuf = h.sockopts.sndbuf ∧ so.recbuf = h.sockopts.recbuf
  | _ => True

theorem calls_drained {u : Option UTPSocket} {q : Nat} (hu : q = 0 → u ≠ .none) :
    calls k u (drainedCall u q) = .some u := by
  unfold drainedCall
  split
  · next hq => simp [hu hq]
  · rfl

theorem calls_bufferSets {u : Option UTPSocket} {saved so : SockOpts}
    (hu : u = .none → so.sndbuf = saved.sndbuf ∧ so.recbuf = saved.recbuf) :
    calls k u (bufferSets u saved so) = .some u := by
  rcases u with _ | s
  · obtain ⟨h₁, h₂⟩ := hu rfl
    simp [bufferSets, h₁, h₂]
  · unfold bufferSets
    split <;> split <;> simp

theorem Emission.calls {len : Nat} {receiver : Receiver} {qsize : Nat} {mem : Mem} {sent : Bool} {q : Nat}
    (he : Emission h len receiver qsize mem sent q o h') : h'.utp = h.utp ∧ calls k h.utp o = .some h.utp := by
  cases he with
  | closed => exact ⟨rfl, rfl⟩
  | held => exact ⟨rfl, rfl⟩
  | sent => exact ⟨rfl, calls_of_silent (by simp)⟩

theorem CloseUtp.calls (hc : CloseUtp h o h') : calls k h.utp o = .some h'.utp := by
  cases hc with
  | done hu => simp [hu]
  | skipped => rfl

theorem calls_writes {u : Option UTPSocket} (counts : List Nat) {wq wq' : WriteQueue} {ws : List Effect}
    (hw : writes wq counts = .some (ws, wq')) : calls k u ws = .some u :=
  calls_of_silent (all_writes (fun _ _ => rfl) counts hw)

theorem Flush.calls {w : UtpWrite} (hf : Flush h w o h') (hu : h.utp ≠ .none) :
    h'.utp = h.utp ∧ calls k h.utp o = .some h.utp := by
  cases hf with
  | empty => exact ⟨rfl, rfl⟩
  | wrote _ hws => exact ⟨rfl, by simp [hu, calls_writes _ hws]⟩

theorem Retry.calls (hr : Retry h o h') : h'.utp = h.utp ∧ calls k h.utp o = .some h.utp := by
  cases hr <;> exact ⟨rfl, rfl⟩

theorem calls_of_append {u v u' : Option UTPSocket} {o₁ o₂ : List Effect} (h₁ : calls k u o₁ = .some v)
    (h₂ : calls k v o₂ = .some u') : calls k u (o₁ ++ o₂) = .some u' := by
  rw [calls_append, h₁, Option.bind_some, h₂]

/-- **A step's calls follow the handler's socket.** -/
theorem calls_step {t : Trace} (hs : Step h e o h') (hc : SocketContract t h e) (hg : SparesSocket h e) :
    calls e.incoming h.utp o = .some h'.utp := by
  cases hs with
  | @outputvAccepted p ev w mem s wq n ws wq' _ hu _ _ hws =>
    have hw : calls .none (.some s) [.utp (.some s) (.write n)] = .some (.some s) := by simp
    rw [hu]
    exact calls_of_append (calls_of_append hw (calls_writes _ hws)) rfl
  | recvSent hact hd he =>
    obtain ⟨hu, hcalls⟩ := he.calls
    rw [hu]
    refine calls_of_append (calls_of_append hcalls (calls_drained ?_)) rfl
    intro hq hnone
    cases he with
    | sent hdel hm => exact delivery_leaves hdel hact (hg hnone hact _ _ hd hdel) hm hq
  | recvParked _ _ he =>
    obtain ⟨hu, hcalls⟩ := he.calls
    exact (calls_of_append hcalls rfl).trans (congrArg _ hu.symm)
  | closeOpened _ _ hcl => exact calls_of_append hcl.calls rfl
  | setoptsQuiet hd hm =>
    exact calls_of_append (calls_bufferSets fun hnone => hg hnone _ _ hd hm) rfl
  | setoptsEmit hd hm _ he =>
    obtain ⟨hu, hcalls⟩ := he.calls
    rw [hu]
    exact calls_of_append (calls_of_append hcalls (calls_bufferSets fun hnone => hg hnone _ _ hd hm)) rfl
  | @peernameAnswered p addr s r _ hu =>
    have hw : calls .none (.some s) [.utp (.some s) .getPeerName] = .some (.some s) := by simp
    rw [hu]
    exact calls_of_append hw rfl
  | stopDeleted hcl => exact calls_of_append hcl.calls rfl
  | stopped hcl => exact hcl.calls
  | doReadAnswers _ _ _ he =>
    obtain ⟨hu, hcalls⟩ := he.calls
    exact (calls_of_append hcalls (calls_drained fun _ => hc)).trans (congrArg _ hu.symm)
  | doReadActive _ _ he =>
    obtain ⟨hu, hcalls⟩ := he.calls
    exact (calls_of_append hcalls (calls_drained fun _ => hc)).trans (congrArg _ hu.symm)
  | doWrite hws => exact calls_writes _ hws
  | eof _ hcl => exact hcl.calls
  | writable hf hr =>
    obtain ⟨hu₁, hc₁⟩ := hf.calls hc
    obtain ⟨hu₂, hc₂⟩ := hr.calls
    rw [hu₂, hu₁]
    exact calls_of_append hc₁ (hu₁ ▸ hc₂)
  | writableCloses hf hr _ hcl =>
    obtain ⟨hu₁, hc₁⟩ := hf.calls hc
    obtain ⟨hu₂, hc₂⟩ := hr.calls
    have hc₃ := hcl.calls (k := .none)
    rw [hu₂, hu₁] at hc₃
    exact calls_of_append (calls_of_append hc₁ (hu₁ ▸ hc₂)) hc₃
  | destroyingAnswers => exact calls_of_silent (by split <;> simp [Effect.silent])
  | destroyingNotifies => exact calls_of_silent (by split <;> simp [Effect.silent])
  | destroyingDeletes => exact calls_of_silent (by simp [Effect.silent])
  | destroyingIgnored => exact calls_of_silent (by simp)
  | errorConnecting _ ho =>
    refine calls_of_silent (List.all_eq_true.2 fun x hx => ?_)
    obtain ⟨ref, rfl⟩ := ho x hx
    rfl
  | errorReset _ hcl => exact hcl.calls
  | errorReported => exact calls_of_silent (by split <;> rfl)
  | incomingTaken _ hu => simp [Event.incoming, hu]
  | _ => rfl

/-! ## Runs -/

/-- The runs in which no request is made on the null socket. -/
def SparingGuard : Runs.Guard UtpHandler Event (List Effect) := fun t h e =>
  SocketContract t h e ∧ SparesSocket h e

/-- What every such run keeps. -/
structure SocketsOk (t : Trace) (h : UtpHandler) : Prop where
  live : CallsLive (effects t)
  held : ∀ s, h.utp = .some s → ¬ClosedIn s (effects t)

theorem SocketsOk.step {t : Trace} (hi : SocketsOk t h) (hg : SparingGuard t h e)
    (hm : machine h e = .some (h', o)) : SocketsOk (t ++ [⟨h, e, o⟩]) h' := by
  have hs := machine_step hm
  have hnew : ∀ s, e.incoming = .some s → ¬ClosedIn s (effects t ++ o) := by
    intro s hinc
    cases e with
    | doIncoming s' =>
      obtain rfl := Option.some.inj hinc
      have hold : ¬ClosedIn s' (effects t) := hg.1
      intro hclosed
      obtain ⟨n, hn⟩ := hclosed
      rcases List.mem_append.1 hn with hn | hn
      · exact hold ⟨n, hn⟩
      · cases hs <;> simp at hn
    | _ => cases hinc
  obtain ⟨hlive, hheld⟩ := calls_safe (calls_step hs hg.1 hg.2) hi.live hi.held hnew
  exact ⟨by rwa [effects_snoc], by rwa [effects_snoc]⟩

/-- **No closed socket is used** in any run whose requests spare the null
socket: every call into libutp is made on a socket that is not null and was
not passed to `UTP_Close` before. -/
theorem calls_live {h₀ h : UtpHandler} {t : Trace} (run : Runs.Run machine SparingGuard [] h₀ t h) :
    CallsLive (effects t) := by
  have hstart : SocketsOk [] h₀ := by
    refine ⟨?_, ?_⟩
    · intro es₁ u c es₂ he
      simp at he
    · rintro s - ⟨n, hn⟩
      cases hn
  have hall : SocketsOk t h := run.invariant hstart fun _ _ _ _ _ hi hg hm => hi.step hg hm
  exact hall.live

/-- A read that leaves a byte, then a close. -/
theorem calls_live_close :
    ∃ t h, Runs.Run machine SparingGuard [] (startServer { SockOpts.new with active := .activeFalse } 1) t h ∧
      effects t ≠ [] ∧ CallsLive (effects t) :=
  have run := (((Runs.Run.start machine SparingGuard
      (startServer { SockOpts.new with active := .activeFalse } 1)).next (.doRead [1, 2] fun _ => 0)
      ⟨nofun, trivial⟩ rfl).next (.recv 1 [.version, .tuple 2, .int 1, .binary [9]] fun _ => 0)
      ⟨trivial, nofun⟩ rfl).next (.close 1 [.version, .binary [8]]) ⟨trivial, trivial⟩ rfl
  ⟨_, _, run, nofun, calls_live run⟩

/-- After a close, a `recv` of all that is queued and a `setopts` of a
buffer size call libutp with a null socket. -/
theorem null_socket_calls :
    (∃ t h, Runs.Run machine SocketContract [] (startServer { SockOpts.new with active := .activeFalse } 1) t h ∧
      .utp .none .rbDrained ∈ effects t) ∧
    ∃ t h, Runs.Run machine SocketContract [] (startServer SockOpts.new 1) t h ∧
      .utp .none (.setSockopt .sndbuf 1) ∈ effects t := by
  refine ⟨⟨_, _, (((Runs.Run.start machine SocketContract _).next (.doRead [1] fun _ => 0) (by rintro ⟨⟩) rfl).next
      (.close 1 [.version, .binary [8]]) trivial rfl).next
      (.recv 1 [.version, .tuple 2, .int 0, .binary [9]] fun _ => 0) trivial rfl, by decide⟩, ?_⟩
  exact ⟨_, _, ((Runs.Run.start machine SocketContract _).next (.close 1 [.version, .binary [8]]) trivial rfl).next
      (.setopts 1 [.version, .binary [13, 0, 0, 0, 1]] (fun _ => false) fun _ => 0) trivial rfl, by decide⟩

end UtpHandler

end GenUtp
