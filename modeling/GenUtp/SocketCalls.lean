/-
What libutp is told of the buffers of a socket.

Its own buffer sizes are kept twice: in the options, and in the socket by
UTP_SO_SNDBUF and UTP_SO_RCVBUF. `set_utp_callbacks` passes the defaults, not
the options, and `setopts` passes what it changes; so the two agree all along
exactly when each socket is taken up with the default sizes (`sizes_in_effect`).

The space left in the driver queue it computes from `do_get_rb_size`, and
`UTP_RBDrained` tells it to look again. Of the three operations that can drain
the queue `do_read` and `recv` call it, `setopts` does not (`drained_told`).
-/
import GenUtp.Getopts

namespace GenUtp

open UtpHandler

/-! ## Buffer sizes -/

/-- The value a `UTP_SetSockopt` gives the option `opt` of the socket `s`. -/
def Effect.sockopt (s : UTPSocket) (opt : SockBuf) : Effect → Option Int
  | .utp (.some s') (.setSockopt opt' val) => if s' = s ∧ opt' = opt then .some val else .none
  | _ => .none

/-- The value last passed. -/
def lastSockopt (s : UTPSocket) (opt : SockBuf) (es : List Effect) : Option Int :=
  (es.filterMap (Effect.sockopt s opt)).getLast?

/-- The sizes in the options are those of the socket. -/
def InEffect (es : List Effect) (h : UtpHandler) : Prop :=
  ∀ s, h.utp = .some s → lastSockopt s .sndbuf es = .some h.sockopts.sndbuf ∧
    lastSockopt s .rcvbuf es = .some h.sockopts.recbuf

def SockOpts.DefaultSizes (so : SockOpts) : Prop := so.sndbuf = utpSndbufDefault ∧ so.recbuf = utpRecbufDefault

/-- The event gives the handler a socket. -/
def TakesSocket (h : UtpHandler) (e : Event) : Prop := h.kind = .server ∧ h.utp = .none ∧ ∃ s, e = .doIncoming s

/-- Anything but a `UTP_SetSockopt`. -/
def Effect.keepsSizes : Effect → Bool
  | .utp _ (.setSockopt _ _) => false
  | _ => true

variable {s : UTPSocket} {opt : SockBuf} {es o o₁ o₂ : List Effect}

theorem lastSockopt_append : lastSockopt s opt (es ++ o) = (lastSockopt s opt o).or (lastSockopt s opt es) := by
  rw [lastSockopt, List.filterMap_append, List.getLast?_append]
  rfl

theorem lastSockopt_keeps (ho : o.all Effect.keepsSizes = true) : lastSockopt s opt o = .none := by
  have hnil : o.filterMap (Effect.sockopt s opt) = [] := by
    refine List.filterMap_eq_nil_iff.2 fun x hx => ?_
    have hk := List.all_eq_true.1 ho x hx
    unfold Effect.sockopt
    split
    · cases hk
    · rfl
  rw [lastSockopt, hnil]
  rfl

/-- What `setopts` passes is what it changed. -/
theorem lastSockopt_bufferSets (saved so : SockOpts) :
    lastSockopt s .sndbuf (bufferSets (.some s) saved so) =
        (if saved.sndbuf = so.sndbuf then .none else .some so.sndbuf) ∧
      lastSockopt s .rcvbuf (bufferSets (.some s) saved so) =
        (if saved.recbuf = so.recbuf then .none else .some so.recbuf) := by
  unfold bufferSets
  by_cases hs : saved.sndbuf = so.sndbuf <;> by_cases hr : saved.recbuf = so.recbuf <;>
    simp [lastSockopt, Effect.sockopt, hs, hr]

/-- What `set_utp_callbacks` passes are the defaults. -/
theorem lastSockopt_callbacks (es : List Effect) :
    lastSockopt s .sndbuf (es ++ [.utp (.some s) .setCallbacks, .utp (.some s) (.setSockopt .sndbuf utpSndbufDefault),
        .utp (.some s) (.setSockopt .rcvbuf utpRecbufDefault)]) = .some utpSndbufDefault ∧
      lastSockopt s .rcvbuf (es ++ [.utp (.some s) .setCallbacks, .utp (.some s) (.setSockopt .sndbuf utpSndbufDefault),
        .utp (.some s) (.setSockopt .rcvbuf utpRecbufDefault)]) = .some utpRecbufDefault := by
  rw [lastSockopt_append, lastSockopt_append]
  simp [lastSockopt, Effect.sockopt]

theorem inEffect_iff {h : UtpHandler} (hu : h.utp = .some s) (hs : lastSockopt s .sndbuf es = .some utpSndbufDefault)
    (hr : lastSockopt s .rcvbuf es = .some utpRecbufDefault) : InEffect es h ↔ h.sockopts.DefaultSizes := by
  constructor
  · intro hin
    obtain ⟨hs', hr'⟩ := hin s hu
    exact ⟨Option.some.inj (hs'.symm.trans hs), Option.some.inj (hr'.symm.trans hr)⟩
  · intro hboth s' hs'
    obtain ⟨hsnd, hrec⟩ := hboth
    obtain rfl := Option.some.inj (hu.symm.trans hs')
    exact ⟨hs.trans (by rw [hsnd]), hr.trans (by rw [hrec])⟩

namespace UtpHandler

variable {h h' : UtpHandler} {e : Event}

/-! ## What a step passes -/

theorem Emission.sizes {len qsize : Nat} {receiver : Receiver} {mem : Mem} {sent : Bool} {q : Nat}
    (he : Emission h len receiver qsize mem sent q o h') : h'.utp = h.utp ∧ h'.sockopts.sndbuf = h.sockopts.sndbuf ∧
      h'.sockopts.recbuf = h.sockopts.recbuf ∧ o.all Effect.keepsSizes = true := by
  cases he with
  | closed | held => exact ⟨rfl, rfl, rfl, rfl⟩
  | sent =>
    refine ⟨rfl, by simp [delivered], by simp [delivered], ?_⟩
    exact all_dataMessages _ _ _ fun m => by cases receiver <;> rfl

theorem CloseUtp.sizes (hc : CloseUtp h o h') :
    (h'.utp = h.utp ∨ h'.utp = .none) ∧ h'.sockopts = h.sockopts ∧ o.all Effect.keepsSizes = true := by
  cases hc with
  | done => exact ⟨.inr rfl, rfl, rfl⟩
  | skipped => exact ⟨.inl rfl, rfl, rfl⟩

theorem Flush.sizes {w : UtpWrite} (hf : Flush h w o h') :
    h'.utp = h.utp ∧ h'.sockopts = h.sockopts ∧ o.all Effect.keepsSizes = true := by
  have hall : o.all Effect.keepsSizes = true := all_flush hf (fun _ => rfl) fun _ _ => rfl
  cases hf <;> exact ⟨rfl, rfl, hall⟩

theorem Retry.sizes (hr : Retry h o h') :
    h'.utp = h.utp ∧ h'.sockopts = h.sockopts ∧ o.all Effect.keepsSizes = true := by
  cases hr <;> exact ⟨rfl, rfl, rfl⟩

/-- What a step does to the sizes: nothing, or it sets some, or it takes up a
socket. -/
inductive SizeCase (h : UtpHandler) (e : Event) (o : List Effect) (h' : UtpHandler) : Prop
  | kept : ¬TakesSocket h e → (h'.utp = h.utp ∨ h'.utp = .none) → h'.sockopts.sndbuf = h.sockopts.sndbuf →
      h'.sockopts.recbuf = h.sockopts.recbuf → o.all Effect.keepsSizes = true → SizeCase h e o h'
  | set {so before after} : ¬TakesSocket h e → h'.utp = h.utp → h'.sockopts.sndbuf = so.sndbuf →
      h'.sockopts.recbuf = so.recbuf → o = before ++ bufferSets h.utp h.sockopts so ++ after →
      before.all Effect.keepsSizes = true → after.all Effect.keepsSizes = true → SizeCase h e o h'
  | taken {u} : TakesSocket h e → h'.utp = .some u → h'.sockopts = h.sockopts →
      o = [.utp (.some u) .setCallbacks, .utp (.some u) (.setSockopt .sndbuf utpSndbufDefault),
        .utp (.some u) (.setSockopt .rcvbuf utpRecbufDefault)] → SizeCase h e o h'

theorem not_takes (he : e.incoming = .none) : ¬TakesSocket h e := by
  intro htakes
  obtain ⟨-, -, s, rfl⟩ := htakes
  cases he

theorem SizeCase.of_eq (he : e.incoming = .none) (hu : h'.utp = h.utp ∨ h'.utp = .none) (hso : h'.sockopts = h.sockopts)
    (ho : o.all Effect.keepsSizes = true) : SizeCase h e o h' :=
  .kept (not_takes he) hu (by rw [hso]) (by rw [hso]) ho

theorem size_case (hs : Step h e o h') : SizeCase h e o h' := by
  cases hs with
  | incomingTaken hk hu => exact .taken ⟨hk, hu, _, rfl⟩ rfl rfl rfl
  | @setoptsQuiet _ _ _ _ _ so =>
    have hout : bufferSets h.utp h.sockopts so ++ [Effect.reply .ok] =
        [] ++ bufferSets h.utp h.sockopts so ++ [.reply .ok] := rfl
    exact .set (not_takes rfl) rfl rfl rfl hout rfl rfl
  | setoptsEmit _ _ _ he =>
    obtain ⟨hu, hsnd, hrec, ho⟩ := he.sizes
    exact .set (not_takes rfl) hu hsnd hrec rfl ho rfl
  | recvSent _ _ he =>
    obtain ⟨hu, hsnd, hrec, ho⟩ := he.sizes
    exact .kept (not_takes rfl) (.inl hu) hsnd hrec
      (by rw [List.all_append, List.all_append, ho, all_drainedCall _ _ rfl]; rfl)
  | recvParked _ _ he =>
    obtain ⟨hu, hsnd, hrec, ho⟩ := he.sizes
    exact .kept (not_takes rfl) (.inl hu) hsnd hrec (by rw [List.all_append, ho]; rfl)
  | doReadAnswers _ _ _ he | doReadActive _ _ he =>
    obtain ⟨hu, hsnd, hrec, ho⟩ := he.sizes
    exact .kept (not_takes rfl) (.inl hu) hsnd hrec (by rw [List.all_append, ho, all_drainedCall _ _ rfl]; rfl)
  | closeOpened _ _ hc =>
    obtain ⟨hu, hso, ho⟩ := hc.sizes
    exact .of_eq rfl hu hso (by rw [List.all_append, ho]; rfl)
  | stopDeleted hc =>
    obtain ⟨hu, hso, ho⟩ := hc.sizes
    exact .of_eq rfl hu hso (by rw [List.all_append, ho]; rfl)
  | stopped hc | eof _ hc | errorReset _ hc =>
    obtain ⟨hu, hso, ho⟩ := hc.sizes
    exact .of_eq rfl hu hso ho
  | doWrite hws =>
    exact .of_eq rfl (.inl rfl) rfl (all_writes (fun _ _ => rfl) _ hws)
  | outputvAccepted _ _ _ _ hws =>
    have hall := all_writes (P := Effect.keepsSizes) (fun _ _ => rfl) _ hws
    exact .of_eq rfl (.inl rfl) rfl (by simp [hall, Effect.keepsSizes])
  | writable hf hr =>
    obtain ⟨hu₁, hso₁, ho₁⟩ := hf.sizes
    obtain ⟨hu₂, hso₂, ho₂⟩ := hr.sizes
    exact .of_eq rfl (.inl (hu₂.trans hu₁)) (hso₂.trans hso₁) (by simp [ho₁, ho₂])
  | writableCloses hf hr _ hc =>
    obtain ⟨hu₁, hso₁, ho₁⟩ := hf.sizes
    obtain ⟨hu₂, hso₂, ho₂⟩ := hr.sizes
    obtain ⟨hu₃, hso₃, ho₃⟩ := hc.sizes
    exact .of_eq rfl (hu₃.imp_left fun hu => hu.trans (hu₂.trans hu₁))
      (hso₃.trans (hso₂.trans hso₁)) (by simp [ho₁, ho₂, ho₃])
  | destroyingAnswers | destroyingNotifies =>
    refine .of_eq rfl (.inl rfl) rfl ?_
    rw [List.all_append, all_deselect h (P := Effect.keepsSizes) rfl]
    split <;> rfl
  | destroyingDeletes => exact .of_eq rfl (.inl rfl) rfl (by rw [List.all_append, all_deselect h rfl]; rfl)
  | destroyingIgnored => exact .of_eq rfl (.inl rfl) rfl (all_deselect h rfl)
  | errorConnecting _ ho =>
    refine .of_eq rfl (.inl rfl) rfl (List.all_eq_true.2 fun x hx => ?_)
    obtain ⟨ref, rfl⟩ := ho x hx
    rfl
  | errorReported => exact .of_eq rfl (.inl rfl) rfl (by split <;> rfl)
  | incomingIgnored hi =>
    refine .kept ?_ (.inl rfl) rfl rfl rfl
    intro htakes
    obtain ⟨hk, hu, -⟩ := htakes
    rcases hi with hk' | hu'
    · rw [hk] at hk'
      cases hk'
    · exact hu' hu
  | _ => exact .of_eq rfl (.inl rfl) rfl rfl

/-! ## Over a run -/

/-- **A step keeps the sizes in effect, unless it takes up a socket with
others than the defaults.** -/
theorem inEffect_step (hi : InEffect es h) (hs : Step h e o h') :
    InEffect (es ++ o) h' ↔ (TakesSocket h e → h.sockopts.DefaultSizes) := by
  cases size_case hs with
  | kept hn hu hsnd hrec ho =>
    refine iff_of_true ?_ fun ht => absurd ht hn
    intro s hs'
    have hold : h.utp = .some s := by
      rcases hu with hu | hu
      · rw [← hu, hs']
      · rw [hs'] at hu
        cases hu
    rw [lastSockopt_append, lastSockopt_append, lastSockopt_keeps ho, lastSockopt_keeps ho, hsnd, hrec]
    exact hi s hold
  | @set so _ _ hn hu hsnd hrec ho hbefore hafter =>
    refine iff_of_true ?_ fun ht => absurd ht hn
    intro s hs'
    obtain ⟨hs₁, hr₁⟩ := hi s (hu.symm.trans hs')
    obtain ⟨hs₂, hr₂⟩ := lastSockopt_bufferSets (s := s) h.sockopts so
    rw [ho, hu.symm.trans hs']
    simp only [lastSockopt_append, lastSockopt_keeps hbefore, lastSockopt_keeps hafter, hs₁, hr₁, hs₂, hr₂, hsnd, hrec]
    constructor
    · split <;> simp_all
    · split <;> simp_all
  | @taken s ht hu hso ho =>
    have hdef := lastSockopt_callbacks (s := s) es
    rw [← ho] at hdef
    rw [inEffect_iff hu hdef.1 hdef.2, hso]
    exact ⟨fun hd _ => hd, fun himp => himp ht⟩

theorem inEffect_start {h₀ : UtpHandler} (hs : Started h₀) : InEffect h₀.out h₀ ↔ h₀.sockopts.DefaultSizes := by
  cases hs with
  | client so s =>
    refine inEffect_iff (s := s) rfl ?_ ?_ <;>
      simp [startClient, connectTo, setPort, setUtpCallbacks, emit, new, lastSockopt, Effect.sockopt,
        List.findSome?]
  | server so s =>
    refine inEffect_iff (s := s) rfl ?_ ?_ <;>
      simp [startServer, doIncoming, setPort, setUtpCallbacks, emit, new, lastSockopt, Effect.sockopt,
        List.findSome?]

/-- **The sizes in the options are those of the socket all along exactly when
every socket is taken up with the default ones**: at the start, and whenever
a connection comes. -/
theorem sizes_in_effect {h₀ : UtpHandler} {t : Trace} (hs : Started h₀)
    (run : Runs.Run machine (fun _ _ _ => True) [] h₀ t h) :
    (InEffect h₀.out h₀ ∧ Runs.Each (Runs.After machine fun t h => InEffect (h₀.out ++ effects t) h) t) ↔
      h₀.sockopts.DefaultSizes ∧
        Runs.Each (fun _ x => TakesSocket x.pre x.event → x.pre.sockopts.DefaultSizes) t := by
  rw [inEffect_start hs]
  refine and_congr_right fun hdef => ?_
  refine Runs.Run.each_iff (I := fun _ _ => True) trivial ?_ ?_ run
  · rw [effects_nil, List.append_nil]
    exact (inEffect_start hs).2 hdef
  · intro t h e h' o _ hi _ hm
    refine ⟨trivial, ?_⟩
    rw [effects_snoc, ← List.append_assoc]
    exact inEffect_step hi (machine_step hm)

/-- A server with the default sizes, whose send buffer is then set. -/
theorem sizes_in_effect_setopts : ∃ t h, Runs.Run machine (fun _ _ _ => True) [] (startServer .new 1) t h ∧
    h.sockopts.sndbuf = 256 ∧
    ((InEffect (startServer .new 1).out (startServer .new 1) ∧
        Runs.Each (Runs.After machine fun t h => InEffect ((startServer .new 1).out ++ effects t) h) t) ↔
      (startServer .new 1).sockopts.DefaultSizes ∧
        Runs.Each (fun _ x => TakesSocket x.pre x.event → x.pre.sockopts.DefaultSizes) t) :=
  have run := (Runs.Run.start machine (fun _ _ _ => True) (startServer .new 1)).next
    (.setopts 7 [.version, .binary [13, 0, 0, 1, 0]] (fun _ => false) fun _ => 0) trivial rfl
  ⟨_, _, run, by decide, sizes_in_effect (.server _ _) run⟩

/-- A client is connected with a send buffer of 32768 bytes: its socket has
been given 16384. -/
theorem connect_ignores_sndbuf : ∃ so, so.sndbuf = 32768 ∧ Started (startClient so 1) ∧
    (startClient so 1).utp = .some 1 ∧ lastSockopt 1 .sndbuf (startClient so 1).out = .some 16384 ∧
    ¬InEffect (startClient so 1).out (startClient so 1) := by
  refine ⟨{ SockOpts.new with sndbuf := 32768 }, rfl, .client _ _, rfl, rfl, ?_⟩
  rw [inEffect_start (.client _ _)]
  intro hboth
  obtain ⟨hsnd, -⟩ := hboth
  revert hsnd
  decide

/-! ## The receive window -/

/-- The operation delivers the last of what is queued, the chunk it brings
included, on a connected handler. -/
structure Drains (x : Runs.Entry UtpHandler Event (List Effect)) : Prop where
  connected : x.pre.status = .connected ∧ x.pre.utp ≠ .none
  queued : x.pre.queue.flatten ++ x.event.chunk ≠ []
  delivers : payloads x.out ≠ []
  drained : ∀ h', machine x.pre x.event = .some (h', x.out) → h'.sizeq = 0

theorem Emission.qsize_eq {len qsize : Nat} {receiver : Receiver} {mem : Mem} {sent : Bool} {q : Nat}
    (he : Emission h len receiver qsize mem sent q o h') (hp : payloads o ≠ []) : q = h'.sizeq := by
  cases he with
  | closed | held => exact absurd rfl hp
  | sent => rfl

theorem payloads_of_parked {len qsize : Nat} {receiver : Receiver} {mem : Mem} {q : Nat}
    (he : Emission h len receiver qsize mem false q o h') : payloads o = [] := by
  cases he <;> rfl

theorem not_drained_setopts {len qsize : Nat} {receiver : Receiver} {mem : Mem} {sent : Bool} {q : Nat}
    (he : Emission h len receiver qsize mem sent q o h') (u v : Option UTPSocket) (saved so : SockOpts) :
    .utp u .rbDrained ∉ o ++ bufferSets v saved so ++ [.reply .ok] := by
  have ho : o.all (fun x => x ≠ .utp u .rbDrained) = true := by
    cases he with
    | closed | held => rfl
    | sent => exact all_dataMessages _ _ _ fun m => by cases receiver <;> rfl
  have hset : (bufferSets v saved so).all (fun x => x ≠ .utp u .rbDrained) = true :=
    all_bufferSets v saved so fun _ _ => by simp
  intro hmem
  simp only [List.all_eq_true, decide_eq_true_eq] at ho hset
  rcases List.mem_append.1 hmem with hmem | hmem
  · rcases List.mem_append.1 hmem with hmem | hmem
    · exact ho _ hmem rfl
    · exact hset _ hmem rfl
  · cases List.mem_singleton.1 hmem

theorem told_step (hs : Step h e o h') (hp : payloads o ≠ []) (h0 : h'.sizeq = 0) :
    .utp h.utp .rbDrained ∈ o ↔ e.isSetopts = false := by
  cases hcall : h.emissionOf e with
  | none =>
    cases read_case hs with
    | aside _ _ _ ho | setOnly _ _ _ _ _ _ _ ho | stopped _ _ _ _ ho => exact absurd ho hp
    | queued _ _ _ _ _ ho => exact absurd (congrArg payloads ho) hp
    | emitted hcall' =>
      rw [hcall] at hcall'
      cases hcall'
  | some call =>
    cases hs with
    | recvSent _ _ he =>
      have hreply : payloads [Effect.reply .wait] = [] := rfl
      have hq := he.qsize_eq (by simpa [hreply] using hp)
      refine iff_of_true ?_ rfl
      simp [drainedCall, hq.trans h0]
    | doReadAnswers _ _ _ he | doReadActive _ _ he =>
      have hq := he.qsize_eq (by simpa using hp)
      refine iff_of_true ?_ rfl
      simp [drainedCall, hq.trans h0]
    | setoptsEmit _ _ _ he => exact iff_of_false (not_drained_setopts he _ _ _ _) (by simp [Event.isSetopts])
    | recvParked _ _ he =>
      rw [payloads_append, payloads_of_parked he] at hp
      exact absurd rfl hp
    | setoptsQuiet =>
      rw [payloads_append, payloads_bufferSets] at hp
      exact absurd rfl hp
    | recvBadarg | setoptsBadarg | doReadNothing | doReadQueued | doReadShort => exact absurd rfl hp
    | _ => cases hcall

/-- **An operation that delivers the last of the driver queue calls
`UTP_RBDrained` before it completes exactly when it is no `setopts`.** -/
theorem drained_told {h₀ : UtpHandler} {t : Trace} (run : Runs.Run machine (fun _ _ _ => True) [] h₀ t h) :
    ∀ x ∈ t, Drains x → (.utp x.pre.utp .rbDrained ∈ x.out ↔ x.event.isSetopts = false) := by
  intro x hx hd
  rcases run.entry hx with hnil | ⟨_, h', -, hm⟩
  · cases hnil
  · exact told_step (machine_step hm) hd.delivers (hd.drained h' hm)

/-- A chunk for an active socket. -/
theorem drained_told_active : ∃ t h, Runs.Run machine (fun _ _ _ => True) [] (startServer .new 1) t h ∧
    (∃ x ∈ t, Drains x) ∧
    ∀ x ∈ t, Drains x → (.utp x.pre.utp .rbDrained ∈ x.out ↔ x.event.isSetopts = false) :=
  have run := (Runs.Run.start machine (fun _ _ _ => True) (startServer .new 1)).next
    (.doRead [1, 2] fun _ => 0) trivial rfl
  ⟨_, _, run, ⟨_, List.mem_singleton.2 rfl, ⟨⟨rfl, by decide⟩, by decide, by decide, by rintro _ ⟨⟩; rfl⟩⟩,
    drained_told run⟩

/-- Two bytes kept for a passive socket go out when `active` is set to true,
and libutp is not told. -/
theorem setopts_drains_silently : ∃ t h, Runs.Run machine (fun _ _ _ => True) []
    (startServer { SockOpts.new with active := .activeFalse } 1) t h ∧
    ∃ x ∈ t, Drains x ∧ .utp x.pre.utp .rbDrained ∉ x.out :=
  have run := ((Runs.Run.start machine (fun _ _ _ => True)
      (startServer { SockOpts.new with active := .activeFalse } 1)).next (.doRead [1, 2] fun _ => 0) trivial rfl).next
    (.setopts 7 [.version, .binary [10, 2]] (fun _ => false) fun _ => 0) trivial rfl
  ⟨_, _, run, _, List.mem_append_right _ (List.mem_singleton.2 rfl),
    ⟨⟨rfl, by decide⟩, by decide, by decide, by rintro _ ⟨⟩; rfl⟩, by decide⟩

end UtpHandler

end GenUtp
