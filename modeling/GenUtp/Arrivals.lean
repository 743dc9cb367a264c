/-
What a datagram leaves behind: the server of an accepted port, and what
`input_ready` opened and created.

Two things go wrong, each by a test that means something else. The answer of
`UTP_IsIncomingUTP` says that the packet is uTP, not that it opens a
connection, so an acceptor may be handed a server that `do_incoming` never
saw (`accepted_connected_iff`). `open_udp_socket` returns an `errno`, which
is positive, and `input_ready` looks for a negative number; and where the
packet is not uTP the server is deleted by itself and again with the
`MainHandler` that delegates to it (`accounted_iff`).

`serverOf_eq` says which handler a port starts with: the `startServer` of the
port's own model.
-/
import GenUtp.Listener

namespace GenUtp

open UtpHandler

/-- Every call of `open_udp_socket` succeeds. -/
def OpenCalls.Succeed (c : OpenCalls) : Prop :=
  (∃ fd, c.socket = .ok fd) ∧ c.fcntl = .ok () ∧ c.setsockopt = .ok () ∧ c.bind = .ok ()

/-- Either all calls succeed, and the descriptor is open, or none does. -/
theorem Opening.outcome {c : OpenCalls} {r : Opened} (h : Opening c r) :
    (c.Succeed ∧ ∃ fd, r.sock = .some fd ∧ r.out = [.openFd fd]) ∨ ¬c.Succeed := by
  cases h with
  | @opened fd hs hf ho hb => exact .inl ⟨⟨⟨fd, hs⟩, hf, ho, hb⟩, fd, rfl, rfl⟩
  | closed _ hfail =>
    refine .inr fun hc => ?_
    rcases hfail with hf | ho | hb
    · exact hf hc.2.1
    · exact ho hc.2.2.1
    · exact hb hc.2.2.2
  | failed _ hs =>
    refine .inr fun hc => ?_
    obtain ⟨fd, hfd⟩ := hc.1
    rw [hs] at hfd
    cases hfd

namespace Listener

variable {l l' : Listener} {d : Datagram} {o : List ListenerEffect}

/-! ## The server of an accepted port -/

theorem doErrors_eq : ∀ (es : List Errno) {h : UtpHandler}, h.status = .notConnected →
    ∃ e, es.foldl doError h = { h with errorCode := e }
  | [], h, _ => ⟨h.errorCode, rfl⟩
  | e :: es, h, hs => by
    have hone : h.doError e = { h with errorCode := e } := by
      unfold doError
      simp [hs]
    obtain ⟨e', he⟩ := doErrors_eq es (h := { h with errorCode := e }) hs
    exact ⟨e', by rw [List.foldl_cons, hone, he]⟩

/-- With a new connection, the handler of the new port is a `startServer`, up
to the error of a packet it could not send. -/
theorem serverOf_eq {s : UTPSocket} (hs : d.incoming.socket = .some s) :
    ∃ e, (l.serverOf d).setPort = { startServer l.sockopts s with errorCode := e } := by
  obtain ⟨e, he⟩ := doErrors_eq d.incoming.sendErrors (h := UtpHandler.new .server l.sockopts) rfl
  refine ⟨e, ?_⟩
  simp only [serverOf, IncomingCall.run, hs, he]
  rfl

/-- An acceptor leaves the queue, and is told of a port, only for a server that
`do_incoming` has connected. -/
def AcceptsConnected (l : Listener) (d : Datagram) (o : List ListenerEffect) (l' : Listener) : Prop :=
  (l'.acceptorQueue = l.acceptorQueue ∧ ∀ p ref newPort, .async p ref (.ok newPort) ∉ o) ∨
  ∃ acc server newPort s, l.acceptorQueue = acc :: l'.acceptorQueue ∧
    .createPort acc.caller newPort server ∈ o ∧ .async acc.caller acc.ref (.ok newPort) ∈ o ∧
    d.incoming.socket = .some s ∧ server.utp = .some s ∧ server.status = .connected

theorem not_acceptsConnected {acc : Acceptor} {rest : List Acceptor} (hq : l.acceptorQueue = acc :: rest)
    (ho : ∀ s, d.incoming.socket = .some s → ∀ p ref newPort, .async p ref (.ok newPort) ∉ o) :
    ¬AcceptsConnected l d o { l with acceptorQueue := rest } := by
  rintro (⟨hsame, -⟩ | ⟨acc', server, newPort, s, -, -, hmem, hs, -⟩)
  · have hlen := congrArg List.length (hsame.trans hq)
    simp at hlen
  · exact ho s hs _ _ _ hmem

/-- **An accepted port is connected exactly if** `connect` succeeds and libutp
calls the incoming-connection callback whenever it says the packet is uTP. -/
theorem accepted_connected_iff (hq : l.acceptorQueue ≠ []) (h : l.inputReady d = .some (l', o)) :
    AcceptsConnected l d o l' ↔ d.len ≤ 0 ∨
      connectAnswer d.connect = .some .ok ∧ (d.incoming.isUtp = true → d.incoming.socket ≠ .none) := by
  cases inputReady_incoming h with
  | dropped hdrop =>
    refine iff_of_true (.inl ⟨rfl, fun _ _ _ hmem => by cases hmem⟩) (.inl ?_)
    exact hdrop.resolve_right hq
  | @refused acc rest r e hlen hq hr hc =>
    rw [or_iff_right (by omega)]
    refine iff_of_false (not_acceptsConnected hq fun _ _ _ _ _ => ?_) fun hok => ?_
    · cases hr <;> simp
    · rw [hc] at hok; cases hok.1
  | @handedOver acc rest r hlen hq hr hc hutp =>
    rw [or_iff_right (by omega)]
    cases hs : d.incoming.socket with
    | none =>
      refine iff_of_false (not_acceptsConnected hq fun s hsome => ?_) fun hok => hok.2 hutp rfl
      rw [hs] at hsome; cases hsome
    | some s =>
      obtain ⟨e, he⟩ := serverOf_eq (l := l) hs
      refine iff_of_true (.inr ⟨acc, (l.serverOf d).setPort, d.newPort, s, hq, by simp, by simp, hs, ?_, ?_⟩)
        ⟨hc, fun _ => by simp⟩
      · rw [he]; rfl
      · rw [he]; rfl
  | @discarded acc rest r hlen hq hr hc hutp =>
    refine iff_of_true (.inl ⟨rfl, fun _ _ _ => ?_⟩) (.inr ⟨hc, fun hsome => ?_⟩)
    · cases hr <;> simp [created, deleteServer, deleteMainHandler]
    · rw [hutp] at hsome; cases hsome

theorem accepted_connected_new : ∃ l' o,
    (⟨SockOpts.new, true, [⟨1, [1]⟩, ⟨2, [2]⟩]⟩ : Listener).inputReady (.connecting 7 1 100) = .some (l', o) ∧
      AcceptsConnected ⟨SockOpts.new, true, [⟨1, [1]⟩, ⟨2, [2]⟩]⟩ (.connecting 7 1 100) o l' :=
  ⟨_, _, rfl, (accepted_connected_iff (List.cons_ne_nil _ _) rfl).2 (.inr ⟨rfl, fun _ => Option.some_ne_none 1⟩)⟩

/-- A packet that libutp recognises without a new connection takes the front
acceptor, and its port has no socket; so does a `connect` that fails, without
any port. -/
theorem unconnected_accepted :
    (∃ l' o server, (⟨SockOpts.new, true, [⟨1, [1]⟩]⟩ : Listener).inputReady
        { Datagram.connecting 7 1 100 with incoming := ⟨[], .none, true⟩ } = .some (l', o) ∧
      l'.acceptorQueue = [] ∧ .createPort 1 100 server ∈ o ∧ .async 1 [1] (.ok 100) ∈ o ∧
      server.utp = .none ∧ server.status = .notConnected ∧
      ¬AcceptsConnected ⟨SockOpts.new, true, [⟨1, [1]⟩]⟩
        { Datagram.connecting 7 1 100 with incoming := ⟨[], .none, true⟩ } o l') ∧
    ∃ l' o, (⟨SockOpts.new, true, [⟨1, [1]⟩]⟩ : Listener).inputReady
        { Datagram.connecting 7 1 100 with connect := [.eintr, .failed .einval] } = .some (l', o) ∧
      l'.acceptorQueue = [] ∧ .async 1 [1] (.error .einval) ∈ o ∧
      ¬AcceptsConnected ⟨SockOpts.new, true, [⟨1, [1]⟩]⟩
        { Datagram.connecting 7 1 100 with connect := [.eintr, .failed .einval] } o l' := by
  refine ⟨⟨_, _, (UtpHandler.new .server SockOpts.new).setPort, rfl, rfl, by decide, by decide, rfl, rfl, ?_⟩,
    _, _, rfl, rfl, by decide, ?_⟩
  · exact not_acceptsConnected rfl fun s hs => by cases hs
  · exact not_acceptsConnected rfl fun s _ p ref newPort => by
      simp [openUdpSocket, Datagram.connecting]

/-! ## What was opened and created -/

/-- The descriptor belongs to a server that is not deleted. -/
def Owned (fd : Fd) (o : List ListenerEffect) : Prop := .newServer (.some fd) ∈ o ∧ .deleteServer ∉ o

/-- The new port was given to an acceptor. -/
def HandedOver (o : List ListenerEffect) : Prop := ∃ p newPort server, .createPort p newPort server ∈ o

/-- The descriptors, the server and the `MainHandler` of a datagram are
accounted for exactly once. -/
structure Accounted (l : Listener) (d : Datagram) (o : List ListenerEffect) (l' : Listener) : Prop where
  owned : ∀ fd, .openFd fd ∈ o → Owned fd o → .closeFd (.some fd) ∉ o
  closed : ∀ fd, .openFd fd ∈ o → ¬Owned fd o → o.count (.closeFd (.some fd)) = 1
  once : o.count .deleteServer ≤ 1 ∧ o.count .deleteMainHandler ≤ 1
  deleted : (∃ sock, .newServer sock ∈ o) → ¬HandedOver o →
    o.count .deleteServer = 1 ∧ o.count .deleteMainHandler = 1
  failed : ¬d.opening.Succeed → (∀ sock, .newServer sock ∉ o) ∧ l'.acceptorQueue = l.acceptorQueue

theorem reached_iff {acc : Acceptor} {rest : List Acceptor} {P : Prop} (hlen : 0 < d.len)
    (hq : l.acceptorQueue = acc :: rest) : (d.len ≤ 0 ∨ l.acceptorQueue = [] ∨ P) ↔ P := by
  have hcons : l.acceptorQueue ≠ [] := by simp [hq]
  rw [or_iff_right (by omega), or_iff_right hcons]

/-- **The resources of a datagram are accounted for exactly if** it is dropped
at once, or `open_udp_socket` succeeds and then `connect` fails or the packet
is uTP. -/
theorem accounted_iff (h : l.inputReady d = .some (l', o)) :
    Accounted l d o l' ↔ d.len ≤ 0 ∨ l.acceptorQueue = [] ∨
      d.opening.Succeed ∧ ((∃ e, connectAnswer d.connect = .some (.failed e)) ∨ d.incoming.isUtp = true) := by
  cases inputReady_incoming h with
  | dropped hdrop =>
    refine iff_of_true ⟨?_, ?_, ?_, ?_, ?_⟩ (hdrop.imp_right .inl)
    · intro fd hfd; cases hfd
    · intro fd hfd; cases hfd
    · exact ⟨Nat.zero_le 1, Nat.zero_le 1⟩
    · rintro ⟨sock, hs⟩; cases hs
    · exact fun _ => ⟨fun _ => List.not_mem_nil, rfl⟩
  | @refused acc rest r e hlen hq hr hc =>
    rw [reached_iff hlen hq]
    rcases hr.outcome with ⟨hsucc, fd, hsock, hout⟩ | hfail
    · refine iff_of_true ⟨?_, ?_, ?_, ?_, fun hn => absurd hsucc hn⟩ ⟨hsucc, .inl ⟨e, hc⟩⟩
      · rintro fd' - ⟨hnew, -⟩
        simp [hout] at hnew
      · intro fd' hfd' _
        obtain rfl : fd' = fd := by simpa [hout] using hfd'
        simp [hout, hsock]
      · simp [hout]
      · rintro ⟨sock, hs⟩
        simp [hout] at hs
    · refine iff_of_false (fun ha => ?_) fun hsucc => hfail hsucc.1
      have hsame := congrArg List.length ((ha.failed hfail).2.trans hq)
      simp at hsame
  | @handedOver acc rest r hlen hq hr hc hutp =>
    rw [reached_iff hlen hq]
    rcases hr.outcome with ⟨hsucc, fd, hsock, hout⟩ | hfail
    · refine iff_of_true ⟨?_, ?_, ?_, ?_, fun hn => absurd hsucc hn⟩ ⟨hsucc, .inr hutp⟩
      · intro fd' _ _
        simp [created, hout]
      · intro fd' hfd' hnot
        obtain rfl : fd' = fd := by simpa [created, hout] using hfd'
        exact absurd ⟨by simp [created, hsock], by simp [created, hout]⟩ hnot
      · simp [created, hout]
      · intro _ hnot
        exact absurd ⟨acc.caller, d.newPort, (l.serverOf d).setPort, by simp⟩ hnot
    · refine iff_of_false (fun ha => ?_) fun hsucc => hfail hsucc.1
      exact (ha.failed hfail).1 r.sock (by simp [created])
  | @discarded acc rest r hlen hq hr hc hutp =>
    rw [reached_iff hlen hq]
    refine iff_of_false (fun ha => ?_) ?_
    · have htwice := ha.once.1
      simp [created, deleteServer, deleteMainHandler, List.count_append] at htwice
    · rintro ⟨-, ⟨e, he⟩ | hsome⟩
      · rw [hc] at he; cases he
      · rw [hutp] at hsome; cases hsome

theorem accounted_new : ∃ l' o,
    (⟨SockOpts.new, true, [⟨1, [1]⟩]⟩ : Listener).inputReady (.connecting 7 1 100) = .some (l', o) ∧
      Accounted ⟨SockOpts.new, true, [⟨1, [1]⟩]⟩ (.connecting 7 1 100) o l' :=
  ⟨_, _, rfl, (accounted_iff rfl).2 (.inr (.inr ⟨⟨⟨7, rfl⟩, rfl, rfl, rfl⟩, .inr rfl⟩))⟩

/-- A packet that is not uTP: the server is deleted twice. A `bind` that
fails: the acceptor is answered, and the descriptor is closed twice. -/
theorem deleted_and_closed_twice :
    (∃ l' o, (⟨SockOpts.new, true, [⟨1, [1]⟩]⟩ : Listener).inputReady
        { Datagram.connecting 7 1 100 with incoming := ⟨[], .none, false⟩ } = .some (l', o) ∧
      o.count .deleteServer = 2 ∧ o.count .deleteMainHandler = 1 ∧
      ¬Accounted ⟨SockOpts.new, true, [⟨1, [1]⟩]⟩
        { Datagram.connecting 7 1 100 with incoming := ⟨[], .none, false⟩ } o l') ∧
    ∃ l' o, (⟨SockOpts.new, true, [⟨1, [1]⟩]⟩ : Listener).inputReady
        { Datagram.connecting 7 1 100 with
          opening := ⟨.ok 7, .ok (), .ok (), .error ⟨98, by decide⟩⟩, connect := [.failed (.other 9)] } =
          .some (l', o) ∧
      l'.acceptorQueue = [] ∧ o.count (.closeFd (.some 7)) = 2 ∧
      ¬Accounted ⟨SockOpts.new, true, [⟨1, [1]⟩]⟩
        { Datagram.connecting 7 1 100 with
          opening := ⟨.ok 7, .ok (), .ok (), .error ⟨98, by decide⟩⟩, connect := [.failed (.other 9)] } o l' := by
  refine ⟨⟨_, _, rfl, rfl, rfl, fun ha => ?_⟩, _, _, rfl, rfl, rfl, ?_⟩
  · exact absurd ha.once.1 (by decide)
  · intro ha
    have hfail : ¬OpenCalls.Succeed ⟨.ok 7, .ok (), .ok (), .error ⟨98, by decide⟩⟩ := fun hs => by cases hs.2.2.2
    have hsame := (ha.failed hfail).2
    cases hsame

end Listener

end GenUtp
