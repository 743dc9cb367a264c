/-
Two handlers and the connection between them: what one end sends is what the
other end delivers.

A `Connection` is a handler at each end and the bytes under way from each.
Every event is an event of one end: what its `do_write` hands over goes on
the wire, and its `do_read` takes the next bytes off the wire of its peer, in
chunks of any size. That the wire keeps the bytes and their order is all that
is assumed of libutp and the network; the processes at the two ends and the
callbacks come in any order. Each direction is stated by itself (`Flow`).

With no length prefix at the reader the bytes arrive (`stream_arrives`), with
the same prefix at both ends the messages do (`messages_arrive`). A send of
no bytes sends no message.

All of it is before an EOF at the sender, which throws its write queue away,
and before the port of the reader is closed. No empty entry of an `iovec`
brings a binary, and libutp takes no more than it is offered (`SendGuard`).
The reader has fewer than 2³² bytes queued (`RawGuard`). Messages fit their
prefix, and the prefix lies in one segment (`MessageGuard`, `FrameGuard`).
-/
import GenUtp.CloseHandshake
import GenUtp.Lib.Network
import GenUtp.FrameStream
import GenUtp.Teardown

namespace GenUtp

open Frames

/-- The two ends, and the bytes under way from each. -/
abbrev Connection := Runs.Net Bool UtpHandler (Bool → List UInt8)

abbrev ConnectionTrace := Runs.Trace Connection (Bool × Event) (List Effect)

/-- The payloads of the sends answered `ok`, but the empty ones. -/
def sentMessages (t : Trace) : List (List UInt8) := (UtpHandler.accepted t).filter fun x => x ≠ []

namespace UtpHandler

variable {h h' : UtpHandler} {e : Event} {o : List Effect} {t : Trace} {p d : Nat}

/-- Sends under a prefix of `p` bytes: a payload the handler takes is empty
or fits it, and is no shorter than `d`. -/
def MessageGuard (p d : Nat) : Runs.Guard UtpHandler Event (List Effect) := fun t h e =>
  SendGuard t h e ∧ ∀ q ev w mem, e = .outputv q ev w mem → h.sockopts.packet = p ∧
    (h.takes → ev.payload ≠ [] → Framable p d [ev.payload])

theorem sent_message (hp : p ∈ [1, 2, 4]) (hg : MessageGuard p d t h e) (hm : machine h e = .some (h', o)) :
    ∃ xs, sentMessages [⟨h, e, o⟩] = xs ∧ sentBytes h e o = xs.flatMap (frame p) ∧ Framable p d xs := by
  refine ⟨_, rfl, ?_⟩
  cases e with
  | outputv q ev w mem =>
    obtain ⟨hpacket, hfits⟩ := hg.2 q ev w mem rfl
    have hprefix : p ∈ [0, 1, 2, 4] := List.mem_cons_of_mem 0 hp
    by_cases hok : answersOk q o = true
    · by_cases hne : ev.payload = []
      · simp [sentMessages, accepted, sentBytes, hok, hne, framed, Framable]
      · have hframe : framed h.sockopts.packet mem ev.payload = frame p ev.payload := by
          rw [framed, if_neg hne, headerBytes, hpacket, if_pos hprefix, frame]
        have hthis : sentMessages [⟨h, .outputv q ev w mem, o⟩] = [ev.payload] := by
          simp [sentMessages, accepted, hok, hne]
        rw [hthis]
        exact ⟨by simp [sentBytes, hok, hframe], hfits ((answersOk_iff hm).1 hok) hne⟩
    · simp [sentMessages, accepted, sentBytes, hok, Framable]
  | _ => simp [sentMessages, accepted, sentBytes, Framable]

/-- The stream of a run is the frames of the messages it has sent. -/
theorem sent_frames {h₀ : UtpHandler} (hp : p ∈ [1, 2, 4]) (run : Runs.Run machine (MessageGuard p d) [] h₀ t h) :
    sentStream t = (sentMessages t).flatMap (frame p) ∧ Framable p d (sentMessages t) := by
  refine run.invariant (I := fun t _ => sentStream t = (sentMessages t).flatMap (frame p) ∧
    Framable p d (sentMessages t)) ⟨rfl, by simp [sentMessages, accepted, Framable]⟩ ?_
  intro t h e h' o hi hg hm
  obtain ⟨xs, hxs, hbytes, hfits⟩ := sent_message hp hg hm
  have hsnoc : sentMessages (t ++ [⟨h, e, o⟩]) = sentMessages t ++ xs := by
    rw [← hxs]
    simp [sentMessages, accepted]
  rw [hsnoc, List.flatMap_append, ← hi.1, ← hbytes]
  refine ⟨by simp [sentStream], fun x hx => ?_⟩
  exact (List.mem_append.1 hx).elim (hi.2 x) (hfits x)

end UtpHandler

/-! ## A close that is acknowledged -/

/-- Not the answer to a close. -/
def Effect.unacked : Effect → Bool
  | .send _ (.refOk _) => false
  | _ => true

namespace UtpHandler

variable {h h' : UtpHandler} {e : Event} {o : List Effect} {t : Trace}

theorem CloseUtp.unacked (hc : CloseUtp h o h') : o.all Effect.unacked = true := by
  cases hc <;> rfl

theorem Emission.unacked {len : Nat} {receiver : Receiver} {qsize : Nat} {mem : Mem} {sent : Bool} {q : Nat}
    (he : Emission h len receiver qsize mem sent q o h') : o.all Effect.unacked = true := by
  cases he with
  | closed => rfl
  | held => rfl
  | sent => exact all_dataMessages _ _ _ fun _ => by cases receiver <;> rfl

theorem Retry.unacked (hr : Retry h o h') : o.all Effect.unacked = true := by
  cases hr <;> rfl

/-- Only DESTROYING answers a close. -/
theorem unacked_step (hs : Step h e o h') (he : e.isDestroying = false) : o.all Effect.unacked = true := by
  have hws : ∀ {counts wq wq' ws}, writes wq counts = .some (ws, wq') → ws.all Effect.unacked = true :=
    fun hw => all_writes (fun _ _ => rfl) _ hw
  have hdrained : ∀ utp q, (drainedCall utp q).all Effect.unacked = true := fun utp q => all_drainedCall utp q rfl
  have hbuf : ∀ utp so so', (bufferSets utp so so').all Effect.unacked = true :=
    fun utp so so' => all_bufferSets utp so so' fun _ _ => rfl
  cases hs with
  | outputvAccepted _ _ _ _ hw => simp [Effect.unacked, hws hw]
  | recvSent _ _ hem => simp [Effect.unacked, hem.unacked, hdrained]
  | recvParked _ _ hem => simp [Effect.unacked, hem.unacked]
  | closeOpened _ _ hcl => simp [Effect.unacked, hcl.unacked]
  | setoptsQuiet => simp [Effect.unacked, hbuf]
  | setoptsEmit _ _ _ hem => simp [Effect.unacked, hem.unacked, hbuf]
  | stopDeleted hcl => simp [Effect.unacked, hcl.unacked]
  | stopped hcl => exact hcl.unacked
  | doReadAnswers _ _ _ hem => simp [hem.unacked, hdrained]
  | doReadActive _ _ hem => simp [hem.unacked, hdrained]
  | doWrite hw => exact hws hw
  | eof _ hcl => exact hcl.unacked
  | writable hf hr =>
    have hflush := all_flush (P := Effect.unacked) hf (fun _ => rfl) fun _ _ => rfl
    simp [hflush, hr.unacked]
  | writableCloses hf hr _ hcl =>
    have hflush := all_flush (P := Effect.unacked) hf (fun _ => rfl) fun _ _ => rfl
    simp [hflush, hr.unacked, hcl.unacked]
  | destroyingAnswers | destroyingNotifies | destroyingDeletes | destroyingIgnored => cases he
  | errorConnecting _ ho =>
    refine List.all_eq_true.2 fun x hx => ?_
    obtain ⟨ref, rfl⟩ := ho x hx
    rfl
  | errorReset _ hcl => exact hcl.unacked
  | errorReported => split <;> rfl
  | _ => rfl

/-- A process has been told that its close is done. -/
def Acked (t : Trace) : Prop := ∃ p ref, ack p ref ∈ effects t

/-- The sends of a socket that is closed in the end: DESTROYING comes for a
socket that was given up, and no new connection is taken after it. -/
def ClosingGuard : Runs.Guard UtpHandler Event (List Effect) := fun t h e =>
  SendGuard t h e ∧ (e.isDestroying = true → h.utp = .none) ∧ TakesNone h e

/-- An acknowledged handler has no socket, and never will have. -/
theorem acked_gone {h₀ : UtpHandler} (run : Runs.Run machine ClosingGuard [] h₀ t h) (ha : Acked t) :
    h.utp = .none := by
  refine run.invariant (I := fun t h => Acked t → h.utp = .none) ?_ ?_ ha
  · intro ha
    obtain ⟨p, ref, hmem⟩ := ha
    cases hmem
  · intro t h e h' o hi hg hm ha
    have hgone : h.utp = .none := by
      obtain ⟨p, ref, hmem⟩ := ha
      rw [effects_snoc] at hmem
      rcases List.mem_append.1 hmem with hmem | hmem
      · exact hi ⟨p, ref, hmem⟩
      · by_contra hu
        have hno : e.isDestroying = false := Bool.eq_false_iff.2 fun hd => hu (hg.2.1 hd)
        cases List.all_eq_true.1 (unacked_step (machine_step hm) hno) _ hmem
    rcases gone_step (machine_step hm) hgone with hn | ⟨hk, -, s, rfl⟩
    · exact hn
    · rcases hg.2.2 s rfl with hcl | hne
      · rw [hk] at hcl
        cases hcl
      · exact absurd hgone hne

end UtpHandler

namespace Connection

open UtpHandler

/-- One event at one end. -/
def machine : Runs.Machine Connection (Bool × Event) (List Effect) :=
  Runs.Net.machine UtpHandler.machine (Runs.wires not Event.chunk fun o => o.flatMap Effect.handed)

/-- The way from `b` to its peer: `S` says what may happen at `b`, and `R` at
the peer, which reads what comes next. -/
def Flow (S R : Runs.Guard UtpHandler Event (List Effect)) (b : Bool) :
    Runs.Guard Connection (Bool × Event) (List Effect) := fun t s x =>
  (x.1 = b → S (Runs.stepsOf b t) (s.node b) x.2) ∧
    (x.1 = !b → R (Runs.stepsOf (!b) t) (s.node (!b)) x.2 ∧ x.2.chunk <+: s.medium b)

section Flow

variable {S R : Runs.Guard UtpHandler Event (List Effect)} {b : Bool} {s : Connection} {t : ConnectionTrace} {e : Event}

theorem Flow.near (h : S (Runs.stepsOf b t) (s.node b) e) : Flow S R b t s (b, e) := by
  refine ⟨fun _ => h, fun hc => ?_⟩
  cases b <;> cases hc

theorem Flow.far (h : R (Runs.stepsOf (!b) t) (s.node (!b)) e) (hc : e.chunk <+: s.medium b) :
    Flow S R b t s (!b, e) := by
  refine ⟨fun hc => ?_, fun _ => ⟨h, hc⟩⟩
  cases b <;> cases hc

end Flow

/-- Nothing is under way from `b` yet. -/
structure Unused (b : Bool) (s : Connection) : Prop where
  writeQueue : (s.node b).writeQueue = .new
  wire : s.medium b = []

variable {S R : Runs.Guard UtpHandler Event (List Effect)} {b : Bool} {s₀ s : Connection} {t : ConnectionTrace}

theorem sender_run (run : Runs.Run machine (Flow S R b) [] s₀ t s) :
    Runs.Run UtpHandler.machine S [] (s₀.node b) (Runs.stepsOf b t) (s.node b) :=
  run.node fun _ _ _ hg => hg.1 rfl

theorem reader_run (run : Runs.Run machine (Flow S R b) [] s₀ t s) :
    Runs.Run UtpHandler.machine R [] (s₀.node (!b)) (Runs.stepsOf (!b) t) (s.node (!b)) :=
  run.node fun _ _ _ hg => (hg.2 rfl).1

/-- What was read and what is under way are what was handed over. -/
theorem under_way (hu : Unused b s₀) (run : Runs.Run machine (Flow S R b) [] s₀ t s) :
    chunksRead (Runs.stepsOf (!b) t) ++ s.medium b = handed (Runs.stepsOf b t) := by
  refine run.wire Bool.involutive_not ?_ hu.wire fun t s e hg => (hg.2 rfl).2
  cases b <;> decide

theorem machine_isSome {x : Bool × Event} (h : (UtpHandler.machine (s.node x.1) x.2).isSome = true) :
    (machine s x).isSome = true := by
  rw [machine, Runs.Net.machine, Option.isSome_map]
  exact h

/-! ## Bytes -/

/-- The bytes delivered at one end. -/
def deliveredAt (b : Bool) (t : ConnectionTrace) : List UInt8 :=
  (Runs.stepsOf b t).flatMap fun x => deliveredBytes x.out

/-- **The bytes sent arrive, in order and once each**: in every interleaving
of the two ends, before an EOF at the sender and the end of the reader's port,
what the peer has delivered, its driver queue, the wire and the write queue
are the frames of the sends answered `ok`. When the sender has closed, the
wire is empty and the peer is active, all of it has been delivered. No send
and no read of the way is undefined. -/
theorem stream_arrives (hu : Unused b s₀) (hr : RawStart (s₀.node (!b)))
    (run : Runs.Run machine (Flow SendGuard RawGuard b) [] s₀ t s) :
    deliveredAt (!b) t ++ (s.node (!b)).queue.flatten ++ s.medium b ++ (s.node b).writeQueue.bytes =
        sentStream (Runs.stepsOf b t) ∧
      (∀ x ∈ Runs.stepsOf (!b) t, ∀ p ∈ payloads x.out, p.data = .some p.buf) ∧
      ((s.node b).utp = .none → s.medium b = [] → (s.node (!b)).sockopts.active ≠ .activeFalse →
        deliveredAt (!b) t = sentStream (Runs.stepsOf b t)) ∧
      ∀ x, Flow SendGuard RawGuard b t s x → x.1 = b ∧ Event.sends x.2 = true ∨ x.1 = (!b) ∧ Reads (s.node (!b)) x.2 →
        (machine s x).isSome = true := by
  have hsend := conserved hu.writeQueue (sender_run run)
  have hread := raw_accounts hr (reader_run run)
  have hwire := under_way hu run
  have hall : deliveredAt (!b) t ++ (s.node (!b)).queue.flatten ++ s.medium b ++ (s.node b).writeQueue.bytes =
      sentStream (Runs.stepsOf b t) := by
    rw [← hsend.bytes, ← hwire, ← hread.accounts.bytes]
    rfl
  refine ⟨hall, hread.whole, ?_, ?_⟩
  · intro hclosed hempty hactive
    have hqueue : (s.node (!b)).queue.flatten = [] := Segments.size_eq_zero.1 (hread.ok.idle hactive)
    have hwrite : (s.node b).writeQueue.bytes = [] := hsend.send.ok.bytes_eq_nil.2 (hsend.send.live hclosed)
    simpa [hqueue, hempty, hwrite] using hall
  · intro x hg hx
    obtain ⟨i, e⟩ := x
    rcases hx with ⟨rfl, he⟩ | ⟨rfl, he⟩
    · exact machine_isSome (hsend.send.defined he (hg.1 rfl))
    · exact machine_isSome (reads_defined hread.accounts.agree (hread.ok.plain (hg.2 rfl).1) he)

/-- A client that has started and a server that has taken its connection. -/
def opened (client server : SockOpts) : Connection :=
  ⟨fun b => if b then startClient client 1 else startServer server 2, fun _ => []⟩

/-- Three bytes, of which one is read and one is still under way. -/
theorem stream_arrives_part : ∃ t s,
    Runs.Run machine (Flow SendGuard RawGuard true) []
      (opened SockOpts.new { SockOpts.new with active := .activeFalse }) t s ∧
    deliveredAt false t = [7] ∧ (s.node false).queue = [[8]] ∧ s.medium true = [9] ∧
    (deliveredAt false t ++ (s.node false).queue.flatten ++ s.medium true ++ (s.node true).writeQueue.bytes =
        sentStream (Runs.stepsOf true t) ∧
      (∀ x ∈ Runs.stepsOf false t, ∀ p ∈ payloads x.out, p.data = .some p.buf) ∧
      ((s.node true).utp = .none → s.medium true = [] → (s.node false).sockopts.active ≠ .activeFalse →
        deliveredAt false t = sentStream (Runs.stepsOf true t)) ∧
      ∀ x, Flow SendGuard RawGuard true t s x → x.1 = true ∧ Event.sends x.2 = true ∨ x.1 = false ∧
        Reads (s.node false) x.2 → (machine s x).isSome = true) := by
  have run := ((((Runs.Run.start machine (Flow SendGuard RawGuard true) (opened SockOpts.new
      { SockOpts.new with active := .activeFalse })).next (true, .stateChange .connect .nothing)
      (.near (by simp [SendGuard])) rfl).next
      (true, .outputv 1 ⟨3, [⟨[7, 8, 9], .none⟩]⟩ .whole fun _ => 0)
      (.near ⟨⟨rfl, by simp⟩, UtpWrite.whole_lawful⟩) rfl).next
      (false, .doRead [7, 8] fun _ => 0) (.far (b := true) ⟨by simp, by decide⟩ ⟨[9], rfl⟩) rfl).next
      (false, .recv 2 [.version, .tuple 2, .int 1, .binary [5]] fun _ => 0) (.far (b := true) trivial ⟨[9], rfl⟩) rfl
  refine ⟨_, _, run, rfl, rfl, rfl, ?_⟩
  exact stream_arrives (b := true) ⟨rfl, rfl⟩ ⟨rfl, rfl, ⟨rfl, rfl, fun _ hb => by cases hb⟩⟩ run

/-- **A close that is acknowledged has sent everything, if no EOF came before
it**: in every interleaving where a process at `b` has been told that its close
is done, all its end has accepted was handed over, no further send is taken,
and once the wire is empty an active peer has delivered all of it. An EOF
drops what the close waits for, and the close is acknowledged all the same. -/
theorem acknowledged_in_full (hu : Unused b s₀) (hr : RawStart (s₀.node (!b)))
    (run : Runs.Run machine (Flow ClosingGuard RawGuard b) [] s₀ t s) (ha : Acked (Runs.stepsOf b t)) :
    handed (Runs.stepsOf b t) = sentStream (Runs.stepsOf b t) ∧ ¬(s.node b).takes ∧
      (s.medium b = [] → (s.node (!b)).sockopts.active ≠ .activeFalse →
        deliveredAt (!b) t = sentStream (Runs.stepsOf b t)) := by
  have hgone := acked_gone (sender_run run) ha
  have hflow : Runs.Run machine (Flow SendGuard RawGuard b) [] s₀ t s :=
    run.mono fun _ _ _ hg => ⟨fun hb => (hg.1 hb).1, hg.2⟩
  have hsend := conserved hu.writeQueue (sender_run hflow)
  have hread := raw_accounts hr (reader_run hflow)
  have hempty : (s.node b).writeQueue.bytes = [] := hsend.send.ok.bytes_eq_nil.2 (hsend.send.live hgone)
  have hhanded : handed (Runs.stepsOf b t) = sentStream (Runs.stepsOf b t) := by
    rw [← hsend.bytes, hempty, List.append_nil]
  refine ⟨hhanded, fun htakes => htakes.2.1 hgone, fun hwire hactive => ?_⟩
  have hqueue : (s.node (!b)).queue.flatten = [] := Segments.size_eq_zero.1 (hread.ok.idle hactive)
  have hbytes := hread.accounts.bytes
  rw [hqueue, List.append_nil] at hbytes
  have hall := under_way hu hflow
  rw [hwire, List.append_nil, ← hbytes] at hall
  rw [← hhanded, ← hall]
  rfl

/-- One byte, a close, its acknowledgement, and the byte is read. -/
theorem acknowledged_in_full_one : ∃ t s,
    Runs.Run machine (Flow ClosingGuard RawGuard true) [] (opened SockOpts.new SockOpts.new) t s ∧
    sentStream (Runs.stepsOf true t) = [7] ∧ s.medium true = [] ∧
    (handed (Runs.stepsOf true t) = sentStream (Runs.stepsOf true t) ∧ ¬(s.node true).takes ∧
      (s.medium true = [] → (s.node false).sockopts.active ≠ .activeFalse →
        deliveredAt false t = sentStream (Runs.stepsOf true t))) := by
  have hnone : ∀ {h : UtpHandler} {e : Event}, (∀ s, e ≠ .doIncoming s) → TakesNone h e :=
    fun hne s he => absurd he (hne s)
  have run := (((((Runs.Run.start machine (Flow ClosingGuard RawGuard true) (opened SockOpts.new SockOpts.new)).next
      (true, .stateChange .connect .nothing)
      (.near ⟨by simp [SendGuard], by simp [Event.isDestroying], hnone (by simp)⟩) rfl).next
      (true, .outputv 1 ⟨1, [⟨[7], .none⟩]⟩ .whole fun _ => 0)
      (.near ⟨⟨⟨rfl, by simp⟩, UtpWrite.whole_lawful⟩, by simp [Event.isDestroying], hnone (by simp)⟩) rfl).next
      (true, .close 1 [.version, .binary [5]])
      (.near ⟨trivial, by simp [Event.isDestroying], hnone (by simp)⟩) rfl).next
      (true, .stateChange .destroying .nothing) (.near ⟨trivial, fun _ => rfl, hnone (by simp)⟩) rfl).next
      (false, .doRead [7] fun _ => 0) (.far (b := true) ⟨by simp, by decide⟩ ⟨[], rfl⟩) rfl
  refine ⟨_, _, run, rfl, rfl, ?_⟩
  refine acknowledged_in_full (b := true) ⟨rfl, rfl⟩ ⟨rfl, rfl, ⟨rfl, rfl, fun _ hb => by cases hb⟩⟩ run ?_
  exact ⟨1, [5], by decide⟩

/-! ## Messages -/

/-- **The messages sent arrive, whole, in order and once each**: with the same
length prefix at both ends, in every interleaving in which messages fit the
prefix and the header and no prefix is cut by the end of a segment, the
messages the peer has delivered are the first of those sent, and the frames of
the others are its driver queue, the wire and the write queue. No send and no
read of the way is undefined. -/
theorem messages_arrive {p d : Nat} (hp : p ∈ [1, 2, 4]) (hu : Unused b s₀) (hr : FrameStart p d (s₀.node (!b)))
    (run : Runs.Run machine (Flow (MessageGuard p d) (FrameGuard p d) b) [] s₀ t s) :
    (∃ rest : List (List UInt8),
      messageData (Runs.stepsOf (!b) t) ++ rest.map .some = (sentMessages (Runs.stepsOf b t)).map .some ∧
        rest.flatMap (frame p) = (s.node (!b)).queue.flatten ++ s.medium b ++ (s.node b).writeQueue.bytes) ∧
      ∀ x, Flow (MessageGuard p d) (FrameGuard p d) b t s x →
        x.1 = b ∧ Event.sends x.2 = true ∨ x.1 = (!b) ∧ Reads (s.node (!b)) x.2 → (machine s x).isSome = true := by
  have hsend := conserved hu.writeQueue ((sender_run run).mono fun _ _ _ hg => hg.1)
  obtain ⟨hframes, hfits⟩ := sent_frames hp (sender_run run)
  have hwire := under_way hu run
  have hbytes : chunksRead (Runs.stepsOf (!b) t) ++ (s.medium b ++ (s.node b).writeQueue.bytes) =
      (sentMessages (Runs.stepsOf b t)).flatMap (frame p) := by
    rw [← List.append_assoc, hwire, hsend.bytes, hframes]
  have hread := frames_read hp hr hfits (reader_run run) ⟨_, hbytes⟩
  refine ⟨?_, ?_⟩
  · obtain ⟨got, rest, hxs, hgot, hstream⟩ := hread.stream
    refine ⟨rest, by rw [hgot, hxs, List.map_append], ?_⟩
    rw [← hstream, hxs, List.flatMap_append, List.append_assoc] at hbytes
    rw [List.append_assoc]
    exact (List.append_cancel_left hbytes).symm
  · intro x hg hx
    obtain ⟨i, e⟩ := x
    rcases hx with ⟨rfl, he⟩ | ⟨rfl, he⟩
    · exact machine_isSome (hsend.send.defined he (hg.1 rfl).1)
    · obtain ⟨hguard, rest, hchunk⟩ := hg.2 rfl
      refine machine_isSome (hread.defined hp hfits hguard ?_ he)
      refine ⟨rest ++ (s.node b).writeQueue.bytes, ?_⟩
      rw [← hbytes, ← hchunk]
      simp

/-- Two messages under a prefix of two bytes: one is delivered, and of the
other the prefix has come. -/
theorem messages_arrive_one : ∃ t s,
    Runs.Run machine (Flow (MessageGuard 2 0) (FrameGuard 2 0) true) []
      (opened { SockOpts.new with packet := 2 } { SockOpts.new with packet := 2 }) t s ∧
    messageData (Runs.stepsOf false t) = [.some [7, 8]] ∧ sentMessages (Runs.stepsOf true t) = [[7, 8], [9]] ∧
    ((∃ rest : List (List UInt8),
        messageData (Runs.stepsOf false t) ++ rest.map .some = (sentMessages (Runs.stepsOf true t)).map .some ∧
        rest.flatMap (frame 2) = (s.node false).queue.flatten ++ s.medium true ++ (s.node true).writeQueue.bytes) ∧
      ∀ x, Flow (MessageGuard 2 0) (FrameGuard 2 0) true t s x →
        x.1 = true ∧ Event.sends x.2 = true ∨ x.1 = false ∧ Reads (s.node false) x.2 →
          (machine s x).isSome = true) := by
  have hsend : ∀ {t : Trace} {h : UtpHandler} {x : List UInt8}, h.sockopts.packet = 2 → Framable 2 0 [x] →
      MessageGuard 2 0 t h (.outputv 1 ⟨x.length, [⟨x, .none⟩]⟩ .whole fun _ => 0) := by
    intro t h x hp hx
    refine ⟨⟨⟨by simp [ErlIOVec.payload], by simp⟩, UtpWrite.whole_lawful⟩, ?_⟩
    intro q ev w mem he
    cases he
    exact ⟨hp, fun _ _ => by simpa [ErlIOVec.payload] using hx⟩
  have hread : ∀ {t : Trace} {h : UtpHandler}, h.sockopts.active = .activeTrue → h.queue = [] →
      FrameGuard 2 0 t h (.doRead [0, 2, 7, 8, 0, 1] fun _ => 0) := by
    intro t h ha hq
    refine ⟨trivial, fun _ g len mem hc _ => ?_⟩
    rw [emissionOf_active (by simp) (by simp [ha])] at hc
    cases hc
    simp [received, hq]
  have run := ((((Runs.Run.start machine (Flow (MessageGuard 2 0) (FrameGuard 2 0) true)
      (opened { SockOpts.new with packet := 2 } { SockOpts.new with packet := 2 })).next
      (true, .stateChange .connect .nothing) (.near ⟨by simp [SendGuard], by simp⟩) rfl).next
      (true, .outputv 1 ⟨2, [⟨[7, 8], .none⟩]⟩ .whole fun _ => 0)
      (.near (hsend (x := [7, 8]) rfl (by simp [Framable]))) rfl).next
      (true, .outputv 1 ⟨1, [⟨[9], .none⟩]⟩ .whole fun _ => 0)
      (.near (hsend (x := [9]) rfl (by simp [Framable]))) rfl).next
      (false, .doRead [0, 2, 7, 8, 0, 1] fun _ => 0) (.far (b := true) (hread rfl rfl) ⟨[9], rfl⟩) rfl
  exact ⟨_, _, run, by decide, rfl, messages_arrive (b := true) (by simp) ⟨rfl, rfl⟩ ⟨rfl, rfl, Nat.le_refl _⟩ run⟩

end Connection

end GenUtp
