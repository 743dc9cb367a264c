/-
The receive stream in packet mode: the messages delivered are the payloads of
the frames read, one for one and in order.

`emit_read_buffer` takes one frame at a time, and reads its length off the
first segment of the driver queue. Where that segment holds the length, the
frames are not empty and no 32-bit sum wraps, a call delivers the payload of
the frame at the head of the queue or nothing (`Emission.frame`), whoever it
delivers to and whatever length a `recv` asks for. With a prefix of one byte
the first segment always holds it, since no segment of the queue is empty.

The chunk list loses only the payloads, so it never runs out.
-/
import GenUtp.FrameHeader

namespace GenUtp

open Frames Segments

/-- What the data messages of a run hold. -/
def messageData (t : Trace) : List (Option (List UInt8)) := t.flatMap fun x => (payloads x.out).map Payload.data

/-- Payloads that a prefix of `p` bytes and 32-bit sums can take, no shorter
than a header of `d`. -/
def Framable (p d : Nat) (xs : List (List UInt8)) : Prop :=
  ∀ x ∈ xs, x ≠ [] ∧ d ≤ x.length ∧ x.length < 256 ^ p ∧ p + x.length < 2 ^ 32

namespace UtpHandler

variable {h h' g g' : UtpHandler} {e : Event} {o : List Effect} {t : Trace} {p d : Nat} {xs : List (List UInt8)}

/-- A reader with a prefix of `p` bytes, before `stop`: `setopts` keeps the
prefix, and the header within `d`. A prefix of more than one byte lies in the
first segment whenever it is looked at. -/
def FrameGuard (p d : Nat) : Runs.Guard UtpHandler Event (List Effect) := fun _ h e =>
  (match e with
    | .stop => False
    | .setopts _ buf numericHost _ => ∀ bin so, decodeBinary buf = .some bin →
        h.sockopts.decodeAndMerge numericHost bin = .ok so → so.packet = p ∧ so.header ≤ d
    | _ => True) ∧
  (p ≠ 1 → ∀ g len mem, h.emissionOf e = .some (g, len, mem) → p ≤ g.sizeq → p ≤ (g.queue.headD []).length)

/-- What such a reader keeps. -/
structure FrameOk (p d : Nat) (h : UtpHandler) : Prop where
  packet : h.sockopts.packet = p
  header : h.sockopts.header ≤ d
  filled : Filled h.queue
  counted : h.sizeq ≤ h.readCount.sum

/-! ## One call -/

theorem FrameOk.received (hi : FrameOk p d h) {bytes : List UInt8} (hb : bytes ≠ []) :
    FrameOk p d (h.received bytes) := by
  refine ⟨hi.packet, hi.header, hi.filled.append hb, ?_⟩
  have hcounted := hi.counted
  simp only [sizeq] at hcounted
  simp only [sizeq, UtpHandler.received, size_append, List.sum_append]
  simpa [size] using hcounted

theorem FrameOk.call {len : Nat} {mem : Mem} (hi : FrameOk p d h) (hg : FrameGuard p d t h e)
    (hc : h.emissionOf e = .some (g, len, mem)) :
    FrameOk p d g ∧ g.queue.flatten = h.queue.flatten ++ e.chunk := by
  rcases emissionOf_cases hc with ⟨rfl, hchunk⟩ | ⟨_, _, _, _, bin, so, rfl, hd, hm, rfl⟩ | ⟨rfl, hchunk⟩
  · exact ⟨hi, by rw [hchunk, List.append_nil]⟩
  · obtain ⟨hpacket, hheader⟩ := hg.1 bin so hd hm
    exact ⟨⟨hpacket, hheader, hi.filled, hi.counted⟩, (List.append_nil _).symm⟩
  · exact ⟨hi.received hchunk, by simp [UtpHandler.received]⟩

theorem FrameOk.whole {len : Nat} {mem : Mem} (hi : FrameOk p d g) (hg : FrameGuard p d t h e)
    (hc : h.emissionOf e = .some (g, len, mem)) (hle : p ≤ g.sizeq) : p ≤ (g.queue.headD []).length := by
  by_cases h1 : p = 1
  · have hpos := hi.filled.head_pos (show size g.queue ≠ 0 by simp only [sizeq] at hle; omega)
    omega
  · exact hg.2 h1 g len mem hc hle

/-- What is deliverable is the frame at the head of the stream. -/
theorem FrameOk.head {len : Nat} {mem : Mem} (hp : p ∈ [1, 2, 4]) (hi : FrameOk p d h)
    (hw : p ≤ h.sizeq → p ≤ (h.queue.headD []).length) (hx : Framable p d xs)
    (hs : h.queue.flatten <+: xs.flatMap (frame p)) (hd : h.deliverable len mem = true) :
    ∃ x rest ys, xs = x :: ys ∧ h.queue.flatten = frame p x ++ rest ∧ rest <+: ys.flatMap (frame p) ∧
      h.announced mem = x.length := by
  have hsetting : PacketSetting h.sockopts.packet := by
    rw [hi.packet, PacketSetting]
    simp at hp
    omega
  simp only [deliverable, decide_eq_true_eq, hi.packet] at hd
  obtain ⟨h0, -, hle, hframe⟩ := hd
  cases xs with
  | nil =>
    have hnil : h.queue.flatten = [] := List.prefix_nil.1 hs
    exact absurd (size_eq_zero.2 hnil) h0
  | cons x ys =>
    obtain ⟨⟨hne, -, hfits, hsum⟩, -⟩ := List.forall_mem_cons.1 hx
    rw [List.flatMap_cons] at hs
    have hann : h.announced mem = x.length := by
      rw [announced_eq hsetting (by rw [hi.packet]; exact hw hle), hi.packet]
      exact headLen_of_prefix hfits hs hle
    have hpos : 0 < x.length := List.length_pos_iff.2 hne
    rw [hann, Nat.mod_eq_of_lt hsum] at hframe
    obtain ⟨rest, hq, hrest⟩ := eq_frame_append_of_prefix hs (show p + x.length ≤ h.queue.flatten.length by
      simp only [sizeq, size] at hframe
      omega)
    exact ⟨x, rest, ys, rfl, hq, hrest, hann⟩

/-- A call of `emit_read_buffer` delivers the payload of the frame at the head
of the queue, or nothing. -/
theorem Emission.frame {len : Nat} {receiver : Receiver} {qsize : Nat} {mem : Mem} {sent : Bool} {q : Nat}
    (he : Emission h len receiver qsize mem sent q o h') (hp : p ∈ [1, 2, 4]) (hi : FrameOk p d h)
    (hw : p ≤ h.sizeq → p ≤ (h.queue.headD []).length) (hx : Framable p d xs)
    (hs : h.queue.flatten <+: xs.flatMap (frame p)) :
    FrameOk p d h' ∧ ∃ got ys, xs = got ++ ys ∧ (payloads o).map Payload.data = got.map .some ∧
      got.flatMap (Frames.frame p) ++ h'.queue.flatten = h.queue.flatten := by
  cases he with
  | closed => exact ⟨⟨hi.packet, hi.header, hi.filled, hi.counted⟩, [], xs, rfl, rfl, rfl⟩
  | held => exact ⟨hi, [], xs, rfl, rfl, rfl⟩
  | @sent ms queue rc hd hm =>
    obtain ⟨x, rest, ys, rfl, hq, -, hann⟩ := hi.head hp hw hx hs hd
    obtain ⟨⟨hne, hheader, hfits, hsum⟩, -⟩ := List.forall_mem_cons.1 hx
    have hsize : h.sizeq = p + x.length + rest.length := by
      simp [sizeq, size, hq, Frames.frame, Nat.add_assoc]
    have hdrop : h.queue.flatten.drop h.sockopts.packet = x ++ rest := by
      rw [hq, hi.packet, Frames.frame, List.append_assoc, List.drop_left' (length_beBytes _ _)]
    have hle : h.sockopts.packet ≤ h.sizeq := by
      rw [hi.packet]
      omega
    rw [delivery_frame_eq hann (List.length_pos_iff.2 hne) hle hdrop] at hm
    obtain ⟨rc', hrc, heq⟩ := Option.map_eq_some_iff.1 hm
    cases heq
    have hcounted := hi.counted
    obtain ⟨rc', hrc', hrcsum, -⟩ := reduceReadCount_eq h.readCount (Nat.zero_le x.length) (by omega)
    obtain rfl : rc' = rc := Option.some.inj (hrc'.symm.trans hrc)
    have hflat := flatten_deqPrefix hle hdrop
    have hleft : (deqSegs x.length (deqSegs h.sockopts.packet h.queue)).flatten = rest := by
      rw [flatten_deqSegs, if_neg (by simp [size, hflat]), hflat, List.drop_left]
    refine ⟨⟨by simp [delivered, hi.packet], by simp [delivered, hi.header], ?_, ?_⟩, [x], ys, rfl, ?_, ?_⟩
    · exact (hi.filled.deqSegs _).deqSegs _
    · simp only [sizeq, delivered, size, hleft]
      omega
    · have hfull : ∀ mode, (⟨x, x.length, h.sockopts.header, mode⟩ : Payload).data = .some x := by
        intro mode
        rw [Payload.data_full rfl (show x.length < 2 ^ 32 by omega), if_pos (hi.header.trans hheader)]
      rw [payloads_dataMessages]
      cases receiver <;> simp [packetPayload, hfull]
    · show [x].flatMap (Frames.frame p) ++ (deqSegs x.length (deqSegs h.sockopts.packet h.queue)).flatten = _
      rw [hleft, hq]
      simp

/-- Such a call is defined: the chunk list does not run out. -/
theorem FrameOk.isSome {len : Nat} {mem : Mem} (hp : p ∈ [1, 2, 4]) (hi : FrameOk p d h)
    (hw : p ≤ h.sizeq → p ≤ (h.queue.headD []).length) (hx : Framable p d xs)
    (hs : h.queue.flatten <+: xs.flatMap (frame p)) (x : List Effect) (receiver : Receiver) (qsize : Nat) :
    ({ h with out := x }.emitReadBuffer len receiver qsize mem).isSome = true := by
  rw [emitReadBuffer_eq]
  split
  · rfl
  split
  · next hd =>
    have hd : h.deliverable len mem = true := hd
    obtain ⟨x, rest, ys, rfl, hq, -, hann⟩ := hi.head hp hw hx hs hd
    obtain ⟨⟨hne, -⟩, -⟩ := List.forall_mem_cons.1 hx
    have hsize : h.sizeq = p + x.length + rest.length := by
      simp [sizeq, size, hq, Frames.frame, Nat.add_assoc]
    have hdrop : h.queue.flatten.drop h.sockopts.packet = x ++ rest := by
      rw [hq, hi.packet, Frames.frame, List.append_assoc, List.drop_left' (length_beBytes _ _)]
    have hcounted := hi.counted
    obtain ⟨rc, hrc, -⟩ := reduceReadCount_eq h.readCount (Nat.zero_le x.length) (by omega)
    have hdel : h.delivery len mem = _ :=
      delivery_frame_eq hann (List.length_pos_iff.2 hne) (by rw [hi.packet]; omega) hdrop
    rw [hrc] at hdel
    rw [Option.isSome_map]
    exact Option.isSome_iff_exists.2 ⟨_, hdel⟩
  · rfl

/-! ## One step -/

theorem FrameOk.of_eq (hi : FrameOk p d h) (hq : h'.queue = h.queue) (hr : h'.readCount = h.readCount)
    (hso : h'.sockopts = h.sockopts) : FrameOk p d h' :=
  ⟨by rw [hso, hi.packet], by rw [hso]; exact hi.header, by rw [hq]; exact hi.filled,
    by rw [sizeq, hq, hr]; exact hi.counted⟩

/-- **A step delivers the payload of the next frame, or nothing.** -/
theorem frame_step (hs : Step h e o h') (hp : p ∈ [1, 2, 4]) (hi : FrameOk p d h) (hg : FrameGuard p d t h e)
    (hx : Framable p d xs) (hpre : h.queue.flatten ++ e.chunk <+: xs.flatMap (frame p)) :
    FrameOk p d h' ∧ ∃ got ys, xs = got ++ ys ∧ (payloads o).map Payload.data = got.map .some ∧
      got.flatMap (frame p) ++ h'.queue.flatten = h.queue.flatten ++ e.chunk := by
  cases read_case hs with
  | aside hq hr hso ho hc =>
    exact ⟨hi.of_eq hq hr hso, [], xs, rfl, by rw [ho]; rfl, by rw [hq, hc, List.append_nil]; rfl⟩
  | setOnly he hd hm _ hq hr hso ho =>
    subst he
    obtain ⟨hpacket, hheader⟩ := hg.1 _ _ hd hm
    have hset : FrameOk p d h' :=
      ⟨by rw [hso, hpacket], by rw [hso]; exact hheader, by rw [hq]; exact hi.filled,
        by rw [sizeq, hq, hr]; exact hi.counted⟩
    exact ⟨hset, [], xs, rfl, by rw [ho]; rfl, by rw [hq]; exact (List.append_nil _).symm⟩
  | @queued bytes mem he hb hact _ hh ho =>
    subst he hh ho
    exact ⟨hi.received hb, [], xs, rfl, rfl, by simp [received, Event.chunk]⟩
  | @emitted g g' len receiver qsize mem sent q o₁ o₂ hcall hem ho ho₂ hq hr hso =>
    obtain ⟨hok, hbytes⟩ := hi.call hg hcall
    obtain ⟨hok', got, ys, hxs, hgot, hleft⟩ :=
      hem.frame hp hok (hok.whole hg hcall) hx (by rw [hbytes]; exact hpre)
    refine ⟨hok'.of_eq hq hr hso, got, ys, hxs, ?_, ?_⟩
    · rw [ho, payloads_append, ho₂, List.append_nil, hgot]
    · rw [hq, hleft, hbytes]
  | stopped he =>
    subst he
    exact hg.1.elim

/-! ## Runs -/

/-- What a run has read, as frames: those delivered, and what is left. -/
structure FramesRead (p d : Nat) (xs : List (List UInt8)) (t : Trace) (h : UtpHandler) : Prop where
  ok : FrameOk p d h
  stream : ∃ got ys, xs = got ++ ys ∧ messageData t = got.map .some ∧
    got.flatMap (frame p) ++ h.queue.flatten = chunksRead t

/-- A handler that has read nothing, with a prefix of `p` bytes. -/
structure FrameStart (p d : Nat) (h : UtpHandler) : Prop where
  queue : h.queue = []
  packet : h.sockopts.packet = p
  header : h.sockopts.header ≤ d

theorem FrameStart.read (hs : FrameStart p d h) : FramesRead p d xs [] h :=
  ⟨⟨hs.packet, hs.header, by rw [hs.queue]; simp [Filled], by rw [sizeq, hs.queue]; exact Nat.zero_le _⟩,
    [], xs, rfl, rfl, by rw [hs.queue]; rfl⟩

/-- **The messages are the payloads of the frames read**, in every run whose
stream is one of frames, as far as it has come. -/
theorem frames_read {h₀ : UtpHandler} (hp : p ∈ [1, 2, 4]) (h₀frame : FrameStart p d h₀) (hx : Framable p d xs)
    (run : Runs.Run machine (FrameGuard p d) [] h₀ t h) (hs : chunksRead t <+: xs.flatMap (frame p)) :
    FramesRead p d xs t h := by
  refine run.invariant (I := fun t h => chunksRead t <+: xs.flatMap (frame p) → FramesRead p d xs t h)
    (fun _ => h₀frame.read) ?_ hs
  intro t h e h' o hi hg hm hpre
  have hsnoc : chunksRead (t ++ [⟨h, e, o⟩]) = chunksRead t ++ e.chunk := by simp [chunksRead]
  rw [hsnoc] at hpre
  obtain ⟨hok, got, ys, rfl, hgot, hstream⟩ := hi ((List.prefix_append _ _).trans hpre)
  have hahead : h.queue.flatten ++ e.chunk <+: ys.flatMap (frame p) := by
    rw [← hstream, List.append_assoc, List.flatMap_append] at hpre
    exact (List.prefix_append_right_inj _).1 hpre
  have hys : Framable p d ys := fun x hmem => hx x (by simp [hmem])
  obtain ⟨hok', got', ys', rfl, hgot', hstep⟩ := frame_step (machine_step hm) hp hok hg hys hahead
  refine ⟨hok', got ++ got', ys', by rw [List.append_assoc], ?_, ?_⟩
  · simp [messageData] at hgot ⊢
    rw [hgot, hgot']
  · rw [hsnoc, List.flatMap_append, List.append_assoc, hstep, ← List.append_assoc, hstream]

theorem FramesRead.defined (hp : p ∈ [1, 2, 4]) (hi : FramesRead p d xs t h) (hx : Framable p d xs)
    (hg : FrameGuard p d t h e) (hs : chunksRead t ++ e.chunk <+: xs.flatMap (frame p)) (he : Reads h e) :
    (machine h e).isSome = true := by
  obtain ⟨hok, got, ys, rfl, -, hstream⟩ := hi
  have hys : Framable p d ys := fun x hmem => hx x (by simp [hmem])
  have hahead : h.queue.flatten ++ e.chunk <+: ys.flatMap (frame p) := by
    rw [← hstream, List.append_assoc, List.flatMap_append] at hs
    exact (List.prefix_append_right_inj _).1 hs
  refine reads_isSome (fun g len mem hcall x receiver qsize => ?_) he
  obtain ⟨hokg, hbytes⟩ := hok.call hg hcall
  exact hokg.isSome hp (hokg.whole hg hcall) hys (by rw [hbytes]; exact hahead) x receiver qsize

end UtpHandler

end GenUtp
