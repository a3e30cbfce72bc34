/-
  LanTalk.Network.ProtocolProofs — the frame codec and the incremental reader's
  properties (see `LanTalk.Network.Protocol`).

  Proved:
  - `feed_cut_independent`: what a run of feeds returns, throws and leaves depends on
    the bytes alone, not on how TCP cut them.
  - `feed_ends`: how many turns of its loop a call takes at most.
  - `reader_bounded`: a reader never retains a whole header or a whole payload, nor hands
    out a frame over the limit.
  - `wire_round_trip`: the frames built by one side come out of the other side's reader,
    whole and in order, however their bytes were cut.
-/

import LanTalk.Network.Protocol

namespace LanTalk.Network

open LanTalk.Lib LanTalk.Lib.Reader

/-! ## The codec -/

theorem messageTypeFromByte_toByte (t : MessageType) : messageTypeFromByte t.toByte = t := by
  cases t <;> decide

@[simp] theorem header_serialize_length (h : FrameHeader) : h.serialize.length = kFrameHeaderSize := by
  simp [FrameHeader.serialize, be32, be16, kFrameHeaderSize]

/-- A header of this protocol's magic and version reads back from its bytes, `reserved`
    apart. -/
theorem deserialize_serialize (h : FrameHeader) (hm : h.magic = kProtocolMagic)
    (hv : h.version = kProtocolVersion)
    (rest : Bytes) : FrameHeader.deserialize (h.serialize ++ rest) = some { h with reserved := 0 } := by
  obtain ⟨magic, version, type, payloadLength, flags, reserved⟩ := h
  simp only at hm hv
  subst hm hv
  simp only [FrameHeader.serialize, be32, be16, List.cons_append, List.nil_append, FrameHeader.deserialize,
    ofBe32_be32, ofBe16_be16, messageTypeFromByte_toByte, ne_eq, not_true_eq_false, if_false]

namespace FrameReader

/-! ## One turn -/

@[simp] theorem push_state (r : FrameReader) (a : Bytes) : (r.push a).state = r.state := rfl
@[simp] theorem push_buffer (r : FrameReader) (a : Bytes) : (r.push a).buffer = r.buffer ++ a := rfl
@[simp] theorem push_pendingHeader (r : FrameReader) (a : Bytes) :
    (r.push a).pendingHeader = r.pendingHeader := rfl
@[simp] theorem push_maxPayloadSize (r : FrameReader) (a : Bytes) :
    (r.push a).maxPayloadSize = r.maxPayloadSize := rfl

/-- A turn that reads a header. -/
theorem turn_header {r : FrameReader} {hdr : FrameHeader} (hs : r.state = .READING_HEADER)
    (hl : kFrameHeaderSize ≤ r.buffer.length)
    (hd : FrameHeader.deserialize (r.buffer.take kFrameHeaderSize) = some hdr)
    (hm : hdr.payloadLength.toNat ≤ r.maxPayloadSize) :
    r.turn =
      .go { r with pendingHeader := hdr, buffer := r.buffer.drop kFrameHeaderSize, state := .READING_PAYLOAD }
        none := by
  simp only [turn, hs, if_neg (Nat.not_lt.mpr hl), hd, if_neg (Nat.not_lt.mpr hm)]

/-- A turn that ends a payload. -/
theorem turn_payload {r : FrameReader} (hs : r.state = .READING_PAYLOAD)
    (hl : r.pendingHeader.payloadLength.toNat ≤ r.buffer.length) :
    r.turn = .go { r with buffer := r.buffer.drop r.pendingHeader.payloadLength.toNat, state := .READING_HEADER }
      (some ⟨r.pendingHeader, r.buffer.take r.pendingHeader.payloadLength.toNat⟩) := by
  simp only [turn, hs, if_neg (Nat.not_lt.mpr hl)]

/-- Bytes that have not arrived yet change no turn that does not wait for them. -/
theorem turn_stable : Stable turn push where
  push_nil r := by simp [push]
  push_push r a b := by simp [push]
  go := by
    intro r r' o a h
    unfold turn at h ⊢
    simp only [push_state, push_buffer, push_pendingHeader, push_maxPayloadSize, List.length_append]
    cases hs : r.state with
    | READING_HEADER =>
      simp only [hs] at h ⊢
      split at h
      · cases h
      rename_i hl
      rw [if_neg (by omega), List.take_append_of_le_length (by omega), List.drop_append_of_le_length (by omega)]
      split at h
      · cases h
      split at h
      · cases h
      rename_i hm
      cases h
      simp only [hm, if_false, push]
    | READING_PAYLOAD =>
      simp only [hs] at h ⊢
      split at h
      · cases h
      rename_i hl
      cases h
      rw [if_neg (by omega), List.take_append_of_le_length (by omega), List.drop_append_of_le_length (by omega)]
      rfl
  fail := by
    intro r r' e a h
    unfold turn at h ⊢
    simp only [push_state, push_buffer, push_pendingHeader, push_maxPayloadSize, List.length_append]
    cases hs : r.state with
    | READING_HEADER =>
      simp only [hs] at h ⊢
      split at h
      · cases h
      rename_i hl
      rw [if_neg (by omega), List.take_append_of_le_length (by omega)]
      split at h
      · cases h; rfl
      split at h
      · rename_i hm; cases h; simp only [hm, if_true, push]
      · cases h
    | READING_PAYLOAD =>
      simp only [hs] at h
      split at h <;> cases h

/-! ## The loop and the feeds -/

/-- The failure a call's outcome stands for. -/
def thrown {α : Type} : Except String α → Option String
  | .ok _ => none
  | .error e => some e

theorem loop_wait {r : FrameReader} (h : r.turn = .wait) (done : List Frame) : loop r done = (.ok done, r) := by
  rw [loop]; split <;> simp_all

theorem loop_fail {r r' : FrameReader} {e : String} (h : r.turn = .fail e r') (done : List Frame) :
    loop r done = (.error e, r') := by
  rw [loop]; split <;> simp_all

theorem loop_go {r r' : FrameReader} {o : Option Frame} (h : r.turn = .go r' o) (done : List Frame) :
    loop r done = loop r' (done ++ o.toList) := by
  rw [loop]; split <;> simp_all

/-- The loop does what the library's `Drains` says, and adds its frames to those it was
    given. -/
theorem loop_drains (r : FrameReader) (done : List Frame) :
    ∃ os, Drains turn r os (thrown (loop r done).1) (loop r done).2 ∧
      ∀ fs, (loop r done).1 = .ok fs → fs = done ++ os := by
  induction r, done using loop.induct with
  | case1 r done h =>
    rw [loop_wait h]
    exact ⟨[], .wait h, fun fs hf => by cases hf; simp⟩
  | case2 r done e r' h =>
    rw [loop_fail h]
    exact ⟨[], .fail h, fun fs hf => by cases hf⟩
  | case3 r done r' o h ih =>
    obtain ⟨os, hd, ho⟩ := ih
    rw [loop_go h]
    exact ⟨o.toList ++ os, .go h hd, fun fs hf => by rw [ho fs hf, List.append_assoc]⟩

theorem feed_drains (r : FrameReader) (c : Bytes) :
    ∃ os, Drains turn (r.push c) os (thrown (r.feed c).1) (r.feed c).2 ∧ ∀ fs, (r.feed c).1 = .ok fs →
      fs = os := by
  obtain ⟨os, hd, ho⟩ := loop_drains (r.push c) []
  exact ⟨os, hd, fun fs hf => by simpa using ho fs hf⟩

/-- A run of feeds that returns is a run of the library's `Feeds` without a failure. -/
theorem feedAll_ok {r u : FrameReader} {cs : List Bytes} {fs : List Frame} (h : r.feedAll cs = .ok (fs, u)) :
    Feeds turn push r cs fs none u := by
  induction cs generalizing r fs with
  | nil => cases h; exact .nil _
  | cons c cs ih =>
    obtain ⟨os, hd, ho⟩ := feed_drains _ c
    unfold feedAll at h
    split at h
    · cases h
    · rename_i gs r' hf
      split at h
      · cases h
      · rename_i gs' u' hfs
        cases h
        rw [hf] at hd ho
        rw [ho gs rfl]
        exact .ok hd (ih hfs)

theorem feedAll_error {r : FrameReader} {cs : List Bytes} {e : String} (h : r.feedAll cs = .error e) :
    ∃ os u, Feeds turn push r cs os (some e) u := by
  induction cs generalizing r with
  | nil => cases h
  | cons c cs ih =>
    obtain ⟨os, hd, ho⟩ := feed_drains r c
    unfold feedAll at h
    split at h
    · rename_i e' r' hf
      cases h
      rw [hf] at hd
      exact ⟨os, r', .fail hd⟩
    · rename_i gs r' hf
      split at h
      · rename_i e' hfs
        cases h
        rw [hf] at hd
        obtain ⟨os', u, hfe⟩ := ih hfs
        exact ⟨os ++ os', u, .ok hd hfe⟩
      · cases h

/-- What a run of feeds makes of a reader that waits does not depend on the cutting. -/
theorem feedAll_congr {r : FrameReader} (hw : r.turn = .wait) {xs ys : List Bytes}
    (h : xs.flatten = ys.flatten) :
    r.feedAll xs = r.feedAll ys := by
  cases hx : r.feedAll xs with
  | ok p =>
    obtain ⟨fs, u⟩ := p
    cases hy : r.feedAll ys with
    | ok q =>
      obtain ⟨gs, v⟩ := q
      obtain ⟨ho, -, hu⟩ := cut_independent turn_stable hw h (feedAll_ok hx) (feedAll_ok hy)
      rw [ho, hu rfl]
    | error e =>
      obtain ⟨os, v, hf⟩ := feedAll_error hy
      obtain ⟨-, he, -⟩ := cut_independent turn_stable hw h (feedAll_ok hx) hf
      cases he
  | error e =>
    obtain ⟨os, u, hf⟩ := feedAll_error hx
    cases hy : r.feedAll ys with
    | ok q =>
      obtain ⟨-, he, -⟩ := cut_independent turn_stable hw h hf (feedAll_ok hy)
      cases he
    | error e' =>
      obtain ⟨os', v, hf'⟩ := feedAll_error hy
      obtain ⟨-, he, -⟩ := cut_independent turn_stable hw h hf hf'
      cases he; rfl

theorem new_waits (max : Nat) : (new max).turn = .wait := rfl

/-- Feeding one stream to a fresh reader has one outcome, however the stream is cut:
    the same exception, or the same frames in the same order and the same reader. -/
theorem feed_cut_independent (max : Nat) (xs ys : List Bytes) (h : xs.flatten = ys.flatten) :
    (new max).feedAll xs = (new max).feedAll ys :=
  feedAll_congr (new_waits max) h

theorem feed_cut_independent_bytewise :
    let f := (Frame.create .PING (str "{}")).serialize
    (new 8).feedAll [f] = (new 8).feedAll ([] :: f.map fun b => [b]) :=
  feed_cut_independent 8 _ _ (by decide)

/-! ## How often the loop turns -/

/-- `feed`'s loop, stopped if it has not ended within `n` turns; the one that breaks or throws
    counts. -/
def loopWithin : Nat → FrameReader → List Frame → Option (Except String (List Frame) × FrameReader)
  | 0, _, _ => none
  | n + 1, r, completeFrames =>
    match r.turn with
    | .wait => some (.ok completeFrames, r)
    | .fail e r' => some (.error e, r')
    | .go r' o => loopWithin n r' (completeFrames ++ o.toList)

def feedWithin (n : Nat) (r : FrameReader) (data : Bytes) : Option (Except String (List Frame) × FrameReader) :=
  loopWithin n (r.push data) []

/-- The turns that may be left: two for every header the buffer can hold, one to end the
    payload that is being read, and the last. -/
def turnsLeft (r : FrameReader) : Nat :=
  2 * (r.buffer.length / kFrameHeaderSize) + if r.state = .READING_PAYLOAD then 2 else 1

theorem turnsLeft_bounds (r : FrameReader) :
    0 < r.turnsLeft ∧ r.turnsLeft ≤ 2 * (r.buffer.length / kFrameHeaderSize) + 2 := by
  unfold turnsLeft
  split <;> omega

/-- A turn that goes on uses up one of them: a header takes twelve bytes, a payload may take none. -/
theorem turn_turnsLeft {r r' : FrameReader} {o : Option Frame} (h : r.turn = .go r' o) :
    r'.turnsLeft < r.turnsLeft := by
  unfold turn at h
  cases hs : r.state with
  | READING_HEADER =>
    simp only [hs] at h
    split at h
    · cases h
    rename_i hl
    split at h
    · cases h
    split at h
    · cases h
    · cases h
      simp only [turnsLeft, hs, List.length_drop, kFrameHeaderSize, if_true, reduceCtorEq, if_false] at hl ⊢
      omega
  | READING_PAYLOAD =>
    simp only [hs] at h
    split at h
    · cases h
    · cases h
      have hle : (r.buffer.length - r.pendingHeader.payloadLength.toNat) / 12 ≤ r.buffer.length / 12 :=
        Nat.div_le_div_right (Nat.sub_le _ _)
      simp only [turnsLeft, hs, List.length_drop, kFrameHeaderSize, if_true, reduceCtorEq, if_false]
      omega

theorem loopWithin_enough {n : Nat} {r : FrameReader} (hn : r.turnsLeft ≤ n) (done : List Frame) :
    loopWithin n r done = some (loop r done) := by
  induction n generalizing r done with
  | zero =>
    have hpos := (turnsLeft_bounds r).1
    omega
  | succ n ih =>
    cases h : r.turn with
    | wait => rw [loop_wait h, loopWithin, h]
    | fail e r' => rw [loop_fail h, loopWithin, h]
    | go r' o =>
      have hlt := turn_turnsLeft h
      rw [loop_go h, loopWithin, h]
      exact ih (by omega) _

/-- Whatever the reader and the chunk, `feed` has returned or thrown after two turns for every
    twelve of the bytes it has then, and two more. -/
theorem feed_ends (r : FrameReader) (data : Bytes) :
    r.feedWithin (2 * ((r.buffer.length + data.length) / 12) + 2) data = some (r.feed data) := by
  have hle := (turnsLeft_bounds (r.push data)).2
  rw [push_buffer, List.length_append] at hle
  exact loopWithin_enough hle []

/-- Behind the byte that a payload lacks, a stream of empty frames takes all these turns. -/
example :
    let r := ((new 8).feed ((Frame.create .PING [0]).serialize.take 12)).2
    let data := 0 :: (List.replicate 2 (Frame.create .PING []).serialize).flatten
    r.feedWithin (2 * ((r.buffer.length + data.length) / 12) + 1) data = none := by
  decide +kernel

/-! ## What a reader retains -/

/-- A payload the reader is in the middle of is one it took the length of. -/
structure Bounded (max : Nat) (r : FrameReader) : Prop where
  max_eq : r.maxPayloadSize = max
  pending : r.state = .READING_PAYLOAD → r.pendingHeader.payloadLength.toNat ≤ max

/-- A frame whose payload has the length its header says. -/
def Whole (max : Nat) (f : Frame) : Prop :=
  f.payload.length = f.header.payloadLength.toNat ∧ f.payload.length ≤ max

/-- The two ways a turn goes on. -/
theorem turn_go {r r' : FrameReader} {o : Option Frame} (h : r.turn = .go r' o) :
    (r.state = .READING_HEADER ∧ r'.state = .READING_PAYLOAD ∧ o = none ∧ r'.maxPayloadSize = r.maxPayloadSize ∧
      r'.pendingHeader.payloadLength.toNat ≤ r.maxPayloadSize) ∨
    (r.state = .READING_PAYLOAD ∧ r'.state = .READING_HEADER ∧ r'.maxPayloadSize = r.maxPayloadSize ∧
      r.pendingHeader.payloadLength.toNat ≤ r.buffer.length ∧
      o = some ⟨r.pendingHeader, r.buffer.take r.pendingHeader.payloadLength.toNat⟩) := by
  unfold turn at h
  cases hs : r.state with
  | READING_HEADER =>
    simp only [hs] at h
    split at h
    · cases h
    split at h
    · cases h
    split at h
    · cases h
    rename_i hm
    cases h
    exact Or.inl ⟨rfl, rfl, rfl, rfl, Nat.not_lt.mp hm⟩
  | READING_PAYLOAD =>
    simp only [hs] at h
    split at h
    · cases h
    rename_i hl
    cases h
    exact Or.inr ⟨rfl, rfl, rfl, Nat.not_lt.mp hl, rfl⟩

theorem turn_bounded {max : Nat} {r r' : FrameReader} {o : Option Frame} (hr : Bounded max r)
    (h : r.turn = .go r' o) : Bounded max r' ∧ ∀ f ∈ o, Whole max f := by
  rcases turn_go h with ⟨-, -, rfl, hmax, hp⟩ | ⟨hs, hs', hmax, hl, rfl⟩
  · refine ⟨⟨hmax.trans hr.max_eq, fun _ => ?_⟩, by simp⟩
    rw [← hr.max_eq]
    exact hp
  · refine ⟨⟨hmax.trans hr.max_eq, fun he => (by rw [hs'] at he; cases he)⟩, fun f hf => ?_⟩
    cases hf
    have hle := hr.pending hs
    have hlen : (r.buffer.take r.pendingHeader.payloadLength.toNat).length =
        r.pendingHeader.payloadLength.toNat := List.length_take_of_le hl
    exact ⟨hlen, le_of_eq_of_le hlen hle⟩

/-- A reader that waits holds less than what it waits for. -/
theorem turn_wait {r : FrameReader} (h : r.turn = .wait) :
    (r.state = .READING_HEADER → r.buffer.length < kFrameHeaderSize) ∧
    (r.state = .READING_PAYLOAD → r.buffer.length < r.pendingHeader.payloadLength.toNat) := by
  unfold turn at h
  constructor
  · intro hs
    simp only [hs] at h
    split at h
    · assumption
    split at h
    · cases h
    split at h <;> cases h
  · intro hs
    simp only [hs] at h
    split at h
    · assumption
    · cases h

/-- What a fresh reader retains after calls that did not throw, and what it handed out:
    less than a header or less than the payload it waits for, which is within the limit,
    and frames within the limit whose headers tell their length. -/
theorem reader_bounded (max : Nat) (cs : List Bytes) {fs : List Frame} {u : FrameReader}
    (h : (new max).feedAll cs = .ok (fs, u)) :
    (u.state = .READING_HEADER → u.buffer.length < kFrameHeaderSize) ∧
    (u.state = .READING_PAYLOAD → u.buffer.length < u.pendingHeader.payloadLength.toNat ∧
      u.pendingHeader.payloadLength.toNat ≤ max) ∧
    ∀ f ∈ fs, f.payload.length = f.header.payloadLength.toNat ∧ f.payload.length ≤ max := by
  have hf := feedAll_ok h
  have hnew : Bounded max (new max) := ⟨rfl, fun hs => by cases hs⟩
  have hpush : ∀ {r : FrameReader} (a : Bytes), Bounded max r → Bounded max (r.push a) :=
    fun _ hr => ⟨hr.max_eq, hr.pending⟩
  obtain ⟨hu, hfs⟩ := hf.invariant hpush turn_bounded hnew
  obtain ⟨hh, hp⟩ := turn_wait (hf.waits rfl (new_waits max))
  exact ⟨hh, fun hs => ⟨hp hs, (hu rfl).pending hs⟩, hfs⟩

/-- A whole frame with an empty payload, and a header whose payload is still to come. -/
theorem reader_bounded_empty_payload :
    let bytes := (Frame.create .PING []).serialize ++ (Frame.create .HELLO [1, 2]).serialize.take 13
    ∃ fs u, (new 2).feedAll [bytes] = .ok (fs, u) ∧ u.state = .READING_PAYLOAD ∧
      u.buffer.length < u.pendingHeader.payloadLength.toNat ∧ fs.length = 1 := by
  intro bytes
  have h : (new 2).feedAll [bytes] = .ok ([Frame.create .PING []],
      ⟨.READING_PAYLOAD, [1], (Frame.create .HELLO [1, 2]).header, 2⟩) := by decide +kernel
  obtain ⟨-, hp, -⟩ := reader_bounded 2 [bytes] h
  exact ⟨_, _, h, rfl, (hp rfl).1, rfl⟩

/-! ## Round trip -/

/-- `Frame::create`, with `flags` set: what a side may put on the wire for a reader
    that takes payloads of up to `max` bytes. -/
def Built (max : Nat) (f : Frame) : Prop :=
  ∃ type flags payload,
    f = { Frame.create type payload with
            header := { (Frame.create type payload).header with flags := flags } } ∧
    payload.length ≤ max ∧ payload.length < 2 ^ 32

/-- What the reader's turns need of such a frame. -/
theorem Built.spec {max : Nat} {f : Frame} (h : Built max f) :
    f.header.magic = kProtocolMagic ∧ f.header.version = kProtocolVersion ∧ f.header.reserved = 0 ∧
      f.header.payloadLength.toNat = f.payload.length ∧ f.payload.length ≤ max := by
  obtain ⟨type, flags, payload, rfl, hm, hl⟩ := h
  refine ⟨rfl, rfl, rfl, ?_, hm⟩
  simp only [Frame.create, UInt32.toNat_ofNat']
  exact Nat.mod_eq_of_lt hl

/-- A reader at the start of a frame's bytes decodes the frame and is at their end. -/
theorem drains_frame {max : Nat} {f : Frame} (hf : Built max f) {r t : FrameReader} {rest : Bytes}
    {os : List Frame} {e : Option String} (hs : r.state = .READING_HEADER) (hmax : r.maxPayloadSize = max)
    (hb : r.buffer = f.serialize ++ rest)
    (h : Drains turn { r with buffer := rest, pendingHeader := f.header } os e t) :
    Drains turn r (f :: os) e t := by
  obtain ⟨hm, hv, hr, hlen, hle⟩ := hf.spec
  have hbl : r.buffer = f.header.serialize ++ (f.payload ++ rest) := by
    rw [hb, Frame.serialize, List.append_assoc]
  have hhdr : FrameHeader.deserialize (r.buffer.take kFrameHeaderSize) = some f.header := by
    rw [hbl, ← header_serialize_length f.header, List.take_left']
    · have := deserialize_serialize f.header hm hv []
      rw [List.append_nil] at this
      rw [this, ← hr]
    · rfl
  have hdrop : r.buffer.drop kFrameHeaderSize = f.payload ++ rest := by
    rw [hbl, ← header_serialize_length f.header, List.drop_left']; rfl
  have h1 := turn_header hs (by rw [hbl]; simp) hhdr (by omega)
  rw [hdrop] at h1
  have h2 := turn_payload
    (r := { r with pendingHeader := f.header, buffer := f.payload ++ rest, state := .READING_PAYLOAD })
    rfl (by simp [hlen])
  simp only [hlen, List.drop_left, List.take_left] at h2
  refine .go (o := none) h1 (.go (o := some f) h2 ?_)
  rw [hs] at h
  exact h

/-- The serialized frames, one after the other, decode to the frames, and leave the
    reader at a header with an empty buffer. -/
theorem drains_frames {max : Nat} {fs : List Frame} (hfs : ∀ f ∈ fs, Built max f) {r : FrameReader}
    (hs : r.state = .READING_HEADER) (hmax : r.maxPayloadSize = max)
    (hb : r.buffer = (fs.map Frame.serialize).flatten) :
    ∃ u, Drains turn r fs none u ∧ u.buffer = [] ∧ u.state = .READING_HEADER := by
  induction fs generalizing r with
  | nil =>
    refine ⟨r, .wait ?_, hb, hs⟩
    simp only [List.map_nil, List.flatten_nil] at hb
    simp [turn, hs, hb, kFrameHeaderSize]
  | cons f fs ih =>
    rw [List.map_cons, List.flatten_cons] at hb
    have hrest := ih (fun g hg => hfs g (List.mem_cons_of_mem _ hg))
      (r := { r with buffer := (fs.map Frame.serialize).flatten, pendingHeader := f.header }) hs hmax rfl
    obtain ⟨u, hd, hub, hus⟩ := hrest
    exact ⟨u, drains_frame (hfs f List.mem_cons_self) hs hmax hb hd, hub, hus⟩

/-- Frames built by one side and serialized one after the other, cut into any chunks,
    come out of a fresh reader whole and in order, and leave nothing behind. -/
theorem wire_round_trip (max : Nat) (fs : List Frame) (hfs : ∀ f ∈ fs, Built max f) (cs : List Bytes)
    (hcs : cs.flatten = (fs.map Frame.serialize).flatten) :
    ∃ u, (new max).feedAll cs = .ok (fs, u) ∧ u.buffer = [] ∧ u.state = .READING_HEADER := by
  obtain ⟨u, hd, hub, hus⟩ :=
    drains_frames hfs (r := (new max).push cs.flatten) rfl rfl (by simpa [new] using hcs)
  cases h : (new max).feedAll cs with
  | ok p =>
    obtain ⟨gs, v⟩ := p
    obtain ⟨v', hd', hv⟩ := (feedAll_ok h).flatten turn_stable (new_waits max)
    obtain ⟨rfl, -, rfl⟩ := hd'.unique hd
    exact ⟨v, rfl, by rw [← hv rfl]; exact ⟨hub, hus⟩⟩
  | error e =>
    obtain ⟨os, v, hf⟩ := feedAll_error h
    obtain ⟨v', hd', -⟩ := hf.flatten turn_stable (new_waits max)
    cases (hd'.unique hd).2.1

/-- An empty payload, one exactly at the limit, and cuts inside a header. -/
theorem wire_round_trip_at_limit :
    let fs := [Frame.create .HELLO [], Frame.create .UNKNOWN [1, 2]]
    let bytes := (fs.map Frame.serialize).flatten
    ∃ u, (new 2).feedAll [bytes.take 5, [], bytes.drop 5] = .ok (fs, u) ∧ u.buffer = [] ∧
      u.state = .READING_HEADER := by
  refine wire_round_trip 2 _ (fun f hf => ?_) _ (by decide)
  simp only [List.mem_cons, List.not_mem_nil, or_false] at hf
  rcases hf with rfl | rfl
  · exact ⟨.HELLO, 0, [], rfl, by decide, by decide⟩
  · exact ⟨.UNKNOWN, 0, [1, 2], rfl, by decide, by decide⟩

end FrameReader

end LanTalk.Network
