/-
  LanTalk.Network.Stream — a byte stream by itself: where its headers are, which frames it
  holds up to the first header that is not valid, and what `recvLoop`
  (`src/network/connection.cpp`) hands to `onFrame_` of the chunks `recv` makes of it.

  `recvLoop` here is the loop while nobody else stops the connection and the rate limit
  does not intervene: `recv` returns the chunks one after the other.

  Proved:
  - `reencode`: frames, pending header and buffer of a reader that threw nothing are the
    stream again, but for the types it does not know.
  - `recvLoop_hands_all_iff`: `recvLoop` hands out all frames before a violation just if a
    chunk ends between the last of them and the end of the header that is not valid; `feed`
    drops those it decoded in the call in which it throws (`frames_lost`).
  - `accepted_iff`: what of a frame that is sent a peer's reader takes.
-/

import LanTalk.Network.ProtocolProofs
import LanTalk.Network.Connection

namespace LanTalk.Network

open LanTalk.Lib LanTalk.Lib.Reader

/-! ## Types -/

/-- A byte that stands for a message type. -/
def Assigned (b : UInt8) : Prop := ∃ t : MessageType, t.toByte = b

theorem assigned_iff (b : UInt8) : Assigned b ↔ (messageTypeFromByte b).toByte = b := by
  constructor
  · intro h
    obtain ⟨t, rfl⟩ := h
    rw [messageTypeFromByte_toByte]
  · exact fun h => ⟨_, h⟩

instance (b : UInt8) : Decidable (Assigned b) := decidable_of_iff _ (assigned_iff b).symm

/-- A type byte as a header writes it again. -/
def retype (b : UInt8) : UInt8 := if Assigned b then b else 0xFF

theorem toByte_messageTypeFromByte (b : UInt8) : (messageTypeFromByte b).toByte = retype b := by
  have h : messageTypeFromByte b = .UNKNOWN ∨ (messageTypeFromByte b).toByte = b := by
    fun_cases messageTypeFromByte b
    all_goals first | exact .inl rfl | exact .inr (Eq.symm ‹b = _›)
  unfold retype
  split
  · rename_i ha; exact (assigned_iff b).mp ha
  · rename_i ha
    rcases h with h | h
    · rw [h]; rfl
    · exact absurd ((assigned_iff b).mpr h) ha

/-! ## Headers in a stream -/

/-- The payload length in the header at the front of a stream. -/
def lengthField : Bytes → Nat
  | _ :: _ :: _ :: _ :: _ :: _ :: l0 :: l1 :: l2 :: l3 :: _ => (ofBe32 l0 l1 l2 l3).toNat
  | _ => 0

/-- A stream with the type byte of every header that is no message type's replaced. -/
def retyped (s : Bytes) : Bytes :=
  if s.length < kFrameHeaderSize then s
  else
    let body := s.drop kFrameHeaderSize
    (s.take kFrameHeaderSize).modify 5 retype ++ body.take (lengthField s) ++ retyped (body.drop (lengthField s))
termination_by s.length
decreasing_by simp only [kFrameHeaderSize] at *; simp only [List.length_drop]; omega

theorem retyped_short {s : Bytes} (h : s.length < kFrameHeaderSize) : retyped s = s := by
  rw [retyped, if_pos h]

theorem retyped_long {s : Bytes} (h : kFrameHeaderSize ≤ s.length) :
    retyped s = (s.take kFrameHeaderSize).modify 5 retype ++ (s.drop kFrameHeaderSize).take (lengthField s) ++
      retyped ((s.drop kFrameHeaderSize).drop (lengthField s)) := by
  rw [retyped, if_neg (Nat.not_lt.mpr h)]

/-- Nothing is lost or added. -/
theorem retyped_length (s : Bytes) : (retyped s).length = s.length := by
  induction s using retyped.induct with
  | case1 s h => rw [retyped_short h]
  | case2 s h body ih =>
    rw [retyped_long (Nat.not_lt.mp h)]
    simp only [body, List.length_drop] at ih
    simp only [List.length_append, List.length_modify, List.length_take, List.length_drop, ih]
    omega

/-- A header that is read is its bytes again, with the type retyped. -/
theorem deserialize_some {s : Bytes} {hdr : FrameHeader} (hl : kFrameHeaderSize ≤ s.length)
    (h : FrameHeader.deserialize (s.take kFrameHeaderSize) = some hdr) :
    hdr.serialize = (s.take kFrameHeaderSize).modify 5 retype ∧ hdr.payloadLength.toNat = lengthField s := by
  match s, hl with
  | m0 :: m1 :: m2 :: m3 :: v :: t :: l0 :: l1 :: l2 :: l3 :: f0 :: f1 :: rest, _ =>
    simp only [kFrameHeaderSize, List.take_succ_cons, List.take_zero, FrameHeader.deserialize] at h ⊢
    split at h
    · cases h
    · split at h
      · cases h
      · cases h
        refine ⟨?_, rfl⟩
        simp only [FrameHeader.serialize, be32_ofBe32, be16_ofBe16, toByte_messageTypeFromByte]
        rfl

namespace FrameReader

/-! ## Encoding again what was decoded -/

/-- The bytes of a header that is read but whose payload is not. -/
def pending (r : FrameReader) : Bytes :=
  match r.state with
  | .READING_HEADER => []
  | .READING_PAYLOAD => r.pendingHeader.serialize

/-- What a reader still has of its stream, the types retyped. -/
def left (r : FrameReader) : Bytes :=
  match r.state with
  | .READING_HEADER => retyped r.buffer
  | .READING_PAYLOAD =>
    let n := r.pendingHeader.payloadLength.toNat
    r.pendingHeader.serialize ++ r.buffer.take n ++ retyped (r.buffer.drop n)

theorem left_wait {r : FrameReader} (h : r.turn = .wait) : r.left = r.pending ++ r.buffer := by
  unfold turn at h
  unfold left pending
  cases hs : r.state with
  | READING_HEADER =>
    simp only [hs] at h ⊢
    split at h
    · rename_i hl; rw [retyped_short hl]; rfl
    · split at h
      · cases h
      · split at h <;> cases h
  | READING_PAYLOAD =>
    simp only [hs] at h ⊢
    split at h
    · rename_i hl
      rw [List.take_of_length_le (by omega), List.drop_of_length_le (by omega), retyped_short (by decide),
        List.append_nil]
    · cases h

/-- A turn takes off what it has left the bytes of the frame it emits. -/
theorem left_go {r r' : FrameReader} {o : Option Frame} (h : r.turn = .go r' o) :
    r.left = o.toList.flatMap Frame.serialize ++ r'.left := by
  unfold turn at h
  cases hs : r.state with
  | READING_HEADER =>
    simp only [hs] at h
    split at h
    · cases h
    rename_i hl
    split at h
    · cases h
    rename_i hdr hd
    split at h
    · cases h
    obtain ⟨h1, h2⟩ := deserialize_some (Nat.not_lt.mp hl) hd
    cases h
    simp only [left, hs, retyped_long (Nat.not_lt.mp hl), h1, h2, Option.toList_none, List.flatMap_nil,
      List.nil_append]
  | READING_PAYLOAD =>
    simp only [hs] at h
    split at h
    · cases h
    cases h
    simp only [left, hs, Option.toList_some, List.flatMap_cons, List.flatMap_nil, List.append_nil,
      Frame.serialize]

theorem drains_left {r u : FrameReader} {fs : List Frame} {e : Option String} (h : Drains turn r fs e u)
    (he : e = none) : fs.flatMap Frame.serialize ++ u.pending ++ u.buffer = r.left := by
  induction h with
  | wait hw => rw [left_wait hw, List.flatMap_nil, List.nil_append]
  | fail _ => cases he
  | go hg _ ih =>
    rw [left_go hg, ← ih he, List.flatMap_append, List.append_assoc, List.append_assoc, List.append_assoc]

/-- A reader that threw nothing holds the whole stream: the frames it emitted, the header
    it has read and its buffer are the stream's bytes, the types it does not know
    replaced. -/
theorem reencode (max : Nat) (cs : List Bytes) (fs : List Frame) (u : FrameReader)
    (h : (new max).feedAll cs = .ok (fs, u)) :
    fs.flatMap Frame.serialize ++ u.pending ++ u.buffer = retyped cs.flatten := by
  obtain ⟨u', hd, hu⟩ := (feedAll_ok h).flatten turn_stable (new_waits max)
  rw [← hu rfl]
  exact drains_left hd rfl

/-- A frame of a type that no message has, and the header of another. -/
def strange : Bytes :=
  (Frame.create .PING [7]).serialize.set 5 0x99 ++ (Frame.create .PONG [8]).header.serialize

theorem reencode_strange :
    ∃ fs u, (new 8).feedAll [strange.take 5, strange.drop 5] = .ok (fs, u) ∧
      fs.flatMap Frame.serialize ++ u.pending ++ u.buffer = retyped [strange.take 5, strange.drop 5].flatten := by
  have h : (new 8).feedAll [strange.take 5, strange.drop 5] =
      .ok ([⟨{ type := .UNKNOWN, payloadLength := 1 }, [7]⟩],
        { new 8 with pendingHeader := (Frame.create .PONG [8]).header, state := .READING_PAYLOAD }) := by
    decide +kernel
  exact ⟨_, _, h, reencode 8 _ _ _ h⟩

end FrameReader

/-! ## The frames of a stream -/

/-- The header at the front of a stream, if a reader takes it. -/
def header? (max : Nat) (s : Bytes) : Option FrameHeader :=
  (FrameHeader.deserialize (s.take kFrameHeaderSize)).filter fun hdr => decide (hdr.payloadLength.toNat ≤ max)

/-- The frame at the front of a stream, after its header. -/
def frameAt (hdr : FrameHeader) (s : Bytes) : Frame :=
  ⟨hdr, (s.drop kFrameHeaderSize).take hdr.payloadLength.toNat⟩

def frameSize (hdr : FrameHeader) : Nat := kFrameHeaderSize + hdr.payloadLength.toNat

/-- The complete frames at the front of a stream, up to the first header that no reader
    takes, and what comes after them. -/
def complete (max : Nat) (s : Bytes) : List Frame × Bytes :=
  match header? max s with
  | none => ([], s)
  | some hdr =>
    if s.length < frameSize hdr then ([], s)
    else
      let p := complete max (s.drop (frameSize hdr))
      (frameAt hdr s :: p.1, p.2)
termination_by s.length
decreasing_by simp only [frameSize, kFrameHeaderSize, List.length_drop] at *; omega

/-- A whole header that no reader takes comes after the complete frames. -/
def Violates (max : Nat) (s : Bytes) : Prop :=
  kFrameHeaderSize ≤ (complete max s).2.length ∧ header? max (complete max s).2 = none

/-- How many bytes the complete frames have. -/
def extent (max : Nat) (s : Bytes) : Nat := ((complete max s).1.flatMap Frame.serialize).length

theorem complete_none {max : Nat} {s : Bytes} (h : header? max s = none) : complete max s = ([], s) := by
  rw [complete, h]

theorem complete_cut {max : Nat} {s : Bytes} {hdr : FrameHeader} (h : header? max s = some hdr)
    (hl : s.length < frameSize hdr) : complete max s = ([], s) := by
  rw [complete, h]
  exact if_pos hl

theorem complete_cons {max : Nat} {s : Bytes} {hdr : FrameHeader} (h : header? max s = some hdr)
    (hl : frameSize hdr ≤ s.length) : complete max s =
      (frameAt hdr s :: (complete max (s.drop (frameSize hdr))).1, (complete max (s.drop (frameSize hdr))).2) := by
  rw [complete, h]
  exact if_neg (Nat.not_lt.mpr hl)

theorem header?_some {max : Nat} {s : Bytes} {hdr : FrameHeader} (h : header? max s = some hdr) :
    FrameHeader.deserialize (s.take kFrameHeaderSize) = some hdr ∧ hdr.payloadLength.toNat ≤ max := by
  obtain ⟨h1, h2⟩ := Option.filter_eq_some_iff.mp h
  exact ⟨h1, of_decide_eq_true h2⟩

theorem header?_length {max : Nat} {s : Bytes} {hdr : FrameHeader} (h : header? max s = some hdr) :
    kFrameHeaderSize ≤ s.length := by
  have hd := (header?_some h).1
  unfold FrameHeader.deserialize at hd
  split at hd
  · rename_i he
    have := congrArg List.length he
    simp only [List.length_take, List.length_cons, kFrameHeaderSize] at this ⊢
    omega
  · cases hd

theorem header?_append {max : Nat} {q : Bytes} (h : kFrameHeaderSize ≤ q.length) (r : Bytes) :
    header? max (q ++ r) = header? max q := by
  unfold header?
  rw [List.take_append_of_le_length h]

theorem frameAt_length {hdr : FrameHeader} {s : Bytes} (hl : frameSize hdr ≤ s.length) :
    (frameAt hdr s).serialize.length = frameSize hdr := by
  simp only [Frame.serialize, frameAt, List.length_append, header_serialize_length, List.length_take,
    List.length_drop, frameSize] at hl ⊢
  omega

theorem extent_nil {max : Nat} {s : Bytes} (h : complete max s = ([], s)) : extent max s = 0 := by
  simp [extent, h]

theorem extent_cons {max : Nat} {s : Bytes} {hdr : FrameHeader} (h : header? max s = some hdr)
    (hl : frameSize hdr ≤ s.length) :
    extent max s = frameSize hdr + extent max (s.drop (frameSize hdr)) := by
  simp only [extent, complete_cons h hl, List.flatMap_cons, List.length_append, frameAt_length hl]

theorem not_violates {max : Nat} {s : Bytes} {hdr : FrameHeader} (h : header? max s = some hdr)
    (hc : complete max s = ([], s)) : ¬ Violates max s := by
  intro h
  obtain ⟨-, hv⟩ := h
  rw [hc] at hv
  simp only [h, reduceCtorEq] at hv

theorem complete_nil_or (max : Nat) (s : Bytes) :
    complete max s = ([], s) ∨ ∃ hdr, header? max s = some hdr ∧ frameSize hdr ≤ s.length := by
  cases h : header? max s with
  | none => exact .inl (complete_none h)
  | some hdr =>
    by_cases hl : frameSize hdr ≤ s.length
    · exact .inr ⟨hdr, rfl, hl⟩
    · exact .inl (complete_cut h (Nat.not_le.mp hl))

/-- No frame is complete in less than its bytes. -/
theorem complete_short {max : Nat} {q s : Bytes}
    (h : ∀ hdr, header? max s = some hdr → frameSize hdr ≤ s.length → q.length < frameSize hdr) :
    [] = (complete max s).1 ↔ extent max s ≤ q.length := by
  rcases complete_nil_or max s with hc | ⟨hdr, hh, hl⟩
  · rw [extent_nil hc, hc]
    exact iff_of_true rfl (Nat.zero_le _)
  · have hq := h hdr hh hl
    rw [extent_cons hh hl, complete_cons hh hl]
    refine iff_of_false (by simp) (by omega)

/-- A reader takes no frame with a larger payload than it allows. -/
theorem complete_payload (max : Nat) (s : Bytes) : ∀ f ∈ (complete max s).1, f.payload.length ≤ max := by
  induction s using complete.induct max with
  | case1 s h => rw [complete_none h]; intro f hf; cases hf
  | case2 s hdr h hl => rw [complete_cut h hl]; intro f hf; cases hf
  | case3 s hdr h hl ih =>
    rw [complete_cons h (Nat.not_lt.mp hl)]
    intro f hf
    rcases List.mem_cons.mp hf with rfl | hf
    · have := (header?_some h).2
      simp only [frameAt, List.length_take]
      omega
    · exact ih f hf

/-- A first part of a stream has all its frames just if it is as long as they are, and has
    its violation just if it has the whole header. -/
theorem complete_append (max : Nat) (q r : Bytes) :
    ((complete max q).1 = (complete max (q ++ r)).1 ↔ extent max (q ++ r) ≤ q.length) ∧
      (Violates max q ↔ Violates max (q ++ r) ∧ extent max (q ++ r) + kFrameHeaderSize ≤ q.length) := by
  induction q using complete.induct max with
  | case1 q hq =>
    have hcq := complete_none hq
    rw [hcq]
    by_cases hl : kFrameHeaderSize ≤ q.length
    · have hqr : header? max (q ++ r) = none := by rw [header?_append hl, hq]
      have hc := complete_none hqr
      rw [extent_nil hc, hc]
      refine ⟨iff_of_true rfl (Nat.zero_le _), iff_of_true ?_ ⟨?_, by omega⟩⟩
      · rw [Violates, hcq]; exact ⟨hl, hq⟩
      · rw [Violates, hc]
        exact ⟨by rw [List.length_append]; exact Nat.le_add_right_of_le hl, hqr⟩
    · refine ⟨complete_short fun hdr _ _ => ?_, iff_of_false ?_ fun h => by omega⟩
      · rw [frameSize]; omega
      · rw [Violates, hcq]; exact fun h => hl h.1
  | case2 q hdr hq hl =>
    have hqr : header? max (q ++ r) = some hdr := by rw [header?_append (header?_length hq), hq]
    have hcq := complete_cut hq hl
    rw [hcq]
    refine ⟨complete_short fun hdr' hh _ => ?_, iff_of_false (not_violates hq hcq) ?_⟩
    · rw [hqr, Option.some.injEq] at hh
      exact hh ▸ hl
    · intro h
      obtain ⟨hv, he⟩ := h
      by_cases hlr : frameSize hdr ≤ (q ++ r).length
      · rw [extent_cons hqr hlr] at he
        omega
      · exact not_violates hqr (complete_cut hqr (Nat.not_le.mp hlr)) hv
  | case3 q hdr hq hl ih =>
    rw [Nat.not_lt] at hl
    have hqr : header? max (q ++ r) = some hdr := by rw [header?_append (header?_length hq), hq]
    have hlr : frameSize hdr ≤ (q ++ r).length := by rw [List.length_append]; omega
    have hdrop : (q ++ r).drop (frameSize hdr) = q.drop (frameSize hdr) ++ r := List.drop_append_of_le_length hl
    have hframe : frameAt hdr (q ++ r) = frameAt hdr q := by
      have hd : (q ++ r).drop kFrameHeaderSize = q.drop kFrameHeaderSize ++ r :=
        List.drop_append_of_le_length (header?_length hq)
      rw [frameAt, hd, List.take_append_of_le_length, frameAt]
      rw [List.length_drop]
      simp only [frameSize] at hl
      omega
    have hlen : q.length = frameSize hdr + (q.drop (frameSize hdr)).length := by rw [List.length_drop]; omega
    rw [Violates, Violates, complete_cons hq hl, complete_cons hqr hlr, extent_cons hqr hlr, hdrop, hframe,
      ← Violates, ← Violates]
    constructor
    · rw [List.cons.injEq, ih.1, and_iff_right rfl]
      omega
    · rw [ih.2]
      apply and_congr_right
      intro _
      omega

/-! ## What `recvLoop` hands out -/

/-- `recvLoop` on what `recv` returns: the frames it hands to `onFrame_`, and the reason for
    which it disconnects, if it does. -/
def Connection.recvLoop (conn : Connection) : List Bytes → List Frame × Option Bytes
  | [] => ([], none)
  | c :: cs =>
    if conn.running then
      match conn.decode c with
      | (.ok frames, conn') =>
        let r := recvLoop conn' cs
        (frames ++ r.1, r.2)
      | (.error reason, _) => ([], some reason)
    else ([], none)

/-- A connection that has been started, whose reader takes payloads of up to `max` bytes. -/
def started (max : Nat) : Connection := Connection.start { reader := FrameReader.new max }

namespace FrameReader

theorem turn_refused {r : FrameReader} (hs : r.state = .READING_HEADER)
    (h : header? r.maxPayloadSize r.buffer = none) :
    if kFrameHeaderSize ≤ r.buffer.length then ∃ e r', r.turn = .fail e r' else r.turn = .wait := by
  split
  · rename_i hl
    unfold turn
    simp only [hs, if_neg (Nat.not_lt.mpr hl)]
    split
    · exact ⟨_, _, rfl⟩
    · rename_i hdr hd
      have hm : ¬ hdr.payloadLength.toNat ≤ r.maxPayloadSize := by
        intro hm
        rw [header?, hd, Option.filter_some, if_pos (decide_eq_true hm)] at h
        cases h
      rw [if_pos (Nat.not_le.mp hm)]
      exact ⟨_, _, rfl⟩
  · rename_i hl
    simp only [turn, hs, if_pos (Nat.not_le.mp hl)]

/-- A reader at a header decodes the complete frames of its buffer, and fails just if they
    are followed by a violation. -/
theorem drains_complete (max : Nat) (s : Bytes) : ∀ r : FrameReader, r.state = .READING_HEADER →
    r.maxPayloadSize = max → r.buffer = s →
    ∃ e u, Drains turn r (complete max s).1 e u ∧ (e ≠ none ↔ Violates max s) := by
  induction s using complete.induct max with
  | case1 s hn =>
    intro r hs hm hb
    subst hm hb
    have ht := turn_refused hs hn
    rw [Violates, complete_none hn]
    split at ht
    · rename_i hl
      obtain ⟨e, r', ht⟩ := ht
      exact ⟨some e, r', .fail ht, iff_of_true (by simp) ⟨hl, hn⟩⟩
    · rename_i hl
      exact ⟨none, r, .wait ht, iff_of_false (by simp) fun h => hl h.1⟩
  | case2 s hdr hh hl =>
    intro r hs hm hb
    subst hm hb
    have hc := complete_cut hh hl
    obtain ⟨hd, hle⟩ := header?_some hh
    have h1 := turn_header hs (header?_length hh) hd hle
    have hlt : (r.buffer.drop kFrameHeaderSize).length < hdr.payloadLength.toNat := by
      rw [List.length_drop]
      simp only [frameSize] at hl
      have := header?_length hh
      omega
    have h2 : turn { r with
        pendingHeader := hdr, buffer := r.buffer.drop kFrameHeaderSize, state := .READING_PAYLOAD } = .wait := by
      simp only [turn, if_pos hlt]
    rw [hc]
    exact ⟨none, _, .go (o := none) h1 (.wait h2), iff_of_false (by simp) (not_violates hh hc)⟩
  | case3 s hdr hh hl ih =>
    intro r hs hm hb
    subst hm hb
    rw [Nat.not_lt] at hl
    obtain ⟨hd, hle⟩ := header?_some hh
    have h1 := turn_header hs (header?_length hh) hd hle
    have hle2 : hdr.payloadLength.toNat ≤ (r.buffer.drop kFrameHeaderSize).length := by
      rw [List.length_drop]
      simp only [frameSize] at hl
      omega
    have h2 := turn_payload
      (r := { r with pendingHeader := hdr, buffer := r.buffer.drop kFrameHeaderSize, state := .READING_PAYLOAD })
      rfl hle2
    obtain ⟨e, u, hD, he⟩ := ih
      { r with
        pendingHeader := hdr
        buffer := (r.buffer.drop kFrameHeaderSize).drop hdr.payloadLength.toNat
        state := .READING_HEADER }
      rfl rfl (by rw [List.drop_drop, frameSize])
    rw [Violates, complete_cons hh hl]
    exact ⟨e, u, .go (o := none) h1 (.go (o := some _) h2 hD), he⟩

/-- What a fresh reader makes of a stream. -/
theorem new_drains {max : Nat} {s : Bytes} {os : List Frame} {e : Option String} {u : FrameReader}
    (h : Drains turn ((new max).push s) os e u) : os = (complete max s).1 ∧ (e ≠ none ↔ Violates max s) := by
  obtain ⟨e', u', hD, he⟩ := drains_complete max s ((new max).push s) rfl rfl (List.nil_append s)
  obtain ⟨rfl, rfl, -⟩ := h.unique hD
  exact ⟨rfl, he⟩

end FrameReader

/-- `recvLoop`, after a first part `p` of the stream, hands out the frames up to the end of
    the last chunk before the violation. -/
theorem recvLoop_spec {max : Nat} (cs : List Bytes) : ∀ {conn : Connection} {p : Bytes} {os : List Frame},
    conn.running = true → Drains FrameReader.turn ((FrameReader.new max).push p) os none conn.reader →
    ∃ i, os ++ (conn.recvLoop cs).1 = (complete max (p ++ (cs.take i).flatten)).1 ∧
      ¬ Violates max (p ++ (cs.take i).flatten) ∧
      (i = cs.length ∨ Violates max (p ++ (cs.take (i + 1)).flatten)) := by
  induction cs with
  | nil =>
    intro conn p os _ hD
    obtain ⟨hos, hv⟩ := FrameReader.new_drains hD
    refine ⟨0, ?_, ?_, .inl rfl⟩
    · simpa [Connection.recvLoop] using hos
    · simpa using hv.not
  | cons c cs ih =>
    intro conn p os hr hD
    obtain ⟨os', hd, ho⟩ := FrameReader.feed_drains conn.reader c
    have hpc := hD.push_ok FrameReader.turn_stable rfl hd
    rw [FrameReader.turn_stable.push_push] at hpc
    cases hf : conn.reader.feed c with
    | mk res u =>
      rw [hf] at hpc ho
      cases res with
      | ok fs =>
        obtain rfl := ho fs rfl
        obtain ⟨i, h1, h2, h3⟩ := @ih
          { conn with reader := u, frameCount := conn.frameCount + fs.length } _ _ hr hpc
        refine ⟨i + 1, ?_, ?_, ?_⟩
        · rw [List.take_succ_cons, List.flatten_cons, ← List.append_assoc, ← h1, List.append_assoc]
          simp only [Connection.recvLoop, hr, if_true, Connection.decode, hf]
        · rw [List.take_succ_cons, List.flatten_cons, ← List.append_assoc]
          exact h2
        · rw [List.take_succ_cons, List.flatten_cons, ← List.append_assoc, List.length_cons, Nat.add_right_cancel_iff]
          exact h3
      | error e =>
        obtain ⟨hos, hv⟩ := FrameReader.new_drains hD
        refine ⟨0, ?_, ?_, .inr ?_⟩
        · simpa [Connection.recvLoop, hr, Connection.decode, hf] using hos
        · simpa using hv.not
        · simpa using (FrameReader.new_drains hpc).2.mp (by simp [FrameReader.thrown])

/-- `recvLoop` hands out all complete frames before a violation just if there is none, or a
    chunk ends after the last of them and before the end of the header that is not valid. -/
theorem recvLoop_hands_all_iff (max : Nat) (cs : List Bytes) :
    ((started max).recvLoop cs).1 = (complete max cs.flatten).1 ↔
      (Violates max cs.flatten → ∃ i, extent max cs.flatten ≤ (cs.take i).flatten.length ∧
        (cs.take i).flatten.length < extent max cs.flatten + kFrameHeaderSize) := by
  have hstart : Drains FrameReader.turn ((FrameReader.new max).push []) [] none (started max).reader := by
    rw [FrameReader.turn_stable.push_nil]
    exact .wait (FrameReader.new_waits max)
  obtain ⟨i, h1, h2, h3⟩ := recvLoop_spec cs rfl hstart
  simp only [List.nil_append] at h1 h2 h3
  have happ : ∀ j, (cs.take j).flatten ++ (cs.drop j).flatten = cs.flatten := by
    intro j
    rw [← List.flatten_append, List.take_append_drop]
  have hmono : ∀ a b, a ≤ b → (cs.take a).flatten.length ≤ (cs.take b).flatten.length :=
    fun a b h => List.IsPrefix.length_le (List.IsPrefix.flatten (List.take_prefix_take_left h))
  have hall := fun j => (complete_append max (cs.take j).flatten (cs.drop j).flatten).1
  have hbad := fun j => (complete_append max (cs.take j).flatten (cs.drop j).flatten).2
  simp only [happ] at hall hbad
  rw [h1, hall]
  constructor
  · intro hle hv
    refine ⟨i, hle, ?_⟩
    by_contra hlt
    exact h2 ((hbad i).mpr ⟨hv, Nat.not_lt.mp hlt⟩)
  · intro h
    by_cases hv : Violates max cs.flatten
    · obtain ⟨j, hj1, hj2⟩ := h hv
      rcases h3 with rfl | h3
      · rw [List.take_length] at h2
        exact absurd hv h2
      · -- the chunk in which the reader throws ends after the one that ends between
        have hn := ((hbad (i + 1)).mp h3).2
        have hji : j ≤ i := by
          by_contra hji
          have := hmono (i + 1) j (Nat.not_le.mp hji)
          omega
        have := hmono j i hji
        omega
    · rcases h3 with rfl | h3
      · rw [List.take_length]
        exact (hall cs.length |>.mp (by rw [List.take_length])).trans (by rw [List.take_length])
      · exact absurd ((hbad (i + 1)).mp h3).1 hv

/-- A PING and then twelve bytes that are no header: in one chunk the PING is lost. -/
theorem frames_lost :
    let ping := Frame.create .PING (str "{}")
    let bad := List.replicate kFrameHeaderSize 0
    ((started kMaxPayloadSize).recvLoop [ping.serialize ++ bad]).1 = [] ∧
      ((started kMaxPayloadSize).recvLoop [ping.serialize, bad]).1 = [ping] ∧
      (complete kMaxPayloadSize (ping.serialize ++ bad)).1 = [ping] := by
  decide +kernel

/-! ## Sending -/

/-- `sendAll(data)`, where the kernel takes `taken` bytes before it reports an error: what it
    returns, and the bytes it has put on the wire. -/
def sendAll (taken : Nat) (data : Bytes) : Bool × Bytes := (decide (data.length ≤ taken), data.take taken)

/-- `send(type, jsonPayload)`. -/
def Connection.send (conn : Connection) (taken : Nat) (type : MessageType) (payload : Bytes) : Bool × Bytes :=
  if conn.writable then sendAll taken (Frame.create type payload).serialize else (false, [])

/-- The bytes are one frame with this payload, and a peer's reader takes it. -/
def Accepted (payload bytes : Bytes) : Prop :=
  ∃ f u, (FrameReader.new kMaxPayloadSize).feed bytes = (.ok [f], u) ∧ u.state = .READING_HEADER ∧
    u.buffer = [] ∧ f.payload = payload

theorem frame_length (type : MessageType) (payload : Bytes) :
    (Frame.create type payload).serialize.length = kFrameHeaderSize + payload.length := by
  rw [Frame.serialize, List.length_append, header_serialize_length]
  rfl

/-- A peer takes what was sent just if all of it was, and the payload is no larger than the
    peer allows. -/
theorem accepted_iff (type : MessageType) (payload : Bytes) (taken : Nat) :
    Accepted payload ((Frame.create type payload).serialize.take taken) ↔
      kFrameHeaderSize + payload.length ≤ taken ∧ payload.length ≤ kMaxPayloadSize := by
  constructor
  · intro h
    obtain ⟨f, u, hf, hs, hb, rfl⟩ := h
    obtain ⟨os, hd, ho⟩ := FrameReader.feed_drains (FrameReader.new kMaxPayloadSize)
      ((Frame.create type f.payload).serialize.take taken)
    rw [hf] at hd ho
    obtain rfl := ho [f] rfl
    have hlen := congrArg List.length (FrameReader.drains_left hd rfl)
    have hpend : u.pending = [] := by simp only [FrameReader.pending, hs]
    have hleft : FrameReader.left ((FrameReader.new kMaxPayloadSize).push
        ((Frame.create type f.payload).serialize.take taken)) =
          retyped ((Frame.create type f.payload).serialize.take taken) := rfl
    rw [hleft, retyped_length, hb, hpend, List.length_take, frame_length] at hlen
    simp only [List.flatMap_cons, List.flatMap_nil, List.append_nil, Frame.serialize, List.length_append,
      header_serialize_length] at hlen
    refine ⟨by omega, ?_⟩
    exact complete_payload _ _ f (by rw [← (FrameReader.new_drains hd).1]; exact List.mem_cons_self)
  · intro h
    obtain ⟨ht, hm⟩ := h
    have hlt : payload.length < 2 ^ 32 := by
      rw [kMaxPayloadSize] at hm
      omega
    have hbuilt : FrameReader.Built kMaxPayloadSize (Frame.create type payload) := ⟨type, 0, payload, rfl, hm, hlt⟩
    rw [List.take_of_length_le (by rw [frame_length]; exact ht)]
    have hone : ∀ f ∈ [Frame.create type payload], FrameReader.Built kMaxPayloadSize f := by
      intro f hf
      rw [List.mem_singleton.mp hf]
      exact hbuilt
    obtain ⟨u, hd, hub, hus⟩ := FrameReader.drains_frames hone
      (r := (FrameReader.new kMaxPayloadSize).push (Frame.create type payload).serialize) rfl rfl
      (by simp [FrameReader.new])
    obtain ⟨os, hd', ho⟩ := FrameReader.feed_drains (FrameReader.new kMaxPayloadSize)
      (Frame.create type payload).serialize
    obtain ⟨rfl, he, hu⟩ := hd'.unique hd
    cases hf : (FrameReader.new kMaxPayloadSize).feed (Frame.create type payload).serialize with
    | mk res v =>
      rw [hf] at he ho hu
      cases res with
      | ok fs =>
        obtain rfl := ho fs rfl
        obtain rfl : v = u := hu
        exact ⟨_, v, hf, hus, hub, rfl⟩
      | error e => cases he

end LanTalk.Network
