/-
  LanTalk.Network.Reset — a `FrameReader` after a protocol violation, and after `reset`
  (`src/network/protocol.cpp`).

  A throw leaves the bytes it was thrown at in `buffer_`, and `pendingHeader_` may be that of
  a refused frame; `reset` clears the buffer and the state, and leaves `pendingHeader_`. A
  reader that expects a header does not look at it.

  Proved, from every state that calls of `feed` and `reset` leave: `failed_until_reset`, a
  reader that threw throws at every later call, and a reader that was reset is a fresh one to
  all calls that follow.
-/

import LanTalk.Network.ProtocolProofs

namespace LanTalk.Network.FrameReader

open LanTalk.Lib LanTalk.Lib.Reader

/-! ## Calls that may throw -/

/-- The calls of `feed` on chunks, in order, going on after one that throws. -/
def feeds (r : FrameReader) : List Bytes → List (Except String (List Frame))
  | [] => []
  | c :: cs => (r.feed c).1 :: (r.feed c).2.feeds cs

inductive ReaderCall where
  | feed (data : Bytes)
  | reset
  deriving DecidableEq, Repr

def call (r : FrameReader) : ReaderCall → FrameReader
  | .feed data => (r.feed data).2
  | .reset => r.reset

/-- What calls leave of a reader. -/
def calls (r : FrameReader) (ks : List ReaderCall) : FrameReader := ks.foldl call r

/-- What a call returns or throws. -/
def outcome (fs : List Frame) : Option String → Except String (List Frame)
  | none => .ok fs
  | some e => .error e

/-- A call does what the library's `Drains` says. -/
theorem feed_of_drains {r u : FrameReader} {c : Bytes} {os : List Frame} {e : Option String}
    (h : Drains turn (r.push c) os e u) : r.feed c = (outcome os e, u) := by
  obtain ⟨os', hd, ho⟩ := feed_drains r c
  obtain ⟨hos, he, hu⟩ := h.unique hd
  refine Prod.ext ?_ hu.symm
  rw [he, hos]
  cases hf : (r.feed c).1 with
  | ok fs => rw [ho fs hf]; rfl
  | error e => rfl

/-! ## After a throw -/

/-- The two ways a turn throws. -/
theorem turn_fail {r r' : FrameReader} {e : String} (h : r.turn = .fail e r') :
    r.state = .READING_HEADER ∧ ¬ r.buffer.length < kFrameHeaderSize ∧
      (FrameHeader.deserialize (r.buffer.take kFrameHeaderSize) = none ∧ e = invalidHeader ∧ r' = r ∨
        ∃ hdr, FrameHeader.deserialize (r.buffer.take kFrameHeaderSize) = some hdr ∧
          r.maxPayloadSize < hdr.payloadLength.toNat ∧ e = tooLarge ∧ r' = { r with pendingHeader := hdr }) := by
  unfold turn at h
  cases hs : r.state with
  | READING_HEADER =>
    simp only [hs] at h
    split at h
    · cases h
    rename_i hl
    refine ⟨rfl, hl, ?_⟩
    split at h
    · rename_i hd
      cases h
      exact Or.inl ⟨hd, rfl, rfl⟩
    · rename_i hdr hd
      split at h
      · rename_i hm
        cases h
        exact Or.inr ⟨hdr, hd, hm, rfl, rfl⟩
      · cases h
  | READING_PAYLOAD =>
    simp only [hs] at h
    split at h <;> cases h

/-- A turn that threw throws again: the header it threw at is still there. -/
theorem turn_again {r r' : FrameReader} {e : String} (h : r.turn = .fail e r') : r'.turn = .fail e r' := by
  obtain ⟨hs, hl, ⟨hd, rfl, rfl⟩ | ⟨hdr, hd, hm, rfl, rfl⟩⟩ := turn_fail h
  · exact h
  · simp only [turn, hs, if_neg hl, hd, if_pos hm]

theorem feed_again {r : FrameReader} {c : Bytes} {e : String} (h : (r.feed c).1 = .error e) (c' : Bytes) :
    (r.feed c).2.feed c' = (.error e, (r.feed c).2.push c') := by
  obtain ⟨os, hd, -⟩ := feed_drains r c
  rw [h] at hd
  exact feed_of_drains (hd.again turn_stable turn_again c')

/-- Every call after one that threw throws the same. -/
theorem feeds_again (cs : List Bytes) : ∀ {r : FrameReader} {c : Bytes} {e : String}, (r.feed c).1 = .error e →
    ∀ o ∈ (r.feed c).2.feeds cs, o = .error e := by
  induction cs with
  | nil => exact fun _ o ho => (by cases ho)
  | cons c' cs ih =>
    intro r c e h o ho
    have hc := feed_again h c'
    rcases List.mem_cons.mp ho with rfl | ho
    · rw [hc]
    · exact ih (congrArg Prod.fst hc) o ho

/-! ## After a reset -/

/-- Two readers that differ in a pending header that neither will look at. -/
structure Alike (r r' : FrameReader) : Prop where
  state : r.state = r'.state
  buffer : r.buffer = r'.buffer
  maxPayloadSize : r.maxPayloadSize = r'.maxPayloadSize
  pending : r.state = .READING_PAYLOAD → r.pendingHeader = r'.pendingHeader

theorem Alike.push {r r' : FrameReader} (h : Alike r r') (c : Bytes) : Alike (r.push c) (r'.push c) :=
  ⟨h.state, congrArg (· ++ c) h.buffer, h.maxPayloadSize, h.pending⟩

theorem Alike.turn {r r' : FrameReader} (h : Alike r r') : Next.Related Alike r.turn r'.turn := by
  obtain ⟨state, buffer, pendingHeader, max⟩ := r
  obtain ⟨state', buffer', pendingHeader', max'⟩ := r'
  obtain ⟨rfl, rfl, rfl, hp⟩ := h
  cases state with
  | READING_HEADER =>
    simp only [FrameReader.turn]
    split
    · exact .wait
    split
    · exact .fail _ ⟨rfl, rfl, rfl, hp⟩
    split
    · exact .fail _ ⟨rfl, rfl, rfl, fun _ => rfl⟩
    · exact .go _ ⟨rfl, rfl, rfl, fun _ => rfl⟩
  | READING_PAYLOAD =>
    obtain rfl : pendingHeader = pendingHeader' := hp rfl
    simp only [FrameReader.turn]
    split
    · exact .wait
    · exact .go _ ⟨rfl, rfl, rfl, fun _ => rfl⟩

theorem Alike.feed {r r' : FrameReader} (h : Alike r r') (c : Bytes) :
    (r.feed c).1 = (r'.feed c).1 ∧ Alike (r.feed c).2 (r'.feed c).2 := by
  obtain ⟨os, hd, -⟩ := feed_drains r c
  obtain ⟨u', hu, hd'⟩ := hd.sim Alike.turn (h.push c)
  have hout := congrArg Prod.fst (feed_of_drains hd)
  rw [feed_of_drains hd']
  exact ⟨hout, hu⟩

theorem Alike.feeds (cs : List Bytes) : ∀ {r r' : FrameReader}, Alike r r' → r.feeds cs = r'.feeds cs := by
  induction cs with
  | nil => exact fun _ => rfl
  | cons c cs ih =>
    intro r r' h
    obtain ⟨hout, hnext⟩ := h.feed c
    rw [FrameReader.feeds, FrameReader.feeds, hout, ih hnext]

/-! ## The two together -/

theorem feed_maxPayloadSize (r : FrameReader) (c : Bytes) : (r.feed c).2.maxPayloadSize = r.maxPayloadSize := by
  have hloop : ∀ (r : FrameReader) (done : List Frame), (loop r done).2.maxPayloadSize = r.maxPayloadSize := by
    intro r done
    induction r, done using loop.induct with
    | case1 r done h => rw [loop_wait h]
    | case2 r done e r' h =>
      rw [loop_fail h]
      obtain ⟨-, -, ⟨-, -, rfl⟩ | ⟨hdr, -, -, -, rfl⟩⟩ := turn_fail h
      all_goals rfl
    | case3 r done r' o h ih =>
      rw [loop_go h, ih]
      rcases turn_go h with ⟨-, -, -, hmax, -⟩ | ⟨-, -, hmax, -⟩
      · exact hmax
      · exact hmax
  exact hloop (r.push c) []

theorem calls_maxPayloadSize (ks : List ReaderCall) : ∀ r : FrameReader,
    (r.calls ks).maxPayloadSize = r.maxPayloadSize := by
  induction ks with
  | nil => exact fun _ => rfl
  | cons k ks ih =>
    intro r
    have hk : (r.call k).maxPayloadSize = r.maxPayloadSize := by
      cases k with
      | feed data => exact feed_maxPayloadSize r data
      | reset => rfl
    exact (ih (r.call k)).trans hk

/-- After any calls: once a call throws, all that follow it throw; and a reset makes of the
    reader, whatever it was in the middle of, what it was at first. -/
theorem failed_until_reset (max : Nat) (ks : List ReaderCall) :
    let r := (new max).calls ks
    (∀ c e, (r.feed c).1 = .error e → ∀ cs, ∀ o ∈ (r.feed c).2.feeds cs, o = .error e) ∧
      ∀ cs, r.reset.feeds cs = (new max).feeds cs := by
  intro r
  have hmax : r.maxPayloadSize = max := calls_maxPayloadSize ks (new max)
  have hnew : Alike r.reset (new max) := ⟨rfl, rfl, hmax, fun h => by cases h⟩
  exact ⟨fun c e h cs => feeds_again cs h, fun cs => hnew.feeds cs⟩

end LanTalk.Network.FrameReader
