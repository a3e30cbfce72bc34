/-
  LanTalk.Chat.ByteLink — the joined sessions of `LanTalk.Chat.Handshake` with the bytes
  between them. What a side has written is the bytes of its frames; the receive thread of
  the other takes them as TCP cuts them (`recv`), decodes them, and hands the frames out one
  at a time (`next`), while the other threads of its side go on.

  `recvLoop`'s reader and frame count are kept beside the session (`conn`), as no other
  thread touches them. Neither side closes its socket but through `disconnect`, and a send
  takes all its bytes at once.

  Proved, for frames within the reader's limit, a rate limit that does not strike and no ping
  sweep between an insert and its `start` (`Undisturbed`):
  - `bytes_refine_frames`: every state reached here is one that is reached where whole frames
    are handed over; what is decoded and not handed out yet is the other side's next frames.
  - `frames_refine_bytes`: nothing is lost by it: what whole frames lead to, their bytes lead to;
    `Linked.follow`, from any state that the bytes have come to.
-/

import LanTalk.Chat.Agreement
import LanTalk.Network.ProtocolProofs

namespace LanTalk.Chat.Handshake

open LanTalk.Lib LanTalk.Lib.Reader LanTalk.Network LanTalk.Config

/-! ## Two ends -/

/-- What the receive thread has to do before it calls `recv` again. -/
inductive Turn where
  | hand (f : Frame)
  /-- The check of the frame count, once a second has passed. -/
  | limit
  | refuse (reason : Bytes)
  deriving DecidableEq

structure End where
  side : Side := {}
  conn : Connection := {}
  /-- How many of the other side's bytes `recv` has returned. -/
  taken : Nat := 0
  todo : List Turn := []

inductive LinkMove where
  /-- A step of a thread other than the receive thread. -/
  | own (m : Move)
  /-- `recv` returns up to `n` bytes; `elapsed` when a second has passed since the last check. -/
  | recv (n : Nat) (elapsed : Bool)
  | next

/-- The bytes of frames, one after the other. -/
def wire (fs : List Frame) : Bytes := (fs.map Frame.serialize).flatten

/-- `recvLoop`'s buffer. -/
def recvSize : Nat := 4096

section
variable (config : AppConfig) (c : ConnId)

def End.chunk (e : End) (bytes : Bytes) (n : Nat) : Bytes := (bytes.drop e.taken).take (min n recvSize)

def End.receive (e : End) (data : Bytes) (elapsed : Bool) : End :=
  let r := e.conn.decode data
  { e with conn := r.2, taken := e.taken + data.length
           todo := match r.1 with
             | .ok frames => frames.map .hand ++ if elapsed then [.limit] else []
             | .error reason => [.refuse reason] }

/-- `recvLoop` disconnects. -/
def End.hangUp (e : End) (reason : Bytes) : End :=
  let r := e.side.s.disconnect (fun _ _ => true) c 0 reason
  { e with side := { e.side with s := r.1, sent := e.side.sent ++ reaching 0 r.2 } }

def End.next (e : End) : Option End :=
  match e.todo with
  | [] => none
  | .hand f :: rest => some { e with side := e.side.handle config c f, todo := rest }
  | .limit :: rest =>
    if 100 < e.conn.frameCount then some { e.hangUp c rateLimitExceeded with todo := rest }
    else some { e with conn := { e.conn with frameCount := 0 }, todo := rest }
  | .refuse reason :: rest => some { e.hangUp c reason with todo := rest }

/-- What an end does next, `bytes` being all that the other has written. -/
def End.move (e : End) (bytes : Bytes) : LinkMove → Option End
  | .own m => (e.side.move config c [] m).map fun d => { e with side := d }
  | .recv n elapsed =>
    if (e.side.s.objs 0).running = true ∧ e.todo = [] ∧ e.chunk bytes n ≠ [] then
      some (e.receive (e.chunk bytes n) elapsed)
    else none
  | .next => e.next config c

end

section
variable (config : Party → AppConfig) (c : Party → ConnId)

def linkStep (Q : Party → End) (l : Party × LinkMove) : Option (Party → End) :=
  ((Q l.1).move (config l.1) (c l.1) (wire (Q l.1.other).side.sent) l.2).map (Function.update Q l.1)

/-- The ends without their bytes. -/
def sides (Q : Party → End) : Party → Side := fun x => (Q x).side

/-- No check finds more than a hundred frames, and no ping sweep comes between the insert of
    `addConnection` and its `start`. -/
def Undisturbed (Q : Party → End) : Party × LinkMove → Prop
  | (x, .own m) => Calm (sides Q) (x, m)
  | (x, .recv n true) =>
    ((Q x).receive ((Q x).chunk (wire (Q x.other).side.sent) n) true).conn.frameCount ≤ 100
  | _ => True

instance (Q : Party → End) : ∀ l, Decidable (Undisturbed Q l)
  | (x, .own m) => inferInstanceAs (Decidable (Calm (sides Q) (x, m)))
  | (_, .recv _ true) => Nat.decLe _ _
  | (_, .recv _ false) | (_, .next) => isTrue trivial

/-- The steps in which a thread other than a receive thread does only what `moves` lets through. -/
def Only (moves : (Party → Side) → Party × Move → Prop) (Q : Party → End) (l : Party × LinkMove) : Prop :=
  Undisturbed Q l ∧ ∀ m, l.2 = .own m → moves (sides Q) (l.1, m)

def LinkReachable : (Party → End) → Prop := Machine.Reach (linkStep config c) Undisturbed fun _ => {}

end

/-- The frames that were written are within the readers' limit. -/
def Fits (Q : Party → End) : Prop := ∀ x, ∀ f ∈ (Q x).side.sent, f.payload.length ≤ kMaxPayloadSize

/-! ## What the receive thread holds -/

/-- The receive thread has taken a part of the other side's bytes: `inbox` are the frames
    written, `k` of them are decoded and not handed out yet. -/
structure Synced (e : End) (inbox : List Frame) (k : Nat) : Prop where
  taken_le : e.taken ≤ (wire inbox).length
  decoded_le : e.side.got + k ≤ inbox.length
  todo : ∃ checks, e.todo = ((inbox.drop e.side.got).take k).map .hand ++ checks ∧
    (checks = [] ∨ checks = [.limit] ∧ e.conn.frameCount ≤ 100)
  reader : Drains FrameReader.turn ((FrameReader.new kMaxPayloadSize).push ((wire inbox).take e.taken))
    (inbox.take (e.side.got + k)) none e.conn.reader
  up : e.todo ≠ [] → (e.side.s.objs 0).running = true

theorem wire_append (fs gs : List Frame) : wire (fs ++ gs) = wire fs ++ wire gs := by
  rw [wire, List.map_append, List.flatten_append, wire, wire]

section
variable {e : End} {inbox : List Frame} {k : Nat}

theorem synced_init : Synced {} [] 0 where
  taken_le := Nat.le_refl _
  decoded_le := Nat.le_refl _
  todo := ⟨[], rfl, .inl rfl⟩
  reader := .wait rfl
  up := fun h => absurd rfl h

/-- What the other side writes later is taken later. -/
theorem Synced.grow (h : Synced e inbox k) (new : List Frame) : Synced e (inbox ++ new) k where
  taken_le := by
    rw [wire_append, List.length_append]
    exact Nat.le_add_right_of_le h.taken_le
  decoded_le := by
    rw [List.length_append]
    exact Nat.le_add_right_of_le h.decoded_le
  todo := by
    obtain ⟨checks, ht, hc⟩ := h.todo
    refine ⟨checks, ?_, hc⟩
    have hle := h.decoded_le
    rw [ht, List.drop_append_of_le_length (by omega), List.take_append_of_le_length (by rw [List.length_drop]; omega)]
  reader := by
    rw [wire_append, List.take_append_of_le_length h.taken_le, List.take_append_of_le_length h.decoded_le]
    exact h.reader
  up := h.up

/-- A thread that is done with its frames has handed out all it decoded. -/
theorem Synced.idle (h : Synced e inbox k) (hd : e.todo = []) : k = 0 := by
  obtain ⟨checks, ht, -⟩ := h.todo
  have hle := h.decoded_le
  rw [hd] at ht
  have hlen := congrArg List.length ht
  rw [List.length_append, List.length_map, List.length_take, List.length_drop, List.length_nil] at hlen
  omega

/-- Other threads of its side leave the receive thread alone. -/
theorem Synced.own (h : Synced e inbox k) {d : Side} (hg : d.got = e.side.got)
    (hr : (e.side.s.objs 0).running = true → (d.s.objs 0).running = true) :
    Synced { e with side := d } inbox k where
  taken_le := h.taken_le
  decoded_le := hg ▸ h.decoded_le
  todo := hg ▸ h.todo
  reader := hg ▸ h.reader
  up := fun hn => hr (h.up hn)

/-- All that was written is decoded whole. -/
theorem wire_drains (hfit : ∀ f ∈ inbox, FrameReader.Built kMaxPayloadSize f) :
    ∃ u, Drains FrameReader.turn ((FrameReader.new kMaxPayloadSize).push (wire inbox)) inbox none u := by
  obtain ⟨u, hd, -⟩ := FrameReader.drains_frames hfit
    (r := (FrameReader.new kMaxPayloadSize).push (wire inbox)) rfl rfl rfl
  exact ⟨u, hd⟩

/-- Bytes that are taken next are decoded to the frames that were written next. -/
theorem feed_next (hfit : ∀ f ∈ inbox, FrameReader.Built kMaxPayloadSize f) {p data q : Bytes}
    (hwire : wire inbox = p ++ data ++ q) {got : Nat} (hgot : got ≤ inbox.length) {r : FrameReader}
    (h : Drains FrameReader.turn ((FrameReader.new kMaxPayloadSize).push p) (inbox.take got) none r) :
    ∃ k r', r.feed data = (.ok ((inbox.drop got).take k), r') ∧ got + k ≤ inbox.length ∧
      Drains FrameReader.turn ((FrameReader.new kMaxPayloadSize).push (p ++ data)) (inbox.take (got + k)) none r' := by
  obtain ⟨os, hd, hos⟩ := FrameReader.feed_drains r data
  have hall := h.push_ok FrameReader.turn_stable rfl hd
  rw [FrameReader.turn_stable.push_push] at hall
  -- what is decoded by now is the start of what all the bytes decode to
  obtain ⟨u, hwhole⟩ := wire_drains hfit
  rw [hwire, ← FrameReader.turn_stable.push_push] at hwhole
  obtain ⟨hok, hpre⟩ := hall.part FrameReader.turn_stable hwhole
  have hlen : (inbox.take got).length = got := List.length_take_of_le hgot
  have hcount : got + os.length ≤ inbox.length := by
    have hle := hpre.length_le
    rwa [List.length_append, hlen] at hle
  have hnext : inbox.take got ++ os = inbox.take (got + os.length) := by
    rw [List.prefix_iff_eq_take.mp hpre, List.length_append, hlen]
  have hdrop : (inbox.drop got).take os.length = os := by
    rw [List.take_add] at hnext
    exact (List.append_cancel_left hnext).symm
  cases hfeed : r.feed data with
  | mk out r' =>
    rw [hfeed] at hok hall hos
    cases out with
    | error reason => cases hok
    | ok frames =>
      refine ⟨os.length, r', by rw [hdrop, hos frames rfl], hcount, ?_⟩
      rw [← hnext]
      exact hall

theorem Synced.receive (h : Synced e inbox k) (hd : e.todo = [])
    (hfit : ∀ f ∈ inbox, FrameReader.Built kMaxPayloadSize f) (hup : (e.side.s.objs 0).running = true) (n : Nat)
    {elapsed : Bool} (hcalm : elapsed = true → (e.receive (e.chunk (wire inbox) n) elapsed).conn.frameCount ≤ 100) :
    ∃ k', Synced (e.receive (e.chunk (wire inbox) n) elapsed) inbox k' := by
  have hk := h.idle hd
  subst hk
  generalize hdata : e.chunk (wire inbox) n = data at hcalm
  have hpre : data = ((wire inbox).drop e.taken).take data.length := by
    rw [← hdata, End.chunk, List.take_eq_take_iff]
    simp
  have hwire : wire inbox = (wire inbox).take e.taken ++ data ++ (wire inbox).drop (e.taken + data.length) := by
    rw [hpre, ← List.take_add, ← hpre, List.take_append_drop]
  obtain ⟨k', r, hfeed, hcount, hdr⟩ := feed_next hfit hwire h.decoded_le h.reader
  have hrec : e.receive data elapsed =
      { e with conn := { e.conn with reader := r
                                     frameCount := e.conn.frameCount + ((inbox.drop e.side.got).take k').length }
               taken := e.taken + data.length
               todo := ((inbox.drop e.side.got).take k').map .hand ++ if elapsed then [.limit] else [] } := by
    simp only [End.receive, Connection.decode, Nat.add_zero] at hfeed ⊢
    rw [hfeed]
  rw [hrec] at hcalm ⊢
  refine ⟨k', ?_, hcount, ⟨_, rfl, ?_⟩, ?_, fun _ => hup⟩
  · have hle := congrArg List.length hwire
    simp only [List.length_append, List.length_take, List.length_drop] at hle
    have := h.taken_le
    show e.taken + data.length ≤ _
    omega
  · cases elapsed with
    | true => exact .inr ⟨rfl, hcalm rfl⟩
    | false => exact .inl rfl
  · have htake : (wire inbox).take (e.taken + data.length) = (wire inbox).take e.taken ++ data := by
      rw [List.take_add, ← hpre]
    rw [htake]
    exact hdr

/-- A thread that has taken all that was written has decoded all of it. -/
theorem Synced.all_decoded (h : Synced e inbox k) (hfit : ∀ f ∈ inbox, FrameReader.Built kMaxPayloadSize f)
    (hall : (wire inbox).length ≤ e.taken) : e.side.got + k = inbox.length := by
  have hdr := h.reader
  rw [List.take_of_length_le hall] at hdr
  obtain ⟨u, hwhole⟩ := wire_drains hfit
  have hsame := congrArg List.length (hdr.unique hwhole).1
  rwa [List.length_take_of_le h.decoded_le] at hsame

/-- While bytes are left, `recv` returns some. -/
theorem chunk_ne_nil {bytes : Bytes} (h : e.taken < bytes.length) : e.chunk bytes recvSize ≠ [] := by
  have hlen : (e.chunk bytes recvSize).length ≠ 0 := by
    rw [End.chunk, List.length_take, List.length_drop, Nat.min_self]
    have : 0 < recvSize := by decide
    omega
  exact fun hn => hlen (by rw [hn, List.length_nil])

/-- The next turn hands out the next frame, or is a check that passes. -/
theorem Synced.next {config : AppConfig} {c : ConnId} (h : Synced e inbox k)
    (hrun : ∀ f, inbox[e.side.got]? = some f → (e.side.s.objs 0).running = true →
      ((e.side.handle config c f).s.objs 0).running = true) {e' : End} (hn : e.next config c = some e') :
    (e'.side = e.side ∨ ∃ f, inbox[e.side.got]? = some f ∧ (e.side.s.objs 0).running = true ∧
      e'.side = e.side.handle config c f) ∧ ∃ k', Synced e' inbox k' := by
  obtain ⟨checks, ht, hc⟩ := h.todo
  have hup : (e.side.s.objs 0).running = true := h.up fun hnil => by
    rw [End.next, hnil] at hn
    cases hn
  cases k with
  | zero =>
    rw [List.take_zero, List.map_nil, List.nil_append] at ht
    rcases hc with rfl | ⟨rfl, hcalm⟩
    · rw [End.next, ht] at hn
      cases hn
    · simp only [End.next, ht] at hn
      rw [if_neg (Nat.not_lt.mpr hcalm)] at hn
      cases hn
      exact ⟨.inl rfl, 0, h.taken_le, h.decoded_le, ⟨[], rfl, .inl rfl⟩, h.reader, fun hne => absurd rfl hne⟩
  | succ k =>
    have hle := h.decoded_le
    have hlt : e.side.got < inbox.length := by omega
    have hget := List.getElem?_eq_getElem hlt
    rw [List.drop_eq_getElem_cons hlt, List.take_succ_cons, List.map_cons, List.cons_append] at ht
    simp only [End.next, ht] at hn
    cases hn
    refine ⟨.inr ⟨_, hget, hup, rfl⟩, k, h.taken_le, ?_, ⟨checks, rfl, hc⟩, ?_, fun _ => hrun _ hget hup⟩
    · show e.side.got + 1 + k ≤ _
      omega
    · have hcount : e.side.got + 1 + k = e.side.got + (k + 1) := by omega
      show Drains _ _ (inbox.take (e.side.got + 1 + k)) _ _
      rw [hcount]
      exact h.reader

end

/-! ## Steps -/

section
variable {config : Party → AppConfig} {c : Party → ConnId}

/-- A connection that is up stays up. -/
theorem Half.stays_up {config : AppConfig} {c : ConnId} {peerId : Bytes} {d d' : Side} {inbox : List Frame} {m : Move}
    (hI : Half config c peerId d inbox) (hI' : Half config c peerId d' inbox)
    (hm : d.move config c inbox m = some d') (hr : (d.s.objs 0).running = true) : (d'.s.objs 0).running = true := by
  apply hI'.running.mpr
  cases m with
  | add =>
    simp only [Side.move] at hm
    rcases hI.running.mp hr with h | h
    · rw [h] at hm
      cases hm
      exact .inr rfl
    · rw [h] at hm
      cases hm
  | deliver =>
    simp only [Side.move, if_pos hr] at hm
    obtain ⟨f, -, rfl⟩ := Option.map_eq_some_iff.mp hm
    exact hI.running.mp hr
  | resume i =>
    simp only [Side.move] at hm
    split at hm <;> cases hm
    exact hI.running.mp hr
  | _ => cases hm; exact hI.running.mp hr

/-- What a side does of its own does not depend on what the other has written. -/
theorem own_move {config : AppConfig} {c : ConnId} {d d' : Side} {m : Move} (h : d.move config c [] m = some d')
    (inbox : List Frame) : d.move config c inbox m = some d' ∧ d'.got = d.got := by
  cases m with
  | deliver =>
    simp only [Side.move, List.getElem?_nil, Option.map_none, ite_self] at h
    cases h
  | add =>
    refine ⟨h, ?_⟩
    simp only [Side.move] at h
    split at h <;> cases h
    rfl
  | resume i =>
    refine ⟨h, ?_⟩
    simp only [Side.move] at h
    split at h <;> cases h
    rfl
  | _ => exact ⟨h, by cases h; rfl⟩

/-- What the ends hold: the sides are reached where whole frames are handed over, and each
    receive thread is in step with what the other has written. -/
structure Linked (config : Party → AppConfig) (c : Party → ConnId) (Q : Party → End) : Prop where
  reached : Reachable config c (sides Q)
  synced : ∀ x, ∃ k, Synced (Q x) (Q x.other).side.sent k

theorem linked_init : Linked config c fun _ => {} := ⟨.init, fun _ => ⟨0, synced_init⟩⟩

/-- A side after one of its moves, with the other as it was. -/
theorem sides_update (Q : Party → End) (x : Party) (e : End) :
    sides (Function.update Q x e) = Function.update (sides Q) x e.side := by
  funext y
  by_cases hy : y = x
  · subst hy
    simp only [sides, Function.update_self]
  · simp only [sides, Function.update_of_ne hy]

/-- An end whose receive thread stays in step keeps the two linked, if its side has made a move
    or none. -/
theorem Linked.update {Q : Party → End} (hL : Linked config c Q) {x : Party} {e : End}
    (hmove : e.side = (Q x).side ∨ ∃ m, Calm (sides Q) (x, m) ∧
      (Q x).side.move (config x) (c x) (Q x.other).side.sent m = some e.side)
    (hsync : ∃ k, Synced e (Q x.other).side.sent k) : Linked config c (Function.update Q x e) := by
  constructor
  · rw [sides_update]
    rcases hmove with h | ⟨m, hcalm, h⟩
    · have hsame : Function.update (sides Q) x e.side = sides Q := by
        rw [h]
        exact Function.update_eq_self x _
      rw [hsame]
      exact hL.reached
    · refine hL.reached.step (l := (x, m)) hcalm ?_
      show ((Q x).side.move (config x) (c x) (Q x.other).side.sent m).map _ = _
      rw [h]
      rfl
  · intro y
    by_cases hy : y = x
    · subst hy
      rw [Function.update_self, Function.update_of_ne (Party.ne_other y)]
      exact hsync
    · have hyx : y.other = x := by cases y <;> cases x <;> first | rfl | exact absurd rfl hy
      rw [Function.update_of_ne hy, hyx, Function.update_self]
      obtain ⟨k, hk⟩ := hL.synced y
      rw [hyx] at hk
      rcases hmove with h | ⟨m, -, h⟩
      · rw [h]
        exact ⟨k, hk⟩
      · obtain ⟨new, hnew⟩ := move_sent h
        rw [hnew]
        exact ⟨k, hk.grow new⟩

/-! ## What is written -/

/-- A frame that `Frame::create` made. -/
def Made (f : Frame) : Prop := ∃ type payload, f = Frame.create type payload

theorem Made.built {f : Frame} (h : Made f) (hlen : f.payload.length ≤ kMaxPayloadSize) :
    FrameReader.Built kMaxPayloadSize f := by
  obtain ⟨type, payload, rfl⟩ := h
  have hmax : kMaxPayloadSize < 2 ^ 32 := by decide
  exact ⟨type, 0, payload, rfl, hlen, lt_of_le_of_lt hlen hmax⟩

theorem answers_made (config : AppConfig) (f : Frame) : ∀ g ∈ answers config f, Made g := by
  intro g hg
  unfold answers at hg
  split at hg
  · split at hg
    · exact ⟨_, _, List.mem_singleton.mp hg⟩
    · cases hg
  all_goals first | exact ⟨_, _, List.mem_singleton.mp hg⟩ | cases hg

/-- What a piece other than a frame or a callback writes. -/
theorem exec_made {config : AppConfig} {ids : Handle → ConnId} {net : Handle → Frame → Bool} {s : Session} {a : Act}
    (hf : ∀ c f, a ≠ .frame c f) (he : ∀ o, a ≠ .emit o) : ∀ f ∈ reaching 0 (exec config ids net s a).out, Made f := by
  intro f hm
  obtain ⟨k, hk⟩ := reaching_mem hm
  have hs := mem_exec_out config ids net hk
  cases a with
  | frame c g => exact absurd rfl (hf c g)
  | emit o => exact absurd rfl (he o)
  | sendHello h c => obtain ⟨h', ok, e⟩ := hs; cases e; exact ⟨_, _, rfl⟩
  | chat c h json => obtain ⟨ok, e⟩ := hs; cases e; exact ⟨_, _, rfl⟩
  | broadcast json => obtain ⟨c, h, ok, e, -⟩ := hs; cases e; exact ⟨_, _, rfl⟩
  | sweep => obtain ⟨c, h, ok, e⟩ := hs; cases e; exact ⟨_, _, rfl⟩
  | stopAll =>
    obtain ⟨c, h, e | ⟨ok, e⟩⟩ := hs
    · cases e
    · cases e; exact ⟨_, _, rfl⟩
  | register h => cases hs
  | _ => exact hs.elim

/-- What a move other than a frame comes to: a piece, neither a frame nor a callback. -/
structure Pieced (config : AppConfig) (c : ConnId) (d d' : Side) (a : Act) : Prop where
  no_frame : ∀ k f, a ≠ .frame k f
  no_emit : ∀ o, a ≠ .emit o
  got : d'.got = d.got
  s : d'.s = (exec config (fun _ => c) (fun _ _ => true) d.s a).s
  sent : d'.sent = d.sent ++ reaching 0 (exec config (fun _ => c) (fun _ _ => true) d.s a).out
  log : d'.log = d.log ++ (exec config (fun _ => c) (fun _ _ => true) d.s a).out

theorem Half.pieced {config : AppConfig} {c : ConnId} {peerId : Bytes} {d d' : Side} {inbox : List Frame} {m : Move}
    (hI : Half config c peerId d inbox) (hm : m ≠ .deliver) (h : d.move config c inbox m = some d') :
    ∃ a, Pieced config c d d' a := by
  cases m with
  | deliver => exact absurd rfl hm
  | add =>
    simp only [Side.move] at h
    split at h
    · cases h
    · rename_i a rest hd
      cases h
      have hadd := hI.adding
      rw [hd] at hadd
      refine ⟨a, ?_, ?_, rfl, rfl, rfl, rfl⟩
      all_goals
        intros
        rcases hadd with e | e | e | e <;> cases e <;> exact fun e => by cases e
  | resume i =>
    simp only [Side.move] at h
    split at h <;> cases h
    rename_i a ha
    obtain ⟨msgId, timestampUtc, text, rfl⟩ := hI.pending a (List.mem_of_getElem? ha)
    refine ⟨_, ?_, ?_, rfl, rfl, rfl, rfl⟩ <;> intros <;> exact fun e => by cases e
  | _ =>
    cases h
    refine ⟨_, ?_, ?_, rfl, rfl, rfl, rfl⟩ <;> intros <;> exact fun e => by cases e

/-- What handing over a frame comes to. -/
theorem Halves.delivered {P : Party → Side} (hC : Compatible config) (hI : Halves config c P) {x : Party}
    {d' : Side} (h : (P x).move (config x) (c x) (P x.other).sent .deliver = some d') :
    ∃ f, (P x.other).sent[(P x).got]? = some f ∧ Configured (config x.other) f ∧
      d' = { P x with s := { (P x).s with peers := peersAfter (config x) (P x).s (c x) f }
                      sent := (P x).sent ++ answers (config x) f
                      got := (P x).got + 1
                      log := (P x).log ++ (answers (config x) f).map (fun f' => .sent (c x) 0 f' true) ++
                        callbacks (config x) (P x).s (c x) f } := by
  simp only [Side.move] at h
  split at h
  · rename_i hr
    obtain ⟨f, hf, rfl⟩ := Option.map_eq_some_iff.mp h
    obtain ⟨hc, hw⟩ := (hI x).up hr
    have hconf := (hI.mirror x).configured f (List.mem_of_getElem? hf)
    refine ⟨f, hf, hconf, ?_⟩
    simp only [Side.handle, onFrame_up (config x) hc hw ((hC.paired x).closes hconf (P x).s), reaching_sent]
  · cases h

/-- A side writes frames that `Frame::create` made. -/
theorem move_made {P : Party → Side} (hC : Compatible config) (hI : Halves config c P) {x : Party} {m : Move}
    {d' : Side} (hP : ∀ f ∈ (P x).sent, Made f)
    (h : (P x).move (config x) (c x) (P x.other).sent m = some d') : ∀ f ∈ d'.sent, Made f := by
  intro g hg
  by_cases hm : m = .deliver
  · subst hm
    obtain ⟨f, -, -, rfl⟩ := hI.delivered hC h
    exact (List.mem_append.mp hg).elim (hP g) (answers_made (config x) f g)
  · obtain ⟨a, ha⟩ := (hI x).pieced hm h
    rw [ha.sent] at hg
    exact (List.mem_append.mp hg).elim (hP g) (exec_made ha.no_frame ha.no_emit g)

theorem Reachable.made (hC : Compatible config) {P : Party → Side} (h : Reachable config c P) :
    ∀ x, ∀ f ∈ (P x).sent, Made f := by
  induction h with
  | init => exact fun x f hf => by cases hf
  | @step P P' l hr _ hs ih =>
    obtain ⟨y, m⟩ := l
    obtain ⟨d', hd, rfl⟩ := Option.map_eq_some_iff.mp hs
    intro x
    by_cases hx : x = y
    · subst hx
      rw [Function.update_self]
      exact move_made hC (Reachable.halves hC hr) (ih x) hd
    · rw [Function.update_of_ne hx]
      exact ih x

/-! ## Refinement -/

theorem Linked.built (hC : Compatible config) {Q : Party → End} (hL : Linked config c Q) {x : Party}
    (hfit : ∀ f ∈ (Q x).side.sent, f.payload.length ≤ kMaxPayloadSize) :
    ∀ f ∈ (Q x).side.sent, FrameReader.Built kMaxPayloadSize f := fun f hf =>
  (hL.reached.made hC x f hf).built (hfit f hf)

/-- The connection stays up, whatever a side does. -/
theorem Linked.stays_up (hC : Compatible config) {Q : Party → End} (hL : Linked config c Q) {x : Party} {m : Move}
    (hcalm : Calm (sides Q) (x, m)) {d : Side}
    (hm : (Q x).side.move (config x) (c x) (Q x.other).side.sent m = some d)
    (hr : ((Q x).side.s.objs 0).running = true) : (d.s.objs 0).running = true :=
  have hI := hL.reached.halves hC
  (hI x).stays_up (hI.move hC hcalm hm) hm hr

/-- What the receive thread does next hands over a whole frame, or leaves the side as it is. -/
theorem Linked.next (hC : Compatible config) {Q : Party → End} (hL : Linked config c Q) {x : Party} {e : End}
    (he : (Q x).next (config x) (c x) = some e) :
    (e.side = (Q x).side ∨ (Q x).side.move (config x) (c x) (Q x.other).side.sent .deliver = some e.side) ∧
      ∃ k, Synced e (Q x.other).side.sent k := by
  have hdeliver : ∀ f, (Q x.other).side.sent[(Q x).side.got]? = some f → ((Q x).side.s.objs 0).running = true →
      (Q x).side.move (config x) (c x) (Q x.other).side.sent .deliver =
        some ((Q x).side.handle (config x) (c x) f) := by
    intro f hf hr
    rw [Side.move, if_pos hr, hf]
    rfl
  obtain ⟨k, hk⟩ := hL.synced x
  obtain ⟨hside, hsync⟩ := hk.next (fun f hf hr => hL.stays_up hC (m := .deliver) trivial (hdeliver f hf hr) hr) he
  refine ⟨hside.imp id fun handed => ?_, hsync⟩
  obtain ⟨f, hf, hr, hs⟩ := handed
  rw [hs]
  exact hdeliver f hf hr

/-- A step at the bytes is a step where whole frames are handed over, or none. -/
theorem Linked.step (hC : Compatible config) {Q Q' : Party → End} (hL : Linked config c Q) {l : Party × LinkMove}
    (hfit : ∀ f ∈ (Q l.1.other).side.sent, f.payload.length ≤ kMaxPayloadSize) (ha : Undisturbed Q l)
    (h : linkStep config c Q l = some Q') : Linked config c Q' := by
  obtain ⟨x, m⟩ := l
  obtain ⟨e, he, rfl⟩ := Option.map_eq_some_iff.mp h
  obtain ⟨k, hk⟩ := hL.synced x
  cases m with
  | own m =>
    obtain ⟨d, hd, rfl⟩ := Option.map_eq_some_iff.mp he
    obtain ⟨hm, hg⟩ := own_move hd (Q x.other).side.sent
    exact hL.update (.inr ⟨m, ha, hm⟩) ⟨k, hk.own hg (hL.stays_up hC ha hm)⟩
  | recv n elapsed =>
    simp only [End.move] at he
    split at he
    · rename_i hc
      cases he
      refine hL.update (.inl rfl) (hk.receive hc.2.1 (hL.built hC hfit) hc.1 n fun ht => ?_)
      rw [ht] at ha ⊢
      exact ha
    · cases he
  | next =>
    obtain ⟨hside, hsync⟩ := hL.next hC he
    exact hL.update (hside.imp id fun hm => ⟨.deliver, trivial, hm⟩) hsync

/-- A step only adds to what is written. -/
theorem linkStep_sent {Q Q' : Party → End} {l : Party × LinkMove} (h : linkStep config c Q l = some Q') (x : Party) :
    (Q x).side.sent <+: (Q' x).side.sent := by
  obtain ⟨y, m⟩ := l
  obtain ⟨e, he, rfl⟩ := Option.map_eq_some_iff.mp h
  by_cases hx : x = y
  · subst hx
    rw [Function.update_self]
    cases m with
    | own m =>
      obtain ⟨d, hd, rfl⟩ := Option.map_eq_some_iff.mp he
      obtain ⟨new, hnew⟩ := move_sent hd
      exact ⟨new, hnew.symm⟩
    | recv n elapsed =>
      simp only [End.move] at he
      split at he <;> cases he
      exact List.prefix_refl _
    | next =>
      simp only [End.move, End.next] at he
      split at he
      · cases he
      · cases he; exact ⟨_, rfl⟩
      · split at he <;> cases he
        · exact ⟨_, rfl⟩
        · exact List.prefix_refl _
      · cases he; exact ⟨_, rfl⟩
  · rw [Function.update_of_ne hx]

theorem LinkReachable.linked (hC : Compatible config) {Q : Party → End} (h : LinkReachable config c Q)
    (hfit : Fits Q) : Linked config c Q := by
  induction h with
  | init => exact linked_init
  | @step Q Q' l _ ha hs ih =>
    have hbefore : Fits Q := fun x f hf => hfit x f ((linkStep_sent hs x).subset hf)
    exact (ih hbefore).step hC (hbefore _) ha hs

/-- The frames among what a receive thread has to do. -/
def handed (ts : List Turn) : List Frame :=
  ts.filterMap fun t => match t with
    | .hand f => some f
    | _ => none

theorem handed_append (ts us : List Turn) : handed (ts ++ us) = handed ts ++ handed us := List.filterMap_append

/-- The joined sessions over bytes refine those over whole frames: whatever the cutting and the
    interleaving, the sides are ones that whole frames lead to; and each receive thread holds,
    decoded, the frames that come next, and no refusal. -/
theorem bytes_refine_frames (hC : Compatible config) {Q : Party → End} (h : LinkReachable config c Q)
    (hfit : Fits Q) :
    Reachable config c (sides Q) ∧ ∀ x, (∀ reason, .refuse reason ∉ (Q x).todo) ∧
      handed (Q x).todo <+: (Q x.other).side.sent.drop (Q x).side.got := by
  have hL := h.linked hC hfit
  refine ⟨hL.reached, fun x => ?_⟩
  obtain ⟨k, hk⟩ := hL.synced x
  obtain ⟨checks, ht, hc⟩ := hk.todo
  rw [ht]
  have hhand : ∀ fs : List Frame, handed (fs.map Turn.hand) = fs := fun fs => by
    simp [handed, List.filterMap_map]
  constructor
  · intro reason hm
    rcases List.mem_append.mp hm with hm | hm
    · obtain ⟨f, -, he⟩ := List.mem_map.mp hm
      cases he
    · rcases hc with rfl | ⟨rfl, -⟩
      · cases hm
      · cases List.mem_singleton.mp hm
  · have hnone : handed checks = [] := by
      rcases hc with rfl | ⟨rfl, -⟩ <;> rfl
    rw [handed_append, hhand, hnone, List.append_nil]
    exact List.take_prefix k _

end

/-- `b` has taken some bytes of the HELLO of `a`, then the others with the bytes of a message behind it,
    when a second has passed. -/
def cutUp : List (Party × LinkMove) :=
  [(.a, .own .add), (.a, .own .add), (.a, .own .add), (.b, .own .add), (.b, .own .add), (.b, .own .add),
    (.b, .recv 5 false), (.a, .recv 4096 false), (.a, .next), (.a, .own (.broadcast (str "1") 0 (str "hi"))),
    (.b, .recv 4096 true)]

def fits (Q : Party → End) : Bool :=
  [Party.a, .b].all fun x => (Q x).side.sent.all fun f => decide (f.payload.length ≤ kMaxPayloadSize)

theorem fits_iff {Q : Party → End} (h : fits Q = true) : Fits Q := by
  simp only [fits, List.all_cons, List.all_nil, Bool.and_true, Bool.and_eq_true, List.all_eq_true,
    decide_eq_true_eq] at h
  intro x
  cases x
  · exact h.1
  · exact h.2

/-- `b` holds the two frames. -/
theorem cutUp_reached :
    ∃ Q, LinkReachable uneven named Q ∧ Fits Q ∧ (handed (Q .b).todo).length = 2 ∧
      ((Q .b).side.s.objs 0).running = true := by
  have hrun : ((Machine.run (Machine.checked (linkStep uneven named) fun Q l => decide (Undisturbed Q l)) (fun _ => {})
      cutUp).map fun Q => fits Q && (handed (Q .b).todo).length == 2 && ((Q .b).side.s.objs 0).running) =
        some true := by decide +kernel
  obtain ⟨Q, hQ, hp⟩ := Machine.reach_of_run (fun _ _ _ hc => of_decide_eq_true hc) hrun
  simp only [Bool.and_eq_true, beq_iff_eq] at hp
  exact ⟨Q, hQ, fits_iff hp.1.1, hp.1.2, hp.2⟩

theorem bytes_refine_frames_cutUp :
    ∃ Q, (handed (Q .b).todo).length = 2 ∧ Reachable uneven named (sides Q) ∧
      ∀ x, (∀ reason, .refuse reason ∉ (Q x).todo) ∧ handed (Q x).todo <+: (Q x.other).side.sent.drop (Q x).side.got := by
  obtain ⟨Q, hQ, hfit, htwo, -⟩ := cutUp_reached
  exact ⟨Q, htwo, bytes_refine_frames uneven_compatible hQ hfit⟩

/-! ## Nothing is lost -/

section
variable {config : Party → AppConfig} {c : Party → ConnId}

/-- What the receive thread has still to do: the bytes it has not taken, the turns it holds. -/
def left (x : Party) (Q : Party → End) : Nat :=
  2 * ((wire (Q x.other).side.sent).length - (Q x).taken) + if (Q x).todo = [] then 0 else 1

/-- While frames are left, the receive thread holds the next one, decoded, or comes closer to it. -/
theorem Linked.closer (hC : Compatible config) {Q : Party → End} (hL : Linked config c Q) {x : Party}
    (hfit : ∀ f ∈ (Q x.other).side.sent, f.payload.length ≤ kMaxPayloadSize)
    (hup : ((Q x).side.s.objs 0).running = true) {f : Frame}
    (hnext : (Q x.other).side.sent[(Q x).side.got]? = some f) (moves : (Party → Side) → Party × Move → Prop) :
    (∃ rest, (Q x).todo = .hand f :: rest) ∨ ∃ m e, Only moves Q (x, m) ∧
      linkStep config c Q (x, m) = some (Function.update Q x e) ∧ e.side = (Q x).side ∧
      left x (Function.update Q x e) < left x Q := by
  obtain ⟨k, hk⟩ := hL.synced x
  obtain ⟨checks, ht, hc⟩ := hk.todo
  have hlt := (List.getElem?_eq_some_iff.mp hnext).1
  cases k with
  | succ k =>
    rw [List.drop_eq_getElem_cons hlt, List.take_succ_cons, List.map_cons, List.cons_append] at ht
    rw [List.getElem?_eq_getElem hlt] at hnext
    cases hnext
    exact .inl ⟨_, ht⟩
  | zero =>
    right
    rw [List.take_zero, List.map_nil, List.nil_append] at ht
    rcases hc with rfl | ⟨rfl, hcalm⟩
    · -- nothing is decoded, so some bytes of the frame have not been taken
      have hleft : (Q x).taken < (wire (Q x.other).side.sent).length := by
        by_contra hall
        have hcount := hk.all_decoded (hL.built hC hfit) (Nat.not_lt.mp hall)
        omega
      have hne := chunk_ne_nil hleft
      have hpos := List.length_pos_of_ne_nil hne
      refine ⟨.recv recvSize false, (Q x).receive ((Q x).chunk (wire (Q x.other).side.sent) recvSize) false,
        ⟨trivial, fun m hm => by cases hm⟩, ?_, rfl, ?_⟩
      · simp only [linkStep, End.move, if_pos (And.intro hup (And.intro ht hne)), Option.map_some]
      · rw [left, left, Function.update_self, Function.update_of_ne (Party.ne_other x), ht, if_pos rfl]
        show 2 * (_ - ((Q x).taken + _)) + (if _ then 0 else 1) < _
        split <;> omega
    · refine ⟨.next, { Q x with conn := { (Q x).conn with frameCount := 0 }, todo := [] },
        ⟨trivial, fun m hm => by cases hm⟩, ?_, rfl, ?_⟩
      · simp only [linkStep, End.move, End.next, ht, if_neg (Nat.not_lt.mpr hcalm), Option.map_some]
      · rw [left, left, Function.update_self, Function.update_of_ne (Party.ne_other x), ht]
        simp

/-- While frames are left, the receive thread can come to hold the next one, decoded. -/
theorem Linked.fetch (hC : Compatible config) {Q : Party → End} (hL : Linked config c Q) {x : Party}
    (hfit : ∀ f ∈ (Q x.other).side.sent, f.payload.length ≤ kMaxPayloadSize)
    (hup : ((Q x).side.s.objs 0).running = true) {f : Frame}
    (hnext : (Q x.other).side.sent[(Q x).side.got]? = some f) (moves : (Party → Side) → Party × Move → Prop) :
    ∃ Q', Machine.Reach (linkStep config c) (Only moves) Q Q' ∧ Linked config c Q' ∧ sides Q' = sides Q ∧
      ∃ rest, (Q' x).todo = .hand f :: rest := by
  have hgo : ∃ Q', Machine.Reach (linkStep config c) (Only moves) Q Q' ∧ (Linked config c Q' ∧ sides Q' = sides Q) ∧
      ∃ rest, (Q' x).todo = .hand f :: rest := by
    refine Machine.Reach.variant (P := fun R => Linked config c R ∧ sides R = sides Q) (left x) ?_ ⟨hL, rfl⟩
    rintro R ⟨hLR, hsame⟩
    have hside : ∀ y, (R y).side = (Q y).side := fun y => congrFun hsame y
    have hfitR : ∀ f ∈ (R x.other).side.sent, f.payload.length ≤ kMaxPayloadSize := by rwa [hside]
    rcases hLR.closer hC hfitR (by rwa [hside]) (by rwa [hside, hside]) moves with h | ⟨m, e, ha, hstep, he, hless⟩
    · exact .inl h
    · refine .inr ⟨_, Machine.Reach.one ha hstep, ⟨hLR.step hC hfitR ha.1 hstep, ?_⟩, hless⟩
      rw [sides_update, he, ← hsame]
      exact Function.update_eq_self x _
  obtain ⟨Q', hr, ⟨hL', hsame⟩, hgoal⟩ := hgo
  exact ⟨Q', hr, hL', hsame, hgoal⟩

/-- What a side does of its own does not read what the other has written. -/
theorem move_own {config : AppConfig} {c : ConnId} {d d' : Side} {inbox : List Frame} {m : Move}
    (hm : m ≠ .deliver) (h : d.move config c inbox m = some d') : d.move config c [] m = some d' := by
  cases m with
  | deliver => exact absurd rfl hm
  | _ => exact h

/-- A step where whole frames are handed over can be taken at the bytes. -/
theorem Linked.answer (hC : Compatible config) {Q : Party → End} (hL : Linked config c Q) (hfit : Fits Q)
    {moves : (Party → Side) → Party × Move → Prop} {l : Party × Move} (hl : moves (sides Q) l)
    (hcalm : Calm (sides Q) l) {P' : Party → Side}
    (hs : Handshake.step config c (sides Q) l = some P') :
    ∃ Q', Machine.Reach (linkStep config c) (Only moves) Q Q' ∧ Linked config c Q' ∧ sides Q' = P' := by
  obtain ⟨x, m⟩ := l
  obtain ⟨d', hd, rfl⟩ := Option.map_eq_some_iff.mp hs
  by_cases hm : m = .deliver
  · subst hm
    simp only [Side.move] at hd
    split at hd
    · rename_i hup
      obtain ⟨f, hf, rfl⟩ := Option.map_eq_some_iff.mp hd
      obtain ⟨Q', hr', hL', hsame, rest, htodo⟩ := hL.fetch hC (hfit _) hup hf moves
      have hside : ∀ y, (Q' y).side = (Q y).side := fun y => congrFun hsame y
      have hstep : linkStep config c Q' (x, .next) = some (Function.update Q' x
          { Q' x with side := (Q' x).side.handle (config x) (c x) f, todo := rest }) := by
        simp only [linkStep, End.move, End.next, htodo, Option.map_some]
      refine ⟨_, hr'.step (l := (x, .next)) ⟨trivial, fun m hm => by cases hm⟩ hstep,
        hL'.step hC (l := (x, .next)) (by rw [hside]; exact hfit _) trivial hstep, ?_⟩
      rw [sides_update, hsame, hside]
      rfl
    · cases hd
  · have hown : (Q x).side.move (config x) (c x) [] m = some d' := move_own hm hd
    have hstep : linkStep config c Q (x, .own m) = some (Function.update Q x { Q x with side := d' }) := by
      simp only [linkStep, End.move, hown, Option.map_some]
    refine ⟨_, Machine.Reach.one (l := (x, .own m)) ⟨hcalm, fun m' hm' => by cases hm'; exact hl⟩ hstep,
      hL.step hC (l := (x, .own m)) (hfit _) hcalm hstep, sides_update Q x _⟩

theorem step_sent {P P' : Party → Side} {l : Party × Move} (h : step config c P l = some P') (x : Party) :
    (P x).sent <+: (P' x).sent := by
  obtain ⟨y, m⟩ := l
  obtain ⟨d', hd, rfl⟩ := Option.map_eq_some_iff.mp h
  obtain ⟨new, hnew⟩ := move_sent hd
  by_cases hx : x = y
  · subst hx
    rw [Function.update_self, hnew]
    exact List.prefix_append _ new
  · rw [Function.update_of_ne hx]

/-- So can any run of them, from wherever the bytes have come to. -/
theorem Linked.follow (hC : Compatible config) {Q : Party → End} (hL : Linked config c Q)
    {moves : (Party → Side) → Party × Move → Prop} (hcalm : ∀ P l, moves P l → Calm P l) {P' : Party → Side}
    (h : Machine.Reach (Handshake.step config c) moves (sides Q) P')
    (hfit : ∀ x, ∀ f ∈ (P' x).sent, f.payload.length ≤ kMaxPayloadSize) :
    ∃ Q', Machine.Reach (linkStep config c) (Only moves) Q Q' ∧ Linked config c Q' ∧ sides Q' = P' := by
  induction h with
  | init => exact ⟨Q, .init, hL, rfl⟩
  | @step P P' l _ hl hs ih =>
    obtain ⟨Q₁, hr₁, hL₁, rfl⟩ := ih fun x f hf => hfit x f ((step_sent hs x).subset hf)
    obtain ⟨Q', hr', hL', hsides⟩ :=
      hL₁.answer hC (fun x f hf => hfit x f ((step_sent hs x).subset hf)) hl (hcalm _ _ hl) hs
    exact ⟨Q', hr₁.trans hr', hL', hsides⟩

/-- Handing over whole frames allows no more than the bytes do: every pair of sides that it leads
    to is one that some cutting and interleaving of the bytes leads to. -/
theorem frames_refine_bytes (hC : Compatible config) {P : Party → Side} (h : Reachable config c P)
    (hfit : ∀ x, ∀ f ∈ (P x).sent, f.payload.length ≤ kMaxPayloadSize) :
    ∃ Q, LinkReachable config c Q ∧ sides Q = P := by
  obtain ⟨Q, hr, -, hsides⟩ := linked_init.follow hC (fun _ _ hl => hl) h hfit
  exact ⟨Q, hr.mono fun _ _ ha => ha.1, hsides⟩

end

/-- The bytes behind a message that was written before its sender was granted. -/
theorem frames_refine_bytes_early :
    ∃ Q, LinkReachable uneven named Q ∧ (Q .a).side.sent.length = 2 ∧ (Q .b).side.got = 1 := by
  have hrun : ((Machine.run (Machine.checked (step uneven named) fun P l => decide (Calm P l)) (fun _ => {})
      early).map fun P =>
      (P .a).sent.length == 2 && (P .b).got == 1 &&
        [Party.a, .b].all fun x => (P x).sent.all fun f => decide (f.payload.length ≤ kMaxPayloadSize)) =
          some true := by decide +kernel
  obtain ⟨P, hP, hp⟩ := reach_of_moves hrun
  simp only [Bool.and_eq_true, beq_iff_eq, List.all_cons, List.all_nil, Bool.and_true, List.all_eq_true,
    decide_eq_true_eq] at hp
  obtain ⟨⟨htwo, hone⟩, ha, hb⟩ := hp
  obtain ⟨Q, hQ, rfl⟩ := frames_refine_bytes uneven_compatible hP fun x => by cases x <;> assumption
  exact ⟨Q, hQ, htwo, hone⟩

end LanTalk.Chat.Handshake
