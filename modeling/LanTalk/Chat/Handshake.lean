/-
  LanTalk.Chat.Handshake — two sessions joined by one connection. A `Side` is a session
  with what it still has to run of its `addConnection` and of its users' calls, the frames
  it has written, and how many of the other side's it has handled: frames arrive in the
  order they were written, all of them, and the callbacks pass the id under which the
  connection is registered. A ping sweep may come at any time. One that comes between
  `addConnection`'s insert and its `start` finds the connection dead and leaves its entry to
  be dropped, whenever the ping thread gets to it; `Calm` runs have none of these. The
  receive thread of a dropped connection goes on here, as it does with what it has decoded.

  Proved: `Half`, what a side holds follows from the frames it has handled, and what it has
  written from these and its own settings; `Half.add`, `Half.call` and `Half.handle`, every
  calm move keeps it so.
-/

import LanTalk.Chat.SessionProofs
import LanTalk.Lib.Machine

namespace LanTalk.Chat.Handshake

open LanTalk.Lib LanTalk.Network LanTalk.Config

/-! ## Two sides -/

inductive Party where
  | a
  | b
  deriving DecidableEq

def Party.other : Party → Party
  | .a => .b
  | .b => .a

@[simp] theorem Party.other_other (x : Party) : x.other.other = x := by cases x <;> rfl

theorem Party.ne_other (x : Party) : x.other ≠ x := by cases x <;> decide

structure Side where
  s : Session := { running := true }
  /-- What is left of `addConnection`. -/
  adding : List Act := [.register 0]
  /-- What other threads have been left to run. -/
  pending : List Act := []
  /-- The frames written to the other side, oldest first. -/
  sent : List Frame := []
  /-- How many of the other side's frames have been handled. -/
  got : Nat := 0
  log : List Out := []

inductive Move where
  /-- The next piece of `addConnection`. -/
  | add
  | deliver
  | ping
  | broadcast (msgId : Bytes) (timestampUtc : Int64) (text : Bytes)
  | sendTo (peerId msgId : Bytes) (timestampUtc : Int64) (text : Bytes)
  /-- The `i`-th of the pieces other threads have been left to run. -/
  | resume (i : Nat)

section
variable (config : AppConfig) (c : ConnId)

/-- A piece, with what it leaves to be run put aside. -/
def Side.piece (d : Side) (a : Act) : Side × List Act :=
  let p := exec config (fun _ => c) (fun _ _ => true) d.s a
  ({ d with s := p.s, sent := d.sent ++ reaching 0 p.out, log := d.log ++ p.out }, p.rest)

/-- A frame, with its callbacks. -/
def Side.handle (d : Side) (f : Frame) : Side :=
  let e := onFrame config (fun _ _ => true) d.s c f
  { d with s := e.s, sent := d.sent ++ reaching 0 e.out, got := d.got + 1, log := d.log ++ e.out ++ e.after }

/-- A piece of a user's thread. -/
def Side.call (d : Side) (a : Act) : Side :=
  let r := d.piece config c a
  { r.1 with pending := d.pending ++ r.2 }

/-- What a side does next, `inbox` being all that the other has written. -/
def Side.move (d : Side) (inbox : List Frame) : Move → Option Side
  | .add =>
    match d.adding with
    | [] => none
    | a :: rest =>
      let r := d.piece config c a
      some { r.1 with adding := r.2 ++ rest }
  | .deliver => if (d.s.objs 0).running then inbox[d.got]?.map (d.handle config c) else none
  | .ping => some (d.call config c .sweep)
  | .broadcast msgId timestampUtc text =>
    some (d.call config c (.broadcast (newMessage config msgId timestampUtc text).toJson))
  | .sendTo peerId msgId timestampUtc text =>
    some (d.call config c (.pick peerId (newMessage config msgId timestampUtc text)))
  | .resume i =>
    match d.pending[i]? with
    | none => none
    | some a => some (({ d with pending := d.pending.eraseIdx i } : Side).call config c a)

end

section
variable (config : Party → AppConfig) (c : Party → ConnId)

def step (P : Party → Side) (l : Party × Move) : Option (Party → Side) :=
  ((P l.1).move (config l.1) (c l.1) (P l.1.other).sent l.2).map (Function.update P l.1)

/-- No ping sweep comes between the insert of `addConnection` and its `start`. -/
def Calm (P : Party → Side) : Party × Move → Prop
  | (x, .ping) => (P x).adding.head? ≠ some (.start 0)
  | _ => True

instance (P : Party → Side) : (l : Party × Move) → Decidable (Calm P l)
  | (_, .ping) => inferInstanceAs (Decidable (_ ≠ _))
  | (_, .add) | (_, .deliver) | (_, .broadcast _ _ _) | (_, .sendTo _ _ _ _) | (_, .resume _) => isTrue trivial

def Reachable : (Party → Side) → Prop := Machine.Reach (step config c) Calm fun _ => {}

end

/-! ## Frames and events -/

def count (t : MessageType) (fs : List Frame) : Nat := fs.countP fun f => f.header.type == t

@[simp] theorem count_nil (t : MessageType) : count t [] = 0 := rfl

@[simp] theorem count_append (t : MessageType) (fs gs : List Frame) :
    count t (fs ++ gs) = count t fs + count t gs :=
  List.countP_append

@[simp] theorem count_singleton (t : MessageType) (f : Frame) :
    count t [f] = if f.header.type = t then 1 else 0 := by
  simp [count, List.countP_singleton]

theorem count_pos {t : MessageType} {fs : List Frame} : 0 < count t fs ↔ ∃ f ∈ fs, f.header.type = t := by
  simp [count, List.countP_pos_iff]

theorem count_eq_zero {t : MessageType} {fs : List Frame} (h : ∀ f ∈ fs, f.header.type ≠ t) :
    count t fs = 0 := by
  simpa [count, List.countP_eq_zero] using h

theorem count_take_le (t : MessageType) (n : Nat) (fs : List Frame) : count t (fs.take n) ≤ count t fs :=
  (List.take_sublist n fs).countP_le

/-- One frame more has been handled. -/
theorem take_succ_of_get {fs : List Frame} {n : Nat} {f : Frame} (h : fs[n]? = some f) :
    fs.take (n + 1) = fs.take n ++ [f] := by
  rw [List.take_add_one, h]; rfl

def isConnected : Out → Bool
  | .peerEvent _ _ up => up
  | _ => false

/-- How many connected events the session has fired. -/
def connectedEvents (log : List Out) : Nat := log.countP isConnected

theorem reaching_sent (c : ConnId) (h : Handle) (fs : List Frame) :
    reaching h (fs.map fun f => .sent c h f true) = fs := by
  induction fs with
  | nil => rfl
  | cons f fs ih => simp only [reaching, List.map_cons, List.filterMap_cons, and_self, if_true] at ih ⊢; rw [ih]

/-- What a side writes is what its settings say. -/
def Configured (config : AppConfig) (f : Frame) : Prop :=
  match f.header.type with
  | .HELLO => f.payloadAsString = helloPayload config
  | .AUTH_RESPONSE => f.payloadAsString = authResponsePayload config
  | .CHAT_MESSAGE => ∃ msgId timestampUtc text,
    f.payloadAsString = (newMessage config msgId timestampUtc text).toJson
  | .AUTH_REQUEST | .AUTH_OK | .PING | .PONG => True
  | _ => False

/-- The frame after which a session holds its peer AUTHENTICATED. -/
def grantType (config : AppConfig) : MessageType := if config.requireAuth then .AUTH_RESPONSE else .HELLO

/-! ## One side -/

/-- What a side holds and has written, by the frames it has handled. -/
structure Half (config : AppConfig) (c : ConnId) (peerId : Bytes) (d : Side) (inbox : List Frame) : Prop where
  adding : d.adding = [.register 0] ∨ d.adding = [.start 0, .sendHello 0 c] ∨ d.adding = [.sendHello 0 c] ∨
    d.adding = []
  session : d.s.running = true
  socket : (d.s.objs 0).socket = true
  running : (d.s.objs 0).running = true ↔ d.adding = [.sendHello 0 c] ∨ d.adding = []
  unregistered : d.adding = [.register 0] → d.s.connections[c]? = none
  registered : d.adding ≠ [.register 0] → d.s.connections[c]? = some 0
  only : ∀ k h, d.s.connections[k]? = some h → k = c ∧ h = 0
  silent : (d.s.objs 0).running = false → d.sent = [] ∧ d.got = 0
  got_le : d.got ≤ inbox.length
  pending : ∀ a ∈ d.pending, ∃ msgId timestampUtc text,
    a = .chat c 0 (newMessage config msgId timestampUtc text).toJson
  configured : ∀ f ∈ d.sent, Configured config f
  hellos : count .HELLO d.sent = if d.adding = [] then 1 else 0
  requests : count .AUTH_REQUEST d.sent = if config.requireAuth then count .HELLO (inbox.take d.got) else 0
  responses : count .AUTH_RESPONSE d.sent = count .AUTH_REQUEST (inbox.take d.got)
  authenticated : d.s.authenticated c = true ↔ 0 < count (grantType config) (inbox.take d.got)
  named : 0 < count .HELLO (inbox.take d.got) → ∃ peer, d.s.peers[c]? = some peer ∧ peer.deviceId = peerId
  events : connectedEvents d.log = count (grantType config) (inbox.take d.got)
  undisturbed : ∀ k h reason, Out.disconnect k h reason ∉ d.log

section
variable {config : AppConfig} {c : ConnId} {peerId : Bytes} {d : Side} {inbox : List Frame}

theorem half_init : Half config c peerId {} [] where
  adding := .inl rfl
  session := rfl
  socket := rfl
  running := by simp
  unregistered := fun _ => by simp
  registered := fun h => absurd rfl h
  only := fun k h hk => by simp at hk
  silent := fun _ => ⟨rfl, rfl⟩
  got_le := Nat.le_refl _
  pending := fun a ha => by cases ha
  configured := fun f hf => by cases hf
  hellos := rfl
  requests := by simp
  responses := rfl
  authenticated := by simp [Session.authenticated]
  named := fun h => by simp at h
  events := rfl
  undisturbed := fun k h reason hm => by cases hm

/-- What the other side writes later does not matter until it is handled. -/
theorem Half.grow (hI : Half config c peerId d inbox) (new : List Frame) :
    Half config c peerId d (inbox ++ new) := by
  have ht : (inbox ++ new).take d.got = inbox.take d.got := List.take_append_of_le_length hI.got_le
  have hl := hI.got_le
  refine { hI with got_le := ?_, requests := ?_, responses := ?_, authenticated := ?_, named := ?_, events := ?_ }
  · rw [List.length_append]; omega
  all_goals rw [ht]
  · exact hI.requests
  · exact hI.responses
  · exact hI.authenticated
  · exact hI.named
  · exact hI.events

theorem Half.up (hI : Half config c peerId d inbox) (hr : (d.s.objs 0).running = true) :
    d.s.connections[c]? = some 0 ∧ (d.s.objs 0).writable = true := by
  refine ⟨hI.registered fun h => ?_, by rw [Connection.writable, hr, hI.socket]; rfl⟩
  rcases hI.running.mp hr with h' | h' <;> rw [h] at h' <;> cases h'

/-- While nothing is registered, no connection is. -/
theorem Half.empty (hI : Half config c peerId d inbox) (h : d.adding = [.register 0]) :
    d.s.connections.toList = [] := by
  refine List.eq_nil_iff_forall_not_mem.mpr fun e he => ?_
  have hk := (mem_toList _ _).mp he
  rw [(hI.only e.1 e.2 hk).1, hI.unregistered h] at hk
  cases hk

/-- A session that holds its peer AUTHENTICATED has handled a frame, so its connection is up. -/
theorem Half.running_of_authenticated (hI : Half config c peerId d inbox) (h : d.s.authenticated c = true) :
    (d.s.objs 0).running = true := by
  by_contra hr
  have hg := (hI.silent (by simpa using hr)).2
  have := hI.authenticated.mp h
  rw [hg] at this
  simp at this

/-! ## Users' calls -/

/-- A chat message as its user wrote it, or a ping. -/
def Casual (config : AppConfig) (f : Frame) : Prop :=
  (f.header.type = .CHAT_MESSAGE ∨ f.header.type = .PING) ∧ Configured config f

theorem reaching_mem {os : List Out} {f : Frame} (h : f ∈ reaching 0 os) : ∃ k, Out.sent k 0 f true ∈ os := by
  obtain ⟨o, ho, he⟩ := List.mem_filterMap.mp h
  split at he
  · split at he
    · rename_i hc
      obtain ⟨rfl, rfl⟩ := hc
      cases he
      exact ⟨_, ho⟩
    · cases he
  · cases he

/-- A piece that only writes casual frames, and those only where the connection is up,
    keeps what a side holds. -/
theorem Half.casual (hI : Half config c peerId d inbox) {out : List Out} {pending : List Act}
    (hout : ∀ o ∈ out, ∃ k h f ok, o = .sent k h f ok ∧ Casual config f)
    (hup : (d.s.objs 0).running = false → out = []) (hp : ∀ a ∈ pending, ∃ msgId timestampUtc text,
      a = .chat c 0 (newMessage config msgId timestampUtc text).toJson) :
    Half config c peerId
      { d with sent := d.sent ++ reaching 0 out, log := d.log ++ out, pending := pending } inbox := by
  have hnew : ∀ f ∈ reaching 0 out, Casual config f := by
    intro f hf
    obtain ⟨k, hk⟩ := reaching_mem hf
    obtain ⟨k', h', f', ok, he, hc⟩ := hout _ hk
    cases he
    exact hc
  have hzero : ∀ t, t ≠ .CHAT_MESSAGE → t ≠ .PING → count t (reaching 0 out) = 0 := by
    intro t h1 h2
    apply count_eq_zero
    intro f hf ht
    rcases (hnew f hf).1 with h | h <;> rw [ht] at h
    · exact h1 h
    · exact h2 h
  have hev : connectedEvents (d.log ++ out) = connectedEvents d.log := by
    have : out.countP isConnected = 0 := by
      apply List.countP_eq_zero.mpr
      intro o ho
      obtain ⟨k, h, f, ok, rfl, -⟩ := hout o ho
      simp [isConnected]
    rw [connectedEvents, List.countP_append, this, Nat.add_zero, connectedEvents]
  refine { hI with silent := fun hr => ?_, pending := hp, configured := fun f hf => ?_, hellos := ?_
                   requests := ?_, responses := ?_, events := hev.trans hI.events,
                   undisturbed := fun k h reason hm => ?_ }
  · rw [hup hr]
    simpa [reaching] using hI.silent hr
  · rcases List.mem_append.mp hf with hf | hf
    · exact hI.configured f hf
    · exact (hnew f hf).2
  · rw [count_append, hzero .HELLO (by decide) (by decide), Nat.add_zero]; exact hI.hellos
  · rw [count_append, hzero .AUTH_REQUEST (by decide) (by decide), Nat.add_zero]; exact hI.requests
  · rw [count_append, hzero .AUTH_RESPONSE (by decide) (by decide), Nat.add_zero]; exact hI.responses
  · rcases List.mem_append.mp hm with hm | hm
    · exact hI.undisturbed k h reason hm
    · obtain ⟨k', h', f, ok, he, -⟩ := hout _ hm
      cases he

theorem casual_chat (msgId : Bytes) (timestampUtc : Int64) (text : Bytes) :
    Casual config (Frame.create .CHAT_MESSAGE (newMessage config msgId timestampUtc text).toJson) :=
  ⟨.inl rfl, ⟨msgId, timestampUtc, text, rfl⟩⟩

/-- The pieces of users' calls, and of ping sweeps while the connection is up or not
    registered yet. -/
def UserAct (config : AppConfig) (c : ConnId) (d : Side) : Act → Prop
  | .sweep => (d.s.objs 0).running = true ∨ d.adding = [.register 0]
  | .broadcast json => ∃ msgId timestampUtc text, json = (newMessage config msgId timestampUtc text).toJson
  | .pick _ msg => ∃ msgId timestampUtc text, msg = newMessage config msgId timestampUtc text
  | .chat k h json => k = c ∧ h = 0 ∧
    ∃ msgId timestampUtc text, json = (newMessage config msgId timestampUtc text).toJson
  | _ => False

theorem Half.user (hI : Half config c peerId d inbox) {a : Act} (ha : UserAct config c d a) :
    let p := exec config (fun _ => c) (fun _ _ => true) d.s a
    p.s = d.s ∧ (∀ o ∈ p.out, ∃ k h f ok, o = .sent k h f ok ∧ Casual config f) ∧
      ((d.s.objs 0).running = false → p.out = []) ∧
      ∀ b ∈ p.rest, ∃ msgId timestampUtc text,
        b = .chat c 0 (newMessage config msgId timestampUtc text).toJson := by
  cases a with
  | sweep =>
    rcases ha with hup | hreg
    case inr => simp [exec, hI.session, hI.empty hreg]
    have hw := (hI.up hup).2
    have hall : ∀ e ∈ d.s.connections.toList,
        (d.s.send (fun _ _ => true) e.1 e.2 .PING (str "{}")).1 = true := by
      intro e he
      obtain ⟨-, h0⟩ := hI.only e.1 e.2 ((mem_toList _ _).mp he)
      rw [h0, Session.send, if_pos hw]
    simp only [exec, hI.session, if_true]
    refine ⟨trivial, fun o ho => ?_,
      fun hr => absurd hup (by simp [hr]), fun b hb => ?_⟩
    · obtain ⟨e, -, ho⟩ := List.mem_flatMap.mp ho
      exact ⟨e.1, e.2, _, _, (mem_send _ ho).1, .inr rfl, trivial⟩
    · obtain ⟨e, he, -⟩ := List.mem_map.mp hb
      obtain ⟨he, hn⟩ := List.mem_filter.mp he
      rw [hall e he] at hn
      cases hn
  | broadcast json =>
    obtain ⟨msgId, timestampUtc, text, rfl⟩ := ha
    refine ⟨rfl, ?_, ?_, fun b hb => by cases hb⟩
    · intro o ho
      obtain ⟨k, h, ok, rfl, -, -⟩ := mem_broadcastOut _ ho
      exact ⟨k, h, _, ok, rfl, casual_chat msgId timestampUtc text⟩
    · intro hr
      apply List.eq_nil_iff_forall_not_mem.mpr
      intro o ho
      obtain ⟨k, h, ok, -, hk, hc⟩ := mem_broadcastOut _ ho
      rw [(hI.only k h hc).1] at hk
      rw [hI.running_of_authenticated hk] at hr
      cases hr
  | pick peer msg =>
    obtain ⟨msgId, timestampUtc, text, rfl⟩ := ha
    simp only [exec]
    split
    · rename_i k h hp
      obtain ⟨rfl, rfl⟩ := hI.only k h (pick_authenticated hp).2
      refine ⟨rfl, ?_, fun _ => rfl, ?_⟩
      · intro o ho; cases ho
      · intro b hb; exact ⟨msgId, timestampUtc, text, List.mem_singleton.mp hb⟩
    · refine ⟨rfl, ?_, fun _ => rfl, ?_⟩
      · intro o ho; cases ho
      · intro b hb; cases hb
  | chat k h json =>
    obtain ⟨rfl, rfl, msgId, timestampUtc, text, rfl⟩ := ha
    refine ⟨rfl, ?_, ?_, fun b hb => by cases hb⟩
    · intro o ho
      exact ⟨k, 0, _, _, (mem_send _ ho).1, casual_chat msgId timestampUtc text⟩
    · intro hr
      simp [exec, Session.send, Connection.writable, hr]
  | _ => exact ha.elim

theorem Half.call (hI : Half config c peerId d inbox) {a : Act} (ha : UserAct config c d a) :
    Half config c peerId (d.call config c a) inbox := by
  obtain ⟨h1, h2, h3, h4⟩ := hI.user ha
  have hp : ∀ b ∈ d.pending ++ (exec config (fun _ => c) (fun _ _ => true) d.s a).rest,
      ∃ msgId timestampUtc text, b = .chat c 0 (newMessage config msgId timestampUtc text).toJson := by
    intro b hb
    rcases List.mem_append.mp hb with hb | hb
    · exact hI.pending b hb
    · exact h4 b hb
  have h := hI.casual h2 h3 hp
  simp only [Side.call, Side.piece, h1]
  exact h

/-! ## `addConnection` -/

theorem Half.register (hI : Half config c peerId d inbox) (h : d.adding = [.register 0]) :
    Half config c peerId
      { (d.piece config c (.register 0)).1 with adding := [.start 0, .sendHello 0 c] } inbox := by
  have hdown : (d.s.objs 0).running = false := by
    by_contra hr
    rcases hI.running.mp (by simpa using hr) with h' | h' <;> rw [h] at h' <;> cases h'
  obtain ⟨hs, hg⟩ := hI.silent hdown
  have hd : (d.piece config c (.register 0)).1 =
      { d with s := { d.s with connections := d.s.connections.insert c 0, peers := d.s.peers.insert c {} }
               log := d.log ++ [.registered c 0] } := by
    simp [Side.piece, exec, hI.session, reaching]
  rw [hd]
  refine { hI with adding := .inr (.inl rfl), session := hI.session, running := ?_
                   unregistered := (fun h => by cases h), registered := ?_, only := ?_, hellos := ?_
                   authenticated := ?_, named := ?_, events := ?_, undisturbed := ?_ }
  · simp [hdown]
  · simp
  · intro k h' hk
    rw [find_insert] at hk
    split at hk
    · rename_i e; cases hk; exact ⟨e.symm, rfl⟩
    · exact hI.only k h' hk
  · simp [hs]
  · simp [Session.authenticated, hg]
  · intro hn; rw [hg] at hn; simp at hn
  · rw [← hI.events]; simp [connectedEvents, isConnected]
  · intro k h' reason hm
    rcases List.mem_append.mp hm with hm | hm
    · exact hI.undisturbed k h' reason hm
    · cases List.mem_singleton.mp hm

theorem Half.start (hI : Half config c peerId d inbox) (h : d.adding = [.start 0, .sendHello 0 c]) :
    Half config c peerId { (d.piece config c (.start 0)).1 with adding := [.sendHello 0 c] } inbox := by
  have hd : (d.piece config c (.start 0)).1 =
      { d with s := { d.s with objs := Function.update d.s.objs 0 (d.s.objs 0).start } } := by
    simp [Side.piece, exec, reaching]
  rw [hd]
  refine { hI with adding := .inr (.inr (.inl rfl)), socket := ?_, running := ?_
                   unregistered := (fun h => by cases h), registered := ?_, silent := ?_, hellos := ?_ }
  · simpa [Connection.start] using hI.socket
  · simp
  · exact fun _ => hI.registered (by rw [h]; simp)
  · simp
  · simpa [h] using hI.hellos

theorem Half.hello (hI : Half config c peerId d inbox) (h : d.adding = [.sendHello 0 c]) :
    Half config c peerId { (d.piece config c (.sendHello 0 c)).1 with adding := [] } inbox := by
  have hr := hI.running.mpr (.inl h)
  obtain ⟨hc, hw⟩ := hI.up hr
  have hd : (d.piece config c (.sendHello 0 c)).1 =
      { d with sent := d.sent ++ [Frame.create .HELLO (helloPayload config)]
               log := d.log ++ [.sent c 0 (Frame.create .HELLO (helloPayload config)) true] } := by
    simp [Side.piece, exec, Session.reply, hc, Session.send, hw, reaching]
  rw [hd]
  refine { hI with adding := .inr (.inr (.inr rfl)), running := ?_, unregistered := (fun h => by cases h)
                   registered := fun _ => hc, silent := ?_, configured := ?_, hellos := ?_, requests := ?_
                   responses := ?_, events := ?_, undisturbed := ?_ }
  · exact ⟨fun _ => .inr rfl, fun _ => hr⟩
  · intro hn; rw [hr] at hn; cases hn
  · intro f hf
    rcases List.mem_append.mp hf with hf | hf
    · exact hI.configured f hf
    · rw [List.mem_singleton.mp hf]; exact rfl
  · have := hI.hellos
    rw [h] at this
    simp [this, Frame.create]
  · simpa [Frame.create] using hI.requests
  · simpa [Frame.create] using hI.responses
  · rw [← hI.events]; simp [connectedEvents, isConnected]
  · intro k h' reason hm
    rcases List.mem_append.mp hm with hm | hm
    · exact hI.undisturbed k h' reason hm
    · cases List.mem_singleton.mp hm

theorem Half.add (hI : Half config c peerId d inbox) {a : Act} {rest : List Act} (hd : d.adding = a :: rest) :
    let r := d.piece config c a
    Half config c peerId { r.1 with adding := r.2 ++ rest } inbox := by
  rcases hI.adding with h | h | h | h <;> rw [h] at hd <;> cases hd
  · have hrest : (d.piece config c (.register 0)).2 = [.start 0, .sendHello 0 c] := by
      simp [Side.piece, exec, hI.session]
    simpa only [hrest, List.append_nil] using hI.register h
  · exact hI.start h
  · exact hI.hello h

/-! ## Handling a frame -/

/-- The settings of two sides agree on the hash, and name devices that HELLO can carry. -/
structure Paired (config peer : AppConfig) : Prop where
  hash : config.pskHash = peer.pskHash
  hash_printable : Printable peer.pskHash
  device : peer.deviceId ≠ []
  device_printable : Printable peer.deviceId

theorem Paired.hello {peer : AppConfig} (hP : Paired config peer) {f : Frame} (hf : Configured peer f)
    (ht : f.header.type = .HELLO) : extractStr f.payloadAsString (str "device_id") = peer.deviceId := by
  simp only [Configured, ht] at hf
  rw [hf, helloPayload_device_id _ hP.device_printable]

theorem Paired.accepted {peer : AppConfig} (hP : Paired config peer) {f : Frame} (hf : Configured peer f)
    (ht : f.header.type = .AUTH_RESPONSE) : accepted config f.payloadAsString = true := by
  simp only [Configured, ht] at hf
  rw [hf, Chat.accepted, hP.hash, authResponsePayload_response _ hP.hash_printable]
  by_cases h : peer.pskHash = [] <;> simp [h]

theorem Paired.closes {peer : AppConfig} (hP : Paired config peer) {f : Frame} (hf : Configured peer f)
    (s : Session) :
    closes config s c f = false := by
  unfold Chat.closes
  cases ht : f.header.type <;> simp only [Bool.and_false]
  case HELLO => rw [hP.hello hf ht]; simp [hP.device]
  case AUTH_RESPONSE => rw [hP.accepted hf ht]; simp
  case DISCONNECT => simp [Configured, ht] at hf

theorem answers_configured (f : Frame) : ∀ g ∈ answers config f, Configured config g := by
  intro g hg
  unfold answers at hg
  split at hg
  · split at hg
    · rw [List.mem_singleton.mp hg]; trivial
    · cases hg
  · rw [List.mem_singleton.mp hg]; exact rfl
  · rw [List.mem_singleton.mp hg]; trivial
  · rw [List.mem_singleton.mp hg]; trivial
  · cases hg

/-- How a side's handshake frames come from those it handles. -/
theorem count_answers (config : AppConfig) (f : Frame) :
    count .HELLO (answers config f) = 0 ∧
      count .AUTH_REQUEST (answers config f) =
        (if config.requireAuth = true ∧ f.header.type = .HELLO then 1 else 0) ∧
      count .AUTH_RESPONSE (answers config f) = if f.header.type = .AUTH_REQUEST then 1 else 0 := by
  unfold answers
  cases ht : f.header.type
  case HELLO => cases hr : config.requireAuth <;> simp [Frame.create]
  all_goals simp [Frame.create]

/-- A side is granted by the frame of its grant type. -/
theorem grants_iff {peer : AppConfig} (hP : Paired config peer) {s : Session}
    (hc : s.connections[c]? = some 0) {f : Frame}
    (hf : Configured peer f) (hasked : f.header.type = .AUTH_RESPONSE → config.requireAuth = true) :
    grants config s c f = true ↔ f.header.type = grantType config := by
  cases ht : f.header.type
  case HELLO =>
    have hd := hP.hello hf ht
    cases hr : config.requireAuth <;> simp [grants, saysHello, ht, hd, hP.device, hr, grantType]
  case AUTH_RESPONSE =>
    simp [grants, saysHello, ht, hc, hP.accepted hf ht, grantType, hasked ht]
  all_goals cases hr : config.requireAuth <;> simp [grants, saysHello, ht, grantType, hr]

/-- The entry after a frame names the other side's device, if it did or the frame says so. -/
theorem named_after {peer : AppConfig} (hP : Paired config peer) {s : Session} {f : Frame}
    (hf : Configured peer f)
    (hn : f.header.type ≠ .HELLO → ∃ info, s.peers[c]? = some info ∧ info.deviceId = peer.deviceId) :
    ∃ info, (peersAfter config s c f)[c]? = some info ∧ info.deviceId = peer.deviceId := by
  by_cases ht : f.header.type = .HELLO
  · have hd := hP.hello hf ht
    have hs : saysHello f = true := by simp [saysHello, ht, hd, hP.device]
    cases hr : config.requireAuth with
    | true =>
      have hg : ¬ grants config s c f = true := by simp [grants, ht, hr]
      have hc : challenges config f = true := by simp [challenges, hs, hr]
      rw [peersAfter, if_neg hg, if_pos hc, find_insert, if_pos rfl]
      exact ⟨_, rfl, hd⟩
    | false =>
      have hg : grants config s c f = true := by simp [grants, hs, hr]
      rw [peersAfter, if_pos hg, find_insert, if_pos rfl]
      exact ⟨_, rfl, by simp [granted, ht, helloPeer, hd]⟩
  · obtain ⟨info, hi, hd⟩ := hn ht
    have hc : ¬ challenges config f = true := by simp [challenges, saysHello, ht]
    rw [peersAfter, if_neg hc]
    split
    · rw [find_insert, if_pos rfl]
      exact ⟨_, rfl, by simp [granted, ht, hi, hd]⟩
    · exact ⟨info, hi, hd⟩

theorem count_callbacks (s : Session) (f : Frame) :
    connectedEvents (callbacks config s c f) = if grants config s c f = true then 1 else 0 := by
  unfold callbacks
  split
  · rfl
  · split
    · cases ChatMessage.fromJson f.payloadAsString <;> rfl
    · rfl

theorem no_disconnect_callbacks (s : Session) (f : Frame) (k : ConnId) (h : Handle) (reason : Bytes) :
    Out.disconnect k h reason ∉ callbacks config s c f := by
  unfold callbacks
  split
  · simp
  · split
    · cases ChatMessage.fromJson f.payloadAsString <;> simp
    · simp

/-- The other side is held AUTHENTICATED once the frame of the grant type was handled; a HELLO
    that challenges it comes before that. -/
theorem Half.authenticated_after (hI : Half config c peerId d inbox) {f : Frame}
    (hg : grants config d.s c f = true ↔ f.header.type = grantType config)
    (hfirst : f.header.type = .HELLO → count (grantType config) (inbox.take d.got) = 0) :
    ({ d.s with peers := peersAfter config d.s c f } : Session).authenticated c = true ↔
      0 < count (grantType config) (inbox.take d.got) + if f.header.type = grantType config then 1 else 0 := by
  have ha : ({ d.s with peers := peersAfter config d.s c f } : Session).authenticated c =
      (grants config d.s c f || !challenges config f && d.s.authenticated c) := by
    rw [← onFrame_authenticated config (fun _ _ => true)]
    exact authenticated_congr (by rw [onFrame_peers])
  rw [ha]
  by_cases hgt : f.header.type = grantType config
  · simp [hg.mpr hgt, hgt]
  · have hgf : grants config d.s c f = false := by
      rw [← Bool.not_eq_true]
      exact fun h => hgt (hg.mp h)
    rw [if_neg hgt, Nat.add_zero, ← hI.authenticated, hgf]
    by_cases hch : challenges config f = true
    · have hh : f.header.type = .HELLO := by
        simp only [challenges, saysHello, Bool.and_eq_true, beq_iff_eq] at hch
        exact hch.1.1
      have hna : ¬ d.s.authenticated c = true := by
        rw [hI.authenticated, hfirst hh]
        simp
      simp [hch, hna]
    · simp [hch]

/-- Handling the next frame keeps what a side holds in step with what it has handled. The
    other side's frames come in an order in which HELLO is the first to matter. -/
theorem Half.handle {peer : AppConfig} (hI : Half config c peer.deviceId d inbox) (hP : Paired config peer)
    (hr : (d.s.objs 0).running = true) {f : Frame} (hnext : inbox[d.got]? = some f) (hf : Configured peer f)
    (hfirst : f.header.type = .HELLO → count (grantType config) (inbox.take d.got) = 0)
    (hasked : f.header.type = .AUTH_RESPONSE → config.requireAuth = true ∧
      0 < count .HELLO (inbox.take d.got)) :
    Half config c peer.deviceId (d.handle config c f) inbox := by
  obtain ⟨hc, hw⟩ := hI.up hr
  have hd : d.handle config c f =
      { d with s := { d.s with peers := peersAfter config d.s c f }, sent := d.sent ++ answers config f
               got := d.got + 1
               log := d.log ++ (answers config f).map (fun f' => .sent c 0 f' true) ++
                 callbacks config d.s c f } := by
    simp only [Side.handle, onFrame_up config hc hw (hP.closes hf d.s), reaching_sent]
  have hg := grants_iff hP hc hf fun h => (hasked h).1
  have ht := take_succ_of_get hnext
  obtain ⟨a1, a2, a3⟩ := count_answers config f
  rw [hd]
  refine { hI with silent := ?_, got_le := ?_, configured := ?_, hellos := ?_, requests := ?_, responses := ?_,
                   authenticated := ?_, named := ?_, events := ?_, undisturbed := ?_ }
  · intro h; rw [hr] at h; cases h
  · exact (List.getElem?_eq_some_iff.mp hnext).1
  · intro g hg
    rcases List.mem_append.mp hg with hg | hg
    · exact hI.configured g hg
    · exact answers_configured f g hg
  · rw [count_append, a1]; exact hI.hellos
  · rw [count_append, a2, ht, count_append, count_singleton, hI.requests]
    cases config.requireAuth <;> simp
  · rw [count_append, a3, ht, count_append, count_singleton, hI.responses]
  · rw [ht, count_append, count_singleton]
    exact hI.authenticated_after hg hfirst
  · intro hn
    rw [ht, count_append, count_singleton] at hn
    by_cases hh : f.header.type = .HELLO
    · exact named_after hP hf fun h => absurd hh h
    · rw [if_neg hh, Nat.add_zero] at hn
      exact named_after hP hf fun _ => hI.named hn
  · have hs : connectedEvents ((answers config f).map fun f' => Out.sent c 0 f' true) = 0 := by
      simp [connectedEvents, List.countP_eq_zero, isConnected]
    have happ : ∀ l l' : List Out, connectedEvents (l ++ l') = connectedEvents l + connectedEvents l' :=
      fun l l' => List.countP_append
    rw [happ, happ, hs, count_callbacks, ht, count_append, count_singleton, hI.events]
    simp only [hg, Nat.add_zero]
  · intro k h reason hm
    rcases List.mem_append.mp hm with hm | hm
    · rcases List.mem_append.mp hm with hm | hm
      · exact hI.undisturbed k h reason hm
      · obtain ⟨g, -, he⟩ := List.mem_map.mp hm
        cases he
    · exact no_disconnect_callbacks d.s f k h reason hm

end

end LanTalk.Chat.Handshake
