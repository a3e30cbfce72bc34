/-
  LanTalk.Chat.Wiring — a session with the connections that `src/main.cpp` makes.
  `addConnection` registers a connection under an id of its own, and nothing hands that id
  to the connection's callbacks: `runListen`'s pass on the string its `connIdPtr` points at,
  which nothing assigns, and `runConnect`'s an empty literal. All connections of a process
  then share the `peers_` entry of the empty id, and the entries under the registered ids
  stay as `addConnection` left them.

  Proved: `broadcast_reaches_nobody`, in no run does a broadcast send anything, whatever
  HELLOs were received; `isolated_iff`, when the shared entry leaves connections apart.
-/

import LanTalk.Chat.Runs

namespace LanTalk.Chat

open LanTalk.Lib LanTalk.Network LanTalk.Config

/-! ## The wiring -/

inductive Command where
  | listen
  | connect
  deriving DecidableEq

/-- `std::make_shared<std::string>()`. -/
def connIdPtr : ConnId := []

def mainWiring : Command → Wiring
  | .listen => { frameId := fun _ => connIdPtr, lostId := fun _ => [] }
  | .connect => { frameId := fun _ => [], lostId := fun _ => [] }

/-- The states of a process of `main.cpp`; `ids h` is the id `addConnection` drew for `h`. -/
def Wired (config : AppConfig) (source : Handle → IdSource) (cmd : Command) : Sys → Prop :=
  Reachable config (fun h => makeConnId (source h)) (mainWiring cmd) Op.FromUser fun _ _ _ => True

theorem mainWiring_nil (cmd : Command) (h : Handle) :
    (mainWiring cmd).frameId h = [] ∧ (mainWiring cmd).lostId h = [] := by
  cases cmd <;> exact ⟨rfl, rfl⟩

section
variable {config : AppConfig} {source : Handle → IdSource} {ids : Handle → ConnId} {cmd : Command}

/-! ## The two maps -/

/-- No connection is registered under the id the callbacks pass, and no entry but that
    id's is ever AUTHENTICATED. -/
structure Unlinked (config : AppConfig) (s : Session) : Prop where
  unregistered : s.connections[([] : ConnId)]? = none
  only : ∀ c, s.authenticated c = true → c = []
  shared : ∀ peer, s.peers[([] : ConnId)]? = some peer → config.requireAuth = false →
    peer.state = .AUTHENTICATED
  guarded : config.requireAuth = true → s.authenticated [] = false

def EmptyId : Act → Prop
  | .frame c _ => c = []
  | _ => True

/-- A frame that comes under the unregistered id is granted only by a HELLO that needs no
    authentication. -/
theorem grants_unregistered {s : Session} (h : s.connections[([] : ConnId)]? = none) (f : Frame) :
    grants config s [] f = (saysHello f && !config.requireAuth) := by
  simp [grants, h]

theorem Unlinked.frame {net : Handle → Frame → Bool} {s : Session} (hI : Unlinked config s) (f : Frame) :
    Unlinked config (onFrame config net s [] f).s := by
  have hauth := onFrame_authenticated config net s [] f
  rw [grants_unregistered hI.unregistered] at hauth
  refine ⟨by rw [onFrame_connections]; exact hI.unregistered, ?_, ?_, ?_⟩
  · intro c h
    by_contra hne
    rw [onFrame_authenticated_other config net s f (Ne.symm hne)] at h
    exact hne (hI.only c h)
  · intro peer hp hr
    rw [onFrame_peers] at hp
    unfold peersAfter at hp
    split at hp
    · rw [find_insert, if_pos rfl] at hp
      cases hp; rfl
    · rw [if_neg (by simp [challenges, hr])] at hp
      exact hI.shared peer hp hr
  · intro hr
    rw [hauth, hr, hI.guarded hr]; simp

/-- The other pieces make no entry AUTHENTICATED, and none for the empty id. -/
theorem Unlinked.exec (hids : ∀ h, ids h ≠ []) {net : Handle → Frame → Bool} {s : Session} {a : Act}
    (hI : Unlinked config s) (ha : EmptyId a) : Unlinked config (exec config ids net s a).s := by
  by_cases hf : ∃ k f, a = .frame k f
  · obtain ⟨k, f, rfl⟩ := hf
    cases (show k = [] from ha)
    exact hI.frame f
  · simp only [not_exists] at hf
    have hm := exec_maps config ids net s a
    have hback : ∀ c, (Chat.exec config ids net s a).s.authenticated c = true → s.authenticated c = true :=
      fun c => exec_authenticated config ids net hf
    have hempty : (Chat.exec config ids net s a).s.connections[([] : ConnId)]? = none ∧
        ∀ peer, (Chat.exec config ids net s a).s.peers[([] : ConnId)]? = some peer →
          s.peers[([] : ConnId)]? = some peer := by
      have hc := hI.unregistered
      cases a with
      | register h =>
        rcases hm with ⟨-, hm⟩ | hm
        · rw [hm.1, hm.2, find_insert, find_insert, if_neg (hids h), if_neg (hids h)]; exact ⟨hc, fun _ => id⟩
        · rw [hm.1, hm.2]; exact ⟨hc, fun _ => id⟩
      | frame k f => exact absurd rfl (hf k f)
      | drop k reason =>
        rw [hm.1, hm.2, find_erase, find_erase]
        refine ⟨by split; rfl; exact hc, ?_⟩
        intro peer hp
        split at hp
        · cases hp
        · exact hp
      | stopAll => rw [hm.1, hm.2, find_empty, find_empty]; exact ⟨rfl, fun _ h => by cases h⟩
      | _ => rw [hm.1, hm.2]; exact ⟨hc, fun _ => id⟩
    refine ⟨hempty.1, fun c h => hI.only c (hback c h), fun peer hp => hI.shared peer (hempty.2 peer hp),
      fun hr => ?_⟩
    by_contra h
    have := hback [] (by simpa using h)
    rw [hI.guarded hr] at this
    cases this

theorem Unlinked.lost (hids : ∀ h, ids h ≠ []) {s : Session} (hI : Unlinked config s) :
    Unlinked config (onDisconnect s []).s :=
  @Unlinked.exec config ids hids (fun _ _ => true) s (.drop [] []) hI trivial

theorem Unlinked.congr {s s' : Session} (hc : s'.connections = s.connections) (hp : s'.peers = s.peers)
    (h : Unlinked config s) : Unlinked config s' := by
  have ha : ∀ c, s'.authenticated c = s.authenticated c := fun c => authenticated_congr (by rw [hp])
  exact ⟨by rw [hc]; exact h.unregistered, fun c hc => h.only c (by rwa [← ha]), by rw [hp]; exact h.shared,
    fun hr => by rw [ha]; exact h.guarded hr⟩

theorem wired_rule (hids : ∀ h, ids h ≠ []) : Rule config ids (mainWiring cmd) Op.FromUser (fun _ _ _ => True)
    (fun s _ => Unlinked config s) (fun _ a => EmptyId a) where
  init := ⟨find_empty _, fun c h => by simp [Session.authenticated] at h, fun peer h => by simp at h,
    fun _ => by simp [Session.authenticated]⟩
  maps := fun hc hp h => h.congr hc hp
  older := fun _ h => h
  call := by
    intro op h log ho a ha
    cases op <;> first | exact ho.elim | (cases List.mem_singleton.mp ha; trivial)
  frame := fun h f _ => (mainWiring_nil cmd h).1
  drop := fun _ _ _ => trivial
  limit := fun _ _ => trivial
  refuse := fun _ _ _ => trivial
  exec := by
    intro s log a t net _ hI ha
    refine ⟨hI.exec hids ha, ?_⟩
    intro b hb
    have h := mem_exec_rest config ids net hb
    cases b with
    | frame c f => exact h.elim
    | _ => trivial

theorem Wired.unlinked {S : Sys} (h : Wired config source cmd S) : Unlinked config S.s :=
  (Reachable.rule (wired_rule fun _ => makeConnId_ne_nil _) h).1

/-! ## Two clients -/

/-- A HELLO that names its device was received on connection `k`. -/
def helloOn (log : List (Tid × Out)) (k : Handle) : Bool :=
  log.any fun e => match e with
    | (.recv k', .frame _ f _) => k' == k && saysHello f
    | _ => false

def drawn (h : Handle) : IdSource := .bytes (Vector.replicate 8 (UInt8.ofNat h))

/-- `lantalk listen` accepts two connections, and device `b` says HELLO on the first. -/
def twoClients : List Label :=
  let net := fun _ _ => true
  [.call 0 .start, .run (.app 0) net,
    .call 0 .addConnection, .run (.app 0) net, .run (.app 0) net, .run (.app 0) net,
    .call 0 .addConnection, .run (.app 0) net, .run (.app 0) net, .run (.app 0) net,
    .poll 0, .read 0 (some (Frame.create .HELLO (helloPayload { deviceId := str "b" })).serialize) false,
    .run (.recv 0) net, .run (.recv 0) net]

/-- Where it leaves the process. -/
def greeted (S : Sys) : Bool :=
  S.s.connections[makeConnId (drawn 0)]? = some 0 && (S.s.objs 0).writable && helloOn S.log 0 &&
    broadcastOut (fun _ _ => true) S.s (newMessage {} [] 0 []).toJson == [] &&
    S.s.authenticated [] && (S.s.objs 1).running && !helloOn S.log 1

theorem twoClients_greeted : ∃ S, Wired {} drawn .listen S ∧ greeted S = true := by
  have hrun : (Machine.run (Machine.checked (step {} (fun h => makeConnId (drawn h)) (mainWiring .listen))
      fun _ _ => true) {} twoClients).map greeted = some true := by decide +kernel
  refine Reachable.of_run (fun l hl => ?_) (fun _ _ _ _ _ _ => trivial) hrun
  simp only [twoClients, List.mem_cons, List.not_mem_nil, or_false] at hl
  rcases hl with rfl | rfl | rfl | rfl | rfl | rfl | rfl | rfl | rfl | rfl | rfl | rfl | rfl | rfl <;> trivial

/-! ## Delivery -/

/-- `k` is registered, and neither side has closed it. -/
def OpenOn (ids : Handle → ConnId) (s : Session) (k : Handle) : Prop :=
  s.connections[ids k]? = some k ∧ (s.objs k).writable = true

/-- Every broadcast sends a chat message on `k`, and `peers()` reports device `d` once for it. -/
def Delivers (config : AppConfig) (ids : Handle → ConnId) (net : Handle → Frame → Bool) (s : Session)
    (k : Handle) (d : Bytes) : Prop :=
  (∀ msgId timestampUtc text, ∃ f ok, f.header.type = .CHAT_MESSAGE ∧
    Out.sent (ids k) k f ok ∈ broadcastOut net s (newMessage config msgId timestampUtc text).toJson) ∧
  (s.peers.toList.countP fun e => e.1 == ids k && e.2.state == .AUTHENTICATED && e.2.deviceId == d) = 1

/-- A broadcast finds no AUTHENTICATED entry beside a registered connection. -/
theorem Unlinked.broadcastOut {s : Session} (h : Unlinked config s) (net : Handle → Frame → Bool)
    (json : Bytes) :
    broadcastOut net s json = [] := by
  apply List.eq_nil_iff_forall_not_mem.mpr
  intro o ho
  obtain ⟨c, k, ok, -, ha, hc⟩ := mem_broadcastOut net ho
  rw [h.only c ha, h.unregistered] at hc
  cases hc

/-- In no state that a process of `main.cpp` reaches does a broadcast reach a connection,
    whatever HELLOs were received on it. -/
theorem broadcast_reaches_nobody {S : Sys} (h : Wired config source cmd S) (net : Handle → Frame → Bool)
    (k : Handle) (d : Bytes) : ¬ Delivers config (fun h => makeConnId (source h)) net S.s k d := by
  intro h
  obtain ⟨hb, -⟩ := h
  obtain ⟨f, ok, -, ho⟩ := hb [] 0 []
  rw [h.unlinked.broadcastOut] at ho
  cases ho

/-- The first connection is open and its device has said HELLO, but a broadcast sends nothing on it. -/
theorem hello_without_delivery :
    ∃ S, Wired {} drawn .listen S ∧ OpenOn (fun h => makeConnId (drawn h)) S.s 0 ∧ helloOn S.log 0 = true ∧
      ¬ Delivers {} (fun h => makeConnId (drawn h)) (fun _ _ => true) S.s 0 (str "b") := by
  obtain ⟨S, hS, h⟩ := twoClients_greeted
  simp only [greeted, Bool.and_eq_true, beq_iff_eq, decide_eq_true_eq] at h
  obtain ⟨⟨⟨⟨⟨⟨h1, h2⟩, h3⟩, h4⟩, -⟩, -⟩, -⟩ := h
  refine ⟨S, hS, ⟨h1, h2⟩, h3, ?_⟩
  intro hd
  obtain ⟨f, ok, -, ho⟩ := hd.1 [] 0 []
  rw [h4] at ho
  cases ho

theorem broadcast_reaches_nobody_greeted :
    ∃ S, Wired {} drawn .listen S ∧ greeted S = true ∧
      ¬ Delivers {} (fun h => makeConnId (drawn h)) (fun _ _ => true) S.s 0 (str "b") := by
  obtain ⟨S, hS, h⟩ := twoClients_greeted
  exact ⟨S, hS, h, broadcast_reaches_nobody hS (fun _ _ => true) 0 (str "b")⟩

/-! ## Isolation -/

/-- What `peers()` reports for a connection whose frames come under `c`. -/
def identity (s : Session) (c : ConnId) : Option PeerInfo :=
  s.peers[c]?.filter fun peer => peer.state == .AUTHENTICATED

theorem identity_none {s : Session} {c : ConnId} (h : s.authenticated c = false) : identity s c = none := by
  unfold identity
  unfold Session.authenticated at h
  split at h
  · rename_i peer hp; rw [hp]; simpa using h
  · rename_i hp; rw [hp]; rfl

def runPieces (config : AppConfig) (ids : Handle → ConnId) :
    Session → List (Act × (Handle → Frame → Bool)) → Session
  | s, [] => s
  | s, a :: later => runPieces config ids (exec config ids a.2 s a.1).s later

theorem Unlinked.runPieces (hids : ∀ h, ids h ≠ []) {s : Session} {later : List (Act × (Handle → Frame → Bool))}
    (hI : Unlinked config s)
    (hl : ∀ a ∈ later, EmptyId a.1) : Unlinked config (runPieces config ids s later) := by
  induction later generalizing s with
  | nil => exact hI
  | cons a later ih =>
    exact ih (hI.exec hids (hl a List.mem_cons_self)) fun b hb => hl b (List.mem_cons_of_mem _ hb)

/-- The receive thread of `k` may hand over another frame. -/
def CanReceive (S : Sys) (k : Handle) : Prop :=
  (S.s.objs k).running = true ∨ ∃ c f, Act.frame c f ∈ S.todo (.recv k)

/-- The receive thread of `k` may report that `k` was closed. -/
def CanClose (S : Sys) (k : Handle) : Prop :=
  (S.s.objs k).running = true ∨ ∃ c reason, Act.drop c reason ∈ S.todo (.recv k)

/-- Connections do not affect each other: a chat message is taken from those only that said
    HELLO, and when one is closed, whatever comes later, the session treats the frames of
    the others, and reports their peers, as if it had not been. -/
structure Isolated (config : AppConfig) (ids : Handle → ConnId) (w : Wiring) (S : Sys) : Prop where
  own_hello : ∀ net k f, CanReceive S k → Handed config net S.s (w.frameId k) f → helloOn S.log k = true
  others_close : ∀ k k', k ≠ k' → CanReceive S k → CanClose S k' → ∀ later, (∀ a ∈ later, EmptyId a.1) →
    let s := runPieces config ids S.s later
    let s' := runPieces config ids (onDisconnect S.s (w.lostId k')).s later
    (∀ net f, Handed config net s' (w.frameId k) f ↔ Handed config net s (w.frameId k) f) ∧
      identity s' (w.frameId k) = identity s (w.frameId k)

/-- Nobody's HELLO counts, or none does now, or the one connection left has said it. -/
def OneSpeaker (config : AppConfig) (S : Sys) : Prop :=
  config.requireAuth = true ∨ S.s.peers[([] : ConnId)]? = none ∨
    (∀ k, CanReceive S k → helloOn S.log k = true) ∧ ∀ k k', CanReceive S k → CanClose S k' → k = k'

/-- A chat message that any session can read. -/
def plainChat : Frame :=
  Frame.create .CHAT_MESSAGE (newMessage { deviceId := str "b" } (str "1") 0 (str "hi")).toJson

theorem handed_plainChat (net : Handle → Frame → Bool) (s : Session) (c : ConnId) :
    Handed config net s c plainChat ↔ s.authenticated c = true := by
  have h : (ChatMessage.fromJson plainChat.payloadAsString).isSome = true := by decide
  rw [handed_iff]
  exact ⟨fun h => h.2.1, fun ha => ⟨rfl, ha, h⟩⟩

/-- With `requireAuth` nothing that comes under the empty id is handed on. -/
theorem Unlinked.never_handed {s : Session} (hI : Unlinked config s) (hr : config.requireAuth = true)
    (net : Handle → Frame → Bool) (f : Frame) : ¬ Handed config net s [] f := by
  intro hf
  have ha := ((handed_iff config net s [] f).mp hf).2.1
  rw [hI.guarded hr] at ha
  cases ha

theorem isolated_of_requireAuth (hids : ∀ h, ids h ≠ []) {S : Sys} (hI : Unlinked config S.s)
    (hr : config.requireAuth = true) : Isolated config ids (mainWiring cmd) S where
  own_hello := by
    intro net k f _ hf
    rw [(mainWiring_nil cmd k).1] at hf
    exact absurd hf (hI.never_handed hr net f)
  others_close := by
    intro k k' _ _ _ later hl
    rw [(mainWiring_nil cmd k).1, (mainWiring_nil cmd k').2]
    have u1 := hI.runPieces hids hl
    have u2 := (hI.lost hids).runPieces hids hl
    refine ⟨fun net f => iff_of_false (u2.never_handed hr net f) (u1.never_handed hr net f), ?_⟩
    rw [identity_none (u2.guarded hr), identity_none (u1.guarded hr)]

/-- Without an entry to share nothing is handed on, and a closure changes nothing. -/
theorem isolated_of_no_entry {S : Sys} (hI : Unlinked config S.s) (hp : S.s.peers[([] : ConnId)]? = none) :
    Isolated config ids (mainWiring cmd) S where
  own_hello := by
    intro net k f _ hf
    rw [(mainWiring_nil cmd k).1, handed_iff] at hf
    obtain ⟨peer, hp', -⟩ := (authenticated_iff _ _).mp hf.2.1
    rw [hp] at hp'
    cases hp'
  others_close := by
    intro k k' _ _ _ later _
    have hsame : (onDisconnect S.s ((mainWiring cmd).lostId k')).s = S.s := by
      rw [(mainWiring_nil cmd k').2]
      simp only [onDisconnect, erase_absent hp, erase_absent hI.unregistered]
    rw [hsame]
    exact ⟨fun _ _ => Iff.rfl, rfl⟩

/-- Where the shared entry is AUTHENTICATED, every connection that can still receive is
    heard under it, and every closure erases it. -/
theorem Isolated.alone {S : Sys} (hi : Isolated config ids (mainWiring cmd) S)
    (ha : S.s.authenticated [] = true) :
    (∀ k, CanReceive S k → helloOn S.log k = true) ∧ ∀ k k', CanReceive S k → CanClose S k' → k = k' := by
  constructor
  · intro k hk
    refine hi.own_hello (fun _ _ => true) k plainChat hk ?_
    rw [(mainWiring_nil cmd k).1, handed_plainChat]
    exact ha
  · intro k k' hk hk'
    by_contra hne
    have hc := (hi.others_close k k' hne hk hk' [] (by simp)).1 (fun _ _ => true) plainChat
    rw [(mainWiring_nil cmd k).1, (mainWiring_nil cmd k').2, handed_plainChat, handed_plainChat] at hc
    obtain ⟨peer, hp, -⟩ := (authenticated_iff _ _).mp (hc.mpr ha)
    simp only [runPieces, onDisconnect, find_erase, if_pos] at hp
    cases hp

/-- Through the callbacks of `main.cpp` connections are isolated in a state just where
    there is nothing to keep apart in it. -/
theorem isolated_iff {S : Sys} (h : Wired config source cmd S) :
    Isolated config (fun h => makeConnId (source h)) (mainWiring cmd) S ↔ OneSpeaker config S := by
  have hU := h.unlinked
  constructor
  · intro hi
    by_cases hr : config.requireAuth = true
    · exact .inl hr
    · rw [Bool.not_eq_true] at hr
      cases hp : S.s.peers[([] : ConnId)]? with
      | none => exact .inr (.inl hp)
      | some peer =>
        have ha : S.s.authenticated [] = true := (authenticated_iff _ _).mpr ⟨peer, hp, hU.shared peer hp hr⟩
        exact .inr (.inr (hi.alone ha))
  · intro h
    rcases h with hr | hp | ⟨h1, h2⟩
    · exact isolated_of_requireAuth (fun _ => makeConnId_ne_nil _) hU hr
    · exact isolated_of_no_entry hU hp
    · exact ⟨fun net k f hk _ => h1 k hk, fun k k' hne hk hk' => absurd (h2 k k' hk hk') hne⟩

/-- A chat message from the second connection, on which nobody said HELLO, would be taken,
    for as long as the first is not closed. -/
theorem clients_not_isolated :
    ∃ S, Wired {} drawn .listen S ∧ ¬ Isolated {} (fun h => makeConnId (drawn h)) (mainWiring .listen) S := by
  obtain ⟨S, hS, h⟩ := twoClients_greeted
  simp only [greeted, Bool.and_eq_true, Bool.not_eq_true'] at h
  obtain ⟨⟨⟨-, h1⟩, h2⟩, h3⟩ := h
  refine ⟨S, hS, ?_⟩
  intro hi
  have := hi.own_hello (fun _ _ => true) 1 plainChat (.inl h2) ((handed_plainChat _ _ _).mpr h1)
  rw [h3] at this
  cases this

theorem isolated_iff_greeted :
    ∃ S, Wired {} drawn .listen S ∧ greeted S = true ∧
      (Isolated {} (fun h => makeConnId (drawn h)) (mainWiring .listen) S ↔ OneSpeaker {} S) := by
  obtain ⟨S, hS, h⟩ := twoClients_greeted
  exact ⟨S, hS, h, isolated_iff hS⟩

end

end LanTalk.Chat
