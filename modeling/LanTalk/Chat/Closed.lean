/-
  LanTalk.Chat.Closed — what becomes of a connection id once the session has disconnected
  it. `Connection::disconnect` closes the connection, but the session's own state of the id
  is its `peers_` entry, which only `onDisconnect` erases, and the receive thread goes on
  with the frames it has decoded already. So a frame that closes an AUTHENTICATED id leaves
  it AUTHENTICATED, and a frame that grants one opens it again after it was closed
  (`closed_then_heard`).

  Proved: `closed_stays_closed`, in every run in which neither happens a closed id stays
  closed, and the frame in which one first happens breaks it.
-/

import LanTalk.Chat.Runs

namespace LanTalk.Chat

open LanTalk.Lib LanTalk.Network LanTalk.Config

/-! ## Closed ids -/

/-- The reasons for which a handler disconnects. -/
def closingReasons : List Bytes := [invalidHello, peerRequestedDisconnect, authenticationFailed]

def isClosing (c : ConnId) : Out → Bool
  | .disconnect c' _ reason => c' == c && closingReasons.contains reason
  | _ => false

def isRegistered (c : ConnId) : Out → Bool
  | .registered c' _ => c' == c
  | _ => false

/-- A handler has disconnected `c` since a connection was last registered under it. -/
def closedIn : List (Tid × Out) → ConnId → Bool
  | [], _ => false
  | e :: older, c => isClosing c e.2 || !isRegistered c e.2 && closedIn older c

/-- `c` has an entry that `peers()` returns and `peerCount()` counts. -/
def Lists (s : Session) (c : ConnId) : Prop := ∃ e ∈ s.peers.toList, e.1 = c ∧ e.2.state = .AUTHENTICATED

theorem lists_iff (s : Session) (c : ConnId) : Lists s c ↔ s.authenticated c = true := by
  rw [authenticated_iff]
  constructor
  · intro h
    obtain ⟨e, he, rfl, hs⟩ := h
    exact ⟨e.2, (mem_toList _ _).mp he, hs⟩
  · intro h
    obtain ⟨peer, hp, hs⟩ := h
    exact ⟨(c, peer), (mem_toList _ (c, peer)).mpr hp, rfl, hs⟩

theorem closedIn_push {es log : List (Tid × Out)} {c : ConnId} (h : closedIn (es ++ log) c = true) :
    (∃ e ∈ es, isClosing c e.2 = true) ∨ closedIn log c = true := by
  induction es with
  | nil => exact .inr h
  | cons e es ih =>
    simp only [List.cons_append, closedIn, Bool.or_eq_true, Bool.and_eq_true] at h
    rcases h with h | ⟨-, h⟩
    · exact .inl ⟨e, List.mem_cons_self, h⟩
    · rcases ih h with ⟨e', he', h'⟩ | h'
      · exact .inl ⟨e', List.mem_cons_of_mem _ he', h'⟩
      · exact .inr h'

theorem closedIn_of_closing {es log : List (Tid × Out)} {c : ConnId} (hr : ∀ e ∈ es, isRegistered c e.2 = false)
    (h : ∃ e ∈ es, isClosing c e.2 = true) : closedIn (es ++ log) c = true := by
  induction es with
  | nil => obtain ⟨e, he, -⟩ := h; cases he
  | cons e es ih =>
    simp only [List.cons_append, closedIn, Bool.or_eq_true, Bool.and_eq_true]
    obtain ⟨e', he', h'⟩ := h
    rcases List.mem_cons.mp he' with rfl | he'
    · exact .inl h'
    · refine .inr ⟨by rw [hr e List.mem_cons_self]; rfl,
        ih (fun x hx => hr x (List.mem_cons_of_mem _ hx)) ⟨e', he', h'⟩⟩

section
variable {config : AppConfig} {ids : Handle → ConnId} {w : Wiring}

/-! ## What a frame may do -/

/-- A closing frame finds its id not AUTHENTICATED, and no frame grants a closed id. -/
def Orderly (config : AppConfig) (s : Session) (log : List (Tid × Out)) : Act → Prop
  | .frame c f =>
    (closes config s c f = true → s.authenticated c = false) ∧
      (closedIn log c = true → grants config s c f = false)
  | _ => True

instance (config : AppConfig) (s : Session) (log : List (Tid × Out)) :
    (a : Act) → Decidable (Orderly config s log a)
  | .frame _ _ => inferInstanceAs (Decidable ((_ = true → _ = false) ∧ (_ = true → _ = false)))
  | .startSession | .register _ | .start _ | .sendHello _ _ | .drop _ _ | .pick _ _ | .chat _ _ _ | .broadcast _
  | .sweep | .stop | .stopAll | .limit _ | .refuse _ _ | .emit _ => inferInstanceAs (Decidable True)

/-- A piece that shows something shows no closing and no registration. -/
def PlainAct : Act → Prop
  | .emit (.message _ _) | .emit (.peerEvent _ _ _) => True
  | .emit _ => False
  | _ => True

/-- What a piece leaves to do is plain. -/
theorem plainAct_rest {net : Handle → Frame → Bool} {s : Session} {a b : Act}
    (hb : b ∈ (exec config ids net s a).rest) : PlainAct b := by
  have h := mem_exec_rest config ids net hb
  cases b with
  | emit o =>
    cases o with
    | message c m => trivial
    | peerEvent c info up => trivial
    | _ => exact h.elim
  | _ => trivial

theorem frame_log {net : Handle → Frame → Bool} {s : Session} {c : ConnId} {f : Frame} {o : Out}
    (ho : o ∈ (exec config ids net s (.frame c f)).out) :
    (∀ k, isRegistered k o = false) ∧ ∀ k, isClosing k o = true → k = c ∧ closes config s c f = true := by
  rcases mem_exec_out config ids net ho with rfl | h
  · exact ⟨fun _ => rfl, fun _ h => by cases h⟩
  · rcases mem_onFrame_out config net h with ⟨h', f', ok, rfl, -⟩ | ⟨h', reason, rfl, -, hc⟩
    · exact ⟨fun _ => rfl, fun _ h => by cases h⟩
    · refine ⟨fun _ => rfl, ?_⟩
      intro k hk
      simp only [isClosing, Bool.and_eq_true, beq_iff_eq] at hk
      exact ⟨hk.1.symm, hc⟩

/-- Only frames close. -/
theorem other_log {net : Handle → Frame → Bool} {s : Session} {a : Act} (hf : ∀ c f, a ≠ .frame c f)
    (ha : PlainAct a)
    {o : Out} (ho : o ∈ (exec config ids net s a).out) (k : ConnId) : isClosing k o = false := by
  have h := mem_exec_out config ids net ho
  cases a with
  | frame c f => exact absurd rfl (hf c f)
  | register h' => cases h; rfl
  | sendHello k c => obtain ⟨h', ok, rfl⟩ := h; rfl
  | chat c h' json => obtain ⟨ok, rfl⟩ := h; rfl
  | broadcast json => obtain ⟨c, h', ok, rfl, -⟩ := h; rfl
  | sweep => obtain ⟨c, h', ok, rfl⟩ := h; rfl
  | stopAll =>
    obtain ⟨c, h', rfl | ⟨ok, rfl⟩⟩ := h
    · have hn : closingReasons.contains sessionStopped = false := by decide
      rw [isClosing, hn, Bool.and_false]
    · rfl
  | emit o' =>
    cases h
    cases o with
    | disconnect c h' reason => exact ha.elim
    | _ => rfl
  | _ => exact h.elim

/-- A closed id is not listed. -/
def ClosedUnlisted (s : Session) (log : List (Tid × Out)) : Prop :=
  ∀ c, closedIn log c = true → s.authenticated c = false

/-- Closed ids are unlisted after a frame just if it was orderly. -/
theorem closedUnlisted_frame (t : Tid) (net : Handle → Frame → Bool) {s : Session} {log : List (Tid × Out)}
    (hI : ClosedUnlisted s log) (c : ConnId) (f : Frame) (ho : Orderly config s log (.frame c f)) :
    let p := exec config ids net s (.frame c f)
    ClosedUnlisted p.s ((p.out.map fun o => (t, o)).reverse ++ log) := by
  intro p k hk
  have hk' : (onFrame config net s c f).s.authenticated k = false := by
    rcases closedIn_push hk with ⟨e, he, hc⟩ | hc
    · obtain ⟨o, hout, rfl⟩ := List.mem_map.mp (List.mem_reverse.mp he)
      obtain ⟨rfl, hcl⟩ := (frame_log hout).2 k hc
      rw [onFrame_authenticated, (closes_grants config hcl).1, ho.1 hcl]
      simp
    · by_cases hkc : c = k
      · subst hkc
        rw [onFrame_authenticated, ho.2 hc, hI c hc]
        simp
      · rw [onFrame_authenticated_other config net s f hkc]
        exact hI k hc
  exact hk'

theorem closedUnlisted_other (t : Tid) (net : Handle → Frame → Bool) {s : Session} {log : List (Tid × Out)}
    {a : Act} (hI : ClosedUnlisted s log) (hf : ∀ c f, a ≠ .frame c f) (ha : PlainAct a) :
    let p := exec config ids net s a
    ClosedUnlisted p.s ((p.out.map fun o => (t, o)).reverse ++ log) := by
  intro p k hk
  rcases closedIn_push hk with ⟨e, he, hc⟩ | hc
  · obtain ⟨o, hout, rfl⟩ := List.mem_map.mp (List.mem_reverse.mp he)
    rw [other_log hf ha hout k] at hc
    cases hc
  · by_contra h
    have := exec_authenticated config ids net hf (by simpa using h)
    rw [hI k hc] at this
    cases this

theorem closed_rule {ops : Op → Prop} :
    Rule config ids w ops (Orderly config) ClosedUnlisted (fun _ => PlainAct) where
  init := fun c h => by cases h
  maps := by
    intro s s' log _ hp h c hc
    have ha : s'.authenticated c = s.authenticated c := authenticated_congr (by rw [hp])
    rw [ha]
    exact h c hc
  older := fun _ h => h
  call := by
    intro op h log _ a ha
    cases op <;> cases List.mem_singleton.mp ha <;> trivial
  frame := fun _ _ _ => trivial
  drop := fun _ _ _ => trivial
  limit := fun _ _ => trivial
  refuse := fun _ _ _ => trivial
  exec := by
    intro s log a t net ho hI ha
    refine ⟨?_, ?_⟩
    · by_cases hf : ∃ c f, a = .frame c f
      · obtain ⟨c, f, rfl⟩ := hf
        exact closedUnlisted_frame t net hI c f ho
      · simp only [not_exists] at hf
        exact closedUnlisted_other t net hI hf ha
    · exact fun b hb => plainAct_rest hb

/-! ## Staying closed -/

/-- A frame handled in a state leaves closed ids closed: on a closed id it leads to no
    callback, and no closed id is listed when its handler is done. -/
structure StaysClosed (config : AppConfig) (ids : Handle → ConnId) (net : Handle → Frame → Bool) (t : Tid)
    (s : Session) (log : List (Tid × Out)) (c : ConnId) (f : Frame) : Prop where
  quiet : closedIn log c = true → (exec config ids net s (.frame c f)).rest = []
  unlisted : ∀ k,
    closedIn (((exec config ids net s (.frame c f)).out.map fun o => (t, o)).reverse ++ log) k = true →
    ¬ Lists (exec config ids net s (.frame c f)).s k

/-- Only an orderly frame leaves closed ids closed. -/
theorem StaysClosed.orderly {net : Handle → Frame → Bool} {t : Tid} {s : Session} {log : List (Tid × Out)}
    {c : ConnId}
    {f : Frame} (hs : StaysClosed config ids net t s log c f) : Orderly config s log (.frame c f) := by
  refine ⟨?_, ?_⟩
  · intro hcl
    obtain ⟨k, reason, hmem, hr⟩ := closes_logged config net hcl
    have hd : Out.disconnect c k reason ∈ (exec config ids net s (.frame c f)).out :=
      List.mem_cons_of_mem _ hmem
    have hc :
        closedIn (((exec config ids net s (.frame c f)).out.map fun o => (t, o)).reverse ++ log) c = true := by
      refine closedIn_of_closing (fun e he => ?_) ⟨(t, .disconnect c k reason), ?_, ?_⟩
      · obtain ⟨o, ho, rfl⟩ := List.mem_map.mp (List.mem_reverse.mp he)
        exact (frame_log ho).1 c
      · exact List.mem_reverse.mpr (List.mem_map.mpr ⟨_, hd, rfl⟩)
      · simpa [isClosing, closingReasons] using hr
    have hn : ¬ (onFrame config net s c f).s.authenticated c = true :=
      fun ha => hs.unlisted c hc ((lists_iff _ c).mpr ha)
    rw [onFrame_authenticated, (closes_grants config hcl).1, (closes_grants config hcl).2] at hn
    simpa using hn
  · intro hc
    have hq : (onFrame config net s c f).after.map Act.emit = [] := hs.quiet hc
    by_contra hg
    rw [Bool.not_eq_false] at hg
    rw [onFrame_after, callbacks, if_pos hg] at hq
    cases hq

theorem Orderly.staysClosed (net : Handle → Frame → Bool) (t : Tid) {s : Session} {log : List (Tid × Out)}
    (hI : ClosedUnlisted s log) {c : ConnId} {f : Frame} (ho : Orderly config s log (.frame c f)) :
    StaysClosed config ids net t s log c f := by
  refine ⟨?_, ?_⟩
  · intro hc
    have hcb : callbacks config s c f = [] := by simp [callbacks, ho.2 hc, hI c hc]
    show (onFrame config net s c f).after.map Act.emit = []
    rw [onFrame_after, hcb]
    rfl
  · intro k hk
    rw [lists_iff, closedUnlisted_frame t net hI c f ho k hk]
    simp

/-- In every state of a run whose frames were orderly so far no closed id is listed, and
    the next frame leaves closed ids closed just if it is orderly too. -/
theorem closed_stays_closed {ops : Op → Prop} {S : Sys} (h : Reachable config ids w ops (Orderly config) S) :
    (∀ c, closedIn S.log c = true → ¬ Lists S.s c) ∧
      ∀ t net c f, StaysClosed config ids net t S.s S.log c f ↔ Orderly config S.s S.log (.frame c f) := by
  have hI : ClosedUnlisted S.s S.log := (Reachable.rule closed_rule h).1
  refine ⟨?_, fun t net c f => ⟨fun hs => hs.orderly, fun ho => ho.staysClosed net t hI⟩⟩
  intro c hc
  rw [lists_iff, hI c hc]
  simp

end

/-! ## One read -/

/-- The callbacks pass the registered id. -/
def registeredWiring (ids : Handle → ConnId) : Wiring := { frameId := ids, lostId := ids }

/-- A connection is added, and one read returns the frames of its peer. -/
def oneRead (fs : List Frame) (pieces : Nat) : List Label :=
  let net := fun _ _ => true
  [.call 0 .start, .run (.app 0) net, .call 0 .addConnection, .run (.app 0) net, .run (.app 0) net,
    .run (.app 0) net,
    .poll 0, .read 0 (some (fs.flatMap Frame.serialize)) false] ++ List.replicate pieces (.run (.recv 0) net)

def hello : Frame := Frame.create .HELLO (helloPayload { deviceId := str "b" })
def bye : Frame := Frame.create .DISCONNECT []
def chat : Frame :=
  Frame.create .CHAT_MESSAGE (newMessage { deviceId := str "b" } (str "1") 0 (str "hi")).toJson

theorem oneRead_fromUser (fs : List Frame) (pieces : Nat) : ∀ l ∈ oneRead fs pieces, l.Calls Op.FromUser := by
  intro l hl
  rcases List.mem_append.mp hl with hl | hl
  · simp only [List.mem_cons, List.not_mem_nil, or_false] at hl
    rcases hl with rfl | rfl | rfl | rfl | rfl | rfl | rfl | rfl <;> trivial
  · rw [List.eq_of_mem_replicate hl]; trivial

/-- A peer that says HELLO, then DISCONNECT, then something: it is heard after it was
    disconnected, and still listed. -/
theorem closed_then_heard :
    ∃ (S : Sys) (m : ChatMessage) (f : Frame) (r : Bool) (older : List (Tid × Out)),
      Reachable {} (fun _ => str "c") (registeredWiring fun _ => str "c") Op.FromUser (fun _ _ _ => True) S ∧
        S.log = (.recv 0, .message (str "c") m) :: (.recv 0, .frame (str "c") f r) :: older ∧
        closedIn older (str "c") = true ∧ Lists S.s (str "c") := by
  let m := newMessage { deviceId := str "b" } (str "1") 0 (str "hi")
  have hrun : ((Machine.run (Machine.checked (step {} (fun _ => str "c") (registeredWiring fun _ => str "c"))
      fun _ _ => true) {} (oneRead [hello, bye, chat] 5)).map fun S =>
        decide (S.log.take 2 = [(.recv 0, .message (str "c") m), (.recv 0, .frame (str "c") chat true)]) &&
          (closedIn (S.log.drop 2) (str "c") && S.s.authenticated (str "c"))) = some true := by decide +kernel
  obtain ⟨S, hS, hp⟩ :
      ∃ S, Reachable {} (fun _ => str "c") (registeredWiring fun _ => str "c") Op.FromUser
        (fun _ _ _ => True) S ∧ _ :=
    Reachable.of_run (oneRead_fromUser _ _) (fun _ _ _ _ _ _ => trivial) hrun
  simp only [Bool.and_eq_true, decide_eq_true_eq] at hp
  obtain ⟨hl, hc, ha⟩ := hp
  refine ⟨S, m, chat, true, S.log.drop 2, hS, ?_, hc, (lists_iff _ _).mpr ha⟩
  calc S.log = S.log.take 2 ++ S.log.drop 2 := (List.take_append_drop 2 S.log).symm
    _ = (.recv 0, .message (str "c") m) :: (.recv 0, .frame (str "c") chat true) :: S.log.drop 2 := by
      rw [hl]; rfl

/-- A peer that leaves before it says HELLO stays out. -/
theorem closed_stays_closed_bye :
    ∃ S, closedIn S.log (str "c") = true ∧
      Reachable {} (fun _ => str "c") (registeredWiring fun _ => str "c") Op.FromUser (Orderly {}) S ∧
      ¬ Lists S.s (str "c") ∧
      (StaysClosed {} (fun _ => str "c") (fun _ _ => true) (.recv 0) S.s S.log (str "c") hello ↔
        Orderly {} S.s S.log (.frame (str "c") hello)) := by
  have hrun : ((Machine.run (Machine.checked (step {} (fun _ => str "c") (registeredWiring fun _ => str "c"))
      (passes (Orderly {}))) {} (oneRead [bye] 1)).map fun S => closedIn S.log (str "c")) = some true := by
    decide +kernel
  obtain ⟨S, hS, hp⟩ := Reachable.of_passing (oneRead_fromUser _ _) hrun
  have h := closed_stays_closed hS
  exact ⟨S, hp, hS, h.1 _ hp, h.2 (.recv 0) (fun _ _ => true) (str "c") hello⟩

end LanTalk.Chat
