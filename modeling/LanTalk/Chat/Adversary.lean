/-
  LanTalk.Chat.Adversary — a peer that does not know the session's hash. A strategy says
  what the peer sends next from what it has received; a `Duel` is the session it plays
  against, what the peer has received on its connection and what it has sent. Between its
  turns the session does whatever else it does (`Turn.other`), the same in every run.

  The session answers any peer's AUTH_REQUEST with its own hash (`handleAuthRequest`), which
  is what it takes for an answer to its own (`handleAuthResponse`): a peer that asks first
  and sends back what it hears is let in (`hash_is_reflected`).

  Proved: `unknown_hash_not_presented`, two sessions that differ in their hash do not both let
  in a peer with one AUTH_RESPONSE, unless one of them has told the peer its hash.
-/

import LanTalk.Chat.Apart

namespace LanTalk.Chat

open LanTalk.Lib LanTalk.Network LanTalk.Config

inductive Turn where
  /-- The peer sends its next frame. -/
  | attack
  | other (a : Act)
  deriving DecidableEq

structure Duel where
  s : Session := {}
  view : List Frame := []
  sent : List Frame := []

section
variable (config : AppConfig) (ids : Handle → ConnId) (net : Handle → Frame → Bool) (h : Handle)
  (strategy : List Frame → Frame) (turns : Nat → Turn)

def Duel.turn (d : Duel) : Turn → Duel
  | .attack =>
    let f := strategy d.view
    let e := onFrame config net d.s (ids h) f
    { s := e.s, view := d.view ++ reaching h e.out, sent := d.sent ++ [f] }
  | .other a =>
    let p := exec config ids net d.s a
    { d with s := p.s, view := d.view ++ reaching h p.out }

/-- The duel after a number of turns, from a session just made. -/
def duel : Nat → Duel
  | 0 => {}
  | n + 1 => (duel n).turn config ids net h strategy (turns n)

/-- How many AUTH_RESPONSEs the peer has sent. -/
def Duel.answers (d : Duel) : Nat := d.sent.countP fun f => f.header.type == .AUTH_RESPONSE

/-- The peer is about to send an AUTH_REQUEST that the session can answer. -/
def Duel.tells (d : Duel) : Turn → Bool
  | .attack => (strategy d.view).header.type == .AUTH_REQUEST && d.s.connections[ids h]?.any fun h' =>
    (d.s.objs h').writable
  | .other _ => false

/-- The peer's frames are those of its own turns. -/
def Elsewhere : Act → Prop
  | .frame c _ => c ≠ ids h
  | _ => True

end

/-- The same settings with another hash. -/
def withHash (config : AppConfig) (hash : Bytes) : AppConfig := { config with pskHash := hash }

section
variable {config : AppConfig} {ids : Handle → ConnId} {net : Handle → Frame → Bool} {h : Handle}
  {strategy : List Frame → Frame} {turns : Nat → Turn}

/-! ## What depends on the hash -/

/-- Only the two authentication frames make a session look at its hash. -/
theorem onFrame_withHash (h1 h2 : Bytes) (s : Session) (c : ConnId) {f : Frame}
    (hq : f.header.type ≠ .AUTH_REQUEST) (hr : f.header.type ≠ .AUTH_RESPONSE) :
    onFrame (withHash config h1) net s c f = onFrame (withHash config h2) net s c f := by
  unfold onFrame
  cases ht : f.header.type with
  | AUTH_REQUEST => exact absurd ht hq
  | AUTH_RESPONSE => exact absurd ht hr
  | _ => rfl

/-- An AUTH_REQUEST that the session cannot answer has no effect. -/
theorem onFrame_unanswered {s : Session} {c : ConnId} {f : Frame} (ht : f.header.type = .AUTH_REQUEST)
    (hw : (s.connections[c]?.any fun h' => (s.objs h').writable) = false) :
    onFrame config net s c f = { s := s } := by
  simp only [onFrame, ht, handleAuthRequest, Session.reply]
  cases hc : s.connections[c]? with
  | none => rfl
  | some h' =>
    simp only [hc, Option.any_some] at hw
    simp [Session.send, hw]

theorem duel_ownIds (config : AppConfig) (n : Nat) : OwnIds ids (duel config ids net h strategy turns n).s := by
  induction n with
  | zero => exact fun c k hc => by simp [duel] at hc
  | succ n ih =>
    simp only [duel]
    cases turns n with
    | attack => exact ih.exec config net (.frame (ids h) _)
    | other a => exact ih.exec config net a

/-- The peer cannot tell two runs apart: it has received and sent the same. -/
structure Duel.Alike (ids : Handle → ConnId) (h : Handle) (d d' : Duel) : Prop where
  s : Chat.Alike ids (ids h) d.s d'.s
  view : d'.view = d.view
  sent : d'.sent = d.sent

theorem Duel.Alike.answers {d d' : Duel} (hA : d.Alike ids h d') : d'.answers = d.answers := by
  rw [Duel.answers, hA.sent, Duel.answers]

/-- The peer's turn, if it has to do with the session's hash in neither run. -/
theorem Duel.Alike.attack {d d' : Duel} (hA : d.Alike ids h d') (hO : OwnIds ids d.s) (h1 h2 : Bytes)
    (hr : (strategy d.view).header.type ≠ .AUTH_RESPONSE) (hq : d.tells ids h strategy .attack = false) :
    (d.turn (withHash config h1) ids net h strategy .attack).Alike ids h
      (d'.turn (withHash config h2) ids net h strategy .attack) := by
  have hs : Chat.Alike ids (ids h) (onFrame (withHash config h1) net d.s (ids h) (strategy d.view)).s
        (onFrame (withHash config h2) net d'.s (ids h) (strategy d.view)).s ∧
      (onFrame (withHash config h2) net d'.s (ids h) (strategy d.view)).out =
        (onFrame (withHash config h1) net d.s (ids h) (strategy d.view)).out := by
    by_cases ht : (strategy d.view).header.type = .AUTH_REQUEST
    · have hw : (d.s.connections[ids h]?.any fun h' => (d.s.objs h').writable) = false := by
        simpa [Duel.tells, ht] using hq
      have hw' : (d'.s.connections[ids h]?.any fun h' => (d'.s.objs h').writable) = false := by
        rw [hA.s.connections]
        cases hc : d.s.connections[ids h]? with
        | none => rfl
        | some k => simpa [hc, hA.s.objs k (hO _ _ hc)] using hw
      rw [onFrame_unanswered ht hw, onFrame_unanswered ht hw']
      exact ⟨hA.s, rfl⟩
    · rw [onFrame_withHash h2 h1 _ _ ht hr]
      exact onFrame_alike hA.s hO _
  simp only [Duel.turn, hA.view, hA.sent, hs.2]
  exact ⟨hs.1, rfl, rfl⟩

/-- What else a session does. -/
theorem Duel.Alike.other {d d' : Duel} (hA : d.Alike ids h d') (hO : OwnIds ids d.s) (hO' : OwnIds ids d'.s)
    (h1 h2 : Bytes) {a : Act} (ha : Elsewhere ids h a) :
    (d.turn (withHash config h1) ids net h strategy (.other a)).Alike ids h
      (d'.turn (withHash config h2) ids net h strategy (.other a)) := by
  have hs : Chat.Alike ids (ids h) (exec (withHash config h1) ids net d.s a).s
        (exec (withHash config h2) ids net d'.s a).s ∧
      reaching h (exec (withHash config h2) ids net d'.s a).out =
        reaching h (exec (withHash config h1) ids net d.s a).out := by
    by_cases hf : ∃ k f, a = .frame k f
    · obtain ⟨k, f, rfl⟩ := hf
      obtain ⟨e1, e2⟩ := onFrame_elsewhere (withHash config h1) net hO ha f
      obtain ⟨e1', e2'⟩ := onFrame_elsewhere (withHash config h2) net hO' ha f
      exact ⟨(e1.symm.trans hA.s).trans e1', (e2' h rfl).trans (e2 h rfl).symm⟩
    · simp only [not_exists] at hf
      have he : exec (withHash config h2) ids net d'.s a = exec (withHash config h1) ids net d'.s a := by
        cases a with
        | frame k f => exact absurd rfl (hf k f)
        | _ => rfl
      rw [he]
      exact exec_alike hA.s hO rfl hf
  simp only [Duel.turn, hA.view, hA.sent, hs.2]
  exact ⟨hs.1, rfl, rfl⟩

/-- The peer cannot tell the runs of two sessions that differ in their hash apart until it
    answers a challenge, if neither is asked for its hash before. -/
theorem duel_agrees (h1 h2 : Bytes) (hother : ∀ k a, turns k = .other a → Elsewhere ids h a) {n : Nat}
    (hquiet : ∀ k < n, let d := duel (withHash config h1) ids net h strategy turns k
      d.answers = 0 → d.tells ids h strategy (turns k) = false)
    (h0 : (duel (withHash config h1) ids net h strategy turns n).answers = 0) :
    (duel (withHash config h1) ids net h strategy turns n).Alike ids h
      (duel (withHash config h2) ids net h strategy turns n) := by
  induction n with
  | zero => exact ⟨.refl _ _ _, rfl, rfl⟩
  | succ n ih =>
    have hq := hquiet n (Nat.lt_succ_self n)
    have hO : OwnIds ids (duel (withHash config h1) ids net h strategy turns n).s := duel_ownIds _ n
    have hO' : OwnIds ids (duel (withHash config h2) ids net h strategy turns n).s := duel_ownIds _ n
    have ih := ih fun k hk => hquiet k (Nat.lt_succ_of_lt hk)
    simp only [duel] at h0 hq ⊢
    cases ht : turns n with
    | other a =>
      simp only [ht, Duel.turn, Duel.answers] at h0
      exact (ih h0).other hO hO' h1 h2 (hother n a ht)
    | attack =>
      simp only [ht, Duel.turn, Duel.answers, List.countP_append, List.countP_singleton, Nat.add_eq_zero_iff,
        ite_eq_right_iff, Nat.one_ne_zero, imp_false, beq_iff_eq] at h0
      exact (ih h0.1).attack hO h1 h2 h0.2 (by rw [← ht]; exact hq h0.1)

/-! ## How a peer is let in -/

/-- The peer has sent an AUTH_RESPONSE with the session's hash. -/
def PresentsAt (config : AppConfig) (ids : Handle → ConnId) (net : Handle → Frame → Bool) (h : Handle)
    (strategy : List Frame → Frame) (turns : Nat → Turn) (k : Nat) : Prop :=
  let f := strategy (duel config ids net h strategy turns k).view
  turns k = .attack ∧ f.header.type = .AUTH_RESPONSE ∧
    extractStr f.payloadAsString (str "response") = config.pskHash

theorem presented_of_authenticated {n : Nat}
    (ha : (duel config ids net h strategy turns n).s.authenticated (ids h) = true)
    (hauth : config.requireAuth = true)
    (hpsk : config.pskHash ≠ []) (hother : ∀ k a, turns k = .other a → Elsewhere ids h a) :
    ∃ k < n, PresentsAt config ids net h strategy turns k := by
  induction n with
  | zero => simp [duel, Session.authenticated] at ha
  | succ n ih =>
    have hold : (duel config ids net h strategy turns n).s.authenticated (ids h) = true →
        ∃ k < n + 1, PresentsAt config ids net h strategy turns k := fun h' => by
      obtain ⟨k, hk, hp⟩ := ih h'
      exact ⟨k, by omega, hp⟩
    simp only [duel] at ha
    cases ht : turns n with
    | attack =>
      simp only [ht, Duel.turn, onFrame_authenticated, grants, hauth, Bool.not_true, Bool.and_false,
        Bool.false_or,
        Bool.or_eq_true, Bool.and_eq_true, beq_iff_eq, accepted, hpsk, false_or] at ha
      rcases ha with ⟨⟨hty, -⟩, hr⟩ | ⟨-, ha⟩
      · exact ⟨n, by omega, ht, hty, hr⟩
      · exact hold ha
    | other a =>
      simp only [ht, Duel.turn] at ha
      have he := hother n a ht
      cases a with
      | frame c f => exact hold (by rwa [← onFrame_authenticated_other config net _ f he])
      | _ => exact hold (exec_authenticated config ids net (by rintro c f ⟨⟩) ha)

theorem answers_mono {n m : Nat} (hnm : n ≤ m) :
    (duel config ids net h strategy turns n).answers ≤ (duel config ids net h strategy turns m).answers := by
  induction hnm with
  | refl => exact Nat.le_refl _
  | @step m _ ih =>
    refine Nat.le_trans ih ?_
    simp only [duel]
    cases turns m with
    | attack => simp [Duel.turn, Duel.answers]
    | other a => exact Nat.le_refl _

/-- Every AUTH_RESPONSE counts. -/
theorem answers_succ {k : Nat} (ht : turns k = .attack)
    (hty : (strategy (duel config ids net h strategy turns k).view).header.type = .AUTH_RESPONSE) :
    (duel config ids net h strategy turns (k + 1)).answers =
      (duel config ids net h strategy turns k).answers + 1 := by
  simp [duel, ht, Duel.turn, Duel.answers, hty]

/-- A peer with at most one AUTH_RESPONSE in each of two runs, against sessions with distinct
    hashes, is not let in by both, if neither tells it its hash before it answers. It cannot
    tell the runs apart until then, so this is asked of one of them. -/
theorem unknown_hash_not_presented (hauth : config.requireAuth = true) {h1 h2 : Bytes} (hne : h1 ≠ h2)
    (hne1 : h1 ≠ []) (hne2 : h2 ≠ []) (hother : ∀ k a, turns k = .other a → Elsewhere ids h a) {n1 n2 : Nat}
    (hquiet : ∀ k < n1, let d := duel (withHash config h1) ids net h strategy turns k
      d.answers = 0 → d.tells ids h strategy (turns k) = false)
    (once1 : (duel (withHash config h1) ids net h strategy turns n1).answers ≤ 1)
    (once2 : (duel (withHash config h2) ids net h strategy turns n2).answers ≤ 1) :
    ¬ ((duel (withHash config h1) ids net h strategy turns n1).s.authenticated (ids h) = true ∧
      (duel (withHash config h2) ids net h strategy turns n2).s.authenticated (ids h) = true) := by
  intro h
  obtain ⟨a1, a2⟩ := h
  obtain ⟨k1, hk1, ht1, hty1, hr1⟩ := presented_of_authenticated a1 hauth hne1 hother
  obtain ⟨k2, hk2, ht2, hty2, hr2⟩ := presented_of_authenticated a2 hauth hne2 hother
  have mono1 : ∀ {n m : Nat}, n ≤ m → (duel (withHash config h1) ids net h strategy turns n).answers ≤
      (duel (withHash config h1) ids net h strategy turns m).answers := answers_mono
  have mono2 : ∀ {n m : Nat}, n ≤ m → (duel (withHash config h2) ids net h strategy turns n).answers ≤
      (duel (withHash config h2) ids net h strategy turns m).answers := answers_mono
  have agree : ∀ {n : Nat}, n ≤ n1 → (duel (withHash config h1) ids net h strategy turns n).answers = 0 →
      (duel (withHash config h1) ids net h strategy turns n).Alike ids h
        (duel (withHash config h2) ids net h strategy turns n) :=
    fun hn => duel_agrees h1 h2 hother fun k hk => hquiet k (Nat.lt_of_lt_of_le hk hn)
  have c1 := answers_succ ht1 hty1
  have c2 := answers_succ ht2 hty2
  have m1 := mono1 (show k1 + 1 ≤ n1 from hk1)
  have m2 := mono2 (show k2 + 1 ≤ n2 from hk2)
  have z1 : (duel (withHash config h1) ids net h strategy turns k1).answers = 0 := by omega
  have same1 := agree (by omega) z1
  -- so the peer answers at the same turn in both runs, with the same frame
  rcases Nat.lt_trichotomy k1 k2 with hlt | heq | hgt
  · rw [← same1.view] at hty1
    have := answers_succ ht1 hty1
    have := mono2 (show k1 + 1 ≤ k2 from hlt)
    omega
  · subst heq
    rw [same1.view] at hr2
    exact hne (hr1.symm.trans hr2)
  · have := mono1 (show k2 ≤ k1 by omega)
    rw [(agree (by omega) (by omega)).view] at hty2
    have := answers_succ ht2 hty2
    have := mono1 (show k2 + 1 ≤ k1 from hgt)
    omega

end

/-! ## Two peers -/

/-- A session that starts and takes one connection; then its peer goes on alone. -/
def listening : Nat → Turn
  | 0 => .other .startSession
  | 1 => .other (.register 0)
  | 2 => .other (.start 0)
  | 3 => .other (.sendHello 0 (str "c"))
  | _ => .attack

theorem listening_elsewhere (k : Nat) (a : Act) (h : listening k = .other a) :
    Elsewhere (fun _ => str "c") 0 a := by
  unfold listening at h
  split at h <;> cases h <;> trivial

/-- A peer that sends one guess. -/
def guess (hash : Bytes) (_ : List Frame) : Frame :=
  Frame.create .AUTH_RESPONSE (authResponsePayload { pskHash := hash })

/-- A guess lets its peer in where it is right, and only there. -/
theorem unknown_hash_not_presented_guess :
    let d := fun hash =>
      duel { requireAuth := true, pskHash := hash } (fun _ => str "c") (fun _ _ => true) 0 (guess (str "k1"))
        listening
    (d (str "k1") 5).s.authenticated (str "c") = true ∧
      ¬ ((d (str "k1") 5).s.authenticated (str "c") = true ∧
        (d (str "k2") 5).s.authenticated (str "c") = true) := by
  refine ⟨by decide, ?_⟩
  exact unknown_hash_not_presented (show ({ requireAuth := true } : AppConfig).requireAuth = true from rfl)
    (by decide) (by decide) (by decide) listening_elsewhere (fun k _ _ => by cases listening k <;> rfl)
    (by decide) (by decide)

/-- A peer that asks the session to authenticate and gives it its own answer. -/
def reflect (view : List Frame) : Frame :=
  match view.find? fun f => f.header.type == .AUTH_RESPONSE with
  | some f => Frame.create .AUTH_RESPONSE f.payload
  | none => Frame.create .AUTH_REQUEST (str "{}")

/-- It is let in whatever the hash, with one AUTH_RESPONSE. -/
theorem hash_is_reflected :
    let d := fun hash =>
      duel { requireAuth := true, pskHash := hash } (fun _ => str "c") (fun _ _ => true) 0 reflect listening
    (d (str "k1") 6).answers ≤ 1 ∧ (d (str "k2") 6).answers ≤ 1 ∧
      (d (str "k1") 6).s.authenticated (str "c") = true ∧
        (d (str "k2") 6).s.authenticated (str "c") = true := by
  decide

end LanTalk.Chat
