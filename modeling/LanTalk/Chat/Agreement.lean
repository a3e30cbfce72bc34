/-
  LanTalk.Chat.Agreement — what two joined sessions come to. Each side challenges the other
  or not, by its own settings, and holds the other AUTHENTICATED from one frame on: the
  other's HELLO, or its AUTH_RESPONSE. Nothing is done with AUTH_OK, so a side sends chat
  messages as soon as it holds the other AUTHENTICATED, whether or not the other does too
  (`chat_before_credential`).

  `addConnection` releases `connMutex_` between its insert and `start`. A ping sweep that
  comes there finds the connection dead, and its entry is dropped, even if the handshake is
  over by then (`swept_before_start`).

  Proved: `handshake_agrees`, in every run without such a sweep no side refuses the other, and
  when all frames have been handled both hold each other AUTHENTICATED; `chat_handed_iff`,
  which chat messages are handed to the callback.
-/

import LanTalk.Chat.Handshake

namespace LanTalk.Chat.Handshake

open LanTalk.Lib LanTalk.Network LanTalk.Config

/-- Equal hashes, and device ids that HELLO can carry. -/
structure Compatible (config : Party → AppConfig) : Prop where
  hash : (config .a).pskHash = (config .b).pskHash
  hash_printable : Printable (config .a).pskHash
  device : ∀ x, (config x).deviceId ≠ []
  device_printable : ∀ x, Printable (config x).deviceId

section
variable {config : Party → AppConfig} {c : Party → ConnId}

theorem Compatible.paired (h : Compatible config) (x : Party) : Paired (config x) (config x.other) := by
  cases x with
  | a => exact ⟨h.hash, h.hash ▸ h.hash_printable, h.device _, h.device_printable _⟩
  | b => exact ⟨h.hash.symm, h.hash_printable, h.device _, h.device_printable _⟩

/-! ## Both sides -/

/-- Each side is in step with what it has handled of the other's frames. -/
def Halves (config : Party → AppConfig) (c : Party → ConnId) (P : Party → Side) : Prop :=
  ∀ x, Half (config x) (c x) (config x.other).deviceId (P x) (P x.other).sent

theorem Halves.mirror {P : Party → Side} (hI : Halves config c P) (x : Party) :
    Half (config x.other) (c x.other) (config x).deviceId (P x.other) (P x).sent := by
  simpa only [Party.other_other] using hI x.other

/-- A side writes at most one AUTH_RESPONSE for each HELLO the other has handled, and none
    to one that does not require it. -/
theorem Halves.responses_le {P : Party → Side} (hI : Halves config c P) (x : Party) :
    count .AUTH_RESPONSE (P x.other).sent ≤
      if (config x).requireAuth then count .HELLO ((P x.other).sent.take (P x).got) else 0 :=
  calc count .AUTH_RESPONSE (P x.other).sent = count .AUTH_REQUEST ((P x).sent.take (P x.other).got) :=
    (hI.mirror x).responses
    _ ≤ count .AUTH_REQUEST (P x).sent := count_take_le _ _ _
    _ = _ := (hI x).requests

theorem Halves.hellos_le {P : Party → Side} (hI : Halves config c P) (x : Party) :
    count .HELLO (P x).sent ≤ 1 := by
  rw [(hI x).hellos]
  split <;> omega

/-- The next frame is no second HELLO, none that comes after the grant, and no
    AUTH_RESPONSE that was not asked for. -/
theorem Halves.next {P : Party → Side} (hI : Halves config c P) {x : Party} {f : Frame}
    (hnext : (P x.other).sent[(P x).got]? = some f) :
    (f.header.type = .HELLO → count (grantType (config x)) ((P x.other).sent.take (P x).got) = 0) ∧
      (f.header.type = .AUTH_RESPONSE → (config x).requireAuth = true ∧
        0 < count .HELLO ((P x.other).sent.take (P x).got)) := by
  have hle : ∀ t, f.header.type = t →
      count t ((P x.other).sent.take (P x).got) + 1 ≤ count t (P x.other).sent := by
    intro t ht
    have := count_take_le t ((P x).got + 1) (P x.other).sent
    rwa [take_succ_of_get hnext, count_append, count_singleton, if_pos ht] at this
  have hr := hI.responses_le x
  refine ⟨?_, ?_⟩
  · intro ht
    have h1 := hle _ ht
    have h2 := hI.hellos_le x.other
    have h3 := count_take_le .AUTH_RESPONSE (P x).got (P x.other).sent
    cases ha : (config x).requireAuth <;> rw [ha] at hr <;> simp only [grantType, ha]
    · show count .HELLO _ = 0
      omega
    · simp only [if_true] at hr ⊢
      omega
  · intro ht
    have h1 := hle _ ht
    cases ha : (config x).requireAuth <;> rw [ha] at hr
    · simp only [Bool.false_eq_true, if_false] at hr
      omega
    · simp only [if_true] at hr
      exact ⟨rfl, by omega⟩

/-! ## Steps -/

/-- A side only adds to what it has written. -/
theorem move_sent {config : AppConfig} {c : ConnId} {d d' : Side} {inbox : List Frame} {m : Move}
    (h : d.move config c inbox m = some d') : ∃ new, d'.sent = d.sent ++ new := by
  cases m with
  | add =>
    simp only [Side.move] at h
    split at h <;> cases h
    exact ⟨_, rfl⟩
  | deliver =>
    simp only [Side.move] at h
    split at h
    · obtain ⟨f, -, rfl⟩ := Option.map_eq_some_iff.mp h
      exact ⟨_, rfl⟩
    · cases h
  | resume i =>
    simp only [Side.move] at h
    split at h <;> cases h
    exact ⟨_, rfl⟩
  | _ => cases h; exact ⟨_, rfl⟩

/-- One calm move of a side keeps it in step. -/
theorem Halves.move {P : Party → Side} (hC : Compatible config) (hI : Halves config c P) {x : Party}
    {m : Move} (hcalm : Calm P (x, m)) {d' : Side}
    (h : (P x).move (config x) (c x) (P x.other).sent m = some d') :
    Half (config x) (c x) (config x.other).deviceId d' (P x.other).sent := by
  have hx := hI x
  cases m with
  | add =>
    simp only [Side.move] at h
    split at h <;> cases h
    rename_i a rest hd
    exact hx.add hd
  | deliver =>
    simp only [Side.move] at h
    split at h
    · rename_i hr
      obtain ⟨f, hf, rfl⟩ := Option.map_eq_some_iff.mp h
      obtain ⟨h1, h2⟩ := hI.next hf
      exact hx.handle (hC.paired x) hr hf ((hI.mirror x).configured f (List.mem_of_getElem? hf)) h1 h2
    · cases h
  | ping =>
    cases h
    refine hx.call (a := .sweep) ?_
    rcases hx.adding with h | h | h | h
    · exact .inr h
    · exact absurd (congrArg List.head? h) hcalm
    · exact .inl (hx.running.mpr (.inl h))
    · exact .inl (hx.running.mpr (.inr h))
  | broadcast msgId timestampUtc text => cases h; exact hx.call ⟨msgId, timestampUtc, text, rfl⟩
  | sendTo peerId msgId timestampUtc text => cases h; exact hx.call ⟨msgId, timestampUtc, text, rfl⟩
  | resume i =>
    simp only [Side.move] at h
    split at h <;> cases h
    rename_i a ha
    obtain ⟨msgId, timestampUtc, text, rfl⟩ := hx.pending a (List.mem_of_getElem? ha)
    have hx' : Half (config x) (c x) (config x.other).deviceId { P x with pending := (P x).pending.eraseIdx i }
        (P x.other).sent :=
      { hx with pending := fun b hb => hx.pending b (List.mem_of_mem_eraseIdx hb) }
    exact hx'.call ⟨rfl, rfl, msgId, timestampUtc, text, rfl⟩

theorem Halves.step {P P' : Party → Side} (hC : Compatible config) (hI : Halves config c P) {l : Party × Move}
    (hcalm : Calm P l) (h : step config c P l = some P') : Halves config c P' := by
  obtain ⟨x, m⟩ := l
  obtain ⟨d', hd, rfl⟩ := Option.map_eq_some_iff.mp h
  obtain ⟨new, hnew⟩ := move_sent hd
  intro z
  by_cases hz : z = x
  · subst hz
    simpa only [Function.update_self, Function.update_of_ne (Party.ne_other z)] using hI.move hC hcalm hd
  · have hzx : z.other = x := by cases z <;> cases x <;> first | rfl | exact absurd rfl hz
    rw [Function.update_of_ne hz, hzx, Function.update_self, hnew]
    have := (hI z).grow new
    rw [hzx] at this
    exact this

/-- In every state reached each side is in step. -/
theorem Reachable.halves (hC : Compatible config) {P : Party → Side} (h : Reachable config c P) :
    Halves config c P :=
  Machine.Reach.invariant (fun _ => half_init) (fun _ _ _ hI hcalm hs => hI.step hC hcalm hs) h

/-! ## Agreement -/

/-- What the two are to come to. -/
structure Agreed (config : Party → AppConfig) (c : Party → ConnId) (P : Party → Side) : Prop where
  /-- No side refuses or disconnects the other. -/
  civil : ∀ x, (∀ f ∈ (P x).sent, f.header.type ≠ .AUTH_FAIL ∧ f.header.type ≠ .DISCONNECT) ∧
    ∀ k h reason, Out.disconnect k h reason ∉ (P x).log
  /-- When both have said HELLO and handled all there is, each holds the other AUTHENTICATED under
      its configured device id, and has fired one connected event. -/
  held : (∀ x, ∃ f ∈ (P x).sent, f.header.type = .HELLO) → (∀ x, (P x).got = (P x.other).sent.length) →
    ∀ x, (∃ peer, (P x).s.peers[c x]? = some peer ∧ peer.state = .AUTHENTICATED ∧
      peer.deviceId = (config x.other).deviceId) ∧ connectedEvents (P x).log = 1

/-- Whatever the interleaving, if no ping sweep comes between an insert and its `start`, the two
    agree in every state reached. -/
theorem handshake_agrees (hC : Compatible config) {P : Party → Side}
    (h : Machine.Reach (step config c) Calm (fun _ => {}) P) : Agreed config c P := by
  have hI := Reachable.halves hC h
  refine ⟨fun x => ⟨?_, (hI x).undisturbed⟩, ?_⟩
  · intro f hf
    have hc := (hI x).configured f hf
    unfold Configured at hc
    constructor <;> intro ht <;> rw [ht] at hc <;> exact hc
  · intro hello quiet x
    have hall : (P x.other).sent.take (P x).got = (P x.other).sent := by rw [quiet x, List.take_length]
    have hall' : (P x).sent.take (P x.other).got = (P x).sent := by
      have := quiet x.other
      rw [Party.other_other] at this
      rw [this, List.take_length]
    have hone : ∀ y, count .HELLO (P y).sent = 1 := fun y => by
      have := hI.hellos_le y
      have := count_pos.mpr (hello y)
      omega
    have hgrant : count (grantType (config x)) (P x.other).sent = 1 := by
      unfold grantType
      split
      · rename_i ha
        rw [(hI.mirror x).responses, hall', (hI x).requests, if_pos ha, hall, hone]
      · exact hone x.other
    have ha : (P x).s.authenticated (c x) = true := by
      rw [(hI x).authenticated, hall, hgrant]; omega
    obtain ⟨peer, hp, hs⟩ := (authenticated_iff _ _).mp ha
    obtain ⟨peer', hp', hd⟩ := (hI x).named (by rw [hall, hone]; omega)
    cases hp.symm.trans hp'
    exact ⟨⟨peer, hp, hs, hd⟩, by rw [(hI x).events, hall, hgrant]⟩

end

/-- Two devices without a hash, of which only `b` requires authentication. -/
def uneven : Party → AppConfig
  | .a => { deviceId := str "a" }
  | .b => { deviceId := str "b", requireAuth := true }

theorem uneven_compatible : Compatible uneven where
  hash := rfl
  hash_printable := by decide
  device := fun x => by cases x <;> decide
  device_printable := fun x => by cases x <;> decide

def named : Party → ConnId
  | .a => str "ca"
  | .b => str "cb"

def bothAdded : List (Party × Move) := [(.a, .add), (.a, .add), (.a, .add), (.b, .add), (.b, .add), (.b, .add)]

theorem reach_of_moves {ls : List (Party × Move)} {p : (Party → Side) → Bool}
    (h : (Machine.run (Machine.checked (step uneven named) fun P l => decide (Calm P l)) (fun _ => {}) ls).map p =
      some true) :
    ∃ P, Reachable uneven named P ∧ p P = true :=
  Machine.reach_of_run (fun _ _ _ hc => of_decide_eq_true hc) h

/-- Both have said HELLO, and all frames have been handled. -/
def quiet (P : Party → Side) : Bool :=
  [Party.a, .b].all fun x =>
    ((P x).sent.any fun f => f.header.type == .HELLO) && (P x).got == (P x.other).sent.length

theorem quiet_iff {P : Party → Side} (h : quiet P = true) :
    (∀ x, ∃ f ∈ (P x).sent, f.header.type = .HELLO) ∧ ∀ x, (P x).got = (P x.other).sent.length := by
  simp only [quiet, List.all_cons, List.all_nil, Bool.and_true, Bool.and_eq_true, List.any_eq_true, beq_iff_eq] at h
  obtain ⟨⟨ha, qa⟩, hb, qb⟩ := h
  exact ⟨fun x => by cases x <;> assumption, fun x => by cases x <;> assumption⟩

/-- A handshake that runs to its end, with sweeps before the insert and after the start. -/
theorem handshake_agrees_uneven :
    ∃ P, Machine.Reach (step uneven named) Calm (fun _ => {}) P ∧ Agreed uneven named P ∧
      ∀ x, ∃ peer, (P x).s.peers[named x]? = some peer ∧ peer.state = .AUTHENTICATED := by
  have hrun : (Machine.run (Machine.checked (step uneven named) fun P l => decide (Calm P l)) (fun _ => {})
      [(.a, .ping), (.a, .add), (.a, .add), (.a, .ping), (.a, .add), (.b, .add), (.b, .add), (.b, .add),
        (.b, .deliver), (.b, .deliver), (.a, .deliver), (.a, .deliver), (.a, .deliver), (.b, .deliver),
        (.a, .deliver)]).map quiet = some true := by decide +kernel
  obtain ⟨P, hP, hp⟩ := reach_of_moves hrun
  obtain ⟨hello, hquiet⟩ := quiet_iff hp
  have hA : Agreed uneven named P := handshake_agrees uneven_compatible hP
  refine ⟨P, hP, hA, fun x => ?_⟩
  obtain ⟨⟨peer, hpeer, hstate, -⟩, -⟩ := hA.held hello hquiet x
  exact ⟨peer, hpeer, hstate⟩

/-- `a`'s ping thread comes between the insert and the `start`, finds the connection dead, and drops
    its entry when the handshake is over: all frames have been handled, and `a` does not hold `b`. -/
theorem swept_before_start :
    ∃ P, Compatible uneven ∧ Machine.Reach (step uneven named) (fun _ _ => True) (fun _ => {}) P ∧
      (∀ x, ∃ f ∈ (P x).sent, f.header.type = .HELLO) ∧ (∀ x, (P x).got = (P x.other).sent.length) ∧
      (P .a).s.peers[named .a]? = none ∧ ¬ Agreed uneven named P := by
  have hrun : (Machine.run (Machine.checked (step uneven named) fun _ _ => true) (fun _ => {})
      [(.a, .add), (.a, .ping), (.a, .add), (.a, .add), (.b, .add), (.b, .add), (.b, .add), (.b, .deliver),
        (.a, .deliver), (.a, .deliver), (.b, .deliver), (.a, .deliver), (.a, .resume 0)]).map
      (fun P => quiet P && (P .a).s.peers[named .a]?.isNone) = some true := by decide +kernel
  obtain ⟨P, hP, hp⟩ : ∃ P, Machine.Reach (step uneven named) (fun _ _ => True) (fun _ => {}) P ∧ _ :=
    Machine.reach_of_run (fun _ _ _ _ => trivial) hrun
  simp only [Bool.and_eq_true, Option.isNone_iff_eq_none] at hp
  obtain ⟨hq, hnone⟩ := hp
  obtain ⟨hello, hquiet⟩ := quiet_iff hq
  refine ⟨P, uneven_compatible, hP, hello, hquiet, hnone, fun hA => ?_⟩
  obtain ⟨⟨peer, hpeer, -⟩, -⟩ := hA.held hello hquiet .a
  rw [hnone] at hpeer
  cases hpeer

/-! ## Chat messages -/

section
variable {config : Party → AppConfig} {c : Party → ConnId}

/-- A chat message is handed to the callback just if its sender had written before it the
    frame that makes the receiver hold it AUTHENTICATED, and it was given an id. -/
theorem chat_handed_iff (hC : Compatible config) {P : Party → Side} (h : Reachable config c P) {x : Party}
    {f : Frame} (hnext : (P x.other).sent[(P x).got]? = some f) (hchat : f.header.type = .CHAT_MESSAGE) :
    ∃ msgId timestampUtc text,
      f.payloadAsString = (newMessage (config x.other) msgId timestampUtc text).toJson ∧
      (Handed (config x) (fun _ _ => true) (P x).s (c x) f ↔
        (∃ g ∈ (P x.other).sent.take (P x).got, g.header.type = grantType (config x)) ∧ msgId ≠ []) := by
  have hI := h.halves hC
  have hf := (hI.mirror x).configured f (List.mem_of_getElem? hnext)
  simp only [Configured, hchat] at hf
  obtain ⟨msgId, timestampUtc, text, hf⟩ := hf
  refine ⟨msgId, timestampUtc, text, hf, ?_⟩
  have hm : (ChatMessage.fromJson f.payloadAsString).isSome = true ↔ msgId ≠ [] := by
    rw [hf, fromJson_toJson_mangled]
    simp [newMessage, hC.device x.other]
  rw [handed_iff, hm, (hI x).authenticated, count_pos]
  exact ⟨fun h => h.2, fun h => ⟨hchat, h⟩⟩

end

/-- `a` holds `b` AUTHENTICATED from its HELLO on, and sends; `b`, which has only just
    challenged `a`, drops the message. -/
def early : List (Party × Move) :=
  bothAdded ++ [(.a, .deliver), (.a, .broadcast (str "1") 0 (str "hi")), (.b, .deliver)]

theorem early_reached :
    ∃ P f, Reachable uneven named P ∧ (P .a).sent[(P .b).got]? = some f ∧ f.header.type = .CHAT_MESSAGE ∧
      ((P .b).s.objs 0).running = true ∧ (P .b).s.authenticated (named .b) = false := by
  have hrun : ((Machine.run (Machine.checked (step uneven named) fun P l => decide (Calm P l)) (fun _ => {})
      early).map fun P =>
      ((P .a).sent[(P .b).got]?.any fun f => f.header.type == .CHAT_MESSAGE) && ((P .b).s.objs 0).running &&
        !(P .b).s.authenticated (named .b)) = some true := by decide +kernel
  obtain ⟨P, hP, hp⟩ := reach_of_moves hrun
  simp only [Bool.and_eq_true, Option.any_eq_true, beq_iff_eq, Bool.not_eq_true'] at hp
  obtain ⟨⟨⟨f, hf, ht⟩, hr⟩, ha⟩ := hp
  exact ⟨P, f, hP, hf, ht, hr, ha⟩

theorem chat_before_credential :
    ∃ P f, Compatible uneven ∧ Reachable uneven named P ∧ (P .a).sent[(P .b).got]? = some f ∧
      f.header.type = .CHAT_MESSAGE ∧ ((P .b).s.objs 0).running = true ∧
      ¬ Handed (uneven .b) (fun _ _ => true) (P .b).s (named .b) f := by
  obtain ⟨P, f, hP, hf, ht, hr, ha⟩ := early_reached
  refine ⟨P, f, uneven_compatible, hP, hf, ht, hr, ?_⟩
  intro h
  rw [handed_iff, ha] at h
  cases h.2.1

theorem chat_handed_iff_early :
    ∃ P f msgId timestampUtc text, Reachable uneven named P ∧
      f.payloadAsString = (newMessage (uneven .a) msgId timestampUtc text).toJson ∧
      (Handed (uneven .b) (fun _ _ => true) (P .b).s (named .b) f ↔
        (∃ g ∈ (P .a).sent.take (P .b).got, g.header.type = grantType (uneven .b)) ∧ msgId ≠ []) := by
  obtain ⟨P, f, hP, hf, ht, -, -⟩ := early_reached
  obtain ⟨msgId, timestampUtc, text, h1, h2⟩ :=
    chat_handed_iff uneven_compatible hP (show (P Party.b.other).sent[(P .b).got]? = some f from hf) ht
  exact ⟨P, f, msgId, timestampUtc, text, hP, h1, h2⟩

end LanTalk.Chat.Handshake
