/-
  LanTalk.Chat.Gate — what a session with `requireAuth` and a `pskHash` lets through. Six
  handlers and the disconnect path write `peers_`, HELLO can come at any time, and `sendTo`
  lets go of the mutex between choosing a connection and writing to it.

  Proved: `chat_needs_credential`, in every run no chat message is taken from a connection
  id, or sent under it, before an AUTH_RESPONSE with the hash was handled on that id while
  a connection was registered under it.
-/

import LanTalk.Chat.Runs

namespace LanTalk.Chat

open LanTalk.Lib LanTalk.Network LanTalk.Config

/-! ## The credential -/

/-- An AUTH_RESPONSE with the session's hash, handled on `c` while `c` is registered. -/
def Credential (config : AppConfig) (c : ConnId) : Out → Prop
  | .frame c' f registered =>
    c' = c ∧ registered = true ∧ f.header.type = .AUTH_RESPONSE ∧
      extractStr f.payloadAsString (str "response") = config.pskHash
  | _ => False

def Presented (config : AppConfig) (log : List (Tid × Out)) (c : ConnId) : Prop :=
  ∃ e ∈ log, Credential config c e.2

/-- A chat message passes under `c`: one received on it is handed to the callback, or one
    is sent. -/
def ChatOn (c : ConnId) : Out → Prop
  | .message c' _ => c' = c
  | .sent c' _ f _ => c' = c ∧ f.header.type = .CHAT_MESSAGE
  | _ => False

theorem Presented.mono {config : AppConfig} {log : List (Tid × Out)} {c : ConnId} (h : Presented config log c)
    (es : List (Tid × Out)) : Presented config (es ++ log) c := by
  obtain ⟨e, he, hc⟩ := h
  exact ⟨e, List.mem_append_right _ he, hc⟩

section
variable {config : AppConfig} {ids : Handle → ConnId} {w : Wiring}

/-! ## The invariant -/

/-- Chat messages pass under presented ids only. -/
def ChatBacked (config : AppConfig) (e : Tid × Out) (older : List (Tid × Out)) : Prop :=
  ∀ c, ChatOn c e.2 → Presented config older c

/-- An AUTHENTICATED entry's id has been presented the hash, and so had every chat
    message's before it. -/
structure Gated (config : AppConfig) (s : Session) (log : List (Tid × Out)) : Prop where
  entries : ∀ c, s.authenticated c = true → Presented config log c
  chats : Machine.Justified (ChatBacked config) log

/-- A piece that will pass a chat message on was chosen for a presented id. -/
def GatedAct (config : AppConfig) (log : List (Tid × Out)) : Act → Prop
  | .chat c _ _ => Presented config log c
  | .emit o => ∀ c, ChatOn c o → Presented config log c
  | _ => True

/-- With `requireAuth`, only a credential grants. -/
theorem grants_credential (hauth : config.requireAuth = true) (hpsk : config.pskHash ≠ []) {s : Session}
    {c : ConnId} {f : Frame} (h : grants config s c f = true) :
    Credential config c (.frame c f s.connections[c]?.isSome) := by
  simp only [grants, hauth, Bool.not_true, Bool.and_false, Bool.false_or, Bool.and_eq_true, beq_iff_eq, accepted,
    Bool.or_eq_true, hpsk, false_or] at h
  exact ⟨rfl, h.1.2, h.1.1, h.2⟩

/-- What a piece puts in the log passes a chat message only under a presented id. -/
theorem exec_out_backed {net : Handle → Frame → Bool} {s : Session} {log : List (Tid × Out)} {a : Act}
    (hI : Gated config s log) (hA : GatedAct config log a) {o : Out} (ho : o ∈ (exec config ids net s a).out)
    (c : ConnId) (hc : ChatOn c o) : Presented config log c := by
  have h := mem_exec_out config ids net ho
  cases a with
  | frame k f =>
    rcases h with rfl | h
    · cases hc
    · rcases mem_onFrame_out config net h with ⟨k', f', ok, rfl, hne, -⟩ | ⟨k', reason, rfl, -⟩
      · exact absurd hc.2 hne
      · cases hc
  | chat k h' json => obtain ⟨ok, rfl⟩ := h; exact hc.1 ▸ hA
  | broadcast json => obtain ⟨k, h', ok, rfl, ha⟩ := h; exact hc.1 ▸ hI.entries k ha
  | emit o' => cases h; exact hA c hc
  | register k => cases h; cases hc
  | sendHello _ k => obtain ⟨k', ok, rfl⟩ := h; exact absurd hc.2 (by simp [Frame.create])
  | sweep => obtain ⟨k, k', ok, rfl⟩ := h; exact absurd hc.2 (by simp [Frame.create])
  | stopAll =>
    obtain ⟨k, k', rfl | ⟨ok, rfl⟩⟩ := h
    · cases hc
    · exact absurd hc.2 (by simp [Frame.create])
  | _ => exact h.elim

/-- What a piece leaves to do passes a chat message only under a presented id. -/
theorem exec_rest_backed {net : Handle → Frame → Bool} {s : Session} {log : List (Tid × Out)} {a b : Act}
    (hI : Gated config s log) (hb : b ∈ (exec config ids net s a).rest) : GatedAct config log b := by
  have h := mem_exec_rest config ids net hb
  cases b with
  | chat c _ _ => exact hI.entries c h
  | emit o =>
    intro c hc
    cases o with
    | message c' m => exact hI.entries c (hc ▸ h)
    | sent c' h' f ok => exact h.elim
    | _ => exact absurd hc (by simp [ChatOn])
  | _ => trivial

/-- One piece keeps the gate. -/
theorem Gated.exec (hauth : config.requireAuth = true) (hpsk : config.pskHash ≠ [])
    {net : Handle → Frame → Bool}
    {s : Session} {log : List (Tid × Out)} {a : Act} (t : Tid) (hI : Gated config s log)
    (hA : GatedAct config log a) :
    let p := exec config ids net s a
    Gated config p.s ((p.out.map fun o => (t, o)).reverse ++ log) := by
  refine ⟨?_, ?_⟩
  · intro c hc
    by_cases hf : ∃ k f, a = .frame k f
    · obtain ⟨k, f, rfl⟩ := hf
      by_cases hk : k = c
      · subst hk
        have hc' : (onFrame config net s k f).s.authenticated k = true := hc
        rw [onFrame_authenticated] at hc'
        by_cases hg : grants config s k f = true
        · refine ⟨(t, .frame k f s.connections[k]?.isSome), ?_, grants_credential hauth hpsk hg⟩
          simp [Chat.exec]
        · have ho : s.authenticated k = true := by
            simp only [hg, Bool.false_or, Bool.and_eq_true] at hc'
            exact hc'.2
          exact (hI.entries k ho).mono _
      · refine (hI.entries c ?_).mono _
        rw [← onFrame_authenticated_other config net s f hk]
        exact hc
    · simp only [not_exists] at hf
      exact (hI.entries c (exec_authenticated config ids net hf hc)).mono _
  · refine hI.chats.push ?_ ?_
    · intro e x l he c hc
      exact (he c hc).mono [x]
    · intro e he c hc
      obtain ⟨o, ho, rfl⟩ := List.mem_map.mp (List.mem_reverse.mp he)
      exact exec_out_backed hI hA ho c hc

theorem gate_rule (hauth : config.requireAuth = true) (hpsk : config.pskHash ≠ []) :
    Rule config ids w (fun _ => True) (fun _ _ _ => True) (Gated config) (GatedAct config) where
  init := ⟨fun c hc => by simp [Session.authenticated] at hc, trivial⟩
  maps := by
    intro s s' log _ hp h
    refine ⟨fun c hc => h.entries c ?_, h.chats⟩
    have ha : s'.authenticated c = s.authenticated c := authenticated_congr (by rw [hp])
    rwa [← ha]
  older := by
    intro log a e h
    cases a with
    | chat c h' json => exact h.mono [e]
    | emit o => exact fun c hc => (h c hc).mono [e]
    | _ => trivial
  call := by
    intro op h log _ a ha
    cases op <;> cases List.mem_singleton.mp ha <;> trivial
  frame := fun _ _ _ => trivial
  drop := fun _ _ _ => trivial
  limit := fun _ _ => trivial
  refuse := fun _ _ _ => trivial
  exec := by
    intro s log a t net _ hI hA
    refine ⟨hI.exec hauth hpsk t hA, ?_⟩
    intro b hb
    have h := exec_rest_backed hI hb
    cases b with
    | chat c h' json => exact h.mono _
    | emit o => exact fun c hc => (h c hc).mono _
    | _ => trivial

/-! ## The gate -/

/-- In every run, when a chat message received on `c` is handed to the message callback, or
    one is sent under `c`, the hash had been presented on `c`. -/
theorem chat_needs_credential (hauth : config.requireAuth = true) (hpsk : config.pskHash ≠ []) {S : Sys}
    (h : Reachable config ids w (fun _ => True) (fun _ _ _ => True) S) {newer older : List (Tid × Out)}
    {t : Tid} {o : Out}
    (hlog : S.log = newer ++ (t, o) :: older) {c : ConnId} (hc : ChatOn c o) : Presented config older c := by
  have hI := (Reachable.rule (gate_rule hauth hpsk) h).1
  exact (hlog ▸ hI.chats).entry c hc

end

/-- A guarded session and a peer with the same hash. -/
def guarded : AppConfig := { deviceId := str "a", pskHash := str "k", requireAuth := true }

/-- Its peer says HELLO, presents the hash, and is sent a message. -/
def talk : List Label :=
  let net := fun _ _ => true
  [.call 0 .start, .run (.app 0) net, .call 0 .addConnection, .run (.app 0) net, .run (.app 0) net,
    .run (.app 0) net,
    .call 0 (.onFrame (str "c") (Frame.create .HELLO (helloPayload { deviceId := str "b" }))),
      .run (.app 0) net,
    .call 0 (.onFrame (str "c") (Frame.create .AUTH_RESPONSE (authResponsePayload guarded))), .run (.app 0) net,
    .run (.app 0) net, .call 0 (.broadcast (str "1") 0 (str "hi")), .run (.app 0) net]

/-- Once the peer has presented the hash, a broadcast reaches it. -/
theorem chat_needs_credential_guarded :
    ∃ (S : Sys) (f : Frame) (ok : Bool) (older : List (Tid × Out)),
      Reachable guarded (fun _ => str "c") ⟨fun _ => [], fun _ => []⟩ (fun _ => True) (fun _ _ _ => True) S ∧
        S.log = (.app 0, .sent (str "c") 0 f ok) :: older ∧ f.header.type = .CHAT_MESSAGE ∧
        Presented guarded older (str "c") := by
  let f := Frame.create .CHAT_MESSAGE (newMessage guarded (str "1") 0 (str "hi")).toJson
  have hrun : ((Machine.run (Machine.checked (step guarded (fun _ => str "c") ⟨fun _ => [], fun _ => []⟩)
      fun _ _ => true) {} talk).map fun S => decide (S.log.head? = some (.app 0, .sent (str "c") 0 f true))) =
        some true := by decide
  obtain ⟨S, hS, hp⟩ :
      ∃ S, Reachable guarded (fun _ => str "c") ⟨fun _ => [], fun _ => []⟩ (fun _ => True)
        (fun _ _ _ => True) S ∧ _ :=
    Reachable.of_run (fun l _ => by cases l <;> trivial) (fun _ _ _ _ _ _ => trivial) hrun
  obtain ⟨older, hl⟩ := List.head?_eq_some_iff.mp (of_decide_eq_true hp)
  refine ⟨S, f, true, older, hS, hl, rfl, ?_⟩
  exact chat_needs_credential (by decide) (by decide) hS (show S.log = [] ++ _ from hl) ⟨rfl, rfl⟩

end LanTalk.Chat
