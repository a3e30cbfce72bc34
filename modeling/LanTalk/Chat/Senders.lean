/-
  LanTalk.Chat.Senders — who a chat message says it is from. `handleChatMessage` asks whether
  the connection's entry is AUTHENTICATED and then hands on the message as its payload
  reads: the sender it names is not compared with the device of the entry, so a peer can
  write in another's name (`sender_is_forged`).

  Proved: `message_as_written`, what is handed on, and when.
-/

import LanTalk.Chat.Closed

namespace LanTalk.Chat

open LanTalk.Lib LanTalk.Network LanTalk.Config

theorem fromJson_some {json : Bytes} {m : ChatMessage} (h : ChatMessage.fromJson json = some m) :
    m.senderId = extractJsonString json (str "senderId") ∧
      m.senderName = extractJsonString json (str "senderName") := by
  unfold ChatMessage.fromJson at h
  simp only at h
  split at h
  · cases h
  · cases h
    exact ⟨rfl, rfl⟩

/-- `m` was read from a CHAT_MESSAGE handled on `c`, and names the sender that its payload does. -/
def Written (log : List (Tid × Out)) (c : ConnId) (m : ChatMessage) : Prop :=
  ∃ t f r, (t, .frame c f r) ∈ log ∧ f.header.type = .CHAT_MESSAGE ∧
    ChatMessage.fromJson f.payloadAsString = some m ∧
    m.senderId = extractJsonString f.payloadAsString (str "senderId") ∧
    m.senderName = extractJsonString f.payloadAsString (str "senderName")

theorem Written.mono {log log' : List (Tid × Out)} {c : ConnId} {m : ChatMessage} (h : Written log c m)
    (hl : ∀ e ∈ log, e ∈ log') : Written log' c m := by
  obtain ⟨t, f, r, hm, h⟩ := h
  exact ⟨t, f, r, hl _ hm, h⟩

/-- A message that is handed on was written. -/
def HandsOn (e : Tid × Out) (older : List (Tid × Out)) : Prop := ∀ c m, e.2 = .message c m → Written older c m

/-- A message that waits to be handed on was written. -/
def WrittenAct (log : List (Tid × Out)) : Act → Prop
  | .emit (.message c m) => Written log c m
  | a => PlainAct a

section
variable {config : AppConfig} {ids : Handle → ConnId} {w : Wiring} {net : Handle → Frame → Bool} {s : Session}
  {log : List (Tid × Out)}

/-- A frame's handler hands on what it reads from a CHAT_MESSAGE of an AUTHENTICATED id. -/
theorem mem_callbacks_message {c k : ConnId} {f : Frame} {m : ChatMessage} :
    .message k m ∈ callbacks config s c f ↔ k = c ∧ f.header.type = .CHAT_MESSAGE ∧ s.authenticated c = true ∧
      ChatMessage.fromJson f.payloadAsString = some m := by
  unfold callbacks
  constructor
  · intro ho
    split at ho
    · cases List.mem_singleton.mp ho
    · split at ho
      · rename_i h
        obtain ⟨m', hm, he⟩ := Option.map_eq_some_iff.mp (Option.mem_toList.mp ho)
        cases he
        exact ⟨rfl, h.1, h.2, hm⟩
      · cases ho
  · intro h
    obtain ⟨rfl, ht, ha, hj⟩ := h
    have hg : grants config s k f = false := by simp [grants, saysHello, ht]
    simp [hg, ht, ha, hj]

theorem frame_rest (c : ConnId) (f : Frame) :
    (exec config ids net s (.frame c f)).rest = (callbacks config s c f).map .emit := by
  rw [← onFrame_after config net]
  rfl

/-- Only frames hand messages on. -/
theorem exec_hands_on {a : Act} {c : ConnId} {m : ChatMessage}
    (hb : .emit (.message c m) ∈ (exec config ids net s a).rest) :
    ∃ f, a = .frame c f ∧ .message c m ∈ callbacks config s c f := by
  cases a with
  | frame k f =>
    rw [frame_rest, List.mem_map] at hb
    obtain ⟨o, ho, he⟩ := hb
    cases he
    obtain ⟨rfl, -⟩ := mem_callbacks_message.mp ho
    exact ⟨f, rfl, ho⟩
  | register h =>
    simp only [exec] at hb
    split at hb
    · simp at hb
    · cases hb
  | drop k reason =>
    obtain ⟨o, ho, he⟩ := List.mem_map.mp hb
    cases he
    simp only [onDisconnect] at ho
    split at ho
    · split at ho
      · cases List.mem_singleton.mp ho
      · cases ho
    · cases ho
  | pick peerId msg =>
    simp only [exec] at hb
    split at hb
    · cases List.mem_singleton.mp hb
    · cases hb
  | sweep =>
    simp only [exec] at hb
    split at hb
    · obtain ⟨e, -, he⟩ := List.mem_map.mp hb
      cases he
    · cases hb
  | stop =>
    simp only [exec] at hb
    split at hb
    · cases List.mem_singleton.mp hb
    · cases hb
  | limit h =>
    simp only [exec] at hb
    split at hb <;> cases hb
  | _ => cases hb

theorem senders_rule {ops : Op → Prop} {acts : Session → List (Tid × Out) → Act → Prop} :
    Rule config ids w ops acts (fun _ log => Machine.Justified HandsOn log) WrittenAct where
  init := trivial
  maps := fun _ _ h => h
  older := by
    intro log a e h
    cases a with
    | emit o =>
      cases o with
      | message c m => exact h.mono fun x hx => List.mem_cons_of_mem _ hx
      | _ => exact h
    | _ => exact h
  call := by
    intro op h log _ a ha
    cases op <;> cases List.mem_singleton.mp ha <;> trivial
  frame := fun _ _ _ => trivial
  drop := fun _ _ _ => trivial
  limit := fun _ _ => trivial
  refuse := fun _ _ _ => trivial
  exec := by
    intro s log a t net _ hI hA
    constructor
    · refine hI.push (fun e x l h c m he => (h c m he).mono fun y hy => List.mem_cons_of_mem _ hy) ?_
      intro e he c m hem
      obtain ⟨o, ho, rfl⟩ := List.mem_map.mp (List.mem_reverse.mp he)
      obtain rfl : o = .message c m := hem
      obtain rfl : a = .emit (.message c m) := exec_origin config ids net ho
      exact hA
    · intro b hb
      cases b with
      | emit o =>
        cases o with
        | message c m =>
          obtain ⟨f, rfl, hm⟩ := exec_hands_on hb
          obtain ⟨-, ht, -, hj⟩ := mem_callbacks_message.mp hm
          refine ⟨t, f, s.connections[c]?.isSome, List.mem_append_left _ ?_, ht, hj, fromJson_some hj⟩
          exact List.mem_reverse.mpr (List.mem_map.mpr ⟨_, List.mem_cons_self, rfl⟩)
        | _ => exact plainAct_rest hb
      | _ => trivial

/-- In every run each message handed to the callback under `c` is what the payload of a
    CHAT_MESSAGE handled on `c` reads as, its sender the one that the payload names; and a
    frame is handed on just if it is a CHAT_MESSAGE that can be read and its id is
    AUTHENTICATED then, whatever sender it names. -/
theorem message_as_written {ops : Op → Prop} {acts : Session → List (Tid × Out) → Act → Prop} {S : Sys}
    (h : Reachable config ids (registeredWiring ids) ops acts S) :
    (∀ newer t c m older, S.log = newer ++ (t, .message c m) :: older → Written older c m) ∧
      ∀ net c f m, .emit (.message c m) ∈ (exec config ids net S.s (.frame c f)).rest ↔
        f.header.type = .CHAT_MESSAGE ∧ S.s.authenticated c = true ∧
          ChatMessage.fromJson f.payloadAsString = some m := by
  have hI : Machine.Justified HandsOn S.log := (Reachable.rule senders_rule h).1
  refine ⟨fun newer t c m older hl => (hl ▸ hI).entry c m rfl, fun net c f m => ?_⟩
  constructor
  · intro hb
    obtain ⟨f', he, hm⟩ := exec_hands_on hb
    cases he
    exact (mem_callbacks_message.mp hm).2
  · intro hm
    rw [frame_rest]
    exact List.mem_map_of_mem (mem_callbacks_message.mpr ⟨rfl, hm⟩)

end

/-! ## Another's name -/

/-- A chat message that says it is from device `x`. -/
def forged : Frame :=
  Frame.create .CHAT_MESSAGE (newMessage { deviceId := str "x" } (str "1") 0 (str "hi")).toJson

/-- Device `b` says HELLO and writes in the name of device `x`. -/
theorem sender_is_forged :
    ∃ (S : Sys) (m : ChatMessage) (older : List (Tid × Out)),
      Reachable {} (fun _ => str "c") (registeredWiring fun _ => str "c") Op.FromUser (fun _ _ _ => True) S ∧
        S.log = (.recv 0, .message (str "c") m) :: (.recv 0, .frame (str "c") forged true) :: older ∧
        S.s.peers[str "c"]? = some { deviceId := str "b", state := .AUTHENTICATED } ∧ m.senderId ≠ str "b" := by
  let m := newMessage { deviceId := str "x" } (str "1") 0 (str "hi")
  have hrun : ((Machine.run (Machine.checked (step {} (fun _ => str "c") (registeredWiring fun _ => str "c"))
      fun _ _ => true) {} (oneRead [hello, forged] 4)).map fun S =>
        decide (S.log.take 2 = [(.recv 0, .message (str "c") m), (.recv 0, .frame (str "c") forged true)]) &&
          decide (S.s.peers[str "c"]? = some { deviceId := str "b", state := .AUTHENTICATED })) = some true := by
    decide +kernel
  obtain ⟨S, hS, hp⟩ :
      ∃ S, Reachable {} (fun _ => str "c") (registeredWiring fun _ => str "c") Op.FromUser
        (fun _ _ _ => True) S ∧ _ :=
    Reachable.of_run (oneRead_fromUser _ _) (fun _ _ _ _ _ _ => trivial) hrun
  simp only [Bool.and_eq_true, decide_eq_true_eq] at hp
  obtain ⟨hl, hpeer⟩ := hp
  refine ⟨S, m, S.log.drop 2, hS, ?_, hpeer, by decide⟩
  calc S.log = S.log.take 2 ++ S.log.drop 2 := (List.take_append_drop 2 S.log).symm
    _ = (.recv 0, .message (str "c") m) :: (.recv 0, .frame (str "c") forged true) :: S.log.drop 2 := by
      rw [hl]; rfl

theorem message_as_written_forged :
    ∃ S, Reachable {} (fun _ => str "c") (registeredWiring fun _ => str "c") Op.FromUser (fun _ _ _ => True) S ∧
      S.s.authenticated (str "c") = true ∧
      (∀ newer t c m older, S.log = newer ++ (t, .message c m) :: older → Written older c m) ∧
      ∀ net c f m, .emit (.message c m) ∈ (exec {} (fun _ => str "c") net S.s (.frame c f)).rest ↔
        f.header.type = .CHAT_MESSAGE ∧ S.s.authenticated c = true ∧
          ChatMessage.fromJson f.payloadAsString = some m := by
  have hrun : ((Machine.run (Machine.checked (step {} (fun _ => str "c") (registeredWiring fun _ => str "c"))
      fun _ _ => true) {} (oneRead [hello, forged] 4)).map fun S => S.s.authenticated (str "c")) = some true := by
    decide +kernel
  obtain ⟨S, hS, hp⟩ :
      ∃ S, Reachable {} (fun _ => str "c") (registeredWiring fun _ => str "c") Op.FromUser
        (fun _ _ _ => True) S ∧ _ :=
    Reachable.of_run (oneRead_fromUser _ _) (fun _ _ _ _ _ _ => trivial) hrun
  exact ⟨S, hS, hp, message_as_written hS⟩

end LanTalk.Chat
