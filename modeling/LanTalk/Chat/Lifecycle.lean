/-
  LanTalk.Chat.Lifecycle — the lifecycle HELLO, AUTH_REQUEST, AUTH_RESPONSE, AUTH_OK, chat
  (`docs/protocol.md`). Frames are dispatched by their type alone, so any of them may come at
  any time, and `handleAuthResponse` asks neither whether a HELLO came before nor whether
  the session has sent a challenge: an AUTH_RESPONSE out of nowhere makes an entry without a
  device AUTHENTICATED and is answered with AUTH_OK (`unasked_response`). What it compares
  is the hash itself, not what the challenge makes of it (`hash_is_accepted`).

  A connection's life, as far as the log tells, is what comes after it was registered.

  Proved: `handshake_in_order`, the lifecycle is kept in every run without such an
  AUTH_RESPONSE; `response_answers_challenge`, responses are bound to challenges in every run
  in which no AUTH_RESPONSE brings the hash to a registered id.
-/

import LanTalk.Chat.Closed
import LanTalk.Chat.Gate

namespace LanTalk.Chat

open LanTalk.Lib LanTalk.Network LanTalk.Config

/-! ## The life of a connection -/

/-- What was seen since a connection was last registered under `c`. -/
def life (c : ConnId) (log : List (Tid × Out)) : List (Tid × Out) := log.takeWhile fun e => !isRegistered c e.2

theorem life_append {c : ConnId} {es : List (Tid × Out)} (h : ∀ e ∈ es, isRegistered c e.2 = false)
    (log : List (Tid × Out)) : life c (es ++ log) = es ++ life c log :=
  List.takeWhile_append_of_pos fun e he => by rw [h e he]; rfl

/-- A HELLO on `c` that names device `d`. -/
def SaidHello (log : List (Tid × Out)) (c : ConnId) (d : Bytes) : Prop :=
  ∃ t f r, (t, .frame c f r) ∈ log ∧ f.header.type = .HELLO ∧ extractStr f.payloadAsString (str "device_id") = d

theorem SaidHello.mono {log log' : List (Tid × Out)} {c : ConnId} {d : Bytes} (h : SaidHello log c d)
    (hl : ∀ e ∈ log, e ∈ log') : SaidHello log' c d := by
  obtain ⟨t, f, r, hm, hf⟩ := h
  exact ⟨t, f, r, hl _ hm, hf⟩

/-- An AUTH_REQUEST was sent on connection `h`, registered under `c`. -/
def askedOn (log : List (Tid × Out)) (c : ConnId) (h : Handle) : Bool :=
  log.any fun e => match e.2 with
    | .sent c' h' f _ => c' == c && h' == h && f.header.type == .AUTH_REQUEST
    | _ => false

/-- AUTH_OK is sent on a connection only after an AUTH_REQUEST. -/
def Asked (e : Tid × Out) (older : List (Tid × Out)) : Prop :=
  ∀ c h f ok, e.2 = .sent c h f ok → f.header.type = .AUTH_OK → askedOn (life c older) c h = true

/-- The lifecycle is kept: an AUTHENTICATED entry's device was named in a HELLO, and every
    AUTH_OK was preceded by an AUTH_REQUEST. -/
structure HandshakeOrder (s : Session) (log : List (Tid × Out)) : Prop where
  named : ∀ (c : ConnId) (peer : PeerInfo), s.peers[c]? = some peer → peer.state = .AUTHENTICATED →
    peer.deviceId ≠ [] ∧ SaidHello (life c log) c peer.deviceId
  asked : Machine.Justified Asked log

/-- An AUTH_RESPONSE that the session accepts. -/
def isCredential (config : AppConfig) (f : Frame) : Bool :=
  f.header.type == .AUTH_RESPONSE && accepted config f.payloadAsString

/-- An AUTH_RESPONSE is accepted on a registered id only after a HELLO named its device, and,
    if AUTH_OK can be sent, an AUTH_REQUEST was. -/
def InOrder (config : AppConfig) (s : Session) (log : List (Tid × Out)) : Act → Prop
  | .frame c f => isCredential config f = true → (s.connections[c]?.all fun h =>
      (s.peers[c]?.any fun peer => peer.deviceId != []) &&
        (!(s.objs h).writable || askedOn (life c log) c h)) = true
  | _ => True

instance (config : AppConfig) (s : Session) (log : List (Tid × Out)) :
    (a : Act) → Decidable (InOrder config s log a)
  | .frame _ _ => inferInstanceAs (Decidable (_ = true → _ = true))
  | .startSession | .register _ | .start _ | .sendHello _ _ | .drop _ _ | .pick _ _ | .chat _ _ _ | .broadcast _
  | .sweep | .stop | .stopAll | .limit _ | .refuse _ _ | .emit _ => inferInstanceAs (Decidable True)

section
variable {config : AppConfig} {ids : Handle → ConnId} {w : Wiring} {net : Handle → Frame → Bool} {s : Session}
  {log : List (Tid × Out)}

/-! ## What the pieces put in the log -/

/-- What a piece has put in the log, up to one of its entries. -/
theorem mem_pushed {t : Tid} {outs : List Out} {newer older : List (Tid × Out)} {e : Tid × Out}
    (hes : (outs.map fun o => (t, o)).reverse = newer ++ e :: older) : ∀ x ∈ e :: older, ∃ o ∈ outs, x = (t, o) := by
  intro x hx
  have hx' : x ∈ (outs.map fun o => (t, o)).reverse := by
    rw [hes]
    exact List.mem_append_right _ hx
  obtain ⟨o, hout, rfl⟩ := List.mem_map.mp (List.mem_reverse.mp hx')
  exact ⟨o, hout, rfl⟩

/-- A registration starts with a fresh entry. -/
theorem exec_registered {a : Act} (ha : PlainAct a) {o : Out} (ho : o ∈ (exec config ids net s a).out)
    {c : ConnId} (hr : isRegistered c o = true) : (exec config ids net s a).s.peers[c]? = some {} := by
  have h := exec_origin config ids net ho
  cases o with
  | registered k h' =>
    obtain rfl : k = c := beq_iff_eq.mp hr
    rcases h with ⟨-, -, h⟩ | rfl
    · exact h
    · exact ha.elim
  | _ => cases hr

/-- The life of `c` goes on through a piece that does not register it anew. -/
theorem life_exec {a : Act} (ha : PlainAct a) (t : Tid) {c : ConnId} {peer : PeerInfo}
    (hp : (exec config ids net s a).s.peers[c]? = some peer) (hne : peer ≠ {}) (log : List (Tid × Out)) :
    life c ((((exec config ids net s a).out.map fun o => (t, o)).reverse) ++ log) =
      ((exec config ids net s a).out.map fun o => (t, o)).reverse ++ life c log := by
  refine life_append (fun e he => ?_) log
  obtain ⟨o, ho, rfl⟩ := List.mem_map.mp (List.mem_reverse.mp he)
  by_contra hr
  rw [Bool.not_eq_false] at hr
  rw [exec_registered ha ho hr, Option.some.injEq] at hp
  exact hne hp.symm

/-- The entries after a piece that is no frame: the old ones, and fresh ones. -/
theorem exec_peers_some {a : Act} (hf : ∀ c f, a ≠ .frame c f) {c : ConnId} {peer : PeerInfo}
    (hp : (exec config ids net s a).s.peers[c]? = some peer) (hne : peer ≠ {}) : s.peers[c]? = some peer := by
  have hm := exec_maps config ids net s a
  cases a with
  | register h =>
    rcases hm with ⟨-, -, hm⟩ | ⟨-, hm⟩ <;> rw [hm] at hp
    · rw [find_insert] at hp
      split at hp
      · exact absurd (Option.some.inj hp).symm hne
      · exact hp
    · exact hp
  | frame k f => exact absurd rfl (hf k f)
  | drop k reason =>
    rw [hm.2, find_erase] at hp
    split at hp
    · cases hp
    · exact hp
  | stopAll => rw [hm.2, find_empty] at hp; cases hp
  | _ => rwa [hm.2] at hp

/-- Only frames are logged as frames. -/
theorem exec_logs_frame {a : Act} (ha : PlainAct a) {c : ConnId} {f : Frame} {r : Bool}
    (ho : .frame c f r ∈ (exec config ids net s a).out) : a = .frame c f ∧ r = s.connections[c]?.isSome := by
  rcases exec_origin config ids net ho with h | rfl
  · exact h
  · exact ha.elim

/-- AUTH_OK answers an accepted AUTH_RESPONSE and nothing else. -/
theorem exec_sends_ok {a : Act} (ha : PlainAct a) {c : ConnId} {h : Handle} {f : Frame} {ok : Bool}
    (ho : .sent c h f ok ∈ (exec config ids net s a).out) (hf : f.header.type = .AUTH_OK) :
    ∃ f', a = .frame c f' ∧ isCredential config f' = true ∧ s.connections[c]? = some h ∧
      (s.objs h).writable = true := by
  have hs := mem_exec_out config ids net ho
  cases a with
  | frame k f' =>
    rcases hs with he | hs
    · cases he
    · obtain ⟨rfl, hc, hw, hr⟩ := mem_onFrame_sent config net hs
      refine ⟨f', rfl, ?_, hc, hw⟩
      rcases hr with hr | hr | ⟨hm, hacc⟩
      · rw [hf] at hr; cases hr
      · rw [hf] at hr; cases hr
      · have ht : f'.header.type = .AUTH_RESPONSE := by
          unfold answers at hm
          cases ht : f'.header.type <;> simp only [ht] at hm
          case HELLO =>
            split at hm
            · rw [List.mem_singleton.mp hm] at hf; cases hf
            · cases hm
          case AUTH_REQUEST => rw [List.mem_singleton.mp hm] at hf; cases hf
          case AUTH_RESPONSE => rfl
          case PING => rw [List.mem_singleton.mp hm] at hf; cases hf
          all_goals cases hm
        simp only [isCredential, ht, beq_self_eq_true, hacc ht, Bool.and_self]
  | sendHello k k' => obtain ⟨j, ok', he⟩ := hs; cases he; cases hf
  | chat k j json => obtain ⟨ok', he⟩ := hs; cases he; cases hf
  | broadcast json => obtain ⟨k, j, ok', he, -⟩ := hs; cases he; cases hf
  | sweep => obtain ⟨k, j, ok', he⟩ := hs; cases he; cases hf
  | stopAll =>
    obtain ⟨k, j, he | ⟨ok', he⟩⟩ := hs
    · cases he
    · cases he; cases hf
  | register k => cases hs
  | emit o => cases hs; exact ha.elim
  | _ => exact hs.elim

/-- What the session does with an accepted AUTH_RESPONSE on a registered id. -/
theorem credential_out (net : Handle → Frame → Bool) {c : ConnId} {h : Handle} {f : Frame}
    (hcr : isCredential config f = true) (hc : s.connections[c]? = some h) :
    (onFrame config net s c f).out = (s.send net c h .AUTH_OK (str "\x7b\x7d")).2 ∧
      grants config s c f = true ∧ granted s c f = { s.peers[c]?.getD {} with state := .AUTHENTICATED } := by
  simp only [isCredential, Bool.and_eq_true, beq_iff_eq] at hcr
  obtain ⟨ht, ha⟩ := hcr
  refine ⟨?_, by simp [grants, ht, hc, ha], by simp [granted, ht]⟩
  simp only [onFrame, ht, handleAuthResponse, hc, ha, if_true]

/-! ## The order of the handshake -/

/-- Devices come from HELLOs, and no AUTHENTICATED entry is without one. -/
structure Ordered (s : Session) (log : List (Tid × Out)) : Prop where
  hello : ∀ (c : ConnId) (peer : PeerInfo), s.peers[c]? = some peer → peer.deviceId ≠ [] →
    SaidHello (life c log) c peer.deviceId
  device : ∀ (c : ConnId) (peer : PeerInfo), s.peers[c]? = some peer → peer.state = .AUTHENTICATED →
    peer.deviceId ≠ []
  asked : Machine.Justified Asked log

theorem Ordered.handshake (h : Ordered s log) : HandshakeOrder s log where
  named := fun c peer hp ha => ⟨h.device c peer hp ha, h.hello c peer hp (h.device c peer hp ha)⟩
  asked := h.asked

theorem askedOn_append (es : List (Tid × Out)) {c : ConnId} {h : Handle} (ha : askedOn log c h = true) :
    askedOn (es ++ log) c h = true := by
  simp only [askedOn, List.any_append, Bool.or_eq_true] at ha ⊢
  exact .inr ha

/-- Entries stay backed by a HELLO. -/
theorem hello_exec {a : Act} (ha : PlainAct a) (t : Tid) (hI : Ordered s log) {c : ConnId} {peer : PeerInfo}
    (hp : (exec config ids net s a).s.peers[c]? = some peer) (hd : peer.deviceId ≠ []) :
    SaidHello (life c (((exec config ids net s a).out.map fun o => (t, o)).reverse ++ log)) c peer.deviceId := by
  have hne : peer ≠ {} := by
    intro he
    subst he
    exact hd rfl
  rw [life_exec ha t hp hne]
  by_cases hf : ∃ k f, a = .frame k f
  · obtain ⟨k, f, rfl⟩ := hf
    have hp' : (peersAfter config s k f)[c]? = some peer := by rw [← onFrame_peers config net]; exact hp
    have hnew : f.header.type = .HELLO → peer.deviceId = extractStr f.payloadAsString (str "device_id") → k = c →
        SaidHello (((exec config ids net s (.frame k f)).out.map fun o => (t, o)).reverse ++ life c log) c
          peer.deviceId := by
      rintro ht hpd rfl
      refine ⟨t, f, s.connections[k]?.isSome, List.mem_append_left _ ?_, ht, hpd.symm⟩
      exact List.mem_reverse.mpr (List.mem_map.mpr ⟨_, List.mem_cons_self, rfl⟩)
    have hold : ∀ old, s.peers[c]? = some old → old.deviceId = peer.deviceId →
        SaidHello (((exec config ids net s (.frame k f)).out.map fun o => (t, o)).reverse ++ life c log) c
          peer.deviceId := by
      intro old ho hde
      have := hI.hello c old ho (by rw [hde]; exact hd)
      rw [hde] at this
      exact this.mono fun e he => List.mem_append_right _ he
    rcases peersAfter_some config hp' with ⟨hp', -⟩ | ⟨rfl, ⟨-, hpe⟩ | ⟨hch, hpe⟩⟩
    · exact hold peer hp' rfl
    · by_cases ht : f.header.type = .HELLO
      · exact hnew ht (by rw [hpe, granted, if_pos ht]; rfl) rfl
      · cases ho : s.peers[c]? with
        | none =>
          rw [hpe, granted, if_neg ht, ho] at hd
          exact absurd rfl hd
        | some old => exact hold old ho (by rw [hpe, granted, if_neg ht, ho]; rfl)
    · have ht : f.header.type = .HELLO := by
        simp only [challenges, saysHello, Bool.and_eq_true, beq_iff_eq] at hch
        exact hch.1.1
      exact hnew ht (by rw [hpe]; rfl) rfl
  · simp only [not_exists] at hf
    exact (hI.hello c peer (exec_peers_some hf hp hne) hd).mono fun e he => List.mem_append_right _ he

/-- An entry that is AUTHENTICATED after a frame has a device, if the frame is in order. -/
theorem device_exec {a : Act} (hI : Ordered s log) (ho : InOrder config s log a) {c : ConnId} {peer : PeerInfo}
    (hp : (exec config ids net s a).s.peers[c]? = some peer) (hst : peer.state = .AUTHENTICATED) :
    peer.deviceId ≠ [] := by
  by_cases hf : ∃ k f, a = .frame k f
  · obtain ⟨k, f, rfl⟩ := hf
    have hp' : (peersAfter config s k f)[c]? = some peer := by rw [← onFrame_peers config net]; exact hp
    rcases peersAfter_some config hp' with ⟨hp', -⟩ | ⟨rfl, ⟨hg, hpe⟩ | ⟨-, hpe⟩⟩
    · exact hI.device c peer hp' hst
    · cases hh : saysHello f
      · have hg' := hg
        simp only [grants, hh, Bool.false_and, Bool.false_or, Bool.and_eq_true, beq_iff_eq] at hg'
        obtain ⟨⟨ht, hc⟩, hacc⟩ := hg'
        obtain ⟨h, hc⟩ := Option.isSome_iff_exists.mp hc
        have hcr : isCredential config f = true := by simp [isCredential, ht, hacc]
        have hdev := ho hcr
        rw [hc, Option.all_some, Bool.and_eq_true] at hdev
        rw [hpe, (credential_out net hcr hc).2.2]
        cases hold : s.peers[c]? with
        | none => rw [hold] at hdev; cases hdev.1
        | some old => simpa [hold] using hdev.1
      · have hh' := hh
        simp only [saysHello, Bool.and_eq_true, beq_iff_eq, bne_iff_ne] at hh'
        rw [hpe, granted, if_pos hh'.1]
        exact hh'.2
    · rw [hpe] at hst; cases hst
  · simp only [not_exists] at hf
    have hne : peer ≠ {} := by
      intro he
      subst he
      cases hst
    exact hI.device c peer (exec_peers_some hf hp hne) hst

/-- What a piece sends keeps AUTH_OK behind AUTH_REQUEST, if it is in order. -/
theorem asked_exec {a : Act} (ha : PlainAct a) (t : Tid) (hI : Ordered s log) (ho : InOrder config s log a) :
    Machine.Justified Asked (((exec config ids net s a).out.map fun o => (t, o)).reverse ++ log) := by
  refine hI.asked.append ?_
  intro newer e older hes c h f ok he hf
  have hmem := mem_pushed hes
  obtain ⟨o, hout, rfl⟩ := hmem e List.mem_cons_self
  obtain rfl : o = .sent c h f ok := he
  obtain ⟨f', rfl, hcr, hc, hw⟩ := exec_sends_ok ha hout hf
  have hask := ho hcr
  simp only [hc, Option.all_some, hw, Bool.not_true, Bool.false_or, Bool.and_eq_true] at hask
  rw [life_append]
  · exact askedOn_append older hask.2
  · intro x hx
    obtain ⟨o, hout', rfl⟩ := hmem x (List.mem_cons_of_mem _ hx)
    exact (frame_log hout').1 c

/-- One piece in order keeps the order. -/
theorem ordered_exec {a : Act} (ha : PlainAct a) (t : Tid) (hI : Ordered s log) (ho : InOrder config s log a) :
    Ordered (exec config ids net s a).s (((exec config ids net s a).out.map fun o => (t, o)).reverse ++ log) where
  hello := fun _ _ hp hd => hello_exec ha t hI hp hd
  device := fun _ _ hp hst => device_exec hI ho hp hst
  asked := asked_exec ha t hI ho

theorem order_rule {ops : Op → Prop} : Rule config ids w ops (InOrder config) Ordered (fun _ => PlainAct) where
  init := ⟨fun c peer hp => by simp at hp, fun c peer hp => by simp at hp, trivial⟩
  maps := fun _ hp h => ⟨by rw [hp]; exact h.hello, by rw [hp]; exact h.device, h.asked⟩
  older := fun _ h => h
  call := by
    intro op h log _ a ha
    cases op <;> cases List.mem_singleton.mp ha <;> trivial
  frame := fun _ _ _ => trivial
  drop := fun _ _ _ => trivial
  limit := fun _ _ => trivial
  refuse := fun _ _ _ => trivial
  exec := fun t _ ho hI ha => ⟨ordered_exec ha t hI ho, fun _ hb => plainAct_rest hb⟩

/-- A frame that leaves the lifecycle kept is in order. -/
theorem HandshakeOrder.inOrder {t : Tid} {c : ConnId} {f : Frame}
    (h : HandshakeOrder (exec config ids net s (.frame c f)).s
      (((exec config ids net s (.frame c f)).out.map fun o => (t, o)).reverse ++ log)) :
    InOrder config s log (.frame c f) := by
  intro hcr
  cases hc : s.connections[c]? with
  | none => rfl
  | some k =>
    obtain ⟨hout, hg, hgr⟩ := credential_out net hcr hc
    rw [Option.all_some, Bool.and_eq_true]
    constructor
    · have hp : (exec config ids net s (.frame c f)).s.peers[c]? = some (granted s c f) := by
        show (onFrame config net s c f).s.peers[c]? = _
        rw [onFrame_peers, peersAfter, if_pos hg, find_insert, if_pos rfl]
      have hd := (h.named c _ hp (by rw [hgr])).1
      rw [hgr] at hd
      cases hold : s.peers[c]? with
      | none => rw [hold] at hd; exact absurd rfl hd
      | some old => rw [hold] at hd; simpa using hd
    · cases hw : (s.objs k).writable
      · rfl
      · have hlog : ((exec config ids net s (.frame c f)).out.map fun o => (t, o)).reverse ++ log =
            (t, .sent c k (Frame.create .AUTH_OK (str "\x7b\x7d")) (net k (Frame.create .AUTH_OK (str "\x7b\x7d")))) ::
              (t, .frame c f true) :: log := by
          simp only [exec, hout, hc, Option.isSome_some, Session.send, hw, if_true, List.map_cons, List.map_nil,
            List.reverse_cons, List.reverse_nil, List.nil_append, List.cons_append]
        have hj := h.asked
        rw [hlog] at hj
        simpa [life, askedOn, isRegistered] using hj.1 c k _ _ rfl rfl

/-- In every state of a run whose AUTH_RESPONSEs were in order the lifecycle has been kept,
    and the next frame keeps it just if it is in order too. -/
theorem handshake_in_order {ops : Op → Prop} {S : Sys} (h : Reachable config ids w ops (InOrder config) S) :
    HandshakeOrder S.s S.log ∧ ∀ t net c f,
      HandshakeOrder (exec config ids net S.s (.frame c f)).s
          (((exec config ids net S.s (.frame c f)).out.map fun o => (t, o)).reverse ++ S.log) ↔
        InOrder config S.s S.log (.frame c f) := by
  have hI : Ordered S.s S.log := (Reachable.rule order_rule h).1
  refine ⟨hI.handshake, fun t net c f => ⟨fun hh => hh.inOrder, fun ho => Ordered.handshake ?_⟩⟩
  exact ordered_exec (a := .frame c f) trivial t hI ho

/-! ## Challenges -/

/-- `challenge` was sent on `c` in an AUTH_REQUEST. -/
def Challenged (config : AppConfig) (log : List (Tid × Out)) (c : ConnId) (challenge : Bytes) : Prop :=
  ∃ t h ok deviceId, (t, .sent c h (Frame.create .AUTH_REQUEST (authRequestPayload config deviceId)) ok) ∈ log ∧
    challenge = deviceId ++ str "|" ++ config.deviceId

/-- What an AUTH_RESPONSE carries. -/
def response (f : Frame) : Bytes := extractStr f.payloadAsString (str "response")

/-- An AUTH_RESPONSE accepted on a registered id. -/
def AcceptedOn (config : AppConfig) (e : Tid × Out) (c : ConnId) (f : Frame) : Prop :=
  e.2 = .frame c f true ∧ isCredential config f = true

/-- An accepted AUTH_RESPONSE carries what `hmac` makes of a challenge sent before on its
    connection. -/
def Answers (hmac : Bytes → Bytes → Bytes) (config : AppConfig) (e : Tid × Out) (older : List (Tid × Out)) : Prop :=
  ∀ c f, AcceptedOn config e c f →
    ∃ challenge, Challenged config (life c older) c challenge ∧ response f = hmac config.pskHash challenge

/-- Responses are bound to challenges: what is accepted answers a challenge of its connection,
    and is accepted elsewhere only where the same challenge was sent. -/
structure Bound (hmac : Bytes → Bytes → Bytes) (config : AppConfig) (log : List (Tid × Out)) : Prop where
  answers : Machine.Justified (Answers hmac config) log
  not_replayed : ∀ newer e older newer' e' older' c c' f f', log = newer ++ e :: older →
    log = newer' ++ e' :: older' → AcceptedOn config e c f → AcceptedOn config e' c' f' → f'.payload = f.payload →
    ∃ challenge, Challenged config (life c older) c challenge ∧ Challenged config (life c' older') c' challenge

/-- An AUTH_RESPONSE brings the hash to a registered id. -/
def BringsHash (config : AppConfig) (s : Session) (c : ConnId) (f : Frame) : Prop :=
  f.header.type = .AUTH_RESPONSE ∧ response f = config.pskHash ∧ s.connections[c]?.isSome = true

/-- None does. -/
def WithoutHash (config : AppConfig) (s : Session) (_ : List (Tid × Out)) : Act → Prop
  | .frame c f => ¬ BringsHash config s c f
  | _ => True

instance (config : AppConfig) (s : Session) (log : List (Tid × Out)) :
    (a : Act) → Decidable (WithoutHash config s log a)
  | .frame _ _ => inferInstanceAs (Decidable (¬ (_ ∧ _ ∧ _)))
  | .startSession | .register _ | .start _ | .sendHello _ _ | .drop _ _ | .pick _ _ | .chat _ _ _ | .broadcast _
  | .sweep | .stop | .stopAll | .limit _ | .refuse _ _ | .emit _ => inferInstanceAs (Decidable True)

/-- With a hash, what is accepted is the hash. -/
theorem response_eq_hash (hpsk : config.pskHash ≠ []) {f : Frame} (h : isCredential config f = true) :
    response f = config.pskHash := by
  simp only [isCredential, accepted, Bool.and_eq_true, Bool.or_eq_true, beq_iff_eq, hpsk, false_or] at h
  exact h.2

/-- A function that keeps messages apart binds each response to one challenge. -/
theorem bound_of_answers {hmac : Bytes → Bytes → Bytes} (hinj : ∀ key, Function.Injective (hmac key))
    (h : Machine.Justified (Answers hmac config) log) : Bound hmac config log where
  answers := h
  not_replayed := by
    intro newer e older newer' e' older' c c' f f' hl hl' ha ha' hp
    obtain ⟨x, hx, hr⟩ := (hl ▸ h).entry c f ha
    obtain ⟨x', hx', hr'⟩ := (hl' ▸ h).entry c' f' ha'
    have he : response f' = response f := by rw [response, Frame.payloadAsString, hp]; rfl
    obtain rfl : x = x' := hinj config.pskHash (by rw [← hr, ← hr', he])
    exact ⟨x, hx, hx'⟩

theorem bringsHash_of_accepted (hpsk : config.pskHash ≠ []) {c : ConnId} {f : Frame}
    (h : isCredential config f = true) (hreg : s.connections[c]?.isSome = true) : BringsHash config s c f := by
  refine ⟨?_, response_eq_hash hpsk h, hreg⟩
  simp only [isCredential, Bool.and_eq_true, beq_iff_eq] at h
  exact h.1

theorem BringsHash.accepted {c : ConnId} {f : Frame} (h : BringsHash config s c f) : isCredential config f = true := by
  obtain ⟨ht, hr, -⟩ := h
  simp only [response] at hr
  simp [isCredential, ht, Chat.accepted, hr]

/-- A piece that brings no hash to a registered id has nothing accepted. -/
theorem answers_exec {hmac : Bytes → Bytes → Bytes} (hpsk : config.pskHash ≠ []) {a : Act} (ha : PlainAct a)
    (t : Tid) (hI : Machine.Justified (Answers hmac config) log) (hb : WithoutHash config s log a) :
    Machine.Justified (Answers hmac config) (((exec config ids net s a).out.map fun o => (t, o)).reverse ++ log) := by
  refine hI.append ?_
  rintro newer e older hes c f ⟨he, hcr⟩
  obtain ⟨o, hout, rfl⟩ := mem_pushed hes e List.mem_cons_self
  obtain rfl : o = .frame c f true := he
  obtain ⟨rfl, hreg⟩ := exec_logs_frame ha hout
  exact absurd (bringsHash_of_accepted hpsk hcr hreg.symm) hb

theorem challenge_rule {hmac : Bytes → Bytes → Bytes} (hpsk : config.pskHash ≠ []) {ops : Op → Prop} :
    Rule config ids w ops (WithoutHash config) (fun _ log => Machine.Justified (Answers hmac config) log)
      (fun _ => PlainAct) where
  init := trivial
  maps := fun _ _ h => h
  older := fun _ h => h
  call := by
    intro op h log _ a ha
    cases op <;> cases List.mem_singleton.mp ha <;> trivial
  frame := fun _ _ _ => trivial
  drop := fun _ _ _ => trivial
  limit := fun _ _ => trivial
  refuse := fun _ _ _ => trivial
  exec := fun t _ hb hI ha => ⟨answers_exec hpsk ha t hI hb, fun _ hb' => plainAct_rest hb'⟩

/-- Where responses are bound to challenges after a frame that brought the hash, the hash is the answer
    to a challenge sent before. -/
theorem Bound.challenged {hmac : Bytes → Bytes → Bytes} {t : Tid} {c : ConnId} {f : Frame}
    (h : Bound hmac config (((exec config ids net s (.frame c f)).out.map fun o => (t, o)).reverse ++ log))
    (hf : BringsHash config s c f) :
    ∃ challenge, Challenged config (life c log) c challenge ∧ hmac config.pskHash challenge = config.pskHash := by
  have hlog : ((exec config ids net s (.frame c f)).out.map fun o => (t, o)).reverse ++ log =
      ((onFrame config net s c f).out.map fun o => (t, o)).reverse ++ (t, .frame c f true) :: log := by
    simp only [exec, hf.2.2, List.map_cons, List.reverse_cons, List.append_assoc, List.cons_append, List.nil_append]
  have hj := h.answers
  rw [hlog] at hj
  obtain ⟨x, hx, hr⟩ := hj.entry c f ⟨rfl, hf.accepted⟩
  exact ⟨x, hx, by rw [← hr, hf.2.1]⟩

/-- In every state of a run in which no AUTH_RESPONSE brings the hash to a registered id, responses
    have been bound to challenges. The next frame keeps them so if it does not bring the hash
    either; and if it does, only where the hash happens to be what `hmac` makes of a challenge that
    was sent there. -/
theorem response_answers_challenge {hmac : Bytes → Bytes → Bytes} (hinj : ∀ key, Function.Injective (hmac key))
    (hpsk : config.pskHash ≠ []) {ops : Op → Prop} {S : Sys}
    (h : Reachable config ids w ops (WithoutHash config) S) :
    Bound hmac config S.log ∧ ∀ t net c f,
      let log' := ((exec config ids net S.s (.frame c f)).out.map fun o => (t, o)).reverse ++ S.log
      (¬ BringsHash config S.s c f → Bound hmac config log') ∧
        (BringsHash config S.s c f →
          (∀ challenge, Challenged config (life c S.log) c challenge → hmac config.pskHash challenge ≠ config.pskHash) →
          ¬ Bound hmac config log') := by
  have hI : Machine.Justified (Answers hmac config) S.log := (Reachable.rule (challenge_rule hpsk) h).1
  refine ⟨bound_of_answers hinj hI, fun t net c f => ⟨fun hno => ?_, fun hf hnone hb => ?_⟩⟩
  · exact bound_of_answers hinj (answers_exec (a := .frame c f) hpsk trivial t hI hno)
  · obtain ⟨x, hx, hr⟩ := hb.challenged hf
    exact hnone x hx hr

end

/-! ## Frames out of nowhere -/

/-- A peer that says nothing but AUTH_RESPONSE is let in: its entry has no device, and
    AUTH_OK is sent. -/
theorem unasked_response :
    ∃ S, Reachable {} (fun _ => str "c") (registeredWiring fun _ => str "c") Op.FromUser (fun _ _ _ => True) S ∧
      S.s.peers[str "c"]? = some { state := .AUTHENTICATED } ∧ ¬ HandshakeOrder S.s S.log := by
  have hrun : ((Machine.run (Machine.checked (step {} (fun _ => str "c") (registeredWiring fun _ => str "c"))
      fun _ _ => true) {} (oneRead [Frame.create .AUTH_RESPONSE (authResponsePayload {})] 2)).map fun S =>
        decide (S.s.peers[str "c"]? = some { state := .AUTHENTICATED })) = some true := by decide +kernel
  obtain ⟨S, hS, hp⟩ :
      ∃ S, Reachable {} (fun _ => str "c") (registeredWiring fun _ => str "c") Op.FromUser
        (fun _ _ _ => True) S ∧ _ :=
    Reachable.of_run (oneRead_fromUser _ _) (fun _ _ _ _ _ _ => trivial) hrun
  have hpeer := of_decide_eq_true hp
  exact ⟨S, hS, hpeer, fun h => (h.named _ _ hpeer rfl).1 rfl⟩

/-- A peer that says HELLO and answers the challenge it is sent. -/
def answered : List Frame := [hello, Frame.create .AUTH_RESPONSE (authResponsePayload guarded)]

theorem handshake_in_order_answered :
    ∃ S, Reachable guarded (fun _ => str "c") (registeredWiring fun _ => str "c") Op.FromUser (InOrder guarded) S ∧
      S.s.authenticated (str "c") = true ∧ HandshakeOrder S.s S.log ∧ ∀ t net c f,
        HandshakeOrder (exec guarded (fun _ => str "c") net S.s (.frame c f)).s
            (((exec guarded (fun _ => str "c") net S.s (.frame c f)).out.map fun o => (t, o)).reverse ++ S.log) ↔
          InOrder guarded S.s S.log (.frame c f) := by
  have hrun : ((Machine.run (Machine.checked (step guarded (fun _ => str "c") (registeredWiring fun _ => str "c"))
      (passes (InOrder guarded))) {} (oneRead answered 3)).map fun S => S.s.authenticated (str "c")) = some true := by
    decide +kernel
  obtain ⟨S, hS, hp⟩ := Reachable.of_passing (oneRead_fromUser _ _) hrun
  exact ⟨S, hS, hp, handshake_in_order hS⟩

/-- A peer that sends the hash is let in, whatever challenge it was sent. -/
theorem hash_is_accepted :
    let hmac := fun key message : Bytes => key ++ message
    (∀ key, Function.Injective (hmac key)) ∧
      ∃ S, Reachable guarded (fun _ => str "c") (registeredWiring fun _ => str "c") Op.FromUser
          (fun _ _ _ => True) S ∧ ¬ Bound hmac guarded S.log := by
  intro hmac
  refine ⟨fun key x y h => List.append_cancel_left h, ?_⟩
  let f := Frame.create .AUTH_RESPONSE (authResponsePayload guarded)
  have hrun : ((Machine.run (Machine.checked (step guarded (fun _ => str "c") (registeredWiring fun _ => str "c"))
      fun _ _ => true) {} (oneRead answered 3)).map fun S =>
        decide ((.recv 0, .frame (str "c") f true) ∈ S.log)) = some true := by decide +kernel
  obtain ⟨S, hS, hp⟩ :
      ∃ S, Reachable guarded (fun _ => str "c") (registeredWiring fun _ => str "c") Op.FromUser
        (fun _ _ _ => True) S ∧ _ :=
    Reachable.of_run (oneRead_fromUser _ _) (fun _ _ _ _ _ _ => trivial) hrun
  obtain ⟨newer, older, hlog⟩ := List.append_of_mem (of_decide_eq_true hp)
  refine ⟨S, hS, ?_⟩
  intro hb
  obtain ⟨x, ⟨_, _, _, d, -, hx⟩, hr⟩ :=
    (Machine.justified_iff.mp hb.answers) newer _ older hlog (str "c") f ⟨rfl, by decide⟩
  have hk : response f = str "k" := by decide
  have hg : guarded.pskHash = str "k" := rfl
  rw [hk, hx, hg] at hr
  have hlen := congrArg List.length hr
  simp only [hmac, List.length_append] at hlen
  have h1 : (str "|").length = 1 := rfl
  omega

/-- A peer is challenged while it is being added, sends a wrong response and then the hash. It is refused,
    and a ping sweep drops it before the hash is handled: it comes on an id no longer registered. -/
def refused : List Label :=
  let net := fun _ _ => true
  let frames := [hello, Frame.create .AUTH_RESPONSE (authResponsePayload {}),
    Frame.create .AUTH_RESPONSE (authResponsePayload guarded)]
  [.call 0 .start, .run (.app 0) net, .call 0 .addConnection, .run (.app 0) net, .run (.app 0) net, .poll 0,
    .read 0 (some (frames.flatMap Frame.serialize)) false, .run (.recv 0) net, .run (.recv 0) net,
    .call 1 .pingSweep, .run (.app 1) net, .run (.app 1) net, .run (.recv 0) net]

theorem refused_fromUser : ∀ l ∈ refused, l.Calls Op.FromUser := by
  intro l hl
  simp only [refused, List.mem_cons, List.not_mem_nil, or_false] at hl
  rcases hl with rfl | rfl | rfl | rfl | rfl | rfl | rfl | rfl | rfl | rfl | rfl | rfl | rfl <;> trivial

theorem response_answers_challenge_refused :
    let hmac := fun key message : Bytes => key ++ message
    let wrong := Frame.create .AUTH_RESPONSE (authResponsePayload {})
    let late := Frame.create .AUTH_RESPONSE (authResponsePayload guarded)
    ∃ S, Reachable guarded (fun _ => str "c") (registeredWiring fun _ => str "c") Op.FromUser (WithoutHash guarded) S ∧
      askedOn S.log (str "c") 0 = true ∧ (.recv 0, .frame (str "c") wrong true) ∈ S.log ∧
      (.recv 0, .frame (str "c") late false) ∈ S.log ∧ response late = guarded.pskHash ∧ Bound hmac guarded S.log := by
  intro hmac wrong late
  have hrun : ((Machine.run (Machine.checked (step guarded (fun _ => str "c") (registeredWiring fun _ => str "c"))
      (passes (WithoutHash guarded))) {} refused).map fun S =>
        askedOn S.log (str "c") 0 && decide ((.recv 0, .frame (str "c") wrong true) ∈ S.log) &&
          decide ((.recv 0, .frame (str "c") late false) ∈ S.log)) = some true := by decide +kernel
  obtain ⟨S, hS, hp⟩ := Reachable.of_passing refused_fromUser hrun
  simp only [Bool.and_eq_true, decide_eq_true_eq] at hp
  have hinj : ∀ key, Function.Injective (hmac key) := fun key x y h => List.append_cancel_left h
  exact ⟨S, hS, hp.1.1, hp.1.2, hp.2, by decide, (response_answers_challenge hinj (by decide) hS).1⟩

end LanTalk.Chat
