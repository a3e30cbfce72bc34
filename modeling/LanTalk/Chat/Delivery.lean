/-
  LanTalk.Chat.Delivery — what the two joined sessions come to over their bytes: the chat
  messages that are handed to each side's callback (`heard`), and that no run is stuck. The
  steps are those of `LanTalk.Chat.ByteLink`, `Undisturbed` ones only.

  Proved, for frames within the readers' limit:
  - `messages_heard`: in every state reached, the messages a side has heard are those that the
    other wrote behind the frame that grants it, in that order and each once, as far as they
    have been handed out; they are messages of the other's users, each with an id.
  - `sessions_settle`: from every state reached the two can come, without a user's call or a
    sweep, to where all frames have been handed out and each holds the other AUTHENTICATED.
  - `lines_heard`: over every run, what a side's users say while it holds the other
    AUTHENTICATED and has written the frame that grants itself is what the other side hears.
-/

import LanTalk.Chat.ByteLink

namespace LanTalk.Chat.Handshake

open LanTalk.Lib LanTalk.Network LanTalk.Config

/-! ## What is heard -/

/-- What `messageCallback_` was given. -/
def heard (log : List Out) : List ChatMessage :=
  log.flatMap fun o => match o with
    | .message _ m => [m]
    | _ => []

/-- What the chat frames among `fs` are read as. -/
def said (fs : List Frame) : List ChatMessage :=
  fs.flatMap fun f => if f.header.type = .CHAT_MESSAGE then (ChatMessage.fromJson f.payloadAsString).toList else []

/-- What is said from the first frame of type `t` on. -/
def audible (t : MessageType) (fs : List Frame) : List ChatMessage := said (fs.dropWhile fun f => f.header.type != t)

@[simp] theorem heard_append (l l' : List Out) : heard (l ++ l') = heard l ++ heard l' := List.flatMap_append

@[simp] theorem said_append (fs gs : List Frame) : said (fs ++ gs) = said fs ++ said gs := List.flatMap_append

@[simp] theorem said_nil : said [] = [] := rfl

theorem said_singleton (f : Frame) :
    said [f] = if f.header.type = .CHAT_MESSAGE then (ChatMessage.fromJson f.payloadAsString).toList else [] :=
  List.flatMap_singleton _ f

theorem mem_said {m : ChatMessage} {fs : List Frame} :
    m ∈ said fs ↔ ∃ f ∈ fs, f.header.type = .CHAT_MESSAGE ∧ ChatMessage.fromJson f.payloadAsString = some m := by
  refine List.mem_flatMap.trans (exists_congr fun f => and_congr_right fun _ => ?_)
  split
  · rename_i h
    simp [h]
  · rename_i h
    simp [h]

/-- A part of a log in which no message is handed out. -/
theorem heard_nil {out : List Out} (h : ∀ o ∈ out, ∀ c m, o ≠ .message c m) : heard out = [] := by
  refine List.flatMap_eq_nil_iff.mpr fun o ho => ?_
  cases o with
  | message c m => exact absurd rfl (h _ ho c m)
  | _ => rfl

/-- More frames: all are audible if a frame of type `t` came before them. -/
theorem audible_append (t : MessageType) (fs gs : List Frame) :
    audible t (fs ++ gs) = audible t fs ++ if 0 < count t fs then said gs else audible t gs := by
  have hnone : (fs.dropWhile fun g => g.header.type != t) = [] ↔ ¬ 0 < count t fs := by
    rw [List.dropWhile_eq_nil_iff, count_pos]
    simp
  rw [audible, audible, List.dropWhile_append]
  by_cases h : 0 < count t fs
  · have hne : (fs.dropWhile fun g => g.header.type != t).isEmpty = false := by
      rw [List.isEmpty_eq_false_iff]
      exact fun hn => hnone.mp hn h
    rw [hne, if_neg Bool.false_ne_true, said_append, if_pos h]
  · rw [hnone.mpr h, if_neg h, List.isEmpty_nil, if_pos rfl, said_nil, List.nil_append, audible]

/-- A part of the frames: a part of what is audible. -/
theorem audible_take (t : MessageType) (n : Nat) (fs : List Frame) : audible t (fs.take n) <+: audible t fs := by
  have happend := audible_append t (fs.take n) (fs.drop n)
  rw [List.take_append_drop] at happend
  exact ⟨_, happend.symm⟩

/-- The granting frame itself says nothing. -/
theorem audible_singleton {t : MessageType} (ht : t ≠ .CHAT_MESSAGE) (f : Frame) : audible t [f] = [] := by
  by_cases hf : f.header.type = t
  · have hchat : ¬ f.header.type = .CHAT_MESSAGE := fun hc => ht (hf ▸ hc)
    rw [audible, List.dropWhile_cons, if_neg (by simp [hf]), said_singleton, if_neg hchat]
  · rw [audible, List.dropWhile_cons, if_pos (by simpa using hf), List.dropWhile_nil, said_nil]

/-- One frame more: it is audible if a frame of type `t` came before it. -/
theorem audible_concat {t : MessageType} (ht : t ≠ .CHAT_MESSAGE) (fs : List Frame) (f : Frame) :
    audible t (fs ++ [f]) = audible t fs ++ if 0 < count t fs then said [f] else [] := by
  rw [audible_append, audible_singleton ht]

theorem grantType_ne_chat (config : AppConfig) : grantType config ≠ .CHAT_MESSAGE := by
  unfold grantType
  split <;> decide

section
variable {config : Party → AppConfig} {c : Party → ConnId}

/-- The callbacks of a frame: its message, if its sender is held AUTHENTICATED. -/
theorem heard_callbacks (config : AppConfig) (s : Session) (c : ConnId) (f : Frame) :
    heard (callbacks config s c f) = if s.authenticated c = true then said [f] else [] := by
  unfold callbacks
  by_cases hg : grants config s c f = true
  · have hne : ¬ f.header.type = .CHAT_MESSAGE := by
      intro ht
      simp [grants, saysHello, ht] at hg
    rw [if_pos hg, said_singleton, if_neg hne, ite_self]
    rfl
  · rw [if_neg hg, said_singleton]
    by_cases hc : f.header.type = .CHAT_MESSAGE
    · by_cases ha : s.authenticated c = true
      · rw [if_pos ⟨hc, ha⟩, if_pos ha, if_pos hc]
        cases ChatMessage.fromJson f.payloadAsString <;> rfl
      · rw [if_neg fun h => ha h.2, if_neg ha]
        rfl
    · rw [if_neg fun h => hc h.1, if_neg hc, ite_self]
      rfl

/-- A move keeps what a side has heard in step with what it has handled. -/
theorem move_heard {P : Party → Side} (hC : Compatible config) (hI : Halves config c P) {x : Party} {m : Move}
    {d' : Side} (hP : heard (P x).log = audible (grantType (config x)) ((P x.other).sent.take (P x).got))
    (h : (P x).move (config x) (c x) (P x.other).sent m = some d') :
    heard d'.log = audible (grantType (config x)) ((P x.other).sent.take d'.got) := by
  by_cases hm : m = .deliver
  · subst hm
    obtain ⟨f, hf, -, rfl⟩ := hI.delivered hC h
    have hsent : heard ((answers (config x) f).map fun f' => Out.sent (c x) 0 f' true) = [] := by
      refine heard_nil fun o ho k msg => ?_
      obtain ⟨g, -, rfl⟩ := List.mem_map.mp ho
      exact fun e => by cases e
    show heard (_ ++ _ ++ _) = audible _ ((P x.other).sent.take ((P x).got + 1))
    rw [take_succ_of_get hf, audible_concat (grantType_ne_chat _), heard_append, heard_append, hsent, hP,
      List.append_nil, heard_callbacks]
    simp only [(hI x).authenticated]
  · obtain ⟨a, ha⟩ := (hI x).pieced hm h
    have hout : heard (exec (config x) (fun _ => c x) (fun _ _ => true) (P x).s a).out = [] := by
      refine heard_nil fun o ho k msg e => ?_
      subst e
      exact ha.no_emit _ (exec_origin (config x) (fun _ => c x) (fun _ _ => true) ho)
    rw [ha.log, ha.got, heard_append, hout, List.append_nil, hP]

theorem Reachable.heard (hC : Compatible config) {P : Party → Side} (h : Reachable config c P) :
    ∀ x, Handshake.heard (P x).log = audible (grantType (config x)) ((P x.other).sent.take (P x).got) := by
  induction h with
  | init => exact fun _ => rfl
  | @step P P' l hr _ hs ih =>
    obtain ⟨y, m⟩ := l
    obtain ⟨d', hd, rfl⟩ := Option.map_eq_some_iff.mp hs
    obtain ⟨new, hnew⟩ := move_sent hd
    have hI := Reachable.halves hC hr
    intro x
    by_cases hx : x = y
    · subst hx
      rw [Function.update_self, Function.update_of_ne (Party.ne_other x)]
      exact move_heard hC hI (ih x) hd
    · have hxy : x.other = y := by cases x <;> cases y <;> first | rfl | exact absurd rfl hx
      rw [Function.update_of_ne hx, hxy, Function.update_self, hnew]
      have hle := (hI x).got_le
      rw [hxy] at hle
      rw [List.take_append_of_le_length hle, ih x, hxy]

/-- What the users of one side send is what those of the other read, as the decoder reads it:
    nothing before the frame that grants the sender, then every message with an id, in the order
    in which they were written and each once, as far as the receive thread has come. -/
theorem messages_heard (hC : Compatible config) {Q : Party → End} (h : LinkReachable config c Q) (hfit : Fits Q)
    (x : Party) :
    heard (Q x).side.log = audible (grantType (config x)) ((Q x.other).side.sent.take (Q x).side.got) ∧
      ∀ m ∈ heard (Q x).side.log, ∃ msgId timestampUtc text, msgId ≠ [] ∧
        m = (newMessage (config x.other) msgId timestampUtc text).mangled := by
  have hP := (h.linked hC hfit).reached
  have heq := hP.heard hC x
  refine ⟨heq, fun m hm => ?_⟩
  have hin : m ∈ said ((Q x.other).side.sent.take (Q x).side.got) := by
    have hm' := (heq ▸ hm : m ∈ audible _ _)
    obtain ⟨f, hf, hfm⟩ := mem_said.mp hm'
    exact mem_said.mpr ⟨f, (List.dropWhile_sublist _).subset hf, hfm⟩
  obtain ⟨f, hf, hchat, hread⟩ := mem_said.mp hin
  have hconf := ((hP.halves hC).mirror x).configured f ((List.take_sublist _ _).subset hf)
  simp only [Configured, hchat] at hconf
  obtain ⟨msgId, timestampUtc, text, hpay⟩ := hconf
  rw [hpay, fromJson_toJson_mangled] at hread
  split at hread
  · cases hread
  · rename_i hid
    cases hread
    exact ⟨msgId, timestampUtc, text, fun e => hid (.inl e), rfl⟩

end

/-- `b` has heard the second of two messages: it was granted between them. -/
def twoSaid : List (Party × LinkMove) :=
  [(.a, .own .add), (.a, .own .add), (.a, .own .add), (.b, .own .add), (.b, .own .add), (.b, .own .add),
    (.a, .recv 4096 false), (.a, .next), (.a, .own (.broadcast (str "1") 0 (str "early"))), (.b, .recv 40 false),
    (.b, .recv 4096 false), (.b, .next), (.b, .next), (.a, .recv 4096 false), (.a, .next),
    (.a, .own (.broadcast (str "2") 0 (str "late"))), (.b, .recv 4096 true), (.b, .next), (.b, .next)]

theorem twoSaid_reached :
    ∃ Q, LinkReachable uneven named Q ∧ Fits Q ∧
      heard (Q .b).side.log = [newMessage (uneven .a) (str "2") 0 (str "late")] := by
  have hrun : ((Machine.run (Machine.checked (linkStep uneven named) fun Q l => decide (Undisturbed Q l)) (fun _ => {})
      twoSaid).map fun Q => fits Q && heard (Q .b).side.log == [newMessage (uneven .a) (str "2") 0 (str "late")]) =
        some true := by decide +kernel
  obtain ⟨Q, hQ, hp⟩ := Machine.reach_of_run (fun _ _ _ hc => of_decide_eq_true hc) hrun
  simp only [Bool.and_eq_true, beq_iff_eq] at hp
  exact ⟨Q, hQ, fits_iff hp.1, hp.2⟩

theorem messages_heard_twoSaid :
    ∃ Q : Party → End, heard (Q .b).side.log = [newMessage (uneven .a) (str "2") 0 (str "late")] ∧
      heard (Q .b).side.log = audible .AUTH_RESPONSE ((Q .a).side.sent.take (Q .b).side.got) := by
  obtain ⟨Q, hQ, hfit, hlate⟩ := twoSaid_reached
  exact ⟨Q, hlate, (messages_heard uneven_compatible hQ hfit .b).1⟩

/-! ## Settling -/

/-- How long the exchange is that a frame opens, itself included. -/
def exchange : MessageType → Nat
  | .HELLO => 4
  | .AUTH_REQUEST => 3
  | .AUTH_RESPONSE | .PING => 2
  | _ => 1

def backlog (fs : List Frame) : Nat := (fs.map fun f => exchange f.header.type).sum

@[simp] theorem backlog_append (fs gs : List Frame) : backlog (fs ++ gs) = backlog fs + backlog gs := by
  rw [backlog, List.map_append, List.sum_append, backlog, backlog]

theorem backlog_cons (f : Frame) (fs : List Frame) : backlog (f :: fs) = exchange f.header.type + backlog fs := rfl

/-- A frame is answered by shorter exchanges. -/
theorem backlog_answers (config : AppConfig) (f : Frame) : backlog (answers config f) < exchange f.header.type := by
  unfold answers
  cases ht : f.header.type
  case HELLO => cases config.requireAuth <;> simp [backlog, exchange, Frame.create]
  all_goals simp [backlog, exchange, Frame.create]

/-- How many pieces of `addConnection` are left, this one included. -/
def pieces : Act → Nat
  | .register _ => 3
  | _ => 1

/-- What a side has still to do without a user's call, `inbox` being all that the other has written. -/
def Side.toGo (d : Side) (inbox : List Frame) : Nat :=
  5 * (d.adding.map pieces).sum + backlog (inbox.drop d.got)

/-- The moves a side makes without a user's call or a ping sweep. -/
def Unprompted (_ : Party → Side) (l : Party × Move) : Prop := l.2 = .add ∨ l.2 = .deliver

theorem Unprompted.calm {P : Party → Side} {l : Party × Move} (h : Unprompted P l) : Calm P l := by
  obtain ⟨x, m⟩ := l
  rcases h with rfl | rfl <;> exact trivial

/-- The frames of a handshake are within the readers' limit. -/
structure Small (config : Party → AppConfig) : Prop where
  hello : ∀ x, (helloPayload (config x)).length ≤ kMaxPayloadSize
  request : ∀ x, (authRequestPayload (config x) (config x.other).deviceId).length ≤ kMaxPayloadSize
  response : ∀ x, (authResponsePayload (config x)).length ≤ kMaxPayloadSize

section
variable {config : Party → AppConfig} {c : Party → ConnId}

/-- The next piece of `addConnection` leaves less to do, whatever the HELLO it sends leads to. -/
theorem Half.add_less {config : AppConfig} {c : ConnId} {peerId : Bytes} {d : Side} {inbox : List Frame}
    (hI : Half config c peerId d inbox) (hd : d.adding ≠ []) :
    ∃ d' new, d.move config c inbox .add = some d' ∧ d'.got = d.got ∧ d'.sent = d.sent ++ new ∧
      (∀ f ∈ new, f = Frame.create .HELLO (helloPayload config)) ∧
      5 * (d'.adding.map pieces).sum + backlog new < 5 * (d.adding.map pieces).sum := by
  have hmove : ∀ {a rest}, d.adding = a :: rest → d.move config c inbox .add =
      some { (d.piece config c a).1 with adding := (d.piece config c a).2 ++ rest } := fun h => by
    simp only [Side.move, h]
  rcases hI.adding with h | h | h | h
  · refine ⟨_, [], hmove h, rfl, ?_, List.forall_mem_nil _, ?_⟩ <;>
      simp [Side.piece, exec, hI.session, reaching, h, pieces, backlog]
  · refine ⟨_, [], hmove h, rfl, ?_, List.forall_mem_nil _, ?_⟩ <;> simp [Side.piece, exec, reaching, h, pieces, backlog]
  · obtain ⟨hc, hw⟩ := hI.up (hI.running.mpr (.inl h))
    refine ⟨_, [Frame.create .HELLO (helloPayload config)], hmove h, rfl, ?_, ?_, ?_⟩
    · simp [Side.piece, exec, Session.reply, hc, Session.send, hw, reaching]
    · exact fun f hf => List.mem_singleton.mp hf
    · simp [Side.piece, exec, h, pieces, backlog, Frame.create, exchange]
  · exact absurd h hd

/-- What a frame of the other side is answered with is within the limit. -/
theorem Small.answers (hS : Small config) {x : Party} (hP : Paired (config x) (config x.other)) {f : Frame}
    (hf : Configured (config x.other) f) : ∀ g ∈ answers (config x) f, g.payload.length ≤ kMaxPayloadSize := by
  intro g hg
  unfold Chat.answers at hg
  split at hg
  · rename_i ht
    split at hg
    · rw [List.mem_singleton.mp hg, hP.hello hf ht]
      exact hS.request x
    · cases hg
  · rw [List.mem_singleton.mp hg]
    exact hS.response x
  · rw [List.mem_singleton.mp hg]
    decide
  · rw [List.mem_singleton.mp hg]
    decide
  · cases hg

/-- Handing over a frame leaves less to do, whatever it is answered. -/
theorem Halves.deliver_less {P : Party → Side} (hC : Compatible config) (hI : Halves config c P) {x : Party}
    (hup : ((P x).s.objs 0).running = true) (hleft : (P x).got < (P x.other).sent.length) :
    ∃ d' f, (P x.other).sent[(P x).got]? = some f ∧
      (P x).move (config x) (c x) (P x.other).sent .deliver = some d' ∧
      d'.adding = (P x).adding ∧ d'.sent = (P x).sent ++ answers (config x) f ∧
      backlog ((P x.other).sent.drop d'.got) + backlog (answers (config x) f) <
        backlog ((P x.other).sent.drop (P x).got) := by
  have hget := List.getElem?_eq_getElem hleft
  have hmove : (P x).move (config x) (c x) (P x.other).sent .deliver =
      some ((P x).handle (config x) (c x) (P x.other).sent[(P x).got]) := by
    rw [Side.move, if_pos hup, hget]
    rfl
  obtain ⟨f, hf, -, hd⟩ := hI.delivered hC hmove
  rw [hd] at hmove
  refine ⟨_, f, hf, hmove, rfl, rfl, ?_⟩
  have hless := backlog_answers (config x) f
  have hdrop : (P x.other).sent.drop (P x).got = f :: (P x.other).sent.drop ((P x).got + 1) := by
    rw [List.drop_eq_getElem_cons hleft]
    rw [hget] at hf
    cases hf
    rfl
  show backlog ((P x.other).sent.drop ((P x).got + 1)) + _ < _
  rw [hdrop, backlog_cons]
  omega

/-- What is left to do on both sides. -/
def toGo (P : Party → Side) : Nat := (P .a).toGo (P .b).sent + (P .b).toGo (P .a).sent

theorem toGo_eq (P : Party → Side) (x : Party) :
    toGo P = (P x).toGo (P x.other).sent + (P x.other).toGo (P x).sent := by
  cases x with
  | a => rfl
  | b => exact Nat.add_comm _ _

/-- Nothing is left: both have said HELLO, and handled all there is. -/
def Settled (P : Party → Side) : Prop := ∀ x, (P x).adding = [] ∧ (P x).got = (P x.other).sent.length

/-- A move of one side that does not add as much to the other as it does of its own. -/
theorem Halves.toGo_less {P : Party → Side} (hI : Halves config c P) {x : Party} {d' : Side} {new : List Frame}
    (hsent : d'.sent = (P x).sent ++ new)
    (hless : d'.toGo (P x.other).sent + backlog new < (P x).toGo (P x.other).sent) :
    toGo (Function.update P x d') < toGo P := by
  have hgot := (hI.mirror x).got_le
  rw [toGo_eq _ x, toGo_eq P x, Function.update_self, Function.update_of_ne (Party.ne_other x), hsent]
  have hother : (P x.other).toGo ((P x).sent ++ new) = (P x.other).toGo (P x).sent + backlog new := by
    rw [Side.toGo, Side.toGo, List.drop_append_of_le_length hgot, backlog_append]
    omega
  rw [hother]
  omega

/-- As long as something is left, a side can move without a user's call, and less is left. -/
theorem Halves.goes_on {P : Party → Side} (hC : Compatible config) (hS : Small config) (hI : Halves config c P) :
    Settled P ∨ ∃ x m d' new, Unprompted P (x, m) ∧ (P x).move (config x) (c x) (P x.other).sent m = some d' ∧
      d'.sent = (P x).sent ++ new ∧ (∀ f ∈ new, f.payload.length ≤ kMaxPayloadSize) ∧
      toGo (Function.update P x d') < toGo P := by
  by_cases hadd : ∃ x, (P x).adding ≠ []
  · right
    obtain ⟨x, hx⟩ := hadd
    obtain ⟨d', new, hm, hgot, hsent, hnew, hless⟩ := (hI x).add_less hx
    refine ⟨x, .add, d', new, .inl rfl, hm, hsent, ?_, hI.toGo_less hsent ?_⟩
    · intro f hf
      rw [hnew f hf]
      exact hS.hello x
    · rw [Side.toGo, Side.toGo, hgot]
      omega
  · have hall : ∀ x, (P x).adding = [] := fun x => by
      by_contra h
      exact hadd ⟨x, h⟩
    by_cases hquiet : ∃ x, (P x).got < (P x.other).sent.length
    · right
      obtain ⟨x, hx⟩ := hquiet
      obtain ⟨d', f, hf, hm, hsame, hsent, hless⟩ := hI.deliver_less hC ((hI x).running.mpr (.inr (hall x))) hx
      have hconf := (hI.mirror x).configured f (List.mem_of_getElem? hf)
      refine ⟨x, .deliver, d', _, .inr rfl, hm, hsent, hS.answers (hC.paired x) hconf, hI.toGo_less hsent ?_⟩
      rw [Side.toGo, Side.toGo, hsame]
      omega
    · refine .inl fun x => ⟨hall x, ?_⟩
      have hle := (hI x).got_le
      have hnot : ¬ (P x).got < (P x.other).sent.length := fun h => hquiet ⟨x, h⟩
      omega

/-- Where whole frames are handed over, the two can come to where nothing is left. -/
theorem Reachable.settles (hC : Compatible config) (hS : Small config) {P : Party → Side} (h : Reachable config c P)
    (hfit : ∀ x, ∀ f ∈ (P x).sent, f.payload.length ≤ kMaxPayloadSize) :
    ∃ P', Machine.Reach (step config c) Unprompted P P' ∧ Halves config c P' ∧
      (∀ x, ∀ f ∈ (P' x).sent, f.payload.length ≤ kMaxPayloadSize) ∧ Settled P' := by
  have hgo : ∃ P', Machine.Reach (step config c) Unprompted P P' ∧
      (Halves config c P' ∧ ∀ x, ∀ f ∈ (P' x).sent, f.payload.length ≤ kMaxPayloadSize) ∧ Settled P' := by
    refine Machine.Reach.variant
      (P := fun P' => Halves config c P' ∧ ∀ x, ∀ f ∈ (P' x).sent, f.payload.length ≤ kMaxPayloadSize) toGo ?_
      ⟨h.halves hC, hfit⟩
    rintro R ⟨hI, hfitR⟩
    rcases hI.goes_on hC hS with hdone | ⟨x, m, d', new, hm, hd, hsent, hnew, hless⟩
    · exact .inl hdone
    · have hstep : step config c R (x, m) = some (Function.update R x d') := by
        show ((R x).move (config x) (c x) (R x.other).sent m).map _ = _
        rw [hd]
        rfl
      refine .inr ⟨_, Machine.Reach.one (l := (x, m)) hm hstep,
        ⟨hI.step hC (Unprompted.calm hm) hstep, fun y f hf => ?_⟩, hless⟩
      by_cases hy : y = x
      · subst hy
        rw [Function.update_self, hsent] at hf
        exact (List.mem_append.mp hf).elim (hfitR y f) (hnew f)
      · rw [Function.update_of_ne hy] at hf
        exact hfitR y f hf
  obtain ⟨P', hr, ⟨hI, hfit'⟩, hdone⟩ := hgo
  exact ⟨P', hr, hI, hfit', hdone⟩

/-- Where nothing is left, each holds the other AUTHENTICATED. -/
theorem Halves.authenticated (hI : Halves config c P) (hdone : Settled P) (x : Party) :
    (P x).s.authenticated (c x) = true := by
  have hall : ∀ y, (P y.other).sent.take (P y).got = (P y.other).sent := fun y => by
    rw [(hdone y).2, List.take_length]
  have hone : count .HELLO (P x.other).sent = 1 := by rw [(hI.mirror x).hellos, if_pos (hdone x.other).1]
  rw [(hI x).authenticated, hall, grantType]
  split
  · rename_i hreq
    have hback := hall x.other
    rw [Party.other_other] at hback
    rw [(hI.mirror x).responses, hback, (hI x).requests, if_pos hreq, hall, hone]
    exact Nat.one_pos
  · rw [hone]
    exact Nat.one_pos

/-- So they can over their bytes. -/
theorem Linked.settles (hC : Compatible config) (hS : Small config) {Q : Party → End} (hL : Linked config c Q)
    (hfit : Fits Q) :
    ∃ Q', Machine.Reach (linkStep config c) (Only Unprompted) Q Q' ∧ Linked config c Q' ∧ Fits Q' ∧
      Settled (sides Q') := by
  obtain ⟨P', hr, -, hfit', hdone⟩ := hL.reached.settles hC hS hfit
  obtain ⟨Q', hr', hL', rfl⟩ := hL.follow hC (fun _ _ hl => hl.calm) hr hfit'
  exact ⟨Q', hr', hL', hfit', hdone⟩

/-- Where all that the other has written has been handed out, all of it that is audible was heard. -/
theorem Linked.heard_all (hC : Compatible config) {Q : Party → End} (hL : Linked config c Q) {x : Party}
    (hall : (Q x).side.got = (Q x.other).side.sent.length) :
    heard (Q x).side.log = audible (grantType (config x)) (Q x.other).side.sent := by
  have hheard := hL.reached.heard hC x
  have htake : (Q x.other).side.sent.take (Q x).side.got = (Q x.other).side.sent := by rw [hall, List.take_length]
  exact hheard.trans (congrArg _ htake)

/-- No run is stuck: from every state that the bytes have come to, the threads of the two can go on,
    without a user's call or a ping sweep, until all frames have been handed out. Each then holds the other
    AUTHENTICATED, and has heard all that the other wrote behind the frame that granted it. -/
theorem sessions_settle (hC : Compatible config) (hS : Small config) {Q : Party → End} (h : LinkReachable config c Q)
    (hfit : Fits Q) :
    ∃ Q', Machine.Reach (linkStep config c) (Only Unprompted) Q Q' ∧
      ∀ x, (Q' x).side.got = (Q' x.other).side.sent.length ∧ (Q' x).side.s.authenticated (c x) = true ∧
        heard (Q' x).side.log = audible (grantType (config x)) (Q' x.other).side.sent := by
  obtain ⟨Q', hr, hL, -, hdone⟩ := (h.linked hC hfit).settles hC hS hfit
  have hI := hL.reached.halves hC
  exact ⟨Q', hr, fun x => ⟨(hdone x).2, hI.authenticated hdone x, hL.heard_all hC (hdone x).2⟩⟩

end

theorem uneven_small : Small uneven where
  hello := fun x => by cases x <;> decide
  request := fun x => by cases x <;> decide
  response := fun x => by cases x <;> decide

theorem sessions_settle_twoSaid :
    ∃ Q', LinkReachable uneven named Q' ∧
      ∀ x, (Q' x).side.got = (Q' x.other).side.sent.length ∧ (Q' x).side.s.authenticated (named x) = true := by
  obtain ⟨Q, hQ, hfit, -⟩ := twoSaid_reached
  obtain ⟨Q', hr, hdone⟩ := sessions_settle uneven_compatible uneven_small hQ hfit
  exact ⟨Q', hQ.trans (hr.mono fun _ _ ha => ha.1), fun x => ⟨(hdone x).1, (hdone x).2.1⟩⟩

/-! ## What users say -/

/-- What the decoder makes of a message's JSON. -/
def read (json : Bytes) : List ChatMessage := (ChatMessage.fromJson json).toList

theorem said_chat (json : Bytes) : said [Frame.create .CHAT_MESSAGE json] = read json := by
  have hchat : (Frame.create .CHAT_MESSAGE json).header.type = .CHAT_MESSAGE := rfl
  rw [said_singleton, if_pos hchat]
  rfl

/-- More frames, none of them a chat message. -/
theorem audible_silent {t : MessageType} {fs gs : List Frame} (h : ∀ f ∈ gs, f.header.type ≠ .CHAT_MESSAGE) :
    audible t (fs ++ gs) = audible t fs := by
  have hsaid : ∀ fs : List Frame, fs ⊆ gs → said fs = [] := fun fs hfs =>
    List.flatMap_eq_nil_iff.mpr fun f hf => if_neg (h f (hfs hf))
  rw [audible_append, hsaid gs (List.Subset.refl _), audible, audible,
    hsaid _ (List.dropWhile_sublist _).subset, ite_self, List.append_nil]

theorem answers_silent (config : AppConfig) (f : Frame) : ∀ g ∈ answers config f, g.header.type ≠ .CHAT_MESSAGE := by
  intro g hg
  unfold answers at hg
  split at hg
  · split at hg
    · rw [List.mem_singleton.mp hg]
      exact nofun
    · cases hg
  all_goals first | (rw [List.mem_singleton.mp hg]; exact nofun) | cases hg

/-- A piece that no chat message comes from. -/
def Quiet : Act → Prop
  | .frame _ _ | .chat _ _ _ | .broadcast _ | .emit _ => False
  | _ => True

theorem exec_silent {config : AppConfig} {ids : Handle → ConnId} {net : Handle → Frame → Bool} {s : Session} {a : Act}
    (ha : Quiet a) : ∀ f ∈ reaching 0 (exec config ids net s a).out, f.header.type ≠ .CHAT_MESSAGE := by
  intro f hm
  obtain ⟨k, hk⟩ := reaching_mem hm
  have hs := mem_exec_out config ids net hk
  cases a with
  | sendHello h c => obtain ⟨h', ok, e⟩ := hs; cases e; exact nofun
  | sweep => obtain ⟨c, h, ok, e⟩ := hs; cases e; exact nofun
  | stopAll =>
    obtain ⟨c, h, e | ⟨ok, e⟩⟩ := hs
    · cases e
    · cases e; exact nofun
  | register h => cases hs
  | frame c f | chat c h json | broadcast json | emit o => exact ha.elim
  | _ => exact hs.elim

/-- The list of a map's one entry. -/
theorem toList_eq_singleton {α : Type} {m : ConnMap α} {e : ConnId × α} (he : m[e.1]? = some e.2)
    (hone : ∀ k v, m[k]? = some v → (k, v) = e) : m.toList = [e] := by
  have hnodup : m.toList.Nodup := Std.ExtTreeMap.distinct_keys_toList.imp fun {a b} hne heq => by
    rw [heq] at hne
    exact hne Std.ReflCmp.compare_self
  refine List.perm_singleton.mp ((List.perm_ext_iff_of_nodup hnodup (List.nodup_singleton e)).mpr fun x => ?_)
  rw [mem_toList, List.mem_singleton]
  exact ⟨hone _ _, fun hx => by rw [hx, he]⟩

/-- What a side writes when its user broadcasts: one frame, if it holds the other AUTHENTICATED. -/
theorem Half.broadcasts {config : AppConfig} {c : ConnId} {peerId : Bytes} {d : Side} {inbox : List Frame}
    (hI : Half config c peerId d inbox) (json : Bytes) :
    reaching 0 (broadcastOut (fun _ _ => true) d.s json) =
      if d.s.authenticated c = true then [Frame.create .CHAT_MESSAGE json] else [] := by
  by_cases ha : d.s.authenticated c = true
  · obtain ⟨hreg, hwrite⟩ := hI.up (hI.running_of_authenticated ha)
    have hlist : d.s.connections.toList = [(c, 0)] :=
      toList_eq_singleton hreg fun k h hk => by
        obtain ⟨rfl, rfl⟩ := hI.only k h hk
        rfl
    rw [if_pos ha, broadcastOut, hlist, List.flatMap_singleton, if_pos ha, Session.send, if_pos hwrite]
    exact reaching_sent c 0 [_]
  · have hnone : broadcastOut (fun _ _ => true) d.s json = [] := by
      refine List.flatMap_eq_nil_iff.mpr fun e he => if_neg ?_
      obtain ⟨hk, -⟩ := hI.only e.1 e.2 ((mem_toList _ _).mp he)
      rwa [hk]
    rw [if_neg ha, hnone]
    rfl

/-- What the other can hear of a user's move: a broadcast while the side holds the other
    AUTHENTICATED, or the rest of a `sendTo`, if the side has written the frame that grants it. -/
def Side.utters (config : AppConfig) (c : ConnId) (grant : MessageType) (d : Side) : Move → List ChatMessage
  | .broadcast msgId timestampUtc text =>
    if d.s.authenticated c = true ∧ 0 < count grant d.sent then
      read (newMessage config msgId timestampUtc text).toJson
    else []
  | .resume i =>
    match d.pending[i]? with
    | some (.chat _ _ json) => if 0 < count grant d.sent then read json else []
    | _ => []
  | _ => []

section
variable {config : Party → AppConfig} {c : Party → ConnId}

theorem Halves.move_audible {P : Party → Side} (hC : Compatible config) (hI : Halves config c P) {x : Party} {m : Move}
    {d' : Side} (h : (P x).move (config x) (c x) (P x.other).sent m = some d') {grant : MessageType}
    (hgrant : grant ≠ .CHAT_MESSAGE) :
    audible grant d'.sent = audible grant (P x).sent ++ (P x).utters (config x) (c x) grant m := by
  cases m with
  | add =>
    simp only [Side.move] at h
    split at h
    · cases h
    · rename_i a rest hd
      cases h
      have hquiet : Quiet a := by
        have hadd := (hI x).adding
        rw [hd] at hadd
        rcases hadd with e | e | e | e <;> cases e <;> trivial
      exact (audible_silent (exec_silent hquiet)).trans (List.append_nil _).symm
  | deliver =>
    obtain ⟨f, -, -, rfl⟩ := hI.delivered hC h
    exact (audible_silent (answers_silent _ _)).trans (List.append_nil _).symm
  | ping =>
    cases h
    exact (audible_silent (exec_silent (a := .sweep) trivial)).trans (List.append_nil _).symm
  | sendTo peerId msgId timestampUtc text =>
    cases h
    exact (audible_silent (exec_silent (a := .pick _ _) trivial)).trans (List.append_nil _).symm
  | broadcast msgId timestampUtc text =>
    cases h
    show audible grant ((P x).sent ++ reaching 0 (broadcastOut (fun _ _ => true) (P x).s _)) = _
    rw [(hI x).broadcasts, Side.utters]
    by_cases ha : (P x).s.authenticated (c x) = true
    · rw [if_pos ha, audible_concat hgrant, said_chat]
      simp only [ha, true_and]
    · rw [if_neg ha, if_neg fun hk => ha hk.1, List.append_nil, List.append_nil]
  | resume i =>
    simp only [Side.move] at h
    split at h <;> cases h
    rename_i a ha
    obtain ⟨msgId, timestampUtc, text, rfl⟩ := (hI x).pending a (List.mem_of_getElem? ha)
    simp only [Side.utters, ha]
    show audible grant ((P x).sent ++ reaching 0 ((P x).s.send _ _ 0 .CHAT_MESSAGE _).2) = _
    rw [Session.send]
    by_cases hr : ((P x).s.objs 0).running = true
    · rw [if_pos ((hI x).up hr).2]
      exact (congrArg _ (congrArg _ (reaching_sent (c x) 0 [_]))).trans (by rw [audible_concat hgrant, said_chat])
    · -- nothing has been written yet
      have hdown : ¬ ((P x).s.objs 0).writable = true := fun hw => hr ((Bool.and_eq_true _ _).mp hw).1
      rw [if_neg hdown, ((hI x).silent (by simpa using hr)).1]
      rfl

section
variable (config c)

/-- What the other side can hear of `x` in a step. -/
def utteredAt (x : Party) (Q : Party → End) : Party × LinkMove → List ChatMessage
  | (y, .own m) => if y = x then (Q x).side.utters (config x) (c x) (grantType (config x.other)) m else []
  | _ => []

/-- And in a run. -/
def uttered (x : Party) : (Party → End) → List (Party × LinkMove) → List ChatMessage
  | _, [] => []
  | Q, l :: ls =>
    utteredAt config c x Q l ++ match linkStep config c Q l with
      | some Q' => uttered x Q' ls
      | none => []

/-- An undisturbed run at the bytes. -/
def linkRun : (Party → End) → List (Party × LinkMove) → Option (Party → End) :=
  Machine.run (Machine.checked (linkStep config c) fun Q l => decide (Undisturbed Q l))

end

theorem Linked.step_audible (hC : Compatible config) {Q Q' : Party → End} (hL : Linked config c Q)
    {l : Party × LinkMove} (h : linkStep config c Q l = some Q') (x : Party) :
    audible (grantType (config x.other)) (Q' x).side.sent =
      audible (grantType (config x.other)) (Q x).side.sent ++ utteredAt config c x Q l := by
  have hI := hL.reached.halves hC
  obtain ⟨y, m⟩ := l
  obtain ⟨e, he, rfl⟩ := Option.map_eq_some_iff.mp h
  by_cases hy : y = x
  · subst hy
    rw [Function.update_self]
    cases m with
    | own m =>
      obtain ⟨d, hd, rfl⟩ := Option.map_eq_some_iff.mp he
      rw [utteredAt, if_pos rfl]
      exact hI.move_audible hC (own_move hd _).1 (grantType_ne_chat _)
    | recv n elapsed =>
      simp only [End.move] at he
      split at he <;> cases he
      exact (List.append_nil _).symm
    | next =>
      rcases (hL.next hC he).1 with hsame | hdelivered
      · rw [hsame]
        exact (List.append_nil _).symm
      · exact hI.move_audible hC hdelivered (grantType_ne_chat _)
  · have hnone : utteredAt config c x Q (y, m) = [] := by
      cases m with
      | own m => exact if_neg hy
      | _ => rfl
    rw [Function.update_of_ne (Ne.symm hy), hnone, List.append_nil]

theorem run_audible (hC : Compatible config) {ls : List (Party × LinkMove)} {Q Q' : Party → End}
    (hrun : linkRun config c Q ls = some Q') (hfit : Fits Q') (x : Party) :
    Fits Q ∧ (Linked config c Q → Linked config c Q' ∧ audible (grantType (config x.other)) (Q' x).side.sent =
      audible (grantType (config x.other)) (Q x).side.sent ++ uttered config c x Q ls) := by
  induction ls generalizing Q with
  | nil =>
    cases hrun
    exact ⟨hfit, fun hL => ⟨hL, (List.append_nil _).symm⟩⟩
  | cons l ls ih =>
    obtain ⟨Q₁, hchecked, hrest⟩ := Option.bind_eq_some_iff.mp hrun
    rw [Machine.checked] at hchecked
    split at hchecked
    · rename_i hcalm
      obtain ⟨hfit₁, hlinked⟩ := ih hrest
      have hfit₀ : Fits Q := fun y f hf => hfit₁ y f ((linkStep_sent hchecked y).subset hf)
      refine ⟨hfit₀, fun hL => ?_⟩
      obtain ⟨hL', haudible⟩ := hlinked (hL.step hC (hfit₀ _) (of_decide_eq_true hcalm) hchecked)
      refine ⟨hL', ?_⟩
      rw [haudible, hL.step_audible hC hchecked x, List.append_assoc, uttered, hchecked]
    · cases hchecked

/-- A conversation: in any run, what the users of one side say while it holds the other
    AUTHENTICATED and has written the frame that grants itself is what the other side hears, in
    that order and each once, as far as it has come, and all of it once it has handled all frames.
    What they say before that is lost. -/
theorem lines_heard (hC : Compatible config) (ls : List (Party × LinkMove)) (Q : Party → End)
    (hrun : linkRun config c (fun _ => {}) ls = some Q) (hfit : Fits Q) (x : Party) :
    heard (Q x.other).side.log <+: uttered config c x (fun _ => {}) ls ∧
      ((Q x.other).side.got = (Q x).side.sent.length →
        heard (Q x.other).side.log = uttered config c x (fun _ => {}) ls) := by
  obtain ⟨hL, haudible⟩ := (run_audible hC hrun hfit x).2 linked_init
  have haudible : audible (grantType (config x.other)) (Q x).side.sent = uttered config c x (fun _ => {}) ls := haudible
  have hheard : heard (Q x.other).side.log = audible _ ((Q x.other.other).side.sent.take (Q x.other).side.got) :=
    hL.reached.heard hC x.other
  rw [Party.other_other] at hheard
  rw [← haudible, hheard]
  refine ⟨audible_take _ _ _, fun hall => ?_⟩
  rw [hall, List.take_length]

end

theorem lines_heard_twoSaid :
    ∃ Q, linkRun uneven named (fun _ => {}) twoSaid = some Q ∧
      uttered uneven named .a (fun _ => {}) twoSaid = [newMessage (uneven .a) (str "2") 0 (str "late")] ∧
      heard (Q .b).side.log = uttered uneven named .a (fun _ => {}) twoSaid := by
  have hrun : ((linkRun uneven named (fun _ => {}) twoSaid).map fun Q =>
      fits Q && (Q .b).side.got == (Q .a).side.sent.length) = some true := by decide +kernel
  obtain ⟨Q, hQ, hp⟩ := Option.map_eq_some_iff.mp hrun
  simp only [Bool.and_eq_true, beq_iff_eq] at hp
  exact ⟨Q, hQ, by decide +kernel,
    (lines_heard uneven_compatible twoSaid Q hQ (fits_iff hp.1) .a).2 hp.2⟩

end LanTalk.Chat.Handshake
