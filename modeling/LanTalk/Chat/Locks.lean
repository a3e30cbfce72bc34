/-
  LanTalk.Chat.Locks — what holds in every state that threads reach by `Orderly` steps (see
  `LanTalk.Chat.Threads`): one case list of what a step can be, one of what may come in an
  instruction's place, and from the two the invariant `Inv`.
-/

import LanTalk.Chat.Threads

namespace LanTalk.Chat

open LanTalk.Lib LanTalk.Network LanTalk.Config

section
variable {config : AppConfig} {S S' : State} {t t' : Thread} {ch : Choice} {h : Handle} {i : Instr}
  {body rest : List Instr}

/-! ## Steps -/

theorem held_iff : S.held t = some body ↔ S.conn = some (t, body) := by
  unfold State.held
  cases hc : S.conn with
  | none => simp
  | some c =>
    obtain ⟨o, b⟩ := c
    by_cases ho : o = t <;> simp [ho]

theorem held_none_of_conn (hc : S.conn = none) (t : Thread) : S.held t = none := by
  simp [State.held, hc]

theorem held_none_of_ne {o : Thread} (hc : S.conn = some (o, body)) (hne : t ≠ o) : S.held t = none := by
  simp [State.held, hc, hne.symm]

theorem next_of_held (hh : S.held t = some body) : S.next t = body.head? := by
  simp [State.next, hh]

theorem next_of_todo (hh : S.held t = none) : S.next t = (S.todo t).head? := by
  simp [State.next, hh]

theorem next_congr (hh : S'.held t = S.held t) (ht : S'.todo t = S.todo t) : S'.next t = S.next t := by
  simp [State.next, hh, ht]

/-- What one step of a thread can be. -/
inductive Stepped (config : AppConfig) (S : State) (t : Thread) (ch : Choice) (S' : State) : Prop where
  | leave : S.conn = some (t, []) → S' = { S with conn := none } → Stepped config S t ch S'
  | inside (i : Instr) (body : List Instr) : S.conn = some (t, i :: body) → S.free i = true →
      S' = { (S.effect config t ch i).1 with conn := some (t, (S.effect config t ch i).2 ++ body) } →
      Stepped config S t ch S'
  | enter (i : Instr) (rest body : List Instr) : S.conn = none → S.todo t = i :: rest → i.section = some body →
      S' = { S with conn := some (t, body), todo := Function.update S.todo t rest } → Stepped config S t ch S'
  | outside (i : Instr) (rest : List Instr) : S.held t = none → S.todo t = i :: rest → i.section = none →
      S.free i = true →
      S' = { (S.effect config t ch i).1 with
        todo := Function.update (S.effect config t ch i).1.todo t ((S.effect config t ch i).2 ++ rest) } →
      Stepped config S t ch S'

theorem step_cases (hs : S.step config (t, ch) = some S') : Stepped config S t ch S' := by
  unfold State.step at hs
  dsimp only at hs
  split at hs
  · rename_i hh
    cases hs
    exact .leave (held_iff.mp hh) rfl
  · rename_i i body hh
    split at hs
    · rename_i hf
      cases hs
      exact .inside i body (held_iff.mp hh) hf rfl
    · cases hs
  · rename_i hh
    split at hs
    · cases hs
    · rename_i i rest ht
      split at hs
      · rename_i body hb
        split at hs
        · rename_i hc
          cases hs
          exact .enter i rest body (by simpa using hc) ht hb rfl
        · cases hs
      · rename_i hb
        split at hs
        · rename_i hf
          cases hs
          exact .outside i rest hh ht hb hf rfl
        · cases hs

theorem step_leave (config : AppConfig) (ch : Choice) (hc : S.conn = some (t, [])) :
    S.step config (t, ch) = some { S with conn := none } := by
  unfold State.step
  rw [held_iff.mpr hc]

theorem step_inside (config : AppConfig) (ch : Choice) (hc : S.conn = some (t, i :: body)) (hf : S.free i = true) :
    S.step config (t, ch) =
      some { (S.effect config t ch i).1 with conn := some (t, (S.effect config t ch i).2 ++ body) } := by
  unfold State.step
  rw [held_iff.mpr hc]
  simp only [hf, if_true]

theorem step_enter (config : AppConfig) (ch : Choice) (hc : S.conn = none) (ht : S.todo t = i :: rest)
    (hb : i.section = some body) :
    S.step config (t, ch) = some { S with conn := some (t, body), todo := Function.update S.todo t rest } := by
  unfold State.step
  rw [held_none_of_conn hc]
  simp only [ht, hb, hc, Option.isNone_none, if_true]

theorem step_outside (config : AppConfig) (ch : Choice) (hh : S.held t = none) (ht : S.todo t = i :: rest)
    (hb : i.section = none) (hf : S.free i = true) :
    S.step config (t, ch) = some { (S.effect config t ch i).1 with
      todo := Function.update (S.effect config t ch i).1.todo t ((S.effect config t ch i).2 ++ rest) } := by
  unfold State.step
  rw [hh]
  simp only [ht, hb, hf, if_true]

/-! ## Effects -/

theorem unsent_eq (S : State) (h : Handle) (checked : Bool) :
    S.unsent h checked = { S with dead := (S.unsent h checked).dead } := by
  unfold State.unsent
  split <;> rfl

/-- What no instruction touches, or only in one direction. -/
structure Kept (S S' : State) : Prop where
  todo : S'.todo = S.todo
  conn : S'.conn = S.conn
  connections : S'.connections ⊆ S.connections
  length : S'.connections.length ≤ S.connections.length
  running : S.running = false → S'.running = false
  halted : ∀ h, (S.objs h).running = false → (S'.objs h).running = false

theorem Kept.same (ht : S'.todo = S.todo) (hc : S'.conn = S.conn) (hcs : S'.connections = S.connections)
    (hr : S'.running = S.running) (ho : S'.objs = S.objs) : Kept S S' where
  todo := ht
  conn := hc
  connections := by rw [hcs]; exact fun _ => id
  length := by rw [hcs]
  running := by rw [hr]; exact id
  halted := by rw [ho]; exact fun _ => id

theorem Kept.refl (S : State) : Kept S S := .same rfl rfl rfl rfl rfl

theorem Kept.setObj {c : Connection} (hc : (S.objs h).running = false → c.running = false) :
    Kept S (S.setObj h c) := by
  refine ⟨rfl, rfl, fun _ => id, Nat.le_refl _, id, ?_⟩
  intro k hk
  by_cases he : k = h
  · subst he
    simpa [State.setObj] using hc hk
  · simpa [State.setObj, he] using hk

theorem Kept.unsent (S : State) (h : Handle) (checked : Bool) : Kept S (S.unsent h checked) := by
  rw [unsent_eq]
  exact .same rfl rfl rfl rfl rfl

theorem decode_running (conn : Connection) (data : Bytes) : (conn.decode data).2.running = conn.running := by
  unfold Connection.decode
  split <;> rfl

theorem effect_kept (config : AppConfig) (S : State) (t : Thread) (ch : Choice) (i : Instr) :
    Kept S (S.effect config t ch i).1 := by
  cases i with
  | send h type payload checked =>
    simp only [State.effect]
    split
    · exact .refl S
    · exact .unsent S h checked
  | sendAll h f checked =>
    simp only [State.effect]
    split
    · exact .same rfl rfl rfl rfl rfl
    · rw [unsent_eq]
      exact .same rfl rfl rfl rfl rfl
  | disconnect h reason =>
    simp only [State.effect]
    split <;> exact .refl S
  | setState h state => exact .setObj id
  | halt h => exact .setObj fun _ => rfl
  | close h => exact .setObj id
  | recv h =>
    simp only [State.effect]
    split
    · exact .refl S
    · rename_i data _
      have hd := decode_running (S.objs h) data
      split <;> (rename_i he; rw [he] at hd; exact .setObj fun hr => hd.trans hr)
  | check h elapsed =>
    simp only [State.effect]
    split
    · split
      · exact .refl S
      · exact .setObj id
    · exact .refl S
  | erase h =>
    simp only [State.effect]
    split
    · exact ⟨rfl, rfl, List.erase_subset, List.length_erase_le, id, fun _ => id⟩
    · exact .refl S
  | stop =>
    simp only [State.effect]
    split
    · exact ⟨rfl, rfl, fun _ => id, Nat.le_refl _, fun _ => rfl, fun _ => id⟩
    · exact .refl S
  | clear => exact ⟨rfl, rfl, List.nil_subset _, Nat.zero_le _, id, fun _ => id⟩
  | _ => exact .same rfl rfl rfl rfl rfl

end

/-! ## What the threads have to do -/

/-- The instructions of a connection's own functions. -/
def Instr.onConn : Instr → Option Handle
  | .send h _ _ _ | .lockSend h _ _ | .sendAll h _ _ | .disconnect h _ | .setState h _ | .halt h | .close h => some h
  | _ => none

/-- Those that `recvLoop` comes to beside the frames it hands out. -/
def Instr.inLoop : Instr → Option Handle
  | .loop h | .recv h | .lost h | .check h _ => some h
  | i => i.onConn

/-- Those of the sections of `stop` and of the ping thread. -/
def Instr.inSweep : Instr → Bool
  | .erase _ | .join _ | .clear | .disconnectAll | .pingAll => true
  | i => i.onConn.isSome

def InSection : Thread → Instr → Prop
  | .recv h, i => i.onConn = some h ∨ ∃ f, i = .handle h f
  | _, i => i.inSweep = true

def StopShape (l : List Instr) : Prop := l = [.stop] ∨ l = [.joinPing, .closeAll] ∨ l = [.closeAll] ∨ l = []

def PingShape (l : List Instr) : Prop :=
  (∃ hs : List Handle, l = hs.map .onDisconnect ++ [.pingLoop]) ∨ l = [.wake] ∨ l = [.sweep, .reap] ∨ l = [.reap] ∨
    l = []

def RecvShape (h : Handle) (l : List Instr) : Prop :=
  ∃ (fs : List Frame) (tail : List Instr), l = fs.map (fun f => .onFrame h f) ++ tail ∧ ∀ i ∈ tail, i.inLoop = some h

/-- Each join comes after the connection was closed: it is one of `off`, or this is still
    to do before. -/
def Readied (off : Handle → Prop) : List Instr → Prop
  | [] => True
  | i :: l => (∀ h, i = .join h → off h) ∧ Readied (fun h => off h ∨ i = .halt h) l

theorem Readied.mono {off off' : Handle → Prop} (hm : ∀ h, off h → off' h) {l : List Instr} (hl : Readied off l) :
    Readied off' l := by
  induction l generalizing off off' with
  | nil => trivial
  | cons i l ih =>
    refine ⟨fun h hi => hm h (hl.1 h hi), ih ?_ hl.2⟩
    intro h ho
    rcases ho with ho | ho
    · exact .inl (hm h ho)
    · exact .inr ho

theorem Readied.append {off : Handle → Prop} {l l' : List Instr} (hl : Readied off l) (hl' : Readied off l') :
    Readied off (l ++ l') := by
  induction l generalizing off with
  | nil => exact hl'
  | cons i l ih => exact ⟨hl.1, ih hl.2 (hl'.mono fun h ho => .inl ho)⟩

theorem readied_of_no_join {off : Handle → Prop} {l : List Instr} (hl : ∀ h, Instr.join h ∉ l) : Readied off l := by
  induction l generalizing off with
  | nil => trivial
  | cons i l ih =>
    refine ⟨?_, ih fun h hm => hl h (List.mem_cons_of_mem _ hm)⟩
    intro h hi
    exact absurd (hi ▸ List.mem_cons_self) (hl h)

theorem readied_destroy (off : Handle → Prop) (h : Handle) : Readied off (destroy h) := by
  refine ⟨?_, ?_, ?_, trivial⟩
  · intro k hk; cases hk
  · intro k hk; cases hk
  · intro k hk
    cases hk
    exact .inl (.inr rfl)

theorem readied_destroyAll (off : Handle → Prop) (hs : List Handle) : Readied off (hs.flatMap destroy) := by
  induction hs with
  | nil => trivial
  | cons h hs ih =>
    rw [List.flatMap_cons]
    exact (readied_destroy off h).append ih

section
variable {config : AppConfig} {S S' : State} {t t' : Thread} {ch : Choice} {h : Handle} {i : Instr}
  {body rest : List Instr}

theorem section_of_inLoop (hi : i.inLoop = some h) : i.section = none := by
  cases i <;> first | rfl | cases hi

theorem inLoop_of_onConn (hi : i.onConn = some h) : i.inLoop = some h := by
  cases i <;> first | exact hi | cases hi

theorem inSweep_of_onConn (hi : i.onConn = some h) : i.inSweep = true := by
  cases i <;> first | rfl | cases hi

theorem InSection.noSection (hi : InSection t i) : i.section = none := by
  cases t with
  | recv h =>
    rcases hi with hi | ⟨f, rfl⟩
    · exact section_of_inLoop (inLoop_of_onConn hi)
    · rfl
  | stop => cases i <;> first | rfl | cases hi
  | ping => cases i <;> first | rfl | cases hi

theorem section_no_join {j : Instr} (hb : i.section = some body) (hj : j ∈ body) : j ≠ .join h := by
  intro he
  subst he
  cases i <;> simp only [Instr.section] at hb
  case onFrame k f =>
    split at hb
    · cases hb; cases List.mem_singleton.mp hj
    · cases hb
  all_goals cases hb
  all_goals simp at hj

theorem onConn_instr (h : Handle) (c : Call) : (c.instr h).onConn = some h := by
  cases c <;> rfl

theorem mem_destroy {j : Instr} : j ∈ destroy h ↔ j.onConn = some h ∧ (j = .halt h ∨ j = .close h) ∨ j = .join h := by
  simp only [destroy, List.mem_cons, List.not_mem_nil, or_false]
  constructor
  · intro h
    rcases h with rfl | rfl | rfl
    · exact .inl ⟨rfl, .inl rfl⟩
    · exact .inl ⟨rfl, .inr rfl⟩
    · exact .inr rfl
  · rintro (⟨-, rfl | rfl⟩ | rfl) <;> simp

/-- What may come in an instruction's place. -/
def Comes (S : State) (ch : Choice) (j : Instr) : Instr → Prop
  | .send h _ _ _ | .lockSend h _ _ | .disconnect h _ | .handle h _ => j.onConn = some h
  | .loop h => j = .recv h
  | .recv h => ch.data = none ∧ j = .lost h ∨ (∃ f, j = .onFrame h f) ∨ j = .check h ch.elapsed ∨
    ∃ reason, j = .disconnect h reason
  | .lost h => (S.objs h).running = true ∧ (j.onConn = some h ∨ j = .onDisconnect h)
  | .check h _ => j = .loop h ∨ ∃ reason, j = .disconnect h reason
  | .erase h => h ∈ S.connections ∧ j ∈ destroy h
  | .stop => j = .joinPing ∨ j = .closeAll
  | .disconnectAll | .pingAll => ∃ h, j.onConn = some h
  | .clear => ∃ h ∈ S.connections, j ∈ destroy h
  | .pingLoop => j = .wake
  | .wake => j = .sweep ∨ j = .reap
  | .reap => (∃ h, j = .onDisconnect h) ∨ j = .pingLoop
  | _ => False

theorem mem_effect {j : Instr} (hj : j ∈ (S.effect config t ch i).2) : Comes S ch j i := by
  cases i with
  | send h type payload checked =>
    simp only [State.effect] at hj
    split at hj
    · cases List.mem_singleton.mp hj; rfl
    · cases hj
  | lockSend h f checked => cases List.mem_singleton.mp hj; rfl
  | disconnect h reason =>
    simp only [State.effect] at hj
    split at hj
    · cases hj
    · simp only [List.mem_cons, List.not_mem_nil, or_false] at hj
      rcases hj with rfl | rfl | rfl | rfl | rfl <;> rfl
  | loop h =>
    simp only [State.effect] at hj
    split at hj
    · exact List.mem_singleton.mp hj
    · cases hj
  | recv h =>
    simp only [State.effect] at hj
    split at hj
    · rename_i hd
      exact .inl ⟨hd, List.mem_singleton.mp hj⟩
    · split at hj
      · rcases List.mem_append.mp hj with hj | hj
        · obtain ⟨f, -, rfl⟩ := List.mem_map.mp hj
          exact .inr (.inl ⟨f, rfl⟩)
        · exact .inr (.inr (.inl (List.mem_singleton.mp hj)))
      · exact .inr (.inr (.inr ⟨_, List.mem_singleton.mp hj⟩))
  | lost h =>
    simp only [State.effect] at hj
    split at hj
    · rename_i hr
      simp only [List.mem_cons, List.not_mem_nil, or_false] at hj
      rcases hj with rfl | rfl | rfl
      · exact ⟨hr, .inl rfl⟩
      · exact ⟨hr, .inl rfl⟩
      · exact ⟨hr, .inr rfl⟩
    · cases hj
  | check h elapsed =>
    simp only [State.effect] at hj
    split at hj
    · split at hj
      · exact .inr ⟨_, List.mem_singleton.mp hj⟩
      · exact .inl (List.mem_singleton.mp hj)
    · exact .inl (List.mem_singleton.mp hj)
  | handle h f =>
    simp only [State.effect] at hj
    split at hj
    · obtain ⟨c, -, rfl⟩ := List.mem_map.mp hj
      exact onConn_instr h c
    · cases hj
  | erase h =>
    simp only [State.effect] at hj
    split at hj
    · rename_i hm
      exact ⟨hm, hj⟩
    · cases hj
  | stop =>
    simp only [State.effect] at hj
    split at hj
    · simpa only [Comes, List.mem_cons, List.not_mem_nil, or_false] using hj
    · cases hj
  | disconnectAll =>
    obtain ⟨h, -, rfl⟩ := List.mem_map.mp hj
    exact ⟨h, rfl⟩
  | pingAll =>
    obtain ⟨h, -, rfl⟩ := List.mem_map.mp hj
    exact ⟨h, rfl⟩
  | clear => exact List.mem_flatMap.mp hj
  | pingLoop =>
    simp only [State.effect] at hj
    split at hj
    · exact List.mem_singleton.mp hj
    · cases hj
  | wake =>
    simp only [State.effect] at hj
    split at hj
    · simpa only [Comes, List.mem_cons, List.not_mem_nil, or_false] using hj
    · cases hj
  | reap =>
    rcases List.mem_append.mp hj with hj | hj
    · obtain ⟨h, -, rfl⟩ := List.mem_map.mp hj
      exact .inl ⟨h, rfl⟩
    · exact .inr (List.mem_singleton.mp hj)
  | _ => cases hj

/-- A connection's own functions stay with the connection. -/
theorem effect_onConn (hi : i.onConn = some h) : ∀ j ∈ (S.effect config t ch i).2, j.onConn = some h := by
  intro j hj
  have hc := mem_effect hj
  cases i <;> first | (cases hi; exact hc) | (cases hi; exact hc.elim) | cases hi

theorem effect_inSweep (hi : i.inSweep = true) : ∀ j ∈ (S.effect config t ch i).2, j.inSweep = true := by
  intro j hj
  have hdestroy : ∀ k, j ∈ destroy k → j.inSweep = true := by
    intro k hk
    rcases mem_destroy.mp hk with ⟨hk, -⟩ | rfl
    · exact inSweep_of_onConn hk
    · rfl
  have hc := mem_effect hj
  cases i with
  | erase k => exact hdestroy k hc.2
  | clear =>
    obtain ⟨k, -, hk⟩ := hc
    exact hdestroy k hk
  | disconnectAll =>
    obtain ⟨k, hk⟩ := hc
    exact inSweep_of_onConn hk
  | pingAll =>
    obtain ⟨k, hk⟩ := hc
    exact inSweep_of_onConn hk
  | send k type payload checked => exact inSweep_of_onConn hc
  | lockSend k f checked => exact inSweep_of_onConn hc
  | disconnect k reason => exact inSweep_of_onConn hc
  | _ => first | exact hc.elim | cases hi

/-- A section goes on with instructions of its own kind. -/
theorem effect_inSection (hi : InSection t i) : ∀ j ∈ (S.effect config t ch i).2, InSection t j := by
  intro j hj
  cases t with
  | recv h =>
    rcases hi with hi | ⟨f, rfl⟩
    · exact .inl (effect_onConn hi j hj)
    · exact .inl (mem_effect hj)
  | stop => exact effect_inSweep hi j hj
  | ping => exact effect_inSweep hi j hj

theorem section_inSection {i : Instr} (hs : StopShape (S.todo .stop)) (hp : PingShape (S.todo .ping))
    (hr : ∀ h, RecvShape h (S.todo (.recv h))) (ht : S.todo t = i :: rest) (hb : i.section = some body) :
    ∀ j ∈ body, InSection t j := by
  intro j hj
  cases t with
  | stop =>
    rw [ht] at hs
    rcases hs with hs | hs | hs | hs <;> cases hs
    · cases hb
    · cases hb
    · cases hb
      rcases List.mem_cons.mp hj with rfl | hj
      · rfl
      · cases List.mem_singleton.mp hj; rfl
  | ping =>
    rw [ht] at hp
    rcases hp with ⟨hs, hp⟩ | hp | hp | hp | hp
    · cases hs with
      | nil => cases hp; cases hb
      | cons k hs =>
        cases hp; cases hb
        cases List.mem_singleton.mp hj; rfl
    · cases hp; cases hb
    · cases hp; cases hb
      cases List.mem_singleton.mp hj; rfl
    · cases hp; cases hb
    · cases hp
  | recv h =>
    obtain ⟨fs, tail, hl, htail⟩ := hr h
    rw [ht] at hl
    cases fs with
    | nil =>
      have hm : i ∈ tail := by
        rw [show tail = i :: rest from hl.symm]
        exact List.mem_cons_self
      rw [section_of_inLoop (htail i hm)] at hb
      cases hb
    | cons f fs =>
      cases hl
      simp only [Instr.section] at hb
      split at hb
      · cases hb
        cases List.mem_singleton.mp hj
        exact .inr ⟨f, rfl⟩
      · cases hb

/-- What a receive thread does in its loop: unless it reads, or finds that the connection is
    lost and nobody has closed it, it has no frames to hand out, and stays in the loop. -/
theorem effect_inLoop (config : AppConfig) (t : Thread) (ch : Choice) (hi : i.inLoop = some h)
    (hl : i = .lost h → (S.objs h).running = false) :
    ∃ (fs : List Frame) (tail : List Instr), (S.effect config t ch i).2 = fs.map (fun f => .onFrame h f) ++ tail ∧
      (∀ j ∈ tail, j.inLoop = some h) ∧
      (fs = [] ∨ i = .recv h ∧ ∃ data conn, ch.data = some data ∧ (S.objs h).decode data = (.ok fs, conn)) := by
  by_cases hr : ∃ data frames conn, i = .recv h ∧ ch.data = some data ∧ (S.objs h).decode data = (.ok frames, conn)
  · obtain ⟨data, frames, conn, rfl, hd, he⟩ := hr
    refine ⟨frames, [.check h ch.elapsed], ?_, ?_, .inr ⟨rfl, data, conn, hd, he⟩⟩
    · simp only [State.effect, hd, he]
    · intro j hj
      cases List.mem_singleton.mp hj; rfl
  · refine ⟨[], _, rfl, ?_, .inl rfl⟩
    intro j hj
    have hc := mem_effect hj
    cases i with
    | loop k => cases (show j = .recv k from hc); exact hi
    | recv k =>
      cases hi
      rcases hc with ⟨-, rfl⟩ | ⟨f, rfl⟩ | rfl | ⟨reason, rfl⟩
      · rfl
      · simp only [State.effect] at hj
        split at hj
        · cases List.mem_singleton.mp hj
        · rename_i data hd
          split at hj
          · rename_i frames conn he
            exact absurd ⟨data, frames, conn, rfl, hd, he⟩ hr
          · cases List.mem_singleton.mp hj
      · rfl
      · rfl
    | lost k =>
      cases hi
      have := hc.1
      rw [hl rfl] at this
      cases this
    | check k elapsed =>
      cases hi
      rcases hc with rfl | ⟨reason, rfl⟩ <;> rfl
    | send k type payload checked => cases hi; exact inLoop_of_onConn hc
    | lockSend k f checked => cases hi; exact inLoop_of_onConn hc
    | disconnect k reason => cases hi; exact inLoop_of_onConn hc
    | _ => first | exact hc.elim | cases hi

theorem destroys_mono (hm : S'.connections ⊆ S.connections) (hd : i.destroys S' h) : i.destroys S h := by
  cases i with
  | erase k => exact ⟨hd.1, hm hd.2⟩
  | clear => exact hm hd
  | join k => exact hd
  | _ => exact hd.elim

theorem onConn_destroys {k : Handle} (hi : i.onConn = some k) : ¬ i.destroys S h := by
  cases i <;> first | exact id | cases hi

/-- What comes in an instruction's place destroys no connection that it did not. -/
theorem effect_destroys {j : Instr} (hj : j ∈ (S.effect config t ch i).2) (hd : j.destroys S' h) :
    i.destroys S h := by
  have hdestroy : ∀ k, j ∈ destroy k → k = h := by
    intro k hk
    rcases mem_destroy.mp hk with ⟨hk, -⟩ | rfl
    · exact absurd hd (onConn_destroys hk)
    · exact hd
  have hc := mem_effect hj
  cases i with
  | erase k =>
    have hk := hdestroy k hc.2
    exact ⟨hk, hk ▸ hc.1⟩
  | clear =>
    obtain ⟨k, hk, hm⟩ := hc
    exact hdestroy k hm ▸ hk
  | recv m => rcases hc with ⟨-, rfl⟩ | ⟨f, rfl⟩ | rfl | ⟨reason, rfl⟩ <;> exact hd.elim
  | lost m =>
    rcases hc with ⟨-, he | rfl⟩
    · exact absurd hd (onConn_destroys he)
    · exact hd.elim
  | check m elapsed => rcases hc with rfl | ⟨reason, rfl⟩ <;> exact hd.elim
  | stop => rcases hc with rfl | rfl <;> exact hd.elim
  | wake => rcases hc with rfl | rfl <;> exact hd.elim
  | reap => rcases hc with ⟨m, rfl⟩ | rfl <;> exact hd.elim
  | loop m => cases (show j = .recv m from hc); exact hd.elim
  | pingLoop => cases (show j = .wake from hc); exact hd.elim
  | disconnectAll => obtain ⟨m, he⟩ := hc; exact absurd hd (onConn_destroys he)
  | pingAll => obtain ⟨m, he⟩ := hc; exact absurd hd (onConn_destroys he)
  | _ => first | exact hc.elim | exact absurd hd (onConn_destroys hc)

theorem effect_readied (off : Handle → Prop) : Readied off (S.effect config t ch i).2 := by
  by_cases hj : ∃ k, Instr.join k ∈ (S.effect config t ch i).2
  · obtain ⟨k, hk⟩ := hj
    have hc := mem_effect hk
    cases i with
    | erase m =>
      simp only [State.effect]
      split
      · exact readied_destroy off m
      · trivial
    | clear => exact readied_destroyAll off S.connections
    | recv m => rcases hc with ⟨-, he⟩ | ⟨f, he⟩ | he | ⟨reason, he⟩ <;> cases he
    | lost m => rcases hc with ⟨-, he | he⟩ <;> cases he
    | check m elapsed => rcases hc with he | ⟨reason, he⟩ <;> cases he
    | stop => rcases hc with he | he <;> cases he
    | wake => rcases hc with he | he <;> cases he
    | reap => rcases hc with ⟨m, he⟩ | he <;> cases he
    | disconnectAll => obtain ⟨m, he⟩ := hc; cases he
    | pingAll => obtain ⟨m, he⟩ := hc; cases he
    | _ => first | exact hc.elim | cases hc
  · exact readied_of_no_join fun k hk => hj ⟨k, hk⟩

/-- Who holds a connection's `sendMutex_` after an instruction. -/
theorem effect_send {k : Handle} {u : Thread} (hk : (S.effect config t ch i).1.send k = some u) :
    S.send k = some u ∧ (∀ f checked, i ≠ .sendAll k f checked) ∨ u = t ∧ ∃ f checked, i = .lockSend k f checked := by
  have hunsent : ∀ (S : State) (m : Handle) (checked : Bool), (S.unsent m checked).send = S.send := by
    intro S m checked
    rw [unsent_eq]
  cases i with
  | send m type payload checked =>
    simp only [State.effect] at hk
    split at hk
    · exact .inl ⟨hk, by simp⟩
    · rw [hunsent] at hk
      exact .inl ⟨hk, by simp⟩
  | lockSend m f checked =>
    by_cases he : k = m
    · subst he
      simp only [State.effect, Function.update_self, Option.some.injEq] at hk
      exact .inr ⟨hk.symm, f, checked, rfl⟩
    · simp only [State.effect, Function.update_of_ne he] at hk
      exact .inl ⟨hk, by simp⟩
  | sendAll m f checked =>
    have hk : Function.update S.send m none k = some u := by
      simp only [State.effect] at hk
      split at hk
      · exact hk
      · rw [hunsent] at hk
        exact hk
    by_cases he : k = m
    · subst he
      rw [Function.update_self] at hk
      cases hk
    · rw [Function.update_of_ne he] at hk
      refine .inl ⟨hk, ?_⟩
      intro f' checked' hi
      cases hi
      exact he rfl
  | disconnect m reason =>
    simp only [State.effect] at hk
    split at hk <;> exact .inl ⟨hk, by simp⟩
  | recv m =>
    simp only [State.effect] at hk
    split at hk
    · exact .inl ⟨hk, by simp⟩
    · split at hk <;> exact .inl ⟨hk, by simp⟩
  | check m elapsed =>
    simp only [State.effect] at hk
    split at hk
    · split at hk <;> exact .inl ⟨hk, by simp⟩
    · exact .inl ⟨hk, by simp⟩
  | erase m =>
    simp only [State.effect] at hk
    split at hk <;> exact .inl ⟨hk, by simp⟩
  | stop =>
    simp only [State.effect] at hk
    split at hk <;> exact .inl ⟨hk, by simp⟩
  | _ => exact .inl ⟨hk, by simp⟩

/-! ## The invariant -/

/-- What holds in every state of an orderly run: what each thread can have to do, with and
    without `connMutex_`; that who holds a `sendMutex_` is about to let go of it; and that a
    connection under destruction has a receive thread that can end by itself. -/
structure Inv (S : State) : Prop where
  stop : StopShape (S.todo .stop)
  ping : PingShape (S.todo .ping)
  recv : ∀ h, RecvShape h (S.todo (.recv h))
  body : ∀ t body, S.conn = some (t, body) → ∀ i ∈ body, InSection t i
  readied : ∀ t body, S.conn = some (t, body) → Readied (fun h => (S.objs h).running = false) body
  send : ∀ h t, S.send h = some t → ∃ f checked, S.next t = some (.sendAll h f checked)
  doomed : ∀ h, S.Doomed h → S.Settled h
  stopping : .joinPing ∈ S.todo .stop → S.running = false

theorem recvShape_nil (h : Handle) : RecvShape h [] := ⟨[], [], rfl, fun j hj => by cases hj⟩

theorem inv_initial (hs : List Handle) (objs : Handle → Connection) : Inv (State.initial hs objs) where
  stop := .inl rfl
  ping := .inl ⟨[], rfl⟩
  recv := by
    intro h
    simp only [State.initial]
    split
    · refine ⟨[], [.loop h], rfl, ?_⟩
      intro j hj
      cases List.mem_singleton.mp hj; rfl
    · exact recvShape_nil h
  body := fun t body hc => by cases hc
  readied := fun t body hc => by cases hc
  send := fun h t hs => by cases hs
  doomed := by
    intro h hd
    obtain ⟨t, body, hc, -⟩ := hd
    cases hc
  stopping := fun hm => by cases List.mem_singleton.mp hm

theorem next_inside (config : AppConfig) (S : State) (t : Thread) (ch : Choice) (i : Instr) (body : List Instr) :
    State.next { (S.effect config t ch i).1 with conn := some (t, (S.effect config t ch i).2 ++ body) } t =
      ((S.effect config t ch i).2 ++ body).head? :=
  next_of_held (held_iff.mpr rfl)

theorem held_effect (config : AppConfig) (S : State) (u t : Thread) (ch : Choice) (i : Instr)
    (todo : Thread → List Instr) : State.held { (S.effect config u ch i).1 with todo := todo } t = S.held t := by
  simp only [State.held, (effect_kept config S u ch i).conn]

theorem next_outside (config : AppConfig) (ch : Choice) (i : Instr) (rest : List Instr) (hh : S.held t = none) :
    State.next { (S.effect config t ch i).1 with
        todo := Function.update (S.effect config t ch i).1.todo t ((S.effect config t ch i).2 ++ rest) } t =
      ((S.effect config t ch i).2 ++ rest).head? := by
  rw [next_of_todo (by rw [held_effect, hh])]
  simp only [Function.update_self]

/-- The other threads have what they had. -/
theorem next_other (hs : Stepped config S t ch S') (hne : t' ≠ t) : S'.next t' = S.next t' := by
  cases hs with
  | leave hc he =>
    subst he
    exact next_congr ((held_none_of_conn rfl t').trans (held_none_of_ne hc hne).symm) rfl
  | inside i body hc hf he =>
    subst he
    refine next_congr ((held_none_of_ne rfl hne).trans (held_none_of_ne hc hne).symm) ?_
    show (S.effect config t ch i).1.todo t' = S.todo t'
    rw [(effect_kept config S t ch i).todo]
  | enter i rest body hc ht hb he =>
    subst he
    exact next_congr ((held_none_of_ne rfl hne).trans (held_none_of_conn hc t').symm) (Function.update_of_ne hne _ _)
  | outside i rest hh ht hb hf he =>
    subst he
    have hk := effect_kept config S t ch i
    refine next_congr (held_effect config S t t' ch i _) ?_
    show Function.update (S.effect config t ch i).1.todo t _ t' = S.todo t'
    rw [Function.update_of_ne hne, hk.todo]

theorem Inv.send_step (hI : Inv S) (hs : Stepped config S t ch S') {k : Handle} {u : Thread}
    (hk : S'.send k = some u) : ∃ f checked, S'.next u = some (.sendAll k f checked) := by
  have hstill : S.send k = some u → (∀ f checked, S.next t ≠ some (.sendAll k f checked)) →
      ∃ f checked, S'.next u = some (.sendAll k f checked) := by
    intro hold hno
    obtain ⟨f, checked, hn⟩ := hI.send k u hold
    by_cases hu : u = t
    · subst hu
      exact absurd hn (hno f checked)
    · exact ⟨f, checked, by rw [next_other hs hu, hn]⟩
  cases hs with
  | leave hc he =>
    subst he
    refine hstill hk ?_
    intro f checked hn
    rw [next_of_held (held_iff.mpr hc)] at hn
    cases hn
  | enter i rest body hc ht hb he =>
    subst he
    refine hstill hk ?_
    intro f checked hn
    rw [next_of_todo (held_none_of_conn hc t), ht] at hn
    cases hn
    cases hb
  | inside i body hc hf he =>
    have hn : S.next t = some i := next_of_held (held_iff.mpr hc)
    subst he
    rcases effect_send hk with ⟨hold, hno⟩ | ⟨rfl, f, checked, rfl⟩
    · refine hstill hold ?_
      intro f checked he
      rw [hn] at he
      exact hno f checked (Option.some.inj he)
    · exact ⟨f, checked, next_inside config S u ch _ body⟩
  | outside i rest hh ht hb hf he =>
    have hn : S.next t = some i := by rw [next_of_todo hh, ht]; rfl
    subst he
    rcases effect_send hk with ⟨hold, hno⟩ | ⟨rfl, f, checked, rfl⟩
    · refine hstill hold ?_
      intro f checked he
      rw [hn] at he
      exact hno f checked (Option.some.inj he)
    · exact ⟨f, checked, next_outside config ch _ rest hh⟩

theorem Inv.leave (hI : Inv S)
    (hsend : ∀ k u, S.send k = some u →
      ∃ f checked, State.next { S with conn := none } u = some (.sendAll k f checked)) :
    Inv { S with conn := none } where
  stop := hI.stop
  ping := hI.ping
  recv := hI.recv
  body := fun _ _ hc => by cases hc
  readied := fun _ _ hc => by cases hc
  send := hsend
  doomed := by
    intro h hd
    obtain ⟨u, body, hc, -⟩ := hd
    cases hc
  stopping := hI.stopping

theorem Inv.inside (hI : Inv S) (hc : S.conn = some (t, i :: body))
    (hS : S' = { (S.effect config t ch i).1 with conn := some (t, (S.effect config t ch i).2 ++ body) })
    (hsend : ∀ k u, S'.send k = some u → ∃ f checked, S'.next u = some (.sendAll k f checked)) : Inv S' := by
  have hk := effect_kept config S t ch i
  have htodo : S'.todo = S.todo := by rw [hS]; exact hk.todo
  have hconns : S'.connections ⊆ S.connections := by rw [hS]; exact hk.connections
  have hobjs : ∀ h, (S.objs h).running = false → (S'.objs h).running = false := by rw [hS]; exact hk.halted
  have hi : InSection t i := hI.body t _ hc i List.mem_cons_self
  refine ⟨?_, ?_, ?_, ?_, ?_, hsend, ?_, ?_⟩
  · rw [htodo]; exact hI.stop
  · rw [htodo]; exact hI.ping
  · rw [htodo]; exact hI.recv
  · intro u b hb j hj
    rw [hS] at hb
    cases hb
    rcases List.mem_append.mp hj with hj | hj
    · exact effect_inSection hi j hj
    · exact hI.body t _ hc j (List.mem_cons_of_mem _ hj)
  · intro u b hb
    rw [hS] at hb
    cases hb
    refine (effect_readied _).append ((hI.readied t _ hc).2.mono ?_)
    intro h ho
    rcases ho with ho | rfl
    · exact hobjs h ho
    · rw [hS]
      show ((S.setObj h { S.objs h with running := false }).objs h).running = false
      simp [State.setObj]
  · intro h hd
    have hold : S.Doomed h := by
      obtain ⟨u, b, hb, j, hj, hdj⟩ := hd
      rw [hS] at hb
      cases hb
      rcases List.mem_append.mp hj with hj | hj
      · exact ⟨t, _, hc, i, List.mem_cons_self, effect_destroys hj hdj⟩
      · exact ⟨t, _, hc, j, List.mem_cons_of_mem _ hj, destroys_mono hconns hdj⟩
    intro j hj
    rw [htodo] at hj
    exact hI.doomed h hold j hj
  · intro hm
    rw [htodo] at hm
    rw [hS]
    exact hk.running (hI.stopping hm)

theorem mem_update {j : Instr} {l : List Instr} (hj : j ∈ Function.update S.todo t l t') :
    t' = t ∧ j ∈ l ∨ t' ≠ t ∧ j ∈ S.todo t' := by
  by_cases he : t' = t
  · subst he
    rw [Function.update_self] at hj
    exact .inl ⟨rfl, hj⟩
  · rw [Function.update_of_ne he] at hj
    exact .inr ⟨he, hj⟩

/-- A thread that takes `connMutex_`, or has run a receive thread's next frame, goes on with
    the rest. -/
theorem stopShape_rest (hs : StopShape (i :: rest)) (hb : i.section ≠ none) : StopShape rest := by
  rcases hs with hs | hs | hs | hs <;> cases hs
  · exact absurd rfl hb
  · exact absurd rfl hb
  · exact .inr (.inr (.inr rfl))

theorem pingShape_rest (hs : PingShape (i :: rest)) (hb : i.section ≠ none) : PingShape rest := by
  rcases hs with ⟨hs, hp⟩ | hp | hp | hp | hp
  · cases hs with
    | nil => cases hp; exact absurd rfl hb
    | cons k hs => cases hp; exact .inl ⟨hs, rfl⟩
  · cases hp; exact absurd rfl hb
  · cases hp; exact .inr (.inr (.inr (.inl rfl)))
  · cases hp; exact absurd rfl hb
  · cases hp

theorem recvShape_rest (hs : RecvShape h (i :: rest)) : RecvShape h rest := by
  obtain ⟨fs, tail, hl, htail⟩ := hs
  cases fs with
  | nil =>
    refine ⟨[], rest, rfl, ?_⟩
    intro j hj
    refine htail j ?_
    rw [show tail = i :: rest from hl.symm]
    exact List.mem_cons_of_mem _ hj
  | cons f fs =>
    cases hl
    exact ⟨fs, tail, rfl, htail⟩

theorem Inv.enter (hI : Inv S) (ht : S.todo t = i :: rest) (hb : i.section = some body)
    (hready : ∀ h, (∃ j ∈ body, j.destroys S h) → S.Settled h)
    (hS : S' = { S with conn := some (t, body), todo := Function.update S.todo t rest })
    (hsend : ∀ k u, S'.send k = some u → ∃ f checked, S'.next u = some (.sendAll k f checked)) : Inv S' := by
  have hsec : i.section ≠ none := by rw [hb]; simp
  have hmem : ∀ {j u}, j ∈ S'.todo u → j ∈ S.todo u := by
    intro j u hj
    have hm : j ∈ Function.update S.todo t rest u := by rw [hS] at hj; exact hj
    rcases mem_update hm with ⟨rfl, hj⟩ | ⟨-, hj⟩
    · rw [ht]; exact List.mem_cons_of_mem _ hj
    · exact hj
  have hbody : ∀ j ∈ body, InSection t j := section_inSection hI.stop hI.ping hI.recv ht hb
  have hshape : ∀ {P : List Instr → Prop} {u}, P (S.todo u) → (P (i :: rest) → P rest) → P (S'.todo u) := by
    intro P u hP hrest
    rw [hS]
    show P (Function.update S.todo t rest u)
    by_cases he : u = t
    · subst he
      rw [Function.update_self]
      exact hrest (ht ▸ hP)
    · rw [Function.update_of_ne he]
      exact hP
  refine ⟨hshape hI.stop fun h => stopShape_rest h hsec, hshape hI.ping fun h => pingShape_rest h hsec,
    fun h => hshape (hI.recv h) recvShape_rest, ?_, ?_, hsend, ?_, ?_⟩
  · intro u b hu
    rw [hS] at hu
    cases hu
    exact hbody
  · intro u b hu
    rw [hS] at hu
    cases hu
    exact readied_of_no_join fun h hm => section_no_join hb hm rfl
  · intro h hd
    obtain ⟨u, b, hu, j, hj, hdj⟩ := hd
    have hconns : S'.connections ⊆ S.connections := by rw [hS]; exact fun _ => id
    rw [hS] at hu
    cases hu
    intro j' hj'
    exact hready h ⟨j, hj, destroys_mono hconns hdj⟩ j' (hmem hj')
  · intro hm
    rw [hS]
    exact hI.stopping (hmem hm)

theorem recvShape_head (hs : RecvShape h (i :: rest)) (hb : i.section = none) :
    i.inLoop = some h ∧ (∀ j ∈ rest, j.inLoop = some h) ∨
      ∃ f, i = .onFrame h f ∧ RecvShape h rest := by
  have hrest := recvShape_rest hs
  obtain ⟨fs, tail, hl, htail⟩ := hs
  cases fs with
  | nil =>
    have hl : tail = i :: rest := hl.symm
    subst hl
    exact .inl ⟨htail i List.mem_cons_self, fun j hj => htail j (List.mem_cons_of_mem _ hj)⟩
  | cons f fs =>
    cases hl
    exact .inr ⟨f, rfl, hrest⟩

/-- What a receive thread does without `connMutex_`: it hands out what it has read, or stays
    in its loop. -/
theorem Inv.recv_outside (hI : Inv S) (config : AppConfig) (ch : Choice) (ht : S.todo (.recv h) = i :: rest)
    (hb : i.section = none) (hl : i = .lost h → (S.objs h).running = false) :
    ∃ (fs : List Frame) (tail : List Instr),
      (S.effect config (.recv h) ch i).2 = fs.map (fun f => .onFrame h f) ++ tail ∧
      (∀ j ∈ tail, j.inLoop = some h) ∧ RecvShape h ((S.effect config (.recv h) ch i).2 ++ rest) ∧
      (fs = [] ∨ i = .recv h ∧ ∃ data conn, ch.data = some data ∧ (S.objs h).decode data = (.ok fs, conn)) := by
  rcases recvShape_head (ht ▸ hI.recv h) hb with ⟨hi, hrest⟩ | ⟨f, rfl, hrest⟩
  · obtain ⟨fs, tail, he, htail, hfs⟩ := effect_inLoop config (.recv h) ch hi hl
    refine ⟨fs, tail, he, htail, ⟨fs, tail ++ rest, by rw [he, List.append_assoc], ?_⟩, hfs⟩
    intro j hj
    rcases List.mem_append.mp hj with hj | hj
    · exact htail j hj
    · exact hrest j hj
  · refine ⟨[], [], rfl, ?_, hrest, .inl rfl⟩
    intro j hj
    cases hj

/-- Nothing that is read on a connection under destruction has a handler. -/
theorem Inv.quiet_outside (hI : Inv S) (ho : S.Orderly (.recv h, ch)) (hn : S.next (.recv h) = some i)
    (ht : S.todo (.recv h) = i :: rest) (hb : i.section = none) (hd : S.Doomed h) :
    ∀ j ∈ (S.effect config (.recv h) ch i).2, j.section = none := by
  intro j hj
  obtain ⟨fs, tail, hl, htail, -, hfs⟩ := hI.recv_outside config ch ht hb fun he => ho.closed h (he ▸ hn)
  rw [hl] at hj
  rcases List.mem_append.mp hj with hj | hj
  · obtain ⟨f, hf, rfl⟩ := List.mem_map.mp hj
    rcases hfs with rfl | ⟨rfl, data, conn, hdata, hdec⟩
    · cases hf
    · have := ho.quiet h data fs conn hn hdata hd hdec f hf
      simp [Instr.section, this]
  · exact section_of_inLoop (htail j hj)

theorem stopShape_outside (config : AppConfig) (S : State) (ch : Choice) (hs : StopShape (i :: rest))
    (hb : i.section = none) : StopShape ((S.effect config .stop ch i).2 ++ rest) := by
  rcases hs with hs | hs | hs | hs <;> cases hs
  · show StopShape ((if S.running then _ else _ : State × List Instr).2 ++ [])
    split
    · exact .inr (.inl rfl)
    · exact .inr (.inr (.inr rfl))
  · exact .inr (.inr (.inl rfl))
  · cases hb

theorem pingShape_outside (config : AppConfig) (S : State) (ch : Choice) (hs : PingShape (i :: rest))
    (hb : i.section = none) : PingShape ((S.effect config .ping ch i).2 ++ rest) := by
  rcases hs with ⟨hs, hp⟩ | hp | hp | hp | hp
  · cases hs with
    | nil =>
      cases hp
      show PingShape ((if S.running then _ else _) ++ [])
      split
      · exact .inr (.inl rfl)
      · exact .inr (.inr (.inr (.inr rfl)))
    | cons k hs => cases hp; cases hb
  · cases hp
    show PingShape ((if S.running then _ else _) ++ [])
    split
    · exact .inr (.inr (.inl rfl))
    · exact .inr (.inr (.inr (.inr rfl)))
  · cases hp; cases hb
  · cases hp
    exact .inl ⟨S.dead.reverse, List.append_nil _⟩
  · cases hp

theorem Inv.outside (hI : Inv S) (ho : S.Orderly (t, ch)) (hh : S.held t = none) (ht : S.todo t = i :: rest)
    (hb : i.section = none)
    (hS : S' = { (S.effect config t ch i).1 with
      todo := Function.update (S.effect config t ch i).1.todo t ((S.effect config t ch i).2 ++ rest) })
    (hsend : ∀ k u, S'.send k = some u → ∃ f checked, S'.next u = some (.sendAll k f checked)) : Inv S' := by
  have hk := effect_kept config S t ch i
  have hn : S.next t = some i := by rw [next_of_todo hh, ht]; rfl
  have hlost : ∀ h, i = .lost h → (S.objs h).running = false := fun h he => ho.closed h (he ▸ hn)
  have htodo : S'.todo = Function.update S.todo t ((S.effect config t ch i).2 ++ rest) := by
    rw [hS]
    show Function.update (S.effect config t ch i).1.todo t _ = _
    rw [hk.todo]
  have hself : S'.todo t = (S.effect config t ch i).2 ++ rest := by rw [htodo, Function.update_self]
  have hother : ∀ u, u ≠ t → S'.todo u = S.todo u := by
    intro u hu
    rw [htodo, Function.update_of_ne hu]
  have hconn : S'.conn = S.conn := by rw [hS]; exact hk.conn
  have hconns : S'.connections ⊆ S.connections := by rw [hS]; exact hk.connections
  have hobjs : ∀ h, (S.objs h).running = false → (S'.objs h).running = false := by rw [hS]; exact hk.halted
  have hrun : S.running = false → S'.running = false := by rw [hS]; exact hk.running
  have hdoomed : ∀ h, S'.Doomed h → S.Doomed h := by
    intro h hd
    obtain ⟨u, b, hu, j, hj, hdj⟩ := hd
    rw [hconn] at hu
    exact ⟨u, b, hu, j, hj, destroys_mono hconns hdj⟩
  refine ⟨?_, ?_, ?_, ?_, ?_, hsend, ?_, ?_⟩
  · by_cases he : Thread.stop = t
    · subst he
      rw [hself]
      exact stopShape_outside config S ch (ht ▸ hI.stop) hb
    · rw [hother _ he]
      exact hI.stop
  · by_cases he : Thread.ping = t
    · subst he
      rw [hself]
      exact pingShape_outside config S ch (ht ▸ hI.ping) hb
    · rw [hother _ he]
      exact hI.ping
  · intro h
    by_cases he : Thread.recv h = t
    · subst he
      rw [hself]
      obtain ⟨fs, tail, -, -, hshape, -⟩ := hI.recv_outside config ch ht hb (hlost h)
      exact hshape
    · rw [hother _ he]
      exact hI.recv h
  · intro u b hu
    rw [hconn] at hu
    exact hI.body u b hu
  · intro u b hu
    rw [hconn] at hu
    exact (hI.readied u b hu).mono hobjs
  · intro h hd j hj
    have hset := hI.doomed h (hdoomed h hd)
    by_cases he : Thread.recv h = t
    · subst he
      rw [hself] at hj
      rcases List.mem_append.mp hj with hj | hj
      · exact hI.quiet_outside ho hn ht hb (hdoomed h hd) j hj
      · refine hset j ?_
        rw [ht]
        exact List.mem_cons_of_mem _ hj
    · rw [hother _ he] at hj
      exact hset j hj
  · intro hm
    by_cases he : Thread.stop = t
    · subst he
      rw [hself] at hm
      have hshape : StopShape (i :: rest) := ht ▸ hI.stop
      rcases hshape with hs | hs | hs | hs <;> cases hs
      · by_cases hr : S.running = true
        · rw [hS]
          show (if S.running then ({ S with running := false }, _) else (S, _) : State × List Instr).1.running = false
          rw [if_pos hr]
        · exact hrun (by simpa using hr)
      · refine hrun (hI.stopping ?_)
        rw [ht]
        exact List.mem_cons_self
      · cases hb
    · rw [hother _ he] at hm
      exact hrun (hI.stopping hm)

/-- The step lemma: an orderly step keeps the invariant. -/
theorem Inv.step (hI : Inv S) {l : Thread × Choice} (ho : S.Orderly l) (hs : S.step config l = some S') : Inv S' := by
  obtain ⟨t, ch⟩ := l
  have hst := step_cases hs
  have hsend : ∀ k u, S'.send k = some u → ∃ f checked, S'.next u = some (.sendAll k f checked) :=
    fun k u hk => hI.send_step hst hk
  cases hst with
  | leave hc he =>
    subst he
    exact hI.leave hsend
  | inside i body hc hf he => exact hI.inside hc he hsend
  | enter i rest body hc ht hb he =>
    refine hI.enter ht hb ?_ he hsend
    intro h hd
    have hh := held_none_of_conn hc t
    have hn : S.next t = some i := by rw [next_of_todo hh, ht]; rfl
    exact ho.ready i body h hh hn hb hd
  | outside i rest hh ht hb hf he => exact hI.outside ho hh ht hb he hsend

/-- The run lemma. -/
theorem Inv.reach (hI : Inv S) (hr : Machine.Reach (State.step config) State.Orderly S S') : Inv S' :=
  hr.invariant hI fun _ _ _ hI ho hs => hI.step ho hs

end

end LanTalk.Chat
