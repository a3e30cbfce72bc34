/-
  LanTalk.Chat.Progress — no thread waits for ever (see `LanTalk.Chat.Threads`) in a run of
  `Orderly` steps, and how the others come to wait. Who has `connMutex_` lets go of it
  (`release`), since what it still does has a weight and what it joins can end by itself
  (`recv_ends`); a receive thread comes to have nothing in hand (`drain`), and then the ping
  thread ends once the session stops (`ping_ends`).
-/

import LanTalk.Chat.Locks

namespace LanTalk.Chat

open LanTalk.Lib LanTalk.Network LanTalk.Config

section
variable {config : AppConfig} {S S' : State} {t t' : Thread} {ch : Choice} {h : Handle} {i : Instr}
  {body rest : List Instr}

/-! ## Weights -/

/-- How much an instruction may still come to, with `n` registered connections. -/
def Instr.weight (n : Nat) : Instr → Nat
  | .sendAll .. | .setState .. | .halt _ | .close _ | .join _ | .loop _ | .lost _ | .onFrame .. => 1
  | .lockSend .. | .recv _ => 2
  | .send .. => 3
  | .erase _ => 4
  | .disconnect .. => 8
  | .check .. => 9
  | .handle .. => 12
  | .pingAll | .clear => 1 + 3 * n
  | .disconnectAll => 1 + 8 * n
  | _ => 0

def weights (n : Nat) (l : List Instr) : Nat := (l.map (Instr.weight n)).sum

@[simp] theorem weights_nil (n : Nat) : weights n [] = 0 := rfl
@[simp] theorem weights_cons (n : Nat) (i : Instr) (l : List Instr) :
    weights n (i :: l) = i.weight n + weights n l := rfl

@[simp] theorem weights_append (n : Nat) (l l' : List Instr) : weights n (l ++ l') = weights n l + weights n l' := by
  simp [weights]

theorem weight_mono {m n : Nat} (hm : m ≤ n) (i : Instr) : i.weight m ≤ i.weight n := by
  cases i <;> simp only [Instr.weight] <;> omega

theorem weights_mono {m n : Nat} (hm : m ≤ n) (l : List Instr) : weights m l ≤ weights n l := by
  induction l with
  | nil => exact Nat.le_refl _
  | cons i l ih =>
    have := weight_mono hm i
    simp only [weights_cons]
    omega

theorem weights_each (n k : Nat) {g : Handle → Instr} (hg : ∀ h, (g h).weight n = k) (hs : List Handle) :
    weights n (hs.map g) = k * hs.length := by
  induction hs with
  | nil => simp
  | cons h hs ih =>
    simp only [List.map_cons, weights_cons, ih, hg, List.length_cons]
    ring

theorem weights_destroy (n : Nat) (hs : List Handle) : weights n (hs.flatMap destroy) = 3 * hs.length := by
  induction hs with
  | nil => simp
  | cons h hs ih =>
    simp only [List.flatMap_cons, weights_append, ih, List.length_cons, destroy, weights_cons, weights_nil,
      Instr.weight]
    omega

theorem weights_calls (n : Nat) (config : AppConfig) (h : Handle) (f : Frame) :
    weights n ((calls config f).map (Call.instr h)) < 12 := by
  unfold calls
  cases f.header.type <;> dsimp only
  case HELLO =>
    split
    · simp [Call.instr, Instr.weight]
    · split <;> simp [Call.instr, Instr.weight]
  case AUTH_RESPONSE => split <;> simp [Call.instr, Instr.weight]
  all_goals simp [Call.instr, Instr.weight]

/-- A connection's own functions come to an end. -/
theorem weight_onConn (config : AppConfig) (S : State) (t : Thread) (ch : Choice) (n : Nat) (hi : i.onConn = some h) :
    weights n (S.effect config t ch i).2 < i.weight n := by
  cases i with
  | send k type payload checked =>
    simp only [State.effect]
    split <;> simp [Instr.weight]
  | disconnect k reason =>
    simp only [State.effect]
    split <;> simp [Instr.weight]
  | lockSend k f checked => simp [State.effect, Instr.weight]
  | sendAll k f checked => simp [State.effect, Instr.weight]
  | setState k state => simp [State.effect, Instr.weight]
  | halt k => simp [State.effect, Instr.weight]
  | close k => simp [State.effect, Instr.weight]
  | _ => cases hi

/-- So does what is done under `connMutex_`. -/
theorem weight_inSweep (config : AppConfig) (S : State) (t : Thread) (ch : Choice) (hi : i.inSweep = true) :
    weights S.connections.length (S.effect config t ch i).2 < i.weight S.connections.length := by
  by_cases hc : ∃ h, i.onConn = some h
  · obtain ⟨h, hc⟩ := hc
    exact weight_onConn config S t ch _ hc
  · cases i with
    | erase k =>
      simp only [State.effect]
      split <;> simp [destroy, Instr.weight]
    | join k => simp [State.effect, Instr.weight]
    | clear =>
      simp only [State.effect, weights_destroy, Instr.weight]
      omega
    | disconnectAll =>
      have := weights_each S.connections.length 8 (g := fun k => .disconnect k sessionStopped) (fun _ => rfl)
        S.connections
      simp only [State.effect, Instr.weight]
      omega
    | pingAll =>
      have := weights_each S.connections.length 3 (g := fun k => .send k .PING (str "{}") true) (fun _ => rfl)
        S.connections
      simp only [State.effect, Instr.weight]
      omega
    | _ => first | exact absurd ⟨_, rfl⟩ hc | cases hi

theorem weight_inSection (config : AppConfig) (S : State) (ch : Choice) (hi : InSection t i) :
    weights S.connections.length (S.effect config t ch i).2 < i.weight S.connections.length := by
  cases t with
  | recv h =>
    rcases hi with hi | ⟨f, rfl⟩
    · exact weight_onConn config S (.recv h) ch _ hi
    · simp only [State.effect, Instr.weight]
      split
      · exact weights_calls _ config h f
      · simp
  | stop => exact weight_inSweep config S .stop ch hi
  | ping => exact weight_inSweep config S .ping ch hi

/-- And the loop of a connection that was closed, once nothing more is read on it. -/
theorem weight_inLoop (config : AppConfig) (t : Thread) (n : Nat) (hi : i.inLoop = some h)
    (hr : (S.objs h).running = false) : weights n (S.effect config t {} i).2 < i.weight n := by
  by_cases hc : i.onConn = some h
  · exact weight_onConn config S t {} n hc
  · cases i with
    | loop k => cases hi; simp [State.effect, Instr.weight, hr]
    | recv k => simp [State.effect, Instr.weight]
    | lost k => cases hi; simp [State.effect, Instr.weight, hr]
    | check k elapsed =>
      simp only [State.effect]
      split
      · split <;> simp [Instr.weight]
      · simp [Instr.weight]
    | _ => exact absurd hi hc

/-! ## Going on -/

/-- What orderly steps lead to. -/
abbrev Later (config : AppConfig) (S S' : State) : Prop := Machine.Reach (State.step config) State.Orderly S S'

/-- What a thread does under `connMutex_`, and what others do so that it can, leaves alone:
    a receive thread may get ahead only if it needs no `connMutex_`. -/
structure Calm (S S' : State) : Prop where
  stop : S'.todo .stop = S.todo .stop
  ping : S'.todo .ping = S.todo .ping
  running : S'.running = S.running
  recv : ∀ h, S'.todo (.recv h) = S.todo (.recv h) ∨ S.Settled h ∧ S'.todo (.recv h) <:+ S.todo (.recv h)

theorem Calm.of_todo (ht : S'.todo = S.todo) (hr : S'.running = S.running) : Calm S S' :=
  ⟨congrFun ht _, congrFun ht _, hr, fun _ => .inl (congrFun ht _)⟩

theorem Calm.suffix (hc : Calm S S') (h : Handle) : S'.todo (.recv h) <:+ S.todo (.recv h) := by
  rcases hc.recv h with he | ⟨-, he⟩
  · exact he ▸ List.suffix_refl _
  · exact he

theorem Calm.trans {S'' : State} (hc : Calm S S') (hc' : Calm S' S'') : Calm S S'' := by
  refine ⟨hc'.stop.trans hc.stop, hc'.ping.trans hc.ping, hc'.running.trans hc.running, ?_⟩
  intro h
  rcases hc.recv h with he | ⟨hs, he⟩
  · rcases hc'.recv h with he' | ⟨hs', he'⟩
    · exact .inl (he'.trans he)
    · refine .inr ⟨?_, he ▸ he'⟩
      intro i hi
      exact hs' i (he ▸ hi)
  · exact .inr ⟨hs, (hc'.suffix h).trans he⟩

/-- A thread before a section finds it where it was. -/
theorem Calm.todo (hc : Calm S S') (ht : S.todo t = i :: rest) (hb : i.section ≠ none) : S'.todo t = S.todo t := by
  cases t with
  | stop => exact hc.stop
  | ping => exact hc.ping
  | recv h =>
    rcases hc.recv h with he | ⟨hs, -⟩
    · exact he
    · exact absurd (hs i (ht ▸ List.mem_cons_self)) hb

/-- What a thread can have in hand. -/
def InHand : Thread → Instr → Prop
  | .stop, i => i = .stop ∨ i = .joinPing ∨ i = .closeAll
  | .ping, i => (∃ h, i = .onDisconnect h) ∨ i = .pingLoop ∨ i = .wake ∨ i = .sweep ∨ i = .reap
  | .recv h, i => (∃ f, i = .onFrame h f) ∨ i.inLoop = some h

theorem mem_todo (hI : Inv S) (hm : i ∈ S.todo t) : InHand t i := by
  cases t with
  | stop =>
    rcases hI.stop with hs | hs | hs | hs <;> rw [hs] at hm <;> simp at hm
    · exact .inl hm
    · exact .inr hm
    · exact .inr (.inr hm)
  | ping =>
    rcases hI.ping with ⟨ks, hs⟩ | hs | hs | hs | hs <;> rw [hs] at hm <;> simp at hm
    · rcases hm with ⟨k, -, hk⟩ | hm
      · exact .inl ⟨k, hk.symm⟩
      · exact .inr (.inl hm)
    · exact .inr (.inr (.inl hm))
    · exact .inr (.inr (.inr hm))
    · exact .inr (.inr (.inr (.inr hm)))
  | recv h =>
    obtain ⟨fs, tail, hl, htail⟩ := hI.recv h
    rw [hl] at hm
    rcases List.mem_append.mp hm with hm | hm
    · obtain ⟨f, -, hf⟩ := List.mem_map.mp hm
      exact .inl ⟨f, hf.symm⟩
    · exact .inr (htail i hm)

theorem no_join_todo (hI : Inv S) (t : Thread) : Instr.join h ∉ S.todo t := by
  intro hm
  have hi := mem_todo hI hm
  cases t <;> simp [InHand, Instr.inLoop, Instr.onConn] at hi

theorem joinPing_todo (hI : Inv S) (hm : .joinPing ∈ S.todo t) : t = .stop := by
  have hi := mem_todo hI hm
  cases t <;> simp [InHand, Instr.inLoop, Instr.onConn] at hi ⊢

/-- Outside of `connMutex_`, only a receive thread sends, and only on its own connection. -/
theorem onConn_todo (hI : Inv S) (hm : i ∈ S.todo t) (hi : i.onConn = some h) : t = .recv h := by
  have hm := mem_todo hI hm
  cases t with
  | stop => rcases hm with rfl | rfl | rfl <;> cases hi
  | ping => rcases hm with ⟨k, rfl⟩ | rfl | rfl | rfl | rfl <;> cases hi
  | recv k =>
    rcases hm with ⟨f, rfl⟩ | hm
    · cases hi
    · rw [inLoop_of_onConn hi] at hm
      cases hm
      rfl

/-- `recvLoop`'s read, and what it does when that fails. -/
def Instr.reads : Instr → Bool
  | .recv _ | .lost _ => true
  | _ => false

theorem orderly_of_quiet (hr : ∀ i, S.next t = some i → i.reads = false) (ch : Choice)
    (hready : ∀ i body h, S.held t = none → S.next t = some i → i.section = some body →
      (∃ j ∈ body, j.destroys S h) → S.Settled h) : S.Orderly (t, ch) where
  closed := by
    intro h hn
    cases hr _ hn
  quiet := by
    intro h _ _ _ hn
    cases hr _ hn
  ready := hready

/-- A thread that is not reading can always be let run without `connMutex_`. -/
theorem orderly_of_next (hn : S.next t = some i) (hb : i.section = none) (hi : i.reads = false) (ch : Choice) :
    S.Orderly (t, ch) := by
  refine orderly_of_quiet ?_ ch ?_
  · intro j hj
    cases Option.some.inj (hn.symm.trans hj)
    exact hi
  · intro j body h _ hj hb'
    cases Option.some.inj (hn.symm.trans hj)
    rw [hb] at hb'
    cases hb'

/-- Under `connMutex_` nobody reads, stops the session or joins the ping thread. -/
theorem InSection.ne (hi : InSection t i) : i.reads = false ∧ i ≠ .stop ∧ i ≠ .joinPing := by
  cases t with
  | recv k =>
    rcases hi with hi | ⟨f, rfl⟩
    · cases i <;> simp [Instr.onConn, Instr.reads] at hi ⊢
    · simp [Instr.reads]
  | stop => cases i <;> simp [InSection, Instr.inSweep, Instr.onConn, Instr.reads] at hi ⊢
  | ping => cases i <;> simp [InSection, Instr.inSweep, Instr.onConn, Instr.reads] at hi ⊢

theorem next_mem (hh : S.held t = none) (hn : S.next t = some i) : i ∈ S.todo t := by
  rw [next_of_todo hh] at hn
  exact List.mem_of_head? hn

/-- In its loop, a receive thread has handed out all frames. -/
theorem settled_of_inLoop (hI : Inv S) (ht : S.todo (.recv h) = i :: rest) (hi : i.inLoop = some h) :
    S.Settled h := by
  intro j hj
  rw [ht] at hj
  rcases recvShape_head (ht ▸ hI.recv h) (section_of_inLoop hi) with ⟨-, hrest⟩ | ⟨f, rfl, -⟩
  · rcases List.mem_cons.mp hj with rfl | hj
    · exact section_of_inLoop hi
    · exact section_of_inLoop (hrest j hj)
  · cases hi

/-! ## Letting go of a `sendMutex_` -/

theorem effect_sendAll (config : AppConfig) (S : State) (t : Thread) (ch : Choice) (h : Handle) (f : Frame)
    (checked : Bool) : ∃ dead, (S.effect config t ch (.sendAll h f checked)).1 =
      { S with send := Function.update S.send h none, dead := dead } := by
  simp only [State.effect]
  split
  · exact ⟨S.dead, rfl⟩
  · rw [unsent_eq]
    exact ⟨_, rfl⟩

/-- Who holds a connection's `sendMutex_` lets go of it by its next step. -/
theorem let_go (config : AppConfig) (hI : Inv S) (hs : S.send h = some t) :
    S.Orderly (t, {}) ∧ ∃ S', S.step config (t, {}) = some S' ∧ S'.send h = none := by
  obtain ⟨f, checked, hn⟩ := hI.send h t hs
  obtain ⟨dead, he⟩ := effect_sendAll config S t {} h f checked
  refine ⟨orderly_of_next hn rfl rfl {}, ?_⟩
  rcases Option.eq_none_or_eq_some (S.held t) with hh | ⟨body, hh⟩
  · obtain ⟨rest, ht⟩ := List.head?_eq_some_iff.mp (next_of_todo hh ▸ hn)
    refine ⟨_, step_outside config {} hh ht rfl rfl, ?_⟩
    rw [he]
    exact Function.update_self h none S.send
  · obtain ⟨rest, hb⟩ := List.head?_eq_some_iff.mp (next_of_held hh ▸ hn)
    refine ⟨_, step_inside config {} (hb ▸ held_iff.mp hh) rfl, ?_⟩
    rw [he]
    exact Function.update_self h none S.send

/-- If that is not who has `connMutex_`, it is the connection's receive thread, in its loop. -/
theorem let_go_calm (hI : Inv S) (hs : S.send h = some t) (hh : S.held t = none)
    (hst : S.step config (t, ch) = some S') : Calm S S' ∧ S'.conn = S.conn ∧ S'.connections = S.connections := by
  obtain ⟨f, checked, hn⟩ := hI.send h t hs
  obtain ⟨dead, he⟩ := effect_sendAll config S t ch h f checked
  have hr : t = .recv h := onConn_todo hI (next_mem hh hn) rfl
  subst hr
  rw [next_of_todo hh] at hn
  cases step_cases hst with
  | leave hc _ => rw [held_iff.mpr hc] at hh; cases hh
  | inside i body hc _ _ => rw [held_iff.mpr hc] at hh; cases hh
  | enter i rest body hc ht hb _ => rw [ht] at hn; cases hn; cases hb
  | outside i rest _ ht hb hf hS =>
    rw [ht] at hn
    cases hn
    rw [he] at hS
    subst hS
    have hother : ∀ u, u ≠ .recv h → Function.update S.todo (.recv h) ([] ++ rest) u = S.todo u :=
      fun u hu => Function.update_of_ne hu _ _
    refine ⟨⟨hother .stop (by simp), hother .ping (by simp), rfl, ?_⟩, rfl, rfl⟩
    intro k
    by_cases hk : k = h
    · subst hk
      refine .inr ⟨settled_of_inLoop hI ht rfl, ?_⟩
      show Function.update S.todo (.recv k) ([] ++ rest) (.recv k) <:+ _
      rw [Function.update_self, ht]
      exact List.suffix_cons _ rest
    · exact .inl (hother (.recv k) (by simpa using hk))

/-! ## A joined thread ends -/

/-- Only `stop` clears the session's `running_`, and only `erase` and `clear` take
    connections out. -/
theorem effect_session (config : AppConfig) (S : State) (t : Thread) (ch : Choice) (i : Instr) :
    ((S.effect config t ch i).1.running = S.running ∨ i = .stop) ∧
      ((S.effect config t ch i).1.connections = S.connections ∨ (∃ h, i = .erase h) ∨ i = .clear) := by
  cases i with
  | stop => exact ⟨.inr rfl, .inl (by simp only [State.effect]; split <;> rfl)⟩
  | erase k => exact ⟨.inl (by simp only [State.effect]; split <;> rfl), .inr (.inl ⟨k, rfl⟩)⟩
  | clear => exact ⟨.inl rfl, .inr (.inr rfl)⟩
  | send k type payload checked =>
    simp only [State.effect]
    split
    · exact ⟨.inl rfl, .inl rfl⟩
    · rw [unsent_eq]
      exact ⟨.inl rfl, .inl rfl⟩
  | sendAll k f checked =>
    obtain ⟨dead, he⟩ := effect_sendAll config S t ch k f checked
    rw [he]
    exact ⟨.inl rfl, .inl rfl⟩
  | disconnect k reason =>
    simp only [State.effect]
    split <;> exact ⟨.inl rfl, .inl rfl⟩
  | recv k =>
    simp only [State.effect]
    split
    · exact ⟨.inl rfl, .inl rfl⟩
    · split <;> exact ⟨.inl rfl, .inl rfl⟩
  | check k elapsed =>
    simp only [State.effect]
    split
    · split <;> exact ⟨.inl rfl, .inl rfl⟩
    · exact ⟨.inl rfl, .inl rfl⟩
  | _ => exact ⟨.inl rfl, .inl rfl⟩

/-- What a step of a receive thread without `connMutex_` leaves alone. -/
structure Alone (h : Handle) (S S' : State) : Prop where
  conn : S'.conn = S.conn
  connections : S'.connections = S.connections
  running : S'.running = S.running
  todo : ∀ u, u ≠ .recv h → S'.todo u = S.todo u

theorem Alone.refl (h : Handle) (S : State) : Alone h S S := ⟨rfl, rfl, rfl, fun _ _ => rfl⟩

theorem Alone.trans {S'' : State} (ha : Alone h S S') (ha' : Alone h S' S'') : Alone h S S'' :=
  ⟨ha'.conn.trans ha.conn, ha'.connections.trans ha.connections, ha'.running.trans ha.running,
    fun u hu => (ha'.todo u hu).trans (ha.todo u hu)⟩

/-- The connection's `sendMutex_` is free while its receive thread is before it and who has
    `connMutex_` is before a join. -/
theorem send_free (hI : Inv S) (hc : S.conn = some (t, .join h :: body))
    (hn : S.next (.recv h) = some i) (hi : ∀ f checked, i ≠ .sendAll h f checked) : S.send h = none := by
  rcases Option.eq_none_or_eq_some (S.send h) with hs | ⟨u, hs⟩
  · exact hs
  · exfalso
    obtain ⟨f, checked, hnu⟩ := hI.send h u hs
    by_cases hu : u = t
    · subst hu
      rw [next_of_held (held_iff.mpr hc)] at hnu
      cases hnu
    · have hr : u = .recv h := onConn_todo hI (next_mem (held_none_of_ne hc hu) hnu) rfl
      subst hr
      exact hi f checked (Option.some.inj (hn.symm.trans hnu))

theorem recv_goes (config : AppConfig) (hI : Inv S) (hc : S.conn = some (t, .join h :: body)) (hne : .recv h ≠ t)
    (ht : S.todo (.recv h) = i :: rest) :
    S.Orderly (.recv h, {}) ∧ ∃ S', S.step config (.recv h, {}) = some S' ∧ Alone h S S' ∧
      weights 0 (S'.todo (.recv h)) < weights 0 (S.todo (.recv h)) := by
  have hset : S.Settled h := hI.doomed h ⟨t, _, hc, .join h, List.mem_cons_self, rfl⟩
  have hb : i.section = none := hset i (ht ▸ List.mem_cons_self)
  have hh : S.held (.recv h) = none := held_none_of_ne hc hne
  have hn : S.next (.recv h) = some i := by rw [next_of_todo hh, ht]; rfl
  have hclosed : (S.objs h).running = false := (hI.readied _ _ hc).1 h rfl
  have horderly : S.Orderly (.recv h, {}) := by
    refine ⟨?_, ?_, ?_⟩
    · intro k hk
      cases Option.some.inj (hn.symm.trans hk)
      rcases recvShape_head (ht ▸ hI.recv h) hb with ⟨hi, -⟩ | ⟨f, hi, -⟩
      · cases hi
        exact hclosed
      · cases hi
    · intro k data frames conn _ hd
      cases hd
    · intro j b k _ hj hbj
      cases Option.some.inj (hn.symm.trans hj)
      rw [hb] at hbj
      cases hbj
  have hk := effect_kept config S (.recv h) {} i
  refine ⟨horderly, ?_⟩
  rcases recvShape_head (ht ▸ hI.recv h) hb with ⟨hi, -⟩ | ⟨f, rfl, -⟩
  · have hf : S.free i = true := by
      cases i with
      | lockSend k f checked =>
        cases hi
        show (S.send h).isNone = true
        rw [send_free hI hc hn (by simp)]
        rfl
      | join k => cases hi
      | joinPing => cases hi
      | _ => rfl
    refine ⟨_, step_outside config {} hh ht hb hf, ⟨hk.conn, ?_, ?_, ?_⟩, ?_⟩
    · rcases (effect_session config S (.recv h) {} i).2 with he | ⟨k, rfl⟩ | rfl
      · exact he
      · cases hi
      · cases hi
    · rcases (effect_session config S (.recv h) {} i).1 with he | rfl
      · exact he
      · cases hi
    · intro u hu
      show Function.update (S.effect config (.recv h) {} i).1.todo (.recv h) _ u = _
      rw [Function.update_of_ne hu, hk.todo]
    · show weights 0 (Function.update (S.effect config (.recv h) {} i).1.todo (.recv h) _ (.recv h)) < _
      rw [Function.update_self, ht, weights_append, weights_cons]
      have := weight_inLoop config (.recv h) 0 hi hclosed
      omega
  · refine ⟨_, step_outside config {} hh ht hb rfl, ⟨rfl, rfl, rfl, ?_⟩, ?_⟩
    · intro u hu
      show Function.update S.todo (.recv h) _ u = _
      rw [Function.update_of_ne hu]
    · show weights 0 (Function.update S.todo (.recv h) _ (.recv h)) < _
      rw [Function.update_self, ht, weights_append, weights_cons]
      simp [State.effect, Instr.weight]

/-- Who has `connMutex_` and joins a receive thread has closed its connection, so that the
    thread runs to its end whatever it still has in hand. -/
theorem recv_ends (config : AppConfig) (hI : Inv S) (hc : S.conn = some (t, .join h :: body)) :
    ∃ S', Later config S S' ∧ Inv S' ∧ Calm S S' ∧ S'.conn = S.conn ∧ S'.connections = S.connections ∧
      S'.finished (.recv h) = true := by
  have hne : Thread.recv h ≠ t := by
    intro he
    subst he
    rcases hI.body _ _ hc _ List.mem_cons_self with hb | ⟨f, hb⟩ <;> cases hb
  have hgo : ∃ S', Later config S S' ∧ (Inv S' ∧ Alone h S S') ∧ S'.todo (.recv h) = [] := by
    refine Machine.Reach.variant (P := fun U => Inv U ∧ Alone h S U) (fun U => weights 0 (U.todo (.recv h))) ?_
      ⟨hI, .refl h S⟩
    intro U hP
    obtain ⟨hU, ha⟩ := hP
    cases ht : U.todo (.recv h) with
    | nil => exact .inl rfl
    | cons i rest =>
      obtain ⟨ho, U', hst, ha', hw⟩ := recv_goes config hU (ha.conn.trans hc) hne ht
      exact .inr ⟨U', .one ho hst, ⟨hU.step ho hst, ha.trans ha'⟩, ht ▸ hw⟩
  obtain ⟨S', hlater, ⟨hI', ha⟩, hnil⟩ := hgo
  have hh : S'.held (.recv h) = none := held_none_of_ne (ha.conn.trans hc) hne
  refine ⟨S', hlater, hI', ⟨ha.todo _ (by simp), ha.todo _ (by simp), ha.running, ?_⟩, ha.conn, ha.connections, ?_⟩
  · intro k
    by_cases hk : k = h
    · subst hk
      refine .inr ⟨hI.doomed k ⟨t, _, hc, .join k, List.mem_cons_self, rfl⟩, ?_⟩
      rw [hnil]
      exact List.nil_suffix
    · exact .inl (ha.todo _ (by simpa using hk))
  · simp [State.finished, hnil, hh]

/-! ## Letting go of `connMutex_` -/

/-- Who has `connMutex_` comes to run its next instruction. -/
theorem comes_free (config : AppConfig) (hI : Inv S) (hc : S.conn = some (t, i :: body)) :
    ∃ S', Later config S S' ∧ Inv S' ∧ Calm S S' ∧ S'.conn = S.conn ∧ S'.connections = S.connections ∧
      S'.free i = true := by
  have hi : InSection t i := hI.body t _ hc i List.mem_cons_self
  have hnow : S.free i = true → ∃ S', Later config S S' ∧ Inv S' ∧ Calm S S' ∧ S'.conn = S.conn ∧
      S'.connections = S.connections ∧ S'.free i = true :=
    fun hf => ⟨S, .init, hI, .of_todo rfl rfl, rfl, rfl, hf⟩
  cases i with
  | lockSend h f checked =>
    rcases Option.eq_none_or_eq_some (S.send h) with hs | ⟨u, hs⟩
    · exact hnow (by simp [State.free, hs])
    · have hu : u ≠ t := by
        intro he
        subst he
        obtain ⟨f', checked', hn⟩ := hI.send h u hs
        rw [next_of_held (held_iff.mpr hc)] at hn
        cases hn
      obtain ⟨ho, S', hst, hsend⟩ := let_go config hI hs
      obtain ⟨hcalm, hconn, hconns⟩ := let_go_calm hI hs (held_none_of_ne hc hu) hst
      exact ⟨S', .one ho hst, hI.step ho hst, hcalm, hconn, hconns, by simp [State.free, hsend]⟩
  | join h => exact recv_ends config hI hc
  | joinPing => exact absurd rfl hi.ne.2.2
  | _ => exact hnow rfl

/-- The work left to do before `connMutex_` is free. -/
def State.weight (S : State) : Nat :=
  match S.conn with
  | some (_, body) => 1 + weights S.connections.length body
  | none => 0

/-- `connMutex_` comes to be free, and no thread that waits for it is passed over. -/
theorem release (config : AppConfig) (hI : Inv S) :
    ∃ S', Later config S S' ∧ (Inv S' ∧ Calm S S') ∧ S'.conn = none := by
  refine Machine.Reach.variant (P := fun U => Inv U ∧ Calm S U) State.weight ?_ ⟨hI, .of_todo rfl rfl⟩
  intro U hP
  obtain ⟨hU, hcalm⟩ := hP
  rcases Option.eq_none_or_eq_some U.conn with hc | ⟨⟨t, body⟩, hc⟩
  · exact .inl hc
  · right
    cases body with
    | nil =>
      have hst := step_leave config {} hc
      have hh : U.held t = some [] := held_iff.mpr hc
      have ho : U.Orderly (t, {}) := by
        refine orderly_of_quiet ?_ {} ?_
        · intro i hn
          rw [next_of_held hh] at hn
          cases hn
        · intro i body h hno
          rw [hh] at hno
          cases hno
      refine ⟨_, .one ho hst, ⟨hU.step ho hst, hcalm.trans (.of_todo rfl rfl)⟩, ?_⟩
      simp [State.weight, hc]
    | cons i body =>
      obtain ⟨V, hlater, hV, hcalm', hconn, hconns, hf⟩ := comes_free config hU hc
      have hcV : V.conn = some (t, i :: body) := hconn.trans hc
      have hi : InSection t i := hV.body t _ hcV i List.mem_cons_self
      have hn : V.next t = some i := next_of_held (held_iff.mpr hcV)
      have hst := step_inside config {} hcV hf
      have ho : V.Orderly (t, {}) := orderly_of_next hn hi.noSection hi.ne.1 {}
      have hk := effect_kept config V t {} i
      refine ⟨_, hlater.step ho hst, ⟨hV.step ho hst, (hcalm.trans hcalm').trans (.of_todo hk.todo ?_)⟩, ?_⟩
      · rcases (effect_session config V t {} i).1 with he | rfl
        · exact he
        · exact absurd rfl hi.ne.2.1
      · have hw := weight_inSection config V {} hi
        have hm := weights_mono hk.length ((V.effect config t {} i).2 ++ body)
        simp only [State.weight, hc, weights_cons, weights_append, ← hconns] at hm ⊢
        omega

/-! ## Draining -/

/-- Taking the free `connMutex_` and letting go of it again. -/
theorem pass (config : AppConfig) (hI : Inv S) (hc : S.conn = none) (ht : S.todo t = i :: rest)
    (hb : i.section = some body) (hready : ∀ h, (∃ j ∈ body, j.destroys S h) → S.Settled h) :
    ∃ S', Later config S S' ∧ Inv S' ∧ S'.conn = none ∧
      Calm { S with conn := some (t, body), todo := Function.update S.todo t rest } S' := by
  have hh := held_none_of_conn hc t
  have hn : S.next t = some i := by rw [next_of_todo hh, ht]; rfl
  have hst := step_enter config {} hc ht hb
  have ho : S.Orderly (t, {}) := by
    refine orderly_of_quiet ?_ {} ?_
    · intro j hj
      cases Option.some.inj (hn.symm.trans hj)
      cases i <;> first | rfl | cases hb
    · intro j b h _ hj hbj
      cases Option.some.inj (hn.symm.trans hj)
      cases Option.some.inj (hb.symm.trans hbj)
      exact hready h
  obtain ⟨S', hlater, ⟨hI', hcalm⟩, hc'⟩ := release config (hI.step ho hst)
  exact ⟨S', (Machine.Reach.one ho hst).trans hlater, hI', hc', hcalm⟩

/-- What letting receive threads get ahead leaves alone. -/
structure Ahead (S S' : State) : Prop where
  stop : S'.todo .stop = S.todo .stop
  ping : S'.todo .ping = S.todo .ping
  running : S'.running = S.running
  recv : ∀ h, S'.todo (.recv h) <:+ S.todo (.recv h)

theorem Ahead.refl (S : State) : Ahead S S := ⟨rfl, rfl, rfl, fun _ => List.suffix_refl _⟩

theorem Ahead.trans {S'' : State} (ha : Ahead S S') (ha' : Ahead S' S'') : Ahead S S'' :=
  ⟨ha'.stop.trans ha.stop, ha'.ping.trans ha.ping, ha'.running.trans ha.running,
    fun h => (ha'.recv h).trans (ha.recv h)⟩

theorem Calm.ahead (hc : Calm S S') : Ahead S S' := ⟨hc.stop, hc.ping, hc.running, hc.suffix⟩

/-- A receive thread has gone past its first frame. -/
theorem ahead_of_cons (ht : S.todo (.recv h) = i :: rest) (hS : S'.todo = Function.update S.todo (.recv h) rest)
    (hr : S'.running = S.running) : Ahead S S' := by
  have hother : ∀ u, u ≠ .recv h → S'.todo u = S.todo u := by
    intro u hu
    rw [hS, Function.update_of_ne hu]
  refine ⟨hother _ (by simp), hother _ (by simp), hr, ?_⟩
  intro k
  by_cases hk : k = h
  · subst hk
    rw [hS, Function.update_self, ht]
    exact List.suffix_cons i rest
  · rw [hother _ (by simpa using hk)]

/-- A receive thread hands out the frames it has, and then needs no `connMutex_`. -/
theorem drain (config : AppConfig) (hI : Inv S) (hc : S.conn = none) (h : Handle) :
    ∃ S', Later config S S' ∧ (Inv S' ∧ S'.conn = none ∧ Ahead S S') ∧ S'.Settled h := by
  refine Machine.Reach.variant (P := fun U => Inv U ∧ U.conn = none ∧ Ahead S U)
    (fun U => (U.todo (.recv h)).length) ?_ ⟨hI, hc, .refl S⟩
  intro U hP
  obtain ⟨hU, hcU, ha⟩ := hP
  cases ht : U.todo (.recv h) with
  | nil =>
    left
    intro i hi
    rw [ht] at hi
    cases hi
  | cons i rest =>
    have hh := held_none_of_conn hcU (.recv h)
    rcases Option.eq_none_or_eq_some i.section with hb | ⟨body, hb⟩
    · rcases recvShape_head (ht ▸ hU.recv h) hb with ⟨hi, -⟩ | ⟨f, rfl, -⟩
      · exact .inl (settled_of_inLoop hU ht hi)
      · right
        have hn : U.next (.recv h) = some (.onFrame h f) := by rw [next_of_todo hh, ht]; rfl
        have ho : U.Orderly (.recv h, {}) := orderly_of_next hn hb rfl {}
        have hst := step_outside config {} hh ht hb rfl
        refine ⟨_, .one ho hst, ⟨hU.step ho hst, hcU, ha.trans (ahead_of_cons ht rfl rfl)⟩, ?_⟩
        show (Function.update U.todo (.recv h) rest (.recv h)).length < _
        rw [Function.update_self]
        exact Nat.lt_succ_self _
    · right
      have hready : ∀ k, (∃ j ∈ body, j.destroys U k) → U.Settled k := by
        intro k hd
        obtain ⟨j, hj, hdj⟩ := hd
        rcases section_inSection hU.stop hU.ping hU.recv ht hb j hj with hj | ⟨f, rfl⟩
        · exact absurd hdj (onConn_destroys hj)
        · exact hdj.elim
      obtain ⟨V, hlater, hV, hcV, hcalm⟩ := pass config hU hcU ht hb hready
      have hcons : Ahead U { U with conn := some (.recv h, body), todo := Function.update U.todo (.recv h) rest } :=
        ahead_of_cons ht rfl rfl
      refine ⟨V, hlater, ⟨hV, hcV, (ha.trans hcons).trans hcalm.ahead⟩, ?_⟩
      have hsuffix : V.todo (.recv h) <:+ Function.update U.todo (.recv h) rest (.recv h) := hcalm.suffix h
      rw [Function.update_self] at hsuffix
      exact Nat.lt_succ_of_le hsuffix.length_le

/-! ## The ping thread ends -/

/-- What the thread that calls `stop` sees of the others. -/
structure Stays (S S' : State) : Prop where
  stop : S'.todo .stop = S.todo .stop
  running : S'.running = S.running

theorem Stays.trans {S'' : State} (hs : Stays S S') (hs' : Stays S' S'') : Stays S S'' :=
  ⟨hs'.stop.trans hs.stop, hs'.running.trans hs.running⟩

theorem Ahead.stays (ha : Ahead S S') : Stays S S' := ⟨ha.stop, ha.running⟩

/-- The ping thread takes `connMutex_` once and goes on with the rest. -/
theorem ping_passes (config : AppConfig) (hI : Inv S) (hc : S.conn = none) (ht : S.todo .ping = i :: rest)
    (hb : i.section = some body) (hready : ∀ h, (∃ j ∈ body, j.destroys S h) → S.Settled h) :
    ∃ S', Later config S S' ∧ Inv S' ∧ S'.conn = none ∧ Stays S S' ∧ S'.todo .ping = rest := by
  obtain ⟨S', hlater, hI', hc', hcalm⟩ := pass config hI hc ht hb hready
  refine ⟨S', hlater, hI', hc', ⟨hcalm.stop.trans ?_, hcalm.running⟩, hcalm.ping.trans ?_⟩
  · exact Function.update_of_ne (show Thread.stop ≠ .ping by simp) rest S.todo
  · exact Function.update_self .ping rest S.todo

/-- The ping thread runs an instruction for which it does not need `connMutex_`. -/
theorem ping_runs (config : AppConfig) (hI : Inv S) (hc : S.conn = none) (ht : S.todo .ping = i :: rest)
    (hb : i.section = none) (hf : S.free i = true) (hi : i.reads = false) (hs : i ≠ .stop) :
    ∃ S', Later config S S' ∧ Inv S' ∧ S'.conn = none ∧ Stays S S' ∧
      S'.todo .ping = (S.effect config .ping {} i).2 ++ rest := by
  have hh := held_none_of_conn hc .ping
  have hn : S.next .ping = some i := by rw [next_of_todo hh, ht]; rfl
  have ho : S.Orderly (.ping, {}) := orderly_of_next hn hb hi {}
  have hst := step_outside config {} hh ht hb hf
  have hk := effect_kept config S .ping {} i
  refine ⟨_, .one ho hst, hI.step ho hst, hk.conn.trans hc, ⟨?_, ?_⟩, ?_⟩
  · show Function.update (S.effect config .ping {} i).1.todo .ping ((S.effect config .ping {} i).2 ++ rest) .stop = _
    rw [Function.update_of_ne (by simp), hk.todo]
  · rcases (effect_session config S .ping {} i).1 with he | he
    · exact he
    · exact absurd he hs
  · show Function.update (S.effect config .ping {} i).1.todo .ping ((S.effect config .ping {} i).2 ++ rest) .ping = _
    rw [Function.update_self]

/-- Once the session has stopped, a loop that is over is not begun again. -/
theorem ping_loops (config : AppConfig) (hI : Inv S) (hc : S.conn = none) (hr : S.running = false)
    (ht : S.todo .ping = [.pingLoop] ∨ S.todo .ping = [.wake]) :
    ∃ S', Later config S S' ∧ Inv S' ∧ S'.conn = none ∧ Stays S S' ∧ S'.todo .ping = [] := by
  rcases ht with ht | ht
  all_goals
    obtain ⟨S', hlater, hI', hc', hst, ht'⟩ := ping_runs config hI hc ht rfl rfl rfl (by simp)
    exact ⟨S', hlater, hI', hc', hst, by simpa [State.effect, hr] using ht'⟩

/-- For each connection it drops, the ping thread lets its receive thread hand out what it
    has, and then destroys it. -/
theorem ping_drops (config : AppConfig) (hs : List Handle) : ∀ {S : State}, Inv S → S.conn = none →
    S.running = false → S.todo .ping = hs.map .onDisconnect ++ [.pingLoop] →
    ∃ S', Later config S S' ∧ Inv S' ∧ S'.conn = none ∧ Stays S S' ∧ S'.todo .ping = [] := by
  induction hs with
  | nil => exact fun hI hc hr ht => ping_loops config hI hc hr (.inl ht)
  | cons k hs ih =>
    intro S hI hc hr ht
    obtain ⟨U, hlater, ⟨hU, hcU, ha⟩, hset⟩ := drain config hI hc k
    have hready : ∀ h, (∃ j ∈ [Instr.erase k], j.destroys U h) → U.Settled h := by
      intro h hd
      obtain ⟨j, hj, hdj⟩ := hd
      cases List.mem_singleton.mp hj
      cases hdj.1
      exact hset
    obtain ⟨V, hlater', hV, hcV, hst, htV⟩ := ping_passes config hU hcU (ha.ping.trans ht) rfl hready
    have hstays : Stays S V := ha.stays.trans hst
    obtain ⟨W, hlater'', hW, hcW, hst', htW⟩ := ih hV hcV (hstays.running.trans hr) htV
    exact ⟨W, (hlater.trans hlater').trans hlater'', hW, hcW, hstays.trans hst', htW⟩

theorem ping_reaps (config : AppConfig) (hI : Inv S) (hc : S.conn = none) (hr : S.running = false)
    (ht : S.todo .ping = [.reap]) :
    ∃ S', Later config S S' ∧ Inv S' ∧ S'.conn = none ∧ Stays S S' ∧ S'.todo .ping = [] := by
  obtain ⟨U, hlater, hU, hcU, hst, htU⟩ := ping_runs config hI hc ht rfl rfl rfl (by simp)
  obtain ⟨V, hlater', hV, hcV, hst', htV⟩ := ping_drops config S.dead.reverse hU hcU (hst.running.trans hr)
    (htU.trans (List.append_nil _))
  exact ⟨V, hlater.trans hlater', hV, hcV, hst.trans hst', htV⟩

/-- Wherever the ping thread is in its loop, it ends once the session has stopped. -/
theorem ping_ends (config : AppConfig) (hI : Inv S) (hc : S.conn = none) (hr : S.running = false) :
    ∃ S', Later config S S' ∧ Inv S' ∧ S'.conn = none ∧ Stays S S' ∧ S'.todo .ping = [] := by
  rcases hI.ping with ⟨hs, ht⟩ | ht | ht | ht | ht
  · exact ping_drops config hs hI hc hr ht
  · exact ping_loops config hI hc hr (.inr ht)
  · have hready : ∀ h, (∃ j ∈ [Instr.pingAll], j.destroys S h) → S.Settled h := by
      intro h hd
      obtain ⟨j, hj, hdj⟩ := hd
      cases List.mem_singleton.mp hj
      exact hdj.elim
    obtain ⟨U, hlater, hU, hcU, hst, htU⟩ := ping_passes config hI hc ht rfl hready
    obtain ⟨V, hlater', hV, hcV, hst', htV⟩ := ping_reaps config hU hcU (hst.running.trans hr) htU
    exact ⟨V, hlater.trans hlater', hV, hcV, hst.trans hst', htV⟩
  · exact ping_reaps config hI hc hr ht
  · exact ⟨S, .init, hI, hc, ⟨rfl, rfl⟩, ht⟩

/-! ## No deadlock -/

theorem enabled_of_next (config : AppConfig) (hn : S.next t = some i) (hb : i.section = none) (hf : S.free i = true) :
    S.Enabled config t := by
  refine ⟨{}, ?_⟩
  rcases Option.eq_none_or_eq_some (S.held t) with hh | ⟨body, hh⟩
  · obtain ⟨rest, ht⟩ := List.head?_eq_some_iff.mp (next_of_todo hh ▸ hn)
    rw [step_outside config {} hh ht hb hf]
    rfl
  · obtain ⟨rest, ht⟩ := List.head?_eq_some_iff.mp (next_of_held hh ▸ hn)
    rw [step_inside config {} (ht ▸ held_iff.mp hh) hf]
    rfl

/-- Each thread that has not ended comes to go on. -/
theorem goes_on (config : AppConfig) (hI : Inv S) (hu : S.finished t = false) :
    ∃ S', Later config S S' ∧ S'.Enabled config t := by
  rcases Option.eq_none_or_eq_some (S.held t) with hh | ⟨body, hh⟩
  · cases ht : S.todo t with
    | nil => simp [State.finished, ht, hh] at hu
    | cons i rest =>
      have hn : S.next t = some i := by rw [next_of_todo hh, ht]; rfl
      rcases Option.eq_none_or_eq_some i.section with hb | ⟨body, hb⟩
      · have hnow : S.free i = true → ∃ S', Later config S S' ∧ S'.Enabled config t :=
          fun hf => ⟨S, .init, enabled_of_next config hn hb hf⟩
        cases i with
        | lockSend h f checked =>
          rcases Option.eq_none_or_eq_some (S.send h) with hs | ⟨u, hs⟩
          · exact hnow (by simp [State.free, hs])
          · have hut : t ≠ u := by
              intro he
              subst he
              obtain ⟨f', checked', hn'⟩ := hI.send h t hs
              cases hn.symm.trans hn'
            obtain ⟨ho, S', hst, hsend⟩ := let_go config hI hs
            refine ⟨S', .one ho hst, enabled_of_next config ((next_other (step_cases hst) hut).trans hn) rfl ?_⟩
            simp [State.free, hsend]
        | join h => exact absurd (ht ▸ List.mem_cons_self) (no_join_todo hI t)
        | joinPing =>
          have hstop : t = .stop := joinPing_todo hI (ht ▸ List.mem_cons_self)
          subst hstop
          have hr := hI.stopping (ht ▸ List.mem_cons_self)
          obtain ⟨U, hlater, ⟨hU, hcalm⟩, hcU⟩ := release config hI
          obtain ⟨V, hlater', hV, hcV, hst, hping⟩ := ping_ends config hU hcU (hcalm.running.trans hr)
          have hnV : V.next .stop = some .joinPing := by
            rw [next_of_todo (held_none_of_conn hcV .stop), hst.stop, hcalm.stop, ht]
            rfl
          refine ⟨V, hlater.trans hlater', enabled_of_next config hnV rfl ?_⟩
          simp [State.free, State.finished, hping, held_none_of_conn hcV]
        | _ => exact hnow rfl
      · obtain ⟨S', hlater, ⟨hI', hcalm⟩, hc⟩ := release config hI
        have htodo : S'.todo t = i :: rest := (hcalm.todo ht (by simp [hb])).trans ht
        refine ⟨S', hlater, {}, ?_⟩
        rw [step_enter config {} hc htodo hb]
        rfl
  · have hc := held_iff.mp hh
    cases body with
    | nil =>
      refine ⟨S, .init, {}, ?_⟩
      rw [step_leave config {} hc]
      rfl
    | cons i body =>
      obtain ⟨S', hlater, hI', -, hconn, -, hf⟩ := comes_free config hI hc
      have hn : S'.next t = some i := next_of_held (held_iff.mpr (hconn.trans hc))
      exact ⟨S', hlater, enabled_of_next config hn (hI.body t _ hc i List.mem_cons_self).noSection hf⟩

/-- No run of orderly steps, from a running session, leads to a deadlock. -/
theorem no_deadlock (config : AppConfig) (hs : List Handle) (objs : Handle → Connection)
    (hr : Machine.Reach (State.step config) State.Orderly (State.initial hs objs) S) : S.Unblocked config := by
  have hI : Inv S := (inv_initial hs objs).reach hr
  refine ⟨?_, ?_, ?_⟩
  · intro t hb
    obtain ⟨S', hlater, he⟩ := goes_on config hI hb.1
    exact hb.2 S' (hlater.mono fun _ _ _ => trivial) he
  · intro h hn hw
    obtain ⟨hh, ⟨i, body, hi, hb⟩, -⟩ := hw
    have hd : S.Doomed h := by
      rcases Option.eq_none_or_eq_some (S.held .stop) with hh | ⟨body, hh⟩
      · exact absurd (next_mem hh hn) (no_join_todo hI .stop)
      · rw [next_of_held hh] at hn
        exact ⟨.stop, body, held_iff.mp hh, .join h, List.mem_of_head? hn, rfl⟩
    rw [hI.doomed h hd i (next_mem hh hi)] at hb
    cases hb
  · intro h hn
    rcases Option.eq_none_or_eq_some (S.held (.recv h)) with hh | ⟨body, hh⟩
    · exact no_join_todo hI (.recv h) (next_mem hh hn)
    · rw [next_of_held hh] at hn
      rcases hI.body _ _ (held_iff.mp hh) _ (List.mem_of_head? hn) with hj | ⟨f, hj⟩ <;> cases hj

/-- Orderly steps of a session whose connections are not read and have no frame in hand. -/
def State.idle (S : State) (l : Thread × Choice) : Bool :=
  (S.next l.1).all (fun i => !i.reads) && S.connections.all fun h => (S.todo (.recv h)).all fun i => i.section.isNone

theorem orderly_of_idle {l : Thread × Choice} (hs : S.idle l = true) : S.Orderly l := by
  obtain ⟨hn, hsettled⟩ := (Bool.and_eq_true _ _).mp hs
  refine orderly_of_quiet ?_ l.2 ?_
  · intro i hi
    rw [hi] at hn
    simpa using hn
  intro i body h _ _ hb hd
  obtain ⟨j, hj, hdj⟩ := hd
  have hm : h ∈ S.connections := by
    cases j with
    | erase k => exact hdj.2
    | clear => exact hdj
    | join k => exact absurd rfl (section_no_join hb hj)
    | _ => exact hdj.elim
  intro i hi
  exact Option.isNone_iff_eq_none.mp (List.all_eq_true.mp (List.all_eq_true.mp hsettled h hm) i hi)

def State.joins (S : State) (t : Thread) (h : Handle) : Bool :=
  match S.conn with
  | some (u, .join k :: _) => u == t && k == h
  | _ => false

theorem joins_conn (hj : S.joins t h = true) : ∃ body, S.conn = some (t, .join h :: body) := by
  unfold State.joins at hj
  split at hj
  · rename_i u k body hc
    obtain ⟨hu, hk⟩ := (Bool.and_eq_true _ _).mp hj
    cases beq_iff_eq.mp hu
    cases beq_iff_eq.mp hk
    exact ⟨body, hc⟩
  · cases hj

/-- The threads take turns; nothing is read, and all is sent. -/
def turns (ts : List Thread) : List (Thread × Choice) := ts.map fun t => (t, {})

/-- `stop` joins the receive thread of its only connection. -/
theorem no_deadlock_stopped :
    ∃ S, Machine.Reach (State.step {}) State.Orderly (State.initial [0] fun _ => { running := true }) S ∧
      S.next .stop = some (.join 0) ∧ S.finished (.recv 0) = false ∧ S.Unblocked {} := by
  have hrun : ((Machine.run (Machine.checked (State.step {}) State.idle)
      (State.initial [0] fun _ => { running := true }) (turns (.stop :: .ping :: List.replicate 14 .stop))).map
      fun S => S.joins .stop 0 && !S.finished (.recv 0)) = some true := by decide +kernel
  obtain ⟨S, hS, hp⟩ := Machine.reach_of_run (fun _ _ _ hc => orderly_of_idle hc) hrun
  obtain ⟨hj, hfin⟩ := (Bool.and_eq_true _ _).mp hp
  obtain ⟨body, hc⟩ := joins_conn hj
  exact ⟨S, hS, next_of_held (held_iff.mpr hc), by simpa using hfin, no_deadlock {} [0] _ hS⟩

/-! ## Deadlocks -/

/-- A join under `connMutex_` of the thread itself, or of one that waits for `connMutex_`,
    lasts for ever. -/
theorem join_blocks (config : AppConfig) (hc : S.conn = some (t, .join h :: body))
    (hw : t = .recv h ∨ ∃ i rest, S.todo (.recv h) = i :: rest ∧ i.section ≠ none) : S.BlockedForever config t := by
  let P (U : State) : Prop := U.conn = some (t, .join h :: body) ∧
    (t = .recv h ∨ ∃ i rest, U.todo (.recv h) = i :: rest ∧ i.section ≠ none)
  have hbusy : ∀ U, P U → U.finished (.recv h) = false := by
    intro U hP
    obtain ⟨hc, rfl | ⟨i, rest, ht, -⟩⟩ := hP
    · simp [State.finished, held_iff.mpr hc]
    · simp [State.finished, ht]
  have hstep : ∀ U l U', P U → True → U.step config l = some U' → P U' := by
    intro U l U' hP _ hst
    obtain ⟨u, ch⟩ := l
    have hblocked := hbusy U hP
    obtain ⟨hc, hw⟩ := hP
    cases step_cases hst with
    | leave hc' he => rw [hc] at hc'; cases hc'
    | inside i b hc' hf he =>
      rw [hc] at hc'
      cases hc'
      rw [show U.free (.join h) = U.finished (.recv h) from rfl, hblocked] at hf
      cases hf
    | enter i rest b hc' ht hb he => rw [hc] at hc'; cases hc'
    | outside i rest hh ht hb hf he =>
      subst he
      have hk := effect_kept config U u ch i
      refine ⟨hk.conn.trans hc, ?_⟩
      rcases hw with hw | ⟨j, rest', ht', hj⟩
      · exact .inl hw
      · have hne : .recv h ≠ u := by
          intro he
          subst he
          rw [ht] at ht'
          cases ht'
          exact hj hb
        refine .inr ⟨j, rest', ?_, hj⟩
        show Function.update (U.effect config u ch i).1.todo u ((U.effect config u ch i).2 ++ rest) (.recv h) = _
        rw [Function.update_of_ne hne, hk.todo, ht']
  refine ⟨by simp [State.finished, held_iff.mpr hc], ?_⟩
  intro S' hr he
  obtain ⟨ch, he⟩ := he
  obtain ⟨U, hst⟩ := Option.isSome_iff_exists.mp he
  have hP : P S' := hr.invariant ⟨hc, hw⟩ hstep
  have hbusy' := hbusy S' hP
  cases step_cases hst with
  | leave hc' _ => rw [hP.1] at hc'; cases hc'
  | inside i b hc' hf _ =>
    rw [hP.1] at hc'
    cases hc'
    rw [show S'.free (.join h) = S'.finished (.recv h) from rfl, hbusy'] at hf
    cases hf
  | enter i rest b hc' _ _ _ => rw [hP.1] at hc'; cases hc'
  | outside i rest hh _ _ _ _ => rw [held_iff.mpr hP.1] at hh; cases hh

/-- The bytes of a PING. -/
def pingBytes : Bytes := (Frame.create .PING (str "{}")).serialize

/-- The peer closes first, and the receive thread joins itself; or `stop` comes while a frame
    is handed out, and joins a receive thread that waits for `connMutex_`. -/
theorem deadlocks :
    (∃ S, Machine.Reach (State.step {}) (fun _ _ => True) (State.initial [0] fun _ => { running := true }) S ∧
      S.next (.recv 0) = some (.join 0) ∧ S.BlockedForever {} (.recv 0) ∧ ¬ S.Unblocked {}) ∧
    ∃ S, Machine.Reach (State.step {}) (fun _ _ => True) (State.initial [0] fun _ => { running := true }) S ∧
      S.next .stop = some (.join 0) ∧ S.WaitsConn (.recv 0) ∧ S.BlockedForever {} .stop ∧ ¬ S.Unblocked {} := by
  constructor
  · have hrun : ((Machine.run (Machine.checked (State.step {}) fun _ _ => true)
        (State.initial [0] fun _ => { running := true }) (turns (List.replicate 9 (.recv 0)))).map
        fun S => S.joins (.recv 0) 0) = some true := by decide +kernel
    obtain ⟨S, hS, hj⟩ := Machine.reach_of_run (fun _ _ _ _ => trivial) hrun
    obtain ⟨body, hc⟩ := joins_conn hj
    have hb : S.BlockedForever {} (.recv 0) := join_blocks {} hc (.inl rfl)
    exact ⟨S, hS, next_of_held (held_iff.mpr hc), hb, fun hu => hu.forever _ hb⟩
  · have hrun : ((Machine.run (Machine.checked (State.step {}) fun _ _ => true)
        (State.initial [0] fun _ => { running := true })
        ((.recv 0, {}) :: (.recv 0, { data := some pingBytes }) ::
          turns (.stop :: .ping :: List.replicate 14 .stop))).map
        fun S => S.joins .stop 0 && ((S.todo (.recv 0)).head?.bind Instr.section).isSome) = some true := by
      decide +kernel
    obtain ⟨S, hS, hp⟩ := Machine.reach_of_run (fun _ _ _ _ => trivial) hrun
    obtain ⟨hj, hw⟩ := (Bool.and_eq_true _ _).mp hp
    obtain ⟨body, hc⟩ := joins_conn hj
    obtain ⟨b, hb⟩ := Option.isSome_iff_exists.mp hw
    obtain ⟨i, hi, hb⟩ := Option.bind_eq_some_iff.mp hb
    obtain ⟨rest, ht⟩ := List.head?_eq_some_iff.mp hi
    have hh : S.held (.recv 0) = none := held_none_of_ne hc (by simp)
    have hblocked : S.BlockedForever {} .stop := join_blocks {} hc (.inr ⟨i, rest, ht, by simp [hb]⟩)
    refine ⟨S, hS, next_of_held (held_iff.mpr hc), ⟨hh, ⟨i, b, ?_, hb⟩, by simp [hc]⟩, hblocked,
      fun hu => hu.forever _ hblocked⟩
    rw [next_of_todo hh, hi]

end

end LanTalk.Chat
