/-
  LanTalk.Network.Sending — the bytes a connection hands to its socket
  (`Connection::send` and `disconnect` of `src/network/connection.cpp`, `TcpSocket::sendAll`
  of `src/network/tcp_socket.cpp`).

  Any number of threads call `send`, each for one frame at a time. A call checks `running_`
  and serializes its frame, waits for `sendMutex_`, checks the handle, and hands the kernel
  what is left of the frame until all of it is taken. Of each piece the kernel takes a part,
  asks for another try (EINTR, EAGAIN), or reports an error, at which the call returns false.
  The socket may be closed and `running_` cleared at any moment; a closed handle takes
  nothing. `wire` is what the kernel took, in order; `finished` the calls that got the mutex
  and returned. A frame has less than 2 GiB: the length is passed as an `int`.

  An error does not stop the connection: unless the caller drops it, as `pingLoop` does, the
  next call goes ahead, and its frame stands behind the part of one.

  Proved, for every interleaving of the calls and all outcomes:
  - `wire_eq`: the calls' bytes never mix: the wire holds, in the order in which they had the
    mutex, what the kernel took of each call's frame, from its start on.
  - `framed_while_whole`: the wire is whole frames and then at most one that is cut, after
    which nothing is written, in every run in which the kernel takes no byte after an error
    in the middle of a frame; `cut_frame_goes_on` is one in which it does.
-/

import LanTalk.Lib.Machine
import LanTalk.Network.Stream

namespace LanTalk.Network

open LanTalk.Lib LanTalk.Lib.Machine

/-- What `::send` answers. -/
inductive Outcome where
  | took (n : Nat)
  | again
  | hard
  deriving DecidableEq, Repr

/-- Where a thread is in its call of `send`. -/
inductive SendPhase where
  | idle
  /-- Past the check of `running_`, before the mutex. -/
  | waiting (frame : Frame)
  /-- With the mutex, before `sendAll` checks the handle. -/
  | locked (frame : Frame)
  /-- In `sendAll`'s loop. -/
  | writing (frame : Frame) (totalSent : Nat)
  deriving DecidableEq, Repr

def SendPhase.holds : SendPhase → Bool
  | .idle | .waiting _ => false
  | .locked _ | .writing _ _ => true

/-- The bytes of the phase's frame that the kernel has taken. -/
def SendPhase.bytes : SendPhase → Bytes
  | .idle | .waiting _ | .locked _ => []
  | .writing frame totalSent => frame.serialize.take totalSent

def SendPhase.frame? : SendPhase → Option Frame
  | .idle | .waiting _ => none
  | .locked frame | .writing frame _ => some frame

/-- A call that had the mutex: its frame, how much of it the kernel took, and what it
    returned. -/
structure SendCall where
  frame : Frame
  taken : Nat
  result : Bool
  deriving DecidableEq, Repr

def SendCall.bytes (c : SendCall) : Bytes := c.frame.serialize.take c.taken

/-- The kernel took all of its frame, or nothing. -/
def SendCall.Whole (c : SendCall) : Prop := c.taken = 0 ∨ c.taken = c.frame.serialize.length

instance (c : SendCall) : Decidable c.Whole := inferInstanceAs (Decidable (_ ∨ _))

structure Outgoing (θ : Type) where
  running : Bool
  /-- The handle is valid. -/
  valid : Bool
  owner : Option θ
  phase : θ → SendPhase
  wire : Bytes
  /-- Oldest first. -/
  finished : List SendCall

inductive SendStep (θ : Type) where
  | start
  | halt
  | close
  | send (t : θ) (frame : Frame)
  | lock (t : θ)
  | check (t : θ)
  | kernel (t : θ) (o : Outcome)
  | ret (t : θ)

namespace Outgoing

variable {θ : Type}

def init : Outgoing θ :=
  { running := false, valid := true, owner := none, phase := fun _ => .idle, wire := [], finished := [] }

/-- The bytes of the call that has the mutex. -/
def current (s : Outgoing θ) : Bytes :=
  match s.owner with
  | none => []
  | some t => (s.phase t).bytes

/-- The frames of the calls that had or have the mutex, in that order. -/
def frames (s : Outgoing θ) : List Frame :=
  s.finished.map SendCall.frame ++
    match s.owner with
    | none => []
    | some t => (s.phase t).frame?.toList

/-- In `writing` the kernel has taken no more than there is. -/
def Within (s : Outgoing θ) : Prop :=
  ∀ t frame n, s.phase t = .writing frame n → n ≤ frame.serialize.length

theorem current_none {s : Outgoing θ} (h : s.owner = none) : s.current = [] := by rw [current, h]

theorem current_some {s : Outgoing θ} {t : θ} (h : s.owner = some t) : s.current = (s.phase t).bytes := by
  rw [current, h]

/-- What every step keeps. -/
structure Inv (s : Outgoing θ) : Prop where
  /-- A thread is inside just if it has the mutex. -/
  inside : ∀ t, (s.phase t).holds = true ↔ s.owner = some t
  within : s.Within
  /-- The calls' bytes, one call after the other, and those of the call that goes on. -/
  wire_eq : s.wire = s.finished.flatMap SendCall.bytes ++ s.current
  returned : ∀ c ∈ s.finished, c.taken ≤ c.frame.serialize.length ∧
    c.result = decide (c.frame.serialize.length ≤ c.taken)

theorem init_inv : Inv (init : Outgoing θ) where
  inside t := by simp [init, SendPhase.holds]
  within t frame n h := by cases h
  wire_eq := rfl
  returned c hc := by cases hc

variable [DecidableEq θ]

def put (s : Outgoing θ) (t : θ) (p : SendPhase) : Outgoing θ := { s with phase := Function.update s.phase t p }

/-- A call returns, and gives up the mutex. -/
def finish (s : Outgoing θ) (t : θ) (c : SendCall) : Outgoing θ :=
  { s with owner := none, phase := Function.update s.phase t .idle, finished := s.finished ++ [c] }

def step (s : Outgoing θ) : SendStep θ → Option (Outgoing θ)
  | .start => some { s with running := true }
  | .halt => some { s with running := false }
  | .close => some { s with valid := false }
  | .send t frame =>
    match s.phase t with
    | .idle => some (if s.running then s.put t (.waiting frame) else s)
    | _ => none
  | .lock t =>
    match s.phase t, s.owner with
    | .waiting frame, none => some { s.put t (.locked frame) with owner := some t }
    | _, _ => none
  | .check t =>
    match s.phase t with
    | .locked frame =>
      some (if s.valid then s.put t (.writing frame 0)
        else s.finish t { frame := frame, taken := 0, result := false })
    | _ => none
  | .kernel t o =>
    match s.phase t with
    | .writing frame totalSent =>
      let data := frame.serialize
      if totalSent < data.length then
        match o with
        | .took n =>
          if s.valid ∧ n ≤ data.length - totalSent then
            some { s.put t (.writing frame (totalSent + n)) with wire := s.wire ++ (data.drop totalSent).take n }
          else none
        | .again => some s
        | .hard => some (s.finish t { frame := frame, taken := totalSent, result := false })
      else none
    | _ => none
  | .ret t =>
    match s.phase t with
    | .writing frame totalSent =>
      if totalSent < frame.serialize.length then none
      else some (s.finish t { frame := frame, taken := totalSent, result := true })
    | _ => none

section
variable {s : Outgoing θ} {t u : θ} {p : SendPhase}

@[simp] theorem put_phase_same : (s.put t p).phase t = p := by simp [put]

theorem put_phase_ne (h : u ≠ t) : (s.put t p).phase u = s.phase u := by simp [put, h]

end

/-! ## Steps -/

/-- What a step can do: nothing to the calls, a move of one thread outside the mutex, its
    taking the mutex, the way into the loop, a piece taken, or a return. -/
inductive Move (s : Outgoing θ) : Outgoing θ → Prop
  | flags (running valid : Bool) : Move s { s with running := running, valid := valid }
  | begin (t : θ) (frame : Frame) (h : s.phase t = .idle) : Move s (s.put t (.waiting frame))
  | lock (t : θ) (frame : Frame) (h : s.phase t = .waiting frame) (ho : s.owner = none) :
      Move s { s.put t (.locked frame) with owner := some t }
  | enter (t : θ) (frame : Frame) (h : s.phase t = .locked frame) : Move s (s.put t (.writing frame 0))
  | took (t : θ) (frame : Frame) (totalSent n : Nat) (h : s.phase t = .writing frame totalSent)
      (hn : totalSent + n ≤ frame.serialize.length) :
      Move s { s.put t (.writing frame (totalSent + n)) with
                 wire := s.wire ++ (frame.serialize.drop totalSent).take n }
  | finish (t : θ) (c : SendCall) (hp : (s.phase t).holds = true) (hf : (s.phase t).frame? = some c.frame)
      (hb : (s.phase t).bytes = c.bytes) (hl : c.taken ≤ c.frame.serialize.length)
      (hr : c.result = decide (c.frame.serialize.length ≤ c.taken)) : Move s (s.finish t c)

theorem serialize_length (f : Frame) : 12 ≤ f.serialize.length := by
  rw [Frame.serialize, List.length_append, header_serialize_length]
  exact Nat.le_add_right _ _

theorem step_move {s s' : Outgoing θ} {l : SendStep θ} (hw : s.Within) (h : step s l = some s') : Move s s' := by
  cases l with
  | start => cases h; exact .flags true s.valid
  | halt => cases h; exact .flags false s.valid
  | close => cases h; exact .flags s.running false
  | send t frame =>
    cases hp : s.phase t with
    | idle =>
      simp only [step, hp, Option.some.injEq] at h
      split at h
      · exact h ▸ .begin t frame hp
      · exact h ▸ .flags s.running s.valid
    | _ => simp [step, hp] at h
  | lock t =>
    cases hp : s.phase t with
    | waiting frame =>
      cases ho : s.owner with
      | none =>
        simp only [step, hp, ho, Option.some.injEq] at h
        exact h ▸ .lock t frame hp ho
      | some u => simp [step, hp, ho] at h
    | _ => simp [step, hp] at h
  | check t =>
    cases hp : s.phase t with
    | locked frame =>
      simp only [step, hp, Option.some.injEq] at h
      split at h
      · exact h ▸ .enter t frame hp
      · have hlen := serialize_length frame
        refine h ▸ .finish t _ (by rw [hp]; rfl) (by rw [hp]; rfl) (by rw [hp]; rfl) (Nat.zero_le _) ?_
        show false = decide (frame.serialize.length ≤ 0)
        exact (decide_eq_false (by omega)).symm
    | _ => simp [step, hp] at h
  | kernel t o =>
    cases hp : s.phase t with
    | writing frame totalSent =>
      simp only [step, hp] at h
      split at h
      · rename_i hlt
        cases o with
        | took n =>
          simp only at h
          split at h
          · rename_i hok
            cases h
            exact .took t frame totalSent n hp (by omega)
          · cases h
        | again => cases h; exact .flags s.running s.valid
        | hard =>
          cases h
          refine .finish t _ (by rw [hp]; rfl) (by rw [hp]; rfl) (by rw [hp]; rfl) (Nat.le_of_lt hlt) ?_
          exact (decide_eq_false (Nat.not_le.mpr hlt)).symm
      · cases h
    | _ => simp [step, hp] at h
  | ret t =>
    cases hp : s.phase t with
    | writing frame totalSent =>
      simp only [step, hp] at h
      split at h
      · cases h
      · rename_i hge
        cases h
        refine .finish t _ (by rw [hp]; rfl) (by rw [hp]; rfl) (by rw [hp]; rfl) (hw t frame totalSent hp) ?_
        exact (decide_eq_true (Nat.not_lt.mp hge)).symm
    | _ => simp [step, hp] at h

/-! ## What every step keeps -/

section
variable {s : Outgoing θ} {t : θ} {p : SendPhase} {o : Option θ}

/-- Who is inside, once `t` has a new phase. -/
theorem inside_put (ht : p.holds = true ↔ o = some t)
    (hother : ∀ u, u ≠ t → ((s.phase u).holds = true ↔ o = some u)) (u : θ) :
    ((s.put t p).phase u).holds = true ↔ o = some u := by
  by_cases hut : u = t
  · rw [hut, put_phase_same]
    exact ht
  · rw [put_phase_ne hut]
    exact hother u hut

theorem within_put (hw : s.Within) (hp : ∀ frame n, p = .writing frame n → n ≤ frame.serialize.length) :
    (s.put t p).Within := by
  intro u frame n hu
  by_cases hut : u = t
  · rw [hut, put_phase_same] at hu
    exact hp frame n hu
  · rw [put_phase_ne hut] at hu
    exact hw u frame n hu

theorem current_put (ho : s.owner = some t) : (s.put t p).current = p.bytes := by
  rw [current_some (s := s.put t p) ho, put_phase_same]

/-- The phase of a thread without the mutex does not show. -/
theorem current_put_out (hi : Inv s) (hout : (s.phase t).holds = false) : (s.put t p).current = s.current := by
  cases ho : s.owner with
  | none => rw [current_none ho, current_none (s := s.put t p) ho]
  | some u =>
    have hne : u ≠ t := fun e => by
      rw [← e, (hi.inside u).mpr ho] at hout
      cases hout
    rw [current_some ho, current_some (s := s.put t p) ho, put_phase_ne hne]

end

theorem move_inv {s s' : Outgoing θ} (hi : Inv s) (h : Move s s') : Inv s' := by
  have hinside : ∀ {t : θ}, ∀ u, u ≠ t → ((s.phase u).holds = true ↔ s.owner = some u) := fun u _ => hi.inside u
  cases h with
  | flags running valid => exact ⟨hi.inside, hi.within, hi.wire_eq, hi.returned⟩
  | begin t frame hp =>
    have hout : (s.phase t).holds = false := by rw [hp]; rfl
    have hnot : (SendPhase.waiting frame).holds = true ↔ s.owner = some t := by
      rw [← hi.inside t, hout]
      rfl
    refine ⟨inside_put hnot hinside, within_put hi.within fun _ _ he => (by cases he), ?_, hi.returned⟩
    rw [current_put_out hi hout]
    exact hi.wire_eq
  | lock t frame hp ho =>
    have hother : ∀ u, u ≠ t → ((s.phase u).holds = true ↔ some t = some u) := by
      intro u hut
      have hnot : ¬ (s.phase u).holds = true := by rw [hi.inside, ho]; simp
      simp [hnot, Ne.symm hut]
    refine ⟨inside_put ⟨fun _ => rfl, fun _ => rfl⟩ hother, within_put hi.within fun _ _ he => (by cases he), ?_,
      hi.returned⟩
    have hnow : ({ s.put t (.locked frame) with owner := some t } : Outgoing θ).current = [] := by
      rw [current_some rfl]
      show ((s.put t (.locked frame)).phase t).bytes = []
      rw [put_phase_same]
      rfl
    rw [hnow, ← current_none ho]
    exact hi.wire_eq
  | enter t frame hp =>
    have ho : s.owner = some t := (hi.inside t).mp (by rw [hp]; rfl)
    refine ⟨inside_put ⟨fun _ => ho, fun _ => rfl⟩ hinside,
      within_put hi.within fun _ _ he => (by cases he; exact Nat.zero_le _), ?_, hi.returned⟩
    have hnow : (s.put t (.writing frame 0)).current = s.current := by
      rw [current_put ho, current_some ho, hp]
      rfl
    rw [hnow]
    exact hi.wire_eq
  | took t frame totalSent n hp hn =>
    have ho : s.owner = some t := (hi.inside t).mp (by rw [hp]; rfl)
    refine ⟨inside_put ⟨fun _ => ho, fun _ => rfl⟩ hinside,
      within_put hi.within fun _ _ he => (by cases he; exact hn), ?_, hi.returned⟩
    have hbefore : s.current = frame.serialize.take totalSent := by rw [current_some ho, hp]; rfl
    show s.wire ++ (frame.serialize.drop totalSent).take n =
      s.finished.flatMap SendCall.bytes ++ (s.put t (.writing frame (totalSent + n))).current
    rw [current_put ho, SendPhase.bytes, List.take_add, hi.wire_eq, hbefore, List.append_assoc]
  | finish t c hp hf hb hl hr =>
    have ho : s.owner = some t := (hi.inside t).mp hp
    have hother : ∀ u, u ≠ t → ((s.phase u).holds = true ↔ none = some u) := by
      intro u hut
      have hnot : ¬ (s.phase u).holds = true := by
        rw [hi.inside, ho, Option.some.injEq]
        exact Ne.symm hut
      simp [hnot]
    have hidle : SendPhase.idle.holds = true ↔ none = some t := by simp [SendPhase.holds]
    refine ⟨inside_put hidle hother,
      within_put (t := t) (p := .idle) hi.within fun _ _ he => (by cases he), ?_, fun x hx => ?_⟩
    · show s.wire = (s.finished ++ [c]).flatMap SendCall.bytes ++ []
      rw [hi.wire_eq, current_some ho, hb]
      simp
    · rcases List.mem_append.mp hx with hx | hx
      · exact hi.returned x hx
      · rw [List.mem_singleton.mp hx]
        exact ⟨hl, hr⟩

theorem reach_inv {allowed : Outgoing θ → SendStep θ → Prop} {s : Outgoing θ} (h : Reach step allowed init s) :
    Inv s :=
  h.invariant init_inv fun _ _ _ hi _ hs => move_inv hi (step_move hi.within hs)

/-- However the calls interleave and whatever the kernel answers, the wire holds the bytes
    taken of each call's frame, in the order of the calls' turns with the mutex. -/
theorem wire_eq {s : Outgoing θ} (h : Reach step (fun _ _ => True) init s) :
    s.wire = s.finished.flatMap SendCall.bytes ++ s.current :=
  (reach_inv h).wire_eq

/-- A call that returned is `sendAll` with the bytes the kernel took. -/
theorem finished_sendAll {s : Outgoing θ} (h : Reach step (fun _ _ => True) init s) :
    ∀ c ∈ s.finished, (c.result, c.bytes) = sendAll c.taken c.frame.serialize := by
  intro c hc
  rw [((reach_inv h).returned c hc).2]
  rfl

/-! ## Framing -/

/-- The kernel takes bytes only while no call was ended by an error in the middle of its
    frame. -/
def Obeys (s : Outgoing θ) (l : SendStep θ) : Prop :=
  ∀ t n, l = .kernel t (.took n) → 0 < n → ∀ c ∈ s.finished, c.Whole

/-- Whole frames of `sent`, in their order, and then at most a part of one. -/
def Framed (sent : List Frame) (wire : Bytes) : Prop :=
  ∃ (fs : List Frame) (part : Bytes), fs.Sublist sent ∧ wire = fs.flatMap Frame.serialize ++ part ∧
    (part = [] ∨ ∃ f ∈ sent, part <+: f.serialize ∧ part ≠ f.serialize)

/-- Either no call was cut, or one was and nothing was written since. -/
def Standing (s : Outgoing θ) : Prop :=
  (∀ c ∈ s.finished, c.Whole) ∨
  ∃ before c after, s.finished = before ++ c :: after ∧ (∀ x ∈ before, x.Whole) ∧ (∀ x ∈ after, x.taken = 0) ∧
    s.current = []

/-- A step leaves the calls that returned, or adds the one that was going on. -/
theorem move_finished {s s' : Outgoing θ} (hi : Inv s) (h : Move s s') :
    s'.finished = s.finished ∨ ∃ c, s'.finished = s.finished ++ [c] ∧ c.bytes = s.current ∧ s'.current = [] := by
  cases h with
  | finish t c hp hf hb hl hr =>
    have ho : s.owner = some t := (hi.inside t).mp hp
    exact Or.inr ⟨c, rfl, by rw [current_some ho, hb], current_none rfl⟩
  | _ => exact Or.inl rfl

/-- Only a piece that the kernel takes changes the wire. -/
theorem step_wire {s s' : Outgoing θ} {l : SendStep θ} (ha : Obeys s l) (h : step s l = some s')
    (hcut : ¬ ∀ c ∈ s.finished, c.Whole) : s'.wire = s.wire := by
  by_cases hl : ∃ t n, l = .kernel t (.took n)
  · obtain ⟨t, n, rfl⟩ := hl
    have hn : n = 0 := by
      by_contra hne
      exact hcut (ha t n rfl (Nat.pos_of_ne_zero hne))
    subst hn
    cases hp : s.phase t with
    | writing frame totalSent =>
      simp only [step, hp, List.take_zero, List.append_nil] at h
      split at h
      · split at h
        · cases h; rfl
        · cases h
      · cases h
    | _ => simp [step, hp] at h
  · cases l with
    | kernel t o =>
      cases hp : s.phase t with
      | writing frame totalSent =>
        simp only [step, hp] at h
        split at h
        · cases o with
          | took n => exact absurd ⟨t, n, rfl⟩ hl
          | again => cases h; rfl
          | hard => cases h; rfl
        · cases h
      | _ => simp [step, hp] at h
    | _ =>
      simp only [step] at h
      repeat' split at h
      all_goals first | (cases h; rfl) | cases h

/-- A call that put nothing on the wire had nothing taken of its frame. -/
theorem taken_zero {c : SendCall} (h : c.bytes = []) (hl : c.taken ≤ c.frame.serialize.length) : c.taken = 0 := by
  have hlen := congrArg List.length h
  rw [SendCall.bytes, List.length_take_of_le hl] at hlen
  exact hlen

theorem step_standing {s s' : Outgoing θ} {l : SendStep θ} (hi : Inv s) (hs : Standing s) (ha : Obeys s l)
    (h : step s l = some s') : Standing s' := by
  have hm := step_move hi.within h
  have hi' := move_inv hi hm
  by_cases hcut : ∀ c ∈ s.finished, c.Whole
  · rcases move_finished hi hm with hf | ⟨c, hf, -, hc⟩
    · exact Or.inl (hf ▸ hcut)
    · -- the call that returns now may be the first that was cut
      by_cases hw : c.Whole
      · refine Or.inl fun x hx => ?_
        rw [hf] at hx
        rcases List.mem_append.mp hx with hx | hx
        · exact hcut x hx
        · rw [List.mem_singleton.mp hx]
          exact hw
      · exact Or.inr ⟨s.finished, c, [], hf, hcut, by simp, hc⟩
  · obtain ⟨before, c, after, hfin, hb, haf, hcur⟩ := hs.resolve_left hcut
    have hwire := step_wire ha h hcut
    rcases move_finished hi hm with hf | ⟨c', hf, hcb, hc⟩
    · refine Or.inr ⟨before, c, after, hf.trans hfin, hb, haf, ?_⟩
      rw [hi.wire_eq, hi'.wire_eq, hf] at hwire
      rw [List.append_cancel_left hwire, hcur]
    · refine Or.inr ⟨before, c, after ++ [c'], by rw [hf, hfin]; simp, hb, fun x hx => ?_, hc⟩
      rcases List.mem_append.mp hx with hx | hx
      · exact haf x hx
      · rw [List.mem_singleton.mp hx]
        have hle := (hi'.returned c' (by rw [hf]; simp)).1
        exact taken_zero (hcb.trans hcur) hle

/-- Calls that were not cut put whole frames on the wire. -/
theorem whole_bytes {cs : List SendCall} (hcs : ∀ c ∈ cs, c.Whole) :
    ∃ fs : List Frame, fs.Sublist (cs.map SendCall.frame) ∧
      cs.flatMap SendCall.bytes = fs.flatMap Frame.serialize := by
  induction cs with
  | nil => exact ⟨[], List.Sublist.refl _, rfl⟩
  | cons c cs ih =>
    obtain ⟨fs, hsub, hfs⟩ := ih fun x hx => hcs x (List.mem_cons_of_mem _ hx)
    rcases hcs c List.mem_cons_self with hz | hall
    · refine ⟨fs, hsub.cons c.frame, ?_⟩
      rw [List.flatMap_cons, hfs, SendCall.bytes, hz, List.take_zero, List.nil_append]
    · refine ⟨c.frame :: fs, hsub.cons_cons c.frame, ?_⟩
      rw [List.flatMap_cons, List.flatMap_cons, hfs, SendCall.bytes, hall, List.take_length]

/-- Whole frames and the first `n` bytes of one more. -/
theorem framed_part {cs : List SendCall} (hcs : ∀ c ∈ cs, c.Whole) {sent : List Frame} {f : Frame} (n : Nat)
    (hsent : (cs.map SendCall.frame ++ [f]).Sublist sent) :
    Framed sent (cs.flatMap SendCall.bytes ++ f.serialize.take n) := by
  obtain ⟨fs, hsub, hfs⟩ := whole_bytes hcs
  have hf : f ∈ sent := hsent.subset (by simp)
  by_cases hall : f.serialize.take n = f.serialize
  · refine ⟨fs ++ [f], [], (hsub.append (.refl _)).trans hsent, ?_, Or.inl rfl⟩
    rw [hfs, hall, List.flatMap_append]
    simp
  · refine ⟨fs, f.serialize.take n, hsub.trans ((List.sublist_append_left _ _).trans hsent), by rw [hfs], Or.inr ?_⟩
    exact ⟨f, hf, List.take_prefix _ _, hall⟩

omit [DecidableEq θ] in
theorem standing_framed {s : Outgoing θ} (hi : Inv s) (hs : Standing s) : Framed s.frames s.wire := by
  rw [hi.wire_eq, frames]
  rcases hs with hw | ⟨before, c, after, hfin, hb, haf, hcur⟩
  · -- nothing was cut: the part is that of the call that goes on
    have hdone : ∀ sent : List Frame, (s.finished.map SendCall.frame).Sublist sent →
        Framed sent (s.finished.flatMap SendCall.bytes ++ []) := by
      intro sent hsent
      obtain ⟨fs, hsub, hfs⟩ := whole_bytes hw
      exact ⟨fs, [], hsub.trans hsent, by rw [hfs], Or.inl rfl⟩
    rcases Option.eq_none_or_eq_some s.owner with ho | ⟨t, ho⟩
    · rw [current_none ho]
      exact hdone _ (List.sublist_append_left _ _)
    · rw [current_some ho, ho]
      cases hp : s.phase t with
      | writing f n =>
        have hsent : (s.finished.map SendCall.frame ++ [f]).Sublist
            (s.finished.map SendCall.frame ++ (s.phase t).frame?.toList) := by rw [hp]; exact .refl _
        exact framed_part hw n hsent
      | _ => exact hdone _ (List.sublist_append_left _ _)
  · have hafter : after.flatMap SendCall.bytes = [] := by
      refine List.flatMap_eq_nil_iff.mpr fun x hx => ?_
      rw [SendCall.bytes, haf x hx, List.take_zero]
    rw [hcur, hfin, List.flatMap_append, List.flatMap_cons, hafter, List.append_nil, List.append_nil]
    refine framed_part hb c.taken (List.Sublist.trans ?_ (List.sublist_append_left _ _))
    rw [List.map_append, List.map_cons]
    exact (List.Sublist.refl _).append ((List.nil_sublist _).cons_cons _)

/-- In every run in which the kernel takes no byte after an error in the middle of a frame,
    the wire is whole frames of the calls and then at most a part of one; once a call was
    cut, nothing more is written. -/
theorem framed_while_whole {s : Outgoing θ} (h : Reach step Obeys init s) :
    Framed s.frames s.wire ∧
      ((∃ c ∈ s.finished, ¬ c.Whole) → ∀ s', Reach step Obeys s s' → s'.wire = s.wire) := by
  have hstanding : Inv s ∧ Standing s := by
    refine h.invariant (I := fun s => Inv s ∧ Standing s) ⟨init_inv, Or.inl fun c hc => (by cases hc)⟩ ?_
    intro s l s' hi ha hs
    exact ⟨move_inv hi.1 (step_move hi.1.within hs), step_standing hi.1 hi.2 ha hs⟩
  refine ⟨standing_framed hstanding.1 hstanding.2, fun hcut s' h' => ?_⟩
  -- a call that was cut stays among those that returned
  have hkeep : Inv s' ∧ (∃ c ∈ s'.finished, ¬ c.Whole) ∧ s'.wire = s.wire := by
    refine h'.invariant (I := fun x => Inv x ∧ (∃ c ∈ x.finished, ¬ c.Whole) ∧ x.wire = s.wire)
      ⟨hstanding.1, hcut, rfl⟩ ?_
    intro x l y hx ha hs
    obtain ⟨hi, ⟨c, hc, hw⟩, hwire⟩ := hx
    have hm := step_move hi.within hs
    refine ⟨move_inv hi hm, ⟨c, ?_, hw⟩, (step_wire ha hs fun hall => hw (hall c hc)).trans hwire⟩
    rcases move_finished hi hm with hf | ⟨c', hf, -, -⟩
    · exact hf ▸ hc
    · rw [hf]
      exact List.mem_append_left _ hc
  exact hkeep.2.2

/-- The sixth byte of whole frames and a part of one is that of a message type. -/
theorem framed_type {sent : List Frame} {wire : Bytes} (h : Framed sent wire) : ∀ b ∈ wire[5]?, Assigned b := by
  have hframe : ∀ (f : Frame) (r : Bytes), (f.serialize ++ r)[5]? = some f.header.type.toByte := fun _ _ => rfl
  obtain ⟨fs, part, -, rfl, hpart⟩ := h
  intro b hb
  cases fs with
  | nil =>
    rcases hpart with rfl | ⟨f, -, ⟨r, hr⟩, -⟩
    · cases hb
    · have hlt : 5 < part.length := (List.getElem?_eq_some_iff.mp hb).1
      have hf := hframe f []
      rw [List.append_nil, ← hr, List.getElem?_append_left hlt] at hf
      exact ⟨_, Option.some.inj (hf.symm.trans hb)⟩
  | cons f fs =>
    rw [List.flatMap_cons, List.append_assoc, hframe] at hb
    exact ⟨_, Option.some.inj hb⟩

/-- The steps of a run that the condition lets through. -/
def obeys (s : Outgoing θ) : SendStep θ → Bool
  | .kernel _ (.took n) => n == 0 || s.finished.all fun c => decide c.Whole
  | _ => true

omit [DecidableEq θ] in
theorem obeys_sound {s : Outgoing θ} {l : SendStep θ} (h : obeys s l = true) : Obeys s l := by
  intro t n hl hn c hc
  subst hl
  simp only [obeys, Bool.or_eq_true, beq_iff_eq, List.all_eq_true, decide_eq_true_eq] at h
  exact h.resolve_left (Nat.ne_of_gt hn) c hc

/-- Two threads, a piece at a time, with a retry; the second call is cut and the socket
    then takes nothing more. -/
theorem framed_while_whole_pieces :
    ∃ s : Outgoing Nat, (s.wire.length = 17 ∧ s.finished.length = 3) ∧ Framed s.frames s.wire := by
  let ping := Frame.create .PING []
  have hrun : ((run (checked step obeys) (init : Outgoing Nat)
      [.start, .send 0 ping, .send 1 ping, .lock 1, .check 1, .kernel 1 (.took 5), .kernel 1 .again,
        .kernel 1 (.took 7), .ret 1, .lock 0, .check 0, .kernel 0 (.took 5), .kernel 0 .hard, .send 1 ping, .lock 1,
        .check 1, .kernel 1 .hard]).map fun s => decide (s.wire.length = 17 ∧ s.finished.length = 3)) =
      some true := by
    decide +kernel
  obtain ⟨s, hs, hp⟩ := reach_of_run (fun _ _ _ h => obeys_sound h) hrun
  exact ⟨s, of_decide_eq_true hp, (framed_while_whole hs).1⟩

/-- A PING is cut after five bytes; the connection is still running, and the next PING's
    bytes follow them. -/
theorem cut_frame_goes_on :
    ∃ s : Outgoing Nat, Reach step (fun _ _ => True) init s ∧ s.running = true ∧ ¬ Framed s.frames s.wire := by
  let ping := Frame.create .PING []
  have hrun : ((run (checked step fun _ _ => true) (init : Outgoing Nat)
      [.start, .send 0 ping, .lock 0, .check 0, .kernel 0 (.took 5), .kernel 0 .hard, .send 1 ping, .lock 1,
        .check 1, .kernel 1 (.took 12), .ret 1]).map fun s => s.running && decide (s.wire[5]? = some 0x4C)) =
      some true := by
    decide +kernel
  obtain ⟨s, hs, hp⟩ := reach_of_run (fun _ _ _ _ => trivial) hrun
  simp only [Bool.and_eq_true, decide_eq_true_eq] at hp
  exact ⟨s, hs, hp.1, fun hf => absurd (framed_type hf 0x4C hp.2) (by decide)⟩

end Outgoing

end LanTalk.Network
