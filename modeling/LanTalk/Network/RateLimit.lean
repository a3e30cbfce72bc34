/-
  LanTalk.Network.RateLimit — `recvLoop` with its clock (`src/network/connection.cpp`): what
  it hands out of reads that come at given times, and when it ends.

  A read is one turn of the loop: whether somebody else has stopped the connection, what
  `recv` returned, and the time, which the loop looks at once it has handed out the frames.
  It looks at its count only in a read at least a second after it last did, and then starts
  a new count. So the reads fall into windows that tile the time (`windows`): each ends with
  the first read a second or more after the one before it ended, however late that is.

  Proved:
  - `recvLoopTimed_spec`: the loop ends for the rate just if a window that ends has more than a
    hundred frames; until then it hands out all that is decoded.
  - `spares_compliant_iff`: so a peer that keeps to a hundred frames in any second is spared
    just if no window of its reads has more; one that spans a silence can.
  - `enforced_iff`: and a second with more than a hundred frames ends the connection by the
    first read two seconds after it began just if, by then, a window has more; two windows
    that share it need not.
-/

import LanTalk.Network.Stream

namespace LanTalk.Network

open LanTalk.Lib

/-- In nanoseconds. -/
def second : Nat := 10 ^ 9

structure Read where
  /-- `running_` was cleared by another thread before this turn. -/
  stopped : Bool := false
  time : Nat
  /-- The bytes `recv` returned; `none` for none or an error. -/
  data : Option Bytes
  deriving DecidableEq

inductive Ending where
  | stopped
  | closed
  | limited
  | violation (reason : Bytes)
  deriving DecidableEq

/-- The frames of one read. -/
structure Batch where
  time : Nat
  frames : List Frame
  deriving DecidableEq

/-- What the loop has handed out, and how it ended if it did. -/
structure Handling where
  handed : List Batch
  ended : Option Ending
  deriving DecidableEq

/-- A batch handed out before what follows. -/
def Handling.after (b : Batch) (h : Handling) : Handling := { h with handed := b :: h.handed }

/-- The text a peer over the limit is disconnected with. -/
def rateLimitExceeded : Bytes := str "Rate limit exceeded"

def Ending.reason : Ending → Option Bytes
  | .stopped => none
  | .closed => some (str "Connection closed")
  | .limited => some rateLimitExceeded
  | .violation reason => some reason

/-- What the loop tells the peer or the application, if it does. -/
def Handling.reason (h : Handling) : Option Bytes := h.ended.bind Ending.reason

/-- `recvLoop` from `lastCheck` on. -/
def Connection.recvLoopTimed (conn : Connection) (lastCheck : Nat) : List Read → Handling
  | [] => { handed := [], ended := none }
  | r :: rs =>
    if conn.running && !r.stopped then
      match r.data with
      | none => { handed := [], ended := some .closed }
      | some data =>
        match conn.decode data with
        | (.error reason, _) => { handed := [], ended := some (.violation reason) }
        | (.ok frames, conn') =>
          let batch : Batch := { time := r.time, frames := frames }
          if 1 ≤ (r.time - lastCheck) / second then
            if 100 < conn'.frameCount then { handed := [batch], ended := some .limited }
            else (recvLoopTimed { conn' with frameCount := 0 } r.time rs).after batch
          else (recvLoopTimed conn' lastCheck rs).after batch
    else { handed := [], ended := some .stopped }

/-! ## Batches and windows -/

/-- What is decoded of the reads, up to the first that ends the loop for another reason
    than the rate. -/
def batches (reader : FrameReader) : List Read → List Batch
  | [] => []
  | r :: rs =>
    if r.stopped then []
    else
      match r.data with
      | none => []
      | some data =>
        match reader.feed data with
        | (.error _, _) => []
        | (.ok frames, reader') => { time := r.time, frames := frames } :: batches reader' rs

def frameTotal (bs : List Batch) : Nat := (bs.map fun b => b.frames.length).sum

/-- The windows that end: the first from `since` on, with the batches `opened` so far. -/
def windows (since : Nat) (opened : List Batch) : List Batch → List (List Batch)
  | [] => []
  | b :: bs =>
    if since + second ≤ b.time then (opened ++ [b]) :: windows b.time [] bs
    else windows since (opened ++ [b]) bs

/-- The frames of the second that begins at `t`. -/
def inSecond (t : Nat) (bs : List Batch) : Nat :=
  frameTotal (bs.filter fun b => decide (t ≤ b.time) && decide (b.time < t + second))

/-- A window with more frames than the limit ends in these batches. -/
def Overfull (since : Nat) (opened bs : List Batch) : Prop := ∃ w ∈ windows since opened bs, 100 < frameTotal w

instance (since : Nat) (opened bs : List Batch) : Decidable (Overfull since opened bs) :=
  inferInstanceAs (Decidable (∃ w ∈ windows since opened bs, 100 < frameTotal w))

@[simp] theorem frameTotal_nil : frameTotal [] = 0 := rfl

theorem frameTotal_cons (b : Batch) (bs : List Batch) : frameTotal (b :: bs) = b.frames.length + frameTotal bs := by
  simp [frameTotal]

theorem frameTotal_append (bs bs' : List Batch) : frameTotal (bs ++ bs') = frameTotal bs + frameTotal bs' := by
  simp [frameTotal]

theorem inSecond_append (t : Nat) (bs bs' : List Batch) :
    inSecond t (bs ++ bs') = inSecond t bs + inSecond t bs' := by
  rw [inSecond, List.filter_append, frameTotal_append]
  rfl

theorem inSecond_cons (t : Nat) (b : Batch) (bs : List Batch) :
    inSecond t (b :: bs) = (if t ≤ b.time ∧ b.time < t + second then b.frames.length else 0) + inSecond t bs := by
  by_cases h : t ≤ b.time ∧ b.time < t + second
  · rw [if_pos h, inSecond, List.filter_cons_of_pos (by simpa using h), frameTotal_cons, inSecond]
  · rw [if_neg h, inSecond, List.filter_cons_of_neg (by simpa using h), inSecond, Nat.zero_add]

/-- More batches have at least the frames. -/
theorem inSecond_mono {bs bs' : List Batch} (h : bs <+: bs') (t : Nat) : inSecond t bs ≤ inSecond t bs' := by
  obtain ⟨cs, rfl⟩ := h
  rw [inSecond_append]
  exact Nat.le_add_right _ _

theorem elapsed_iff {now since : Nat} : 1 ≤ (now - since) / second ↔ since + second ≤ now := by
  rw [Nat.le_div_iff_mul_le (by decide)]
  have : 0 < second := by decide
  omega

/-! ## What the loop does -/

namespace Connection

/-- The text of a reader's error is not that of the limit. -/
theorem violation_reason (e : String) : str "Protocol error: " ++ str e ≠ rateLimitExceeded := by
  intro h
  have hhead : (str "Protocol error: " ++ str e).head? = rateLimitExceeded.head? := congrArg List.head? h
  rw [List.head?_append_of_ne_nil _ (by decide)] at hhead
  exact absurd hhead (by decide)

/-- One turn: it ends the loop for another reason than the rate, or hands out a batch. -/
theorem recvLoopTimed_cons (conn : Connection) (hrun : conn.running = true) (since : Nat) (r : Read) :
    (∃ e, e.reason ≠ some rateLimitExceeded ∧ ∀ rs, batches conn.reader (r :: rs) = [] ∧
      conn.recvLoopTimed since (r :: rs) = { handed := [], ended := some e }) ∨
    ∃ (frames : List Frame) (conn' : Connection), conn'.running = true ∧
      conn'.frameCount = conn.frameCount + frames.length ∧
      ∀ rs, batches conn.reader (r :: rs) = ⟨r.time, frames⟩ :: batches conn'.reader rs ∧
        conn.recvLoopTimed since (r :: rs) =
          if since + second ≤ r.time then
            if 100 < conn'.frameCount then { handed := [⟨r.time, frames⟩], ended := some .limited }
            else (recvLoopTimed { conn' with frameCount := 0 } r.time rs).after ⟨r.time, frames⟩
          else (conn'.recvLoopTimed since rs).after ⟨r.time, frames⟩ := by
  cases hs : r.stopped with
  | true =>
    refine Or.inl ⟨.stopped, by decide, fun rs => ⟨?_, ?_⟩⟩
    · simp [batches, hs]
    · simp [recvLoopTimed, hs]
  | false =>
    cases hd : r.data with
    | none =>
      refine Or.inl ⟨.closed, by decide, fun rs => ⟨?_, ?_⟩⟩
      · simp [batches, hs, hd]
      · simp [recvLoopTimed, hs, hd, hrun]
    | some data =>
      cases hf : conn.reader.feed data with
      | mk res reader' =>
        cases res with
        | error e =>
          have hdec : conn.decode data =
              (.error (str "Protocol error: " ++ str e), { conn with reader := reader' }) := by
            simp only [decode, hf]
          have hreason := fun h => violation_reason e (Option.some.inj h)
          refine Or.inl ⟨.violation (str "Protocol error: " ++ str e), hreason, fun rs => ⟨?_, ?_⟩⟩
          · simp [batches, hs, hd, hf]
          · simp [recvLoopTimed, hs, hd, hrun, hdec]
        | ok frames =>
          have hdec : conn.decode data =
              (.ok frames, { conn with reader := reader', frameCount := conn.frameCount + frames.length }) := by
            simp only [decode, hf]
          refine Or.inr ⟨frames, { conn with reader := reader', frameCount := conn.frameCount + frames.length }, hrun,
            rfl, fun rs => ⟨?_, ?_⟩⟩
          · simp [batches, hs, hd, hf]
          · simp only [recvLoopTimed, hs, hd, hrun, hdec, elapsed_iff, Bool.not_false, Bool.and_self, if_true]

end Connection

/-- The loop, with the batches of its open window counted: it is ended for the rate by an
    overfull window, and otherwise hands out every batch and goes on while there are any. -/
theorem recvLoopTimed_spec (reads : List Read) : ∀ (conn : Connection) (since : Nat) (opened : List Batch),
    conn.running = true → conn.frameCount = frameTotal opened →
    (conn.recvLoopTimed since reads).handed <+: batches conn.reader reads ∧
    ((conn.recvLoopTimed since reads).reason = some rateLimitExceeded ↔
      Overfull since opened (batches conn.reader reads)) ∧
    (¬ Overfull since opened (batches conn.reader reads) →
      (conn.recvLoopTimed since reads).handed = batches conn.reader reads ∧
      ((conn.recvLoopTimed since reads).ended = none ↔ (batches conn.reader reads).length = reads.length)) := by
  induction reads with
  | nil =>
    intro conn since opened _ _
    have hnot : ¬ Overfull since opened [] := by simp [Overfull, windows]
    have hlim : (conn.recvLoopTimed since []).reason = some rateLimitExceeded ↔ Overfull since opened [] :=
      ⟨fun h => (by cases h), fun h => absurd h hnot⟩
    exact ⟨List.prefix_rfl, hlim, fun _ => ⟨rfl, by simp [Connection.recvLoopTimed, batches]⟩⟩
  | cons r rs ih =>
    intro conn since opened hrun hcount
    rcases Connection.recvLoopTimed_cons conn hrun since r with ⟨e, he, h⟩ | ⟨frames, conn', hrun', hcount', h⟩
    · obtain ⟨hbs, hloop⟩ := h rs
      have hnot : ¬ Overfull since opened [] := by simp [Overfull, windows]
      rw [hloop, hbs]
      exact ⟨List.prefix_rfl, ⟨fun h => absurd h he, fun h => absurd h hnot⟩,
        fun _ => ⟨rfl, by simp⟩⟩
    · obtain ⟨hbs, hloop⟩ := h rs
      have htotal : conn'.frameCount = frameTotal (opened ++ [⟨r.time, frames⟩]) := by
        rw [hcount', hcount, frameTotal_append]
        simp [frameTotal_cons]
      rw [hloop, hbs]
      by_cases hcheck : since + second ≤ r.time
      · have hwin : ∀ bs, Overfull since opened (⟨r.time, frames⟩ :: bs) ↔
            100 < conn'.frameCount ∨ Overfull r.time [] bs := by
          intro bs
          rw [htotal]
          simp only [Overfull, windows, if_pos hcheck, List.exists_mem_cons_iff]
        rw [if_pos hcheck, hwin]
        by_cases hover : 100 < conn'.frameCount
        · rw [if_pos hover]
          refine ⟨?_, ⟨fun _ => Or.inl hover, fun _ => rfl⟩, fun h => absurd (Or.inl hover) h⟩
          exact ⟨batches conn'.reader rs, rfl⟩
        · obtain ⟨hpre, hlim, hrest⟩ := ih { conn' with frameCount := 0 } r.time [] hrun' rfl
          rw [if_neg hover]
          refine ⟨(List.prefix_cons_inj _).mpr hpre, ?_, fun h => ?_⟩
          · exact ⟨fun h => Or.inr (hlim.mp h), fun h => hlim.mpr (h.resolve_left hover)⟩
          · obtain ⟨hall, hgo⟩ := hrest fun hw => h (Or.inr hw)
            exact ⟨congrArg _ hall, hgo.trans Nat.succ_inj.symm⟩
      · have hwin : ∀ bs, Overfull since opened (⟨r.time, frames⟩ :: bs) ↔
            Overfull since (opened ++ [⟨r.time, frames⟩]) bs := by
          intro bs
          simp only [Overfull, windows, if_neg hcheck]
        obtain ⟨hpre, hlim, hrest⟩ := ih conn' since (opened ++ [⟨r.time, frames⟩]) hrun' htotal
        rw [if_neg hcheck, hwin]
        refine ⟨(List.prefix_cons_inj _).mpr hpre, hlim, fun h => ?_⟩
        obtain ⟨hall, hgo⟩ := hrest h
        exact ⟨congrArg _ hall, hgo.trans Nat.succ_inj.symm⟩

/-- While `recv` returns bytes and nobody stops the connection, what is decoded is what the
    loop without a clock hands out. -/
theorem batches_frames (reads : List Read) : ∀ (conn : Connection) (cs : List Bytes), conn.running = true →
    reads.map Read.data = cs.map some → (∀ r ∈ reads, r.stopped = false) →
    (batches conn.reader reads).flatMap Batch.frames = (conn.recvLoop cs).1 := by
  induction reads with
  | nil =>
    intro conn cs _ hdata _
    cases cs with
    | nil => rfl
    | cons c cs => cases hdata
  | cons r rs ih =>
    intro conn cs hrun hdata hstop
    cases cs with
    | nil => cases hdata
    | cons c cs =>
      obtain ⟨hd, hds⟩ := List.cons.inj hdata
      have hs := hstop r List.mem_cons_self
      cases hf : conn.reader.feed c with
      | mk res reader' =>
        cases res with
        | error e => simp [batches, Connection.recvLoop, Connection.decode, hs, hd, hf, hrun]
        | ok frames =>
          have hrest := ih { conn with reader := reader', frameCount := conn.frameCount + frames.length } cs
            hrun hds fun x hx => hstop x (List.mem_cons_of_mem _ hx)
          simp [batches, Connection.recvLoop, Connection.decode, hs, hd, hf, hrun, hrest]

/-! ## More reads -/

/-- What is handed out of the first reads stays handed out. -/
theorem handed_mono (xs ys : List Read) : ∀ (conn : Connection) (since : Nat), conn.running = true →
    (conn.recvLoopTimed since xs).handed <+: (conn.recvLoopTimed since (xs ++ ys)).handed := by
  induction xs with
  | nil => exact fun _ _ _ => List.nil_prefix
  | cons r rs ih =>
    intro conn since hrun
    rw [List.cons_append]
    rcases Connection.recvLoopTimed_cons conn hrun since r with ⟨e, -, h⟩ | ⟨frames, conn', hrun', -, h⟩
    · rw [(h rs).2, (h (rs ++ ys)).2]
    · rw [(h rs).2, (h (rs ++ ys)).2]
      split
      · split
        · exact List.prefix_rfl
        · exact (List.prefix_cons_inj _).mpr (ih { conn' with frameCount := 0 } _ hrun')
      · exact (List.prefix_cons_inj _).mpr (ih conn' _ hrun')

/-- A batch has the time of its read. -/
theorem batches_times (rs : List Read) : ∀ reader : FrameReader, ∀ b ∈ batches reader rs, ∃ y ∈ rs, y.time = b.time := by
  induction rs with
  | nil => exact fun _ b hb => (by cases hb)
  | cons r rs ih =>
    intro reader b hb
    rcases Connection.recvLoopTimed_cons { running := true, reader := reader } rfl 0 r with
      ⟨e, -, h⟩ | ⟨frames, conn', -, -, h⟩
    · rw [(h rs).1] at hb
      cases hb
    · rw [(h rs).1] at hb
      rcases List.mem_cons.mp hb with rfl | hb
      · exact ⟨r, List.mem_cons_self, rfl⟩
      · obtain ⟨y, hy, ht⟩ := ih _ b hb
        exact ⟨y, List.mem_cons_of_mem _ hy, ht⟩

/-- Further reads decode to further batches, at their times. -/
theorem batches_append (xs ys : List Read) : ∀ reader : FrameReader,
    ∃ rest, batches reader (xs ++ ys) = batches reader xs ++ rest ∧ ∀ b ∈ rest, ∃ y ∈ ys, y.time = b.time := by
  induction xs with
  | nil => exact fun reader => ⟨batches reader ys, rfl, batches_times ys reader⟩
  | cons r rs ih =>
    intro reader
    rcases Connection.recvLoopTimed_cons { running := true, reader := reader } rfl 0 r with
      ⟨e, -, h⟩ | ⟨frames, conn', -, -, h⟩
    · exact ⟨[], by rw [List.cons_append, (h rs).1, (h (rs ++ ys)).1, List.append_nil], by simp⟩
    · obtain ⟨rest, hrest, ht⟩ := ih conn'.reader
      exact ⟨rest, by rw [List.cons_append, (h rs).1, (h (rs ++ ys)).1, hrest, List.cons_append], ht⟩

/-! ## The limit -/

/-- Reads in the order of their times, from the start of the loop on. -/
def Timely (start : Nat) (reads : List Read) : Prop := (start :: reads.map Read.time).Pairwise (· ≤ ·)

instance (start : Nat) (reads : List Read) : Decidable (Timely start reads) :=
  inferInstanceAs (Decidable (List.Pairwise (· ≤ ·) (start :: reads.map Read.time)))

/-- At most a hundred frames in any second. -/
def Compliant (bs : List Batch) : Prop := ∀ t, inSecond t bs ≤ 100

section
variable (max start : Nat) (reads : List Read)

/-- `recvLoop` of a new connection. -/
def handle : Handling := (started max).recvLoopTimed start reads

/-- What its reader decodes. -/
def decoded : List Batch := batches (FrameReader.new max) reads

theorem handle_spec :
    (handle max start reads).handed <+: decoded max reads ∧
    ((handle max start reads).reason = some rateLimitExceeded ↔ Overfull start [] (decoded max reads)) ∧
    (¬ Overfull start [] (decoded max reads) → (handle max start reads).handed = decoded max reads ∧
      ((handle max start reads).ended = none ↔ (decoded max reads).length = reads.length)) :=
  recvLoopTimed_spec reads (started max) start [] rfl rfl

/-- A compliant peer is never disconnected for its rate, if and only if no window of a
    compliant peer's reads has more than a hundred frames. -/
theorem spares_compliant_iff :
    (Timely start reads ∧ Compliant (decoded max reads) →
        (handle max start reads).reason ≠ some rateLimitExceeded) ↔
      (Timely start reads ∧ Compliant (decoded max reads) →
        ∀ w ∈ windows start [] (decoded max reads), frameTotal w ≤ 100) := by
  obtain ⟨-, hlim, -⟩ := handle_spec max start reads
  have hnot : (handle max start reads).reason ≠ some rateLimitExceeded ↔
      ∀ w ∈ windows start [] (decoded max reads), frameTotal w ≤ 100 := by
    rw [Ne, hlim, Overfull]
    push Not
    exact Iff.rfl
  exact imp_congr_right fun _ => hnot

/-- Sixty PINGs. -/
def burst : Bytes := (List.replicate 60 (Frame.create .PING []).serialize).flatten

/-- Two bursts of sixty frames with five seconds of silence between them: no second has more
    than sixty, and the peer is disconnected for its rate. -/
theorem silence_is_punished :
    let reads : List Read := [{ time := second / 10, data := some burst }, { time := 5 * second, data := some burst }]
    Timely 0 reads ∧ Compliant (decoded kMaxPayloadSize reads) ∧
      (handle kMaxPayloadSize 0 reads).reason = some rateLimitExceeded := by
  intro reads
  have hbs : decoded kMaxPayloadSize reads =
      [⟨second / 10, List.replicate 60 (.create .PING [])⟩, ⟨5 * second, List.replicate 60 (.create .PING [])⟩] := by
    decide +kernel
  refine ⟨by decide, fun t => ?_, by decide +kernel⟩
  have hnil : inSecond t [] = 0 := rfl
  rw [hbs, inSecond_cons, inSecond_cons, List.length_replicate, hnil]
  by_cases hfirst : t ≤ second / 10 ∧ second / 10 < t + second
  · have hother : ¬ (t ≤ 5 * second ∧ 5 * second < t + second) := by
      simp only [second] at hfirst ⊢
      omega
    rw [if_pos hfirst, if_neg hother]
    decide
  · rw [if_neg hfirst]
    split <;> omega

/-- The read `r` is the first at or after two seconds from `t`. -/
def FirstAfter (t : Nat) (before : List Read) (r : Read) : Prop :=
  t + 2 * second ≤ r.time ∧ ∀ x ∈ before, x.time < t + 2 * second

instance (t : Nat) (before : List Read) (r : Read) : Decidable (FirstAfter t before r) :=
  inferInstanceAs (Decidable (_ ∧ ∀ x ∈ before, x.time < t + 2 * second))

/-- More than a hundred frames handed out in a second end the connection no later than with
    the first read two seconds after it began. -/
def Enforced : Prop :=
  ∀ t, 100 < inSecond t (handle max start reads).handed → ∀ before r after, reads = before ++ r :: after →
    FirstAfter t before r → (handle max start (before ++ [r])).ended ≠ none

/-- After that read the frames of the second are all there. -/
theorem inSecond_decided {t : Nat} {before after : List Read} {r : Read} (ht : Timely start (before ++ r :: after))
    (hr : t + 2 * second ≤ r.time) :
    inSecond t (decoded max (before ++ r :: after)) = inSecond t (decoded max (before ++ [r])) := by
  obtain ⟨rest, hrest, htimes⟩ := batches_append (before ++ [r]) after (FrameReader.new max)
  rw [List.append_assoc, List.singleton_append] at hrest
  have hlate : ∀ b ∈ rest, ¬ b.time < t + second := by
    intro b hb
    obtain ⟨y, hy, hyb⟩ := htimes b hb
    have hp : ((before ++ r :: after).map Read.time).Pairwise (· ≤ ·) := (List.pairwise_cons.mp ht).2
    rw [List.map_append, List.map_cons] at hp
    have hle := (List.pairwise_cons.mp (List.pairwise_append.mp hp).2.1).1 y.time (List.mem_map_of_mem hy)
    omega
  have hnone : rest.filter (fun b => decide (t ≤ b.time) && decide (b.time < t + second)) = [] := by
    apply List.filter_eq_nil_iff.mpr
    intro b hb
    simp [hlate b hb]
  rw [decoded, hrest, inSecond_append, decoded]
  rw [inSecond, inSecond, hnone, frameTotal_nil, Nat.add_zero]

/-- The limit is enforced if and only if for every second with more than a hundred frames, a
    window that ends by the first read two seconds after it began has more than a hundred,
    unless the connection ended before for another reason. -/
theorem enforced_iff (ht : Timely start reads) :
    Enforced max start reads ↔
      ∀ t, 100 < inSecond t (decoded max reads) → ∀ before r after, reads = before ++ r :: after →
        FirstAfter t before r → (decoded max (before ++ [r])).length = (before ++ [r]).length →
          Overfull start [] (decoded max (before ++ [r])) := by
  constructor
  · intro h t hover before r after hreads hr hlen
    by_contra hnot
    obtain ⟨-, -, hall⟩ := handle_spec max start (before ++ [r])
    obtain ⟨hhanded, hgo⟩ := hall hnot
    -- the loop is past that read, and has handed out the whole second
    rw [hreads] at ht hover
    rw [inSecond_decided max start ht hr.1, ← hhanded] at hover
    have hpre := handed_mono (before ++ [r]) after (started max) start rfl
    rw [List.append_assoc, List.singleton_append, ← hreads] at hpre
    exact h t (lt_of_lt_of_le hover (inSecond_mono hpre t)) before r after hreads hr (hgo.mpr hlen)
  · intro h t hover before r after hreads hr hnone
    obtain ⟨hpre, -, -⟩ := handle_spec max start reads
    obtain ⟨-, hlim, hall⟩ := handle_spec max start (before ++ [r])
    have hnot : ¬ Overfull start [] (decoded max (before ++ [r])) := by
      intro ho
      have hreason := hlim.mpr ho
      rw [Handling.reason, hnone] at hreason
      cases hreason
    exact hnot (h t (lt_of_lt_of_le hover (inSecond_mono hpre t)) before r after hreads hr ((hall hnot).2.mp hnone))

end

/-- A hundred and twenty frames in one read, and a read two and a half seconds later. -/
theorem enforced_on_one_read :
    Enforced kMaxPayloadSize 0
      [{ time := second / 2, data := some (burst ++ burst) }, { time := 3 * second, data := some burst }] := by
  refine (enforced_iff kMaxPayloadSize 0 _ (by decide)).mpr fun t _ before r after hreads hr _ => ?_
  match before, hreads with
  | [], hreads =>
    obtain ⟨rfl, -⟩ := List.cons.inj hreads
    have h := hr.1
    simp only [second] at h
    omega
  | [x], hreads =>
    obtain ⟨rfl, hrest⟩ := List.cons.inj hreads
    obtain ⟨rfl, -⟩ := List.cons.inj hrest
    decide +kernel
  | x :: y :: before, hreads => simp at hreads

/-- Sixty frames just before a check and sixty after it, all in one second: neither window
    has more than a hundred, and the connection goes on. -/
theorem split_second_is_not_noticed :
    let reads : List Read :=
      [{ time := second, data := some burst }, { time := second + second / 2, data := some burst },
        { time := 3 * second, data := some (Frame.create .PING []).serialize }]
    Timely 0 reads ∧ ¬ Enforced kMaxPayloadSize 0 reads := by
  intro reads
  refine ⟨by decide, fun h => ?_⟩
  exact h second (by decide +kernel) (reads.take 2) (reads.get ⟨2, by decide⟩) [] rfl (by decide) (by decide +kernel)

end LanTalk.Network
