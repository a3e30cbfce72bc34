/-
  LanTalk.Network.RecvLoop — `recvLoop` (`src/network/connection.cpp`) over what the kernel
  returns to `TcpSocket::recv` (`src/network/tcp_socket.cpp`), and with the owner, who may
  stop the connection at any time. It clears `running_` before it closes the socket, and
  the loop looks at `running_` before it calls `recv` and again if that returned nothing;
  so a turn has four spans in which a stop can fall (`Stop`).

  `disconnect` in the loop tells the peer, not the application: only the branch for a
  `recv` that returned nothing invokes `onDisconnect_`, here given, and it does whatever
  `recv` returned nothing for. `recv` returns 0 for an orderly close, and for `EAGAIN`,
  `EWOULDBLOCK` and `EINTR`.

  Proved:
  - `tells_iff`: the owner is told of a connection that was lost just if no violation and no
    rate limit ended it (`violation_untold`), and never twice.
  - `patient_iff`: the loop reports a close only after a close or a real error just if it
    reaches no `EAGAIN`, `EWOULDBLOCK` or `EINTR` (`interrupted_closed`).
  - `fed_received`: what it feeds the reader is what it received, whatever happens.
  - `recvLoopFull_timed`: unless the owner stops it within a turn, it is `recvLoopTimed`.
-/

import LanTalk.Network.RateLimit

namespace LanTalk.Network

open LanTalk.Lib LanTalk.Lib.Reader

/-- The bytes of one `::recv` into the loop's buffer. -/
structure Chunk where
  bytes : Bytes
  nonempty : bytes ≠ []
  fits : bytes.length ≤ 4096
  deriving DecidableEq

/-- What `::recv` returns, and `errno` where it is an error. -/
inductive KernelRecv where
  | received (chunk : Chunk)
  | close
  | EAGAIN
  | EWOULDBLOCK
  | EINTR
  | error
  deriving DecidableEq

namespace KernelRecv

def data : KernelRecv → Bytes
  | .received chunk => chunk.bytes
  | _ => []

/-- Nothing is wrong with the connection. -/
def transient : KernelRecv → Bool
  | .EAGAIN | .EWOULDBLOCK | .EINTR => true
  | _ => false

/-- There is nothing more to receive. -/
def final : KernelRecv → Bool
  | .close | .error => true
  | _ => false

end KernelRecv

/-- `TcpSocket::recv`: what it returns, and what it has put into the buffer. -/
def TcpSocket.recv (valid : Bool) (kernel : KernelRecv) : Int × Bytes :=
  if valid then
    match kernel with
    | .received chunk => (chunk.bytes.length, chunk.bytes)
    | .close => (0, [])
    | .EAGAIN | .EWOULDBLOCK | .EINTR => (0, [])
    | .error => (-1, [])
  else (-1, [])

/-- When in a turn the owner stops the connection: before the loop's condition, before
    `recv`, before the loop looks at what `recv` returned, or after that. -/
inductive Stop where
  | never
  | beforeCheck
  | beforeRecv
  | beforeResult
  | afterResult
  deriving DecidableEq

structure Turn where
  owner : Stop := .never
  kernel : KernelRecv
  time : Nat
  deriving DecidableEq

/-- What happened in the turns the loop has taken. -/
structure Trace where
  taken : List Turn := []
  /-- What `::recv` returned, call by call. -/
  asked : List KernelRecv := []
  /-- What `feed` was called with. -/
  fed : List Bytes := []
  handed : List Batch := []
  /-- What `onDisconnect_` was called with. -/
  told : List Bytes := []
  ended : Option Ending := none
  deriving DecidableEq

def Trace.andThen (tr tr' : Trace) : Trace :=
  { taken := tr.taken ++ tr'.taken, asked := tr.asked ++ tr'.asked, fed := tr.fed ++ tr'.fed,
    handed := tr.handed ++ tr'.handed, told := tr.told ++ tr'.told, ended := tr'.ended }

/-- The connection, stopped by its owner if `now`. -/
def Connection.stoppedIf (conn : Connection) (now : Bool) : Connection := if now then conn.destroyed else conn

/-- `recvLoop` from `lastCheck` on. -/
def Connection.recvLoopFull (conn : Connection) (lastCheck : Nat) : List Turn → Trace
  | [] => {}
  | t :: ts =>
    let conn := conn.stoppedIf (t.owner = .beforeCheck)
    if conn.running then
      let conn := conn.stoppedIf (t.owner = .beforeRecv)
      let (bytes, data) := TcpSocket.recv conn.socket t.kernel
      let asked := if conn.socket then [t.kernel] else []
      let conn := conn.stoppedIf (t.owner = .beforeResult)
      if bytes ≤ 0 then
        if conn.running then
          { taken := [t], asked := asked, told := [str "Connection closed"], ended := some .closed }
        else { taken := [t], asked := asked, ended := some .stopped }
      else
        match conn.decode data with
        | (.error reason, _) => { taken := [t], asked := asked, fed := [data], ended := some (.violation reason) }
        | (.ok frames, conn') =>
          let conn' := conn'.stoppedIf (t.owner = .afterResult)
          let turn : Trace := { taken := [t], asked := asked, fed := [data], handed := [⟨t.time, frames⟩] }
          if 1 ≤ (t.time - lastCheck) / second then
            if 100 < conn'.frameCount then { turn with ended := some .limited }
            else turn.andThen (recvLoopFull { conn' with frameCount := 0 } t.time ts)
          else turn.andThen (recvLoopFull conn' lastCheck ts)
    else { taken := [t], ended := some .stopped }

/-- The turn as one of the loop that asks no kernel. -/
def Turn.read (t : Turn) : Read :=
  { stopped := t.owner = .beforeCheck, time := t.time,
    data := match t.kernel with
      | .received chunk => some chunk.bytes
      | _ => none }

/-- Bytes arrive, and the owner lets them. -/
def Turn.reads (t : Turn) : Bool :=
  decide (t.owner = .never) && match t.kernel with
    | .received _ => true
    | _ => false

/-- The owner has not stopped it when the loop looks at what `recv` returned. -/
def Turn.unstopped (t : Turn) : Bool := t.owner = .never || t.owner = .afterResult

/-- The turns up to the first that is not just another read. -/
def reading (turns : List Turn) : List Turn := turns.takeWhile Turn.reads

/-- The bytes that arrive in them. -/
def received (turns : List Turn) : Bytes := (turns.map fun t => t.kernel.data).flatten

/-- No violation arrives in these turns, and in no window more frames than the limit. -/
def Spared (max start : Nat) (us : List Turn) : Prop :=
  ¬ Violates max (received us) ∧ ¬ Overfull start [] (batches (FrameReader.new max) (us.map Turn.read))

/-! ## One turn -/

theorem Turn.reads_iff (t : Turn) : t.reads = true ↔ t.owner = .never ∧ ∃ chunk, t.kernel = .received chunk := by
  cases hk : t.kernel <;> simp [Turn.reads, hk]

theorem Trace.andThen_assoc (tr tr' tr'' : Trace) :
    (tr.andThen tr').andThen tr'' = tr.andThen (tr'.andThen tr'') := by
  simp [Trace.andThen]

/-- `recv` puts something into the buffer just if it returns how much. -/
theorem TcpSocket.recv_spec (valid : Bool) (kernel : KernelRecv) :
    (TcpSocket.recv valid kernel).2 = (if valid then [kernel] else []).flatMap KernelRecv.data ∧
      ((TcpSocket.recv valid kernel).1 ≤ 0 ↔ (TcpSocket.recv valid kernel).2 = []) := by
  cases valid with
  | false => simp [TcpSocket.recv]
  | true =>
    cases kernel with
    | received chunk =>
      have hpos := List.length_pos_iff.mpr chunk.nonempty
      have hne := chunk.nonempty
      simp only [TcpSocket.recv, if_true, List.flatMap_cons, List.flatMap_nil, KernelRecv.data, List.append_nil, hne,
        iff_false]
      exact ⟨trivial, by omega⟩
    | close | EAGAIN | EWOULDBLOCK | EINTR | error => simp [TcpSocket.recv, KernelRecv.data]

namespace Connection

/-- A read hands out what is decoded, and ends the loop for a violation or for the rate. -/
theorem recvLoopFull_read {conn : Connection} (hrun : conn.running = true) (hopen : conn.socket = true) (since : Nat)
    {t : Turn} {chunk : Chunk} (ho : t.owner = .never) (hk : t.kernel = .received chunk) :
    (∃ reason conn', conn.decode chunk.bytes = (.error reason, conn') ∧ ∀ ts,
      conn.recvLoopFull since (t :: ts) =
        { taken := [t], asked := [t.kernel], fed := [chunk.bytes], ended := some (.violation reason) }) ∨
    ∃ frames conn', conn.decode chunk.bytes = (.ok frames, conn') ∧ conn'.running = true ∧ conn'.socket = true ∧
      ∀ ts, conn.recvLoopFull since (t :: ts) =
        let turn : Trace :=
          { taken := [t], asked := [t.kernel], fed := [chunk.bytes], handed := [⟨t.time, frames⟩] }
        if 1 ≤ (t.time - since) / second then
          if 100 < conn'.frameCount then { turn with ended := some .limited }
          else turn.andThen (recvLoopFull { conn' with frameCount := 0 } t.time ts)
        else turn.andThen (conn'.recvLoopFull since ts) := by
  have hpos : ¬ (chunk.bytes.length : Int) ≤ 0 := by
    have := List.length_pos_iff.mpr chunk.nonempty
    omega
  cases hf : conn.reader.feed chunk.bytes with
  | mk res reader' =>
    cases res with
    | error e =>
      have hdec : conn.decode chunk.bytes =
          (.error (str "Protocol error: " ++ str e), { conn with reader := reader' }) := by
        simp only [decode, hf]
      refine Or.inl ⟨_, _, hdec, fun ts => ?_⟩
      simp only [recvLoopFull, ho, hk, stoppedIf, hrun, hopen, TcpSocket.recv, hpos, hdec, reduceCtorEq, decide_false,
        if_true, if_false, Bool.false_eq_true]
    | ok frames =>
      have hdec : conn.decode chunk.bytes =
          (.ok frames, { conn with reader := reader', frameCount := conn.frameCount + frames.length }) := by
        simp only [decode, hf]
      refine Or.inr ⟨frames, _, hdec, hrun, hopen, fun ts => ?_⟩
      simp only [recvLoopFull, ho, hk, stoppedIf, hrun, hopen, TcpSocket.recv, hpos, hdec, reduceCtorEq, decide_false,
        if_true, if_false, Bool.false_eq_true]

/-- Once it is stopped the loop takes no more bytes and tells nobody. -/
theorem recvLoopFull_stopped {conn : Connection} (hrun : conn.running = false) (since : Nat) (ts : List Turn) :
    (conn.recvLoopFull since ts).told = [] := by
  cases ts with
  | nil => rfl
  | cons t ts =>
    have h : (conn.stoppedIf (t.owner = .beforeCheck)).running = false := by
      unfold stoppedIf
      split
      · rfl
      · exact hrun
    simp [recvLoopFull, h]

/-- A turn in which bytes arrive and the owner stops the connection: nobody is told. -/
theorem recvLoopFull_received {conn : Connection} (hrun : conn.running = true) (hopen : conn.socket = true)
    (since : Nat) {t : Turn} {chunk : Chunk} (hk : t.kernel = .received chunk)
    (ho : t.owner = .beforeResult ∨ t.owner = .afterResult) (ts : List Turn) :
    t ∈ (conn.recvLoopFull since (t :: ts)).taken ∧ (conn.recvLoopFull since (t :: ts)).told = [] := by
  have hpos : ¬ (chunk.bytes.length : Int) ≤ 0 := by
    have := List.length_pos_iff.mpr chunk.nonempty
    omega
  -- what goes on after the turn is stopped
  have hgo : ∀ (turn : Trace) (conn' : Connection) (since' : Nat), turn.taken = [t] → turn.told = [] →
      conn'.running = false → t ∈ (turn.andThen (conn'.recvLoopFull since' ts)).taken ∧
        (turn.andThen (conn'.recvLoopFull since' ts)).told = [] := by
    intro turn conn' since' htaken htold hstop
    rw [Trace.andThen, htaken, htold, recvLoopFull_stopped hstop]
    exact ⟨List.mem_append_left _ List.mem_cons_self, rfl⟩
  rcases ho with ho | ho
  all_goals
    cases hf : conn.reader.feed chunk.bytes with
    | mk res reader' =>
      cases res with
      | error e =>
        simp [recvLoopFull, ho, hk, stoppedIf, hrun, hopen, TcpSocket.recv, chunk.nonempty, decode, destroyed, hf]
      | ok frames =>
        simp only [recvLoopFull, ho, hk, stoppedIf, hrun, hopen, TcpSocket.recv, hpos, decode, destroyed, hf,
          reduceCtorEq, decide_false, decide_true, if_true, if_false, Bool.false_eq_true]
        split
        · split
          · exact ⟨List.mem_cons_self, rfl⟩
          · exact hgo _ _ _ rfl rfl rfl
        · exact hgo _ _ _ rfl rfl rfl

/-- A turn that is not just a read: the owner's, in which nobody is told, or one in which
    nothing arrives, and the owner is told that the connection is closed. -/
theorem recvLoopFull_other {conn : Connection} (hrun : conn.running = true) (hopen : conn.socket = true) (since : Nat)
    {t : Turn} (h : t.reads = false) (ts : List Turn) :
    (t.owner ≠ .never ∧ (t.unstopped = true → t.kernel.transient = false) ∧
      t ∈ (conn.recvLoopFull since (t :: ts)).taken ∧ (conn.recvLoopFull since (t :: ts)).told = []) ∨
    (t.unstopped = true ∧ (∀ chunk, t.kernel ≠ .received chunk) ∧ conn.recvLoopFull since (t :: ts) =
      { taken := [t], asked := [t.kernel], told := [str "Connection closed"], ended := some .closed }) := by
  cases ho : t.owner with
  | never =>
    have hk : ∀ chunk, t.kernel ≠ .received chunk := by
      intro chunk hk
      rw [(Turn.reads_iff t).mpr ⟨ho, chunk, hk⟩] at h
      cases h
    refine Or.inr ⟨by simp [Turn.unstopped, ho], hk, ?_⟩
    cases hkk : t.kernel with
    | received chunk => exact absurd hkk (hk chunk)
    | close | EAGAIN | EWOULDBLOCK | EINTR | error =>
      simp [recvLoopFull, ho, hkk, stoppedIf, hrun, hopen, TcpSocket.recv]
  | beforeCheck => exact Or.inl (by simp [recvLoopFull, Turn.unstopped, ho, stoppedIf, destroyed])
  | beforeRecv =>
    exact Or.inl (by simp [recvLoopFull, Turn.unstopped, ho, stoppedIf, hrun, destroyed, TcpSocket.recv])
  | beforeResult =>
    refine Or.inl ⟨by simp, by simp [Turn.unstopped, ho], ?_⟩
    cases hkk : t.kernel with
    | received chunk => exact recvLoopFull_received hrun hopen since hkk (Or.inl ho) ts
    | close | EAGAIN | EWOULDBLOCK | EINTR | error =>
      simp [recvLoopFull, ho, hkk, stoppedIf, hrun, hopen, destroyed, TcpSocket.recv]
  | afterResult =>
    cases hkk : t.kernel with
    | received chunk =>
      exact Or.inl ⟨by simp, fun _ => rfl, recvLoopFull_received hrun hopen since hkk (Or.inr ho) ts⟩
    | close | EAGAIN | EWOULDBLOCK | EINTR | error =>
      refine Or.inr ⟨by simp [Turn.unstopped, ho], by simp, ?_⟩
      simp [recvLoopFull, ho, hkk, stoppedIf, hrun, hopen, TcpSocket.recv]

end Connection

/-- The loop feeds the reader what it receives, as it comes. -/
theorem fed_received (turns : List Turn) : ∀ (conn : Connection) (since : Nat),
    (conn.recvLoopFull since turns).fed.flatten = (conn.recvLoopFull since turns).asked.flatMap KernelRecv.data := by
  induction turns with
  | nil => exact fun _ _ => rfl
  | cons t ts ih =>
    intro conn since
    rw [Connection.recvLoopFull]
    simp only
    split
    · obtain ⟨hdata, hnone⟩ := TcpSocket.recv_spec
        ((conn.stoppedIf (t.owner = .beforeCheck)).stoppedIf (t.owner = .beforeRecv)).socket t.kernel
      split
      · rename_i hle
        have hnil := hnone.mp hle
        rw [hnil] at hdata
        split <;> exact hdata
      · split
        · simpa using hdata
        · split
          · split
            · simpa using hdata
            · simp only [Trace.andThen, List.flatten_append, List.flatMap_append, ih]
              simpa using hdata
          · simp only [Trace.andThen, List.flatten_append, List.flatMap_append, ih]
            simpa using hdata
    · rfl

/-! ## Runs -/

/-- The loop through reads: it tells nobody, and goes on after them or has ended in one. -/
structure Connection.Through (conn : Connection) (since : Nat) (us : List Turn) : Prop where
  untold : (conn.recvLoopFull since us).told = []
  taken : ∀ t ∈ (conn.recvLoopFull since us).taken, t ∈ us
  rest :
    ((conn.recvLoopFull since us).ended = none ∧ ∃ (conn' : Connection) (since' : Nat), conn'.running = true ∧
      conn'.socket = true ∧ ∀ vs, conn.recvLoopFull since (us ++ vs) =
        (conn.recvLoopFull since us).andThen (conn'.recvLoopFull since' vs)) ∨
    ((conn.recvLoopFull since us).ended ≠ none ∧
      ∀ vs, conn.recvLoopFull since (us ++ vs) = conn.recvLoopFull since us)

/-- A turn before them, after which the loop goes on. -/
theorem Connection.Through.cons {conn conn' : Connection} {since since' : Nat} {us : List Turn} {turn : Trace}
    {t : Turn} (hr : conn'.Through since' us) (htold : turn.told = []) (htaken : turn.taken = [t])
    (h : ∀ vs, conn.recvLoopFull since (t :: vs) = turn.andThen (conn'.recvLoopFull since' vs)) :
    conn.Through since (t :: us) := by
  refine ⟨?_, ?_, ?_⟩
  · rw [h us, Trace.andThen, htold, hr.untold, List.nil_append]
  · intro x hx
    rw [h us, Trace.andThen, htaken] at hx
    rcases List.mem_append.mp hx with hx | hx
    · exact List.mem_cons.mpr (Or.inl (List.mem_singleton.mp hx))
    · exact List.mem_cons_of_mem _ (hr.taken x hx)
  · rw [h us]
    rcases hr.rest with ⟨hend, conn'', since'', hrun'', hopen'', happ⟩ | ⟨hend, happ⟩
    · refine Or.inl ⟨hend, conn'', since'', hrun'', hopen'', fun vs => ?_⟩
      rw [List.cons_append, h, happ, Trace.andThen_assoc]
    · refine Or.inr ⟨hend, fun vs => ?_⟩
      rw [List.cons_append, h, happ]

/-- A turn before them in which the loop ends. -/
theorem Connection.Through.last {conn : Connection} {since : Nat} {us : List Turn} {turn : Trace} {t : Turn}
    (htold : turn.told = []) (htaken : turn.taken = [t]) (hend : turn.ended ≠ none)
    (h : ∀ vs, conn.recvLoopFull since (t :: vs) = turn) : conn.Through since (t :: us) := by
  refine ⟨by rw [h us, htold], ?_, Or.inr ⟨by rw [h us]; exact hend, fun vs => by rw [List.cons_append, h, h]⟩⟩
  intro x hx
  rw [h us, htaken] at hx
  exact List.mem_cons.mpr (Or.inl (List.mem_singleton.mp hx))

theorem recvLoopFull_reads (us : List Turn) (hus : ∀ t ∈ us, t.reads = true) : ∀ (conn : Connection) (since : Nat),
    conn.running = true → conn.socket = true → conn.Through since us := by
  induction us with
  | nil =>
    intro conn since hrun hopen
    refine ⟨rfl, fun t ht => (by cases ht), Or.inl ⟨rfl, conn, since, hrun, hopen, fun vs => ?_⟩⟩
    simp [Connection.recvLoopFull, Trace.andThen]
  | cons t us ih =>
    intro conn since hrun hopen
    have ih := ih fun x hx => hus x (List.mem_cons_of_mem _ hx)
    obtain ⟨ho, chunk, hk⟩ := (Turn.reads_iff t).mp (hus t List.mem_cons_self)
    rcases Connection.recvLoopFull_read hrun hopen since ho hk with ⟨reason, conn', -, h⟩ |
      ⟨frames, conn', -, hrun', hopen', h⟩
    · exact .last rfl rfl (by simp) h
    · by_cases hcheck : 1 ≤ (t.time - since) / second
      · simp only [if_pos hcheck] at h
        by_cases hover : 100 < conn'.frameCount
        · simp only [if_pos hover] at h
          exact .last rfl rfl (by simp) h
        · simp only [if_neg hover] at h
          exact (ih { conn' with frameCount := 0 } t.time hrun' hopen').cons rfl rfl h
      · simp only [if_neg hcheck] at h
        exact (ih conn' since hrun' hopen').cons rfl rfl h

/-- A stop within no turn: the loop is the one that asks no kernel. -/
theorem recvLoopFull_timed (turns : List Turn) (h : ∀ t ∈ turns, t.owner = .never ∨ t.owner = .beforeCheck) :
    ∀ (conn : Connection) (since : Nat), conn.socket = true →
    (conn.recvLoopFull since turns).handed = (conn.recvLoopTimed since (turns.map Turn.read)).handed ∧
      (conn.recvLoopFull since turns).ended = (conn.recvLoopTimed since (turns.map Turn.read)).ended := by
  induction turns with
  | nil => exact fun _ _ _ => ⟨rfl, rfl⟩
  | cons t ts ih =>
    intro conn since hopen
    have ih := ih fun x hx => h x (List.mem_cons_of_mem _ hx)
    rw [List.map_cons]
    rcases h t List.mem_cons_self with ho | ho
    · cases hrun : conn.running with
      | false => simp [Connection.recvLoopFull, Connection.recvLoopTimed, Connection.stoppedIf, ho, hrun]
      | true =>
        by_cases hk : ∃ chunk, t.kernel = .received chunk
        · obtain ⟨chunk, hk⟩ := hk
          have hread : t.read = { stopped := false, time := t.time, data := some chunk.bytes } := by
            simp [Turn.read, ho, hk]
          rw [hread]
          simp only [Connection.recvLoopTimed, hrun, Bool.not_false, Bool.and_self, if_true]
          rcases Connection.recvLoopFull_read hrun hopen since ho hk with ⟨reason, conn', hdec, hloop⟩ |
            ⟨frames, conn', hdec, -, hopen', hloop⟩
          · rw [hloop ts, hdec]
            exact ⟨rfl, rfl⟩
          · rw [hloop ts, hdec]
            simp only
            split
            · split
              · exact ⟨rfl, rfl⟩
              · obtain ⟨h1, h2⟩ := ih { conn' with frameCount := 0 } t.time hopen'
                exact ⟨congrArg _ h1, h2⟩
            · obtain ⟨h1, h2⟩ := ih conn' since hopen'
              exact ⟨congrArg _ h1, h2⟩
        · have hnot : t.reads = false := by
            rw [← Bool.not_eq_true, Turn.reads_iff]
            exact fun hr => hk hr.2
          have hread : t.read = { stopped := false, time := t.time, data := none } := by
            unfold Turn.read
            cases hkk : t.kernel with
            | received chunk => exact absurd ⟨chunk, hkk⟩ hk
            | close | EAGAIN | EWOULDBLOCK | EINTR | error => simp [ho]
          rcases Connection.recvLoopFull_other hrun hopen since hnot ts with ⟨hne, -⟩ | ⟨-, -, hloop⟩
          · exact absurd ho hne
          · rw [hloop, hread]
            simp [Connection.recvLoopTimed, hrun]
    · simp [Connection.recvLoopFull, Connection.recvLoopTimed, Connection.stoppedIf, Connection.destroyed, Turn.read,
        ho]

/-- Every read hands out a batch just if there is no violation. -/
theorem batches_length_iff {max : Nat} (us : List Turn) (hus : ∀ t ∈ us, t.reads = true) :
    ∀ {r : FrameReader} {p : Bytes} {os : List Frame},
    Drains FrameReader.turn ((FrameReader.new max).push p) os none r →
    ((batches r (us.map Turn.read)).length = us.length ↔ ¬ Violates max (p ++ received us)) := by
  induction us with
  | nil =>
    intro r p os hD
    have hnot := (FrameReader.new_drains hD).2.not.mp (by simp)
    simpa [batches, received] using hnot
  | cons t us ih =>
    intro r p os hD
    obtain ⟨ho, chunk, hk⟩ := (Turn.reads_iff t).mp (hus t List.mem_cons_self)
    have hread : t.read = { stopped := false, time := t.time, data := some chunk.bytes } := by
      simp [Turn.read, ho, hk]
    have hrec : p ++ received (t :: us) = p ++ chunk.bytes ++ received us := by
      simp [received, hk, KernelRecv.data]
    obtain ⟨os', hd, -⟩ := FrameReader.feed_drains r chunk.bytes
    have hpc := hD.push_ok FrameReader.turn_stable rfl hd
    rw [FrameReader.turn_stable.push_push] at hpc
    rw [List.map_cons, hread, hrec]
    cases hf : r.feed chunk.bytes with
    | mk res u =>
      rw [hf] at hpc
      cases res with
      | ok frames =>
        rw [← ih (fun x hx => hus x (List.mem_cons_of_mem _ hx)) hpc]
        simp [batches, hf]
      | error e =>
        have hv := (FrameReader.new_drains hpc).2.mp (by simp [FrameReader.thrown])
        have hv := ((complete_append max (p ++ chunk.bytes) (received us)).2.mp hv).1
        exact iff_of_false (by simp [batches, hf]) (not_not.mpr hv)

/-- The loop goes on just if it is spared. -/
theorem goes_on_iff (max start : Nat) (us : List Turn) (hus : ∀ t ∈ us, t.reads = true) :
    ((started max).recvLoopFull start us).ended = none ↔ Spared max start us := by
  have hstart : Drains FrameReader.turn ((FrameReader.new max).push []) [] none (started max).reader := by
    rw [FrameReader.turn_stable.push_nil]
    exact .wait (FrameReader.new_waits max)
  have hlen := batches_length_iff us hus hstart
  rw [List.nil_append] at hlen
  have howner : ∀ t ∈ us, t.owner = .never ∨ t.owner = .beforeCheck :=
    fun t ht => Or.inl ((Turn.reads_iff t).mp (hus t ht)).1
  rw [(recvLoopFull_timed us howner (started max) start rfl).2]
  obtain ⟨-, hlim, hrest⟩ := recvLoopTimed_spec (us.map Turn.read) (started max) start [] rfl rfl
  constructor
  · intro hend
    have hnot : ¬ Overfull start [] (batches (started max).reader (us.map Turn.read)) := by
      intro hover
      have hreason := hlim.mpr hover
      rw [Handling.reason, hend] at hreason
      cases hreason
    have hall := (hrest hnot).2.mp hend
    rw [List.length_map] at hall
    exact ⟨hlen.mp hall, hnot⟩
  · intro h
    obtain ⟨hv, hover⟩ := h
    refine (hrest hover).2.mpr ?_
    rw [List.length_map]
    exact hlen.mpr hv

/-- The first turn that is not just a read, if the loop comes to it. -/
theorem recvLoopFull_cases (max start : Nat) (turns : List Turn) :
    let tr := (started max).recvLoopFull start turns
    (¬ Spared max start (reading turns) ∧ tr.told = [] ∧ tr.ended ≠ none ∧ ∀ t ∈ tr.taken, t.owner = .never) ∨
    (Spared max start (reading turns) ∧
      ((turns.dropWhile Turn.reads = [] ∧ tr.told = [] ∧ tr.ended = none) ∨
       ∃ t ts, turns.dropWhile Turn.reads = t :: ts ∧
        ((t.owner ≠ .never ∧ (t.unstopped = true → t.kernel.transient = false) ∧ t ∈ tr.taken ∧ tr.told = []) ∨
         (t.unstopped = true ∧ (∀ chunk, t.kernel ≠ .received chunk) ∧ tr.told = [str "Connection closed"] ∧
          tr.asked.getLast? = some t.kernel)))) := by
  have hus : ∀ t ∈ reading turns, t.reads = true := fun t ht => List.mem_takeWhile_imp ht
  have hsplit : turns = reading turns ++ turns.dropWhile Turn.reads := List.takeWhile_append_dropWhile.symm
  obtain ⟨huntold, htaken, hrest⟩ := recvLoopFull_reads (reading turns) hus (started max) start rfl rfl
  have hgo := goes_on_iff max start (reading turns) hus
  rcases hrest with ⟨hend, conn', since', hrun', hopen', happ⟩ | ⟨hend, happ⟩
  · refine Or.inr ⟨hgo.mp hend, ?_⟩
    have hwhole := happ (turns.dropWhile Turn.reads)
    rw [← hsplit] at hwhole
    rw [hwhole]
    cases hv : turns.dropWhile Turn.reads with
    | nil => exact Or.inl ⟨rfl, by simp [Trace.andThen, huntold, Connection.recvLoopFull], rfl⟩
    | cons t ts =>
      have hnot : t.reads = false := by
        have hhead := List.head?_dropWhile_not Turn.reads turns
        rw [hv] at hhead
        exact hhead
      refine Or.inr ⟨t, ts, rfl, ?_⟩
      rcases Connection.recvLoopFull_other hrun' hopen' since' hnot ts with ⟨hne, htr, hmem, htold⟩ | ⟨hun, hk, hloop⟩
      · exact Or.inl ⟨hne, htr, List.mem_append_right _ hmem, by rw [Trace.andThen, huntold, htold]; rfl⟩
      · rw [hloop]
        exact Or.inr ⟨hun, hk, by rw [Trace.andThen, huntold]; rfl, by simp [Trace.andThen]⟩
  · refine Or.inl ⟨fun h => hend (hgo.mpr h), ?_⟩
    have hwhole := happ (turns.dropWhile Turn.reads)
    rw [← hsplit] at hwhole
    rw [hwhole]
    exact ⟨huntold, hend, fun t ht => ((Turn.reads_iff t).mp (hus t (htaken t ht))).1⟩

/-! ## Who is told -/

/-- If the connection was lost and the owner has not stopped it, the owner was told, once;
    and never twice. -/
def Tells (tr : Trace) : Prop :=
  (tr.ended ≠ none → (∀ t ∈ tr.taken, t.owner = .never) → tr.told.length = 1) ∧ tr.told.length ≤ 1

instance (tr : Trace) : Decidable (Tells tr) := by unfold Tells; infer_instance

/-- The owner is told of a lost connection just if neither a violation nor the rate limit
    ends it. -/
theorem tells_iff (max start : Nat) (turns : List Turn) :
    Tells ((started max).recvLoopFull start turns) ↔ Spared max start (reading turns) := by
  rcases recvLoopFull_cases max start turns with ⟨hnot, htold, hend, howner⟩ | ⟨hsp, hcase⟩
  · refine iff_of_false (fun h => ?_) hnot
    have := h.1 hend howner
    rw [htold] at this
    cases this
  · refine iff_of_true ?_ hsp
    rcases hcase with ⟨-, htold, hend⟩ | ⟨t, ts, -, ⟨hne, -, hmem, htold⟩ | ⟨-, -, htold, -⟩⟩
    · exact ⟨fun h => absurd hend h, by simp [htold]⟩
    · exact ⟨fun _ howner => absurd (howner t hmem) hne, by simp [htold]⟩
    · exact ⟨fun _ _ => by simp [htold], by simp [htold]⟩

/-- Twelve bytes that are no header: the loop ends and the application is not told. -/
theorem violation_untold :
    let bad : Chunk := ⟨List.replicate kFrameHeaderSize 0, by decide, by decide⟩
    let tr := (started kMaxPayloadSize).recvLoopFull 0 [{ kernel := .received bad, time := 0 }]
    tr.ended = some (.violation (str "Protocol error: Protocol violation: invalid magic or version")) ∧
      tr.told = [] ∧ ¬ Tells tr := by
  decide +kernel

/-! ## What is no close -/

/-- A close is reported only after a close or a real error; what is fed is what arrived. -/
def Patient (tr : Trace) : Prop :=
  (tr.told ≠ [] → ∃ kernel, tr.asked.getLast? = some kernel ∧ kernel.final = true) ∧
    tr.fed.flatten = tr.asked.flatMap KernelRecv.data

/-- The loop is patient just if it does not come to a turn in which `recv` is interrupted, or
    times out, and the owner has not stopped it by then. -/
theorem patient_iff (max start : Nat) (turns : List Turn) :
    Patient ((started max).recvLoopFull start turns) ↔
      ¬ (Spared max start (reading turns) ∧ ∃ t ts, turns.dropWhile Turn.reads = t :: ts ∧ t.unstopped = true ∧
        t.kernel.transient = true) := by
  have hfed := fed_received turns (started max) start
  rcases recvLoopFull_cases max start turns with ⟨hnot, htold, -, -⟩ | ⟨hsp, hcase⟩
  · exact iff_of_true ⟨fun h => absurd htold h, hfed⟩ fun h => hnot h.1
  · rcases hcase with ⟨hnil, htold, -⟩ | ⟨t, ts, hcons, ⟨-, htr, -, htold⟩ | ⟨hun, hk, htold, hlast⟩⟩
    · refine iff_of_true ⟨fun h => absurd htold h, hfed⟩ fun h => ?_
      obtain ⟨-, t, ts, hcons, -⟩ := h
      rw [hnil] at hcons
      cases hcons
    · refine iff_of_true ⟨fun h => absurd htold h, hfed⟩ fun h => ?_
      obtain ⟨-, t', ts', hcons', hun, htrans⟩ := h
      rw [hcons] at hcons'
      cases hcons'
      rw [htr hun] at htrans
      cases htrans
    · -- nothing arrived in this turn, and the close is reported
      have hfinal : t.kernel.final = !t.kernel.transient := by
        cases hkk : t.kernel with
        | received chunk => exact absurd hkk (hk chunk)
        | close | EAGAIN | EWOULDBLOCK | EINTR | error => rfl
      constructor
      · intro h hbad
        obtain ⟨-, t', ts', hcons', -, htrans⟩ := hbad
        rw [hcons] at hcons'
        cases hcons'
        obtain ⟨kernel, hget, hfin⟩ := h.1 (by simp [htold])
        rw [hlast] at hget
        cases hget
        rw [hfinal, htrans] at hfin
        cases hfin
      · intro h
        refine ⟨fun _ => ⟨t.kernel, hlast, ?_⟩, hfed⟩
        rw [hfinal, Bool.not_eq_true']
        by_contra htrans
        rw [Bool.not_eq_false] at htrans
        exact h ⟨hsp, t, ts, hcons, hun, htrans⟩

/-- A signal while the loop waits for the first byte: it reports a close. -/
theorem interrupted_closed :
    let turns : List Turn := [{ kernel := .EINTR, time := 0 }, { kernel := .close, time := 1 }]
    let tr := (started kMaxPayloadSize).recvLoopFull 0 turns
    tr.told = [str "Connection closed"] ∧ tr.asked = [.EINTR] ∧ ¬ Patient tr := by
  refine ⟨by decide +kernel, by decide +kernel, fun h => ?_⟩
  obtain ⟨kernel, hget, hfin⟩ := h.1 (by decide +kernel)
  have hlast : some KernelRecv.EINTR = some kernel := hget
  cases hlast
  cases hfin

end LanTalk.Network
