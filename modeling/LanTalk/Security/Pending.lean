/-
  LanTalk.Security.Pending — the challenges an `Authenticator` has sent and not had answered
  (`sendChallenge`, `storePendingChallenge`, `getPendingChallenge` and
  `clearPendingChallenge` of `src/security/authentication.cpp`), over any order of calls
  for any set of open connections.

  A challenge is recorded under its connection's remote address, and that
  (`TcpSocket::remoteAddress`) is the peer's IP address without its port: connections from
  one host share one entry.

  Proved:
  - `remoteAddress_eq_iff`: two addresses are one just if the hosts are.
  - `recorded_iff`: each connection has the challenge it was last sent, until it is cleared
    for it, all through a run, just if no call replaces or removes one that another
    connection from the same host is still to answer (`one_host_two_connections`).
-/

import LanTalk.Security.Authentication

namespace LanTalk.Network

open LanTalk.Lib

/-- The `sockaddr_in` of a peer. -/
structure Endpoint where
  host : UInt8 × UInt8 × UInt8 × UInt8
  port : UInt16
  deriving DecidableEq

def dot : UInt8 := 46

/-- `inet_ntop(AF_INET, …)`. -/
def hostText (host : UInt8 × UInt8 × UInt8 × UInt8) : Bytes :=
  natText host.1.toNat ++ dot :: (natText host.2.1.toNat ++ dot :: (natText host.2.2.1.toNat ++ dot ::
    natText host.2.2.2.toNat))

/-- `remoteAddress()` of a socket whose peer is this. -/
def TcpSocket.remoteAddress (valid : Bool) (peer : Endpoint) : Bytes := if valid then hostText peer.host else []

/-- What a number before a dot was. -/
theorem natText_dot {n m : Nat} {r s : Bytes} (h : natText n ++ dot :: r = natText m ++ dot :: s) :
    n = m ∧ r = s := by
  have hdot : ∀ t : Bytes, ∀ c ∈ (dot :: t).head?, isdigit c = false := by
    intro t c hc
    rw [List.head?_cons, Option.mem_some_iff] at hc
    rw [← hc]
    decide
  have hn : natText n = natText m := by
    have htake := congrArg (List.takeWhile isdigit) h
    rwa [takeWhile_digits (hdot r), takeWhile_digits (hdot s)] at htake
  rw [hn, List.append_cancel_left_eq, List.cons.injEq] at h
  refine ⟨?_, h.2⟩
  rw [← natValue_natText n, hn, natValue_natText]

theorem TcpSocket.remoteAddress_eq_iff (p q : Endpoint) :
    TcpSocket.remoteAddress true p = TcpSocket.remoteAddress true q ↔ p.host = q.host := by
  constructor
  · intro h
    obtain ⟨ha, h⟩ := natText_dot h
    obtain ⟨hb, h⟩ := natText_dot h
    obtain ⟨hc, h⟩ := natText_dot h
    have hd : p.host.2.2.2.toNat = q.host.2.2.2.toNat := by
      rw [← natValue_natText p.host.2.2.2.toNat, h, natValue_natText]
    rw [UInt8.toNat_inj] at ha hb hc hd
    exact Prod.ext ha (Prod.ext hb (Prod.ext hc hd))
  · intro h
    rw [remoteAddress, remoteAddress, h]

end LanTalk.Network

namespace LanTalk.Security

open LanTalk.Lib LanTalk.Network

/-- `pendingChallenges_`. -/
structure Authenticator where
  pendingChallenges : Bytes → Option Bytes := fun _ => none

namespace Authenticator

def storePendingChallenge (auth : Authenticator) (connId challenge : Bytes) : Authenticator :=
  { auth with pendingChallenges := Function.update auth.pendingChallenges connId (some challenge) }

def getPendingChallenge (auth : Authenticator) (connId : Bytes) : Option Bytes := auth.pendingChallenges connId

def clearPendingChallenge (auth : Authenticator) (connId : Bytes) : Authenticator :=
  { auth with pendingChallenges := Function.update auth.pendingChallenges connId none }

/-- `sendChallenge(conn)`, where `generateChallenge` gives this one, with the payload it sends. -/
def sendChallenge (auth : Authenticator) (peer : Endpoint) (challenge : Bytes) : Authenticator × Bytes :=
  (auth.storePendingChallenge (TcpSocket.remoteAddress true peer) challenge, challengePayload challenge)

end Authenticator

/-- A call for a connection; `storePendingChallenge` and `clearPendingChallenge` are passed
    what `sendChallenge` would record under. -/
inductive Call (κ : Type) where
  | send (conn : κ) (challenge : Bytes)
  | store (conn : κ) (challenge : Bytes)
  | clear (conn : κ)
  deriving DecidableEq

section
variable {κ : Type}

def Call.conn : Call κ → κ
  | .send conn _ | .store conn _ | .clear conn => conn

/-- What the call leaves recorded for its connection. -/
def Call.leaves : Call κ → Option Bytes
  | .send _ challenge | .store _ challenge => some challenge
  | .clear _ => none

variable (peer : κ → Endpoint)

def Call.apply (auth : Authenticator) : Call κ → Authenticator
  | .send conn challenge => (auth.sendChallenge (peer conn) challenge).1
  | .store conn challenge => auth.storePendingChallenge (TcpSocket.remoteAddress true (peer conn)) challenge
  | .clear conn => auth.clearPendingChallenge (TcpSocket.remoteAddress true (peer conn))

def runCalls (calls : List (Call κ)) : Authenticator := calls.foldl (Call.apply peer) {}

theorem apply_pending (auth : Authenticator) (call : Call κ) :
    (call.apply peer auth).pendingChallenges =
      Function.update auth.pendingChallenges (TcpSocket.remoteAddress true (peer call.conn)) call.leaves := by
  cases call <;> rfl

variable [DecidableEq κ]

/-- The challenge last sent on a connection and not cleared for it. -/
def unanswered (calls : List (Call κ)) (conn : κ) : Option Bytes :=
  ((calls.filter fun c => c.conn = conn).getLast?).bind Call.leaves

/-- Each connection has its challenge recorded. -/
def Recorded (calls : List (Call κ)) : Prop :=
  ∀ conn challenge, unanswered calls conn = some challenge →
    (runCalls peer calls).getPendingChallenge (TcpSocket.remoteAddress true (peer conn)) = some challenge

/-- No other connection from the same host has a challenge to answer but the one that the
    call leaves. -/
def Alone (before : List (Call κ)) (call : Call κ) : Prop :=
  ∀ conn, conn ≠ call.conn → (peer conn).host = (peer call.conn).host →
    ∀ challenge, unanswered before conn = some challenge → call.leaves = some challenge

/-! ## One call -/

theorem unanswered_snoc (before : List (Call κ)) (call : Call κ) (conn : κ) :
    unanswered (before ++ [call]) conn = if call.conn = conn then call.leaves else unanswered before conn := by
  unfold unanswered
  rw [List.filter_append]
  split
  · rename_i h
    rw [List.filter_cons_of_pos (by simpa using h), List.filter_nil, List.getLast?_concat]
    rfl
  · rename_i h
    rw [List.filter_cons_of_neg (by simpa using h), List.filter_nil, List.append_nil]

/-- A call keeps the challenges recorded just if it is alone. -/
theorem recorded_snoc {before : List (Call κ)} (h : Recorded peer before) (call : Call κ) :
    Recorded peer (before ++ [call]) ↔ Alone peer before call := by
  have hrun : (runCalls peer (before ++ [call])).pendingChallenges =
      Function.update (runCalls peer before).pendingChallenges (TcpSocket.remoteAddress true (peer call.conn))
        call.leaves := by
    rw [runCalls, List.foldl_append]
    exact apply_pending peer _ call
  unfold Recorded Authenticator.getPendingChallenge
  rw [hrun]
  constructor
  · intro hrec conn hne hhost challenge hun
    have haddr := (TcpSocket.remoteAddress_eq_iff _ _).mpr hhost
    have hget := hrec conn challenge (by rw [unanswered_snoc, if_neg (Ne.symm hne)]; exact hun)
    rwa [haddr, Function.update_self] at hget
  · intro halone conn challenge hun
    rw [unanswered_snoc] at hun
    by_cases hc : call.conn = conn
    · rw [if_pos hc] at hun
      rw [← hc, Function.update_self]
      exact hun
    · rw [if_neg hc] at hun
      by_cases hhost : (peer conn).host = (peer call.conn).host
      · rw [(TcpSocket.remoteAddress_eq_iff _ _).mpr hhost, Function.update_self]
        exact halone conn (Ne.symm hc) hhost challenge hun
      · have haddr := (TcpSocket.remoteAddress_eq_iff _ _).not.mpr hhost
        rw [Function.update_of_ne haddr]
        exact h conn challenge hun

/-! ## Runs -/

/-- All through a run each connection has its challenge recorded just if every call is alone. -/
theorem recorded_iff (calls : List (Call κ)) :
    (∀ before, before <+: calls → Recorded peer before) ↔
      ∀ before call after, calls = before ++ call :: after → Alone peer before call := by
  constructor
  · intro h before call after hcalls
    have hbefore := h before ⟨call :: after, hcalls.symm⟩
    refine (recorded_snoc peer hbefore call).mp (h (before ++ [call]) ⟨after, ?_⟩)
    rw [hcalls, List.append_assoc]
    rfl
  · intro h before
    induction before using List.reverseRecOn with
    | nil =>
      intro _ conn challenge hun
      cases hun
    | append_singleton before call ih =>
      intro hpre
      obtain ⟨after, hcalls⟩ := hpre
      rw [List.append_assoc] at hcalls
      have hrec := ih ⟨_, hcalls⟩
      exact (recorded_snoc peer hrec call).mpr (h before call after hcalls.symm)

end

/-- Two connections from one host, challenged one after the other: the first one's answer is
    compared with the second one's challenge. -/
theorem one_host_two_connections :
    let peer : Bool → Endpoint := fun second => ⟨(10, 0, 0, 2), if second then 40001 else 40000⟩
    let calls := [Call.send false (str "first"), Call.send true (str "second")]
    (runCalls peer calls).getPendingChallenge (TcpSocket.remoteAddress true (peer false)) = some (str "second") ∧
      unanswered calls false = some (str "first") ∧ ¬ Recorded peer calls := by
  refine ⟨by decide +kernel, by decide +kernel, fun h => ?_⟩
  have hrec := h false (str "first") (by decide +kernel)
  revert hrec
  decide +kernel

end LanTalk.Security
