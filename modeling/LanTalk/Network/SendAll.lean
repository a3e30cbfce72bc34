/-
  LanTalk.Network.SendAll — `TcpSocket::sendAll` (`src/network/tcp_socket.cpp`) with its
  widths: the lengths are 64 bits, but what is left to send is passed to `::send` as an
  `int`, which `::send` takes as a `size_t` again (`sendCount`). A remainder whose low 32
  bits are 2^31 or more is asked for as almost 2^64 bytes, and a multiple of 2^32 as none,
  which the kernel grants without end.

  `Legal` is what the kernel promises: it takes no more than it was asked for, and
  something if it was asked for anything.

  Proved:
  - `sendAll_exact_iff`: a call transmits exactly its buffer just if every remainder it
    comes to keeps its value in the cast (`Castable`); whatever the kernel does, just if the
    buffer has fewer than 2^31 bytes (`overlong_request`).
  - `sendAll_refines`: such a call that returns is the `sendAll` that takes a first part.
-/

import LanTalk.Network.Stream

namespace LanTalk.Network

open LanTalk.Lib

/-- A `std::vector<uint8_t>`; none has more than `PTRDIFF_MAX` bytes. -/
structure Buffer where
  bytes : Bytes
  bounded : bytes.length < 2 ^ 63

/-- What `::send` returns, and `errno` where it is an error. -/
inductive KernelSend where
  | took (n : Nat)
  | EAGAIN
  | EWOULDBLOCK
  | EINTR
  | error
  deriving DecidableEq

def KernelSend.taken : KernelSend → Nat
  | .took n => n
  | _ => 0

/-- `static_cast<int>(n)`, as the `size_t` that `::send` takes. -/
def sendCount (n : Nat) : Nat := (((BitVec.ofNat 64 n).setWidth 32).signExtend 64).toNat

/-- `::send` of `count` bytes from `offset` in the buffer on. -/
structure KernelCall where
  offset : Nat
  count : Nat
  outcome : KernelSend
  deriving DecidableEq

/-- The calls of a `sendAll`, and what it returned if it did. -/
structure Transmission where
  calls : List KernelCall
  returned : Option Bool
  deriving DecidableEq

def Transmission.after (c : KernelCall) (tr : Transmission) : Transmission := { tr with calls := c :: tr.calls }

/-- The loop, `totalSent` bytes of `len` being sent. -/
def TcpSocket.sendLoop (len totalSent : Nat) : List KernelSend → Transmission
  | [] => { calls := [], returned := if totalSent < len then none else some true }
  | outcome :: outcomes =>
    if totalSent < len then
      let call : KernelCall := ⟨totalSent, sendCount (len - totalSent), outcome⟩
      match outcome with
      | .EAGAIN | .EWOULDBLOCK | .EINTR => (sendLoop len totalSent outcomes).after call
      | .error => { calls := [call], returned := some false }
      | .took n => (sendLoop len ((totalSent + n) % 2 ^ 64) outcomes).after call
    else { calls := [], returned := some true }

/-- `sendAll(data)` while the kernel does this. -/
def TcpSocket.sendAll (valid : Bool) (data : Bytes) (outcomes : List KernelSend) : Transmission :=
  if valid then sendLoop data.length 0 outcomes else { calls := [], returned := some false }

/-- The bytes a call takes; `beyond` is the memory behind the buffer. -/
def KernelCall.bytes (data beyond : Bytes) (c : KernelCall) : Bytes :=
  ((data ++ beyond).drop c.offset).take c.outcome.taken

def Transmission.accepted (data beyond : Bytes) (tr : Transmission) : Bytes :=
  tr.calls.flatMap (KernelCall.bytes data beyond)

def KernelCall.Legal (c : KernelCall) : Prop :=
  ∀ n, c.outcome = .took n → n ≤ c.count ∧ n < 2 ^ 63 ∧ (0 < c.count → 0 < n)

def Transmission.Legal (tr : Transmission) : Prop := ∀ c ∈ tr.calls, c.Legal

/-- What `sendAll` is for. -/
structure Transmission.Exact (data beyond : Bytes) (tr : Transmission) : Prop where
  within : ∀ c ∈ tr.calls, c.offset + c.count ≤ data.length
  progress : ∀ c ∈ tr.calls, ∀ n, c.outcome = .took n → 0 < n
  whole : tr.returned = some true ↔ tr.accepted data beyond = data
  part : tr.returned = some false → tr.accepted data beyond <+: data ∧ tr.accepted data beyond ≠ data

/-- Each time the kernel is asked, the low 32 bits of what is left are below 2^31, and not 0
    if the kernel takes of it. -/
def Castable (len : Nat) (outcomes : List KernelSend) : Prop :=
  ∀ before o after, outcomes = before ++ o :: after → KernelSend.error ∉ before →
    0 < len - (before.map KernelSend.taken).sum →
      (len - (before.map KernelSend.taken).sum) % 2 ^ 32 < 2 ^ 31 ∧
      ∀ n, o = .took n → 0 < (len - (before.map KernelSend.taken).sum) % 2 ^ 32

/-! ## The cast -/

theorem sendCount_eq (n : Nat) :
    sendCount n = if n % 2 ^ 32 < 2 ^ 31 then n % 2 ^ 32 else 2 ^ 64 - 2 ^ 32 + n % 2 ^ 32 := by
  have hlow : ((BitVec.ofNat 64 n).setWidth 32).toNat = n % 2 ^ 32 := by
    simp only [BitVec.toNat_setWidth, BitVec.toNat_ofNat]
    omega
  have hmsb : ((BitVec.ofNat 64 n).setWidth 32).msb = decide (2 ^ 31 ≤ n % 2 ^ 32) := by
    rw [BitVec.msb_eq_decide, hlow]
  rw [sendCount, BitVec.toNat_signExtend, hmsb, BitVec.toNat_setWidth, hlow]
  by_cases h : n % 2 ^ 32 < 2 ^ 31
  · rw [if_pos h, if_neg (by simpa using h)]
    omega
  · rw [if_neg h, if_pos (by simpa using h)]
    omega

/-- A count that keeps its value is no more than what is left; one that does not is too large. -/
theorem sendCount_le_iff {n : Nat} (h : n < 2 ^ 63) : sendCount n ≤ n ↔ n % 2 ^ 32 < 2 ^ 31 := by
  rw [sendCount_eq]
  split <;> omega

theorem sendCount_pos_iff {n : Nat} : 0 < sendCount n ↔ 0 < n % 2 ^ 32 := by
  rw [sendCount_eq]
  split <;> omega

/-! ## Remainders -/

theorem castable_nil (len : Nat) : Castable len [] := by
  intro before o after h
  simp at h

theorem castable_cons (len : Nat) (o : KernelSend) (os : List KernelSend) :
    Castable len (o :: os) ↔
      (0 < len → len % 2 ^ 32 < 2 ^ 31 ∧ ∀ n, o = .took n → 0 < len % 2 ^ 32) ∧
      (o ≠ .error → Castable (len - o.taken) os) := by
  constructor
  · intro h
    refine ⟨h [] o os rfl (by simp), fun ho before o' after hos hne hpos => ?_⟩
    have hstep := h (o :: before) o' after (by rw [hos]; rfl)
      (by rw [List.mem_cons]; exact fun hm => hm.elim (fun he => ho he.symm) hne)
    rw [List.map_cons, List.sum_cons, ← Nat.sub_sub] at hstep
    exact hstep hpos
  · intro h before o' after hos hne hpos
    obtain ⟨hhead, htail⟩ := h
    cases before with
    | nil =>
      obtain ⟨rfl, rfl⟩ := List.cons.inj hos
      exact hhead hpos
    | cons b before =>
      obtain ⟨rfl, rfl⟩ := List.cons.inj hos
      rw [List.mem_cons, not_or] at hne
      rw [List.map_cons, List.sum_cons, ← Nat.sub_sub] at hpos ⊢
      exact htail (fun he => hne.1 he.symm) before o' after rfl hne.2 hpos

theorem castable_small {len : Nat} (h : len < 2 ^ 31) (outcomes : List KernelSend) : Castable len outcomes := by
  intro before o after _ _ hpos
  have hlow : (len - (before.map KernelSend.taken).sum) % 2 ^ 32 = len - (before.map KernelSend.taken).sum :=
    Nat.mod_eq_of_lt (by omega)
  rw [hlow]
  exact ⟨by omega, fun _ _ => hpos⟩

/-! ## The loop -/

/-- A call that keeps its count takes what is next in the buffer. -/
theorem KernelCall.bytes_within {data beyond : Bytes} {c : KernelCall}
    (h : c.offset + c.outcome.taken ≤ data.length) : c.bytes data beyond = (data.drop c.offset).take c.outcome.taken := by
  rw [KernelCall.bytes, List.drop_append_of_le_length (by omega), List.take_append_of_le_length]
  rw [List.length_drop]
  omega

/-- Transient errors change nothing. -/
theorem sendLoop_again {len totalSent : Nat} (h : totalSent < len) {o : KernelSend} (ho : o ≠ .error)
    (ht : ∀ n, o ≠ .took n) (os : List KernelSend) :
    TcpSocket.sendLoop len totalSent (o :: os) =
      (TcpSocket.sendLoop len totalSent os).after ⟨totalSent, sendCount (len - totalSent), o⟩ := by
  cases o with
  | took n => exact absurd rfl (ht n)
  | error => exact absurd rfl ho
  | EAGAIN | EWOULDBLOCK | EINTR => rw [TcpSocket.sendLoop, if_pos h]

theorem sendLoop_took {len totalSent : Nat} (h : totalSent < len) (n : Nat) (os : List KernelSend) :
    TcpSocket.sendLoop len totalSent (.took n :: os) =
      (TcpSocket.sendLoop len ((totalSent + n) % 2 ^ 64) os).after
        ⟨totalSent, sendCount (len - totalSent), .took n⟩ := by
  rw [TcpSocket.sendLoop, if_pos h]

/-- While every count keeps its value the loop stays in the buffer, and what was accepted is
    what it has passed. -/
theorem sendLoop_exact {data : Bytes} (beyond : Bytes) (hlen : data.length < 2 ^ 63) (os : List KernelSend) :
    ∀ totalSent, totalSent ≤ data.length → Castable (data.length - totalSent) os →
    (TcpSocket.sendLoop data.length totalSent os).Legal →
    (∀ c ∈ (TcpSocket.sendLoop data.length totalSent os).calls,
      c.offset + c.count ≤ data.length ∧ ∀ n, c.outcome = .took n → 0 < n) ∧
    ∃ k, totalSent + k ≤ data.length ∧
      (TcpSocket.sendLoop data.length totalSent os).accepted data beyond = (data.drop totalSent).take k ∧
      ((TcpSocket.sendLoop data.length totalSent os).returned = some true ↔ totalSent + k = data.length) := by
  induction os with
  | nil =>
    intro t ht _ _
    refine ⟨fun c hc => (by cases hc), 0, ht, rfl, ?_⟩
    rw [TcpSocket.sendLoop]
    split
    · exact iff_of_false (by simp) (by omega)
    · exact iff_of_true rfl (by omega)
  | cons o os ih =>
    intro t ht hcast hlegal
    rcases Nat.eq_or_lt_of_le ht with heq | hlt
    · have hloop : TcpSocket.sendLoop data.length t (o :: os) = { calls := [], returned := some true } := by
        rw [TcpSocket.sendLoop, if_neg (by omega)]
      rw [hloop]
      exact ⟨fun c hc => (by cases hc), 0, ht, rfl, iff_of_true rfl heq⟩
    · obtain ⟨hhead, htail⟩ := (castable_cons _ o os).mp hcast
      obtain ⟨hlow, hpos⟩ := hhead (by omega)
      have hcount : t + sendCount (data.length - t) ≤ data.length := by
        have := (sendCount_le_iff (n := data.length - t) (by omega)).mpr hlow
        omega
      cases o with
      | error =>
        rw [TcpSocket.sendLoop, if_pos hlt]
        refine ⟨fun c hc => ?_, 0, ht, by simp [Transmission.accepted, KernelCall.bytes, KernelSend.taken],
          iff_of_false (by simp) (by omega)⟩
        rw [List.mem_singleton.mp hc]
        exact ⟨hcount, fun n hn => by cases hn⟩
      | took n =>
        rw [sendLoop_took hlt] at hlegal ⊢
        obtain ⟨hn, -, hnpos⟩ := hlegal _ List.mem_cons_self n rfl
        simp only at hn hnpos
        have hwrap : (t + n) % 2 ^ 64 = t + n := Nat.mod_eq_of_lt (by omega)
        rw [hwrap] at hlegal ⊢
        have hrest : Castable (data.length - (t + n)) os := by
          rw [← Nat.sub_sub]
          exact htail (by simp)
        obtain ⟨hcalls, k, hk, hacc, hret⟩ := ih (t + n) (by omega) hrest
          fun c hc => hlegal c (List.mem_cons_of_mem _ hc)
        refine ⟨fun c hc => ?_, n + k, by omega, ?_, by rw [← Nat.add_assoc]; exact hret⟩
        · rcases List.mem_cons.mp hc with rfl | hc
          · exact ⟨hcount, fun m hm => by cases hm; exact hnpos (sendCount_pos_iff.mpr (hpos n rfl))⟩
          · exact hcalls c hc
        · rw [Transmission.accepted, Transmission.after, List.flatMap_cons, ← Transmission.accepted, hacc,
            KernelCall.bytes_within (by simp only [KernelSend.taken]; omega), List.take_add, List.drop_drop]
          rfl
      | EAGAIN | EWOULDBLOCK | EINTR =>
        rw [sendLoop_again hlt (by simp) (by simp)] at hlegal ⊢
        obtain ⟨hcalls, k, hk, hacc, hret⟩ := ih t ht (htail (by simp))
          fun c hc => hlegal c (List.mem_cons_of_mem _ hc)
        refine ⟨fun c hc => ?_, k, hk, ?_, hret⟩
        · rcases List.mem_cons.mp hc with rfl | hc
          · exact ⟨hcount, fun n hn => by cases hn⟩
          · exact hcalls c hc
        · rw [Transmission.accepted, Transmission.after, List.flatMap_cons, ← Transmission.accepted, hacc]
          simp [KernelCall.bytes, KernelSend.taken]

/-- At the first count that does not keep its value the loop asks for what is not there, or
    is granted nothing. -/
theorem sendLoop_inexact {len : Nat} (hlen : len < 2 ^ 63) (os : List KernelSend) : ∀ totalSent, totalSent ≤ len →
    ¬ Castable (len - totalSent) os → (TcpSocket.sendLoop len totalSent os).Legal →
    ∃ c ∈ (TcpSocket.sendLoop len totalSent os).calls, len < c.offset + c.count ∨ c.outcome = .took 0 := by
  induction os with
  | nil => exact fun t _ hcast _ => absurd (castable_nil _) hcast
  | cons o os ih =>
    intro t ht hcast hlegal
    have hlt : t < len := by
      by_contra hge
      refine hcast fun before o' after _ _ hpos => ?_
      omega
    rw [castable_cons] at hcast
    have hmem : (⟨t, sendCount (len - t), o⟩ : KernelCall) ∈ (TcpSocket.sendLoop len t (o :: os)).calls := by
      cases o <;> simp [TcpSocket.sendLoop, hlt, Transmission.after]
    by_cases hlow : (len - t) % 2 ^ 32 < 2 ^ 31
    · by_cases hzero : ∃ n, o = .took n ∧ (len - t) % 2 ^ 32 = 0
      · obtain ⟨n, rfl, hz⟩ := hzero
        have hn := (hlegal _ hmem n rfl).1
        simp only [sendCount_eq, hz] at hn
        obtain rfl : n = 0 := by simpa using hn
        exact ⟨_, hmem, Or.inr rfl⟩
      · have hhead : 0 < len - t → (len - t) % 2 ^ 32 < 2 ^ 31 ∧ ∀ n, o = .took n → 0 < (len - t) % 2 ^ 32 :=
          fun _ => ⟨hlow, fun n hn => Nat.pos_of_ne_zero fun hz => hzero ⟨n, hn, hz⟩⟩
        rw [and_iff_right hhead, Classical.not_imp] at hcast
        obtain ⟨ho, hcast⟩ := hcast
        cases o with
        | error => exact absurd rfl ho
        | took n =>
          have hn := (hlegal _ hmem n rfl).1
          have hcount := (sendCount_le_iff (n := len - t) (by omega)).mpr hlow
          simp only at hn
          have hwrap : (t + n) % 2 ^ 64 = t + n := Nat.mod_eq_of_lt (by omega)
          rw [sendLoop_took hlt, hwrap] at hlegal ⊢
          rw [KernelSend.taken, Nat.sub_sub] at hcast
          obtain ⟨c, hc, hbad⟩ := ih (t + n) (by omega) hcast fun c hc => hlegal c (List.mem_cons_of_mem _ hc)
          exact ⟨c, List.mem_cons_of_mem _ hc, hbad⟩
        | EAGAIN | EWOULDBLOCK | EINTR =>
          rw [sendLoop_again hlt (by simp) (by simp)] at hlegal ⊢
          obtain ⟨c, hc, hbad⟩ := ih t ht hcast fun c hc => hlegal c (List.mem_cons_of_mem _ hc)
          exact ⟨c, List.mem_cons_of_mem _ hc, hbad⟩
    · refine ⟨_, hmem, Or.inl ?_⟩
      have := (sendCount_le_iff (n := len - t) (by omega)).not.mpr hlow
      simp only
      omega

/-- A buffer of 2^31 bytes and more is not transmitted exactly whatever the kernel does. -/
theorem not_castable {len : Nat} (hlen : len < 2 ^ 63) (h : 2 ^ 31 ≤ len) :
    ∃ outcomes, (TcpSocket.sendLoop len 0 outcomes).Legal ∧ ¬ Castable len outcomes := by
  by_cases hlow : len % 2 ^ 32 < 2 ^ 31
  · by_cases hz : len % 2 ^ 32 = 0
    · refine ⟨[.took 0], ?_, ?_⟩
      · rw [sendLoop_took (by omega)]
        intro c hc n hn
        rw [List.mem_singleton.mp hc] at hn ⊢
        cases hn
        refine ⟨Nat.zero_le _, by decide, fun hpos => ?_⟩
        have := sendCount_pos_iff.mp hpos
        omega
      · rw [castable_cons]
        intro hcast
        have := (hcast.1 (by omega)).2 0 rfl
        omega
    · -- the kernel takes what it is asked for, and 2^32 bytes or a multiple are left
      refine ⟨[.took (len % 2 ^ 32), .took 0], ?_, ?_⟩
      · have hwrap : (0 + len % 2 ^ 32) % 2 ^ 64 = len % 2 ^ 32 := by omega
        have hcount : sendCount (len - 0) = len % 2 ^ 32 := by rw [sendCount_eq, Nat.sub_zero, if_pos hlow]
        have hrest : sendCount (len - len % 2 ^ 32) = 0 := by
          rw [sendCount_eq, if_pos (by omega)]
          omega
        rw [sendLoop_took (by omega), hwrap, sendLoop_took (by omega), hcount, hrest]
        intro c hc n hn
        rcases List.mem_cons.mp hc with rfl | hc
        · cases hn
          exact ⟨Nat.le_refl _, by omega, id⟩
        · rw [List.mem_singleton.mp hc] at hn ⊢
          cases hn
          exact ⟨Nat.le_refl _, by decide, id⟩
      · rw [castable_cons, castable_cons]
        intro hcast
        have := ((hcast.2 (by simp)).1 (by simp only [KernelSend.taken]; omega)).2 0 rfl
        simp only [KernelSend.taken] at this
        omega
  · refine ⟨[.error], ?_, ?_⟩
    · rw [TcpSocket.sendLoop, if_pos (by omega)]
      intro c hc n hn
      rw [List.mem_singleton.mp hc] at hn
      cases hn
    · rw [castable_cons]
      exact fun hcast => hlow (hcast.1 (by omega)).1

/-! ## The call -/

theorem exact_of_castable {buffer : Buffer} {beyond : Bytes} {outcomes : List KernelSend}
    (hlegal : (TcpSocket.sendAll true buffer.bytes outcomes).Legal) (h : Castable buffer.bytes.length outcomes) :
    (TcpSocket.sendAll true buffer.bytes outcomes).Exact buffer.bytes beyond := by
  obtain ⟨hcalls, k, hk, hacc, hret⟩ :=
    sendLoop_exact beyond buffer.bounded outcomes 0 (Nat.zero_le _) h hlegal
  rw [List.drop_zero] at hacc
  rw [Nat.zero_add] at hk hret
  rw [TcpSocket.sendAll, if_pos rfl]
  have hall : buffer.bytes.take k = buffer.bytes ↔ k = buffer.bytes.length := by
    rw [List.take_eq_self_iff]
    omega
  refine ⟨fun c hc => (hcalls c hc).1, fun c hc => (hcalls c hc).2, ?_, fun hfalse => ?_⟩
  · rw [hacc, hall]
    exact hret
  · have hne : ¬ k = buffer.bytes.length := by
      rw [← hret, hfalse]
      simp
    rw [hacc]
    exact ⟨List.take_prefix _ _, fun he => hne (hall.mp he)⟩

theorem castable_of_exact {buffer : Buffer} {beyond : Bytes} {outcomes : List KernelSend}
    (hlegal : (TcpSocket.sendAll true buffer.bytes outcomes).Legal)
    (h : (TcpSocket.sendAll true buffer.bytes outcomes).Exact buffer.bytes beyond) :
    Castable buffer.bytes.length outcomes := by
  by_contra hcast
  obtain ⟨c, hc, hbad⟩ := sendLoop_inexact buffer.bounded outcomes 0 (Nat.zero_le _) hcast hlegal
  rcases hbad with hbad | hbad
  · exact absurd (h.within c hc) (Nat.not_le.mpr hbad)
  · exact absurd (h.progress c hc 0 hbad) (Nat.lt_irrefl 0)

/-- A call on a valid handle transmits exactly its buffer just if the remainders keep their
    values, and it does so whatever the kernel does just if the buffer has fewer than 2^31 bytes. -/
theorem sendAll_exact_iff (buffer : Buffer) (beyond : Bytes) :
    (∀ outcomes, (TcpSocket.sendAll true buffer.bytes outcomes).Legal →
      ((TcpSocket.sendAll true buffer.bytes outcomes).Exact buffer.bytes beyond ↔
        Castable buffer.bytes.length outcomes)) ∧
    ((∀ outcomes, (TcpSocket.sendAll true buffer.bytes outcomes).Legal →
      (TcpSocket.sendAll true buffer.bytes outcomes).Exact buffer.bytes beyond) ↔ buffer.bytes.length < 2 ^ 31) := by
  refine ⟨fun outcomes hlegal => ⟨castable_of_exact hlegal, exact_of_castable hlegal⟩, fun h => ?_,
    fun h outcomes hlegal => exact_of_castable hlegal (castable_small h outcomes)⟩
  by_contra hlen
  obtain ⟨outcomes, hlegal, hcast⟩ := not_castable buffer.bounded (Nat.not_lt.mp hlen)
  exact hcast (castable_of_exact hlegal (h outcomes hlegal))

/-- 2^31 bytes are asked for as 2^64 - 2^31. -/
theorem overlong_request :
    let data := List.replicate (2 ^ 31) (0 : UInt8)
    let tr := TcpSocket.sendAll true data [.error]
    tr.calls = [⟨0, 2 ^ 64 - 2 ^ 31, .error⟩] ∧ tr.Legal ∧ ¬ tr.Exact data [] := by
  have hcount : sendCount (2 ^ 31 - 0) = 2 ^ 64 - 2 ^ 31 := by rw [sendCount_eq]; decide
  have hcalls : (TcpSocket.sendAll true (List.replicate (2 ^ 31) (0 : UInt8)) [.error]).calls =
      [⟨0, 2 ^ 64 - 2 ^ 31, .error⟩] := by
    rw [TcpSocket.sendAll, if_pos rfl, List.length_replicate, TcpSocket.sendLoop, if_pos (by decide), hcount]
  refine ⟨hcalls, fun c hc n hn => ?_, fun h => ?_⟩
  · rw [hcalls, List.mem_singleton] at hc
    rw [hc] at hn
    cases hn
  · have := h.within _ (by rw [hcalls]; exact List.mem_cons_self)
    rw [List.length_replicate] at this
    exact absurd this (by decide)

/-- A call that returns, of which every remainder keeps its value, is the `sendAll` that takes
    a first part of the buffer. -/
theorem sendAll_refines {buffer : Buffer} (beyond : Bytes) {outcomes : List KernelSend} {b : Bool}
    (hlegal : (TcpSocket.sendAll true buffer.bytes outcomes).Legal) (h : Castable buffer.bytes.length outcomes)
    (hret : (TcpSocket.sendAll true buffer.bytes outcomes).returned = some b) :
    ∃ taken, (b, (TcpSocket.sendAll true buffer.bytes outcomes).accepted buffer.bytes beyond) =
      sendAll taken buffer.bytes := by
  obtain ⟨-, k, hk, hacc, htrue⟩ :=
    sendLoop_exact beyond buffer.bounded outcomes 0 (Nat.zero_le _) h hlegal
  rw [List.drop_zero] at hacc
  rw [Nat.zero_add] at hk htrue
  have hret' : (TcpSocket.sendLoop buffer.bytes.length 0 outcomes).returned = some b := hret
  rw [hret', Option.some_inj] at htrue
  refine ⟨k, Prod.ext ?_ hacc⟩
  rw [Bool.eq_iff_iff, htrue, sendAll, decide_eq_true_eq]
  omega

end LanTalk.Network
