/-
  LanTalk.Lib.Keyed — lists of elements with keys: the first and the last element of a key,
  and the table one pass over a list keeps, where an element takes the place of the row of
  its key, or a new row at the end. `added` are the elements that made a row.

  Proved: `Gathered.replaced` and `Gathered.extended`: the pass keeps the keys in the order they
  first come in, each once, with the last element of each in its row and the first of
  each among the added ones. `Gathered.find?_iff`: the first row that passes a test, among
  the last elements of all keys, is the one whose key came first.
-/

import Mathlib

namespace LanTalk.Lib.Keyed

variable {α κ : Type} [DecidableEq κ] (key : α → κ)

def firstOf (k : κ) (xs : List α) : Option α := (xs.filter fun x => key x = k).head?

def lastOf (k : κ) (xs : List α) : Option α := (xs.filter fun x => key x = k).getLast?

/-- The rows with the first of `x`'s key replaced by `x`, if there is one. -/
def replace? (x : α) : List α → Option (List α)
  | [] => none
  | y :: rows => if key y = key x then some (x :: rows) else (replace? x rows).map (y :: ·)

variable {key}

/-! ## First and last -/

theorem lastOf_cons (k : κ) (x : α) (xs : List α) :
    lastOf key k (x :: xs) = (lastOf key k xs).or (if key x = k then some x else none) := by
  rw [lastOf, lastOf, List.filter_cons]
  by_cases hx : key x = k
  · rw [if_pos (decide_eq_true hx), if_pos hx, List.getLast?_cons]
    cases (xs.filter fun x => key x = k).getLast? <;> rfl
  · rw [if_neg (by simpa using hx), if_neg hx, Option.or_none]

theorem lastOf_concat (k : κ) (xs : List α) (x : α) :
    lastOf key k (xs ++ [x]) = if key x = k then some x else lastOf key k xs := by
  rw [lastOf, lastOf, List.filter_append, List.getLast?_append, List.filter_singleton]
  by_cases hx : key x = k
  · simp [hx]
  · simp [hx]

theorem firstOf_concat (k : κ) (xs : List α) (x : α) :
    firstOf key k (xs ++ [x]) = (firstOf key k xs).or (if key x = k then some x else none) := by
  rw [firstOf, firstOf, List.filter_append, List.head?_append, List.filter_singleton]
  by_cases hx : key x = k
  · simp [hx]
  · simp [hx]

theorem firstOf_eq_none {k : κ} {xs : List α} : firstOf key k xs = none ↔ k ∉ xs.map key := by
  simp [firstOf]

/-! ## Replacing a row -/

theorem replace?_eq_none {x : α} {rows : List α} : replace? key x rows = none ↔ key x ∉ rows.map key := by
  induction rows with
  | nil => simp [replace?]
  | cons y rows ih =>
    rw [replace?, List.map_cons, List.mem_cons, not_or]
    by_cases hy : key y = key x
    · simp [hy]
    · rw [if_neg hy, Option.map_eq_none_iff, ih]
      exact ⟨fun h => ⟨Ne.symm hy, h⟩, fun h => h.2⟩

section
variable {x : α} {rows rows' : List α}

theorem replace?_keys (h : replace? key x rows = some rows') : rows'.map key = rows.map key := by
  induction rows generalizing rows' with
  | nil => cases h
  | cons y rows ih =>
    rw [replace?] at h
    split at h
    · rename_i hy
      cases h
      rw [List.map_cons, List.map_cons, hy]
    · obtain ⟨rest, hrest, rfl⟩ := Option.map_eq_some_iff.mp h
      rw [List.map_cons, List.map_cons, ih hrest]

/-- With distinct keys the other rows are those of other keys. -/
theorem replace?_mem (hd : (rows.map key).Nodup) (h : replace? key x rows = some rows') :
    ∀ y ∈ rows', y = x ∨ (y ∈ rows ∧ key y ≠ key x) := by
  induction rows generalizing rows' with
  | nil => cases h
  | cons z rows ih =>
    rw [List.map_cons, List.nodup_cons] at hd
    rw [replace?] at h
    intro y hy
    split at h
    · rename_i hz
      cases h
      rcases List.mem_cons.mp hy with rfl | hy
      · exact Or.inl rfl
      · refine Or.inr ⟨List.mem_cons_of_mem _ hy, fun he => hd.1 ?_⟩
        rw [hz, ← he]
        exact List.mem_map_of_mem hy
    · rename_i hz
      obtain ⟨rest, hrest, rfl⟩ := Option.map_eq_some_iff.mp h
      rcases List.mem_cons.mp hy with rfl | hy
      · exact Or.inr ⟨List.mem_cons_self, hz⟩
      · rcases ih hd.2 hrest y hy with rfl | ⟨hm, hne⟩
        · exact Or.inl rfl
        · exact Or.inr ⟨List.mem_cons_of_mem _ hm, hne⟩

end

/-! ## The table of a list -/

theorem eraseDups_concat {κ : Type} [BEq κ] [LawfulBEq κ] (ks : List κ) (k : κ) :
    (ks ++ [k]).eraseDups = if k ∈ ks then ks.eraseDups else ks.eraseDups ++ [k] := by
  rw [List.eraseDups_append, List.cons_removeAll, List.removeAll]
  by_cases hk : k ∈ ks
  · simp [hk]
  · simp [hk, List.eraseDups_cons]

/-- Without its repetitions a list has its elements in the order they first come in. -/
theorem idxOf_eraseDups_le {κ : Type} [BEq κ] [LawfulBEq κ] {ks : List κ} {a b : κ} (ha : a ∈ ks) (hb : b ∈ ks) :
    ks.eraseDups.idxOf a ≤ ks.eraseDups.idxOf b ↔ ks.idxOf a ≤ ks.idxOf b := by
  induction ks using List.reverseRecOn with
  | nil => cases ha
  | append_singleton ks k ih =>
    have hlt : ∀ {x}, x ∈ ks → (ks ++ [k]).idxOf x = ks.idxOf x ∧ ks.idxOf x < ks.length := fun hx =>
      ⟨List.idxOf_append_of_mem hx, List.idxOf_lt_length_of_mem hx⟩
    have hlt' : ∀ {x}, x ∈ ks → (ks.eraseDups ++ [k]).idxOf x = ks.eraseDups.idxOf x ∧
        ks.eraseDups.idxOf x < ks.eraseDups.length := fun hx =>
      ⟨List.idxOf_append_of_mem (List.mem_eraseDups.mpr hx), List.idxOf_lt_length_of_mem (List.mem_eraseDups.mpr hx)⟩
    rw [eraseDups_concat]
    split
    · rename_i hk
      have hin : ∀ {x}, x ∈ ks ++ [k] → x ∈ ks := fun hx =>
        (List.mem_append.mp hx).elim id fun h => List.mem_singleton.mp h ▸ hk
      rw [(hlt (hin ha)).1, (hlt (hin hb)).1]
      exact ih (hin ha) (hin hb)
    · rename_i hk
      have hnew : (ks ++ [k]).idxOf k = ks.length ∧ (ks.eraseDups ++ [k]).idxOf k = ks.eraseDups.length := by
        rw [List.idxOf_append_of_notMem hk, List.idxOf_append_of_notMem fun h => hk (List.mem_eraseDups.mp h)]
        simp
      rcases List.mem_append.mp ha with ha | ha
      · rcases List.mem_append.mp hb with hb | hb
        · rw [(hlt ha).1, (hlt hb).1, (hlt' ha).1, (hlt' hb).1]
          exact ih ha hb
        · rw [List.mem_singleton.mp hb, hnew.1, hnew.2, (hlt ha).1, (hlt' ha).1]
          exact ⟨fun _ => (hlt ha).2.le, fun _ => (hlt' ha).2.le⟩
      · rw [List.mem_singleton.mp ha, hnew.1, hnew.2]
        rcases List.mem_append.mp hb with hb | hb
        · rw [(hlt hb).1, (hlt' hb).1]
          exact ⟨fun h => absurd (hlt' hb).2 (Nat.not_lt.mpr h), fun h => absurd (hlt hb).2 (Nat.not_lt.mpr h)⟩
        · rw [List.mem_singleton.mp hb, hnew.1, hnew.2]
          exact ⟨fun _ => le_rfl, fun _ => le_rfl⟩

variable [BEq κ]

/-- What a pass over `xs` keeps. -/
structure Gathered (key : α → κ) (xs rows added : List α) : Prop where
  keys : rows.map key = (xs.map key).eraseDups
  distinct : (rows.map key).Nodup
  last : ∀ y ∈ rows, lastOf key (key y) xs = some y
  addedKeys : added.map key = rows.map key
  first : ∀ y ∈ added, firstOf key (key y) xs = some y

namespace Gathered

variable {x : α} {xs rows rows' added : List α}

theorem nil : Gathered key [] [] [] :=
  ⟨rfl, List.nodup_nil, fun _ h => absurd h List.not_mem_nil, rfl, fun _ h => absurd h List.not_mem_nil⟩

/-- The first elements stay the first. -/
theorem first_concat (h : Gathered key xs rows added) (x : α) :
    ∀ y ∈ added, firstOf key (key y) (xs ++ [x]) = some y := by
  intro y hy
  rw [firstOf_concat, h.first y hy]
  rfl

variable [LawfulBEq κ]

theorem mem_keys (h : Gathered key xs rows added) {k : κ} : k ∈ rows.map key ↔ k ∈ xs.map key := by
  rw [h.keys, List.mem_eraseDups]

theorem replaced (h : Gathered key xs rows added) (hr : replace? key x rows = some rows') :
    Gathered key (xs ++ [x]) rows' added := by
  have hkeys := replace?_keys hr
  have hx : key x ∈ rows.map key := by
    by_contra hn
    rw [replace?_eq_none.mpr hn] at hr
    cases hr
  refine ⟨?_, by rw [hkeys]; exact h.distinct, fun y hy => ?_, by rw [hkeys]; exact h.addedKeys, h.first_concat x⟩
  · rw [hkeys, List.map_append, List.map_singleton, eraseDups_concat, if_pos (h.mem_keys.mp hx), h.keys]
  · rw [lastOf_concat]
    rcases replace?_mem h.distinct hr y hy with rfl | ⟨hm, hne⟩
    · rw [if_pos rfl]
    · rw [if_neg (Ne.symm hne), h.last y hm]

theorem extended (h : Gathered key xs rows added) (hr : replace? key x rows = none) :
    Gathered key (xs ++ [x]) (rows ++ [x]) (added ++ [x]) := by
  have hx : key x ∉ rows.map key := replace?_eq_none.mp hr
  have hxs : key x ∉ xs.map key := fun hm => hx (h.mem_keys.mpr hm)
  refine ⟨?_, ?_, fun y hy => ?_, ?_, fun y hy => ?_⟩
  · simp only [List.map_append, List.map_singleton]
    rw [eraseDups_concat, if_neg hxs, h.keys]
  · rw [List.map_append, List.map_singleton, List.nodup_append]
    refine ⟨h.distinct, List.nodup_singleton _, fun k hk k' hk' => ?_⟩
    rw [List.mem_singleton.mp hk']
    rintro rfl
    exact hx hk
  · rw [lastOf_concat]
    rcases List.mem_append.mp hy with hy | hy
    · have hne : key x ≠ key y := fun he => hx (he ▸ List.mem_map_of_mem hy)
      rw [if_neg hne, h.last y hy]
    · rw [List.mem_singleton.mp hy, if_pos rfl]
  · rw [List.map_append, List.map_append, h.addedKeys]
  · rcases List.mem_append.mp hy with hy | hy
    · exact h.first_concat x y hy
    · rw [List.mem_singleton.mp hy, firstOf_concat, firstOf_eq_none.mpr hxs, if_pos rfl]
      rfl

/-- The rows are the last elements of their keys. -/
theorem mem_rows (h : Gathered key xs rows added) {y : α} : y ∈ rows ↔ lastOf key (key y) xs = some y := by
  refine ⟨h.last y, fun hy => ?_⟩
  have hin : key y ∈ xs.map key := List.mem_map_of_mem (List.mem_filter.mp (List.mem_of_getLast? hy)).1
  obtain ⟨z, hz, hkey⟩ := List.mem_map.mp (h.mem_keys.mpr hin)
  have hlast := h.last z hz
  rw [hkey, hy] at hlast
  rwa [Option.some.inj hlast]

theorem find?_iff (h : Gathered key xs rows added) {p : α → Bool} {y : α} :
    rows.find? p = some y ↔ lastOf key (key y) xs = some y ∧ p y = true ∧
      ∀ z, lastOf key (key z) xs = some z → p z = true → (xs.map key).idxOf (key y) ≤ (xs.map key).idxOf (key z) := by
  -- where a row stands is where its key came in
  have horder : ∀ {a b}, a ∈ rows → b ∈ rows → ((rows.map key).idxOf (key a) ≤ (rows.map key).idxOf (key b) ↔
      (xs.map key).idxOf (key a) ≤ (xs.map key).idxOf (key b)) := by
    intro a b ha hb
    rw [h.keys]
    exact idxOf_eraseDups_le (h.mem_keys.mp (List.mem_map_of_mem ha)) (h.mem_keys.mp (List.mem_map_of_mem hb))
  have hat : ∀ {as bs}, rows = as ++ y :: bs → (rows.map key).idxOf (key y) = as.length := by
    intro as bs hrows
    have hd := h.distinct
    rw [hrows, List.map_append, List.map_cons, List.nodup_append] at hd
    rw [hrows, List.map_append, List.map_cons,
      List.idxOf_append_of_notMem fun hm => hd.2.2 _ hm _ List.mem_cons_self rfl, List.idxOf_cons_self,
      List.length_map, Nat.add_zero]
  rw [← h.mem_rows]
  constructor
  · intro hfind
    obtain ⟨hp, as, bs, hrows, hno⟩ := List.find?_eq_some_iff_append.mp hfind
    have hy : y ∈ rows := List.mem_of_find?_eq_some hfind
    refine ⟨hy, hp, fun z hz hpz => ?_⟩
    have hz : z ∈ rows := h.mem_rows.mpr hz
    rw [← horder hy hz, hat hrows]
    have hnot : key z ∉ as.map key := by
      intro hm
      obtain ⟨a, ha, hkey⟩ := List.mem_map.mp hm
      have haz : a = z := List.inj_on_of_nodup_map h.distinct (hrows ▸ List.mem_append_left _ ha) hz hkey
      have hnp := hno a ha
      rw [haz, hpz] at hnp
      cases hnp
    rw [hrows, List.map_append, List.idxOf_append_of_notMem hnot, List.length_map]
    exact Nat.le_add_right _ _
  · rintro ⟨hy, hp, hmin⟩
    obtain ⟨as, bs, hrows⟩ := List.append_of_mem hy
    refine List.find?_eq_some_iff_append.mpr ⟨hp, as, bs, hrows, fun a ha => ?_⟩
    have hmem : a ∈ rows := hrows ▸ List.mem_append_left _ ha
    cases hpa : p a with
    | false => rfl
    | true =>
      have hle := (horder hy hmem).mpr (hmin a (h.last a hmem) hpa)
      have hlt : (rows.map key).idxOf (key a) < as.length := by
        have hm : key a ∈ as.map key := List.mem_map_of_mem ha
        rw [hrows, List.map_append, List.idxOf_append_of_mem hm]
        exact (List.idxOf_lt_length_of_mem hm).trans_eq (List.length_map _)
      rw [hat hrows] at hle
      exact absurd hlt (Nat.not_lt.mpr hle)

end Gathered

end LanTalk.Lib.Keyed
