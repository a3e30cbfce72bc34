/-
  LanTalk.Lib.Lines — text cut into lines at a separator: `lines` is what repeated
  `std::getline` calls read of it, `laterLines` the lines a text goes on with after its
  first separator.

  Proved:
  - `lines_items`: items written one after the other, each with a separator behind it, are
    read as the lines of each.
  - `items_cut`: what is in front of such a text is some of the items and a part of the
    next one.
  - `splitOn_prepend`: text without a separator stays on the line that follows it.
  - `lines_marked`: a mark put before every separator ends all lines but the last.
-/

import Mathlib

namespace LanTalk.Lib

variable {α : Type} [DecidableEq α] (sep : α)

/-- The pieces between separators; the last one is a line only if there is anything in it. -/
def lines (s : List α) : List (List α) :=
  let pieces := s.splitOn sep
  if pieces.getLast? = some [] then pieces.dropLast else pieces

def laterLines (s : List α) : List (List α) := (s.splitOn sep).tail

/-- The lines that have a separator behind them. -/
def brokenLines (s : List α) : List (List α) := (s.splitOn sep).dropLast

/-- The line that has none, if there is anything in it. -/
def lastLine (s : List α) : List (List α) :=
  if (s.splitOn sep).getLast? = some [] then [] else (s.splitOn sep).getLast?.toList

variable {sep}

theorem lines_append (s r : List α) : lines sep (s ++ sep :: r) = s.splitOn sep ++ lines sep r := by
  have hne : r.splitOn sep ≠ [] := List.splitOn_ne_nil sep r
  have hlast : (s.splitOn sep ++ r.splitOn sep).getLast? = (r.splitOn sep).getLast? :=
    List.getLast?_append_of_ne_nil _ hne
  simp only [lines, List.splitOn_append_cons_self, hlast]
  split
  · exact List.dropLast_append_of_ne_nil hne
  · rfl

theorem lines_items {ι : Type} (text : ι → List α) (items : List ι) :
    lines sep (items.flatMap fun i => text i ++ [sep]) = items.flatMap fun i => (text i).splitOn sep := by
  induction items with
  | nil => simp [lines]
  | cons i items ih =>
    rw [List.flatMap_cons, List.flatMap_cons, ← ih, List.append_assoc, List.singleton_append, lines_append]

omit [DecidableEq α] in
/-- The text of some items, cut anywhere: the items that are written to their separator, and
    a part of the next one's text. -/
theorem items_cut {ι : Type} (text : ι → List α) {items : List ι} {p : List α}
    (hp : p <+: items.flatMap fun i => text i ++ [sep]) :
    ∃ written rest q, items = written ++ rest ∧ p = (written.flatMap fun i => text i ++ [sep]) ++ q ∧
      (q = [] ∨ ∃ i rest', rest = i :: rest' ∧ q <+: text i) := by
  induction items generalizing p with
  | nil => exact ⟨[], [], [], rfl, List.prefix_nil.mp hp, Or.inl rfl⟩
  | cons i items ih =>
    rw [List.flatMap_cons] at hp
    have hcut : p <+: text i ∨ ∃ p', p = text i ++ [sep] ++ p' ∧ p' <+: items.flatMap fun i => text i ++ [sep] := by
      rcases List.prefix_or_prefix_of_prefix hp (List.prefix_append (text i ++ [sep]) _) with h | h
      · rcases List.prefix_concat_iff.mp h with rfl | h
        · exact Or.inr ⟨[], (List.append_nil _).symm, List.nil_prefix⟩
        · exact Or.inl h
      · obtain ⟨p', rfl⟩ := h
        exact Or.inr ⟨p', rfl, (List.prefix_append_right_inj _).mp hp⟩
    rcases hcut with h | ⟨p', rfl, hp'⟩
    · exact ⟨[], i :: items, p, rfl, rfl, Or.inr ⟨i, items, rfl, h⟩⟩
    · obtain ⟨written, rest, q, hitems, hq, hpart⟩ := ih hp'
      refine ⟨i :: written, rest, q, by rw [hitems, List.cons_append], ?_, hpart⟩
      rw [List.flatMap_cons, hq, List.append_assoc (text i ++ [sep])]

/-- What is read of it: the lines of the items, and the part as a line if there is anything
    in it. -/
theorem lines_items_append {ι : Type} (text : ι → List α) (items : List ι) (q : List α) :
    lines sep ((items.flatMap fun i => text i ++ [sep]) ++ q) =
      (items.flatMap fun i => (text i).splitOn sep) ++ lines sep q := by
  induction items with
  | nil => rfl
  | cons i items ih =>
    rw [List.flatMap_cons, List.flatMap_cons, List.append_assoc, List.append_assoc, List.append_assoc, ← ih,
      List.singleton_append, lines_append]

theorem lastLine_items_append {ι : Type} (text : ι → List α) (items : List ι) (q : List α) :
    lastLine sep ((items.flatMap fun i => text i ++ [sep]) ++ q) = lastLine sep q := by
  induction items with
  | nil => rfl
  | cons i items ih =>
    have hne : ∀ r : List α, r.splitOn sep ≠ [] := List.splitOn_ne_nil sep
    rw [← ih, List.flatMap_cons, List.append_assoc, List.append_assoc, List.singleton_append]
    simp only [lastLine, List.splitOn_append_cons_self, List.getLast?_append_of_ne_nil _ (hne _)]

/-- Text without a separator is one line. -/
theorem lines_of_not_mem {q : List α} (hq : sep ∉ q) : lines sep q = if q = [] then [] else [q] := by
  simp only [lines, List.splitOn_eq_singleton hq, List.getLast?_singleton, Option.some.injEq, List.dropLast_singleton]

theorem lastLine_of_not_mem {q : List α} (hq : sep ∉ q) : lastLine sep q = if q = [] then [] else [q] := by
  simp only [lastLine, List.splitOn_eq_singleton hq, List.getLast?_singleton, Option.some.injEq, Option.toList_some]

theorem splitOn_prepend {p : List α} (hp : sep ∉ p) (s : List α) :
    (p ++ s).splitOn sep = (s.splitOn sep).modifyHead (p ++ ·) := by
  induction p with
  | nil => rw [List.nil_append]; cases s.splitOn sep <;> rfl
  | cons b p ih =>
    have hb : (b == sep) = false := beq_eq_false_iff_ne.mpr fun e => hp (e ▸ List.mem_cons_self)
    rw [List.cons_append, List.splitOn_cons_eq_if_modifyHead, hb, ih fun h => hp (List.mem_cons_of_mem _ h)]
    cases s.splitOn sep <;> rfl

/-- The pieces between separators, the last one apart. -/
theorem splitOn_last (sep : α) (s : List α) : ∃ ps l, s.splitOn sep = ps ++ [l] := by
  have hne := List.splitOn_ne_nil sep s
  exact ⟨_, _, (List.dropLast_append_getLast hne).symm⟩

theorem lines_eq (sep : α) (s : List α) : lines sep s = brokenLines sep s ++ lastLine sep s := by
  obtain ⟨ps, l, hps⟩ := splitOn_last sep s
  simp only [lines, brokenLines, lastLine, hps, List.getLast?_concat, List.dropLast_concat]
  split
  · rw [List.append_nil]
  · rfl

theorem splitOn_marked {m : List α} (hm : sep ∉ m) {s : List α} {ps : List (List α)} {l : List α}
    (h : s.splitOn sep = ps ++ [l]) :
    (s.flatMap fun b => if b = sep then m ++ [sep] else [b]).splitOn sep = ps.map (· ++ m) ++ [l] := by
  induction s generalizing ps l with
  | nil =>
    rw [List.splitOn_nil] at h
    obtain ⟨rfl, rfl⟩ := List.append_singleton_inj.mp (show [] ++ [[]] = ps ++ [l] from h)
    rfl
  | cons b s ih =>
    obtain ⟨qs, l', hqs⟩ := splitOn_last sep s
    rw [List.splitOn_cons_eq_if_modifyHead, hqs] at h
    rw [List.flatMap_cons]
    by_cases hb : b = sep
    · rw [if_pos (by simp [hb])] at h
      obtain ⟨rfl, rfl⟩ := List.append_singleton_inj.mp (show ([] :: qs) ++ [l'] = ps ++ [l] from h)
      rw [if_pos hb, List.append_assoc, List.singleton_append, List.splitOn_append_cons_self, ih hqs,
        List.splitOn_eq_singleton hm]
      rfl
    · rw [if_neg (by simpa using hb)] at h
      rw [if_neg hb, List.singleton_append, List.splitOn_cons_eq_if_modifyHead, if_neg (by simpa using hb), ih hqs]
      cases qs with
      | nil =>
        obtain ⟨rfl, rfl⟩ := List.append_singleton_inj.mp (show [] ++ [b :: l'] = ps ++ [l] from h)
        rfl
      | cons q qs =>
        obtain ⟨rfl, rfl⟩ := List.append_singleton_inj.mp (show ((b :: q) :: qs) ++ [l'] = ps ++ [l] from h)
        rfl

/-- With a mark before every separator, each line but the last has the mark at its end. -/
theorem lines_marked {m : List α} (hm : sep ∉ m) (s : List α) :
    lines sep (s.flatMap fun b => if b = sep then m ++ [sep] else [b]) =
      (brokenLines sep s).map (· ++ m) ++ lastLine sep s := by
  obtain ⟨ps, l, hps⟩ := splitOn_last sep s
  simp only [lines, brokenLines, lastLine, hps, splitOn_marked hm hps, List.getLast?_concat, List.dropLast_concat]
  split
  · rw [List.append_nil]
  · rfl

/-- No piece holds a separator. -/
theorem not_mem_splitOn {s l : List α} (h : l ∈ s.splitOn sep) : sep ∉ l := by
  induction s generalizing l with
  | nil =>
    rw [List.splitOn_nil, List.mem_singleton] at h
    rw [h]
    exact List.not_mem_nil
  | cons b s ih =>
    rw [List.splitOn_cons_eq_if_modifyHead] at h
    split at h
    · rcases List.mem_cons.mp h with rfl | h
      · exact List.not_mem_nil
      · exact ih h
    · rename_i hb
      obtain ⟨p, ps, hps⟩ := List.exists_cons_of_ne_nil (List.splitOn_ne_nil sep s)
      rw [hps, List.modifyHead_cons] at h
      rcases List.mem_cons.mp h with rfl | h
      · have hp : sep ∉ p := ih (by rw [hps]; exact List.mem_cons_self)
        have hne : sep ≠ b := fun e => hb (by simp [e])
        exact fun hm => (List.mem_cons.mp hm).elim hne hp
      · exact ih (by rw [hps]; exact List.mem_cons_of_mem _ h)

theorem not_mem_lines {s l : List α} (h : l ∈ lines sep s) : sep ∉ l := by
  apply not_mem_splitOn (s := s)
  simp only [lines] at h
  split at h
  · exact List.mem_of_mem_dropLast h
  · exact h

end LanTalk.Lib
