/-
Where a mark occurs in a text. A character that is not in the mark keeps
its occurrences apart: each of them is on one side of that character. So
the occurrences in a text that is put together with such characters are
those in its parts, and the first one after such a character is known once
there is none before it.
-/
namespace LayerPage.Text

/-- No occurrence at the front reaches over a character that is not in
it. -/
theorem isPrefix_append_cons_iff {mark front back : List Char} {c : Char}
    (hc : c ∉ mark) : mark <+: front ++ c :: back ↔ mark <+: front := by
  induction front generalizing mark with
  | nil =>
      cases mark with
      | nil => simp
      | cons d mark =>
          rw [List.nil_append, List.cons_prefix_cons]
          refine iff_of_false ?_ (by simp)
          rintro ⟨rfl, -⟩
          exact hc List.mem_cons_self
  | cons e front ih =>
      cases mark with
      | nil => simp
      | cons d mark =>
          rw [List.cons_append, List.cons_prefix_cons,
            List.cons_prefix_cons, ih fun h => hc (List.mem_cons_of_mem _ h)]

/-- An occurrence is on one side of a character that is not in it. -/
theorem isInfix_append_cons_iff {mark front back : List Char} {c : Char}
    (hc : c ∉ mark) :
    mark <:+: front ++ c :: back ↔ mark <:+: front ∨ mark <:+: back := by
  induction front with
  | nil =>
      rw [List.nil_append, List.infix_cons_iff, List.infix_nil]
      have hstart := @isPrefix_append_cons_iff mark [] back c hc
      rw [List.nil_append, List.prefix_nil] at hstart
      rw [hstart]
  | cons d front ih =>
      rw [List.cons_append, List.infix_cons_iff, List.infix_cons_iff, ih,
        ← List.cons_append, isPrefix_append_cons_iff hc, or_assoc]

/-- Whether the first occurrence of a mark in a text comes right after a
part of it. -/
def IsFirstAfter (before mark text : List Char) : Prop :=
  before ++ mark <+: text
    ∧ ∀ other, other ++ mark <+: text → before.length ≤ other.length

/-- An occurrence after a character that is not in it is the first one if
there is none before that. -/
theorem isFirstAfter_iff {mark front rest : List Char} {c : Char}
    (hc : c ∉ mark) :
    IsFirstAfter (front ++ [c]) mark (front ++ [c] ++ mark ++ rest)
      ↔ ¬mark <:+: front := by
  constructor
  · rintro ⟨-, hfirst⟩ ⟨other, after, rfl⟩
    have hle := hfirst other ?_
    · simp only [List.length_append, List.length_singleton] at hle
      omega
    · simp only [List.append_assoc]
      exact List.prefix_append_right_inj _ |>.2 (List.prefix_append ..)
  · intro hnone
    refine ⟨List.prefix_append .., ?_⟩
    rintro other ⟨after, hother⟩
    rw [← Nat.not_lt]
    intro hlt
    rw [List.length_append, List.length_singleton] at hlt
    have htext : other ++ (mark ++ after) = front ++ c :: (mark ++ rest) := by
      simpa using hother
    -- the other one starts in front of the character, and so ends there
    have hfront : other <+: front :=
      List.prefix_of_prefix_length_le ⟨_, htext⟩ (List.prefix_append ..)
        (Nat.le_of_lt_succ hlt)
    obtain ⟨between, rfl⟩ := hfront
    rw [List.append_assoc, List.append_cancel_left_eq] at htext
    have hstart : mark <+: between ++ c :: (mark ++ rest) := ⟨_, htext⟩
    rw [isPrefix_append_cons_iff hc] at hstart
    exact hnone (hstart.isInfix.trans (List.suffix_append ..).isInfix)

end LayerPage.Text
