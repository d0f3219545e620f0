/-
This file cuts a list into the runs that a mark leads: after each mark, the
letters up to the first one that no run may hold. A marked word is somewhere in
the list exactly when it is a prefix of one of the runs, so a search for marked
words is a search for prefixes. Replacing every letter by letters of its own
keeps the runs when what ends a run is left alone.
-/

import Mathlib.Data.List.Infix
import Mathlib.Data.List.TakeWhile

namespace Marked

variable {Letter : Type} {inside : Letter → Bool} {word list : List Letter}

/-! ### Words without a separator -/

/-- No piece of a split list has the separator. -/
theorem not_mem_of_mem_splitOn [DecidableEq Letter] {separator : Letter} {piece : List Letter}
    (member : piece ∈ list.splitOn separator) : separator ∉ piece := by
  induction list generalizing piece with
  | nil =>
    rw [List.splitOn_nil, List.mem_singleton] at member
    rw [member]
    exact List.not_mem_nil
  | cons letter rest inductionHypothesis =>
    rw [List.splitOn_cons_eq_if_modifyHead] at member
    by_cases separates : (letter == separator) = true
    · rw [if_pos separates, List.mem_cons] at member
      rcases member with rfl | later
      · exact List.not_mem_nil
      · exact inductionHypothesis later
    · rw [if_neg separates] at member
      obtain ⟨first, others, pieces⟩ :=
        List.exists_cons_of_ne_nil (List.splitOn_ne_nil separator rest)
      rw [pieces, List.modifyHead_cons, List.mem_cons] at member
      have known : ∀ piece ∈ first :: others, separator ∉ piece :=
        fun piece member => inductionHypothesis (pieces ▸ member)
      rcases member with rfl | later
      · rw [List.mem_cons, not_or]
        refine ⟨fun same => separates ?_, known first List.mem_cons_self⟩
        rw [same, beq_self_eq_true]
      · exact known piece (List.mem_cons_of_mem _ later)

/-! ### Runs -/

/-- The runs that marks lead, in their order. A run may be empty, and may lie inside another
one when it may hold a mark. -/
def runs [DecidableEq Letter] (mark : Letter) (inside : Letter → Bool) :
    List Letter → List (List Letter)
  | [] => []
  | letter :: rest =>
    if letter = mark then rest.takeWhile inside :: runs mark inside rest
    else runs mark inside rest

theorem prefix_takeWhile_iff :
    word <+: list.takeWhile inside ↔ word <+: list ∧ ∀ letter ∈ word, inside letter = true := by
  constructor
  · intro isPrefix
    refine ⟨isPrefix.trans (List.takeWhile_prefix inside), fun letter member => ?_⟩
    exact List.mem_takeWhile_imp (isPrefix.subset member)
  · rintro ⟨⟨rest, rfl⟩, all⟩
    rw [List.takeWhile_append_of_pos all]
    exact List.prefix_append _ _

/-- A marked word is in a list exactly when the word is a prefix of a run. -/
theorem mark_infix_iff [DecidableEq Letter] {mark : Letter}
    (plain : ∀ letter ∈ word, inside letter = true) :
    (mark :: word) <:+: list ↔ ∃ run ∈ runs mark inside list, word <+: run := by
  induction list with
  | nil =>
    rw [List.infix_nil, runs]
    exact iff_of_false (List.cons_ne_nil _ _) fun ⟨_, member, _⟩ => List.not_mem_nil member
  | cons letter rest inductionHypothesis =>
    rw [List.infix_cons_iff, List.cons_prefix_cons, inductionHypothesis, runs]
    by_cases marked : letter = mark
    · rw [if_pos marked, List.exists_mem_cons_iff, prefix_takeWhile_iff, and_iff_left plain,
        and_iff_right marked.symm]
    · rw [if_neg marked]
      exact or_iff_right fun both => marked both.1.symm

/-! ### Replaced letters -/

/-- A replacement of letters that leaves alone what ends a run, and keeps the others in it. -/
structure Respects (inside : Letter → Bool) (replace : Letter → List Letter) : Prop where
  fixed : ∀ letter, inside letter = false → replace letter = [letter]
  within : ∀ letter, inside letter = true → ∀ image ∈ replace letter, inside image = true

variable {replace : Letter → List Letter}

theorem Respects.all (respects : Respects inside replace)
    (plain : ∀ letter ∈ word, inside letter = true) :
    ∀ image ∈ word.flatMap replace, inside image = true := by
  intro image member
  obtain ⟨letter, inWord, image⟩ := List.mem_flatMap.mp member
  exact respects.within letter (plain letter inWord) _ image

theorem Respects.takeWhile (respects : Respects inside replace) (list : List Letter) :
    (list.flatMap replace).takeWhile inside = (list.takeWhile inside).flatMap replace := by
  induction list with
  | nil => rfl
  | cons letter rest inductionHypothesis =>
    rw [List.flatMap_cons]
    by_cases stays : inside letter = true
    · rw [List.takeWhile_append_of_pos (respects.within letter stays), inductionHypothesis,
        List.takeWhile_cons_of_pos stays, List.flatMap_cons]
    · rw [respects.fixed letter (Bool.eq_false_iff.mpr stays), List.singleton_append,
        List.takeWhile_cons_of_neg stays, List.takeWhile_cons_of_neg stays, List.flatMap_nil]

theorem runs_append [DecidableEq Letter] {mark : Letter} (first second : List Letter)
    (unmarked : mark ∉ first) : runs mark inside (first ++ second) = runs mark inside second := by
  induction first with
  | nil => rfl
  | cons letter rest inductionHypothesis =>
    rw [List.mem_cons, not_or] at unmarked
    obtain ⟨other, unmarked⟩ := unmarked
    rw [List.cons_append, runs, if_neg (Ne.symm other), inductionHypothesis unmarked]

/-- The runs of the replaced list are the replaced runs. -/
theorem Respects.runs [DecidableEq Letter] {mark : Letter} (respects : Respects inside replace)
    (ends : inside mark = false) (list : List Letter) :
    runs mark inside (list.flatMap replace) =
      (Marked.runs mark inside list).map (List.flatMap replace) := by
  induction list with
  | nil => rfl
  | cons letter rest inductionHypothesis =>
    rw [List.flatMap_cons, Marked.runs]
    by_cases marked : letter = mark
    · rw [marked, respects.fixed mark ends, List.singleton_append, Marked.runs, if_pos rfl,
        if_pos rfl, respects.takeWhile, inductionHypothesis, List.map_cons]
    · rw [if_neg marked, runs_append _ _ ?_, inductionHypothesis]
      by_cases stays : inside letter = true
      · intro member
        rw [respects.within letter stays mark member] at ends
        cases ends
      · rw [respects.fixed letter (Bool.eq_false_iff.mpr stays), List.mem_singleton]
        exact Ne.symm marked

end Marked
