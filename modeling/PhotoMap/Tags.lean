/-
This file proves that a search text acts as the set of its words. Splitting at a
space splits the tags, so two texts with a space between them have the tags of
both, and a name is found exactly when one of the texts finds it. Nothing but
the words of the text makes a difference: their order, their repetition and the
spaces around them do not. The tags joined by single spaces are a text with the
same tags.
-/

import PhotoMap.Hashtags

namespace PhotoMap

/-! ### The words of a text -/

/-- The words of a search text: what stands between its spaces and is not empty. -/
def searchWords (findText : Text) : List Text :=
  (findText.splitOn space).filter fun word => !word.isEmpty

theorem mem_searchWords {findText word : Text} :
    word ∈ searchWords findText ↔ word ∈ findText.splitOn space ∧ word ≠ [] := by
  rw [searchWords, List.mem_filter, Bool.not_eq_true', List.isEmpty_eq_false_iff]

theorem searchWords_append (first second : Text) :
    searchWords (first ++ space :: second) = searchWords first ++ searchWords second := by
  rw [searchWords, List.splitOn_append_cons_self, List.filter_append]
  rfl

/-- Joining words by single spaces and splitting the text again gives the words back. -/
theorem searchWords_intercalate {words : List Text}
    (plain : ∀ word ∈ words, space ∉ word ∧ word ≠ []) :
    searchWords (List.intercalate [space] words) = words := by
  by_cases none : words = []
  · rw [none]
    rfl
  · rw [searchWords, List.splitOn_intercalate space (fun word member => (plain word member).1) none,
      List.filter_eq_self]
    intro word member
    simp [(plain word member).2]

/-! ### The tags of a text -/

/-- The tag of a word. -/
def tagOf (word : Text) : Text := numberSign :: withoutSign word

theorem makeSearchTagsFromText_eq_map (findText : Text) :
    makeSearchTagsFromText findText = (searchWords findText).map tagOf :=
  makeSearchTagsFromText_eq findText

/-- A tag is its own tag. -/
theorem tagOf_tagOf (word : Text) : tagOf (tagOf word) = tagOf word := by
  show numberSign :: withoutSign (numberSign :: withoutSign word) = _
  rw [withoutSign, List.head?_cons, if_pos rfl, List.tail_cons]
  rfl

theorem space_notMem_tagOf {word : Text} (plain : space ∉ word) : space ∉ tagOf word := by
  have fewer : withoutSign word ⊆ word := withoutSign_subset word
  rw [tagOf, List.mem_cons, not_or]
  exact ⟨by decide, fun member => plain (fewer member)⟩

/-- The tags of two texts with a space between them are the tags of both. -/
theorem makeSearchTagsFromText_append (first second : Text) :
    makeSearchTagsFromText (first ++ space :: second) =
      makeSearchTagsFromText first ++ makeSearchTagsFromText second := by
  simp only [makeSearchTagsFromText_eq_map, searchWords_append, List.map_append]

/-- A tag starts with a number sign and has no space. -/
theorem mem_makeSearchTagsFromText {findText tag : Text}
    (member : tag ∈ makeSearchTagsFromText findText) :
    tag.head? = some numberSign ∧ space ∉ tag := by
  rw [makeSearchTagsFromText_eq_map] at member
  obtain ⟨word, isWord, rfl⟩ := List.mem_map.mp member
  have piece := (mem_searchWords.mp isWord).1
  exact ⟨rfl, space_notMem_tagOf (Marked.not_mem_of_mem_splitOn piece)⟩

/-- The tags of the joined tags are the tags. -/
theorem makeSearchTagsFromText_intercalate (findText : Text) :
    makeSearchTagsFromText (List.intercalate [space] (makeSearchTagsFromText findText)) =
      makeSearchTagsFromText findText := by
  have plain : ∀ tag ∈ makeSearchTagsFromText findText, space ∉ tag ∧ tag ≠ [] := by
    intro tag member
    obtain ⟨sign, noSpace⟩ := mem_makeSearchTagsFromText member
    refine ⟨noSpace, ?_⟩
    rintro rfl
    cases sign
  rw [makeSearchTagsFromText_eq_map (List.intercalate _ _), searchWords_intercalate plain,
    makeSearchTagsFromText_eq_map, List.map_map]
  exact List.map_congr_left fun word _ => tagOf_tagOf word

/-! ### What a text finds -/

/-- A name is found by tags exactly when one of them finds it. -/
theorem isHasTags_append {locale : Locale} {name : Option Text} {tags others : List Text} :
    isHasTags locale name (tags ++ others) = true ↔
      isHasTags locale name tags = true ∨ isHasTags locale name others = true := by
  simp only [isHasTags_eq_true, List.mem_append, or_and_right, exists_or, and_or_left]

/-- More tags find no fewer names. -/
theorem isHasTags_mono {locale : Locale} {name : Option Text} {tags others : List Text}
    (fewer : tags ⊆ others) (found : isHasTags locale name tags = true) :
    isHasTags locale name others = true := by
  rw [isHasTags_eq_true] at found ⊢
  obtain ⟨text, named, tag, member, inText⟩ := found
  exact ⟨text, named, tag, fewer member, inText⟩

example : makeSearchTagsFromText (text "  lake ##a  #lake") =
    [text "#lake", text "##a", text "#lake"] := by decide

end PhotoMap
