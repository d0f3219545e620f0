/-
This file relates the search to the hashtags of a name. The search splits its
text into words, leads each by a number sign and looks for it anywhere in the
name, both in lower case. A number sign in the name starts a hashtag, and a word
has no sign or space of its own, so what is found can only start at a hashtag
and cannot run past its end: the words are prefixes of hashtags, whatever the
case of their letters.
-/

import PhotoMap.Marked
import PhotoMap.Search

namespace PhotoMap

/-! ### Hashtags -/

/-- A character a hashtag goes on with. -/
def inHashtag (character : Character) : Bool :=
  decide (character ≠ space ∧ character ≠ numberSign)

/-- The hashtags of a name, without their number signs: each is what follows a sign, up to the
next space or number sign. -/
def hashtags (name : Text) : List Text := Marked.runs numberSign inHashtag name

/-- A word of a search text without its leading number sign. -/
def withoutSign (word : Text) : Text := if word.head? = some numberSign then word.tail else word

/-- A lower case that goes character by character, and neither changes nor makes a space or a
number sign. -/
def Locale.Characterwise (locale : Locale) : Prop :=
  ∃ lower : Character → Text, (∀ text, locale.lowercased text = text.flatMap lower) ∧
    Marked.Respects inHashtag lower

/-! ### Tags -/

/-- Every tag is a word behind one number sign. -/
theorem makeSearchTagsFromText_eq (findText : Text) :
    makeSearchTagsFromText findText =
      ((findText.splitOn space).filter fun word => !word.isEmpty).map fun word =>
        numberSign :: withoutSign word := by
  refine congrArg (fun lead => List.map lead _) (funext fun word => ?_)
  unfold withoutSign
  by_cases signed : word.head? = some numberSign
  · rw [if_pos signed, if_pos signed, List.cons_head?_tail signed]
  · rw [if_neg signed, if_neg signed]

theorem isHasTags_eq_true {locale : Locale} {name : Option Text} {tags : List Text} :
    isHasTags locale name tags = true ↔ ∃ text, name = some text ∧ ∃ tag ∈ tags,
      containsText (locale.lowercased text) (locale.lowercased tag) = true := by
  unfold isHasTags
  split
  · simp
  · rename_i text
    rw [Bool.and_eq_true, List.any_eq_true]
    constructor
    · rintro ⟨-, found⟩
      exact ⟨text, rfl, found⟩
    · rintro ⟨other, same, tag, member, found⟩
      rw [← Option.some.inj same] at found
      refine ⟨?_, tag, member, found⟩
      rw [Bool.not_eq_true', List.isEmpty_eq_false_iff]
      exact List.ne_nil_of_mem member

theorem containsText_cons {string other : Text} {character : Character} :
    containsText string (character :: other) = true ↔ (character :: other) <:+: string := by
  rw [containsText, List.isEmpty_cons, Bool.not_false, Bool.true_and, decide_eq_true_eq]

theorem withoutSign_subset (word : Text) : withoutSign word ⊆ word := by
  unfold withoutSign
  split
  · exact List.tail_subset word
  · exact List.Subset.refl word

/-- A word of a text has no space, so it goes on as a hashtag does when it has no sign either. -/
theorem withoutSign_inHashtag {findText word : Text} (member : word ∈ findText.splitOn space)
    (plain : numberSign ∉ word.tail) :
    ∀ character ∈ withoutSign word, inHashtag character = true := by
  have noSpace : space ∉ word := Marked.not_mem_of_mem_splitOn member
  have noSign : numberSign ∉ withoutSign word := by
    unfold withoutSign
    by_cases signed : word.head? = some numberSign
    · rwa [if_pos signed]
    · rw [if_neg signed]
      intro inWord
      cases word with
      | nil => cases inWord
      | cons first rest =>
        rcases List.mem_cons.mp inWord with same | later
        · exact signed (by rw [same, List.head?_cons])
        · exact plain later
  intro character inWord
  have fewer := withoutSign_subset word inWord
  exact decide_eq_true ⟨fun same => noSpace (same ▸ fewer), fun same => noSign (same ▸ inWord)⟩

/-- A marked word without sign and space is in a name, in lower case, exactly when it is a prefix
of a hashtag in lower case. -/
theorem sign_infix_iff {locale : Locale} (characterwise : locale.Characterwise) {name word : Text}
    (plain : ∀ character ∈ word, inHashtag character = true) :
    containsText (locale.lowercased name) (locale.lowercased (numberSign :: word)) = true ↔
      ∃ hashtag ∈ hashtags name, locale.lowercased word <+: locale.lowercased hashtag := by
  obtain ⟨lower, lowercased, respects⟩ := characterwise
  have ends : inHashtag numberSign = false := by decide
  have lead : locale.lowercased (numberSign :: word) =
      numberSign :: locale.lowercased word := by
    rw [lowercased, lowercased, List.flatMap_cons, respects.fixed numberSign ends,
      List.singleton_append]
  have stays : ∀ character ∈ locale.lowercased word, inHashtag character = true := by
    rw [lowercased]
    exact respects.all plain
  rw [lead, containsText_cons, Marked.mark_infix_iff stays, lowercased name,
    respects.runs ends]
  simp only [List.mem_map, exists_exists_and_eq_and]
  refine exists_congr fun hashtag => and_congr_right fun _ => ?_
  rw [lowercased hashtag]

/-- The lower case of the ASCII letters; other characters stay. -/
def lowerAscii (character : Character) : Text :=
  match character.scalars with
  | [scalar] => [.ofScalar scalar.toLower]
  | _ => [character]

/-- No letter becomes one of the characters before the lower case letters. -/
theorem toLower_below {scalar target : Char} (below : target.toNat < 97)
    (same : scalar.toLower = target) : scalar = target := by
  unfold Char.toLower at same
  split at same
  · rename_i upper
    have lower : 65 ≤ scalar.val.toNat ∧ scalar.val.toNat ≤ 90 := upper
    have value := congrArg (fun char : Char => char.val.toNat) same
    have shifted : (scalar.val + ('a'.val - 'A'.val)).toNat = scalar.val.toNat + 32 := by
      rw [UInt32.toNat_add, show ('a'.val - 'A'.val).toNat = 32 from rfl]
      omega
    have small : target.val.toNat < 97 := below
    rw [shifted] at value
    omega
  · exact same

theorem lowerAscii_respects : Marked.Respects inHashtag lowerAscii where
  fixed character ends := by
    have either : character = space ∨ character = numberSign := by
      by_contra neither
      rw [not_or] at neither
      exact of_decide_eq_false ends neither
    rcases either with rfl | rfl <;> rfl
  within character goesOn image member := by
    obtain ⟨noSpace, noSign⟩ := of_decide_eq_true goesOn
    unfold lowerAscii at member
    split at member
    · rename_i scalar scalars
      have lowered : ∀ target : Char, target.toNat < 97 →
          Character.ofScalar scalar.toLower = .ofScalar target →
            character = .ofScalar target := by
        intro target below same
        injection same with same
        injection same with same
        calc character = .ofScalar scalar := congrArg Character.mk scalars
          _ = .ofScalar target := by rw [toLower_below below same]
      rw [List.mem_singleton.mp member]
      exact decide_eq_true ⟨fun same => noSpace (lowered ' ' (by decide) same),
        fun same => noSign (lowered '#' (by decide) same)⟩
    · rw [List.mem_singleton.mp member]
      exact goesOn

/-- A device that knows the ASCII letters only. -/
def asciiLocale : Locale where
  lowercased text := text.flatMap lowerAscii
  monthYearDate _ := []

theorem asciiLocale_characterwise : asciiLocale.Characterwise :=
  ⟨lowerAscii, fun _ => rfl, lowerAscii_respects⟩

example : isHasTags asciiLocale (some (text "boat #Lakeside"))
    (makeSearchTagsFromText (text "LAKE")) = true := by decide

end PhotoMap
