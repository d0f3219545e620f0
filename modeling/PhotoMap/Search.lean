/-
This file models the search words of the table: how a search text is made into
tags, and when the name of a photo has one of them. What depends on the device,
the lower case of a string and the title of a month, is a parameter.
-/

import Mathlib.Data.List.Infix
import PhotoMap.Photo

namespace PhotoMap

/-! ### Strings of the device -/

/-- `lowercased()`, and the title of the month of a date in the current time zone. -/
structure Locale where
  lowercased : Text → Text
  monthYearDate : Date → Text

def space : Character := .ofScalar ' '
def numberSign : Character := .ofScalar '#'

/-- `contains(_:)`: the empty string is found nowhere. -/
def containsText (string other : Text) : Bool := !other.isEmpty && decide (other <:+: string)

/-! ### Tags -/

/-- The words of a search text, each led by a number sign. -/
def makeSearchTagsFromText (findText : Text) : List Text :=
  ((findText.splitOn space).filter fun tag => !tag.isEmpty).map fun tag =>
    if tag.head? = some numberSign then tag else numberSign :: tag

/-- Some tag is in the text, whatever the case of their letters. -/
def isHasTags (locale : Locale) (text : Option Text) (tags : List Text) : Bool :=
  match text with
  | none => false
  | some text =>
    !tags.isEmpty && tags.any fun tag =>
      containsText (locale.lowercased text) (locale.lowercased tag)

/-- The photo is a result of the search. -/
def Photo.matches (photo : Photo) (locale : Locale) (searchText : Text) : Bool :=
  isHasTags locale photo.name (makeSearchTagsFromText searchText)

end PhotoMap
