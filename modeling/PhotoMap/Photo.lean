/-
This file models `Models/Photo.swift`, `Models/Category.swift` and the dates a
photo carries. A date is the binary64 number of its seconds since 1970, which
is all the program reads of it; an image is what its JPEG encoder makes of it.
-/

import PhotoMap.Binary64
import PhotoMap.Swift

namespace PhotoMap

open Binary64

/-! ### Categories -/

inductive Category where
  | nature
  | friends
  | default
deriving DecidableEq

def Category.rawValue : Category → Text
  | .nature => text "Nature"
  | .friends => text "Friends"
  | .default => text "Default"

/-- `Category(rawValue:)`. -/
def Category.ofRawValue (rawValue : Text) : Option Category :=
  if rawValue = text "Nature" then some .nature
  else if rawValue = text "Friends" then some .friends
  else if rawValue = text "Default" then some .default
  else none

@[simp]
theorem Category.ofRawValue_rawValue (category : Category) :
    Category.ofRawValue category.rawValue = some category := by
  cases category <;> decide

/-! ### Dates and images -/

/-- A `Date`, by its seconds since 1970. -/
structure Date where
  timeIntervalSince1970 : Double
deriving DecidableEq

/-- A `UIImage`, by what `UIImageJPEGRepresentation` makes of it: `none` for an image without
pixels. -/
structure UIImage where
  jpegRepresentation : Option (List UInt8)
deriving DecidableEq

/-- `UIImage()`. -/
def UIImage.empty : UIImage := ⟨none⟩

/-! ### Photos -/

structure Photo where
  id : Option Text
  url : Option Text
  name : Option Text
  date : Date
  image : Option UIImage
  category : Category
  latitude : Double
  longitude : Double
deriving DecidableEq

/-- `Photo(id:date:latitude:longitude:)`: the other properties take their defaults. -/
def Photo.ofRecord (id : Text) (date : Date) (latitude longitude : Double) : Photo where
  id := some id
  url := none
  name := none
  date := date
  image := some UIImage.empty
  category := .default
  latitude := latitude
  longitude := longitude

end PhotoMap
