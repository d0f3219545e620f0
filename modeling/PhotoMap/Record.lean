/-
This file models the two ends of a stored record: the dictionary
`Repo.uploaPhotodBean` passes to `setValue`, and `Repo.getPhotoFromSnapShot`,
which builds a photo from what a snapshot holds under a key. A record is what
the second one needs, as one value with its fields in their types: it decodes
exactly the dictionaries that hold a record, and traps on every other one. The
dictionary of the first one is never a record.
-/

import PhotoMap.Snapshot

namespace PhotoMap

open Binary64

/-! ### The keys of a record -/

/-- `properties[key] as? Target`: no field where the key is missing or the type another one. -/
def field {Target : Type} (properties : Entries) (key : Text) (cast : Value → Option Target) :
    Option Target :=
  (properties.dlookup key).bind cast

namespace Repo

def nameFB : Text := text "title"
def imageURLFB : Text := text "imageurl"
def timestampFB : Text := text "timestamp"
def latitudeFB : Text := text "latitude"
def longitudeFB : Text := text "longitude"
def categoryFB : Text := text "category"

/-! ### The encoder -/

/-- `parametersForFB` in `uploaPhotodBean`: the name is forced, and the seconds of the date are
converted to an `Int`. The image URL and the coordinates are not written. -/
def parametersForFB (photo : Photo) : Except Trap Entries := do
  let name ← force .unwrappedNil photo.name
  let timestamp ← force .integerOverflow photo.date.timeIntervalSince1970.toInt64?
  return [⟨nameFB, .string name⟩,
    ⟨timestampFB, .integer timestamp⟩,
    ⟨categoryFB, .string photo.category.rawValue⟩]

/-! ### The decoder -/

/-- `getPhotoFromSnapShot`: what is not a dictionary is skipped, the name may be missing, and
every other field is cast by force. -/
def getPhotoFromSnapShot (photoId : Text) (values : Value) : Except Trap (Option Photo) :=
  match values.asDictionary? with
  | none => .ok none
  | some properties => do
    let name := field properties nameFB Value.asString?
    let imageURLString ← force .castFailed (field properties imageURLFB Value.asString?)
    let timestamp ← force .castFailed (field properties timestampFB Value.asInt?)
    let date : Date := ⟨.ofInt64 timestamp⟩
    let latitude ← force .castFailed (field properties latitudeFB Value.asDouble?)
    let longitude ← force .castFailed (field properties longitudeFB Value.asDouble?)
    let categoryValue ← force .castFailed (field properties categoryFB Value.asString?)
    let photo := { Photo.ofRecord photoId date latitude longitude with
      name := name
      url := some imageURLString }
    match Category.ofRawValue categoryValue with
    | some category => return some { photo with category := category }
    | none => return some photo

end Repo

/-! ### Records -/

/-- The fields of a stored photo, in their types. Only the title may be missing. -/
structure Record where
  title : Option Text
  imageurl : Text
  timestamp : Int64
  latitude : Double
  longitude : Double
  category : Text

/-- The record a dictionary holds, when its required fields are present and well typed. -/
def Record.ofEntries? (properties : Entries) : Option Record :=
  (field properties Repo.imageURLFB Value.asString?).bind fun imageurl =>
    (field properties Repo.timestampFB Value.asInt?).bind fun timestamp =>
      (field properties Repo.latitudeFB Value.asDouble?).bind fun latitude =>
        (field properties Repo.longitudeFB Value.asDouble?).bind fun longitude =>
          (field properties Repo.categoryFB Value.asString?).bind fun category =>
            some
              { title := field properties Repo.nameFB Value.asString?
                imageurl, timestamp, latitude, longitude, category }

/-- The record a value holds: a value that is not a dictionary holds none. -/
def Record.ofValue? (value : Value) : Option Record :=
  value.asDictionary?.bind Record.ofEntries?

/-- The photo of a record. An unknown category name stands for the default one. -/
def Record.photo (record : Record) (key : Text) : Photo where
  id := some key
  url := some record.imageurl
  name := record.title
  date := ⟨.ofInt64 record.timestamp⟩
  image := some UIImage.empty
  category := (Category.ofRawValue record.category).getD .default
  latitude := record.latitude
  longitude := record.longitude

namespace Repo

/-- On a dictionary the decoder returns the photo of its record, and traps when it holds
none. -/
theorem getPhotoFromSnapShot_dictionary (photoId : Text) (properties : Entries) :
    getPhotoFromSnapShot photoId (.dictionary properties) =
      force .castFailed (Record.ofEntries? properties) >>= fun record =>
        .ok (some (record.photo photoId)) := by
  simp only [getPhotoFromSnapShot, Value.asDictionary?, Record.ofEntries?, force_bind,
    force_some, bind_assoc]
  refine bind_congr fun imageurl => bind_congr fun timestamp => bind_congr fun latitude =>
    bind_congr fun longitude => bind_congr fun category => ?_
  rw [bind_ok]
  cases known : Category.ofRawValue category <;>
    simp only [Record.photo, known, Photo.ofRecord] <;> rfl

theorem getPhotoFromSnapShot_record (photoId : Text) (value : Value) (record : Record)
    (holds : Record.ofValue? value = some record) :
    getPhotoFromSnapShot photoId value = .ok (some (record.photo photoId)) := by
  cases value with
  | dictionary properties =>
    have found : Record.ofEntries? properties = some record := holds
    rw [getPhotoFromSnapShot_dictionary, found, force_some, bind_ok]
  | _ => cases holds

theorem getPhotoFromSnapShot_other (photoId : Text) (value : Value)
    (other : value.asDictionary? = none) :
    getPhotoFromSnapShot photoId value = .ok none := by
  rw [getPhotoFromSnapShot, other]

theorem getPhotoFromSnapShot_malformed (photoId : Text) (properties : Entries)
    (malformed : Record.ofEntries? properties = none) :
    getPhotoFromSnapShot photoId (.dictionary properties) = .error .castFailed := by
  rw [getPhotoFromSnapShot_dictionary, malformed, force_none, bind_error]

/-! ### The encoder's dictionary is not a record -/

theorem parametersForFB_eq_ok {photo : Photo} {entries : Entries} :
    parametersForFB photo = .ok entries ↔
      ∃ name timestamp, photo.name = some name ∧
        photo.date.timeIntervalSince1970.toInt64? = some timestamp ∧
        entries = [⟨nameFB, .string name⟩, ⟨timestampFB, .integer timestamp⟩,
          ⟨categoryFB, .string photo.category.rawValue⟩] := by
  simp only [parametersForFB, bind_eq_ok, force_eq_ok]
  constructor
  · rintro ⟨name, named, timestamp, dated, equal⟩
    exact ⟨name, timestamp, named, dated, (Except.ok.inj equal).symm⟩
  · rintro ⟨name, timestamp, named, dated, equal⟩
    exact ⟨name, named, timestamp, dated, congrArg Except.ok equal.symm⟩

/-- The dictionary of the encoder has no image URL. -/
theorem parametersForFB_imageurl {photo : Photo} {entries : Entries}
    (encoded : parametersForFB photo = .ok entries) :
    entries.dlookup imageURLFB = none := by
  obtain ⟨name, timestamp, -, -, rfl⟩ := parametersForFB_eq_ok.mp encoded
  rw [List.dlookup_eq_none]
  simp only [List.keys_cons, List.keys_nil]
  decide

theorem parametersForFB_malformed {photo : Photo} {entries : Entries}
    (encoded : parametersForFB photo = .ok entries) : Record.ofEntries? entries = none := by
  rw [Record.ofEntries?, field, parametersForFB_imageurl encoded]
  rfl

/-- The decoder reads back the record the encoder wrote: the identifier is the key, the fields
are those of the photo, and the date is cut to whole seconds. -/
def RoundTrips (photo : Photo) (key : Text) : Prop :=
  ∃ entries loaded, parametersForFB photo = .ok entries ∧
    getPhotoFromSnapShot key (.dictionary entries) = .ok (some loaded) ∧
    loaded.id = some key ∧ loaded.name = photo.name ∧ loaded.url = photo.url ∧
    loaded.category = photo.category ∧ loaded.latitude = photo.latitude ∧
    loaded.longitude = photo.longitude ∧
    loaded.date.timeIntervalSince1970.value? =
      photo.date.timeIntervalSince1970.value?.map fun seconds => (truncate seconds : ℚ)

theorem not_roundTrips (photo : Photo) (key : Text) : ¬ RoundTrips photo key := by
  rintro ⟨entries, loaded, encoded, decoded, -⟩
  rw [getPhotoFromSnapShot_malformed key entries (parametersForFB_malformed encoded)] at decoded
  cases decoded

/-- No photo survives the round trip: the encoder succeeds on it, the decoder traps on what the
encoder wrote. -/
theorem upload_then_load_traps (photo : Photo) (key : Text) (named : photo.name ≠ none)
    (dated : photo.date.timeIntervalSince1970.toInt64? ≠ none) :
    (∃ entries, parametersForFB photo = .ok entries ∧
      getPhotoFromSnapShot key (.dictionary entries) = .error .castFailed) ∧
      ¬ RoundTrips photo key := by
  obtain ⟨name, named⟩ := Option.ne_none_iff_exists'.mp named
  obtain ⟨timestamp, dated⟩ := Option.ne_none_iff_exists'.mp dated
  have encoded := parametersForFB_eq_ok.mpr ⟨name, timestamp, named, dated, rfl⟩
  exact ⟨⟨_, encoded, getPhotoFromSnapShot_malformed key _ (parametersForFB_malformed encoded)⟩,
    not_roundTrips photo key⟩

/-- A photo with every property set. -/
def lakePhoto : Photo where
  id := some (text "7")
  url := some (text "https://images/lake")
  name := some (text "lake #blue")
  date := ⟨.ofInt64 1393570216⟩
  image := some UIImage.empty
  category := .nature
  latitude := .ofInt64 53
  longitude := .ofInt64 27

theorem upload_then_load_traps_lake :
    (∃ entries, parametersForFB lakePhoto = .ok entries ∧
      getPhotoFromSnapShot (text "7") (.dictionary entries) = .error .castFailed) ∧
      ¬ RoundTrips lakePhoto (text "7") :=
  upload_then_load_traps lakePhoto (text "7") (by decide) (by decide)

theorem round_trip_fails_at_lake :
    ¬ ∀ (photo : Photo) (key : Text), photo.name ≠ none →
      photo.date.timeIntervalSince1970.toInt64? ≠ none → RoundTrips photo key :=
  fun always => not_roundTrips lakePhoto (text "7")
    (always lakePhoto (text "7") (by decide) (by decide))

end Repo

end PhotoMap
