/-
This file models one completion of `Repo.getAllPhotos` and says exactly when it
does what it is for. The callback casts the whole snapshot to a dictionary,
drops it when the cast fails, and appends the photo of every entry to a list
that is never cleared. So a load survives when every dictionary among the
entries holds a record, and what it has appended stays in front of every later
one.
-/

import PhotoMap.Record

namespace PhotoMap

/-! ### One completion -/

namespace Repo

/-- The body of the loop over the snapshot. -/
def loadEntry (photosForDownload : List Photo) (entry : Σ _ : Text, Value) :
    Except Trap (List Photo) := do
  match ← getPhotoFromSnapShot entry.1 entry.2 with
  | some photo => return photosForDownload ++ [photo]
  | none => return photosForDownload

/-- The callback of `getAllPhotos`: what is not a dictionary is reported as null. -/
def getAllPhotos (photosForDownload : List Photo) (snapshotValue : Value) :
    Except Trap (List Photo) :=
  match snapshotValue.asDictionary? with
  | none => .ok photosForDownload
  | some snapshotMap => snapshotMap.foldlM loadEntry photosForDownload

end Repo

/-- The photos of the entries that hold a record, each from its own entry alone. -/
def recordedPhotos (entries : Entries) : List Photo :=
  entries.filterMap fun entry => (Record.ofValue? entry.2).map fun record =>
    record.photo entry.1

/-- A dictionary has every required field of a record, in its type. -/
def HasRequiredFields (properties : Entries) : Prop :=
  field properties Repo.imageURLFB Value.asString? ≠ none ∧
    field properties Repo.timestampFB Value.asInt? ≠ none ∧
    field properties Repo.latitudeFB Value.asDouble? ≠ none ∧
    field properties Repo.longitudeFB Value.asDouble? ≠ none ∧
    field properties Repo.categoryFB Value.asString? ≠ none

theorem Record.ofEntries?_ne_none {properties : Entries} :
    Record.ofEntries? properties ≠ none ↔ HasRequiredFields properties := by
  simp only [ofEntries?, HasRequiredFields, Option.ne_none_iff_exists', Option.bind_eq_some_iff,
    Option.some_inj]
  constructor
  · rintro ⟨record, imageurl, h₁, timestamp, h₂, latitude, h₃, longitude, h₄, category, h₅, -⟩
    exact ⟨⟨_, h₁⟩, ⟨_, h₂⟩, ⟨_, h₃⟩, ⟨_, h₄⟩, ⟨_, h₅⟩⟩
  · rintro ⟨⟨_, h₁⟩, ⟨_, h₂⟩, ⟨_, h₃⟩, ⟨_, h₄⟩, ⟨_, h₅⟩⟩
    exact ⟨_, _, h₁, _, h₂, _, h₃, _, h₄, _, h₅, rfl⟩

/-- A value the decoder survives: one it skips, or a dictionary that holds a record. -/
def Decodes (value : Value) : Prop :=
  ∀ properties, value = .dictionary properties → HasRequiredFields properties

namespace Repo

/-- One entry is skipped or loaded when it decodes, and ends the process otherwise. -/
theorem loadEntry_decodes (photosForDownload : List Photo) (entry : Σ _ : Text, Value)
    (decodes : Decodes entry.2) :
    loadEntry photosForDownload entry = .ok (photosForDownload ++ recordedPhotos [entry]) := by
  obtain ⟨key, value⟩ := entry
  cases dictionary : value.asDictionary? with
  | none =>
    simp only [loadEntry, getPhotoFromSnapShot_other key value dictionary, recordedPhotos,
      Record.ofValue?, dictionary, bind_ok, Option.bind_none, List.filterMap_cons, Option.map_none,
      List.filterMap_nil, List.append_nil]
    rfl
  | some properties =>
    have isDictionary : value = .dictionary properties := by
      cases value <;> cases dictionary
      rfl
    obtain ⟨record, holds⟩ := Option.ne_none_iff_exists'.mp
      (Record.ofEntries?_ne_none.mpr (decodes properties isDictionary))
    have found : Record.ofValue? value = some record := by
      rw [Record.ofValue?, dictionary, Option.bind_some, holds]
    simp only [loadEntry, getPhotoFromSnapShot_record key value record found, recordedPhotos,
      found, bind_ok, List.filterMap_cons, Option.map_some, List.filterMap_nil]
    rfl

theorem loadEntry_malformed (photosForDownload : List Photo) (entry : Σ _ : Text, Value)
    (malformed : ¬ Decodes entry.2) :
    loadEntry photosForDownload entry = .error .castFailed := by
  obtain ⟨key, value⟩ := entry
  simp only [Decodes, not_forall] at malformed
  obtain ⟨properties, rfl, missing⟩ := malformed
  have none : Record.ofEntries? properties = none := by
    by_contra some
    exact missing (Record.ofEntries?_ne_none.mp some)
  rw [loadEntry, getPhotoFromSnapShot_malformed key properties none, bind_error]

/-- The loop ends exactly when every entry decodes, and then it appends their photos. -/
theorem foldlM_loadEntry_eq_ok {entries : Entries} {before after : List Photo} :
    entries.foldlM loadEntry before = .ok after ↔
      (∀ entry ∈ entries, Decodes entry.2) ∧ after = before ++ recordedPhotos entries := by
  induction entries generalizing before with
  | nil => simp [recordedPhotos, pure, Except.pure, eq_comm]
  | cons entry rest inductionHypothesis =>
    rw [List.foldlM_cons, List.forall_mem_cons]
    by_cases decodes : Decodes entry.2
    · rw [loadEntry_decodes before entry decodes, bind_ok, inductionHypothesis, List.append_assoc,
        recordedPhotos, recordedPhotos, ← List.filterMap_append, List.singleton_append]
      simp only [decodes, true_and]
      rfl
    · rw [loadEntry_malformed before entry decodes, bind_error]
      simp [decodes]

theorem getAllPhotos_dictionary_eq_ok {entries : Entries} {before after : List Photo} :
    getAllPhotos before (.dictionary entries) = .ok after ↔
      (∀ entry ∈ entries, Decodes entry.2) ∧ after = before ++ recordedPhotos entries :=
  foldlM_loadEntry_eq_ok

end Repo

/-! ### Malformed records -/

/-- Every iteration of the dictionary runs to its end and appends the photos of the entries
that hold a record. -/
def LoadsEveryRecord (entries : Entries) : Prop :=
  ∀ order : Entries, order.Perm entries → ∀ photosForDownload,
    Repo.getAllPhotos photosForDownload (.dictionary order) =
      .ok (photosForDownload ++ recordedPhotos order)

/-- A load survives its entries exactly when every dictionary among them has the required
fields; entries of any other type are skipped. -/
theorem loadsEveryRecord_iff (entries : Entries) :
    LoadsEveryRecord entries ↔
      ∀ entry ∈ entries, ∀ properties, entry.2 = .dictionary properties →
        HasRequiredFields properties := by
  constructor
  · intro loads
    exact (Repo.getAllPhotos_dictionary_eq_ok.mp (loads entries (List.Perm.refl _) [])).1
  · intro decodes order same photosForDownload
    exact Repo.getAllPhotos_dictionary_eq_ok.mpr
      ⟨fun entry member => decodes entry (same.mem_iff.mp member), rfl⟩

/-- The fields of a stored photo of the lake. -/
def lakeFields : Entries :=
  [⟨text "category", .string (text "Nature")⟩,
    ⟨text "imageurl", .string (text "https://images/lake")⟩,
    ⟨text "latitude", .integer 53⟩,
    ⟨text "longitude", .integer 27⟩,
    ⟨text "timestamp", .integer 1393570216⟩,
    ⟨text "title", .string (text "lake #blue")⟩]

/-- A good record is lost with the one beside it, which has no image URL. -/
theorem load_trapped_by_one_record :
    ¬ ∀ entries : Entries, LoadsEveryRecord entries := by
  intro always
  have loads := always [⟨text "-La", .dictionary lakeFields⟩,
    ⟨text "-Lb", .dictionary [⟨text "title", .string (text "hill")⟩]⟩]
  have fields := (Repo.getAllPhotos_dictionary_eq_ok.mp (loads _ (List.Perm.refl _) [])).1
    ⟨text "-Lb", .dictionary [⟨text "title", .string (text "hill")⟩]⟩ (by simp)
  exact (fields _ rfl).1 (by decide)

end PhotoMap
