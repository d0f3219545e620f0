/-
This file follows a photo that is loaded, edited and written again. The decoder
gives it the key of its record as identifier, so the write goes back to that key
and leaves the other records alone. But `setValue` replaces the record as a
whole, and the encoder writes neither the image URL nor the coordinates: what
the user did not touch is erased, whatever the record and the edit were.
-/

import PhotoMap.Repo

namespace PhotoMap

/-- The photo with a name and a category of the user's. -/
def Photo.edited (photo : Photo) (name : Option Text) (category : Category) : Photo :=
  { photo with name := name, category := category }

/-- The database after `setValue` stored a record. -/
def Node.afterWrite (database : Node) (write : Repo.BeanWrite) : Node :=
  database.updateChild write.path (savedNode write.parameters)

namespace Repo

variable {foundation : Foundation} {database : Node} {repo : Repo} {signedIn : Option Uid}
  {autoId key : Text} {reference : Path} {photo : Photo} {write : BeanWrite}

/-! ### What a write replaces -/

theorem parametersForFB_keys {entries : Entries} (encoded : parametersForFB photo = .ok entries) :
    entries.keys = [nameFB, timestampFB, categoryFB] := by
  obtain ⟨name, timestamp, -, -, rfl⟩ := parametersForFB_eq_ok.mp encoded
  rfl

/-- The dictionary of the encoder has no field beside the title, the timestamp and the
category. -/
theorem parametersForFB_missing {entries : Entries}
    (encoded : parametersForFB photo = .ok entries) {name : Text}
    (other : name ∉ [nameFB, timestampFB, categoryFB]) : entries.dlookup name = none := by
  rw [List.dlookup_eq_none, parametersForFB_keys encoded]
  exact other

/-- What is read where a write went is the dictionary that was set. -/
theorem val_afterWrite (foundation : Foundation) (database : Node)
    (issued : repo.uploaPhotodBean signedIn photo autoId = .ok write) :
    foundation.val ((database.afterWrite write).getChild write.path) =
      .dictionary write.parameters := by
  have encoded := (uploaPhotodBean_eq_ok issued).1
  rw [Node.afterWrite, Node.getChild_updateChild _ _ _ (savedNode_isEmpty encoded)]
  exact val_savedNode foundation encoded

/-- A photo with an identifier of one piece is written under that identifier. -/
theorem uploaPhotodBean_path {next : Repo}
    (read : repo.readPhotosReference signedIn = .ok (reference, next))
    (identified : photo.id = some key) (piece : pathPieces key = [key])
    (issued : repo.uploaPhotodBean signedIn photo autoId = .ok write) :
    write.path = reference ++ [key] := by
  obtain ⟨-, other, readAgain, path⟩ := uploaPhotodBean_eq_ok issued
  rw [read, Except.ok.injEq, Prod.mk.injEq] at readAgain
  rw [path, ← readAgain.1, identified, Option.getD_some, piece]

/-- The other records stay as they are. -/
theorem afterWrite_sibling (database : Node)
    (issued : repo.uploaPhotodBean signedIn photo autoId = .ok write)
    (path : write.path = reference ++ [key]) {other : Text} (different : other ≠ key) :
    (database.afterWrite write).getChild (reference ++ [other]) =
      database.getChild (reference ++ [other]) := by
  rw [Node.afterWrite, path]
  exact Node.getChild_updateChild_sibling database reference _
    (savedNode_isEmpty (uploaPhotodBean_eq_ok issued).1) different

/-! ### Saving a loaded photo again -/

/-- The record under the key is loaded, edited and written again, under the same key; it then
differs from what it was in its title and category only, and the other records not at all. -/
def ResavesOnlyEdits (foundation : Foundation) (database : Node) (repo : Repo)
    (signedIn : Option Uid) (reference : Path) (key : Text) (record : Record)
    (name : Option Text) (category : Category) (autoId : Text) : Prop :=
  ∃ loaded write,
    getPhotoFromSnapShot key (foundation.val (database.getChild (reference ++ [key]))) =
      .ok (some loaded) ∧
    repo.uploaPhotodBean signedIn (loaded.edited name category) autoId = .ok write ∧
    write.path = reference ++ [key] ∧
    Record.ofValue? (foundation.val ((database.afterWrite write).getChild (reference ++ [key]))) =
      some { record with title := name, category := category.rawValue } ∧
    ∀ other, other ≠ key →
      (database.afterWrite write).getChild (reference ++ [other]) =
        database.getChild (reference ++ [other])

/-- What was written is no record any more. -/
theorem not_resavesOnlyEdits (foundation : Foundation) (database : Node) (repo : Repo)
    (signedIn : Option Uid) (reference : Path) (key : Text) (record : Record)
    (name : Option Text) (category : Category) (autoId : Text) :
    ¬ ResavesOnlyEdits foundation database repo signedIn reference key record name category
      autoId := by
  rintro ⟨loaded, write, -, issued, path, kept, -⟩
  have erased : Record.ofEntries? write.parameters = none :=
    parametersForFB_malformed (uploaPhotodBean_eq_ok issued).1
  rw [← path, val_afterWrite foundation database issued] at kept
  rw [Record.ofValue?, Value.asDictionary?, Option.bind_some, erased] at kept
  cases kept

/-- Saving a loaded photo again never keeps what was not edited. The write goes to the key the
photo was loaded from and leaves the other records alone, but the image URL, the latitude and
the longitude are gone from the record, which cannot be loaded again. -/
theorem resave_erases (foundation : Foundation) (database : Node) (repo next : Repo)
    (signedIn : Option Uid) (reference : Path) (key : Text) (record : Record)
    (name : Option Text) (category : Category) (autoId : Text)
    (stored : HoldsRecord foundation (database.getChild (reference ++ [key])) record)
    (read : repo.readPhotosReference signedIn = .ok (reference, next))
    (piece : pathPieces key = [key]) :
    (∃ loaded, getPhotoFromSnapShot key
        (foundation.val (database.getChild (reference ++ [key]))) = .ok (some loaded) ∧
      ∀ write, repo.uploaPhotodBean signedIn (loaded.edited name category) autoId = .ok write →
        write.path = reference ++ [key] ∧
        (∃ parameters,
          foundation.val ((database.afterWrite write).getChild (reference ++ [key])) =
            .dictionary parameters ∧
          (∀ field ∈ [imageURLFB, latitudeFB, longitudeFB], parameters.dlookup field = none) ∧
          getPhotoFromSnapShot key (.dictionary parameters) = .error .castFailed) ∧
        ∀ other, other ≠ key →
          (database.afterWrite write).getChild (reference ++ [other]) =
            database.getChild (reference ++ [other])) ∧
      ¬ ResavesOnlyEdits foundation database repo signedIn reference key record name category
        autoId := by
  obtain ⟨properties, exported, decoded⟩ := stored.val
  have holds : Record.ofValue? (foundation.val (database.getChild (reference ++ [key]))) =
      some record := by
    rw [exported]
    exact decoded
  refine ⟨⟨record.photo key, getPhotoFromSnapShot_record key _ record holds, ?_⟩,
    not_resavesOnlyEdits foundation database repo signedIn reference key record name category
      autoId⟩
  intro write issued
  have encoded := (uploaPhotodBean_eq_ok issued).1
  have path : write.path = reference ++ [key] := uploaPhotodBean_path read rfl piece issued
  refine ⟨path, ⟨write.parameters, ?_, fun field member => ?_, ?_⟩, fun other different => ?_⟩
  · rw [← path]
    exact val_afterWrite foundation database issued
  · refine parametersForFB_missing encoded fun written => ?_
    have apart : ∀ field ∈ [imageURLFB, latitudeFB, longitudeFB],
        field ∉ [nameFB, timestampFB, categoryFB] := by decide
    exact apart field member written
  · exact getPhotoFromSnapShot_malformed key _ (parametersForFB_malformed encoded)
  · exact afterWrite_sibling database issued path different

/-! ### The photo of the lake -/

/-- The node of a user. -/
def annPhotos : Path := [photosObjectcFBPath, text "ann"]

/-- The database of a user with one photo of the lake. -/
def lakeDatabase : Node :=
  .children [⟨photosObjectcFBPath, .children [⟨text "ann", .children
    [⟨text "-La", lakeNode⟩]⟩]⟩]

/-- The repository after an access of the user's node. -/
def annRepo : Repo := { photoBeansDBReference := some annPhotos }

theorem resave_erases_lake :
    (∃ loaded, getPhotoFromSnapShot (text "-La")
        (Foundation.ascii.val (lakeDatabase.getChild (annPhotos ++ [text "-La"]))) =
          .ok (some loaded) ∧
      ∀ write, annRepo.uploaPhotodBean none
          (loaded.edited (some (text "shore")) .friends) (text "-Lb") = .ok write →
        write.path = annPhotos ++ [text "-La"] ∧
        (∃ parameters,
          Foundation.ascii.val ((lakeDatabase.afterWrite write).getChild
            (annPhotos ++ [text "-La"])) = .dictionary parameters ∧
          (∀ field ∈ [imageURLFB, latitudeFB, longitudeFB], parameters.dlookup field = none) ∧
          getPhotoFromSnapShot (text "-La") (.dictionary parameters) = .error .castFailed) ∧
        ∀ other, other ≠ text "-La" →
          (lakeDatabase.afterWrite write).getChild (annPhotos ++ [other]) =
            lakeDatabase.getChild (annPhotos ++ [other])) ∧
      ¬ ResavesOnlyEdits Foundation.ascii lakeDatabase annRepo none annPhotos (text "-La")
        lakeRecord (some (text "shore")) .friends (text "-Lb") :=
  resave_erases Foundation.ascii lakeDatabase annRepo annRepo none annPhotos (text "-La")
    lakeRecord (some (text "shore")) .friends (text "-Lb") lakeNode_holdsRecord rfl (by decide)

/-- The image URL and the coordinates of the lake are erased by a new title. -/
theorem lake_erased_by_title :
    ¬ ∀ (foundation : Foundation) (database : Node) (repo next : Repo) (signedIn : Option Uid)
      (reference : Path) (key : Text) (record : Record) (name : Text) (category : Category)
      (autoId : Text),
      HoldsRecord foundation (database.getChild (reference ++ [key])) record →
        Category.ofRawValue record.category ≠ none →
        repo.readPhotosReference signedIn = .ok (reference, next) →
        isValidPathString key = true → pathPieces key = [key] →
          ResavesOnlyEdits foundation database repo signedIn reference key record (some name)
            category autoId := by
  intro always
  exact not_resavesOnlyEdits Foundation.ascii lakeDatabase annRepo none annPhotos (text "-La")
    lakeRecord (some (text "shore")) .friends (text "-Lb")
    (always Foundation.ascii lakeDatabase annRepo annRepo none annPhotos (text "-La") lakeRecord
      (text "shore") .friends (text "-Lb") lakeNode_holdsRecord (by decide) rfl (by decide)
      (by decide))

end Repo

end PhotoMap
