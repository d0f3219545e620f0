/-
This file is the program as one machine: the sign-in requests, the saves with
their three chained callbacks, and the loads, any number of them in flight, over
one storage bucket and one database. A step is a request the program makes or
the completion of one of its callbacks, so a run is an interleaving. A step the
services cannot take is `none`: a second completion of one request, a download
URL of an object that does not exist, an image name that was given out before.
A trap ends the process, and no step follows it.

The handlers are inverted once: `AppStep` says what each event can do and what it
requires. The saves are then read on their own: `SaveStep` says what an event
does to the part of the state they share, and of the references only where a
record goes. Facts about saves are proved of that relation.
-/

import PhotoMap.Repo
import PhotoMap.Transition

namespace PhotoMap

theorem getElem?_concat_eq_some {α : Type} {items : List α} {item found : α} {index : Nat}
    (read : (items ++ [item])[index]? = some found) :
    items[index]? = some found ∨ (index = items.length ∧ found = item) := by
  rw [List.getElem?_append] at read
  split at read
  · exact Or.inl read
  · rename_i outside
    have single := List.getElem?_singleton ▸ read
    split at single
    · exact Or.inr ⟨by omega, (Option.some.inj single).symm⟩
    · cases single

/-! ### The saves -/

/-- The callback a save waits for. -/
inductive Stage where
  | uploading
  | lookingUp
  | writing (path : Path) (parameters : Entries)
  | finished

/-- One call of `savePhoto`: its argument, the variable its callbacks capture, the reference of
its image, and the user signed in when it was called. -/
structure Save where
  photo : Photo
  tempPhoto : Photo
  reference : Path
  caller : Option Uid
  stage : Stage

/-- A record that reached the database. -/
structure Write where
  save : Nat
  path : Path
  parameters : Entries

/-- What the saves share: the bucket, the database, the saves in the order of their calls, and
the records written so far. -/
structure Pipeline where
  storage : List Path
  database : Node
  saves : List Save
  writes : List Write

/-- The pipeline with one save changed. -/
def Pipeline.setSave (pipeline : Pipeline) (index : Nat) (save : Save) : Pipeline :=
  { pipeline with saves := pipeline.saves.set index save }

/-- No object and no earlier save has this reference. -/
def Pipeline.Fresh (pipeline : Pipeline) (reference : Path) : Prop :=
  reference ∉ pipeline.storage ∧ ∀ save ∈ pipeline.saves, save.reference ≠ reference

instance (pipeline : Pipeline) (reference : Path) : Decidable (pipeline.Fresh reference) :=
  inferInstanceAs (Decidable (_ ∧ _))

/-! ### The machine -/

inductive Service where
  | storage
  | database
deriving DecidableEq

/-- A path a call of `Repo` read or wrote, and the user signed in when the call was made. -/
structure Access where
  caller : Option Uid
  service : Service
  path : Path
deriving DecidableEq

structure App where
  signedIn : Option Uid
  requests : Nat
  repo : Repo
  pipeline : Pipeline
  loads : List (Option Path)
  accesses : List Access
  trapped : Bool

/-- A failed completion carries an error, a successful one does not. -/
inductive Event where
  | authRequest
  | authCompletion (user : Option Uid)
  | savePhoto (photo : Photo) (uuidString : Text)
  | putData (save : Nat) (stored : Bool) (failed : Bool)
  | downloadURL (save : Nat) (url : Option Text) (failed : Bool) (autoId : Text)
  | setValue (save : Nat) (failed : Bool)
  | getAllPhotos
  | snapshot (load : Nat) (order : List Text)

/-- The data `UIImageJPEGRepresentation` makes of the photo's image. -/
def Photo.imageData (photo : Photo) : Option (List UInt8) :=
  photo.image.bind UIImage.jpegRepresentation

/-- The photo of a call of `savePhoto` whose image can be encoded. -/
def Event.savedPhoto? : Event → Option Photo
  | .savePhoto photo _ => if photo.imageData.isSome then some photo else none
  | _ => none

/-- The save an event is a completion of. -/
def Event.save? : Event → Option Nat
  | .putData save _ _ => some save
  | .downloadURL save _ _ _ => some save
  | .setValue save _ => some save
  | _ => none

namespace App

/-- The program at its launch, over a bucket and a database of any contents. The user of an
earlier session may still be signed in. -/
def launch (signedIn : Option Uid) (storage : List Path) (database : Node) : App where
  signedIn := signedIn
  requests := 0
  repo := {}
  pipeline := { storage := storage, database := database, saves := [], writes := [] }
  loads := []
  accesses := []
  trapped := false

/-- The process ends, with what the handler did before in its memory. -/
def trap (app : App) : App := { app with trapped := true }

/-- `savePhoto`: the image and its data are forced, and the upload starts. -/
def savePhoto (app : App) (photo : Photo) (uuidString : Text) : Option App :=
  match photo.imageData with
  | none => some app.trap
  | some _ =>
    let (images, repo) := app.repo.readImagesReference app.signedIn
    let reference := storageChild images (Repo.imageName uuidString)
    if app.pipeline.Fresh reference then
      some { app with
        repo := repo
        pipeline := { app.pipeline with
          saves := app.pipeline.saves ++ [⟨photo, photo, reference, app.signedIn, .uploading⟩] }
        accesses := app.accesses ++ [⟨app.signedIn, .storage, reference⟩] }
    else none

/-- The completion of `putData`: its error is not looked at. -/
def putData (app : App) (index : Nat) (stored _failed : Bool) : Option App :=
  match app.pipeline.saves[index]? with
  | some save =>
    match save.stage with
    | .uploading =>
      let pipeline := app.pipeline.setSave index { save with stage := .lookingUp }
      some { app with
        pipeline := { pipeline with
          storage := if stored then save.reference :: pipeline.storage else pipeline.storage } }
    | _ => none
  | none => none

/-- `uploadImageHandler`: nothing is done on an error; else the URL is put into the captured
photo, which is written. -/
def uploadImageHandler (app : App) (index : Nat) (save : Save) (url : Option Text)
    (failed : Bool) (autoId : Text) : App :=
  if failed then
    { app with pipeline := app.pipeline.setSave index { save with stage := .finished } }
  else
    let tempPhoto := { save.tempPhoto with url := some (url.getD []) }
    match app.repo.uploaPhotodBean app.signedIn tempPhoto autoId with
    | .error _ => app.trap
    | .ok write =>
      { app with
        repo := write.repo
        pipeline := app.pipeline.setSave index
          { save with tempPhoto := tempPhoto, stage := .writing write.path write.parameters }
        accesses := app.accesses ++ [⟨save.caller, .database, write.path⟩] }

/-- The completion of `downloadURL`, which finds no URL of an object that does not exist. -/
def downloadURL (app : App) (index : Nat) (url : Option Text) (failed : Bool) (autoId : Text) :
    Option App :=
  match app.pipeline.saves[index]? with
  | some save =>
    match save.stage with
    | .lookingUp =>
      if failed = true ∨ save.reference ∈ app.pipeline.storage then
        some (app.uploadImageHandler index save url failed autoId)
      else none
    | _ => none
  | none => none

/-- The completion of `setValue`. -/
def setValue (app : App) (index : Nat) (failed : Bool) : Option App :=
  match app.pipeline.saves[index]? with
  | some save =>
    match save.stage with
    | .writing path parameters =>
      let pipeline := app.pipeline.setSave index { save with stage := .finished }
      if failed then some { app with pipeline := pipeline }
      else
        some { app with
          pipeline := { pipeline with
            database := pipeline.database.updateChild path (savedNode parameters)
            writes := pipeline.writes ++ [⟨index, path, parameters⟩] } }
    | _ => none
  | none => none

/-- `getAllPhotos`: the observation of the photos' node starts. -/
def getAllPhotos (app : App) : App :=
  match app.repo.readPhotosReference app.signedIn with
  | .error _ => app.trap
  | .ok (reference, repo) =>
    { app with
      repo := repo
      loads := app.loads ++ [some reference]
      accesses := app.accesses ++ [⟨app.signedIn, .database, reference⟩] }

/-- The completion of an observation. -/
def snapshot (foundation : Foundation) (app : App) (index : Nat) (order : List Text) :
    Option App :=
  match app.loads[index]? with
  | some (some reference) =>
    ((foundation.val (app.pipeline.database.getChild reference)).iterate? order).map
      fun snapshotValue =>
        match Repo.getAllPhotos app.repo.photosForDownload snapshotValue with
        | .error _ => app.trap
        | .ok photosForDownload =>
          { app with
            repo := { app.repo with photosForDownload := photosForDownload }
            loads := app.loads.set index none }
  | _ => none

/-- One event, while the process runs. -/
def step (foundation : Foundation) (app : App) (event : Event) : Option App :=
  if app.trapped then none
  else
    match event with
    | .authRequest => some { app with requests := app.requests + 1 }
    | .authCompletion user =>
      if app.requests = 0 then none
      else some { app with requests := app.requests - 1, signedIn := user.or app.signedIn }
    | .savePhoto photo uuidString => app.savePhoto photo uuidString
    | .putData save stored failed => app.putData save stored failed
    | .downloadURL save url failed autoId => app.downloadURL save url failed autoId
    | .setValue save failed => app.setValue save failed
    | .getAllPhotos => some app.getAllPhotos
    | .snapshot load order => app.snapshot foundation load order

end App

/-! ### What one event can do -/

/-- What an event does, with what it requires. A trap keeps the memory as it was. -/
inductive AppStep (foundation : Foundation) (app : App) : Event → App → Prop where
  | authRequest : AppStep foundation app .authRequest { app with requests := app.requests + 1 }
  | authCompletion {user : Option Uid} (pending : app.requests ≠ 0) :
      AppStep foundation app (.authCompletion user)
        { app with requests := app.requests - 1, signedIn := user.or app.signedIn }
  | notEncodable {photo : Photo} {uuidString : Text} (image : photo.imageData = none) :
      AppStep foundation app (.savePhoto photo uuidString) app.trap
  | started {photo : Photo} {uuidString : Text} (encodable : photo.imageData.isSome = true)
      {images : Path} {repo : Repo}
      (read : app.repo.readImagesReference app.signedIn = (images, repo))
      (fresh : app.pipeline.Fresh (storageChild images (Repo.imageName uuidString))) :
      AppStep foundation app (.savePhoto photo uuidString)
        { app with
          repo := repo
          pipeline := { app.pipeline with
            saves := app.pipeline.saves ++ [⟨photo, photo,
              storageChild images (Repo.imageName uuidString), app.signedIn, .uploading⟩] }
          accesses := app.accesses ++ [⟨app.signedIn, .storage,
            storageChild images (Repo.imageName uuidString)⟩] }
  | uploaded {index : Nat} {save : Save} {stored failed : Bool}
      (found : app.pipeline.saves[index]? = some save) (stage : save.stage = .uploading) :
      AppStep foundation app (.putData index stored failed)
        { app with
          pipeline := { app.pipeline.setSave index { save with stage := .lookingUp } with
            storage :=
              if stored then save.reference :: app.pipeline.storage
              else app.pipeline.storage } }
  | lookupFailed {index : Nat} {save : Save} {url : Option Text} {autoId : Text}
      (found : app.pipeline.saves[index]? = some save) (stage : save.stage = .lookingUp) :
      AppStep foundation app (.downloadURL index url true autoId)
        { app with pipeline := app.pipeline.setSave index { save with stage := .finished } }
  | lookupTrapped {index : Nat} {save : Save} {url : Option Text} {autoId : Text}
      (found : app.pipeline.saves[index]? = some save) (stage : save.stage = .lookingUp)
      (stored : save.reference ∈ app.pipeline.storage) {trap : Trap}
      (refused : app.repo.uploaPhotodBean app.signedIn
        { save.tempPhoto with url := some (url.getD []) } autoId = .error trap) :
      AppStep foundation app (.downloadURL index url false autoId) app.trap
  | lookedUp {index : Nat} {save : Save} {url : Option Text} {autoId : Text}
      (found : app.pipeline.saves[index]? = some save) (stage : save.stage = .lookingUp)
      (stored : save.reference ∈ app.pipeline.storage) {write : Repo.BeanWrite}
      (issued : app.repo.uploaPhotodBean app.signedIn
        { save.tempPhoto with url := some (url.getD []) } autoId = .ok write) :
      AppStep foundation app (.downloadURL index url false autoId)
        { app with
          repo := write.repo
          pipeline := app.pipeline.setSave index
            { save with
              tempPhoto := { save.tempPhoto with url := some (url.getD []) }
              stage := .writing write.path write.parameters }
          accesses := app.accesses ++ [⟨save.caller, .database, write.path⟩] }
  | writeFailed {index : Nat} {save : Save} {path : Path} {parameters : Entries}
      (found : app.pipeline.saves[index]? = some save)
      (stage : save.stage = .writing path parameters) :
      AppStep foundation app (.setValue index true)
        { app with pipeline := app.pipeline.setSave index { save with stage := .finished } }
  | written {index : Nat} {save : Save} {path : Path} {parameters : Entries}
      (found : app.pipeline.saves[index]? = some save)
      (stage : save.stage = .writing path parameters) :
      AppStep foundation app (.setValue index false)
        { app with
          pipeline := { app.pipeline.setSave index { save with stage := .finished } with
            database := app.pipeline.database.updateChild path (savedNode parameters)
            writes := app.pipeline.writes ++ [⟨index, path, parameters⟩] } }
  | loadTrapped {trap : Trap}
      (refused : app.repo.readPhotosReference app.signedIn = .error trap) :
      AppStep foundation app .getAllPhotos app.trap
  | loadStarted {reference : Path} {repo : Repo}
      (read : app.repo.readPhotosReference app.signedIn = .ok (reference, repo)) :
      AppStep foundation app .getAllPhotos
        { app with
          repo := repo
          loads := app.loads ++ [some reference]
          accesses := app.accesses ++ [⟨app.signedIn, .database, reference⟩] }
  | snapshotTrapped {index : Nat} {order : List Text} {reference : Path} {snapshotValue : Value}
      (observed : app.loads[index]? = some (some reference))
      (iterated : (foundation.val (app.pipeline.database.getChild reference)).iterate? order =
        some snapshotValue) {trap : Trap}
      (refused : Repo.getAllPhotos app.repo.photosForDownload snapshotValue = .error trap) :
      AppStep foundation app (.snapshot index order) app.trap
  | loaded {index : Nat} {order : List Text} {reference : Path} {snapshotValue : Value}
      (observed : app.loads[index]? = some (some reference))
      (iterated : (foundation.val (app.pipeline.database.getChild reference)).iterate? order =
        some snapshotValue) {photosForDownload : List Photo}
      (completed : Repo.getAllPhotos app.repo.photosForDownload snapshotValue =
        .ok photosForDownload) :
      AppStep foundation app (.snapshot index order)
        { app with
          repo := { app.repo with photosForDownload := photosForDownload }
          loads := app.loads.set index none }

namespace App

variable {foundation : Foundation} {app next : App}

theorem savePhoto_appStep {photo : Photo} {uuidString : Text}
    (stepped : app.savePhoto photo uuidString = some next) :
    AppStep foundation app (.savePhoto photo uuidString) next := by
  unfold savePhoto at stepped
  cases image : photo.imageData with
  | none =>
    rw [image] at stepped
    cases stepped
    exact AppStep.notEncodable image
  | some data =>
    rw [image] at stepped
    dsimp only at stepped
    split at stepped
    · rename_i fresh
      cases stepped
      exact AppStep.started (by rw [image]; rfl) rfl fresh
    · cases stepped

theorem putData_appStep {index : Nat} {stored failed : Bool}
    (stepped : app.putData index stored failed = some next) :
    AppStep foundation app (.putData index stored failed) next := by
  unfold putData at stepped
  split at stepped
  · rename_i save found
    split at stepped
    · rename_i stage
      cases stepped
      exact AppStep.uploaded found stage
    · cases stepped
  · cases stepped

theorem downloadURL_appStep {index : Nat} {url : Option Text} {failed : Bool} {autoId : Text}
    (stepped : app.downloadURL index url failed autoId = some next) :
    AppStep foundation app (.downloadURL index url failed autoId) next := by
  unfold downloadURL at stepped
  split at stepped
  · rename_i save found
    split at stepped
    · rename_i stage
      split at stepped
      · rename_i allowed
        cases stepped
        unfold uploadImageHandler
        cases failed with
        | true => exact AppStep.lookupFailed found stage
        | false =>
          have stored : save.reference ∈ app.pipeline.storage := by simpa using allowed
          rw [if_neg Bool.false_ne_true]
          dsimp only
          split
          · rename_i trap refused
            exact AppStep.lookupTrapped found stage stored refused
          · rename_i write issued
            exact AppStep.lookedUp found stage stored issued
      · cases stepped
    · cases stepped
  · cases stepped

theorem setValue_appStep {index : Nat} {failed : Bool}
    (stepped : app.setValue index failed = some next) :
    AppStep foundation app (.setValue index failed) next := by
  unfold setValue at stepped
  split at stepped
  · rename_i save found
    split at stepped
    · rename_i path parameters stage
      cases failed with
      | true =>
        cases stepped
        exact AppStep.writeFailed found stage
      | false =>
        cases stepped
        exact AppStep.written found stage
    · cases stepped
  · cases stepped

theorem getAllPhotos_appStep (app : App) :
    AppStep foundation app .getAllPhotos app.getAllPhotos := by
  unfold getAllPhotos
  split
  · rename_i trap refused
    exact AppStep.loadTrapped refused
  · rename_i reference repo read
    exact AppStep.loadStarted read

theorem snapshot_appStep {index : Nat} {order : List Text}
    (stepped : app.snapshot foundation index order = some next) :
    AppStep foundation app (.snapshot index order) next := by
  unfold snapshot at stepped
  split at stepped
  · rename_i reference observed
    obtain ⟨snapshotValue, iterated, rfl⟩ := Option.map_eq_some_iff.mp stepped
    split
    · rename_i trap refused
      exact AppStep.snapshotTrapped observed iterated refused
    · rename_i photosForDownload completed
      exact AppStep.loaded observed iterated completed
  · cases stepped

/-- A step of the machine is one of these. -/
theorem step_cases {event : Event} (stepped : step foundation app event = some next) :
    AppStep foundation app event next := by
  unfold step at stepped
  split at stepped
  · cases stepped
  · cases event with
    | authRequest =>
      cases stepped
      exact AppStep.authRequest
    | authCompletion user =>
      dsimp only at stepped
      split at stepped
      · cases stepped
      · rename_i pending
        cases stepped
        exact AppStep.authCompletion pending
    | savePhoto photo uuidString => exact savePhoto_appStep stepped
    | putData save stored failed => exact putData_appStep stepped
    | downloadURL save url failed autoId => exact downloadURL_appStep stepped
    | setValue save failed => exact setValue_appStep stepped
    | getAllPhotos =>
      cases stepped
      exact getAllPhotos_appStep app
    | snapshot load order => exact snapshot_appStep stepped

end App

/-! ### The steps of the saves -/

/-- What one event does to the part the saves share. -/
inductive SaveStep (app : App) : Event → Pipeline → Prop where
  | stay {event : Event} (noSave : event.savedPhoto? = none)
      (noFailure : ∀ index url autoId, event ≠ .downloadURL index url true autoId) :
      SaveStep app event app.pipeline
  | started {photo : Photo} {uuidString : Text} {reference : Path} {caller : Option Uid}
      (encodable : photo.imageData.isSome = true) (fresh : app.pipeline.Fresh reference) :
      SaveStep app (.savePhoto photo uuidString)
        { app.pipeline with
          saves := app.pipeline.saves ++ [⟨photo, photo, reference, caller, .uploading⟩] }
  | uploaded {index : Nat} {save : Save} {stored failed : Bool}
      (found : app.pipeline.saves[index]? = some save) (stage : save.stage = .uploading) :
      SaveStep app (.putData index stored failed)
        { app.pipeline.setSave index { save with stage := .lookingUp } with
          storage :=
            if stored then save.reference :: app.pipeline.storage else app.pipeline.storage }
  | lookupFailed {index : Nat} {save : Save} {url : Option Text} {autoId : Text}
      (found : app.pipeline.saves[index]? = some save) (stage : save.stage = .lookingUp) :
      SaveStep app (.downloadURL index url true autoId)
        (app.pipeline.setSave index { save with stage := .finished })
  | lookedUp {index : Nat} {save : Save} {url : Option Text} {autoId : Text} {path : Path}
      {parameters : Entries}
      (found : app.pipeline.saves[index]? = some save) (stage : save.stage = .lookingUp)
      (stored : save.reference ∈ app.pipeline.storage)
      (encoded : Repo.parametersForFB { save.tempPhoto with url := some (url.getD []) } =
        .ok parameters)
      {reference : Path} {repo : Repo}
      (read : app.repo.readPhotosReference app.signedIn = .ok (reference, repo))
      (under : path = reference ++ pathPieces (save.tempPhoto.id.getD autoId)) :
      SaveStep app (.downloadURL index url false autoId)
        (app.pipeline.setSave index
          { save with
            tempPhoto := { save.tempPhoto with url := some (url.getD []) }
            stage := .writing path parameters })
  | writeFailed {index : Nat} {save : Save} {path : Path} {parameters : Entries}
      (found : app.pipeline.saves[index]? = some save)
      (stage : save.stage = .writing path parameters) :
      SaveStep app (.setValue index true)
        (app.pipeline.setSave index { save with stage := .finished })
  | written {index : Nat} {save : Save} {path : Path} {parameters : Entries}
      (found : app.pipeline.saves[index]? = some save)
      (stage : save.stage = .writing path parameters) :
      SaveStep app (.setValue index false)
        { app.pipeline.setSave index { save with stage := .finished } with
          database := app.pipeline.database.updateChild path (savedNode parameters)
          writes := app.pipeline.writes ++ [⟨index, path, parameters⟩] }

/-- Every step of the machine is a step of the saves. -/
theorem App.step_saveStep {foundation : Foundation} {app next : App} {event : Event}
    (stepped : App.step foundation app event = some next) :
    SaveStep app event next.pipeline := by
  cases App.step_cases stepped with
  | authRequest => exact SaveStep.stay rfl (by simp)
  | authCompletion pending => exact SaveStep.stay rfl (by simp)
  | notEncodable image => exact SaveStep.stay (by simp [Event.savedPhoto?, image]) (by simp)
  | started encodable read fresh => exact SaveStep.started encodable fresh
  | uploaded found stage => exact SaveStep.uploaded found stage
  | lookupFailed found stage => exact SaveStep.lookupFailed found stage
  | lookupTrapped found stage stored refused => exact SaveStep.stay rfl (by simp)
  | lookedUp found stage stored issued =>
    obtain ⟨encoded, reference, read, under⟩ := Repo.uploaPhotodBean_eq_ok issued
    exact SaveStep.lookedUp found stage stored encoded read under
  | writeFailed found stage => exact SaveStep.writeFailed found stage
  | written found stage => exact SaveStep.written found stage
  | loadTrapped refused => exact SaveStep.stay rfl (by simp)
  | loadStarted read => exact SaveStep.stay rfl (by simp)
  | snapshotTrapped observed iterated refused => exact SaveStep.stay rfl (by simp)
  | loaded observed iterated completed => exact SaveStep.stay rfl (by simp)

end PhotoMap
