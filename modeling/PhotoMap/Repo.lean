/-
This file models the references of `Repo`: the storage path of the images and
the database path of the photos. Both are lazy and both are built from a user
that is itself lazy, so the first access of any of them fixes the user for the
rest of the process, whoever signs in later. It also models `uploaPhotodBean`
up to the `setValue` call it issues.
-/

import PhotoMap.StoredPhotos

namespace PhotoMap

/-! ### Paths -/

def slash : Character := .ofScalar '/'

/-- The pieces of a path string: the empty ones are dropped. -/
def pathPieces (pathString : Text) : Path :=
  (pathString.splitOn slash).filter fun piece => !piece.isEmpty

/-- `FValidation isValidPathString:`. -/
def isValidPathString (pathString : Text) : Bool :=
  !pathString.isEmpty && pathString.all fun character =>
    character.scalars.all fun scalar => !(['[', ']', '.', '#', '$'].contains scalar)

/-- `FIRDatabaseReference child:`: a string that is not a valid path raises an exception. -/
def databaseChild (path : Path) (pathString : Text) : Except Trap Path :=
  if isValidPathString pathString then .ok (path ++ pathPieces pathString)
  else .error .invalidPath

/-- `FIRStorageReference child:`. -/
def storageChild (path : Path) (pathString : Text) : Path := path ++ pathPieces pathString

/-- The identifier of a user: a valid path of one piece. -/
structure Uid where
  name : Text
  valid : isValidPathString name = true
  piece : pathPieces name = [name]
deriving DecidableEq

theorem Uid.ext {first second : Uid} (same : first.name = second.name) : first = second := by
  cases first
  cases second
  cases same
  rfl

/-- `currentUser?.uid ?? ""`. -/
def uidOrEmpty (user : Option Uid) : Text := (user.map Uid.name).getD []

/-! ### The lazy references -/

/-- The state of the one `Repo` of the process. A lazy property is `none` until it is read. -/
structure Repo where
  photosForDownload : List Photo := []
  currentUser : Option (Option Uid) := none
  imagesFilesStorageReference : Option Path := none
  photoBeansDBReference : Option Path := none

namespace Repo

def imagesFBPath : Text := text "images"
def photosObjectcFBPath : Text := text "photos"
def IMAGE_EXTENSION : Text := text ".jpeg"

/-- Reads `currentUser`, which keeps the user signed in at its first reading. -/
def readCurrentUser (repo : Repo) (signedIn : Option Uid) : Option Uid × Repo :=
  match repo.currentUser with
  | some user => (user, repo)
  | none => (signedIn, { repo with currentUser := some signedIn })

/-- Reads `imagesFilesStorageReference`. -/
def readImagesReference (repo : Repo) (signedIn : Option Uid) : Path × Repo :=
  match repo.imagesFilesStorageReference with
  | some reference => (reference, repo)
  | none =>
    let (user, repo) := repo.readCurrentUser signedIn
    let reference := storageChild [imagesFBPath] (uidOrEmpty user)
    (reference, { repo with imagesFilesStorageReference := some reference })

/-- Reads `photoBeansDBReference`. -/
def readPhotosReference (repo : Repo) (signedIn : Option Uid) : Except Trap (Path × Repo) :=
  match repo.photoBeansDBReference with
  | some reference => .ok (reference, repo)
  | none => do
    let (user, repo) := repo.readCurrentUser signedIn
    let reference ← databaseChild [photosObjectcFBPath] (uidOrEmpty user)
    return (reference, { repo with photoBeansDBReference := some reference })

/-- The name of an uploaded image. -/
def imageName (uuidString : Text) : Text := uuidString ++ IMAGE_EXTENSION

/-- A `setValue` call, and the `Repo` it leaves. -/
structure BeanWrite where
  parameters : Entries
  path : Path
  repo : Repo

/-- `uploaPhotodBean`, up to the `setValue` call: the record goes to the photo's identifier, or
to an automatic one when it has none. -/
def uploaPhotodBean (repo : Repo) (signedIn : Option Uid) (photo : Photo) (autoId : Text) :
    Except Trap BeanWrite := do
  let parameters ← parametersForFB photo
  let (reference, repo) ← repo.readPhotosReference signedIn
  let path ← databaseChild reference (photo.id.getD autoId)
  return ⟨parameters, path, repo⟩

/-- The record of `uploaPhotodBean` is the encoder's, at a path under the cached reference. -/
theorem uploaPhotodBean_eq_ok {repo : Repo} {signedIn : Option Uid} {photo : Photo}
    {autoId : Text} {write : BeanWrite}
    (issued : repo.uploaPhotodBean signedIn photo autoId = .ok write) :
    parametersForFB photo = .ok write.parameters ∧
      ∃ reference, repo.readPhotosReference signedIn = .ok (reference, write.repo) ∧
        write.path = reference ++ pathPieces (photo.id.getD autoId) := by
  obtain ⟨parameters, encoded, issued⟩ := bind_eq_ok.mp issued
  obtain ⟨⟨reference, next⟩, read, issued⟩ := bind_eq_ok.mp issued
  obtain ⟨path, child, issued⟩ := bind_eq_ok.mp issued
  cases issued
  refine ⟨encoded, reference, read, ?_⟩
  unfold databaseChild at child
  split at child
  · exact (Except.ok.inj child).symm
  · cases child

end Repo

end PhotoMap
