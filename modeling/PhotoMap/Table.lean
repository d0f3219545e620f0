/-
This file models the table of `CategoryViewController`: the photos of a list in
sections by month, the search that fills a second list, the refresh that adds
photos, and the functions that are asked for sections, rows, cells, taps and
the segue. The sections and their
buckets are groups of the photos by month, and along every run of searches the
results are the matching photos, read from the buckets in the order in which the
dictionary was iterated last.
-/

import PhotoMap.Grouping
import PhotoMap.Search
import PhotoMap.Transition

namespace PhotoMap

open Transition Grouping

/-! ### The controller -/

structure CategoryViewController where
  searchText : Text
  sectionsAll : List Text
  photosbySection : AList fun _ : Text => List Photo
  photosWithTag : List Photo
  photoArray : List Photo

/-- A segue, and whether its destination is a `NewPhotoViewController`. -/
structure UIStoryboardSegue where
  identifier : Option Text
  toNewPhoto : Bool

/-- A change of the text in the search bar, and the order in which the dictionary of the
sections is iterated. -/
structure TextChange where
  searchText : Text
  order : List Text

namespace CategoryViewController

variable (locale : Locale)

def isFilterNow (controller : CategoryViewController) : Bool := !controller.searchText.isEmpty

/-- The body of the loop of `dividePhotosIntoSections`. -/
def dividePhoto (controller : CategoryViewController) (photo : Photo) : CategoryViewController :=
  let sectionTitle := locale.monthYearDate photo.date
  match controller.photosbySection.lookup sectionTitle with
  | some photos =>
    { controller with
      photosbySection := controller.photosbySection.insert sectionTitle (photos ++ [photo]) }
  | none =>
    { controller with
      sectionsAll := controller.sectionsAll ++ [sectionTitle]
      photosbySection := controller.photosbySection.insert sectionTitle [photo] }

def dividePhotosIntoSections (controller : CategoryViewController) (photos : List Photo) :
    CategoryViewController :=
  photos.foldl (dividePhoto locale) controller

def filterPhotosToShow (controller : CategoryViewController) (searchText : Text)
    (order : List Text) : CategoryViewController :=
  let searchTags := makeSearchTagsFromText searchText
  { controller with
    photosWithTag := order.foldl (fun photosWithTag title =>
      photosWithTag ++ ((controller.photosbySection.lookup title).getD []).filter fun photo =>
        isHasTags locale photo.name searchTags) controller.photosWithTag }

/-- `updateViewTable(with:)`: more photos are divided into the sections, and a search that is on
is filled again. -/
def updateViewTable (controller : CategoryViewController) (photoIn : List Photo)
    (order : List Text) : CategoryViewController :=
  let controller := controller.dividePhotosIntoSections locale photoIn
  if controller.isFilterNow then
    controller.filterPhotosToShow locale controller.searchText order
  else controller

/-- `viewDidLoad`, with the photos in place of its sample ones. -/
def viewDidLoad (photos : List Photo) : CategoryViewController :=
  dividePhotosIntoSections locale
    { searchText := []
      sectionsAll := []
      photosbySection := ∅
      photosWithTag := []
      photoArray := photos } photos

/-- `searchBar(_:textDidChange:)`, when the bar's text is the one passed. -/
def textDidChange (controller : CategoryViewController) (change : TextChange) :
    CategoryViewController :=
  filterPhotosToShow locale
    { controller with searchText := change.searchText, photosWithTag := [] }
    change.searchText change.order

/-- One change of the search text. The dictionary is iterated over each of its keys once. -/
def step (controller : CategoryViewController) (change : TextChange) :
    Option CategoryViewController :=
  if change.order.Perm controller.photosbySection.keys then
    some (controller.textDidChange locale change)
  else none

theorem step_eq_some {locale : Locale} {controller next : CategoryViewController}
    {change : TextChange} :
    controller.step locale change = some next ↔
      change.order.Perm controller.photosbySection.keys ∧
        controller.textDidChange locale change = next := by
  rw [step, Option.ite_none_right_eq_some, Option.some_inj]

/-! ### What the table asks for -/

def numberOfSections (controller : CategoryViewController) : Nat := controller.sectionsAll.length

def numberOfRowsInSection (controller : CategoryViewController) (section_ : Nat) :
    Except Trap Nat :=
  if controller.isFilterNow then .ok controller.photosWithTag.length
  else do
    let sectionKey ← subscript controller.sectionsAll section_
    return ((controller.photosbySection.lookup sectionKey).map List.length).getD 0

def titleForHeaderInSection (controller : CategoryViewController) (section_ : Nat) :
    Except Trap (Option Text) :=
  if controller.isFilterNow then .ok none
  else do
    let title ← subscript controller.sectionsAll section_
    return some title

/-- The photo the cell is filled from. -/
def cellForRowAt (controller : CategoryViewController) (_section row : Nat) : Except Trap Photo :=
  subscript controller.photoArray row

/-- The photo a tap opens, if it opens one. -/
def didSelectRowAt (controller : CategoryViewController) (section_ row : Nat) :
    Except Trap (Option Photo) :=
  if controller.isFilterNow then do
    let photo ← subscript controller.photosWithTag row
    return some photo
  else do
    let sectionKey ← subscript controller.sectionsAll section_
    match controller.photosbySection.lookup sectionKey with
    | some sectionPhotos =>
      if row < controller.sectionsAll.length then
        let photo ← subscript sectionPhotos row
        return some photo
      else return none
    | none => return none

/-- `prepare(for:sender:)`: the photo handed to the destination, if one is. The row is the one
of `indexPathForSelectedRow`. -/
def prepare (controller : CategoryViewController) (segue : UIStoryboardSegue)
    (indexPathForSelectedRow : Option (Nat × Nat)) : Except Trap (Option Photo) :=
  if segue.identifier = some (text "showDetail") then
    match indexPathForSelectedRow with
    | some (_, row) =>
      if segue.toNewPhoto then do
        let photo ← subscript controller.photoArray row
        return some photo
      else .error .castFailed
    | none => return none
  else return none

/-- The photo an index path stands for: a result of the search, or a photo of a section. -/
def photoAt (controller : CategoryViewController) (section_ row : Nat) : Option Photo :=
  if controller.isFilterNow then controller.photosWithTag[row]?
  else
    controller.sectionsAll[section_]?.bind fun sectionKey =>
      (controller.photosbySection.lookup sectionKey).bind fun sectionPhotos => sectionPhotos[row]?

/-- The index paths of a table whose sections have the rows they answer with. -/
def indexPaths (controller : CategoryViewController) : List (Nat × Nat) :=
  (List.range controller.numberOfSections).flatMap fun section_ =>
    (List.range ((controller.numberOfRowsInSection section_).toOption.getD 0)).map fun row =>
      (section_, row)

/-! ### The sections as groups -/

end CategoryViewController

/-- The title of the section of a photo. -/
def Locale.month (locale : Locale) (photo : Photo) : Text := locale.monthYearDate photo.date

namespace CategoryViewController

variable {locale : Locale}

def groups (controller : CategoryViewController) : Groups Photo Text :=
  ⟨controller.sectionsAll, controller.photosbySection⟩

def withGroups (controller : CategoryViewController) (groups : Groups Photo Text) :
    CategoryViewController :=
  { controller with sectionsAll := groups.titles, photosbySection := groups.buckets }

theorem dividePhoto_eq (controller : CategoryViewController) (photo : Photo) :
    controller.dividePhoto locale photo =
      controller.withGroups (controller.groups.place locale.month photo) := by
  unfold dividePhoto Groups.place Locale.month groups withGroups
  cases found : controller.photosbySection.lookup (locale.monthYearDate photo.date) <;>
    simp only [found]

/-- Dividing photos into sections is placing them in the groups of their months. -/
theorem dividePhotosIntoSections_eq (controller : CategoryViewController) (photos : List Photo) :
    controller.dividePhotosIntoSections locale photos =
      controller.withGroups (photos.foldl (Groups.place locale.month) controller.groups) := by
  induction photos generalizing controller with
  | nil => rfl
  | cons photo rest inductionHypothesis =>
    have rest := inductionHypothesis (controller.dividePhoto locale photo)
    rw [dividePhoto_eq] at rest
    rw [dividePhotosIntoSections, List.foldl_cons, dividePhoto_eq]
    exact rest

/-- A search appends the matching photos of the buckets, in the order of the iteration. -/
theorem filterPhotosToShow_eq (controller : CategoryViewController) (searchText : Text)
    (order : List Text) :
    controller.filterPhotosToShow locale searchText order =
      { controller with
        photosWithTag := controller.photosWithTag ++ order.flatMap fun title =>
          ((controller.photosbySection.lookup title).getD []).filter fun photo =>
            photo.matches locale searchText } := by
  unfold filterPhotosToShow Photo.matches
  rw [List.flatMap_def, ← List.foldl_append_eq_append]

/-! ### The invariant of the table -/

/-- The last change of the search text. Before the first one nothing is searched for. -/
def lastChange (events : List TextChange) : TextChange := events.getLast?.getD ⟨[], []⟩

theorem lastChange_concat (events : List TextChange) (change : TextChange) :
    lastChange (events ++ [change]) = change := by
  rw [lastChange, List.getLast?_concat, Option.getD_some]

/-- The results of a search among the photos. -/
def results (locale : Locale) (photos : List Photo) (change : TextChange) : List Photo :=
  regroup locale.month change.order
    (photos.filter fun photo => photo.matches locale change.searchText)

/-- The sections hold the photos, and the results are those of the last search. -/
structure TableInvariant (locale : Locale) (photos : List Photo) (events : List TextChange)
    (controller : CategoryViewController) : Prop where
  grouped : controller.groups.Holds locale.month photos
  photoArray : controller.photoArray = photos
  searchText : controller.searchText = (lastChange events).searchText
  order : controller.searchText ≠ [] → (lastChange events).order.Perm controller.sectionsAll
  photosWithTag : controller.photosWithTag = results locale photos (lastChange events)

theorem viewDidLoad_invariant (locale : Locale) (photos : List Photo) :
    TableInvariant locale photos [] (viewDidLoad locale photos) := by
  unfold viewDidLoad
  rw [dividePhotosIntoSections_eq]
  exact ⟨(Groups.empty_holds locale.month).placeAll photos, rfl, rfl, fun text => absurd rfl text,
    rfl⟩

theorem TableInvariant.step {photos : List Photo} {events : List TextChange}
    {controller next : CategoryViewController} {change : TextChange}
    (holds : TableInvariant locale photos events controller)
    (stepped : controller.step locale change = some next) :
    TableInvariant locale photos (events ++ [change]) next := by
  obtain ⟨iterated, rfl⟩ := step_eq_some.mp stepped
  have ordered : change.order.Perm controller.sectionsAll :=
    iterated.trans holds.grouped.keys_perm
  unfold textDidChange
  rw [filterPhotosToShow_eq, List.nil_append]
  refine ⟨holds.grouped, holds.photoArray, ?_, ?_, ?_⟩
  · rw [lastChange_concat]
  · rw [lastChange_concat]
    exact fun _ => ordered
  · rw [lastChange_concat, results, regroup_filter]
    refine List.flatMap_congr fun title member => ?_
    have bucket := holds.grouped.bucket (ordered.mem_iff.mp member)
    show ((controller.groups.buckets.lookup title).getD []).filter _ = _
    rw [bucket, Option.getD_some]

/-- The invariant holds along every run of searches. -/
theorem run_invariant {photos : List Photo} {events : List TextChange}
    {controller : CategoryViewController}
    (reached : run (step locale) (viewDidLoad locale photos) events = some controller) :
    TableInvariant locale photos events controller :=
  run_induction (TableInvariant locale photos) (viewDidLoad_invariant locale photos)
    (fun _ _ _ _ _ holds stepped => holds.step stepped) reached

end CategoryViewController

end PhotoMap
