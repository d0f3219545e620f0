/-
This file proves what a search finds. A change of the text empties the list of
results and fills it from the buckets, so it holds exactly the matching photos,
whatever was searched before and in whatever order the dictionary is iterated.
A refresh of the table fills the same list without emptying it: with a search
on, it appends the matching photos to those that are there already, so it
agrees with a change of the text only when there was no result before.
-/

import PhotoMap.Rows
import PhotoMap.Sections

namespace PhotoMap

open Transition Grouping

namespace CategoryViewController

variable {locale : Locale} {photos : List Photo} {controller : CategoryViewController}

/-- The photos of the sections, each as often as it is stored. -/
def storedPhotos (controller : CategoryViewController) : List Photo :=
  controller.photosbySection.entries.flatMap Sigma.snd

/-- The controller without its search. -/
def cleared (controller : CategoryViewController) : CategoryViewController :=
  { controller with searchText := [], photosWithTag := [] }

/-! ### One search -/

/-- A search appends the stored photos that match, in whatever order the dictionary is
iterated. -/
theorem filterPhotosToShow_perm (locale : Locale) (controller : CategoryViewController)
    (searchText : Text) {order : List Text}
    (iterated : order.Perm controller.photosbySection.keys) :
    (controller.filterPhotosToShow locale searchText order).photosWithTag.Perm
      (controller.photosWithTag ++
        controller.storedPhotos.filter fun photo => photo.matches locale searchText) := by
  rw [filterPhotosToShow_eq, storedPhotos, flatMap_entries, List.filter_flatMap]
  exact List.Perm.append_left _ (iterated.flatMap_right _)

/-- A change of the text leaves the stored photos that match it, whatever the results were. -/
theorem textDidChange_perm (locale : Locale) (controller : CategoryViewController)
    {change : TextChange} (iterated : change.order.Perm controller.photosbySection.keys) :
    (controller.textDidChange locale change).photosWithTag.Perm
      (controller.storedPhotos.filter fun photo => photo.matches locale change.searchText) :=
  filterPhotosToShow_perm locale { controller with
    searchText := change.searchText, photosWithTag := [] } change.searchText iterated

theorem step_cleared {next : CategoryViewController} {change : TextChange}
    (stepped : controller.step locale change = some next) :
    next.cleared = controller.cleared := by
  obtain ⟨-, rfl⟩ := step_eq_some.mp stepped
  rfl

/-- Searches change nothing but the search. -/
theorem run_cleared {earlier : CategoryViewController} {events : List TextChange}
    (reached : run (step locale) controller events = some earlier) :
    earlier.cleared = controller.cleared :=
  run_induction (fun _ state => state.cleared = controller.cleared) rfl
    (fun _ _ _ _ _ before stepped => (step_cleared stepped).trans before) reached

/-- After a change of the text the results are the stored photos that match it, each as often as
it is stored, and no earlier search makes a difference. -/
theorem textDidChange_exact (locale : Locale) (controller : CategoryViewController)
    (change : TextChange) (iterated : change.order.Perm controller.photosbySection.keys) :
    (controller.textDidChange locale change).photosWithTag.Perm
        (controller.storedPhotos.filter fun photo =>
          isHasTags locale photo.name (makeSearchTagsFromText change.searchText)) ∧
      ∀ events earlier, run (step locale) controller events = some earlier →
        earlier.textDidChange locale change = controller.textDidChange locale change := by
  constructor
  · exact textDidChange_perm locale controller iterated
  · intro events earlier reached
    calc earlier.textDidChange locale change
      _ = earlier.cleared.textDidChange locale change := rfl
      _ = controller.cleared.textDidChange locale change := by rw [run_cleared reached]
      _ = controller.textDidChange locale change := rfl

def lakeSearch : TextChange := ⟨text "lake", [text "May 2014", text "April 2014"]⟩

theorem textDidChange_exact_lake :
    ((viewDidLoad twoMonths aprilAndMay).textDidChange twoMonths lakeSearch).photosWithTag.Perm
        ((viewDidLoad twoMonths aprilAndMay).storedPhotos.filter fun photo =>
          isHasTags twoMonths photo.name (makeSearchTagsFromText lakeSearch.searchText)) ∧
      ∀ events earlier,
        run (step twoMonths) (viewDidLoad twoMonths aprilAndMay) events = some earlier →
          earlier.textDidChange twoMonths lakeSearch =
            (viewDidLoad twoMonths aprilAndMay).textDidChange twoMonths lakeSearch :=
  textDidChange_exact twoMonths (viewDidLoad twoMonths aprilAndMay) lakeSearch (by decide)

end CategoryViewController

/-! ### Refreshes -/

/-- What happens to a table that is also refreshed with more photos. -/
inductive TableEvent where
  | textDidChange (change : TextChange)
  | updateViewTable (photoIn : List Photo) (order : List Text)

def TableEvent.photoIn : TableEvent → List Photo
  | .textDidChange _ => []
  | .updateViewTable photoIn _ => photoIn

/-- The photos of the first load and of every refresh. -/
def loadedPhotos (photos : List Photo) (events : List TableEvent) : List Photo :=
  photos ++ events.flatMap TableEvent.photoIn

theorem loadedPhotos_concat (photos : List Photo) (events : List TableEvent)
    (event : TableEvent) :
    loadedPhotos photos (events ++ [event]) = loadedPhotos photos events ++ event.photoIn := by
  simp only [loadedPhotos, List.flatMap_append, List.flatMap_singleton, List.append_assoc]

namespace CategoryViewController

variable {locale : Locale} {photos : List Photo} {controller : CategoryViewController}

/-- One event. Either one iterates over each key of the dictionary once. -/
def handle (locale : Locale) (controller : CategoryViewController) :
    TableEvent → Option CategoryViewController
  | .textDidChange change => controller.step locale change
  | .updateViewTable photoIn order =>
    if order.Perm (controller.dividePhotosIntoSections locale photoIn).photosbySection.keys then
      some (controller.updateViewTable locale photoIn order)
    else none

/-- The sections hold the loaded photos, and the results are those of them that match the text,
some perhaps several times. -/
structure LoadedInvariant (locale : Locale) (loaded : List Photo)
    (controller : CategoryViewController) : Prop where
  grouped : controller.groups.Holds locale.month loaded
  mem_results : ∀ photo, photo ∈ controller.photosWithTag ↔
    photo ∈ loaded ∧ photo.matches locale controller.searchText = true

theorem matches_nil (locale : Locale) (photo : Photo) : photo.matches locale [] = false := by
  unfold Photo.matches isHasTags
  split <;> rfl

theorem storedPhotos_perm (grouped : controller.groups.Holds locale.month photos) :
    controller.storedPhotos.Perm photos := grouped.entries_perm

theorem divide_grouped (grouped : controller.groups.Holds locale.month photos)
    (photoIn : List Photo) :
    (controller.dividePhotosIntoSections locale photoIn).groups.Holds locale.month
      (photos ++ photoIn) := by
  rw [dividePhotosIntoSections_eq]
  exact grouped.placeAll photoIn

theorem divide_search (locale : Locale) (controller : CategoryViewController)
    (photoIn : List Photo) :
    (controller.dividePhotosIntoSections locale photoIn).searchText = controller.searchText ∧
      (controller.dividePhotosIntoSections locale photoIn).photosWithTag =
        controller.photosWithTag := by
  rw [dividePhotosIntoSections_eq]
  exact ⟨rfl, rfl⟩

/-- With a search on, a refresh fills the results after the new photos are divided. -/
theorem updateViewTable_searching (searching : controller.searchText ≠ []) (photoIn : List Photo)
    (order : List Text) :
    controller.updateViewTable locale photoIn order =
      (controller.dividePhotosIntoSections locale photoIn).filterPhotosToShow locale
        controller.searchText order := by
  have text := (divide_search locale controller photoIn).1
  have filtering : (controller.dividePhotosIntoSections locale photoIn).isFilterNow = true :=
    isFilterNow_eq_true.mpr (by rwa [text])
  unfold updateViewTable
  dsimp only
  rw [if_pos filtering, text]

/-- Without a search, a refresh only divides the new photos. -/
theorem updateViewTable_idle (idle : controller.searchText = []) (photoIn : List Photo)
    (order : List Text) :
    controller.updateViewTable locale photoIn order =
      controller.dividePhotosIntoSections locale photoIn := by
  have text := (divide_search locale controller photoIn).1
  have waiting : (controller.dividePhotosIntoSections locale photoIn).isFilterNow = false :=
    isFilterNow_eq_false.mpr (text.trans idle)
  unfold updateViewTable
  dsimp only
  rw [if_neg (by simp [waiting])]

theorem viewDidLoad_loaded (locale : Locale) (photos : List Photo) :
    LoadedInvariant locale photos (viewDidLoad locale photos) := by
  have holds := viewDidLoad_invariant locale photos
  refine ⟨holds.grouped, fun photo => ?_⟩
  rw [show (viewDidLoad locale photos).searchText = [] from holds.searchText, matches_nil]
  refine iff_of_false ?_ fun both => Bool.false_ne_true both.2
  rw [holds.photosWithTag, results, mem_regroup, List.mem_filter]
  intro member
  exact Bool.false_ne_true ((matches_nil locale photo).symm.trans member.1.2)

theorem mem_filterPhotosToShow (grouped : controller.groups.Holds locale.month photos)
    (searchText : Text) {order : List Text}
    (iterated : order.Perm controller.photosbySection.keys) (photo : Photo) :
    photo ∈ (controller.filterPhotosToShow locale searchText order).photosWithTag ↔
      photo ∈ controller.photosWithTag ∨
        (photo ∈ photos ∧ photo.matches locale searchText = true) := by
  rw [(filterPhotosToShow_perm locale controller searchText iterated).mem_iff, List.mem_append,
    List.mem_filter, (storedPhotos_perm grouped).mem_iff]

theorem LoadedInvariant.textDidChange (holds : LoadedInvariant locale photos controller)
    {change : TextChange} (iterated : change.order.Perm controller.photosbySection.keys) :
    LoadedInvariant locale photos (controller.textDidChange locale change) := by
  refine ⟨holds.grouped, fun photo => ?_⟩
  have emptied : ({ controller with
      searchText := change.searchText, photosWithTag := [] } : CategoryViewController).groups.Holds
        locale.month photos := holds.grouped
  refine (mem_filterPhotosToShow emptied change.searchText iterated photo).trans ?_
  exact or_iff_right List.not_mem_nil

theorem LoadedInvariant.updateViewTable (holds : LoadedInvariant locale photos controller)
    {photoIn : List Photo} {order : List Text}
    (iterated : order.Perm
      (controller.dividePhotosIntoSections locale photoIn).photosbySection.keys) :
    LoadedInvariant locale (photos ++ photoIn)
      (controller.updateViewTable locale photoIn order) := by
  have grouped := divide_grouped holds.grouped photoIn
  obtain ⟨searchText, results⟩ := divide_search locale controller photoIn
  have kept : ∀ photo, photo ∈ controller.photosWithTag →
      photo ∈ photos ++ photoIn ∧ photo.matches locale controller.searchText = true := by
    intro photo member
    obtain ⟨loaded, found⟩ := (holds.mem_results photo).mp member
    exact ⟨List.mem_append_left _ loaded, found⟩
  by_cases idle : controller.searchText = []
  · rw [updateViewTable_idle idle]
    refine ⟨grouped, fun photo => ?_⟩
    rw [results, searchText]
    refine ⟨kept photo, fun both => ?_⟩
    -- Without a text nothing matches.
    rw [idle, matches_nil] at both
    exact absurd both.2 Bool.false_ne_true
  · rw [updateViewTable_searching idle]
    refine ⟨grouped, fun photo => ?_⟩
    rw [mem_filterPhotosToShow grouped _ iterated, results]
    show _ ↔ photo ∈ photos ++ photoIn ∧ photo.matches locale
      (controller.dividePhotosIntoSections locale photoIn).searchText = true
    rw [searchText]
    exact or_iff_right_of_imp (kept photo)

/-- Along every run of searches and refreshes the results are the loaded photos that match. -/
theorem run_loaded {events : List TableEvent}
    (reached : run (handle locale) (viewDidLoad locale photos) events = some controller) :
    LoadedInvariant locale (loadedPhotos photos events) controller := by
  refine run_induction (fun events => LoadedInvariant locale (loadedPhotos photos events)) ?_ ?_
    reached
  · rw [loadedPhotos, List.flatMap_nil, List.append_nil]
    exact viewDidLoad_loaded locale photos
  · intro events event middle target _ holds handled
    rw [loadedPhotos_concat]
    cases event with
    | textDidChange change =>
      obtain ⟨iterated, rfl⟩ := step_eq_some.mp handled
      rw [TableEvent.photoIn, List.append_nil]
      exact holds.textDidChange iterated
    | updateViewTable photoIn order =>
      obtain ⟨iterated, refreshed⟩ := Option.ite_none_right_eq_some.mp handled
      rw [← Option.some.inj refreshed]
      exact holds.updateViewTable iterated

/-- A refresh leaves the results that a change to the same text would leave after the new photos
are divided into the sections. -/
def RefreshAgrees (locale : Locale) (controller : CategoryViewController)
    (photoIn : List Photo) : Prop :=
  ∀ order searchOrder,
    order.Perm (controller.dividePhotosIntoSections locale photoIn).photosbySection.keys →
    searchOrder.Perm (controller.dividePhotosIntoSections locale photoIn).photosbySection.keys →
      (controller.updateViewTable locale photoIn order).photosWithTag.Perm
        ((controller.dividePhotosIntoSections locale photoIn).textDidChange locale
          ⟨controller.searchText, searchOrder⟩).photosWithTag

/-- With a search on, a refresh appends what the change of the text leaves. -/
theorem updateViewTable_perm (searching : controller.searchText ≠ []) {photoIn : List Photo}
    {order searchOrder : List Text}
    (iterated : order.Perm
      (controller.dividePhotosIntoSections locale photoIn).photosbySection.keys)
    (searched : searchOrder.Perm
      (controller.dividePhotosIntoSections locale photoIn).photosbySection.keys) :
    (controller.updateViewTable locale photoIn order).photosWithTag.Perm
      (controller.photosWithTag ++
        ((controller.dividePhotosIntoSections locale photoIn).textDidChange locale
          ⟨controller.searchText, searchOrder⟩).photosWithTag) := by
  have refreshed := filterPhotosToShow_perm locale
    (controller.dividePhotosIntoSections locale photoIn) controller.searchText iterated
  have changed : ((controller.dividePhotosIntoSections locale photoIn).textDidChange locale
      ⟨controller.searchText, searchOrder⟩).photosWithTag.Perm _ :=
    textDidChange_perm locale (controller.dividePhotosIntoSections locale photoIn) searched
  rw [(divide_search locale controller photoIn).2] at refreshed
  rw [updateViewTable_searching searching]
  exact refreshed.trans (List.Perm.append_left _ changed.symm)

/-- With a search on, a refresh agrees with a change of the text exactly when there are no
results it could repeat. -/
theorem refreshAgrees_iff_nil (searching : controller.searchText ≠ []) (photoIn : List Photo) :
    RefreshAgrees locale controller photoIn ↔ controller.photosWithTag = [] := by
  constructor
  · intro agrees
    have lengths := (agrees _ _ (List.Perm.refl _) (List.Perm.refl _)).length_eq
    rw [(updateViewTable_perm searching (List.Perm.refl _) (List.Perm.refl _)).length_eq,
      List.length_append] at lengths
    exact List.length_eq_zero_iff.mp (by omega)
  · intro nothing order searchOrder iterated searched
    have perm := updateViewTable_perm searching iterated searched
    rwa [nothing, List.nil_append] at perm

/-- After any searches and refreshes, with a text in the bar, a refresh agrees with the search
exactly when no photo loaded before matches the text. -/
theorem refreshAgrees_iff {events : List TableEvent}
    (reached : run (handle locale) (viewDidLoad locale photos) events = some controller)
    (searching : controller.searchText ≠ []) (photoIn : List Photo) :
    RefreshAgrees locale controller photoIn ↔
      ∀ photo ∈ loadedPhotos photos events,
        photo.matches locale controller.searchText = false := by
  have holds := run_loaded reached
  rw [refreshAgrees_iff_nil searching, List.eq_nil_iff_forall_not_mem]
  refine forall_congr' fun photo => ?_
  rw [holds.mem_results, not_and, Bool.not_eq_true]

/-- The word that no photo of April matches. -/
def hillSearch : TableEvent := .textDidChange ⟨text "hill", [text "April 2014"]⟩

theorem refreshAgrees_iff_hill :
    ∃ controller, run (handle twoMonths) (viewDidLoad twoMonths aprilOnly) [hillSearch] =
        some controller ∧
      (RefreshAgrees twoMonths controller aprilOnly ↔
        ∀ photo ∈ loadedPhotos aprilOnly [hillSearch],
          photo.matches twoMonths controller.searchText = false) := by
  have reached : run (handle twoMonths) (viewDidLoad twoMonths aprilOnly) [hillSearch] =
      some _ := rfl
  exact ⟨_, reached, refreshAgrees_iff reached (by decide) aprilOnly⟩

/-- A refresh without new photos lists the one result of the search twice. -/
theorem refresh_repeats_result :
    ¬ ∀ (locale : Locale) (photos : List Photo) (events : List TableEvent)
      (controller : CategoryViewController) (photoIn : List Photo),
      run (handle locale) (viewDidLoad locale photos) events = some controller →
        controller.searchText ≠ [] → RefreshAgrees locale controller photoIn := by
  intro always
  have agrees := always twoMonths aprilOnly
    [.textDidChange ⟨text "lake", [text "April 2014"]⟩] _ [] rfl (by decide)
  have lengths := (agrees [text "April 2014"] [text "April 2014"] (by decide)
    (by decide)).length_eq
  exact absurd lengths (by decide)

end CategoryViewController

end PhotoMap
