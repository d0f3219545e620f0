/-
This file proves what the table may be asked for. The cells and the segue index
the unsorted list by a row that was counted in a bucket or among the results;
both are parts of that list, so no access is ever outside its array. Opening a
row is another matter: without a search a tap compares the row with the number
of sections, so a row is dead when its month has more photos than there are
months.
-/

import Mathlib.Data.List.Dedup
import PhotoMap.Results

namespace PhotoMap

open Transition Grouping

/-- A computation that reads no array outside its bounds. -/
def InBounds {Value : Type} (computation : Except Trap Value) : Prop :=
  computation ≠ .error .indexOutOfRange

theorem inBounds_ok {Value : Type} (value : Value) : InBounds (.ok value) := by
  intro outside
  cases outside

namespace CategoryViewController

variable {locale : Locale} {photos : List Photo} {controller : CategoryViewController}

/-! ### Rows inside the unsorted list -/

/-- The results of a search are no more than the photos. -/
theorem TableInvariant.results_length {events : List TextChange}
    (holds : TableInvariant locale photos events controller)
    (searching : controller.isFilterNow = true) :
    controller.photosWithTag.length ≤ photos.length :=
  calc controller.photosWithTag.length
    _ = _ := (holds.results_perm searching).length_eq
    _ ≤ photos.length := List.length_filter_le _ _

/-- The row of a valid index path is the index of a photo. -/
theorem TableInvariant.row_lt {events : List TextChange}
    (holds : TableInvariant locale photos events controller) {section_ row : Nat}
    (valid : (section_, row) ∈ controller.indexPaths) : row < photos.length := by
  obtain ⟨inside, counted⟩ := mem_indexPaths.mp valid
  by_cases searching : controller.isFilterNow = true
  · rw [rows_searching searching] at counted
    exact Nat.lt_of_lt_of_le counted (holds.results_length searching)
  · have grouped := Bool.eq_false_iff.mpr searching
    rw [rows_grouped holds.grouped grouped (List.getElem?_eq_getElem inside)] at counted
    exact Nat.lt_of_lt_of_le counted (List.length_filter_le _ _)

theorem numberOfRowsInSection_inBounds {section_ : Nat}
    (inside : section_ < controller.numberOfSections) :
    InBounds (controller.numberOfRowsInSection section_) := by
  unfold numberOfRowsInSection
  split
  · exact inBounds_ok _
  · rw [subscript_of_lt inside, bind_ok]
    exact inBounds_ok _

theorem titleForHeaderInSection_inBounds {section_ : Nat}
    (inside : section_ < controller.numberOfSections) :
    InBounds (controller.titleForHeaderInSection section_) := by
  unfold titleForHeaderInSection
  split
  · exact inBounds_ok _
  · rw [subscript_of_lt inside, bind_ok]
    exact inBounds_ok _

theorem TableInvariant.cellForRowAt_inBounds {events : List TextChange}
    (holds : TableInvariant locale photos events controller) {section_ row : Nat}
    (valid : (section_, row) ∈ controller.indexPaths) :
    InBounds (controller.cellForRowAt section_ row) := by
  have bound := holds.row_lt valid
  rw [← holds.photoArray] at bound
  rw [cellForRowAt, subscript_of_lt bound]
  exact inBounds_ok _

theorem TableInvariant.prepare_inBounds {events : List TextChange}
    (holds : TableInvariant locale photos events controller) {section_ row : Nat}
    (valid : (section_, row) ∈ controller.indexPaths) (segue : UIStoryboardSegue) :
    InBounds (controller.prepare segue (some (section_, row))) := by
  have bound := holds.row_lt valid
  rw [← holds.photoArray] at bound
  unfold prepare
  dsimp only
  rw [subscript_of_lt bound, bind_ok]
  split
  · split
    · exact inBounds_ok _
    · intro outside
      cases outside
  · exact inBounds_ok _

/-! ### Taps -/

/-- While a search is on, a tap opens the result of its row. -/
theorem didSelectRowAt_of_searching (searching : controller.isFilterNow = true)
    {section_ row : Nat} (valid : (section_, row) ∈ controller.indexPaths) :
    ∃ photo, controller.photoAt section_ row = some photo ∧
      controller.didSelectRowAt section_ row = .ok (some photo) := by
  have counted := (mem_indexPaths.mp valid).2
  rw [rows_searching searching] at counted
  refine ⟨controller.photosWithTag[row], ?_, ?_⟩
  · rw [photoAt, if_pos searching, List.getElem?_eq_getElem counted]
  · exact (didSelectRowAt_searching searching).mpr (List.getElem?_eq_getElem counted)

/-- Without a search, a tap opens the photo of its row when the row is below the number of
sections, and nothing otherwise. -/
theorem didSelectRowAt_of_grouped (sections : controller.groups.Holds locale.month photos)
    (grouped : controller.isFilterNow = false) {section_ row : Nat}
    (valid : (section_, row) ∈ controller.indexPaths) :
    ∃ photo, controller.photoAt section_ row = some photo ∧
      controller.didSelectRowAt section_ row =
        .ok (if row < controller.sectionsAll.length then some photo else none) := by
  obtain ⟨inside, counted⟩ := mem_indexPaths.mp valid
  have found := List.getElem?_eq_getElem inside
  have bucket := bucket_grouped sections found
  rw [rows_grouped sections grouped found] at counted
  obtain ⟨photo, read⟩ : ∃ photo, (photos.filter fun photo =>
      locale.month photo = controller.sectionsAll[section_])[row]? = some photo :=
    ⟨_, List.getElem?_eq_getElem counted⟩
  refine ⟨photo, ?_, ?_⟩
  · rw [photoAt, if_neg (by simp [grouped]), found, Option.bind_some, bucket, Option.bind_some]
    exact read
  · rw [didSelectRowAt, if_neg (by simp [grouped]), subscript_of_lt inside, bind_ok, bucket]
    dsimp only
    split
    · rw [subscript_eq_ok.mpr read, bind_ok]
      rfl
    · rfl

theorem TableInvariant.didSelectRowAt_inBounds {events : List TextChange}
    (holds : TableInvariant locale photos events controller) {section_ row : Nat}
    (valid : (section_, row) ∈ controller.indexPaths) :
    InBounds (controller.didSelectRowAt section_ row) := by
  by_cases searching : controller.isFilterNow = true
  · obtain ⟨photo, -, opens⟩ := didSelectRowAt_of_searching searching valid
    rw [opens]
    exact inBounds_ok _
  · obtain ⟨photo, -, opens⟩ := didSelectRowAt_of_grouped holds.grouped
      (Bool.eq_false_iff.mpr searching) valid
    rw [opens]
    exact inBounds_ok _

/-- After any searches, what the table asks of its sections and of its valid index paths is
answered without an access outside an array. -/
theorem neverOutOfRange {events : List TextChange}
    (reached : run (step locale) (viewDidLoad locale photos) events = some controller) :
    (∀ section_ < controller.numberOfSections,
        InBounds (controller.numberOfRowsInSection section_) ∧
          InBounds (controller.titleForHeaderInSection section_)) ∧
      ∀ path ∈ controller.indexPaths,
        InBounds (controller.cellForRowAt path.1 path.2) ∧
          InBounds (controller.didSelectRowAt path.1 path.2) ∧
            ∀ segue, InBounds (controller.prepare segue (some path)) := by
  have holds := run_invariant reached
  refine ⟨fun section_ inside => ?_, fun path valid => ?_⟩
  · exact ⟨numberOfRowsInSection_inBounds inside, titleForHeaderInSection_inBounds inside⟩
  · exact ⟨holds.cellForRowAt_inBounds valid, holds.didSelectRowAt_inBounds valid,
      holds.prepare_inBounds valid⟩

theorem neverOutOfRange_lake :
    ∃ controller, run (step twoMonths) (viewDidLoad twoMonths aprilAndMay) [lakeSearch] =
        some controller ∧
      (∀ section_ < controller.numberOfSections,
        InBounds (controller.numberOfRowsInSection section_) ∧
          InBounds (controller.titleForHeaderInSection section_)) ∧
      ∀ path ∈ controller.indexPaths,
        InBounds (controller.cellForRowAt path.1 path.2) ∧
          InBounds (controller.didSelectRowAt path.1 path.2) ∧
            ∀ segue, InBounds (controller.prepare segue (some path)) := by
  have reached : run (step twoMonths) (viewDidLoad twoMonths aprilAndMay) [lakeSearch] =
      some _ := rfl
  exact ⟨_, reached, neverOutOfRange reached⟩

/-! ### Dead rows -/

/-- A tap on any valid row opens the photo the row stands for. -/
def OpensEveryRow (controller : CategoryViewController) : Prop :=
  ∀ path ∈ controller.indexPaths, ∃ photo, controller.photoAt path.1 path.2 = some photo ∧
    controller.didSelectRowAt path.1 path.2 = .ok (some photo)

/-- Without a search every row opens exactly when no section has more rows than there are
sections. -/
theorem opensEveryRow_grouped_iff (sections : controller.groups.Holds locale.month photos)
    (grouped : controller.isFilterNow = false) :
    OpensEveryRow controller ↔
      ∀ title ∈ controller.sectionsAll,
        (photos.filter fun photo => locale.month photo = title).length ≤
          controller.sectionsAll.length := by
  constructor
  · intro opens title member
    obtain ⟨section_, found⟩ := List.mem_iff_getElem?.mp member
    have inside := (List.getElem?_eq_some_iff.mp found).1
    by_contra long
    -- The row whose number is the number of sections is there, and dead.
    have valid : (section_, controller.sectionsAll.length) ∈ controller.indexPaths := by
      rw [mem_indexPaths, rows_grouped sections grouped found]
      exact ⟨inside, Nat.lt_of_not_le long⟩
    obtain ⟨_, -, opened⟩ := opens _ valid
    obtain ⟨_, -, dead⟩ := didSelectRowAt_of_grouped sections grouped valid
    rw [opened, if_neg (Nat.lt_irrefl _)] at dead
    cases dead
  · intro short path valid
    obtain ⟨inside, counted⟩ := mem_indexPaths.mp valid
    obtain ⟨photo, stands, opens⟩ := didSelectRowAt_of_grouped sections grouped valid
    rw [rows_grouped sections grouped (List.getElem?_eq_getElem inside)] at counted
    have below : path.2 < controller.sectionsAll.length :=
      Nat.lt_of_lt_of_le counted (short _ (List.getElem_mem inside))
    rw [if_pos below] at opens
    exact ⟨photo, stands, opens⟩

/-- There is one section for each month of the photos. -/
theorem sections_length (sections : controller.groups.Holds locale.month photos) :
    controller.sectionsAll.length = (photos.map locale.month).dedup.length := by
  refine List.Perm.length_eq ((List.perm_ext_iff_of_nodup sections.titles_nodup
    (List.nodup_dedup _)).mpr fun title => ?_)
  rw [List.mem_dedup, List.mem_map]
  exact sections.mem_titles

theorem count_month (photos : List Photo) (title : Text) :
    (photos.map locale.month).count title =
      (photos.filter fun photo => locale.month photo = title).length := by
  rw [List.count, List.countP_map, List.countP_eq_length_filter]
  refine congrArg List.length (List.filter_congr fun photo _ => ?_)
  rw [Function.comp_apply, beq_eq_decide]

/-- After any searches and refreshes every valid row opens its photo exactly when a search is on
or no month has more photos than there are months. -/
theorem opensEveryRow_iff {events : List TableEvent}
    (reached : run (handle locale) (viewDidLoad locale photos) events = some controller) :
    OpensEveryRow controller ↔
      controller.searchText ≠ [] ∨
        ∀ month ∈ (loadedPhotos photos events).map locale.month,
          ((loadedPhotos photos events).map locale.month).count month ≤
            ((loadedPhotos photos events).map locale.month).dedup.length := by
  have sections := (run_loaded reached).grouped
  by_cases noText : controller.searchText = []
  · rw [or_iff_right (not_not.mpr noText),
      opensEveryRow_grouped_iff sections (isFilterNow_eq_false.mpr noText),
      sections_length sections]
    refine forall_congr' fun title => imp_congr ?_ ?_
    · rw [List.mem_map]
      exact sections.mem_titles
    · rw [count_month]
  · refine iff_of_true (fun path valid => ?_) (Or.inl noText)
    exact didSelectRowAt_of_searching (isFilterNow_eq_true.mpr noText) valid

theorem opensEveryRow_iff_aprilAndMay :
    ∃ controller, run (handle twoMonths) (viewDidLoad twoMonths aprilAndMay) [] =
        some controller ∧
      (OpensEveryRow controller ↔
        controller.searchText ≠ [] ∨
          ∀ month ∈ (loadedPhotos aprilAndMay []).map twoMonths.month,
            ((loadedPhotos aprilAndMay []).map twoMonths.month).count month ≤
              ((loadedPhotos aprilAndMay []).map twoMonths.month).dedup.length) := by
  have reached : run (handle twoMonths) (viewDidLoad twoMonths aprilAndMay) [] = some _ := rfl
  exact ⟨_, reached, opensEveryRow_iff reached⟩

/-- The second photo of a single month is listed and cannot be opened. -/
theorem second_april_row_dead :
    ¬ ∀ (locale : Locale) (photos : List Photo) (events : List TableEvent)
      (controller : CategoryViewController),
      run (handle locale) (viewDidLoad locale photos) events = some controller →
        OpensEveryRow controller := by
  intro always
  obtain ⟨photo, -, opens⟩ := always twoMonths [tagged "1" april, tagged "2" april] [] _ rfl
    (0, 1) (by decide)
  have dead : (viewDidLoad twoMonths [tagged "1" april, tagged "2" april]).didSelectRowAt 0 1 =
      .ok none := by decide
  rw [dead] at opens
  cases opens

end CategoryViewController

end PhotoMap
