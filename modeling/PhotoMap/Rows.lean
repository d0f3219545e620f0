/-
This file proves what the rows of the table show. The number of sections and the
cells do not look at the search, the number of rows and the taps do: while a
search is on every section lists all the results, and a cell is always filled
from the unsorted list. So the rows list the visible photos once, and a tap
opens the photo that is shown, only for searches without a result to repeat or
to misplace, and for photos of one month.
-/

import PhotoMap.Table

namespace PhotoMap

open Transition Grouping

/-! ### Reading rows -/

/-- Rows that are read from the items of a list, one item after another. -/
theorem flatMap_range {First Second : Type} (items : List First) (rows : Nat → List Second)
    (read : First → List Second)
    (same : ∀ index item, items[index]? = some item → rows index = read item) :
    (List.range items.length).flatMap rows = items.flatMap read := by
  induction items generalizing rows with
  | nil => rfl
  | cons head tail inductionHypothesis =>
    rw [List.length_cons, List.range_succ_eq_map, List.flatMap_cons, List.flatMap_map,
      List.flatMap_cons, same 0 head rfl]
    exact congrArg _ (inductionHypothesis (fun index => rows (index + 1))
      fun index item found => same (index + 1) item found)

theorem map_getElem?_range {Item : Type} (items : List Item) :
    ((List.range items.length).map fun index => items[index]?) = items.map some := by
  refine List.ext_getElem (by simp) fun index first second => ?_
  simp

namespace CategoryViewController

variable {locale : Locale} {photos : List Photo} {events : List TextChange}
  {controller : CategoryViewController}

/-- The photos of the index paths, one after another. -/
def walk (controller : CategoryViewController) : List (Option Photo) :=
  controller.indexPaths.map fun path => controller.photoAt path.1 path.2

theorem mem_indexPaths {section_ row : Nat} :
    (section_, row) ∈ controller.indexPaths ↔
      section_ < controller.sectionsAll.length ∧
        row < (controller.numberOfRowsInSection section_).toOption.getD 0 := by
  simp only [indexPaths, numberOfSections, List.mem_flatMap, List.mem_range, List.mem_map,
    Prod.mk.injEq]
  constructor
  · rintro ⟨_, inside, _, row, rfl, rfl⟩
    exact ⟨inside, row⟩
  · rintro ⟨inside, row⟩
    exact ⟨_, inside, _, row, rfl, rfl⟩

theorem isFilterNow_eq_false : controller.isFilterNow = false ↔ controller.searchText = [] := by
  rw [isFilterNow, Bool.not_eq_false', List.isEmpty_iff]

theorem isFilterNow_eq_true : controller.isFilterNow = true ↔ controller.searchText ≠ [] := by
  rw [← Bool.not_eq_false, Ne, not_congr isFilterNow_eq_false]

/-- While a search is on, every section has all the results. -/
theorem rows_searching (searching : controller.isFilterNow = true) (section_ : Nat) :
    (controller.numberOfRowsInSection section_).toOption.getD 0 =
      controller.photosWithTag.length := by
  rw [numberOfRowsInSection, if_pos searching]
  rfl

/-- The bucket of a section has the photos of its month. -/
theorem bucket_grouped (sections : controller.groups.Holds locale.month photos)
    {section_ : Nat} {title : Text} (found : controller.sectionsAll[section_]? = some title) :
    controller.photosbySection.lookup title =
      some (photos.filter fun photo => locale.month photo = title) :=
  sections.bucket (List.mem_of_getElem? found)

/-- Without a search the rows of a section are those of its bucket. -/
theorem rows_grouped (sections : controller.groups.Holds locale.month photos)
    (grouped : controller.isFilterNow = false) {section_ : Nat} {title : Text}
    (found : controller.sectionsAll[section_]? = some title) :
    controller.numberOfRowsInSection section_ =
      .ok (photos.filter fun photo => locale.month photo = title).length := by
  rw [numberOfRowsInSection, if_neg (by simp [grouped]), subscript, found, force_some, bind_ok,
    bucket_grouped sections found]
  rfl

theorem walk_eq : controller.walk =
    (List.range controller.sectionsAll.length).flatMap fun section_ =>
      (List.range ((controller.numberOfRowsInSection section_).toOption.getD 0)).map
        (controller.photoAt section_) := by
  rw [walk, indexPaths, List.map_flatMap, numberOfSections]
  refine List.flatMap_congr fun section_ _ => ?_
  rw [List.map_map]
  rfl

theorem walk_searching (searching : controller.isFilterNow = true) :
    controller.walk =
      controller.sectionsAll.flatMap fun _ => controller.photosWithTag.map some := by
  rw [walk_eq]
  refine flatMap_range _ _ _ fun section_ title _ => ?_
  rw [rows_searching searching, ← map_getElem?_range]
  refine List.map_congr_left fun row _ => ?_
  rw [photoAt, if_pos searching]

/-- Without a search the rows are the photos, section after section. -/
theorem TableInvariant.walk_grouped (holds : TableInvariant locale photos events controller)
    (grouped : controller.isFilterNow = false) :
    controller.walk = (regroup locale.month controller.sectionsAll photos).map some := by
  rw [walk_eq, regroup, List.map_flatMap]
  refine flatMap_range _ _ _ fun section_ title found => ?_
  rw [rows_grouped holds.grouped grouped found, ← map_getElem?_range]
  refine List.map_congr_left fun row _ => ?_
  rw [photoAt, if_neg (by simp [grouped]), found, Option.bind_some,
    bucket_grouped holds.grouped found, Option.bind_some]

/-! ### One month -/

/-- The photos are all of one month exactly when there is at most one section. -/
theorem TableInvariant.oneMonth_iff (holds : TableInvariant locale photos events controller) :
    (∀ first ∈ photos, ∀ second ∈ photos, locale.month first = locale.month second) ↔
      controller.sectionsAll.length ≤ 1 := by
  constructor
  · intro oneMonth
    by_contra several
    have bound : 1 < controller.sectionsAll.length := Nat.lt_of_not_le several
    have titles : ∀ title ∈ controller.sectionsAll, ∃ photo ∈ photos,
        locale.month photo = title := fun title member => holds.grouped.mem_titles.mp member
    obtain ⟨first, inFirst, firstTitle⟩ := titles _ (List.getElem_mem (Nat.zero_lt_of_lt bound))
    obtain ⟨second, inSecond, secondTitle⟩ := titles _ (List.getElem_mem bound)
    have same := oneMonth first inFirst second inSecond
    rw [firstTitle, secondTitle] at same
    have index := (List.Nodup.getElem_inj_iff holds.grouped.titles_nodup).mp same
    cases index
  · intro atMostOne first inFirst second inSecond
    have firstTitle : locale.month first ∈ controller.sectionsAll :=
      holds.grouped.covers first inFirst
    have secondTitle : locale.month second ∈ controller.sectionsAll :=
      holds.grouped.covers second inSecond
    match titles : controller.sectionsAll, atMostOne with
    | [], _ =>
      rw [titles] at firstTitle
      cases firstTitle
    | [title], _ =>
      rw [titles, List.mem_singleton] at firstTitle secondTitle
      exact firstTitle.trans secondTitle.symm

theorem TableInvariant.sections_eq_nil (holds : TableInvariant locale photos events controller)
    (noSections : controller.sectionsAll = []) : photos = [] := by
  rw [List.eq_nil_iff_forall_not_mem]
  intro photo member
  have title : locale.month photo ∈ controller.sectionsAll := holds.grouped.covers photo member
  rw [noSections] at title
  cases title

/-- The results of a search that is on are the matching photos in some order. -/
theorem TableInvariant.results_perm (holds : TableInvariant locale photos events controller)
    (searching : controller.isFilterNow = true) :
    controller.photosWithTag.Perm
      (photos.filter fun photo => photo.matches locale (lastChange events).searchText) := by
  have order := holds.order (isFilterNow_eq_true.mp searching)
  rw [holds.photosWithTag]
  refine regroup_perm (order.nodup_iff.mpr holds.grouped.titles_nodup) fun photo member => ?_
  exact order.mem_iff.mpr (holds.grouped.covers photo (List.mem_filter.mp member).1)

/-! ### Photos of two months -/

def april : Date := ⟨.ofInt64 1398667816⟩
def may : Date := ⟨.ofInt64 1399272616⟩

/-- A device whose months are those of the two dates. -/
def twoMonths : Locale where
  lowercased := id
  monthYearDate date := if date = april then text "April 2014" else text "May 2014"

def tagged (id : String) (date : Date) : Photo :=
  { Photo.ofRecord (text id) date (.ofInt64 53) (.ofInt64 27) with name := some (text "#lake") }

def aprilOnly : List Photo := [tagged "1" april]
def aprilAndMay : List Photo := [tagged "1" april, tagged "2" may]

/-! ### Listing the visible photos -/

/-- The photos a search text leaves visible: all of them when it is empty. -/
def visiblePhotos (locale : Locale) (photos : List Photo) (searchText : Text) : List Photo :=
  if searchText = [] then photos
  else photos.filter fun photo => photo.matches locale searchText

/-- The index paths give each visible photo as often as it is there. -/
def ListsVisibleOnce (locale : Locale) (photos : List Photo)
    (controller : CategoryViewController) : Prop :=
  controller.walk.Perm ((visiblePhotos locale photos controller.searchText).map some)

theorem TableInvariant.lists_grouped (holds : TableInvariant locale photos events controller)
    (noText : controller.searchText = []) : ListsVisibleOnce locale photos controller := by
  rw [ListsVisibleOnce, holds.walk_grouped (isFilterNow_eq_false.mpr noText), visiblePhotos,
    if_pos noText]
  exact (regroup_perm holds.grouped.titles_nodup holds.grouped.covers).map some

/-- While a search is on, its results are listed once exactly when there are none or one
section. -/
theorem TableInvariant.lists_searching_iff
    (holds : TableInvariant locale photos events controller)
    (searchText : controller.searchText ≠ []) :
    ListsVisibleOnce locale photos controller ↔
      (∀ photo ∈ photos, photo.matches locale controller.searchText = false) ∨
        controller.sectionsAll.length ≤ 1 := by
  have searching := isFilterNow_eq_true.mpr searchText
  have perm := holds.results_perm searching
  rw [← holds.searchText] at perm
  have noResult : controller.photosWithTag = [] ↔
      ∀ photo ∈ photos, photo.matches locale controller.searchText = false := by
    rw [← List.length_eq_zero_iff, perm.length_eq, List.length_eq_zero_iff,
      List.filter_eq_nil_iff]
    simp
  rw [ListsVisibleOnce, walk_searching searching, visiblePhotos, if_neg searchText, ← noResult]
  constructor
  · intro once
    have lengths := once.length_eq
    rw [List.length_flatMap, List.map_const', List.sum_replicate_nat, List.length_map,
      List.length_map, ← perm.length_eq] at lengths
    by_cases empty : controller.photosWithTag.length = 0
    · exact Or.inl (List.length_eq_zero_iff.mp empty)
    · exact Or.inr (Nat.eq_of_mul_eq_mul_right (Nat.pos_of_ne_zero empty)
        (lengths.trans (Nat.one_mul _).symm)).le
  · rintro (none | atMostOne)
    · rw [none] at perm ⊢
      rw [List.nil_perm.mp perm]
      simp
    · match titles : controller.sectionsAll, atMostOne with
      | [], _ =>
        rw [holds.sections_eq_nil titles]
        exact List.Perm.refl _
      | [title], _ =>
        rw [List.flatMap_singleton]
        exact perm.map some

/-- After any searches the rows list the visible photos once exactly when the text is empty, no
photo matches it, or the photos are all of one month. -/
theorem listsVisibleOnce_iff
    (reached : run (step locale) (viewDidLoad locale photos) events = some controller) :
    ListsVisibleOnce locale photos controller ↔
      (lastChange events).searchText = [] ∨
        (∀ photo ∈ photos, photo.matches locale (lastChange events).searchText = false) ∨
        ∀ first ∈ photos, ∀ second ∈ photos, locale.month first = locale.month second := by
  have holds := run_invariant reached
  rw [holds.oneMonth_iff, ← holds.searchText]
  by_cases noText : controller.searchText = []
  · exact iff_of_true (holds.lists_grouped noText) (Or.inl noText)
  · rw [holds.lists_searching_iff noText]
    exact (or_iff_right noText).symm

theorem listsVisibleOnce_iff_aprilOnly :
    ∃ controller, run (step twoMonths) (viewDidLoad twoMonths aprilOnly)
        [⟨text "lake", [text "April 2014"]⟩] = some controller ∧
      (ListsVisibleOnce twoMonths aprilOnly controller ↔
        (lastChange [⟨text "lake", [text "April 2014"]⟩]).searchText = [] ∨
          (∀ photo ∈ aprilOnly, photo.matches twoMonths
            (lastChange [⟨text "lake", [text "April 2014"]⟩]).searchText = false) ∨
          ∀ first ∈ aprilOnly, ∀ second ∈ aprilOnly,
            twoMonths.month first = twoMonths.month second) := by
  have reached : run (step twoMonths) (viewDidLoad twoMonths aprilOnly)
      [⟨text "lake", [text "April 2014"]⟩] = some _ := rfl
  exact ⟨_, reached, listsVisibleOnce_iff reached⟩

/-- A search that finds two photos of two months lists each of them twice. -/
theorem search_lists_twice :
    ¬ ∀ (locale : Locale) (photos : List Photo) (events : List TextChange)
      (controller : CategoryViewController),
      run (step locale) (viewDidLoad locale photos) events = some controller →
        ListsVisibleOnce locale photos controller := by
  intro always
  have lengths := (always twoMonths aprilAndMay
    [⟨text "lake", [text "May 2014", text "April 2014"]⟩] _ rfl).length_eq
  exact absurd lengths (by decide)

/-! ### Taps and cells -/

/-- A tap that opens a photo opens the one its cell is filled from. -/
def TapsWhatIsShown (controller : CategoryViewController) : Prop :=
  ∀ path ∈ controller.indexPaths, ∀ opened,
    controller.didSelectRowAt path.1 path.2 = .ok (some opened) →
      controller.cellForRowAt path.1 path.2 = .ok opened

theorem didSelectRowAt_searching (searching : controller.isFilterNow = true) {section_ row : Nat}
    {opened : Photo} :
    controller.didSelectRowAt section_ row = .ok (some opened) ↔
      controller.photosWithTag[row]? = some opened := by
  rw [didSelectRowAt, if_pos searching, bind_eq_ok]
  constructor
  · rintro ⟨photo, found, same⟩
    cases same
    exact subscript_eq_ok.mp found
  · intro found
    exact ⟨opened, subscript_eq_ok.mpr found, rfl⟩

/-- Without a search a row of a section opens when it is below the number of sections. -/
theorem didSelectRowAt_grouped (sections : controller.groups.Holds locale.month photos)
    (grouped : controller.isFilterNow = false) {section_ row : Nat} {title : Text}
    (found : controller.sectionsAll[section_]? = some title) {opened : Photo} :
    controller.didSelectRowAt section_ row = .ok (some opened) ↔
      row < controller.sectionsAll.length ∧
        (photos.filter fun photo => locale.month photo = title)[row]? = some opened := by
  rw [didSelectRowAt, if_neg (by simp [grouped]), subscript, found, force_some, bind_ok,
    bucket_grouped sections found]
  dsimp only
  split
  · rename_i guarded
    rw [bind_eq_ok, and_iff_right guarded]
    constructor
    · rintro ⟨photo, read, same⟩
      cases same
      exact subscript_eq_ok.mp read
    · intro read
      exact ⟨opened, subscript_eq_ok.mpr read, rfl⟩
  · rename_i guarded
    refine iff_of_false (fun same => ?_) fun both => guarded both.1
    cases same

/-- Without a search the taps and the cells agree exactly when there is at most one section. -/
theorem TableInvariant.taps_grouped_iff (holds : TableInvariant locale photos events controller)
    (grouped : controller.isFilterNow = false) :
    TapsWhatIsShown controller ↔
      ∀ first ∈ photos, ∀ second ∈ photos, locale.month first = locale.month second := by
  constructor
  · intro taps
    cases shown : photos with
    | nil =>
      intro first member
      cases member
    | cons head rest =>
      rw [← shown]
      -- The first row of every section is filled from the first photo.
      have sameAsHead : ∀ photo ∈ photos, locale.month photo = locale.month head := by
        intro photo member
        have title : locale.month photo ∈ controller.sectionsAll :=
          holds.grouped.covers photo member
        obtain ⟨section_, found⟩ := List.mem_iff_getElem?.mp title
        have inside := (List.getElem?_eq_some_iff.mp found).1
        have nonempty : 0 < (photos.filter fun other =>
            locale.month other = locale.month photo).length := by
          refine List.length_pos_of_mem (List.mem_filter.mpr ⟨member, ?_⟩)
          exact decide_eq_true rfl
        obtain ⟨opened, first⟩ : ∃ opened, (photos.filter fun other =>
            locale.month other = locale.month photo)[0]? = some opened :=
          ⟨_, List.getElem?_eq_getElem nonempty⟩
        have opens := (didSelectRowAt_grouped holds.grouped grouped found).mpr
          ⟨Nat.zero_lt_of_lt inside, first⟩
        have valid : (section_, 0) ∈ controller.indexPaths := by
          rw [mem_indexPaths, rows_grouped holds.grouped grouped found]
          exact ⟨inside, nonempty⟩
        have cell := taps (section_, 0) valid _ opens
        rw [cellForRowAt, holds.photoArray, shown, subscript_eq_ok, List.getElem?_cons_zero,
          Option.some_inj] at cell
        have own := (List.mem_filter.mp (List.mem_of_getElem? first)).2
        rw [← cell, decide_eq_true_eq] at own
        exact own.symm
      intro first inFirst second inSecond
      exact (sameAsHead first inFirst).trans (sameAsHead second inSecond).symm
  · intro oneMonth
    rintro ⟨section_, row⟩ valid opened opens
    have inside := (mem_indexPaths.mp valid).1
    have found := List.getElem?_eq_getElem inside
    have read := ((didSelectRowAt_grouped holds.grouped grouped found).mp opens).2
    have whole : (photos.filter fun photo =>
        locale.month photo = controller.sectionsAll[section_]) = photos := by
      rw [List.filter_eq_self]
      intro photo member
      obtain ⟨other, stored, title⟩ :=
        holds.grouped.mem_titles.mp (List.getElem_mem inside)
      exact decide_eq_true ((oneMonth photo member other stored).trans title)
    rw [whole] at read
    rw [cellForRowAt, holds.photoArray, subscript_eq_ok]
    exact read

/-- While a search is on they agree exactly when the results are the first photos. -/
theorem TableInvariant.taps_searching_iff (holds : TableInvariant locale photos events controller)
    (searching : controller.isFilterNow = true) :
    TapsWhatIsShown controller ↔ controller.photosWithTag <+: photos := by
  rw [List.prefix_iff_getElem?]
  constructor
  · intro taps row bound
    have nonempty : photos ≠ [] := by
      rintro rfl
      have perm := holds.results_perm searching
      rw [List.filter_nil, List.perm_nil] at perm
      rw [perm] at bound
      cases bound
    have sections : 0 < controller.sectionsAll.length := by
      rw [List.length_pos_iff]
      intro noSections
      exact nonempty (holds.sections_eq_nil noSections)
    have valid : (0, row) ∈ controller.indexPaths := by
      rw [mem_indexPaths, rows_searching searching]
      exact ⟨sections, bound⟩
    have opens : controller.didSelectRowAt 0 row = .ok (some controller.photosWithTag[row]) :=
      (didSelectRowAt_searching searching).mpr (List.getElem?_eq_getElem bound)
    have cell := taps (0, row) valid _ opens
    rwa [cellForRowAt, holds.photoArray, subscript_eq_ok] at cell
  · rintro first ⟨section_, row⟩ - opened opens
    have read := (didSelectRowAt_searching searching).mp opens
    obtain ⟨bound, same⟩ := List.getElem?_eq_some_iff.mp read
    rw [cellForRowAt, holds.photoArray, subscript_eq_ok, ← same]
    exact first row bound

/-- After any searches the taps open what the cells show exactly when, with an empty text, the
photos are all of one month, and with another one no photo that does not match comes before one
that does, and the matching ones stand in the order of the last iteration of their months. -/
theorem tapsWhatIsShown_iff
    (reached : run (step locale) (viewDidLoad locale photos) events = some controller) :
    TapsWhatIsShown controller ↔
      if (lastChange events).searchText = [] then
        ∀ first ∈ photos, ∀ second ∈ photos, locale.month first = locale.month second
      else
        photos.Pairwise fun earlier later =>
          (later.matches locale (lastChange events).searchText = true →
            earlier.matches locale (lastChange events).searchText = true) ∧
          (earlier.matches locale (lastChange events).searchText = true →
            later.matches locale (lastChange events).searchText = true →
              rank (lastChange events).order (locale.month earlier) ≤
                rank (lastChange events).order (locale.month later)) := by
  have holds := run_invariant reached
  split
  · rename_i noText
    rw [← holds.searchText] at noText
    exact holds.taps_grouped_iff (isFilterNow_eq_false.mpr noText)
  · rename_i searchText
    rw [← holds.searchText] at searchText
    have order := holds.order searchText
    rw [holds.taps_searching_iff (isFilterNow_eq_true.mpr searchText), holds.photosWithTag]
    refine regroup_filter_prefix_iff _ (order.nodup_iff.mpr holds.grouped.titles_nodup)
      fun photo member => ?_
    exact order.mem_iff.mpr (holds.grouped.covers photo member)

theorem tapsWhatIsShown_iff_aprilOnly :
    ∃ controller, run (step twoMonths) (viewDidLoad twoMonths aprilOnly) [] = some controller ∧
      (TapsWhatIsShown controller ↔
        if (lastChange []).searchText = [] then
          ∀ first ∈ aprilOnly, ∀ second ∈ aprilOnly,
            twoMonths.month first = twoMonths.month second
        else
          aprilOnly.Pairwise fun earlier later =>
            (later.matches twoMonths (lastChange []).searchText = true →
              earlier.matches twoMonths (lastChange []).searchText = true) ∧
            (earlier.matches twoMonths (lastChange []).searchText = true →
              later.matches twoMonths (lastChange []).searchText = true →
                rank (lastChange []).order (twoMonths.month earlier) ≤
                  rank (lastChange []).order (twoMonths.month later))) := by
  have reached : run (step twoMonths) (viewDidLoad twoMonths aprilOnly) [] = some _ := rfl
  exact ⟨_, reached, tapsWhatIsShown_iff reached⟩

/-- The first row of the second month shows the photo of the first one. -/
theorem may_tap_opens_other_photo :
    ¬ ∀ (locale : Locale) (photos : List Photo) (events : List TextChange)
      (controller : CategoryViewController),
      run (step locale) (viewDidLoad locale photos) events = some controller →
        TapsWhatIsShown controller := by
  intro always
  have shown := always twoMonths aprilAndMay [] _ rfl (1, 0) (by decide) (tagged "2" may)
    (by decide)
  exact absurd shown (by decide)

end CategoryViewController

end PhotoMap
