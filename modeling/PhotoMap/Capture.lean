/-
This file models the capture of a photo, from the picked image through the form
to `savePhoto`, and follows its saves to the database. The photo built in
`imagePickerController` has the identifier `1`, whatever was captured before, so
every capture of a user writes one and the same key: the record of a flow is
kept exactly when the run has no second one.
-/

import PhotoMap.Session

namespace PhotoMap

open Transition Binary64

/-! ### From the picked image to the form -/

/-- What the capture reads from outside: the image named `download` in the bundle, and the date
the formatter reads `2014-02-28 06:50:16` as. -/
structure Resources where
  download : Option UIImage
  parsedDate : Date

structure MapViewController where
  photo : Option Photo := none

/-- `imagePickerController`: the picked image only decides whether a photo is built. -/
def MapViewController.imagePickerController (controller : MapViewController)
    (resources : Resources) (pickedImage : Option UIImage) : Except Trap MapViewController :=
  match pickedImage with
  | none => .ok controller
  | some _ => do
    let image ← force .unwrappedNil resources.download
    return {
      photo := some {
        id := some (text "1")
        url := some (text "unknown")
        name := some (text "photo3 #tag")
        date := resources.parsedDate
        image := some image
        category := .default
        latitude := .ofInt64 53
        longitude := .ofInt64 53 } }

structure NewPhotoViewController where
  photo : Option Photo := none
  editTextView : Text := []

namespace NewPhotoViewController

def categories : List Text :=
  [Category.default.rawValue, Category.friends.rawValue, Category.nature.rawValue]

/-- `prepare` hands the photo of the map over. -/
def prepare (map : MapViewController) : NewPhotoViewController := { photo := map.photo }

def update (controller : NewPhotoViewController) (category : Category) :
    NewPhotoViewController :=
  { controller with photo := controller.photo.map fun photo => { photo with category := category } }

/-- `viewDidLoad`: the name is shown when the photo has an image, and the row of its category is
selected. -/
def viewDidLoad (controller : NewPhotoViewController) : Except Trap NewPhotoViewController := do
  let photo ← force .unwrappedNil controller.photo
  let shown := if photo.image.isSome then photo.name.getD [] else controller.editTextView
  let _ ← force .unwrappedNil (categories.idxOf? photo.category.rawValue)
  return { controller with editTextView := shown }.update photo.category

/-- What the user does in the form. -/
inductive Edit where
  | textViewDidChange (text : Text)
  | didSelectRow (row : Nat)

def edit (controller : NewPhotoViewController) : Edit → Except Trap NewPhotoViewController
  | .textViewDidChange text =>
    .ok { controller with
      editTextView := text
      photo := controller.photo.map fun photo => { photo with name := some text } }
  | .didSelectRow row => do
    let chosenCategory ← subscript categories row
    let category ← force .unwrappedNil (Category.ofRawValue chosenCategory)
    return controller.update category

/-- `doneButton`, up to the call of `savePhoto`. -/
def doneButton (controller : NewPhotoViewController) : Except Trap Photo := do
  let photo ← force .unwrappedNil controller.photo
  return { photo with name := some controller.editTextView }

end NewPhotoViewController

open NewPhotoViewController

/-- A capture flow: the picked image and what the user does before the button is tapped. -/
structure Flow where
  pickedImage : UIImage
  edits : List Edit

/-- The photo a flow passes to `savePhoto`. -/
def Flow.capturedPhoto (flow : Flow) (resources : Resources) : Except Trap Photo := do
  let map ← MapViewController.imagePickerController {} resources (some flow.pickedImage)
  let form ← (prepare map).viewDidLoad
  let edited ← flow.edits.foldlM edit form
  edited.doneButton

/-! ### What the user entered -/

/-- The text of the form after an edit. -/
def NewPhotoViewController.Edit.name (edit : Edit) (name : Text) : Text :=
  match edit with
  | .textViewDidChange text => text
  | .didSelectRow _ => name

/-- The category of the form after an edit. -/
def NewPhotoViewController.Edit.category (edit : Edit) (category : Category) : Category :=
  match edit with
  | .textViewDidChange _ => category
  | .didSelectRow row => (categories[row]?.bind Category.ofRawValue).getD category

/-- The name the user left in the form. -/
def Flow.name (flow : Flow) : Text :=
  flow.edits.foldl (fun name edit => edit.name name) (text "photo3 #tag")

/-- The category the user left in the form. -/
def Flow.category (flow : Flow) : Category :=
  flow.edits.foldl (fun category edit => edit.category category) .default

/-- The photo of the form has this identifier, name and category, and the text shows the name. -/
def Shows (controller : NewPhotoViewController) (id name : Text) (category : Category) : Prop :=
  controller.editTextView = name ∧ ∃ photo, controller.photo = some photo ∧
    photo.id = some id ∧ photo.category = category

theorem Shows.edit {controller next : NewPhotoViewController} {id name : Text}
    {category : Category} {change : Edit} (shows_ : Shows controller id name category)
    (edited : controller.edit change = .ok next) :
    Shows next id (change.name name) (change.category category) := by
  obtain ⟨text, photo, present, identified, categorized⟩ := shows_
  cases change with
  | textViewDidChange entered =>
    cases edited
    refine ⟨rfl, { photo with name := some entered }, ?_, identified, categorized⟩
    rw [present, Option.map_some]
  | didSelectRow row =>
    obtain ⟨chosen, selected, edited⟩ := bind_eq_ok.mp edited
    obtain ⟨picked, known, edited⟩ := bind_eq_ok.mp edited
    rw [subscript, force_eq_ok] at selected
    rw [force_eq_ok] at known
    cases edited
    refine ⟨text, { photo with category := picked }, ?_, identified, ?_⟩
    · rw [update, present, Option.map_some]
    · rw [Edit.category, selected, Option.bind_some, known, Option.getD_some]

theorem Shows.edits {controller final : NewPhotoViewController} {id name : Text}
    {category : Category} {changes : List Edit} (shows_ : Shows controller id name category)
    (edited : changes.foldlM NewPhotoViewController.edit controller = .ok final) :
    Shows final id (changes.foldl (fun name change => change.name name) name)
      (changes.foldl (fun category change => change.category category) category) := by
  induction changes generalizing controller name category with
  | nil =>
    cases edited
    exact shows_
  | cons change rest inductionHypothesis =>
    rw [List.foldlM_cons] at edited
    obtain ⟨next, first, edited⟩ := bind_eq_ok.mp edited
    exact inductionHypothesis (shows_.edit first) edited

/-- The photo of a completed flow carries the name and the category the user left, and the
identifier every flow has. -/
theorem Flow.capturedPhoto_eq_ok {flow : Flow} {resources : Resources} {photo : Photo}
    (captured : flow.capturedPhoto resources = .ok photo) :
    photo.id = some (text "1") ∧ photo.name = some flow.name ∧ photo.category = flow.category := by
  obtain ⟨map, picked, captured⟩ := bind_eq_ok.mp captured
  obtain ⟨form, loaded, captured⟩ := bind_eq_ok.mp captured
  obtain ⟨edited, edits, captured⟩ := bind_eq_ok.mp captured
  obtain ⟨last, present, done⟩ := bind_eq_ok.mp captured
  obtain ⟨image, -, built⟩ := bind_eq_ok.mp picked
  cases built
  have started : Shows form (text "1") (text "photo3 #tag") .default := by
    cases loaded
    exact ⟨rfl, _, rfl, rfl, rfl⟩
  obtain ⟨shown, final, stored, identified, categorized⟩ := started.edits edits
  rw [force_eq_ok, stored, Option.some_inj] at present
  subst present
  cases done
  exact ⟨identified, congrArg some shown, categorized⟩

/-! ### The key of a record -/

/-- The completions of the saves succeed. -/
def Event.isSuccess : Event → Bool
  | .putData _ stored failed => stored && !failed
  | .downloadURL _ url failed _ => url.isSome && !failed
  | .setValue _ failed => !failed
  | _ => true

/-- No callback of the save is outstanding. -/
def Save.isFinished (save : Save) : Bool :=
  match save.stage with
  | .finished => true
  | _ => false

theorem Save.stage_of_isFinished {save : Save} (finished : save.isFinished = true) :
    save.stage = .finished := by
  unfold isFinished at finished
  split at finished
  · assumption
  · cases finished

/-- Every record written or being written goes to one key of the user's node. -/
structure SameKey (user : Uid) (key : Text) (pipeline : Pipeline) : Prop where
  writing : ∀ (index : Nat) (save : Save), pipeline.saves[index]? = some save →
    ∀ path parameters, save.stage = .writing path parameters →
      path = Service.database.rootOf user ++ pathPieces key
  written : ∀ write ∈ pipeline.writes,
    write.path = Service.database.rootOf user ++ pathPieces key

section Key

variable {app : App} {next : Pipeline} {event : Event} {user : Uid} {key : Text}

theorem SameKey.setSave (holds : SameKey user key app.pipeline) {index : Nat} {old new : Save}
    (found : app.pipeline.saves[index]? = some old)
    (under : ∀ path parameters, new.stage = .writing path parameters →
      path = Service.database.rootOf user ++ pathPieces key)
    (saves : next.saves = (app.pipeline.setSave index new).saves)
    (written : ∀ write ∈ next.writes,
      write.path = Service.database.rootOf user ++ pathPieces key) :
    SameKey user key next := by
  refine ⟨?_, written⟩
  intro other save read
  rw [saves] at read
  rcases getElem?_setSave found read with ⟨-, rfl⟩ | ⟨-, earlier⟩
  · exact under
  · exact holds.writing other save earlier

/-- A step keeps the key when every photo saved has it and every reference read is the user's. -/
theorem SameKey.step (holds : SameKey user key app.pipeline)
    (stepped : SaveStep app event next)
    (identified : ∀ save ∈ app.pipeline.saves, save.tempPhoto.id = some key)
    (reads : ∀ save ∈ app.pipeline.saves, app.repo.Serves app.signedIn user) :
    SameKey user key next := by
  cases stepped with
  | stay noSave noFailure => exact holds
  | started encodable fresh =>
    refine ⟨?_, holds.written⟩
    intro index save found
    rcases getElem?_concat_eq_some found with earlier | ⟨-, rfl⟩
    · exact holds.writing index save earlier
    · intro path parameters stage
      cases stage
  | uploaded found stage =>
    refine holds.setSave found ?_ rfl holds.written
    intro path parameters stage
    cases stage
  | lookupFailed found stage =>
    refine holds.setSave found ?_ rfl holds.written
    intro path parameters stage
    cases stage
  | lookedUp found stage stored encoded read under =>
    have member := List.mem_of_getElem? found
    obtain ⟨repo, readRoot, -⟩ := (reads _ member).readPhotosReference
    rw [readRoot, Except.ok.injEq, Prod.mk.injEq] at read
    refine holds.setSave found ?_ rfl holds.written
    intro path parameters stage
    cases stage
    rw [under, ← read.1, identified _ member, Option.getD_some]
  | writeFailed found stage =>
    refine holds.setSave found ?_ rfl holds.written
    intro path parameters stage
    cases stage
  | written found stage =>
    refine holds.setSave found ?_ rfl ?_
    · intro path parameters stage
      cases stage
    · intro write member
      rcases List.mem_append.mp member with earlier | last
      · exact holds.written write earlier
      · rw [List.mem_singleton.mp last]
        exact holds.writing _ _ found _ _ stage

end Key

/-- In a run of one user whose photos all have one identifier, every record goes to one key. -/
theorem App.run_sameKey {foundation : Foundation} {signedIn : Option Uid} {storage : List Path}
    {database : Node} {events : List Event} {final : App} {user : Uid} {key : Text}
    (reached : run (App.step foundation) (App.launch signedIn storage database) events =
      some final)
    (oneUser : ∀ caller ∈ callers signedIn events, caller = some user)
    (oneKey : ∀ photo ∈ events.filterMap Event.savedPhoto?, photo.id = some key) :
    SameKey user key final.pipeline := by
  revert oneUser oneKey
  refine run_induction (fun events app => (∀ caller ∈ callers signedIn events,
    caller = some user) → (∀ photo ∈ events.filterMap Event.savedPhoto?, photo.id = some key) →
      SameKey user key app.pipeline) ?_ ?_ reached
  · rintro - -
    refine ⟨?_, ?_⟩
    · intro index save found
      cases found
    · intro write member
      cases member
  · intro events event middle target before inductionHypothesis stepped oneUser oneKey
    have oneUserBefore : ∀ caller ∈ callers signedIn events, caller = some user := by
      intro caller member
      refine oneUser caller ?_
      rw [callers_concat]
      exact List.mem_append_left _ member
    have oneKeyBefore : ∀ photo ∈ events.filterMap Event.savedPhoto?, photo.id = some key := by
      intro photo member
      refine oneKey photo ?_
      rw [List.filterMap_append]
      exact List.mem_append_left _ member
    have signedInFirst : none ∉ callers signedIn events := by
      intro member
      cases oneUserBefore none member
    have saves := App.run_pipelineInvariant before
    have session := App.run_sessionInvariant before signedInFirst
    refine (inductionHypothesis oneUserBefore oneKeyBefore).step (App.step_saveStep stepped) ?_ ?_
    · intro save member
      obtain ⟨index, found⟩ := List.mem_iff_getElem?.mp member
      obtain ⟨url, captured⟩ := (saves.saves index save found).captured
      rw [captured]
      refine oneKeyBefore save.photo ?_
      rw [← saves.photos]
      exact List.mem_map_of_mem member
    · intro save member
      have called := session.saves save.caller (List.mem_map_of_mem member)
      obtain ⟨first, head⟩ := exists_head_callers called signedInFirst
      have same := oneUserBefore _ (List.mem_of_head? head)
      rw [Option.some_inj] at same
      exact Or.inl (session.fixed user (same ▸ head)).1

/-! ### Keeping every flow -/

/-- The node is a record with the name and the category of the flow. -/
def HoldsFlow (foundation : Foundation) (node : Node) (flow : Flow) : Prop :=
  ∃ entries, foundation.val node = .dictionary entries ∧
    field entries Repo.nameFB Value.asString? = some flow.name ∧
    field entries Repo.categoryFB Value.asString? = some flow.category.rawValue

/-- Each flow has a key of its own, its save wrote there, and its record is still there. -/
def KeepsEveryFlow (foundation : Foundation) (user : Uid) (flows : List Flow) (final : App) :
    Prop :=
  ∃ keys : List Text, keys.length = flows.length ∧ keys.Nodup ∧
    ∀ (index : Nat) (key : Text) (flow : Flow),
      keys[index]? = some key → flows[index]? = some flow →
        (∃ write ∈ final.pipeline.writes, write.save = index ∧
          write.path = Service.database.rootOf user ++ [key]) ∧
        HoldsFlow foundation
          (final.pipeline.database.getChild (Service.database.rootOf user ++ [key])) flow

/-- The saves of a run are those of the flows, made by one user, and all of them have completed
without a failure. -/
structure CompletedFlows (foundation : Foundation) (resources : Resources)
    (signedIn : Option Uid) (storage : List Path) (database : Node) (user : Uid)
    (flows : List Flow) (events : List Event) (final : App) : Prop where
  reached : run (App.step foundation) (App.launch signedIn storage database) events = some final
  captured : (events.filterMap Event.savedPhoto?).map Except.ok =
    flows.map fun flow => flow.capturedPhoto resources
  oneUser : ∀ caller ∈ callers signedIn events, caller = some user
  succeeded : ∀ event ∈ events, event.isSuccess = true
  finished : ∀ save ∈ final.pipeline.saves, save.isFinished = true

section Flows

variable {foundation : Foundation} {resources : Resources} {signedIn : Option Uid}
  {storage : List Path} {database : Node} {user : Uid} {flows : List Flow} {events : List Event}
  {final : App}

/-- The save of a flow has the photo of the flow. -/
theorem CompletedFlows.save
    (completed : CompletedFlows foundation resources signedIn storage database user flows events
      final) {index : Nat} {flow : Flow} (found : flows[index]? = some flow) :
    ∃ save, final.pipeline.saves[index]? = some save ∧
      flow.capturedPhoto resources = .ok save.photo := by
  have same := congrArg (fun captured => captured[index]?) completed.captured
  simp only [← (App.run_pipelineInvariant completed.reached).photos, List.getElem?_map, found,
    Option.map_some] at same
  cases saved : final.pipeline.saves[index]? with
  | none =>
    rw [saved] at same
    cases same
  | some save =>
    rw [saved] at same
    exact ⟨save, rfl, (Option.some.inj same).symm⟩

theorem CompletedFlows.identified
    (completed : CompletedFlows foundation resources signedIn storage database user flows events
      final) : ∀ photo ∈ events.filterMap Event.savedPhoto?, photo.id = some (text "1") := by
  intro photo member
  have captured : Except.ok photo ∈ flows.map fun flow => flow.capturedPhoto resources := by
    rw [← completed.captured]
    exact List.mem_map_of_mem member
  obtain ⟨flow, -, captured⟩ := List.mem_map.mp captured
  exact (Flow.capturedPhoto_eq_ok captured).1

/-- Every flow's record goes to the one key. -/
theorem CompletedFlows.path
    (completed : CompletedFlows foundation resources signedIn storage database user flows events
      final) :
    ∀ write ∈ final.pipeline.writes,
      write.path = Service.database.rootOf user ++ [text "1"] := by
  intro write member
  exact (App.run_sameKey completed.reached completed.oneUser completed.identified).written write
    member

/-- A save that finished without a failure has written one record of its photo. -/
theorem CompletedFlows.write
    (completed : CompletedFlows foundation resources signedIn storage database user flows events
      final) {index : Nat} {save : Save} (found : final.pipeline.saves[index]? = some save) :
    ∃ write, final.pipeline.writesOf index = [write] ∧
      Repo.parametersForFB save.photo = .ok write.parameters := by
  have stage :=
    ((App.run_pipelineInvariant completed.reached).saves index save found).stage
  rw [Save.stage_of_isFinished (completed.finished save (List.mem_of_getElem? found))] at stage
  rcases stage with ⟨-, failure⟩ | ⟨-, write, written, encoded, -⟩
  · exfalso
    rcases failure with ⟨url, autoId, failed⟩ | failed
    · have success := completed.succeeded _ failed
      rw [Event.isSuccess, Bool.not_true, Bool.and_false] at success
      cases success
    · exact Bool.false_ne_true (completed.succeeded _ failed)
  · exact ⟨write, written, encoded⟩

/-- Two flows write one key, so one of their records is gone. -/
theorem CompletedFlows.not_keeps
    (completed : CompletedFlows foundation resources signedIn storage database user flows events
      final) (several : 1 < flows.length) : ¬ KeepsEveryFlow foundation user flows final := by
  rintro ⟨keys, sameLength, distinct, keeps⟩
  have keyOf : ∀ index, index < flows.length → keys[index]? = some (text "1") := by
    intro index bound
    have inKeys : index < keys.length := sameLength.symm ▸ bound
    have key := List.getElem?_eq_getElem inKeys
    obtain ⟨⟨write, member, -, path⟩, -⟩ :=
      keeps index _ _ key (List.getElem?_eq_getElem bound)
    rw [completed.path write member] at path
    rw [key, ← (List.cons.inj (List.append_cancel_left path)).1]
  have same := (keyOf 0 (Nat.zero_lt_of_lt several)).trans (keyOf 1 several).symm
  have equal := (List.getElem?_inj (sameLength.symm ▸ Nat.zero_lt_of_lt several) distinct).mp same
  cases equal

/-- The record of a single flow is kept. -/
theorem CompletedFlows.keeps_one {flow : Flow}
    (completed : CompletedFlows foundation resources signedIn storage database user [flow] events
      final) : KeepsEveryFlow foundation user [flow] final := by
  have first : [flow][0]? = some flow := rfl
  obtain ⟨save, found, captured⟩ := completed.save first
  obtain ⟨write, written, encoded⟩ := completed.write found
  obtain ⟨-, named, categorized⟩ := Flow.capturedPhoto_eq_ok captured
  have invariant := App.run_pipelineInvariant completed.reached
  have oneSave : final.pipeline.saves.length = 1 := by
    have lengths := congrArg List.length completed.captured
    rw [List.length_map, List.length_map, ← invariant.photos, List.length_map] at lengths
    exact lengths
  -- Every record is one of the only save.
  have onlyWrite : final.pipeline.writes = [write] := by
    rw [← written, eq_comm, Pipeline.writesOf, List.filter_eq_self]
    intro other member
    rw [decide_eq_true_eq]
    by_contra different
    have absent := invariant.absent other.save
      (List.getElem?_eq_none_iff.mpr (by omega))
    refine List.not_mem_nil (absent.1 ▸ (?_ : other ∈ final.pipeline.writesOf other.save))
    exact List.mem_filter.mpr ⟨member, decide_eq_true rfl⟩
  have path := completed.path write (onlyWrite ▸ List.mem_singleton.mpr rfl)
  have stored : final.pipeline.database.getChild
      (Service.database.rootOf user ++ [text "1"]) = savedNode write.parameters := by
    rw [invariant.replay, onlyWrite, List.foldl_cons, List.foldl_nil, path,
      Node.getChild_updateChild]
    exact savedNode_isEmpty encoded
  refine ⟨[text "1"], rfl, List.nodup_singleton _, ?_⟩
  intro index key other isKey isFlow
  obtain rfl : index = 0 := by
    have bound := (List.getElem?_eq_some_iff.mp isFlow).1
    rw [List.length_singleton] at bound
    omega
  obtain rfl := Option.some.inj isKey
  obtain rfl := Option.some.inj isFlow
  have own : write ∈ final.pipeline.writesOf 0 := written ▸ List.mem_singleton.mpr rfl
  refine ⟨⟨write, (List.mem_filter.mp own).1, ?_, path⟩, ?_⟩
  · simpa using (List.mem_filter.mp own).2
  · rw [stored]
    obtain ⟨-, name, -, category⟩ := carries_of_encoded encoded
    exact ⟨write.parameters, val_savedNode foundation encoded, name.trans named,
      category.trans (congrArg (some ∘ Category.rawValue) categorized)⟩

end Flows

/-- A completed run keeps the record of every flow exactly when it has at most one flow. -/
theorem keepsEveryFlow_iff {foundation : Foundation} {resources : Resources}
    {signedIn : Option Uid} {storage : List Path} {database : Node} {user : Uid}
    {flows : List Flow} {events : List Event} {final : App}
    (completed : CompletedFlows foundation resources signedIn storage database user flows events
      final) :
    KeepsEveryFlow foundation user flows final ↔ flows.length ≤ 1 := by
  constructor
  · intro keeps
    by_contra several
    exact completed.not_keeps (Nat.lt_of_not_le several) keeps
  · intro atMostOne
    match flows, atMostOne with
    | [], _ =>
      refine ⟨[], rfl, List.nodup_nil, ?_⟩
      intro index key flow isKey
      cases isKey
    | [flow], _ => exact completed.keeps_one

/-- The image of the bundle and the date in one time zone. -/
def lakeResources : Resources := ⟨some ⟨some [255, 216]⟩, ⟨.ofInt64 1393570216⟩⟩

/-- A flow that enters a name and picks the last row. -/
def lakeFlow : Flow :=
  ⟨.empty, [.textViewDidChange (text "lake #blue"), .didSelectRow 2]⟩

/-- A flow that leaves the form as it is. -/
def plainFlow : Flow := ⟨.empty, []⟩

def lakePhotoOf (name : Text) (category : Category) : Photo where
  id := some (text "1")
  url := some (text "unknown")
  name := some name
  date := lakeResources.parsedDate
  image := lakeResources.download
  category := category
  latitude := .ofInt64 53
  longitude := .ofInt64 53

/-- The flow of the lake and its completions. -/
def oneFlow : List Event :=
  [.savePhoto (lakePhotoOf (text "lake #blue") .nature) (text "A"), .putData 0 true false,
    .downloadURL 0 (some (text "https://images/a")) false [], .setValue 0 false]

theorem keepsEveryFlow_iff_oneFlow :
    ∃ final, run (App.step .ascii) (App.launch (some ann) [] (.children [])) oneFlow =
        some final ∧
      (KeepsEveryFlow .ascii ann [lakeFlow] final ↔ [lakeFlow].length ≤ 1) := by
  have reached : run (App.step .ascii) (App.launch (some ann) [] (.children [])) oneFlow =
      some _ := rfl
  have completed : CompletedFlows .ascii lakeResources (some ann) [] (.children []) ann
      [lakeFlow] oneFlow _ := ⟨reached, rfl, by decide, by decide, by decide⟩
  exact ⟨_, reached, keepsEveryFlow_iff completed⟩

/-- Two flows whose completions alternate. -/
def twoFlows : List Event :=
  [.savePhoto (lakePhotoOf (text "lake #blue") .nature) (text "A"),
    .savePhoto (lakePhotoOf (text "photo3 #tag") .default) (text "B"),
    .putData 0 true false, .putData 1 true false,
    .downloadURL 1 (some (text "https://images/b")) false [],
    .downloadURL 0 (some (text "https://images/a")) false [], .setValue 1 false,
    .setValue 0 false]

/-- The second flow's record is overwritten by the first one's. -/
theorem second_flow_lost :
    ¬ ∀ (foundation : Foundation) (resources : Resources) (signedIn : Option Uid)
      (storage : List Path) (database : Node) (user : Uid) (flows : List Flow)
      (events : List Event) (final : App),
      CompletedFlows foundation resources signedIn storage database user flows events final →
        KeepsEveryFlow foundation user flows final := by
  intro always
  have reached : run (App.step .ascii) (App.launch (some ann) [] (.children [])) twoFlows =
      some _ := rfl
  have completed : CompletedFlows .ascii lakeResources (some ann) [] (.children []) ann
      [lakeFlow, plainFlow] twoFlows _ := ⟨reached, rfl, by decide, by decide, by decide⟩
  exact completed.not_keeps (by decide) (always _ _ _ _ _ _ _ _ _ completed)

end PhotoMap
