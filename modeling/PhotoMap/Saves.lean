/-
This file proves what the chained callbacks of the saves keep, over every
interleaving of their completions and every pattern of failures. A save carries
its own photo from its call to its record, it reaches the database at most once
and only after its own object answered the lookup of its URL, and a save whose
lookup fails never touches the database. The invariant says for each save, by
the callback it waits for, which records it has written and which of its
lookups have failed; one step changes it at one save and frames it at every
other one.
-/

import PhotoMap.App

namespace PhotoMap

open Transition

/-! ### What a run has seen -/

/-- The records one save has written. -/
def Pipeline.writesOf (pipeline : Pipeline) (index : Nat) : List Write :=
  pipeline.writes.filter fun write => write.save = index

/-- The lookup of the save's download URL has completed with an error. -/
def LookupFailed (events : List Event) (index : Nat) : Prop :=
  ∃ url autoId, .downloadURL index url true autoId ∈ events

/-- The lookup of the save's download URL has succeeded, and at that moment the save's object,
which its own upload had stored, was in the bucket. -/
def LookedUp (foundation : Foundation) (start : App) (events : List Event) (index : Nat) : Prop :=
  ∃ before url autoId after middle save,
    events = before ++ .downloadURL index url false autoId :: after ∧
      run (App.step foundation) start before = some middle ∧
      middle.pipeline.saves[index]? = some save ∧ save.reference ∈ middle.pipeline.storage ∧
      ∃ failed, .putData index true failed ∈ before

theorem LookedUp.concat {foundation : Foundation} {start : App} {events : List Event}
    {index : Nat} (lookedUp : LookedUp foundation start events index) (event : Event) :
    LookedUp foundation start (events ++ [event]) index := by
  obtain ⟨before, url, autoId, after, middle, save, rfl, rest⟩ := lookedUp
  refine ⟨before, url, autoId, after ++ [event], middle, save, ?_, rest⟩
  rw [List.append_assoc, List.cons_append]

theorem uploaded_concat {events : List Event} {index : Nat}
    (uploaded : ∃ failed, .putData index true failed ∈ events) (event : Event) :
    ∃ failed, .putData index true failed ∈ events ++ [event] := by
  obtain ⟨failed, member⟩ := uploaded
  exact ⟨failed, List.mem_append_left _ member⟩

theorem lookupFailed_concat {events : List Event} {event : Event} {index : Nat} :
    LookupFailed (events ++ [event]) index ↔
      LookupFailed events index ∨ ∃ url autoId, event = .downloadURL index url true autoId := by
  simp only [LookupFailed, List.mem_append, List.mem_singleton, exists_or, eq_comm]

/-! ### The invariant of the saves -/

/-- The save has written nothing and none of its lookups has failed. -/
def Untouched (events : List Event) (pipeline : Pipeline) (index : Nat) : Prop :=
  pipeline.writesOf index = [] ∧ ¬ LookupFailed events index

/-- What holds of a save by the callback it waits for. -/
def StageInvariant (foundation : Foundation) (start : App) (events : List Event)
    (pipeline : Pipeline) (index : Nat) (photo : Photo) : Stage → Prop
  | .uploading => Untouched events pipeline index
  | .lookingUp => Untouched events pipeline index
  | .writing _ parameters => Untouched events pipeline index ∧
      Repo.parametersForFB photo = .ok parameters ∧ LookedUp foundation start events index
  | .finished =>
    (pipeline.writesOf index = [] ∧
        (LookupFailed events index ∨ .setValue index true ∈ events)) ∨
      (¬ LookupFailed events index ∧ ∃ write, pipeline.writesOf index = [write] ∧
        Repo.parametersForFB photo = .ok write.parameters ∧
          LookedUp foundation start events index)

/-- What holds of one save: its callbacks capture its own photo up to the URL, and its object is
in the bucket only when its own upload stored it. -/
structure SaveInvariant (foundation : Foundation) (start : App) (events : List Event)
    (pipeline : Pipeline) (index : Nat) (save : Save) : Prop where
  captured : ∃ url, save.tempPhoto = { save.photo with url := url }
  owned : save.reference ∈ pipeline.storage → ∃ failed, .putData index true failed ∈ events
  stage : StageInvariant foundation start events pipeline index save.photo save.stage

/-- What holds of all of them: the saves are the calls of the run, their references are
distinct, and the database is the first one with the records written in order. -/
structure PipelineInvariant (foundation : Foundation) (start : App) (events : List Event)
    (pipeline : Pipeline) : Prop where
  photos : pipeline.saves.map Save.photo = events.filterMap Event.savedPhoto?
  distinct : (pipeline.saves.map Save.reference).Nodup
  saves : ∀ index save, pipeline.saves[index]? = some save →
    SaveInvariant foundation start events pipeline index save
  absent : ∀ index, pipeline.saves[index]? = none → Untouched events pipeline index
  replay : pipeline.database = pipeline.writes.foldl
    (fun node write => node.updateChild write.path (savedNode write.parameters))
    start.pipeline.database

section Preservation

variable {foundation : Foundation} {start : App} {events : List Event}
  {pipeline next : Pipeline} {event : Event} {index : Nat} {save : Save}

theorem Untouched.frame (holds : Untouched events pipeline index)
    (sameWrites : next.writesOf index = pipeline.writesOf index)
    (noFailure : ∀ url autoId, event ≠ .downloadURL index url true autoId) :
    Untouched (events ++ [event]) next index := by
  refine ⟨sameWrites.trans holds.1, fun failed => ?_⟩
  rcases lookupFailed_concat.mp failed with before | ⟨url, autoId, same⟩
  · exact holds.2 before
  · exact noFailure url autoId same

/-- A step that leaves a save's records and lookups alone keeps what holds by its stage. -/
theorem StageInvariant.frame {photo : Photo} {stage : Stage}
    (holds : StageInvariant foundation start events pipeline index photo stage)
    (sameWrites : next.writesOf index = pipeline.writesOf index)
    (noFailure : ∀ url autoId, event ≠ .downloadURL index url true autoId) :
    StageInvariant foundation start (events ++ [event]) next index photo stage := by
  cases stage with
  | uploading => exact Untouched.frame holds sameWrites noFailure
  | lookingUp => exact Untouched.frame holds sameWrites noFailure
  | writing path parameters =>
    obtain ⟨untouched, encoded, lookedUp⟩ := holds
    exact ⟨untouched.frame sameWrites noFailure, encoded, lookedUp.concat event⟩
  | finished =>
    rcases holds with ⟨noWrites, failure⟩ | ⟨notFailed, write, written, encoded, lookedUp⟩
    · refine Or.inl ⟨sameWrites.trans noWrites, ?_⟩
      exact failure.imp (fun failed => lookupFailed_concat.mpr (Or.inl failed))
        fun member => List.mem_append_left _ member
    · refine Or.inr ⟨fun failed => ?_, write, sameWrites.trans written, encoded,
        lookedUp.concat event⟩
      rcases lookupFailed_concat.mp failed with before | ⟨url, autoId, same⟩
      · exact notFailed before
      · exact noFailure url autoId same

theorem SaveInvariant.frame (holds : SaveInvariant foundation start events pipeline index save)
    (sameWrites : next.writesOf index = pipeline.writesOf index)
    (sameStorage : save.reference ∈ next.storage → save.reference ∈ pipeline.storage)
    (noFailure : ∀ url autoId, event ≠ .downloadURL index url true autoId) :
    SaveInvariant foundation start (events ++ [event]) next index save where
  captured := holds.captured
  owned member := uploaded_concat (holds.owned (sameStorage member)) event
  stage := holds.stage.frame sameWrites noFailure

theorem getElem?_setSave {old new : Save} {other : Nat} {found : Save}
    (exists_ : pipeline.saves[index]? = some old)
    (read : (pipeline.setSave index new).saves[other]? = some found) :
    (other = index ∧ found = new) ∨ (other ≠ index ∧ pipeline.saves[other]? = some found) := by
  simp only [Pipeline.setSave, List.getElem?_set] at read
  obtain ⟨bound, -⟩ := List.getElem?_eq_some_iff.mp exists_
  split at read
  · rename_i same
    exact Or.inl ⟨same.symm, (Option.some.inj read).symm⟩
  · rename_i different
    exact Or.inr ⟨fun same => different same.symm, read⟩

theorem setSave_map {Field : Type} (field : Save → Field) {old new : Save}
    (exists_ : pipeline.saves[index]? = some old) (same : field new = field old) :
    (pipeline.setSave index new).saves.map field = pipeline.saves.map field := by
  refine List.ext_getElem? fun other => ?_
  simp only [Pipeline.setSave, List.getElem?_map, List.getElem?_set]
  split
  · rename_i equal
    subst equal
    obtain ⟨bound, -⟩ := List.getElem?_eq_some_iff.mp exists_
    rw [if_pos bound, exists_, Option.map_some, Option.map_some, same]
  · rfl

/-- A step at one save keeps the invariant when it keeps the photos and references, and
establishes what holds of that save; every other save and the records of every other save are
left alone. -/
theorem PipelineInvariant.setSave (holds : PipelineInvariant foundation start events pipeline)
    {old new : Save} (exists_ : pipeline.saves[index]? = some old)
    (saves : next.saves = (pipeline.setSave index new).saves)
    (samePhoto : new.photo = old.photo) (sameReference : new.reference = old.reference)
    (about : event.save? = some index)
    (storage : ∀ reference ∈ next.storage, reference ∈ pipeline.storage ∨
      reference = old.reference)
    (writes : ∀ other, other ≠ index → next.writesOf other = pipeline.writesOf other)
    (replay : next.database = next.writes.foldl
      (fun node write => node.updateChild write.path (savedNode write.parameters))
      start.pipeline.database)
    (established : SaveInvariant foundation start (events ++ [event]) next index new) :
    PipelineInvariant foundation start (events ++ [event]) next := by
  have noFailure : ∀ other, other ≠ index → ∀ url autoId,
      event ≠ .downloadURL other url true autoId := by
    rintro other different url autoId rfl
    exact different (Option.some.inj about)
  have bound : index < pipeline.saves.length := (List.getElem?_eq_some_iff.mp exists_).1
  refine ⟨?_, ?_, ?_, ?_, replay⟩
  · have noSave : event.savedPhoto? = none := by
      cases event <;> first | rfl | cases about
    rw [saves, setSave_map Save.photo exists_ samePhoto, holds.photos, List.filterMap_append,
      List.filterMap_cons, noSave, List.filterMap_nil, List.append_nil]
  · rw [saves, setSave_map Save.reference exists_ sameReference]
    exact holds.distinct
  · intro other save found
    rw [saves] at found
    rcases getElem?_setSave exists_ found with ⟨rfl, rfl⟩ | ⟨different, found⟩
    · exact established
    · refine (holds.saves other save found).frame (writes other different) ?_
        (noFailure other different)
      intro member
      refine (storage _ member).resolve_right fun same => different ?_
      -- Two saves of one reference are the same save.
      have first : (pipeline.saves.map Save.reference)[other]? = some old.reference := by
        rw [List.getElem?_map, found, Option.map_some, same]
      have second : (pipeline.saves.map Save.reference)[index]? = some old.reference := by
        rw [List.getElem?_map, exists_, Option.map_some]
      exact (List.getElem?_inj (List.getElem?_eq_some_iff.mp first).1 holds.distinct).mp
        (first.trans second.symm)
  · intro other missing
    have different : other ≠ index := by
      rintro rfl
      rw [saves, List.getElem?_eq_none_iff, Pipeline.setSave, List.length_set] at missing
      omega
    have absent : pipeline.saves[other]? = none := by
      rw [saves, List.getElem?_eq_none_iff, Pipeline.setSave, List.length_set] at missing
      exact List.getElem?_eq_none_iff.mpr missing
    exact (holds.absent other absent).frame (writes other different) (noFailure other different)

theorem writesOf_concat (pipeline : Pipeline) (write : Write) (other : Nat) :
    ({ pipeline with writes := pipeline.writes ++ [write] } : Pipeline).writesOf other =
      pipeline.writesOf other ++ if write.save = other then [write] else [] := by
  rw [Pipeline.writesOf, Pipeline.writesOf, List.filter_append]
  refine congrArg _ ?_
  by_cases same : write.save = other
  · rw [if_pos same, List.filter_cons_of_pos (by simpa using same), List.filter_nil]
  · rw [if_neg same, List.filter_cons_of_neg (by simpa using same), List.filter_nil]

theorem PipelineInvariant.stay (holds : PipelineInvariant foundation start events pipeline)
    (noSave : event.savedPhoto? = none)
    (noFailure : ∀ index url autoId, event ≠ .downloadURL index url true autoId) :
    PipelineInvariant foundation start (events ++ [event]) pipeline where
  photos := by
    rw [holds.photos, List.filterMap_append, List.filterMap_cons, noSave, List.filterMap_nil,
      List.append_nil]
  distinct := holds.distinct
  saves index save found := (holds.saves index save found).frame rfl id (noFailure index)
  absent index missing := (holds.absent index missing).frame rfl (noFailure index)
  replay := holds.replay

/-- A new save has no object yet, since its reference is fresh. -/
theorem PipelineInvariant.started (holds : PipelineInvariant foundation start events pipeline)
    {photo : Photo} {uuidString : Text} {reference : Path} {caller : Option Uid}
    (encodable : photo.imageData.isSome = true) (fresh : pipeline.Fresh reference) :
    PipelineInvariant foundation start (events ++ [.savePhoto photo uuidString])
      { pipeline with
        saves := pipeline.saves ++ [⟨photo, photo, reference, caller, .uploading⟩] } := by
  have noFailure : ∀ index url autoId,
      Event.savePhoto photo uuidString ≠ .downloadURL index url true autoId := by simp
  refine ⟨?_, ?_, ?_, ?_, holds.replay⟩
  · have saved : (Event.savePhoto photo uuidString).savedPhoto? = some photo := if_pos encodable
    rw [List.map_append, holds.photos, List.filterMap_append, List.filterMap_cons, saved]
    rfl
  · rw [List.map_append, List.nodup_append]
    refine ⟨holds.distinct, List.nodup_singleton _, ?_⟩
    intro known member other single same
    obtain ⟨save, stored, rfl⟩ := List.mem_map.mp member
    rw [List.map_singleton, List.mem_singleton] at single
    exact fresh.2 save stored (same.trans single)
  · intro index save found
    rcases getElem?_concat_eq_some found with earlier | ⟨last, rfl⟩
    · exact (holds.saves index save earlier).frame rfl id (noFailure index)
    · have untouched := holds.absent index (List.getElem?_eq_none_iff.mpr last.ge)
      exact ⟨⟨photo.url, rfl⟩, fun member => absurd member fresh.1,
        Untouched.frame untouched rfl (noFailure index)⟩
  · intro index missing
    rw [List.getElem?_eq_none_iff, List.length_append] at missing
    exact (holds.absent index (List.getElem?_eq_none_iff.mpr (by omega))).frame rfl
      (noFailure index)

theorem PipelineInvariant.uploaded (holds : PipelineInvariant foundation start events pipeline)
    {stored failed : Bool} (found : pipeline.saves[index]? = some save)
    (stage : save.stage = .uploading) :
    PipelineInvariant foundation start (events ++ [.putData index stored failed])
      { pipeline.setSave index { save with stage := .lookingUp } with
        storage := if stored then save.reference :: pipeline.storage else pipeline.storage } := by
  obtain ⟨captured, owned, untouched⟩ := holds.saves index save found
  rw [stage] at untouched
  refine holds.setSave found rfl rfl rfl rfl ?_ (fun other different => rfl) holds.replay
    ⟨captured, ?_, Untouched.frame untouched rfl (by simp)⟩
  · intro reference member
    cases stored with
    | true => exact (List.mem_cons.mp member).symm
    | false => exact Or.inl member
  · intro member
    cases stored with
    | true => exact ⟨failed, List.mem_append_right _ (List.mem_singleton.mpr rfl)⟩
    | false => exact uploaded_concat (owned member) _

theorem PipelineInvariant.lookupFailed
    (holds : PipelineInvariant foundation start events pipeline) {url : Option Text} {autoId : Text}
    (found : pipeline.saves[index]? = some save) (stage : save.stage = .lookingUp) :
    PipelineInvariant foundation start (events ++ [.downloadURL index url true autoId])
      (pipeline.setSave index { save with stage := .finished }) := by
  obtain ⟨captured, owned, untouched⟩ := holds.saves index save found
  rw [stage] at untouched
  refine holds.setSave found rfl rfl rfl rfl (fun reference member => Or.inl member)
    (fun other different => rfl) holds.replay
    ⟨captured, fun member => uploaded_concat (owned member) _, ?_⟩
  exact Or.inl ⟨untouched.1, Or.inl (lookupFailed_concat.mpr (Or.inr ⟨url, autoId, rfl⟩))⟩

/-- The lookup succeeds for an object in the bucket, and the record is built from the save's own
photo. -/
theorem PipelineInvariant.lookedUp
    (holds : PipelineInvariant foundation start events pipeline) {app : App}
    (reached : run (App.step foundation) start events = some app)
    (shared : app.pipeline = pipeline) {url : Option Text} {autoId : Text} {path : Path}
    {parameters : Entries} (found : pipeline.saves[index]? = some save)
    (stage : save.stage = .lookingUp) (stored : save.reference ∈ pipeline.storage)
    (encoded : Repo.parametersForFB { save.tempPhoto with url := some (url.getD []) } =
      .ok parameters) :
    PipelineInvariant foundation start (events ++ [.downloadURL index url false autoId])
      (pipeline.setSave index
        { save with
          tempPhoto := { save.tempPhoto with url := some (url.getD []) }
          stage := .writing path parameters }) := by
  obtain ⟨⟨earlierURL, captured⟩, owned, untouched⟩ := holds.saves index save found
  rw [stage] at untouched
  obtain ⟨failed, uploaded⟩ := owned stored
  have lookedUp : LookedUp foundation start (events ++ [.downloadURL index url false autoId])
      index :=
    ⟨events, url, autoId, [], app, save, rfl, reached, shared ▸ found, shared ▸ stored, failed,
      uploaded⟩
  have sameRecord : Repo.parametersForFB save.photo = .ok parameters := by
    rw [← encoded, captured]
    rfl
  refine holds.setSave found rfl rfl rfl rfl (fun reference member => Or.inl member)
    (fun other different => rfl) holds.replay
    ⟨⟨some (url.getD []), ?_⟩, fun _ => uploaded_concat ⟨failed, uploaded⟩ _, ?_⟩
  · rw [captured]
  · exact ⟨Untouched.frame untouched rfl (by simp), sameRecord, lookedUp⟩

theorem PipelineInvariant.writeFailed
    (holds : PipelineInvariant foundation start events pipeline) {path : Path}
    {parameters : Entries} (found : pipeline.saves[index]? = some save)
    (stage : save.stage = .writing path parameters) :
    PipelineInvariant foundation start (events ++ [.setValue index true])
      (pipeline.setSave index { save with stage := .finished }) := by
  obtain ⟨captured, owned, writing⟩ := holds.saves index save found
  rw [stage] at writing
  refine holds.setSave found rfl rfl rfl rfl (fun reference member => Or.inl member)
    (fun other different => rfl) holds.replay
    ⟨captured, fun member => uploaded_concat (owned member) _, Or.inl ⟨writing.1.1, Or.inr ?_⟩⟩
  exact List.mem_append_right _ (List.mem_singleton.mpr rfl)

theorem PipelineInvariant.written (holds : PipelineInvariant foundation start events pipeline)
    {path : Path} {parameters : Entries} (found : pipeline.saves[index]? = some save)
    (stage : save.stage = .writing path parameters) :
    PipelineInvariant foundation start (events ++ [.setValue index false])
      { pipeline.setSave index { save with stage := .finished } with
        database := pipeline.database.updateChild path (savedNode parameters)
        writes := pipeline.writes ++ [⟨index, path, parameters⟩] } := by
  obtain ⟨captured, owned, writing⟩ := holds.saves index save found
  rw [stage] at writing
  obtain ⟨⟨noWrites, notFailed⟩, encoded, lookedUp⟩ := writing
  refine holds.setSave found rfl rfl rfl rfl (fun reference member => Or.inl member) ?_ ?_
    ⟨captured, fun member => uploaded_concat (owned member) _,
      Or.inr ⟨fun failed => ?_, ⟨index, path, parameters⟩, ?_, encoded, lookedUp.concat _⟩⟩
  · intro other different
    refine (writesOf_concat pipeline ⟨index, path, parameters⟩ other).trans ?_
    rw [if_neg (Ne.symm different), List.append_nil]
  · rw [List.foldl_append, ← holds.replay]
    rfl
  · rcases lookupFailed_concat.mp failed with before | ⟨url, autoId, same⟩
    · exact notFailed before
    · cases same
  · refine (writesOf_concat pipeline ⟨index, path, parameters⟩ index).trans ?_
    rw [noWrites, if_pos rfl, List.nil_append]

end Preservation

/-- The invariant holds along every run from the launch. -/
theorem App.run_pipelineInvariant {foundation : Foundation} {signedIn : Option Uid}
    {storage : List Path} {database : Node} {events : List Event} {final : App}
    (reached : run (App.step foundation) (App.launch signedIn storage database) events =
      some final) :
    PipelineInvariant foundation (App.launch signedIn storage database) events
      final.pipeline := by
  refine run_induction (fun events app => PipelineInvariant foundation _ events app.pipeline)
    ?_ ?_ reached
  · refine ⟨rfl, List.nodup_nil, ?_, ?_, rfl⟩
    · intro index save found
      cases found
    · rintro index -
      exact ⟨rfl, fun ⟨url, autoId, member⟩ => List.not_mem_nil member⟩
  · intro events event middle target before holds stepped
    have saveStep := App.step_saveStep stepped
    revert saveStep
    generalize target.pipeline = next
    intro saveStep
    cases saveStep with
    | stay noSave noFailure => exact holds.stay noSave noFailure
    | started encodable fresh => exact holds.started encodable fresh
    | uploaded found stage => exact holds.uploaded found stage
    | lookupFailed found stage => exact holds.lookupFailed found stage
    | lookedUp found stage stored encoded read under =>
      exact holds.lookedUp before rfl found stage stored encoded
    | writeFailed found stage => exact holds.writeFailed found stage
    | written found stage => exact holds.written found stage

/-! ### Clean saves -/

/-- The record carries the title, the timestamp and the category of the photo. -/
def Carries (photo : Photo) (parameters : Entries) : Prop :=
  Repo.parametersForFB photo = .ok parameters ∧
    field parameters Repo.nameFB Value.asString? = photo.name ∧
    field parameters Repo.timestampFB Value.asInt? = photo.date.timeIntervalSince1970.toInt64? ∧
    field parameters Repo.categoryFB Value.asString? = some photo.category.rawValue

theorem carries_of_encoded {photo : Photo} {parameters : Entries}
    (encoded : Repo.parametersForFB photo = .ok parameters) : Carries photo parameters := by
  obtain ⟨name, timestamp, named, dated, rfl⟩ := Repo.parametersForFB_eq_ok.mp encoded
  exact ⟨encoded, named.symm, dated.symm, rfl⟩

/-- A save has written nothing, or one record of its own photo after its own lookup. -/
theorem PipelineInvariant.writesOf_cases {foundation : Foundation} {start : App}
    {events : List Event} {pipeline : Pipeline}
    (holds : PipelineInvariant foundation start events pipeline) (index : Nat) :
    pipeline.writesOf index = [] ∨
      ∃ save write, pipeline.saves[index]? = some save ∧ pipeline.writesOf index = [write] ∧
        ¬ LookupFailed events index ∧ Repo.parametersForFB save.photo = .ok write.parameters ∧
          LookedUp foundation start events index := by
  cases found : pipeline.saves[index]? with
  | none => exact Or.inl (holds.absent index found).1
  | some save =>
    have stage := (holds.saves index save found).stage
    cases waiting : save.stage with
    | uploading =>
      rw [waiting] at stage
      exact Or.inl stage.1
    | lookingUp =>
      rw [waiting] at stage
      exact Or.inl stage.1
    | writing path parameters =>
      rw [waiting] at stage
      exact Or.inl stage.1.1
    | finished =>
      rw [waiting] at stage
      rcases stage with ⟨noWrites, -⟩ | ⟨notFailed, write, written, encoded, lookedUp⟩
      · exact Or.inl noWrites
      · exact Or.inr ⟨save, write, rfl, written, notFailed, encoded, lookedUp⟩

/-- A record that was written stays among the written ones. -/
theorem SaveStep.writes_subset {app : App} {next : Pipeline} {event : Event}
    (stepped : SaveStep app event next) : app.pipeline.writes ⊆ next.writes := by
  cases stepped with
  | written found stage => exact List.subset_append_left _ _
  | _ => exact List.Subset.refl _

theorem App.run_writes_subset {foundation : Foundation} {start final : App} {events : List Event}
    (reached : run (App.step foundation) start events = some final) :
    start.pipeline.writes ⊆ final.pipeline.writes :=
  run_invariant (fun app => start.pipeline.writes ⊆ app.pipeline.writes) (List.Subset.refl _)
    (fun _ _ _ holds stepped _ member => (App.step_saveStep stepped).writes_subset (holds member))
    reached

/-- The database changes only where a record is written. -/
theorem SaveStep.database_eq {app : App} {next : Pipeline} {event : Event} {index : Nat}
    (stepped : SaveStep app event next) (about : event.save? = some index)
    (noWrites : next.writesOf index = []) : next.database = app.pipeline.database := by
  cases stepped with
  | @written written save path parameters found stage =>
    cases about
    have member : ⟨index, path, parameters⟩ ∈
        app.pipeline.writes ++ [(⟨index, path, parameters⟩ : Write)] :=
      List.mem_append_right _ (List.mem_singleton.mpr rfl)
    exact absurd noWrites (List.ne_nil_of_mem (List.mem_filter.mpr ⟨member, decide_eq_true rfl⟩))
  | _ => rfl

/-- What a run of saves leaves: the database is the first one with the written records, at most
one of each save, of its own photo and after its own lookup, and none of a save whose lookup
failed, whose steps leave the database as it was. -/
structure SavesCleanly (foundation : Foundation) (start : App) (events : List Event)
    (final : App) : Prop where
  replay : final.pipeline.database = final.pipeline.writes.foldl
    (fun node write => node.updateChild write.path (savedNode write.parameters))
    start.pipeline.database
  once : ∀ index, (final.pipeline.writesOf index).length ≤ 1
  stored : ∀ write ∈ final.pipeline.writes, LookedUp foundation start events write.save
  own : ∀ write ∈ final.pipeline.writes, ∃ photo,
    (events.filterMap Event.savedPhoto?)[write.save]? = some photo ∧
      Carries photo write.parameters
  failed : ∀ index, LookupFailed events index → final.pipeline.writesOf index = []
  unchanged : ∀ index, LookupFailed events index →
    ∀ before event after middle next, events = before ++ event :: after →
      event.save? = some index → run (App.step foundation) start before = some middle →
        App.step foundation middle event = some next →
          next.pipeline.database = middle.pipeline.database

/-- Every run of the program saves cleanly, whatever the order and the failures of the
callbacks. -/
theorem App.savesCleanly {foundation : Foundation} {signedIn : Option Uid} {storage : List Path}
    {database : Node} {events : List Event} {final : App}
    (reached : run (App.step foundation) (App.launch signedIn storage database) events =
      some final) :
    SavesCleanly foundation (App.launch signedIn storage database) events final := by
  have holds := App.run_pipelineInvariant reached
  have written : ∀ write ∈ final.pipeline.writes, ∃ save,
      final.pipeline.saves[write.save]? = some save ∧
        Repo.parametersForFB save.photo = .ok write.parameters ∧
          LookedUp foundation (App.launch signedIn storage database) events write.save := by
    intro write member
    have own : write ∈ final.pipeline.writesOf write.save :=
      List.mem_filter.mpr ⟨member, decide_eq_true rfl⟩
    rcases holds.writesOf_cases write.save with none | ⟨save, only, found, single, -, rest⟩
    · rw [none] at own
      cases own
    · rw [single, List.mem_singleton] at own
      exact ⟨save, found, own ▸ rest⟩
  have failed : ∀ index, LookupFailed events index → final.pipeline.writesOf index = [] := by
    intro index lookupFailed
    rcases holds.writesOf_cases index with none | ⟨-, -, -, -, notFailed, -⟩
    · exact none
    · exact absurd lookupFailed notFailed
  refine ⟨holds.replay, fun index => ?_, fun write member => ?_, fun write member => ?_, failed, ?_⟩
  · rcases holds.writesOf_cases index with none | ⟨save, write, -, single, -⟩
    · rw [none]
      exact Nat.zero_le 1
    · rw [single]
      exact Nat.le_refl 1
  · obtain ⟨save, -, -, lookedUp⟩ := written write member
    exact lookedUp
  · obtain ⟨save, found, encoded, -⟩ := written write member
    refine ⟨save.photo, ?_, carries_of_encoded encoded⟩
    rw [← holds.photos, List.getElem?_map, found, Option.map_some]
  · intro index lookupFailed before event after middle next split about earlier stepped
    refine (App.step_saveStep stepped).database_eq about ?_
    have rest : run (App.step foundation) next after = some final := by
      rw [split, run_append_eq_some] at reached
      obtain ⟨same, first, second⟩ := reached
      rw [earlier, Option.some_inj] at first
      subst first
      obtain ⟨afterStep, sameStep, last⟩ := run_cons_eq_some.mp second
      rw [stepped, Option.some_inj] at sameStep
      exact sameStep ▸ last
    rw [List.eq_nil_iff_forall_not_mem]
    intro write member
    obtain ⟨inWrites, own⟩ := List.mem_filter.mp member
    have kept : write ∈ final.pipeline.writesOf index :=
      List.mem_filter.mpr ⟨App.run_writes_subset rest inWrites, own⟩
    rw [failed index lookupFailed] at kept
    cases kept

/-- The lake with an image that can be encoded. -/
def lakeWithImage : Photo := { Repo.lakePhoto with image := some ⟨some [255, 216]⟩ }

def ann : Uid := ⟨text "ann", by decide, by decide⟩

/-- Two saves in flight; the upload of the second one fails, and so does its lookup. -/
def twoSaves : List Event :=
  [.savePhoto lakeWithImage (text "A"), .savePhoto lakeWithImage (text "B"),
    .putData 1 false true, .putData 0 true false, .downloadURL 1 none true [],
    .downloadURL 0 (some (text "https://images/a")) false [], .setValue 0 false]

theorem App.savesCleanly_twoSaves :
    ∃ final, run (App.step .ascii) (App.launch (some ann) [] (.children [])) twoSaves =
        some final ∧
      SavesCleanly .ascii (App.launch (some ann) [] (.children [])) twoSaves final :=
  ⟨_, rfl, App.savesCleanly rfl⟩

end PhotoMap
