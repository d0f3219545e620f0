/-
This file proves whose data the calls of `Repo` touch. The first call reads the
user and keeps it: from then on every reference of the process is that user's,
while the sign-in form may still complete a request for another one. So the
calls stay inside the data of their callers exactly when one user makes all of
them. A step is read here as what it does to the user, the references and the
log of accesses, and the log is shown to have every path the state has.
-/

import PhotoMap.Saves

namespace PhotoMap

open Transition

/-! ### The callers of a run -/

/-- The user signed in after an event: a success replaces the one before. -/
def Event.signedIn (event : Event) (user : Option Uid) : Option Uid :=
  match event with
  | .authCompletion success => success.or user
  | _ => user

/-- The event is a call of `Repo` that reaches one of its references. -/
def Event.isCall (event : Event) : Bool :=
  match event with
  | .savePhoto photo _ => photo.imageData.isSome
  | .getAllPhotos => true
  | _ => false

/-- The user signed in after a run. -/
def signedInAfter (user : Option Uid) (events : List Event) : Option Uid :=
  events.foldl (fun user event => event.signedIn user) user

/-- The users signed in at the calls of a run. -/
def callers (user : Option Uid) : List Event → List (Option Uid)
  | [] => []
  | event :: rest =>
    (if event.isCall then [user] else []) ++ callers (event.signedIn user) rest

theorem signedInAfter_concat (user : Option Uid) (events : List Event) (event : Event) :
    signedInAfter user (events ++ [event]) = event.signedIn (signedInAfter user events) := by
  rw [signedInAfter, List.foldl_append]
  rfl

theorem callers_concat (user : Option Uid) (events : List Event) (event : Event) :
    callers user (events ++ [event]) =
      callers user events ++ if event.isCall then [signedInAfter user events] else [] := by
  induction events generalizing user with
  | nil => rw [List.nil_append, callers, callers, callers, List.append_nil]; rfl
  | cons first rest inductionHypothesis =>
    rw [List.cons_append, callers, inductionHypothesis, callers, List.append_assoc]
    rfl

/-! ### The user of the references -/

/-- The node a service keeps for a user. -/
def Service.rootOf (service : Service) (user : Uid) : Path :=
  match service with
  | .storage => [Repo.imagesFBPath, user.name]
  | .database => [Repo.photosObjectcFBPath, user.name]

namespace Repo

/-- No reference has been read. -/
structure Unread (repo : Repo) : Prop where
  currentUser : repo.currentUser = none
  images : repo.imagesFilesStorageReference = none
  photos : repo.photoBeansDBReference = none

/-- Every reference that has been read, and every one still to be read, is this user's. -/
structure FixedOn (repo : Repo) (user : Uid) : Prop where
  currentUser : repo.currentUser = some (some user)
  images : ∀ reference, repo.imagesFilesStorageReference = some reference →
    reference = Service.storage.rootOf user
  photos : ∀ reference, repo.photoBeansDBReference = some reference →
    reference = Service.database.rootOf user

/-- A call under this user's sign-in reads this user's references. -/
def Serves (repo : Repo) (signedIn : Option Uid) (user : Uid) : Prop :=
  repo.FixedOn user ∨ (repo.Unread ∧ signedIn = some user)

variable {repo : Repo} {signedIn : Option Uid} {user : Uid}

theorem Serves.readCurrentUser (serves : repo.Serves signedIn user) :
    (repo.readCurrentUser signedIn).1 = some user ∧
      (repo.readCurrentUser signedIn).2.FixedOn user := by
  unfold Repo.readCurrentUser
  rcases serves with fixed | ⟨unread, rfl⟩
  · rw [fixed.currentUser]
    exact ⟨rfl, fixed⟩
  · rw [unread.currentUser]
    refine ⟨rfl, rfl, ?_, ?_⟩
    · intro reference read
      rw [unread.images] at read
      cases read
    · intro reference read
      rw [unread.photos] at read
      cases read

theorem Serves.readImagesReference (serves : repo.Serves signedIn user) :
    (repo.readImagesReference signedIn).1 = Service.storage.rootOf user ∧
      (repo.readImagesReference signedIn).2.FixedOn user := by
  unfold Repo.readImagesReference
  split
  · rename_i reference cached
    rcases serves with fixed | ⟨unread, -⟩
    · exact ⟨fixed.images reference cached, fixed⟩
    · rw [unread.images] at cached
      cases cached
  · obtain ⟨reader, fixed⟩ := serves.readCurrentUser
    have built : storageChild [imagesFBPath] (uidOrEmpty (repo.readCurrentUser signedIn).1) =
        Service.storage.rootOf user := by
      rw [reader, storageChild, uidOrEmpty, Option.map_some, Option.getD_some, user.piece]
      rfl
    refine ⟨built, fixed.currentUser, ?_, fixed.photos⟩
    rintro reference read
    exact (Option.some.inj read).symm.trans built

theorem Serves.readPhotosReference (serves : repo.Serves signedIn user) :
    ∃ next, repo.readPhotosReference signedIn = .ok (Service.database.rootOf user, next) ∧
      next.FixedOn user := by
  unfold Repo.readPhotosReference
  split
  · rename_i reference cached
    rcases serves with fixed | ⟨unread, -⟩
    · exact ⟨repo, by rw [fixed.photos reference cached], fixed⟩
    · rw [unread.photos] at cached
      cases cached
  · obtain ⟨reader, fixed⟩ := serves.readCurrentUser
    have built : databaseChild [photosObjectcFBPath]
        (uidOrEmpty (repo.readCurrentUser signedIn).1) = .ok (Service.database.rootOf user) := by
      rw [reader, databaseChild, uidOrEmpty, Option.map_some, Option.getD_some, user.piece,
        if_pos user.valid]
      rfl
    dsimp only
    rw [built, bind_ok]
    refine ⟨_, rfl, fixed.currentUser, fixed.images, ?_⟩
    rintro reference read
    exact (Option.some.inj read).symm

end Repo

/-! ### The steps of the accesses -/

/-- What one event does to the user, the references and the accesses. -/
inductive AccessStep (app : App) (event : Event) (next : App) : Prop where
  | quiet (noCall : event.isCall = false) (photos : List Photo)
      (user : next.signedIn = event.signedIn app.signedIn)
      (repo : next.repo = { app.repo with photosForDownload := photos })
      (accesses : next.accesses = app.accesses)
      (saves : next.pipeline.saves.map Save.caller = app.pipeline.saves.map Save.caller)
  | image (call : event.isCall = true) (user : next.signedIn = event.signedIn app.signedIn)
      (repo : next.repo = (app.repo.readImagesReference app.signedIn).2) (imageName : Text)
      (accesses : next.accesses = app.accesses ++ [⟨app.signedIn, .storage,
        storageChild (app.repo.readImagesReference app.signedIn).1 imageName⟩])
      (saves : next.pipeline.saves.map Save.caller =
        app.pipeline.saves.map Save.caller ++ [app.signedIn])
  | bean (noCall : event.isCall = false) (user : next.signedIn = event.signedIn app.signedIn)
      {reference : Path} (read : app.repo.readPhotosReference app.signedIn =
        .ok (reference, next.repo)) {caller : Option Uid} (photoId : Text)
      (member : caller ∈ app.pipeline.saves.map Save.caller)
      (accesses : next.accesses = app.accesses ++
        [⟨caller, .database, reference ++ pathPieces photoId⟩])
      (saves : next.pipeline.saves.map Save.caller = app.pipeline.saves.map Save.caller)
  | load (call : event.isCall = true) (user : next.signedIn = event.signedIn app.signedIn)
      {reference : Path} (read : app.repo.readPhotosReference app.signedIn =
        .ok (reference, next.repo))
      (accesses : next.accesses = app.accesses ++ [⟨app.signedIn, .database, reference⟩])
      (saves : next.pipeline.saves.map Save.caller = app.pipeline.saves.map Save.caller)
  | refused (call : event.isCall = true) {trap : Trap}
      (read : app.repo.readPhotosReference app.signedIn = .error trap)

/-- Every step of the machine is a step of the accesses. -/
theorem App.step_accessStep {foundation : Foundation} {app next : App} {event : Event}
    (stepped : App.step foundation app event = some next) : AccessStep app event next := by
  cases App.step_cases stepped with
  | authRequest => exact AccessStep.quiet rfl _ rfl rfl rfl rfl
  | authCompletion pending => exact AccessStep.quiet rfl _ rfl rfl rfl rfl
  | notEncodable image =>
    exact AccessStep.quiet (by rw [Event.isCall, image]; rfl) _ rfl rfl rfl rfl
  | @started photo uuidString encodable images repo read fresh =>
    refine AccessStep.image encodable rfl (by rw [read]) (Repo.imageName uuidString) ?_
      List.map_append
    rw [read]
  | uploaded found stage =>
    exact AccessStep.quiet rfl _ rfl rfl rfl (setSave_map Save.caller found rfl)
  | lookupFailed found stage =>
    exact AccessStep.quiet rfl _ rfl rfl rfl (setSave_map Save.caller found rfl)
  | lookupTrapped found stage stored refused => exact AccessStep.quiet rfl _ rfl rfl rfl rfl
  | lookedUp found stage stored issued =>
    obtain ⟨-, reference, read, path⟩ := Repo.uploaPhotodBean_eq_ok issued
    refine AccessStep.bean rfl rfl read _ ?_ (by rw [path]) (setSave_map Save.caller found rfl)
    exact List.mem_map_of_mem (List.mem_of_getElem? found)
  | writeFailed found stage =>
    exact AccessStep.quiet rfl _ rfl rfl rfl (setSave_map Save.caller found rfl)
  | written found stage =>
    exact AccessStep.quiet rfl _ rfl rfl rfl (setSave_map Save.caller found rfl)
  | loadTrapped refused => exact AccessStep.refused rfl refused
  | loadStarted read => exact AccessStep.load rfl rfl read rfl rfl
  | snapshotTrapped observed iterated refused => exact AccessStep.quiet rfl _ rfl rfl rfl rfl
  | loaded observed iterated completed => exact AccessStep.quiet rfl _ rfl rfl rfl rfl

/-! ### The invariant of the accesses -/

/-- Before the first call nothing has been read; after it everything is its caller's. -/
structure SessionInvariant (signedIn : Option Uid) (events : List Event) (app : App) : Prop where
  user : app.signedIn = signedInAfter signedIn events
  unread : callers signedIn events = [] → app.repo.Unread ∧ app.accesses = []
  fixed : ∀ user, (callers signedIn events).head? = some (some user) →
    app.repo.FixedOn user ∧
      ∀ access ∈ app.accesses, access.service.rootOf user <+: access.path
  saves : ∀ save ∈ app.pipeline.saves.map Save.caller, save ∈ callers signedIn events
  logged : ∀ access ∈ app.accesses, access.caller ∈ callers signedIn events
  called : ∀ caller ∈ callers signedIn events, ∃ access ∈ app.accesses, access.caller = caller

section Preservation

variable {signedIn : Option Uid} {events : List Event} {event : Event} {app next : App}
  {user : Uid}

/-- The first caller of a run without a call before the first sign-in is a user. -/
theorem exists_head_callers {caller : Option Uid} (member : caller ∈ callers signedIn events)
    (signedInFirst : none ∉ callers signedIn events) :
    ∃ user, (callers signedIn events).head? = some (some user) := by
  cases first : (callers signedIn events).head? with
  | none =>
    rw [List.head?_eq_none_iff.mp first] at member
    cases member
  | some head =>
    cases head with
    | none => exact absurd (List.mem_of_head? first) signedInFirst
    | some user => exact ⟨user, rfl⟩

theorem SessionInvariant.serves (holds : SessionInvariant signedIn events app)
    (head : (callers signedIn (events ++ [event])).head? = some (some user)) :
    app.repo.Serves app.signedIn user ∧
      ∀ access ∈ app.accesses, access.service.rootOf user <+: access.path := by
  rw [callers_concat] at head
  by_cases noCalls : callers signedIn events = []
  · obtain ⟨unread, noAccesses⟩ := holds.unread noCalls
    rw [noCalls, List.nil_append] at head
    refine ⟨Or.inr ⟨unread, ?_⟩, by simp [noAccesses]⟩
    split at head
    · exact holds.user.trans (Option.some.inj head)
    · cases head
  · rw [List.head?_append_of_ne_nil _ noCalls] at head
    obtain ⟨fixed, inside⟩ := holds.fixed user head
    exact ⟨Or.inl fixed, inside⟩

/-- A step that adds one access under the first caller's node keeps the invariant. -/
theorem SessionInvariant.extend (holds : SessionInvariant signedIn events app) {access : Access}
    (head : (callers signedIn (events ++ [event])).head? = some (some user))
    (signs : next.signedIn = event.signedIn app.signedIn) (fixed : next.repo.FixedOn user)
    (accesses : next.accesses = app.accesses ++ [access])
    (inside : access.service.rootOf user <+: access.path)
    (own : access.caller ∈ callers signedIn (events ++ [event]))
    (called : event.isCall = true → access.caller = app.signedIn)
    (saves : ∀ save ∈ next.pipeline.saves.map Save.caller,
      save ∈ callers signedIn (events ++ [event])) :
    SessionInvariant signedIn (events ++ [event]) next where
  user := by rw [signs, holds.user, signedInAfter_concat]
  unread noCalls := by
    rw [noCalls] at head
    cases head
  fixed other sameHead := by
    rw [head, Option.some_inj, Option.some_inj] at sameHead
    subst sameHead
    refine ⟨fixed, fun entry member => ?_⟩
    rw [accesses, List.mem_append, List.mem_singleton] at member
    rcases member with earlier | rfl
    · exact (holds.serves head).2 entry earlier
    · exact inside
  saves := saves
  logged entry member := by
    rw [accesses, List.mem_append, List.mem_singleton] at member
    rcases member with earlier | rfl
    · rw [callers_concat]
      exact List.mem_append_left _ (holds.logged entry earlier)
    · exact own
  called caller member := by
    rw [callers_concat, List.mem_append] at member
    rw [accesses]
    rcases member with earlier | last
    · obtain ⟨entry, logged, same⟩ := holds.called caller earlier
      exact ⟨entry, List.mem_append_left _ logged, same⟩
    · split at last
      · rename_i call
        rw [List.mem_singleton, ← holds.user, ← called call] at last
        exact ⟨access, List.mem_append_right _ (List.mem_singleton.mpr rfl), last.symm⟩
      · cases last

theorem SessionInvariant.step (holds : SessionInvariant signedIn events app)
    (stepped : AccessStep app event next)
    (signedInFirst : none ∉ callers signedIn (events ++ [event])) :
    SessionInvariant signedIn (events ++ [event]) next := by
  have earlier : ∀ caller ∈ callers signedIn events,
      caller ∈ callers signedIn (events ++ [event]) := by
    intro caller member
    rw [callers_concat]
    exact List.mem_append_left _ member
  have last : event.isCall = true → app.signedIn ∈ callers signedIn (events ++ [event]) := by
    intro call
    rw [callers_concat, if_pos call, holds.user]
    exact List.mem_append_right _ (List.mem_singleton.mpr rfl)
  cases stepped with
  | quiet noCall photos signs repo accesses saves =>
    have sameCallers : callers signedIn (events ++ [event]) = callers signedIn events := by
      rw [callers_concat, noCall, if_neg Bool.false_ne_true, List.append_nil]
    refine ⟨by rw [signs, holds.user, signedInAfter_concat], ?_, ?_, ?_, ?_, ?_⟩
    · rw [sameCallers, repo, accesses]
      intro noCalls
      obtain ⟨unread, noAccesses⟩ := holds.unread noCalls
      exact ⟨⟨unread.currentUser, unread.images, unread.photos⟩, noAccesses⟩
    · rw [sameCallers, repo, accesses]
      intro user head
      obtain ⟨fixed, inside⟩ := holds.fixed user head
      exact ⟨⟨fixed.currentUser, fixed.images, fixed.photos⟩, inside⟩
    · rw [sameCallers, saves]
      exact holds.saves
    · rw [sameCallers, accesses]
      exact holds.logged
    · rw [sameCallers, accesses]
      exact holds.called
  | image call signs repo imageName accesses saves =>
    obtain ⟨user, head⟩ := exists_head_callers (last call) signedInFirst
    obtain ⟨reference, fixed⟩ := (holds.serves head).1.readImagesReference
    refine holds.extend head signs (repo ▸ fixed) accesses ?_ (last call) (fun _ => rfl) ?_
    · rw [reference]
      exact List.prefix_append _ _
    · intro caller member
      rw [saves, List.mem_append, List.mem_singleton] at member
      rcases member with before | rfl
      · exact earlier caller (holds.saves caller before)
      · exact last call
  | @bean noCall signs reference read caller photoId member accesses saves =>
    have own := earlier caller (holds.saves caller member)
    obtain ⟨user, head⟩ := exists_head_callers own signedInFirst
    obtain ⟨repo, readRoot, fixed⟩ := (holds.serves head).1.readPhotosReference
    rw [readRoot, Except.ok.injEq, Prod.mk.injEq] at read
    refine holds.extend head signs (read.2 ▸ fixed) accesses ?_ own ?_ ?_
    · rw [← read.1]
      exact List.prefix_append _ _
    · intro call
      rw [noCall] at call
      cases call
    · intro caller before
      exact earlier caller (holds.saves caller (saves ▸ before))
  | @load call signs reference read accesses saves =>
    obtain ⟨user, head⟩ := exists_head_callers (last call) signedInFirst
    obtain ⟨repo, readRoot, fixed⟩ := (holds.serves head).1.readPhotosReference
    rw [readRoot, Except.ok.injEq, Prod.mk.injEq] at read
    refine holds.extend head signs (read.2 ▸ fixed) accesses ?_ (last call) (fun _ => rfl) ?_
    · exact read.1 ▸ List.prefix_refl _
    · intro caller before
      exact earlier caller (holds.saves caller (saves ▸ before))
  | refused call read =>
    -- A signed-in user's reference is a valid path.
    obtain ⟨user, head⟩ := exists_head_callers (last call) signedInFirst
    obtain ⟨repo, readRoot, -⟩ := (holds.serves head).1.readPhotosReference
    rw [readRoot] at read
    cases read

end Preservation

/-- The invariant holds along every run whose calls come after a sign-in. -/
theorem App.run_sessionInvariant {foundation : Foundation} {signedIn : Option Uid}
    {storage : List Path} {database : Node} {events : List Event} {final : App}
    (reached : run (App.step foundation) (App.launch signedIn storage database) events =
      some final) (signedInFirst : none ∉ callers signedIn events) :
    SessionInvariant signedIn events final := by
  revert signedInFirst
  refine run_induction (fun events app => none ∉ callers signedIn events →
    SessionInvariant signedIn events app) ?_ ?_ reached
  · rintro -
    refine ⟨rfl, fun _ => ⟨⟨rfl, rfl, rfl⟩, rfl⟩, ?_, ?_, ?_, ?_⟩
    · intro user head
      cases head
    · intro save member
      cases member
    · intro access member
      cases member
    · intro caller member
      cases member
  · intro events event middle target before inductionHypothesis stepped signedInFirst
    refine (inductionHypothesis fun member => signedInFirst ?_).step
      (App.step_accessStep stepped) signedInFirst
    rw [callers_concat]
    exact List.mem_append_left _ member

/-! ### The log is complete -/

/-- Every path an upload, a record or a load of the state has is in the log, a record's and an
upload's with the caller of their save. -/
structure Logged (app : App) : Prop where
  uploads : ∀ save ∈ app.pipeline.saves, ⟨save.caller, .storage, save.reference⟩ ∈ app.accesses
  writing : ∀ save ∈ app.pipeline.saves, ∀ path parameters,
    save.stage = .writing path parameters → ⟨save.caller, .database, path⟩ ∈ app.accesses
  written : ∀ write ∈ app.pipeline.writes, ∃ caller,
    (app.pipeline.saves.map Save.caller)[write.save]? = some caller ∧
      ⟨caller, .database, write.path⟩ ∈ app.accesses
  loads : ∀ reference, some reference ∈ app.loads →
    ∃ caller, ⟨caller, .database, reference⟩ ∈ app.accesses

theorem mem_setSave {pipeline : Pipeline} {index : Nat} {old new save : Save}
    (exists_ : pipeline.saves[index]? = some old)
    (member : save ∈ (pipeline.setSave index new).saves) : save = new ∨ save ∈ pipeline.saves := by
  obtain ⟨other, read⟩ := List.mem_iff_getElem?.mp member
  rcases getElem?_setSave exists_ read with ⟨-, same⟩ | ⟨-, found⟩
  · exact Or.inl same
  · exact Or.inr (List.mem_of_getElem? found)

/-- A step at one save keeps the log complete when it logs what that save now writes. -/
theorem Logged.setSave {app next : App} {index : Nat} {old new : Save} (logged : Logged app)
    (found : app.pipeline.saves[index]? = some old)
    (saves : next.pipeline.saves = (app.pipeline.setSave index new).saves)
    (sameCaller : new.caller = old.caller) (sameReference : new.reference = old.reference)
    (kept : app.accesses ⊆ next.accesses)
    (writing : ∀ path parameters, new.stage = .writing path parameters →
      ⟨new.caller, .database, path⟩ ∈ next.accesses)
    (written : ∀ write ∈ next.pipeline.writes, write ∈ app.pipeline.writes ∨
      (write.save = index ∧ ⟨old.caller, .database, write.path⟩ ∈ app.accesses))
    (loads : next.loads = app.loads) : Logged next where
  uploads save member := by
    rw [saves] at member
    rcases mem_setSave found member with rfl | earlier
    · rw [sameCaller, sameReference]
      exact kept (logged.uploads old (List.mem_of_getElem? found))
    · exact kept (logged.uploads save earlier)
  writing save member := by
    rw [saves] at member
    rcases mem_setSave found member with rfl | earlier
    · exact writing
    · exact fun path parameters stage => kept (logged.writing save earlier path parameters stage)
  written write member := by
    rw [saves, setSave_map Save.caller found sameCaller]
    rcases written write member with earlier | ⟨own, inLog⟩
    · obtain ⟨caller, called, inLog⟩ := logged.written write earlier
      exact ⟨caller, called, kept inLog⟩
    · refine ⟨old.caller, ?_, kept inLog⟩
      rw [own, List.getElem?_map, found, Option.map_some]
  loads reference member := by
    rw [loads] at member
    obtain ⟨caller, inLog⟩ := logged.loads reference member
    exact ⟨caller, kept inLog⟩

theorem Logged.step {foundation : Foundation} {app next : App} {event : Event}
    (logged : Logged app) (stepped : AppStep foundation app event next) : Logged next := by
  have unchanged := List.Subset.refl app.accesses
  cases stepped with
  | authRequest => exact ⟨logged.uploads, logged.writing, logged.written, logged.loads⟩
  | authCompletion pending =>
    exact ⟨logged.uploads, logged.writing, logged.written, logged.loads⟩
  | notEncodable image => exact ⟨logged.uploads, logged.writing, logged.written, logged.loads⟩
  | started encodable read fresh =>
    refine ⟨?_, ?_, ?_, ?_⟩
    · intro save member
      rcases List.mem_append.mp member with earlier | last
      · exact List.mem_append_left _ (logged.uploads save earlier)
      · rw [List.mem_singleton.mp last]
        exact List.mem_append_right _ (List.mem_singleton.mpr rfl)
    · intro save member path parameters stage
      rcases List.mem_append.mp member with earlier | last
      · exact List.mem_append_left _ (logged.writing save earlier path parameters stage)
      · rw [List.mem_singleton.mp last] at stage
        cases stage
    · intro write member
      obtain ⟨caller, called, inLog⟩ := logged.written write member
      refine ⟨caller, ?_, List.mem_append_left _ inLog⟩
      rw [List.map_append, List.getElem?_append_left (List.getElem?_eq_some_iff.mp called).1]
      exact called
    · intro reference member
      obtain ⟨caller, inLog⟩ := logged.loads reference member
      exact ⟨caller, List.mem_append_left _ inLog⟩
  | uploaded found stage =>
    exact logged.setSave found rfl rfl rfl unchanged (fun _ _ stage => by cases stage)
      (fun write member => Or.inl member) rfl
  | lookupFailed found stage =>
    exact logged.setSave found rfl rfl rfl unchanged (fun _ _ stage => by cases stage)
      (fun write member => Or.inl member) rfl
  | lookupTrapped found stage stored refused =>
    exact ⟨logged.uploads, logged.writing, logged.written, logged.loads⟩
  | lookedUp found stage stored issued =>
    refine logged.setSave found rfl rfl rfl (List.subset_append_left _ _) ?_
      (fun write member => Or.inl member) rfl
    intro path parameters stage
    cases stage
    exact List.mem_append_right _ (List.mem_singleton.mpr rfl)
  | writeFailed found stage =>
    exact logged.setSave found rfl rfl rfl unchanged (fun _ _ stage => by cases stage)
      (fun write member => Or.inl member) rfl
  | written found stage =>
    refine logged.setSave found rfl rfl rfl unchanged (fun _ _ stage => by cases stage) ?_ rfl
    intro write member
    rcases List.mem_append.mp member with earlier | last
    · exact Or.inl earlier
    · rw [List.mem_singleton.mp last]
      exact Or.inr ⟨rfl, logged.writing _ (List.mem_of_getElem? found) _ _ stage⟩
  | loadTrapped refused => exact ⟨logged.uploads, logged.writing, logged.written, logged.loads⟩
  | loadStarted read =>
    refine ⟨?_, ?_, ?_, ?_⟩
    · exact fun save member => List.mem_append_left _ (logged.uploads save member)
    · exact fun save member path parameters stage =>
        List.mem_append_left _ (logged.writing save member path parameters stage)
    · intro write member
      obtain ⟨caller, called, inLog⟩ := logged.written write member
      exact ⟨caller, called, List.mem_append_left _ inLog⟩
    · intro reference member
      rcases List.mem_append.mp member with earlier | last
      · obtain ⟨caller, inLog⟩ := logged.loads reference earlier
        exact ⟨caller, List.mem_append_left _ inLog⟩
      · cases List.mem_singleton.mp last
        exact ⟨app.signedIn, List.mem_append_right _ (List.mem_singleton.mpr rfl)⟩
  | snapshotTrapped observed iterated refused =>
    exact ⟨logged.uploads, logged.writing, logged.written, logged.loads⟩
  | loaded observed iterated completed =>
    refine ⟨logged.uploads, logged.writing, logged.written, fun reference member => ?_⟩
    rcases List.mem_or_eq_of_mem_set member with earlier | none
    · exact logged.loads reference earlier
    · cases none

/-- Along every run the log has every path the saves and the loads have. -/
theorem App.run_logged {foundation : Foundation} {signedIn : Option Uid} {storage : List Path}
    {database : Node} {events : List Event} {final : App}
    (reached : run (App.step foundation) (App.launch signedIn storage database) events =
      some final) : Logged final := by
  refine run_invariant Logged ?_ (fun _ _ _ logged stepped => logged.step (App.step_cases stepped))
    reached
  refine ⟨?_, ?_, ?_, ?_⟩
  · exact fun save member => absurd member List.not_mem_nil
  · exact fun save member => absurd member List.not_mem_nil
  · exact fun write member => absurd member List.not_mem_nil
  · exact fun reference member => absurd member List.not_mem_nil

/-! ### Staying inside one user's data -/

/-- Every path a call of `Repo` read or wrote is under the node of the user signed in when the
call was made. -/
def StaysInside (app : App) : Prop :=
  ∀ access ∈ app.accesses, ∃ user, access.caller = some user ∧
    access.service.rootOf user <+: access.path

/-- Then every record of a run is under the node of the user who saved it. -/
theorem StaysInside.written {foundation : Foundation} {signedIn : Option Uid}
    {storage : List Path} {database : Node} {events : List Event} {final : App}
    (inside : StaysInside final)
    (reached : run (App.step foundation) (App.launch signedIn storage database) events =
      some final) {write : Write} (member : write ∈ final.pipeline.writes) :
    ∃ user, (final.pipeline.saves.map Save.caller)[write.save]? = some (some user) ∧
      Service.database.rootOf user <+: write.path := by
  obtain ⟨caller, called, inLog⟩ := (App.run_logged reached).written write member
  obtain ⟨user, same, under⟩ := inside _ inLog
  exact ⟨user, same ▸ called, under⟩

/-- Two users with a common path under their nodes are the same user. -/
theorem Service.rootOf_prefix {service : Service} {first second : Uid} {path : Path}
    (underFirst : service.rootOf first <+: path) (underSecond : service.rootOf second <+: path) :
    first = second := by
  have sameLength : (service.rootOf first).length = (service.rootOf second).length := by
    cases service <;> rfl
  have same := List.prefix_of_prefix_length_le underFirst underSecond sameLength.le
  have equal := same.eq_of_length sameLength
  refine Uid.ext ?_
  cases service <;>
  · rw [Service.rootOf, Service.rootOf, List.cons.injEq, List.cons.injEq] at equal
    exact equal.2.1

/-- The calls of a run stay inside their users' data exactly when one user makes them all. -/
theorem staysInside_iff {foundation : Foundation} {signedIn : Option Uid} {storage : List Path}
    {database : Node} {events : List Event} {final : App}
    (reached : run (App.step foundation) (App.launch signedIn storage database) events =
      some final) (signedInFirst : none ∉ callers signedIn events) :
    StaysInside final ↔
      ∀ first ∈ callers signedIn events, ∀ second ∈ callers signedIn events, first = second := by
  have holds := App.run_sessionInvariant reached signedInFirst
  constructor
  · intro inside
    have fromFirst : ∀ caller ∈ callers signedIn events,
        some caller = (callers signedIn events).head? := by
      intro caller member
      obtain ⟨user, head⟩ := exists_head_callers member signedInFirst
      obtain ⟨access, logged, same⟩ := holds.called caller member
      obtain ⟨own, isOwn, under⟩ := inside access logged
      rw [head, ← same, isOwn]
      exact congrArg (some ∘ some)
        (Service.rootOf_prefix under ((holds.fixed user head).2 access logged))
    intro first member second other
    exact Option.some.inj ((fromFirst first member).trans (fromFirst second other).symm)
  · intro oneCaller access logged
    have member := holds.logged access logged
    obtain ⟨user, head⟩ := exists_head_callers member signedInFirst
    refine ⟨user, ?_, (holds.fixed user head).2 access logged⟩
    exact oneCaller _ member _ (List.mem_of_head? head)

def bob : Uid := ⟨text "bob", by decide, by decide⟩

/-- Ann signs in, saves a photo and loads the stored ones. -/
def annAlone : List Event :=
  [.authRequest, .authCompletion (some ann), .savePhoto lakeWithImage (text "A"), .getAllPhotos]

theorem staysInside_iff_annAlone :
    ∃ final, run (App.step .ascii) (App.launch none [] (.children [])) annAlone = some final ∧
      (StaysInside final ↔ ∀ first ∈ callers none annAlone, ∀ second ∈ callers none annAlone,
        first = second) := by
  have reached : run (App.step .ascii) (App.launch none [] (.children [])) annAlone = some _ := rfl
  exact ⟨_, reached, staysInside_iff reached (by decide)⟩

/-- A second sign-in request is in flight when Ann's completes, and Bob's success follows her
save: Bob loads Ann's photos. -/
def overlappingSignIns : List Event :=
  [.authRequest, .authRequest, .authCompletion (some ann),
    .savePhoto lakeWithImage (text "A"), .authCompletion (some bob), .getAllPhotos]

theorem bob_loads_ann :
    ¬ ∀ (foundation : Foundation) (storage : List Path) (database : Node) (events : List Event)
      (final : App),
      run (App.step foundation) (App.launch none storage database) events = some final →
        none ∉ callers none events → StaysInside final := by
  intro always
  have inside := always .ascii [] (.children []) overlappingSignIns _ rfl (by decide)
  obtain ⟨user, caller, under⟩ :=
    inside ⟨some bob, .database, [text "photos", text "ann"]⟩ (by decide)
  cases caller
  exact absurd under (by decide)

end PhotoMap
