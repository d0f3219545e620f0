/-
This file is about the runs of the pending writes: writes are added, and removed
when the server has acknowledged or rejected them. Along a run the tree of the
writes stays the layer of the recorded ones, provided that no write is removed
before an earlier one above it. What the merged writes make of the server's data
is then what the recorded writes make of it, one after the other.
-/

import PhotoMap.WriteTree
import PhotoMap.Transition

namespace PhotoMap

open Overlay Transition

namespace WriteTree

/-! ### The tree is the layer of the records -/

/-- The tree of the writes is as the client builds it, and is the layer of the recorded writes,
all of them visible. -/
structure Tracks (tree : WriteTree) : Prop where
  wellFormed : tree.visibleWrites.WellFormed
  visible : ∀ record ∈ tree.allWrites, record.visible = true
  formed : ∀ record ∈ tree.allWrites, record.WellFormed
  layered : tree.visibleWrites.writes =
    Writes.layer Node.updateChild (pendingWrites tree.allWrites) Writes.empty

theorem tracks_init : init.Tracks where
  wellFormed := CompoundWrite.wellFormed_emptyWrite
  visible _ member := absurd member List.not_mem_nil
  formed _ member := absurd member List.not_mem_nil
  layered := CompoundWrite.writes_emptyWrite

theorem Tracks.addRecord {tree next : WriteTree} (tracks : tree.Tracks) (record : WriteRecord)
    (visible : record.visible = true) (formed : record.WellFormed)
    (recorded : next.allWrites = tree.allWrites ++ [record])
    (added : next.visibleWrites = WriteTree.addRecord tree.visibleWrites record) :
    next.Tracks := by
  obtain ⟨wellFormed, layered⟩ := tracks.wellFormed.writes_foldl_addWrite formed.writes
  constructor
  · rw [added]
    exact wellFormed
  · rw [recorded]
    exact List.forall_mem_append.mpr ⟨tracks.visible, List.forall_mem_singleton.mpr visible⟩
  · rw [recorded]
    exact List.forall_mem_append.mpr ⟨tracks.formed, List.forall_mem_singleton.mpr formed⟩
  · rw [added, recorded, pendingWrites, List.flatMap_append, Writes.layer_append,
      List.flatMap_singleton, ← pendingWrites, ← tracks.layered]
    exact layered

theorem Tracks.addOverwrite {tree : WriteTree} (tracks : tree.Tracks) {newData : Node}
    (formed : newData.WellFormed) (path : Path) (writeId : Int) :
    (tree.addOverwrite path newData writeId true).Tracks :=
  tracks.addRecord (.overwrite path newData writeId true) rfl formed rfl rfl

theorem Tracks.addMerge {tree : WriteTree} (tracks : tree.Tracks) {changed : CompoundWrite}
    (formed : changed.WellFormed) (path : Path) (writeId : Int) :
    (tree.addMerge path changed writeId).Tracks :=
  tracks.addRecord (.merge path changed writeId) rfl formed rfl (addRecord_merge _ _ _ _).symm

theorem Tracks.removeAllWrites {tree : WriteTree} (_ : tree.Tracks) :
    tree.removeAllWrites.Tracks :=
  ⟨tracks_init.wellFormed, tracks_init.visible, tracks_init.formed, tracks_init.layered⟩

/-- Where a removal is safe: no earlier record from outside the removed one writes above it,
and no record from outside writes below it. -/
def Removable (tree : WriteTree) (writeId : Int) : Prop :=
  ∀ before removed after, Found tree writeId before removed after →
    (∀ record ∈ before, ¬ removed.path <+: record.path →
      record.containsPath removed.path = false) ∧
    ∀ record ∈ before ++ after, ¬ removed.path <+: record.path →
      ∀ write ∈ record.writes, removed.path <+: write.1 → write.1 = removed.path

/-- The first record can be removed when no later one from outside writes below it. -/
theorem removable_of_first {tree : WriteTree} {removed : WriteRecord} {after : List WriteRecord}
    {writeId : Int} (records : tree.allWrites = removed :: after)
    (identified : removed.writeId = writeId)
    (noneBelow : ∀ record ∈ after, ¬ removed.path <+: record.path →
      ∀ write ∈ record.writes, removed.path <+: write.1 → write.1 = removed.path) :
    tree.Removable writeId := by
  rintro before found rest ⟨whole, -, first⟩
  rw [records] at whole
  cases before with
  | nil =>
    obtain ⟨rfl, rfl⟩ := List.cons.inj whole
    exact ⟨fun _ member => absurd member List.not_mem_nil, noneBelow⟩
  | cons record others =>
    have same := (List.cons.inj whole).1
    exact absurd (same ▸ identified) (first record List.mem_cons_self)

theorem writes_removeFromVisibleWrites {visibleWrites : CompoundWrite}
    (wellFormed : visibleWrites.WellFormed) (record : WriteRecord) :
    (removeFromVisibleWrites visibleWrites record).WellFormed ∧
      (removeFromVisibleWrites visibleWrites record).writes =
        Writes.forget (record.writes.map Prod.fst) visibleWrites.writes := by
  have all : ∀ paths : List Path, ∀ visibleWrites : CompoundWrite, visibleWrites.WellFormed →
      (paths.foldl CompoundWrite.removeWriteAtPath visibleWrites).WellFormed ∧
        (paths.foldl CompoundWrite.removeWriteAtPath visibleWrites).writes =
          Writes.forget paths visibleWrites.writes := by
    intro paths
    induction paths with
    | nil => exact fun visibleWrites wellFormed => ⟨wellFormed, (Writes.forget_nil _).symm⟩
    | cons path rest inductionHypothesis =>
      intro visibleWrites wellFormed
      obtain ⟨restFormed, forgotten⟩ := inductionHypothesis _ (wellFormed.removeWriteAtPath path)
      refine ⟨restFormed, forgotten.trans ?_⟩
      rw [Writes.forget_cons, wellFormed.writes_removeWriteAtPath]
  have folded : removeFromVisibleWrites visibleWrites record =
      (record.writes.map Prod.fst).foldl CompoundWrite.removeWriteAtPath visibleWrites := by
    cases record with
    | overwrite path node writeId visible => rfl
    | merge path changed writeId =>
      rw [WriteRecord.writes, List.map_map, List.foldl_map]
      rfl
  rw [folded]
  exact all _ visibleWrites wellFormed

theorem pendingWrites_append (first second : List WriteRecord) :
    pendingWrites (first ++ second) = pendingWrites first ++ pendingWrites second :=
  List.flatMap_append

theorem pendingWrites_cons (record : WriteRecord) (rest : List WriteRecord) :
    pendingWrites (record :: rest) = record.writes ++ pendingWrites rest :=
  List.flatMap_cons

/-- A safe removal keeps the tree the layer of what is recorded. -/
theorem Tracks.removed {tree next : WriteTree} (tracks : tree.Tracks) {writeId : Int}
    {reevaluate : Bool} (removable : tree.Removable writeId)
    (done : tree.removeWriteId writeId = some (next, reevaluate)) : next.Tracks := by
  obtain ⟨before, removed, after, found, recorded, removal⟩ := removeWriteId_eq_some done
  obtain ⟨noneAbove, noneBelow⟩ := removable before removed after found
  have records := found.records
  have kept : ∀ record ∈ before ++ after, record ∈ tree.allWrites := by
    intro record member
    rw [records]
    rcases List.mem_append.mp member with early | late
    · exact List.mem_append_left _ early
    · exact List.mem_append_right _ (List.mem_cons_of_mem _ late)
  have formed : ∀ record ∈ before ++ after, record.WellFormed :=
    fun record member => tracks.formed record (kept record member)
  have visible : ∀ record ∈ before ++ after, record.visible = true :=
    fun record member => tracks.visible record (kept record member)
  have removedMember : removed ∈ tree.allWrites := by
    rw [records]
    exact List.mem_append_right _ List.mem_cons_self
  have removedFormed := tracks.formed removed removedMember
  have layered := tracks.layered
  rw [records, pendingWrites_append, pendingWrites_cons, ← List.append_assoc] at layered
  have writtenBy : ∀ records, ∀ write ∈ pendingWrites records, ∃ record ∈ records,
      write ∈ record.writes := fun records write member => List.mem_flatMap.mp member
  -- what an earlier record writes is not above the place of the removed one
  have notAbove : ∀ write ∈ pendingWrites before, write.1 <+: removed.path →
      write.1 = removed.path := by
    intro write member isPrefix
    obtain ⟨record, recordMember, there⟩ := writtenBy before write member
    by_cases within : removed.path <+: record.path
    · have back := within.trans (WriteRecord.path_prefix write there)
      exact isPrefix.eq_of_length_le back.length_le
    · have contains := WriteRecord.containsPath_iff.mpr ⟨write, there, isPrefix⟩
      rw [noneAbove record recordMember within] at contains
      cases contains
  suffices both : next.visibleWrites.WellFormed ∧ next.visibleWrites.writes =
      Writes.layer Node.updateChild (pendingWrites (before ++ after)) Writes.empty from
    ⟨both.1, recorded ▸ visible, recorded ▸ formed, recorded ▸ both.2⟩
  generalize next.visibleWrites = left at removal
  cases removal with
  | hidden invisible =>
    rw [tracks.visible removed removedMember] at invisible
    cases invisible
  | shadowed later =>
    refine ⟨tracks.wellFormed, layered.trans ?_⟩
    rw [pendingWrites_append]
    refine Writes.layer_covered WriteRecord.path_prefix notAbove ?_
    obtain ⟨record, member, contains⟩ := later
    obtain ⟨write, there, isPrefix⟩ := WriteRecord.containsPath_iff.mp contains
    exact ⟨write, List.mem_flatMap.mpr ⟨record, member, there⟩, isPrefix⟩
  | rebuilt => exact layerTreeFromWrites_root formed
  | taken notShadowed noneWithin =>
    obtain ⟨leftFormed, forgotten⟩ := writes_removeFromVisibleWrites tracks.wellFormed removed
    refine ⟨leftFormed, ?_⟩
    rw [forgotten, layered, pendingWrites_append]
    refine Writes.forget_layer ?_ removedFormed.separate
    intro write member gone goneMember
    rw [← pendingWrites_append] at member
    obtain ⟨record, recordMember, there⟩ := writtenBy _ write member
    have outside := noneWithin record recordMember (visible record recordMember)
    have notContains : ¬ write.1 <+: removed.path := by
      intro isPrefix
      have contains := WriteRecord.containsPath_iff.mpr ⟨write, there, isPrefix⟩
      rcases List.mem_append.mp recordMember with early | late
      · rw [noneAbove record early outside] at contains
        cases contains
      · rw [notShadowed record late (visible record recordMember)] at contains
        cases contains
    have notBelow : ¬ removed.path <+: write.1 := by
      intro isPrefix
      rw [noneBelow record recordMember outside write there isPrefix] at notContains
      exact notContains (List.prefix_refl _)
    have place := WriteRecord.path_prefix gone goneMember
    constructor
    · intro above
      rcases List.prefix_or_prefix_of_prefix above place with isPrefix | isPrefix
      · exact notContains isPrefix
      · exact notBelow isPrefix
    · intro below
      exact notBelow (place.trans below)

/-! ### Runs -/

/-- What the client does to its pending writes. -/
inductive Event where
  | addOverwrite (path : Path) (newData : Node) (writeId : Int) (visible : Bool)
  | addMerge (path : Path) (changedChildren : CompoundWrite) (writeId : Int)
  | removeWriteId (writeId : Int)
  | removeAllWrites

/-- One step. The assertion that identifiers grow does not let an older write in. -/
def step (tree : WriteTree) : Event → Option WriteTree
  | .addOverwrite path newData writeId visible =>
    if tree.lastWriteId < writeId then some (tree.addOverwrite path newData writeId visible)
    else none
  | .addMerge path changedChildren writeId =>
    if tree.lastWriteId < writeId then some (tree.addMerge path changedChildren writeId)
    else none
  | .removeWriteId writeId => (tree.removeWriteId writeId).map Prod.fst
  | .removeAllWrites => some tree.removeAllWrites

/-- Overwrites are visible, as those of `setValue` are, nodes are as the client builds them, and
removals are safe. -/
def Allowed (tree : WriteTree) : Event → Prop
  | .addOverwrite _ newData _ visible => visible = true ∧ newData.WellFormed
  | .addMerge _ changedChildren _ => changedChildren.WellFormed
  | .removeWriteId writeId => tree.Removable writeId
  | .removeAllWrites => True

/-- One allowed step keeps the tree the layer of the records. -/
theorem Tracks.step {tree next : WriteTree} {event : Event} (tracks : tree.Tracks)
    (allowed : tree.Allowed event) (stepped : tree.step event = some next) : next.Tracks := by
  cases event with
  | addOverwrite path newData writeId visible =>
    rw [WriteTree.step, Option.ite_none_right_eq_some, Option.some_inj] at stepped
    obtain ⟨-, rfl⟩ := stepped
    obtain ⟨rfl, formed⟩ := allowed
    exact tracks.addOverwrite formed path writeId
  | addMerge path changedChildren writeId =>
    rw [WriteTree.step, Option.ite_none_right_eq_some, Option.some_inj] at stepped
    obtain ⟨-, rfl⟩ := stepped
    exact tracks.addMerge allowed path writeId
  | removeWriteId writeId =>
    obtain ⟨⟨removed, reevaluate⟩, done, rfl⟩ := Option.map_eq_some_iff.mp stepped
    exact tracks.removed allowed done
  | removeAllWrites =>
    cases stepped
    exact tracks.removeAllWrites

/-- Along a run of allowed steps the tree is the layer of the records. -/
theorem tracks_of_run {events : List Event} {tree : WriteTree}
    (along : Along step Allowed init events) (reached : run step init events = some tree) :
    tree.Tracks :=
  run_invariant_along Tracks tracks_init
    (fun _ _ _ tracks allowed stepped => tracks.step allowed stepped) along reached

/-- A node after the writes of some records, made in their order. -/
def withRecords (records : List WriteRecord) (node : Node) : Node :=
  (pendingWrites records).foldl (fun node write => node.updateChild write.1 write.2) node

/-- The server's data after every pending write. -/
def withPending (tree : WriteTree) (server : Node) : Node := withRecords tree.allWrites server

/-- The server's node is as the client builds it, and no pending write removes data below one
of its leaves. -/
structure Fits (tree : WriteTree) (server : Node) : Prop where
  wellFormed : server.WellFormed
  noLeafAbove : ∀ write ∈ pendingWrites tree.allWrites, write.2.isEmpty = true →
    Data.NoItemAbove server.leafAt write.1

/-- Pending writes that remove nothing fit all data. -/
theorem fits_of_stored {tree : WriteTree} {server : Node} (wellFormed : server.WellFormed)
    (stored : ∀ write ∈ pendingWrites tree.allWrites, write.2.isEmpty = false) :
    tree.Fits server :=
  ⟨wellFormed, fun write member nothing => absurd nothing (by rw [stored write member]; nofun)⟩

theorem wellFormed_pendingWrites {records : List WriteRecord}
    (formed : ∀ record ∈ records, record.WellFormed) :
    ∀ write ∈ pendingWrites records, write.2.WellFormed := by
  intro write member
  obtain ⟨record, recordMember, there⟩ := List.mem_flatMap.mp member
  exact (formed record recordMember).writes write there

theorem wellFormed_withRecords {records : List WriteRecord} {node : Node}
    (nodeFormed : node.WellFormed) (formed : ∀ record ∈ records, record.WellFormed) :
    (withRecords records node).WellFormed :=
  nodeFormed.foldl_updateChild (wellFormed_pendingWrites formed)

theorem leafAt_withRecords {records : List WriteRecord} {node : Node}
    (nodeFormed : node.WellFormed) (formed : ∀ record ∈ records, record.WellFormed) :
    (withRecords records node).leafAt =
      Data.afterAll Node.leafAt (pendingWrites records) node.leafAt :=
  nodeFormed.leafAt_foldl_updateChild (wellFormed_pendingWrites formed)

/-- No write of the records removes a leaf of the server above it. -/
theorem Fits.safe {tree : WriteTree} {server : Node} (fits : tree.Fits server)
    (formed : ∀ record ∈ tree.allWrites, record.WellFormed) :
    Data.Safe Node.leafAt (pendingWrites tree.allWrites) server.leafAt :=
  fun write member nothing => fits.noLeafAbove write member
    ((wellFormed_pendingWrites formed write member).isEmpty_iff.mpr nothing)

/-- Reading the server's data through the tree is reading it after the pending writes. -/
theorem Tracks.overlaid_eq {tree : WriteTree} (tracks : tree.Tracks) {server : Node}
    (fits : tree.Fits server) (path : Path) :
    Writes.overlaid Node.leafAt path tree.visibleWrites.writes server.leafAt =
      (tree.withPending server).leafAt path := by
  have overlaid := Writes.overlaid_layer_empty Node.lawful (wellFormed_pendingWrites tracks.formed)
    (fits.safe tracks.formed)
  rw [← tracks.layered] at overlaid
  rw [withPending, leafAt_withRecords fits.wellFormed tracks.formed, ← overlaid]

/-- A photo of the lake is named, its hashtags are removed, and the name is acknowledged. -/
def lakeWrites : List Event :=
  [.addOverwrite [text "lake", text "name"] (.leaf (.string (text "Lake"))) 0 true,
    .addOverwrite [text "lake", text "hashtags"] .emptyNode 1 true,
    .removeWriteId 0]

/-- The server's data, with hashtags. -/
def lakeServer : Node :=
  .children [⟨text "lake", .children [⟨text "hashtags", .leaf (.string (text "#calm"))⟩]⟩]

/-- The removal is left, the name is acknowledged. -/
def lakeTree : WriteTree where
  visibleWrites := CompoundWrite.emptyWrite.addWrite .emptyNode [text "lake", text "hashtags"]
  allWrites := [.overwrite [text "lake", text "hashtags"] .emptyNode 1 true]
  lastWriteId := 1

theorem run_lakeWrites : run step init lakeWrites = some lakeTree := rfl

theorem along_lakeWrites : Along step Allowed init lakeWrites := by
  refine along_cons_of_eq ⟨rfl, .leaf _⟩ rfl (along_cons_of_eq ⟨rfl, Node.wellFormed_emptyNode⟩ rfl
    (along_cons_of_eq (removable_of_first rfl rfl ?_) rfl trivial))
  intro record member outside write there isPrefix
  obtain rfl := List.mem_singleton.mp member
  obtain rfl := List.mem_singleton.mp there
  exact absurd isPrefix (by decide)

theorem fits_lakeTree : lakeTree.Fits lakeServer where
  wellFormed := by
    refine .children _ (List.nodupKeys_singleton _) (List.forall_mem_singleton.mpr rfl)
      (List.forall_mem_singleton.mpr (.children _ (List.nodupKeys_singleton _)
        (List.forall_mem_singleton.mpr rfl) (List.forall_mem_singleton.mpr (.leaf _))))
  noLeafAbove write member _ := by
    obtain rfl := List.mem_singleton.mp member
    intro above isPrefix different
    have inits : above ∈ [text "lake", text "hashtags"].inits := (List.mem_inits _ _).mpr isPrefix
    rcases List.mem_cons.mp inits with rfl | inits
    · rfl
    · rcases List.mem_cons.mp inits with rfl | inits
      · rfl
      · exact absurd (List.mem_singleton.mp inits) different

end WriteTree

end PhotoMap
