/-
This file follows the stored photos through one whole load: from the nodes
under the user's path, through the value a snapshot makes of them, to the list
the program keeps. A snapshot of array-like keys arrives as an array, which the
program takes for null, so a single photo under the key `1` is never loaded.
-/

import PhotoMap.Load

namespace PhotoMap

/-! ### Nodes that hold records -/

/-- A node whose children are the six fields of a record, each in its type. -/
def HoldsRecord (foundation : Foundation) (node : Node) (record : Record) : Prop :=
  ∃ fields, node = .children fields ∧
    Record.ofEntries? (foundation.vals fields) = some record ∧ record.title ≠ none

/-- The children of the user's node, each holding a record. -/
abbrev StoredAs (foundation : Foundation) (kids : List (Σ _ : Text, Node))
    (records : List (Σ _ : Text, Record)) : Prop :=
  List.Forall₂ (fun kid entry => kid.1 = entry.1 ∧ HoldsRecord foundation kid.2 entry.2)
    kids records

/-- The photos of the records, one for each key. -/
def photosOf (records : List (Σ _ : Text, Record)) : List Photo :=
  records.map fun entry => entry.2.photo entry.1

theorem imageURLFB_string (foundation : Foundation) :
    foundation.integerKey? Repo.imageURLFB = none :=
  foundation.integerKey?_letter 'i' (by decide) _

/-- The fields of a record are handed out as a dictionary: the key of the image URL is not an
integer. -/
theorem HoldsRecord.val {foundation : Foundation} {node : Node} {record : Record}
    (holds : HoldsRecord foundation node record) :
    ∃ properties, foundation.val node = .dictionary properties ∧
      Record.ofEntries? properties = some record := by
  obtain ⟨fields, rfl, decoded, -⟩ := holds
  have required := Record.ofEntries?_ne_none.mp (by rw [decoded]; exact Option.some_ne_none _)
  have member : Repo.imageURLFB ∈ fields.keys := by
    rw [← foundation.keys_vals fields]
    by_contra missing
    refine required.1 ?_
    rw [field, List.dlookup_eq_none.mpr missing, Option.bind_none]
  refine ⟨_, foundation.val_dictionary fields ?_ fun likeArray => ?_, decoded⟩
  · rintro rfl
    cases member
  · obtain ⟨number, integer, -⟩ := likeArray _ member
    rw [imageURLFB_string] at integer
    cases integer

theorem StoredAs.keys {foundation : Foundation} {kids : List (Σ _ : Text, Node)}
    {records : List (Σ _ : Text, Record)} (stored : StoredAs foundation kids records) :
    kids.keys = records.keys := by
  induction stored with
  | nil => rfl
  | cons head _ inductionHypothesis =>
    rw [List.keys_cons, List.keys_cons, head.1, inductionHypothesis]

theorem StoredAs.decodes {foundation : Foundation} {kids : List (Σ _ : Text, Node)}
    {records : List (Σ _ : Text, Record)} (stored : StoredAs foundation kids records) :
    ∀ entry ∈ foundation.vals kids, Decodes entry.2 := by
  induction stored with
  | nil =>
    intro entry member
    cases member
  | cons head _ inductionHypothesis =>
    intro entry member
    rcases List.mem_cons.mp member with rfl | member
    · intro properties isDictionary
      obtain ⟨fields, exported, decoded⟩ := head.2.val
      rw [exported, Value.dictionary.injEq] at isDictionary
      subst isDictionary
      exact Record.ofEntries?_ne_none.mp (by rw [decoded]; exact Option.some_ne_none _)
    · exact inductionHypothesis entry member

theorem StoredAs.recordedPhotos {foundation : Foundation} {kids : List (Σ _ : Text, Node)}
    {records : List (Σ _ : Text, Record)} (stored : StoredAs foundation kids records) :
    PhotoMap.recordedPhotos (foundation.vals kids) = photosOf records := by
  induction stored with
  | nil => rfl
  | @cons kid entry kids entries head _ inductionHypothesis =>
    obtain ⟨properties, exported, decoded⟩ := head.2.val
    have found : Record.ofValue? (foundation.val kid.2) = some entry.2 := by
      rw [exported]
      exact decoded
    rw [Foundation.vals, PhotoMap.recordedPhotos, List.filterMap_cons, photosOf, List.map_cons]
    simp only [found, Option.map_some, head.1]
    exact congrArg _ inductionHypothesis

theorem photosOf_id (records : List (Σ _ : Text, Record)) :
    (photosOf records).map Photo.id = records.keys.map some := by
  simp only [photosOf, List.keys, List.map_map]
  rfl

/-! ### The node a save stores -/

/-- The node of the encoder's dictionary. -/
def savedNode (entries : Entries) : Node := (Value.dictionary entries).nodeFrom

theorem savedNode_isEmpty {photo : Photo} {entries : Entries}
    (encoded : Repo.parametersForFB photo = .ok entries) :
    (savedNode entries).isEmpty = false := by
  obtain ⟨name, timestamp, -, -, rfl⟩ := Repo.parametersForFB_eq_ok.mp encoded
  rfl

/-- The dictionary that is read back from the node is the one that was set. -/
theorem val_savedNode (foundation : Foundation) {photo : Photo} {entries : Entries}
    (encoded : Repo.parametersForFB photo = .ok entries) :
    foundation.val (savedNode entries) = .dictionary entries := by
  obtain ⟨name, timestamp, -, -, rfl⟩ := Repo.parametersForFB_eq_ok.mp encoded
  refine foundation.val_dictionary _ (List.cons_ne_nil _ _) fun likeArray => ?_
  obtain ⟨number, integer, -⟩ := likeArray Repo.nameFB List.mem_cons_self
  have string : foundation.integerKey? Repo.nameFB = none :=
    foundation.integerKey?_letter 't' (by decide) _
  rw [string] at integer
  cases integer

/-! ### One load -/

/-- The value the callback iterates over: a dictionary is iterated in some order. -/
def Delivered (value delivered : Value) : Prop :=
  delivered = value ∨
    ∃ entries order, value = .dictionary entries ∧ delivered = .dictionary order ∧
      order.Perm entries

/-- A load from the empty list ends, whatever the order of the iteration, with exactly one
photo for each key, which carries the fields of its record. -/
def LoadsCompletely (foundation : Foundation) (kids : List (Σ _ : Text, Node))
    (records : List (Σ _ : Text, Record)) : Prop :=
  ∀ delivered, Delivered (foundation.val (.children kids)) delivered →
    ∃ loaded, Repo.getAllPhotos [] delivered = .ok loaded ∧
      loaded.Perm (photosOf records) ∧ (loaded.map Photo.id).Nodup

/-- Records under keys that are not array-like are all appended. -/
theorem StoredAs.getAllPhotos {foundation : Foundation} {kids : List (Σ _ : Text, Node)}
    {records : List (Σ _ : Text, Record)} (stored : StoredAs foundation kids records)
    (strings : kids ≠ [] → ¬ foundation.ArrayLike kids.keys) (before : List Photo)
    {delivered : Value} (iterated : Delivered (foundation.val (.children kids)) delivered) :
    ∃ loaded, Repo.getAllPhotos before delivered = .ok (before ++ loaded) ∧
      loaded.Perm (photosOf records) := by
  by_cases empty : kids = []
  · subst empty
    cases stored
    have null : delivered = .null := by
      rcases iterated with rfl | ⟨entries, order, exported, -, -⟩
      · rfl
      · cases exported
    subst null
    exact ⟨[], congrArg Except.ok (List.append_nil before).symm, List.Perm.refl _⟩
  · rw [foundation.val_dictionary kids empty (strings empty)] at iterated
    obtain ⟨order, rfl, same⟩ : ∃ order, delivered = .dictionary order ∧
        order.Perm (foundation.vals kids) := by
      rcases iterated with rfl | ⟨entries, order, exported, rfl, same⟩
      · exact ⟨_, rfl, List.Perm.refl _⟩
      · rw [Value.dictionary.injEq] at exported
        exact ⟨order, rfl, exported ▸ same⟩
    refine ⟨PhotoMap.recordedPhotos order, Repo.getAllPhotos_dictionary_eq_ok.mpr
      ⟨fun entry member => stored.decodes entry (same.mem_iff.mp member), rfl⟩, ?_⟩
    rw [← stored.recordedPhotos]
    exact same.filterMap _

/-- Records under array-like keys arrive as an array, and none of them is appended. -/
theorem StoredAs.not_loadsCompletely {foundation : Foundation}
    {kids : List (Σ _ : Text, Node)} {records : List (Σ _ : Text, Record)}
    (stored : StoredAs foundation kids records) (nonempty : kids ≠ [])
    (likeArray : foundation.ArrayLike kids.keys) :
    ¬ LoadsCompletely foundation kids records := by
  intro complete
  obtain ⟨items, exported⟩ := foundation.val_array kids nonempty likeArray
  obtain ⟨loaded, appended, same, -⟩ := complete (.array items) (Or.inl exported.symm)
  have nothing : loaded = [] := (Except.ok.inj appended).symm
  rw [nothing, List.nil_perm, photosOf, List.map_eq_nil_iff] at same
  subst same
  cases stored
  exact nonempty rfl

/-- A load is complete exactly when the keys are not array-like: one of them is not an integer,
or the largest is at least twice their number. -/
theorem loadsCompletely_iff (foundation : Foundation) (kids : List (Σ _ : Text, Node))
    (records : List (Σ _ : Text, Record)) (stored : StoredAs foundation kids records)
    (nonempty : kids ≠ []) (distinct : kids.NodupKeys) :
    LoadsCompletely foundation kids records ↔
      (∃ key ∈ kids.keys, foundation.integerKey? key = none) ∨
        ∃ key ∈ kids.keys, ∃ number, foundation.integerKey? key = some number ∧
          2 * (kids.keys.length : ℤ) ≤ number.toInt := by
  rw [← foundation.not_arrayLike_iff]
  constructor
  · intro complete likeArray
    exact stored.not_loadsCompletely nonempty likeArray complete
  · intro notArrayLike delivered iterated
    obtain ⟨loaded, appended, same⟩ := stored.getAllPhotos (fun _ => notArrayLike) [] iterated
    refine ⟨loaded, appended, same, ?_⟩
    rw [(same.map Photo.id).nodup_iff, photosOf_id, ← stored.keys]
    exact distinct.map (Option.some_injective _)

/-- The node of a stored photo of the lake. -/
def lakeNode : Node :=
  .children
    [⟨text "category", .leaf (.string (text "Nature"))⟩,
      ⟨text "imageurl", .leaf (.string (text "https://images/lake"))⟩,
      ⟨text "latitude", .leaf (.integer 53)⟩,
      ⟨text "longitude", .leaf (.integer 27)⟩,
      ⟨text "timestamp", .leaf (.integer 1393570216)⟩,
      ⟨text "title", .leaf (.string (text "lake #blue"))⟩]

def lakeRecord : Record where
  title := some (text "lake #blue")
  imageurl := text "https://images/lake"
  timestamp := 1393570216
  latitude := .ofInt64 53
  longitude := .ofInt64 27
  category := text "Nature"

theorem lakeNode_holdsRecord : HoldsRecord .ascii lakeNode lakeRecord :=
  ⟨_, rfl, rfl, by decide⟩

theorem storedAs_lake (key : Text) :
    StoredAs .ascii [⟨key, lakeNode⟩] [⟨key, lakeRecord⟩] :=
  List.Forall₂.cons ⟨rfl, lakeNode_holdsRecord⟩ List.Forall₂.nil

/-- Under an automatic key the photo is loaded. -/
theorem loadsCompletely_iff_lake :
    LoadsCompletely .ascii [⟨text "-La", lakeNode⟩] [⟨text "-La", lakeRecord⟩] ↔
      (∃ key ∈ [text "-La"], Foundation.ascii.integerKey? key = none) ∨
        ∃ key ∈ [text "-La"], ∃ number, Foundation.ascii.integerKey? key = some number ∧
          2 * ([text "-La"].length : ℤ) ≤ number.toInt :=
  loadsCompletely_iff .ascii _ _ (storedAs_lake _) (List.cons_ne_nil _ _)
    (List.nodupKeys_singleton _)

/-- Under the key the program itself chooses it is not. -/
theorem load_misses_photo_one :
    ¬ ∀ (foundation : Foundation) (kids : List (Σ _ : Text, Node))
      (records : List (Σ _ : Text, Record)), StoredAs foundation kids records → kids ≠ [] →
        kids.NodupKeys → LoadsCompletely foundation kids records := by
  intro always
  have likeArray : Foundation.ascii.ArrayLike [text "1"] := by
    intro key member
    rw [List.mem_singleton.mp member]
    exact ⟨1, by decide, by decide⟩
  exact (storedAs_lake (text "1")).not_loadsCompletely (List.cons_ne_nil _ _) likeArray
    (always .ascii _ _ (storedAs_lake (text "1")) (List.cons_ne_nil _ _)
      (List.nodupKeys_singleton _))

end PhotoMap
