/-
This file follows `Repo.photosForDownload` through repeated loads. The list
lives in the one `Repo` of the process and every completion of `getAllPhotos`
appends a whole snapshot to it, so after `n` loads of the same records it holds
each of them `n` times: loading again changes nothing only when nothing is
stored, or when the load is the first one. After a save of the program itself
no load is right, since the record it stores is not one the decoder accepts.
-/

import PhotoMap.StoredPhotos

namespace PhotoMap

/-! ### Runs of loads -/

/-- The list after a number of completed loads of one snapshot value. -/
inductive Loads (value : Value) : Nat → List Photo → List Photo → Prop where
  | zero (photos : List Photo) : Loads value 0 photos photos
  | succ {count : Nat} {before middle after : List Photo} {delivered : Value}
      (earlier : Loads value count before middle) (iterated : Delivered value delivered)
      (loaded : Repo.getAllPhotos middle delivered = .ok after) :
      Loads value (count + 1) before after

/-- A set of stored photos every load can decode: records under keys that are not
array-like. -/
structure StoredSet (foundation : Foundation) where
  kids : List (Σ _ : Text, Node)
  records : List (Σ _ : Text, Record)
  stored : StoredAs foundation kids records
  distinct : kids.NodupKeys
  strings : kids ≠ [] → ¬ foundation.ArrayLike kids.keys

namespace StoredSet

variable {foundation : Foundation}

def value (set : StoredSet foundation) : Value := foundation.val (.children set.kids)

/-- One photo for each stored record, with its current fields. -/
def photos (set : StoredSet foundation) : List Photo := photosOf set.records

theorem photos_eq_nil (set : StoredSet foundation) : set.photos = [] ↔ set.kids = [] := by
  have keys := congrArg List.length set.stored.keys
  simp only [List.keys, List.length_map] at keys
  rw [photos, photosOf, List.map_eq_nil_iff, ← List.length_eq_zero_iff,
    ← List.length_eq_zero_iff, keys]

theorem photos_id_nodup (set : StoredSet foundation) : (set.photos.map Photo.id).Nodup := by
  rw [photos, photosOf_id, ← set.stored.keys]
  exact set.distinct.map (Option.some_injective _)

/-- What a number of loads add to the list. -/
def copies (set : StoredSet foundation) (count : Nat) : List Photo :=
  (List.replicate count set.photos).flatten

theorem copies_succ (set : StoredSet foundation) (count : Nat) :
    set.copies (count + 1) = set.copies count ++ set.photos := by
  rw [copies, copies, List.replicate_succ', List.flatten_append]
  simp

theorem copies_length (set : StoredSet foundation) (count : Nat) :
    (set.copies count).length = count * set.photos.length := by
  induction count with
  | zero => rw [Nat.zero_mul]; rfl
  | succ count inductionHypothesis =>
    rw [copies_succ, List.length_append, inductionHypothesis, Nat.succ_mul]

/-- Every completed load appends one photo for each record. -/
theorem loads_perm (set : StoredSet foundation) {count : Nat} {before after : List Photo}
    (loads : Loads set.value count before after) : after.Perm (before ++ set.copies count) := by
  induction loads with
  | zero photos =>
    rw [copies, List.replicate_zero, List.flatten_nil, List.append_nil]
  | @succ count before middle after delivered _ iterated loaded inductionHypothesis =>
    obtain ⟨appended, completed, same⟩ := set.stored.getAllPhotos set.strings middle iterated
    rw [completed, Except.ok.injEq] at loaded
    rw [← loaded, copies_succ, ← List.append_assoc]
    exact inductionHypothesis.append same

/-- No load of the set traps. -/
theorem loads_exists (set : StoredSet foundation) (count : Nat) (before : List Photo) :
    ∃ after, Loads set.value count before after := by
  induction count with
  | zero => exact ⟨before, Loads.zero before⟩
  | succ count inductionHypothesis =>
    obtain ⟨middle, earlier⟩ := inductionHypothesis
    obtain ⟨appended, completed, -⟩ :=
      set.stored.getAllPhotos set.strings middle (Or.inl rfl)
    exact ⟨_, Loads.succ earlier (Or.inl rfl) completed⟩

/-! ### Loading again -/

/-- After earlier loads of the same set, several loads leave the photos one load leaves, and no
two of the same identifier. -/
def LoadsAgain (set : StoredSet foundation) (earlier count : Nat) : Prop :=
  ∀ start once again, Loads set.value earlier [] start → Loads set.value 1 start once →
    Loads set.value count start again → again.Perm once ∧ (again.map Photo.id).Nodup

/-- After earlier loads of the old set and a change of the store to the new one, a load leaves
one photo for each record of the new set. -/
def LoadsChanged (old new : StoredSet foundation) (earlier : Nat) : Prop :=
  ∀ start after, Loads old.value earlier [] start → Loads new.value 1 start after →
    after.Perm new.photos

theorem loadsAgain_iff (set : StoredSet foundation) (earlier count : Nat) (some : 1 ≤ count) :
    set.LoadsAgain earlier count ↔ set.kids = [] ∨ (earlier = 0 ∧ count = 1) := by
  constructor
  · intro again
    by_contra neither
    rw [not_or] at neither
    obtain ⟨start, before⟩ := set.loads_exists earlier []
    obtain ⟨once, first⟩ := set.loads_exists 1 start
    obtain ⟨last, repeated⟩ := set.loads_exists count start
    obtain ⟨same, distinct⟩ := again start once last before first repeated
    have nonempty : 0 < set.photos.length := by
      rw [List.length_pos_iff, Ne, photos_eq_nil]
      exact neither.1
    have lengths := same.length_eq
    rw [(set.loads_perm repeated).length_eq, (set.loads_perm first).length_eq,
      List.length_append, List.length_append, copies_length, copies_length, Nat.one_mul,
      Nat.add_left_cancel_iff] at lengths
    have single : count = 1 := Nat.eq_of_mul_eq_mul_right nonempty (by rw [lengths, Nat.one_mul])
    have loadedBefore : earlier ≠ 0 := fun zero => neither.2 ⟨zero, single⟩
    -- Every photo of an earlier load is appended once more.
    obtain ⟨photo, member⟩ := List.exists_mem_of_length_pos nonempty
    have inStart : photo ∈ start := by
      rw [(set.loads_perm before).mem_iff, List.nil_append, copies, List.mem_flatten]
      exact ⟨set.photos, List.mem_replicate.mpr ⟨loadedBefore, rfl⟩, member⟩
    have split : last.Perm (start ++ set.photos) := by
      have perm := set.loads_perm repeated
      rwa [single, copies_succ, copies, List.replicate_zero, List.flatten_nil,
        List.nil_append] at perm
    rw [(split.map Photo.id).nodup_iff, List.map_append, List.nodup_append] at distinct
    exact distinct.2.2 photo.id (List.mem_map_of_mem inStart) photo.id
      (List.mem_map_of_mem member) rfl
  · rintro (empty | ⟨rfl, rfl⟩) start once again before first repeated
    · have noPhotos := set.photos_eq_nil.mpr empty
      have nothing : ∀ number, set.copies number = [] := by
        intro number
        rw [← List.length_eq_zero_iff, copies_length, noPhotos, List.length_nil, Nat.mul_zero]
      have started := set.loads_perm before
      have firstPerm := set.loads_perm first
      have lastPerm := set.loads_perm repeated
      rw [nothing, List.append_nil] at started firstPerm lastPerm
      refine ⟨lastPerm.trans firstPerm.symm, ?_⟩
      rw [((lastPerm.trans started).map Photo.id).nodup_iff]
      exact List.nodup_nil
    · have firstPerm := set.loads_perm first
      have lastPerm := set.loads_perm repeated
      refine ⟨lastPerm.trans firstPerm.symm, ?_⟩
      have started := set.loads_perm before
      rw [copies, List.replicate_zero, List.flatten_nil, List.append_nil, List.perm_nil] at started
      rw [started, List.nil_append, copies_succ, copies, List.replicate_zero, List.flatten_nil,
        List.nil_append] at lastPerm
      rw [(lastPerm.map Photo.id).nodup_iff]
      exact set.photos_id_nodup

theorem loadsChanged_iff (old new : StoredSet foundation) (earlier : Nat) :
    old.LoadsChanged new earlier ↔ old.kids = [] ∨ earlier = 0 := by
  have leftover : ∀ start after, Loads old.value earlier [] start →
      Loads new.value 1 start after →
        after.length = earlier * old.photos.length + new.photos.length := by
    intro start after before changed
    rw [(new.loads_perm changed).length_eq, List.length_append,
      (old.loads_perm before).length_eq, List.nil_append, copies_length, copies_length,
      Nat.one_mul]
  constructor
  · intro loads
    obtain ⟨start, before⟩ := old.loads_exists earlier []
    obtain ⟨after, changed⟩ := new.loads_exists 1 start
    have lengths := (loads start after before changed).length_eq
    rw [leftover start after before changed, Nat.add_eq_right, Nat.mul_eq_zero,
      List.length_eq_zero_iff, photos_eq_nil] at lengths
    exact lengths.symm
  · intro nothing start after before changed
    have noCopies : old.copies earlier = [] := by
      rw [← List.length_eq_zero_iff, copies_length, Nat.mul_eq_zero, List.length_eq_zero_iff,
        photos_eq_nil]
      exact nothing.symm
    have started := old.loads_perm before
    rw [noCopies, List.append_nil, List.perm_nil] at started
    have perm := new.loads_perm changed
    rwa [started, List.nil_append, copies_succ, copies, List.replicate_zero, List.flatten_nil,
      List.nil_append] at perm

/-! ### After a save of the program -/

/-- The user's node after `setValue` stored the encoder's dictionary under a key. -/
def afterSave (set : StoredSet foundation) (key : Text) (entries : Entries) : Node :=
  (Node.children set.kids).updateChild [key] (savedNode entries)

theorem afterSave_eq (set : StoredSet foundation) (key : Text) {photo : Photo}
    {entries : Entries} (encoded : Repo.parametersForFB photo = .ok entries) :
    set.afterSave key entries = .children (set.kids.kinsert key (savedNode entries)) := by
  simp only [afterSave, Node.updateChild, Node.updateImmediateChild, savedNode_isEmpty encoded,
    Bool.false_eq_true, if_false]

/-- Only stored keys are among the identifiers after loads. -/
theorem loads_id_mem (set : StoredSet foundation) {count : Nat} {start : List Photo}
    (loads : Loads set.value count [] start) {key : Text}
    (member : some key ∈ start.map Photo.id) : key ∈ set.kids.keys := by
  rw [((set.loads_perm loads).map Photo.id).mem_iff, List.nil_append, List.mem_map] at member
  obtain ⟨photo, loaded, identified⟩ := member
  rw [copies, List.mem_flatten] at loaded
  obtain ⟨copy, isCopy, loaded⟩ := loaded
  rw [(List.mem_replicate.mp isCopy).2] at loaded
  have known : some key ∈ set.photos.map Photo.id :=
    List.mem_map.mpr ⟨photo, loaded, identified⟩
  rw [photos, photosOf_id, ← set.stored.keys, List.mem_map] at known
  obtain ⟨stored, member, same⟩ := known
  exact Option.some.inj same ▸ member

/-- A load after a save of the program never ends with one photo for each key: a dictionary
traps at the saved record, and an array is dropped. -/
theorem not_loads_afterSave (set : StoredSet foundation) {earlier : Nat} {photo : Photo}
    {entries : Entries} {key : Text} {start after : List Photo}
    (encoded : Repo.parametersForFB photo = .ok entries)
    (before : Loads set.value earlier [] start)
    (loaded : Loads (foundation.val (set.afterSave key entries)) 1 start after) :
    ¬ (after.map Photo.id).Perm ((set.afterSave key entries).keys.map some) := by
  rw [set.afterSave_eq key encoded] at loaded ⊢
  obtain ⟨delivered, iterated, completed⟩ : ∃ delivered,
      Delivered (foundation.val (.children (set.kids.kinsert key (savedNode entries))))
        delivered ∧ Repo.getAllPhotos start delivered = .ok after := by
    cases loaded with
    | succ earlier iterated completed =>
      cases earlier
      exact ⟨_, iterated, completed⟩
  have stored : set.kids.kinsert key (savedNode entries) ≠ [] := List.cons_ne_nil _ _
  by_cases likeArray : foundation.ArrayLike (set.kids.kinsert key (savedNode entries)).keys
  · obtain ⟨items, exported⟩ := foundation.val_array _ stored likeArray
    rw [exported] at iterated
    have dropped : after = start := by
      rcases iterated with rfl | ⟨entries, order, isDictionary, -, -⟩
      · exact (Except.ok.inj completed).symm
      · cases isDictionary
    intro complete
    rw [dropped] at complete
    have known : key ∈ set.kids.keys := by
      refine set.loads_id_mem before (complete.mem_iff.mpr ?_)
      exact List.mem_map_of_mem (List.mem_keys_kinsert.mpr (Or.inl rfl))
    refine set.strings ?_ (likeArray.perm ?_)
    · intro empty
      rw [empty] at known
      cases known
    · refine (List.perm_ext_iff_of_nodup (List.kinsert_nodupKeys _ _ set.distinct)
        set.distinct).mpr fun other => ?_
      rw [List.mem_keys_kinsert, or_iff_right_of_imp]
      rintro rfl
      exact known
  · rw [foundation.val_dictionary _ stored likeArray] at iterated
    have malformed : ¬ Decodes (foundation.val (savedNode entries)) := by
      rw [val_savedNode foundation encoded]
      intro decodes
      exact Record.ofEntries?_ne_none.mpr (decodes entries rfl)
        (Repo.parametersForFB_malformed encoded)
    obtain ⟨order, rfl, same⟩ : ∃ order, delivered = .dictionary order ∧
        order.Perm (foundation.vals (set.kids.kinsert key (savedNode entries))) := by
      rcases iterated with rfl | ⟨entries, order, exported, rfl, same⟩
      · exact ⟨_, rfl, List.Perm.refl _⟩
      · rw [Value.dictionary.injEq] at exported
        exact ⟨order, rfl, exported ▸ same⟩
    refine absurd ((Repo.getAllPhotos_dictionary_eq_ok.mp completed).1
      ⟨key, foundation.val (savedNode entries)⟩ (same.mem_iff.mpr ?_)) malformed
    rw [List.kinsert_def]
    exact List.mem_cons_self

/-! ### When loading again changes nothing -/

/-- The photo of the lake under an automatic key. -/
def lake : StoredSet .ascii where
  kids := [⟨text "-La", lakeNode⟩]
  records := [⟨text "-La", lakeRecord⟩]
  stored := storedAs_lake _
  distinct := List.nodupKeys_singleton _
  strings := by
    rintro - likeArray
    obtain ⟨number, integer, -⟩ := likeArray (text "-La") List.mem_cons_self
    have string : Foundation.ascii.integerKey? (text "-La") = none := by decide
    rw [string] at integer
    cases integer

end StoredSet

end PhotoMap
