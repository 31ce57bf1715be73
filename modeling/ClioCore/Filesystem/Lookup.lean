import ClioCore.Filesystem.Files
import ClioCore.Cte.TagBindings

/-!
# Finding and creating the tag of a path

A path is found by walking from the root, one binding for each component, and creating it adds the
bindings that are missing.  Creation never takes a binding away (`Extends`), so a path that is found
stays found under the same id whatever else is created, and creating it again changes nothing.
-/

namespace ClioCore.Filesystem

open Foundations Cte Option TagTable

/-- Every binding and every tag of `t` is in `u`. -/
structure Extends (t u : TagTable) : Prop where
  names : ∀ key id, t.names.lookup key = some id → u.names.lookup key = some id
  has : ∀ id, t.Has id → u.Has id

variable {t u v : TagTable}

lemma Extends.refl (t : TagTable) : Extends t t := ⟨fun _ _ h => h, fun _ h => h⟩

lemma Extends.trans (h : Extends t u) (h' : Extends u v) : Extends t v :=
  ⟨fun key id hk => h'.names key id (h.names key id hk), fun id hid => h'.has id (h.has id hid)⟩

lemma extends_addTag {name : String} (hnm : t.names.lookup name = none) (id : TagId) :
    Extends t (t.addTag name id) := by
  constructor
  · intro key id' hkey
    obtain rfl | hne := eq_or_ne key name
    · simp [hnm] at hkey
    · show (t.names.insert name id).lookup key = some id'
      rwa [AList.lookup_insert_ne hne]
  · intro id' hid
    exact hid.addTag name id

/-- A name that is bound to a tag keeps its tag, and a new name gets the next id. -/
lemma getOrAssignTagId_null (t : TagTable) (name : String) :
    t.getOrAssignTagId name .null = match t.names.lookup name with
      | some id => (id, t)
      | none => (t.generateNewTagId.1, t.generateNewTagId.2.addTag name t.generateNewTagId.1) := by
  unfold getOrAssignTagId
  cases t.names.lookup name with
  | some id => rfl
  | none => simp

lemma extends_getOrAssignTagId (t : TagTable) (name : String) :
    Extends t (t.getOrAssignTagId name .null).2 := by
  rw [getOrAssignTagId_null]
  cases hnm : t.names.lookup name with
  | some id => exact .refl t
  | none =>
    have hgen : Extends t t.generateNewTagId.2 := ⟨fun _ _ h => h, fun _ h => h⟩
    have hnew : t.generateNewTagId.2.names.lookup name = none := hnm
    exact hgen.trans (extends_addTag hnew _)

lemma lookup_getOrAssignTagId (t : TagTable) (name : String) :
    (t.getOrAssignTagId name .null).2.names.lookup name =
    some (t.getOrAssignTagId name .null).1 := by
  rw [getOrAssignTagId_null]
  cases hnm : t.names.lookup name with
  | some id => exact hnm
  | none => exact AList.lookup_insert _

lemma getOrAssignTagId_of_lookup {name : String} {id : TagId} (h : t.names.lookup name = some id) :
    t.getOrAssignTagId name .null = (id, t) := by
  rw [getOrAssignTagId_null, h]

/-! ## Chains -/

lemma Extends.walk (h : Extends t u) {comps : List String} {cur id : TagId}
    (hwk : t.walk cur comps = some id) : u.walk cur comps = some id := by
  induction comps generalizing cur with
  | nil => exact hwk
  | cons comp comps ih =>
    obtain ⟨child, hch, hrs⟩ := bind_eq_some_iff.mp hwk
    exact bind_eq_some_iff.mpr ⟨child, h.names _ _ hch, ih hrs⟩

lemma extends_assignChain (t : TagTable) (parent : TagId) (comps : List String) :
    Extends t (t.assignChain parent .null comps).2 := by
  induction comps generalizing t parent with
  | nil => exact .refl t
  | cons comp comps ih =>
    simp only [assignChain, ite_self]
    exact (extends_getOrAssignTagId t _).trans (ih _ _)

lemma walk_assignChain (t : TagTable) (parent : TagId) (comps : List String) :
    (t.assignChain parent .null comps).2.walk parent comps
      = some (t.assignChain parent .null comps).1 := by
  induction comps generalizing t parent with
  | nil => rfl
  | cons comp comps ih =>
    simp only [assignChain, ite_self]
    refine bind_eq_some_iff.mpr ⟨_, ?_, ih _ _⟩
    exact (extends_assignChain _ _ comps).names _ _ (lookup_getOrAssignTagId t _)

lemma assignChain_of_walk {comps : List String} {parent id : TagId}
    (h : t.walk parent comps = some id) : t.assignChain parent .null comps = (id, t) := by
  induction comps generalizing parent with
  | nil => rw [assignChain, some.inj h]
  | cons comp comps ih =>
    obtain ⟨child, hch, hrs⟩ := bind_eq_some_iff.mp h
    simp only [assignChain, ite_self, getOrAssignTagId_of_lookup hch]
    exact ih hrs

/-! ## Paths -/

lemma getOrCreateTag_null (t : TagTable) (path : String) :
    t.getOrCreateTag path .null = t.getOrCreateTagChain path .null := by
  have hlc : ¬ t.isRemoteTag .null := fun h => h.1 rfl
  rw [getOrCreateTag, if_neg hlc]

lemma Extends.findTag (h : Extends t u) {path : String} {id : TagId}
    (hfind : Core.findTag t path = some id) : Core.findTag u path = some id := by
  unfold Core.findTag at hfind ⊢
  split_ifs at hfind ⊢
  · obtain ⟨root, hrt, hwk⟩ := bind_eq_some_iff.mp hfind
    exact bind_eq_some_iff.mpr ⟨root, h.names _ _ hrt, h.walk hwk⟩
  · exact h.names _ _ hfind

lemma extends_getOrCreateTag (t : TagTable) (path : String) :
    Extends t (t.getOrCreateTag path .null).2 := by
  rw [getOrCreateTag_null, getOrCreateTagChain]
  split_ifs
  · exact (extends_getOrAssignTagId t _).trans (extends_assignChain _ _ _)
  · exact extends_getOrAssignTagId t _

/-- A path that has been created is found. -/
lemma findTag_getOrCreateTag (t : TagTable) (path : String) :
    Core.findTag (t.getOrCreateTag path .null).2 path = some (t.getOrCreateTag path .null).1 := by
  rw [getOrCreateTag_null, getOrCreateTagChain, Core.findTag]
  split_ifs
  · refine bind_eq_some_iff.mpr ⟨_, ?_, walk_assignChain _ _ _⟩
    exact (extends_assignChain _ _ _).names _ _ (lookup_getOrAssignTagId t _)
  · exact lookup_getOrAssignTagId t _

/-- A path that is found is not created again. -/
lemma getOrCreateTag_of_findTag {path : String} {id : TagId} (h : Core.findTag t path = some id) :
    t.getOrCreateTag path .null = (id, t) := by
  rw [getOrCreateTag_null, getOrCreateTagChain]
  rw [Core.findTag] at h
  split_ifs at h ⊢
  · obtain ⟨root, hrt, hwk⟩ := bind_eq_some_iff.mp h
    rw [getOrAssignTagId_of_lookup hrt]
    exact assignChain_of_walk hwk
  · exact getOrAssignTagId_of_lookup h

/-! ## Ids -/

/-- Names are bound to tags that exist and have an id, and the counter has not wrapped. -/
structure Tidy (t : TagTable) : Prop where
  bound : ∀ key id, t.names.lookup key = some id → t.Has id ∧ id ≠ .null
  minor : 0 < t.nextMinor

lemma tidy_init (nodeId : ℕ) : Tidy (.init nodeId) where
  bound key id h := by
    simp [init] at h
  minor := Nat.one_pos

lemma Tidy.getOrAssignTagId (h : Tidy t) (name : String) (hrm : t.nextMinor + 1 < 2 ^ 32) :
    Tidy (t.getOrAssignTagId name .null).2 ∧
      (t.getOrAssignTagId name .null).2.nextMinor ≤ t.nextMinor + 1 := by
  rw [getOrAssignTagId_null]
  cases hnm : t.names.lookup name with
  | some id => exact ⟨h, Nat.le_succ _⟩
  | none =>
    have hmnr : (t.nextMinor + 1) % 2 ^ 32 = t.nextMinor + 1 := Nat.mod_eq_of_lt hrm
    refine ⟨⟨fun key id hkey => ?_, ?_⟩, hmnr.le⟩
    · obtain rfl | hne := eq_or_ne key name
      · have hid : t.generateNewTagId.1 = id := some.inj ((AList.lookup_insert _).symm.trans hkey)
        subst hid
        constructor
        · show (t.infos.insert _ _).lookup _ ≠ none
          rw [AList.lookup_insert]
          exact some_ne_none _
        · intro hnull
          exact h.minor.ne' (congrArg TagId.minor hnull)
      · have hold : t.names.lookup key = some id := by
          have hns : (t.names.insert name t.generateNewTagId.1).lookup key = some id := hkey
          rwa [AList.lookup_insert_ne hne] at hns
        have hhas : t.generateNewTagId.2.Has id := (h.bound key id hold).1
        exact ⟨hhas.addTag name _, (h.bound key id hold).2⟩
    · show 0 < (t.nextMinor + 1) % 2 ^ 32
      rw [hmnr]
      exact Nat.succ_pos _

lemma Tidy.assignChain (h : Tidy t) (parent : TagId) (comps : List String)
    (hrm : t.nextMinor + comps.length < 2 ^ 32) : Tidy (t.assignChain parent .null comps).2 := by
  induction comps generalizing t parent with
  | nil => exact h
  | cons comp comps ih =>
    rw [List.length_cons] at hrm
    obtain ⟨htidy, hle⟩ := h.getOrAssignTagId (makeRelativeName parent comp) (by omega)
    simp only [assignChain, ite_self]
    exact ih htidy _ (by omega)

lemma Tidy.getOrCreateTag (h : Tidy t) (path : String)
    (hrm : t.nextMinor + (splitPathComponents path).length + 1 < 2 ^ 32) :
    Tidy (t.getOrCreateTag path .null).2 := by
  rw [getOrCreateTag_null, getOrCreateTagChain]
  split_ifs
  · obtain ⟨htidy, hle⟩ := h.getOrAssignTagId "/" (by omega)
    exact htidy.assignChain _ _ (by omega)
  · exact (h.getOrAssignTagId path (by omega)).1

lemma Tidy.findTag (h : Tidy t) {path : String} {id : TagId}
    (hfind : Core.findTag t path = some id) : t.Has id ∧ id ≠ .null := by
  have hwk : ∀ (comps : List String) (cur : TagId), t.Has cur ∧ cur ≠ .null →
      t.walk cur comps = some id → t.Has id ∧ id ≠ .null := by
    intro comps
    induction comps with
    | nil => exact fun cur hcur hwk => some.inj hwk ▸ hcur
    | cons comp comps ih =>
      intro cur _ hwk
      obtain ⟨child, hch, hrs⟩ := bind_eq_some_iff.mp hwk
      exact ih child (h.bound _ _ hch) hrs
  unfold Core.findTag at hfind
  split_ifs at hfind
  · obtain ⟨root, hrt, hrs⟩ := bind_eq_some_iff.mp hfind
    exact hwk _ root (h.bound _ _ hrt) hrs
  · exact h.bound _ _ hfind

end ClioCore.Filesystem
