import ClioCore.Foundations.Serial
import ClioCore.Cte.Tags

/-!
# Bindings of tag names

Names, canonical names and aliases are kept in three places.  They agree (`TagTable.Consistent`)
when the keys bound to a tag are its canonical name and its aliases, all different, and no key is
bound to a tag that does not exist.

The tasks on tags do not keep it so: `RenameTag` takes a name away from whatever tag had it.
`TagTask.regular` is the condition under which a task keeps the three in agreement.  All the tasks
change the names of one tag at a time, so one lemma does the work (`TagTable.Consistent.rebind`): a
tag gives up some of its names and gets others that were free.
-/

namespace ClioCore.Cte

open Foundations List Option AList TagTable TagTask

variable {id preferred : TagId} {info : TagInfo} {key name : String} {fuel : ℕ}

/-- The canonical name and the aliases. -/
def TagInfo.names (info : TagInfo) : List String := info.tagName :: info.aliases

namespace TagTable

variable {t u : TagTable}

/-- The names of a tag, as the tag itself lists them. -/
def namesOf (t : TagTable) (id : TagId) : List String :=
  ((t.infos.lookup id).map TagInfo.names).getD []

/-- The keys bound to a tag are its names, they are distinct, and keys are bound to tags that exist.
-/
structure Consistent (t : TagTable) : Prop where
  bound : ∀ id info, t.infos.lookup id = some info →
    ∀ key, t.names.lookup key = some id ↔ key ∈ info.names
  distinct : ∀ id info, t.infos.lookup id = some info → info.names.Nodup
  known : ∀ key id, t.names.lookup key = some id → t.Has id

lemma namesOf_eq (h : t.infos.lookup id = some info) :
    t.namesOf id = info.names := by simp [namesOf, h]

lemma consistent_iff : t.Consistent ↔
    (∀ key id, t.names.lookup key = some id ↔ key ∈ t.namesOf id) ∧ ∀ id, (t.namesOf id).Nodup := by
  constructor
  · intro h
    refine ⟨fun key id => ?_, fun id => ?_⟩
    · cases hid : t.infos.lookup id with
      | none =>
        simp only [namesOf, hid, map_none, getD_none, not_mem_nil, iff_false]
        exact fun hkey => h.known key id hkey hid
      | some info => rw [namesOf_eq hid, h.bound id info hid key]
    · cases hid : t.infos.lookup id with
      | none => simp [namesOf, hid]
      | some info => exact namesOf_eq hid ▸ h.distinct id info hid
  · rintro ⟨hown, hnd⟩
    refine ⟨fun id info hid key => ?_, fun id info hid => ?_, fun key id hkey hid => ?_⟩
    · rw [hown, namesOf_eq hid]
    · exact namesOf_eq hid ▸ hnd id
    · rw [hown, namesOf, hid] at hkey
      exact not_mem_nil hkey

/-- **One tag changes its names.**  It gives up those it had and gets names that were free or its
own. -/
lemma Consistent.rebind (h : t.Consistent) (id : TagId)
    (hoths : ∀ other, other ≠ id → u.namesOf other = t.namesOf other)
    (hnd : (u.namesOf id).Nodup)
    (hfe : ∀ key ∈ u.namesOf id, t.names.lookup key = none ∨ key ∈ t.namesOf id)
    (hns : ∀ key, u.names.lookup key =
      if key ∈ u.namesOf id then some id else if key ∈ t.namesOf id then none
      else t.names.lookup key) :
    u.Consistent := by
  obtain ⟨hown, hdis⟩ := consistent_iff.mp h
  refine consistent_iff.mpr ⟨fun key other => ?_, fun other => ?_⟩
  · rw [hns]
    by_cases hnew : key ∈ u.namesOf id
    · rw [if_pos hnew]
      by_cases hid : other = id
      · simp [hid, hnew]
      · rw [hoths other hid, ← hown key other]
        rcases hfe key hnew with hno | hmem
        · simp [hno, Ne.symm hid]
        · simp [(hown key id).mpr hmem]
    · rw [if_neg hnew]
      by_cases hold : key ∈ t.namesOf id
      · rw [if_pos hold]
        by_cases hid : other = id
        · simp [hid, hnew]
        · rw [hoths other hid, ← hown key other, (hown key id).mpr hold]
          simp [Ne.symm hid]
      · rw [if_neg hold, hown]
        by_cases hid : other = id
        · simp [hid, hnew, hold]
        · rw [hoths other hid]
  · by_cases hid : other = id
    · exact hid ▸ hnd
    · exact hoths other hid ▸ hdis other

lemma Consistent.lookup_iff (h : t.Consistent) :
    t.names.lookup key = some id ↔ key ∈ t.namesOf id := (consistent_iff.mp h).1 key id

lemma Consistent.nodup (h : t.Consistent) (id : TagId) : (t.namesOf id).Nodup :=
  (consistent_iff.mp h).2 id

/-- Consistent, and the empty string names nothing. -/
structure Sound (t : TagTable) : Prop where
  consistent : t.Consistent
  noEmpty : t.names.lookup "" = none

lemma Sound.of_namesOf (h : t.Sound) (hns : ∀ key, u.names.lookup key = t.names.lookup key)
    (hnam : ∀ id, u.namesOf id = t.namesOf id) : u.Sound := by
  refine ⟨consistent_iff.mpr ⟨fun key id => ?_, fun id => ?_⟩, by rw [hns, h.noEmpty]⟩
  · rw [hns, hnam]
    exact h.consistent.lookup_iff
  · exact hnam id ▸ h.consistent.nodup id

lemma Sound.of_lookup (h : t.Sound) (hns : ∀ key, u.names.lookup key = t.names.lookup key)
    (his : ∀ id, u.infos.lookup id = t.infos.lookup id) : u.Sound :=
  h.of_namesOf hns fun id => by rw [namesOf, namesOf, his]

/-! ## Names of one tag -/

lemma namesOf_insert (id : TagId) (info : TagInfo) (h : u.infos = t.infos.insert id info) :
    u.namesOf id = info.names ∧ ∀ other, other ≠ id → u.namesOf other = t.namesOf other := by
  refine ⟨namesOf_eq (by rw [h, lookup_insert]), fun other hne => ?_⟩
  rw [namesOf, namesOf, h, lookup_insert_ne hne]

lemma namesOf_erase (id : TagId) (h : u.infos = t.infos.erase id) :
    u.namesOf id = [] ∧ ∀ other, other ≠ id → u.namesOf other = t.namesOf other := by
  refine ⟨by simp [namesOf, h], fun other hne => ?_⟩
  rw [namesOf, namesOf, h, lookup_erase_ne hne]

lemma lookup_foldl_erase (keys : List String) (m : AList (fun _ : String => TagId)) (key : String) :
    (keys.foldl (fun m key => m.erase key) m).lookup key = if key ∈ keys then none
    else m.lookup key := by
  induction keys generalizing m with
  | nil => simp
  | cons k keys ih =>
    rw [foldl_cons, ih]
    obtain rfl | hk := eq_or_ne key k
    · simp
    · simp [hk]

/-- A new tag under a free name. -/
lemma Sound.addTag (h : t.Sound) (hnm : t.names.lookup name = none) (hid : ¬ t.Has id)
    (hne : name ≠ "") : (t.addTag name id).Sound := by
  obtain ⟨hsf, hoths⟩ := namesOf_insert (u := t.addTag name id) id ⟨name, 0, []⟩ rfl
  have hno : t.namesOf id = [] := by simp [namesOf, not_not.mp hid]
  have hns : (t.addTag name id).names = t.names.insert name id := rfl
  refine ⟨h.consistent.rebind id hoths ?_ ?_ fun key => ?_, ?_⟩
  · rw [hsf]
    simp [TagInfo.names]
  · rw [hsf]
    simp [TagInfo.names, hnm]
  · rw [hsf, hns, hno]
    obtain rfl | hkey := eq_or_ne key name
    · simp [TagInfo.names]
    · simp [TagInfo.names, hkey]
  · rw [hns, lookup_insert_ne (Ne.symm hne)]
    exact h.noEmpty

/-- A tag exchanges its canonical name for a free one. -/
lemma Sound.renamed (h : t.Sound) {new : String} (hin : t.infos.lookup id = some info)
    (hfe : t.names.lookup new = none) (hne : new ≠ "")
    (hns : u.names = (t.names.erase info.tagName).insert new id)
    (his : u.infos = t.infos.insert id { info with tagName := new }) : u.Sound := by
  obtain ⟨hsf, hoths⟩ := namesOf_insert id _ his
  have hold := namesOf_eq hin
  have hnew : new ∉ t.namesOf id := fun hmem => by
    simp [← h.consistent.lookup_iff, hfe] at hmem
  have hnd := h.consistent.nodup id
  rw [hold, TagInfo.names, mem_cons, not_or] at hnew
  rw [hold, TagInfo.names, nodup_cons] at hnd
  refine ⟨h.consistent.rebind id hoths ?_ (fun key hkey => ?_) fun key => ?_, ?_⟩
  · rw [hsf]
    exact nodup_cons.mpr ⟨hnew.2, hnd.2⟩
  · rw [hsf] at hkey
    rcases mem_cons.mp hkey with rfl | hkey
    · exact .inl hfe
    · exact .inr (hold ▸ mem_cons_of_mem _ hkey)
  · rw [hsf, hns, hold]
    obtain rfl | hkey := eq_or_ne key new
    · simp [TagInfo.names]
    · rw [lookup_insert_ne hkey]
      obtain rfl | hcan := eq_or_ne key info.tagName
      · simp [TagInfo.names, hnd.1, hkey]
      · rw [lookup_erase_ne hcan]
        by_cases hali : key ∈ info.aliases
        · have hbd : t.names.lookup key = some id :=
            h.consistent.lookup_iff.mpr (hold ▸ mem_cons_of_mem _ hali)
          simp [TagInfo.names, hali, hbd]
        · simp [TagInfo.names, hali, hkey, hcan]
  · rw [hns, lookup_insert_ne (Ne.symm hne)]
    by_cases hcan : info.tagName = ""
    · rw [hcan, lookup_erase]
    · rw [lookup_erase_ne (Ne.symm hcan)]
      exact h.noEmpty

/-- A tag gets a free name as an alias. -/
lemma Sound.bindAlias (h : t.Sound) (hin : t.infos.lookup id = some info)
    (hfe : t.names.lookup key = none) (hne : key ≠ "") :
    (t.bindAlias id key).Sound := by
  have hold := namesOf_eq hin
  have hnew : key ∉ info.names := fun hmem => by
    simp [← hold, ← h.consistent.lookup_iff, hfe] at hmem
  have hnot : ¬ (key = info.tagName ∨ key ∈ info.aliases) := fun hor => hnew (mem_cons.mpr hor)
  have hns : (t.bindAlias id key).names = t.names.insert key id := by
    simp [TagTable.bindAlias, hin, hnot]
  have his : (t.bindAlias id key).infos
      = t.infos.insert id { info with aliases := info.aliases ++ [key] } := by
    simp [TagTable.bindAlias, hin, hnot]
  obtain ⟨hsf, hoths⟩ := namesOf_insert id _ his
  have hli : (t.bindAlias id key).namesOf id = info.names ++ [key] := hsf
  refine ⟨h.consistent.rebind id hoths ?_ (fun k hk => ?_) fun k => ?_, ?_⟩
  · rw [hli]
    exact nodup_append.mpr ⟨hold ▸ h.consistent.nodup id, nodup_singleton key,
      fun a ha b hb hab => hnew (mem_singleton.mp hb ▸ hab ▸ ha)⟩
  · rw [hli] at hk
    rcases mem_append.mp hk with hk | hk
    · exact .inr (hold ▸ hk)
    · exact .inl (mem_singleton.mp hk ▸ hfe)
  · rw [hli, hns, hold]
    obtain rfl | hk := eq_or_ne k key
    · simp
    · rw [lookup_insert_ne hk]
      by_cases hmem : k ∈ info.names
      · have hbd : t.names.lookup k = some id := h.consistent.lookup_iff.mpr (hold ▸ hmem)
        simp [hmem, hbd]
      · simp [hmem, hk]
  · rw [hns, lookup_insert_ne (Ne.symm hne)]
    exact h.noEmpty

/-- A tag gives up some of its names. -/
lemma Sound.shrunk (h : t.Sound) (gone : List String) (hgn : gone ⊆ t.namesOf id)
    (hoths : ∀ other, other ≠ id → u.namesOf other = t.namesOf other)
    (hsf : ∀ key, key ∈ u.namesOf id ↔ key ∈ t.namesOf id ∧ key ∉ gone)
    (hnd : (u.namesOf id).Nodup)
    (hns : ∀ key, u.names.lookup key = if key ∈ gone then none else t.names.lookup key) :
    u.Sound := by
  refine ⟨h.consistent.rebind id hoths hnd (fun key hkey => .inr ((hsf key).mp hkey).1)
    fun key => ?_, ?_⟩
  · rw [hns]
    simp only [hsf]
    by_cases hold : key ∈ t.namesOf id
    · by_cases hmem : key ∈ gone
      · simp [hmem, hold]
      · simp [hold, h.consistent.lookup_iff.mpr hold]
    · have hmem : key ∉ gone := fun hmem => hold (hgn hmem)
      simp [hmem, hold]
  · rw [hns, h.noEmpty, ite_self]

lemma lookup_erase_eq (m : AList (fun _ : String => TagId)) (gone key : String) :
    (m.erase gone).lookup key = if key ∈ [gone] then none else m.lookup key := by
  obtain rfl | hk := eq_or_ne key gone
  · simp
  · simp [hk]

/-- The unlinking of an alias. -/
lemma Sound.unlinkAlias (h : t.Sound) (hin : t.infos.lookup id = some info)
    (hkey : t.names.lookup key = some id) (hcan : key ≠ info.tagName)
    : (t.unlinkAlias id key).Sound := by
  have hold := namesOf_eq hin
  have hmem : key ∈ t.namesOf id := h.consistent.lookup_iff.mp hkey
  have hnd := h.consistent.nodup id
  have his : (t.unlinkAlias id key).infos
      = t.infos.insert id { info with aliases := info.aliases.erase key } := by
    simp [TagTable.unlinkAlias, searchDelete, setAliases, hin]
  have hns : (t.unlinkAlias id key).names = t.names.erase key := by
    simp [TagTable.unlinkAlias, searchDelete, setAliases, hin]
  obtain ⟨hsf, hoths⟩ := namesOf_insert id _ his
  rw [hold, TagInfo.names, nodup_cons] at hnd
  refine h.shrunk [key] (by simpa using hmem) hoths (fun k => ?_) ?_ fun k => ?_
  · rw [hsf, hold]
    simp only [TagInfo.names, mem_cons, hnd.2.mem_erase_iff, not_mem_nil, or_false]
    constructor
    · rintro (rfl | ⟨hne, hk⟩)
      · exact ⟨.inl rfl, Ne.symm hcan⟩
      · exact ⟨.inr hk, hne⟩
    · rintro ⟨rfl | hk, hne⟩
      · exact .inl rfl
      · exact .inr ⟨hne, hk⟩
  · rw [hsf]
    exact nodup_cons.mpr ⟨fun hk => hnd.1 (mem_of_mem_erase hk), hnd.2.erase key⟩
  · rw [hns, lookup_erase_eq]

/-- The unlinking of the canonical name of a tag with an alias. -/
lemma Sound.promoteAlias (h : t.Sound) {new : String} {rest : List String}
    (hin : t.infos.lookup id = some info) (hals : info.aliases = new :: rest) :
    (t.promoteAlias id info.tagName new).Sound := by
  have hold := namesOf_eq hin
  have hnd := h.consistent.nodup id
  have his : (t.promoteAlias id info.tagName new).infos
      = t.infos.insert id ⟨new, info.totalSize, rest⟩ := by
    simp [TagTable.promoteAlias, searchDelete, setAliases, setTagName, hin, hals]
  have hns : (t.promoteAlias id info.tagName new).names = t.names.erase info.tagName := by
    simp [TagTable.promoteAlias, searchDelete, setAliases, setTagName, hin]
  obtain ⟨hsf, hoths⟩ := namesOf_insert id _ his
  have hnew : (t.promoteAlias id info.tagName new).namesOf id = info.aliases := by
    rw [hsf, hals]
    rfl
  rw [hold, TagInfo.names, nodup_cons] at hnd
  have hmem : info.tagName ∈ t.namesOf id := hold ▸ mem_cons_self
  refine h.shrunk [info.tagName] (by simpa using hmem) hoths (fun k => ?_) (hnew ▸ hnd.2) fun k =>
    ?_
  · rw [hnew, hold]
    simp only [TagInfo.names, mem_cons, not_mem_nil, or_false]
    constructor
    · exact fun hk => ⟨.inr hk, fun he => hnd.1 (he ▸ hk)⟩
    · rintro ⟨rfl | hk, hne⟩
      · exact absurd rfl hne
      · exact hk
  · rw [hns, lookup_erase_eq]

lemma lookup_dropTag (t : TagTable) (id x : TagId) :
    (t.dropTag id).infos.lookup x = if x = id then none else t.infos.lookup x := by
  have his : (t.dropTag id).infos = t.infos.erase id := rfl
  rw [his]
  obtain rfl | hne := eq_or_ne x id
  · simp
  · rw [lookup_erase_ne hne, if_neg hne]

lemma lookup_foldl_dropTag (ids : List TagId) (t : TagTable) (x : TagId) :
    (ids.foldl dropTag t).infos.lookup x = if x ∈ ids then none else t.infos.lookup x := by
  induction ids generalizing t with
  | nil => simp
  | cons id ids ih =>
    rw [foldl_cons, ih, lookup_dropTag]
    by_cases hx : x = id
    · simp [hx]
    · simp [hx]

/-- The names of a tag that goes. -/
lemma Sound.lookup_names_dropTag (h : t.Sound) (id : TagId) (key : String) :
    (t.dropTag id).names.lookup key = if key ∈ t.namesOf id then none else t.names.lookup key := by
  have hns : (t.dropTag id).names.lookup key = _ := lookup_foldl_erase _ _ key
  rw [hns]
  cases hid : t.infos.lookup id with
  | none => simp [namesOf, hid]
  | some info =>
    rw [namesOf_eq hid]
    by_cases hemp : info.tagName = ""
    · -- the empty string is bound to nothing, so no tag has it as its name
      have hmem : info.tagName ∈ t.namesOf id := namesOf_eq hid ▸ mem_cons_self
      simp [hemp, ← h.consistent.lookup_iff, h.noEmpty] at hmem
    · simp [hemp, TagInfo.names]

/-- A tag goes, with all its names. -/
lemma Sound.dropTag (h : t.Sound) (id : TagId) : (t.dropTag id).Sound := by
  obtain ⟨hsf, hoths⟩ := namesOf_erase (u := t.dropTag id) id rfl
  exact h.shrunk (t.namesOf id) (Subset.refl _) hoths (by simp [hsf]) (by simp [hsf])
    (h.lookup_names_dropTag id)

lemma Sound.pruneAncestors (h : t.Sound) (ancs : List TagId) : (t.pruneAncestors ancs).Sound := by
  induction ancs generalizing t with
  | nil => exact h
  | cons anc ancs ih =>
    unfold pruneAncestors
    split
    · exact ih h
    · split
      · exact ih ((h.dropTag anc).of_lookup (fun _ => rfl) fun _ => rfl)
      · exact h

lemma Sound.dropTags (h : t.Sound) (toDelete ancestors : List TagId) :
    (t.dropTags toDelete ancestors).Sound :=
  (foldlRecOn (motive := Sound) _ _ h fun _ hs id _ => hs.dropTag id).pruneAncestors ancestors

/-! ## Fresh ids -/

/-- If `GetOrAssignTagId` makes a new tag, its id is new. -/
def freshId (t : TagTable) (name : String) (preferred : TagId) : Bool :=
  (t.names.lookup name).isSome || decide (preferred ≠ .null ∧ ¬ t.Has preferred) ||
    decide (¬ t.Has t.generateNewTagId.1)

/-- The same along the loop of `GetOrCreateTagChain`. -/
def freshChain (t : TagTable) (parent preferred : TagId) : List String → Bool
  | [] => true
  | comp :: comps =>
    let name := makeRelativeName parent comp
    let hint := if comps = [] then preferred else .null
    let assigned := t.getOrAssignTagId name hint
    t.freshId name hint && assigned.2.freshChain assigned.1 preferred comps

/-- All new tags that `GetOrCreateTagChain` makes have new ids. -/
def freshTags (t : TagTable) (name : String) (preferred : TagId) : Bool :=
  if isHierPath name then
    let root := t.getOrAssignTagId "/" .null
    t.freshId "/" .null && root.2.freshChain root.1 preferred (splitPathComponents name)
  else t.freshId name preferred

lemma Sound.getOrAssignTagId (h : t.Sound) (hfr : t.freshId name preferred = true)
    (hne : name ≠ "") : (t.getOrAssignTagId name preferred).2.Sound := by
  unfold TagTable.getOrAssignTagId
  cases hnm : t.names.lookup name with
  | some id => exact h
  | none =>
    by_cases hpref : preferred ≠ .null ∧ ¬ t.Has preferred
    · simp only [if_pos hpref]
      exact h.addTag hnm hpref.2 hne
    · have hnew : ¬ t.Has t.generateNewTagId.1 := by simpa [freshId, hnm, hpref] using hfr
      simp only [if_neg hpref]
      exact (h.of_lookup (u := t.generateNewTagId.2) (fun _ => rfl) fun _ => rfl).addTag hnm hnew
        hne

lemma Sound.assignChain (h : t.Sound) {parent : TagId} {comps : List String}
    (hfr : t.freshChain parent preferred comps = true) :
    (t.assignChain parent preferred comps).2.Sound := by
  induction comps generalizing t parent with
  | nil => exact h
  | cons comp comps ih =>
    obtain ⟨hfst, hrs⟩ := Bool.and_eq_true_iff.mp hfr
    exact ih (h.getOrAssignTagId hfst (makeRelativeName_ne_empty parent comp)) hrs

lemma Sound.getOrCreateTagChain (h : t.Sound) (hfr : t.freshTags name preferred = true)
    (hne : name ≠ "") :
    (t.getOrCreateTagChain name preferred).2.Sound := by
  unfold TagTable.getOrCreateTagChain
  unfold freshTags at hfr
  split at hfr
  · next hhier =>
      obtain ⟨hrt, hrs⟩ := Bool.and_eq_true_iff.mp hfr
      rw [if_pos hhier]
      exact (h.getOrAssignTagId hrt (by decide)).assignChain hrs
  · next hhier =>
      rw [if_neg hhier]
      exact h.getOrAssignTagId hfr hne

lemma Has.addTag (h : t.Has id) (name : String) (new : TagId) : (t.addTag name new).Has id := by
  have his : (t.addTag name new).infos = t.infos.insert new ⟨name, 0, []⟩ := rfl
  rw [Has, his]
  by_cases hid : id = new
  · simp [hid]
  · rwa [lookup_insert_ne hid]

lemma Has.getOrAssignTagId (h : t.Has id) (name : String) (preferred : TagId) :
    (t.getOrAssignTagId name preferred).2.Has id := by
  unfold TagTable.getOrAssignTagId
  split
  · exact h
  · split
    · exact h.addTag name preferred
    · exact Has.addTag (t := t.generateNewTagId.2) h name _

lemma Has.assignChain (h : t.Has id) (parent preferred : TagId) (comps : List String) :
    (t.assignChain parent preferred comps).2.Has id := by
  induction comps generalizing t parent with
  | nil => exact h
  | cons comp comps ih => exact ih (h.getOrAssignTagId _ _) _

/-- Creating tags removes none. -/
lemma Has.getOrCreateTagChain (h : t.Has id) (name : String) (preferred : TagId) :
    (t.getOrCreateTagChain name preferred).2.Has id := by
  unfold TagTable.getOrCreateTagChain
  split
  · exact (h.getOrAssignTagId _ _).assignChain _ _ _
  · exact h.getOrAssignTagId _ _

/-! ## Conditions -/

/-- A hierarchical rename goes to a name that is free, or is the canonical name already. -/
def regularMove (t : TagTable) (id : TagId) (oldName newName : String) : Bool :=
  match splitParentLeaf newName with
  | none => true
  | some (newParentPath, newLeaf) =>
    let parent := t.getOrCreateTagChain newParentPath .null
    let newRel := makeRelativeName parent.1 newLeaf
    t.freshTags newParentPath .null &&
      match parent.2.infos.lookup (parent.2.renameSource id oldName) with
      | none => true
      | some info => newRel = info.tagName || parent.2.names.lookup newRel = none

/-- A flat rename is from the canonical name of the tag that is meant to a name that is free; or
there is nothing to rename. -/
def regularFlat (t : TagTable) (id : TagId) (oldName newName : String) : Bool :=
  match t.names.lookup oldName with
  | some bound => bound ≠ .null && (id = .null || id = bound) &&
      (t.infos.lookup bound).map TagInfo.tagName = some oldName && t.names.lookup newName = none
  | none => id = .null || match t.infos.lookup id with
      | none => true
      | some info => info.tagName = newName

end TagTable

/-- The condition under which a task keeps the bindings of names consistent. -/
def TagTask.regular (t : TagTable) : TagTask → Bool
  | .getOrCreate name preferred =>
    if t.isRemoteTag preferred then (t.names.lookup name).isSome
    else name ≠ "" && t.freshTags name preferred
  | .rename id oldName newName =>
    oldName = "" || newName = "" || oldName = newName ||
      if isHierPath oldName ∧ isHierPath newName then t.regularMove id oldName newName
      else t.regularFlat id oldName newName
  | .getOrCreateAlias _ _ aliasName =>
    match splitParentLeaf aliasName with
    | none => true
    | some (parentPath, _) => isHierPath aliasName = false || t.freshTags parentPath .null
  | .del _ _ _ => true

namespace TagTable

variable {t u : TagTable}

lemma splitParentLeaf_ne_empty {path parent leaf : String}
    (h : splitParentLeaf path = some (parent, leaf)) : parent ≠ "" := by
  unfold splitParentLeaf at h
  split at h
  · simp at h
  · cases h
    intro hemp
    have hhier := isHierPath_joinComponents (splitPathComponents path).dropLast
      fun c hc => isComponent_of_mem (mem_of_mem_dropLast hc)
    rw [hemp] at hhier
    exact absurd hhier (by decide)

lemma Sound.getOrCreateTag (h : t.Sound) (hok : (getOrCreate name preferred).regular t = true) :
    (t.getOrCreateTag name preferred).2.Sound := by
  unfold TagTable.getOrCreateTag
  by_cases hrmt : t.isRemoteTag preferred
  · simp only [regular, if_pos hrmt] at hok
    rw [if_pos hrmt]
    split
    · exact h
    · next hno => simp [hno] at hok
  · simp only [regular, if_neg hrmt, Bool.and_eq_true, decide_eq_true_eq] at hok
    rw [if_neg hrmt]
    exact h.getOrCreateTagChain hok.2 hok.1

/-- A move to where the tag is changes nothing. -/
lemma lookup_moveTag_self (hin : t.infos.lookup id = some info)
    (hbd : t.names.lookup info.tagName = some id) :
    (∀ key, (t.moveTag id info.tagName info.tagName).names.lookup key = t.names.lookup key) ∧
      ∀ other, (t.moveTag id info.tagName info.tagName).infos.lookup other =
      t.infos.lookup other := by
  have hns : (t.moveTag id info.tagName info.tagName).names = t.names.insert info.tagName id := by
    simp [moveTag, setTagName, hin]
  have his : (t.moveTag id info.tagName info.tagName).infos = t.infos.insert id info := by
    simp [moveTag, setTagName, hin]
  exact ⟨fun key => by rw [hns, lookup_insert_of_lookup hbd],
    fun other => by rw [his, lookup_insert_of_lookup hin]⟩

lemma Sound.moveTag (h : t.Sound) {newRel : String} (hin : t.infos.lookup id = some info)
    (hok : newRel = info.tagName ∨ t.names.lookup newRel = none) (hne : newRel ≠ "") :
    (t.moveTag id info.tagName newRel).Sound := by
  have hbd : t.names.lookup info.tagName = some id :=
    h.consistent.lookup_iff.mpr (namesOf_eq hin ▸ mem_cons_self)
  rcases hok with rfl | hfe
  · obtain ⟨hns, his⟩ := lookup_moveTag_self hin hbd
    exact h.of_lookup hns his
  · have hdiff : info.tagName ≠ newRel := by
      rintro rfl
      simp [hbd] at hfe
    refine h.renamed hin hfe hne ?_ ?_
    · simp [TagTable.moveTag, setTagName, hin, hdiff]
    · simp [TagTable.moveTag, setTagName, hin]

lemma Sound.renamePath (h : t.Sound) {oldName newName : String}
    (hok : t.regularMove id oldName newName = true) :
    (t.renamePath id oldName newName).2.Sound := by
  unfold TagTable.renamePath
  unfold regularMove at hok
  cases hspl : splitParentLeaf newName with
  | none => exact h
  | some dest =>
    obtain ⟨path, leaf⟩ := dest
    simp only [hspl] at hok ⊢
    obtain ⟨hfr, hok⟩ := Bool.and_eq_true_iff.mp hok
    have hpar := h.getOrCreateTagChain hfr (splitParentLeaf_ne_empty hspl)
    split
    · exact hpar
    · cases hin : (t.getOrCreateTagChain path .null).2.infos.lookup
          ((t.getOrCreateTagChain path .null).2.renameSource id oldName) with
      | none => exact hpar
      | some info =>
        simp only [hin, Bool.or_eq_true, decide_eq_true_eq] at hok
        exact hpar.moveTag hin hok (makeRelativeName_ne_empty _ leaf)

lemma Sound.renameFlat (h : t.Sound) {oldName newName : String} (hne : newName ≠ "")
    (hok : t.regularFlat id oldName newName = true) :
    (t.renameFlat id oldName newName).2.Sound := by
  unfold regularFlat at hok
  cases hbd : t.names.lookup oldName with
  | some bound =>
    simp only [hbd, Bool.and_eq_true, Bool.or_eq_true, decide_eq_true_eq, map_eq_some_iff] at hok
    obtain ⟨⟨⟨hnull, hid⟩, info, hin, rfl⟩, hfe⟩ := hok
    have htg : (if id = .null then (some bound).getD .null else id) = bound := by
      rcases hid with rfl | rfl
      · rfl
      · exact if_neg hnull
    unfold TagTable.renameFlat
    simp only [hbd, htg, if_neg hnull]
    refine h.renamed hin hfe hne ?_ ?_
    · simp [setTagName, hin]
    · simp [setTagName, hin]
  | none =>
    simp only [hbd, Bool.or_eq_true, decide_eq_true_eq] at hok
    have hns : (t.renameFlat id oldName newName).2.names = t.names := by
      simp only [TagTable.renameFlat, hbd]
      split
      · rfl
      · rw [setTagName]
        split <;> rfl
    refine h.of_lookup (fun key => by rw [hns]) fun other => ?_
    by_cases hid : id = .null
    · simp [TagTable.renameFlat, hbd, hid]
    · cases hin : t.infos.lookup id with
      | none =>
        simp only [TagTable.renameFlat, hbd, if_neg hid]
        simp [setTagName, hin]
      | some info =>
        -- the tag has the new name already
        have hnm : info.tagName = newName := by simpa [hid, hin] using hok
        have his : (t.renameFlat id oldName newName).2.infos = t.infos.insert id info := by
          simp only [TagTable.renameFlat, hbd, if_neg hid]
          simp [setTagName, hin, ← hnm]
        rw [his, lookup_insert_of_lookup hin]

lemma Sound.getOrCreateTagAlias (h : t.Sound) {existingName aliasName : String}
    (hok : (getOrCreateAlias id existingName aliasName).regular t = true) :
    (t.getOrCreateTagAlias id existingName aliasName).2.Sound := by
  unfold TagTable.getOrCreateTagAlias
  split
  · exact h
  next hne =>
  dsimp only
  split
  · exact h
  next htg =>
  obtain ⟨-, hhas⟩ := not_or.mp htg
  -- the table in which the key is looked up is sound and still has the tag
  have hkey : ∀ key u, t.aliasKey aliasName = some (key, u) →
      u.Sound ∧ u.Has (t.aliasTarget id existingName) ∧ key ≠ "" := by
    intro key u hku
    unfold aliasKey at hku
    split at hku
    · next hhier =>
        cases hspl : splitParentLeaf aliasName with
        | none => simp [hspl] at hku
        | some dest =>
          obtain ⟨path, leaf⟩ := dest
          simp only [hspl, some.injEq, Prod.mk.injEq] at hku
          obtain ⟨rfl, rfl⟩ := hku
          have hfr : t.freshTags path .null = true := by
            simpa [regular, hspl, hhier] using hok
          exact ⟨h.getOrCreateTagChain hfr (splitParentLeaf_ne_empty hspl),
            Has.getOrCreateTagChain (not_not.mp hhas) path .null, makeRelativeName_ne_empty _ leaf⟩
    · cases hku
      exact ⟨h, not_not.mp hhas, hne⟩
  split
  · exact h
  · next key u hku =>
      obtain ⟨hsnd, hhas', hkeyn⟩ := hkey key u hku
      split
      · exact hsnd
      · next hfe =>
          obtain ⟨info, hin⟩ := ne_none_iff_exists'.mp hhas'
          exact hsnd.bindAlias hin hfe hkeyn

/-- The key a tag was found under is bound to it. -/
lemma lookup_of_delTarget {found : TagId} (h : t.delTarget id name = some (found, key))
    (hkey : key ≠ "" ∨ id = .null) :
    t.names.lookup key = some found := by
  have hlk : ∀ {k : String} {r : TagId × String},
      (t.names.lookup k).map (fun id => (id, k)) = some r → t.names.lookup r.2 = some r.1 := by
    intro k r hr
    obtain ⟨id, hid, rfl⟩ := map_eq_some_iff.mp hr
    exact hid
  unfold delTarget at h
  split at h
  · next hid => exact absurd (Prod.mk.inj (some.inj h)).2.symm (hkey.resolve_right hid)
  split at h
  · simp at h
  obtain ⟨h, -⟩ := filter_eq_some_iff.mp h
  rcases or_eq_some_iff.mp h with h | ⟨-, h⟩
  · obtain ⟨h, -⟩ := filter_eq_some_iff.mp h
    split at h
    · split at h
      · exact hlk h
      · split at h
        · simp at h
        · dsimp only at h
          split at h
          · simp at h
          · exact hlk h
    · simp at h
  · exact hlk h

/-- What `DelTag` may decide, and when. -/
lemma delPlan_cases {posixUnlink : Bool} {plan : DelPlan}
    (h : t.delPlan fuel id name posixUnlink = some plan) :
    (∃ found, plan = .notFound found ∧ (t.delTarget id name = none ∨
      ∃ key, t.delTarget id name = some (found, key) ∧ ¬ t.Has found)) ∨
    ∃ found key info ancestors, t.delTarget id name = some (found, key) ∧
      t.infos.lookup found = some info ∧ t.ancestorChain fuel info.tagName = some ancestors ∧
      ((plan = .unlink found key ∧ key ≠ "" ∧ key ≠ info.tagName) ∨
        (∃ new rest, plan = .promote found key new ∧ posixUnlink = true ∧ key = info.tagName ∧
          info.aliases = new :: rest) ∨
        ∃ toDelete, plan = .cascade found info.tagName toDelete ancestors ∧
          Forest.traverse t.children fuel [found] = some toDelete ∧
          (key = "" ∨ key = info.tagName) ∧
          (posixUnlink = true → key ≠ "" → info.aliases = [])) := by
  unfold delPlan at h
  split at h
  · next hno => exact .inl ⟨id, (some.inj h).symm, .inl hno⟩
  next found key htg =>
  split at h
  · next hno => exact .inl ⟨found, (some.inj h).symm, .inr ⟨key, htg, fun hhas => hhas hno⟩⟩
  next info hin =>
  obtain ⟨ancestors, hchn, h⟩ := bind_eq_some_iff.mp h
  refine .inr ⟨found, key, info, ancestors, htg, hin, hchn, ?_⟩
  split at h
  · next hali => exact .inl ⟨(some.inj h).symm, hali⟩
  next hcan =>
  have hkey : key = "" ∨ key = info.tagName := by
    by_contra hor
    exact hcan (not_or.mp hor)
  split at h
  · next new hnew =>
      split at hnew
      · next hpx =>
          obtain ⟨rest, hrs⟩ := head?_eq_some_iff.mp hnew
          exact .inr (.inl ⟨new, rest, (some.inj h).symm, hpx.1, hkey.resolve_left hpx.2, hrs⟩)
      · simp at hnew
  · next hnew =>
      obtain ⟨toDelete, hdel, rfl⟩ := map_eq_some_iff.mp h
      refine .inr (.inr ⟨toDelete, rfl, hdel, hkey, fun hpx hne => ?_⟩)
      simpa [hpx, hne] using hnew

lemma Sound.delTag (h : t.Sound) {posixUnlink : Bool} {r : (ℕ × TagId) × TagTable}
    (hr : t.delTag fuel id name posixUnlink = some r) : r.2.Sound := by
  obtain ⟨plan, hpl, rfl⟩ := map_eq_some_iff.mp hr
  rcases delPlan_cases hpl with ⟨found, rfl, -⟩ | ⟨found, key, info, ancestors, htg, hin, -,
    ⟨rfl, hne, hali⟩ | ⟨new, rest, rfl, -, rfl, hrs⟩ | ⟨toDelete, rfl, -⟩⟩
  · exact h
  · exact h.unlinkAlias hin (lookup_of_delTarget htg (.inl hne)) hali
  · exact h.promoteAlias hin hrs
  · exact (h.of_lookup (u := t.searchDelete _) (fun _ => rfl) fun _ => rfl).dropTags _ _

/-- **A regular task keeps the bindings consistent.** -/
lemma Sound.run (h : t.Sound) {task : TagTask} (hok : task.regular t = true)
    (hrun : task.run fuel t = some u) : u.Sound := by
  cases task with
  | getOrCreate name preferred => exact some.inj hrun ▸ h.getOrCreateTag hok
  | rename id oldName newName =>
    rw [← some.inj hrun]
    unfold renameTag
    split
    · exact h
    next hne =>
    obtain ⟨hold, hnew⟩ := not_or.mp hne
    split
    · exact h
    next hdiff =>
    simp only [regular, hold, hnew, hdiff, decide_false, Bool.false_or] at hok
    split at hok
    · next hhier =>
        rw [if_pos hhier]
        exact h.renamePath hok
    · next hfl =>
        rw [if_neg hfl]
        exact h.renameFlat hnew hok
  | getOrCreateAlias id existingName aliasName =>
    exact some.inj hrun ▸ h.getOrCreateTagAlias hok
  | del id name posixUnlink =>
    obtain ⟨r, hr, rfl⟩ := map_eq_some_iff.mp hrun
    exact h.delTag hr

lemma sound_init (nodeId : ℕ) : (init nodeId).Sound := by
  refine ⟨⟨fun id info h => ?_, fun id info h => ?_, fun key id h => ?_⟩, rfl⟩
  all_goals simp [init] at h

end TagTable

/-! ## Whole histories -/

/-- **Regular tasks keep the bindings of names consistent**, in every history of a container. -/
theorem consistent_of_regular (nodeId fuel : ℕ) (tasks : List TagTask) (t : TagTable)
    (hok : Meets (fun t task => task.run fuel t) (fun t task => task.regular t = true)
      (TagTable.init nodeId) tasks)
    (hrun : runAll (fun t task => task.run fuel t) (TagTable.init nodeId) tasks = some t) :
    t.Consistent :=
  (runAll_invariant TagTable.Sound (fun _ _ _ _ hs hreg hstp => hs.run hreg hstp)
    (sound_init nodeId) hok hrun).consistent

/-- Two directories, and the first renamed onto the second. -/
def renameOnto : List TagTask :=
  [.getOrCreate "/a" .null, .getOrCreate "/b" .null, .rename .null "/a" "/b"]

/-- The tag that was called `/b` has lost its name to the one that was called `/a`. -/
theorem not_consistent_renameOnto : ∃ t,
    runAll (fun t task => task.run 0 t) (TagTable.init 0) renameOnto = some t ∧ ¬ t.Consistent := by
  have hev : (runAll (fun t task => task.run 0 t) (init 0) renameOnto).any (fun t =>
      t.infos.lookup ⟨0, 3⟩ = some ⟨"$tagid\x7b0.1\x7d/b", 0, []⟩ ∧
        t.names.lookup "$tagid\x7b0.1\x7d/b" = some ⟨0, 2⟩) = true := by
    decide +kernel
  obtain ⟨t, hrun, hfac⟩ := (any_eq_true _ _).mp hev
  obtain ⟨hin, hnm⟩ := of_decide_eq_true hfac
  refine ⟨t, hrun, fun h => ?_⟩
  have hbd := (h.bound _ _ hin "$tagid\x7b0.1\x7d/b").mpr mem_cons_self
  rw [hnm] at hbd
  simp at hbd

/-- A file gets a second name, is moved by the first, and loses the first. -/
def linkMoveUnlink : List TagTask :=
  [.getOrCreate "/d/f" .null, .getOrCreateAlias .null "/d/f" "/d/g", .rename .null "/d/f" "/e/h",
    .del .null "/e/h" true]

theorem consistent_linkMoveUnlink : ∃ t,
    runAll (fun t task => task.run 9 t) (TagTable.init 0) linkMoveUnlink = some t ∧ t.Consistent ∧
      t.infos.lookup ⟨0, 3⟩ = some ⟨"$tagid\x7b0.2\x7d/g", 0, []⟩ := by
  have hev : (runAll (fun t task => task.run 9 t) (init 0) linkMoveUnlink).any (fun t =>
      t.infos.lookup ⟨0, 3⟩ = some ⟨"$tagid\x7b0.2\x7d/g", 0, []⟩) = true := by
    decide +kernel
  have hok : Meets (fun t task => task.run 9 t) (fun t task => task.regular t = true)
      (init 0) linkMoveUnlink := by
    decide +kernel
  obtain ⟨t, hrun, hin⟩ := (any_eq_true _ _).mp hev
  exact ⟨t, hrun, consistent_of_regular 0 9 linkMoveUnlink t hok hrun, of_decide_eq_true hin⟩

end ClioCore.Cte
