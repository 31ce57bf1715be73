import ClioCore.Filesystem.Entries

/-!
# New entries

What the creation of tags and aliases does to the namespace: one entry is added, for a new tag or
for one that is there, and the index gets its path.  `Charted` tables stay charted.  A path is
created component by component (`getOrCreateTag_concat`), so `Mkdir`, which creates a directory
through its marker, is two such steps.
-/

namespace ClioCore.Filesystem

open Foundations Foundations.Namespace Cte AList Option List

/-- A tag table laid out as a namespace, with its index. -/
structure Charted (t : TagTable) : Prop extends Laid t where
  index : Indexed t

variable {t u : TagTable} {x y : TagId} {k : String} {p q : List String}

/-! ## Changing a table -/

lemma entries_of_insert (h : u.names = t.names.insert (makeRelativeName x k) y) :
    entries u = setEntry (entries t) x k (some y) := by
  funext x' k'
  by_cases hxk : x' = x ∧ k' = k
  · obtain ⟨rfl, rfl⟩ := hxk
    rw [setEntry_self, entries, h, lookup_insert]
  · rw [setEntry_of_ne hxk, entries, h,
      lookup_insert_ne fun he => hxk (makeRelativeName_injective he)]
    rfl

lemma entries_congr (h : ∀ key, u.names.lookup key = t.names.lookup key) :
    entries u = entries t := by
  funext x k
  rw [entries, h, entries]

lemma rootOf_congr (h : u.names.lookup "/" = t.names.lookup "/") (hnod : u.nodeId = t.nodeId) :
    rootOf u = rootOf t := by rw [rootOf, h, hnod, rootOf]

/-- Names that are no entries stay as they are. -/
def KeepsFlat (t u : TagTable) : Prop := ∀ key, Flat key → u.names.lookup key = t.names.lookup key

lemma keepsFlat_of_insert (h : u.names = t.names.insert (makeRelativeName x k) y) :
    KeepsFlat t u := by
  intro key hkey
  rw [h, lookup_insert_ne hkey.ne_makeRelativeName]

lemma has_iff_of_insert {info info' : TagInfo} (hin : t.infos.lookup y = some info)
    (his : u.infos = t.infos.insert y info') (z : TagId) : u.Has z ↔ t.Has z := by
  rw [TagTable.Has, TagTable.Has, his]
  obtain rfl | hz := eq_or_ne z y
  · simp [hin]
  · rw [lookup_insert_ne hz]

lemma locate_concat (hp : locate t p = some x) (k : String) :
    locate t (p ++ [k]) = entries t x k := by
  rw [locate, walk_concat, show walk (entries t) (rootOf t) p = some x from hp, bind_some]

lemma locate_append (hp : locate t p = some x) (q : List String) :
    locate t (p ++ q) = walk (entries t) x q := by
  rw [locate, walk_append, show walk (entries t) (rootOf t) p = some x from hp, bind_some]

namespace Laid

/-- Names that may be changed: entries, for tags without a name of their own. -/
lemma change (h : Laid t) (hsnd : u.Sound) (hnod : u.nodeId = t.nodeId)
    (hmnr : 0 < u.nextMinor ∧ u.nextMinor < 2 ^ 32)
    (hids : ∀ id, u.Has id → id.major = u.nodeId ∧ 0 < id.minor ∧ id.minor < u.nextMinor)
    (hks : ∀ key id, u.names.lookup key = some id → t.names.lookup key = some id ∨
      (∃ x k, IsComponent k ∧ key = makeRelativeName x k) ∧
        ∀ flat, Flat flat → t.names.lookup flat ≠ some id)
    (hfl : KeepsFlat t u)
    (hrt : t.names.lookup "/" ≠ none) (htree : IsTree (entries u) (rootOf t))
    (hshl : ∀ q, locate u q ≠ none → q.length ≤ 256) : Laid u where
  sound := hsnd
  keys key id hkey := by
    rcases hks key id hkey with hold | ⟨hnew, -⟩
    · exact h.keys key id hold
    · exact .inr hnew
  single key key' id hkey hbd hbd' := by
    rw [hfl key hkey] at hbd
    rcases hks key' id hbd' with hold | ⟨-, hnot⟩
    · exact h.single key key' id hkey hbd hold
    · exact absurd hbd (hnot key hkey)
  ids := hids
  node := hnod ▸ h.node
  minor := hmnr
  tree := rootOf_congr (hfl "/" (.inl rfl)) hnod ▸ htree
  rooted hno := absurd (hfl "/" (.inl rfl) ▸ hno) hrt
  shallow := hshl

/-- The index and the log are no part of it. -/
lemma congr (h : Laid t) (hns : ∀ key, u.names.lookup key = t.names.lookup key)
    (his : ∀ id, u.infos.lookup id = t.infos.lookup id)
    (hnod : u.nodeId = t.nodeId) (hmnr : u.nextMinor = t.nextMinor) : Laid u := by
  have hrt : rootOf u = rootOf t := rootOf_congr (hns "/") hnod
  refine ⟨?_, ?_, ?_, ?_, hnod ▸ h.node, hmnr ▸ h.minor, ?_, ?_, ?_⟩
  · exact h.sound.of_lookup hns his
  · simp only [hns]
    exact h.keys
  · simp only [hns]
    exact h.single
  · intro id hid
    rw [TagTable.Has, his] at hid
    rw [hnod, hmnr]
    exact h.ids id hid
  · rw [entries_congr hns, hrt]
    exact h.tree
  · rw [hns, entries_congr hns]
    exact h.rooted
  · intro q hq
    rw [locate, entries_congr hns, hrt] at hq
    exact h.shallow q hq

lemma lookup_root_of_has (h : Laid t) (hp : locate t p = some x) (hx : t.Has x) :
    t.names.lookup "/" = some (rootOf t) := by
  cases hrt : t.names.lookup "/" with
  | some r => rw [rootOf_eq hrt]
  | none =>
    cases p with
    | nil =>
      -- the stand-in for the root is no tag
      obtain rfl : rootOf t = x := some.inj hp
      have hmnr := (h.ids _ hx).2.1
      rw [rootOf, hrt] at hmnr
      exact absurd hmnr (lt_irrefl 0)
    | cons k p =>
      simp [locate, walk, h.rooted hrt] at hp

/-- An entry for something that is no directory. -/
lemma insertEntry (h : Laid t) (hp : locate t p = some x) (hx : t.Has x)
    (hso : Sole (entries t) x) (hk : IsComponent k) (hfe : entries t x k = none)
    (hlen : p.length < 256) (hlf : ¬ IsDir (entries t) y) (hyx : y ≠ x)
    (hy : ∀ flat, Flat flat → t.names.lookup flat ≠ some y)
    (hns : u.names = t.names.insert (makeRelativeName x k) y) (hsnd : u.Sound)
    (hnod : u.nodeId = t.nodeId) (hmnr : 0 < u.nextMinor ∧ u.nextMinor < 2 ^ 32)
    (hids : ∀ id, u.Has id → id.major = u.nodeId ∧ 0 < id.minor ∧ id.minor < u.nextMinor) :
    Laid u ∧ ∀ q, locate u q = if q = p ++ [k] then some y else locate t q := by
  have hrt := h.lookup_root_of_has hp hx
  have hyro : y ≠ rootOf t := fun heq => hy "/" (.inl rfl) (heq ▸ hrt)
  have hfl := keepsFlat_of_insert hns
  have hloc : ∀ q, locate u q = if q = p ++ [k] then some y else locate t q := by
    intro q
    rw [locate, entries_of_insert hns, rootOf_congr (hfl "/" (.inl rfl)) hnod]
    exact h.tree.walk_insert_leaf hp hso hfe hlf hyx q
  refine ⟨h.change hsnd hnod hmnr hids (fun key id hkey => ?_) hfl (by simp [hrt]) ?_
    fun q hq => ?_, hloc⟩
  · rw [hns] at hkey
    obtain ⟨rfl, rfl⟩ | ⟨-, hkey⟩ := lookup_insert_eq_some.mp hkey
    · exact .inr ⟨⟨x, k, hk, rfl⟩, hy⟩
    · exact .inl hkey
  · rw [entries_of_insert hns]
    exact h.tree.insert hp hso hfe hlf hyro hyx
  · rw [hloc] at hq
    split_ifs at hq with heq
    · rw [heq, length_append, length_singleton]
      omega
    · exact h.shallow q hq

end Laid

/-- A path is added to the index. -/
lemma Indexed.insert (hix : Indexed t) {r : List String} (hr : r ≠ []) (hy : locate u r ≠ none)
    (hfl : KeepsFlat t u)
    (hloc : ∀ q, q ≠ r → q ≠ [] → locate u q = locate t q) {id : TagId}
    (hsr : u.search = t.search.insert (joinComponents r) id) : Indexed u := by
  intro key
  rw [hsr, mem_insert, hix]
  constructor
  · rintro (rfl | ⟨hkey, hbd⟩ | ⟨q, hq, hbd, rfl⟩)
    · exact .inr ⟨r, hr, hy, rfl⟩
    · exact .inl ⟨hkey, by rwa [hfl key hkey]⟩
    · by_cases hqr : q = r
      · exact .inr ⟨r, hr, hy, by rw [hqr]⟩
      · exact .inr ⟨q, hq, by rwa [hloc q hqr hq], rfl⟩
  · rintro (⟨hkey, hbd⟩ | ⟨q, hq, hbd, rfl⟩)
    · exact .inr (.inl ⟨hkey, by rwa [hfl key hkey] at hbd⟩)
    · by_cases hqr : q = r
      · exact .inl (by rw [hqr])
      · exact .inr (.inr ⟨q, hq, by rwa [hloc q hqr hq] at hbd, rfl⟩)

/-! ## New tags -/

/-- The path `r` leads to a new tag `id` in `u`, and nothing else has changed. -/
structure Grows (t u : TagTable) (r : List String) (id : TagId) : Prop where
  charted : Charted u
  locate : ∀ q, q ≠ [] → locate u q = if q = r then some id else locate t q
  fresh : t.nextMinor ≤ id.minor
  sole : Sole (entries u) id
  leaf : ¬ IsDir (entries u) id
  has : ∀ id, t.Has id → u.Has id
  root : u.names.lookup "/" ≠ none
  room : u.nextMinor ≤ t.nextMinor + 2

lemma Grows.locate_self {r : List String} (h : Grows t u r x) (hr : r ≠ []) :
    ClioCore.Filesystem.locate u r = some x := by rw [h.locate r hr, if_pos rfl]

/-- What `GetOrAssignTagId` does for a name that is free. -/
structure Adds (t u : TagTable) (name : String) (new : TagId) : Prop where
  id : new = ⟨t.nodeId, t.nextMinor⟩
  names : u.names = t.names.insert name new
  infos : u.infos = t.infos.insert new ⟨name, 0, []⟩
  node : u.nodeId = t.nodeId
  next : u.nextMinor = t.nextMinor + 1
  /-- The name is resolved in the table as it is at that moment, with the new tag. -/
  search : ∃ v : TagTable, u.search = t.search.insert (v.resolveTagName name) new ∧
    v.names = u.names ∧ v.infos = u.infos ∧ v.nodeId = u.nodeId ∧ v.nextMinor = u.nextMinor

lemma getOrAssignTagId_adds {name : String} (hnm : t.names.lookup name = none)
    (hrm : t.nextMinor + 1 < 2 ^ 32) :
    Adds t (t.getOrAssignTagId name .null).2 name (t.getOrAssignTagId name .null).1 := by
  rw [getOrAssignTagId_null, hnm]
  exact ⟨rfl, rfl, rfl, rfl, Nat.mod_eq_of_lt hrm, _, rfl, rfl, rfl, rfl, rfl⟩

namespace Adds

variable {name : String} {new : TagId}

section

variable (had : Adds t u name new)
include had

lemma not_has (h : Laid t) : ¬ t.Has new := by
  intro hnew
  have hlt := (h.ids _ hnew).2.2
  rw [had.id] at hlt
  exact lt_irrefl _ hlt

lemma has {id : TagId} (hid : t.Has id) : u.Has id := by
  rw [TagTable.Has, had.infos]
  obtain rfl | hne := eq_or_ne id new
  · simp
  · rwa [lookup_insert_ne hne]

lemma lookup_ne (h : Laid t) (key : String) :
    t.names.lookup key ≠ some new := fun hkey => had.not_has h (h.sound.consistent.known _ _ hkey)

lemma not_isDir (h : Laid t) : ¬ IsDir (entries t) new := by
  rintro ⟨k, hk⟩
  obtain ⟨y, hy⟩ := ne_none_iff_exists'.mp hk
  exact had.not_has h (h.has_dir hy)

lemma sound (h : Laid t) (hnm : t.names.lookup name = none) (hne : name ≠ "") : u.Sound := by
  refine (h.sound.addTag hnm (had.not_has h) hne).of_lookup (fun key => ?_) fun id => ?_
  · rw [had.names]
    rfl
  · rw [had.infos]
    rfl

lemma ids (h : Laid t) {id : TagId} (hid : u.Has id) :
    id.major = u.nodeId ∧ 0 < id.minor ∧ id.minor < u.nextMinor := by
  rw [had.node, had.next]
  obtain rfl | hne := eq_or_ne id new
  · rw [had.id]
    exact ⟨rfl, h.minor.1, Nat.lt_succ_self _⟩
  · rw [TagTable.Has, had.infos, lookup_insert_ne hne] at hid
    obtain ⟨hmj, hpos, hlt⟩ := h.ids id hid
    exact ⟨hmj, hpos, Nat.lt_succ_of_lt hlt⟩

end

end Adds

/-- Where a path leads depends on the names only. -/
lemma locate_congr (hns : ∀ key, u.names.lookup key = t.names.lookup key)
    (hnod : u.nodeId = t.nodeId) (q : List String) : locate u q = locate t q := by
  rw [locate, entries_congr hns, rootOf_congr (hns "/") hnod, locate]

/-- **A new tag** under an entry that was free. -/
lemma Adds.grows {new : TagId} (had : Adds t u (makeRelativeName x k) new) (h : Charted t)
    (hp : locate t p = some x) (hx : t.Has x) (hso : Sole (entries t) x)
    (hk : IsComponent k) (hfe : entries t x k = none) (hlen : p.length < 256)
    (hrm : t.nextMinor + 1 < 2 ^ 32) : Grows t u (p ++ [k]) new := by
  have hne : new ≠ x := fun heq => had.not_has h.toLaid (heq ▸ hx)
  have hmnr : 0 < u.nextMinor ∧ u.nextMinor < 2 ^ 32 := by
    rw [had.next]
    exact ⟨Nat.succ_pos _, hrm⟩
  obtain ⟨hlaid, hloc⟩ := h.toLaid.insertEntry hp hx hso hk hfe hlen (had.not_isDir h.toLaid) hne
    (fun flat _ => had.lookup_ne h.toLaid flat) had.names
    (had.sound h.toLaid hfe (makeRelativeName_ne_empty x k)) had.node hmnr
    fun id => had.ids h.toLaid
  have hrt := h.lookup_root_of_has hp hx
  have hfl := keepsFlat_of_insert had.names
  obtain ⟨v, hsr, hns, his, hnod, hnx⟩ := had.search
  have hlk : ∀ key, v.names.lookup key = u.names.lookup key := fun key => by rw [hns]
  have hres : v.resolveTagName (makeRelativeName x k) = joinComponents (p ++ [k]) := by
    refine (hlaid.congr hlk (fun id => by rw [his]) hnod hnx).resolveTagName ?_ ?_ ?_ k
    · rw [locate_congr hlk hnod, hloc, if_neg (by simp), hp]
    · rw [TagTable.Has, his]
      exact had.has hx
    · rw [entries_congr hlk, entries_of_insert had.names]
      exact hso.setEntry fun heq => hne (some.inj heq)
  rw [hres] at hsr
  refine ⟨⟨hlaid, h.index.insert (by simp) ?_ hfl (fun q hq _ => ?_) hsr⟩, fun q _ => hloc q,
    by rw [had.id], ?_, ?_, fun id => had.has, ?_, by rw [had.next]; omega⟩
  · rw [hloc]
    simp
  · rw [hloc, if_neg hq]
  · refine .of_forall (x := x) (k := k) fun hw => ?_
    by_contra hwc
    rw [entries_of_insert had.names, setEntry_of_ne hwc] at hw
    exact had.lookup_ne h.toLaid _ hw
  · rw [entries_of_insert had.names]
    intro hdir
    rcases hdir.of_setEntry with hdir | ⟨heq, -⟩
    · exact had.not_isDir h.toLaid hdir
    · exact hne heq
  · rw [hfl "/" (.inl rfl), hrt]
    simp

/-- The root is created with the first path. -/
lemma Adds.charted_root {new : TagId} (had : Adds t u "/" new) (h : Charted t)
    (hrt : t.names.lookup "/" = none) (hrm : t.nextMinor + 1 < 2 ^ 32) :
    Charted u ∧ rootOf u = new ∧ ∀ q, q ≠ [] → locate u q = locate t q := by
  have hsf : u.names.lookup "/" = some new := by rw [had.names, lookup_insert]
  have hoths : ∀ key, key ≠ "/" → u.names.lookup key = t.names.lookup key := by
    intro key hkey
    rw [had.names, lookup_insert_ne hkey]
  have hens : ∀ x k, entries u x k = none := by
    intro x k
    have hne : makeRelativeName x k ≠ "/" := fun heq => not_flat_makeRelativeName x k (.inl heq)
    rw [entries, hoths _ hne]
    exact h.rooted hrt x k
  have hno : ∀ {w : TagTable}, (∀ x k, entries w x k = none) → ∀ q, q ≠ [] → locate w q = none := by
    intro w hw q hq
    obtain ⟨c, q, rfl⟩ := exists_cons_of_ne_nil hq
    rw [locate, walk, hw, bind_none]
  have hnotd : ∀ x, ¬ IsDir (entries u) x := fun x hx => hx.elim fun k hk => hk (hens x k)
  obtain ⟨v, hsr, hns, his, hnod, hnx⟩ := had.search
  have hres : v.resolveTagName "/" = "/" := by
    rw [TagTable.resolveTagName, TagTable.resolveTagNameFrom, TagTable.parseTagRef_root]
  refine ⟨⟨⟨had.sound h.toLaid hrt (by decide), ?_, ?_, fun id => had.ids h.toLaid,
    had.node ▸ h.node, ?_, ?_, fun _ => hens, ?_⟩, fun key => ?_⟩, rootOf_eq hsf, fun q hq => ?_⟩
  · intro key id hkey
    obtain rfl | hne := eq_or_ne key "/"
    · exact .inl (.inl rfl)
    · exact h.keys key id (hoths key hne ▸ hkey)
  · intro key key' id hfl hkey hkey'
    obtain rfl | hne := eq_or_ne key "/" <;> obtain rfl | hne' := eq_or_ne key' "/"
    · rfl
    · rw [hsf] at hkey
      rw [hoths key' hne', ← hkey] at hkey'
      exact absurd hkey' (had.lookup_ne h.toLaid key')
    · rw [hsf] at hkey'
      rw [hoths key hne, ← hkey'] at hkey
      exact absurd hkey (had.lookup_ne h.toLaid key)
    · exact h.single key key' id hfl (hoths key hne ▸ hkey) (hoths key' hne' ▸ hkey')
  · rw [had.next]
    exact ⟨Nat.succ_pos _, hrm⟩
  · exact ⟨fun x k hxk => absurd hxk (by simp [hens]), fun y hy => absurd hy (hnotd y),
      fun x hx => absurd hx (hnotd x)⟩
  · intro q hq
    obtain rfl : q = [] := by
      by_contra hne
      exact hq (hno hens q hne)
    exact Nat.zero_le _
  · rw [hsr, hres, mem_insert, h.index]
    constructor
    · rintro (rfl | ⟨hfl, hbd⟩ | ⟨q, hq, hbd, -⟩)
      · exact .inl ⟨.inl rfl, by simp [hsf]⟩
      · obtain rfl | hne := eq_or_ne key "/"
        · exact absurd hrt hbd
        · exact .inl ⟨hfl, by rwa [hoths key hne]⟩
      · exact absurd (hno (h.rooted hrt) q hq) hbd
    · rintro (⟨hfl, hbd⟩ | ⟨q, hq, hbd, -⟩)
      · obtain rfl | hne := eq_or_ne key "/"
        · exact .inl rfl
        · exact .inr (.inl ⟨hfl, by rwa [hoths key hne] at hbd⟩)
      · exact absurd (hno hens q hq) hbd
  · rw [hno hens q hq, hno (h.rooted hrt) q hq]

/-! ## Paths -/

lemma assignChain_append (t : TagTable) (parent : TagId) (p q : List String) :
    t.assignChain parent .null (p ++ q)
      = (t.assignChain parent .null p).2.assignChain (t.assignChain parent .null p).1 .null q := by
  induction p generalizing t parent with
  | nil => rfl
  | cons c p ih =>
    simp only [cons_append, TagTable.assignChain, ite_self]
    exact ih _ _

/-- A path is created after its parent. -/
lemma getOrCreateTag_concat (t : TagTable) (h : ∀ c ∈ p ++ [k], IsComponent c) :
    t.getOrCreateTag (joinComponents (p ++ [k])) .null
      = (t.getOrCreateTag (joinComponents p) .null).2.getOrAssignTagId
        (makeRelativeName (t.getOrCreateTag (joinComponents p) .null).1 k) .null := by
  have hp : ∀ c ∈ p, IsComponent c := fun c hc => h c (mem_append_left _ hc)
  rw [getOrCreateTag_null, getOrCreateTag_null, TagTable.getOrCreateTagChain,
    TagTable.getOrCreateTagChain, if_pos (isHierPath_joinComponents _ h),
    if_pos (isHierPath_joinComponents _ hp), splitPathComponents_joinComponents _ h,
    splitPathComponents_joinComponents _ hp]
  rw [assignChain_append]
  simp [TagTable.assignChain]

/-- A path that is there is not created. -/
lemma getOrCreateTag_of_locate (h : Laid t) (hp : ∀ c ∈ p, IsComponent c) (hx : locate t p = some x)
    (hhas : t.Has x) : t.getOrCreateTag (joinComponents p) .null = (x, t) := by
  refine getOrCreateTag_of_findTag ?_
  by_cases hne : p = []
  · subst hne
    have hrt := h.lookup_root_of_has hx hhas
    obtain rfl : rootOf t = x := some.inj hx
    rw [Core.findTag, hrt]
    rfl
  · rw [findTag_joinComponents h hp hne, hx]

/-- **Creating a path** whose parent is there. -/
lemma Charted.create (h : Charted t) (hp : locate t p = some x)
    (hso : Sole (entries t) x) (hcs : ∀ c ∈ p ++ [k], IsComponent c)
    (hfe : locate t (p ++ [k]) = none) (hlen : p.length < 256) (hrm : t.nextMinor + 2 < 2 ^ 32) :
    Grows t (t.getOrCreateTag (joinComponents (p ++ [k])) .null).2 (p ++ [k])
      (t.getOrCreateTag (joinComponents (p ++ [k])) .null).1 := by
  have hcs' : ∀ c ∈ p, IsComponent c := fun c hc => hcs c (mem_append_left _ hc)
  have hk : IsComponent k := hcs k (by simp)
  rw [getOrCreateTag_concat t hcs]
  by_cases hhas : t.Has x
  · have hen := (locate_concat hp _).symm.trans hfe
    rw [getOrCreateTag_of_locate h.toLaid hcs' hp hhas]
    exact (getOrAssignTagId_adds hen (by omega)).grows h hp hhas hso hk hen hlen (by omega)
  · -- Only the root may be missing.
    obtain rfl : p = [] := by
      by_contra hne
      exact hhas (h.has_of_locate hp hne)
    obtain rfl : rootOf t = x := some.inj hp
    have hrt : t.names.lookup "/" = none := by
      by_contra hbd
      obtain ⟨r, hr⟩ := ne_none_iff_exists'.mp hbd
      exact hhas (rootOf_eq hr ▸ h.has_root hr)
    have hcre : t.getOrCreateTag (joinComponents []) .null = t.getOrAssignTagId "/" .null := by
      rfl
    rw [hcre]
    have had := getOrAssignTagId_adds hrt (by omega)
    generalize t.getOrAssignTagId "/" .null = r at had ⊢
    obtain ⟨hcha, hrt', hloc⟩ := had.charted_root h hrt (by omega)
    have hsf : r.2.names.lookup "/" = some r.1 := by rw [had.names, lookup_insert]
    have hhas' : r.2.Has r.1 := hcha.has_root hsf
    have hnx := had.next
    have hen : entries r.2 r.1 k = none := by
      have := hloc [k] (by simp)
      rw [nil_append] at hfe
      rw [hfe, locate, hrt', walk] at this
      cases hy : entries r.2 r.1 k with
      | none => rfl
      | some y => simp [hy, walk] at this
    have hp' : locate r.2 [] = some r.1 := by rw [locate, hrt', walk]
    have hgr := (getOrAssignTagId_adds hen (by omega)).grows hcha hp' hhas'
      (hrt' ▸ hcha.tree.sole_root) hk hen hlen (by omega)
    refine { hgr with locate := fun q hq => ?_, fresh := ?_, has := fun id hid => ?_, room := ?_ }
    · rw [hgr.locate q hq, hloc q hq]
    · have := hgr.fresh
      omega
    · exact hgr.has id (had.has hid)
    · have := (getOrAssignTagId_adds hen (by omega)).next
      omega

/-! ## Aliases -/

lemma splitParentLeaf_joinComponents (h : ∀ c ∈ p ++ [k], IsComponent c) :
    splitParentLeaf (joinComponents (p ++ [k])) = some (joinComponents p, k) := by
  rw [splitParentLeaf, splitPathComponents_joinComponents _ h, getLast?_concat, dropLast_concat]

/-- No key is a path with components. -/
lemma Laid.lookup_joinComponents (h : Laid t) (hp : ∀ c ∈ p, IsComponent c) (hne : p ≠ []) :
    t.names.lookup (joinComponents p) = none := by
  by_contra hbd
  obtain ⟨id, hid⟩ := ne_none_iff_exists'.mp hbd
  rcases h.keys _ _ hid with hfl | ⟨x, k, -, heq⟩
  · exact not_flat_joinComponents hne hp hfl
  · have hhier := isHierPath_joinComponents p hp
    rw [heq, isHierPath] at hhier
    simp [makeRelativeName, kTagRefPrefix] at hhier

lemma Laid.resolvePathToId (h : Laid t) (hp : ∀ c ∈ p, IsComponent c) (hx : locate t p = some x)
    (hhas : t.Has x) : t.resolvePathToId (joinComponents p) = x := by
  have hwk : walk (entries t) (rootOf t) p = some x := hx
  rw [TagTable.resolvePathToId, h.lookup_root_of_has hx hhas, bind_some,
    splitPathComponents_joinComponents p hp, walk_eq, hwk, getD_some]

/-- The path `r` leads to `id` in `u`, and no other path has changed. -/
structure Linked (t u : TagTable) (r : List String) (id : Option TagId) : Prop where
  charted : Charted u
  locate : ∀ q, locate u q = if q = r then id else locate t q
  has : ∀ x, u.Has x ↔ t.Has x
  room : u.nextMinor = t.nextMinor
  root : u.names.lookup "/" = t.names.lookup "/"

/-- **A hard link.**  The tag of a file gets another entry. -/
lemma Charted.bindAlias (h : Charted t) (hp : locate t p = some x) (hx : t.Has x)
    (hso : Sole (entries t) x) (hk : IsComponent k) (hfe : entries t x k = none)
    (hlen : p.length < 256) (hq : locate t q = some y) (hne : q ≠ []) (hlf : ¬ IsDir (entries t) y)
    (hyx : y ≠ x) : Linked t (t.bindAlias y (makeRelativeName x k)) (p ++ [k]) (some y) := by
  have hy : t.Has y := h.has_of_locate hq hne
  obtain ⟨info, hin⟩ := ne_none_iff_exists'.mp hy
  have hnot : ¬ (makeRelativeName x k = info.tagName ∨ makeRelativeName x k ∈ info.aliases) := by
    intro hor
    have hbd := (h.sound.consistent.bound y info hin _).mpr (mem_cons.mpr hor)
    simp [show t.names.lookup (makeRelativeName x k) = none from hfe] at hbd
  have hsnd := h.sound.bindAlias hin hfe (makeRelativeName_ne_empty x k)
  generalize hu : t.bindAlias y (makeRelativeName x k) = u at hsnd ⊢
  obtain ⟨hns, his, hsr, hnod, hnx⟩ : u.names = t.names.insert (makeRelativeName x k) y ∧
      u.infos = t.infos.insert y { info with aliases := info.aliases ++ [makeRelativeName x k] } ∧
      u.search = t.search.insert (t.resolveTagName (makeRelativeName x k)) y ∧
      u.nodeId = t.nodeId ∧ u.nextMinor = t.nextMinor := by
    simp [← hu, TagTable.bindAlias, hin, hnot]
  have hhas := has_iff_of_insert hin his
  have hfl := keepsFlat_of_insert hns
  have hids : ∀ id, u.Has id → id.major = u.nodeId ∧ 0 < id.minor ∧ id.minor < u.nextMinor := by
    intro id hid
    rw [hnod, hnx]
    exact h.ids id ((hhas id).mp hid)
  obtain ⟨hlaid, hloc⟩ := h.toLaid.insertEntry hp hx hso hk hfe hlen hlf hyx
    (fun flat => h.not_flat_of_locate hq hne) hns hsnd hnod (hnx ▸ h.minor) hids
  rw [h.toLaid.resolveTagName hp hx hso k] at hsr
  refine ⟨⟨hlaid, h.index.insert (by simp) ?_ hfl (fun q hq _ => ?_) hsr⟩, hloc, hhas, hnx,
    hfl "/" (.inl rfl)⟩
  · rw [hloc]
    simp
  · rw [hloc, if_neg hq]

/-- `GetOrCreateTagAlias` of a file under a path that is free and whose parent is there. -/
lemma Charted.getOrCreateTagAlias (h : Charted t) (hp : locate t p = some x)
    (hcs : ∀ c ∈ p ++ [k], IsComponent c) (hfe : locate t (p ++ [k]) = none)
    (hcs' : ∀ c ∈ q, IsComponent c) (hq : locate t q = some y) (hne : q ≠ []) :
    t.getOrCreateTagAlias .null (joinComponents q) (joinComponents (p ++ [k]))
      = ((0, true, y), t.bindAlias y (makeRelativeName x k)) ∧ t.Has x ∧ entries t x k = none := by
  have hy : t.Has y := h.has_of_locate hq hne
  have hp' : ∀ c ∈ p, IsComponent c := fun c hc => hcs c (mem_append_left _ hc)
  have hrt := h.lookup_root_of_has hq hy
  have hx : t.Has x := by
    by_cases hnil : p = []
    · subst hnil
      obtain rfl : rootOf t = x := some.inj hp
      exact h.has_root hrt
    · exact h.has_of_locate hp hnil
  have hen := (locate_concat hp _).symm.trans hfe
  have hlk : t.names.lookup (makeRelativeName x k) = none := hen
  have htg : t.aliasTarget .null (joinComponents q) = y := by
    simp [TagTable.aliasTarget, joinComponents_ne_empty hcs', isHierPath_joinComponents q hcs',
      h.resolvePathToId hcs' hq hy, h.ne_null hy]
  have hkey : t.aliasKey (joinComponents (p ++ [k])) = some (makeRelativeName x k, t) := by
    have hchn := getOrCreateTag_of_locate h.toLaid hp' hp hx
    rw [getOrCreateTag_null] at hchn
    rw [TagTable.aliasKey, if_pos (isHierPath_joinComponents _ hcs),
      splitParentLeaf_joinComponents hcs]
    simp [hchn]
  refine ⟨?_, hx, hen⟩
  rw [TagTable.getOrCreateTagAlias, if_neg (joinComponents_ne_empty hcs)]
  simp [htg, h.ne_null hy, hy, hkey, hlk]

end ClioCore.Filesystem
