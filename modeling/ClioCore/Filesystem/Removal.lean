import ClioCore.Filesystem.Creation

/-!
# Entries that go

What `DelTag` does to the namespace when it is given the path of a file or of an empty directory:
the entry goes, and with it the tag unless the file has another entry.  No ancestor goes, because
every directory but the root has its marker; and `DelTag` returns, because no path is deeper than
256.
-/

namespace ClioCore.Filesystem

open Foundations Foundations.Namespace Cte List Option AList TagTable

variable {t u : TagTable} {x y : TagId} {k : String} {p q : List String}

/-! ## Removing an entry -/

lemma entries_of_erase (h : ∀ key, u.names.lookup key
      = if key = makeRelativeName x k then none else t.names.lookup key) :
    entries u = setEntry (entries t) x k none := by
  funext x' k'
  by_cases hxk : x' = x ∧ k' = k
  · obtain ⟨rfl, rfl⟩ := hxk
    rw [setEntry_self, entries, h, if_pos rfl]
  · rw [setEntry_of_ne hxk, entries, h, if_neg fun he => hxk (makeRelativeName_injective he)]
    rfl

namespace Laid

/-- The entry of something that is no directory is removed. -/
lemma removeEntry (h : Laid t) (hp : locate t p = some x) (hy : entries t x k = some y)
    (hlf : ¬ IsDir (entries t) y) (hns : ∀ key, u.names.lookup key
      = if key = makeRelativeName x k then none else t.names.lookup key)
    (hsnd : u.Sound) (hnod : u.nodeId = t.nodeId) (hnx : u.nextMinor = t.nextMinor)
    (hhas : ∀ z, u.Has z → t.Has z) :
    Laid u ∧ ∀ q, locate u q = if q = p ++ [k] then none else locate t q := by
  have hrt := h.lookup_root hy
  have hfl : KeepsFlat t u := by
    intro key hkey
    rw [hns, if_neg hkey.ne_makeRelativeName]
  have hloc : ∀ q, locate u q = if q = p ++ [k] then none else locate t q := by
    intro q
    rw [locate, entries_of_erase hns, rootOf_congr (hfl "/" (.inl rfl)) hnod]
    exact h.tree.walk_remove_leaf hp hy hlf q
  refine ⟨h.change hsnd hnod (hnx ▸ h.minor) (fun id hid => ?_) (fun key id hkey => ?_) hfl
    (by simp [hrt]) ?_ fun q hq => ?_, hloc⟩
  · rw [hnod, hnx]
    exact h.ids id (hhas id hid)
  · rw [hns] at hkey
    split_ifs at hkey
    exact .inl hkey
  · rw [entries_of_erase hns]
    exact h.tree.remove hp hy hlf
  · rw [hloc] at hq
    split_ifs at hq
    · exact absurd rfl hq
    · exact h.shallow q hq

end Laid

/-- Paths are taken out of the index. -/
lemma Indexed.delete (hix : Indexed t) (gone : List String)
    (hsr : ∀ key, key ∈ u.search ↔ key ∈ t.search ∧ key ∉ gone)
    (hgn : ∀ key ∈ gone, ¬ Flat key)
    (hfl : KeepsFlat t u)
    (hloc : ∀ q, q ≠ [] → (locate u q ≠ none ↔ locate t q ≠ none ∧ joinComponents q ∉ gone)) :
    Indexed u := by
  intro key
  rw [hsr, hix]
  constructor
  · rintro ⟨⟨hkey, hbd⟩ | ⟨q, hq, hbd, rfl⟩, hkp⟩
    · exact .inl ⟨hkey, by rwa [hfl key hkey]⟩
    · exact .inr ⟨q, hq, (hloc q hq).mpr ⟨hbd, hkp⟩, rfl⟩
  · rintro (⟨hkey, hbd⟩ | ⟨q, hq, hbd, rfl⟩)
    · exact ⟨.inl ⟨hkey, by rwa [hfl key hkey] at hbd⟩, fun hmem => hgn key hmem hkey⟩
    · obtain ⟨hold, hkp⟩ := (hloc q hq).mp hbd
      exact ⟨.inr ⟨q, hq, hold, rfl⟩, hkp⟩

lemma mem_searchDelete (t : TagTable) (gone : List String) (key : String) :
    key ∈ (t.searchDelete gone).search ↔ key ∈ t.search ∧ key ∉ gone := by
  have hsr : (t.searchDelete gone).search =
      gone.foldl (fun search key => search.erase key) t.search :=
    rfl
  rw [hsr, ← lookup_isSome, ← lookup_isSome, lookup_foldl_erase]
  split_ifs with hmem
  · simp [hmem]
  · simp [hmem]

/-- The paths `gone` lead nowhere in `u` and the tags `tags` are no longer there; nothing else has
changed. -/
structure Removed (t u : TagTable) (gone : List (List String)) (tags : List TagId) : Prop where
  charted : Charted u
  locate : ∀ q, locate u q = if q ∈ gone then none else locate t q
  has : ∀ z, u.Has z ↔ t.Has z ∧ z ∉ tags
  infos : ∀ z, (∀ q ∈ gone, ClioCore.Filesystem.locate t q ≠ some z) →
    u.infos.lookup z = t.infos.lookup z
  room : u.nextMinor = t.nextMinor
  root : u.names.lookup "/" = t.names.lookup "/"

/-- What is to be shown of a removal, once the namespace that remains is known. -/
lemma Charted.removed (h : Charted t) {gone : List (List String)} {tags : List TagId}
    (hlaid : Laid u) (hpts : ∀ q ∈ gone, q ≠ [] ∧ locate t q ≠ none)
    (hloc : ∀ q, locate u q = if q ∈ gone then none else locate t q)
    (hsr : ∀ key, key ∈ u.search ↔ key ∈ t.search ∧ key ∉ gone.map joinComponents)
    (hfl : KeepsFlat t u)
    (hhas : ∀ z, u.Has z ↔ t.Has z ∧ z ∉ tags)
    (his : ∀ z, (∀ q ∈ gone, locate t q ≠ some z) → u.infos.lookup z = t.infos.lookup z)
    (hroom : u.nextMinor = t.nextMinor) : Removed t u gone tags := by
  refine ⟨⟨hlaid, h.index.delete _ hsr (fun key hkey => ?_) hfl fun q hq => ?_⟩, hloc, hhas,
    his, hroom, hfl "/" (.inl rfl)⟩
  · obtain ⟨q, hq, rfl⟩ := mem_map.mp hkey
    exact not_flat_joinComponents (hpts q hq).1 (h.isComponent (hpts q hq).2)
  · rw [hloc]
    split_ifs with hmem
    · exact iff_of_false (fun hne => hne rfl) fun hkp => hkp.2 (mem_map_of_mem hmem)
    · refine ⟨fun hq => ⟨hq, fun hkey => hmem ?_⟩, And.left⟩
      obtain ⟨r, hr, heq⟩ := mem_map.mp hkey
      rwa [← joinComponents_inj (h.isComponent (hpts r hr).2) (h.isComponent hq) heq]

/-! ## One of several entries -/

/-- A file loses one entry of several. -/
lemma Charted.removeLink (h : Charted t) (hp : locate t p = some x) (hy : entries t x k = some y)
    (hlf : ¬ IsDir (entries t) y) (hns : u.names = t.names.erase (makeRelativeName x k))
    (hsr : u.search = t.search.erase (t.resolveTagName (makeRelativeName x k)))
    (info : TagInfo) (his : u.infos = t.infos.insert y info)
    (hsnd : u.Sound) (hnod : u.nodeId = t.nodeId) (hnx : u.nextMinor = t.nextMinor) :
    Removed t u [p ++ [k]] [] := by
  obtain ⟨info', hin⟩ := ne_none_iff_exists'.mp (h.has_of_entry hy)
  have hhas := has_iff_of_insert hin his
  have hlk : ∀ key, u.names.lookup key
      = if key = makeRelativeName x k then none else t.names.lookup key := by
    intro key
    rw [hns, lookup_erase_eq]
    simp
  obtain ⟨hlaid, hloc⟩ := h.toLaid.removeEntry hp hy hlf hlk hsnd hnod hnx fun z hz =>
    (hhas z).mp hz
  have hpt := (locate_concat hp k).trans hy
  rw [h.toLaid.resolveTagName hp (h.has_dir hy) (h.tree.sole_of_entry hy) k] at hsr
  refine h.removed hlaid (by simp [hpt]) (fun q => ?_) (fun key => ?_) (fun key hkey => ?_)
    (fun z => ?_) (fun z hz => ?_) hnx
  · simp [hloc]
  · rw [hsr]
    simp [and_comm]
  · rw [hlk, if_neg hkey.ne_makeRelativeName]
  · simp [hhas]
  · rw [his, lookup_insert_ne]
    rintro rfl
    exact hz _ mem_cons_self hpt

/-! ## Names, parents and children -/

lemma eq_singleton_of_forall {α : Type} {l : List α} {a : α} (hnd : l.Nodup) (hmem : a ∈ l)
    (hall : ∀ b ∈ l, b = a) : l = [a] := by
  have hrep := eq_replicate_of_mem hall
  rw [hrep, nodup_replicate] at hnd
  have hpos := length_pos_of_mem hmem
  rw [hrep, show l.length = 1 by omega, replicate_one]

namespace Laid

section

variable (h : Laid t)
include h

section

variable (hp : locate t p = some x) (hy : entries t x k = some y)
include hp hy

/-- The tag that a path is for, and the key it is found under. -/
lemma delTarget : t.delTarget .null (joinComponents (p ++ [k])) =
    some (y, makeRelativeName x k) := by
  have hpt := (locate_concat hp k).trans hy
  have hcs := h.isComponent (p := p ++ [k]) (by simp [hpt])
  have hx : t.Has x := h.has_dir hy
  have hnot : joinComponents (p ++ [k]) ≠ "/" := fun heq =>
    not_flat_joinComponents (by simp) hcs (.inl heq)
  have hpar := h.resolvePathToId (fun c hc => hcs c (mem_append_left _ hc)) hp hx
  have hlk : t.names.lookup (makeRelativeName x k) = some y := hy
  have hne : y ≠ .null := h.ne_null (h.has_of_entry hy)
  rw [TagTable.delTarget, if_neg (joinComponents_ne_empty hcs)]
  dsimp only
  rw [if_pos (isHierPath_joinComponents _ hcs), if_neg hnot, splitParentLeaf_joinComponents hcs]
  dsimp only
  rw [hpar, if_neg (h.ne_null hx), hlk]
  simp [hne]

variable (hso : Sole (entries t) y)
include hso

/-- A tag with one entry has one name. -/
lemma namesOf_of_sole : t.namesOf y = [makeRelativeName x k] := by
  have hpt := (locate_concat hp k).trans hy
  have hall : ∀ name ∈ t.namesOf y, name = makeRelativeName x k := by
    intro name hnm
    obtain ⟨d, c, -, rfl, hd⟩ :=
      h.entry_of_name hpt (by simp) (h.sound.consistent.lookup_iff.mpr hnm)
    obtain ⟨rfl, rfl⟩ := hso d c x k hd hy
    rfl
  have hmem : makeRelativeName x k ∈ t.namesOf y := h.sound.consistent.lookup_iff.mp hy
  exact eq_singleton_of_forall (h.sound.consistent.nodup y) hmem hall

lemma names_of_sole {info : TagInfo} (hin : t.infos.lookup y = some info) :
    info.tagName = makeRelativeName x k ∧ info.aliases = [] := by
  have hns := h.namesOf_of_sole hp hy hso
  rw [namesOf_eq hin] at hns
  exact cons.inj hns

lemma parentOf_of_sole : t.parentOf y = some x := by
  obtain ⟨info, hin⟩ := ne_none_iff_exists'.mp (h.has_of_entry hy)
  have hnm := (h.names_of_sole hp hy hso hin).1
  rw [parentOf, hin, bind_some, hnm, parseTagRef_makeRelativeName (h.fits (h.has_dir hy)),
    map_some]

/-- A file with one entry goes. -/
lemma dropTag (hlf : ¬ IsDir (entries t) y) : Laid (t.dropTag y) ∧
    (∀ key, (t.dropTag y).names.lookup key
      = if key = makeRelativeName x k then none else t.names.lookup key) ∧
    ∀ q, locate (t.dropTag y) q = if q = p ++ [k] then none else locate t q := by
  have hns : ∀ key, (t.dropTag y).names.lookup key
      = if key = makeRelativeName x k then none else t.names.lookup key := by
    intro key
    rw [h.sound.lookup_names_dropTag, h.namesOf_of_sole hp hy hso]
    simp
  have hhas : ∀ z, (t.dropTag y).Has z → t.Has z := by
    intro z hz
    rw [Has, lookup_dropTag] at hz
    split_ifs at hz
    · exact absurd rfl hz
    · exact hz
  obtain ⟨hlaid, hloc⟩ := h.removeEntry hp hy hlf hns (h.sound.dropTag y) rfl rfl hhas
  exact ⟨hlaid, hns, hloc⟩

end

/-- A tag is an entry of the parent that its canonical name names. -/
lemma entry_of_parentOf {z d : TagId} (hpar : t.parentOf z = some d) :
    ∃ c, entries t d c = some z ∧ ∃ info, t.infos.lookup z = some info ∧
      info.tagName = makeRelativeName d c := by
  obtain ⟨info, hin, href⟩ := bind_eq_some_iff.mp hpar
  obtain ⟨⟨d', c⟩, hprs, rfl⟩ := map_eq_some_iff.mp href
  have hbd := h.lookup_tagName hin
  rcases h.keys _ _ hbd with hfl | ⟨d, k, -, hnm⟩
  · have hno : ∀ key ∈ "/" :: reservedNames, parseTagRef key = none := by decide
    simp [hno _ (mem_cons.mpr hfl)] at hprs
  · rw [hnm] at hbd
    rw [hnm, parseTagRef_makeRelativeName (h.fits (h.has_dir hbd))] at hprs
    obtain ⟨rfl, rfl⟩ := Prod.mk.inj (some.inj hprs)
    exact ⟨k, hbd, info, hin, hnm⟩

lemma children_of_leaf (hlf : ¬ IsDir (entries t) y) : t.children y = [] := by
  rw [children, filter_eq_nil_iff]
  intro z _ hz
  obtain ⟨c, hc, -⟩ := h.entry_of_parentOf (of_decide_eq_true hz)
  exact hlf (isDir_of_entry hc)

/-- The loop over the ancestors ends, and its first tag is the parent. -/
lemma ancestorChain (hp : locate t p = some x) (hx : entries t x k = some y) {n : ℕ}
    (hn : p.length + 1 ≤ n) :
    ∃ l, t.ancestorChain n (makeRelativeName x k) = some l ∧
      (l = [] ∨ x ≠ rootOf t ∧ ∃ l', l = x :: l') := by
  have hhas := h.has_dir hx
  induction p using reverseRecOn generalizing x k y n with
  | nil =>
    obtain ⟨n, rfl⟩ : ∃ m, n = m + 1 := ⟨n - 1, by simp at hn; omega⟩
    obtain rfl : rootOf t = x := some.inj hp
    refine ⟨[], ?_, .inl rfl⟩
    rw [ancestorChain, parseTagRef_makeRelativeName (h.fits hhas)]
    simp [h.lookup_root hx, h.ne_null hhas]
  | append_singleton p c ih =>
    obtain ⟨n, rfl⟩ : ∃ m, n = m + 1 := ⟨n - 1, by simp at hn; omega⟩
    obtain ⟨d, hd, hdc⟩ := walk_concat_eq_some.mp hp
    have hne : x ≠ rootOf t := fun hxr => h.tree.root d c (hxr ▸ hdc)
    have hrt : ¬ (t.names.lookup "/" = some x ∧ x ≠ .null) :=
      fun hxr => hne (rootOf_eq hxr.1).symm
    obtain ⟨info, hin⟩ := ne_none_iff_exists'.mp hhas
    have hnm := (h.names_of_sole hd hdc (h.tree.sole_of_entry hx) hin).1
    have hlen : p.length + 1 ≤ n := by simpa using hn
    obtain ⟨l, hl, -⟩ := ih hd hdc hlen (h.has_dir hdc)
    refine ⟨x :: l, ?_, .inr ⟨hne, l, rfl⟩⟩
    rw [ancestorChain, parseTagRef_makeRelativeName (h.fits hhas)]
    simp [if_neg hrt, hin, hnm, hl]

end

end Laid

/-- The directory is the root or has its marker. -/
def Marked (t : TagTable) (x : TagId) : Prop :=
  x = rootOf t ∨ ∃ m, entries t x kDirMarker = some m ∧ ¬ IsDir (entries t) m ∧ Sole (entries t) m

/-- Deleting some entries of a directory prunes nothing if its marker stays. -/
lemma Laid.pruneAncestors (h : Laid t) (hp : locate t p = some x) (hk : entries t x k = some y)
    (hmk : Marked t x) {gone : List TagId}
    (hgn : ∀ m, entries t x kDirMarker = some m → Sole (entries t) m → m ∉ gone) (hx : x ∉ gone)
    (his : ∀ z, u.infos.lookup z = if z ∈ gone then none else t.infos.lookup z) {fuel : ℕ}
    (hfu : 300 ≤ fuel) :
    ∃ l, t.ancestorChain fuel (makeRelativeName x k) = some l ∧ u.pruneAncestors l = u := by
  have hlen : p.length ≤ 256 := h.shallow p (by simp [hp])
  obtain ⟨l, hl, hfst⟩ := h.ancestorChain hp hk (n := fuel) (by omega)
  refine ⟨l, hl, ?_⟩
  rcases hfst with rfl | ⟨hne, l', rfl⟩
  · rfl
  · obtain ⟨m, hm, -, hso⟩ := hmk.resolve_left hne
    have hpar := h.parentOf_of_sole hp hm hso
    have hhas : u.Has x := by
      rw [Has, his, if_neg hx]
      exact h.has_dir hk
    have hkp : u.parentOf m = some x := by
      rwa [parentOf, his, if_neg (hgn m hm hso)]
    -- ancestors stay where the first of them has a child
    obtain ⟨info, hin⟩ := ne_none_iff_exists'.mp hhas
    have hch : u.children x ≠ [] := by
      refine ne_nil_of_mem (mem_filter.mpr ⟨?_, decide_eq_true hkp⟩)
      exact lookup_isSome.mp (ne_none_iff_isSome.mp (has_of_parentOf hkp))
    rw [TagTable.pruneAncestors, hin]
    simp [if_neg hch]

/-! ## Deleting a path -/

lemma Laid.searchDelete (h : Laid t) (gone : List String) : Laid (t.searchDelete gone) :=
  h.congr (fun _ => rfl) (fun _ => rfl) rfl rfl

/-- The tags `ids`, which are at the paths `gone`, are deleted, and nothing is pruned. -/
lemma Charted.cascade (h : Charted t) (hp : locate t p = some x) (hy : entries t x k = some y)
    (hmk : Marked t x) {ids : List TagId} {gone : List (List String)}
    (hmem : ∀ m, entries t x kDirMarker = some m → Sole (entries t) m → m ∉ ids) (hx : x ∉ ids)
    (hpts : ∀ q ∈ gone, q ≠ [] ∧ locate t q ≠ none)
    (hids : ∀ z ∈ ids, ∃ q ∈ gone, locate t q = some z)
    {dead : List String} (hdead : ∀ key, key ∈ dead ↔ key ∈ gone.map joinComponents)
    (hu : ids.foldl .dropTag (t.searchDelete dead) = u) (hlaid : Laid u)
    (hloc : ∀ q, locate u q = if q ∈ gone then none else locate t q) (hfl : KeepsFlat t u)
    (hsr : u.search = (t.searchDelete dead).search) (hroom : u.nextMinor = t.nextMinor) {fuel : ℕ}
    (hfu : 300 ≤ fuel) :
    ∃ l, t.ancestorChain fuel (makeRelativeName x k) = some l ∧
      Removed t ((t.searchDelete dead).dropTags ids l) gone ids := by
  have his : ∀ z, u.infos.lookup z = if z ∈ ids then none else t.infos.lookup z := by
    rw [← hu]
    exact lookup_foldl_dropTag ids _
  obtain ⟨l, hl, hpru⟩ := h.toLaid.pruneAncestors hp hy hmk hmem hx his hfu
  refine ⟨l, hl, ?_⟩
  rw [dropTags, hu, hpru]
  refine h.removed hlaid hpts hloc (fun key => ?_) hfl (fun z => ?_) (fun z hz => ?_) hroom
  · rw [hsr, mem_searchDelete, hdead]
  · rw [Has, his, Has]
    split_ifs with hz <;> simp [hz]
  · refine (his z).trans (if_neg fun hmem => ?_)
    obtain ⟨q, hq, hqz⟩ := hids z hmem
    exact hz q hq hqz

section

variable (h : Charted t) (hp : locate t p = some x) (hy : entries t x k = some y)
  (hlf : ¬ IsDir (entries t) y)
include h hp hy hlf

/-- A file without another entry is deleted. -/
lemma Charted.dropFile (hso : Sole (entries t) y) (hk : k ≠ kDirMarker) (hmk : Marked t x)
    {fuel : ℕ} (hfu : 300 ≤ fuel) :
    ∃ l, t.ancestorChain fuel (makeRelativeName x k) = some l ∧
      Removed t ((t.searchDelete (t.deadEntries (makeRelativeName x k) [y])).dropTags [y] l)
        [p ++ [k]] [y] := by
  have hpt := (locate_concat hp k).trans hy
  have hcs := h.isComponent (p := p ++ [k]) (by simp [hpt])
  -- The paths that leave the index: nothing is below a file, and this one has no other name.
  have hgn : t.deadEntries (makeRelativeName x k) [y] = [joinComponents (p ++ [k])] := by
    have habs : t.resolveTagName (makeRelativeName x k) = joinComponents (p ++ [k]) :=
      h.toLaid.resolveTagName hp (h.has_dir hy) (h.tree.sole_of_entry hy) k
    have hbl : t.searchBelow (joinComponents (p ++ [k])) = [] := by
      refine eq_nil_iff_forall_not_mem.mpr fun key hkey => ?_
      obtain ⟨r, hr, hbd, -, -⟩ := (mem_searchBelow h.toLaid h.index hcs (by simp)).mp hkey
      exact hbd ((locate_append hpt r).trans (walk_of_not_isDir hlf hr))
    have hals : ((t.infos.lookup y).getD ⟨"", 0, []⟩).aliases = [] := by
      obtain ⟨info, hin⟩ := ne_none_iff_exists'.mp (h.has_of_entry hy)
      rw [hin]
      exact (h.toLaid.names_of_sole hp hy hso hin).2
    rw [deadEntries, habs, hbl]
    simp [hals]
  rw [hgn]
  obtain ⟨hlaid, hns, hloc⟩ :=
    (h.toLaid.searchDelete [joinComponents (p ++ [k])]).dropTag hp hy hso hlf
  refine h.cascade hp hy hmk (fun m hm hm' hmy => ?_) (fun hxy => ?_) (by simp [hpt])
    (by simpa using hpt) (by simp) (u := .dropTag _ y) rfl hlaid (fun q => ?_)
    (fun key hkey => ?_) rfl rfl
    hfu
  · rw [mem_singleton.mp hmy] at hm hm'
    exact hk (hm' _ _ _ _ hm hy).2.symm
  · exact hlf (mem_singleton.mp hxy ▸ isDir_of_entry hy)
  · rw [hloc]
    simp only [mem_singleton]
    rfl
  · rw [hns, if_neg hkey.ne_makeRelativeName]
    rfl

/-- **`DelTag` of a file.**  One entry goes, and the tag if it was the only one. -/
lemma Charted.delFile (hk : k ≠ kDirMarker) (hmk : Marked t x) {fuel : ℕ} (hfu : 300 ≤ fuel) :
    ∃ plan id u gone, t.delPlan fuel .null (joinComponents (p ++ [k])) true = some plan ∧
      t.delTag fuel .null (joinComponents (p ++ [k])) true = some ((0, id), u) ∧
      Core.deletedTags plan = gone ∧ Removed t u [p ++ [k]] gone ∧
      (gone = [y] ∧ Sole (entries t) y ∨ gone = [] ∧ ¬ Sole (entries t) y) := by
  have hpt := (locate_concat hp k).trans hy
  have htg := h.toLaid.delTarget hp hy
  obtain ⟨info, hin⟩ := ne_none_iff_exists'.mp (h.has_of_entry hy)
  have hkey : makeRelativeName x k ≠ "" := makeRelativeName_ne_empty x k
  obtain ⟨d, c, -, hnm, hd⟩ := h.toLaid.entry_of_name hpt (by simp) (h.toLaid.lookup_tagName hin)
  -- The canonical name belongs to an entry, of a directory whose path is not too long.
  obtain ⟨pd, hpd⟩ := h.tree.reachable d (isDir_of_entry hd)
  have hlen : pd.length ≤ 256 := h.shallow pd (by simp [locate, hpd])
  obtain ⟨l, hl, -⟩ := h.toLaid.ancestorChain hpd hd (n := fuel) (by omega)
  by_cases hcan : makeRelativeName x k = info.tagName
  · cases hals : info.aliases with
    | nil =>
      have hso : Sole (entries t) y := by
        refine .of_forall (x := x) (k := k) fun hd => ?_
        have hmem := (h.sound.consistent.bound y info hin _).mp hd
        rw [TagInfo.names, hals, ← hcan, mem_singleton] at hmem
        exact makeRelativeName_injective hmem
      obtain ⟨l', hl', hrm⟩ := h.dropFile hp hy hlf hso hk hmk hfu
      have hpl : t.delPlan fuel .null (joinComponents (p ++ [k])) true
          = some (.cascade y (makeRelativeName x k) [y] l') := by
        obtain ⟨n, rfl⟩ : ∃ n, fuel = n + 1 := ⟨fuel - 1, by omega⟩
        rw [delPlan, htg]
        simp [hin, ← hcan, hl', hals, Forest.traverse, h.toLaid.children_of_leaf hlf]
      refine ⟨_, y, _, _, hpl, ?_, rfl, hrm, .inl ⟨rfl, hso⟩⟩
      rw [TagTable.delTag, hpl, map_some]
    | cons new rest =>
      have hpl : t.delPlan fuel .null (joinComponents (p ++ [k])) true
          = some (.promote y (makeRelativeName x k) new) := by
        rw [delPlan, htg]
        simp only [hin, hnm, hl, bind_some, hals, head?_cons, hkey, ne_eq,
          not_false_eq_true, and_self, if_true]
        rw [hcan, hnm]
        simp
      refine ⟨_, y, _, [], hpl, by rw [TagTable.delTag, hpl, map_some], rfl, ?_,
        .inr ⟨rfl, fun hso => ?_⟩⟩
      · have hsnd := h.sound.promoteAlias hin hals
        rw [← hcan] at hsnd
        refine h.removeLink hp hy hlf ?_ ?_ ⟨new, info.totalSize, rest⟩ ?_ hsnd ?_ ?_
        all_goals simp [promoteAlias, searchDelete, setAliases,
          setTagName, hin, hals]
      · cases hals.symm.trans (h.toLaid.names_of_sole hp hy hso hin).2
  · have hpl : t.delPlan fuel .null (joinComponents (p ++ [k])) true
        = some (.unlink y (makeRelativeName x k)) := by
      rw [delPlan, htg]
      simp only [hin, hnm, hl, bind_some]
      rw [if_pos ⟨hkey, hnm ▸ hcan⟩]
    refine ⟨_, y, _, [], hpl, by rw [TagTable.delTag, hpl, map_some], rfl, ?_,
      .inr ⟨rfl, fun hso => ?_⟩⟩
    · refine h.removeLink hp hy hlf ?_ ?_
        { info with aliases := info.aliases.erase (makeRelativeName x k) } ?_
        (h.sound.unlinkAlias hin hy hcan) ?_ ?_
      all_goals simp [unlinkAlias, searchDelete, setAliases, hin]
    · exact hcan (h.toLaid.names_of_sole hp hy hso hin).1.symm

end

/-- A directory with nothing but its marker. -/
structure Vacant (t : TagTable) (y m : TagId) : Prop where
  marker : entries t y kDirMarker = some m
  leaf : ¬ IsDir (entries t) m
  sole : Sole (entries t) m
  only : ∀ c, entries t y c ≠ none → c = kDirMarker

namespace Vacant

variable {m : TagId}

lemma walk_iff (hv : Vacant t y m) (q : List String) :
    walk (entries t) y q ≠ none ↔ q = [] ∨ q = [kDirMarker] := by
  cases q with
  | nil => simp [Namespace.walk]
  | cons c q =>
    rw [Namespace.walk]
    by_cases hc : c = kDirMarker
    · subst hc
      rw [hv.marker, bind_some, walk_of_leaf hv.leaf]
      by_cases hq : q = [] <;> simp
    · have hno : entries t y c = none := by
        by_contra hne
        exact hc (hv.only c hne)
      simp [hno, hc]

lemma children (hv : Vacant t y m) (h : Laid t) (hp : locate t p = some y) :
    t.children y = [m] := by
  have hpar := h.parentOf_of_sole hp hv.marker hv.sole
  refine eq_singleton_of_forall (.filter _ t.infos.nodupKeys) ?_ fun z hz => ?_
  · refine mem_filter.mpr ⟨?_, decide_eq_true hpar⟩
    exact lookup_isSome.mp (ne_none_iff_isSome.mp (has_of_parentOf hpar))
  · obtain ⟨c, hc, -⟩ := h.entry_of_parentOf (mem_children hz)
    rw [hv.only c (by simp [hc]), hv.marker] at hc
    exact (some.inj hc).symm

end Vacant

/-- The marker of a directory and the directory go. -/
lemma Laid.dropDir (h : Laid t) {m : TagId} (hp : locate t p = some x) (hy : entries t x k = some y)
    (hv : Vacant t y m) :
    Laid ((t.dropTag y).dropTag m) ∧
    (∀ q, locate ((t.dropTag y).dropTag m) q
      = if q ∈ [p ++ [k], p ++ [k] ++ [kDirMarker]] then none else locate t q) ∧
    ∀ key, ((t.dropTag y).dropTag m).names.lookup key
      = if key = makeRelativeName x k ∨ key = makeRelativeName y kDirMarker then none
        else t.names.lookup key := by
  have hpt := (locate_concat hp k).trans hy
  have hdir : IsDir (entries t) y := isDir_of_entry hv.marker
  have hso : Sole (entries t) y := h.tree.sole y hdir
  have hmy : m ≠ y := fun hmy => hv.leaf (hmy ▸ hdir)
  have hxy : ¬ (x = y ∧ k = kDirMarker) := by
    rintro ⟨rfl, rfl⟩
    exact hmy (some.inj (hv.marker.symm.trans hy))
  -- The two go one after the other; seen the other way round, it is a file that goes each time.
  obtain ⟨hlaid1, hns1, hloc1⟩ := h.dropTag hpt hv.marker hv.sole hv.leaf
  have hens1 := entries_of_erase hns1
  have hp1 : locate (t.dropTag m) p = some x := by
    rw [hloc1, if_neg, hp]
    intro heq
    have hlen := congrArg length heq
    simp at hlen
  have hy1 : entries (t.dropTag m) x k = some y := by rw [hens1, setEntry_of_ne hxy, hy]
  have hlf1 : ¬ IsDir (entries (t.dropTag m)) y := by
    rintro ⟨c, hc⟩
    rw [hens1] at hc
    by_cases hcm : y = y ∧ c = kDirMarker
    · rw [hcm.2, setEntry_self] at hc
      exact hc rfl
    · rw [setEntry_of_ne hcm] at hc
      exact hcm ⟨rfl, hv.only c hc⟩
  have hso1 : Sole (entries (t.dropTag m)) y := by
    rw [hens1]
    exact hso.setEntry (by simp)
  obtain ⟨hlaid2, hns2, hloc2⟩ := hlaid1.dropTag hp1 hy1 hso1 hlf1
  have hns : ∀ key, ((t.dropTag y).dropTag m).names.lookup key
      = if key = makeRelativeName x k ∨ key = makeRelativeName y kDirMarker then none
        else t.names.lookup key := by
    intro key
    have hnam : (t.dropTag y).namesOf m = [makeRelativeName y kDirMarker] := by
      rw [(namesOf_erase y rfl).2 m hmy]
      exact h.namesOf_of_sole hpt hv.marker hv.sole
    rw [(h.sound.dropTag y).lookup_names_dropTag, hnam, h.sound.lookup_names_dropTag,
      h.namesOf_of_sole hp hy hso]
    by_cases hkey : key = makeRelativeName x k <;> simp [hkey]
  have hsm : ∀ key, ((t.dropTag y).dropTag m).names.lookup key
      = ((t.dropTag m).dropTag y).names.lookup key := by
    intro key
    rw [hns, hns2, hns1]
    by_cases hkey : key = makeRelativeName x k <;> simp [hkey]
  have his : ∀ z, ((t.dropTag y).dropTag m).infos.lookup z
      = ((t.dropTag m).dropTag y).infos.lookup z := by
    intro z
    simp only [lookup_dropTag]
    by_cases hz : z = y <;> simp [hz]
  refine ⟨hlaid2.congr hsm his rfl rfl, fun q => ?_, hns⟩
  rw [locate_congr hsm rfl, hloc2, hloc1]
  by_cases hq : q = p ++ [k] <;> simp [hq]

/-- **`DelTag` of an empty directory** deletes it with its marker. -/
lemma Charted.delDir (h : Charted t) {m : TagId} (hp : locate t p = some x)
    (hy : entries t x k = some y)
    (hv : Vacant t y m) (hk : k ≠ kDirMarker) (hmk : Marked t x) {fuel : ℕ} (hfu : 300 ≤ fuel)
    (posixUnlink : Bool) :
    ∃ plan id u, t.delPlan fuel .null (joinComponents (p ++ [k])) posixUnlink = some plan ∧
      t.delTag fuel .null (joinComponents (p ++ [k])) posixUnlink = some ((0, id), u) ∧
      Core.deletedTags plan = [y, m] ∧
      Removed t u [p ++ [k], p ++ [k] ++ [kDirMarker]] [y, m] := by
  have hpt := (locate_concat hp k).trans hy
  have hcs := h.isComponent (by rw [hpt]; simp)
  have hmpa : locate t (p ++ [k] ++ [kDirMarker]) = some m :=
    walk_concat_eq_some.mpr ⟨y, hpt, hv.marker⟩
  have hdir : IsDir (entries t) y := isDir_of_entry hv.marker
  have hso : Sole (entries t) y := h.tree.sole y hdir
  have hxm : x ≠ m := fun hxm => hv.leaf (hxm ▸ isDir_of_entry hy)
  have hxy : x ≠ y := by
    rintro rfl
    -- no directory is below itself
    have hlen := congrArg length (h.tree.path_unique hso hpt (walk_concat_eq_some.mpr ⟨_, hpt, hy⟩))
    simp at hlen
  obtain ⟨info, hin⟩ := ne_none_iff_exists'.mp (h.has_of_entry hy)
  obtain ⟨minfo, hmin⟩ := ne_none_iff_exists'.mp (h.has_of_entry hv.marker)
  obtain ⟨hnm, hals⟩ := h.toLaid.names_of_sole hp hy hso hin
  have hmal := (h.toLaid.names_of_sole hpt hv.marker hv.sole hmin).2
  -- The paths that leave the index.
  have hbl : ∀ key, key ∈ t.searchBelow (joinComponents (p ++ [k])) ↔
      key = joinComponents (p ++ [k] ++ [kDirMarker]) := by
    intro key
    rw [mem_searchBelow h.toLaid h.index hcs (by simp)]
    constructor
    · rintro ⟨r, hr, hbd, -, rfl⟩
      rw [locate_append hpt, hv.walk_iff] at hbd
      rw [hbd.resolve_left hr]
    · rintro rfl
      refine ⟨[kDirMarker], by simp, by rw [hmpa]; simp, fun c hc => ?_, rfl⟩
      rw [mem_singleton.mp hc]
      decide
  have habs : t.resolveTagName (makeRelativeName x k) = joinComponents (p ++ [k]) :=
    h.toLaid.resolveTagName hp (h.has_dir hy) (h.tree.sole_of_entry hy) k
  obtain ⟨hlaid, hloc, hns'⟩ :=
    (h.toLaid.searchDelete (t.deadEntries (makeRelativeName x k) [y, m])).dropDir hp
    hy ⟨hv.1, hv.2, hv.3, hv.4⟩
  have hcas := h.cascade hp hy hmk (fun m' hm' hso' hmem => ?_) (show x ∉ [y, m] by simp [hxy, hxm])
    (by simp [-append_assoc, hpt, hmpa]) (by simp [-append_assoc, hpt, hmpa])
    (fun key => ?_) rfl hlaid
    hloc (fun key hkey => ?_) rfl rfl hfu
  · obtain ⟨l, hl, hrm⟩ := hcas
    have hpl : t.delPlan fuel .null (joinComponents (p ++ [k])) posixUnlink
        = some (.cascade y (makeRelativeName x k) [y, m] l) := by
      obtain ⟨n, rfl⟩ : ∃ n, fuel = n + 2 := ⟨fuel - 2, by omega⟩
      rw [delPlan, h.toLaid.delTarget hp hy]
      simp [hin, hnm, hl, hals, Forest.traverse, hv.children h.toLaid hpt,
        h.toLaid.children_of_leaf hv.leaf]
    exact ⟨_, y, _, hpl, by rw [TagTable.delTag, hpl, map_some], rfl, hrm⟩
  · rcases mem_cons.mp hmem with rfl | hmem
    · exact hk (hso' _ _ _ _ hm' hy).2.symm
    · rw [mem_singleton.mp hmem] at hm' hso'
      exact hxy (hso' _ _ _ _ hm' hv.marker).1
  · rw [deadEntries, habs]
    simp [hin, hmin, hals, hmal, hbl]
  · exact (hns' key).trans (if_neg (by simp [hkey.ne_makeRelativeName]))

end ClioCore.Filesystem
