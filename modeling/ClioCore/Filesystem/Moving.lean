import ClioCore.Filesystem.Removal

/-!
# Entries that move

What `RenameTag` does to the namespace when it is given the path of a tag under its canonical name:
the entry moves, what is below it moves with it, and so do their paths in the index.
-/

namespace ClioCore.Filesystem

open Foundations Foundations.Namespace Cte List AList Option

variable {t u : TagTable} {x y x2 : TagId} {k k2 : String} {p p2 : List String}

/-! ## The index -/

/-- Keys that are renamed one after another. -/
lemma mem_foldl_searchRename {f : String → String} {l : List String} (hnd : l.Nodup)
    (hf : ∀ a ∈ l, ∀ b ∈ l, f a ≠ b) (search : AList (fun _ : String => TagId))
    (hl : ∀ a ∈ l, a ∈ search) (key : String) :
    key ∈ l.foldl (fun search a => TagTable.searchRename search a (f a)) search ↔
      (key ∈ search ∧ key ∉ l) ∨ ∃ a ∈ l, key = f a := by
  induction l generalizing search with
  | nil => simp
  | cons a l ih =>
    obtain ⟨hnoti, hnd⟩ := nodup_cons.mp hnd
    have ha : a ∈ search := hl a mem_cons_self
    have hfa : f a ≠ a := hf a mem_cons_self a mem_cons_self
    have hstp : ∀ b, b ∈ TagTable.searchRename search a (f a) ↔ b = f a ∨ b ≠ a ∧ b ∈ search := by
      intro b
      obtain ⟨id, hid⟩ := isSome_iff_exists.mp (lookup_isSome.mpr ha)
      rw [TagTable.searchRename, hid]
      simp only [if_neg hfa.symm]
      rw [mem_insert, mem_erase]
    rw [foldl_cons, ih hnd (fun b hb c hc => hf b (mem_cons_of_mem _ hb) c
      (mem_cons_of_mem _ hc)) _ fun b hb => (hstp b).mpr (.inr ⟨fun hba => hnoti (hba ▸ hb),
        hl b (mem_cons_of_mem _ hb)⟩), hstp]
    constructor
    · rintro (⟨rfl | ⟨hne, hmem⟩, hnot⟩ | ⟨b, hb, rfl⟩)
      · exact .inr ⟨a, mem_cons_self, rfl⟩
      · exact .inl ⟨hmem, by simp [hne, hnot]⟩
      · exact .inr ⟨b, mem_cons_of_mem _ hb, rfl⟩
    · rintro (⟨hmem, hnot⟩ | ⟨b, hb, rfl⟩)
      · rw [mem_cons, not_or] at hnot
        exact .inl ⟨.inr ⟨hnot.1, hmem⟩, hnot.2⟩
      · rcases mem_cons.mp hb with rfl | hb
        · exact .inl ⟨.inl rfl, fun hmem =>
            hf b mem_cons_self _ (mem_cons_of_mem _ hmem) rfl⟩
        · exact .inr ⟨b, hb, rfl⟩

/-- **The index of a move.** -/
lemma mem_searchMove (h : Charted t) {r r2 : List String} (hr : r ≠ []) (hr2 : r2 ≠ [])
    (hbd : locate t r ≠ none) (hcs2 : ∀ c ∈ r2, IsComponent c) (hnot : ¬ r2 <+: r)
    (hnot' : ¬ r <+: r2) (hline : ∀ s, locate t (r ++ s) ≠ none → ∀ c ∈ s, OneLine c)
    (key : String) :
    key ∈ t.searchMove (joinComponents r) (joinComponents r2) ↔
      (key ∈ t.search ∧ ∀ s, locate t (r ++ s) ≠ none → key ≠ joinComponents (r ++ s)) ∨
        ∃ s, locate t (r ++ s) ≠ none ∧ key = joinComponents (r2 ++ s) := by
  have hcom := h.isComponent hbd
  have hsf : joinComponents r ∈ t.search := (h.index _).mpr (.inr ⟨r, hr, hbd, rfl⟩)
  have hbl : ∀ key, key ∈ t.searchBelow (joinComponents r) ↔ ∃ s, s ≠ [] ∧
      locate t (r ++ s) ≠ none ∧ (∀ c ∈ s, OneLine c) ∧ key = joinComponents (r ++ s) :=
    fun key => mem_searchBelow h.toLaid h.index hcom hr
  have hmv : ∀ key, key ∈ [joinComponents r] ++ t.searchBelow (joinComponents r) ↔
      ∃ s, locate t (r ++ s) ≠ none ∧ key = joinComponents (r ++ s) := by
    intro key
    rw [mem_append, mem_singleton, hbl]
    constructor
    · rintro (rfl | ⟨s, -, hs, -, rfl⟩)
      · exact ⟨[], by rwa [append_nil], by rw [append_nil]⟩
      · exact ⟨s, hs, rfl⟩
    · rintro ⟨s, hs, rfl⟩
      by_cases hnil : s = []
      · exact .inl (by rw [hnil, append_nil])
      · exact .inr ⟨s, hnil, hs, hline s hs, rfl⟩
  have hnd : ([joinComponents r] ++ t.searchBelow (joinComponents r)).Nodup := by
    refine nodup_append.mpr ⟨nodup_singleton _, ?_, fun a ha b hb hab => ?_⟩
    · exact (perm_insertionSort _ _).nodup_iff.mpr (.filter _ t.search.nodupKeys)
    · rw [mem_singleton.mp ha] at hab
      obtain ⟨s, hs, hs', -, rfl⟩ := (hbl b).mp hb
      have hlen := congrArg length (joinComponents_inj hcom (h.isComponent hs') hab)
      rw [length_append] at hlen
      exact hs (length_eq_zero_iff.mp (by omega))
  have hcs : ∀ s, locate t (r ++ s) ≠ none → ∀ c ∈ r2 ++ s, IsComponent c := fun s hs =>
    forall_mem_append.mpr ⟨hcs2, fun c hc => h.isComponent hs c (mem_append_right _ hc)⟩
  have hnew : ∀ s, locate t (r ++ s) ≠ none → joinComponents r2 ++ .ofList
      ((joinComponents (r ++ s)).toList.drop (joinComponents r).toList.length)
        = joinComponents (r2 ++ s) := by
    intro s hs
    apply String.toList_inj.mp
    rw [String.toList_append, String.toList_ofList,
      toList_joinComponents_append hr (h.isComponent hs),
      drop_left, toList_joinComponents_append hr2 (hcs s hs)]
  have hmove : t.searchMove (joinComponents r) (joinComponents r2)
      = ([joinComponents r] ++ t.searchBelow (joinComponents r)).foldl
        (fun search a => TagTable.searchRename search a
          (joinComponents r2 ++ .ofList (a.toList.drop (joinComponents r).toList.length)))
        t.search := by
    rw [TagTable.searchMove, if_pos]
    exact ne_none_iff_isSome.mpr (lookup_isSome.mpr hsf)
  rw [hmove, mem_foldl_searchRename hnd]
  · simp only [hmv]
    constructor
    · rintro (⟨hmem, hno⟩ | ⟨a, ⟨s, hs, rfl⟩, rfl⟩)
      · exact .inl ⟨hmem, fun s hs heq => hno ⟨s, hs, heq⟩⟩
      · exact .inr ⟨s, hs, hnew s hs⟩
    · rintro (⟨hmem, hno⟩ | ⟨s, hs, rfl⟩)
      · exact .inl ⟨hmem, fun ⟨s, hs, heq⟩ => hno s hs heq⟩
      · exact .inr ⟨_, ⟨s, hs, rfl⟩, (hnew s hs).symm⟩
  · -- A new path is not one that is still to be moved: neither path is above the other.
    intro a ha b hb hab
    obtain ⟨s, hs, rfl⟩ := (hmv a).mp ha
    obtain ⟨s', hs', rfl⟩ := (hmv b).mp hb
    rw [hnew s hs] at hab
    have heq := joinComponents_inj (hcs s hs) (h.isComponent hs') hab
    rcases prefix_or_prefix_of_prefix (prefix_append r2 s) (heq ▸ prefix_append r s') with hpre |
      hpre
    · exact hnot hpre
    · exact hnot' hpre
  · intro a ha
    obtain ⟨s, hs, rfl⟩ := (hmv a).mp ha
    exact (h.index _).mpr (.inr ⟨r ++ s, by simp [hr], hs, rfl⟩)

/-! ## The move -/

/-- What was at `r` and below it is at `r2` in `u`, and nothing else has changed. -/
structure Relocated (t u : TagTable) (r r₂ : List String) : Prop where
  charted : Charted u
  locate : ∀ q, locate u q = if r₂ <+: q then locate t (r ++ q.drop r₂.length)
    else if r <+: q then none else locate t q
  has : ∀ z, u.Has z ↔ t.Has z
  room : u.nextMinor = t.nextMinor
  root : u.names.lookup "/" = t.names.lookup "/"

section

variable (h : Charted t) (hp : locate t p = some x) (hy : entries t x k = some y) {info : TagInfo}
  (hin : t.infos.lookup y = some info) (hnm : info.tagName = makeRelativeName x k)
  (hp2 : locate t p2 = some x2) (hso2 : Sole (entries t) x2) (hnot : ¬ p ++ [k] <+: p2)
  (hdeep : ∀ s, locate t (p ++ [k] ++ s) ≠ none → p2.length + 1 + s.length ≤ 256)
  (hline : ∀ s, locate t (p ++ [k] ++ s) ≠ none → ∀ c ∈ s, OneLine c)
include h hp hy hin hnm hp2 hso2 hnot hdeep hline

lemma Charted.moveTag (hx2 : t.Has x2) (hk2 : IsComponent k2) (hfe : entries t x2 k2 = none) :
    Relocated t (t.moveTag y (makeRelativeName x k) (makeRelativeName x2 k2)) (p ++ [k])
    (p2 ++ [k2]) := by
  have hpt := (locate_concat hp k).trans hy
  have hcs2 : ∀ c ∈ p2 ++ [k2], IsComponent c :=
    forall_mem_append.mpr ⟨h.isComponent (by simp [hp2]), by simpa using hk2⟩
  have hrt := h.lookup_root_of_has hp2 hx2
  have hne : makeRelativeName x k ≠ makeRelativeName x2 k2 := by
    intro heq
    rw [entries, ← heq] at hfe
    cases hfe.symm.trans hy
  -- Resolution takes place in the table as it was.
  have habs := h.toLaid.resolveTagName hp (h.has_dir hy) (h.tree.sole_of_entry hy) k
  have habs2 := h.toLaid.resolveTagName hp2 hx2 hso2 k2
  have hsnd := h.sound.moveTag hin (.inr hfe) (makeRelativeName_ne_empty x2 k2)
  rw [hnm] at hsnd
  generalize hu : t.moveTag y (makeRelativeName x k) (makeRelativeName x2 k2) = u at hsnd ⊢
  obtain ⟨hns, his, hsr, hnod, hnx⟩ :
      u.names = (t.names.erase (makeRelativeName x k)).insert (makeRelativeName x2 k2) y ∧
      u.infos = t.infos.insert y { info with tagName := makeRelativeName x2 k2 } ∧
      u.search = t.searchMove (joinComponents (p ++ [k])) (joinComponents (p2 ++ [k2])) ∧
      u.nodeId = t.nodeId ∧ u.nextMinor = t.nextMinor := by
    simp [← hu, TagTable.moveTag, TagTable.setTagName, hin, hne, habs, habs2]
  have hfl : KeepsFlat t u := by
    intro key hkey
    rw [hns, lookup_insert_ne hkey.ne_makeRelativeName, lookup_erase_ne hkey.ne_makeRelativeName]
  have hens : entries u = moveEntry (entries t) x k x2 k2 y := by
    have her : entries { t with names := t.names.erase (makeRelativeName x k) }
        = setEntry (entries t) x k none := by
      refine entries_of_erase fun key => ?_
      rw [TagTable.lookup_erase_eq]
      simp
    rw [moveEntry, ← her]
    exact entries_of_insert hns
  have hloc : ∀ q, locate u q = if p2 ++
      [k2] <+: q then locate t (p ++ [k] ++ q.drop (p2 ++ [k2]).length)
      else if p ++ [k] <+: q then none else locate t q := by
    intro q
    rw [locate, hens, rootOf_congr (hfl "/" (.inl rfl)) hnod,
      h.tree.walk_move hp hy hp2 hso2 hnot, length_append]
    rfl
  have hhas := has_iff_of_insert hin his
  have hno : ∀ s, locate t (p2 ++ [k2] ++ s) = none := by
    intro s
    rw [append_assoc, locate_append hp2, singleton_append, walk, hfe, bind_none]
  have hnot2 : ¬ p2 ++ [k2] <+: p ++ [k] := by
    rintro ⟨s, hs⟩
    rw [← hs, hno] at hpt
    simp at hpt
  have hnot' : ¬ p ++ [k] <+: p2 ++ [k2] := by
    intro hpre
    rcases prefix_concat_iff.mp hpre with heq | hpre
    · exact hnot2 (heq ▸ prefix_rfl)
    · exact hnot hpre
  have hlaid : Laid u := by
    refine h.toLaid.change hsnd hnod (hnx ▸ h.minor) (fun id hid => ?_) (fun key id hkey => ?_) hfl
      (by simp [hrt]) ?_ fun q hq => ?_
    · rw [hnod, hnx]
      exact h.ids id ((hhas id).mp hid)
    · rw [hns] at hkey
      obtain ⟨rfl, rfl⟩ | ⟨-, hkey⟩ := lookup_insert_eq_some.mp hkey
      · exact .inr ⟨⟨x2, k2, hk2, rfl⟩, fun flat => h.toLaid.not_flat_of_locate hpt (by simp)⟩
      · exact .inl (lookup_erase_eq_some.mp hkey).2
    · rw [hens]
      exact h.tree.move hp hy hp2 hso2 hnot hfe
    · rw [hloc] at hq
      split_ifs at hq with hpre hpre'
      · have hlen := hdeep _ hq
        have hle := hpre.length_le
        rw [length_drop] at hlen
        rw [length_append, length_singleton] at hlen hle
        omega
      · exact absurd rfl hq
      · exact h.shallow q hq
  refine ⟨⟨hlaid, fun key => ?_⟩, hloc, hhas, hnx, hfl "/" (.inl rfl)⟩
  rw [hsr, mem_searchMove h (by simp) (by simp) (by simp [hpt]) hcs2 hnot2 hnot' hline, h.index]
  constructor
  · rintro (⟨⟨hkey, hbd⟩ | ⟨q, hq, hbd, rfl⟩, hkp⟩ | ⟨s, hs, rfl⟩)
    · exact .inl ⟨hkey, by rwa [hfl key hkey]⟩
    · refine .inr ⟨q, hq, ?_, rfl⟩
      rw [hloc, if_neg, if_neg]
      · exact hbd
      · rintro ⟨s, rfl⟩
        exact hkp s hbd rfl
      · rintro ⟨s, rfl⟩
        exact hbd (hno s)
    · refine .inr ⟨p2 ++ [k2] ++ s, by simp, ?_, rfl⟩
      rwa [hloc, if_pos (prefix_append _ _), drop_left]
  · rintro (⟨hkey, hbd⟩ | ⟨q, hq, hbd, rfl⟩)
    · refine .inl ⟨.inl ⟨hkey, by rwa [hfl key hkey] at hbd⟩, fun s hs heq => ?_⟩
      exact not_flat_joinComponents (by simp) (h.isComponent hs) (heq ▸ hkey)
    · rw [hloc] at hbd
      split_ifs at hbd with hpre hpre'
      · obtain ⟨s, rfl⟩ := hpre
        rw [drop_left] at hbd
        exact .inr ⟨s, hbd, rfl⟩
      · exact absurd rfl hbd
      · refine .inl ⟨.inr ⟨q, hq, hbd, rfl⟩, fun s hs heq => hpre' ?_⟩
        exact ⟨s, (joinComponents_inj (h.isComponent hbd) (h.isComponent hs) heq).symm⟩

/-- **`RenameTag`** of a path under its canonical name to a path that is free and whose parent is
there. -/
lemma Charted.renameTag (hcs2 : ∀ c ∈ p2 ++ [k2], IsComponent c)
    (hfe : locate t (p2 ++ [k2]) = none) :
    ∃ id u, t.renameTag y (joinComponents (p ++ [k])) (joinComponents (p2 ++ [k2])) = ((0, id), u) ∧
      Relocated t u (p ++ [k]) (p2 ++ [k2]) := by
  have hpt := (locate_concat hp k).trans hy
  have hcom := h.isComponent (p := p ++ [k]) (by simp [hpt])
  have hp2' : ∀ c ∈ p2, IsComponent c := fun c hc => hcs2 c (mem_append_left _ hc)
  have hx2 : t.Has x2 := by
    by_cases hnil : p2 = []
    · subst hnil
      obtain rfl : rootOf t = x2 := some.inj hp2
      exact h.has_root (h.lookup_root hy)
    · exact h.has_of_locate hp2 hnil
  have hen := (locate_concat hp2 _).symm.trans hfe
  have hne : joinComponents (p ++ [k]) ≠ joinComponents (p2 ++ [k2]) := by
    intro heq
    simp [← joinComponents_inj hcom hcs2 heq, hpt] at hfe
  have hnull : y ≠ .null := h.ne_null (h.has_of_entry hy)
  have hchn := getOrCreateTag_of_locate h.toLaid hp2' hp2 hx2
  rw [getOrCreateTag_null] at hchn
  refine ⟨y, _, ?_, h.moveTag hp hy hin hnm hp2 hso2 hnot hdeep hline hx2 (hcs2 k2 (by simp)) hen⟩
  rw [TagTable.renameTag, if_neg (by simp [joinComponents_ne_empty hcom,
    joinComponents_ne_empty hcs2]),
    if_neg hne, if_pos ⟨isHierPath_joinComponents _ hcom, isHierPath_joinComponents _ hcs2⟩,
    TagTable.renamePath, splitParentLeaf_joinComponents hcs2]
  dsimp only
  rw [hchn]
  rw [TagTable.renameSource, if_neg hnull, if_neg hnull, hin]
  dsimp only
  rw [hnm]

end

end ClioCore.Filesystem
