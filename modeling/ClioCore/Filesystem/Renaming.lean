import ClioCore.Filesystem.Effects

/-!
# Rename

`Rename` removes what the destination leads to, if the rules for overwriting allow it, and then has
the core move the tag of the source.  `Cleared` is what the first part leaves, and
`Settled.rename_moved` what becomes of the tree in the end.
-/

namespace ClioCore.Filesystem

open Foundations Foundations.Namespace Cte List Option State

variable {s : State} {t u : TagTable} {p q r : List String} {k : String} {x y : TagId} {i n : ℕ}

/-! ## The destination -/

/-- All that was at a path or below it is gone, and the tags `gone` with it. -/
structure Cleared (t u : TagTable) (r : List String) (gone : List TagId) : Prop where
  orderly : Orderly u
  locate : ∀ q, locate u q = if r <+: q then none else locate t q
  /-- The deleted tags had no path elsewhere. -/
  below : ∀ z ∈ gone, ∀ q, ClioCore.Filesystem.locate t q = some z → r <+: q
  has : ∀ z, u.Has z ↔ t.Has z ∧ z ∉ gone
  infos : ∀ z, (∀ q, r <+: q → ClioCore.Filesystem.locate t q ≠ some z) →
    u.infos.lookup z = t.infos.lookup z
  room : u.nextMinor = t.nextMinor
  root : u.names.lookup "/" = t.names.lookup "/"

/-- The paths that are removed are those that are there at the path or below it. -/
lemma Removed.cleared {paths : List (List String)} {gone : List TagId} (h : Removed t u paths gone)
    (hu : Orderly u) (hpts : ∀ q ∈ paths, r <+: q)
    (hall : ∀ q, r <+: q → ClioCore.Filesystem.locate t q ≠ none → q ∈ paths)
    (hbl : ∀ z ∈ gone, ∀ q, ClioCore.Filesystem.locate t q = some z → r <+: q) :
    Cleared t u r gone where
  orderly := hu
  locate q := by
    rw [h.locate]
    by_cases hpre : r <+: q
    · rw [if_pos hpre]
      split_ifs with hmem
      · rfl
      · by_contra hne
        exact hmem (hall q hpre hne)
    · rw [if_neg hpre, if_neg fun hmem => hpre (hpts q hmem)]
  below := hbl
  has := h.has
  infos z hz := h.infos z fun q hq => hz q (hpts q hq)
  room := h.room
  root := h.root

lemma dropBlobs_nil (c : Core) : c.dropBlobs [] = c := by
  have hno : (c.blobs.keys.filter fun key => decide (key.tag ∈ ([] : List TagId))) = [] := by simp
  rw [Core.dropBlobs, hno]
  rfl

namespace Settled

/-- What `Rename` finds at the destination. -/
lemma dstState_cases (h : Settled s) (hp : Plain p) :
    (s.core.dstState (joinComponents p) = .absent ∧ locate s.core.tags p = none) ∨
    (s.core.dstState (joinComponents p) = .file ∧ FileAt s.core.tags p) ∨
    (s.core.dstState (joinComponents p) = .emptyDir ∧
      locate s.core.tags (p ++ [kDirMarker]) ≠ none ∧
      ∀ c, locate s.core.tags (p ++ [c]) ≠ none → c = kDirMarker) ∨
    (s.core.dstState (joinComponents p) = .fullDir ∧
      ∃ c, c ≠ kDirMarker ∧ locate s.core.tags (p ++ [c]) ≠ none) := by
  have hchs := tagQueryChildren_ne_nil_iff h.tags hp
  have hreal := hasRealChild_iff h.tags hp
  rw [Core.dstState, h.query hp]
  by_cases hdir : locate s.core.tags (p ++ [kDirMarker]) = none
  · rw [if_neg (by rwa [hchs, not_not])]
    by_cases hx : locate s.core.tags p = none
    · exact .inl ⟨by rw [hx]; rfl, hx⟩
    · exact .inr (.inl ⟨by rw [if_pos (isSome_iff_ne_none.mpr hx)], hx, hdir⟩)
  · rw [if_pos (hchs.mpr hdir)]
    by_cases hfu : ∃ c, c ≠ kDirMarker ∧ locate s.core.tags (p ++ [c]) ≠ none
    · exact .inr (.inr (.inr ⟨by rw [if_pos (hreal.mpr hfu)], hfu⟩))
    · refine .inr (.inr (.inl ⟨by rw [if_neg fun hr => hfu (hreal.mp hr)], hdir, fun c hc => ?_⟩))
      by_contra hne
      exact hfu ⟨c, hne, hc⟩

/-- The destination is made free. -/
lemma clear (h : Settled s) (hp : Plain (p ++ [k]))
    (hfu : s.core.dstState (joinComponents (p ++ [k])) ≠ .fullDir) {fuel : ℕ} (hfuel : 300 ≤ fuel) :
    ∃ u gone, Cleared s.core.tags u (p ++ [k]) gone ∧
      (if s.core.dstState (joinComponents (p ++ [k])) = .absent then some s.core
        else s.core.delTag fuel (joinComponents (p ++ [k])) true)
        = some (s.core.pruned u gone) := by
  rcases h.dstState_cases hp with ⟨hdst, hno⟩ | ⟨hdst, hfi⟩ | ⟨hdst, hdir, hemp⟩ | ⟨hdst, -⟩
  · refine ⟨s.core.tags, [], ⟨h.tags, fun q => ?_, by simp, by simp, fun _ _ => rfl, rfl, rfl⟩, ?_⟩
    · split_ifs with hpre
      · exact locate_below hno hpre
      · rfl
    · rw [if_pos hdst, Core.pruned, dropBlobs_nil]
  · obtain ⟨y, hy⟩ := ne_none_iff_exists'.mp hfi.1
    obtain ⟨u, gone, hrm, hu, hwhi, hdel⟩ := h.delTag_file hp hfi hy hfuel
    refine ⟨u, gone, hrm.cleared hu (by simp) (fun q hpre hq => ?_) (fun z hz q hq => ?_), ?_⟩
    · obtain ⟨l, rfl⟩ := hpre
      rw [locate_append hy, walk_of_leaf (h.tags.not_isDir hy (by simp) hfi)] at hq
      split_ifs at hq with hl
      · simp [hl]
      · exact absurd rfl hq
    · rcases hwhi with ⟨rfl, hso⟩ | ⟨rfl, -⟩
      · obtain rfl := mem_singleton.mp hz
        exact h.tags.tree.path_unique hso hy hq ▸ prefix_rfl
      · simp at hz
    · rw [if_neg (by simp [hdst]), hdel]
  · obtain ⟨u, y, m, hrm, hu, hy, hm, hdel⟩ := h.delTag_dir hp hdir hemp hfuel true
    refine ⟨u, [y, m], hrm.cleared hu ?_ (fun q hpre hq => ?_) (fun z hz q hq => ?_), ?_⟩
    · intro q hq
      rcases mem_cons.mp hq with rfl | hq
      · exact prefix_rfl
      · exact mem_singleton.mp hq ▸ prefix_append _ _
    · obtain ⟨m', hv⟩ := h.tags.vacant hy hdir hemp
      obtain ⟨l, rfl⟩ := hpre
      rw [locate_append hy] at hq
      rcases (hv.walk_iff l).mp hq with rfl | rfl
      · simp
      · simp
    · rcases mem_cons.mp hz with rfl | hz
      · have hisD := (h.tags.isDir_iff hy (by simp)).mpr hdir
        exact h.tags.tree.path_unique (h.tags.tree.sole z hisD) hy hq ▸ prefix_rfl
      · obtain rfl := mem_singleton.mp hz
        exact h.tags.sole _ q z hm hq ▸ prefix_append _ _
    · rw [if_neg (by simp [hdst]), hdel]
  · exact absurd hdst hfu

/-! ## The source -/

lemma sourceTag_eq (h : Settled s) (hp : Plain p) :
    s.sourceTag (joinComponents p) = ((locate s.core.tags p).getD .null, s.core) := by
  unfold sourceTag
  cases hi : s.byPath.lookup (joinComponents p) with
  | some i =>
    obtain ⟨-, hx⟩ := h.fileAt_of_tracked hp hi
    simp [hx, h.tags.ne_null (h.has hp hx)]
  | none =>
    simp only [map_none, getD_none, ne_eq, not_true_eq_false, if_false, h.query hp]
    cases hx : locate s.core.tags p with
    | none => rfl
    | some x => rw [getD_some, h.getOrCreateTag hp hx]

end Settled

/-- The canonical name of a tag, from its absolute form. -/
lemma Laid.tagName_eq (h : Laid t) (hx : locate t p = some x) (hy : locate t (p ++ [k]) = some y)
    {info : TagInfo} (hin : t.infos.lookup y = some info)
    (hnm : t.resolveTagName info.tagName = joinComponents (p ++ [k])) :
    info.tagName = makeRelativeName x k := by
  obtain ⟨d, c, hc, htag, hd⟩ := h.entry_of_name hy (by simp) (h.lookup_tagName hin)
  obtain ⟨pd, hpd⟩ := h.tree.reachable d (isDir_of_entry hd)
  have hres := h.resolveTagName hpd (h.has_dir hd) (h.tree.sole_of_entry hd) c
  have hbd : locate t (pd ++ [c]) = some y := walk_concat_eq_some.mpr ⟨d, hpd, hd⟩
  rw [htag, hres] at hnm
  obtain ⟨rfl, rfl⟩ := append_singleton_inj.mp (joinComponents_inj (h.isComponent (by simp [hbd]))
    (h.isComponent (by simp [hy])) hnm)
  obtain rfl : d = x := some.inj (hpd.symm.trans hx)
  exact htag

lemma core_moveTracked (s : State) (src dst : String) : (s.moveTracked src dst).core = s.core := by
  unfold moveTracked
  dsimp only
  split <;> rfl

/-- Parents that are in place are stamped without effect. -/
lemma touchParents_moveTracked {s : State} {src dst : String}
    (hsrc : s.core.touchDir (parentDir src) = s.core)
    (hdst : s.core.touchDir (parentDir dst) = s.core) :
    { s.moveTracked src dst with core := touchParents (s.moveTracked src dst).core src dst }
      = s.moveTracked src dst := by
  have htc : touchParents s.core src dst = s.core := by
    unfold touchParents
    rw [hsrc]
    split_ifs
    · exact hdst
    · rfl
  rw [core_moveTracked, htc, ← core_moveTracked s src dst]

/-- The path `r` has moved to `r2` with all that was below it, in place of what was there. -/
structure Moved (t u : TagTable) (r r₂ : List String) (gone : List TagId) : Prop where
  orderly : Orderly u
  locate : ∀ q, locate u q = if r₂ <+: q then locate t (r ++ q.drop r₂.length)
    else if r <+: q then none else locate t q
  /-- The deleted tags had no path but at the destination. -/
  below : ∀ z ∈ gone, ∀ q, ClioCore.Filesystem.locate t q = some z → r₂ <+: q
  has : ∀ z, u.Has z ↔ t.Has z ∧ z ∉ gone
  room : u.nextMinor = t.nextMinor
  apart : ¬ r₂ <+: r

namespace Settled

variable {p2 : List String} {k2 : String}

/-- What is below a destination that may be overwritten. -/
lemma below_dst (h : Settled s) (hr : Plain r) (hfu : s.core.dstState (joinComponents r) ≠ .fullDir)
    (hq : locate s.core.tags q ≠ none) (hpre : r <+: q) : q = r ∨ q = r ++ [kDirMarker] := by
  obtain ⟨l, rfl⟩ := hpre
  cases l with
  | nil => exact .inl (append_nil r)
  | cons c l =>
    have hc : locate s.core.tags (r ++ [c]) ≠ none := by
      intro hno
      refine hq (locate_below hno ⟨l, ?_⟩)
      simp
    have hcm : c = kDirMarker := by
      by_contra hne
      rcases h.dstState_cases hr with ⟨-, hno⟩ | ⟨-, hfi⟩ | ⟨-, -, hemp⟩ | ⟨hdst, -⟩
      · exact hc (locate_below hno (prefix_append r [c]))
      · exact h.tags.marked r c hr.ne hc hfi.2
      · exact hne (hemp c hc)
      · exact hfu hdst
    subst hcm
    cases l with
    | nil => exact .inr rfl
    | cons c l => exact absurd (locate_below (h.tags.below r c) ⟨l, by simp⟩) hq

/-- **What `Rename` does.**  The source is known to the core by the path that is given, it is not
above the destination, and the destination may be overwritten and is not a link of the same file. -/
lemma rename_moved (h : Settled s) (hp : Plain (p ++ [k])) (hp2 : Plain (p2 ++ [k2]))
    (hy : locate s.core.tags (p ++ [k]) = some y) (hdir : DirAt s.core.tags p2)
    (halw : Core.refusal (s.core.tagQueryChildren (joinComponents (p ++ [k])) ≠ [])
      (s.core.dstState (joinComponents (p2 ++ [k2]))) = none)
    (hnot : ¬ p ++ [k] <+: p2 ++ [k2]) (hoth : locate s.core.tags (p2 ++ [k2]) ≠ some y)
    {info : TagInfo} (hin : s.core.tags.infos.lookup y = some info)
    (hnm : s.core.tags.resolveTagName info.tagName = joinComponents (p ++ [k]))
    (hdeep : ∀ l, locate s.core.tags (p ++ [k] ++ l) ≠ none → p2.length + 1 + l.length ≤ 256)
    (hln : ∀ c ∈ p2 ++ [k2], OneLine c) {fuel : ℕ} (hfuel : 300 ≤ fuel) :
    ∃ u gone, Moved s.core.tags u (p ++ [k]) (p2 ++ [k2]) gone ∧
      s.rename fuel (joinComponents (p ++ [k])) (joinComponents (p2 ++ [k2])) = some (0,
        ({ s with core := s.core.pruned u gone } : State).moveTracked
          (joinComponents (p ++ [k])) (joinComponents (p2 ++ [k2]))) := by
  have hfu : s.core.dstState (joinComponents (p2 ++ [k2])) ≠ .fullDir := by
    intro hdst
    rw [hdst] at halw
    exact absurd halw (by simp [Core.refusal])
  have hap : ¬ p2 ++ [k2] <+: p ++ [k] := by
    intro hpre
    rcases h.below_dst hp2 hfu (by simp [hy]) hpre with heq | heq
    · exact hnot (heq ▸ prefix_rfl)
    · exact hp.unmarked (by simp [heq])
  have hap' : ¬ p2 ++ [k2] <+: p := fun hpre => hap (hpre.trans (prefix_append p [k]))
  have hnot' : ¬ p ++ [k] <+: p2 := fun hpre => hnot (hpre.trans (prefix_append p2 [k2]))
  obtain ⟨t, gone, hclr, hcle⟩ := h.clear hp2 hfu hfuel
  obtain ⟨x, hx, hxk⟩ := locate_of_concat hy
  obtain ⟨x2, hx2⟩ := Orderly.exists_of_dirAt hdir
  -- The tree without the destination.
  have hold : ∀ {q}, ¬ p2 ++ [k2] <+: q → locate t q = locate s.core.tags q := fun hpre => by
    rw [hclr.locate, if_neg hpre]
  have hsf : ∀ (l : List String) (c : String), ¬ l ++ [c] <+: l := fun l c hpre => by
    simpa using hpre.length_le
  have htx : locate t p = some x := by rw [hold hap', hx]
  have htx2 : locate t p2 = some x2 := by rw [hold (hsf p2 k2), hx2]
  have hty : locate t (p ++ [k]) = some y := by rw [hold hap, hy]
  have htfr : locate t (p2 ++ [k2]) = none := by rw [hclr.locate, if_pos prefix_rfl]
  have hbl : ∀ l, ¬ p2 ++ [k2] <+: p ++ [k] ++ l := by
    intro l hpre
    rcases prefix_or_prefix_of_prefix hpre (prefix_append (p ++ [k]) l) with h1 | h1
    · exact hap h1
    · exact hnot h1
  have htin : t.infos.lookup y = some info := by
    rw [hclr.infos y fun q hpre hq => ?_, hin]
    rcases h.below_dst hp2 hfu (by simp [hq]) hpre with rfl | rfl
    · exact hoth hq
    · exact hp.unmarked (by simp [h.tags.sole _ _ y hq hy])
  have hdir' : DirAt t p2 := by
    refine hdir.imp id fun hm => ?_
    rw [hold fun hpre => ?_]
    · exact hm
    · exact hsf p2 k2 (hp2.prefix_of_marker hpre)
  obtain ⟨id, u, hren, hmv⟩ := hclr.orderly.toCharted.renameTag htx
    ((locate_concat htx k).symm.trans hty) htin (h.tags.tagName_eq hx hy hin hnm) htx2
    (hclr.orderly.sole_of_dirAt hdir' htx2) hnot'
    (fun l hl => hdeep l (by rwa [hold (hbl l)] at hl))
    (fun l hl c hc => h.tags.lines _ (by rwa [hold (hbl l)] at hl) c (mem_append_right _ hc))
    hp2.comps htfr
  have hu := hclr.orderly.move hdir' hp hp2 hnot' hln hmv
  have hloc : ∀ q, locate u q = if p2 ++ [k2] <+: q
      then locate s.core.tags (p ++ [k] ++ q.drop (p2 ++ [k2]).length)
      else if p ++ [k] <+: q then none else locate s.core.tags q := by
    intro q
    rw [hmv.locate]
    split_ifs with hpre hpre'
    · exact hold (hbl _)
    · rfl
    · exact hold hpre
  refine ⟨u, gone, ⟨hu, hloc, hclr.below, fun z => (hmv.has z).trans (hclr.has z),
    hmv.room.trans hclr.room, hap⟩, ?_⟩
  -- Both parents are where they were.
  have hrt : u.names.lookup "/" ≠ none := by
    rw [hmv.root, hclr.root]
    exact h.tags.rooted_of_locate (by rw [hy]; simp)
  have htc := h.touchParent hu (lookup_of_dropBlobs s gone) hp.comps hrt (show locate u p ≠ none by
      rw [hloc, if_neg hap', if_neg (hsf p k), hx]
      simp)
  have htc2 := h.touchParent hu (lookup_of_dropBlobs s gone) hp2.comps hrt
    (show locate u p2 ≠ none by
      rw [hloc, if_neg (hsf p2 k2), if_neg hnot', hx2]
      simp)
  have hne : joinComponents (p ++ [k]) ≠ joinComponents (p2 ++ [k2]) := fun heq =>
    hnot (hp.inj hp2 heq ▸ prefix_rfl)
  unfold rename
  simp only [if_neg hne, h.sourceTag_eq hp, hy, getD_some, if_neg (h.tags.ne_null (h.has hp hy)),
    halw, hcle, map_some]
  rw [show (s.core.pruned t gone).tags.renameTag y _ _ = _ from hren]
  exact congrArg (fun s' => some (0, s')) (touchParents_moveTracked htc htc2)

end Settled

end ClioCore.Filesystem
