import ClioCore.Filesystem.Moving

/-!
# The tree of files and directories

A path leads to a directory if its tag has a marker below it, and to a file otherwise.  `Orderly`
adds to a charted table what `Mkdir` establishes: every directory but the root has a marker, and
markers are nothing but markers.  In an orderly table the probes of the filesystem say what they are
meant to say (`isDirectory_iff`, `hasRealChild_iff`), and stamping the times of a directory changes
nothing.
-/

namespace ClioCore.Filesystem

open Foundations Foundations.Namespace Cte List

/-! ## Paths -/

/-- The components of a path that a caller may use: not the root, and no marker. -/
structure Plain (p : List String) : Prop where
  ne : p ≠ []
  comps : ∀ c ∈ p, IsComponent c
  unmarked : kDirMarker ∉ p

/-- A path in normal form, not too deep, that a regular expression can match below. -/
def wellFormed (path : String) : Bool :=
  let p := splitPathComponents path
  path = joinComponents p ∧ p ≠ [] ∧ kDirMarker ∉ p ∧ p.length ≤ 255 ∧ ∀ c ∈ p, OneLine c

lemma exists_of_wellFormed {path : String} (h : wellFormed path = true) :
    ∃ p, path = joinComponents p ∧ Plain p ∧ p.length ≤ 255 ∧ ∀ c ∈ p, OneLine c := by
  obtain ⟨hpt, hne, hmk, hlen, hline⟩ := of_decide_eq_true h
  exact ⟨splitPathComponents path, hpt, ⟨hne, fun c hc => isComponent_of_mem hc, hmk⟩, hlen, hline⟩

variable {p q : List String} {k : String}

lemma Plain.concat (h : Plain p) : ∃ q c, p = q ++ [c] ∧ IsComponent c ∧ c ≠ kDirMarker := by
  rcases eq_nil_or_concat p with rfl | ⟨q, c, rfl⟩
  · exact absurd rfl h.ne
  · rw [concat_eq_append] at h ⊢
    refine ⟨q, c, rfl, h.comps c (by simp), fun hc => h.unmarked ?_⟩
    simp [hc]

lemma Plain.inj (hp : Plain p) (hq : Plain q) (h : joinComponents p = joinComponents q) : p = q :=
  joinComponents_inj hp.comps hq.comps h

/-- A marker is no path that a caller may use. -/
lemma Plain.prefix_of_marker (h : Plain p) (hpre : p <+: q ++ [kDirMarker]) : p <+: q := by
  rcases prefix_concat_iff.mp hpre with heq | hpre
  · exact absurd (by simp [heq]) h.unmarked
  · exact hpre

lemma Plain.ne_marker (h : Plain (p ++ [k])) : k ≠ kDirMarker :=
  fun heq => h.unmarked (by simp [heq])

lemma Plain.parent_unmarked (h : Plain (p ++ [k])) : kDirMarker ∉ p := fun hm =>
  h.unmarked (mem_append_left _ hm)

lemma Plain.marker_comps (h : Plain p) : ∀ c ∈ p ++ [kDirMarker], IsComponent c := by
  intro c hc
  rcases mem_append.mp hc with hc | hc
  · exact h.comps c hc
  · exact mem_singleton.mp hc ▸ ⟨by decide, by decide⟩

lemma joinComponents_concat_eq (hne : p ≠ []) (hp : ∀ c ∈ p, IsComponent c) (k : String) :
    joinComponents p ++ "/" ++ k = joinComponents (p ++ [k]) := by
  rw [joinComponents_concat, joinPath, if_neg fun heq => not_flat_joinComponents hne hp (.inl heq)]

/-- The characters of a path, up to its last slash and from there. -/
lemma toList_joinComponents_concat (hp : ∀ c ∈ p ++ [k], IsComponent c) :
    (joinComponents (p ++ [k])).toList = (p.flatMap fun c => '/' :: c.toList) ++
    '/' :: k.toList := by
  rw [toList_joinComponents _ (by simp) hp]
  simp

lemma stripTrailingSlash_joinComponents (hne : p ≠ []) (hp : ∀ c ∈ p, IsComponent c) :
    stripTrailingSlash (joinComponents p) = joinComponents p := by
  rcases eq_nil_or_concat p with rfl | ⟨p, k, rfl⟩
  · exact absurd rfl hne
  rw [concat_eq_append] at hp ⊢
  have hk := hp k (by simp)
  rw [stripTrailingSlash, if_neg]
  rintro ⟨-, hls⟩
  have hkne : k.toList ≠ [] := fun h0 => hk.1 (String.toList_inj.mp h0)
  rw [toList_joinComponents_concat hp, getLast?_append_of_ne_nil _ (by simp),
    getLast?_cons_of_ne_nil hkne] at hls
  exact hk.2 (mem_of_getLast? hls)

lemma Plain.strip (h : Plain p) : stripTrailingSlash (joinComponents p) = joinComponents p :=
  stripTrailingSlash_joinComponents h.ne h.comps

section

variable (hp : ∀ c ∈ p ++ [k], IsComponent c)
include hp

lemma splitAtLastSlash : (joinComponents (p ++ [k])).toList.reverse
      = k.toList.reverse ++ '/' :: (p.flatMap fun c => '/' :: c.toList).reverse ∧
    ∀ ch ∈ k.toList.reverse, (ch ≠ '/' : Bool) = true := by
  refine ⟨?_, fun ch hch => ?_⟩
  · rw [toList_joinComponents_concat hp]
    simp
  · simpa using fun heq : ch = '/' => (hp k (by simp)).2 (heq ▸ mem_reverse.mp hch)

lemma parentDir_joinComponents : parentDir (joinComponents (p ++ [k])) = joinComponents p := by
  obtain ⟨hrev, hk⟩ := splitAtLastSlash hp
  rw [parentDir, stripTrailingSlash_joinComponents (by simp) hp, hrev,
    dropWhile_append_of_all hk (by decide), drop_one, tail_cons, reverse_reverse]
  by_cases hne : p = []
  · subst hne
    rfl
  · rw [← toList_joinComponents p hne fun c hc => hp c (mem_append_left _ hc), if_neg,
      String.ofList_toList]
    exact fun hnil => joinComponents_ne_empty (fun c hc => hp c (mem_append_left _ hc))
      (String.toList_inj.mp hnil)

lemma baseName_joinComponents : baseName (joinComponents (p ++ [k])) = k := by
  obtain ⟨hrev, hk⟩ := splitAtLastSlash hp
  rw [baseName, hrev, takeWhile_append_of_all hk (by decide), reverse_reverse, String.ofList_toList]

end

lemma Plain.baseName_ne (h : Plain p) : baseName (joinComponents p) ≠ kDirMarker := by
  obtain ⟨q, c, rfl, -, hc⟩ := h.concat
  rwa [baseName_joinComponents h.comps]

/-! ## Orderly tables -/

/-- A charted table with directories as `Mkdir` makes them. -/
structure Orderly (t : TagTable) : Prop extends Charted t where
  /-- A directory below the root has a marker. -/
  marked : ∀ p k, p ≠ [] → locate t (p ++ [k]) ≠ none → locate t (p ++ [kDirMarker]) ≠ none
  /-- A marker has one path and nothing below it. -/
  sole : ∀ p q m, locate t (p ++ [kDirMarker]) = some m → locate t q = some m →
    q = p ++ [kDirMarker]
  below : ∀ p k, locate t (p ++ [kDirMarker] ++ [k]) = none
  /-- The root has none. -/
  plain : locate t [kDirMarker] = none
  lines : ∀ p, locate t p ≠ none → ∀ c ∈ p, OneLine c

/-- The path leads to a directory. -/
def DirAt (t : TagTable) (p : List String) : Prop := p = [] ∨ locate t (p ++ [kDirMarker]) ≠ none

/-- The path leads to a file. -/
def FileAt (t : TagTable) (p : List String) : Prop :=
  locate t p ≠ none ∧ locate t (p ++ [kDirMarker]) = none

variable {t : TagTable} {x y : TagId}

lemma locate_of_concat (h : locate t (p ++ [k]) = some y) :
    ∃ x, locate t p = some x ∧ entries t x k = some y := walk_concat_eq_some.mp h

/-- Below a path that leads nowhere there is nothing. -/
lemma locate_below (hp : locate t p = none) (hpre : p <+: q) : locate t q = none := by
  obtain ⟨l, rfl⟩ := hpre
  rw [locate, walk_append, ← locate, hp, Option.bind_none]

namespace Orderly

/-- A path that leads to a directory leads to a tag, or to the root. -/
lemma exists_of_dirAt (hp : DirAt t p) : ∃ x, locate t p = some x := by
  rcases hp with rfl | hp
  · exact ⟨rootOf t, rfl⟩
  · obtain ⟨m, hm⟩ := Option.ne_none_iff_exists'.mp hp
    obtain ⟨x, hx, -⟩ := locate_of_concat hm
    exact ⟨x, hx⟩

section

variable (h : Orderly t)
include h

/-- A tag with entries is a directory. -/
lemma isDir_iff (hp : locate t p = some x) (hne : p ≠ []) :
    IsDir (entries t) x ↔ locate t (p ++ [kDirMarker]) ≠ none := by
  constructor
  · rintro ⟨k, hk⟩
    exact h.marked p k hne (by rwa [locate_concat hp])
  · intro hm
    rw [locate_concat hp] at hm
    exact ⟨kDirMarker, hm⟩

lemma not_isDir (hp : locate t p = some x) (hne : p ≠ []) (hfi : FileAt t p) :
    ¬ IsDir (entries t) x := by
  rw [h.isDir_iff hp hne]
  exact not_not.mpr hfi.2

/-- The entries of a directory may be changed without touching another path to it. -/
lemma sole_of_dirAt (hp : DirAt t p) (hx : locate t p = some x) : Sole (entries t) x := by
  rcases hp with rfl | hp
  · exact Option.some.inj hx ▸ h.tree.sole_root
  · rw [locate_concat hx] at hp
    exact h.tree.sole x ⟨kDirMarker, hp⟩

lemma marker_sole {m : TagId} (hp : locate t p = some x) (hm : entries t x kDirMarker = some m)
    : Sole (entries t) m := by
  have hpt : locate t (p ++ [kDirMarker]) = some m := by rw [locate_concat hp, hm]
  refine .of_forall (x := x) (k := kDirMarker) fun {d c} hd => ?_
  obtain ⟨pd, hpd⟩ := h.tree.reachable d (isDir_of_entry hd)
  have heq := h.sole p (pd ++ [c]) m hpt (walk_concat_eq_some.mpr ⟨d, hpd, hd⟩)
  obtain ⟨rfl, hc⟩ := append_inj' heq rfl
  exact ⟨Option.some.inj (hpd.symm.trans hp), (cons.inj hc).1⟩

lemma marker_leaf {m : TagId} (hp : locate t p = some x) (hm : entries t x kDirMarker = some m)
    : ¬ IsDir (entries t) m := by
  have hpt : locate t (p ++ [kDirMarker]) = some m := by rw [locate_concat hp, hm]
  rintro ⟨k, hk⟩
  rw [← locate_concat hpt] at hk
  exact hk (h.below p k)

lemma marked_of_dirAt (hp : DirAt t p) (hx : locate t p = some x) : Marked t x := by
  rcases hp with rfl | hp
  · exact .inl (Option.some.inj hx).symm
  · obtain ⟨m, hm⟩ := Option.ne_none_iff_exists'.mp hp
    rw [locate_concat hx] at hm
    exact .inr ⟨m, hm, h.marker_leaf hx hm, h.marker_sole hx hm⟩

/-- The parent of something is a directory. -/
lemma dirAt_of_concat (hk : locate t (p ++ [k]) ≠ none) : DirAt t p := by
  by_cases hne : p = []
  · exact .inl hne
  · exact .inr (h.marked p k hne hk)

/-- A directory with nothing but its marker. -/
lemma vacant (hp : locate t p = some x) (hdir : locate t (p ++ [kDirMarker]) ≠ none)
    (hon : ∀ k, locate t (p ++ [k]) ≠ none → k = kDirMarker) :
    ∃ m, Vacant t x m := by
  obtain ⟨m, hm⟩ := Option.ne_none_iff_exists'.mp hdir
  rw [locate_concat hp] at hm
  refine ⟨m, hm, h.marker_leaf hp hm, h.marker_sole hp hm, fun c hc => hon c ?_⟩
  rwa [locate_concat hp]

end

end Orderly

/-! ## Changes -/

namespace Orderly

variable {u : TagTable} {r : List String}

/-- One path is added: a file to a directory, or a marker where there is none. -/
lemma insert (h : Orderly t) (hu : Charted u) (hp : kDirMarker ∉ p)
    (hdir : k ≠ kDirMarker → DirAt t p)
    {id : TagId} (hloc : ∀ q, q ≠ [] → locate u q = if q = p ++ [k] then some id else locate t q)
    (hid : ∀ q, locate t (q ++ [kDirMarker]) ≠ some id)
    (hnew : k = kDirMarker → p ≠ [] ∧ ∀ q, q ≠ [] → locate t q ≠ some id)
    (hln : ∀ c ∈ p ++ [k], OneLine c) : Orderly u := by
  have hkp : ∀ q, locate t (q ++ [kDirMarker]) ≠ none → locate u (q ++ [kDirMarker]) ≠ none := by
    intro q hq
    rw [hloc _ (by simp)]
    split_ifs
    · simp
    · exact hq
  refine { hu with marked := ?_, sole := ?_, below := ?_, plain := ?_, lines := ?_ }
  · intro q c hq hc
    by_cases heq : q ++ [c] = p ++ [k]
    · obtain ⟨rfl, rfl⟩ := append_singleton_inj.mp heq
      by_cases hk : c = kDirMarker
      · exact hk ▸ hc
      · exact hkp q ((hdir hk).resolve_left hq)
    · rw [hloc _ (by simp), if_neg heq] at hc
      exact hkp q (h.marked q c hq hc)
  · intro q q' m hm hm'
    have hq' : q' ≠ [] := by
      -- the root is no marker
      rintro rfl
      obtain ⟨d, -, hd⟩ := locate_of_concat hm
      exact hu.tree.root d kDirMarker ((Option.some.inj hm').symm ▸ hd)
    rw [hloc _ (by simp)] at hm
    rw [hloc q' hq'] at hm'
    split_ifs at hm hm' with heq heq'
    · rw [heq, heq']
    · exact absurd (hm'.trans hm.symm) ((hnew (append_singleton_inj.mp heq).2.symm).2 q' hq')
    · exact absurd (hm.trans hm'.symm) (hid q)
    · exact h.sole q q' m hm hm'
  · intro q c
    rw [hloc _ (by simp), if_neg, h.below]
    intro heq
    exact hp (by simp [← (append_singleton_inj.mp heq).1])
  · rw [hloc _ (by simp), if_neg, h.plain]
    intro heq
    obtain ⟨rfl, rfl⟩ := append_singleton_inj.mp (show [] ++ [kDirMarker] = p ++ [k] from heq)
    exact (hnew rfl).1 rfl
  · intro q hq
    by_cases hnil : q = []
    · subst hnil
      simp
    · rw [hloc q hnil] at hq
      split_ifs at hq with heq
      · rwa [heq]
      · exact h.lines q hq

/-- A path that leads to a file gets a marker. -/
lemma mark (h : Orderly t) (hr : Plain r) (hfi : FileAt t r) {m : TagId}
    (hgr : Grows t u (r ++ [kDirMarker]) m) : Orderly u := by
  have hfr : ∀ {q}, q ≠ [] → locate t q ≠ some m := by
    intro q hq hm
    have hlt := (h.ids m (h.has_of_locate hm hq)).2.2
    exact absurd hgr.fresh (by omega)
  refine h.insert hgr.charted hr.unmarked (absurd rfl) hgr.locate (fun q => hfr (by simp))
    (fun _ => ⟨hr.ne, fun q => hfr⟩) fun c hc => ?_
  rcases mem_append.mp hc with hc | hc
  · exact h.lines r hfi.1 c hc
  · rw [mem_singleton.mp hc]
    decide

/-- Paths are taken away; a marker goes with all that its directory has. -/
lemma remove (h : Orderly t) {gone : List (List String)} {tags : List TagId}
    (hrm : Removed t u gone tags)
    (hgn : ∀ q c, q ++ [kDirMarker] ∈ gone → locate t (q ++ [c]) ≠ none → q ++ [c] ∈ gone) :
    Orderly u := by
  have hsub : ∀ {q z}, locate u q = some z → locate t q = some z ∧ q ∉ gone := by
    intro q z hz
    rw [hrm.locate] at hz
    split_ifs at hz with hmem
    exact ⟨hz, hmem⟩
  refine { hrm.charted with marked := ?_, sole := ?_, below := ?_, plain := ?_, lines := ?_ }
  · intro q c hq hc
    obtain ⟨z, hz⟩ := Option.ne_none_iff_exists'.mp hc
    obtain ⟨hold, hkp⟩ := hsub hz
    have hold' : locate t (q ++ [c]) ≠ none := by simp [hold]
    rw [hrm.locate, if_neg fun hmem => hkp (hgn q c hmem hold')]
    exact h.marked q c hq hold'
  · intro q q' m hm hm'
    exact h.sole q q' m (hsub hm).1 (hsub hm').1
  · intro q c
    rw [hrm.locate, h.below, ite_self]
  · rw [hrm.locate, h.plain, ite_self]
  · intro q hq
    obtain ⟨z, hz⟩ := Option.ne_none_iff_exists'.mp hq
    exact h.lines q (by simp [(hsub hz).1])

/-- A path moves with all that is below it. -/
lemma move (h : Orderly t) (hp : DirAt t p) (hr : Plain r) (hr2 : Plain (p ++ [k]))
    (hnot : ¬ r <+: p) (hln : ∀ c ∈ p ++ [k], OneLine c) (hmv : Relocated t u r (p ++ [k])) :
    Orderly u := by
  -- Where a path of the new tree comes from.
  have hor : ∀ {q z}, locate u q = some z → (∃ s, q = p ++ [k] ++ s ∧ locate t (r ++ s) = some z) ∨
        (¬ p ++ [k] <+: q ∧ ¬ r <+: q ∧ locate t q = some z) := by
    intro q z hz
    rw [hmv.locate] at hz
    split_ifs at hz with hpre hpre'
    · obtain ⟨s, rfl⟩ := hpre
      rw [drop_left] at hz
      exact .inl ⟨s, rfl, hz⟩
    · exact .inr ⟨hpre, hpre', hz⟩
  have hnew : ∀ s, locate u (p ++ [k] ++ s) = locate t (r ++ s) := fun s => by
    rw [hmv.locate, if_pos (prefix_append _ _), drop_left]
  have hold : ∀ {q}, ¬ p ++ [k] <+: q → ¬ r <+: q → locate u q = locate t q := fun h2 h1 => by
    rw [hmv.locate, if_neg h2, if_neg h1]
  refine { hmv.charted with marked := ?_, sole := ?_, below := ?_, plain := ?_, lines := ?_ }
  · intro q c hq hc
    by_cases hpre : p ++ [k] <+: q
    · obtain ⟨s, rfl⟩ := hpre
      rw [append_assoc, hnew, ← append_assoc] at hc ⊢
      exact h.marked (r ++ s) c (by simp [hr.ne]) hc
    · obtain ⟨z, hz⟩ := Option.ne_none_iff_exists'.mp hc
      have hq' : ¬ r <+: q ∧ locate t (q ++ [kDirMarker]) ≠ none := by
        rcases hor hz with ⟨s, hs, -⟩ | ⟨-, h1, hqz⟩
        · have heq := (prefix_concat_iff.mp ⟨s, hs.symm⟩).resolve_right hpre
          obtain ⟨rfl, -⟩ := append_singleton_inj.mp heq
          exact ⟨hnot, hp.resolve_left hq⟩
        · exact ⟨fun hpre => h1 (hpre.trans (prefix_append q [c])), h.marked q c hq (by simp [hqz])⟩
      rw [hold (fun h2 => hpre (hr2.prefix_of_marker h2)) fun h1 => hq'.1 (hr.prefix_of_marker h1)]
      exact hq'.2
  · intro q q' m hm hm'
    by_cases hpre : p ++ [k] <+: q
    · obtain ⟨s, rfl⟩ := hpre
      rw [append_assoc, hnew, ← append_assoc] at hm
      rcases hor hm' with ⟨s', rfl, hsm'⟩ | ⟨-, h1', hqm'⟩
      · have heq := h.sole (r ++ s) (r ++ s') m hm hsm'
        rw [append_assoc, append_cancel_left_eq] at heq
        rw [heq, append_assoc (p ++ [k])]
      · have heq := h.sole (r ++ s) q' m hm hqm'
        exact absurd (heq ▸ (prefix_append r s).trans (prefix_append _ _)) h1'
    · rcases hor hm with ⟨s, hs, -⟩ | ⟨-, h1, hqm⟩
      · exact absurd (hr2.prefix_of_marker ⟨s, hs.symm⟩) hpre
      · rcases hor hm' with ⟨s', rfl, hsm'⟩ | ⟨-, -, hqm'⟩
        · exact absurd (h.sole q (r ++ s') m hqm hsm' ▸ prefix_append r s') h1
        · exact h.sole q q' m hqm hqm'
  · intro q c
    by_contra hne
    by_cases hpre : p ++ [k] <+: q
    · obtain ⟨s, rfl⟩ := hpre
      rw [append_assoc, append_assoc, hnew, ← append_assoc, ← append_assoc, h.below] at hne
      exact hne rfl
    · obtain ⟨z, hz⟩ := Option.ne_none_iff_exists'.mp hne
      rcases hor hz with ⟨s, hs, -⟩ | ⟨-, -, hqz⟩
      · rcases prefix_concat_iff.mp ⟨s, hs.symm⟩ with heq | hpre'
        · exact absurd (by simp [heq]) hr2.unmarked
        · exact hpre (hr2.prefix_of_marker hpre')
      · cases hqz.symm.trans (h.below q c)
  · have hpre : ∀ {q' : List String}, Plain q' → ¬ q' <+: [kDirMarker] := fun hq' hpre =>
      hq'.ne (prefix_nil.mp (hq'.prefix_of_marker (q := []) hpre))
    rw [hold (hpre hr2) (hpre hr), h.plain]
  · intro q hq
    obtain ⟨z, hz⟩ := Option.ne_none_iff_exists'.mp hq
    rcases hor hz with ⟨s, rfl, hsz⟩ | ⟨-, -, hqz⟩
    · intro c hc
      rcases mem_append.mp hc with hc | hc
      · exact hln c hc
      · exact h.lines (r ++ s) (by simp [hsz]) c (mem_append_right _ hc)
    · exact h.lines q (by simp [hqz])

end Orderly

/-! ## The probes -/

variable {c : Core}

lemma tagQueryChildren_ne_nil_iff (h : Orderly c.tags) (hp : Plain p) :
    c.tagQueryChildren (joinComponents p) ≠ [] ↔ locate c.tags (p ++ [kDirMarker]) ≠ none := by
  constructor
  · intro hchi
    obtain ⟨key, hkey⟩ := exists_mem_of_ne_nil _ hchi
    obtain ⟨k, hk, -⟩ := (mem_tagQueryChildren h.toLaid h.index hp.comps hp.ne).mp hkey
    exact h.marked p k hp.ne hk
  · intro hm
    exact ne_nil_of_mem ((mem_tagQueryChildren h.toLaid h.index hp.comps hp.ne).mpr ⟨_, hm, rfl⟩)

lemma tagQueryChildren_eq_nil (h : Orderly c.tags) (hp : Plain p)
    (hm : locate c.tags (p ++ [kDirMarker]) = none) :
    c.tagQueryChildren (joinComponents p) = [] := by
  by_contra hne
  exact (tagQueryChildren_ne_nil_iff h hp).mp hne hm

lemma isDirectory_iff (h : Orderly c.tags) (hp : Plain p) :
    State.isDirectory c (joinComponents p) = true ↔ locate c.tags (p ++ [kDirMarker]) ≠ none := by
  rw [State.isDirectory, joinComponents_concat_eq hp.ne hp.comps,
    tagQueryExact_joinComponents h.toLaid hp.marker_comps (by simp), Bool.or_eq_true,
    decide_eq_true_eq,
    Option.isSome_iff_ne_none, tagQueryChildren_ne_nil_iff h hp, or_self]

lemma isDirectory_eq_false (h : Orderly c.tags) (hp : Plain p)
    (hm : locate c.tags (p ++ [kDirMarker]) = none) :
    State.isDirectory c (joinComponents p) = false := by
  rw [← Bool.not_eq_true, isDirectory_iff h hp]
  exact not_not.mpr hm

lemma hasRealChild_iff (h : Orderly c.tags) (hp : Plain p) :
    c.hasRealChild (joinComponents p) = true ↔ ∃ k, k ≠ kDirMarker ∧
    locate c.tags (p ++ [k]) ≠ none := by
  rw [Core.hasRealChild, any_eq_true]
  have hbase : ∀ k, locate c.tags (p ++ [k]) ≠ none →
      String.ofList ((joinComponents (p ++ [k])).toList.drop
        ((joinComponents p).toList.length + 1)) = k := by
    intro k hk
    rw [drop_joinComponents_append hp.ne (h.isComponent hk)]
    simp
  constructor
  · rintro ⟨key, hkey, hreal⟩
    obtain ⟨k, hk, rfl⟩ := (mem_tagQueryChildren h.toLaid h.index hp.comps hp.ne).mp hkey
    rw [hbase k hk] at hreal
    exact ⟨k, of_decide_eq_true hreal, hk⟩
  · rintro ⟨k, hkm, hk⟩
    refine ⟨_, (mem_tagQueryChildren h.toLaid h.index hp.comps hp.ne).mpr ⟨k, hk, rfl⟩, ?_⟩
    rw [hbase k hk]
    exact decide_eq_true hkm

/-- Every blob is a page. -/
def Core.AllPages (c : Core) : Prop := ∀ key, c.blobs.lookup key ≠ none → ∃ n :
    ℕ, key.name = toString n

end ClioCore.Filesystem
