import ClioCore.Filesystem.Renaming

/-!
# Every orderly operation keeps the filesystem settled

`FsOp.orderly` says of an operation that it stays within what the tree of files and directories is
made for: paths in normal form, parents that are directories, and of a rename what
`Settled.rename_moved` asks.  From the creation of the filesystem on, orderly operations return and
lead from one settled state to the next (`FsOp.settled`).
-/

namespace ClioCore.Filesystem

open Foundations Foundations.Namespace Cte List Option AList State Function

variable {s : State} {t u : TagTable} {p q r : List String} {k : String} {x y : TagId} {i n : ℕ}

/-! ## Files that stay where they are -/

/-- The path led to a file, and leads to the same file. -/
def Stays (t u : TagTable) (q : List String) : Prop := FileAt u q ∧ locate u q = locate t q

lemma stays_of_eq (hfi : FileAt t q) (hq : locate u q = locate t q)
    (hm : locate u (q ++ [kDirMarker]) = none) : Stays t u q := ⟨⟨hq ▸ hfi.1, hm⟩, hq⟩

lemma Grows.stays (h : Grows t u r x) (hr : ClioCore.Filesystem.locate t r = none) (hq : Plain q)
    (hfi : FileAt t q) (hm : q ++ [kDirMarker] ≠ r) : Stays t u q := by
  refine stays_of_eq hfi ?_ ?_
  · rw [h.locate q hq.ne, if_neg fun heq : q = r => hfi.1 (heq ▸ hr)]
  · rw [h.locate _ (by simp), if_neg hm, hfi.2]

/-- The counter of ids does not go back. -/
lemma Grows.next_le (h : Grows t u r x) (hr : r ≠ []) : t.nextMinor ≤ u.nextMinor := by
  have hlt := (h.charted.ids x (h.charted.has_of_locate (h.locate_self hr) hr)).2.2
  have hfr := h.fresh
  omega

lemma Linked.stays {id : Option TagId} (h : Linked t u r id)
    (hr : ClioCore.Filesystem.locate t r = none)
    (hfi : FileAt t q) (hm : q ++ [kDirMarker] ≠ r) : Stays t u q := by
  refine stays_of_eq hfi ?_ ?_
  · rw [h.locate q, if_neg fun heq : q = r => hfi.1 (heq ▸ hr)]
  · rw [h.locate _, if_neg hm, hfi.2]

variable (c : Core) (path : String) {gone : List TagId}

lemma Removed.stays {paths : List (List String)} (h : Removed t u paths gone)
    (hfi : FileAt t q) (hq : q ∉ paths) : Stays t u q := by
  refine stays_of_eq hfi ?_ ?_
  · rw [h.locate q, if_neg hq]
  · rw [h.locate, hfi.2, ite_self]

namespace Settled

section

variable (h : Settled s)
include h

/-- Tags and blobs change, but not where the tracked files are. -/
lemma retag {c : Core} (htags : Orderly c.tags) (hnx : s.core.tags.nextMinor ≤ c.tags.nextMinor)
    (hbls : ∀ key, c.blobs.lookup key ≠ none → s.core.blobs.lookup key ≠ none)
    {byPath : AList fun _ : String => ℕ}
    (hsub : ∀ path i, byPath.lookup path = some i → s.byPath.lookup path = some i)
    (hsta : ∀ q, Plain q → FileAt s.core.tags q → byPath.lookup (joinComponents q) ≠ none →
      Stays s.core.tags c.tags q)
    : Settled { s with core := c, byPath := byPath } := by
  refine h.setTags htags hnx hbls fun path i hi => ?_
  obtain ⟨hlt, q, rfl, hq, hfi, hloc⟩ := h.tracked path i (hsub path i hi)
  obtain ⟨hfi', hsm⟩ := hsta q hq hfi (by simp [hi])
  exact ⟨hlt, q, rfl, hq, hfi', hsm.trans hloc⟩

/-- A file is created. -/
lemma openFile_keeps (hp : Plain (p ++ [k])) (hx : locate s.core.tags (p ++ [k]) = none)
    (hgr : Grows s.core.tags u (p ++ [k]) x) (hu : Orderly u) :
    Settled { ({ s with core := { s.core with tags := u } }.track ⟨x,
      joinComponents (p ++ [k]), 0⟩).2 with
      nextHandle := s.nextHandle + 1, handles := s.handles.insert s.nextHandle s.nextFile } := by
  have hret : Settled { s with core := { s.core with tags := u } } :=
    h.retag (c := { s.core with tags := u }) hu (hgr.next_le (by simp)) (fun _ hkey => hkey)
      (fun _ _ hi => hi) fun q hq hfi _ => hgr.stays hx hq hfi fun heq =>
      hp.unmarked (by simp [← heq])
  have hsf := hgr.locate_self (by simp)
  have hfi : FileAt u (p ++ [k]) := by
    refine ⟨by simp [hsf], ?_⟩
    rw [hgr.locate _ (by simp), if_neg (by simp)]
    exact locate_below hx (prefix_append _ _)
  exact (hret.track hp hfi hsf 0).insertHandle (Nat.lt_succ_self s.nextFile) (s.nextHandle + 1)

/-- A file that is there is opened, and tracked if it was not. -/
lemma openFile_found (hp : Plain p) (hfi : FileAt s.core.tags p)
    (hx : locate s.core.tags p = some x)
    (creat : Bool) : Settled (s.openFile (joinComponents p) creat).2 := by
  cases hi : s.byPath.lookup (joinComponents p) with
  | some i =>
    rw [h.openFile_tracked hp hi]
    exact h.insertHandle (h.tracked _ i hi).1 _
  | none =>
    rw [h.openFile_untracked hp hx hi]
    exact (h.track hp hfi hx _).insertHandle (Nat.lt_succ_self s.nextFile) _

lemma write (handle offset : ℕ) (data : List UInt8) : Settled (s.write handle offset data).2 := by
  unfold State.write
  split
  · exact h
  · next i hi =>
      dsimp only
      have hkn := h.known i (h.opened handle i hi)
      exact (h.within (Core.within_writePages (s.files i).tagId data _ (s.core, 0)) hkn).modifyFile
        i fun _ => rfl

lemma close (handle : ℕ) : Settled (s.close handle) :=
  h.setHandles fun hd i hi => h.opened hd i (lookup_erase_eq_some.mp hi).2

lemma truncate (hp : Plain p) (hfi : FileAt s.core.tags p) (n : ℕ) :
    Settled (s.truncate (joinComponents p) n) := by
  obtain ⟨x, hx⟩ := ne_none_iff_exists'.mp hfi.1
  have hmnr := (h.tags.ids x (h.has hp hx)).2.2
  cases hi : s.byPath.lookup (joinComponents p) with
  | some i =>
    obtain rfl := h.tagId_of_tracked hp hx hi
    have hnull : (s.files i).tagId ≠ .null := h.tags.ne_null (h.has hp hx)
    have hst := (h.within (Core.within_trimPages s.core _ (s.files i).size n) hmnr).modifyFile i
      (f := fun info => { info with size := n }) fun _ => rfl
    simpa [State.truncate, hi, hnull, State.modifyFile] using hst
  | none =>
    have htr : s.truncate (joinComponents p) n =
        (({ s with core := State.trimPages s.core x (s.physical x) n } : State).track
          ⟨x, joinComponents p, n⟩).2 := by
      unfold State.truncate
      unfold State.truncateUntracked State.physical
      simp [h.getOrCreateTag hp hx, hi, State.track]
    rw [htr]
    have hwin := Core.within_trimPages s.core x (s.physical x) n
    refine (h.within hwin hmnr).track hp ?_ ?_ n
    · rwa [hwin.tags]
    · rwa [hwin.tags]

/-- A directory is added. -/
lemma mkdir_keeps (hp : Plain (p ++ [k])) (hx : locate s.core.tags (p ++ [k]) = none) {m : TagId}
    (hgr : Grows s.core.tags t (p ++ [k]) x) (hmark : Grows t u (p ++ [k] ++ [kDirMarker]) m)
    (hu : Orderly u) : Settled { s with core := { s.core with tags := u } } := by
  have hnx := (hgr.next_le (by simp)).trans (hmark.next_le (by simp))
  refine h.retag (c := { s.core with tags := u }) hu hnx (fun _ hkey => hkey) (fun _ _ hi => hi)
    fun q hq hfi _ => ?_
  have hnew : q ≠ p ++ [k] := fun heq => hfi.1 (heq ▸ hx)
  obtain ⟨hfi', hsm⟩ := hgr.stays hx hq hfi fun heq => hp.unmarked (by simp [← heq])
  have hfe : locate t (p ++ [k] ++ [kDirMarker]) = none := by
    rw [hgr.locate _ (by simp), if_neg (by simp)]
    exact locate_below hx (prefix_append _ _)
  obtain ⟨hfi'', hsm'⟩ := hmark.stays hfe hq hfi' fun heq => hnew (append_singleton_inj.mp heq).1
  exact ⟨hfi'', hsm'.trans hsm⟩

/-- Paths are removed; those of files are not tracked any more. -/
lemma remove_keeps {paths : List (List String)} {gone : List TagId}
    (hrm : Removed s.core.tags u paths gone) (hu : Orderly u) {byPath : AList fun _ : String => ℕ}
    (hsub : ∀ path i, byPath.lookup path = some i → s.byPath.lookup path = some i)
    (hgn : ∀ q ∈ paths, FileAt s.core.tags q → byPath.lookup (joinComponents q) = none) :
    Settled { s with core := s.core.pruned u gone, byPath := byPath } :=
  h.retag hu hrm.room.ge (lookup_of_dropBlobs s gone) hsub fun q _ hfi hq =>
    hrm.stays hfi fun hmem => hq (hgn q hmem hfi)

end

end Settled

/-! ## A rename -/

lemma lookup_moveTracked (s : State) {src dst : String} (hne : src ≠ dst) (path : String) :
    (s.moveTracked src dst).byPath.lookup path
      = if path = src then none else if path = dst then s.byPath.lookup src
      else s.byPath.lookup path := by
  have hsrc : (s.byPath.erase dst).lookup src = s.byPath.lookup src := lookup_erase_ne hne
  have hdst : (s.byPath.erase dst).lookup path = if path = dst then none
      else s.byPath.lookup path := by
    obtain rfl | hpt := eq_or_ne path dst
    · rw [if_pos rfl, lookup_erase]
    · rw [if_neg hpt, lookup_erase_ne hpt]
  unfold moveTracked
  dsimp only
  rw [hsrc]
  cases hi : s.byPath.lookup src with
  | none =>
    rw [hdst]
    obtain rfl | hpt := eq_or_ne path src
    · rw [if_pos rfl, if_neg hne, hi]
    · rw [if_neg hpt]
  | some i =>
    obtain rfl | hpt := eq_or_ne path src
    · rw [if_pos rfl, lookup_erase]
    · rw [if_neg hpt, lookup_erase_ne hpt]
      obtain rfl | hpt' := eq_or_ne path dst
      · rw [if_pos rfl, lookup_insert]
      · rw [if_neg hpt', lookup_insert_ne hpt', hdst, if_neg hpt']

/-- A rename leaves the tags and sizes of the `FileInfo` objects. -/
lemma files_moveTracked (s : State) (src dst : String) (i : ℕ) :
    ((s.moveTracked src dst).files i).tagId = (s.files i).tagId ∧
      ((s.moveTracked src dst).files i).size = (s.files i).size := by
  unfold moveTracked
  dsimp only
  split
  · exact ⟨rfl, rfl⟩
  · next j _ =>
      show ((update s.files j _ i).tagId = _) ∧ ((update s.files j _ i).size = _)
      obtain rfl | hne := eq_or_ne i j
      · rw [update_self]
        exact ⟨rfl, rfl⟩
      · rw [update_of_ne hne]
        exact ⟨rfl, rfl⟩

/-- What has not moved. -/
lemma Moved.stays {r2 : List String} (h : Moved t u r r2 gone) (hr : Plain r)
    (hr2 : Plain r2) (hfi : FileAt t q) (hq : ¬ r <+: q) (hq2 : ¬ r2 <+: q) : Stays t u q := by
  refine stays_of_eq hfi ?_ ?_
  · rw [h.locate, if_neg hq2, if_neg hq]
  · rw [h.locate, if_neg fun hpre => hq2 (hr2.prefix_of_marker hpre),
      if_neg fun hpre => hq (hr.prefix_of_marker hpre), hfi.2]

/-- What has moved. -/
lemma Moved.locate_append {r2 : List String} (h : Moved t u r r2 gone)
    (l : List String) : ClioCore.Filesystem.locate u (r2 ++ l) =
    ClioCore.Filesystem.locate t (r ++ l) := by
  rw [h.locate, if_pos (prefix_append r2 l), drop_left]

namespace Settled

variable {r2 : List String}

lemma rename_keeps (h : Settled s) (hr : Plain r) (hr2 : Plain r2) {gone : List TagId}
    (hmv : Moved s.core.tags u r r2 gone) (hdst : s.core.dstState (joinComponents r2) ≠ .fullDir)
    (hunt : ∀ q, Plain q → q ≠ r → r <+: q → s.byPath.lookup (joinComponents q) = none) :
    Settled (({ s with core := s.core.pruned u gone } : State).moveTracked
      (joinComponents r) (joinComponents r2)) := by
  have hne : joinComponents r ≠ joinComponents r2 :=
    fun heq => hmv.apart (hr.inj hr2 heq ▸ prefix_rfl)
  set s1 : State := { s with core := s.core.pruned u gone }
  have hcr := core_moveTracked s1 (joinComponents r) (joinComponents r2)
  have hfls := files_moveTracked s1 (joinComponents r) (joinComponents r2)
  have hlk := lookup_moveTracked s1 hne
  obtain ⟨hnx, hhan⟩ : (s1.moveTracked (joinComponents r) (joinComponents r2)).nextFile =
      s1.nextFile ∧
      (s1.moveTracked (joinComponents r) (joinComponents r2)).handles = s1.handles := by
    unfold moveTracked
    dsimp only
    split <;> exact ⟨rfl, rfl⟩
  refine ⟨?_, fun key hkey => ?_, fun key hkey => ?_, fun path i hi => ?_, fun hd i hi => ?_,
    fun i hi => ?_⟩
  · rw [hcr]
    exact hmv.orderly
  · rw [hcr] at hkey
    exact h.pages key (lookup_of_dropBlobs s gone key hkey)
  · rw [hcr] at hkey ⊢
    exact (h.blobs key (lookup_of_dropBlobs s gone key hkey)).trans_le hmv.room.ge
  · rw [hnx, hcr, (hfls i).1]
    rw [hlk] at hi
    split_ifs at hi with hsrc hpt
    · -- the entry of the source is that of the destination now
      obtain ⟨hfi, hloc⟩ := h.fileAt_of_tracked hr hi
      obtain ⟨hlt, -⟩ := h.tracked _ i hi
      have hsf : locate u r2 = some (s.files i).tagId := by
        rw [← append_nil r2, hmv.locate_append, append_nil, hloc]
      refine ⟨hlt, r2, hpt, hr2, ⟨?_, ?_⟩, hsf⟩
      · show locate u r2 ≠ none
        rw [hsf]
        simp
      · exact (hmv.locate_append _).trans hfi.2
    · obtain ⟨hlt, q, rfl, hq, hfi, hloc⟩ := h.tracked path i hi
      have hqr : ¬ r <+: q := fun hpre => by
        rw [hunt q hq (fun heq => hsrc (by rw [heq])) hpre] at hi
        simp at hi
      have hqr2 : ¬ r2 <+: q := fun hpre => by
        rcases h.below_dst hr2 hdst hfi.1 hpre with heq | heq
        · exact hpt (by rw [heq])
        · exact hq.unmarked (by simp [heq])
      obtain ⟨hfi', hsm⟩ := hmv.stays hr hr2 hfi hqr hqr2
      exact ⟨hlt, q, rfl, hq, hfi', hsm.trans hloc⟩
  · rw [hhan] at hi
    rw [hnx]
    exact h.opened hd i hi
  · rw [hnx] at hi
    rw [hcr, (hfls i).1]
    exact (h.known i hi).trans_le hmv.room.ge

end Settled

/-! ## The first state -/

section Create

variable {nodeId : ℕ}

lemma entries_create (nodeId : ℕ) (x : TagId) (k : String) :
    entries (create nodeId).core.tags x k = none :=
  names_create nodeId fun hmem => not_flat_makeRelativeName x k (.inr hmem)

lemma locate_create {q : List String} (hq : q ≠ []) : locate (create nodeId).core.tags q = none :=
  walk_of_not_isDir (fun ⟨k, hk⟩ => hk (entries_create nodeId _ k)) hq

lemma sound_create (nodeId : ℕ) : (create nodeId).core.tags.Sound := by
  -- the counter of ids moves on before each tag is added
  let t1 : TagTable := { TagTable.init nodeId with nextMinor := 2 }
  let t2 : TagTable := { t1.addTag "_clio_append_staging" ⟨nodeId, 1⟩ with nextMinor := 3 }
  have h1 : t1.Sound := (TagTable.sound_init nodeId).of_namesOf (fun _ => rfl) fun _ => rfl
  have hfe1 : t1.names.lookup "_clio_append_staging" = none := rfl
  have hadd : (t1.addTag "_clio_append_staging" ⟨nodeId, 1⟩).Sound :=
    h1.addTag hfe1 (fun h => h rfl) (by decide)
  have h2 : t2.Sound := hadd.of_namesOf (fun _ => rfl) fun _ => rfl
  have hfe2 : t2.names.lookup "_clio_xattr_store" = none := rfl
  have hnew : ¬ t2.Has ⟨nodeId, 2⟩ := by
    refine not_not.mpr ?_
    show ((∅ : AList fun _ : TagId => TagInfo).insert ⟨nodeId, 1⟩ _).lookup ⟨nodeId, 2⟩ = none
    rw [lookup_insert_ne (by simp), lookup_empty]
  exact h2.addTag hfe2 hnew (by decide)

/-- The tags of a new filesystem are the two that it keeps for itself. -/
lemma mem_reservedNames_of_create {key : String} {id : TagId}
    (h : (create nodeId).core.tags.names.lookup key = some id) : key ∈ reservedNames := by
  by_contra hmem
  simp [names_create nodeId hmem] at h

lemma has_create {id : TagId} (h : (create nodeId).core.tags.Has id) :
    id = ⟨nodeId, 1⟩ ∨ id = ⟨nodeId, 2⟩ := by
  have his : (create nodeId).core.tags.infos
      = ((∅ : AList fun _ : TagId => TagInfo).insert ⟨nodeId, 1⟩ ⟨"_clio_append_staging",
        0, []⟩).insert ⟨nodeId, 2⟩ ⟨"_clio_xattr_store", 0, []⟩ := rfl
  by_contra hne
  rw [not_or] at hne
  refine h ?_
  rw [his, lookup_insert_ne hne.2, lookup_insert_ne hne.1, lookup_empty]

lemma orderly_create (hnod : nodeId < 2 ^ 32) : Orderly (create nodeId).core.tags where
  sound := sound_create nodeId
  keys key id h := .inl (.inr (mem_reservedNames_of_create h))
  single key key' id _ hkey hkey' := by
    have hns : ∀ name ∈ reservedNames, (create nodeId).core.tags.names.lookup name
        = some ⟨nodeId, if name = "_clio_append_staging" then 1 else 2⟩ := by
      intro name hnm
      rw [reservedNames, mem_cons, mem_singleton] at hnm
      rcases hnm with rfl | rfl <;> rfl
    have hin := mem_reservedNames_of_create hkey
    have hin' := mem_reservedNames_of_create hkey'
    have heq := (hns key hin).symm.trans (hkey.trans (hkey'.symm.trans (hns key' hin')))
    rw [reservedNames, mem_cons, mem_singleton] at hin hin'
    rcases hin with rfl | rfl <;> rcases hin' with rfl | rfl <;> simp at heq ⊢
  ids id h := by
    rcases has_create h with rfl | rfl
    · exact ⟨rfl, Nat.one_pos, show 1 < 3 by decide⟩
    · exact ⟨rfl, Nat.two_pos, show 2 < 3 by decide⟩
  node := hnod
  minor := show 0 < 3 ∧ 3 < 2 ^ 32 by decide
  tree :=
    ⟨fun x k => by simp [entries_create], fun _ ⟨k, hk⟩ => absurd (entries_create nodeId _ k) hk,
      fun _ ⟨k, hk⟩ => absurd (entries_create nodeId _ k) hk⟩
  rooted _ := entries_create nodeId
  shallow q hq := by
    by_cases hnil : q = []
    · simp [hnil]
    · exact absurd (locate_create hnil) hq
  index key := by
    have hmem : key ∈ (create nodeId).core.tags.search ↔ key ∈ reservedNames := by
      rw [AList.mem_keys, keys_search_create, reservedNames]
      simp [or_comm]
    rw [hmem]
    constructor
    · intro hkey
      refine .inl ⟨.inr hkey, ?_⟩
      rw [reservedNames, mem_cons, mem_singleton] at hkey
      rcases hkey with rfl | rfl <;> exact some_ne_none _
    · rintro (⟨-, hkey⟩ | ⟨q, hq, hloc, -⟩)
      · obtain ⟨id, hid⟩ := ne_none_iff_exists'.mp hkey
        exact mem_reservedNames_of_create hid
      · exact absurd (locate_create hq) hloc
  marked p k _ hk := absurd (locate_create (by simp)) hk
  sole p q m hm := by
    rw [locate_create (by simp)] at hm
    simp at hm
  below p k := locate_create (by simp)
  plain := locate_create (by simp)
  lines q hq := by
    by_cases hnil : q = []
    · simp [hnil]
    · exact absurd (locate_create hnil) hq

lemma settled_create (hnod : nodeId < 2 ^ 32) : Settled (create nodeId) where
  tags := orderly_create hnod
  pages key hkey := absurd rfl hkey
  blobs key hkey := absurd rfl hkey
  tracked path i hi := absurd hi (by simp [create])
  opened hd i hi := absurd hi (by simp [create])
  known i hi := absurd hi (Nat.not_lt_zero i)

end Create

/-! ## Orderly operations -/

lemma Plain.parent (h : Plain (p ++ [k])) (hne : p ≠ []) : Plain p :=
  ⟨hne, fun c hc => h.comps c (mem_append_left _ hc), fun hm => h.unmarked (mem_append_left _ hm)⟩

/-- The path leads to a directory; that of the root always does. -/
def Core.dirAt : Bool := path = "/" || State.isDirectory c path

/-- The path leads to a file. -/
def Core.fileAt : Bool :=
  (c.tagQueryExact path).isSome && !State.isDirectory c path

namespace Settled

lemma dirAt_parent_iff (h : Settled s) (hp : Plain (p ++ [k])) :
    s.core.dirAt (parentDir (joinComponents (p ++ [k]))) = true ↔ DirAt s.core.tags p := by
  rw [parentDir_joinComponents hp.comps, Core.dirAt, Bool.or_eq_true, decide_eq_true_eq]
  by_cases hne : p = []
  · subst hne
    exact ⟨fun _ => .inl rfl, fun _ => .inl rfl⟩
  · have hpar := hp.parent hne
    rw [isDirectory_iff h.tags hpar]
    constructor
    · rintro (hrt | hm)
      · exact absurd (.inl hrt) (not_flat_joinComponents hne hpar.comps)
      · exact .inr hm
    · rintro (hnil | hm)
      · exact absurd hnil hne
      · exact .inr hm

lemma fileAt_iff (h : Settled s) (hp : Plain p) :
    s.core.fileAt (joinComponents p) = true ↔ FileAt s.core.tags p := by
  rw [Core.fileAt, Bool.and_eq_true, Bool.not_eq_true', ← Bool.not_eq_true,
    isDirectory_iff h.tags hp, h.query hp, isSome_iff_ne_none, not_not, FileAt]

end Settled

/-- What a rename that is carried out asks for: the parent of the destination is a directory, the
source is not above the destination nor another link of the same file, it has the name under which
the core knows its tag, nothing below it is tracked, and nothing gets too deep. -/
def State.movable (s : State) (src dst : String) : Bool :=
  s.core.dirAt (parentDir dst) ∧
  ¬ (src ++ "/").toList <+: dst.toList ∧
  s.core.tagQueryExact dst ≠ s.core.tagQueryExact src ∧
  ((s.core.tagQueryExact src).bind s.core.tags.infos.lookup).any
    (fun info => s.core.tags.resolveTagName info.tagName = src) ∧
  (∀ key ∈ s.byPath.keys, ¬ (src ++ "/").toList <+: key.toList) ∧
  ∀ key ∈ s.core.tags.search.keys, (src ++ "/").toList <+: key.toList →
    (splitPathComponents dst).length + (splitPathComponents key).length
      ≤ 256 + (splitPathComponents src).length

/-- There are ids for the tags of a new file or directory. -/
def Core.hasRoom : Bool := c.tags.nextMinor + 4 < 2 ^ 32

/-- The operation stays within what the tree of files and directories is made for. -/
def FsOp.orderly (s : State) : FsOp → Bool
  | file path .openCreat => wellFormed path ∧ ¬ State.isDirectory s.core path ∧
      ((s.core.tagQueryExact path).isSome ∨ s.core.dirAt (parentDir path) ∧ s.core.hasRoom)
  | file path (.truncate _) => wellFormed path ∧ s.core.fileAt path
  | file path .getattr => wellFormed path
  | file _ _ => true
  | openExisting path => wellFormed path ∧ ¬ State.isDirectory s.core path
  | .link target name => wellFormed target ∧ wellFormed name ∧
      ((s.core.tagQueryExact name).isSome ∨ (s.core.tagQueryExact target).isNone ∨
        s.core.fileAt target ∧ s.core.dirAt (parentDir name))
  | unlink path => wellFormed path ∧ (s.core.tagQueryExact path).isSome
  | mkdir path => wellFormed path ∧
      ((s.core.tagQueryExact path).isSome ∨ s.core.dirAt (parentDir path) ∧ s.core.hasRoom)
  | rmdir path => wellFormed path
  | rename src dst => wellFormed src ∧ wellFormed dst ∧
      (src = dst ∨ s.core.tagQueryExact src = none ∨
        Core.refusal (s.core.tagQueryChildren src ≠ []) (s.core.dstState dst) ≠ none ∨
        s.movable src dst)

/-! ## One operation -/

namespace Settled

variable {fuel : ℕ} {src dst : String}

lemma refusal_ne_zero {srcIsDir : Bool} {d : Core.DstState} {rc : ℕ}
    (h : Core.refusal srcIsDir d = some rc) : rc ≠ 0 := by
  rintro rfl
  revert h
  cases srcIsDir <;> cases d <;> decide

/-- The ways an orderly rename can go: the paths are the same, it fails and changes nothing, or the
source moves to the destination. -/
lemma rename_cases (h : Settled s) (hr : Plain r) {r2 : List String} (hr2 : Plain r2)
    (hln : ∀ c ∈ r2, OneLine c) (hlen : r2.length ≤ 255)
    (hop : (FsOp.rename (joinComponents r) (joinComponents r2)).orderly s = true)
    (hfuel : 300 ≤ fuel) :
    (r = r2 ∧ s.rename fuel (joinComponents r) (joinComponents r2) = some (0, s)) ∨
    (∃ rc, rc ≠ 0 ∧ s.rename fuel (joinComponents r) (joinComponents r2) = some (rc, s)) ∨
    ∃ y u gone, locate s.core.tags r = some y ∧ locate s.core.tags r2 ≠ some y ∧ ¬ r <+: r2 ∧
      s.core.dstState (joinComponents r2) ≠ .fullDir ∧
      (∀ q, Plain q → q ≠ r → r <+: q → s.byPath.lookup (joinComponents q) = none) ∧
      Moved s.core.tags u r r2 gone ∧
      s.rename fuel (joinComponents r) (joinComponents r2) = some (0,
        ({ s with core := s.core.pruned u gone } : State).moveTracked
          (joinComponents r) (joinComponents r2)) := by
  by_cases hsm : r = r2
  · refine .inl ⟨hsm, ?_⟩
    rw [rename, if_pos (by rw [hsm])]
  have hne : joinComponents r ≠ joinComponents r2 := fun heq => hsm (hr.inj hr2 heq)
  obtain ⟨-, -, hcs⟩ := of_decide_eq_true hop
  rw [h.query hr] at hcs
  cases hy : locate s.core.tags r with
  | none =>
    refine .inr (.inl ⟨enoent, by decide, ?_⟩)
    unfold rename
    simp [if_neg hne, h.sourceTag_eq hr, hy]
  | some y =>
    cases hrc : Core.refusal (s.core.tagQueryChildren (joinComponents r) ≠ [])
        (s.core.dstState (joinComponents r2)) with
    | some rc =>
      refine .inr (.inl ⟨rc, refusal_ne_zero hrc, ?_⟩)
      unfold rename
      simp only [if_neg hne, h.sourceTag_eq hr, hy, getD_some,
        if_neg (h.tags.ne_null (h.has hr hy)), hrc]
    | none =>
      have hmov : s.movable (joinComponents r) (joinComponents r2) = true := by
        rcases hcs with heq | hno | href | hmov
        · exact absurd heq hne
        · simp [hy] at hno
        · exact absurd hrc href
        · exact hmov
      obtain ⟨hdir, hbl, hoth, hnm, htra, hdeep⟩ := of_decide_eq_true hmov
      obtain ⟨p, k, rfl, -, -⟩ := hr.concat
      obtain ⟨p2, k2, rfl, -, -⟩ := hr2.concat
      rw [h.query hr, h.query hr2, hy] at hoth
      rw [h.query hr, hy] at hnm
      obtain ⟨info, hinfo, hres⟩ : ∃ info, s.core.tags.infos.lookup y = some info ∧
          s.core.tags.resolveTagName info.tagName = joinComponents (p ++ [k]) := by
        cases hinfo : s.core.tags.infos.lookup y with
        | none => simp [hinfo] at hnm
        | some info => exact ⟨info, rfl, by simpa [hinfo] using hnm⟩
      have hnot : ¬ p ++ [k] <+: p2 ++ [k2] := by
        rintro ⟨l, hl⟩
        refine hbl ((joinComponents_below_iff hr.ne hr.comps hr2.comps).mpr ⟨l, ?_, hl.symm⟩)
        rintro rfl
        exact hsm (by rwa [append_nil] at hl)
      have hfu : s.core.dstState (joinComponents (p2 ++ [k2])) ≠ .fullDir := by
        intro hdst
        rw [hdst] at hrc
        exact absurd hrc (by simp [Core.refusal])
      have hshl : ∀ l, locate s.core.tags (p ++ [k] ++ l) ≠ none →
          p2.length + 1 + l.length ≤ 256 := by
        intro l hl
        by_cases hnil : l = []
        · subst hnil
          simp only [length_append, length_singleton] at hlen
          simp only [length_nil]
          omega
        · have hcom := h.tags.isComponent hl
          have hkey := (h.tags.index _).mpr (.inr ⟨_, by simp, hl, rfl⟩)
          have hpre := (joinComponents_below_iff hr.ne hr.comps hcom).mpr ⟨l, hnil, rfl⟩
          have hle := hdeep _ (mem_keys.mp hkey) hpre
          rw [splitPathComponents_joinComponents _ hr2.comps,
            splitPathComponents_joinComponents _ hcom,
            splitPathComponents_joinComponents _ hr.comps] at hle
          simp only [length_append, length_singleton] at hle
          omega
      have hunt : ∀ q, Plain q → q ≠ p ++ [k] → p ++ [k] <+: q →
          s.byPath.lookup (joinComponents q) = none := by
        rintro q hq hne ⟨l, rfl⟩
        have hpre := (joinComponents_below_iff hr.ne hr.comps hq.comps).mpr
          ⟨l, fun hnil => hne (by rw [hnil, append_nil]), rfl⟩
        exact lookup_eq_none.mpr fun hmem => htra _ (mem_keys.mp hmem) hpre
      obtain ⟨u, gone, hmv, hrun⟩ := h.rename_moved hr hr2 hy ((h.dirAt_parent_iff hr2).mp hdir) hrc
        hnot (fun heq => hoth heq) hinfo hres hshl hln hfuel
      exact .inr (.inr ⟨y, u, gone, rfl, hoth, hnot, hfu, hunt, hmv, hrun⟩)

end Settled

namespace FsOp

variable {fuel : ℕ} {op : FsOp}

/-- An operation on a file leaves a settled state. -/
lemma settled_file (h : Settled s) {path : String} {op : FileOp}
    (hop : (file path op).orderly s = true) : Settled (op.run path s).2 := by
  cases op with
  | openCreat =>
    obtain ⟨hform, hdir, hwh⟩ := of_decide_eq_true hop
    obtain ⟨p, rfl, hp, hlen, hln⟩ := exists_of_wellFormed hform
    rw [isDirectory_iff h.tags hp, not_not] at hdir
    rw [h.query hp] at hwh
    show Settled (s.openFile (joinComponents p) true).2
    cases hx : locate s.core.tags p with
    | some x => exact h.openFile_found hp ⟨by simp [hx], hdir⟩ hx _
    | none =>
      obtain ⟨q, k, rfl, -, -⟩ := hp.concat
      rw [hx] at hwh
      obtain ⟨hpar, hroom⟩ := hwh.resolve_left (by simp)
      have hroom := of_decide_eq_true hroom
      simp only [length_append, length_singleton] at hlen
      obtain ⟨id, u, hgr, hu, hrun⟩ := h.openFile_new hp ((h.dirAt_parent_iff hp).mp hpar) hx
        (by omega) hln (by omega)
      rw [hrun]
      exact h.openFile_keeps hp hx hgr hu
  | close handle => exact h.close handle
  | read handle offset size => exact h
  | write handle offset data => exact h.write handle offset data
  | truncate newSize =>
    obtain ⟨hform, hfi⟩ := of_decide_eq_true hop
    obtain ⟨p, rfl, hp, -, -⟩ := exists_of_wellFormed hform
    exact h.truncate hp ((h.fileAt_iff hp).mp hfi) newSize
  | getattr =>
    obtain ⟨p, rfl, hp, -, -⟩ := exists_of_wellFormed hop
    show Settled (s.getattr (joinComponents p)).2
    rwa [h.getattr_state hp]

/-- **One orderly operation** returns and leaves a settled state. -/
lemma settled (h : Settled s) (hop : op.orderly s = true) (hfuel : 300 ≤ fuel) :
    ∃ reply s', op.run fuel s = some (reply, s') ∧ Settled s' := by
  cases op with
  | file path op => exact ⟨_, _, rfl, settled_file h hop⟩
  | openExisting path =>
    obtain ⟨hform, hdir⟩ := of_decide_eq_true hop
    obtain ⟨p, rfl, hp, -, -⟩ := exists_of_wellFormed hform
    rw [isDirectory_iff h.tags hp, not_not] at hdir
    refine ⟨_, _, rfl, ?_⟩
    cases hx : locate s.core.tags p with
    | none =>
      unfold openFile
      rwa [h.query hp, hx]
    | some x => exact h.openFile_found hp ⟨by simp [hx], hdir⟩ hx _
  | link target name =>
    obtain ⟨hform, hform', hwh⟩ := of_decide_eq_true hop
    obtain ⟨q, rfl, hq, -, -⟩ := exists_of_wellFormed hform
    obtain ⟨p, rfl, hp, hlen, hln⟩ := exists_of_wellFormed hform'
    rw [h.query hp, h.query hq] at hwh
    refine ⟨_, _, rfl, ?_⟩
    by_cases hx : locate s.core.tags p = none
    · cases hy : locate s.core.tags q with
      | none =>
        rwa [h.link_missing hq hp hx hy]
      | some y =>
        rw [hx, hy] at hwh
        obtain ⟨hfi, hpar⟩ := (hwh.resolve_left (by simp)).resolve_left (by simp)
        obtain ⟨p, k, rfl, -, -⟩ := hp.concat
        simp only [length_append, length_singleton] at hlen
        obtain ⟨u, hlnk, hu, hrun⟩ := h.link_new hq hp ((h.dirAt_parent_iff hp).mp hpar) hx
          ((h.fileAt_iff hq).mp hfi) hy (by omega) hln
        rw [hrun]
        exact h.retag (c := { s.core with tags := u }) hu hlnk.room.ge (fun _ hkey => hkey)
          (fun _ _ hi => hi) fun _ _ hfi _ => hlnk.stays hx hfi fun heq =>
          hp.unmarked (by simp [← heq])
    · unfold State.link
      simpa [hp.strip, h.query hp,
        isSome_iff_ne_none.mpr hx] using h
  | unlink path =>
    obtain ⟨hform, hsome⟩ := of_decide_eq_true hop
    obtain ⟨p, rfl, hp, -, -⟩ := exists_of_wellFormed hform
    rw [h.query hp] at hsome
    obtain ⟨y, hy⟩ := isSome_iff_exists.mp hsome
    by_cases hdir : locate s.core.tags (p ++ [kDirMarker]) = none
    · obtain ⟨p, k, rfl, -, -⟩ := hp.concat
      obtain ⟨u, gone, hrm, hu, -, hrun⟩ := h.unlink_file hp ⟨by simp [hy], hdir⟩ hy hfuel
      refine ⟨_, _, by rw [run, hrun, map_some], ?_⟩
      refine h.remove_keeps hrm hu (fun path i hi => ?_) fun q hq _ => ?_
      · exact (lookup_erase_eq_some.mp hi).2
      · rw [mem_singleton.mp hq, lookup_erase]
    · have hcl := (tagQueryChildren_ne_nil_iff h.tags hp).mpr hdir
      refine ⟨.code eisdir, s, ?_, h⟩
      simp [run, State.unlink, hp.strip, hcl]
  | mkdir path =>
    obtain ⟨hform, hwh⟩ := of_decide_eq_true hop
    obtain ⟨p, rfl, hp, hlen, hln⟩ := exists_of_wellFormed hform
    rw [h.query hp] at hwh
    refine ⟨_, _, rfl, ?_⟩
    by_cases hx : locate s.core.tags p = none
    · rw [hx] at hwh
      obtain ⟨hpar, hroom⟩ := hwh.resolve_left (by simp)
      have hroom := of_decide_eq_true hroom
      obtain ⟨p, k, rfl, -, -⟩ := hp.concat
      simp only [length_append, length_singleton] at hlen
      obtain ⟨id, m, t, u, hgr, hmark, hu, hrun⟩ := h.mkdir_new hp
        ((h.dirAt_parent_iff hp).mp hpar) hx (by omega) hln hroom
      rw [hrun]
      exact h.mkdir_keeps hp hx hgr hmark hu
    · unfold State.mkdir
      simpa [hp.strip, h.query hp,
        isSome_iff_ne_none.mpr hx] using h
  | rmdir path =>
    obtain ⟨p, rfl, hp, -, -⟩ := exists_of_wellFormed hop
    by_cases hfu : ∃ c, c ≠ kDirMarker ∧ locate s.core.tags (p ++ [c]) ≠ none
    · obtain ⟨c, hc, hx⟩ := hfu
      have hcl := (hasRealChild_iff h.tags hp).mpr ⟨c, hc, hx⟩
      refine ⟨.code enotempty, s, ?_, h⟩
      simp [run, State.rmdir, hp.strip, hcl]
    · by_cases hdir : locate s.core.tags (p ++ [kDirMarker]) = none
      · exact ⟨_, _, by rw [run, h.rmdir_missing hp hdir, map_some], h⟩
      · obtain ⟨p, k, rfl, -, -⟩ := hp.concat
        have hemp : ∀ c, locate s.core.tags (p ++ [k] ++ [c]) ≠ none → c = kDirMarker := by
          intro c hc
          by_contra hne
          exact hfu ⟨c, hne, hc⟩
        obtain ⟨u, y, m, hrm, hu, -, -, hrun⟩ := h.rmdir_empty hp hdir hemp hfuel
        refine ⟨_, _, by rw [run, hrun, map_some], ?_⟩
        refine h.remove_keeps hrm hu (fun _ _ hi => hi) fun q hq hfi => ?_
        rcases mem_cons.mp hq with rfl | hq
        · exact absurd hfi.2 hdir
        · have hpln : q ∈ [p ++ [k] ++ [kDirMarker]] := hq
          by_contra hne
          obtain ⟨i, hi⟩ := ne_none_iff_exists'.mp hne
          obtain ⟨-, q', hq', hpln', hfi', -⟩ := h.tracked _ i hi
          rw [mem_singleton.mp hpln] at hq'
          have heq := joinComponents_inj hp.marker_comps hpln'.comps hq'
          exact hpln'.unmarked (by simp [← heq])
  | rename src dst =>
    obtain ⟨hform, hform', -⟩ := of_decide_eq_true hop
    obtain ⟨r, rfl, hr, -, -⟩ := exists_of_wellFormed hform
    obtain ⟨r2, rfl, hr2, hlen, hln⟩ := exists_of_wellFormed hform'
    rcases h.rename_cases hr hr2 hln hlen hop hfuel with
      ⟨-, hrun⟩ | ⟨rc, -, hrun⟩ | ⟨y, u, gone, -, -, -, hfu, hunt, hmv, hrun⟩
    · exact ⟨_, _, by rw [run, hrun, map_some], h⟩
    · exact ⟨_, _, by rw [run, hrun, map_some], h⟩
    · exact ⟨_, _, by rw [run, hrun, map_some],
        h.rename_keeps hr hr2 hmv hfu hunt⟩

end FsOp

end ClioCore.Filesystem
