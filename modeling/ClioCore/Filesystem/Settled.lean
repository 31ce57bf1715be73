import ClioCore.Filesystem.Tree

/-!
# What every operation keeps

`Settled` is the invariant of the filesystem: its tag table is an orderly tree, every blob is a page
of a tag that has been there, and every entry of `by_path_` is for the file that its path leads to.
For each operation there is a lemma that says what it returns and what becomes of the tree, the
tables of the runtime and the blobs, and one that says that the invariant is kept.
-/

namespace ClioCore.Filesystem

open Foundations Foundations.Namespace Cte AList Function Option State

/-- The invariant of the filesystem. -/
structure Settled (s : State) : Prop where
  tags : Orderly s.core.tags
  pages : s.core.AllPages
  blobs : ∀ key, s.core.blobs.lookup key ≠ none → key.tag.minor < s.core.tags.nextMinor
  /-- `by_path_` knows the file that the path leads to. -/
  tracked : ∀ path i, s.byPath.lookup path = some i → i < s.nextFile ∧
    ∃ p, path = joinComponents p ∧ Plain p ∧ FileAt s.core.tags p ∧
      locate s.core.tags p = some (s.files i).tagId
  opened : ∀ h i, s.handles.lookup h = some i → i < s.nextFile
  known : ∀ i, i < s.nextFile → (s.files i).tagId.minor < s.core.tags.nextMinor

variable {s : State} {p q : List String} {k : String} {x y : TagId} {i n : ℕ}

namespace Settled

/-- The entry of `by_path_` for the path of a tag. -/
lemma tagId_of_tracked (h : Settled s) (hp : Plain p) (hx : locate s.core.tags p = some x)
    (hi : s.byPath.lookup (joinComponents p) = some i) : (s.files i).tagId = x := by
  obtain ⟨-, p', hp', hpln, -, hloc⟩ := h.tracked _ i hi
  rw [← hp.inj hpln hp', hx] at hloc
  exact (some.inj hloc).symm

lemma fileAt_of_tracked (h : Settled s) (hp : Plain p)
    (hi : s.byPath.lookup (joinComponents p) = some i) :
    FileAt s.core.tags p ∧ locate s.core.tags p = some (s.files i).tagId := by
  obtain ⟨-, p', hp', hpln, hfi, hloc⟩ := h.tracked _ i hi
  rw [hp.inj hpln hp']
  exact ⟨hfi, hloc⟩

/-- A path that leads nowhere, or to a directory, is not tracked. -/
lemma untracked (h : Settled s) (hp : Plain p) (hfi : ¬ FileAt s.core.tags p) :
    s.byPath.lookup (joinComponents p) = none := by
  by_contra hne
  obtain ⟨i, hi⟩ := ne_none_iff_exists'.mp hne
  exact hfi (h.fileAt_of_tracked hp hi).1

end Settled

/-! ## Blobs -/

namespace Core

/-- The core `c'` has the tags of `c`, and its blobs are those of `c` or pages of one tag. -/
structure Within (tagId : TagId) (c c' : Core) : Prop where
  tags : c'.tags = c.tags
  blobs : ∀ key, c'.blobs.lookup key ≠ none →
    c.blobs.lookup key ≠ none ∨ key.tag = tagId ∧ ∃ n : ℕ, key.name = toString n

variable {c c' c'' : Core} {tagId : TagId}

lemma Within.refl (tagId : TagId) (c : Core) : Within tagId c c := ⟨rfl, fun _ h => .inl h⟩

lemma Within.trans (h : Within tagId c c') (h' : Within tagId c' c'') : Within tagId c c'' where
  tags := h'.tags.trans h.tags
  blobs key hkey := by
    rcases h'.blobs key hkey with hold | hnew
    · exact h.blobs key hold
    · exact .inr hnew

section

variable (c tagId)

lemma within_insert (n : ℕ) (bytes : List UInt8) :
    Within tagId c { c with blobs := c.blobs.insert ⟨tagId, toString n⟩ bytes } := by
  refine ⟨rfl, fun key hkey => ?_⟩
  obtain rfl | hne := eq_or_ne key ⟨tagId, toString n⟩
  · exact .inr ⟨rfl, n, rfl⟩
  · rw [lookup_insert_ne hne] at hkey
    exact .inl hkey

lemma within_putBlob (n off : ℕ) (data : List UInt8) :
    Within tagId c (c.putBlob tagId (toString n) off data).2 := by
  unfold putBlob
  split_ifs
  · exact .refl tagId c
  · exact .refl tagId c
  · exact within_insert c tagId n _

lemma within_truncateBlob (n size : ℕ) :
    Within tagId c (c.truncateBlob tagId (toString n) size) := by
  unfold truncateBlob
  split
  · exact .refl tagId c
  · exact within_insert c tagId n _

lemma within_delBlob (name : String) : Within tagId c (c.delBlob tagId name) := by
  refine ⟨rfl, fun key hkey => ?_⟩
  unfold delBlob at hkey
  obtain rfl | hne := eq_or_ne key ⟨tagId, name⟩
  · exact absurd (lookup_erase _ c.blobs) hkey
  · rw [lookup_erase_ne hne] at hkey
    exact .inl hkey

end

lemma within_writePages (tagId : TagId) (data : List UInt8) (qs : List Foundations.Piece)
    (c : Core × ℕ) : Within tagId c.1 (loopWhile (writePage tagId data) qs c).1.1 := by
  induction qs generalizing c with
  | nil => exact .refl tagId c.1
  | cons q qs ih =>
    have hrnd : Within tagId c.1 (writePage tagId data c q).1.1 := by
      unfold writePage
      dsimp only
      split_ifs
      · exact within_putBlob c.1 tagId q.page q.pageOff _
      · exact within_putBlob c.1 tagId q.page q.pageOff _
    rw [loopWhile]
    cases hstp : writePage tagId data c q with
    | mk c' go =>
      rw [hstp] at hrnd
      cases go with
      | true => exact hrnd.trans (ih c')
      | false => exact hrnd

lemma within_trimPages (c : Core) (tagId : TagId) (oldSize newSize : ℕ) :
    Within tagId c (trimPages c tagId oldSize newSize) := by
  unfold trimPages
  split_ifs
  · exact .refl tagId c
  · exact List.foldlRecOn _ _ (within_truncateBlob c tagId _ _)
      fun c' h n _ => h.trans (within_delBlob c' tagId (toString n))
  · exact within_truncateBlob c tagId _ _

/-- What is left of the blobs. -/
lemma lookup_dropBlobs (c : Core) (ids : List TagId) (key : BlobKey) :
    (c.dropBlobs ids).blobs.lookup key = if key.tag ∈ ids then none else c.blobs.lookup key := by
  have hfold : ∀ (keys : List BlobKey) (m : AList fun _ : BlobKey => List UInt8),
      (keys.foldl (fun m key => m.erase key) m).lookup key
        = if key ∈ keys then none else m.lookup key := by
    intro keys
    induction keys with
    | nil => simp
    | cons gone keys ih =>
      intro m
      rw [List.foldl_cons, ih]
      obtain rfl | hne := eq_or_ne key gone
      · simp
      · simp [hne]
  rw [show (c.dropBlobs ids).blobs.lookup key = _ from hfold _ _]
  by_cases hmem : key.tag ∈ ids
  · split_ifs with hkey
    · rfl
    · -- a blob that is not among the deleted ones was not there
      by_contra hne
      exact hkey (List.mem_filter.mpr ⟨lookup_isSome.mp (ne_none_iff_isSome.mp hne),
        decide_eq_true hmem⟩)
  · rw [if_neg hmem, if_neg]
    exact fun hkey => hmem (of_decide_eq_true (List.mem_filter.mp hkey).2)

end Core

/-! ## Keeping the invariant -/

namespace Settled

section

variable (h : Settled s)
include h

/-- Blobs of one tag change. -/
lemma within {c : Core} {tagId : TagId} (hc : Core.Within tagId s.core c)
    (htag : tagId.minor < s.core.tags.nextMinor) : Settled { s with core := c } where
  tags := hc.tags ▸ h.tags
  pages key hkey := (hc.blobs key hkey).elim (h.pages key) And.right
  blobs key hkey := by
    rw [hc.tags]
    rcases hc.blobs key hkey with hold | ⟨htag', -⟩
    · exact h.blobs key hold
    · rwa [htag']
  tracked path i hi := by
    obtain ⟨hlt, p, hp, hpln, hfi, hloc⟩ := h.tracked path i hi
    exact ⟨hlt, p, hp, hpln, by rw [hc.tags]; exact hfi, by rw [hc.tags]; exact hloc⟩
  opened := h.opened
  known i hi := by
    rw [hc.tags]
    exact h.known i hi

/-- A `FileInfo` changes, but not its tag. -/
lemma modifyFile (i : ℕ) {f : FileInfo → FileInfo} (hf : ∀ info, (f info).tagId = info.tagId)
    : Settled (s.modifyFile i f) := by
  have htag : ∀ j, ((s.modifyFile i f).files j).tagId = (s.files j).tagId := by
    intro j
    show (update s.files i (f (s.files i)) j).tagId = _
    obtain rfl | hne := eq_or_ne j i
    · rw [update_self, hf]
    · rw [update_of_ne hne]
  refine ⟨h.tags, h.pages, h.blobs, fun path j hj => ?_, h.opened, fun j hj => ?_⟩
  · obtain ⟨hlt, p, hp, hpln, hfi, hloc⟩ := h.tracked path j hj
    exact ⟨hlt, p, hp, hpln, hfi, by rw [htag]; exact hloc⟩
  · rw [htag]
    exact h.known j hj

/-- The handles change. -/
lemma setHandles {handles : AList fun _ : ℕ => ℕ} {next : ℕ}
    (hope : ∀ hd i, handles.lookup hd = some i → i < s.nextFile) :
    Settled { s with handles := handles, nextHandle := next } :=
  ⟨h.tags, h.pages, h.blobs, h.tracked, hope, h.known⟩

lemma insertHandle (hi : i < s.nextFile) (next : ℕ) :
    Settled { s with handles := s.handles.insert n i, nextHandle := next } := by
  refine h.setHandles fun hd j hj => ?_
  obtain ⟨-, rfl⟩ | ⟨-, hj⟩ := lookup_insert_eq_some.mp hj
  · exact hi
  · exact h.opened hd j hj

/-- A file that was not tracked is tracked. -/
lemma track (hp : Plain p) (hfi : FileAt s.core.tags p) (hx : locate s.core.tags p = some x)
    (size : ℕ) :
    Settled (s.track ⟨x, joinComponents p, size⟩).2 := by
  have hfls : ∀ j, j < s.nextFile → (s.track ⟨x, joinComponents p, size⟩).2.files j = s.files j :=
    fun j hj => update_of_ne hj.ne _ _
  have hsf : (s.track ⟨x, joinComponents p, size⟩).2.files s.nextFile =
      ⟨x, joinComponents p, size⟩ :=
    update_self _ _ _
  have hnx : (s.track ⟨x, joinComponents p, size⟩).2.nextFile = s.nextFile + 1 := rfl
  refine ⟨h.tags, h.pages, h.blobs, fun path j hj => ?_, fun hd j hj => ?_, fun j hj => ?_⟩
  · obtain rfl | hne := eq_or_ne path (joinComponents p)
    · obtain rfl : s.nextFile = j := some.inj ((lookup_insert s.byPath).symm.trans hj)
      rw [hsf]
      exact ⟨Nat.lt_succ_self _, p, rfl, hp, hfi, hx⟩
    · have hold : s.byPath.lookup path = some j := by
        rw [← hj]
        exact (lookup_insert_ne hne).symm
      obtain ⟨hlt, p', hp', hpln, hfi', hloc⟩ := h.tracked path j hold
      rw [hfls j hlt]
      exact ⟨Nat.lt_succ_of_lt hlt, p', hp', hpln, hfi', hloc⟩
  · exact Nat.lt_succ_of_lt (h.opened hd j hj)
  · obtain rfl | hne := eq_or_ne j s.nextFile
    · rw [hsf]
      exact (h.tags.ids x (h.tags.has_of_locate hx hp.ne)).2.2
    · rw [hfls j (by omega)]
      exact h.known j (by omega)

/-- The tag table changes, and with it the blobs of tags that are gone. -/
lemma setTags {c : Core} (htags : Orderly c.tags) (hnx : s.core.tags.nextMinor ≤ c.tags.nextMinor)
    (hbls : ∀ key, c.blobs.lookup key ≠ none → s.core.blobs.lookup key ≠ none)
    {byPath : AList fun _ : String => ℕ}
    (htra : ∀ path i, byPath.lookup path = some i → i < s.nextFile ∧ ∃ p, path = joinComponents p ∧
      Plain p ∧ FileAt c.tags p ∧ locate c.tags p = some (s.files i).tagId) :
    Settled { s with core := c, byPath := byPath } :=
  ⟨htags, fun key hkey => h.pages key (hbls key hkey),
    fun key hkey => (h.blobs key (hbls key hkey)).trans_le hnx, htra, h.opened,
    fun i hi => (h.known i hi).trans_le hnx⟩

end

end Settled

end ClioCore.Filesystem
