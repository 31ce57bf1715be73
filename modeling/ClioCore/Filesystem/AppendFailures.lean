import ClioCore.Filesystem.Appends

/-!
# Merges in which calls fail

`AppendExecution` gives up at a step that gets no buffer or whose write fails.  It does not look at
the answer of a read: if the read has failed, the buffer goes to the page with what it held before.
In each case it goes on to delete the staged blobs of the whole slice.  Nothing is lost exactly if
that does no harm: what goes to a page in place of the staged bytes is equal to them, and where the
loop has stopped the file already has them.
-/

namespace ClioCore.Filesystem

open Foundations Cte List Nat

namespace State

variable (fate : AppendPlanStep → Outcome) (c : Core) (tagId staging : TagId)

/-- The failures in a slice do no harm. -/
def Harmless : List AppendPlanStep → Prop
  | [] => True
  | step :: rest =>
    match fate step with
    | .done => Harmless rest
    | .unread held => window 0 held 0 step.size = stagedBytes staging c step ∧ Harmless rest
    | .torn left => window 0 left 0 step.size = stagedBytes staging c step ∧
        ∀ later ∈ rest, pageBytes tagId c later = stagedBytes staging c later
    | .stopped => ∀ later ∈ step :: rest, pageBytes tagId c later = stagedBytes staging c later

/-- Every appended byte is in the pages `c'`, where `AppendPlan` has put it, or still staged, and no
other byte has been written.  `ps` are the entries in the order of their stamps, with the bytes
staged for them. -/
structure NothingLost (c' : Core) (ps : List (AppendEntry × List UInt8)) : Prop where
  kept : ∀ pre p post, ps = pre ++ p :: post → ∀ k < p.2.length,
    c'.byteAt tagId ((c.getTagSize tagId).getD 0 + ((pre.flatMap Prod.snd).length + k)) =
      p.2.getD k 0 ∨ (c'.content staging p.1.dataBlobId)[k]? = p.2[k]?
  only : ∀ i, c'.byteAt tagId i = c.byteAt tagId i ∨ ∃ j < (ps.flatMap Prod.snd).length,
    i = (c.getTagSize tagId).getD 0 + j ∧ c'.byteAt tagId i = (ps.flatMap Prod.snd).getD j 0

variable {fate c tagId staging} {ps : List (AppendEntry × List UInt8)} {id : String}

/-- The staged blobs of a slice are gone, however its steps end. -/
lemma content_appendExecution (hne : staging ≠ tagId) {steps : List AppendPlanStep} {off : ℕ}
    (ht : Tiles off steps)
    (h : c.content staging id = [] ∨ id ∈ steps.map AppendPlanStep.dataBlobId) :
    (appendExecution fate tagId staging c steps).2.content staging id = [] := by
  have hdel (ids : List String) (c : Core) (h : c.content staging id = [] ∨ id ∈ ids) :
      (ids.foldl (fun c id => c.delBlob staging id) c).content staging id = [] := by
    induction ids generalizing c with
    | nil => exact h.resolve_right not_mem_nil
    | cons gone ids ih =>
      refine ih _ ?_
      rw [Core.content_delBlob]
      grind
  have hloop := (loopWhile_execStep c fate hne ht).1.content staging id hne
  exact hdel _ _ (h.imp hloop.trans mem_eraseDups.mpr)

lemma planEntry_ne_nil {e : AppendEntry} (h : 0 < e.dataBlobSize) (off : ℕ) :
    planEntry off e ≠ [] := by
  unfold planEntry
  obtain ⟨n, hn⟩ := exists_eq_succ_of_ne_zero h.ne'
  rw [hn, pageSpans]
  exact cons_ne_nil _ _

/-- Pieces of equal lengths in a row. -/
lemma flatMap_eq_iff {ι : Type} {f g : ι → List UInt8} {l : List ι}
    (hlen : ∀ a ∈ l, (f a).length = (g a).length) : l.flatMap f = l.flatMap g ↔
    ∀ a ∈ l, f a = g a := by
  induction l with
  | nil => simp
  | cons a l ih =>
    rw [flatMap_cons, flatMap_cons, append_eq_append_iff_of_size_eq_left (hlen a mem_cons_self),
      ih fun b hb => hlen b (mem_cons_of_mem _ hb), forall_mem_cons]

/-- A slice leaves the staged bytes in their places exactly if its failures do no harm. -/
lemma written_eq_iff {slice : List AppendPlanStep} :
    written fate tagId staging c slice = slice.flatMap (stagedBytes staging c) ↔
      Harmless fate c tagId staging slice := by
  induction slice with
  | nil => exact ⟨fun _ => trivial, fun _ => rfl⟩
  | cons step rest ih =>
    have hrest : rest.flatMap (pageBytes tagId c) = rest.flatMap (stagedBytes staging c) ↔
        ∀ later ∈ rest, pageBytes tagId c later = stagedBytes staging c later :=
      flatMap_eq_iff fun later _ => length_pageBytes.trans length_stagedBytes.symm
    rw [written, flatMap_cons, append_eq_append_iff_of_size_eq_left
      (length_stepBytes.trans length_stagedBytes.symm), stepBytes, stepWrite, Harmless]
    cases fate step with
    | done => simpa using ih
    | unread held => simpa using and_congr_right' ih
    | torn left => simpa using and_congr_right' hrest
    | stopped =>
      rw [forall_mem_cons]
      exact and_congr_right' hrest

/-- A byte of a batch belongs to one of the entries. -/
lemma exists_split {j : ℕ} (hj : j < (ps.flatMap Prod.snd).length) : ∃ pre p post k,
    ps = pre ++ p :: post ∧ k < p.2.length ∧ j = (pre.flatMap Prod.snd).length + k := by
  induction ps generalizing j with
  | nil => simp at hj
  | cons p ps ih =>
    rw [flatMap_cons, length_append] at hj
    rcases lt_or_ge j p.2.length with hlt | hge
    · exact ⟨[], p, ps, j, rfl, hlt, by simp⟩
    · obtain ⟨pre, q, post, k, rfl, hk, hj⟩ := ih (j := j - p.2.length) (by omega)
      refine ⟨p :: pre, q, post, k, rfl, hk, ?_⟩
      rw [flatMap_cons, length_append]
      omega

section

variable {entries : List AppendEntry} (hne : staging ≠ tagId)
  (hsort : entries.insertionSort AppendEntry.before = ps.map Prod.fst)
  (hsgd : ∀ p ∈ ps, Staged staging c p) (hnd : (ps.map fun p => p.1.dataBlobId).Nodup)
  (hoff : (c.getTagSize tagId).getD 0 + (ps.flatMap Prod.snd).length < 2 ^ 64)
include hne hsort hsgd hnd hoff

/-- Nothing stays staged. -/
lemma content_appendPlan {p : AppendEntry × List UInt8} (hp : p ∈ ps) :
    (appendPlan fate tagId staging c entries).content staging p.1.dataBlobId = [] := by
  have hmem (es : List AppendEntry) (off : ℕ) (he : p.1 ∈ es) :
      p.1.dataBlobId ∈ (planEntries off es).map AppendPlanStep.dataBlobId := by
    induction es generalizing off with
    | nil => exact absurd he not_mem_nil
    | cons e es ih =>
      rw [planEntries, map_append, mem_append]
      rcases mem_cons.mp he with rfl | he
      · have hpos : 0 < p.1.dataBlobSize :=
          (hsgd p hp).size ▸ length_pos_iff.mpr (hsgd p hp).nonempty
        obtain ⟨step, hstp⟩ := exists_mem_of_ne_nil _ (planEntry_ne_nil hpos off)
        exact .inl (mem_map.mpr ⟨step, hstp, dataBlobId_of_mem_planEntry hstp⟩)
      · exact .inr (ih _ he)
  have hfold (ss : List (List AppendPlanStep)) (c : Core) (off : ℕ) (ht : Tiles off ss.flatten)
      (h : c.content staging p.1.dataBlobId = [] ∨
        p.1.dataBlobId ∈ ss.flatten.map AppendPlanStep.dataBlobId) :
      (ss.foldl (fun c slice => (appendExecution fate tagId staging c slice).2) c).content staging
        p.1.dataBlobId = [] := by
    induction ss generalizing c off with
    | nil => exact h.resolve_right (by simp)
    | cons slice ss ih =>
      rw [flatten_cons, map_append, mem_append, ← or_assoc] at h
      rw [flatten_cons, tiles_append] at ht
      exact ih _ _ ht.2 (h.imp_left (content_appendExecution hne ht.1))
  rw [← Function.comp_def AppendEntry.dataBlobId Prod.fst, ← map_map] at hnd
  have hflat := (slices_spec (grouped_planEntries hnd ((c.getTagSize tagId).getD 0)) le_rfl).1
  rw [appendPlan, planSlices, hsort]
  refine hfold _ _ _ (hflat.symm ▸ (tiles_planEntries hsgd hoff).1) (.inr ?_)
  rw [hflat]
  exact hmem _ _ (mem_map_of_mem hp)

/-- **Appends amid failures.**  Whatever calls fail, nothing is lost exactly if the failures in each
slice do no harm to the file and the staged blobs as they were before the merge.  The staged blobs
of a slice are deleted in every case, so that only what its loop has left in the pages counts. -/
theorem nothingLost_iff_harmless (fate : AppendPlanStep → Outcome) :
    NothingLost c tagId staging (appendPlan fate tagId staging c entries) ps ↔
      ∀ slice ∈ planSlices tagId c entries, Harmless fate c tagId staging slice := by
  obtain ⟨hmerged, hstaged⟩ := byteAt_appendPlan fate hne hsort hsgd hnd hoff
  have hlen slice : (written fate tagId staging c slice).length =
      (slice.flatMap (stagedBytes staging c)).length := by
    rw [length_written, length_flatMap]
    simp only [length_stagedBytes]
  simp only [← written_eq_iff]
  rw [← flatMap_eq_iff fun slice _ => hlen slice, hstaged]
  have hlen' := congrArg length hstaged
  rw [length_flatMap] at hlen'
  simp only [← hlen] at hlen'
  rw [← length_flatMap] at hlen'
  generalize (planSlices tagId c entries).flatMap (written fate tagId staging c) =
    bytes at hmerged hlen'
  -- A byte of the batch, found in the entry that it belongs to.
  have hget (pre post : List (AppendEntry × List UInt8)) (p : AppendEntry × List UInt8) {k : ℕ}
      (hk : k < p.2.length) : ((pre ++ p :: post).flatMap Prod.snd).getD
        ((pre.flatMap Prod.snd).length + k) 0 = p.2.getD k 0 := by
    rw [flatMap_append, flatMap_cons, getD_append_right _ _ _ _ (by omega), Nat.add_sub_cancel_left,
      getD_append _ _ _ _ hk]
  constructor
  · intro h
    refine ext_getD 0 hlen' fun j hj => ?_
    obtain ⟨pre, p, post, k, rfl, hk, rfl⟩ := exists_split (hlen' ▸ hj)
    rw [hget pre post p hk]
    have hkept := (h.kept pre p post rfl k hk).resolve_right fun hstg => by
      rw [content_appendPlan hne hsort hsgd hnd hoff (by simp), getElem?_eq_getElem hk] at hstg
      simp at hstg
    rwa [hmerged, overlay, if_pos (by omega), Nat.add_sub_cancel_left] at hkept
  · rintro rfl
    refine ⟨fun pre p post heq k hk => .inl ?_, fun i => ?_⟩
    · subst heq
      rw [hmerged, overlay, Nat.add_sub_cancel_left, hget pre post p hk, if_pos]
      rw [flatMap_append, flatMap_cons, length_append, length_append]
      omega
    · rw [hmerged, overlay]
      split_ifs with hi
      · exact .inr ⟨i - (c.getTagSize tagId).getD 0, by omega, by omega, rfl⟩
      · exact .inl rfl

end

end State

open State

/-- A file of three bytes, and appends of 7 and of 0 that wait for the merge. -/
def stagedPair : State := appendAll solidFile [⟨1, [7], 0⟩, ⟨1, [0], 1⟩]

def stagedEntries : List (AppendEntry × List UInt8) :=
  [(⟨makeDataBlobId 0 1, 1, 0, 1⟩, [7]), (⟨makeDataBlobId 0 2, 1, 1, 2⟩, [0])]

/-- The file after a merge with these outcomes. -/
def mergedPair (fate : AppendPlanStep → Outcome) : Core :=
  appendPlan fate (stagedPair.files 0).tagId stagedPair.stagingTag stagedPair.core
    (stagedPair.appendPending.map PendingAppend.entry)

/-- The read of the 7 fails, but the buffer held one.  The write of the 0 fails, but the file has
nothing there and reads as 0. -/
theorem nothingLost_mergedPair : NothingLost stagedPair.core (stagedPair.files 0).tagId
    stagedPair.stagingTag
    (mergedPair fun step => if step.offInPage = 3 then .unread [7, 9] else .stopped)
    stagedEntries := by
  refine (nothingLost_iff_harmless (by decide +kernel) (by decide +kernel) ?_ (by decide +kernel)
    (by decide +kernel) _).mpr ?_
  · rintro p hp
    rcases mem_pair.mp hp with rfl | rfl <;> exact ⟨rfl, by simp, by decide +kernel⟩
  · have hslc : planSlices (stagedPair.files 0).tagId stagedPair.core
        (stagedPair.appendPending.map PendingAppend.entry) =
          [[⟨0, makeDataBlobId 0 1, 3, 0, 1, 1⟩, ⟨0, makeDataBlobId 0 2, 4, 0, 1, 1⟩]] := by
      decide +kernel
    rw [hslc, forall_mem_singleton]
    exact ⟨by decide +kernel, forall_mem_singleton.mpr (by decide +kernel)⟩

/-- **The bytes of a failed step are gone.**  No buffer for the first step, and the 7 is neither in
the file nor staged. -/
theorem not_nothingLost_mergedPair : ¬ NothingLost stagedPair.core (stagedPair.files 0).tagId
    stagedPair.stagingTag (mergedPair fun _ => .stopped) stagedEntries := by
  intro h
  rcases h.kept [] _ _ rfl 0 one_pos with hpg | hstg
  · exact absurd hpg (by decide +kernel)
  · exact absurd hstg (by decide +kernel)

end ClioCore.Filesystem
