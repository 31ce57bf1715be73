import ClioCore.Filesystem.Steps

/-!
# Rename against POSIX

What a caller sees of a path is what `Getattr` reports of it and, if it is a file, what a read of
the whole file through a new handle returns (`State.look`).  `RenamesLikePosix` says of a rename in
these terms what POSIX says of it, and it holds of every orderly rename in every filesystem that
orderly operations have built.

What is not orderly and goes wrong: the source is not the name under which the core knows the tag,
and then it is another link of the file that moves; source and destination are links of one file;
the source is above the destination, and then the whole directory is lost; files below the source
are tracked, and their old paths live on in `by_path_`; the parent of the destination does not
exist, and then it comes into being.
-/

namespace ClioCore.Filesystem

open Foundations Foundations.Namespace Cte List State

variable {s s' : State} {t u : TagTable} {p q r : List String} {k : String} {x y : TagId} {i n : ℕ}

/-! ## What a caller sees -/

/-- What a caller sees of a path: its attributes, and the bytes of a file. -/
def State.look (s : State) (path : String) : State.Attr × List UInt8 :=
  let attr := (s.getattr path).1
  if attr.exists_ ∧ attr.isDir = false then
    let o := s.openFile path false
    (attr, (o.2.read o.1.handle 0 o.1.size).getD [])
  else (attr, [])

/-- The size of the file with this path and tag. -/
def State.sizeAt (s : State) (path : String) (x : TagId) : ℕ :=
  match s.byPath.lookup path with
  | some i => (s.files i).size
  | none => s.physical x

/-- What `Read` returns of a file of this size, from its start. -/
def Core.readAll (c : Core) (x : TagId) (size : ℕ) : List UInt8 :=
  if size ≤ 0 then []
  else
    let want := if size < u64 (0 + size) then size - 0 else size
    (pageSpans want 0 0 want).flatMap fun q => c.getBlob x (toString q.page) q.pageOff q.len

namespace Settled

section

variable (h : Settled s)
include h

lemma look_missing (hp : Plain p) (hx : locate s.core.tags p = none) :
    s.look (joinComponents p) = (State.Attr.absent, []) := by
  unfold look
  rw [h.getattr_missing hp hx]
  rfl

lemma look_dir (hp : Plain p) (hx : locate s.core.tags p = some x)
    (hdir : locate s.core.tags (p ++ [kDirMarker]) ≠ none) :
    s.look (joinComponents p) = (⟨true, true, false, 0, inoFromTag x⟩, []) := by
  unfold look
  rw [h.getattr_dir hp hx hdir]
  rfl

lemma look_file (hp : Plain p) (hfi : FileAt s.core.tags p) (hx : locate s.core.tags p = some x) :
    s.look (joinComponents p) = (⟨true, false, false, s.sizeAt (joinComponents p) x, inoFromTag x⟩,
        s.core.readAll x (s.sizeAt (joinComponents p) x)) := by
  unfold look sizeAt
  cases hi : s.byPath.lookup (joinComponents p) with
  | some i =>
    obtain rfl := h.tagId_of_tracked hp hx hi
    rw [h.getattr_tracked hp hi, h.openFile_tracked hp hi]
    simp [State.read, State.lookupHandle, Option.getD_some, Core.readAll]
  | none =>
    rw [h.getattr_untracked hp hfi hx hi, h.openFile_untracked hp hx hi]
    simp [State.read, State.lookupHandle, State.track, Core.readAll]

/-- Two paths in two states look alike if they lead to the same tag, with the same size and pages.
-/
lemma look_congr (h' : Settled s') (hp : Plain p) (hq : Plain q)
    (hloc : locate s'.core.tags q = locate s.core.tags p)
    (hmk : locate s'.core.tags (q ++ [kDirMarker]) = locate s.core.tags (p ++ [kDirMarker]))
    (hsz : ∀ x, FileAt s.core.tags p → locate s.core.tags p = some x →
      s'.sizeAt (joinComponents q) x = s.sizeAt (joinComponents p) x)
    (hbls : ∀ x, locate s.core.tags p = some x → ∀ name,
      s'.core.content x name = s.core.content x name) :
    s'.look (joinComponents q) = s.look (joinComponents p) := by
  cases hx : locate s.core.tags p with
  | none => rw [h.look_missing hp hx, h'.look_missing hq (hloc.trans hx)]
  | some x =>
    have hx' := hloc.trans hx
    by_cases hdir : locate s.core.tags (p ++ [kDirMarker]) = none
    · have hfi : FileAt s.core.tags p := ⟨by simp [hx], hdir⟩
      have hrd : s'.core.readAll x = s.core.readAll x := by
        funext size
        unfold Core.readAll
        simp only [Core.getBlob, hbls x hx]
      rw [h.look_file hp hfi hx, h'.look_file hq ⟨by simp [hx'], hmk.trans hdir⟩ hx', hrd,
        hsz x hfi hx]
    · rw [h.look_dir hp hx hdir, h'.look_dir hq hx' (by rwa [hmk])]

lemma exists_look_iff (hp : Plain p) :
    (s.look (joinComponents p)).1.exists_ = true ↔ locate s.core.tags p ≠ none := by
  cases hx : locate s.core.tags p with
  | none =>
    rw [h.look_missing hp hx]
    simp [State.Attr.absent]
  | some x =>
    by_cases hdir : locate s.core.tags (p ++ [kDirMarker]) = none
    · rw [h.look_file hp ⟨by simp [hx], hdir⟩ hx]
      simp
    · rw [h.look_dir hp hx hdir]
      simp

lemma ino_look (hp : Plain p) (hx : locate s.core.tags p = some x) :
    (s.look (joinComponents p)).1.ino = inoFromTag x := by
  by_cases hdir : locate s.core.tags (p ++ [kDirMarker]) = none
  · rw [h.look_file hp ⟨by simp [hx], hdir⟩ hx]
  · rw [h.look_dir hp hx hdir]

end

end Settled

/-! ## Deleted blobs -/

/-- The size of a tag that is not deleted. -/
lemma tally_dropBlobs (c : Core) {gone : List TagId} (hx : x ∉ gone) :
    tally (c.dropBlobs gone).blobs (fun key bytes => if key.tag = x then bytes.length else 0)
      = tally c.blobs fun key bytes => if key.tag = x then bytes.length else 0 := by
  refine List.foldlRecOn (motive := fun blobs : AList fun _ : BlobKey => List UInt8 =>
    tally blobs (fun key bytes => if key.tag = x then bytes.length else 0)
      = tally c.blobs fun key bytes => if key.tag = x then bytes.length else 0) _ _ rfl ?_
  intro blobs hsm key hkey
  have htag : key.tag ≠ x := fun heq => hx (heq ▸ of_decide_eq_true (mem_filter.mp hkey).2)
  rw [tally_erase_of_eq_zero fun _ => if_neg htag, hsm]

/-! ## The rename -/

/-- What POSIX says of a rename, of paths given by their components. -/
structure RenamesLikePosix (s s' : State) (rc : ℕ) (src dst : List String) : Prop where
  /-- Nothing is left under the old path. -/
  gone : rc = 0 → src ≠ dst → (s.look (joinComponents src)).1.exists_ = true →
    ∀ q, Plain (src ++ q) → s'.look (joinComponents (src ++ q)) = (State.Attr.absent, [])
  /-- The destination and the paths below it lead to what the source led to. -/
  moved : rc = 0 → src ≠ dst → (s.look (joinComponents src)).1.exists_ = true →
    ∀ q, Plain (dst ++ q) → s'.look (joinComponents (dst ++ q)) = s.look (joinComponents (src ++ q))
  /-- Every other path is unchanged. -/
  others : rc = 0 → (s.look (joinComponents src)).1.exists_ = true →
    ∀ q, Plain q → ¬ src <+: q → ¬ dst <+: q →
    s'.look (joinComponents q) = s.look (joinComponents q)
  /-- A directory is not moved below itself. -/
  ancestor : src <+: dst → src ≠ dst → rc ≠ 0 ∧ s' = s
  /-- Links of one file are left alone. -/
  sameFile : (s.look (joinComponents src)).1.exists_ = true →
    (s.look (joinComponents dst)).1.exists_ = true →
    (s.look (joinComponents src)).1.ino = (s.look (joinComponents dst)).1.ino → s' = s

namespace Settled

variable {r2 : List String} {fuel : ℕ}

/-- What a caller sees after the source has moved. -/
lemma renamesLikePosix_of_moved (h : Settled s) (hr : Plain r) (hr2 : Plain r2) {gone : List TagId}
    (hmv : Moved s.core.tags u r r2 gone) (hdst : s.core.dstState (joinComponents r2) ≠ .fullDir)
    (hunt : ∀ q, Plain q → q ≠ r → r <+: q → s.byPath.lookup (joinComponents q) = none)
    (hy : locate s.core.tags r = some y) (hoth : locate s.core.tags r2 ≠ some y)
    (hnot : ¬ r <+: r2) :
    RenamesLikePosix s (({ s with core := s.core.pruned u gone } :
      State).moveTracked (joinComponents r) (joinComponents r2)) 0 r r2 := by
  have hkp := h.rename_keeps hr hr2 hmv hdst hunt
  have hne : joinComponents r ≠ joinComponents r2 := fun heq => hnot (hr.inj hr2 heq ▸ prefix_rfl)
  set s1 : State := { s with core := s.core.pruned u gone }
  have hcr := core_moveTracked s1 (joinComponents r) (joinComponents r2)
  have hlk := lookup_moveTracked s1 hne
  have htags : (s1.moveTracked (joinComponents r) (joinComponents r2)).core.tags = u := by
    rw [hcr]; rfl
  -- A tag with a path that is not at the destination is as it was.
  have hct : ∀ {q z}, ¬ r2 <+: q → locate s.core.tags q = some z → ∀ name,
      (s1.moveTracked (joinComponents r) (joinComponents r2)).core.content z name
        = s.core.content z name := by
    intro q z hq hz name
    rw [hcr, Core.content, Core.lookup_dropBlobs, if_neg fun hmem => hq (hmv.below z hmem q hz),
      Core.content]
  have hphy : ∀ {q z}, ¬ r2 <+: q → q ≠ [] → locate s.core.tags q = some z →
      (s1.moveTracked (joinComponents r) (joinComponents r2)).physical z = s.physical z := by
    intro q z hq hqne hz
    have hmem : z ∉ gone := fun hmem => hq (hmv.below z hmem q hz)
    have hhas := h.tags.has_of_locate hz hqne
    have hhas' : s1.core.tags.Has z := (hmv.has z).mpr ⟨hhas, hmem⟩
    rw [physical, hcr, physical, Core.getTagSize, Core.getTagSize, if_pos hhas, if_pos hhas']
    exact congrArg (fun n => (some n).getD 0) (tally_dropBlobs _ hmem)
  have hfls := fun i => (files_moveTracked s1 (joinComponents r) (joinComponents r2) i).2
  have hbl : ∀ l, ¬ r2 <+: r ++ l := by
    intro l hpre
    rcases prefix_or_prefix_of_prefix hpre (prefix_append r l) with h1 | h1
    · exact hmv.apart h1
    · exact hnot h1
  refine ⟨fun _ _ _ q hq => ?_, fun _ _ _ q hq => ?_, fun _ _ q hq hqr hqr2 => ?_,
    fun hpre => absurd hpre hnot, fun _ hex hino => ?_⟩
  · refine hkp.look_missing hq ?_
    rw [htags, hmv.locate, if_neg (hbl q), if_pos (prefix_append r q)]
  · have hpln : Plain (r ++ q) := by
      refine ⟨by simp [hr.ne], fun c hc => ?_, fun hm => ?_⟩
      · rcases mem_append.mp hc with hc | hc
        · exact hr.comps c hc
        · exact hq.comps c (mem_append_right _ hc)
      · rcases mem_append.mp hm with hm | hm
        · exact hr.unmarked hm
        · exact hq.unmarked (mem_append_right _ hm)
    refine h.look_congr hkp hpln hq ?_ ?_ (fun z _ hz => ?_) fun z hz => hct (hbl q) hz
    · rw [htags, hmv.locate_append]
    · rw [htags, append_assoc, hmv.locate_append, append_assoc]
    · have hnew : joinComponents (r2 ++ q) ≠ joinComponents r := fun heq =>
        hmv.apart ⟨q, hq.inj hr heq⟩
      unfold sizeAt
      by_cases hnil : q = []
      · subst hnil
        rw [append_nil, append_nil, hlk, if_neg hne.symm, if_pos rfl]
        cases s.byPath.lookup (joinComponents r) with
        | some i => exact hfls i
        | none => exact hphy (hbl []) (by simp [hr.ne]) hz
      · have hno : s.byPath.lookup (joinComponents (r2 ++ q)) = none := by
          refine h.untracked hq fun hfi => ?_
          rcases h.below_dst hr2 hdst hfi.1 (prefix_append r2 q) with heq | heq
          · exact hnil (by simpa using heq)
          · exact hq.unmarked (by simp [heq])
        have hnew' : joinComponents (r2 ++ q) ≠ joinComponents r2 := fun heq =>
          hnil (by simpa using hq.inj hr2 heq)
        rw [hlk, if_neg hnew, if_neg hnew', hunt _ hpln (by simp [hnil]) (prefix_append r q)]
        rw [hno]
        exact hphy (hbl q) (by simp [hr.ne]) hz
  · refine h.look_congr hkp hq hq ?_ ?_ (fun z _ hz => ?_) fun z hz => hct hqr2 hz
    · rw [htags, hmv.locate, if_neg hqr2, if_neg hqr]
    · rw [htags, hmv.locate, if_neg fun hpre => hqr2 (hr2.prefix_of_marker hpre),
        if_neg fun hpre => hqr (hr.prefix_of_marker hpre)]
    · have hsrc : joinComponents q ≠ joinComponents r := fun heq => hqr (hq.inj hr heq ▸ prefix_rfl)
      have hdst' : joinComponents q ≠ joinComponents r2 :=
        fun heq => hqr2 (hq.inj hr2 heq ▸ prefix_rfl)
      unfold sizeAt
      rw [hlk, if_neg hsrc, if_neg hdst']
      cases s.byPath.lookup (joinComponents q) with
      | some i => exact hfls i
      | none => exact hphy hqr2 hq.ne hz
  · obtain ⟨z, hz⟩ := Option.ne_none_iff_exists'.mp ((h.exists_look_iff hr2).mp hex)
    rw [h.ino_look hr hy, h.ino_look hr2 hz] at hino
    -- tags that are there have different inode numbers
    have heq : y = z := by
      obtain ⟨hmj, hpos, hlt⟩ := h.tags.ids y (h.has hr hy)
      obtain ⟨hmj', hpos', hlt'⟩ := h.tags.ids z (h.has hr2 hz)
      unfold inoFromTag at hino
      rw [if_neg (by omega), if_neg (by omega)] at hino
      exact congrArg₂ TagId.mk (by omega) (by omega)
    exact absurd (heq ▸ hz) hoth

/-- **An orderly rename is a POSIX rename.** -/
lemma renamesLikePosix (h : Settled s) {src dst : String}
    (hop : (FsOp.rename src dst).orderly s = true) (hfuel : 300 ≤ fuel) :
    ∃ rc s', s.rename fuel src dst = some (rc, s') ∧
      RenamesLikePosix s s' rc (splitPathComponents src) (splitPathComponents dst) := by
  obtain ⟨hform, hform', -⟩ := of_decide_eq_true hop
  obtain ⟨r, rfl, hr, -, -⟩ := exists_of_wellFormed hform
  obtain ⟨r2, rfl, hr2, hlen, hln⟩ := exists_of_wellFormed hform'
  rw [splitPathComponents_joinComponents _ hr.comps, splitPathComponents_joinComponents _ hr2.comps]
  rcases h.rename_cases hr hr2 hln hlen hop hfuel with
    ⟨rfl, hrun⟩ | ⟨rc, hrc, hrun⟩ | ⟨y, u, gone, hy, hoth, hnot, hfu, hunt, hmv, hrun⟩
  · exact ⟨0, s, hrun, fun _ hne => absurd rfl hne, fun _ hne => absurd rfl hne,
      fun _ _ _ _ _ _ => rfl, fun _ hne => absurd rfl hne, fun _ _ _ => rfl⟩
  · exact ⟨rc, s, hrun, fun h => absurd h hrc, fun h => absurd h hrc, fun h => absurd h hrc,
      fun _ _ => ⟨hrc, rfl⟩, fun _ _ _ => rfl⟩
  · exact ⟨0, _, hrun, h.renamesLikePosix_of_moved hr hr2 hmv hfu hunt hy hoth hnot⟩

end Settled

/-- **`Rename` refines POSIX rename** in every filesystem that orderly operations have built from
its creation on: they all return, and so does every orderly rename after them, with the effect that
POSIX asks for. -/
theorem rename_like_posix_of_orderly (nodeId : ℕ) (hnode : nodeId < 2 ^ 32) (fuel : ℕ)
    (hfuel : 300 ≤ fuel) (ops : List FsOp)
    (hok : Meets (FsOp.next fuel) (fun s op => op.orderly s = true) (State.create nodeId) ops) :
    ∃ s, runAll (FsOp.next fuel) (State.create nodeId) ops = some s ∧
      ∀ src dst, (FsOp.rename src dst).orderly s = true →
        ∃ rc s', s.rename fuel src dst = some (rc, s') ∧
          RenamesLikePosix s s' rc (splitPathComponents src) (splitPathComponents dst) := by
  have hstp : ∀ s op, Settled s → FsOp.orderly s op = true →
      ∃ s', FsOp.next fuel s op = some s' ∧ Settled s' := by
    intro s op h hop
    obtain ⟨reply, s', hrun, hs'⟩ := FsOp.settled h hop hfuel
    exact ⟨s', by rw [FsOp.next, hrun, Option.map_some], hs'⟩
  obtain ⟨s, hrun, hs⟩ := runAll_returns Settled hstp (settled_create hnode) hok
  exact ⟨s, hrun, fun src dst hop => hs.renamesLikePosix hop hfuel⟩

/-- Two directories, a file with two links, and a rename of a directory. -/
def fileMoves : List FsOp :=
  [.mkdir "/d", .mkdir "/d/e", .file "/f" .openCreat, .file "" (.write 1 0 [7, 8]),
    .link "/f" "/d/g", .rename "/d/e" "/x"]

theorem rename_like_posix_fileMoves :
    Meets (FsOp.next 300) (fun s op => op.orderly s = true) (State.create 0) fileMoves ∧
    (runAll (FsOp.next 300) (State.create 0) fileMoves).any
      (fun s => (FsOp.rename "/f" "/x/y").orderly s && (FsOp.rename "/d" "/x").orderly s) = true ∧
    ∃ s, runAll (FsOp.next 300) (State.create 0) fileMoves = some s ∧
      ∀ src dst, (FsOp.rename src dst).orderly s = true →
        ∃ rc s', s.rename 300 src dst = some (rc, s') ∧
          RenamesLikePosix s s' rc (splitPathComponents src) (splitPathComponents dst) := by
  have hok : Meets (FsOp.next 300) (fun s op => op.orderly s = true) (create 0) fileMoves := by
    decide +kernel
  exact ⟨hok, by decide +kernel,
    rename_like_posix_of_orderly 0 (by decide) 300 le_rfl fileMoves hok⟩

/-- A file gets a second link. -/
def secondLink : List FsOp := [.file "/a" .openCreat, .link "/a" "/b"]

/-- A directory. -/
def oneDirectory : List FsOp := [.mkdir "/d"]

/-- **Renames that go wrong.**  The rename of a second link returns 0 and the link is still there;
and a directory may be renamed to a path below itself, and is lost: the one that has its name
afterwards is another. -/
theorem rename_secondLink_ancestor :
    ((runAll (FsOp.next 300) (State.create 0) secondLink).bind fun s =>
      (s.rename 300 "/b" "/c").map fun r =>
      (r.1, (s.look "/b").1.exists_, (r.2.look "/b").1.exists_))
      = some (0, true, true) ∧
    ((runAll (FsOp.next 300) (State.create 0) oneDirectory).bind fun s =>
      (s.rename 300 "/d" "/d/e").map fun r => (r.1, (s.look "/d").1.ino, (r.2.look "/d").1.ino))
      = some (0, 4, 6) := by
  decide +kernel

end ClioCore.Filesystem
