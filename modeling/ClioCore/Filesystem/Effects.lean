import ClioCore.Filesystem.Settled

/-!
# What the operations do to a settled filesystem

One lemma for each operation and each way it can go, in terms of the tree: what is returned, and
what becomes of the tag table, the blobs and the tables of the runtime.
-/

namespace ClioCore.Filesystem

open Foundations Foundations.Namespace Cte Option Orderly

variable {s : State} {p q : List String} {k : String} {x y : TagId} {i n : ℕ}

/-- The size of a tag, as the core reports it. -/
def State.physical (s : State) (id : TagId) : ℕ := (s.core.getTagSize id).getD 0

variable {t : TagTable}

lemma locate_ne_none_of_dirAt (hp : DirAt t p) : locate t p ≠ none := by
  obtain ⟨x, hx⟩ := exists_of_dirAt hp
  rw [hx]
  exact some_ne_none x

namespace Settled

section

variable (h : Settled s) (hp : Plain p)
include h hp

lemma has (hx : locate s.core.tags p = some x) : s.core.tags.Has x :=
  h.tags.has_of_locate hx hp.ne

lemma query : s.core.tagQueryExact (joinComponents p) = locate s.core.tags p :=
  tagQueryExact_joinComponents h.tags.toLaid hp.comps hp.ne

lemma getOrCreateTag (hx : locate s.core.tags p = some x) :
    s.core.getOrCreateTag (joinComponents p) = (x, s.core) := by
  rw [Core.getOrCreateTag, getOrCreateTag_of_locate h.tags.toLaid hp.comps hx (h.has hp hx)]

/-! ## Open -/

lemma openFile_tracked (hi : s.byPath.lookup (joinComponents p) = some i) (creat : Bool) :
    s.openFile (joinComponents p) creat = (⟨s.nextHandle, (s.files i).size, false⟩,
      { s with nextHandle := s.nextHandle + 1, handles := s.handles.insert s.nextHandle i }) := by
  obtain ⟨-, hx⟩ := h.fileAt_of_tracked hp hi
  unfold State.openFile
  simp [h.query hp, hx, h.getOrCreateTag hp hx, State.bindFile, hi, filter_some]

lemma openFile_untracked (hx : locate s.core.tags p = some x)
    (hi : s.byPath.lookup (joinComponents p) = none) (creat : Bool) :
    s.openFile (joinComponents p) creat = (⟨s.nextHandle, s.physical x, false⟩,
      { (s.track ⟨x, joinComponents p, s.physical x⟩).2 with
        nextHandle := s.nextHandle + 1, handles := s.handles.insert s.nextHandle s.nextFile }) := by
  unfold State.openFile State.physical
  simp [h.query hp, hx, h.getOrCreateTag hp hx, State.bindFile, hi, State.track]

end

end Settled

/-- The root is bound once there is something below it. -/
lemma Charted.rooted_of_locate (h : Charted t) (hx : locate t (p ++ [k]) ≠ none) :
    t.names.lookup "/" ≠ none := by
  obtain ⟨y, hy⟩ := ne_none_iff_exists'.mp hx
  obtain ⟨x, -, hxk⟩ := locate_of_concat hy
  rw [h.lookup_root hxk]
  simp

/-- What was there is there. -/
lemma locate_ne_none_of_grows {u : TagTable} {r : List String} (h : Grows t u r x)
    (hq : locate t q ≠ none) : locate u q ≠ none := by
  by_cases hne : q = []
  · subst hne
    exact some_ne_none _
  · rw [h.locate q hne]
    split_ifs
    · exact some_ne_none x
    · exact hq

/-- A file is added to a directory. -/
lemma Orderly.create {t : TagTable} (h : Orderly t) (hp : Plain (p ++ [k])) (hdir : DirAt t p)
    (hx : locate t (p ++ [k]) = none) (hlen : p.length < 256) (hln : ∀ c ∈ p ++ [k], OneLine c)
    (hroom : t.nextMinor + 2 < 2 ^ 32) :
    Grows t (t.getOrCreateTag (joinComponents (p ++ [k])) .null).2 (p ++ [k])
      (t.getOrCreateTag (joinComponents (p ++ [k])) .null).1 ∧
    Orderly (t.getOrCreateTag (joinComponents (p ++ [k])) .null).2 := by
  obtain ⟨d, hd⟩ := exists_of_dirAt hdir
  have hgr := h.toCharted.create hd (h.sole_of_dirAt hdir hd) hp.comps hx hlen hroom
  refine ⟨hgr, h.insert hgr.charted hp.parent_unmarked (fun _ => hdir) hgr.locate
    (fun q hq => ?_) (fun heq => absurd heq hp.ne_marker) hln⟩
  -- the new tag had no path
  have hlt := (h.ids _ (h.has_of_locate hq (by simp))).2.2
  exact absurd hgr.fresh (by omega)

namespace Settled

/-- Blobs with names of their own are no pages, so there are none. -/
lemma lookup_named (h : Settled s) {c : Core} (hbls : ∀ key, c.blobs.lookup key ≠ none →
      s.core.blobs.lookup key ≠ none) {name : String} (hnm : '_' ∈ name.toList) (x : TagId) :
    c.blobs.lookup ⟨x, name⟩ = none := by
  by_contra hne
  obtain ⟨n, hn⟩ := h.pages _ (hbls _ hne)
  have heq : toString n = name := hn.symm
  exact toString_ne_of_mem (c := '_') hnm (by decide) heq

/-- After a change of the tag table that leaves the parent of a path in place, stamping it changes
nothing. -/
lemma touchParent (h : Settled s) {c : Core} (hc : Orderly c.tags)
    (hbls : ∀ key, c.blobs.lookup key ≠ none → s.core.blobs.lookup key ≠ none)
    (hp : ∀ c ∈ p ++ [k], IsComponent c) (hrt : c.tags.names.lookup "/" ≠ none)
    (hx : locate c.tags p ≠ none) : c.touchDir (parentDir (joinComponents (p ++ [k]))) = c := by
  obtain ⟨x, hx⟩ := ne_none_iff_exists'.mp hx
  rw [parentDir_joinComponents hp]
  have hhas : c.tags.Has x := by
    by_cases hne : p = []
    · subst hne
      obtain ⟨r, hr⟩ := ne_none_iff_exists'.mp hrt
      obtain rfl : rootOf c.tags = x := some.inj hx
      exact rootOf_eq hr ▸ hc.has_root hr
    · exact hc.has_of_locate hx hne
  have hcre : c.getOrCreateTag (joinComponents p) = (x, c) := by
    rw [Core.getOrCreateTag,
      getOrCreateTag_of_locate hc.toLaid (fun c hc => hp c (List.mem_append_left _ hc)) hx hhas]
  rw [Core.touchDir, hcre, Core.truncateBlob]
  rw [h.lookup_named hbls (by decide : '_' ∈ tsTouchBlob.toList) x]

/-- A file is created in a directory. -/
lemma openFile_new (h : Settled s) (hp : Plain (p ++ [k])) (hdir : DirAt s.core.tags p)
    (hx : locate s.core.tags (p ++ [k]) = none) (hlen : p.length < 256)
    (hln : ∀ c ∈ p ++ [k], OneLine c) (hroom : s.core.tags.nextMinor + 2 < 2 ^ 32) :
    ∃ id u, Grows s.core.tags u (p ++ [k]) id ∧ Orderly u ∧
      s.openFile (joinComponents (p ++ [k])) true = (⟨s.nextHandle, 0, true⟩,
        { ({ s with core := { s.core with tags := u } }.track ⟨id,
          joinComponents (p ++ [k]), 0⟩).2 with
          nextHandle := s.nextHandle + 1, handles :=
            s.handles.insert s.nextHandle s.nextFile }) := by
  obtain ⟨hgr, hord⟩ := h.tags.create hp hdir hx hlen hln hroom
  refine ⟨_, _, hgr, hord, ?_⟩
  have hno : s.byPath.lookup (joinComponents (p ++ [k])) = none :=
    h.untracked hp fun hfi => hfi.1 hx
  have hsz : ((s.core.getOrCreateTag (joinComponents (p ++ [k]))).2.getTagSize
      (s.core.getOrCreateTag (joinComponents (p ++ [k]))).1).getD 0 = 0 := by
    rw [Core.getTagSize]
    split_ifs
    · -- a tag that has just been created holds nothing
      rw [getD_some]
      refine (tally_congr fun key bytes hkey => if_neg fun htag => ?_).trans
        (show tally s.core.blobs (fun _ _ => 0) = 0 by simp [tally])
      have := h.blobs key (ne_none_iff_exists'.mpr ⟨_, hkey⟩)
      rw [htag] at this
      exact absurd hgr.fresh (not_le.mpr this)
    · rfl
  have htc := h.touchParent (c := (s.core.getOrCreateTag (joinComponents (p ++ [k]))).2) hord
    (fun _ hkey => hkey) hp.comps hgr.root
    (locate_ne_none_of_grows hgr (locate_ne_none_of_dirAt hdir))
  unfold State.openFile
  simp only [h.query hp, hx, hsz, State.bindFile, hno, filter_none, State.track,
    isSome_none, Bool.true_eq_false, and_false, if_false, Bool.false_eq_true, Function.update_self,
    Bool.not_false, htc]
  rfl

/-! ## Getattr -/

section

variable (h : Settled s) (hp : Plain p)
include h hp

lemma getattr_tracked (hi : s.byPath.lookup (joinComponents p) = some i) :
    s.getattr (joinComponents p)
      = (⟨true, false, false, (s.files i).size, State.inoFromTag (s.files i).tagId⟩, s) := by
  obtain ⟨-, hx⟩ := h.fileAt_of_tracked hp hi
  have hsz : s.core.getTagSize (s.files i).tagId ≠ none := by
    rw [Core.getTagSize, if_pos (h.has hp hx)]
    simp
  unfold State.getattr
  rw [if_neg hp.baseName_ne, hi]
  dsimp only
  rw [if_neg fun hsta => hsz hsta.2]

lemma getattr_dir (hx : locate s.core.tags p = some x)
    (hdir : locate s.core.tags (p ++ [kDirMarker]) ≠ none) :
    s.getattr (joinComponents p) = (⟨true, true, false, 0, State.inoFromTag x⟩, s) := by
  have hno : s.byPath.lookup (joinComponents p) = none := h.untracked hp fun hfi => hdir hfi.2
  unfold State.getattr
  rw [if_neg hp.baseName_ne, hno]
  unfold State.getattrUntracked
  simp [hp.strip, (isDirectory_iff h.tags hp).mpr hdir,
    h.getOrCreateTag hp hx]

lemma getattr_untracked (hfi : FileAt s.core.tags p) (hx : locate s.core.tags p = some x)
    (hi : s.byPath.lookup (joinComponents p) = none) :
    s.getattr (joinComponents p) = (⟨true, false, false, s.physical x, State.inoFromTag x⟩, s) := by
  have hnot := isDirectory_eq_false h.tags hp hfi.2
  have hlink : s.core.getBlobSize x symlinkMarker = none := by
    rw [Core.getBlobSize, map_eq_none_iff]
    exact h.lookup_named (fun _ hkey => hkey) (by decide) x
  unfold State.getattr
  rw [if_neg hp.baseName_ne, hi]
  unfold State.getattrUntracked State.physical
  simp [hp.strip, hnot, h.query hp, hx, hlink]

lemma getattr_missing (hx : locate s.core.tags p = none) :
    s.getattr (joinComponents p) = (State.Attr.absent, s) := by
  have hno : s.byPath.lookup (joinComponents p) = none := h.untracked hp fun hfi => hfi.1 hx
  have hnot := isDirectory_eq_false h.tags hp (locate_below hx (List.prefix_append _ _))
  unfold State.getattr
  rw [if_neg hp.baseName_ne, hno]
  unfold State.getattrUntracked
  simp only [hp.strip, hnot, Bool.false_eq_true, if_false,
    h.query hp, hx]

/-- `Getattr` changes nothing. -/
lemma getattr_state : (s.getattr (joinComponents p)).2 = s := by
  cases hi : s.byPath.lookup (joinComponents p) with
  | some i => rw [h.getattr_tracked hp hi]
  | none =>
    cases hx : locate s.core.tags p with
    | none => rw [h.getattr_missing hp hx]
    | some x =>
      by_cases hdir : locate s.core.tags (p ++ [kDirMarker]) = none
      · rw [h.getattr_untracked hp ⟨by simp [hx], hdir⟩ hx hi]
      · rw [h.getattr_dir hp hx hdir]

end

/-! ## Link and Mkdir -/

lemma link_missing (h : Settled s) (hq : Plain q) (hp : Plain p) (hx : locate s.core.tags p = none)
    (hy : locate s.core.tags q = none) :
    s.link (joinComponents q) (joinComponents p) = (enoent, s) := by
  have hres : s.core.tags.resolvePathToId (joinComponents q) = .null := by
    rw [TagTable.resolvePathToId, splitPathComponents_joinComponents q hq.comps]
    cases hrt : s.core.tags.names.lookup "/" with
    | none => rfl
    | some r =>
      have hwk : walk (entries s.core.tags) r q = none := rootOf_eq hrt ▸ hy
      rw [bind_some, walk_eq, hwk, getD_none]
  have htg : s.core.tags.aliasTarget .null (joinComponents q) = .null := by
    simp [TagTable.aliasTarget, hres, h.tags.lookup_joinComponents hq.comps hq.ne]
  have hali : s.core.tags.getOrCreateTagAlias .null (joinComponents q) (joinComponents p) = _ :=
    if_neg (joinComponents_ne_empty hp.comps)
  rw [htg] at hali
  unfold State.link
  simp [hp.strip,
    hq.strip, h.query hp, hx, hali]

/-- The second link of a file. -/
lemma link_new (h : Settled s) (hq : Plain q) (hp : Plain (p ++ [k])) (hdir : DirAt s.core.tags p)
    (hx : locate s.core.tags (p ++ [k]) = none) (hfi : FileAt s.core.tags q)
    (hy : locate s.core.tags q = some y) (hlen : p.length < 256) (hln : ∀ c ∈ p ++ [k], OneLine c) :
    ∃ u, Linked s.core.tags u (p ++ [k]) (some y) ∧ Orderly u ∧
      s.link (joinComponents q) (joinComponents (p ++ [k]))
        = (0, { s with core := { s.core with tags := u } }) := by
  obtain ⟨d, hd⟩ := exists_of_dirAt hdir
  obtain ⟨hali, hhas, hfe⟩ := h.tags.getOrCreateTagAlias hd hp.comps hx hq.comps hy hq.ne
  have hlf := h.tags.not_isDir hy hq.ne hfi
  have hso := h.tags.sole_of_dirAt hdir hd
  have hyd : y ≠ d := by
    rintro rfl
    rcases hdir with rfl | hm
    · obtain rfl : rootOf s.core.tags = y := some.inj hd
      obtain ⟨q, c, rfl, -⟩ := hq.concat
      obtain ⟨x, -, hxc⟩ := locate_of_concat hy
      exact h.tags.tree.root x c hxc
    · rw [locate_concat hd] at hm
      exact hlf ⟨kDirMarker, hm⟩
  have hlnk := h.tags.bindAlias hd hhas hso (hp.comps k (by simp)) hfe hlen hy hq.ne hlf hyd
  have hord := h.tags.insert hlnk.charted hp.parent_unmarked (fun _ => hdir)
    (fun q _ => hlnk.locate q)
    (fun r hr => hq.unmarked (by simp [h.tags.sole r q y hr hy]))
    (fun heq => absurd heq hp.ne_marker) hln
  refine ⟨_, hlnk, hord, ?_⟩
  have hpar : locate (s.core.tags.bindAlias y (makeRelativeName d k)) p ≠ none := by
    rw [hlnk.locate, if_neg (by simp), hd]
    exact some_ne_none d
  have hrt : (s.core.tags.bindAlias y (makeRelativeName d k)).names.lookup "/" ≠ none := by
    rw [hlnk.root, h.tags.lookup_root_of_has hd hhas]
    exact some_ne_none _
  have htc := h.touchParent (c :=
    { s.core with tags := s.core.tags.bindAlias y (makeRelativeName d k) })
    hord (fun _ hkey => hkey) hp.comps hrt hpar
  unfold State.link
  simp [hp.strip,
    hq.strip, h.query hp, hx, hali, htc]

/-- A directory is created with its marker. -/
lemma mkdir_new (h : Settled s) (hp : Plain (p ++ [k])) (hdir : DirAt s.core.tags p)
    (hx : locate s.core.tags (p ++ [k]) = none) (hlen : p.length < 255)
    (hln : ∀ c ∈ p ++ [k], OneLine c) (hroom : s.core.tags.nextMinor + 4 < 2 ^ 32) :
    ∃ id m t u, Grows s.core.tags t (p ++ [k]) id ∧ Grows t u (p ++ [k] ++ [kDirMarker]) m ∧
    Orderly u ∧
      s.mkdir (joinComponents (p ++ [k])) = (0, { s with core := { s.core with tags := u } }) := by
  obtain ⟨hgr, hord⟩ := h.tags.create hp hdir hx (by omega) hln (by omega)
  set id := (s.core.tags.getOrCreateTag (joinComponents (p ++ [k])) .null).1
  set t := (s.core.tags.getOrCreateTag (joinComponents (p ++ [k])) .null).2
  have hsf := hgr.locate_self (by simp)
  have hfe : locate s.core.tags (p ++ [k] ++ [kDirMarker]) = none :=
    locate_below hx (List.prefix_append _ _)
  have hfe' : locate t (p ++ [k] ++ [kDirMarker]) = none := by
    rw [hgr.locate _ (by simp), if_neg (by simp), hfe]
  -- The tag of the directory is created on the way to the marker.
  have htwo : s.core.tags.getOrCreateTag (joinComponents (p ++ [k] ++ [kDirMarker])) .null
      = t.getOrCreateTag (joinComponents (p ++ [k] ++ [kDirMarker])) .null := by
    rw [getOrCreateTag_concat _ hp.marker_comps, getOrCreateTag_concat _ hp.marker_comps,
      getOrCreateTag_of_locate hord.toLaid hp.comps hsf (hord.has_of_locate hsf (by simp))]
  have hmk := hord.toCharted.create hsf hgr.sole hp.marker_comps hfe'
    (by simp; omega) (by have := hgr.room; omega)
  have hmar := hord.mark hp ⟨by simp [hsf], hfe'⟩ hmk
  refine ⟨id, _, t, _, hgr, hmk, hmar, ?_⟩
  have htc := h.touchParent (p := p) (k := k)
    (c := ⟨(t.getOrCreateTag (joinComponents (p ++ [k] ++ [kDirMarker])) .null).2, s.core.blobs⟩)
    hmar (fun _ hkey => hkey) hp.comps hmk.root
    (locate_ne_none_of_grows hmk (locate_ne_none_of_grows hgr (locate_ne_none_of_dirAt hdir)))
  have hchs := tagQueryChildren_eq_nil h.tags hp hfe
  unfold State.mkdir
  simp only [hp.strip, h.query hp, hx, isSome_none,
    Bool.false_eq_true, if_false, hchs, ne_eq, not_true_eq_false,
    joinComponents_concat_eq hp.ne hp.comps, Core.getOrCreateTag, htwo, htc]

/-! ## Unlink and Rmdir -/

lemma lookup_of_dropBlobs (s : State) {u : TagTable} (gone : List TagId) :
    ∀ key, (s.core.pruned u gone).blobs.lookup key ≠ none → s.core.blobs.lookup key ≠ none := by
  intro key hkey
  rw [Core.lookup_dropBlobs] at hkey
  split_ifs at hkey
  · exact absurd rfl hkey
  · exact hkey

section

variable (h : Settled s)
include h

variable {fuel : ℕ}

/-- `DelTag` of a file, in the core. -/
lemma delTag_file (hp : Plain (p ++ [k])) (hfi : FileAt s.core.tags (p ++ [k]))
    (hy : locate s.core.tags (p ++ [k]) = some y) (hfu : 300 ≤ fuel) :
    ∃ u gone, Removed s.core.tags u [p ++ [k]] gone ∧ Orderly u ∧
      (gone = [y] ∧ Sole (entries s.core.tags) y ∨ gone = [] ∧ ¬ Sole (entries s.core.tags) y) ∧
      s.core.delTag fuel (joinComponents (p ++ [k])) true = some (s.core.pruned u gone) := by
  obtain ⟨x, hx, hxk⟩ := locate_of_concat hy
  have hmk := h.tags.marked_of_dirAt (h.tags.dirAt_of_concat hfi.1) hx
  obtain ⟨plan, id, u, gone, hpl, hdel, hgn, hrm, hwhi⟩ :=
    h.tags.delFile hx hxk (h.tags.not_isDir hy (by simp) hfi) hp.ne_marker hmk hfu
  refine ⟨u, gone, hrm, h.tags.remove hrm ?_, hwhi, ?_⟩
  · intro q c hq
    exact absurd (List.append_singleton_inj.mp (List.mem_singleton.mp hq)).2.symm hp.ne_marker
  · rw [Core.delTag, hpl, bind_some, hdel, map_some, hgn]

/-- `DelTag` of an empty directory, in the core. -/
lemma delTag_dir (hp : Plain (p ++ [k]))
    (hdir : locate s.core.tags (p ++ [k] ++ [kDirMarker]) ≠ none)
    (hemp : ∀ c, locate s.core.tags (p ++ [k] ++ [c]) ≠ none → c = kDirMarker)
    (hfu : 300 ≤ fuel) (posixUnlink : Bool) :
    ∃ u y m, Removed s.core.tags u [p ++ [k], p ++ [k] ++ [kDirMarker]] [y, m] ∧ Orderly u ∧
      locate s.core.tags (p ++ [k]) = some y ∧
      locate s.core.tags (p ++ [k] ++ [kDirMarker]) = some m ∧
      s.core.delTag fuel (joinComponents (p ++ [k])) posixUnlink =
      some (s.core.pruned u [y, m]) := by
  obtain ⟨y, hy⟩ := exists_of_dirAt (.inr hdir)
  obtain ⟨m, hv⟩ := h.tags.vacant hy hdir hemp
  obtain ⟨x, hx, hxk⟩ := locate_of_concat hy
  have hmk := h.tags.marked_of_dirAt (h.tags.dirAt_of_concat (by rw [hy]; simp)) hx
  obtain ⟨plan, id, u, hpl, hdel, hgn, hrm⟩ :=
    h.tags.delDir hx hxk hv hp.ne_marker hmk hfu posixUnlink
  refine ⟨u, y, m, hrm, h.tags.remove hrm ?_, hy, ?_, ?_⟩
  · intro q c hq hc
    rcases List.mem_cons.mp hq with hq | hq
    · exact absurd (List.append_singleton_inj.mp hq).2.symm hp.ne_marker
    · obtain ⟨rfl, -⟩ := List.append_singleton_inj.mp (List.mem_singleton.mp hq)
      rw [hemp c hc]
      simp
  · rw [locate_concat hy, hv.marker]
  · rw [Core.delTag, hpl, bind_some, hdel, map_some, hgn]

/-- After the removal of paths below a directory, stamping it changes nothing. -/
lemma touchParent_of_removed {u : TagTable} {paths : List (List String)} {gone : List TagId}
    (hrm : Removed s.core.tags u paths gone) (hu : Orderly u) (hp : ∀ c ∈ p ++ [k], IsComponent c)
    (hx : locate s.core.tags (p ++ [k]) ≠ none) (hpts : p ∉ paths) :
    (s.core.pruned u gone).touchDir (parentDir (joinComponents (p ++ [k])))
      = s.core.pruned u gone := by
  refine h.touchParent hu (lookup_of_dropBlobs s gone) hp ?_ ?_
  · show u.names.lookup "/" ≠ none
    rw [hrm.root]
    exact h.tags.rooted_of_locate hx
  · show locate u p ≠ none
    rw [hrm.locate, if_neg hpts]
    exact locate_ne_none_of_dirAt (h.tags.dirAt_of_concat hx)

/-- A link of a file is removed, and with the last one the file. -/
lemma unlink_file (hp : Plain (p ++ [k])) (hfi : FileAt s.core.tags (p ++ [k]))
    (hy : locate s.core.tags (p ++ [k]) = some y) (hfu : 300 ≤ fuel) :
    ∃ u gone, Removed s.core.tags u [p ++ [k]] gone ∧ Orderly u ∧
      (gone = [y] ∧ Sole (entries s.core.tags) y ∨ gone = [] ∧ ¬ Sole (entries s.core.tags) y) ∧
      s.unlink fuel (joinComponents (p ++ [k])) = some (0, { s with
        core := s.core.pruned u gone
        byPath := s.byPath.erase (joinComponents (p ++ [k])) }) := by
  obtain ⟨u, gone, hrm, hu, hwhi, hdel⟩ := h.delTag_file hp hfi hy hfu
  refine ⟨u, gone, hrm, hu, hwhi, ?_⟩
  have htc := h.touchParent_of_removed hrm hu hp.comps hfi.1 (by simp)
  have hchs := tagQueryChildren_eq_nil h.tags hp hfi.2
  unfold State.unlink
  simp only [hp.strip, hchs, ne_eq, not_true_eq_false,
    if_false, hdel, map_some, htc]

lemma rmdir_missing (hp : Plain p) (hx : locate s.core.tags (p ++ [kDirMarker]) = none) (fuel : ℕ) :
    s.rmdir fuel (joinComponents p) = some (enoent, s) := by
  have hreal : s.core.hasRealChild (joinComponents p) = false := by
    rw [← Bool.not_eq_true, hasRealChild_iff h.tags hp]
    rintro ⟨c, -, hc⟩
    exact h.tags.marked p c hp.ne hc hx
  have hchs := tagQueryChildren_eq_nil h.tags hp hx
  unfold State.rmdir
  simp [hp.strip, hreal, hchs]

/-- An empty directory is removed with its marker. -/
lemma rmdir_empty (hp : Plain (p ++ [k]))
    (hdir : locate s.core.tags (p ++ [k] ++ [kDirMarker]) ≠ none)
    (hemp : ∀ c, locate s.core.tags (p ++ [k] ++ [c]) ≠ none → c = kDirMarker)
    (hfu : 300 ≤ fuel) :
    ∃ u y m, Removed s.core.tags u [p ++ [k], p ++ [k] ++ [kDirMarker]] [y, m] ∧ Orderly u ∧
      locate s.core.tags (p ++ [k]) = some y ∧
      locate s.core.tags (p ++ [k] ++ [kDirMarker]) = some m ∧
      s.rmdir fuel (joinComponents (p ++ [k])) = some (0, { s with
        core := s.core.pruned u [y, m] }) := by
  obtain ⟨u, y, m, hrm, hu, hy, hm, hdel⟩ := h.delTag_dir hp hdir hemp hfu false
  refine ⟨u, y, m, hrm, hu, hy, hm, ?_⟩
  have htc := h.touchParent_of_removed hrm hu hp.comps (by simp [hy]) (by simp)
  have hreal : s.core.hasRealChild (joinComponents (p ++ [k])) = false := by
    rw [← Bool.not_eq_true, hasRealChild_iff h.tags hp]
    rintro ⟨c, hc, hx⟩
    exact hc (hemp c hx)
  have hchs := (tagQueryChildren_ne_nil_iff h.tags hp).mpr hdir
  unfold State.rmdir
  simp [hp.strip, hreal, hchs, hdel, htc]

end

end Settled

end ClioCore.Filesystem
