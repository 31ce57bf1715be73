import ClioCore.Cte.ReaderPins
import ClioCore.Cte.TagTree

/-!
# Deleting a subtree of tags

`DelTag` with everything it acts on: it deletes a tag, all tags below it and their blobs, and then
those ancestors that have no child left.  An ancestor goes if its only child is the tag that was
deleted or an ancestor that goes (`TagTable.OnlyChild`, followed upwards), so what is deleted
altogether is the subtree of the last of them (`TagTable.pruneAncestors_cut`).

Whether such an ancestor holds blobs, or whether a hard link of a tag elsewhere has its name below
it, is not looked at.  `TouchesOnlySubtree` says that it should be: other tags that hold a blob,
have a child left or have an alias entry below them stay as they are.
-/

namespace ClioCore.Cte

open Foundations Option TagTable AList Forest State Co
open SafeBdev (PoolId)

variable {c p : TagId} {rank : TagId → ℕ} {bound : ℕ} {key : BlobKey}

/-! ## The task -/

/-- The tag table of a container. -/
def State.tags (s : State) : TagTable :=
  ⟨s.tagNames, s.tagInfos, s.tagSearch, s.nodeId, s.nextTagIdMinor, []⟩

variable (toDelete : List TagId) (wid : ℕ)

/-- The container with another tag table, whose new records go to the log of worker `wid`. -/
def State.setTags (s : State) (t : TagTable) : State :=
  { s with
    tagNames := t.names
    tagInfos := t.infos
    tagSearch := t.search
    nextTagIdMinor := t.nextMinor
    tagLogs := s.tagLogs.modify (wid % s.tagLogs.length) (· ++ t.log) }

/-- Step 5 of `DelTag`.  The deletions are awaited in the order they are issued; those of one batch
are of different blobs. -/
def delBlobs (wid task : ℕ) : ℕ → List BlobKey → Co State Unit
  | _, [] => pure ()
  | n, key :: keys => do
      let _ ← delBlob wid ⟨task, n⟩ key
      delBlobs wid task (n + 1) keys

/-- Steps 3 and 4 of `DelTag`: the index is cleaned and the blobs are collected. -/
def startCascade (canonical : String) (toDelete : List TagId) (s : State) :
    List BlobKey × State :=
  (s.blobs.keys.filter fun key => key.tag ∈ toDelete,
    s.setTags wid (s.tags.searchDelete (s.tags.deadEntries canonical toDelete)))

/-- Step 6 of `DelTag`. -/
def eraseBlobs (s : State) : State :=
  (s.blobs.keys.filter fun key => key.tag ∈ toDelete).foldl
    (fun s key => { s with blobs := s.blobs.erase key }.eraseShm key) s

/-- Steps 6, 7 and 7b of `DelTag`. -/
def finishCascade (toDelete ancestors : List TagId) (s : State) : Unit × State :=
  let erased := eraseBlobs toDelete s
  ((), erased.setTags wid (erased.tags.dropTags toDelete ancestors))

/-- `DelTag`: return code and id of the reply; none if its loops need more than `fuel` iterations.
-/
def delTag (fuel wid task : ℕ) (id : TagId) (name : String) (posixUnlink : Bool) :
    Co State (Option (ℕ × TagId)) := do
  let plan ← Co.act fun s => (s.tags.delPlan fuel id name posixUnlink, s)
  match plan with
  | none => pure none
  | some (.notFound id) => pure (some (1, id))
  | some (.unlink id key) => do
      Co.act fun s => ((), s.setTags wid (s.tags.unlinkAlias id key))
      pure (some (0, id))
  | some (.promote id key new) => do
      Co.act fun s => ((), s.setTags wid (s.tags.promoteAlias id key new))
      pure (some (0, id))
  | some (.cascade id canonical toDelete ancestors) => do
      let keys ← Co.act (startCascade wid canonical toDelete)
      delBlobs wid task 1 keys
      Co.act (finishCascade wid toDelete ancestors)
      pure (some (0, id))

namespace TagTable

variable {t u v : TagTable}

/-! ## What goes with a tag -/

/-- `p` is a tag below the root whose only child is `c`. -/
structure OnlyChild (t : TagTable) (c p : TagId) : Prop where
  parent : t.parentOf c = some p
  has : t.Has p
  notRoot : ¬ (t.names.lookup "/" = some p ∧ p ≠ .null)
  only : ∀ y, t.parentOf y = some p → y = c

/-- The tags of `v` are those of `t` without the subtree of `c`. -/
structure Cut (t : TagTable) (c : TagId) (v : TagTable) : Prop where
  gone : ∀ x, Forest.AtOrBelow t.parentOf x c → v.infos.lookup x = none
  kept : ∀ x, ¬ Forest.AtOrBelow t.parentOf x c → v.infos.lookup x = t.infos.lookup x

lemma OnlyChild.atOrBelow_iff (h : t.OnlyChild c p) (x : TagId) :
    Forest.AtOrBelow t.parentOf x p ↔ x = p ∨ Forest.AtOrBelow t.parentOf x c := by
  constructor
  · rintro ⟨n, hn⟩
    induction n generalizing x with
    | zero => exact .inl (some.inj hn)
    | succ n ih =>
      obtain ⟨q, hq, hn⟩ := bind_eq_some_iff.mp hn
      rcases ih q hn with rfl | hbl
      · exact .inr (h.only x hq ▸ atOrBelow_refl _ _)
      · exact .inr (hbl.of_parent hq)
  · rintro (rfl | ⟨n, hn⟩)
    · exact atOrBelow_refl _ _
    · exact ⟨n + 1, by rw [ancestor_succ, hn]; exact h.parent⟩

lemma not_atOrBelow_of_parent (hrk : Forest.Ranked t.parentOf rank bound)
    (hp : t.parentOf c = some p) :
    ¬ Forest.AtOrBelow t.parentOf p c := by
  rintro ⟨n, hn⟩
  exact hrk.ancestor_ne n p (by rw [ancestor_succ, hn]; exact hp)

lemma Cut.parentOf_eq {y : TagId} (h : t.Cut c v) (hy : ¬ Forest.AtOrBelow t.parentOf y c) :
    v.parentOf y = t.parentOf y := by rw [parentOf, parentOf, h.kept y hy]

/-- A parent without a child left had only the one. -/
lemma Cut.onlyChild (hrk : Forest.Ranked t.parentOf rank bound) (h : t.Cut c v)
    (hpar : t.parentOf c = some p) (hhas : t.Has p)
    (hrt : ¬ (t.names.lookup "/" = some p ∧ p ≠ .null)) (hemp : v.children p = []) :
    t.OnlyChild c p := by
  refine ⟨hpar, hhas, hrt, fun y hy => ?_⟩
  by_contra hne
  have hbl : ¬ Forest.AtOrBelow t.parentOf y c := by
    rw [Forest.atOrBelow_iff]
    rintro (rfl | ⟨q, hq, hbl⟩)
    · exact hne rfl
    · cases hq.symm.trans hy
      exact not_atOrBelow_of_parent hrk hpar hbl
  have hkey : y ∈ v.infos.keys := by
    rw [← mem_keys, ← lookup_isSome, h.kept y hbl, isSome_iff_ne_none]
    exact has_of_parentOf hy
  have hmem : y ∈ v.children p :=
    List.mem_filter.mpr ⟨hkey, by simp [h.parentOf_eq hbl, hy]⟩
  rw [hemp] at hmem
  exact List.not_mem_nil hmem

/-- The parent of an only child goes after it. -/
lemma Cut.dropTag (h : t.Cut c v) (hch : t.OnlyChild c p) : t.Cut p (v.dropTag p) := by
  refine ⟨fun x hx => ?_, fun x hx => ?_⟩
  · rw [lookup_dropTag]
    rcases (hch.atOrBelow_iff x).mp hx with rfl | hbl
    · simp
    · rw [h.gone x hbl, ite_self]
  · obtain ⟨hne, hbl⟩ := not_or.mp fun hor => hx ((hch.atOrBelow_iff x).mpr hor)
    rw [lookup_dropTag, if_neg hne, h.kept x hbl]

/-- **Pruning deletes the subtree of an ancestor**: the last one that is reached from the tag by
tags with only one child. -/
lemma pruneAncestors_cut (hrk : Forest.Ranked t.parentOf rank bound) {n : ℕ} {info : TagInfo}
    {ancs : List TagId} (hin : t.infos.lookup c = some info)
    (hchn : t.ancestorChain n info.tagName = some ancs) (hcut : t.Cut c v) :
    ∃ top, Relation.ReflTransGen t.OnlyChild c top ∧ (∀ p, ¬ t.OnlyChild top p) ∧
      t.Cut top (v.pruneAncestors ancs) := by
  induction n generalizing c info ancs v with
  | zero => simp [ancestorChain] at hchn
  | succ n ih =>
    have hpar := parentOf_eq hin
    have hon : ∀ {p q leaf}, parseTagRef info.tagName = some (p, leaf) →
        t.OnlyChild c q → q = p := by
      intro p q leaf hprs hq
      rw [hprs] at hpar
      exact some.inj (hq.parent.symm.trans hpar)
    unfold ancestorChain at hchn
    split at hchn
    · next hprs =>
        -- a root or a flat tag
        cases hchn
        rw [hprs] at hpar
        exact ⟨c, .refl, fun p hp => (by cases hpar.symm.trans hp.parent), hcut⟩
    next p leaf hprs =>
    rw [hprs] at hpar
    split at hchn
    · next hrt =>
        cases hchn
        exact ⟨c, .refl, fun q hq => hq.notRoot (hon hprs hq ▸ hrt), hcut⟩
    next hrt =>
    split at hchn
    · next hno =>
        cases hchn
        exact ⟨c, .refl, fun q hq => hq.has (hon hprs hq ▸ hno), hcut⟩
    next pinfo hpin =>
    obtain ⟨rest, hrs, rfl⟩ := map_eq_some_iff.mp hchn
    have hvin : v.infos.lookup p = some pinfo :=
      (hcut.kept p (not_atOrBelow_of_parent hrk hpar)).trans hpin
    rw [pruneAncestors, hvin]
    dsimp only
    by_cases hemp : v.children p = []
    · have hch := hcut.onlyChild hrk hpar (by simp [Has, hpin]) hrt hemp
      have hnx : t.Cut p ((v.dropTag p).searchDelete [v.resolveTagName pinfo.tagName]) :=
        ⟨(hcut.dropTag hch).gone, (hcut.dropTag hch).kept⟩
      rw [if_pos hemp]
      obtain ⟨top, htop, hmax, hdn⟩ := ih hpin hrs hnx
      exact ⟨top, .head hch htop, hmax, hdn⟩
    · rw [if_neg hemp]
      refine ⟨c, .refl, fun q hq => hemp ?_, hcut⟩
      obtain rfl := hon hprs hq
      -- a parent with one child has none left
      refine List.eq_nil_iff_forall_not_mem.mpr fun y hy => ?_
      have hy := mem_children hy
      by_cases hbl : Forest.AtOrBelow t.parentOf y c
      · exact has_of_parentOf hy (hcut.gone y hbl)
      · rw [hcut.parentOf_eq hbl] at hy
        exact hbl (hq.only y hy ▸ atOrBelow_refl _ _)

/-- The subtree of the last ancestor is that of the tag and the ancestors up to it. -/
lemma atOrBelow_top {id top : TagId} (h : Relation.ReflTransGen t.OnlyChild id top)
    (hmax : ∀ p, ¬ t.OnlyChild top p) (x : TagId) :
    Forest.AtOrBelow t.parentOf x top ↔
      Forest.AtOrBelow t.parentOf x id ∨ Relation.TransGen t.OnlyChild id x := by
  induction h using Relation.ReflTransGen.head_induction_on with
  | refl =>
    constructor
    · exact .inl
    · rintro (hx | hx)
      · exact hx
      · obtain ⟨p, hp, -⟩ := Relation.TransGen.head'_iff.mp hx
        exact absurd hp (hmax p)
  | @head c p hcp hrs ih =>
    rw [ih, hcp.atOrBelow_iff]
    constructor
    · rintro ((rfl | hx) | hx)
      · exact .inr (.single hcp)
      · exact .inl hx
      · exact .inr (.head hcp hx)
    · rintro (hx | hx)
      · exact .inl (.inr hx)
      · obtain ⟨q, hq, hqx⟩ := Relation.TransGen.head'_iff.mp hx
        cases hcp.parent.symm.trans hq.parent
        rcases Relation.reflTransGen_iff_eq_or_transGen.mp hqx with rfl | hqx
        · exact .inl (.inl rfl)
        · exact .inr hqx

/-- The tags that a cascade starts with are those of the subtree. -/
lemma mem_toDelete {fuel : ℕ} {id : TagId} {toDelete : List TagId}
    (h : traverse t.children fuel [id] = some toDelete) (x : TagId) :
    x ∈ toDelete ↔ Forest.AtOrBelow t.parentOf x id := by
  have hstp : (fun a b => b ∈ t.children a) = fun a b => t.parentOf b = some a := by
    funext a b
    refine propext ⟨mem_children, fun hb => List.mem_filter.mpr ⟨?_, by simpa using hb⟩⟩
    rw [← mem_keys, ← lookup_isSome, isSome_iff_ne_none]
    exact has_of_parentOf hb
  rw [mem_traverse h, hstp, atOrBelow_iff_reflTransGen]
  simp

end TagTable

/-! ## Deleting blobs -/

/-- Nobody works on the blobs of the container, and each has an object of its own. -/
structure Resting (s : State) : Prop where
  tokens : ∀ key o, s.blobs.lookup key = some o → (s.objs o).writeOwner = none
  pins : ∀ key o, s.blobs.lookup key = some o → (s.objs o).pins = 0
  separate : ∀ key key' o, s.blobs.lookup key = some o → s.blobs.lookup key' = some o → key = key'

/-- Some of the blobs with the given keys have been deleted, and nothing else has happened to blobs
and tags. -/
structure Dropped (keys : List BlobKey) (s s' : State) : Prop where
  blobs : ∀ key, key ∉ keys → s'.blobs.lookup key = s.blobs.lookup key
  sub : ∀ key o, s'.blobs.lookup key = some o → s.blobs.lookup key = some o
  objs : ∀ o, (∀ key ∈ keys, s.blobs.lookup key ≠ some o) → s'.objs o = s.objs o
  mem : s'.mem = s.mem
  names : s'.tagNames = s.tagNames
  infos : ∀ x, (∀ key ∈ keys, key.tag ≠ x) → s'.tagInfos.lookup x = s.tagInfos.lookup x
  namesOf : ∀ x, s'.tags.namesOf x = s.tags.namesOf x

variable {s s' s'' : State} {o : ObjId}

lemma Dropped.refl (s : State) : Dropped [] s s :=
  ⟨fun _ _ => rfl, fun _ _ h => h, fun _ _ => rfl, rfl, rfl, fun _ _ => rfl, fun _ => rfl⟩

lemma Dropped.trans {keys keys' : List BlobKey} (h : Dropped keys s s')
    (h' : Dropped keys' s' s'') : Dropped (keys ++ keys') s s'' where
  blobs key hkey := by
    obtain ⟨hn, hn'⟩ := not_or.mp fun hor => hkey (List.mem_append.mpr hor)
    rw [h'.blobs key hn', h.blobs key hn]
  sub key o hkey := h.sub key o (h'.sub key o hkey)
  objs o ho := by
    rw [h'.objs o fun key hkey hbd => ho key (List.mem_append_right _ hkey) (h.sub key o hbd),
      h.objs o fun key hkey => ho key (List.mem_append_left _ hkey)]
  mem := h'.mem.trans h.mem
  names := h'.names.trans h.names
  infos x hx := by
    rw [h'.infos x fun key hkey => hx key (List.mem_append_right _ hkey),
      h.infos x fun key hkey => hx key (List.mem_append_left _ hkey)]
  namesOf x := (h'.namesOf x).trans (h.namesOf x)

/-- Freeing touches what is handed out, the targets and the history. -/
lemma freeGroups_run (groups : List (PoolId × List Extent)) (s : State) : ∃ live targets tick hist,
    (freeGroups groups).run s
      = some ((), { s with live := live, targets := targets, tick := tick, hist := hist }) := by
  induction groups generalizing s with
  | nil => exact ⟨s.live, s.targets, s.tick, s.hist, rfl⟩
  | cons g groups ih =>
    have hfst : ∃ live targets tick hist, (freeBlocks g s).2
        = { s with live := live, targets := targets, tick := tick, hist := hist } := by
      rw [freeBlocks]
      split <;> exact ⟨_, _, _, _, rfl⟩
    obtain ⟨live, targets, tick, hist, hfst⟩ := hfst
    obtain ⟨live', targets', tick', hist', hrs⟩ := ih (freeBlocks g s).2
    refine ⟨live', targets', tick', hist', ?_⟩
    rw [freeGroups, run_bind, run_act, bind_some, hrs, hfst]

/-- The blob `key` with object `o` has been deleted. -/
structure Erased (key : BlobKey) (o : ObjId) (s s' : State) : Prop where
  blobs : s'.blobs = s.blobs.erase key
  objs : ∀ o', o' ≠ o → s'.objs o' = s.objs o'
  mem : s'.mem = s.mem
  names : s'.tagNames = s.tagNames
  infos : ∀ x, key.tag ≠ x → s'.tagInfos.lookup x = s.tagInfos.lookup x
  namesOf : ∀ x, s'.tags.namesOf x = s.tags.namesOf x

/-- The last section of a delete but one. -/
lemma erased_finishDel (key : BlobKey) (o : ObjId) (size : ℕ) (s : State) :
    Erased key o s (finishDel wid key o size s).2 := by
  unfold finishDel modifyTagSize
  split
  · exact ⟨rfl, fun _ _ => rfl, rfl, rfl, fun _ _ => rfl, fun _ => rfl⟩
  · next info hin =>
    refine ⟨rfl, fun _ _ => rfl, rfl, rfl, fun x hx => lookup_insert_ne hx.symm, fun x => ?_⟩
    obtain rfl | hne := eq_or_ne x key.tag
    · simp [namesOf, tags, hin, TagInfo.names, eraseShm, logBlob]
    · simp [namesOf, tags, lookup_insert_ne hne, eraseShm, logBlob]

lemma Erased.modifyObj (h : Erased key o s s') (f : BlobInfo → BlobInfo) :
    Erased key o s (s'.modifyObj o f) :=
  ⟨h.blobs, fun o' ho' => (Function.update_of_ne ho' _ _).trans (h.objs o' ho'), h.mem,
    h.names, h.infos, h.namesOf⟩

lemma Erased.dropped (h : Erased key o s s') (hbd : s.blobs.lookup key = some o) :
    Dropped [key] s s' where
  blobs k hk := by
    have hne : k ≠ key := fun he => hk (by simp [he])
    rw [h.blobs, lookup_erase_ne hne]
  sub k o' hk := by
    obtain rfl | hne := eq_or_ne k key
    · simp [h.blobs] at hk
    · rwa [h.blobs, lookup_erase_ne hne] at hk
  objs o' ho' := h.objs o' fun he => ho' key List.mem_cons_self (he ▸ hbd)
  mem := h.mem
  names := h.names
  infos x hx := h.infos x (hx key List.mem_cons_self)
  namesOf := h.namesOf

lemma Erased.resting (h : Erased key o s s') (hbd : s.blobs.lookup key = some o) (hs : Resting s)
    : Resting s' := by
  have hoth : ∀ {k o'}, s'.blobs.lookup k = some o' →
      s.blobs.lookup k = some o' ∧ s'.objs o' = s.objs o' := by
    intro k o' hk
    have hk' := (h.dropped hbd).sub k o' hk
    refine ⟨hk', h.objs o' ?_⟩
    rintro rfl
    obtain rfl := hs.separate k key o' hk' hbd
    simp [h.blobs] at hk
  refine ⟨fun k o' hk => ?_, fun k o' hk => ?_, fun k k' o' hk hk' => ?_⟩
  · rw [(hoth hk).2]
    exact hs.tokens k o' (hoth hk).1
  · rw [(hoth hk).2]
    exact hs.pins k o' (hoth hk).1
  · exact hs.separate k k' o' (hoth hk).1 (hoth hk').1

/-- A delete under the token. -/
lemma delLocked_run (key : BlobKey) (hpins : (s.objs o).pins = 0) :
    ∃ s', (delLocked wid key o).run s = some ((), s') ∧ Erased key o s s' := by
  set folded := (foldReplicas o (beginDrainReaders o s).2).2 with hfol
  have hdra : ((beginDrainReaders o s).2.objs o).pins = 0 := by
    simpa [beginDrainReaders, modifyObj] using hpins
  obtain ⟨live, targets, tick, hist, hfe⟩ :=
    freeGroups_run (blocksByPool ((folded.objs o).slot .main).blocks) folded
  set emptied := modifySlot
    { folded with live := live, targets := targets, tick := tick, hist := hist } o .main
      (fun _ => .empty) with hempt
  refine ⟨(endDrainReaders o (finishDel wid key o (s.objs o).layout.totalSizeCache emptied).2).2,
    ?_, ?_⟩
  · simp only [delLocked, drainReaders, freeAllBlobBlocks, run_bind, run_act, run_await,
      bind_some, hdra, decide_true, if_true]
    rw [← hfol, hfe]
    rfl
  · have hfin : Erased key o s
        (finishDel wid key o (s.objs o).layout.totalSizeCache emptied).2 := by
      obtain ⟨hbls, hobs, hmem, hnms, hinf, hnm⟩ :=
        erased_finishDel wid key o (s.objs o).layout.totalSizeCache emptied
      refine ⟨hbls, fun o' ho' => (hobs o' ho').trans ?_, hmem, hnms, hinf, hnm⟩
      simp [hempt, hfol, foldReplicas, beginDrainReaders, modifySlot, modifyObj,
        Function.update_of_ne ho']
    exact hfin.modifyObj fun b => { b with draining := false }

/-- `DelBlob` on its own. -/
lemma delBlob_run (tok : TaskId) (key : BlobKey) (hs : Resting s) :
    ∃ r s', (delBlob wid tok key).run s = some (r, s') ∧ Dropped [key] s s' ∧ Resting s' := by
  cases hfound : s.checkBlobExists key with
  | none =>
    refine ⟨reply 1, s, ?_, ⟨fun _ _ => rfl, fun _ _ h => h, fun _ _ => rfl, rfl, rfl,
      fun _ _ => rfl, fun _ => rfl⟩, hs⟩
    rw [delBlob, run_bind, run_act, hfound]
    rfl
  | some o =>
    have hbd : s.blobs.lookup key = some o := by
      rw [checkBlobExists] at hfound
      split at hfound
      · simp at hfound
      · exact hfound
    have hpins : ((takeToken tok o s).2.objs o).pins = 0 := by
      simpa [takeToken, modifyObj] using hs.pins key o hbd
    obtain ⟨s1, hrun, hers⟩ := delLocked_run wid key hpins
    have hdn : Erased key o s (unlockWrite tok o s1).2 := by
      have hloc : Erased key o s s1 := by
        refine ⟨hers.blobs, fun o' ho' => ?_, hers.mem, hers.names, hers.infos, hers.namesOf⟩
        rw [hers.objs o' ho']
        exact Function.update_of_ne ho' _ _
      exact hloc.modifyObj _
    refine ⟨reply 0, (unlockWrite tok o s1).2, ?_, hdn.dropped hbd, hdn.resting hbd hs⟩
    have hrdy : (decide ((s.objs o).writeOwner = none ∨ (s.objs o).writeOwner = some tok)) =
        true := by
      simp [hs.tokens key o hbd]
    simp only [delBlob, lockWrite, run_bind, run_act, run_await, bind_some, hfound, hrdy,
      if_true, hrun]
    rfl

/-- The deletions of a cascade. -/
lemma delBlobs_run (wid task n : ℕ) (keys : List BlobKey) (hs : Resting s) :
    ∃ s', (delBlobs wid task n keys).run s = some ((), s') ∧ Dropped keys s s' ∧ Resting s' := by
  induction keys generalizing s n with
  | nil => exact ⟨s, rfl, Dropped.refl s, hs⟩
  | cons key keys ih =>
    obtain ⟨r, s1, hrun, hdrp, hs1⟩ := delBlob_run wid ⟨task, n⟩ key hs
    obtain ⟨s2, hrs, hdrp', hs2⟩ := ih (n + 1) hs1
    refine ⟨s2, ?_, hdrp.trans hdrp', hs2⟩
    rw [delBlobs, run_bind, hrun, bind_some, hrs]

lemma foldl_eraseBlobs (keys : List BlobKey) (s : State) : ∃ blobs shm,
    keys.foldl (fun s key => { s with blobs := s.blobs.erase key }.eraseShm key) s
      = { s with blobs := blobs, shm := shm } ∧
    ∀ key, blobs.lookup key = if key ∈ keys then none else s.blobs.lookup key := by
  induction keys generalizing s with
  | nil => exact ⟨s.blobs, s.shm, rfl, by simp⟩
  | cons k keys ih =>
    obtain ⟨blobs, shm, hfold, hlk⟩ := ih ({ s with blobs := s.blobs.erase k }.eraseShm k)
    refine ⟨blobs, shm, by rw [List.foldl_cons, hfold]; rfl, fun key => ?_⟩
    have hfst : ({ s with blobs := s.blobs.erase k }.eraseShm k).blobs = s.blobs.erase k := rfl
    rw [hlk, hfst]
    obtain rfl | hne := eq_or_ne key k
    · simp
    · simp [hne]

/-- Step 6 of `DelTag`: no blob of the tags is left in the map. -/
lemma eraseBlobs_eq (s : State) : ∃ blobs shm,
    eraseBlobs toDelete s = { s with blobs := blobs, shm := shm } ∧
    ∀ key, blobs.lookup key = if key.tag ∈ toDelete then none else s.blobs.lookup key := by
  obtain ⟨blobs, shm, hfold, hlk⟩ :=
    foldl_eraseBlobs (s.blobs.keys.filter fun key => key.tag ∈ toDelete) s
  refine ⟨blobs, shm, hfold, fun key => ?_⟩
  rw [hlk]
  by_cases htag : key.tag ∈ toDelete
  · rw [if_pos htag]
    by_cases hkey : key ∈ s.blobs
    · rw [if_pos (List.mem_filter.mpr ⟨mem_keys.mp hkey, by simpa using htag⟩)]
    · rw [lookup_eq_none.mpr hkey, ite_self]
  · simp [htag]

/-! ## The whole deletion -/

/-- The subtree of `id` has gone with its blobs, and tags up to `top`. -/
structure Cascaded (id top : TagId) (s s' : State) : Prop where
  tags : s.tags.Cut top s'.tags
  sound : s'.tags.Sound
  gone : ∀ key : BlobKey, Forest.AtOrBelow s.tags.parentOf key.tag id → s'.blobs.lookup key = none
  kept : ∀ key : BlobKey, ¬ Forest.AtOrBelow s.tags.parentOf key.tag id →
    s'.blobs.lookup key = s.blobs.lookup key ∧ ∀ o, s.blobs.lookup key = some o →
    s'.objs o = s.objs o
  mem : s'.mem = s.mem

section Deletion

variable {rank : TagId → ℕ} {bound fuel : ℕ} {id : TagId} {info : TagInfo}
  {toDelete ancestors : List TagId}

/-- What `DelTag` does once it has decided to delete. -/
lemma cascade_run (wid task : ℕ) (hs : Resting s) (hsound : s.tags.Sound)
    (hrk : Forest.Ranked s.tags.parentOf rank bound) (hin : s.tagInfos.lookup id = some info)
    (hchn : s.tags.ancestorChain fuel info.tagName = some ancestors)
    (hdel : traverse s.tags.children fuel [id] = some toDelete) : ∃ s1,
      (delBlobs wid task 1 (startCascade wid info.tagName toDelete s).1).run
        (startCascade wid info.tagName toDelete s).2 = some ((), s1) ∧
      ∃ top, Relation.ReflTransGen s.tags.OnlyChild id top ∧ (∀ p, ¬ s.tags.OnlyChild top p) ∧
        Cascaded id top s (finishCascade wid toDelete ancestors s1).2 := by
  have hmem := mem_toDelete hdel
  set keys := (startCascade wid info.tagName toDelete s).1
  have htags : ∀ key ∈ keys, key.tag ∈ toDelete := fun key hkey => by
    simpa using (List.mem_filter.mp hkey).2
  have hs0 : Resting (startCascade wid info.tagName toDelete s).2 :=
    ⟨hs.tokens, hs.pins, hs.separate⟩
  obtain ⟨s1, hrun, hdrp, -⟩ := delBlobs_run wid task 1 keys hs0
  refine ⟨s1, hrun, ?_⟩
  obtain ⟨blobs, shm, her, hlk⟩ := eraseBlobs_eq toDelete s1
  -- the tags of the container, without those of the subtree
  have hcut : s.tags.Cut id (toDelete.foldl dropTag s1.tags) := by
    refine ⟨fun x hx => ?_, fun x hx => ?_⟩
    · rw [lookup_foldl_dropTag, if_pos ((hmem x).mpr hx)]
    · rw [lookup_foldl_dropTag, if_neg fun hx' => hx ((hmem x).mp hx')]
      exact hdrp.infos x fun key hkey heq => hx ((hmem x).mp (heq ▸ htags key hkey))
  obtain ⟨top, htop, hmax, hpru⟩ := pruneAncestors_cut hrk hin hchn hcut
  have hsnd1 : s1.tags.Sound := hsound.of_namesOf (fun key => by
    show s1.tagNames.lookup key = s.tagNames.lookup key
    rw [hdrp.names]
    rfl) hdrp.namesOf
  have hdn : (finishCascade wid toDelete ancestors s1).2 = setTags wid
      { s1 with blobs := blobs, shm := shm } (s1.tags.dropTags toDelete ancestors) := by
    simp only [finishCascade, her]
    rfl
  refine ⟨top, htop, hmax, ?_⟩
  rw [hdn]
  refine ⟨⟨hpru.gone, hpru.kept⟩, ?_, fun key hkey => ?_, fun key hkey => ?_, hdrp.mem⟩
  · exact (hsnd1.dropTags toDelete ancestors).of_lookup (fun _ => rfl) fun _ => rfl
  · have := hlk key
    rwa [if_pos ((hmem _).mpr hkey)] at this
  · have hnot : key.tag ∉ toDelete := fun h => hkey ((hmem _).mp h)
    have hkp : blobs.lookup key = s.blobs.lookup key := by
      rw [hlk key, if_neg hnot]
      exact hdrp.blobs key fun h => hnot (htags key h)
    refine ⟨hkp, fun o ho => hdrp.objs o fun key' hkey' hbd => hnot ?_⟩
    obtain rfl := hs.separate key key' o ho hbd
    exact htags key hkey'

end Deletion

/-- The tag holds a blob, has a child left, or has an alias entry of a tag that is left below it. -/
def Occupied (s s' : State) (x : TagId) : Prop :=
  (∃ key : BlobKey, key.tag = x ∧ s.blobs.lookup key ≠ none) ∨
  (∃ c, s'.tags.parentOf c = some x) ∨
  ∃ y info link leaf, s'.tagInfos.lookup y = some info ∧ link ∈ info.aliases ∧
    parseTagRef link = some (x, leaf)

/-- The tag, its name bindings, its blobs and their contents are as before. -/
structure Untouched (s s' : State) (x : TagId) : Prop where
  info : s'.tagInfos.lookup x = s.tagInfos.lookup x
  names : ∀ key, s'.tagNames.lookup key = some x ↔ s.tagNames.lookup key = some x
  blobs : ∀ key : BlobKey, key.tag = x → s'.blobs.lookup key = s.blobs.lookup key
  objs : ∀ (key : BlobKey) (o : ObjId), key.tag = x → s.blobs.lookup key = some o →
    s'.objs o = s.objs o
  contents : ∀ (key : BlobKey) (sel : ℕ), key.tag = x → blobBytes key sel s' = blobBytes key sel s

/-- The tag `id`, its descendants and their blobs are deleted, and every other tag that is occupied
is untouched. -/
structure TouchesOnlySubtree (id : TagId) (s s' : State) : Prop where
  deleted : ∀ x, s.tags.Has x → Forest.AtOrBelow s.tags.parentOf x id →
    ¬ s'.tags.Has x ∧ (∀ key, s'.tagNames.lookup key ≠ some x) ∧
      ∀ key : BlobKey, key.tag = x → s'.blobs.lookup key = none
  others : ∀ x, s.tags.Has x → ¬ Forest.AtOrBelow s.tags.parentOf x id → Occupied s s' x →
    Untouched s s' x

/-- The path is the canonical name of the tag, no other name is to take its place, and the ancestors
that have no other child hold no blob and no alias entry of a tag that stays. -/
structure SparesOthers (s : State) (id : TagId) (info : TagInfo) (key : String)
    (posixUnlink : Bool) : Prop where
  canonical : key = info.tagName
  last : posixUnlink = true → info.aliases = []
  noBlobs : ∀ x, Relation.TransGen s.tags.OnlyChild id x → ∀ key : BlobKey, key.tag = x →
    s.blobs.lookup key = none
  noLinks : ∀ x, Relation.TransGen s.tags.OnlyChild id x →
    ∀ y yinfo, s.tagInfos.lookup y = some yinfo →
    ¬ Forest.AtOrBelow s.tags.parentOf y id → ¬ Relation.TransGen s.tags.OnlyChild id y →
    ∀ link ∈ yinfo.aliases, ∀ leaf, parseTagRef link ≠ some (x, leaf)

section Deletion

variable {rank : TagId → ℕ} {bound : ℕ} {id top : TagId} {info : TagInfo} {key : String}
  {posixUnlink : Bool}

lemma not_atOrBelow_of_emptied (hrk : Forest.Ranked s.tags.parentOf rank bound) {x : TagId}
    (h : Relation.TransGen s.tags.OnlyChild id x) : ¬ Forest.AtOrBelow s.tags.parentOf x id := by
  have hup : ∃ n, ancestor s.tags.parentOf (n + 1) id = some x := by
    induction h with
    | single h => exact ⟨0, by simp [ancestor, h.parent]⟩
    | tail _ h ih =>
      obtain ⟨n, hn⟩ := ih
      exact ⟨n + 1, by rw [ancestor_succ, hn]; exact h.parent⟩
  rintro ⟨m, hm⟩
  obtain ⟨n, hn⟩ := hup
  have h1 := hrk.rank_add_le hn
  have h2 := hrk.rank_add_le hm
  omega

/-- A deletion touches only its subtree if and only if what goes besides is not occupied. -/
lemma Cascaded.touchesOnlySubtree_iff (h : Cascaded id top s s') (hsound : s.tags.Sound)
    (hrk : Forest.Ranked s.tags.parentOf rank bound)
    (htop : Relation.ReflTransGen s.tags.OnlyChild id top) (hmax : ∀ p, ¬ s.tags.OnlyChild top p)
    (hkey : key = info.tagName) (hls : posixUnlink = true → info.aliases = []) :
    TouchesOnlySubtree id s s' ↔ SparesOthers s id info key posixUnlink := by
  have hbl := atOrBelow_top htop hmax
  constructor
  · intro htc
    -- a tag that goes besides the subtree cannot be occupied
    have hfe : ∀ x, Relation.TransGen s.tags.OnlyChild id x → ¬ Occupied s s' x := by
      intro x hx hocc
      obtain ⟨p, -, hp⟩ := Relation.TransGen.tail'_iff.mp hx
      have hgn := h.tags.gone x ((hbl x).mpr (.inr hx))
      have hkp := (htc.others x hp.has (not_atOrBelow_of_emptied hrk hx) hocc).info
      exact hp.has (hkp.symm.trans hgn)
    refine ⟨hkey, hls, fun x hx k hk => ?_,
      fun x hx y yinfo hy hnot hnot' link hlink leaf hprs => ?_⟩
    · by_contra hne
      exact hfe x hx (.inl ⟨k, hk, hne⟩)
    · have hsta := h.tags.kept y fun hb => ((hbl y).mp hb).elim hnot hnot'
      exact hfe x hx (.inr (.inr ⟨y, yinfo, link, leaf, hsta.trans hy, hlink, hprs⟩))
  · intro hsps
    refine ⟨fun x _ hx => ?_, fun x hhas hx hocc => ?_⟩
    · have hgn := h.tags.gone x ((hbl x).mpr (.inl hx))
      exact ⟨fun hhas => hhas hgn, fun k hk => h.sound.consistent.known k x hk hgn,
        fun k hk => h.gone k (hk ▸ hx)⟩
    · have hsta : ¬ Forest.AtOrBelow s.tags.parentOf x top := by
        intro hb
        have hempt := ((hbl x).mp hb).resolve_left hx
        rcases hocc with ⟨k, hk, hne⟩ | ⟨c, hc⟩ | ⟨y, yinfo, link, leaf, hy, hlink, hprs⟩
        · exact hne (hsps.noBlobs x hempt k hk)
        · have hc' : ¬ Forest.AtOrBelow s.tags.parentOf c top := fun hcb =>
            has_of_parentOf hc (h.tags.gone c hcb)
          exact hc' (hb.of_parent ((h.tags.parentOf_eq hc').symm.trans hc))
        · have hy' : ¬ Forest.AtOrBelow s.tags.parentOf y top := fun hyb =>
            by cases (h.tags.gone y hyb).symm.trans hy
          obtain ⟨hnot, hnot'⟩ := not_or.mp fun hor => hy' ((hbl y).mpr hor)
          exact hsps.noLinks x hempt y yinfo ((h.tags.kept y hy').symm.trans hy) hnot hnot' link
            hlink leaf hprs
      have hin' := h.tags.kept x hsta
      refine ⟨hin', fun k => ?_, fun k hk => (h.kept k (hk ▸ hx)).1,
        fun k o hk ho => (h.kept k (hk ▸ hx)).2 o ho, fun k sel hk => ?_⟩
      · have hnam : s'.tags.namesOf x = s.tags.namesOf x := by
          rw [namesOf, namesOf, hin']
        exact h.sound.consistent.lookup_iff.trans (hnam ▸ hsound.consistent.lookup_iff.symm)
      · obtain ⟨hblob, hobj⟩ := h.kept k (hk ▸ hx)
        rw [blobBytes, hblob, h.mem]
        exact map_congr fun o ho => by rw [hobj o ho]

/-- `DelTag` of a path, once it has decided what to do. -/
lemma delTag_run (wid task : ℕ) {path : String} {fuel : ℕ} {plan : TagTable.DelPlan}
    (hs : Resting s) (hsound : s.tags.Sound) (hrk : Forest.Ranked s.tags.parentOf rank bound)
    (hfound : s.tags.delTarget .null path = some (id, key)) (hin : s.tagInfos.lookup id = some info)
    (hplan : s.tags.delPlan fuel .null path posixUnlink = some plan) : ∃ s',
      (delTag fuel wid task .null path posixUnlink).run s = some (some (0, id), s') ∧
      (TouchesOnlySubtree id s s' ↔ SparesOthers s id info key posixUnlink) := by
  have hbd := lookup_of_delTarget hfound (.inr rfl)
  have hne : key ≠ "" := by
    rintro rfl
    simp [hsound.noEmpty] at hbd
  -- as long as the tag is there, nothing has been deleted
  have hsta : ∀ s', s'.tags.Has id → ¬ TouchesOnlySubtree id s s' := fun s' hhas htc =>
    (htc.deleted id (by simp [TagTable.Has, tags, hin]) (atOrBelow_refl _ _)).1 hhas
  rcases delPlan_cases hplan with ⟨found, -, hno | ⟨key', hfound', hhas⟩⟩ |
    ⟨found, key', info', ancestors, hfound', hin', hchn, hcs⟩
  · simp [hfound] at hno
  · cases hfound.symm.trans hfound'
    exact absurd (by simp [TagTable.Has, tags, hin]) hhas
  cases hfound.symm.trans hfound'
  cases hin.symm.trans hin'
  rcases hcs with ⟨rfl, -, hali⟩ | ⟨new, rest, rfl, hpx, rfl, hrs⟩ |
    ⟨toDelete, rfl, hdel, hkey, hls⟩
  · refine ⟨s.setTags wid (s.tags.unlinkAlias id key), ?_, iff_of_false (hsta _ ?_) fun h => ?_⟩
    · rw [delTag, run_bind, run_act, hplan]
      rfl
    · simp [TagTable.Has, tags, setTags, unlinkAlias, searchDelete, setAliases, hin]
    · exact hali h.canonical
  · refine ⟨s.setTags wid (s.tags.promoteAlias id info.tagName new), ?_,
      iff_of_false (hsta _ ?_) fun h => ?_⟩
    · rw [delTag, run_bind, run_act, hplan]
      rfl
    · simp [TagTable.Has, tags, setTags, promoteAlias, searchDelete, setAliases, setTagName, hin]
    · simp [h.last hpx] at hrs
  · obtain ⟨s1, hbls, top, htop, hmax, hdn⟩ :=
      cascade_run wid task hs hsound hrk hin hchn hdel
    refine ⟨(finishCascade wid toDelete ancestors s1).2, ?_,
      hdn.touchesOnlySubtree_iff hsound hrk htop hmax (hkey.resolve_left hne)
        fun hpx => hls hpx hne⟩
    rw [delTag, run_bind, run_act, hplan]
    simp only [run_bind, run_act, bind_some, hbls]
    rfl

/-- **`DelTag` of a path returns, and touches only its subtree exactly if** the path is the
canonical name of the tag, no other name is to take its place, and no ancestor that loses its only
child holds a blob or an alias entry. -/
theorem touchesOnlySubtree_iff_sparesOthers (wid task : ℕ) (path : String) (posixUnlink : Bool)
    (hs : Resting s)
    (hsound : s.tags.Sound) (hranked : Forest.Ranked s.tags.parentOf rank bound)
    (hfound : s.tags.delTarget .null path = some (id, key))
    (hinfo : s.tagInfos.lookup id = some info) :
    (∃ fuel r s', (delTag fuel wid task .null path posixUnlink).run s = some (some r, s')) ∧
    ∀ fuel r s', (delTag fuel wid task .null path posixUnlink).run s = some (some r, s') →
      r = (0, id) ∧ (TouchesOnlySubtree id s s' ↔ SparesOthers s id info key posixUnlink) := by
  constructor
  · obtain ⟨fuel, plan, hplan⟩ := exists_delPlan hranked .null path posixUnlink
    obtain ⟨s', hs', -⟩ := delTag_run wid task hs hsound hranked hfound hinfo hplan
    exact ⟨fuel, (0, id), s', hs'⟩
  · intro fuel r s' hr
    cases hplan : s.tags.delPlan fuel .null path posixUnlink with
    | none =>
      rw [delTag, run_bind, run_act, hplan] at hr
      simp at hr
    | some plan =>
      obtain ⟨s'', hs'', hiff⟩ := delTag_run wid task hs hsound hranked hfound hinfo hplan
      rw [hs''] at hr
      obtain ⟨rfl, rfl⟩ := hr
      exact ⟨rfl, hiff⟩

end Deletion

/-! ## A directory that holds a blob -/

/-- A container with the tags that the tasks make and a blob of one byte in the tag `0.2`. -/
def State.shelf (tasks : List TagTask) : State :=
  { (State.start [] Env.obliging).setTags 0
      ((runAll (fun t task => task.run 0 t) (TagTable.init 0) tasks).getD (TagTable.init 0)) with
    objs := fun _ => { BlobInfo.new "x" 1 with layout := ⟨[⟨⟨1, 0⟩, 0, 0, 1, 1⟩], 1⟩ }
    nextObj := 1
    blobs := (∅ : AList fun _ : BlobKey => ObjId).insert ⟨⟨0, 2⟩, "x"⟩ 0
    live := [(⟨⟨1, 0⟩, 0, 1⟩, 0)] }

lemma resting_shelf (tasks : List TagTask) : Resting (shelf tasks) := by
  have hkey : ∀ key o, (shelf tasks).blobs.lookup key = some o → key = ⟨⟨0, 2⟩, "x"⟩ := by
    intro key o h
    have hbls : (shelf tasks).blobs = (∅ : AList fun _ : BlobKey => ObjId).insert ⟨⟨0, 2⟩, "x"⟩ 0 :=
      rfl
    by_contra hne
    rw [hbls, lookup_insert_ne hne] at h
    simp at h
  exact ⟨fun _ _ _ => rfl, fun _ _ _ => rfl,
    fun key key' o h h' => (hkey key o h).trans (hkey key' o h').symm⟩

/-- Deleting `/a/b` deletes `/a` too, although it holds a blob. -/
theorem not_touchesOnlySubtree_lastChild : ∃ s',
    (delTag 9 0 0 .null "/a/b" false).run (State.shelf [.getOrCreate "/a/b" .null])
      = some (some (0, ⟨0, 3⟩), s') ∧
    ¬ TouchesOnlySubtree ⟨0, 3⟩ (State.shelf [.getOrCreate "/a/b" .null]) s' := by
  set s := shelf [.getOrCreate "/a/b" .null]
  have hev : ((delTag 9 0 0 .null "/a/b" false).run s).any (fun r =>
      r.1 = some (0, ⟨0, 3⟩) ∧ r.2.tagInfos.lookup ⟨0, 2⟩ = none) = true := by
    decide +kernel
  obtain ⟨⟨r, s'⟩, hrun, hfac⟩ := (Option.any_eq_true _ _).mp hev
  obtain ⟨rfl, hgn⟩ := of_decide_eq_true hfac
  refine ⟨s', hrun, fun h => ?_⟩
  have hhas : s.tags.Has ⟨0, 2⟩ := by decide +kernel
  have hpar : s.tags.parentOf ⟨0, 2⟩ = some ⟨0, 1⟩ ∧ s.tags.parentOf ⟨0, 1⟩ = none := by
    decide +kernel
  have hnot : ¬ Forest.AtOrBelow s.tags.parentOf ⟨0, 2⟩ ⟨0, 3⟩ := by
    rintro ⟨_ | _ | n, hn⟩
    · exact absurd hn (by decide)
    · simp [Forest.ancestor, hpar] at hn
    · simp [Forest.ancestor, hpar] at hn
  have hblob : Occupied s s' ⟨0, 2⟩ := .inl ⟨⟨⟨0, 2⟩, "x"⟩, rfl, by decide +kernel⟩
  exact hhas ((h.others ⟨0, 2⟩ hhas hnot hblob).info.symm.trans hgn)

/-- With another file in the directory, only the file goes. -/
theorem touchesOnlySubtree_oneOfTwo : ∃ fuel r s', (delTag fuel 0 0 .null "/a/b" false).run
      (State.shelf [.getOrCreate "/a/b" .null, .getOrCreate "/a/c" .null]) = some (some r, s') ∧
    TouchesOnlySubtree ⟨0, 3⟩ (State.shelf [.getOrCreate "/a/b" .null, .getOrCreate "/a/c" .null])
    s' := by
  set tasks : List TagTask := [.getOrCreate "/a/b" .null, .getOrCreate "/a/c" .null] with htas
  have hret : (runAll (fun t task => task.run 0 t) (init 0) tasks).isSome = true := by
    decide +kernel
  obtain ⟨t, ht⟩ := Option.isSome_iff_exists.mp hret
  obtain ⟨hns, his⟩ : (State.shelf tasks).tags.names = t.names ∧
      (State.shelf tasks).tags.infos = t.infos := by
    simp [State.shelf, ht, State.tags, State.setTags]
  have hreg : Meets (fun t task => task.run 0 t) (fun t task => task.regular t = true)
      (init 0) tasks := by
    decide +kernel
  have hkee : Meets (fun t task => task.run 0 t) (fun t task => task.keepsTree t = true)
      (init 0) tasks := by
    decide +kernel
  have hpts : ∀ task ∈ tasks, task.OnPaths := by
    intro task htask
    simp only [htas, List.mem_cons, List.not_mem_nil, or_false] at htask
    rcases htask with rfl | rfl <;> exact ⟨by decide, fits_null⟩
  have hsound : t.Sound := runAll_invariant TagTable.Sound
    (fun _ _ _ _ hs hok hstp => hs.run hok hstp) (sound_init 0) hreg ht
  have hpl : t.Planted := runAll_invariant TagTable.Planted
    (fun _ task hmem _ hs hok hstp => hs.run (hpts task hmem) hok hstp)
    (planted_init (by norm_num)) hkee ht
  have hranked : Forest.Ranked (shelf tasks).tags.parentOf t.depth 257 := by
    have hpare : (shelf tasks).tags.parentOf = t.parentOf := by
      funext id
      rw [parentOf, parentOf, his]
    exact hpare ▸ hpl.ranked
  have hch : ∀ p, ¬ (shelf tasks).tags.OnlyChild ⟨0, 3⟩ p := by
    intro p hp
    have hpar : (shelf tasks).tags.parentOf ⟨0, 3⟩ = some ⟨0, 2⟩ ∧
        (shelf tasks).tags.parentOf ⟨0, 4⟩ = some ⟨0, 2⟩ := by
      decide +kernel
    cases hp.parent.symm.trans hpar.1
    exact absurd (hp.only ⟨0, 4⟩ hpar.2) (by decide)
  have hno : ∀ x, ¬ Relation.TransGen (shelf tasks).tags.OnlyChild ⟨0, 3⟩ x := by
    intro x hx
    obtain ⟨p, hp, -⟩ := Relation.TransGen.head'_iff.mp hx
    exact hch p hp
  have hinfo : (shelf tasks).tagInfos.lookup ⟨0, 3⟩ = some ⟨"$tagid\x7b0.2\x7d/b", 0, []⟩ := by
    decide +kernel
  have hfound : (shelf tasks).tags.delTarget .null "/a/b" = some (⟨0, 3⟩,
      "$tagid\x7b0.2\x7d/b") := by
    decide +kernel
  obtain ⟨⟨fuel, r, s', hrun⟩, hall⟩ := touchesOnlySubtree_iff_sparesOthers 0 0 "/a/b" false
    (resting_shelf tasks) (hsound.of_lookup (fun key => by rw [hns]) fun id => by rw [his]) hranked
    hfound hinfo
  exact ⟨fuel, r, s', hrun, (hall fuel r s' hrun).2.mpr
    ⟨rfl, by decide, fun x hx => absurd hx (hno x), fun x hx => absurd hx (hno x)⟩⟩

end ClioCore.Cte
