import ClioCore.Cte.Puts

/-!
# Truncating, deleting and moving a blob under its token

The other tasks that change a blob, from the moment they have the token.  Each of them that gives
extents back drains the readers first.
-/

namespace ClioCore.Cte

open Foundations List BlobInfo Quiet Setting
open SafeBdev (PoolId)

variable {t : TaskId} {o : ObjId} {key : BlobKey} {S : Setting t o key} {b : BlobInfo}
  {bytes : Bytes} {s : State} {sl : Slot}

/-! ## `TruncateBlob` -/

variable (wid idx : ℕ) (newScore : ℚ)

/-- **A truncate**, under the token. -/
lemma truncateLocked_safe (newSize : ℕ) {Q : ℕ → State → Prop} (hS : S.Ready s)
    (h : Mine t o b bytes s) (hb : InOrder b)
    (hfa : ∀ rc b' bytes' s, rc ≠ 0 → S.Ready s → Mine t o b' bytes' s → InOrder b' →
      s.hist.fault = true → Q rc s)
    (hdn : ∀ l content s, S.Ready s →
      Mine t o (b.setSlot .main l) (bytes.setSlot .main content) s → Sized l →
      (newSize < 2 ^ 64 → content = resized newSize bytes.main) →
      S.Ends (fun _ s => Q 0 s) (Co.act (finishTruncate wid key o b.layout.totalSizeCache)) s) :
    S.Ends Q (truncateLocked wid key o newSize) s := by
  refine Safe.bindEnds (.look hS h) hS ?_
  rintro ⟨oldSize, score⟩ s hS ⟨h, hold⟩
  have hsize : oldSize = b.layout.totalSizeCache := by
    rw [← h.info]
    exact congrArg Prod.fst hold
  subst hsize
  refine Safe.bindEnds (resizeBlob_safe newSize score 0 hS h hb.sizes.main hb.draining) hS ?_
  rintro e s hS ⟨l, content, hres⟩
  have hb' : InOrder (b.setSlot .main l) :=
    ⟨⟨hres.sized, hb.sizes.replicas, hb.sizes.staging⟩, hb.staging, hb.draining⟩
  split_ifs with he
  · exact .pure (hfa _ _ _ s (by omega) hS hres.mine hb' (hres.failed he))
  · refine .bind (hdn l content s hS hres.mine hres.sized (hres.done (by omega))) hS ?_
    exact fun _ s _ _ hQ => .pure hQ

/-! ## `DelBlob` -/

/-- The object with the blocks of its replicas moved to the primary. -/
def BlobInfo.folded (b : BlobInfo) : BlobInfo :=
  { b with
    layout := { b.layout with blocks := b.layout.blocks ++ b.replicas.flatMap fun r =>
      r.layout.blocks }
    replicas := b.replicas.map fun r => { r with layout := .empty } }

lemma reshapes_folded (hft : ∀ blk ∈ b.allBlocks, blk.size ≤ blk.capacity) : Reshapes folded b := by
  have hemp : (b.replicas.map fun r => { r with layout := .empty }).flatMap
      (fun r : Replica => r.layout.blocks) = [] := by
    simp [Layout.empty]
  have hall : b.folded.allBlocks = b.allBlocks := by
    simp [allBlocks, folded, hemp]
  exact ⟨fun _ => rfl, fun _ => rfl, rfl, fun h => h, by rw [hall],
    fun blk hblk => hft blk (hall ▸ hblk)⟩

/-- What is left of an object that has given back all its blocks. -/
def BlobInfo.gutted (b : BlobInfo) : BlobInfo :=
  { b with
    layout := .empty
    replicas := b.replicas.map fun r => { r with layout := .empty } }

lemma InOrder.gutted (hb : InOrder b) : InOrder b.gutted :=
  ⟨⟨rfl, fun r hr => by
    obtain ⟨r0, -, rfl⟩ := mem_map.mp hr
    rfl, hb.sizes.staging⟩, hb.staging, hb.draining⟩

/-- **A delete**, under the token, up to the changes of the maps. -/
lemma delLocked_safe {Q : Unit → State → Prop} (hS : S.Ready s) (h : Mine t o b bytes s)
    (hrest : ∀ bytes' s, S.Ready s → Mine t o b.gutted.drained bytes' s →
      S.Ends Q (Co.act (finishDel wid key o b.layout.totalSizeCache) >>= fun _ =>
        Co.act (endDrainReaders o)) s) :
    S.Ends Q (delLocked wid key o) s := by
  refine Safe.bindEnds (.look hS h) hS ?_
  rintro size s hS ⟨h, hsize⟩
  have hsz' : size = b.layout.totalSizeCache := by
    rw [hsize, ← h.info]
    rfl
  subst hsz'
  refine Safe.bindEnds (drainReaders_safe hS h) hS ?_
  intro _ s hS h
  refine Safe.bindEnds (.mine hS h
    (Q := fun _ s => ∃ bytes', Mine t o b.drained.folded bytes' s) fun s hI h => ?_) hS ?_
  · have hq : Quiet key s (foldReplicas o s).2 := modifyObj key s o folded
    obtain ⟨hsec, hmi⟩ := h.update hI (reshapes_folded h.holds.fits) hq rfl
    exact ⟨hsec, _, hmi⟩
  rintro _ s hS ⟨bytes', h⟩
  refine Safe.bindEnds (freeAllBlobBlocks_safe .main hS h rfl) hS ?_
  intro _ s hS h
  exact hrest _ s hS h

/-! ## Placing bytes again -/

/-- One attempt to place the bytes in the empty staging slot. -/
lemma placeOnce_safe (data : Buffer) (size : ℕ) (minPersistence : ℤ) (score : ℚ) (hS : S.Ready s)
    (h : Mine t o b bytes s) (hsg : b.staging = .empty) :
    S.Safe (fun w s => (w ≠ 0 → s.hist.fault = true) ∧ ∃ l content, Sized l ∧
        Mine t o (b.setSlot .staging l) (bytes.setSlot .staging content) s ∧
        (w = 0 → size < 2 ^ 64 → content = readRange data 0 size))
      (placeOnce o data size minPersistence score) s := by
  have hemp : b.slot .staging = .empty := hsg
  have hsz : Sized (b.slot .staging) := by
    rw [hemp]
    rfl
  have hno : bytes.slot .staging = [] := by
    rw [← h.bytes, slot_bytesIn, hemp]
    rfl
  refine .bind (extendBlob_safe 0 size score minPersistence 0 hS h hsz) hS ?_
  rintro e s hS ⟨l, ⟨hl, -, -, junk, h⟩, hsize, hflt⟩
  have hl' : Sized ((b.setSlot .staging l).slot .staging) := hl
  have hlen := h.length_slot hl'
  rw [Bytes.slot_setSlot, slot_setSlot, hno, nil_append] at hlen
  rw [hno, nil_append] at h
  split_ifs with he
  · refine .bind (.look hS h) hS ?_
    rintro blocks s hS ⟨h, rfl⟩
    have hbs : (s.objs o).staging.blocks = ((b.setSlot .staging l).slot .staging).blocks := by
      rw [← h.info]
      rfl
    refine .mono (modifyExistingData_safe data hbs rfl hS h) hS ?_
    rintro w s - ⟨content, -, h, hgl, hbad⟩
    refine ⟨fun hw => hbad (by simpa using hw), l, content, hl, h, fun hw hbd => ?_⟩
    rw [hgl (by simp [hw]) ⟨by omega, le_refl _⟩, Bytes.slot_setSlot]
    refine patch_all data ?_
    rw [hlen, hsize he, hemp, Nat.zero_add, u64, Nat.mod_eq_of_lt hbd]
    exact Nat.zero_max _
  · exact .pure hS ⟨fun _ => hflt he, l, junk, hl, h, by simp⟩

/-- **The attempts to place the bytes.**  If all fail, the staging slot is empty again. -/
lemma placeAttempts_safe (data : Buffer) (size : ℕ) (minPersistence : ℤ) (scores : List ℚ)
    (hS : S.Ready s) (h : Mine t o b bytes s) (hd : b.draining = true) (hsg : b.staging = .empty) :
    S.Safe (fun r s => match r with
        | none => Mine t o b bytes s ∧ (scores ≠ [] → s.hist.fault = true)
        | some (score, last) =>
          score ∈ scores ∧ (last = true ∧ 1 < scores.length → s.hist.fault = true) ∧
          ∃ l content, Sized l ∧
          Mine t o (b.setSlot .staging l) (bytes.setSlot .staging content) s ∧
            (size < 2 ^ 64 → content = readRange data 0 size))
      (placeAttempts o data size minPersistence scores) s := by
  induction scores generalizing s with
  | nil => exact .pure hS ⟨h, absurd rfl⟩
  | cons score scores ih =>
    have hemp : b.slot .staging = .empty := hsg
    have hno : bytes.slot .staging = [] := by
      rw [← h.bytes, slot_bytesIn, hemp]
      rfl
    refine .bind (placeOnce_safe data size minPersistence score hS h hsg) hS ?_
    rintro w s hS ⟨hw, l, content, hl, h, hgl⟩
    split_ifs with hw0
    · refine .pure hS ⟨mem_cons_self, fun hls => ?_, l, content, hl, h, hgl hw0⟩
      obtain ⟨hls, hlen⟩ := hls
      simp [isEmpty_iff.mp hls] at hlen
    · have hd' : (b.setSlot .staging l).draining = true := hd
      refine .bind (.fault (freeAllBlobBlocks_safe .staging hS h hd') (hw hw0)) hS ?_
      rintro _ s hS ⟨h, hf⟩
      rw [setSlot_setSlot, Bytes.setSlot_setSlot, ← hemp, ← hno] at h
      refine .mono (.fault (ih hS h) hf) hS ?_
      rintro r s - ⟨hr, hf⟩
      cases r with
      | none => exact ⟨hr.1, fun _ => hf⟩
      | some r =>
        obtain ⟨hmem, -, hrest⟩ := hr
        exact ⟨mem_cons_of_mem _ hmem, fun _ => hf, hrest⟩

/-! ## `ReorganizeBlob` -/

/-- **`ClearBlob`** on a drained object. -/
lemma clearBlob_safe (score : ℚ) (offset : ℕ) (hS : S.Ready s) (h : Mine t o b bytes s)
    (hd : b.draining = true) :
    S.Safe (fun cleared s => if cleared then
        Mine t o (b.setSlot .main .empty) (bytes.setSlot .main []) s else Mine t o b bytes s)
      (clearBlob o score offset) s := by
  refine .bind (.look hS h) hS ?_
  rintro size s hS ⟨h, -⟩
  split_ifs
  · exact .pure hS h
  · refine .bind (freeAllBlobBlocks_safe .main hS h hd) hS ?_
    exact fun _ s hS h => .pure hS h

/-- The staged layout becomes the primary. -/
def BlobInfo.placed (b : BlobInfo) (score : ℚ) : BlobInfo :=
  { b with layout := b.staging, staging := .empty, score := score }

lemma Mine.publishPlacement (hI : Inv s) (h : Mine t o b bytes s) (hmn : b.layout.blocks = [])
    (wid : ℕ) (score : ℚ) :
    Section t o key s (publishPlacement wid key o score s).2 ∧
      Mine t o (b.placed score) ⟨bytes.staging, bytes.replicas, []⟩
        (publishPlacement wid key o score s).2 := by
  have hpm : (b.placed score).allBlocks.Perm b.allBlocks := by
    simp only [allBlocks, placed, hmn, Layout.empty, nil_append, append_nil]
    exact perm_append_comm
  have hf : Reshapes (fun x => x.placed score) b := ⟨fun _ => rfl, fun _ => rfl, rfl, fun h => h,
    hpm.map _, fun blk hblk => h.holds.fits blk (hpm.mem_iff.mp hblk)⟩
  have hq : Quiet key s (Cte.publishPlacement wid key o score s).2 :=
    ((modifyObj key s o fun x => x.placed score).trans (logBlob key _ wid _)).trans
      (mirrorBlobToShm key _)
  obtain ⟨hsec, hmi⟩ := h.update hI hf hq rfl
  refine ⟨hsec, ?_⟩
  have hby : bytesIn s.mem (b.placed score) = ⟨bytes.staging, bytes.replicas, []⟩ := by
    rw [← h.bytes]
    rfl
  exact hby ▸ hmi

/-- The object with another score. -/
def BlobInfo.scored (b : BlobInfo) (score : ℚ) : BlobInfo := { b with score := score }

/-- How a move of the drained primary ends: nothing has been done, all attempts to place the bytes
have failed and they are lost, or they have been placed. -/
inductive Replaced (t : TaskId) (o : ObjId) (b : BlobInfo) (bytes : Bytes)
    (data : Buffer) (size : ℕ) (rc : ℕ) (s : State) : Prop
  | unchanged (hrc : rc = 6) (mine : Mine t o b bytes s)
  | lost (hrc : rc = 7) (fault : s.hist.fault = true)
      (mine : Mine t o (b.setSlot .main .empty) (bytes.setSlot .main []) s)
  | placed (l : Layout) (content : List UInt8) (score : ℚ) (fault : rc ≠ 0 → s.hist.fault = true)
      (sized : Sized l) (mine :
        Mine t o ((b.setSlot .main l).scored score) (bytes.setSlot .main content) s)
      (goal : size < 2 ^ 64 → content = readRange data 0 size)

lemma replacePrimary_safe (currentScore newScore : ℚ) (data : Buffer) (size : ℕ)
    (hS : S.Ready s) (h : Mine t o b bytes s) (hd : b.draining = true) (hsg : b.staging = .empty) :
    S.Safe (Replaced t o b bytes data size)
      (replacePrimary wid key o currentScore newScore data size) s := by
  have hno : bytes.staging = [] := by
    rw [← h.bytes, bytesIn, hsg]
    rfl
  refine .bind (clearBlob_safe currentScore 0 hS h hd) hS ?_
  intro cleared s hS hclr
  cases cleared with
  | false => exact .pure hS (.unchanged rfl hclr)
  | true =>
    have h : Mine t o (b.setSlot .main .empty) (bytes.setSlot .main []) s := hclr
    refine .bind (.mine hS h
      (Q := fun _ s => Mine t o (b.setSlot .main .empty) (bytes.setSlot .main []) s)
      fun s hI h => h.quiet hI (mirrorBlobToShm key s) rfl) hS ?_
    intro _ s hS h
    refine .bind (placeAttempts_safe data size 0 [newScore, newScore, currentScore] hS h hd hsg) hS
      ?_
    intro r s hS hr
    cases r with
    | none => exact .pure hS (.lost rfl (hr.2 (by simp)) hr.1)
    | some r =>
      obtain ⟨score, last⟩ := r
      obtain ⟨-, hls, l, content, hl, h, hgl⟩ := hr
      refine .bind (.faultIf (.mine hS h
        (Q := fun _ s => Mine t o ((b.setSlot .main l).scored score)
          (bytes.setSlot .main content) s)
        fun s hI h => ?_) fun h : last = true => hls ⟨h, by simp⟩) hS ?_
      · obtain ⟨hsec, hmi⟩ := h.publishPlacement hI rfl wid score
        have hobj : ((b.setSlot .main .empty).setSlot .staging l).placed score
            = (b.setSlot .main l).scored score := by
          simp [setSlot, placed, scored, hsg]
        have hby : (⟨content, bytes.replicas, []⟩ : Bytes) = bytes.setSlot .main content := by
          simp [Bytes.setSlot, hno]
        rw [← hobj, ← hby]
        exact ⟨hsec, hmi⟩
      · rintro _ s hS ⟨h, hf⟩
        refine .pure hS (.placed l content score (fun hrc => hf ?_) hl h hgl)
        by_contra hne
        exact hrc (by simp [hne])

/-- How a move of the primary ends: the bytes are still there, or they are lost. -/
inductive Moved (t : TaskId) (o : ObjId) (b : BlobInfo) (bytes : Bytes) (rc : ℕ) (s : State) : Prop
  | kept (b' : BlobInfo) (content : List UInt8) (fault : rc ≠ 0 → s.hist.fault = true ∨ rc = 6)
      (mine : Mine t o b' (bytes.setSlot .main content) s) (inOrder : InOrder b')
      (replicas : b'.replicas = b.replicas)
      (goal : bytes.main.length < 2 ^ 64 → content = bytes.main)
  | lost (hrc : rc = 7) (fault : s.hist.fault = true)
      (mine : Mine t o (b.setSlot .main .empty) (bytes.setSlot .main []) s)

lemma InOrder.setMain (hb : InOrder b) {l : Layout} (hl : Sized l) : InOrder (b.setSlot .main l) :=
  ⟨⟨hl, hb.sizes.replicas, hb.sizes.staging⟩, hb.staging, hb.draining⟩

/-- **A move of the primary**, under the token. -/
lemma movePrimary_safe (currentScore newScore : ℚ) (hS : S.Ready s) (h : Mine t o b bytes s)
    (hb : InOrder b) :
    S.Safe (Moved t o b bytes)
      (movePrimary wid key o currentScore newScore b.layout.totalSizeCache) s := by
  have hlen : bytes.main.length = b.layout.totalSizeCache := by
    have hsz : Sized (b.slot .main) := hb.sizes.main
    exact h.length_slot hsz
  rw [← hlen]
  refine .bind (allocateBuffer_safe hS h) hS ?_
  rintro ok s hS ⟨h, hok⟩
  cases ok with
  | false =>
    exact .pure hS (.kept b bytes.main (fun _ => .inl (hok rfl)) h hb rfl fun _ => rfl)
  | true =>
    refine .bind (.look hS h) hS ?_
    rintro blocks s hS ⟨h, rfl⟩
    have hct : ∀ m, bytesIn m b = bytes → bytesOf m (s.objs o).layout.blocks = bytes.main := by
      intro m hm
      rw [← hm, ← h.info]
      rfl
    refine .bind (Mine.readData_safe 0 bytes.main.length (fun _ => 0) hct hS h) hS ?_
    rintro ⟨rc, data⟩ s hS ⟨h, hbad, hdt⟩
    by_cases hrc : rc = 0
    · subst hrc
      have hrd : bytes.main.length < 2 ^ 64 → readRange data 0 bytes.main.length = bytes.main := by
        intro hbd
        have hd : data = _ := hdt rfl (by rwa [Nat.zero_add])
        rw [hd, readRange_eq_iff]
        refine ⟨rfl, fun i hi => ?_⟩
        rw [readInto, if_pos, Nat.zero_add, Nat.zero_add, getD_eq_getElem _ _ hi]
        simpa [covered] using hi
      refine .bind (drainReaders_safe hS h) hS ?_
      intro _ s hS h
      refine .bind (replacePrimary_safe wid currentScore newScore data bytes.main.length hS h
        rfl hb.staging) hS ?_
      intro rc s hS hrep
      cases hrep with
      | unchanged hrc h =>
        refine .bind (endDrainReaders_safe hS h) hS ?_
        intro _ s hS h
        rw [undrained_drained hb.draining] at h
        exact .pure hS (.kept b bytes.main (fun _ => .inr hrc) h hb rfl fun _ => rfl)
      | lost hrc hf h =>
        refine .bind (.fault (endDrainReaders_safe hS h) hf) hS ?_
        rintro _ s hS ⟨h, hf⟩
        rw [undrained_setSlot_drained hb.draining] at h
        exact .pure hS (.lost hrc hf h)
      | placed l content score hf hl h hgl =>
        refine .bind (.faultIf (endDrainReaders_safe hS h) hf) hS ?_
        rintro _ s hS ⟨h, hf⟩
        have hobj : ((b.drained.setSlot .main l).scored score).undrained
            = (b.setSlot .main l).scored score := by
          rw [← undrained_setSlot_drained hb.draining]
          rfl
        rw [hobj] at h
        have hb' : InOrder ((b.setSlot .main l).scored score) := by
          have hset := hb.setMain hl
          exact ⟨⟨hset.sizes.main, hset.sizes.replicas, hset.sizes.staging⟩, hset.staging,
            hset.draining⟩
        exact .pure hS (.kept _ content (fun hrc => .inl (hf hrc)) h hb' rfl
          fun hbd => (hgl hbd).trans (hrd hbd))
    · rw [if_pos hrc]
      exact .pure hS (.kept b bytes.main (fun _ => .inl (hbad hrc)) h hb rfl fun _ => rfl)

/-- **`ReorganizeBlobInternal`**, under the token, up to the change of the tag when the primary
gives way. -/
lemma reorganizeLocked_safe {Q : ℕ → State → Prop} (hS : S.Ready s)
    (h : Mine t o b bytes s) (hb : InOrder b)
    (hno : ∀ s, S.Ready s → Mine t o b bytes s → Q 0 s)
    (hmove : ∀ rc s, S.Ready s → Moved t o b bytes rc s → Q rc s)
    (hdr : ∀ s, S.Ready s → Mine t o (b.drained.setSlot .main .empty) (bytes.setSlot .main []) s →
      S.Ends Q (Co.act (finishDrop wid key o newScore b.layout.totalSizeCache) >>= fun _ =>
        Co.act (endDrainReaders o) >>= fun _ => pure 0) s) :
    S.Ends Q (reorganizeLocked wid key o newScore) s := by
  refine Safe.bindEnds (.look hS h) hS ?_
  rintro info s hS ⟨h, rfl⟩
  have hlayo : (s.objs o).layout = b.layout := by
    rw [← h.info]
    rfl
  generalize (s.objs o) = info at *
  refine Safe.bindEnds (.look hS h) hS ?_
  rintro threshold s hS ⟨h, -⟩
  rw [hlayo]
  split_ifs
  · exact .pure (hno s hS h)
  · refine Safe.bindEnds (drainReaders_safe hS h) hS ?_
    intro _ s hS h
    refine Safe.bindEnds (freeAllBlobBlocks_safe .main hS h rfl) hS ?_
    exact fun _ s hS h => hdr s hS h
  · exact Safe.ends (movePrimary_safe wid _ newScore hS h hb) hS fun rc s hS h => hmove rc s hS h

/-! ## `ReorganizeBlob` of a replica, and reclaiming the cache -/

lemma Mine.lendBlocks (hI : Inv s) (h : Mine t o b bytes s) {idx : ℕ}
    (hidx : idx - 1 < b.replicas.length) (hsg : b.staging = .empty) :
    Section t o key s (lendBlocks o idx s).2 ∧
      ∃ bytes', Mine t o (b.lend idx id) bytes' (lendBlocks o idx s).2 ∧
      bytes'.main = bytes.main := by
  have hq : Quiet key s (Cte.lendBlocks o idx s).2 := modifyObj key s o (·.lend idx id)
  obtain ⟨hsec, hmi⟩ := h.update hI (reshapes_lend hidx (by rw [hsg]; rfl) h.holds.fits) hq rfl
  rw [bytesIn_lend, h.bytes] at hmi
  exact ⟨hsec, _, hmi, rfl⟩

lemma Mine.publishMove (hI : Inv s) (h : Mine t o b bytes s) {idx : ℕ}
    (hidx : idx - 1 < b.replicas.length) (hemp : (b.replica idx).layout.blocks = []) (wid : ℕ)
    (score : ℚ) :
    Section t o key s (publishMove wid key o idx score s).2 ∧
      ∃ bytes', Mine t o (b.publish idx fun r => { r with score := score }) bytes'
        (publishMove wid key o idx score s).2 ∧ bytes'.main = bytes.main := by
  have hq : Quiet key s (Cte.publishMove wid key o idx score s).2 :=
    (modifyObj key s o (·.publish idx fun r => { r with score := score })).trans
      (logBlob key _ wid _)
  obtain ⟨hsec, hmi⟩ := h.update hI
    (reshapes_publish (m := fun r => { r with score := score }) hidx hemp h.holds.fits) hq rfl
  rw [bytesIn_publish, h.bytes] at hmi
  exact ⟨hsec, _, hmi, rfl⟩

/-- A replica that has lost its blocks is in order. -/
lemma InOrder.lend (hb : InOrder b) {idx : ℕ} {m : Replica → Replica} :
    InOrder ((b.lend idx m).setSlot .staging .empty) where
  sizes :=
    { main := hb.sizes.main
      replicas := by
        intro r hr
        rcases mem_modify hr with hr | ⟨r0, rfl⟩
        · exact hb.sizes.replicas r hr
        · rfl
      staging := rfl }
  staging := rfl
  draining := hb.draining

/-- A task that has only touched replicas, once the drain has ended. -/
def PrimaryHeld (t : TaskId) (o : ObjId) (b : BlobInfo) (bytes : Bytes) (s : State) : Prop :=
  ∃ b' bytes', Mine t o b' bytes' s ∧ InOrder b' ∧ b'.primary = b.primary ∧ bytes'.main = bytes.main

lemma endDrain_primaryHeld {b' : BlobInfo} {bytes' : Bytes} (hS : S.Ready s)
    (h : Mine t o b' bytes' s)
    (hb' : InOrder b'.undrained) (hprim : b'.undrained.primary = b.primary)
    (hmn : bytes'.main = bytes.main) :
    S.Safe (fun _ s => PrimaryHeld t o b bytes s) (Co.act (endDrainReaders o)) s :=
  Safe.mono (endDrainReaders_safe hS h) hS fun _ _ _ h => ⟨_, _, h, hb', hprim, hmn⟩

/-- The drained replica is freed and placed again. -/
lemma replaceReplica_safe (currentScore newScore : ℚ) (data : Buffer) (size : ℕ)
    (hS : S.Ready s) (h : Mine t o b.drained bytes s) (hb : InOrder b)
    (hidx : idx - 1 < b.replicas.length) :
    S.Safe (fun _ s => ∃ b' bytes', Mine t o b' bytes' s ∧ InOrder b'.undrained ∧
        b'.undrained.primary = b.primary ∧ bytes'.main = bytes.main)
      (replaceReplica wid key o idx currentScore newScore data size) s := by
  have hprim : ∀ b' : BlobInfo, b'.primary = b.drained.primary →
      b'.undrained.primary = b.primary := by
    intro b' h
    have hu := congrArg undrained h
    rwa [← undrained_drained hb.draining]
  refine .bind (.mine hS h
    (Q := fun _ s => ∃ bytes', Mine t o (b.drained.lend idx id) bytes' s ∧ bytes'.main = bytes.main)
    fun s hI h => h.lendBlocks hI hidx hb.staging) hS ?_
  rintro _ s hS ⟨bytes1, h, hmn⟩
  refine .bind (freeAllBlobBlocks_safe .staging hS h rfl) hS ?_
  intro _ s hS h
  refine .bind (.look hS h) hS ?_
  rintro level s hS ⟨h, -⟩
  have hlent : InOrder ((b.lend idx id).setSlot .staging .empty) := hb.lend
  refine .bind (placeAttempts_safe data size level [newScore, newScore, currentScore] hS h rfl rfl)
    hS ?_
  intro r s hS hr
  cases r with
  | none =>
    refine .pure hS ⟨_, _, hr.1, ?_, hprim _ rfl, hmn⟩
    exact ⟨⟨hlent.sizes.main, hlent.sizes.replicas, hlent.sizes.staging⟩, rfl, rfl⟩
  | some r =>
    obtain ⟨score, last⟩ := r
    obtain ⟨-, -, l, content, hl, h, -⟩ := hr
    rw [setSlot_setSlot] at h
    have hlen : ((b.drained.lend idx id).setSlot .staging l).replicas.length = b.replicas.length :=
      length_modify ..
    refine .bind (.mine hS h (Q := fun _ s => ∃ bytes', Mine t o
        (((b.drained.lend idx id).setSlot .staging l).publish idx fun r =>
          { r with score := score })
        bytes' s ∧ bytes'.main = bytes.main) fun s hI h => ?_) hS ?_
    · have hemp : (((b.drained.lend idx id).setSlot .staging l).replica idx).layout.blocks =
          [] := by
        rw [replica, getD_eq_getElem _ _ (by omega)]
        simp [setSlot, lend, modifyReplica, Layout.empty]
      obtain ⟨hsec, bytes', h, hm⟩ := h.publishMove hI (by omega) hemp wid score
      exact ⟨hsec, bytes', h, hm.trans hmn⟩
    rintro _ s hS ⟨bytes', h, hm⟩
    have hpub : InOrder (((b.lend idx id).setSlot .staging l).publish idx
      fun r => { r with score := score }) := hb.publish_lend hl
    refine .pure hS ⟨_, _, h, ?_, hprim _ rfl, hm⟩
    exact ⟨⟨hpub.sizes.main, hpub.sizes.replicas, hpub.sizes.staging⟩, rfl, rfl⟩

/-- **A move of a replica**, under the token. -/
lemma moveReplica_safe (currentScore newScore : ℚ) (size : ℕ) (hS : S.Ready s)
    (h : Mine t o b bytes s) (hb : InOrder b) (hidx : idx - 1 < b.replicas.length) :
    S.Safe (fun _ s => PrimaryHeld t o b bytes s)
      (moveReplica wid key o idx currentScore newScore size) s := by
  refine .bind (allocateBuffer_safe hS h) hS ?_
  rintro ok s hS ⟨h, -⟩
  cases ok with
  | false => exact .pure hS ⟨b, bytes, h, hb, rfl, rfl⟩
  | true =>
    refine .bind (.look hS h) hS ?_
    rintro blocks s hS ⟨h, rfl⟩
    have hrep : (s.objs o).replica idx = b.replica idx := by
      rw [← h.info]
      rfl
    have hct : ∀ m, bytesIn m b = bytes →
        bytesOf m ((s.objs o).replica idx).layout.blocks = bytes.replicas.getD (idx - 1) [] := by
      intro m hm
      rw [hrep, ← hm, replica_bytesIn]
    refine .bind (Mine.readData_safe 0 size (fun _ => 0) hct hS h) hS ?_
    rintro ⟨rc, data⟩ s hS ⟨h, -, -⟩
    by_cases hrc : rc = 0
    · rw [if_neg (by simpa using hrc)]
      refine .bind (drainReaders_safe hS h) hS ?_
      intro _ s hS h
      refine .bind (replaceReplica_safe wid idx currentScore newScore data size hS h hb hidx) hS ?_
      rintro rc s hS ⟨b', bytes', h, hb', hprim, hmn⟩
      refine .bind (endDrain_primaryHeld hS h hb' hprim hmn) hS ?_
      exact fun _ s hS h => .pure hS h
    · rw [if_pos (by simpa using hrc)]
      exact .pure hS ⟨b, bytes, h, hb, rfl, rfl⟩

/-- A new score for a replica. -/
def BlobInfo.scoredReplica (b : BlobInfo) (idx : ℕ) (score : ℚ) : BlobInfo :=
  b.modifyReplica idx fun r => { r with score := score }

lemma Mine.scoreReplica (hI : Inv s) (h : Mine t o b bytes s) (hb : InOrder b) (idx : ℕ)
    (score : ℚ) : Section t o key s (s.modifyObj o (·.scoredReplica idx score)) ∧
      PrimaryHeld t o b bytes (s.modifyObj o (·.scoredReplica idx score)) := by
  have hlays : (b.scoredReplica idx score).replicas.map Replica.layout =
      b.replicas.map Replica.layout := by
    apply ext_getElem?
    intro i
    simp only [scoredReplica, modifyReplica, getElem?_map, getElem?_modify]
    split_ifs <;> cases b.replicas[i]? <;> rfl
  have hreps : (b.scoredReplica idx score).replicas.flatMap (fun r => r.layout.blocks)
      = b.replicas.flatMap fun r => r.layout.blocks := by
    have hjoin := congrArg (fun ls => (ls.map Layout.blocks).flatten) hlays
    simpa only [map_map, flatMap_def, Function.comp_def] using hjoin
  have hbs : (b.scoredReplica idx score).allBlocks = b.allBlocks := by
    rw [allBlocks, hreps]
    rfl
  have hf : Reshapes (·.scoredReplica idx score) b :=
    ⟨fun _ => rfl, fun _ => rfl, rfl, fun h => h, by rw [hbs], by rw [hbs]; exact h.holds.fits⟩
  obtain ⟨hsec, hmi⟩ := h.update hI hf (modifyObj key s o (·.scoredReplica idx score)) rfl
  refine ⟨hsec, _, _, hmi, ⟨⟨hb.sizes.main, ?_, hb.sizes.staging⟩, hb.staging, hb.draining⟩, rfl,
    ?_⟩
  · intro r hr
    have hmem : r.layout ∈ b.replicas.map Replica.layout := hlays ▸ mem_map_of_mem hr
    obtain ⟨r', hr', hlay⟩ := mem_map.mp hmem
    rw [← hlay]
    exact hb.sizes.replicas r' hr'
  · rw [← h.bytes]
    rfl

/-- **`ReorganizeReplicaInternal`**, under the token. -/
lemma reorganizeReplicaLocked_safe (hS : S.Ready s) (h : Mine t o b bytes s) (hb : InOrder b) :
    S.Safe (fun _ s => PrimaryHeld t o b bytes s)
      (reorganizeReplicaLocked wid key o idx newScore) s := by
  refine .bind (.look hS h) hS ?_
  rintro info s hS ⟨h, rfl⟩
  have hrep : (s.objs o).replica idx = b.replica idx := by
    rw [← h.info]
    rfl
  generalize s.objs o = info at *
  refine .bind (.look hS h) hS ?_
  rintro threshold s hS ⟨h, -⟩
  refine .bind (.look hS h) hS ?_
  rintro evacuating s hS ⟨h, -⟩
  rw [hrep]
  simp only
  generalize (if 0 ≤ (b.replica idx).minScore ∧ newScore < (b.replica idx).minScore then
    (b.replica idx).minScore else newScore) = target
  generalize (if 0 ≤ (b.replica idx).score then (b.replica idx).score else info.score) = current
  split_ifs with _ _ hsize
  · exact .pure hS ⟨b, bytes, h, hb, rfl, rfl⟩
  · exact .pure hS ⟨b, bytes, h, hb, rfl, rfl⟩
  · refine .bind (.mine hS h
      (Q := fun _ s => PrimaryHeld t o b bytes s) fun s hI h => h.scoreReplica hI hb idx target) hS
      ?_
    exact fun _ s hS h => .pure hS h
  · refine moveReplica_safe wid idx _ _ _ hS h hb ?_
    -- an absent replica has no bytes
    by_contra hge
    exact hsize (by rw [replica, getD_eq_default _ _ (by omega)]; rfl)

/-- **`ReclaimCacheReplica`**, under the token. -/
lemma reclaimLocked_safe (hS : S.Ready s) (h : Mine t o b bytes s) (hb : InOrder b) :
    S.Safe (fun _ s => PrimaryHeld t o b bytes s) (reclaimLocked wid key o) s := by
  refine .bind (.look hS h) hS ?_
  rintro replicas s hS ⟨h, rfl⟩
  have hrs : (s.objs o).replicas = b.replicas := by
    rw [← h.info]
    rfl
  rw [hrs]
  have hle := cacheReplicaIndex_le b.replicas
  generalize cacheReplicaIndex b.replicas = idx at *
  simp only
  split_ifs with hskip
  · exact .pure hS ⟨b, bytes, h, hb, rfl, rfl⟩
  · have hidx : idx - 1 < b.replicas.length := by omega
    refine .bind (drainReaders_safe hS h) hS ?_
    intro _ s hS h
    refine .bind (.mine hS h
      (Q := fun _ s => ∃ bytes', Mine t o (b.drained.lend idx id) bytes' s ∧
        bytes'.main = bytes.main)
      fun s hI h => h.lendBlocks hI hidx hb.staging) hS ?_
    rintro _ s hS ⟨bytes1, h, hmn⟩
    refine .bind (freeAllBlobBlocks_safe .staging hS h rfl) hS ?_
    intro _ s hS h
    refine .bind (.mine hS h
      (Q := fun _ s => Mine t o ((b.drained.lend idx id).setSlot .staging .empty)
        (bytes1.setSlot .staging []) s) fun s hI h => ?_) hS ?_
    · exact h.quiet hI ((logBlob key s wid _).trans (mirrorBlobToShm key _)) rfl
    intro _ s hS h
    have hlent : InOrder ((b.lend idx id).setSlot .staging .empty) := hb.lend
    refine endDrain_primaryHeld hS h
      ⟨⟨hlent.sizes.main, hlent.sizes.replicas, hlent.sizes.staging⟩, rfl, rfl⟩ ?_ hmn
    have hprim := congrArg primary (undrained_drained hb.draining)
    exact hprim

end ClioCore.Cte
