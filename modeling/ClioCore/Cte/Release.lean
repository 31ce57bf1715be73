import ClioCore.Cte.Growth

/-!
# Giving space back

Draining the readers, freeing all blocks of a slot, and `ResizeBlob`, which shrinks a blob under the
drain and grows it with zeros.
-/

namespace ClioCore.Cte

open Foundations List BlobInfo BlobBlock
open SafeBdev (PoolId)

variable {t : TaskId} {o : ObjId} {key : BlobKey} {S : Setting t o key} {b cur : BlobInfo}
  {bytes : Bytes} {s : State} {sl : Slot}

/-! ## Draining -/

/-- The object with the drain bit set. -/
def BlobInfo.drained (b : BlobInfo) : BlobInfo := { b with draining := true }

/-- The object with the drain bit cleared. -/
def BlobInfo.undrained (b : BlobInfo) : BlobInfo := { b with draining := false }

lemma BlobInfo.undrained_setSlot_drained (h : b.draining = false) {l : Layout} :
    (b.drained.setSlot sl l).undrained = b.setSlot sl l := by
  cases b
  cases sl <;> simp_all [drained, undrained, setSlot]

lemma BlobInfo.undrained_drained (h : b.draining = false) : b.drained.undrained = b := by
  cases b
  simp_all [drained, undrained]

/-- Task `t` holds the token of `o` and waits for the readers to leave. -/
structure Waiting (t : TaskId) (o : ObjId) (b : BlobInfo) (bytes : Bytes) (s : State) : Prop where
  info : (s.objs o).unpinned = b.drained
  owner : b.writeOwner = some t
  holds : Holds s o b []
  bytes : bytesIn s.mem b = bytes

lemma Waiting.writeOwner (h : Waiting t o b bytes s) : (s.objs o).writeOwner = some t := by
  have hfl := congrArg BlobInfo.writeOwner h.info
  exact hfl.trans h.owner

lemma Waiting.stable {s' : State} (h : Waiting t o b bytes s) (hR : Rely t s s') :
    Waiting t o b bytes s' where
  info := (hR.blob o h.writeOwner).info.trans h.info
  owner := h.owner
  holds := (hR.blob o h.writeOwner).holds hR.leaked h.holds
  bytes := ((hR.blob o h.writeOwner).bytesIn h.holds).trans h.bytes

/-- Once the readers are gone, the object is drained. -/
lemma Waiting.mine (h : Waiting t o b bytes s) (hpins : (s.objs o).pins = 0) :
    Mine t o b.drained bytes s where
  info := h.info
  owner := h.owner
  pins _ := hpins
  holds := h.holds.perm h.holds.fits (Perm.refl _)
  bytes := h.bytes

lemma Mine.beginDrainReaders (hI : Inv s) (h : Mine t o b bytes s) :
    Section t o key s (beginDrainReaders o s).2 ∧
    Waiting t o b bytes (beginDrainReaders o s).2 := by
  have hq : Quiet key s (Cte.beginDrainReaders o s).2 :=
    Quiet.modifyObj key s o drained
  have hob : (Cte.beginDrainReaders o s).2.objs = Function.update s.objs o (s.objs o).drained := rfl
  have hlc : Local t o key s (Cte.beginDrainReaders o s).2 :=
    Local.of_quiet hq hob h.writeOwner h.writeOwner rfl
  refine ⟨⟨hlc.toFrame.inv hI hI.live ?_ ?_, hlc, FreeSafe.refl _⟩, ?_⟩
  · intro hd
    rw [hob] at hd
    simp [drained] at hd
  · intro r hr ho blk hblk
    exact ho ▸ hI.reading r hr blk hblk
  · exact
      { info := by
          rw [hob, Function.update_self, ← h.info]
          rfl
        owner := h.owner
        holds := h.holds.quiet hq
        bytes := h.bytes }

/-- **`BeginDrainReaders` and the polling of `HasReadPins`.** -/
lemma drainReaders_safe (hS : S.Ready s) (h : Mine t o b bytes s) :
    S.Safe (fun _ s => Mine t o b.drained bytes s) (drainReaders o) s := by
  refine .bind (.mine hS h (Q := fun _ s => Waiting t o b bytes s)
    fun s hI h => h.beginDrainReaders hI) hS ?_
  intro _ s hS h
  refine .await (fun _ h => h.writeOwner) (fun _ _ hR h => h.stable hR) hS h fun s hI h hrdy => ?_
  have hmi := h.mine (by simpa using hrdy)
  exact ⟨(hmi.quiet hI (.refl key s) rfl).1, hmi⟩

lemma Mine.endDrainReaders (key : BlobKey) (hI : Inv s) (h : Mine t o b bytes s) :
    Section t o key s (endDrainReaders o s).2 ∧
    Mine t o b.undrained bytes (endDrainReaders o s).2 := by
  have hf : Reshapes undrained b :=
    ⟨fun _ => rfl, fun _ => rfl, rfl, by simp [undrained],
      Perm.refl _, h.holds.fits⟩
  have hq : Quiet key s (Cte.endDrainReaders o s).2 :=
    Quiet.modifyObj key s o undrained
  obtain ⟨hsec, hmi⟩ := h.update hI hf hq rfl
  exact ⟨hsec, h.bytes ▸ hmi⟩

/-- `EndDrainReaders` -/
lemma endDrainReaders_safe (hS : S.Ready s) (h : Mine t o b bytes s) :
    S.Safe (fun _ s => Mine t o b.undrained bytes s) (Co.act (endDrainReaders o)) s :=
  Setting.Safe.mine hS h fun _ hI h => h.endDrainReaders key hI

/-! ## Freeing -/

/-- Sorting a list into groups loses nothing. -/
lemma flatMap_filter_perm {α β : Type*} [DecidableEq β] (f : α → β) {ks : List β} (hks : ks.Nodup)
    {l : List α} (h : ∀ x ∈ l, f x ∈ ks) :
    (ks.flatMap fun k => l.filter fun x => f x = k).Perm l := by
  induction ks generalizing l with
  | nil =>
    have hnil : l = [] := eq_nil_iff_forall_not_mem.mpr fun x hx => not_mem_nil (h x hx)
    rw [hnil]
    exact Perm.refl _
  | cons k ks ih =>
    obtain ⟨hk, hks⟩ := nodup_cons.mp hks
    have hrs : (ks.flatMap fun k' => l.filter fun x => f x = k')
        = ks.flatMap fun k' => (l.filter fun x => !decide (f x = k)).filter fun x => f x = k' := by
      refine flatMap_congr fun k' hk' => ?_
      rw [filter_filter]
      refine filter_congr fun x _ => ?_
      have hne : k' ≠ k := fun h => hk (h ▸ hk')
      by_cases hx : f x = k'
      · simp [hx, hne]
      · simp [hx]
    rw [flatMap_cons, hrs]
    refine Perm.trans (Perm.append_left _ (ih hks ?_))
      (filter_append_perm (fun x => decide (f x = k)) l)
    intro x hx
    obtain ⟨hx, hne⟩ := mem_filter.mp hx
    exact (mem_cons.mp (h x hx)).resolve_left (by simpa using hne)

/-- The groups of `blocks_by_pool` are the extents of the blocks. -/
lemma blocksByPool_perm (blocks : List BlobBlock) :
    ((blocksByPool blocks).flatMap Prod.snd).Perm (blocks.map extent) := by
  have hgro := flatMap_filter_perm pool (nodup_dedup (blocks.map pool))
    fun b hb => mem_dedup.mpr (mem_map_of_mem hb)
  have hmap := hgro.map extent
  rw [map_flatMap] at hmap
  rwa [blocksByPool, flatMap_map]

/-- The groups are freed one after another. -/
lemma freeGroups_safe {groups : List (PoolId × List Extent)} (hS : S.Ready s)
    (h : Shed t o cur b (groups.flatMap Prod.snd) bytes s) :
    S.Safe (fun _ s => Shed t o cur b [] bytes s) (freeGroups groups) s := by
  induction groups generalizing s with
  | nil => exact .pure hS h
  | cons g groups ih =>
    refine .bind (.shed hS h (Q := fun _ s => Shed t o cur b (groups.flatMap Prod.snd) bytes s)
      fun s hI h => h.freeBlocks hI) hS ?_
    exact fun _ s hS h => ih hS h

/-- **`FreeAllBlobBlocks`** on a drained object. -/
lemma freeAllBlobBlocks_safe (sl : Slot) (hS : S.Ready s) (h : Mine t o b bytes s)
    (hd : b.draining = true) :
    S.Safe (fun _ s => Mine t o (b.setSlot sl .empty) (bytes.setSlot sl []) s)
      (freeAllBlobBlocks o sl) s := by
  refine .bind (.look hS h) hS ?_
  rintro groups s hS ⟨h, rfl⟩
  have hsl : (s.objs o).slot sl = b.slot sl := by rw [← h.info, slot_unpinned]
  rw [hsl]
  have hshed : Shed t o b (b.setSlot sl .empty) ((blocksByPool (b.slot sl).blocks).flatMap Prod.snd)
      (bytes.setSlot sl []) s := by
    have hb := h.shed hd
    refine ⟨hb.info, hb.owner, hb.draining, hb.pins, ?_, ?_⟩
    · refine h.holds.perm (fun blk hblk => ?_) ?_
      · have hblk' := ((b.setSlot sl .empty).allBlocks_perm sl).mem_iff.mp hblk
        rw [slot_setSlot, rest_setSlot] at hblk'
        exact h.holds.fits blk
          (b.rest_subset_allBlocks sl ((mem_append.mp hblk').resolve_left not_mem_nil))
      · have h1 := ((b.setSlot sl .empty).allBlocks_perm sl).map extent
        have h2 := (b.allBlocks_perm sl).map extent
        rw [slot_setSlot, rest_setSlot] at h1
        rw [map_append] at h1 h2
        rw [append_nil]
        refine (h1.append (blocksByPool_perm _)).trans (Perm.trans ?_ h2.symm)
        exact perm_append_comm
    · rw [bytesIn_setSlot, hb.bytes]
      rfl
  refine .bind (freeGroups_safe hS hshed) hS ?_
  intro _ s hS h
  refine .shed hS h fun s hI h => ?_
  have hq : Quiet key s (s.modifySlot o sl fun _ => .empty) := .modifySlot key s o sl _
  have hob : (s.modifySlot o sl fun _ => .empty).objs
      = Function.update s.objs o (b.setSlot sl .empty) := by
    rw [← h.info]
    rfl
  obtain ⟨hsec, hshed⟩ := h.update hI (by rw [writeOwner_setSlot, h.owner])
    (by rw [draining_setSlot, h.draining]) (by rw [pins_setSlot, h.pins]) h.holds hq
    hob
  exact ⟨hsec, h.bytes ▸ hshed.mine⟩

/-! ## `ResizeBlob` -/

section Cut

variable {newSize start : ℕ} {blocks : List BlobBlock}

lemma cutBlocks_perm (newSize : ℕ) (blocks : List BlobBlock) (start : ℕ) :
    ((cutBlocks newSize blocks start).1.map extent ++
      (cutBlocks newSize blocks start).2.map extent).Perm (blocks.map extent) := by
  induction blocks generalizing start with
  | nil => exact Perm.refl _
  | cons b blocks ih =>
    simp only [cutBlocks]
    split_ifs
    · exact perm_middle.trans ((ih _).cons _)
    · exact (ih (start + b.size)).cons b.extent
    · exact (ih (start + b.size)).cons b.extent

lemma fits_cutBlocks (h : ∀ b ∈ blocks, b.size ≤ b.capacity) :
    ∀ b ∈ (cutBlocks newSize blocks start).1, b.size ≤ b.capacity := by
  induction blocks generalizing start with
  | nil => exact h
  | cons b blocks ih =>
    have hb := h b mem_cons_self
    have hrs := @ih (start + b.size) fun c hc => h c (mem_cons_of_mem b hc)
    simp only [cutBlocks]
    split_ifs with h1 h2
    · exact hrs
    · intro c hc
      rcases mem_cons.mp hc with rfl | hc
      · change newSize - start ≤ b.capacity
        omega
      · exact hrs c hc
    · intro c hc
      rcases mem_cons.mp hc with rfl | hc
      · exact hb
      · exact hrs c hc

/-- What is kept is the front of the bytes. -/
lemma bytesOf_cutBlocks (mem : PoolId → ℕ → UInt8) (newSize : ℕ) (blocks : List BlobBlock)
    (start : ℕ) : bytesOf mem (cutBlocks newSize blocks start).1
      = (bytesOf mem blocks).take (newSize - start) := by
  induction blocks generalizing start with
  | nil => simp [cutBlocks]
  | cons b blocks ih =>
    simp only [cutBlocks]
    split_ifs with h1 h2
    · rw [ih, show newSize - (start + b.size) = 0 by omega, show newSize - start = 0 by omega]
      simp
    · rw [bytesOf_cons, ih, show newSize - (start + b.size) = 0 by omega, take_zero,
        append_nil, bytesOf_cons, take_append_of_le_length
          (by rw [length_readRange]; omega), take_readRange (by omega)]
    · have hall : (readRange (mem b.pool) b.targetOffset b.size).take (newSize - start)
          = readRange (mem b.pool) b.targetOffset b.size :=
        take_of_length_le (by rw [length_readRange]; omega)
      rw [bytesOf_cons, ih, bytesOf_cons, take_append, hall, length_readRange, Nat.sub_sub]

end Cut

/-- The bytes of a file after it has been resized. -/
def resized (newSize : ℕ) (old : List UInt8) : List UInt8 :=
  old.take newSize ++ List.replicate (newSize - old.length) 0

/-- What a slot holds after `size` bytes have been written to fresh blocks. -/
lemma patch_all (data : ℕ → UInt8) {junk : List UInt8} {base size : ℕ} (h : junk.length = size) :
    patch base base size data junk = readRange data 0 size := by
  apply ext_getElem?
  intro i
  rw [getElem?_patch]
  rcases Nat.lt_or_ge i junk.length with hi | hi
  · rw [getElem?_eq_getElem hi, Option.map_some, if_pos (by omega),
      getElem?_eq_getElem (by simpa using h ▸ hi), getElem_readRange]
    simp
  · rw [getElem?_eq_none hi, Option.map_none, getElem?_eq_none (by simpa using h ▸ hi)]

/-- The shrinking section: the blocks behind the new end are to be given back. -/
lemma Mine.shrinkLayout (hI : Inv s) (h : Mine t o b bytes s) (hd : b.draining = true)
    (newSize : ℕ) : Section t o key s (shrinkLayout o newSize s).2 ∧
      Shed t o (b.setSlot .main ⟨(cutBlocks newSize b.layout.blocks 0).1, newSize⟩)
        (b.setSlot .main ⟨(cutBlocks newSize b.layout.blocks 0).1, newSize⟩)
        ((blocksByPool (shrinkLayout o newSize s).1).flatMap Prod.snd)
        (bytes.setSlot .main (bytes.main.take newSize)) (shrinkLayout o newSize s).2 := by
  have hb := h.shed hd
  have hfst : (Cte.shrinkLayout o newSize s).1 = (cutBlocks newSize b.layout.blocks 0).2 := by
    rw [Cte.shrinkLayout, hb.info]
  set l' : Layout := ⟨(cutBlocks newSize b.layout.blocks 0).1, newSize⟩
  have hhd : Holds s o (b.setSlot .main l')
      ((blocksByPool (Cte.shrinkLayout o newSize s).1).flatMap Prod.snd) := by
    refine h.holds.perm (fun blk hblk => ?_) ?_
    · have hblk' := ((b.setSlot .main l').allBlocks_perm .main).mem_iff.mp hblk
      rcases mem_append.mp hblk' with hblk' | hblk'
      · exact fits_cutBlocks (fun c hc => h.holds.fits c (b.slot_subset_allBlocks .main hc)) blk
          hblk'
      · exact h.holds.fits blk (b.rest_subset_allBlocks .main hblk')
    · have h1 := ((b.setSlot .main l').allBlocks_perm .main).map extent
      have h2 := (b.allBlocks_perm .main).map extent
      rw [map_append] at h1 h2
      rw [append_nil, hfst]
      refine (h1.append (blocksByPool_perm _)).trans (Perm.trans ?_ h2.symm)
      rw [append_assoc]
      refine (Perm.append_left _ perm_append_comm).trans ?_
      rw [← append_assoc]
      exact (cutBlocks_perm newSize b.layout.blocks 0).append_right _
  have hq : Quiet key s (Cte.shrinkLayout o newSize s).2 := by
    exact .modifySlot key s o .main fun _ =>
      ⟨(cutBlocks newSize (s.objs o).layout.blocks 0).1, newSize⟩
  have hob : (Cte.shrinkLayout o newSize s).2.objs =
      Function.update s.objs o (b.setSlot .main l') := by
    rw [Cte.shrinkLayout, State.modifySlot, State.modifyObj, hb.info]
  obtain ⟨hsec, hshed⟩ := hb.update hI (by rw [writeOwner_setSlot, hb.owner])
    (by rw [draining_setSlot, hb.draining]) (by rw [pins_setSlot, hb.pins]) hhd hq
    hob
  refine ⟨hsec, ?_⟩
  have hby : bytesIn s.mem (b.setSlot .main l') =
      bytes.setSlot .main (bytes.main.take newSize) := by
    rw [bytesIn_setSlot, bytesOf_cutBlocks, ← h.bytes]
    rfl
  exact hby ▸ hshed

/-- `AllocateBuffer` -/
lemma allocateBuffer_safe (hS : S.Ready s) (h : Mine t o b bytes s) :
    S.Safe (fun ok s => Mine t o b bytes s ∧ (ok = false → s.hist.fault = true))
      (Co.act allocateBuffer) s := by
  refine .mine hS h fun s hI h => ?_
  rw [allocateBuffer]
  split_ifs
  · obtain ⟨hsec, h⟩ := h.quiet hI (.ticked key s) rfl
    exact ⟨hsec, h, by simp⟩
  · obtain ⟨hsec, h⟩ := h.quiet hI ((Quiet.ticked key s).trans (Quiet.faulted key _)) rfl
    exact ⟨hsec, h, fun _ => rfl⟩

/-- What `ResizeBlob` leaves. -/
structure Resized (t : TaskId) (o : ObjId) (b : BlobInfo) (bytes : Bytes) (newSize rc : ℕ)
    (l : Layout) (content : List UInt8) (s : State) : Prop where
  mine : Mine t o (b.setSlot .main l) (bytes.setSlot .main content) s
  sized : Sized l
  done : rc = 0 → newSize < 2 ^ 64 → content = resized newSize bytes.main
  failed : rc ≠ 0 → s.hist.fault = true

/-- **`ResizeBlob`.** -/
lemma resizeBlob_safe (newSize : ℕ) (score : ℚ) (minPersistence : ℤ) (hS : S.Ready s)
    (h : Mine t o b bytes s) (hsz : Sized b.layout) (hd : b.draining = false) :
    S.Safe (fun rc s => ∃ l content, Resized t o b bytes newSize rc l content s)
      (resizeBlob o newSize score minPersistence) s := by
  have hlen : bytes.main.length = b.layout.totalSizeCache :=
    (h.length_slot hsz : (bytes.slot .main).length = (b.slot .main).totalSizeCache)
  refine .bind (.look hS h) hS ?_
  rintro current s hS ⟨h, rfl⟩
  have hcur : (s.objs o).layout.totalSizeCache = b.layout.totalSizeCache := by
    rw [← h.info]
    rfl
  rw [hcur]
  split_ifs with heq hgrow
  · -- nothing to do
    refine .pure hS ⟨b.layout, bytes.main, h, hsz, fun _ _ => ?_, absurd rfl⟩
    rw [resized, take_of_length_le (by omega), show newSize - bytes.main.length = 0 by omega]
    simp
  · -- grow, then zero what has been added
    have hsz0 : Sized (b.slot .main) := hsz
    refine .bind (extendBlob_safe 0 newSize score minPersistence 0 hS h hsz0) hS ?_
    rintro rc s hS ⟨l, ⟨hsz', -, -, junk, h⟩, hsize, hflt⟩
    have h' := h
    split_ifs with hrc
    · exact .pure hS ⟨l, bytes.main ++ junk, h, hsz', fun h => absurd h hrc, hflt⟩
    refine .bind (allocateBuffer_safe hS h) hS ?_
    rintro ok s hS ⟨h, hok⟩
    cases ok with
    | false =>
      exact .pure hS ⟨l, bytes.main ++ junk, h, hsz', by simp, fun _ => hok rfl⟩
    | true =>
      refine .bind (.look hS h) hS ?_
      rintro blocks s hS ⟨h, rfl⟩
      have hbs : (s.objs o).layout.blocks = ((b.setSlot .main l).slot .main).blocks := by
        rw [← h.info]
        rfl
      refine .mono (modifyExistingData_safe (fun _ => 0) hbs rfl hS h) hS ?_
      rintro rc' s - ⟨content, -, h, hgl, hbad⟩
      refine ⟨l, content, h, hsz', fun hrc' hbd => ?_, fun hrc' => hbad (by simpa using hrc')⟩
      rw [hgl (by simp [hrc']) ⟨by omega, Nat.zero_le _⟩]
      have hjunk : junk.length = newSize - b.layout.totalSizeCache := by
        have hu : u64 (0 + newSize) = newSize := by rw [Nat.zero_add, u64, Nat.mod_eq_of_lt hbd]
        have hcac : l.totalSizeCache = max b.layout.totalSizeCache newSize := hu ▸ hsize (by omega)
        have hsz'' : Sized ((b.setSlot .main l).slot .main) := hsz'
        have hlen' := h'.length_slot hsz''
        simp only [Bytes.slot_setSlot, slot_setSlot, length_append] at hlen'
        change bytes.main.length + junk.length = l.totalSizeCache at hlen'
        omega
      rw [resized, take_of_length_le (by omega), ← hlen]
      change patch 0 _ _ _ (bytes.main ++ junk) = _
      rw [patch_append, patch_eq_self (Or.inl (by omega)), Nat.zero_add, patch_all _ (hlen ▸ hjunk)]
      simp [readRange]
  · -- shrink under the drain
    refine .bind (drainReaders_safe hS h) hS ?_
    intro _ s hS h
    refine .bind (.mine hS h (Q := fun dropped s => Shed t o
        (b.drained.setSlot .main ⟨(cutBlocks newSize b.layout.blocks 0).1, newSize⟩)
        (b.drained.setSlot .main ⟨(cutBlocks newSize b.layout.blocks 0).1, newSize⟩)
        ((blocksByPool dropped).flatMap Prod.snd)
        (bytes.setSlot .main (bytes.main.take newSize)) s)
      fun s hI h => h.shrinkLayout hI rfl newSize) hS ?_
    intro dropped s hS h
    refine .bind (freeGroups_safe hS h) hS ?_
    intro _ s hS h
    refine .bind (endDrainReaders_safe hS h.mine) hS ?_
    intro _ s hS h
    refine .pure hS ⟨⟨(cutBlocks newSize b.layout.blocks 0).1, newSize⟩,
      bytes.main.take newSize, ?_, ?_, fun _ _ => ?_, absurd rfl⟩
    · rwa [undrained_setSlot_drained hd] at h
    · have hcut := congrArg length (bytesOf_cutBlocks s.mem newSize b.layout.blocks 0)
      rw [length_bytesOf, length_take, length_bytesOf, ← hsz] at hcut
      change newSize = computeTotalSizeSlow (cutBlocks newSize b.layout.blocks 0).1
      omega
    · rw [resized, show newSize - bytes.main.length = 0 by omega]
      simp

end ClioCore.Cte
