import ClioCore.Cte.Helpers

/-!
# Growing a blob

`ExtendBlob`, section by section: it first uses the spare capacity of the last block, then asks the
selected targets one after another.  Whatever happens, the blob stays in order and keeps its bytes;
what is added holds whatever the devices left there (`Grown`).
-/

namespace ClioCore.Cte

open Foundations List BlobBlock BlobInfo Function
open SafeBdev (PoolId)

variable {t : TaskId} {o : ObjId} {key : BlobKey} {S : Setting t o key} {b : BlobInfo}
  {bytes : Bytes} {s : State} {sl : Slot}

/-! ## Block lists -/

section Blocks

variable {additional : ℕ} {blocks : List BlobBlock} {info : TargetInfo}
  {es : List Extent} {need : ℕ}

section

variable (additional blocks)

lemma fillLast_fst_le : (fillLast additional blocks).1 ≤ additional := by
  fun_induction fillLast additional blocks with
  | case1 => exact Nat.zero_le _
  | case2 b fill => exact min_le_right _ _
  | case3 b c bs ih => exact ih

lemma map_extent_fillLast : (fillLast additional blocks).2.map extent = blocks.map extent := by
  fun_induction fillLast additional blocks with
  | case1 => rfl
  | case2 b fill => rfl
  | case3 b c bs ih => rw [map_cons, ih, map_cons (a := b)]

/-- Only the last block is changed. -/
lemma take_fillLast :
    (fillLast additional blocks).2.take (blocks.length - 1) = blocks.take (blocks.length - 1) := by
  fun_induction fillLast additional blocks with
  | case1 => rfl
  | case2 b fill => rfl
  | case3 b c bs ih => simpa using ih

end

lemma fits_fillLast (h : ∀ b ∈ blocks, b.size ≤ b.capacity) :
    ∀ b ∈ (fillLast additional blocks).2, b.size ≤ b.capacity := by
  fun_induction fillLast additional blocks with
  | case1 => exact h
  | case2 b fill =>
    intro c hc
    obtain rfl := mem_singleton.mp hc
    have hb := h b mem_cons_self
    change b.size + fill ≤ b.capacity
    omega
  | case3 b c bs ih =>
    intro d hd
    rcases mem_cons.mp hd with rfl | hd
    · exact h d mem_cons_self
    · exact ih (fun e he => h e (mem_cons_of_mem b he)) d hd

/-- Filling up the last block leaves the bytes before it where they are. -/
lemma bytesOf_fillLast (mem : PoolId → ℕ → UInt8) (additional : ℕ) (blocks : List BlobBlock) :
    ∃ junk : List UInt8, junk.length = (fillLast additional blocks).1 ∧
      bytesOf mem (fillLast additional blocks).2 = bytesOf mem blocks ++ junk := by
  fun_induction fillLast additional blocks with
  | case1 => exact ⟨[], rfl, rfl⟩
  | case2 b fill =>
    refine ⟨readRange (mem b.pool) (b.targetOffset + b.size) fill, by simp, ?_⟩
    simp [readRange_append]
  | case3 b c bs ih =>
    obtain ⟨junk, hlen, hby⟩ := ih
    refine ⟨junk, hlen, ?_⟩
    rw [bytesOf_cons, hby, bytesOf_cons (b := b), append_assoc]

lemma map_extent_distribute (h : ∀ e ∈ es, e.pool = info.pool) :
    (distribute info es need).map extent = es := by
  induction es generalizing need with
  | nil => rfl
  | cons e es ih =>
    rw [distribute, map_cons, ih fun f hf => h f (mem_cons_of_mem e hf)]
    congr 1
    rw [extent, ← h e mem_cons_self]

lemma fits_distribute : ∀ b ∈ distribute info es need, b.size ≤ b.capacity := by
  induction es generalizing need with
  | nil => exact forall_mem_nil _
  | cons e es ih =>
    intro b hb
    rcases mem_cons.mp hb with rfl | hb
    · exact min_le_left _ _
    · exact ih b hb

lemma computeTotalSizeSlow_distribute_le :
    computeTotalSizeSlow (distribute info es need) ≤ need := by
  induction es generalizing need with
  | nil => exact Nat.zero_le _
  | cons e es ih =>
    have hrs := @ih (need - min e.size need)
    rw [distribute, computeTotalSizeSlow_cons]
    simp only
    omega

end Blocks

/-! ## What growing leaves -/

/-- The slot has the layout `l`, which starts with the blocks it had: the old bytes are followed by
whatever the devices held. -/
structure Grown (t : TaskId) (o : ObjId) (b : BlobInfo) (bytes : Bytes) (sl : Slot) (l : Layout)
    (s : State) : Prop where
  sized : Sized l
  extents : ∃ new, l.blocks.map BlobBlock.extent = (b.slot sl).blocks.map BlobBlock.extent ++ new
  front : l.blocks.take ((b.slot sl).blocks.length - 1)
    = (b.slot sl).blocks.take ((b.slot sl).blocks.length - 1)
  mine : ∃ junk, Mine t o (b.setSlot sl l) (bytes.setSlot sl (bytes.slot sl ++ junk)) s

lemma Grown.refl (h : Mine t o b bytes s) (hsz : Sized (b.slot sl)) :
    Grown t o b bytes sl (b.slot sl) s where
  sized := hsz
  extents := ⟨[], by simp⟩
  front := rfl
  mine := ⟨[], by simpa using h⟩

lemma Grown.trans {l l' : Layout} {junk : List UInt8}
    (hext : ∃ new, l.blocks.map extent = (b.slot sl).blocks.map extent ++ new)
    (hfrt : l.blocks.take ((b.slot sl).blocks.length - 1)
      = (b.slot sl).blocks.take ((b.slot sl).blocks.length - 1))
    (h : Grown t o (b.setSlot sl l) (bytes.setSlot sl (bytes.slot sl ++ junk)) sl l' s) :
    Grown t o b bytes sl l' s where
  sized := h.sized
  extents := by
    obtain ⟨new, hnew⟩ := hext
    obtain ⟨new', hnew'⟩ := h.extents
    refine ⟨new ++ new', ?_⟩
    rw [hnew', slot_setSlot, hnew, append_assoc]
  front := by
    obtain ⟨new, hnew⟩ := hext
    have hlen := congrArg length hnew
    rw [length_append, length_map, length_map] at hlen
    have hfrt' := congrArg (take ((b.slot sl).blocks.length - 1)) h.front
    rw [slot_setSlot, take_take, take_take, Nat.min_eq_left (by omega)] at hfrt'
    exact hfrt'.trans hfrt
  mine := by
    obtain ⟨junk', h'⟩ := h.mine
    refine ⟨junk ++ junk', ?_⟩
    simpa [append_assoc] using h'

/-- The size of a layout in order is the number of bytes. -/
lemma Mine.length_slot (h : Mine t o b bytes s) (hsz : Sized (b.slot sl)) :
    (bytes.slot sl).length = (b.slot sl).totalSizeCache := by
  rw [← h.bytes, slot_bytesIn, length_bytesOf, hsz]

/-- Another layout with the same extents in the slot. -/
lemma reshapes_setSlot {g : Layout → Layout}
    (hext : (g (b.slot sl)).blocks.map extent = (b.slot sl).blocks.map extent)
    (hft : ∀ blk ∈ (g (b.slot sl)).blocks, blk.size ≤ blk.capacity)
    (hrs : ∀ blk ∈ b.allBlocks, blk.size ≤ blk.capacity) :
    Reshapes (fun x => x.setSlot sl (g (x.slot sl))) b where
  pins _ := pins_setSlot _ _ _
  unpinned x := by simp only [unpinned_setSlot, slot_unpinned]
  owner := writeOwner_setSlot _ _ _
  draining h := (draining_setSlot _ _ _).symm.trans h
  perm := by
    refine (Perm.map _ ((b.setSlot sl (g (b.slot sl))).allBlocks_perm sl)).trans ?_
    refine Perm.trans ?_ (Perm.map _ (b.allBlocks_perm sl)).symm
    rw [slot_setSlot, rest_setSlot, map_append, map_append, hext]
  fits blk hblk := by
    rcases mem_append.mp
      (((b.setSlot sl (g (b.slot sl))).allBlocks_perm sl).mem_iff.mp hblk) with hblk | hblk
    · exact hft blk (by simpa using hblk)
    · exact hrs blk (b.rest_subset_allBlocks sl (by simpa using hblk))

/-- A section that gives the slot another layout with the same extents. -/
lemma Mine.modifySlot (key : BlobKey) (hI : Inv s) (h : Mine t o b bytes s) {g : Layout → Layout}
    (hext : (g (b.slot sl)).blocks.map extent = (b.slot sl).blocks.map extent)
    (hft : ∀ blk ∈ (g (b.slot sl)).blocks, blk.size ≤ blk.capacity) :
    Section t o key s (s.modifySlot o sl g) ∧ Mine t o (b.setSlot sl (g (b.slot sl)))
        (bytes.setSlot sl (bytesOf s.mem (g (b.slot sl)).blocks)) (s.modifySlot o sl g) := by
  have hq : Quiet key s (s.modifySlot o sl g) := .modifySlot key s o sl g
  have hup := h.update hI (reshapes_setSlot hext hft h.holds.fits) hq rfl
  rwa [bytesIn_setSlot, h.bytes] at hup

/-! ## The sections of `ExtendBlob` -/

/-- The first section: the spare capacity. -/
lemma Mine.growIntoSpare (hI : Inv s) (h : Mine t o b bytes s) (hsz : Sized (b.slot sl))
    (required : ℕ) :
    Section t o key s (growIntoSpare o sl required s).2 ∧
      ∃ l, Grown t o b bytes sl l (growIntoSpare o sl required s).2 ∧
        match (growIntoSpare o sl required s).1 with
        | none => l.totalSizeCache = max (b.slot sl).totalSizeCache required
        | some n => 0 < n ∧ l.totalSizeCache + n = required := by
  have hsl : (s.objs o).slot sl = b.slot sl := by rw [← h.info, slot_unpinned]
  by_cases hle : required ≤ (b.slot sl).totalSizeCache
  · rw [Cte.growIntoSpare, hsl, if_pos hle]
    exact ⟨(h.quiet hI (.refl key s) rfl).1, b.slot sl, Grown.refl h hsz, (max_eq_left hle).symm⟩
  set filled := fillLast (required - (b.slot sl).totalSizeCache) (b.slot sl).blocks with hfil
  have hext := map_extent_fillLast (required - (b.slot sl).totalSizeCache) (b.slot sl).blocks
  have hfrt := take_fillLast (required - (b.slot sl).totalSizeCache) (b.slot sl).blocks
  have hle' := fillLast_fst_le (required - (b.slot sl).totalSizeCache) (b.slot sl).blocks
  have hft : ∀ blk ∈ filled.2, blk.size ≤ blk.capacity :=
    fits_fillLast fun blk hblk => h.holds.fits blk (b.slot_subset_allBlocks sl hblk)
  obtain ⟨junk, hlen, hjunk⟩ := bytesOf_fillLast s.mem
    (required - (b.slot sl).totalSizeCache) (b.slot sl).blocks
  rw [← hfil] at hext hfrt hle' hlen hjunk
  have hslo : bytesOf s.mem (b.slot sl).blocks = bytes.slot sl := by rw [← slot_bytesIn, h.bytes]
  have htot : computeTotalSizeSlow filled.2 = (b.slot sl).totalSizeCache + filled.1 := by
    rw [← length_bytesOf s.mem, hjunk, length_append, length_bytesOf, hsz, hlen]
  have hrun : Cte.growIntoSpare o sl required s =
      if required - (b.slot sl).totalSizeCache - filled.1 = 0 then
        (none, s.modifySlot o sl fun _ => ⟨filled.2, required⟩)
      else (some (required - (b.slot sl).totalSizeCache - filled.1),
        s.modifySlot o sl fun _ => ⟨filled.2, (b.slot sl).totalSizeCache + filled.1⟩) := by
    rw [Cte.growIntoSpare, hsl, if_neg hle]
  have hout (cache : ℕ) (hcache : cache = (b.slot sl).totalSizeCache + filled.1) :
      Section t o key s (s.modifySlot o sl fun _ => ⟨filled.2, cache⟩) ∧
        Grown t o b bytes sl ⟨filled.2, cache⟩ (s.modifySlot o sl fun _ => ⟨filled.2, cache⟩) := by
    obtain ⟨hsec, hmi⟩ := h.modifySlot key hI (g := fun _ => ⟨filled.2, cache⟩) hext hft
    rw [hjunk, hslo] at hmi
    exact ⟨hsec, hcache.trans htot.symm, ⟨[], by simpa using hext⟩, hfrt, junk, hmi⟩
  rw [hrun]
  split_ifs with hfu
  · obtain ⟨hsec, hgro⟩ := hout required (by omega)
    exact ⟨hsec, _, hgro, (max_eq_right (Nat.le_of_not_le hle)).symm⟩
  · obtain ⟨hsec, hgro⟩ := hout _ rfl
    refine ⟨hsec, _, hgro, ?_⟩
    change 0 < _ ∧ (b.slot sl).totalSizeCache + filled.1 + _ = required
    omega

/-- What a target answers to an allocation: nothing, or extents that may be handed out. -/
lemma allocateFromTarget_cases (o : ObjId) (info : TargetInfo) (size : ℕ) (s : State) :
    (allocateFromTarget o info size s).1 = [] ∧
        ((allocateFromTarget o info size s).2 = s ∨
          (allocateFromTarget o info size s).2 = s.ticked) ∨
      Grantable s.live (allocateFromTarget o info size s).1 ∧
        (∀ e ∈ (allocateFromTarget o info size s).1, e.pool = info.pool) ∧
        (allocateFromTarget o info size s).2 = { s.ticked with
          live := s.live ++ (allocateFromTarget o info size s).1.map fun e => (e, o) } := by
  rw [allocateFromTarget]
  split_ifs with hspa
  · exact .inl ⟨rfl, .inl rfl⟩
  · rw [allocateBlocks]
    split_ifs with hgra
    · refine .inr ⟨hgra, fun e he => ?_, rfl⟩
      obtain ⟨x, -, rfl⟩ := mem_map.mp he
      rfl
    · exact .inl ⟨rfl, .inr rfl⟩

/-- Extents that may be handed out are new and different. -/
lemma Grantable.nodup {live : List (Extent × ObjId)} {offer : List Extent}
    (h : Grantable live offer) : offer.Nodup ∧ ∀ e ∈ offer, ∀ o, (e, o) ∉ live := by
  have hsf : ∀ e ∈ offer, ¬ e.Apart e := fun e he happ => by
    have hpos := (h.2 e he).1
    rcases happ with h | h | h
    · exact h rfl
    · omega
    · omega
  refine ⟨?_, fun e he o hlv => hsf e he ((h.2 e he).2 (e, o) hlv)⟩
  apply Pairwise.imp_of_mem _ h.1
  rintro e f he - happ rfl
  exact hsf e he happ

/-- New extents for the slot. -/
lemma Mine.grant (hI : Inv s) (h : Mine t o b bytes s) {offer : List Extent}
    (hoff : Grantable s.live offer) {new : List BlobBlock} (hnew : new.map extent = offer)
    (hft : ∀ blk ∈ new, blk.size ≤ blk.capacity) (cache : ℕ → ℕ) {s' : State} (hcm : Calm key s s')
    (hhist : s'.hist = s.hist)
    (hob : s'.objs = Function.update s.objs o ((s.objs o).setSlot sl
      ⟨((s.objs o).slot sl).blocks ++ new, cache ((s.objs o).slot sl).totalSizeCache⟩))
    (hlv : s'.live = s.live ++ offer.map fun e => (e, o)) (hmem : s'.mem = s.mem) :
    Section t o key s s' ∧
      Mine t o (b.setSlot sl ⟨(b.slot sl).blocks ++ new, cache (b.slot sl).totalSizeCache⟩)
        (bytes.setSlot sl (bytes.slot sl ++ bytesOf s.mem new)) s' := by
  have hsl : (s.objs o).slot sl = b.slot sl := by rw [← h.info, slot_unpinned]
  rw [hsl] at hob
  set l' : Layout := ⟨(b.slot sl).blocks ++ new, cache (b.slot sl).totalSizeCache⟩ with hl'
  have hpm : ((b.setSlot sl l').allBlocks.map extent).Perm (b.allBlocks.map extent ++ offer) := by
    have h1 := ((b.setSlot sl l').allBlocks_perm sl).map extent
    have h2 := (b.allBlocks_perm sl).map extent
    rw [slot_setSlot, rest_setSlot, hl'] at h1
    simp only [map_append, hnew] at h1 h2
    refine h1.trans (Perm.trans ?_ (h2.symm.append_right offer))
    rw [append_assoc, append_assoc]
    exact Perm.append_left _ perm_append_comm
  have hold := h.holds.nodup
  have holdl := h.holds.live
  have holde := h.holds.exact
  rw [append_nil] at hold holdl holde
  have hhd : Holds s' o (b.setSlot sl l') [] :=
    { nodup := by
        rw [append_nil, hpm.nodup_iff]
        refine hold.append hoff.nodup.1 fun e he hnewe => ?_
        exact hoff.nodup.2 e hnewe o (holdl e he)
      live := fun e he => by
        rw [append_nil, hpm.mem_iff, mem_append] at he
        rw [hlv]
        rcases he with he | he
        · exact mem_append_left _ (holdl e he)
        · exact mem_append_right _ (mem_map_of_mem he)
      fits := fun blk hblk => by
        have hblk' := ((b.setSlot sl l').allBlocks_perm sl).mem_iff.mp hblk
        rw [slot_setSlot, rest_setSlot, hl'] at hblk'
        simp only [mem_append] at hblk'
        rcases hblk' with (hblk' | hblk') | hblk'
        · exact h.holds.fits blk (b.slot_subset_allBlocks sl hblk')
        · exact hft blk hblk'
        · exact h.holds.fits blk (b.rest_subset_allBlocks sl hblk')
      exact := fun hl e he => by
        rw [append_nil, hpm.mem_iff, mem_append]
        rw [hlv, mem_append] at he
        rcases he with he | he
        · exact .inl (holde (hhist ▸ hl) e he)
        · obtain ⟨f, hf, heq⟩ := mem_map.mp he
          have hfe : f = e := congrArg Prod.fst heq
          exact .inr (hfe ▸ hf) }
  have hmi : Mine t o (b.setSlot sl l') (bytes.setSlot sl (bytes.slot sl ++ bytesOf s.mem new))
      s' :=
    { info := by rw [hob, update_self, unpinned_setSlot, h.info]
      owner := by rw [writeOwner_setSlot, h.owner]
      pins := fun hd => by
        rw [hob, update_self, pins_setSlot]
        exact h.pins ((draining_setSlot _ _ _).symm.trans hd)
      holds := hhd
      bytes := by
        rw [hmem, bytesIn_setSlot, hl']
        simp only [bytesOf_append]
        rw [← slot_bytesIn, h.bytes] }
  refine ⟨Mine.section hI ?_ (hlv ▸ hI.live.grant hoff o)
    (fun x hx => hlv ▸ mem_append_left _ hx) (by rw [hhist]) hmi, hmi⟩
  exact
    { toCalm := hcm
      owner := h.writeOwner
      owner' := hmi.writeOwner
      pins := by rw [hob, update_self, pins_setSlot]
      objs := fun o' ho' => by rw [hob, update_of_ne ho']
      live := fun e o' ho' => by
        rw [hlv, mem_append]
        refine ⟨fun he => he.resolve_right fun he => ?_, .inl⟩
        obtain ⟨f, -, heq⟩ := mem_map.mp he
        exact ho' (congrArg Prod.snd heq).symm
      mem := fun _ _ _ _ _ => by rw [hmem] }

/-- One target. -/
lemma Mine.placeBlocks (hI : Inv s) (h : Mine t o b bytes s) (hsz : Sized (b.slot sl))
    (info : TargetInfo) (need request : ℕ) :
    Section t o key s (placeBlocks o sl info need request s).2 ∧
      ∃ l, Grown t o b bytes sl l (placeBlocks o sl info need request s).2 ∧
        (placeBlocks o sl info need request s).1 ≤ need ∧
        l.totalSizeCache = (b.slot sl).totalSizeCache +
          (need - (placeBlocks o sl info need request s).1) := by
  set granted := allocateFromTarget o info request s
  have hcs := allocateFromTarget_cases o info request s
  have hrun : Cte.placeBlocks o sl info need request s =
      if granted.1 = [] then (need, granted.2.faulted)
      else
        (need - computeTotalSizeSlow (distribute info granted.1 need),
          (granted.2.modifySlot o sl fun l => ⟨l.blocks ++ distribute info granted.1 need,
            l.totalSizeCache + computeTotalSizeSlow (distribute info granted.1 need)⟩).modifySpace
              info.pool (· - (granted.1.map Extent.size).sum)) := rfl
  rw [hrun]
  split_ifs with hno
  · -- refused
    have hq : Quiet key s granted.2 ∧ granted.2.objs = s.objs := by
      rcases hcs with ⟨-, hs | hs⟩ | ⟨-, -, hs⟩
      · exact ⟨hs ▸ Quiet.refl key s, by rw [hs]⟩
      · exact ⟨hs ▸ Quiet.ticked key s, by rw [hs]; rfl⟩
      · rw [hno] at hs
        refine ⟨hs ▸ ⟨Calm.of_eq rfl rfl rfl rfl rfl rfl rfl, by simp, rfl, rfl⟩, by rw [hs]; rfl⟩
    obtain ⟨hsec, hmi⟩ := h.quiet hI (hq.1.trans (.faulted key _)) hq.2
    exact ⟨hsec, b.slot sl, Grown.refl hmi hsz, le_refl _, by simp⟩
  · rcases hcs with ⟨hno', -⟩ | ⟨hgra, hpo, hs⟩
    · exact absurd hno' hno
    set new := distribute info granted.1 need
    set s' := (granted.2.modifySlot o sl fun l => ⟨l.blocks ++ new,
      l.totalSizeCache + computeTotalSizeSlow new⟩).modifySpace info.pool
        (· - (granted.1.map Extent.size).sum) with hs'
    have hcm : Calm key s s' := by
      rw [hs', hs]
      exact Calm.of_eq rfl rfl rfl rfl rfl rfl rfl
    obtain ⟨hsec, hmi⟩ := h.grant hI hgra (map_extent_distribute hpo) fits_distribute
      (· + computeTotalSizeSlow new) hcm (by rw [hs', hs]; rfl) (by rw [hs', hs]; rfl)
      (by rw [hs', hs]; rfl) (by rw [hs', hs]; rfl)
    have hle : computeTotalSizeSlow new ≤ need := computeTotalSizeSlow_distribute_le
    refine ⟨hsec, _, ⟨?_, ⟨_, map_append⟩, ?_, _, hmi⟩, Nat.sub_le _ _, ?_⟩
    · change (b.slot sl).totalSizeCache + _ = computeTotalSizeSlow _
      rw [computeTotalSizeSlow_append, hsz]
    · exact take_append_of_le_length (Nat.sub_le _ _)
    · change (b.slot sl).totalSizeCache + _ = _
      omega

/-- The selection of targets: an error is on record. -/
lemma chooseTargets_cases (score : ℚ) (size : ℕ) (minPersistence : ℤ) (s : State) :
    (∃ e ≠ 0, (chooseTargets score size minPersistence s).1 = .error e) ∧
        ((chooseTargets score size minPersistence s).2 = s.faulted ∨
          (chooseTargets score size minPersistence s).2 = s.ticked.faulted) ∨
      (∃ ts, (chooseTargets score size minPersistence s).1 = .ok ts) ∧
        (chooseTargets score size minPersistence s).2 = s.ticked := by
  simp only [chooseTargets]
  split_ifs
  · exact .inl ⟨⟨1, by simp, rfl⟩, .inl rfl⟩
  · exact .inl ⟨⟨2, by simp, rfl⟩, .inr rfl⟩
  · exact .inr ⟨⟨_, rfl⟩, rfl⟩
  · exact .inl ⟨⟨2, by simp, rfl⟩, .inr rfl⟩
  · exact .inr ⟨⟨_, rfl⟩, rfl⟩

/-- The loop over the targets: what has been placed and what has not is what was needed. -/
lemma placeAll_safe (preallocate : ℕ) (ts : List TargetInfo) (remaining : ℕ) (hS : S.Ready s)
    (h : Mine t o b bytes s) (hsz : Sized (b.slot sl)) :
    S.Safe (fun left s => ∃ l, Grown t o b bytes sl l s ∧
        l.totalSizeCache + left = (b.slot sl).totalSizeCache + remaining)
      (placeAll o sl preallocate ts remaining) s := by
  induction ts generalizing remaining b bytes s with
  | nil => exact .pure hS ⟨b.slot sl, Grown.refl h hsz, rfl⟩
  | cons target ts ih =>
    rw [placeAll]
    split_ifs with h0
    · exact .pure hS ⟨b.slot sl, Grown.refl h hsz, by omega⟩
    refine .bind (.look hS h) hS ?_
    rintro choice s hS ⟨h, hcho⟩
    cases choice with
    | none => exact ih remaining hS h hsz
    | some c =>
      obtain ⟨info, need, request⟩ := c
      -- no target is asked for more than is needed
      have hneed : need ≤ remaining := by
        simp only [considerTarget] at hcho
        split at hcho
        · simp at hcho
        · split_ifs at hcho
          have hmin : need = min remaining _ := congrArg (fun c => c.2.1) (Option.some.inj hcho)
          exact hmin ▸ min_le_left _ _
      refine .bind (.mine hS h (Q := fun left s => ∃ l, Grown t o b bytes sl l s ∧ left ≤ need ∧
          l.totalSizeCache = (b.slot sl).totalSizeCache + (need - left))
        fun s hI h => h.placeBlocks hI hsz info need request) hS ?_
      rintro left s hS ⟨l, ⟨hsz', hext, hfrt, junk, h⟩, hle, hcac⟩
      refine .mono (ih (remaining - (need - left)) hS h (by simpa using hsz')) hS ?_
      rintro left' s - ⟨l', hgrn, hcac'⟩
      rw [slot_setSlot] at hcac'
      exact ⟨l', hgrn.trans hext hfrt, by omega⟩

/-- The end of `ExtendBlob`. -/
lemma Mine.finishExtend (hI : Inv s) (h : Mine t o b bytes s) (hsz : Sized (b.slot sl))
    {required remaining : ℕ} (hreq : (b.slot sl).totalSizeCache + remaining = required) :
    Section t o key s (finishExtend o sl required remaining s).2 ∧
      ∃ l, Grown t o b bytes sl l (finishExtend o sl required remaining s).2 ∧
        ((finishExtend o sl required remaining s).1 = 0 → l.totalSizeCache = required) ∧
        ((finishExtend o sl required remaining s).1 ≠ 0 →
          (finishExtend o sl required remaining s).2.hist.fault = true) := by
  have hft : ∀ blk ∈ (b.slot sl).blocks, blk.size ≤ blk.capacity := fun blk hblk =>
    h.holds.fits blk (b.slot_subset_allBlocks sl hblk)
  have hsl : bytesOf s.mem (b.slot sl).blocks = bytes.slot sl := by rw [← slot_bytesIn, h.bytes]
  rw [Cte.finishExtend]
  split_ifs with hleft
  · obtain ⟨-, hmi⟩ := h.modifySlot key hI (g := Layout.recomputeTotalSize) rfl hft
    have hq : Quiet key s (s.modifySlot o sl Layout.recomputeTotalSize).faulted :=
      (Quiet.modifySlot key s o sl _).trans (Quiet.faulted key _)
    obtain ⟨hsec, hmi⟩ := h.update hI
      (reshapes_setSlot (g := Layout.recomputeTotalSize) rfl hft h.holds.fits) hq rfl
    rw [bytesIn_setSlot, h.bytes] at hmi
    refine ⟨hsec, (b.slot sl).recomputeTotalSize, ⟨rfl, ⟨[], by simp [Layout.recomputeTotalSize]⟩,
      rfl, [], ?_⟩, by simp, fun _ => rfl⟩
    rwa [append_nil, ← hsl]
  · obtain ⟨hsec, hmi⟩ := h.modifySlot key hI
      (g := fun l => { l with totalSizeCache := required }) rfl hft
    refine ⟨hsec, { b.slot sl with totalSizeCache := required }, ⟨?_, ⟨[], by simp⟩, rfl, [], ?_⟩,
      fun _ => rfl, absurd rfl⟩
    · change required = computeTotalSizeSlow (b.slot sl).blocks
      rw [← hsz]
      omega
    · rwa [append_nil, ← hsl]

/-- **`ExtendBlob`.**  The blob keeps its bytes.  Success means that it has the size asked for;
otherwise some request has failed. -/
lemma extendBlob_safe (offset size : ℕ) (score : ℚ) (minPersistence : ℤ) (preallocate : ℕ)
    (hS : S.Ready s) (h : Mine t o b bytes s) (hsz : Sized (b.slot sl)) :
    S.Safe (fun rc s => ∃ l, Grown t o b bytes sl l s ∧
        (rc = 0 → l.totalSizeCache = max (b.slot sl).totalSizeCache (u64 (offset + size))) ∧
        (rc ≠ 0 → s.hist.fault = true))
      (extendBlob o sl offset size score minPersistence preallocate) s := by
  rw [extendBlob]
  generalize u64 (offset + size) = required
  refine .bind (.mine hS h (Q := fun missing s => ∃ l, Grown t o b bytes sl l s ∧ match missing with
      | none => l.totalSizeCache = max (b.slot sl).totalSizeCache required
      | some n => 0 < n ∧ l.totalSizeCache + n = required)
    fun s hI h => h.growIntoSpare hI hsz required) hS ?_
  rintro missing s hS ⟨l, hgrn, hcac⟩
  cases missing with
  | none => exact .pure hS ⟨l, hgrn, fun _ => hcac, absurd rfl⟩
  | some n =>
    obtain ⟨hpos, hcac⟩ := hcac
    obtain ⟨hsz', hext, hfrt, junk, h'⟩ := hgrn
    have hlen := h.length_slot hsz
    have hsz'' : Sized ((b.setSlot sl l).slot sl) := by rwa [slot_setSlot]
    have hlen' := h'.length_slot hsz''
    simp only [Bytes.slot_setSlot, slot_setSlot, length_append] at hlen'
    set b' := b.setSlot sl l
    set bytes' := bytes.setSlot sl (bytes.slot sl ++ junk)
    have hsl' : b'.slot sl = l := by rw [slot_setSlot]
    refine .bind (.mine hS h' (Q := fun chosen s => Mine t o b' bytes' s ∧
        ∀ e, chosen = Except.error e → e ≠ 0 ∧ s.hist.fault = true) ?_) hS ?_
    · intro s hI h'
      rcases chooseTargets_cases score n minPersistence s with ⟨⟨e, he, h1⟩, h2⟩ | ⟨⟨ts, h1⟩, h2⟩
      · have hq : Quiet key s (chooseTargets score n minPersistence s).2 ∧
            (chooseTargets score n minPersistence s).2.objs = s.objs ∧
            (chooseTargets score n minPersistence s).2.hist.fault = true := by
          rcases h2 with h2 | h2
          · rw [h2]
            exact ⟨.faulted key s, rfl, rfl⟩
          · rw [h2]
            exact ⟨(Quiet.ticked key s).trans (Quiet.faulted key _), rfl, rfl⟩
        obtain ⟨hsec, h'⟩ := h'.quiet hI hq.1 hq.2.1
        refine ⟨hsec, h', fun e' he' => ⟨?_, hq.2.2⟩⟩
        rw [h1] at he'
        exact Except.error.inj he' ▸ he
      · rw [h1, h2]
        obtain ⟨hsec, h'⟩ := h'.quiet hI (.ticked key s) rfl
        exact ⟨hsec, h', by simp⟩
    rintro chosen s hS ⟨h', hflt⟩
    cases chosen with
    | error e =>
      obtain ⟨he, hflt⟩ := hflt e rfl
      have hgrn := (Grown.refl h' hsz'').trans hext hfrt
      exact .pure hS ⟨l, hsl' ▸ hgrn, fun h0 => absurd h0 he, fun _ => hflt⟩
    | ok ordered =>
      refine .bind (placeAll_safe preallocate ordered n hS h' hsz'') hS ?_
      rintro remaining s hS ⟨l', hgrn', hcac'⟩
      rw [hsl'] at hcac'
      obtain ⟨hsz3, hext3, hfrt3, junk3, h3⟩ := hgrn'.trans hext hfrt
      refine .mono (.mine hS h3 (Q := fun rc s => ∃ l'', Grown t o (b.setSlot sl l')
          (bytes.setSlot sl (bytes.slot sl ++ junk3)) sl l'' s ∧
          (rc = 0 → l''.totalSizeCache = required) ∧ (rc ≠ 0 → s.hist.fault = true))
        fun s hI h3 => h3.finishExtend hI (by simpa using hsz3) (by rw [slot_setSlot]; omega)) hS ?_
      rintro rc s - ⟨l'', hgrn'', hrc, hflt''⟩
      exact ⟨l'', hgrn''.trans hext3 hfrt3, fun h0 => by rw [hrc h0]; omega, hflt''⟩

end ClioCore.Cte
