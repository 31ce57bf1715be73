import ClioCore.Cte.ReaderPins

/-!
# Puts that find no room

A put that cannot get the space it needs returns the error of `ExtendBlob` or `ResizeBlob`, but what
it has done before stays: the entry of a blob it has created, the bytes it has gained from the spare
capacity of the last block, and the blocks that the first targets have granted.  It leaves no trace
exactly if there was nothing of the kind (`PutBlobTask.leavesNoTrace`).
-/

namespace ClioCore.Cte

open Foundations List Option State BlobInfo Nat Co Function Replica
open SafeBdev (PoolId)

variable {preallocate e offset size idx : ℕ} {score : ℚ} {minPersistence : ℤ} {s₁ : State}
  {rs : List Replica}

/-! ## Growing that gets nowhere -/

/-- None of the targets grants anything towards `remaining` bytes. -/
def grantsNothing (o : ObjId) (remaining preallocate : ℕ) : List TargetInfo → State → Bool
  | [], _ => true
  | target :: ts, s =>
    match considerTarget target.pool remaining preallocate s with
    | none => grantsNothing o remaining preallocate ts s
    | some (info, _, request) =>
      (allocateFromTarget o info request s).1 = [] &&
        grantsNothing o remaining preallocate ts (allocateFromTarget o info request s).2

/-- No target grants anything towards `additional` bytes. -/
def findsNoRoom (o : ObjId) (additional : ℕ) (score : ℚ) (minPersistence : ℤ) (preallocate : ℕ)
    (s : State) : Bool :=
  match (chooseTargets score additional minPersistence s).1 with
  | .error _ => true
  | .ok ts => grantsNothing o additional preallocate ts
      (chooseTargets score additional minPersistence s).2

/-- The layout `l` cannot be grown towards `required` bytes at all: the last block has no spare
capacity and no target grants anything. -/
def growsNowhere (o : ObjId) (l : Layout) (required : ℕ) (score : ℚ) (minPersistence : ℤ)
    (preallocate : ℕ) (s : State) : Bool :=
  (fillLast (required - l.totalSizeCache) l.blocks).1 = 0 &&
    findsNoRoom o (required - l.totalSizeCache) score minPersistence preallocate s

/-- The states offer the same space. -/
structure SameSupply (s s' : State) : Prop where
  env : s'.env = s.env
  tick : s'.tick = s.tick
  targets : s'.targets = s.targets
  live : s'.live = s.live

/-- At most answers have been used up and a failure noted. -/
structure Marked (s s' : State) : Prop where
  eq : ∃ n f, s' = { s with tick := n, hist := { s.hist with fault := f } }

section Nowhere

variable {o : ObjId} {sl : Slot} {s s' s'' : State}

lemma Marked.refl (s : State) : Marked s s := ⟨s.tick, s.hist.fault, rfl⟩

lemma Marked.trans (h : Marked s s') (h' : Marked s' s'') : Marked s s'' := by
  obtain ⟨n, f, rfl⟩ := h
  obtain ⟨m, g, rfl⟩ := h'
  exact ⟨m, g, rfl⟩

lemma Marked.ticked (s : State) : Marked s s.ticked := ⟨s.tick + 1, s.hist.fault, rfl⟩

lemma Marked.faulted (s : State) : Marked s s.faulted := ⟨s.tick, true, rfl⟩

lemma SameSupply.refl (s : State) : SameSupply s s := ⟨rfl, rfl, rfl, rfl⟩

section

variable (h : SameSupply s s')
include h

lemma SameSupply.faulted : SameSupply s s'.faulted :=
  ⟨h.env, h.tick, h.targets, h.live⟩

lemma SameSupply.considerTarget (pool : PoolId) (remaining preallocate : ℕ) :
    considerTarget pool remaining preallocate s' = considerTarget pool remaining preallocate s := by
  simp only [Cte.considerTarget, findTarget, h.targets]

/-- A target grants the same in both states, and offers the same afterwards. -/
lemma SameSupply.allocateFromTarget (o : ObjId) (info : TargetInfo) (size : ℕ) :
    (allocateFromTarget o info size s').1 = (allocateFromTarget o info size s).1 ∧
      SameSupply (allocateFromTarget o info size s).2 (allocateFromTarget o info size s').2 := by
  simp only [Cte.allocateFromTarget, allocateBlocks, h.env, h.tick, h.live]
  split_ifs
  · exact ⟨rfl, h⟩
  · exact ⟨rfl, h.env, congrArg (· + 1) h.tick, h.targets, rfl⟩
  · exact ⟨rfl, h.env, congrArg (· + 1) h.tick, h.targets, h.live⟩

lemma SameSupply.grantsNothing (remaining preallocate : ℕ) (ts : List TargetInfo) :
    grantsNothing o remaining preallocate ts s' = grantsNothing o remaining preallocate ts s := by
  induction ts generalizing s s' with
  | nil => rfl
  | cons target ts ih =>
    simp only [grantsNothing, h.considerTarget]
    cases Cte.considerTarget target.pool remaining preallocate s with
    | none => exact ih h
    | some choice =>
      obtain ⟨hgra, hnx⟩ := h.allocateFromTarget o choice.1 choice.2.2
      simp [hgra, ih hnx]

lemma SameSupply.chooseTargets (score : ℚ) (size : ℕ) (minPersistence : ℤ) :
    (chooseTargets score size minPersistence s').1 = (chooseTargets score size minPersistence s).1 ∧
      SameSupply (chooseTargets score size minPersistence s).2
        (chooseTargets score size minPersistence s').2 := by
  have htic : SameSupply s.ticked s'.ticked :=
    ⟨h.env, congrArg (· + 1) h.tick, h.targets, h.live⟩
  have hsel : selectTargets s' score size = selectTargets s score size := by
    simp only [selectTargets, h.env, h.tick, h.targets]
  simp only [Cte.chooseTargets, hsel, h.targets]
  by_cases hno : s.targets = []
  · simp only [if_pos hno]
    exact ⟨trivial, h.env, h.tick, h.targets, h.live⟩
  generalize (if 0 < minPersistence then _ else _ : List TargetInfo).filter healthy = ordered
  split_ifs
  · exact ⟨rfl, htic.env, htic.tick, htic.targets, htic.live⟩
  · exact ⟨rfl, htic⟩

lemma SameSupply.growsNowhere (l : Layout) (required : ℕ) (score : ℚ) (minPersistence : ℤ)
    (preallocate : ℕ) :
    growsNowhere o l required score minPersistence preallocate s'
      = growsNowhere o l required score minPersistence preallocate s := by
  obtain ⟨hcho, hnx⟩ := h.chooseTargets score (required - l.totalSizeCache) minPersistence
  simp only [Cte.growsNowhere, findsNoRoom, hcho]
  cases (Cte.chooseTargets score (required - l.totalSizeCache) minPersistence s).1 with
  | error e => rfl
  | ok ts => simp [hnx.grantsNothing]

end

/-! ## What growing adds -/

/-- Nothing is lost on the way from `s` to `s'`. -/
structure Enlarged (o : ObjId) (sl : Slot) (s s' : State) : Prop where
  blobs : s'.blobs = s.blobs
  replicas : (s'.objs o).replicas = (s.objs o).replicas
  live : s.live ⊆ s'.live
  size : computeTotalSizeSlow ((s.objs o).slot sl).blocks
    ≤ computeTotalSizeSlow ((s'.objs o).slot sl).blocks

/-- The slot has more bytes in `s'`, or something is handed out that was not in `s`. -/
def Larger (o : ObjId) (sl : Slot) (s s' : State) : Prop :=
  computeTotalSizeSlow ((s.objs o).slot sl).blocks < computeTotalSizeSlow
    ((s'.objs o).slot sl).blocks ∨ ∃ e o', (e, o') ∈ s'.live ∧ ∀ o'', (e, o'') ∉ s.live

/-- What comes of an attempt to grow the slot.  Nothing is lost; an attempt that had to get nowhere
ends in `P`, and any other has made the slot larger. -/
structure Attempt (o : ObjId) (sl : Slot) (nowhere : Bool) (P : Prop) (s s' : State) : Prop where
  enlarged : Enlarged o sl s s'
  stuck : nowhere = true → P
  larger : nowhere = false → Larger o sl s s'

lemma Enlarged.refl (o : ObjId) (sl : Slot) (s : State) : Enlarged o sl s s :=
  ⟨rfl, rfl, Subset.refl _, le_refl _⟩

lemma Enlarged.trans (h : Enlarged o sl s s') (h' : Enlarged o sl s' s'') : Enlarged o sl s s'' :=
  ⟨h'.blobs.trans h.blobs, h'.replicas.trans h.replicas, Subset.trans h.live h'.live,
    h.size.trans h'.size⟩

lemma Marked.enlarged (h : Marked s s') : Enlarged o sl s s' := by
  obtain ⟨n, f, rfl⟩ := h
  exact ⟨rfl, rfl, .refl _, le_refl _⟩

lemma Larger.enlarged (h : Larger o sl s s') (h' : Enlarged o sl s' s'') : Larger o sl s s'' := by
  rcases h with h | ⟨e, o', he, hnew⟩
  · exact .inl (h.trans_le h'.size)
  · exact .inr ⟨e, o', h'.live he, hnew⟩

lemma Enlarged.larger (h : Enlarged o sl s s') (h' : Larger o sl s' s'') : Larger o sl s s'' := by
  rcases h' with h' | ⟨e, o', he, hnew⟩
  · exact .inl (h.size.trans_lt h')
  · exact .inr ⟨e, o', he, fun o'' ho'' => hnew o'' (h.live ho'')⟩

lemma Attempt.of_marked {P : Prop} (h : Marked s s') (hP : P) : Attempt o sl true P s s' :=
  ⟨h.enlarged, fun _ => hP, by simp⟩

lemma Attempt.of_larger {P : Prop} (h : Enlarged o sl s s') (hlg : Larger o sl s s') :
    Attempt o sl false P s s' :=
  ⟨h, by simp, fun _ => hlg⟩

/-- Something is done before and after the attempt. -/
lemma Attempt.between {nowhere : Bool} {P Q : Prop} {s0 s3 : State}
    (h : Attempt o sl nowhere P s s')
    (hbef : Enlarged o sl s0 s) (haf : Enlarged o sl s' s3) (hPQ : P → Q) :
    Attempt o sl nowhere Q s0 s3 :=
  ⟨(hbef.trans h.enlarged).trans haf, fun hstu => hPQ (h.stuck hstu),
    fun hlg => (hbef.larger (h.larger hlg)).enlarged haf⟩

lemma Attempt.mono {nowhere : Bool} {P Q : Prop} (h : Attempt o sl nowhere P s s') (hPQ : P → Q) :
    Attempt o sl nowhere Q s s' :=
  h.between (.refl o sl s) (.refl o sl s') hPQ

lemma slot_modifySlot (s : State) (o : ObjId) (sl : Slot) (f : Layout → Layout) :
    ((s.modifySlot o sl f).objs o).slot sl = f ((s.objs o).slot sl) := by
  rw [modifySlot, modifyObj]
  simp

lemma replicas_modifySlot (s : State) (o : ObjId) (sl : Slot) (f : Layout → Layout) :
    ((s.modifySlot o sl f).objs o).replicas = (s.objs o).replicas := by
  rw [modifySlot, modifyObj]
  cases sl <;> simp [setSlot]

lemma enlarged_modifySlot {f : Layout → Layout}
    (hf : computeTotalSizeSlow ((s.objs o).slot sl).blocks
    ≤ computeTotalSizeSlow (f ((s.objs o).slot sl)).blocks) :
    Enlarged o sl s (s.modifySlot o sl f) :=
  ⟨rfl, replicas_modifySlot s o sl f, .refl _, by rwa [slot_modifySlot]⟩

/-- One target: it grants nothing, or something new. -/
lemma placeBlocks_cases (o : ObjId) (sl : Slot) (info : TargetInfo) (need request : ℕ) (s : State) :
    ((allocateFromTarget o info request s).1 = [] ∧
      (placeBlocks o sl info need request s).1 = need ∧
        (placeBlocks o sl info need request s).2 =
        (allocateFromTarget o info request s).2.faulted) ∨
      ((allocateFromTarget o info request s).1 ≠ [] ∧
        Enlarged o sl s (placeBlocks o sl info need request s).2 ∧
        Larger o sl s (placeBlocks o sl info need request s).2) := by
  by_cases hnil : (allocateFromTarget o info request s).1 = []
  · refine .inl ⟨hnil, ?_⟩
    simp [placeBlocks, if_pos hnil]
  · right
    rcases allocateFromTarget_cases o info request s with ⟨h, -⟩ | ⟨hgran, -, hstt⟩
    · exact absurd h hnil
    simp only [placeBlocks, if_neg hnil, hstt]
    refine ⟨hnil, ⟨rfl, ?_, subset_append_left _ _, ?_⟩, .inr ?_⟩
    · rw [modifySpace, replicas_modifySlot]
      rfl
    · rw [modifySpace, slot_modifySlot, computeTotalSizeSlow_append]
      exact le_add_right _ _
    · obtain ⟨e, he⟩ := exists_mem_of_ne_nil _ hnil
      exact ⟨e, o, mem_append_right _ (mem_map_of_mem he), hgran.nodup.2 e he⟩

/-- A refusal uses up an answer at most. -/
lemma Marked.refused {info : TargetInfo} {request : ℕ}
    (h : (allocateFromTarget o info request s).1 = []) :
    Marked s (allocateFromTarget o info request s).2 := by
  rcases allocateFromTarget_cases o info request s with ⟨-, hs | hs⟩ | ⟨-, -, hs⟩
  · rw [hs]
    exact .refl s
  · rw [hs]
    exact .ticked s
  · rw [hs, h, map_nil, append_nil]
    exact .ticked s

/-- The loop over the targets loses nothing, and gains something unless nobody grants anything. -/
lemma placeAll_run {remaining left : ℕ} {ts : List TargetInfo} (hpos : 0 < remaining)
    (hrun : (placeAll o sl preallocate ts remaining).run s = some (left, s')) :
    Attempt o sl (grantsNothing o remaining preallocate ts s)
    (left = remaining ∧ Marked s s') s s' := by
  induction ts generalizing s remaining with
  | nil =>
    obtain ⟨rfl, rfl⟩ := Prod.mk.inj (some.inj hrun)
    exact .of_marked (.refl s) ⟨rfl, .refl s⟩
  | cons target ts ih =>
    rw [placeAll, if_neg hpos.ne', run_bind, run_act] at hrun
    rw [grantsNothing]
    cases hcho : considerTarget target.pool remaining preallocate s with
    | none =>
      rw [hcho] at hrun
      exact ih hpos hrun
    | some choice =>
      obtain ⟨info, need, request⟩ := choice
      rw [hcho] at hrun
      simp only [run_bind, run_act, bind_some] at hrun
      rcases placeBlocks_cases o sl info need request s with ⟨hnil, hleft, hstt⟩ | ⟨hnil, henl, hlg⟩
      · have hmk : Marked s (placeBlocks o sl info need request s).2 := by
          rw [hstt]
          exact (Marked.refused hnil).trans (.faulted _)
        rw [hleft, Nat.sub_self] at hrun
        have hrest := ih hpos hrun
        simp only [hnil, decide_true, Bool.true_and]
        rw [← ((SameSupply.refl _).faulted).grantsNothing, ← hstt]
        exact hrest.between hmk.enlarged (.refl o sl s') fun h => ⟨h.1, hmk.trans h.2⟩
      · simp only [hnil, decide_false, Bool.false_and]
        have hrest : Enlarged o sl (placeBlocks o sl info need request s).2 s' := by
          by_cases hz0 : remaining - (need - (placeBlocks o sl info need request s).1) = 0
          · rw [hz0] at hrun
            have hdn : (placeAll o sl preallocate ts 0) = pure 0 := by
              cases ts with
              | nil => rfl
              | cons _ _ => rw [placeAll, if_pos rfl]
            rw [hdn] at hrun
            cases hrun
            exact .refl o sl _
          · exact (ih (pos_of_ne_zero hz0) hrun).enlarged
        exact .of_larger (henl.trans hrest) (hlg.enlarged hrest)

lemma fillLast_of_zero {additional : ℕ} {blocks : List BlobBlock}
    (h : (fillLast additional blocks).1 = 0) : (fillLast additional blocks).2 = blocks := by
  fun_induction fillLast additional blocks with
  | case1 => rfl
  | case2 b fill =>
    have hfill : fill = 0 := h
    rw [hfill, add_zero]
  | case3 b c bs ih => rw [ih h]

lemma computeTotalSizeSlow_fillLast (additional : ℕ) (blocks : List BlobBlock) :
    computeTotalSizeSlow (fillLast additional blocks).2
      = computeTotalSizeSlow blocks + (fillLast additional blocks).1 := by
  fun_induction fillLast additional blocks with
  | case1 => rfl
  | case2 b fill => simp
  | case3 b c bs ih => rw [computeTotalSizeSlow_cons, ih, computeTotalSizeSlow_cons b, add_assoc]

lemma recomputeTotalSize_of_sized {l : Layout} (h : Sized l) : l.recomputeTotalSize = l := by
  rw [Layout.recomputeTotalSize, ← h]

lemma modifySlot_of_fixed {f : Layout → Layout} (h : f ((s.objs o).slot sl) = (s.objs o).slot sl) :
    s.modifySlot o sl f = s := by
  rw [modifySlot, modifyObj, h]
  simp

/-- The last section of `ExtendBlob` leaves the blocks alone. -/
lemma finishExtend_enlarged (o : ObjId) (sl : Slot) (required remaining : ℕ) (s : State) :
    Enlarged o sl s (finishExtend o sl required remaining s).2 := by
  rw [finishExtend]
  split_ifs
  · exact (enlarged_modifySlot (f := .recomputeTotalSize) le_rfl).trans (Marked.faulted _).enlarged
  · exact enlarged_modifySlot (f := fun l => { l with totalSizeCache := required }) le_rfl

/-- The part of `ExtendBlob` that asks the targets. -/
lemma extendFromTargets_run {required additional : ℕ} (hpos : 0 < additional)
    (hrun : (extendFromTargets o sl required additional score minPersistence preallocate).run s
      = some (e, s')) :
    Attempt o sl (findsNoRoom o additional score minPersistence preallocate s)
      (Sized ((s.objs o).slot sl) → e ≠ 0 ∧ Marked s s') s s' := by
  rw [extendFromTargets, run_bind, run_act, bind_some] at hrun
  rw [findsNoRoom]
  rcases chooseTargets_cases score additional minPersistence s with
    ⟨⟨c, hc, hcho⟩, hstt⟩ | ⟨⟨ts, hcho⟩, hstt⟩
  · have hmk : Marked s (chooseTargets score additional minPersistence s).2 := by
      rcases hstt with h | h
      · rw [h]
        exact .faulted s
      · rw [h]
        exact (Marked.ticked s).trans (.faulted _)
    rw [hcho] at hrun ⊢
    cases hrun
    exact .of_marked hmk fun _ => ⟨hc, hmk⟩
  · have hmk : Marked s (chooseTargets score additional minPersistence s).2 := by
      rw [hstt]
      exact .ticked s
    rw [hcho] at hrun ⊢
    simp only [run_bind, run_act] at hrun
    obtain ⟨⟨left, s₁⟩, hpla, hend⟩ := bind_eq_some_iff.mp hrun
    have hls := finishExtend_enlarged o sl required left s₁
    rw [some.inj hend] at hls
    refine (placeAll_run hpos hpla).between hmk.enlarged hls ?_
    rintro ⟨rfl, hmk1⟩ hsz
    have hsl : (s₁.objs o).slot sl = (s.objs o).slot sl := by
      obtain ⟨n, f, rfl⟩ := hmk.trans hmk1
      rfl
    have hsm := modifySlot_of_fixed (hsl.symm ▸ recomputeTotalSize_of_sized hsz)
    rw [finishExtend, if_pos hpos, hsm] at hend
    cases hend
    exact ⟨by simp, (hmk.trans hmk1).trans (.faulted s₁)⟩

/-- **`ExtendBlob` alone.**  It loses nothing.  If the slot cannot be grown at all it fails and
leaves everything as it was; otherwise the slot has got bytes or something has been handed out. -/
lemma extendBlob_run (hsma : ((s.objs o).slot sl).totalSizeCache < u64 (offset + size))
    (hrun : (extendBlob o sl offset size score minPersistence preallocate).run s = some (e, s')) :
    Attempt o sl
      (growsNowhere o ((s.objs o).slot sl) (u64 (offset + size)) score minPersistence preallocate s)
      (Sized ((s.objs o).slot sl) → e ≠ 0 ∧ Marked s s') s s' := by
  rw [extendBlob] at hrun
  simp only [run_bind, run_act, bind_some] at hrun
  generalize u64 (offset + size) = required at *
  set l := (s.objs o).slot sl with hl
  rw [growsNowhere]
  by_cases hz0 : (fillLast (required - l.totalSizeCache) l.blocks).1 = 0
  · have hgrow : growIntoSpare o sl required s = (some (required - l.totalSizeCache), s) := by
      rw [growIntoSpare, ← hl, if_neg (not_le.mpr hsma)]
      simp only [hz0, fillLast_of_zero hz0, add_zero]
      rw [if_neg (by omega)]
      exact congrArg _ (modifySlot_of_fixed rfl)
    rw [hgrow] at hrun
    simp only [hz0, decide_true, Bool.true_and]
    exact extendFromTargets_run (by omega) hrun
  · simp only [hz0, decide_false, Bool.false_and]
    set filled := fillLast (required - l.totalSizeCache) l.blocks
    have hsz : computeTotalSizeSlow filled.2 = computeTotalSizeSlow l.blocks + filled.1 :=
      computeTotalSizeSlow_fillLast (required - l.totalSizeCache) l.blocks
    -- the first section has already made the slot larger, whatever comes next
    have hlg : ∀ n, Enlarged o sl s (s.modifySlot o sl fun _ => ⟨filled.2, n⟩) ∧
        Larger o sl s (s.modifySlot o sl fun _ => ⟨filled.2, n⟩) := by
      intro n
      refine ⟨enlarged_modifySlot (hsz ▸ le_add_right _ _), .inl ?_⟩
      rw [slot_modifySlot, hsz, ← hl]
      omega
    have hgrow : growIntoSpare o sl required s =
        if required - l.totalSizeCache - filled.1 = 0 then
          (none, s.modifySlot o sl fun _ => ⟨filled.2, required⟩)
        else (some (required - l.totalSizeCache - filled.1),
          s.modifySlot o sl fun _ => ⟨filled.2, l.totalSizeCache + filled.1⟩) := by
      rw [growIntoSpare, if_neg (not_le.mpr hsma)]
    rw [hgrow] at hrun
    split_ifs at hrun with hfu
    · cases hrun
      exact .of_larger (hlg _).1 (hlg _).2
    · have hrest := (extendFromTargets_run (by omega) hrun).enlarged
      exact .of_larger ((hlg _).1.trans hrest) ((hlg _).2.enlarged hrest)

/-- There is room already. -/
lemma extendBlob_run_of_fits (hft : u64 (offset + size) ≤ ((s.objs o).slot sl).totalSizeCache) :
    (extendBlob o sl offset size score minPersistence preallocate).run s = some (0, s) := by
  rw [extendBlob]
  simp [growIntoSpare, if_pos hft]

lemma extendBlob_enlarged
    (hrun : (extendBlob o sl offset size score minPersistence preallocate).run s = some (e, s')) :
    Enlarged o sl s s' := by
  by_cases hft : u64 (offset + size) ≤ ((s.objs o).slot sl).totalSizeCache
  · rw [extendBlob_run_of_fits hft] at hrun
    cases hrun
    exact .refl o sl s
  · exact (extendBlob_run (Nat.lt_of_not_le hft) hrun).enlarged

/-- Writing bytes leaves the objects, the map and what is handed out alone. -/
lemma writePieces_run {data : Buffer} {ps : List Piece} {ok : Bool}
    (hrun : (writePieces data ps).run s = some (ok, s')) :
    s'.objs = s.objs ∧ s'.blobs = s.blobs ∧ s'.live = s.live := by
  induction ps generalizing s ok with
  | nil =>
    cases hrun
    exact ⟨rfl, rfl, rfl⟩
  | cons p ps ih =>
    rw [writePieces, run_bind, run_act, bind_some, run_bind] at hrun
    obtain ⟨⟨rest, s₁⟩, hrest, hrun⟩ := bind_eq_some_iff.mp hrun
    cases hrun
    have hpc : (writePiece data p s).2.objs = s.objs ∧ (writePiece data p s).2.blobs = s.blobs ∧
        (writePiece data p s).2.live = s.live := by
      simp only [writePiece]
      split_ifs <;> exact ⟨rfl, rfl, rfl⟩
    obtain ⟨h1, h2, h3⟩ := ih hrest
    exact ⟨h1.trans hpc.1, h2.trans hpc.2.1, h3.trans hpc.2.2⟩

lemma allocateBuffer_marked (s : State) : Marked s (allocateBuffer s).2 := by
  rw [allocateBuffer]
  split_ifs
  · exact .ticked s
  · exact (Marked.ticked s).trans (.faulted _)

/-- `ResizeBlob` fails only when it has to grow the blob. -/
lemma resizeBlob_run {newSize : ℕ} (hsz : Sized (s.objs o).layout) (hnew : newSize < 2 ^ 64)
    (he : e ≠ 0) (hrun : (resizeBlob o newSize score minPersistence).run s = some (e, s')) :
    Attempt o .main (growsNowhere o (s.objs o).layout newSize score minPersistence 0 s)
      (Marked s s') s s' := by
  rw [resizeBlob] at hrun
  simp only [run_bind, run_act, bind_some] at hrun
  have hwrap : u64 (0 + newSize) = newSize := by
    rw [zero_add]
    exact mod_eq_of_lt hnew
  split_ifs at hrun with hsm hgrow
  · exact absurd (Prod.mk.inj (some.inj hrun)).1.symm he
  · obtain ⟨⟨e1, s₁⟩, hext, hrun⟩ := bind_eq_some_iff.mp ((run_bind _ _ _).symm.trans hrun)
    have hatt := extendBlob_run (by rw [hwrap]; exact hgrow) hext
    rw [hwrap] at hatt
    split_ifs at hrun with he1
    · cases hrun
      exact hatt.mono fun h => (h hsz).2
    -- the space is there, but it could not be filled with zeroes
    have hrest : Enlarged o .main s₁ s' := by
      rw [run_bind, run_act, bind_some] at hrun
      have hbuf : Enlarged o .main s₁ (allocateBuffer s₁).2 := (allocateBuffer_marked s₁).enlarged
      split_ifs at hrun with hok
      · rw [run_bind, run_act, bind_some, modifyExistingData, run_bind] at hrun
        obtain ⟨⟨ok, s₂⟩, hwr, hrun⟩ := bind_eq_some_iff.mp hrun
        cases hrun
        obtain ⟨hob, hbls, hlv⟩ := writePieces_run hwr
        exact hbuf.trans ⟨hbls, by rw [hob], by rw [hlv]; exact .refl _, by rw [hob]⟩
      · cases hrun
        exact hbuf
    exact hatt.between (.refl o .main s) hrest fun h => absurd (by omega) (h hsz).1
  · simp only [run_bind] at hrun
    obtain ⟨r1, -, hrun⟩ := bind_eq_some_iff.mp hrun
    obtain ⟨r2, -, hrun⟩ := bind_eq_some_iff.mp hrun
    obtain ⟨r3, -, hrun⟩ := bind_eq_some_iff.mp hrun
    obtain ⟨r4, -, hrun⟩ := bind_eq_some_iff.mp hrun
    exact absurd (Prod.mk.inj (some.inj hrun)).1.symm he

/-- Room for the primary. -/
lemma makeRoom_run {req : PutBlobTask} (hsz : Sized (s.objs o).layout) (he : e ≠ 0)
    (hrun : (makeRoom req o offset size score).run s = some (e, s')) :
    Attempt o .main
      (growsNowhere o (s.objs o).layout (u64 (offset + size)) score req.context.minPersistenceLevel
        (if req.replace then 0 else req.context.preallocate) s) (Marked s s') s s' := by
  rw [makeRoom] at hrun
  split_ifs at hrun ⊢ with hrep
  · exact resizeBlob_run hsz (mod_lt _ (by positivity)) he hrun
  · by_cases hft : u64 (offset + size) ≤ ((s.objs o).slot .main).totalSizeCache
    · rw [extendBlob_run_of_fits hft] at hrun
      exact absurd (Prod.mk.inj (some.inj hrun)).1.symm he
    · exact (extendBlob_run (Nat.lt_of_not_le hft) hrun).mono fun h => (h hsz).2

end Nowhere

/-! ## The allocation step of a put -/

/-- The allocation step of a put that holds the token, on the copy it is addressed to: its code,
`none` if the put ends before it. -/
def allocationLocked (req : PutBlobTask) (o : ObjId) (offset size : ℕ) (score : ℚ) :
    Co State (Option ℕ) :=
  if req.context.replica = kCacheReplica ∨ 0 < req.context.replica then do
    let idx ← Co.act (selectReplica req o)
    if idx = 0 then pure none
    else do
      let lent ← Co.act (lendReplica req o idx req.score score)
      let e ← extendBlob o .staging offset size lent.1 lent.2.1 req.context.preallocate
      pure (some e)
  else do
    let e ← makeRoom req o offset size score
    pure (some e)

/-- A put up to its allocation step. -/
def allocationStep (wid : ℕ) (tok : TaskId) (req : PutBlobTask) : Co State (Option ℕ) :=
  match req.range with
  | .error _ => pure none
  | .ok (offset, size) => do
      let found ← Co.act (lookupForPut wid req)
      match found with
      | .error _ => pure none
      | .ok (o, score) => do
          lockWrite tok o
          allocationLocked req o offset size score

/-- A blob, the total of its tag and what is handed out are as before. -/
structure Unchanged (key : BlobKey) (s s' : State) : Prop where
  existence : (s'.blobs.lookup key).isSome = (s.blobs.lookup key).isSome
  size : getBlobSize key s' = getBlobSize key s
  content : ∀ sel, blobBytes key sel s' = blobBytes key sel s
  total : (s'.tagInfos.lookup key.tag).map TagInfo.totalSize
    = (s.tagInfos.lookup key.tag).map TagInfo.totalSize
  extents : ∀ e, (∃ o, (e, o) ∈ s'.live) ↔ ∃ o, (e, o) ∈ s.live

/-- The copy that a put is addressed to cannot be grown at all. -/
def PutBlobTask.growsNowhere (req : PutBlobTask) (o : ObjId) (offset size : ℕ) (score : ℚ)
    (s : State) : Bool :=
  if req.context.replica = kCacheReplica ∨ 0 < req.context.replica then
    let idx := (selectReplica req o s).1
    let lent := lendReplica req o idx req.score score (selectReplica req o s).2
    Cte.growsNowhere o (lent.2.objs o).staging (u64 (offset + size)) lent.1.1 lent.1.2.1
      req.context.preallocate s
  else Cte.growsNowhere o (s.objs o).layout (u64 (offset + size)) score
    req.context.minPersistenceLevel (if req.replace then 0 else req.context.preallocate) s

/-- The blob is there and the copy that the put is addressed to cannot be grown at all. -/
def PutBlobTask.leavesNoTrace (req : PutBlobTask) (s : State) : Bool :=
  match req.range, s.checkBlobExists req.key with
  | .ok (offset, size), some o =>
    req.growsNowhere o offset size (if req.score < 0 then (s.objs o).score else req.score) s
  | _, _ => false

/-! ## What a failed put leaves -/

section Failed

variable {wid e : ℕ} {tok : TaskId} {req : PutBlobTask} {o : ObjId} {s s' s₂ : State} {r : Reply}

/-- The way of a put under the token, from `s₁` to `s3`, if its allocation step fails in `s₂`. -/
def FailsAt (wid : ℕ) (req : PutBlobTask) (o : ObjId) (offset size : ℕ) (score : ℚ) (e : ℕ)
    (s₁ s₂ s3 : State) : Prop :=
  if req.context.replica = kCacheReplica ∨ 0 < req.context.replica then
    ∃ idx s₁' lent s1'', selectReplica req o s₁ = (idx, s₁') ∧ idx ≠ 0 ∧
      lendReplica req o idx req.score score s₁' = (lent, s1'') ∧
      (extendBlob o .staging offset size lent.1 lent.2.1 req.context.preallocate).run s1''
        = some (e, s₂) ∧
      s3 = (publishReplica wid req o idx lent.1 (10 + e) s₂).2
  else (makeRoom req o offset size score).run s₁ = some (e, s₂) ∧ s3 = s₂

/-- The part under the token of a put whose allocation step fails. -/
lemma putLocked_run_of_failed {rc : ℕ} {s3 : State} (he : e ≠ 0)
    (hal : (allocationLocked req o offset size score).run s₁ = some (some e, s₂))
    (hput : (putLocked wid req o offset size score).run s₁ = some (rc, s3)) :
    rc = 10 + e ∧ FailsAt wid req o offset size score e s₁ s₂ s3 := by
  rw [putLocked] at hput
  rw [allocationLocked] at hal
  rw [FailsAt]
  split_ifs at hal hput ⊢ with hsel
  · simp only [run_bind, run_act, bind_some] at hal hput
    cases hsele : selectReplica req o s₁ with
    | mk idx s₁' =>
      rw [hsele] at hal hput
      split_ifs at hal hput with hidx
      · exact absurd (Prod.mk.inj (some.inj hal)).1 (by simp)
      rw [writeReplicaData] at hput
      simp only [run_bind, run_act, bind_some] at hal hput
      cases hlend : lendReplica req o idx req.score score s₁' with
      | mk lent s1'' =>
        rw [hlend] at hal hput
        obtain ⟨⟨e', s2'⟩, hext, hal⟩ := bind_eq_some_iff.mp hal
        obtain ⟨he', rfl⟩ := Prod.mk.inj (some.inj hal)
        cases he'
        rw [hext] at hput
        simp only [if_pos he, run_pure, bind_some] at hput
        cases hput
        exact ⟨rfl, idx, s₁', lent, s1'', rfl, hidx, hlend, hext, rfl⟩
  · rw [putPrimary] at hput
    simp only [run_bind, run_act, bind_some] at hal hput
    obtain ⟨⟨e', s2'⟩, hrm, hal⟩ := bind_eq_some_iff.mp hal
    obtain ⟨he', rfl⟩ := Prod.mk.inj (some.inj hal)
    cases he'
    rw [hrm, bind_some] at hput
    simp only [if_pos he] at hput
    cases hput
    exact ⟨rfl, hrm, rfl⟩

/-- A put whose allocation step fails: where it has got to, and how it ends. -/
lemma putBlob_run_of_failed
    (hal : (allocationStep wid tok req).run s = some (some e, s₂)) (he : e ≠ 0)
    (hput : (putBlob wid tok req).run s = some (r, s')) :
    r = reply (10 + e) ∧ ∃ offset size o score s0 s3, s' = (unlockWrite tok o s3).2 ∧
      req.range = .ok (offset, size) ∧ lookupForPut wid req s = (.ok (o, score), s0) ∧
      FailsAt wid req o offset size score e (takeToken tok o s0).2 s₂ s3 := by
  cases hrg : req.range with
  | error rc =>
    rw [allocationStep, hrg] at hal
    exact absurd (Prod.mk.inj (some.inj hal)).1 (by simp)
  | ok range =>
    obtain ⟨offset, size⟩ := range
    rw [allocationStep, hrg] at hal
    rw [putBlob, hrg] at hput
    simp only [run_bind, run_act, bind_some] at hal hput
    cases hfd : lookupForPut wid req s with
    | mk found s0 =>
      rw [hfd] at hal hput
      cases found with
      | error rc => exact absurd (Prod.mk.inj (some.inj hal)).1 (by simp)
      | ok found =>
        obtain ⟨o, score⟩ := found
        simp only [run_bind] at hal hput
        obtain ⟨⟨u, s₁⟩, hlock, hal⟩ := bind_eq_some_iff.mp hal
        rw [hlock, bind_some] at hput
        have hs1 : s₁ = (takeToken tok o s0).2 := by
          rw [lockWrite, run_await] at hlock
          split_ifs at hlock
          exact (congrArg Prod.snd (some.inj hlock)).symm
        subst hs1
        obtain ⟨⟨rc, s3⟩, hloc, hput⟩ := bind_eq_some_iff.mp hput
        cases hput
        have hend := putLocked_run_of_failed he hal hloc
        exact ⟨congrArg reply hend.1, offset, size, o, score, s0, s3, rfl, rfl, rfl, hend.2⟩

/-- What is in the map and its copies are as before, and so is what is handed out. -/
lemma Unchanged.of_copies {key : BlobKey} (hkey : s.checkBlobExists key = some o)
    (hbls : s'.blobs = s.blobs) (hmem : s'.mem = s.mem) (his : s'.tagInfos = s.tagInfos)
    (hlv : s'.live = s.live)
    (hsz : (s'.objs o).layout.totalSizeCache = (s.objs o).layout.totalSizeCache)
    (hcop : ∀ sel, ((s'.objs o).readLayout sel).blocks = ((s.objs o).readLayout sel).blocks) :
    Unchanged key s s' := by
  have hkey' : s'.checkBlobExists key = some o := by
    rw [← hkey, checkBlobExists, checkBlobExists, hbls]
  have hlk := Argument.lookup_of_checkBlobExists hkey
  refine ⟨by rw [hbls], ?_, fun sel => ?_, by rw [his], fun e => by rw [hlv]⟩
  · simp [getBlobSize, hkey, hkey', hsz]
  · rw [blobBytes, blobBytes, hbls, hlk, map_some, map_some, hmem, hcop]

/-- A copy with more bytes, or an extent that was not handed out, is a change. -/
lemma not_unchanged_of_larger {key : BlobKey} (sel : ℕ) (hkey : s.blobs.lookup key = some o)
    (hkey' : s'.blobs.lookup key = some o)
    (h : computeTotalSizeSlow ((s.objs o).readLayout sel).blocks
        < computeTotalSizeSlow ((s'.objs o).readLayout sel).blocks ∨
      ∃ e o', (e, o') ∈ s'.live ∧ ∀ o'', (e, o'') ∉ s.live) : ¬ Unchanged key s s' := by
  intro hsm
  rcases h with h | ⟨e, o', he, hnew⟩
  · have hct := hsm.content sel
    rw [blobBytes, blobBytes, hkey, hkey'] at hct
    have hlen := congrArg length (some.inj hct)
    rw [length_bytesOf, length_bytesOf] at hlen
    omega
  · obtain ⟨o'', ho''⟩ := (hsm.extents e).mp ⟨o', he⟩
    exact hnew o'' ho''

section

variable (tok o s)

lemma readLayout_unlockWrite (sel : ℕ) :
    ((unlockWrite tok o s).2.objs o).readLayout sel = (s.objs o).readLayout sel := by
  simp only [unlockWrite, modifyObj, update_self]
  split_ifs <;> rfl

lemma layout_unlockWrite : ((unlockWrite tok o s).2.objs o).layout = (s.objs o).layout :=
  readLayout_unlockWrite tok o s 0

lemma takeToken_objs_self : (takeToken tok o s).2.objs o =
    { s.objs o with writeOwner := some tok } :=
  update_self ..

end

/-- A put of the primary of an existing blob that finds no room. -/
lemma unchanged_iff_of_makeRoom (hkey : s.checkBlobExists req.key = some o)
    (hsz : Sized (s.objs o).layout) (he : e ≠ 0)
    (hrm : (makeRoom req o offset size score).run (takeToken tok o s).2 = some (e, s₂)) :
    Unchanged req.key s (unlockWrite tok o s₂).2 ↔
      growsNowhere o (s.objs o).layout (u64 (offset + size)) score req.context.minPersistenceLevel
        (if req.replace then 0 else req.context.preallocate) s = true := by
  have hlay : ((takeToken tok o s).2.objs o).layout = (s.objs o).layout := by
    rw [takeToken_objs_self]
  have hlk := Argument.lookup_of_checkBlobExists hkey
  obtain ⟨henl, hnow, hlg⟩ := makeRoom_run (hlay ▸ hsz) he hrm
  have hsup : SameSupply s (takeToken tok o s).2 := ⟨rfl, rfl, rfl, rfl⟩
  rw [hlay, hsup.growsNowhere] at hnow hlg
  constructor
  · intro hsm
    by_contra hgr
    refine not_unchanged_of_larger 0 hlk ?_ ?_ hsm
    · rw [← hlk]
      exact congrArg (AList.lookup req.key) henl.blobs
    · rw [readLayout_unlockWrite]
      rcases hlg (Bool.eq_false_iff.mpr hgr) with h | h
      · exact .inl (by simpa [slot, readLayout, hlay] using h)
      · exact .inr h
  · intro h
    obtain ⟨n, f, rfl⟩ := hnow h
    refine .of_copies hkey rfl rfl rfl rfl ?_ fun sel => ?_
    · rw [layout_unlockWrite]
      exact congrArg _ hlay
    · rw [readLayout_unlockWrite]
      exact congrArg (fun b => (b.readLayout sel).blocks) (takeToken_objs_self tok o s)

/-- Empty replicas appended to a list cannot be told from absent ones. -/
lemma layout_getD_append {extra : List Replica} (hextr : ∀ r ∈ extra, r.layout = .empty) (i : ℕ) :
    ((rs ++ extra).getD i fresh).layout = (rs.getD i fresh).layout := by
  by_cases hi : i < rs.length
  · rw [getD_append _ _ _ _ hi]
  · have hi' : rs.length ≤ i := Nat.le_of_not_lt hi
    rw [getD_append_right _ _ _ _ hi', getD_eq_default _ _ hi']
    by_cases hj : i - rs.length < extra.length
    · rw [getD_eq_getElem _ _ hj, hextr _ (getElem_mem hj)]
      rfl
    · rw [getD_eq_default _ _ (Nat.le_of_not_lt hj)]

/-- The object after a failed write of a replica: the staged layout goes back to the replica. -/
lemma publishReplica_readLayout (wid : ℕ) (req : PutBlobTask) (score : ℚ)
    (he : e ≠ 0) (hidx : idx ≠ 0) (hlen : idx - 1 < (s.objs o).replicas.length) (sel : ℕ) :
    ((publishReplica wid req o idx score e s).2.objs o).readLayout sel =
      if sel = idx then (s.objs o).staging else (s.objs o).readLayout sel := by
  have hobj : (publishReplica wid req o idx score e s).2.objs o =
      { (s.objs o).modifyReplica idx (fun r => { r with layout := (s.objs o).staging }) with
        staging := .empty } := by
    simp only [publishReplica, he, false_and, if_false]
    exact update_self ..
  rw [hobj]
  by_cases hsel : sel = idx
  · subst hsel
    rw [if_pos rfl, readLayout, if_pos (pos_of_ne_zero hidx)]
    exact congrArg Replica.layout ((getD_modify ..).trans (if_pos ⟨rfl, hlen⟩))
  · rw [readLayout, readLayout]
    split_ifs with hpos
    · exact congrArg Replica.layout ((getD_modify ..).trans (if_neg (by omega)))
    · rfl

lemma publishReplica_blobs : (publishReplica wid req o idx score e s).2.blobs = s.blobs := by
  simp only [publishReplica]
  split_ifs <;> rfl

/-- What a replica lends, and what is left of the object. -/
lemma lendReplica_objs (req : PutBlobTask) (o : ObjId) (idx : ℕ) (requested fallback : ℚ)
    (s : State) : ((lendReplica req o idx requested fallback s).2.objs o).staging
        = Layout.recomputeTotalSize ⟨((s.objs o).replica idx).layout.blocks, 0⟩ ∧
      ((lendReplica req o idx requested fallback s).2.objs o).layout = (s.objs o).layout ∧
      ∃ f, ((lendReplica req o idx requested fallback s).2.objs o).replicas
        = (s.objs o).replicas.modify (idx - 1) f := by
  have hobj : (lendReplica req o idx requested fallback s).2.objs o = _ := update_self ..
  rw [hobj]
  exact ⟨rfl, rfl, _, rfl⟩

lemma selectReplica_objs_self (s : State) : (selectReplica req o s).2.objs o =
    { s.objs o with replicas := (resolveReplicaSel (s.objs o).replicas req.context.replica
      (!req.context.replicaFlags.updateOnly)).2 } :=
  update_self ..

lemma selectReplica_takeToken (req : PutBlobTask) (tok : TaskId) (o : ObjId) (s : State) :
    (selectReplica req o (takeToken tok o s).2).1 = (selectReplica req o s).1 ∧
      ((selectReplica req o (takeToken tok o s).2).2.objs o).replicas
        = ((selectReplica req o s).2.objs o).replicas ∧
      ((selectReplica req o (takeToken tok o s).2).2.objs o).layout = (s.objs o).layout := by
  have h := takeToken_objs_self tok o s
  refine ⟨?_, ?_, ?_⟩
  · simp only [selectReplica, replica, h]
    rfl
  · rw [selectReplica_objs_self, selectReplica_objs_self, h]
  · rw [selectReplica_objs_self, h]

section

variable {s₁' : State} {lent : ℚ × ℤ × ℕ}
  (hsele : selectReplica req o (takeToken tok o s).2 = (idx, s₁))
  (hlend : lendReplica req o idx req.score score s₁ = (lent, s₁'))
include hsele hlend

/-- The token does not matter for what is lent. -/
lemma lent_of_takeToken :
    (selectReplica req o s).1 = idx ∧
      (lendReplica req o idx req.score score (selectReplica req o s).2).1 = lent ∧
      ((lendReplica req o idx req.score score (selectReplica req o s).2).2.objs o).staging
        = (s₁'.objs o).staging := by
  obtain ⟨hidx, hrs, -⟩ := selectReplica_takeToken req tok o s
  rw [hsele] at hidx hrs
  dsimp only at hidx hrs
  have hlent : (lendReplica req o idx req.score score s₁).1
      = (lendReplica req o idx req.score score (selectReplica req o s).2).1 := by
    simp only [lendReplica, replica, hrs]
    rfl
  have hsg := (lendReplica_objs req o idx req.score score s₁).1
  have hsg' := (lendReplica_objs req o idx req.score score (selectReplica req o s).2).1
  rw [replica, ← hrs] at hsg'
  simp only [hlend] at hlent hsg
  exact ⟨hidx.symm, hlent.symm, hsg'.trans hsg.symm⟩

/-- Nothing but the object has changed when a replica has been lent. -/
lemma supply_lent : SameSupply s s₁' ∧ s₁'.blobs = s.blobs ∧ s₁'.mem = s.mem ∧
    s₁'.tagInfos = s.tagInfos := by
  have h1 : s₁ = (selectReplica req o (takeToken tok o s).2).2 := by rw [hsele]
  have h2 : s₁' = (lendReplica req o idx req.score score s₁).2 := by rw [hlend]
  rw [h2, h1]
  exact ⟨⟨rfl, rfl, rfl, rfl⟩, rfl, rfl, rfl⟩

/-- A put of a replica of an existing blob that finds no room. -/
lemma unchanged_iff_of_extendReplica (hkey : s.checkBlobExists req.key = some o) (he : e ≠ 0)
    (hidx : idx ≠ 0)
    (hext : (extendBlob o .staging offset size lent.1 lent.2.1 req.context.preallocate).run s₁'
      = some (e, s₂)) :
    Unchanged req.key s (unlockWrite tok o (publishReplica wid req o idx lent.1 (10 + e) s₂).2).2 ↔
      growsNowhere o (s₁'.objs o).staging (u64 (offset + size)) lent.1 lent.2.1
        req.context.preallocate s = true := by
  have hlk := Argument.lookup_of_checkBlobExists hkey
  -- the replica that was selected, and the bytes it lends
  obtain ⟨⟨extra, hextr, hemp⟩, hbd⟩ := resolveReplicaSel_spec (s.objs o).replicas
    req.context.replica (!req.context.replicaFlags.updateOnly)
  have hgrn : (s₁.objs o).replicas = (s.objs o).replicas ++ extra ∧
      (s₁.objs o).layout = (s.objs o).layout ∧ idx - 1 < (s₁.objs o).replicas.length := by
    obtain ⟨hsel, hrs, hlay⟩ := selectReplica_takeToken req tok o s
    rw [hsele] at hsel hrs hlay
    have hrs' : (s₁.objs o).replicas = (resolveReplicaSel (s.objs o).replicas
        req.context.replica (!req.context.replicaFlags.updateOnly)).2 := by
      rw [hrs, selectReplica_objs_self]
    refine ⟨hrs'.trans hextr, hlay, ?_⟩
    rw [hrs']
    have hsel' : idx = (selectReplica req o s).1 := hsel
    simp only [selectReplica] at hsel'
    split_ifs at hsel'
    · exact absurd hsel' hidx
    · rw [hsel']
      exact hbd (hsel' ▸ hidx)
  obtain ⟨hrs, hlay, hlen⟩ := hgrn
  obtain ⟨hsg, hlay', f, hrs'⟩ := lendReplica_objs req o idx req.score score s₁
  rw [hlend] at hsg hlay' hrs'
  have hbs : (s₁'.objs o).staging.blocks = ((s.objs o).readLayout idx).blocks := by
    rw [hsg, readLayout, if_pos (pos_of_ne_zero hidx), replica, hrs, layout_getD_append hemp]
    rfl
  obtain ⟨hsup, hmaps⟩ := supply_lent hsele hlend
  have hsz : Sized ((s₁'.objs o).slot .staging) := by
    change Sized (s₁'.objs o).staging
    rw [hsg]
    rfl
  have hsma : ¬ u64 (offset + size) ≤ ((s₁'.objs o).slot .staging).totalSizeCache := by
    intro hft
    rw [extendBlob_run_of_fits hft] at hext
    exact he (Prod.mk.inj (some.inj hext)).1.symm
  obtain ⟨henl, hnow, hlg⟩ := extendBlob_run (Nat.lt_of_not_le hsma) hext
  rw [hsup.growsNowhere] at hnow hlg
  have hlen2 : idx - 1 < (s₂.objs o).replicas.length := by
    rwa [henl.replicas, hrs', length_modify]
  have hpub := publishReplica_readLayout wid req lent.1 (show 10 + e ≠ 0 by omega) hidx hlen2
  generalize hs₃ : (publishReplica wid req o idx lent.1 (10 + e) s₂).2 = s₃ at hpub ⊢
  have hfrm : s₃.blobs = s₂.blobs ∧ s₃.live = s₂.live ∧ s₃.mem = s₂.mem ∧
      s₃.tagInfos = s₂.tagInfos := by
    simp only [← hs₃, publishReplica, Nat.add_eq_zero_iff, OfNat.ofNat_ne_zero, false_and, if_false]
    exact ⟨rfl, rfl, rfl, rfl⟩
  constructor
  · intro hsm
    by_contra hgr
    refine not_unchanged_of_larger idx hlk ?_ ?_ hsm
    · change s₃.blobs.lookup req.key = some o
      rw [hfrm.1, henl.blobs, hmaps.1, hlk]
    · rw [readLayout_unlockWrite, hpub, if_pos rfl]
      rcases hlg (Bool.eq_false_iff.mpr hgr) with h | h
      · refine .inl (lt_of_eq_of_lt ?_ h)
        exact congrArg computeTotalSizeSlow hbs.symm
      · obtain ⟨e', o', he', hnew⟩ := h
        exact .inr ⟨e', o', hfrm.2.1 ▸ he', fun o'' => hsup.live ▸ hnew o''⟩
  · intro h
    obtain ⟨n, flag, rfl⟩ := (hnow h hsz).2
    have hmn : (s₃.objs o).layout = (s.objs o).layout :=
      ((hpub 0).trans (if_neg (Ne.symm hidx))).trans (hlay'.trans hlay)
    refine .of_copies hkey (hfrm.1.trans hmaps.1) (hfrm.2.2.1.trans hmaps.2.1)
      (hfrm.2.2.2.trans hmaps.2.2) (hfrm.2.1.trans hsup.live) ?_ fun sel => ?_
    · rw [layout_unlockWrite, hmn]
    · rw [readLayout_unlockWrite, hpub]
      split_ifs with hsel
      · rwa [hsel]
      · simp only [readLayout]
        split_ifs with hpos
        · rw [replica, hrs', getD_modify, if_neg (by omega), hrs, layout_getD_append hemp]
          rfl
        · exact congrArg Layout.blocks (hlay'.trans hlay)

end

/-- **Failed puts.**  A put whose allocation step fails returns the error of that step.  It leaves
the blob, the total of its tag and what is handed out as they were exactly if the blob was there and
the copy that the put is addressed to could not be grown at all. -/
theorem unchanged_iff_leavesNoTrace (wid : ℕ) (tok : TaskId) (req : PutBlobTask) (hs : Quiescent s)
    (halloc : (allocationStep wid tok req).run s = some (some e, s₂)) (he : e ≠ 0)
    (hput : (putBlob wid tok req).run s = some (r, s')) :
    r.rc = 10 + e ∧ (Unchanged req.key s s' ↔ req.leavesNoTrace s = true) := by
  obtain ⟨hr, offset, size, o, score, s₀, s₃, rfl, hrg, hfd, hend⟩ :=
    putBlob_run_of_failed halloc he hput
  rw [FailsAt] at hend
  refine ⟨by rw [hr]; rfl, ?_⟩
  have hnm := PutBlobTask.name_ne hrg
  have hlk : s.checkBlobExists req.key = s.blobs.lookup req.key := if_neg hnm
  cases hk : s.blobs.lookup req.key with
  | none =>
    -- the put has created the blob
    have htra : req.leavesNoTrace s = false := by
      simp only [PutBlobTask.leavesNoTrace, hrg, hlk, hk]
    obtain ⟨hobj, hcr⟩ : Sized (s₀.objs o).layout ∧ s₀.blobs.lookup req.key = some o := by
      rcases lookupForPut_cases wid hnm s with h | ⟨_, _, h, -⟩ | ⟨sc, -, -, h⟩
      · exact absurd (congrArg Prod.fst (hfd.symm.trans h)) (by simp)
      · simp [hk] at h
      · obtain ⟨ho, rfl⟩ := Prod.mk.inj (hfd.symm.trans h)
        cases ho
        refine ⟨?_, AList.lookup_insert _⟩
        have hnew : (createNewBlob wid req.key score s).2.objs s.nextObj
            = BlobInfo.new req.key.name score := update_self ..
        rw [hnew]
        rfl
    have hkp : s₃.blobs = s₀.blobs := by
      split_ifs at hend with hsel
      · obtain ⟨idx, s₁, lent, s₁', hsele, -, hlend, hext, rfl⟩ := hend
        rw [publishReplica_blobs, (extendBlob_enlarged hext).blobs, (supply_lent hsele hlend).2.1]
      · obtain ⟨hrm, rfl⟩ := hend
        have hobj' : Sized ((takeToken tok o s₀).2.objs o).layout := by
          rw [takeToken_objs_self]
          exact hobj
        exact (makeRoom_run hobj' he hrm).enlarged.blobs
    rw [htra]
    refine iff_of_false (fun hsm => ?_) (by simp)
    have hex := hsm.existence
    rw [hk] at hex
    change (s₃.blobs.lookup req.key).isSome = false at hex
    rw [hkp, hcr] at hex
    simp at hex
  | some o' =>
    have hlk' := hlk.trans hk
    have hset := hs.inv.free o' (hs.tokens o')
    rw [lookupForPut, hlk'] at hfd
    simp only [PutBlobTask.leavesNoTrace, hrg, hlk', PutBlobTask.growsNowhere] at hfd ⊢
    generalize (if req.score < 0 then (s.objs o').score else req.score) = score' at hfd ⊢
    have hsco : ¬ 1 < score' := fun h => by
      rw [if_pos h] at hfd
      exact absurd (congrArg Prod.fst hfd) (by simp)
    rw [if_neg hsco] at hfd
    obtain ⟨ho, rfl⟩ := Prod.mk.inj hfd
    cases ho
    by_cases hsel : req.context.replica = kCacheReplica ∨ 0 < req.context.replica
    · rw [if_pos hsel] at hend ⊢
      obtain ⟨idx, s₁, lent, s₁', hsele, hidx, hlend, hext, rfl⟩ := hend
      obtain ⟨hidx', hlent, hsg⟩ := lent_of_takeToken hsele hlend
      rw [unchanged_iff_of_extendReplica hsele hlend hlk' he hidx hext, hidx', hlent, hsg]
    · rw [if_neg hsel] at hend ⊢
      obtain ⟨hrm, rfl⟩ := hend
      exact unchanged_iff_of_makeRoom hlk' hset.sizes.main he hrm

end Failed

/-! ## A put that uses up spare capacity -/

/-- A put of one byte to the blob `a` that has 4096 bytes allocated. -/
def oneByte : PutBlobTask :=
  ⟨⟨0, 1⟩, "a", none, 0, 1, [], some fun _ => 7, 1, { Context.default with preallocate := 4096 },
    false⟩

/-- A put of 2 MiB to the same blob. -/
def twoMiB : PutBlobTask :=
  ⟨⟨0, 1⟩, "a", none, 0, 2097152, [], some fun _ => 7, 1, .default, false⟩

/-- A blob of one byte with 4095 bytes of spare capacity, on a target of 1 MiB.  A put of 2 MiB
takes the spare capacity, then no target has room for the rest: it fails, but the blob has 4096
bytes. -/
theorem not_unchanged_twoMiB : ∃ s s₂ s',
    (putBlob 0 ⟨0, 0⟩ oneByte).run (State.start [⟨⟨1, 0⟩, 0, 1048576, .longTerm, 100⟩] Env.obliging)
      = some (reply 0, s) ∧
    (allocationStep 0 ⟨1, 0⟩ twoMiB).run s = some (some 2, s₂) ∧
    (putBlob 0 ⟨1, 0⟩ twoMiB).run s = some (reply 12, s') ∧ ¬ Unchanged twoMiB.key s s' ∧
    getBlobSize twoMiB.key s = .ok 1 ∧ getBlobSize twoMiB.key s' = .ok 4096 := by
  refine ⟨_, _, _, rfl, rfl, rfl, fun h => ?_, by decide +kernel, by decide +kernel⟩
  exact absurd h.size (by decide +kernel)

/-- A container whose only target refuses every allocation, with one blob that has no bytes. -/
def State.emptyBlob : State :=
  { State.start [⟨⟨1, 0⟩, 0, 4194304, .longTerm, 100⟩] { Env.obliging with alloc :=
    fun _ _ _ => [] } with
    nextObj := 1
    blobs := (∅ : AList fun _ : BlobKey => ObjId).insert twoMiB.key 0 }

lemma quiescent_emptyBlob : Quiescent State.emptyBlob := by
  have h := quiescent_start State.emptyBlob.targets State.emptyBlob.env
  have hsm : ∀ o, SameBlob o (start State.emptyBlob.targets State.emptyBlob.env) .emptyBlob :=
    fun _ => ⟨rfl, fun _ => .rfl, fun _ _ _ _ => rfl, fun _ => le_refl _, rfl⟩
  refine ⟨⟨h.inv.live, fun _ _ => rfl, fun x hx => absurd hx not_mem_nil, fun k o hk => ?_,
    fun o ho => (hsm o).settled (fun h => h) (h.inv.free o ho), h.inv.published, h.inv.pins,
    h.inv.reading⟩, h.tokens⟩
  have hk' : ((∅ : AList fun _ : BlobKey => ObjId).insert twoMiB.key 0).lookup k = some o := hk
  by_cases hkey : k = twoMiB.key
  · rw [hkey] at hk'
    rw [← some.inj hk']
    exact one_pos
  · rw [AList.lookup_insert_ne hkey] at hk'
    simp at hk'

/-- The target is asked and grants nothing: the put returns 13 and the blob is as it was. -/
theorem unchanged_iff_leavesNoTrace_emptyBlob : ∃ s', (putBlob 0 ⟨0, 0⟩ twoMiB).run State.emptyBlob
      = some (reply 13, s') ∧ Unchanged twoMiB.key State.emptyBlob s' :=
  ⟨_, rfl, (unchanged_iff_leavesNoTrace (e := 3) 0 ⟨0, 0⟩ twoMiB quiescent_emptyBlob rfl (by decide)
    rfl).2.mpr (by decide +kernel)⟩

end ClioCore.Cte
