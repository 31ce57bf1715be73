import ClioCore.Cte.Sections

/-!
# The helpers of a task that holds a token

What the walks of `DataPath` and the helpers of `Placement` do to the blob whose token their task
holds, whatever the other tasks do meanwhile.
-/

namespace ClioCore.Cte

open Foundations List Nat Bytes BlobBlock
open SafeBdev (PoolId)

variable {α : Type} {mem : PoolId → ℕ → UInt8} {st n size off : ℕ} {blk : BlobBlock}
  {bs pre post blocks : List BlobBlock} {K : Prop} {content : List UInt8}

variable {t : TaskId} {o : ObjId} {key : BlobKey} {S : Setting t o key} {b cur : BlobInfo}
  {bytes : Bytes} {s : State} {sl : Slot} {ps : List Piece} {K' : Prop}

/-- A section of a task that holds a token. -/
lemma Setting.Safe.mine {f : State → α × State} {Q : α → State → Prop} (hS : S.Ready s)
    (h : Mine t o b bytes s)
    (hf : ∀ s, Inv s → Mine t o b bytes s → Section t o key s (f s).2 ∧ Q (f s).1 (f s).2) :
    S.Safe Q (Co.act f) s :=
  Setting.Safe.await (A := Mine t o b bytes) (fun _ h => h.writeOwner) (fun _ _ hR h => h.stable hR)
    hS h fun s hI h _ => hf s hI h

/-- A section that only looks. -/
lemma Setting.Safe.look {f : State → α} (hS : S.Ready s) (h : Mine t o b bytes s) :
    S.Safe (fun a s => Mine t o b bytes s ∧ a = f s) (Co.act fun s => (f s, s)) s :=
  Setting.Safe.mine hS h fun s hI h =>
    ⟨(h.quiet hI (Quiet.refl key s) rfl).1, h, rfl⟩

/-- A section of a task that is giving back extents. -/
lemma Setting.Safe.shed {f : State → α × State} {Q : α → State → Prop} {todo : List Extent}
    (hS : S.Ready s) (h : Shed t o cur b todo bytes s)
    (hf : ∀ s, Inv s → Shed t o cur b todo bytes s → Section t o key s (f s).2 ∧
      Q (f s).1 (f s).2) :
    S.Safe Q (Co.act f) s :=
  Setting.Safe.await (A := Shed t o cur b todo bytes) (fun _ h => h.writeOwner)
    (fun _ _ hR h => h.stable hR) hS h fun s hI h _ => hf s hI h

/-! ## Walks -/

/-- The pieces of a walk over `bs`, when the blocks `pre` have been dealt with.  If `K` holds, they
are what is left of the range. -/
inductive Walk (K : Prop) (off size : ℕ) : List BlobBlock → List BlobBlock → List Piece → Prop
  | stop {pre bs : List BlobBlock} (hall : K → covered off size (computeTotalSizeSlow (pre ++ bs)) =
      covered off size (computeTotalSizeSlow pre)) : Walk K off size pre bs []
  | skip {pre bs : List BlobBlock} {blk : BlobBlock} {ps : List Piece}
      (hsm : K → covered off size (computeTotalSizeSlow (pre ++ [blk])) =
        covered off size (computeTotalSizeSlow pre)) (h : Walk K off size (pre ++ [blk]) bs ps) :
      Walk K off size pre (blk :: bs) ps
  | meet {pre bs : List BlobBlock} {blk : BlobBlock} {ps : List Piece} {p : Piece}
      (hpo : p.pool = blk.pool)
      (hadr : p.addr = blk.targetOffset +
        (max off (computeTotalSizeSlow pre) - computeTotalSizeSlow pre))
      (hlen : max off (computeTotalSizeSlow pre) + p.len ≤ computeTotalSizeSlow pre + blk.size)
      (hleft : K → covered off size (computeTotalSizeSlow (pre ++ [blk])) = p.pos + p.len ∧
        covered off size (computeTotalSizeSlow pre) = p.pos ∧
        max off (computeTotalSizeSlow pre) = off + p.pos)
      (h : Walk K off size (pre ++ [blk]) bs ps) : Walk K off size pre (blk :: bs) (p :: ps)

lemma walk_pieces (hK : K → off + size < 2 ^ 64) {remaining : ℕ}
    (hrem : K → remaining = size - covered off size (computeTotalSizeSlow pre)) :
    Walk K off size pre bs (pieces off size bs (computeTotalSizeSlow pre) remaining) := by
  have hu : K → u64 (off + size) = off + size := fun hk => mod_eq_of_lt (hK hk)
  induction bs generalizing pre remaining with
  | nil => exact .stop fun _ => by rw [append_nil]
  | cons blk bs ih =>
    have htot : computeTotalSizeSlow (pre ++ [blk]) = computeTotalSizeSlow pre + blk.size := by simp
    rw [pieces]
    split_ifs with h0 hmeet
    · refine .stop fun hk => ?_
      have hdn := hrem hk
      have hle : computeTotalSizeSlow pre ≤ computeTotalSizeSlow (pre ++ blk :: bs) := by simp
      simp only [covered] at hdn ⊢
      omega
    · have hadd (hk : K) := covered_add hmeet.1 (hu hk ▸ hmeet.2)
      have hmax (hk : K) : max off (computeTotalSizeSlow pre) = _ :=
        max_eq_add_covered (hu hk ▸ hmeet.2)
      refine htot ▸ .meet rfl rfl (by dsimp only; omega) (fun hk => ?_) (ih fun hk => ?_)
      · rw [htot, hadd hk, hmax hk, hu hk]
        simp
      · rw [htot, hadd hk, hrem hk, hu hk, Nat.sub_sub]
    · have hsm (hk : K) := covered_add_of_not (hu hk ▸ hmeet)
      refine htot ▸ .skip (fun hk => htot ▸ hsm hk) (ih fun hk => ?_)
      rw [htot, hsm hk, hrem hk]

/-! ## Writing -/

/-- Storing inside the range of a read. -/
lemma readRange_storeBytes {pool : PoolId} {start : ℕ} (g : ℕ → UInt8) (hst : start ≤ st) :
    readRange (storeBytes mem pool (off + (st - start)) n g pool) off size
      = patch start st n g (readRange (mem pool) off size) := by
  apply ext_getElem?
  intro i
  rw [getElem?_patch]
  rcases lt_or_ge i size with hi | hi
  · have hl : ∀ f : ℕ → UInt8, (readRange f off size)[i]? = some (f (off + i)) := fun f => by
      rw [getElem?_eq_getElem (by simpa using hi), getElem_readRange]
    rw [hl, hl, Option.map_some, storeBytes]
    congr 1
    by_cases hin : st ≤ start + i ∧ start + i < st + n
    · rw [if_pos ⟨rfl, by omega, by omega⟩, if_pos hin]
      congr 1
      omega
    · rw [if_neg fun h => hin ⟨by omega, by omega⟩, if_neg hin]
  · rw [getElem?_eq_none (by simpa using hi), getElem?_eq_none (by simpa using hi),
      Option.map_none]

/-- Storing outside a block. -/
lemma bytesOf_storeBytes_of_apart {addr : ℕ} {g : ℕ → UInt8} (hlo : blk.targetOffset ≤ addr)
    (hhi : addr + n ≤ blk.targetOffset + blk.capacity) (hft : ∀ c ∈ bs, c.size ≤ c.capacity)
    (hap : ∀ c ∈ bs, blk.extent.Apart c.extent) :
    bytesOf (storeBytes mem blk.pool addr n g) bs = bytesOf mem bs := by
  refine bytesOf_congr hft fun c hc a ha => ?_
  rw [storeBytes, if_neg]
  rintro ⟨hpo, h1, h2⟩
  refine (hap c hc).not_covers ⟨hpo.symm, ?_, ?_⟩ ha
  · exact hlo.trans h1
  · exact h2.trans_le hhi

/-- Storing inside one block of a list whose blocks are apart. -/
lemma bytesOf_storeBytes {g : ℕ → UInt8} (hst : computeTotalSizeSlow pre ≤ st)
    (hn : st + n ≤ computeTotalSizeSlow pre + blk.size) (hfit : blk.size ≤ blk.capacity)
    (hpre : ∀ c ∈ pre, c.size ≤ c.capacity ∧ blk.extent.Apart c.extent)
    (hpost : ∀ c ∈ post, c.size ≤ c.capacity ∧ blk.extent.Apart c.extent) :
    bytesOf (storeBytes mem blk.pool (blk.targetOffset + (st - computeTotalSizeSlow pre)) n g)
        (pre ++ blk :: post)
      = patch 0 st n g (bytesOf mem (pre ++ blk :: post)) := by
  have hout : ∀ bs : List BlobBlock, (∀ c ∈ bs, c.size ≤ c.capacity ∧ blk.extent.Apart c.extent) →
      bytesOf (storeBytes mem blk.pool (blk.targetOffset + (st - computeTotalSizeSlow pre)) n g) bs
        = bytesOf mem bs := fun bs hbs =>
    bytesOf_storeBytes_of_apart (by omega) (by omega) (fun c hc => (hbs c hc).1)
      fun c hc => (hbs c hc).2
  rw [bytesOf_append, bytesOf_append, bytesOf_cons, bytesOf_cons, hout pre hpre, hout post hpost,
    readRange_storeBytes g hst, patch_append, patch_append, length_bytesOf, length_readRange,
    zero_add, patch_eq_self (l := bytesOf mem pre) (Or.inl (by simpa using hst)),
    patch_eq_self (Or.inr hn)]

/-- The blocks of an object are apart. -/
lemma Mine.apart (hI : Inv s) (h : Mine t o b bytes s)
    (hblo : (b.slot sl).blocks = pre ++ blk :: post) :
    ∀ c ∈ pre ++ post ++ b.rest sl, blk.extent.Apart c.extent := by
  have hpm : (b.allBlocks.map extent).Perm
      ((blk :: (pre ++ post ++ b.rest sl)).map extent) := by
    refine Perm.map _ ((b.allBlocks_perm sl).trans ?_)
    rw [hblo, append_assoc, append_assoc]
    exact perm_middle
  have hnd := h.holds.nodup
  rw [append_nil, hpm.nodup_iff, map_cons, nodup_cons] at hnd
  have hlv : ∀ c ∈ blk :: (pre ++ post ++ b.rest sl), (c.extent, o) ∈ s.live := fun c hc =>
    h.holds.live _ (by
      rw [append_nil]
      exact hpm.mem_iff.mpr (mem_map_of_mem hc))
  intro c hc
  refine hI.live.apart_of_ne (hlv blk mem_cons_self) (hlv c (mem_cons_of_mem _ hc)) ?_
  intro heq
  have hext : blk.extent = c.extent := congrArg Prod.fst heq
  exact hnd.1 (hext ▸ mem_map_of_mem hc)

/-- A prefix of the piece has been stored at position `st` of the slot: all of it, or there is a
fault. -/
def Stored (t : TaskId) (o : ObjId) (b : BlobInfo) (bytes : Bytes) (sl : Slot) (st : ℕ)
    (data : Buffer) (p : Piece) (ok : Bool) (s : State) : Prop :=
  ∃ n, (ok = true → n = p.len) ∧ (ok = false → s.hist.fault = true) ∧
    Mine t o b (bytes.setSlot sl (patch 0 st n (fun i => data (p.pos + i)) (bytes.slot sl))) s

/-- One request to write, inside block `blk`. -/
lemma Mine.writePiece (hI : Inv s) (h : Mine t o b bytes s)
    (hblo : (b.slot sl).blocks = pre ++ blk :: post) {p : Piece} (hpo : p.pool = blk.pool)
    (hst : computeTotalSizeSlow pre ≤ st)
    (hadr : p.addr = blk.targetOffset + (st - computeTotalSizeSlow pre))
    (hlen : st + p.len ≤ computeTotalSizeSlow pre + blk.size) (data : Buffer) :
    Section t o key s (writePiece data p s).2 ∧
      Stored t o b bytes sl st data p (writePiece data p s).1 (writePiece data p s).2 := by
  set n := min p.len (s.env.stored s.tick p.len) with hn
  set mem' := storeBytes s.mem p.pool p.addr n fun i => data (p.pos + i) with hmem'
  have hblk : blk ∈ b.allBlocks := b.slot_subset_allBlocks sl (by simp [hblo])
  have hfit := h.holds.fits blk hblk
  have hap := h.apart hI hblo
  have hft : ∀ c ∈ pre ++ post ++ b.rest sl, c.size ≤ c.capacity := by
    intro c hc
    refine h.holds.fits c ((b.allBlocks_perm sl).mem_iff.mpr ?_)
    rw [hblo]
    simp only [mem_append, mem_cons] at hc ⊢
    tauto
  have hmem_eq : mem' = storeBytes s.mem blk.pool
      (blk.targetOffset + (st - computeTotalSizeSlow pre)) n fun i => data (p.pos + i) := by
    rw [hmem', hpo, hadr]
  -- only the bytes of this slot change
  have hby : bytesIn mem' b
      = bytes.setSlot sl (patch 0 st n (fun i => data (p.pos + i)) (bytes.slot sl)) := by
    rw [bytesIn_eq_setSlot sl, ← h.bytes, slot_bytesIn, hblo, hmem_eq,
      bytesOf_storeBytes hst (by omega) hfit]
    · exact fun c hc => ⟨hft c (by simp [hc]), hap c (by simp [hc])⟩
    · exact fun c hc => ⟨hft c (by simp [hc]), hap c (by simp [hc])⟩
    · intro bs hbs
      rw [hmem_eq]
      exact bytesOf_storeBytes_of_apart (by omega) (by omega)
        (fun c hc => hft c (mem_append_right _ (hbs hc)))
        fun c hc => hap c (mem_append_right _ (hbs hc))
  -- the two outcomes differ in the fault bit only
  have hout : ∀ s', Calm key s s' → s'.objs = s.objs → s'.live = s.live → s'.mem = mem' →
      s'.hist.freed = s.hist.freed → Section t o key s s' ∧
      Mine t o b (bytes.setSlot sl (patch 0 st n (fun i => data (p.pos + i)) (bytes.slot sl)))
      s' := by
    intro s' hcm hob hlv hmem hfre
    have hmi : Mine t o b
        (bytes.setSlot sl (patch 0 st n (fun i => data (p.pos + i)) (bytes.slot sl))) s' :=
      { info := hob ▸ h.info
        owner := h.owner
        pins := hob ▸ h.pins
        holds := h.holds.congr hlv hcm.leaked
        bytes := hmem ▸ hby }
    refine ⟨Mine.section hI ?_ (hlv ▸ hI.live) (fun x hx => hlv ▸ hx) hfre hmi, hmi⟩
    exact
      { toCalm := hcm
        owner := h.writeOwner
        owner' := hmi.writeOwner
        pins := by rw [hob]
        objs := fun o' _ => by rw [hob]
        live := fun e o' _ => by rw [hlv]
        mem := fun x hx hxo a ha => by
          rw [hmem, hmem_eq, storeBytes, if_neg]
          rintro ⟨hp, h1, h2⟩
          have heq := hI.live.eq_of_covers hx (h.holds.live_of_mem hblk) ha
            ⟨hp.symm, by simp only [extent]; omega, by simp only [extent]; omega⟩
          exact hxo (by rw [heq]) }
  have hrun : Cte.writePiece data p s = if n = p.len then (true, { s.ticked with mem := mem' })
        else (false, ({ s.ticked with mem := mem' } : State).faulted) := rfl
  rw [hrun]
  split_ifs with hfu
  · obtain ⟨hsec, hmi⟩ := hout { s.ticked with mem := mem' }
      (Calm.of_eq rfl rfl rfl rfl rfl rfl rfl) rfl rfl rfl rfl
    exact ⟨hsec, n, fun _ => hfu, by simp, hmi⟩
  · obtain ⟨hsec, hmi⟩ := hout ({ s.ticked with mem := mem' } : State).faulted
      ((Calm.of_eq rfl rfl rfl rfl rfl rfl rfl : Calm key s { s.ticked with mem := mem' }).trans
        (Calm.faulted key _)) rfl rfl rfl rfl
    exact ⟨hsec, n, by simp, fun _ => rfl, hmi⟩

/-- What a walk of writes over a slot leaves: bytes of the same number, and if all writes went
through and `K` held before, then `goal`. -/
def Written (t : TaskId) (o : ObjId) (b : BlobInfo) (bytes : Bytes) (sl : Slot) (K : Prop)
    (goal : List UInt8) (ok : Bool) (s : State) : Prop :=
  ∃ l : List UInt8, l.length = (bytes.slot sl).length ∧ Mine t o b (bytes.setSlot sl l) s ∧
    (ok = true → K → l = goal) ∧ (ok = false → s.hist.fault = true)

/-- A walk over a slot that an earlier walk has left with the bytes `l`. -/
lemma Written.after {l goal goal' : List UInt8} {K K' : Prop} {ok : Bool}
    (h : Written t o b (bytes.setSlot sl l) sl K goal ok s)
    (hlen : l.length = (bytes.slot sl).length) (hgl : ok = true → K' → K ∧ goal = goal') :
    Written t o b bytes sl K' goal' ok s := by
  obtain ⟨l', hlen', h, hdn, hbad⟩ := h
  rw [Bytes.slot_setSlot] at hlen'
  rw [Bytes.setSlot_setSlot] at h
  refine ⟨l', hlen'.trans hlen, h, fun hok hk => ?_, hbad⟩
  exact (hdn hok (hgl hok hk).1).trans (hgl hok hk).2

/-- The walk from block `bs` on, when the earlier blocks `pre` have been dealt with. -/
lemma writePieces_safe (hwk : Walk K off size pre bs ps) (data : Buffer) (orig : List UInt8)
    (hK : K' → K) (hblo : (b.slot sl).blocks = pre ++ bs)
    (horig : orig.length = computeTotalSizeSlow (b.slot sl).blocks)
    (hsl : K' → bytes.slot sl = patch 0 off (covered off size (computeTotalSizeSlow pre)) data orig)
    (hS : S.Ready s) (h : Mine t o b bytes s) :
    S.Safe (Written t o b bytes sl K' (patch 0 off size data orig)) (writePieces data ps) s := by
  induction hwk generalizing K' bytes s with
  | stop hall =>
    refine .pure hS ⟨bytes.slot sl, rfl, by rwa [setSlot_slot], fun _ hk => ?_, by simp⟩
    rw [hsl hk, ← hall (hK hk), ← hblo]
    rcases lt_or_ge (computeTotalSizeSlow (b.slot sl).blocks) (off + size) with hlt | hge
    · have hmax := max_eq_add_covered hlt
      exact patch_eq_of_le (by omega) (by omega)
    · rw [covered_eq_size hge]
  | skip hsm _ ih =>
    exact ih hK (by simpa using hblo) (fun hk => (hsl hk).trans (by rw [hsm (hK hk)])) hS h
  | @meet pre bs blk ps p hpo hadr hlen hleft _ ih =>
    refine .bind (.mine hS h
      (Q := Stored t o b bytes sl (max off (computeTotalSizeSlow pre)) data p)
      fun s hI h => h.writePiece hI hblo hpo (le_max_right _ _) hadr hlen data) hS ?_
    rintro ok s hS ⟨n, hfu, hflt, h⟩
    have hrs := ih (fun hk : K' ∧ ok = true => hK hk.1) (by simpa using hblo) (fun ⟨hk, hok⟩ => by
      obtain ⟨hadd, hpos, hmax⟩ := hleft (hK hk)
      rw [slot_setSlot, hsl hk, hadd, hfu hok, hpos, hmax, patch_patch_adjacent]) hS h
    cases ok with
    | true =>
      refine .bind hrs hS ?_
      rintro ok' s hS ⟨l, hlen, h, hgl, hflt'⟩
      rw [slot_setSlot, length_patch] at hlen
      rw [setSlot_setSlot] at h
      exact .pure hS ⟨l, hlen, h, fun hok hk => hgl hok ⟨hk, rfl⟩, hflt'⟩
    | false =>
      refine .bind (hrs.fault (hflt rfl)) hS ?_
      rintro ok' s hS ⟨⟨l, hlen, h, -, -⟩, hf⟩
      rw [slot_setSlot, length_patch] at hlen
      rw [setSlot_setSlot] at h
      exact .pure hS ⟨l, hlen, h, by simp, fun _ => hf⟩

/-- **`ModifyExistingData`.**  Writing into the slot, from a block that starts at or before the
range. -/
lemma modifyExistingData_safe {startIdx startOff : ℕ} (data : Buffer)
    (hblo : blocks = (b.slot sl).blocks)
    (hsta : startOff = computeTotalSizeSlow (blocks.take startIdx)) (hS : S.Ready s)
    (h : Mine t o b bytes s) :
    S.Safe (fun rc => Written t o b bytes sl (off + size < 2 ^ 64 ∧ startOff ≤ off)
        (patch 0 off size data (bytes.slot sl)) (rc == 0))
      (modifyExistingData blocks data size off startIdx startOff) s := by
  subst hblo hsta
  have hby : (bytes.slot sl).length = computeTotalSizeSlow (b.slot sl).blocks := by
    rw [← h.bytes, slot_bytesIn, length_bytesOf]
  set start := computeTotalSizeSlow ((b.slot sl).blocks.take startIdx)
  have hrem : off + size < 2 ^ 64 ∧ start ≤ off → size = size - covered off size start :=
    fun hk => by rw [covered_eq_zero hk.2, Nat.sub_zero]
  have hwk := writePieces_safe (walk_pieces And.left hrem) data (bytes.slot sl) id
    (take_append_drop startIdx _).symm hby (fun hk => by rw [covered_eq_zero hk.2, patch_zero]) hS h
  refine .bind hwk hS ?_
  rintro ok s hS h
  refine .pure hS ?_
  cases ok <;> exact h

/-! ## Reading -/

/-- The buffer after `n` bytes from `off` on have been read into it. -/
def readInto (content : List UInt8) (off n : ℕ) (buf : Buffer) : Buffer :=
  fun i => if i < n then content.getD (off + i) 0 else buf i

/-- One read of a walk, from the block `blk`. -/
lemma readPiece_eq {buf buf0 : Buffer} {p : Piece}
    (hby : bytesOf s.mem (pre ++ blk :: post) = content) (hpo : p.pool = blk.pool)
    (hadr : p.addr = blk.targetOffset +
      (max off (computeTotalSizeSlow pre) - computeTotalSizeSlow pre))
    (hlen : max off (computeTotalSizeSlow pre) + p.len ≤ computeTotalSizeSlow pre + blk.size)
    (hmax : max off (computeTotalSizeSlow pre) = off + p.pos)
    (hbuf : buf = readInto content off p.pos buf0) (hok : (readPiece buf p s).1.1 = true) :
    (readPiece buf p s).1.2 = readInto content off (p.pos + p.len) buf0 := by
  rw [readPiece] at hok ⊢
  split_ifs at hok ⊢
  funext i
  simp only [hbuf, readInto]
  rcases lt_or_ge i p.pos with hi | hi
  · rw [if_neg (by omega), if_pos hi, if_pos (by omega)]
  · rcases lt_or_ge i (p.pos + p.len) with hi' | hi'
    · rw [if_pos ⟨hi, hi'⟩, if_pos hi', ← hby, bytesOf_append,
        getD_append_right _ _ _ _ (by rw [length_bytesOf]; omega), bytesOf_cons, length_bytesOf,
        getD_append _ _ _ _ (by rw [length_readRange]; omega), getD_readRange (by omega), hpo, hadr]
      congr 1
      omega
    · rw [if_neg (by omega), if_neg (by omega), if_neg (by omega)]

section

variable {I : State → Prop} {R G C : State → State → Prop}
  (hF : Co.Stable I R fun s => s.hist.fault = true) {A : State → Prop} (hA : Co.Stable I R A)
  (hstp : ∀ s, I s → A s → ∀ s', s' = s.ticked ∨ s' = s.ticked.faulted → I s' ∧ G s s' ∧ A s')
include hF hA hstp

/-- A walk of reads over blocks whose bytes do not change meanwhile.  The reader need not hold the
token: `A` is whatever keeps the bytes. -/
lemma readPieces_safe (hwk : Walk K off size pre bs ps) {buf buf0 : Buffer} (hK : K' → K)
    (hby : K' → ∀ s, A s → bytesOf s.mem (pre ++ bs) = content)
    (hbuf : K' → buf = readInto content off (covered off size (computeTotalSizeSlow pre)) buf0)
    (hI : I s) (h : A s) :
    Co.Safe I R G C (fun r s => A s ∧ (r.1 = false → s.hist.fault = true) ∧ (r.1 = true → K' → r.2 =
          readInto content off (covered off size (computeTotalSizeSlow (pre ++ bs))) buf0))
      (readPieces ps buf) s := by
  induction hwk generalizing K' buf A s with
  | stop hall =>
    refine .pure ⟨h, by simp, fun _ hk => ?_⟩
    rw [hall (hK hk)]
    exact hbuf hk
  | skip hsm _ ih =>
    rw [append_cons] at hby ⊢
    exact ih hA hstp hK hby (fun hk => (hbuf hk).trans (by rw [hsm (hK hk)])) hI h
  | @meet pre bs blk ps p hpo hadr hlen hleft _ ih =>
    refine .bind (Q := fun r s => A s ∧ (r.1 = false → s.hist.fault = true) ∧
      (r.1 = true → K' → r.2 = readInto content off
        (covered off size (computeTotalSizeSlow (pre ++ [blk]))) buf0))
      (.act hA h fun s hI h _ => ?_) hI ?_
    · have hcs : (readPiece buf p s).2 = s.ticked ∧ (readPiece buf p s).1.1 = true ∨
          (readPiece buf p s).2 = s.ticked.faulted := by
        rw [readPiece]
        split_ifs
        · exact .inl ⟨rfl, rfl⟩
        · exact .inr rfl
      obtain ⟨hI', hG, hA'⟩ := hstp s hI h _ (hcs.imp And.left id)
      refine ⟨hI', hG, hA', fun hbad => ?_, fun hok hk => ?_⟩
      · rcases hcs with ⟨-, hok⟩ | hs'
        · cases hok.symm.trans hbad
        · rw [hs']
          rfl
      · obtain ⟨hadd, hpos, hmax⟩ := hleft (hK hk)
        rw [hadd]
        exact readPiece_eq (hby hk s h) hpo hadr hlen hmax (hpos ▸ hbuf hk) hok
    rw [append_cons pre blk bs] at hby ⊢
    rintro ⟨ok, buf'⟩ s hI ⟨h, hflt, hgl⟩
    cases ok with
    | true => exact .bind (ih hA hstp hK hby (hgl rfl) hI h) hI fun r s _ h => .pure h
    | false =>
      -- the rest of the walk has nothing to show but the fault
      refine .bind (ih (A := fun s => A s ∧ s.hist.fault = true)
        (fun s s' h hR hI => ⟨hA s s' h.1 hR hI, hF s s' h.2 hR hI⟩)
        (fun s hI h s' hs' => by
          obtain ⟨hI', hG, hA'⟩ := hstp s hI h.1 s' hs'
          refine ⟨hI', hG, hA', ?_⟩
          rcases hs' with rfl | rfl
          · exact h.2
          · rfl) (fun h : False => h.elim) False.elim False.elim hI ⟨h, hflt rfl⟩) hI ?_
      rintro r s - ⟨h, -, -⟩
      exact .pure ⟨h.1, fun _ => h.2, by simp⟩

/-- **`ReadData`**, for a reader that keeps the bytes with `A`. -/
lemma readData_safe (off size : ℕ) (buf : Buffer) (hK : K → off + size < 2 ^ 64)
    (hby : K → ∀ s, A s → bytesOf s.mem blocks = content) (hI : I s) (h : A s) :
    Co.Safe I R G C (fun r s => A s ∧ (r.1 ≠ 0 → s.hist.fault = true) ∧
        (r.1 = 0 → K → r.2 = readInto content off (covered off size content.length) buf))
      (readData blocks buf size off) s := by
  have hlen : K → content.length = computeTotalSizeSlow blocks := fun hk => by
    rw [← hby hk s h, length_bytesOf]
  have hrem : K → size = size - covered off size (computeTotalSizeSlow []) := fun _ => by
    rw [computeTotalSizeSlow_nil, covered_eq_zero (Nat.zero_le _), Nat.sub_zero]
  have hbuf : K → buf = readInto content off (covered off size (computeTotalSizeSlow [])) buf :=
    fun _ => by
      rw [computeTotalSizeSlow_nil, covered_eq_zero (zero_le _)]
      rfl
  have hby' : K → ∀ s, A s → bytesOf s.mem ([] ++ blocks) = content := hby
  have hwk := readPieces_safe (C := C) hF hA hstp (walk_pieces hK hrem) id hby' hbuf hI h
  refine .bind hwk hI ?_
  rintro ⟨ok, buf'⟩ s - ⟨h, hflt, hgl⟩
  refine .pure ⟨h, fun hrc => hflt ?_, fun hrc hk => ?_⟩
  · cases ok with
    | true => exact absurd rfl hrc
    | false => rfl
  · cases ok with
    | true => exact hlen hk ▸ hgl rfl hk
    | false => simp at hrc

end

/-- `ReadData` under the token. -/
lemma Mine.readData_safe (off size : ℕ) (buf : Buffer)
    (hct : ∀ m, bytesIn m b = bytes → bytesOf m blocks = content) (hS : S.Ready s)
    (h : Mine t o b bytes s) :
    S.Safe (fun r s => Mine t o b bytes s ∧ (r.1 ≠ 0 → s.hist.fault = true) ∧
        (r.1 = 0 → off + size < 2 ^ 64 →
          r.2 = readInto content off (covered off size content.length) buf))
      (readData blocks buf size off) s := by
  refine .weaken (Cte.readData_safe (A := fun s => Mine t o b bytes s ∧ S.F s)
    (fun s s' hf hR _ => hR.1.fault hf) ?_ ?_ off size buf id
    (fun _ s h => hct s.mem h.1.bytes) ⟨hS.inv, hS.extra⟩ ⟨h, hS.fact⟩) ?_
  · rintro s s' ⟨h, hf⟩ ⟨hR, hk⟩ -
    exact ⟨h.stable hR, S.fact_rely h.writeOwner hR hk hf⟩
  · rintro s ⟨hI, hJ⟩ ⟨h, hf⟩ s' hs'
    have hq : Quiet key s s' ∧ s'.objs = s.objs := by
      rcases hs' with rfl | rfl
      · exact ⟨Quiet.ticked key s, rfl⟩
      · exact ⟨(Quiet.ticked key s).trans (Quiet.faulted key _), rfl⟩
    obtain ⟨hsec, h'⟩ := h.quiet hI hq.1 hq.2
    obtain ⟨hI', hG, hf'⟩ := Setting.of_section hsec hI hJ hf
    exact ⟨hI', hG, h', hf'⟩
  · rintro r s ⟨⟨h, hf⟩, hflt, hgl⟩
    exact ⟨⟨h, hflt, hgl⟩, hf⟩

end ClioCore.Cte
