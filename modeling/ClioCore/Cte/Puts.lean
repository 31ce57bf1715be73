import ClioCore.Cte.Release

/-!
# Writing a blob under its token

`PutBlob` from the moment it has the token: placing the bytes, writing them, and the write-through
to the replicas.  The specifications say what the blob holds afterwards, in terms of what it held
before and of the bytes the devices left in new blocks.
-/

namespace ClioCore.Cte

open Foundations List Bytes BlobInfo Nat Layout Quiet Setting
open SafeBdev (PoolId)

variable {blocks : List BlobBlock} {hintIdx hintOff idx : ℕ} {old : Layout}

variable {t : TaskId} {o : ObjId} {key : BlobKey} {S : Setting t o key} {b : BlobInfo}
  {bytes : Bytes} {s : State} {sl : Slot}

/-! ## The bytes of a put -/

/-- The bytes with the hole zeroed. -/
def zeroed (offset oldSize : ℕ) (l : List UInt8) : List UInt8 :=
  if oldSize < offset then patch 0 oldSize (offset - oldSize) (fun _ => 0) l else l

/-- The segments, one after another. -/
def patchSegments (segments : List Segment) (l : List UInt8) : List UInt8 :=
  segments.foldl (fun l seg => patch 0 seg.blobOff seg.size (deref seg.data) l) l

variable (replicas : List Replica) (wid : ℕ) (req : PutBlobTask)

/-- What a put that found `oldSize` bytes makes of the bytes it has placed. -/
def putContent (offset size oldSize : ℕ) (l : List UInt8) : List UInt8 :=
  if req.segments = [] then patch 0 offset size (deref req.blobData) (zeroed offset oldSize l)
  else patchSegments req.segments (zeroed offset oldSize l)

/-- The ranges of a put do not wrap around. -/
structure Bounded (req : PutBlobTask) (offset size : ℕ) : Prop where
  range : offset + size < 2 ^ 64
  segments : ∀ seg ∈ req.segments, offset ≤ seg.blobOff ∧ seg.blobOff + seg.size < 2 ^ 64

section Bytes

variable (hbs : blocks = (b.slot sl).blocks)
  (hst : hintOff = computeTotalSizeSlow (blocks.take hintIdx))
  (hS : S.Ready s) (h : Mine t o b bytes s)
include hbs hst hS h

/-- The segments of a vectored put. -/
lemma writeSegments_safe (segments : List Segment) {K : Prop}
    (hK : K → ∀ seg ∈ segments, hintOff ≤ seg.blobOff ∧ seg.blobOff + seg.size < 2 ^ 64) :
    S.Safe (fun rc => Written t o b bytes sl K (patchSegments segments (bytes.slot sl)) (rc == 0))
      (writeBytes.writeSegments blocks hintIdx hintOff segments) s := by
  induction segments generalizing bytes s with
  | nil =>
    refine .pure hS ⟨bytes.slot sl, rfl, ?_, fun _ _ => rfl, by simp⟩
    rwa [Bytes.setSlot_slot]
  | cons seg segments ih =>
    refine .bind (modifyExistingData_safe (deref seg.data) hbs hst hS h) hS ?_
    rintro r s hS ⟨l, hlen, h, hgl, hbad⟩
    split_ifs with hr
    · refine .mono (ih hS h fun hk seg hseg => hK hk seg (mem_cons_of_mem _ hseg)) hS ?_
      intro rc s _ h
      refine h.after hlen fun _ hk => ⟨hk, ?_⟩
      have hseg := hK hk seg mem_cons_self
      rw [Bytes.slot_setSlot, hgl (by simp [hr]) ⟨hseg.2, hseg.1⟩]
      rfl
    · exact .pure hS ⟨l, hlen, h, by simp,
        fun _ => hbad (by simpa using hr)⟩

/-- The zeroes of a hole. -/
lemma zeroHole_safe {offset oldSize : ℕ} {K : Prop} (hK : K → offset < 2 ^ 64 ∧ hintOff ≤ oldSize) :
    S.Safe (fun hole => Written t o b bytes sl K
      (zeroed offset oldSize (bytes.slot sl)) (hole == 0))
      (zeroHole blocks offset oldSize hintIdx hintOff) s := by
  rw [zeroHole, zeroed]
  split_ifs with hhole
  · refine .bind (allocateBuffer_safe hS h) hS ?_
    rintro ok s hS ⟨h, hok⟩
    cases ok with
    | false =>
      refine .pure hS ⟨bytes.slot sl, rfl, ?_, by simp, fun _ => hok rfl⟩
      rwa [Bytes.setSlot_slot]
    | true =>
      refine .bind (modifyExistingData_safe (fun _ => 0) hbs hst hS h) hS ?_
      rintro r s hS ⟨l, hlen, h, hgl, hbad⟩
      refine .pure hS ⟨l, hlen, h, fun hr hk => ?_, fun hr => ?_⟩
      · have hbd := hK hk
        exact hgl (by simpa using hr) ⟨by omega, hbd.2⟩
      · exact hbad (by simpa using hr)
  · refine .pure hS ⟨bytes.slot sl, rfl, ?_, fun _ _ => rfl, by simp⟩
    rwa [Bytes.setSlot_slot]

/-- The zeroes of a hole and the bytes of a put. -/
lemma writeBytes_safe {offset size oldSize : ℕ} :
    S.Safe (fun rc => Written t o b bytes sl
        (Bounded req offset size ∧ hintOff ≤ offset ∧ hintOff ≤ oldSize)
        (putContent req offset size oldSize (bytes.slot sl)) (rc == 0))
      (writeBytes req blocks offset size oldSize hintIdx hintOff) s := by
  refine .bind (zeroHole_safe hbs hst hS h
    (K := Bounded req offset size ∧ hintOff ≤ offset ∧ hintOff ≤ oldSize)
    fun hk => ⟨by have hrg := hk.1.range; omega, hk.2.2⟩) hS ?_
  rintro hole s hS ⟨l, hlen, h, hgl, hbad⟩
  split_ifs with hhole hseg
  · exact .pure hS ⟨l, hlen, h, fun hrc => absurd hrc (by simpa using hhole),
      fun _ => hbad (by simpa using hhole)⟩
  · have hhole0 : hole = 0 := by omega
    refine .bind (modifyExistingData_safe (deref req.blobData) hbs hst hS h) hS ?_
    rintro r s hS ⟨l', hlen', h, hgl', hbad'⟩
    rw [Bytes.slot_setSlot] at hlen' hgl'
    rw [Bytes.setSlot_setSlot] at h
    refine .pure hS ⟨l', hlen'.trans hlen, h, fun hrc hk => ?_, fun hrc => ?_⟩
    · rw [hgl' (by simpa using hrc) ⟨hk.1.range, hk.2.1⟩, hgl (by simp [hhole0]) hk, putContent,
        if_pos hseg]
    · exact hbad' (by simpa using hrc)
  · have hhole0 : hole = 0 := by omega
    refine .mono (writeSegments_safe hbs hst hS h req.segments
      (K := Bounded req offset size ∧ hintOff ≤ offset ∧ hintOff ≤ oldSize) fun hk seg hseg' => ?_)
      hS ?_
    · have hb := hk.1.segments seg hseg'
      exact ⟨hk.2.1.trans hb.1, hb.2⟩
    intro rc s _ h
    refine h.after hlen fun _ hk => ⟨hk, ?_⟩
    rw [Bytes.slot_setSlot, hgl (by simp [hhole0]) hk, putContent, if_neg hseg]

end Bytes

/-! ## Replicas -/

/-- An object between two operations on it. -/
structure InOrder (b : BlobInfo) : Prop where
  sizes : Sizes b
  staging : b.staging = .empty
  draining : b.draining = false

/-- The object without its replicas. -/
def BlobInfo.primary (b : BlobInfo) : BlobInfo := { b with replicas := [], staging := .empty }

/-- Lend the blocks of a replica, which is changed by `m`, to the staging slot. -/
def BlobInfo.lend (b : BlobInfo) (idx : ℕ) (m : Replica → Replica) : BlobInfo :=
  { b.modifyReplica idx (fun r => { m r with layout := .empty }) with
    staging := Layout.recomputeTotalSize ⟨(b.replica idx).layout.blocks, 0⟩ }

/-- Give the staged layout to a replica, which is changed by `m`. -/
def BlobInfo.publish (b : BlobInfo) (idx : ℕ) (m : Replica → Replica) : BlobInfo :=
  { b.modifyReplica idx (fun r => { m r with layout := b.staging }) with staging := .empty }

section Replicas

variable {idx : ℕ} {m m' : Replica → Replica}

lemma mem_modify {α : Type*} {l : List α} {i : ℕ} {f : α → α} {x : α} (h : x ∈ l.modify i f) :
    x ∈ l ∨ ∃ y, x = f y := by
  obtain ⟨j, hj⟩ := mem_iff_getElem?.mp h
  rw [getElem?_modify] at hj
  cases hget : l[j]? with
  | none => simp [hget] at hj
  | some y =>
    rw [hget] at hj
    have hx : (if i = j then f y else y) = x := Option.some.inj hj
    split_ifs at hx
    · exact .inr ⟨y, hx.symm⟩
    · exact .inl (hx ▸ mem_of_getElem? hget)

/-- The list around one of its replicas. -/
lemma BlobInfo.replicas_split (h : idx - 1 < b.replicas.length) :
    ∃ pre post, b.replicas = pre ++ b.replica idx :: post ∧ pre.length = idx - 1 ∧
      ∀ f, b.replicas.modify (idx - 1) f = pre ++ f (b.replica idx) :: post := by
  have hget : b.replica idx = b.replicas[idx - 1] := getD_eq_getElem _ _ h
  refine ⟨b.replicas.take (idx - 1), b.replicas.drop (idx - 1 + 1), ?_, ?_, fun f => ?_⟩
  · rw [hget, cons_getElem_drop_succ, take_append_drop]
  · rw [length_take]
    omega
  · rw [hget, modify_eq_take_cons_drop h]

lemma reshapes_lend (h : idx - 1 < b.replicas.length) (hsg : b.staging.blocks = [])
    (hft : ∀ blk ∈ b.allBlocks, blk.size ≤ blk.capacity) :
    Reshapes (fun x => x.lend idx m) b := by
  obtain ⟨pre, post, hrs, -, hmod⟩ := b.replicas_split h
  have hpm : (b.lend idx m).allBlocks.Perm b.allBlocks := by
    simp only [allBlocks, lend, modifyReplica, hmod, hsg, recomputeTotalSize]
    conv_rhs => rw [hrs]
    simp only [flatMap_append, flatMap_cons, empty, nil_append, append_nil, append_assoc]
    refine Perm.append_left _ (Perm.append_left _ perm_append_comm)
  exact ⟨fun _ => rfl, fun _ => rfl, rfl, fun h => h, hpm.map _,
    fun blk hblk => hft blk (hpm.mem_iff.mp hblk)⟩

lemma reshapes_publish (h : idx - 1 < b.replicas.length) (hemp : (b.replica idx).layout.blocks = [])
    (hft : ∀ blk ∈ b.allBlocks, blk.size ≤ blk.capacity) :
    Reshapes (fun x => x.publish idx m) b := by
  obtain ⟨pre, post, hrs, -, hmod⟩ := b.replicas_split h
  have hpm : (b.publish idx m).allBlocks.Perm b.allBlocks := by
    simp only [allBlocks, publish, modifyReplica, hmod]
    conv_rhs => rw [hrs]
    simp only [flatMap_append, flatMap_cons, empty, hemp, nil_append, append_nil, append_assoc]
    refine Perm.append_left _ (Perm.append_left _ perm_append_comm)
  exact ⟨fun _ => rfl, fun _ => rfl, rfl, fun h => h, hpm.map _,
    fun blk hblk => hft blk (hpm.mem_iff.mp hblk)⟩

lemma map_modify_of_const {α β : Type} {f : α → α} {g : α → β} {c : β} (l : List α) (i : ℕ)
    (h : ∀ a, g (f a) = c) : (l.modify i f).map g = (l.map g).modify i fun _ => c := by
  apply ext_getElem?
  intro j
  simp only [getElem?_map, getElem?_modify]
  split_ifs <;> cases l[j]? <;> simp [h]

/-- The bytes of the object with a replica lent out. -/
lemma bytesIn_lend (mem : PoolId → ℕ → UInt8) (b : BlobInfo) (idx : ℕ) (m : Replica → Replica) :
    bytesIn mem (b.lend idx m) = ⟨(bytesIn mem b).main,
      (bytesIn mem b).replicas.modify (idx - 1) (fun _ => []),
      bytesOf mem (b.replica idx).layout.blocks⟩ := by
  simp only [bytesIn, lend, modifyReplica, Bytes.mk.injEq, true_and]
  exact ⟨map_modify_of_const b.replicas (idx - 1) fun _ => rfl, rfl⟩

/-- The bytes of the object with the staged layout published. -/
lemma bytesIn_publish (mem : PoolId → ℕ → UInt8) (b : BlobInfo) (idx : ℕ) (m : Replica → Replica) :
    bytesIn mem (b.publish idx m) = ⟨(bytesIn mem b).main,
      (bytesIn mem b).replicas.modify (idx - 1) (fun _ => (bytesIn mem b).staging), []⟩ := by
  simp only [bytesIn, publish, modifyReplica, Bytes.mk.injEq, true_and]
  exact ⟨map_modify_of_const b.replicas (idx - 1) fun _ => rfl, rfl⟩

/-- A replica that has been lent and published is in order again. -/
lemma InOrder.publish_lend (hb : InOrder b) {l : Layout} (hl : Sized l) :
    InOrder (((b.lend idx m).setSlot .staging l).publish idx m') where
  sizes :=
    { main := hb.sizes.main
      replicas := by
        intro r hr
        simp only [BlobInfo.publish, BlobInfo.modifyReplica, BlobInfo.setSlot, BlobInfo.lend,
          modify_modify_eq] at hr
        rcases mem_modify hr with hr | ⟨r0, rfl⟩
        · exact hb.sizes.replicas r hr
        · exact hl
      staging := rfl }
  staging := rfl
  draining := hb.draining

end Replicas

/-- Room for a put: the old bytes, followed by whatever the devices left there. -/
def Extended (offset size : ℕ) (old mid : List UInt8) : Prop :=
  (∃ junk, mid = old ++ junk) ∧ mid.length = max old.length (u64 (offset + size))

/-- What a put that found `oldSize` bytes makes of `mid`. -/
def Filled (offset size oldSize : ℕ) (mid content : List UInt8) : Prop :=
  if req.context.emulate then content = mid
  else content.length = mid.length ∧
    (Bounded req offset size → content = putContent req offset size oldSize mid)

/-- What a put leaves of replica `idx`, of the blob `b` with `bytes`. -/
structure ReplicaPut (req : PutBlobTask) (t : TaskId) (o : ObjId) (b : BlobInfo) (bytes : Bytes)
    (idx offset size rc : ℕ) (s : State) : Prop where
  fault : rc ≠ 0 → s.hist.fault = true
  mine : ∃ b' content, Mine t o b' { bytes with
      replicas := bytes.replicas.modify (idx - 1) fun _ => content } s ∧
    InOrder b' ∧ b'.primary = b.primary ∧ b'.replicas.length = b.replicas.length ∧
    (rc = 0 → ∃ mid, Extended offset size (bytes.replicas.getD (idx - 1) []) mid ∧
      Filled req offset size (bytes.replicas.getD (idx - 1) []).length mid content)

lemma writeStaged_safe (offset size oldSize : ℕ) (hS : S.Ready s) (h : Mine t o b bytes s) :
    S.Safe (fun rc s => (rc ≠ 0 → s.hist.fault = true) ∧ ∃ content,
        Mine t o b (bytes.setSlot .staging content) s ∧ content.length = bytes.staging.length ∧
        (rc = 0 → Filled req offset size oldSize bytes.staging content))
      (writeStaged req o offset size oldSize) s := by
  rw [writeStaged]
  split_ifs with hemu
  · refine .pure hS ⟨absurd rfl, bytes.staging, h, rfl, fun _ => ?_⟩
    rw [Filled, if_pos hemu]
  · refine .bind (.look hS h) hS ?_
    rintro blocks s hS ⟨h, rfl⟩
    have hbs : (s.objs o).staging.blocks = (b.slot .staging).blocks := by
      rw [← h.info]
      rfl
    refine .mono (writeBytes_safe req hbs rfl hS h) hS ?_
    rintro rc s - ⟨content, hlen, h, hgl, hbad⟩
    refine ⟨fun hrc => hbad (by simpa using hrc), content, h, hlen, fun hrc => ?_⟩
    rw [Filled, if_neg hemu]
    exact ⟨hlen, fun hbd => hgl (by simpa using hrc) ⟨hbd, zero_le _, zero_le _⟩⟩

/-- How a put marks the replica it writes. -/
def PutBlobTask.mark (r : Replica) : Replica :=
  { r with
    flags := r.flags.merge req.context.replicaFlags
    transformFlags := req.context.transformFlags
    minScore := if 0 ≤ req.context.replicaMinScore then req.context.replicaMinScore
    else r.minScore }

lemma replica_bytesIn (mem : PoolId → ℕ → UInt8) (b : BlobInfo) (idx : ℕ) :
    (bytesIn mem b).replicas.getD (idx - 1) [] = bytesOf mem (b.replica idx).layout.blocks :=
  getD_map b.replicas Replica.fresh fun r => bytesOf mem r.layout.blocks

lemma Mine.lendReplica (hI : Inv s) (h : Mine t o b bytes s) (hidx : idx - 1 < b.replicas.length)
    (hsg : b.staging = .empty) (req : PutBlobTask) (requested fallback : ℚ) :
    Section t o key s (lendReplica req o idx requested fallback s).2 ∧
      Mine t o (b.lend idx req.mark) ⟨bytes.main, bytes.replicas.modify (idx - 1) (fun _ => []),
        bytes.replicas.getD (idx - 1) []⟩ (lendReplica req o idx requested fallback s).2 ∧
      (lendReplica req o idx requested fallback s).1.2.2 =
        (bytes.replicas.getD (idx - 1) []).length := by
  have hrs : (s.objs o).replicas = b.replicas := by
    rw [← h.info]
    rfl
  have hrep : (s.objs o).replica idx = b.replica idx := by rw [replica, hrs]; rfl
  obtain ⟨pre, post, -, -, hmod⟩ := b.replicas_split hidx
  have hob : (Cte.lendReplica req o idx requested fallback s).2.objs
      = Function.update s.objs o ((s.objs o).lend idx req.mark) := by
    have hli : (s.objs o).replicas.modify (idx - 1)
          (fun _ => { req.mark ((s.objs o).replica idx) with layout := .empty })
        = (s.objs o).replicas.modify (idx - 1) fun r => { req.mark r with layout := .empty } := by
      rw [hrs, hmod, hmod, hrep]
    simp only [lend, modifyReplica, ← hli]
    rfl
  have hq : Quiet key s (Cte.lendReplica req o idx requested fallback s).2 :=
    ⟨Calm.of_eq rfl rfl rfl rfl rfl rfl rfl, rfl, rfl, rfl⟩
  obtain ⟨hsec, hmi⟩ := h.update hI (reshapes_lend hidx (by rw [hsg]; rfl) h.holds.fits) hq hob
  rw [bytesIn_lend, ← replica_bytesIn, h.bytes] at hmi
  refine ⟨hsec, hmi, ?_⟩
  change computeTotalSizeSlow ((s.objs o).replica idx).layout.blocks = _
  rw [hrep, ← h.bytes, replica_bytesIn, length_bytesOf]

lemma Mine.publishReplica (hI : Inv s) (h : Mine t o b bytes s) (req : PutBlobTask)
    (hidx : idx - 1 < b.replicas.length) (hemp : (b.replica idx).layout.blocks = []) (wid : ℕ)
    (score : ℚ) (error : ℕ) :
    Section t o req.key s (publishReplica wid req o idx score error s).2 ∧
      ∃ m, Mine t o (b.publish idx m)
        ⟨bytes.main, bytes.replicas.modify (idx - 1) (fun _ => bytes.staging), []⟩
        (publishReplica wid req o idx score error s).2 := by
  set m : Replica → Replica := fun r => { r with score := if error = 0 then score else r.score }
  set published := s.modifyObj o (·.publish idx m)
  have hq : Quiet req.key s (Cte.publishReplica wid req o idx score error s).2 ∧
      (Cte.publishReplica wid req o idx score error s).2.objs = published.objs := by
    have hrun : (Cte.publishReplica wid req o idx score error s).2 =
        (if error = 0 ∧ req.context.emulate = false ∧
          ((published.objs o).replica idx).layout.blocks ≠ []
          then published.logBlob wid (extendReplicaTxn req.key idx ((published.objs o).replica idx))
          else published).mirrorBlobToShm req.key := rfl
    rw [hrun]
    split_ifs
    · exact ⟨((modifyObj req.key s o _).trans (logBlob _ _ _ _)).trans (.mirrorBlobToShm _ _), rfl⟩
    · exact ⟨(modifyObj req.key s o _).trans (mirrorBlobToShm _ _), rfl⟩
  obtain ⟨hsec, hmi⟩ := h.update hI (reshapes_publish hidx hemp h.holds.fits) hq.1 hq.2
  rw [bytesIn_publish, h.bytes] at hmi
  exact ⟨hsec, m, hmi⟩

/-- **`WriteReplicaData`.** -/
lemma writeReplicaData_safe {S : Setting t o req.key} (offset size : ℕ)
    (requested fallback : ℚ) (hS : S.Ready s) (h : Mine t o b bytes s) (hb : InOrder b)
    (hidx : idx - 1 < b.replicas.length) :
    S.Safe (fun rc => ReplicaPut req t o b bytes idx offset size rc)
      (writeReplicaData wid req o idx offset size requested fallback) s := by
  have hsta : bytes.staging = [] := by
    rw [← h.bytes, bytesIn, hb.staging]
    rfl
  set b1 := b.lend idx req.mark with hb1
  set old := bytes.replicas.getD (idx - 1) []
  set bytes1 : Bytes := ⟨bytes.main, bytes.replicas.modify (idx - 1) (fun _ => []), old⟩
  refine .bind (.mine hS h (Q := fun r s => Mine t o b1 bytes1 s ∧ r.2.2 = old.length)
    fun s hI h => h.lendReplica hI hidx hb.staging req requested fallback) hS ?_
  rintro ⟨score, level, oldSize⟩ s hS ⟨h, hold'⟩
  have h1 := h
  have hsz : Sized (b1.slot .staging) := rfl
  refine .bind (extendBlob_safe offset size score level req.context.preallocate hS h hsz) hS ?_
  rintro e s hS ⟨l, ⟨hl, -, -, junk, h⟩, hsize, hflt⟩
  set b2 := b1.setSlot .staging l with hb2
  have hlen2 : (old ++ junk).length = l.totalSizeCache := by
    have hl' : Sized (b2.slot .staging) := hl
    exact h.length_slot hl'
  have hlen1 : (b1.slot .staging).totalSizeCache = old.length := (h1.length_slot hsz).symm
  -- the bytes, unless there is no room
  refine .bind (Q := fun error s => (error ≠ 0 → s.hist.fault = true) ∧ ∃ content,
    Mine t o b2 (bytes1.setSlot .staging content) s ∧
    (error = 0 → ∃ mid, Extended offset size old mid ∧
      Filled req offset size old.length mid content))
    ?_ hS ?_
  · split_ifs with he
    · exact .pure hS ⟨fun _ => hflt he, _, h, fun h => absurd h (by omega)⟩
    · refine .mono (writeStaged_safe req offset size oldSize hS h) hS ?_
      rintro rc s - ⟨hrc, content, h, -, hfil⟩
      refine ⟨hrc, content, h, fun hrc0 => ⟨old ++ junk, ⟨⟨junk, rfl⟩, ?_⟩, hold' ▸ hfil hrc0⟩⟩
      rw [hlen2, hsize (by omega), hlen1]
  rintro error s hS ⟨herr, content, h, hgl⟩
  have hleng2 : b2.replicas.length = b.replicas.length := length_modify ..
  have hemp2 : (b2.replica idx).layout.blocks = [] := by
    have hget : b2.replica idx = b2.replicas[idx - 1] := getD_eq_getElem _ _ (by omega)
    rw [hget]
    simp [hb2, hb1, BlobInfo.setSlot, BlobInfo.lend, BlobInfo.modifyReplica, empty]
  refine .bind (.faultIf (.mine hS h (Q := fun _ s => ∃ m, Mine t o (b2.publish idx m)
      ⟨bytes.main, (bytes.replicas.modify (idx - 1) (fun _ => [])).modify (idx - 1)
        (fun _ => content),
        []⟩ s) fun s hI h => h.publishReplica hI req (by omega) hemp2 wid score error) herr) hS ?_
  rintro _ s hS ⟨⟨m, h⟩, herr⟩
  refine .pure hS ⟨herr, b2.publish idx m, content, ?_, hb.publish_lend hl, ?_, ?_, hgl⟩
  · rw [modify_modify_eq] at h
    rwa [hsta]
  · rfl
  · exact (length_modify ..).trans hleng2

/-- What a task leaves that has only touched replicas. -/
structure PrimaryKept (t : TaskId) (o : ObjId) (b : BlobInfo) (bytes : Bytes) (b' : BlobInfo)
    (bytes' : Bytes) (s : State) : Prop where
  mine : Mine t o b' bytes' s
  inOrder : InOrder b'
  primary : b'.primary = b.primary
  length : b'.replicas.length = b.replicas.length
  main : bytes'.main = bytes.main

/-- The write-through to the replicas. -/
lemma writeThrough_safe {S : Setting t o req.key} (offset size : ℕ)
    (score : ℚ) {idxs : List ℕ} (hidxs : ∀ idx ∈ idxs, idx - 1 < b.replicas.length) (hS : S.Ready s)
    (h : Mine t o b bytes s) (hb : InOrder b) :
    S.Safe (fun rc s => (rc ≠ 0 → s.hist.fault = true) ∧
      ∃ b' bytes', PrimaryKept t o b bytes b' bytes' s)
      (writeThrough wid req o offset size score idxs) s := by
  induction idxs generalizing b bytes s with
  | nil => exact .pure hS ⟨absurd rfl, b, bytes, h, hb, rfl, rfl, rfl⟩
  | cons idx idxs ih =>
    refine .bind (writeReplicaData_safe wid req offset size (-1) score hS h hb
      (hidxs idx mem_cons_self)) hS ?_
    rintro r s hS ⟨hflt, b1, content, h, hb1, hprim, hlen, -⟩
    split_ifs with hr
    · refine .mono (ih (fun i hi => ?_) hS h hb1) hS ?_
      · rw [hlen]
        exact hidxs i (mem_cons_of_mem _ hi)
      rintro rc s - ⟨hrc, b2, bytes2, hkp⟩
      exact ⟨hrc, b2, bytes2, hkp.mine, hkp.inOrder, hkp.primary.trans hprim,
        hkp.length.trans hlen, hkp.main⟩
    · exact .pure hS ⟨hflt, b1, _, h, hb1, hprim, hlen, rfl⟩

lemma writeReplicas_safe {S : Setting t o req.key} (offset size : ℕ)
    (score : ℚ) (hS : S.Ready s) (h : Mine t o b bytes s) (hb : InOrder b) :
    S.Safe (fun rc s => (rc ≠ 0 → s.hist.fault = true) ∧
      ∃ b' bytes', PrimaryKept t o b bytes b' bytes' s)
      (writeReplicas wid req o offset size score) s := by
  rw [writeReplicas]
  split_ifs
  · refine .bind (.look hS h) hS ?_
    rintro count s hS ⟨h, rfl⟩
    have hcnt : (s.objs o).replicas.length = b.replicas.length := by
      rw [← h.info]
      rfl
    refine writeThrough_safe wid req offset size score (fun idx hidx => ?_) hS h hb
    obtain ⟨i, hi, rfl⟩ := mem_map.mp hidx
    rw [hcnt] at hi
    exact mem_range.mp hi
  · exact .pure hS ⟨absurd rfl, b, bytes, h, hb, rfl, rfl, rfl⟩

/-! ## The primary -/

/-- The walk of a put starts at a block in front of all it writes. -/
lemma PutBlobTask.hint_spec (hold : Sized old) (offset : ℕ)
    (hfrt : req.replace = false → blocks.take (old.blocks.length - 1)
      = old.blocks.take (old.blocks.length - 1)) :
    (req.hint old offset).2 = computeTotalSizeSlow (blocks.take (req.hint old offset).1) ∧
      (req.hint old offset).2 ≤ offset ∧ (req.hint old offset).2 ≤ old.totalSizeCache := by
  rw [PutBlobTask.hint]
  split_ifs with htail
  · refine ⟨?_, (sub_le _ _).trans htail.2.1, sub_le _ _⟩
    have htot := congrArg computeTotalSizeSlow (dropLast_append_getLast htail.2.2)
    rw [computeTotalSizeSlow_append, ← hold, dropLast_eq_take] at htot
    rw [hfrt htail.1]
    rw [getLast?_eq_getLast_of_ne_nil htail.2.2]
    simp at htot ⊢
    omega
  · exact ⟨rfl, zero_le _, zero_le _⟩

lemma writePrimary_safe {S : Setting t o req.key} (offset size : ℕ) (hold : Sized old)
    (hfrt : req.replace = false → b.layout.blocks.take (old.blocks.length - 1)
      = old.blocks.take (old.blocks.length - 1))
    (hS : S.Ready s) (h : Mine t o b bytes s) :
    S.Safe (fun rc s => (rc ≠ 0 → s.hist.fault = true) ∧ ∃ content,
        Mine t o b (bytes.setSlot .main content) s ∧ content.length = bytes.main.length ∧
        (rc = 0 → Filled req offset size old.totalSizeCache bytes.main content))
      (writePrimary wid req o offset size old) s := by
  refine .bind (.mine hS h
    (Q := fun blocks s => Mine t o b bytes s ∧ blocks = (b.slot .main).blocks) fun s hI h => ?_) hS
    ?_
  · have hbs : (s.objs o).layout.blocks = (b.slot .main).blocks := by
      rw [← h.info]
      rfl
    split_ifs
    · obtain ⟨hsec, h⟩ := h.quiet hI (.logBlob req.key s wid _) rfl
      exact ⟨hsec, h, hbs⟩
    · exact ⟨(h.quiet hI (.refl req.key s) rfl).1, h, hbs⟩
  rintro blocks s hS ⟨h, hbs⟩
  split_ifs with hemu
  · refine .pure hS ⟨absurd rfl, bytes.main, h, rfl, fun _ => ?_⟩
    rw [Filled, if_pos hemu]
  · obtain ⟨hst, hoff, hsize⟩ := req.hint_spec hold offset (hbs ▸ hfrt)
    refine .mono (writeBytes_safe req hbs hst hS h) hS ?_
    rintro rc s - ⟨content, hlen, h, hgl, hbad⟩
    refine ⟨fun hrc => hbad (by simpa using hrc), content, h, hlen, fun hrc => ?_⟩
    rw [Filled, if_neg hemu]
    exact ⟨hlen, fun hbd => hgl (by simpa using hrc) ⟨hbd, hoff, hsize⟩⟩

/-- Room for a put of the primary. -/
def Placed (offset size : ℕ) (old mid : List UInt8) : Prop :=
  if req.replace then mid = resized (u64 (offset + size)) old else Extended offset size old mid

lemma makeRoom_safe (offset size : ℕ) (score : ℚ) (hS : S.Ready s)
    (h : Mine t o b bytes s) (hb : InOrder b) :
    S.Safe (fun e s => (e ≠ 0 → s.hist.fault = true) ∧ ∃ l mid,
        Mine t o (b.setSlot .main l) (bytes.setSlot .main mid) s ∧ Sized l ∧
        (req.replace = false → l.blocks.take (b.layout.blocks.length - 1)
          = b.layout.blocks.take (b.layout.blocks.length - 1)) ∧
        (e = 0 → Placed req offset size bytes.main mid))
      (makeRoom req o offset size score) s := by
  rw [makeRoom]
  split_ifs with hrepl
  · refine .mono (resizeBlob_safe (u64 (offset + size)) score _ hS h hb.sizes.main hb.draining) hS
      ?_
    rintro e s - ⟨l, content, hres⟩
    refine ⟨hres.failed, l, content, hres.mine, hres.sized, fun h => (by cases hrepl.symm.trans h),
      fun he => ?_⟩
    rw [Placed, if_pos hrepl]
    exact hres.done he (mod_lt _ (by positivity))
  · have hsz : Sized (b.slot .main) := hb.sizes.main
    have hlen : bytes.main.length = b.layout.totalSizeCache := h.length_slot hsz
    refine .mono (extendBlob_safe offset size score _ _ hS h hsz) hS ?_
    rintro e s - ⟨l, ⟨hl, -, hfrt, junk, h⟩, hsize, hflt⟩
    have hl' : Sized ((b.setSlot .main l).slot .main) := hl
    have hlen' := h.length_slot hl'
    rw [BlobInfo.slot_setSlot] at hlen'
    refine ⟨hflt, l, bytes.main ++ junk, h, hl, fun _ => hfrt, fun he => ?_⟩
    rw [Placed, if_neg hrepl]
    exact ⟨⟨junk, rfl⟩, hlen'.trans (by rw [hsize he, hlen]; rfl)⟩

/-- What a successful put of the primary has done when it gets to its end: `b` with `bytes` has
become `b'` with `content`. -/
structure PutDone (req : PutBlobTask) (t : TaskId) (o : ObjId) (b : BlobInfo) (bytes : Bytes)
    (offset size : ℕ) (b' : BlobInfo) (bytes' : Bytes) (s : State) : Prop where
  mine : Mine t o b' bytes' s
  inOrder : InOrder b'
  primary : ∃ l, b'.primary = (b.setSlot .main l).primary
  content : ∃ mid, Placed req offset size bytes.main mid ∧
    Filled req offset size bytes.main.length mid bytes'.main

/-! ## The choice of a copy -/

lemma cacheReplicaIndex_le : cacheReplicaIndex replicas ≤ replicas.length := by
  rw [cacheReplicaIndex]
  split
  · next i hi => exact (findIdx?_eq_some_iff_findIdx_eq.mp hi).1
  · exact zero_le _

lemma plainReplicaIndex_le (sel : ℕ) : plainReplicaIndex replicas sel ≤ replicas.length := by
  induction replicas generalizing sel with
  | nil => exact zero_le _
  | cons r replicas ih =>
    rw [plainReplicaIndex, length_cons]
    split_ifs
    · have hle := ih sel
      split <;> omega
    · omega
    · have hle := ih (sel - 1)
      split <;> omega

/-- Resolving a selector may append empty replicas; what it returns is one of the replicas. -/
lemma resolveReplicaSel_spec (sel : ℤ) (create : Bool) :
    (∃ extra, (resolveReplicaSel replicas sel create).2 = replicas ++ extra ∧
        ∀ r ∈ extra, r.layout = .empty) ∧
      ((resolveReplicaSel replicas sel create).1 ≠ 0 →
        (resolveReplicaSel replicas sel create).1 - 1 <
        (resolveReplicaSel replicas sel create).2.length) := by
  have hcac := cacheReplicaIndex_le replicas
  have hpln := plainReplicaIndex_le replicas sel.toNat
  have hsm : ∃ extra, replicas = replicas ++ extra ∧ ∀ r ∈ extra, r.layout = .empty :=
    ⟨[], by simp, by simp⟩
  rw [resolveReplicaSel]
  by_cases h1 : sel = kCacheReplica
  · rw [if_pos h1]
    cases hidx : cacheReplicaIndex replicas with
    | zero =>
      cases create with
      | true =>
        refine ⟨⟨_, rfl, fun r hr => ?_⟩, fun _ => by simp⟩
        rw [mem_singleton.mp hr]
        rfl
      | false => exact ⟨hsm, absurd rfl⟩
    | succ i => exact ⟨hsm, fun _ => by simp only; omega⟩
  rw [if_neg h1]
  by_cases h2 : sel ≤ 0
  · rw [if_pos h2]
    exact ⟨hsm, absurd rfl⟩
  rw [if_neg h2]
  cases hidx : plainReplicaIndex replicas sel.toNat with
  | zero =>
    cases create with
    | true =>
      refine ⟨⟨_, rfl, fun r hr => ?_⟩, fun hne => ?_⟩
      · rw [(mem_replicate.mp hr).2]
        rfl
      · exact sub_lt (pos_of_ne_zero hne) one_pos
    | false => exact ⟨hsm, absurd rfl⟩
  | succ i => exact ⟨hsm, fun _ => by simp only; omega⟩

/-! ## The put -/

variable {S : Setting t o req.key} {Q : ℕ → State → Prop} (offset size : ℕ) (score : ℚ)
  (hS : S.Ready s) (h : Mine t o b bytes s) (hb : InOrder b)
  (hfa : ∀ rc b' bytes' s, rc ≠ 0 → S.Ready s → Mine t o b' bytes' s → InOrder b' →
    s.hist.fault = true → Q rc s)
  (hdn : ∀ b' bytes' s, S.Ready s → PutDone req t o b bytes offset size b' bytes' s →
    S.Ends (fun _ s => Q 0 s) (Co.act (finishPut wid req o score b.layout.totalSizeCache)) s)
include hS h hb hfa hdn

/-- **A put of the primary.**  `Q` is what the end of the put leads to, or a failure. -/
lemma putPrimary_safe : S.Ends Q (putPrimary wid req o offset size score) s := by
  refine Safe.bindEnds (.look hS h) hS ?_
  rintro old s hS ⟨h, hold⟩
  have hold' : old = b.layout := by
    rw [hold, ← h.info]
    rfl
  subst hold'
  have hlen : bytes.main.length = b.layout.totalSizeCache := by
    have hsz : Sized (b.slot .main) := hb.sizes.main
    exact h.length_slot hsz
  refine Safe.bindEnds (makeRoom_safe req offset size score hS h hb) hS ?_
  rintro e s hS ⟨hflt, l, mid, h, hl, hfrt, hplc⟩
  have hb1 : InOrder (b.setSlot .main l) := ⟨⟨hl, hb.sizes.replicas, hb.sizes.staging⟩, hb.staging,
    hb.draining⟩
  split_ifs with he
  · exact .pure (hfa _ _ _ s (by omega) hS h hb1 (hflt he))
  refine Safe.bindEnds (writePrimary_safe wid req offset size hb.sizes.main hfrt hS h) hS ?_
  rintro r s hS ⟨hflt, content, h, hlen', hfil⟩
  split_ifs with hr
  · exact .pure (hfa _ _ _ s hr hS h hb1 (hflt hr))
  refine Safe.bindEnds (writeReplicas_safe wid req offset size score hS h hb1) hS ?_
  rintro r' s hS ⟨hflt, b2, bytes2, hkp⟩
  split_ifs with hr'
  · exact .pure (hfa _ _ _ s hr' hS hkp.mine hkp.inOrder (hflt hr'))
  refine .bind (hdn b2 bytes2 s hS ⟨hkp.mine, hkp.inOrder, ⟨l, hkp.primary⟩, mid,
    hplc (by omega), ?_⟩) hS ?_
  · have hmn : bytes2.main = content := hkp.main
    rw [hmn, hlen]
    exact hfil (by omega)
  · exact fun _ s _ _ hQ => .pure hQ

/-- **A put**, under the token.  `Q` is what the end of a put of the primary leads to, or a failure,
or an operation on a replica. -/
lemma putLocked_safe (hkeep : ∀ rc b' bytes' s, S.Ready s → Mine t o b' bytes' s → InOrder b' →
      b'.primary = b.primary → bytes'.main = bytes.main → Q rc s) :
    S.Ends Q (putLocked wid req o offset size score) s := by
  rw [putLocked]
  split_ifs with hsel
  · -- a replica
    set create := !req.context.replicaFlags.updateOnly
    set grown : BlobInfo :=
      { b with replicas := (resolveReplicaSel b.replicas req.context.replica create).2 } with hgrn
    obtain ⟨⟨extra, hext, hemp⟩, hidx⟩ :=
      resolveReplicaSel_spec b.replicas req.context.replica create
    have hbs : extra.flatMap (fun r => r.layout.blocks) = [] :=
      flatMap_eq_nil_iff.mpr fun r hr => by rw [hemp r hr]; rfl
    have hall : grown.allBlocks = b.allBlocks := by
      simp only [hgrn, allBlocks, hext, flatMap_append, hbs, append_nil]
    have hgro : InOrder grown := by
      refine ⟨⟨hb.sizes.main, fun r hr => ?_, hb.sizes.staging⟩, hb.staging, hb.draining⟩
      rw [hgrn] at hr
      simp only [hext, mem_append] at hr
      rcases hr with hr | hr
      · exact hb.sizes.replicas r hr
      · rw [hemp r hr]
        rfl
    refine Safe.bindEnds (.mine hS h
      (Q := fun idx s => ∃ bytes', Mine t o grown bytes' s ∧ bytes'.main = bytes.main ∧
        (idx ≠ 0 → idx - 1 < grown.replicas.length)) fun s hI h => ?_) hS ?_
    · have hrs : (s.objs o).replicas = b.replicas := by
        rw [← h.info]
        rfl
      have hf : Reshapes (fun x => { x with
          replicas := (resolveReplicaSel b.replicas req.context.replica create).2 }) b :=
        ⟨fun _ => rfl, fun _ => rfl, rfl, fun h => h, by
          change (grown.allBlocks.map _).Perm _; rw [hall],
          fun blk hblk => h.holds.fits blk (hall ▸ hblk)⟩
      have hq : Quiet req.key s (s.modifyObj o fun x => { x with
          replicas := (resolveReplicaSel b.replicas req.context.replica create).2 }) :=
        modifyObj req.key s o _
      obtain ⟨hsec, hmi⟩ := h.update hI hf hq rfl
      simp only [selectReplica, hrs]
      refine ⟨hsec, _, hmi, ?_, fun hne => ?_⟩
      · rw [← h.bytes]
        rfl
      · split_ifs at hne ⊢ with hupd
        · exact absurd rfl hne
        · exact hidx hne
    rintro idx s hS ⟨bytes1, h, hmn, hidx⟩
    split_ifs with hz0
    · exact .pure (hkeep _ _ _ s hS h hgro rfl hmn)
    · refine Safe.ends (writeReplicaData_safe wid req offset size req.score score hS h hgro
        (hidx hz0)) hS ?_
      rintro rc s hS ⟨-, b', content, h, hb', hprim, -, -⟩
      exact hkeep rc b' _ s hS h hb' hprim hmn
  · exact putPrimary_safe wid req offset size score hS h hb hfa hdn

end ClioCore.Cte
