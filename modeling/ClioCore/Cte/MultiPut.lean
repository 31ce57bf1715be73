import ClioCore.Cte.ReaderPins

/-!
# Batched puts

`MultiPutBlob` runs a nested `PutBlob` for each record of a batch, on the bytes of one buffer that
the client has filled.  A record says where its bytes start and how many they are, and `RecordValid`
compares the sum of the two, a `u64`, with the length of the buffer.  A sum that wraps around
passes, and the put reads far outside the buffer.
-/

namespace ClioCore.Cte

open Foundations State

/-- `MultiPutDesc` -/
structure MultiPutDesc where
  tagId : TagId
  blobName : String
  offset : UInt64
  size : UInt64
  payloadOff : UInt64

namespace MultiPutDesc

variable (d : MultiPutDesc)

/-- `RecordValid` -/
def recordValid (dataLen : UInt64) : Bool := d.payloadOff + d.size ≤ dataLen

/-- `RecordSlice`, where `base` is the memory from `base_` on -/
def recordSlice (base : UInt64 → UInt8) : Buffer := fun i => base (d.payloadOff + .ofNat i)

/-- The nested put of a record -/
def put (context : Context) (base : UInt64 → UInt8) : PutBlobTask :=
  ⟨d.tagId, d.blobName, none, d.offset.toNat, d.size.toNat, [],
    some (d.recordSlice base), -1, context, false⟩

/-- The slice of a record lies inside a buffer of `dataLen` bytes. -/
def Inside (dataLen : UInt64) : Prop := ∀ i < d.size.toNat, d.payloadOff + .ofNat i < dataLen

end MultiPutDesc

variable (wid : ℕ) (tok : TaskId) (context : Context) (dataLen : UInt64) (base : UInt64 → UInt8)

/-- The loop over the records: `num_ok_` and `first_rc_` -/
def putRecords : List MultiPutDesc → ℕ × ℕ → Co State (ℕ × ℕ)
  | [], r => pure r
  | d :: ds, (numOk, firstRc) =>
    if d.recordValid dataLen then do
      let sub ← putBlob wid tok (d.put context base)
      putRecords ds (if sub.rc = 0 then (numOk + 1, firstRc)
        else (numOk, if firstRc = 0 then sub.rc else firstRc))
    else putRecords ds (numOk, if firstRc = 0 then 2 else firstRc)

/-- `MultiPutBlob`, with or without a buffer: `num_ok_`, `first_rc_` and the return code -/
def multiPutBlob (descs : List MultiPutDesc) : Option (UInt64 → UInt8) → Co State (ℕ × ℕ × ℕ)
  | none => pure (0, 0, if descs.isEmpty then 0 else 1)
  | some base => do
      let r ← putRecords wid tok context dataLen base descs (0, 0)
      pure (r.1, r.2, r.2)

/-- The batch reads nothing but its buffer, and a record that does not lie in it counts as failed
and writes nothing. -/
structure StaysInside (descs : List MultiPutDesc) : Prop where
  inside : ∀ d ∈ descs, d.recordValid dataLen = true → d.Inside dataLen
  reads : ∀ wid tok context base base', (∀ p < dataLen, base p = base' p) →
    multiPutBlob wid tok context dataLen descs (some base)
      = multiPutBlob wid tok context dataLen descs (some base')
  failed : ∀ d ∈ descs, ¬ d.Inside dataLen → ∀ wid tok context base ds numOk firstRc,
    putRecords wid tok context dataLen base (d :: ds) (numOk, firstRc)
      = putRecords wid tok context dataLen base ds (numOk, if firstRc = 0 then 2 else firstRc)

/-! ## What a put reads -/

variable {wid tok context dataLen base} {base' : UInt64 → UInt8} {f g : Buffer} {size : ℕ}
  {d : MultiPutDesc}

lemma pos_add_len_le {off : ℕ} {bs : List BlobBlock} {start remaining : ℕ} {p : Piece}
    (h : p ∈ pieces off size bs start remaining) : p.pos + p.len ≤ size := by
  induction bs generalizing start remaining with
  | nil => simp [pieces] at h
  | cons b bs ih =>
    rw [pieces] at h
    split_ifs at h with h0 hmeet
    · simp at h
    · obtain rfl | h := List.mem_cons.mp h
      · have hu : u64 (off + size) ≤ off + size := Nat.mod_le _ _
        dsimp only
        omega
      · exact ih h
    · exact ih h

lemma writePieces_congr (hfg : ∀ i < size, f i = g i) {ps : List Piece}
    (h : ∀ p ∈ ps, p.pos + p.len ≤ size) : writePieces f ps = writePieces g ps := by
  induction ps with
  | nil => rfl
  | cons p ps ih =>
    have hp := h p (by simp)
    have hone : writePiece f p = writePiece g p := by
      funext s
      have hst : ∀ n ≤ p.len, storeBytes s.mem p.pool p.addr n (fun i => f (p.pos + i))
          = storeBytes s.mem p.pool p.addr n fun i => g (p.pos + i) := by
        intro n hn
        funext q a
        rw [storeBytes, storeBytes]
        split_ifs
        · exact hfg _ (by omega)
        · rfl
      rw [writePiece, writePiece, hst _ (min_le_left _ _)]
    rw [writePieces, writePieces, hone, ih fun q hq => h q (by simp [hq])]

/-- The put of a record reads only its slice. -/
lemma putBlob_put (h : ∀ i < d.size.toNat, d.recordSlice base i = d.recordSlice base' i) :
    putBlob wid tok (d.put context base) = putBlob wid tok (d.put context base') := by
  set t := d.put context base
  set t' := d.put context base'
  have hbytes : ∀ blocks off, writeBytes t blocks off t.size = writeBytes t' blocks off t.size := by
    intro blocks off
    funext old idx start
    have hmod : writePieces (deref t.blobData) (pieces off t.size (blocks.drop idx) start t.size)
      = writePieces (deref t'.blobData) _ := writePieces_congr h fun _ => pos_add_len_le
    simp only [writeBytes, modifyExistingData, hmod]
    rfl
  have hrep : ∀ o idx off, writeReplicaData wid t o idx off t.size
      = writeReplicaData wid t' o idx off t.size := by
    intro o idx off
    funext x y
    simp only [writeReplicaData, writeStaged, hbytes]
    rfl
  have hthr : ∀ o off score l, writeThrough wid t o off t.size score l
      = writeThrough wid t' o off t.size score l := by
    intro o off score l
    induction l with
    | nil => rfl
    | cons idx l ih => rw [writeThrough, writeThrough, hrep, ih]
  have hlck : ∀ o off, putLocked wid t o off t.size = putLocked wid t' o off t.size := by
    intro o off
    funext score
    simp only [putLocked, putPrimary, writePrimary, writeReplicas, hbytes, hrep, hthr]
    rfl
  have hsm : t'.range = t.range := rfl
  rw [putBlob, putBlob, hsm]
  cases hrg : t.range with
  | error rc => rfl
  | ok rg =>
    obtain rfl : rg = (t.offset, t.size) := by
      rw [PutBlobTask.range, if_pos (show t.segments = [] from rfl)] at hrg
      dsimp only at hrg
      split_ifs at hrg
      exact (Except.ok.inj hrg).symm
    simp only [hlck]
    rfl

lemma putRecords_congr {descs : List MultiPutDesc} (h : ∀ d ∈ descs, d.recordValid dataLen = true →
      ∀ i < d.size.toNat, d.recordSlice base i = d.recordSlice base' i) (r : ℕ × ℕ) :
    putRecords wid tok context dataLen base descs r
      = putRecords wid tok context dataLen base' descs r := by
  induction descs generalizing r with
  | nil => rfl
  | cons d ds ih =>
    have hrest := fun r => ih (fun d' hd' => h d' (by simp [hd'])) r
    obtain ⟨numOk, firstRc⟩ := r
    rw [putRecords, putRecords]
    by_cases hv : d.recordValid dataLen = true
    · simp only [hv, if_true, putBlob_put (h d (by simp) hv), hrest]
    · rw [if_neg hv, if_neg hv, hrest]

/-- A record that passes the test lies in the buffer unless its sum wraps around. -/
lemma MultiPutDesc.inside_iff (hv : d.recordValid dataLen = true) :
    d.Inside dataLen ↔ d.payloadOff.toNat + d.size.toNat < 2 ^ 64 := by
  have hsum : (d.payloadOff.toNat + d.size.toNat) % 2 ^ 64 ≤ dataLen.toNat := by
    simpa [recordValid, UInt64.le_iff_toNat_le] using hv
  have hoff := d.payloadOff.toNat_lt
  have hlen := dataLen.toNat_lt
  simp only [Inside, UInt64.lt_iff_toNat_lt, UInt64.toNat_add, UInt64.toNat_ofNat']
  constructor
  · intro h
    by_contra hge
    -- the last byte before the addresses wrap around
    have hlast := h (2 ^ 64 - 1 - d.payloadOff.toNat) (by omega)
    omega
  · intro hlt i hi
    omega

/-- **Batched puts** stay inside their buffer exactly if no record that `RecordValid` accepts has a
start and a size whose sum leaves `u64`. -/
theorem staysInside_iff (dataLen : UInt64) (descs : List MultiPutDesc) : StaysInside dataLen descs ↔
    ∀ d ∈ descs, d.recordValid dataLen = true → d.payloadOff.toNat + d.size.toNat < 2 ^ 64 := by
  constructor
  · exact fun h d hd hv => (d.inside_iff hv).mp (h.inside d hd hv)
  · intro h
    have hin := fun d hd hv => (MultiPutDesc.inside_iff hv).mpr (h d hd hv)
    refine ⟨hin, fun wid tok context base base' hb => ?_, fun d hd hnot _ _ _ _ _ _ _ => ?_⟩
    · simp only [multiPutBlob, putRecords_congr fun d hd hv i hi => hb _ (hin d hd hv i hi)]
    · rw [putRecords, if_neg fun hv => hnot (hin d hd hv)]

/-- A record of the two bytes before the buffer. -/
def beforeBuffer : MultiPutDesc := ⟨⟨0, 1⟩, "a", 0, 2, .ofNat (2 ^ 64 - 2)⟩

/-- The buffer has eight sevens, the record passes and the blob gets the two nines before the
buffer. -/
theorem not_staysInside_beforeBuffer : ¬ StaysInside 8 [beforeBuffer] ∧
    ((multiPutBlob 0 ⟨0, 0⟩ .default 8 [beforeBuffer] (some fun p => if p < 8 then 7 else 9)).run
        (start [⟨⟨1, 0⟩, 0, 100, .longTerm, 100⟩] Env.obliging)).map (fun r =>
      (r.1, bytesOf r.2.mem (r.2.objs 0).layout.blocks)) = some ((1, 0, 0), [9, 9]) := by
  refine ⟨fun h => ?_, by decide +kernel⟩
  exact absurd (h.inside beforeBuffer (by simp) (by decide +kernel) 0 (by decide))
    (by decide +kernel)

end ClioCore.Cte
