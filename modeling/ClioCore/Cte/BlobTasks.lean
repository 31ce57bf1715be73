import ClioCore.Cte.Placement

/-!
# Tasks on one blob

`PutBlob`, `GetBlob`, `TruncateBlob`, `DelBlob`, `ReorganizeBlob` (of the primary and of a replica)
and the reclaim of a cache replica, as cooperative tasks.

A task that changes a blob looks it up, polls for the blob's write token and keeps the object it
looked up from then on.  A task that frees extents first drains the readers: it sets the drain bit
and polls until no reader holds a pin.

The sections here are at most as long as the stretches between two `co_await`s of the source, so
every interleaving of the source is one of the model; the model has additional switching points.
Timestamps, access counts, telemetry, the GPU cache, the placement generation and the coherence with
other nodes are left out.
-/

namespace ClioCore.Cte

open Foundations
open Co (act await)
open SafeBdev (PoolId)

/-! ## Requests -/

/-- `Context::replica_` for "primary and every existing replica". -/
def kAllReplicas : ℤ := -1

/-- `Context::replica_` for the cache replica. -/
def kCacheReplica : ℤ := -2

/-- The return code for an absent replica. -/
def kReplicaAbsentRc : ℕ := 12

/-- The fields of `Context` that `PutBlob` reads. -/
structure Context where
  minPersistenceLevel : ℤ
  preallocate : ℕ
  emulate : Bool
  transformFlags : ℕ
  replica : ℤ
  replicaFlags : ReplicaFlags
  replicaMinScore : ℚ

/-- The default context. -/
def Context.default : Context := ⟨0, 0, false, 0, 0, .none, -1⟩

/-- One region of a vectored put. -/
structure Segment where
  blobOff : ℕ
  size : ℕ
  data : Option Buffer

/-- `PutBlobTask` -/
structure PutBlobTask where
  tagId : TagId
  blobName : String
  gpuPageIdx : Option ℕ
  offset : ℕ
  size : ℕ
  segments : List Segment
  blobData : Option Buffer
  score : ℚ
  context : Context
  /-- `flags_ & kCtePutReplace` -/
  replace : Bool

/-- The blob a put is about. -/
def PutBlobTask.key (t : PutBlobTask) : BlobKey :=
  ⟨t.tagId, match t.gpuPageIdx with
    | none => t.blobName
    | some n => t.blobName ++ "_pi" ++ toString n⟩

/-- What a task returns: a code and, for `GetBlob`, the buffers of the caller. -/
structure Reply where
  rc : ℕ
  data : List Buffer

/-- A reply without data. -/
def reply (rc : ℕ) : Reply := ⟨rc, []⟩

/-- The bytes behind a pointer that has been checked. -/
def deref (data : Option Buffer) : Buffer := data.getD fun _ => 0

/-- The union of the segments, `lo` and `hi` so far. -/
def unionRange (emulate : Bool) : List Segment → ℕ → ℕ → Except ℕ (ℕ × ℕ)
  | [], lo, hi => .ok (lo, u64 (2 ^ 64 + hi - lo))
  | seg :: rest, lo, hi =>
    if seg.size = 0 then .error 2
    else if seg.data.isNone ∧ emulate = false then .error 3
    else unionRange emulate rest (min lo seg.blobOff) (max hi (u64 (seg.blobOff + seg.size)))

/-- The checks of `PutBlobImpl` up to the lookup: offset and size of the put. -/
def PutBlobTask.range (t : PutBlobTask) : Except ℕ (ℕ × ℕ) :=
  match if t.segments = [] then .ok (t.offset, t.size)
    else unionRange t.context.emulate t.segments (2 ^ 64 - 1) 0 with
  | .error rc => .error rc
  | .ok (offset, size) =>
    if size = 0 then .error 2
    else if t.segments = [] ∧ t.blobData.isNone ∧ t.context.emulate = false then .error 3
    else if t.key.name = "" then .error 4
    else .ok (offset, size)

/-! ## The write token -/

variable (wid : ℕ) (tok : TaskId)

/-- `TryLockWrite` has succeeded. -/
def takeToken (o : ObjId) (s : State) : Unit × State :=
  ((), { s.modifyObj o fun b => { b with writeOwner := some tok } with
    hist := { s.hist with acquired := s.hist.acquired ++ [(tok, o)] } })

/-- `TryLockWrite`, polled. -/
def lockWrite (o : ObjId) : Co State Unit :=
  await (fun s => (s.objs o).writeOwner = none ∨ (s.objs o).writeOwner = some tok) (takeToken tok o)

/-- `UnlockWrite` -/
def unlockWrite (o : ObjId) (s : State) : Unit × State :=
  ((), s.modifyObj o fun b => if b.writeOwner = some tok then { b with writeOwner := none } else b)

/-! ## Replicas of an object -/

/-- `CacheReplicaIndex`, 1-based; 0 if there is none. -/
def cacheReplicaIndex (replicas : List Replica) : ℕ :=
  match replicas.findIdx? fun r => r.flags.cache with
  | some i => i + 1
  | none => 0

/-- The 1-based index of the `sel`-th replica that is not the cache; 0 if there is none. -/
def plainReplicaIndex : List Replica → ℕ → ℕ
  | [], _ => 0
  | r :: rs, sel =>
    if r.flags.cache then
      match plainReplicaIndex rs sel with
      | 0 => 0
      | i + 1 => i + 2
    else if sel = 1 then 1
    else match plainReplicaIndex rs (sel - 1) with
      | 0 => 0
      | i + 1 => i + 2

/-- `ResolveReplicaSel` with `create`: the index and the replicas, extended if needed. -/
def resolveReplicaSel (replicas : List Replica) (sel : ℤ) (create : Bool) : ℕ × List Replica :=
  if sel = kCacheReplica then
    match cacheReplicaIndex replicas with
    | 0 =>
      if create then (replicas.length + 1,
        replicas ++ [{ Replica.fresh with flags := { ReplicaFlags.none with cache := true } }])
      else (0, replicas)
    | i + 1 => (i + 1, replicas)
  else if sel ≤ 0 then (0, replicas)
  else
    match plainReplicaIndex replicas sel.toNat with
    | 0 =>
      if create then
        let plain := (replicas.filter fun r => !r.flags.cache).length
        let grown := replicas ++ List.replicate (sel.toNat - plain) Replica.fresh
        (grown.length, grown)
      else (0, replicas)
    | i + 1 => (i + 1, replicas)

/-- The replica with a 1-based index. -/
def BlobInfo.replica (b : BlobInfo) (idx : ℕ) : Replica := b.replicas.getD (idx - 1) Replica.fresh

/-- Change the replica with a 1-based index. -/
def BlobInfo.modifyReplica (b : BlobInfo) (idx : ℕ) (f : Replica → Replica) : BlobInfo :=
  { b with replicas := b.replicas.modify (idx - 1) f }

/-! ## `PutBlob` -/

section Put

variable (t : PutBlobTask) (o : ObjId)

/-- Zero the hole `[oldSize, offset)`: the error code. -/
def zeroHole (blocks : List BlobBlock) (offset oldSize hintIdx hintOff : ℕ) : Co State ℕ :=
  if oldSize < offset then do
    let ok ← act allocateBuffer
    if ok then do
      let r ← modifyExistingData blocks (fun _ => 0) (offset - oldSize) oldSize hintIdx hintOff
      pure (if r = 0 then 0 else 20 + r)
    else pure 6
  else pure 0

/-- Zero the hole, then write the put's bytes: the error code. -/
def writeBytes (t : PutBlobTask) (blocks : List BlobBlock)
    (offset size oldSize hintIdx hintOff : ℕ) : Co State ℕ := do
  let hole ← zeroHole blocks offset oldSize hintIdx hintOff
  if hole ≠ 0 then pure hole
  else if t.segments = [] then do
    let r ← modifyExistingData blocks (deref t.blobData) size offset hintIdx hintOff
    pure (if r = 0 then 0 else 20 + r)
  else writeSegments t.segments
where
  /-- The segments in list order, up to the first that fails. -/
  writeSegments : List Segment → Co State ℕ
    | [] => pure 0
    | seg :: rest => do
        let r ← modifyExistingData blocks (deref seg.data) seg.size seg.blobOff hintIdx hintOff
        if r = 0 then writeSegments rest else pure (20 + r)

/-- The replica's settings for this write, and its blocks lent to the staging slot: the score, the
persistence level and the old size. -/
def lendReplica (idx : ℕ) (requestedScore fallbackScore : ℚ) (s : State) : (ℚ × ℤ × ℕ) × State :=
  let rep := (s.objs o).replica idx
  let marked : Replica :=
    { rep with
      flags := rep.flags.merge t.context.replicaFlags
      transformFlags := t.context.transformFlags
      minScore := if 0 ≤ t.context.replicaMinScore then t.context.replicaMinScore else rep.minScore
      layout := .empty }
  let score := if requestedScore < 0 then (if 0 ≤ rep.score then rep.score else fallbackScore)
    else requestedScore
  let lent : Layout := Layout.recomputeTotalSize ⟨rep.layout.blocks, 0⟩
  ((score, marked.minPersistenceLevel t.context.minPersistenceLevel, lent.totalSizeCache),
    s.modifyObj o fun b => { b.modifyReplica idx (fun _ => marked) with staging := lent })

/-- The `kExtendReplica` record of a replica's layout. -/
def extendReplicaTxn (key : BlobKey) (idx : ℕ) (r : Replica) : BlobTxn :=
  .extendReplica key idx r.score r.flags r.transformFlags r.minScore (r.layout.blocks.map (·.toTxn))

/-- Give the staged blocks back to the replica, also after a failure. -/
def publishReplica (idx : ℕ) (score : ℚ) (error : ℕ) (s : State) : Unit × State :=
  let published := s.modifyObj o fun b =>
    { b.modifyReplica idx (fun r =>
        { r with layout := b.staging, score := if error = 0 then score else r.score }) with
      staging := .empty }
  let rep := (published.objs o).replica idx
  let logged := if error = 0 ∧ t.context.emulate = false ∧ rep.layout.blocks ≠ [] then
    published.logBlob wid (extendReplicaTxn t.key idx rep) else published
  ((), logged.mirrorBlobToShm t.key)

/-- The bytes of a put, into the staged blocks of a replica that had `oldSize` bytes. -/
def writeStaged (offset size oldSize : ℕ) : Co State ℕ :=
  if t.context.emulate then pure 0
  else do
    let blocks ← act fun s => ((s.objs o).staging.blocks, s)
    writeBytes t blocks offset size oldSize 0 0

/-- `WriteReplicaData` -/
def writeReplicaData (idx offset size : ℕ) (requestedScore fallbackScore : ℚ) : Co State ℕ := do
  let lent ← act (lendReplica t o idx requestedScore fallbackScore)
  let e ← extendBlob o .staging offset size lent.1 lent.2.1 t.context.preallocate
  let error ← (if e ≠ 0 then pure (10 + e) else writeStaged t o offset size lent.2.2 : Co State ℕ)
  act (publishReplica wid t o idx lent.1 error)
  pure error

/-- The write-through to the replicas with the given indices. -/
def writeThrough (wid : ℕ) (t : PutBlobTask) (o : ObjId) (offset size : ℕ) (score : ℚ) :
    List ℕ → Co State ℕ
  | [] => pure 0
  | idx :: rest => do
      let r ← writeReplicaData wid t o idx offset size (-1) score
      if r = 0 then writeThrough wid t o offset size score rest else pure r

/-- `CreateNewBlob` -/
def createNewBlob (key : BlobKey) (score : ℚ) (s : State) : ObjId × State :=
  (s.nextObj, { (s.modifyObj s.nextObj fun _ => BlobInfo.new key.name score).logBlob wid
      (.createNewBlob key score) with
    nextObj := s.nextObj + 1
    blobs := s.blobs.insert key s.nextObj })

/-- Look the blob up, or create it: the object and the score of the put. -/
def lookupForPut (s : State) : Except ℕ (ObjId × ℚ) × State :=
  match s.checkBlobExists t.key with
  | some o =>
    let score := if t.score < 0 then (s.objs o).score else t.score
    if 1 < score then (.error 5, s) else (.ok (o, score), s)
  | none =>
    let score := if t.score < 0 then 1 else t.score
    if 1 < score then (.error 5, s)
    else (.ok ((createNewBlob wid t.key score s).1, score), (createNewBlob wid t.key score s).2)

/-- The `kExtendBlob` record of the whole block list. -/
def logLayout (key : BlobKey) (o : ObjId) (s : State) : State :=
  s.logBlob wid (.extendBlob key ((s.objs o).layout.blocks.map (·.toTxn)))

/-- `total += new - old` on `u64`. -/
def addDelta (old new total : ℕ) : ℕ :=
  if old ≤ new then total + (new - old)
  else if old - new ≤ total then total - (old - new)
  else total + 2 ^ 64 - (old - new)

/-- The tag of a put gets an entry here if it has none. -/
def seedTag (tag : TagId) (s : State) : State :=
  match s.tagInfos.lookup tag with
  | some _ => s
  | none => { s with tagInfos := s.tagInfos.insert tag ⟨"", 0, []⟩ }

/-- The end of a successful put of the primary. -/
def finishPut (score : ℚ) (oldSize : ℕ) (s : State) : Unit × State :=
  let before := (s.objs o).transformFlags
  let flags := if t.context.transformFlags ≠ 0 then before ||| (1 ||| t.context.transformFlags)
    else before
  let marked := s.modifyObj o fun b => { b with transformFlags := flags, score := score }
  let logged := if flags ≠ before then marked.logBlob wid (.setBlobTransform t.key flags)
    else marked
  let newSize := (s.objs o).layout.totalSizeCache
  let sized := (seedTag t.tagId logged).modifyTagSize t.tagId (addDelta oldSize newSize)
  ((), { sized.mirrorBlobToShm t.key with
    hist := { s.hist with booked := Function.update s.hist.booked o newSize } })

/-- Where a put starts its walk: the index of a block and its place in the blob.  A put behind the
old end starts at the old last block. -/
def PutBlobTask.hint (t : PutBlobTask) (old : Layout) (offset : ℕ) : ℕ × ℕ :=
  if t.replace = false ∧ old.totalSizeCache ≤ offset ∧ old.blocks ≠ [] then
    (old.blocks.length - 1, old.totalSizeCache - ((old.blocks.getLast?.map (·.size)).getD 0))
  else (0, 0)

/-- The bytes of a put, into the primary, which had the layout `old`. -/
def writePrimary (offset size : ℕ) (old : Layout) : Co State ℕ := do
  let blocks ← act fun s => ((s.objs o).layout.blocks,
    if t.context.emulate = false ∧ (s.objs o).layout.blocks ≠ [] then logLayout wid t.key o s
    else s)
  if t.context.emulate then pure 0
  else
    writeBytes t blocks offset size old.totalSizeCache (t.hint old offset).1 (t.hint old offset).2

/-- The write-through of a put, if it asks for one. -/
def writeReplicas (offset size : ℕ) (score : ℚ) : Co State ℕ :=
  if t.context.replica = kAllReplicas then do
    let count ← act fun s => ((s.objs o).replicas.length, s)
    writeThrough wid t o offset size score ((List.range count).map (· + 1))
  else pure 0

/-- Size the primary to fit the write. -/
def makeRoom (offset size : ℕ) (score : ℚ) : Co State ℕ :=
  if t.replace then resizeBlob o (u64 (offset + size)) score t.context.minPersistenceLevel
  else extendBlob o .main offset size score t.context.minPersistenceLevel t.context.preallocate

/-- A put of the primary, under the token. -/
def putPrimary (offset size : ℕ) (score : ℚ) : Co State ℕ := do
  let old ← act fun s => ((s.objs o).layout, s)
  let e ← makeRoom t o offset size score
  if e ≠ 0 then pure (10 + e)
  else do
    let r ← writePrimary wid t o offset size old
    if r ≠ 0 then pure r
    else do
      let r ← writeReplicas wid t o offset size score
      if r ≠ 0 then pure r
      else do
        act (finishPut wid t o score old.totalSizeCache)
        pure 0

/-- The replica a put is addressed to, which is created if needed; 0 if an update finds no bytes. -/
def selectReplica (s : State) : ℕ × State :=
  let r := resolveReplicaSel (s.objs o).replicas t.context.replica
    (!t.context.replicaFlags.updateOnly)
  (if t.context.replicaFlags.updateOnly ∧
      (r.1 = 0 ∨ ((s.objs o).replica r.1).layout.totalSizeCache = 0) then 0 else r.1,
    s.modifyObj o fun b => { b with replicas := r.2 })

/-- A put, under the token. -/
def putLocked (offset size : ℕ) (score : ℚ) : Co State ℕ :=
  if t.context.replica = kCacheReplica ∨ 0 < t.context.replica then do
    let idx ← act (selectReplica t o)
    if idx = 0 then pure kReplicaAbsentRc
    else writeReplicaData wid t o idx offset size t.score score
  else putPrimary wid t o offset size score

/-- `PutBlobImpl`, run by worker `wid` with the token `tok`. -/
def putBlob : Co State Reply :=
  match t.range with
  | .error rc => pure (reply rc)
  | .ok (offset, size) => do
      let found ← act (lookupForPut wid t)
      match found with
      | .error rc => pure (reply rc)
      | .ok (o, score) => do
          lockWrite tok o
          let rc ← putLocked wid t o offset size score
          act (unlockWrite tok o)
          pure (reply rc)

end Put

/-! ## `GetBlob` -/

/-- `GetBlobTask`.  Without segments one range is read into `blobData`. -/
structure GetBlobTask where
  tagId : TagId
  blobName : String
  gpuPageIdx : Option ℕ
  offset : ℕ
  size : ℕ
  segments : List Segment
  blobData : Buffer
  emulate : Bool
  replica : ℤ

/-- The blob a get is about. -/
def GetBlobTask.key (t : GetBlobTask) : BlobKey :=
  ⟨t.tagId, match t.gpuPageIdx with
    | none => t.blobName
    | some n => t.blobName ++ "_pi" ++ toString n⟩

/-- The regions of a get: offset, size and buffer of each. -/
def GetBlobTask.regions (t : GetBlobTask) : List (ℕ × ℕ × Buffer) :=
  if t.segments = [] then [(t.offset, t.size, t.blobData)]
  else t.segments.map fun seg => (seg.blobOff, seg.size, deref seg.data)

/-- The buffers of the caller as they were before. -/
def GetBlobTask.untouched (t : GetBlobTask) : List Buffer := t.regions.map fun r => r.2.2

/-- The checks of `GetBlobImpl` up to the lookup: offset and size of the get. -/
def GetBlobTask.range (t : GetBlobTask) : Option (ℕ × ℕ) :=
  match if t.segments = [] then .ok (t.offset, t.size)
    else unionRange false t.segments (2 ^ 64 - 1) 0 with
  | .error _ => none
  | .ok (offset, size) => if size = 0 ∨ t.key.name = "" then none else some (offset, size)

/-- The layout a get reads: the primary, or the replica with index `sel`. -/
def BlobInfo.readLayout (b : BlobInfo) (sel : ℕ) : Layout :=
  if 0 < sel then (b.replica sel).layout else b.layout

/-- `TryPinRead` has succeeded: unless the blob is gone, copy its blocks. -/
def pinRead (o : ObjId) (sel : ℕ) (s : State) : Option (List BlobBlock) × State :=
  let l := (s.objs o).readLayout sel
  if l.totalSizeCache = 0 then (none, s)
  else (some l.blocks, { s.modifyObj o fun b => { b with pins := b.pins + 1 } with
      hist := { s.hist with reading := (tok, o, l.blocks) :: s.hist.reading } })

/-- `UnpinRead` -/
def unpinRead (o : ObjId) (blocks : List BlobBlock) (s : State) : Unit × State :=
  ((), { s.modifyObj o fun b => { b with pins := b.pins - 1 } with
    hist := { s.hist with reading := s.hist.reading.erase (tok, o, blocks) } })

/-- Read the regions off one copy of the block list, up to the first that fails. -/
def readRegions (blocks : List BlobBlock) : List (ℕ × ℕ × Buffer) → Co State (ℕ × List Buffer)
  | [] => pure (0, [])
  | r :: rest => do
      let read ← readData blocks r.2.2 r.2.1 r.1
      if read.1 ≠ 0 then pure (read.1, read.2 :: rest.map fun r => r.2.2)
      else do
        let tail ← readRegions blocks rest
        pure (tail.1, read.2 :: tail.2)

/-- The object and the copy of it a get reads: 0 for the primary. -/
def lookupForGet (t : GetBlobTask) (s : State) : Option (ObjId × ℕ) :=
  match s.checkBlobExists t.key with
  | none => none
  | some o =>
    if t.replica = kCacheReplica ∨ 0 < t.replica then
      match (resolveReplicaSel (s.objs o).replicas t.replica false).1 with
      | 0 => none
      | i + 1 => some (o, i + 1)
    else if t.replica < 0 then none
    else some (o, 0)

/-- `GetBlobImpl` -/
def getBlob (t : GetBlobTask) : Co State Reply :=
  match t.range with
  | none => pure ⟨1, t.untouched⟩
  | some (offset, size) => do
      let found ← act fun s => (lookupForGet t s, s)
      match found with
      | none => pure ⟨1, t.untouched⟩
      | some (o, sel) => do
          -- a range behind the end while a writer holds the token: the layout may be in motion
          await (fun s => !(((s.objs o).readLayout sel).totalSizeCache < u64 (offset + size) ∧
            (s.objs o).writeOwner ≠ none)) fun s => ((), s)
          let copy ← await (fun s => !(s.objs o).draining) (pinRead tok o sel)
          match copy with
          | none => pure ⟨1, t.untouched⟩
          | some blocks => do
              let r ← (if t.emulate then pure (0, t.untouched) else readRegions blocks t.regions :
                Co State (ℕ × List Buffer))
              act (unpinRead tok o blocks)
              pure ⟨r.1, r.2⟩

/-- The bytes of a copy of a blob: 0 for the primary. -/
def blobBytes (key : BlobKey) (sel : ℕ) (s : State) : Option (List UInt8) :=
  (s.blobs.lookup key).map fun o => bytesOf s.mem ((s.objs o).readLayout sel).blocks

/-- `GetBlobSize` of the primary. -/
def getBlobSize (key : BlobKey) (s : State) : Except ℕ ℕ :=
  match s.checkBlobExists key with
  | none => .error 1
  | some o => .ok (s.objs o).layout.totalSizeCache

/-! ## `TruncateBlob` and `DelBlob` -/

variable (key : BlobKey) (o : ObjId)

/-- The end of a successful truncate. -/
def finishTruncate (oldSize : ℕ) (s : State) : Unit × State :=
  let newSize := (s.objs o).layout.totalSizeCache
  let sized := (s.mirrorBlobToShm key).modifyTagSize key.tag fun total =>
    if oldSize ≤ newSize then total + (newSize - oldSize) else total - (oldSize - newSize)
  let logged := if (s.objs o).layout.blocks ≠ [] then logLayout wid key o sized else sized
  ((), { logged with hist := { s.hist with booked := Function.update s.hist.booked o newSize } })

/-- A truncate, under the token. -/
def truncateLocked (newSize : ℕ) : Co State ℕ := do
  let old ← act fun s => (((s.objs o).layout.totalSizeCache, (s.objs o).score), s)
  let e ← resizeBlob o newSize old.2 0
  if e ≠ 0 then pure (10 + e)
  else do
    act (finishTruncate wid key o old.1)
    pure 0

/-- `TruncateBlob` -/
def truncateBlob (newSize : ℕ) : Co State Reply :=
  if key.name = "" then pure (reply 1)
  else do
    let found ← act fun s => (s.checkBlobExists key, s)
    match found with
    | none => pure (reply 0)
    | some o => do
        lockWrite tok o
        let rc ← truncateLocked wid key o newSize
        act (unlockWrite tok o)
        pure (reply rc)

/-- The replicas' blocks join the blob's own, to be freed with them. -/
def foldReplicas (s : State) : Unit × State :=
  ((), s.modifyObj o fun b =>
    { b with
      layout := { b.layout with
        blocks := b.layout.blocks ++ b.replicas.flatMap fun r => r.layout.blocks }
      replicas := b.replicas.map fun r => { r with layout := .empty } })

/-- The end of a delete. -/
def finishDel (size : ℕ) (s : State) : Unit × State :=
  let sized := s.modifyTagSize key.tag (· - size)
  let logged := ({ sized with blobs := sized.blobs.erase key }.eraseShm key).logBlob wid
    (.delBlob key)
  ((), { logged with hist := { s.hist with booked := Function.update s.hist.booked o 0 } })

/-- A delete, under the token. -/
def delLocked : Co State Unit := do
  let size ← act fun s => ((s.objs o).layout.totalSizeCache, s)
  drainReaders o
  act (foldReplicas o)
  freeAllBlobBlocks o .main
  act (finishDel wid key o size)
  act (endDrainReaders o)

/-- `DelBlob` -/
def delBlob : Co State Reply := do
  let found ← act fun s => (s.checkBlobExists key, s)
  match found with
  | none => pure (reply 1)
  | some o => do
      lockWrite tok o
      delLocked wid key o
      act (unlockWrite tok o)
      pure (reply 0)

/-! ## `ReorganizeBlob` -/

/-- The best score of a persistent replica that holds bytes. -/
def bestPersistent (replicas : List Replica) : Option ℚ :=
  ((replicas.filter fun r => r.flags.persistent ∧ r.layout.blocks ≠ []).map fun r =>
    max r.score 0).max?

/-- One attempt to place `size` bytes in the staging slot: whether it has failed. -/
def placeOnce (data : Buffer) (size : ℕ) (minPersistence : ℤ) (score : ℚ) : Co State ℕ := do
  let e ← extendBlob o .staging 0 size score minPersistence 0
  if e = 0 then do
    let blocks ← act fun s => ((s.objs o).staging.blocks, s)
    modifyExistingData blocks data size 0 0 0
  else pure 1

/-- Place `size` bytes in the staging slot at the first of the scores that works; the score, and
whether it was the last attempt. -/
def placeAttempts (o : ObjId) (data : Buffer) (size : ℕ) (minPersistence : ℤ) :
    List ℚ → Co State (Option (ℚ × Bool))
  | [] => pure none
  | score :: rest => do
      let w ← placeOnce o data size minPersistence score
      if w = 0 then pure (some (score, rest.isEmpty))
      else do
        freeAllBlobBlocks o .staging
        placeAttempts o data size minPersistence rest

/-- Drop the primary: a persistent replica at least as good holds the bytes. -/
def finishDrop (newScore : ℚ) (size : ℕ) (s : State) : Unit × State :=
  let sized := (s.modifyObj o fun b => { b with score := newScore }).modifyTagSize
    key.tag (· - size)
  ((), { (sized.logBlob wid (.clearBlob key)).mirrorBlobToShm key with
    hist := { s.hist with booked := Function.update s.hist.booked o 0 } })

/-- Publish the staged placement. -/
def publishPlacement (score : ℚ) (s : State) : Unit × State :=
  let published := s.modifyObj o fun b =>
    { b with layout := b.staging, staging := .empty, score := score }
  ((), (logLayout wid key o published).mirrorBlobToShm key)

/-- Free the drained primary and place its bytes again. -/
def replacePrimary (currentScore newScore : ℚ) (data : Buffer) (size : ℕ) : Co State ℕ := do
  let cleared ← clearBlob o currentScore 0
  if !cleared then pure 6
  else do
    act fun s => ((), s.mirrorBlobToShm key)
    let placed ← placeAttempts o data size 0 [newScore, newScore, currentScore]
    match placed with
    | none => pure 7
    | some (score, last) => do
        act (publishPlacement wid key o score)
        pure (if last then 7 else 0)

/-- Move the primary's `size` bytes, under the token: read, free, place again. -/
def movePrimary (currentScore newScore : ℚ) (size : ℕ) : Co State ℕ := do
  let ok ← act allocateBuffer
  if !ok then pure 5
  else do
    let blocks ← act fun s => ((s.objs o).layout.blocks, s)
    let r ← readData blocks (fun _ => 0) size 0
    if r.1 ≠ 0 then pure 6
    else do
      drainReaders o
      let rc ← replacePrimary wid key o currentScore newScore r.2 size
      act (endDrainReaders o)
      pure rc

/-- The primary gives way to a persistent replica with a better score than the new one. -/
def givesWay (info : BlobInfo) (newScore : ℚ) : Bool :=
  match bestPersistent info.replicas with
  | some best => newScore < best
  | none => false

/-- Drop the primary, under the token. -/
def dropPrimary (newScore : ℚ) (size : ℕ) : Co State ℕ := do
  drainReaders o
  freeAllBlobBlocks o .main
  act (finishDrop wid key o newScore size)
  act (endDrainReaders o)
  pure 0

/-- The part of `ReorganizeBlobInternal` under the token. -/
def reorganizeLocked (newScore : ℚ) : Co State ℕ := do
  let info ← act fun s => (s.objs o, s)
  let threshold ← act fun s => (s.scoreThreshold, s)
  if |newScore - info.score| < threshold ∨ info.layout.totalSizeCache = 0 then pure 0
  else if givesWay info newScore then dropPrimary wid key o newScore info.layout.totalSizeCache
  else movePrimary wid key o info.score newScore info.layout.totalSizeCache

/-- `ReorganizeBlobInternal` -/
def reorganizeBlob (newScore : ℚ) : Co State Reply :=
  if key.name = "" ∨ newScore < 0 ∨ 1 < newScore then pure (reply 1)
  else do
    let found ← act fun s => (s.checkBlobExists key, s)
    match found with
    | none => pure (reply 3)
    | some o => do
        lockWrite tok o
        let rc ← reorganizeLocked wid key o newScore
        act (unlockWrite tok o)
        pure (reply rc)

/-- `ReplicaBlocksOnFailingTarget` -/
def replicaBlocksOnFailingTarget (s : State) (r : Replica) : Bool :=
  r.layout.blocks.any fun b => match s.findTarget b.pool with
    | none => false
    | some t => t.ttlDays < 1 ∨ (t.ttlDays ≤ 7 ∧ t.persistenceLevel = .longTerm)

/-- Lend a replica's blocks to the staging slot. -/
def lendBlocks (idx : ℕ) (s : State) : Unit × State :=
  ((), s.modifyObj o fun b =>
    { b.modifyReplica idx (fun r => { r with layout := .empty }) with
      staging := Layout.recomputeTotalSize ⟨(b.replica idx).layout.blocks, 0⟩ })

/-- Publish the staged placement of a replica. -/
def publishMove (idx : ℕ) (score : ℚ) (s : State) : Unit × State :=
  let published := s.modifyObj o fun b =>
    { b.modifyReplica idx (fun r => { r with layout := b.staging, score := score }) with
      staging := .empty }
  ((), published.logBlob wid (extendReplicaTxn key idx ((published.objs o).replica idx)))

/-- Free the drained replica and place its bytes again. -/
def replaceReplica (idx : ℕ) (currentScore newScore : ℚ)
    (data : Buffer) (size : ℕ) : Co State ℕ := do
  act (lendBlocks o idx)
  freeAllBlobBlocks o .staging
  let level ← act fun s => (((s.objs o).replica idx).minPersistenceLevel 0, s)
  let placed ← placeAttempts o data size level [newScore, newScore, currentScore]
  match placed with
  | none => pure 7
  | some (score, last) => do
      act (publishMove wid key o idx score)
      pure (if last then 7 else 0)

/-- Move a replica's `size` bytes, under the token. -/
def moveReplica (idx : ℕ) (currentScore newScore : ℚ) (size : ℕ) : Co State ℕ := do
  let ok ← act allocateBuffer
  if !ok then pure 5
  else do
    let blocks ← act fun s => (((s.objs o).replica idx).layout.blocks, s)
    let r ← readData blocks (fun _ => 0) size 0
    if r.1 ≠ 0 then pure 6
    else do
      drainReaders o
      let rc ← replaceReplica wid key o idx currentScore newScore r.2 size
      act (endDrainReaders o)
      pure rc

/-- The part of `ReorganizeReplicaInternal` under the token. -/
def reorganizeReplicaLocked (idx : ℕ) (newScore : ℚ) : Co State ℕ := do
  let info ← act fun s => (s.objs o, s)
  let threshold ← act fun s => (s.scoreThreshold, s)
  let evacuating ← act fun s => (replicaBlocksOnFailingTarget s (info.replica idx), s)
  let rep := info.replica idx
  let target := if 0 ≤ rep.minScore ∧ newScore < rep.minScore then rep.minScore else newScore
  let current := if 0 ≤ rep.score then rep.score else info.score
  if rep.flags.fixed ∧ evacuating = false then pure 0
  else if rep.flags.fixed = false ∧ |target - current| < threshold then pure 0
  else if rep.layout.totalSizeCache = 0 then do
    act fun s => ((), s.modifyObj o fun b =>
      b.modifyReplica idx fun r => { r with score := target })
    pure 0
  else moveReplica wid key o idx current target rep.layout.totalSizeCache

/-- `ReorganizeReplicaInternal` -/
def reorganizeReplica (sel : ℕ) (newScore : ℚ) : Co State Reply :=
  if key.name = "" ∨ sel = 0 ∨ newScore < 0 ∨ 1 < newScore then pure (reply 1)
  else do
    let found ← act fun s => (match s.checkBlobExists key with
      | none => none
      | some o => match (resolveReplicaSel (s.objs o).replicas sel false).1 with
        | 0 => none
        | i + 1 => some (o, i + 1), s)
    match found with
    | none => pure (reply 3)
    | some (o, idx) => do
        lockWrite tok o
        let rc ← reorganizeReplicaLocked wid key o idx newScore
        act (unlockWrite tok o)
        pure (reply rc)

/-! ## Reclaiming the cache replica -/

/-- The end of a reclaim: an empty layout in the log, the mirror published again. -/
def finishReclaim (idx : ℕ) (s : State) : Unit × State :=
  ((), (s.logBlob wid (extendReplicaTxn key idx
    { (s.objs o).replica idx with layout := .empty })).mirrorBlobToShm key)

/-- A reclaim, under the token. -/
def reclaimLocked : Co State Unit := do
  let replicas ← act fun s => ((s.objs o).replicas, s)
  let idx := cacheReplicaIndex replicas
  if idx = 0 ∨ (replicas.getD (idx - 1) Replica.fresh).layout.blocks = [] then pure ()
  else do
    drainReaders o
    act (lendBlocks o idx)
    freeAllBlobBlocks o .staging
    act (finishReclaim wid key o idx)
    act (endDrainReaders o)

/-- `ReclaimCacheReplica` -/
def reclaimCacheReplica : Co State Reply := do
  let found ← act fun s => (s.checkBlobExists key, s)
  match found with
  | none => pure (reply 1)
  | some o => do
      lockWrite tok o
      reclaimLocked wid key o
      act (unlockWrite tok o)
      pure (reply 0)

end ClioCore.Cte
