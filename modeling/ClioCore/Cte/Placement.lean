import ClioCore.Cte.DataPath

/-!
# Placement of blobs on targets

How a blob gets space and gives it back: `ExtendBlob`, `ResizeBlob`, `ClearBlob` and
`FreeAllBlobBlocks`, together with the requests to the block devices they rest on.

Every helper works on one layout of one object (`Slot`): the blob itself, or the local `BlobInfo`
in which its task stages blocks.
-/

namespace ClioCore.Cte

open Foundations
open SafeBdev (PoolId)

/-! ## Requests to the block devices -/

/-- The blocks a device may hand out: not empty, apart from each other and from what is handed
out. -/
def Grantable (live : List (Extent × ObjId)) (offer : List Extent) : Prop :=
  offer.Pairwise Extent.Apart ∧ ∀ e ∈ offer, 0 < e.size ∧ ∀ x ∈ live, x.1.Apart e

instance (live : List (Extent × ObjId)) (offer : List Extent) : Decidable (Grantable live offer) :=
  inferInstanceAs (Decidable (_ ∧ _))

variable (o : ObjId) (s : State) (sl : Slot)

/-- `AllocateBlocks` for object `o`: what the device hands out, nothing if it refuses. -/
def allocateBlocks (pool : PoolId) (size : ℕ) (s : State) : List Extent × State :=
  let offer : List Extent := (s.env.alloc s.tick pool size).map fun b => ⟨pool, b.1, b.2⟩
  if Grantable s.live offer then
    (offer, { s.ticked with live := s.live ++ offer.map fun e => (e, o) })
  else ([], s.ticked)

/-- `AllocateFromTarget` -/
def allocateFromTarget (info : TargetInfo) (size : ℕ) (s : State) :
    List Extent × State :=
  if info.remainingSpace < size then ([], s) else allocateBlocks o info.pool size s

/-- The device takes back the bytes of `e`.  If `e` is only the front of what was handed out, the
rest stays handed out. -/
def releaseExtent (live : List (Extent × ObjId)) (e : Extent) : List (Extent × ObjId) :=
  live.flatMap fun x =>
    if x.1.pool = e.pool ∧ x.1.offset = e.offset then
      if e.size < x.1.size then [(⟨e.pool, e.offset + e.size, x.1.size - e.size⟩, x.2)] else []
    else [x]

/-- `FreeBlocks` on one pool, with the credit to the target's remaining space. -/
def freeBlocks (group : PoolId × List Extent) (s : State) : Unit × State :=
  if s.env.freeOk s.tick then
    ((), { s.ticked.asked group.2 with live := group.2.foldl releaseExtent s.live }.modifySpace
      group.1 (· + (group.2.map Extent.size).sum))
  else ((), (s.ticked.asked group.2).leak)

/-- `blocks_by_pool`: the extents to free, one group per pool. -/
def blocksByPool (blocks : List BlobBlock) : List (PoolId × List Extent) :=
  (blocks.map BlobBlock.pool).dedup.map fun p =>
    (p, (blocks.filter fun b => b.pool = p).map BlobBlock.extent)

/-- Free the groups one after another. -/
def freeGroups : List (PoolId × List Extent) → Co State Unit
  | [] => pure ()
  | g :: gs => do
      Co.act (freeBlocks g)
      freeGroups gs

/-- `AllocateBuffer` -/
def allocateBuffer : Bool × State :=
  if s.env.bufferOk s.tick then (true, s.ticked) else (false, s.ticked.faulted)

/-! ## `ExtendBlob` -/

/-- Use spare capacity of the last block for up to `additional` bytes: how many, and the blocks. -/
def fillLast (additional : ℕ) : List BlobBlock → ℕ × List BlobBlock
  | [] => (0, [])
  | [b] =>
    let fill := min (b.capacity - b.size) additional
    (fill, [{ b with size := b.size + fill }])
  | b :: c :: bs => ((fillLast additional (c :: bs)).1, b :: (fillLast additional (c :: bs)).2)

/-- The first part of `ExtendBlob`: what is left to allocate after the spare capacity, `none` if
there is nothing to allocate. -/
def growIntoSpare (required : ℕ) (s : State) : Option ℕ × State :=
  let l := (s.objs o).slot sl
  if required ≤ l.totalSizeCache then (none, s)
  else
    let filled := fillLast (required - l.totalSizeCache) l.blocks
    if required - l.totalSizeCache - filled.1 = 0 then
      (none, s.modifySlot o sl fun _ => ⟨filled.2, required⟩)
    else
      (some (required - l.totalSizeCache - filled.1),
        s.modifySlot o sl fun _ => ⟨filled.2, l.totalSizeCache + filled.1⟩)

/-- The health filter: a target that may fail within a week takes no long-term data, one that may
fail within a day takes none. -/
def healthy (t : TargetInfo) : Bool :=
  if 7 < t.ttlDays then true
  else if 1 ≤ t.ttlDays then t.persistenceLevel.toInt < PersistenceLevel.longTerm.toInt
  else false

/-- `SelectTargets`.  The order is up to the placement engine, but every engine leaves out the
targets that have less space left than `size`. -/
def selectTargets (score : ℚ) (size : ℕ) : List TargetInfo :=
  (s.env.select s.tick s.targets score size).filter fun t => t ∈ s.targets ∧ size ≤ t.remainingSpace

/-- The targets to try, in order; an error code if there are none. -/
def chooseTargets (score : ℚ) (size : ℕ) (minPersistence : ℤ) (s : State) :
    Except ℕ (List TargetInfo) × State :=
  if s.targets = [] then (.error 1, s.faulted)
  else
    let selected := selectTargets s score size
    let durable := if 0 < minPersistence then
      selected.filter fun t => minPersistence ≤ t.persistenceLevel.toInt else selected
    let ordered := durable.filter healthy
    if ordered = [] then (.error 2, s.ticked.faulted) else (.ok ordered, s.ticked)

/-- How much to ask of a target: its current entry, the logical need and the request. -/
def considerTarget (pool : PoolId) (remaining preallocate : ℕ) (s : State) :
    Option (TargetInfo × ℕ × ℕ) :=
  match s.findTarget pool with
  | none => none
  | some info =>
    let need := min remaining info.remainingSpace
    if need = 0 then none
    else some (info, need, min (max need preallocate) info.remainingSpace)

/-- The blocks made of what a target handed out: each takes as much of the need as fits. -/
def distribute (info : TargetInfo) : List Extent → ℕ → List BlobBlock
  | [], _ => []
  | e :: es, need =>
    ⟨info.pool, info.targetQuery, e.offset, min e.size need, e.size⟩ ::
      distribute info es (need - min e.size need)

/-- Allocate from a target and append the blocks: the part of the need that is left. -/
def placeBlocks (info : TargetInfo) (need request : ℕ) (s : State) :
    ℕ × State :=
  let granted := allocateFromTarget o info request s
  if granted.1 = [] then (need, granted.2.faulted)
  else
    let blocks := distribute info granted.1 need
    (need - computeTotalSizeSlow blocks, (granted.2.modifySlot o sl fun l =>
        ⟨l.blocks ++ blocks, l.totalSizeCache + computeTotalSizeSlow blocks⟩).modifySpace info.pool
          (· - (granted.1.map Extent.size).sum))

/-- The loop over the targets: what could not be placed. -/
def placeAll (o : ObjId) (sl : Slot) (preallocate : ℕ) : List TargetInfo → ℕ → Co State ℕ
  | [], remaining => pure remaining
  | t :: ts, remaining =>
    if remaining = 0 then pure 0
    else do
      let choice ← Co.act fun s => (considerTarget t.pool remaining preallocate s, s)
      match choice with
      | none => placeAll o sl preallocate ts remaining
      | some (info, need, request) => do
          let left ← Co.act (placeBlocks o sl info need request)
          placeAll o sl preallocate ts (remaining - (need - left))

/-- The end of `ExtendBlob`. -/
def finishExtend (required remaining : ℕ) (s : State) : ℕ × State :=
  if 0 < remaining then (3, (s.modifySlot o sl Layout.recomputeTotalSize).faulted)
  else (0, s.modifySlot o sl fun l => { l with totalSizeCache := required })

/-- The second part of `ExtendBlob`: allocate `additional` bytes from the targets. -/
def extendFromTargets (required additional : ℕ) (score : ℚ) (minPersistence : ℤ)
    (preallocate : ℕ) : Co State ℕ := do
  let chosen ← Co.act (chooseTargets score additional minPersistence)
  match chosen with
  | .error e => pure e
  | .ok ordered => do
      let remaining ← placeAll o sl preallocate ordered additional
      Co.act (finishExtend o sl required remaining)

/-- `ExtendBlob`: make room for `size` bytes at `offset`. -/
def extendBlob (offset size : ℕ) (score : ℚ) (minPersistence : ℤ) (preallocate : ℕ) :
    Co State ℕ := do
  let required := u64 (offset + size)
  let missing ← Co.act (growIntoSpare o sl required)
  match missing with
  | none => pure 0
  | some additional => extendFromTargets o sl required additional score minPersistence preallocate

/-! ## Freeing -/

/-- `FreeAllBlobBlocks` -/
def freeAllBlobBlocks : Co State Unit := do
  let groups ← Co.act fun s => (blocksByPool ((s.objs o).slot sl).blocks, s)
  freeGroups groups
  Co.act fun s => ((), s.modifySlot o sl fun _ => .empty)

/-- `ClearBlob` -/
def clearBlob (score : ℚ) (offset : ℕ) : Co State Bool := do
  let size ← Co.act fun s => ((s.objs o).layout.totalSizeCache, s)
  if score < 0 ∨ 1 < score ∨ offset ≠ 0 ∨ size = 0 then pure false
  else do
    freeAllBlobBlocks o .main
    pure true

/-! ## Draining readers -/

/-- `BeginDrainReaders` -/
def beginDrainReaders : Unit × State :=
  ((), s.modifyObj o fun b => { b with draining := true })

/-- `EndDrainReaders` -/
def endDrainReaders : Unit × State :=
  ((), s.modifyObj o fun b => { b with draining := false })

/-- `BeginDrainReaders`, then poll `HasReadPins`. -/
def drainReaders : Co State Unit := do
  Co.act (beginDrainReaders o)
  Co.await (fun s => (s.objs o).pins = 0) fun s => ((), s)

/-! ## `ResizeBlob` -/

/-- The blocks of a blob cut at `newSize`: those kept, the boundary block trimmed, and those
dropped.  The first block starts at `start`. -/
def cutBlocks (newSize : ℕ) : List BlobBlock → ℕ → List BlobBlock × List BlobBlock
  | [], _ => ([], [])
  | b :: bs, start =>
    let rest := cutBlocks newSize bs (start + b.size)
    if newSize ≤ start then (rest.1, b :: rest.2)
    else if newSize < start + b.size then ({ b with size := newSize - start } :: rest.1, rest.2)
    else (b :: rest.1, rest.2)

/-- The shrinking half of `ResizeBlob`: the blocks that are dropped. -/
def shrinkLayout (newSize : ℕ) (s : State) : List BlobBlock × State :=
  let cut := cutBlocks newSize (s.objs o).layout.blocks 0
  (cut.2, s.modifySlot o .main fun _ => ⟨cut.1, newSize⟩)

/-- `ResizeBlob` -/
def resizeBlob (newSize : ℕ) (score : ℚ) (minPersistence : ℤ) : Co State ℕ := do
  let current ← Co.act fun s => ((s.objs o).layout.totalSizeCache, s)
  if newSize = current then pure 0
  else if current < newSize then do
    let e ← extendBlob o .main 0 newSize score minPersistence 0
    if e ≠ 0 then pure e
    else do
      let ok ← Co.act allocateBuffer
      if ok then do
        let blocks ← Co.act fun s => ((s.objs o).layout.blocks, s)
        modifyExistingData blocks (fun _ => 0) (newSize - current) current 0 0
      else pure 4
  else do
    drainReaders o
    let dropped ← Co.act (shrinkLayout o newSize)
    freeGroups (blocksByPool dropped)
    Co.act (endDrainReaders o)
    pure 0

end ClioCore.Cte
