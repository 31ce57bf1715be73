import ClioCore.Foundations.Coroutine
import ClioCore.SafeBdev.State
import ClioCore.Foundations.Tally
import Mathlib.Data.Rat.Defs

/-!
# State of the context transfer engine

The container of `core_runtime.h` and what it acts on.  A blob is a list of blocks, each a piece of
an extent allocated on a target (a block device pool); the position of a block in the list is its
place in the blob.  `BlobInfo` objects are reached through shared pointers: the map
`tag_blob_name_to_info_` and every running task hold references, so an object has an identity
(`ObjId`) that outlives its entry in the map.

What the targets answer is up to the environment `Env`: which targets the placement engine selects,
which blocks an allocation returns, how many bytes a write stores, whether a read, a free or the
allocation of a transfer buffer succeeds.  The `n`-th such question gets the `n`-th answer.  A block
device never hands out bytes it has handed out before and not got back; `State.live` is what is
handed out, each extent with the object it was allocated for.

`History` holds variables that no function of the engine reads.  They record what happened: which
task got which token, what readers that hold a pin are reading, which size of a blob is booked in
its tag, which extents were to be freed, and whether any request to a target, or one to free
extents, has failed.

Scores are rationals instead of floats.  A local `BlobInfo` in which a task stages blocks is the
field `staging` of the object whose token the task holds.
-/

namespace ClioCore.Cte

open Foundations
open SafeBdev (PoolId)

/-! ## Identities -/

/-- `UniqueId` of a tag. -/
structure TagId where
  major : ℕ
  minor : ℕ
deriving DecidableEq, Inhabited

/-- The null tag id. -/
def TagId.null : TagId := ⟨0, 0⟩

/-- The composite key `"<major>.<minor>.<blob name>"`. -/
structure BlobKey where
  tag : TagId
  name : String
deriving DecidableEq

/-- The identity of a `BlobInfo` object. -/
abbrev ObjId := ℕ

/-- The write token of a task: the address of the task.  `sub` numbers the tasks it spawns. -/
@[ext] structure TaskId where
  task : ℕ
  sub : ℕ
deriving DecidableEq

/-- A routing query, carried along verbatim. -/
abbrev PoolQuery := ℕ

/-- Bytes behind a data pointer. -/
abbrev Buffer := ℕ → UInt8

/-- Arithmetic on `u64`. -/
def u64 (n : ℕ) : ℕ := n % 2 ^ 64

/-! ## Blocks and extents -/

/-- A range of bytes of a pool, as the block device hands it out (`bdev::Block`). -/
structure Extent where
  pool : PoolId
  offset : ℕ
  size : ℕ
deriving DecidableEq

/-- The extent contains byte `a` of pool `p`. -/
def Extent.Covers (e : Extent) (p : PoolId) (a : ℕ) : Prop :=
  e.pool = p ∧ e.offset ≤ a ∧ a < e.offset + e.size

/-- The extents have no byte in common. -/
def Extent.Apart (e f : Extent) : Prop :=
  e.pool ≠ f.pool ∨ e.offset + e.size ≤ f.offset ∨ f.offset + f.size ≤ e.offset

instance (e f : Extent) : Decidable (e.Apart f) := inferInstanceAs (Decidable (_ ∨ _))

/-- `BlobBlock`. -/
structure BlobBlock where
  /-- `bdev_client_.pool_id_` -/
  pool : PoolId
  targetQuery : PoolQuery
  targetOffset : ℕ
  /-- Logical bytes used. -/
  size : ℕ
  /-- Physical bytes allocated. -/
  capacity : ℕ
deriving DecidableEq

/-- The extent a block was cut from. -/
def BlobBlock.extent (b : BlobBlock) : Extent := ⟨b.pool, b.targetOffset, b.capacity⟩

/-- A block list with its size cache: `blocks_` and `total_size_cache_`. -/
structure Layout where
  blocks : List BlobBlock
  totalSizeCache : ℕ
deriving DecidableEq

/-- The layout with no blocks. -/
def Layout.empty : Layout := ⟨[], 0⟩

/-- `ComputeTotalSizeSlow` -/
def computeTotalSizeSlow (blocks : List BlobBlock) : ℕ := (blocks.map BlobBlock.size).sum

/-- `RecomputeTotalSize` -/
def Layout.recomputeTotalSize (l : Layout) : Layout :=
  { l with totalSizeCache := computeTotalSizeSlow l.blocks }

/-! ## Blobs -/

/-- The `REPLICA_*` bits. -/
structure ReplicaFlags where
  fixed : Bool
  persistent : Bool
  cache : Bool
  updateOnly : Bool
  verifyComplete : Bool
deriving DecidableEq

/-- No bit set. -/
def ReplicaFlags.none : ReplicaFlags := ⟨false, false, false, false, false⟩

/-- `flags |= extra & ~(REPLICA_UPDATE_ONLY | REPLICA_VERIFY_COMPLETE)` -/
def ReplicaFlags.merge (flags extra : ReplicaFlags) : ReplicaFlags :=
  { flags with
    fixed := flags.fixed || extra.fixed
    persistent := flags.persistent || extra.persistent
    cache := flags.cache || extra.cache }

/-- `Replica` -/
structure Replica where
  layout : Layout
  score : ℚ
  flags : ReplicaFlags
  transformFlags : ℕ
  minScore : ℚ
deriving DecidableEq

/-- A replica slot nothing has been written to. -/
def Replica.fresh : Replica := ⟨.empty, -1, .none, 0, -1⟩

/-- `MinPersistenceLevel` -/
def Replica.minPersistenceLevel (r : Replica) (requested : ℤ) : ℤ :=
  if r.flags.persistent ∧ requested < 1 then 1 else requested

/-- `BlobInfo`.  `writeOwner` is the write token, `pins` and `draining` are the two parts of
`read_state_`. -/
structure BlobInfo where
  blobName : String
  layout : Layout
  replicas : List Replica
  score : ℚ
  transformFlags : ℕ
  writeOwner : Option TaskId
  pins : ℕ
  draining : Bool
  staging : Layout
deriving DecidableEq

/-- A `BlobInfo` as `CreateNewBlob` makes it. -/
def BlobInfo.new (name : String) (score : ℚ) : BlobInfo :=
  ⟨name, .empty, [], score, 0, none, 0, false, .empty⟩

/-- Which layout of an object a helper works on. -/
inductive Slot
  | main
  | staging
deriving DecidableEq

/-- The layout in a slot. -/
def BlobInfo.slot (b : BlobInfo) : Slot → Layout
  | .main => b.layout
  | .staging => b.staging

/-- The object with another layout in a slot. -/
def BlobInfo.setSlot (b : BlobInfo) (sl : Slot) (l : Layout) : BlobInfo :=
  match sl with
  | .main => { b with layout := l }
  | .staging => { b with staging := l }

/-- All blocks of an object: its own, those of its replicas, those being staged. -/
def BlobInfo.allBlocks (b : BlobInfo) : List BlobBlock :=
  b.layout.blocks ++ b.replicas.flatMap (fun r => r.layout.blocks) ++ b.staging.blocks

/-! ## Targets and tags -/

/-- `bdev::PersistenceLevel` -/
inductive PersistenceLevel
  | volatile
  | temporaryNonVolatile
  | longTerm
deriving DecidableEq

/-- The number behind the level. -/
def PersistenceLevel.toInt : PersistenceLevel → ℤ
  | .volatile => 0
  | .temporaryNonVolatile => 1
  | .longTerm => 2

/-- `TargetInfo` -/
structure TargetInfo where
  pool : PoolId
  targetQuery : PoolQuery
  remainingSpace : ℕ
  persistenceLevel : PersistenceLevel
  /-- `expected_ttl_days_` -/
  ttlDays : ℕ
deriving DecidableEq

/-- `TagInfo` -/
structure TagInfo where
  tagName : String
  totalSize : ℕ
  aliases : List String
deriving DecidableEq

/-! ## The write-ahead log -/

/-- `TxnExtendBlobBlock` -/
structure TxnBlock where
  pool : PoolId
  targetQuery : PoolQuery
  targetOffset : ℕ
  size : ℕ
deriving DecidableEq

/-- The part of a block that is logged. -/
def BlobBlock.toTxn (b : BlobBlock) : TxnBlock := ⟨b.pool, b.targetQuery, b.targetOffset, b.size⟩

/-- The records of a blob log. -/
inductive BlobTxn
  | createNewBlob (key : BlobKey) (score : ℚ)
  | extendBlob (key : BlobKey) (blocks : List TxnBlock)
  | extendReplica (key : BlobKey) (replica : ℕ) (score : ℚ) (flags : ReplicaFlags)
      (transformFlags : ℕ) (minScore : ℚ) (blocks : List TxnBlock)
  | clearBlob (key : BlobKey)
  | setBlobTransform (key : BlobKey) (transformFlags : ℕ)
  | delBlob (key : BlobKey)
deriving DecidableEq

/-- The records of a tag log. -/
inductive TagTxn
  | createTag (name : String) (id : TagId)
  | delTag (name : String) (id : TagId)
deriving DecidableEq

/-! ## The environment -/

/-- The answers of the targets, by number of the question. -/
structure Env where
  /-- The order in which the placement engine would try the targets. -/
  select : ℕ → List TargetInfo → ℚ → ℕ → List TargetInfo
  /-- `AllocateBlocks`: offset and size of each block; none if it is refused. -/
  alloc : ℕ → PoolId → ℕ → List (ℕ × ℕ)
  /-- How many bytes of a write are stored. -/
  stored : ℕ → ℕ → ℕ
  readOk : ℕ → Bool
  freeOk : ℕ → Bool
  /-- `AllocateBuffer` finds room. -/
  bufferOk : ℕ → Bool

/-- What happened, for the statements only. -/
structure History where
  /-- Some request to a target, or a search for one, has failed. -/
  fault : Bool
  /-- Some request to free extents has failed. -/
  leaked : Bool
  /-- The extents of all requests to free, oldest first. -/
  freed : List Extent
  /-- Who got which token, oldest first. -/
  acquired : List (TaskId × ObjId)
  /-- The block lists that readers holding a pin have copied. -/
  reading : List (TaskId × ObjId × List BlobBlock)
  /-- The size of each blob that is contained in the total of its tag. -/
  booked : ObjId → ℕ

/-- A container and its targets. -/
structure State where
  objs : ObjId → BlobInfo
  /-- Objects from here on do not exist yet. -/
  nextObj : ObjId
  /-- `tag_blob_name_to_info_` -/
  blobs : AList (fun _ : BlobKey => ObjId)
  /-- `tag_name_to_id_` -/
  tagNames : AList (fun _ : String => TagId)
  /-- `tag_id_to_info_` -/
  tagInfos : AList (fun _ : TagId => TagInfo)
  /-- `tag_search_` -/
  tagSearch : AList (fun _ : String => TagId)
  nodeId : ℕ
  nextTagIdMinor : ℕ
  /-- `registered_targets_` -/
  targets : List TargetInfo
  /-- The bytes on the targets. -/
  mem : PoolId → ℕ → UInt8
  /-- The extents handed out and not freed, each with the object it was allocated for. -/
  live : List (Extent × ObjId)
  /-- Keys with a record in the shared-memory cache. -/
  shm : BlobKey → Bool
  /-- One blob log and one tag log per worker; no logs if no log path is configured. -/
  blobLogs : List (List BlobTxn)
  tagLogs : List (List TagTxn)
  /-- `score_difference_threshold_` -/
  scoreThreshold : ℚ
  env : Env
  /-- How many questions the environment has answered. -/
  tick : ℕ
  hist : History

namespace State

variable (s : State) (key : BlobKey)

/-- Change one object. -/
def modifyObj (o : ObjId) (f : BlobInfo → BlobInfo) : State :=
  { s with objs := Function.update s.objs o (f (s.objs o)) }

/-- Change one layout of an object. -/
def modifySlot (o : ObjId) (sl : Slot) (f : Layout → Layout) : State :=
  s.modifyObj o fun b => b.setSlot sl (f (b.slot sl))

/-- One more question has been answered. -/
def ticked : State := { s with tick := s.tick + 1 }

/-- Some request has failed. -/
def faulted : State := { s with hist := { s.hist with fault := true } }

/-- A request to free extents has been issued. -/
def asked (es : List Extent) : State :=
  { s with hist := { s.hist with freed := s.hist.freed ++ es } }

/-- Some request to free extents has failed. -/
def leak : State := { s with hist := { s.hist with fault := true, leaked := true } }

/-- `CheckBlobExists` -/
def checkBlobExists : Option ObjId :=
  if key.name = "" then none else s.blobs.lookup key

/-- `registered_targets_.find` -/
def findTarget (pool : PoolId) : Option TargetInfo :=
  s.targets.find? fun t => t.pool = pool

/-- Change `remaining_space_` of a registered target. -/
def modifySpace (pool : PoolId) (f : ℕ → ℕ) : State :=
  { s with targets := s.targets.map fun t =>
      if t.pool = pool then { t with remainingSpace := f t.remainingSpace } else t }

/-- `blob_txn_logs_[wid % n]->Log` -/
def logBlob (wid : ℕ) (txn : BlobTxn) : State :=
  { s with blobLogs := s.blobLogs.modify (wid % s.blobLogs.length) (· ++ [txn]) }

/-- `MirrorBlobToShm` -/
def mirrorBlobToShm : State :=
  { s with shm := Function.update s.shm key true }

/-- `shm_cache_.EraseBlob` -/
def eraseShm : State :=
  { s with shm := Function.update s.shm key false }

/-- Change the total of a tag, if the tag is known here. -/
def modifyTagSize (tag : TagId) (f : ℕ → ℕ) : State :=
  match s.tagInfos.lookup tag with
  | none => s
  | some info =>
    { s with tagInfos := s.tagInfos.insert tag { info with totalSize := f info.totalSize } }

end State

end ClioCore.Cte
