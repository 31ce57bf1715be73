import ClioCore.SafeBdev.DataPath

/-!
# Membership of the safe block device

`Create`, `AddBdev`, `RemoveBdev`, `RecoverBdev`, `RebuildMember`, `ResumeRecoveries` and the member
log of `safe_bdev_runtime.cc`.

The member log is a write-ahead log of records: a membership change appends a snapshot of every
current member, a restart replays it and keeps the last record of each (role, index), and compaction
rewrites it to one record for each member.  It is modelled at the level of records; replay stops at
a record whose pool name is longer than the sanity bound `2 ^ 20`, as the source does.

The progress counters of a rebuild, which only `Monitor` reads, are left out, and so are the log
messages.
-/

namespace ClioCore.SafeBdev

open Foundations
open Ec (EcRole EcState ReedSolomon)

/-! ## The member log -/

/-- The record of a member. -/
def MemberSlot.record (role : EcRole) (m : MemberSlot) : MemberManifestEntry :=
  ⟨role, m.index, m.poolId, m.nodeId, m.state, m.recovering, m.poolName⟩

/-- The key of a record: `(role << 32) | index`. -/
def MemberManifestEntry.key (e : MemberManifestEntry) : ℕ :=
  match e.role with
  | .data => e.index
  | .parity => 2 ^ 32 + e.index

/-- Replay the log, `latest[key] = e` for each record: the last record of each slot, ascending by
key. -/
def replayLog (log : List MemberManifestEntry) : List MemberManifestEntry :=
  replay MemberManifestEntry.key (log.takeWhile fun e => e.poolName.utf8ByteSize ≤ 2 ^ 20)

namespace World

variable (w : World) (j : ℕ) (pool : PoolId)

/-- One record for each current member. -/
def memberRecords : List MemberManifestEntry :=
  w.dataMembers.map (MemberSlot.record .data) ++ w.parityMembers.map (MemberSlot.record .parity)

/-- Append a snapshot of the current members to the member log. -/
def persistMemberManifest : World :=
  if w.logEnabled then { w with memberLog := w.memberLog ++ w.memberRecords } else w

/-- Rewrite the member log to one record for each current member. -/
def compactMemberManifest : World :=
  if w.logEnabled then { w with memberLog := w.memberRecords } else w

/-- The entries `Create` restores from; empty when the log is disabled. -/
def loadMemberManifest : List MemberManifestEntry :=
  if w.logEnabled then replayLog w.memberLog else []

/-! ## Superblocks -/

/-- Read a superblock: `none` if the read fails, else the owner if one is recorded. -/
def readSuperblock : Option (Option PoolId) :=
  if (w.dev pool).readStatus = .ok ∧ kSuperblockSize ≤ (w.dev pool).capacity then
    some (w.dev pool).superblock
  else none

/-- Stamp the superblock of a pool with this array's identity. -/
def stampSuperblock : World × Bool :=
  if (w.dev pool).writeStatus = .ok ∧ kSuperblockSize ≤ (w.dev pool).capacity then
    ({ w with dev := Function.update w.dev pool { w.dev pool with superblock := some w.poolId } },
      true)
  else (w, false)

/-- `WriteSuperblock` of a data member. -/
def writeDataSuperblock (d : ℕ) : World × Bool :=
  let (w', ok) := w.stampSuperblock (w.dataClient d)
  (w'.maybeFaultData d (w.dev (w.dataClient d)).writeStatus, ok)

/-- `WriteSuperblock` of a parity member. -/
def writeParitySuperblock : World × Bool :=
  let (w', ok) := w.stampSuperblock (w.parityClient j)
  (w'.maybeFaultParity j (w.dev (w.parityClient j)).writeStatus, ok)

/-! ## Rebuilding a member -/

/-- The chunk of data member `idx` at slot `s`, reconstructed from the stripe. -/
def rebuildDataChunk (idx s : ℕ) (stripe : List ℕ) : World × Option (List UInt8) :=
  match stripe.findIdx? (· = idx) with
  | none => (w, none)
  | some pos =>
    match w.reconstructStripe s stripe idx with
    | (w', none) => (w', none)
    | (w', some chunks) => (w', some (chunks.getD pos []))

/-- The chunk of parity row `idx` at slot `s`, recomputed from the data members. -/
def rebuildParityChunk (idx s : ℕ) (stripe : List ℕ) : World × Option (List UInt8) :=
  match readStripeChunks s w stripe with
  | (w', none) => (w', none)
  | (w', some chunks) =>
    (w', some ((w'.getCodec stripe.length).encodeParityShard idx chunks kChunkLen))

/-- The slot loop of `RebuildMember`: success, and whether it ran to the end.  `pool` is the pool of
the client it writes to. -/
def rebuildSlots (isData : Bool) (idx : ℕ) (pool : PoolId) : World → List ℕ → ℕ →
    World × Bool × Bool
  | w, [], _ => (w, true, true)
  | w, s :: rest, done =>
    if w.recoverMaxRows ≠ 0 ∧ w.recoverMaxRows ≤ done then (w, true, false)
    else if isData ∧ s ∈ w.dirtySlots then (w, false, true)
    else
      let stripe := w.stripeMembers s
      if stripe = [] then rebuildSlots isData idx pool w rest (done + 1)
      else
        match if isData then w.rebuildDataChunk idx s stripe
            else w.rebuildParityChunk idx s stripe with
        | (w', none) => (w', false, true)
        | (w', some chunk) =>
          match (w'.dev pool).write (slotPhysOffset s) chunk with
          | none => (w', false, true)
          | some dv =>
            rebuildSlots isData idx pool { w' with dev := Function.update w'.dev pool dv }
              rest (done + 1)

/-- `RebuildMember`: a data member rebuilds its live slots, a parity member every written slot. -/
def rebuildMember (isData : Bool) (idx : ℕ) : World × Bool × Bool :=
  if isData then rebuildSlots true idx (w.dataClient idx) w (w.alloc idx).live.sort 0
  else rebuildSlots false idx (w.parityClient idx) w w.writtenSlots.sort 0

/-- Change data member `i`. -/
def modifyData (i : ℕ) (f : MemberSlot → MemberSlot) : World :=
  { w with dataMembers := w.dataMembers.modify i f }

/-- Change parity member `j`. -/
def modifyParity (f : MemberSlot → MemberSlot) : World :=
  { w with parityMembers := w.parityMembers.modify j f }

/-- Seat a recovery target: the member stays non-active until its rebuild completes. -/
def MemberSlot.seatRecovery (name : String) (node : ℕ) (m : MemberSlot) :
    MemberSlot :=
  { m with poolId := pool, poolName := name, nodeId := node, state := .faulty, recovering := true }

/-- A completed recovery. -/
def MemberSlot.recovered (m : MemberSlot) : MemberSlot :=
  { m with state := .active, recovering := false }

/-- The part of `RecoverBdev` after the member is found: seat, persist, rebuild, and bring online.
-/
def recoverData (i : ℕ) (pool : PoolId) (name : String) (node : ℕ) : World × ℕ :=
  let w₁ := ({ w with dataClients := w.dataClients.set i pool }.modifyData i
    (MemberSlot.seatRecovery pool name node)).persistMemberManifest
  match w₁.rebuildMember true i with
  | (w₂, false, _) => (w₂, 1)
  | (w₂, true, false) => (w₂, 0)
  | (w₂, true, true) =>
    (((w₂.modifyData i MemberSlot.recovered).writeDataSuperblock i).1.persistMemberManifest, 0)

/-- The same for a parity member. -/
def recoverParity (name : String) (node : ℕ) : World × ℕ :=
  let w₁ := ({ w with parityClients := w.parityClients.set j pool }.modifyParity j
    (MemberSlot.seatRecovery pool name node)).persistMemberManifest
  match w₁.rebuildMember false j with
  | (w₂, false, _) => (w₂, 1)
  | (w₂, true, false) => (w₂, 0)
  | (w₂, true, true) =>
    (((w₂.modifyParity j MemberSlot.recovered).writeParitySuperblock j).1.persistMemberManifest, 0)

/-- `RecoverBdev`: rebuild the member on pool `old` onto pool `new`. -/
def recoverBdev (old new : PoolId) (name : String) (node : ℕ) : World × ℕ :=
  match w.dataMembers.findIdx? (·.poolId = old) with
  | some i => w.recoverData i new name node
  | none =>
    match w.parityMembers.findIdx? (·.poolId = old) with
    | some j => w.recoverParity j new name node
    | none => (w, 1)

/-- `RemoveBdev`: mark the first member on the pool faulty or removed. -/
def removeBdev (target : PoolId) (wasFaulty : Bool) : World :=
  let state := if wasFaulty then EcState.faulty else EcState.removed
  match w.dataMembers.findIdx? (·.poolId = target) with
  | some i => (w.modifyData i fun m => { m with state := state }).persistMemberManifest
  | none =>
    match w.parityMembers.findIdx? (·.poolId = target) with
    | some j => (w.modifyParity j fun m => { m with state := state }).persistMemberManifest
    | none => w

/-! ## Adding members -/

/-- One client of the health scan of `AddBdev`: keep the lowest predicted lifetime seen so far below
the threshold, and whose it is. -/
def scanTtl (member : ℕ → MemberSlot) (client : ℕ → PoolId) (isData : Bool)
    (acc : ℕ × Option (Bool × ℕ)) (i : ℕ) : ℕ × Option (Bool × ℕ) :=
  if (member i).state ≠ .active then acc
  else
    let dv := w.dev (client i)
    if dv.statsOk ∧ dv.ttlDays < acc.1 then (dv.ttlDays, some (isData, i)) else acc

/-- The active member with the lowest predicted lifetime, if one is below seven days. -/
def degradingMember : Option (Bool × ℕ) :=
  let acc := (List.range w.dataClients.length).foldl
    (w.scanTtl w.dataMember w.dataClient true) (7, none)
  ((List.range w.parityClients.length).foldl (w.scanTtl w.parityMember w.parityClient false) acc).2

/-- Slots a member of the given remaining size holds. -/
def capSlotsOf (remaining : ℕ) : ℕ :=
  (if kSuperblockSize < remaining then remaining - kSuperblockSize else 0) / kChunkLen

/-- Append a data member with an empty allocator; its client is already there. -/
def pushDataMember (w : World) (pool : PoolId) (name : String) (node col : ℕ) : World :=
  { w with
    dataMembers := w.dataMembers ++ [⟨pool, name, node, .data, .active, col, false⟩]
    dataAlloc := w.dataAlloc ++ [MemberAlloc.ofCap (capSlotsOf (w.dev pool).remaining)] }

/-- Undo `pushDataMember` and the client. -/
def popDataMember : World :=
  { w with
    dataMembers := w.dataMembers.dropLast
    dataAlloc := w.dataAlloc.dropLast
    dataClients := w.dataClients.dropLast }

/-- `AddBdev` as a data member. -/
def addDataMember (name : String) (node : ℕ) : World × ℕ :=
  let w₁ := { w with dataClients := w.dataClients ++ [pool] }
  if (w₁.dev pool).statsOk = false then ({ w₁ with dataClients := w₁.dataClients.dropLast }, 1)
  else
    let newCol := w₁.dataMembers.length
    let w₂ := w₁.pushDataMember pool name node newCol
    match w₂.readSuperblock (w₂.dataClient newCol) with
    | none => (w₂.popDataMember, 1)
    | some (some owner) =>
      if owner ≠ w₂.poolId then (w₂.popDataMember, 2) else (w₂.persistMemberManifest, 0)
    | some none => ((w₂.writeDataSuperblock newCol).1.persistMemberManifest, 0)

/-- A parity member more: every written slot is dirtied again. -/
def pushParityMember (name : String) (node : ℕ) : World :=
  { w with
    parityClients := w.parityClients ++ [pool]
    parityMembers := w.parityMembers ++ [⟨pool, name, node, .parity, .active, w.parityLevel, false⟩]
    parityLevel := w.parityLevel + 1
    dirtySlots := w.dirtySlots ∪ w.writtenSlots }

/-- `AddBdev` as a parity member. -/
def addParityMember (name : String) (node : ℕ) : World × ℕ :=
  if w.maxFailures ≤ w.parityLevel then (w, 1)
  else
    let newJ := w.parityMembers.length
    let w₁ := w.pushParityMember pool name node
    ((w₁.writeParitySuperblock newJ).1.persistMemberManifest, 0)

/-- `AddBdev`.  A data drive added while an active member is expected to fail within a week replaces
that member instead. -/
def addBdev (asParity : Bool) (pool : PoolId) (name : String) (node : ℕ) : World × ℕ :=
  if asParity then w.addParityMember pool name node
  else
    match w.degradingMember with
    | none => w.addDataMember pool name node
    | some (isData, i) =>
      let old := if isData then (w.dataMember i).poolId else (w.parityMember i).poolId
      let w₁ := if isData then w.modifyData i fun m => { m with state := .faulty }
        else w.modifyParity i fun m => { m with state := .faulty }
      match w₁.recoverBdev old pool name node with
      | (w₂, 0) => (w₂, 0)
      | (w₂, _ + 1) => (w₂, 1)

/-! ## Resuming recoveries -/

/-- Resume the recovery of data member `i` if one is in progress. -/
def resumeData (i : ℕ) : World :=
  if (w.dataMember i).recovering = false then w
  else
    match w.rebuildMember true i with
    | (w', true, true) =>
      ((w'.modifyData i MemberSlot.recovered).writeDataSuperblock i).1.persistMemberManifest
    | (w', _, _) => w'

/-- Resume the recovery of parity member `j` if one is in progress. -/
def resumeParity : World :=
  if (w.parityMember j).recovering = false then w
  else
    match w.rebuildMember false j with
    | (w', true, true) =>
      ((w'.modifyParity j MemberSlot.recovered).writeParitySuperblock j).1.persistMemberManifest
    | (w', _, _) => w'

/-- `ResumeRecoveries`. -/
def resumeRecoveries : World :=
  let w₁ := (List.range w.dataMembers.length).foldl resumeData w
  (List.range w₁.parityMembers.length).foldl resumeParity w₁

end World

/-! ## Creation and restart -/

/-- Initial member descriptor. -/
structure MemberBdevDesc where
  poolId : PoolId
  poolName : String
  nodeId : ℕ
deriving DecidableEq

/-- `CreateParams`; `logEnabled` stands for a non-empty `alloc_log_path_`. -/
structure CreateParams where
  maxFailures : ℕ
  members : List MemberBdevDesc
  logEnabled : Bool

namespace World

variable (w : World) (manifest : List MemberManifestEntry)

/-- Clear the in-memory state. -/
def resetForCreate (params : CreateParams) : World :=
  { w with
    maxFailures := params.maxFailures
    parityLevel := 0
    rrCursor := 0
    dataMembers := []
    parityMembers := []
    dataClients := []
    parityClients := []
    dataAlloc := []
    dirtySlots := ∅
    writtenSlots := ∅
    logEnabled := params.logEnabled }

/-- Seat the configured data members from column `col` on.  The first failure ends `Create` and
leaves what was seated so far. -/
def seatDataMembers : World → List MemberBdevDesc → ℕ → World × ℕ
  | w, [], _ => (w, 0)
  | w, desc :: rest, col =>
    let w₁ := { w with dataClients := w.dataClients ++ [desc.poolId] }
    if (w₁.dev desc.poolId).statsOk = false then (w₁, 1)
    else
      let w₂ := w₁.pushDataMember desc.poolId desc.poolName desc.nodeId col
      match w₂.readSuperblock (w₂.dataClient col) with
      | none => (w₂, 1)
      | some none =>
        match w₂.writeDataSuperblock col with
        | (w₃, false) => (w₃, 1)
        | (w₃, true) => seatDataMembers w₃ rest (col + 1)
      | some (some owner) =>
        if owner = w₂.poolId then seatDataMembers w₂ rest (col + 1) else (w₂, 2)

/-- A data column the manifest records as mid-recovery. -/
def dataRecovering (i : ℕ) : Bool :=
  manifest.any fun e => e.role = .data ∧ e.recovering ∧ e.index = i

/-- Keep the data members that were mid-recovery non-active. -/
def markRecovering (columns : ℕ) : World :=
  { w with dataMembers := w.dataMembers.mapIdx fun i m =>
      if i < columns ∧ dataRecovering manifest i then
        { m with state := .faulty, recovering := true }
      else m }

/-- Rebuild one slot allocator from its live set. -/
def rebuildAlloc (a : MemberAlloc) (live : Finset ℕ) : MemberAlloc :=
  let highWater := if live = ∅ then 0 else live.sup id + 1
  { a with highWater := highWater, free := (List.range highWater).filter (· ∉ live), live := live }

/-- Rebuild the slot allocators from the recovered log, or open its group on a fresh create. -/
def restoreAlloc : World :=
  if w.logEnabled = false then w
  else
    match w.allocLog with
    | some offsets =>
      let dataAlloc := w.dataAlloc.mapIdx fun d a =>
        rebuildAlloc a ((offsets.filter fun off => unbandMember off = d).image unbandSlot)
      { w with
        dataAlloc := dataAlloc
        writtenSlots := dataAlloc.foldl (fun written a => written ∪ a.live) w.writtenSlots }
    | none => { w with allocLog := some ∅ }

/-- Restore one parity member from the manifest: adopt it if it is mid-recovery or its superblock is
ours, else drop it again. -/
def restoreParity (e : MemberManifestEntry) : World :=
  let w₁ : World := { w with
    parityClients := w.parityClients ++ [e.poolId]
    parityMembers := w.parityMembers ++
      [⟨e.poolId, e.poolName, e.nodeId, .parity, .active, e.index, false⟩] }
  let pj := w₁.parityMembers.length - 1
  if e.recovering then
    w₁.modifyParity pj fun m => { m with state := .faulty, recovering := true }
  else if w₁.readSuperblock (w₁.parityClient pj) = some (some w₁.poolId) then w₁
  else
    { w₁ with
      parityMembers := w₁.parityMembers.dropLast
      parityClients := w₁.parityClients.dropLast }

/-- The parity entries of the manifest; replay leaves them in row order. -/
def manifestParity : List MemberManifestEntry :=
  manifest.filter (·.role = .parity)

/-- `Create`: the state it leaves and its return code. -/
def create (params : CreateParams) : World × ℕ :=
  let w₀ := w.resetForCreate params
  let manifest := w₀.loadMemberManifest
  if params.members = [] then (w₀, 1)
  else
    match w₀.seatDataMembers params.members 0 with
    | (w₁, 0) =>
      let w₂ := (w₁.markRecovering manifest params.members.length).restoreAlloc
      let w₃ := (manifestParity manifest).foldl restoreParity w₂
      let w₄ := { w₃ with parityLevel := w₃.parityMembers.length }
      (w₄.resumeRecoveries.compactMemberManifest, 0)
    | (w₁, rc + 1) => (w₁, rc + 1)

end World

end ClioCore.SafeBdev
