import ClioCore.Ec.EcArray
import ClioCore.Foundations.Storage
import ClioCore.SafeBdev.Geometry
import Mathlib.Data.Finset.Sort

/-!
# State of the safe block device

The container of `safe_bdev_runtime.h` together with what it acts on: the member block devices,
addressed by pool id, the allocator log and the member log.

A member device answers each kind of request (statistics, reads, writes) with an outcome of its own
that the environment may change between tasks; a fatal outcome makes the container eject the member
(`MaybeFaultData`, `MaybeFaultParity`).  The reserved superblock area is kept apart from the data
bytes: every data access is at or behind `kSuperblockSize`.

The sets `dirty_slots_`, `written_slots_` and `live_` are `std::set`s in the source and `Finset`s
here; where the source iterates over one, the model iterates over its sorted list.
-/

namespace ClioCore.SafeBdev

open Foundations
open Ec (EcRole EcState ReedSolomon)

/-! ## Member devices -/

/-- A pool id. -/
structure PoolId where
  major : ℕ
  minor : ℕ
deriving DecidableEq, Inhabited

/-- How a request to a device ends: served, failed for now, or failed for good (`IsFatalDevice`). -/
inductive IoStatus
  | ok
  | transient
  | fatal
deriving DecidableEq

/-- A member block device.  `superblock` is the array identity recorded in a valid superblock, or
`none` if the superblock does not validate. -/
structure Device where
  bytes : ℕ → UInt8
  superblock : Option PoolId
  /-- Requests up to this address are in range. -/
  capacity : ℕ
  /-- `remaining_size_` of `GetStats`. -/
  remaining : ℕ
  /-- `predicted_ttl_days_` of `GetStats`. -/
  ttlDays : ℕ
  statsOk : Bool
  readStatus : IoStatus
  writeStatus : IoStatus

namespace Device

/-- `AsyncRead` of `len` bytes at `off`. -/
def read (dv : Device) (off len : ℕ) : Option (List UInt8) :=
  if dv.readStatus = .ok ∧ off + len ≤ dv.capacity then some (readRange dv.bytes off len) else none

/-- `AsyncWrite` of `data` at `off`. -/
def write (dv : Device) (off : ℕ) (data : List UInt8) : Option Device :=
  if dv.writeStatus = .ok ∧ off + data.length ≤ dv.capacity then
    some { dv with bytes := writeRange dv.bytes off data }
  else none

lemma read_eq_some {dv : Device} {off len : ℕ} {out : List UInt8} (h : dv.read off len = some out) :
    out = readRange dv.bytes off len := by
  rw [read] at h
  split_ifs at h
  exact (Option.some.inj h).symm

lemma write_eq_some {dv dv' : Device} {off : ℕ} {data : List UInt8}
    (h : dv.write off data = some dv') :
    dv' = { dv with bytes := writeRange dv.bytes off data } := by
  rw [write] at h
  split_ifs at h
  exact (Option.some.inj h).symm

lemma le_capacity_of_write {dv dv' : Device} {off : ℕ} {data : List UInt8}
    (h : dv.write off data = some dv') : off + data.length ≤ dv.capacity := by
  rw [write] at h
  split_ifs at h with hin
  exact hin.2

end Device

/-! ## Members -/

/-- Per-member bookkeeping (`MemberSlot`). -/
structure MemberSlot where
  poolId : PoolId
  poolName : String
  nodeId : ℕ
  role : EcRole
  state : EcState
  /-- Data column or parity row. -/
  index : ℕ
  /-- True while the member's chunks are being rebuilt onto `poolId`. -/
  recovering : Bool
deriving DecidableEq, Inhabited

/-- Per-data-member slot allocator (`MemberAlloc`). -/
structure MemberAlloc where
  /-- Next never-used slot. -/
  highWater : ℕ
  /-- Usable slots on this member. -/
  capSlots : ℕ
  /-- Freed slots; the last one is reused first. -/
  free : List ℕ
  /-- Currently live slots. -/
  live : Finset ℕ
deriving DecidableEq, Inhabited

namespace MemberAlloc

/-- A fresh allocator of `capSlots` slots. -/
def ofCap (capSlots : ℕ) : MemberAlloc := ⟨0, capSlots, [], ∅⟩

variable (a : MemberAlloc)

/-- Slots not yet handed out. -/
def remainingSlots : ℕ :=
  (if a.highWater < a.capSlots then a.capSlots - a.highWater else 0) + a.free.length

/-- No slot left. -/
def full : Bool := a.remainingSlots = 0

/-- Take the next slot: reuse a freed one first, else bump. -/
def take : ℕ × MemberAlloc :=
  match a.free.getLast? with
  | some s => (s, { a with free := a.free.dropLast, live := insert s a.live })
  | none =>
    (a.highWater, { a with highWater := a.highWater + 1, live := insert a.highWater a.live })

/-- Release a live slot back to the free list. -/
def release (s : ℕ) : MemberAlloc :=
  if s ∈ a.live then { a with live := a.live.erase s, free := a.free ++ [s] } else a

lemma live_release (s : ℕ) : (a.release s).live = a.live.erase s := by
  rw [release]
  by_cases h : s ∈ a.live
  · rw [if_pos h]
  · rw [if_neg h, Finset.erase_eq_of_notMem h]

end MemberAlloc

/-- One record of the member log (`MemberManifestEntry`). -/
structure MemberManifestEntry where
  role : EcRole
  index : ℕ
  poolId : PoolId
  nodeId : ℕ
  state : EcState
  recovering : Bool
  poolName : String
deriving DecidableEq

/-! ## The container and its surroundings -/

/-- The container state, the member devices and the two logs. -/
structure World where
  /-- The array's own pool id. -/
  poolId : PoolId
  dataMembers : List MemberSlot := []
  parityMembers : List MemberSlot := []
  /-- The pool each data client talks to. -/
  dataClients : List PoolId := []
  parityClients : List PoolId := []
  dataAlloc : List MemberAlloc := []
  rrCursor : ℕ := 0
  dirtySlots : Finset ℕ := ∅
  writtenSlots : Finset ℕ := ∅
  maxFailures : ℕ := 1
  parityLevel : ℕ := 0
  dev : PoolId → Device
  /-- A non-empty `alloc_log_path_`. -/
  logEnabled : Bool := false
  /-- Live banded offsets of the allocator log, once its group is open. -/
  allocLog : Option (Finset ℕ) := none
  /-- Records of the member log, oldest first. -/
  memberLog : List MemberManifestEntry := []
  /-- `CLIO_SAFE_BDEV_RECOVER_MAX_ROWS`; `0` when unset. -/
  recoverMaxRows : ℕ := 0

namespace World

variable (w : World)

variable (j s d : ℕ)

/-- `data_members_[d]`. -/
def dataMember : MemberSlot := w.dataMembers.getD d default

/-- `parity_members_[j]`. -/
def parityMember : MemberSlot := w.parityMembers.getD j default

/-- The pool of `data_clients_[d]`. -/
def dataClient : PoolId := w.dataClients.getD d default

/-- The pool of `parity_clients_[j]`. -/
def parityClient : PoolId := w.parityClients.getD j default

/-- `data_alloc_[d]`. -/
def alloc : MemberAlloc := w.dataAlloc.getD d default

/-- Mark a slot as holding data and needing (re)parity. -/
def markSlotDirty : World :=
  { w with writtenSlots := insert s w.writtenSlots, dirtySlots := insert s w.dirtySlots }

/-- Drop a slot from the written set once no data member has it live. -/
def forgetSlotIfEmpty : World :=
  if w.dataAlloc.any (fun a => s ∈ a.live) then w
  else { w with writtenSlots := w.writtenSlots.erase s, dirtySlots := w.dirtySlots.erase s }

/-- The data members with slot `s` live, ascending: the membership of stripe `s`. -/
def stripeMembers : List ℕ :=
  (List.range w.dataAlloc.length).filter fun d => s ∈ (w.alloc d).live

/-- The codec of a stripe of width `k`. -/
def getCodec (k : ℕ) : ReedSolomon := ⟨k, w.maxFailures⟩

/-- Eject a data member on a fatal device error. -/
def maybeFaultData (ioError : IoStatus) : World :=
  if ioError = .fatal ∧ d < w.dataMembers.length ∧ (w.dataMember d).state = .active then
    { w with dataMembers := w.dataMembers.modify d fun m => { m with state := .faulty } }
  else w

/-- Eject a parity member on a fatal device error. -/
def maybeFaultParity (ioError : IoStatus) : World :=
  if ioError = .fatal ∧ j < w.parityMembers.length ∧ (w.parityMember j).state = .active then
    { w with parityMembers := w.parityMembers.modify j fun m => { m with state := .faulty } }
  else w

/-- Read a segment of data member `d`. -/
def readDataSegment (d off len : ℕ) : World × Option (List UInt8) :=
  let dv := w.dev (w.dataClient d)
  (w.maybeFaultData d dv.readStatus, dv.read off len)

/-- Read slot `s` of parity member `j`. -/
def readParityChunk : World × Option (List UInt8) :=
  let dv := w.dev (w.parityClient j)
  (w.maybeFaultParity j dv.readStatus, dv.read (slotPhysOffset s) kChunkLen)

/-- Write slot `s` of parity member `j`. -/
def writeParityChunk (chunk : List UInt8) : World × Bool :=
  let dv := w.dev (w.parityClient j)
  match dv.write (slotPhysOffset s) chunk with
  | some dv' =>
    ({ w with dev := Function.update w.dev (w.parityClient j) dv' }.maybeFaultParity j
      dv.writeStatus, true)
  | none => (w.maybeFaultParity j dv.writeStatus, false)

end World

end ClioCore.SafeBdev
