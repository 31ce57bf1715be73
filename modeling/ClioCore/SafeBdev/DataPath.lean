import ClioCore.SafeBdev.State

/-!
# Data path of the safe block device

`AllocateBlocks`, `FreeBlocks`, `Write`, `Read`, `ReconstructStripe` and `BuildParity` of
`safe_bdev_runtime.cc`, each as the function a task computes when it runs to completion.

The member writes of one `Write` are dispatched while the block list is walked and awaited
afterwards: a walk that stops early (`dispatch_ok`) still lands what it has dispatched.  The model
keeps the two phases, `dispatchBlock` and `landSegments`.

Buffers from the shared-memory allocator are always granted.
-/

namespace ClioCore.SafeBdev

open Foundations
open Ec (EcRole EcState ReedSolomon)

namespace World

/-! ## Reconstruction -/

/-- The data half of `ReconstructStripe`: read the active stripe members other than `exclude` in
order until `kS` chunks are gathered.  A member that cannot be read is passed over. -/
def gatherData (s exclude kS : ℕ) :
    World → List (ℕ × ℕ) → List ℕ × List (List UInt8) → World × (List ℕ × List (List UInt8))
  | w, [], acc => (w, acc)
  | w, (d, pos) :: rest, acc =>
    if d = exclude then gatherData s exclude kS w rest acc
    else if (w.dataMember d).state ≠ .active then gatherData s exclude kS w rest acc
    else
      match w.readDataSegment d (slotPhysOffset s) kChunkLen with
      | (w', none) => gatherData s exclude kS w' rest acc
      | (w', some buf) =>
        let acc' := (acc.1 ++ [pos], acc.2 ++ [buf])
        if acc'.1.length = kS then (w', acc') else gatherData s exclude kS w' rest acc'

/-- The parity half: add active parity rows while fewer than `kS` chunks are gathered. -/
def gatherParity (s kS : ℕ) :
    World → List ℕ → List ℕ × List (List UInt8) → World × (List ℕ × List (List UInt8))
  | w, [], acc => (w, acc)
  | w, j :: rest, acc =>
    if kS ≤ acc.1.length then (w, acc)
    else if (w.parityMember j).state ≠ .active then gatherParity s kS w rest acc
    else
      match w.readParityChunk j s with
      | (w', none) => gatherParity s kS w' rest acc
      | (w', some buf) => gatherParity s kS w' rest (acc.1 ++ [kS + j], acc.2 ++ [buf])

variable (w : World) (blocks : List Block) (data : List UInt8)

/-- Gather the survivors of stripe `s` without member `excludeMember`. -/
def gather (s : ℕ) (stripe : List ℕ) (excludeMember : ℕ) :
    World × (List ℕ × List (List UInt8)) :=
  let r := gatherData s excludeMember stripe.length w stripe.zipIdx ([], [])
  gatherParity s stripe.length r.1 (List.range r.1.parityLevel) r.2

/-- Decode the data chunks of stripe `s` from its survivors, without member `excludeMember`. -/
def reconstructStripe (s : ℕ) (stripe : List ℕ) (excludeMember : ℕ) :
    World × Option (List (List UInt8)) :=
  if stripe.length = 0 then (w, none)
  else
    let r := w.gather s stripe excludeMember
    if r.2.1.length < stripe.length then (r.1, none)
    else (r.1, (r.1.getCodec stripe.length).decodeData r.2.1 r.2.2 kChunkLen)

/-! ## Allocation -/

/-- Sweep the round-robin cursor to the next active member with a free slot. -/
def pickMember : ℕ → World → World × Option ℕ
  | 0, w => (w, none)
  | n + 1, w =>
    let d := w.rrCursor % w.dataMembers.length
    let w' := { w with rrCursor := (d + 1) % w.dataMembers.length }
    if (w.dataMember d).state = .active ∧ (w.alloc d).full = false then (w', some d)
    else pickMember n w'

/-- Take a slot of member `d` for `seg` bytes and log it. -/
def takeSlot (d seg : ℕ) : World × Block :=
  let (s, a) := (w.alloc d).take
  let off := bandOffset d s
  ({ w with
      dataAlloc := w.dataAlloc.set d a
      allocLog := w.allocLog.map fun l : Finset ℕ => if w.logEnabled then insert off l else l },
    ⟨off, seg⟩)

/-- The allocation loop: one slot for each chunk of the request.  On a full array the slots taken so
far stay taken. -/
def allocLoop (w : World) (remaining : ℕ) (blocks : List Block) : World × Option (List Block) :=
  if _h : remaining = 0 then (w, some blocks)
  else
    match pickMember w.dataMembers.length w with
    | (w', none) => (w', none)
    | (w', some d) =>
      let seg := min kChunkLen remaining
      let (w'', block) := w'.takeSlot d seg
      allocLoop w'' (remaining - seg) (blocks ++ [block])
termination_by remaining
decreasing_by
  have hpos := kChunkLen_pos
  omega

/-- `AllocateBlocks`: return code and block list. -/
def allocateBlocks (size : ℕ) : World × ℕ × List Block :=
  if size = 0 then (w, 0, [])
  else if w.dataMembers = [] then (w, 1, [])
  else
    match allocLoop w size [] with
    | (w', none) => (w', 1, [])
    | (w', some blocks) => (w', 0, blocks)

/-- Release the slot of one block; the stripe it leaves is marked dirty, or forgotten if empty. -/
def freeBlock (b : Block) : World :=
  let d := unbandMember b.offset
  let s := unbandSlot b.offset
  if w.dataAlloc.length ≤ d ∨ s ∉ (w.alloc d).live then w
  else
    let w' := { w with
      dataAlloc := w.dataAlloc.set d ((w.alloc d).release s)
      allocLog := w.allocLog.map fun l : Finset ℕ => if w.logEnabled then l.erase b.offset else l }
    if w'.stripeMembers s = [] then w'.forgetSlotIfEmpty s else w'.markSlotDirty s

/-- `FreeBlocks`. -/
def freeBlocks : World := blocks.foldl freeBlock w

/-! ## Writing -/

/-- A member write in flight. -/
structure Segment where
  pool : PoolId
  phys : ℕ
  bytes : List UInt8

/-- What the walk over the block list has accumulated. -/
structure Dispatch where
  bufPos : ℕ
  bytesWritten : ℕ
  futs : List Segment
  touched : Finset ℕ
  ok : Bool

/-- The dispatch of a block of an existing member.  The payload of a block whose member is not
active is not sent; its slots are marked all the same. -/
def dispatched (st : Dispatch) (b : Block) : Dispatch where
  bufPos := st.bufPos + b.size
  bytesWritten := st.bytesWritten + b.size
  futs :=
    if (w.dataMember (unbandMember b.offset)).state = .active then
      st.futs ++ [⟨w.dataClient (unbandMember b.offset), physOffset b.offset,
        (data.drop st.bufPos).take b.size⟩]
    else st.futs
  touched := st.touched ∪ touchedSlots b.offset b.size
  ok := true

/-- Dispatch one block. -/
def dispatchBlock (st : Dispatch) (b : Block) : Dispatch :=
  if st.ok = false then st
  else if b.size = 0 then st
  else if w.dataMembers.length ≤ unbandMember b.offset then { st with ok := false }
  else w.dispatched data st b

/-- Land one member write. -/
def landSegment (st : (PoolId → Device) × Bool) (seg : Segment) : (PoolId → Device) × Bool :=
  match (st.1 seg.pool).write seg.phys seg.bytes with
  | some dv => (Function.update st.1 seg.pool dv, st.2)
  | none => (st.1, false)

/-- Land the dispatched writes; `false` if one of them failed. -/
def landSegments (dev : PoolId → Device) (futs : List Segment) : (PoolId → Device) × Bool :=
  futs.foldl landSegment (dev, true)

/-- The walk over the block list. -/
def dispatch : Dispatch :=
  blocks.foldl (w.dispatchBlock data) ⟨0, 0, [], ∅, true⟩

/-- `Write`: return code and bytes written. -/
def write : World × ℕ × ℕ :=
  if w.dataMembers = [] ∨ blocks = [] then (w, 1, 0)
  else
    let st := w.dispatch blocks data
    let (dev', landed) := landSegments w.dev st.futs
    let w' := { w with dev := dev' }
    if st.ok && landed then
      ({ w' with writtenSlots := w'.writtenSlots ∪ st.touched
                 dirtySlots := w'.dirtySlots ∪ st.touched }, 0, st.bytesWritten)
    else (w', 1, 0)

/-! ## Reading -/

/-- Reconstruct the bytes `[cur, hi)` of a block whose member is down, chunk by chunk. -/
def readDegraded (w : World) (cur hi : ℕ) (acc : List UInt8) : World × Option (List UInt8) :=
  if _h : cur < hi then
    let dd := unbandMember cur
    let s := unbandSlot cur
    let segEnd := min hi (cur / kChunkLen * kChunkLen + kChunkLen)
    if s ∈ w.dirtySlots then (w, none)
    else
      let stripe := w.stripeMembers s
      match stripe.findIdx? (· = dd) with
      | none => (w, none)
      | some pos =>
        match w.reconstructStripe s stripe dd with
        | (w', none) => (w', none)
        | (w', some chunks) =>
          readDegraded w' segEnd hi
            (acc ++ ((chunks.getD pos []).drop (unbandWithin cur)).take (segEnd - cur))
  else (w, some acc)
termination_by hi - cur
decreasing_by
  have hdm := Nat.div_add_mod cur kChunkLen
  have hlt := Nat.mod_lt cur kChunkLen_pos
  rw [Nat.mul_comm] at hdm
  omega

/-- Read one block, healthy or degraded. -/
def readBlock (b : Block) : World × Option (List UInt8) :=
  if w.dataMembers.length ≤ unbandMember b.offset then (w, none)
  else if (w.dataMember (unbandMember b.offset)).state = .active then
    w.readDataSegment (unbandMember b.offset) (physOffset b.offset) b.size
  else w.readDegraded b.offset ((b.offset + b.size) % 2 ^ 64) []

/-- The block loop of `Read`: return code and the bytes read so far. -/
def readBlocks : World → List Block → List UInt8 → World × ℕ × List UInt8
  | w, [], acc => (w, 0, acc)
  | w, b :: rest, acc =>
    if b.size = 0 then readBlocks w rest acc
    else
      match w.readBlock b with
      | (w', none) => (w', 1, acc)
      | (w', some out) => readBlocks w' rest (acc ++ out)

/-- `Read`: return code and the bytes read. -/
def read : World × ℕ × List UInt8 :=
  if w.dataMembers = [] ∨ blocks = [] then (w, 1, []) else readBlocks w blocks []

/-! ## Building parity -/

/-- Read the chunks of a stripe whose members must all be active. -/
def readStripeChunks (s : ℕ) : World → List ℕ → World × Option (List (List UInt8))
  | w, [] => (w, some [])
  | w, d :: rest =>
    if (w.dataMember d).state ≠ .active then (w, none)
    else
      match w.readDataSegment d (slotPhysOffset s) kChunkLen with
      | (w', none) => (w', none)
      | (w', some chunk) =>
        match readStripeChunks s w' rest with
        | (w'', none) => (w'', none)
        | (w'', some chunks) => (w'', some (chunk :: chunks))

/-- Write the parity rows of slot `s`; a row whose member is not active is skipped. -/
def writeParityRows (s : ℕ) (chunks : List (List UInt8)) : World → List ℕ → World × Bool
  | w, [] => (w, true)
  | w, j :: rest =>
    if (w.parityMember j).state ≠ .active then writeParityRows s chunks w rest
    else
      match w.writeParityChunk j s
          ((w.getCodec chunks.length).encodeParityShard j chunks kChunkLen) with
      | (w', false) => (w', false)
      | (w', true) => writeParityRows s chunks w' rest

/-- Build the parity of one dirty slot; it stays dirty if a member is down or an access fails. -/
def buildSlot (s : ℕ) : World :=
  let stripe := w.stripeMembers s
  if stripe = [] then { w with dirtySlots := w.dirtySlots.erase s }
  else
    match readStripeChunks s w stripe with
    | (w', none) => w'
    | (w', some chunks) =>
      match writeParityRows s chunks w' (List.range w'.parityLevel) with
      | (w'', false) => w''
      | (w'', true) => { w'' with dirtySlots := w''.dirtySlots.erase s }

/-- The batch of dirty slots of one `BuildParity`; `maxBatch = 0` takes all. -/
def parityBatch (maxBatch : ℕ) : List ℕ :=
  if maxBatch = 0 then w.dirtySlots.sort else w.dirtySlots.sort.take maxBatch

/-- `BuildParity`. -/
def buildParity (maxBatch : ℕ) : World :=
  if w.parityLevel = 0 then { w with dirtySlots := ∅ }
  else (w.parityBatch maxBatch).foldl buildSlot w

end World

end ClioCore.SafeBdev
