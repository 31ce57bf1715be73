import ClioCore.Cte.State

/-!
# Bytes of a block list

`ModifyExistingData` and `ReadData` walk a block list and issue one request per block that the
range of interest meets.  Both walks are `pieces`.

`bytesOf` is what a block list holds.
-/

namespace ClioCore.Cte

open Foundations
open SafeBdev (PoolId)

/-! ## The walk -/

/-- One request: `len` bytes at `addr` of a target, at position `pos` of the buffer. -/
structure Piece where
  pool : PoolId
  addr : ℕ
  len : ℕ
  pos : ℕ
deriving DecidableEq

/-- The requests for `dataSize` bytes at `dataOff`, where the first block starts at `blockOff` and
`remaining` bytes are still to be covered. -/
def pieces (dataOff dataSize : ℕ) : List BlobBlock → ℕ → ℕ → List Piece
  | [], _, _ => []
  | b :: bs, blockOff, remaining =>
    if remaining = 0 then []
    else if dataOff < blockOff + b.size ∧ blockOff < u64 (dataOff + dataSize) then
      let start := max dataOff blockOff
      let stop := min (u64 (dataOff + dataSize)) (blockOff + b.size)
      ⟨b.pool, b.targetOffset + (start - blockOff), stop - start, start - dataOff⟩ ::
        pieces dataOff dataSize bs (blockOff + b.size) (remaining - (stop - start))
    else pieces dataOff dataSize bs (blockOff + b.size) remaining

/-! ## Requests to the targets -/

/-- Store `n` bytes of `f` at `addr`. -/
def storeBytes (mem : PoolId → ℕ → UInt8) (pool : PoolId) (addr n : ℕ) (f : ℕ → UInt8) :
    PoolId → ℕ → UInt8 :=
  fun p a => if p = pool ∧ addr ≤ a ∧ a < addr + n then f (a - addr) else mem p a

/-- `AsyncWrite`: the target stores a prefix of the piece; whether it was the whole piece. -/
def writePiece (data : Buffer) (p : Piece) (s : State) : Bool × State :=
  let n := min p.len (s.env.stored s.tick p.len)
  let s' := { s.ticked with mem := storeBytes s.mem p.pool p.addr n fun i => data (p.pos + i) }
  if n = p.len then (true, s') else (false, s'.faulted)

/-- `AsyncRead` into the buffer. -/
def readPiece (buf : Buffer) (p : Piece) (s : State) : (Bool × Buffer) × State :=
  if s.env.readOk s.tick then
    ((true, fun i => if p.pos ≤ i ∧ i < p.pos + p.len then s.mem p.pool (p.addr + (i - p.pos))
      else buf i), s.ticked)
  else ((false, buf), s.ticked.faulted)

/-- Issue the writes and wait for all of them. -/
def writePieces (data : Buffer) : List Piece → Co State Bool
  | [] => pure true
  | p :: ps => do
      let ok ← Co.act (writePiece data p)
      let rest ← writePieces data ps
      pure (ok && rest)

/-- Issue the reads and wait for all of them. -/
def readPieces : List Piece → Buffer → Co State (Bool × Buffer)
  | [], buf => pure (true, buf)
  | p :: ps, buf => do
      let r ← Co.act (readPiece buf p)
      let rest ← readPieces ps r.2
      pure (r.1 && rest.1, rest.2)

variable (blocks : List BlobBlock)

/-- `ModifyExistingData`, starting the walk at block `startIdx`, which begins at `startOff`. -/
def modifyExistingData (data : Buffer) (size off startIdx startOff : ℕ) :
    Co State ℕ := do
  let ok ← writePieces data (pieces off size (blocks.drop startIdx) startOff size)
  pure (if ok then 0 else 1)

/-- `ReadData` -/
def readData (buf : Buffer) (size off : ℕ) : Co State (ℕ × Buffer) := do
  let r ← readPieces (pieces off size blocks 0 size) buf
  pure (if r.1 then 0 else 1, r.2)

/-! ## Contents -/

/-- The bytes of a block list, in blob order. -/
def bytesOf (mem : PoolId → ℕ → UInt8) (blocks : List BlobBlock) : List UInt8 :=
  blocks.flatMap fun b => readRange (mem b.pool) b.targetOffset b.size

end ClioCore.Cte
