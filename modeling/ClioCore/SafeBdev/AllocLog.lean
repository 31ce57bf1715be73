import ClioCore.Foundations.Framing
import ClioCore.Foundations.Serial
import Mathlib.Data.List.AList

/-!
# The allocator log across crashes

`AllocatorLog` appends records of 40 bytes to its file and `Open` applies those of the file one
after another.  Records have no frame and no checksum, so a record torn by a crash shifts the ones
appended after it; as long as nothing is appended to a torn tail, what `Open` recovers are the
records that were written in full.

The log is enabled, and its file can be opened and written.
-/

namespace ClioCore.SafeBdev

open Foundations List Option

/-! ## Records -/

/-- Record types. -/
def kAlloc : UInt32 := 1
def kFree : UInt32 := 2
def kGroupOpen : UInt32 := 3
def kGroupFreeze : UInt32 := 4

structure AllocLogRecord where
  type : UInt32
  groupId : UInt32
  blockType : UInt32
  reserved : UInt32
  offset : UInt64
  size : UInt64
  row : UInt64
deriving DecidableEq

variable (groupId : UInt32)

def logAlloc (offset size : UInt64) (blockType : UInt32) : AllocLogRecord :=
  ⟨kAlloc, groupId, blockType, 0, offset, size, 0⟩

namespace AllocLogRecord

variable (r : AllocLogRecord)

/-- The packed record, in little-endian byte order. -/
def bytes : List UInt8 :=
  toLe 4 r.type.toNat ++ (toLe 4 r.groupId.toNat ++ (toLe 4 r.blockType.toNat ++
    (toLe 4 r.reserved.toNat ++
      (toLe 8 r.offset.toNat ++ (toLe 8 r.size.toNat ++ toLe 8 r.row.toNat)))))

def ofBytes (bs : List UInt8) : AllocLogRecord where
  type := .ofNat (ofLe (bs.take 4))
  groupId := .ofNat (ofLe ((bs.drop 4).take 4))
  blockType := .ofNat (ofLe ((bs.drop 8).take 4))
  reserved := .ofNat (ofLe ((bs.drop 12).take 4))
  offset := .ofNat (ofLe ((bs.drop 16).take 8))
  size := .ofNat (ofLe ((bs.drop 24).take 8))
  row := .ofNat (ofLe ((bs.drop 32).take 8))

/-- `fread` of one record. -/
def read (bs : List UInt8) : Option (AllocLogRecord × List UInt8) :=
  if bs.length < 40 then none else some (ofBytes (bs.take 40), bs.drop 40)

@[simp] lemma length_bytes : r.bytes.length = 40 := by simp [bytes]

lemma ofBytes_bytes : ofBytes r.bytes = r := by
  have h32 : ∀ x : UInt32, UInt32.ofNat (ofLe (toLe 4 x.toNat)) = x := by
    intro x
    rw [ofLe_toLe x.toNat_lt, UInt32.ofNat_toNat]
  have h64 : ∀ x : UInt64, UInt64.ofNat (ofLe (toLe 8 x.toNat)) = x := by
    intro x
    rw [ofLe_toLe x.toNat_lt, UInt64.ofNat_toNat]
  obtain ⟨type, groupId, blockType, reserved, offset, size, row⟩ := r
  simp [ofBytes, bytes, drop_append, drop_of_length_le, take_of_length_le, h32, h64]

lemma read_bytes_append (rest : List UInt8) : read (r.bytes ++ rest) = some (r, rest) := by
  rw [read, if_neg (by simp), take_left' r.length_bytes, drop_left' r.length_bytes, ofBytes_bytes]

lemma length_flatMap_bytes (rs : List AllocLogRecord) :
    (rs.flatMap bytes).length = 40 * rs.length := by
  simp [Nat.mul_comm]

/-- A write that is cut has written some records in full, and then less than a record. -/
lemma take_flatMap_bytes (rs : List AllocLogRecord) (n : ℕ) : ∃ tail : List UInt8,
    (rs.flatMap bytes).take n = (rs.take (n / 40)).flatMap bytes ++ tail ∧ tail.length < 40 := by
  induction rs generalizing n with
  | nil => exact ⟨[], by simp, by simp⟩
  | cons r rs ih =>
    by_cases hn : n < 40
    · refine ⟨((r :: rs).flatMap bytes).take n, by simp [Nat.div_eq_of_lt hn], ?_⟩
      rw [length_take]
      omega
    · obtain ⟨m, rfl⟩ : ∃ m, n = 40 + m := ⟨n - 40, by omega⟩
      obtain ⟨tail, htail, hlen⟩ := ih m
      refine ⟨tail, ?_, hlen⟩
      rw [Nat.add_div_left m (by omega), take_succ_cons, flatMap_cons, flatMap_cons, append_assoc,
        ← htail, take_append, take_of_length_le (by simp), length_bytes, Nat.add_sub_cancel_left]

end AllocLogRecord

open AllocLogRecord (bytes read)

/-! ## The recovered model -/

structure LiveBlock where
  offset : UInt64
  size : UInt64
  blockType : UInt32
deriving DecidableEq

structure GroupRec where
  groupId : UInt32
  k : UInt32
  firstRow : UInt64
  numRows : UInt64
  logicalBase : UInt64
deriving DecidableEq

/-- `live_`, by group and offset, and `groups_`. -/
structure Recovered where
  live : AList fun _ : UInt32 × UInt64 => LiveBlock
  groups : AList fun _ : UInt32 => GroupRec

namespace Recovered

def applyRecord (m : Recovered) (r : AllocLogRecord) : Recovered :=
  if r.type = kAlloc then
    { m with live := m.live.insert (r.groupId, r.offset) ⟨r.offset, r.size, r.blockType⟩ }
  else if r.type = kFree then { m with live := m.live.erase (r.groupId, r.offset) }
  else if r.type = kGroupOpen then
    { m with groups := m.groups.insert r.groupId ⟨r.groupId, r.blockType, r.row, r.size, r.offset⟩ }
  else if r.type = kGroupFreeze then
    let g := (m.groups.lookup r.groupId).getD ⟨r.groupId, 0, 0, 0, 0⟩
    { m with groups := m.groups.insert r.groupId { g with numRows := r.size } }
  else m

/-- What the records come to. -/
def ofRecords (rs : List AllocLogRecord) : Recovered := rs.foldl applyRecord ⟨∅, ∅⟩

end Recovered

/-! ## The log and its file -/

structure AllocatorLog where
  buffer : List AllocLogRecord
  model : Recovered

/-- The file, and the log if a process has it open. -/
structure LogWorld where
  file : List UInt8
  log : Option AllocatorLog

inductive LogStep where
  /-- `LogAlloc`, `LogFree`, `LogGroupOpen` or `LogGroupFreeze`. -/
  | log (r : AllocLogRecord)
  | flush
  /-- The process dies while `Flush` appends, after `n` bytes. -/
  | crash (n : ℕ)
  /-- `Open` with `recover`. -/
  | openLog

namespace LogWorld

variable (w : LogWorld)

/-- `ReplayFileLocked`. -/
def replayFile : Recovered :=
  .ofRecords (scan read w.file.length w.file)

def step : LogStep → Option LogWorld
  | .log r => w.log.map fun l => { w with log := some { l with buffer := l.buffer ++ [r] } }
  | .flush => w.log.map fun l =>
      ⟨w.file ++ l.buffer.flatMap bytes,
        some ⟨[], l.buffer.foldl Recovered.applyRecord l.model⟩⟩
  | .crash n => w.log.map fun l => ⟨w.file ++ (l.buffer.flatMap bytes).take n, none⟩
  | .openLog => some { w with log := some ⟨[], w.replayFile⟩ }

/-- Nothing is appended after a torn record. -/
def aligned : LogStep → Prop
  | .flush | .crash _ => (∀ l ∈ w.log, l.buffer = []) ∨ 40 ∣ w.file.length
  | .log _ | .openLog => True

instance (w : LogWorld) : ∀ s, Decidable (w.aligned s)
  | .flush | .crash _ =>
    inferInstanceAs (Decidable ((∀ l ∈ w.log, l.buffer = []) ∨ 40 ∣ w.file.length))
  | .log _ | .openLog => .isTrue trivial

/-- No file yet. -/
def fresh : LogWorld := ⟨[], none⟩

end LogWorld

/-! ## What was written in full -/

/-- The records written in full so far, and those logged and not yet written. -/
structure Ledger where
  written : List AllocLogRecord
  pending : List AllocLogRecord

def Ledger.step (l : Ledger) : LogStep → Ledger
  | .log r => { l with pending := l.pending ++ [r] }
  | .flush => ⟨l.written ++ l.pending, []⟩
  | .crash n => ⟨l.written ++ l.pending.take (n / 40), []⟩
  | .openLog => { l with pending := [] }

/-- The records that the steps write in full. -/
def writtenBy (steps : List LogStep) : List AllocLogRecord :=
  (steps.foldl Ledger.step ⟨[], []⟩).written

/-- The file holds the records written in full and less than a record after them. -/
structure Keeps (w : LogWorld) (l : Ledger) : Prop where
  file : ∃ tail : List UInt8, w.file = l.written.flatMap bytes ++ tail ∧ tail.length < 40
  log : ∀ log ∈ w.log, log = ⟨l.pending, .ofRecords l.written⟩

namespace Keeps

variable {w w' : LogWorld} {l : Ledger}

lemma replayFile (h : Keeps w l) : w.replayFile = .ofRecords l.written := by
  obtain ⟨tail, hfi, hlen⟩ := h.file
  have hrd : scan read w.file.length w.file = l.written := by
    rw [hfi]
    refine scan_flatMap (fun r _ => r.read_bytes_append) (fun r _ hr => ?_) (if_pos hlen)
    simpa using congrArg length hr
  rw [LogWorld.replayFile, hrd]

/-- More records are written, `n` bytes of them. -/
lemma append (h : Keeps w l) (n : ℕ) (hok : l.pending = [] ∨ 40 ∣ w.file.length) :
    ∃ tail : List UInt8, w.file ++ (l.pending.flatMap bytes).take n
      = (l.written ++ l.pending.take (n / 40)).flatMap bytes ++ tail ∧ tail.length < 40 := by
  obtain ⟨tail, hfi, hlen⟩ := h.file
  rcases hok with hnil | hdvd
  · exact ⟨tail, by simp [hnil, hfi], hlen⟩
  · obtain rfl : tail = [] := by
      rw [hfi, length_append, AllocLogRecord.length_flatMap_bytes] at hdvd
      exact length_eq_zero_iff.mp (by omega)
    obtain ⟨torn, htorn, hlen'⟩ := AllocLogRecord.take_flatMap_bytes l.pending n
    exact ⟨torn, by simp [hfi, htorn], hlen'⟩

lemma step (h : Keeps w l) {s : LogStep} (hok : w.aligned s) (hs : w.step s = some w') :
    Keeps w' (l.step s) := by
  cases s with
  | log r =>
    obtain ⟨log, hlog, rfl⟩ := map_eq_some_iff.mp hs
    refine ⟨h.file, fun log' hlog' => ?_⟩
    rw [← some.inj hlog', h.log log hlog]
    rfl
  | flush =>
    obtain ⟨log, hlog, rfl⟩ := map_eq_some_iff.mp hs
    obtain rfl := h.log log hlog
    refine ⟨?_, fun log' hlog' => ?_⟩
    · obtain ⟨tail, htail, hlen⟩ :=
        h.append (40 * l.pending.length) (hok.imp_left fun hb => hb _ hlog)
      rw [take_of_length_le (AllocLogRecord.length_flatMap_bytes _).le,
        Nat.mul_div_cancel_left _ (by omega), take_length] at htail
      exact ⟨tail, htail, hlen⟩
    · rw [← some.inj hlog', Ledger.step, Recovered.ofRecords, Recovered.ofRecords, foldl_append]
  | crash n =>
    obtain ⟨log, hlog, rfl⟩ := map_eq_some_iff.mp hs
    obtain rfl := h.log log hlog
    exact ⟨h.append n (hok.imp_left fun hb => hb _ hlog), by simp⟩
  | openLog =>
    cases hs
    refine ⟨h.file, fun log' hlog' => ?_⟩
    rw [← some.inj hlog', h.replayFile]
    rfl

lemma run (h : Keeps w l) {steps : List LogStep}
    (hok : Meets LogWorld.step LogWorld.aligned w steps)
    (hrun : runAll LogWorld.step w steps = some w') : Keeps w' (steps.foldl Ledger.step l) := by
  induction steps generalizing w l with
  | nil => exact some.inj hrun ▸ h
  | cons s steps ih =>
    obtain ⟨w1, hs, hrs⟩ := bind_eq_some_iff.mp hrun
    exact ih (h.step hok.1 hs) (hok.2 w1 hs) hrs

end Keeps

/-- **Crash recovery.**  In a run in which nothing is appended after a torn record, the file replays
at every moment to the records written in full. -/
theorem replayFile_of_aligned {steps : List LogStep} {w : LogWorld}
    (hok : Meets LogWorld.step LogWorld.aligned .fresh steps)
    (hrun : runAll LogWorld.step .fresh steps = some w) :
    w.replayFile = .ofRecords (writtenBy steps) :=
  (Keeps.run ⟨⟨[], rfl, by simp⟩, by simp [LogWorld.fresh]⟩ hok hrun).replayFile

/-- Two blocks are logged, the process dies `n` bytes into the append, and the next one logs a
block. -/
def crashRun (n : ℕ) : List LogStep :=
  [.openLog, .log (logAlloc 0 0 4096 0), .log (logAlloc 0 4096 4096 0), .crash n, .openLog,
    .log (logAlloc 0 8192 4096 0), .flush, .openLog]

theorem replayFile_between_records :
    (runAll LogWorld.step .fresh (crashRun 40)).map LogWorld.replayFile
      = some (.ofRecords [logAlloc 0 0 4096 0, logAlloc 0 8192 4096 0]) := by
  have hruns : (runAll LogWorld.step .fresh (crashRun 40)).isSome := by decide +kernel
  obtain ⟨w, hw⟩ := Option.isSome_iff_exists.mp hruns
  rw [hw, Option.map_some, replayFile_of_aligned (by decide +kernel) hw]
  rfl

/-- A byte of a torn record stays in front of the block that is logged next, and the block is lost.
-/
theorem block_lost_after_torn_record :
    (runAll LogWorld.step .fresh (crashRun 41)).map (fun w => w.replayFile.live.lookup (0, 8192))
      = some none ∧
    (Recovered.ofRecords (writtenBy (crashRun 41))).live.lookup (0, 8192) = some ⟨8192,
      4096, 0⟩ := by
  decide +kernel

end ClioCore.SafeBdev
