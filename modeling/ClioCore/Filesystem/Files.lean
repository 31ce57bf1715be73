import ClioCore.Filesystem.State
import ClioCore.Foundations.Serial

/-!
# Files

`Open`, `Close`, `Read`, `Write`, `Getattr` and `Truncate` of `filesystem_runtime.cc`.  A read or a
write goes page by page; the loop is `pageSpans`, whose position is a `u64` and wraps.
-/

namespace ClioCore.Filesystem

open Foundations Cte

/-- The rounds of the loops that go through a range of a file page by page.  There are no more of
them than bytes, which is what `fuel` is for. -/
def pageSpans : ℕ → ℕ → ℕ → ℕ → List Foundations.Piece
  | 0, _, _, _ => []
  | fuel + 1, cur, done, want =>
    if done < want then
      let n := min (kFsPageSize - cur % kFsPageSize) (want - done)
      ⟨cur / kFsPageSize, cur % kFsPageSize, done,
        n⟩ :: pageSpans fuel (u64 (cur + n)) (done + n) want
    else []

namespace State

/-! ## Open and Close -/

/-- The outputs of `OpenTask`.  Handle 0 says that there is no such file. -/
structure OpenReply where
  handle : ℕ
  size : ℕ
  created : Bool
deriving DecidableEq

variable (s : State) (path : String) (tagId : TagId)

/-- The `FileInfo` that `Open` uses: the one tracked under the path if it is for this tag, else a
new one with the physical size. -/
def bindFile (physical : ℕ) : ℕ × State :=
  match (s.byPath.lookup path).filter fun i => (s.files i).tagId = tagId with
  | some i => (i, s)
  | none => s.track ⟨tagId, path, physical⟩

/-- `Open`; `creat` is the flag `O_CREAT`. -/
def openFile (creat : Bool) : OpenReply × State :=
  let existed := (s.core.tagQueryExact path).isSome
  if existed = false ∧ creat = false then (⟨0, 0, false⟩, s)
  else
    let t := s.core.getOrCreateTag path
    let physical := (t.2.getTagSize t.1).getD 0
    let handle := s.nextHandle
    let fi := { s with core := t.2, nextHandle := s.nextHandle + 1 }.bindFile path t.1 physical
    let opened := { fi.2 with handles := fi.2.handles.insert handle fi.1 }
    (⟨handle, (opened.files fi.1).size, !existed⟩,
      if existed then opened else { opened with core := opened.core.touchDir (parentDir path) })

/-- `Close` -/
def close (handle : ℕ) : State := { s with handles := s.handles.erase handle }

/-! ## Read and Write -/

/-- `Read`: the bytes read; none for `EBADF`. -/
def read (handle offset size : ℕ) : Option (List UInt8) :=
  (s.lookupHandle handle).map fun i =>
    let tagId := (s.files i).tagId
    let fileSize := (s.files i).size
    if fileSize ≤ offset then []
    else
      -- The sum is a `u64`; a sum that wraps is not seen to be beyond the end of the file.
      let want := if fileSize < u64 (offset + size) then fileSize - offset else size
      (pageSpans want offset 0 want).flatMap fun q =>
        s.core.getBlob tagId (toString q.page) q.pageOff q.len

/-- One round of the loop of `Write`: the core, the bytes written so far, and whether to go on. -/
def writePage (data : List UInt8) (c : Core × ℕ) (q : Foundations.Piece) : (Core × ℕ) × Bool :=
  let p := c.1.putBlob tagId (toString q.page) q.pageOff ((data.drop q.done).take q.len)
  if p.1 = 0 then ((p.2, c.2 + q.len), true) else ((p.2, c.2), false)

/-- The outputs of `WriteTask`. -/
structure WriteReply where
  rc : ℕ
  bytesWritten : ℕ
  newSize : ℕ
deriving DecidableEq

/-- `EIO` -/
def eio : ℕ := 5

/-- `Write`: none for `EBADF`. -/
def write (handle offset : ℕ) (data : List UInt8) : Option WriteReply × State :=
  match s.lookupHandle handle with
  | none => (none, s)
  | some i =>
    let spans := pageSpans data.length offset 0 data.length
    let loop := loopWhile (writePage (s.files i).tagId data) spans (s.core, 0)
    let done := loop.1.2
    let written := { s with core := loop.1.1 }.modifyFile i fun info =>
      { info with size := max info.size (u64 (offset + done)) }
    (some ⟨if loop.2 then 0 else eio, done, (written.files i).size⟩, written)

/-! ## Getattr -/

/-- The outputs of `GetattrTask`. -/
structure Attr where
  exists_ : Bool
  isDir : Bool
  isSymlink : Bool
  size : ℕ
  ino : ℕ
deriving DecidableEq

/-- What is reported of a path that does not exist. -/
def Attr.absent : Attr := ⟨false, false, false, 0, 0⟩

/-- `InoFromTag` -/
def inoFromTag (t : TagId) : ℕ :=
  let packed := t.major * 2 ^ 32 + t.minor
  if packed = 0 then 1 else packed

/-- The two probes for a directory: its marker, then any child. -/
def isDirectory (c : Core) (dir : String) : Bool :=
  (c.tagQueryExact (dir ++ "/" ++ kDirMarker)).isSome || c.tagQueryChildren dir ≠ []

/-- The part of `Getattr` for a path that is not tracked. -/
def getattrUntracked : Attr × State :=
  let dir := stripTrailingSlash path
  if isDirectory s.core dir then
    let t := s.core.getOrCreateTag dir
    (⟨true, true, false, 0, inoFromTag t.1⟩, { s with core := t.2 })
  else
    match s.core.tagQueryExact path with
    | none => (Attr.absent, s)
    | some id =>
      let link := (s.core.getBlobSize id symlinkMarker).getD 0
      let size := (s.core.getTagSize id).getD 0
      (⟨true, false, 0 < link, if 0 < link then link else size, inoFromTag id⟩, s)

/-- `Getattr` -/
def getattr : Attr × State :=
  if baseName path = kDirMarker then (Attr.absent, s)
  else
    match s.byPath.lookup path with
    | none => s.getattrUntracked path
    | some i =>
      let info := s.files i
      if info.tagId ≠ .null ∧ s.core.getTagSize info.tagId = none then
        { s with byPath := s.byPath.erase path }.getattrUntracked path
      else (⟨true, false, false, info.size, inoFromTag info.tagId⟩, s)

/-! ## Truncate -/

/-- The blob operations of `Truncate`. -/
def trimPages (c : Core) (tagId : TagId) (oldSize newSize : ℕ) : Core :=
  if tagId = .null then c
  else if newSize < oldSize then
    let boundaryPage := newSize / kFsPageSize
    let lastPage := (oldSize - 1) / kFsPageSize
    (List.range' (boundaryPage + 1) (lastPage - boundaryPage)).foldl
      (fun c p => c.delBlob tagId (toString p))
      (c.truncateBlob tagId (toString boundaryPage) (newSize % kFsPageSize))
  else c.truncateBlob tagId (toString (newSize / kFsPageSize + 1)) 0

/-- `Truncate` of a path that is not tracked: its tag is created if need be.  `oldSize` is used if
the core does not know the size. -/
def truncateUntracked (oldSize newSize : ℕ) : State :=
  let t := s.core.getOrCreateTag path
  let oldSize := (t.2.getTagSize t.1).getD oldSize
  let found : State := { s with core := t.2 }
  let tracked := match found.byPath.lookup path with
    | none => (found.track ⟨t.1, path, newSize⟩).2
    | some i => found.modifyFile i fun info => { info with tagId := t.1, size := newSize }
  { tracked with core := trimPages tracked.core t.1 oldSize newSize }

/-- `Truncate`; its return code is 0. -/
def truncate (newSize : ℕ) : State :=
  match s.byPath.lookup path with
  | none => s.truncateUntracked path 0 newSize
  | some i =>
    let info := s.files i
    let sized := s.modifyFile i fun info => { info with size := newSize }
    if info.tagId = .null then sized.truncateUntracked path info.size newSize
    else { sized with core := trimPages sized.core info.tagId info.size newSize }

end State

end ClioCore.Filesystem
