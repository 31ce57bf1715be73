import ClioCore.Foundations.Paged
import ClioCore.Cte.Tags

/-!
# The filesystem module and the core it is built on

A file is a tag of the context transfer engine whose name is the path of the file; its content is
cut into pages of 1 MiB, each a blob of the tag with the number of the page for its name.  The
runtime of `filesystem_runtime.cc` keeps the logical size of a file in a `FileInfo`, which is shared
by the table of paths (`by_path_`) and the tables of handles (`handles_`); a `FileInfo` is a heap
object here too.

`Core` is what the module sees of the engine: its tag table, with the tag operations of
`ClioCore.Cte.Tags`, and its blobs.  A blob is a byte array whose holes read as zeros, and the size
of a tag is the sum of the sizes of its blobs.  The arguments that the engine refuses are refused
here; apart from that its blob operations succeed.

Modes, owners, times and inode overrides of a file and its record in shared memory are left out: no
function here reads them back.  Handles and object addresses are not reused.
-/

namespace ClioCore.Filesystem

open Foundations Cte

/-- `kFsPageSize` -/
def kFsPageSize : ℕ := 1024 * 1024

/-- `kDirMarker` -/
def kDirMarker : String := ".__clio_dir__"

/-- `TsTouchBlob` -/
def tsTouchBlob : String := "__clio_ts_touch__"

/-- `SymlinkMarker` -/
def symlinkMarker : String := "__clio_symlink__"

/-! ## Paths -/

variable (p : String)

/-- `StripTrailingSlash` -/
def stripTrailingSlash : String :=
  if 1 < p.toList.length ∧ p.toList.getLast? = some '/' then String.ofList p.toList.dropLast else p

/-- `ParentDir` -/
def parentDir : String :=
  let above := (((stripTrailingSlash p).toList.reverse.dropWhile (· ≠ '/')).drop 1).reverse
  if above = [] then "/" else String.ofList above

/-- What follows the last slash. -/
def baseName : String := String.ofList (p.toList.reverse.takeWhile (· ≠ '/')).reverse

/-! ## The core -/

/-- The context transfer engine as the filesystem sees it. -/
structure Core where
  tags : TagTable
  blobs : AList (fun _ : BlobKey => List UInt8)

namespace Core

/-- The tag that a path is bound to. -/
def findTag (t : TagTable) (path : String) : Option TagId :=
  if isHierPath path then (t.names.lookup "/").bind fun root =>
    t.walk root (splitPathComponents path)
  else t.names.lookup path

variable (c : Core) (tagId : TagId) (name : String)

/-- `TagQuery` of `ExactRe(path)`: the id of the tag with this name. -/
def tagQueryExact (path : String) : Option TagId :=
  (findTag c.tags path).filter fun id => id ≠ .null

/-- `TagQuery` of `"^" + EscapeExact(dir) + "/[^/]+$"`: the names of the children. -/
def tagQueryChildren (dir : String) : List String :=
  (c.tags.search.keys.filter fun key =>
    (dir ++ "/").toList <+: key.toList ∧ key.toList.drop (dir.toList.length + 1) ≠ [] ∧
      '/' ∉ key.toList.drop (dir.toList.length + 1)).insertionSort (· ≤ ·)

/-- `GetOrCreateTag` -/
def getOrCreateTag (c : Core) (path : String) : TagId × Core :=
  let t := c.tags.getOrCreateTag path .null
  (t.1, { c with tags := t.2 })

/-- `GetTagSize`; none if there is no such tag. -/
def getTagSize : Option ℕ :=
  if c.tags.Has tagId then
    some (tally c.blobs fun key bytes => if key.tag = tagId then bytes.length else 0)
  else none

/-- The bytes of a blob, none of them if it is not there. -/
def content : List UInt8 :=
  (c.blobs.lookup ⟨tagId, name⟩).getD []

/-- `PutBlob`: the return code and the core. -/
def putBlob (off : ℕ) (data : List UInt8) : ℕ × Core :=
  if data = [] then (2, c)
  else if name = "" then (4, c)
  else (0, { c with
    blobs := c.blobs.insert ⟨tagId, name⟩ (overwrite 0 (c.content tagId name) off data) })

/-- What `GetBlob` leaves in a buffer of `n` zeros. -/
def getBlob (off n : ℕ) : List UInt8 :=
  let bytes := ((c.content tagId name).drop off).take n
  bytes ++ List.replicate (n - bytes.length) 0

/-- `GetBlobSize`; none if there is no such blob. -/
def getBlobSize : Option ℕ :=
  (c.blobs.lookup ⟨tagId, name⟩).map List.length

/-- `TruncateBlob`: a blob that is not there is not created. -/
def truncateBlob (n : ℕ) : Core :=
  match c.blobs.lookup ⟨tagId, name⟩ with
  | none => c
  | some bytes => { c with blobs := c.blobs.insert ⟨tagId, name⟩ (resize 0 bytes n) }

/-- `DelBlob` -/
def delBlob : Core :=
  { c with blobs := c.blobs.erase ⟨tagId, name⟩ }

/-- `CLIO_FS_TOUCH_DIR` -/
def touchDir (dir : String) : Core :=
  let t := c.getOrCreateTag dir
  t.2.truncateBlob t.1 tsTouchBlob 0

/-- The pages of a file. -/
def pages (p : ℕ) : List UInt8 := c.content tagId (toString p)

end Core

/-! ## The runtime -/

/-- `FileInfo` -/
structure FileInfo where
  tagId : TagId
  path : String
  /-- The logical size. -/
  size : ℕ
deriving DecidableEq, Inhabited

/-- `AppendEntry` -/
structure AppendEntry where
  dataBlobId : String
  dataBlobSize : ℕ
  utcNs : ℕ
  logical : ℕ
deriving DecidableEq

/-- `PendingAppend` -/
structure PendingAppend where
  tagId : TagId
  entry : AppendEntry
deriving DecidableEq

/-- A filesystem container. -/
structure State where
  core : Core
  /-- The `FileInfo` objects, by address. -/
  files : ℕ → FileInfo
  nextFile : ℕ
  /-- `by_path_` -/
  byPath : AList (fun _ : String => ℕ)
  /-- `handles_` -/
  handles : AList (fun _ : ℕ => ℕ)
  nextHandle : ℕ
  nodeId : ℕ
  /-- `staging_tag_id_` -/
  stagingTag : TagId
  /-- `append_pending_` -/
  appendPending : List PendingAppend
  /-- `append_logical_` -/
  appendLogical : ℕ

namespace State

/-- `Create` over a core that has just been created. -/
def create (nodeId : ℕ) : State :=
  let staging := (⟨.init nodeId, ∅⟩ : Core).getOrCreateTag "_clio_append_staging"
  let xattr := staging.2.getOrCreateTag "_clio_xattr_store"
  { core := xattr.2, files := fun _ => default, nextFile := 0, byPath := ∅, handles := ∅,
    nextHandle := 1, nodeId := nodeId, stagingTag := staging.1, appendPending := [],
    appendLogical := 0 }

variable (s : State)

/-- A new `FileInfo`, tracked under its path. -/
def track (info : FileInfo) : ℕ × State :=
  (s.nextFile, { s with
    files := Function.update s.files s.nextFile info
    nextFile := s.nextFile + 1
    byPath := s.byPath.insert info.path s.nextFile })

/-- A `FileInfo` is changed. -/
def modifyFile (i : ℕ) (f : FileInfo → FileInfo) : State :=
  { s with files := Function.update s.files i (f (s.files i)) }

/-- The `FileInfo` of a handle (`CLIO_FS_LOOKUP`). -/
def lookupHandle (handle : ℕ) : Option ℕ := s.handles.lookup handle

end State

end ClioCore.Filesystem
