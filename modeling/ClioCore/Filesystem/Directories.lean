import ClioCore.Filesystem.Contents

/-!
# Directories and hard links

`Link`, `Unlink`, `Mkdir`, `Rmdir` and `Rename` of `filesystem_runtime.cc`.  A directory is a tag
with children; `Mkdir` gives it a hidden one, `kDirMarker`, so that it has one when it is empty.  A
hard link is an alias of the tag of the file.

`DelTag` may not return (see `ClioCore.Cte.Tags`), so the operations that use it take its bound and
return none when it is used up.  The blobs of a deleted tag go with it.
-/

namespace ClioCore.Filesystem

open Foundations Cte

/-- `ENOENT` -/
def enoent : ℕ := 2

/-- `EEXIST` -/
def eexist : ℕ := 17

/-- `ENOTDIR` -/
def enotdir : ℕ := 20

/-- `EISDIR` -/
def eisdir : ℕ := 21

/-- `ENOTEMPTY` -/
def enotempty : ℕ := 39

namespace Core

/-- The blobs of the given tags are deleted. -/
def dropBlobs (c : Core) (ids : List TagId) : Core :=
  let gone := c.blobs.keys.filter fun key => key.tag ∈ ids
  { c with blobs := gone.foldl (fun blobs key => blobs.erase key) c.blobs }

/-- The tags that `DelTag` deletes with their blobs. -/
def deletedTags : TagTable.DelPlan → List TagId
  | .cascade _ _ toDelete _ => toDelete
  | _ => []

/-- The core with other tags, and without the blobs of those that are gone. -/
abbrev pruned (c : Core) (u : TagTable) (gone : List TagId) : Core :=
  ({ c with tags := u } : Core).dropBlobs gone

/-- `DelTag` of a path; the filesystem does not look at its return code. -/
def delTag (c : Core) (fuel : ℕ) (path : String) (posixUnlink : Bool) : Option Core :=
  (c.tags.delPlan fuel .null path posixUnlink).bind fun plan =>
    (c.tags.delTag fuel .null path posixUnlink).map fun t =>
      c.pruned t.2 (deletedTags plan)

/-- A child that is not the marker. -/
def hasRealChild (c : Core) (dir : String) : Bool :=
  (c.tagQueryChildren dir).any fun full =>
    String.ofList (full.toList.drop (dir.toList.length + 1)) ≠ kDirMarker

/-- `dst_state` -/
inductive DstState
  | absent
  | file
  | emptyDir
  | fullDir
deriving DecidableEq

/-- The destination of a rename is classified. -/
def dstState (c : Core) (dst : String) : DstState :=
  if c.tagQueryChildren dst ≠ [] then if c.hasRealChild dst then .fullDir else .emptyDir
  else if (c.tagQueryExact dst).isSome then .file else .absent

/-- The rules of POSIX for overwriting. -/
def refusal (srcIsDir : Bool) : DstState → Option ℕ
  | .absent => none
  | .file => if srcIsDir then some enotdir else none
  | .emptyDir => if srcIsDir then none else some eisdir
  | .fullDir => some (if srcIsDir then enotempty else eisdir)

end Core

namespace State

/-- `Link`: the return code and the state. -/
def link (s : State) (target link : String) : ℕ × State :=
  let target := stripTrailingSlash target
  let link := stripTrailingSlash link
  if (s.core.tagQueryExact link).isSome then (eexist, s)
  else
    let a := s.core.tags.getOrCreateTagAlias .null target link
    let c : Core := { s.core with tags := a.2 }
    if a.1.1 ≠ 0 then (eio, { s with core := c })
    else if a.1.2.1 then (0, { s with core := c.touchDir (parentDir link) })
    else (enoent, { s with core := c })

variable (s : State) (fuel : ℕ) (path : String)

/-- `Unlink` -/
def unlink : Option (ℕ × State) :=
  let path := stripTrailingSlash path
  if s.core.tagQueryChildren path ≠ [] then some (eisdir, s)
  else (s.core.delTag fuel path true).map fun c =>
    (0, { s with core := c.touchDir (parentDir path), byPath := s.byPath.erase path })

/-- `Mkdir` -/
def mkdir : ℕ × State :=
  let path := stripTrailingSlash path
  if s.core.tagQueryChildren path ≠ [] then (eexist, s)
  else if (s.core.tagQueryExact path).isSome then (eexist, s)
  else (0, { s with
    core := (s.core.getOrCreateTag (path ++ "/" ++ kDirMarker)).2.touchDir (parentDir path) })

/-- `Rmdir` -/
def rmdir : Option (ℕ × State) :=
  let path := stripTrailingSlash path
  if s.core.hasRealChild path then some (enotempty, s)
  else if s.core.tagQueryChildren path = [] then some (enoent, s)
  else (s.core.delTag fuel path false).map fun c =>
    (0, { s with core := c.touchDir (parentDir path) })

/-! ## Rename -/

/-- The source tag of a rename, null if there is none. -/
def sourceTag (src : String) : TagId × Core :=
  let tracked := ((s.byPath.lookup src).map fun i => (s.files i).tagId).getD .null
  if tracked ≠ .null then (tracked, s.core)
  else
    match s.core.tagQueryExact src with
    | none => (.null, s.core)
    | some _ => s.core.getOrCreateTag src

/-- The entry of `by_path_` moves to the new path. -/
def moveTracked (src dst : String) : State :=
  let byPath := s.byPath.erase dst
  match byPath.lookup src with
  | none => { s with byPath := byPath }
  | some i =>
    { s.modifyFile i (fun info => { info with path := dst }) with
      byPath := (byPath.insert dst i).erase src }

/-- Both parents are stamped. -/
def touchParents (c : Core) (src dst : String) : Core :=
  let c := c.touchDir (parentDir src)
  if parentDir dst ≠ parentDir src then c.touchDir (parentDir dst) else c

/-- `Rename` -/
def rename (src dst : String) : Option (ℕ × State) :=
  if src = dst then some (0, s)
  else
    let source := s.sourceTag src
    let c := source.2
    if source.1 = .null then some (enoent, { s with core := c })
    else
      match Core.refusal (c.tagQueryChildren src ≠ []) (c.dstState dst) with
      | some rc => some (rc, { s with core := c })
      | none =>
        (if c.dstState dst = .absent then some c else c.delTag fuel dst true).map fun c =>
          let renamed := c.tags.renameTag source.1 src dst
          let c : Core := { c with tags := renamed.2 }
          if renamed.1.1 ≠ 0 then (eio, { s with core := c })
          else
            let moved := { s with core := c }.moveTracked src dst
            (0, { moved with core := touchParents moved.core src dst })

end State

/-! ## Operations -/

/-- Operations on the filesystem. -/
inductive FsOp
  /-- An operation on a file; only `Open`, `Truncate` and `Getattr` use the path. -/
  | file (path : String) (op : FileOp)
  /-- `Open` without `O_CREAT`. -/
  | openExisting (path : String)
  | link (target name : String)
  | unlink (path : String)
  | mkdir (path : String)
  | rmdir (path : String)
  | rename (src dst : String)
deriving DecidableEq

/-- What a caller sees of the outcome. -/
inductive FsReply
  | file (reply : FileReply)
  | code (rc : ℕ)
deriving DecidableEq

namespace FsOp

/-- The operation, carried out by the filesystem; none if a `DelTag` does not return. -/
def run (fuel : ℕ) (s : State) : FsOp → Option (FsReply × State)
  | file path op => some ((fun r => (.file r.1, r.2)) (op.run path s))
  | openExisting path =>
    some ((fun r => (if r.1.handle = 0 then .code enoent else .file (.opened r.1.handle r.1.size),
      r.2)) (s.openFile path false))
  | .link target name => some ((fun r => (.code r.1, r.2)) (s.link target name))
  | unlink path => (s.unlink fuel path).map fun r => (.code r.1, r.2)
  | mkdir path => some ((fun r => (.code r.1, r.2)) (s.mkdir path))
  | rmdir path => (s.rmdir fuel path).map fun r => (.code r.1, r.2)
  | rename src dst => (s.rename fuel src dst).map fun r => (.code r.1, r.2)

/-- The state after the operation. -/
def next (fuel : ℕ) (s : State) (op : FsOp) : Option State := (op.run fuel s).map Prod.snd

end FsOp

end ClioCore.Filesystem
