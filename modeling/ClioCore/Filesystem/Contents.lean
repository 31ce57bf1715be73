import ClioCore.Filesystem.Pages

/-!
# The content of a file

Operations on one path, each completed before the next, against a POSIX file: a byte array that may
not exist yet, with the handles that are open on it.  `FileOp.run` is what the filesystem answers
and `FileOp.posix` what the reference does.  The two agree as long as every operation is regular.

What is not regular: a write of no bytes beyond the end of the file, which makes the file longer
here; a truncate of a file that does not exist, which creates it here; and a range whose end is no
`u64`.
-/

namespace ClioCore.Filesystem

open Foundations Cte Option State List AList

/-! ## The operations -/

/-- Operations on one path. -/
inductive FileOp
  /-- `Open` with `O_CREAT`. -/
  | openCreat
  | close (handle : ℕ)
  | read (handle offset size : ℕ)
  | write (handle offset : ℕ) (data : List UInt8)
  | truncate (newSize : ℕ)
  | getattr
deriving DecidableEq

/-- What a caller sees of the outcome. -/
inductive FileReply
  | opened (handle size : ℕ)
  | closed
  /-- `EBADF` -/
  | badHandle
  | bytes (data : List UInt8)
  | written (count size : ℕ)
  /-- `EIO` -/
  | failed
  | truncated
  /-- `ENOENT` -/
  | noEntry
  /-- The size of a regular file. -/
  | attr (size : ℕ)
  /-- The attributes of something else. -/
  | other
deriving DecidableEq

namespace FileOp

/-- The operation, carried out by the filesystem. -/
def run (path : String) (s : State) : FileOp → FileReply × State
  | openCreat => ((fun r => (.opened r.1.handle r.1.size, r.2)) (s.openFile path true))
  | close handle => (.closed, s.close handle)
  | read handle offset size =>
    (match s.read handle offset size with
      | none => .badHandle
      | some data => .bytes data, s)
  | write handle offset data =>
    (fun r => (match r.1 with
      | none => .badHandle
      | some w => if w.rc = 0 then .written w.bytesWritten w.newSize else .failed, r.2))
      (s.write handle offset data)
  | truncate newSize => (.truncated, s.truncate path newSize)
  | getattr =>
    (fun r => (if r.1.exists_ = false then .noEntry
      else if r.1.isDir ∨ r.1.isSymlink then .other else .attr r.1.size, r.2)) (s.getattr path)

end FileOp

/-! ## The reference -/

/-- A POSIX file. -/
structure PosixFile where
  /-- None if there is no such file. -/
  content : Option (List UInt8)
  /-- The open handles. -/
  handles : List ℕ
  nextHandle : ℕ

namespace PosixFile

/-- A file that does not exist yet. -/
def absent : PosixFile := ⟨none, [], 1⟩

/-- The bytes of the file. -/
def bytes (f : PosixFile) : List UInt8 := f.content.getD []

/-- A write of no bytes has no effect. -/
def written (l : List UInt8) (offset : ℕ) (data : List UInt8) : List UInt8 :=
  if data = [] then l else overwrite 0 l offset data

end PosixFile

namespace FileOp

/-- The operation, carried out on a POSIX file. -/
def posix (f : PosixFile) : FileOp → FileReply × PosixFile
  | openCreat =>
    (.opened f.nextHandle f.bytes.length,
      ⟨some f.bytes, f.nextHandle :: f.handles, f.nextHandle + 1⟩)
  | close handle => (.closed, { f with handles := f.handles.filter (· ≠ handle) })
  | read handle offset size =>
    (if handle ∈ f.handles then .bytes ((f.bytes.drop offset).take size) else .badHandle, f)
  | write handle offset data =>
    if handle ∈ f.handles then
      let new := PosixFile.written f.bytes offset data
      (.written data.length new.length, { f with content := some new })
    else (.badHandle, f)
  | truncate newSize =>
    match f.content with
    | none => (.noEntry, f)
    | some l => (.truncated, { f with content := some (resize 0 l newSize) })
  | getattr =>
    (match f.content with
      | none => .noEntry
      | some l => .attr l.length, f)

/-- The operation does none of the things in which the filesystem departs from POSIX. -/
def regular (f : PosixFile) : FileOp → Bool
  | read handle offset size => handle ∈ f.handles → offset + size < 2 ^ 64
  | write handle offset data => handle ∈ f.handles →
      offset + data.length < 2 ^ 64 ∧ (data = [] → offset ≤ f.bytes.length)
  | truncate _ => f.content.isSome
  | _ => true

end FileOp

/-! ## A filesystem without files -/

/-- The names of the two tags that the filesystem keeps for itself. -/
def reservedNames : List String := ["_clio_append_staging", "_clio_xattr_store"]

/-- The names that are bound when the filesystem has been created. -/
lemma names_create (nodeId : ℕ) {key : String} (h : key ∉ reservedNames) :
    (create nodeId).core.tags.names.lookup key = none := by
  rw [reservedNames, mem_cons, mem_singleton, not_or] at h
  have hns : (create nodeId).core.tags.names
      = ((∅ : AList fun _ : String => TagId).insert "_clio_append_staging" ⟨nodeId, 1⟩).insert
        "_clio_xattr_store" ⟨nodeId, 2⟩ := rfl
  rw [hns, lookup_insert_ne h.2, lookup_insert_ne h.1, lookup_empty]

lemma keys_search_create (nodeId : ℕ) : (create nodeId).core.tags.search.keys
    = ["_clio_xattr_store", "_clio_append_staging"] := rfl

lemma notMem_reservedNames {key : String} (h : '/' ∈ key.toList) : key ∉ reservedNames := by
  intro hkey
  rw [reservedNames, mem_cons, mem_singleton] at hkey
  rcases hkey with rfl | rfl <;> simp at h

lemma tagQueryExact_create (nodeId : ℕ) {path : String} (h : path ∉ reservedNames) :
    (create nodeId).core.tagQueryExact path = none := by
  rw [Core.tagQueryExact, Core.findTag, names_create nodeId h,
    names_create nodeId (notMem_reservedNames (by decide)), bind_none, ite_self, filter_none]

lemma isDirectory_create (nodeId : ℕ) (dir : String) :
    isDirectory (create nodeId).core dir = false := by
  have hmk : dir ++ "/" ++ kDirMarker ∉ reservedNames := notMem_reservedNames (by simp)
  have hchs : (create nodeId).core.tagQueryChildren dir = [] := by
    rw [Core.tagQueryChildren, keys_search_create, filter_eq_nil_iff.mpr]
    · rfl
    · intro key hkey hch
      have hsl : '/' ∈ key.toList :=
        (of_decide_eq_true hch).1.subset (by simp)
      have hno : ∀ k ∈ ["_clio_xattr_store", "_clio_append_staging"], '/' ∉ k.toList := by decide
      exact hno key hkey hsl
  rw [isDirectory, tagQueryExact_create nodeId hmk, hchs]
  rfl

lemma tidy_create (nodeId : ℕ) : Tidy (create nodeId).core.tags := by
  have hmnr : ((TagTable.init nodeId).getOrCreateTag "_clio_append_staging" .null).2.nextMinor =
      2 := rfl
  refine ((tidy_init nodeId).getOrCreateTag "_clio_append_staging" ?_).getOrCreateTag
    "_clio_xattr_store" ?_
  · show 1 + (splitPathComponents "_clio_append_staging").length + 1 < 2 ^ 32
    decide
  · rw [hmnr]
    decide

/-! ## Agreement -/

/-- The file with this path is `info`, and its content is `l`. -/
structure Serves (c : Core) (path : String) (info : FileInfo) (l : List UInt8) : Prop where
  found : Core.findTag c.tags path = some info.tagId
  id : info.tagId ≠ .null
  has : c.tags.Has info.tagId
  size : info.size = l.length
  holds : c.Holds info.tagId l

/-- The handles `hs`, and no others, lead to the `FileInfo` at `i`. -/
def Leads (handles : AList (fun _ : ℕ => ℕ)) (hs : List ℕ) (i : ℕ) : Prop :=
  ∀ h, handles.lookup h = if h ∈ hs then some i else none

/-- The state of the filesystem agrees with the reference. -/
structure Agrees (nodeId : ℕ) (path : String) (s : State) (f : PosixFile) : Prop where
  next : s.nextHandle = f.nextHandle
  /-- As long as there is no file, nothing has happened. -/
  unborn : f.content = none → s.core = (State.create nodeId).core ∧ s.byPath.lookup path = none ∧
    (∀ i, Leads s.handles [] i) ∧ f.handles = []
  /-- Handles and path lead to one and the same `FileInfo`. -/
  served : ∀ l, f.content = some l → ∃ i, s.byPath.lookup path = some i ∧
    Leads s.handles f.handles i ∧ Serves s.core path (s.files i) l

variable {nodeId : ℕ} {path : String} {s : State} {f : PosixFile} {c : Core} {info : FileInfo}
  {l l' : List UInt8} {handles : AList (fun _ : ℕ => ℕ)} {hs : List ℕ} {i : ℕ}

lemma Leads.insert (h : Leads handles hs i) (new : ℕ) : Leads (handles.insert new i)
    (new :: hs) i := by
  intro h'
  obtain rfl | hne := eq_or_ne h' new
  · rw [lookup_insert, if_pos mem_cons_self]
  · rw [lookup_insert_ne hne, h]
    exact if_congr (by simp [hne]) rfl rfl

lemma Leads.erase (h : Leads handles hs i) (gone : ℕ) :
    Leads (handles.erase gone) (hs.filter (· ≠ gone)) i := by
  intro h'
  obtain rfl | hne := eq_or_ne h' gone
  · rw [lookup_erase, if_neg (by simp)]
  · rw [lookup_erase_ne hne, h]
    exact if_congr (by simp [hne]) rfl rfl

lemma Serves.tagQueryExact (h : Serves c path info l) : c.tagQueryExact path = some info.tagId := by
  rw [Core.tagQueryExact, h.found, filter_some, if_pos (decide_eq_true h.id)]

lemma Serves.getTagSize (h : Serves c path info l) : c.getTagSize info.tagId ≠ none := by
  rw [Core.getTagSize, if_pos h.has]
  exact some_ne_none _

/-- The pages and the size change together. -/
lemma Serves.update (h : Serves c path info l) {c' : Core} (hsm : Core.SameBut info.tagId c c')
    (hhd : c'.Holds info.tagId l') : Serves c' path { info with size := l'.length } l' where
  found := by rw [hsm.tags]; exact h.found
  id := h.id
  has := by rw [hsm.tags]; exact h.has
  size := rfl
  holds := hhd

/-- The first `Open` creates an empty file. -/
lemma open_unborn (hpath : path ∉ reservedNames)
    (hdepth : (splitPathComponents path).length + 5 ≤ 2 ^ 32)
    (hcr : s.core = (create nodeId).core) (hlk : s.byPath.lookup path = none) :
    ∃ i s', s.openFile path true = (⟨s.nextHandle, 0, true⟩, s') ∧
    s'.nextHandle = s.nextHandle + 1 ∧
      s'.byPath.lookup path = some i ∧ s'.handles = s.handles.insert s.nextHandle i ∧
      Serves s'.core path (s'.files i) [] := by
  have hque : s.core.tagQueryExact path = none := by
    rw [hcr]
    exact tagQueryExact_create nodeId hpath
  have hbls : s.core.blobs = ∅ := by
    rw [hcr]
    rfl
  have htidy : Tidy (s.core.tags.getOrCreateTag path .null).2 := by
    rw [hcr]
    refine (tidy_create nodeId).getOrCreateTag path ?_
    have hmnr : (create nodeId).core.tags.nextMinor = 3 := rfl
    omega
  have hfd := findTag_getOrCreateTag s.core.tags path
  have hext := extends_getOrCreateTag (s.core.tags.getOrCreateTag path .null).2 (parentDir path)
  have hsz : ((s.core.getOrCreateTag path).2.getTagSize (s.core.getOrCreateTag path).1).getD 0 =
      0 := by
    rw [Core.getTagSize]
    split_ifs
    · rw [getD_some]
      show tally s.core.blobs _ = 0
      rw [hbls]
      rfl
    · rfl
  unfold openFile
  simp only [hque, hsz, bindFile, hlk, filter_none, track,
    isSome_none, Bool.true_eq_false, and_false, if_false, Bool.false_eq_true, Function.update_self,
    Bool.not_false]
  refine ⟨s.nextFile, _, rfl, rfl, lookup_insert _, rfl, ?_⟩
  simp only [Function.update_self]
  constructor
  · rw [Core.tags_touchDir]
    exact hext.findTag hfd
  · exact (htidy.findTag hfd).2
  · rw [Core.tags_touchDir]
    exact hext.has _ (htidy.findTag hfd).1
  · rfl
  · rw [Core.Holds, Core.pages_touchDir]
    have hpgs : (s.core.getOrCreateTag path).2.pages (s.core.getOrCreateTag path).1 = fun _ =>
        [] := by
      funext p
      show (s.core.blobs.lookup _).getD [] = []
      rw [hbls, lookup_empty, getD_none]
    rw [hpgs]
    exact paged_nil

lemma PosixFile.bytes_eq (h : f.content = some l) : f.bytes = l := by
  rw [PosixFile.bytes, h, getD_some]

/-- The filesystem answers like the reference, and the two agree afterwards. -/
def FileOp.Simulated (nodeId : ℕ) (path : String) (s : State) (f : PosixFile)
    (op : FileOp) : Prop :=
  (op.run path s).1 = (op.posix f).1 ∧ Agrees nodeId path (op.run path s).2 (op.posix f).2

open FileOp (Simulated)
open PosixFile (absent bytes_eq)
open FileOp (posix run)

section

variable (h : Agrees nodeId path s f)
include h

lemma Agrees.openCreat (hpath : path ∉ reservedNames)
    (hdepth : (splitPathComponents path).length + 5 ≤ 2 ^ 32) :
    Simulated nodeId path s f .openCreat := by
  cases hct : f.content with
  | none =>
    obtain ⟨hcr, hlk, hld, hno⟩ := h.unborn hct
    obtain ⟨i, s', hopen, hnx, hpath', hhan', hsv⟩ := open_unborn hpath hdepth hcr hlk
    have hby : f.bytes = [] := by rw [PosixFile.bytes, hct, getD_none]
    simp only [Simulated, run, posix, hopen, h.next, hby, length_nil, hno]
    refine ⟨trivial, ⟨hnx.trans (by rw [h.next]), by simp, ?_⟩⟩
    intro l hl
    obtain rfl : [] = l := some.inj hl
    refine ⟨i, hpath', ?_, hsv⟩
    rw [hhan', h.next]
    exact (hld i).insert f.nextHandle
  | some l =>
    obtain ⟨i, hlk, hld, hsv⟩ := h.served l hct
    have hcre : s.core.getOrCreateTag path = ((s.files i).tagId, s.core) := by
      rw [Core.getOrCreateTag, getOrCreateTag_of_findTag hsv.found]
    simp only [Simulated, run, posix, openFile, hsv.tagQueryExact, hcre, bindFile, hlk,
      filter_some, h.next, bytes_eq hct]
    refine ⟨by simp [hsv.size], ⟨rfl, by simp, ?_⟩⟩
    intro l' hl'
    obtain rfl : l = l' := some.inj hl'
    exact ⟨i, hlk, hld.insert f.nextHandle, hsv⟩

lemma Agrees.close (handle : ℕ) :
    Agrees nodeId path ((FileOp.close handle).run path s).2 ((FileOp.close handle).posix f).2 := by
  simp only [run, posix, State.close]
  refine ⟨h.next, fun hno => ?_, fun l hl => ?_⟩
  · obtain ⟨hcr, hlk, hld, hemp⟩ := h.unborn hno
    refine ⟨hcr, hlk, fun i => (hld i).erase handle, ?_⟩
    rw [hemp, filter_nil]
  · obtain ⟨i, hlk, hld, hsv⟩ := h.served l hl
    exact ⟨i, hlk, hld.erase handle, hsv⟩

/-- The `FileInfo` of a handle. -/
lemma Agrees.lookupHandle (handle : ℕ) : (handle ∉ f.handles ∧ s.lookupHandle handle = none) ∨
    ∃ i l, handle ∈ f.handles ∧ f.content = some l ∧ s.lookupHandle handle = some i ∧
      s.byPath.lookup path = some i ∧ Leads s.handles f.handles i ∧
      Serves s.core path (s.files i) l := by
  cases hct : f.content with
  | none =>
    obtain ⟨-, -, hld, hno⟩ := h.unborn hct
    refine .inl ⟨by rw [hno]; exact not_mem_nil, ?_⟩
    rw [State.lookupHandle, hld 0, if_neg not_mem_nil]
  | some l =>
    obtain ⟨i, hlk, hld, hsv⟩ := h.served l hct
    by_cases hmem : handle ∈ f.handles
    · have hi : s.lookupHandle handle = some i := by rw [State.lookupHandle, hld, if_pos hmem]
      exact .inr ⟨i, l, hmem, rfl, hi, hlk, hld, hsv⟩
    · exact .inl ⟨hmem, by rw [State.lookupHandle, hld, if_neg hmem]⟩

lemma Agrees.read {handle offset size : ℕ}
    (hok : (FileOp.read handle offset size).regular f = true) :
    ((FileOp.read handle offset size).run path s).1 =
    ((FileOp.read handle offset size).posix f).1 := by
  rcases h.lookupHandle handle with ⟨hmem, hno⟩ | ⟨i, l, hmem, hl, hi, -, -, hsv⟩
  · simp [run, posix, State.read, hno, if_neg hmem]
  · have hrg : offset + size < 2 ^ 64 := of_decide_eq_true hok hmem
    simp [run, posix, read_eq hi hsv.holds hsv.size hrg, if_pos hmem, bytes_eq hl]

/-- A new content, stored in the `FileInfo` of the file. -/
lemma Agrees.update (hlk : s.byPath.lookup path = some i) (hld : Leads s.handles f.handles i)
    (hsv : Serves s.core path (s.files i) l) (hsm : Core.SameBut (s.files i).tagId s.core c)
    (hhd : c.Holds (s.files i).tagId l') :
    Agrees nodeId path ({ s with core := c }.modifyFile i fun info =>
      { info with size := l'.length }) { f with content := some l' } := by
  refine ⟨h.next, by simp, fun l'' hl'' => ?_⟩
  obtain rfl : l' = l'' := some.inj hl''
  refine ⟨i, hlk, hld, ?_⟩
  simp only [modifyFile, Function.update_self]
  exact hsv.update hsm hhd

end

/-- A write of no bytes inside a file leaves it as it is. -/
lemma written_eq_overwrite {offset : ℕ} {data : List UInt8} (h : data = [] → offset ≤ l.length) :
    PosixFile.written l offset data = overwrite 0 l offset data := by
  unfold PosixFile.written
  split_ifs with hdt
  · rw [hdt]
    refine ext_getD 0 ?_ fun j _ => ?_
    · rw [length_overwrite, length_nil]
      have := h hdt
      omega
    · rw [getD_overwrite, if_neg (by simp)]
  · rfl

lemma Agrees.write (h : Agrees nodeId path s f) {handle offset : ℕ} {data : List UInt8}
    (hok : (FileOp.write handle offset data).regular f = true) :
    Simulated nodeId path s f (.write handle offset data) := by
  rcases h.lookupHandle handle with ⟨hmem, hno⟩ | ⟨i, l, hmem, hl, hi, hlk, hld, hsv⟩
  · simp only [Simulated, run, posix, State.write, hno, if_neg hmem]
    exact ⟨trivial, h⟩
  · obtain ⟨hrg, hemp⟩ := of_decide_eq_true hok hmem
    rw [bytes_eq hl] at hemp
    obtain ⟨c, hwr, hsm, hhd⟩ := write_eq hi hsv.holds hsv.size hrg
    simp only [Simulated, run, posix, hwr, if_pos hmem, bytes_eq hl,
      written_eq_overwrite hemp, if_true]
    exact ⟨trivial, h.update hlk hld hsv hsm hhd⟩

lemma Agrees.truncate (h : Agrees nodeId path s f) {newSize : ℕ}
    (hok : (FileOp.truncate newSize).regular f = true) :
    Simulated nodeId path s f (.truncate newSize) := by
  obtain ⟨l, hl⟩ := isSome_iff_exists.mp hok
  obtain ⟨i, hlk, hld, hsv⟩ := h.served l hl
  obtain ⟨hsm, hhd⟩ := hsv.holds.trim hsv.id newSize
  have hrun : s.truncate path newSize =
      { s with core := trimPages s.core (s.files i).tagId l.length newSize }.modifyFile i
        fun info => { info with size := (resize 0 l newSize).length } := by
    unfold State.truncate
    simp [hlk, hsv.size, if_neg hsv.id, modifyFile]
  simp only [Simulated, run, posix, hl, hrun]
  exact ⟨trivial, h.update hlk hld hsv hsm hhd⟩

lemma Agrees.getattr (h : Agrees nodeId path s f) (hnm : baseName path ≠ kDirMarker)
    (hpath : path ∉ reservedNames) :
    (FileOp.getattr.run path s).1 = (FileOp.getattr.posix f).1 ∧
    (FileOp.getattr.run path s).2 = s := by
  cases hct : f.content with
  | none =>
    obtain ⟨hcr, hlk, -, -⟩ := h.unborn hct
    have hget : s.getattr path = (State.Attr.absent, s) := by
      unfold State.getattr
      rw [hlk]
      unfold getattrUntracked
      simp [hcr, isDirectory_create, tagQueryExact_create nodeId hpath]
    simp only [run, posix, hget, hct]
    exact ⟨rfl, trivial⟩
  | some l =>
    obtain ⟨i, hlk, -, hsv⟩ := h.served l hct
    have hget : s.getattr path = (⟨true, false, false, l.length, inoFromTag (s.files i).tagId⟩,
        s) := by
      unfold State.getattr
      rw [if_neg hnm, hlk]
      dsimp only
      rw [if_neg fun hsta => hsv.getTagSize hsta.2, hsv.size]
    simp only [run, posix, hget, hct]
    exact ⟨rfl, trivial⟩

/-- One operation. -/
lemma Agrees.step (hnm : baseName path ≠ kDirMarker) (hpath : path ∉ reservedNames)
    (hdepth : (splitPathComponents path).length + 5 ≤ 2 ^ 32) (h : Agrees nodeId path s f)
    {op : FileOp}
    (hok : op.regular f = true) :
    op.Simulated nodeId path s f := by
  cases op with
  | openCreat => exact h.openCreat hpath hdepth
  | close handle => exact ⟨rfl, h.close handle⟩
  | read handle offset size => exact ⟨h.read hok, h⟩
  | write handle offset data => exact h.write hok
  | truncate newSize => exact h.truncate hok
  | getattr =>
    obtain ⟨hrep, hstt⟩ := h.getattr hnm hpath
    exact ⟨hrep, hstt.symm ▸ h⟩

/-- **A file reads back as POSIX says.**  Whatever operations are carried out on one path from the
creation of the filesystem on, if each is regular then every reply, the bytes of reads and the size
that `Getattr` reports among them, is that of a POSIX file. -/
theorem answers_eq_posix_of_regular (nodeId : ℕ) (path : String)
    (hname : baseName path ≠ kDirMarker)
    (hpath : path ∉ reservedNames) (hdepth : (splitPathComponents path).length + 5 ≤ 2 ^ 32)
    (ops : List FileOp)
    (hok : Meets (fun f op => some (posix f op).2) (fun f op => op.regular f = true)
      absent ops) :
    answers (run path) (State.create nodeId) ops = answers posix absent ops := by
  have hst : Agrees nodeId path (State.create nodeId) absent :=
    ⟨rfl, fun _ => ⟨rfl, rfl, fun _ _ => rfl, rfl⟩, fun l hl => absurd hl (by simp [absent])⟩
  refine answers_eq_of_simulation (Agrees nodeId path) ?_ hst hok
  intro s f op h hop
  exact h.step hname hpath hdepth hop

/-- A file is written, cut, extended and written beyond its end. -/
def cutAndGrow : List FileOp :=
  [.getattr, .openCreat, .write 1 0 [1, 2, 3], .truncate 1, .truncate 3, .write 1 5 [9],
    .read 1 0 100, .getattr, .close 1, .read 1 0 1, .openCreat, .read 2 4 1]

theorem answers_eq_posix_cutAndGrow : baseName "/dir/file" ≠ kDirMarker ∧
    "/dir/file" ∉ reservedNames ∧ (splitPathComponents "/dir/file").length + 5 ≤ 2 ^ 32 ∧
    Meets (fun f op => some (posix f op).2) (fun f op => op.regular f = true)
      absent cutAndGrow ∧
    answers (run "/dir/file") (State.create 0) cutAndGrow
      = answers posix absent cutAndGrow ∧
    answers posix absent cutAndGrow
      = [.noEntry, .opened 1 0, .written 3 3, .truncated, .truncated, .written 1 6,
        .bytes [1, 0, 0, 0, 0, 9], .attr 6, .closed, .badHandle, .opened 2 6, .bytes [0]] := by
  have hname : baseName "/dir/file" ≠ kDirMarker := by decide
  have hpath : "/dir/file" ∉ reservedNames := by decide
  have hdepth : (splitPathComponents "/dir/file").length + 5 ≤ 2 ^ 32 := by decide
  have hok : Meets (fun f op => some (posix f op).2) (fun f op => op.regular f = true)
      absent cutAndGrow := by decide +kernel
  exact ⟨hname, hpath, hdepth, hok,
    answers_eq_posix_of_regular 0 "/dir/file" hname hpath hdepth cutAndGrow hok, by decide +kernel⟩

/-- A write of no bytes beyond the end of an empty file, and a look at its size. -/
def emptyWrite : List FileOp := [.openCreat, .write 1 5 [], .getattr]

/-- **The size grows without a byte being written.**  `Getattr` reports 5 where a POSIX file has
size 0. -/
theorem answers_emptyWrite :
    answers (run "/file") (State.create 0) emptyWrite = [.opened 1 0, .written 0 5, .attr 5] ∧
    answers posix absent emptyWrite = [.opened 1 0, .written 0 0, .attr 0] := by
  decide +kernel

end ClioCore.Filesystem
