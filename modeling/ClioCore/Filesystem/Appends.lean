import ClioCore.Filesystem.Pages

/-!
# Deferred appends

`Append` stores its bytes as a blob of the staging tag and answers at once; the logical size of the
file has then already grown.  `AppendSequence` hands the pending appends of a file to `AppendPlan`,
which puts them into the order of their stamps and lays them out from the end of the file on, page
by page; `AppendExecution` copies the staged bytes into the pages, slice by slice, and deletes the
staged blobs.

The end of the file is not taken from the logical size there.  `AppendPlan` asks the core for the
size of the tag, the sum of the sizes of the pages.  The appended bytes follow the content of the
file for every batch exactly if the two are equal, that is if every byte of the file is stored.

Batches of different files are independent of each other and are taken in the order of their first
append.  A buffer of `AppendExecution` is filled by its read, so that what was in it does not
matter.
-/

namespace ClioCore.Filesystem

open Foundations Cte List Nat Function AppendEntry

variable {off : ℕ} {es : List AppendEntry}

/-- `MakeDataBlobId` -/
def makeDataBlobId (nodeId logical : ℕ) : String :=
  "_append/" ++ toString nodeId ++ "." ++ toString logical

/-- `AppendPlanStep` -/
structure AppendPlanStep where
  filePage : ℕ
  dataBlobId : String
  offInPage : ℕ
  offInData : ℕ
  size : ℕ
  dataBlobSize : ℕ
deriving DecidableEq

/-- What the calls of a step come to. -/
inductive Outcome where
  | done
  /-- There is no buffer, or the write fails and leaves the page as it is. -/
  | stopped
  /-- The read fails, and the buffer held these bytes. -/
  | unread (held : List UInt8)
  /-- The write fails and leaves these bytes in its place. -/
  | torn (left : List UInt8)

/-- Where in the file the step writes. -/
def AppendPlanStep.position (step : AppendPlanStep) : ℕ :=
  step.filePage * kFsPageSize + step.offInPage

/-- The global order of appends: time first, then the logical counter. -/
def AppendEntry.before (a b : AppendEntry) : Prop :=
  a.utcNs < b.utcNs ∨ a.utcNs = b.utcNs ∧ a.logical ≤ b.logical

instance : DecidableRel before := fun _ _ => inferInstanceAs (Decidable (_ ∨ _))

namespace State

/-! ## Append -/

/-- The outputs of `AppendTask`. -/
structure AppendReply where
  rc : ℕ
  offset : ℕ
  bytesWritten : ℕ
  newSize : ℕ
deriving DecidableEq

/-- `EBADF` -/
def ebadf : ℕ := 9

/-- `Append` at the time `utcNs`. -/
def append (s : State) (handle : ℕ) (data : List UInt8) (utcNs : ℕ) : AppendReply × State :=
  match s.lookupHandle handle with
  | none => (⟨ebadf, 0, 0, 0⟩, s)
  | some i =>
    let logical := s.appendLogical + 1
    let dataBlobId := makeDataBlobId s.nodeId logical
    let p := s.core.putBlob s.stagingTag dataBlobId 0 data
    let staged : State := { s with core := p.2, appendLogical := logical }
    if p.1 ≠ 0 then (⟨eio, 0, 0, 0⟩, staged)
    else
      let newSize := u64 ((s.files i).size + data.length)
      let pending : PendingAppend :=
        ⟨(s.files i).tagId, ⟨dataBlobId, data.length, utcNs, logical⟩⟩
      let queued : State := { staged with appendPending := staged.appendPending ++ [pending] }
      (⟨0, u64 (newSize + 2 ^ 64 - data.length), data.length, newSize⟩,
        queued.modifyFile i fun info => { info with size := newSize })

/-! ## The merge -/

/-- The steps for one staged blob, from `fileOff` on. -/
def planEntry (fileOff : ℕ) (e : AppendEntry) : List AppendPlanStep :=
  (pageSpans e.dataBlobSize fileOff 0 e.dataBlobSize).map fun q =>
    ⟨q.page, e.dataBlobId, q.pageOff, q.done, q.len, e.dataBlobSize⟩

/-- The merge plan: the staged blobs one after another. -/
def planEntries : ℕ → List AppendEntry → List AppendPlanStep
  | _, [] => []
  | fileOff, e :: es => planEntry fileOff e ++ planEntries (u64 (fileOff + e.dataBlobSize)) es

/-- `kMaxExecBytes` -/
def kMaxExecBytes : ℕ := 16 * 1024 * 1024

/-- The step is the last one for its staged blob. -/
def atBlobBoundary (step : AppendPlanStep) : List AppendPlanStep → Bool
  | [] => true
  | next :: _ => next.dataBlobId ≠ step.dataBlobId

/-- The next slice of a plan and what is left of it: the slice ends where it is large enough and the
staged blob changes. -/
def takeSlice : ℕ → List AppendPlanStep → List AppendPlanStep × List AppendPlanStep
  | _, [] => ([], [])
  | bytes, step :: rest =>
    let bytes := u64 (bytes + step.size)
    if kMaxExecBytes ≤ bytes ∧ atBlobBoundary step rest then ([step], rest)
    else
      let slice := takeSlice bytes rest
      (step :: slice.1, slice.2)

/-- The slices of a plan; there are no more of them than steps. -/
def slices : ℕ → List AppendPlanStep → List (List AppendPlanStep)
  | 0, _ => []
  | _ + 1, [] => []
  | fuel + 1, step :: rest =>
    let slice := takeSlice 0 (step :: rest)
    slice.1 :: slices fuel slice.2

section

variable (fate : AppendPlanStep → Outcome) (tagId staging : TagId) (c : Core)

/-- The bytes that are staged for a step. -/
def stagedBytes (step : AppendPlanStep) : List UInt8 :=
  c.getBlob staging step.dataBlobId step.offInData step.size

/-- What a step writes to its page, if anything, and whether the loop goes on.  The answer of the
read is not looked at. -/
def stepWrite (step : AppendPlanStep) : Option (List UInt8) × Bool :=
  match fate step with
  | .done => (some (stagedBytes staging c step), true)
  | .unread held => (some (window 0 held 0 step.size), true)
  | .torn left => (some (window 0 left 0 step.size), false)
  | .stopped => (none, false)

/-- One round of the loop of `AppendExecution`. -/
def execStep (step : AppendPlanStep) : Core × Bool :=
  match stepWrite fate staging c step with
  | (none, ok) => (c, ok)
  | (some buf, ok) =>
    let p := c.putBlob tagId (toString step.filePage) step.offInPage buf
    (p.2, p.1 = 0 ∧ ok)

/-- `AppendExecution`: the return code and the core. -/
def appendExecution (steps : List AppendPlanStep) : ℕ × Core :=
  let loop := loopWhile (execStep fate tagId staging) steps c
  let seen := (steps.map AppendPlanStep.dataBlobId).eraseDups
  (if loop.2 then 0 else eio, seen.foldl (fun c id => c.delBlob staging id) loop.1)

/-- The slices into which `AppendPlan` cuts its plan. -/
def planSlices (entries : List AppendEntry) : List (List AppendPlanStep) :=
  let sorted := entries.insertionSort before
  let curSize := (c.getTagSize tagId).getD 0
  let plan := planEntries curSize sorted
  slices plan.length plan

/-- `AppendPlan` -/
def appendPlan (entries : List AppendEntry) : Core :=
  (planSlices tagId c entries).foldl (fun c slice => (appendExecution fate tagId staging c slice).2)
    c

end

/-- `AppendSequence`, with the `AppendCollect` of each file; all calls to the core succeed. -/
def appendSequence (s : State) : State :=
  let drained := s.appendPending
  let byTag := (drained.map PendingAppend.tagId).eraseDups
  { s with
    appendPending := []
    core := byTag.foldl (fun c tagId => appendPlan (fun _ => .done) tagId s.stagingTag c
      ((drained.filter fun pa => pa.tagId = tagId).map PendingAppend.entry)) s.core }

end State

/-! ## Batches -/

/-- A call of `Append`. -/
structure AppendCall where
  handle : ℕ
  data : List UInt8
  utcNs : ℕ
deriving DecidableEq

variable (logical : ℕ) (s : State) (calls : List AppendCall)

/-- The call, carried out. -/
def AppendCall.run (call : AppendCall) : State.AppendReply × State :=
  s.append call.handle call.data call.utcNs

/-- The state after a batch of calls. -/
def appendAll : State :=
  calls.foldl (fun s call => (call.run s).2) s

/-- The calls with their logical stamps, in the order of their stamps. -/
def inOrder : List (AppendCall × ℕ) :=
  (calls.zipIdx logical).insertionSort fun a b =>
    a.1.utcNs < b.1.utcNs ∨ a.1.utcNs = b.1.utcNs ∧ a.2 ≤ b.2

/-- The bytes of a batch in the order of the stamps. -/
def appendedBytes : List UInt8 :=
  (inOrder logical calls).flatMap fun p => p.1.data

/-- The bytes that a batch appends. -/
def total : ℕ := (calls.map fun call => call.data.length).sum

/-- All calls are to the file `i` and are acknowledged. -/
structure Acknowledged (s : State) (i : ℕ) (calls : List AppendCall) : Prop where
  toFile : ∀ call ∈ calls, s.lookupHandle call.handle = some i
  rc : ∀ r ∈ answers AppendCall.run s calls, r.rc = 0

/-- Once the batch has drained, the file has grown by it and reads as it read before, followed by
the bytes of the batch in order. -/
def LandsAtEnd (handle i : ℕ) (calls : List AppendCall) : Prop :=
  let drained := (appendAll s calls).appendSequence
  let size := (s.files i).size
  (drained.files i).size = size + total calls ∧
  ∃ old, s.read handle 0 size = some old ∧
    drained.read handle 0 (size + total calls) =
    some (old ++ appendedBytes (s.appendLogical + 1) calls)

/-! ## Copying staged bytes -/

namespace State

/-- The bytes `p.2` are staged for the entry `p.1`. -/
structure Staged (staging : TagId) (c : Core) (p : AppendEntry × List UInt8) : Prop where
  size : p.1.dataBlobSize = p.2.length
  nonempty : p.2 ≠ []
  bytes : (c.content staging p.1.dataBlobId).take p.2.length = p.2

variable {c c' : Core} {tagId staging : TagId} {p : AppendEntry × List UInt8}
  {ps : List (AppendEntry × List UInt8)}

lemma Staged.of_content (h : Staged staging c p)
    (hct : c'.content staging p.1.dataBlobId = c.content staging p.1.dataBlobId) :
    Staged staging c' p :=
  ⟨h.size, h.nonempty, by rw [hct]; exact h.bytes⟩

lemma Staged.getBlob (h : Staged staging c p) {done len : ℕ} (hle : done + len ≤ p.2.length) :
    c.getBlob staging p.1.dataBlobId done len = (p.2.drop done).take len := by
  have hby : ((c.content staging p.1.dataBlobId).drop done).take len =
      (p.2.drop done).take len := by
    conv_rhs => rw [← h.bytes, drop_take, take_take, min_eq_left (by omega)]
  have hlen : ((p.2.drop done).take len).length = len := by
    rw [length_take, length_drop]
    omega
  rw [Core.getBlob, hby, hlen, Nat.sub_self, replicate_zero, append_nil]

/-! ## The steps of a plan -/

/-- The steps write to one place of the file after the other, from `off` on. -/
def Tiles : ℕ → List AppendPlanStep → Prop
  | _, [] => True
  | off, step :: rest => step.position = off ∧ 0 < step.size ∧
      step.offInPage + step.size ≤ kFsPageSize ∧ Tiles (off + step.size) rest

section

variable (fate : AppendPlanStep → Outcome) (tagId staging : TagId) (c : Core)

/-- What the file has where the step writes. -/
def pageBytes (step : AppendPlanStep) : List UInt8 :=
  (range step.size).map fun k => c.byteAt tagId (step.position + k)

/-- What the file has there after the step. -/
def stepBytes (step : AppendPlanStep) : List UInt8 :=
  (stepWrite fate staging c step).1.getD (pageBytes tagId c step)

/-- What the file has where the steps write, after the loop over them. -/
def written : List AppendPlanStep → List UInt8
  | [] => []
  | step :: rest => stepBytes fate tagId staging c step ++
      if (stepWrite fate staging c step).2 then written rest else rest.flatMap (pageBytes tagId c)

end

variable {fate : AppendPlanStep → Outcome} {steps rest : List AppendPlanStep}
  {step : AppendPlanStep}

lemma tiles_append : Tiles off (steps ++ rest) ↔
    Tiles off steps ∧ Tiles (off + (steps.map AppendPlanStep.size).sum) rest := by
  induction steps generalizing off with
  | nil => simp [Tiles]
  | cons step steps ih =>
    simp only [cons_append, Tiles, ih, map_cons, sum_cons, add_assoc, and_assoc]

lemma Tiles.le (ht : Tiles off steps) (hstp : step ∈ steps) : off ≤ step.position := by
  induction steps generalizing off with
  | nil => exact absurd hstp not_mem_nil
  | cons first steps ih =>
    rcases mem_cons.mp hstp with rfl | hstp
    · exact ht.1.ge
    · exact (le_add_right _ _).trans (ih ht.2.2.2 hstp)

lemma length_stagedBytes : (stagedBytes staging c step).length = step.size := by
  rw [stagedBytes, Core.getBlob, window_eq_append, length_window]

lemma length_pageBytes : (pageBytes tagId c step).length = step.size := by simp [pageBytes]

lemma length_stepBytes : (stepBytes fate tagId staging c step).length = step.size := by
  rw [stepBytes, stepWrite]
  cases fate step with
  | done => exact length_stagedBytes
  | stopped => exact length_pageBytes
  | unread held => exact length_window _ _ _
  | torn left => exact length_window _ _ _

lemma length_written :
    (written fate tagId staging c steps).length = (steps.map AppendPlanStep.size).sum := by
  induction steps with
  | nil => rfl
  | cons step steps ih =>
    rw [written, length_append, length_stepBytes, map_cons, sum_cons]
    split_ifs
    · rw [ih]
    · simp only [length_flatMap, length_pageBytes]

/-- If every call succeeds, it is what was staged. -/
lemma written_done :
    written (fun _ => .done) tagId staging c steps = steps.flatMap (stagedBytes staging c) := by
  induction steps with
  | nil => rfl
  | cons step steps ih => rw [written, flatMap_cons, ← ih]; rfl

lemma stagedBytes_of_content
    (hct : c'.content staging step.dataBlobId = c.content staging step.dataBlobId) :
    stagedBytes staging c' step = stagedBytes staging c step := by
  rw [stagedBytes, Core.getBlob, hct]
  rfl

lemma written_congr
    (hstg : ∀ step ∈ steps, c'.content staging step.dataBlobId = c.content staging step.dataBlobId)
    (hpg : ∀ step ∈ steps, pageBytes tagId c' step = pageBytes tagId c step) :
    written fate tagId staging c' steps = written fate tagId staging c steps := by
  induction steps with
  | nil => rfl
  | cons step steps ih =>
    have hwr : stepWrite fate staging c' step = stepWrite fate staging c step := by
      rw [stepWrite, stagedBytes_of_content (hstg step mem_cons_self)]
      rfl
    rw [written, stepBytes, hwr, hpg step mem_cons_self,
      ih (fun s hs => hstg s (mem_cons_of_mem _ hs)) fun s hs => hpg s (mem_cons_of_mem _ hs),
      flatMap_congr fun s hs => hpg s (mem_cons_of_mem _ hs)]
    rfl

/-- Steps behind a place that has been written find the file as it was. -/
lemma pageBytes_of_overlay {d : List UInt8}
    (hby : c'.byteAt tagId = overlay 0 (c.byteAt tagId) off d)
    (ht : Tiles (off + d.length) steps) (hstp : step ∈ steps) :
    pageBytes tagId c' step = pageBytes tagId c step := by
  have hle := ht.le hstp
  refine map_congr_left fun k _ => ?_
  rw [hby, overlay, if_neg (by omega)]

lemma overlay_pageBytes (ht : Tiles off steps) :
    overlay 0 (c.byteAt tagId) off (steps.flatMap (pageBytes tagId c)) = c.byteAt tagId := by
  induction steps generalizing off with
  | nil => exact overlay_nil _ _
  | cons step steps ih =>
    obtain ⟨rfl, -, -, hrest⟩ := ht
    have hsame : overlay 0 (c.byteAt tagId) step.position (pageBytes tagId c step)
        = c.byteAt tagId := by
      funext i
      rw [overlay, length_pageBytes]
      split_ifs with hi
      · rw [getD_eq_getElem _ _ (by rw [length_pageBytes]; omega)]
        simp only [pageBytes, getElem_map, getElem_range]
        congr 1
        omega
      · rfl
    rw [flatMap_cons, ← overlay_append, hsame, length_pageBytes, ih hrest]

variable (fate staging c) in
/-- One round. -/
lemma execStep_spec (hsize : 0 < step.size) (hpage : step.offInPage + step.size ≤ kFsPageSize) :
    ∃ c', execStep fate tagId staging c step = (c', (stepWrite fate staging c step).2) ∧
      Core.SameBut tagId c c' ∧ c'.byteAt tagId =
        overlay 0 (c.byteAt tagId) step.position (stepBytes fate tagId staging c step) := by
  have hlen : (stepBytes fate tagId staging c step).length = step.size := length_stepBytes
  rw [execStep]
  rw [stepBytes] at hlen ⊢
  generalize stepWrite fate staging c step = w at hlen
  rcases w with ⟨_ | buf, ok⟩
  · refine ⟨c, rfl, .refl tagId c, ?_⟩
    have hself : overlay 0 (c.byteAt tagId) step.position ([step].flatMap (pageBytes tagId c)) =
        c.byteAt tagId := overlay_pageBytes ⟨rfl, hsize, hpage, trivial⟩
    rw [flatMap_singleton] at hself
    exact hself.symm
  · rw [Option.getD_some] at hlen ⊢
    have hbuf : buf ≠ [] := ne_nil_of_length_pos (by omega)
    obtain ⟨c1, hput, hsm, hpgs⟩ := c.putBlob_page tagId step.filePage step.offInPage hbuf
    refine ⟨c1, by simp only [hput, true_and, Bool.decide_eq_true], hsm, funext fun i => ?_⟩
    have hoff : step.offInPage < kFsPageSize := by omega
    have hdiv : step.position / kFsPageSize = step.filePage := div_eq_of_lt_page hoff
    have hmod : step.position % kFsPageSize = step.offInPage := mul_add_mod_of_lt hoff
    rw [Core.byteAt, hpgs, ← hdiv, ← hmod, pagedGet_overwrite _ (by omega)]
    rfl

variable (fate c) in
/-- **The loop.**  It leaves the staged blobs, and the file has what its rounds have come to. -/
lemma loopWhile_execStep (hne : staging ≠ tagId) (ht : Tiles off steps) :
    Core.SameBut tagId c (loopWhile (execStep fate tagId staging) steps c).1 ∧
      (loopWhile (execStep fate tagId staging) steps c).1.byteAt tagId =
        overlay 0 (c.byteAt tagId) off (written fate tagId staging c steps) := by
  induction steps generalizing c off with
  | nil => exact ⟨.refl tagId c, (overlay_nil _ _).symm⟩
  | cons step steps ih =>
    obtain ⟨rfl, hsize, hpage, hrest⟩ := ht
    obtain ⟨c1, hexec, hsm, hby⟩ := execStep_spec c staging fate hsize hpage
    have hlen : (stepBytes fate tagId staging c step).length = step.size := length_stepBytes
    rw [← hlen] at hrest
    have hpg s (hs : s ∈ steps) := pageBytes_of_overlay hby hrest hs
    rw [loopWhile, hexec, written, ← overlay_append, ← hby]
    cases (stepWrite fate staging c step).2 with
    | false =>
      refine ⟨hsm, ?_⟩
      rw [if_neg Bool.false_ne_true, ← flatMap_congr hpg, overlay_pageBytes hrest]
    | true =>
      obtain ⟨hsm', hby'⟩ := ih c1 hrest
      refine ⟨hsm.trans hsm', ?_⟩
      rw [if_pos rfl, ← written_congr (fun s _ => hsm.content staging _ hne) hpg]
      exact hby'

/-! ## Slices -/

/-- Deleting staged blobs leaves the others. -/
lemma foldl_delBlob_staged (staging : TagId) (ids : List String) (c : Core) :
    Core.SameBut staging c (ids.foldl (fun c id => c.delBlob staging id) c) ∧
    ∀ id ∉ ids, (ids.foldl (fun c id => c.delBlob staging id) c).content staging id
      = c.content staging id := by
  induction ids generalizing c with
  | nil => exact ⟨.refl staging c, fun id _ => rfl⟩
  | cons gone ids ih =>
    obtain ⟨hsm, hct⟩ := ih (c.delBlob staging gone)
    refine ⟨(c.sameBut_delBlob staging gone).trans hsm, fun id hid => ?_⟩
    rw [mem_cons, not_or] at hid
    rw [foldl_cons, hct id hid.2, Core.content_delBlob,
      if_neg fun h => hid.1 (congrArg BlobKey.name h).symm]

variable (fate c) in
/-- **One slice.**  The staged blobs of other slices stay. -/
lemma appendExecution_spec (hne : staging ≠ tagId) (ht : Tiles off steps) :
    (appendExecution fate tagId staging c steps).2.byteAt tagId =
        overlay 0 (c.byteAt tagId) off (written fate tagId staging c steps) ∧
      ∀ id ∉ steps.map AppendPlanStep.dataBlobId,
        (appendExecution fate tagId staging c steps).2.content staging id =
        c.content staging id := by
  obtain ⟨hsm, hby⟩ := loopWhile_execStep c fate hne ht
  obtain ⟨hsm', hct⟩ := foldl_delBlob_staged staging (steps.map AppendPlanStep.dataBlobId).eraseDups
    (loopWhile (execStep fate tagId staging) steps c).1
  refine ⟨(hsm'.byteAt hne.symm).trans hby, fun id hid => ?_⟩
  exact (hct id (mt mem_eraseDups.mp hid)).trans (hsm.content staging id hne)

/-- **Slices** that need different staged blobs. -/
lemma byteAt_foldl_appendExecution (hne : staging ≠ tagId) {ss : List (List AppendPlanStep)}
    (ht : Tiles off ss.flatten) (hids : ss.Pairwise fun a b =>
      ∀ x ∈ a, ∀ y ∈ b, x.dataBlobId ≠ y.dataBlobId) :
    (ss.foldl (fun c slice => (appendExecution fate tagId staging c slice).2) c).byteAt tagId =
      overlay 0 (c.byteAt tagId) off (ss.flatMap (written fate tagId staging c)) := by
  induction ss generalizing c off with
  | nil => exact (overlay_nil _ _).symm
  | cons slice ss ih =>
    rw [flatten_cons, tiles_append] at ht
    obtain ⟨hids1, hids2⟩ := pairwise_cons.mp hids
    obtain ⟨hby, hct⟩ := appendExecution_spec c fate hne ht.1
    have hlen : (written fate tagId staging c slice).length = (slice.map AppendPlanStep.size).sum :=
      length_written
    have hrest : ∀ s ∈ ss, written fate tagId staging (appendExecution fate tagId staging c slice).2
        s = written fate tagId staging c s := by
      refine fun s hs => written_congr (fun step hstp => hct _ fun hmem => ?_) fun step hstp => ?_
      · obtain ⟨other, hoth, heq⟩ := mem_map.mp hmem
        exact hids1 s hs other hoth step hstp heq
      · exact pageBytes_of_overlay hby (hlen ▸ ht.2) (mem_flatten.mpr ⟨s, hs, hstp⟩)
    rw [foldl_cons, ih ht.2 hids2, flatMap_congr hrest, hby, ← hlen, overlay_append, flatMap_cons]

/-- Where the staged blob changes, it does not come back. -/
def Grouped : List AppendPlanStep → Prop
  | [] => True
  | step :: rest => (atBlobBoundary step rest = true → ∀ y ∈ rest, step.dataBlobId ≠ y.dataBlobId) ∧
      Grouped rest

lemma takeSlice_append (bytes : ℕ) (plan : List AppendPlanStep) :
    (takeSlice bytes plan).1 ++ (takeSlice bytes plan).2 = plan := by
  induction plan generalizing bytes with
  | nil => rfl
  | cons step rest ih =>
    rw [takeSlice]
    split_ifs
    · rfl
    · rw [cons_append, ih]

/-- A slice does not end inside a staged blob. -/
lemma Grouped.takeSlice {plan : List AppendPlanStep} (h : Grouped plan) (bytes : ℕ) :
    (∀ x ∈ (takeSlice bytes plan).1, ∀ y ∈ (takeSlice bytes plan).2, x.dataBlobId ≠ y.dataBlobId) ∧
      Grouped (takeSlice bytes plan).2 := by
  induction plan generalizing bytes with
  | nil => exact ⟨fun x hx => absurd hx not_mem_nil, trivial⟩
  | cons step rest ih =>
    obtain ⟨hbnd, hgrp⟩ := h
    rw [State.takeSlice]
    dsimp only
    split_ifs with hend
    · exact ⟨fun x hx => by rw [mem_singleton.mp hx]; exact hbnd hend.2, hgrp⟩
    · obtain ⟨hdiff, hleft⟩ := ih hgrp (u64 (bytes + step.size))
      refine ⟨fun x hx y hy => ?_, hleft⟩
      rcases mem_cons.mp hx with rfl | hx
      · have happ := takeSlice_append (u64 (bytes + x.size)) rest
        by_cases hb : atBlobBoundary x rest = true
        · exact hbnd hb y (happ ▸ mem_append_right _ hy)
        · -- the next step is for the same blob, and it is in the slice
          cases rest with
          | nil => exact absurd rfl hb
          | cons next rest =>
            rw [atBlobBoundary, decide_eq_true_eq, not_not] at hb
            rw [← hb]
            refine hdiff next ?_ y hy
            rw [State.takeSlice]
            split_ifs <;> exact mem_cons_self
      · exact hdiff x hx y hy

lemma length_takeSlice (bytes : ℕ) (step : AppendPlanStep) (rest : List AppendPlanStep) :
    (takeSlice bytes (step :: rest)).2.length ≤ rest.length := by
  have hlen := congrArg length (takeSlice_append bytes (step :: rest))
  rw [length_append, length_cons, State.takeSlice] at hlen
  rw [State.takeSlice]
  split_ifs at hlen ⊢
  · exact le_rfl
  · rw [length_cons] at hlen
    omega

/-- The slices make up the plan, and need different staged blobs. -/
lemma slices_spec {fuel : ℕ} {plan : List AppendPlanStep} (h : Grouped plan)
    (hfu : plan.length ≤ fuel) :
    (slices fuel plan).flatten = plan ∧ (slices fuel plan).Pairwise fun a b =>
      ∀ x ∈ a, ∀ y ∈ b, x.dataBlobId ≠ y.dataBlobId := by
  induction fuel generalizing plan with
  | zero =>
    rw [length_eq_zero_iff.mp (le_zero.mp hfu)]
    exact ⟨rfl, Pairwise.nil⟩
  | succ fuel ih =>
    cases plan with
    | nil => exact ⟨rfl, Pairwise.nil⟩
    | cons step rest =>
      obtain ⟨hdiff, hleft⟩ := h.takeSlice 0
      obtain ⟨hflat, hpair⟩ := ih hleft
        ((length_takeSlice 0 step rest).trans (Nat.le_of_succ_le_succ hfu))
      rw [slices, flatten_cons, hflat]
      refine ⟨takeSlice_append 0 _, pairwise_cons.mpr ⟨fun s hs x hx y hy => ?_, hpair⟩⟩
      exact hdiff x hx y (hflat ▸ mem_flatten.mpr ⟨s, hs, hy⟩)

/-! ## Plans -/

lemma dataBlobId_of_mem_planEntry {e : AppendEntry} (h : step ∈ planEntry off e) :
    step.dataBlobId = e.dataBlobId := by
  obtain ⟨q, -, rfl⟩ := mem_map.mp h
  rfl

lemma dataBlobId_of_mem_planEntries (h : step ∈ planEntries off es) :
    step.dataBlobId ∈ es.map dataBlobId := by
  induction es generalizing off with
  | nil => exact absurd h not_mem_nil
  | cons e es ih =>
    rcases mem_append.mp h with h | h
    · rw [dataBlobId_of_mem_planEntry h]
      exact mem_cons_self
    · exact mem_cons_of_mem _ (ih h)

lemma grouped_append {x : String} (hid : ∀ step ∈ steps, step.dataBlobId = x)
    (hrest : ∀ y ∈ rest, y.dataBlobId ≠ x) (h : Grouped rest) : Grouped (steps ++ rest) := by
  induction steps with
  | nil => exact h
  | cons step steps ih =>
    have hstp : step.dataBlobId = x := hid step mem_cons_self
    refine ⟨fun hb y hy => ?_, ih fun s hs => hid s (mem_cons_of_mem _ hs)⟩
    cases steps with
    | nil => exact hstp ▸ (hrest y hy).symm
    | cons next steps =>
      have hnx : next.dataBlobId = x := hid next (mem_cons_of_mem _ mem_cons_self)
      simp [atBlobBoundary, hstp, hnx] at hb

lemma grouped_planEntries (hnd : (es.map dataBlobId).Nodup) (off : ℕ) :
    Grouped (planEntries off es) := by
  induction es generalizing off with
  | nil => trivial
  | cons e es ih =>
    obtain ⟨hnew, hnd⟩ := nodup_cons.mp hnd
    refine grouped_append (fun _ => dataBlobId_of_mem_planEntry) (fun y hy heq => ?_) (ih hnd _)
    exact hnew (heq ▸ dataBlobId_of_mem_planEntries hy)

/-- The pieces of a range as steps: where they write, and which bytes of the range they are. -/
lemma tiles_pieces (e : AppendEntry) (d : List UInt8) (cur : ℕ) {fuel done want : ℕ}
    (hfu : want ≤ done + fuel) :
    let steps := (pieces kFsPageSize fuel cur done want).map fun q =>
      (⟨q.page, e.dataBlobId, q.pageOff, q.done, q.len, e.dataBlobSize⟩ : AppendPlanStep)
    Tiles cur steps ∧ steps.flatMap (fun step => (d.drop step.offInData).take step.size) =
      (d.drop done).take (want - done) := by
  induction fuel generalizing cur done with
  | zero =>
    rw [Nat.sub_eq_zero_of_le (by omega), take_zero]
    exact ⟨trivial, rfl⟩
  | succ fuel ih =>
    rw [Foundations.pieces]
    split_ifs with hlt
    · have hpos := pos_of_piece kFsPageSize_pos cur hlt
      have hmod := mod_lt cur kFsPageSize_pos
      obtain ⟨n, hn⟩ : ∃ n, n = min (kFsPageSize - cur % kFsPageSize) (want - done) := ⟨_, rfl⟩
      rw [← hn] at hpos ⊢
      obtain ⟨htiles, hbytes⟩ := @ih (cur + n) (done + n) (by omega)
      refine ⟨⟨div_add_mod' cur _, hpos, by dsimp only; omega, htiles⟩, ?_⟩
      rw [map_cons, flatMap_cons, hbytes, ← drop_drop, ← take_add,
        show n + (want - (done + n)) = want - done by omega]
    · rw [Nat.sub_eq_zero_of_le (by omega), take_zero]
      exact ⟨trivial, rfl⟩

/-- The steps of one staged blob. -/
lemma tiles_planEntry (h : Staged staging c p) (hoff : off + p.2.length ≤ 2 ^ 64) :
    Tiles off (planEntry off p.1) ∧ (planEntry off p.1).flatMap (stagedBytes staging c) = p.2 := by
  have hspa : pageSpans p.1.dataBlobSize off 0 p.1.dataBlobSize
      = pieces kFsPageSize p.2.length off 0 p.2.length := by
    rw [h.size, pageSpans_eq_pieces (by omega)]
  have hpcs := tiles_pieces p.1 p.2 off (zero_add p.2.length).ge
  rw [planEntry, hspa]
  refine ⟨hpcs.1, (flatMap_congr fun step hstp => ?_).trans (hpcs.2.trans ?_)⟩
  · obtain ⟨q, hq, rfl⟩ := mem_map.mp hstp
    exact h.getBlob (mem_pieces kFsPageSize_pos hq).2
  · rw [drop_zero, Nat.sub_zero, take_length]

/-- The steps of several staged blobs, one after the other. -/
lemma tiles_planEntries (hsgd : ∀ p ∈ ps, Staged staging c p)
    (hoff : off + (ps.flatMap Prod.snd).length < 2 ^ 64) :
    Tiles off (planEntries off (ps.map Prod.fst)) ∧
      (planEntries off (ps.map Prod.fst)).flatMap (stagedBytes staging c) =
      ps.flatMap Prod.snd := by
  induction ps generalizing off with
  | nil => exact ⟨trivial, rfl⟩
  | cons p ps ih =>
    rw [flatMap_cons, length_append] at hoff
    have hp := hsgd p mem_cons_self
    have hend : off + p.2.length ≤ 2 ^ 64 := by omega
    obtain ⟨ht, hbytes⟩ := tiles_planEntry hp hend
    have hnx : u64 (off + p.1.dataBlobSize) = off + p.2.length := by
      rw [u64, hp.size, mod_eq_of_lt (by omega)]
    obtain ⟨ht', hbytes'⟩ := @ih (off + p.2.length)
      (fun q hq => hsgd q (mem_cons_of_mem _ hq)) (by omega)
    have hsum : ((planEntry off p.1).map AppendPlanStep.size).sum = p.2.length := by
      rw [← congrArg length hbytes, length_flatMap]
      simp only [length_stagedBytes]
    rw [map_cons, planEntries, hnx, tiles_append, hsum, flatMap_append, hbytes, hbytes',
      flatMap_cons]
    exact ⟨⟨ht, ht'⟩, rfl⟩

variable (fate) in
/-- **All slices.**  What the file has after the merge, and what was staged for it. -/
lemma byteAt_appendPlan (hne : staging ≠ tagId) {entries : List AppendEntry}
    (hsort : entries.insertionSort before = ps.map Prod.fst)
    (hsgd : ∀ p ∈ ps, Staged staging c p) (hnd : (ps.map fun p => p.1.dataBlobId).Nodup)
    (hoff : (c.getTagSize tagId).getD 0 + (ps.flatMap Prod.snd).length < 2 ^ 64) :
    (appendPlan fate tagId staging c entries).byteAt tagId =
        overlay 0 (c.byteAt tagId) ((c.getTagSize tagId).getD 0)
          ((planSlices tagId c entries).flatMap (written fate tagId staging c)) ∧
      (planSlices tagId c entries).flatMap (fun slice => slice.flatMap (stagedBytes staging c)) =
        ps.flatMap Prod.snd := by
  rw [← comp_def AppendEntry.dataBlobId Prod.fst, ← map_map] at hnd
  have hgrp := grouped_planEntries hnd ((c.getTagSize tagId).getD 0)
  obtain ⟨ht, hbytes⟩ := tiles_planEntries hsgd hoff
  obtain ⟨hflat, hids⟩ := slices_spec hgrp le_rfl
  rw [appendPlan, planSlices, hsort]
  refine ⟨byteAt_foldl_appendExecution hne (hflat.symm ▸ ht) hids, ?_⟩
  have hsum := congrArg (flatMap (stagedBytes staging c)) hflat
  rw [hbytes] at hsum
  simpa only [flatMap_def, map_flatten, map_map, flatten_flatten, comp_def] using hsum

/-! ## A batch is queued -/

variable {s u : State} {i : ℕ}

lemma makeDataBlobId_inj {nodeId m n : ℕ} (h : makeDataBlobId nodeId m = makeDataBlobId nodeId n) :
    m = n := by
  have hli := congrArg String.toList h
  simp only [makeDataBlobId, String.toList_append, append_cancel_left_eq] at hli
  exact toString_inj (String.toList_inj.mp hli)

/-- The entry of a call with its stamp, and its bytes. -/
def entryOf (nodeId : ℕ) (call : AppendCall × ℕ) : AppendEntry × List UInt8 :=
  (⟨makeDataBlobId nodeId call.2, call.1.data.length, call.1.utcNs, call.2⟩, call.1.data)

/-- The entries of a batch, and their bytes. -/
def batch (s : State) (calls : List AppendCall) : List (AppendEntry × List UInt8) :=
  (calls.zipIdx (s.appendLogical + 1)).map (entryOf s.nodeId)

/-- The core after the bytes of a call have been staged. -/
def stage (s : State) (call : AppendCall) : Core :=
  let name := makeDataBlobId s.nodeId (s.appendLogical + 1)
  let bytes := overwrite 0 (s.core.content s.stagingTag name) 0 call.data
  { s.core with blobs := s.core.blobs.insert ⟨s.stagingTag, name⟩ bytes }

/-- The state after an acknowledged call. -/
def queue (s : State) (i : ℕ) (call : AppendCall) : State :=
  let pending : PendingAppend :=
    ⟨(s.files i).tagId, (entryOf s.nodeId (call, s.appendLogical + 1)).1⟩
  let queued : State := { s with
    core := s.stage call
    appendLogical := s.appendLogical + 1
    appendPending := s.appendPending ++ [pending] }
  queued.modifyFile i fun info => { info with size := u64 (info.size + call.data.length) }

/-- All calls are to the file `i` and have bytes. -/
def Feeds (s : State) (i : ℕ) (calls : List AppendCall) : Prop :=
  ∀ call ∈ calls, s.lookupHandle call.handle = some i ∧ call.data ≠ []

/-- A call is acknowledged if it has bytes. -/
lemma run_append {call : AppendCall} (hi : s.lookupHandle call.handle = some i) :
    (call.data = [] → (call.run s).1.rc ≠ 0) ∧
    (call.data ≠ [] → (call.run s).1.rc = 0 ∧ (call.run s).2 = s.queue i call) := by
  have hnm : makeDataBlobId s.nodeId (s.appendLogical + 1) ≠ "" := by
    intro h
    have hli := congrArg String.toList h
    simp [makeDataBlobId] at hli
  unfold AppendCall.run State.append
  constructor
  · intro hdt
    simp only [hi, Core.putBlob, if_pos hdt, ne_eq, OfNat.ofNat_ne_zero, not_false_eq_true, if_true]
    decide
  · intro hdt
    simp only [hi, Core.putBlob, if_neg hdt, if_neg hnm, ne_eq, not_true_eq_false,
      if_false, true_and]
    rfl

/-- What a batch leaves behind, apart from the logical size. -/
structure Queued (s u : State) (i : ℕ) (ps : List (AppendEntry × List UInt8)) : Prop where
  pending : u.appendPending = s.appendPending ++ ps.map fun p => ⟨(s.files i).tagId, p.1⟩
  staged : ∀ p ∈ ps, Staged s.stagingTag u.core p
  same : Core.SameBut s.stagingTag s.core u.core
  others : ∀ id, id ∉ ps.map (fun p => p.1.dataBlobId) →
    u.core.content s.stagingTag id = s.core.content s.stagingTag id
  tagSize : ∀ tagId ≠ s.stagingTag, u.core.getTagSize tagId = s.core.getTagSize tagId
  tagId : (u.files i).tagId = (s.files i).tagId
  handles : u.handles = s.handles
  staging : u.stagingTag = s.stagingTag

/-- One call. -/
lemma queued_one (s : State) (i : ℕ) {call : AppendCall} (hdt : call.data ≠ []) :
    Queued s (s.queue i call) i [entryOf s.nodeId (call, s.appendLogical + 1)] := by
  have hstg : (s.queue i call).core = s.stage call := rfl
  constructor
  · rfl
  · intro p hp
    obtain rfl := mem_singleton.mp hp
    refine ⟨rfl, hdt, ?_⟩
    dsimp only [entryOf]
    rw [hstg, stage, Core.content_insert]
    simp [overwrite]
  · exact Core.sameBut_insert _ _ _ _
  · intro id hid
    rw [map_singleton, mem_singleton] at hid
    rw [hstg, stage, Core.content_insert, if_neg fun h => hid (congrArg BlobKey.name h).symm]
  · intro tagId hid
    unfold Core.getTagSize
    have htags : (s.queue i call).core.tags = s.core.tags := rfl
    have htal : ∀ f : BlobKey → List UInt8 → ℕ,
        (∀ bytes, f ⟨s.stagingTag, makeDataBlobId s.nodeId (s.appendLogical + 1)⟩ bytes = 0) →
        tally (s.queue i call).core.blobs f = tally s.core.blobs f :=
      fun f hf => tally_insert_of_eq_zero hf
    rw [htags, htal _ fun bytes => if_neg hid.symm]
  · show (update s.files i _ i).tagId = _
    rw [update_self]
  · rfl
  · rfl

variable (logical : ℕ) {calls : List AppendCall}

/-- **A batch.** -/
lemma queued_appendAll (hcls : Feeds s i calls) :
    Queued s (appendAll s calls) i (s.batch calls) := by
  induction calls generalizing s with
  | nil =>
    exact ⟨(append_nil _).symm, forall_mem_nil _, .refl _ _, fun _ _ => rfl, fun _ _ => rfl,
      rfl, rfl, rfl⟩
  | cons call calls ih =>
    obtain ⟨hi, hdt⟩ := hcls call mem_cons_self
    have hone := queued_one s i hdt
    have hrun : appendAll s (call :: calls) = appendAll (s.queue i call) calls := by
      rw [appendAll, foldl_cons, ((run_append hi).2 hdt).2]
      rfl
    have hrs := ih (s := s.queue i call) fun call' hcall' =>
      hcls call' (mem_cons_of_mem _ hcall')
    rw [hrun]
    change Queued s _ i (_ :: (s.queue i call).batch calls)
    -- The stamps of the later calls are larger, so their staged blobs are others.
    have hnew : (entryOf s.nodeId (call, s.appendLogical + 1)).1.dataBlobId ∉
        ((s.queue i call).batch calls).map fun p => p.1.dataBlobId := by
      intro hmem
      obtain ⟨p, hp, hid⟩ := mem_map.mp hmem
      obtain ⟨⟨call', k⟩, hk, rfl⟩ := mem_map.mp hp
      have hsta : k = s.appendLogical + 1 := makeDataBlobId_inj hid
      have hle : s.appendLogical + 1 + 1 ≤ k := le_snd_of_mem_zipIdx hk
      omega
    constructor
    · rw [hrs.pending, hone.pending, hone.tagId, append_assoc]
      rfl
    · intro p hp
      rcases mem_cons.mp hp with rfl | hp
      · refine (hone.staged _ mem_cons_self).of_content ?_
        exact hrs.others _ hnew
      · exact hrs.staged p hp
    · exact hone.same.trans hrs.same
    · intro id hid
      rw [map_cons, mem_cons, not_or] at hid
      have hlat := hrs.others id hid.2
      rw [hone.staging] at hlat
      rw [hlat]
      exact hone.others id (by simpa using hid.1)
    · intro tagId hid
      rw [hrs.tagSize tagId (by rw [hone.staging]; exact hid), hone.tagSize tagId hid]
    · rw [hrs.tagId, hone.tagId]
    · rw [hrs.handles, hone.handles]
    · rw [hrs.staging, hone.staging]

/-- The logical size after a batch. -/
lemma size_appendAll (hcls : Feeds s i calls)
    (hrm : (s.files i).size + total calls < 2 ^ 64) :
    ((appendAll s calls).files i).size = (s.files i).size + total calls := by
  induction calls generalizing s with
  | nil => rfl
  | cons call calls ih =>
    obtain ⟨hi, hdt⟩ := hcls call mem_cons_self
    rw [total, map_cons, sum_cons] at hrm ⊢
    have hsz : ((s.queue i call).files i).size = (s.files i).size + call.data.length := by
      show (update s.files i _ i).size = _
      rw [update_self]
      show u64 ((s.files i).size + call.data.length) = _
      exact mod_eq_of_lt (by omega)
    have hrs : Feeds (s.queue i call) i calls :=
      fun call' hcall' => hcls call' (mem_cons_of_mem _ hcall')
    rw [appendAll, foldl_cons, ((run_append hi).2 hdt).2]
    refine (ih hrs ?_).trans ?_
    · rw [total]
      omega
    · rw [hsz, total, add_assoc]

/-- Acknowledged calls have bytes. -/
lemma feeds_of_acknowledged (h : Acknowledged s i calls) : Feeds s i calls := by
  induction calls generalizing s with
  | nil => exact fun call hcall => absurd hcall not_mem_nil
  | cons call calls ih =>
    have hi := h.toFile call mem_cons_self
    have hdt : call.data ≠ [] := by
      intro hdt
      exact (run_append hi).1 hdt (h.rc _ mem_cons_self)
    have hrs : Acknowledged (s.queue i call) i calls := by
      refine ⟨fun call' hcall' => h.toFile call' (mem_cons_of_mem _ hcall'), fun r hr => ?_⟩
      refine h.rc r (mem_cons_of_mem _ ?_)
      rw [((run_append hi).2 hdt).2]
      exact hr
    intro call' hcall'
    rcases mem_cons.mp hcall' with rfl | hcall'
    · exact ⟨hi, hdt⟩
    · exact ih hrs call' hcall'

/-! ## A batch drains -/

lemma perm_inOrder (calls : List AppendCall) :
    (inOrder logical calls).Perm (calls.zipIdx logical) := perm_insertionSort _ _

lemma length_appendedBytes (calls : List AppendCall) :
    (appendedBytes logical calls).length = total calls := by
  have hpm : ((inOrder logical calls).map fun p => p.1.data.length).sum
      = ((calls.zipIdx logical).map fun p => p.1.data.length).sum :=
    ((perm_inOrder logical calls).map _).sum_eq
  have hfst : ((calls.zipIdx logical).map fun p => p.1.data.length)
      = calls.map fun call => call.data.length := by
    have hmap : ((calls.zipIdx logical).map Prod.fst).map (fun call => call.data.length)
        = calls.map fun call => call.data.length := by rw [zipIdx_map_fst]
    rw [← hmap, map_map]
    rfl
  rw [appendedBytes, length_flatMap, hpm, hfst, total]

lemma eraseDups_map_const {α : Type} (tagId : TagId) {l : List α} (hl : l ≠ []) :
    (l.map fun _ => tagId).eraseDups = [tagId] := by
  obtain ⟨a, l, rfl⟩ := exists_cons_of_ne_nil hl
  rw [map_cons, eraseDups_cons, filter_eq_nil_iff.mpr]
  · rfl
  · intro b hb
    obtain ⟨-, -, rfl⟩ := mem_map.mp hb
    simp

/-- **What the drained file holds.**  The bytes of the batch are written in order from the physical
size of the file on. -/
lemma byteAt_appendSequence (hne : (s.files i).tagId ≠ s.stagingTag)
    (hpending : s.appendPending = []) (hcls : Feeds s i calls)
    (hrm : (s.core.getTagSize (s.files i).tagId).getD 0 + total calls < 2 ^ 64) :
    (appendAll s calls).appendSequence.core.byteAt (s.files i).tagId
      = overlay 0 (s.core.byteAt (s.files i).tagId) ((s.core.getTagSize (s.files i).tagId).getD 0)
        (appendedBytes (s.appendLogical + 1) calls) := by
  have hqd := queued_appendAll hcls
  by_cases hnil : calls = []
  · subst hnil
    have hcr : (appendAll s []).appendSequence.core = s.core := by
      rw [appendAll, foldl_nil, appendSequence, hpending]
      rfl
    rw [hcr]
    exact (overlay_nil _ _).symm
  · have hps : s.batch calls ≠ [] := by
      rwa [ne_eq, batch, map_eq_nil_iff, zipIdx_eq_nil_iff]
    -- sorting the entries is sorting the calls by their stamps
    have hsor : ((s.batch calls).map Prod.fst).insertionSort before =
        ((inOrder (s.appendLogical + 1) calls).map (entryOf s.nodeId)).map Prod.fst := by
      rw [batch, map_map, map_map]
      exact (map_insertionSort _ before _ _ fun a _ b _ => Iff.rfl).symm
    have hpm := (perm_inOrder (s.appendLogical + 1) calls).map (entryOf s.nodeId)
    have hby : ((inOrder (s.appendLogical + 1) calls).map (entryOf s.nodeId)).flatMap Prod.snd
        = appendedBytes (s.appendLogical + 1) calls := by
      rw [flatMap_map]
      rfl
    have hnd : ((s.batch calls).map fun p => p.1.dataBlobId).Nodup := by
      have hids : (s.batch calls).map (fun p => p.1.dataBlobId)
          = ((calls.zipIdx (s.appendLogical + 1)).map Prod.snd).map (makeDataBlobId s.nodeId) := by
        rw [batch, map_map, map_map]
        rfl
      rw [hids, zipIdx_map_snd]
      exact Nodup.map (fun m n => makeDataBlobId_inj) nodup_range'
    have hcr : (appendAll s calls).appendSequence.core
        = appendPlan (fun _ => .done) (s.files i).tagId s.stagingTag (appendAll s calls).core
          ((s.batch calls).map Prod.fst) := by
      rw [appendSequence, hqd.pending, hpending, nil_append]
      generalize s.batch calls = ps at hps
      have htags : ((ps.map fun p => (⟨(s.files i).tagId, p.1⟩ : PendingAppend)).map
          PendingAppend.tagId).eraseDups = [(s.files i).tagId] := by
        rw [map_map]
        exact eraseDups_map_const _ hps
      have hens : ((ps.map fun p => (⟨(s.files i).tagId, p.1⟩ : PendingAppend)).filter
          fun pa => pa.tagId = (s.files i).tagId).map PendingAppend.entry = ps.map Prod.fst := by
        rw [filter_eq_self.mpr]
        · rw [map_map]
          rfl
        · intro pa hpa
          obtain ⟨p, -, rfl⟩ := mem_map.mp hpa
          exact decide_eq_true rfl
      rw [htags, foldl_cons, foldl_nil, hens, hqd.staging]
    obtain ⟨hmerged, hstaged⟩ := byteAt_appendPlan (fun _ => .done) hne.symm hsor
      (fun p hp => hqd.staged p (hpm.subset hp)) ((hpm.map _).nodup_iff.mpr hnd)
      (by rwa [hby, length_appendedBytes, hqd.tagSize _ hne])
    simp only [show written (fun _ =>
      .done) (s.files i).tagId s.stagingTag (appendAll s calls).core =
      (flatMap (stagedBytes s.stagingTag (appendAll s calls).core)) from funext fun _ =>
      written_done] at hmerged
    rw [hcr, hmerged, hstaged, hqd.tagSize _ hne, hqd.same.byteAt hne, hby]

end State

open State in
/-- **Appends land at the end exactly if the file has no holes.**  For any state of the filesystem,
any open file and any handle of it, with no append pending: every batch acknowledged appends that
fits lands at the end of the file if and only if the sizes of its pages add up to its logical size.
-/
theorem landsAtEnd_iff (s : State) (handle i : ℕ) (hi : s.lookupHandle handle = some i)
    (hne : (s.files i).tagId ≠ s.stagingTag) (hpending : s.appendPending = [])
    (hsize : (s.files i).size + 1 < 2 ^ 64)
    (hphysical : (s.core.getTagSize (s.files i).tagId).getD 0 + 1 < 2 ^ 64) :
    (∀ calls, Acknowledged s i calls → (s.files i).size + total calls < 2 ^ 64 →
        LandsAtEnd s handle i calls) ↔
      (s.core.getTagSize (s.files i).tagId).getD 0 = (s.files i).size := by
  have hold := read_whole hi (lt_of_succ_lt hsize)
  -- What is read of the drained file.
  have hrd : ∀ calls, Feeds s i calls →
      (s.files i).size + total calls < 2 ^ 64 →
      (s.core.getTagSize (s.files i).tagId).getD 0 + total calls < 2 ^ 64 →
      ((appendAll s calls).appendSequence.files i).size = (s.files i).size + total calls ∧
      (appendAll s calls).appendSequence.read handle 0 ((s.files i).size + total calls)
        = some ((List.range ((s.files i).size + total calls)).map
          (overlay 0 (s.core.byteAt (s.files i).tagId)
            ((s.core.getTagSize (s.files i).tagId).getD 0)
            (appendedBytes (s.appendLogical + 1) calls))) := by
    intro calls hcls hrm hrm'
    have hqd := queued_appendAll hcls
    have hnew : ((appendAll s calls).appendSequence.files i).size =
        (s.files i).size + total calls :=
      size_appendAll hcls hrm
    have hlk : (appendAll s calls).appendSequence.lookupHandle handle = some i := by
      show (appendAll s calls).handles.lookup handle = some i
      rw [hqd.handles]
      exact hi
    have htag : ((appendAll s calls).appendSequence.files i).tagId = (s.files i).tagId := hqd.tagId
    have hwho := read_whole hlk (by rw [hnew]; exact hrm)
    rw [hnew, htag, byteAt_appendSequence hne hpending hcls hrm'] at hwho
    exact ⟨hnew, hwho⟩
  constructor
  · intro hlan
    by_contra hphys
    -- A byte that differs from what is stored behind the end of the file.
    obtain ⟨x, hx⟩ : ∃ x, x ≠ s.core.byteAt (s.files i).tagId (s.files i).size := by
      by_cases hz0 : s.core.byteAt (s.files i).tagId (s.files i).size = 0
      · exact ⟨1, by rw [hz0]; decide⟩
      · exact ⟨0, Ne.symm hz0⟩
    have hcls : Feeds s i [⟨handle, [x], 0⟩] := by
      rw [Feeds, forall_mem_singleton]
      exact ⟨hi, cons_ne_nil _ _⟩
    have hack : Acknowledged s i [⟨handle, [x], 0⟩] := by
      refine ⟨fun call hcall => (hcls call hcall).1, fun r hr => ?_⟩
      rw [mem_singleton.mp hr]
      exact ((run_append hi).2 (cons_ne_nil _ _)).1
    obtain ⟨-, old, hrd₀, hrd₁⟩ := hlan _ hack hsize
    have hdra := (hrd _ hcls hsize hphysical).2
    obtain rfl : old = _ := Option.some.inj (hrd₀.symm.trans hold)
    have heq := Option.some.inj (hdra.symm.trans hrd₁)
    have hcell := congrArg (fun l => l.getD (s.files i).size 0) heq
    have hby : appendedBytes (s.appendLogical + 1) [⟨handle, [x], 0⟩] = [x] := rfl
    have htot : total [⟨handle, [x], 0⟩] = 1 := rfl
    rw [hby, htot] at hcell
    simp only [getD_eq_getElem?_getD, List.getElem?_map, List.getElem?_range (lt_succ_self _),
      Option.map_some, Option.getD_some, List.getElem?_append, length_map, length_range,
      lt_irrefl, if_false, Nat.sub_self, List.getElem?_cons_zero, overlay,
      length_singleton] at hcell
    rw [if_neg (by omega)] at hcell
    exact hx hcell.symm
  · intro hphys calls hack hrm
    have hcls := feeds_of_acknowledged hack
    obtain ⟨hnew, hdra⟩ := hrd calls hcls hrm (by rw [hphys]; exact hrm)
    refine ⟨hnew, _, hold, hdra.trans ?_⟩
    rw [hphys, range_add, map_append, map_map]
    congr 2
    · refine map_congr_left fun k hk => ?_
      have := mem_range.mp hk
      rw [overlay, if_neg (by omega)]
    · rw [← length_appendedBytes (s.appendLogical + 1) calls]
      refine ext_getD 0 (by simp) fun k hk => ?_
      rw [length_map, length_range] at hk
      rw [getD_eq_getElem _ _ (by simpa using hk)]
      simp only [getElem_map, getElem_range, comp_apply, overlay]
      rw [if_pos (by omega), Nat.add_sub_cancel_left]

/-- A file of three bytes, all of them written. -/
def solidFile : State :=
  ((State.create 0).openFile "/file" true).2.write 1 0 [1, 2, 3] |>.2

theorem landsAtEnd_solidFile :
    solidFile.lookupHandle 1 = some 0 ∧ (solidFile.files 0).tagId ≠ solidFile.stagingTag ∧
    solidFile.appendPending = [] ∧ (solidFile.files 0).size + 1 < 2 ^ 64 ∧
    (solidFile.core.getTagSize (solidFile.files 0).tagId).getD 0 = (solidFile.files 0).size ∧
    ∀ calls, Acknowledged solidFile 0 calls → (solidFile.files 0).size + total calls < 2 ^ 64 →
      LandsAtEnd solidFile 1 0 calls := by
  have hi : solidFile.lookupHandle 1 = some 0 := by decide +kernel
  have hne : (solidFile.files 0).tagId ≠ solidFile.stagingTag := by decide +kernel
  have hpending : solidFile.appendPending = [] := rfl
  have hsize : (solidFile.files 0).size + 1 < 2 ^ 64 := by decide +kernel
  have hphysical : (solidFile.core.getTagSize (solidFile.files 0).tagId).getD 0 + 1 < 2 ^ 64 := by
    decide +kernel
  have hequ : (solidFile.core.getTagSize (solidFile.files 0).tagId).getD 0
      = (solidFile.files 0).size := by decide +kernel
  exact ⟨hi, hne, hpending, hsize, hequ,
    (landsAtEnd_iff solidFile 1 0 hi hne hpending hsize hphysical).mpr hequ⟩

/-- A file of one byte that has been extended to three. -/
def grownFile : State :=
  (((State.create 0).openFile "/file" true).2.write 1 0 [1]).2.truncate "/file" 3

/-- **The appended byte overwrites a hole.**  The file reads `1 0 0`; after an append of `7` it
reads `1 7 0 0` instead of `1 0 0 7`. -/
theorem not_landsAtEnd_grownFile : Acknowledged grownFile 0 [⟨1, [7], 0⟩] ∧
    grownFile.read 1 0 3 = some [1, 0, 0] ∧
    (appendAll grownFile [⟨1, [7], 0⟩]).appendSequence.read 1 0 4 = some [1, 7, 0, 0] ∧
    ¬ LandsAtEnd grownFile 1 0 [⟨1, [7], 0⟩] := by
  have hbef : grownFile.read 1 0 3 = some [1, 0, 0] := by decide +kernel
  have haf : (appendAll grownFile [⟨1, [7], 0⟩]).appendSequence.read 1 0 4 = some [1, 7, 0, 0] := by
    decide +kernel
  have hsize : (grownFile.files 0).size = 3 := by decide +kernel
  refine ⟨⟨by decide +kernel, by decide +kernel⟩, hbef, haf, ?_⟩
  rintro ⟨-, old, hold, hnew⟩
  rw [hsize] at hold hnew
  obtain rfl : old = [1, 0, 0] := Option.some.inj (hold.symm.trans hbef)
  have heq := Option.some.inj (hnew.symm.trans haf)
  simp at heq

end ClioCore.Filesystem
