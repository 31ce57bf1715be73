import ClioCore.SafeBdev.Writes
import Mathlib.Logic.Relation

/-!
# Interleaved `Write` and `BuildParity` tasks

`Write` suspends while its member writes are in flight and marks its slots dirty only after all of
them have landed.  `BuildParity` suspends at every chunk it reads and at every row it writes, and
drops the dirty mark of a slot after the last row.  `Machine` holds any number of tasks of both
kinds between two suspension points; `Machine.step` lets one of them advance.

A member write that lands on a chunk a builder has already read, and whose `Write` finishes before
the builder drops the mark, leaves a clean slot with parity of the old chunk.  `Quiet` rules this
out.

## Main definitions

* `Machine`, `Machine.step` — the tasks in flight, and one of them advancing.
* `BuildTask.HasRead` — the chunks a builder holds a copy of.
* `Machine.Quiet` — no member write lands on a chunk a builder holds, and a `Write` names existing
  members and stripes.
* `Machine.Tracked` — the invariant: a clean written slot is current or a `Write` in flight will
  mark it, and what a builder holds is current.
-/

namespace ClioCore.SafeBdev

open Foundations List Option Finset Function
open Ec (EcRole EcState ReedSolomon)
open World (Segment)
open Relation (ReflTransGen)

variable {w w' : World} {P : PoolId → ℕ → Prop} {s i : ℕ}

/-! ## Tasks in flight -/

/-- A `Write` after its walk over the block list. -/
structure WriteTask where
  /-- Member writes not yet landed. -/
  futs : List Segment
  touched : Finset ℕ
  ok : Bool

/-- Where a `BuildParity` stands with the slot at hand. -/
inductive BuildPhase
  | idle
  | reading (s : ℕ) (stripe : List ℕ) (dchunks : List (List UInt8))
  | writing (s : ℕ) (stripe : List ℕ) (dchunks : List (List UInt8)) (row : ℕ)

/-- A `BuildParity` with the slots still ahead of it. -/
structure BuildTask where
  batch : List ℕ
  phase : BuildPhase

/-- The container and the tasks in flight. -/
structure Machine where
  world : World
  writes : List WriteTask
  builds : List BuildTask

/-- Which task advances. -/
inductive Action
  | startWrite (blocks : List Block) (data : List UInt8)
  /-- Member write `j` of `Write` task `i` lands. -/
  | land (i j : ℕ)
  | finishWrite (i : ℕ)
  | startBuild (maxBatch : ℕ)
  | advanceBuild (i : ℕ)

namespace BuildTask

/-- One round of `BuildParity` between two suspension points; `none` when the task is done. -/
def advance (w : World) (b : BuildTask) : World × Option BuildTask :=
  match b.phase with
  | .idle =>
    match b.batch with
    | [] => (w, none)
    | s :: rest =>
      if w.stripeMembers s = [] then
        ({ w with dirtySlots := w.dirtySlots.erase s }, some ⟨rest, .idle⟩)
      else (w, some ⟨rest, .reading s (w.stripeMembers s) []⟩)
  | .reading s stripe dchunks =>
    match stripe[dchunks.length]? with
    | none => (w, some ⟨b.batch, .writing s stripe dchunks 0⟩)
    | some d =>
      if (w.dataMember d).state ≠ .active then (w, some ⟨b.batch, .idle⟩)
      else
        match w.readDataSegment d (slotPhysOffset s) kChunkLen with
        | (w', none) => (w', some ⟨b.batch, .idle⟩)
        | (w', some chunk) => (w', some ⟨b.batch, .reading s stripe (dchunks ++ [chunk])⟩)
  | .writing s stripe dchunks row =>
    if row < w.parityLevel then
      if (w.parityMember row).state ≠ .active then
        (w, some ⟨b.batch, .writing s stripe dchunks (row + 1)⟩)
      else
        match w.writeParityChunk row s
            ((w.getCodec stripe.length).encodeParityShard row dchunks kChunkLen) with
        | (w', false) => (w', some ⟨b.batch, .idle⟩)
        | (w', true) => (w', some ⟨b.batch, .writing s stripe dchunks (row + 1)⟩)
    else ({ w with dirtySlots := w.dirtySlots.erase s }, some ⟨b.batch, .idle⟩)

/-- The builder holds a copy of member `d`'s chunk of slot `s`. -/
def HasRead (b : BuildTask) (d s : ℕ) : Prop :=
  match b.phase with
  | .idle => False
  | .reading s' stripe dchunks => s = s' ∧ d ∈ stripe.take dchunks.length
  | .writing s' stripe _ _ => s = s' ∧ d ∈ stripe

end BuildTask

namespace Machine

variable (m : Machine)

/-- One task advances; `none` if the action names no task that can. -/
def step : Action → Option Machine
  | .startWrite blocks data =>
    -- An empty request returns at once and leaves no task behind.
    if m.world.dataMembers = [] ∨ blocks = [] then some m
    else
      let st := m.world.dispatch blocks data
      some { m with writes := m.writes ++ [⟨st.futs, st.touched, st.ok⟩] }
  | .land i j => do
      let t ← m.writes[i]?
      let seg ← t.futs[j]?
      let rest := t.futs.eraseIdx j
      match (m.world.dev seg.pool).write seg.phys seg.bytes with
      | some dv =>
        some { m with
          world := { m.world with dev := Function.update m.world.dev seg.pool dv }
          writes := m.writes.set i { t with futs := rest } }
      | none => some { m with writes := m.writes.set i { t with futs := rest, ok := false } }
  | .finishWrite i => do
      let t ← m.writes[i]?
      if t.futs = [] then
        if t.ok then
          some { m with
            world := { m.world with
              writtenSlots := m.world.writtenSlots ∪ t.touched
              dirtySlots := m.world.dirtySlots ∪ t.touched }
            writes := m.writes.eraseIdx i }
        else some { m with writes := m.writes.eraseIdx i }
      else none
  | .startBuild maxBatch =>
    if m.world.parityLevel = 0 then
      some { m with world := { m.world with dirtySlots := ∅ } }
    else some { m with builds := m.builds ++ [⟨m.world.parityBatch maxBatch, .idle⟩] }
  | .advanceBuild i => do
      let b ← m.builds[i]?
      match b.advance m.world with
      | (w', none) => some { m with world := w', builds := m.builds.eraseIdx i }
      | (w', some b') => some { m with world := w', builds := m.builds.set i b' }

/-- The member write that lands is served by its device. -/
def IoOk : Action → Prop
  | .land i j => ∀ t seg, m.writes[i]? = some t → t.futs[j]? = some seg →
      ((m.world.dev seg.pool).write seg.phys seg.bytes).isSome
  | _ => True

/-- A `Write` names existing members and live stripes, and no member write lands on a chunk that a
`BuildParity` in flight has already read. -/
def Quiet : Action → Prop
  | .startWrite blocks data =>
    (m.world.dispatch blocks data).ok = true ∧ (∀ b ∈ blocks, b.offset + b.size < 2 ^ 64) ∧
      ∀ s ∈ (m.world.dispatch blocks data).touched, m.world.stripeMembers s ≠ []
  | .land i j => ∀ t seg, m.writes[i]? = some t → t.futs[j]? = some seg →
      ∀ b ∈ m.builds, ∀ d s, b.HasRead d s →
        ∀ x, World.InSlot s x → ¬ seg.Covers (m.world.dataClient d) x
  | _ => True

/-- Steps of an array whose I/O succeeds. -/
def IoStep (m m' : Machine) : Prop := ∃ a, m.IoOk a ∧ m.step a = some m'

/-- Steps of an array whose I/O succeeds, with no write landing behind a builder's back. -/
def QuietStep (m m' : Machine) : Prop := ∃ a, m.IoOk a ∧ m.Quiet a ∧ m.step a = some m'

end Machine

/-! ## The invariant -/

namespace World

/-- Every member is active and every device serves requests. -/
structure Healthy (w : World) : Prop where
  wired : w.Wired
  bandLimited : w.BandLimited
  data_active : ∀ d < w.dataMembers.length, (w.dataMember d).state = .active
  parity_active : ∀ j < w.parityLevel, (w.parityMember j).state = .active
  read_ok : ∀ p, (w.dev p).readStatus = .ok
  write_ok : ∀ p, (w.dev p).writeStatus = .ok

/-- A parity write of a healthy array changes device bytes only, and nothing if it fails. -/
lemma Healthy.writeParityChunk_fst (h : w.Healthy) (j s : ℕ) (chunk : List UInt8) :
    ∃ dev', (w.writeParityChunk j s chunk).1 = { w with dev := dev' } ∧
      ((w.writeParityChunk j s chunk).2 = false → dev' = w.dev) := by
  have hnot : (w.dev (w.parityClient j)).writeStatus ≠ .fatal := by
    rw [h.write_ok]
    exact IoStatus.noConfusion
  rw [writeParityChunk]
  cases (w.dev (w.parityClient j)).write (slotPhysOffset s) chunk with
  | none => exact ⟨w.dev, w.maybeFaultParity_of_ne j hnot, fun _ => rfl⟩
  | some dv =>
    exact ⟨update w.dev (w.parityClient j) dv, maybeFaultParity_of_ne _ j hnot, by simp⟩

/-- New device contents keep an array healthy. -/
lemma Healthy.of_frame {dev' : PoolId → Device} (h : w.Healthy)
    (hf : Frame P w { w with dev := dev' }) :
    ({ w with dev := dev' } : World).Healthy :=
  ⟨h.wired.of_frame hf, h.bandLimited.of_frame hf, h.data_active, h.parity_active,
    fun p => (hf.status_eq p).1.trans (h.read_ok p),
    fun p => (hf.status_eq p).2.trans (h.write_ok p)⟩

lemma Healthy.mark (h : w.Healthy) (written dirty : Finset ℕ) :
    ({ w with writtenSlots := written, dirtySlots := dirty } : World).Healthy :=
  ⟨⟨h.wired.1, h.wired.2, h.wired.3, h.wired.4, h.wired.5⟩, h.bandLimited, h.data_active,
    h.parity_active, h.read_ok, h.write_ok⟩

/-- All parity rows of the slot, whatever the state of their members. -/
def RowsCurrent (w : World) (s n : ℕ) : Prop :=
  ∀ j < n, j < w.parityLevel → w.parityAt j s = w.encodedParity j s

variable {P : PoolId → ℕ → Prop} {w w' : World}

/-- A footprint that spares the parity pools and the stripe of the slot keeps its rows. -/
lemma RowsCurrent.of_frame {n : ℕ} (h : w.RowsCurrent s n) (hf : Frame P w w')
    (hpty : ∀ j < w.parityLevel, ∀ x, ¬ P (w.parityClient j) x)
    (hdt : ∀ d ∈ w.stripeMembers s, ∀ x, InSlot s x → ¬ P (w.dataClient d) x) :
    w'.RowsCurrent s n := by
  intro j hj hjl
  rw [hf.fields.2.2.2.2.2.2.2] at hjl
  rw [hf.parityAt_eq (fun x _ => hpty j hjl x), hf.encodedParity_eq hdt]
  exact h j hj hjl

/-- Writing the parity pools leaves the encoding of every stripe alone. -/
lemma Wired.encodedParity_row (hwd : w.Wired) {j0 s0 : ℕ} (hj0 : j0 < w.parityLevel)
    (hf : Frame (fun p x => p = w.parityClient j0 ∧ InSlot s0 x) w w') (j s : ℕ) :
    w'.encodedParity j s = w.encodedParity j s := by
  refine hf.encodedParity_eq (fun d hd x _ hx => ?_) j
  exact hwd.dataClient_ne_parityClient (hwd.lt_of_mem_stripe hd) hj0 hx.1

/-- Writing the right parity into one row spoils no row. -/
lemma Wired.parityAt_row (hwd : w.Wired) {j0 s0 : ℕ} (hj0 : j0 < w.parityLevel)
    (hf : Frame (fun p x => p = w.parityClient j0 ∧ InSlot s0 x) w w')
    (hrow : w'.parityAt j0 s0 = w.encodedParity j0 s0) {j : ℕ} (hj : j < w.parityLevel)
    (h : w.parityAt j s = w.encodedParity j s) : w'.parityAt j s = w'.encodedParity j s := by
  rw [hwd.encodedParity_row hj0 hf]
  by_cases hsm : j = j0 ∧ s = s0
  · obtain ⟨rfl, rfl⟩ := hsm
    exact hrow
  · rw [hf.parityAt_eq, h]
    rintro x hx ⟨hp, hx0⟩
    exact hsm ⟨hwd.parityClient_inj hj hj0 hp, inSlot_unique hx hx0⟩

end World

namespace WriteTask

/-- The task's member writes go to data members and stay inside the slots it will mark. -/
structure Tracked (t : WriteTask) (w : World) : Prop where
  ok : t.ok = true
  pool : ∀ seg ∈ t.futs, ∃ d < w.dataMembers.length, seg.pool = w.dataClient d
  slot : ∀ seg ∈ t.futs, seg.phys + seg.bytes.length ≤ (w.dev seg.pool).capacity →
    ∀ p x s, seg.Covers p x → World.InSlot s x → s ∈ t.touched
  stripe : ∀ s ∈ t.touched, w.stripeMembers s ≠ []

variable {t : WriteTask}

lemma Tracked.of_frame (h : t.Tracked w) (hf : World.Frame P w w') : t.Tracked w' := by
  have hcli : ∀ d, w'.dataClient d = w.dataClient d := by
    intro d
    rw [World.dataClient, World.dataClient, hf.fields.2.1]
  refine ⟨h.ok, fun seg hseg => ?_, fun seg hseg hcap => ?_, fun s hs => ?_⟩
  · obtain ⟨d, hd, hpo⟩ := h.pool seg hseg
    exact ⟨d, by rwa [hf.demoted.1.length_eq], by rwa [hcli]⟩
  · rw [hf.capacity_eq] at hcap
    exact h.slot seg hseg hcap
  · rw [hf.stripeMembers_eq]
    exact h.stripe s hs

lemma Tracked.mark (h : t.Tracked w) (written dirty : Finset ℕ) :
    t.Tracked { w with writtenSlots := written, dirtySlots := dirty } :=
  ⟨h.ok, h.pool, h.slot, h.stripe⟩

/-- Landing one member write keeps the account of the others. -/
lemma Tracked.eraseIdx {t : WriteTask} (h : t.Tracked w) (j : ℕ) :
    ({ t with futs := t.futs.eraseIdx j } : WriteTask).Tracked w :=
  ⟨h.ok, fun seg hseg => h.pool seg (mem_of_mem_eraseIdx hseg),
    fun seg hseg => h.slot seg (mem_of_mem_eraseIdx hseg), h.stripe⟩

/-- A slot some task is going to mark is still so after one of them has landed a write. -/
lemma exists_touched_set {ws : List WriteTask} (ht : ws[i]? = some t)
    (rest : List Segment) (h : ∃ t ∈ ws, s ∈ t.touched) :
    ∃ t' ∈ ws.set i { t with futs := rest }, s ∈ t'.touched := by
  obtain ⟨t1, hmem, hs⟩ := h
  obtain ⟨k, hk, heq⟩ := getElem_of_mem hmem
  obtain ⟨hi, hti⟩ := List.getElem?_eq_some_iff.mp ht
  by_cases hki : k = i
  · subst hki
    exact ⟨_, mem_set hk _, by rw [← hti, heq]; exact hs⟩
  · refine ⟨t1, mem_of_getElem? (i := k) ?_, hs⟩
    rw [getElem?_set_ne (.symm hki), getElem?_eq_getElem hk, heq]

end WriteTask

namespace BuildTask

/-- What the task holds is what the members hold. -/
structure Tracked (b : BuildTask) (w : World) : Prop where
  batch : ∀ s ∈ b.batch, w.stripeMembers s ≠ []
  reading : ∀ s stripe dchunks, b.phase = .reading s stripe dchunks →
    stripe = w.stripeMembers s ∧ stripe ≠ [] ∧
      dchunks = (stripe.take dchunks.length).map fun d => w.chunkAt d s
  writing : ∀ s stripe dchunks row, b.phase = .writing s stripe dchunks row →
    stripe = w.stripeMembers s ∧ stripe ≠ [] ∧ dchunks = w.stripeChunks s ∧ w.RowsCurrent s row

lemma tracked_idle {batch : List ℕ} (h : ∀ s ∈ batch, w.stripeMembers s ≠ []) :
    (⟨batch, .idle⟩ : BuildTask).Tracked w :=
  ⟨h, by simp, by simp⟩

/-- A footprint that spares the chunks the task has read keeps its account. -/
lemma Tracked.of_frame {b : BuildTask} (h : b.Tracked w) (hf : World.Frame P w w')
    (hrd : ∀ d s, b.HasRead d s → ∀ x, World.InSlot s x → ¬ P (w.dataClient d) x)
    (hrows : ∀ s stripe dchunks row, b.phase = .writing s stripe dchunks row → w.RowsCurrent s row →
      w'.RowsCurrent s row)
    : b.Tracked w' := by
  refine ⟨fun s hs => ?_, fun s stripe dchunks hph => ?_, fun s stripe dchunks row hph => ?_⟩
  · rw [hf.stripeMembers_eq]
    exact h.batch s hs
  · obtain ⟨hst, hne, hch⟩ := h.reading s stripe dchunks hph
    refine ⟨by rw [hf.stripeMembers_eq, hst], hne, hch.trans ?_⟩
    refine map_congr_left fun d hd => (hf.chunkAt_eq (hrd d s ?_)).symm
    rw [HasRead, hph]
    exact ⟨rfl, hd⟩
  · obtain ⟨hst, hne, hch, hcur⟩ := h.writing s stripe dchunks row hph
    refine ⟨by rw [hf.stripeMembers_eq, hst], hne, hch.trans ?_, hrows _ _ _ _ hph hcur⟩
    refine (hf.stripeChunks_eq fun d hd => hrd d s ?_).symm
    rw [HasRead, hph]
    exact ⟨rfl, hst ▸ hd⟩

lemma Tracked.mark {b : BuildTask} (h : b.Tracked w) (written dirty : Finset ℕ) :
    b.Tracked { w with writtenSlots := written, dirtySlots := dirty } :=
  ⟨h.batch, h.reading, h.writing⟩

end BuildTask

namespace Machine

/-- **The invariant.**  A clean written slot has current parity, or a `Write` in flight is going to
mark it. -/
structure Tracked (m : Machine) : Prop where
  healthy : m.world.Healthy
  writes : ∀ t ∈ m.writes, t.Tracked m.world
  builds : ∀ b ∈ m.builds, b.Tracked m.world
  dirty : ∀ s ∈ m.world.dirtySlots, m.world.stripeMembers s ≠ []
  current : ∀ s ∈ m.world.writtenSlots, s ∉ m.world.dirtySlots →
    m.world.RowsCurrent s m.world.parityLevel ∨ ∃ t ∈ m.writes, s ∈ t.touched

/-! ## One step -/

variable {m m' : Machine}

lemma Tracked.startWrite (h : m.Tracked) {blocks : List Block} {data : List UInt8}
    (hok : (m.world.dispatch blocks data).ok = true)
    (h64 : ∀ b ∈ blocks, b.offset + b.size < 2 ^ 64)
    (hstr : ∀ s ∈ (m.world.dispatch blocks data).touched, m.world.stripeMembers s ≠ []) :
    ({ m with writes := m.writes ++ [⟨(m.world.dispatch blocks data).futs,
      (m.world.dispatch blocks data).touched, (m.world.dispatch blocks data).ok⟩] } :
      Machine).Tracked := by
  refine ⟨h.healthy, fun t ht => ?_, h.builds, h.dirty, fun s hs hd => ?_⟩
  · rcases mem_append.mp ht with ht | ht
    · exact h.writes t ht
    · rw [List.mem_singleton.mp ht]
      refine ⟨hok, fun seg hseg => ?_, fun seg hseg hcap p x s hx hs => ?_, hstr⟩
      · obtain ⟨b, _, hof, _⟩ := m.world.dispatch_futs blocks data seg hseg
        exact ⟨_, hof.member_lt, hof.pool_eq⟩
      · obtain ⟨b, hb, hof, hsub⟩ := m.world.dispatch_futs blocks data seg hseg
        exact hsub (hof.slot_mem_touched (h64 b hb) (hcap.trans (h.healthy.bandLimited seg.pool)) hx
          hs)
  · refine (h.current s hs hd).imp_right fun ⟨t, ht, hts⟩ => ⟨t, ?_, hts⟩
    exact mem_append_left _ ht

/-- A landing write changes chunks of slots its task is going to mark, and none a builder holds. -/
lemma Tracked.land (h : m.Tracked) {j : ℕ} {t : WriteTask} {seg : Segment} {dv : Device}
    (ht : m.writes[i]? = some t) (hseg : t.futs[j]? = some seg)
    (hw : (m.world.dev seg.pool).write seg.phys seg.bytes = some dv)
    (hqt : ∀ b ∈ m.builds, ∀ d s, b.HasRead d s → ∀ x, World.InSlot s x →
      ¬ seg.Covers (m.world.dataClient d) x) :
    ({ m with
        world := { m.world with dev := update m.world.dev seg.pool dv }
        writes := m.writes.set i { t with futs := t.futs.eraseIdx j } } : Machine).Tracked := by
  have hf : World.Frame seg.Covers m.world
      { m.world with dev := update m.world.dev seg.pool dv } := World.frame_write hw
  have htw : t.Tracked m.world := h.writes t (mem_of_getElem? ht)
  have hsegm : seg ∈ t.futs := mem_of_getElem? hseg
  have hcap := Device.le_capacity_of_write hw
  have hpty : ∀ j < m.world.parityLevel, ∀ x, ¬ seg.Covers (m.world.parityClient j) x := by
    rintro j hj x ⟨hpo, _⟩
    obtain ⟨d, hd, hd'⟩ := htw.pool seg hsegm
    exact h.healthy.wired.dataClient_ne_parityClient hd hj (hd'.symm.trans hpo.symm)
  refine ⟨h.healthy.of_frame hf, fun t' ht' => ?_, fun b hb => ?_, h.dirty, fun s hs hd => ?_⟩
  · rcases mem_or_eq_of_mem_set ht' with ht' | rfl
    · exact (h.writes t' ht').of_frame hf
    · exact (htw.of_frame hf).eraseIdx j
  · have hb' := h.builds b hb
    refine hb'.of_frame hf (hqt b hb) fun s stripe dchunks row hph hrows => ?_
    refine hrows.of_frame hf hpty fun d hd => hqt b hb d s ?_
    rw [BuildTask.HasRead, hph]
    exact ⟨rfl, (hb'.writing s stripe dchunks row hph).1 ▸ hd⟩
  · by_cases hhit : ∃ d x, World.InSlot s x ∧ seg.Covers (m.world.dataClient d) x
    · -- The slot is hit: its task has yet to finish.
      obtain ⟨d, x, hx, hcov⟩ := hhit
      exact .inr (WriteTask.exists_touched_set ht _
        ⟨t, mem_of_getElem? ht, htw.slot seg hsegm hcap _ x s hcov hx⟩)
    · refine (h.current s hs hd).imp (fun hcur => ?_) (WriteTask.exists_touched_set ht _)
      exact hcur.of_frame hf hpty fun d _ x hx hcov => hhit ⟨d, x, hx, hcov⟩

lemma Tracked.finishWrite (h : m.Tracked) {t : WriteTask} (ht : m.writes[i]? = some t) : ({ m with
        world := { m.world with
          writtenSlots := m.world.writtenSlots ∪ t.touched
          dirtySlots := m.world.dirtySlots ∪ t.touched }
        writes := m.writes.eraseIdx i } : Machine).Tracked := by
  refine ⟨h.healthy.mark _ _, fun t' ht' => (h.writes t' (mem_of_mem_eraseIdx ht')).mark _ _,
    fun b hb => (h.builds b hb).mark _ _, fun s hs => ?_, fun s hs hd => ?_⟩
  · rcases mem_union.mp hs with hs | hs
    · exact h.dirty s hs
    · exact (h.writes t (mem_of_getElem? ht)).stripe s hs
  · have hnt : s ∉ t.touched := fun hst => hd (mem_union_right _ hst)
    have hwrt : s ∈ m.world.writtenSlots := (mem_union.mp hs).resolve_right hnt
    refine (h.current s hwrt fun hdirty => hd (mem_union_left _ hdirty)).imp_right ?_
    rintro ⟨t', ht', hst'⟩
    obtain ⟨k, hk⟩ := mem_iff_getElem?.mp ht'
    refine ⟨t', mem_eraseIdx_iff_getElem?.mpr ⟨k, ?_, hk⟩, hst'⟩
    rintro rfl
    rw [ht] at hk
    exact hnt (some.inj hk ▸ hst')

lemma Tracked.startBuild (h : m.Tracked) (maxBatch : ℕ) :
    ({ m with builds := m.builds ++ [⟨m.world.parityBatch maxBatch, .idle⟩] } :
      Machine).Tracked := by
  refine ⟨h.healthy, h.writes, fun b hb => ?_, h.dirty, h.current⟩
  rcases mem_append.mp hb with hb | hb
  · exact h.builds b hb
  · rw [List.mem_singleton.mp hb]
    refine BuildTask.tracked_idle fun s hs => h.dirty s ?_
    rw [World.parityBatch] at hs
    split_ifs at hs
    · exact (mem_sort _).mp hs
    · exact (mem_sort _).mp (mem_of_mem_take hs)

end Machine

/-! ## One round of a builder -/

namespace BuildTask

/-- **What a round of a builder does** on a healthy array: it changes its own account only, it puts
the right parity into one row, or it drops the mark of a slot whose rows are all in place. -/
inductive Advanced (w : World) : World → Option BuildTask → Prop
  | still {r : Option BuildTask} (hr : ∀ b ∈ r, b.Tracked w) : Advanced w w r
  | row {dev' : PoolId → Device} {j s : ℕ} {r : Option BuildTask} (hj : j < w.parityLevel)
      (hf : World.Frame (fun p x => p = w.parityClient j ∧
        World.InSlot s x) w { w with dev := dev' })
      (hrow : ({ w with dev := dev' } : World).parityAt j s = w.encodedParity j s)
      (hr : ∀ b ∈ r, b.Tracked { w with dev := dev' }) : Advanced w { w with dev := dev' } r
  | clean {s : ℕ} {r : Option BuildTask} (hrows : w.RowsCurrent s w.parityLevel)
      (hr : ∀ b ∈ r, b.Tracked w) :
      Advanced w { w with dirtySlots := w.dirtySlots.erase s } r

variable {w : World} {batch stripe : List ℕ} {dchunks : List (List UInt8)} {s row : ℕ}

variable {b : BuildTask}

lemma Advanced.still_some (hb : b.Tracked w) : Advanced w w (some b) :=
  Advanced.still fun _ hb' => some.inj hb' ▸ hb

lemma advanced_idle (h : (⟨batch, .idle⟩ : BuildTask).Tracked w) :
    Advanced w (advance w ⟨batch, .idle⟩).1 (advance w ⟨batch, .idle⟩).2 := by
  cases batch with
  | nil => exact .still fun b hb => absurd hb (by simp [advance])
  | cons s rest =>
    have hne : w.stripeMembers s ≠ [] := h.batch s (by simp)
    simp only [advance, if_neg hne]
    refine .still_some ⟨fun s' hs' => h.batch s' (by simp [hs']), ?_,
      by simp⟩
    intro s' stripe dchunks heq
    cases heq
    exact ⟨rfl, hne, rfl⟩

lemma advanced_reading (h : (⟨batch, .reading s stripe dchunks⟩ : BuildTask).Tracked w)
    (hw : w.Healthy) :
    Advanced w (advance w ⟨batch, .reading s stripe dchunks⟩).1
      (advance w ⟨batch, .reading s stripe dchunks⟩).2 := by
  have hidle : Advanced w w (some ⟨batch, .idle⟩) := .still_some (tracked_idle h.batch)
  obtain ⟨hst, hne, hch⟩ := h.reading s stripe dchunks rfl
  simp only [advance]
  cases hget : stripe[dchunks.length]? with
  | none =>
    -- All chunks are there.
    refine .still_some ⟨h.batch, by simp, ?_⟩
    intro s' stripe' dchunks' row heq
    cases heq
    rw [take_of_length_le (getElem?_eq_none_iff.mp hget)] at hch
    refine ⟨hst, hne, ?_, fun j hj => absurd hj j.not_lt_zero⟩
    rwa [World.stripeChunks, ← hst]
  | some d =>
    simp only []
    split_ifs with hact
    · exact hidle
    -- a healthy member is not ejected by a read
    have hfst : (w.readDataSegment d (slotPhysOffset s) kChunkLen).1 = w :=
      w.maybeFaultData_of_ne d (by rw [hw.read_ok]; exact IoStatus.noConfusion)
    rcases hrd : w.readDataSegment d (slotPhysOffset s) kChunkLen with ⟨w', buf⟩
    rw [hrd] at hfst
    obtain rfl : w' = w := hfst
    cases buf with
    | none => exact hidle
    | some chunk =>
      refine .still_some ⟨h.batch, ?_, by simp⟩
      intro s' stripe' dchunks' heq
      cases heq
      have hchk : chunk = w'.chunkAt d s := World.readDataSegment_chunk (by rw [hrd])
      refine ⟨hst, hne, ?_⟩
      rw [length_append, length_singleton, take_add_one, hget, map_append, ← hch, hchk]
      rfl

/-- A row that is written moves the builder on. -/
lemma advance_row (hrow : row < w.parityLevel) (hact : (w.parityMember row).state = .active)
    (hwri : w.writeParityChunk row s
      ((w.getCodec stripe.length).encodeParityShard row dchunks kChunkLen) = (w', true)) :
    advance w ⟨batch, .writing s stripe dchunks row⟩
      = (w', some ⟨batch, .writing s stripe dchunks (row + 1)⟩) := by
  simp [advance, if_pos hrow, if_neg (not_not.mpr hact), hwri]

section

variable (h : (⟨batch, .writing s stripe dchunks row⟩ : BuildTask).Tracked w)
include h

/-- After its row is written the task accounts for one row more. -/
lemma Tracked.nextRow (hwd : w.Wired) (hrow : row < w.parityLevel)
    (hf : World.Frame (fun p x => p = w.parityClient row ∧ World.InSlot s x) w w')
    (hnew : w'.parityAt row s = w.encodedParity row s) :
    (⟨batch, .writing s stripe dchunks (row + 1)⟩ : BuildTask).Tracked w' := by
  obtain ⟨hst, hne, hch, hrows⟩ := h.writing s stripe dchunks row rfl
  refine ⟨fun s' hs' => by rw [hf.stripeMembers_eq]; exact h.batch s' hs',
    by simp, ?_⟩
  intro s' stripe' dchunks' row' heq
  cases heq
  refine ⟨by rw [hf.stripeMembers_eq, hst], hne, ?_, fun j hj hjl => ?_⟩
  · rw [hch]
    refine (hf.stripeChunks_eq fun d hd x _ hx => ?_).symm
    exact hwd.dataClient_ne_parityClient (hwd.lt_of_mem_stripe hd) hrow hx.1
  · rw [hf.fields.2.2.2.2.2.2.2] at hjl
    rcases Nat.lt_succ_iff_lt_or_eq.mp hj with hj | rfl
    · exact hwd.parityAt_row hrow hf hnew hjl (hrows j hj hjl)
    · rw [hnew, hwd.encodedParity_row hrow hf]

lemma advanced_writing (hw : w.Healthy) :
    Advanced w (advance w ⟨batch, .writing s stripe dchunks row⟩).1
      (advance w ⟨batch, .writing s stripe dchunks row⟩).2 := by
  have hidle : (⟨batch, .idle⟩ : BuildTask).Tracked w := tracked_idle h.batch
  obtain ⟨hst, _, hch, hrows⟩ := h.writing s stripe dchunks row rfl
  simp only [advance]
  split_ifs with hrow hact
  · exact absurd (hw.parity_active row hrow) hact
  · have henc : (w.getCodec stripe.length).encodeParityShard row dchunks kChunkLen
        = w.encodedParity row s := by
      rw [World.encodedParity, hst, hch]
    have hlen : (w.encodedParity row s).length = kChunkLen :=
      ReedSolomon.encodeParityShard_length _ _ _ _
    rw [henc]
    obtain ⟨hf, hchk⟩ := World.writeParityChunk_spec w row s hlen
    obtain ⟨dev', hdev, hfa⟩ := hw.writeParityChunk_fst row s (w.encodedParity row s)
    rcases hwr : w.writeParityChunk row s (w.encodedParity row s) with ⟨w', ok⟩
    rw [hwr] at hf hchk hdev hfa
    obtain rfl : w' = { w with dev := dev' } := hdev
    cases ok with
    | false =>
      obtain rfl : dev' = w.dev := hfa rfl
      exact .still_some hidle
    | true =>
      refine .row hrow hf (hchk rfl) fun b hb => ?_
      rw [← some.inj hb]
      exact h.nextRow hw.wired hrow hf (hchk rfl)
  · exact .clean (fun j hj hjl => hrows j (by omega) hjl)
      fun b hb => some.inj hb ▸ hidle

end

lemma Tracked.advanced (h : b.Tracked w) (hw : w.Healthy) :
    Advanced w (b.advance w).1 (b.advance w).2 := by
  obtain ⟨batch, phase⟩ := b
  cases phase with
  | idle => exact advanced_idle h
  | reading s stripe dchunks => exact advanced_reading h hw
  | writing s stripe dchunks row => exact advanced_writing h hw

lemma Tracked.lt_of_hasRead (h : b.Tracked w) (hwd : w.Wired) {d : ℕ}
    (hrd : b.HasRead d s) : d < w.dataMembers.length := by
  obtain ⟨batch, phase⟩ := b
  cases phase with
  | idle => exact hrd.elim
  | reading s' stripe dchunks =>
    have hd : d ∈ stripe := mem_of_mem_take hrd.2
    rw [(h.reading s' stripe dchunks rfl).1] at hd
    exact hwd.lt_of_mem_stripe hd
  | writing s' stripe dchunks row =>
    have hd : d ∈ stripe := hrd.2
    rw [(h.writing s' stripe dchunks row rfl).1] at hd
    exact hwd.lt_of_mem_stripe hd

end BuildTask

namespace Machine

variable {m m' : Machine}

lemma Tracked.advanceBuild (h : m.Tracked) {r : Option BuildTask}
    (hadv : BuildTask.Advanced m.world w' r) {builds' : List BuildTask}
    (hb : ∀ b ∈ builds', b ∈ m.builds ∨ b ∈ r) :
    ({ m with world := w', builds := builds' } : Machine).Tracked := by
  have hwd := h.healthy.wired
  cases hadv with
  | still hr =>
    exact ⟨h.healthy, h.writes, fun b hb' => (hb b hb').elim (h.builds b) (hr b),
      h.dirty, h.current⟩
  | row hj hf hrow hr =>
    refine ⟨h.healthy.of_frame hf, fun t ht => (h.writes t ht).of_frame hf, fun b hb' => ?_,
      h.dirty, fun s hs hd => ?_⟩
    · rcases hb b hb' with hold | hnew
      · have htr := h.builds b hold
        refine htr.of_frame hf (fun d s hrd x _ hx => ?_) fun s _ _ row _ hrows j hj' hjl => ?_
        · exact hwd.dataClient_ne_parityClient (htr.lt_of_hasRead hwd hrd) hj hx.1
        · exact hwd.parityAt_row hj hf hrow hjl (hrows j hj' hjl)
      · exact hr b hnew
    · refine (h.current s hs hd).imp_left fun hcur j' hj' hjl => ?_
      exact hwd.parityAt_row hj hf hrow hjl (hcur j' hj' hjl)
  | @clean s r hrows hr =>
    refine ⟨h.healthy.mark _ _, fun t ht => (h.writes t ht).mark _ _,
      fun b hb' => ((hb b hb').elim (h.builds b) (hr b)).mark _ _,
      fun s' hs' => h.dirty s' (mem_of_mem_erase hs'), fun s' hs' hd' => ?_⟩
    by_cases hdirty : s' ∈ m.world.dirtySlots
    · -- The mark just dropped is that of this slot.
      have hss : s' = s := by
        by_contra hne
        exact hd' (mem_erase.mpr ⟨hne, hdirty⟩)
      exact .inl (hss ▸ hrows)
    · exact h.current s' hs' hdirty

/-- Every quiet step keeps the invariant. -/
lemma Tracked.step (h : m.Tracked) {a : Action} (hio : m.IoOk a) (hqt : m.Quiet a)
    (hstp : m.step a = some m') : m'.Tracked := by
  cases a with
  | startWrite blocks data =>
    simp only [Machine.step] at hstp
    split_ifs at hstp
    · exact some.inj hstp ▸ h
    · exact some.inj hstp ▸ h.startWrite hqt.1 hqt.2.1 hqt.2.2
  | land i j =>
    simp only [Machine.step, bind_eq_bind, bind_eq_some_iff] at hstp
    obtain ⟨t, ht, seg, hseg, hstp⟩ := hstp
    obtain ⟨dv, hdv⟩ := isSome_iff_exists.mp (hio t seg ht hseg)
    simp only [hdv] at hstp
    exact some.inj hstp ▸ h.land ht hseg hdv (hqt t seg ht hseg)
  | finishWrite i =>
    simp only [Machine.step, bind_eq_bind, bind_eq_some_iff] at hstp
    obtain ⟨t, ht, hstp⟩ := hstp
    rw [if_pos (h.writes t (mem_of_getElem? ht)).ok] at hstp
    split_ifs at hstp
    exact some.inj hstp ▸ h.finishWrite ht
  | startBuild maxBatch =>
    simp only [Machine.step] at hstp
    split_ifs at hstp with hlv
    · cases hstp
      refine ⟨h.healthy.mark _ _, fun t ht => (h.writes t ht).mark _ _,
        fun b hb => (h.builds b hb).mark _ _, by simp,
        fun s _ _ => .inl fun j _ hj => ?_⟩
      have hj' : j < m.world.parityLevel := hj
      omega
    · exact some.inj hstp ▸ h.startBuild maxBatch
  | advanceBuild i =>
    simp only [Machine.step, bind_eq_bind, bind_eq_some_iff] at hstp
    obtain ⟨b, hb, hstp⟩ := hstp
    have hadv := (h.builds b (mem_of_getElem? hb)).advanced h.healthy
    rcases hres : b.advance m.world with ⟨w', r⟩
    rw [hres] at hadv hstp
    cases r with
    | none =>
      refine some.inj hstp ▸ h.advanceBuild hadv fun b' hb' => .inl ?_
      exact mem_of_mem_eraseIdx hb'
    | some b1 =>
      refine some.inj hstp ▸ h.advanceBuild hadv fun b' hb' => ?_
      exact (mem_or_eq_of_mem_set hb').imp_right fun heq => by rw [heq]; rfl

/-- Every machine a quiet run reaches satisfies the invariant. -/
lemma Tracked.run (h : m.Tracked) (hrun : ReflTransGen QuietStep m m') : m'.Tracked := by
  induction hrun with
  | refl => exact h
  | tail _ hstp ih =>
    obtain ⟨a, hio, hqt, hstp⟩ := hstp
    exact ih.step hio hqt hstp

lemma IoStep.of_quiet (h : ReflTransGen QuietStep m m') : ReflTransGen IoStep m m' :=
  ReflTransGen.mono (p := IoStep) (fun _ _ ⟨a, hio, _, hstp⟩ => ⟨a, hio, hstp⟩) _ _ h

lemma step_advanceBuild {b b' : BuildTask} (hb : m.builds[i]? = some b)
    (hadv : b.advance m.world = (w', some b')) :
    m.step (.advanceBuild i) = some { m with world := w', builds := m.builds.set i b' } := by
  simp [step, hb, hadv]

/-- A builder may always advance quietly. -/
lemma QuietStep.advanceBuild (h : m.step (.advanceBuild i) = some m') : QuietStep m m' :=
  ⟨.advanceBuild i, trivial, trivial, h⟩

end Machine

/-- **Parity is current on clean slots, in quiet runs.**  Start any number of `Write` and
`BuildParity` tasks on a healthy array whose clean slots are current, and interleave them so that no
member write lands on a chunk a builder has already read.  Whenever no `Write` is in flight, every
written slot that is not dirty has the encoding of its stripe on every parity member. -/
theorem parityCurrent_of_quiet_run {w : World} (hw : w.Healthy)
    (hdirty : ∀ s ∈ w.dirtySlots, w.stripeMembers s ≠ [])
    (hcur : ∀ s ∈ w.writtenSlots, s ∉ w.dirtySlots →
      ∀ j < w.parityLevel, w.parityAt j s = w.encodedParity j s)
    {m : Machine} (hrun : ReflTransGen Machine.QuietStep ⟨w, [], []⟩ m)
    (hidle : m.writes = []) :
    ∀ s ∈ m.world.writtenSlots, s ∉ m.world.dirtySlots →
      ∀ j < m.world.parityLevel, m.world.parityAt j s = m.world.encodedParity j s := by
  have hinit : (⟨w, [], []⟩ : Machine).Tracked :=
    ⟨hw, fun t ht => absurd ht not_mem_nil, fun b hb => absurd hb not_mem_nil, hdirty,
      fun s hs hd => .inl fun j hj _ => hcur s hs hd j hj⟩
  have htra := hinit.run hrun
  intro s hs hd j hj
  rcases htra.current s hs hd with hrows | ⟨t, ht, _⟩
  · exact hrows j hj hj
  · rw [hidle] at ht
    simp at ht

/-! ## A mirror of one chunk

One data member with slot `0` live, one parity member.  `f` and `g` are the contents of the two
devices. -/

/-- A device of one slot. -/
def mirrorDisk (f : ℕ → UInt8) : Device :=
  ⟨f, none, kSuperblockSize + kChunkLen, kChunkLen, 0, true, .ok, .ok⟩

/-- The array. -/
def mirror (f g : ℕ → UInt8) (written dirty : Finset ℕ) : World where
  poolId := ⟨9, 0⟩
  dataMembers := [⟨⟨1, 0⟩, "d", 0, .data, .active, 0, false⟩]
  parityMembers := [⟨⟨2, 0⟩, "p", 0, .parity, .active, 0, false⟩]
  dataClients := [⟨1, 0⟩]
  parityClients := [⟨2, 0⟩]
  dataAlloc := [⟨1, 1, [], {0}⟩]
  dirtySlots := dirty
  writtenSlots := written
  parityLevel := 1
  dev := fun p => mirrorDisk (if p = ⟨1, 0⟩ then f else if p = ⟨2, 0⟩ then g else fun _ => 0)

namespace mirror

variable {f g : ℕ → UInt8} {written dirty : Finset ℕ}

lemma healthy : (mirror f g written dirty).Healthy := by
  have hnd : ([⟨1, 0⟩, ⟨2, 0⟩] : List PoolId).Nodup := by decide
  refine ⟨⟨rfl, rfl, rfl, rfl, hnd⟩, fun p => ?_, fun d hd => ?_, fun j hj => ?_,
    fun p => rfl, fun p => rfl⟩
  · exact Nat.add_le_add_left (Nat.le_mul_of_pos_left _ kSlotsPerMember_pos) _
  · obtain rfl : d = 0 := Nat.lt_one_iff.mp hd
    rfl
  · obtain rfl : j = 0 := Nat.lt_one_iff.mp hj
    rfl

lemma update_data (h : ℕ → UInt8) : { mirror f g written dirty with
      dev := update (mirror f g written dirty).dev ⟨1, 0⟩ (mirrorDisk h) } =
      mirror h g written dirty := by
  have hdev : update (mirror f g written dirty).dev ⟨1, 0⟩ (mirrorDisk h)
      = (mirror h g written dirty).dev := by
    funext p
    by_cases hp : p = ⟨1, 0⟩
    · subst hp
      rfl
    · rw [update_of_ne hp]
      simp [mirror, if_neg hp]
  rw [hdev]
  rfl

lemma update_parity (h : ℕ → UInt8) :
    update (mirror f g written dirty).dev ⟨2, 0⟩ (mirrorDisk h) =
    (mirror f h written dirty).dev := by
  funext p
  by_cases hp : p = ⟨2, 0⟩
  · subst hp
    rfl
  · rw [update_of_ne hp]
    simp [mirror, if_neg hp]

/-- The chunk of the data member. -/
def chunk (f : ℕ → UInt8) : List UInt8 := readRange f kSuperblockSize kChunkLen

/-- The parity of a data chunk. -/
def parity (f : ℕ → UInt8) : List UInt8 :=
  (⟨1, 1⟩ : ReedSolomon).encodeParityShard 0 [chunk f] kChunkLen

lemma length_parity : (parity f).length = kChunkLen := ReedSolomon.encodeParityShard_length _ _ _ _

lemma write_parity (c : List UInt8) (hlen : c.length = kChunkLen) :
    (mirror f g written dirty).writeParityChunk 0 0 c
      = (mirror f (writeRange g kSuperblockSize c) written dirty, true) := by
  have hwri : ((mirror f g written dirty).dev ⟨2, 0⟩).write kSuperblockSize c
      = some (mirrorDisk (writeRange g kSuperblockSize c)) :=
    if_pos ⟨rfl, by rw [hlen]; exact le_rfl⟩
  have hcli : (mirror f g written dirty).parityClient 0 = ⟨2, 0⟩ := rfl
  simp only [World.writeParityChunk, hcli, slotPhysOffset_zero, hwri, update_parity]
  rfl

/-! ### Runs -/

section

variable (f g written dirty)

/-- A `Write` of one byte that runs while the builders stand still. -/
lemma write_steps (builds : List BuildTask) (v : UInt8) : ∃ m1 m2 : Machine,
      (⟨mirror f g written dirty, [], builds⟩ : Machine).step (.startWrite [⟨0, 1⟩] [v]) = some m1 ∧
      m1.IoOk (.land 0 0) ∧ m1.builds = builds ∧ m1.step (.land 0 0) = some m2 ∧
      m2.step (.finishWrite 0) = some ⟨mirror (writeRange f kSuperblockSize [v]) g (written ∪ {0})
        (dirty ∪ {0}), [], builds⟩ := by
  refine ⟨⟨mirror f g written dirty, [⟨[⟨⟨1, 0⟩, kSuperblockSize, [v]⟩], {0}, true⟩], builds⟩,
    ⟨mirror (writeRange f kSuperblockSize [v]) g written dirty, [⟨[], {0}, true⟩], builds⟩,
    ?_, ?_, rfl, ?_, ?_⟩
  · with_unfolding_all rfl
  · rintro t seg ht hseg
    cases ht
    cases hseg
    with_unfolding_all rfl
  · rw [← update_data (writeRange f kSuperblockSize [v])]
    with_unfolding_all rfl
  · rfl

lemma write_run (builds : List BuildTask) (v : UInt8) :
    ReflTransGen Machine.IoStep ⟨mirror f g written dirty, [], builds⟩
      ⟨mirror (writeRange f kSuperblockSize [v]) g (written ∪ {0}) (dirty ∪ {0}), [], builds⟩ := by
  obtain ⟨m1, m2, h1, hio, _, h2, h3⟩ := write_steps f g written dirty builds v
  exact ((ReflTransGen.single ⟨.startWrite _ _, trivial, h1⟩).tail ⟨_, hio, h2⟩).tail
    ⟨.finishWrite 0, trivial, h3⟩

/-- With no builder in flight the `Write` is quiet. -/
lemma write_run_quiet (v : UInt8) :
    ReflTransGen Machine.QuietStep ⟨mirror f g written dirty, [], []⟩
      ⟨mirror (writeRange f kSuperblockSize [v]) g (written ∪ {0}) (dirty ∪ {0}), [], []⟩ := by
  obtain ⟨m1, m2, h1, hio, hb, h2, h3⟩ := write_steps f g written dirty [] v
  have hsta : (⟨mirror f g written dirty, [], []⟩ : Machine).Quiet (.startWrite [⟨0, 1⟩] [v]) := by
    have hdis : (mirror f g written dirty).dispatch [⟨0, 1⟩] [v]
        = ⟨1, 1, [⟨⟨1, 0⟩, kSuperblockSize, [v]⟩], {0}, true⟩ := by with_unfolding_all rfl
    simp only [Machine.Quiet, hdis, List.mem_singleton, forall_eq, Finset.mem_singleton]
    exact ⟨trivial, by norm_num, cons_ne_nil 0 []⟩
  have hland : m1.Quiet (.land 0 0) := by
    intro t seg _ _ b hb'
    simp [hb] at hb'
  exact ((ReflTransGen.single ⟨.startWrite _ _, trivial, hsta, h1⟩).tail
    ⟨_, hio, hland, h2⟩).tail ⟨.finishWrite 0, trivial, trivial, h3⟩

end

/-- A builder that has taken the slot and read its chunk. -/
def holding (f : ℕ → UInt8) : BuildTask := ⟨[], .reading 0 [0] [chunk f]⟩

lemma build_read_run (f g : ℕ → UInt8) (written : Finset ℕ) :
    ReflTransGen Machine.QuietStep ⟨mirror f g written {0}, [], []⟩
      ⟨mirror f g written {0}, [], [holding f]⟩ := by
  have h1 : (⟨mirror f g written {0}, [], []⟩ : Machine).step (.startBuild 0)
      = some ⟨mirror f g written {0}, [], [⟨[0], .idle⟩]⟩ := by with_unfolding_all rfl
  have h2 : (⟨mirror f g written {0}, [], [⟨[0], .idle⟩]⟩ : Machine).step (.advanceBuild 0)
      = some ⟨mirror f g written {0}, [], [⟨[], .reading 0 [0] []⟩]⟩ := by
    with_unfolding_all rfl
  have h3 : (⟨mirror f g written {0}, [], [⟨[], .reading 0 [0] []⟩]⟩ : Machine).step
      (.advanceBuild 0) = some ⟨mirror f g written {0}, [], [holding f]⟩ := by
    with_unfolding_all rfl
  exact ((ReflTransGen.single ⟨.startBuild 0, trivial, trivial, h1⟩).tail
    (.advanceBuild h2)).tail (.advanceBuild h3)

/-- From there the builder writes the parity of what it has read, whatever the member now holds. -/
lemma build_finish_run (f f' g : ℕ → UInt8) (written : Finset ℕ) :
    ReflTransGen Machine.QuietStep ⟨mirror f' g written {0}, [], [holding f]⟩
      ⟨mirror f' (writeRange g kSuperblockSize (parity f)) written ∅, [], []⟩ := by
  set g' := writeRange g kSuperblockSize (parity f)
  have h1 : (⟨mirror f' g written {0}, [], [holding f]⟩ : Machine).step (.advanceBuild 0)
      = some ⟨mirror f' g written {0}, [], [⟨[], .writing 0 [0] [chunk f] 0⟩]⟩ := rfl
  have h2 : (⟨mirror f' g written {0}, [], [⟨[], .writing 0 [0] [chunk f] 0⟩]⟩ : Machine).step
      (.advanceBuild 0) = some ⟨mirror f' g' written {0}, [],
        [⟨[], .writing 0 [0] [chunk f] 1⟩]⟩ := by
    have hadv : (⟨[], .writing 0 [0] [chunk f] 0⟩ : BuildTask).advance (mirror f' g written {0})
        = (mirror f' g' written {0},
          some ⟨[], .writing 0 [0] [chunk f] 1⟩) :=
      BuildTask.advance_row one_pos rfl (write_parity _ length_parity)
    exact Machine.step_advanceBuild rfl hadv
  have h3 : (⟨mirror f' g' written {0}, [],
      [⟨[], .writing 0 [0] [chunk f] 1⟩]⟩ : Machine).step (.advanceBuild 0)
        = some ⟨mirror f' g' written ∅, [], [⟨[], .idle⟩]⟩ := by
    rfl
  have h4 : (⟨mirror f' g' written ∅, [],
      [⟨[], .idle⟩]⟩ : Machine).step (.advanceBuild 0)
        = some ⟨mirror f' g' written ∅, [], []⟩ := rfl
  exact (((ReflTransGen.single (.advanceBuild h1)).tail
    (.advanceBuild h2)).tail (.advanceBuild h3)).tail
    (.advanceBuild h4)

lemma encodedParity_zero : (mirror f g written dirty).encodedParity 0 0 = parity f := by
  with_unfolding_all rfl

lemma parityAt_zero (f' : ℕ → UInt8) :
    (mirror f (writeRange g kSuperblockSize (parity f')) written dirty).parityAt 0 0 =
    parity f' := by
  rw [World.parityAt, slotPhysOffset_zero, ← length_parity]
  exact readRange_writeRange_self

/-- A mirror decodes from its parity alone, so the parity tells the chunk. -/
lemma chunk_eq_of_parity_eq {f f' : ℕ → UInt8} (h : parity f = parity f') : chunk f = chunk f' := by
  have hsz : (⟨1, 1⟩ : ReedSolomon).k ≤ ([1] : List ℕ).length := le_rfl
  obtain ⟨out, hout⟩ := ReedSolomon.decodeData_total ⟨1, 1⟩ le_rfl (by norm_num) hsz
    (by simp) (by simp) [parity f] kChunkLen
  have hdec : ∀ f'', parity f = parity f'' → out = [chunk f''] := by
    intro f'' hf''
    refine ReedSolomon.decodeData_sound _ rfl (fun c hc => ?_) (fun i hi => ?_) hout
    · rw [List.mem_singleton.mp hc]
      exact length_readRange
    · obtain rfl : i = 0 := Nat.lt_one_iff.mp hi
      rwa [getD_cons_zero, getD_cons_zero, ReedSolomon.shardOf]
  exact singleton_injective ((hdec f rfl).symm.trans (hdec f' h))

end mirror

/-- A quiet run: one `Write` and then one `BuildParity` over the written slot. -/
theorem parityCurrent_of_quiet_run_mirror : (mirror (writeRange (fun _ => 0) kSuperblockSize [7])
      (writeRange (fun _ => 0) kSuperblockSize
        (mirror.parity (writeRange (fun _ => 0) kSuperblockSize [7]))) {0} ∅).parityAt 0 0
      = (mirror (writeRange (fun _ => 0) kSuperblockSize [7])
        (writeRange (fun _ => 0) kSuperblockSize
          (mirror.parity (writeRange (fun _ => 0) kSuperblockSize [7])))
          {0} ∅).encodedParity 0 0 := by
  refine parityCurrent_of_quiet_run mirror.healthy
    (fun s hs => absurd hs (notMem_empty s)) (fun s hs => absurd hs (notMem_empty s))
    (((mirror.write_run_quiet _ _ ∅ ∅ 7).trans (mirror.build_read_run _ _ _)).trans
      (mirror.build_finish_run _ _ _ _)) rfl 0 ?_ (notMem_empty 0) 0 one_pos
  exact Finset.mem_singleton_self 0

/-- **A clean slot with stale parity.**  A `BuildParity` reads the chunk; a second `Write` of the
same byte lands and finishes; the builder then writes the parity of the old chunk and drops the
dirty mark.  No task is in flight any more, all I/O has succeeded, and the parity is that of a chunk
no member holds. -/
theorem staleParity_after_write_behind_builder : (mirror (fun _ => 0) (fun _ => 0) ∅ ∅).Healthy ∧
    ∃ m : Machine, ReflTransGen Machine.IoStep
        ⟨mirror (fun _ => 0) (fun _ => 0) ∅ ∅, [], []⟩ m ∧
      m.writes = [] ∧ m.builds = [] ∧ 0 ∈ m.world.writtenSlots ∧ 0 ∉ m.world.dirtySlots ∧
      0 < m.world.parityLevel ∧ m.world.parityAt 0 0 ≠ m.world.encodedParity 0 0 := by
  set f₁ : ℕ → UInt8 := writeRange (fun _ => 0) kSuperblockSize [1] with hf₁
  set f₂ := writeRange f₁ kSuperblockSize [2] with hf₂
  have hrd := Machine.IoStep.of_quiet
    ((mirror.write_run_quiet (fun _ => 0) (fun _ => 0) ∅ ∅ 1).trans (mirror.build_read_run _ _ _))
  have hrun := hrd.trans ((mirror.write_run f₁ _ _ {0} _ 2).trans
    (Machine.IoStep.of_quiet (mirror.build_finish_run f₁ f₂ _ _)))
  refine ⟨mirror.healthy, _, hrun, rfl, rfl, by simp [mirror], notMem_empty 0, one_pos, ?_⟩
  simp only [mirror.parityAt_zero, mirror.encodedParity_zero]
  intro heq
  -- The two chunks differ in their first byte.
  have hchk := mirror.chunk_eq_of_parity_eq heq
  have hbyte : f₁ kSuperblockSize = f₂ kSuperblockSize := by
    have h := congrArg (fun c => c.getD 0 0) hchk
    simpa only [mirror.chunk, getD_readRange kChunkLen_pos, add_zero] using h
  rw [hf₂, writeRange_apply_of_mem le_rfl (by simp) 0, hf₁,
    writeRange_apply_of_mem le_rfl (by simp) 0, Nat.sub_self] at hbyte
  simp at hbyte

end ClioCore.SafeBdev
