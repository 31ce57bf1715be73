import ClioCore.Cte.Extents

/-!
# Who may change what

The tasks of one container interleave, and three things keep them out of each other's way: the write
token of a blob, the reader pins with the drain bit, and the block devices, which hand out no byte
twice.  This file states the discipline as an invariant and a rely condition.

* `Holds`, `Settled` — the blocks of an object are what is handed out to it, each once; and, for an
  object whose token is free, its sizes agree.
* `Inv` — the invariant of the container: every object whose token is free is settled, and what a
  reader with a pin is reading is handed out.
* `Rely` — what the others leave alone: the objects whose token the task holds, the extents handed
  out to them and the bytes there.
* `Frame` — what a section under a token may change.  Such a section keeps the others' rely
  (`Frame.rely`).  `Local` is the same for the sections that leave the books alone.
-/

namespace ClioCore.Cte

open Foundations
open SafeBdev (PoolId)

/-! ## Objects in order -/

/-- The size cache is right. -/
def Sized (l : Layout) : Prop := l.totalSizeCache = computeTotalSizeSlow l.blocks

/-- All size caches of an object are right. -/
structure Sizes (b : BlobInfo) : Prop where
  main : Sized b.layout
  replicas : ∀ r ∈ b.replicas, Sized r.layout
  staging : Sized b.staging

/-- What is handed out to `o` are the blocks of `b`, each once, and the extents `todo` that are
about to be given back. -/
structure Holds (s : State) (o : ObjId) (b : BlobInfo) (todo : List Extent) : Prop where
  nodup : (b.allBlocks.map BlobBlock.extent ++ todo).Nodup
  live : ∀ e ∈ b.allBlocks.map BlobBlock.extent ++ todo, (e, o) ∈ s.live
  fits : ∀ blk ∈ b.allBlocks, blk.size ≤ blk.capacity
  exact : s.hist.leaked = false → ∀ e, (e, o) ∈ s.live →
    e ∈ b.allBlocks.map BlobBlock.extent ++ todo

/-- An object that nobody is working on. -/
structure Settled (s : State) (o : ObjId) : Prop where
  holds : Holds s o (s.objs o) []
  sizes : Sizes (s.objs o)
  staging : (s.objs o).staging = .empty
  draining : (s.objs o).draining = false

/-- The blocks a reader may find in an object. -/
def BlobInfo.published (b : BlobInfo) : List BlobBlock :=
  b.layout.blocks ++ b.replicas.flatMap fun r => r.layout.blocks

/-- The invariant of the container. -/
structure Inv (s : State) : Prop where
  live : LiveOk s.live
  unborn : ∀ o, s.nextObj ≤ o → s.objs o = BlobInfo.new "" 0
  born : ∀ x ∈ s.live, x.2 < s.nextObj
  mapped : ∀ k o, s.blobs.lookup k = some o → o < s.nextObj
  free : ∀ o, (s.objs o).writeOwner = none → Settled s o
  published : ∀ o, (s.objs o).draining = false → ∀ b ∈ (s.objs o).published, (b.extent, o) ∈ s.live
  pins : ∀ o, (s.objs o).pins = (s.hist.reading.filter fun r => r.2.1 = o).length
  reading : ∀ r ∈ s.hist.reading, ∀ b ∈ r.2.2, (b.extent, r.2.1) ∈ s.live

/-! ## Rely -/

/-- An object apart from its readers. -/
def BlobInfo.unpinned (b : BlobInfo) : BlobInfo := { b with pins := 0 }

/-- Object `o`, what is handed out to it and the bytes there are as before; readers may have come
and gone, but none comes while the object is draining. -/
structure SameBlob (o : ObjId) (s s' : State) : Prop where
  info : (s'.objs o).unpinned = (s.objs o).unpinned
  live : ∀ e, (e, o) ∈ s'.live ↔ (e, o) ∈ s.live
  mem : ∀ e, (e, o) ∈ s.live → ∀ a, e.Covers e.pool a → s'.mem e.pool a = s.mem e.pool a
  pins : (s.objs o).draining = true → (s'.objs o).pins ≤ (s.objs o).pins
  booked : s'.hist.booked o = s.hist.booked o

/-- What a task relies on: nobody else touches what it holds the token of, takes away its read pins
or gives it a token. -/
structure Rely (t : TaskId) (s s' : State) : Prop where
  blob : ∀ o, (s.objs o).writeOwner = some t → SameBlob o s s'
  tokens : ∀ o, (s'.objs o).writeOwner = some t → (s.objs o).writeOwner = some t
  reading : ∀ r ∈ s.hist.reading, r.1 = t → r ∈ s'.hist.reading
  nextObj : s.nextObj ≤ s'.nextObj
  fault : s.hist.fault = true → s'.hist.fault = true
  leaked : s.hist.leaked = true → s'.hist.leaked = true

namespace SameBlob

variable {o : ObjId} {s s' s'' : State}

lemma refl (o : ObjId) (s : State) : SameBlob o s s :=
  ⟨rfl, fun _ => Iff.rfl, fun _ _ _ _ => rfl, fun _ => le_refl _, rfl⟩

/-- A part of the object that is not about its readers. -/
lemma field {β : Type} (h : SameBlob o s s') (f : BlobInfo → β) (hf : ∀ b, f b.unpinned = f b) :
    f (s'.objs o) = f (s.objs o) := by rw [← hf, h.info, hf]

lemma owner (h : SameBlob o s s') : (s'.objs o).writeOwner = (s.objs o).writeOwner :=
  h.field BlobInfo.writeOwner fun _ => rfl

lemma draining (h : SameBlob o s s') : (s'.objs o).draining = (s.objs o).draining :=
  h.field BlobInfo.draining fun _ => rfl

lemma trans (h : SameBlob o s s') (h' : SameBlob o s' s'') : SameBlob o s s'' where
  info := h'.info.trans h.info
  live e := (h'.live e).trans (h.live e)
  mem e he a ha := (h'.mem e ((h.live e).mpr he) a ha).trans (h.mem e he a ha)
  pins hd := (h'.pins (h.draining.trans hd)).trans (h.pins hd)
  booked := h'.booked.trans h.booked

lemma layout (h : SameBlob o s s') : (s'.objs o).layout = (s.objs o).layout :=
  h.field BlobInfo.layout fun _ => rfl

lemma replicas (h : SameBlob o s s') : (s'.objs o).replicas = (s.objs o).replicas :=
  h.field BlobInfo.replicas fun _ => rfl

lemma staging (h : SameBlob o s s') : (s'.objs o).staging = (s.objs o).staging :=
  h.field BlobInfo.staging fun _ => rfl

lemma allBlocks (h : SameBlob o s s') : (s'.objs o).allBlocks = (s.objs o).allBlocks := by
  simp [BlobInfo.allBlocks, h.layout, h.replicas, h.staging]

lemma holds (h : SameBlob o s s') (hlkd : s.hist.leaked = true → s'.hist.leaked = true)
    {b : BlobInfo} {todo : List Extent} (hb : Holds s o b todo) : Holds s' o b todo where
  nodup := hb.nodup
  live e he := (h.live e).mpr (hb.live e he)
  fits := hb.fits
  exact hl e he := hb.exact (Bool.eq_false_iff.mpr fun ht => Bool.eq_false_iff.mp hl (hlkd ht)) e
    ((h.live e).mp he)

lemma sizes (h : SameBlob o s s') (hs : Sizes (s.objs o)) : Sizes (s'.objs o) where
  main := h.layout ▸ hs.main
  replicas := h.replicas ▸ hs.replicas
  staging := h.staging ▸ hs.staging

lemma settled (h : SameBlob o s s') (hlkd : s.hist.leaked = true → s'.hist.leaked = true)
    (hs : Settled s o) : Settled s' o where
  holds := by
    have hh := h.holds hlkd hs.holds
    have hall := h.allBlocks
    exact ⟨hall ▸ hh.nodup, hall ▸ hh.live, hall ▸ hh.fits, hall ▸ hh.exact⟩
  sizes := h.sizes hs.sizes
  staging := h.staging.trans hs.staging
  draining := h.draining.trans hs.draining

/-- A block list within what is handed out keeps its bytes. -/
lemma bytesOf (h : SameBlob o s s') {bs : List BlobBlock}
    (hlv : ∀ b ∈ bs, (b.extent, o) ∈ s.live) (hft : ∀ b ∈ bs, b.size ≤ b.capacity) :
    bytesOf s'.mem bs = bytesOf s.mem bs :=
  bytesOf_congr hft fun b hb a ha => h.mem b.extent (hlv b hb) a ha

end SameBlob

namespace Rely

variable {t : TaskId} {s s' s'' : State}

lemma refl (t : TaskId) (s : State) : Rely t s s :=
  ⟨fun o _ => SameBlob.refl o s, fun _ h => h, fun _ h _ => h, le_refl _, fun h => h, fun h => h⟩

lemma trans (h : Rely t s s') (h' : Rely t s' s'') : Rely t s s'' where
  blob o ho := (h.blob o ho).trans (h'.blob o ((h.blob o ho).owner.trans ho))
  tokens o ho := h.tokens o (h'.tokens o ho)
  reading r hr ht := h'.reading r (h.reading r hr ht) ht
  nextObj := h.nextObj.trans h'.nextObj
  fault hf := h'.fault (h.fault hf)
  leaked hl := h'.leaked (h.leaked hl)

end Rely

/-! ## Sections under a token -/

/-- The books of the container are as before, up to a mirrored record of the blob `key`, the logs,
the remaining spaces and the answers used up. -/
structure Calm (key : BlobKey) (s s' : State) : Prop where
  reading : s'.hist.reading = s.hist.reading
  acquired : s'.hist.acquired = s.hist.acquired
  booked : s'.hist.booked = s.hist.booked
  fault : s.hist.fault = true → s'.hist.fault = true
  leaked : s.hist.leaked = true → s'.hist.leaked = true
  leakedFault : s'.hist.leaked = true → s.hist.leaked = true ∨ s'.hist.fault = true
  nextObj : s'.nextObj = s.nextObj
  blobs : s'.blobs = s.blobs
  tagNames : s'.tagNames = s.tagNames
  tagInfos : s'.tagInfos = s.tagInfos
  shm : ∀ k, s'.shm k = true → s.shm k = true ∨ k = key
  env : s'.env = s.env

/-- The task `t` holds the token of `o`, and of the objects, of what is handed out and of the bytes
there only those of `o` change. -/
structure Within (t : TaskId) (o : ObjId) (s s' : State) : Prop where
  owner : (s.objs o).writeOwner = some t
  owner' : (s'.objs o).writeOwner = some t
  pins : (s'.objs o).pins = (s.objs o).pins
  objs : ∀ o', o' ≠ o → s'.objs o' = s.objs o'
  live : ∀ e o', o' ≠ o → ((e, o') ∈ s'.live ↔ (e, o') ∈ s.live)
  mem : ∀ x ∈ s.live, x.2 ≠ o → ∀ a, x.1.Covers x.1.pool a → s'.mem x.1.pool a = s.mem x.1.pool a

/-- What a section of the task `t` that holds the token of `o` may change at most: the object, what
is handed out to it, the bytes there, the size booked for it, and the maps. -/
structure Frame (t : TaskId) (o : ObjId) (s s' : State) : Prop extends Within t o s s' where
  reading : s'.hist.reading = s.hist.reading
  fault : s.hist.fault = true → s'.hist.fault = true
  leaked : s.hist.leaked = true → s'.hist.leaked = true
  nextObj : s'.nextObj = s.nextObj
  mapped : ∀ k o', s'.blobs.lookup k = some o' → s.blobs.lookup k = some o'
  booked : ∀ o', o' ≠ o → s'.hist.booked o' = s.hist.booked o'

/-- A section of the task `t` under the token of `o`, the blob `key`, that leaves the books alone.
-/
structure Local (t : TaskId) (o : ObjId) (key : BlobKey) (s s' : State) : Prop
    extends Calm key s s', Within t o s s'

/-- No request to free is about bytes that a reader with a pin is reading. -/
def FreeSafe (s s' : State) : Prop :=
  ∃ es, s'.hist.freed = s.hist.freed ++ es ∧
    ∀ e ∈ es, ∀ r ∈ s.hist.reading, ∀ b ∈ r.2.2, b.extent.Apart e

namespace Calm

variable {key : BlobKey} {s s' s'' : State}

lemma trans (h : Calm key s s') (h' : Calm key s' s'') : Calm key s s'' where
  reading := h'.reading.trans h.reading
  acquired := h'.acquired.trans h.acquired
  booked := h'.booked.trans h.booked
  fault hf := h'.fault (h.fault hf)
  leaked hl := h'.leaked (h.leaked hl)
  leakedFault hl := (h'.leakedFault hl).elim (fun hl => (h.leakedFault hl).imp id h'.fault) Or.inr
  nextObj := h'.nextObj.trans h.nextObj
  blobs := h'.blobs.trans h.blobs
  tagNames := h'.tagNames.trans h.tagNames
  tagInfos := h'.tagInfos.trans h.tagInfos
  shm k hk := (h'.shm k hk).elim (h.shm k) Or.inr
  env := h'.env.trans h.env

/-- A step that changes none of the books. -/
lemma of_eq (hhist : s'.hist = s.hist) (hnx : s'.nextObj = s.nextObj) (hbls : s'.blobs = s.blobs)
    (hns : s'.tagNames = s.tagNames) (his : s'.tagInfos = s.tagInfos) (hshm : s'.shm = s.shm)
    (henv : s'.env = s.env) : Calm key s s' :=
  ⟨by rw [hhist], by rw [hhist], by rw [hhist], fun h => hhist ▸ h, fun h => hhist ▸ h,
    fun h => Or.inl (hhist ▸ h), hnx, hbls, hns, his, fun _ h => Or.inl (hshm ▸ h), henv⟩

section

variable (key s)

lemma modifyObj (o : ObjId) (f : BlobInfo → BlobInfo) :
    Calm key s (s.modifyObj o f) := of_eq rfl rfl rfl rfl rfl rfl rfl

lemma refl : Calm key s s := of_eq rfl rfl rfl rfl rfl rfl rfl

lemma ticked : Calm key s s.ticked := of_eq rfl rfl rfl rfl rfl rfl rfl

lemma faulted : Calm key s s.faulted :=
  ⟨rfl, rfl, rfl, fun _ => rfl, fun h => h, Or.inl, rfl, rfl, rfl, rfl, fun _ h => Or.inl h, rfl⟩

lemma asked (es : List Extent) : Calm key s (s.asked es) :=
  ⟨rfl, rfl, rfl, fun h => h, fun h => h, Or.inl, rfl, rfl, rfl, rfl, fun _ h => Or.inl h, rfl⟩

lemma leak : Calm key s s.leak :=
  ⟨rfl, rfl, rfl, fun _ => rfl, fun _ => rfl, fun _ => Or.inr rfl, rfl, rfl, rfl, rfl,
    fun _ h => Or.inl h, rfl⟩

lemma logBlob (wid : ℕ) (txn : BlobTxn) :
    Calm key s (s.logBlob wid txn) := of_eq rfl rfl rfl rfl rfl rfl rfl

lemma mirrorBlobToShm : Calm key s (s.mirrorBlobToShm key) :=
  ⟨rfl, rfl, rfl, fun h => h, fun h => h, Or.inl, rfl, rfl, rfl, rfl, fun k hk => by
    by_cases hkey : k = key
    · exact Or.inr hkey
    · have hk' : Function.update s.shm key true k = true := hk
      rw [Function.update_of_ne hkey] at hk'
      exact Or.inl hk', rfl⟩

end

end Calm

lemma Local.toFrame {t : TaskId} {o : ObjId} {key : BlobKey} {s s' : State}
    (h : Local t o key s s') : Frame t o s s' where
  toWithin := h.toWithin
  reading := h.reading
  fault := h.fault
  leaked := h.leaked
  nextObj := h.nextObj
  mapped _ _ hk := h.blobs ▸ hk
  booked _ _ := by rw [h.booked]

namespace Frame

variable {t : TaskId} {o : ObjId} {s s' : State}

/-- An object other than the one worked on stays the same. -/
lemma sameBlob (h : Frame t o s s') {o' : ObjId} (hne : o' ≠ o) : SameBlob o' s s' where
  info := by rw [h.objs o' hne]
  live e := h.live e o' hne
  mem e he a ha := h.mem (e, o') he hne a ha
  pins _ := le_of_eq (by rw [h.objs o' hne])
  booked := h.booked o' hne

/-- A section under a token keeps the others' rely. -/
lemma rely (h : Frame t o s s') {t' : TaskId} (hne : t' ≠ t) : Rely t' s s' where
  blob _ ho' := h.sameBlob fun he => hne (Option.some.inj (ho'.symm.trans (he ▸ h.owner)))
  tokens o' ho' := by
    by_cases he : o' = o
    · subst he
      exact absurd (Option.some.inj (ho'.symm.trans h.owner')) hne
    · rwa [h.objs o' he] at ho'
  reading _ hr _ := h.reading ▸ hr
  nextObj := le_of_eq h.nextObj.symm
  fault := h.fault
  leaked := h.leaked

/-- A section under a token keeps the invariant if it leaves the object in order. -/
lemma inv (h : Frame t o s s') (hI : Inv s) (hlv : LiveOk s'.live)
    (hpub : (s'.objs o).draining = false → ∀ b ∈ (s'.objs o).published, (b.extent, o) ∈ s'.live)
    (hrd : ∀ r ∈ s.hist.reading, r.2.1 = o → ∀ b ∈ r.2.2, (b.extent, o) ∈ s'.live) : Inv s' where
  live := hlv
  unborn o' ho' := by
    rw [h.nextObj] at ho'
    have hne : o' ≠ o := by
      rintro rfl
      have hown := h.owner
      rw [hI.unborn o' ho'] at hown
      simp [BlobInfo.new] at hown
    rw [h.objs o' hne]
    exact hI.unborn o' ho'
  born x hx := by
    rw [h.nextObj]
    by_cases hxo : x.2 = o
    · by_contra hge
      have hown := h.owner
      rw [← hxo, hI.unborn x.2 (Nat.le_of_not_lt hge)] at hown
      simp [BlobInfo.new] at hown
    · exact hI.born x ((h.live x.1 x.2 hxo).mp hx)
  mapped k o' hk := by
    rw [h.nextObj]
    exact hI.mapped k o' (h.mapped k o' hk)
  free o' ho' := by
    have hne : o' ≠ o := by
      rintro rfl
      cases ho'.symm.trans h.owner'
    exact (h.sameBlob hne).settled h.leaked (hI.free o' (by rwa [h.objs o' hne] at ho'))
  published o' hd b hb := by
    by_cases hne : o' = o
    · subst hne
      exact hpub hd b hb
    · rw [h.objs o' hne] at hd hb
      exact (h.live b.extent o' hne).mpr (hI.published o' hd b hb)
  pins o' := by
    rw [h.reading]
    by_cases hne : o' = o
    · subst hne
      rw [h.pins]
      exact hI.pins o'
    · rw [h.objs o' hne]
      exact hI.pins o'
  reading r hr b hb := by
    rw [h.reading] at hr
    by_cases hne : r.2.1 = o
    · rw [hne]
      exact hrd r hr hne b hb
    · exact (h.live b.extent r.2.1 hne).mpr (hI.reading r hr b hb)

end Frame

end ClioCore.Cte
