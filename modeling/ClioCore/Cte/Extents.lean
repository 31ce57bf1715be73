import ClioCore.Cte.BlobTasks
import ClioCore.Foundations.ByteList

/-!
# What the devices have handed out

The block devices keep `State.live` such that no byte is handed out twice (`LiveOk`).  This file has
what allocation and release do to it, and what a layout whose blocks are all handed out can rely on:
its blocks are apart, so writing one leaves the others as they are.
-/

namespace ClioCore.Cte

open Foundations List
open SafeBdev (PoolId)

/-! ## Extents apart -/

lemma Extent.Apart.symm {e f : Extent} (h : e.Apart f) : f.Apart e := by
  rcases h with h | h | h
  · exact Or.inl h.symm
  · exact Or.inr (Or.inr h)
  · exact Or.inr (Or.inl h)

lemma Extent.Apart.not_covers {e f : Extent} (h : e.Apart f) {p : PoolId} {a : ℕ}
    (he : e.Covers p a) : ¬ f.Covers p a := by
  rintro ⟨hp, hlo, hhi⟩
  obtain ⟨hp', hlo', hhi'⟩ := he
  rcases h with h | h | h
  · exact h (hp'.trans hp.symm)
  · omega
  · omega

instance : Std.Symm fun x y : Extent × ObjId => x.1.Apart y.1 := ⟨fun _ _ h => h.symm⟩

/-- No byte is handed out twice, and nothing empty is handed out. -/
structure LiveOk (live : List (Extent × ObjId)) : Prop where
  apart : live.Pairwise fun x y => x.1.Apart y.1
  pos : ∀ x ∈ live, 0 < x.1.size

namespace LiveOk

variable {live : List (Extent × ObjId)} {o : ObjId}

lemma apart_of_ne (h : LiveOk live) {x y : Extent × ObjId} (hx : x ∈ live) (hy : y ∈ live)
    (hne : x ≠ y) : x.1.Apart y.1 :=
  h.apart.forall hx hy hne

/-- A byte that is handed out belongs to one entry. -/
lemma eq_of_covers (h : LiveOk live) {x y : Extent × ObjId} (hx : x ∈ live) (hy : y ∈ live)
    {p : PoolId} {a : ℕ} (hxa : x.1.Covers p a) (hya : y.1.Covers p a) : x = y := by
  by_contra hne
  exact (h.apart_of_ne hx hy hne).not_covers hxa hya

/-- An entry is known by where it starts. -/
lemma eq_of_start (h : LiveOk live) {x y : Extent × ObjId} (hx : x ∈ live) (hy : y ∈ live)
    (hp : x.1.pool = y.1.pool) (ho : x.1.offset = y.1.offset) : x = y := by
  have hxpos := h.pos x hx
  have hypos := h.pos y hy
  exact h.eq_of_covers hx hy ⟨rfl, le_refl _, by omega⟩ ⟨hp.symm, by omega, by omega⟩

lemma filter (h : LiveOk live) (q : Extent × ObjId → Bool) : LiveOk (live.filter q) :=
  ⟨h.apart.filter q, fun x hx => h.pos x (mem_of_mem_filter hx)⟩

/-- Handing out what may be handed out. -/
lemma grant (h : LiveOk live) {offer : List Extent} (hoff : Grantable live offer) (o : ObjId) :
    LiveOk (live ++ offer.map fun e => (e, o)) := by
  obtain ⟨hpair, hfr⟩ := hoff
  constructor
  · refine pairwise_append.mpr ⟨h.apart, ?_, ?_⟩
    · exact pairwise_map.mpr hpair
    · intro x hx y hy
      obtain ⟨e, he, rfl⟩ := mem_map.mp hy
      exact (hfr e he).2 x hx
  · intro x hx
    rcases mem_append.mp hx with hx | hx
    · exact h.pos x hx
    · obtain ⟨e, he, rfl⟩ := mem_map.mp hx
      exact (hfr e he).1

end LiveOk

/-! ## Release -/

/-- Taking back a whole extent removes its entry and nothing else. -/
lemma releaseExtent_eq {live : List (Extent × ObjId)} (h : LiveOk live) {e : Extent} {o : ObjId}
    (he : (e, o) ∈ live) : releaseExtent live e = live.filter fun x => x.1 ≠ e := by
  have hstp : ∀ x ∈ live, (if x.1.pool = e.pool ∧ x.1.offset = e.offset then
        if e.size < x.1.size then [((⟨e.pool, e.offset + e.size, x.1.size - e.size⟩ : Extent), x.2)]
        else []
      else [x]) = if x.1 ≠ e then [x] else [] := by
    intro x hx
    by_cases hs : x.1.pool = e.pool ∧ x.1.offset = e.offset
    · obtain rfl := h.eq_of_start hx he hs.1 hs.2
      simp
    · have hne : x.1 ≠ e := by
        rintro rfl
        exact hs ⟨rfl, rfl⟩
      rw [if_neg hs, if_pos hne]
  rw [releaseExtent, flatMap_congr hstp]
  clear h he hstp
  induction live with
  | nil => rfl
  | cons x live ih =>
    rw [flatMap_cons, ih]
    by_cases hx : x.1 = e <;> simp [hx]

/-- Taking back several extents of an object. -/
lemma foldl_releaseExtent_eq {live : List (Extent × ObjId)} (h : LiveOk live) {o : ObjId}
    {es : List Extent} (hes : es.Nodup) (hlv : ∀ e ∈ es, (e, o) ∈ live) :
    es.foldl releaseExtent live = live.filter fun x => x.1 ∉ es := by
  induction es generalizing live with
  | nil => simp
  | cons e es ih =>
    obtain ⟨he, hes⟩ := nodup_cons.mp hes
    rw [foldl_cons, releaseExtent_eq h (hlv e mem_cons_self), ih (h.filter _) hes, filter_filter]
    · apply filter_congr
      intro x _
      by_cases hx : x.1 = e <;> simp [hx]
    · intro f hf
      refine mem_filter.mpr ⟨hlv f (mem_cons_of_mem e hf), ?_⟩
      have hne : f ≠ e := fun h => he (h ▸ hf)
      simpa using hne

/-! ## Bytes of blocks -/

variable {mem mem' : PoolId → ℕ → UInt8}

@[simp] lemma bytesOf_nil : bytesOf mem [] = [] := rfl

@[simp] lemma bytesOf_cons (b : BlobBlock) (bs : List BlobBlock) :
    bytesOf mem (b :: bs) = readRange (mem b.pool) b.targetOffset b.size ++ bytesOf mem bs := rfl

lemma bytesOf_append (bs cs : List BlobBlock) :
    bytesOf mem (bs ++ cs) = bytesOf mem bs ++ bytesOf mem cs := flatMap_append

@[simp] lemma computeTotalSizeSlow_nil : computeTotalSizeSlow [] = 0 := rfl

@[simp] lemma computeTotalSizeSlow_cons (b : BlobBlock) (bs : List BlobBlock) :
    computeTotalSizeSlow (b :: bs) = b.size + computeTotalSizeSlow bs := sum_cons

@[simp] lemma computeTotalSizeSlow_append (bs cs : List BlobBlock) :
    computeTotalSizeSlow (bs ++ cs) = computeTotalSizeSlow bs + computeTotalSizeSlow cs := by
  simp [computeTotalSizeSlow]

@[simp] lemma length_bytesOf (mem : PoolId → ℕ → UInt8) (bs : List BlobBlock) :
    (bytesOf mem bs).length = computeTotalSizeSlow bs := by
  induction bs with
  | nil => rfl
  | cons b bs ih => simp [ih]

/-- The bytes of a block list depend on the bytes of its extents only. -/
lemma bytesOf_congr {bs : List BlobBlock} (hft : ∀ b ∈ bs, b.size ≤ b.capacity)
    (h : ∀ b ∈ bs, ∀ a, b.extent.Covers b.pool a → mem' b.pool a = mem b.pool a) :
    bytesOf mem' bs = bytesOf mem bs := by
  apply flatMap_congr
  intro b hb
  apply readRange_congr
  intro a hlo hhi
  have hfit := hft b hb
  exact h b hb a ⟨rfl, hlo, by simp only [BlobBlock.extent]; omega⟩

/-! ## The progress of a walk -/

/-- How many bytes of the range `[off, off + size)` lie before `start`. -/
def covered (off size start : ℕ) : ℕ := min start (off + size) - off

variable {off size start len : ℕ}

lemma covered_eq_zero (h : start ≤ off) : covered off size start = 0 := by
  simp only [covered]
  omega

lemma covered_eq_size (h : off + size ≤ start) : covered off size start = size := by
  simp only [covered]
  omega

/-- A block that the range meets: where in the range it comes in. -/
lemma max_eq_add_covered (h : start < off + size) :
    max off start = off + covered off size start := by
  simp only [covered]
  omega

/-- A block that the range meets: what it adds. -/
lemma covered_add (h : off < start + len) (h' : start < off + size) : covered off size (start + len)
      = covered off size start + (min (off + size) (start + len) - max off start) := by
  simp only [covered]
  omega

/-- A block that the range does not meet. -/
lemma covered_add_of_not (h : ¬ (off < start + len ∧ start < off + size)) :
    covered off size (start + len) = covered off size start := by
  simp only [covered]
  omega

end ClioCore.Cte
