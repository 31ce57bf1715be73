import ClioCore.Ec.Gf256
import ClioCore.Foundations.Cauchy
import ClioCore.Foundations.Elimination
import Mathlib.LinearAlgebra.Matrix.NonsingularInverse

/-!
# Systematic Reed–Solomon coding (`ec/reed_solomon.h`)

A codec of width `k` with at most `mMax` parity shards.  The generator matrix has the identity on
top and a Cauchy matrix below, `1 / (x_r XOR y_c)` with `x_r = k + r` and `y_c = c`.

The embedding keeps the header's storage: matrices are flat row-major byte vectors, a shard is a
byte vector of the given length, and a survivor is named by its global shard index (`g < k` for
data shard `g`, `k + r` for parity row `r`).  `InvertMatrix` is Gauss–Jordan elimination with
row pivoting, `DecodeData` multiplies the survivors by the inverse of their generator rows.

`invertMatrix_sound` and `invertMatrix_total` instantiate `Foundations.Elimination` at the flat
storage.  `decodeData_sound` says that a decode which returns anything returns the encoded data,
whatever the code's parameters; `decodeData_total` is where the Cauchy structure comes in: the
points `x_r` and `y_c` are distinct bytes as long as the rows in use stay below `256`.
-/

namespace ClioCore.Ec

open Foundations List Finset RowOp Option Matrix UnitColumns

variable {n c len : ℕ} {m inp : List UInt8} {survivorIndex : List ℕ}

/-! ## The codec -/

/-- A codec is given by its width and its maximal number of parity shards; the Cauchy table is
computed from them once, by `ReedSolomon.cauchy`. -/
structure ReedSolomon where
  /-- Number of data shards. -/
  k : ℕ
  /-- Maximum number of parity shards. -/
  mMax : ℕ
deriving DecidableEq

namespace ReedSolomon

variable (rs : ReedSolomon)

/-- The `mMax x k` Cauchy table, row-major.  The casts to `uint8_t` are `UInt8.ofNat`. -/
def cauchy : List UInt8 :=
  (List.range rs.mMax).foldl (fun t r =>
    (List.range rs.k).foldl (fun t c =>
      t.set (r * rs.k + c) (gfInv (gfAdd (UInt8.ofNat (rs.k + r)) (UInt8.ofNat c)))) t)
    (List.replicate (rs.mMax * rs.k) 0)

/-- Coefficient applied to data column `c` when forming parity row `r`. -/
def cauchyCoeff (r c : ℕ) : UInt8 := rs.cauchy.getD (r * rs.k + c) 0

/-- Compute a single parity shard (parity row `r`) from the `k` data shards. -/
def encodeParityShard (r : ℕ) (data : List (List UInt8)) (len : ℕ) : List UInt8 :=
  (List.range rs.k).foldl (fun out c => gfMulAddRegion out (data.getD c [])
    (rs.cauchyCoeff r c) len) (List.replicate len 0)

/-! ## Matrix inversion -/

/-- `std::swap` of two cells. -/
def swapCells (m : List UInt8) (p q : ℕ) : List UInt8 :=
  (m.set p (m.getD q 0)).set q (m.getD p 0)

/-- Exchange rows `a` and `b`. -/
def swapRows (m : List UInt8) (n a b : ℕ) : List UInt8 :=
  (List.range n).foldl (fun m c => swapCells m (a * n + c) (b * n + c)) m

/-- Multiply row `row` by `s`. -/
def scaleRow (m : List UInt8) (n row : ℕ) (s : UInt8) : List UInt8 :=
  (List.range n).foldl (fun m c => m.set (row * n + c) (gfMul (m.getD (row * n + c) 0) s)) m

/-- `dst_row ^= factor * src_row`. -/
def addScaledRow (m : List UInt8) (n srcRow dstRow : ℕ) (factor : UInt8) : List UInt8 :=
  (List.range n).foldl (fun m c =>
    m.set (dstRow * n + c) (m.getD (dstRow * n + c) 0 ^^^ gfMul (m.getD (srcRow * n + c) 0) factor))
      m

/-- The first row at or below `col` with a non-zero entry in column `col`. -/
def findPivot (m : List UInt8) (n col : ℕ) : Option ℕ :=
  (List.range' col (n - col)).find? (fun row => m.getD (row * n + col) 0 ≠ 0)

/-- Eliminate the pivot column `col` from row `row` of the working copy and of the output. -/
def elimRow (n col : ℕ) (st : List UInt8 × List UInt8) (row : ℕ) : List UInt8 × List UInt8 :=
  if row = col then st
  else
    let factor := st.1.getD (row * n + col) 0
    if factor = 0 then st
    else (addScaledRow st.1 n col row factor, addScaledRow st.2 n col row factor)

/-- One round of `InvertMatrix`: pivot, scale and eliminate column `col`. -/
def elimColumn (n : ℕ) (st : List UInt8 × List UInt8) (col : ℕ) :
    Option (List UInt8 × List UInt8) :=
  match findPivot st.1 n col with
  | none => none
  | some pivot =>
    let st := if pivot ≠ col then (swapRows st.1 n pivot col, swapRows st.2 n pivot col) else st
    let inv := gfInv (st.1.getD (col * n + col) 0)
    let st := (scaleRow st.1 n col inv, scaleRow st.2 n col inv)
    some ((List.range n).foldl (elimRow n col) st)

/-- The identity matrix `out` starts from. -/
def identityMatrix (n : ℕ) : List UInt8 :=
  (List.range n).foldl (fun out i => out.set (i * n + i) 1) (List.replicate (n * n) 0)

/-- Invert an `n x n` matrix over GF(2^8) via Gauss–Jordan elimination; `none` if the matrix is
singular. -/
def invertMatrix (inp : List UInt8) (n : ℕ) : Option (List UInt8) :=
  ((List.range n).foldlM (elimColumn n) (inp, identityMatrix n)).map Prod.snd

/-! ## Decoding -/

/-- The `k x k` matrix whose row `i` is the generator row of the `i`-th survivor. -/
def survivorMatrix (survivorIndex : List ℕ) : List UInt8 :=
  (List.range rs.k).foldl (fun a i =>
    let g := survivorIndex.getD i 0
    if g < rs.k then a.set (i * rs.k + g) 1
    else (List.range rs.k).foldl (fun a c => a.set (i * rs.k + c) (rs.cauchyCoeff (g - rs.k) c)) a)
    (List.replicate (rs.k * rs.k) 0)

/-- Reconstruct all `k` data shards from the first `k` surviving shards; `none` if there are fewer
than `k` survivors or the system is singular. -/
def decodeData (survivorIndex : List ℕ) (survivorShard : List (List UInt8))
    (len : ℕ) : Option (List (List UInt8)) :=
  if survivorIndex.length < rs.k then none
  else
    match invertMatrix (rs.survivorMatrix survivorIndex) rs.k with
    | none => none
    | some aInv => some ((List.range rs.k).map fun i =>
      (List.range rs.k).foldl (fun out j =>
        gfMulAddRegion out (survivorShard.getD j []) (aInv.getD (i * rs.k + j) 0) len)
        (List.replicate len 0))

/-! ## Flat matrices and row operations -/

/-- A flat row-major byte vector as a matrix over the field. -/
def flatMatrix (m : List UInt8) (n : ℕ) : Matrix (Fin n) (Fin n) GF256 :=
  fun i j => toGf (m.getD (i * n + j) 0)

/-- A loop over the columns that applies one operation to each column is that operation on the
matrix. -/
lemma flatMatrix_foldl_columns (step : List UInt8 → ℕ → List UInt8) (upd : (ℕ → UInt8) → ℕ → UInt8)
    (op : RowOp n GF256) (hlen : ∀ s c, s.length = n * n → (step s c).length = n * n)
    (hstp : ∀ s c j, c < n → j < n → s.length = n * n → ∀ i < n, (step s c).getD (i * n + j) 0
      = if j = c then upd (fun t => s.getD (t * n + c) 0) i else s.getD (i * n + j) 0)
    (hupd : ∀ (col : ℕ → UInt8) (i : Fin n), toGf (upd col i) = op.apply (fun t => toGf (col t)) i)
    (hm : m.length = n * n) :
    ((List.range n).foldl step m).length = n * n ∧
      flatMatrix ((List.range n).foldl step m) n = op.onMatrix (flatMatrix m n) := by
  -- The view of a column keeps only its first `n` cells, those the matrix has.
  obtain ⟨hl, hv⟩ := foldl_range_local (fun l : List UInt8 => l.length = n * n) step
    (fun s j => fun i : Fin n => toGf (s.getD (i * n + j) 0)) (fun _ col => op.apply col) n
    (fun s c _ hs => hlen s c hs)
    (by
      intro s c j hc hj hs
      funext i
      rw [hstp s c j hc hj hs i i.2]
      by_cases hjc : j = c
      · rw [if_pos hjc, if_pos hjc]
        exact hupd (fun t => s.getD (t * n + c) 0) i
      · rw [if_neg hjc, if_neg hjc])
    le_rfl hm
  refine ⟨hl, ?_⟩
  ext1 i j
  have h := congrFun (hv j j.2) i
  rw [if_pos j.2] at h
  exact h

lemma swapRows_spec {a b : ℕ} (ha : a < n) (hb : b < n) (hm : m.length = n * n) :
    (swapRows m n a b).length = n * n ∧ flatMatrix (swapRows m n a b) n
      = (swap ⟨a, ha⟩ ⟨b, hb⟩ : RowOp n GF256).onMatrix (flatMatrix m n) := by
  apply flatMatrix_foldl_columns _ (fun col i => if i = b then col a else if i = a then col b
    else col i) _ _ _ _ hm
  · intro s c hs
    simpa [swapCells] using hs
  · intro s c j hc hj hs i _
    have hs' : (s.set (a * n + c) (s.getD (b * n + c) 0)).length = n * n := by simpa using hs
    rw [swapCells, getD_set_rowMajor hs' hb hc hj, getD_set_rowMajor hs ha hc hj]
    by_cases hjc : j = c
    · subst hjc
      by_cases hib : i = b <;> by_cases hia : i = a <;> simp [hib]
    · simp [hjc]
  · intro col i
    simp only [apply, Equiv.swap_apply_def, Fin.ext_iff]
    by_cases hib : (i : ℕ) = b
    · by_cases hia : (i : ℕ) = a
      · have hab : a = b := hia.symm.trans hib
        simp [hib, hab]
      · simp [hib, show ¬ b = a from fun h => hia (hib.trans h)]
    · by_cases hia : (i : ℕ) = a
      · simp [hia, show ¬ a = b from fun h => hib (hia.trans h)]
      · simp [hib, hia]

lemma scaleRow_spec {row : ℕ} (hr : row < n) (s : UInt8) (hm : m.length = n * n) :
    (scaleRow m n row s).length = n * n ∧ flatMatrix (scaleRow m n row s) n
      = (scale ⟨row, hr⟩ (toGf s) : RowOp n GF256).onMatrix (flatMatrix m n) := by
  apply flatMatrix_foldl_columns _ (fun col i => if i = row then gfMul (col row) s else col i)
    _ _ _ _ hm
  · intro s' c hs
    simpa using hs
  · intro s' c j hc hj hs i _
    rw [getD_set_rowMajor hs hr hc hj]
    by_cases hjc : j = c
    · subst hjc
      by_cases hir : i = row <;> simp
    · simp [hjc]
  · intro col i
    by_cases hir : (i : ℕ) = row
    · simp [apply, Fin.ext_iff, hir]
    · simp [apply, Fin.ext_iff, hir]

lemma addScaledRow_spec {src dst : ℕ} (hsrc : src < n) (hdst : dst < n) (factor : UInt8)
    (hm : m.length = n * n) :
    (addScaledRow m n src dst factor).length = n * n ∧
    flatMatrix (addScaledRow m n src dst factor) n
      = (add ⟨src, hsrc⟩ ⟨dst, hdst⟩ (toGf factor) : RowOp n GF256).onMatrix (flatMatrix m n) := by
  apply flatMatrix_foldl_columns _
    (fun col i => if i = dst then col dst ^^^ gfMul (col src) factor else col i) _ _ _ _ hm
  · intro s c hs
    simpa using hs
  · intro s c j hc hj hs i _
    rw [getD_set_rowMajor hs hdst hc hj]
    by_cases hjc : j = c
    · subst hjc
      by_cases hi : i = dst <;> simp
    · simp [hjc]
  · intro col i
    by_cases hi : (i : ℕ) = dst
    · simp [apply, Fin.ext_iff, hi]
    · simp [apply, Fin.ext_iff, hi]

lemma identityMatrix_spec (n : ℕ) :
    (identityMatrix n).length = n * n ∧ flatMatrix (identityMatrix n) n = 1 := by
  obtain ⟨hlen, hval⟩ := foldl_range_local (fun l : List UInt8 => l.length = n * n)
    (fun out i => out.set (i * n + i) 1) (fun l i => fun j : Fin n => l.getD (i * n + j) 0)
    (fun i row j => if (j : ℕ) = i then 1 else row j) n
    (fun s c _ hs => by simpa using hs)
    (by
      intro s c i hc hi hs
      funext j
      rw [getD_set_rowMajor hs hc hc j.2]
      by_cases hic : i = c
      · subst hic
        simp
      · simp [hic])
    le_rfl (length_replicate)
  refine ⟨hlen, ?_⟩
  ext1 i j
  have h := congrFun (hval i i.2) j
  rw [if_pos i.2] at h
  have hz0 : (replicate (n * n) (0 : UInt8)).getD (i * n + j) 0 = 0 := by
    simp
  simp only [hz0] at h
  rw [flatMatrix, identityMatrix, h, one_apply]
  by_cases hij : (j : ℕ) = i
  · rw [if_pos hij, if_pos (Fin.ext hij.symm), toGf_one]
  · rw [if_neg hij, if_neg (fun h => hij (by rw [h])), toGf_zero]

/-! ## Correctness of the inversion -/

/-- The invariant of `InvertMatrix` before round `c`. -/
structure Eliminated (n : ℕ) (A : Matrix (Fin n) (Fin n) GF256) (c : ℕ)
    (st : List UInt8 × List UInt8) : Prop where
  length_work : st.1.length = n * n
  length_out : st.2.length = n * n
  reduction : Reduction A (flatMatrix st.1 n) (flatMatrix st.2 n)
  unit : UnitColumns (flatMatrix st.1 n) c

/-- The row loop clears column `c` and runs the same operations on the output. -/
lemma foldl_elimRow (hc : c < n) {A : Matrix (Fin n) (Fin n) GF256} (st : List UInt8 × List UInt8)
    (h1 : st.1.length = n * n) (h2 : st.2.length = n * n)
    (hred : Reduction A (flatMatrix st.1 n) (flatMatrix st.2 n)) :
    let st' := (List.range n).foldl (elimRow n c) st
    st'.1.length = n * n ∧ st'.2.length = n * n ∧
      Reduction A (flatMatrix st'.1 n) (flatMatrix st'.2 n) ∧
      flatMatrix st'.1 n = clearColumn (flatMatrix st.1 n) ⟨c, hc⟩ := by
  set M := flatMatrix st.1 n with hM
  -- After `r` rounds the rows below `r` other than the pivot row are cleared.
  have hinv := foldl_range_invariant (fun r (s : List UInt8 × List UInt8) =>
      s.1.length = n * n ∧ s.2.length = n * n ∧
      Reduction A (flatMatrix s.1 n) (flatMatrix s.2 n) ∧
      ∀ i j : Fin n, flatMatrix s.1 n i j =
        if (i : ℕ) < r then clearColumn M ⟨c, hc⟩ i j else M i j)
    (elimRow n c) n st ⟨h1, h2, hred, fun i j => by simp [hM]⟩ ?_
  · obtain ⟨hl1, hl2, hr, hval⟩ := hinv
    refine ⟨hl1, hl2, hr, ?_⟩
    ext1 i j
    rw [hval i j, if_pos i.2]
  · rintro r hr s ⟨hl1, hl2, hred', hval⟩
    have hrow (j : Fin n) : flatMatrix s.1 n ⟨r, hr⟩ j = M ⟨r, hr⟩ j :=
      (hval _ j).trans (if_neg (lt_irrefl r))
    have hfac : toGf (s.1.getD (r * n + c) 0) = M ⟨r, hr⟩ ⟨c, hc⟩ := hrow ⟨c, hc⟩
    -- It is enough that row `r` becomes the cleared row and the other rows stay.
    have hnext {l : List UInt8}
        (hnew : ∀ j, flatMatrix l n ⟨r, hr⟩ j = clearColumn M ⟨c, hc⟩ ⟨r, hr⟩ j)
        (hkp : ∀ i j, i ≠ ⟨r, hr⟩ → flatMatrix l n i j = flatMatrix s.1 n i j) (i j : Fin n) :
        flatMatrix l n i j = if (i : ℕ) < r + 1 then clearColumn M ⟨c, hc⟩ i j else M i j := by
      by_cases hir : i = ⟨r, hr⟩
      · rw [hir, hnew, if_pos r.lt_succ_self]
      · have hne : (i : ℕ) ≠ r := fun h => hir (Fin.ext h)
        rw [hkp i j hir, hval i j]
        exact if_congr (by omega) rfl rfl
    by_cases hrc : r = c
    · rw [elimRow, if_pos hrc]
      subst hrc
      exact ⟨hl1, hl2, hred',
        hnext (fun j => by rw [hrow, clearColumn, if_pos rfl]) fun _ _ _ => rfl⟩
    have hic : (⟨r, hr⟩ : Fin n) ≠ ⟨c, hc⟩ := fun h => hrc (congrArg Fin.val h)
    rw [elimRow, if_neg hrc]
    by_cases hf : s.1.getD (r * n + c) 0 = 0
    · simp only [hf, if_true]
      rw [hf, toGf_zero] at hfac
      refine ⟨hl1, hl2, hred', hnext (fun j => ?_) fun _ _ _ => rfl⟩
      rw [hrow, clearColumn, if_neg hic, ← hfac, mul_zero, sub_zero]
    · simp only [hf, if_false]
      obtain ⟨ha1, hM1⟩ := addScaledRow_spec hc hr (s.1.getD (r * n + c) 0) hl1
      obtain ⟨ha2, hM2⟩ := addScaledRow_spec hc hr (s.1.getD (r * n + c) 0) hl2
      refine ⟨ha1, ha2, ?_, hnext (fun j => ?_) fun i j hne => ?_⟩
      · rw [hM1, hM2]
        exact hred'.rowOp hic.symm
      · have hpivo : flatMatrix s.1 n ⟨c, hc⟩ j = M ⟨c, hc⟩ j := by
          rw [hval, clearColumn, if_pos rfl, ite_self]
        rw [hM1, clearColumn, if_neg hic, gf_sub_eq_add]
        simp only [onMatrix, apply, if_true]
        rw [hpivo, hrow, hfac]
      · simp only [hM1, onMatrix, apply, if_neg hne]

lemma findPivot_some {col pivot : ℕ} (h : findPivot m n col = some pivot) :
    col ≤ pivot ∧ pivot < n ∧ m.getD (pivot * n + col) 0 ≠ 0 := by
  have hmem := mem_of_find?_eq_some h
  have hprop := find?_some h
  rw [mem_range'_1] at hmem
  exact ⟨hmem.1, by omega, by simpa using hprop⟩

/-- One round advances the invariant by one column. -/
lemma Eliminated.step (hc : c < n) {A : Matrix (Fin n) (Fin n) GF256}
    {st st' : List UInt8 × List UInt8}
    (h : Eliminated n A c st) (hstp : elimColumn n st c = some st') :
    Eliminated n A (c + 1) st' := by
  rw [elimColumn] at hstp
  cases hpiv : findPivot st.1 n c with
  | none => simp [hpiv] at hstp
  | some pivot =>
    obtain ⟨hcp, hpn, hne⟩ := findPivot_some hpiv
    simp only [hpiv, some.injEq] at hstp
    -- After the exchange the pivot sits on the diagonal.
    set st1 := if pivot ≠ c then (swapRows st.1 n pivot c, swapRows st.2 n pivot c)
      else st with hst1
    have hswap : Eliminated n A c st1 ∧ st1.1.getD (c * n + c) 0 ≠ 0 := by
      by_cases hpc : pivot = c
      · rw [hst1, if_neg (not_not.mpr hpc)]
        exact ⟨h, hpc ▸ hne⟩
      · rw [hst1, if_pos hpc]
        obtain ⟨hl1, hM1⟩ := swapRows_spec hpn hc h.length_work
        obtain ⟨hl2, hM2⟩ := swapRows_spec hpn hc h.length_out
        refine ⟨⟨hl1, hl2, ?_, ?_⟩, ?_⟩
        · rw [hM1, hM2]
          exact h.reduction.rowOp trivial
        · rw [hM1]
          exact h.unit.swap hcp le_rfl
        · have hcell := congrFun (congrFun hM1 ⟨c, hc⟩) ⟨c, hc⟩
          simp only [onMatrix, apply, Equiv.swap_apply_right, flatMatrix] at hcell
          rwa [toGf_injective hcell]
    obtain ⟨h1, hdiag⟩ := hswap
    -- Scaling makes the pivot `1`.
    set inv := gfInv (st1.1.getD (c * n + c) 0)
    have hval : toGf inv = (toGf (st1.1.getD (c * n + c) 0))⁻¹ := toGf_gfInv hdiag
    have hpiv0 : toGf (st1.1.getD (c * n + c) 0) ≠ 0 := fun h => hdiag (toGf_eq_zero.mp h)
    obtain ⟨hl1, hM1⟩ := scaleRow_spec hc inv h1.length_work
    obtain ⟨hl2, hM2⟩ := scaleRow_spec hc inv h1.length_out
    have hvali : (scale ⟨c, hc⟩ (toGf inv) : RowOp n GF256).Valid := hval ▸ inv_ne_zero hpiv0
    have hred2 := h1.reduction.rowOp hvali
    rw [← hM1, ← hM2] at hred2
    have hunit2 : UnitColumns (flatMatrix (scaleRow st1.1 n c inv) n) c := by
      rw [hM1]
      exact scale h1.unit _
    have hone : flatMatrix (scaleRow st1.1 n c inv) n ⟨c, hc⟩ ⟨c, hc⟩ = 1 := by
      rw [hM1]
      simp only [onMatrix, apply, if_true]
      rw [hval]
      exact mul_inv_cancel₀ hpiv0
    obtain ⟨hf1, hf2, hf3, hf4⟩ := foldl_elimRow hc (scaleRow st1.1 n c inv, scaleRow st1.2 n c inv)
      hl1 hl2 hred2
    rw [← hstp]
    refine ⟨hf1, hf2, hf3, ?_⟩
    rw [hf4]
    exact clear hunit2 hone

lemma Eliminated.init (h : inp.length = n * n) :
    Eliminated n (flatMatrix inp n) 0 (inp, identityMatrix n) := by
  obtain ⟨hlen, hone⟩ := identityMatrix_spec n
  refine ⟨h, hlen, ?_, zero _⟩
  rw [hone]
  exact Reduction.refl _

/-- **Soundness of `InvertMatrix`.**  What it returns is a left inverse. -/
lemma invertMatrix_sound {out : List UInt8} (hinp : inp.length = n * n)
    (h : invertMatrix inp n = some out) : flatMatrix out n * flatMatrix inp n = 1 := by
  rw [invertMatrix, map_eq_some_iff] at h
  obtain ⟨st, hst, rfl⟩ := h
  have hfin := foldlM_range_invariant (Eliminated n (flatMatrix inp n)) (elimColumn n) n _
    (Eliminated.init hinp) (fun c hc s s' hs hstp => hs.step hc hstp) hst
  exact hfin.reduction.mul_eq_one hfin.unit

/-- **Completeness of `InvertMatrix`.**  It fails only on a matrix with a kernel. -/
lemma invertMatrix_total (hinp : inp.length = n * n)
    (hker : ∀ v, (flatMatrix inp n).mulVec v = 0 → v = 0) :
    ∃ out, invertMatrix inp n = some out := by
  obtain ⟨st, hst, _⟩ := foldlM_range_total (Eliminated n (flatMatrix inp n)) (elimColumn n) n
    (inp, identityMatrix n) (Eliminated.init hinp) (by
      intro c hc s hs
      -- a matrix without kernel has a pivot at or below the diagonal
      obtain ⟨i, hci, hne⟩ : ∃ i : Fin n, ⟨c, hc⟩ ≤ i ∧ flatMatrix s.1 n i ⟨c, hc⟩ ≠ 0 := by
        by_contra hno
        push Not at hno
        obtain ⟨v, hv, hMv⟩ := exists_kernel_of_no_pivot hs.unit hno
        exact hv (hker v (hs.reduction.kernel v hMv))
      obtain ⟨pivot, hpiv⟩ : ∃ pivot, findPivot s.1 n c = some pivot := by
        rw [← isSome_iff_exists, findPivot, find?_isSome]
        exact ⟨i, mem_range'_1.mpr ⟨hci, by omega⟩, by
          simpa using fun h => hne (toGf_eq_zero.mpr h)⟩
      obtain ⟨s', hs'⟩ : ∃ s', elimColumn n s c = some s' := by
        rw [elimColumn, hpiv]
        exact ⟨_, rfl⟩
      exact ⟨s', hs', hs.step hc hs'⟩)
  exact ⟨st.2, by rw [invertMatrix, hst]; rfl⟩

/-! ## The generator matrix -/

/-- Entry `(g, c)` of the generator matrix: identity rows, then Cauchy rows. -/
def rowCoeff (g c : ℕ) : UInt8 :=
  if g < rs.k then (if g = c then 1 else 0) else rs.cauchyCoeff (g - rs.k) c

/-- The shard with global index `g`: data shard `g`, or parity row `g - k`. -/
def shardOf (data : List (List UInt8)) (len g : ℕ) : List UInt8 :=
  if g < rs.k then data.getD g [] else rs.encodeParityShard (g - rs.k) data len

lemma cauchyCoeff_eq {r : ℕ} (hr : r < rs.mMax) (hc : c < rs.k) :
    rs.cauchyCoeff r c = gfInv (gfAdd (UInt8.ofNat (rs.k + r)) (UInt8.ofNat c)) :=
  foldl_fillGrid (fun r c => gfInv (gfAdd (UInt8.ofNat (rs.k + r)) (UInt8.ofNat c))) 0
    length_replicate hr hc

/-- Row `i` of the survivor matrix is the generator row of survivor `i`. -/
lemma survivorMatrix_spec (survivorIndex : List ℕ) :
    (rs.survivorMatrix survivorIndex).length = rs.k * rs.k ∧ ∀ i < rs.k, ∀ c < rs.k,
      (rs.survivorMatrix survivorIndex).getD (i * rs.k + c) 0
        = rs.rowCoeff (survivorIndex.getD i 0) c := by
  obtain ⟨hlen, hval⟩ := foldl_range_local
    (fun l : List UInt8 => l.length = rs.k * rs.k) (fun a i =>
      let g := survivorIndex.getD i 0
      if g < rs.k then a.set (i * rs.k + g) 1
      else (List.range rs.k).foldl (fun a c => a.set (i * rs.k + c) (rs.cauchyCoeff (g - rs.k) c))
        a)
    (fun l i => fun c : Fin rs.k => l.getD (i * rs.k + c) 0)
    (fun i row c => if survivorIndex.getD i 0 < rs.k
      then (if survivorIndex.getD i 0 = c then 1 else row c)
      else rs.cauchyCoeff (survivorIndex.getD i 0 - rs.k) c) rs.k
    (by
      intro s i hi hs
      by_cases hg : survivorIndex.getD i 0 < rs.k
      · simpa only [hg, if_true, length_set] using hs
      · simp only [hg, if_false]
        exact (foldl_fillRow _ 0 hs hi).1)
    (by
      intro s i i' hi hi' hs
      funext c
      by_cases hg : survivorIndex.getD i 0 < rs.k
      · simp only [hg, if_true]
        rw [getD_set_rowMajor hs hi hg c.2]
        by_cases hii : i' = i
        · subst hii
          by_cases hgc : survivorIndex.getD i' 0 = c
          · rw [if_pos ⟨rfl, hgc.symm⟩, if_pos rfl, if_pos hgc]
          · rw [if_neg (fun h => hgc h.2.symm), if_pos rfl, if_neg hgc]
        · rw [if_neg (fun h => hii h.1), if_neg hii]
      · simp only [hg, if_false]
        rw [(foldl_fillRow (fun c => rs.cauchyCoeff (survivorIndex.getD i 0 - rs.k) c) 0 hs
          hi).2 i' hi' c c.2]
        by_cases hii : i' = i
        · rw [if_pos hii, if_pos hii]
        · rw [if_neg hii, if_neg hii])
    le_rfl (length_replicate)
  refine ⟨hlen, fun i hi c hc => ?_⟩
  have h := congrFun (hval i hi) ⟨c, hc⟩
  have hz0 : (replicate (rs.k * rs.k) (0 : UInt8)).getD (i * rs.k + c) 0 = 0 := by
    simp
  rw [if_pos hi] at h
  simp only [hz0] at h
  exact h

/-! ## Encoding as a linear map -/

lemma encodeParityShard_length (r : ℕ) (data : List (List UInt8)) (len : ℕ) :
    (rs.encodeParityShard r data len).length = len :=
  (foldl_gfMulAddRegion (fun c => rs.cauchyCoeff r c) (fun c => data.getD c []) len rs.k).1

/-- Byte `t` of a parity shard is the Cauchy combination of the bytes `t` of the data shards. -/
lemma toGf_encodeParityShard (r : ℕ) (data : List (List UInt8)) {t : ℕ} (ht : t < len) :
    toGf ((rs.encodeParityShard r data len).getD t 0)
      = ∑ c ∈ range rs.k, toGf (rs.cauchyCoeff r c) * toGf ((data.getD c []).getD t 0) :=
  (foldl_gfMulAddRegion (fun c => rs.cauchyCoeff r c) (fun c => data.getD c []) len rs.k).2 t ht

/-- Every shard is the image of the data under its generator row. -/
lemma toGf_shardOf (data : List (List UInt8)) (g : ℕ) {t : ℕ} (ht : t < len) :
    toGf ((rs.shardOf data len g).getD t 0)
      = ∑ c ∈ range rs.k, toGf (rs.rowCoeff g c) * toGf ((data.getD c []).getD t 0) := by
  by_cases hg : g < rs.k
  · have hterm : ∀ c ∈ Finset.range rs.k,
        toGf (rs.rowCoeff g c) * toGf ((data.getD c []).getD t 0)
          = if c = g then toGf ((data.getD g []).getD t 0) else 0 := by
      intro c _
      rw [rowCoeff, if_pos hg]
      by_cases hgc : g = c
      · subst hgc
        simp
      · simp [hgc, Ne.symm hgc]
    rw [Finset.sum_congr rfl hterm, Finset.sum_ite_eq', if_pos (Finset.mem_range.mpr hg),
      shardOf, if_pos hg]
  · simp only [rowCoeff, shardOf, if_neg hg]
    exact rs.toGf_encodeParityShard (g - rs.k) data ht

/-! ## Decoding -/

section

include rs

/-- A decode that returns, returns `k` shards of the given length, whatever the survivors hold. -/
lemma decodeData_shape {survivorShard : List (List UInt8)} {out : List (List UInt8)}
    (h : rs.decodeData survivorIndex survivorShard len = some out) :
    out.length = rs.k ∧ ∀ d ∈ out, d.length = len := by
  rw [decodeData] at h
  split_ifs at h
  cases hinv : invertMatrix (rs.survivorMatrix survivorIndex) rs.k with
  | none => simp [hinv] at h
  | some aInv =>
    simp only [hinv, some.injEq] at h
    rw [← h]
    refine ⟨by simp, fun d hd => ?_⟩
    obtain ⟨i, _, rfl⟩ := mem_map.mp hd
    exact (foldl_gfMulAddRegion (fun j => aInv.getD (i * rs.k + j) 0)
      (fun j => survivorShard.getD j []) len rs.k).1

/-- **A decode that returns, returns the data.**  No bound on the parameters is needed: the
inverse was found for the very rows the survivors were encoded with. -/
lemma decodeData_sound {data : List (List UInt8)} (hdata : data.length = rs.k)
    (hshd : ∀ d ∈ data, d.length = len) {survivorShard : List (List UInt8)}
    (hsurv : ∀ i < rs.k, survivorShard.getD i [] = rs.shardOf data len (survivorIndex.getD i 0))
    {out : List (List UInt8)} (h : rs.decodeData survivorIndex survivorShard len = some out) :
    out = data := by
  rw [decodeData] at h
  split_ifs at h
  cases hinv : invertMatrix (rs.survivorMatrix survivorIndex) rs.k with
  | none => simp [hinv] at h
  | some aInv =>
    simp only [hinv, some.injEq] at h
    obtain ⟨hAlen, hA⟩ := rs.survivorMatrix_spec survivorIndex
    have hleft := invertMatrix_sound hAlen hinv
    rw [← h]
    apply ext_getD []
    · simp [hdata]
    intro i hi
    rw [length_map, length_range] at hi
    obtain ⟨hlen, hval⟩ := foldl_gfMulAddRegion (fun j => aInv.getD (i * rs.k + j) 0)
      (fun j => survivorShard.getD j []) len rs.k
    have hdlen : (data.getD i []).length = len := by
      have hid : i < data.length := by omega
      rw [getD_eq_getElem _ _ hid]
      exact hshd _ (getElem_mem hid)
    rw [getD_eq_getElem _ _ (by simpa using hi), getElem_map, getElem_range]
    apply ext_getD 0 (hlen.trans hdlen.symm)
    intro t ht
    rw [hlen] at ht
    apply toGf_injective
    -- The bytes `t` of the survivors are `A` times those of the data, and `aInv * A = 1`.
    have hsh : (fun j : Fin rs.k => toGf ((survivorShard.getD j []).getD t 0)) =
        flatMatrix (rs.survivorMatrix survivorIndex) rs.k *ᵥ
          fun c => toGf ((data.getD c []).getD t 0) := by
      funext j
      rw [hsurv j j.2, rs.toGf_shardOf data _ ht, mulVec, dotProduct, Finset.sum_range]
      exact sum_congr rfl fun c _ => by rw [flatMatrix, hA j j.2 c c.2]
    have hout : ∑ j ∈ Finset.range rs.k, toGf (aInv.getD (i * rs.k + j) 0) *
        toGf ((survivorShard.getD j []).getD t 0) = (flatMatrix aInv rs.k *ᵥ
          fun j => toGf ((survivorShard.getD j []).getD t 0)) ⟨i, hi⟩ := by
      rw [Finset.sum_range]
      rfl
    rw [hval t ht, hout, hsh, mulVec_mulVec, hleft, one_mulVec]

/-- The generator rows of the code are those of a systematic Cauchy matrix over distinct points
as long as the points fit in a byte. -/
lemma toGf_rowCoeff {g : ℕ} (hg : g < rs.k + rs.mMax) (hg256 : g < 256) (hc : c < rs.k) :
    toGf (rs.rowCoeff g c) = generatorRow (fun i => toGf (UInt8.ofNat i)) rs.k g c := by
  by_cases hgk : g < rs.k
  · rw [rowCoeff, if_pos hgk, generatorRow_data _ hgk]
    by_cases hgc : g = c <;> simp [hgc]
  · have hkg : rs.k + (g - rs.k) = g := by omega
    have hne : gfAdd (UInt8.ofNat g) (UInt8.ofNat c) ≠ 0 := by
      intro h
      have heq := congrArg UInt8.toNat (UInt8.xor_eq_zero_iff.mp h)
      simp only [UInt8.toNat_ofNat'] at heq
      omega
    rw [rowCoeff, if_neg hgk, rs.cauchyCoeff_eq (by omega) hc, hkg, toGf_gfInv hne, toGf_gfAdd,
      generatorRow_parity _ (not_lt.mp hgk), gf_sub_eq_add]

/-- **Any `k` distinct survivors decode** if they are among the first `m` parity rows and the data
rows, and `k + m ≤ 256`. -/
lemma decodeData_total {m : ℕ} (hm : m ≤ rs.mMax) (hkm : rs.k + m ≤ 256)
    (hsize : rs.k ≤ survivorIndex.length) (hnodup : (survivorIndex.take rs.k).Nodup)
    (hrange : ∀ g ∈ survivorIndex.take rs.k, g < rs.k + m) (survivorShard : List (List UInt8))
    (len : ℕ) :
    ∃ out, rs.decodeData survivorIndex survivorShard len = some out := by
  obtain ⟨hAlen, hA⟩ := rs.survivorMatrix_spec survivorIndex
  have htk : ∀ i (hi : i < rs.k), ∃ h : i < (survivorIndex.take rs.k).length,
      survivorIndex.getD i 0 = (survivorIndex.take rs.k)[i] := by
    intro i hi
    refine ⟨by rw [length_take]; omega, ?_⟩
    rw [getD_eq_getElem _ _ (by omega), getElem_take]
  have hlt : ∀ i < rs.k, survivorIndex.getD i 0 < rs.k + m := by
    intro i hi
    obtain ⟨hi', heq⟩ := htk i hi
    rw [heq]
    exact hrange _ (getElem_mem hi')
  have hinj : Function.Injective (fun i : Fin rs.k => survivorIndex.getD i 0) := by
    intro i j hij
    obtain ⟨hi', hi⟩ := htk i i.2
    obtain ⟨hj', hj⟩ := htk j j.2
    have hij' : (survivorIndex.take rs.k)[(i : ℕ)] = (survivorIndex.take rs.k)[(j : ℕ)] := by
      rwa [← hi, ← hj]
    exact Fin.ext ((Nodup.getElem_inj_iff hnodup).mp hij')
  have hpt : Set.InjOn (fun i : ℕ => toGf (UInt8.ofNat i)) (Set.Iio (rs.k + m)) := by
    intro a ha b hb hab
    have heq := congrArg UInt8.toNat (toGf_injective hab)
    simp only [UInt8.toNat_ofNat', Set.mem_Iio] at heq ha hb
    omega
  obtain ⟨aInv, hinv⟩ := invertMatrix_total hAlen (by
    intro v hv
    apply generatorRow_injective (Nat.le_add_right rs.k m) hpt hinj (fun i => hlt i i.2)
    intro i
    have hi := congrFun hv i
    simp only [mulVec, dotProduct, flatMatrix, Pi.zero_apply] at hi
    rw [← hi]
    apply sum_congr rfl
    intro c _
    have hi' := hlt i i.2
    rw [hA i i.2 c c.2, rs.toGf_rowCoeff (by omega) (by omega) c.2])
  rw [decodeData, if_neg (not_lt.mpr hsize), hinv]
  exact ⟨_, rfl⟩

/-- Two survivors with one generator row do not decode. -/
lemma decodeData_eq_none {i j : ℕ} (hi : i < rs.k) (hj : j < rs.k) (hij : i ≠ j)
    (hrow : ∀ c < rs.k, rs.rowCoeff (survivorIndex.getD i 0) c =
      rs.rowCoeff (survivorIndex.getD j 0) c)
    (survivorShard : List (List UInt8)) (len : ℕ) :
    rs.decodeData survivorIndex survivorShard len = none := by
  obtain ⟨hAlen, hA⟩ := rs.survivorMatrix_spec survivorIndex
  have hinv : invertMatrix (rs.survivorMatrix survivorIndex) rs.k = none := by
    cases hcase : invertMatrix (rs.survivorMatrix survivorIndex) rs.k with
    | none => rfl
    | some aInv =>
      -- Rows `i` and `j` of the survivor matrix agree, so do those of its product, the identity.
      have hone := mul_eq_one_comm.mp (invertMatrix_sound hAlen hcase)
      have hrows : flatMatrix (rs.survivorMatrix survivorIndex) rs.k ⟨i, hi⟩
          = flatMatrix (rs.survivorMatrix survivorIndex) rs.k ⟨j, hj⟩ := by
        funext c
        rw [flatMatrix, flatMatrix, hA i hi c c.2, hA j hj c c.2, hrow c c.2]
      have hen : (flatMatrix (rs.survivorMatrix survivorIndex) rs.k * flatMatrix aInv rs.k)
            ⟨i, hi⟩ ⟨i, hi⟩
          = (flatMatrix (rs.survivorMatrix survivorIndex) rs.k * flatMatrix aInv rs.k)
            ⟨j, hj⟩ ⟨i, hi⟩ := by
        rw [mul_apply, mul_apply, hrows]
      have hne : (⟨j, hj⟩ : Fin rs.k) ≠ ⟨i, hi⟩ := fun h => hij (congrArg Fin.val h).symm
      rw [hone, one_apply_eq, one_apply_ne hne] at hen
      exact absurd hen one_ne_zero
  rw [decodeData, hinv]
  split_ifs <;> rfl

end

/-- **The MDS round trip.**  From any `k` distinct shards of a codeword `DecodeData` returns the
original data shards. -/
theorem decodeData_roundTrip (k m len : ℕ) (hkm : k + m ≤ 256) (data : List (List UInt8))
    (hdata : data.length = k) (hlen : ∀ d ∈ data, d.length = len) (survivorIndex : List ℕ)
    (hsize : k ≤ survivorIndex.length) (hnodup : (survivorIndex.take k).Nodup)
    (hrange : ∀ g ∈ survivorIndex.take k, g < k + m) (survivorShard : List (List UInt8))
    (hsurv : ∀ i < k, survivorShard.getD i []
      = if survivorIndex.getD i 0 < k then data.getD (survivorIndex.getD i 0) []
        else (⟨k, m⟩ : ReedSolomon).encodeParityShard (survivorIndex.getD i 0 - k) data len) :
    (⟨k, m⟩ : ReedSolomon).decodeData survivorIndex survivorShard len = some data := by
  obtain ⟨out, hout⟩ := decodeData_total ⟨k, m⟩ le_rfl hkm hsize hnodup hrange survivorShard len
  rw [hout, decodeData_sound ⟨k, m⟩ hdata hlen hsurv hout]

/-- A `(2, 1)` code of two-byte shards that lost data shard `0`. -/
theorem decodeData_roundTrip_lost_data : (⟨2, 1⟩ : ReedSolomon).decodeData [2, 1]
      [(⟨2, 1⟩ : ReedSolomon).encodeParityShard 0 [[7, 9], [1, 200]] 2, [1, 200]] 2
        = some [[7, 9], [1, 200]] := by
  apply decodeData_roundTrip 2 1 2 (by norm_num) [[7, 9], [1, 200]] rfl (by simp) [2, 1]
    (by simp) (by simp) (by simp)
  intro i hi
  interval_cases i
  · simp only [getD_cons_zero, lt_irrefl, if_false, Nat.sub_self]
  · simp only [getD_cons_zero, getD_cons_succ, one_lt_two, if_true]

end ReedSolomon

end ClioCore.Ec
