import Mathlib.LinearAlgebra.Matrix.Notation
import Mathlib.LinearAlgebra.Matrix.RowCol
import Mathlib.Tactic

/-!
# Gauss–Jordan elimination by row operations

Inverting a square matrix in place runs the same elementary row operations on the matrix and on
an identity matrix.  This file has the part of the correctness argument that does not depend on
how the matrices are stored.

`RowOp` lists the three operations.  Each acts on columns independently (`RowOp.apply`), so one
operation applied to a matrix is one operation applied to each of its columns
(`RowOp.onMatrix`).  `Reduction A M E` is the invariant of the whole run: `E * A = M`, and
nothing in the kernel of `M` is outside the kernel of `A`.  Every valid operation keeps it
(`Reduction.rowOp`).  `UnitColumns M c` says that the first `c` columns are those of the identity;
clearing the pivot column advances `c` (`UnitColumns.clear`).  A missing pivot exhibits a kernel
vector (`exists_kernel_of_no_pivot`), and after the last column `E` is a left inverse
(`Reduction.mul_eq_one`).
-/

namespace ClioCore.Foundations

open Matrix Finset

variable {F : Type*} [Field F] {n : ℕ}

/-! ## Row operations -/

/-- The elementary row operations on matrices with `n` rows. -/
inductive RowOp (n : ℕ) (F : Type*) where
  /-- Exchange two rows. -/
  | swap (a b : Fin n)
  /-- Multiply a row by a scalar. -/
  | scale (r : Fin n) (s : F)
  /-- Add a multiple of row `src` to row `dst`. -/
  | add (src dst : Fin n) (f : F)

/-- The operations that can be undone: no scaling by zero, no row added to itself. -/
def RowOp.Valid : RowOp n F → Prop
  | .swap _ _ => True
  | .scale _ s => s ≠ 0
  | .add src dst _ => src ≠ dst

/-- What a row operation does to one column. -/
def RowOp.apply : RowOp n F → (Fin n → F) → Fin n → F
  | .swap a b, w, i => w (Equiv.swap a b i)
  | .scale r s, w, i => if i = r then w r * s else w i
  | .add src dst f, w, i => if i = dst then w dst + w src * f else w i

variable {c : Fin n} (op : RowOp n F) {M : Matrix (Fin n) (Fin n) F}

/-- A row operation applied to every column of a matrix. -/
def RowOp.onMatrix (M : Matrix (Fin n) (Fin n) F) : Matrix (Fin n) (Fin n) F :=
  fun i j => op.apply (fun t => M t j) i

lemma RowOp.apply_sum_mul (B : Fin n → Fin n → F) (a : Fin n → F) (i : Fin n) :
    ∑ t, op.apply (fun s => B s t) i * a t = op.apply (fun s => ∑ t, B s t * a t) i := by
  cases op with
  | swap p q => simp [RowOp.apply]
  | scale r s =>
    by_cases hi : i = r
    · simp only [RowOp.apply, if_pos hi, sum_mul]
      exact sum_congr rfl (fun t _ => by ring)
    · simp only [RowOp.apply, if_neg hi]
  | add src dst f =>
    by_cases hi : i = dst
    · simp only [RowOp.apply, if_pos hi, sum_mul, ← sum_add_distrib]
      exact sum_congr rfl (fun t _ => by ring)
    · simp only [RowOp.apply, if_neg hi]

/-- A valid operation sends only the zero column to the zero column. -/
lemma RowOp.apply_eq_zero {op : RowOp n F} (hop : op.Valid) {w : Fin n → F}
    (h : op.apply w = 0) : w = 0 := by
  have hpt := fun i => congrFun h i
  cases op with
  | swap a b =>
    funext i
    have := hpt (Equiv.swap a b i)
    simpa [RowOp.apply] using this
  | scale r s =>
    funext i
    have := hpt i
    by_cases hi : i = r
    · subst hi
      simpa [RowOp.apply, (show s ≠ 0 from hop)] using this
    · simpa [RowOp.apply, hi] using this
  | add src dst f =>
    have hsrc : w src = 0 := by
      simpa [RowOp.apply, (show src ≠ dst from hop)] using hpt src
    funext i
    by_cases hi : i = dst
    · subst hi
      simpa [RowOp.apply, hsrc] using hpt i
    · simpa [RowOp.apply, hi] using hpt i

/-! ## The invariant of a reduction -/

/-- `M` was reached from `A`, and `E` from the identity, by the same valid row operations. -/
structure Reduction (A M E : Matrix (Fin n) (Fin n) F) : Prop where
  factor : E * A = M
  kernel : ∀ v, M *ᵥ v = 0 → A *ᵥ v = 0

lemma Reduction.refl (A : Matrix (Fin n) (Fin n) F) : Reduction A A 1 :=
  ⟨Matrix.one_mul A, fun _ h => h⟩

lemma Reduction.rowOp {A E : Matrix (Fin n) (Fin n) F} (h : Reduction A M E)
    {op : RowOp n F} (hop : op.Valid) : Reduction A (op.onMatrix M) (op.onMatrix E) := by
  constructor
  · ext i j
    rw [← h.factor]
    exact op.apply_sum_mul (fun s t => E s t) (fun t => A t j) i
  · intro v hv
    refine h.kernel v (RowOp.apply_eq_zero hop ?_)
    rw [← hv]
    funext i
    exact (op.apply_sum_mul (fun s t => M s t) v i).symm

/-! ## Unit columns -/

/-- The first `c` columns of `M` are the first `c` columns of the identity. -/
def UnitColumns (M : Matrix (Fin n) (Fin n) F) (c : ℕ) : Prop :=
  ∀ j : Fin n, (j : ℕ) < c → ∀ i, M i j = if i = j then 1 else 0

lemma UnitColumns.zero (M : Matrix (Fin n) (Fin n) F) : UnitColumns M 0 :=
  fun _ hj => absurd hj (Nat.not_lt_zero _)

lemma UnitColumns.eq_one (h : UnitColumns M n) : M = 1 := by
  ext i j
  rw [h j j.2 i, Matrix.one_apply]

/-- Exchanging two rows at or below row `c` keeps the first `c` columns. -/
lemma UnitColumns.swap {M : Matrix (Fin n) (Fin n) F} {c : ℕ} (h : UnitColumns M c)
    {a b : Fin n} (ha : c ≤ a) (hb : c ≤ b) :
    UnitColumns ((RowOp.swap a b : RowOp n F).onMatrix M) c := by
  intro j hj i
  have hja : j ≠ a := by rintro rfl; omega
  have hjb : j ≠ b := by rintro rfl; omega
  have hiff : Equiv.swap a b i = j ↔ i = j := by
    rw [← Equiv.swap_apply_of_ne_of_ne hja hjb, Equiv.apply_eq_iff_eq,
      Equiv.swap_apply_of_ne_of_ne hja hjb]
  simp [RowOp.onMatrix, RowOp.apply, h j hj, hiff]

/-- Scaling row `c` keeps the first `c` columns. -/
lemma UnitColumns.scale {M : Matrix (Fin n) (Fin n) F} {c : Fin n} (h : UnitColumns M c) (s : F) :
    UnitColumns ((RowOp.scale c s : RowOp n F).onMatrix M) c := by
  intro j hj i
  have hcj : c ≠ j := by rintro rfl; omega
  by_cases hi : i = c
  · subst hi
    simp [RowOp.onMatrix, RowOp.apply, h j hj, hcj]
  · simp [RowOp.onMatrix, RowOp.apply, h j hj, hi]

/-- The matrix with column `c` cleared by its row `c`. -/
def clearColumn (M : Matrix (Fin n) (Fin n) F) (c : Fin n) : Matrix (Fin n) (Fin n) F :=
  fun i j => if i = c then M c j else M i j - M c j * M i c

/-- Clearing a column whose pivot is `1` gains one unit column. -/
lemma UnitColumns.clear (h : UnitColumns M c) (hpiv : M c c = 1) : UnitColumns (clearColumn M c)
    (c + 1) := by
  intro j hj i
  rcases Nat.lt_succ_iff_lt_or_eq.mp hj with hlt | heq
  · have hcj : c ≠ j := by rintro rfl; omega
    have hz0 : M c j = 0 := by rw [h j hlt, if_neg hcj]
    by_cases hi : i = c
    · rw [clearColumn, if_pos hi, hz0, if_neg (by rw [hi]; exact hcj)]
    · rw [clearColumn, if_neg hi, hz0, zero_mul, sub_zero, h j hlt]
  · have hjc : j = c := Fin.ext heq
    subst hjc
    by_cases hi : i = j
    · rw [clearColumn, if_pos hi, hpiv, if_pos hi]
    · rw [clearColumn, if_neg hi, hpiv, if_neg hi, one_mul, sub_self]

/-- **No pivot, no inverse.**  When the first `c` columns are unit columns and column `c` vanishes
from row `c` on, column `c` is a combination of the earlier ones. -/
lemma exists_kernel_of_no_pivot (h : UnitColumns M c) (hz0 : ∀ i : Fin n, c ≤ i → M i c = 0) :
    ∃ v : Fin n → F, v ≠ 0 ∧ M *ᵥ v = 0 := by
  -- Column `c` is the combination of the earlier columns with its own entries as coefficients.
  have hfix : M *ᵥ M.col c = M.col c := by
    funext i
    have hterm : ∀ j, M i j * M j c = if i = j then M j c else 0 := by
      intro j
      rcases lt_or_ge j c with hj | hj
      · rw [h j hj i, ite_mul, one_mul, zero_mul]
      · rw [hz0 j hj, mul_zero, ite_self]
    simp [mulVec, dotProduct, hterm]
  refine ⟨Pi.single c 1 - M.col c, fun hv => ?_, ?_⟩
  · have hc := congrFun hv c
    simp [hz0 c le_rfl] at hc
  · rw [mulVec_sub, hfix, mulVec_single_one, sub_self]

/-- At the end of a reduction of all columns `E` is a left inverse of `A`. -/
lemma Reduction.mul_eq_one {A E : Matrix (Fin n) (Fin n) F} (h : Reduction A M E)
    (hu : UnitColumns M n) : E * A = 1 := by
  rw [h.factor, hu.eq_one]

end ClioCore.Foundations
