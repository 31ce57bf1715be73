import Mathlib.LinearAlgebra.Lagrange
import Mathlib.LinearAlgebra.Matrix.Notation
import Mathlib.Tactic

/-!
# Systematic Cauchy generator matrices

A systematic erasure code of width `k` over a field stores the `k` message symbols verbatim and
adds parity symbols whose coefficients come from a Cauchy matrix `1 / (pt g - pt c)`.  This file
proves the fact such codes rest on: *any* `k` rows of the generator matrix determine the message
(`generatorRow_injective`), so every choice of `k` distinct shards is decodable.

The argument is the classical one.  Rows of the identity part kill their own coordinate; on the
remaining coordinates `S` a vanishing Cauchy combination is, up to the common denominator, the value
of an interpolation polynomial of degree below `S.card` (`Lagrange.eval_interpolate_not_at_node`).
With at least `S.card` roots that polynomial is zero, and its value at `pt c` isolates coordinate
`c`.
-/

namespace ClioCore.Foundations

open Polynomial Finset

variable {F : Type*} [Field F] {ι κ : Type*} [DecidableEq ι]

/-! ## Clearing denominators -/

variable (pt : ℕ → F) {S : Finset ι}

/-- A Cauchy combination with at least as many zeros as coefficients has no coefficients. -/
lemma cauchy_coeff_eq_zero {R : Finset κ} {y v : ι → F} {x : κ → F}
    (hy : Set.InjOn y S) (hx : Set.InjOn x R) (hxy : ∀ r ∈ R, ∀ c ∈ S, x r ≠ y c)
    (hcard : S.card ≤ R.card) (hv : ∀ r ∈ R, ∑ c ∈ S, v c * (x r - y c)⁻¹ = 0)
    {c : ι} (hc : c ∈ S) : v c = 0 := by
  set p := Lagrange.interpolate S y fun c => (Lagrange.nodalWeight S y c)⁻¹ * v c with hp
  have hw : ∀ c ∈ S, Lagrange.nodalWeight S y c ≠ 0 := fun c => Lagrange.nodalWeight_ne_zero hy
  have heval : ∀ r ∈ R, p.eval (x r) = 0 := by
    intro r hr
    rw [hp, Lagrange.eval_interpolate_not_at_node _ (hxy r hr), mul_eq_zero]
    refine .inr ((sum_congr rfl fun c hc => ?_).trans (hv r hr))
    field_simp [hw c hc]
  have hz0 : p = 0 := eq_zero_of_degree_lt_of_eval_index_eq_zero R hx
    ((Lagrange.degree_interpolate_lt _ hy).trans_le (by exact_mod_cast hcard)) heval
  have hpole := Lagrange.eval_interpolate_at_node (fun c => (Lagrange.nodalWeight S y c)⁻¹ * v c) hy
    hc
  rw [← hp, hz0, eval_zero] at hpole
  exact (mul_eq_zero.mp hpole.symm).resolve_left (inv_ne_zero (hw c hc))

/-! ## The generator matrix -/

/-- Entry `(g, c)` of the systematic generator matrix of width `k`: identity rows on top, then
the Cauchy rows of the points `pt`. -/
def generatorRow (k g c : ℕ) : F :=
  if g < k then (if g = c then 1 else 0) else (pt g - pt c)⁻¹

lemma generatorRow_data {k g : ℕ} (hg : g < k) (c : ℕ) :
    generatorRow pt k g c = if g = c then 1 else 0 := if_pos hg

lemma generatorRow_parity {k g : ℕ} (hg : k ≤ g) (c : ℕ) :
    generatorRow pt k g c = (pt g - pt c)⁻¹ := if_neg (not_lt.mpr hg)

/-- Distinct data rows occupy as many columns as there are of them, so at most as many columns
are left free as there are parity rows. -/
lemma card_freeColumns_le {k : ℕ} {sel : Fin k → ℕ} (hsel : Function.Injective sel) :
    (univ.filter (fun c : Fin k => ∀ i, sel i ≠ c)).card
      ≤ (univ.filter (fun i : Fin k => k ≤ sel i)).card := by
  set R : Finset (Fin k) := univ.filter (fun i : Fin k => k ≤ sel i) with hR
  set S : Finset (Fin k) := univ.filter (fun c : Fin k => ∀ i, sel i ≠ c) with hS
  have hlt : ∀ i ∈ Rᶜ, sel i < k := by
    intro i hi
    simpa [hR] using hi
  have hle : Rᶜ.card ≤ Sᶜ.card := by
    apply card_le_card_of_injOn (fun i => if h : sel i < k then ⟨sel i, h⟩ else i)
    · intro i hi
      simp only [mem_coe, mem_compl, dif_pos (hlt i hi), hS, mem_filter]
      exact fun h => h.2 i rfl
    · intro i hi j hj hij
      simp only [dif_pos (hlt i hi), dif_pos (hlt j hj), Fin.mk.injEq] at hij
      exact hsel hij
  have h1 := card_add_card_compl S
  have h2 := card_add_card_compl R
  omega

/-- **Any `k` rows determine the message.**  If `k` distinct rows of the generator matrix, with
pairwise distinct points, all annihilate `v`, then `v = 0`. -/
lemma generatorRow_injective {pt : ℕ → F} {k N : ℕ} (hkN : k ≤ N)
    (hpt : Set.InjOn pt (Set.Iio N)) {sel : Fin k → ℕ} (hsel : Function.Injective sel)
    (hN : ∀ i, sel i < N) {v : Fin k → F}
    (hv : ∀ i, ∑ c : Fin k, generatorRow pt k (sel i) c * v c = 0) : v = 0 := by
  have hlt : ∀ c : Fin k, (c : ℕ) < N := fun c => lt_of_lt_of_le c.2 hkN
  -- A data row forces its own coordinate to vanish.
  have hdt : ∀ (i c : Fin k), sel i = c → v c = 0 := by
    intro i c hic
    have h := hv i
    have hlt' : sel i < k := hic ▸ c.2
    simp only [generatorRow_data pt hlt'] at h
    simpa [hic, Fin.val_inj] using h
  -- `S`: the coordinates no data row speaks about; `R`: the parity rows.
  set S : Finset (Fin k) := univ.filter (fun c : Fin k => ∀ i, sel i ≠ c) with hS
  set R : Finset (Fin k) := univ.filter (fun i : Fin k => k ≤ sel i)
  have hfe : ∀ c, c ∉ S → v c = 0 := by
    intro c hc
    simp only [hS, mem_filter, mem_univ, true_and, not_forall, not_not] at hc
    obtain ⟨i, hic⟩ := hc
    exact hdt i c hic
  have hsum : ∀ i ∈ R, ∑ c ∈ S, v c * (pt (sel i) - pt c)⁻¹ = 0 := by
    intro i hi
    rw [← hv i, ← sum_subset (subset_univ S)]
    · apply sum_congr rfl
      intro c _
      rw [generatorRow_parity pt (mem_filter.mp hi).2, mul_comm]
    · intro c _ hc
      rw [hfe c hc, mul_zero]
  funext c
  by_cases hc : c ∈ S
  · refine cauchy_coeff_eq_zero
      ?_ ?_ ?_ (card_freeColumns_le hsel) hsum hc
    · intro a _ b _ hab
      exact Fin.ext (hpt (hlt a) (hlt b) hab)
    · intro a _ b _ hab
      exact hsel (hpt (hN a) (hN b) hab)
    · intro i hi b _ hib
      have heq := hpt (hN i) (hlt b) hib
      have hge := (mem_filter.mp hi).2
      omega
  · exact hfe c hc

end ClioCore.Foundations
