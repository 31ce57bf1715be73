import Mathlib.Data.List.Basic
import Mathlib.Data.List.GetD
import Mathlib.Tactic

/-!
# Overwriting a range of a list

`patch base off len d l` is the list `l`, whose first element is at position `base` of something
larger, after the range of `len` cells from `off` on has been overwritten with `d 0, d 1, …`.  Cells
of the range that are not in the list are dropped, so that a long list can be patched part by part
(`patch_append`).
-/

namespace ClioCore.Foundations

open Option

variable {α : Type*}

/-- Overwrite the cells of `l` that are in the range `[off, off + len)`. -/
def patch (base off len : ℕ) (d : ℕ → α) (l : List α) : List α :=
  l.mapIdx fun i x => if off ≤ base + i ∧ base + i < off + len then d (base + i - off) else x

variable {base off len : ℕ} {d : ℕ → α} {l l1 l2 : List α}

@[simp] lemma length_patch : (patch base off len d l).length = l.length := by simp [patch]

lemma getElem?_patch (i : ℕ) : (patch base off len d l)[i]? =
    l[i]?.map fun x => if off ≤ base + i ∧ base + i < off + len then d (base + i - off) else x := by
  simp [patch]

lemma patch_append (base off len : ℕ) (d : ℕ → α) (l1 l2 : List α) : patch base off len d (l1 ++ l2)
      = patch base off len d l1 ++ patch (base + l1.length) off len d l2 := by
  simp [patch, List.mapIdx_append, Nat.add_assoc, Nat.add_comm l1.length]

/-- A list outside the range is not changed. -/
lemma patch_eq_self (h : base + l.length ≤ off ∨ off + len ≤ base) :
    patch base off len d l = l := by
  apply List.ext_getElem?
  intro i
  rw [getElem?_patch]
  rcases Nat.lt_or_ge i l.length with hi | hi
  · rw [List.getElem?_eq_getElem hi, map_some, if_neg (by omega)]
  · rw [List.getElem?_eq_none hi, map_none]

@[simp] lemma patch_zero : patch base off 0 d l = l := by
  apply List.ext_getElem?
  intro i
  rw [getElem?_patch]
  simp only [show ¬ (off ≤ base + i ∧ base + i < off + 0) by omega, if_false, map_id']

/-- Adjacent ranges are overwritten one after the other. -/
lemma patch_patch_adjacent (base off k m : ℕ) (d : ℕ → α) (l : List α) :
    patch base (off + k) m (fun i => d (k + i))
    (patch base off k d l) = patch base off (k + m) d l := by
  apply List.ext_getElem?
  intro i
  simp only [getElem?_patch, map_map]
  congr 1
  funext x
  simp only [Function.comp_apply]
  split_ifs <;> first | rfl | omega | (congr 1; omega)

/-- What lies behind the end of the list does not matter. -/
lemma patch_eq_of_le {k m : ℕ} (hk : base + l.length ≤ off + k) (hm : base + l.length ≤ off + m) :
    patch base off k d l = patch base off m d l := by
  apply List.ext_getElem?
  intro i
  simp only [getElem?_patch]
  rcases Nat.lt_or_ge i l.length with hi | hi
  · rw [List.getElem?_eq_getElem hi, map_some]
    congr 1
    exact if_congr (by omega) rfl rfl
  · rw [List.getElem?_eq_none hi, map_none, map_none]

end ClioCore.Foundations
