import Mathlib.Data.List.AList
import Mathlib.Algebra.BigOperators.Group.List.Basic
import Mathlib.Algebra.Order.Ring.Nat

/-!
# Finite maps

What a map answers after a key has been put in or taken out, and sums over its entries: `tally m f`
adds `f k v` over the entries of the map `m`.  The lemmas say what inserting, erasing and changing
the summand at one key do to the sum.
-/

namespace ClioCore.Foundations

open List AList

variable {α β : Type*} [DecidableEq α] {m : AList fun _ : α => β} {f g : α → β → ℕ}
  {a k : α} {v w : β}

lemma lookup_insert_eq_some :
    (m.insert k v).lookup a = some w ↔ a = k ∧ v = w ∨ a ≠ k ∧ m.lookup a = some w := by
  obtain rfl | hne := eq_or_ne a k
  · simp
  · simp [hne]

lemma lookup_erase_eq_some : (m.erase k).lookup a = some w ↔ a ≠ k ∧ m.lookup a = some w := by
  obtain rfl | hne := eq_or_ne a k
  · simp
  · simp [hne]

/-- A key is given the value that it has. -/
lemma lookup_insert_of_lookup (h : m.lookup k = some v) (a : α) :
    (m.insert k v).lookup a = m.lookup a := by
  obtain rfl | ha := eq_or_ne a k <;> simp [*]

/-- A key that the map has gets another value. -/
lemma lookup_modify {m' : AList fun _ : α => β} {h : β → β}
    (hm : m' = (m.lookup k).elim m fun v => m.insert k (h v)) :
    m'.lookup a = if a = k then (m.lookup k).map h else m.lookup a := by
  cases hk : m.lookup k <;> obtain rfl | ha := eq_or_ne a k <;> simp [*]

/-- The sum of `f` over the entries of a map. -/
def tally (m : AList fun _ : α => β) (f : α → β → ℕ) : ℕ := (m.entries.map fun e => f e.1 e.2).sum

/-- Only the summands at the entries matter. -/
lemma tally_congr (h : ∀ k v, m.lookup k = some v → f k v = g k v) : tally m f = tally m g := by
  refine congrArg sum (map_congr_left fun e he => h e.1 e.2 ?_)
  exact mem_lookup_iff.mpr he

/-- A new key. -/
lemma tally_insert (h : m.lookup k = none) : tally (m.insert k v) f = f k v + tally m f := by
  rw [tally, entries_insert_of_notMem (lookup_eq_none.mp h), map_cons, sum_cons, tally]

/-- A key taken out. -/
lemma tally_erase (h : m.lookup k = some v) : tally m f = f k v + tally (m.erase k) f := by
  have hmem : k ∈ m.entries.keys := lookup_isSome.mp (by rw [h]; rfl)
  obtain ⟨v', l1, l2, -, hspl, her⟩ := exists_of_kerase hmem
  have hv : v' = v := by
    have hin : (⟨k, v'⟩ : Sigma fun _ : α => β) ∈ m.entries := by
      rw [hspl]
      exact mem_append_right _ mem_cons_self
    exact Option.some.inj ((mem_lookup_iff.mpr hin).symm.trans h)
  have hers : (m.erase k).entries = l1 ++ l2 := her
  subst hv
  rw [tally, tally, hers, hspl, map_append, map_append, map_cons, sum_append,
    sum_append, sum_cons, Nat.add_left_comm]

/-- A key that does not count is taken out. -/
lemma tally_erase_of_eq_zero (h : ∀ v, f k v = 0) : tally (m.erase k) f = tally m f := by
  cases hlk : m.lookup k with
  | none =>
    have hsm : m.erase k = m := by
      ext1
      exact kerase_of_notMem_keys (lookup_eq_none.mp hlk)
    rw [hsm]
  | some v' => rw [tally_erase hlk, h v', Nat.zero_add]

/-- A key that does not count is put in. -/
lemma tally_insert_of_eq_zero (h : ∀ v, f k v = 0) : tally (m.insert k v) f = tally m f := by
  have hins : tally (m.insert k v) f = f k v + tally (m.erase k) f := by
    rfl
  rw [hins, h v, Nat.zero_add, tally_erase_of_eq_zero h]

/-- Another summand at one key. -/
lemma tally_update (h : m.lookup k = some v)
    (hfg : ∀ k' v', k' ≠ k → m.lookup k' = some v' → f k' v' = g k' v') :
    tally m f + g k v = tally m g + f k v := by
  have hrs : tally (m.erase k) f = tally (m.erase k) g := by
    refine tally_congr fun k' v' hk' => ?_
    obtain ⟨hne, hk'⟩ := lookup_erase_eq_some.mp hk'
    exact hfg k' v' hne hk'
  rw [tally_erase h, tally_erase h]
  omega

end ClioCore.Foundations
