import Mathlib.Algebra.Field.Basic
import Mathlib.Algebra.CharP.Two
import Mathlib.Dynamics.PeriodicPts.Defs
import Mathlib.Data.Finset.Card
import ClioCore.Foundations.Loops

/-!
# Arithmetic over GF(2^8) (`ec/gf256.h`)

The erasure code computes in the field of 256 elements.  Elements are bytes, addition is XOR, and
multiplication goes through the log/exp tables that `GfTables` builds once by doubling modulo
the primitive polynomial `0x11d`.

The first half of the file embeds the header: `gfTables`, `gfAdd`, `gfMul`, `gfInv` and
the region primitive `gfMulAddRegion`.  The second half shows that the table arithmetic really is
a field.  Everything follows from two facts about doubling, `gfDouble`: it is linear over XOR
(`gfDouble_xor`), and its orbit of `1` has length exactly `255` (`minimalPeriod_gfDouble`), so that
the exp table enumerates all non-zero bytes.  Multiplication by `a` is then doubling iterated
`log a` times (`gfMul_eq_iterate`), which makes it linear, and the remaining laws are laws of
exponents modulo `255`.  `GF256` is the byte type with that field structure; `toGf` crosses over.
-/

namespace ClioCore.Ec

open Foundations List Function

/-! ## The tables -/

/-- Primitive polynomial for GF(2^8): x^8 + x^4 + x^3 + x^2 + 1. -/
def kGfPrimitivePoly : ℕ := 0x11d

/-- Log/exp tables for GF(2^8) multiplication. -/
structure GfTables where
  /-- `exp[i] = generator^i`, doubled to avoid a modulo (512 entries). -/
  exp : List UInt8
  /-- `log[exp[i]] = i`; `log[0]` is unused (256 entries). -/
  log : List UInt8

/-- `x <<= 1; if (x & 0x100) x ^= kGfPrimitivePoly`. -/
def nextPower (x : ℕ) : ℕ :=
  if (x <<< 1) &&& 0x100 ≠ 0 then (x <<< 1) ^^^ kGfPrimitivePoly else x <<< 1

/-- One round of the table-filling loop; the state is the running power `x` and the tables. -/
def fillTables (st : ℕ × GfTables) (i : ℕ) : ℕ × GfTables :=
  (nextPower st.1,
    { exp := st.2.exp.set i (UInt8.ofNat st.1), log := st.2.log.set st.1 (UInt8.ofNat i) })

/-- The constructor of `GfTables`: fill the first cycle, duplicate it, set the `log[0]` sentinel. -/
def gfTables : GfTables :=
  let t := ((List.range 255).foldl fillTables
    (1, { exp := List.replicate 512 0, log := List.replicate 256 0 })).2
  { exp := (List.range' 255 257).foldl (fun e i => e.set i (e.getD (i - 255) 0)) t.exp
    log := t.log.set 0 0 }

/-! ## Field operations -/

variable (i : ℕ) (a b : UInt8)

/-- Field addition (== subtraction): XOR. -/
def gfAdd : UInt8 := a ^^^ b

/-- `exp[i]`. -/
def gfExp : UInt8 := gfTables.exp.getD i 0

/-- `log[a]`, widened to an `int`. -/
def gfLog : ℕ := (gfTables.log.getD a.toNat 0).toNat

/-- Field multiplication. -/
def gfMul : UInt8 :=
  if a = 0 ∨ b = 0 then 0 else gfExp (gfLog a + gfLog b)

/-- Multiplicative inverse of a non-zero element: `generator^(255 - log[a])`. -/
def gfInv : UInt8 := gfExp (255 - gfLog a)

/-- Region multiply-accumulate: `dst[i] ^= coeff * src[i]` for `i` in `[0, len)`. -/
def gfMulAddRegion (dst src : List UInt8) (coeff : UInt8) (len : ℕ) : List UInt8 :=
  if coeff = 0 then dst
  else (List.range len).foldl (fun dst i =>
    let s := src.getD i 0
    if s = 0 then dst else dst.set i (dst.getD i 0 ^^^ gfExp (gfLog coeff + gfLog s))) dst

/-! ## Doubling

`gfDouble` is the byte-level reading of one round of the loop. -/

/-- Multiplication by the generator `2`. -/
def gfDouble : UInt8 :=
  ⟨(a.toBitVec <<< 1) ^^^ (if a.toBitVec.msb then 0x1d#8 else 0#8)⟩

lemma nextPower_toNat : nextPower a.toNat = (gfDouble a).toNat := by
  have h : ∀ i : Fin 256, nextPower i = (gfDouble (UInt8.ofNat i)).toNat := by decide +kernel
  have ha := h ⟨a.toNat, a.toNat_lt⟩
  simpa using ha

/-- Doubling is linear over XOR. -/
lemma gfDouble_xor : gfDouble (a ^^^ b) = gfDouble a ^^^ gfDouble b := by
  apply UInt8.toBitVec_inj.mp
  simp only [gfDouble, UInt8.toBitVec_xor, BitVec.shiftLeft_xor_distrib, BitVec.msb_xor]
  -- the reduction of the sum is the sum of the reductions
  have hred : ∀ p q : Bool, (if (p ^^ q) = true then 0x1d#8 else 0#8)
      = (if p = true then 0x1d#8 else 0#8) ^^^ if q = true then 0x1d#8 else 0#8 := by decide
  rw [hred]
  ac_rfl

lemma gfDouble_zero : gfDouble 0 = 0 := by decide

lemma iterate_gfDouble_zero : gfDouble^[i] 0 = 0 :=
  iterate_fixed gfDouble_zero i

lemma iterate_gfDouble_xor : gfDouble^[i] (a ^^^ b) = gfDouble^[i] a ^^^ gfDouble^[i] b := by
  induction i generalizing a b with
  | zero => rfl
  | succ i ih => rw [iterate_succ_apply, gfDouble_xor, ih]; rfl

lemma iterate_gfDouble_period : gfDouble^[255] 1 = 1 := by decide +kernel

lemma isPeriodicPt_gfDouble : IsPeriodicPt gfDouble 255 1 := iterate_gfDouble_period

/-- The generator has order exactly `255 = 3 * 5 * 17`: none of the maximal proper divisors is
a period. -/
lemma minimalPeriod_gfDouble : minimalPeriod gfDouble 1 = 255 := by
  have hdvd := isPeriodicPt_gfDouble.minimalPeriod_dvd
  have hmem : minimalPeriod gfDouble 1 ∈ Nat.divisors 255 :=
    Nat.mem_divisors.mpr ⟨hdvd, by norm_num⟩
  have hdiv : Nat.divisors 255 = {1, 3, 5, 15, 17, 51, 85, 255} := by decide +kernel
  rw [hdiv] at hmem
  have hper := iterate_minimalPeriod (f := gfDouble) (x := 1)
  simp only [Finset.mem_insert, Finset.mem_singleton] at hmem
  rcases hmem with h | h | h | h | h | h | h | h
  case inr.inr.inr.inr.inr.inr.inr => exact h
  all_goals
    rw [h] at hper
    exact absurd hper (by decide +kernel)

-- From here on powers are compared through their exponents, never by running the iteration.
attribute [local irreducible] Nat.iterate

lemma iterate_gfDouble_inj {i j : ℕ} (hi : i < 255) (hj : j < 255)
    (h : gfDouble^[i] 1 = gfDouble^[j] 1) : i = j := by
  have hinj := iterate_injOn_Iio_minimalPeriod (f := gfDouble) (x := (1 : UInt8))
  rw [minimalPeriod_gfDouble] at hinj
  exact hinj (Set.mem_Iio.mpr hi) (Set.mem_Iio.mpr hj) h

lemma iterate_gfDouble_add_period : gfDouble^[i + 255] 1 = gfDouble^[i] 1 := by
  rw [iterate_add_apply, iterate_gfDouble_period]

/-- A power of the generator is never zero: zero is a fixed point, and the orbit returns to `1`. -/
lemma iterate_gfDouble_ne_zero : gfDouble^[i] 1 ≠ 0 := by
  intro h
  have hper : gfDouble^[255 * i] 1 = 1 := isPeriodicPt_gfDouble.mul_const i
  have hspl : 255 * i = 254 * i + i := by ring
  simp [hspl, iterate_add_apply, h, iterate_gfDouble_zero] at hper

/-- Every non-zero byte is a power of the generator, by counting. -/
lemma exists_iterate_gfDouble {a : UInt8} (ha : a ≠ 0) : ∃ i < 255, gfDouble^[i] 1 = a := by
  have hpos {b : UInt8} (hb : b ≠ 0) : b.toNat ∈ Finset.Icc 1 255 := by
    have hne : b.toNat ≠ 0 := fun h => hb (UInt8.toNat_inj.mp (by simpa using h))
    have hlt := b.toNat_lt
    rw [Finset.mem_Icc]
    omega
  obtain ⟨i, hi, hia⟩ := Finset.surjOn_of_injOn_of_card_le (s := Finset.range 255)
    (fun i => (gfDouble^[i] 1).toNat) (fun i _ => hpos (iterate_gfDouble_ne_zero i))
    (fun i hi j hj hij => iterate_gfDouble_inj (by simpa using hi) (by simpa using hj)
      (UInt8.toNat_inj.mp hij)) (by simp) (hpos ha)
  exact ⟨i, by simpa using hi, UInt8.toNat_inj.mp hia⟩

/-! ## What the tables hold -/

/-- The running power of the filling loop is the `n`-th power of the generator, and the two
tables are scatter loops over those powers. -/
lemma foldl_fillTables (n : ℕ) (t : GfTables) :
    (range n).foldl fillTables (1, t) =
      ((gfDouble^[n] 1).toNat,
        { exp := (range n).foldl (fun e i => e.set i (gfDouble^[i] 1)) t.exp
          log := (range n).foldl
            (fun l i => l.set (gfDouble^[i] 1).toNat (UInt8.ofNat i)) t.log }) := by
  induction n with
  | zero => simp
  | succ n ih =>
    simp [range_succ, ih, fillTables, nextPower_toNat, iterate_succ_apply']

/-- The duplication loop copies cell `i - 255` to cell `i`, which it has not touched yet or has
itself filled. -/
lemma foldl_duplicate (e : List UInt8) (he : e.length = 512)
    (hexp : ∀ i < 255, e.getD i 0 = gfDouble^[i] 1) (n : ℕ) (hn : n ≤ 257) :
    ((range' 255 n).foldl (fun e i => e.set i (e.getD (i - 255) 0)) e).length = 512 ∧
    ∀ i < 255 + n, ((range' 255 n).foldl
      (fun e i => e.set i (e.getD (i - 255) 0)) e).getD i 0 = gfDouble^[i] 1 := by
  induction n with
  | zero => exact ⟨he, fun i hi => hexp i (by omega)⟩
  | succ n ih =>
    obtain ⟨hlen, hval⟩ := ih (by omega)
    rw [range'_1_concat, foldl_append, foldl_cons, foldl_nil]
    refine ⟨by simpa using hlen, fun i hi => ?_⟩
    rw [getD_set]
    by_cases hin : i = 255 + n
    · subst hin
      have hshi : 255 + n - 255 + 255 = 255 + n := by omega
      rw [if_pos ⟨rfl, by omega⟩, hval _ (by omega), ← iterate_gfDouble_add_period, hshi]
    · rw [if_neg (fun h => hin h.1)]
      exact hval i (by omega)

/-- The exp table holds the powers of the generator. -/
lemma gfExp_eq {i : ℕ} (hi : i < 512) : gfExp i = gfDouble^[i] 1 := by
  have hlen : ((range 255).foldl (fun e i => e.set i (gfDouble^[i] 1))
      (replicate 512 0)).length = 512 :=
    foldlRecOn (motive := fun l : List UInt8 => l.length = 512) _ _ length_replicate
      fun s hs j _ => by rwa [length_set]
  have hfst : ∀ i < 255, ((range 255).foldl (fun e i => e.set i (gfDouble^[i] 1))
      (replicate 512 0)).getD i 0 = gfDouble^[i] 1 := by
    intro i hi
    exact foldl_range_scatter (fun i => i) (fun i => gfDouble^[i] 1) 0 _
      (fun _ _ _ _ h => h) (fun i hi => by rw [length_replicate]; omega) hi
  have hall := (foldl_duplicate _ hlen hfst 257 le_rfl).2 i (by omega)
  simpa only [gfExp, gfTables, foldl_fillTables] using hall

/-- The log table inverts the exp table. -/
lemma gfLog_iterate {i : ℕ} (hi : i < 255) : gfLog (gfDouble^[i] 1) = i := by
  have hsca := foldl_range_scatter (fun i => (gfDouble^[i] 1).toNat)
    (fun i => UInt8.ofNat i) 0 (replicate 256 0)
    (fun i hi j hj h => iterate_gfDouble_inj hi hj (UInt8.toNat_inj.mp h))
    (fun i _ => by rw [length_replicate]; exact (gfDouble^[i] 1).toNat_lt) hi
  have hne : (gfDouble^[i] 1).toNat ≠ 0 := fun h =>
    iterate_gfDouble_ne_zero i (UInt8.toNat_inj.mp (by simpa using h))
  simp only [gfLog, gfTables, foldl_fillTables]
  rw [getD_set, if_neg (fun h => hne h.1), hsca]
  simp only [UInt8.toNat_ofNat']
  omega

/-- The `log[0]` sentinel. -/
lemma gfLog_zero : gfLog 0 = 0 := by
  have hset : ∀ l : List UInt8, (l.set 0 0).getD 0 0 = 0 := by
    intro l
    cases l <;> rfl
  simp only [gfLog, gfTables, UInt8.toNat_zero, hset]

lemma gfLog_lt {a : UInt8} (ha : a ≠ 0) : gfLog a < 255 := by
  obtain ⟨i, hi, rfl⟩ := exists_iterate_gfDouble ha
  rwa [gfLog_iterate hi]

lemma iterate_gfLog {a : UInt8} (ha : a ≠ 0) : gfDouble^[gfLog a] 1 = a := by
  obtain ⟨i, hi, rfl⟩ := exists_iterate_gfDouble ha
  rw [gfLog_iterate hi]

/-- **Multiplication is iterated doubling.** -/
lemma gfMul_eq_iterate {a : UInt8} (ha : a ≠ 0) (b : UInt8) : gfMul a b = gfDouble^[gfLog a] b := by
  by_cases hb : b = 0
  · subst hb
    rw [iterate_gfDouble_zero, gfMul, if_pos (Or.inr rfl)]
  · have hla := gfLog_lt ha
    have hlb := gfLog_lt hb
    rw [gfMul, if_neg (not_or.mpr ⟨ha, hb⟩), gfExp_eq (by omega), iterate_add_apply,
      iterate_gfLog hb]

/-- `GfInv` does not fail on zero: through the sentinel it answers as on one. -/
lemma gfInv_zero : gfInv 0 = gfInv 1 := by
  have hone : gfLog 1 = 0 := by
    have h := gfLog_iterate (i := 0) (by omega)
    rwa [iterate_zero_apply] at h
  rw [gfInv, gfInv, gfLog_zero, hone]

/-! ## The field laws -/

lemma gfMul_zero : gfMul a 0 = 0 := if_pos (Or.inr rfl)

lemma gfMul_comm : gfMul a b = gfMul b a := by
  simp [gfMul, or_comm, add_comm (gfLog a)]

lemma gfMul_gfAdd (a b c : UInt8) : gfMul a (gfAdd b c) = gfAdd (gfMul a b) (gfMul a c) := by
  by_cases ha : a = 0
  · subst ha
    simp [gfMul_comm 0, gfMul_zero, gfAdd]
  · simp [gfMul_eq_iterate ha, gfAdd, iterate_gfDouble_xor]

lemma gfMul_assoc (a b c : UInt8) : gfMul (gfMul a b) c = gfMul a (gfMul b c) := by
  by_cases ha : a = 0
  · subst ha
    simp [gfMul]
  by_cases hb : b = 0
  · subst hb
    simp [gfMul]
  -- Both sides are powers of the generator applied to `c`; exponents agree modulo the period.
  by_cases hc : c = 0
  · subst hc
    simp [gfMul_zero]
  rw [gfMul_comm _ c, gfMul_eq_iterate hc, gfMul_eq_iterate ha, gfMul_eq_iterate ha,
    gfMul_comm b c, gfMul_eq_iterate hc, ← iterate_add_apply,
    ← iterate_add_apply, add_comm]

lemma one_gfMul : gfMul 1 a = a := by
  have hlog := gfLog_iterate (i := 0) (by norm_num)
  rw [iterate_zero_apply] at hlog
  rw [gfMul_eq_iterate (by decide), hlog, iterate_zero_apply]

lemma gfMul_gfInv {a : UInt8} (ha : a ≠ 0) : gfMul a (gfInv a) = 1 := by
  have hla := gfLog_lt ha
  rw [gfMul_eq_iterate ha, gfInv, gfExp_eq (by omega), ← iterate_add_apply]
  have : gfLog a + (255 - gfLog a) = 255 := by omega
  rw [this, iterate_gfDouble_period]

/-! ## The field of bytes -/

/-- Bytes with the arithmetic of the tables.  A type of its own, because `UInt8` already carries
addition and multiplication modulo `256`. -/
@[ext]
structure GF256 where
  val : UInt8
deriving DecidableEq

/-- A byte as a field element. -/
def toGf : GF256 := ⟨a⟩

namespace GF256

instance : Zero GF256 := ⟨⟨0⟩⟩

instance : One GF256 := ⟨⟨1⟩⟩

instance : Add GF256 := ⟨fun a b => ⟨gfAdd a.val b.val⟩⟩

instance : Neg GF256 := ⟨fun a => a⟩

instance : Mul GF256 := ⟨fun a b => ⟨gfMul a.val b.val⟩⟩

instance : Inv GF256 := ⟨fun a => if a = 0 then 0 else ⟨gfInv a.val⟩⟩

@[simp] lemma val_one : (1 : GF256).val = 1 := rfl

@[simp] lemma val_mul (a b : GF256) : (a * b).val = gfMul a.val b.val := rfl

lemma inv_of_ne_zero {a : GF256} (ha : a ≠ 0) : a⁻¹ = ⟨gfInv a.val⟩ := if_neg ha

instance : Field GF256 where
  add_assoc a b c := GF256.ext (UInt8.xor_assoc _ _ _)
  zero_add a := GF256.ext UInt8.zero_xor
  add_zero a := GF256.ext UInt8.xor_zero
  add_comm a b := GF256.ext (UInt8.xor_comm _ _)
  neg_add_cancel a := GF256.ext UInt8.xor_self
  nsmul := nsmulRec
  zsmul := zsmulRec
  left_distrib a b c := GF256.ext (gfMul_gfAdd _ _ _)
  right_distrib a b c := by
    apply GF256.ext
    have h := gfMul_gfAdd c.val a.val b.val
    rw [gfMul_comm c.val, gfMul_comm c.val a.val, gfMul_comm c.val b.val] at h
    exact h
  zero_mul a := GF256.ext ((gfMul_comm 0 a.val).trans (gfMul_zero _))
  mul_zero a := GF256.ext (gfMul_zero _)
  mul_assoc a b c := GF256.ext (gfMul_assoc _ _ _)
  one_mul a := GF256.ext (one_gfMul _)
  mul_one a := GF256.ext ((gfMul_comm a.val 1).trans (one_gfMul _))
  mul_comm a b := GF256.ext (gfMul_comm _ _)
  exists_pair_ne := ⟨0, 1, by decide⟩
  mul_inv_cancel a ha := by
    apply GF256.ext
    rw [inv_of_ne_zero ha, val_mul, gfMul_gfInv fun h => ha (GF256.ext h), val_one]
  inv_zero := if_pos rfl
  nnqsmul := _
  qsmul := _

end GF256

lemma toGf_injective : Injective toGf := fun _ _ h => congrArg GF256.val h

@[simp] lemma toGf_zero : toGf 0 = 0 := rfl

@[simp] lemma toGf_one : toGf 1 = 1 := rfl

@[simp] lemma toGf_xor : toGf (a ^^^ b) = toGf a + toGf b := rfl

@[simp] lemma toGf_gfAdd : toGf (gfAdd a b) = toGf a + toGf b := rfl

@[simp] lemma toGf_gfMul : toGf (gfMul a b) = toGf a * toGf b := rfl

@[simp] lemma toGf_eq_zero {a : UInt8} : toGf a = 0 ↔ a = 0 :=
  ⟨fun h => toGf_injective h, fun h => congrArg toGf h⟩

/-- Addition is its own inverse, so subtraction is addition. -/
lemma gf_sub_eq_add (a b : GF256) : a - b = a + b := by
  have hneg : -b = b := rfl
  rw [sub_eq_add_neg, hneg]

lemma toGf_gfInv {a : UInt8} (ha : a ≠ 0) : toGf (gfInv a) = (toGf a)⁻¹ := by
  rw [GF256.inv_of_ne_zero (fun h => ha (toGf_eq_zero.mp h))]
  rfl

/-! ## Regions -/

/-- Byte `i` of a region multiply-accumulate. -/
lemma gfMulAddRegion_spec (dst src : List UInt8) (coeff : UInt8) {len : ℕ}
    (hlen : dst.length = len) :
    (gfMulAddRegion dst src coeff len).length = len ∧ ∀ i < len,
      (gfMulAddRegion dst src coeff len).getD i 0 =
      dst.getD i 0 ^^^ gfMul coeff (src.getD i 0) := by
  by_cases hc : coeff = 0
  · subst hc
    simp [gfMulAddRegion, hlen, gfMul]
  rw [gfMulAddRegion, if_neg hc]
  obtain ⟨hl, hv⟩ := foldl_range_local (fun l : List UInt8 => l.length = len)
    (fun dst i => if src.getD i 0 = 0 then dst
      else dst.set i (dst.getD i 0 ^^^ gfExp (gfLog coeff + gfLog (src.getD i 0))))
    (fun l i => l.getD i 0) (fun i b => b ^^^ gfMul coeff (src.getD i 0)) len
    (by
      intro s c _ hs
      by_cases h0 : src.getD c 0 = 0
      · rw [if_pos h0]; exact hs
      · rw [if_neg h0, length_set]; exact hs)
    (by
      intro s c j hcN _ hs
      by_cases h0 : src.getD c 0 = 0
      · rw [if_pos h0, h0, gfMul_zero, UInt8.xor_zero]
        by_cases hjc : j = c
        · rw [if_pos hjc, hjc]
        · rw [if_neg hjc]
      · have hmul : gfMul coeff (src.getD c 0) = gfExp (gfLog coeff + gfLog (src.getD c 0)) :=
          if_neg (by tauto)
        rw [if_neg h0, getD_set, hs, hmul]
        by_cases hjc : j = c
        · rw [if_pos ⟨hjc, hcN⟩, if_pos hjc]
        · rw [if_neg (fun h => hjc h.1), if_neg hjc])
    le_rfl hlen
  refine ⟨hl, fun i hi => ?_⟩
  rw [hv i hi, if_pos hi]

/-- Accumulating scaled regions into a buffer adds up, byte by byte, in the field. -/
lemma foldl_gfMulAddRegion (coeff : ℕ → UInt8) (shard : ℕ → List UInt8) (len k : ℕ) :
    ((range k).foldl (fun out c => gfMulAddRegion out (shard c) (coeff c) len)
      (replicate len 0)).length = len ∧ ∀ i < len,
    toGf (((range k).foldl (fun out c => gfMulAddRegion out (shard c) (coeff c) len)
      (replicate len 0)).getD i 0)
        = ∑ c ∈ Finset.range k, toGf (coeff c) * toGf ((shard c).getD i 0) := by
  induction k with
  | zero =>
    refine ⟨by simp, fun i hi => ?_⟩
    simp
  | succ k ih =>
    obtain ⟨hlen, hval⟩ := ih
    obtain ⟨hlen', hval'⟩ := gfMulAddRegion_spec _ (shard k) (coeff k) hlen
    rw [range_succ, foldl_append, foldl_cons, foldl_nil]
    refine ⟨hlen', fun i hi => ?_⟩
    rw [hval' i hi, toGf_xor, toGf_gfMul, hval i hi, Finset.sum_range_succ]

end ClioCore.Ec
