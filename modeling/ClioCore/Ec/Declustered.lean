import Mathlib.Data.List.Range
import Mathlib.Data.List.Perm.Subperm
import Mathlib.Tactic

/-!
# Rotated parity (`ec/declustered.h`)

In a generation of `k + m` members the role of each member rotates with the stripe.  In one stripe
positions and shards are in bijection; in as many stripes as there are members each position meets
each rotation once, so that it holds parity in `m` of them.  The stripe and the seed are added in 64
bits.  In a window in which that sum wraps around, some rotations occur twice and some not at all,
unless the number of members divides `2 ^ 64`, and the parity is not even.
-/

namespace ClioCore.Ec

open List Nat

lemma mod_of_lt_two_mul {x N : ℕ} (hx : x < 2 * N) : x % N = if x < N then x else x - N := by
  split_ifs with hlt
  · exact mod_eq_of_lt hlt
  · rw [mod_eq_sub_mod (by omega), mod_eq_of_lt (by omega)]

/-- Two runs of rotations with a gap of `2 ^ 64 % N` between them: those that occur twice. -/
lemma count_two_runs {N b w r : ℕ} (hw : w + b = 2 ^ 64) (hwN : w < N) (hr : r < N) :
    ((range w).map (fun i => (b + i) % N) ++ range (N - w)).count r = 2 ↔
      2 ^ 64 % N ≤ r + w ∧ r < 2 ^ 64 % N ∧ r + w < N := by
  have hnd : ((range w).map fun i => (b + i) % N).Nodup := by
    refine nodup_range.map_on fun i hi j hj hij => ?_
    rw [mem_range] at hi hj
    exact Nat.ModEq.eq_of_lt_of_lt (Nat.ModEq.add_left_cancel' _ hij) (by omega) (by omega)
  have hmem (hrw : r + w < N) : r ∈ (range w).map (fun i => (b + i) % N) ↔
      2 ^ 64 % N ≤ r + w ∧ r < 2 ^ 64 % N := by
    simp only [mem_map, mem_range]
    constructor
    · rintro ⟨i, hi, hbi⟩
      have hsum : (2 ^ 64 % N + i) % N = r + w := by
        rw [mod_add_mod, ← hw, show w + b + i = b + i + w by omega, ← mod_add_mod, hbi,
          mod_eq_of_lt hrw]
      have hc : 2 ^ 64 % N < N := mod_lt _ (zero_lt_of_lt hr)
      rw [mod_of_lt_two_mul (by omega)] at hsum
      split_ifs at hsum <;> omega
    · rintro ⟨hle, hlt⟩
      have hdiv := div_add_mod (2 ^ 64) N
      refine ⟨r + w - 2 ^ 64 % N, by omega, ?_⟩
      rw [show b + (r + w - 2 ^ 64 % N) = r + N * (2 ^ 64 / N) by omega, add_mul_mod_self_left,
        mod_eq_of_lt hr]
  rw [count_append, hnd.count, nodup_range.count]
  simp only [mem_range]
  by_cases hrw : r + w < N
  · simp only [hmem hrw]
    split_ifs <;> omega
  · split_ifs <;> omega

/-- They are an interval, and a proper one, so no shift of the rotations keeps them. -/
lemma not_periodic {N m w c : ℕ} (hm : 0 < m) (hmN : m < N) (hw : 0 < w) (hwN : w < N) (hc : 0 < c)
    (hcN : c < N) : ¬ ∀ r < N, c ≤ r + w ∧ r < c ∧ r + w < N ↔
      c ≤ (r + m) % N + w ∧ (r + m) % N < c ∧ (r + m) % N + w < N := by
  intro hshift
  -- the ends of the interval, and the rotation that is shifted to the last one
  have hfirst := hshift (c - w) (by omega)
  have hlast := hshift (min (c - 1) (N - w - 1)) (by omega)
  have hround := hshift (N - 1 - m) (by omega)
  rw [mod_of_lt_two_mul (by omega)] at hfirst hlast hround
  split_ifs at hfirst hlast hround <;> omega

/-- A generation; it has as many members as its stripes have shards. -/
structure Generation where
  k : ℕ
  m : ℕ
  firstStripe : ℕ
  numStripes : ℕ
  seed : ℕ
  members : List ℕ
  length_members : members.length = k + m

namespace Generation

variable (gen : Generation) {g p q : ℕ}

/-- The test of `EpochOf`. -/
def owns (g : ℕ) : Prop := gen.firstStripe ≤ g ∧ g < (gen.firstStripe + gen.numStripes) % 2 ^ 64

instance (g : ℕ) : Decidable (gen.owns g) :=
  inferInstanceAs (Decidable (gen.firstStripe ≤ g ∧
    g < (gen.firstStripe + gen.numStripes) % 2 ^ 64))

/-- How far the roles are rotated in stripe `g`. -/
def rotation (g : ℕ) : ℕ := (g - gen.firstStripe + gen.seed) % 2 ^ 64 % gen.members.length

/-- The shard of position `p` in stripe `g`; the remainder takes the sign of the dividend. -/
def shardOfPosition (g p : ℕ) : ℕ :=
  let N : ℤ := gen.members.length
  ((((p : ℤ) - gen.rotation g).tmod N + N).tmod N).toNat

def positionOfShard (g q : ℕ) : ℕ := (q + gen.rotation g) % gen.members.length

section

variable {gen} {N : ℕ} (hN : gen.members.length = N)
include hN

lemma rotation_lt (hp : p < N) : gen.rotation g < N := by
  rw [rotation, hN]
  exact mod_lt _ (zero_lt_of_lt hp)

lemma shardOfPosition_eq (hp : p < N) :
    gen.shardOfPosition g p = (p + (N - gen.rotation g)) % N := by
  have hr := rotation_lt hN (g := g) hp
  rw [shardOfPosition, hN]
  generalize gen.rotation g = r at hr ⊢
  have hrem : ((p : ℤ) - r).tmod N = p - r := by
    rcases le_or_gt r p with hpr | hpr
    · exact Int.tmod_eq_of_lt (by omega) (by omega)
    · rw [← neg_sub, Int.neg_tmod, Int.tmod_eq_of_lt (by omega) (by omega)]
  have hsum : (p : ℤ) - r + N = ((p + (N - r) : ℕ) : ℤ) := by omega
  simp only [hrem, hsum]
  rfl

lemma shardOfPosition_lt (hp : p < N) : gen.shardOfPosition g p < N := by
  rw [shardOfPosition_eq hN hp]
  exact mod_lt _ (zero_lt_of_lt hp)

lemma positionOfShard_lt (hq : q < N) : gen.positionOfShard g q < N := by
  rw [positionOfShard, hN]
  exact mod_lt _ (zero_lt_of_lt hq)

lemma positionOfShard_shardOfPosition (hp : p < N) :
    gen.positionOfShard g (gen.shardOfPosition g p) = p := by
  have hr := rotation_lt hN (g := g) hp
  rw [positionOfShard, hN, shardOfPosition_eq hN hp, mod_add_mod,
    show p + (N - gen.rotation g) + gen.rotation g = p + N by omega, add_mod_right, mod_eq_of_lt hp]

lemma shardOfPosition_positionOfShard (hq : q < N) :
    gen.shardOfPosition g (gen.positionOfShard g q) = q := by
  have hr := rotation_lt hN (g := g) hq
  rw [shardOfPosition_eq hN (positionOfShard_lt hN hq), positionOfShard, hN, mod_add_mod,
    show q + gen.rotation g + (N - gen.rotation g) = q + N by omega, add_mod_right, mod_eq_of_lt hq]

/-- The one rotation that gives a position a shard. -/
lemma shardOfPosition_eq_iff (hp : p < N) (hq : q < N) :
    gen.shardOfPosition g p = q ↔ gen.rotation g = (p + (N - q)) % N := by
  have hr := rotation_lt hN (g := g) hp
  rw [shardOfPosition_eq hN hp, mod_of_lt_two_mul (by omega), mod_of_lt_two_mul (by omega)]
  split_ifs <;> omega

/-- From a position to the next, parity begins with shard `k` and ends with shard 0. -/
lemma countP_parity_succ (hk : 0 < gen.k) (hm : 0 < gen.m) (hp : p < N) (gs : List ℕ) :
    gs.countP (fun g => gen.k ≤ gen.shardOfPosition g ((p + 1) % N)) +
        gs.countP (fun g => gen.shardOfPosition g ((p + 1) % N) = 0) =
      gs.countP (fun g => gen.k ≤ gen.shardOfPosition g p) +
        gs.countP fun g => gen.shardOfPosition g ((p + 1) % N) = gen.k := by
  have hlen := gen.length_members
  induction gs with
  | nil => rfl
  | cons g gs ih =>
    -- the next position holds the next shard
    have hnext : gen.shardOfPosition g ((p + 1) % N) = (gen.shardOfPosition g p + 1) % N := by
      rw [shardOfPosition_eq hN hp, shardOfPosition_eq hN (mod_lt _ (zero_lt_of_lt hp)),
        mod_add_mod, mod_add_mod, Nat.add_right_comm]
    have hlt := shardOfPosition_lt hN (g := g) hp
    rw [mod_of_lt_two_mul (x := gen.shardOfPosition g p + 1) (by omega)] at hnext
    simp only [countP_cons, decide_eq_true_eq]
    split_ifs at hnext <;> split_ifs <;> omega

/-- If the parity is even, then a rotation is as frequent as the one `k` before. -/
lemma count_rotation_of_even (hk : 0 < gen.k) (hm : 0 < gen.m) (gs : List ℕ)
    (heven : ∀ p < N, gs.countP (fun g => gen.k ≤ gen.shardOfPosition g p) = gen.m) {r : ℕ}
    (hr : r < N) :
    (gs.map gen.rotation).count r = (gs.map gen.rotation).count ((r + (N - gen.k)) % N) := by
  have hlen := gen.length_members
  -- the position before `r`
  obtain ⟨p, hp, rfl⟩ : ∃ p < N, (p + 1) % N = r := by
    rcases r with _ | r
    · exact ⟨N - 1, by omega, by rw [Nat.sub_add_cancel (by omega), mod_self]⟩
    · exact ⟨r, by omega, mod_eq_of_lt hr⟩
  have hsucc := countP_parity_succ hN hk hm hp gs
  rw [heven _ hr, heven p hp, Nat.add_left_cancel_iff] at hsucc
  simp only [shardOfPosition_eq_iff hN hr (show 0 < N by omega),
    shardOfPosition_eq_iff hN hr (show gen.k < N by omega), Nat.sub_zero, add_mod_right,
    mod_mod] at hsucc
  rwa [List.count, countP_map, List.count, countP_map]

/-- Where the sum wraps around inside the window, its rotations are those of two runs. -/
lemma rotations_of_wrap {a w : ℕ} (hg : gen.firstStripe ≤ g)
    (ha : a = g - gen.firstStripe + gen.seed)
    (hw : w + a % 2 ^ 64 = 2 ^ 64) (hwN : w ≤ N) (hle : N ≤ 2 ^ 64) :
    ((range N).map (g + ·)).map gen.rotation =
      (range w).map (fun i => (a % 2 ^ 64 + i) % N) ++ range (N - w) := by
  have hrot i : gen.rotation (g + i) = (a + i) % 2 ^ 64 % N := by
    rw [rotation, hN, show g + i - gen.firstStripe + gen.seed = a + i by omega]
  rw [map_map, ← Nat.add_sub_cancel' hwN, range_add, map_append, map_map, Nat.add_sub_cancel' hwN]
  congr 1
  · refine map_congr_left fun i hi => ?_
    have hi := mem_range.mp hi
    rw [Function.comp_apply, hrot, show (a + i) % 2 ^ 64 = a % 2 ^ 64 + i by omega]
  · refine (map_congr_left fun i hi => ?_).trans (map_id _)
    have hi := mem_range.mp hi
    rw [Function.comp_apply, Function.comp_apply, hrot,
      show (a + (w + i)) % 2 ^ 64 = i by omega, mod_eq_of_lt (by omega), id]

/-- In a window of consecutive rotations a position holds every shard once, and the parity is even.
-/
lemma even_of_rotation {b : ℕ} (hrot : ∀ i < N, gen.rotation (g + i) = (b + i) % N) (hp : p < N) :
    ((range N).countP fun i => gen.k ≤ gen.shardOfPosition (g + i) p) = gen.m := by
  have hnd : ((range N).map fun i => gen.shardOfPosition (g + i) p).Nodup := by
    refine nodup_range.map_on fun i hi j hj hij => ?_
    rw [mem_range] at hi hj
    rw [shardOfPosition_eq_iff hN hp (shardOfPosition_lt hN hp),
      ← (shardOfPosition_eq_iff hN hp (shardOfPosition_lt hN hp)).mp rfl, hrot i hi,
      hrot j hj] at hij
    exact Nat.ModEq.eq_of_lt_of_lt (Nat.ModEq.add_left_cancel' _ hij) hi hj
  have hperm : (range N).map (fun i => gen.shardOfPosition (g + i) p) ~ range N := by
    refine (subperm_of_subset hnd fun q hq => ?_).perm_of_length_le (by simp)
    obtain ⟨i, -, rfl⟩ := mem_map.mp hq
    exact mem_range.mpr (shardOfPosition_lt hN hp)
  have hcnt := hperm.countP_eq fun q => gen.k ≤ q
  rw [countP_map] at hcnt
  refine hcnt.trans ?_
  have hdt : (range gen.k).countP (fun q => gen.k ≤ q) = 0 :=
    countP_eq_zero.mpr fun q hq => by simpa using mem_range.mp hq
  have hpty : (range gen.m).countP ((fun q => decide (gen.k ≤ q)) ∘ (gen.k + ·)) = gen.m := by
    simpa using countP_eq_length (l := range gen.m).mpr fun q _ => by simp
  rw [← hN, gen.length_members, range_add, countP_append, countP_map, hdt, hpty, zero_add]

/-- A window in which the sum wraps around is not even: the rotations that two stripes have are an
interval, and no shift by `k` keeps it. -/
lemma not_even_of_wrap (hk : 0 < gen.k) (hm : 0 < gen.m) (hg : gen.firstStripe ≤ g)
    (hle : N ≤ 2 ^ 64) (hdvd : ¬ N ∣ 2 ^ 64) (hwrap : (g - gen.firstStripe + gen.seed) / 2 ^ 64 ≠
      (g + N - 1 - gen.firstStripe + gen.seed) / 2 ^ 64) :
    ¬ ∀ p < N, ((range N).countP fun i => gen.k ≤ gen.shardOfPosition (g + i) p) = gen.m := by
  intro heven
  have hlen := gen.length_members
  obtain ⟨a, ha⟩ : ∃ a, a = g - gen.firstStripe + gen.seed := ⟨_, rfl⟩
  obtain ⟨w, hw⟩ : ∃ w, w + a % 2 ^ 64 = 2 ^ 64 := ⟨2 ^ 64 - a % 2 ^ 64, by omega⟩
  have hwN : w < N := by omega
  have hper r (hr : r < N) := count_rotation_of_even hN hk hm ((range N).map (g + ·))
    (by simpa [countP_map, Function.comp_def] using heven) hr
  simp only [rotations_of_wrap hN hg ha hw hwN.le hle] at hper
  have hc : 0 < 2 ^ 64 % N := Nat.pos_of_ne_zero fun h0 => hdvd (dvd_of_mod_eq_zero h0)
  refine not_periodic hm (by omega) (by omega) hwN hc (mod_lt _ (by omega)) fun r hr => ?_
  rw [← count_two_runs hw hwN hr, hper r hr, count_two_runs hw hwN (mod_lt _ (zero_lt_of_lt hr)),
    show N - gen.k = gen.m by omega]

end

end Generation

open Generation

/-- **Rotation.**  In every stripe positions and shards are in bijection.  In a window of as many
stripes as there are members each position holds parity `m` times exactly if the sum of stripe and
seed does not wrap around between its first and its last stripe, or the wrap keeps the rotations
consecutive since the number of members divides `2 ^ 64`, or there are no data or no parity shards.
-/
theorem rotation_spreads_parity_iff (gen : Generation) : (∀ g, gen.owns g → ∀ p < gen.k + gen.m,
      (gen.shardOfPosition g p < gen.k + gen.m ∧
        gen.positionOfShard g (gen.shardOfPosition g p) = p) ∧
      gen.positionOfShard g p < gen.k + gen.m ∧
      gen.shardOfPosition g (gen.positionOfShard g p) = p) ∧
    ∀ g, gen.owns g → gen.owns (g + (gen.k + gen.m) - 1) → ((∀ p < gen.k + gen.m,
        ((range (gen.k + gen.m)).countP fun i => gen.k ≤ gen.shardOfPosition (g + i) p) = gen.m) ↔
      (g - gen.firstStripe + gen.seed) / 2 ^ 64 =
          (g + (gen.k + gen.m) - 1 - gen.firstStripe + gen.seed) / 2 ^ 64 ∨
        gen.k + gen.m ∣ 2 ^ 64 ∨ gen.k = 0 ∨ gen.m = 0) := by
  have hN := gen.length_members
  refine ⟨fun g _ p hp => ⟨⟨shardOfPosition_lt hN hp, positionOfShard_shardOfPosition hN hp⟩,
    positionOfShard_lt hN hp, shardOfPosition_positionOfShard hN hp⟩, fun g hg hlast => ⟨?_, ?_⟩⟩
  · intro heven
    by_contra! hcon
    obtain ⟨hwrap, hdvd, hk, hm⟩ := hcon
    have hlt := hlast.2.trans (mod_lt _ (by positivity))
    exact not_even_of_wrap hN (by omega) (by omega) hg.1 (by omega) hdvd hwrap heven
  · intro hcases p hp
    have hle := hg.1
    rcases hcases with hwrap | hdvd | hk | hm
    · refine even_of_rotation hN (b := (g - gen.firstStripe + gen.seed) % 2 ^ 64)
        (fun i hi => ?_) hp
      rw [Generation.rotation, hN]
      congr 1
      omega
    · refine even_of_rotation hN (b := g - gen.firstStripe + gen.seed) (fun i hi => ?_) hp
      rw [Generation.rotation, hN, mod_mod_of_dvd _ hdvd]
      congr 1
      omega
    · simp only [hk, Nat.zero_le, decide_true, countP_true, length_range]
      omega
    · rw [hm, countP_eq_zero]
      intro i _
      have hlt := shardOfPosition_lt hN (g := g + i) hp
      rw [decide_eq_true_eq]
      omega

/-- Four members, and a window in which the sum wraps around. -/
theorem rotation_spreads_parity_iff_four :
    let gen : Generation := ⟨3, 1, 0, 2 ^ 64 - 1, 3, [0, 1, 2, 3], rfl⟩
    gen.owns (2 ^ 64 - 5) ∧ gen.owns (2 ^ 64 - 5 + 4 - 1) ∧
    ((range 4).countP fun i => 3 ≤ gen.shardOfPosition (2 ^ 64 - 5 + i) 0) = 1 :=
  ⟨by decide, by decide, ((rotation_spreads_parity_iff ⟨3, 1, 0, 2 ^ 64 - 1, 3,
    [0, 1, 2, 3], rfl⟩).2 (2 ^ 64 - 5) (by decide) (by decide)).mpr (by decide) 0 (by decide)⟩

/-- In the generation of all stripes there can be, where stripe and seed wrap around, three members
hold parity never, once and twice. -/
theorem uneven_parity_where_sum_wraps :
    let gen : Generation := ⟨2, 1, 0, 2 ^ 64 - 1, 2, [0, 1, 2], rfl⟩
    gen.owns (2 ^ 64 - 4) ∧ gen.owns (2 ^ 64 - 4 + 2) ∧
    (range 3).map (fun p => (range 3).countP fun i => 2 ≤ gen.shardOfPosition (2 ^ 64 - 4 + i) p)
      = [0, 1, 2] := by
  decide +kernel

end ClioCore.Ec
