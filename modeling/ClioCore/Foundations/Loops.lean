import Mathlib.Data.List.Basic
import Mathlib.Data.List.GetD
import Mathlib.Data.List.Range
import Mathlib.Tactic

/-!
# Counted loops over indexed storage

The imperative code modelled in this development is written with counted loops that update one
indexed buffer in place.  A model writes such a loop as a left fold over `List.range n`; this
file has the two rules by which such folds are read back pointwise.

`foldl_range_local` is for loops whose round `c` touches *site* `c` only: what a site holds after
the loop is what one application of its own update makes of what it held before.  A site may be a
cell, a column of a row-major matrix or a whole row; the rule is stated over an arbitrary `view`
so that one statement serves them all.  `foldl_range_scatter` is for loops that store through an
injective index map.

`foldl_range_invariant` is the invariant rule of a counted loop, and the `foldlM` rules are its
forms for loops that may stop early.  `loopWhile` is the loop that stops early and keeps the state
it stopped in.  The last section is about row-major storage, where cell `(r, c)` of a matrix with
`k` columns lives at index `r * k + c`.
-/

namespace ClioCore.Foundations

open List

variable {n j k r c m : ℕ}

variable {α β σ ι : Type*}

variable {l : List α} (P : ℕ → σ → Prop)

/-- The invariant rule for a counted loop, with the number of finished rounds in view. -/
lemma foldl_range_invariant (step : σ → ℕ → σ) (n : ℕ) (s : σ) (h0 : P 0 s)
    (hstp : ∀ c < n, ∀ s, P c s → P (c + 1) (step s c)) : P n ((range n).foldl step s) := by
  induction n with
  | zero => exact h0
  | succ n ih =>
    rw [range_succ, foldl_append, foldl_cons]
    exact hstp n (by omega) _ (ih (fun c hc => hstp c (by omega)))

/-- A counted loop that may stop early: if it finishes, the invariant holds at the end. -/
lemma foldlM_range_invariant (step : σ → ℕ → Option σ) (n : ℕ) (s : σ)
    (h0 : P 0 s) (hstp : ∀ c < n, ∀ s s', P c s → step s c = some s' → P (c + 1) s')
    {s' : σ} (h : (range n).foldlM step s = some s') : P n s' := by
  induction n generalizing s' with
  | zero =>
    simp only [range_zero, foldlM_nil, Option.pure_def, Option.some.injEq] at h
    exact h ▸ h0
  | succ n ih =>
    rw [range_succ, foldlM_append] at h
    simp only [foldlM_cons, foldlM_nil, bind_pure, Option.bind_eq_bind,
      Option.bind_eq_some_iff] at h
    obtain ⟨s1, h1, h2⟩ := h
    exact hstp n (by omega) s1 s' (ih (fun c hc => hstp c (by omega)) h1) h2

/-- A counted loop none of whose rounds stops, finishes. -/
lemma foldlM_range_total (step : σ → ℕ → Option σ) (n : ℕ) (s : σ)
    (h0 : P 0 s) (hstp : ∀ c < n, ∀ s, P c s → ∃ s', step s c = some s' ∧ P (c + 1) s') :
    ∃ s', (range n).foldlM step s = some s' ∧ P n s' := by
  induction n with
  | zero => exact ⟨s, rfl, h0⟩
  | succ n ih =>
    obtain ⟨s1, h1, hP1⟩ := ih (fun c hc => hstp c (by omega))
    obtain ⟨s2, h2, hP2⟩ := hstp n (by omega) s1 hP1
    refine ⟨s2, ?_, hP2⟩
    rw [range_succ, foldlM_append, h1]
    simpa using h2

/-- A loop whose body may give up: the rounds run in order until one answers `false`, and the state
that round left is the final one. -/
def loopWhile (step : σ → ι → σ × Bool) : List ι → σ → σ × Bool
  | [], s => (s, true)
  | i :: l, s =>
    match step s i with
    | (s', true) => loopWhile step l s'
    | (s', false) => (s', false)

lemma loopWhile_append (step : σ → ι → σ × Bool) (l1 l2 : List ι) {s s' : σ}
    (h : loopWhile step l1 s = (s', true)) :
    loopWhile step (l1 ++ l2) s = loopWhile step l2 s' := by
  induction l1 generalizing s with
  | nil =>
    simp only [loopWhile, Prod.mk.injEq, and_true] at h
    rw [nil_append, h]
  | cons i l1 ih =>
    rw [cons_append]
    rcases hstp : step s i with ⟨s1, b⟩
    cases b with
    | true =>
      simp only [loopWhile, hstp] at h ⊢
      exact ih h
    | false => simp [loopWhile, hstp] at h

/-- A counted loop none of whose rounds gives up, finishes, with the invariant at the end. -/
lemma loopWhile_range_total (step : σ → ℕ → σ × Bool) (n : ℕ) (s : σ)
    (h0 : P 0 s) (hstp : ∀ c < n, ∀ s, P c s → ∃ s', step s c = (s', true) ∧ P (c + 1) s') :
    ∃ s', loopWhile step (range n) s = (s', true) ∧ P n s' := by
  induction n with
  | zero => exact ⟨s, rfl, h0⟩
  | succ n ih =>
    obtain ⟨s1, h1, hP1⟩ := ih (fun c hc => hstp c (by omega))
    obtain ⟨s2, h2, hP2⟩ := hstp n (by omega) s1 hP1
    refine ⟨s2, ?_, hP2⟩
    rw [range_succ, loopWhile_append step _ _ h1, loopWhile, h2]
    rfl

/-- Collecting the results of rounds that all answer. -/
lemma mapM_eq_some_map (f : ι → Option β) (g : ι → β) (l : List ι)
    (h : ∀ i ∈ l, f i = some (g i)) : l.mapM f = some (l.map g) := by
  induction l with
  | nil => rfl
  | cons i l ih =>
    rw [mapM_cons, h i (by simp), ih (fun j hj => h j (by simp [hj]))]
    rfl

/-- **Local loops.**  If round `c` changes the view at site `c` only, by `upd c`, then after `n`
rounds every site below `n` has been updated once and the others not at all.  `P` is an invariant
of the loop the rounds may rely on. -/
lemma foldl_range_local (P : σ → Prop) (step : σ → ℕ → σ) (view : σ → ℕ → β)
    (upd : ℕ → β → β) (N : ℕ) (hP : ∀ s c, c < N → P s → P (step s c))
    (hview : ∀ s c j, c < N → j < N → P s →
      view (step s c) j = if j = c then upd c (view s c) else view s j)
    (hn : n ≤ N) {s : σ} (hs : P s) :
    P ((range n).foldl step s) ∧ ∀ j < N,
      view ((range n).foldl step s) j = if j < n then upd j (view s j) else view s j := by
  induction n with
  | zero => exact ⟨hs, fun j _ => by simp⟩
  | succ n ih =>
    obtain ⟨hPn, hvn⟩ := ih (by omega)
    rw [range_succ, foldl_append, foldl_cons, foldl_nil]
    refine ⟨hP _ n (by omega) hPn, fun j hj => ?_⟩
    rw [hview _ n j (by omega) hj hPn]
    by_cases hjn : j = n
    · subst hjn
      rw [if_pos rfl, hvn j hj, if_neg (by omega), if_pos (by omega)]
    · rw [if_neg hjn, hvn j hj]
      by_cases hlt : j < n
      · rw [if_pos hlt, if_pos (by omega)]
      · rw [if_neg hlt, if_neg (by omega)]

/-- Reading a cell of a list after changing one in place. -/
lemma getD_modify (l : List α) (i j : ℕ) (f : α → α) (d : α) :
    (l.modify i f).getD j d = if j = i ∧ i < l.length then f (l.getD j d) else l.getD j d := by
  by_cases hji : i = j
  · subst hji
    by_cases hi : i < l.length
    · simp [hi]
    · simp [hi]
  · simp [hji, Ne.symm hji]

/-- Reading a cell of a list after storing into one. -/
lemma getD_set (l : List α) (i j : ℕ) (a d : α) :
    (l.set i a).getD j d = if j = i ∧ i < l.length then a else l.getD j d := by
  rw [set_eq_modify, getD_modify]

/-- **Scatter loops.**  Storing `val i` at `idx i` for `i < n` leaves `val j` at `idx j` when the
index map is injective on the loop's range and in bounds. -/
lemma foldl_range_scatter (idx : ℕ → ℕ) (val : ℕ → α) (d : α) (l : List α)
    (hinj : ∀ i < n, ∀ j < n, idx i = idx j → i = j) (hb : ∀ i < n, idx i < l.length) (hj : j < n) :
    ((range n).foldl (fun l i => l.set (idx i) (val i)) l).getD (idx j) d = val j := by
  have hlen : ∀ n, ((range n).foldl (fun l i => l.set (idx i) (val i)) l).length = l.length := by
    intro n
    exact foldlRecOn (motive := fun l' : List α => l'.length = l.length) _ _ rfl
      fun s hs i _ => by simpa using hs
  induction n with
  | zero => omega
  | succ n ih =>
    rw [range_succ, foldl_append, foldl_cons, foldl_nil, getD_set, hlen]
    by_cases hjn : j = n
    · subst hjn
      rw [if_pos ⟨rfl, hb j (by omega)⟩]
    · have hne : idx j ≠ idx n := fun h => hjn (hinj j hj n (by omega) h)
      rw [if_neg (fun h => hne h.1)]
      exact ih (fun i hi k hk => hinj i (by omega) k (by omega)) (fun i hi => hb i (by omega))
        (by omega)

/-- Two lists of one length that agree at every index are equal. -/
lemma ext_getD {l' : List α} (d : α) (hlen : l.length = l'.length)
    (h : ∀ i < l.length, l.getD i d = l'.getD i d) : l = l' := by
  apply ext_getElem hlen
  intro i hi hi'
  have hd := h i hi
  rw [getD_eq_getElem _ _ hi, getD_eq_getElem _ _ hi'] at hd
  exact hd

/-! ## Row-major storage -/

lemma rowMajor_inj {r' c' : ℕ} (hc : c < k) (hc' : c' < k) (h : r * k + c = r' * k + c')
    : r = r' ∧ c = c' := by
  have hr : ∀ {r c : ℕ}, c < k → (r * k + c) / k = r := by
    intro r c hc
    rw [add_comm, Nat.add_mul_div_right _ _ (by omega), Nat.div_eq_of_lt hc, zero_add]
  have hrr : r = r' := by rw [← hr (r := r) hc, h, hr hc']
  subst hrr
  exact ⟨rfl, by omega⟩

lemma rowMajor_lt (hr : r < m) (hc : c < k) : r * k + c < m * k := by
  calc r * k + c < r * k + k := by omega
    _ = (r + 1) * k := by ring
    _ ≤ m * k := Nat.mul_le_mul_right k hr

/-- Reading cell `(i, j)` of a row-major matrix after storing into cell `(r, c)`. -/
lemma getD_set_rowMajor {i : ℕ} (hl : l.length = m * k) (hr : r < m) (hc : c < k)
    (hj : j < k) (a d : α) :
    (l.set (r * k + c) a).getD (i * k + j) d = if i = r ∧
    j = c then a else l.getD (i * k + j) d := by
  rw [getD_set]
  by_cases hij : i = r ∧ j = c
  · rw [if_pos hij, if_pos ⟨by rw [hij.1, hij.2], by rw [hl]; exact rowMajor_lt hr hc⟩]
  · rw [if_neg hij, if_neg (fun h => hij (rowMajor_inj hj hc h.1))]

/-- **Filling a row.**  The loop over the columns of row `r` sets that row and nothing else. -/
lemma foldl_fillRow (val : ℕ → α) (d : α) (hl : l.length = m * k) (hr : r < m) :
    ((range k).foldl (fun l c => l.set (r * k + c) (val c)) l).length = m * k ∧
    ∀ i < m, ∀ j < k, ((range k).foldl (fun l c => l.set (r * k + c) (val c)) l).getD
      (i * k + j) d = if i = r then val j else l.getD (i * k + j) d := by
  obtain ⟨hlen, hval⟩ := foldl_range_local (fun l : List α => l.length = m * k)
    (fun l c => l.set (r * k + c) (val c)) (fun l j i => l.getD (i * k + j) d)
    (fun c col i => if i = r then val c else col i) k
    (by
      intro s c _ hs
      rw [length_set]
      exact hs)
    (by
      intro s c j hc hj hs
      funext i
      rw [getD_set_rowMajor hs hr hc hj]
      by_cases hjc : j = c
      · subst hjc
        by_cases hi : i = r <;> simp
      · rw [if_neg (fun h => hjc h.2), if_neg hjc])
    le_rfl hl
  refine ⟨hlen, fun i _ j hj => ?_⟩
  have h := congrFun (hval j hj) i
  rw [if_pos hj] at h
  exact h

/-- **Filling a matrix.**  Two nested loops that set every cell. -/
lemma foldl_fillGrid (val : ℕ → ℕ → α) (d : α) (hl : l.length = m * k) {i : ℕ} (hi : i < m)
    (hj : j < k) :
    ((range m).foldl (fun l r =>
      (range k).foldl (fun l c => l.set (r * k + c) (val r c)) l) l).getD (i * k + j) d =
      val i j := by
  have hinv := foldl_range_invariant
    (fun n (l : List α) => l.length = m * k ∧ ∀ i < n, ∀ j < k, l.getD (i * k + j) d = val i j)
    (fun l r => (range k).foldl (fun l c => l.set (r * k + c) (val r c)) l) m l
    ⟨hl, by simp⟩ ?_
  · exact hinv.2 i hi j hj
  · rintro c hc s ⟨hs, hval⟩
    obtain ⟨hlen, hrow⟩ := foldl_fillRow (val c) d hs hc
    refine ⟨hlen, fun i hi j hj => ?_⟩
    rw [hrow i (by omega) j hj]
    by_cases hic : i = c
    · rw [if_pos hic, hic]
    · rw [if_neg hic]
      exact hval i (by omega) j hj

end ClioCore.Foundations
