import ClioCore.Foundations.Loops

/-!
# Byte arrays with holes, and byte arrays kept in pages

Cells of a list that are not there read as a fixed value `z`, which is what a file does with a hole.
`overwrite` and `resize` are the operations of such an array, and `window` is a range of it.

Cell `i` of an array that is kept in pages `pages 0, pages 1, …` of `P` cells is cell `i % P` of
page `i / P` (`pagedGet`).  `Paged P z pages l` says that the pages hold the list `l`: they have its
cells, and no page has a cell beyond the end of `l`.  A range that is not confined to one page is
taken apart into `pieces`, one for each page.
-/

namespace ClioCore.Foundations

open List Nat Function

variable {i off n p cur done want fuel : ℕ}

variable {α : Type*} {z : α}

/-! ## Byte arrays with holes -/

/-- The array after `d` has been written at `off`.  A gap before `off` is filled with `z`. -/
def overwrite (z : α) (l : List α) (off : ℕ) (d : List α) : List α :=
  l.take off ++ List.replicate (off - l.length) z ++ d ++ l.drop (off + d.length)

/-- The array cut or extended to `n` cells. -/
def resize (z : α) (l : List α) (n : ℕ) : List α := l.take n ++ List.replicate (n - l.length) z

/-- `n` cells from `off` on. -/
def window (z : α) (l : List α) (off n : ℕ) : List α :=
  (List.range n).map fun i => l.getD (off + i) z

@[simp] lemma length_overwrite (l : List α) (off : ℕ) (d : List α) :
    (overwrite z l off d).length = max l.length (off + d.length) := by
  simp only [overwrite, length_append, length_take, length_replicate, length_drop]
  omega

@[simp] lemma length_resize (l : List α) (n : ℕ) : (resize z l n).length = n := by
  simp only [resize, length_append, length_take, length_replicate]
  omega

@[simp] lemma length_window (l : List α) (off n : ℕ) : (window z l off n).length = n := by
  simp [window]

/-- Cells of two lists in a row. -/
lemma getD_append_eq (l m : List α) (i : ℕ) :
    (l ++ m).getD i z = if i < l.length then l.getD i z else m.getD (i - l.length) z := by
  rw [getD_eq_getElem?_getD, getElem?_append]
  split_ifs with h
  · rw [← getD_eq_getElem?_getD]
  · rw [← getD_eq_getElem?_getD]

lemma getD_replicate_self (n i : ℕ) : (replicate n z).getD i z = z := by
  rw [getD_eq_getElem?_getD, getElem?_replicate]
  split_ifs <;> rfl

lemma getD_take_eq (l : List α) (n i : ℕ) :
    (l.take n).getD i z = if i < n then l.getD i z else z := by
  rw [getD_eq_getElem?_getD, getElem?_take]
  split_ifs
  · rw [← getD_eq_getElem?_getD]
  · rfl

lemma getD_drop_eq (l : List α) (n i : ℕ) : (l.drop n).getD i z = l.getD (n + i) z := by
  rw [getD_eq_getElem?_getD, getElem?_drop, ← getD_eq_getElem?_getD]

lemma getD_overwrite (l : List α) (off : ℕ) (d : List α) (i : ℕ) : (overwrite z l off d).getD i z
      = if off ≤ i ∧ i < off + d.length then d.getD (i - off) z else l.getD i z := by
  have hpre : (l.take off ++ replicate (off - l.length) z).length = off := by
    rw [length_append, length_take, length_replicate]
    omega
  rw [overwrite, getD_append_eq, getD_append_eq, length_append, hpre]
  rcases lt_or_ge i off with hlow | hlow
  · rw [if_pos (by omega), if_pos hlow, if_neg (by omega), getD_append_eq, getD_take_eq,
      getD_replicate_self]
    split_ifs with hlen
    · rfl
    · rw [length_take] at hlen
      exact (getD_eq_default _ _ (by omega)).symm
  · rcases lt_or_ge i (off + d.length) with hhigh | hhigh
    · rw [if_pos hhigh, if_neg (by omega), if_pos ⟨hlow, hhigh⟩]
    · rw [if_neg (by omega), if_neg (by omega), getD_drop_eq, Nat.add_sub_cancel' hhigh]

lemma getD_resize (l : List α) (n i : ℕ) :
    (resize z l n).getD i z = if i < n then l.getD i z else z := by
  rw [resize, getD_append_eq, getD_replicate_self, getD_take_eq]
  split_ifs with hlen hi hi
  · rfl
  · rfl
  · rw [length_take] at hlen
    exact (getD_eq_default _ _ (by omega)).symm
  · rfl

lemma getD_window (l : List α) (off n i : ℕ) :
    (window z l off n).getD i z = if i < n then l.getD (off + i) z else z := by
  split_ifs with hi
  · rw [getD_eq_getElem _ _ (by rwa [length_window])]
    simp [window]
  · exact getD_eq_default _ _ (by rw [length_window]; omega)

/-- A window is what there is of the range, with `z` after it. -/
lemma window_eq_append (l : List α) (off n : ℕ) :
    (l.drop off).take n ++ replicate (n - ((l.drop off).take n).length) z = window z l off n := by
  refine ext_getD z ?_ fun i _ => ?_
  · simp only [length_append, length_take, length_drop, length_replicate, length_window]
    omega
  · rw [getD_append_eq, getD_replicate_self, getD_take_eq, getD_drop_eq, getD_window]
    split_ifs with hlen hi hi
    · rfl
    · rfl
    · rw [length_take, length_drop] at hlen
      exact (getD_eq_default _ _ (by omega)).symm
    · rfl

/-- A window inside the array. -/
lemma window_eq_take {l : List α} (h : off + n ≤ l.length) :
    window z l off n = (l.drop off).take n := by
  rw [← window_eq_append, length_take, length_drop, Nat.sub_eq_zero_of_le (by omega),
    replicate_zero, append_nil]

/-- Writing a little further. -/
lemma overwrite_overwrite_adjacent (l : List α) (off : ℕ) (d : List α) (k n : ℕ)
    (hk : k ≤ d.length) : overwrite z (overwrite z l off (d.take k)) (off + k) ((d.drop k).take n)
      = overwrite z l off (d.take (k + n)) := by
  refine ext_getD z ?_ fun i _ => ?_
  · simp only [length_overwrite, length_take, length_drop]
    omega
  · simp only [getD_overwrite, length_take, length_drop, getD_take_eq, getD_drop_eq]
    split_ifs <;> first | rfl | omega | (congr 1; omega)

/-- The cells `f` after `d` has been written at `off`. -/
def overlay (z : α) (f : ℕ → α) (off : ℕ) (d : List α) (i : ℕ) : α :=
  if off ≤ i ∧ i < off + d.length then d.getD (i - off) z else f i

variable (f : ℕ → α) {d : List α}

@[simp] lemma overlay_nil (off : ℕ) : overlay z f off [] = f := by
  funext i
  exact if_neg (by simp)

/-- Writing two pieces in a row. -/
lemma overlay_append (off : ℕ) (d e : List α) :
    overlay z (overlay z f off d) (off + d.length) e = overlay z f off (d ++ e) := by
  funext i
  simp only [overlay, length_append, getD_append_eq]
  split_ifs <;> first | rfl | omega | (congr 1; omega)

/-! ## Pages -/

variable {P : ℕ} {pages : ℕ → List α} {l : List α}

/-- A cell of an array kept in pages. -/
def pagedGet (P : ℕ) (z : α) (pages : ℕ → List α) (i : ℕ) : α := (pages (i / P)).getD (i % P) z

/-- The pages hold the list. -/
structure Paged (P : ℕ) (z : α) (pages : ℕ → List α) (l : List α) : Prop where
  cell : ∀ i, l.getD i z = pagedGet P z pages i
  inside : ∀ p i, i < (pages p).length → i < P ∧ p * P + i < l.length

lemma paged_nil : Paged P z (fun _ => []) ([] : List α) where
  cell i := by rw [pagedGet, getD_eq_default _ _ (by simp), getD_eq_default _ _ (by simp)]
  inside p i h := absurd h (by simp)

lemma div_eq_of_lt_page (hi : i < P) : (p * P + i) / P = p := by
  rw [add_comm, add_mul_div_right _ _ (by omega), div_eq_of_lt hi, zero_add]

/-- A page that lies beyond the end is empty. -/
lemma Paged.eq_nil (h : Paged P z pages l) (hp : l.length ≤ p * P) : pages p = [] := by
  rw [← length_eq_zero_iff]
  by_contra hne
  have := (h.inside p 0 (pos_of_ne_zero hne)).2
  omega

/-- What is read of a page. -/
lemma window_page (pages : ℕ → List α) (hn : cur % P + n ≤ P) :
    window z (pages (cur / P))
    (cur % P) n = (range n).map fun i => pagedGet P z pages (cur + i) := by
  refine map_congr_left fun i hi => ?_
  have hin : cur % P + i < P := by
    have := mem_range.mp hi
    omega
  have hcur : cur + i = cur / P * P + (cur % P + i) := by
    have := div_add_mod' cur P
    omega
  rw [pagedGet, hcur, div_eq_of_lt_page hin, mul_add_mod_of_lt hin]

/-- What a write to one page does to the cells. -/
lemma pagedGet_overwrite (pages : ℕ → List α) (hd : cur % P + d.length ≤ P) (i : ℕ) :
    pagedGet P z (update pages (cur / P) (overwrite z (pages (cur / P)) (cur % P) d)) i
      = if cur ≤ i ∧ i < cur + d.length then d.getD (i - cur) z else pagedGet P z pages i := by
  have hcur := div_add_mod' cur P
  have hi := div_add_mod' i P
  unfold pagedGet
  by_cases hpg : i / P = cur / P
  · rw [hpg, update_self, getD_overwrite]
    rw [hpg] at hi
    split_ifs <;> first | rfl | omega | (congr 1; omega)
  · rw [update_of_ne hpg, if_neg]
    rintro ⟨hlow, hhigh⟩
    have hspl : i = cur / P * P + (cur % P + (i - cur)) := by omega
    exact hpg (by rw [hspl]; exact div_eq_of_lt_page (by omega))

/-- A write to one page. -/
lemma Paged.overwrite_page (h : Paged P z pages l) (hd : cur % P + d.length ≤ P) :
    Paged P z (update pages (cur / P) (overwrite z (pages (cur / P)) (cur % P) d))
      (overwrite z l cur d) := by
  constructor
  · intro i
    rw [getD_overwrite, pagedGet_overwrite pages hd, h.cell]
  · intro p i hi
    have hcur := div_add_mod' cur P
    rw [length_overwrite]
    by_cases hpg : p = cur / P
    · subst hpg
      rw [update_self, length_overwrite] at hi
      rcases lt_or_ge i (pages (cur / P)).length with hin | hin
      · have := h.inside _ i hin
        omega
      · omega
    · rw [update_of_ne hpg] at hi
      have := h.inside p i hi
      omega

/-- The array is extended without touching a page. -/
lemma Paged.grow (h : Paged P z pages l) (hn : l.length ≤ n) : Paged P z pages (resize z l n) where
  cell i := by
    rw [getD_resize, ← h.cell]
    split_ifs with hi
    · rfl
    · exact (getD_eq_default _ _ (by omega)).symm
  inside p i hi := by
    rw [length_resize]
    have := h.inside p i hi
    omega

/-- The array is cut: the page that the new end is in is cut, and later pages are dropped. -/
lemma Paged.shrink (hP : 0 < P) (h : Paged P z pages l) {pages' : ℕ → List α}
    (hlow : ∀ p < n / P, pages' p = pages p)
    (hcut : pages' (n / P) = resize z (pages (n / P)) (n % P) ∨ pages (n / P) = [] ∧
      pages' (n / P) = [])
    (hhigh : ∀ p, n / P < p → pages' p = []) : Paged P z pages' (resize z l n) := by
  have hdiv := div_add_mod' n P
  constructor
  · intro i
    have hi := div_add_mod' i P
    have hmod := mod_lt i hP
    rw [getD_resize, h.cell]
    unfold pagedGet
    rcases lt_trichotomy (i / P) (n / P) with hpg | hpg | hpg
    · have hmul : (i / P + 1) * P ≤ n / P * P := mul_le_mul_right P hpg
      rw [succ_mul] at hmul
      rw [hlow _ hpg, if_pos (by omega)]
    · rw [hpg] at hi ⊢
      rcases hcut with hcut | ⟨hno, hcut⟩
      · rw [hcut, getD_resize]
        exact if_congr (by omega) rfl rfl
      · rw [hcut, hno, getD_nil, ite_self]
    · have hmul : (n / P + 1) * P ≤ i / P * P := mul_le_mul_right P hpg
      rw [succ_mul] at hmul
      have hlt := mod_lt n hP
      rw [hhigh _ hpg, getD_nil, if_neg (by omega)]
  · intro p i hi
    rw [length_resize]
    rcases lt_trichotomy p (n / P) with hpg | hpg | hpg
    · rw [hlow _ hpg] at hi
      have hmul : (p + 1) * P ≤ n / P * P := mul_le_mul_right P hpg
      rw [succ_mul] at hmul
      have := h.inside p i hi
      omega
    · subst hpg
      rcases hcut with hcut | ⟨-, hcut⟩
      · rw [hcut, length_resize] at hi
        have := mod_lt n hP
        omega
      · rw [hcut] at hi
        simp at hi
    · rw [hhigh p hpg] at hi
      simp at hi

/-! ## Ranges across pages -/

/-- A part of a range that lies in one page: `len` cells from cell `pageOff` of the page on, which
are the cells from `done` on of the range. -/
structure Piece where
  page : ℕ
  pageOff : ℕ
  done : ℕ
  len : ℕ
deriving DecidableEq

/-- The loop that takes a range apart, with `done` of its `want` cells behind it and `cur` the
position of the next one. -/
def pieces (P : ℕ) : ℕ → ℕ → ℕ → ℕ → List Piece
  | 0, _, _, _ => []
  | fuel + 1, cur, done, want =>
    if done < want then
      let n := min (P - cur % P) (want - done)
      ⟨cur / P, cur % P, done, n⟩ :: pieces P fuel (cur + n) (done + n) want
    else []

/-- A round makes progress. -/
lemma pos_of_piece (hP : 0 < P) (cur : ℕ) (h : done < want) :
    0 < min (P - cur % P) (want - done) := by
  have := mod_lt cur hP
  omega

/-- The pieces of a range are not empty and lie in it. -/
lemma mem_pieces (hP : 0 < P) {q : Piece} (hq : q ∈ pieces P fuel cur done want)
    : 0 < q.len ∧ q.done + q.len ≤ want := by
  induction fuel generalizing cur done with
  | zero => exact absurd hq not_mem_nil
  | succ fuel ih =>
    rw [pieces] at hq
    split_ifs at hq with hlt
    · have hpos := pos_of_piece hP cur hlt
      rcases mem_cons.mp hq with rfl | hq
      · dsimp only
        omega
      · exact ih hq
    · simp at hq

/-- The pieces of a range make it up. -/
lemma sum_len_pieces (hP : 0 < P) (hfu : want ≤ done + fuel) :
    ((pieces P fuel cur done want).map Piece.len).sum = want - done := by
  induction fuel generalizing cur done with
  | zero =>
    rw [Nat.sub_eq_zero_of_le (by omega)]
    rfl
  | succ fuel ih =>
    rw [pieces]
    split_ifs with hlt
    · have hpos := pos_of_piece hP cur hlt
      rw [map_cons, sum_cons, ih (by omega)]
      dsimp only
      omega
    · rw [Nat.sub_eq_zero_of_le (by omega)]
      rfl

/-- **Reading across pages.** -/
lemma flatMap_window_pieces (hP : 0 < P) (pages : ℕ → List α) (hfu : want ≤ done + fuel) :
    ((pieces P fuel cur done want).flatMap fun q => window z (pages q.page) q.pageOff q.len)
      = (range (want - done)).map fun i => pagedGet P z pages (cur + i) := by
  induction fuel generalizing cur done with
  | zero =>
    rw [Nat.sub_eq_zero_of_le (by omega)]
    rfl
  | succ fuel ih =>
    rw [pieces]
    split_ifs with hlt
    · have hpos := pos_of_piece hP cur hlt
      have hspl : want - done = min (P - cur % P) (want - done)
          + (want - (done + min (P - cur % P) (want - done))) := by omega
      rw [flatMap_cons, ih (by omega), window_page pages (by dsimp only; omega)]
      conv_rhs => rw [hspl, range_add, map_append, map_map]
      congr 1
      refine map_congr_left fun i _ => ?_
      rw [comp_apply, add_assoc]
    · rw [Nat.sub_eq_zero_of_le (by omega)]
      rfl

/-- The pages after the pieces of a range have been written. -/
def overwritePieces (z : α) (d : List α) (pages : ℕ → List α) (qs : List Piece) : ℕ → List α :=
  qs.foldl (fun pages q => Function.update pages q.page
    (overwrite z (pages q.page) q.pageOff ((d.drop q.done).take q.len))) pages

lemma Paged.overwrite_pieces (hP : 0 < P)
    (h : Paged P z pages (overwrite z l off (d.take done))) (hdn : done ≤ d.length)
    (hfu : d.length ≤ done + fuel) :
    Paged P z (overwritePieces z d pages (pieces P fuel (off + done) done d.length))
      (overwrite z l off d) := by
  induction fuel generalizing done pages with
  | zero =>
    rw [take_of_length_le (by omega)] at h
    exact h
  | succ fuel ih =>
    rw [pieces]
    split_ifs with hlt
    · have hpos := pos_of_piece hP (off + done) hlt
      dsimp only
      rw [add_assoc]
      refine ih ?_ (by omega) (by omega)
      rw [← overwrite_overwrite_adjacent l off d done _ hdn]
      refine h.overwrite_page ?_
      rw [length_take]
      dsimp only
      omega
    · rw [take_of_length_le (by omega)] at h
      exact h

end ClioCore.Foundations
