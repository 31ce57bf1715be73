import Mathlib.Tactic

/-!
# Records in a byte file

Records are written one after another with nothing between them, and read back by a loop that stops
at the first read that fails.

* `toLe`, `ofLe` — numbers of a fixed width, least significant byte first.
* `scan` — the reading loop.
* `scan_flatMap` — it reads back what was written in full, and stops where nothing can be read.
* `take_flatMap` — a file that is cut ends in a record that cannot be read.
-/

namespace ClioCore.Foundations

open List

/-- The `n` low bytes of `v`, least significant first. -/
def toLe : ℕ → ℕ → List UInt8
  | 0, _ => []
  | n + 1, v => UInt8.ofNat v :: toLe n (v / 256)

/-- The number whose bytes these are. -/
def ofLe : List UInt8 → ℕ
  | [] => 0
  | b :: bs => b.toNat + 256 * ofLe bs

@[simp] lemma length_toLe (n v : ℕ) : (toLe n v).length = n := by
  induction n generalizing v with
  | zero => rfl
  | succ n ih => simp [toLe, ih]

lemma ofLe_toLe {n v : ℕ} (h : v < 256 ^ n) : ofLe (toLe n v) = v := by
  induction n generalizing v with
  | zero => simpa [toLe, ofLe, eq_comm] using h
  | succ n ih =>
    have hdiv : v / 256 < 256 ^ n := Nat.div_lt_of_lt_mul (by rwa [← pow_succ'])
    rw [toLe, ofLe, ih hdiv, UInt8.toNat_ofNat']
    omega

variable {α β : Type*} {enc : α → List β} {dec : List β → Option (α × List β)} {as : List α}
  {tail : List β}

/-- Read records until a read fails, at most `n` of them. -/
def scan (dec : List β → Option (α × List β)) : ℕ → List β → List α
  | 0, _ => []
  | n + 1, bs =>
    match dec bs with
    | none => []
    | some (a, rest) => a :: scan dec n rest

/-- A file whose records have at least one byte each is read within its length. -/
lemma scan_flatMap (hrd : ∀ a ∈ as, ∀ rest, dec (enc a ++ rest) = some (a, rest))
    (hne : ∀ a ∈ as, enc a ≠ []) (htail : dec tail = none) :
    scan dec (as.flatMap enc ++ tail).length (as.flatMap enc ++ tail) = as := by
  -- The fuel is a byte count: any fuel beyond the number of records will do.
  suffices ∀ n, (as.flatMap enc ++ tail).length ≤ n → scan dec n (as.flatMap enc ++ tail) = as from
    this _ le_rfl
  induction as with
  | nil =>
    intro n _
    cases n <;> simp [scan, htail]
  | cons a as ih =>
    intro n hn
    have hpos := length_pos_iff.mpr (hne a mem_cons_self)
    simp only [flatMap_cons, append_assoc, length_append] at hn ih ⊢
    obtain ⟨n, rfl⟩ : ∃ m, n = m + 1 := ⟨n - 1, by omega⟩
    rw [scan, hrd a mem_cons_self]
    exact congrArg _ (ih (fun b hb => hrd b (mem_cons_of_mem _ hb))
      (fun b hb => hne b (mem_cons_of_mem _ hb)) n (by omega))

/-! ## Files that are cut -/

/-- A reader does not look beyond what it consumes. -/
def Extends (dec : List β → Option (α × List β)) : Prop :=
  ∀ bs t a rest, dec bs = some (a, rest) → dec (bs ++ t) = some (a, rest ++ t)

/-- The records that lie within the first `n` items of the file. -/
def completed (enc : α → List β) : ℕ → List α → List α
  | _, [] => []
  | n, a :: as => if (enc a).length ≤ n then a :: completed enc (n - (enc a).length) as else []

lemma mem_of_mem_completed {a : α} {n : ℕ} (h : a ∈ completed enc n as) : a ∈ as := by
  induction as generalizing n with
  | nil => exact h
  | cons b as ih =>
    rw [completed] at h
    split_ifs at h
    · exact mem_cons.mpr ((mem_cons.mp h).imp_right ih)
    · simp at h

lemma take_flatMap (hext : Extends dec) (hrd : ∀ a ∈ as, dec (enc a) = some (a, []))
    (hnil : dec [] = none) (n : ℕ) : ∃ tail : List β,
    (as.flatMap enc).take n = (completed enc n as).flatMap enc ++ tail ∧ dec tail = none := by
  induction as generalizing n with
  | nil => exact ⟨[], by simp [completed], hnil⟩
  | cons a as ih =>
    rw [flatMap_cons, take_append, completed]
    split_ifs with hn
    · obtain ⟨tail, htail, hno⟩ := ih (fun b hb => hrd b (.tail _ hb)) (n - (enc a).length)
      exact ⟨tail, by rw [htail, take_of_length_le hn, flatMap_cons, append_assoc], hno⟩
    · refine ⟨(enc a).take n, by simp [Nat.sub_eq_zero_of_le (not_le.mp hn).le], ?_⟩
      -- what reads the beginning of the record would read the whole record and leave the rest of it
      by_contra hsome
      obtain ⟨⟨b, rest⟩, hb⟩ := Option.ne_none_iff_exists'.mp hsome
      have hwho := hext _ ((enc a).drop n) b rest hb
      rw [take_append_drop, hrd a mem_cons_self] at hwho
      have hemp := congrArg (fun r => r.map fun p => p.2.length) hwho
      simp at hemp
      omega

section Readers

variable {α β γ : Type} {m : StateT (List β) Option α} {f : α → StateT (List β) Option γ}

lemma bind_of_eq_some {bs rest : List β} {a : α} (h : m bs = some (a, rest)) :
    (m >>= f) bs = f a rest :=
  (congrArg (Option.bind · fun p => f p.1 p.2) h :)

lemma guard_apply {p : Prop} [Decidable p] (hp : p) (bs : List β) :
    (guard p : StateT (List β) Option Unit) bs = some ((), bs) := by
  rw [guard, if_pos hp]
  rfl

lemma extends_pure (a : α) : Extends (pure a : StateT (List β) Option α) := by
  intro bs t a' rest h
  cases h
  rfl

lemma Extends.bind (hm : Extends m) (hf : ∀ a, Extends (f a)) : Extends (m >>= f) := by
  intro bs t c rest h
  obtain ⟨⟨a, bs'⟩, ha, hc⟩ := Option.bind_eq_some_iff.mp h
  exact Option.bind_eq_some_iff.mpr ⟨_, hm bs t a bs' ha, hf a bs' t c rest hc⟩

lemma extends_guard (p : Prop) [Decidable p] : Extends (guard p : StateT (List β) Option Unit) := by
  rw [guard]
  split_ifs
  · exact extends_pure ()
  · exact fun _ _ _ _ h => absurd h (by simp [failure, StateT.failure])

/-- Read `n` items. -/
def getItems (n : ℕ) : StateT (List β) Option (List β) := fun bs =>
  if bs.length < n then none else some (bs.take n, bs.drop n)

lemma extends_getItems (n : ℕ) : Extends (getItems n : StateT (List β) Option (List β)) := by
  intro bs t l rest h
  rw [getItems] at h ⊢
  split_ifs at h with hlen
  cases h
  rw [if_neg (by simp; omega), take_append_of_le_length (not_lt.mp hlen),
    drop_append_of_le_length (not_lt.mp hlen)]

lemma getItems_append (l rest : List β) : getItems l.length (l ++ rest) = some (l, rest) := by
  simp [getItems]

end Readers

end ClioCore.Foundations
