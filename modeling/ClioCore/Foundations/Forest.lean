import Mathlib.Logic.Relation
import Mathlib.Data.List.Basic
import Mathlib.Tactic

/-!
# Forests given by parents

Nodes that each name at most one parent.  Nothing forces such pointers to form a forest: following
them may lead round a circle.

* `ancestor` follows a number of pointers, `AtOrBelow` any number of them.
* `Ranked` — every pointer leads to a node of smaller rank and ranks are bounded; then no node is
  above itself (`Ranked.ancestor_ne`).
* `traverse` — the traversal with a stack and without a set of visited nodes.  It ends if the nodes
  are ranked (`Ranked.exists_traverse`) and then lists what is below its start (`mem_traverse`).
-/

namespace ClioCore.Foundations.Forest

open Option List

variable {ι : Type}

/-! ## Following pointers -/

/-- The node reached by following `n` pointers. -/
def ancestor (parent : ι → Option ι) : ℕ → ι → Option ι
  | 0, x => some x
  | n + 1, x => (parent x).bind (ancestor parent n)

/-- `x` is `y` or below it. -/
def AtOrBelow (parent : ι → Option ι) (x y : ι) : Prop := ∃ n, ancestor parent n x = some y

lemma atOrBelow_refl (parent : ι → Option ι) (x : ι) : AtOrBelow parent x x := ⟨0, rfl⟩

variable {bound : ℕ} {rank : ι → ℕ} {parent : ι → Option ι}

lemma AtOrBelow.of_parent {x p y : ι} (hp : parent x = some p)
    (h : AtOrBelow parent p y) : AtOrBelow parent x y := by
  obtain ⟨n, hn⟩ := h
  exact ⟨n + 1, by rw [ancestor, hp]; exact hn⟩

/-- A node at or below another is that node, or its parent is at or below it. -/
lemma atOrBelow_iff {x y : ι} :
    AtOrBelow parent x y ↔ x = y ∨ ∃ p, parent x = some p ∧ AtOrBelow parent p y := by
  constructor
  · rintro ⟨n, hn⟩
    cases n with
    | zero => exact .inl (some.inj hn)
    | succ n =>
      obtain ⟨p, hp, hn⟩ := bind_eq_some_iff.mp hn
      exact .inr ⟨p, hp, n, hn⟩
  · rintro (rfl | ⟨p, hp, h⟩)
    · exact atOrBelow_refl parent x
    · exact h.of_parent hp

lemma ancestor_succ (parent : ι → Option ι) (n : ℕ) (x : ι) :
    ancestor parent (n + 1) x = (ancestor parent n x).bind parent := by
  induction n generalizing x with
  | zero =>
    exact bind_fun_some (parent x)
  | succ n ih =>
    rw [ancestor]
    cases hp : parent x with
    | none => simp [ancestor, hp]
    | some p =>
      rw [bind_some, ih p]
      simp [ancestor, hp]

/-- What is at or below a node is reached from it by going from parents to children. -/
lemma atOrBelow_iff_reflTransGen {x y : ι} :
    AtOrBelow parent x y ↔ Relation.ReflTransGen (fun a b => parent b = some a) y x := by
  constructor
  · rintro ⟨n, hn⟩
    induction n generalizing x with
    | zero => exact some.inj hn ▸ .refl
    | succ n ih =>
      obtain ⟨p, hp, hn⟩ := bind_eq_some_iff.mp hn
      exact .tail (ih hn) hp
  · intro h
    induction h with
    | refl => exact atOrBelow_refl parent y
    | tail _ hp ih => exact ih.of_parent hp

/-! ## Ranks -/

/-- Every pointer leads to a node of smaller rank. -/
def Ranked (parent : ι → Option ι) (rank : ι → ℕ) (bound : ℕ) : Prop :=
  ∀ x p, parent x = some p → rank p < rank x ∧ rank x ≤ bound

/-- Ranks fall along pointers. -/
lemma Ranked.rank_add_le
    (h : Ranked parent rank bound) {n : ℕ} {x y : ι} (hn : ancestor parent n x = some y) :
    rank y + n ≤ rank x := by
  induction n generalizing x with
  | zero => exact (some.inj hn ▸ le_refl _)
  | succ n ih =>
    obtain ⟨p, hp, hn⟩ := bind_eq_some_iff.mp hn
    have hrank := (h x p hp).1
    have := ih hn
    omega

/-- No node is above itself. -/
lemma Ranked.ancestor_ne
    (h : Ranked parent rank bound) (n : ℕ) (x : ι) : ancestor parent (n + 1) x ≠ some x := by
  intro hn
  have := h.rank_add_le hn
  omega

/-- Fewer pointers are ranked as before. -/
lemma Ranked.mono {parent' : ι → Option ι}
    (h : Ranked parent rank bound) (hsub : ∀ x p, parent' x = some p → parent x = some p) :
    Ranked parent' rank bound := fun x p hp => h x p (hsub x p hp)

/-! ## Traversal -/

/-- Pop a node, list it and push its children, until the stack is empty; none if that takes more
than the given number of nodes. -/
def traverse (children : ι → List ι) : ℕ → List ι → Option (List ι)
  | _, [] => some []
  | 0, _ :: _ => none
  | n + 1, x :: stack => (traverse children n ((children x).reverse ++ stack)).map (x :: ·)

variable {children : ι → List ι}

lemma traverse_mono {n m : ℕ} {stack l : List ι} (h : traverse children n stack = some l)
    (hnm : n ≤ m) : traverse children m stack = some l := by
  induction n generalizing m stack l with
  | zero =>
    cases stack with
    | nil => cases m <;> exact h
    | cons x stack => simp [traverse] at h
  | succ n ih =>
    cases stack with
    | nil => cases m <;> exact h
    | cons x stack =>
      obtain ⟨m, rfl⟩ : ∃ k, m = k + 1 := ⟨m - 1, by omega⟩
      obtain ⟨l', hl', rfl⟩ := map_eq_some_iff.mp h
      rw [traverse, ih hl' (by omega), map_some]

/-- What is pushed is listed. -/
lemma exists_traverse_append {xs stack l : List ι} {n : ℕ} (h : traverse children n stack = some l)
    (hpush : ∀ x ∈ xs, ∀ (n : ℕ) (stack l : List ι), traverse children n stack = some l →
      ∃ m l', traverse children m (x :: stack) = some l') :
    ∃ m l', traverse children m (xs ++ stack) = some l' := by
  induction xs with
  | nil => exact ⟨n, l, h⟩
  | cons x xs ih =>
    obtain ⟨m, l', hl'⟩ := ih fun y hy => hpush y (mem_cons_of_mem x hy)
    exact hpush x mem_cons_self m _ l' hl'

/-- **The traversal of ranked nodes ends.** -/
lemma Ranked.exists_traverse
    (h : Ranked parent rank bound) (hchs : ∀ x, ∀ y ∈ children x, parent y = some x)
    (stack : List ι) : ∃ n l, traverse children n stack = some l := by
  -- nodes of rank at least `bound - k` can be pushed, by induction on `k`
  have hpush : ∀ (k : ℕ) (x : ι), bound ≤ rank x + k → ∀ (n : ℕ) (stack l : List ι),
      traverse children n stack = some l → ∃ m l', traverse children m (x :: stack) = some l' := by
    intro k
    induction k with
    | zero =>
      intro x hx n stack l hl
      have hnil : children x = [] := eq_nil_iff_forall_not_mem.mpr fun y hy => by
        have := h y x (hchs x y hy)
        omega
      exact ⟨n + 1, x :: l, by rw [traverse, hnil]; simpa using hl⟩
    | succ k ih =>
      intro x hx n stack l hl
      obtain ⟨m, l', hl'⟩ := exists_traverse_append hl fun y (hy : y ∈ (children x).reverse) => by
        have := h y x (hchs x y (mem_reverse.mp hy))
        exact ih y (by omega)
      exact ⟨m + 1, x :: l', by rw [traverse, hl', map_some]⟩
  have hnil : traverse children 0 [] = some [] := rfl
  obtain ⟨m, l, hl⟩ := exists_traverse_append hnil fun x (_ : x ∈ stack) =>
    hpush bound x (by omega)
  exact ⟨m, l, by simpa using hl⟩

/-- The traversal lists what is reached from the stack. -/
lemma mem_traverse {n : ℕ} {stack l : List ι} (h : traverse children n stack = some l) (y : ι) :
    y ∈ l ↔ ∃ x ∈ stack, Relation.ReflTransGen (fun a b => b ∈ children a) x y := by
  induction n generalizing stack l with
  | zero =>
    cases stack with
    | nil => simp [← some.inj h]
    | cons x stack => simp [traverse] at h
  | succ n ih =>
    cases stack with
    | nil => simp [← some.inj h]
    | cons x stack =>
      obtain ⟨l', hl', rfl⟩ := map_eq_some_iff.mp h
      rw [mem_cons, ih hl']
      constructor
      · rintro (rfl | ⟨z, hz, hzy⟩)
        · exact ⟨y, mem_cons_self, .refl⟩
        · rcases mem_append.mp hz with hz | hz
          · exact ⟨x, mem_cons_self, .head (mem_reverse.mp hz) hzy⟩
          · exact ⟨z, mem_cons_of_mem x hz, hzy⟩
      · rintro ⟨z, hz, hzy⟩
        rcases mem_cons.mp hz with rfl | hz
        · rcases Relation.ReflTransGen.cases_head hzy with rfl | ⟨c, hc, hcy⟩
          · exact .inl rfl
          · exact .inr ⟨c, mem_append_left _ (mem_reverse.mpr hc), hcy⟩
        · exact .inr ⟨z, mem_append_right _ hz, hzy⟩

end ClioCore.Foundations.Forest
