import Mathlib.Data.List.Basic
import Mathlib.Data.Option.Basic
import Mathlib.Tactic

/-!
# Namespaces with hard links

A namespace is given by its directory entries: `E x k` is the object that the directory `x` has
under the name `k`.  A path leads from the root to an object by a walk along the entries (`walk`).
Several entries may lead to one object, but not to a directory: the directories form a tree
(`IsTree`), in which every directory is reached by one path only (`IsTree.path_unique`).

`setEntry` changes one entry.  The lemmas say what adding, removing and moving an entry do to all
paths.
-/

namespace ClioCore.Foundations.Namespace

open List Option

variable {ι κ : Type*} {E : ι → κ → Option ι} {r x y : ι} {k : κ} {p q : List κ}

/-- The object that a path leads to. -/
def walk (E : ι → κ → Option ι) : ι → List κ → Option ι
  | x, [] => some x
  | x, k :: ks => (E x k).bind fun y => walk E y ks

/-- The object has an entry. -/
def IsDir (E : ι → κ → Option ι) (x : ι) : Prop := ∃ k, E x k ≠ none

/-- At most one entry leads to the object. -/
def Sole (E : ι → κ → Option ι) (y : ι) : Prop :=
  ∀ x k x' k', E x k = some y → E x' k' = some y → x = x' ∧ k = k'

lemma Sole.of_forall {E : ι → κ → Option ι} {x y : ι} {k : κ}
    (h : ∀ {d c}, E d c = some y → d = x ∧ c = k) : Sole E y := fun _ _ _ _ hd hd' =>
  ⟨(h hd).1.trans (h hd').1.symm, (h hd).2.trans (h hd').2.symm⟩

/-- The directories form a tree. -/
structure IsTree (E : ι → κ → Option ι) (r : ι) : Prop where
  root : ∀ x k, E x k ≠ some r
  sole : ∀ y, IsDir E y → Sole E y
  reachable : ∀ x, IsDir E x → ∃ p, walk E r p = some x

/-- One entry is changed. -/
def setEntry [DecidableEq ι] [DecidableEq κ] (E : ι → κ → Option ι) (x : ι) (k : κ) (v : Option ι) :
    ι → κ → Option ι :=
  fun x' k' => if x' = x ∧ k' = k then v else E x' k'

/-! ## Walks -/

lemma walk_append (E : ι → κ → Option ι) (x : ι) (p q : List κ) :
    walk E x (p ++ q) = (walk E x p).bind fun y => walk E y q := by
  induction p generalizing x with
  | nil => rfl
  | cons k p ih =>
    rw [cons_append, walk, walk]
    cases E x k with
    | none => rfl
    | some y => exact ih y

lemma walk_concat (E : ι → κ → Option ι) (x : ι) (p : List κ) (k : κ) :
    walk E x (p ++ [k]) = (walk E x p).bind fun y => E y k := by
  rw [walk_append]
  congr 1
  funext y
  rw [walk]
  cases E y k <;> rfl

lemma isDir_of_entry (h : E x k = some y) : IsDir E x := ⟨k, by rw [h]; exact some_ne_none y⟩

/-- From an object without entries there is no way on. -/
lemma walk_of_not_isDir (h : ¬ IsDir E x) (hp : p ≠ []) : walk E x p = none := by
  obtain ⟨k, p, rfl⟩ := exists_cons_of_ne_nil hp
  have hno : E x k = none := by
    by_contra hne
    exact h ⟨k, hne⟩
  rw [walk, hno, bind_none]

/-- Nothing is below something that is no directory. -/
lemma walk_of_leaf (hlf : ¬ IsDir E y) (q : List κ) : walk E y q = if q = [] then some y
    else none := by
  split_ifs with hq
  · rw [hq, walk]
  · exact walk_of_not_isDir hlf hq

/-- Something that is no directory is above nothing else. -/
lemma not_above_of_leaf (hlf : ¬ IsDir E y) (hxy : y ≠ x) (q : List κ) : walk E y q ≠ some x := by
  rw [walk_of_leaf hlf]
  split_ifs
  · exact fun hq => hxy (some.inj hq)
  · simp

/-- Where a path ends with an object, the path to its parent leads to a directory. -/
lemma walk_concat_eq_some : walk E r (p ++ [k]) = some y ↔ ∃ x, walk E r p = some x ∧
    E x k = some y := by
  rw [walk_concat, bind_eq_some_iff]

lemma IsTree.sole_root (h : IsTree E r) : Sole E r := fun x k _ _ hx => absurd hx (h.root x k)

lemma IsTree.sole_of_entry (h : IsTree E r) (hy : E x k = some y) : Sole E x :=
  h.sole x (isDir_of_entry hy)

/-- **One path.**  The root, a directory and anything else with one entry are reached by one path.
-/
lemma IsTree.path_unique (h : IsTree E r) (hx : Sole E x) (hp : walk E r p = some x)
    (hq : walk E r q = some x) : p = q := by
  induction p using reverseRecOn generalizing q x with
  | nil =>
    obtain rfl : r = x := some.inj hp
    rcases eq_nil_or_concat q with rfl | ⟨q, k, rfl⟩
    · rfl
    · rw [concat_eq_append] at hq
      obtain ⟨y, -, hy⟩ := walk_concat_eq_some.mp hq
      exact absurd hy (h.root y k)
  | append_singleton p k ih =>
    obtain ⟨y, hy, hk⟩ := walk_concat_eq_some.mp hp
    rcases eq_nil_or_concat q with rfl | ⟨q, k', rfl⟩
    · obtain rfl : r = x := some.inj hq
      exact absurd hk (h.root y k)
    · rw [concat_eq_append] at hq ⊢
      obtain ⟨y', hy', hk'⟩ := walk_concat_eq_some.mp hq
      obtain ⟨rfl, rfl⟩ := hx y k y' k' hk hk'
      rw [ih (h.sole_of_entry hk) hy hy']

/-! ## Changing an entry -/

variable [DecidableEq ι] [DecidableEq κ]

lemma setEntry_self (E : ι → κ → Option ι) (x : ι) (k : κ) (v : Option ι) :
    setEntry E x k v x k = v := if_pos ⟨rfl, rfl⟩

lemma setEntry_of_ne {x' : ι} {k' : κ} (h : ¬ (x' = x ∧ k' = k)) (v : Option ι) :
    setEntry E x k v x' k' = E x' k' := if_neg h

variable {z : ι} {v : Option ι}

/-- An entry for anything but the object that is put in has been there. -/
lemma eq_some_of_setEntry {w : ι} {c : κ} (hne : v ≠ some w) (h : setEntry E x k v z c = some w) :
    E z c = some w := by
  by_cases hzc : z = x ∧ c = k
  · rw [hzc.1, hzc.2, setEntry_self] at h
    exact absurd h hne
  · rwa [setEntry_of_ne hzc] at h

lemma Sole.setEntry (h : Sole E z) (hne : v ≠ some z) : Sole (setEntry E x k v) z :=
  fun w c w' c' hw hw' =>
  h w c w' c' (eq_some_of_setEntry hne hw) (eq_some_of_setEntry hne hw')

/-- A walk that does not come to the directory that is changed. -/
lemma walk_setEntry_of_ne (h : ∀ q, walk E z q ≠ some x) (p : List κ) :
    walk (setEntry E x k v) z p = walk E z p := by
  induction p generalizing z with
  | nil => rfl
  | cons c p ih =>
    have hz : z ≠ x := fun hz => h [] (by rw [walk, hz])
    rw [walk, walk, setEntry_of_ne fun hc => hz hc.1]
    cases hy : E z c with
    | none => rfl
    | some y =>
      exact ih fun q hq => h (c :: q) (by rw [walk, hy, bind_some, hq])

/-- **Changing an entry** changes the paths through it. -/
lemma walk_setEntry (hx : walk E r p = some x) (hon : ∀ q, walk E r q = some x → p = q)
    (hbl : ∀ y ∈ v, ∀ q, walk E y q ≠ some x) (q : List κ) :
    walk (setEntry E x k v) r q
      = if p ++ [k] <+: q then v.bind (walk E · (q.drop (p.length + 1))) else walk E r q := by
  induction q using reverseRecOn with
  | nil => rw [if_neg (by simp)]; rfl
  | append_singleton q c ih =>
    rw [walk_concat, ih]
    by_cases hpre : p ++ [k] <+: q
    · have hlen : p.length + 1 ≤ q.length := by simpa using hpre.length_le
      rw [if_pos hpre, if_pos (hpre.trans (prefix_append q [c])), drop_append_of_le_length hlen]
      cases v with
      | none => rfl
      | some y =>
        rw [bind_some, bind_some, walk_concat]
        cases hz : walk E y (q.drop (p.length + 1)) with
        | none => rfl
        | some z =>
          have hne : z ≠ x := fun hne => hbl y rfl _ (hne ▸ hz)
          rw [bind_some, bind_some, setEntry_of_ne fun hzc => hne hzc.1]
    · rw [if_neg hpre, walk_concat]
      by_cases hqc : q = p ∧ c = k
      · obtain ⟨rfl, rfl⟩ := hqc
        rw [hx, bind_some, setEntry_self, if_pos prefix_rfl, drop_of_length_le (by simp)]
        cases v <;> rfl
      · have hpre' : ¬ p ++ [k] <+: q ++ [c] := by
          intro hpre'
          rcases prefix_concat_iff.mp hpre' with heq | hpre'
          · obtain ⟨rfl, hk⟩ := append_inj' heq rfl
            exact hqc ⟨rfl, (cons.inj hk).1.symm⟩
          · exact hpre hpre'
        rw [if_neg hpre']
        cases hz : walk E r q with
        | none => rfl
        | some z =>
          rw [bind_some, bind_some, setEntry_of_ne]
          rintro ⟨rfl, rfl⟩
          exact hqc ⟨(hon q hz).symm, rfl⟩

/-- **Removing an entry** takes away the paths through it. -/
lemma IsTree.walk_remove (h : IsTree E r) (hx : walk E r p = some x) (hy : E x k = some y)
    (q : List κ) : walk (setEntry E x k none) r q = if p ++ [k] <+: q then none else walk E r q :=
  walk_setEntry hx (fun _ => h.path_unique (h.sole_of_entry hy) hx) (by simp) q

/-- **Adding an entry** gives the object and what is below it a path. -/
lemma walk_insert (hx : walk E r p = some x) (hon : ∀ q, walk E r q = some x → p = q)
    (hbl : ∀ q, walk E y q ≠ some x) (q : List κ) :
    walk (setEntry E x k (some y)) r q
      = if p ++ [k] <+: q then walk E y (q.drop (p.length + 1)) else walk E r q :=
  walk_setEntry hx hon (by simpa using hbl) q

lemma IsDir.of_setEntry (h : IsDir (setEntry E x k v) z) : IsDir E z ∨ z = x ∧ v ≠ none := by
  obtain ⟨c, hc⟩ := h
  by_cases hzc : z = x ∧ c = k
  · obtain ⟨rfl, rfl⟩ := hzc
    rw [setEntry_self] at hc
    exact .inr ⟨rfl, hc⟩
  · rw [setEntry_of_ne hzc] at hc
    exact .inl ⟨c, hc⟩

section

variable (h : IsTree E r) (hx : walk E r p = some x)
include h hx

/-- A namespace from which the entry of something that is no directory is removed. -/
lemma IsTree.remove (hy : E x k = some y) (hlf : ¬ IsDir E y) : IsTree (setEntry E x k none) r := by
  have hdir : ∀ {z}, IsDir (setEntry E x k none) z → IsDir E z := fun hz =>
    hz.of_setEntry.resolve_right fun hv => hv.2 rfl
  constructor
  · exact fun z c hc => h.root z c (eq_some_of_setEntry (by simp) hc)
  · exact fun z hz => (h.sole z (hdir hz)).setEntry (by simp)
  · intro z hz
    obtain ⟨q, hq⟩ := h.reachable z (hdir hz)
    refine ⟨q, ?_⟩
    rw [h.walk_remove hx hy, if_neg, hq]
    rintro ⟨rest, rfl⟩
    rw [walk_append, walk_concat, hx, bind_some, hy, bind_some] at hq
    by_cases hrs : rest = []
    · subst hrs
      obtain rfl : y = z := some.inj hq
      exact hlf (hdir hz)
    · simp [walk_of_not_isDir hlf hrs] at hq

/-- A namespace to which an entry for something that is no directory is added. -/
lemma IsTree.insert (hso : Sole E x) (hk : E x k = none) (hlf : ¬ IsDir E y) (hy : y ≠ r)
    (hxy : y ≠ x) :
    IsTree (setEntry E x k (some y)) r := by
  have hbl := not_above_of_leaf hlf hxy
  constructor
  · exact fun z c hc => h.root z c (eq_some_of_setEntry (fun heq => hy (some.inj heq)) hc)
  · intro z hz
    rcases hz.of_setEntry with hz | ⟨rfl, -⟩
    · exact (h.sole z hz).setEntry fun heq => hlf (some.inj heq ▸ hz)
    · exact hso.setEntry fun heq => hxy (some.inj heq)
  · intro z hz
    obtain ⟨q, hq⟩ : ∃ q, walk E r q = some z := by
      rcases hz.of_setEntry with hz | ⟨rfl, -⟩
      · exact h.reachable z hz
      · exact ⟨p, hx⟩
    refine ⟨q, ?_⟩
    rw [walk_insert hx (fun q => h.path_unique hso hx) hbl, if_neg, hq]
    rintro ⟨rest, rfl⟩
    rw [walk_append, walk_concat, hx, bind_some, hk] at hq
    simp at hq

/-- The paths once an entry for something that is no directory is added. -/
lemma IsTree.walk_insert_leaf (hso : Sole E x) (hk : E x k = none) (hlf : ¬ IsDir E y)
    (hxy : y ≠ x) (q : List κ) :
    walk (setEntry E x k (some y)) r q = if q = p ++ [k] then some y else walk E r q := by
  rw [walk_insert hx (fun q => h.path_unique hso hx) (not_above_of_leaf hlf hxy), walk_of_leaf hlf]
  by_cases hpre : p ++ [k] <+: q
  · obtain ⟨rest, rfl⟩ := hpre
    have hold : walk E r (p ++ [k] ++ rest) = none := by
      rw [walk_append, walk_concat, hx, bind_some, hk, bind_none]
    rw [hold]
    simp
  · rw [if_neg hpre, if_neg fun hq : q = p ++ [k] => hpre (hq ▸ prefix_rfl)]

/-- The paths once the entry of something that is no directory is removed. -/
lemma IsTree.walk_remove_leaf (hy : E x k = some y) (hlf : ¬ IsDir E y) (q : List κ) :
    walk (setEntry E x k none) r q = if q = p ++ [k] then none else walk E r q := by
  rw [h.walk_remove hx hy]
  by_cases hpre : p ++ [k] <+: q
  · obtain ⟨rest, rfl⟩ := hpre
    have hold : walk E r (p ++ [k] ++ rest) = if rest = [] then some y else none := by
      rw [walk_append, walk_concat, hx, bind_some, hy, bind_some, walk_of_leaf hlf]
    rw [hold]
    simp
  · rw [if_neg hpre, if_neg fun hq : q = p ++ [k] => hpre (hq ▸ prefix_rfl)]

end

/-! ## Moving an entry -/

lemma walk_of_walk_remove {w : ι} (h : walk (setEntry E x k none) z q = some w) :
    walk E z q = some w := by
  induction q generalizing z with
  | nil => exact h
  | cons c q ih =>
    obtain ⟨v, hv, hrs⟩ := bind_eq_some_iff.mp h
    exact bind_eq_some_iff.mpr ⟨v, eq_some_of_setEntry (by simp) hv, ih hrs⟩

section Move

variable {x₂ : ι} {k₂ : κ} {p2 : List κ}

/-- An entry of `y` is moved to another directory. -/
def moveEntry (E : ι → κ → Option ι) (x : ι) (k : κ) (x₂ : ι) (k₂ : κ) (y : ι) : ι → κ → Option ι :=
  setEntry (setEntry E x k none) x₂ k₂ (some y)

lemma moveEntry_eq_some {z w : ι} {c : κ} (h : moveEntry E x k x₂ k₂ y z c = some w) :
    (z = x₂ ∧ c = k₂ ∧ w = y) ∨ E z c = some w ∧ ¬ (z = x ∧ c = k) := by
  by_cases hnew : z = x₂ ∧ c = k₂
  · rw [moveEntry, hnew.1, hnew.2, setEntry_self] at h
    exact .inl ⟨hnew.1, hnew.2, (some.inj h).symm⟩
  · rw [moveEntry, setEntry_of_ne hnew] at h
    refine .inr ⟨eq_some_of_setEntry (by simp) h, ?_⟩
    rintro ⟨rfl, rfl⟩
    simp [setEntry_self] at h

section

variable (h : IsTree E r) (hx : walk E r p = some x) (hy : E x k = some y)
  (hx₂ : walk E r p2 = some x₂) (hso₂ : Sole E x₂) (hnot : ¬ p ++ [k] <+: p2)
include h hx hy hx₂ hso₂ hnot

/-- **Moving an entry** moves what is below it. -/
lemma IsTree.walk_move (q : List κ) : walk (moveEntry E x k x₂ k₂ y) r q
      = if p2 ++ [k₂] <+: q then walk E r (p ++ [k] ++ q.drop (p2.length + 1))
        else if p ++ [k] <+: q then none else walk E r q := by
  have hon : ∀ q, walk E r q = some x₂ → p2 = q := fun q => h.path_unique hso₂ hx₂
  have hbl : ∀ q, walk E r (p ++ [k] ++ q) = walk E y q := by
    intro q
    rw [walk_append, walk_concat, hx, bind_some, hy, bind_some]
  -- From `y` no path leads to the directory that it is taken from.
  have hfe : ∀ q, walk E y q ≠ some x := by
    intro q hq
    rw [← hbl] at hq
    have hlen := congrArg length (h.path_unique (h.sole_of_entry hy) hx hq)
    simp at hlen
  have hx2' : walk (setEntry E x k none) r p2 = some x₂ := by
    rw [h.walk_remove hx hy, if_neg hnot, hx₂]
  have hbl2 : ∀ q, walk (setEntry E x k none) y q ≠ some x₂ := by
    intro q hq
    have hpt := hon _ ((hbl q).trans (walk_of_walk_remove hq))
    exact hnot (hpt ▸ prefix_append _ _)
  rw [moveEntry, walk_insert hx2' (fun q hq => hon q (walk_of_walk_remove hq)) hbl2,
    walk_setEntry_of_ne hfe, hbl, h.walk_remove hx hy]

/-- A namespace in which an entry is moved to a directory that is not below it. -/
lemma IsTree.move (hk2 : E x₂ k₂ = none) : IsTree (moveEntry E x k x₂ k₂ y) r := by
  have hdir : ∀ {z}, IsDir (moveEntry E x k x₂ k₂ y) z → IsDir E z ∨ z = x₂ := by
    intro z hz
    rcases hz.of_setEntry with hz | ⟨rfl, -⟩
    · exact .inl (hz.of_setEntry.resolve_right fun hv => hv.2 rfl)
    · exact .inr rfl
  constructor
  · intro z c hc
    rcases moveEntry_eq_some hc with ⟨-, -, rfl⟩ | ⟨hc, -⟩
    · exact h.root x k hy
    · exact h.root z c hc
  · intro z hz
    have hold : Sole E z := (hdir hz).elim (h.sole z) fun hzx => hzx ▸ hso₂
    by_cases hzy : z = y
    · -- the old entry has gone
      subst hzy
      refine .of_forall (x := x₂) (k := k₂) fun hc => ?_
      rcases moveEntry_eq_some hc with ⟨hd, hk, -⟩ | ⟨hE, hkp⟩
      · exact ⟨hd, hk⟩
      · exact absurd (hold _ _ x k hE hy) hkp
    · exact (hold.setEntry (by simp)).setEntry fun heq => hzy (some.inj heq).symm
  · intro z hz
    obtain ⟨q, hq⟩ : ∃ q, walk E r q = some z := by
      rcases hdir hz with hz | rfl
      · exact h.reachable z hz
      · exact ⟨p2, hx₂⟩
    by_cases hpre : p ++ [k] <+: q
    · obtain ⟨rest, rfl⟩ := hpre
      refine ⟨p2 ++ [k₂] ++ rest, ?_⟩
      have hdr : (p2 ++ [k₂] ++ rest).drop (p2.length + 1) = rest := drop_left' (by simp)
      rw [h.walk_move hx hy hx₂ hso₂ hnot, if_pos (prefix_append _ _), hdr, hq]
    · refine ⟨q, ?_⟩
      rw [h.walk_move hx hy hx₂ hso₂ hnot, if_neg, if_neg hpre, hq]
      rintro ⟨rest, rfl⟩
      rw [walk_append, walk_concat, hx₂, bind_some, hk2] at hq
      simp at hq

end

end Move

end ClioCore.Foundations.Namespace
