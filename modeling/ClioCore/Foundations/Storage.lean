import Mathlib.Data.List.GetD
import Mathlib.Tactic

/-!
# Byte-addressed storage

A device is a total map from addresses to cells.  `readRange` copies a range out and `writeRange`
overwrites one; the file has the laws by which a sequence of such accesses is read back: a write is
seen by a read inside its range and not by one outside.

* `readRange_congr` — a read depends only on the cells of its range.
* `writeRange_apply_of_mem`, `writeRange_apply_of_not_mem` — a write cell by cell.
* `readRange_writeRange_self` — what was written is read back.
* `readRange_append` — adjacent reads.

A log is a list of records, oldest first, each with a key; replaying it assigns the records to an
ordered map one after another (`upsert`, `replay`).
-/

namespace ClioCore.Foundations

open List

variable {α : Type*}

/-- The `len` cells from `off` on. -/
def readRange (f : ℕ → α) (off len : ℕ) : List α := (List.range len).map fun i => f (off + i)

/-- Overwrite the cells from `off` on with `data`. -/
def writeRange (f : ℕ → α) (off : ℕ) (data : List α) : ℕ → α := fun x =>
  if off ≤ x ∧ x < off + data.length then data.getD (x - off) (f x) else f x

variable {f g : ℕ → α} {off len : ℕ} {data : List α}

@[simp] lemma length_readRange : (readRange f off len).length = len := by simp [readRange]

lemma getElem_readRange {i : ℕ} (h : i < (readRange f off len).length) :
    (readRange f off len)[i] = f (off + i) := by simp [readRange]

lemma getD_readRange {i : ℕ} (h : i < len) (d : α) :
    (readRange f off len).getD i d = f (off + i) := by
  rw [getD_eq_getElem _ _ (by rwa [length_readRange]), getElem_readRange]

/-- A read depends only on the cells of its range. -/
lemma readRange_congr (h : ∀ x, off ≤ x → x < off + len → f x = g x) :
    readRange f off len = readRange g off len := by
  apply map_congr_left
  intro i hi
  have hlt := mem_range.mp hi
  exact h _ (by omega) (by omega)

lemma readRange_eq_iff : readRange f off len = data ↔
    data.length = len ∧ ∀ i (h : i < data.length), f (off + i) = data[i] := by
  constructor
  · rintro rfl
    exact ⟨length_readRange, fun i h => (getElem_readRange h).symm⟩
  · rintro ⟨rfl, h⟩
    apply ext_getElem length_readRange
    intro i hi hi'
    rw [getElem_readRange, h i hi']

lemma readRange_append (f : ℕ → α) (off l1 l2 : ℕ) :
    readRange f off (l1 + l2) = readRange f off l1 ++ readRange f (off + l1) l2 := by
  simp [readRange, range_add, add_assoc]

lemma take_readRange {n : ℕ} (h : n ≤ len) : (readRange f off len).take n = readRange f off n := by
  obtain ⟨m, rfl⟩ := Nat.exists_eq_add_of_le h
  rw [readRange_append, take_left' length_readRange]

lemma drop_readRange {n : ℕ} (h : n ≤ len) :
    (readRange f off len).drop n = readRange f (off + n) (len - n) := by
  obtain ⟨m, rfl⟩ := Nat.exists_eq_add_of_le h
  rw [readRange_append, drop_left' length_readRange, Nat.add_sub_cancel_left]

/-! ## Writes -/

lemma writeRange_apply_of_mem {x : ℕ} (h1 : off ≤ x) (h2 : x < off + data.length) (d : α) :
    writeRange f off data x = data.getD (x - off) d := by
  have hlt : x - off < data.length := by omega
  rw [writeRange, if_pos ⟨h1, h2⟩, getD_eq_getElem _ _ hlt, getD_eq_getElem _ _ hlt]

lemma writeRange_apply_of_not_mem {x : ℕ} (h : x < off ∨ off + data.length ≤ x) :
    writeRange f off data x = f x := by
  rw [writeRange, if_neg (by omega)]

/-- A write is read back. -/
lemma readRange_writeRange_self : readRange (writeRange f off data) off data.length = data := by
  rw [readRange_eq_iff]
  refine ⟨rfl, fun i h => ?_⟩
  rw [writeRange_apply_of_mem (Nat.le_add_right _ _) (by omega) data[i], Nat.add_sub_cancel_left,
    getD_eq_getElem _ _ h]

/-! ## Logs of keyed records -/

section Log

variable {κ : Type*} [LinearOrder κ] (key : α → κ)

/-- `map[key a] = a` on an ordered map. -/
def upsert (a : α) : List α → List α
  | [] => [a]
  | b :: rest =>
    if key a < key b then a :: b :: rest
    else if key a = key b then a :: rest
    else b :: upsert a rest

/-- The map a log replays to. -/
def replay (log : List α) : List α := log.foldl (fun m a => upsert key a m) []

variable {key} {a b : α} {m : List α}

lemma mem_upsert (h : b ∈ upsert key a m) : b = a ∨ b ∈ m := by
  induction m with
  | nil => exact .inl (mem_singleton.mp h)
  | cons c m ih => grind [upsert]

lemma pairwise_upsert (h : m.Pairwise (key · < key ·)) :
    (upsert key a m).Pairwise (key · < key ·) := by
  induction m with
  | nil => exact pairwise_singleton ..
  | cons c m ih =>
    obtain ⟨hc, hm⟩ := pairwise_cons.mp h
    rw [upsert]
    split_ifs with hlt heq
    · exact .cons (forall_mem_cons.mpr ⟨hlt, fun b hb => hlt.trans (hc b hb)⟩) h
    · exact .cons (heq ▸ hc) hm
    · refine .cons (fun b hb => ?_) (ih hm)
      obtain rfl | hb := mem_upsert hb
      · exact (not_lt.mp hlt).lt_of_ne' heq
      · exact hc b hb

lemma find?_upsert (k : κ) (m : List α) : (upsert key a m).find? (key · = k)
    = if key a = k then some a else m.find? (key · = k) := by
  induction m with
  | nil => grind [upsert]
  | cons c m ih => grind [upsert]

lemma pairwise_replay (log : List α) : (replay key log).Pairwise (key · < key ·) := by
  induction log using reverseRecOn with
  | nil => exact .nil
  | append_singleton log a ih =>
    rw [replay, foldl_concat]
    exact pairwise_upsert ih

/-- The map has the last record of each key. -/
lemma find?_replay (log : List α) (k : κ) :
    (replay key log).find? (key · = k) = (log.filter (key · = k)).getLast? := by
  induction log using reverseRecOn with
  | nil => rfl
  | append_singleton log a ih =>
    rw [replay, foldl_concat, find?_upsert]
    by_cases hk : key a = k
    · simp [hk]
    · simpa [hk, replay] using ih

end Log

end ClioCore.Foundations
