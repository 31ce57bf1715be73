import Mathlib.Data.List.AList
import ClioCore.Foundations.Serial

/-!
# The hash map in shared memory

A table of fixed capacity with open addressing.  The runtime is its only writer, so the model
carries out one call after another; whether the storage of a key can be allocated is up to the
caller of the model.  A table without slots has capacity 0 and is never probed: that is `valid()`.

The contents of a slot are one value: the source reads a slot's key and value only while its state
is `kOccupied`.
-/

namespace ClioCore.Transport

open Foundations Option Nat AList List

/-- `SlotState`, with the key and the value of an occupied slot. -/
inductive Content (κ ν : Type) where
  | empty
  | occupied (key : κ) (value : ν)
  | tombstone
  deriving DecidableEq

/-- A slot with its generation, which is odd while the slot is written. -/
structure Slot (κ ν : Type) where
  content : Content κ ν
  gen : ℕ

structure Table (κ ν : Type) where
  capacity : ℕ
  size : ℕ
  maxFill : ℕ
  slots : ℕ → Slot κ ν

def kMaxProbe : ℕ := 1024

/-- `HashBytes`, FNV-1a. -/
def hashBytes (bytes : List ℕ) : ℕ :=
  bytes.foldl (fun h b => (h ^^^ b) * 1099511628211 % 2 ^ 64) 1469598103934665603

variable {κ ν : Type}

namespace Table

variable (t : Table κ ν)

/-- `Allocate`, where the allocator may not grant the slots. -/
def allocate (capacity : ℕ) (granted : Bool) : Table κ ν :=
  if capacity = 0 ∨ granted = false then ⟨0, 0, 0, fun _ => ⟨.empty, 0⟩⟩ else
  let cap := capacity.nextPowerOfTwo
  let fill := cap * 7 / 8
  ⟨cap, 0, if fill = 0 then if 1 < cap then cap - 1 else 1 else fill, fun _ => ⟨.empty, 0⟩⟩

def content (idx : ℕ) : Content κ ν := (t.slots idx).content

def home (hash : ℕ) : ℕ := hash &&& (t.capacity - 1)

def next (idx : ℕ) : ℕ := (idx + 1) &&& (t.capacity - 1)

/-- The slot of a probe. -/
def probe (h j : ℕ) : ℕ := t.next^[j] (t.home h)

def probeLimit : ℕ := if t.capacity < kMaxProbe then t.capacity else kMaxProbe

/-- What stands between `BeginWrite` and `EndWrite`: the generation ends up even again. -/
def write (idx : ℕ) (content : Content κ ν) : Table κ ν :=
  { t with slots := Function.update t.slots idx ⟨content, (t.slots idx).gen + 1 + 1⟩ }

variable (hash : κ → ℕ) (k : κ)

/-- A new key goes to the slot `target`.  Without storage for the key the slot is given up. -/
def place (value : ν) (assigned : Bool) (target : ℕ) : Bool × Table κ ν :=
  if assigned then (true, { t.write target (.occupied k value) with size := t.size + 1 })
  else (false, t.write target .empty)

variable [DecidableEq κ]

/-- The loop of `InsertOrAssign`.  The first tombstone is `capacity` as long as none has been seen.
-/
def insertLoop (value : ν) (assigned : Bool) : ℕ → ℕ → ℕ → Bool × Table κ ν
  | 0, _, _ => (false, t)
  | n + 1, idx, firstTombstone =>
    match t.content idx with
    | .occupied key _ =>
      if key = k then (true, t.write idx (.occupied k value))
      else insertLoop value assigned n (t.next idx) firstTombstone
    | .tombstone =>
      insertLoop value assigned n (t.next idx)
        (if firstTombstone = t.capacity then idx else firstTombstone)
    | .empty =>
      if t.size < t.maxFill then
        t.place k value assigned (if firstTombstone ≠ t.capacity then firstTombstone else idx)
      else (false, t)

def insertOrAssign (value : ν) (assigned : Bool) : Bool × Table κ ν :=
  t.insertLoop k value assigned t.probeLimit (t.home (hash k)) t.capacity

def findLoop : ℕ → ℕ → Option ℕ
  | 0, _ => none
  | n + 1, idx =>
    match t.content idx with
    | .empty => none
    | .occupied key _ => if key = k then some idx else findLoop n (t.next idx)
    | .tombstone => findLoop n (t.next idx)

def findSlot : Option ℕ := t.findLoop k t.probeLimit (t.home (hash k))

def erase : Bool × Table κ ν :=
  match t.findSlot hash k with
  | none => (false, t)
  | some idx => (true, { t.write idx .tombstone with size := t.size - 1 })

/-- One attempt of `TryGet`, none if it meets a slot that is being written. -/
def getLoop : ℕ → ℕ → Option (Option ν)
  | 0, _ => some none
  | n + 1, idx =>
    if (t.slots idx).gen % 2 = 1 then none else
    match t.content idx with
    | .empty => some none
    | .occupied key value => if key = k then some (some value) else getLoop n (t.next idx)
    | .tombstone => getLoop n (t.next idx)

def getAttempts : ℕ → Option ν
  | 0 => none
  | attempts + 1 =>
    match t.getLoop k t.probeLimit (t.home (hash k)) with
    | some found => found
    | none => getAttempts attempts

/-- `TryGet` with its sixteen attempts. -/
def tryGet : Option ν := t.getAttempts hash k 16

end Table

/-! ## Runs -/

/-- The calls of the writer, with the answer of the allocator to an insert of a new key. -/
inductive Call (κ ν : Type) where
  | insertOrAssign (key : κ) (value : ν) (assigned : Bool)
  | erase (key : κ)
  | tryGet (key : κ)

/-- What the map should hold. -/
abbrev Held (κ ν : Type) := AList fun _ : κ => ν

/-- A table, and what the map should hold by then. -/
abbrev World (κ ν : Type) := Table κ ν × Held κ ν

def start (capacity : ℕ) (granted : Bool) : World κ ν := (.allocate capacity granted, ∅)

variable [DecidableEq κ]

section

variable (hash : κ → ℕ)

/-- What a call returns and leaves behind. -/
def Table.call (t : Table κ ν) : Call κ ν → Bool × Table κ ν
  | .insertOrAssign k v assigned => t.insertOrAssign hash k v assigned
  | .erase k => t.erase hash k
  | .tryGet k => ((t.tryGet hash k).isSome, t)

/-- The last insert of a key that succeeded counts, unless an erase succeeded after it. -/
def record (m : Held κ ν) : Call κ ν → Bool → Held κ ν
  | .insertOrAssign k v _, true => m.insert k v
  | .erase k, true => m.erase k
  | _, _ => m

def step (s : World κ ν) (c : Call κ ν) : Option (World κ ν) :=
  some ((s.1.call hash c).2, record s.2 c (s.1.call hash c).1)

/-- `TryGet` finds what the map should hold, and `size()` counts it. -/
def World.Serves (s : World κ ν) : Prop :=
  (∀ k, s.1.tryGet hash k = s.2.lookup k) ∧ s.1.size = s.2.keys.length

/-- An insert of a new key that finds no storage meets no tombstone on its way to an empty slot. -/
def World.spares [DecidableEq ν] (s : World κ ν) : Call κ ν → Bool
  | .insertOrAssign k _ false =>
    let content := fun j => s.1.content (s.1.probe (hash k) j)
    decide (s.2.lookup k = none → s.1.size < s.1.maxFill →
      ∀ j ∈ (List.range s.1.probeLimit).find? (content · = .empty), ∀ i < j, content i ≠ .tombstone)
  | _ => true

end

/-! ## Probing -/

namespace Table

/-- The slot is probed, and no slot before it is empty. -/
def Reached (t : Table κ ν) (h i : ℕ) : Prop :=
  ∃ j < t.probeLimit, t.probe h j = i ∧ ∀ j' < j, t.content (t.probe h j') ≠ .empty

/-- The probe has met neither an empty slot nor the key. -/
def Missed (t : Table κ ν) (h : ℕ) (k : κ) (j : ℕ) : Prop :=
  t.content (t.probe h j) ≠ .empty ∧ ∀ w, t.content (t.probe h j) ≠ .occupied k w

variable {t t' : Table κ ν} {h i j n first : ℕ} {k : κ} {v : ν}

section

omit [DecidableEq κ]

lemma next_probe (t : Table κ ν) (h j : ℕ) : t.next (t.probe h j) = t.probe h (j + 1) :=
  (Function.iterate_succ_apply' ..).symm

lemma Reached.lt (hr : t.Reached h i) : i < t.capacity := by
  obtain ⟨j, hj, rfl, -⟩ := hr
  have hmask : t.probe h j ≤ t.capacity - 1 := by
    cases j with
    | zero => exact and_le_right
    | succ j => exact next_probe t h j ▸ and_le_right
  rw [probeLimit] at hj
  split_ifs at hj <;> omega

/-- Slots that are filled hide nothing. -/
lemma Reached.mono (hr : t.Reached h i) (hcap : t'.capacity = t.capacity)
    (hkp : ∀ x, t.content x ≠ .empty → t'.content x ≠ .empty) : t'.Reached h i := by
  have hnx : t'.next = t.next := by
    funext idx
    rw [next, next, hcap]
  have hpro : t'.probe h = t.probe h := by
    funext j
    rw [probe, probe, home, home, hnx, hcap]
  obtain ⟨j, hj, hi, hfull⟩ := hr
  exact ⟨j, by rwa [probeLimit, hcap], by rw [hpro, hi], fun j' hj' => hpro ▸ hkp _ (hfull j' hj')⟩

lemma content_write (t : Table κ ν) (i x : ℕ) (c : Content κ ν) :
    (t.write i c).content x = if x = i then c else t.content x := by
  by_cases hx : x = i <;> simp [content, write, hx]

end

lemma findLoop_some {idx : ℕ} (hf : t.findLoop k n idx = some i) :
    ∃ v, t.content i = .occupied k v := by
  induction n generalizing idx with
  | zero => simp [findLoop] at hf
  | succ n ih =>
    rw [findLoop] at hf
    cases hc : t.content idx with
    | empty => simp [hc] at hf
    | tombstone => exact ih (by simpa [hc] using hf)
    | occupied key v =>
      simp only [hc] at hf
      split_ifs at hf with hkey
      · exact ⟨v, by rw [← some.inj hf, hc, hkey]⟩
      · exact ih hf

/-- The loop finds a key that it reaches. -/
lemma isSome_findLoop (hk : t.content (t.probe h j) = .occupied k v)
    (hfull : ∀ j' < j, t.content (t.probe h j') ≠ .empty) (hfst : first ≤ j) (hj : j < first + n) :
    (t.findLoop k n (t.probe h first)).isSome := by
  induction n generalizing first with
  | zero => omega
  | succ n ih =>
    rw [findLoop]
    rcases lt_or_eq_of_le hfst with hlt | rfl
    · rw [next_probe]
      have hlat := ih hlt (by omega)
      cases hc : t.content (t.probe h first) with
      | empty => exact absurd hc (hfull first hlt)
      | tombstone => exact hlat
      | occupied key v' =>
        dsimp only
        split_ifs
        · rfl
        · exact hlat
    · simp [hk]

/-- Without a write under way `TryGet` reads the slot that `FindSlot` finds. -/
lemma getLoop_eq (heven : ∀ i, (t.slots i).gen % 2 = 0) (idx : ℕ) :
    (t.findLoop k n idx = none ∧ t.getLoop k n idx = some none) ∨
      ∃ i v, t.content i = .occupied k v ∧ t.getLoop k n idx = some (some v) := by
  induction n generalizing idx with
  | zero => exact .inl ⟨rfl, rfl⟩
  | succ n ih =>
    rw [findLoop, getLoop, if_neg (by simp [heven])]
    cases hc : t.content idx with
    | empty => exact .inl ⟨rfl, rfl⟩
    | tombstone => exact ih _
    | occupied key v =>
      dsimp only
      split_ifs with hkey
      · exact .inr ⟨idx, v, by rw [hc, hkey], rfl⟩
      · exact ih _

/-- **What an insert does.**  It overwrites the value of its key, or changes nothing, or comes to an
empty slot before it has met its key and takes that slot or a tombstone on the way. -/
inductive Inserted (t : Table κ ν) (h : ℕ) (k : κ) (v : ν) (assigned : Bool) :
    Bool × Table κ ν → Prop where
  | overwritten {i : ℕ} {w : ν} (hi : t.content i = .occupied k w) :
    Inserted t h k v assigned (true, t.write i (.occupied k v))
  | refused (hfull : t.size < t.maxFill → ∀ j < t.probeLimit, t.content (t.probe h j) ≠ .empty) :
    Inserted t h k v assigned (false, t)
  | placed {i j : ℕ} (hroom : t.size < t.maxFill) (hempty : t.content (t.probe h j) = .empty)
      (hmissed : ∀ j' < j, t.Missed h k j')
    (hlast : t.Reached h (t.probe h j)) (hr : t.Reached h i)
    (hi : i = t.probe h j ∨ t.content i = .tombstone) :
    Inserted t h k v assigned (t.place k v assigned i)

lemma inserted_insertLoop {assigned : Bool} {tomb : ℕ} (hn : first + n = t.probeLimit)
    (hmissed : ∀ j < first, t.Missed h k j)
    (htomb : tomb = t.capacity ∨ t.Reached h tomb ∧ t.content tomb = .tombstone) :
    t.Inserted h k v assigned (t.insertLoop k v assigned n (t.probe h first) tomb) := by
  induction n generalizing first tomb with
  | zero => exact .refused fun _ j hj => (hmissed j (by omega)).1
  | succ n ih =>
    have hrea : t.Reached h (t.probe h first) :=
      ⟨first, by omega, rfl, fun j hj => (hmissed j hj).1⟩
    have hon (hfst : t.Missed h k first) : ∀ j < first + 1, t.Missed h k j := by
      intro j hj
      rcases Nat.lt_succ_iff_lt_or_eq.mp hj with hj | rfl
      · exact hmissed j hj
      · exact hfst
    rw [insertLoop, next_probe]
    cases hc : t.content (t.probe h first) with
    | occupied key w =>
      dsimp only
      split_ifs with hkey
      · exact .overwritten (w := w) (by rw [hc, hkey])
      · exact ih (by omega) (hon (by simp [Missed, hc, hkey])) htomb
    | tombstone =>
      refine ih (by omega) (hon (by simp [Missed, hc])) ?_
      split_ifs
      · exact .inr ⟨hrea, hc⟩
      · exact htomb
    | empty =>
      dsimp only
      split_ifs with hroom htg
      · obtain ⟨hr, htomb⟩ := htomb.resolve_left htg
        exact .placed hroom hc hmissed hrea hr (.inr htomb)
      · exact .placed hroom hc hmissed hrea hrea (.inl rfl)
      · exact .refused fun hlt => absurd hlt hroom

lemma inserted_insertOrAssign (t : Table κ ν) (hash : κ → ℕ) (k : κ) (v : ν) (assigned : Bool) :
    t.Inserted (hash k) k v assigned (t.insertOrAssign hash k v assigned) :=
  inserted_insertLoop (zero_add _) (fun j hj => by omega) (.inl rfl)

end Table

/-! ## The table as a map -/

/-- The table holds what the map should hold, every key once and where its probes find it. -/
structure Sound (hash : κ → ℕ) (t : Table κ ν) (m : Held κ ν) : Prop where
  pow : t.capacity ≠ 0 → ∃ p, t.capacity = 2 ^ p
  even : ∀ i, (t.slots i).gen % 2 = 0
  reached : ∀ i k v, t.content i = .occupied k v → t.Reached (hash k) i
  unique : ∀ i j k v w, t.content i = .occupied k v → t.content j = .occupied k w → i = j
  held : ∀ k v, m.lookup k = some v ↔ ∃ i, t.content i = .occupied k v
  size : t.size = m.keys.length

lemma lookup_insert_eq (m : Held κ ν) (k : κ) (v : ν) (k' : κ) :
    (m.insert k v).lookup k' = if k' = k then some v else m.lookup k' := by
  split_ifs with hk
  · rw [hk, lookup_insert]
  · rw [lookup_insert_ne hk]

namespace Sound

variable {hash : κ → ℕ} {t t' : Table κ ν} {m m' : Held κ ν} {i j : ℕ} {k : κ} {v w : ν}

lemma start {s : World κ ν} {capacity : ℕ} {granted : Bool} (hs : s = start capacity granted) :
    Sound hash s.1 s.2 := by
  have hslots : ∀ i, s.1.slots i = ⟨.empty, 0⟩ := by
    intro i
    rw [hs, Transport.start, Table.allocate]
    split_ifs <;> rfl
  have hm : s.2 = ∅ := hs ▸ rfl
  refine ⟨fun hne => ?_, by simp [hslots], ?_, ?_, ?_, ?_⟩
  · rw [hs, Transport.start, Table.allocate] at hne ⊢
    split_ifs at hne ⊢
    · exact absurd rfl hne
    · exact isPowerOfTwo_nextPowerOfTwo capacity
  iterate 3 simp [Table.content, hslots, hm]
  rw [hs, Transport.start, Table.allocate]
  split_ifs <;> rfl

section

variable (hS : Sound hash t m)
include hS

lemma serves : World.Serves hash (t, m) := by
  refine ⟨fun k => ?_, hS.size⟩
  rw [Table.tryGet, Table.getAttempts]
  rcases Table.getLoop_eq hS.even (t.home (hash k)) with ⟨hno, hget⟩ | ⟨i, v, hi, hget⟩
  · rw [hget]
    cases hm : m.lookup k with
    | none => rfl
    | some v =>
      obtain ⟨i, hi⟩ := (hS.held k v).mp hm
      obtain ⟨j, hj, rfl, hfull⟩ := hS.reached i k v hi
      have hfd := Table.isSome_findLoop hi hfull (zero_le j) (n := t.probeLimit) (by omega)
      exact absurd (hno ▸ hfd : (none : Option ℕ).isSome) (by simp)
  · rw [hget]
    exact ((hS.held k v).mpr ⟨i, hi⟩).symm

/-- A key that an insert has not met is not there. -/
lemma absent (hempty : t.content (t.probe (hash k) j) = .empty)
    (hmissed : ∀ j' < j, t.Missed (hash k) k j') (i : ℕ) (v : ν) : t.content i ≠ .occupied k v := by
  intro hi
  obtain ⟨j1, -, rfl, hfull⟩ := hS.reached i k v hi
  rcases lt_trichotomy j j1 with hj | rfl | hj
  · exact hfull j hj hempty
  · simp [hempty] at hi
  · exact (hmissed j1 hj).2 v hi

/-- A slot that the key may use is written: the key has the value `new` from then on, or none. -/
lemma write {c : Content κ ν} (new : Option ν) (hr : t.Reached (hash k) i)
    (hmi : ∀ k' w, t.content i = .occupied k' w → k' = k)
    (honly : ∀ x w, t.content x = .occupied k w → x = i) (hkeep : t.content i ≠ .empty → c ≠ .empty)
    (hc : ∀ k' w, c = .occupied k' w ↔ k' = k ∧ new = some w)
    (hm : ∀ k', m'.lookup k' = if k' = k then new else m.lookup k') {n : ℕ}
    (hsz : n = m'.keys.length) : Sound hash { t.write i c with size := n } m' := by
  have hkp : ∀ x, t.content x ≠ .empty → (t.write i c).content x ≠ .empty := by
    intro x hx
    rw [Table.content_write]
    split_ifs with hxi
    · exact hkeep (hxi ▸ hx)
    · exact hx
  -- The occupied slots are the old ones, apart from the slot of the key.
  have hold : ∀ x k' w, (t.write i c).content x = .occupied k' w ↔
      (k' = k ∧ x = i ∧ new = some w) ∨ (k' ≠ k ∧ t.content x = .occupied k' w) := by
    intro x k' w
    rw [Table.content_write]
    split_ifs with hxi
    · rw [or_iff_left fun hx => hx.1 (hmi _ _ (hxi ▸ hx.2)), hc]
      simp [hxi]
    · have hne : t.content x = .occupied k' w → k' ≠ k := by
        rintro hx rfl
        exact hxi (honly x w hx)
      simp only [hxi, false_and, and_false, false_or]
      exact ⟨fun hx => ⟨hne hx, hx⟩, And.right⟩
  refine ⟨hS.pow, fun x => ?_, fun x k' w hx => ?_, fun x y k' w w' hx hy => ?_, fun k' w => ?_,
    hsz⟩
  · have hx := hS.even x
    by_cases hxi : x = i
    · subst hxi
      simp only [Table.write, Function.update_self]
      omega
    · simpa [Table.write, hxi] using hx
  · rcases (hold x k' w).mp hx with ⟨rfl, rfl, -⟩ | ⟨-, hx⟩
    · exact hr.mono rfl hkp
    · exact (hS.reached x k' w hx).mono rfl hkp
  · rcases (hold x k' w).mp hx with ⟨hk, hx, -⟩ | ⟨hk, hx⟩
    · rcases (hold y k' w').mp hy with ⟨-, hy, -⟩ | ⟨hne, -⟩
      · rw [hx, hy]
      · exact absurd hk hne
    · rcases (hold y k' w').mp hy with ⟨hk', -⟩ | ⟨-, hy⟩
      · exact absurd hk' hk
      · exact hS.unique x y k' w w' hx hy
  · refine Iff.trans ?_ (exists_congr fun x => hold x k' w).symm
    rw [hm]
    by_cases hk : k' = k
    · simp [hk]
    · simp [hk, hS.held]

/-- The key of an occupied slot gets a new value or goes. -/
lemma update {c : Content κ ν} (new : Option ν) (hi : t.content i = .occupied k w)
    (hne : c ≠ .empty) (hc : ∀ k' w, c = .occupied k' w ↔ k' = k ∧ new = some w)
    (hm : ∀ k', m'.lookup k' = if k' = k then new else m.lookup k') {n : ℕ}
    (hsz : n = m'.keys.length) : Sound hash { t.write i c with size := n } m' :=
  hS.write new (hS.reached i k w hi) (fun _ _ hk' => (Content.occupied.inj (hk'.symm.trans hi)).1)
    (fun _ _ hx => hS.unique _ _ _ _ _ hx hi) (fun _ => hne) hc hm hsz

lemma mem_keys (hi : t.content i = .occupied k v) : k ∈ m.keys := by
  rw [← AList.mem_keys, ← AList.lookup_isSome, (hS.held k v).mpr ⟨i, hi⟩]
  rfl

lemma lookup_none (habs : ∀ i v, t.content i ≠ .occupied k v) : m.lookup k = none := by
  rw [eq_none_iff_forall_ne_some]
  intro v hv
  obtain ⟨i, hi⟩ := (hS.held k v).mp hv
  exact habs i v hi

/-- A call that spares the tombstones keeps the table a map. -/
lemma step [DecidableEq ν] {c : Call κ ν} (hc : World.spares hash (t, m) c) :
    Sound hash (t.call hash c).2 (record m c (t.call hash c).1) := by
  cases c with
  | tryGet k => exact hS
  | erase k =>
    rw [Table.call, Table.erase]
    cases hf : t.findSlot hash k with
    | none => exact hS
    | some i =>
      obtain ⟨v, hi⟩ := Table.findLoop_some hf
      refine hS.update none hi (by simp) (by simp) (fun k' => ?_) ?_
      · split_ifs with hk
        · exact hk ▸ lookup_erase k m
        · exact lookup_erase_ne hk
      · rw [hS.size]
        exact (keys_erase k m ▸ length_erase_of_mem (hS.mem_keys hi)).symm
  | insertOrAssign k v assigned =>
    have hins := t.inserted_insertOrAssign hash k v assigned
    rw [Table.call]
    generalize t.insertOrAssign hash k v assigned = r at hins ⊢
    cases hins with
    | refused => exact hS
    | overwritten hi =>
      have hmem := hS.mem_keys hi
      have hpos := length_pos_of_mem hmem
      refine hS.update (some v) hi (by simp) (by simp [eq_comm]) (lookup_insert_eq m k v) ?_
      rw [keys_insert, length_cons, length_erase_of_mem hmem]
      exact hS.size.trans (by omega)
    | @placed i j hroom hempty hmissed hlast hrea hi =>
      have habs := hS.absent hempty hmissed
      have hno := hS.lookup_none habs
      have hfe : ∀ k' w, t.content i ≠ .occupied k' w := by
        rcases hi with rfl | hi
        · simp [hempty]
        · simp [hi]
      have hmi : ∀ k' w, t.content i = .occupied k' w → k' = k :=
        fun k' w hw => absurd hw (hfe k' w)
      have hon : ∀ x w, t.content x = .occupied k w → x = i := fun x w hx => absurd hx (habs x w)
      cases assigned with
      | true =>
        refine hS.write (some v) hrea hmi hon (fun _ => by simp) (by simp [eq_comm])
          (lookup_insert_eq m k v) ?_
        have hkey : k ∉ m.keys := by
          rw [← AList.mem_keys, ← AList.lookup_isSome, hno]
          simp
        rw [keys_insert, erase_of_not_mem hkey, length_cons, hS.size]
      | false =>
        -- The slot that is given up was empty: there is no tombstone on the way to an empty slot.
        rcases hi with rfl | hi
        · refine hS.write none hrea hmi hon (fun hne => absurd hempty hne) (by simp)
            (fun k' => ?_) hS.size
          split_ifs with hk
          · exact hk ▸ hno
          · rfl
        · obtain ⟨j₁, -, rfl, hfull⟩ := hrea
          obtain ⟨j₂, hj₂, heq, hbef⟩ := hlast
          rw [← heq] at hempty
          have hlt : j₁ < j₂ := by
            rcases lt_trichotomy j₁ j₂ with h | rfl | h
            · exact h
            · simp [hempty] at hi
            · exact absurd hempty (hfull j₂ h)
          refine absurd hi (of_decide_eq_true hc hno hroom j₂ (find?_range_eq_some.mpr ?_) j₁ hlt)
          exact ⟨decide_eq_true hempty, mem_range.mpr hj₂, by simpa using hbef⟩

end

end Sound

/-- **A map as long as the tombstones are spared.** -/
theorem serves_of_spared_tombstones [DecidableEq ν] (hash : κ → ℕ) (capacity : ℕ) (granted : Bool)
    (calls : List (Call κ ν))
    (hspares : Meets (step hash) (fun s c => World.spares hash s c)
      (start capacity granted) calls) :
    ∃ s, runAll (step hash) (start capacity granted) calls = some s ∧ World.Serves hash s := by
  obtain ⟨s, hrun, hS⟩ := runAll_returns
    (fun s : World κ ν => Sound hash s.1 s.2)
    (fun s c hS hc => ⟨_, rfl, hS.step hc⟩) (Sound.start rfl) hspares
  exact ⟨s, hrun, hS.serves⟩

/-- The witness: a key whose storage is refused where no slot has been erased. -/
theorem serves_of_spared_tombstones_refused_key :
    ∃ s, runAll (step hashBytes) (start 4 true) [.insertOrAssign [0] 1 true,
      .insertOrAssign (List.replicate 63 0) 2 false, .erase [0]] = some s ∧
      World.Serves hashBytes s :=
  serves_of_spared_tombstones hashBytes 4 true _ (by decide +kernel)

/-- Two keys share a home slot.  The first is erased, and a long third key with the same home slot
finds no storage: the tombstone becomes an empty slot, and the second key is lost. -/
theorem key_lost_behind_given_up_slot :
    ∃ s, runAll (step hashBytes) (start 4 true) [.insertOrAssign [0] 1 true,
      .insertOrAssign [4] 2 true, .erase [0], .insertOrAssign (List.replicate 63 0) 3 false] =
      some s ∧
      ¬ World.Serves hashBytes s := by
  refine ⟨_, rfl, fun h => ?_⟩
  have hlost := h.1 [4]
  revert hlost
  decide +kernel

/-! ## Room for a new key -/

namespace Table

omit [DecidableEq κ]

variable {t : Table κ ν} {h i j p : ℕ}

lemma probe_eq (hcap : t.capacity = 2 ^ p) : t.probe h j = (h + j) % 2 ^ p := by
  induction j with
  | zero =>
    rw [probe, Function.iterate_zero_apply, home, hcap, and_two_pow_sub_one_eq_mod, add_zero]
  | succ j ih =>
    rw [← next_probe, ih, next, hcap, and_two_pow_sub_one_eq_mod, mod_add_mod, add_assoc]

/-- As many probes as there are slots come to every slot. -/
lemma exists_probe (hcap : t.capacity = 2 ^ p) (hi : i < t.capacity) :
    ∃ j < t.capacity, t.probe h j = i := by
  rw [hcap] at hi ⊢
  have hpos : 0 < 2 ^ p := by positivity
  have hdiv := div_add_mod h (2 ^ p)
  refine ⟨(i + (2 ^ p - h % 2 ^ p)) % 2 ^ p, mod_lt _ hpos, ?_⟩
  rw [probe_eq hcap, add_mod_mod,
    show h + (i + (2 ^ p - h % 2 ^ p)) = 2 ^ p * (h / 2 ^ p + 1) + i by
    rw [mul_add]; omega, mul_add_mod, mod_eq_of_lt hi]

end Table

/-- **Where a new key finds no room.**  Below the load cap an insert fails just when no slot of the
table is empty: tombstones are reused only on the way to an empty slot. -/
theorem insertOrAssign_new_key_iff [DecidableEq ν] (hash : κ → ℕ) (capacity : ℕ) (granted : Bool)
    (calls : List (Call κ ν)) (hcalls : ∀ k v, .insertOrAssign k v false ∉ calls) {s : World κ ν}
    (hrun : runAll (step hash) (start capacity granted) calls = some s)
    (hslots : s.1.capacity ≤ 1024)
    (k : κ) (v : ν) (hnew : s.2.lookup k = none) (hroom : s.1.size < s.1.maxFill) :
    (s.1.insertOrAssign hash k v true).1 = true ↔ ∃ i < s.1.capacity, s.1.content i = .empty := by
  have hspares : ∀ (s : World κ ν) (c : Call κ ν), c ∈ calls → s.spares hash c := by
    rintro s (⟨k, v, _ | _⟩ | k | k) hc
    · exact absurd hc (hcalls k v)
    all_goals rfl
  have hS := runAll_invariant (fun s : World κ ν => Sound hash s.1 s.2)
    (fun s c hc s' hS _ hs => some.inj hs ▸ hS.step (hspares s c hc))
    (Sound.start rfl) (meets_of_forall (fun _ _ => trivial) calls _) hrun
  have hins := s.1.inserted_insertOrAssign hash k v true
  generalize s.1.insertOrAssign hash k v true = r at hins ⊢
  cases hins with
  | overwritten hi => exact absurd ((hS.held k _).mpr ⟨_, hi⟩) (by simp [hnew])
  | placed _ hempty _ hlast => exact iff_of_true rfl ⟨_, hlast.lt, hempty⟩
  | refused hfull =>
    refine iff_of_false Bool.false_ne_true ?_
    rintro ⟨i, hi, hempty⟩
    obtain ⟨p, hp⟩ := hS.pow (ne_zero_of_lt hi)
    obtain ⟨j, hj, rfl⟩ := Table.exists_probe (h := hash k) hp hi
    have hlim : s.1.probeLimit = s.1.capacity := by
      rw [Table.probeLimit, kMaxProbe]
      split_ifs <;> omega
    exact hfull hroom j (hlim ▸ hj) hempty

/-- A key comes and goes, and the next one takes a slot that was never used. -/
theorem insertOrAssign_new_key_iff_after_erase :
    (((start 2 true : World (List ℕ) ℕ).1.insertOrAssign hashBytes [0] 1 true).2.erase
      hashBytes [0]).2.insertOrAssign hashBytes [1] 2 true |>.1 := by
  refine (insertOrAssign_new_key_iff hashBytes 2 true [.insertOrAssign [0] 1 true, .erase [0]]
    (by simp) rfl ?_ [1] 2 ?_ ?_).mpr ⟨0, ?_, ?_⟩
  all_goals decide +kernel

/-- Two keys come and go, each in a slot of its own: no slot is empty and no key can come. -/
theorem wedged_after_two_erases :
    ∃ s, runAll (step hashBytes) (start 2 true) [.insertOrAssign [0] 1 true, .erase [0],
      .insertOrAssign [1] 2 true, .erase [1]] = some s ∧ s.1.size < s.1.maxFill ∧
      s.2.lookup [0] = none ∧ (s.1.insertOrAssign hashBytes [0] 3 true).1 = false :=
  ⟨_, rfl, by decide +kernel, by decide +kernel, by decide +kernel⟩

end ClioCore.Transport
