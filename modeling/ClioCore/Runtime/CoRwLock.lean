import ClioCore.Foundations.Serial

/-!
# The reentrant read-write lock

`CoRwLock` lets the owner that holds the write lock take it again, and read, without asking the lock
underneath: `write_depth_` and `read_depth_` count these.  The write lock is given back by the
`WriteUnlock` that finds both at zero.  A `ReadUnlock` never gives it back, so an owner that ends
its last read after its last write leaves the lock taken.

An owner is the identity of a task and its subtasks on one worker, which is never null; a thread has
an id other than 0.  Operations are atomic, and one that would wait is not executed.
-/

namespace ClioCore.Runtime

open Foundations List

/-- `RwLock`: the readers inside, and whether a writer is -/
structure RwLock where
  readers : ℕ := 0
  writer : Bool := false
  deriving DecidableEq

variable {O : Type} [DecidableEq O]

/-- `CoRwLock`, with the locks that each owner has taken and not released -/
structure CoRwLock (O : Type) where
  lock : RwLock := {}
  holder : Option O := none
  holderTid : ℕ := 0
  writeDepth : ℕ := 0
  readDepth : ℕ := 0
  reading : List O := []
  writing : List O := []

inductive LockOp (O : Type) where
  | readLock (o : O)
  | readUnlock (o : O)
  | writeLock (o : O)
  | writeUnlock (o : O)

namespace CoRwLock

variable (tid : O → ℕ+) (s : CoRwLock O) (o : O)

/-- `HeldByThisThread`, and the owner is the holder -/
def reentrant : Bool := s.holderTid = tid o && s.holder = some o

/-- `ReadLock` -/
def readLock : Option (CoRwLock O) :=
  let s' := { s with reading := o :: s.reading }
  if s.reentrant tid o then some { s' with readDepth := s.readDepth + 1 }
  else if s.lock.writer then none
  else some { s' with lock := { s.lock with readers := s.lock.readers + 1 } }

/-- `ReadUnlock` of a lock that the owner has taken -/
def readUnlock : Option (CoRwLock O) :=
  let s' := { s with reading := s.reading.erase o }
  if o ∉ s.reading then none
  else if s.reentrant tid o ∧ 0 < s.readDepth then some { s' with readDepth := s.readDepth - 1 }
  else some { s' with lock := { s.lock with readers := s.lock.readers - 1 } }

/-- `WriteLock` -/
def writeLock : Option (CoRwLock O) :=
  let s' := { s with writing := o :: s.writing }
  if s.reentrant tid o then some { s' with writeDepth := s.writeDepth + 1 }
  else if s.lock.writer ∨ 0 < s.lock.readers then none
  else some { s' with
    lock := { s.lock with writer := true }, holder := some o, holderTid := tid o, writeDepth := 1 }

/-- `WriteUnlock` of a lock that the owner has taken -/
def writeUnlock : Option (CoRwLock O) :=
  let s' := { s with writing := s.writing.erase o, writeDepth := s.writeDepth - 1 }
  if o ∉ s.writing then none
  else if s.writeDepth - 1 = 0 ∧ s.readDepth = 0 then
    some { s' with holder := none, holderTid := 0, lock := { s.lock with writer := false } }
  else some s'

def step : LockOp O → Option (CoRwLock O)
  | .readLock o => s.readLock tid o
  | .readUnlock o => s.readUnlock tid o
  | .writeLock o => s.writeLock tid o
  | .writeUnlock o => s.writeUnlock o

/-- What the lock is for. -/
structure Sound : Prop where
  exclusive : ∀ o ∈ s.writing, ∀ o', o' ∈ s.writing ∨ o' ∈ s.reading → o' = o
  reentrant : ∀ o ∈ s.writing, s.readLock tid o ≠ none ∧ s.writeLock tid o ≠ none
  released : s.reading = [] → s.writing = [] → s.lock = {} ∧ s.writeDepth = 0 ∧ s.readDepth = 0

/-- The last reentrant read ends while the owner still has the write lock. -/
def Nested : LockOp O → Prop
  | .readUnlock _ => s.readDepth = 1 → 0 < s.writeDepth
  | .readLock _ | .writeLock _ | .writeUnlock _ => True

instance : DecidablePred s.Nested
  | .readUnlock _ => inferInstanceAs (Decidable (s.readDepth = 1 → 0 < s.writeDepth))
  | .readLock _ | .writeLock _ | .writeUnlock _ => .isTrue trivial

/-- Nobody has the write lock, and the readers have asked the lock underneath. -/
structure Open : Prop where
  lock : s.lock = ⟨s.reading.length, false⟩
  holder : s.holder = none
  writeDepth : s.writeDepth = 0
  readDepth : s.readDepth = 0
  writing : s.writing = []

/-- Owner `o` has the write lock, and what is taken is counted as its own. -/
structure HeldBy : Prop where
  lock : s.lock = ⟨0, true⟩
  reentrant : s.reentrant tid o = true
  reading : s.reading = replicate s.readDepth o
  writing : s.writing = replicate s.writeDepth o
  taken : 0 < s.writeDepth ∨ 0 < s.readDepth

def Inv : Prop := s.Open ∨ ∃ o, s.HeldBy tid o

variable {tid s o} {s' : CoRwLock O}

lemma HeldBy.eq_of_reentrant (h : s.HeldBy tid o) {o' : O} :
    s.reentrant tid o' = true ↔ o' = o := by
  have hre := h.reentrant
  simp only [CoRwLock.reentrant, Bool.and_eq_true, decide_eq_true_eq] at hre ⊢
  constructor
  · intro h'
    exact (Option.some.inj (hre.2.symm.trans h'.2)).symm
  · rintro rfl
    exact hre

lemma Open.not_reentrant (h : s.Open) : s.reentrant tid o = false := by
  simp [CoRwLock.reentrant, h.holder]

lemma Inv.sound (h : s.Inv tid) : s.Sound tid := by
  rcases h with h | ⟨o, h⟩
  · refine ⟨by simp [h.writing], by simp [h.writing], fun hr _ => ⟨?_, h.writeDepth, h.readDepth⟩⟩
    rw [h.lock, hr]
    rfl
  · have hw : ∀ o' ∈ s.writing, o' = o := fun o' ho' => eq_of_mem_replicate (h.writing ▸ ho')
    have hr : ∀ o' ∈ s.reading, o' = o := fun o' ho' => eq_of_mem_replicate (h.reading ▸ ho')
    refine ⟨fun a ha b hb => ?_, fun a ha => ?_, fun hr hw => ?_⟩
    · rw [hw a ha]
      exact hb.elim (hw b) (hr b)
    · simp [readLock, writeLock, hw a ha, h.reentrant]
    · have hrd := h.reading.symm.trans hr
      have hwd := h.writing.symm.trans hw
      rw [replicate_eq_nil_iff] at hrd hwd
      have := h.taken
      omega

lemma Open.step {c : LockOp O} (h : s.Open) (hs : s.step tid c = some s') : s'.Inv tid := by
  cases c with
  | readLock o =>
    left
    simp only [CoRwLock.step, readLock, h.not_reentrant, h.lock, Bool.false_eq_true, if_false,
      Option.some.injEq] at hs
    subst hs
    exact ⟨rfl, h.holder, h.writeDepth, h.readDepth, h.writing⟩
  | readUnlock o =>
    left
    simp only [CoRwLock.step, readUnlock, h.not_reentrant, h.lock, Bool.false_eq_true, false_and,
      if_false] at hs
    split_ifs at hs with hmem
    cases hs
    exact ⟨by simp [length_erase_of_mem hmem], h.holder, h.writeDepth, h.readDepth, h.writing⟩
  | writeLock o =>
    right
    simp only [CoRwLock.step, writeLock, h.not_reentrant, h.lock, Bool.false_eq_true, false_or,
      if_false] at hs
    split_ifs at hs with hrd
    cases hs
    have hnil : s.reading = [] := length_eq_zero_iff.mp (by omega)
    exact ⟨o, by simp [hnil], by simp [CoRwLock.reentrant], by simp [hnil, h.readDepth],
      by simp [h.writing], .inl one_pos⟩
  | writeUnlock o => simp [CoRwLock.step, writeUnlock, h.writing] at hs

lemma HeldBy.step {c : LockOp O} (h : s.HeldBy tid o) (hc : s.Nested c)
    (hs : s.step tid c = some s') : s'.Inv tid := by
  have hmem {n : ℕ} {o' : O} (hm : o' ∈ replicate n o) : o' = o ∧ 0 < n :=
    ⟨eq_of_mem_replicate hm, by rw [mem_replicate] at hm; omega⟩
  -- an owner other than the holder waits
  have hwait {o' : O} (ho' : s.reentrant tid o' = false) :
      s.readLock tid o' = none ∧ s.writeLock tid o' = none := by
    simp [readLock, writeLock, ho', h.lock]
  cases c with
  | readLock o' =>
    right
    cases hre : s.reentrant tid o' with
    | false => cases (hwait hre).1.symm.trans hs
    | true =>
      obtain rfl := h.eq_of_reentrant.mp hre
      simp only [CoRwLock.step, readLock, hre, if_true, Option.some.injEq] at hs
      subst hs
      exact ⟨o', h.lock, hre, by simp [h.reading, replicate_succ], h.writing, .inr (by simp)⟩
  | readUnlock o' =>
    right
    simp only [CoRwLock.step, readUnlock] at hs
    split_ifs at hs with hnot hre
    · cases hs
      obtain ⟨rfl, hpos⟩ := hmem (h.reading ▸ hnot)
      refine ⟨o', h.lock, h.reentrant, by simp [h.reading], h.writing, ?_⟩
      by_cases hone : s.readDepth = 1
      · exact .inl (hc hone)
      · exact .inr (by dsimp only; omega)
    · obtain ⟨rfl, hpos⟩ := hmem (h.reading ▸ hnot)
      exact absurd ⟨h.reentrant, hpos⟩ hre
  | writeLock o' =>
    right
    cases hre : s.reentrant tid o' with
    | false => cases (hwait hre).2.symm.trans hs
    | true =>
      obtain rfl := h.eq_of_reentrant.mp hre
      simp only [CoRwLock.step, writeLock, hre, if_true, Option.some.injEq] at hs
      subst hs
      exact ⟨o', h.lock, hre, h.reading, by simp [h.writing, replicate_succ], .inl (by simp)⟩
  | writeUnlock o' =>
    simp only [CoRwLock.step, writeUnlock] at hs
    split_ifs at hs with hnot hlast
    · left
      cases hs
      obtain ⟨rfl, hpos⟩ := hmem (h.writing ▸ hnot)
      refine ⟨by simp [h.lock, h.reading, hlast.2], rfl, hlast.1, hlast.2, ?_⟩
      simp [h.writing, hlast.1]
    · right
      cases hs
      obtain ⟨rfl, hpos⟩ := hmem (h.writing ▸ hnot)
      exact ⟨o', h.lock, h.reentrant, h.reading, by simp [h.writing], by dsimp only; omega⟩

end CoRwLock

open CoRwLock

/-- **The lock** excludes, lets its holder in again and is free in the end, in every run in which
the last reentrant read of an owner ends before its last write. -/
theorem sound_of_nested (tid : O → ℕ+) (ops : List (LockOp O)) {s : CoRwLock O}
    (hok : Meets (CoRwLock.step tid) CoRwLock.Nested {} ops)
    (hrun : runAll (CoRwLock.step tid) {} ops = some s) : s.Sound tid := by
  refine Inv.sound (runAll_invariant (Inv tid) ?_ (.inl ⟨rfl, rfl, rfl, rfl, rfl⟩) hok hrun)
  rintro s c - s' (h | ⟨o, h⟩) hc hs
  · exact h.step hs
  · exact h.step hc hs

/-- The locks of one owner, which ends its read in the write lock. -/
theorem sound_of_nested_inside : ∃ s, runAll (CoRwLock.step fun _ : ℕ => 1) {}
      [.writeLock 0, .readLock 0, .readUnlock 0, .writeUnlock 0] = some s ∧ s.Sound fun _ => 1 :=
  ⟨_, rfl, sound_of_nested (fun _ => 1)
    [.writeLock 0, .readLock 0, .readUnlock 0, .writeUnlock 0] (by decide) rfl⟩

/-- An owner that ends its read after its write has released all, and the lock is taken. -/
theorem not_sound_readOutlives : ∃ s, runAll (CoRwLock.step fun _ : ℕ => 1) {}
      [.writeLock 0, .readLock 0, .writeUnlock 0, .readUnlock 0] = some s ∧
    s.reading = [] ∧ s.writing = [] ∧ s.lock.writer = true ∧ ¬ s.Sound fun _ => 1 := by
  refine ⟨_, rfl, rfl, rfl, rfl, fun h => ?_⟩
  exact absurd (h.released rfl rfl).1 (by decide)

end ClioCore.Runtime
