import ClioCore.Foundations.Serial
import Mathlib.Algebra.BigOperators.Group.List.Basic

/-!
# The heap of a block device (`transports/block_allocator.h`)

`Heap::Allocate` adds the rounded size to a counter that all callers share, and takes it back if the
sum exceeds the size of the device.  `HeapCalls` are the calls at work: the atomic steps of any
number of them, in any order.  What a failed call has added stays in the counter until it is taken
back.  A call that succeeds meanwhile lies beyond it, and the counter then falls back below the end
of that call's extent.
-/

namespace ClioCore.Bdev

open Foundations List Option

/-- The unit of allocation; an alignment of zero stands for 4096. -/
def unit (alignment : ℕ) : ℕ := if alignment = 0 then 4096 else alignment

/-- A size rounded up to whole units, in 64 bits. -/
def alignSize (alignment size : ℕ) : ℕ :=
  (size + unit alignment - 1) % 2 ^ 64 / unit alignment * unit alignment

structure Heap where
  heap : ℕ
  totalSize : ℕ
  alignment : ℕ
deriving DecidableEq

/-- The test after the `fetch_add`; a size of zero means no limit. -/
def Heap.exceeds (h : Heap) (alignedSize : ℕ) : Bool :=
  0 < h.totalSize ∧ h.totalSize < (h.heap + alignedSize) % 2 ^ 64

/-- Calls of `Heap::Allocate` at work on a heap: the extents, offset and rounded size, of those that
return true, and what the failed ones have yet to subtract. -/
structure HeapCalls extends Heap where
  won : List (ℕ × ℕ)
  failed : List ℕ
deriving DecidableEq

/-- The atomic steps of the calls. -/
inductive HeapStep
  | fetchAdd (blockSize : ℕ)
  | fetchSub (alignedSize : ℕ)

namespace HeapCalls

/-- No call has been made since `Init`. -/
def init (totalSize alignment : ℕ) : HeapCalls := ⟨⟨0, totalSize, alignment⟩, [], []⟩

def step (s : HeapCalls) : HeapStep → Option HeapCalls
  | .fetchAdd blockSize =>
    let alignedSize := alignSize s.alignment blockSize
    let heap := (s.heap + alignedSize) % 2 ^ 64
    if s.exceeds alignedSize then some { s with heap, failed := alignedSize :: s.failed }
    else some { s with heap, won := (s.heap, alignedSize) :: s.won }
  | .fetchSub alignedSize =>
    -- only a call that has failed subtracts, and only once
    if alignedSize ∈ s.failed then
      some { s with
        heap := (s.heap + 2 ^ 64 - alignedSize) % 2 ^ 64, failed := s.failed.erase alignedSize }
    else none

/-- What a step adds to the counter. -/
def added (alignment : ℕ) : HeapStep → ℕ
  | .fetchAdd blockSize => alignSize alignment blockSize
  | .fetchSub _ => 0

/-- The extents handed out are disjoint and on the device. -/
structure Apart (s : HeapCalls) : Prop where
  disjoint : s.won.Pairwise fun e e' => e.1 + e.2 ≤ e'.1 ∨ e'.1 + e'.2 ≤ e.1
  within : ∀ e ∈ s.won, e.1 + e.2 ≤ s.totalSize

/-- A call that succeeds finds nothing in the counter that is still to be taken back. -/
def undisturbed (s : HeapCalls) : HeapStep → Bool
  | .fetchAdd blockSize => s.exceeds (alignSize s.alignment blockSize) || s.failed.isEmpty
  | .fetchSub _ => true

/-- The counter is what has been handed out and what is yet to be subtracted. -/
structure Inv (s : HeapCalls) : Prop extends Apart s where
  limited : 0 < s.totalSize
  heap : s.heap = (s.won.map Prod.snd).sum + s.failed.sum
  below : ∀ e ∈ s.won, e.1 + e.2 ≤ (s.won.map Prod.snd).sum

variable {s s' : HeapCalls}

lemma Inv.fetchAdd {blockSize : ℕ} (h : Inv s)
    (hsum : s.heap + alignSize s.alignment blockSize < 2 ^ 64)
    (hok : s.undisturbed (.fetchAdd blockSize)) (hstp : s.step (.fetchAdd blockSize) = some s') :
    Inv s' ∧ s'.alignment = s.alignment ∧ s'.heap = s.heap + alignSize s.alignment blockSize := by
  have hheap := h.heap
  rw [step] at hstp
  rw [undisturbed] at hok
  generalize alignSize s.alignment blockSize = size at *
  simp only [Nat.mod_eq_of_lt hsum] at hstp
  cases hexc : s.exceeds size with
  | true =>
    rw [hexc, if_pos rfl] at hstp
    cases hstp
    refine ⟨⟨⟨h.disjoint, h.within⟩, h.limited, ?_, h.below⟩, rfl, rfl⟩
    dsimp only
    rw [sum_cons]
    omega
  | false =>
    rw [hexc, if_neg (by simp)] at hstp
    cases hstp
    -- the new extent begins where all that was handed out ends
    have hno : s.failed = [] := by simpa [hexc] using hok
    rw [hno, sum_nil, Nat.add_zero] at hheap
    have hft : s.heap + size ≤ s.totalSize := by
      by_contra hlt
      have htrue : s.exceeds size = true := by
        rw [Heap.exceeds, Nat.mod_eq_of_lt hsum]
        exact decide_eq_true ⟨h.limited, Nat.lt_of_not_le hlt⟩
      simp [htrue] at hexc
    have hsums : (((s.heap, size) :: s.won).map Prod.snd).sum = size + s.heap := by
      rw [map_cons, sum_cons, hheap]
    refine ⟨⟨⟨pairwise_cons.mpr ⟨fun e he => .inr ?_, h.disjoint⟩, ?_⟩, h.limited, ?_, ?_⟩, rfl,
      rfl⟩
    · exact (h.below e he).trans hheap.ge
    · exact forall_mem_cons.mpr ⟨hft, h.within⟩
    · rw [hsums, hno, sum_nil]
      exact Nat.add_comm _ _
    · rw [hsums]
      refine forall_mem_cons.mpr ⟨by omega, fun e he => ?_⟩
      have hbl := h.below e he
      omega

lemma Inv.fetchSub {size : ℕ} (h : Inv s) (hsum : s.heap < 2 ^ 64)
    (hstp : s.step (.fetchSub size) = some s') :
    Inv s' ∧ s'.alignment = s.alignment ∧ s'.heap ≤ s.heap := by
  rw [step] at hstp
  split_ifs at hstp with hmem
  have her : size + (s.failed.erase size).sum = s.failed.sum := sum_erase hmem
  have hheap := h.heap
  have hsub : (s.heap + 2 ^ 64 - size) % 2 ^ 64 = s.heap - size := by
    rw [Nat.sub_add_comm (by omega), Nat.add_mod_right, Nat.mod_eq_of_lt (by omega)]
  rw [hsub] at hstp
  cases hstp
  refine ⟨⟨⟨h.disjoint, h.within⟩, h.limited, ?_, h.below⟩, rfl, Nat.sub_le _ _⟩
  dsimp only
  omega

/-- In a run whose steps are undisturbed the extents stay apart. -/
lemma Inv.run {steps : List HeapStep} (h : Inv s)
    (hsum : s.heap + (steps.map (added s.alignment)).sum < 2 ^ 64)
    (hok : Meets step (fun s c => s.undisturbed c) s steps) (hrun : runAll step s steps = some s') :
    Inv s' := by
  induction steps generalizing s with
  | nil => exact some.inj hrun ▸ h
  | cons c steps ih =>
    obtain ⟨s1, hstp, hrs⟩ := bind_eq_some_iff.mp hrun
    rw [map_cons, sum_cons] at hsum
    cases c with
    | fetchAdd blockSize =>
      rw [added] at hsum
      obtain ⟨hinv, hali, hheap⟩ := h.fetchAdd (by omega) hok.1 hstp
      exact ih hinv (by rw [hali, hheap]; omega) (hok.2 s1 hstp) hrs
    | fetchSub size =>
      obtain ⟨hinv, hali, hheap⟩ := h.fetchSub (by omega) hstp
      exact ih hinv (by rw [hali]; omega) (hok.2 s1 hstp) hrs

end HeapCalls

open HeapCalls

/-- **Concurrent allocation.**  On a device of a given size, calls whose rounded sizes add up to
less than `2 ^ 64` hand out disjoint extents of the device, in every run in which no call succeeds
while a failed one has yet to subtract. -/
theorem apart_of_undisturbed (totalSize alignment : ℕ) (hlimited : 0 < totalSize)
    (steps : List HeapStep) (hsum : (steps.map (added alignment)).sum < 2 ^ 64)
    (hok : Meets step (fun s c => s.undisturbed c) (init totalSize alignment) steps) (s : HeapCalls)
    (hrun : runAll step (init totalSize alignment) steps = some s) : s.Apart := by
  have hinit : Inv (init totalSize alignment) :=
    ⟨⟨.nil, by simp [init]⟩, hlimited, rfl, by simp [init]⟩
  exact (hinit.run (by simpa [init] using hsum) hok hrun).toApart

/-- A call fails and subtracts, and two others succeed. -/
theorem apart_of_undisturbed_after_failure :
    (⟨⟨30, 100, 10⟩, [(20, 10), (0, 20)], []⟩ : HeapCalls).Apart :=
  apart_of_undisturbed 100 10 (by decide) [.fetchAdd 15, .fetchAdd 90, .fetchSub 90, .fetchAdd 10]
    (by decide +kernel) (by decide +kernel) _ (by decide +kernel)

/-- Two calls fail on a device of a hundred bytes.  One has subtracted when a third call gets the
bytes from 10 to 15, beyond what the other has yet to subtract; a fourth then gets the bytes from 5
to 15. -/
theorem overlap_after_failures :
    let steps : List HeapStep :=
      [.fetchAdd 101, .fetchAdd 10, .fetchSub 101, .fetchAdd 5, .fetchSub 10, .fetchAdd 10]
    (steps.map (added 1)).sum < 2 ^ 64 ∧
    runAll step (init 100 1) steps = some ⟨⟨15, 100, 1⟩, [(5, 10), (10, 5)], []⟩ ∧
    ¬ (⟨⟨15, 100, 1⟩, [(5, 10), (10, 5)], []⟩ : HeapCalls).Apart := by
  refine ⟨by decide +kernel, by decide +kernel, fun h => ?_⟩
  simpa using h.disjoint

end ClioCore.Bdev
