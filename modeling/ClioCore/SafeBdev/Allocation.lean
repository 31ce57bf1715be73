import ClioCore.SafeBdev.DegradedRead

/-!
# Allocations that fail

`AllocateBlocks` takes one slot after another and gives none back when the array turns out to be
full.  It leaves the free slots as they were exactly if the first sweep over the members already
finds none.
-/

namespace ClioCore.SafeBdev

open List Nat World MemberAlloc

namespace MemberAlloc

/-- The slots that `Take` can hand out. -/
def freeSlots (a : MemberAlloc) : List ℕ := a.free ++ range' a.highWater (a.capSlots - a.highWater)

lemma length_freeSlots (a : MemberAlloc) : a.freeSlots.length = a.remainingSlots := by
  rw [freeSlots, remainingSlots, length_append, length_range', add_comm]
  split_ifs with h
  · rfl
  · rw [Nat.sub_eq_zero_of_le (not_lt.mp h)]

lemma remainingSlots_take {a : MemberAlloc} (h : a.full = false) :
    a.take.2.remainingSlots + 1 = a.remainingSlots := by
  have hpos : a.remainingSlots ≠ 0 := of_decide_eq_false h
  rw [take]
  cases hls : a.free.getLast? with
  | some s =>
    have hfe : 0 < a.free.length := length_pos_iff.mpr fun hnil => by simp [hnil] at hls
    simp only [remainingSlots, length_dropLast]
    omega
  | none =>
    simp only [remainingSlots, getLast?_eq_none_iff.mp hls, length_nil] at hpos ⊢
    split_ifs at hpos ⊢ <;> omega

end MemberAlloc

namespace World

variable {w w' : World} {d size : ℕ}

/-! ## The sweep -/

/-- The members that the sweep stops at. -/
def Ready (w : World) (d : ℕ) : Prop := (w.dataMember d).state = .active ∧ (w.alloc d).full = false

lemma pickMember_some {n : ℕ} (h : pickMember n w = (w', some d)) (hms : w.dataMembers ≠ []) :
    d < w.dataMembers.length ∧ w.Ready d ∧ w'.dataAlloc = w.dataAlloc := by
  induction n generalizing w with
  | zero => simp [pickMember] at h
  | succ n ih =>
    rw [pickMember] at h
    split_ifs at h with hrdy
    · obtain ⟨rfl, rfl⟩ : _ = w' ∧ _ = d := by simpa using h
      exact ⟨mod_lt _ (length_pos_iff.mpr hms), hrdy, rfl⟩
    · have hrs := ih h hms
      exact hrs

lemma pickMember_none {n : ℕ} (h : pickMember n w = (w', none)) :
    w'.dataAlloc = w.dataAlloc ∧ ∀ i < n, ¬ w.Ready ((w.rrCursor + i) % w.dataMembers.length) := by
  induction n generalizing w with
  | zero =>
    obtain rfl : w = w' := congrArg Prod.fst h
    exact ⟨rfl, fun i hi => absurd hi i.not_lt_zero⟩
  | succ n ih =>
    rw [pickMember] at h
    split_ifs at h with hrdy
    · simp at h
    · obtain ⟨hal, hrs⟩ := ih h
      refine ⟨hal, fun i hi => ?_⟩
      cases i with
      | zero => exact hrdy
      | succ i =>
        have hmiss : ¬ w.Ready (((w.rrCursor % w.dataMembers.length + 1) % w.dataMembers.length + i)
            % w.dataMembers.length) := hrs i (by omega)
        rwa [mod_add_mod, add_assoc, mod_add_mod, add_comm 1 i] at hmiss

/-- A sweep over all members misses none. -/
lemma full_of_pickMember_none (h : pickMember w.dataMembers.length w = (w', none))
    (hd : d < w.dataMembers.length) (hact : (w.dataMember d).state = .active) :
    (w.alloc d).full = true := by
  set n := w.dataMembers.length
  have hcur : w.rrCursor % n < n := mod_lt _ (by omega)
  have hmiss := (pickMember_none h).2 ((d + (n - w.rrCursor % n)) % n) (mod_lt _ (by omega))
  have hvis : (w.rrCursor + (d + (n - w.rrCursor % n)) % n) % n = d := by
    rw [add_mod_mod, ← mod_add_mod,
      show w.rrCursor % n + (d + (n - w.rrCursor % n)) = d + n by omega, add_mod_right,
      mod_eq_of_lt hd]
  rw [hvis] at hmiss
  exact Bool.of_not_eq_false fun hfu => hmiss ⟨hact, hfu⟩

/-! ## The slots taken -/

lemma remainingSlots_takeSlot (h : (w.alloc d).full = false) (seg e : ℕ) :
    ((w.takeSlot d seg).1.alloc e).remainingSlots + (if e = d then 1 else 0)
      = (w.alloc e).remainingSlots := by
  have hd : d < w.dataAlloc.length := by
    by_contra hge
    rw [alloc, getD_eq_default _ _ (not_lt.mp hge)] at h
    exact absurd h (by decide)
  split_ifs with he
  · subst he
    rw [← remainingSlots_take h]
    simp [takeSlot, alloc, hd]
  · simp [takeSlot, alloc, getElem?_set_ne (.symm he)]

/-- The first slot of the loop: none if the sweep finds no member, else one of a member that then
has one less. -/
lemma allocLoop_first (hsz : size ≠ 0) (blocks : List Block) :
    (∃ w', pickMember w.dataMembers.length w = (w', none) ∧ w.allocLoop size blocks = (w', none)) ∨
    ∃ d, ∃ w' : World, ∃ blocks', d < w.dataMembers.length ∧ w.Ready d ∧
      (∀ e, (w'.alloc e).remainingSlots + (if e = d then 1 else 0) = (w.alloc e).remainingSlots) ∧
      w.allocLoop size blocks = w'.allocLoop (size - min kChunkLen size) blocks' := by
  rw [allocLoop, dif_neg hsz]
  rcases hres : pickMember w.dataMembers.length w with ⟨w1, _ | d⟩
  · exact .inl ⟨w1, rfl, rfl⟩
  · have hms : w.dataMembers ≠ [] := fun hnil => by
      simp [hnil, pickMember] at hres
    obtain ⟨hd, hrdy, hal⟩ := pickMember_some hres hms
    have hsm (e : ℕ) : w1.alloc e = w.alloc e := by rw [alloc, hal, alloc]
    have htk := remainingSlots_takeSlot (hsm d ▸ hrdy.2) (min kChunkLen size)
    simp only [hsm] at htk
    exact .inr ⟨d, _, _, hd, hrdy, htk, rfl⟩

lemma remainingSlots_allocLoop_le (w : World) (size : ℕ) (blocks : List Block) (e : ℕ) :
    ((w.allocLoop size blocks).1.alloc e).remainingSlots ≤ (w.alloc e).remainingSlots := by
  induction size using Nat.strong_induction_on generalizing w blocks with
  | _ size ih =>
    by_cases hsz : size = 0
    · rw [allocLoop, dif_pos hsz]
    · have hpos := kChunkLen_pos
      rcases allocLoop_first hsz blocks with ⟨w', hpick, hlp⟩ | ⟨d, w', blocks', -, -, htk, hlp⟩
      · rw [hlp, alloc, (pickMember_none hpick).1, alloc]
      · have hrs := ih (size - min kChunkLen size) (by omega) w' blocks'
        have he := htk e
        rw [hlp]
        omega

end World

/-- **Failed allocations.**  A request that fails leaves every member the slots it had free if and
only if no active member had one: those taken before the array ran out stay taken. -/
theorem freeSlots_of_failed_iff_full (w : World) (size : ℕ)
    (hfai : (w.allocateBlocks size).2.1 ≠ 0) :
    (∀ d, ((w.allocateBlocks size).1.alloc d).freeSlots ~ (w.alloc d).freeSlots) ↔
      ∀ d < w.dataMembers.length, (w.dataMember d).state = .active → (w.alloc d).full = true := by
  rw [allocateBlocks] at hfai ⊢
  split_ifs at hfai ⊢ with hsz hms
  · exact absurd rfl hfai
  · exact iff_of_true (fun _ => .rfl) (by simp [hms])
  · rcases allocLoop_first hsz [] with ⟨w', hpick, hlp⟩ | ⟨d, w', blocks, hd, hrdy, htk, hlp⟩
    · rw [hlp]
      refine iff_of_true (fun d => ?_) fun d => full_of_pickMember_none hpick
      exact .of_eq (by rw [alloc, (pickMember_none hpick).1, alloc])
    · -- the slot of the first round is missed, and its member was active and not full
      have hless := remainingSlots_allocLoop_le w' (size - min kChunkLen size) blocks d
      have hone := htk d
      rw [if_pos rfl] at hone
      rw [hlp] at hfai ⊢
      generalize w'.allocLoop (size - min kChunkLen size) blocks = res at hless hfai ⊢
      obtain ⟨w₂, _ | _⟩ := res
      swap
      · exact absurd rfl hfai
      refine iff_of_false (fun hsm => ?_) fun hfu => ?_
      · have hlen := (hsm d).length_eq
        rw [length_freeSlots, length_freeSlots] at hlen
        dsimp only at hless hlen
        omega
      · exact absurd (hfu d hd hrdy.1) (by simp [hrdy.2])

/-- The free slot of a faulty member is not in the way. -/
theorem slot_left_after_failed_request :
    let w := pair .faulty (.ofCap 1) (.ofCap 0) 0 ∅ ∅ (fun _ => 0) fun _ => 0
    (w.allocateBlocks 1).2.1 = 1 ∧ (w.alloc 0).freeSlots = [0] ∧
      ∀ d, ((w.allocateBlocks 1).1.alloc d).freeSlots ~ (w.alloc d).freeSlots := by
  refine ⟨by decide +kernel, by decide +kernel, ?_⟩
  exact (freeSlots_of_failed_iff_full _ _ (by decide +kernel)).mpr (by decide +kernel)

/-- Two members of one slot each, and a request for three chunks: it fails and no slot is left. -/
theorem no_slot_left_after_failed_request :
    let w := pair .active (.ofCap 1) (.ofCap 1) 0 ∅ ∅ (fun _ => 0) fun _ => 0
    (w.allocateBlocks (3 * kChunkLen)).2.1 = 1 ∧
      [0, 1].map (fun d => (w.alloc d).freeSlots) = [[0], [0]] ∧
      [0, 1].map (fun d => ((w.allocateBlocks (3 * kChunkLen)).1.alloc d).freeSlots) =
      [[], []] := by
  decide +kernel

end ClioCore.SafeBdev
