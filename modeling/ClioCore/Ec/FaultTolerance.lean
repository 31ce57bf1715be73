import ClioCore.Ec.EcArray
import Mathlib.Logic.Relation

/-!
# Fault tolerance of the striped array over whole runs

The operations of `EcArray` as transitions of a system whose state is the array object together
with the heap of stores, and the abstract array they implement: a map from stripes to their `k`
data shards, which only `WriteStripe` changes.

`EcStep` is one operation under the caller's obligations the source documents: member indices exist,
shards have the array's shard length, a store handed to `AddParityDrive` or `RecoverMember` is large
enough and is not the store of another active member, and parity drives are added while all data
members are active.  The relation carries the abstract contents along, so that a run of the array is
at once a run of the abstract array.

`EcOp.run_codeword` is the step lemma: the code-word invariant is kept by every operation.  The run
lemma `EcRun.codeword` follows by induction, and everything a caller observes follows from it.
`exists_run_degraded` shows that the runs in question exist, for every admissible failure count.
-/

namespace ClioCore.Ec

open Foundations List MemberStore ReedSolomon Nat

variable {shardLen numStripes k mMax i : ℕ} {dataStores : List ℕ}

namespace EcArray

variable {σ : Type} [MemberStore σ] {a : EcArray} {heap : ℕ → σ}
  {contents : ℕ → List (List UInt8)}

/-! ## Creation -/

/-- What the data stores hold before the first write. -/
def initialContents (heap : ℕ → σ) (shardLen : ℕ) (dataStores : List ℕ) (s : ℕ) :
    List (List UInt8) :=
  dataStores.map fun p => (MemberStore.read (heap p) (s * shardLen) shardLen).getD []

lemma member_create (hi : i < k) : (create shardLen numStripes k mMax dataStores).member i
      = ⟨dataStores.getD i 0, .data, .active, i⟩ := by
  simp [member, create, hi]

lemma length_members_create (shardLen numStripes k mMax : ℕ) (dataStores : List ℕ) :
    (create shardLen numStripes k mMax dataStores).members.length = k := by
  simp [create]

section Lawful

variable [LawfulMemberStore σ]

/-- A fresh array over distinct, large enough stores holds their initial contents. -/
lemma codeword_create (hlen : dataStores.length = k) (hnodup : dataStores.Nodup)
    (hrm : ∀ p ∈ dataStores, numStripes * shardLen ≤ capacity (heap p)) :
    Codeword (create shardLen numStripes k mMax dataStores) heap
      (initialContents heap shardLen dataStores) := by
  have hmem : ∀ i (hi : i < k), ∃ h : i < dataStores.length,
      (create shardLen numStripes k mMax dataStores).member i = ⟨dataStores[i], .data,
        .active, i⟩ := by
    intro i hi
    have hi' : i < dataStores.length := by omega
    refine ⟨hi', ?_⟩
    rw [member_create hi, getD_eq_getElem _ _ hi']
  have hrd : ∀ p ∈ dataStores, ∀ s < numStripes, ∃ out, read (heap p)
      ((create shardLen numStripes k mMax dataStores).stripeOffset s) shardLen = some out ∧
      read (heap p) (s * shardLen) shardLen = some out ∧ out.length = shardLen := by
    intro p hp s hs
    obtain ⟨hoff, hin⟩ := stripeOffset_eq (a := create shardLen numStripes k mMax dataStores)
      hs (hrm p hp)
    obtain ⟨out, hout, hlen⟩ := LawfulMemberStore.read_inRange (heap p) (s * shardLen) shardLen hin
    exact ⟨out, by rw [hoff]; exact hout, hout, hlen⟩
  refine ⟨⟨?_, zero_le _, ?_, ?_⟩, ?_, ?_, ?_, ?_, ?_⟩
  · rw [length_members_create]
    rfl
  · intro i hi
    have hik : i < k := hi
    rw [member_create hik]
    exact ⟨rfl, rfl⟩
  · intro r hr
    exact absurd hr (not_lt_zero r)
  · intro i hi j hj _ _ hsto
    rw [length_members_create] at hi hj
    obtain ⟨hi', hmi⟩ := hmem i hi
    obtain ⟨hj', hmj⟩ := hmem j hj
    rw [hmi, hmj] at hsto
    exact (Nodup.getElem_inj_iff hnodup).mp hsto
  · intro i hi _
    rw [length_members_create] at hi
    obtain ⟨hi', hmi⟩ := hmem i hi
    rw [hmi]
    exact hrm _ (getElem_mem hi')
  · intro s _
    rwa [initialContents, length_map]
  · intro s hs d hd
    obtain ⟨p, hp, rfl⟩ := mem_map.mp hd
    obtain ⟨out, _, hout, hlen⟩ := hrd p hp s hs
    rwa [hout]
  · intro s hs i hi _
    rw [length_members_create] at hi
    obtain ⟨hi', hmi⟩ := hmem i hi
    obtain ⟨out, hoff, hout, _⟩ := hrd _ (getElem_mem hi') s hs
    rw [HoldsShard, hmi]
    refine hoff.trans ?_
    rw [shardOf, if_pos (show i < (create shardLen numStripes k mMax dataStores).rs.k
      from hi), initialContents, getD_eq_getElem _ _ (by rwa [length_map]),
      getElem_map, hout]
    rfl

/-! ## Recovery -/

omit [MemberStore σ] [LawfulMemberStore σ] in
lemma member_seat (newStore : ℕ) (hi : i < a.members.length) :
    (a.seat i newStore).member i = ⟨newStore, (a.member i).role, .active, (a.member i).index⟩ := by
  rw [seat, member_replaceMember, if_pos ⟨rfl, hi⟩]

/-- **`RecoverMember`.**  With `k` other members to read it rebuilds the member on the new store and
keeps the invariant; otherwise it fails and changes nothing. -/
lemma Codeword.recoverMember (h : Codeword a heap contents) (h256 : a.k + a.parityLevel ≤ 256)
    {newStore : ℕ} (hi : i < a.members.length)
    (hfr : ∀ j < a.members.length, j ≠ i → (a.member j).state = .active →
      (a.member j).store ≠ newStore)
    (hrm : a.numStripes * a.shardLen ≤ capacity (heap newStore)) :
    (∃ heap', a.recoverMember heap i newStore = (a.seat i newStore, heap', true) ∧
      Codeword (a.seat i newStore) heap' contents) ∨
    ((a.survivors (some i)).length < a.k ∧ a.recoverMember heap i newStore = (a, heap, false)) := by
  have hrec : ∀ s < a.numStripes, ∀ heap' : ℕ → σ, (∀ q ≠ newStore, heap' q = heap q) →
      a.reconstructStripeData heap' s (some i)
        = if a.k ≤ (a.survivors (some i)).length then some (contents s) else none := by
    intro s hs heap' hfrm
    apply reconstructStripeData_eq h.wellFormed h256 (h.length_contents s hs) (h.length_shard s hs)
    intro j hj
    obtain ⟨hlt, hex, hact⟩ := h.wellFormed.mem_survivors.mp hj
    have hji : j ≠ i := fun heq => hex (by rw [heq])
    have hrd := h.holds s hs j hlt hact
    rw [HoldsShard] at hrd ⊢
    rwa [hfrm _ (hfr j hlt hji hact)]
  by_cases hk : a.k ≤ (a.survivors (some i)).length ∨ a.numStripes = 0
  · left
    obtain ⟨heap', hlp, hfrm, hrm', hdn⟩ := fillStore_loop
      (fun s => a.rs.shardOf (contents s) a.shardLen i) (a.recoverStripe i newStore) hrm
      (fun s hs => shardOf_length (h.length_contents s hs) (h.length_shard s hs) i)
      (by
        intro s hs heap' hfrm
        rcases hk with hk | hk
        · rw [recoverStripe, hrec s hs heap' hfrm, if_pos hk]
          simp [h.wellFormed.memberShard_member hi]
        · omega)
    refine ⟨heap', ?_, ?_⟩
    · rw [EcArray.recoverMember, hlp]
    · refine h.of_members rfl (h.wellFormed.replaceMember rfl rfl) (i := i) fun j hj hact => ?_
      rw [seat, length_replaceMember] at hj
      by_cases hji : j = i
      · rw [HoldsMember, member_seat newStore hi]
        exact .inr ⟨hji, hfr, hrm', hdn⟩
      · rw [seat, member_replaceMember, if_neg fun hc => hji hc.1] at hact ⊢
        exact .inl ⟨hj, rfl, hfrm _ (hfr j hj hji hact)⟩
  · right
    have hlt := not_le.mp (fun hc => hk (Or.inl hc))
    refine ⟨hlt, ?_⟩
    have hpos : 0 < a.numStripes := pos_of_ne_zero (fun hc => hk (Or.inr hc))
    have hfst : a.recoverStripe i newStore heap 0 = (heap, false) := by
      rw [recoverStripe, hrec 0 hpos heap (fun _ _ => rfl), if_neg (not_le.mpr hlt)]
    rw [EcArray.recoverMember, ← succ_pred_eq_of_pos hpos, range_succ_eq_map, loopWhile, hfst]

/-! ## Adding a parity drive -/

omit [MemberStore σ] [LawfulMemberStore σ] in
lemma member_pushParity (store : ℕ) {j : ℕ} (hj : j < a.members.length) :
    (a.pushParity store).member j = a.member j := by
  rw [member, pushParity, getD_append _ _ _ _ hj, member]

omit [MemberStore σ] [LawfulMemberStore σ] in
lemma member_pushParity_last (store : ℕ) :
    (a.pushParity store).member a.members.length = ⟨store, .parity, .active, a.parityLevel⟩ := by
  simp [member, pushParity]

/-- **`AddParityDrive`** over active data members succeeds, touches the new store only and keeps the
invariant. -/
lemma Codeword.addParityDrive (h : Codeword a heap contents) {store : ℕ}
    (hlv : a.parityLevel < a.mMax) (hact : ∀ c < a.k, (a.member c).state = .active)
    (hfr : ∀ j < a.members.length, (a.member j).state = .active → (a.member j).store ≠ store)
    (hrm : a.numStripes * a.shardLen ≤ capacity (heap store)) :
    ∃ heap', a.addParityDrive heap store
        = ({ a.pushParity store with parityLevel := a.parityLevel + 1 }, heap',
            some (a.parityLevel + 1)) ∧
      (∀ q ≠ store, heap' q = heap q) ∧
      Codeword { a.pushParity store with parityLevel := a.parityLevel + 1 } heap' contents := by
  have hmem := h.wellFormed.length_members
  -- The stripes are read from the data members, which the loop does not touch.
  have hrd : ∀ s < a.numStripes, ∀ heap' : ℕ → σ, (∀ q ≠ store, heap' q = heap q) →
      (a.pushParity store).readStripeData heap' s = some (contents s) := by
    intro s hs heap' hfrm
    have hmb : ∀ c < a.k, (a.pushParity store).member c = a.member c :=
      fun c hc => member_pushParity store (by omega)
    refine readStripeData_of_active hs (h.length_contents s hs) ?_ ?_
    · intro c hc
      rw [hmb c hc]
      exact hact c hc
    · intro c hc
      have hck : c < a.k := hc
      rw [hmb c hc, hfrm _ (hfr c (by omega) (hact c hc))]
      exact h.read_data hs hc (hact c hc)
  obtain ⟨heap', hlp, hfrm, hrm', hdn⟩ := fillStore_loop
    (fun s => a.rs.encodeParityShard a.parityLevel (contents s) a.shardLen)
    ((a.pushParity store).addParityStripe store a.parityLevel) hrm
    (fun s _ => encodeParityShard_length ..)
    (by
      intro s hs heap' hfrm
      rw [addParityStripe, hrd s hs heap' hfrm]
      rfl)
  refine ⟨heap', ?_, hfrm, ?_⟩
  · rw [EcArray.addParityDrive, if_neg (not_le.mpr hlv)]
    simp only [hlp]
  · set a' : EcArray := { a.pushParity store with parityLevel := a.parityLevel + 1 } with ha'
    have hlen' : a'.members.length = a.members.length + 1 := by simp [ha', pushParity]
    have hold : ∀ j < a.members.length, a'.member j = a.member j :=
      fun j hj => member_pushParity store hj
    have hnew : a'.member a.members.length = ⟨store, .parity, .active, a.parityLevel⟩ :=
      member_pushParity_last store
    refine h.of_members rfl ⟨?_, hlv, ?_, ?_⟩ (i := a.members.length) fun j hj hactj => ?_
    · rw [hlen', hmem]
      rfl
    · intro i hi
      have hik : i < a.k := hi
      rw [hold i (by omega)]
      exact h.wellFormed.data_member i hik
    · intro r hr
      have hr' : r < a.parityLevel + 1 := hr
      change (a'.member (a.k + r)).role = .parity ∧ (a'.member (a.k + r)).index = r
      by_cases hls : r = a.parityLevel
      · rw [hls, ← hmem, hnew]
        exact ⟨rfl, rfl⟩
      · rw [hold _ (by omega)]
        exact h.wellFormed.parity_member r (by omega)
    · by_cases hj' : j < a.members.length
      · rw [hold j hj'] at hactj ⊢
        exact .inl ⟨hj', rfl, hfrm _ (hfr j hj' hactj)⟩
      · rw [HoldsMember, hnew]
        refine .inr ⟨by omega, fun l hl _ => hfr l hl, hrm', fun s hs => (hdn s hs).trans ?_⟩
        rw [shardOf, if_neg (show ¬ a.members.length < a.rs.k from
          not_lt.mpr (by rw [hmem]; exact le_add_right _ _)),
          show a.members.length - a.rs.k = a.parityLevel by
              rw [hmem]; exact Nat.add_sub_cancel_left ..]

end Lawful

end EcArray

open EcArray

/-! ## The system and its abstract array -/

/-- The array object, the heap its stores live in, and the abstract array: the data shards last
written to each stripe. -/
structure EcSystem (σ : Type) where
  array : EcArray
  heap : ℕ → σ
  contents : ℕ → List (List UInt8)

/-- The operations of the array that change its state. -/
inductive EcOp
  | addParityDrive (store : ℕ)
  | writeStripe (stripe : ℕ) (dataShards : List (List UInt8))
  | markFaulty (memberIndex : ℕ)
  | removeDrive (memberIndex : ℕ) (wasFaulty : Bool)
  | recoverMember (memberIndex newStore : ℕ)

section System

variable {σ : Type} [MemberStore σ]

/-- A fresh array over the given stores. -/
def EcSystem.create (shardLen numStripes k mMax : ℕ) (dataStores : List ℕ) (heap : ℕ → σ) :
    EcSystem σ :=
  ⟨EcArray.create shardLen numStripes k mMax dataStores, heap,
    initialContents heap shardLen dataStores⟩

/-- Run one operation.  Only a `WriteStripe` that succeeds changes the abstract contents. -/
def EcOp.run (w : EcSystem σ) : EcOp → EcSystem σ
  | .addParityDrive store =>
    let r := w.array.addParityDrive w.heap store
    ⟨r.1, r.2.1, w.contents⟩
  | .writeStripe stripe dataShards =>
    let r := w.array.writeStripe w.heap stripe dataShards
    ⟨w.array, r.1, if r.2 then Function.update w.contents stripe dataShards else w.contents⟩
  | .markFaulty i => ⟨w.array.markFaulty i, w.heap, w.contents⟩
  | .removeDrive i wasFaulty => ⟨w.array.removeDrive i wasFaulty, w.heap, w.contents⟩
  | .recoverMember i newStore =>
    let r := w.array.recoverMember w.heap i newStore
    ⟨r.1, r.2.1, w.contents⟩

/-- What the caller of an operation has to see to. -/
def EcOp.Allowed (w : EcSystem σ) : EcOp → Prop
  | .addParityDrive store =>
    (∀ c < w.array.k, (w.array.member c).state = .active) ∧
    (∀ j < w.array.members.length, (w.array.member j).state = .active →
      (w.array.member j).store ≠ store) ∧
    w.array.numStripes * w.array.shardLen ≤ MemberStore.capacity (w.heap store)
  | .writeStripe _ dataShards => ∀ d ∈ dataShards, d.length = w.array.shardLen
  | .markFaulty i => i < w.array.members.length
  | .removeDrive i _ => i < w.array.members.length
  | .recoverMember i newStore =>
    i < w.array.members.length ∧
    (∀ j < w.array.members.length, j ≠ i → (w.array.member j).state = .active →
      (w.array.member j).store ≠ newStore) ∧
    w.array.numStripes * w.array.shardLen ≤ MemberStore.capacity (w.heap newStore)

/-- One operation that leaves at most `parityLevel` members down. -/
def EcStep (w w' : EcSystem σ) : Prop :=
  ∃ op : EcOp, op.Allowed w ∧ w' = op.run w ∧ w'.array.downCount ≤ w'.array.parityLevel

/-- A finite sequence of operations in which at most `parityLevel` members are down at any time. -/
def EcRun : EcSystem σ → EcSystem σ → Prop := Relation.ReflTransGen EcStep

lemma EcRun.within {w w' : EcSystem σ} (h : EcRun w w')
    (h0 : w.array.downCount ≤ w.array.parityLevel) : w'.array.downCount ≤ w'.array.parityLevel := by
  obtain rfl | ⟨_, -, _, -, -, hdown⟩ := Relation.ReflTransGen.cases_tail h
  · exact h0
  · exact hdown

/-- The geometry never changes and the parity level never falls. -/
lemma EcOp.run_geometry (op : EcOp) (w : EcSystem σ) :
    (op.run w).array.k = w.array.k ∧ (op.run w).array.numStripes = w.array.numStripes ∧
      (op.run w).array.shardLen = w.array.shardLen ∧
      w.array.parityLevel ≤ (op.run w).array.parityLevel ∧
      (op.run w).array.mMax = w.array.mMax := by
  cases op with
  | addParityDrive store =>
    simp only [run, EcArray.addParityDrive]
    split_ifs
    · exact ⟨rfl, rfl, rfl, le_rfl, rfl⟩
    · rcases loopWhile ((w.array.pushParity store).addParityStripe store w.array.parityLevel)
        (range w.array.numStripes) w.heap with ⟨heap', b⟩
      cases b with
      | true => exact ⟨rfl, rfl, rfl, le_succ _, rfl⟩
      | false => exact ⟨rfl, rfl, rfl, le_rfl, rfl⟩
  | writeStripe stripe dataShards => exact ⟨rfl, rfl, rfl, le_rfl, rfl⟩
  | markFaulty i => exact ⟨rfl, rfl, rfl, le_rfl, rfl⟩
  | removeDrive i wasFaulty => exact ⟨rfl, rfl, rfl, le_rfl, rfl⟩
  | recoverMember i newStore =>
    simp only [run, EcArray.recoverMember]
    rcases loopWhile (w.array.recoverStripe i newStore) (range w.array.numStripes)
      w.heap with ⟨heap', b⟩
    cases b with
    | true => exact ⟨rfl, rfl, rfl, le_rfl, rfl⟩
    | false => exact ⟨rfl, rfl, rfl, le_rfl, rfl⟩

lemma EcRun.geometry {w w' : EcSystem σ} (h : EcRun w w') :
    w'.array.k = w.array.k ∧ w'.array.numStripes = w.array.numStripes ∧
      w'.array.shardLen = w.array.shardLen ∧ w'.array.mMax = w.array.mMax := by
  induction h with
  | refl => exact ⟨rfl, rfl, rfl, rfl⟩
  | tail _ hstp ih =>
    obtain ⟨op, _, rfl, _⟩ := hstp
    obtain ⟨hk, hn, hl, _, hm⟩ := op.run_geometry (σ := σ) _
    rwa [hk, hn, hl, hm]

variable [LawfulMemberStore σ]

/-- **Step lemma.**  Every allowed operation keeps the code-word invariant. -/
lemma EcOp.run_codeword {w : EcSystem σ} {op : EcOp} (halw : op.Allowed w)
    (h256 : w.array.k + w.array.parityLevel ≤ 256)
    (h : Codeword w.array w.heap w.contents) :
    Codeword (op.run w).array (op.run w).heap (op.run w).contents := by
  cases op with
  | addParityDrive store =>
    obtain ⟨hact, hfr, hrm⟩ := halw
    by_cases hlv : w.array.parityLevel < w.array.mMax
    · obtain ⟨heap', heq, _, hcd⟩ := h.addParityDrive hlv hact hfr hrm
      simp only [run, heq]
      exact hcd
    · simp only [run, EcArray.addParityDrive, if_pos (not_lt.mp hlv)]
      exact h
  | writeStripe stripe dataShards =>
    by_cases hbad : w.array.numStripes ≤ stripe ∨ dataShards.length ≠ w.array.k
    · simp only [run, EcArray.writeStripe, if_pos hbad]
      exact h
    · obtain ⟨hs, hlen⟩ := not_or.mp hbad
      obtain ⟨heap', heq, hcd⟩ := h.writeStripe (not_le.mp hs) (not_not.mp hlen) halw
      simp only [run, heq, if_true]
      exact hcd
  | markFaulty i => exact h.setState i (by decide)
  | removeDrive i wasFaulty => exact h.setState i (by cases wasFaulty <;> decide)
  | recoverMember i newStore =>
    obtain ⟨hi, hfr, hrm⟩ := halw
    rcases h.recoverMember h256 hi hfr hrm with ⟨heap', heq, hcd⟩ | ⟨_, heq⟩
    · simp only [run, heq]
      exact hcd
    · simp only [run, heq]
      exact h

/-- **Run lemma.**  The invariant holds along every run; since the parity level never falls, the
bound on the last state bounds them all. -/
lemma EcRun.codeword {w w' : EcSystem σ} (h : EcRun w w')
    (h0 : Codeword w.array w.heap w.contents)
    (h256 : w'.array.k + w'.array.parityLevel ≤ 256) :
    Codeword w'.array w'.heap w'.contents := by
  induction h with
  | refl => exact h0
  | tail _ hstp ih =>
    obtain ⟨op, halw, rfl, _⟩ := hstp
    obtain ⟨hk, _, _, hp, _⟩ := op.run_geometry (σ := σ) _
    have h256' := h256
    rw [hk] at h256'
    exact EcOp.run_codeword halw (by omega) (ih (by omega))

/-! ## Degraded arrays are reachable -/

omit [MemberStore σ] [LawfulMemberStore σ] in
lemma EcArray.downCount_eq_zero {a : EcArray}
    (h : ∀ j < a.members.length, (a.member j).state = .active) : a.downCount = 0 := by
  rw [downCount, countP_eq_zero]
  intro m hm
  obtain ⟨j, hj, rfl⟩ := getElem_of_mem hm
  have hact := h j hj
  rw [member, getD_eq_getElem _ _ hj] at hact
  simp [hact]

/-- Any number of parity drives up to `mMax` can be added to a fresh array. -/
lemma exists_run_addParity {heap : ℕ → σ}
    (hrm : ∀ p, numStripes * shardLen ≤ capacity (heap p)) (n : ℕ) (hn : n ≤ mMax) :
    ∃ w, EcRun (EcSystem.create shardLen numStripes k mMax (range k) heap) w ∧
      Codeword w.array w.heap w.contents ∧ w.array.parityLevel = n ∧
      (∀ j < k + n, (w.array.member j).store = j ∧ (w.array.member j).state = .active) ∧
      ∀ q, k + n ≤ q → w.heap q = heap q := by
  induction n with
  | zero =>
    refine ⟨_, Relation.ReflTransGen.refl, codeword_create length_range
      nodup_range (fun p _ => hrm p), rfl, fun j hj => ?_, fun q _ => rfl⟩
    rw [add_zero] at hj
    rw [EcSystem.create, member_create hj]
    simp [hj]
  | succ n ih =>
    obtain ⟨w, hrun, hcd, hlv, hmb, hheap⟩ := ih (by omega)
    obtain ⟨hk, hnum, hlen, hm⟩ := hrun.geometry
    have hk : w.array.k = k := hk
    have hm : w.array.mMax = mMax := hm
    have hmem := hcd.wellFormed.length_members
    -- The next free store is at address `k + n`.
    have halw : (EcOp.addParityDrive (k + n)).Allowed w := by
      refine ⟨fun c hc => (hmb c (by omega)).2, fun j hj _ => ?_, ?_⟩
      · rw [(hmb j (by omega)).1]
        omega
      · rw [hnum, hlen, hheap _ le_rfl]
        exact hrm _
    obtain ⟨heap', heq, hfrm, hcd'⟩ :=
      hcd.addParityDrive (by omega) halw.1 halw.2.1 halw.2.2
    set a' : EcArray := { w.array.pushParity (k + n) with parityLevel := w.array.parityLevel + 1 }
    have hw' : (EcOp.addParityDrive (k + n)).run w = ⟨a', heap', w.contents⟩ := by
      simp only [EcOp.run, heq]
    have hmb' : ∀ j < k + (n + 1), (a'.member j).store = j ∧ (a'.member j).state = .active := by
      intro j hj
      by_cases hls : j < k + n
      · rw [show a'.member j = w.array.member j from member_pushParity _ (by omega)]
        exact hmb j hls
      · rw [show j = w.array.members.length by omega,
          show a'.member w.array.members.length = _ from member_pushParity_last _]
        exact ⟨show k + n = w.array.members.length by omega, rfl⟩
    refine ⟨_, hrun.tail ⟨_, halw, hw'.symm, ?_⟩, hcd', congrArg (· + 1) hlv, hmb', fun q hq => ?_⟩
    · have hlen' : a'.members.length = w.array.k + (w.array.parityLevel + 1) :=
        hcd'.wellFormed.length_members
      exact (downCount_eq_zero fun j hj => (hmb' j (by omega)).2).trans_le (zero_le _)
    · exact (hfrm q (by omega)).trans (hheap q (by omega))

/-- The first `f` members of an array with `n` parity drives can be down, for any `f ≤ n`. -/
lemma exists_run_degraded {heap : ℕ → σ}
    (hrm : ∀ p, numStripes * shardLen ≤ capacity (heap p)) {n : ℕ} (hn : n ≤ mMax) (f : ℕ)
    (hf : f ≤ n) :
    ∃ w, EcRun (EcSystem.create shardLen numStripes k mMax (range k) heap) w ∧
      Codeword w.array w.heap w.contents ∧ w.array.parityLevel = n ∧
      w.array.downCount ≤ f ∧ ∀ j < k + n,
        (w.array.member j).state = if j < f then .faulty else .active := by
  induction f with
  | zero =>
    obtain ⟨w, hrun, hcd, hlv, hmb, _⟩ := exists_run_addParity hrm n hn
    have hmem := hcd.wellFormed.length_members
    have hk : w.array.k = k := hrun.geometry.1
    refine ⟨w, hrun, hcd, hlv, ?_, fun j hj => ?_⟩
    · rw [downCount_eq_zero (fun j hj => (hmb j (by omega)).2)]
    · exact (hmb j hj).2
  | succ f ih =>
    obtain ⟨w, hrun, hcd, hlv, hdown, hstt⟩ := ih (by omega)
    have hmem := hcd.wellFormed.length_members
    have hdown' : (w.array.setState f .faulty).downCount ≤ w.array.downCount + 1 := by
      have hf : f < w.array.members.length := by omega
      simp only [downCount, setState, replaceMember, countP_set hf]
      split_ifs <;> omega
    refine ⟨(EcOp.markFaulty f).run w, hrun.tail ⟨_, ?_, rfl, ?_⟩, hcd.setState f (by decide),
      hlv, ?_, ?_⟩
    · change f < w.array.members.length
      omega
    · change (w.array.setState f .faulty).downCount ≤ w.array.parityLevel
      omega
    · change (w.array.setState f .faulty).downCount ≤ f + 1
      omega
    · intro j hj
      change ((w.array.setState f .faulty).member j).state = _
      rw [setState, member_replaceMember]
      by_cases hjf : j = f
      · rw [if_pos ⟨hjf, by omega⟩, if_pos (by omega)]
      · rw [if_neg (fun hc => hjf hc.1), hstt j hj]
        have hiff : j < f ↔ j < f + 1 := by omega
        simp [hiff]

/-! ## Fault tolerance -/

/-- **Fault tolerance.**  At every point of a run that never has more members down than it has
parity drives, every read returns the shards last written (or the initial contents), and recovering
a member that is down succeeds and leaves the member's exact shard of every stripe on the new
store. -/
theorem ecRun_faultTolerant (shardLen numStripes k mMax : ℕ) (dataStores : List ℕ) (heap : ℕ → σ)
    (hlen : dataStores.length = k) (hnodup : dataStores.Nodup)
    (hroom : ∀ p ∈ dataStores, numStripes * shardLen ≤ MemberStore.capacity (heap p))
    (w : EcSystem σ) (hrun : EcRun (EcSystem.create shardLen numStripes k mMax dataStores heap) w)
    (h256 : k + w.array.parityLevel ≤ 256) :
    (∀ s < numStripes, w.array.readStripeData w.heap s = some (w.contents s)) ∧
    (∀ s < numStripes, ∀ c < k,
      w.array.readDataShard w.heap s c = some ((w.contents s).getD c [])) ∧
    ∀ i newStore, (EcOp.recoverMember i newStore).Allowed w → ((w.array.member i).state ≠ .active →
        (w.array.recoverMember w.heap i newStore).2.2 = true) ∧
      ((w.array.recoverMember w.heap i newStore).2.2 = true →
        ((w.array.recoverMember w.heap i newStore).1.member i).store = newStore ∧
        ((w.array.recoverMember w.heap i newStore).1.member i).state = .active ∧
        ∀ s < numStripes, MemberStore.read ((w.array.recoverMember w.heap i newStore).2.1 newStore)
            (s * shardLen) shardLen
          = some (if i < k then (w.contents s).getD i []
              else (⟨k, mMax⟩ : ReedSolomon).encodeParityShard (i - k)
              (w.contents s) shardLen)) := by
  obtain ⟨hk, hn, hl, hm⟩ := hrun.geometry
  have h256' : w.array.k + w.array.parityLevel ≤ 256 := by rw [hk]; exact h256
  have hdown := hrun.within (by simp [EcSystem.create, EcArray.create, downCount])
  have hcd := hrun.codeword (codeword_create hlen hnodup hroom) h256'
  refine ⟨?_, ?_, ?_⟩
  · intro s hs
    exact hcd.readStripeData_eq h256' hdown (by rw [hn]; exact hs)
  · intro s hs c hc
    exact hcd.readDataShard_eq h256' hdown (by rw [hn]; exact hs) (by rw [hk]; exact hc)
  · rintro i newStore ⟨hi, hfr, hcap⟩
    have hrec := hcd.recoverMember h256' hi hfr hcap
    refine ⟨fun hact => ?_, fun hok => ?_⟩
    · rcases hrec with ⟨heap', heq, _⟩ | ⟨hlt, _⟩
      · rw [heq]
      · -- as many members survive as are not down
        have hlen := length_survivors (some i) (by
          intro j _ heq
          rw [← Option.some.inj heq]
          exact hact)
        have hmem := hcd.wellFormed.length_members
        omega
    rcases hrec with ⟨heap', heq, hcd'⟩ | ⟨_, heq⟩
    · have hsf := member_seat newStore hi
      rw [heq]
      refine ⟨by rw [hsf], by rw [hsf], fun s hs => ?_⟩
      have hs' : s < (w.array.seat i newStore).numStripes := lt_of_lt_of_eq hs hn.symm
      have hlt : i < (w.array.seat i newStore).members.length := by
        rwa [seat, length_replaceMember]
      -- The rebuilt array is a code word, and member `i` is active in it.
      have hhd := hcd'.holds s hs' i hlt (by rw [hsf])
      have hroom' := hcd'.room i hlt (by rw [hsf])
      rw [HoldsShard, shardIn, (stripeOffset_eq hs' hroom').1, hsf] at hhd
      have hrd : MemberStore.read (heap' newStore) (s * w.array.shardLen) w.array.shardLen
          = some ((⟨w.array.k, w.array.mMax⟩ : ReedSolomon).shardOf (w.contents s)
              w.array.shardLen i) := hhd
      rw [hk, hm, hl] at hrd
      exact hrd
    · rw [heq] at hok
      simp at hok

end System

/-- A heap of one-byte in-memory stores. -/
def byteHeap : ℕ → MemoryStore := fun _ => MemoryStore.ofCapacity 1 (by norm_num)

lemma byteHeap_room (p : ℕ) : 1 * 1 ≤ capacity (byteHeap p) := le_rfl

/-- A mirrored pair that lost its data member still reads it. -/
theorem ecRun_faultTolerant_mirror :
    ∃ w, EcRun (EcSystem.create 1 1 1 1 (List.range 1) byteHeap) w ∧
      (w.array.member 0).state = .faulty ∧
      w.array.readStripeData w.heap 0 = some (w.contents 0) := by
  obtain ⟨w, hrun, _, hlv, _, hstt⟩ :=
    exists_run_degraded byteHeap_room (le_refl 1) 1 le_rfl
  refine ⟨w, hrun, hstt 0 (by omega), ?_⟩
  exact (ecRun_faultTolerant 1 1 1 1 (List.range 1) byteHeap rfl nodup_range
    (fun p _ => byteHeap_room p) w hrun (by omega)).1 0 (by omega)

/-- An array of two data members and `256` parity drives, `256` of its members down: the two
survivors carry the same parity row and the stripe cannot be read. -/
theorem ecRun_wrapped_rows : ∃ w, EcRun (EcSystem.create 1 1 2 256 (List.range 2) byteHeap) w ∧
      w.array.parityLevel = 256 ∧ w.array.readStripeData w.heap 0 = none := by
  obtain ⟨w, hrun, hcd, hlv, _, hstt⟩ :=
    exists_run_degraded byteHeap_room (le_refl 256) 256 le_rfl
  refine ⟨w, hrun, hlv, ?_⟩
  obtain ⟨hk, hnum, _, hm⟩ := hrun.geometry
  have hk : w.array.k = 2 := hk
  have hnum : w.array.numStripes = 1 := hnum
  have hm : w.array.mMax = 256 := hm
  have hmem := hcd.wellFormed.length_members
  have hrs : w.array.rs = ⟨2, 256⟩ := by rw [rs, hk, hm]
  have hdown0 : (w.array.member 0).state ≠ .active := by
    rw [hstt 0 (by omega)]
    decide
  have hnot : (List.range w.array.k).all
      (fun c => decide ((w.array.member c).state = .active)) ≠ true := by
    intro hall
    rw [all_eq_true] at hall
    exact hdown0 (of_decide_eq_true (hall 0 (by rw [hk]; decide)))
  rw [readStripeData, if_neg (by omega), if_neg hnot, reconstructStripeData]
  obtain ⟨idx, hcol, hpre, _⟩ := collectSurvivors_members hcd.wellFormed
    (hcd.holds_survivors (s := 0) (by omega) none)
  rw [hcol]
  simp only []
  by_cases hlen : idx.length < w.array.k
  · rw [if_pos hlen]
  · rw [if_neg hlen, hrs]
    have hrow : ∀ i < 2, ∀ c < 2, (⟨2, 256⟩ : ReedSolomon).rowCoeff (idx.getD i 0) c = gfInv 1 := by
      intro i hi c hc
      have hi' : i < idx.length := by omega
      have hmem' : idx.getD i 0 ∈ w.array.survivors none := by
        rw [getD_eq_getElem _ _ hi']
        exact hpre.subset (getElem_mem hi')
      obtain ⟨hlt, _, hact⟩ := hcd.wellFormed.mem_survivors.mp hmem'
      have hge : ¬ idx.getD i 0 < 256 := by
        intro hlt'
        rw [hstt _ (by omega), if_pos hlt'] at hact
        simp at hact
      -- past byte `256` the Cauchy points wrap: the last two parity rows are the same row
      rw [rowCoeff, if_neg (by dsimp only; omega), cauchyCoeff_eq _ (by simp only; omega) hc]
      obtain hg | hg : idx.getD i 0 = 256 ∨ idx.getD i 0 = 257 := by omega
      · rw [hg]
        obtain rfl | rfl : c = 0 ∨ c = 1 := by omega
        · exact gfInv_zero
        · rfl
      · rw [hg]
        obtain rfl | rfl : c = 0 ∨ c = 1 := by omega
        · rfl
        · exact gfInv_zero
    exact ReedSolomon.decodeData_eq_none _ (by decide) (by decide) (by decide)
      (fun c hc => (hrow 0 (by omega) c hc).trans (hrow 1 (by omega) c hc).symm) _ _

end ClioCore.Ec
