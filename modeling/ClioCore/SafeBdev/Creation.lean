import ClioCore.SafeBdev.Writes

/-!
# What `Create` leaves

`Create` seats the configured data members, marks those the manifest records as mid-recovery,
rebuilds the allocators, restores the parity members and resumes recoveries.  This file reads each
stage back: `seatDataMembers_eq_zero` gives the state after a successful seating in closed form, and
without recoveries in progress the last stage does nothing (`resumeRecoveries_eq_self`).

A create without logs leaves a `Fresh` array, and adding parity members keeps it fresh.
-/

namespace ClioCore.SafeBdev

open Foundations List
open Ec (EcRole EcState ReedSolomon)

variable {dev dev' : PoolId → Device} {col : ℕ} {params : CreateParams}

namespace World

variable {w w' : World}

/-! ## Seating the data members -/

/-- The data member of a descriptor at column `col`. -/
def seatMember (desc : MemberBdevDesc) (col : ℕ) : MemberSlot :=
  ⟨desc.poolId, desc.poolName, desc.nodeId, .data, .active, col, false⟩

/-- All descriptors seated from column `col` on. -/
def seatAll (w : World) (descs : List MemberBdevDesc) (col : ℕ) (dev' : PoolId → Device) : World :=
  { w with
    dataClients := w.dataClients ++ descs.map (·.poolId)
    dataMembers := w.dataMembers ++ (descs.zipIdx col).map fun x => seatMember x.1 x.2
    dataAlloc := w.dataAlloc ++
      descs.map fun desc => MemberAlloc.ofCap (capSlotsOf (w.dev desc.poolId).remaining)
    dev := dev' }

/-- Devices that differ in their superblocks only. -/
def Stamped (dev dev' : PoolId → Device) : Prop :=
  ∀ p, ∃ sb, dev' p = { dev p with superblock := sb }

lemma Stamped.refl (dev : PoolId → Device) : Stamped dev dev := fun p => ⟨(dev p).superblock, rfl⟩

lemma Stamped.trans {dev'' : PoolId → Device} (h : Stamped dev dev') (h' : Stamped dev' dev'')
    : Stamped dev dev'' := by
  intro p
  obtain ⟨sb, hsb⟩ := h p
  obtain ⟨sb', hsb'⟩ := h' p
  exact ⟨sb', by rw [hsb', hsb]⟩

/-- The devices after the superblock of a pool has been stamped. -/
def stampDev (w : World) (pool : PoolId) : PoolId → Device :=
  Function.update w.dev pool { w.dev pool with superblock := some w.poolId }

lemma stamped_stampDev (w : World) (pool : PoolId) : Stamped w.dev (w.stampDev pool) := by
  intro q
  by_cases hq : q = pool
  · subst hq
    exact ⟨some w.poolId, Function.update_self ..⟩
  · exact ⟨(w.dev q).superblock, Function.update_of_ne hq ..⟩

lemma Stamped.capacity_eq (h : Stamped dev dev') (p : PoolId) :
    (dev' p).capacity = (dev p).capacity := by
  obtain ⟨sb, hsb⟩ := h p
  rw [hsb]

lemma Stamped.remaining_eq (h : Stamped dev dev') (p : PoolId) :
    (dev' p).remaining = (dev p).remaining := by
  obtain ⟨sb, hsb⟩ := h p
  rw [hsb]

/-- A superblock write that succeeds ejects nobody. -/
lemma writeDataSuperblock_true {d : ℕ} (h : (w.writeDataSuperblock d).2 = true) :
    (w.writeDataSuperblock d).1 = { w with dev := w.stampDev (w.dataClient d) } := by
  rw [writeDataSuperblock, stampSuperblock] at h ⊢
  split_ifs at h ⊢ with hok
  refine maybeFaultData_of_ne _ d ?_
  rw [hok.1]
  exact IoStatus.noConfusion

/-- One more descriptor. -/
lemma seatAll_cons (w : World) (desc : MemberBdevDesc) (rest : List MemberBdevDesc) (col : ℕ)
    {dev1 : PoolId → Device} (hdev : Stamped w.dev dev1) (dev' : PoolId → Device) :
    seatAll { pushDataMember { w with dataClients := w.dataClients ++ [desc.poolId] } desc.poolId
      desc.poolName desc.nodeId col with dev := dev1 } rest (col + 1) dev'
      = w.seatAll (desc :: rest) col dev' := by
  simp [seatAll, pushDataMember, hdev.remaining_eq, seatMember]

/-- **A seating that succeeds** seats every descriptor, and changes the devices in their superblocks
only. -/
lemma seatDataMembers_eq_zero {descs : List MemberBdevDesc} (hlen : w.dataClients.length = col)
    (h : w.seatDataMembers descs col = (w', 0)) :
    ∃ dev', w' = w.seatAll descs col dev' ∧ Stamped w.dev dev' := by
  induction descs generalizing w col with
  | nil =>
    refine ⟨w.dev, ?_, Stamped.refl _⟩
    rw [← (Prod.mk.inj h).1, seatAll]
    simp
  | cons desc rest ih =>
    rw [seatDataMembers] at h
    simp only [] at h
    split_ifs at h with hstat
    · exact absurd (Prod.mk.inj h).2 Nat.one_ne_zero
    set w2 := pushDataMember { w with dataClients := w.dataClients ++ [desc.poolId] } desc.poolId
      desc.poolName desc.nodeId col with hw2
    have hlen2 : w2.dataClients.length = col + 1 := by
      rw [hw2, pushDataMember]
      simp [hlen]
    cases hrd : w2.readSuperblock (w2.dataClient col) with
    | none =>
      rw [hrd] at h
      exact absurd (Prod.mk.inj h).2 Nat.one_ne_zero
    | some owner =>
      rw [hrd] at h
      cases owner with
      | none =>
        rcases hwr : w2.writeDataSuperblock col with ⟨w3, ok⟩
        simp only [hwr] at h
        cases ok with
        | false => exact absurd (Prod.mk.inj h).2 Nat.one_ne_zero
        | true =>
          have hw3 := writeDataSuperblock_true (by rw [hwr])
          rw [hwr] at hw3
          obtain rfl : w3 = _ := hw3
          have hlen3 : ({ w2 with dev := w2.stampDev (w2.dataClient col) } :
            World).dataClients.length = col + 1 := hlen2
          obtain ⟨dev', hres, hst⟩ := ih hlen3 h
          have hst1 : Stamped w.dev (w2.stampDev (w2.dataClient col)) :=
            w2.stamped_stampDev _
          exact ⟨dev', hres.trans (seatAll_cons w desc rest col hst1 dev'), hst1.trans hst⟩
      | some owner =>
        simp only [] at h
        split_ifs at h with hown
        · obtain ⟨dev', hres, hst⟩ := ih hlen2 h
          exact ⟨dev', hres.trans (seatAll_cons w desc rest col (Stamped.refl _) dev'), hst⟩
        · exact absurd (Prod.mk.inj h).2 (by norm_num)

/-! ## Nothing to resume -/

/-- Without a recovery in progress nothing is resumed. -/
lemma resumeRecoveries_eq_self (hdt : ∀ i, (w.dataMember i).recovering = false)
    (hpty : ∀ j, (w.parityMember j).recovering = false) : w.resumeRecoveries = w := by
  have hd : (range w.dataMembers.length).foldl resumeData w = w :=
    foldlRecOn (motive := (· = w)) _ _ rfl fun w1 hw1 i _ => by
      rw [hw1, resumeData, if_pos (hdt i)]
  rw [resumeRecoveries, hd]
  exact foldlRecOn (motive := (· = w)) _ _ rfl fun w1 hw1 j _ => by
    rw [hw1, resumeParity, if_pos (hpty j)]

/-! ## A create without logs -/

/-- Without a manifest no data member is mid-recovery. -/
lemma markRecovering_nil (w : World) (columns : ℕ) : w.markRecovering [] columns = w := by
  have hmap : (w.dataMembers.mapIdx fun i m =>
      if i < columns ∧ dataRecovering [] i = true then
        { m with state := .faulty, recovering := true }
      else m) = w.dataMembers := by
    refine ext_getElem (length_mapIdx ..) fun i h1 h2 => ?_
    rw [getElem_mapIdx, if_neg]
    rintro ⟨_, hrec⟩
    exact Bool.false_ne_true hrec
  rw [markRecovering, hmap]

/-- Replaying an empty log restores nothing. -/
lemma loadMemberManifest_nil (h : w.memberLog = []) : w.loadMemberManifest = [] := by
  rw [loadMemberManifest, h]
  split_ifs
  · rfl
  · rfl

/-- Members, clients and allocators of an array without any data. -/
structure Fresh (w : World) : Prop where
  wired : w.Wired
  bandLimited : w.BandLimited
  live_empty : ∀ d, (w.alloc d).live = ∅
  written_empty : w.writtenSlots = ∅
  dirty_empty : w.dirtySlots = ∅

/-- Seated members are not mid-recovery. -/
lemma recovering_seat (descs : List MemberBdevDesc) (col i : ℕ) :
    (((descs.zipIdx col).map fun x => seatMember x.1 x.2).getD i default).recovering = false := by
  by_cases hi : i < ((descs.zipIdx col).map fun x => seatMember x.1 x.2).length
  · rw [getD_eq_getElem _ _ hi, getElem_map]
    rfl
  · rw [getD_eq_default _ _ (not_lt.mp hi)]
    rfl

lemma compactMemberManifest_eq (w : World) :
    ∃ log, w.compactMemberManifest = { w with memberLog := log } := by
  rw [compactMemberManifest]
  split_ifs
  · exact ⟨_, rfl⟩
  · exact ⟨w.memberLog, rfl⟩

lemma persistMemberManifest_eq (w : World) :
    ∃ log, w.persistMemberManifest = { w with memberLog := log } := by
  rw [persistMemberManifest]
  split_ifs
  · exact ⟨_, rfl⟩
  · exact ⟨w.memberLog, rfl⟩

/-- The data members of a create, all seated. -/
def seated (w : World) (params : CreateParams) (dev' : PoolId → Device) : World :=
  (w.resetForCreate params).seatAll params.members 0 dev'

/-- A create that succeeds has seated its members. -/
lemma seated_of_create (h : w.create params = (w', 0)) :
    params.members ≠ [] ∧ ∃ dev', Stamped w.dev dev' ∧
      (w.resetForCreate params).seatDataMembers params.members 0 = (w.seated params dev', 0) := by
  rw [create] at h
  split_ifs at h with hemp
  · exact absurd (Prod.mk.inj h).2 Nat.one_ne_zero
  rcases hseat : (w.resetForCreate params).seatDataMembers params.members 0 with ⟨w1, rc⟩
  rw [hseat] at h
  cases rc with
  | succ rc => exact absurd (Prod.mk.inj h).2 (Nat.succ_ne_zero rc)
  | zero =>
    have hlen : (w.resetForCreate params).dataClients.length = 0 := rfl
    obtain ⟨dev', hw1, hst⟩ := seatDataMembers_eq_zero hlen hseat
    exact ⟨hemp, dev', hst, by rw [hw1]; rfl⟩

/-- The array a create without logs leaves: nothing but seated data members. -/
lemma create_of_no_logs (hlog : w.memberLog = []) (hall : w.allocLog = none)
    (h : w.create params = (w', 0)) :
    ∃ dev' allocLog memberLog, w' = { w.seated params dev' with
      allocLog := allocLog, memberLog := memberLog } ∧ Stamped w.dev dev' := by
  obtain ⟨hne, dev', hst, hseat⟩ := seated_of_create h
  have hman : (w.resetForCreate params).loadMemberManifest = [] := loadMemberManifest_nil hlog
  obtain ⟨allocLog, hal⟩ : ∃ log, (w.seated params dev').restoreAlloc =
      { w.seated params dev' with allocLog := log } := by
    rw [restoreAlloc, show (w.seated params dev').allocLog = none from hall]
    split_ifs
    · exact ⟨_, rfl⟩
    · exact ⟨some ∅, rfl⟩
  obtain ⟨memberLog, hm⟩ := compactMemberManifest_eq
    { w.seated params dev' with allocLog := allocLog }
  refine ⟨dev', allocLog, memberLog, ?_, hst⟩
  rw [create, hman] at h
  simp only [if_neg hne, hseat, markRecovering_nil, hal] at h
  refine ((Prod.mk.inj h).1.symm.trans (congrArg compactMemberManifest ?_)).trans hm
  exact resumeRecoveries_eq_self (recovering_seat params.members 0) fun j => rfl

/-- **A create without logs leaves a fresh array.** -/
lemma fresh_create (hlog : w.memberLog = []) (hall : w.allocLog = none) (hbn : w.BandLimited)
    (hnd : (params.members.map (·.poolId)).Nodup) (h : w.create params = (w', 0)) :
    w'.Fresh ∧ w'.dataClients = params.members.map (·.poolId) ∧ w'.parityClients = [] := by
  obtain ⟨dev', allocLog, memberLog, rfl, hst⟩ := create_of_no_logs hlog hall h
  refine ⟨⟨⟨?_, ?_, rfl, rfl, ?_⟩, fun p => ?_, fun d => ?_, rfl, rfl⟩, ?_, rfl⟩
  · simp [seated, seatAll, resetForCreate]
  · simp [seated, seatAll, resetForCreate]
  · simpa [seated, seatAll, resetForCreate] using hnd
  · exact (hst.capacity_eq p).trans_le (hbn p)
  · rw [alloc, seated, seatAll, resetForCreate]
    simp only [nil_append]
    by_cases hd : d < params.members.length
    · rw [getD_eq_getElem _ _ (by simpa using hd), getElem_map]
      rfl
    · rw [getD_eq_default _ _ (by simpa using hd)]
      rfl
  · simp [seated, seatAll, resetForCreate]

/-- The superblock write of a parity member changes devices and may eject the member. -/
lemma writeParitySuperblock_eq (w : World) (j : ℕ) : ∃ pm dev',
    (w.writeParitySuperblock j).1 = { w with parityMembers := pm, dev := dev' } ∧
      pm.length = w.parityMembers.length ∧ Stamped w.dev dev' := by
  have hsta : ∃ dev', (w.stampSuperblock (w.parityClient j)).1 = { w with dev := dev' } ∧
      Stamped w.dev dev' := by
    rw [stampSuperblock]
    split_ifs
    · exact ⟨_, rfl, w.stamped_stampDev _⟩
    · exact ⟨w.dev, rfl, Stamped.refl _⟩
  obtain ⟨dev', heq, hst⟩ := hsta
  rw [writeParitySuperblock]
  simp only [heq, maybeFaultParity]
  split_ifs
  · exact ⟨_, dev', rfl, length_modify .., hst⟩
  · exact ⟨w.parityMembers, dev', rfl, rfl, hst⟩

/-- Adding a parity member keeps a fresh array fresh. -/
lemma Fresh.addParityMember (h : w.Fresh) {pool : PoolId} (name : String) (node : ℕ)
    (hpo : pool ∉ w.dataClients ++ w.parityClients) :
    (w.addParityMember pool name node).1.Fresh ∧
      (w.addParityMember pool name node).1.dataClients = w.dataClients ∧
      ∀ p ∈ (w.addParityMember pool name node).1.parityClients, p ∈ w.parityClients ∨ p = pool := by
  rw [World.addParityMember]
  split_ifs with hmax
  · exact ⟨h, rfl, fun p hp => Or.inl hp⟩
  · simp only []
    set w1 := w.pushParityMember pool name node
    obtain ⟨pm, dev', heq, hpm, hst⟩ := w1.writeParitySuperblock_eq w.parityMembers.length
    rw [heq]
    obtain ⟨log, hlog⟩ := persistMemberManifest_eq { w1 with parityMembers := pm, dev := dev' }
    rw [hlog]
    have hpm' : pm.length = w.parityMembers.length + 1 := hpm.trans length_append
    have hclis : (w.parityClients ++ [pool]).length = w.parityMembers.length + 1 := by
      simp [h.wired.parityClients_length]
    have hnd : (w.dataClients ++ (w.parityClients ++ [pool])).Nodup := by
      rw [← append_assoc]
      exact nodup_append.mpr ⟨h.wired.nodup, nodup_singleton _, fun a ha b hb => by
        rw [mem_singleton.mp hb]
        rintro rfl
        exact hpo ha⟩
    refine ⟨⟨⟨h.wired.1, h.wired.2, hclis.trans hpm'.symm,
      (congrArg (· + 1) h.wired.4).trans hpm'.symm, hnd⟩, fun p => ?_, h.live_empty,
      h.written_empty, ?_⟩, rfl, fun p hp => ?_⟩
    · exact (hst.capacity_eq p).trans_le (h.bandLimited p)
    · exact Finset.union_eq_empty.mpr ⟨h.dirty_empty, h.written_empty⟩
    · exact (mem_append.mp hp).imp_right mem_singleton.mp

/-- Parity members added one after another; a refused one leaves the array as it is. -/
def addParities (w : World) (adds : List (PoolId × String × ℕ)) : World :=
  adds.foldl (fun w add => (w.addBdev true add.1 add.2.1 add.2.2).1) w

lemma Fresh.addParities {adds : List (PoolId × String × ℕ)} (h : w.Fresh)
    (hnd : (w.dataClients ++ w.parityClients ++ adds.map (·.1)).Nodup) :
    (w.addParities adds).Fresh := by
  induction adds generalizing w with
  | nil => exact h
  | cons add adds ih =>
    have hpo : add.1 ∉ w.dataClients ++ w.parityClients := by
      intro hmem
      exact (nodup_append.mp hnd).2.2 _ hmem _ (by simp) rfl
    obtain ⟨h', hdc, hpc⟩ := h.addParityMember add.2.1 add.2.2 hpo
    refine ih h' ?_
    obtain ⟨_, had, hdisj⟩ := nodup_append.mp hnd
    refine nodup_append.mpr ⟨h'.wired.nodup, (nodup_cons.mp had).2, ?_⟩
    intro p hp q hq hpq
    subst hpq
    rcases mem_append.mp hp with hp | hp
    · exact hdisj p (mem_append_left _ (hdc ▸ hp)) p (by simp [hq]) rfl
    · rcases hpc p hp with hp | rfl
      · exact hdisj p (mem_append_right _ hp) p (by simp [hq]) rfl
      · exact (nodup_cons.mp had).1 hq

end World

end ClioCore.SafeBdev
