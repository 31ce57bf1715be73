import ClioCore.Runtime.Pools

/-!
# Recovery of the containers of a dead node

When a node dies, the leader plans a new node for each container that its address maps place on the
dead node, and every live node carries the plan out (`ComputeRecoveryPlan` and `RecoverContainers`
of `admin_runtime.cc`).  All nodes change their address maps; the node that a container is assigned
to constructs and registers it, unless `GetContainer` finds it there already.

`GetContainer` answers with the local container of the pool when the node has no container with the
id it is asked for.  So a node constructs a container of a pool only while it hosts none of that
pool, and then only one.

* `RecoversAll` — what a recovery is for.
* `Outcome` — what carrying out a plan, any number of times, does to one node.

The construction and the registration of a container succeed, and the log of the address table is
left out.
-/

namespace ClioCore.Runtime

open PoolManager List Function

/-- `RecoveryAssignment`, without the names that the module is loaded with -/
structure RecoveryAssignment where
  poolId : PoolId
  containerId : ContainerId
  destNodeId : NodeId
  deadNodeId : NodeId
  deriving DecidableEq, Repr

/-- The container that is assigned. -/
def RecoveryAssignment.key (ra : RecoveryAssignment) : PoolId × ContainerId :=
  (ra.poolId, ra.containerId)

open RecoveryAssignment (key)

/-! ## The plan -/

/-- The answer of `ScheduleRecover` that leaves the choice to the planner. -/
def kAnyNode : NodeId := 2 ^ 32 - 1

section Plan

variable (alive : List NodeId) (pm : PoolManager) (scheduleRecover : Container → NodeId)
  (dead : NodeId)

variable (acc : List RecoveryAssignment × ℕ) (p : PoolId)

/-- One entry of an address map.  The plan so far comes with the number of containers that were
dealt out in turn. -/
def planContainer (info : PoolInfo) (acc : List RecoveryAssignment × ℕ)
    (entry : Σ _ : ContainerId, NodeId) : List RecoveryAssignment × ℕ :=
  if entry.2 = dead % 2 ^ 32 then
    let dest := info.localContainer.elim kAnyNode scheduleRecover
    if dest = kAnyNode then
      (acc.1 ++ [⟨p, entry.1, alive.getD (acc.2 % alive.length) 0 % 2 ^ 32, dead % 2 ^ 32⟩],
        acc.2 + 1)
    else (acc.1 ++ [⟨p, entry.1, dest, dead % 2 ^ 32⟩], acc.2)
  else acc

/-- One pool.  The admin pool is never moved. -/
def planPool : List RecoveryAssignment × ℕ :=
  if p = kAdminPoolId then acc
  else match pm.getPoolInfo p with
    | none => acc
    | some info =>
      info.addressMap.entries.foldl (planContainer alive scheduleRecover dead p info) acc

/-- `ComputeRecoveryPlan` -/
def computeRecoveryPlan : List RecoveryAssignment :=
  if alive = [] then []
  else (pm.poolMetadata.keys.foldl (planPool alive pm scheduleRecover dead) ([], 0)).1

/-- The containers of a pool that an address map places on the dead node. -/
def lostContainers : List (PoolId × ContainerId) :=
  if p = kAdminPoolId then []
  else match pm.getPoolInfo p with
    | none => []
    | some info =>
      (info.addressMap.entries.filter fun e => e.2 = dead % 2 ^ 32).map fun e => (p, e.1)

variable {alive pm scheduleRecover dead}

lemma keys_foldl_planPool (ps : List PoolId) (acc : List RecoveryAssignment × ℕ) :
    (ps.foldl (planPool alive pm scheduleRecover dead) acc).1.map key =
      acc.1.map key ++ ps.flatMap (lostContainers pm dead) := by
  induction ps generalizing acc with
  | nil => simp
  | cons p rest ih =>
    have hstp : (planPool alive pm scheduleRecover dead acc p).1.map key =
        acc.1.map key ++ lostContainers pm dead p := by
      rw [planPool, lostContainers]
      split_ifs with hp
      · simp
      · split
        · simp
        · next info _ =>
          generalize info.addressMap.entries = entries
          induction entries generalizing acc with
          | nil => simp
          | cons e entries ih =>
            rw [foldl_cons, ih]
            by_cases he : e.2 = dead % 2 ^ 32
            · rw [filter_cons_of_pos (by simpa using he), planContainer]
              dsimp only
              split_ifs <;> simp [key]
            · rw [filter_cons_of_neg (by simpa using he), planContainer, if_neg he]
    rw [foldl_cons, ih, hstp, flatMap_cons, append_assoc]

lemma fst_of_mem_lostContainers {p : PoolId} {k : PoolId × ContainerId}
    (h : k ∈ lostContainers pm dead p) : k.1 = p ∧ (pm.getPoolInfo p).isSome := by
  rw [lostContainers] at h
  split_ifs at h with hp
  · simp at h
  · split at h
    · simp at h
    · next info hin =>
        obtain ⟨e, -, rfl⟩ := mem_map.mp h
        exact ⟨rfl, by rw [hin]; rfl⟩

lemma nodup_lostContainers : (lostContainers pm dead p).Nodup := by
  rw [lostContainers]
  split_ifs
  · exact nodup_nil
  · split
    · exact nodup_nil
    · next info hin =>
        have hks : (info.addressMap.entries.map Sigma.fst).Nodup := info.addressMap.keys_nodup
        have hsome := (filter_sublist (p := fun e => decide (e.2 = dead % 2 ^ 32))
          (l := info.addressMap.entries)).map Sigma.fst
        have hcon := (hsome.nodup hks).map (f := fun c => (p, c)) fun a b h => (Prod.mk.inj h).2
        rwa [map_map] at hcon

/-- A plan assigns each container once. -/
lemma nodup_keys_computeRecoveryPlan :
    ((computeRecoveryPlan alive pm scheduleRecover dead).map key).Nodup := by
  rw [computeRecoveryPlan]
  split_ifs
  · exact nodup_nil
  · rw [keys_foldl_planPool, map_nil, nil_append, nodup_flatMap]
    refine ⟨fun p _ => nodup_lostContainers p, pm.poolMetadata.keys_nodup.imp ?_⟩
    intro p q hpq k hp hq
    exact hpq ((fst_of_mem_lostContainers hp).1.symm.trans (fst_of_mem_lostContainers hq).1)

lemma poolId_of_mem_computeRecoveryPlan {ra : RecoveryAssignment}
    (h : ra ∈ computeRecoveryPlan alive pm scheduleRecover dead) :
    (pm.getPoolInfo ra.poolId).isSome := by
  rw [computeRecoveryPlan] at h
  split_ifs at h
  · simp at h
  · have hkey := mem_map_of_mem (f := key) h
    rw [keys_foldl_planPool, map_nil, nil_append, mem_flatMap] at hkey
    obtain ⟨p, -, hp⟩ := hkey
    obtain ⟨hfst, hsome⟩ := fst_of_mem_lostContainers hp
    exact (show ra.poolId = p from hfst) ▸ hsome

end Plan

/-! ## Carrying out the plan -/

/-- A live node that takes part in a recovery. -/
structure Survivor where
  nodeId : NodeId
  pools : PoolManager
  nextObject : ℕ := 0
  /-- the containers that recovery constructed here -/
  built : List (PoolId × ContainerId) := []

/-- One assignment of `RecoverContainers` -/
def recoverOne (s : Survivor) (ra : RecoveryAssignment) : Survivor :=
  let pools := s.pools.updateContainerNodeMapping ra.poolId ra.containerId ra.destNodeId
  if ra.destNodeId ≠ s.nodeId then { s with pools := pools }
  else if (pools.getContainer ra.poolId ra.containerId).isSome then { s with pools := pools }
  else
    { s with
      pools := pools.registerContainer ra.poolId ra.containerId s.nextObject (s.nextObject + 1)
      nextObject := s.nextObject + 2
      built := s.built ++ [ra.key] }

variable (live : List NodeId) (plan : List RecoveryAssignment) (cluster : NodeId → Survivor)

/-- `RecoverContainers` -/
def recoverContainers (s : Survivor) : Survivor := plan.foldl recoverOne s

/-- The nodes named by `runs` carry the plan out, one after the other. -/
def recoverOn (runs : List NodeId) : NodeId → Survivor :=
  runs.foldl (fun cl n => Function.update cl n (recoverContainers plan (cl n))) cluster

/-- **What a recovery is for.**  Each container of the plan is registered on exactly the node that
the address maps of the live nodes name for it, and was constructed once. -/
def RecoversAll : Prop :=
  ∀ ra ∈ plan, ∃ d ∈ live,
    (∀ n ∈ live, (cluster n).pools.getContainerNodeId ra.poolId ra.containerId = d) ∧
      (∀ n ∈ live, (cluster n).pools.hasContainer ra.poolId ra.containerId = decide (n = d)) ∧
        (live.map fun n => (cluster n).built.count ra.key).sum = 1

instance : Decidable (RecoversAll live plan cluster) :=
  inferInstanceAs (Decidable (∀ ra ∈ plan, ∃ d ∈ live, (∀ n ∈ live, _ = d) ∧
    (∀ n ∈ live, _ = decide (n = d)) ∧ _ = 1))

lemma recoverOn_apply (runs : List NodeId) (n : NodeId) :
    recoverOn plan cluster runs n = (recoverContainers plan)^[runs.count n] (cluster n) := by
  induction runs generalizing cluster with
  | nil => rfl
  | cons m rest ih =>
    rw [recoverOn, foldl_cons]
    refine (ih _).trans ?_
    obtain rfl | hm := eq_or_ne n m
    · rw [update_self, count_cons_self, iterate_succ_apply]
    · rw [update_of_ne hm, count_cons_of_ne hm.symm]

/-! ## The effect on one node -/

section Effect

variable {s : Survivor} {ra : RecoveryAssignment} {p q : PoolId} {info : PoolInfo}

@[simp] lemma nodeId_recoverOne : (recoverOne s ra).nodeId = s.nodeId := by
  rw [recoverOne]
  split_ifs <;> rfl

/-- What an assignment makes of the record of its pool. -/
def recoverInfo (s : Survivor) (ra : RecoveryAssignment) (info : PoolInfo) : PoolInfo :=
  let info := info.updateContainerNodeMapping ra.containerId ra.destNodeId
  if ra.destNodeId = s.nodeId ∧ info.localContainer = none then
    info.registerContainer ra.containerId s.nextObject (s.nextObject + 1)
  else info

/-- The node constructs a container exactly when it has no local container of the pool. -/
lemma recoverOne_known (h : s.pools.getPoolInfo ra.poolId = some info) :
    (recoverOne s ra).pools.getPoolInfo q =
        (if q = ra.poolId then some (recoverInfo s ra info) else s.pools.getPoolInfo q) ∧
      (recoverOne s ra).built =
        if ra.destNodeId = s.nodeId ∧ info.localContainer = none then s.built ++ [ra.key]
        else s.built := by
  let mapped := info.updateContainerNodeMapping ra.containerId ra.destNodeId
  let pools := s.pools.updateContainerNodeMapping ra.poolId ra.containerId ra.destNodeId
  have hps (q : PoolId) : pools.getPoolInfo q =
      if q = ra.poolId then some mapped else s.pools.getPoolInfo q := by
    rw [show pools = s.pools.modify ra.poolId _ from rfl, getPoolInfo_modify, h]
    rfl
  have hget : pools.getContainer ra.poolId ra.containerId = none ↔ info.localContainer = none := by
    rw [getContainer, hps, if_pos rfl]
    exact PoolInfo.getContainer_eq_none
  by_cases hbld : ra.destNodeId = s.nodeId ∧ info.localContainer = none
  · have hin : recoverInfo s ra info =
        mapped.registerContainer ra.containerId s.nextObject (s.nextObject + 1) := if_pos hbld
    rw [recoverOne, if_neg (not_not.mpr hbld.1),
      if_neg (by rw [hget.mpr hbld.2]; simp), if_pos hbld, hin]
    refine ⟨?_, rfl⟩
    rw [registerContainer, getPoolInfo_modify, hps, if_pos rfl, hps]
    split_ifs <;> rfl
  · have hin : recoverInfo s ra info = mapped := if_neg hbld
    have hkp : recoverOne s ra = { s with pools := pools } := by
      by_cases hdest : ra.destNodeId = s.nodeId
      · have hsome := Option.isSome_iff_ne_none.mpr fun hno => hbld ⟨hdest, hget.mp hno⟩
        rw [recoverOne, if_neg (not_not.mpr hdest), if_pos hsome]
      · rw [recoverOne, if_pos hdest]
    rw [hkp, if_neg hbld, hin]
    exact ⟨hps q, rfl⟩

/-- The assignment of a pool that a node constructs a container for. -/
def builds (n : NodeId) (p : PoolId) (info : PoolInfo) :
    Option RecoveryAssignment :=
  if info.localContainer = none then plan.find? fun ra => ra.poolId = p ∧
    ra.destNodeId = n else none

/-- The containers of a pool that recovery constructed on the node. -/
def Survivor.builtOf (s : Survivor) (p : PoolId) : List (PoolId × ContainerId) :=
  s.built.filter fun k => k.1 = p

/-- What became of one pool of the node `s` after `plan`. -/
structure Carried (s s' : Survivor) (p : PoolId) (info info' : PoolInfo) :
    Prop where
  mapped : ∀ ra ∈ plan, ra.poolId = p → info'.getContainerNodeId ra.containerId = ra.destNodeId
  unmapped : ∀ c, (p, c) ∉ plan.map key →
    info'.getContainerNodeId c = info.getContainerNodeId c
  localContainer : info'.localContainer = none ↔
    info.localContainer = none ∧ builds plan s.nodeId p info = none
  hasContainer : ∀ c, info'.hasContainer c =
    (info.hasContainer c || (builds plan s.nodeId p info).any fun ra => ra.containerId == c)
  built : s'.builtOf p = s.builtOf p ++ (builds plan s.nodeId p info).toList.map key

/-- The node `s` has become `s'` by carrying out `plan`, any number of times. -/
structure Outcome (s s' : Survivor) : Prop where
  nodeId : s'.nodeId = s.nodeId
  pools : ∀ p info, s.pools.getPoolInfo p = some info →
    ∃ info', s'.pools.getPoolInfo p = some info' ∧ Carried plan s s' p info info'

/-- One assignment. -/
lemma carried_recoverOne (hra : (s.pools.getPoolInfo ra.poolId).isSome)
    (hp : s.pools.getPoolInfo p = some info) :
    ∃ info', (recoverOne s ra).pools.getPoolInfo p = some info' ∧
      Carried [ra] s (recoverOne s ra) p info info' := by
  obtain ⟨own, hown⟩ := Option.isSome_iff_exists.mp hra
  obtain ⟨hps, hbui⟩ := recoverOne_known (q := p) hown
  by_cases hpo : ra.poolId = p
  · subst hpo
    obtain rfl : own = info := Option.some.inj (hown.symm.trans hp)
    rw [if_pos rfl] at hps
    refine ⟨_, hps, ?_⟩
    have hnod (c : ContainerId) : (recoverInfo s ra own).getContainerNodeId c =
        if c = ra.containerId then ra.destNodeId else own.getContainerNodeId c := by
      have hadr : (recoverInfo s ra own).addressMap =
          own.addressMap.insert ra.containerId ra.destNodeId := by
        rw [recoverInfo]
        split_ifs <;> rfl
      rw [PoolInfo.getContainerNodeId, hadr]
      obtain rfl | hd := eq_or_ne c ra.containerId
      · simp
      · simp [PoolInfo.getContainerNodeId, hd]
    have hmapp : ∀ a ∈ [ra], a.poolId = ra.poolId →
        (recoverInfo s ra own).getContainerNodeId a.containerId = a.destNodeId := by
      intro a ha _
      obtain rfl := mem_singleton.mp ha
      rw [hnod, if_pos rfl]
    have hunm : ∀ c, (ra.poolId, c) ∉ [ra].map key →
        (recoverInfo s ra own).getContainerNodeId c = own.getContainerNodeId c := by
      intro c hc
      rw [hnod, if_neg]
      rintro rfl
      exact hc mem_cons_self
    by_cases hbld : ra.destNodeId = s.nodeId ∧ own.localContainer = none
    · have hin : recoverInfo s ra own = (own.updateContainerNodeMapping ra.containerId
          ra.destNodeId).registerContainer ra.containerId s.nextObject (s.nextObject + 1) :=
          if_pos hbld
      have hbds : builds [ra] s.nodeId ra.poolId own = some ra := by
        rw [builds, if_pos hbld.2]
        simp [hbld.1]
      refine ⟨hmapp, hunm, ?_, fun c => ?_, ?_⟩
      · rw [hin, hbds]
        simp [PoolInfo.registerContainer]
      · have hnot : (own.updateContainerNodeMapping ra.containerId ra.destNodeId).hasContainer c =
            false :=
          PoolInfo.hasContainer_of_local hbld.2
        rw [hin, PoolInfo.hasContainer_registerContainer, hbds,
          PoolInfo.hasContainer_of_local hbld.2,
          hnot, Bool.or_false, Bool.false_or, Option.any_some, Bool.beq_comm]
      · rw [Survivor.builtOf, hbui, if_pos hbld, hbds, filter_append]
        simp [Survivor.builtOf, key]
    · have hin : recoverInfo s ra own =
          own.updateContainerNodeMapping ra.containerId ra.destNodeId :=
        if_neg hbld
      have hbds : builds [ra] s.nodeId ra.poolId own = none := by
        rw [builds]
        split_ifs with hno
        · simpa using fun hdest => hbld ⟨hdest, hno⟩
        · rfl
      refine ⟨hmapp, hunm, ?_, fun c => ?_, ?_⟩
      · rw [hin, hbds]
        simp [PoolInfo.updateContainerNodeMapping]
      · rw [hin, hbds]
        exact (Bool.or_false _).symm
      · rw [Survivor.builtOf, hbui, if_neg hbld, hbds]
        exact (append_nil _).symm
  · -- another pool keeps its record
    rw [if_neg (Ne.symm hpo), hp] at hps
    have hbds : builds [ra] s.nodeId p info = none := by
      rw [builds]
      split_ifs <;> simp [hpo]
    refine ⟨info, hps, ?_, fun c _ => rfl, by simp [hbds], fun c => by simp [hbds], ?_⟩
    · intro a ha hap
      exact absurd (mem_singleton.mp ha ▸ hap) hpo
    · rw [Survivor.builtOf, hbui, hbds]
      split_ifs <;> simp [Survivor.builtOf, key, hpo]

/-- Plans carried out one after the other, which agree where both assign a container. -/
lemma Carried.append {plan1 plan2 : List RecoveryAssignment} {s1 s2 : Survivor}
    {info1 info2 : PoolInfo}
    (hagr : ∀ a ∈ plan1, ∀ b ∈ plan2, a.key = b.key → a.destNodeId = b.destNodeId)
    (hid : s1.nodeId = s.nodeId) (h1 : Carried plan1 s s1 p info info1)
    (h2 : Carried plan2 s1 s2 p info1 info2) : Carried (plan1 ++ plan2) s s2 p info info2 := by
  have hbds : builds (plan1 ++ plan2) s.nodeId p info =
      (builds plan1 s.nodeId p info).or (builds plan2 s1.nodeId p info1) := by
    rw [hid]
    by_cases hno : info.localContainer = none
    · cases hfir : builds plan1 s.nodeId p info with
      | some a =>
        rw [builds, if_pos hno] at hfir ⊢
        rw [find?_append, hfir]
        rfl
      | none =>
        have hsti : info1.localContainer = none := h1.localContainer.mpr ⟨hno, hfir⟩
        rw [builds, if_pos hno] at hfir
        rw [builds, if_pos hno, find?_append, hfir, builds, if_pos hsti]
    · have hsti : info1.localContainer ≠ none := fun h => hno (h1.localContainer.mp h).1
      rw [builds, if_neg hno, builds, if_neg hno, builds, if_neg hsti]
      rfl
  -- a node that has built a container of the pool builds no second one
  have honce : builds plan1 s.nodeId p info = none ∨ builds plan2 s1.nodeId p info1 = none := by
    refine or_iff_not_imp_left.mpr fun hsome => ?_
    rw [builds, if_neg fun h => hsome (h1.localContainer.mp h).2]
  refine ⟨?_, ?_, ?_, fun c => ?_, ?_⟩
  · intro a ha hap
    obtain ha2 | ha1 := (mem_append.mp ha).symm
    · exact h2.mapped a ha2 hap
    · by_cases hkey : (p, a.containerId) ∈ plan2.map key
      · obtain ⟨b, hb, hbkey⟩ := mem_map.mp hkey
        obtain ⟨hbp, hbc⟩ := Prod.mk.inj hbkey
        have hsm : a.key = b.key := Prod.ext (hap.trans hbp.symm) hbc.symm
        rw [hagr a ha1 b hb hsm, ← h2.mapped b hb hbp, hbc]
      · rw [h2.unmapped _ hkey, h1.mapped a ha1 hap]
  · intro c hc
    rw [map_append, mem_append, not_or] at hc
    rw [h2.unmapped c hc.2, h1.unmapped c hc.1]
  · rw [h2.localContainer, h1.localContainer, hbds, Option.or_eq_none_iff, and_assoc]
  · rw [h2.hasContainer, h1.hasContainer, hbds]
    obtain h | h := honce <;> simp [h]
  · rw [h2.built, h1.built, hbds]
    obtain h | h := honce <;> simp [h]

variable {plan}

lemma outcome_nil : Outcome [] s s := by
  have hbds (n : NodeId) (p : PoolId) (info : PoolInfo) : builds [] n p info = none := by
    rw [builds, find?_nil, ite_self]
  refine ⟨rfl, fun p info hp => ⟨info, hp, ?_, fun _ _ => rfl, ?_, ?_, ?_⟩⟩ <;> simp [hbds]

section

variable (hknown : ∀ ra ∈ plan, (s.pools.getPoolInfo ra.poolId).isSome)
  (hnd : (plan.map key).Nodup)
include hknown hnd

lemma outcome_recoverContainers : Outcome plan s (recoverContainers plan s) := by
  induction plan generalizing s with
  | nil => exact outcome_nil
  | cons ra rest ih =>
    rw [map_cons, nodup_cons] at hnd
    have hra := hknown ra mem_cons_self
    have hrs := ih (fun b hb => by
      obtain ⟨info, hin⟩ := Option.isSome_iff_exists.mp (hknown b (mem_cons_of_mem _ hb))
      obtain ⟨info', hin', -⟩ := carried_recoverOne hra hin
      rw [hin']
      rfl) hnd.2
    refine ⟨hrs.nodeId.trans nodeId_recoverOne, fun p info hp => ?_⟩
    obtain ⟨info1, hin1, hone⟩ := carried_recoverOne hra hp
    obtain ⟨info2, hin2, hmore⟩ := hrs.pools p info1 hin1
    refine ⟨info2, hin2, hone.append ?_ nodeId_recoverOne hmore⟩
    intro a ha b hb hkey
    rw [mem_singleton.mp ha] at hkey
    exact absurd (hkey ▸ mem_map_of_mem hb) hnd.1

/-- A plan can be carried out again. -/
lemma Outcome.again {s' : Survivor} (h : Outcome plan s s') :
    Outcome plan s (recoverContainers plan s') := by
  have hmore : Outcome plan s' (recoverContainers plan s') :=
    outcome_recoverContainers (fun ra hra => by
    obtain ⟨info, hin⟩ := Option.isSome_iff_exists.mp (hknown ra hra)
    obtain ⟨info', hin', -⟩ := h.pools _ info hin
    rw [hin']
    rfl) hnd
  refine ⟨hmore.nodeId.trans h.nodeId, fun p info hp => ?_⟩
  obtain ⟨info1, hin1, hone⟩ := h.pools p info hp
  obtain ⟨info2, hin2, htwo⟩ := hmore.pools p info1 hin1
  have happ := hone.append (fun a ha b hb hkey => by rw [inj_on_of_nodup_map hnd ha hb hkey])
    h.nodeId htwo
  have hbds : builds (plan ++ plan) s.nodeId p info = builds plan s.nodeId p info := by
    rw [builds, builds, find?_append, Option.or_self]
  refine ⟨info2, hin2, fun a ha => happ.mapped a (mem_append_left _ ha),
    fun c hc => happ.unmapped c ?_,
    hbds ▸ happ.localContainer, fun c => hbds ▸ happ.hasContainer c, hbds ▸ happ.built⟩
  rwa [map_append, mem_append, or_self]

end

/-- A node that carries the plan out at least once. -/
lemma outcome_recoverOn {cluster : NodeId → Survivor} {runs : List NodeId}
    {n : NodeId} (hn : n ∈ runs)
    (hknown : ∀ ra ∈ plan, ((cluster n).pools.getPoolInfo ra.poolId).isSome)
    (hnd : (plan.map key).Nodup) :
    Outcome plan (cluster n) (recoverOn plan cluster runs n) := by
  have hruns (k : ℕ) : Outcome plan (cluster n) ((recoverContainers plan)^[k + 1] (cluster n)) := by
    induction k with
    | zero => exact outcome_recoverContainers hknown hnd
    | succ k ih =>
      exact iterate_succ_apply' (recoverContainers plan) (k + 1) _ ▸ ih.again hknown hnd
  obtain ⟨k, hk⟩ := Nat.exists_eq_add_one.mpr (count_pos_iff.mpr hn)
  exact recoverOn_apply plan cluster runs n ▸ hk ▸ hruns k

end Effect

/-! ## When a recovery restores what it remaps -/

/-- The destinations host nothing of the pools that are moved to them, and get one container of
each. -/
def Recoverable : Prop :=
  (∀ ra ∈ plan, ra.destNodeId ∈ live ∧
    (∀ n ∈ live, (cluster n).pools.hasContainer ra.poolId ra.containerId = false) ∧
      (cluster ra.destNodeId).pools.getContainer ra.poolId ra.containerId = none) ∧
    (plan.map fun ra => (ra.poolId, ra.destNodeId)).Nodup

instance : Decidable (Recoverable live plan cluster) :=
  inferInstanceAs (Decidable ((∀ ra ∈ plan, ra.destNodeId ∈ live ∧ (∀ n ∈ live, _ = false) ∧
    _ = none) ∧ _))

/-- The node of `n` constructs the container of `ra`. -/
def BuildsAt (ra : RecoveryAssignment) (n : NodeId) : Prop :=
  ((cluster n).pools.getPoolInfo ra.poolId).bind (builds plan n ra.poolId) = some ra

instance (ra : RecoveryAssignment) (n : NodeId) : Decidable (BuildsAt plan cluster ra n) :=
  inferInstanceAs (Decidable (((cluster n).pools.getPoolInfo ra.poolId).bind _ = some ra))

section Restores

variable {live plan cluster} {runs : List NodeId}

/-- Each element is the first of its class exactly when the classes are distinct. -/
lemma forall_find?_iff_nodup {α β : Type} [DecidableEq β] (f : α → β) {l : List α} (hl : l.Nodup) :
    (∀ a ∈ l, l.find? (fun b => f b = f a) = some a) ↔ (l.map f).Nodup := by
  constructor
  · intro h
    refine (nodup_map_iff_inj_on hl).mpr fun a ha b hb hab => ?_
    have hfir := h b hb
    rw [← hab, h a ha] at hfir
    exact Option.some.inj hfir
  · intro h a ha
    obtain ⟨b, hb⟩ : ∃ b, l.find? (fun b => f b = f a) = some b :=
      Option.isSome_iff_exists.mp (find?_isSome.mpr ⟨a, ha, by simp⟩)
    have hab : f b = f a := by simpa using find?_some hb
    rw [hb, inj_on_of_nodup_map h (mem_of_find?_eq_some hb) ha hab]

/-- The number of elements with a property that only `d` can have. -/
lemma sum_indicator {P : NodeId → Prop} [DecidablePred P] {d : NodeId} (hP : ∀ n, P n → n = d)
    {l : List NodeId} (hl : l.Nodup) :
    (l.map fun n => if P n then 1 else 0).sum = if d ∈ l ∧ P d then 1 else 0 := by
  induction l with
  | nil => simp
  | cons n rest ih =>
    rw [nodup_cons] at hl
    rw [map_cons, sum_cons, ih hl.2]
    by_cases hn : P n
    · obtain rfl := hP n hn
      simp [hl.1]
    · have hdn : P d → d ≠ n := fun hd h => hn (h ▸ hd)
      by_cases hd : P d
      · simp [hn, hdn hd]
      · simp [hn, hd]

variable {ra : RecoveryAssignment} {n : NodeId} {info : PoolInfo}

lemma of_builds {b : RecoveryAssignment} {p : PoolId} (h : builds plan n p info = some b) :
    info.localContainer = none ∧ b ∈ plan ∧ b.poolId = p ∧ b.destNodeId = n := by
  rw [builds] at h
  split_ifs at h with hno
  have hfd := find?_some h
  simp only [decide_eq_true_eq] at hfd
  exact ⟨hno, mem_of_find?_eq_some h, hfd⟩

lemma BuildsAt.dest (h : BuildsAt plan cluster ra n) : ra.destNodeId = n := by
  obtain ⟨info, -, hbds⟩ := Option.bind_eq_some_iff.mp h
  exact (of_builds hbds).2.2.2

/-- On its destination a container is constructed if the node has no local container of the pool and
nothing of the pool comes before it. -/
lemma buildsAt_dest (hin : (cluster ra.destNodeId).pools.getPoolInfo ra.poolId = some info) :
    BuildsAt plan cluster ra ra.destNodeId ↔
      (cluster ra.destNodeId).pools.getContainer ra.poolId ra.containerId = none ∧
        plan.find? (fun b => (b.poolId, b.destNodeId) = (ra.poolId, ra.destNodeId)) = some ra := by
  rw [BuildsAt, getContainer, hin, Option.bind_some, Option.bind_some,
    PoolInfo.getContainer_eq_none, builds]
  split_ifs with hno <;> simp [hno]

/-- A live node after the recovery. -/
lemma recoverOn_live (hid : (cluster n).nodeId = n) (hfresh : (cluster n).built = [])
    (hn : n ∈ runs) (hknown : ∀ ra ∈ plan, ((cluster n).pools.getPoolInfo ra.poolId).isSome)
    (hnd : (plan.map key).Nodup) (hra : ra ∈ plan) :
    (recoverOn plan cluster runs n).pools.getContainerNodeId ra.poolId ra.containerId =
      ra.destNodeId ∧ (recoverOn plan cluster runs n).pools.hasContainer ra.poolId ra.containerId =
        ((cluster n).pools.hasContainer ra.poolId ra.containerId ||
          decide (BuildsAt plan cluster ra n)) ∧
      (recoverOn plan cluster runs n).built.count ra.key = if BuildsAt plan cluster ra n then 1
      else 0 := by
  have hout := outcome_recoverOn hn hknown hnd
  obtain ⟨info, hin⟩ := Option.isSome_iff_exists.mp (hknown ra hra)
  obtain ⟨info', hin', hcar⟩ := hout.pools _ info hin
  have hbds : BuildsAt plan cluster ra n ↔ builds plan n ra.poolId info = some ra := by
    rw [BuildsAt, hin, Option.bind_some]
  have hcnt : (recoverOn plan cluster runs n).built.count ra.key =
      ((builds plan n ra.poolId info).toList.map key).count ra.key := by
    have hof : (cluster n).builtOf ra.poolId = [] := by rw [Survivor.builtOf, hfresh, filter_nil]
    rw [← count_filter (p := fun k => decide (k.1 = ra.poolId)) (by simp [key])]
    exact congrArg _ (hcar.built.trans (by rw [hof, nil_append, hid]))
  have hhas := hcar.hasContainer ra.containerId
  rw [hid] at hhas
  refine ⟨?_, ?_, ?_⟩
  · rw [getContainerNodeId, hin']
    exact hcar.mapped ra hra rfl
  · rw [hasContainer, hin', hasContainer, hin, Option.any_some, hhas]
    congr 1
    rw [Bool.eq_iff_iff, decide_eq_true_eq, hbds]
    cases hb : builds plan n ra.poolId info with
    | none => simp
    | some b =>
      obtain ⟨-, hmem, hpo, -⟩ := of_builds hb
      -- a plan assigns each container of a pool once
      have hkey : b.containerId = ra.containerId ↔ b = ra :=
        ⟨fun h => inj_on_of_nodup_map hnd hmem hra (Prod.ext hpo h), fun h => h ▸ rfl⟩
      simp [hkey]
  · rw [hcnt, if_congr hbds rfl rfl]
    cases hb : builds plan n ra.poolId info with
    | none => simp
    | some b =>
      obtain ⟨-, hmem, hpo, -⟩ := of_builds hb
      have hkey : b.key = ra.key ↔ b = ra :=
        ⟨inj_on_of_nodup_map hnd hmem hra, fun h => h ▸ rfl⟩
      simp [count_singleton, hkey]

/-- **A recovery restores what it remaps exactly when it moves single containers to nodes that host
nothing of their pool.** -/
lemma recoversAll_iff (hid : ∀ n ∈ live, (cluster n).nodeId = n)
    (hfresh : ∀ n ∈ live, (cluster n).built = []) (hlv : live.Nodup) (hruns : ∀ n ∈ live, n ∈ runs)
    (hknown : ∀ n ∈ live, ∀ ra ∈ plan, ((cluster n).pools.getPoolInfo ra.poolId).isSome)
    (hnd : (plan.map key).Nodup) :
    RecoversAll live plan (recoverOn plan cluster runs) ↔ Recoverable live plan cluster := by
  have haf {n : NodeId} (hn : n ∈ live) {ra : RecoveryAssignment} (hra : ra ∈ plan) :=
    recoverOn_live (hid n hn) (hfresh n hn) (hruns n hn) (hknown n hn) hnd hra
  have hone {ra : RecoveryAssignment} (hra : ra ∈ plan) : (∃ d ∈ live,
        (∀ n ∈ live, (recoverOn plan cluster runs n).pools.getContainerNodeId ra.poolId
          ra.containerId = d) ∧
        (∀ n ∈ live,
          (recoverOn plan cluster runs n).pools.hasContainer ra.poolId ra.containerId =
          decide (n = d)) ∧
        (live.map fun n => (recoverOn plan cluster runs n).built.count ra.key).sum = 1) ↔
      ra.destNodeId ∈ live ∧
        (∀ n ∈ live, (cluster n).pools.hasContainer ra.poolId ra.containerId = false) ∧
          BuildsAt plan cluster ra ra.destNodeId := by
    have hsum : (live.map fun n => (recoverOn plan cluster runs n).built.count ra.key).sum =
        if ra.destNodeId ∈ live ∧ BuildsAt plan cluster ra ra.destNodeId then 1 else 0 := by
      rw [← sum_indicator (fun n hn => hn.dest.symm) hlv]
      exact congrArg sum (map_congr_left fun n hn => (haf hn hra).2.2)
    constructor
    · rintro ⟨d, hd, hmap, hhas, hcnt⟩
      obtain rfl : ra.destNodeId = d := (haf hd hra).1.symm.trans (hmap d hd)
      have hbds : BuildsAt plan cluster ra ra.destNodeId := by
        by_contra hnot
        rw [hsum, if_neg (fun h => hnot h.2)] at hcnt
        exact zero_ne_one hcnt
      refine ⟨hd, fun n hn => ?_, hbds⟩
      obtain rfl | hne := eq_or_ne n ra.destNodeId
      · obtain ⟨info, hin, hb⟩ := Option.bind_eq_some_iff.mp hbds
        rw [hasContainer, hin]
        exact PoolInfo.hasContainer_of_local (of_builds hb).1
      · have hn' := hhas n hn
        rw [(haf hn hra).2.1, decide_eq_false hne, Bool.or_eq_false_iff] at hn'
        exact hn'.1
    · rintro ⟨hd, hno, hbds⟩
      refine ⟨ra.destNodeId, hd, fun n hn => (haf hn hra).1, fun n hn => ?_, ?_⟩
      · rw [(haf hn hra).2.1, hno n hn, Bool.false_or, decide_eq_decide]
        exact ⟨fun h => h.dest.symm, fun h => h ▸ hbds⟩
      · rw [hsum, if_pos ⟨hd, hbds⟩]
  have hfind := forall_find?_iff_nodup (fun ra : RecoveryAssignment => (ra.poolId, ra.destNodeId))
    (Nodup.of_map _ hnd)
  rw [Recoverable, ← hfind, ← forall₂_and]
  refine forall₂_congr fun ra hra => (hone hra).trans ?_
  constructor
  · rintro ⟨hd, hno, hbds⟩
    obtain ⟨info, hin⟩ := Option.isSome_iff_exists.mp (hknown _ hd ra hra)
    obtain ⟨hget, hfir⟩ := (buildsAt_dest hin).mp hbds
    exact ⟨⟨hd, hno, hget⟩, hfir⟩
  · rintro ⟨⟨hd, hno, hget⟩, hfir⟩
    obtain ⟨info, hin⟩ := Option.isSome_iff_exists.mp (hknown _ hd ra hra)
    exact ⟨hd, hno, (buildsAt_dest hin).mpr ⟨hget, hfir⟩⟩

/-- Each live node hosts its own container of every pool that the coordinator knows. -/
def HostsOwn (live : List NodeId) (cluster : NodeId → Survivor) (pm : PoolManager) : Prop :=
  ∀ n ∈ live, ∀ p ∈ pm.poolMetadata.keys, (cluster n).pools.hasContainer p n = true

instance (live : List NodeId) (cluster : NodeId → Survivor) (pm : PoolManager) :
    Decidable (HostsOwn live cluster pm) :=
  inferInstanceAs (Decidable (∀ n ∈ live, ∀ p ∈ pm.poolMetadata.keys, _ = true))

/-- A node that hosts a container of the pool already constructs none. -/
lemma eq_nil_of_recoverable {pm : PoolManager} (hown : HostsOwn live cluster pm)
    (hpl : ∀ ra ∈ plan, (pm.getPoolInfo ra.poolId).isSome) (h : Recoverable live plan cluster) :
    plan = [] := by
  refine eq_nil_iff_forall_not_mem.mpr fun ra hra => ?_
  obtain ⟨hd, -, hno⟩ := h.1 ra hra
  have hhas := hown _ hd ra.poolId (AList.mem_keys.mp (AList.lookup_isSome.mp (hpl ra hra)))
  rw [hasContainer, Option.any_eq_true] at hhas
  obtain ⟨info, hin, hin'⟩ := hhas
  rw [getContainer, hin, Option.bind_some, PoolInfo.getContainer_eq_none] at hno
  rw [PoolInfo.hasContainer_of_local hno] at hin'
  exact Bool.false_ne_true hin'

end Restores

/-- **Recovery.**  The coordinator plans for a dead node and every live node carries the plan out,
once or several times.  Each container of the plan is then registered on the node that all live
nodes name for it, and constructed once, exactly when the plan moves at most one container of a pool
to each node and only to nodes that have no container of that pool.  If each live node hosts its own
container of every pool, this leaves the empty plan. -/
theorem recovery_restores_iff (hosts : Hosts) (scheduleRecover : Container → NodeId) (dead : NodeId)
    (cluster : NodeId → Survivor) (runs : List NodeId)
    (hid : ∀ n ∈ hosts.aliveNodes, (cluster n).nodeId = n)
    (hfresh : ∀ n ∈ hosts.aliveNodes, (cluster n).built = [])
    (hruns : ∀ n ∈ hosts.aliveNodes, n ∈ runs)
    (hknown : ∀ n ∈ hosts.aliveNodes, ∀ p ∈ (cluster hosts.nodeId).pools.poolMetadata.keys,
      ((cluster n).pools.getPoolInfo p).isSome) :
    let live := hosts.aliveNodes
    let plan := computeRecoveryPlan live (cluster hosts.nodeId).pools scheduleRecover dead
    (RecoversAll live plan (recoverOn plan cluster runs) ↔ Recoverable live plan cluster) ∧
      (HostsOwn live cluster (cluster hosts.nodeId).pools →
        (RecoversAll live plan (recoverOn plan cluster runs) ↔ plan = [])) := by
  intro live plan
  have hpl : ∀ ra ∈ plan, ((cluster hosts.nodeId).pools.getPoolInfo ra.poolId).isSome :=
    fun ra hra => poolId_of_mem_computeRecoveryPlan hra
  have hiff : RecoversAll live plan (recoverOn plan cluster runs) ↔
      Recoverable live plan cluster := by
    refine recoversAll_iff hid hfresh (hosts.hostfileMap.keys_nodup.filter _) hruns
      (fun n hn ra hra => ?_) nodup_keys_computeRecoveryPlan
    exact hknown n hn _ (AList.mem_keys.mp (AList.lookup_isSome.mp (hpl ra hra)))
  refine ⟨hiff, fun hown => hiff.trans ⟨eq_nil_of_recoverable hown hpl, fun hnil => ?_⟩⟩
  rw [hnil]
  exact ⟨fun ra hra => absurd hra List.not_mem_nil, List.nodup_nil⟩

/-- Nodes 0 and 1 are alive, node 2 is dead. -/
def thirdDead : Hosts where
  nodeId := 0
  hostfileMap := ((∅ : AList fun _ : NodeId => Host).insert 2 { state := .dead }).insert 1 {}
  |>.insert 0 {}

/-- A pool of three containers on node `n`, which hosts its own container or none. -/
def withPool (n : NodeId) (own : Bool) : Survivor where
  nodeId := n
  pools := ⟨(∅ : AList fun _ : PoolId => PoolInfo).insert ⟨2, 0⟩
    (if own then (PoolInfo.create 3 0).registerContainer n 1 0 else PoolInfo.create 3 0)⟩
  nextObject := 2

/-- Node 1 has no container of the pool and gets the one of node 2. -/
theorem recovery_restores_toEmptyNode :
    let cluster := fun n => withPool n (n == 0)
    let plan := computeRecoveryPlan thirdDead.aliveNodes (cluster 0).pools (fun _ => 1) 2
    plan ≠ [] ∧ RecoversAll thirdDead.aliveNodes plan (recoverOn plan cluster [0, 1, 1]) := by
  refine ⟨by decide +kernel, ?_⟩
  exact (recovery_restores_iff thirdDead (fun _ => 1) 2 (fun n => withPool n (n == 0)) [0, 1, 1]
    (by decide +kernel) (by decide +kernel) (by decide +kernel) (by decide +kernel)).1.mpr
    (by decide +kernel)

/-- Nodes 0 and 1 host their own containers; container 2 is assigned to node 0, which never builds
it. -/
theorem recovery_skips_hostingNode :
    let cluster := fun n => withPool n true
    let plan := computeRecoveryPlan thirdDead.aliveNodes (cluster 0).pools (fun _ => kAnyNode) 2
    HostsOwn thirdDead.aliveNodes cluster (cluster 0).pools ∧
      plan = [⟨⟨2, 0⟩, 2, 0, 2⟩] ∧
      ¬ RecoversAll thirdDead.aliveNodes plan (recoverOn plan cluster [0, 1]) := by
  decide +kernel

end ClioCore.Runtime
