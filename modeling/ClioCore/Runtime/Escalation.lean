import ClioCore.Runtime.Detector

/-!
# Peers that are no longer probed

A peer in state `kProbeFailed` is not probed directly and not subject to the suspicion timeout: only
the end of an indirect probe takes it out of this state.  When a direct probe times out and no other
node is alive to help, the peer is `kProbeFailed` without an indirect probe, and remains so.

* `Detector.Stuck` — a node is `kProbeFailed` and no indirect probe of it is pending.
* `Detector.Unhelped` — a direct probe times out and nobody can be asked to help.
* `Detector.Escalates` — the loop over the direct probes comes upon no such probe.

Every phase but the first leaves the nodes that are stuck as they are.
-/

namespace ClioCore.Runtime

open Foundations List Hosts PendingProbe Detector Option

namespace Detector

variable {n m target : NodeId} {f : FutureId} {now : ℕ} {order : Shuffle}
  {shuffle : NodeId → Shuffle} {b : PendingProbe} {d d' : Detector}

/-- The node waits for an indirect probe that is not pending. -/
def Stuck (d : Detector) (n : NodeId) : Prop :=
  d.hosts.getNodeState n = .probeFailed ∧ ∀ p ∈ d.pendingIndirectProbes, p.targetNodeId ≠ n

/-- The same states and indirect probes -/
lemma stuck_congr (hstt : d'.hosts.getNodeState n = .probeFailed ↔
    d.hosts.getNodeState n = .probeFailed)
    (hpd : (∃ p ∈ d'.pendingIndirectProbes, p.targetNodeId = n) ↔
      ∃ p ∈ d.pendingIndirectProbes, p.targetNodeId = n) : d'.Stuck n ↔ d.Stuck n := by
  have hno : ∀ d : Detector, (∀ p ∈ d.pendingIndirectProbes, p.targetNodeId ≠ n) ↔
      ¬ ∃ p ∈ d.pendingIndirectProbes, p.targetNodeId = n := fun d => by simp
  rw [Stuck, Stuck, hstt, hno, hno, hpd]

/-! ## The first phase -/

lemma mem_candidates : m ∈ d.candidates target ↔
    d.hosts.getNodeState m = .alive ∧ m ≠ d.self ∧ m ≠ target := by
  rw [candidates, aliveNodes, mem_filter, mem_filter, isAlive_iff]
  refine ⟨fun h => ⟨h.1.2, by simpa using h.2⟩, fun h => ⟨⟨?_, h.1⟩, by simpa using h.2⟩⟩
  have hkn : (d.hosts.getHost m).isSome := isSome_getHost_of_getNodeState_ne (by simp [h.1])
  exact AList.lookup_isSome.mp hkn

lemma getNodeState_failProbe : (d.failProbe target now).hosts.getNodeState m =
    if m = target ∧ d.hosts.getNodeState target ≠ .dead then .probeFailed
    else d.hosts.getNodeState m := by
  by_cases hdd : d.hosts.getNodeState target = .dead
  · rw [failProbe, if_neg (not_not.mpr hdd), if_neg fun h => h.2 hdd]
  · rw [failProbe, if_pos hdd, hosts_modifyHosts, getNodeState_setNodeState]
    simp [isSome_getHost_of_getNodeState_ne hdd, hdd]

lemma self_failProbe : (d.failProbe target now).self = d.self := by
  rw [failProbe]
  split_ifs
  · exact nodeId_setNodeState
  · rfl

/-- The probe times out, its target fails, and nobody probes the target from now on. -/
def Unhelped (now : ℕ) (d : Detector) (b : PendingProbe) : Prop :=
  d.isComplete b.future = false ∧ overdue b.sentAt now d.config.directProbeTimeoutSec = true ∧
    d.hosts.getNodeState b.targetNodeId ≠ .dead ∧ d.candidates b.targetNodeId = [] ∧
    ∀ p ∈ d.pendingIndirectProbes, p.targetNodeId ≠ b.targetNodeId

instance : Decidable (d.Unhelped now b) := inferInstanceAs (Decidable (_ ∧ _))

/-- Every target that fails in the loop is probed by another node. -/
def Escalates (now : ℕ) (shuffle : NodeId → Shuffle) : List PendingProbe → Detector → Prop
  | [], _ => True
  | b :: rest, d =>
    ¬ d.Unhelped now b ∧ Escalates now shuffle rest (d.checkDirectProbe now shuffle b).2

instance decidableEscalates (now : ℕ) (shuffle : NodeId → Shuffle) :
    ∀ (rest : List PendingProbe) (d : Detector), Decidable (Escalates now shuffle rest d)
  | [], _ => .isTrue trivial
  | _ :: rest, _ =>
    have := decidableEscalates now shuffle rest
    inferInstanceAs (Decidable (_ ∧ _))

lemma getNodeState_escalate {shuffle : Shuffle} :
    (d.escalate target now shuffle).hosts.getNodeState n =
    (d.failProbe target now).hosts.getNodeState n := by
  rw [escalate_eq]
  rfl

lemma stuck_escalate_self {shuffle : Shuffle} : (d.escalate target now shuffle).Stuck target ↔
    d.hosts.getNodeState target ≠ .dead ∧ d.candidates target = [] ∧
      ∀ p ∈ d.pendingIndirectProbes, p.targetNodeId ≠ target := by
  have hstt : (d.escalate target now shuffle).hosts.getNodeState target = .probeFailed ↔
      d.hosts.getNodeState target ≠ .dead := by
    rw [getNodeState_escalate, getNodeState_failProbe]
    by_cases hdd : d.hosts.getNodeState target = .dead <;> simp [hdd]
  have hnil : (d.failProbe target now).helpers target shuffle = [] ↔ d.candidates target = [] := by
    rw [helpers, take_eq_nil_iff, ← length_eq_zero_iff, (shuffle.perm _).length_eq,
      length_eq_zero_iff, or_iff_right (by decide)]
    -- a target that fails its probe is nobody's helper before or after
    simp only [eq_nil_iff_forall_not_mem, mem_candidates, getNodeState_failProbe, self_failProbe]
    refine forall_congr' fun m => not_congr ⟨fun h => ?_, fun h => ?_⟩
    · rw [if_neg fun hm => h.2.2 hm.1] at h
      exact h
    · rwa [if_neg fun hm => h.2.2 hm.1]
  rw [Stuck, hstt, ← hnil, escalate_eq]
  rw [forall_mem_append]
  generalize (d.failProbe target now).helpers target shuffle = helpers
  cases helpers with
  | nil => simp
  | cons helper helpers => simp [zipIdx_cons]

/-- A round of the loop leaves the nodes other than its target. -/
lemma stuck_checkDirectProbe_of_ne (hn : n ≠ b.targetNodeId) :
    (d.checkDirectProbe now shuffle b).2.Stuck n ↔ d.Stuck n := by
  rw [checkDirectProbe]
  split_ifs
  · refine stuck_congr ?_ ?_
    · rw [getNodeState_confirmAlive, if_neg fun h => hn h.1]
    · rw [verdict_confirmAlive.indirect]
  · refine stuck_congr ?_ ?_
    · rw [getNodeState_escalate, getNodeState_failProbe, if_neg fun h => hn h.1]
    · rw [escalate_eq]
      simp [or_and_right, exists_or, hn.symm]
  · rfl

lemma stuck_checkDirectProbe_self (h : ¬ d.Stuck b.targetNodeId) :
    (d.checkDirectProbe now shuffle b).2.Stuck b.targetNodeId ↔ d.Unhelped now b := by
  rw [checkDirectProbe, Unhelped]
  split_ifs with hcmp hove
  · exact iff_of_false (fun hs => getNodeState_confirmAlive_self_ne hs.1) (by simp [hcmp])
  · rw [stuck_escalate_self]
    simp [hcmp, hove]
  · exact iff_of_false h (by simp [hove])

variable {rest : List PendingProbe}

/-- The loop leaves the nodes that no probe in it is about. -/
lemma stuck_checkDirectProbesLoop_of_notMem (hn : n ∉ rest.map targetNodeId) :
    (checkDirectProbesLoop now shuffle rest d).2.Stuck n ↔ d.Stuck n := by
  induction rest generalizing d with
  | nil => rfl
  | cons b rest ih =>
    obtain ⟨hb, hrs⟩ := not_or.mp fun h => hn (mem_cons.mpr h)
    exact (ih hrs).trans (stuck_checkDirectProbe_of_ne hb)

/-- **The loop over the direct probes.**  If nobody was stuck before, then nobody is afterwards just
when every target that failed is probed by another node. -/
lemma forall_not_stuck_checkDirectProbesLoop
    (hnd : (rest.map targetNodeId).Nodup) (h : ∀ n, ¬ d.Stuck n) :
    (∀ n, ¬ (checkDirectProbesLoop now shuffle rest d).2.Stuck n) ↔
    Escalates now shuffle rest d := by
  induction rest generalizing d with
  | nil => exact iff_of_true h trivial
  | cons b rest ih =>
    obtain ⟨hb, hrs⟩ := nodup_cons.mp hnd
    have hsf : (d.checkDirectProbe now shuffle b).2.Stuck b.targetNodeId ↔ d.Unhelped now b :=
      stuck_checkDirectProbe_self (h b.targetNodeId)
    rw [Escalates, ← hsf]
    -- what happens to the target of `b` in its own round is final
    have hfin : (checkDirectProbesLoop now shuffle rest
        (d.checkDirectProbe now shuffle b).2).2.Stuck
        b.targetNodeId ↔ (d.checkDirectProbe now shuffle b).2.Stuck b.targetNodeId :=
      stuck_checkDirectProbesLoop_of_notMem hb
    by_cases hstu : (d.checkDirectProbe now shuffle b).2.Stuck b.targetNodeId
    · exact iff_of_false (fun hall => hall _ (hfin.mpr hstu)) fun hand => hand.1 hstu
    · have hrnd : ∀ n, ¬ (d.checkDirectProbe now shuffle b).2.Stuck n := fun n => by
        obtain rfl | hn := eq_or_ne n b.targetNodeId
        · exact hstu
        · exact (stuck_checkDirectProbe_of_ne hn).not.mpr (h n)
      exact (ih hrs hrnd).trans ⟨fun hE => ⟨hstu, hE⟩, And.right⟩

/-! ## The other phases -/

/-- The last indirect probe that fails takes its target out of `kProbeFailed`. -/
lemma suspect_self {pending : List PendingIndirectProbe}
    (h : (d.suspect target now pending).hosts.getNodeState target = .probeFailed) :
    ∃ p ∈ pending, p.targetNodeId = target := by
  rw [suspect] at h
  split_ifs at h with hany hfai
  · simpa using hany
  · rw [hosts_modifyHosts, getNodeState_setNodeState,
      if_pos ⟨rfl, isSome_getHost_of_getNodeState_ne (by simp [hfai])⟩] at h
    simp at h
  · exact absurd h hfai

/-- Whether a node is stuck with these indirect probes -/
def StuckWith (d : Detector) (pending : List PendingIndirectProbe) (n : NodeId) : Prop :=
  Stuck { d with pendingIndirectProbes := pending } n

lemma stuck_checkIndirectProbesLoop {kept rest : List PendingIndirectProbe} :
    (checkIndirectProbesLoop now kept rest d).Stuck n ↔ d.StuckWith (kept ++ rest) n := by
  induction rest generalizing kept d with
  | nil => rw [checkIndirectProbesLoop, append_nil, StuckWith]
  | cons p rest ih =>
    have hp : p ∈ kept ++ p :: rest := mem_append_right _ mem_cons_self
    rw [checkIndirectProbesLoop]
    split_ifs with hsuc hfai
    · obtain rfl | hn := eq_or_ne n p.targetNodeId
      · exact iff_of_false (fun h => getNodeState_confirmAlive_self_ne h.1) fun h => h.2 p hp rfl
      · have hstt : (d.confirmAlive p.targetNodeId p.future now
            (some p.helperNodeId)).hosts.getNodeState n =
            d.hosts.getNodeState n := by rw [getNodeState_confirmAlive, if_neg fun h => hn h.1]
        refine stuck_congr (iff_of_eq (congrArg (· = NodeState.probeFailed) hstt)) ⟨?_, ?_⟩
        · rintro ⟨q, hq, rfl⟩
          exact ⟨q, (mem_filter.mp hq).1, rfl⟩
        · rintro ⟨q, hq, rfl⟩
          exact ⟨q, mem_filter.mpr ⟨hq, by simpa using hn⟩, rfl⟩
    · rw [ih]
      obtain rfl | hn := eq_or_ne n p.targetNodeId
      · refine iff_of_false (fun h => ?_) fun h => h.2 p hp rfl
        obtain ⟨q, hq, htg⟩ := suspect_self h.1
        exact h.2 q hq htg
      · refine stuck_congr ?_ (by simp [or_and_right, exists_or, hn.symm])
        change (d.suspect _ now _).hosts.getNodeState n = _ ↔ _
        rw [suspect]
        split_ifs
        · rfl
        · rw [hosts_modifyHosts, getNodeState_setNodeState, if_neg fun h => hn h.1]
          rfl
        · rfl
    · rw [ih, append_assoc, singleton_append]

/-- A host that is declared dead was suspected. -/
lemma stuck_checkSuspicion : (d.checkSuspicion now m).Stuck n ↔ d.Stuck n := by
  rw [checkSuspicion]
  split_ifs with hsus
  · refine stuck_congr ?_ Iff.rfl
    rw [hosts_modifyHosts, getNodeState_setDead]
    split_ifs with hn
    · have hstt : d.hosts.getNodeState n = .suspected := by
        rw [hn, getNodeState]
        cases hhost : d.hosts.getHost m with
        | none => simp [hhost] at hsus
        | some host =>
          rw [hhost] at hsus
          exact (of_decide_eq_true hsus).1
      simp [hstt]
    · rfl
  · rfl

lemma stuck_checkSuspicions : (d.checkSuspicions now order).Stuck n ↔ d.Stuck n := by
  rw [checkSuspicions]
  generalize order.apply d.hosts.hostfileMap.keys = hosts
  induction hosts generalizing d with
  | nil => rfl
  | cons m hosts ih => exact ih.trans stuck_checkSuspicion

/-- Phase 5 sends a probe to a host that it may choose, or none. -/
lemma sendDirectProbe_cases : d.sendDirectProbe now order = d ∨ ∃ n idx, d.probeable n = true ∧
    d.sendDirectProbe now order = { d.asyncHeartbeat n now with probeRoundRobinIdx := idx } := by
  rw [sendDirectProbe]
  cases htg : d.nextTarget order with
  | none => exact .inl rfl
  | some e =>
    rw [nextTarget] at htg
    split_ifs at htg
    obtain ⟨i, -, hi⟩ := exists_of_findSome?_eq_some htg
    obtain ⟨n, hn, rfl⟩ := map_eq_some_iff.mp hi
    exact .inr ⟨n, _, (filter_eq_some_iff.mp hn).2, rfl⟩

lemma stuck_sendDirectProbe : (d.sendDirectProbe now order).Stuck n ↔ d.Stuck n := by
  obtain h | ⟨m, idx, -, h⟩ := sendDirectProbe_cases <;> rw [h]
  exact Iff.rfl

/-! ## Direct probes have different targets -/

lemma sublist_checkDirectProbesLoop :
    (checkDirectProbesLoop now shuffle rest d).1.Sublist rest := by
  induction rest generalizing d with
  | nil => exact Sublist.refl _
  | cons b rest ih =>
    rw [checkDirectProbesLoop]
    split_ifs
    · exact ih.cons_cons b
    · exact ih.cons b

lemma pendingDirectProbes_checkIndirectProbesLoop {kept rest : List PendingIndirectProbe} :
    (checkIndirectProbesLoop now kept rest d).pendingDirectProbes = d.pendingDirectProbes := by
  induction rest generalizing kept d with
  | nil => rfl
  | cons p rest ih =>
    rw [checkIndirectProbesLoop]
    split_ifs
    · exact verdict_confirmAlive.direct
    · exact ih.trans verdict_suspect.direct
    · exact ih

lemma checkSuspicions_keeps :
    (d.checkSuspicions now order).pendingDirectProbes = d.pendingDirectProbes ∧
      (d.checkSuspicions now order).revivals = d.revivals := by
  rw [checkSuspicions]
  generalize order.apply d.hosts.hostfileMap.keys = hosts
  induction hosts generalizing d with
  | nil => exact ⟨rfl, rfl⟩
  | cons m hosts ih =>
    have hrnd : (d.checkSuspicion now m).pendingDirectProbes = d.pendingDirectProbes ∧
        (d.checkSuspicion now m).revivals = d.revivals := by
      rw [checkSuspicion]
      split_ifs <;> exact ⟨rfl, rfl⟩
    exact ⟨ih.1.trans hrnd.1, ih.2.trans hrnd.2⟩

lemma nodup_heartbeatProbe (h : (d.pendingDirectProbes.map targetNodeId).Nodup) :
    ((d.heartbeatProbe now order shuffle).pendingDirectProbes.map targetNodeId).Nodup := by
  rw [heartbeatProbe]
  split_ifs
  · have hkp : ((d.checkPeers now order shuffle).pendingDirectProbes.map targetNodeId).Nodup := by
      have hls : (d.checkPeers now order shuffle).pendingDirectProbes =
          (checkDirectProbesLoop now shuffle d.pendingDirectProbes d).1 :=
        checkSuspicions_keeps.1.trans pendingDirectProbes_checkIndirectProbesLoop
      rw [hls]
      exact h.sublist (sublist_checkDirectProbesLoop.map _)
    obtain heq | ⟨n, idx, hn, heq⟩ := sendDirectProbe_cases <;> rw [heq]
    · exact hkp
    · have hoth := (of_decide_eq_true hn).2.2.2
      refine (map_append ..) ▸ nodup_append.mpr ⟨hkp, nodup_singleton _, ?_⟩
      rintro _ hm _ hn'
      obtain ⟨b, hb, rfl⟩ := mem_map.mp hm
      obtain rfl := mem_singleton.mp hn'
      simpa using all_eq_true.mp hoth b hb
  · exact h

/-! ## Other operations -/

/-- Probes stay pending, and a node that changes is alive or dead. -/
structure Outside (d d' : Detector) : Prop where
  direct : d'.pendingDirectProbes = d.pendingDirectProbes
  indirect : d'.pendingIndirectProbes = d.pendingIndirectProbes
  state : ∀ n, d'.hosts.getNodeState n = d.hosts.getNodeState n ∨ d'.hosts.getNodeState n = .alive ∨
    d'.hosts.getNodeState n = .dead

lemma Outside.of_hosts (hdir : d'.pendingDirectProbes = d.pendingDirectProbes)
    (hind : d'.pendingIndirectProbes = d.pendingIndirectProbes) (hhos : d'.hosts = d.hosts) :
    Outside d d' :=
  ⟨hdir, hind, fun _ => .inl (by rw [hhos])⟩

lemma Outside.trans {d'' : Detector} (h : Outside d d') (h' : Outside d' d'') : Outside d d'' where
  direct := h'.direct.trans h.direct
  indirect := h'.indirect.trans h.indirect
  state n := by
    obtain hn | hn := h'.state n
    · rw [hn]
      exact h.state n
    · exact .inr hn

lemma outside_hear : Outside d (d.hear n) := .of_hosts rfl rfl rfl

lemma outside_flushStaleState : Outside d (d.flushStaleState n) :=
  .of_hosts rfl rfl hosts_flushStaleState

lemma outside_setAlive {via : Option NodeId} {byAnswer : Bool} :
    Outside d (d.setAlive n now via byAnswer) where
  direct := rfl
  indirect := rfl
  state m := by
    rw [hosts_setAlive, getNodeState_setAlive]
    split_ifs
    · exact .inr (.inl rfl)
    · exact .inl rfl

lemma outside_reviveOrigin : Outside d (d.reviveOrigin n now) := by
  rw [reviveOrigin]
  split_ifs
  · exact outside_setAlive
  · exact .of_hosts rfl rfl rfl

lemma outside_reviveSender : Outside d (d.reviveSender n now) := by
  have hnot : Outside d (d.modifyHosts (·.noteInbound n now)) :=
    ⟨rfl, rfl, fun m => .inl getNodeState_noteInbound⟩
  rw [reviveSender]
  split_ifs
  · exact .of_hosts rfl rfl rfl
  · dsimp only
    split_ifs
    · exact (hnot.trans outside_flushStaleState).trans outside_setAlive
    · exact hnot

lemma outside_recvIn {origin : NodeId} {poolId : PoolId} :
    Outside d (d.recvIn n now origin poolId) := by
  have hrev : Outside d ((d.hear n).reviveOrigin origin now) :=
    outside_hear.trans outside_reviveOrigin
  rw [recvIn]
  split_ifs
  · exact hrev
  · exact hrev.trans outside_reviveSender

end Detector

/-- A call of `HeartbeatProbe` finds helpers for every target that fails. -/
def Op.escalates (d : Detector) : Op → Bool
  | .heartbeatProbe now _ shuffle =>
    decide (d.config.enabled = true → Detector.Escalates now shuffle d.pendingDirectProbes d)
  | _ => true

namespace Detector

variable {op : Op} {d d' : Detector}

/-- An operation is a call of `HeartbeatProbe`, or leaves the probes pending. -/
lemma step_cases (h : d.step op = some d') :
    (∃ now order shuffle, op = .heartbeatProbe now order shuffle ∧
      d' = d.forget (d.heartbeatProbe now order shuffle)) ∨ op.escalates d ∧ Outside d d' := by
  obtain ⟨e, he, rfl⟩ := map_eq_some_iff.mp h
  obtain ⟨now, order, shuffle, rfl, rfl⟩ | ⟨sender, origin, poolId, now, rfl, rfl⟩ |
      ⟨known, now, rfl, rfl⟩ |
    hpas := perform_cases he
  · exact .inl ⟨now, order, shuffle, rfl, rfl⟩
  · have hrecv : Outside d (d.recvIn sender now origin poolId) := outside_recvIn
    exact .inr ⟨rfl, hrecv.direct, hrecv.indirect, hrecv.state⟩
  · exact .inr ⟨rfl, rfl, rfl, fun n => (getNodeState_addNode known).symm.imp_right Or.inl⟩
  · cases op with
    | heartbeatProbe now order shuffle =>
      exact .inl ⟨now, order, shuffle, rfl, congrArg d.forget (some.inj he).symm⟩
    | _ => exact .inr ⟨rfl, hpas.direct, hpas.indirect, fun n =>
      (hpas.fades.state n).imp_right Or.inr⟩

lemma forall_not_stuck_step (hnd : (d.pendingDirectProbes.map targetNodeId).Nodup)
    (hd : ∀ n, ¬ d.Stuck n) (h : d.step op = some d') : (∀ n, ¬ d'.Stuck n) ↔ op.escalates d := by
  obtain ⟨now, order, shuffle, rfl, rfl⟩ | ⟨hop, hout⟩ := step_cases h
  · change (∀ n, ¬ (d.heartbeatProbe now order shuffle).Stuck n) ↔ _
    rw [heartbeatProbe]
    split_ifs with hena
    · have hpha : ∀ n, ((d.checkPeers now order shuffle).sendDirectProbe now order).Stuck n ↔
          (checkDirectProbesLoop now shuffle d.pendingDirectProbes d).2.Stuck n := fun n =>
        stuck_sendDirectProbe.trans (stuck_checkSuspicions.trans stuck_checkIndirectProbesLoop)
      simp only [hpha, Op.escalates, hena, true_implies, decide_eq_true_eq]
      exact forall_not_stuck_checkDirectProbesLoop hnd hd
    · exact iff_of_true hd (decide_eq_true fun hena' => absurd hena' hena)
  · -- only `HeartbeatProbe` leaves a node stuck
    refine iff_of_true (fun n ⟨hstt, hpd⟩ => ?_) hop
    obtain hsm | hali | hdd := hout.state n
    · exact hd n ⟨hsm ▸ hstt, hout.indirect ▸ hpd⟩
    · simp [hali] at hstt
    · simp [hdd] at hstt

lemma nodup_step (hnd : (d.pendingDirectProbes.map targetNodeId).Nodup)
    (h : d.step op = some d') : (d'.pendingDirectProbes.map targetNodeId).Nodup := by
  obtain ⟨now, order, shuffle, rfl, rfl⟩ | ⟨-, hout⟩ := step_cases h
  · exact nodup_heartbeatProbe hnd
  · rwa [hout.direct]

end Detector

/-- **When nobody gets stuck.**  Along a run, every node in state `kProbeFailed` has a pending
indirect probe in every state just when every `HeartbeatProbe` that fails a target finds a helper
for it, or an indirect probe of it is pending already. -/
theorem probeFailed_pending_iff_escalates (node : Node) (config : SwimConfig)
    (hnode : ∀ n, node.hosts.getNodeState n ≠ .probeFailed) (ops : List Op) :
    Meets Detector.step (fun d op => op.escalates d) (Detector.start node config) ops ↔
      ∀ ops' d, ops' <+: ops → runAll Detector.step (Detector.start node config) ops' = some d →
        ∀ n, d.hosts.getNodeState n = .probeFailed →
          ∃ p ∈ d.pendingIndirectProbes, p.targetNodeId = n := by
  have hexa : Meets step (fun d op => op.escalates d) (start node config) ops ↔
      ∀ ops' d, ops' <+: ops → runAll step (start node config) ops' = some d →
      ∀ n, ¬ d.Stuck n := by
    refine meets_iff_forall_reached
      (fun d => (d.pendingDirectProbes.map PendingProbe.targetNodeId).Nodup) _
      (fun _ _ _ hd h => nodup_step hd h)
      (fun _ _ _ hd hs h => forall_not_stuck_step hd hs h) (fun d op h => ?_) nodup_nil
      fun n h => hnode n h.1
    cases op with
    | heartbeatProbe now order shuffle => exact absurd h (by simp [step, perform])
    | _ => rfl
  have hpd : ∀ d : Detector, (∀ n, ¬ d.Stuck n) ↔ ∀ n, d.hosts.getNodeState n = .probeFailed →
      ∃ p ∈ d.pendingIndirectProbes, p.targetNodeId = n := fun d => by
    refine forall_congr' fun n => ?_
    rw [Detector.Stuck]
    simp
  simp only [hexa, hpd]

/-- A node of a cluster, with the admin pool -/
def member (num : ℕ) (n : NodeId) : Node :=
  { created num 32 n with pools := ⟨(∅ : AList fun _ : PoolId => PoolInfo).insert kAdminPoolId
      ((PoolInfo.create num 0).registerContainer n 1 0)⟩ }

/-- The hosts of a new cluster are alive. -/
lemma getNodeState_member_ne (num : ℕ) (self n : NodeId) :
    (member num self).hosts.getNodeState n ≠ .probeFailed := by
  have hfr : ∀ (l : List NodeId) (m : AList fun _ : NodeId => Host),
      (∀ host ∈ m.lookup n, host = {}) → ∀ host ∈ (l.foldl (fun m k => m.insert k {}) m).lookup n,
        host = {} := by
    intro l
    induction l with
    | nil => exact fun m hm => hm
    | cons k l ih =>
      refine fun m hm => ih _ fun host hhost => ?_
      obtain ⟨rfl, heq⟩ | ⟨-, hhost'⟩ := lookup_insert_eq_some.mp hhost
      · exact heq.symm
      · exact hm host hhost'
  have hall := hfr (range num) ∅ (by simp)
  rw [getNodeState, getHost]
  cases hhost : (member num self).hosts.hostfileMap.lookup n with
  | none => simp
  | some host => simp [hall host hhost]

/-- A heartbeat to the next node is sent, and has timed out 31 seconds later. -/
def unanswered : List Op :=
  [.heartbeatProbe 0 .id fun _ => .id, .sendQueued 7 (fun _ => .delivered) 0,
    .heartbeatProbe 31000000000 .id fun _ => .id]

/-- In a cluster of three, the third node is asked to probe the one that did not answer. -/
theorem probeFailed_pending_three :
    ∃ d, runAll Detector.step (Detector.start (member 3 0) {}) unanswered = some d ∧
      (∃ n, d.hosts.getNodeState n = .probeFailed) ∧
      ∀ n, d.hosts.getNodeState n = .probeFailed → ∃ p ∈ d.pendingIndirectProbes,
      p.targetNodeId = n := by
  have hok : Meets step (fun d op => op.escalates d) (start (member 3 0) {}) unanswered := by
    decide +kernel
  obtain ⟨d, hd, hstt⟩ := map_eq_some_iff.mp (show
    (runAll step (start (member 3 0) {}) unanswered).map
      (fun d => d.hosts.getNodeState 2) = some .probeFailed by decide +kernel)
  exact ⟨d, hd, ⟨2, hstt⟩,
    (probeFailed_pending_iff_escalates (member 3 0) {} (getNodeState_member_ne 3 0) unanswered).mp
      hok unanswered d prefix_rfl hd⟩

/-- **Two nodes.**  There is nobody to ask: the peer fails its probe, and no probe of it is pending.
-/
theorem probeFailed_unprobed_two :
    ∃ ops d, runAll Detector.step (Detector.start (member 2 0) {}) ops = some d ∧
      d.hosts.getNodeState 1 = .probeFailed ∧ d.pendingIndirectProbes = [] ∧
      d.pendingDirectProbes = [] := by
  obtain ⟨d, hd, hstt⟩ := map_eq_some_iff.mp (show
    (runAll step (start (member 2 0) {}) unanswered).map
      (fun d => (d.hosts.getNodeState 1, d.pendingIndirectProbes, d.pendingDirectProbes)) =
        some (.probeFailed, [], []) by decide +kernel)
  simp only [Prod.mk.injEq] at hstt
  exact ⟨unanswered, d, hd, hstt⟩

end ClioCore.Runtime
