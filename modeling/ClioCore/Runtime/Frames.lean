import ClioCore.Runtime.Run2Run

/-!
# What the calls leave as it is

Two frames, each shown section by section.

* `Hosts.Fades` — hosts only die.  Every call but `SetAlive` stays within it.
* `Run2Run.Discards` — replicas are counted and origins ended, and nothing else that a probe reads
  changes.  `FlushStaleStateForNode` stays within it, and always returns.
-/

namespace ClioCore.Runtime

open Foundations Co Run2Run

/-! ## Hosts -/

/-- The table keeps its hosts, and a host that changes is dead. -/
structure Hosts.Fades (h h' : Hosts) : Prop where
  nodeId : h'.nodeId = h.nodeId
  known : ∀ n, (h'.getHost n).isSome = (h.getHost n).isSome
  state : ∀ n, h'.getNodeState n = h.getNodeState n ∨ h'.getNodeState n = .dead

namespace Hosts

lemma Fades.refl (h : Hosts) : h.Fades h := ⟨rfl, fun _ => rfl, fun _ => Or.inl rfl⟩

lemma Fades.trans {a b c : Hosts} (h : a.Fades b) (h' : b.Fades c) : a.Fades c where
  nodeId := h'.nodeId.trans h.nodeId
  known n := (h'.known n).trans (h.known n)
  state n := by
    obtain hc | hc := h'.state n
    · rw [hc]
      exact h.state n
    · exact Or.inr hc

lemma fades_setDead {h : Hosts} {n : NodeId} {now : ℕ} : h.Fades (h.setDead n now) where
  nodeId := nodeId_setDead
  known _ := isSome_getHost_setDead
  state m := by
    rw [getNodeState_setDead]
    split_ifs
    · exact Or.inr rfl
    · exact Or.inl rfl

end Hosts

namespace Run2Run

/-- Hosts only die. -/
def Fades (s s' : Run2Run) : Prop := s.node.hosts.Fades s'.node.hosts

lemma Fades.of_node {s s' : Run2Run} (h : s'.node = s.node) : Fades s s' := by
  rw [Fades, h]
  exact Hosts.Fades.refl _

lemma fades_act {α : Type} {f : Run2Run → α × Run2Run} (h : ∀ s, (f s).2.node = s.node) :
    (act f).Each Fades := each_act fun s => Fades.of_node (h s)

section Fades

variable {t : ThreadId} {key : Address} {o : OriginId} {rid : ReplicaId} {now : ℕ}

variable (s : Run2Run)

lemma node_findOrigin : (findOrigin t key s).2.node = s.node := by
  rw [findOrigin]
  split <;> rfl

lemma node_claimOrigin : (claimOrigin t key o s).2.node = s.node := by
  rw [claimOrigin]
  split <;> rfl

lemma node_markReplicaAccounted : (markReplicaAccounted t key rid s).2.node = s.node := by
  rw [markReplicaAccounted]
  split
  · rfl
  · split
    · rfl
    · split_ifs <;> rfl

lemma node_enter {task : Task} : (enter t key s task).2.node = s.node := by
  rw [enter]
  split_ifs <;> rfl

lemma fades_completeOriginTask : (completeOriginTask t key o).Each Fades := by
  refine (fades_act node_claimOrigin).bind fun b => ?_
  split_ifs
  · exact (fades_act fun _ => rfl).bind fun _ => fades_act fun _ => rfl
  · exact each_pure

lemma fades_countReplica {fate : Fate} : (countReplica t key o rid fate).Each Fades := by
  refine (fades_act fun _ => rfl).bind fun completed => (fades_act fun _ => rfl).bind fun size => ?_
  split_ifs
  · exact fades_completeOriginTask
  · exact each_pure

lemma fades_sendInTransmitReplica {query : PoolQuery} {target : NodeId} (transmit : Transmit) :
    (sendInTransmitReplica key o rid query target now transmit).Each Fades := by
  cases transmit with
  | delivered => exact each_pure
  | refused => exact fades_act fun _ => rfl
  | unreachable =>
    exact (each_act fun _ => Hosts.fades_setDead).bind fun _ => fades_act fun _ => rfl

lemma fades_sendInReplica {query : PoolQuery} {transmit : Transmit} :
    (sendInReplica t key o rid query transmit now).Each Fades := by
  refine (fades_act fun _ => rfl).bind fun dispatched => ?_
  cases dispatched with
  | unresolved => exact each_pure
  | skip => exact fades_countReplica.bind fun _ => each_pure
  | park target => exact (fades_act fun _ => rfl).bind fun _ => each_pure
  | transmit target => exact (fades_sendInTransmitReplica transmit).bind fun _ => each_pure

lemma fades_sendInLoop {transmits : ReplicaId → Transmit} (queries : List PoolQuery) :
    (sendInLoop t key o transmits now rid queries).Each Fades := by
  induction queries generalizing rid with
  | nil => exact each_pure
  | cons query queries ih => exact fades_sendInReplica.bind fun _ => ih.bind fun _ => each_pure

lemma fades_sendInOrigin {task : Task} {transmits : ReplicaId → Transmit} :
    (sendInOrigin t task key transmits now).Each Fades := by
  refine (each_await fun s _ => Fades.of_node (node_enter s)).bind fun entered => ?_
  cases entered with
  | none => exact each_pure
  | some o =>
    exact (fades_act fun _ => rfl).bind fun _ => (fades_sendInLoop _).bind fun _ =>
      (fades_act fun _ => rfl).bind fun _ => fades_act fun _ => rfl

lemma fades_recvOutDeserialize (responses : List Response) :
    (recvOutDeserialize t responses).Each Fades := by
  induction responses with
  | nil => exact each_pure
  | cons r responses ih =>
    refine (fades_act node_findOrigin).bind fun found => ?_
    cases found with
    | none => exact each_pure
    | some o =>
      refine (fades_act fun _ => rfl).bind fun size => (fades_act fun _ => rfl).bind fun known =>
        (fades_act fun _ => rfl).bind fun _ => ?_
      split_ifs
      · exact ih
      · exact each_pure

lemma fades_recvOutAggregateOne {r : Response} : (recvOutAggregateOne t r o).Each Fades := by
  refine (fades_act fun _ => rfl).bind fun size => (fades_act fun _ => rfl).bind fun known => ?_
  split_ifs
  · refine (fades_act fun _ => rfl).bind fun _ =>
      (fades_act node_markReplicaAccounted).bind fun b => ?_
    split_ifs
    · exact fades_countReplica
    · exact each_pure
  · exact each_pure

lemma fades_recvOutAggregate (responses : List Response) :
    (recvOutAggregate t responses).Each Fades := by
  induction responses with
  | nil => exact each_pure
  | cons r responses ih =>
    refine (fades_act node_findOrigin).bind fun found => ?_
    cases found with
    | none => exact ih
    | some o =>
      exact fades_recvOutAggregateOne.bind fun _ => (fades_act fun _ => rfl).bind fun _ => ih

lemma fades_recvOut {responses : List Response} : (recvOut t responses).Each Fades := by
  refine (fades_recvOutDeserialize responses).bind fun b => ?_
  split_ifs
  · exact fades_recvOutAggregate responses
  · exact each_pure

lemma fades_handleTaskProgressResult {gone : Bool} :
    (handleTaskProgressResult t key rid gone).Each Fades := by
  rw [handleTaskProgressResult]
  split_ifs
  · refine (fades_act node_markReplicaAccounted).bind fun b => ?_
    split_ifs
    · refine Co.Each.bind (fades_act fun s => ?_) fun found => ?_
      · rw [findAccounted]
        split <;> rfl
      cases found with
      | none => exact each_pure
      | some o =>
        exact (fades_act fun _ => rfl).bind fun _ => fades_countReplica.bind fun _ =>
          fades_act fun _ => rfl
    · exact each_pure
  · exact each_pure

lemma fades_handleGone (lost : List (Address × ReplicaId)) : (handleGone t lost).Each Fades := by
  induction lost with
  | nil => exact each_pure
  | cons r lost ih => exact fades_handleTaskProgressResult.bind fun _ => ih

end Fades

/-! ## Discarding -/

/-- Replicas are counted and origins ended. -/
structure Adds (s s' : Run2Run) : Prop where
  counted : ∀ o, (s.origins o).counted <+: (s'.origins o).counted
  endTasks : ∀ o, (s.origins o).endTasks ≤ (s'.origins o).endTasks
  probeResult : ∀ o, (s'.origins o).probeResult = (s.origins o).probeResult

lemma Adds.of_origins {s s' : Run2Run} (h : s'.origins = s.origins) : Adds s s' :=
  ⟨fun _ => by rw [h], fun _ => by rw [h], fun _ => by rw [h]⟩

lemma Adds.trans {a b c : Run2Run} (h : Adds a b) (h' : Adds b c) : Adds a c where
  counted o := (h.counted o).trans (h'.counted o)
  endTasks o := (h.endTasks o).trans (h'.endTasks o)
  probeResult o := (h'.probeResult o).trans (h.probeResult o)

/-- The same, and the tables of the node stay as they are. -/
structure Discards (s s' : Run2Run) : Prop extends Adds s s' where
  node : s'.node = s.node

lemma Discards.of_origins {s s' : Run2Run} (hnod : s'.node = s.node) (h : s'.origins = s.origins) :
    Discards s s' := ⟨.of_origins h, hnod⟩

lemma Discards.refl (s : Run2Run) : Discards s s := .of_origins rfl rfl

lemma Discards.trans {a b c : Run2Run} (h : Discards a b) (h' : Discards b c) : Discards a c :=
  ⟨h.toAdds.trans h'.toAdds, h'.node.trans h.node⟩

/-- A change of one origin that only adds to what was counted and ended -/
lemma Discards.modifyOrigin {s s' : Run2Run} {o : OriginId} {f : Origin → Origin}
    (hnod : s'.node = s.node) (h : s'.origins = (s.modifyOrigin o f).origins)
    (hcnt : ∀ x, x.counted <+: (f x).counted) (hend : ∀ x, x.endTasks ≤ (f x).endTasks)
    (hrs : ∀ x, (f x).probeResult = x.probeResult) : Discards s s' := by
  have hcs : ∀ o', s'.origins o' = s.origins o' ∨ s'.origins o' = f (s.origins o') := by
    intro o'
    rw [h]
    obtain rfl | hne := eq_or_ne o' o
    · exact Or.inr (Function.update_self ..)
    · exact Or.inl (Function.update_of_ne hne ..)
  refine ⟨⟨fun o' => ?_, fun o' => ?_, fun o' => ?_⟩, hnod⟩ <;> obtain ho | ho := hcs o' <;> rw [ho]
  · exact hcnt _
  · exact hend _
  · exact hrs _

section Discards

variable {t : ThreadId} {key : Address} {o : OriginId} {n : NodeId}

lemma discards_findOrigin (s : Run2Run) : Discards s (findOrigin t key s).2 := by
  rw [findOrigin]
  split
  · exact Discards.refl s
  · exact .of_origins rfl rfl

lemma discards_completeOriginTask : (completeOriginTask t key o).Prompt Discards := by
  refine .bind (prompt_act fun s => ?_) fun b => ?_
  · rw [claimOrigin]
    split <;> exact .of_origins rfl rfl
  split_ifs
  · refine (prompt_act fun s => ?_).bind fun _ => prompt_act fun s => ?_
    · exact .modifyOrigin rfl rfl (fun _ => List.prefix_rfl) (fun _ => le_rfl) fun _ => rfl
    · exact .modifyOrigin (f := fun x => { x with endTasks := x.endTasks + 1 }) rfl rfl
        (fun _ => List.prefix_rfl) (fun _ => Nat.le_succ _) fun _ => rfl
  · exact prompt_pure

lemma discards_flushRetries (entries : List RetryEntry) :
    (flushRetries t entries).Prompt Discards := by
  induction entries with
  | nil => exact prompt_pure
  | cons e entries ih =>
    refine (prompt_act discards_findOrigin).bind fun found => ?_
    cases found with
    | none => exact ih
    | some o =>
      refine (prompt_act fun s => ?_).bind fun completed =>
        (prompt_act fun s => Discards.refl s).bind fun size => ?_
      · exact .modifyOrigin (f := fun x => { x with
          completedReplicas := x.completedReplicas + 1
          counted := x.counted ++ [(e.replicaId, .discarded)] }) rfl rfl
            (fun _ => List.prefix_append ..) (fun _ => le_rfl) fun _ => rfl
      split_ifs
      · exact ih.bind fun _ => prompt_pure
      · exact (prompt_act fun _ => .of_origins rfl rfl).bind fun _ => ih

lemma discards_completeFlushed (toComplete : List (Address × OriginId)) :
    (completeFlushed t toComplete).Prompt Discards := by
  induction toComplete with
  | nil => exact prompt_pure
  | cons e toComplete ih =>
    exact discards_completeOriginTask.bind fun _ =>
      (prompt_act fun _ => .of_origins rfl rfl).bind fun _ => ih

lemma discards_flushStaleStateForNode : (flushStaleStateForNode t n).Prompt Discards :=
  (prompt_act fun _ => .of_origins rfl rfl).bind fun entries =>
    (discards_flushRetries entries).bind fun found => discards_completeFlushed found

end Discards

end Run2Run

/-! ## Calls -/

/-- Every call but `SetAlive` lets hosts only die. -/
lemma Call.program_fades {t : ThreadId} {c : Call} (hc : ∀ n now, c ≠ .setAlive n now) :
    (c.program t).Each Run2Run.Fades := by
  cases c with
  | sendIn task key transmits now => exact fades_sendInOrigin
  | recvOut responses => exact fades_recvOut
  | taskProgress key rid gone => exact fades_handleTaskProgressResult
  | retryQueues now delivers =>
    exact (fades_act fun _ => rfl).bind fun failures => fades_handleGone failures
  | scanTimeouts now =>
    exact (fades_act fun _ => rfl).bind fun lost => fades_handleGone lost
  | flush n => exact discards_flushStaleStateForNode.each.mono fun _ _ h => .of_node h.node
  | setDead n now => exact each_act fun _ => Hosts.fades_setDead
  | setAlive n now => exact absurd rfl (hc n now)

lemma Call.exec_fades {c : Call} {s s' : Run2Run} (hc : ∀ n now, c ≠ .setAlive n now)
    (h : c.exec s = some s') : Run2Run.Fades s s' := by
  obtain ⟨r, hr, rfl⟩ := Option.map_eq_some_iff.mp h
  exact (Call.program_fades hc).returns (R := Run2Run.Fades) (fun _ => Hosts.Fades.refl _)
    (fun h h' => Hosts.Fades.trans h h') s r hr

/-- `FlushStaleStateForNode` returns, and counts and ends only. -/
lemma Call.exec_flush (n : NodeId) (s : Run2Run) :
    ∃ s', (Call.flush n).exec s = some s' ∧ Run2Run.Discards s s' := by
  obtain ⟨r, hr⟩ := (discards_flushStaleStateForNode).run s
  have hret := discards_flushStaleStateForNode.each.returns Run2Run.Discards.refl
    Run2Run.Discards.trans s r hr
  exact ⟨r.2, by rw [Call.exec, Call.program, hr, Option.map_some], hret⟩

end ClioCore.Runtime
