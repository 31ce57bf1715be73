import ClioCore.Foundations.Tally
import Mathlib.Tactic

/-!
# The hosts of a cluster, as one node sees them

Every node of the runtime keeps the table of the hostfile with what it believes about each host.  A
host is alive until the failure detector of `admin_runtime.cc` or a failed transmission says
otherwise.  The functions are those of `ipc_manager.cc`; the time is passed in, in nanoseconds.

The cached connections that `SetDead` drops and the epoch that both setters advance are left out:
nothing here reads them.
-/

namespace ClioCore.Runtime

open AList

abbrev NodeId := ℕ

/-- `NodeState` -/
inductive NodeState where
  | alive
  | probeFailed
  | suspected
  | dead
  deriving DecidableEq, Repr

/-- `Host`, by its node id in `hostfile_map_` -/
structure Host where
  state : NodeState := .alive
  stateChangedAt : ℕ := 0
  lastInbound : ℕ := 0
  deriving DecidableEq, Repr

/-- `hostfile_map_`, `dead_nodes_` and the id of this node -/
structure Hosts where
  nodeId : NodeId
  hostfileMap : AList (fun _ : NodeId => Host)
  deadNodes : List (NodeId × ℕ) := []

namespace Hosts

variable (h : Hosts) (n m : NodeId) (now : ℕ)

/-- `GetHost` -/
def getHost : Option Host := h.hostfileMap.lookup n

/-- `GetNumHosts` -/
def getNumHosts : ℕ := h.hostfileMap.keys.length

/-- `IsAlive` -/
def isAlive : Bool := (h.getHost n).any fun host => host.state == .alive

/-- `GetNodeState`: a node that is not in the table counts as dead. -/
def getNodeState : NodeState := (h.getHost n).elim .dead Host.state

/-- `SetNodeState` -/
def setNodeState (state : NodeState) : Hosts :=
  match h.getHost n with
  | none => h
  | some host =>
    { h with
      hostfileMap := h.hostfileMap.insert n { host with state := state, stateChangedAt := now } }

/-- `SetDead` -/
def setDead : Hosts :=
  match h.getHost n with
  | none => h
  | some host =>
    if host.state = .dead then h
    else { h.setNodeState n now .dead with deadNodes := h.deadNodes ++ [(n, now)] }

/-- `SetAlive` -/
def setAlive : Hosts :=
  match h.getHost n with
  | none => h
  | some host =>
    if host.state = .alive then h
    else { h.setNodeState n now .alive with deadNodes := h.deadNodes.filter fun e => e.1 ≠ n }

/-- `NoteInbound` -/
def noteInbound : Hosts :=
  match h.getHost n with
  | none => h
  | some host => { h with hostfileMap := h.hostfileMap.insert n { host with lastInbound := now } }

variable (known : Option NodeId) {state : NodeState}

/-- `AddNode`; `known` is the node that the table has at the address. -/
def addNode : Hosts :=
  match known with
  | some n => h.setAlive n now
  | none => { h with hostfileMap := h.hostfileMap.insert h.getNumHosts {} }

/-- The hosts of the table that are alive, in the order of the table. -/
def aliveNodes : List NodeId := h.hostfileMap.keys.filter fun n => h.isAlive n

/-- `GetNeighborhoodLeaderNodeId`: the lowest alive node of the window that `n` is in. -/
def getNeighborhoodLeaderNodeId (neighborhoodSize : ℕ) : NodeId :=
  let size := if neighborhoodSize = 0 then 1 else neighborhoodSize
  let base := h.nodeId / size * size
  ((h.aliveNodes.filter fun n => base ≤ n ∧ n < base + size).min?).getD h.nodeId

variable {h n m now}

lemma isAlive_iff : h.isAlive n = true ↔ h.getNodeState n = .alive := by
  rw [isAlive, getNodeState]
  cases h.getHost n <;> simp

lemma getHost_setNodeState : (h.setNodeState n now state).getHost m =
      if m = n then (h.getHost n).map fun host =>
      { host with state := state, stateChangedAt := now }
      else h.getHost m := by
  apply Foundations.lookup_modify
  rw [setNodeState, getHost]
  cases h.hostfileMap.lookup n <;> rfl

@[simp] lemma isSome_getHost_setNodeState :
    ((h.setNodeState n now state).getHost m).isSome = (h.getHost m).isSome := by
  rw [getHost_setNodeState]
  split_ifs with hm
  · rw [hm, Option.isSome_map]
  · rfl

@[simp] lemma isSome_getHost_setDead :
    ((h.setDead n now).getHost m).isSome = (h.getHost m).isSome := by
  rw [setDead]
  split
  · rfl
  · split_ifs
    · rfl
    · exact isSome_getHost_setNodeState

@[simp] lemma isSome_getHost_setAlive :
    ((h.setAlive n now).getHost m).isSome = (h.getHost m).isSome := by
  rw [setAlive]
  split
  · rfl
  · split_ifs
    · rfl
    · exact isSome_getHost_setNodeState

lemma getNodeState_setNodeState : (h.setNodeState n now state).getNodeState m =
      if m = n ∧ (h.getHost n).isSome then state else h.getNodeState m := by
  rw [getNodeState, getHost_setNodeState]
  obtain rfl | hm := eq_or_ne m n
  · cases hn : h.getHost m with
    | none => simp [getNodeState, hn]
    | some host => simp
  · rw [if_neg hm, if_neg fun h => hm h.1]
    rfl

/-- A node that is not in the table counts as dead before and after. -/
lemma getNodeState_setDead :
    (h.setDead n now).getNodeState m = if m = n then .dead else h.getNodeState m := by
  have hstt : ∀ host, h.getHost n = some host → h.getNodeState n = host.state := fun host hn => by
    rw [getNodeState, hn]
    rfl
  rw [setDead]
  cases hn : h.getHost n with
  | none =>
    split_ifs with hm
    · rw [hm, getNodeState, hn]
      rfl
    · rfl
  | some host =>
    dsimp only
    split_ifs with hdd hm hm
    · rw [hm, hstt host hn, hdd]
    · rfl
    · exact getNodeState_setNodeState.trans (if_pos ⟨hm, by rw [hn]; rfl⟩)
    · exact getNodeState_setNodeState.trans (if_neg fun h => hm h.1)

lemma getNodeState_setAlive : (h.setAlive n now).getNodeState m =
      if m = n ∧ (h.getHost n).isSome then .alive else h.getNodeState m := by
  rw [setAlive]
  cases hn : h.getHost n with
  | none => exact (if_neg fun h => by cases h.2).symm
  | some host =>
    dsimp only
    split_ifs with hali hm hm
    · rwa [hm.1, getNodeState, hn]
    · rfl
    · exact getNodeState_setNodeState.trans (if_pos ⟨hm.1, by rw [hn]; rfl⟩)
    · refine getNodeState_setNodeState.trans (if_neg fun h => hm ⟨h.1, rfl⟩)

lemma getHost_noteInbound : (h.noteInbound n now).getHost m =
    if m = n then (h.getHost n).map fun host => { host with lastInbound := now }
    else h.getHost m := by
  apply Foundations.lookup_modify
  rw [noteInbound, getHost]
  cases h.hostfileMap.lookup n <;> rfl

lemma getNodeState_noteInbound : (h.noteInbound n now).getNodeState m = h.getNodeState m := by
  rw [getNodeState, getHost_noteInbound, getNodeState]
  split_ifs with hm
  · rw [hm]
    cases h.getHost n <;> rfl
  · rfl

/-- A node that joins is alive, and no other changes. -/
lemma getNodeState_addNode : (h.addNode now known).getNodeState m = .alive ∨
    (h.addNode now known).getNodeState m = h.getNodeState m := by
  cases known with
  | some n =>
    rw [addNode, getNodeState_setAlive]
    split_ifs
    · exact Or.inl rfl
    · exact Or.inr rfl
  | none =>
    rw [addNode, getNodeState, getHost, getNodeState, getHost]
    obtain rfl | hm := eq_or_ne m h.getNumHosts
    · exact Or.inl (by rw [lookup_insert]; rfl)
    · exact Or.inr (by rw [lookup_insert_ne hm])

@[simp] lemma nodeId_setNodeState : (h.setNodeState n now state).nodeId = h.nodeId := by
  rw [setNodeState]
  split <;> rfl

@[simp] lemma nodeId_noteInbound : (h.noteInbound n now).nodeId = h.nodeId := by
  rw [noteInbound]
  split <;> rfl

@[simp] lemma nodeId_setDead : (h.setDead n now).nodeId = h.nodeId := by
  rw [setDead]
  split
  · rfl
  · split_ifs
    · rfl
    · exact nodeId_setNodeState

@[simp] lemma nodeId_setAlive : (h.setAlive n now).nodeId = h.nodeId := by
  rw [setAlive]
  split
  · rfl
  · split_ifs
    · rfl
    · exact nodeId_setNodeState

lemma nodeId_addNode : (h.addNode now known).nodeId = h.nodeId := by
  cases known with
  | some n => exact nodeId_setAlive
  | none => rfl

end Hosts

end ClioCore.Runtime
