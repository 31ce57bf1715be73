import ClioCore.Foundations.Serial
import ClioCore.Runtime.Hosts

/-!
# Pools and their containers

A pool is a service that is split into containers, spread over the nodes.  The pool manager of a
node (`pool_manager.cc`) keeps, for each pool, the containers that live on this node, the node of
every container of the pool, the *static* container, which serves stateless calls, and the *local*
container, which answers whenever no container of this node is named.

* `PoolInfo` — the record of one pool on one node.  Its field `hosted` says that a node with
  containers of the pool has a local container; every operation keeps it.
* `PoolOp`, `PoolInfo.step` — registering and unregistering containers.
* `PoolManager` — the records of all pools of a node.

A container is an object with the id it was initialised with.  Containers are registered under that
id, as at every call site.  The construction of the static container succeeds.  `containers_` is an
unordered map, so which container comes first in it is up to the caller of `unregisterContainer`.
Plugging a container, its GPU companion and the task statistics are left out.
-/

namespace ClioCore.Runtime

open Foundations Option

abbrev ContainerId := ℕ

/-- `kInvalidContainerId` -/
def kInvalidContainerId : ContainerId := 2 ^ 32 - 1

/-- `kStaticContainerId` -/
def kStaticContainerId : ContainerId := 2 ^ 32 - 2

/-- `PoolId` -/
structure PoolId where
  major : ℕ
  minor : ℕ
  deriving DecidableEq, Repr

/-- `PoolId::IsNull` -/
def PoolId.isNull (p : PoolId) : Bool := p.major == 0 && p.minor == 0

/-- `kAdminPoolId` -/
def kAdminPoolId : PoolId := ⟨1, 0⟩

/-- A container object and the id it was initialised with. -/
structure Container where
  containerId : ContainerId
  object : ℕ
  deriving DecidableEq, Repr

/-! ## The record of a pool -/

/-- `PoolInfo` -/
structure PoolInfo where
  numContainers : ℕ
  /-- the containers on this node -/
  containers : AList (fun _ : ContainerId => Container)
  /-- the node of every container of the pool -/
  addressMap : AList (fun _ : ContainerId => NodeId)
  staticContainer : Option Container
  localContainer : Option Container
  hosted : localContainer = none → containers = ∅

namespace PoolInfo

variable (info : PoolInfo) (c : ContainerId)

/-- `CreatePool` before the first container is registered: the address map of `InitAddressMap` and
the static container. -/
def create (numContainers object : ℕ) : PoolInfo where
  numContainers := numContainers
  containers := ∅
  addressMap := (List.range numContainers).foldl (fun m c => m.insert c c) ∅
  staticContainer := some ⟨kStaticContainerId, object⟩
  localContainer := none
  hosted := fun _ => rfl

/-- `EnsureStaticContainer` -/
def ensureStaticContainer (object : ℕ) : PoolInfo :=
  { info with staticContainer := some (info.staticContainer.getD ⟨kStaticContainerId, object⟩) }

/-- `RegisterContainer` -/
def registerContainer (object staticObject : ℕ) : PoolInfo :=
  let info := info.ensureStaticContainer staticObject
  { info with
    containers := info.containers.insert c ⟨c, object⟩
    localContainer := some (info.localContainer.getD ⟨c, object⟩)
    hosted := fun h => absurd h (by simp) }

/-- `RecalculateLocalContainer`, where `first` is the id that comes first in `containers_` -/
def recalculateLocalContainer (containers : AList (fun _ : ContainerId => Container))
    (staticContainer : Option Container) (first : ContainerId) : Option Container :=
  if containers.keys = [] then staticContainer else containers.lookup first

/-- `UnregisterContainer`; nothing if `first` cannot come first in what is left. -/
def unregisterContainer (first : ContainerId) : Option PoolInfo :=
  match info.containers.lookup c with
  | none => some info
  | some removed =>
    let left := info.containers.erase c
    if h : left.keys ≠ [] ∧ first ∉ left then none
    else if hlocal : info.localContainer = some removed then
      some { info with
        containers := left
        localContainer := recalculateLocalContainer left info.staticContainer first
        hosted := by
          intro hnone
          rw [recalculateLocalContainer] at hnone
          by_cases hleft : left.keys = []
          · apply AList.ext
            rw [AList.keys, List.keys, List.map_eq_nil_iff] at hleft
            rw [hleft]
            rfl
          · rw [if_neg hleft, AList.lookup_eq_none] at hnone
            exact absurd ⟨hleft, hnone⟩ h }
    else
      some { info with
        containers := left
        hosted := fun hnone => by
          rw [show left = info.containers.erase c from rfl, info.hosted hnone]
          rfl }

/-- `GetContainer`: the container with this id, and the local one if this node has no such container
-/
def getContainer : Option Container :=
  if c = kInvalidContainerId then info.localContainer
  else (info.containers.lookup c).or info.localContainer

/-- `GetRealOrStaticContainer` -/
def getRealOrStaticContainer : Option Container := info.localContainer.or info.staticContainer

/-- `HasContainer` -/
def hasContainer : Bool := (info.containers.lookup c).isSome

/-- `GetContainerNodeId` -/
def getContainerNodeId : NodeId := (info.addressMap.lookup c).getD 0

/-- `UpdateContainerNodeMapping` -/
def updateContainerNodeMapping (node : NodeId) : PoolInfo :=
  { info with addressMap := info.addressMap.insert c node }

variable {info c} {d : ContainerId} {object staticObject : ℕ}

lemma getContainer_eq_none : info.getContainer c = none ↔ info.localContainer = none := by
  constructor
  · intro h
    rw [getContainer] at h
    split_ifs at h with hc
    · exact h
    · exact (or_eq_none_iff.mp h).2
  · intro h
    rw [getContainer, h, info.hosted h]
    split_ifs <;> rfl

lemma hasContainer_of_local (h : info.localContainer = none) : info.hasContainer c = false := by
  rw [hasContainer, info.hosted h]
  rfl

lemma hasContainer_registerContainer :
    (info.registerContainer c object staticObject).hasContainer d =
    (d == c || info.hasContainer d) := by
  obtain rfl | hd := eq_or_ne d c
  · simp [hasContainer, registerContainer]
  · simp [hasContainer, registerContainer, ensureStaticContainer, hd]

end PoolInfo

/-! ## Changes to a pool on one node -/

/-- A change to the record of a pool. -/
inductive PoolOp where
  | register (c : ContainerId) (object staticObject : ℕ)
  | unregister (c first : ContainerId)
  | remap (c : ContainerId) (node : NodeId)
  deriving DecidableEq, Repr

namespace PoolInfo

/-- The record after a change; nothing if the change is not possible. -/
def step (info : PoolInfo) : PoolOp → Option PoolInfo
  | .register c object staticObject => some (info.registerContainer c object staticObject)
  | .unregister c first => info.unregisterContainer c first
  | .remap c node => some (info.updateContainerNodeMapping c node)

variable {info : PoolInfo} {op : PoolOp}

/-- The static container outlives every container of the node. -/
lemma step_keeps {info' : PoolInfo} (h : info.step op = some info') :
    info'.numContainers = info.numContainers ∧
      (info.staticContainer.isSome → info'.staticContainer.isSome) := by
  cases op with
  | register c object staticObject => exact some.inj h ▸ ⟨rfl, fun _ => rfl⟩
  | remap c node => exact some.inj h ▸ ⟨rfl, id⟩
  | unregister c first =>
    rw [step, unregisterContainer] at h
    split at h
    · exact some.inj h ▸ ⟨rfl, id⟩
    · dsimp only at h
      split_ifs at h <;> exact some.inj h ▸ ⟨rfl, id⟩

/-- A record that pool creation and later changes lead to. -/
def Reached (numContainers : ℕ) (info : PoolInfo) : Prop :=
  ∃ object ops, runAll step (create numContainers object) ops = some info

lemma Reached.spec {n : ℕ} (h : Reached n info) : info.numContainers = n ∧
    info.staticContainer.isSome := by
  obtain ⟨object, ops, hrun⟩ := h
  have hok : Meets step (fun _ _ => True) (create n object) ops :=
    meets_of_forall (fun _ _ => trivial) ops _
  refine runAll_invariant (fun i : PoolInfo => i.numContainers = n ∧ i.staticContainer.isSome) ?_
    ⟨rfl, rfl⟩ hok hrun
  intro i op _ i' hi _ hstp
  exact ⟨(step_keeps hstp).1.trans hi.1, (step_keeps hstp).2 hi.2⟩

end PoolInfo

/-! ## The pools of a node -/

/-- `pool_metadata_` -/
structure PoolManager where
  poolMetadata : AList (fun _ : PoolId => PoolInfo)

namespace PoolManager

variable (pm : PoolManager) (p : PoolId) (c : ContainerId)

/-- `GetPoolInfo` -/
def getPoolInfo : Option PoolInfo := pm.poolMetadata.lookup p

/-- `GetContainer` -/
def getContainer : Option Container := (pm.getPoolInfo p).bind fun info => info.getContainer c

/-- `GetContainerRaw` -/
def getContainerRaw : Option Container :=
  (pm.getPoolInfo p).bind fun info => info.containers.lookup c

/-- `GetStaticContainer` -/
def getStaticContainer : Option Container := (pm.getPoolInfo p).bind PoolInfo.staticContainer

/-- `GetRealOrStaticContainer` -/
def getRealOrStaticContainer : Option Container :=
  (pm.getPoolInfo p).bind PoolInfo.getRealOrStaticContainer

/-- `HasContainer` -/
def hasContainer : Bool := (pm.getPoolInfo p).any fun info => info.hasContainer c

/-- `GetContainerNodeId` -/
def getContainerNodeId : NodeId := (pm.getPoolInfo p).elim 0 fun info => info.getContainerNodeId c

/-- A change to the record of one pool, if this node knows it. -/
def modify (f : PoolInfo → PoolInfo) : PoolManager :=
  match pm.getPoolInfo p with
  | none => pm
  | some info => ⟨pm.poolMetadata.insert p (f info)⟩

/-- `RegisterContainer` -/
def registerContainer (object staticObject : ℕ) : PoolManager :=
  pm.modify p fun info => info.registerContainer c object staticObject

/-- `UpdateContainerNodeMapping` -/
def updateContainerNodeMapping (node : NodeId) : PoolManager :=
  pm.modify p fun info => info.updateContainerNodeMapping c node

variable {pm p c} {q : PoolId} {f : PoolInfo → PoolInfo}

lemma hasContainer_eq : pm.hasContainer p c = (pm.getContainerRaw p c).isSome := by
  rw [hasContainer, getContainerRaw]
  cases pm.getPoolInfo p <;> rfl

lemma getContainer_of_raw {x : Container} (hc : c ≠ kInvalidContainerId)
    (h : pm.getContainerRaw p c = some x) : pm.getContainer p c = some x := by
  obtain ⟨info, hin, hx⟩ := bind_eq_some_iff.mp h
  rw [getContainer, hin, bind_some, PoolInfo.getContainer, if_neg hc, hx]
  rfl

lemma getPoolInfo_modify :
    (pm.modify p f).getPoolInfo q = if q = p then (pm.getPoolInfo p).map f
    else pm.getPoolInfo q := by
  apply Foundations.lookup_modify
  rw [modify, getPoolInfo]
  cases pm.poolMetadata.lookup p <;> rfl

end PoolManager

end ClioCore.Runtime
