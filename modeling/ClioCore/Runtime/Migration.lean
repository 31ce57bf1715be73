import ClioCore.Runtime.Pools

/-!
# Migrating containers

`MigrateContainers` plugs the containers of a list, lets them move their state to other nodes, has
all nodes change their address tables and unregisters them.  What moves is looked up with
`GetContainer`, which answers with the local container if the node does not have the one of the
list.  A plugged container is never unplugged, also if the address tables could not be changed.

The pools do not change otherwise in the meantime.  The broadcast is its return code; destinations
and address tables are left out.
-/

namespace ClioCore.Runtime

open Foundations List PoolManager

/-- `MigrateInfo`, with the return code of the broadcast and the container that comes first in
`containers_` when this one is gone -/
structure MigrateInfo where
  poolId : PoolId
  containerId : ContainerId
  rc : ℕ
  first : ContainerId

def MigrateInfo.key (e : MigrateInfo) : PoolId × ContainerId := (e.poolId, e.containerId)

/-- `UnregisterContainer` -/
def PoolManager.unregisterContainer (pm : PoolManager) (p : PoolId) (c first : ContainerId) :
    Option PoolManager :=
  match pm.getPoolInfo p with
  | none => some pm
  | some info => (info.unregisterContainer c first).map fun info => ⟨pm.poolMetadata.insert p info⟩

/-- The pools of a node, the containers that it has plugged, those that it has told to `Migrate`,
and `num_migrated_` -/
structure Migrator where
  pools : PoolManager
  plugged : List (PoolId × ContainerId) := []
  migrated : List (PoolId × ContainerId) := []
  numMigrated : ℕ := 0

namespace Migrator

variable (m : Migrator) (e : MigrateInfo)

/-- What `GetContainer` finds -/
def found : List (PoolId × ContainerId) :=
  (m.pools.getContainer e.poolId e.containerId).toList.map fun k => (e.poolId, k.containerId)

/-- A round of `MigrateContainers` -/
def migrate : Option Migrator :=
  let m' := { m with
    plugged := (m.pools.getContainerRaw e.poolId e.containerId).toList.map (fun _ => e.key) ++
      m.plugged
    migrated := m.found e ++ m.migrated }
  if e.rc ≠ 0 then some m'
  else (m.pools.unregisterContainer e.poolId e.containerId e.first).map fun pools =>
    { m' with pools := pools, numMigrated := m.numMigrated + 1 }

/-- Containers outside the list are left alone, and those of the list whose address has not changed
go on serving. -/
structure Undisturbed (es : List MigrateInfo) (pools : PoolManager) (m : Migrator) : Prop where
  plugged : m.plugged ⊆ es.map MigrateInfo.key
  migrated : m.migrated ⊆ es.map MigrateInfo.key
  registered : ∀ p c, (p, c) ∉ es.map MigrateInfo.key →
    m.pools.getContainerRaw p c = pools.getContainerRaw p c
  serving : ∀ e ∈ es, e.rc ≠ 0 → pools.hasContainer e.poolId e.containerId = true →
    m.pools.hasContainer e.poolId e.containerId = true ∧ e.key ∉ m.plugged

end Migrator

/-- The container is no longer registered, and the others are as before. -/
lemma PoolManager.getContainerRaw_unregisterContainer {pm pm' : PoolManager} {p q : PoolId}
    {c d first : ContainerId} (h : pm.unregisterContainer p c first = some pm') :
    pm'.getContainerRaw q d = if (q, d) = (p, c) then none else pm.getContainerRaw q d := by
  rw [unregisterContainer] at h
  split at h
  · next hin =>
    rw [← Option.some.inj h]
    split_ifs with heq
    · rw [(Prod.mk.inj heq).1, getContainerRaw, hin]
      rfl
    · rfl
  · next info hin =>
    obtain ⟨info', hun, rfl⟩ := Option.map_eq_some_iff.mp h
    have hlk : info'.containers.lookup d =
        if d = c then none else info.containers.lookup d := by
      rw [PoolInfo.unregisterContainer] at hun
      split at hun
      · next hno => grind
      · dsimp only at hun
        obtain rfl | hd := eq_or_ne d c <;> split_ifs at hun <;>
          rw [← Option.some.inj hun] <;> simp [*]
    obtain rfl | hq := eq_or_ne q p
    · rw [getContainerRaw, getContainerRaw, hin]
      simp [getPoolInfo, hlk]
    · simp [getContainerRaw, getPoolInfo, hq]

namespace Migrator

variable {m m' m'' : Migrator} {e : MigrateInfo} {es : List MigrateInfo}

/-- What rounds only add to, and what they only take away from. -/
structure Later (m m' : Migrator) : Prop where
  plugged : m.plugged ⊆ m'.plugged
  migrated : m.migrated ⊆ m'.migrated
  hosted : ∀ p c, m'.pools.hasContainer p c = true → m.pools.hasContainer p c = true

lemma Later.trans (h : Later m m') (h' : Later m' m'') : Later m m'' :=
  ⟨Subset.trans h.plugged h'.plugged, Subset.trans h.migrated h'.migrated,
    fun p c hc => h.hosted p c (h'.hosted p c hc)⟩

/-- A round: it plugs the container if the node has it, and tells what it finds to migrate. -/
lemma later_of_migrate (h : m.migrate e = some m') : Later m m' ∧ m.found e ⊆ m'.migrated ∧
    (m.pools.hasContainer e.poolId e.containerId = true → e.key ∈ m'.plugged) := by
  have hplug (hin : m.pools.hasContainer e.poolId e.containerId = true) :
      e.key ∈ (m.pools.getContainerRaw e.poolId e.containerId).toList.map (fun _ => e.key) ++
      m.plugged := by
    rw [hasContainer_eq] at hin
    obtain ⟨x, hx⟩ := Option.isSome_iff_exists.mp hin
    simp [hx]
  rw [migrate] at h
  split_ifs at h
  · cases h
    exact ⟨⟨subset_append_right _ _, subset_append_right _ _, fun _ _ hc => hc⟩,
      subset_append_left _ _, hplug⟩
  · obtain ⟨pools', hun, rfl⟩ := Option.map_eq_some_iff.mp h
    refine ⟨⟨subset_append_right _ _, subset_append_right _ _, fun p c hc => ?_⟩,
      subset_append_left _ _, hplug⟩
    rw [hasContainer_eq, getContainerRaw_unregisterContainer hun] at hc
    rw [hasContainer_eq]
    split_ifs at hc
    · exact absurd hc Bool.false_ne_true
    · exact hc

/-- All rounds.  A container of the list that is still there in the end was there in its round, and
has been plugged. -/
lemma later_of_runAll (h : runAll migrate m es = some m') : Later m m' ∧ ∀ e ∈ es,
    m'.pools.hasContainer e.poolId e.containerId = true → e.key ∈ m'.plugged := by
  induction es generalizing m with
  | nil =>
    cases h
    exact ⟨⟨Subset.refl _, Subset.refl _, fun _ _ hc => hc⟩, fun e he => absurd he not_mem_nil⟩
  | cons e es ih =>
    obtain ⟨m₁, hm, hrun⟩ := Option.bind_eq_some_iff.mp h
    obtain ⟨hround, -, hplug⟩ := later_of_migrate hm
    obtain ⟨hlater, hrest⟩ := ih hrun
    refine ⟨hround.trans hlater, fun e' he' hin => ?_⟩
    rcases mem_cons.mp he' with rfl | he'
    · exact hlater.plugged (hplug (hround.hosted _ _ (hlater.hosted _ _ hin)))
    · exact hrest e' he' hin

/-- What is found in a round has migrated in the end. -/
lemma meets_found {keys : List (PoolId × ContainerId)} (h : runAll migrate m es = some m')
    (hkeys : m'.migrated ⊆ keys) : Meets migrate (fun m e => m.found e ⊆ keys) m es := by
  induction es generalizing m with
  | nil => trivial
  | cons e es ih =>
    obtain ⟨m₁, hm, hrun⟩ := Option.bind_eq_some_iff.mp h
    refine ⟨fun x hx => ?_, fun m₂ hm₂ => ?_⟩
    · exact hkeys ((later_of_runAll hrun).1.migrated ((later_of_migrate hm).2.1 hx))
    · cases hm.symm.trans hm₂
      exact ih hrun

/-- A round in which what is found is in the list. -/
lemma Undisturbed.migrate {pools : PoolManager}
    (hrc : ∀ e ∈ es, pools.hasContainer e.poolId e.containerId = true → e.rc = 0) (he : e ∈ es)
    (hm : Undisturbed es pools m) (hfound : m.found e ⊆ es.map MigrateInfo.key)
    (h : m.migrate e = some m') : Undisturbed es pools m' := by
  have hmem : e.key ∈ es.map MigrateInfo.key := mem_map_of_mem he
  have hplug : (m.pools.getContainerRaw e.poolId e.containerId).toList.map (fun _ => e.key) ++
      m.plugged ⊆ es.map MigrateInfo.key := by
    refine append_subset.mpr ⟨fun x hx => ?_, hm.plugged⟩
    obtain ⟨-, -, rfl⟩ := mem_map.mp hx
    exact hmem
  have hmig := append_subset.mpr ⟨hfound, hm.migrated⟩
  rw [Migrator.migrate] at h
  split_ifs at h
  · cases h
    exact ⟨hplug, hmig, hm.registered, fun e he hne hin => absurd (hrc e he hin) hne⟩
  · obtain ⟨pools', hun, rfl⟩ := Option.map_eq_some_iff.mp h
    refine ⟨hplug, hmig, fun p c hx => ?_, fun e he hne hin => absurd (hrc e he hin) hne⟩
    rw [← hm.registered p c hx, getContainerRaw_unregisterContainer hun, if_neg]
    exact fun heq => hx (heq ▸ hmem)

end Migrator

open Migrator

/-- **Migration** leaves the rest alone exactly if every broadcast for a container of the node
succeeds and the list has every container that `GetContainer` finds for an entry.  A container that
is found outside the list is told to migrate; one whose broadcast fails stays plugged, or has been
unregistered by an earlier entry for it. -/
theorem undisturbed_iff_found {pools : PoolManager} {es : List MigrateInfo} {m : Migrator}
    (hrun : runAll migrate { pools := pools } es = some m) :
    Undisturbed es pools m ↔
      (∀ e ∈ es, pools.hasContainer e.poolId e.containerId = true → e.rc = 0) ∧
        Meets migrate (fun m e => m.found e ⊆ es.map MigrateInfo.key) { pools := pools } es := by
  constructor
  · intro h
    refine ⟨fun e he hin => ?_, meets_found hrun h.migrated⟩
    by_contra hne
    obtain ⟨hstays, hfree⟩ := h.serving e he hne hin
    exact hfree ((later_of_runAll hrun).2 e he hstays)
  · rintro ⟨hrc, hok⟩
    refine runAll_invariant (Undisturbed es pools) (fun m e he m' hm hfound h => ?_) ?_ hok hrun
    · exact hm.migrate hrc he hfound h
    · exact ⟨nil_subset _, nil_subset _, fun _ _ _ => rfl,
        fun e he hne hin => absurd (hrc e he hin) hne⟩

/-- A node with container 0 of a pool that has two -/
def oneContainer : PoolManager :=
  ⟨(∅ : AList fun _ => PoolInfo).insert ⟨7, 0⟩ ((PoolInfo.create 2 5).registerContainer 0 6 5)⟩

/-- A node with containers 0 and 1 of a pool that has three -/
def twoContainers : PoolManager :=
  ⟨(∅ : AList fun _ => PoolInfo).insert ⟨7, 0⟩
    (((PoolInfo.create 3 5).registerContainer 0 6 5).registerContainer 1 8 5)⟩

/-- Container 1 moves, and container 0 stays. -/
theorem undisturbed_iff_found_hosted : ∃ m,
    runAll migrate { pools := twoContainers } [⟨⟨7, 0⟩, 1, 0, 0⟩] = some m ∧
      m.migrated = [(⟨7, 0⟩, 1)] ∧ Undisturbed [⟨⟨7, 0⟩, 1, 0, 0⟩] twoContainers m :=
  ⟨_, rfl, rfl, (undisturbed_iff_found rfl).mpr ⟨by decide, by decide⟩⟩

/-- The node is asked to migrate container 1, and container 0 moves; a broadcast that fails leaves
the container plugged. -/
theorem not_undisturbed_local :
    (∃ m, runAll migrate { pools := oneContainer } [⟨⟨7, 0⟩, 1, 0, 0⟩] = some m ∧
      m.migrated = [(⟨7, 0⟩, 0)] ∧ ¬ Undisturbed [⟨⟨7, 0⟩, 1, 0, 0⟩] oneContainer m) ∧
    ∃ m, runAll migrate { pools := oneContainer } [⟨⟨7, 0⟩, 0, 1, 0⟩] = some m ∧
      m.plugged = [(⟨7, 0⟩, 0)] ∧ ¬ Undisturbed [⟨⟨7, 0⟩, 0, 1, 0⟩] oneContainer m := by
  refine ⟨⟨_, rfl, rfl, fun h => ?_⟩, _, rfl, rfl, fun h => ?_⟩
  · exact absurd (h.migrated mem_cons_self) (by decide)
  · exact (h.serving _ mem_cons_self one_ne_zero rfl).2 mem_cons_self

end ClioCore.Runtime
