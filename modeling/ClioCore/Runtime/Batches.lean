import ClioCore.Runtime.Routing

/-!
# The batch manager

Tasks with a collective query are held back on the leader of a neighborhood and grouped by pool,
method, container hash and batch key (`batch_manager.cc`).  A group of a ManyToOne task waits for a
time window, one of an AllToOne task until as many tasks have come as the pool has containers; what
decides is the mode of the first task of the group.  A group that is due is taken out and becomes
one aggregate task, unless an aggregate of its key is still running.

The manager is generic in what it keeps of a task.  A group has at least one member, which its type
says.
-/

namespace ClioCore.Runtime

/-- `GroupKey` -/
structure GroupKey where
  poolId : PoolId
  method : ℕ
  containerHash : ℕ
  batchKey : ℕ
  deriving DecidableEq, Repr

/-- `Group` -/
structure Group (T : Type) where
  members : List T
  deadlineNs : ℕ
  countBased : Bool
  nonempty : members ≠ []

/-- `groups_` and `in_flight_` -/
structure BatchManager (T : Type) where
  groups : AList (fun _ : GroupKey => Group T) := ∅
  inFlight : List GroupKey := []

namespace BatchManager

variable {T : Type} (bm : BatchManager T) (key : GroupKey) (numContainers : PoolId → ℕ) (now : ℕ)

/-- `Add` -/
def add (countBased : Bool) (batchForNs : ℕ) (task : T) : BatchManager T :=
  let group : Group T := match bm.groups.lookup key with
    | none => ⟨[task], if countBased then 0 else now + batchForNs, countBased, by simp⟩
    | some g => ⟨g.members ++ [task], g.deadlineNs, g.countBased, by simp⟩
  { bm with groups := bm.groups.insert key group }

/-- The condition of `FlushDue` on one group -/
def ready (g : Group T) : Bool :=
  if g.countBased then 0 < numContainers key.poolId && numContainers key.poolId ≤ g.members.length
  else g.deadlineNs ≤ now

/-- The group is ready and no aggregate of its key is running. -/
def isDue (e : Σ _ : GroupKey, Group T) : Bool :=
  ready e.1 numContainers now e.2 && !bm.inFlight.contains e.1

/-- `FlushDue`, up to the call of `BuildAndSubmit`: the groups that are due, and what is left. -/
def flushDue : List (Σ _ : GroupKey, Group T) × BatchManager T :=
  let due := bm.groups.entries.filter fun e => bm.isDue numContainers now e
  let left := bm.groups.entries.filter fun e => !bm.isDue numContainers now e
  (due, ⟨⟨left, bm.groups.nodupKeys.sublist List.filter_sublist⟩, due.map Sigma.fst ++ bm.inFlight⟩)

/-- The claim of a key is given up. -/
def release : BatchManager T := { bm with inFlight := bm.inFlight.filter fun k => k ≠ key }

variable {bm key numContainers now} {k : GroupKey} {g : Group T} {countBased : Bool}
  {batchForNs : ℕ} {task : T}

lemma lookup_flushDue (h : (bm.flushDue numContainers now).2.groups.lookup k = some g) :
    bm.groups.lookup k = some g := by
  have hmem := List.of_mem_dlookup h
  exact List.mem_dlookup bm.groups.nodupKeys (List.mem_filter.mp hmem).1

end BatchManager

/-- The key of a task in `Add` -/
def Task.groupKey (task : Task) : GroupKey :=
  ⟨task.poolId, task.method, task.poolQuery.hashValue, task.poolQuery.batchKey⟩

/-- `IsAllToOneMode` -/
def PoolQuery.isAllToOne (q : PoolQuery) : Bool := q.routingMode == .allToOne

end ClioCore.Runtime
