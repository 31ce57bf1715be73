import ClioCore.Runtime.Pools

/-!
# Routing a task to containers

A task names the containers it is for by a `PoolQuery`.  The node it is submitted on resolves the
query (`RouteTask` and the `Resolve…Query` functions of `ipc_manager.cc`) and either executes the
task or sends a copy for each resolved query (`SendIn` of `ipc_run2run.cc`).  The node that receives
a copy executes it at once: `RecvInHandleOne` marks it as routed, so it is not resolved again.

* `routeTask` — what happens to a task on one node.
* `execute` — the containers that execute a task submitted on a node, all messages being delivered.
* `Spread` — the containers of a pool are spread over the live nodes of a cluster.

The executing worker, plugged containers and the retries of a task that finds no container are left
out.
-/

namespace ClioCore.Runtime

open List

/-- `RoutingMode` -/
inductive RoutingMode where
  | localMode
  | directId
  | directHash
  | range
  | broadcast
  | physical
  | dynamic
  | toLocalCpu
  | null
  | manyToOne
  | allToOne
  deriving DecidableEq, Repr

/-- `PoolQuery` -/
structure PoolQuery where
  routingMode : RoutingMode := .localMode
  hashValue : ℕ := 0
  containerId : ContainerId := kInvalidContainerId
  rangeOffset : ℕ := 0
  rangeCount : ℕ := 0
  nodeId : NodeId := 0
  retNode : NodeId := 0
  netTimeout : ℚ := -1
  batchKey : ℕ := 0
  batchForNs : ℕ := 0
  deriving DecidableEq, Repr

namespace PoolQuery

/-- `PoolQuery::Local` -/
def localQuery : PoolQuery := {}

/-- `PoolQuery::DirectId` -/
def directId (c : ContainerId) (netTimeout : ℚ := -1) : PoolQuery :=
  { routingMode := .directId, containerId := c, netTimeout := netTimeout }

/-- `PoolQuery::DirectHash` -/
def directHash (hash : ℕ) (netTimeout : ℚ := -1) : PoolQuery :=
  { routingMode := .directHash, hashValue := hash, containerId := 0, netTimeout := netTimeout }

/-- `PoolQuery::Range` -/
def range (offset count : ℕ) (netTimeout : ℚ := -1) : PoolQuery :=
  { routingMode := .range, rangeOffset := offset, rangeCount := count, containerId := 0,
    netTimeout := netTimeout }

/-- `PoolQuery::Broadcast` -/
def broadcast (netTimeout : ℚ := -1) : PoolQuery :=
  { routingMode := .broadcast, containerId := 0, netTimeout := netTimeout }

/-- `PoolQuery::Physical` -/
def physical (node : NodeId) (netTimeout : ℚ := -1) : PoolQuery :=
  { routingMode := .physical, nodeId := node, containerId := 0, netTimeout := netTimeout }

/-- `PoolQuery::ManyToOne` -/
def manyToOne (containerHash batchKey batchForNs : ℕ) : PoolQuery :=
  { routingMode := .manyToOne, hashValue := containerHash, containerId := 0, batchKey := batchKey,
    batchForNs := batchForNs }

/-- `PoolQuery::AllToOne` -/
def allToOne (containerHash batchKey : ℕ) : PoolQuery :=
  { routingMode := .allToOne, hashValue := containerHash, containerId := 0, batchKey := batchKey }

/-- `IsCollectiveMode` -/
def isCollectiveMode (q : PoolQuery) : Bool :=
  q.routingMode == .manyToOne || q.routingMode == .allToOne

end PoolQuery

/-- What routing reads of a task and of its run context. -/
structure Task where
  poolId : PoolId
  method : ℕ := 0
  poolQuery : PoolQuery
  routed : Bool := false
  execContainer : Option Container := none
  /-- the resolved queries that `SendIn` sends copies for -/
  poolQueries : List PoolQuery := []
  deriving DecidableEq, Repr

/-- A node, with the settings that routing reads. -/
structure Node where
  hosts : Hosts
  pools : PoolManager
  neighborhoodSize : ℕ
  forceNet : Bool := false
  /-- what `ScheduleTask` of the static container makes of a task with a dynamic query -/
  scheduleTask : Task → PoolQuery := Task.poolQuery

/-- `RouteResult`; a task that is handed to the batch manager is `parked`. -/
inductive RouteResult where
  | execHere
  | network
  | parked
  | dne
  deriving DecidableEq, Repr

/-! ## Resolving a query -/

section Resolve

variable (node : Node) (p : PoolId)

variable (q : PoolQuery)

/-- `ResolveDirectIdQuery` -/
def resolveDirectIdQuery : List PoolQuery :=
  if node.pools.hasContainer p q.containerId then [.localQuery]
  else [.physical (node.pools.getContainerNodeId p q.containerId)]

/-- The query for one container, of `ResolveDirectHashQuery` and of a range of one container -/
def resolveContainer (c : ContainerId) : List PoolQuery :=
  if node.pools.hasContainer p c then [.localQuery]
  else if node.pools.getContainerNodeId p c = node.hosts.nodeId then [.localQuery]
  else [.directId c]

/-- `ResolveDirectHashQuery` -/
def resolveDirectHashQuery : List PoolQuery :=
  match node.pools.getPoolInfo p with
  | none => [q]
  | some info =>
    if info.numContainers = 0 then [q]
      else resolveContainer node p (q.hashValue % info.numContainers)

/-- The number of sub-ranges that a range of at least two containers is cut into, in 32-bit
arithmetic -/
def queriesToCreate (count neighborhoodSize : ℕ) : ℕ :=
  let idealQueries := (count + neighborhoodSize - 1) % 2 ^ 32 / neighborhoodSize
  let queries := min idealQueries neighborhoodSize
  if queries ≤ 1 then count else queries

/-- The loop that cuts a range: the first `remaining` sub-ranges get one container more. -/
def subRanges (offset perQuery remaining queries : ℕ) : List PoolQuery :=
  ((List.range queries).foldl (fun acc i =>
    let count := if i < remaining then perQuery + 1 else perQuery
    if 0 < count then (acc.1 ++ [.range acc.2 count], (acc.2 + count) % 2 ^ 32) else acc)
    (([], offset) : List PoolQuery × ℕ)).1

/-- `ResolveRangeQuery` -/
def resolveRangeQuery : List PoolQuery :=
  if q.rangeCount = 0 then []
  else if q.rangeCount = 1 then resolveContainer node p q.rangeOffset
  else
    let queries := queriesToCreate q.rangeCount node.neighborhoodSize
    subRanges q.rangeOffset (q.rangeCount / queries) (q.rangeCount % queries) queries

/-- `ResolveBroadcastQuery` -/
def resolveBroadcastQuery : List PoolQuery :=
  match node.pools.getPoolInfo p with
  | none => [q]
  | some info =>
    if info.numContainers = 0 then [q] else resolveRangeQuery node p (.range 0 info.numContainers)

/-- `ResolvePoolQuery` -/
def resolvePoolQuery : List PoolQuery :=
  if p.isNull then []
  else
    let resolved := match q.routingMode with
      | .directId => resolveDirectIdQuery node p q
      | .directHash => resolveDirectHashQuery node p q
      | .range => resolveRangeQuery node p q
      | .broadcast => resolveBroadcastQuery node p q
      | .manyToOne | .allToOne =>
        [.physical (node.hosts.getNeighborhoodLeaderNodeId node.neighborhoodSize)]
      | .localMode | .dynamic | .physical | .toLocalCpu | .null => [q]
    resolved.map fun r => { r with retNode := node.hosts.nodeId }

end Resolve

/-! ## Routing -/

section Route

variable (node : Node)

/-- `IsTaskLocal` -/
def isTaskLocal (queries : List PoolQuery) (originallyLocal : Bool) : Bool :=
  if node.forceNet then originallyLocal
  else match queries with
    | [q] =>
      if node.hosts.getNumHosts = 1 then true
      else match q.routingMode with
        | .localMode | .dynamic | .toLocalCpu | .null => true
        | .physical => q.nodeId == node.hosts.nodeId
        | .directId | .directHash | .range | .broadcast | .manyToOne | .allToOne => false
    | _ => node.hosts.getNumHosts == 1

variable (task : Task)

/-- `RouteLocal`: the container is looked up by the id in the task's own query. -/
def routeLocal : Task × RouteResult :=
  let task := { task with routed := true }
  match node.pools.getContainer task.poolId task.poolQuery.containerId with
  | none => (task, .dne)
  | some c => ({ task with execContainer := some c }, .execHere)

/-- `RouteGlobal` -/
def routeGlobal (queries : List PoolQuery) : Task × RouteResult :=
  ({ task with poolQueries := queries, routed := true }, .network)

/-- `RouteManyToOne` -/
def routeManyToOne : Task × RouteResult :=
  let leader := node.hosts.getNeighborhoodLeaderNodeId node.neighborhoodSize
  if leader = node.hosts.nodeId then ({ task with routed := true }, .parked)
  else routeGlobal task [{ PoolQuery.physical leader with retNode := node.hosts.nodeId }]

/-- `RouteTask` -/
def routeTask : Task × RouteResult :=
  if task.routed then (task, .execHere)
  else if task.poolQuery.isCollectiveMode then routeManyToOne node task
  else
    let task :=
      if (node.pools.getStaticContainer task.poolId).isSome ∧
        task.poolQuery.routingMode = .dynamic then
        { task with poolQuery := node.scheduleTask task }
      else task
    let queries := resolvePoolQuery node task.poolId task.poolQuery
    if queries = [] then (task, .dne)
    else if isTaskLocal node queries (task.poolQuery.routingMode == .localMode) then routeLocal node
      task
    else routeGlobal task queries

/-- `BeginRunContext` -/
def beginRunContext : Task :=
  { task with execContainer := node.pools.getRealOrStaticContainer task.poolId }

/-- `SendInResolveTargetNode`; nothing for `kInvalidNodeId`. -/
def sendInResolveTargetNode (p : PoolId) (q : PoolQuery) : Option NodeId :=
  match q.routingMode with
  | .localMode | .dynamic => some node.hosts.nodeId
  | .physical => some q.nodeId
  | .directId => some (node.pools.getContainerNodeId p q.containerId)
  | .range => some (node.pools.getContainerNodeId p q.rangeOffset)
  | .directHash | .broadcast | .toLocalCpu | .null | .manyToOne | .allToOne => none

/-- The copies that `SendIn` sends to nodes that are alive. -/
def sendIn : List (NodeId × Task) :=
  if (node.pools.getStaticContainer task.poolId).isNone then []
  else task.poolQueries.filterMap fun q =>
    (sendInResolveTargetNode node task.poolId q).bind fun target =>
      if node.hosts.isAlive target then
        some (target, { task with
          poolQuery := { q with retNode := node.hosts.nodeId }
          routed := false
          execContainer := none
          poolQueries := [] })
      else none

/-- `RecvInHandleOne`: the copy is marked as routed and gets the container of `BeginRunContext`. -/
def recvIn : Option Task :=
  if (node.pools.getStaticContainer task.poolId).isNone then none
  else some { beginRunContext node task with routed := true }

end Route

/-- The container that executes a task on node `n`, if routing hands it to a worker there. -/
def executeHere (n : NodeId) (routed : Task × RouteResult) : List (NodeId × Container) :=
  match routed.2 with
  | .execHere => routed.1.execContainer.toList.map fun c => (n, c)
  | .network | .parked | .dne => []

/-- The containers that execute a task submitted on node `s`. -/
def execute (cluster : NodeId → Node) (s : NodeId) (task : Task) : List (NodeId × Container) :=
  let routed := routeTask (cluster s) (beginRunContext (cluster s) task)
  match routed.2 with
  | .network => (sendIn (cluster s) routed.1).flatMap fun copy =>
    (recvIn (cluster copy.1) copy.2).toList.flatMap fun received =>
      executeHere copy.1 (routeTask (cluster copy.1) received)
  | .execHere | .parked | .dne => executeHere s routed

/-! ## Delivery -/

section Delivery

variable {cluster : NodeId → Node} {s : NodeId} {task routed : Task} {p : PoolId}

/-- What node `n` executes a received task on. -/
def respond (cluster : NodeId → Node) (p : PoolId) (n : NodeId) : List (NodeId × Container) :=
  ((cluster n).pools.getRealOrStaticContainer p).toList.map fun c => (n, c)

section

variable (h : routeTask (cluster s) (beginRunContext (cluster s) task) = (routed, .network))
include h

/-- A task that goes to the network is executed once for each copy that a live node takes. -/
lemma execute_network : execute cluster s task = (sendIn (cluster s) routed).flatMap fun copy =>
        if ((cluster copy.1).pools.getStaticContainer copy.2.poolId).isNone then []
        else respond cluster copy.2.poolId copy.1 := by
  rw [execute, h]
  refine flatMap_congr fun copy _ => ?_
  rw [recvIn]
  split_ifs
  · rfl
  · exact append_nil _

/-- Not more often than there are queries. -/
lemma length_execute_network_le : (execute cluster s task).length ≤ routed.poolQueries.length := by
  have hcop : (sendIn (cluster s) routed).length ≤ routed.poolQueries.length := by
    rw [sendIn]
    split_ifs
    · exact Nat.zero_le _
    · exact length_filterMap_le _ _
  refine le_trans ?_ hcop
  rw [execute_network h, length_flatMap]
  refine (sum_le_card_nsmul _ 1 ?_).trans (by simp)
  intro k hk
  obtain ⟨copy, -, rfl⟩ := mem_map.mp hk
  split_ifs
  · exact Nat.zero_le _
  · rw [respond, length_map]
    exact Option.length_toList_le

end

end Delivery

/-! ## A pool spread over a cluster -/

/-- The containers `0, …, num - 1` of pool `p` live on the live nodes `nodes`, container `c` on
`host c`, and every address map says so.  The records of the pool are any that its creation and
later changes lead to. -/
structure Spread (cluster : NodeId → Node) (p : PoolId) (nodes : List NodeId) (num : ℕ)
    (host : ContainerId → NodeId) : Prop where
  notNull : p.isNull = false
  small : num < 2 ^ 32
  nodeId : ∀ n ∈ nodes, (cluster n).hosts.nodeId = n
  hosts : ∀ n ∈ nodes, ∀ m ∈ nodes, m ∈ (cluster n).hosts.hostfileMap.keys
  alive : ∀ n ∈ nodes, ∀ m ∈ nodes, (cluster n).hosts.isAlive m = true
  reached : ∀ n ∈ nodes, ∃ info, (cluster n).pools.getPoolInfo p = some info ∧ info.Reached num
  host_mem : ∀ c < num, host c ∈ nodes
  mapped : ∀ c < num, ∀ n ∈ nodes, (cluster n).pools.getContainerNodeId p c = host c
  placed : ∀ c < num, ∀ n ∈ nodes, (cluster n).pools.hasContainer p c = true ↔ n = host c

namespace Spread

variable {cluster : NodeId → Node} {p : PoolId} {nodes : List NodeId} {num : ℕ}
  {host : ContainerId → NodeId} {s c : ℕ} {task : Task}

section

variable (h : Spread cluster p nodes num host) (hs : s ∈ nodes)
include h hs

lemma static : ((cluster s).pools.getStaticContainer p).isNone = false := by
  obtain ⟨info, hin, hrea⟩ := h.reached s hs
  rw [PoolManager.getStaticContainer, hin]
  simpa using hrea.spec.2

lemma numContainers : ∃ info, (cluster s).pools.getPoolInfo p = some info ∧
    info.numContainers = num := by
  obtain ⟨info, hin, hrea⟩ := h.reached s hs
  exact ⟨info, hin, hrea.spec.1⟩

lemma numHosts_ne_one {m : NodeId} (hm : m ∈ nodes) (hne : m ≠ s) :
    (cluster s).hosts.getNumHosts ≠ 1 := by
  intro hone
  obtain ⟨a, ha⟩ := length_eq_one_iff.mp hone
  have hs' := h.hosts s hs s hs
  have hm' := h.hosts s hs m hm
  rw [ha, mem_singleton] at hs' hm'
  exact hne (hm'.trans hs'.symm)

/-- A copy for each query, if every query has a live target. -/
lemma execute_network {routed : Task}
    (hrou : routeTask (cluster s) (beginRunContext (cluster s) task) = (routed, .network))
    (hpo : routed.poolId = p) {target : PoolQuery → NodeId}
    (htg : ∀ q ∈ routed.poolQueries, sendInResolveTargetNode (cluster s) p q = some (target q) ∧
      target q ∈ nodes) :
    execute cluster s task = routed.poolQueries.flatMap fun q => respond cluster p (target q) := by
  rw [ClioCore.Runtime.execute_network hrou, sendIn, hpo, h.static hs, if_neg Bool.false_ne_true]
  generalize routed.poolQueries = queries at htg
  induction queries with
  | nil => rfl
  | cons q rest ih =>
    obtain ⟨hq, hmem⟩ := htg q mem_cons_self
    rw [filterMap_cons, hq, Option.bind_some, if_pos (h.alive s hs _ hmem), flatMap_cons,
      flatMap_cons, ih fun r hr => htg r (mem_cons_of_mem _ hr)]
    rw [h.static hmem, if_neg Bool.false_ne_true]

end

/-- The mode asks for one container or for several, not for the submitting node or a leader. -/
def Addressed (mode : RoutingMode) : Prop :=
  mode = .directId ∨ mode = .directHash ∨ mode = .range ∨ mode = .broadcast

/-- Routing a task that addresses containers. -/
lemma routeTask_addressed (hpo : task.poolId = p) (hfr : task.routed = false)
    (hmode : Addressed task.poolQuery.routingMode)
    {queries : List PoolQuery} (hres : resolvePoolQuery (cluster s) p task.poolQuery = queries)
    (hne : queries ≠ []) :
    routeTask (cluster s) (beginRunContext (cluster s) task) =
      if isTaskLocal (cluster s) queries false then
        routeLocal (cluster s) (beginRunContext (cluster s) task)
      else routeGlobal (beginRunContext (cluster s) task) queries := by
  have hcol : task.poolQuery.isCollectiveMode = false := by
    rw [PoolQuery.isCollectiveMode]
    obtain hm | hm | hm | hm := hmode <;> rw [hm] <;> rfl
  have hdyn : task.poolQuery.routingMode ≠ .dynamic := by
    obtain hm | hm | hm | hm := hmode <;> rw [hm] <;> decide
  have hlc : (task.poolQuery.routingMode == .localMode) = false := by
    obtain hm | hm | hm | hm := hmode <;> rw [hm] <;> rfl
  simp [routeTask, beginRunContext, hfr, hcol, hdyn, hlc, hpo, hres, hne]

/-- A task for one container `c` of the pool, resolved to one query `r`: on the node that hosts `c`
the task is executed by what `GetContainer` finds, elsewhere by what the host of `c` answers with.
-/
lemma execute_single (h : Spread cluster p nodes num host) (hs : s ∈ nodes) (hc : c < num)
    (hpo : task.poolId = p) (hfr : task.routed = false)
    (hmode : Addressed task.poolQuery.routingMode)
    {r : PoolQuery} (hres : resolvePoolQuery (cluster s) p task.poolQuery = [r])
    (hlc : s = host c → r.routingMode = .localMode)
    (hrmt : s ≠ host c → r.routingMode = .physical ∧ r.nodeId = host c ∨
      r.routingMode = .directId ∧ r.containerId = c) :
    execute cluster s task =
      if s = host c ∧ (cluster s).forceNet = false then
        ((cluster s).pools.getContainer p task.poolQuery.containerId).toList.map fun x => (s, x)
      else respond cluster p (host c) := by
  have hrou := routeTask_addressed hpo hfr hmode hres (cons_ne_nil _ _)
  have htg : sendInResolveTargetNode (cluster s) p r = some (host c) := by
    rw [sendInResolveTargetNode]
    by_cases hsc : s = host c
    · rw [hlc hsc, h.nodeId s hs, hsc]
    · obtain ⟨hm, hn⟩ | ⟨hm, hn⟩ := hrmt hsc
      · rw [hm, hn]
      · rw [hm, hn, h.mapped c hc s hs]
  by_cases hhere : s = host c ∧ (cluster s).forceNet = false
  · rw [if_pos hhere]
    have hisL : isTaskLocal (cluster s) [r] false = true := by
      rw [isTaskLocal, hhere.2, if_neg Bool.false_ne_true, hlc hhere.1, ite_self]
    rw [hisL, routeLocal] at hrou
    rw [execute, hrou]
    simp only [beginRunContext, hpo]
    cases (cluster s).pools.getContainer p task.poolQuery.containerId <;> rfl
  · rw [if_neg hhere]
    have hisL : isTaskLocal (cluster s) [r] false = false := by
      rw [isTaskLocal]
      by_cases hfor : (cluster s).forceNet = true
      · rw [if_pos hfor]
      · have hsc : s ≠ host c := fun hsc => hhere ⟨hsc, by simpa using hfor⟩
        rw [if_neg hfor, if_neg (h.numHosts_ne_one hs (h.host_mem c hc) hsc.symm)]
        obtain ⟨hm, hn⟩ | ⟨hm, hn⟩ := hrmt hsc
        · rw [hm, hn, h.nodeId s hs]
          exact beq_false_of_ne hsc.symm
        · rw [hm]
    rw [hisL] at hrou
    have hqs : ∀ q ∈ [r], sendInResolveTargetNode (cluster s) p q = some (host c) ∧
        host c ∈ nodes := by
      intro q hq
      rw [mem_singleton.mp hq]
      exact ⟨htg, h.host_mem c hc⟩
    exact (h.execute_network hs hrou hpo hqs).trans (append_nil _)

end Spread

/-- A pool as it is created on a cluster of `num` nodes. -/
def created (num size : ℕ) (n : NodeId) : Node where
  hosts := ⟨n, (List.range num).foldl (fun m k => m.insert k {}) ∅, []⟩
  pools := ⟨(∅ : AList fun _ : PoolId => PoolInfo).insert ⟨2, 0⟩
    ((PoolInfo.create num 0).registerContainer n 1 0)⟩
  neighborhoodSize := size

end ClioCore.Runtime
