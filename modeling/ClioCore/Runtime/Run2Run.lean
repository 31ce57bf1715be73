import ClioCore.Foundations.Coroutine
import ClioCore.Runtime.Routing

/-!
# Tasks that wait for replicas on other nodes

`IpcManagerRun2Run` of `ipc_run2run.cc`.  A task that is routed to other nodes is the *origin* of
one replica for each of its resolved queries.  `SendIn` puts the origin into `send_map_` under its
address and sends a copy for every replica, or parks the copy in `send_in_retry_`.  The origin is
completed when as many replicas have been counted as there are.  Replicas are counted on five paths.

* `recvOut` — the response of a replica arrived.
* `handleTaskProgressResult` — a replica is gone, after a probe (`ScanTaskProgress`), a retry that
  timed out (`processRetryQueues`) or the scan for dead targets (`scanSendMapTimeouts`).
* `sendIn` — the target is dead and the origin does not want to wait for it.
* `flushStaleStateForNode` — the copy was parked for a node that has restarted.

The functions run on several threads.  Each is a program of sections, one for each stretch under a
mutex and one for each access to an atomic counter or to a part of the origin that other threads
reach, so `Pool` interleaves them as the code can.  A thread that takes an origin out of `send_map_`
shares its ownership: the address is not given to another task before all owners have let go.
`Call` collects what a thread can be asked to do, with what the environment decides: the address of
a new task, which transmissions succeed, which responses and verdicts arrive.

Ghost fields record who owns an origin, who is about to end it, who has accounted a replica and not
yet counted it, which replicas were counted and how often `EndTask` was called.  The queue of
responses to send, the map of received tasks and the result of a task, apart from its return code
and the result of a probe request, are left out.
-/

namespace ClioCore.Runtime

open Foundations
open Co (act)

/-- The address of a task, `net_key_` -/
abbrev Address := ℕ

/-- The identity of an origin, which its address does not give once it is freed -/
abbrev OriginId := ℕ

abbrev ReplicaId := ℕ

abbrev ThreadId := ℕ

/-- `kRun2RunNetworkTimeoutRC` -/
def kRun2RunNetworkTimeoutRC : ℤ := -1000

/-- `kRun2RunRetryTimeoutSec` -/
def kRun2RunRetryTimeoutSec : ℚ := 30

/-- On which path a replica was counted -/
inductive Fate where
  | answered
  | gone
  | skipped
  | discarded
  deriving DecidableEq, Repr

/-- An origin, with its counters -/
structure Origin where
  task : Task := { poolId := ⟨0, 0⟩, poolQuery := {} }
  address : Address := 0
  /-- the thread that runs `SendIn` -/
  sender : ThreadId := 0
  /-- `Subtasks().size()` -/
  subtasks : ℕ := 0
  completedReplicas : ℕ := 0
  returnCode : ℤ := 0
  /-- `probe_result_` of a probe request -/
  probeResult : ℤ := -1
  /-- whether `RegisterOriginProgress` has run -/
  registered : Bool := false
  /-- the replicas that were counted -/
  counted : List (ReplicaId × Fate) := []
  /-- how often `EndTask` was called -/
  endTasks : ℕ := 0

/-- The number of replicas -/
def Origin.size (x : Origin) : ℕ := x.task.poolQueries.length

/-- The replicas that were counted -/
def Origin.replicas (x : Origin) : List ReplicaId := x.counted.map Prod.fst

/-- `ReplicaProgress`; no target for `kInvalidNodeId` -/
structure ReplicaProgress where
  target : Option NodeId
  accounted : Bool
  deriving DecidableEq, Repr

/-- `accounted = true` -/
def ReplicaProgress.account (r : ReplicaProgress) : ReplicaProgress := { r with accounted := true }

/-- `RetryEntry`, with what is read of the copy it holds -/
structure RetryEntry where
  netKey : Address
  replicaId : ReplicaId
  poolId : PoolId
  query : PoolQuery
  target : NodeId
  enqueuedAt : ℕ
  deriving DecidableEq, Repr

/-- A response, as `RecvOut` reads it -/
structure Response where
  netKey : Address
  replicaId : ReplicaId
  returnCode : ℤ := 0
  probeResult : ℤ := -1
  deriving DecidableEq, Repr

/-- What became of a transmission: `EAGAIN` is `refused`, every other failure `unreachable`. -/
inductive Transmit where
  | delivered
  | refused
  | unreachable
  deriving DecidableEq, Repr

/-- `IpcManagerRun2Run` on one node -/
structure Run2Run where
  node : Node
  sendMap : AList (fun _ : Address => OriginId)
  progressMap : AList (fun _ : Address => List ReplicaProgress)
  sendInRetry : List RetryEntry
  origins : OriginId → Origin
  /-- the number of origins so far -/
  created : ℕ
  /-- the threads that own an origin -/
  held : List (ThreadId × OriginId)
  /-- the threads that have claimed an origin and not yet ended it -/
  ending : List (ThreadId × OriginId)
  /-- the threads that have accounted a replica and not yet counted it -/
  marking : List (ThreadId × Address × ReplicaId)

/-- A node that has sent nothing yet. -/
def Run2Run.start (node : Node) : Run2Run where
  node := node
  sendMap := ∅
  progressMap := ∅
  sendInRetry := []
  origins _ := {}
  created := 0
  held := []
  ending := []
  marking := []

/-! ## Sections -/

namespace Run2Run

variable (t : ThreadId) (key : Address) (o : OriginId) (rid : ReplicaId) (now : ℕ) (s : Run2Run)

/-- `elapsed >= timeout`, the times in nanoseconds and the timeout in seconds -/
def expired (since now : ℕ) (timeout : ℚ) : Bool := timeout * 10 ^ 9 ≤ ((now : ℤ) - since : ℤ)

/-- The timeout of a query, or the default -/
def timeoutOf (netTimeout : ℚ) : ℚ := if 0 ≤ netTimeout then netTimeout else kRun2RunRetryTimeoutSec

/-- A change of one origin -/
def modifyOrigin (f : Origin → Origin) : Run2Run :=
  { s with origins := Function.update s.origins o (f (s.origins o)) }

/-- A change of the host table -/
def modifyHosts (f : Hosts → Hosts) : Run2Run :=
  { s with node := { s.node with hosts := f s.node.hosts } }

/-- No task lives at the address. -/
def isFree : Bool :=
  (s.sendMap.lookup key).isNone && s.held.all fun e => (s.origins e.2).address ≠ key

/-- `SendIn` up to the insertion into `send_map_`, for a task allocated at `key` -/
def enter (task : Task) : Option OriginId × Run2Run :=
  if (s.node.pools.getStaticContainer task.poolId).isNone then (none, s)
  else (some s.created, { s with
    sendMap := s.sendMap.insert key s.created
    origins := Function.update s.origins s.created { task := task, address := key, sender := t }
    created := s.created + 1
    held := (t, s.created) :: s.held })

/-- `send_map_.find` -/
def findOrigin : Option OriginId × Run2Run :=
  match s.sendMap.lookup key with
  | none => (none, s)
  | some o => (some o, { s with held := (t, o) :: s.held })

/-- `send_map_.find` in `HandleTaskProgressResult`, after the replica was accounted -/
def findAccounted : Option OriginId × Run2Run :=
  match s.sendMap.lookup key with
  | none => (none, { s with marking := s.marking.erase (t, key, rid) })
  | some o => (some o, { s with held := (t, o) :: s.held })

/-- The thread lets go of the origin. -/
def dropOrigin : Unit × Run2Run := ((), { s with held := s.held.erase (t, o) })

/-- `CompletedReplicas().fetch_add(1) + 1` -/
def fetchAdd (fate : Fate) : ℕ × Run2Run :=
  ((s.origins o).completedReplicas + 1, { s.modifyOrigin o fun origin => { origin with
        completedReplicas := origin.completedReplicas + 1
        counted := origin.counted ++ [(rid, fate)] } with
      marking := s.marking.erase (t, (s.origins o).address, rid) })

/-- `Subtasks().size()` -/
def subtasksSize : ℕ × Run2Run := ((s.origins o).subtasks, s)

/-- `Subtasks().resize` -/
def resizeSubtasks : Unit × Run2Run :=
  ((), s.modifyOrigin o fun origin => { origin with subtasks := origin.task.poolQueries.length })

/-- `Subtasks().clear` -/
def clearSubtasks : Unit × Run2Run :=
  ((), s.modifyOrigin o fun origin => { origin with subtasks := 0 })

/-- `ClaimOrigin` -/
def claimOrigin : Bool × Run2Run :=
  match s.sendMap.lookup key with
  | none => (false, { s with progressMap := s.progressMap.erase key })
  | some _ => (true, { s with
      sendMap := s.sendMap.erase key
      progressMap := s.progressMap.erase key
      ending := (t, o) :: s.ending })

/-- `EndTask` -/
def endTask : Unit × Run2Run :=
  ((), { s.modifyOrigin o fun origin => { origin with endTasks := origin.endTasks + 1 } with
    ending := s.ending.erase (t, o) })

/-- `RegisterOriginProgress` -/
def registerOriginProgress (targets : List (Option NodeId)) : Unit × Run2Run :=
  ((), { s.modifyOrigin o fun origin => { origin with registered := true } with
    progressMap := s.progressMap.insert key (targets.map fun target => ⟨target, target.isNone⟩) })

/-- `MarkReplicaAccounted` -/
def markReplicaAccounted : Bool × Run2Run :=
  let marked := { s with marking := (t, key, rid) :: s.marking }
  match s.progressMap.lookup key with
  | none => (true, marked)
  | some replicas =>
    match replicas[rid]? with
    | none => (true, marked)
    | some r =>
      if r.accounted then (false, s)
      else (true, { marked with
        progressMap := s.progressMap.insert key (replicas.modify rid ReplicaProgress.account) })

/-- `SetReturnCode` -/
def setReturnCode (code : ℤ) : Unit × Run2Run :=
  ((), s.modifyOrigin o fun origin => { origin with returnCode := code })

/-- `AggregateOut` -/
def aggregateOut (r : Response) : Unit × Run2Run :=
  ((), s.modifyOrigin o fun origin => { origin with
    returnCode := if r.returnCode ≠ 0 then r.returnCode else origin.returnCode
    probeResult := if r.probeResult = 0 then 0 else origin.probeResult })

/-- `send_in_retry_.push_back` -/
def pushRetry (query : PoolQuery) (target : NodeId) : Unit × Run2Run :=
  ((), { s with sendInRetry := s.sendInRetry ++
    [⟨key, rid, (s.origins o).task.poolId, query, target, now⟩] })

/-- What the loop of `SendIn` does with a replica -/
inductive Dispatch where
  /-- no target, or a target that is not in the host table -/
  | unresolved
  /-- the target is dead and the origin does not wait -/
  | skip
  | park (target : NodeId)
  | transmit (target : NodeId)
  deriving DecidableEq, Repr

/-- The tests of the loop of `SendIn` -/
def dispatch (query : PoolQuery) : Dispatch :=
  let origin := s.origins o
  match sendInResolveTargetNode s.node origin.task.poolId query with
  | none => .unresolved
  | some target =>
    if (s.node.hosts.getHost target).isNone then .unresolved
    else if s.node.hosts.isAlive target then .transmit target
    else if 0 ≤ origin.task.poolQuery.netTimeout ∧
      origin.task.poolQuery.netTimeout < 1 / 1000 then .skip
    else .park target

variable (delivers : RetryEntry → NodeId → Bool) (e : RetryEntry) (n : NodeId)

/-- `RerouteRetryEntry`; node 0 stands for no new node. -/
def rerouteRetryEntry : NodeId :=
  let moved := fun c =>
    let n := s.node.pools.getContainerNodeId e.poolId c
    if n ≠ 0 ∧ n ≠ e.target then n else 0
  match e.query.routingMode with
  | .directId => moved e.query.containerId
  | .range => moved e.query.rangeOffset
  | _ => 0

/-- `RetrySendToNode`; `delivers` says what the transport does. -/
def retrySendToNode : Bool :=
  (s.node.hosts.getHost n).isSome && (s.node.pools.getStaticContainer e.poolId).isSome &&
    delivers e n

/-- What the loop of `ProcessRetryQueues` does with an entry: the entry to keep, or nothing -/
def retryEntry : Option RetryEntry :=
  if s.node.hosts.isAlive e.target then
    if s.retrySendToNode delivers e e.target then none else some e
  else
    let n := s.rerouteRetryEntry e
    if n ≠ 0 ∧ s.node.hosts.isAlive n then
      if s.retrySendToNode delivers { e with target := n } n then none
        else some { e with target := n }
    else some e

/-- The loop of `ProcessRetryQueues` over `send_in_retry_`: the replicas that timed out -/
def retryQueue : List (Address × ReplicaId) × Run2Run :=
  let late := fun e : RetryEntry => expired e.enqueuedAt now (timeoutOf e.query.netTimeout)
  ((s.sendInRetry.filter late).map fun e => (e.netKey, e.replicaId),
    { s with sendInRetry := s.sendInRetry.filterMap fun e =>
        if late e then none else s.retryEntry delivers e })

/-- `dead_map` of `ScanSendMapTimeouts` -/
def detectedAt : Option ℕ :=
  ((s.node.hosts.deadNodes.filter fun e => e.1 = n).getLast?).map Prod.snd

/-- Whether the scan gives a replica up -/
def isLost (timeout : ℚ) (r : ReplicaProgress) : Bool :=
  !r.accounted && (r.target.bind s.detectedAt).any fun since => expired since now timeout

/-- The loop of `ScanSendMapTimeouts`: the replicas whose target has been dead for too long -/
def lostReplicas : List (Address × ReplicaId) × Run2Run :=
  (s.progressMap.entries.flatMap fun e =>
    match s.sendMap.lookup e.1 with
    | none => []
    | some o =>
      let timeout := timeoutOf (s.origins o).task.poolQuery.netTimeout
      ((List.range e.2.length).filter fun rid => (e.2[rid]?).any (s.isLost now timeout)).map
        fun rid => (e.1, rid), s)

/-- The copies parked for a node, taken out of `send_in_retry_` -/
def takeRetries : List RetryEntry × Run2Run :=
  (s.sendInRetry.filter fun e => e.target = n,
    { s with sendInRetry := s.sendInRetry.filter fun e => e.target ≠ n })

end Run2Run

/-! ## Programs -/

section Programs

open Run2Run

variable (t : ThreadId)

variable (key : Address) (o : OriginId) (rid : ReplicaId)

/-- `RecvOutCompleteOriginTask` -/
def completeOriginTask : Co Run2Run Unit := do
  if ← act (claimOrigin t key o) then
    act (clearSubtasks o)
    act (endTask t o)

/-- A replica is counted, and the origin completed with the last one. -/
def countReplica (fate : Fate) : Co Run2Run Unit := do
  let completed ← act (fetchAdd t o rid · fate)
  let size ← act (subtasksSize o)
  if completed = size then
    completeOriginTask t key o

/-- `SendInTransmitReplica` -/
def sendInTransmitReplica (query : PoolQuery) (target : NodeId) (now : ℕ) :
    Transmit → Co Run2Run Unit
  | .delivered => pure ()
  | .refused => act (pushRetry key o rid now · query target)
  | .unreachable => do
      act fun s => ((), s.modifyHosts (·.setDead target now))
      act (pushRetry key o rid now · query target)

/-- One round of the loop of `SendIn`; returns the entry of `replica_targets`. -/
def sendInReplica (query : PoolQuery) (transmit : Transmit) (now : ℕ) :
    Co Run2Run (Option NodeId) := do
  match ← act fun s => (s.dispatch o query, s) with
  | .unresolved => pure none
  | .skip => do
      countReplica t key o rid .skipped
      pure none
  | .park target => do
      act (pushRetry key o rid now · query target)
      pure (some target)
  | .transmit target => do
      sendInTransmitReplica key o rid query target now transmit
      pure (some target)

/-- The loop of `SendIn`, from replica `rid` on -/
def sendInLoop (key : Address) (o : OriginId) (transmits : ReplicaId → Transmit) (now : ℕ) :
    ReplicaId → List PoolQuery → Co Run2Run (List (Option NodeId))
  | _, [] => pure []
  | rid, query :: queries => do
      let target ← sendInReplica t key o rid query (transmits rid) now
      let targets ← sendInLoop key o transmits now (rid + 1) queries
      pure (target :: targets)

/-- `SendIn`, of a task that is allocated at `key` -/
def sendInOrigin (task : Task) (key : Address) (transmits : ReplicaId → Transmit) (now : ℕ) :
    Co Run2Run Unit := do
  match ← Co.await (isFree key) (enter t key · task) with
  | none => pure ()
  | some o => do
      act (resizeSubtasks o)
      let targets ← sendInLoop t key o transmits now 0 task.poolQueries
      act (registerOriginProgress key o · targets)
      act (dropOrigin t o)

/-- `RecvOutDeserialize`: whether it returns 0 -/
def recvOutDeserialize : List Response → Co Run2Run Bool
  | [] => pure true
  | r :: responses => do
      match ← act (findOrigin t r.netKey) with
      | none => pure false
      | some o => do
          let size ← act (subtasksSize o)
          let known ← act fun s =>
            ((s.node.pools.getStaticContainer (s.origins o).task.poolId).isSome, s)
          act (dropOrigin t o)
          if r.replicaId < size ∧ known then recvOutDeserialize responses else pure false

/-- One round of the loop of `RecvOutAggregate`, for an origin that was found -/
def recvOutAggregateOne (r : Response) (o : OriginId) : Co Run2Run Unit := do
  let size ← act (subtasksSize o)
  let known ← act fun s =>
    ((s.node.pools.getStaticContainer (s.origins o).task.poolId).isSome, s)
  if r.replicaId < size ∧ known then
    act (aggregateOut o · r)
    if ← act (markReplicaAccounted t r.netKey r.replicaId) then
      countReplica t r.netKey o r.replicaId .answered

/-- `RecvOutAggregate` -/
def recvOutAggregate : List Response → Co Run2Run Unit
  | [] => pure ()
  | r :: responses => do
      match ← act (findOrigin t r.netKey) with
      | none => pure ()
      | some o => do
          recvOutAggregateOne t r o
          act (dropOrigin t o)
      recvOutAggregate responses

/-- `RecvOut` -/
def recvOut (responses : List Response) : Co Run2Run Unit := do
  if ← recvOutDeserialize t responses then
    recvOutAggregate t responses

/-- `HandleTaskProgressResult` -/
def handleTaskProgressResult (gone : Bool) : Co Run2Run Unit := do
  if gone then
    if ← act (markReplicaAccounted t key rid) then
      match ← act (findAccounted t key rid) with
      | none => pure ()
      | some o => do
          act (setReturnCode o · kRun2RunNetworkTimeoutRC)
          countReplica t key o rid .gone
          act (dropOrigin t o)

/-- The replicas that `ProcessRetryQueues` and `ScanSendMapTimeouts` give up -/
def handleGone : List (Address × ReplicaId) → Co Run2Run Unit
  | [] => pure ()
  | r :: rest => do
      handleTaskProgressResult t r.1 r.2 true
      handleGone rest

/-- `ProcessRetryQueues`, the part on `send_in_retry_` -/
def processRetryQueues (now : ℕ) (delivers : RetryEntry → NodeId → Bool) : Co Run2Run Unit := do
  let failures ← act (retryQueue now · delivers)
  handleGone t failures

/-- `ScanSendMapTimeouts` -/
def scanSendMapTimeouts (now : ℕ) : Co Run2Run Unit := do
  let lost ← act (lostReplicas now)
  handleGone t lost

/-- The loop of `FlushStaleStateForNode`: the origins whose last replica was counted.  The queue is
locked meanwhile, so the entries can be taken out at once. -/
def flushRetries : List RetryEntry → Co Run2Run (List (Address × OriginId))
  | [] => pure []
  | e :: entries => do
      match ← act (findOrigin t e.netKey) with
      | none => flushRetries entries
      | some o => do
          let completed ← act (fetchAdd t o e.replicaId · .discarded)
          let size ← act (subtasksSize o)
          if completed = size then do
            let toComplete ← flushRetries entries
            pure ((e.netKey, o) :: toComplete)
          else do
            act (dropOrigin t o)
            flushRetries entries

/-- The origins of `to_complete` are completed and let go. -/
def completeFlushed : List (Address × OriginId) → Co Run2Run Unit
  | [] => pure ()
  | e :: toComplete => do
      completeOriginTask t e.1 e.2
      act (dropOrigin t e.2)
      completeFlushed toComplete

/-- `FlushStaleStateForNode` -/
def flushStaleStateForNode (n : NodeId) : Co Run2Run Unit := do
  let entries ← act (takeRetries · n)
  let toComplete ← flushRetries t entries
  completeFlushed t toComplete

end Programs

/-- What a thread is asked to do -/
inductive Call where
  | sendIn (task : Task) (key : Address) (transmits : ReplicaId → Transmit) (now : ℕ)
  | recvOut (responses : List Response)
  | taskProgress (key : Address) (rid : ReplicaId) (gone : Bool)
  | retryQueues (now : ℕ) (delivers : RetryEntry → NodeId → Bool)
  | scanTimeouts (now : ℕ)
  | flush (n : NodeId)
  | setDead (n : NodeId) (now : ℕ)
  | setAlive (n : NodeId) (now : ℕ)

/-- The program of a call -/
def Call.program (t : ThreadId) : Call → Co Run2Run Unit
  | .sendIn task key transmits now => sendInOrigin t task key transmits now
  | .recvOut responses => Runtime.recvOut t responses
  | .taskProgress key rid gone => handleTaskProgressResult t key rid gone
  | .retryQueues now delivers => processRetryQueues t now delivers
  | .scanTimeouts now => scanSendMapTimeouts t now
  | .flush n => flushStaleStateForNode t n
  | .setDead n now => act fun s => ((), s.modifyHosts (·.setDead n now))
  | .setAlive n now => act fun s => ((), s.modifyHosts (·.setAlive n now))

/-- The call alone, on one thread -/
def Call.exec (c : Call) (s : Run2Run) : Option Run2Run := ((c.program 0).run s).map Prod.snd

/-- A thread that does one call after the other -/
def thread (t : ThreadId) : List Call → Co Run2Run Unit
  | [] => pure ()
  | c :: calls => do
      c.program t
      thread t calls

/-- The threads of a node at their start -/
def Run2Run.launch (calls : ThreadId → List Call) (s : Run2Run) : Pool Run2Run ThreadId Unit :=
  ⟨s, fun t => thread t (calls t)⟩

end ClioCore.Runtime
