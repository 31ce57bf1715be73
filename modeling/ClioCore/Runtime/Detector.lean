import ClioCore.Runtime.Frames

/-!
# The failure detector

`HeartbeatProbe` of `admin_runtime.cc` runs from time to time on every node, and sends a heartbeat
to one other node.  A heartbeat that is not answered in time makes its target `kProbeFailed`, and up
to three other nodes are asked to probe the target.  If none of them confirms it, the target is
`kSuspected`, and after a while `kDead`.  A dead node is alive again when a probe succeeds or when
it sends a task.

A probe is an ordinary task on another node: `SendIn` makes it an origin, and its future is complete
when the origin was ended.  `Detector` is a node with its probes; `Op` collects what happens to it,
one after the other: `HeartbeatProbe`, the requests of other nodes, the sending and receiving of
tasks, and the sweeps of `Run2Run` that give replicas up.  The order in which a hash map is visited
and the outcome of `std::shuffle` are parameters; the whole of `HeartbeatProbe` happens at one
instant, and the recovery that it triggers is not seen.

Ghost fields record who has received a message of whom since the sender was marked dead here, and
every time a dead node became alive.
-/

namespace ClioCore.Runtime

open Foundations Option List

/-- The `swim` section of the configuration -/
structure SwimConfig where
  enabled : Bool := true
  directProbeTimeoutSec : ℚ := 30
  indirectProbeTimeoutSec : ℚ := 15
  suspicionTimeoutSec : ℚ := 60

/-- `Method::kHeartbeat` -/
def kHeartbeat : ℕ := 27

/-- `Method::kProbeRequest` -/
def kProbeRequest : ℕ := 29

/-- `kIndirectProbeHelpers` -/
def kIndirectProbeHelpers : ℕ := 3

/-- The future of a task that this node has sent -/
abbrev FutureId := ℕ

/-- `PendingProbe` -/
structure PendingProbe where
  future : FutureId
  targetNodeId : NodeId
  sentAt : ℕ
  deriving DecidableEq, Repr

/-- `PendingIndirectProbe` -/
structure PendingIndirectProbe where
  future : FutureId
  targetNodeId : NodeId
  helperNodeId : NodeId
  sentAt : ℕ
  deriving DecidableEq, Repr

/-- A `ProbeRequest` of another node that is waiting for its heartbeat -/
structure ServedProbe where
  future : FutureId
  targetNodeId : NodeId
  start : ℕ
  deriving DecidableEq, Repr

/-- A dead node has become alive. -/
structure Revival where
  peer : NodeId
  /-- the helper whose probe succeeded -/
  helper : Option NodeId
  /-- who had received a message of the node since it was marked dead -/
  heard : List NodeId
  /-- every replica of the probe was counted because it had answered -/
  answered : Bool
  deriving DecidableEq, Repr

/-- An order in which the elements of a list are visited -/
structure Shuffle where
  apply : List NodeId → List NodeId
  perm : ∀ l, (apply l).Perm l

/-- The order of the list itself -/
def Shuffle.id : Shuffle := ⟨fun l => l, List.Perm.refl⟩

/-- The task of a probe, routed to the node -/
def probeTask (n : NodeId) (method : ℕ) : Task where
  poolId := kAdminPoolId
  method := method
  poolQuery := .physical n
  poolQueries := [.physical n]

/-- A node with its failure detector -/
structure Detector where
  ipc : Run2Run
  config : SwimConfig
  pendingDirectProbes : List PendingProbe := []
  pendingIndirectProbes : List PendingIndirectProbe := []
  probeRoundRobinIdx : ℕ := 0
  selfFenced : Bool := false
  /-- the requests of other nodes that are being served -/
  servedProbes : List ServedProbe := []
  /-- the answers to such requests: the target and `probe_result_` -/
  probeResults : List (NodeId × ℤ) := []
  /-- the tasks that were routed to other nodes and wait for `SendIn` -/
  netQueue : List (FutureId × Task) := []
  /-- the origin that the task of a future has become -/
  futures : FutureId → Option OriginId := fun _ => none
  /-- the number of futures so far -/
  issued : ℕ := 0
  /-- receiver and sender of messages, since the sender was marked dead here -/
  heard : List (NodeId × NodeId) := []
  revivals : List Revival := []

namespace Detector

/-! ## Parts of `HeartbeatProbe` -/

section Parts

variable (n target helper : NodeId) (f : FutureId) (now : ℕ) (d : Detector)

/-- `hostfile_map_` and the other tables of the node -/
def hosts : Hosts := d.ipc.node.hosts

/-- `GetNodeId` -/
def self : NodeId := d.hosts.nodeId

/-- A host of the table that is dead -/
def isDead : Bool := (d.hosts.getHost n).any fun host => host.state == .dead

/-- `elapsed > timeout` -/
def overdue (since now : ℕ) (timeout : ℚ) : Bool := timeout * 10 ^ 9 < ((now : ℤ) - since : ℤ)

/-- `future.IsComplete()` -/
def isComplete : Bool := (d.futures f).any fun o => 0 < (d.ipc.origins o).endTasks

/-- `future->probe_result_` -/
def probeResult : ℤ := (d.futures f).elim (-1) fun o => (d.ipc.origins o).probeResult

/-- The replicas of the future's task that were counted -/
def counted : List (ReplicaId × Fate) := (d.futures f).elim [] fun o => (d.ipc.origins o).counted

/-- Every replica that was counted has answered. -/
def answered : Bool := (d.counted f).all fun e => e.2 == .answered

/-- Who has received a message of the node since it was marked dead -/
def heardFrom : List NodeId := (d.heard.filter fun e => e.2 = n).map Prod.fst

/-- A change of the host table -/
def modifyHosts (g : Hosts → Hosts) : Detector := { d with ipc := d.ipc.modifyHosts g }

/-- `FlushStaleStateForNode` -/
def flushStaleState : Detector := { d with ipc := ((Call.flush n).exec d.ipc).getD d.ipc }

/-- `SetAlive` -/
def setAlive (via : Option NodeId) (byAnswer : Bool) : Detector :=
  { d.modifyHosts (·.setAlive n now) with
    revivals := if d.isDead n then d.revivals ++ [⟨n, via, d.heardFrom n, byAnswer⟩]
      else d.revivals }

/-- A probe of the node has succeeded. -/
def confirmAlive (via : Option NodeId) : Detector :=
  if d.hosts.getNodeState n = .dead then (d.flushStaleState n).setAlive n now via (d.answered f)
  else d.modifyHosts (·.setNodeState n now .alive)

/-- `Send` of an admin task to another node, up to the network queue -/
def submit (method : ℕ) : Detector :=
  { d with netQueue := d.netQueue ++ [(d.issued, probeTask n method)], issued := d.issued + 1 }

/-- `AsyncHeartbeat`, kept in `pending_direct_probes_` -/
def asyncHeartbeat : Detector :=
  { d.submit n kHeartbeat with
    pendingDirectProbes := d.pendingDirectProbes ++ [⟨d.issued, n, now⟩] }

/-- `AsyncProbeRequest`, kept in `pending_indirect_probes_` -/
def asyncProbeRequest : Detector :=
  { d.submit helper kProbeRequest with
    pendingIndirectProbes := d.pendingIndirectProbes ++ [⟨d.issued, target, helper, now⟩] }

/-- The nodes that can be asked to probe the target -/
def candidates : List NodeId := d.hosts.aliveNodes.filter fun n => n ≠ d.self ∧ n ≠ target

/-- The helpers that are asked -/
def helpers (shuffle : Shuffle) : List NodeId :=
  (shuffle.apply (d.candidates target)).take kIndirectProbeHelpers

/-- The target of a probe that timed out has failed it; a dead node stays dead. -/
def failProbe : Detector :=
  if d.hosts.getNodeState target ≠ .dead then d.modifyHosts (·.setNodeState target now .probeFailed)
    else d

/-- A direct probe has timed out. -/
def escalate (shuffle : Shuffle) : Detector :=
  ((d.failProbe target now).helpers target shuffle).foldl
    (fun d helper => d.asyncProbeRequest target helper now) (d.failProbe target now)

/-- An indirect probe has failed; `pending` are the others. -/
def suspect (pending : List PendingIndirectProbe) : Detector :=
  if pending.any fun p => p.targetNodeId = target then d
  else if d.hosts.getNodeState target = .probeFailed then
    d.modifyHosts (·.setNodeState target now .suspected)
  else d

end Parts

/-! ## Phases of `HeartbeatProbe` -/

section Phases

variable (now : ℕ) (order : Shuffle) (shuffle : NodeId → Shuffle) (d : Detector)

/-- One round of phase 1; whether the probe is kept -/
def checkDirectProbe (b : PendingProbe) : Bool × Detector :=
  if d.isComplete b.future then (false, d.confirmAlive b.targetNodeId b.future now none)
  else if overdue b.sentAt now d.config.directProbeTimeoutSec then
    (false, d.escalate b.targetNodeId now (shuffle b.targetNodeId))
  else (true, d)

/-- The loop of phase 1: the probes that are kept -/
def checkDirectProbesLoop : List PendingProbe → Detector → List PendingProbe × Detector
  | [], d => ([], d)
  | b :: rest, d =>
    let round := d.checkDirectProbe now shuffle b
    let looped := checkDirectProbesLoop rest round.2
    (if round.1 then b :: looped.1 else looped.1, looped.2)

/-- Phase 1 -/
def checkDirectProbes : Detector :=
  let looped := checkDirectProbesLoop now shuffle d.pendingDirectProbes d
  { looped.2 with pendingDirectProbes := looped.1 }

/-- The loop of phase 2, with the probes that are kept so far.  A probe that succeeded ends it. -/
def checkIndirectProbesLoop : List PendingIndirectProbe → List PendingIndirectProbe →
    Detector → Detector
  | kept, [], d => { d with pendingIndirectProbes := kept }
  | kept, p :: rest, d =>
    if d.isComplete p.future ∧ d.probeResult p.future = 0 then
      { d.confirmAlive p.targetNodeId p.future now (some p.helperNodeId) with
        pendingIndirectProbes :=
          (kept ++ p :: rest).filter fun q => q.targetNodeId ≠ p.targetNodeId }
    else if d.isComplete p.future ∨ overdue p.sentAt now d.config.indirectProbeTimeoutSec then
      checkIndirectProbesLoop kept rest (d.suspect p.targetNodeId now (kept ++ rest))
    else checkIndirectProbesLoop (kept ++ [p]) rest d

/-- Phase 2 -/
def checkIndirectProbes : Detector := checkIndirectProbesLoop now [] d.pendingIndirectProbes d

/-- One round of phase 3: a host that is suspected for long, and silent for as long, is dead. -/
def checkSuspicion (n : NodeId) : Detector :=
  if (d.hosts.getHost n).any fun host => host.state = .suspected ∧
      Run2Run.expired host.stateChangedAt now d.config.suspicionTimeoutSec ∧
      Run2Run.expired host.lastInbound now d.config.suspicionTimeoutSec
  then d.modifyHosts (·.setDead n now) else d

/-- Phase 3 -/
def checkSuspicions : Detector :=
  (order.apply d.hosts.hostfileMap.keys).foldl (fun d n => d.checkSuspicion now n) d

/-- Phase 4 -/
def checkSelfFence : Detector :=
  let others := d.hosts.hostfileMap.keys.filter fun n => n ≠ d.self
  let bad := others.filter fun n => d.hosts.getNodeState n = .suspected ∨
    d.hosts.getNodeState n = .dead
  { d with selfFenced := 0 < others.length ∧ others.length < bad.length * 2 }

/-- Whether phase 5 may choose the host -/
def probeable (n : NodeId) : Bool :=
  n ≠ d.self ∧ d.hosts.getNodeState n ≠ .suspected ∧ d.hosts.getNodeState n ≠ .probeFailed ∧
    d.pendingDirectProbes.all fun b => b.targetNodeId ≠ n

/-- The next host, round robin, that phase 5 may choose, with its index -/
def nextTarget : Option (ℕ × NodeId) :=
  let hosts := order.apply d.hosts.hostfileMap.keys
  let indices := (List.range hosts.length).map fun i => (d.probeRoundRobinIdx + i) % hosts.length
  if 1 < hosts.length then
    indices.findSome? fun idx => (hosts[idx]?.filter d.probeable).map fun n => (idx, n)
  else none

/-- Phase 5 -/
def sendDirectProbe : Detector :=
  match d.nextTarget order with
  | none => d
  | some (idx, n) =>
    { d.asyncHeartbeat n now with probeRoundRobinIdx := (idx + 1) % d.hosts.getNumHosts }

/-- Phases 1 to 4 -/
def checkPeers : Detector :=
  (((d.checkDirectProbes now shuffle).checkIndirectProbes now).checkSuspicions now
    order).checkSelfFence

/-- `HeartbeatProbe` -/
def heartbeatProbe : Detector :=
  if d.config.enabled then (d.checkPeers now order shuffle).sendDirectProbe now order else d

end Phases

/-! ## What else happens on the node -/

section Others

variable (n target helper : NodeId) (now : ℕ) (d : Detector)

/-- This node has received a message. -/
def hear : Detector := { d with heard := (d.self, n) :: d.heard }

/-- `ProbeRequest` up to its loop -/
def probeRequest : Detector :=
  { d.submit target kHeartbeat with
    servedProbes := d.servedProbes ++ [⟨d.issued, target, now⟩] }

/-- A round of the loop of a `ProbeRequest`, and the answer if it is the last -/
def pollProbeRequest (b : ServedProbe) : Detector :=
  let complete := d.isComplete b.future
  if complete ∨ Run2Run.expired b.start now d.config.indirectProbeTimeoutSec then
    { d with
      servedProbes := d.servedProbes.erase b
      probeResults := d.probeResults ++ [(b.targetNodeId, if complete then 0 else -1)] }
  else d

/-- The first test of `RecvInHandleOne`, on the node that gave the task its id -/
def reviveOrigin : Detector :=
  if n ≠ d.self ∧ ¬ d.hosts.isAlive n then d.setAlive n now none true else d

/-- The tests of `RecvInHandleOne` on the node that sent the task -/
def reviveSender : Detector :=
  if n = d.self then d
  else
    let noted := d.modifyHosts (·.noteInbound n now)
    if noted.hosts.getNodeState n = .dead then (noted.flushStaleState n).setAlive n now none true
      else noted

/-- `RecvInHandleOne`, up to the dispatch of the task.  The task comes from `n`, which `SendIn` on
that node has noted as its return node. -/
def recvIn (origin : NodeId) (poolId : PoolId) : Detector :=
  let revived := (d.hear n).reviveOrigin origin now
  if (revived.ipc.node.pools.getStaticContainer poolId).isNone then revived
  else revived.reviveSender n now

/-- `AddNode` -/
def addNode (known : Option NodeId) : Detector := d.modifyHosts (·.addNode now known)

/-- `SendIn` of the first task in the network queue -/
def sendQueued (key : Address) (transmits : ReplicaId → Transmit) : Option Detector :=
  match d.netQueue with
  | [] => none
  | (f, task) :: rest =>
    ((Call.sendIn task key transmits now).exec d.ipc).map fun s => { d with
      ipc := s
      netQueue := rest
      futures := Function.update d.futures f
        (if d.ipc.created < s.created then some d.ipc.created else none) }

end Others

end Detector

/-- What happens on a node -/
inductive Op where
  | heartbeatProbe (now : ℕ) (order : Shuffle) (shuffle : NodeId → Shuffle)
  | probeRequest (target : NodeId) (now : ℕ)
  | pollProbeRequest (b : ServedProbe) (now : ℕ)
  | sendQueued (key : Address) (transmits : ReplicaId → Transmit) (now : ℕ)
  | sendIn (task : Task) (key : Address) (transmits : ReplicaId → Transmit) (now : ℕ)
  | recvIn (sender origin : NodeId) (poolId : PoolId) (now : ℕ)
  | recvOut (sender : NodeId) (responses : List Response)
  | taskProgress (key : Address) (rid : ReplicaId) (gone : Bool)
  | processRetryQueues (now : ℕ) (delivers : RetryEntry → NodeId → Bool)
  | scanSendMapTimeouts (now : ℕ)
  | announceShutdown (n : NodeId) (now : ℕ)
  | addNode (known : Option NodeId) (now : ℕ)
  /-- another node receives a message -/
  | overhear (helper sender : NodeId)

/-- The node whose responses arrive -/
def Op.responder : Op → Option NodeId
  | .recvOut sender _ => some sender
  | _ => none

namespace Detector

/-- A call of `Run2Run` -/
def call (c : Call) (d : Detector) : Option Detector :=
  (c.exec d.ipc).map fun s => { d with ipc := s }

/-- What an operation does to the node -/
def perform (d : Detector) : Op → Option Detector
  | .heartbeatProbe now order shuffle => some (d.heartbeatProbe now order shuffle)
  | .probeRequest target now => some (d.probeRequest target now)
  | .pollProbeRequest b now => if b ∈ d.servedProbes then some (d.pollProbeRequest now b) else none
  | .sendQueued key transmits now => d.sendQueued now key transmits
  | .sendIn task key transmits now => d.call (.sendIn task key transmits now)
  | .recvIn sender origin poolId now => some (d.recvIn sender now origin poolId)
  | .recvOut sender responses => (d.hear sender).call (.recvOut responses)
  | .taskProgress key rid gone => d.call (.taskProgress key rid gone)
  | .processRetryQueues now delivers => d.call (.retryQueues now delivers)
  | .scanSendMapTimeouts now => d.call (.scanTimeouts now)
  | .announceShutdown n now => d.call (.setDead n now)
  | .addNode known now => some (d.addNode now known)
  | .overhear helper sender => some { d with heard := (helper, sender) :: d.heard }

/-- The node is dead now and was not before. -/
def marksDead (d d' : Detector) (n : NodeId) : Bool := d'.isDead n && !d.isDead n

/-- What was received of a node counts only since it was marked dead. -/
def forget (d d' : Detector) : Detector :=
  { d' with heard := d'.heard.filter fun e => !d.marksDead d' e.2 }

/-- An operation -/
def step (d : Detector) (op : Op) : Option Detector := (d.perform op).map d.forget

/-- A node that has sent nothing yet -/
def start (node : Node) (config : SwimConfig) : Detector :=
  { ipc := Run2Run.start node, config := config }

/-! ## Host tables and pending probes -/

section Lemmas

variable {n m target helper : NodeId} {f : FutureId} {now : ℕ} {shuffle : Shuffle} {d : Detector}

@[simp] lemma hosts_modifyHosts {g : Hosts → Hosts} : (d.modifyHosts g).hosts = g d.hosts := rfl

variable {via : Option NodeId}

@[simp] lemma hosts_setAlive {byAnswer : Bool} :
    (d.setAlive n now via byAnswer).hosts = d.hosts.setAlive n now := rfl

lemma discards_flushStaleState : Run2Run.Discards d.ipc (d.flushStaleState n).ipc := by
  obtain ⟨s, hs, hdis⟩ := Call.exec_flush n d.ipc
  rwa [flushStaleState, hs]

@[simp] lemma hosts_flushStaleState : (d.flushStaleState n).hosts = d.hosts :=
  congrArg Node.hosts discards_flushStaleState.node

lemma isSome_getHost_of_getNodeState_ne (h : d.hosts.getNodeState n ≠ .dead) :
    (d.hosts.getHost n).isSome := by
  rw [isSome_iff_ne_none]
  intro hno
  exact h (by rw [Hosts.getNodeState, hno]; rfl)

/-- A node of which a probe succeeded is alive, unless the table does not have it. -/
lemma getNodeState_confirmAlive : (d.confirmAlive n f now via).hosts.getNodeState m =
      if m = n ∧ (d.hosts.getHost n).isSome then .alive else d.hosts.getNodeState m := by
  by_cases hdd : d.hosts.getNodeState n = .dead
  · rw [confirmAlive, if_pos hdd, hosts_setAlive, Hosts.getNodeState_setAlive,
      hosts_flushStaleState]
  · rw [confirmAlive, if_neg hdd, hosts_modifyHosts, Hosts.getNodeState_setNodeState]

lemma getNodeState_confirmAlive_self_ne :
    (d.confirmAlive n f now via).hosts.getNodeState n ≠ .probeFailed := by
  rw [getNodeState_confirmAlive]
  by_cases hkn : (d.hosts.getHost n).isSome
  · simp [hkn]
  · rw [if_neg fun h => hkn h.2]
    have hdd : d.hosts.getNodeState n = .dead := by
      by_contra h
      exact hkn (isSome_getHost_of_getNodeState_ne h)
    simp [hdd]

/-- Only the tables of this node and the record of revivals change. -/
structure Verdict (d x : Detector) : Prop where
  direct : x.pendingDirectProbes = d.pendingDirectProbes
  indirect : x.pendingIndirectProbes = d.pendingIndirectProbes
  futures : x.futures = d.futures
  heard : x.heard = d.heard
  issued : x.issued = d.issued
  netQueue : x.netQueue = d.netQueue

lemma verdict_confirmAlive : Verdict d (d.confirmAlive n f now via) := by
  rw [confirmAlive]
  split_ifs <;> exact ⟨rfl, rfl, rfl, rfl, rfl, rfl⟩

lemma verdict_failProbe : Verdict d (d.failProbe n now) := by
  rw [failProbe]
  split_ifs <;> exact ⟨rfl, rfl, rfl, rfl, rfl, rfl⟩

lemma verdict_suspect {pending : List PendingIndirectProbe} :
    Verdict d (d.suspect n now pending) := by
  rw [suspect]
  split_ifs <;> exact ⟨rfl, rfl, rfl, rfl, rfl, rfl⟩

/-- The requests to the helpers, one after the other -/
lemma foldl_asyncProbeRequest (helpers : List NodeId) :
    helpers.foldl (fun d helper => d.asyncProbeRequest target helper now) d = { d with
      netQueue := d.netQueue ++ (helpers.zipIdx d.issued).map fun e =>
      (e.2, probeTask e.1 kProbeRequest)
      issued := d.issued + helpers.length
      pendingIndirectProbes := d.pendingIndirectProbes ++
        (helpers.zipIdx d.issued).map fun e => ⟨e.2, target, e.1, now⟩ } := by
  induction helpers generalizing d with
  | nil => simp
  | cons helper helpers ih =>
    rw [foldl_cons, ih]
    simp [asyncProbeRequest, submit, Nat.add_assoc, Nat.add_comm 1]

lemma escalate_eq : d.escalate target now shuffle = { d.failProbe target now with
    netQueue := d.netQueue ++
    (((d.failProbe target now).helpers target shuffle).zipIdx d.issued).map
      fun e => (e.2, probeTask e.1 kProbeRequest)
    issued := d.issued + ((d.failProbe target now).helpers target shuffle).length
    pendingIndirectProbes := d.pendingIndirectProbes ++
      (((d.failProbe target now).helpers target shuffle).zipIdx d.issued).map
        fun e => ⟨e.2, target, e.1, now⟩ } := by
  rw [escalate, foldl_asyncProbeRequest, verdict_failProbe.netQueue, verdict_failProbe.issued,
    verdict_failProbe.indirect]

end Lemmas

/-! ## Operations that revive nobody -/

section Passive

variable {now : ℕ} {op : Op} {d e : Detector}

/-- Futures that were not issued are of no origin. -/
structure Numbered (d : Detector) : Prop where
  fresh : ∀ f, d.issued ≤ f → d.futures f = none
  queued : ∀ e ∈ d.netQueue, e.1 < d.issued

/-- Hosts only die, and the pending probes stay. -/
structure Passive (d : Detector) (op : Op) (e : Detector) : Prop where
  fades : d.hosts.Fades e.hosts
  direct : e.pendingDirectProbes = d.pendingDirectProbes
  indirect : e.pendingIndirectProbes = d.pendingIndirectProbes
  revivals : e.revivals = d.revivals
  heard : d.heard ⊆ e.heard
  responder : ∀ n ∈ op.responder, (d.self, n) ∈ e.heard
  numbered : d.Numbered → e.Numbered

/-- A call of `Run2Run`, perhaps after a message has arrived -/
lemma passive_call {c : Call} {heard : List (NodeId × NodeId)} (hc : ∀ n now, c ≠ .setAlive n now)
    (hhrd : d.heard ⊆ heard) (hres : ∀ n ∈ op.responder, (d.self, n) ∈ heard)
    (h : call c { d with heard := heard } = some e) : Passive d op e := by
  obtain ⟨s, hs, rfl⟩ := map_eq_some_iff.mp h
  exact ⟨Call.exec_fades hc hs, rfl, rfl, rfl, hhrd, hres, fun hd => ⟨hd.fresh, hd.queued⟩⟩

lemma passive_sendQueued {key : Address} {transmits : ReplicaId → Transmit}
    (hop : op.responder = none) (h : d.sendQueued now key transmits = some e) : Passive d op e := by
  rw [sendQueued] at h
  split at h
  · simp at h
  · next f task rest hque =>
      obtain ⟨s, hs, rfl⟩ := map_eq_some_iff.mp h
      refine ⟨Call.exec_fades (by simp) hs, rfl, rfl, rfl, List.Subset.refl _,
        fun _ hn => (by cases hop ▸ hn), fun hd => ⟨fun f' hf' => ?_, fun q hq => ?_⟩⟩
      · have hlt : f < d.issued := hd.queued (f, task) (hque ▸ mem_cons_self)
        dsimp only at hf' ⊢
        rw [Function.update_of_ne (hlt.trans_le hf').ne']
        exact hd.fresh f' hf'
      · exact hd.queued q (hque ▸ mem_cons_of_mem _ hq)

/-- **What an operation can do.** -/
lemma perform_cases (h : d.perform op = some e) :
    (∃ now order shuffle, op = .heartbeatProbe now order shuffle ∧
      e = d.heartbeatProbe now order shuffle) ∨
    (∃ sender origin poolId now, op = .recvIn sender origin poolId now ∧
      e = d.recvIn sender now origin poolId) ∨
    (∃ known now, op = .addNode known now ∧ e = d.addNode now known) ∨ Passive d op e := by
  have hfad : d.hosts.Fades d.hosts := Hosts.Fades.refl _
  cases op with
  | heartbeatProbe now order shuffle => exact .inl ⟨_, _, _, rfl, (some.inj h).symm⟩
  | recvIn sender origin poolId now =>
    exact .inr (.inl ⟨_, _, _, _, rfl, (some.inj h).symm⟩)
  | addNode known now => exact .inr (.inr (.inl ⟨_, _, rfl, (some.inj h).symm⟩))
  | probeRequest target now =>
    cases h
    refine .inr (.inr (.inr ⟨hfad, rfl, rfl, rfl, List.Subset.refl _,
      by simp [Op.responder], fun hd => ⟨fun f hf => ?_, fun q hq => ?_⟩⟩))
    · exact hd.fresh f (Nat.le_of_succ_le hf)
    · obtain hq | hq := mem_append.mp hq
      · exact (hd.queued q hq).trans (Nat.lt_succ_self _)
      · rw [mem_singleton.mp hq]
        exact Nat.lt_succ_self _
  | pollProbeRequest b now =>
    rw [perform] at h
    split_ifs at h
    cases h
    rw [pollProbeRequest]
    split_ifs <;> exact .inr (.inr (.inr ⟨hfad, rfl, rfl, rfl, List.Subset.refl _,
      by simp [Op.responder], fun hd => ⟨hd.fresh, hd.queued⟩⟩))
  | sendQueued key transmits now => exact .inr (.inr (.inr (passive_sendQueued rfl h)))
  | recvOut sender responses =>
    refine .inr (.inr (.inr (passive_call (by simp) (subset_cons_self _ _) (fun n hn => ?_) h)))
    cases hn
    exact mem_cons_self
  | overhear helper sender =>
    cases h
    exact .inr (.inr (.inr ⟨hfad, rfl, rfl, rfl, subset_cons_self _ _,
      by simp [Op.responder], fun hd => ⟨hd.fresh, hd.queued⟩⟩))
  | sendIn _ _ _ _ | taskProgress _ _ _ | processRetryQueues _ _ | scanSendMapTimeouts _
  | announceShutdown _ _ =>
    exact .inr (.inr (.inr (passive_call (by simp) (List.Subset.refl d.heard)
      (by simp [Op.responder]) h)))

end Passive

end Detector

end ClioCore.Runtime
