import ClioCore.Runtime.Run2Run

/-!
# Retries that go to another node

A copy that waits in `send_in_retry_` for a dead node is sent to the node that has taken over its
container.  `progress_map_` is not told: it goes on naming the first target, and the scan for dead
targets gives the replica up.  The new node stays the target of the entry when it does not take the
copy, and a later pass sends the copy there as to any live target.  Node 0 never counts as the new
owner, because `RerouteRetryEntry` answers 0 when there is none.

* `Pass` — a pass of the loop over the queue, and what it finds.
* `Accounted` — what the copies of the queue are owed in a pass.
* `StaysHome` — the fate of an entry over the passes, in which it ends up at its first target or
  nowhere.
-/

namespace ClioCore.Runtime

open Foundations Option List Run2Run

/-- The node that `progress_map_` names for the replica -/
def Run2Run.recorded (s : Run2Run) (e : RetryEntry) : Option NodeId :=
  ((s.progressMap.lookup e.netKey).bind (·[e.replicaId]?)).bind ReplicaProgress.target

/-- A pass of `ProcessRetryQueues` over `send_in_retry_`: the hosts and the address maps as failure
detection and recovery have left them by then, the time, and what the transport does. -/
structure Pass where
  node : Node
  now : ℕ
  delivers : RetryEntry → NodeId → Bool

namespace Pass

variable (r : Pass) (e : RetryEntry) (s : Run2Run)

/-- The queue after the pass; the verdicts on late entries come when it is no longer locked. -/
def exec : Run2Run := ({ s with node := r.node }.retryQueue r.now r.delivers).2

def late : Bool := expired e.enqueuedAt r.now (timeoutOf e.query.netTimeout)

/-- The node that the address map names for the container of the query -/
def owner : Option NodeId :=
  let find := fun c => (r.node.pools.getPoolInfo e.poolId).bind fun info => info.addressMap.lookup c
  match e.query.routingMode with
  | .directId => find e.query.containerId
  | .range => find e.query.rangeOffset
  | _ => none

/-- The node that the loop tries -/
def tries : NodeId :=
  let n := (start r.node).rerouteRetryEntry e
  if r.node.hosts.isAlive e.target then e.target
  else if n ≠ 0 ∧ r.node.hosts.isAlive n then n
  else e.target

/-- The entry as it goes on waiting, unless the copy has been sent -/
def keeps : Option RetryEntry := (start r.node).retryEntry r.delivers e

/-- A dead target whose container has a live owner -/
def Moved (n : NodeId) : Prop :=
  r.node.hosts.isAlive e.target = false ∧ r.owner e = some n ∧ r.node.hosts.isAlive n = true

/-- What a waiting copy that is not late is owed: it is recorded at the node it is sent to, and a
live owner is tried in place of a dead target. -/
structure Accounted : Prop where
  recorded : ∀ e ∈ s.sendInRetry, r.late e = false → r.keeps e = none →
    (r.exec s).recorded e = some (r.tries e)
  owner : ∀ e ∈ s.sendInRetry, r.late e = false → ∀ n, r.Moved e n → r.tries e = n

end Pass

/-- Over the passes the entry is late, or waits, or is sent to its first target; the owner that
takes the place of a dead target is not node 0. -/
def StaysHome (home : Option NodeId) : RetryEntry → List Pass → Prop
  | _, [] => True
  | e, r :: rs => r.late e = true ∨ ¬ r.Moved e 0 ∧ (r.keeps e = none → home = some (r.tries e)) ∧
      ∀ e' ∈ r.keeps e, StaysHome home e' rs

instance (r : Pass) (e : RetryEntry) (n : NodeId) : Decidable (r.Moved e n) :=
  inferInstanceAs (Decidable (_ ∧ _ ∧ _))

instance decidableStaysHome (home : Option NodeId) :
    ∀ (rs : List Pass) (e : RetryEntry), Decidable (StaysHome home e rs)
  | [], _ => .isTrue trivial
  | r :: rs, e =>
    have := decidableStaysHome home rs
    inferInstanceAs (Decidable (_ ∨ ¬ r.Moved e 0 ∧ (r.keeps e = none → _) ∧ ∀ e' ∈ r.keeps e, _))

namespace Pass

variable {r : Pass} {e : RetryEntry} {s : Run2Run} {n : NodeId}

end Pass

end ClioCore.Runtime
