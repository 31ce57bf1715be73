import ClioCore.Runtime.Batches

/-!
# Collectives of a neighborhood

ManyToOne and AllToOne tasks are meant to meet on the leader of their neighborhood and to run there
as one aggregate.  A node that is the leader adds the task to its batch manager.  Any other node
sends a copy to the leader, like any task that goes to another node: `SendIn` replaces the query of
the copy by the physical address of the leader, and `RecvInHandleOne` marks the copy as routed.  The
leader therefore executes it at once, outside any group.

* `Neighborhood`, `CollectiveOp` — the nodes with their batch managers, the messages and the
  aggregates, and what can happen to them.
* `Gathered` — methods run only in aggregates, built from the group of the leader, and an aggregate
  with AllToOne members has one for every container.
* `CollectiveOp.atLeader` — submissions that are gathered: on the leader, into a group of the same
  mode.
-/

namespace ClioCore.Runtime

open Foundations List Function Option BatchManager

/-- A submitted task and its number. -/
abbrev Submission := ℕ × Task

/-- An aggregate task and the members it stands for. -/
structure Aggregate where
  node : NodeId
  key : GroupKey
  members : List Submission
  deriving DecidableEq

/-- A method that was executed: that of one task, or that of an aggregate. -/
inductive Execution where
  | single (node : NodeId) (task : Submission)
  | aggregate (a : Aggregate)
  deriving DecidableEq

/-- The nodes of a neighborhood and the collectives under way. -/
structure Neighborhood where
  cluster : NodeId → Node
  batches : NodeId → BatchManager Submission := fun _ => {}
  /-- copies on their way to another node -/
  wire : List (NodeId × Submission) := []
  /-- aggregates that wait for a worker, and those that are being executed -/
  queued : List Aggregate := []
  started : List Aggregate := []
  log : List Execution := []
  /-- each submission with the leader of its neighborhood at that time -/
  submitted : List (Submission × NodeId) := []

/-- What can happen in a neighborhood. -/
inductive CollectiveOp where
  | submit (n : NodeId) (now id : ℕ) (task : Task)
  | deliver (i : ℕ)
  | flush (n : NodeId) (now : ℕ)
  | exec (i : ℕ)
  | complete (i : ℕ)
  /-- all nodes come to share another view of which hosts are alive -/
  | view (hostfileMap : AList fun _ : NodeId => Host)

/-- `num_containers_` as `FlushDue` reads it -/
def Node.numContainers (node : Node) (p : PoolId) : ℕ :=
  (node.pools.getPoolInfo p).elim 0 PoolInfo.numContainers

/-- The leader as node `n` sees it. -/
def Neighborhood.leader (s : Neighborhood) (n : NodeId) : NodeId :=
  (s.cluster n).hosts.getNeighborhoodLeaderNodeId (s.cluster n).neighborhoodSize

namespace Neighborhood

variable (s : Neighborhood)

/-- A collective task is submitted on node `n`. -/
def submit (n : NodeId) (now id : ℕ) (task : Task) : Option Neighborhood :=
  if task.poolQuery.isCollectiveMode ∧ task.routed = false then
    let s := { s with submitted := s.submitted ++ [((id, task), s.leader n)] }
    let routed := routeTask (s.cluster n) (beginRunContext (s.cluster n) task)
    match routed.2 with
    | .parked =>
      let q := task.poolQuery
      let batch := (s.batches n).add task.groupKey now q.isAllToOne q.batchForNs (id, task)
      some { s with batches := Function.update s.batches n batch }
    | .network =>
      let copies := (sendIn (s.cluster n) routed.1).map fun copy => (copy.1, id, copy.2)
      some { s with wire := s.wire ++ copies }
    | .execHere | .dne => some s
  else none

/-- A copy arrives and is executed. -/
def deliver (i : ℕ) : Option Neighborhood :=
  s.wire[i]?.map fun copy =>
    let s := { s with wire := s.wire.eraseIdx i }
    match recvIn (s.cluster copy.1) copy.2.2 with
    | none => s
    | some received =>
      let executed := executeHere copy.1 (routeTask (s.cluster copy.1) received)
      { s with log := s.log ++ executed.map fun _ => .single copy.1 copy.2 }

/-- `BuildAndSubmit` -/
def buildAndSubmit (n : NodeId) (s : Neighborhood) (e : Σ _ : GroupKey, Group Submission) :
    Neighborhood :=
  if ((s.cluster n).pools.getStaticContainer e.1.poolId).isNone then
    { s with batches := Function.update s.batches n ((s.batches n).release e.1) }
  else { s with queued := s.queued ++ [⟨n, e.1, e.2.members⟩] }

/-- `FlushDue` -/
def flush (n : NodeId) (now : ℕ) : Neighborhood :=
  let flushed := (s.batches n).flushDue (s.cluster n).numContainers now
  flushed.1.foldl (buildAndSubmit n) { s with batches := Function.update s.batches n flushed.2 }

/-- The aggregate task: a copy of the first member with a local query. -/
def aggregateTask (a : Aggregate) : Task :=
  { poolId := a.key.poolId, method := a.key.method, poolQuery := .localQuery }

/-- A worker takes an aggregate and executes it, if routing finds a container. -/
def exec (i : ℕ) : Option Neighborhood :=
  s.queued[i]?.map fun a =>
    let node := s.cluster a.node
    let executed := executeHere a.node (routeTask node (beginRunContext node (aggregateTask a)))
    if executed = [] then s
    else { s with
      queued := s.queued.eraseIdx i, started := s.started ++ [a], log := s.log ++ [.aggregate a] }

/-- `OnAggregateComplete` -/
def complete (i : ℕ) : Option Neighborhood :=
  s.started[i]?.map fun a =>
    { s with
      started := s.started.eraseIdx i
      batches := Function.update s.batches a.node ((s.batches a.node).release a.key) }

/-- All nodes share a new view. -/
def view (hostfileMap : AList fun _ : NodeId => Host) : Neighborhood :=
  let cluster := fun n =>
    { s.cluster n with hosts := { (s.cluster n).hosts with hostfileMap := hostfileMap } }
  { s with cluster := cluster }

/-- One step. -/
def step : CollectiveOp → Option Neighborhood
  | .submit n now id task => s.submit n now id task
  | .deliver i => s.deliver i
  | .flush n now => some (s.flush n now)
  | .exec i => s.exec i
  | .complete i => s.complete i
  | .view hostfileMap => some (s.view hostfileMap)

end Neighborhood

/-- The AllToOne members of an aggregate. -/
def Aggregate.allToOnes (a : Aggregate) : List Submission :=
  a.members.filter fun m => m.2.poolQuery.isAllToOne

/-- An aggregate that was built from the group of its key on the leader; with AllToOne members it
has one for each container. -/
structure Gathers (s : Neighborhood) (a : Aggregate) : Prop where
  key : ∀ m ∈ a.members, m.2.groupKey = a.key
  leader : ∀ m ∈ a.members, (m, a.node) ∈ s.submitted
  barrier : a.allToOnes ≠ [] → (s.cluster a.node).numContainers a.key.poolId ≤ a.allToOnes.length

/-- **What collectives are for.** -/
def Gathered (s : Neighborhood) : Prop := ∀ e ∈ s.log, ∃ a, e = .aggregate a ∧ Gathers s a

/-- A submission on the leader that finds no group of the other mode. -/
def CollectiveOp.atLeader (s : Neighborhood) : CollectiveOp → Bool
  | .submit n _ _ task => decide (s.leader n = n ∧
      ∀ g ∈ (s.batches n).groups.lookup task.groupKey, g.countBased = task.poolQuery.isAllToOne)
  | _ => true

/-! ## What the steps keep -/

/-- What holds as long as everything is submitted on the leader. -/
structure Neighborhood.Orderly (s : Neighborhood) : Prop where
  nodeId : ∀ n, (s.cluster n).hosts.nodeId = n
  wire : s.wire = []
  groups : ∀ n k g, (s.batches n).groups.lookup k = some g → ∀ m ∈ g.members,
    m.2.groupKey = k ∧ (m, n) ∈ s.submitted ∧ m.2.poolQuery.isAllToOne = g.countBased
  queued : ∀ a ∈ s.queued, Gathers s a
  gathered : Gathered s

variable {s s' : Neighborhood} {a : Aggregate} {n : NodeId}

/-- Later submissions and other views do not matter to an aggregate. -/
lemma Gathers.mono (h : Gathers s a) (hsub : s.submitted ⊆ s'.submitted)
    (hps : ∀ n, (s'.cluster n).pools = (s.cluster n).pools) : Gathers s' a := by
  refine ⟨h.key, fun m hm => hsub (h.leader m hm), fun hne => ?_⟩
  rw [Node.numContainers, hps]
  exact h.barrier hne

lemma Gathered.mono (h : Gathered s) (hlog : s'.log = s.log) (hsub : s.submitted ⊆ s'.submitted)
    (hps : ∀ n, (s'.cluster n).pools = (s.cluster n).pools) : Gathered s' := by
  intro e he
  obtain ⟨a, ha, hgat⟩ := h e (hlog ▸ he)
  exact ⟨a, ha, hgat.mono hsub hps⟩

/-- A group that is due gathers. -/
lemma Neighborhood.Orderly.of_due (h : s.Orderly) {e : Σ _ : GroupKey, Group Submission} {now : ℕ}
    (he : e ∈ ((s.batches n).flushDue (s.cluster n).numContainers now).1) :
    Gathers s ⟨n, e.1, e.2.members⟩ := by
  obtain ⟨hmem, hdue⟩ := List.mem_filter.mp he
  obtain ⟨hrdy, -⟩ := Bool.and_eq_true_iff.mp hdue
  have hms := h.groups n e.1 e.2 (List.mem_dlookup (s.batches n).groups.nodupKeys hmem)
  refine ⟨fun m hm => (hms m hm).1, fun m hm => (hms m hm).2.1, fun hne => ?_⟩
  -- all members have the mode of the group
  cases hmode : e.2.countBased with
  | false =>
    refine absurd (filter_eq_nil_iff.mpr fun m hm => ?_) hne
    rw [(hms m hm).2.2, hmode]
    exact Bool.false_ne_true
  | true =>
    have hall : (⟨n, e.1, e.2.members⟩ : Aggregate).allToOnes = e.2.members :=
      filter_eq_self.mpr fun m hm => (hms m hm).2.2.trans hmode
    rw [ready, hmode, if_pos rfl, Bool.and_eq_true, decide_eq_true_eq, decide_eq_true_eq]
      at hrdy
    rw [hall]
    exact hrdy.2

namespace Neighborhood.Orderly

section

variable (h : s.Orderly)
include h

/-- Groups may be taken out of a batch manager. -/
lemma setBatch {bm : BatchManager Submission}
    (hbm : ∀ k g, bm.groups.lookup k = some g → (s.batches n).groups.lookup k = some g) :
    Orderly { s with batches := update s.batches n bm } := by
  refine ⟨h.nodeId, h.wire, fun m k g hg => ?_,
    fun a ha => (h.queued a ha).mono (.refl _) fun _ => rfl,
    h.gathered.mono rfl (.refl _) fun _ => rfl⟩
  dsimp only at hg
  obtain rfl | hm := eq_or_ne m n
  · rw [update_self] at hg
    exact h.groups m k g (hbm k g hg)
  · rw [update_of_ne hm] at hg
    exact h.groups m k g hg

lemma buildAndSubmit {e : Σ _ : GroupKey, Group Submission} (he : Gathers s ⟨n, e.1, e.2.members⟩)
    : (s.buildAndSubmit n e).Orderly := by
  rw [Neighborhood.buildAndSubmit]
  split_ifs
  · exact h.setBatch fun _ _ hg => hg
  · refine ⟨h.nodeId, h.wire, h.groups, fun a ha => ?_, h.gathered.mono rfl (.refl _) fun _ => rfl⟩
    obtain ha | ha := mem_append.mp ha
    · exact (h.queued a ha).mono (.refl _) fun _ => rfl
    · rw [mem_singleton.mp ha]
      exact he.mono (.refl _) fun _ => rfl

lemma flush (n : NodeId) (now : ℕ) : (s.flush n now).Orderly := by
  have hbld (due : List (Σ _ : GroupKey, Group Submission)) (t : Neighborhood) (ht : t.Orderly)
      (hdue : ∀ e ∈ due, Gathers t ⟨n, e.1, e.2.members⟩) :
      (due.foldl (Neighborhood.buildAndSubmit n) t).Orderly := by
    induction due generalizing t with
    | nil => exact ht
    | cons e rest ih =>
      refine ih _ (ht.buildAndSubmit (hdue e mem_cons_self)) fun e' he' => ?_
      have hkp := hdue e' (mem_cons_of_mem _ he')
      rw [Neighborhood.buildAndSubmit]
      split_ifs
      · exact hkp.mono (.refl _) fun _ => rfl
      · exact hkp.mono (.refl _) fun _ => rfl
  refine hbld _ _ (h.setBatch fun k g hg => lookup_flushDue hg) fun e he => ?_
  exact (h.of_due he).mono (.refl _) fun _ => rfl

lemma complete {i : ℕ} (hs : s.complete i = some s') : s'.Orderly := by
  obtain ⟨a, -, rfl⟩ := map_eq_some_iff.mp hs
  have hrel : Orderly
      { s with batches := update s.batches a.node ((s.batches a.node).release a.key) } :=
    h.setBatch fun _ _ hg => hg
  exact ⟨hrel.nodeId, hrel.wire, hrel.groups, fun b hb => (hrel.queued b hb).mono
    (.refl _) fun _ => rfl, hrel.gathered.mono rfl (.refl _) fun _ => rfl⟩

lemma exec {i : ℕ} (hs : s.exec i = some s') : s'.Orderly := by
  obtain ⟨a, ha, rfl⟩ := map_eq_some_iff.mp hs
  have hgat := h.queued a (mem_of_getElem? ha)
  dsimp only
  split_ifs
  · exact h
  · refine ⟨h.nodeId, h.wire, h.groups, fun b hb => ?_, fun e he => ?_⟩
    · exact (h.queued b (mem_of_mem_eraseIdx hb)).mono (.refl _) fun _ => rfl
    · obtain he | he := mem_append.mp he
      · obtain ⟨b, hb, hgood⟩ := h.gathered e he
        exact ⟨b, hb, hgood.mono (.refl _) fun _ => rfl⟩
      · exact ⟨a, mem_singleton.mp he, hgat.mono (.refl _) fun _ => rfl⟩

lemma view (hostfileMap : AList fun _ : NodeId => Host) : (s.view hostfileMap).Orderly :=
  ⟨h.nodeId, h.wire, h.groups, fun a ha => (h.queued a ha).mono (.refl _) fun _ => rfl,
    h.gathered.mono rfl (.refl _) fun _ => rfl⟩

/-- The leader parks the task in the group of its key. -/
lemma submit {now id : ℕ} {task : Task} (hs : s.submit n now id task = some s')
    (hok : CollectiveOp.atLeader s (.submit n now id task)) : s'.Orderly := by
  obtain ⟨hlea, hmode⟩ := of_decide_eq_true hok
  rw [Neighborhood.submit] at hs
  split_ifs at hs with hnew
  have hrou : routeTask (s.cluster n) (beginRunContext (s.cluster n) task) =
      ({ beginRunContext (s.cluster n) task with routed := true }, .parked) := by
    have hsf : (s.cluster n).hosts.getNeighborhoodLeaderNodeId (s.cluster n).neighborhoodSize =
        (s.cluster n).hosts.nodeId := hlea.trans (h.nodeId n).symm
    rw [routeTask, if_neg (by rw [beginRunContext, hnew.2]; exact Bool.false_ne_true),
      if_pos (by exact hnew.1), routeManyToOne, if_pos hsf]
  dsimp only at hs
  rw [hrou] at hs
  cases hs
  have hgr : s.submitted ⊆ s.submitted ++ [((id, task), s.leader n)] := subset_append_left _ _
  refine ⟨h.nodeId, h.wire, fun m k g hg => ?_, fun a ha => (h.queued a ha).mono hgr fun _ => rfl,
    h.gathered.mono rfl hgr fun _ => rfl⟩
  have hold : ∀ {m k g}, (s.batches m).groups.lookup k = some g → ∀ x ∈ g.members,
      x.2.groupKey = k ∧ (x, m) ∈ s.submitted ++ [((id, task), s.leader n)] ∧
        x.2.poolQuery.isAllToOne = g.countBased := fun hg x hx =>
    ⟨(h.groups _ _ _ hg x hx).1, hgr (h.groups _ _ _ hg x hx).2.1, (h.groups _ _ _ hg x hx).2.2⟩
  have hnew : ((id, task), n) ∈ s.submitted ++ [((id, task), s.leader n)] := by
    rw [hlea]
    exact mem_append_right _ (mem_singleton_self _)
  dsimp only at hg
  obtain rfl | hm := eq_or_ne m n
  · rw [update_self] at hg
    obtain rfl | hk := eq_or_ne k task.groupKey
    · rw [add, AList.lookup_insert, some.injEq] at hg
      subst hg
      intro x hx
      cases hg0 : (s.batches m).groups.lookup task.groupKey with
      | none =>
        rw [hg0] at hx
        rw [mem_singleton.mp hx]
        exact ⟨rfl, hnew, rfl⟩
      | some g0 =>
        rw [hg0] at hx
        obtain hx | hx := mem_append.mp hx
        · exact hold hg0 x hx
        · rw [mem_singleton.mp hx]
          exact ⟨rfl, hnew, (hmode g0 hg0).symm⟩
    · rw [add, AList.lookup_insert_ne hk] at hg
      exact hold hg
  · rw [update_of_ne hm] at hg
    exact hold hg

/-- **Step.** -/
lemma step {op : CollectiveOp} (hok : op.atLeader s) (hs : s.step op = some s') : s'.Orderly := by
  cases op with
  | submit n now id task => exact h.submit hs hok
  | deliver i =>
    -- nothing is on the wire
    simp [Neighborhood.step, Neighborhood.deliver, h.wire] at hs
  | flush n now => exact some.inj hs ▸ h.flush n now
  | exec i => exact h.exec hs
  | complete i => exact h.complete hs
  | view hostfileMap => exact some.inj hs ▸ h.view hostfileMap

end

end Neighborhood.Orderly

/-- **Collectives gather on the leader**, in every run in which each task is submitted on the node
that its view of the neighborhood names as the leader and finds no group of the other mode there. -/
theorem collectives_gathered_of_atLeader (cluster : NodeId → Node) (ops : List CollectiveOp)
    (hid : ∀ n, (cluster n).hosts.nodeId = n)
    (hok : Meets Neighborhood.step (fun s op => op.atLeader s) { cluster := cluster } ops)
    (s : Neighborhood)
    (hrun : runAll Neighborhood.step { cluster := cluster } ops = some s) : Gathered s := by
  have hst : Neighborhood.Orderly { cluster := cluster } :=
    ⟨hid, rfl, fun n k g hg => absurd hg (by simp), fun a ha => absurd ha not_mem_nil,
      fun e he => absurd he not_mem_nil⟩
  exact (runAll_invariant Neighborhood.Orderly (fun s op _ s' hs hop hstp => hs.step hop hstp) hst
    hok hrun).gathered

/-- A collective task of the pool `(2, 0)`. -/
def collective (q : PoolQuery) : Task := { poolId := ⟨2, 0⟩, poolQuery := q }

/-- Two AllToOne tasks on the leader of two nodes. -/
def pairOnLeader : List CollectiveOp :=
  [.submit 0 0 0 (collective (.allToOne 0 0)), .submit 0 0 1 (collective (.allToOne 0 0)),
    .flush 0 0, .exec 0]

/-- They run in one aggregate. -/
theorem collectives_gathered_pair :
    ∃ s, runAll Neighborhood.step { cluster := created 2 2 } pairOnLeader = some s ∧
      s.log.length = 1 ∧ Gathered s :=
  ⟨_, rfl, by decide +kernel,
    collectives_gathered_of_atLeader (created 2 2) pairOnLeader (fun _ => rfl)
    (by decide +kernel) _ rfl⟩

/-- An AllToOne task is submitted on node 1, which is not the leader. -/
def oneElsewhere : List CollectiveOp := [.submit 1 0 0 (collective (.allToOne 0 0)), .deliver 0]

/-- An AllToOne task finds the group of a ManyToOne task. -/
def mixedModes : List CollectiveOp :=
  [.submit 0 0 0 (collective (.manyToOne 0 0 10)), .submit 0 5 1 (collective (.allToOne 0 0)),
    .flush 0 10, .exec 0]

/-- The forwarded task is executed by the leader outside any group, and the mixed group runs with
one AllToOne member of two. -/
theorem collectives_scattered :
    (∃ s, runAll Neighborhood.step { cluster := created 2 2 } oneElsewhere = some s ∧
      ¬ Gathered s) ∧
      ∃ s, runAll Neighborhood.step { cluster := created 2 2 } mixedModes = some s ∧
      ¬ Gathered s := by
  refine ⟨⟨_, rfl, fun h => ?_⟩, ⟨_, rfl, fun h => ?_⟩⟩
  · obtain ⟨a, ha, -⟩ := h _ mem_cons_self
    exact Execution.noConfusion ha
  · obtain ⟨a, ha, hgat⟩ := h _ mem_cons_self
    cases ha
    exact absurd (hgat.barrier (by decide +kernel)) (by decide +kernel)

end ClioCore.Runtime
