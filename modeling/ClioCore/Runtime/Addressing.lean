import ClioCore.Runtime.Routing

/-!
# Which container executes a task

What becomes of a task that addresses one container, and of one that addresses a range of them or
all.

The submitting node resolves the address.  If the container is on that node, `RouteLocal` looks it
up again, by the id in the task's own query, which is the addressed one for `DirectId` and 0 for the
other modes.  If it is on another node, only the node is sent along, and the receiver executes the
task on its local container.  A sub-range of several containers goes to the node of its first one,
as one task.

* `RunsOn` — the addressed container, and nothing else, executes the task.
* `ReachesRange` — each container of a range executes the task once, and nothing else does.
-/

namespace ClioCore.Runtime

open List Option PoolManager Nat Node

variable {cluster : NodeId → Node} {p : PoolId} {nodes : List NodeId} {num : ℕ}
  {host : ContainerId → NodeId} {s c n m : ℕ} {t : ℚ}

/-- The queries, to be answered to this node. -/
def Node.returning (node : Node) (qs : List PoolQuery) : List PoolQuery :=
  qs.map fun r => { r with retNode := node.hosts.nodeId }

/-- The container registered under `c` on node `n` executed the task, and nothing else did. -/
def RunsOn (cluster : NodeId → Node) (p : PoolId) (n : NodeId) (c : ContainerId)
    (executed : List (NodeId × Container)) : Prop :=
  ∃ x, (cluster n).pools.getContainerRaw p c = some x ∧ executed = [(n, x)]

/-- The container that answers on node `n` for the whole pool is the one registered under `c`. -/
def AnswersFor (cluster : NodeId → Node) (p : PoolId) (n : NodeId) (c : ContainerId) : Prop :=
  (cluster n).pools.getRealOrStaticContainer p = (cluster n).pools.getContainerRaw p c

/-! ## One container -/

lemma runsOn_toList {answer : Option Container} {x : Container}
    (hx : (cluster n).pools.getContainerRaw p c = some x) :
    RunsOn cluster p n c (answer.toList.map fun y => (n, y)) ↔
      answer = (cluster n).pools.getContainerRaw p c := by
  rw [RunsOn, hx]
  cases answer with
  | none => simp
  | some y => simp

namespace Spread

section

variable (h : Spread cluster p nodes num host)
include h

lemma raw (hc : c < num) : ∃ x, (cluster (host c)).pools.getContainerRaw p c = some x := by
  have hplc := (h.placed c hc _ (h.host_mem c hc)).mpr rfl
  rw [hasContainer_eq] at hplc
  exact isSome_iff_exists.mp hplc

lemma ne_invalid (hc : c < num) : c ≠ kInvalidContainerId := by
  have hsma := h.small
  rw [kInvalidContainerId]
  omega

lemma execute_directId (hs : s ∈ nodes) (hc : c < num) :
    execute cluster s { poolId := p, method := m, poolQuery := .directId c t } =
      if s = host c ∧ (cluster s).forceNet = false then
        ((cluster s).pools.getContainer p c).toList.map fun x => (s, x)
      else respond cluster p (host c) := by
  have hplc := h.placed c hc s hs
  have hres : resolvePoolQuery (cluster s) p (.directId c t) =
      [{ (if s = host c then PoolQuery.localQuery else PoolQuery.physical (host c)) with
        retNode := (cluster s).hosts.nodeId }] := by
    rw [resolvePoolQuery, h.notNull]
    dsimp only [PoolQuery.directId, resolveDirectIdQuery]
    rw [h.mapped c hc s hs]
    by_cases hsc : s = host c
    · rw [if_pos (hplc.mpr hsc), if_pos hsc]
      rfl
    · rw [if_neg (mt hplc.mp hsc), if_neg hsc]
      rfl
  refine h.execute_single hs hc rfl rfl (.inl rfl) hres (fun hsc => ?_) fun hsc => .inl ?_
  · rw [if_pos hsc]
    rfl
  · rw [if_neg hsc]
    exact ⟨rfl, rfl⟩

lemma resolveContainer_eq (hs : s ∈ nodes) (hc : c < num) :
    resolveContainer (cluster s) p c = [if s = host c then .localQuery else .directId c] := by
  have hplc := h.placed c hc s hs
  rw [resolveContainer, h.mapped c hc s hs, h.nodeId s hs]
  by_cases hsc : s = host c
  · rw [if_pos (hplc.mpr hsc), if_pos hsc]
  · rw [if_neg (mt hplc.mp hsc), if_neg (Ne.symm hsc), if_neg hsc]

/-- A task for container `c` whose query does not carry the id. -/
lemma execute_resolved (hs : s ∈ nodes) (hc : c < num) {q : PoolQuery}
    (hmode : Addressed q.routingMode) (hid : q.containerId = 0)
    (hres : resolvePoolQuery (cluster s) p q
      = (cluster s).returning (resolveContainer (cluster s) p c)) :
    execute cluster s { poolId := p, method := m, poolQuery := q } =
      if s = host c ∧ (cluster s).forceNet = false then
        ((cluster s).pools.getContainer p 0).toList.map fun x => (s, x)
      else respond cluster p (host c) := by
  rw [h.resolveContainer_eq hs hc] at hres
  refine (h.execute_single hs hc rfl rfl hmode hres (fun hsc => ?_) fun hsc => .inr ?_).trans ?_
  · rw [if_pos hsc]
    rfl
  · rw [if_neg hsc]
    exact ⟨rfl, rfl⟩
  · rw [hid]

end

end Spread

/-- **The addressed container.**  A task for container `c` by its id is executed by `c` exactly when
it is submitted on the node of `c`, without forced networking, or `c` is the container that answers
there for the whole pool.  A task by hash is executed by the container of its hash exactly when that
container is what the node of the container answers with: for id 0 if the task is submitted there,
for the whole pool otherwise. -/
theorem addressed_container_executes_iff (h : Spread cluster p nodes num host)
    (hs : s ∈ nodes) (m : ℕ) (t : ℚ) :
    (∀ c < num, RunsOn cluster p (host c) c
          (execute cluster s { poolId := p, method := m, poolQuery := .directId c t }) ↔
        s = host c ∧ (cluster s).forceNet = false ∨ AnswersFor cluster p (host c) c) ∧
    ∀ hash, 0 < num → (RunsOn cluster p (host (hash % num)) (hash % num)
          (execute cluster s { poolId := p, method := m, poolQuery := .directHash hash t }) ↔
        if s = host (hash % num) ∧ (cluster s).forceNet = false then
          (cluster s).pools.getContainer p 0 = (cluster s).pools.getContainerRaw p (hash % num)
        else AnswersFor cluster p (host (hash % num)) (hash % num)) := by
  refine ⟨fun c hc => ?_, fun hash hnum => ?_⟩
  · obtain ⟨x, hx⟩ := h.raw hc
    rw [h.execute_directId hs hc]
    split_ifs with hhere
    · rw [hhere.1, PoolManager.getContainer_of_raw (h.ne_invalid hc) hx, runsOn_toList hx, hx]
      exact iff_of_true rfl (.inl ⟨rfl, hhere.1 ▸ hhere.2⟩)
    · rw [respond, runsOn_toList hx, or_iff_right hhere, AnswersFor]
  · obtain ⟨x, hx⟩ := h.raw (Nat.mod_lt hash hnum)
    have hres : resolvePoolQuery (cluster s) p (.directHash hash t) =
        (cluster s).returning (resolveContainer (cluster s) p (hash % num)) := by
      obtain ⟨info, hin, hcnt⟩ := h.numContainers hs
      rw [resolvePoolQuery, h.notNull, if_neg Bool.false_ne_true]
      dsimp only [PoolQuery.directHash, resolveDirectHashQuery]
      rw [hin]
      dsimp only
      rw [hcnt, if_neg hnum.ne', returning]
    rw [h.execute_resolved hs (Nat.mod_lt hash hnum) (.inr (.inl rfl)) rfl hres]
    split_ifs with hhere
    · rw [hhere.1]
      exact runsOn_toList hx
    · rw [respond, runsOn_toList hx, AnswersFor]

/-- A pool of three containers on two nodes: container 0 on node 0, containers 1 and 2 on node 1. -/
def crowded (n : NodeId) : Node where
  hosts := ⟨n, ((∅ : AList fun _ : NodeId => Host).insert 1 {}).insert 0 {}, []⟩
  pools := ⟨(∅ : AList fun _ : PoolId => PoolInfo).insert ⟨2, 0⟩
    (if n = 0 then ((PoolInfo.create 3 0).registerContainer 0 1 0).updateContainerNodeMapping 2 1
      else (((PoolInfo.create 3 0).registerContainer 1 1 0).registerContainer 2 2
        0).updateContainerNodeMapping 2 1)⟩
  neighborhoodSize := 32

lemma spread_crowded : Spread crowded ⟨2, 0⟩ [0, 1] 3 (fun c => if c = 0 then 0 else 1) where
  notNull := by decide +kernel
  small := by decide +kernel
  nodeId := by decide +kernel
  hosts := by decide +kernel
  alive := by decide +kernel
  reached := by
    intro n hn
    obtain rfl | rfl : n = 0 ∨ n = 1 := by simpa using hn
    · exact ⟨_, rfl, 0, [.register 0 1 0, .remap 2 1], rfl⟩
    · exact ⟨_, rfl, 0, [.register 1 1 0, .register 2 2 0, .remap 2 1], rfl⟩
  host_mem := by decide +kernel
  mapped := by decide +kernel
  placed := by decide +kernel

/-- Container 1 answers for node 1, so a task for it that is submitted on node 0 reaches it. -/
theorem addressed_container_executes_first :
    RunsOn crowded ⟨2, 0⟩ 1 1 (execute crowded 0 { poolId := ⟨2, 0⟩, poolQuery := .directId 1 }) :=
  ((addressed_container_executes_iff spread_crowded (s := 0) (by decide) 0 (-1)).1 1
    (by decide)).mpr (.inr (by rw [AnswersFor]; decide +kernel))

/-- Node 1 hosts containers 1 and 2.  A task for container 2 is executed by container 1, submitted
by id on node 0 or by hash on node 1. -/
theorem addressed_container_crowded :
    Spread crowded ⟨2, 0⟩ [0, 1] 3 (fun c => if c = 0 then 0 else 1) ∧
      execute crowded 0 { poolId := ⟨2, 0⟩, poolQuery := .directId 2 } = [(1, ⟨1, 1⟩)] ∧
      execute crowded 1 { poolId := ⟨2, 0⟩, poolQuery := .directHash 2 } = [(1, ⟨1, 1⟩)] ∧
      ¬ RunsOn crowded ⟨2, 0⟩ 1 2 [(1, ⟨1, 1⟩)] := by
  refine ⟨spread_crowded, by decide +kernel, by decide +kernel, ?_⟩
  rintro ⟨x, hx, hexe⟩
  have hraw : (crowded 1).pools.getContainerRaw ⟨2, 0⟩ 2 = some ⟨2, 2⟩ := by decide +kernel
  cases hraw.symm.trans hx
  simp at hexe

/-! ## Ranges -/

/-- The container of node `k` that has the id of the node. -/
def own (cluster : NodeId → Node) (p : PoolId) (k : NodeId) : List (NodeId × Container) :=
  ((cluster k).pools.getContainerRaw p k).toList.map fun x => (k, x)

/-- Each container of `[o, o + c)` executed the task once, container `k` on node `k`, and nothing
else did. -/
def ReachesRange (cluster : NodeId → Node) (p : PoolId) (o c : ℕ)
    (executed : List (NodeId × Container)) : Prop :=
  executed.Perm ((List.range' o c).flatMap (own cluster p))

/-- A range of `count` containers is cut into single ones. -/
def CutsToSingles (count neighborhoodSize : ℕ) : Prop :=
  count ≤ neighborhoodSize ∨ neighborhoodSize = 1 ∨ 2 ^ 32 ≤ count + neighborhoodSize - 1

section Cutting

variable {count size : ℕ}

/-- If the sum wraps around, the quotient is zero and the range is cut into single containers as
well. -/
lemma queriesToCreate_eq (hcnt : 2 ≤ count) (hsma : count < 2 ^ 32) (hsz : 1 ≤ size)
    (hsz' : size < 2 ^ 32) (h : CutsToSingles count size) : queriesToCreate count size = count := by
  rw [queriesToCreate, if_pos]
  obtain rfl | hone := eq_or_ne size 1
  · exact min_le_right _ _
  · rw [CutsToSingles] at h
    exact (min_le_left _ _).trans (Nat.lt_succ_iff.mp (Nat.div_lt_of_lt_mul (by omega)))

lemma queriesToCreate_lt (hcnt : 2 ≤ count) (hsz : 1 ≤ size) (h : ¬ CutsToSingles count size) :
    queriesToCreate count size < count := by
  rw [CutsToSingles, not_or, not_or, not_le, not_le] at h
  obtain ⟨hlar, hone, hnow⟩ := h
  have hmod : (count + size - 1) % 2 ^ 32 = count + size - 1 := mod_eq_of_lt hnow
  have hide : 2 ≤ (count + size - 1) / size := (le_div_iff_mul_le (by omega)).mpr (by omega)
  rw [queriesToCreate, hmod, if_neg (by rw [not_le, lt_min_iff]; omega)]
  omega

/-- Cutting gives as many sub-ranges as the loop has rounds. -/
lemma length_subRanges {offset perQuery remaining queries : ℕ} (h : 0 < perQuery) :
    (subRanges offset perQuery remaining queries).length = queries := by
  have hlp (rounds : List ℕ) (acc : List PoolQuery × ℕ) : (rounds.foldl (fun acc i =>
        let count := if i < remaining then perQuery + 1 else perQuery
        if 0 < count then (acc.1 ++ [.range acc.2 count], (acc.2 + count) % 2 ^ 32)
          else acc) acc).1.length =
      acc.1.length + rounds.length := by
    induction rounds generalizing acc with
    | nil => rfl
    | cons i rest ih =>
      have hpos : 0 < if i < remaining then perQuery + 1 else perQuery := by split_ifs <;> omega
      rw [foldl_cons, length_cons, ih]
      rw [if_pos hpos, length_append, length_singleton]
      omega
  exact (hlp (range queries) ([], offset)).trans (by simp)

/-- Cutting into single containers. -/
lemma subRanges_singles {offset : ℕ} (h : offset + count < 2 ^ 32) :
    subRanges offset 1 0 count = (range' offset count).map fun k => .range k 1 := by
  have hlp (k : ℕ) (hk : k ≤ count) : ((range k).foldl (fun acc i =>
        let count := if i < 0 then 1 + 1 else 1
        if 0 < count then (acc.1 ++ [.range acc.2 count], (acc.2 + count) % 2 ^ 32) else acc)
        (([], offset) : List PoolQuery × ℕ)) =
      ((range' offset k).map fun k => .range k 1, offset + k) := by
    induction k with
    | zero => rfl
    | succ k ih =>
      rw [range_succ, foldl_append, ih (by omega), range'_concat]
      simp only [foldl_cons, foldl_nil, not_lt_zero, if_false, one_pos, if_true,
        map_append, one_mul]
      rw [mod_eq_of_lt (by omega)]
      rfl
  rw [subRanges, hlp count le_rfl]

/-- At least two sub-ranges are made of at least two containers. -/
lemma two_le_queriesToCreate (hcnt : 2 ≤ count) : 2 ≤ queriesToCreate count size := by
  rw [queriesToCreate]
  split_ifs
  · exact hcnt
  · omega

lemma queriesToCreate_le (hcnt : 2 ≤ count) : queriesToCreate count size ≤ count := by
  rw [queriesToCreate]
  split_ifs with hone
  · exact le_rfl
  · have hsz : 2 ≤ size := by omega
    have hmod : (count + size - 1) % 2 ^ 32 ≤ count + size - 1 := mod_le _ _
    refine (min_le_left _ _).trans (Nat.div_le_of_le_mul (hmod.trans ?_))
    obtain ⟨a, rfl⟩ := Nat.exists_eq_add_of_le hcnt
    obtain ⟨b, rfl⟩ := Nat.exists_eq_add_of_le hsz
    have hpro : (2 + b) * (2 + a) = 4 + 2 * a + 2 * b + b * a := by ring
    omega

/-- A range of at least two containers is cut into at least two sub-ranges. -/
lemma length_resolveRangeQuery (node : Node) (p : PoolId) (o : ℕ) (hcnt : 2 ≤ count) :
    (resolveRangeQuery node p (.range o count)).length =
    queriesToCreate count node.neighborhoodSize := by
  have htwo : 2 ≤ queriesToCreate count node.neighborhoodSize := two_le_queriesToCreate hcnt
  rw [resolveRangeQuery, if_neg (by change count ≠ 0; omega), if_neg (by change count ≠ 1; omega)]
  exact length_subRanges (div_pos (queriesToCreate_le hcnt) (two_pos.trans_le htwo))

end Cutting

lemma isTaskLocal_many {node : Node} {queries : List PoolQuery} (hlen : 2 ≤ queries.length)
    (hhos : node.hosts.getNumHosts ≠ 1) : isTaskLocal node queries false = false := by
  match queries, hlen with
  | a :: b :: rest, _ =>
    change (if node.forceNet = true then false else node.hosts.getNumHosts == 1) = false
    split_ifs
    · rfl
    · exact beq_false_of_ne hhos

namespace Spread

variable {o : ℕ} {q : PoolQuery}

lemma respond_eq (h : Spread cluster p nodes num host) (hs : s ∈ nodes) :
    ∃ y, (cluster s).pools.getRealOrStaticContainer p = some y ∧
    respond cluster p s = [(s, y)] := by
  have hstc := h.static hs
  obtain ⟨info, hin, -⟩ := h.reached s hs
  rw [getStaticContainer, hin, bind_some, isNone_eq_false_iff, isSome_iff_exists] at hstc
  obtain ⟨x, hx⟩ := hstc
  have hansw : (cluster s).pools.getRealOrStaticContainer p = info.localContainer.or (some x) := by
    rw [getRealOrStaticContainer, hin, bind_some, PoolInfo.getRealOrStaticContainer, hx]
  rw [respond, hansw]
  cases info.localContainer <;> exact ⟨_, rfl, rfl⟩

section

variable (h : Spread cluster p (List.range n) n id)
include h

/-- There are as many containers in a range as it has ids. -/
lemma length_own (hoc : o + c ≤ n) : ((range' o c).flatMap (own cluster p)).length = c := by
  have hone : ∀ k ∈ range' o c, (own cluster p k).length = 1 := by
    intro k hk
    obtain ⟨x, hx⟩ := h.raw (c := k) (by have := mem_range'_1.mp hk; omega)
    have hx' : (cluster k).pools.getContainerRaw p k = some x := hx
    rw [own, hx']
    rfl
  rw [length_flatMap, map_congr_left hone, map_const', sum_replicate, length_range',
    smul_eq_mul, mul_one]

/-- What the nodes of a range answer with are their own containers. -/
lemma perm_respond_iff (hoc : o + c ≤ n) :
    ReachesRange cluster p o c ((range' o c).flatMap (respond cluster p)) ↔
      ∀ k, o ≤ k → k < o + c → AnswersFor cluster p k k := by
  constructor
  · intro hpm k hok hkc
    have hk : k < n := by omega
    obtain ⟨y, hy, hresp⟩ := h.respond_eq (mem_range.mpr hk)
    have hmem : (k, y) ∈ (range' o c).flatMap (own cluster p) := by
      refine hpm.mem_iff.mp (mem_flatMap.mpr ⟨k, mem_range'_1.mpr ⟨hok, hkc⟩, ?_⟩)
      rw [hresp]
      exact mem_singleton_self _
    obtain ⟨k', -, hown⟩ := mem_flatMap.mp hmem
    obtain ⟨x, hx, hpair⟩ := mem_map.mp hown
    cases hpair
    rw [AnswersFor, hy]
    exact (mem_toList.mp hx).symm
  · intro hans
    refine Perm.of_eq (flatMap_congr fun k hk => ?_)
    obtain ⟨hok, hkc⟩ := mem_range'_1.mp hk
    rw [respond, own, hans k hok hkc]

section Many

variable (hn : 2 ≤ n) (hs : s < n) (hc : 2 ≤ c) (hmode : Addressed q.routingMode)
  (hres : resolvePoolQuery (cluster s) p q
    = (cluster s).returning (resolveRangeQuery (cluster s) p (.range o c)))
include hn hs hc hmode hres

/-- A task for at least two containers goes to the network. -/
lemma routeTask_many :
    ∃ routed : Task,
      routeTask (cluster s)
          (beginRunContext (cluster s) { poolId := p, method := m, poolQuery := q }) =
        (routed, .network) ∧
        routed.poolId = p ∧
          routed.poolQueries =
          (cluster s).returning (resolveRangeQuery (cluster s) p (.range o c)) := by
  have hhos : (cluster s).hosts.getNumHosts ≠ 1 := by
    obtain ⟨m, hm, hms⟩ : ∃ m < n, m ≠ s :=
      ⟨if s = 0 then 1 else 0, by split_ifs <;> omega, by split_ifs <;> omega⟩
    exact h.numHosts_ne_one (mem_range.mpr hs) (mem_range.mpr hm) hms
  have hlen : 2 ≤ ((cluster s).returning
      (resolveRangeQuery (cluster s) p (.range o c))).length := by
    rw [returning, length_map, length_resolveRangeQuery _ _ _ hc]
    exact two_le_queriesToCreate hc
  let task : Task := { poolId := p, method := m, poolQuery := q }
  have hpo : task.poolId = p := rfl
  have hrou := routeTask_addressed hpo rfl hmode hres (ne_nil_of_length_pos (by omega))
  rw [isTaskLocal_many hlen hhos] at hrou
  exact ⟨_, hrou, rfl, rfl⟩

variable (hoc : o + c ≤ n) (hsz : 1 ≤ (cluster s).neighborhoodSize)
  (hsz' : (cluster s).neighborhoodSize < 2 ^ 32)
include hoc hsz hsz'

/-- Cut into single containers, the task is executed by what each node of the range answers with. -/
lemma execute_singles (hcut : CutsToSingles c (cluster s).neighborhoodSize) :
    execute cluster s { poolId := p, method := m, poolQuery := q } =
      (List.range' o c).flatMap (respond cluster p) := by
  have hsma := h.small
  obtain ⟨routed, hrou, hpo, hqs⟩ := h.routeTask_many hn hs hc hmode hres
  have hsin : resolveRangeQuery (cluster s) p (.range o c) = (range' o c).map fun k =>
      .range k 1 := by
    rw [resolveRangeQuery, if_neg (by change c ≠ 0; omega), if_neg (by change c ≠ 1; omega)]
    dsimp only [PoolQuery.range]
    rw [queriesToCreate_eq hc (by omega) hsz hsz' hcut, Nat.div_self (by omega), Nat.mod_self]
    exact subRanges_singles (by omega)
  rw [hsin, returning, List.map_map] at hqs
  have htar : ∀ r ∈ routed.poolQueries,
      sendInResolveTargetNode (cluster s) p r = some r.rangeOffset ∧ r.rangeOffset ∈ range n := by
    intro r hr
    rw [hqs] at hr
    obtain ⟨k, hk, rfl⟩ := mem_map.mp hr
    obtain ⟨i, hi, rfl⟩ := mem_range'.mp hk
    have hlt : o + 1 * i < n := by omega
    exact ⟨congrArg some (h.mapped _ hlt s (mem_range.mpr hs)), mem_range.mpr hlt⟩
  rw [h.execute_network (mem_range.mpr hs) hrou hpo htar, hqs, flatMap_map]
  rfl

/-- **A range of at least two containers.** -/
lemma reaches_many_iff :
    ReachesRange cluster p o c (execute cluster s { poolId := p, method := m, poolQuery := q }) ↔
      CutsToSingles c (cluster s).neighborhoodSize ∧ ∀ k, o ≤ k → k < o + c →
      AnswersFor cluster p k k := by
  by_cases hcut : CutsToSingles c (cluster s).neighborhoodSize
  · rw [h.execute_singles hn hs hc hmode hres hoc hsz hsz' hcut, h.perm_respond_iff hoc]
    exact (and_iff_right hcut).symm
  · refine iff_of_false (fun hpm => ?_) fun hand => hcut hand.1
    obtain ⟨routed, hrou, -, hqs⟩ := h.routeTask_many (m := m) hn hs hc hmode hres
    -- fewer tasks than containers
    have hfew := length_execute_network_le hrou
    rw [hqs, returning, length_map, length_resolveRangeQuery _ _ _ hc, hpm.length_eq] at hfew
    have hown : ((range' o c).flatMap (own cluster p)).length = c := h.length_own hoc
    have hlt := queriesToCreate_lt hc hsz hcut
    omega

end Many

/-- Away from node 0, asking for container 0 asks for the container that answers for the whole pool.
-/
lemma getContainer_zero (hs : s < n) (hne : s ≠ 0) :
    (cluster s).pools.getContainer p 0 = (cluster s).pools.getRealOrStaticContainer p := by
  have hmem := mem_range.mpr hs
  obtain ⟨info, hin, -⟩ := h.reached s hmem
  have hhas : info.hasContainer s = true := by
    have := (h.placed s hs s hmem).mpr rfl
    rwa [hasContainer, hin] at this
  have hz0 : info.containers.lookup 0 = none := by
    have := mt (h.placed 0 (by omega) s hmem).mp hne
    rwa [hasContainer, hin, any_some, PoolInfo.hasContainer, Bool.not_eq_true,
      isSome_eq_false_iff, isNone_iff_eq_none] at this
  obtain ⟨x, hx⟩ : ∃ x, info.localContainer = some x := by
    refine ne_none_iff_exists'.mp fun hno => ?_
    rw [PoolInfo.hasContainer_of_local hno] at hhas
    exact Bool.false_ne_true hhas
  rw [getContainer, getRealOrStaticContainer, hin, bind_some,
    bind_some, PoolInfo.getContainer, PoolInfo.getRealOrStaticContainer, hz0, hx, none_or]
  rfl

lemma reaches_one_iff (hs : s < n) (ho : o < n) :
    ReachesRange cluster p o 1
        (execute cluster s { poolId := p, method := m, poolQuery := .range o 1 t }) ↔
      s = 0 ∧ o = 0 ∧ (cluster s).forceNet = false ∨ AnswersFor cluster p o o := by
  have hmem := mem_range.mpr hs
  have hown (answer : Option Container) :
      ReachesRange cluster p o 1 (answer.toList.map fun y => (o, y)) ↔
        answer = (cluster o).pools.getContainerRaw p o := by
    obtain ⟨x, hx⟩ : ∃ x, (cluster o).pools.getContainerRaw p o = some x := h.raw ho
    rw [ReachesRange, range'_one, flatMap_singleton, own, hx]
    cases answer with
    | none => simp
    | some y => simp
  rw [h.execute_resolved hmem ho (.inr (.inr (.inl rfl))) rfl
    (by rw [resolvePoolQuery, h.notNull]; rfl)]
  by_cases hhere : s = o ∧ (cluster s).forceNet = false
  · obtain ⟨rfl, hfor⟩ := hhere
    rw [if_pos ⟨rfl, hfor⟩, hown]
    by_cases hz0 : s = 0
    · subst hz0
      obtain ⟨x, hx⟩ : ∃ x, (cluster 0).pools.getContainerRaw p 0 = some x := h.raw ho
      rw [getContainer_of_raw (h.ne_invalid ho) hx, hx]
      exact iff_of_true rfl (.inl ⟨rfl, rfl, hfor⟩)
    · rw [h.getContainer_zero hs hz0, or_iff_right fun hand => hz0 hand.1]
      exact Iff.rfl
  · rw [if_neg (by exact hhere),
      or_iff_right fun hand => hhere ⟨hand.1.trans hand.2.1.symm, hand.2.2⟩]
    exact hown _

end

end Spread

/-- **Ranges and broadcasts.**  Container `k` lives on node `k`.  A task for `[o, o + c)` is
executed once by each container of the range and by nothing else exactly when the neighborhood size
cuts the range into single containers and each node of the range answers with its own container (a
task for container 0 alone that is submitted on node 0 is looked up by its id instead).  A broadcast
is a task for the whole pool. -/
theorem range_reaches_iff (h : Spread cluster p (List.range n) n id) (hn : 2 ≤ n) (hs : s < n)
    (hsize : 1 ≤ (cluster s).neighborhoodSize) (hsize' : (cluster s).neighborhoodSize < 2 ^ 32)
    (m : ℕ) (t : ℚ) :
    (∀ o c, 1 ≤ c → o + c ≤ n →
      (ReachesRange cluster p o c
          (execute cluster s { poolId := p, method := m, poolQuery := .range o c t }) ↔
        CutsToSingles c (cluster s).neighborhoodSize ∧
          (c = 1 ∧ s = 0 ∧ o = 0 ∧ (cluster s).forceNet = false ∨
            ∀ k, o ≤ k → k < o + c → AnswersFor cluster p k k))) ∧
    (ReachesRange cluster p 0 n
        (execute cluster s { poolId := p, method := m, poolQuery := .broadcast t }) ↔
      CutsToSingles n (cluster s).neighborhoodSize ∧ ∀ k < n, AnswersFor cluster p k k) := by
  refine ⟨fun o c hc hoc => ?_, ?_⟩
  · obtain rfl | hmany := hc.eq_or_lt
    · rw [h.reaches_one_iff hs (by omega)]
      have hone : (∀ k, o ≤ k → k < o + 1 → AnswersFor cluster p k k) ↔ AnswersFor cluster p o o :=
        ⟨fun hall => hall o le_rfl (by omega), fun ho k hok hko => (show k = o by omega) ▸ ho⟩
      have hsing : CutsToSingles 1 (cluster s).neighborhoodSize := .inl hsize
      rw [hone, and_iff_right hsing]
      simp
    · have hres : resolvePoolQuery (cluster s) p (.range o c t) =
          (cluster s).returning (resolveRangeQuery (cluster s) p (.range o c)) := by
        rw [resolvePoolQuery, h.notNull]
        rfl
      rw [h.reaches_many_iff hn hs hmany (.inr (.inr (.inl rfl))) hres hoc hsize hsize',
        or_iff_right fun hand => absurd hand.1 (by omega)]
  · have hres : resolvePoolQuery (cluster s) p (.broadcast t) =
        (cluster s).returning (resolveRangeQuery (cluster s) p (.range 0 n)) := by
      obtain ⟨info, hin, hcnt⟩ := h.numContainers (mem_range.mpr hs)
      rw [resolvePoolQuery, h.notNull, if_neg Bool.false_ne_true]
      dsimp only [PoolQuery.broadcast, resolveBroadcastQuery]
      rw [hin]
      dsimp only
      rw [hcnt, if_neg (by omega), returning]
    rw [h.reaches_many_iff hn hs hn (.inr (.inr (.inr rfl))) hres (by omega) hsize hsize']
    simp

lemma spread_created (size : ℕ) : Spread (created 4 size) ⟨2, 0⟩ (range 4) 4 id where
  notNull := by decide +kernel
  small := by decide +kernel
  nodeId := fun n _ => rfl
  hosts := by
    intro n _
    exact (by decide +kernel : ∀ m ∈ range 4, m ∈ (created 4 0 0).hosts.hostfileMap.keys)
  alive := by
    intro n _
    exact (by decide +kernel : ∀ m ∈ range 4, (created 4 0 0).hosts.isAlive m = true)
  reached := fun n _ => ⟨_, rfl, 0, [.register n 1 0], rfl⟩
  host_mem := by decide +kernel
  mapped := (by decide +kernel :
    ∀ c < 4, ∀ n ∈ range 4, (created 4 0 n).pools.getContainerNodeId ⟨2, 0⟩ c = id c)
  placed := (by decide +kernel :
    ∀ c < 4, ∀ n ∈ range 4, (created 4 0 n).pools.hasContainer ⟨2, 0⟩ c = true ↔ n = id c)

/-- Four nodes in one neighborhood. -/
theorem range_reaches_oneNeighborhood : ReachesRange (created 4 32) ⟨2, 0⟩ 0 4
      (execute (created 4 32) 1 { poolId := ⟨2, 0⟩, poolQuery := .broadcast }) := by
  refine (range_reaches_iff (spread_created 32) (by decide) (by decide) (by decide) (by decide)
    0 (-1)).2.mpr ⟨.inl (by decide), ?_⟩
  simp only [AnswersFor]
  decide +kernel

/-- Four nodes in neighborhoods of two: a broadcast is executed by containers 0 and 2 only. -/
theorem broadcast_misses_tails : Spread (created 4 2) ⟨2, 0⟩ (List.range 4) 4 id ∧
      execute (created 4 2) 0 { poolId := ⟨2, 0⟩, poolQuery := .broadcast } = [(0, ⟨0, 1⟩),
        (2, ⟨2, 1⟩)] ∧
      ¬ ReachesRange (created 4 2) ⟨2, 0⟩ 0 4
        (execute (created 4 2) 0 { poolId := ⟨2, 0⟩, poolQuery := .broadcast }) :=
  ⟨spread_created 2, by decide +kernel, by rw [ReachesRange]; decide +kernel⟩

end ClioCore.Runtime
