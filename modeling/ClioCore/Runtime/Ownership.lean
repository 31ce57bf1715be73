import ClioCore.Runtime.Run2Run

/-!
# Who owns an origin

Threads take origins out of `send_map_` by their address, and an address can be given to another
task once the first is freed.  The invariant `Owned` says why no thread mistakes one origin for
another: as long as a thread owns an origin, `send_map_` has either this origin or nothing at its
address.  A thread that claims the address of an origin it owns therefore ends this origin and no
other.

* `Owned`, `Rely`, `Guar` — the invariant and what the threads expect of each other.
* `Holds` — the origins that a thread owns at a point of its program.
* `Quiet` — a section that touches neither the maps nor the counters.

For each section there is a lemma that it keeps `Owned` and one that it stays within `Guar`.
-/

namespace ClioCore.Runtime

open Foundations List Function AList Run2Run Nat Option Origin

variable {o : OriginId} {fate : Fate} {targets : List (Option NodeId)} {t' : ThreadId}

/-! ## The invariant -/

/-- No origin is mistaken for another, and none is ended twice. -/
structure Owned (s : Run2Run) : Prop where
  mapped : ∀ {a o}, s.sendMap.lookup a = some o → (s.origins o).address = a ∧ o < s.created ∧
    (s.origins o).endTasks = 0 ∧ ∀ t, (t, o) ∉ s.ending
  held : ∀ {t o}, (t, o) ∈ s.held → o < s.created ∧
    ∀ o', s.sendMap.lookup (s.origins o).address = some o' → o' = o
  ending : ∀ {t o}, (t, o) ∈ s.ending → o < s.created ∧ (s.origins o).endTasks = 0
  alone : (s.ending.map Prod.snd).Nodup
  ended : ∀ o, (s.origins o).endTasks ≤ 1
  sized : ∀ o, (s.origins o).subtasks = 0 ∨
    (s.origins o).subtasks = (s.origins o).task.poolQueries.length

/-- What no section takes back. -/
structure Grows (s s' : Run2Run) : Prop where
  created : s.created ≤ s'.created
  task : ∀ {o}, o < s.created → (s'.origins o).task = (s.origins o).task
  address : ∀ {o}, o < s.created → (s'.origins o).address = (s.origins o).address
  completed : ∀ {o}, o < s.created →
    (s.origins o).completedReplicas ≤ (s'.origins o).completedReplicas
  counted : ∀ {o}, o < s.created → (s.origins o).counted <+: (s'.origins o).counted
  mapped : ∀ {a o}, o < s.created → s'.sendMap.lookup a = some o → s.sendMap.lookup a = some o
  pools : s'.node.pools = s.node.pools
  nodeId : s'.node.hosts.nodeId = s.node.hosts.nodeId
  hosts : ∀ {n}, (s.node.hosts.getHost n).isSome → (s'.node.hosts.getHost n).isSome

/-- What thread `t` expects of the others. -/
structure Rely (t : ThreadId) (s s' : Run2Run) : Prop extends Grows s s' where
  held : ∀ o, s'.held.count (t, o) = s.held.count (t, o)
  ending : ∀ {o}, (t, o) ∈ s.ending → (t, o) ∈ s'.ending
  marking : ∀ {key rid}, (t, key, rid) ∈ s.marking → (t, key, rid) ∈ s'.marking

/-- What thread `t` grants the others. -/
def Guar (t : ThreadId) (s s' : Run2Run) : Prop := ∀ t', t' ≠ t → Rely t' s s'

lemma Guar.grows {t : ThreadId} {s s' : Run2Run} (h : Guar t s s') : Grows s s' :=
  (h (t + 1) (succ_ne_self t)).toGrows

/-- A section that leaves the origins, and what is in the map. -/
lemma Grows.of_origins {s s' : Run2Run} (hcr : s'.created = s.created)
    (hmap : ∀ {a o}, s'.sendMap.lookup a = some o → s.sendMap.lookup a = some o)
    (hos : s'.origins = s.origins) (hnod : s'.node = s.node) : Grows s s' where
  created := hcr.ge
  task _ := by rw [hos]
  address _ := by rw [hos]
  completed _ := by rw [hos]
  counted _ := by rw [hos]
  mapped _ := hmap
  pools := by rw [hnod]
  nodeId := by rw [hnod]
  hosts h := by rwa [hnod]

lemma Grows.refl (s : Run2Run) : Grows s s := .of_origins rfl id rfl rfl

lemma Grows.trans {a b c : Run2Run} (h : Grows a b) (h' : Grows b c) : Grows a c where
  created := h.created.trans h'.created
  task ho := (h'.task (ho.trans_le h.created)).trans (h.task ho)
  address ho := (h'.address (ho.trans_le h.created)).trans (h.address ho)
  completed ho := (h.completed ho).trans (h'.completed (ho.trans_le h.created))
  counted ho := (h.counted ho).trans (h'.counted (ho.trans_le h.created))
  mapped ho hc := h.mapped ho (h'.mapped (ho.trans_le h.created) hc)
  pools := h'.pools.trans h.pools
  nodeId := h'.nodeId.trans h.nodeId
  hosts hn := h'.hosts (h.hosts hn)

lemma Rely.refl (t : ThreadId) (s : Run2Run) : Rely t s s := ⟨Grows.refl s, fun _ => rfl, id, id⟩

lemma Rely.trans {t : ThreadId} {a b c : Run2Run} (h : Rely t a b) (h' : Rely t b c) :
    Rely t a c where
  toGrows := h.toGrows.trans h'.toGrows
  held o := (h'.held o).trans (h.held o)
  ending ho := h'.ending (h.ending ho)
  marking hm := h'.marking (h.marking hm)

/-- Thread `t` owns the origins of `H`, each with its address. -/
structure Holds (t : ThreadId) (H : List (Address × OriginId)) (s : Run2Run) : Prop where
  count : ∀ o, (H.map Prod.snd).count o ≤ s.held.count (t, o)
  known : ∀ e ∈ H, e.2 < s.created ∧ (s.origins e.2).address = e.1

/-- As many replicas were counted as the origin has. -/
def Full (o : OriginId) (s : Run2Run) : Prop :=
  o < s.created ∧ (s.origins o).task.poolQueries.length ≤ (s.origins o).completedReplicas

section Holds

variable {t : ThreadId} {H : List (Address × OriginId)} {key : Address} {o : OriginId}
  {s s' : Run2Run}

lemma Holds.mem (h : Holds t H s) {e : Address × OriginId} (he : e ∈ H) : (t, e.2) ∈ s.held :=
  count_pos_iff.mp (lt_of_lt_of_le (count_pos_iff.mpr (mem_map_of_mem he)) (h.count e.2))

lemma Holds.address (h : Holds t ((key, o) :: H) s) : (s.origins o).address = key :=
  (h.known _ mem_cons_self).2

lemma Holds.lt_created (h : Holds t ((key, o) :: H) s) : o < s.created :=
  (h.known _ mem_cons_self).1

lemma Holds.rely (h : Holds t H s) (hR : Rely t s s') : Holds t H s' where
  count o := (h.count o).trans_eq (hR.held o).symm
  known e he := ⟨(h.known e he).1.trans_le hR.created,
    (hR.address (h.known e he).1).trans (h.known e he).2⟩

lemma Holds.perm {H' : List (Address × OriginId)} (h : Holds t H s) (hpm : H.Perm H') :
    Holds t H' s where
  count o := (hpm.map Prod.snd).count_eq o ▸ h.count o
  known e he := h.known e (hpm.mem_iff.mpr he)

/-- What is at the address of an origin that is owned. -/
lemma Owned.eq_of_lookup (hO : Owned s) (h : Holds t ((key, o) :: H) s) {o' : OriginId}
    (ho' : s.sendMap.lookup key = some o') : o' = o :=
  (hO.held (h.mem mem_cons_self)).2 o' (h.address ▸ ho')

lemma Full.grows (h : Full o s) (hG : Grows s s') : Full o s' := by
  refine ⟨h.1.trans_le hG.created, ?_⟩
  rw [hG.task h.1]
  exact h.2.trans (hG.completed h.1)

end Holds

/-! ## Quiet sections -/

/-- An origin without its subtasks and its result -/
def Origin.bare (x : Origin) : Origin := { x with subtasks := 0, returnCode := 0, probeResult := 0 }

/-- What origins have in common that are the same without their subtasks and results -/
lemma Origin.field_of_bare {β : Type} (g : Origin → β) {x y : Origin} (h : x.bare = y.bare)
    (hg : ∀ x : Origin, g x.bare = g x := by intro; rfl) : g x = g y := by
  rw [← hg x, h, hg]

/-- What ownership is about, of a single origin -/
def Origin.owned (x : Origin) : Task × Address × ℕ := (x.task, x.address, x.endTasks)

/-- The section does not touch the maps and the counters. -/
structure Quiet (s s' : Run2Run) : Prop where
  sendMap : s'.sendMap = s.sendMap
  progressMap : s'.progressMap = s.progressMap
  created : s'.created = s.created
  ending : s'.ending = s.ending
  marking : s'.marking = s.marking
  pools : s'.node.pools = s.node.pools
  nodeId : s'.node.hosts.nodeId = s.node.hosts.nodeId
  hosts : ∀ {n}, (s.node.hosts.getHost n).isSome → (s'.node.hosts.getHost n).isSome
  bare : ∀ o, (s'.origins o).bare = (s.origins o).bare
  subtasks : ∀ o, (s'.origins o).subtasks = (s.origins o).subtasks ∨ (s'.origins o).subtasks = 0 ∨
    (s'.origins o).subtasks = (s.origins o).task.poolQueries.length

section Quiet

variable {t : ThreadId} {s s' : Run2Run}

lemma Quiet.of_origins (hs : s'.sendMap = s.sendMap) (hp : s'.progressMap = s.progressMap)
    (hc : s'.created = s.created) (he : s'.ending = s.ending) (hm : s'.marking = s.marking)
    (hn : s'.node = s.node) (ho : s'.origins = s.origins) : Quiet s s' :=
  ⟨hs, hp, hc, he, hm, hn ▸ rfl, hn ▸ rfl, fun h => hn ▸ h, fun _ => ho ▸ rfl,
    fun _ => .inl (ho ▸ rfl)⟩

lemma Quiet.refl (s : Run2Run) : Quiet s s := .of_origins rfl rfl rfl rfl rfl rfl rfl

/-- A change of the result of an origin or of the number of its subtasks is quiet. -/
lemma Quiet.modifyOrigin (s : Run2Run) (o : OriginId) (f : Origin → Origin)
    (hf : ∀ x, (f x).bare = x.bare)
    (hsub : ∀ x, (f x).subtasks = x.subtasks ∨ (f x).subtasks = 0 ∨
      (f x).subtasks = x.task.poolQueries.length) : Quiet s (s.modifyOrigin o f) := by
  refine ⟨rfl, rfl, rfl, rfl, rfl, rfl, rfl, id, fun o' => ?_, fun o' => ?_⟩ <;>
    rw [Run2Run.modifyOrigin] <;> dsimp only <;> obtain rfl | hne := eq_or_ne o' o
  · rw [update_self, hf]
  · rw [update_of_ne hne]
  · rw [update_self]
    exact hsub _
  · rw [update_of_ne hne]
    exact .inl rfl

lemma quiet_clearSubtasks : Quiet s (clearSubtasks o s).2 :=
  .modifyOrigin s o (fun x => { x with subtasks := 0 }) (fun _ => rfl) fun _ => .inr (.inl rfl)

lemma quiet_resizeSubtasks : Quiet s (resizeSubtasks o s).2 :=
  .modifyOrigin s o (fun x => { x with subtasks := x.task.poolQueries.length }) (fun _ => rfl)
    fun _ => .inr (.inr rfl)

lemma quiet_setReturnCode {code : ℤ} : Quiet s (setReturnCode o s code).2 :=
  .modifyOrigin s o (fun x => { x with returnCode := code }) (fun _ => rfl) fun _ => .inl rfl

lemma quiet_aggregateOut {r : Response} : Quiet s (aggregateOut o s r).2 :=
  .modifyOrigin s o (fun x => { x with
    returnCode := if r.returnCode ≠ 0 then r.returnCode else x.returnCode
    probeResult := if r.probeResult = 0 then 0 else x.probeResult }) (fun _ => rfl) fun _ =>
    .inl rfl

lemma quiet_setDead {n : NodeId} {now : ℕ} : Quiet s (s.modifyHosts (·.setDead n now)) :=
  ⟨rfl, rfl, rfl, rfl, rfl, rfl, Hosts.nodeId_setDead,
    fun h => Hosts.isSome_getHost_setDead.trans h, fun _ => rfl,
    fun _ => .inl rfl⟩

lemma quiet_setAlive {n : NodeId} {now : ℕ} : Quiet s (s.modifyHosts (·.setAlive n now)) :=
  ⟨rfl, rfl, rfl, rfl, rfl, rfl, Hosts.nodeId_setAlive,
    fun h => Hosts.isSome_getHost_setAlive.trans h, fun _ => rfl,
    fun _ => .inl rfl⟩

lemma Quiet.grows (h : Quiet s s') : Grows s s' where
  created := h.created.ge
  task _ := field_of_bare Origin.task (h.bare _)
  address _ := field_of_bare Origin.address (h.bare _)
  completed _ := (field_of_bare completedReplicas (h.bare _)).ge
  counted _ := by rw [field_of_bare Origin.counted (h.bare _)]
  mapped _ ha := h.sendMap ▸ ha
  pools := h.pools
  nodeId := h.nodeId
  hosts := h.hosts

lemma Quiet.rely (h : Quiet s s') (hhl : ∀ o, s'.held.count (t, o) = s.held.count (t, o)) :
    Rely t s s' where
  toGrows := h.grows
  held := hhl
  ending ho := h.ending ▸ ho
  marking hm := h.marking ▸ hm

/-- The invariant reads the maps and little of the origins.  Every owner has to be one of before or
to own what is in the map. -/
lemma Owned.congr (hO : Owned s) (hmap : s'.sendMap = s.sendMap) (hcr : s'.created = s.created)
    (hendi : s'.ending = s.ending) (hos : ∀ o, (s'.origins o).owned = (s.origins o).owned)
    (hsub : ∀ o, (s'.origins o).subtasks = (s.origins o).subtasks ∨ (s'.origins o).subtasks = 0 ∨
      (s'.origins o).subtasks = (s.origins o).task.poolQueries.length)
    (hhl : ∀ {t o}, (t, o) ∈ s'.held → (t, o) ∈ s.held ∨ ∃ a, s.sendMap.lookup a = some o) :
    Owned s' := by
  have hadr : ∀ o, (s'.origins o).address = (s.origins o).address :=
    fun o => congrArg (·.2.1) (hos o)
  have hends : ∀ o, (s'.origins o).endTasks = (s.origins o).endTasks :=
    fun o => congrArg (·.2.2) (hos o)
  refine ⟨fun hao => ?_, fun ho => ?_, fun ho => ?_, hendi ▸ hO.alone,
    fun o => (hends o).trans_le (hO.ended o), fun o => ?_⟩
  · rw [hmap] at hao
    rw [hadr, hcr, hends, hendi]
    exact hO.mapped hao
  · rw [hcr, hmap, hadr]
    obtain ho | ⟨a, ha⟩ := hhl ho
    · exact hO.held ho
    · obtain ⟨hadr, hlt, -⟩ := hO.mapped ha
      refine ⟨hlt, fun o' ho' => ?_⟩
      rw [hadr, ha] at ho'
      exact (some.inj ho').symm
  · rw [hendi] at ho
    rw [hcr, hends]
    exact hO.ending ho
  · rw [show (s'.origins o).task = _ from congrArg Prod.fst (hos o)]
    obtain hs | hs := hsub o
    · rw [hs]
      exact hO.sized o
    · exact hs

lemma Quiet.owned (h : Quiet s s') (hO : Owned s)
    (hhl : ∀ {t o}, (t, o) ∈ s'.held → (t, o) ∈ s.held ∨ ∃ a, s.sendMap.lookup a = some o) :
    Owned s' :=
  hO.congr h.sendMap h.created h.ending (fun o => field_of_bare Origin.owned (h.bare o))
    h.subtasks hhl

end Quiet

/-! ## Sections that are not quiet -/

section Sections

open Run2Run

variable {t : ThreadId} {key : Address} {o : OriginId} {rid : ReplicaId}
  {H : List (Address × OriginId)} {s s' : Run2Run}

/-- What a change of one origin leaves, seen from every origin -/
lemma apply_origins_update {β : Type} (g : Origin → β) {x : Origin}
    (h : s'.origins = update s.origins o x) (hx : g x = g (s.origins o)) (o' : OriginId) :
    g (s'.origins o') = g (s.origins o') := by
  rw [h]
  obtain rfl | hne := eq_or_ne o' o
  · rw [update_self, hx]
  · rw [update_of_ne hne]

lemma origins_fetchAdd : (fetchAdd t o rid s fate).2.origins = update s.origins o { s.origins o with
      completedReplicas := (s.origins o).completedReplicas + 1
      counted := (s.origins o).counted ++ [(rid, fate)] } := rfl

lemma counted_fetchAdd :
    ((fetchAdd t o rid s fate).2.origins o).counted = (s.origins o).counted ++ [(rid, fate)] := by
  rw [origins_fetchAdd, update_self]

lemma replicas_fetchAdd :
    ((fetchAdd t o rid s fate).2.origins o).replicas = (s.origins o).replicas ++ [rid] := by
  rw [replicas, counted_fetchAdd]
  exact map_append

variable {task : Task}

lemma origins_enter (hstc : ¬ (s.node.pools.getStaticContainer task.poolId).isNone) :
    (enter t key s task).2.origins =
      update s.origins s.created { task := task, address := key, sender := t } := by
  rw [enter, if_neg hstc]

lemma origins_endTask : (endTask t o s).2.origins =
    update s.origins o { s.origins o with endTasks := (s.origins o).endTasks + 1 } := rfl

lemma origins_registerOriginProgress : (registerOriginProgress key o s targets).2.origins =
      update s.origins o { s.origins o with registered := true } := rfl

lemma Owned.enter {task : Task} (hO : Owned s) (hfe : isFree key s = true)
    (hstc : ¬ (s.node.pools.getStaticContainer task.poolId).isNone) :
    Owned (enter t key s task).2 := by
  obtain ⟨-, hhl⟩ := Bool.and_eq_true_iff.mp hfe
  rw [Run2Run.enter, if_neg hstc]
  refine ⟨?_, ?_, ?_, hO.alone, ?_, ?_⟩ <;> dsimp only
  · intro a o' hao
    obtain ⟨rfl, rfl⟩ | ⟨-, hao⟩ := lookup_insert_eq_some.mp hao
    · rw [update_self]
      exact ⟨rfl, lt_succ_self _, rfl, fun t' h => lt_irrefl _ (hO.ending h).1⟩
    · obtain ⟨hadr, hlt, hend, hnot⟩ := hO.mapped hao
      rw [update_of_ne hlt.ne]
      exact ⟨hadr, hlt.trans (lt_succ_self _), hend, hnot⟩
  · intro t' o' ho'
    obtain heq | ho' := mem_cons.mp ho'
    · cases heq
      rw [update_self, lookup_insert]
      exact ⟨lt_succ_self _, fun _ h => (some.inj h).symm⟩
    · obtain ⟨hlt, huniq⟩ := hO.held ho'
      have hne : (s.origins o').address ≠ key := by simpa using all_eq_true.mp hhl _ ho'
      rw [update_of_ne hlt.ne, lookup_insert_ne hne]
      exact ⟨hlt.trans (lt_succ_self _), huniq⟩
  · intro t' o' ho'
    obtain ⟨hlt, hend⟩ := hO.ending ho'
    rw [update_of_ne hlt.ne]
    exact ⟨hlt.trans (lt_succ_self _), hend⟩
  · exact (forall_update_iff _ fun _ (x : Origin) => x.endTasks ≤ 1).mpr ⟨zero_le 1,
      fun o' _ => hO.ended o'⟩
  · exact (forall_update_iff _ fun _ (x : Origin) =>
      x.subtasks = 0 ∨ x.subtasks = x.task.poolQueries.length).mpr ⟨.inl rfl,
        fun o' _ => hO.sized o'⟩

lemma grows_enter : Grows s (enter t key s task).2 := by
  rw [enter]
  split_ifs with hstc
  · exact Grows.refl s
  · refine ⟨le_succ _, fun ho => ?_, fun ho => ?_, fun ho => ?_, fun ho => ?_,
      fun {a o} ho ha => ?_,
      rfl, rfl, id⟩ <;> dsimp only at *
    · rw [update_of_ne ho.ne]
    · rw [update_of_ne ho.ne]
    · rw [update_of_ne ho.ne]
    · rw [update_of_ne ho.ne]
    · exact ((lookup_insert_eq_some.mp ha).resolve_left fun h => ho.ne' h.2).2

lemma guar_enter : Guar t s (enter t key s task).2 := by
  intro t' ht'
  refine ⟨grows_enter, ?_, ?_, ?_⟩ <;> rw [enter] <;> split_ifs with hstc
  · exact fun _ => rfl
  · exact fun o => count_cons_of_ne fun h => ht' (congrArg Prod.fst h).symm
  all_goals exact id

/-- The state when the thread has taken an origin out of the map -/
def take (t : ThreadId) (o : OriginId) (s : Run2Run) : Run2Run :=
  { s with held := (t, o) :: s.held }

lemma quiet_take : Quiet s (take t o s) := .of_origins rfl rfl rfl rfl rfl rfl rfl

lemma quiet_dropOrigin : Quiet s (dropOrigin t o s).2 := .of_origins rfl rfl rfl rfl rfl rfl rfl

lemma Holds.count_cons (h : Holds t H s) (o o' : OriginId) :
    (((key, o) :: H).map Prod.snd).count o' ≤ ((t, o) :: s.held).count (t, o') := by
  rw [map_cons, List.count_cons, List.count_cons]
  refine Nat.add_le_add (h.count o') (le_of_eq ?_)
  simp

/-- The thread owns one origin more, which it has found at its address. -/
lemma Holds.take (h : Holds t H s) (hlt : o < s.created) (hadr : (s.origins o).address = key) :
    Holds t ((key, o) :: H) (take t o s) where
  count := h.count_cons o
  known := forall_mem_cons.mpr ⟨⟨hlt, hadr⟩, h.known⟩

/-- The thread owns the origin that it has entered. -/
lemma Holds.enter {task : Task} (h : Holds t H s)
    (hstc : ¬ (s.node.pools.getStaticContainer task.poolId).isNone) :
    Holds t ((key, s.created) :: H) (enter t key s task).2 := by
  rw [Run2Run.enter, if_neg hstc]
  refine ⟨h.count_cons s.created, forall_mem_cons.mpr ⟨⟨lt_succ_self _, ?_⟩, fun e he => ?_⟩⟩ <;>
    dsimp only
  · rw [update_self]
  · obtain ⟨hlt, hadr⟩ := h.known e he
    rw [update_of_ne hlt.ne]
    exact ⟨hlt.trans (lt_succ_self _), hadr⟩

/-- The thread has let go of one origin. -/
lemma Holds.dropOrigin (h : Holds t ((key, o) :: H) s) : Holds t H (dropOrigin t o s).2 where
  count o' := by
    have hcnt := h.count o'
    rw [map_cons, List.count_cons] at hcnt
    rw [Run2Run.dropOrigin]
    rw [count_erase]
    simp only [beq_iff_eq, Prod.mk.injEq, true_and] at hcnt ⊢
    omega
  known e he := h.known e (mem_cons_of_mem _ he)

lemma Owned.take (hO : Owned s) (h : s.sendMap.lookup key = some o) : Owned (take t o s) := by
  refine quiet_take.owned hO fun hmem => ?_
  obtain heq | hmem := mem_cons.mp hmem
  · exact .inr ⟨key, (Prod.mk.inj heq).2 ▸ h⟩
  · exact .inl hmem

lemma guar_take : Guar t s (take t o s) :=
  fun _ ht' => quiet_take.rely fun _ => count_cons_of_ne fun h => ht' (congrArg Prod.fst h).symm

lemma Owned.dropOrigin (hO : Owned s) : Owned (dropOrigin t o s).2 :=
  quiet_dropOrigin.owned hO fun hmem => .inl (mem_of_mem_erase hmem)

lemma guar_dropOrigin : Guar t s (dropOrigin t o s).2 :=
  fun _ ht' => quiet_dropOrigin.rely fun _ => count_erase_of_ne fun h => ht' (congrArg Prod.fst h)

lemma Owned.fetchAdd (hO : Owned s) : Owned (fetchAdd t o rid s fate).2 :=
  hO.congr rfl rfl rfl (apply_origins_update Origin.owned origins_fetchAdd rfl)
    (fun o => .inl (apply_origins_update subtasks origins_fetchAdd rfl o)) .inl

lemma mem_erase_of_thread_ne {α : Type} [BEq α] [LawfulBEq α] (ht' : t' ≠ t) {x y : α}
    {l : List (ThreadId × α)} (h : (t', x) ∈ l) : (t', x) ∈ l.erase (t, y) :=
  (mem_erase_of_ne fun he => ht' (congrArg Prod.fst he)).mpr h

lemma completedReplicas_fetchAdd (o' : OriginId) :
    ((fetchAdd t o rid s fate).2.origins o').completedReplicas =
      (s.origins o').completedReplicas + if o' = o then 1 else 0 := by
  rw [origins_fetchAdd]
  split_ifs with ho'
  · rw [ho', update_self]
  · rw [update_of_ne ho']
    rfl

/-- A section that changes one origin and counts at most more of its replicas -/
lemma Grows.update {x : Origin} (hcr : s'.created = s.created) (hmap : s'.sendMap = s.sendMap)
    (hnod : s'.node = s.node) (hos : s'.origins = update s.origins o x)
    (htask : x.task = (s.origins o).task) (hadd : x.address = (s.origins o).address)
    (hcpd : (s.origins o).completedReplicas ≤ x.completedReplicas)
    (hcou : (s.origins o).counted <+: x.counted) : Grows s s' where
  created := hcr.ge
  task _ := apply_origins_update Origin.task hos htask _
  address _ := apply_origins_update Origin.address hos hadd _
  completed {o'} _ := by
    rw [hos]
    obtain rfl | hne := eq_or_ne o' o
    · rwa [update_self]
    · rw [update_of_ne hne]
  counted {o'} _ := by
    rw [hos]
    obtain rfl | hne := eq_or_ne o' o
    · rwa [update_self]
    · rw [update_of_ne hne]
  mapped _ ha := hmap ▸ ha
  pools := by rw [hnod]
  nodeId := by rw [hnod]
  hosts h := by rwa [hnod]

lemma guar_fetchAdd : Guar t s (fetchAdd t o rid s fate).2 := fun _ ht' =>
  ⟨.update rfl rfl rfl origins_fetchAdd rfl rfl (le_succ _) (prefix_append _ _), fun _ => rfl, id,
    mem_erase_of_thread_ne ht'⟩

/-- A thread claims an origin that it owns. -/
lemma Owned.claimOrigin (hO : Owned s) (hH : Holds t ((key, o) :: H) s) :
    Owned (claimOrigin t key o s).2 := by
  rw [Run2Run.claimOrigin]
  split
  · exact hO.congr rfl rfl rfl (fun _ => rfl) (fun _ => .inl rfl) .inl
  · next o' ho' =>
      obtain rfl := hO.eq_of_lookup hH ho'
      obtain ⟨hadr, hlt, hend, hnot⟩ := hO.mapped ho'
      refine ⟨?_, ?_, ?_, ?_, hO.ended, hO.sized⟩ <;> dsimp only
      · intro a o1 h1
        obtain ⟨hne, h1⟩ := lookup_erase_eq_some.mp h1
        obtain ⟨hadr1, hlt1, hend1, hnot1⟩ := hO.mapped h1
        refine ⟨hadr1, hlt1, hend1, fun t' h => ?_⟩
        obtain heq | h := mem_cons.mp h
        · cases heq
          exact hne (hadr1.symm.trans hadr)
        · exact hnot1 t' h
      · intro t' o1 h1
        exact ⟨(hO.held h1).1, fun o2 h2 => (hO.held h1).2 o2 (lookup_erase_eq_some.mp h2).2⟩
      · intro t' o1 h1
        obtain heq | h1 := mem_cons.mp h1
        · cases heq
          exact ⟨hlt, hend⟩
        · exact hO.ending h1
      · refine nodup_cons.mpr ⟨fun h => ?_, hO.alone⟩
        obtain ⟨⟨t', o1⟩, h1, rfl⟩ := mem_map.mp h
        exact hnot t' h1

lemma guar_claimOrigin : Guar t s (claimOrigin t key o s).2 := by
  intro t' ht'
  rw [claimOrigin]
  split
  · exact ⟨.of_origins rfl id rfl rfl, fun _ => rfl, id, id⟩
  · refine ⟨.of_origins rfl (fun {a o'} ha => ?_) rfl rfl, fun _ => rfl, mem_cons_of_mem _, id⟩
    exact (lookup_erase_eq_some.mp ha).2

/-- A thread ends an origin that it has claimed. -/
lemma Owned.endTask_of_mem (hO : Owned s) (hmem : (t, o) ∈ s.ending) : Owned (endTask t o s).2 := by
  have her : ∀ {t' o'}, (t', o') ∈ s.ending.erase (t, o) → o' ≠ o ∧ (t', o') ∈ s.ending := by
    intro t' o' h
    have hnd : s.ending.Nodup := Nodup.of_map _ hO.alone
    refine ⟨?_, mem_of_mem_erase h⟩
    rintro rfl
    have heq := inj_on_of_nodup_map hO.alone (mem_of_mem_erase h) hmem rfl
    exact hnd.not_mem_erase (heq ▸ h)
  have hends : ∀ {o'}, o' ≠ o →
      ((endTask t o s).2.origins o').endTasks = (s.origins o').endTasks := by
    intro o' hne
    rw [origins_endTask, update_of_ne hne]
  have hadr : ∀ o', ((endTask t o s).2.origins o').address = (s.origins o').address :=
    apply_origins_update address origins_endTask rfl
  refine ⟨fun {a o'} h => ?_, fun {t' o'} h => ?_, fun {t' o'} h => ?_, ?_, fun o' => ?_,
    fun o' => ?_⟩
  · obtain ⟨ha, hlt, hend, hnot⟩ := hO.mapped h
    have hne : o' ≠ o := fun he => hnot t (he ▸ hmem)
    rw [hadr, hends hne]
    exact ⟨ha, hlt, hend, fun t' h' => hnot t' (her h').2⟩
  · rw [hadr]
    exact hO.held h
  · obtain ⟨hne, h⟩ := her h
    rw [hends hne]
    exact hO.ending h
  · exact hO.alone.sublist (Sublist.map _ erase_sublist)
  · obtain rfl | hne := eq_or_ne o' o
    · rw [origins_endTask, update_self]
      exact succ_le_of_lt (by rw [(hO.ending hmem).2]; exact one_pos)
    · rw [hends hne]
      exact hO.ended o'
  · rw [show ((endTask t o s).2.origins o').subtasks = _ from
        apply_origins_update subtasks origins_endTask rfl o',
      show ((endTask t o s).2.origins o').task = _ from
        apply_origins_update task origins_endTask rfl o']
    exact hO.sized o'

lemma guar_endTask : Guar t s (endTask t o s).2 := fun _ ht' =>
  ⟨.update rfl rfl rfl origins_endTask rfl rfl le_rfl prefix_rfl, fun _ => rfl,
    mem_erase_of_thread_ne ht', id⟩

lemma Owned.registerOriginProgress (hO : Owned s) :
    Owned (registerOriginProgress key o s targets).2 :=
  hO.congr rfl rfl rfl (apply_origins_update Origin.owned origins_registerOriginProgress rfl)
    (fun o => .inl (apply_origins_update subtasks origins_registerOriginProgress rfl o)) .inl

lemma rely_registerOriginProgress (t' : ThreadId) :
    Rely t' s (registerOriginProgress key o s targets).2 :=
  ⟨.update rfl rfl rfl origins_registerOriginProgress rfl rfl le_rfl prefix_rfl,
    fun _ => rfl, id, id⟩

/-- What marking a replica can do: it was accounted before, or it is now if the entry has it. -/
lemma markReplicaAccounted_cases (t : ThreadId) (key : Address) (rid : ReplicaId) (s : Run2Run) :
    (markReplicaAccounted t key rid s = (false, s) ∧ ∃ replicas p,
      s.progressMap.lookup key = some replicas ∧ replicas[rid]? = some p ∧ p.accounted = true) ∨
    ∃ progress, markReplicaAccounted t key rid s =
        (true, { s with marking := (t, key, rid) :: s.marking, progressMap := progress }) ∧
      (∀ a, a ≠ key → progress.lookup a = s.progressMap.lookup a) ∧
      ∀ replicas, s.progressMap.lookup key = some replicas →
        (∀ p, replicas[rid]? = some p → p.accounted = false) ∧
        progress.lookup key = some (replicas.modify rid ReplicaProgress.account) := by
  rw [markReplicaAccounted]
  cases hlk : s.progressMap.lookup key with
  | none => exact .inr ⟨_, rfl, fun _ _ => rfl, by simp⟩
  | some replicas =>
    dsimp only
    cases hget : replicas[rid]? with
    | none =>
      refine .inr ⟨_, rfl, fun _ _ => rfl, fun replicas' h => ?_⟩
      cases h
      rw [modify_eq_self (getElem?_eq_none_iff.mp hget), hget]
      exact ⟨by simp, hlk⟩
    | some p =>
      dsimp only
      split_ifs with hacc
      · exact .inl ⟨rfl, replicas, p, rfl, hget, hacc⟩
      · refine .inr ⟨_, rfl, fun a ha => lookup_insert_ne ha, fun replicas' h => ?_⟩
        cases h
        refine ⟨fun q hq => ?_, lookup_insert _⟩
        rw [hget] at hq
        exact some.inj hq ▸ Bool.not_eq_true _ ▸ hacc

lemma Owned.markReplicaAccounted (hO : Owned s) : Owned (markReplicaAccounted t key rid s).2 := by
  obtain ⟨h, -⟩ | ⟨progress, h, -⟩ := markReplicaAccounted_cases t key rid s
  · rwa [h]
  · rw [h]
    exact hO.congr rfl rfl rfl (fun _ => rfl) (fun _ => .inl rfl) .inl

lemma rely_markReplicaAccounted (t' : ThreadId) :
    Rely t' s (markReplicaAccounted t key rid s).2 := by
  obtain ⟨h, -⟩ | ⟨progress, h, -⟩ := markReplicaAccounted_cases t key rid s
  · rw [h]
    exact Rely.refl t' s
  · rw [h]
    exact ⟨.of_origins rfl id rfl rfl, fun _ => rfl, id, mem_cons_of_mem _⟩

end Sections

end ClioCore.Runtime
