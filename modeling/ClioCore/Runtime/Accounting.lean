import ClioCore.Runtime.Threads

/-!
# Replicas are counted once

A replica adds to `CompletedReplicas` of its origin on one of the paths of `Run2Run`.  The paths of
`RecvOut` and `HandleTaskProgressResult` first ask `MarkReplicaAccounted`, which lets each replica
pass once, but only after `RegisterOriginProgress` has run and while the origin is in `send_map_`.
`FlushStaleStateForNode` does not ask.  So a replica that answers before its origin is registered
can be counted again when a probe finds it gone, and the origin is completed without another
replica.

* `Orderly` — the steps after which this cannot happen.
* `Accounted`, `Outstanding` — the replicas of an origin that are counted, or accounted and about to
  be counted, are distinct, and `progress_map_` knows all of them.
* `accounting` — the argument that carries this through the threads.
-/

namespace ClioCore.Runtime

open Foundations List Function Origin Run2Run AList Option Sublist

variable {r : ReplicaId} {targets : List (Option NodeId)} {queries : List PoolQuery}

/-- The replicas at an address that a thread has accounted and not yet counted -/
def Run2Run.tokens (s : Run2Run) (a : Address) : List ReplicaId :=
  (s.marking.filter fun m => m.2.1 = a).map fun m => m.2.2

/-! ## The condition -/

/-- The step accounts replicas only of origins that are registered and not yet completed, or for an
address that is not in use, and no replica whose retry was discarded.  It discards retries only of
registered origins, and of replicas that are neither counted nor accounted.  It does not give an
address to an origin while a verdict on that address is under way. -/
def Orderly (s s' : Run2Run) : Prop :=
  (∀ m ∈ s'.marking, s'.marking = m :: s.marking →
    (∀ o ∈ s.sendMap.lookup m.2.1, (s.origins o).registered = true ∧ m.2.2 < (s.origins o).size ∧
      (m.2.2, .discarded) ∉ (s.origins o).counted) ∧
    (s.sendMap.lookup m.2.1 = none → ∀ e ∈ s.held, e.1 = m.1 → (s.origins e.2).address ≠ m.2.1)) ∧
  (∀ o < s'.created, ∀ e ∈ (s'.origins o).counted, e.2 = .discarded →
    (s'.origins o).counted = (s.origins o).counted ++ [e] → (s.origins o).registered = true ∧
      e.1 < (s.origins o).size ∧ e.1 ∉ s.tokens (s.origins o).address ++ (s.origins o).replicas) ∧
  ∀ a ∈ s'.sendMap.keys, s.sendMap.lookup a = none → s.tokens a = []

instance (s s' : Run2Run) : Decidable (Orderly s s') := by
  delta Orderly
  infer_instance

/-! ## The invariant -/

/-- What is known of the replicas of an origin in the map. -/
structure Outstanding (a : Address) (o : OriginId) (s : Run2Run) : Prop where
  once : (s.tokens a ++ (s.origins o).replicas).Nodup
  bound : ∀ r ∈ s.tokens a, r < (s.origins o).size
  quiet : (s.origins o).registered = false → s.tokens a = []
  progress : (s.origins o).registered = true → ∃ replicas, s.progressMap.lookup a = some replicas ∧
    replicas.length = (s.origins o).size ∧ ∀ r p, replicas[r]? = some p → p.accounted = false →
      r ∈ s.tokens a ++ (s.origins o).replicas → (r, .discarded) ∈ (s.origins o).counted

/-- Every replica has been counted at most once, and all have been when the origin is completed. -/
structure Accounted (s : Run2Run) : Prop where
  counts : ∀ o, (s.origins o).completedReplicas = (s.origins o).replicas.length
  once : ∀ o, (s.origins o).replicas.Nodup
  bound : ∀ o, ∀ r ∈ (s.origins o).replicas, r < (s.origins o).size
  outstanding : ∀ {a o}, s.sendMap.lookup a = some o → Outstanding a o s
  complete : ∀ o, (∃ t, (t, o) ∈ s.ending) ∨ 0 < (s.origins o).endTasks →
    (s.origins o).size ≤ (s.origins o).completedReplicas

section Invariant

variable {a : Address} {t t' : ThreadId} {o : OriginId} {s s' : Run2Run}

/-- A full origin has had all its replicas counted. -/
lemma Accounted.mem_of_full (h : Accounted s)
    (hfull : (s.origins o).size ≤ (s.origins o).completedReplicas) (hr : r < (s.origins o).size)
    : r ∈ (s.origins o).replicas := by
  have hsub : (s.origins o).replicas <+~ range (s.origins o).size :=
    (h.once o).subperm fun x hx => mem_range.mpr (h.bound o x hx)
  rw [h.counts o] at hfull
  exact (hsub.perm_of_length_le (by rwa [length_range])).mem_iff.mpr (mem_range.mpr hr)

/-- Every replica of the origin was counted at most once. -/
def Origin.Tallied (x : Origin) : Prop :=
  x.completedReplicas = x.replicas.length ∧ x.replicas.Nodup ∧ ∀ r ∈ x.replicas, r < x.size

/-- What is asked of an origin in the map -/
def Origin.tally (x : Origin) : List (ReplicaId × Fate) × ℕ × Bool :=
  (x.counted, x.size, x.registered)

lemma Accounted.tallied (h : Accounted s) (o : OriginId) : (s.origins o).Tallied :=
  ⟨h.counts o, h.once o, h.bound o⟩

lemma accounted_of_tallied (h : ∀ o, (s.origins o).Tallied)
    (hout : ∀ {a o}, s.sendMap.lookup a = some o → Outstanding a o s)
    (hcomplete : ∀ o, (∃ t, (t, o) ∈ s.ending) ∨ 0 < (s.origins o).endTasks →
      (s.origins o).size ≤ (s.origins o).completedReplicas) : Accounted s :=
  ⟨fun o => (h o).1, fun o => (h o).2.1, fun o => (h o).2.2, hout, hcomplete⟩

lemma Outstanding.congr (h : Outstanding a o s) (hor : (s'.origins o).tally = (s.origins o).tally)
    (htks : (s'.tokens a).Sublist (s.tokens a))
    (hprg : s'.progressMap.lookup a = s.progressMap.lookup a) : Outstanding a o s' := by
  obtain ⟨hcnt, hor⟩ := Prod.mk.inj hor
  obtain ⟨hsz, hregistered⟩ := Prod.mk.inj hor
  have hrps : (s'.origins o).replicas = (s.origins o).replicas := congrArg (map Prod.fst) hcnt
  refine ⟨?_, fun r hr => ?_, fun hr => ?_, fun hr => ?_⟩
  · rw [hrps]
    exact h.once.sublist (htks.append (refl _))
  · rw [hsz]
    exact h.bound r (htks.subset hr)
  · rw [hregistered] at hr
    exact sublist_nil.mp (h.quiet hr ▸ htks)
  · rw [hregistered] at hr
    obtain ⟨replicas, hlk, hlen, hfr⟩ := h.progress hr
    refine ⟨replicas, hprg.trans hlk, hlen.trans hsz.symm, fun r p hp hacc hmem => ?_⟩
    rw [hrps] at hmem
    rw [hcnt]
    exact hfr r p hp hacc ((htks.append (refl _)).subset hmem)

/-- The invariant is about the counters of the origins and about what is in the map. -/
lemma Accounted.congr (h : Accounted s) (hos : ∀ o, (s'.origins o).bare = (s.origins o).bare)
    (hendi : ∀ {t o}, (t, o) ∈ s'.ending → (t, o) ∈ s.ending)
    (hmap : ∀ {a o}, s'.sendMap.lookup a = some o → s.sendMap.lookup a = some o ∧
      (s'.tokens a).Sublist (s.tokens a) ∧ s'.progressMap.lookup a = s.progressMap.lookup a) :
    Accounted s' := by
  refine accounted_of_tallied (fun o => ?_) (fun hao => ?_) fun o ho => ?_
  · exact (field_of_bare Tallied (hos o)).mpr (h.tallied o)
  · obtain ⟨hao, htks, hprg⟩ := hmap hao
    exact (h.outstanding hao).congr (field_of_bare tally (hos _)) htks hprg
  · rw [field_of_bare size (hos o), field_of_bare completedReplicas (hos o)]
    rw [field_of_bare endTasks (hos o)] at ho
    exact h.complete o (ho.imp_left fun ⟨t, ht⟩ => ⟨t, hendi ht⟩)

/-! ### Tokens -/

lemma mem_tokens (h : (t, a, r) ∈ s.marking) : r ∈ s.tokens a :=
  mem_map.mpr ⟨(t, a, r), mem_filter.mpr ⟨h, by simp⟩, rfl⟩

lemma tokens_sublist {m : ThreadId × Address × ReplicaId} (h : s'.marking = s.marking.erase m)
    (a : Address) : (s'.tokens a).Sublist (s.tokens a) := by
  rw [tokens, h]
  exact (erase_sublist.filter _).map _

/-! ### Sections -/

open Run2Run

variable {key : Address} {rid : ReplicaId} {H : List (Address × OriginId)}

lemma Owned.eq_key (hO : Owned s) (hH : Holds t ((key, o) :: H) s)
    (h : s.sendMap.lookup a = some o) : a = key := (hO.mapped h).1.symm.trans hH.address

lemma Origin.Tallied.add {x : Origin} {fate : Fate} (h : x.Tallied) (hfr : rid ∉ x.replicas)
    (hlt : rid < x.size) : Tallied { x with
      completedReplicas := x.completedReplicas + 1
      counted := x.counted ++ [(rid, fate)] } := by
  obtain ⟨hcnt, hnd, hbd⟩ := h
  have hrps : (x.counted ++ [(rid, fate)]).map Prod.fst = x.replicas ++ [rid] := map_append
  simp only [Tallied, replicas, hrps]
  refine ⟨?_, nodup_append_comm.mpr (nodup_cons.mpr ⟨hfr, hnd⟩), fun r hr => ?_⟩
  · rw [length_append, hcnt]
    rfl
  · obtain hr | hr := mem_append.mp hr
    · exact hbd r hr
    · exact mem_singleton.mp hr ▸ hlt

/-- A replica that was not counted before is counted. -/
lemma Accounted.add {fate : Fate} (h : Accounted s) (hfr : rid ∉ (s.origins o).replicas)
    (hlt : rid < (s.origins o).size)
    (hout : ∀ {a}, s.sendMap.lookup a = some o → Outstanding a o (fetchAdd t o rid s fate).2) :
    Accounted (fetchAdd t o rid s fate).2 := by
  have hsz : ∀ o', ((fetchAdd t o rid s fate).2.origins o').size = (s.origins o').size :=
    apply_origins_update size origins_fetchAdd rfl
  refine accounted_of_tallied ?_ (fun {a o'} hao => ?_) fun o' ho' => ?_
  · exact (forall_update_iff _ fun _ => Tallied).mpr
      ⟨(h.tallied o).add hfr hlt, fun o' _ => h.tallied o'⟩
  · obtain rfl | ho' := eq_or_ne o' o
    · exact hout hao
    · refine (h.outstanding hao).congr ?_ (tokens_sublist rfl a) rfl
      rw [origins_fetchAdd, update_of_ne ho']
  · rw [hsz, completedReplicas_fetchAdd]
    rw [show ((fetchAdd t o rid s fate).2.origins o').endTasks = _ from
      apply_origins_update endTasks origins_fetchAdd rfl o'] at ho'
    exact (h.complete o' ho').trans (Nat.le_add_right _ _)

/-- A replica that is neither counted nor accounted is skipped, or its retry is discarded. -/
lemma Accounted.addNew {fate : Fate} (h : Accounted s) (hlt : rid < (s.origins o).size)
    (hfr : rid ∉ (s.origins o).replicas)
    (htk : ∀ {a}, s.sendMap.lookup a = some o → rid ∉ s.tokens a)
    (hdis : (s.origins o).registered = true → fate = .discarded) :
    Accounted (fetchAdd t o rid s fate).2 := by
  refine h.add hfr hlt fun {a} hao => ?_
  have hout := h.outstanding hao
  have hsz : ((fetchAdd t o rid s fate).2.origins o).size = (s.origins o).size :=
    apply_origins_update size origins_fetchAdd rfl o
  have hsub : ((fetchAdd t o rid s fate).2.tokens a).Sublist (s.tokens a) := tokens_sublist rfl a
  refine ⟨?_, fun r hr => hsz ▸ hout.bound r (hsub.subset hr), fun hr => ?_, fun hr => ?_⟩
  · rw [replicas_fetchAdd, ← append_assoc, ← concat_eq_append, nodup_concat]
    refine ⟨fun hmem => ?_, hout.once.sublist (hsub.append (refl _))⟩
    exact (mem_append.mp hmem).elim (fun hmem => htk hao (hsub.subset hmem)) hfr
  · rw [apply_origins_update registered origins_fetchAdd rfl] at hr
    exact sublist_nil.mp (hout.quiet hr ▸ hsub)
  · rw [apply_origins_update registered origins_fetchAdd rfl] at hr
    obtain ⟨replicas, hlk, hlen, hnot⟩ := hout.progress hr
    refine ⟨replicas, hlk, hlen.trans hsz.symm, fun r p hp hacc hmem => ?_⟩
    rw [counted_fetchAdd, hdis hr]
    rw [replicas_fetchAdd, ← append_assoc] at hmem
    obtain hmem | hmem := mem_append.mp hmem
    · exact mem_append_left _ (hnot r p hp hacc ((hsub.append (refl _)).subset hmem))
    · exact mem_append_right _ (mem_singleton.mp hmem ▸ mem_cons_self)

/-- The count of a replica that the thread has accounted. -/
lemma Accounted.count {fate : Fate} (h : Accounted s) (hH : Holds t ((key, o) :: H) s)
    (hO : Owned s) (hmark : (t, key, rid) ∈ s.marking) (hmap : s.sendMap.lookup key = some o) :
    Accounted (fetchAdd t o rid s fate).2 ∧ (s.origins o).registered = true := by
  have hout := h.outstanding hmap
  have htk := mem_tokens hmark
  have hregistered : (s.origins o).registered = true := by
    by_contra hr
    rw [Bool.not_eq_true] at hr
    cases hout.quiet hr ▸ htk
  have hfr : rid ∉ (s.origins o).replicas :=
    fun hr => (disjoint_of_nodup_append hout.once) htk hr
  refine ⟨h.add hfr (hout.bound rid htk) fun {a} hao => ?_, hregistered⟩
  obtain rfl := hO.eq_key hH hao
  -- the replica moves from the tokens to the counted ones, so what is known of both together stays
  have hpm : (s.tokens a ++ (s.origins o).replicas).Perm ((fetchAdd t o rid s fate).2.tokens a ++
      ((fetchAdd t o rid s fate).2.origins o).replicas) := by
    have htks : (s.tokens a).Perm (rid :: (fetchAdd t o rid s fate).2.tokens a) := by
      rw [tokens, tokens, fetchAdd, hH.address]
      refine (((perm_cons_erase hmark).filter _).map _).trans (Perm.of_eq ?_)
      rw [filter_cons_of_pos (by simp), map_cons]
    rw [replicas_fetchAdd]
    refine (htks.append_right _).trans ?_
    rw [← append_assoc]
    exact (perm_append_singleton _ _).symm
  have hsub : ((fetchAdd t o rid s fate).2.tokens a).Sublist (s.tokens a) := tokens_sublist rfl a
  refine ⟨hpm.nodup_iff.mp hout.once, fun r hr => ?_, fun hr => ?_, fun hr => ?_⟩
  · rw [apply_origins_update size origins_fetchAdd rfl]
    exact hout.bound r (hsub.subset hr)
  · simp [apply_origins_update registered origins_fetchAdd rfl, hregistered] at hr
  · obtain ⟨replicas, hlk, hlen, hnot⟩ := hout.progress hregistered
    refine ⟨replicas, hlk, ?_, fun r p hp hacc hmem => ?_⟩
    · rwa [apply_origins_update size origins_fetchAdd rfl]
    · rw [counted_fetchAdd]
      exact mem_append_left _ (hnot r p hp hacc (hpm.mem_iff.mpr hmem))

/-- What thread `t` expects of the others: an origin stays in the map while `t` has accounted a
replica of it, and nobody else counts replicas of an origin that `t` has not registered yet. -/
structure Leaves (t : ThreadId) (s s' : Run2Run) : Prop where
  mapped : ∀ {key rid o}, (t, key, rid) ∈ s.marking → s.sendMap.lookup key = some o →
    s'.sendMap.lookup key = some o
  sender : ∀ {o}, o < s.created → (s'.origins o).sender = (s.origins o).sender
  unregistered : ∀ {o}, o < s.created → (s.origins o).sender = t →
    (s.origins o).registered = false →
    (s'.origins o).registered = false ∧ (s'.origins o).counted = (s.origins o).counted

lemma Leaves.of_origins (hmap : s'.sendMap = s.sendMap) (hos : s'.origins = s.origins) :
    Leaves t s s' :=
  ⟨fun _ h => hmap ▸ h, fun _ => hos ▸ rfl, fun _ _ h => ⟨hos ▸ h, hos ▸ rfl⟩⟩

lemma Leaves.refl (t : ThreadId) (s : Run2Run) : Leaves t s s := .of_origins rfl rfl

lemma Leaves.trans {t : ThreadId} {a b c : Run2Run} (hR : Rely t a b) (h : Leaves t a b)
    (h' : Leaves t b c) : Leaves t a c where
  mapped hm ha := h'.mapped (hR.marking hm) (h.mapped hm ha)
  sender ho := (h'.sender (ho.trans_le hR.created)).trans (h.sender ho)
  unregistered ho ht hr := by
    obtain ⟨hr', hc⟩ := h.unregistered ho ht hr
    obtain ⟨hr'', hc'⟩ := h'.unregistered (ho.trans_le hR.created) ((h.sender ho).trans ht) hr'
    exact ⟨hr'', hc'.trans hc⟩

/-- A section that changes one origin, which another thread sends or which is registered -/
lemma Leaves.update {x : Origin} (hmap : s'.sendMap = s.sendMap)
    (hos : s'.origins = update s.origins o x) (hsen : x.sender = (s.origins o).sender)
    (ho : (s.origins o).sender = t → (s.origins o).registered = false →
      x.registered = false ∧ x.counted = (s.origins o).counted) : Leaves t s s' where
  mapped _ h := hmap ▸ h
  sender _ := apply_origins_update Origin.sender hos hsen _
  unregistered {o'} _ ht hr := by
    rw [hos]
    obtain rfl | hne := eq_or_ne o' o
    · rw [update_self]
      exact ho ht hr
    · rw [update_of_ne hne]
      exact ⟨hr, rfl⟩

/-- Thread `t` is in the loop of `SendIn`: it has skipped the replicas that were counted. -/
structure InLoop (t : ThreadId) (o : OriginId) (targets : List (Option NodeId))
    (queries : List PoolQuery) (s : Run2Run) : Prop where
  created : o < s.created
  sender : (s.origins o).sender = t
  unregistered : (s.origins o).registered = false
  length : targets.length + queries.length = (s.origins o).size
  skipped : ∀ r ∈ (s.origins o).replicas, targets[r]? = some none

lemma InLoop.congr (h : InLoop t o targets queries s) (hcr : s.created ≤ s'.created)
    (hsen : (s'.origins o).sender = (s.origins o).sender)
    (hregistered : (s'.origins o).registered = (s.origins o).registered)
    (htask : (s'.origins o).task = (s.origins o).task)
    (hcounted : (s'.origins o).counted = (s.origins o).counted) :
    InLoop t o targets queries s' where
  created := h.created.trans_le hcr
  sender := hsen.trans h.sender
  unregistered := hregistered.trans h.unregistered
  length := by
    rw [size, htask]
    exact h.length
  skipped := by
    rw [replicas, hcounted]
    exact h.skipped

lemma InLoop.next {query : PoolQuery} (h : InLoop t o targets (query :: queries) s)
    (target : Option NodeId) :
    InLoop t o (targets ++ [target]) queries s where
  created := h.created
  sender := h.sender
  unregistered := h.unregistered
  length := by
    rw [← h.length, length_append, length_singleton, length_cons]
    omega
  skipped r hr := by
    rw [List.getElem?_append_left (List.getElem?_eq_some_iff.mp (h.skipped r hr)).1]
    exact h.skipped r hr

section Enter

variable {task : Task} (hstatic : ¬ (s.node.pools.getStaticContainer task.poolId).isNone)

include hstatic

lemma inLoop_enter : InLoop t s.created [] task.poolQueries (enter t key s task).2 := by
  have hsf : (enter t key s task).2.origins s.created =
      { task := task, address := key, sender := t } := by
    rw [origins_enter hstatic, update_self]
  refine ⟨?_, by rw [hsf], by rw [hsf], by rw [hsf, length_nil, Nat.zero_add]; rfl, ?_⟩
  · rw [enter, if_neg hstatic]
    exact Nat.lt_succ_self _
  · rw [hsf]
    exact forall_mem_nil _

lemma leaves_enter (hnone : s.sendMap.lookup key = none) : Leaves t s (enter t' key s task).2 := by
  refine ⟨fun {k _ o'} _ hk => ?_, fun ho' => ?_, fun ho' _ hr => ?_⟩
  · rw [enter, if_neg hstatic]
    have hne : k ≠ key := by
      rintro rfl
      simp [hnone] at hk
    exact (lookup_insert_ne hne).trans hk
  · rw [origins_enter hstatic, update_of_ne ho'.ne]
  · rw [origins_enter hstatic, update_of_ne ho'.ne]
    exact ⟨hr, rfl⟩

/-- A new origin enters the map. -/
lemma Accounted.enter (h : Accounted s) (hO : Owned s) (hnone : s.sendMap.lookup key = none)
    (hC : Orderly s (enter t key s task).2) : Accounted (enter t key s task).2 := by
  have htks : s.tokens key = [] := by
    refine hC.2.2 key ?_ hnone
    rw [Run2Run.enter, if_neg hstatic]
    exact mem_keys.mpr (mem_insert _ |>.mpr (.inl rfl))
  have hsf : (Run2Run.enter t key s task).2.origins s.created =
      { task := task, address := key, sender := t } := by
    rw [origins_enter hstatic, update_self]
  have hold : ∀ {o'}, o' ≠ s.created →
      (Run2Run.enter t key s task).2.origins o' = s.origins o' := by
    intro o' hne
    rw [origins_enter hstatic, update_of_ne hne]
  have hmar : (Run2Run.enter t key s task).2.marking = s.marking := by
    rw [Run2Run.enter, if_neg hstatic]
  have hendi : (Run2Run.enter t key s task).2.ending = s.ending := by
    rw [Run2Run.enter, if_neg hstatic]
  have htks' : ∀ a, (Run2Run.enter t key s task).2.tokens a = s.tokens a := fun a => by
    rw [tokens, tokens, hmar]
  have hmap : (Run2Run.enter t key s task).2.sendMap = s.sendMap.insert key s.created := by
    rw [Run2Run.enter, if_neg hstatic]
  refine accounted_of_tallied ?_ (fun {a o'} hao => ?_) fun o' ho' => ?_
  · rw [origins_enter hstatic]
    exact (forall_update_iff _ fun _ => Tallied).mpr
      ⟨⟨rfl, nodup_nil, forall_mem_nil _⟩, fun o' _ => h.tallied o'⟩
  · rw [hmap] at hao
    obtain ⟨rfl, rfl⟩ | ⟨-, hao⟩ := lookup_insert_eq_some.mp hao
    · refine ⟨?_, ?_, fun _ => (htks' a).trans htks, fun hr => ?_⟩
      · rw [htks', htks, hsf]
        exact nodup_nil
      · rw [htks', htks]
        simp
      · simp [hsf] at hr
    · refine (h.outstanding hao).congr (by rw [hold (hO.mapped hao).2.1.ne]) ?_ ?_
      · rw [htks']
      · rw [Run2Run.enter, if_neg hstatic]
  · rw [hendi] at ho'
    obtain rfl | hne := eq_or_ne o' s.created
    · rw [hsf] at ho'
      obtain ⟨t', ht'⟩ | hend := ho'
      · exact absurd (hO.ending ht').1 (lt_irrefl _)
      · exact absurd hend (lt_irrefl _)
    · rw [hold hne] at ho' ⊢
      exact h.complete o' ho'

end Enter

/-- The dead target of a replica is skipped. -/
lemma Accounted.skip {query : PoolQuery} (h : Accounted s)
    (hloop : InLoop t o targets (query :: queries) s) :
    Accounted (fetchAdd t o targets.length s .skipped).2 ∧
      InLoop t o (targets ++ [none]) queries (fetchAdd t o targets.length s .skipped).2 := by
  have hlt : targets.length < (s.origins o).size := by
    rw [← hloop.length, length_cons]
    omega
  have hfr : targets.length ∉ (s.origins o).replicas := by
    intro hmem
    have hget := hloop.skipped _ hmem
    simp at hget
  refine ⟨h.addNew hlt hfr (fun hao => ?_) (by simp [hloop.unregistered]), ?_⟩
  · rw [(h.outstanding hao).quiet hloop.unregistered]
    exact not_mem_nil
  · have hnx := hloop.next none
    refine ⟨hnx.created, ?_, ?_, ?_, fun r hr => ?_⟩
    · rw [apply_origins_update sender origins_fetchAdd rfl]
      exact hnx.sender
    · rw [apply_origins_update registered origins_fetchAdd rfl]
      exact hnx.unregistered
    · rw [apply_origins_update size origins_fetchAdd rfl]
      exact hnx.length
    · rw [replicas_fetchAdd] at hr
      obtain hr | hr := mem_append.mp hr
      · exact hnx.skipped r hr
      · rw [mem_singleton.mp hr, getElem?_concat_length]

section

variable (h : Accounted s) (hO : Owned s)
include h hO

/-- `RegisterOriginProgress` knows of every replica whether it was skipped. -/
lemma Accounted.register (hH : Holds t ((key, o) :: H) s) (hloop : InLoop t o targets [] s) :
    Accounted (registerOriginProgress key o s targets).2 := by
  have hbr : ∀ {β : Type} (g : Origin → β), (g { s.origins o with registered := true } =
      g (s.origins o)) → ∀ o', g ((registerOriginProgress key o s targets).2.origins o') =
        g (s.origins o') := fun g => apply_origins_update g origins_registerOriginProgress
  refine accounted_of_tallied (fun o' => (hbr Tallied rfl o').mpr (h.tallied o'))
    (fun {a o'} hao => ?_) fun o' ho' => ?_
  · have hout := h.outstanding hao
    obtain rfl | hne := eq_or_ne o' o
    · obtain rfl := hO.eq_key hH hao
      have htks := hout.quiet hloop.unregistered
      refine ⟨?_, ?_, fun _ => htks, fun _ => ⟨_, lookup_insert _, ?_, ?_⟩⟩
      · rw [hbr replicas rfl]
        exact hout.once
      · rw [hbr size rfl]
        exact hout.bound
      · rw [hbr size rfl, length_map, ← hloop.length, length_nil, Nat.add_zero]
      · intro r p hp hacc hmem
        rw [hbr replicas rfl] at hmem
        have hmem : r ∈ s.tokens a ++ (s.origins o').replicas := hmem
        rw [htks] at hmem
        rw [getElem?_map, hloop.skipped r hmem] at hp
        cases hp
        simp at hacc
    · have hkey : a ≠ key := fun ha => hne (hO.eq_of_lookup hH (ha ▸ hao))
      refine hout.congr ?_ (refl _) (lookup_insert_ne hkey)
      rw [origins_registerOriginProgress, update_of_ne hne]
  · rw [hbr size rfl, hbr completedReplicas rfl]
    rw [hbr endTasks rfl] at ho'
    exact h.complete o' ho'

/-- A replica is accounted. -/
lemma Accounted.mark (hb : (markReplicaAccounted t key rid s).1 = true)
    (hC : Orderly s (markReplicaAccounted t key rid s).2) :
    Accounted (markReplicaAccounted t key rid s).2 ∧
      (∀ t', Leaves t' s (markReplicaAccounted t key rid s).2) ∧
      ∀ o, (t, o) ∈ s.held → (s.origins o).address = key →
        (t, key, rid) ∈ (markReplicaAccounted t key rid s).2.marking ∧
          (markReplicaAccounted t key rid s).2.sendMap.lookup key = some o := by
  obtain ⟨hs, -⟩ | ⟨progress, hs, hoth, hsf⟩ := markReplicaAccounted_cases t key rid s
  · simp [hs] at hb
  have hC := hC.1
  rw [hs] at hC ⊢
  obtain ⟨hsome, hnone⟩ := hC (t, key, rid) mem_cons_self rfl
  refine ⟨⟨h.counts, h.once, h.bound, fun {a o'} hao => ?_, h.complete⟩,
    fun t' => .of_origins rfl rfl, fun o hhl hadr => ⟨mem_cons_self, ?_⟩⟩
  · have hout := h.outstanding hao
    have htks : tokens { s with marking := (t, key, rid) :: s.marking, progressMap := progress } a =
        if key = a then rid :: s.tokens a else s.tokens a := by
      rw [tokens, tokens]
      split_ifs with ha
      · rw [filter_cons_of_pos (by simpa using ha), map_cons]
      · rw [filter_cons_of_neg (by simpa using ha)]
    obtain rfl | hne := eq_or_ne a key
    · obtain ⟨hregistered, hlt, hdis⟩ := hsome o' hao
      obtain ⟨replicas, hlk, hlen, hfr⟩ := hout.progress hregistered
      obtain ⟨p, hp⟩ : ∃ p, replicas[rid]? = some p := ⟨_, getElem?_eq_getElem (hlen ▸ hlt)⟩
      obtain ⟨hacc, hset⟩ := hsf replicas hlk
      rw [if_pos rfl] at htks
      refine ⟨?_, ?_, fun hr => ?_, fun _ => ⟨_, hset, ?_, fun r q hq hqacc hmem => ?_⟩⟩
      · rw [htks]
        exact nodup_cons.mpr ⟨fun hmem => hdis (hfr rid p hp (hacc p hp) hmem), hout.once⟩
      · rw [htks]
        exact forall_mem_cons.mpr ⟨hlt, hout.bound⟩
      · cases hr.symm.trans hregistered
      · rwa [length_modify]
      · rw [htks] at hmem
        obtain rfl | hrid := eq_or_ne r rid
        · rw [getElem?_modify_eq, hp] at hq
          cases hq
          exact absurd hqacc (by simp [ReplicaProgress.account])
        · rw [getElem?_modify_ne _ _ hrid.symm] at hq
          exact hfr r q hq hqacc ((mem_cons.mp hmem).resolve_left hrid)
    · rw [if_neg hne.symm] at htks
      exact hout.congr rfl (htks ▸ refl _) (hoth a hne)
  · cases hlk : s.sendMap.lookup key with
    | none => exact absurd hadr (hnone hlk _ hhl rfl)
    | some o' =>
      obtain rfl := (hO.held hhl).2 o' (hadr.symm ▸ hlk)
      rfl

/-- A full origin leaves the map. -/
lemma Accounted.claim (hH : Holds t ((key, o) :: H) s) (hfull : Full o s) :
    Accounted (claimOrigin t key o s).2 ∧ ∀ t', Leaves t' s (claimOrigin t key o s).2 := by
  have hprg : ∀ {a}, a ≠ key → (s.progressMap.erase key).lookup a = s.progressMap.lookup a :=
    lookup_erase_ne
  rw [claimOrigin]
  cases hlk : s.sendMap.lookup key with
  | none =>
    refine ⟨h.congr (fun _ => rfl) id fun {a _} hao => ⟨hao, refl _, hprg ?_⟩,
      fun t' => .of_origins rfl rfl⟩
    rintro rfl
    simp [hlk] at hao
  | some o' =>
    obtain rfl := hO.eq_of_lookup hH hlk
    refine ⟨⟨h.counts, h.once, h.bound, fun {a o''} hao => ?_, fun o'' ho'' => ?_⟩,
      fun t' => ⟨fun {k r o''} hmark hk => ?_, fun _ => rfl, fun _ _ hr => ⟨hr, rfl⟩⟩⟩
    · obtain ⟨hne, hao⟩ := lookup_erase_eq_some.mp hao
      exact (h.outstanding hao).congr rfl (refl _) (hprg hne)
    · obtain ⟨t', ht'⟩ | hend := ho''
      · obtain heq | ht' := mem_cons.mp ht'
        · cases heq
          exact hfull.2
        · exact h.complete o'' (.inl ⟨t', ht'⟩)
      · exact h.complete o'' (.inr hend)
    · -- a replica that is accounted and not counted keeps its origin from being full
      have hne : k ≠ key := by
        rintro rfl
        cases hlk.symm.trans hk
        have hout := h.outstanding hk
        have htk := mem_tokens hmark
        exact disjoint_of_nodup_append hout.once htk (h.mem_of_full hfull.2 (hout.bound r htk))
      exact (lookup_erase_ne hne).trans hk

end

/-- A claimed origin is ended. -/
lemma Accounted.finish (h : Accounted s) (hmem : (t, o) ∈ s.ending) :
    Accounted (endTask t o s).2 := by
  have hbr : ∀ {β : Type} (g : Origin → β), (g { s.origins o with
      endTasks := (s.origins o).endTasks + 1 } = g (s.origins o)) →
      ∀ o', g ((endTask t o s).2.origins o') = g (s.origins o') := fun g =>
    apply_origins_update g origins_endTask
  refine accounted_of_tallied (fun o' => (hbr Tallied rfl o').mpr (h.tallied o'))
    (fun hao => (h.outstanding hao).congr (hbr tally rfl _) (refl _) rfl) fun o' ho' => ?_
  rw [hbr completedReplicas rfl, hbr size rfl]
  obtain rfl | hne := eq_or_ne o' o
  · exact h.complete o' (.inl ⟨t, hmem⟩)
  · rw [origins_endTask, update_of_ne hne] at ho'
    exact h.complete o' (ho'.imp_left fun ⟨t', ht'⟩ => ⟨t', mem_of_mem_erase ht'⟩)

end Invariant

/-! ## The argument -/

open Run2Run in
/-- Replicas are counted once, in orderly runs. -/
def accounting : Argument where
  J := Accounted
  K := Leaves
  C := Orderly
  Sending t _ o targets queries s := InLoop t o targets queries s
  Ready t key o rid s := (t, key, rid) ∈ s.marking ∧ s.sendMap.lookup key = some o
  refl := Leaves.refl
  trans := Leaves.trans
  sending_rely hR hK h := by
    obtain ⟨hregistered, hcounted⟩ := hK.unregistered h.created h.sender h.unregistered
    exact h.congr hR.created (hK.sender h.created) (hregistered.trans h.unregistered.symm)
      (hR.task h.created) hcounted
  ready_rely hR hK h := ⟨hR.marking h.1, hK.mapped h.1 h.2⟩
  quiet hq h := h.congr hq.bare (fun h => hq.ending ▸ h) fun {a _} hao => by
    rw [hq.sendMap] at hao
    refine ⟨hao, ?_, by rw [hq.progressMap]⟩
    rw [tokens, hq.marking]
    exact List.Sublist.refl _
  quiet_rely {t s s'} hq := by
    have hfield : ∀ {β : Type} (g : Origin → β), (∀ x, g x.bare = g x) →
        ∀ o, g (s'.origins o) = g (s.origins o) := fun g hg o => by
      rw [← hg, hq.bare, hg]
    refine ⟨fun _ h => hq.sendMap ▸ h, fun _ => hfield Origin.sender (fun _ => rfl) _,
      fun _ _ hr => ?_⟩
    rw [hfield Origin.registered fun _ => rfl, hfield Origin.counted fun _ => rfl]
    exact ⟨hr, rfl⟩
  entered hO h hfree hstatic hC := by
    have hnone := Option.isNone_iff_eq_none.mp (Bool.and_eq_true_iff.mp hfree).1
    exact ⟨h.enter hstatic hO hnone hC, fun _ _ => leaves_enter hstatic hnone, inLoop_enter hstatic⟩
  next target h := h.next target
  skipped {t key o H targets query queries s} _ h _ hloop _ := by
    obtain ⟨h', hloop'⟩ := h.skip hloop
    refine ⟨h', fun t' ht' => .update rfl origins_fetchAdd rfl fun ht => ?_, hloop'⟩
    exact absurd (ht.symm.trans hloop.sender) ht'
  registered hO h hH hloop := by
    refine ⟨h.register hO hH hloop,
      fun t' ht' => .update rfl origins_registerOriginProgress rfl fun ht => ?_⟩
    exact absurd (ht.symm.trans hloop.sender) ht'
  marked hO h hb hC := by
    obtain ⟨h', hleaves, hready⟩ := h.mark hO hb hC
    exact ⟨h', fun t' _ => hleaves t', hready⟩
  found _ _ hmark hmap := ⟨hmark, hmap⟩
  abandoned t rid _ _ h hnone := by
    refine ⟨h.congr (fun _ => rfl) id fun hao => ⟨hao, tokens_sublist rfl _, rfl⟩, fun t' _ => ?_⟩
    exact .of_origins rfl rfl
  counted hO h hH hready _ _ := by
    obtain ⟨h', hregistered⟩ := h.count hH hO hready.1 hready.2
    refine ⟨h', fun t' _ => .update rfl origins_fetchAdd rfl fun _ hr => ?_⟩
    simp [hr] at hregistered
  discarded {t key o H rid s} hO h hH hC := by
    obtain ⟨hregistered, hlt, hfr⟩ := hC.2.1 o hH.lt_created (rid, .discarded)
      (counted_fetchAdd ▸ mem_append_right _ mem_cons_self) rfl counted_fetchAdd
    obtain ⟨htk, hfr⟩ := not_or.mp fun h => hfr (mem_append.mpr h)
    refine ⟨h.addNew hlt hfr (fun hao => (hO.mapped hao).1 ▸ htk) fun _ => rfl,
      fun t' _ => .update rfl origins_fetchAdd rfl fun _ hr => ?_⟩
    simp [hr] at hregistered
  claimed hO h hH hfull := by
    obtain ⟨h', hleaves⟩ := h.claim hO hH hfull
    exact ⟨h', fun t' _ => hleaves t'⟩
  sending_claimed {t key key' o o' targets queries s} h := by
    rw [claimOrigin]
    split
    · exact h.congr le_rfl rfl rfl rfl rfl
    · exact h.congr le_rfl rfl rfl rfl rfl
  ended h hmem := ⟨h.finish hmem, fun t' _ => .update rfl origins_endTask rfl fun _ hr => ⟨hr, rfl⟩⟩
  sending_ended h := h.congr le_rfl (apply_origins_update Origin.sender origins_endTask rfl _)
    (apply_origins_update Origin.registered origins_endTask rfl _)
    (apply_origins_update Origin.task origins_endTask rfl _)
    (apply_origins_update Origin.counted origins_endTask rfl _)

lemma accounted_start (node : Node) : Accounted (start node) where
  counts _ := rfl
  once _ := nodup_nil
  bound _ _ h := by cases h
  outstanding h := absurd h (by simp [start])
  complete _ h := by
    obtain ⟨t, ht⟩ | h := h
    · cases ht
    · exact absurd h (lt_irrefl 0)

/-! ## Exact accounting -/

/-- **Accounting is exact in orderly runs.**  In every interleaving whose steps are all orderly, no
replica adds more than one to `CompletedReplicas` of its origin, and an origin is completed only
after each of its replicas has been counted on one of the paths. -/
theorem accounting_exact_of_orderly (node : Node) (calls : ThreadId → List Call)
    {p : Pool Run2Run ThreadId Unit}
    (hp : Pool.Reach Orderly ((Run2Run.start node).launch calls) p) (o : OriginId) :
    (p.state.origins o).completedReplicas = (p.state.origins o).counted.length ∧
      ((p.state.origins o).counted.map Prod.fst).Nodup ∧
      (0 < (p.state.origins o).endTasks → ∀ rid < (p.state.origins o).task.poolQueries.length,
        ∃ fate, (rid, fate) ∈ (p.state.origins o).counted) := by
  have h := (accounting.launch_safe calls ⟨owned_start node, accounted_start node⟩ hp).2
  refine ⟨(h.counts o).trans (length_map _), h.once o, fun hend rid hrid => ?_⟩
  obtain ⟨⟨_, fate⟩, hmem, rfl⟩ := mem_map.mp (h.mem_of_full (h.complete o (.inr hend)) hrid)
  exact ⟨fate, hmem⟩

/-- A task is sent to the nodes 1 and 2.  Node 1 answers, a probe of its replica finds nothing
there, and node 2 answers. -/
def twoReplicas (t : ThreadId) : List Call :=
  match t with
  | 0 =>
    [.sendIn
      { poolId := ⟨2, 0⟩, poolQuery := .broadcast, poolQueries := [.physical 1, .physical 2] }
      7 (fun _ => .delivered) 0]
  | 1 => [.recvOut [⟨7, 0, 0, -1⟩]]
  | 2 => [.taskProgress 7 0 true]
  | 3 => [.recvOut [⟨7, 1, 0, -1⟩]]
  | _ => []

/-- The origin is registered before the first response is looked at. -/
def registeredFirst : List ThreadId :=
  List.replicate 6 0 ++ List.replicate 12 1 ++ List.replicate 1 2 ++ List.replicate 15 3

lemma twoReplicas_registeredFirst :
    (((start (created 3 32 0)).launch twoReplicas).runIf (fun s s' => decide (Orderly s s'))
      registeredFirst).map (fun p => ((p.state.origins 0).counted, (p.state.origins 0).endTasks)) =
        some ([(0, .answered), (1, .answered)], 1) := by
  decide +kernel

theorem accounting_exact_registeredFirst :
    ∃ p, Pool.Reach Orderly ((Run2Run.start (created 3 32 0)).launch twoReplicas) p ∧
      (p.state.origins 0).endTasks = 1 ∧ (p.state.origins 0).completedReplicas = 2 ∧
      ((p.state.origins 0).counted.map Prod.fst).Nodup := by
  obtain ⟨p, hrun, hstt⟩ := map_eq_some_iff.mp twoReplicas_registeredFirst
  obtain ⟨hcounted, hend⟩ := Prod.mk.inj hstt
  have hp := Pool.reach_of_runIf (fun _ _ => of_decide_eq_true) hrun
  obtain ⟨hcnt, hnd, -⟩ := accounting_exact_of_orderly _ _ hp 0
  exact ⟨p, hp, hend, hcnt.trans (congrArg List.length hcounted), hnd⟩

/-- The first response is counted before the origin is registered. -/
def answeredFirst : List ThreadId :=
  List.replicate 4 0 ++ List.replicate 12 1 ++ List.replicate 2 0 ++ List.replicate 9 2

lemma twoReplicas_answeredFirst :
    (((start (created 3 32 0)).launch twoReplicas).runIf (fun _ _ => true) answeredFirst).map
      (fun p => ((p.state.origins 0).counted, (p.state.origins 0).endTasks)) =
        some ([(0, .answered), (0, .gone)], 1) := by
  decide +kernel

/-- **A replica can be counted twice.**  Its response was counted before the origin was registered,
and a probe finds it gone afterwards.  The origin is completed although the other replica has not
answered, is not gone, was not skipped and was not discarded. -/
theorem accounting_inexact_answeredFirst :
    ∃ calls p, Pool.Reach (fun _ _ => True) ((Run2Run.start (created 3 32 0)).launch calls) p ∧
      (p.state.origins 0).endTasks = 1 ∧ ¬ ((p.state.origins 0).counted.map Prod.fst).Nodup ∧
      ∀ fate, (1, fate) ∉ (p.state.origins 0).counted := by
  obtain ⟨p, hrun, hstt⟩ := map_eq_some_iff.mp twoReplicas_answeredFirst
  obtain ⟨hcounted, hend⟩ := Prod.mk.inj hstt
  have hp := Pool.reach_of_runIf (fun _ _ _ => trivial) hrun
  refine ⟨twoReplicas, p, hp, hend, ?_, fun fate => ?_⟩
  · rw [hcounted]
    decide
  · rw [hcounted]
    cases fate <;> decide

end ClioCore.Runtime
