import ClioCore.Runtime.Threads

/-!
# Origins that are never completed

An origin is completed when as many of its replicas were counted as it has.  A replica whose query
does not resolve to a node of the host table is neither sent nor counted: `SendIn` goes on with the
next one, and `RegisterOriginProgress` notes it as accounted.  Its origin stays in `send_map_` for
ever.

Here calls follow one another, each running to its end, so every state is one outside `SendIn`.

* `Ledger` — a node, with the replicas for which a response or a verdict has arrived.
* `Ledger.Stranded` — an origin waits for nothing.
* `Sound`, `Kept` — what is known of the origins in the map between two calls.
* `Call.dispatchable` — every query of an origin resolves to a host.
-/

namespace ClioCore.Runtime

open Foundations List Option Function Origin Co AList

/-! ## What is known between two calls -/

/-- The origin waits for replicas. -/
structure Waits (o : OriginId) (s : Run2Run) : Prop where
  subtasks : (s.origins o).subtasks = (s.origins o).size
  counts : (s.origins o).completedReplicas = (s.origins o).replicas.length
  waits : (s.origins o).completedReplicas < (s.origins o).size
  known : (s.node.pools.getStaticContainer (s.origins o).task.poolId).isSome

/-- The progress entry of the origin knows the replicas that were counted, apart from `X`. -/
structure Kept (X : List ReplicaId) (a : Address) (o : OriginId) (s : Run2Run) :
    Prop extends Waits o s where
  progress : ∃ replicas, s.progressMap.lookup a = some replicas ∧
    replicas.length = (s.origins o).size ∧ ∀ r p, replicas[r]? = some p →
      (p.accounted = true → r ∈ (s.origins o).replicas ∨ r ∈ X) ∧
      (p.target = none → r ∈ (s.origins o).replicas)

/-- Every origin of the map is at its address, and waits unless its address is among `keys`. -/
structure Sound (keys : List Address) (s : Run2Run) : Prop where
  located : ∀ {a o}, s.sendMap.lookup a = some o → (s.origins o).address = a ∧ o < s.created
  kept : ∀ {a o}, s.sendMap.lookup a = some o → a ∉ keys → Kept [] a o s

section Sound

variable {keys keys' : List Address} {X Y : List ReplicaId} {a key : Address} {o o' : OriginId}
  {s s' : Run2Run}

/-- What waiting is about, of a single origin -/
def Origin.waiting (x : Origin) : ℕ × ℕ × ℕ × List ReplicaId × PoolId :=
  (x.subtasks, x.size, x.completedReplicas, x.replicas, x.task.poolId)

lemma Quiet.waiting (h : Quiet s s') (hsubt : (s'.origins o).subtasks = (s.origins o).subtasks) :
    (s'.origins o).waiting = (s.origins o).waiting :=
  Prod.ext hsubt (field_of_bare (fun x => x.waiting.2) (h.bare o))

lemma Waits.congr (h : Waits o s) (hps : s'.node.pools = s.node.pools)
    (hor : (s'.origins o).waiting = (s.origins o).waiting) : Waits o s' := by
  simp only [Origin.waiting, Prod.mk.injEq] at hor
  obtain ⟨hsubt, hsz, hcpd, hrps, hpool⟩ := hor
  refine ⟨?_, ?_, ?_, ?_⟩
  · rw [hsubt, hsz]
    exact h.subtasks
  · rw [hcpd, hrps]
    exact h.counts
  · rw [hcpd, hsz]
    exact h.waits
  · rw [hps, hpool]
    exact h.known

lemma Kept.congr (h : Kept X a o s) (hps : s'.node.pools = s.node.pools)
    (hprg : s'.progressMap.lookup a = s.progressMap.lookup a)
    (hor : (s'.origins o).waiting = (s.origins o).waiting) : Kept X a o s' := by
  refine ⟨h.toWaits.congr hps hor, ?_⟩
  simp only [Origin.waiting, Prod.mk.injEq] at hor
  rw [hprg, hor.2.1, hor.2.2.2.1]
  exact h.progress

lemma Kept.mono (h : Kept X a o s) (hXY : X ⊆ Y) : Kept Y a o s := by
  obtain ⟨replicas, hlk, hlen, hp⟩ := h.progress
  exact ⟨h.toWaits, replicas, hlk, hlen, fun r p hr =>
    ⟨fun hacc => ((hp r p hr).1 hacc).imp_right fun h => hXY h, (hp r p hr).2⟩⟩

/-- Two origins of the map are at different addresses. -/
lemma Sound.ne (h : Sound keys s) (ha : s.sendMap.lookup a = some o)
    (hb : s.sendMap.lookup key = some o') (hne : a ≠ key) : o ≠ o' := by
  rintro rfl
  exact hne ((h.located ha).1.symm.trans (h.located hb).1)

/-- A section that leaves what is in the map apart from `keys'`, and the origins there -/
lemma Sound.congr (h : Sound keys s) (hps : s'.node.pools = s.node.pools)
    (hloc : ∀ {a o}, s'.sendMap.lookup a = some o → (s'.origins o).address = a ∧ o < s'.created)
    (hmap : ∀ {a o}, s'.sendMap.lookup a = some o → a ∉ keys' →
      s.sendMap.lookup a = some o ∧ a ∉ keys ∧ s'.progressMap.lookup a = s.progressMap.lookup a ∧
      (s'.origins o).waiting = (s.origins o).waiting) : Sound keys' s' where
  located := hloc
  kept ha hks := by
    obtain ⟨hs, hks, hprg, hor⟩ := hmap ha hks
    exact (h.kept hs hks).congr hps hprg hor

lemma Sound.mono (h : Sound keys s) (hk : ∀ a ∈ keys, a ∈ keys') : Sound keys' s :=
  ⟨h.located, fun ha hne => h.kept ha fun hmem => hne (hk _ hmem)⟩

/-- A quiet section that leaves the sizes -/
lemma Sound.quiet (h : Sound keys s) (hq : Quiet s s')
    (hsub : ∀ o, (s'.origins o).subtasks = (s.origins o).subtasks) : Sound keys s' := by
  refine h.congr hq.pools (fun ha => ?_) fun ha hks => ?_
  · rw [hq.sendMap] at ha
    rw [field_of_bare address (hq.bare _), hq.created]
    exact h.located ha
  · rw [hq.sendMap] at ha
    exact ⟨ha, hks, by rw [hq.progressMap], hq.waiting (hsub _)⟩

lemma Kept.quiet (h : Kept X a o s) (hq : Quiet s s')
    (hsub : (s'.origins o).subtasks = (s.origins o).subtasks) : Kept X a o s' :=
  h.congr hq.pools (by rw [hq.progressMap]) (hq.waiting hsub)

end Sound

/-! ## Programs run alone -/

section Alone

open Run2Run

variable {t : ThreadId} {keys : List Address} {key : Address} {o : OriginId} {rid : ReplicaId}
  {s : Run2Run}

/-- The origin leaves the map and nothing else changes. -/
lemma completeOriginTask_returns (h : Sound (key :: keys) s)
    (ho : ∀ o', s.sendMap.lookup key = some o' → o' = o) :
    (completeOriginTask t key o).Returns s fun _ s' => Sound keys s' ∧
    s'.sendMap.lookup key = none ∧
      (∀ {a o'}, s'.sendMap.lookup a = some o' → s.sendMap.lookup a = some o') ∧ Grows s s' := by
  have hcla : Grows s (claimOrigin t key o s).2 := guar_claimOrigin.grows
  rw [completeOriginTask, returns_bind, returns_act, claimOrigin] at *
  cases hlk : s.sendMap.lookup key with
  | none =>
    rw [if_neg (by simp), returns_pure]
    refine ⟨h.congr rfl h.located fun {a o'} ha hks => ?_, hlk, id, .of_origins rfl id rfl rfl⟩
    have hne : a ≠ key := by
      rintro rfl
      simp [hlk] at ha
    exact ⟨ha, not_mem_cons_of_ne_of_not_mem hne hks, lookup_erase_ne hne, rfl⟩
  | some o' =>
    obtain rfl := ho o' hlk
    rw [hlk] at hcla
    rw [if_pos rfl, returns_bind, returns_act, returns_act]
    have hgr := (hcla.trans (quiet_clearSubtasks (o := o')).grows).trans
      (guar_endTask (t := t) (o := o')).grows
    refine ⟨h.congr rfl (fun {a o''} ha => ?_) fun {a o''} ha hks => ?_, lookup_erase _ _,
      fun ha => (lookup_erase_eq_some.mp ha).2, hgr⟩
    · obtain ⟨hadr, hlt⟩ := h.located (lookup_erase_eq_some.mp ha).2
      exact ⟨(hgr.address hlt).trans hadr, hlt⟩
    · obtain ⟨hne, ha⟩ := lookup_erase_eq_some.mp ha
      -- the origin that is ended is at another address
      have ho'' := h.ne ha hlk hne
      have hor : (endTask t o' (clearSubtasks o' { s with
          sendMap := s.sendMap.erase key
          progressMap := s.progressMap.erase key
          ending := (t, o') :: s.ending }).2).2.origins o'' = s.origins o'' :=
        (update_of_ne ho'' _ _).trans (update_of_ne ho'' _ _)
      rw [hor]
      exact ⟨ha, not_mem_cons_of_ne_of_not_mem hne hks, lookup_erase_ne hne, rfl⟩

lemma Sound.fetchAdd {fate : Fate} (h : Sound keys s) (hmap : s.sendMap.lookup key = some o) :
    Sound (key :: keys) (fetchAdd t o rid s fate).2 := by
  refine h.congr rfl (fun ha => ?_) fun {a o'} ha hks => ?_
  · rw [apply_origins_update address origins_fetchAdd rfl]
    exact h.located ha
  · obtain ⟨hne, hks⟩ := not_or.mp fun h => hks (mem_cons.mpr h)
    rw [origins_fetchAdd, update_of_ne (h.ne ha hmap hne)]
    exact ⟨ha, hks, rfl, rfl⟩

/-- An origin that waits for more than one replica still waits when one is counted. -/
lemma Waits.fetchAdd {fate : Fate} (h : Waits o s)
    (hne : (s.origins o).completedReplicas + 1 ≠ (s.origins o).size) :
    Waits o (fetchAdd t o rid s fate).2 := by
  have hsz : ((Run2Run.fetchAdd t o rid s fate).2.origins o).size = (s.origins o).size :=
    apply_origins_update size origins_fetchAdd rfl o
  have hcpd : ((Run2Run.fetchAdd t o rid s fate).2.origins o).completedReplicas =
      (s.origins o).completedReplicas + 1 := by
    rw [completedReplicas_fetchAdd, if_pos rfl]
  refine ⟨?_, ?_, ?_, ?_⟩
  · rw [hsz, apply_origins_update Origin.subtasks origins_fetchAdd rfl]
    exact h.subtasks
  · rw [hcpd, replicas_fetchAdd, length_append, h.counts]
    rfl
  · rw [hcpd, hsz]
    exact lt_of_le_of_ne h.waits hne
  · rw [apply_origins_update task origins_fetchAdd rfl]
    exact h.known

lemma Kept.fetchAdd {fate : Fate} (h : Kept [rid] key o s)
    (hw : Waits o (fetchAdd t o rid s fate).2) : Kept [] key o (fetchAdd t o rid s fate).2 := by
  obtain ⟨replicas, hlk, hlen, hp⟩ := h.progress
  refine ⟨hw, replicas, hlk, ?_, fun r p hr => ?_⟩
  · rwa [apply_origins_update size origins_fetchAdd rfl]
  · rw [replicas_fetchAdd]
    exact ⟨fun hacc => .inl (mem_append.mpr ((hp r p hr).1 hacc)),
      fun ht => mem_append.mpr (.inl ((hp r p hr).2 ht))⟩

/-- One more replica is counted, and the origin still waits or leaves the map. -/
lemma countReplica_returns {fate : Fate} (h : Sound (key :: keys) s)
    (hmap : s.sendMap.lookup key = some o) (hw : Waits o s) :
    (countReplica t key o rid fate).Returns s fun _ s' =>
      (s'.sendMap.lookup key = none ∧ Sound keys s' ∧ Grows s s' ∧
        (s.origins o).completedReplicas + 1 = (s.origins o).size) ∨
      (s' = (fetchAdd t o rid s fate).2 ∧ Waits o s') := by
  rw [countReplica, returns_bind, returns_act, returns_bind, returns_act]
  have hgr : Grows s (fetchAdd t o rid s fate).2 := guar_fetchAdd.grows
  have hsub : ((fetchAdd t o rid s fate).2.origins o).subtasks = (s.origins o).size :=
    (apply_origins_update subtasks origins_fetchAdd rfl o).trans hw.subtasks
  rw [subtasksSize, hsub]
  split_ifs with hls
  · have hsnd : Sound (key :: keys) (fetchAdd t o rid s fate).2 := (h.fetchAdd hmap).mono (by simp)
    refine (completeOriginTask_returns hsnd fun o' ho' => ?_).mono ?_
    · exact some.inj (ho'.symm.trans hmap)
    · rintro - s' ⟨hs', hno, -, hgr'⟩
      exact .inl ⟨hno, hs', hgr.trans hgr', hls⟩
  · exact returns_pure.mpr (.inr ⟨rfl, hw.fetchAdd hls⟩)

/-! ### Responses and verdicts -/

/-- The replica is counted from now on if its origin is in the map. -/
def Settles (key : Address) (rid : ReplicaId) (s : Run2Run) : Prop :=
  ∀ o, s.sendMap.lookup key = some o → rid < (s.origins o).size → rid ∈ (s.origins o).replicas

/-- A replica that was accounted has been counted. -/
lemma Sound.settles (h : Sound [] s) {replicas : List ReplicaProgress} {p : ReplicaProgress}
    (hlk : s.progressMap.lookup key = some replicas) (hp : replicas[rid]? = some p)
    (hacc : p.accounted = true) : Settles key rid s := by
  intro o ho _
  obtain ⟨replicas', hlk', -, hcnt⟩ := (h.kept ho not_mem_nil).progress
  cases hlk.symm.trans hlk'
  exact ((hcnt rid p hp).1 hacc).resolve_right not_mem_nil

/-- What marking a replica leaves of the origins that wait -/
lemma Sound.marked (h : Sound [] s) {progress : AList fun _ : Address => List ReplicaProgress}
    (hoth : ∀ a, a ≠ key → progress.lookup a = s.progressMap.lookup a)
    (hsf : ∀ replicas, s.progressMap.lookup key = some replicas →
      progress.lookup key = some (replicas.modify rid ReplicaProgress.account)) :
    Sound [key] { s with marking := (t, key, rid) :: s.marking, progressMap := progress } ∧
      ∀ o, s.sendMap.lookup key = some o →
        Kept [rid] key o
          { s with marking := (t, key, rid) :: s.marking, progressMap := progress } := by
  refine ⟨h.congr rfl h.located fun {a o} ha hks => ?_, fun o ho => ?_⟩
  · exact ⟨ha, not_mem_nil, hoth a fun he => hks (mem_singleton.mpr he), rfl⟩
  · have hkp := h.kept ho not_mem_nil
    obtain ⟨replicas, hlk, hlen, hp⟩ := hkp.progress
    refine ⟨hkp.toWaits.congr rfl rfl, _, hsf replicas hlk,
      (length_modify _ _ _).trans hlen, fun r p hr => ?_⟩
    obtain rfl | hne := eq_or_ne rid r
    · rw [getElem?_modify_eq] at hr
      obtain ⟨q, hq, rfl⟩ := map_eq_some_iff.mp hr
      exact ⟨fun _ => .inr (mem_singleton.mpr rfl), (hp rid q hq).2⟩
    · rw [getElem?_modify_ne _ _ hne] at hr
      exact ⟨fun hacc => .inl (((hp r p hr).1 hacc).resolve_right not_mem_nil), (hp r p hr).2⟩

lemma subtasks_setReturnCode {code : ℤ} (o' : OriginId) :
    ((setReturnCode o s code).2.origins o').subtasks = (s.origins o').subtasks :=
  apply_origins_update (x := { s.origins o with returnCode := code }) subtasks rfl rfl o'

lemma subtasks_aggregateOut {r : Response} (o' : OriginId) :
    ((aggregateOut o s r).2.origins o').subtasks = (s.origins o').subtasks :=
  apply_origins_update (x := { s.origins o with
    returnCode := if r.returnCode ≠ 0 then r.returnCode else (s.origins o).returnCode
    probeResult := if r.probeResult = 0 then 0 else (s.origins o).probeResult }) subtasks rfl rfl o'

/-- Counting a replica that was accounted -/
lemma countMarked_returns {fate : Fate} (h : Sound [key] s) (hmap : s.sendMap.lookup key = some o)
    (hkp : Kept [rid] key o s) :
    (countReplica t key o rid fate).Returns s fun _ s' => Sound [] s' ∧ Settles key rid s' := by
  refine (countReplica_returns h hmap hkp.toWaits).mono ?_
  rintro - s' (⟨hno, hsnd, -⟩ | ⟨rfl, hw⟩)
  · exact ⟨hsnd, fun o' ho' => by cases hno.symm.trans ho'⟩
  · have hadd : Sound [key, key] (fetchAdd t o rid s fate).2 := h.fetchAdd hmap
    refine ⟨⟨hadd.located, fun {a o'} ha _ => ?_⟩, fun o' ho' _ => ?_⟩
    · obtain rfl | hne := eq_or_ne a key
      · cases ha.symm.trans hmap
        exact hkp.fetchAdd hw
      · exact hadd.kept ha (by simp [hne])
    · cases ho'.symm.trans hmap
      rw [replicas_fetchAdd]
      exact mem_append.mpr (.inr (mem_singleton.mpr rfl))

lemma dropOrigin_returns (h : Sound [] s ∧ Settles key rid s) :
    (act (dropOrigin t o)).Returns s fun _ s' => Sound [] s' ∧ Settles key rid s' :=
  returns_act.mpr ⟨h.1.quiet quiet_dropOrigin fun _ => rfl, h.2⟩

lemma handleTaskProgressResult_returns (h : Sound [] s) :
    (handleTaskProgressResult t key rid true).Returns s fun _ s' => Sound [] s' ∧
    Settles key rid s' := by
  rw [handleTaskProgressResult, if_pos rfl, returns_bind, returns_act]
  obtain ⟨hs, replicas, p, hlk, hp, hacc⟩ | ⟨progress, hs, hoth, hsf⟩ :=
    markReplicaAccounted_cases t key rid s
  · rw [hs, if_neg (by simp), returns_pure]
    exact ⟨h, h.settles hlk hp hacc⟩
  · rw [hs, if_pos rfl, returns_bind, returns_act, findAccounted]
    obtain ⟨hsnd, hkp⟩ := h.marked (t := t) hoth fun replicas hr => (hsf replicas hr).2
    cases hlk : s.sendMap.lookup key with
    | none =>
      rw [returns_pure]
      have hgn : ∀ {a o}, s.sendMap.lookup a = some o → a ≠ key := by
        rintro a o ha rfl
        simp [hlk] at ha
      refine ⟨hsnd.congr rfl hsnd.located fun ha _ => ?_, fun o ho => absurd rfl (hgn ho)⟩
      exact ⟨ha, fun hmem => hgn ha (mem_singleton.mp hmem), rfl, rfl⟩
    | some o =>
      rw [returns_bind, returns_act]
      have htak := hsnd.quiet (quiet_take (t := t) (o := o)) fun _ => rfl
      have hwai := (hkp o hlk).quiet (quiet_take (t := t) (o := o)) rfl
      rw [returns_bind]
      exact (countMarked_returns (htak.quiet quiet_setReturnCode subtasks_setReturnCode) hlk
        (hwai.quiet quiet_setReturnCode (subtasks_setReturnCode o))).mono
          fun _ _ h => dropOrigin_returns h

section

variable (r : Response) (h : Sound [] s)
include r h

/-- A response that is turned down names no replica of an origin that waits. -/
lemma recvOutDeserialize_returns : (recvOutDeserialize t [r]).Returns s fun b s' => s' = s ∧
      (b = false → Settles r.netKey r.replicaId s) := by
  rw [recvOutDeserialize, returns_bind, returns_act, findOrigin]
  cases hlk : s.sendMap.lookup r.netKey with
  | none => exact returns_pure.mpr ⟨rfl, fun _ o ho => by cases hlk.symm.trans ho⟩
  | some o =>
    rw [returns_bind, returns_act, returns_bind, returns_act, returns_bind,
      returns_act, subtasksSize, dropOrigin]
    rw [erase_cons_head]
    have hkp := h.kept hlk not_mem_nil
    split_ifs with hok
    · exact returns_pure.mpr ⟨rfl, by simp⟩
    · refine returns_pure.mpr ⟨rfl, fun _ o' ho' hlt => ?_⟩
      cases hlk.symm.trans ho'
      exact absurd ⟨hlt.trans_eq hkp.subtasks.symm, hkp.known⟩ hok

lemma recvOutAggregateOne_returns (hmap : s.sendMap.lookup r.netKey = some o) :
    (recvOutAggregateOne t r o).Returns s fun _ s' => Sound [] s' ∧
    Settles r.netKey r.replicaId s' := by
  have hkp := h.kept hmap not_mem_nil
  rw [recvOutAggregateOne, returns_bind, returns_act, returns_bind, returns_act]
  split_ifs with hok
  · rw [returns_bind, returns_act, returns_bind, returns_act]
    have hmer : Sound [] (aggregateOut o s r).2 := h.quiet quiet_aggregateOut subtasks_aggregateOut
    obtain ⟨hs, replicas, p, hlk, hp, hacc⟩ | ⟨progress, hs, hoth, hsf⟩ :=
      markReplicaAccounted_cases t r.netKey r.replicaId (aggregateOut o s r).2
    · rw [subtasksSize, hs, if_neg (by simp), returns_pure]
      exact ⟨hmer, hmer.settles hlk hp hacc⟩
    · obtain ⟨hsnd, hkp'⟩ := hmer.marked hoth fun replicas hr => (hsf replicas hr).2
      rw [subtasksSize, hs]
      exact countMarked_returns hsnd hmap (hkp' o hmap)
  · refine returns_pure.mpr ⟨h, fun o' ho' hlt => ?_⟩
    cases hmap.symm.trans ho'
    exact absurd ⟨hlt.trans_eq hkp.subtasks.symm, hkp.known⟩ hok

lemma recvOutAggregate_returns :
    (recvOutAggregate t [r]).Returns s fun _ s' => Sound [] s' ∧
    Settles r.netKey r.replicaId s' := by
  rw [recvOutAggregate, returns_bind, returns_act, findOrigin]
  cases hlk : s.sendMap.lookup r.netKey with
  | none => exact returns_pure.mpr ⟨h, fun o ho => by cases hlk.symm.trans ho⟩
  | some o =>
    have htak := h.quiet (quiet_take (t := t) (o := o)) fun _ => rfl
    refine returns_bind.mpr ((recvOutAggregateOne_returns r htak hlk).mono fun _ s' hs' => ?_)
    refine returns_bind.mpr ((dropOrigin_returns hs').mono fun _ s' hs' => ?_)
    exact returns_pure.mpr hs'

/-- `RecvOut` of one response -/
lemma recvOut_returns :
    (recvOut t [r]).Returns s fun _ s' => Sound [] s' ∧ Settles r.netKey r.replicaId s' := by
  rw [recvOut, returns_bind]
  refine (recvOutDeserialize_returns r h).mono ?_
  rintro b s' ⟨rfl, hfal⟩
  split_ifs with hb
  · exact recvOutAggregate_returns r h
  · exact returns_pure.mpr ⟨h, hfal (Bool.not_eq_true _ ▸ hb)⟩

end

/-! ### Discarding -/

/-- The origins found full, and no others, have stopped to wait. -/
lemma flushRetries_returns (entries : List RetryEntry) (h : Sound keys s) :
    (flushRetries t entries).Returns s fun found s' => Sound (found.map Prod.fst ++ keys) s' ∧
      s'.sendMap = s.sendMap ∧ ∀ e ∈ found, s.sendMap.lookup e.1 = some e.2 := by
  induction entries generalizing keys s with
  | nil => exact returns_pure.mpr ⟨h, rfl, by simp⟩
  | cons e entries ih =>
    rw [flushRetries, returns_bind, returns_act, findOrigin]
    cases hlk : s.sendMap.lookup e.netKey with
    | none => exact ih h
    | some o =>
      rw [returns_bind, returns_act, returns_bind, returns_act]
      have htak := h.quiet (quiet_take (t := t) (o := o)) fun _ => rfl
      have hadd : Sound (e.netKey :: keys) (fetchAdd t o e.replicaId (take t o s) .discarded).2 :=
        htak.fetchAdd hlk
      have hsub : ((fetchAdd t o e.replicaId (take t o s) .discarded).2.origins o).subtasks =
          (s.origins o).subtasks := apply_origins_update subtasks origins_fetchAdd rfl o
      rw [subtasksSize]
      rw [show ((fetchAdd t o e.replicaId { s with held := (t, o) :: s.held } .discarded).2.origins
        o).subtasks = _ from hsub]
      split_ifs with hfu
      · rw [returns_bind]
        refine (ih hadd).mono ?_
        rintro found s' ⟨hsnd, hmap, hfd⟩
        refine returns_pure.mpr ⟨hsnd.mono fun a ha => ?_, hmap, ?_⟩
        · simp only [mem_append, mem_cons, map_cons] at ha ⊢
          tauto
        · exact forall_mem_cons.mpr ⟨hlk, hfd⟩
      · rw [returns_bind, returns_act]
        refine (ih (.quiet ?_ quiet_dropOrigin fun _ => rfl)).mono fun _ s' h => h
        refine ⟨hadd.located, fun {a o'} ha hks => ?_⟩
        obtain rfl | hne := eq_or_ne a e.netKey
        · cases ha.symm.trans hlk
          have hkp := htak.kept hlk hks
          refine (hkp.mono (nil_subset _)).fetchAdd (hkp.toWaits.fetchAdd fun hls => hfu ?_)
          exact hls.trans hkp.subtasks.symm
        · exact hadd.kept ha (by simp [hne, hks])

lemma completeFlushed_returns (found : List (Address × OriginId))
    (h : Sound (found.map Prod.fst ++ keys) s)
    (hfd : ∀ e ∈ found, ∀ o, s.sendMap.lookup e.1 = some o → o = e.2) :
    (completeFlushed t found).Returns s fun _ s' => Sound keys s' := by
  induction found generalizing s with
  | nil => exact returns_pure.mpr h
  | cons e found ih =>
    obtain ⟨he, hrs⟩ := forall_mem_cons.mp hfd
    rw [completeFlushed, returns_bind]
    refine (completeOriginTask_returns h he).mono ?_
    rintro - s' ⟨hsnd, -, hmap, -⟩
    exact ih (hsnd.quiet quiet_dropOrigin fun _ => rfl) fun e he o ho => hrs e he o (hmap ho)

lemma flushStaleStateForNode_returns (n : NodeId) (h : Sound [] s) :
    (flushStaleStateForNode t n).Returns s fun _ s' => Sound [] s' := by
  rw [flushStaleStateForNode, returns_bind, returns_act, returns_bind]
  have htak : Sound [] (takeRetries s n).2 :=
    h.quiet (.of_origins rfl rfl rfl rfl rfl rfl rfl) fun _ => rfl
  refine (flushRetries_returns _ htak).mono ?_
  rintro found s' ⟨hsnd, hmap, hfd⟩
  refine completeFlushed_returns found hsnd fun e he o ho => ?_
  rw [hmap] at ho
  exact some.inj (ho.symm.trans (hfd e he))

/-! ### Sending -/

/-- The query resolves to a node of the host table. -/
def Resolves (s : Run2Run) (p : PoolId) (query : PoolQuery) : Bool :=
  (sendInResolveTargetNode s.node p query).any fun n => (s.node.hosts.getHost n).isSome

lemma Resolves.grows {s' : Run2Run} {p : PoolId} {query : PoolQuery} (h : Resolves s p query = true)
    (hG : Grows s s') : Resolves s' p query = true := by
  have htg : sendInResolveTargetNode s'.node p query = sendInResolveTargetNode s.node p query := by
    rw [sendInResolveTargetNode, sendInResolveTargetNode, hG.pools, hG.nodeId]
  rw [Resolves, Option.any_eq_true] at h ⊢
  obtain ⟨n, hn, hhost⟩ := h
  exact ⟨n, htg.trans hn, hG.hosts hhost⟩

/-- The loop of `SendIn` has come to the queries to come: the origin waits, and its replicas without
a target were counted; or all were counted and it has left the map. -/
structure Begun (key : Address) (o : OriginId) (targets : List (Option NodeId))
    (queries : List PoolQuery) (s : Run2Run) : Prop where
  sound : Sound [key] s
  created : o < s.created
  address : (s.origins o).address = key
  length : targets.length + queries.length = (s.origins o).size
  resolves : ∀ query ∈ queries, Resolves s (s.origins o).task.poolId query = true
  state : (s.sendMap.lookup key = some o ∧ Waits o s ∧
      (s.origins o).completedReplicas ≤ targets.length ∧
      ∀ r : ℕ, targets[r]? = some none → r ∈ (s.origins o).replicas) ∨
    (queries = [] ∧ s.sendMap.lookup key = none)

section Begun

variable {targets : List (Option NodeId)} {query : PoolQuery} {queries : List PoolQuery} {now : ℕ}
  {s' : Run2Run}

lemma Begun.quiet (h : Begun key o targets queries s) (hq : Quiet s s')
    (hsub : ∀ o, (s'.origins o).subtasks = (s.origins o).subtasks) :
    Begun key o targets queries s' := by
  have hbr := hq.bare o
  refine ⟨h.sound.quiet hq hsub, hq.created ▸ h.created,
    (field_of_bare Origin.address hbr).trans h.address,
    h.length.trans (field_of_bare size hbr).symm, fun query hque => ?_, ?_⟩
  · rw [field_of_bare task hbr]
    exact Resolves.grows (h.resolves query hque) hq.grows
  · rw [hq.sendMap, field_of_bare completedReplicas hbr, field_of_bare replicas hbr]
    exact h.state.imp_left fun h => ⟨h.1, h.2.1.congr hq.pools (hq.waiting (hsub o)), h.2.2⟩

/-- The replica was sent or parked. -/
lemma Begun.next (h : Begun key o targets (query :: queries) s) (n : NodeId) :
    Begun key o (targets ++ [some n]) queries s := by
  refine ⟨h.sound, h.created, h.address, ?_, fun q hq => h.resolves q (mem_cons_of_mem _ hq), ?_⟩
  · rw [← h.length, length_append, length_singleton, length_cons]
    omega
  · obtain ⟨hmap, hw, hle, hcnt⟩ | ⟨hnil, -⟩ := h.state
    · refine .inl ⟨hmap, hw, hle.trans (by simp), fun r hr => hcnt r ?_⟩
      obtain hlt | hge := lt_or_ge r targets.length
      · rwa [getElem?_append_left hlt] at hr
      · rw [getElem?_append_right hge, getElem?_singleton] at hr
        split_ifs at hr
        cases some.inj hr
    · simp at hnil

/-- The replica was skipped. -/
lemma Begun.skip (h : Begun key o targets (query :: queries) s) :
    (countReplica t key o targets.length .skipped).Returns s
      fun _ => Begun key o (targets ++ [none]) queries := by
  obtain ⟨hmap, hw, hle, hcnt⟩ | ⟨hnil, -⟩ := h.state
  swap
  · simp at hnil
  have hlen : (targets ++ [none]).length + queries.length = (s.origins o).size := by
    rw [← h.length, length_append, length_singleton, length_cons]
    omega
  refine (countReplica_returns h.sound hmap hw).mono ?_
  rintro - s' (⟨hno, hsnd, hgr, hls⟩ | ⟨rfl, hw'⟩)
  · have hsz : (s'.origins o).size = (s.origins o).size := by
      rw [size, hgr.task h.created, size]
    have hnil : queries = [] := by
      rw [length_append, length_singleton] at hlen
      exact eq_nil_of_length_eq_zero (by omega)
    refine ⟨hsnd.mono (by simp), h.created.trans_le hgr.created,
      (hgr.address h.created).trans h.address, hlen.trans hsz.symm, ?_, .inr ⟨hnil, hno⟩⟩
    rw [hnil]
    simp
  · have hgr : Grows s (fetchAdd t o targets.length s .skipped).2 := guar_fetchAdd.grows
    have hsz : ((fetchAdd t o targets.length s .skipped).2.origins o).size = (s.origins o).size :=
      apply_origins_update size origins_fetchAdd rfl o
    refine ⟨(h.sound.fetchAdd hmap).mono (by simp), h.created,
      (hgr.address h.created).trans h.address, hlen.trans hsz.symm, ?_,
      .inl ⟨hmap, hw', ?_, fun r hr => ?_⟩⟩
    · intro q hq
      rw [hgr.task h.created]
      exact Resolves.grows (h.resolves q (mem_cons_of_mem _ hq)) hgr
    · rw [completedReplicas_fetchAdd, if_pos rfl, length_append]
      exact Nat.succ_le_succ hle
    · rw [replicas_fetchAdd, mem_append, mem_singleton]
      obtain hlt | hge := lt_or_ge r targets.length
      · rw [getElem?_append_left hlt] at hr
        exact .inl (hcnt r hr)
      · rw [getElem?_append_right hge, getElem?_singleton] at hr
        split_ifs at hr with hr0
        exact .inr (by omega)

lemma sendInReplica_returns (transmit : Transmit) (h : Begun key o targets (query :: queries) s) :
    (sendInReplica t key o targets.length query transmit now).Returns s
      fun target => Begun key o (targets ++ [target]) queries := by
  rw [sendInReplica, returns_bind, returns_act]
  have hpush : ∀ {s n}, Begun key o targets (query :: queries) s →
      Begun key o targets (query :: queries) (pushRetry key o targets.length now s query n).2 :=
    fun h => h.quiet (.of_origins rfl rfl rfl rfl rfl rfl rfl) fun _ => rfl
  have hdd : ∀ {s n}, Begun key o targets (query :: queries) s →
      Begun key o targets (query :: queries) (s.modifyHosts (·.setDead n now)) :=
    fun h => h.quiet quiet_setDead fun _ => rfl
  cases hd : s.dispatch o query with
  | unresolved =>
    obtain ⟨n, hn, hhost⟩ := (any_eq_true _ _).mp (h.resolves query mem_cons_self)
    rw [dispatch, hn] at hd
    dsimp only at hd
    rw [if_neg (by rw [isNone_iff_eq_none, ← ne_eq, ← isSome_iff_ne_none]; exact hhost)] at hd
    split_ifs at hd
  | skip => exact returns_bind.mpr (h.skip.mono fun _ s' h => returns_pure.mpr h)
  | park n =>
    exact returns_bind.mpr (returns_act.mpr (returns_pure.mpr ((hpush h).next n)))
  | transmit n =>
    refine returns_bind.mpr ?_
    cases transmit with
    | delivered => exact returns_pure.mpr (returns_pure.mpr (h.next n))
    | refused => exact returns_act.mpr (returns_pure.mpr ((hpush h).next n))
    | unreachable =>
      exact returns_bind.mpr
        (returns_act.mpr (returns_act.mpr (returns_pure.mpr ((hpush (hdd h)).next n))))

lemma sendInLoop_returns (transmits : ReplicaId → Transmit) (h : Begun key o targets queries s) :
    (sendInLoop t key o transmits now targets.length queries).Returns s
      fun rest => Begun key o (targets ++ rest) [] := by
  induction queries generalizing targets s with
  | nil => exact returns_pure.mpr (by rwa [append_nil])
  | cons query queries ih =>
    rw [sendInLoop, returns_bind]
    refine (sendInReplica_returns _ h).mono fun target s h => returns_bind.mpr ?_
    have hlp := ih h
    rw [length_append] at hlp
    refine hlp.mono fun rest s h => returns_pure.mpr ?_
    rwa [append_assoc] at h

/-- `RegisterOriginProgress` ends `SendIn`: the replicas without a target were counted. -/
lemma Begun.register (h : Begun key o targets [] s) :
    Sound [] (registerOriginProgress key o s targets).2 := by
  have hfl : ∀ {β : Type} (g : Origin → β), g { s.origins o with registered := true } =
      g (s.origins o) → ∀ o', g ((registerOriginProgress key o s targets).2.origins o') =
        g (s.origins o') := fun g => apply_origins_update g origins_registerOriginProgress
  refine ⟨fun ha => ?_, fun {a o'} ha _ => ?_⟩
  · rw [hfl Origin.address rfl]
    exact h.sound.located ha
  · obtain rfl | hne := eq_or_ne a key
    · obtain ⟨hmap, hw, -, hcnt⟩ | ⟨-, hno⟩ := h.state
      swap
      · cases hno.symm.trans ha
      cases hmap.symm.trans ha
      refine ⟨hw.congr rfl (hfl Origin.waiting rfl _), _, lookup_insert _, ?_, fun r p hr => ?_⟩
      · rw [hfl size rfl, length_map, ← h.length, length_nil, add_zero]
      · rw [hfl replicas rfl]
        rw [getElem?_map] at hr
        obtain ⟨target, htg, rfl⟩ := map_eq_some_iff.mp hr
        refine ⟨fun hacc => .inl (hcnt r ?_), fun hno => hcnt r ?_⟩
        · rw [htg, isNone_iff_eq_none.mp hacc]
        · rw [htg, show target = none from hno]
    · have ho' : o' ≠ o := fun he => hne ((h.sound.located ha).1.symm.trans (he ▸ h.address))
      exact (h.sound.kept ha fun hmem => hne (mem_singleton.mp hmem)).congr rfl
        (lookup_insert_ne hne) (hfl Origin.waiting rfl _)

/-- The task has entered the map, with as many subtasks as queries. -/
lemma Begun.enter {task : Task} (h : Sound [] s)
    (hstc : ¬ (s.node.pools.getStaticContainer task.poolId).isNone) (hqs : task.poolQueries ≠ [])
    (hres : ∀ query ∈ task.poolQueries, Resolves s task.poolId query = true) :
    Begun key s.created [] task.poolQueries
    (resizeSubtasks s.created (enter t key s task).2).2 := by
  have hsf : (resizeSubtasks s.created (Run2Run.enter t key s task).2).2.origins s.created =
      { task := task, address := key, sender := t, subtasks := task.poolQueries.length } := by
    rw [resizeSubtasks, modifyOrigin, origins_enter hstc]
    dsimp only
    rw [update_self, update_self]
  have hoth : ∀ {o}, o ≠ s.created →
      (resizeSubtasks s.created (Run2Run.enter t key s task).2).2.origins o = s.origins o := by
    intro o ho
    rw [resizeSubtasks, modifyOrigin, origins_enter hstc]
    dsimp only
    rw [update_of_ne ho, update_of_ne ho]
  have hgr : Grows s (resizeSubtasks s.created (Run2Run.enter t key s task).2).2 :=
    grows_enter.trans quiet_resizeSubtasks.grows
  have hcr : s.created < (resizeSubtasks s.created (Run2Run.enter t key s task).2).2.created := by
    rw [Run2Run.enter, if_neg hstc]
    exact Nat.lt_succ_self _
  have hmap : (resizeSubtasks s.created (Run2Run.enter t key s task).2).2.sendMap =
      s.sendMap.insert key s.created := by
    rw [Run2Run.enter, if_neg hstc]
    rfl
  have hprg : (resizeSubtasks s.created (Run2Run.enter t key s task).2).2.progressMap =
      s.progressMap := by
    rw [Run2Run.enter, if_neg hstc]
    rfl
  refine ⟨h.congr hgr.pools (fun {a o} ha => ?_) fun {a o} ha hks => ?_, hcr, ?_, ?_, ?_,
    .inl ⟨?_, ⟨?_, ?_, ?_, ?_⟩, ?_, by simp⟩⟩
  · rw [hmap] at ha
    obtain ⟨rfl, rfl⟩ | ⟨-, ha⟩ := lookup_insert_eq_some.mp ha
    · rw [hsf]
      exact ⟨rfl, hcr⟩
    · obtain ⟨hadr, hlt⟩ := h.located ha
      rw [hoth hlt.ne]
      exact ⟨hadr, hlt.trans hcr⟩
  · have hne : a ≠ key := fun he => hks (mem_singleton.mpr he)
    rw [hmap, lookup_insert_ne hne] at ha
    rw [hprg, hoth (h.located ha).2.ne]
    exact ⟨ha, not_mem_nil, rfl, rfl⟩
  · rw [hsf]
  · rw [hsf, length_nil, zero_add]
    rfl
  · rw [hsf]
    exact fun query hque => Resolves.grows (hres query hque) hgr
  · rw [hmap, lookup_insert]
  · rw [hsf]
    rfl
  · rw [hsf]
    rfl
  · rw [hsf]
    exact length_pos_of_ne_nil hqs
  · rw [hsf, hgr.pools, isSome_iff_ne_none]
    rwa [isNone_iff_eq_none] at hstc
  · rw [hsf]
    exact Nat.zero_le _

/-- `SendIn`, if every query of the task resolves to a host -/
lemma sendInOrigin_returns (task : Task) (transmits : ReplicaId → Transmit) (h : Sound [] s)
    (hqs : task.poolQueries ≠ [])
    (hres : ∀ query ∈ task.poolQueries, Resolves s task.poolId query = true) :
    (sendInOrigin t task key transmits now).Returns s fun _ s' => Sound [] s' := by
  rw [sendInOrigin, returns_bind, returns_await]
  intro _
  by_cases hstc : (s.node.pools.getStaticContainer task.poolId).isNone
  · rw [enter, if_pos hstc]
    exact returns_pure.mpr h
  have hbeg : Begun key s.created [] task.poolQueries
      (resizeSubtasks s.created (enter t key s task).2).2 := .enter h hstc hqs hres
  rw [enter, if_neg hstc] at hbeg ⊢
  refine returns_bind.mpr (returns_act.mpr (returns_bind.mpr ?_))
  refine (sendInLoop_returns transmits hbeg).mono fun targets s' h => ?_
  refine returns_bind.mpr (returns_act.mpr (returns_act.mpr ?_))
  exact h.register.quiet quiet_dropOrigin fun _ => rfl

end Begun

end Alone

/-! ## Runs -/

/-- A node between two calls, with the replicas for which a response or a verdict has arrived -/
structure Ledger where
  ipc : Run2Run
  settled : List (OriginId × ReplicaId)

/-- The replicas for which the call brings a response, or the verdict that they are gone -/
def Call.verdicts (s : Run2Run) : Call → List (Address × ReplicaId)
  | .recvOut responses => responses.map fun r => (r.netKey, r.replicaId)
  | .taskProgress key rid true => [(key, rid)]
  | .retryQueues now delivers => (s.retryQueue now delivers).1
  | .scanTimeouts now => (s.lostReplicas now).1
  | _ => []

/-- Those of them that are replicas of an origin in `send_map_` -/
def Call.settles (s : Run2Run) (c : Call) : List (OriginId × ReplicaId) :=
  (c.verdicts s).filterMap fun e => (s.sendMap.lookup e.1).map fun o => (o, e.2)

variable {c : Call} (l : Ledger)

/-- One call -/
def Ledger.step (c : Call) : Option Ledger :=
  (c.exec l.ipc).map fun s => ⟨s, l.settled ++ c.settles l.ipc⟩

/-- The replica was counted as answered, gone, skipped or discarded, a response or a verdict arrived
for it, or it was never dispatched. -/
def Ledger.Settled (a : Address) (o : OriginId) (rid : ReplicaId) : Prop :=
  (∃ fate, (rid, fate) ∈ (l.ipc.origins o).counted) ∨ (o, rid) ∈ l.settled ∨
    ∃ replicas p, l.ipc.progressMap.lookup a = some replicas ∧ replicas[rid]? = some p ∧
    p.target = none

/-- An origin is in `send_map_` although all its replicas are settled. -/
def Ledger.Stranded : Prop :=
  ∃ a o, l.ipc.sendMap.lookup a = some o ∧
    ∀ rid < (l.ipc.origins o).task.poolQueries.length, l.Settled a o rid

/-- The queries of a task resolve to hosts, and a message brings one response. -/
def Call.dispatchable : Call → Bool
  | .sendIn task _ _ _ => decide (task.poolQueries ≠ [] ∧
      ∀ query ∈ task.poolQueries, Resolves l.ipc task.poolId query = true)
  | .recvOut responses => responses.length = 1
  | _ => true

/-- What no call takes back -/
lemma Call.exec_grows {s s' : Run2Run} (hO : Owned s) (h : c.exec s = some s') :
    Owned s' ∧ Grows s s' := by
  obtain ⟨r, hr, rfl⟩ := map_eq_some_iff.mp h
  have hhd : Holds 0 [] s := ⟨fun _ => Nat.zero_le _, by simp⟩
  have hsafe := (ownership.program_safe c ⟨hO, trivial⟩ hhd).carry (Grows.refl s)
    (fun _ _ h hR _ => h.trans hR.1.toGrows) fun _ _ h hG => h.trans hG.1.grows
  obtain ⟨⟨hO', -⟩, -, hgr⟩ := hsafe.of_run (fun s => ⟨.refl 0 s, trivial⟩) (fun _ _ => trivial)
    ⟨hO, trivial⟩ hr
  exact ⟨hO', hgr⟩

/-- The replica was counted if its origin is in the map. -/
def Counted (o : OriginId) (rid : ReplicaId) (s : Run2Run) : Prop :=
  o < s.created ∧ ∀ a, s.sendMap.lookup a = some o → rid < (s.origins o).size →
    rid ∈ (s.origins o).replicas

section Counted

variable {s s' : Run2Run} {key : Address} {o : OriginId} {rid : ReplicaId}

lemma Counted.grows (h : Counted o rid s) (hgr : Grows s s') : Counted o rid s' := by
  refine ⟨h.1.trans_le hgr.created, fun a ha hsz => ?_⟩
  rw [size, hgr.task h.1] at hsz
  exact map_subset Prod.fst (hgr.counted h.1).subset (h.2 a (hgr.mapped h.1 ha) hsz)

/-- An origin stays at its address. -/
lemma Sound.counted (h : Sound [] s) (hgr : Grows s s') (ho : s.sendMap.lookup key = some o)
    (hcnt : s'.sendMap.lookup key = some o → rid < (s'.origins o).size →
      rid ∈ (s'.origins o).replicas) :
    Counted o rid s' := by
  obtain ⟨hadr, hlt⟩ := h.located ho
  refine ⟨hlt.trans_le hgr.created, fun a ha => hcnt ?_⟩
  have hkey : a = key := (h.located (hgr.mapped hlt ha)).1.symm.trans hadr
  rwa [hkey] at ha

lemma handleGone_returns (gone : List (Address × ReplicaId)) (hO : Owned s) (h : Sound [] s) :
    (handleGone 0 gone).Returns s fun _ s' => Sound [] s' ∧ Grows s s' ∧
      ∀ e ∈ gone, ∀ o, s.sendMap.lookup e.1 = some o → Counted o e.2 s' := by
  induction gone generalizing s with
  | nil => exact returns_pure.mpr ⟨h, .refl s, by simp⟩
  | cons r gone ih =>
    rw [handleGone, returns_bind]
    intro p hp
    obtain ⟨hsnd, hset⟩ := handleTaskProgressResult_returns h p hp
    obtain ⟨hO', hgr⟩ := Call.exec_grows (c := .taskProgress r.1 r.2 true) hO
      (map_eq_some_iff.mpr ⟨p, hp, rfl⟩)
    refine (ih hO' hsnd).mono ?_
    rintro - s' ⟨hsnd', hgr', hcnt⟩
    refine ⟨hsnd', hgr.trans hgr', fun e he o ho => ?_⟩
    obtain rfl | he := mem_cons.mp he
    · exact (h.counted hgr ho (hset o)).grows hgr'
    · -- the first verdict may have completed the origin
      by_cases hmap : p.2.sendMap.lookup e.1 = some o
      · exact hcnt e he o hmap
      · exact (h.counted hgr ho fun hmap' => absurd hmap' hmap).grows hgr'

end Counted

/-- A call keeps the origins waiting, and counts the replicas it settles. -/
lemma Call.exec_sound {l : Ledger} {s' : Run2Run} (hO : Owned l.ipc) (hsnd : Sound [] l.ipc)
    (hok : c.dispatchable l) (h : c.exec l.ipc = some s') (hgr : Grows l.ipc s') :
    Sound [] s' ∧ ∀ e ∈ c.verdicts l.ipc, ∀ o, l.ipc.sendMap.lookup e.1 = some o →
    Counted o e.2 s' := by
  obtain ⟨r, hr, rfl⟩ := map_eq_some_iff.mp h
  have hno : ∀ e ∈ ([] : List (Address × ReplicaId)), ∀ o, l.ipc.sendMap.lookup e.1 = some o →
      Counted o e.2 r.2 := by simp
  cases c with
  | sendIn task key transmits now =>
    obtain ⟨hne, hres⟩ := of_decide_eq_true hok
    exact ⟨sendInOrigin_returns task transmits hsnd hne hres r hr, hno⟩
  | recvOut responses =>
    obtain ⟨response, rfl⟩ := length_eq_one_iff.mp (of_decide_eq_true hok)
    obtain ⟨hs', hset⟩ := recvOut_returns response hsnd r hr
    refine ⟨hs', fun e he o ho => ?_⟩
    obtain rfl := mem_singleton.mp he
    exact hsnd.counted hgr ho (hset o)
  | taskProgress key rid gone =>
    cases gone with
    | false =>
      have hpure : (handleTaskProgressResult 0 key rid false).Returns l.ipc fun _ s' =>
          Sound [] s' :=
        returns_pure.mpr hsnd
      exact ⟨hpure r hr, hno⟩
    | true =>
      obtain ⟨hs', hset⟩ := handleTaskProgressResult_returns hsnd r hr
      refine ⟨hs', fun e he o ho => ?_⟩
      obtain rfl := mem_singleton.mp he
      exact hsnd.counted hgr ho (hset o)
  | retryQueues now delivers =>
    have hqueu : Quiet l.ipc (l.ipc.retryQueue now delivers).2 :=
      .of_origins rfl rfl rfl rfl rfl rfl rfl
    have hret := handleGone_returns (l.ipc.retryQueue now delivers).1 (hqueu.owned hO .inl)
      (hsnd.quiet hqueu fun _ => rfl)
    obtain ⟨hs', -, hcnt⟩ := returns_bind.mpr (returns_act.mpr hret) r hr
    exact ⟨hs', hcnt⟩
  | scanTimeouts now =>
    have hret := handleGone_returns (l.ipc.lostReplicas now).1 hO hsnd
    obtain ⟨hs', -, hcnt⟩ := returns_bind.mpr (returns_act.mpr hret) r hr
    exact ⟨hs', hcnt⟩
  | flush n => exact ⟨flushStaleStateForNode_returns n hsnd r hr, hno⟩
  | setDead n now =>
    cases hr
    exact ⟨hsnd.quiet quiet_setDead fun _ => rfl, hno⟩
  | setAlive n now =>
    cases hr
    exact ⟨hsnd.quiet quiet_setAlive fun _ => rfl, hno⟩

/-- Between two calls every origin in the map waits, and what is settled was counted. -/
structure Ledger.Ok (l : Ledger) : Prop where
  owned : Owned l.ipc
  sound : Sound [] l.ipc
  settled : ∀ e ∈ l.settled, Counted e.1 e.2 l.ipc

lemma Ledger.Ok.step {l l' : Ledger} (h : l.Ok) (hok : c.dispatchable l)
    (hstp : l.step c = some l') : l'.Ok := by
  obtain ⟨s', hs', rfl⟩ := map_eq_some_iff.mp hstp
  obtain ⟨hO, hgr⟩ := Call.exec_grows h.owned hs'
  obtain ⟨hsnd, hnew⟩ := Call.exec_sound h.owned h.sound hok hs' hgr
  refine ⟨hO, hsnd, fun e he => ?_⟩
  obtain he | he := mem_append.mp he
  · exact (h.settled e he).grows hgr
  · obtain ⟨v, hv, hmap⟩ := mem_filterMap.mp he
    obtain ⟨o, ho, rfl⟩ := map_eq_some_iff.mp hmap
    exact hnew v hv o ho

/-- An origin that waits has a replica that is not settled. -/
lemma Ledger.Ok.not_stranded {l : Ledger} (h : l.Ok) : ¬ l.Stranded := by
  rintro ⟨a, o, ha, hall⟩
  have hkp := h.sound.kept ha not_mem_nil
  have hsub : range (l.ipc.origins o).size ⊆ (l.ipc.origins o).replicas := by
    intro rid hrid
    have hlt := mem_range.mp hrid
    obtain ⟨fate, hmem⟩ | hmem | ⟨replicas, p, hlk, hp, htg⟩ := hall rid hlt
    · exact mem_map_of_mem hmem
    · exact (h.settled _ hmem).2 a ha hlt
    · obtain ⟨replicas', hlk', -, hcnt⟩ := hkp.progress
      cases hlk.symm.trans hlk'
      exact (hcnt rid p hp).2 htg
  have hle := (nodup_range.subperm hsub).length_le
  rw [length_range, ← hkp.counts] at hle
  exact absurd hkp.waits (not_lt.mpr hle)

/-- A node that has sent nothing yet -/
def Ledger.start (node : Node) : Ledger := ⟨Run2Run.start node, []⟩

/-- **No origin is stranded if every query resolves to a host.**  In every run of calls that follow
one another, in which the queries of each task that is sent resolve to nodes of the host table and
each message brings one response, no state is reached with an origin in `send_map_` all of whose
replicas are settled. -/
theorem not_stranded_of_dispatchable (node : Node) {calls : List Call} {l : Ledger}
    (hok : Meets Ledger.step (fun l c => c.dispatchable l) (Ledger.start node) calls)
    (h : runAll Ledger.step (Ledger.start node) calls = some l) : ¬ l.Stranded := by
  have hst : (Ledger.start node).Ok :=
    ⟨owned_start node, ⟨by simp [Ledger.start, Run2Run.start],
      by simp [Ledger.start, Run2Run.start]⟩, fun _ he => absurd he not_mem_nil⟩
  exact (runAll_invariant Ledger.Ok (fun _ _ _ _ hl hc hs => hl.step hc hs) hst hok h).not_stranded

/-- A task that does not wait for dead nodes is sent to node 1 and to node 2, which is dead. -/
def toDeadNode : List Call :=
  let queries : List PoolQuery := [.physical 1, .physical 2]
  [.setDead 2 0, .sendIn { poolId := ⟨2, 0⟩, poolQuery := .broadcast 0, poolQueries := queries } 7
    (fun _ => .delivered) 1]

theorem not_stranded_toDeadNode :
    ∃ l, runAll Ledger.step (Ledger.start (created 3 32 0)) toDeadNode = some l ∧
      l.ipc.sendMap.lookup 7 = some 0 ∧ (l.ipc.origins 0).counted = [(1, .skipped)] ∧
      ¬ l.Stranded := by
  have hok : Meets Ledger.step (fun l c => c.dispatchable l) (.start (created 3 32 0))
      toDeadNode := by
    decide +kernel
  obtain ⟨l, hl, hstt⟩ := map_eq_some_iff.mp (show
    (runAll Ledger.step (.start (created 3 32 0)) toDeadNode).map
      (fun l => (l.ipc.sendMap.lookup 7, (l.ipc.origins 0).counted)) =
        some (some 0, [(1, .skipped)]) by decide +kernel)
  obtain ⟨hmap, hcnt⟩ := Prod.mk.inj hstt
  exact ⟨l, hl, hmap, hcnt, not_stranded_of_dispatchable _ hok hl⟩

/-- A task is sent to node 1 and to node 9, which is not in the host table; node 1 answers. -/
def toMissingHost : List Call :=
  [.sendIn
    { poolId := ⟨2, 0⟩, poolQuery := .broadcast, poolQueries := [.physical 1, .physical 9] }
    7 (fun _ => .delivered) 0, .recvOut [⟨7, 0, 0, -1⟩]]

lemma toMissingHost_runs :
    (runAll Ledger.step (Ledger.start (created 3 32 0)) toMissingHost).map (fun l =>
      ((l.ipc.sendMap.lookup 7, (l.ipc.origins 0).task.poolQueries.length),
        (l.ipc.origins 0).counted, l.ipc.progressMap.lookup 7)) =
      some ((some 0, 2), [(0, .answered)], some [⟨some 1, true⟩, ⟨none, true⟩]) := by
  decide +kernel

/-- **A replica without a host strands its origin.**  One replica has answered and the other was
never dispatched; the origin is still in `send_map_`. -/
theorem stranded_toMissingHost :
    ∃ calls l, runAll Ledger.step (Ledger.start (created 3 32 0)) calls = some l ∧ l.Stranded := by
  obtain ⟨l, hl, hstt⟩ := map_eq_some_iff.mp toMissingHost_runs
  simp only [Prod.mk.injEq] at hstt
  obtain ⟨⟨hmap, hsz⟩, hcnt, hprg⟩ := hstt
  refine ⟨toMissingHost, l, hl, 7, 0, hmap, fun rid hrid => ?_⟩
  rw [hsz] at hrid
  interval_cases rid
  · exact .inl ⟨.answered, by rw [hcnt]; exact mem_cons_self⟩
  · exact .inr (.inr ⟨_, ⟨none, true⟩, hprg, rfl, rfl⟩)

end ClioCore.Runtime
