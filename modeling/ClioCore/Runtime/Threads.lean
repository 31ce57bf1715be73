import ClioCore.Runtime.Ownership

/-!
# Threads that send, receive and give up

Every program of `Run2Run` from its first section to its last, among other threads.  An `Argument`
is an invariant beyond ownership, with what it needs of each section that is not quiet;
`Argument.program_safe` carries it through the calls and `Argument.launch_safe` through the
interleavings.

* `Argument.Sending` — where a thread is in the loop of `SendIn`.
* `Argument.Ready` — the thread has accounted a replica and is about to count it.

Ownership alone is the argument `ownership`.
-/

namespace ClioCore.Runtime

open Foundations List Co

/-! ## Arguments -/

open Run2Run in
/-- What is claimed beyond ownership, and what every section does to it. -/
structure Argument where
  /-- Further invariant. -/
  J : Run2Run → Prop
  /-- Further rely of a thread. -/
  K : ThreadId → Run2Run → Run2Run → Prop
  /-- The steps under consideration. -/
  C : Run2Run → Run2Run → Prop
  /-- The thread is in the loop of `SendIn`, with the targets so far and the queries to come. -/
  Sending : ThreadId → Address → OriginId → List (Option NodeId) → List PoolQuery → Run2Run → Prop
  /-- The thread has accounted a replica of the origin and is to count it. -/
  Ready : ThreadId → Address → OriginId → ReplicaId → Run2Run → Prop
  refl : ∀ t s, K t s s
  trans : ∀ {t a b c}, Rely t a b → K t a b → K t b c → K t a c
  sending_rely : ∀ {t key o targets queries s s'}, Rely t s s' → K t s s' →
    Sending t key o targets queries s → Sending t key o targets queries s'
  ready_rely : ∀ {t key o rid s s'}, Rely t s s' → K t s s' → Ready t key o rid s →
    Ready t key o rid s'
  quiet : ∀ {s s'}, Quiet s s' → J s → J s'
  quiet_rely : ∀ {t s s'}, Quiet s s' → K t s s'
  entered : ∀ {t key task s}, Owned s → J s → isFree key s = true →
    ¬ (s.node.pools.getStaticContainer task.poolId).isNone → C s (enter t key s task).2 →
    J (enter t key s task).2 ∧ (∀ t' ≠ t, K t' s (enter t key s task).2) ∧
      Sending t key s.created [] task.poolQueries (enter t key s task).2
  next : ∀ {t key o targets query queries s} (target : Option NodeId),
    Sending t key o targets (query :: queries) s → Sending t key o (targets ++ [target]) queries s
  skipped : ∀ {t key o H targets query queries s}, Owned s → J s → Holds t ((key, o) :: H) s →
    Sending t key o targets (query :: queries) s → C s (fetchAdd t o targets.length s .skipped).2 →
    J (fetchAdd t o targets.length s .skipped).2 ∧
      (∀ t' ≠ t, K t' s (fetchAdd t o targets.length s .skipped).2) ∧
      Sending t key o (targets ++ [none]) queries (fetchAdd t o targets.length s .skipped).2
  registered : ∀ {t key o H targets s}, Owned s → J s → Holds t ((key, o) :: H) s →
    Sending t key o targets [] s → J (registerOriginProgress key o s targets).2 ∧
      ∀ t' ≠ t, K t' s (registerOriginProgress key o s targets).2
  marked : ∀ {t key rid s}, Owned s → J s → (markReplicaAccounted t key rid s).1 = true →
    C s (markReplicaAccounted t key rid s).2 → J (markReplicaAccounted t key rid s).2 ∧
      (∀ t' ≠ t, K t' s (markReplicaAccounted t key rid s).2) ∧
      ∀ o, (t, o) ∈ s.held → (s.origins o).address = key →
        Ready t key o rid (markReplicaAccounted t key rid s).2
  found : ∀ {t key o rid s}, Owned s → J s → (t, key, rid) ∈ s.marking →
    s.sendMap.lookup key = some o → Ready t key o rid s
  abandoned : ∀ t rid {key s}, J s → s.sendMap.lookup key = none →
    J { s with marking := s.marking.erase (t, key, rid) } ∧
      ∀ t' ≠ t, K t' s { s with marking := s.marking.erase (t, key, rid) }
  counted : ∀ {t key o H rid fate s}, Owned s → J s → Holds t ((key, o) :: H) s →
    Ready t key o rid s → fate = .answered ∨ fate = .gone → C s (fetchAdd t o rid s fate).2 →
    J (fetchAdd t o rid s fate).2 ∧ ∀ t' ≠ t, K t' s (fetchAdd t o rid s fate).2
  discarded : ∀ {t key o H rid s}, Owned s → J s → Holds t ((key, o) :: H) s →
    C s (fetchAdd t o rid s .discarded).2 → J (fetchAdd t o rid s .discarded).2 ∧
      ∀ t' ≠ t, K t' s (fetchAdd t o rid s .discarded).2
  claimed : ∀ {t key o H s}, Owned s → J s → Holds t ((key, o) :: H) s → Full o s →
    J (claimOrigin t key o s).2 ∧ ∀ t' ≠ t, K t' s (claimOrigin t key o s).2
  sending_claimed : ∀ {t key key' o o' targets queries s}, Sending t key' o' targets queries s →
    Sending t key' o' targets queries (claimOrigin t key o s).2
  ended : ∀ {t o s}, J s → (t, o) ∈ s.ending → J (endTask t o s).2 ∧
    ∀ t' ≠ t, K t' s (endTask t o s).2
  sending_ended : ∀ {t key' o o' targets queries s}, Sending t key' o' targets queries s →
    Sending t key' o' targets queries (endTask t o s).2

namespace Argument

open Run2Run

variable (A : Argument) (t : ThreadId) {α : Type}

/-- The program keeps both invariants and returns with `Q`. -/
def Safe (Q : α → Run2Run → Prop) (c : Co Run2Run α) (s : Run2Run) : Prop :=
  Co.Safe (fun s => Owned s ∧ A.J s) (fun s s' => Rely t s s' ∧ A.K t s s')
    (fun s s' => Guar t s s' ∧ ∀ t' ≠ t, A.K t' s s') A.C Q c s

/-- A fact that the other threads leave. -/
def Steady (X : Run2Run → Prop) : Prop := ∀ {s s'}, Rely t s s' → A.K t s s' → X s → X s'

/-- A fact that completing an origin leaves too. -/
structure Firm (X : Run2Run → Prop) : Prop where
  steady : A.Steady t X
  claimed : ∀ {key o s}, X s → X (claimOrigin t key o s).2
  ended : ∀ {o s}, X s → X (endTask t o s).2

variable {A t} {X : Run2Run → Prop} {H : List (Address × OriginId)} {key : Address} {o : OriginId}
  {rid : ReplicaId} {s : Run2Run}

lemma firm_true : A.Firm t fun _ => True :=
  ⟨fun _ _ _ => trivial, fun _ => trivial, fun _ => trivial⟩

lemma steady_holds (hX : A.Steady t X) : A.Steady t fun s => Holds t H s ∧ X s :=
  fun hR hK h => ⟨h.1.rely hR, hX hR hK h.2⟩

variable (responses : List Response) {f : Run2Run → α × Run2Run}

/-- The rule for one section. -/
lemma act_safe {Q : α → Run2Run → Prop} (hX : A.Steady t X) (h : X s)
    (hf : ∀ s, Owned s → A.J s → X s → A.C s (f s).2 → Owned (f s).2 ∧ A.J (f s).2 ∧
      Guar t s (f s).2 ∧ (∀ t' ≠ t, A.K t' s (f s).2) ∧ Q (f s).1 (f s).2) :
    A.Safe t Q (act f) s := by
  refine .act (fun s s' hx hR _ => hX hR.1 hR.2 hx) h fun s hI hx hC => ?_
  obtain ⟨hO, hJ, hG, hK, hQ⟩ := hf s hI.1 hI.2 hx hC
  exact ⟨⟨hO, hJ⟩, ⟨hG, hK⟩, hQ⟩

/-- The rule for a quiet section. -/
lemma quiet_safe {Y : α → Run2Run → Prop}
    (hq : ∀ s, Quiet s (f s).2 ∧ (f s).2.held = s.held) (hX : A.Steady t X) (h : X s)
    (hY : ∀ s, Owned s → X s → Y (f s).1 (f s).2) :
    A.Safe t (fun a s => X s ∧ Y a s) (act f) s := by
  refine act_safe hX h fun s hO hJ hx _ => ?_
  obtain ⟨hq, hhl⟩ := hq s
  have hrely : ∀ t', Rely t' s (f s).2 := fun t' => hq.rely fun _ => by rw [hhl]
  exact ⟨hq.owned hO fun h => Or.inl (hhl ▸ h), A.quiet hq hJ, fun t' _ => hrely t',
    fun _ _ => A.quiet_rely hq, hX (hrely t) (A.quiet_rely hq) hx, hY s hO hx⟩

/-- The rule for a quiet section whose result does not matter. -/
lemma skip_safe (hq : ∀ s, Quiet s (f s).2 ∧ (f s).2.held = s.held)
    (hX : A.Steady t X) (h : X s) : A.Safe t (fun _ s => X s) (act f) s :=
  (quiet_safe (Y := fun _ _ => True) hq hX h fun _ _ _ => trivial).weaken fun _ _ h => h.1

/-! ### Taking origins and letting them go -/

/-- What a thread owns after it has looked for an origin. -/
def Found (t : ThreadId) (key : Address) (H : List (Address × OriginId)) :
    Option OriginId → Run2Run → Prop
  | none => Holds t H
  | some o => Holds t ((key, o) :: H)

lemma findOrigin_safe (key : Address) (h : Holds t H s) :
    A.Safe t (Found t key H) (act (findOrigin t key)) s := by
  refine act_safe (fun hR _ h => h.rely hR) h fun s hO hJ hH _ => ?_
  rw [findOrigin]
  cases hlk : s.sendMap.lookup key with
  | none => exact ⟨hO, hJ, fun t' _ => Rely.refl t' s, fun t' _ => A.refl t' s, hH⟩
  | some o =>
    obtain ⟨hadr, hlt, -⟩ := hO.mapped hlk
    exact ⟨hO.take hlk, A.quiet quiet_take hJ, guar_take, fun _ _ => A.quiet_rely quiet_take,
      hH.take hlt hadr⟩

lemma dropOrigin_safe (h : Holds t ((key, o) :: H) s) :
    A.Safe t (fun _ => Holds t H) (act (dropOrigin t o)) s := by
  refine act_safe (fun hR _ h => h.rely hR) h fun s hO hJ hH _ => ?_
  exact ⟨hO.dropOrigin, A.quiet quiet_dropOrigin hJ, guar_dropOrigin,
    fun _ _ => A.quiet_rely quiet_dropOrigin, hH.dropOrigin⟩

/-! ### Counting and completing -/

lemma completeOriginTask_safe (hX : A.Firm t X) (hI : Owned s ∧ A.J s)
    (hH : Holds t ((key, o) :: H) s) (hfu : Full o s) (hx : X s) :
    A.Safe t (fun _ s => Holds t ((key, o) :: H) s ∧ X s) (completeOriginTask t key o) s := by
  -- the claim succeeds for one thread only, which then owes the call of `EndTask`
  have hcla : A.Safe t (fun b s => (Holds t ((key, o) :: H) s ∧ X s) ∧
      (b = true → (t, o) ∈ s.ending)) (act (claimOrigin t key o)) s := by
    have hsty : A.Steady t fun s => Full o s ∧ X s :=
      fun hR hK h => ⟨h.1.grows hR.toGrows, hX.steady hR hK h.2⟩
    refine act_safe (steady_holds hsty) ⟨hH, hfu, hx⟩ ?_
    rintro s hO hJ ⟨hH, hfu, hx⟩ -
    obtain ⟨hJ', hK⟩ := A.claimed hO hJ hH hfu
    refine ⟨hO.claimOrigin hH, hJ', guar_claimOrigin, hK, ⟨?_, hX.claimed hx⟩, ?_⟩ <;>
      rw [claimOrigin] <;> split
    · exact ⟨hH.count, hH.known⟩
    · exact ⟨hH.count, hH.known⟩
    · simp
    · exact fun _ => mem_cons_self
  refine .bind hcla hI ?_
  rintro b s hI ⟨hx, hend⟩
  split_ifs with hb
  · have hsty : A.Steady t fun s => (t, o) ∈ s.ending ∧ X s :=
      fun hR hK h => ⟨hR.ending h.1, hX.steady hR hK h.2⟩
    refine .bind (skip_safe (fun _ => ⟨quiet_clearSubtasks, rfl⟩) (steady_holds hsty)
      ⟨hx.1, hend hb, hx.2⟩) hI ?_
    rintro - s hI ⟨hH, hmem, hx⟩
    refine act_safe (steady_holds hsty) ⟨hH, hmem, hx⟩ ?_
    rintro s hO hJ ⟨hH, hmem, hx⟩ -
    obtain ⟨hJ', hK⟩ := A.ended hJ hmem
    refine ⟨hO.endTask_of_mem hmem, hJ', guar_endTask, hK, ⟨hH.count, fun e he => ?_⟩, hX.ended hx⟩
    rw [apply_origins_update Origin.address origins_endTask rfl]
    exact hH.known e he
  · exact .pure hx

/-- The origin is full if the count was found equal to the size of `Subtasks`. -/
lemma compare_safe {n : ℕ} (hX : A.Steady t X) (hH : Holds t ((key, o) :: H) s)
    (hx : X s) (hn : n ≠ 0) (hle : n ≤ (s.origins o).completedReplicas) :
    A.Safe t (fun m s => Holds t ((key, o) :: H) s ∧ X s ∧ (n = m → Full o s))
      (act (subtasksSize o)) s := by
  have hsty : A.Steady t fun s => (o < s.created ∧ n ≤ (s.origins o).completedReplicas) ∧ X s :=
    fun hR hK h => ⟨⟨h.1.1.trans_le hR.created, h.1.2.trans (hR.completed h.1.1)⟩, hX hR hK h.2⟩
  refine (quiet_safe (Y := fun m s => m = 0 ∨ m = (s.origins o).task.poolQueries.length)
    (fun s => ⟨Quiet.refl s, rfl⟩) (steady_holds hsty) ⟨hH, ⟨hH.lt_created, hle⟩, hx⟩
    fun _ hO _ => hO.sized o).weaken ?_
  rintro m s ⟨⟨hH, ⟨hlt, hle⟩, hx⟩, hm⟩
  refine ⟨hH, hx, fun hnm => ⟨hlt, ?_⟩⟩
  obtain rfl | hm := hm
  · exact absurd hnm hn
  · rwa [← hm, ← hnm]

section Counting

variable {P : Run2Run → Prop} {fate : Fate} (hP : A.Steady t P)
  (hfet : ∀ s, Owned s → A.J s → Holds t ((key, o) :: H) s → P s →
    A.C s (fetchAdd t o rid s fate).2 → A.J (fetchAdd t o rid s fate).2 ∧
      (∀ t' ≠ t, A.K t' s (fetchAdd t o rid s fate).2) ∧ X (fetchAdd t o rid s fate).2)
include hP hfet

lemma fetchAdd_safe (hH : Holds t ((key, o) :: H) s) (hp : P s) :
    A.Safe t (fun n s => Holds t ((key, o) :: H) s ∧ X s ∧ n ≠ 0 ∧
      n ≤ (s.origins o).completedReplicas) (act (fetchAdd t o rid · fate)) s := by
  refine act_safe (steady_holds hP) ⟨hH, hp⟩ ?_
  rintro s hO hJ ⟨hH, hp⟩ hC
  obtain ⟨hJ', hK, hx⟩ := hfet s hO hJ hH hp hC
  refine ⟨hO.fetchAdd, hJ', guar_fetchAdd, hK, ⟨hH.count, fun e he => ?_⟩, hx,
    Nat.succ_ne_zero _, ?_⟩
  · rw [apply_origins_update Origin.address origins_fetchAdd rfl]
    exact hH.known e he
  · rw [completedReplicas_fetchAdd, if_pos rfl]
    exact le_rfl

/-- Counting a replica, from what allows it to what remains of it. -/
lemma countReplica_safe (hX : A.Firm t X) (hI : Owned s ∧ A.J s)
    (hH : Holds t ((key, o) :: H) s) (hp : P s) :
    A.Safe t (fun _ s => Holds t ((key, o) :: H) s ∧ X s) (countReplica t key o rid fate) s := by
  refine .bind (fetchAdd_safe hP hfet hH hp) hI ?_
  rintro n s hI ⟨hH, hx, hn, hle⟩
  refine .bind (compare_safe hX.steady hH hx hn hle) hI ?_
  rintro m s hI ⟨hH, hx, hfu⟩
  split_ifs with hnm
  · exact completeOriginTask_safe hX hI hH (hfu hnm) hx
  · exact .pure ⟨hH, hx⟩

end Counting

/-! ### Sending -/

section Sending

variable {targets : List (Option NodeId)} {query : PoolQuery} {queries : List PoolQuery} {now : ℕ}

lemma sendInTransmitReplica_safe {target : NodeId} (hX : A.Steady t X)
    (hI : Owned s ∧ A.J s) (hx : X s) (transmit : Transmit) :
    A.Safe t (fun _ => X) (sendInTransmitReplica key o rid query target now transmit) s := by
  have hpush : ∀ s, X s → A.Safe t (fun _ => X) (act (pushRetry key o rid now · query target)) s :=
    fun s hx => skip_safe (fun _ => ⟨.of_origins rfl rfl rfl rfl rfl rfl rfl, rfl⟩) hX hx
  cases transmit with
  | delivered => exact .pure hx
  | refused => exact hpush s hx
  | unreachable =>
    exact .bind (skip_safe (fun _ => ⟨quiet_setDead, rfl⟩) hX hx) hI fun _ s _ hx => hpush s hx

lemma sendInReplica_safe (hI : Owned s ∧ A.J s) (hH : Holds t ((key, o) :: H) s)
    (hx : A.Sending t key o targets (query :: queries) s) (transmit : Transmit) :
    A.Safe t (fun target s => Holds t ((key, o) :: H) s ∧
        A.Sending t key o (targets ++ [target]) queries s)
      (sendInReplica t key o targets.length query transmit now) s := by
  have hsty : A.Steady t fun s => Holds t ((key, o) :: H) s ∧
      A.Sending t key o targets (query :: queries) s := steady_holds A.sending_rely
  refine .bind (skip_safe (fun s => ⟨Quiet.refl s, rfl⟩) hsty ⟨hH, hx⟩) hI ?_
  rintro d s hI ⟨hH, hx⟩
  cases d with
  | unresolved => exact .pure ⟨hH, A.next none hx⟩
  | skip =>
    refine .bind (countReplica_safe A.sending_rely ?_ ⟨A.sending_rely, A.sending_claimed,
      A.sending_ended⟩ hI hH hx) hI fun _ s _ h => .pure h
    exact fun s hO hJ hH hx hC => A.skipped hO hJ hH hx hC
  | park target =>
    refine .bind (skip_safe (fun _ => ⟨.of_origins rfl rfl rfl rfl rfl rfl rfl, rfl⟩) hsty
      ⟨hH, hx⟩) hI fun _ s _ h => .pure ⟨h.1, A.next (some target) h.2⟩
  | transmit target =>
    exact .bind (sendInTransmitReplica_safe hsty hI ⟨hH, hx⟩ transmit) hI
      fun _ s _ h => .pure ⟨h.1, A.next (some target) h.2⟩

lemma sendInLoop_safe (transmits : ReplicaId → Transmit) (hI : Owned s ∧ A.J s)
    (hH : Holds t ((key, o) :: H) s) (hx : A.Sending t key o targets queries s) :
    A.Safe t (fun rest s => Holds t ((key, o) :: H) s ∧ A.Sending t key o (targets ++ rest) [] s)
      (sendInLoop t key o transmits now targets.length queries) s := by
  induction queries generalizing targets s with
  | nil =>
    refine .pure ⟨hH, ?_⟩
    rwa [append_nil]
  | cons query queries ih =>
    refine .bind (sendInReplica_safe hI hH hx _) hI ?_
    rintro target s hI ⟨hH, hx⟩
    have hlp := ih hI hH hx
    rw [length_append] at hlp
    refine .bind hlp hI ?_
    rintro rest s - h
    refine .pure ?_
    rwa [append_assoc] at h

lemma sendInOrigin_safe (task : Task) (transmits : ReplicaId → Transmit) (hI : Owned s ∧ A.J s)
    (hH : Holds t H s) :
    A.Safe t (fun _ => Holds t H) (sendInOrigin t task key transmits now) s := by
  have hent : A.Safe t (fun r s => match r with
      | none => Holds t H s
      | some o => Holds t ((key, o) :: H) s ∧ A.Sending t key o [] task.poolQueries s)
      (await (isFree key) (enter t key · task)) s := by
    refine .await (fun _ _ h hR _ => h.rely hR.1) hH fun s hI hH hfe hC => ?_
    by_cases hstc : (s.node.pools.getStaticContainer task.poolId).isNone
    · rw [enter, if_pos hstc]
      exact ⟨hI, ⟨fun t' _ => Rely.refl t' s, fun t' _ => A.refl t' s⟩, hH⟩
    · obtain ⟨hJ, hK, hx⟩ := A.entered hI.1 hI.2 hfe hstc hC
      have hH' : Holds t ((key, s.created) :: H) (enter t key s task).2 := hH.enter hstc
      refine ⟨⟨hI.1.enter hfe hstc, hJ⟩, ⟨guar_enter, hK⟩, ?_⟩
      rw [enter, if_neg hstc] at hx hH' ⊢
      exact ⟨hH', hx⟩
  refine .bind hent hI ?_
  rintro (_ | o) s hI hx
  · exact .pure hx
  · refine .bind (skip_safe (fun _ => ⟨quiet_resizeSubtasks, rfl⟩)
      (steady_holds A.sending_rely) hx) hI ?_
    rintro - s hI ⟨hH, hx⟩
    refine .bind (sendInLoop_safe transmits hI hH hx) hI ?_
    rintro targets s hI ⟨hH, hx⟩
    have hreg : A.Safe t (fun _ => Holds t ((key, o) :: H))
        (act (registerOriginProgress key o · targets)) s := by
      refine act_safe (steady_holds A.sending_rely) ⟨hH, hx⟩ ?_
      rintro s hO hJ ⟨hH, hx⟩ -
      obtain ⟨hJ', hK⟩ := A.registered hO hJ hH hx
      refine ⟨hO.registerOriginProgress, hJ', fun t' _ => rely_registerOriginProgress t', hK, ?_⟩
      exact hH.rely (rely_registerOriginProgress t)
    exact .bind hreg hI fun _ s _ hH => dropOrigin_safe hH

end Sending

/-! ### Responses and verdicts -/

lemma steady_holds_alone : A.Steady t (Holds t H) := fun hR _ h => h.rely hR

/-- A section that reads. -/
lemma read_safe {f : Run2Run → α} (h : Holds t H s) :
    A.Safe t (fun _ => Holds t H) (act fun s => (f s, s)) s :=
  skip_safe (fun s => ⟨Quiet.refl s, rfl⟩) steady_holds_alone h

lemma recvOutDeserialize_safe (hI : Owned s ∧ A.J s) (hH : Holds t H s) :
    A.Safe t (fun _ => Holds t H) (recvOutDeserialize t responses) s := by
  induction responses generalizing s with
  | nil => exact .pure hH
  | cons r responses ih =>
    refine .bind (findOrigin_safe r.netKey hH) hI ?_
    rintro (_ | o) s hI hH
    · exact .pure hH
    · refine .bind (read_safe hH) hI fun size s hI hH => ?_
      refine .bind (read_safe hH) hI fun known s hI hH => ?_
      refine .bind (dropOrigin_safe hH) hI fun _ s hI hH => ?_
      split_ifs
      · exact ih hI hH
      · exact .pure hH

lemma markReplicaAccounted_safe (rid : ReplicaId) (hH : Holds t H s) :
    A.Safe t (fun b s => Holds t H s ∧ (b = true → (t, key, rid) ∈ s.marking ∧
        ∀ o, (key, o) ∈ H → A.Ready t key o rid s))
      (act (markReplicaAccounted t key rid)) s := by
  refine act_safe steady_holds_alone hH fun s hO hJ hH hC => ?_
  have hH' : Holds t H (markReplicaAccounted t key rid s).2 := hH.rely (rely_markReplicaAccounted t)
  obtain ⟨h, -⟩ | ⟨progress, h, -⟩ := markReplicaAccounted_cases t key rid s
  · rw [h]
    exact ⟨hO, hJ, fun t' _ => Rely.refl t' s, fun t' _ => A.refl t' s, hH, by simp⟩
  · obtain ⟨hJ', hK, hrdy⟩ := A.marked hO hJ (by rw [h]) hC
    refine ⟨hO.markReplicaAccounted, hJ', fun t' _ => rely_markReplicaAccounted t', hK, hH',
      fun _ => ⟨?_, fun o ho => hrdy o (hH.mem ho) (hH.known _ ho).2⟩⟩
    rw [h]
    exact mem_cons_self

lemma recvOutAggregateOne_safe {r : Response} (hI : Owned s ∧ A.J s)
    (hH : Holds t ((r.netKey, o) :: H) s) :
    A.Safe t (fun _ => Holds t ((r.netKey, o) :: H)) (recvOutAggregateOne t r o) s := by
  refine .bind (read_safe hH) hI fun size s hI hH => ?_
  refine .bind (read_safe hH) hI fun known s hI hH => ?_
  split_ifs
  · refine .bind (skip_safe (fun _ => ⟨quiet_aggregateOut, rfl⟩) steady_holds_alone hH) hI
      fun _ s hI hH => ?_
    refine .bind (markReplicaAccounted_safe r.replicaId hH) hI ?_
    rintro b s hI ⟨hH, hrdy⟩
    split_ifs with hb
    · have hrdy := (hrdy hb).2 o mem_cons_self
      refine (countReplica_safe A.ready_rely ?_ firm_true hI hH hrdy).weaken fun _ _ h => h.1
      intro s hO hJ hH hrdy hC
      obtain ⟨hJ', hK⟩ := A.counted hO hJ hH hrdy (Or.inl rfl) hC
      exact ⟨hJ', hK, trivial⟩
    · exact .pure hH
  · exact .pure hH

lemma recvOutAggregate_safe (hI : Owned s ∧ A.J s) (hH : Holds t H s) :
    A.Safe t (fun _ => Holds t H) (recvOutAggregate t responses) s := by
  induction responses generalizing s with
  | nil => exact .pure hH
  | cons r responses ih =>
    refine .bind (findOrigin_safe r.netKey hH) hI ?_
    rintro (_ | o) s hI hH
    · exact ih hI hH
    · refine .bind (recvOutAggregateOne_safe hI hH) hI
        fun _ s hI hH => ?_
      exact .bind (dropOrigin_safe hH) hI fun _ s hI hH => ih hI hH

lemma recvOut_safe (hI : Owned s ∧ A.J s) (hH : Holds t H s) :
    A.Safe t (fun _ => Holds t H) (recvOut t responses) s := by
  refine .bind (recvOutDeserialize_safe responses hI hH) hI fun b s hI hH => ?_
  split_ifs
  · exact recvOutAggregate_safe responses hI hH
  · exact .pure hH

/-- Looking for the origin of a replica that the thread has accounted -/
lemma findAccounted_safe (hH : Holds t H s) (hmk : (t, key, rid) ∈ s.marking) :
    A.Safe t (fun r s => Found t key H r s ∧ ∀ o, r = some o → A.Ready t key o rid s)
      (act (findAccounted t key rid)) s := by
  have hsty : A.Steady t fun s => (t, key, rid) ∈ s.marking := fun hR _ h => hR.marking h
  refine act_safe (steady_holds hsty) ⟨hH, hmk⟩ ?_
  rintro s hO hJ ⟨hH, hmk⟩ -
  rw [findAccounted]
  cases hlk : s.sendMap.lookup key with
  | none =>
    obtain ⟨hJ', hK⟩ := A.abandoned t rid hJ hlk
    refine ⟨hO.congr rfl rfl rfl (fun _ => rfl) (fun _ => .inl rfl) .inl, hJ', fun t' ht' => ?_, hK,
      ⟨hH.count, hH.known⟩, by simp⟩
    exact ⟨.of_origins rfl id rfl rfl, fun _ => rfl, id, mem_erase_of_thread_ne ht'⟩
  | some o =>
    obtain ⟨hadr, hlt, -⟩ := hO.mapped hlk
    have hJ' := A.quiet (quiet_take (t := t) (o := o)) hJ
    refine ⟨hO.take hlk, hJ', guar_take, fun _ _ => A.quiet_rely quiet_take, hH.take hlt hadr, ?_⟩
    rintro o' ho'
    cases ho'
    exact A.found (hO.take hlk) hJ' hmk hlk

lemma handleTaskProgressResult_safe (gone : Bool) (hI : Owned s ∧ A.J s) (hH : Holds t H s) :
    A.Safe t (fun _ => Holds t H) (handleTaskProgressResult t key rid gone) s := by
  rw [handleTaskProgressResult]
  split_ifs
  swap
  · exact .pure hH
  refine .bind (markReplicaAccounted_safe rid hH) hI ?_
  rintro b s hI ⟨hH, hb⟩
  split_ifs with hbt
  swap
  · exact .pure hH
  refine .bind (findAccounted_safe hH (hb hbt).1) hI ?_
  rintro (_ | o) s hI ⟨hH, hrdy⟩
  · exact .pure hH
  · refine .bind (skip_safe (fun _ => ⟨quiet_setReturnCode, rfl⟩)
      (steady_holds A.ready_rely) ⟨hH, hrdy o rfl⟩) hI ?_
    rintro - s hI ⟨hH, hrdy⟩
    refine .bind (countReplica_safe A.ready_rely ?_ firm_true hI hH hrdy) hI
      fun _ s _ h => dropOrigin_safe h.1
    intro s hO hJ hH hrdy hC
    obtain ⟨hJ', hK⟩ := A.counted hO hJ hH hrdy (Or.inr rfl) hC
    exact ⟨hJ', hK, trivial⟩

lemma handleGone_safe (gone : List (Address × ReplicaId)) (hI : Owned s ∧ A.J s)
    (hH : Holds t H s) : A.Safe t (fun _ => Holds t H) (handleGone t gone) s := by
  induction gone generalizing s with
  | nil => exact .pure hH
  | cons r gone ih =>
    exact .bind (handleTaskProgressResult_safe true hI hH) hI fun _ s hI hH => ih hI hH

/-! ### Discarding -/

lemma flushRetries_safe (entries : List RetryEntry) (hI : Owned s ∧ A.J s) (hH : Holds t H s) :
    A.Safe t (fun found s => Holds t (found ++ H) s ∧ ∀ e ∈ found, Full e.2 s)
      (flushRetries t entries) s := by
  induction entries generalizing H s with
  | nil => exact .pure ⟨hH, by simp⟩
  | cons e entries ih =>
    refine .bind (findOrigin_safe e.netKey hH) hI ?_
    rintro (_ | o) s hI hH
    · exact ih hI hH
    refine .bind (fetchAdd_safe (X := fun _ => True) (fun _ _ _ => trivial)
      (fun s hO hJ hH _ hC => ?_) hH trivial) hI ?_
    · obtain ⟨hJ', hK⟩ := A.discarded hO hJ hH hC
      exact ⟨hJ', hK, trivial⟩
    rintro n s hI ⟨hH, -, hn, hle⟩
    refine .bind (compare_safe (fun _ _ _ => trivial) hH trivial hn hle) hI ?_
    rintro m s hI ⟨hH, -, hfu⟩
    split_ifs with hnm
    · refine .bind ((ih hI hH).carry (hfu hnm) (fun _ _ h hR _ => h.grows hR.1.toGrows)
        fun _ _ h hG => h.grows hG.1.grows) hI ?_
      rintro found s - ⟨⟨hH, hfd⟩, hfu⟩
      exact .pure ⟨hH.perm perm_middle, forall_mem_cons.mpr ⟨hfu, hfd⟩⟩
    · exact .bind (dropOrigin_safe hH) hI fun _ s hI hH => ih hI hH

lemma completeFlushed_safe (found : List (Address × OriginId)) (hI : Owned s ∧ A.J s)
    (hH : Holds t (found ++ H) s) (hfu : ∀ e ∈ found, Full e.2 s) :
    A.Safe t (fun _ => Holds t H) (completeFlushed t found) s := by
  induction found generalizing s with
  | nil => exact .pure hH
  | cons e found ih =>
    obtain ⟨hfu, hrs⟩ := forall_mem_cons.mp hfu
    have hfirm : A.Firm t fun s => ∀ e ∈ found, Full e.2 s :=
      ⟨fun hR _ h e he => (h e he).grows hR.toGrows,
        fun h e he => (h e he).grows guar_claimOrigin.grows,
        fun h e he => (h e he).grows guar_endTask.grows⟩
    refine .bind (completeOriginTask_safe hfirm hI hH hfu hrs) hI ?_
    rintro - s hI ⟨hH, hrs⟩
    refine .bind ((dropOrigin_safe hH).carry (X := fun s => ∀ e ∈ found, Full e.2 s) hrs
      (fun _ _ h hR _ e he => (h e he).grows hR.1.toGrows)
      fun _ _ h hG e he => (h e he).grows hG.1.grows) hI ?_
    rintro - s hI ⟨hH, hrs⟩
    exact ih hI hH hrs

/-! ### Calls and threads -/

lemma program_safe (c : Call) (hI : Owned s ∧ A.J s) (hH : Holds t H s) :
    A.Safe t (fun _ => Holds t H) (c.program t) s := by
  cases c with
  | sendIn task key transmits now => exact sendInOrigin_safe task transmits hI hH
  | recvOut responses => exact recvOut_safe responses hI hH
  | taskProgress key rid gone => exact handleTaskProgressResult_safe gone hI hH
  | retryQueues now delivers =>
    exact .bind (skip_safe (fun _ => ⟨.of_origins rfl rfl rfl rfl rfl rfl rfl, rfl⟩)
      steady_holds_alone hH) hI fun failures s hI hH => handleGone_safe failures hI hH
  | scanTimeouts now =>
    exact .bind (skip_safe (fun s => ⟨Quiet.refl s, rfl⟩) steady_holds_alone hH) hI
      fun lost s hI hH => handleGone_safe lost hI hH
  | flush n =>
    refine .bind (skip_safe (fun _ => ⟨.of_origins rfl rfl rfl rfl rfl rfl rfl, rfl⟩)
      steady_holds_alone hH) hI fun entries s hI hH => ?_
    exact .bind (flushRetries_safe entries hI hH) hI
      fun found s hI h => completeFlushed_safe found hI h.1 h.2
  | setDead n now => exact skip_safe (fun _ => ⟨quiet_setDead, rfl⟩) steady_holds_alone hH
  | setAlive n now => exact skip_safe (fun _ => ⟨quiet_setAlive, rfl⟩) steady_holds_alone hH

lemma thread_safe (calls : List Call) (hI : Owned s ∧ A.J s) (hH : Holds t H s) :
    A.Safe t (fun _ => Holds t H) (thread t calls) s := by
  induction calls generalizing s with
  | nil => exact .pure hH
  | cons c calls ih => exact .bind (program_safe c hI hH) hI fun _ s hI hH => ih hI hH

/-- **Interleavings keep the invariants**, ownership and what is claimed beyond it. -/
lemma launch_safe (A : Argument) (calls : ThreadId → List Call) {s : Run2Run} (hI : Owned s ∧ A.J s)
    {p : Pool Run2Run ThreadId Unit} (hp : Pool.Reach A.C (s.launch calls) p) :
    Owned p.state ∧ A.J p.state := by
  refine (Pool.reach_safe (I := fun s => Owned s ∧ A.J s) (R := fun t s s' => Rely t s s' ∧
    A.K t s s')
    (G := fun t s s' => Guar t s s' ∧ ∀ t' ≠ t, A.K t' s s') (Q := fun t _ => Holds t [])
    (fun t _ _ _ h h' => ⟨h.1.trans h'.1, A.trans h.1 h.2 h'.2⟩)
    (fun t t' hne s s' _ _ hG => ⟨hG.1 t' hne.symm, hG.2 t' hne.symm⟩)
    (fun t _ s s' h hR _ => h.rely hR.1) hp (fun t s => ⟨Rely.refl t s, A.refl t s⟩) hI
    fun t => ?_).1
  exact thread_safe (calls t) hI ⟨fun o => Nat.zero_le _, by simp⟩

end Argument

/-! ## At most one completion -/

/-- Nothing is claimed beyond ownership. -/
def ownership : Argument where
  J _ := True
  K _ _ _ := True
  C _ _ := True
  Sending _ _ _ _ _ _ := True
  Ready _ _ _ _ _ := True
  refl _ _ := trivial
  trans _ _ _ := trivial
  sending_rely _ _ _ := trivial
  ready_rely _ _ _ := trivial
  quiet _ _ := trivial
  quiet_rely _ := trivial
  entered _ _ _ _ _ := ⟨trivial, fun _ _ => trivial, trivial⟩
  next _ _ := trivial
  skipped _ _ _ _ _ := ⟨trivial, fun _ _ => trivial, trivial⟩
  registered _ _ _ _ := ⟨trivial, fun _ _ => trivial⟩
  marked _ _ _ _ := ⟨trivial, fun _ _ => trivial, fun _ _ _ => trivial⟩
  found _ _ _ _ := trivial
  abandoned _ _ _ _ _ _ := ⟨trivial, fun _ _ => trivial⟩
  counted _ _ _ _ _ _ := ⟨trivial, fun _ _ => trivial⟩
  discarded _ _ _ _ := ⟨trivial, fun _ _ => trivial⟩
  claimed _ _ _ _ := ⟨trivial, fun _ _ => trivial⟩
  sending_claimed _ := trivial
  ended _ _ := ⟨trivial, fun _ _ => trivial⟩
  sending_ended _ := trivial

lemma owned_start (node : Node) : Owned (Run2Run.start node) where
  mapped h := absurd h (by simp [Run2Run.start])
  held h := by cases h
  ending h := by cases h
  alone := nodup_nil
  ended _ := Nat.zero_le 1
  sized _ := Or.inl rfl

/-- **An origin is completed at most once.**  Whatever the threads of a node are asked to do and
however their sections interleave, with responses that are duplicated or late and with addresses
that are given to new origins, `EndTask` is called for no origin more than once. -/
theorem endTask_at_most_once (node : Node) (calls : ThreadId → List Call)
    {p : Pool Run2Run ThreadId Unit}
    (hp : Pool.Reach (fun _ _ => True) ((Run2Run.start node).launch calls) p) (o : OriginId) :
    (p.state.origins o).endTasks ≤ 1 :=
  (ownership.launch_safe calls ⟨owned_start node, trivial⟩ hp).1.ended o

/-- Two tasks are sent to node 1 from one address, one after the other; each response arrives twice.
-/
def resentAddress (t : ThreadId) : List Call :=
  let task : Task := { poolId := ⟨2, 0⟩, poolQuery := .physical 1, poolQueries := [.physical 1] }
  match t with
  | 0 => [.sendIn task 7 (fun _ => .delivered) 0, .sendIn task 7 (fun _ => .delivered) 1]
  | 1 | 2 => [.recvOut [⟨7, 0, 0, -1⟩], .recvOut [⟨7, 0, 0, -1⟩]]
  | _ => []

/-- Both receivers find the first origin before one of them completes it; likewise for the second.
-/
def resentAddressSchedule : List ThreadId :=
  let received := List.replicate 5 1 ++ List.replicate 5 2 ++ List.replicate 10 1 ++
    List.replicate 3 2
  List.replicate 5 0 ++ received ++ List.replicate 5 0 ++ received

lemma resentAddress_runs :
    (((Run2Run.start (created 2 32 0)).launch resentAddress).runIf (fun _ _ => true)
      resentAddressSchedule).map
        (fun p => ((p.state.origins 0).endTasks, (p.state.origins 1).endTasks)) = some (1, 1) := by
  decide +kernel

theorem endTask_at_most_once_resentAddress :
    ∃ p, Pool.Reach (fun _ _ => True) ((Run2Run.start (created 2 32 0)).launch resentAddress) p ∧
      (p.state.origins 0).endTasks = 1 ∧ (p.state.origins 1).endTasks = 1 ∧
      ∀ o, (p.state.origins o).endTasks ≤ 1 := by
  obtain ⟨p, hrun, hends⟩ := Option.map_eq_some_iff.mp resentAddress_runs
  have hp := Pool.reach_of_runIf (fun _ _ _ => trivial) hrun
  obtain ⟨h₀, h₁⟩ := Prod.mk.inj hends
  exact ⟨p, hp, h₀, h₁, endTask_at_most_once _ _ hp⟩

end ClioCore.Runtime
