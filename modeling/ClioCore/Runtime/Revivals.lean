import ClioCore.Runtime.Escalation

/-!
# Dead nodes that become alive again

A dead node is alive again when a task arrives that it sent or gave its id to, when a heartbeat to
it is complete, or when a helper confirms it.  A heartbeat is also complete when this node gave it
up: the sweep for dead targets completes it thirty seconds after the target was marked dead, and the
next `HeartbeatProbe` takes this for an answer.

* `Revival.Justified` — somebody has received a message of the node since it was marked dead, and
  the probe, if there was one, was answered.
* `Op.Sincere` — probes are completed by answers only, no answer is read after its target was marked
  dead again, a helper confirms only whom it has heard, and the id of a task names its sender.
* `Detector.Evidenced` — what then holds between two operations.

`Calm` is what the phases of `HeartbeatProbe` and the arrival of a task leave as it is.
-/

namespace ClioCore.Runtime

open Foundations List Hosts Detector Option
open Detector (step start)

variable {rest : List PendingProbe} {kept : List PendingIndirectProbe} {e : Detector}

/-- The node that revives `r.peer`, or the helper that confirmed it, has heard of it since it was
dead. -/
def Revival.Justified (self : NodeId) (r : Revival) : Prop :=
  (self ∈ r.heard ∨ ∃ helper ∈ r.helper, helper ∈ r.heard) ∧ r.answered = true

namespace Detector

variable {n m target : NodeId} {f : FutureId} {now : ℕ} {order : Shuffle}
  {shuffle : NodeId → Shuffle}
  {via : Option NodeId} {byAnswer : Bool} {b : PendingProbe} {d d' x : Detector}

/-! ## Who is dead -/

lemma isDead_iff : d.isDead n = true ↔ (d.hosts.getHost n).isSome = true ∧
    d.hosts.getNodeState n = .dead := by
  rw [isDead, getNodeState]
  cases d.hosts.getHost n <;> simp

lemma isDead_congr (h : d'.hosts = d.hosts) : d'.isDead n = d.isDead n := by
  rw [isDead, isDead, h]

@[simp] lemma isDead_flushStaleState : (d.flushStaleState n).isDead m = d.isDead m :=
  isDead_congr hosts_flushStaleState

lemma isDead_setAlive : (d.setAlive n now via byAnswer).isDead m = true ↔
    m ≠ n ∧ d.isDead m = true := by
  rw [isDead_iff, isDead_iff, hosts_setAlive, isSome_getHost_setAlive, getNodeState_setAlive]
  obtain rfl | hm := eq_or_ne m n
  · cases hkn : (d.hosts.getHost m).isSome <;> simp
  · simp [hm]

lemma isDead_setNodeState {state : NodeState} (hstt : state ≠ .dead) :
    (d.modifyHosts (·.setNodeState n now state)).isDead m = true ↔ m ≠ n ∧ d.isDead m = true := by
  rw [isDead_iff, isDead_iff, hosts_modifyHosts, isSome_getHost_setNodeState,
    getNodeState_setNodeState]
  obtain rfl | hm := eq_or_ne m n
  · cases hkn : (d.hosts.getHost m).isSome <;> simp [hstt]
  · simp [hm]

lemma isDead_of_fades (h : d.hosts.Fades x.hosts) (hn : d.isDead n = true) : x.isDead n = true := by
  rw [isDead_iff] at hn ⊢
  rw [h.known n]
  exact ⟨hn.1, (h.state n).elim (fun hs => hs.trans hn.2) id⟩

/-! ## What the phases leave -/

/-- A node that is no longer dead is among the revivals since. -/
def Logged (d x : Detector) : Prop :=
  ∃ new, x.revivals = d.revivals ++ new ∧
    ∀ n, d.isDead n = true → x.isDead n = true ∨ ∃ r ∈ new, r.peer = n

lemma Logged.of_eq (hrvs : x.revivals = d.revivals)
    (hdd : ∀ n, d.isDead n = true → x.isDead n = true) : Logged d x :=
  ⟨[], by rw [hrvs, append_nil], fun n hn => .inl (hdd n hn)⟩

lemma Logged.trans (h : Logged d x) (h' : Logged x d') : Logged d d' := by
  obtain ⟨new, hnew, hdd⟩ := h
  obtain ⟨new', hnew', hdd'⟩ := h'
  refine ⟨new ++ new', by rw [hnew', hnew, append_assoc], fun n hn => ?_⟩
  obtain hx | ⟨r, hr, hpeer⟩ := hdd n hn
  · exact (hdd' n hx).imp_right fun ⟨r, hr, hpeer⟩ => ⟨r, mem_append_right _ hr, hpeer⟩
  · exact .inr ⟨r, mem_append_left _ hr, hpeer⟩

/-- Futures stay bound, what was counted and ended stays so, new probes have new futures, and every
revival is recorded. -/
structure Calm (d x : Detector) : Prop where
  futures : x.futures = d.futures
  heard : d.heard ⊆ x.heard
  self : x.self = d.self
  issued : d.issued ≤ x.issued
  queued : ∀ e ∈ x.netQueue, e ∈ d.netQueue ∨ e.1 < x.issued
  origins : Run2Run.Adds d.ipc x.ipc
  direct : ∀ b ∈ x.pendingDirectProbes, b ∈ d.pendingDirectProbes ∨ d.issued ≤ b.future
  indirect : ∀ p ∈ x.pendingIndirectProbes, p ∈ d.pendingIndirectProbes ∨ d.issued ≤ p.future
  logged : Logged d x

lemma Calm.refl (d : Detector) : Calm d d :=
  ⟨rfl, Subset.refl _, rfl, le_rfl, fun _ => .inl, .of_origins rfl, fun _ => .inl, fun _ => .inl,
    .of_eq rfl fun _ => id⟩

lemma Calm.trans (h : Calm d x) (h' : Calm x d') : Calm d d' where
  futures := h'.futures.trans h.futures
  heard := Subset.trans h.heard h'.heard
  self := h'.self.trans h.self
  issued := h.issued.trans h'.issued
  queued e he := by
    obtain he | he := h'.queued e he
    · exact (h.queued e he).imp_right fun hlt => hlt.trans_le h'.issued
    · exact .inr he
  origins := h.origins.trans h'.origins
  direct b hb := by
    obtain hb | hb := h'.direct b hb
    · exact h.direct b hb
    · exact .inr (h.issued.trans hb)
  indirect p hp := by
    obtain hp | hp := h'.indirect p hp
    · exact h.indirect p hp
    · exact .inr (h.issued.trans hp)
  logged := h.logged.trans h'.logged

/-- The dead stay dead. -/
lemma calm_modifyHosts {g : Hosts → Hosts} (hg : (g d.hosts).nodeId = d.hosts.nodeId)
    (hdd : ∀ n, d.isDead n = true → (d.modifyHosts g).isDead n = true) : Calm d (d.modifyHosts g) :=
  { Calm.refl d with
    self := hg
    origins := .of_origins rfl
    logged := .of_eq rfl hdd }

/-- A node that is not dead changes its state. -/
lemma calm_setNodeState {state : NodeState} (hstt : state ≠ .dead)
    (hn : d.hosts.getNodeState n ≠ .dead) :
    Calm d (d.modifyHosts (·.setNodeState n now state)) := by
  refine calm_modifyHosts nodeId_setNodeState fun m hm => (isDead_setNodeState hstt).mpr ⟨?_, hm⟩
  rintro rfl
  exact hn (isDead_iff.mp hm).2

lemma calm_flushStaleState : Calm d (d.flushStaleState n) :=
  { Calm.refl d with
    self := congrArg nodeId hosts_flushStaleState
    origins := discards_flushStaleState.toAdds
    logged := .of_eq rfl fun _ hm => isDead_flushStaleState.trans hm }

lemma calm_setAlive : Calm d (d.setAlive n now via byAnswer) := by
  have hlog : Logged d (d.setAlive n now via byAnswer) := by
    by_cases hdd : d.isDead n = true
    · refine ⟨[⟨n, via, d.heardFrom n, byAnswer⟩], if_pos hdd, fun m hm => ?_⟩
      obtain rfl | hne := eq_or_ne m n
      · exact .inr ⟨_, mem_singleton_self _, rfl⟩
      · exact .inl (isDead_setAlive.mpr ⟨hne, hm⟩)
    · refine .of_eq (if_neg hdd) fun m hm => isDead_setAlive.mpr ⟨?_, hm⟩
      rintro rfl
      exact hdd hm
  exact { Calm.refl d with
    self := nodeId_setAlive
    origins := .of_origins rfl
    logged := hlog }

lemma calm_confirmAlive : Calm d (d.confirmAlive n f now via) := by
  rw [confirmAlive]
  split_ifs with hdd
  · exact calm_flushStaleState.trans calm_setAlive
  · exact calm_setNodeState (by simp) hdd

lemma calm_failProbe : Calm d (d.failProbe n now) := by
  rw [failProbe]
  split_ifs with hdd
  · exact calm_setNodeState (by simp) hdd
  · exact .refl d

/-- A task is queued under a new future. -/
lemma calm_submit {k : ℕ} : Calm d (d.submit n k) :=
  { Calm.refl d with
    issued := Nat.le_succ _
    queued := fun e he => (mem_append.mp he).imp_right fun he => by
      rw [mem_singleton.mp he]
      exact Nat.lt_succ_self _ }

lemma calm_asyncProbeRequest {helper : NodeId} : Calm d (d.asyncProbeRequest target helper now) :=
  { calm_submit (d := d) (n := helper) (k := kProbeRequest) with
    indirect := fun p hp => (mem_append.mp hp).imp_right fun hp => by rw [mem_singleton.mp hp] }

lemma calm_asyncHeartbeat : Calm d (d.asyncHeartbeat n now) :=
  { calm_submit (d := d) (n := n) (k := kHeartbeat) with
    direct := fun b hb => (mem_append.mp hb).imp_right fun hb => by rw [mem_singleton.mp hb] }

lemma calm_foldl {α : Type} {g : Detector → α → Detector} (hg : ∀ d a, Calm d (g d a))
    (l : List α) : Calm d (l.foldl g d) := by
  induction l generalizing d with
  | nil => exact .refl d
  | cons a l ih => exact (hg d a).trans ih

lemma calm_escalate {shuffle : Shuffle} : Calm d (d.escalate n now shuffle) :=
  calm_failProbe.trans (calm_foldl (fun _ _ => calm_asyncProbeRequest) _)

lemma calm_suspect {pending : List PendingIndirectProbe} : Calm d (d.suspect n now pending) := by
  rw [suspect]
  split_ifs with hmore hfai
  · exact .refl d
  · exact calm_setNodeState (by simp) (by simp [hfai])
  · exact .refl d

lemma calm_checkDirectProbe : Calm d (d.checkDirectProbe now shuffle b).2 := by
  rw [checkDirectProbe]
  split_ifs
  · exact calm_confirmAlive
  · exact calm_escalate
  · exact .refl d

lemma calm_checkDirectProbesLoop : Calm d (checkDirectProbesLoop now shuffle rest d).2 := by
  induction rest generalizing d with
  | nil => exact .refl d
  | cons b rest ih => exact calm_checkDirectProbe.trans ih

/-- The direct probes that are left -/
lemma Calm.dropDirect (h : Calm d x) {kept : List PendingProbe}
    (hkp : kept ⊆ d.pendingDirectProbes) : Calm d { x with pendingDirectProbes := kept } :=
  { h with direct := fun _ hb => .inl (hkp hb) }

/-- The indirect probes that are left -/
lemma Calm.dropIndirect (h : Calm d x) (hkp : kept ⊆ d.pendingIndirectProbes)
    : Calm d { x with pendingIndirectProbes := kept } :=
  { h with indirect := fun _ hp => .inl (hkp hp) }

lemma calm_checkDirectProbes : Calm d (d.checkDirectProbes now shuffle) :=
  calm_checkDirectProbesLoop.dropDirect sublist_checkDirectProbesLoop.subset

lemma calm_checkIndirectProbesLoop {rest : List PendingIndirectProbe}
    (h : kept ++ rest ⊆ d.pendingIndirectProbes)
    : Calm d (checkIndirectProbesLoop now kept rest d) := by
  induction rest generalizing kept d with
  | nil => exact (Calm.refl d).dropIndirect (append_nil kept ▸ h)
  | cons p rest ih =>
    have hrest : kept ++ rest ⊆ kept ++ p :: rest :=
      (sublist_cons_self p rest).append_left kept |>.subset
    rw [checkIndirectProbesLoop]
    split_ifs
    · exact calm_confirmAlive.dropIndirect fun q hq => h (mem_filter.mp hq).1
    · refine calm_suspect.trans (ih ?_)
      rw [verdict_suspect.indirect]
      exact Subset.trans hrest h
    · refine ih ?_
      rwa [append_assoc]

lemma calm_checkSuspicion : Calm d (d.checkSuspicion now n) := by
  rw [checkSuspicion]
  split_ifs
  · exact calm_modifyHosts nodeId_setDead fun _ => isDead_of_fades fades_setDead
  · exact .refl d

lemma calm_checkPeers : Calm d (d.checkPeers now order shuffle) := by
  have hfen : ∀ d : Detector, Calm d d.checkSelfFence := fun d => { Calm.refl d with }
  have hind : ∀ d : Detector, Calm d (d.checkIndirectProbes now) := fun d =>
    calm_checkIndirectProbesLoop (Subset.refl _)
  exact ((calm_checkDirectProbes.trans (hind _)).trans
    (calm_foldl (fun _ _ => calm_checkSuspicion) _)).trans (hfen _)

lemma calm_sendDirectProbe : Calm d (d.sendDirectProbe now order) := by
  obtain h | ⟨n, idx, -, h⟩ := sendDirectProbe_cases <;> rw [h]
  · exact .refl d
  · have hsent : Calm d (d.asyncHeartbeat n now) := calm_asyncHeartbeat
    exact { hsent with }

lemma calm_heartbeatProbe : Calm d (d.heartbeatProbe now order shuffle) := by
  rw [heartbeatProbe]
  split_ifs
  · exact calm_checkPeers.trans calm_sendDirectProbe
  · exact .refl d

/-! ## Every revival has a reason -/

lemma mem_heardFrom : m ∈ d.heardFrom n ↔ (m, n) ∈ d.heard := by
  simp [heardFrom]

/-- Somebody who matters has heard of the node. -/
def Attested (d : Detector) (n : NodeId) (via : Option NodeId) : Prop :=
  (d.self, n) ∈ d.heard ∨ ∃ helper ∈ via, (helper, n) ∈ d.heard

lemma Attested.calm (h : d.Attested n via) (hcm : Calm d x) : x.Attested n via := by
  rw [Attested, hcm.self]
  exact h.imp (fun hhrd => hcm.heard hhrd) fun ⟨helper, hvia, hhrd⟩ =>
    ⟨helper, hvia, hcm.heard hhrd⟩

/-- All revivals so far are justified. -/
def Clean (d : Detector) : Prop := ∀ r ∈ d.revivals, r.Justified d.self

lemma Clean.of_eq (h : d.Clean) (hrvs : x.revivals = d.revivals) (hsf : x.self = d.self) :
    x.Clean := by
  rwa [Clean, hrvs, hsf]

lemma clean_setAlive (h : d.Clean) (hn : d.isDead n = true → d.Attested n via ∧ byAnswer = true) :
    (d.setAlive n now via byAnswer).Clean := by
  have hsf : (d.setAlive n now via byAnswer).self = d.self := calm_setAlive.self
  intro r hr
  rw [hsf]
  by_cases hdd : d.isDead n = true
  · have hrvs : (d.setAlive n now via byAnswer).revivals =
        d.revivals ++ [⟨n, via, d.heardFrom n, byAnswer⟩] := if_pos hdd
    rw [hrvs] at hr
    obtain hr | hr := mem_append.mp hr
    · exact h r hr
    · obtain rfl := mem_singleton.mp hr
      refine ⟨(hn hdd).1.imp (fun hhrd => mem_heardFrom.mpr hhrd) ?_, (hn hdd).2⟩
      exact fun ⟨helper, hvia, hhrd⟩ => ⟨helper, hvia, mem_heardFrom.mpr hhrd⟩
  · have hrvs : (d.setAlive n now via byAnswer).revivals = d.revivals := if_neg hdd
    exact h r (hrvs ▸ hr)

lemma clean_confirmAlive (h : d.Clean)
    (hn : d.isDead n = true → d.Attested n via ∧ d.answered f = true) :
    (d.confirmAlive n f now via).Clean := by
  rw [confirmAlive]
  split_ifs
  · refine clean_setAlive (h.of_eq rfl calm_flushStaleState.self) fun hdd => ?_
    obtain ⟨hatt, hans⟩ := hn (isDead_flushStaleState.symm.trans hdd)
    exact ⟨hatt.calm calm_flushStaleState, hans⟩
  · exact h.of_eq rfl nodeId_setNodeState

/-! ## What is known of the pending probes -/

/-- What is known between two operations -/
structure Evidenced (d : Detector) : Prop extends Numbered d where
  direct : ∀ b ∈ d.pendingDirectProbes, d.isDead b.targetNodeId = true →
    d.isComplete b.future = true → d.answered b.future = true ∧ d.Attested b.targetNodeId none
  indirect : ∀ p ∈ d.pendingIndirectProbes, d.isDead p.targetNodeId = true →
    d.probeResult p.future = 0 →
    d.answered p.future = true ∧ d.Attested p.targetNodeId (some p.helperNodeId)
  clean : d.Clean

lemma isComplete_of_none (h : d.futures f = none) : d.isComplete f = false := by
  rw [isComplete, h]
  rfl

lemma Calm.isComplete (h : Calm d x) (hf : d.isComplete f = true) : x.isComplete f = true := by
  rw [Detector.isComplete] at hf ⊢
  rw [h.futures]
  cases hfut : d.futures f with
  | none => simp [hfut] at hf
  | some o =>
    rw [hfut] at hf
    exact decide_eq_true ((of_decide_eq_true hf).trans_le (h.origins.endTasks o))

lemma Calm.probeResult_eq (h : Calm d x) : x.probeResult f = d.probeResult f := by
  rw [probeResult, probeResult, h.futures]
  cases d.futures f with
  | none => rfl
  | some o => exact h.origins.probeResult o

lemma Calm.counted_le (h : Calm d x) (f : FutureId) : d.counted f <+: x.counted f := by
  rw [counted, counted, h.futures]
  cases d.futures f with
  | none => exact prefix_rfl
  | some o => exact h.origins.counted o

/-- A state within `HeartbeatProbe`, before anybody is declared dead -/
structure Amid (d x e : Detector) : Prop where
  before : Calm d x
  after : Calm x e
  dead : ∀ n, x.isDead n = true → d.isDead n = true

/-- What was counted did not change meanwhile. -/
lemma Amid.answered (h : Amid d x e) (hcnt : e.counted f = d.counted f) (hf : d.answered f = true)
    : x.answered f = true := by
  have hx : x.counted f <+: d.counted f := hcnt ▸ h.after.counted_le f
  have heq : d.counted f = x.counted f := (h.before.counted_le f).eq_of_length_le hx.length_le
  rwa [Detector.answered, ← heq]

/-- Until the end of `HeartbeatProbe`, the pending direct probes of dead nodes are completed by nobody
else. -/
def DirectKept (d e : Detector) : Prop :=
  ∀ b ∈ d.pendingDirectProbes, d.isDead b.targetNodeId = true → e.isComplete b.future = true →
    d.isComplete b.future = true ∧ e.counted b.future = d.counted b.future

def IndirectKept (d e : Detector) : Prop :=
  ∀ p ∈ d.pendingIndirectProbes, d.isDead p.targetNodeId = true → e.probeResult p.future = 0 →
    e.counted p.future = d.counted p.future

lemma Amid.direct (h : Amid d x e) (hd : d.Evidenced) (hkp : DirectKept d e)
    (hb : b ∈ d.pendingDirectProbes) (hcmp : x.isComplete b.future = true)
    (hdd : x.isDead b.targetNodeId = true) :
    x.Attested b.targetNodeId none ∧ x.answered b.future = true := by
  obtain ⟨hbef, hcnt⟩ := hkp b hb (h.dead _ hdd) (h.after.isComplete hcmp)
  obtain ⟨hans, hatt⟩ := hd.direct b hb (h.dead _ hdd) hbef
  exact ⟨hatt.calm h.before, h.answered hcnt hans⟩

lemma Amid.indirect {p : PendingIndirectProbe} (h : Amid d x e) (hd : d.Evidenced)
    (hkp : IndirectKept d e) (hp : p ∈ d.pendingIndirectProbes) (hrs : x.probeResult p.future = 0)
    (hdd : x.isDead p.targetNodeId = true) :
    x.Attested p.targetNodeId (some p.helperNodeId) ∧ x.answered p.future = true := by
  have hcnt := hkp p hp (h.dead _ hdd) (h.after.probeResult_eq.trans hrs)
  obtain ⟨hans, hatt⟩ := hd.indirect p hp (h.dead _ hdd) (h.before.probeResult_eq.symm.trans hrs)
  exact ⟨hatt.calm h.before, h.answered hcnt hans⟩

lemma isDead_of_confirmAlive (h : (d.confirmAlive n f now via).isDead m = true) :
    d.isDead m = true := by
  rw [confirmAlive] at h
  split_ifs at h
  · exact isDead_flushStaleState.symm.trans (isDead_setAlive.mp h).2
  · exact ((isDead_setNodeState (by simp)).mp h).2

lemma isDead_of_escalate {shuffle : Shuffle} (h : (d.escalate n now shuffle).isDead m = true) :
    d.isDead m = true := by
  have hfa : (d.failProbe n now).isDead m = true := by rwa [escalate_eq] at h
  rw [failProbe] at hfa
  split_ifs at hfa
  · exact ((isDead_setNodeState (by simp)).mp hfa).2
  · exact hfa

/-- The loop over the direct probes revives only nodes that were heard. -/
lemma clean_checkDirectProbesLoop (hd : d.Evidenced) (hkp : DirectKept d e)
    (hrest : rest ⊆ d.pendingDirectProbes) (hx : Calm d x)
    (hdd : ∀ n, x.isDead n = true → d.isDead n = true)
    (he : Calm (checkDirectProbesLoop now shuffle rest x).2 e) (hcl : x.Clean) :
    (checkDirectProbesLoop now shuffle rest x).2.Clean ∧
      ∀ n, (checkDirectProbesLoop now shuffle rest x).2.isDead n = true → d.isDead n = true := by
  induction rest generalizing x with
  | nil => exact ⟨hcl, hdd⟩
  | cons b rest ih =>
    have hamid : Amid d x e := ⟨hx, calm_checkDirectProbesLoop.trans he, hdd⟩
    obtain ⟨hb, hrest⟩ := cons_subset.mp hrest
    have hrnd : (x.checkDirectProbe now shuffle b).2.Clean ∧
        ∀ n, (x.checkDirectProbe now shuffle b).2.isDead n = true → x.isDead n = true := by
      rw [checkDirectProbe]
      split_ifs with hcmp
      · exact ⟨clean_confirmAlive hcl (hamid.direct hd hkp hb hcmp),
          fun _ => isDead_of_confirmAlive⟩
      · refine ⟨hcl.of_eq ?_ calm_escalate.self, fun _ => isDead_of_escalate⟩
        rw [escalate_eq, failProbe]
        split_ifs <;> rfl
      · exact ⟨hcl, fun _ => id⟩
    exact ih hrest (hx.trans calm_checkDirectProbe) (fun n hn => hdd n (hrnd.2 n hn)) he hrnd.1

/-- The loop over the indirect probes revives only nodes that a helper has heard. -/
lemma clean_checkIndirectProbesLoop {rest : List PendingIndirectProbe} (hd : d.Evidenced)
    (hkp : IndirectKept d e) (hrest : ∀ p ∈ rest, p ∈ d.pendingIndirectProbes ∨ d.issued ≤ p.future)
    (hpd : kept ++ rest ⊆ x.pendingIndirectProbes) (hx : Calm d x)
    (hdd : ∀ n, x.isDead n = true → d.isDead n = true)
    (he : Calm (checkIndirectProbesLoop now kept rest x) e) (hcl : x.Clean) :
    (checkIndirectProbesLoop now kept rest x).Clean := by
  induction rest generalizing kept x with
  | nil => exact hcl
  | cons p rest ih =>
    have hamid : Amid d x e := ⟨hx, (calm_checkIndirectProbesLoop hpd).trans he, hdd⟩
    have hsub : kept ++ rest ⊆ kept ++ p :: rest :=
      (sublist_cons_self p rest).append_left kept |>.subset
    have hlat := fun q hq => hrest q (mem_cons_of_mem _ hq)
    rw [checkIndirectProbesLoop] at he ⊢
    split_ifs at he ⊢ with hsuc hfai
    · refine Clean.of_eq (clean_confirmAlive hcl fun hn => ?_) rfl rfl
      obtain hp | hp := hrest p mem_cons_self
      · exact hamid.indirect hd hkp hp hsuc.2 hn
      · -- a probe that was sent in this very call
        have hno : x.futures p.future = none := by rw [hx.futures, hd.fresh _ hp]
        exact absurd hsuc.1 (by simp [isComplete_of_none hno])
    · refine ih hlat ?_ (hx.trans calm_suspect) (fun n hn => hdd n ?_) he ?_
      · rw [verdict_suspect.indirect]
        exact Subset.trans hsub hpd
      · rw [suspect] at hn
        split_ifs at hn
        · exact hn
        · exact ((isDead_setNodeState (by simp)).mp hn).2
        · exact hn
      · refine hcl.of_eq ?_ calm_suspect.self
        rw [suspect]
        split_ifs <;> rfl
    · refine ih hlat ?_ hx hdd he hcl
      rwa [append_assoc]

lemma pendingDirectProbes_checkDirectProbesLoop :
    (checkDirectProbesLoop now shuffle rest d).2.pendingDirectProbes = d.pendingDirectProbes := by
  induction rest generalizing d with
  | nil => rfl
  | cons b rest ih =>
    refine ih.trans ?_
    rw [checkDirectProbe]
    split_ifs
    · exact verdict_confirmAlive.direct
    · rw [escalate_eq]
      exact verdict_failProbe.direct
    · rfl

/-- `HeartbeatProbe` revives only nodes that were heard. -/
lemma clean_heartbeatProbe (hd : d.Evidenced)
    (hdir : DirectKept d (d.heartbeatProbe now order shuffle))
    (hind : IndirectKept d (d.heartbeatProbe now order shuffle)) :
    (d.heartbeatProbe now order shuffle).Clean := by
  rw [heartbeatProbe] at hdir hind ⊢
  split_ifs at hdir hind ⊢
  · -- the later phases do not touch what the loops have left
    have hls : Calm ((d.checkDirectProbes now shuffle).checkIndirectProbes now)
        ((d.checkPeers now order shuffle).sendDirectProbe now order) :=
      (calm_foldl (fun _ _ => calm_checkSuspicion) _).trans
        (.trans (x := d.checkPeers now order shuffle) { Calm.refl _ with } calm_sendDirectProbe)
    have hsec : Calm (d.checkDirectProbes now shuffle)
        ((d.checkDirectProbes now shuffle).checkIndirectProbes now) :=
      calm_checkIndirectProbesLoop (Subset.refl _)
    have hfst : Calm (checkDirectProbesLoop now shuffle d.pendingDirectProbes d).2
        (d.checkDirectProbes now shuffle) := by
      refine (Calm.refl _).dropDirect ?_
      rw [pendingDirectProbes_checkDirectProbesLoop]
      exact sublist_checkDirectProbesLoop.subset
    obtain ⟨hcl, hdd⟩ := clean_checkDirectProbesLoop hd hdir (Subset.refl _) (.refl d)
      (fun _ => id) (hfst.trans (hsec.trans hls)) hd.clean
    have hche := clean_checkIndirectProbesLoop hd hind
      calm_checkDirectProbes.indirect (Subset.refl _) calm_checkDirectProbes hdd hls
      (hcl.of_eq rfl rfl)
    refine Clean.of_eq hche ?_ hls.self
    obtain h | ⟨n, idx, -, h⟩ := sendDirectProbe_cases <;> rw [h]
    · exact checkSuspicions_keeps.2
    · exact checkSuspicions_keeps.2
  · exact hd.clean

end Detector

/-! ## Operations -/

/-- A task with the id of a dead node was sent by that node, and no dead node joins. -/
def Op.attributed (d : Detector) : Op → Bool
  | .recvIn sender origin _ _ => decide (d.isDead origin = true → origin = sender)
  | .addNode known _ => !d.isDead (known.getD d.hosts.getNumHosts)
  | _ => true

/-- A pending direct probe of a dead node is completed by responses of the node only. -/
def Op.DirectAnswers (op : Op) (d d' : Detector) : Prop :=
  ∀ b ∈ d.pendingDirectProbes, d.isDead b.targetNodeId = true → d'.isComplete b.future = true →
    d.isComplete b.future = true ∧ d'.counted b.future = d.counted b.future ∨
    op.responder = some b.targetNodeId ∧ d'.answered b.future = true

/-- A pending indirect probe of a dead node succeeds by a response only, and only if the helper has
heard of the node since it was marked dead. -/
def Op.IndirectAnswers (op : Op) (d d' : Detector) : Prop :=
  ∀ p ∈ d.pendingIndirectProbes, d.isDead p.targetNodeId = true → d'.probeResult p.future = 0 →
    d.probeResult p.future = 0 ∧ d'.counted p.future = d.counted p.future ∨
    (op.responder.isSome = true ∧ (p.helperNodeId, p.targetNodeId) ∈ d.heard) ∧
      d'.answered p.future = true

/-- When a node is marked dead, no success of a probe of it is waiting to be read. -/
def Detector.Unread (d d' : Detector) : Prop :=
  (∀ b ∈ d.pendingDirectProbes, d.marksDead d' b.targetNodeId = true →
    d'.isComplete b.future = false) ∧
    ∀ p ∈ d.pendingIndirectProbes, d.marksDead d' p.targetNodeId = true →
    d'.probeResult p.future ≠ 0

/-- The operation tells no lies about dead nodes. -/
def Op.Sincere (d : Detector) (op : Op) : Prop :=
  op.attributed d ∧ ∀ d' ∈ d.step op, op.DirectAnswers d d' ∧ op.IndirectAnswers d d' ∧ d.Unread d'

instance (op : Op) (d d' : Detector) : Decidable (op.DirectAnswers d d') :=
  inferInstanceAs (Decidable (∀ b ∈ d.pendingDirectProbes, _))

instance (op : Op) (d d' : Detector) : Decidable (op.IndirectAnswers d d') :=
  inferInstanceAs (Decidable (∀ p ∈ d.pendingIndirectProbes, _))

instance (d d' : Detector) : Decidable (d.Unread d') := inferInstanceAs (Decidable (_ ∧ _))

instance (d : Detector) (op : Op) : Decidable (op.Sincere d) := inferInstanceAs (Decidable (_ ∧ _))

namespace Detector

variable {n : NodeId} {now : ℕ} {d d' x e : Detector} {op : Op}

/-- What an operation does, before what was received is forgotten -/
structure Carried (d : Detector) (op : Op) (e : Detector) : Prop extends Numbered e where
  self : e.self = d.self
  heard : d.heard ⊆ e.heard
  responder : ∀ n ∈ op.responder, (d.self, n) ∈ e.heard
  direct : ∀ b ∈ e.pendingDirectProbes, b ∈ d.pendingDirectProbes ∨ e.futures b.future = none
  indirect : ∀ p ∈ e.pendingIndirectProbes, p ∈ d.pendingIndirectProbes ∨ e.futures p.future = none
  clean : e.Clean
  logged : Logged d e

lemma mem_heard_forget {h : NodeId × NodeId} (hh : h ∈ e.heard) (hdd : ¬ d.marksDead e h.2 = true) :
    h ∈ (d.forget e).heard :=
  mem_filter.mpr ⟨hh, by simp [hdd]⟩

/-- What was attested stays so, unless the node was marked dead. -/
lemma Carried.attested {via : Option NodeId} (h : Carried d op e) (hn : d.Attested n via)
    (hmks : ¬ d.marksDead e n = true) : (d.forget e).Attested n via := by
  have hsf : (d.forget e).self = d.self := h.self
  rw [Attested, hsf]
  exact hn.imp (fun hhrd => mem_heard_forget (h.heard hhrd) hmks) fun ⟨helper, hvia, hhrd⟩ =>
    ⟨helper, hvia, mem_heard_forget (h.heard hhrd) hmks⟩

lemma isDead_of_not_marksDead (hdd : e.isDead n = true) (hmks : ¬ d.marksDead e n = true) :
    d.isDead n = true := by
  rw [marksDead, hdd] at hmks
  simpa using hmks

lemma answered_congr {f : FutureId} (h : x.counted f = d.counted f) :
    x.answered f = d.answered f := by
  rw [answered, answered, h]

/-- **The step lemma.** -/
lemma Evidenced.forget (hd : d.Evidenced) (h : Carried d op e)
    (hdir : op.DirectAnswers d (d.forget e))
    (hind : op.IndirectAnswers d (d.forget e)) (hunr : d.Unread (d.forget e)) :
    (d.forget e).Evidenced := by
  refine ⟨⟨h.fresh, h.queued⟩, fun b hb hdd hcmp => ?_, fun p hp hdd hrs => ?_, h.clean⟩
  · obtain hb | hno := h.direct b hb
    · have hmks : ¬ d.marksDead e b.targetNodeId = true := fun hmks =>
        absurd (hunr.1 b hb hmks) (by simp [hcmp])
      have hbdd := isDead_of_not_marksDead hdd hmks
      obtain ⟨hbef, hcnt⟩ | ⟨hres, hans⟩ := hdir b hb hbdd hcmp
      · obtain ⟨hans, hatt⟩ := hd.direct b hb hbdd hbef
        exact ⟨(answered_congr hcnt).trans hans, h.attested hatt hmks⟩
      · refine ⟨hans, .inl (mem_heard_forget ?_ hmks)⟩
        rw [show (d.forget e).self = d.self from h.self]
        exact h.responder _ hres
    · simp [isComplete_of_none (d := d.forget e) hno] at hcmp
  · obtain hp | hno := h.indirect p hp
    · have hmks : ¬ d.marksDead e p.targetNodeId = true := fun hmks => hunr.2 p hp hmks hrs
      have hpdd := isDead_of_not_marksDead hdd hmks
      obtain ⟨hbef, hcnt⟩ | ⟨⟨-, hhrd⟩, hans⟩ := hind p hp hpdd hrs
      · obtain ⟨hans, hatt⟩ := hd.indirect p hp hpdd hbef
        exact ⟨(answered_congr hcnt).trans hans, h.attested hatt hmks⟩
      · exact ⟨hans, .inr ⟨_, rfl, mem_heard_forget (h.heard hhrd) hmks⟩⟩
    · have hmin : (d.forget e).probeResult p.future = -1 := by
        rw [probeResult, show (d.forget e).futures p.future = none from hno]
        rfl
      simp [hmin] at hrs

/-! ### What the operations carry over -/

/-- An operation that stays within `Calm` -/
lemma Carried.of_calm (hd : d.Evidenced) (hcm : Calm d e) (hres : op.responder = none)
    (hcl : e.Clean) : Carried d op e := by
  have hno : ∀ f, d.issued ≤ f → e.futures f = none :=
    fun f hf => by rw [hcm.futures, hd.fresh f hf]
  refine ⟨⟨fun f hf => hno f (hcm.issued.trans hf), fun q hq => ?_⟩, hcm.self, hcm.heard,
    fun n hn => ?_, fun b hb => (hcm.direct b hb).imp_right fun hb => hno _ hb,
    fun p hp => (hcm.indirect p hp).imp_right fun hp => hno _ hp, hcl, hcm.logged⟩
  · exact (hcm.queued q hq).elim (fun hq => (hd.queued q hq).trans_le hcm.issued) id
  · simp [hres] at hn

lemma Carried.of_passive (hd : d.Evidenced) (h : Passive d op e) : Carried d op e :=
  ⟨h.numbered hd.toNumbered, h.fades.nodeId, h.heard, h.responder, fun _ hb => .inl (h.direct ▸ hb),
    fun _ hp => .inl (h.indirect ▸ hp), hd.clean.of_eq h.revivals h.fades.nodeId,
    .of_eq h.revivals fun _ => isDead_of_fades h.fades⟩

lemma calm_reviveOrigin : Calm d (d.reviveOrigin n now) := by
  rw [reviveOrigin]
  split_ifs
  · exact calm_setAlive
  · exact .refl d

lemma calm_noteInbound : Calm d (d.modifyHosts (·.noteInbound n now)) := by
  refine calm_modifyHosts nodeId_noteInbound fun m hm => ?_
  rw [isDead_iff] at hm ⊢
  rw [hosts_modifyHosts, getNodeState_noteInbound, getHost_noteInbound]
  split_ifs with hmn
  · rwa [Option.isSome_map, ← hmn]
  · exact hm

lemma clean_reviveSender (h : d.Clean) (hn : d.Attested n none) : (d.reviveSender n now).Clean := by
  rw [reviveSender]
  split_ifs
  · exact h
  · have hnot : (d.modifyHosts (·.noteInbound n now)).Clean := h.of_eq rfl calm_noteInbound.self
    dsimp only
    split_ifs
    · refine clean_setAlive (hnot.of_eq rfl calm_flushStaleState.self) fun _ => ⟨?_, rfl⟩
      exact hn.calm (calm_noteInbound.trans calm_flushStaleState)
    · exact hnot

lemma calm_reviveSender : Calm d (d.reviveSender n now) := by
  rw [reviveSender]
  split_ifs
  · exact .refl d
  · dsimp only
    split_ifs
    · exact (calm_noteInbound.trans calm_flushStaleState).trans calm_setAlive
    · exact calm_noteInbound

lemma calm_recvIn {origin : NodeId} {poolId : PoolId} : Calm d (d.recvIn n now origin poolId) := by
  have hhear : Calm d (d.hear n) := { Calm.refl d with heard := subset_cons_self _ _ }
  rw [recvIn]
  split_ifs
  · exact hhear.trans calm_reviveOrigin
  · exact (hhear.trans calm_reviveOrigin).trans calm_reviveSender

lemma calm_addNode {known : Option NodeId}
    (hkn : d.isDead (known.getD d.hosts.getNumHosts) = false) : Calm d (d.addNode now known) := by
  refine calm_modifyHosts (nodeId_addNode known) fun m hm => ?_
  have hne : m ≠ known.getD d.hosts.getNumHosts := by
    rintro rfl
    simp [hkn] at hm
  cases known with
  | some n =>
    have hsti : (d.setAlive n now none true).isDead m = true := isDead_setAlive.mpr ⟨hne, hm⟩
    exact hsti
  | none =>
    have hsm : (d.addNode now none).hosts.getHost m = d.hosts.getHost m :=
      AList.lookup_insert_ne hne
    rwa [isDead, show (d.modifyHosts (·.addNode now none)).hosts.getHost m = _ from hsm]

/-- A task revives the node that sent it. -/
lemma clean_recvIn {origin : NodeId} {poolId : PoolId} (hd : d.Clean)
    (hor : d.isDead origin = true → origin = n) : (d.recvIn n now origin poolId).Clean := by
  have hsf : (d.hear n).Attested n none := .inl mem_cons_self
  have hrev : ((d.hear n).reviveOrigin origin now).Clean := by
    rw [reviveOrigin]
    split_ifs
    · exact clean_setAlive (hd.of_eq rfl rfl) fun hdd => ⟨hor hdd ▸ hsf, rfl⟩
    · exact hd.of_eq rfl rfl
  rw [recvIn]
  split_ifs
  · exact hrev
  · exact clean_reviveSender hrev (hsf.calm calm_reviveOrigin)

lemma carried_perform (hd : d.Evidenced) (hop : op.attributed d) (h : d.perform op = some e)
    (hdir : op.DirectAnswers d (d.forget e)) (hind : op.IndirectAnswers d (d.forget e)) :
    Carried d op e := by
  obtain ⟨now, order, shuffle, rfl, rfl⟩ | ⟨sender, origin, poolId, now, rfl, rfl⟩ |
      ⟨known, now, rfl, rfl⟩ |
    hpas := perform_cases h
  · refine .of_calm hd calm_heartbeatProbe rfl (clean_heartbeatProbe hd ?_ ?_)
    · intro b hb hdd hcmp
      exact (hdir b hb hdd hcmp).resolve_right fun h => absurd h.1 (by simp [Op.responder])
    · intro p hp hdd hrs
      exact ((hind p hp hdd hrs).resolve_right fun h => absurd h.1 (by simp [Op.responder])).2
  · exact .of_calm hd calm_recvIn rfl (clean_recvIn hd.clean (of_decide_eq_true hop))
  · exact .of_calm hd (calm_addNode (Bool.not_eq_true' _ ▸ hop))
      rfl (hd.clean.of_eq rfl (nodeId_addNode known))
  · exact .of_passive hd hpas

lemma Evidenced.step (hd : d.Evidenced) (hop : op.Sincere d) (h : d.step op = some d') :
    d'.Evidenced := by
  obtain ⟨e, he, rfl⟩ := map_eq_some_iff.mp h
  obtain ⟨hdir, hind, hunr⟩ := hop.2 _ h
  exact hd.forget (carried_perform hd hop.1 he hdir hind) hdir hind hunr

end Detector

/-- **A dead node is revived on evidence only.**  In every run whose operations are sincere, all
revivals are justified, and a node that is dead before an operation and not after it is among the
revivals. -/
theorem revived_on_evidence (node : Node) (config : SwimConfig) {ops : List Op} {d : Detector}
    (hok : Meets step (fun d op => op.Sincere d) (start node config) ops)
    (h : runAll step (start node config) ops = some d) :
    (∀ r ∈ d.revivals, (d.self ∈ r.heard ∨ ∃ helper ∈ r.helper, helper ∈ r.heard) ∧
      r.answered = true) ∧
      ∀ op d', op.Sincere d → d.step op = some d' → ∃ new, d'.revivals = d.revivals ++ new ∧
        ∀ n, d.isDead n = true → d'.isDead n = false → ∃ r ∈ new, r.peer = n := by
  have hd : d.Evidenced := runAll_invariant Detector.Evidenced
    (fun _ _ _ _ hd hop hs => hd.step hop hs)
    ⟨⟨fun _ _ => rfl, by simp [start]⟩, by simp [start], by simp [start],
      fun _ hr => absurd hr not_mem_nil⟩ hok h
  refine ⟨hd.clean, fun op d' hop hs => ?_⟩
  obtain ⟨e, he, rfl⟩ := map_eq_some_iff.mp hs
  obtain ⟨hdir, hind, -⟩ := hop.2 _ hs
  obtain ⟨new, hnew, hdd⟩ := (carried_perform hd hop.1 he hdir hind).logged
  refine ⟨new, hnew, fun n hn hn' => (hdd n hn).resolve_left fun hsti => ?_⟩
  exact absurd (hn'.symm.trans hsti) (by simp)

/-- A heartbeat to node 2 is on its way when the node is marked dead; then the node answers. -/
def answeredLate : List Op :=
  [.heartbeatProbe 0 .id fun _ => .id, .sendQueued 7 (fun _ => .delivered) 0, .announceShutdown 2 1,
    .recvOut 2 [⟨7, 0, 0, -1⟩], .heartbeatProbe 2 .id fun _ => .id]

theorem revived_on_evidence_answeredLate :
    ∃ d, runAll step (start (member 3 0) {}) answeredLate = some d ∧
      d.revivals = [⟨2, none, [0], true⟩] ∧
      ∀ r ∈ d.revivals, (d.self ∈ r.heard ∨ ∃ helper ∈ r.helper, helper ∈ r.heard) ∧
      r.answered = true := by
  have hok : Meets step (fun d op => op.Sincere d) (start (member 3 0) {}) answeredLate := by
    decide +kernel
  obtain ⟨d, hd, hrvs⟩ := map_eq_some_iff.mp (show
    (runAll step (start (member 3 0) {}) answeredLate).map revivals =
      some [⟨2, none, [0], true⟩] by decide +kernel)
  exact ⟨d, hd, hrvs, (revived_on_evidence (member 3 0) {} hok hd).1⟩

/-- A heartbeat to node 2 cannot be transmitted: the node is marked dead and the heartbeat parked,
and given up thirty seconds later. -/
def givenUp : List Op :=
  [.heartbeatProbe 0 .id fun _ => .id, .sendQueued 7 (fun _ => .unreachable) 0,
    .scanSendMapTimeouts 30000000000]

lemma givenUp_runs : (runAll step (start (member 3 0) {}) givenUp).bind (fun d =>
      (d.step (.heartbeatProbe 30000000000 .id fun _ => .id)).map fun d' =>
        ((d.isDead 2, d'.isDead 2), (d.ipc.origins 0).returnCode, d'.heard, d'.revivals)) =
      some ((true, false), kRun2RunNetworkTimeoutRC, [], [⟨2, none, [], false⟩]) := by
  decide +kernel

/-- **A probe that was given up revives its target.**  Nothing was received from anybody, and the
only probe was completed by this node, with the return code of the network timeout. -/
theorem revived_without_evidence :
    ∃ ops op d d', runAll step (start (member 3 0) {}) ops = some d ∧
      d.step op = some d' ∧ d.isDead 2 = true ∧ d'.isDead 2 = false ∧ d'.heard = [] ∧
      (d.ipc.origins 0).returnCode = kRun2RunNetworkTimeoutRC ∧
      d'.revivals = [⟨2, none, [], false⟩] := by
  obtain ⟨d, hd, hmap⟩ := bind_eq_some_iff.mp givenUp_runs
  obtain ⟨d', hd', hstt⟩ := map_eq_some_iff.mp hmap
  simp only [Prod.mk.injEq] at hstt
  obtain ⟨⟨hdd, hali⟩, hcd, hhrd, hrvs⟩ := hstt
  exact ⟨givenUp, _, d, d', hd, hd', hdd, hali, hhrd, hcd, hrvs⟩

end ClioCore.Runtime
