import ClioCore.Cte.Tasks

/-!
# Readers keep their extents

Any number of `GetBlob`, `PutBlob`, `TruncateBlob`, `DelBlob`, `ReorganizeBlob` tasks and reclaims
of cache replicas, interleaved in any way: no request to free is about an extent that a reader with
a pin has in its copy of the block list.
-/

namespace ClioCore.Cte

open Foundations List Argument State
open SafeBdev (PoolId)

/-! ## Tasks of a container -/

/-- The operations on blobs. -/
inductive BlobOp
  | put (req : PutBlobTask)
  | get (req : GetBlobTask)
  | truncate (key : BlobKey) (newSize : ℕ)
  | del (key : BlobKey)
  | reorganize (key : BlobKey) (newScore : ℚ)
  | reorganizeReplica (key : BlobKey) (sel : ℕ) (newScore : ℚ)
  | reclaim (key : BlobKey)

/-- The task of an operation, run by worker `wid` with the token `tok`. -/
def BlobOp.task (wid : ℕ) (tok : TaskId) : BlobOp → Co State Reply
  | put req => putBlob wid tok req
  | get req => getBlob tok req
  | truncate key newSize => truncateBlob wid tok key newSize
  | del key => delBlob wid tok key
  | reorganize key newScore => reorganizeBlob wid tok key newScore
  | reorganizeReplica key sel newScore => Cte.reorganizeReplica wid tok key sel newScore
  | reclaim key => reclaimCacheReplica wid tok key

/-- The tasks started in state `s`: for each token in use a worker and an operation. -/
def launch (ops : TaskId → Option (ℕ × BlobOp)) (s : State) : Pool State TaskId Reply where
  state := s
  task t := match ops t with
    | none => pure (reply 0)
    | some (wid, op) => op.task wid t

/-- A container nobody is working on. -/
structure Quiescent (s : State) : Prop where
  inv : Inv s
  tokens : ∀ o, (s.objs o).writeOwner = none

variable {s : State}

lemma Quiescent.idle (h : Quiescent s) (t : TaskId) : Idle t s := fun o ho =>
  absurd ((h.tokens o).symm.trans ho) (by simp)

/-- A container without blobs. -/
def State.start (targets : List TargetInfo) (env : Env) : State where
  objs _ := BlobInfo.new "" 0
  nextObj := 0
  blobs := ∅
  tagNames := ∅
  tagInfos := ∅
  tagSearch := ∅
  nodeId := 0
  nextTagIdMinor := 0
  targets := targets
  mem _ _ := 0
  live := []
  shm _ := false
  blobLogs := []
  tagLogs := []
  scoreThreshold := 0
  env := env
  tick := 0
  hist := ⟨false, false, [], [], [], fun _ => 0⟩

lemma quiescent_start (targets : List TargetInfo) (env : Env) : Quiescent (start targets env) where
  inv :=
    { live := ⟨List.Pairwise.nil, fun x hx => absurd hx not_mem_nil⟩
      unborn := fun _ _ => rfl
      born := fun x hx => absurd hx not_mem_nil
      mapped := fun k o hk => absurd hk (by simp [start])
      free := fun o _ => ⟨⟨nodup_nil, fun e he => absurd he not_mem_nil,
          fun b hb => absurd hb not_mem_nil, fun _ e he => absurd he not_mem_nil⟩,
        ⟨rfl, fun r hr => absurd hr not_mem_nil, rfl⟩, rfl, rfl⟩
      published := fun o _ b hb => absurd hb not_mem_nil
      pins := fun _ => rfl
      reading := fun r hr => absurd hr not_mem_nil }
  tokens _ := rfl

/-! ## The discipline alone -/

/-- The argument that claims nothing beyond the discipline. -/
def discipline (t : TaskId) (key : BlobKey) : Argument t key where
  J _ := True
  K _ _ := True
  L _ _ := True
  C _ _ := True
  Start _ := True
  Known _ _ := True
  Held _ _ _ _ := True
  Over _ _ _ _ _ := True
  Done _ _ := True
  start_rely _ _ _ := trivial
  known_rely _ _ _ := trivial
  held_rely _ _ _ _ := trivial
  held_local _ _ := trivial
  inv_held _ _ _ _ := trivial
  over_rely _ _ _ _ := trivial
  guar_local _ := trivial
  guar_refl _ := trivial
  found _ _ _ _ := trivial
  acquire _ _ _ _ _ := ⟨trivial, trivial, trivial⟩
  undrain _ _ _ _ := ⟨trivial, trivial, trivial⟩
  release _ _ _ _ _ := ⟨trivial, trivial, trivial⟩

/-- A task that keeps the discipline, beside others that do. -/
abbrev Disciplined (t : TaskId) (c : Co State Reply) (s : State) : Prop :=
  Co.Safe (fun s => Inv s ∧ True) (fun s s' => Rely t s s' ∧ True) (fun s s' => Guar t s s' ∧ True)
    (fun _ _ => True) (fun _ s => Idle t s) c s

/-- Every operation keeps the discipline. -/
lemma BlobOp.task_safe (op : BlobOp) (wid : ℕ) (t : TaskId) (hI : Inv s) (hil : Idle t s) :
    Disciplined t (op.task wid t) s := by
  have hdr : ∀ {key : BlobKey} {c : Co State Reply}, (discipline t key).Safe
      (fun r s => (discipline t key).Done r.rc s ∧ Idle t s) c s → Disciplined t c s :=
    fun h => .weaken h fun _ _ h => h.2
  have hkp {key : BlobKey} : (discipline t key).KeepsPrimary := by
    intro
    intros
    trivial
  have hfa {key : BlobKey} : (discipline t key).Excuses := by
    intro
    intros
    trivial
  cases op with
  | put req =>
    exact hdr (putBlob_safe wid req hI trivial trivial hil (by intros; trivial)
      (by intros; trivial) hkp hfa (by intros; trivial))
  | get req =>
    exact getBlob_safe (A := discipline t req.key) req hI trivial trivial hil
      fun _ _ _ _ _ => ⟨trivial, trivial⟩
  | truncate key newSize =>
    exact hdr (truncateBlob_safe wid hI trivial trivial hil newSize (by intros; trivial) hfa
      (by intros; trivial))
  | del key =>
    exact hdr (delBlob_safe wid hI trivial trivial hil (fun _ _ _ _ _ => trivial)
      (by intros; trivial))
  | reorganize key newScore =>
    exact hdr (reorganizeBlob_safe wid hI trivial trivial hil newScore
      (fun _ _ _ _ _ => trivial) (by intros; trivial) (by intros; trivial) (by intros; trivial))
  | reorganizeReplica key sel newScore =>
    exact hdr (reorganizeReplica_safe wid hI trivial trivial hil sel newScore
      (fun _ _ _ _ _ => trivial) hkp)
  | reclaim key =>
    exact hdr (reclaimCacheReplica_safe wid hI trivial trivial hil (fun _ _ _ _ => trivial) hkp)

/-- Every interleaving keeps the discipline. -/
lemma launch_safe (ops : TaskId → Option (ℕ × BlobOp)) (hs : Quiescent s)
    {p : Pool State TaskId Reply} (hp : Pool.Reach (fun _ _ => True) (launch ops s) p) :
    (Inv p.state ∧ True) ∧ ∀ t, Disciplined t (p.task t) p.state := by
  refine Pool.reach_safe (I := fun s => Inv s ∧ True) ?_ ?_ ?_ hp ?_ ⟨hs.inv, trivial⟩ ?_
  · exact fun t a b c h h' => ⟨Rely.trans h.1 h'.1, trivial⟩
  · exact fun t t' hne s s' _ _ hG => ⟨hG.1.1 t' (Ne.symm hne), trivial⟩
  · exact fun t _ s s' h hR _ => h.stable hR.1
  · exact fun t s => ⟨Rely.refl t s, trivial⟩
  · intro t
    rw [launch]
    simp only
    cases ops t with
    | none => exact .pure (hs.idle t)
    | some r => exact r.2.task_safe r.1 t hs.inv (hs.idle t)

/-! ## Reader pins -/

/-- **Reader pins protect extents.**  In every interleaving of operations on blobs, whenever a task
issues requests to free, every extent that a reader with a pin has copied is apart from what is to
be freed. -/
theorem freed_apart_of_pinned (ops : TaskId → Option (ℕ × BlobOp)) {s : State} (hs : Quiescent s)
    {p q : Pool State TaskId Reply} {t : TaskId}
    (hp : Pool.Reach (fun _ _ => True) (launch ops s) p) (hstep : p.step t = some q) :
    ∃ es, q.state.hist.freed = p.state.hist.freed ++ es ∧
      ∀ e ∈ es, ∀ r ∈ p.state.hist.reading, ∀ b ∈ r.2.2, b.extent.Apart e := by
  obtain ⟨hI, hsafe⟩ := launch_safe ops hs hp
  obtain ⟨-, hG, -⟩ := Pool.step_safe (hsafe t) ⟨Rely.refl t _, trivial⟩ hI hstep trivial
  exact hG.1.2

/-- Targets that grant and store everything. -/
def Env.obliging : Env where
  select _ targets _ _ := targets
  alloc n _ size := [(1000 * n, size)]
  stored _ n := n
  readOk _ := true
  freeOk _ := true
  bufferOk _ := true

/-- Puts of the blobs `a` and `b`, a get of `a` and a delete of `b`. -/
def putPutGetDel (t : TaskId) : Option (ℕ × BlobOp) :=
  match t with
  | ⟨0, 0⟩ => some (0, .put ⟨⟨0, 1⟩, "a", none, 0, 1, [], some fun _ => 7, 1, .default, false⟩)
  | ⟨1, 0⟩ => some (0, .put ⟨⟨0, 1⟩, "b", none, 0, 1, [], some fun _ => 8, 1, .default, false⟩)
  | ⟨2, 0⟩ => some (0, .get ⟨⟨0, 1⟩, "a", none, 0, 1, [], fun _ => 0, false, 0⟩)
  | ⟨3, 0⟩ => some (0, .del ⟨⟨0, 1⟩, "b"⟩)
  | _ => none

/-- Both puts run, the get takes its pin, and the delete comes to its request to free. -/
def freeAmidRead : List TaskId :=
  replicate 12 ⟨0, 0⟩ ++ replicate 12 ⟨1, 0⟩ ++ replicate 3 ⟨2, 0⟩ ++ replicate 7 ⟨3, 0⟩

/-- The delete frees the extent of `b` while the get holds its pin and has the extent of `a` in its
copy. -/
theorem freed_apart_of_pinned_freeAmidRead : ∃ p q,
    (launch putPutGetDel (start [⟨⟨1, 0⟩, 0, 100, .longTerm, 100⟩] .obliging)).run freeAmidRead =
    some p ∧
      p.step ⟨3, 0⟩ = some q ∧ p.state.hist.freed = [] ∧ q.state.hist.freed = [⟨⟨1, 0⟩, 4000, 1⟩] ∧
      p.state.hist.reading.map (fun r => r.2.2.map BlobBlock.extent) = [[⟨⟨1, 0⟩, 1000, 1⟩]] ∧
      ∀ e ∈ q.state.hist.freed, ∀ r ∈ p.state.hist.reading, ∀ b ∈ r.2.2, b.extent.Apart e := by
  have hev : ((launch putPutGetDel (start [⟨⟨1, 0⟩, 0, 100, .longTerm, 100⟩] .obliging)).runIf
      (fun _ _ => true) freeAmidRead).any (fun p => (p.step ⟨3, 0⟩).any fun q =>
        (p.state.hist.freed == []) && (q.state.hist.freed == [⟨⟨1, 0⟩, 4000, 1⟩]) &&
        (p.state.hist.reading.map (fun r => r.2.2.map BlobBlock.extent) == [[⟨⟨1, 0⟩, 1000, 1⟩]]))
      = true := by
    decide +kernel
  rw [Option.any_eq_true] at hev
  obtain ⟨p, hrun, hev⟩ := hev
  rw [Option.any_eq_true] at hev
  obtain ⟨q, hstep, hev⟩ := hev
  simp only [Bool.and_eq_true, beq_iff_eq] at hev
  obtain ⟨⟨hp, hq⟩, hrd⟩ := hev
  refine ⟨p, q, Pool.run_of_runIf hrun, hstep, hp, hq, hrd, ?_⟩
  obtain ⟨es, hes, hap⟩ := freed_apart_of_pinned putPutGetDel (quiescent_start _ _)
    (Pool.reach_of_runIf (fun _ _ _ => trivial) hrun) hstep
  rw [hp, nil_append] at hes
  rwa [hes]

end ClioCore.Cte
