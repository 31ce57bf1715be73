import ClioCore.Foundations.Serial

/-!
# Task groups

`RuntimeMapTask` is to send the tasks of a group to one worker.  It looks the worker up under the
read lock of the container, chooses one outside of any lock, and records its choice under the write
lock if the group has no worker by then.  It returns its choice in any case, and a quick task stays
on the calling worker without a record.

The calls are for tasks of one group on one container, none of them periodic.  What the choice
depends on comes with the call.
-/

namespace ClioCore.Runtime

open Foundations List

/-- The calling worker and its load, the size of the I/O, the ticket of `next_io_idx_`, the
predicted CPU time, and the worker that `PickInClass` or the compute pool has for the task -/
structure MapCall where
  worker : Option ℕ
  realtimeLoad : ℚ
  ioSize : ℕ
  ticket : ℕ
  predicted : ℚ
  picked : Option ℕ

/-- `io_workers_`, `scheduler_worker_` and `kFunnel` -/
structure DefaultScheduler where
  ioWorkers : List ℕ
  schedulerWorker : Option ℕ
  funnel : Bool

namespace DefaultScheduler

variable (sched : DefaultScheduler) (c : MapCall)

/-- The worker of a large I/O or of the legacy routing -/
def designated : Option ℕ :=
  (if 4096 ≤ c.ioSize then sched.ioWorkers[c.ticket % 2 ^ 32 % sched.ioWorkers.length]?
    else none).or (if sched.funnel then sched.schedulerWorker else none)

/-- The calling worker, if the task is quick and the worker is not backlogged -/
def inline : Option ℕ :=
  if sched.designated c = none ∧ sched.funnel = false ∧ c.predicted ≤ 100 ∧
    c.realtimeLoad ≤ 250 then
    c.worker
  else none

/-- `selected`, when the call comes to the write lock -/
def selected : Option ℕ := (sched.designated c).or (c.picked.or c.worker)

/-- The worker of the group in `task_group_map_`, the choices of the calls that have not yet come to
the write lock, and what has been returned -/
structure Group where
  bound : Option ℕ := none
  choices : List (Option ℕ) := []
  returned : List ℕ := []

/-- A call begins and makes its choice, or comes to the write lock. -/
inductive MapStep where
  | choose (c : MapCall)
  | record (i : ℕ)

def step (g : Group) : MapStep → Option Group
  | .choose c => some <| match g.bound.or (sched.inline c) with
    | some w => { g with returned := w :: g.returned }
    | none => { g with choices := sched.selected c :: g.choices }
  | .record i => g.choices[i]?.map fun w =>
    ⟨g.bound.or w, g.choices.eraseIdx i, w.getD 0 :: g.returned⟩

/-- All calls have returned the same worker. -/
def Group.Affine (g : Group) : Prop := ∀ v ∈ g.returned, ∀ w ∈ g.returned, v = w

/-- A call that finds no worker for the group is the only one that chooses, has a worker to choose
and is not inline. -/
def Alone (g : Group) : MapStep → Prop
  | .choose c => g.bound = none → g.choices = [] ∧ sched.inline c = none ∧ sched.selected c ≠ none
  | .record _ => True

/-- Before the group has a worker nothing is returned, and one call may be choosing; then everything
that is returned is the worker. -/
inductive Group.Inv : Group → Prop
  | fresh : Inv {}
  | choosing (w : ℕ) : Inv { choices := [some w] }
  | settled {w : ℕ} {returned : List ℕ} (h : ∀ v ∈ returned, v = w) : Inv ⟨some w, [], returned⟩

lemma Group.Inv.step {g g' : Group} {st : MapStep} (h : g.Inv) (hok : sched.Alone g st)
    (hst : sched.step g st = some g') : g'.Inv := by
  cases st with
  | choose c =>
    cases hst
    cases h with
    | fresh =>
      obtain ⟨-, hin, hsel⟩ := hok rfl
      obtain ⟨w, hw⟩ := Option.ne_none_iff_exists'.mp hsel
      simpa [hin, hw] using Inv.choosing w
    | choosing w => exact absurd (hok rfl).1 (cons_ne_nil _ _)
    | settled h => exact .settled (forall_mem_cons.mpr ⟨rfl, h⟩)
  | record i =>
    obtain ⟨w, hw, rfl⟩ := Option.map_eq_some_iff.mp hst
    cases h with
    | fresh => simp at hw
    | choosing v =>
      cases i with
      | zero =>
        cases hw
        exact .settled (by simp)
      | succ i => simp at hw
    | settled h => simp at hw

/-- **Task groups** keep to one worker if a call that finds none is alone until it has recorded one.
-/
theorem affine_of_alone {steps : List MapStep} {g : Group}
    (hrun : runAll sched.step {} steps = some g)
    (hok : Meets sched.step sched.Alone {} steps) : g.Affine := by
  have hinv : g.Inv := runAll_invariant Group.Inv (fun _ _ _ _ h => h.step sched) .fresh hok hrun
  intro v hv w hw
  cases hinv with
  | fresh => simp at hv
  | choosing => simp at hv
  | settled h => rw [h v hv, h w hw]

theorem affine_of_alone_recorded : Group.Affine ⟨some 2, [], [2, 2]⟩ := by
  have hrun : runAll (step ⟨[1, 2], none, false⟩) {}
      [.choose ⟨some 1, 0, 0, 0, 500, some 2⟩, .record 0,
      .choose ⟨some 3, 0, 0, 0, 0, none⟩] = some ⟨some 2, [], [2, 2]⟩ := rfl
  refine affine_of_alone _ hrun ⟨fun _ => ⟨rfl, by decide, by decide⟩, fun g hg => ?_⟩
  cases hg
  norm_num [Meets, Alone, step, inline, designated, selected]
  exact Option.some_ne_none 2

/-- Two quick tasks stay on the workers that submit them, and two calls that choose at a time keep
to their choices. -/
theorem not_affine_inline :
    (∃ g, runAll (step ⟨[1, 2], none, false⟩) {} [.choose ⟨some 1, 0, 0, 0, 0, none⟩,
      .choose ⟨some 2, 0, 0, 0, 0, none⟩] = some g ∧ ¬ g.Affine) ∧
    ∃ g, runAll (step ⟨[1, 2], none, false⟩) {} [.choose ⟨some 1, 0, 0, 0, 500, some 1⟩,
      .choose ⟨some 1, 0, 0, 0, 500, some 2⟩, .record 0, .record 0] = some g ∧ ¬ g.Affine := by
  refine ⟨⟨_, rfl, fun h => ?_⟩, _, rfl, fun h => ?_⟩
  · exact absurd (h 1 (by decide) 2 (by decide)) (by decide)
  · exact absurd (h 1 (by decide) 2 (by decide)) (by decide)

end DefaultScheduler

end ClioCore.Runtime
