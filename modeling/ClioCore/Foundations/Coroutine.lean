import Mathlib.Logic.Function.Basic
import Mathlib.Logic.Relation
import Mathlib.Tactic

/-!
# Cooperative tasks over a shared state

A cooperative task runs in *sections*: between two suspension points it has the shared state to
itself.  `Co σ α` is such a task in resumption form: it is finished, or it is suspended in front of
a section that it enters once `ready` holds of the shared state.  A polling loop that yields until a
condition holds is one suspension whose `ready` is the condition, since a failed poll leaves the
state as it is.

* `Co.run` — the task on its own, from start to finish; `Co.Returns` — what it can then return with;
  `Co.Each`, `Co.Prompt` — what every section of it does, and that none waits.
* `Pool`, `Pool.step`, `Pool.run` — several tasks on one state, a schedule naming who runs next.
* `Co.Safe` — rely and guarantee: whatever the others do within the rely `R`, the invariant `I`
  is kept, every section of this task stays within the guarantee `G`, and the result meets `Q`.
* `Pool.reach_safe` — tasks that are safe, each relying on what the others guarantee, keep the
  invariant in every interleaving.
* `Co.Safe.of_run` — a task that is safe among others is safe alone.
-/

namespace ClioCore.Foundations

open Option

variable {σ α β : Type}

/-- A cooperative task on the shared state `σ` with result `α`. -/
inductive Co (σ α : Type) where
  /-- The task has returned. -/
  | done (a : α)
  /-- The task waits until `ready`, then runs the section `act` and continues. -/
  | step (ready : σ → Bool) (act : σ → σ) (next : σ → Co σ α)

namespace Co

/-- Run `c`, then the task its result selects. -/
def bind : Co σ α → (α → Co σ β) → Co σ β
  | done a, f => f a
  | step ready act next, f => step ready act fun s => (next s).bind f

instance : Monad (Co σ) where
  pure := done
  bind := bind

/-- One section that waits until `ready`. -/
def await (ready : σ → Bool) (f : σ → α × σ) : Co σ α :=
  step ready (fun s => (f s).2) fun s => done (f s).1

/-- One section that needs not wait. -/
def act (f : σ → α × σ) : Co σ α := await (fun _ => true) f

/-- The task run alone to its end; `none` if it would wait for ever. -/
def run : Co σ α → σ → Option (α × σ)
  | done a, s => some (a, s)
  | step ready act next, s => if ready s then (next s).run (act s) else none

@[simp] lemma run_pure (a : α) (s : σ) : (pure a : Co σ α).run s = some (a, s) := rfl

@[simp] lemma run_await (ready : σ → Bool) (f : σ → α × σ) (s : σ) :
    (await ready f).run s = if ready s then some (f s) else none := rfl

@[simp] lemma run_act (f : σ → α × σ) (s : σ) : (act f).run s = some (f s) := rfl

@[simp] lemma run_bind (c : Co σ α) (f : α → Co σ β) (s : σ) :
    (c >>= f).run s = (c.run s).bind fun r => (f r.1).run r.2 := by
  induction c generalizing s with
  | done a => rfl
  | step ready act next ih =>
    change (if ready s then (next s >>= f).run (act s) else none) = _
    by_cases h : ready s = true
    · simp only [run, h, if_true, ih]
    · simp [run, h]

/-- Run alone from `s`, the task can return only with `Q`. -/
def Returns (c : Co σ α) (s : σ) (Q : α → σ → Prop) : Prop := ∀ r, c.run s = some r → Q r.1 r.2

section Returns

variable {c : Co σ α} {s : σ} {Q P : α → σ → Prop}

lemma returns_pure {a : α} : (pure a : Co σ α).Returns s Q ↔ Q a s :=
  ⟨fun h => h (a, s) rfl, fun h _ hr => some.inj hr ▸ h⟩

lemma returns_await {ready : σ → Bool} {f : σ → α × σ} :
    (await ready f).Returns s Q ↔ (ready s = true → Q (f s).1 (f s).2) := by
  refine ⟨fun h hrdy => h (f s) ((run_await ready f s).trans (if_pos hrdy)), fun h r hr => ?_⟩
  rw [run_await] at hr
  split_ifs at hr with hrdy
  exact some.inj hr ▸ h hrdy

lemma returns_act {f : σ → α × σ} : (act f).Returns s Q ↔ Q (f s).1 (f s).2 :=
  returns_await.trans ⟨fun h => h rfl, fun h _ => h⟩

lemma returns_bind {f : α → Co σ β} {P : β → σ → Prop} :
    (c >>= f).Returns s P ↔ c.Returns s fun a s' => (f a).Returns s' P := by
  refine ⟨fun h r hr r' hr' => h r' ?_, fun h r' hr' => ?_⟩
  · rw [run_bind, hr]
    exact hr'
  · rw [run_bind] at hr'
    obtain ⟨r, hr, hr'⟩ := bind_eq_some_iff.mp hr'
    exact h r hr r' hr'

lemma Returns.mono (h : c.Returns s Q) (hQ : ∀ a s, Q a s → P a s) : c.Returns s P :=
  fun r hr => hQ _ _ (h r hr)

end Returns

/-- Every section of the task stays within `R`. -/
def Each (R : σ → σ → Prop) : Co σ α → Prop
  | done _ => True
  | step ready act next => ∀ s, ready s = true → R s (act s) ∧ (next s).Each R

section Each

variable {R : σ → σ → Prop} {c : Co σ α}

lemma each_pure {a : α} : (pure a : Co σ α).Each R := trivial

lemma each_await {ready : σ → Bool} {f : σ → α × σ} (h : ∀ s, ready s = true → R s (f s).2) :
    (await ready f).Each R :=
  fun s hrdy => ⟨h s hrdy, trivial⟩

lemma each_act {f : σ → α × σ} (h : ∀ s, R s (f s).2) : (act f).Each R := each_await fun s _ => h s

lemma Each.bind {f : α → Co σ β} (hc : c.Each R) (hf : ∀ a, (f a).Each R) : (c >>= f).Each R := by
  induction c with
  | done a => exact hf a
  | step ready act next ih => exact fun s hrdy => ⟨(hc s hrdy).1, ih s (hc s hrdy).2⟩

lemma Each.mono {R' : σ → σ → Prop} (hc : c.Each R) (h : ∀ s s', R s s' → R' s s') : c.Each R' := by
  induction c with
  | done a => trivial
  | step ready act next ih => exact fun s hrdy => ⟨h _ _ (hc s hrdy).1, ih s (hc s hrdy).2⟩

/-- A task all of whose sections stay within a preorder stays within it. -/
lemma Each.returns (hrefl : ∀ s, R s s) (htra : ∀ {a b c}, R a b → R b c → R a c) (hc : c.Each R)
    (s : σ) : c.Returns s fun _ s' => R s s' := by
  induction c generalizing s with
  | done a => exact returns_pure.mpr (hrefl s)
  | step ready act next ih =>
    intro r hr
    rw [run] at hr
    split_ifs at hr with hrdy
    exact htra (hc s hrdy).1 (ih s (hc s hrdy).2 (act s) r hr)

end Each

/-- The task never waits, and every section of it stays within `R`. -/
def Prompt (R : σ → σ → Prop) : Co σ α → Prop
  | done _ => True
  | step ready act next => ∀ s, ready s = true ∧ R s (act s) ∧ (next s).Prompt R

section Prompt

variable {R : σ → σ → Prop} {c : Co σ α}

lemma prompt_pure {a : α} : (pure a : Co σ α).Prompt R := trivial

lemma prompt_act {f : σ → α × σ} (h : ∀ s, R s (f s).2) : (act f).Prompt R :=
  fun s => ⟨rfl, h s, trivial⟩

lemma Prompt.bind {f : α → Co σ β} (hc : c.Prompt R) (hf : ∀ a, (f a).Prompt R) :
    (c >>= f).Prompt R := by
  induction c with
  | done a => exact hf a
  | step ready act next ih => exact fun s => ⟨(hc s).1, (hc s).2.1, ih s (hc s).2.2⟩

lemma Prompt.each (hc : c.Prompt R) : c.Each R := by
  induction c with
  | done a => trivial
  | step ready act next ih => exact fun s _ => ⟨(hc s).2.1, ih s (hc s).2.2⟩

/-- A task that never waits returns. -/
lemma Prompt.run (hc : c.Prompt R) (s : σ) : ∃ r, c.run s = some r := by
  induction c generalizing s with
  | done a => exact ⟨(a, s), rfl⟩
  | step ready act next ih =>
    obtain ⟨r, hr⟩ := ih s (hc s).2.2 (act s)
    exact ⟨r, by rw [Co.run, if_pos (hc s).1, hr]⟩

end Prompt

end Co

/-! ## Interleavings -/

/-- Tasks on one shared state. -/
structure Pool (σ ι α : Type) where
  state : σ
  task : ι → Co σ α

namespace Pool

variable {ι : Type} [DecidableEq ι]

/-- Task `i` runs its next section, if it has one and needs not wait. -/
def step (p : Pool σ ι α) (i : ι) : Option (Pool σ ι α) :=
  match p.task i with
  | .done _ => none
  | .step ready act next =>
    if ready p.state then some ⟨act p.state, Function.update p.task i (next p.state)⟩ else none

/-- The tasks named by the schedule run one section each. -/
def run (p : Pool σ ι α) : List ι → Option (Pool σ ι α)
  | [] => some p
  | i :: rest => (p.step i).bind fun q => q.run rest

/-- The same, stopping in front of a section whose effect does not meet `c`. -/
def runIf (c : σ → σ → Bool) (p : Pool σ ι α) : List ι → Option (Pool σ ι α)
  | [] => some p
  | i :: rest => (p.step i).bind fun q => if c p.state q.state then q.runIf c rest else none

/-- `q` is reached from `p` by sections whose effects meet `C`. -/
def Reach (C : σ → σ → Prop) : Pool σ ι α → Pool σ ι α → Prop :=
  Relation.ReflTransGen fun p q => ∃ i, p.step i = some q ∧ C p.state q.state

lemma step_eq_some {p q : Pool σ ι α} {i : ι} (h : p.step i = some q) :
    ∃ ready act next, p.task i = .step ready act next ∧ ready p.state = true ∧
      q = ⟨act p.state, Function.update p.task i (next p.state)⟩ := by
  rw [step] at h
  split at h
  · simp at h
  · next ready act next htask =>
      split_ifs at h with hrdy
      exact ⟨ready, act, next, htask, hrdy, (some.inj h).symm⟩

lemma step_task_of_ne {p q : Pool σ ι α} {i j : ι} (h : p.step i = some q) (hj : j ≠ i) :
    q.task j = p.task j := by
  obtain ⟨ready, act, next, -, -, rfl⟩ := step_eq_some h
  exact Function.update_of_ne hj _ _

variable {schedule : List ι}

/-- A schedule that can be carried out under a condition is one that can be carried out. -/
lemma run_of_runIf {c : σ → σ → Bool} {p q : Pool σ ι α}
    (h : p.runIf c schedule = some q) : p.run schedule = some q := by
  induction schedule generalizing p with
  | nil => exact h
  | cons i rest ih =>
    obtain ⟨r, hr, hq⟩ := bind_eq_some_iff.mp h
    split_ifs at hq with hc
    exact bind_eq_some_iff.mpr ⟨r, hr, ih hq⟩

/-- A schedule that can be carried out reaches its last pool. -/
lemma reach_of_runIf {c : σ → σ → Bool} {C : σ → σ → Prop} (hc : ∀ s s', c s s' = true → C s s')
    {p q : Pool σ ι α} (h : p.runIf c schedule = some q) : Reach C p q := by
  induction schedule generalizing p with
  | nil => exact some.inj h ▸ Relation.ReflTransGen.refl
  | cons i rest ih =>
    obtain ⟨r, hr, hq⟩ := bind_eq_some_iff.mp h
    split_ifs at hq with hpr
    exact Relation.ReflTransGen.head ⟨i, hr, hc _ _ hpr⟩ (ih hq)

end Pool

/-! ## Rely and guarantee -/

namespace Co

/-- The task `c`, started in `s` and interleaved with steps within `R`, keeps `I`, makes only steps
within `G`, and returns with `Q`.  Only steps that meet the side condition `C` are considered. -/
def Safe (I : σ → Prop) (R G C : σ → σ → Prop) (Q : α → σ → Prop) : Co σ α → σ → Prop
  | done a, s => Q a s
  | step ready act next, s => ∀ s', R s s' → I s' → ready s' = true → C s' (act s') →
      I (act s') ∧ G s' (act s') ∧ Safe I R G C Q (next s') (act s')

/-- A predicate that steps within `R` cannot falsify. -/
def Stable (I : σ → Prop) (R : σ → σ → Prop) (P : σ → Prop) : Prop :=
  ∀ s s', P s → R s s' → I s' → P s'

variable {I : σ → Prop} {R G C : σ → σ → Prop} {Q : α → σ → Prop} {s s' : σ} {c : Co σ α}

/-- Safety is not lost while the others run. -/
lemma Safe.stable (hR : ∀ {a b c}, R a b → R b c → R a c) (hQ : ∀ a, Stable I R (Q a))
    (h : Safe I R G C Q c s) (hs : R s s') (hI : I s') : Safe I R G C Q c s' := by
  cases c with
  | done a => exact hQ a s s' h hs hI
  | step ready act next => exact fun s'' hs'' => h s'' (hR hs hs'')

section

variable (h : Safe I R G C Q c s)
include h

/-- The sequencing rule. -/
lemma Safe.bind {P : β → σ → Prop} {f : α → Co σ β} (hI : I s)
    (hf : ∀ a s, I s → Q a s → Safe I R G C P (f a) s) : Safe I R G C P (c >>= f) s := by
  induction c generalizing s with
  | done a => exact hf a s hI h
  | step ready act next ih =>
    intro s' hs hI' hrdy hC
    obtain ⟨hI'', hG, hnx⟩ := h s' hs hI' hrdy hC
    exact ⟨hI'', hG, ih s' hnx hI''⟩

/-- The rule of consequence, with a fact that no step of anybody falsifies. -/
lemma Safe.along {P : α → σ → Prop} {X : σ → Prop} (hX : X s) (hR : Stable I R X)
    (hG : ∀ s s', X s → G s s' → I s' → X s') (hP : ∀ a s, X s → Q a s → P a s) :
    Safe I R G C P c s := by
  induction c generalizing s with
  | done a => exact hP a s hX h
  | step ready act next ih =>
    intro s' hs hI' hrdy hC
    obtain ⟨hI'', hG', hnx⟩ := h s' hs hI' hrdy hC
    exact ⟨hI'', hG', ih s' hnx (hG s' _ (hR s s' hX hs hI') hG' hI'')⟩

/-- The rule of consequence. -/
lemma Safe.mono {P : α → σ → Prop} (hI : I s) (hP : ∀ a s, I s → Q a s → P a s) :
    Safe I R G C P c s :=
  h.along hI (fun _ _ _ _ hI => hI) (fun _ _ _ _ hI => hI) hP

lemma Safe.weaken {P : α → σ → Prop} (hP : ∀ a s, Q a s → P a s) : Safe I R G C P c s :=
  h.along trivial (fun _ _ _ _ _ => trivial) (fun _ _ _ _ _ => trivial) fun a s _ => hP a s

/-- The frame rule. -/
lemma Safe.carry {X : σ → Prop} (hX : X s) (hR : Stable I R X) (hG : ∀ s s', X s → G s s' → X s') :
    Safe I R G C (fun a s => Q a s ∧ X s) c s :=
  h.along hX hR (fun s s' hX hG' _ => hG s s' hX hG') fun _ _ hX hQ => ⟨hQ, hX⟩

end

lemma Safe.pure {a : α} (h : Q a s) : Safe I R G C Q (pure a : Co σ α) s := h

/-- The rule for one section, entered with a stable `P`. -/
lemma Safe.await {P : σ → Prop} {ready : σ → Bool} {f : σ → α × σ} (hP : Stable I R P) (h : P s)
    (hf : ∀ s, I s → P s → ready s = true → C s (f s).2 →
      I (f s).2 ∧ G s (f s).2 ∧ Q (f s).1 (f s).2) : Safe I R G C Q (await ready f) s :=
  fun s' hs hI' hrdy hC => hf s' hI' (hP s s' h hs hI') hrdy hC

lemma Safe.act {P : σ → Prop} {f : σ → α × σ} (hP : Stable I R P) (h : P s)
    (hf : ∀ s, I s → P s → C s (f s).2 → I (f s).2 ∧ G s (f s).2 ∧ Q (f s).1 (f s).2) :
    Safe I R G C Q (act f) s :=
  Safe.await hP h fun s hI hP' _ hC => hf s hI hP' hC

/-- A task that is safe among others is safe alone. -/
lemma Safe.of_run (hR : ∀ s, R s s) (hC : ∀ s s', C s s') (h : Safe I R G C Q c s) (hI : I s)
    {r : α × σ} (hr : c.run s = some r) : I r.2 ∧ Q r.1 r.2 := by
  induction c generalizing s with
  | done a =>
    cases hr
    exact ⟨hI, h⟩
  | step ready act next ih =>
    rw [run] at hr
    split_ifs at hr with hrdy
    obtain ⟨hI', -, hnx⟩ := h s (hR s) hI hrdy (hC _ _)
    exact ih s hnx hI' hr

end Co

/-- One section of a task that is safe. -/
lemma Pool.step_safe {ι : Type} [DecidableEq ι] {I : σ → Prop} {R G C : σ → σ → Prop}
    {Q : α → σ → Prop}
    {p q : Pool σ ι α} {i : ι} (h : Co.Safe I R G C Q (p.task i) p.state) (hR : R p.state p.state)
    (hI : I p.state) (hstp : p.step i = some q) (hC : C p.state q.state) :
    I q.state ∧ G p.state q.state ∧ Co.Safe I R G C Q (q.task i) q.state := by
  obtain ⟨ready, act, next, htask, hrdy, rfl⟩ := Pool.step_eq_some hstp
  rw [htask] at h
  obtain ⟨hI', hG, hnx⟩ := h p.state hR hI hrdy hC
  exact ⟨hI', hG, by simpa using hnx⟩

/-- **Rely and guarantee.**  Tasks each of which is safe against what the others guarantee keep the
invariant and stay safe in every interleaving. -/
lemma Pool.reach_safe {ι : Type} [DecidableEq ι] {I : σ → Prop} {R G : ι → σ → σ → Prop}
    {C : σ → σ → Prop} {Q : ι → α → σ → Prop} (hR : ∀ i {a b c}, R i a b → R i b c → R i a c)
    (hG : ∀ i j, i ≠ j → ∀ s s', I s → I s' → G i s s' → R j s s')
    (hQ : ∀ i a, Co.Stable I (R i) (Q i a)) {p q : Pool σ ι α} (hpq : Pool.Reach C p q)
    (hrefl : ∀ i s, R i s s) (hI : I p.state)
    (hp : ∀ i, Co.Safe I (R i) (G i) C (Q i) (p.task i) p.state) :
    I q.state ∧ ∀ i, Co.Safe I (R i) (G i) C (Q i) (q.task i) q.state := by
  induction hpq with
  | refl => exact ⟨hI, hp⟩
  | @tail q r _ hqr ih =>
    obtain ⟨hIq, hsafe⟩ := ih
    obtain ⟨i, hstp, hC⟩ := hqr
    obtain ⟨hIr, hGr, hnx⟩ := Pool.step_safe (hsafe i) (hrefl i _) hIq hstp hC
    refine ⟨hIr, fun j => ?_⟩
    by_cases hj : j = i
    · exact hj ▸ hnx
    · rw [Pool.step_task_of_ne hstp hj]
      exact (hsafe j).stable (hR j) (hQ j) (hG i j (Ne.symm hj) _ _ hIq hIr hGr) hIr

end ClioCore.Foundations
