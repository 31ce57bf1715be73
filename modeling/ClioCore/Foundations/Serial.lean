import Mathlib.Data.Option.Basic
import Mathlib.Tactic

/-!
# Commands carried out one after another

A system that completes each command before it takes the next.  A command may fail to return, and
then nothing comes after it.

* `runAll` — the state after a list of commands.
* `Meets` — every command meets a condition in the state it is issued in.
* `runAll_invariant` — what every such command keeps holds in the end.
* `meets_iff_forall_reached` — a condition that is exact for one command is exact for a run.
* `runAll_returns` — commands that return one by one return together.
* `answers` — what a system that always returns answers.
* `answers_eq_of_simulation` — two systems that simulate each other answer alike.
-/

namespace ClioCore.Foundations

open Option List

variable {σ τ ι ρ : Type}

/-- The state after the commands; none if one of them does not return. -/
def runAll (step : σ → ι → Option σ) (s : σ) : List ι → Option σ
  | [] => some s
  | c :: cs => (step s c).bind fun s' => runAll step s' cs

/-- Every command meets `ok` in the state it is issued in. -/
def Meets (step : σ → ι → Option σ) (ok : σ → ι → Prop) (s : σ) : List ι → Prop
  | [] => True
  | c :: cs => ok s c ∧ ∀ s' ∈ step s c, Meets step ok s' cs

instance decidableMeets (step : σ → ι → Option σ) (ok : σ → ι → Prop) [∀ s c, Decidable (ok s c)] :
    ∀ (cs : List ι) (s : σ), Decidable (Meets step ok s cs)
  | [], _ => .isTrue trivial
  | c :: cs, s =>
    have := decidableMeets step ok cs
    inferInstanceAs (Decidable (ok s c ∧ ∀ s' ∈ step s c, Meets step ok s' cs))

variable {step : σ → ι → Option σ} {ok : σ → ι → Prop}

/-- A condition that every command meets. -/
lemma meets_of_forall (h : ∀ s c, ok s c) : ∀ (cs : List ι) (s : σ), Meets step ok s cs
  | [], _ => trivial
  | c :: cs, s => ⟨h s c, fun s' _ => meets_of_forall h cs s'⟩

variable {s : σ} (P : σ → Prop) {cs : List ι}

/-- The invariant rule. -/
lemma runAll_invariant (hstp : ∀ s, ∀ c ∈ cs, ∀ s', P s → ok s c → step s c = some s' → P s')
    {s' : σ} (hs : P s) (hok : Meets step ok s cs) (h : runAll step s cs = some s') : P s' := by
  induction cs generalizing s with
  | nil => exact some.inj h ▸ hs
  | cons c cs ih =>
    obtain ⟨s1, hs1, hrs⟩ := bind_eq_some_iff.mp h
    have hkp : P s1 := hstp s c mem_cons_self s1 hs hok.1 hs1
    exact ih (fun s c hc => hstp s c (mem_cons_of_mem _ hc)) hkp (hok.2 s1 hs1) hrs

/-- **Exact conditions.**  If a command keeps `P` just when it meets `ok`, then all commands meet
`ok` just when `P` holds in every state on the way. -/
lemma meets_iff_forall_reached (I P : σ → Prop) (hI : ∀ s c s', I s → step s c = some s' → I s')
    (hP : ∀ s c s', I s → P s → step s c = some s' → (P s' ↔ ok s c))
    (hno : ∀ s c, step s c = none → ok s c) (hIs : I s) (hPs : P s) :
    Meets step ok s cs ↔ ∀ cs' s', cs' <+: cs → runAll step s cs' = some s' → P s' := by
  induction cs generalizing s with
  | nil =>
    refine ⟨fun _ cs' s' hcs hrun => ?_, fun _ => trivial⟩
    obtain rfl := prefix_nil.mp hcs
    exact some.inj hrun ▸ hPs
  | cons c cs ih =>
    refine ⟨fun h cs' s' hcs hrun => ?_, fun h => ⟨?_, fun s1 hs1 => ?_⟩⟩
    · cases cs' with
      | nil => exact some.inj hrun ▸ hPs
      | cons c' cs' =>
        obtain ⟨rfl, hcs'⟩ := cons_prefix_cons.mp hcs
        obtain ⟨s1, hs1, hrs⟩ := bind_eq_some_iff.mp hrun
        have hkp : P s1 := (hP s c' s1 hIs hPs hs1).mpr h.1
        exact (ih (hI s c' s1 hIs hs1) hkp).mp (h.2 s1 hs1) cs' s' hcs' hrs
    · cases hs1 : step s c with
      | none => exact hno s c hs1
      | some s1 =>
        refine (hP s c s1 hIs hPs hs1).mp (h [c] s1 ?_ ?_)
        · exact cons_prefix_cons.mpr ⟨rfl, nil_prefix⟩
        · rw [runAll, hs1, bind_some, runAll]
    · have hkp : P s1 := by
        refine h [c] s1 (cons_prefix_cons.mpr ⟨rfl, nil_prefix⟩) ?_
        rw [runAll, mem_def.mp hs1, bind_some, runAll]
      refine (ih (hI s c s1 hIs hs1) hkp).mpr fun cs' s' hcs' hrun => ?_
      refine h (c :: cs') s' (cons_prefix_cons.mpr ⟨rfl, hcs'⟩) ?_
      rw [runAll, mem_def.mp hs1, bind_some, hrun]

/-- Commands that return as long as they meet `ok` return one after another. -/
lemma runAll_returns (hstp : ∀ s c, P s → ok s c → ∃ s', step s c = some s' ∧ P s')
    (hs : P s) (hok : Meets step ok s cs) :
    ∃ s', runAll step s cs = some s' ∧ P s' := by
  induction cs generalizing s with
  | nil => exact ⟨s, rfl, hs⟩
  | cons c cs ih =>
    obtain ⟨s1, hs1, hkp⟩ := hstp s c hs hok.1
    obtain ⟨s', hrun, hs'⟩ := ih hkp (hok.2 s1 hs1)
    exact ⟨s', by rw [runAll, hs1, bind_some, hrun], hs'⟩

/-- The answers to the commands. -/
def answers (step : σ → ι → ρ × σ) (s : σ) : List ι → List ρ
  | [] => []
  | c :: cs => (step s c).1 :: answers step (step s c).2 cs

/-- **Simulation.**  If related states answer a command alike and stay related, then they answer all
commands alike.  Every command meets `ok` in the state of the second system it is issued in. -/
lemma answers_eq_of_simulation {step : σ → ι → ρ × σ} {step' : τ → ι → ρ × τ} {ok : τ → ι → Prop}
    (R : σ → τ → Prop) (hstp : ∀ s t c, R s t → ok t c →
      (step s c).1 = (step' t c).1 ∧ R (step s c).2 (step' t c).2)
    {t : τ} (hs : R s t)
    (hok : Meets (fun t c => some (step' t c).2) ok t cs) :
    answers step s cs = answers step' t cs := by
  induction cs generalizing s t with
  | nil => rfl
  | cons c cs ih =>
    obtain ⟨hans, hrel⟩ := hstp s t c hs hok.1
    rw [answers, answers, hans, ih hrel (hok.2 _ rfl)]

end ClioCore.Foundations
