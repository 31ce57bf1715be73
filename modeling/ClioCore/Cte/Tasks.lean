import ClioCore.Cte.Tokens

/-!
# Whole tasks

Every task of `BlobTasks` from its first section to its last, among any other tasks that keep the
discipline.

A task looks a blob up (`Known`), waits for its token and works under it (`Held`), settles the books
(`Over`) and gives the token back (`Done`).  An `Argument` says what is claimed in each of these
phases on top of the discipline, and what makes the claim survive the sections that all tasks share.
What is special to a task, such as the end of a put, stands as a hypothesis of the lemma on that
task.
-/

namespace ClioCore.Cte

open Foundations Function Ledger BlobInfo
open SafeBdev (PoolId)

/-! ## Arguments -/

/-- Task `t` holds no token but perhaps that of `o`. -/
def Others (t : TaskId) (o : ObjId) (s : State) : Prop :=
  ∀ o', o' ≠ o → (s.objs o').writeOwner ≠ some t

/-- What is claimed of the task `t` that works on the blob `key`, phase by phase. -/
structure Argument (t : TaskId) (key : BlobKey) extends Rules where
  /-- Before the lookup. -/
  Start : State → Prop
  /-- The object found. -/
  Known : ObjId → State → Prop
  /-- The object whose token has been taken, and what it was and held then. -/
  Held : ObjId → BlobInfo → Bytes → State → Prop
  /-- The object whose books have been settled, the return code, what the object is and holds. -/
  Over : ObjId → ℕ → BlobInfo → Bytes → State → Prop
  /-- The task has returned. -/
  Done : ℕ → State → Prop
  start_rely : ∀ {s s'}, Rely t s s' → K s s' → Start s → Start s'
  known_rely : ∀ {o s s'}, Rely t s s' → K s s' → Known o s → Known o s'
  held_rely : ∀ {o b bytes s s'}, (s.objs o).writeOwner = some t → Rely t s s' → K s s' →
    Held o b bytes s → Held o b bytes s'
  held_local : ∀ {o b bytes s s'}, Local t o key s s' → Held o b bytes s → Held o b bytes s'
  inv_held : ∀ {o b bytes s s'}, Inv s → Local t o key s s' → Held o b bytes s → J s → J s'
  over_rely : ∀ {o rc b bytes s s'}, (s.objs o).writeOwner = some t → Rely t s s' → K s s' →
    Over o rc b bytes s → Over o rc b bytes s'
  guar_local : ∀ {o s s'}, Local t o key s s' → L s s'
  guar_refl : ∀ s, L s s
  found : ∀ {o s}, Inv s → J s → Start s → s.blobs.lookup key = some o → Known o s
  acquire : ∀ {o s}, Inv s → J s → Known o s → (s.objs o).writeOwner = none →
    C s (takeToken t o s).2 → J (takeToken t o s).2 ∧ L s (takeToken t o s).2 ∧
      Held o ((s.objs o).heldBy t) (bytesIn s.mem (s.objs o)) (takeToken t o s).2
  undrain : ∀ {o rc b bytes b' bytes' s}, Inv s → J s → Mine t o b' bytes' s → Over o rc b bytes s →
    J (endDrainReaders o s).2 ∧ L s (endDrainReaders o s).2 ∧
    Over o rc b bytes (endDrainReaders o s).2
  release : ∀ {o rc b bytes s}, Inv s → J s → Mine t o b bytes s → InOrder b →
    Over o rc b bytes s → J (unlockWrite t o s).2 ∧ L s (unlockWrite t o s).2 ∧
      Done rc (unlockWrite t o s).2

namespace Argument

variable {t : TaskId} {key : BlobKey} (A : Argument t key) {α : Type} {s : State} {o : ObjId}
  {b : BlobInfo} {bytes : Bytes}

/-- The task keeps discipline, makes good what the argument claims and returns with `Q`. -/
def Safe (Q : α → State → Prop) (c : Co State α) (s : State) : Prop :=
  Co.Safe (fun s => Inv s ∧ A.J s) (fun s s' => Rely t s s' ∧ A.K s s')
    (fun s s' => Guar t s s' ∧ A.L s s') A.C Q c s

lemma others_local {t : TaskId} {o : ObjId} {key : BlobKey} {s s' : State}
    (hl : Local t o key s s') (h : Others t o s) : Others t o s' := fun o' ho' => by
  rw [hl.objs o' ho']
  exact h o' ho'

lemma others_rely {t : TaskId} {o : ObjId} {s s' : State} (hR : Rely t s s') (h : Others t o s) :
    Others t o s' := fun o' ho' he => h o' ho' (hR.tokens o' he)

/-- The setting of the work under the token. -/
def holding (o : ObjId) (b : BlobInfo) (bytes : Bytes) : Setting t o key where
  toRules := A.toRules
  F s := A.Held o b bytes s ∧ Others t o s
  inv_local hI hl hF hJ := A.inv_held hI hl hF.1 hJ
  guar_local hl := A.guar_local hl
  fact_local hl hF := ⟨A.held_local hl hF.1, others_local hl hF.2⟩
  fact_rely ho hR hK hF := ⟨A.held_rely ho hR hK hF.1, others_rely hR hF.2⟩

/-- The work on the object is over and the token can be given back. -/
def Settles (o : ObjId) (rc : ℕ) (s : State) : Prop :=
  ∃ b bytes, Mine t o b bytes s ∧ InOrder b ∧ A.Over o rc b bytes s ∧ Others t o s

variable {A}

/-- **The stretch under the token**, from the wait for it to giving it back. -/
lemma locked_safe {body : Co State α} (out : α → ℕ) (hI : Inv s) (hJ : A.J s) (hil : Idle t s)
    (ho : o < s.nextObj) (hkn : A.Known o s)
    (hbody : ∀ b bytes s, (A.holding o b bytes).Ready s → Mine t o b bytes s → InOrder b →
      (A.holding o b bytes).Ends (fun a s => A.Settles o (out a) s) body s) :
    A.Safe (fun r s => A.Done r.rc s ∧ Idle t s) (do
        lockWrite t o
        let a ← body
        Co.act (unlockWrite t o)
        pure (reply (out a))) s := by
  refine .bind (Q := fun _ s => ∃ b bytes, (A.holding o b bytes).F s ∧ Mine t o b bytes s ∧
    InOrder b) (.await (P := fun s => A.Known o s ∧ Idle t s ∧ o < s.nextObj) ?_
    ⟨hkn, hil, ho⟩ ?_) ⟨hI, hJ⟩ ?_
  · rintro s s' ⟨hk, hi, ho⟩ ⟨hR, hK⟩ -
    exact ⟨A.known_rely hR hK hk, hi.stable hR, lt_of_lt_of_le ho hR.nextObj⟩
  · rintro s ⟨hI, hJ⟩ ⟨hk, hi, ho⟩ hrdy hC
    have hfe : (s.objs o).writeOwner = none := by
      have hor : (s.objs o).writeOwner = none ∨ (s.objs o).writeOwner = some t := by
        simpa using hrdy
      exact hor.resolve_right (hi o)
    obtain ⟨hI', hG, hmi, hb⟩ := hI.takeToken ho hfe
    obtain ⟨hJ', hL, hhl⟩ := A.acquire hI hJ hk hfe hC
    refine ⟨⟨hI', hJ'⟩, ⟨hG, hL⟩, _, _, ⟨hhl, fun o' ho' => ?_⟩, hmi, hb⟩
    rw [(takeToken_touch t o s).objs o' ho']
    exact hi o'
  rintro _ s ⟨hI, hJ⟩ ⟨b, bytes, hF, hmi, hb⟩
  refine .bind (hbody b bytes s ⟨hI, hJ, hF⟩ hmi hb) ⟨hI, hJ⟩ ?_
  rintro a s ⟨hI, hJ⟩ ⟨b', bytes', hmi, hb', hov, hoths⟩
  refine .bind (Q := fun _ s => A.Done (out a) s ∧ Idle t s) (.act
    (P := fun s => Mine t o b' bytes' s ∧ A.Over o (out a) b' bytes' s ∧ Others t o s) ?_
    ⟨hmi, hov, hoths⟩ ?_) ⟨hI, hJ⟩ ?_
  · rintro s s' ⟨hmi, hov, hoths⟩ ⟨hR, hK⟩ -
    exact ⟨hmi.stable hR, A.over_rely hmi.writeOwner hR hK hov, others_rely hR hoths⟩
  · rintro s ⟨hI, hJ⟩ ⟨hmi, hov, hoths⟩ -
    obtain ⟨hI', hG⟩ := hmi.unlockWrite hI hb'
    obtain ⟨hJ', hL, hdn⟩ := A.release hI hJ hmi hb' hov
    refine ⟨⟨hI', hJ'⟩, ⟨hG, hL⟩, hdn, fun o' ho' => ?_⟩
    by_cases hne : o' = o
    · subst hne
      rw [hmi.unlockWrite_objs] at ho'
      simp [released] at ho'
    · rw [(unlockWrite_touch t o s).objs o' hne] at ho'
      exact hoths o' hne ho'
  · exact fun _ s _ h => .pure h

lemma lookup_of_checkBlobExists {s : State} {key : BlobKey} {o : ObjId}
    (h : s.checkBlobExists key = some o) : s.blobs.lookup key = some o := by
  rw [State.checkBlobExists] at h
  split_ifs at h
  exact h

/-- A section that only looks, before the task has a token. -/
lemma look_safe {f : State → α} (hst : A.Start s) (hil : Idle t s) :
    A.Safe (fun a s => A.Start s ∧ Idle t s ∧ a = f s) (Co.act fun s => (f s, s)) s := by
  refine .act (P := fun s => A.Start s ∧ Idle t s) ?_ ⟨hst, hil⟩ ?_
  · rintro s s' ⟨h, hi⟩ ⟨hR, hK⟩ -
    exact ⟨A.start_rely hR hK h, hi.stable hR⟩
  · rintro s hI ⟨h, hi⟩ -
    exact ⟨hI, ⟨⟨fun t' _ => .refl t' s, .refl s⟩, A.guar_refl s⟩, h, hi, rfl⟩

/-- A task that looks the blob up, works on it under the token and returns at once if there is none.
-/
lemma lookup_safe {body : ObjId → Co State α} (out : α → ℕ) {missing : ℕ} (hI : Inv s) (hJ : A.J s)
    (hst : A.Start s) (hil : Idle t s)
    (hmis : ∀ s, Inv s → A.J s → A.Start s → s.checkBlobExists key = none → A.Done missing s)
    (hbody : ∀ o b bytes s, (A.holding o b bytes).Ready s → Mine t o b bytes s → InOrder b →
      (A.holding o b bytes).Ends (fun a s => A.Settles o (out a) s) (body o) s) :
    A.Safe (fun r s => A.Done r.rc s ∧ Idle t s) (do
        let found ← Co.act fun s => (s.checkBlobExists key, s)
        match found with
        | none => pure (reply missing)
        | some o => do
            lockWrite t o
            let a ← body o
            Co.act (unlockWrite t o)
            pure (reply (out a))) s := by
  refine .bind (look_safe hst hil) ⟨hI, hJ⟩ ?_
  rintro found s ⟨hI, hJ⟩ ⟨hst, hil, hfd⟩
  cases found with
  | none => exact .pure ⟨hmis s hI hJ hst hfd.symm, hil⟩
  | some o =>
    have hlk := lookup_of_checkBlobExists hfd.symm
    exact locked_safe out hI hJ hil (hI.mapped key o hlk) (A.found hI hJ hst hlk) (hbody o)

/-! ## `PutBlob` -/

end Argument

variable (wid : ℕ) (key : BlobKey) (req : PutBlobTask)

/-- What the end of a put makes of the object. -/
def PutBlobTask.finish (score : ℚ) (b : BlobInfo) : BlobInfo :=
  { b with
    transformFlags := if req.context.transformFlags ≠ 0 then
      b.transformFlags ||| (1 ||| req.context.transformFlags) else b.transformFlags
    score := score }

lemma finishPut_books (o : ObjId) (score : ℚ) (oldSize : ℕ) (s : State) :
    Books o s (finishPut wid req o score oldSize s).2 ∧
      (finishPut wid req o score oldSize s).2.objs =
      update s.objs o (req.finish score (s.objs o)) := by
  set marked := s.modifyObj o fun b => req.finish score b
  set logged := if (req.finish score (s.objs o)).transformFlags ≠ (s.objs o).transformFlags then
    marked.logBlob wid (.setBlobTransform req.key (req.finish score (s.objs o)).transformFlags)
    else marked with hlog
  set newSize := (s.objs o).layout.totalSizeCache
  set sized := (seedTag req.tagId logged).modifyTagSize req.tagId (addDelta oldSize newSize)
  have hrun : (finishPut wid req o score oldSize s).2 = { sized.mirrorBlobToShm req.key with
      hist := { marked.hist with booked := update marked.hist.booked o newSize } } := rfl
  have hldg : Ledger marked (sized.mirrorBlobToShm req.key) :=
    (((ite (logBlob _ _ _) (refl _)).trans (Ledger.seedTag _ _)).trans
      (modifyTagSize _ _ _)).trans (mirrorBlobToShm _ _)
  have hbk := hldg.books (o := o) newSize
  exact ⟨⟨hbk.live, hbk.mem, hbk.nextObj, hbk.mapped, hbk.reading, hbk.fault,
    hbk.leaked, hbk.freed, hbk.booked⟩, hldg.objs⟩

/-- A put that passes its checks names a blob. -/
lemma PutBlobTask.name_ne {req : PutBlobTask} {r : ℕ × ℕ} (h : req.range = .ok r) :
    req.key.name ≠ "" := by
  rw [range] at h
  split at h
  · simp at h
  · split_ifs at h with _ _ hnm
    exact hnm

/-- What the lookup of a put can do: refuse the score, find the blob, or create it. -/
lemma lookupForPut_cases {req : PutBlobTask} (hnm : req.key.name ≠ "") (s : State) :
    lookupForPut wid req s = (.error 5, s) ∨
    (∃ o score, s.blobs.lookup req.key = some o ∧ score ≤ 1 ∧
        lookupForPut wid req s = (.ok (o, score), s)) ∨
      ∃ score, s.blobs.lookup req.key = none ∧ score ≤ 1 ∧
        lookupForPut wid req s = (.ok (s.nextObj, score),
          (createNewBlob wid req.key score s).2) := by
  have hlk : s.checkBlobExists req.key = s.blobs.lookup req.key := if_neg hnm
  rw [lookupForPut, hlk]
  cases hk : s.blobs.lookup req.key with
  | some o =>
    simp only
    generalize (if req.score < 0 then (s.objs o).score else req.score) = score
    by_cases hsco : 1 < score
    · rw [if_pos hsco]
      exact .inl rfl
    · rw [if_neg hsco]
      exact .inr (.inl ⟨o, score, rfl, not_lt.mp hsco, rfl⟩)
  | none =>
    simp only
    generalize (if req.score < 0 then 1 else req.score) = score
    by_cases hsco : 1 < score
    · rw [if_pos hsco]
      exact .inl rfl
    · rw [if_neg hsco]
      exact .inr (.inr ⟨score, trivial, not_lt.mp hsco, rfl⟩)

namespace Argument

variable {t : TaskId} {key : BlobKey} {A : Argument t key} {α : Type} {s : State} {o : ObjId}
  {b : BlobInfo} {bytes : Bytes}

/-- What a task has to show at the end of the work under a token. -/
lemma settles_of_held {rc : ℕ} {b' : BlobInfo} {bytes' : Bytes}
    (hS : (A.holding o b bytes).Ready s) (hmi : Mine t o b' bytes' s) (hb' : InOrder b')
    (hov : A.Over o rc b' bytes' s) : A.Settles o rc s :=
  ⟨b', bytes', hmi, hb', hov, hS.fact.2⟩

/-- From `s` to `s'` the books of `o` are settled. -/
abbrev Closes (A : Argument t key) (o : ObjId) (b : BlobInfo) (bytes : Bytes)
    (s s' : State) : Prop :=
  A.J s' ∧ A.L s s' ∧ A.Over o 0 b bytes s'

/-- A section that settles the books of the object worked on. -/
lemma settle_safe {f : State → Unit × State} {g : BlobInfo → BlobInfo} {b1 : BlobInfo}
    {bytes1 : Bytes} (b2 : BlobInfo) (hF : (A.holding o b bytes).F s) (hmi : Mine t o b1 bytes1 s)
    (hbk : ∀ s, Books o s (f s).2 ∧ (f s).2.objs = update s.objs o (g (s.objs o)))
    (hg : ∀ s, Mine t o b1 bytes1 s → Reshapes g b1 ∧ bytesIn s.mem (g b1) = bytes1)
    (hcl : ∀ s, Inv s → A.J s → A.Held o b bytes s → Mine t o b1 bytes1 s →
      A.Closes o b2 bytes1 s (f s).2) :
    A.Safe (fun _ s => Mine t o (g b1) bytes1 s ∧ A.Over o 0 b2 bytes1 s ∧ Others t o s)
    (Co.act f) s := by
  refine .act (P := fun s => Mine t o b1 bytes1 s ∧ (A.holding o b bytes).F s) ?_ ⟨hmi, hF⟩ ?_
  · rintro s s' ⟨hmi, hF⟩ ⟨hR, hK⟩ -
    exact ⟨hmi.stable hR, (A.holding o b bytes).fact_rely hmi.writeOwner hR hK hF⟩
  · rintro s ⟨hI, hJ⟩ ⟨hmi, hF⟩ -
    obtain ⟨hJ', hL, hov⟩ := hcl s hI hJ hF.1 hmi
    obtain ⟨hI', hG, hmi'⟩ := hmi.settle hI (hg s hmi).1 (hbk s).1 (hbk s).2
    rw [(hg s hmi).2] at hmi'
    refine ⟨⟨hI', hJ'⟩, ⟨hG, hL⟩, hmi', hov, fun o' ho' => ?_⟩
    rw [(hbk s).2, update_of_ne ho']
    exact hF.2 o' ho'

/-- Nothing has to be settled as long as the primary is what it was. -/
def KeepsPrimary (A : Argument t key) : Prop :=
  ∀ o b bytes rc b' bytes' s, Inv s → A.J s → A.Held o b bytes s → Mine t o b' bytes' s →
    InOrder b' → b'.primary = b.primary → bytes'.main = bytes.main → A.Over o rc b' bytes' s

/-- A fault on record excuses a failure. -/
def Excuses (A : Argument t key) : Prop :=
  ∀ o b bytes rc b' bytes' s, rc ≠ 0 → Inv s → A.J s → A.Held o b bytes s →
    Mine t o b' bytes' s → InOrder b' → s.hist.fault = true → A.Over o rc b' bytes' s

/-- What a put knows once it has looked its blob up. -/
def Found (A : Argument t key) (s : State) : Except ℕ (ObjId × ℚ) → Prop
  | .error rc => A.Done rc s
  | .ok (o, score) => o < s.nextObj ∧ A.Known o s ∧ score ≤ 1

/-- **`PutBlob`.** -/
lemma putBlob_safe (wid : ℕ) (req : PutBlobTask) {A : Argument t req.key} (hI : Inv s) (hJ : A.J s)
    (hst : A.Start s) (hil : Idle t s)
    (hear : ∀ rc s, Inv s → A.J s → A.Start s →
      req.range = .error rc ∨ (lookupForPut wid req s).1 = .error rc → A.Done rc s)
    (hcre : ∀ score s, Inv s → A.J s → A.Start s → s.blobs.lookup req.key = none →
      A.J (createNewBlob wid req.key score s).2 ∧ A.L s (createNewBlob wid req.key score s).2 ∧
        A.Known s.nextObj (createNewBlob wid req.key score s).2)
    (hkp : A.KeepsPrimary) (hfa : A.Excuses)
    (hdn : ∀ o b bytes offset size score b' bytes' s, req.range = .ok (offset, size) → score ≤ 1 →
      Inv s → A.J s → A.Held o b bytes s → PutDone req t o b bytes offset size b' bytes' s →
      A.Closes o (req.finish score b') bytes' s
        (finishPut wid req o score b.layout.totalSizeCache s).2) :
    A.Safe (fun r s => A.Done r.rc s ∧ Idle t s) (putBlob wid t req) s := by
  rw [putBlob]
  cases hrg : req.range with
  | error rc => exact .pure ⟨hear rc s hI hJ hst (.inl hrg), hil⟩
  | ok range =>
  obtain ⟨offset, size⟩ := range
  refine .bind (Q := fun found s => Idle t s ∧ A.Found s found)
    (.act (P := fun s => A.Start s ∧ Idle t s) ?_ ⟨hst, hil⟩ ?_) ⟨hI, hJ⟩ ?_
  · rintro s s' ⟨h, hi⟩ ⟨hR, hK⟩ -
    exact ⟨A.start_rely hR hK h, hi.stable hR⟩
  · rintro s ⟨hI, hJ⟩ ⟨hst, hil⟩ -
    have hstay : Guar t s s ∧ A.L s s :=
      ⟨⟨fun t' _ => .refl t' s, .refl s⟩, A.guar_refl s⟩
    rcases lookupForPut_cases wid (PutBlobTask.name_ne hrg) s with hrun |
      ⟨o, score, hk, hsco, hrun⟩ | ⟨score, hk, hsco, hrun⟩
    · rw [hrun]
      exact ⟨⟨hI, hJ⟩, hstay, hil, hear 5 s hI hJ hst (.inr (by rw [hrun]))⟩
    · rw [hrun]
      exact ⟨⟨hI, hJ⟩, hstay, hil, hI.mapped _ _ hk, A.found hI hJ hst hk, hsco⟩
    · rw [hrun]
      obtain ⟨hI', hG⟩ := hI.createNewBlob wid req.key score
      obtain ⟨hJ', hL, hkn⟩ := hcre score s hI hJ hst hk
      refine ⟨⟨hI', hJ'⟩, ⟨hG, hL⟩, fun o ho => ?_, Nat.lt_succ_self _, hkn, hsco⟩
      by_cases hne : o = s.nextObj
      · subst hne
        have hobj : (createNewBlob wid req.key score s).2.objs s.nextObj
            = .new req.key.name score := update_self ..
        rw [hobj] at ho
        simp [new] at ho
      · have hobj : (createNewBlob wid req.key score s).2.objs o = s.objs o :=
          update_of_ne hne _ _
        rw [hobj] at ho
        exact hil o ho
  · rintro found s ⟨hI, hJ⟩ ⟨hil, hfd⟩
    cases found with
    | error rc => exact .pure ⟨hfd, hil⟩
    | ok found =>
      obtain ⟨o, score⟩ := found
      obtain ⟨ho, hkn, hsco⟩ := hfd
      refine locked_safe (fun rc => rc) hI hJ hil ho hkn fun b bytes s hS hmi hb => ?_
      refine putLocked_safe wid req offset size score hS hmi hb ?_ ?_ ?_
      · intro rc b' bytes' s hrc hS hmi hb' hflt
        exact settles_of_held hS hmi hb'
          (hfa o b bytes rc b' bytes' s hrc hS.inv hS.extra hS.fact.1 hmi hb' hflt)
      · intro b' bytes' s hS hput
        refine .weaken (settle_safe (req.finish score b') hS.fact hput.mine
          (finishPut_books wid req o score b.layout.totalSizeCache) (fun s h => ⟨⟨fun _ => rfl,
            fun _ => rfl, rfl, fun h => h, .refl _, h.holds.fits⟩, h.bytes⟩) ?_)
          (fun _ s h => ⟨_, _, h.1, ?_, h.2⟩)
        · intro s hI hJ hhl h
          exact hdn o b bytes offset size score b' bytes' s hrg hsco hI hJ hhl
            ⟨h, hput.inOrder, hput.primary, hput.content⟩
        · have hb' := hput.inOrder
          exact ⟨⟨hb'.sizes.main, hb'.sizes.replicas, hb'.sizes.staging⟩, hb'.staging, hb'.draining⟩
      · intro rc b' bytes' s hS hmi hb' hprim hmn
        exact settles_of_held hS hmi hb'
          (hkp o b bytes rc b' bytes' s hS.inv hS.extra hS.fact.1 hmi hb' hprim hmn)

/-! ## `TruncateBlob` and `DelBlob` -/

end Argument

lemma finishTruncate_books (o : ObjId) (oldSize : ℕ) (s : State) :
    Books o s (finishTruncate wid key o oldSize s).2 ∧
      (finishTruncate wid key o oldSize s).2.objs = update s.objs o (s.objs o) := by
  set newSize := (s.objs o).layout.totalSizeCache
  set sized := (s.mirrorBlobToShm key).modifyTagSize key.tag fun total =>
    if oldSize ≤ newSize then total + (newSize - oldSize) else total - (oldSize - newSize)
  set logged := if (s.objs o).layout.blocks ≠ [] then logLayout wid key o sized else sized
  have hldg : Ledger s logged :=
    ((mirrorBlobToShm _ _).trans (modifyTagSize _ _ _)).trans (ite (logBlob _ _ _) (refl _))
  exact ⟨hldg.books newSize, hldg.objs.trans (update_eq_self o s.objs).symm⟩

lemma finishDel_books (o : ObjId) (size : ℕ) (s : State) :
    Books o s (finishDel wid key o size s).2 ∧
      (finishDel wid key o size s).2.objs = update s.objs o (s.objs o) := by
  obtain ⟨infos, logs, shm, hsz⟩ := modifyTagSize s key.tag (· - size)
  have hrun : (finishDel wid key o size s).2 = { ({ s.modifyTagSize key.tag (· - size) with
          blobs := (s.modifyTagSize key.tag (· - size)).blobs.erase key }.eraseShm key).logBlob wid
            (.delBlob key) with
        hist := { s.hist with booked := update s.hist.booked o 0 } } := rfl
  rw [hrun, hsz]
  exact ⟨⟨rfl, rfl, rfl, fun k o' hk => (lookup_erase_eq_some.mp hk).2, rfl, rfl, rfl, rfl,
    fun o' ho' => update_of_ne ho' _ _⟩, (update_eq_self o s.objs).symm⟩

lemma finishDrop_books (o : ObjId) (newScore : ℚ) (size : ℕ) (s : State) :
    Books o s (finishDrop wid key o newScore size s).2 ∧
      (finishDrop wid key o newScore size s).2.objs =
      update s.objs o ((s.objs o).scored newScore) := by
  set marked := s.modifyObj o fun b => b.scored newScore
  set sized := marked.modifyTagSize key.tag (· - size)
  have hldg : Ledger marked ((sized.logBlob wid (.clearBlob key)).mirrorBlobToShm key) :=
    ((modifyTagSize _ _ _).trans (logBlob _ _ _)).trans (mirrorBlobToShm _ _)
  have hbk := hldg.books (o := o) 0
  exact ⟨⟨hbk.live, hbk.mem, hbk.nextObj, hbk.mapped, hbk.reading, hbk.fault,
    hbk.leaked, hbk.freed, hbk.booked⟩, hldg.objs⟩

lemma reshapes_id {b : BlobInfo} (hft : ∀ blk ∈ b.allBlocks, blk.size ≤ blk.capacity) :
    Reshapes (fun x => x) b :=
  ⟨fun _ => rfl, fun _ => rfl, rfl, fun h => h, List.Perm.refl _, hft⟩

namespace Argument

variable {t : TaskId} {key : BlobKey} {A : Argument t key} {α : Type} {s : State} {o : ObjId}
  {b : BlobInfo} {bytes : Bytes}

/-- The drain ends after the books have been settled. -/
lemma endDrain_safe {rc : ℕ} {b1 b2 : BlobInfo} (hmi : Mine t o b1 bytes s)
    (hov : A.Over o rc b2 bytes s) (hoths : Others t o s) (hb : b1.undrained = b2)
    (hb2 : InOrder b2) :
    A.Safe (fun _ s => A.Settles o rc s) (Co.act (endDrainReaders o)) s := by
  refine .act (P := fun s => Mine t o b1 bytes s ∧ A.Over o rc b2 bytes s ∧ Others t o s) ?_
    ⟨hmi, hov, hoths⟩ ?_
  · rintro s s' ⟨hmi, hov, hoths⟩ ⟨hR, hK⟩ -
    exact ⟨hmi.stable hR, A.over_rely hmi.writeOwner hR hK hov, others_rely hR hoths⟩
  · rintro s ⟨hI, hJ⟩ ⟨hmi, hov, hoths⟩ -
    obtain ⟨hsec, hmi'⟩ := hmi.endDrainReaders key hI
    obtain ⟨hJ', hL, hov'⟩ := A.undrain hI hJ hmi hov
    exact ⟨⟨hsec.inv, hJ'⟩, ⟨⟨fun _ ht' => hsec.frame.toFrame.rely ht', hsec.free⟩, hL⟩, b2, bytes,
      hb ▸ hmi', hb2, hov', others_local hsec.frame hoths⟩

section Tasks

variable (wid : ℕ) (hI : Inv s) (hJ : A.J s) (hst : A.Start s) (hil : Idle t s)
include hI hJ hst hil

/-- **`TruncateBlob`.** -/
lemma truncateBlob_safe (newSize : ℕ)
    (hear : ∀ rc s, Inv s → A.J s → A.Start s → s.checkBlobExists key = none → A.Done rc s)
    (hfa : A.Excuses) (hdn : ∀ o b bytes l content s, Inv s → A.J s →
      A.Held o b bytes s → InOrder b →
      Mine t o (b.setSlot .main l) (bytes.setSlot .main content) s → Sized l →
      (newSize < 2 ^ 64 → content = resized newSize bytes.main) →
      A.Closes o (b.setSlot .main l) (bytes.setSlot .main content) s
        (finishTruncate wid key o b.layout.totalSizeCache s).2) :
    A.Safe (fun r s => A.Done r.rc s ∧ Idle t s) (truncateBlob wid t key newSize) s := by
  rw [truncateBlob]
  split_ifs with hnm
  · exact .pure ⟨hear 1 s hI hJ hst (if_pos hnm), hil⟩
  refine lookup_safe (fun rc => rc) hI hJ hst hil (fun s => hear 0 s) fun o b bytes s hS hmi hb =>
    ?_
  refine truncateLocked_safe wid newSize hS hmi hb ?_ ?_
  · intro rc b' bytes' s hrc hS hmi hb' hflt
    exact settles_of_held hS hmi hb'
      (hfa o b bytes rc b' bytes' s hrc hS.inv hS.extra hS.fact.1 hmi hb' hflt)
  · intro l content s hS hmi hl hct
    refine .weaken (settle_safe (b.setSlot .main l) hS.fact hmi
      (finishTruncate_books wid key o b.layout.totalSizeCache)
      (fun s h => ⟨reshapes_id h.holds.fits, h.bytes⟩) ?_)
      (fun _ s h => ⟨_, _, h.1, hb.setMain hl, h.2⟩)
    intro s hI hJ hhl hmi
    exact hdn o b bytes l content s hI hJ hhl hb hmi hl hct

/-- **`DelBlob`.** -/
lemma delBlob_safe
    (hear : ∀ s, Inv s → A.J s → A.Start s → s.checkBlobExists key = none → A.Done 1 s)
    (hdn : ∀ o b bytes bytes' s, Inv s → A.J s → A.Held o b bytes s → InOrder b →
      Mine t o b.gutted.drained bytes' s →
      A.Closes o b.gutted bytes' s (finishDel wid key o b.layout.totalSizeCache s).2) :
    A.Safe (fun r s => A.Done r.rc s ∧ Idle t s) (delBlob wid t key) s := by
  refine lookup_safe (fun _ => 0) hI hJ hst hil hear fun o b bytes s hS hmi hb => ?_
  refine delLocked_safe wid hS hmi ?_
  intro bytes' s hS hmi
  refine Co.Safe.bind (settle_safe b.gutted hS.fact hmi
    (finishDel_books wid key o b.layout.totalSizeCache)
    (fun s h => ⟨reshapes_id h.holds.fits, h.bytes⟩) ?_) ⟨hS.inv, hS.extra⟩ ?_
  · intro s hI hJ hhl hmi
    exact hdn o b bytes bytes' s hI hJ hhl hb hmi
  · rintro _ s - ⟨hmi, hov, hoths⟩
    exact endDrain_safe hmi hov hoths (undrained_drained hb.gutted.draining) hb.gutted

/-! ## `ReorganizeBlob` and the reclaim of the cache -/

/-- **`ReorganizeBlob`.** -/
lemma reorganizeBlob_safe (newScore : ℚ)
    (hear : ∀ rc s, Inv s → A.J s → A.Start s → A.Done rc s)
    (hkp : ∀ o b bytes s, Inv s → A.J s → A.Held o b bytes s → Mine t o b bytes s →
      A.Over o 0 b bytes s)
    (hmove : ∀ o b bytes rc b' bytes' s, Inv s → A.J s → A.Held o b bytes s →
      Moved t o b bytes rc s → Mine t o b' bytes' s → InOrder b' → A.Over o rc b' bytes' s)
    (hdr : ∀ o b bytes s, Inv s → A.J s → A.Held o b bytes s → InOrder b →
      Mine t o (b.drained.setSlot .main .empty) (bytes.setSlot .main []) s →
      A.Closes o ((b.setSlot .main .empty).scored newScore) (bytes.setSlot .main []) s
        (finishDrop wid key o newScore b.layout.totalSizeCache s).2) :
    A.Safe (fun r s => A.Done r.rc s ∧ Idle t s) (reorganizeBlob wid t key newScore) s := by
  rw [reorganizeBlob]
  split_ifs
  · exact .pure ⟨hear 1 s hI hJ hst, hil⟩
  refine lookup_safe (fun rc => rc) hI hJ hst hil (fun s hI hJ h _ => hear 3 s hI hJ h)
    fun o b bytes s hS hmi hb => ?_
  refine reorganizeLocked_safe wid newScore hS hmi hb ?_ ?_ ?_
  · intro s hS hmi
    exact settles_of_held hS hmi hb (hkp o b bytes s hS.inv hS.extra hS.fact.1 hmi)
  · intro rc s hS hmv
    have hov := hmove o b bytes rc
    cases hmv with
    | kept b' content hf hmi hb' hr hg =>
      exact settles_of_held hS hmi hb' (hov b' _ s hS.inv hS.extra hS.fact.1
        (.kept b' content hf hmi hb' hr hg) hmi hb')
    | lost hrc hf hmi =>
      have hb' : InOrder (b.setSlot .main .empty) := hb.setMain rfl
      exact settles_of_held hS hmi hb'
        (hov _ _ s hS.inv hS.extra hS.fact.1 (.lost hrc hf hmi) hmi hb')
  · intro s hS hmi
    refine Co.Safe.bind (settle_safe (g := fun x => x.scored newScore)
      ((b.setSlot .main .empty).scored newScore) hS.fact hmi
      (finishDrop_books wid key o newScore b.layout.totalSizeCache) (fun s h => ⟨⟨fun _ => rfl,
        fun _ => rfl, rfl, fun h => h, .refl _, h.holds.fits⟩, h.bytes⟩) ?_) ⟨hS.inv, hS.extra⟩ ?_
    · intro s hI hJ hhl hmi
      exact hdr o b bytes s hI hJ hhl hb hmi
    · rintro _ s ⟨hI, hJ⟩ ⟨hmi, hov, hoths⟩
      have hb' : InOrder (b.setSlot .main .empty) := hb.setMain rfl
      refine .bind (endDrain_safe hmi hov hoths ?_
        ⟨⟨hb'.sizes.main, hb'.sizes.replicas, hb'.sizes.staging⟩, hb'.staging, hb'.draining⟩)
        ⟨hI, hJ⟩ fun _ s _ h => .pure h
      rw [← undrained_setSlot_drained hb.draining]
      rfl

/-- **`ReorganizeBlob` of a replica.** -/
lemma reorganizeReplica_safe (sel : ℕ) (newScore : ℚ)
    (hear : ∀ rc s, Inv s → A.J s → A.Start s → A.Done rc s)
    (hkp : A.KeepsPrimary) :
    A.Safe (fun r s => A.Done r.rc s ∧ Idle t s) (reorganizeReplica wid t key sel newScore) s := by
  rw [reorganizeReplica]
  split_ifs
  · exact .pure ⟨hear 1 s hI hJ hst, hil⟩
  refine .bind (look_safe hst hil) ⟨hI, hJ⟩ ?_
  rintro found s ⟨hI, hJ⟩ ⟨hst, hil, hfd⟩
  cases found with
  | none => exact .pure ⟨hear 3 s hI hJ hst, hil⟩
  | some r =>
    obtain ⟨o, idx⟩ := r
    have hex : s.checkBlobExists key = some o := by
      cases hk : s.checkBlobExists key with
      | none =>
        simp [hk] at hfd
      | some o' =>
        rw [hk] at hfd
        simp only at hfd
        split at hfd
        · simp at hfd
        · rw [(Prod.mk.inj (Option.some.inj hfd)).1]
    have hlk := lookup_of_checkBlobExists hex
    refine locked_safe (fun rc => rc) hI hJ hil (hI.mapped key o hlk)
      (A.found hI hJ hst hlk) fun b bytes s hS hmi hb => ?_
    refine Setting.Safe.ends (reorganizeReplicaLocked_safe wid idx newScore hS hmi hb) hS ?_
    rintro rc s hS ⟨b', bytes', hmi, hb', hprim, hmn⟩
    exact settles_of_held hS hmi hb'
      (hkp o b bytes rc b' bytes' s hS.inv hS.extra hS.fact.1 hmi hb' hprim hmn)

/-- **`ReclaimCacheReplica`.** -/
lemma reclaimCacheReplica_safe (hear : ∀ s, Inv s → A.J s → A.Start s → A.Done 1 s)
    (hkp : A.KeepsPrimary) :
    A.Safe (fun r s => A.Done r.rc s ∧ Idle t s) (reclaimCacheReplica wid t key) s := by
  refine lookup_safe (fun _ => 0) hI hJ hst hil (fun s hI hJ h _ => hear s hI hJ h)
    fun o b bytes s hS hmi hb => ?_
  refine Setting.Safe.ends (reclaimLocked_safe wid hS hmi hb) hS ?_
  rintro _ s hS ⟨b', bytes', hmi, hb', hprim, hmn⟩
  exact settles_of_held hS hmi hb'
    (hkp o b bytes 0 b' bytes' s hS.inv hS.extra hS.fact.1 hmi hb' hprim hmn)

end Tasks

/-! ## `GetBlob` -/

/-- The steps of a reader: an answer of the environment, or a pin taken or given back. -/
inductive Glance (t : TaskId) (s : State) : State → Prop
  | answered {s'} (h : s' = s.ticked ∨ s' = s.ticked.faulted) : Glance t s s'
  | pinned (o : ObjId) (sel : ℕ) : Glance t s (pinRead t o sel s).2
  | unpinned (o : ObjId) (blocks : List BlobBlock) : Glance t s (unpinRead t o blocks s).2

/-- Reading the regions under a read pin. -/
lemma readRegions_safe {blocks : List BlobBlock} (regions : List (ℕ × ℕ × Buffer)) (hI : Inv s)
    (hJ : A.J s) (hpin : (t, o, blocks) ∈ s.hist.reading) (hil : Idle t s)
    (hgla : ∀ s s', Inv s → A.J s → Glance t s s' → A.J s' ∧ A.L s s') :
    A.Safe (fun _ s => (t, o, blocks) ∈ s.hist.reading ∧ Idle t s)
    (readRegions blocks regions) s := by
  induction regions generalizing s with
  | nil => exact .pure ⟨hpin, hil⟩
  | cons r regions ih =>
    -- nothing is claimed of the bytes
    have hby : False → ∀ s : State, (t, o, blocks) ∈ s.hist.reading ∧ Idle t s →
      bytesOf s.mem blocks = [] := False.elim
    refine .bind (readData_safe (fun s s' hf hR _ => hR.1.fault hf) ?_ ?_ r.1 r.2.1 r.2.2
      False.elim hby ⟨hI, hJ⟩ ⟨hpin, hil⟩) ⟨hI, hJ⟩ ?_
    · rintro s s' ⟨hpin, hil⟩ ⟨hR, -⟩ -
      exact ⟨hR.reading _ hpin rfl, hil.stable hR⟩
    · rintro s ⟨hI, hJ⟩ ⟨hpin, hil⟩ s' hs'
      obtain ⟨hI', hG⟩ := hI.answered hs'
      obtain ⟨hJ', hL⟩ := hgla s s' hI hJ (.answered hs')
      refine ⟨⟨hI', hJ'⟩, ⟨hG, hL⟩, ?_⟩
      rcases hs' with rfl | rfl <;> exact ⟨hpin, hil⟩
    · rintro ⟨rc, data⟩ s ⟨hI, hJ⟩ ⟨⟨hpin, hil⟩, -⟩
      split_ifs
      · exact .pure ⟨hpin, hil⟩
      · exact .bind (ih hI hJ hpin hil) ⟨hI, hJ⟩ fun _ s _ h => .pure h

/-- **`GetBlob`.** -/
lemma getBlob_safe (req : GetBlobTask) (hI : Inv s) (hJ : A.J s) (hst : A.Start s)
    (hil : Idle t s) (hgla : ∀ s s', Inv s → A.J s → Glance t s s' → A.J s' ∧ A.L s s') :
    A.Safe (fun _ s => Idle t s) (getBlob t req) s := by
  rw [getBlob]
  cases req.range with
  | none => exact .pure hil
  | some range =>
  obtain ⟨offset, size⟩ := range
  refine .bind (look_safe hst hil) ⟨hI, hJ⟩ ?_
  rintro found s ⟨hI, hJ⟩ ⟨-, hil, hfd⟩
  cases found with
  | none => exact .pure hil
  | some r =>
  obtain ⟨o, sel⟩ := r
  have ho : o < s.nextObj := by
    rw [lookupForGet] at hfd
    cases hk : s.checkBlobExists req.key with
    | none =>
      simp [hk] at hfd
    | some o' =>
      have hlk := lookup_of_checkBlobExists hk
      rw [hk] at hfd
      simp only at hfd
      have heq : o = o' := by
        split_ifs at hfd
        · split at hfd
          · simp at hfd
          · exact (Prod.mk.inj (Option.some.inj hfd)).1
        · exact (Prod.mk.inj (Option.some.inj hfd)).1
      exact heq ▸ hI.mapped req.key o' hlk
  have hstay : ∀ s, Guar t s s ∧ A.L s s := fun s =>
    ⟨⟨fun t' _ => .refl t' s, .refl s⟩, A.guar_refl s⟩
  have hstb : Co.Stable (fun s => Inv s ∧ A.J s) (fun s s' => Rely t s s' ∧ A.K s s')
      fun s => Idle t s ∧ o < s.nextObj := by
    rintro s s' ⟨hil, ho⟩ ⟨hR, -⟩ -
    exact ⟨hil.stable hR, lt_of_lt_of_le ho hR.nextObj⟩
  refine .bind (Q := fun _ s => Idle t s ∧ o < s.nextObj)
    (.await hstb ⟨hil, ho⟩ fun s hI h _ _ => ⟨hI, hstay s, h⟩) ⟨hI, hJ⟩ ?_
  rintro _ s ⟨hI, hJ⟩ ⟨hil, ho⟩
  refine .bind (Q := fun copy s => Idle t s ∧
    ∀ blocks, copy = some blocks → (t, o, blocks) ∈ s.hist.reading)
    (.await hstb ⟨hil, ho⟩ ?_) ⟨hI, hJ⟩ ?_
  · rintro s ⟨hI, hJ⟩ ⟨hil, ho⟩ hrdy -
    obtain ⟨hI', hG, hpin⟩ := hI.pinRead ho (by simpa using hrdy) sel
    obtain ⟨hJ', hL⟩ := hgla s _ hI hJ (.pinned o sel)
    exact ⟨⟨hI', hJ'⟩, ⟨hG, hL⟩, pinRead_idle hil, hpin⟩
  rintro copy s ⟨hI, hJ⟩ ⟨hil, hpin⟩
  cases copy with
  | none => exact .pure hil
  | some blocks =>
  have hpin := hpin blocks rfl
  refine .bind (Q := fun _ s => (t, o, blocks) ∈ s.hist.reading ∧ Idle t s) ?_ ⟨hI, hJ⟩ ?_
  · split_ifs
    · exact .pure ⟨hpin, hil⟩
    · exact readRegions_safe req.regions hI hJ hpin hil hgla
  rintro r s ⟨hI, hJ⟩ ⟨hpin, hil⟩
  refine .bind (.act (P := fun s => (t, o, blocks) ∈ s.hist.reading ∧ Idle t s) ?_ ⟨hpin, hil⟩ ?_)
    ⟨hI, hJ⟩ fun _ s _ h => .pure h
  · rintro s s' ⟨hpin, hil⟩ ⟨hR, -⟩ -
    exact ⟨hR.reading _ hpin rfl, hil.stable hR⟩
  · rintro s ⟨hI, hJ⟩ ⟨hpin, hil⟩ -
    obtain ⟨hI', hG⟩ := hI.unpinRead hpin
    obtain ⟨hJ', hL⟩ := hgla s _ hI hJ (.unpinned o blocks)
    exact ⟨⟨hI', hJ'⟩, ⟨hG, hL⟩, unpinRead_idle hil⟩

end Argument

end ClioCore.Cte
