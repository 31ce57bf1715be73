import ClioCore.Cte.Moves

/-!
# Getting and giving back a token, and a read pin

The sections of a task outside the stretch in which it works on a blob: creating the blob, taking
and giving back its token, taking and giving back a read pin, and the sections that settle the books
of a tag at the end of an operation.  Each keeps the invariant and what the other tasks rely on.
-/

namespace ClioCore.Cte

open Foundations List Function BlobInfo Nat FreeSafe
open SafeBdev (PoolId)

variable {t : TaskId} {o : ObjId} {key : BlobKey} {b : BlobInfo} {bytes : Bytes} {s s' : State}

/-- Task `t` holds no token. -/
def Idle (t : TaskId) (s : State) : Prop := ∀ o, (s.objs o).writeOwner ≠ some t

lemma Idle.stable (h : Idle t s) (hR : Rely t s s') : Idle t s' := fun o ho => h o (hR.tokens o ho)

/-! ## Creating a blob -/

/-- An object that does not exist yet. -/
lemma Inv.unborn_next (hI : Inv s) : s.objs s.nextObj = new "" 0 := hI.unborn _ (le_refl _)

lemma Inv.ne_next (hI : Inv s) (ho : (s.objs o).writeOwner = some t) : o ≠ s.nextObj := by
  rintro rfl
  rw [hI.unborn_next] at ho
  simp [new] at ho

/-- **`CreateNewBlob`.** -/
lemma Inv.createNewBlob (hI : Inv s) (wid : ℕ) (key : BlobKey) (score : ℚ) :
    Inv (createNewBlob wid key score s).2 ∧ Guar t s (createNewBlob wid key score s).2 := by
  set s' := (Cte.createNewBlob wid key score s).2
  have hob : s'.objs = update s.objs s.nextObj (new key.name score) := rfl
  have hnew : s'.objs s.nextObj = new key.name score := by rw [hob, update_self]
  have hold : ∀ o, o ≠ s.nextObj → s'.objs o = s.objs o := fun o ho => by
    rw [hob, update_of_ne ho]
  have hsm : ∀ o, o ≠ s.nextObj → SameBlob o s s' := fun o ho =>
    ⟨by rw [hold o ho], fun _ => Iff.rfl, fun _ _ _ _ => rfl, fun _ => by rw [hold o ho], rfl⟩
  constructor
  · exact
      { live := hI.live
        unborn := fun o ho => by
          have hlt : s.nextObj < o := ho
          rw [hold o (ne_of_gt hlt)]
          exact hI.unborn o hlt.le
        born := fun x hx => lt_succ_of_lt (hI.born x hx)
        mapped := fun k o hk => by
          obtain ⟨-, rfl⟩ | ⟨-, hk⟩ := lookup_insert_eq_some.mp hk
          · exact lt_succ_self _
          · exact lt_succ_of_lt (hI.mapped k o hk)
        free := fun o ho => by
          by_cases hne : o = s.nextObj
          · subst hne
            refine ⟨?_, ?_, ?_, ?_⟩ <;> rw [hnew]
            · exact ⟨nodup_nil, forall_mem_nil _, forall_mem_nil _,
                fun _ e he => absurd (hI.born _ he) (lt_irrefl _)⟩
            · exact ⟨rfl, forall_mem_nil _, rfl⟩
            · rfl
            · rfl
          · exact (hsm o hne).settled (fun h => h) (hI.free o (by rwa [hold o hne] at ho))
        published := fun o hd blk hblk => by
          by_cases hne : o = s.nextObj
          · subst hne
            rw [hnew] at hblk
            cases hblk
          · rw [hold o hne] at hd hblk
            exact hI.published o hd blk hblk
        pins := fun o => by
          by_cases hne : o = s.nextObj
          · subst hne
            have hz0 := hI.pins s.nextObj
            rw [hI.unborn_next] at hz0
            rwa [hnew]
          · rw [hold o hne]
            exact hI.pins o
        reading := hI.reading }
  · refine ⟨fun t' _ => ⟨fun o ho => hsm o (hI.ne_next ho), fun o ho => ?_, fun _ hr _ => hr,
      le_succ _, fun h => h, fun h => h⟩, of_eq rfl⟩
    by_cases hne : o = s.nextObj
    · subst hne
      rw [hnew] at ho
      simp [new] at ho
    · rwa [hold o hne] at ho

/-! ## Touching one object -/

/-- Of the objects only `o` changes, and nothing is handed out, given back or written. -/
structure Touch (o : ObjId) (s s' : State) : Prop where
  objs : ∀ o', o' ≠ o → s'.objs o' = s.objs o'
  live : s'.live = s.live
  mem : s'.mem = s.mem
  nextObj : s'.nextObj = s.nextObj
  blobs : s'.blobs = s.blobs
  booked : s'.hist.booked = s.hist.booked
  fault : s'.hist.fault = s.hist.fault
  leaked : s'.hist.leaked = s.hist.leaked
  freed : s'.hist.freed = s.hist.freed

namespace Touch

section

variable (h : Touch o s s')
include h

lemma sameBlob {o' : ObjId} (hne : o' ≠ o) : SameBlob o' s s' where
  info := by rw [h.objs o' hne]
  live e := by rw [h.live]
  mem _ _ _ _ := by rw [h.mem]
  pins _ := by rw [h.objs o' hne]
  booked := by rw [h.booked]

/-- The invariant is kept if the object itself is in order and the readers are accounted for. -/
lemma inv (hI : Inv s) (ho : o < s.nextObj) (hfe : (s'.objs o).writeOwner = none → Settled s' o)
    (hpub : (s'.objs o).draining = false → ∀ blk ∈ (s'.objs o).published, (blk.extent, o) ∈ s.live)
    (hpins : ∀ o', (s'.objs o').pins = (s'.hist.reading.filter fun r => r.2.1 = o').length)
    (hrdg : ∀ r ∈ s'.hist.reading, r ∈ s.hist.reading ∨
      ∀ blk ∈ r.2.2, (blk.extent, r.2.1) ∈ s.live) :
    Inv s' where
  live := h.live ▸ hI.live
  unborn o' ho' := by
    rw [h.nextObj] at ho'
    rw [h.objs o' (ne_of_gt (lt_of_lt_of_le ho ho'))]
    exact hI.unborn o' ho'
  born x hx := by
    rw [h.live] at hx
    rw [h.nextObj]
    exact hI.born x hx
  mapped k o' hk := by
    rw [h.blobs] at hk
    rw [h.nextObj]
    exact hI.mapped k o' hk
  free o' ho' := by
    by_cases hne : o' = o
    · subst hne
      exact hfe ho'
    · exact (h.sameBlob hne).settled (fun hl => h.leaked ▸ hl)
        (hI.free o' (by rwa [h.objs o' hne] at ho'))
  published o' hd blk hblk := by
    rw [h.live]
    by_cases hne : o' = o
    · subst hne
      exact hpub hd blk hblk
    · rw [h.objs o' hne] at hd hblk
      exact hI.published o' hd blk hblk
  pins := hpins
  reading r hr blk hblk := by
    rw [h.live]
    rcases hrdg r hr with hr | hr
    · exact hI.reading r hr blk hblk
    · exact hr blk hblk

/-- What another task relies on is kept if the object is not its own, or its readers are all that
changes. -/
lemma rely {t' : TaskId} (hblob : (s.objs o).writeOwner = some t' → SameBlob o s s')
    (htks : (s'.objs o).writeOwner = some t' → (s.objs o).writeOwner = some t')
    (hrdg : ∀ r ∈ s.hist.reading, r.1 = t' → r ∈ s'.hist.reading) : Rely t' s s' where
  blob o' ho' := by
    by_cases hne : o' = o
    · subst hne
      exact hblob ho'
    · exact h.sameBlob hne
  tokens o' ho' := by
    by_cases hne : o' = o
    · subst hne
      exact htks ho'
    · rwa [h.objs o' hne] at ho'
  reading := hrdg
  nextObj := le_of_eq h.nextObj.symm
  fault hf := h.fault ▸ hf
  leaked hl := h.leaked ▸ hl

lemma freeSafe : FreeSafe s s' := of_eq h.freed

/-- Readers have come or gone, and none of another task's. -/
lemma repinned (hI : Inv s) (ho : o < s.nextObj) {n : ℕ}
    (hobj : s'.objs o = { s.objs o with pins := n })
    (hdrain : (s.objs o).draining = true → n ≤ (s.objs o).pins)
    (hpins : ∀ o', (s'.objs o').pins = (s'.hist.reading.filter fun r => r.2.1 = o').length)
    (hrdg : ∀ r ∈ s'.hist.reading, r ∈ s.hist.reading ∨ ∀ blk ∈ r.2.2, (blk.extent, r.2.1) ∈ s.live)
    (hkeep : ∀ r ∈ s.hist.reading, r.1 ≠ t → r ∈ s'.hist.reading) : Inv s' ∧ Guar t s s' := by
  have hsm : SameBlob o s s' :=
    ⟨by rw [hobj]; rfl, fun e => by rw [h.live], fun _ _ _ _ => by rw [h.mem],
      fun hd => by rw [hobj]; exact hdrain hd, by rw [h.booked]⟩
  refine ⟨h.inv hI ho ?_ ?_ hpins hrdg, fun t' ht' => h.rely (fun _ => hsm) ?_ ?_, h.freeSafe⟩
  · intro hfe
    rw [hobj] at hfe
    exact hsm.settled (fun hl => h.leaked ▸ hl) (hI.free o hfe)
  · intro hd blk hblk
    rw [hobj] at hd hblk
    exact hI.published o hd blk hblk
  · intro hown
    rwa [hobj] at hown
  · exact fun r hr hrt => hkeep r hr (hrt ▸ ht')

end

end Touch

/-- A change of one object's entry. -/
lemma Touch.of_update {b' : BlobInfo} {hist : History} (hbkd : hist.booked = s.hist.booked)
    (hflt : hist.fault = s.hist.fault) (hlkd : hist.leaked = s.hist.leaked)
    (hfre : hist.freed = s.hist.freed) :
    Touch o s { s with objs := update s.objs o b', hist := hist } :=
  ⟨fun _ hne => update_of_ne hne _ _, rfl, rfl, rfl, rfl, hbkd, hflt, hlkd, hfre⟩

/-! ## The token -/

/-- The object as the task that takes its token finds it. -/
def BlobInfo.heldBy (b : BlobInfo) (t : TaskId) : BlobInfo :=
  { b.unpinned with writeOwner := some t }

lemma takeToken_touch (t : TaskId) (o : ObjId) (s : State) : Touch o s (takeToken t o s).2 :=
  Touch.of_update rfl rfl rfl rfl

lemma takeToken_objs (t : TaskId) (o : ObjId) (s : State) :
    (takeToken t o s).2.objs o = { s.objs o with writeOwner := some t } := update_self ..

/-- **A token taken from an object nobody is working on.** -/
lemma Inv.takeToken (hI : Inv s) (ho : o < s.nextObj) (hfe : (s.objs o).writeOwner = none) :
    Inv (takeToken t o s).2 ∧ Guar t s (takeToken t o s).2 ∧
      Mine t o ((s.objs o).heldBy t) (bytesIn s.mem (s.objs o)) (takeToken t o s).2 ∧
      InOrder ((s.objs o).heldBy t) := by
  have htc := takeToken_touch t o s
  have hobj := takeToken_objs t o s
  have hset := hI.free o hfe
  refine ⟨htc.inv hI ho ?_ ?_ ?_ ?_, ⟨fun t' ht' => htc.rely ?_ ?_ ?_, htc.freeSafe⟩, ?_, ?_⟩
  · intro h
    simp [hobj] at h
  · intro hd blk hblk
    rw [hobj] at hd hblk
    exact hI.published o hd blk hblk
  · intro o'
    by_cases hne : o' = o
    · subst hne
      rw [hobj]
      exact hI.pins o'
    · rw [htc.objs o' hne]
      exact hI.pins o'
  · exact fun r hr => .inl hr
  · intro h
    simp [hfe] at h
  · intro h
    rw [hobj] at h
    exact absurd (Option.some.inj h).symm ht'
  · exact fun r hr _ => hr
  · exact
      { info := by
          rw [hobj]
          rfl
        owner := rfl
        pins := fun hd => by cases hset.draining.symm.trans hd
        holds :=
          have hhd : Holds s o ((s.objs o).heldBy t) [] :=
            hset.holds.perm hset.holds.fits (Perm.refl _)
          hhd.congr rfl fun h => h
        bytes := rfl }
  · exact ⟨⟨hset.sizes.main, hset.sizes.replicas, hset.sizes.staging⟩, hset.staging, hset.draining⟩

/-- The object given back. -/
def BlobInfo.released (b : BlobInfo) : BlobInfo := { b with writeOwner := none }

lemma unlockWrite_touch (t : TaskId) (o : ObjId) (s : State) : Touch o s (unlockWrite t o s).2 :=
  Touch.of_update rfl rfl rfl rfl

lemma Mine.unlockWrite_objs (h : Mine t o b bytes s) :
    (unlockWrite t o s).2.objs o = (s.objs o).released := by
  have hobj : (unlockWrite t o s).2.objs o
      = if (s.objs o).writeOwner = some t then (s.objs o).released else s.objs o :=
    update_self ..
  rw [hobj, if_pos h.writeOwner]

/-- **A token given back.** -/
lemma Mine.unlockWrite (hI : Inv s) (h : Mine t o b bytes s) (hb : InOrder b) :
    Inv (unlockWrite t o s).2 ∧ Guar t s (unlockWrite t o s).2 := by
  have htc := unlockWrite_touch t o s
  have hobj := h.unlockWrite_objs
  have hin := h.info
  have hall : (s.objs o).released.allBlocks = b.allBlocks := by
    rw [← hin]
    rfl
  refine ⟨htc.inv hI ?_ ?_ ?_ ?_ fun r hr => .inl hr,
    fun t' ht' => htc.rely ?_ ?_ fun r hr _ => hr, htc.freeSafe⟩
  · by_contra hge
    have hown := h.writeOwner
    rw [hI.unborn o (Nat.le_of_not_lt hge)] at hown
    simp [new] at hown
  · intro _
    rw [← hin] at hb
    exact
      { holds := by
          rw [hobj]
          exact (h.holds.perm (fun blk hblk => h.holds.fits blk (hall ▸ hblk)) (by rw [hall])).congr
            rfl fun h => h
        sizes := by
          rw [hobj]
          exact ⟨hb.sizes.main, hb.sizes.replicas, hb.sizes.staging⟩
        staging := by
          rw [hobj]
          exact hb.staging
        draining := by
          rw [hobj]
          exact hb.draining }
  · intro hd blk hblk
    rw [hobj] at hd hblk
    exact hI.published o hd blk hblk
  · intro o'
    by_cases hne : o' = o
    · subst hne
      rw [hobj]
      exact hI.pins o'
    · rw [htc.objs o' hne]
      exact hI.pins o'
  · intro ho
    exact absurd (Option.some.inj (ho.symm.trans h.writeOwner)) ht'
  · intro ho
    rw [hobj] at ho
    simp [BlobInfo.released] at ho

/-! ## Read pins -/

/-- The blocks a reader copies are among those that are published. -/
lemma BlobInfo.readLayout_subset (b : BlobInfo) (sel : ℕ) :
    (b.readLayout sel).blocks ⊆ b.published := by
  intro blk hblk
  rw [readLayout] at hblk
  split_ifs at hblk
  · by_cases hidx : sel - 1 < b.replicas.length
    · rw [replica, getD_eq_getElem _ _ hidx] at hblk
      exact mem_append_right _ (mem_flatMap.mpr ⟨_, getElem_mem hidx, hblk⟩)
    · rw [replica, getD_eq_default _ _ (Nat.le_of_not_lt hidx)] at hblk
      cases hblk
  · exact mem_append_left _ hblk

/-- **A read pin taken while the object is not draining.** -/
lemma Inv.pinRead (hI : Inv s) (ho : o < s.nextObj) (hd : (s.objs o).draining = false) (sel : ℕ) :
    Inv (pinRead t o sel s).2 ∧ Guar t s (pinRead t o sel s).2 ∧
      ∀ blocks, (pinRead t o sel s).1 = some blocks →
        (t, o, blocks) ∈ (pinRead t o sel s).2.hist.reading := by
  rw [Cte.pinRead]
  split_ifs with hsz
  · exact ⟨hI, ⟨fun t' _ => Rely.refl t' s, refl s⟩, by simp⟩
  · set blocks := ((s.objs o).readLayout sel).blocks
    set s' : State := { s.modifyObj o fun b => { b with pins := b.pins + 1 } with
      hist := { s.hist with reading := (t, o, blocks) :: s.hist.reading } }
    have htc : Touch o s s' := Touch.of_update rfl rfl rfl rfl
    have hobj : s'.objs o = { s.objs o with pins := (s.objs o).pins + 1 } := update_self ..
    rw [← and_assoc]
    refine ⟨htc.repinned hI ho hobj (fun h => by cases hd.symm.trans h) ?_ ?_ ?_, ?_⟩
    · intro o'
      rw [filter_cons]
      by_cases hne : o' = o
      · subst hne
        rw [hobj]
        simp [hI.pins o']
      · rw [htc.objs o' hne, hI.pins o', if_neg (by simpa using Ne.symm hne)]
    · intro r hr
      rcases mem_cons.mp hr with rfl | hr
      · exact .inr fun blk hblk => hI.published o hd blk ((s.objs o).readLayout_subset sel hblk)
      · exact .inl hr
    · exact fun r hr _ => mem_cons_of_mem _ hr
    · intro blocks' h
      cases h
      exact mem_cons_self

lemma pinRead_idle {sel : ℕ} (h : Idle t s) : Idle t (pinRead t o sel s).2 := by
  intro o'
  rw [pinRead]
  split_ifs
  · exact h o'
  · by_cases hne : o' = o
    · subst hne
      simpa [State.modifyObj] using h o'
    · simpa [State.modifyObj, update_of_ne hne] using h o'

lemma unpinRead_idle {blocks : List BlobBlock} (h : Idle t s) :
    Idle t (unpinRead t o blocks s).2 := by
  intro o'
  by_cases hne : o' = o
  · subst hne
    simpa [unpinRead, State.modifyObj] using h o'
  · simpa [unpinRead, State.modifyObj, update_of_ne hne] using h o'

/-- **A read pin given back.** -/
lemma Inv.unpinRead (hI : Inv s) {blocks : List BlobBlock}
    (hpin : (t, o, blocks) ∈ s.hist.reading) :
    Inv (unpinRead t o blocks s).2 ∧ Guar t s (unpinRead t o blocks s).2 := by
  set s' := (Cte.unpinRead t o blocks s).2
  have htc : Touch o s s' := Touch.of_update rfl rfl rfl rfl
  have hobj : s'.objs o = { s.objs o with pins := (s.objs o).pins - 1 } := update_self ..
  have hrdg : s'.hist.reading = s.hist.reading.erase (t, o, blocks) := rfl
  have hpos : 0 < (s.objs o).pins := by
    rw [hI.pins o]
    exact length_pos_of_mem (mem_filter.mpr ⟨hpin, by simp⟩)
  refine htc.repinned hI ?_ hobj (fun _ => sub_le _ _) ?_ ?_ ?_
  · by_contra hge
    rw [hI.unborn o (Nat.le_of_not_lt hge)] at hpos
    simp [new] at hpos
  · intro o'
    have hpm := ((perm_cons_erase hpin).filter fun r => r.2.1 = o').length_eq
    rw [← hI.pins o', filter_cons] at hpm
    rw [hrdg]
    by_cases hne : o' = o
    · subst hne
      rw [if_pos (by simp)] at hpm
      rw [hobj]
      exact (Nat.eq_sub_of_add_eq hpm.symm).symm
    · rw [if_neg (by simpa using Ne.symm hne)] at hpm
      rw [htc.objs o' hne, hpm]
  · intro r hr
    exact .inl (mem_of_mem_erase hr)
  · intro r hr ht
    refine (mem_erase_of_ne ?_).mpr hr
    rintro rfl
    exact ht rfl

/-- An answer of the environment changes nothing that matters. -/
lemma Inv.answered (hI : Inv s) (h : s' = s.ticked ∨ s' = s.ticked.faulted) :
    Inv s' ∧ Guar t s s' := by
  have hsm : ∀ o, SameBlob o s s' := by
    rcases h with rfl | rfl <;>
      exact fun o => ⟨rfl, fun _ => Iff.rfl, fun _ _ _ _ => rfl, fun _ => le_refl _, rfl⟩
  have hlkd : s.hist.leaked = true → s'.hist.leaked = true := by
    rcases h with rfl | rfl <;> exact fun h => h
  have hflt : s.hist.fault = true → s'.hist.fault = true := by
    rcases h with rfl | rfl
    · exact fun h => h
    · exact fun _ => rfl
  have heq : s'.live = s.live ∧ s'.objs = s.objs ∧ s'.nextObj = s.nextObj ∧ s'.blobs = s.blobs ∧
      s'.hist.reading = s.hist.reading ∧ s'.hist.freed = s.hist.freed := by
    rcases h with rfl | rfl <;> exact ⟨rfl, rfl, rfl, rfl, rfl, rfl⟩
  obtain ⟨hlv, hob, hnx, hbls, hrdg, hfre⟩ := heq
  constructor
  · exact
      { live := hlv ▸ hI.live
        unborn := fun o ho => by rw [hob]; exact hI.unborn o (hnx ▸ ho)
        born := fun x hx => by rw [hnx]; exact hI.born x (hlv ▸ hx)
        mapped := fun k o hk => by rw [hnx]; exact hI.mapped k o (hbls ▸ hk)
        free := fun o ho => (hsm o).settled hlkd (hI.free o (hob ▸ ho))
        published := fun o hd blk hblk => by
          rw [hob] at hd hblk
          rw [hlv]
          exact hI.published o hd blk hblk
        pins := fun o => by rw [hob, hrdg]; exact hI.pins o
        reading := fun r hr blk hblk => by rw [hlv]; exact hI.reading r (hrdg ▸ hr) blk hblk }
  · exact ⟨fun t' _ => ⟨fun o _ => hsm o, fun o ho => hob ▸ ho, fun r hr _ => hrdg ▸ hr,
      le_of_eq hnx.symm, hflt, hlkd⟩, of_eq hfre⟩

/-! ## Settling the books -/

/-- The maps of the tags and blobs, the size booked for `o` and what is mirrored may change. -/
structure Books (o : ObjId) (s s' : State) : Prop where
  live : s'.live = s.live
  mem : s'.mem = s.mem
  nextObj : s'.nextObj = s.nextObj
  mapped : ∀ k o', s'.blobs.lookup k = some o' → s.blobs.lookup k = some o'
  reading : s'.hist.reading = s.hist.reading
  fault : s'.hist.fault = s.hist.fault
  leaked : s'.hist.leaked = s.hist.leaked
  freed : s'.hist.freed = s.hist.freed
  booked : ∀ o', o' ≠ o → s'.hist.booked o' = s.hist.booked o'

/-- **A section that settles the books of the object worked on.** -/
lemma Mine.settle (hI : Inv s) (h : Mine t o b bytes s) {f : BlobInfo → BlobInfo}
    (hf : Reshapes f b)
    (hbk : Books o s s') (hob : s'.objs = Function.update s.objs o (f (s.objs o))) :
    Inv s' ∧ Guar t s s' ∧ Mine t o (f b) (bytesIn s.mem (f b)) s' := by
  have hobj : s'.objs o = f (s.objs o) := by rw [hob, update_self]
  have hmi := h.reshape hf hbk.live hbk.mem (fun hl => hbk.leaked ▸ hl) hobj
  have hfrm : Frame t o s s' :=
    { reading := hbk.reading
      fault := fun hf => hbk.fault ▸ hf
      leaked := fun hl => hbk.leaked ▸ hl
      nextObj := hbk.nextObj
      mapped := hbk.mapped
      booked := hbk.booked
      owner := h.writeOwner
      owner' := hmi.writeOwner
      pins := by rw [hobj, hf.pins]
      objs := fun o' ho' => by rw [hob, update_of_ne ho']
      live := fun e o' _ => by rw [hbk.live]
      mem := fun x _ _ a _ => by rw [hbk.mem] }
  have hsub : ∀ x ∈ s.live, x ∈ s'.live := fun x hx => hbk.live ▸ hx
  exact ⟨hmi.inv hI hfrm (hbk.live ▸ hI.live) hsub, ⟨fun _ ht' => hfrm.rely ht', of_eq hbk.freed⟩,
    hmi⟩

/-- Only the tags, the blob logs and the mirror differ. -/
def Ledger (s s' : State) : Prop :=
  ∃ infos logs shm, s' = { s with tagInfos := infos, blobLogs := logs, shm := shm }

namespace Ledger

lemma refl (s : State) : Ledger s s := ⟨_, _, _, rfl⟩

lemma trans {s s' s'' : State} (h : Ledger s s') (h' : Ledger s' s'') : Ledger s s'' := by
  obtain ⟨_, _, _, rfl⟩ := h
  obtain ⟨_, _, _, rfl⟩ := h'
  exact ⟨_, _, _, rfl⟩

lemma logBlob (s : State) (wid : ℕ) (txn : BlobTxn) : Ledger s (s.logBlob wid txn) := ⟨_, _, _, rfl⟩

lemma mirrorBlobToShm (s : State) (key : BlobKey) : Ledger s (s.mirrorBlobToShm key) :=
  ⟨_, _, _, rfl⟩

lemma modifyTagSize (s : State) (tag : TagId) (f : ℕ → ℕ) : Ledger s (s.modifyTagSize tag f) := by
  rw [State.modifyTagSize]
  split
  · exact refl s
  · exact ⟨_, _, _, rfl⟩

lemma seedTag (s : State) (tag : TagId) : Ledger s (seedTag tag s) := by
  rw [Cte.seedTag]
  split
  · exact refl s
  · exact ⟨_, _, _, rfl⟩

lemma ite {s x y : State} {p : Prop} [Decidable p] (hx : Ledger s x) (hy : Ledger s y) :
    Ledger s (if p then x else y) := by
  split_ifs
  · exact hx
  · exact hy

/-- Nothing else differs, up to the size booked for `o`. -/
lemma books {s1 s2 : State} (h : Ledger s1 s2) {o : ObjId} (size : ℕ) : Books o s1 { s2 with
      hist := { s1.hist with booked := update s1.hist.booked o size } } := by
  obtain ⟨_, _, _, rfl⟩ := h
  exact ⟨rfl, rfl, rfl, fun _ _ h => h, rfl, rfl, rfl, rfl, fun o' ho' => update_of_ne ho' _ _⟩

lemma objs {s1 s2 : State} (h : Ledger s1 s2) : s2.objs = s1.objs := by
  obtain ⟨_, _, _, rfl⟩ := h
  rfl

end Ledger

end ClioCore.Cte
