import ClioCore.Cte.ReaderPins

/-!
# The accounts of a container

What is handed out by the devices, the totals of the tags and the mirror, after any interleaving of
`PutBlob`, `TruncateBlob` and `DelBlob` tasks.

The books are right as long as every token is taken of an object that is in the map at that moment:
a task that waited for the token of a blob while the blob was deleted gets the token of an object
that nobody can reach any more, and works on it.
-/

namespace ClioCore.Cte

open Foundations Function AList Option List State Nat TagInfo BlobInfo
open SafeBdev (PoolId)

/-! ## Accounts -/

/-- The sizes booked for the blobs of a tag. -/
def bookedIn (s : State) (tag : TagId) : ℕ :=
  tally s.blobs fun k o => if k.tag = tag then s.hist.booked o else 0

/-- The books of the container while tasks are at work. -/
structure Accounts (s : State) : Prop where
  injective : ∀ k k' o, s.blobs.lookup k = some o → s.blobs.lookup k' = some o → k = k'
  registered : ∀ k o, s.blobs.lookup k = some o → s.tagInfos.lookup k.tag ≠ none
  shm : ∀ k, s.shm k = true → s.blobs.lookup k ≠ none
  leaked : s.hist.leaked = true → s.hist.fault = true
  fresh : ∀ o, s.nextObj ≤ o → s.hist.booked o = 0
  totals : s.hist.fault = false → ∀ tag info, s.tagInfos.lookup tag = some info →
    info.totalSize = bookedIn s tag
  sizes : s.hist.fault = false → ∀ k o, s.blobs.lookup k = some o → (s.objs o).writeOwner = none →
    s.hist.booked o = (s.objs o).layout.totalSizeCache
  gone : s.hist.fault = false → ∀ o, (s.objs o).writeOwner = none →
    (∀ k, s.blobs.lookup k ≠ some o) → (s.objs o).allBlocks = []

/-- A token is only taken of an object that is in the map. -/
def TakesMapped (s s' : State) : Prop :=
  ∀ t o, s'.hist.acquired = s.hist.acquired ++ [(t, o)] → ∃ k, s.blobs.lookup k = some o

/-- What the others leave in the maps. -/
structure KeepsMaps (t : TaskId) (s s' : State) : Prop where
  old : ∀ k o, o < s.nextObj → s'.blobs.lookup k = some o → s.blobs.lookup k = some o
  mine : ∀ k o, (s.objs o).writeOwner = some t → s.blobs.lookup k = some o →
    s'.blobs.lookup k = some o
  tags : ∀ tag, s.tagInfos.lookup tag ≠ none → s'.tagInfos.lookup tag ≠ none

/-- What a task leaves in the maps. -/
structure LeavesMaps (t : TaskId) (s s' : State) : Prop where
  old : ∀ k o, o < s.nextObj → s'.blobs.lookup k = some o → s.blobs.lookup k = some o
  others : ∀ k o, (s.objs o).writeOwner ≠ some t → s.blobs.lookup k = some o →
    s'.blobs.lookup k = some o
  tags : ∀ tag, s.tagInfos.lookup tag ≠ none → s'.tagInfos.lookup tag ≠ none

variable {t t' : TaskId} {o : ObjId} {key : BlobKey} {b b' : BlobInfo} {bytes bytes' : Bytes}
  {s s' s'' : State}

lemma LeavesMaps.of_eq (hbls : s'.blobs = s.blobs) (his : s'.tagInfos = s.tagInfos) :
    LeavesMaps t s s' :=
  ⟨fun _ _ _ h => hbls ▸ h, fun _ _ _ h => hbls ▸ h, fun _ h => his ▸ h⟩

lemma LeavesMaps.keeps (h : LeavesMaps t s s') (hne : t ≠ t') : KeepsMaps t' s s' :=
  ⟨h.old, fun k o ho hk => h.others k o (fun he => hne (some.inj (he.symm.trans ho))) hk, h.tags⟩

/-- A task that holds the token of a mapped blob whose size is booked. -/
def Booked (key : BlobKey) (o : ObjId) (b : BlobInfo) (s : State) : Prop :=
  s.blobs.lookup key = some o ∧ (s.hist.fault = false → s.hist.booked o = b.layout.totalSizeCache)

/-- The blob is mapped and its size is booked, or it is gone and has no blocks. -/
def Balanced (key : BlobKey) (o : ObjId) (b : BlobInfo) (s : State) : Prop :=
  s.hist.fault = false → (s.blobs.lookup key = some o ∧ s.hist.booked o = b.layout.totalSizeCache) ∨
    ((∀ k, s.blobs.lookup k ≠ some o) ∧ b.allBlocks = [])

lemma fault_false (h : s.hist.fault = true → s'.hist.fault = true) (h' : s'.hist.fault = false) :
    s.hist.fault = false := by
  cases hf : s.hist.fault with
  | false => rfl
  | true => exact absurd (h hf) (by simp [h'])

/-- The accounts after a change that leaves the maps alone and works on one object whose token is
held. -/
lemma Accounts.of_frame (h : Accounts s) (hbls : s'.blobs = s.blobs)
    (his : s'.tagInfos = s.tagInfos) (hnx : s'.nextObj = s.nextObj)
    (hbkd : s'.hist.booked = s.hist.booked) (hflt : s.hist.fault = true → s'.hist.fault = true)
    (hlkd : s'.hist.leaked = true → s.hist.leaked = true ∨ s'.hist.fault = true)
    (hshm : ∀ k, s'.shm k = true → s.blobs.lookup k ≠ none)
    (hob : ∀ o, (s'.objs o).writeOwner = none →
      ((s.objs o).writeOwner = none ∧ (s'.objs o).layout = (s.objs o).layout ∧
        (s'.objs o).allBlocks = (s.objs o).allBlocks) ∨ ∃ k, Balanced k o (s'.objs o) s) :
    Accounts s' where
  injective := by
    rw [hbls]
    exact h.injective
  registered := by
    rw [hbls, his]
    exact h.registered
  shm k hk := by
    rw [hbls]
    exact hshm k hk
  leaked hl := (hlkd hl).elim (fun hl => hflt (h.leaked hl)) id
  fresh o ho := by
    rw [hbkd]
    exact h.fresh o (hnx ▸ ho)
  totals hf tag info hin := by
    rw [his] at hin
    rw [bookedIn, hbls, hbkd]
    exact h.totals (fault_false hflt hf) tag info hin
  sizes hf k o hk ho := by
    have hf' := fault_false hflt hf
    rw [hbls] at hk
    rw [hbkd]
    rcases hob o ho with ⟨ho', hlay, -⟩ | ⟨k', hbal⟩
    · rw [hlay]
      exact h.sizes hf' k o hk ho'
    · rcases hbal hf' with ⟨-, hsz⟩ | ⟨hgone, -⟩
      · exact hsz
      · exact absurd hk (hgone k)
  gone hf o ho hk := by
    have hf' := fault_false hflt hf
    rw [hbls] at hk
    rcases hob o ho with ⟨ho', -, hblocks⟩ | ⟨k', hbal⟩
    · rw [hblocks]
      exact h.gone hf' o ho' hk
    · rcases hbal hf' with ⟨hk', -⟩ | ⟨-, hblocks⟩
      · exact absurd hk' (hk k')
      · exact hblocks

/-! ## Booking a size -/

/-- Inserting a key takes none away. -/
lemma lookup_insert_ne_none {α β : Type} [DecidableEq α] {m : AList fun _ : α => β}
    {a a' : α} {v : β} (h : m.lookup a ≠ none) : (m.insert a' v).lookup a ≠ none := by
  simpa using fun _ => h

variable {new : ℕ} {info : TagInfo}

/-- Another size is booked for one blob. -/
lemma Accounts.bookedIn_rebook (h : Accounts s) (hk : s.blobs.lookup key = some o)
    (hbls : s'.blobs = s.blobs)
    (hbkd : s'.hist.booked = update s.hist.booked o new) (tag : TagId) :
    if key.tag = tag then bookedIn s' tag + s.hist.booked o = bookedIn s tag + new
    else bookedIn s' tag = bookedIn s tag := by
  have hoth : ∀ k o', k ≠ key → s.blobs.lookup k = some o' →
      s'.hist.booked o' = s.hist.booked o' := by
    intro k o' hne hk'
    rw [hbkd, update_of_ne]
    rintro rfl
    exact hne (h.injective k key o' hk' hk)
  have hsf : s'.hist.booked o = new := by rw [hbkd, update_self]
  have hsum := tally_update (f := fun k o => if k.tag = tag then s'.hist.booked o else 0)
    (g := fun k o => if k.tag = tag then s.hist.booked o else 0) hk
    fun k o' hne hk' => by simp [hoth k o' hne hk']
  rw [bookedIn, bookedIn, hbls]
  split_ifs with htag
  · simpa only [if_pos htag, hsf] using hsum
  · simpa only [if_neg htag, add_zero] using hsum

/-- **A size booked at the end of an operation.**  The total of the tag moves by as much as the size
booked for the blob. -/
lemma Accounts.rebook (h : Accounts s) (hhl : Booked key o b s) (ho : o < s.nextObj)
    (hbls : s'.blobs = s.blobs) (hnx : s'.nextObj = s.nextObj)
    (hhist : s'.hist = { s.hist with booked := update s.hist.booked o new })
    (hin : s.tagInfos.lookup key.tag = some info) {f : ℕ → ℕ}
    (his : s'.tagInfos = s.tagInfos.insert key.tag { info with totalSize := f info.totalSize })
    (hf : b.layout.totalSizeCache ≤ info.totalSize →
      f info.totalSize + b.layout.totalSizeCache = info.totalSize + new)
    (hshm : s'.shm = update s.shm key true) (hown : (s'.objs o).writeOwner ≠ none)
    (hob : ∀ o', o' ≠ o → s'.objs o' = s.objs o') :
    Accounts s' where
  injective := by
    rw [hbls]
    exact h.injective
  registered k o' hk := by
    rw [hbls] at hk
    rw [his]
    exact lookup_insert_ne_none (h.registered k o' hk)
  shm k hk := by
    rw [hbls]
    obtain rfl | hne := eq_or_ne k key
    · rw [hhl.1]
      simp
    · rw [hshm, update_of_ne hne] at hk
      exact h.shm k hk
  leaked := by
    rw [hhist]
    exact h.leaked
  fresh o' ho' := by
    rw [hnx] at ho'
    rw [hhist]
    exact (update_of_ne (ne_of_gt (lt_of_lt_of_le ho ho')) _ _).trans (h.fresh o' ho')
  totals hflt tag info' hin' := by
    rw [hhist] at hflt
    have hmove := h.bookedIn_rebook hhl.1 hbls (by rw [hhist]) tag
    by_cases htag : key.tag = tag
    · subst htag
      rw [his, lookup_insert] at hin'
      cases hin'
      have htot := h.totals hflt key.tag info hin
      have hle : s.hist.booked o ≤ bookedIn s key.tag := by
        rw [bookedIn, tally_erase hhl.1, if_pos rfl]
        exact le_add_right _ _
      rw [if_pos rfl] at hmove
      rw [hhl.2 hflt] at hmove hle
      simp only
      omega
    · rw [if_neg htag] at hmove
      rw [his, lookup_insert_ne (Ne.symm htag)] at hin'
      rw [hmove]
      exact h.totals hflt tag info' hin'
  sizes hflt k o' hk ho' := by
    rw [hhist] at hflt
    rw [hbls] at hk
    have hne : o' ≠ o := by
      rintro rfl
      exact hown ho'
    have hbkd : s'.hist.booked o' = s.hist.booked o' := by
      rw [hhist]
      exact update_of_ne hne _ _
    rw [hob o' hne] at ho' ⊢
    rw [hbkd]
    exact h.sizes hflt k o' hk ho'
  gone hflt o' ho' hk := by
    rw [hhist] at hflt
    rw [hbls] at hk
    have hne : o' ≠ o := by
      rintro rfl
      exact hown ho'
    rw [hob o' hne] at ho' ⊢
    exact h.gone hflt o' ho' hk

/-! ## The ends of the operations -/

lemma State.modifyTagSize_of_lookup {tag : TagId} (h : s.tagInfos.lookup tag = some info)
    (f : ℕ → ℕ) : s.modifyTagSize tag f =
      { s with tagInfos := s.tagInfos.insert tag { info with totalSize := f info.totalSize } } := by
  rw [modifyTagSize, h]

/-- The end of a put. -/
lemma Accounts.finishPut (h : Accounts s) {req : PutBlobTask} (hhl : Booked req.key o b s)
    (ho : o < s.nextObj) (hown : (s.objs o).writeOwner ≠ none) (wid : ℕ) (score : ℚ) :
    Accounts (finishPut wid req o score b.layout.totalSizeCache s).2 ∧
      LeavesMaps t s (finishPut wid req o score b.layout.totalSizeCache s).2 ∧
      Booked req.key o (s.objs o) (finishPut wid req o score b.layout.totalSizeCache s).2 := by
  obtain ⟨info, hin⟩ := ne_none_iff_exists'.mp (h.registered req.key o hhl.1)
  have hin' : s.tagInfos.lookup req.tagId = some info := hin
  set old := b.layout.totalSizeCache
  set new := (s.objs o).layout.totalSizeCache
  set marked := s.modifyObj o fun b => req.finish score b
  set flags := (req.finish score (s.objs o)).transformFlags
  set logged := if flags ≠ (s.objs o).transformFlags then
    marked.logBlob wid (.setBlobTransform req.key flags) else marked with hlogg
  have hlog : ∃ logs, logged = { marked with blobLogs := logs } := by
    rw [hlogg]
    split_ifs
    · exact ⟨_, rfl⟩
    · exact ⟨marked.blobLogs, rfl⟩
  obtain ⟨logs, hlog⟩ := hlog
  have hinfo'' : logged.tagInfos.lookup req.tagId = some info := by rw [hlog]; exact hin'
  have hrun : (Cte.finishPut wid req o score old s).2 =
      { ((seedTag req.tagId logged).modifyTagSize req.tagId (addDelta old new)).mirrorBlobToShm
        req.key with hist := { s.hist with booked := update s.hist.booked o new } } := rfl
  rw [seedTag, hinfo'', modifyTagSize_of_lookup hinfo'', hlog] at hrun
  rw [hrun]
  refine ⟨?_, ?_, hhl.1, fun _ => update_self ..⟩
  · refine h.rebook hhl ho rfl rfl rfl hin rfl (fun _ => ?_) rfl ?_ fun o' ho' => ?_
    · rw [addDelta]
      split_ifs <;> omega
    · have hobj : marked.objs o = req.finish score (s.objs o) := update_self ..
      change (marked.objs o).writeOwner ≠ none
      rwa [hobj]
    · exact update_of_ne ho' _ _
  · exact ⟨fun _ _ _ h => h, fun _ _ _ h => h, fun tag htag => lookup_insert_ne_none htag⟩

/-- The end of a truncate. -/
lemma Accounts.finishTruncate (h : Accounts s) (hhl : Booked key o b s) (ho : o < s.nextObj)
    (hown : (s.objs o).writeOwner ≠ none) (wid : ℕ) :
    Accounts (finishTruncate wid key o b.layout.totalSizeCache s).2 ∧
      LeavesMaps t s (finishTruncate wid key o b.layout.totalSizeCache s).2 ∧
      Booked key o (s.objs o) (finishTruncate wid key o b.layout.totalSizeCache s).2 := by
  obtain ⟨info, hin⟩ := ne_none_iff_exists'.mp (h.registered key o hhl.1)
  set old := b.layout.totalSizeCache
  set new := (s.objs o).layout.totalSizeCache
  set f : ℕ → ℕ := fun total => if old ≤ new then total + (new - old)
    else total - (old - new) with hf
  have hin' : (s.mirrorBlobToShm key).tagInfos.lookup key.tag = some info := hin
  set sized := (s.mirrorBlobToShm key).modifyTagSize key.tag f with hsz
  rw [modifyTagSize_of_lookup hin'] at hsz
  have hrun : (Cte.finishTruncate wid key o old s).2 =
      { (if (s.objs o).layout.blocks ≠ [] then logLayout wid key o sized else sized)
        with hist := { s.hist with booked := update s.hist.booked o new } } := rfl
  have hlog : ∃ logs, (if (s.objs o).layout.blocks ≠ [] then logLayout wid key o sized else sized)
      = { sized with blobLogs := logs } := by
    split_ifs
    · exact ⟨_, rfl⟩
    · exact ⟨sized.blobLogs, rfl⟩
  obtain ⟨logs, hlog⟩ := hlog
  rw [hrun, hlog, hsz]
  refine ⟨?_, ?_, hhl.1, fun _ => update_self ..⟩
  · refine h.rebook hhl ho rfl rfl rfl hin rfl (fun hle => ?_) rfl hown fun o' _ => rfl
    simp only [hf]
    split_ifs <;> omega
  · exact ⟨fun _ _ _ h => h, fun _ _ _ h => h, fun tag htag => lookup_insert_ne_none htag⟩

/-- The end of a delete: the blob leaves the map, its tag and the mirror. -/
lemma Accounts.finishDel (h : Accounts s) (hhl : Booked key o b s)
    (hown : (s.objs o).writeOwner = some t) (wid : ℕ) :
    Accounts (finishDel wid key o b.layout.totalSizeCache s).2 ∧
      LeavesMaps t s (finishDel wid key o b.layout.totalSizeCache s).2 ∧
      ∀ k, (finishDel wid key o b.layout.totalSizeCache s).2.blobs.lookup k ≠ some o := by
  obtain ⟨info, hin⟩ := ne_none_iff_exists'.mp (h.registered key o hhl.1)
  set old := b.layout.totalSizeCache
  have hrun : (Cte.finishDel wid key o old s).2 = { ({ s.modifyTagSize key.tag (· - old) with
          blobs := (s.modifyTagSize key.tag (· - old)).blobs.erase key }.eraseShm key).logBlob wid
            (.delBlob key) with
        hist := { s.hist with booked := update s.hist.booked o 0 } } := rfl
  rw [modifyTagSize_of_lookup hin] at hrun
  set s' := (Cte.finishDel wid key o old s).2
  have hbls : s'.blobs = s.blobs.erase key := by rw [hrun]; rfl
  have his : s'.tagInfos = s.tagInfos.insert key.tag
      { info with totalSize := info.totalSize - old } := by rw [hrun]; rfl
  have hshm : s'.shm = update s.shm key false := by rw [hrun]; rfl
  have hob : s'.objs = s.objs := by rw [hrun]; rfl
  have hhist : s'.hist = { s.hist with booked := update s.hist.booked o 0 } := by rw [hrun]
  have hlk : ∀ k o', s'.blobs.lookup k = some o' → k ≠ key ∧ s.blobs.lookup k = some o' :=
    fun k o' hk => lookup_erase_eq_some.mp (hbls ▸ hk)
  have hkp : ∀ k o', k ≠ key → s.blobs.lookup k = some o' → s'.blobs.lookup k = some o' := by
    intro k o' hne hk
    rwa [hbls, lookup_erase_ne hne]
  have hnot : ∀ k o', s'.blobs.lookup k = some o' → o' ≠ o := by
    rintro k o' hk rfl
    obtain ⟨hne, hk⟩ := hlk k o' hk
    exact hne (h.injective k key o' hk hhl.1)
  have hbkd : ∀ o', o' ≠ o → s'.hist.booked o' = s.hist.booked o' := by
    intro o' hne
    exact update_of_ne hne _ _
  have hsum : ∀ tag, bookedIn s tag =
      (if key.tag = tag then s.hist.booked o else 0) + bookedIn s' tag := by
    intro tag
    rw [bookedIn, tally_erase hhl.1, bookedIn, hbls]
    congr 1
    refine tally_congr fun k o' hk => ?_
    rw [hbkd o' (hnot k o' (hbls ▸ hk))]
  refine ⟨⟨?_, ?_, ?_, ?_, ?_, ?_, ?_, ?_⟩, ⟨?_, ?_, ?_⟩, fun k hk => hnot k o hk rfl⟩
  · exact fun k k' o' hk hk' => h.injective k k' o' (hlk k o' hk).2 (hlk k' o' hk').2
  · intro k o' hk
    rw [his]
    exact lookup_insert_ne_none (h.registered k o' (hlk k o' hk).2)
  · intro k hk
    rw [hshm] at hk
    have hne : k ≠ key := by
      rintro rfl
      simp at hk
    rw [update_of_ne hne] at hk
    obtain ⟨o', ho'⟩ := ne_none_iff_exists'.mp (h.shm k hk)
    rw [hkp k o' hne ho']
    simp
  · exact h.leaked
  · intro o' ho'
    have hnx : s'.nextObj = s.nextObj := by rw [hrun]; rfl
    by_cases hne : o' = o
    · rw [hne]
      exact update_self ..
    · rw [hbkd o' hne]
      exact h.fresh o' (hnx ▸ ho')
  · intro hf tag info' hin'
    have hs := hsum tag
    by_cases htag : key.tag = tag
    · subst htag
      rw [his, lookup_insert] at hin'
      cases hin'
      rw [if_pos rfl, hhl.2 hf, ← h.totals hf key.tag info hin] at hs
      simp only
      omega
    · rw [his, lookup_insert_ne (Ne.symm htag)] at hin'
      rw [if_neg htag, zero_add] at hs
      rw [← hs]
      exact h.totals hf tag info' hin'
  · intro hf k o' hk ho'
    rw [hob] at ho' ⊢
    rw [hbkd o' (hnot k o' hk)]
    exact h.sizes hf k o' (hlk k o' hk).2 ho'
  · intro hf o' ho' hk
    rw [hob] at ho' ⊢
    refine h.gone hf o' ho' fun k hk' => ?_
    by_cases hne : k = key
    · subst hne
      have heq : o' = o := some.inj (hk'.symm.trans hhl.1)
      simp [heq, hown] at ho'
    · exact hk k (hkp k o' hne hk')
  · exact fun k o' _ hk => (hlk k o' hk).2
  · intro k o' ho' hk
    refine hkp k o' ?_ hk
    rintro rfl
    exact ho' (some.inj (hk.symm.trans hhl.1) ▸ hown)
  · intro tag htag
    rw [his]
    exact lookup_insert_ne_none htag

/-! ## The argument -/

/-- The accounts are kept by every task that only takes tokens of mapped objects. -/
def accounting (t : TaskId) (key : BlobKey) : Argument t key where
  J := Accounts
  K := KeepsMaps t
  L := LeavesMaps t
  C := TakesMapped
  Start s := s.tagInfos.lookup key.tag ≠ none
  Known o s := o < s.nextObj ∧ ∀ k, s.blobs.lookup k = some o → k = key
  Held o b _ s := Booked key o b s
  Over o _ b _ s := o < s.nextObj ∧ Balanced key o b s
  Done _ _ := True
  start_rely _ hK h := hK.tags _ h
  known_rely hR hK h := ⟨lt_of_lt_of_le h.1 hR.nextObj, fun k hk => h.2 k (hK.old k _ h.1 hk)⟩
  held_rely ho hR hK h :=
    ⟨hK.mine key _ ho h.1, fun hf => (hR.blob _ ho).booked.trans (h.2 (fault_false hR.fault hf))⟩
  held_local hl h :=
    ⟨hl.blobs ▸ h.1, fun hf => (congrFun hl.booked _).trans (h.2 (fault_false hl.fault hf))⟩
  inv_held {o b bytes s s'} _ hl h hJ := by
    refine hJ.of_frame hl.blobs hl.tagInfos hl.nextObj hl.booked hl.fault hl.leakedFault
      (fun k hk => ?_) fun o' ho' => .inl ?_
    · rcases hl.shm k hk with hk | rfl
      · exact hJ.shm k hk
      · rw [h.1]
        simp
    · have hne : o' ≠ o := by
        rintro rfl
        exact absurd (ho'.symm.trans hl.owner') (by simp)
      rw [hl.objs o' hne] at ho' ⊢
      exact ⟨ho', rfl, rfl⟩
  over_rely {o rc b bytes s s'} ho hR hK h := by
    refine ⟨lt_of_lt_of_le h.1 hR.nextObj, fun hf => ?_⟩
    rcases h.2 (fault_false hR.fault hf) with ⟨hk, hsize⟩ | ⟨hgone, hblocks⟩
    · exact .inl ⟨hK.mine key o ho hk, (hR.blob o ho).booked.trans hsize⟩
    · exact .inr ⟨fun k hk => hgone k (hK.old k o h.1 hk), hblocks⟩
  guar_local hl := LeavesMaps.of_eq hl.blobs hl.tagInfos
  guar_refl _ := LeavesMaps.of_eq rfl rfl
  found hI hJ _ hk := ⟨hI.mapped key _ hk, fun k hk' => hJ.injective k key _ hk' hk⟩
  acquire {o s} hI hJ hknown hfree hC := by
    obtain ⟨k, hk⟩ := hC t o rfl
    obtain rfl := hknown.2 k hk
    refine ⟨hJ.of_frame rfl rfl rfl rfl (fun h => h) Or.inl (fun k hk => hJ.shm k hk)
      fun o' ho' => .inl ?_, LeavesMaps.of_eq rfl rfl, hk, fun hf => hJ.sizes hf k o hk hfree⟩
    have hne : o' ≠ o := by
      rintro rfl
      rw [takeToken_objs] at ho'
      simp at ho'
    rw [(takeToken_touch t o s).objs o' hne] at ho' ⊢
    exact ⟨ho', rfl, rfl⟩
  undrain {o rc b bytes b' bytes' s} hI hJ hmine h := by
    refine ⟨hJ.of_frame rfl rfl rfl rfl (fun h => h) Or.inl (fun k hk => hJ.shm k hk)
      fun o' ho' => .inl ?_, LeavesMaps.of_eq rfl rfl, h⟩
    have hobj : (endDrainReaders o s).2.objs = Function.update s.objs o (s.objs o).undrained := rfl
    have hne : o' ≠ o := by
      rintro rfl
      rw [hobj, update_self] at ho'
      exact absurd (ho'.symm.trans hmine.writeOwner) (by simp)
    rw [hobj, update_of_ne hne] at ho' ⊢
    exact ⟨ho', rfl, rfl⟩
  release {o rc b bytes s} hI hJ hmine _ h := by
    refine ⟨hJ.of_frame rfl rfl rfl rfl (fun h => h) Or.inl (fun k hk => hJ.shm k hk)
      fun o' ho' => ?_, LeavesMaps.of_eq rfl rfl, trivial⟩
    by_cases hne : o' = o
    · subst hne
      right
      rw [hmine.unlockWrite_objs]
      refine ⟨key, ?_⟩
      have hinfo := hmine.info
      rw [← hinfo] at h
      exact h.2
    · left
      rw [(unlockWrite_touch t o s).objs o' hne] at ho' ⊢
      exact ⟨ho', rfl, rfl⟩

/-- A new blob has nothing booked. -/
lemma Accounts.createNewBlob (h : Accounts s) (hI : Inv s) (hk : s.blobs.lookup key = none)
    (htag : s.tagInfos.lookup key.tag ≠ none) (wid : ℕ) (score : ℚ) :
    Accounts (createNewBlob wid key score s).2 ∧ LeavesMaps t s (createNewBlob wid key score s).2 ∧
      ∀ k, (createNewBlob wid key score s).2.blobs.lookup k = some s.nextObj → k = key := by
  set s' := (Cte.createNewBlob wid key score s).2
  have hbls : s'.blobs = s.blobs.insert key s.nextObj := rfl
  have hob : ∀ o, o ≠ s.nextObj → s'.objs o = s.objs o := fun o ho => update_of_ne ho _ _
  have hnew : s'.objs s.nextObj = new key.name score := update_self ..
  have hold : ∀ k o, o ≠ s.nextObj → s'.blobs.lookup k = some o → s.blobs.lookup k = some o :=
    fun k o hne hko => ((lookup_insert_eq_some.mp hko).resolve_left fun h => hne h.2.symm).2
  have hkp : ∀ k o, s.blobs.lookup k = some o → s'.blobs.lookup k = some o := by
    refine fun k o hko => (lookup_insert_ne ?_).trans hko
    rintro rfl
    simp [hk] at hko
  have hon : ∀ k, s'.blobs.lookup k = some s.nextObj → k = key := fun k hko =>
    ((lookup_insert_eq_some.mp hko).resolve_right fun h => lt_irrefl _ (hI.mapped k _ h.2)).1
  refine ⟨⟨?_, ?_, ?_, h.leaked, ?_, ?_, ?_, ?_⟩, ⟨?_, ?_, fun _ h => h⟩, hon⟩
  · intro k k' o hko hko'
    by_cases hne : o = s.nextObj
    · subst hne
      exact (hon k hko).trans (hon k' hko').symm
    · exact h.injective k k' o (hold k o hne hko) (hold k' o hne hko')
  · intro k o hko
    obtain ⟨rfl, -⟩ | ⟨-, hko⟩ := lookup_insert_eq_some.mp hko
    · exact htag
    · exact h.registered k o hko
  · intro k hshm
    obtain ⟨o, ho⟩ := ne_none_iff_exists'.mp (h.shm k hshm)
    rw [hkp k o ho]
    simp
  · exact fun o ho => h.fresh o (le_of_succ_le ho)
  · intro hf tag info hin
    have hz0 := h.fresh s.nextObj (le_refl _)
    have hsum : bookedIn s' tag = bookedIn s tag := by
      rw [bookedIn, hbls, tally_insert hk]
      change (if key.tag = tag then s.hist.booked s.nextObj else 0) + _ = _
      rw [hz0, ite_self, zero_add]
      rfl
    rw [hsum]
    exact h.totals hf tag info hin
  · intro hf k o hko ho
    by_cases hne : o = s.nextObj
    · rw [hne, hnew]
      exact h.fresh s.nextObj (le_refl _)
    · rw [hob o hne] at ho ⊢
      exact h.sizes hf k o (hold k o hne hko) ho
  · intro hf o ho hko
    by_cases hne : o = s.nextObj
    · subst hne
      exact absurd (lookup_insert _) (hko key)
    · rw [hob o hne] at ho ⊢
      exact h.gone hf o ho fun k hk' => hko k (hkp k o hk')
  · exact fun k o ho hko => hold k o (Nat.ne_of_lt ho) hko
  · exact fun k o _ hko => hkp k o hko

/-- The tag an operation works in. -/
def BlobOp.tag : BlobOp → TagId
  | put req => req.key.tag
  | get req => req.key.tag
  | truncate key _ => key.tag
  | del key => key.tag
  | reorganize key _ => key.tag
  | reorganizeReplica key _ _ => key.tag
  | reclaim key => key.tag

end ClioCore.Cte
