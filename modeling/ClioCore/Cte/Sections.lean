import ClioCore.Cte.Discipline

/-!
# Sections under a write token

What a task may rely on, and what it has to keep, while it holds the write token of a blob.

`Mine t o b bytes` says that task `t` holds the token of object `o`, that the object is `b` up to
its readers, that its blocks are what is handed out to it, and that they hold `bytes`.  The others
cannot change that (`Mine.stable`).  A `Section` is one stretch of such a task that keeps the
discipline; the lemmas on `Mine` say which updates of the state are sections and what they leave
behind.

The specifications of whole helpers are stated in a `Setting`: an invariant, a rely and a guarantee
on top of those of the discipline, none of which a section under a token can notice, and a fact the
task carries along.
-/

namespace ClioCore.Cte

open Foundations List BlobBlock Function BlobInfo Calm
open SafeBdev (PoolId)

/-! ## Settings -/

/-- A section of the task `t` under the token of `o`, the blob `key`, that keeps the discipline. -/
structure Section (t : TaskId) (o : ObjId) (key : BlobKey) (s s' : State) : Prop where
  inv : Inv s'
  frame : Local t o key s s'
  free : FreeSafe s s'

/-- What a task guarantees: it keeps everybody else's rely and frees nothing that is being read. -/
def Guar (t : TaskId) (s s' : State) : Prop := (∀ t', t' ≠ t → Rely t' s s') ∧ FreeSafe s s'

/-- What an argument about the tasks of a container adds to the discipline. -/
structure Rules where
  /-- Further invariant. -/
  J : State → Prop
  /-- Further rely. -/
  K : State → State → Prop
  /-- Further guarantee. -/
  L : State → State → Prop
  /-- The steps under consideration. -/
  C : State → State → Prop

/-- The rules seen from task `t` at work on object `o`, the blob `key`. -/
structure Setting (t : TaskId) (o : ObjId) (key : BlobKey) extends Rules where
  /-- A fact the task carries along. -/
  F : State → Prop
  inv_local : ∀ {s s'}, Inv s → Local t o key s s' → F s → J s → J s'
  guar_local : ∀ {s s'}, Local t o key s s' → L s s'
  fact_local : ∀ {s s'}, Local t o key s s' → F s → F s'
  fact_rely : ∀ {s s'}, (s.objs o).writeOwner = some t → Rely t s s' → K s s' → F s → F s'

namespace Setting

variable {t : TaskId} {o : ObjId} {key : BlobKey} (S : Setting t o key) {α β : Type} {s : State}

/-- The task keeps discipline in this setting and returns with `Q`. -/
def Safe (Q : α → State → Prop) (c : Co State α) (s : State) : Prop :=
  Co.Safe (fun s => Inv s ∧ S.J s) (fun s s' => Rely t s s' ∧ S.K s s')
    (fun s s' => Guar t s s' ∧ S.L s s') S.C (fun a s => Q a s ∧ S.F s) c s

/-- The task keeps discipline in this setting and ends with `Q`; the fact it carried along is used
up. -/
def Ends (Q : α → State → Prop) (c : Co State α) (s : State) : Prop :=
  Co.Safe (fun s => Inv s ∧ S.J s) (fun s s' => Rely t s s' ∧ S.K s s')
    (fun s s' => Guar t s s' ∧ S.L s s') S.C Q c s

/-- The state is one in which the task may run. -/
structure Ready (s : State) : Prop where
  inv : Inv s
  extra : S.J s
  fact : S.F s

variable {S} {Q Q' : α → State → Prop} {P : β → State → Prop} {c : Co State α}

lemma Safe.pure {a : α} (hS : S.Ready s) (h : Q a s) : S.Safe Q (pure a) s := ⟨h, hS.fact⟩

lemma Safe.bind {f : α → Co State β} (h : S.Safe Q c s) (hS : S.Ready s)
    (hf : ∀ a s, S.Ready s → Q a s → S.Safe P (f a) s) : S.Safe P (c >>= f) s :=
  Co.Safe.bind h ⟨hS.inv, hS.extra⟩ fun a s hI hQ => hf a s ⟨hI.1, hI.2, hQ.2⟩ hQ.1

lemma Safe.mono (h : S.Safe Q c s) (hS : S.Ready s) (hQ : ∀ a s, S.Ready s → Q a s → Q' a s) :
    S.Safe Q' c s :=
  Co.Safe.mono h ⟨hS.inv, hS.extra⟩ fun a s hI h => ⟨hQ a s ⟨hI.1, hI.2, h.2⟩ h.1, h.2⟩

lemma Ends.pure {a : α} (h : Q a s) : S.Ends Q (pure a) s := h

lemma Ends.bind {f : α → Co State β} (h : S.Ends Q c s) (hS : S.Ready s)
    (hf : ∀ a s, Inv s → S.J s → Q a s → S.Ends P (f a) s) : S.Ends P (c >>= f) s :=
  Co.Safe.bind h ⟨hS.inv, hS.extra⟩ fun a s hI hQ => hf a s hI.1 hI.2 hQ

/-- The last part of a task uses the fact up. -/
lemma Safe.bindEnds {f : α → Co State β} (h : S.Safe Q c s) (hS : S.Ready s)
    (hf : ∀ a s, S.Ready s → Q a s → S.Ends P (f a) s) : S.Ends P (c >>= f) s :=
  Co.Safe.bind h ⟨hS.inv, hS.extra⟩ fun a s hI hQ => hf a s ⟨hI.1, hI.2, hQ.2⟩ hQ.1

lemma Safe.ends (h : S.Safe Q c s) (hS : S.Ready s) (hQ : ∀ a s, S.Ready s → Q a s → Q' a s) :
    S.Ends Q' c s :=
  Co.Safe.mono h ⟨hS.inv, hS.extra⟩ fun a s hI h => hQ a s ⟨hI.1, hI.2, h.2⟩ h.1

/-- A fault stays on record. -/
lemma Safe.fault (h : S.Safe Q c s) (hflt : s.hist.fault = true) :
    S.Safe (fun a s => Q a s ∧ s.hist.fault = true) c s := by
  have hcar := Co.Safe.carry h hflt (fun _ _ hf hR _ => hR.1.fault hf) fun s s' hf hG =>
    (hG.1.1 ⟨t.task + 1, t.sub⟩ fun he => by simp [TaskId.ext_iff] at he).fault hf
  exact .weaken hcar fun a s h => ⟨⟨h.1.1, h.2⟩, h.1.2⟩

lemma Safe.faultIf {F : Prop} (h : S.Safe Q c s) (hflt : F → s.hist.fault = true) :
    S.Safe (fun a s => Q a s ∧ (F → s.hist.fault = true)) c s := by
  by_cases hF : F
  · exact .weaken (h.fault (hflt hF)) fun a s h => ⟨⟨h.1.1, fun _ => h.1.2⟩, h.2⟩
  · exact Co.Safe.weaken h fun a s h => ⟨⟨h.1, fun hF' => absurd hF' hF⟩, h.2⟩

/-- What a section gives in a setting. -/
lemma of_section {s s' : State} (hsec : Section t o key s s') (hI : Inv s) (hJ : S.J s)
    (hF : S.F s) : (Inv s' ∧ S.J s') ∧ (Guar t s s' ∧ S.L s s') ∧ S.F s' :=
  ⟨⟨hsec.inv, S.inv_local hI hsec.frame hF hJ⟩,
    ⟨⟨fun _ ht' => hsec.frame.toFrame.rely ht', hsec.free⟩, S.guar_local hsec.frame⟩,
    S.fact_local hsec.frame hF⟩

/-- One section under the token, entered with a fact that the others cannot change. -/
lemma Safe.await {A : State → Prop} {ready : State → Bool} {f : State → α × State}
    (hown : ∀ s, A s → (s.objs o).writeOwner = some t)
    (hstb : ∀ s s', Rely t s s' → A s → A s') (hS : S.Ready s) (h : A s)
    (hf : ∀ s, Inv s → A s → ready s = true → Section t o key s (f s).2 ∧ Q (f s).1 (f s).2) :
    S.Safe Q (Co.await ready f) s := by
  refine Co.Safe.await (P := fun s => A s ∧ S.F s) ?_ ⟨h, hS.fact⟩ ?_
  · rintro s s' ⟨hA, hF⟩ ⟨hR, hK⟩ -
    exact ⟨hstb s s' hR hA, S.fact_rely (hown s hA) hR hK hF⟩
  · rintro s ⟨hI, hJ⟩ ⟨hA, hF⟩ hrdy -
    obtain ⟨hsec, hQ⟩ := hf s hI hA hrdy
    obtain ⟨hI', hG, hF'⟩ := of_section hsec hI hJ hF
    exact ⟨hI', hG, hQ, hF'⟩

end Setting

/-! ## Bytes of an object -/

/-- What an object holds: the bytes of its primary, of its replicas and of the staging slot. -/
structure Bytes where
  main : List UInt8
  replicas : List (List UInt8)
  staging : List UInt8

/-- The bytes in a slot. -/
def Bytes.slot (bytes : Bytes) : Slot → List UInt8
  | .main => bytes.main
  | .staging => bytes.staging

/-- Other bytes in a slot. -/
def Bytes.setSlot (bytes : Bytes) (sl : Slot) (l : List UInt8) : Bytes :=
  match sl with
  | .main => { bytes with main := l }
  | .staging => { bytes with staging := l }

/-- The bytes of the object `b`. -/
def bytesIn (mem : PoolId → ℕ → UInt8) (b : BlobInfo) : Bytes :=
  ⟨bytesOf mem b.layout.blocks, b.replicas.map (fun r => bytesOf mem r.layout.blocks),
    bytesOf mem b.staging.blocks⟩

section Bytes

variable {mem mem' : PoolId → ℕ → UInt8} {b : BlobInfo} {bytes : Bytes} {l l' : List UInt8}

@[simp] lemma Bytes.slot_setSlot (bytes : Bytes) (sl : Slot) (l : List UInt8) :
    (bytes.setSlot sl l).slot sl = l := by cases sl <;> rfl

@[simp] lemma Bytes.setSlot_slot (bytes : Bytes) (sl : Slot) :
    bytes.setSlot sl (bytes.slot sl) = bytes := by cases sl <;> rfl

@[simp] lemma Bytes.setSlot_setSlot (bytes : Bytes) (sl : Slot) (l l' : List UInt8) :
    (bytes.setSlot sl l).setSlot sl l' = bytes.setSlot sl l' := by cases sl <;> rfl

section

variable (b)

variable (sl : Slot)

@[simp] lemma BlobInfo.slot_setSlot (l : Layout) : (b.setSlot sl l).slot sl = l := by
  cases sl <;> rfl

@[simp] lemma BlobInfo.setSlot_slot : b.setSlot sl (b.slot sl) = b := by
  cases sl <;> rfl

@[simp] lemma BlobInfo.setSlot_setSlot (l l' : Layout) :
    (b.setSlot sl l).setSlot sl l' = b.setSlot sl l' := by cases sl <;> rfl

@[simp] lemma BlobInfo.writeOwner_setSlot (l : Layout) :
    (b.setSlot sl l).writeOwner = b.writeOwner := by cases sl <;> rfl

@[simp] lemma BlobInfo.draining_setSlot (l : Layout) :
    (b.setSlot sl l).draining = b.draining := by cases sl <;> rfl

@[simp] lemma BlobInfo.pins_setSlot (l : Layout) : (b.setSlot sl l).pins = b.pins := by
  cases sl <;> rfl

@[simp] lemma BlobInfo.unpinned_setSlot (l : Layout) :
    (b.setSlot sl l).unpinned = b.unpinned.setSlot sl l := by cases sl <;> rfl

@[simp] lemma BlobInfo.slot_unpinned : b.unpinned.slot sl = b.slot sl := by
  cases sl <;> rfl

end

lemma slot_bytesIn (mem : PoolId → ℕ → UInt8) (b : BlobInfo) (sl : Slot) :
    (bytesIn mem b).slot sl = bytesOf mem (b.slot sl).blocks := by cases sl <;> rfl

lemma bytesIn_setSlot (mem : PoolId → ℕ → UInt8) (b : BlobInfo) (sl : Slot) (l : Layout) :
    bytesIn mem (b.setSlot sl l) = (bytesIn mem b).setSlot sl (bytesOf mem l.blocks) := by
  cases sl <;> rfl

lemma BlobInfo.mem_allBlocks {b : BlobInfo} {blk : BlobBlock} : blk ∈ b.allBlocks ↔
    blk ∈ b.layout.blocks ∨ (∃ r ∈ b.replicas, blk ∈ r.layout.blocks) ∨ blk ∈ b.staging.blocks := by
  simp [allBlocks]

lemma BlobInfo.slot_subset_allBlocks (b : BlobInfo) (sl : Slot) :
    (b.slot sl).blocks ⊆ b.allBlocks := by
  intro blk hblk
  rw [mem_allBlocks]
  cases sl with
  | main => exact .inl hblk
  | staging => exact .inr (.inr hblk)

/-- The blocks of an object that are not in the slot. -/
def BlobInfo.rest (b : BlobInfo) : Slot → List BlobBlock
  | .main => b.replicas.flatMap (fun r => r.layout.blocks) ++ b.staging.blocks
  | .staging => b.layout.blocks ++ b.replicas.flatMap fun r => r.layout.blocks

lemma BlobInfo.allBlocks_perm (b : BlobInfo) (sl : Slot) :
    b.allBlocks.Perm ((b.slot sl).blocks ++ b.rest sl) := by
  cases sl with
  | main => exact (append_assoc _ _ _).symm ▸ Perm.refl _
  | staging => exact perm_append_comm

@[simp] lemma BlobInfo.rest_setSlot (b : BlobInfo) (sl : Slot) (l : Layout) :
    (b.setSlot sl l).rest sl = b.rest sl := by cases sl <;> rfl

lemma BlobInfo.rest_subset_allBlocks (b : BlobInfo) (sl : Slot) : b.rest sl ⊆ b.allBlocks :=
  fun _ h => (b.allBlocks_perm sl).mem_iff.mpr (mem_append_right _ h)

/-- The bytes of an object depend on the bytes of its blocks only. -/
lemma bytesIn_congr (h : ∀ bs ⊆ b.allBlocks, bytesOf mem' bs = bytesOf mem bs) :
    bytesIn mem' b = bytesIn mem b := by
  have hmn := h _ (b.slot_subset_allBlocks .main)
  have hsg := h _ (b.slot_subset_allBlocks .staging)
  have hrps : b.replicas.map (fun r => bytesOf mem' r.layout.blocks)
      = b.replicas.map fun r => bytesOf mem r.layout.blocks :=
    map_congr_left fun r hr => h _ fun _ hblk => mem_allBlocks.mpr (.inr (.inl ⟨r, hr, hblk⟩))
  simp only [slot] at hmn hsg
  rw [bytesIn, bytesIn, hmn, hsg, hrps]

/-- If the bytes outside a slot are as before, only the slot has changed. -/
lemma bytesIn_eq_setSlot (sl : Slot) (h : ∀ bs ⊆ b.rest sl, bytesOf mem' bs = bytesOf mem bs) :
    bytesIn mem' b = (bytesIn mem b).setSlot sl (bytesOf mem' (b.slot sl).blocks) := by
  have hrs : bytesIn mem' (b.setSlot sl .empty) = bytesIn mem (b.setSlot sl .empty) := by
    refine bytesIn_congr fun bs hbs => h bs fun blk hblk => ?_
    have hmem := ((b.setSlot sl .empty).allBlocks_perm sl).mem_iff.mp (hbs hblk)
    rw [slot_setSlot, rest_setSlot] at hmem
    exact (mem_append.mp hmem).resolve_left not_mem_nil
  have hback : b = (b.setSlot sl .empty).setSlot sl (b.slot sl) := by simp
  calc bytesIn mem' b
      = (bytesIn mem' (b.setSlot sl .empty)).setSlot sl (bytesOf mem' (b.slot sl).blocks) := by
        conv_lhs => rw [hback]
        rw [bytesIn_setSlot]
    _ = (bytesIn mem b).setSlot sl (bytesOf mem' (b.slot sl).blocks) := by
        rw [hrs, bytesIn_setSlot, Bytes.setSlot_setSlot]

end Bytes

/-! ## Holding a token -/

/-- Task `t` holds the token of `o`, which is `b` up to its readers.  Its blocks are what is handed
out to it, and they hold `bytes`.  If it is draining, the readers are gone. -/
structure Mine (t : TaskId) (o : ObjId) (b : BlobInfo) (bytes : Bytes) (s : State) : Prop where
  info : (s.objs o).unpinned = b
  owner : b.writeOwner = some t
  pins : b.draining = true → (s.objs o).pins = 0
  holds : Holds s o b []
  bytes : bytesIn s.mem b = bytes

/-- Task `t` holds the token of the drained object `o`, which is `cur`, and is giving back the
extents `todo`.  The blocks of `b`, which hold `bytes`, are kept. -/
structure Shed (t : TaskId) (o : ObjId) (cur b : BlobInfo) (todo : List Extent) (bytes : Bytes)
    (s : State) : Prop where
  info : s.objs o = cur
  owner : cur.writeOwner = some t
  draining : cur.draining = true
  pins : cur.pins = 0
  holds : Holds s o b todo
  bytes : bytesIn s.mem b = bytes

/-- Nothing is freed. -/
lemma FreeSafe.of_eq {s s' : State} (h : s'.hist.freed = s.hist.freed) : FreeSafe s s' :=
  ⟨[], by rw [h, append_nil], by simp⟩

lemma FreeSafe.refl (s : State) : FreeSafe s s := FreeSafe.of_eq rfl

section Stable

variable {t : TaskId} {o : ObjId} {b cur : BlobInfo} {todo : List Extent} {bytes : Bytes}
  {s s' : State}

lemma Holds.live_of_mem (h : Holds s o b todo) {blk : BlobBlock} (hblk : blk ∈ b.allBlocks) :
    (blk.extent, o) ∈ s.live :=
  h.live _ (mem_append_left _ (mem_map_of_mem hblk))

lemma SameBlob.bytesIn (h : SameBlob o s s') (hb : Holds s o b todo) :
    bytesIn s'.mem b = bytesIn s.mem b :=
  bytesIn_congr fun _ hbs => h.bytesOf (fun _ hblk => hb.live_of_mem (hbs hblk))
    fun blk hblk => hb.fits blk (hbs hblk)

lemma Mine.writeOwner (h : Mine t o b bytes s) : (s.objs o).writeOwner = some t := by
  rw [← h.owner, ← h.info]
  rfl

lemma Mine.draining (h : Mine t o b bytes s) : (s.objs o).draining = b.draining := by
  rw [← h.info]
  rfl

/-- The others leave alone what a task holds the token of. -/
lemma Mine.stable (h : Mine t o b bytes s) (hR : Rely t s s') : Mine t o b bytes s' where
  info := (hR.blob o h.writeOwner).info.trans h.info
  owner := h.owner
  pins hd := Nat.le_zero.mp (h.pins hd ▸ (hR.blob o h.writeOwner).pins (h.draining.trans hd))
  holds := (hR.blob o h.writeOwner).holds hR.leaked h.holds
  bytes := ((hR.blob o h.writeOwner).bytesIn h.holds).trans h.bytes

lemma Shed.writeOwner (h : Shed t o cur b todo bytes s) : (s.objs o).writeOwner = some t := by
  rw [h.info, h.owner]

lemma Shed.stable (h : Shed t o cur b todo bytes s) (hR : Rely t s s') :
    Shed t o cur b todo bytes s' where
  info := by
    have hsm := hR.blob o h.writeOwner
    have hpins : (s'.objs o).pins = 0 :=
      Nat.le_zero.mp ((hsm.pins (by rw [h.info, h.draining])).trans (by rw [h.info, h.pins]))
    have hinfo := hsm.info
    rw [h.info] at hinfo
    rw [← h.info] at hinfo ⊢
    have hpins' : (s.objs o).pins = 0 := by rw [h.info, h.pins]
    cases h1 : s'.objs o
    cases h2 : s.objs o
    simp_all [unpinned]
  owner := h.owner
  draining := h.draining
  pins := h.pins
  holds := (hR.blob o h.writeOwner).holds hR.leaked h.holds
  bytes := ((hR.blob o h.writeOwner).bytesIn h.holds).trans h.bytes

/-- A drained object with nothing left to give back. -/
lemma Mine.shed (h : Mine t o b bytes s) (hd : b.draining = true) : Shed t o b b [] bytes s where
  info := by
    have hpins := h.pins hd
    rw [← h.info]
    cases hb : s.objs o
    simp_all [unpinned]
  owner := h.owner
  draining := hd
  pins := by
    rw [← h.info]
    rfl
  holds := h.holds
  bytes := h.bytes

lemma Shed.mine (h : Shed t o b b [] bytes s) : Mine t o b bytes s where
  info := by
    have hpins := h.pins
    rw [h.info]
    cases b
    simp_all [unpinned]
  owner := h.owner
  pins _ := h.info ▸ h.pins
  holds := h.holds
  bytes := h.bytes

end Stable

/-! ## Updates of an object -/

/-- The books, what is handed out and the bytes are as before. -/
structure Quiet (key : BlobKey) (s s' : State) : Prop extends Calm key s s' where
  live : s'.live = s.live
  mem : s'.mem = s.mem
  freed : s'.hist.freed = s.hist.freed

namespace Quiet

variable {key : BlobKey} {s s' s'' : State}

lemma refl (key : BlobKey) (s : State) : Quiet key s s := ⟨.refl key s, rfl, rfl, rfl⟩

lemma trans (h : Quiet key s s') (h' : Quiet key s' s'') : Quiet key s s'' :=
  ⟨h.toCalm.trans h'.toCalm, h'.live.trans h.live, h'.mem.trans h.mem, h'.freed.trans h.freed⟩

variable (key s)

lemma modifyObj (o : ObjId) (f : BlobInfo → BlobInfo) :
    Quiet key s (s.modifyObj o f) := ⟨.modifyObj key s o f, rfl, rfl, rfl⟩

lemma modifySlot (o : ObjId) (sl : Slot) (g : Layout → Layout) :
    Quiet key s (s.modifySlot o sl g) := ⟨.modifyObj key s o _, rfl, rfl, rfl⟩

lemma ticked : Quiet key s s.ticked :=
  ⟨.ticked key s, rfl, rfl, rfl⟩

lemma faulted : Quiet key s s.faulted :=
  ⟨.faulted key s, rfl, rfl, rfl⟩

lemma logBlob (wid : ℕ) (txn : BlobTxn) :
    Quiet key s (s.logBlob wid txn) := ⟨.logBlob key s wid txn, rfl, rfl, rfl⟩

lemma mirrorBlobToShm : Quiet key s (s.mirrorBlobToShm key) :=
  ⟨.mirrorBlobToShm key s, rfl, rfl, rfl⟩

end Quiet

/-- A change of an object that keeps its extents, its readers and its token. -/
structure Reshapes (f : BlobInfo → BlobInfo) (b : BlobInfo) : Prop where
  pins : ∀ x, (f x).pins = x.pins
  unpinned : ∀ x, (f x).unpinned = f x.unpinned
  owner : (f b).writeOwner = b.writeOwner
  draining : (f b).draining = true → b.draining = true
  perm : ((f b).allBlocks.map BlobBlock.extent).Perm (b.allBlocks.map BlobBlock.extent)
  fits : ∀ blk ∈ (f b).allBlocks, blk.size ≤ blk.capacity

section Update

variable {t : TaskId} {o : ObjId} {key : BlobKey} {b b' cur : BlobInfo} {todo todo' : List Extent}
  {bytes bytes' : Bytes} {s s' : State}

/-- Only which extents an object has matters. -/
lemma Holds.perm (h : Holds s o b todo) (hft : ∀ blk ∈ b'.allBlocks, blk.size ≤ blk.capacity)
    (hpm : (b'.allBlocks.map extent ++ todo').Perm
      (b.allBlocks.map extent ++ todo)) : Holds s o b' todo' where
  nodup := hpm.nodup_iff.mpr h.nodup
  live e he := h.live e (hpm.mem_iff.mp he)
  fits := hft
  exact hl e he := hpm.mem_iff.mpr (h.exact hl e he)

lemma Holds.congr (h : Holds s o b todo) (hlv : s'.live = s.live)
    (hlkd : s.hist.leaked = true → s'.hist.leaked = true) : Holds s' o b todo where
  nodup := h.nodup
  live e he := hlv ▸ h.live e he
  fits := h.fits
  exact hl e he := h.exact
    (Bool.eq_false_iff.mpr fun ht => Bool.eq_false_iff.mp hl (hlkd ht)) e (hlv ▸ he)

lemma Holds.quiet (h : Holds s o b todo) (hq : Quiet key s s') : Holds s' o b todo :=
  h.congr hq.live hq.leaked

/-- An update of the object worked on, and of nothing else. -/
lemma Local.of_quiet (hq : Quiet key s s') (hob : s'.objs = update s.objs o b')
    (howne : (s.objs o).writeOwner = some t) (hown' : b'.writeOwner = some t)
    (hpins : b'.pins = (s.objs o).pins) : Local t o key s s' where
  toCalm := hq.toCalm
  owner := howne
  owner' := by rw [hob, update_self, hown']
  pins := by rw [hob, update_self, hpins]
  objs o' ho' := by rw [hob, update_of_ne ho']
  live e o' _ := by rw [hq.live]
  mem x _ _ a _ := by rw [hq.mem]

/-- The invariant, after a section that leaves everything handed out where it is. -/
lemma Mine.inv (hI : Inv s) (hfrm : Frame t o s s') (hok : LiveOk s'.live)
    (hsub : ∀ x ∈ s.live, x ∈ s'.live) (h' : Mine t o b' bytes' s') : Inv s' :=
  hfrm.inv hI hok
    (fun _ _ hblk => h'.holds.live_of_mem (subset_append_left _ _ (h'.info ▸ hblk)))
    fun r hr ho blk hblk => hsub _ (ho ▸ hI.reading r hr blk hblk)

/-- A section that leaves everything handed out where it is. -/
lemma Mine.section (hI : Inv s) (hlc : Local t o key s s') (hok : LiveOk s'.live)
    (hsub : ∀ x ∈ s.live, x ∈ s'.live) (hfre : s'.hist.freed = s.hist.freed)
    (h' : Mine t o b' bytes' s') : Section t o key s s' where
  inv := h'.inv hI hlc.toFrame hok hsub
  frame := hlc
  free := FreeSafe.of_eq hfre

/-- The object worked on after an update of it. -/
lemma Mine.reshape (h : Mine t o b bytes s) {f : BlobInfo → BlobInfo} (hf : Reshapes f b)
    (hlv : s'.live = s.live) (hmem : s'.mem = s.mem)
    (hlkd : s.hist.leaked = true → s'.hist.leaked = true) (hobj : s'.objs o = f (s.objs o)) :
    Mine t o (f b) (bytesIn s.mem (f b)) s' where
  info := by rw [hobj, hf.unpinned, h.info]
  owner := hf.owner.trans h.owner
  pins hd := by
    rw [hobj, hf.pins]
    exact h.pins (hf.draining hd)
  holds := (h.holds.perm hf.fits (by simpa using hf.perm)).congr hlv hlkd
  bytes := by rw [hmem]

/-- An update of the object worked on. -/
lemma Mine.update (hI : Inv s) (h : Mine t o b bytes s) {f : BlobInfo → BlobInfo}
    (hf : Reshapes f b) (hq : Quiet key s s')
    (hob : s'.objs = update s.objs o (f (s.objs o))) :
    Section t o key s s' ∧ Mine t o (f b) (bytesIn s.mem (f b)) s' := by
  have hobj : s'.objs o = f (s.objs o) := by rw [hob, update_self]
  have hmi := h.reshape hf hq.live hq.mem hq.leaked hobj
  refine ⟨Mine.section hI (Local.of_quiet hq hob h.writeOwner ?_ (hf.pins _)) ?_ ?_ hq.freed hmi,
    hmi⟩
  · rw [← hobj]
    exact hmi.writeOwner
  · rw [hq.live]
    exact hI.live
  · rw [hq.live]
    exact fun _ hx => hx

/-- A section that does nothing to the object worked on. -/
lemma Mine.quiet (hI : Inv s) (h : Mine t o b bytes s) (hq : Quiet key s s')
    (hob : s'.objs = s.objs) : Section t o key s s' ∧ Mine t o b bytes s' := by
  have hid : Reshapes id b :=
    ⟨fun _ => rfl, fun _ => rfl, rfl, fun h => h, Perm.refl _, h.holds.fits⟩
  have hup := h.update hI hid hq (by rw [hob, id, update_eq_self])
  rw [id, h.bytes] at hup
  exact hup

/-- An update of the drained object worked on. -/
lemma Shed.update (hI : Inv s) (h : Shed t o cur b todo bytes s) {cur' : BlobInfo}
    (howne : cur'.writeOwner = some t) (hdra : cur'.draining = true) (hpins : cur'.pins = 0)
    (hb' : Holds s o b' todo') (hq : Quiet key s s') (hob : s'.objs = update s.objs o cur') :
    Section t o key s s' ∧ Shed t o cur' b' todo' (bytesIn s.mem b') s' := by
  have hlc : Local t o key s s' := Local.of_quiet hq hob h.writeOwner howne
    (by rw [hpins, h.info, h.pins])
  refine ⟨⟨hlc.toFrame.inv hI (hq.live ▸ hI.live) ?_ ?_, hlc, ?_⟩, ?_⟩
  · intro hd
    simp [hob, update_self, hdra] at hd
  · intro r hr ho blk hblk
    rw [hq.live]
    exact ho ▸ hI.reading r hr blk hblk
  · exact FreeSafe.of_eq hq.freed
  · exact
      { info := by rw [hob, update_self]
        owner := howne
        draining := hdra
        pins := hpins
        holds := hb'.quiet hq
        bytes := by rw [hq.mem] }

end Update

/-! ## Giving back -/

section Free

variable {t : TaskId} {o : ObjId} {key : BlobKey} {b cur : BlobInfo} {todo : List Extent}
  {bytes : Bytes} {s : State}

/-- An object without pins has no readers. -/
lemma Inv.no_reader (hI : Inv s) (h : (s.objs o).pins = 0) : ∀ r ∈ s.hist.reading, r.2.1 ≠ o := by
  intro r hr ho
  have hlen := hI.pins o
  rw [h] at hlen
  have hmem : r ∈ s.hist.reading.filter fun r => r.2.1 = o := mem_filter.mpr ⟨hr, by simpa using ho⟩
  simp [length_eq_zero_iff.mp hlen.symm] at hmem

/-- One request to free.  Nobody is reading the object, so nobody is reading what is freed. -/
lemma Shed.freeBlocks (hI : Inv s) {g : PoolId × List Extent}
    (h : Shed t o cur b (g.2 ++ todo) bytes s) :
    Section t o key s (freeBlocks g s).2 ∧ Shed t o cur b todo bytes (freeBlocks g s).2 := by
  have hpins : (s.objs o).pins = 0 := by rw [h.info, h.pins]
  have hlv : ∀ e ∈ g.2, (e, o) ∈ s.live := fun e he =>
    h.holds.live e (mem_append_right _ (mem_append_left _ he))
  have hnd : g.2.Nodup := (nodup_append.mp (nodup_append.mp h.holds.nodup).2.1).1
  have hrs : (b.allBlocks.map extent ++ todo).Nodup ∧
      ∀ e ∈ b.allBlocks.map extent ++ todo, e ∉ g.2 := by
    have hpm : (b.allBlocks.map extent ++ (g.2 ++ todo)).Perm
        (g.2 ++ (b.allBlocks.map extent ++ todo)) := perm_append_comm_assoc _ _ _
    have hnd' := nodup_append.mp (hpm.nodup_iff.mp h.holds.nodup)
    exact ⟨hnd'.2.1, fun e he heg => hnd'.2.2 e heg e he rfl⟩
  have hkp : ∀ e ∈ b.allBlocks.map extent ++ todo, (e, o) ∈ s.live := fun e he =>
    h.holds.live e (by
      rcases mem_append.mp he with he | he
      · exact mem_append_left _ he
      · exact mem_append_right _ (mem_append_right _ he))
  have hap : FreeSafe s (Cte.freeBlocks g s).2 := by
    refine ⟨g.2, ?_, fun e he r hr blk hblk => ?_⟩
    · rw [Cte.freeBlocks]
      split_ifs <;> rfl
    · refine hI.live.apart_of_ne (hI.reading r hr blk hblk) (hlv e he) fun heq => ?_
      exact hI.no_reader hpins r hr (congrArg Prod.snd heq)
  -- the two outcomes differ in what is handed out
  have hout : ∀ s', Calm key s s' → FreeSafe s s' → s'.objs = s.objs → s'.mem = s.mem →
      LiveOk s'.live → (∀ e o', o' ≠ o → ((e, o') ∈ s'.live ↔ (e, o') ∈ s.live)) →
      Holds s' o b todo →
      Section t o key s s' ∧ Shed t o cur b todo bytes s' := by
    intro s' hcm hap hob hmem hlok hoth hhd
    have hlc : Local t o key s s' :=
      { toCalm := hcm
        owner := h.writeOwner
        owner' := hob ▸ h.writeOwner
        pins := by rw [hob]
        objs := fun _ _ => by rw [hob]
        live := hoth
        mem := fun _ _ _ _ _ => by rw [hmem] }
    refine ⟨⟨hlc.toFrame.inv hI hlok ?_ ?_, hlc, hap⟩, ?_⟩
    · intro hd
      simp [hob, h.info, h.draining] at hd
    · intro r hr ho
      exact absurd ho (hI.no_reader hpins r hr)
    · exact ⟨hob ▸ h.info, h.owner, h.draining, h.pins, hhd, hmem ▸ h.bytes⟩
  have hasked := (ticked key s).trans (asked key _ g.2)
  rw [Cte.freeBlocks] at hap ⊢
  split_ifs at hap ⊢ with hok
  · -- the device takes the extents back
    set s' := ({ s.ticked.asked g.2 with live := g.2.foldl releaseExtent s.live } :
      State).modifySpace g.1 (· + (g.2.map Extent.size).sum)
    have hlv' : s'.live = s.live.filter fun x => x.1 ∉ g.2 := foldl_releaseExtent_eq hI.live hnd hlv
    refine hout s' (hasked.trans (of_eq rfl rfl rfl rfl rfl rfl rfl)) hap
      rfl rfl (hlv' ▸ hI.live.filter _)
      (fun e o' ho' => ?_) ⟨hrs.1, fun e he => ?_, h.holds.fits, fun hl e he => ?_⟩
    · rw [hlv', mem_filter]
      refine ⟨fun he => he.1, fun he => ⟨he, ?_⟩⟩
      simpa using fun heg => ho' (congrArg Prod.snd (hI.live.eq_of_start he (hlv e heg) rfl rfl))
    · rw [hlv']
      exact mem_filter.mpr ⟨hkp e he, by simpa using hrs.2 e he⟩
    · rw [hlv', mem_filter] at he
      have hin := h.holds.exact hl e he.1
      have heg : e ∉ g.2 := by simpa using he.2
      simp only [mem_append] at hin ⊢
      tauto
  · -- the extents stay handed out
    exact hout _ (hasked.trans (leak key _)) hap rfl rfl hI.live (fun _ _ _ => Iff.rfl)
      ⟨hrs.1, hkp, h.holds.fits, fun hl => absurd hl (by simp [State.leak])⟩

end Free

end ClioCore.Cte
