import ClioCore.SafeBdev.Creation
import ClioCore.SafeBdev.ParityCurrency
import ClioCore.SafeBdev.Reads

/-!
# Degraded reads over whole runs

Tasks that run one after another: `AllocateBlocks`, `Write`, `FreeBlocks`, `BuildParity`,
`RemoveBdev`, `Read`, and devices that start or stop serving requests.  Next to the container a run
carries `acked`, the specification's record of the bytes the last successful `Write` of each logical
address sent to an active member since the address became live.

A degraded `Read` decodes with the stripe as it is now.  That is the stripe the parity was built for
as long as a clean slot never changes behind the builder's back (`BdevOp.Undisturbed`): no
allocation joins the stripe of a clean written slot, and no failed `Write` lands part of its bytes.
Under that condition a `Read` of a live address returns the recorded byte or fails.

* `Observed`, `BdevOp.run` — the container, the record, and one task on them.
* `BdevOp.Undisturbed` — the condition on a task.
* `Faithful` — the invariant.
-/

namespace ClioCore.SafeBdev

open Foundations List Finset Function World
open Ec (EcRole EcState ReedSolomon)

variable {w : World} {x s d : ℕ} {chunks : List (List UInt8)}

namespace World

/-- The chunk of the address is allocated. -/
def LiveAt (w : World) (x : ℕ) : Prop := unbandSlot x ∈ (w.alloc (unbandMember x)).live

instance (w : World) (x : ℕ) : Decidable (w.LiveAt x) :=
  inferInstanceAs (Decidable (unbandSlot x ∈ (w.alloc (unbandMember x)).live))

lemma LiveAt.lt (h : w.LiveAt x) : unbandMember x < w.dataAlloc.length := by
  by_contra hge
  rw [LiveAt, alloc, getD_eq_default _ _ (not_lt.mp hge)] at h
  exact absurd h (notMem_empty _)

end World

/-! ## Tasks and the record -/

/-- A task, or a device that changes how it answers. -/
inductive BdevOp
  | allocateBlocks (size : ℕ)
  | write (blocks : List Block) (data : List UInt8)
  | freeBlocks (blocks : List Block)
  | buildParity (maxBatch : ℕ)
  | removeBdev (target : PoolId) (wasFaulty : Bool)
  | read (blocks : List Block)
  | device (pool : PoolId) (readStatus writeStatus : IoStatus)

/-- The container and the record of acknowledged bytes. -/
structure Observed where
  world : World
  acked : ℕ → Option UInt8

namespace World

/-- A device answers differently from now on. -/
def setDevice (w : World) (pool : PoolId) (readStatus writeStatus : IoStatus) : World :=
  let dv : Device := { w.dev pool with readStatus := readStatus, writeStatus := writeStatus }
  { w with dev := Function.update w.dev pool dv }

end World

/-- One task run to completion. -/
def BdevOp.run (st : Observed) : BdevOp → Observed
  | .allocateBlocks size =>
    -- A chunk that becomes live has not been written since.
    ⟨(st.world.allocateBlocks size).1, fun x => if st.world.LiveAt x then st.acked x else none⟩
  | .write blocks data =>
    ⟨(st.world.write blocks data).1,
      if (st.world.write blocks data).2.1 = 0 then
        st.world.ackBlocks data blocks 0 st.acked
      else st.acked⟩
  | .freeBlocks blocks => { st with world := st.world.freeBlocks blocks }
  | .buildParity maxBatch => { st with world := st.world.buildParity maxBatch }
  | .removeBdev target wasFaulty => { st with world := st.world.removeBdev target wasFaulty }
  | .read blocks => { st with world := (st.world.read blocks).1 }
  | .device pool readStatus writeStatus =>
    { st with world := st.world.setDevice pool readStatus writeStatus }

/-- An allocation does not join the stripe of a clean written slot, and a `Write` is below `2 ^ 64`
and leaves the devices alone if it fails. -/
def BdevOp.Undisturbed (w : World) : BdevOp → Prop
  | .allocateBlocks size => ∀ s ∈ w.writtenSlots, s ∉ w.dirtySlots →
      (w.allocateBlocks size).1.stripeMembers s = w.stripeMembers s
  | .write blocks data => (∀ b ∈ blocks, b.offset + b.size < 2 ^ 64) ∧
      ((w.write blocks data).2.1 ≠ 0 → (w.write blocks data).1.dev = w.dev)
  | _ => True

/-- A task of a run. -/
def BdevStep (st st' : Observed) : Prop := ∃ op : BdevOp, st' = op.run st

/-- A task of a run that disturbs no clean slot. -/
def UndisturbedStep (st st' : Observed) : Prop :=
  ∃ op : BdevOp, op.Undisturbed st.world ∧ st' = op.run st

/-! ## The invariant -/

/-- **The invariant**: recorded bytes of live addresses are on their devices, in slots counted as
written, and a clean written stripe has current parity. -/
structure Faithful (w : World) (acked : ℕ → Option UInt8) : Prop where
  wired : w.Wired
  bandLimited : w.BandLimited
  bytes : ∀ x v, w.LiveAt x → acked x = some v → w.byteAt x = v
  written : ∀ x v, w.LiveAt x → acked x = some v → unbandSlot x ∈ w.writtenSlots
  current : ∀ s ∈ w.writtenSlots, s ∉ w.dirtySlots → w.stripeMembers s ≠ [] → w.ParityCurrent s

namespace Faithful

variable {w w' : World} {acked : ℕ → Option UInt8}

lemma lt (h : Faithful w acked) (hx : w.LiveAt x) : unbandMember x < w.dataMembers.length := by
  rw [← h.wired.dataAlloc_length]
  exact hx.lt

/-- Device bytes change outside the live data, and clean stripes stay current. -/
lemma of_frame {P : PoolId → ℕ → Prop} (h : Faithful w acked) (hf : World.Frame P w w')
    (hdata : ∀ d < w.dataMembers.length, ∀ x, ¬ P (w.dataClient d) x)
    (hcur : ∀ s ∈ w.writtenSlots, s ∉ w.dirtySlots → w.ParityCurrent s → w'.ParityCurrent s) :
    Faithful w' acked := by
  obtain ⟨_, hdc, _, hal, hdt, hwrt, _, _⟩ := hf.fields
  have hlive : ∀ x, w'.LiveAt x ↔ w.LiveAt x := by
    intro x
    rw [World.LiveAt, World.LiveAt, alloc, alloc, hal]
  refine ⟨h.wired.of_frame hf, h.bandLimited.of_frame hf, fun x v hx hv => ?_, fun x v hx hv => ?_,
    fun s hs hd hne => ?_⟩
  · rw [hlive] at hx
    rw [← h.bytes x v hx hv, byteAt, dataClient, hdc]
    exact hf.bytes_eq (hdata _ (h.lt hx) _)
  · rw [hlive] at hx
    rw [hwrt]
    exact h.written x v hx hv
  · rw [hwrt] at hs
    rw [hdt] at hd
    rw [hf.stripeMembers_eq] at hne
    exact hcur s hs hd (h.current s hs hd hne)

lemma of_ejected (h : Faithful w acked) (hej : World.Ejected w w') : Faithful w' acked :=
  h.of_frame hej (fun _ _ _ hf => hf) fun _ _ _ hcur => hej.parityCurrent hcur

/-- A faithful container serves reads. -/
lemma serves (h : Faithful w acked) : w.Serves fun x b => w.LiveAt x →
    ∀ v, acked x = some v → b = v := by
  refine ⟨h.bandLimited, fun x _ hx v hv => h.bytes x v hx hv, fun x hdt hmem => ?_⟩
  by_cases hw : unbandSlot x ∈ w.writtenSlots
  · exact .inl (h.current _ hw hdt (ne_nil_of_mem hmem))
  · exact .inr fun b hx v hv => absurd (h.written x v hx hv) hw

end Faithful

/-! ## Allocation -/

namespace World

/-- Only the allocators, the cursor and the allocator log have changed. -/
def AllocOnly (w w' : World) : Prop :=
  ∃ cursor allocs log, w' = { w with rrCursor := cursor, dataAlloc := allocs, allocLog := log } ∧
    allocs.length = w.dataAlloc.length

variable {w w' w'' : World}

lemma AllocOnly.refl (w : World) : AllocOnly w w := ⟨_, _, _, rfl, rfl⟩

lemma AllocOnly.trans (h : AllocOnly w w') (h' : AllocOnly w' w'') : AllocOnly w w'' := by
  obtain ⟨c, a, l, rfl, hlen⟩ := h
  obtain ⟨c', a', l', rfl, hlen'⟩ := h'
  exact ⟨c', a', l', rfl, hlen'.trans hlen⟩

lemma AllocOnly.wired (h : AllocOnly w w') (hwd : w.Wired) : w'.Wired := by
  obtain ⟨c, a, l, rfl, hlen⟩ := h
  exact ⟨hwd.1, hlen.trans hwd.2, hwd.3, hwd.4, hwd.5⟩

lemma AllocOnly.parityCurrent (h : AllocOnly w w') (hstr : w'.stripeMembers s = w.stripeMembers s)
    (hcur : w.ParityCurrent s) :
    w'.ParityCurrent s := by
  obtain ⟨c, a, l, rfl, hlen⟩ := h
  intro j hj hact
  have hrow := hcur j hj hact
  rw [encodedParity, stripeChunks] at hrow ⊢
  rwa [hstr]

lemma allocOnly_pickMember (n : ℕ) (w : World) : AllocOnly w (pickMember n w).1 := by
  induction n generalizing w with
  | zero => exact .refl w
  | succ n ih =>
    rw [pickMember]
    split_ifs
    · exact ⟨_, _, _, rfl, rfl⟩
    · exact .trans ⟨_, _, _, rfl, rfl⟩ (ih _)

lemma allocOnly_allocLoop (w : World) (remaining : ℕ) (blocks : List Block) :
    AllocOnly w (w.allocLoop remaining blocks).1 := by
  induction remaining using Nat.strong_induction_on generalizing w blocks with
  | _ remaining ih =>
    rw [allocLoop]
    split_ifs with hz0
    · exact .refl w
    · have hpick := allocOnly_pickMember w.dataMembers.length w
      rcases hres : pickMember w.dataMembers.length w with ⟨w1, r⟩
      rw [hres] at hpick
      cases r with
      | none => exact hpick
      | some d =>
        have hpos := kChunkLen_pos
        have htk : AllocOnly w1 (w1.takeSlot d (min kChunkLen remaining)).1 :=
          ⟨_, _, _, rfl, length_set⟩
        exact hpick.trans (htk.trans (ih _ (by omega) (w1.takeSlot d _).1 _))

lemma allocOnly_allocateBlocks (w : World) (size : ℕ) : AllocOnly w (w.allocateBlocks size).1 := by
  rw [allocateBlocks]
  split_ifs
  · exact .refl w
  · exact .refl w
  · have h := allocOnly_allocLoop w size []
    rcases hres : w.allocLoop size [] with ⟨w1, r⟩
    rw [hres] at h
    cases r with
    | none => exact h
    | some blocks => exact h

end World

namespace Faithful

variable {w w' : World} {acked : ℕ → Option UInt8}

lemma allocateBlocks (h : Faithful w acked) {size : ℕ}
    (hcl : ∀ s ∈ w.writtenSlots, s ∉ w.dirtySlots →
      (w.allocateBlocks size).1.stripeMembers s = w.stripeMembers s) :
    Faithful (w.allocateBlocks size).1 fun x => if w.LiveAt x then acked x else none := by
  have halloc := w.allocOnly_allocateBlocks size
  generalize (w.allocateBlocks size).1 = w' at hcl halloc
  obtain ⟨c, a, l, hw', hlen⟩ := halloc
  have hold : ∀ x v, (if w.LiveAt x then acked x else none) = some v →
      w.LiveAt x ∧ acked x = some v := by
    intro x v hv
    split_ifs at hv with hx
    exact ⟨hx, hv⟩
  refine ⟨World.AllocOnly.wired ⟨c, a, l, hw', hlen⟩ h.wired, ?_, fun x v _ hv => ?_,
    fun x v _ hv => ?_, fun s hs hd hne => ?_⟩
  · rw [hw']
    exact h.bandLimited
  · rw [hw']
    exact h.bytes x v (hold x v hv).1 (hold x v hv).2
  · rw [hw']
    exact h.written x v (hold x v hv).1 (hold x v hv).2
  · have hs' : s ∈ w.writtenSlots := by rwa [hw'] at hs
    have hd' : s ∉ w.dirtySlots := by rwa [hw'] at hd
    have hstr := hcl s hs' hd'
    rw [hstr] at hne
    exact World.AllocOnly.parityCurrent ⟨c, a, l, hw', hlen⟩ hstr (h.current s hs' hd' hne)

end Faithful

/-! ## Freeing -/

namespace World

variable {w : World}

/-- Release slot `s` of member `d`. -/
def releaseSlot (w : World) (d s : ℕ) (log : Option (Finset ℕ)) : World :=
  { w with dataAlloc := w.dataAlloc.set d ((w.alloc d).release s), allocLog := log }

lemma allocOnly_releaseSlot (w : World) (d s : ℕ) (log : Option (Finset ℕ)) :
    AllocOnly w (w.releaseSlot d s log) := ⟨_, _, _, rfl, length_set⟩

lemma mem_live_releaseSlot {log : Option (Finset ℕ)} (hd : d < w.dataAlloc.length) (d' s' : ℕ)
    : s' ∈ ((w.releaseSlot d s log).alloc d').live ↔
      s' ∈ (w.alloc d').live ∧ ¬ (d' = d ∧ s' = s) := by
  rw [releaseSlot, alloc, getD_set]
  by_cases hdd : d' = d
  · subst hdd
    rw [if_pos ⟨rfl, hd⟩, MemberAlloc.live_release, mem_erase]
    tauto
  · rw [if_neg fun hc => hdd hc.1]
    tauto

/-- Other stripes keep their members. -/
lemma stripeMembers_releaseSlot {s' : ℕ} (log : Option (Finset ℕ)) (hd : d < w.dataAlloc.length)
    (hs : s' ≠ s) :
    (w.releaseSlot d s log).stripeMembers s' = w.stripeMembers s' := by
  have hlen : (w.releaseSlot d s log).dataAlloc.length = w.dataAlloc.length := length_set
  rw [stripeMembers, hlen]
  refine filter_congr fun d' _ => ?_
  simp only [mem_live_releaseSlot hd, decide_eq_decide]
  exact ⟨fun h => h.1, fun h => ⟨h, fun hc => hs hc.2⟩⟩

/-- **Freeing one block**: nothing, or the slot is released and its stripe is then forgotten or
marked dirty. -/
lemma freeBlock_cases (w : World) (b : Block) : w.freeBlock b = w ∨
      ∃ d s log, d < w.dataAlloc.length ∧ ((w.releaseSlot d s log).stripeMembers s = [] ∧
          w.freeBlock b = (w.releaseSlot d s log).forgetSlotIfEmpty s ∨
        w.freeBlock b = (w.releaseSlot d s log).markSlotDirty s) := by
  rw [freeBlock]
  by_cases hskip : w.dataAlloc.length ≤ unbandMember b.offset ∨
      unbandSlot b.offset ∉ (w.alloc (unbandMember b.offset)).live
  · exact .inl (if_pos hskip)
  · rw [if_neg hskip]
    rw [not_or, not_le] at hskip
    set log := w.allocLog.map fun l : Finset ℕ => if w.logEnabled then l.erase b.offset else l
    refine .inr ⟨unbandMember b.offset, unbandSlot b.offset, log, hskip.1, ?_⟩
    by_cases hemp : (w.releaseSlot (unbandMember b.offset) (unbandSlot b.offset)
        log).stripeMembers (unbandSlot b.offset) = []
    · exact .inl ⟨hemp, if_pos hemp⟩
    · exact .inr (if_neg hemp)

end World

namespace Faithful

variable {w : World} {acked : ℕ → Option UInt8}

/-- Releasing a slot and changing its marks keeps the record, if a slot that is still part of a
stripe ends up dirty and written. -/
lemma release (h : Faithful w acked) {log : Option (Finset ℕ)} (hd : d < w.dataAlloc.length)
    {written dirty : Finset ℕ}
    (hoth : ∀ s', s' ≠ s → (s' ∈ written ↔ s' ∈ w.writtenSlots) ∧ (s' ∈ dirty ↔ s' ∈ w.dirtySlots))
    (hsf : (w.releaseSlot d s log).stripeMembers s = [] ∨ s ∈ written ∧ s ∈ dirty) :
    Faithful { w.releaseSlot d s log with writtenSlots := written, dirtySlots := dirty } acked := by
  have hlive : ∀ x, (w.releaseSlot d s log).LiveAt x → w.LiveAt x :=
    fun x hx => ((mem_live_releaseSlot hd _ _).mp hx).1
  have hwd := (w.allocOnly_releaseSlot d s log).wired h.wired
  refine ⟨⟨hwd.1, hwd.2, hwd.3, hwd.4, hwd.5⟩, h.bandLimited,
    fun x v hx hv => h.bytes x v (hlive x hx) hv, fun x v hx hv => ?_, fun s' hs' hd' hne => ?_⟩
  · by_cases hxs : unbandSlot x = s
    · -- A live address keeps its stripe from being empty.
      have hmem := (mem_stripeMembers (w := w.releaseSlot d s log)).mpr ⟨hx.lt, hx⟩
      rw [hxs] at hmem ⊢
      rcases hsf with hemp | hmk
      · simp [hemp] at hmem
      · exact hmk.1
    · exact ((hoth _ hxs).1).mpr (h.written x v (hlive x hx) hv)
  · by_cases hss : s' = s
    · subst hss
      rcases hsf with hemp | hmk
      · exact absurd hemp hne
      · exact absurd hmk.2 hd'
    · have hs0 := ((hoth s' hss).1).mp hs'
      have hd0 : s' ∉ w.dirtySlots := fun hc => hd' (((hoth s' hss).2).mpr hc)
      have hstr := stripeMembers_releaseSlot log hd hss
      have hne0 : w.stripeMembers s' ≠ [] := by
        rwa [← hstr]
      exact (w.allocOnly_releaseSlot d s log).parityCurrent hstr (h.current s' hs0 hd0 hne0)

lemma freeBlock (h : Faithful w acked) (b : Block) : Faithful (w.freeBlock b) acked := by
  rcases w.freeBlock_cases b with heq | ⟨d, s, log, hd, ⟨hemp, heq⟩ | heq⟩
  · rwa [heq]
  · rw [heq, forgetSlotIfEmpty]
    split_ifs
    · exact h.release hd (fun s' _ => ⟨.rfl, .rfl⟩) (.inl hemp)
    · refine h.release hd (fun s' hs' => ?_) (.inl hemp)
      exact ⟨by simp [hs', releaseSlot], by simp [hs', releaseSlot]⟩
  · rw [heq]
    refine h.release hd (fun s' hs' => ?_) (.inr ⟨by simp, by simp⟩)
    exact ⟨by simp [hs', releaseSlot], by simp [hs', releaseSlot]⟩

lemma freeBlocks (h : Faithful w acked) (blocks : List Block) :
    Faithful (w.freeBlocks blocks) acked :=
  foldlRecOn (motive := fun w => Faithful w acked) _ _ h fun _ hw b _ => hw.freeBlock b

/-! ## Writing, building parity, membership -/

section

variable (h : Faithful w acked)
include h

lemma write {blocks : List Block} {data : List UInt8}
    (h64 : ∀ b ∈ blocks, b.offset + b.size < 2 ^ 64) (hrc : (w.write blocks data).2.1 = 0) :
    Faithful (w.write blocks data).1 (w.ackBlocks data blocks 0 acked) := by
  obtain ⟨hok, _, heq⟩ := write_eq_zero hrc
  have hfrm := write_frame h.bandLimited data h64
  have hwd := h.wired.of_frame hfrm
  have hband := h.bandLimited.of_frame hfrm
  have hby : ∀ x v, w.LiveAt x → w.ackBlocks data blocks 0 acked x = some v → _ :=
    fun x v => write_acked h.wired h.bandLimited hrc (fun x v hx hv => ⟨h.lt hx, h.bytes x v hx hv⟩)
  rw [heq]
  refine ⟨⟨hwd.1, hwd.2, hwd.3, hwd.4, hwd.5⟩, fun p => hband p,
    fun x v hx hv => (hby x v hx hv).2, fun x v hx hv => ?_, fun s hs hd hne => ?_⟩
  · rcases ackBlocks_cases hv with hold | ⟨b, hb, hcov⟩
    · exact mem_union_left _ (h.written x v hx hold)
    · have hsz : b.size ≠ 0 := by
        have h1 := hcov.1
        have h2 := hcov.2
        omega
      exact mem_union_right _
        ((dispatchedIn_of_mem hok hb hsz).touched (hcov.slot_mem_touched (h64 b hb)))
  · -- A slot that stays clean was not touched.
    have hnt : s ∉ (w.dispatch blocks data).touched := fun hc => hd (mem_union_right _ hc)
    have hs0 : s ∈ w.writtenSlots := (mem_union.mp hs).resolve_right hnt
    have hd0 : s ∉ w.dirtySlots := fun hc => hd (mem_union_left _ hc)
    exact hfrm.parityCurrent (fun p x hx hP => hnt (hP s hx)) (h.current s hs0 hd0 hne)

/-- Building the parity of a dirty slot. -/
lemma buildSlot (hs : s ∈ w.dirtySlots) :
    Faithful (w.buildSlot s) acked ∧ ∀ s' ∈ w.dirtySlots, s' ≠ s →
    s' ∈ (w.buildSlot s).dirtySlots := by
  obtain ⟨w1, hfrm, hres⟩ := buildSlot_spec h.wired s
  have hdt : w1.dirtySlots = w.dirtySlots := hfrm.fields.2.2.2.2.1
  have h1 : Faithful w1 acked := by
    refine h.of_frame hfrm (fun d hd x => h.wired.not_parityFootprint hd) fun s' _ hd' => ?_
    refine hfrm.parityCurrent fun p x hx hP => ?_
    rw [inSlot_unique hx hP.2] at hd'
    exact hd' hs
  rcases hres with heq | ⟨heq, hcur⟩
  · rw [heq, hdt]
    exact ⟨h1, fun s' hs' _ => hs'⟩
  · rw [heq]
    refine ⟨⟨⟨h1.wired.1, h1.wired.2, h1.wired.3, h1.wired.4, h1.wired.5⟩, h1.bandLimited,
      h1.bytes, h1.written, fun s' hs' hd' hne => ?_⟩, fun s' hs' hne => ?_⟩
    · by_cases hss : s' = s
      · subst hss
        exact hcur (by rw [← hfrm.stripeMembers_eq]; exact hne)
      · refine h1.current s' hs' (fun hc => hd' ?_) hne
        exact mem_erase.mpr ⟨hss, hc⟩
    · exact mem_erase.mpr ⟨hne, by rwa [hdt]⟩

lemma foldl_buildSlot {batch : List ℕ} (hnd : batch.Nodup) (hdt : ∀ s ∈ batch, s ∈ w.dirtySlots)
    : Faithful (batch.foldl World.buildSlot w) acked := by
  induction batch generalizing w with
  | nil => exact h
  | cons s batch ih =>
    obtain ⟨hs, hnd'⟩ := nodup_cons.mp hnd
    obtain ⟨h', hkp⟩ := h.buildSlot (hdt s (by simp))
    refine ih h' hnd' fun s' hs' => hkp s' (hdt s' (by simp [hs'])) ?_
    rintro rfl
    exact hs hs'

lemma buildParity (maxBatch : ℕ) : Faithful (w.buildParity maxBatch) acked := by
  rw [World.buildParity]
  split_ifs with hlv
  · refine ⟨⟨h.wired.1, h.wired.2, h.wired.3, h.wired.4, h.wired.5⟩, h.bandLimited, h.bytes,
      h.written, fun s _ _ _ j hj => ?_⟩
    have hj' : j < w.parityLevel := hj
    omega
  · have hsub : (w.parityBatch maxBatch).Sublist w.dirtySlots.sort := by
      rw [parityBatch]
      split_ifs
      · exact .refl _
      · exact take_sublist _ _
    exact h.foldl_buildSlot (hsub.nodup (sort_nodup _ _)) fun s hs =>
      (mem_sort _).mp (hsub.subset hs)

/-- A change of members that makes no parity member active. -/
lemma of_members {dm pm : List MemberSlot} (log : List MemberManifestEntry)
    (hdm : dm.length = w.dataMembers.length) (hpm : pm.length = w.parityMembers.length)
    (hact : ∀ j, (pm.getD j default).state = .active → (w.parityMember j).state = .active) :
    Faithful { w with dataMembers := dm, parityMembers := pm, memberLog := log } acked := by
  refine ⟨⟨h.wired.1.trans hdm.symm, h.wired.2.trans hdm.symm, h.wired.3.trans hpm.symm,
    h.wired.4.trans hpm.symm, h.wired.5⟩, h.bandLimited, h.bytes, h.written,
    fun s hs hd hne j hj hj' => ?_⟩
  exact h.current s hs hd hne j hj (hact j hj')

lemma persistMemberManifest : Faithful w.persistMemberManifest acked := by
  rw [World.persistMemberManifest]
  split_ifs
  · exact h.of_members _ rfl rfl fun _ hact => hact
  · exact h

lemma removeBdev (target : PoolId) (wasFaulty : Bool) :
    Faithful (w.removeBdev target wasFaulty) acked := by
  rw [World.removeBdev]
  cases w.dataMembers.findIdx? (·.poolId = target) with
  | some i =>
    refine persistMemberManifest ?_
    exact h.of_members w.memberLog (length_modify ..) rfl fun _ hact => hact
  | none =>
    cases w.parityMembers.findIdx? (·.poolId = target) with
    | none => exact h
    | some j =>
      refine persistMemberManifest (h.of_members w.memberLog rfl (length_modify ..) ?_)
      intro i hact
      rw [getD_modify] at hact
      by_cases hij : i = j ∧ j < w.parityMembers.length
      · rw [if_pos hij] at hact
        cases wasFaulty with
        | true => simp at hact
        | false => simp at hact
      · rwa [if_neg hij] at hact

/-- How the devices answer is no part of the record. -/
lemma setDevice (pool : PoolId) (readStatus writeStatus : IoStatus) :
    Faithful (w.setDevice pool readStatus writeStatus) acked := by
  have hdev : ∀ p, ((w.setDevice pool readStatus writeStatus).dev p).bytes = (w.dev p).bytes ∧
      ((w.setDevice pool readStatus writeStatus).dev p).capacity = (w.dev p).capacity := by
    intro p
    by_cases hp : p = pool
    · subst hp
      simp [World.setDevice]
    · simp [World.setDevice, update_of_ne hp]
  refine ⟨⟨h.wired.1, h.wired.2, h.wired.3, h.wired.4, h.wired.5⟩, fun p => ?_, fun x v hx hv => ?_,
    h.written, fun s hs hd hne j hj hact => ?_⟩
  · rw [(hdev p).2]
    exact h.bandLimited p
  · rw [byteAt, (hdev _).1]
    exact h.bytes x v hx hv
  · have hrow := h.current s hs hd hne j hj hact
    simp only [parityAt, encodedParity, stripeChunks, chunkAt, hdev]
    exact hrow

end

/-- Every undisturbed task keeps the invariant. -/
lemma run {st : Observed} (h : Faithful st.world st.acked) {op : BdevOp}
    (hop : op.Undisturbed st.world) : Faithful (op.run st).world (op.run st).acked := by
  cases op with
  | allocateBlocks size => exact h.allocateBlocks hop
  | write blocks data =>
    simp only [BdevOp.run]
    split_ifs with hrc
    · exact h.write hop.1 hrc
    · obtain ⟨dev', heq⟩ := write_ne_zero hrc
      have hdev := hop.2 hrc
      rw [heq] at hdev ⊢
      obtain rfl : dev' = st.world.dev := hdev
      exact h
  | freeBlocks blocks => exact h.freeBlocks blocks
  | buildParity maxBatch => exact h.buildParity maxBatch
  | removeBdev target wasFaulty => exact h.removeBdev target wasFaulty
  | read blocks => exact h.of_ejected (st.world.ejected_read blocks)
  | device pool readStatus writeStatus => exact h.setDevice pool readStatus writeStatus

/-- A fresh array is faithful to the empty record. -/
lemma of_fresh (h : w.Fresh) : Faithful w fun _ => none := by
  refine ⟨h.wired, h.bandLimited, fun x v _ hv => absurd hv (Option.some_ne_none v).symm,
    fun x v _ hv => absurd hv (Option.some_ne_none v).symm, fun s hs => ?_⟩
  rw [h.written_empty] at hs
  exact absurd hs (notMem_empty s)

/-- Every state an undisturbed run reaches is faithful. -/
lemma steps {st st' : Observed} (h : Faithful st.world st.acked)
    (hrun : Relation.ReflTransGen UndisturbedStep st st') : Faithful st'.world st'.acked := by
  induction hrun with
  | refl => exact h
  | tail _ hstp ih =>
    obtain ⟨op, hop, rfl⟩ := hstp
    exact ih.run hop

end Faithful

/-- **Degraded reads return the acknowledged bytes or fail**, in undisturbed runs.  Create an array
without logs, add parity members, and run any tasks that disturb no clean slot.  A `Read` that
returns `0` then returns, at every live address with an acknowledged byte, that byte — whichever
members are down. -/
theorem read_returns_acked_of_undisturbed_run {w w₁ : World} {params : CreateParams}
    {adds : List (PoolId × String × ℕ)} (hlog : w.memberLog = []) (halloc : w.allocLog = none)
    (hband : w.BandLimited)
    (hpools : (params.members.map (·.poolId) ++ adds.map (·.1)).Nodup)
    (hcreate : w.create params = (w₁, 0)) {st : Observed}
    (hrun : Relation.ReflTransGen UndisturbedStep ⟨w₁.addParities adds, fun _ => none⟩ st)
    {blocks : List Block} (h64 : ∀ b ∈ blocks, b.offset + b.size < 2 ^ 64)
    (hrc : (st.world.read blocks).2.1 = 0) :
    List.Forall₂ (fun x b => st.world.LiveAt x → ∀ v, st.acked x = some v → b = v)
      (addresses blocks) (st.world.read blocks).2.2 := by
  obtain ⟨hfr, hdc, hpc⟩ := fresh_create hlog halloc hband (nodup_append.mp hpools).1 hcreate
  have hfr' : (w₁.addParities adds).Fresh := by
    refine hfr.addParities ?_
    rw [hdc, hpc, append_nil]
    exact hpools
  have hfai := (Faithful.of_fresh hfr').steps hrun
  exact read_serves hfai.serves hfai.wired h64 hrc

/-! ## Two data members and a parity member

`f` and `g` are the contents of the first data device and of the parity device; the second data
device holds zeros. -/

/-- A device of one slot. -/
def pairDisk (f : ℕ → UInt8) : Device :=
  ⟨f, some ⟨9, 0⟩, kSuperblockSize + kChunkLen, kSuperblockSize + kChunkLen, 0, true, .ok, .ok⟩

/-- The devices. -/
def pairDev (f g : ℕ → UInt8) (p : PoolId) : Device :=
  pairDisk (if p = ⟨1, 0⟩ then f else if p = ⟨3, 0⟩ then g else fun _ => 0)

/-- The configuration. -/
def pairParams : CreateParams := ⟨1, [⟨⟨1, 0⟩, "a", 0⟩, ⟨⟨2, 0⟩, "b", 0⟩], false⟩

/-- The array: state and allocator of the first member, allocator of the second, cursor, marks. -/
def pair (state : EcState) (a₀ a₁ : MemberAlloc) (cursor : ℕ) (written dirty : Finset ℕ)
    (f g : ℕ → UInt8) : World where
  poolId := ⟨9, 0⟩
  dataMembers :=
    [⟨⟨1, 0⟩, "a", 0, .data, state, 0, false⟩, ⟨⟨2, 0⟩, "b", 0, .data, .active, 1, false⟩]
  parityMembers := [⟨⟨3, 0⟩, "p", 0, .parity, .active, 0, false⟩]
  dataClients := [⟨1, 0⟩, ⟨2, 0⟩]
  parityClients := [⟨3, 0⟩]
  dataAlloc := [a₀, a₁]
  rrCursor := cursor
  dirtySlots := dirty
  writtenSlots := written
  parityLevel := 1
  dev := pairDev f g

/-- The surroundings before `Create`. -/
def pairBlank : World where
  poolId := ⟨9, 0⟩
  dev := pairDev (fun _ => 0) fun _ => 0

namespace pair

open mirror (chunk parity length_parity)

variable {f g : ℕ → UInt8} {written dirty : Finset ℕ} {a₀ a₁ : MemberAlloc}

/-- A member whose one slot is free. -/
abbrev free : MemberAlloc := ⟨0, 1, [], ∅⟩

/-- A member whose one slot is taken. -/
abbrev taken : MemberAlloc := ⟨1, 1, [], {0}⟩

lemma update_data (h : ℕ → UInt8) : update (pairDev f g) ⟨1, 0⟩ (pairDisk h) = pairDev h g := by
  funext p
  by_cases hp : p = ⟨1, 0⟩
  · rw [hp]
    rfl
  · rw [update_of_ne hp, pairDev, pairDev, if_neg hp, if_neg hp]

lemma update_parity (h : ℕ → UInt8) : update (pairDev f g) ⟨3, 0⟩ (pairDisk h) = pairDev f h := by
  funext p
  by_cases hp : p = ⟨3, 0⟩
  · rw [hp]
    rfl
  · rw [update_of_ne hp, pairDev, pairDev, if_neg hp, if_neg hp]

lemma create_ok : (pairBlank.create pairParams).2 = 0 := by with_unfolding_all rfl

/-- The array as created, with its parity member added. -/
lemma created : (pairBlank.create pairParams).1.addParities [(⟨3, 0⟩, "p", 0)]
    = pair .active free free 0 ∅ ∅ (fun _ => 0) fun _ => 0 := by
  have hsta : (pairBlank.create pairParams).1.addParities [(⟨3, 0⟩, "p", 0)]
      = { pair .active free free 0 ∅ ∅ (fun _ => 0) fun _ => 0 with
          dev := update (pairDev (fun _ => 0) fun _ => 0) ⟨3, 0⟩ (pairDisk fun _ => 0) } := by
    with_unfolding_all rfl
  rw [hsta, update_parity]
  rfl

/-! ### Writing and building parity -/

variable (v : UInt8)

lemma write_first : (pair .active a₀ a₁ 1 written dirty f g).write [⟨0, 1⟩] [v]
      = (pair .active a₀ a₁ 1 (written ∪ {0}) (dirty ∪ {0}) (writeRange f kSuperblockSize [v]) g,
        0, 1) := by
  have hland : (pair .active a₀ a₁ 1 written dirty f g).write [⟨0, 1⟩] [v]
      = ({ pair .active a₀ a₁ 1 (written ∪ {0}) (dirty ∪ {0}) f g with
          dev := update (pairDev f g) ⟨1, 0⟩ (pairDisk (writeRange f kSuperblockSize [v])) }, 0,
            1) := by
    with_unfolding_all rfl
  rw [hland, update_data]
  rfl

lemma buildParity_one {w1 w2 : World} (hlv : w.parityLevel ≠ 0) (hdt : w.dirtySlots = {s})
    (hstr : w.stripeMembers s ≠ [])
    (hrd : readStripeChunks s w (w.stripeMembers s) = (w1, some chunks))
    (hrows : writeParityRows s chunks w1 (List.range w1.parityLevel) = (w2, true)) :
    w.buildParity 0 = { w2 with dirtySlots := w2.dirtySlots.erase s } := by
  have hbat : w.parityBatch 0 = [s] := by
    rw [parityBatch, hdt]
    exact sort_singleton _ _
  rw [buildParity, if_neg hlv, hbat, foldl_cons, buildSlot, if_neg hstr, hrd]
  simp [hrows]

lemma build_first : (pair .active taken free 1 written {0} f g).buildParity 0
      = pair .active taken free 1 written ∅ f
        (writeRange g kSuperblockSize (parity f)) := by
  set w := pair .active taken free 1 written {0} f g
  have hrd : readStripeChunks 0 w (w.stripeMembers 0) = (w, some [chunk f]) := by
    with_unfolding_all rfl
  have hwr : w.writeParityChunk 0 0 (parity f)
      = ({ w with dev := pairDev f (writeRange g kSuperblockSize (parity f)) }, true) := by
    have hdev : (w.dev (w.parityClient 0)).write (slotPhysOffset 0) (parity f) = some _ :=
      if_pos ⟨rfl, by rw [slotPhysOffset_zero, length_parity]; exact le_rfl⟩
    rw [← update_parity, ← slotPhysOffset_zero, writeParityChunk, hdev]
    exact congrArg (·, _) (maybeFaultParity_of_ne _ 0 IoStatus.noConfusion)
  have hrows : writeParityRows 0 [chunk f] w [0]
      = ({ w with dev := pairDev f (writeRange g kSuperblockSize (parity f)) }, true) := by
    have hcod : (w.getCodec [chunk f].length).encodeParityShard 0 [chunk f] kChunkLen =
        parity f := by
      rfl
    rw [writeParityRows, hcod, hwr]
    rfl
  have hstr : w.stripeMembers 0 ≠ [] := cons_ne_nil 0 []
  rw [buildParity_one one_ne_zero rfl hstr hrd hrows]
  rfl

/-! ### Losing the first member -/

lemma read_one_degraded {w' : World} {stripe : List ℕ} {pos : ℕ}
    (hrec : w.reconstructStripe 0 stripe 0 = (w', some chunks)) (hstr : w.stripeMembers 0 = stripe)
    (hpos : stripe.findIdx? (· = 0) = some pos) (hmem : w.dataMembers.length ≠ 0)
    (hdown : (w.dataMember 0).state ≠ .active) (hcl : 0 ∉ w.dirtySlots) :
    (w.read [⟨0, 1⟩]).2 = (0, (chunks.getD pos []).take 1) := by
  obtain ⟨hmb, hsl, hwin⟩ := unband_zero
  have hend : min 1 (0 / kChunkLen * kChunkLen + kChunkLen) = 1 := by
    have hpos := kChunkLen_pos
    omega
  have hlp : w.readDegraded 0 1 [] = (w', some ((chunks.getD pos []).take 1)) := by
    rw [readDegraded, dif_pos one_pos]
    simp only [hsl, hmb, hwin, if_neg hcl, hstr, hpos, hrec, hend]
    rw [readDegraded, dif_neg (lt_irrefl 1), nil_append, drop_zero]
  have hblo : w.readBlock ⟨0, 1⟩ = (w', some ((chunks.getD pos []).take 1)) := by
    rwa [readBlock, hmb, if_neg (by omega), if_neg hdown]
  have hne : ¬ (w.dataMembers = [] ∨ [(⟨0, 1⟩ : Block)] = []) := by
    rintro (h | h)
    · exact hmem (congrArg length h)
    · exact cons_ne_nil _ _ h
  rw [World.read, if_neg hne, World.readBlocks, hblo]
  simp [readBlocks]

/-- While the first member is alone in its stripe, only the parity survives it. -/
lemma reconstruct_alone (cursor : ℕ) :
    (pair .faulty taken free cursor written dirty f g).reconstructStripe 0 [0] 0
      = (pair .faulty taken free cursor written dirty f g,
        (⟨1, 1⟩ : ReedSolomon).decodeData [1] [chunk g] kChunkLen) := by
  set w := pair .faulty taken free cursor written dirty f g
  have hgat : w.gather 0 [0] 0 = (w, [1], [chunk g]) := by with_unfolding_all rfl
  rw [reconstructStripe, hgat]
  rfl

/-- Once the second member has joined, its zeros count as data of the stripe. -/
lemma reconstruct_joined (cursor : ℕ) :
    (pair .faulty taken taken cursor written dirty f g).reconstructStripe 0 [0, 1] 0
      = (pair .faulty taken taken cursor written dirty f g,
        (⟨2, 1⟩ : ReedSolomon).decodeData [1, 2] [chunk fun _ => 0, chunk g] kChunkLen) := by
  set w := pair .faulty taken taken cursor written dirty f g
  have hgat : w.gather 0 [0, 1] 0 = (w, [1, 2], [chunk fun _ => 0, chunk g]) := by
    with_unfolding_all rfl
  rw [reconstructStripe, hgat]
  rfl

/-! ### What the decoder makes of the old parity -/

lemma chunk_length (f : ℕ → UInt8) : (chunk f).length = kChunkLen := length_readRange

/-- The parity of one chunk is, for the two-column code, the parity of twice that chunk beside a
chunk of zeros. -/
lemma encodeParityShard_joined {a z : List UInt8} {len : ℕ} (ha : a.length = len)
    (hz : ∀ t < len, z.getD t 0 = 0) :
    (⟨1, 1⟩ : ReedSolomon).encodeParityShard 0 [a] len
      = (⟨2, 1⟩ : ReedSolomon).encodeParityShard 0 [a.map (Ec.gfMul 2), z] len := by
  have hone : Ec.toGf ((⟨1, 1⟩ : ReedSolomon).cauchyCoeff 0 0) = 1 := by
    have hpoi : Ec.gfAdd (.ofNat (1 + 0)) (.ofNat 0) = 1 := by decide
    rw [ReedSolomon.cauchyCoeff_eq _ one_pos one_pos, hpoi, Ec.toGf_gfInv (by decide),
      Ec.toGf_one, inv_one]
  have htwo : Ec.toGf ((⟨2, 1⟩ : ReedSolomon).cauchyCoeff 0 0) = (Ec.toGf 2)⁻¹ := by
    have hpoi : Ec.gfAdd (.ofNat (2 + 0)) (.ofNat 0) = 2 := by decide
    rw [ReedSolomon.cauchyCoeff_eq _ one_pos two_pos, hpoi, Ec.toGf_gfInv (by decide)]
  have hne : Ec.toGf 2 ≠ 0 := fun h => absurd (Ec.toGf_eq_zero.mp h) (by decide)
  apply ext_getElem
  · rw [ReedSolomon.encodeParityShard_length, ReedSolomon.encodeParityShard_length]
  · intro t ht ht'
    have hlt : t < len := ht.trans_eq (ReedSolomon.encodeParityShard_length _ _ _ _)
    have hdou : (a.map (Ec.gfMul 2)).getD t 0 = Ec.gfMul 2 (a.getD t 0) := by
      rw [getD_eq_getElem _ _ (by rwa [length_map, ha]),
        getD_eq_getElem _ _ (hlt.trans_eq ha.symm), getElem_map]
    apply Ec.toGf_injective
    rw [← getD_eq_getElem _ 0 ht, ← getD_eq_getElem _ 0 ht',
      ReedSolomon.toGf_encodeParityShard _ _ _ hlt, ReedSolomon.toGf_encodeParityShard _ _ _ hlt,
      sum_range_one, Finset.sum_range_succ, sum_range_one, hone, htwo]
    simp only [getD_cons_zero, getD_cons_succ, hz t hlt, hdou, Ec.toGf_gfMul,
      Ec.toGf_zero, mul_zero, add_zero, one_mul, inv_mul_cancel_left₀ hne]

lemma decode_joined (f : ℕ → UInt8) :
    (⟨2, 1⟩ : ReedSolomon).decodeData [1, 2] [chunk fun _ => 0, parity f] kChunkLen
      = some [(chunk f).map (Ec.gfMul 2), chunk fun _ => 0] := by
  obtain ⟨out, hout⟩ : ∃ out, (⟨2, 1⟩ : ReedSolomon).decodeData [1, 2]
      [chunk fun _ => 0, parity f] kChunkLen = some out :=
    ReedSolomon.decodeData_total ⟨2, 1⟩ le_rfl (by norm_num) le_rfl (by simp) (by simp) _ _
  have hsurv : ∀ i < 2, [chunk fun _ => 0, parity f].getD i [] = (⟨2, 1⟩ : ReedSolomon).shardOf
      [(chunk f).map (Ec.gfMul 2), chunk fun _ => 0] kChunkLen ([1, 2].getD i 0) := by
    intro i hi
    interval_cases i
    · exact (if_pos one_lt_two).symm
    · simp only [ReedSolomon.shardOf, getD_cons_succ, getD_cons_zero, lt_irrefl, if_false,
        Nat.sub_self]
      exact encodeParityShard_joined (chunk_length f) fun t ht => getD_readRange ht 0
  have hsha : ∀ d ∈ [(chunk f).map (Ec.gfMul 2), chunk fun _ => 0], d.length = kChunkLen := by
    simp [chunk_length]
  rw [hout, ReedSolomon.decodeData_sound ⟨2, 1⟩ rfl hsha hsurv hout]

/-! ### The runs -/

/-- The bytes of the first device after the write of `v`. -/
def stored : ℕ → UInt8 := writeRange (fun _ => 0) kSuperblockSize [v]

/-- The bytes of the parity device once the first slot is built. -/
def protection : ℕ → UInt8 :=
  writeRange (fun _ => 0) kSuperblockSize (parity (stored v))

lemma chunk_protection : chunk (protection v) = parity (stored v) := by
  rw [chunk, ← length_parity]
  exact readRange_writeRange_self

/-- The array once `v` has been written and the first slot built. -/
abbrev built (state : EcState) (a₁ : MemberAlloc) (cursor : ℕ) : World :=
  pair state taken a₁ cursor {0} ∅ (stored v) (protection v)

/-- Steps from the array as created to `w`, with `v` acknowledged. -/
def Leads (step : Observed → Observed → Prop) (w : World) : Prop :=
  ∃ acked : ℕ → Option UInt8, acked 0 = some v ∧ Relation.ReflTransGen step
    ⟨(pairBlank.create pairParams).1.addParities [(⟨3, 0⟩, "p", 0)], fun _ => none⟩ ⟨w, acked⟩

/-- Allocate a chunk, write `v` to it and build its parity. -/
lemma steps_build : Leads v UndisturbedStep (built v .active free 1) := by
  rw [Leads, created]
  set w0 := pair .active free free 0 ∅ ∅ (fun _ => 0) (fun _ => 0)
  set w1 := pair .active taken free 1 ∅ ∅ (fun _ => 0) (fun _ => 0) with hw1
  have hwr : w1.write [⟨0, 1⟩] [v]
      = (pair .active taken free 1 {0} {0} (stored v) (fun _ => 0), 0, 1) :=
    write_first v
  have halloc : UndisturbedStep ⟨w0, fun _ => none⟩ ⟨w1, fun _ => none⟩ := by
    refine ⟨.allocateBlocks 1, fun s hs => absurd hs (notMem_empty s), ?_⟩
    simp only [BdevOp.run, ite_self, hw1]
    with_unfolding_all rfl
  have hstp : UndisturbedStep ⟨w1, fun _ => none⟩
      ⟨pair .active taken free 1 {0} {0} (stored v) (fun _ => 0),
        w1.ackBlocks [v] [⟨0, 1⟩] 0 fun _ => none⟩ := by
    refine ⟨.write [⟨0, 1⟩] [v], ⟨by simp, fun hne => absurd ?_ hne⟩, ?_⟩
    · rw [hwr]
    · simp only [BdevOp.run, hwr, if_true]
  have hbld : UndisturbedStep
      ⟨pair .active taken free 1 {0} {0} (stored v) (fun _ => 0),
        w1.ackBlocks [v] [⟨0, 1⟩] 0 fun _ => none⟩
      ⟨built v .active free 1, w1.ackBlocks [v] [⟨0, 1⟩] 0 fun _ => none⟩ := by
    refine ⟨.buildParity 0, trivial, ?_⟩
    simp only [BdevOp.run]
    rw [build_first]
    rfl
  have hack : w1.ackBlocks [v] [⟨0, 1⟩] 0 (fun _ => none) 0 = some v := by
    have hcov : (⟨0, 1⟩ : Block).Covers 0 := by simp [Block.Covers]
    rw [ackBlocks, ackBlocks, ackBlock, if_pos hcov, unband_zero.1]
    exact if_pos rfl
  exact ⟨_, hack, ((Relation.ReflTransGen.single halloc).tail hstp).tail hbld⟩

lemma liveAt_zero {state : EcState} {cursor : ℕ} :
    (pair state taken a₁ cursor written dirty f g).LiveAt 0 := by
  rw [World.LiveAt, unband_zero.1, unband_zero.2.1]
  exact Finset.mem_singleton_self 0

lemma steps_remove : Leads v UndisturbedStep (built v .faulty free 1) := by
  obtain ⟨acked, hack, hrun⟩ := steps_build v
  exact ⟨acked, hack, hrun.tail ⟨.removeBdev ⟨1, 0⟩ true, trivial, rfl⟩⟩

/-- As before, but a second chunk joins the built stripe before the member goes. -/
lemma steps_join_remove : Leads v BdevStep (built v .faulty taken 0) := by
  obtain ⟨acked, hack, hrun⟩ := steps_build v
  set w := built v .active free 1
  have hlive : w.LiveAt 0 := liveAt_zero
  have hjoin : BdevStep ⟨w, acked⟩
      ⟨built v .active taken 0, fun x => if w.LiveAt x then acked x else none⟩ := by
    refine ⟨.allocateBlocks 1, ?_⟩
    simp only [BdevOp.run]
    with_unfolding_all rfl
  have hmono := Relation.ReflTransGen.mono (fun _ _ h => h.imp fun _ hop => hop.2) _ _ hrun
  exact ⟨_, (if_pos hlive).trans hack, (hmono.tail hjoin).tail ⟨.removeBdev ⟨1, 0⟩ true, rfl⟩⟩

/-- The joined stripe decodes the old parity into twice the byte. -/
lemma read_joined : ((built v .faulty taken 0).read [⟨0, 1⟩]).2 = (0, [Ec.gfMul 2 v]) := by
  have hrec : (built v .faulty taken 0).reconstructStripe 0 [0, 1] 0 = _ := reconstruct_joined 0
  rw [chunk_protection, decode_joined] at hrec
  rw [read_one_degraded hrec rfl rfl two_ne_zero EcState.noConfusion (notMem_empty 0)]
  have hchk : (chunk (stored v)).take 1 = [v] := by
    rw [chunk, take_readRange kChunkLen_pos]
    exact readRange_writeRange_self
  rw [getD_cons_zero, ← map_take, hchk]
  rfl

lemma read_alone : ((built v .faulty free 1).read [⟨0, 1⟩]).2.1 = 0 := by
  have hrec : (built v .faulty free 1).reconstructStripe 0 [0] 0 = _ := reconstruct_alone 1
  obtain ⟨out, hout⟩ : ∃ out, (⟨1, 1⟩ : ReedSolomon).decodeData [1] [chunk (protection v)]
      kChunkLen = some out :=
    ReedSolomon.decodeData_total ⟨1, 1⟩ le_rfl (by norm_num) le_rfl (by simp) (by simp) _ _
  rw [hout] at hrec
  rw [read_one_degraded hrec rfl rfl two_ne_zero EcState.noConfusion (notMem_empty 0)]

end pair

/-- A chunk of a faulty member, written and built before it went down, is read back from parity. -/
theorem read_returns_acked_of_undisturbed_run_pair : ∃ st : Observed,
    Relation.ReflTransGen UndisturbedStep
      ⟨(pairBlank.create pairParams).1.addParities [(⟨3, 0⟩, "p", 0)], fun _ => none⟩ st ∧
    (st.world.dataMember 0).state = .faulty ∧ st.acked 0 = some 7 ∧
      (st.world.read [⟨0, 1⟩]).2 = (0, [7]) := by
  obtain ⟨acked, hack, hrun⟩ := pair.steps_remove 7
  refine ⟨_, hrun, rfl, hack, ?_⟩
  have hband : pairBlank.BandLimited := fun p =>
    Nat.add_le_add_left (Nat.le_mul_of_pos_left _ kSlotsPerMember_pos) _
  have hcreate : pairBlank.create pairParams = ((pairBlank.create pairParams).1, 0) :=
    Prod.ext rfl pair.create_ok
  have hrd := read_returns_acked_of_undisturbed_run rfl rfl hband (by decide) hcreate hrun (by simp)
    (pair.read_alone 7)
  obtain ⟨b, rest, hb, hrs, hout⟩ := forall₂_cons_left_iff.mp hrd
  rw [forall₂_nil_left_iff.mp hrs, hb pair.liveAt_zero 7 hack] at hout
  exact Prod.ext (pair.read_alone 7) hout

/-- **An allocation turns a protected chunk into a wrong one.**  The first member's chunk is written
with `1` and built; then the second member allocates the same slot, which widens the stripe without
marking it dirty, and the first member goes down.  `Read` succeeds with `2`. -/
theorem staleDecode_after_allocation : (pairBlank.create pairParams).2 = 0 ∧ ∃ st : Observed,
      Relation.ReflTransGen BdevStep
        ⟨(pairBlank.create pairParams).1.addParities [(⟨3, 0⟩, "p", 0)], fun _ => none⟩ st ∧
      (st.world.dataMember 0).state = .faulty ∧ st.world.LiveAt 0 ∧ st.acked 0 = some 1 ∧
        (st.world.read [⟨0, 1⟩]).2 = (0, [2]) := by
  obtain ⟨acked, hack, hrun⟩ := pair.steps_join_remove 1
  refine ⟨pair.create_ok, _, hrun, rfl, pair.liveAt_zero, hack, ?_⟩
  rw [pair.read_joined 1, Ec.gfMul_comm, Ec.one_gfMul]

end ClioCore.SafeBdev
