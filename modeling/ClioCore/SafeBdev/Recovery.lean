import ClioCore.SafeBdev.Creation
import ClioCore.SafeBdev.Reads

/-!
# Rebuilding a member

`RebuildMember` goes through the slots of a member, recomputes each chunk from the stripe and writes
it to the replacement pool.  Its footprint is that of those slots on that pool
(`rebuildSlots_frame`), and a data member is rebuilt to the end only if none of its live slots is
dirty (`rebuildSlots_clean`).

`recoverData_spec` and `recoverParity_spec` read `RecoverBdev` back in the same terms: the member is
seated on the new pool, rebuilt, and brought online if the rebuild reached the end.
-/

namespace ClioCore.SafeBdev

open Foundations List Option
open Ec (EcRole EcState ReedSolomon)

namespace World

variable {w w' : World} {P : PoolId → ℕ → Prop}

/-! ## The slot loop -/

lemma rebuildDataChunk_spec (w : World) (idx s : ℕ) (stripe : List ℕ) :
    Ejected w (w.rebuildDataChunk idx s stripe).1 ∧
      ∀ chunk, (w.rebuildDataChunk idx s stripe).2 = some chunk → chunk.length = kChunkLen := by
  rw [rebuildDataChunk]
  cases hpos : stripe.findIdx? (· = idx) with
  | none => exact ⟨.refl _ w, fun chunk h => absurd h (some_ne_none chunk).symm⟩
  | some pos =>
    have hej := ejected_reconstructStripe w s stripe idx
    rcases hrec : w.reconstructStripe s stripe idx with ⟨w1, r⟩
    rw [hrec] at hej
    cases r with
    | none => exact ⟨hej, fun chunk h => absurd h (some_ne_none chunk).symm⟩
    | some chunks =>
      refine ⟨hej, fun chunk h => ?_⟩
      have hsome : (w.reconstructStripe s stripe idx).2 = some chunks := by rw [hrec]
      obtain ⟨hcnt, hsha⟩ := reconstructStripe_shape hsome
      obtain ⟨hlt, _⟩ := findIdx?_eq_some_iff_getElem.mp hpos
      have hlt' : pos < chunks.length := by omega
      rw [← some.inj h, getD_eq_getElem _ _ hlt']
      exact hsha _ (getElem_mem hlt')

lemma rebuildParityChunk_spec (w : World) (idx s : ℕ) (stripe : List ℕ) :
    Ejected w (w.rebuildParityChunk idx s stripe).1 ∧
      ∀ chunk, (w.rebuildParityChunk idx s stripe).2 = some chunk → chunk.length = kChunkLen := by
  rw [rebuildParityChunk]
  obtain ⟨hej, _⟩ := readStripeChunks_spec s stripe w
  rcases hrd : readStripeChunks s w stripe with ⟨w1, r⟩
  rw [hrd] at hej
  cases r with
  | none => exact ⟨hej, fun chunk h => absurd h (some_ne_none chunk).symm⟩
  | some chunks =>
    refine ⟨hej, fun chunk h => ?_⟩
    rw [← some.inj h]
    exact ReedSolomon.encodeParityShard_length _ _ _ _

/-- **One round of the slot loop**: it is interrupted, it fails, or it goes on to the next slot
after writing this one. -/
lemma rebuildSlots_cons (isData : Bool) (idx : ℕ) (pool : PoolId) (w : World) (s : ℕ)
    (rest : List ℕ) (done : ℕ) :
    rebuildSlots isData idx pool w (s :: rest) done = (w, true, false) ∨
    (∃ w1, Ejected w w1 ∧ rebuildSlots isData idx pool w (s :: rest) done = (w1, false, true)) ∨
    ∃ w1, Frame (fun p x => p = pool ∧ InSlot s x) w w1 ∧ (isData = true → s ∉ w.dirtySlots) ∧
      rebuildSlots isData idx pool w (s :: rest) done
        = rebuildSlots isData idx pool w1 rest (done + 1) := by
  rw [rebuildSlots]
  by_cases hmax : w.recoverMaxRows ≠ 0 ∧ w.recoverMaxRows ≤ done
  · exact .inl (if_pos hmax)
  rw [if_neg hmax]
  by_cases hdt : isData = true ∧ s ∈ w.dirtySlots
  · exact .inr (.inl ⟨w, .refl _ w, if_pos hdt⟩)
  rw [if_neg hdt]
  have hcl : isData = true → s ∉ w.dirtySlots := fun hd hs => hdt ⟨hd, hs⟩
  by_cases hstr : w.stripeMembers s = []
  · exact .inr (.inr ⟨w, .refl _ w, hcl, if_pos hstr⟩)
  rw [if_neg hstr]
  have hspec : ∀ r, (if isData = true then w.rebuildDataChunk idx s (w.stripeMembers s)
      else w.rebuildParityChunk idx s (w.stripeMembers s)) = r →
      Ejected w r.1 ∧ ∀ chunk, r.2 = some chunk → chunk.length = kChunkLen := by
    rintro r rfl
    split_ifs
    · exact w.rebuildDataChunk_spec idx s _
    · exact w.rebuildParityChunk_spec idx s _
  rcases hchk : (if isData = true then _ else _) with ⟨w1, r⟩
  obtain ⟨hej, hlen⟩ := hspec _ hchk
  cases r with
  | none => exact .inr (.inl ⟨w1, hej, rfl⟩)
  | some chunk =>
    cases hwri : (w1.dev pool).write (slotPhysOffset s) chunk with
    | none => exact .inr (.inl ⟨w1, hej, by simp [hwri]⟩)
    | some dv =>
      refine .inr (.inr ⟨{ w1 with dev := Function.update w1.dev pool dv }, ?_, hcl, by
        simp [hwri]⟩)
      have hwr := frame_write hwri
      rw [hlen chunk rfl] at hwr
      exact hej.frame.trans hwr

/-- **The footprint of the slot loop**: the listed slots on the pool it writes to. -/
lemma rebuildSlots_frame (isData : Bool) (idx : ℕ) (pool : PoolId) (slots : List ℕ) (w : World)
    (done : ℕ) :
    Frame (fun p x => p = pool ∧ ∃ s ∈ slots, InSlot s x) w
      (rebuildSlots isData idx pool w slots done).1 := by
  induction slots generalizing w done with
  | nil => exact .refl _ w
  | cons s slots ih =>
    rcases rebuildSlots_cons isData idx pool w s slots done with
      heq | ⟨w1, hej, heq⟩ | ⟨w1, hfrm, _, heq⟩
    · rw [heq]
      exact .refl _ w
    · rw [heq]
      exact hej.frame
    · rw [heq]
      have hhere : Frame (fun p x => p = pool ∧ ∃ s' ∈ s :: slots, InSlot s' x) w w1 :=
        hfrm.mono fun p x ⟨hp, hx⟩ => ⟨hp, s, by simp, hx⟩
      exact hhere.trans ((ih w1 _).mono fun p x ⟨hp, s', hs', hx⟩ => ⟨hp, s', by simp [hs'], hx⟩)

/-- A data member is rebuilt to the end only over clean slots. -/
lemma rebuildSlots_clean {idx : ℕ} {pool : PoolId} {slots : List ℕ} {w : World} {done : ℕ}
    (h : (rebuildSlots true idx pool w slots done).2 = (true, true)) :
    ∀ s ∈ slots, s ∉ w.dirtySlots := by
  induction slots generalizing w done with
  | nil => simp
  | cons s slots ih =>
    rcases rebuildSlots_cons true idx pool w s slots done with
      heq | ⟨w1, _, heq⟩ | ⟨w1, hfrm, hcl, heq⟩
    · simp [heq] at h
    · simp [heq] at h
    · rw [heq] at h
      have hrs := ih h
      rw [hfrm.fields.2.2.2.2.1] at hrs
      intro s' hs'
      rcases mem_cons.mp hs' with rfl | hs'
      · exact hcl rfl
      · exact hrs s' hs'

/-! ## Bookkeeping around the loop -/

/-- Nothing but ejections, superblocks, the member log and the bytes in `P` has changed. -/
def Kept (P : PoolId → ℕ → Prop) (w w' : World) : Prop :=
  ∃ dm pm dev' log,
    w' = { w with dataMembers := dm, parityMembers := pm, dev := dev', memberLog := log } ∧
    Demoted (fun _ => True) w.dataMembers dm ∧ Demoted (fun _ => True) w.parityMembers pm ∧
    (∀ p, (dev' p).capacity = (w.dev p).capacity) ∧
    ∀ p x, ¬ P p x → (dev' p).bytes x = (w.dev p).bytes x

lemma Frame.kept (h : Frame P w w') : Kept P w w' := by
  have hby : ∀ p x, ¬ P p x → (w'.dev p).bytes x = (w.dev p).bytes x := fun p x hx =>
    h.bytes_eq hx
  have hcap := h.capacity_eq
  obtain ⟨dm, pm, dev', rfl, hdm, hpm, _⟩ := h
  exact ⟨dm, pm, dev', w.memberLog, rfl, hdm.mono fun _ _ => trivial, hpm.mono fun _ _ => trivial,
    hcap, hby⟩

lemma Kept.trans {w'' : World} (h : Kept P w w') (h' : Kept P w' w'') : Kept P w w'' := by
  obtain ⟨dm, pm, dev', log, rfl, hdm, hpm, hcap, hby⟩ := h
  obtain ⟨dm', pm', dev'', log', rfl, hdm', hpm', hcap', hby'⟩ := h'
  exact ⟨dm', pm', dev'', log', rfl, hdm.trans hdm', hpm.trans hpm',
    fun p => (hcap' p).trans (hcap p), fun p x hx => (hby' p x hx).trans (hby p x hx)⟩

lemma Kept.wired (h : Kept P w w') (hwd : w.Wired) : w'.Wired := by
  obtain ⟨dm, pm, dev', log, rfl, hdm, hpm, _⟩ := h
  exact ⟨hwd.1.trans hdm.length_eq.symm, hwd.2.trans hdm.length_eq.symm,
    hwd.3.trans hpm.length_eq.symm, hwd.4.trans hpm.length_eq.symm, hwd.5⟩

lemma Kept.bandLimited (h : Kept P w w') (hbn : w.BandLimited) : w'.BandLimited := by
  obtain ⟨dm, pm, dev', log, rfl, _, _, hcap, _⟩ := h
  exact fun p => (hcap p).trans_le (hbn p)

lemma kept_persistMemberManifest (P : PoolId → ℕ → Prop) (w : World) :
    Kept P w w.persistMemberManifest := by
  rw [persistMemberManifest]
  split_ifs
  · exact ⟨_, _, _, _, rfl, .refl _ _, .refl _ _, fun _ => rfl, fun _ _ _ => rfl⟩
  · exact (Frame.refl P w).kept

lemma kept_stampSuperblock (P : PoolId → ℕ → Prop) (w : World) (pool : PoolId) :
    Kept P w (w.stampSuperblock pool).1 := by
  rw [stampSuperblock]
  split_ifs
  · refine ⟨_, _, w.stampDev pool, w.memberLog, rfl, .refl _ _, .refl _ _,
      (w.stamped_stampDev pool).capacity_eq, fun p x _ => ?_⟩
    obtain ⟨sb, hsb⟩ := w.stamped_stampDev pool p
    rw [hsb]
  · exact (Frame.refl P w).kept

lemma kept_writeDataSuperblock (P : PoolId → ℕ → Prop) (w : World) (d : ℕ) :
    Kept P w (w.writeDataSuperblock d).1 := by
  refine (kept_stampSuperblock P w (w.dataClient d)).trans ?_
  simp only [writeDataSuperblock, maybeFaultData]
  split_ifs with h
  · exact ⟨_, _, _, _, rfl, .modify trivial h.2.2, .refl _ _, fun _ => rfl,
      fun _ _ _ => rfl⟩
  · exact (Frame.refl P _).kept

lemma kept_writeParitySuperblock (P : PoolId → ℕ → Prop) (w : World) (j : ℕ) :
    Kept P w (w.writeParitySuperblock j).1 := by
  refine (kept_stampSuperblock P w (w.parityClient j)).trans ?_
  simp only [writeParitySuperblock, maybeFaultParity]
  split_ifs with h
  · exact ⟨_, _, _, _, rfl, .refl _ _, .modify trivial h.2.2, fun _ => rfl,
      fun _ _ _ => rfl⟩
  · exact (Frame.refl P _).kept

/-! ## `RecoverBdev` -/

/-- The array with data member `i` seated on its replacement. -/
def seatData (w : World) (i : ℕ) (pool : PoolId) (name : String) (node : ℕ) : World :=
  { w with dataClients := w.dataClients.set i pool }.modifyData i
    (MemberSlot.seatRecovery pool name node)

/-- The array with parity member `j` seated on its replacement. -/
def seatParity (w : World) (j : ℕ) (pool : PoolId) (name : String) (node : ℕ) : World :=
  { w with parityClients := w.parityClients.set j pool }.modifyParity j
    (MemberSlot.seatRecovery pool name node)

lemma dataMember_modifyData (w : World) (i d : ℕ) (f : MemberSlot → MemberSlot) :
    (w.modifyData i f).dataMember d
      = if d = i ∧ i < w.dataMembers.length then f (w.dataMember d) else w.dataMember d :=
  getD_modify _ _ _ _ _

lemma seatData_dataMember_self {i : ℕ} (hi : i < w.dataMembers.length) (pool : PoolId)
    (name : String) (node : ℕ) : ((w.seatData i pool name node).dataMember i).state = .faulty := by
  have h : (w.seatData i pool name node).dataMember i
      = MemberSlot.seatRecovery pool name node (w.dataMember i) :=
    (dataMember_modifyData _ i i _).trans (if_pos ⟨rfl, hi⟩)
  rw [h]
  rfl

lemma seatData_of_ne {i d : ℕ} (h : d ≠ i) (pool : PoolId) (name : String) (node : ℕ) :
    (w.seatData i pool name node).dataMember d = w.dataMember d ∧
      (w.seatData i pool name node).dataClient d = w.dataClient d :=
  ⟨(dataMember_modifyData _ i d _).trans (if_neg fun hc => h hc.1),
    (getD_set _ _ _ _ _).trans (if_neg fun hc => h hc.1)⟩

lemma seatData_dataClient {i : ℕ} (hi : i < w.dataClients.length) (pool : PoolId) (name : String)
    (node : ℕ) : (w.seatData i pool name node).dataClient i = pool :=
  (getD_eq_getElem _ _ ((length_set ..).symm ▸ hi)).trans (getElem_set_self _)

/-- How `RecoverBdev` ends after a rebuild: with an error, with the member still to be rebuilt, or
with the member brought online. -/
def finishRecovery (online : World → World) : World × Bool × Bool → World × ℕ
  | (w, false, _) => (w, 1)
  | (w, true, false) => (w, 0)
  | (w, true, true) => (online w, 0)

/-- The rebuild of a member that has been seated, and what follows it. -/
lemma rebuild_spec {isData : Bool} {idx : ℕ} {pool : PoolId} {slots : Finset ℕ}
    {online : World → World} (f : World → World) (hkp : ∀ P, Kept P w w')
    (honl : ∀ w2, Kept (fun _ _ => False) (f w2) (online w2)) {out : World × ℕ}
    (hout : out = finishRecovery online (rebuildSlots isData idx pool w' slots.sort 0)) :
    ∃ w2, Kept (fun p x => p = pool ∧ ∃ s ∈ slots, InSlot s x) w w2 ∧
      (out.1 = w2 ∨ (isData = true → ∀ s ∈ slots, s ∉ w'.dirtySlots) ∧
        ∃ w3, Kept (fun _ _ => False) (f w2) w3 ∧ out = (w3, 0)) := by
  have hfrm := rebuildSlots_frame isData idx pool slots.sort w' 0
  have hcl : isData = true → (rebuildSlots isData idx pool w' slots.sort 0).2 = (true, true) →
      ∀ s ∈ slots.sort, s ∉ w'.dirtySlots := by
    rintro rfl
    exact rebuildSlots_clean
  simp only [Finset.mem_sort] at hfrm hcl
  rcases hrun : rebuildSlots isData idx pool w' slots.sort 0 with ⟨w2, ok, completed⟩
  rw [hrun] at hfrm hcl hout
  subst hout
  refine ⟨w2, (hkp _).trans hfrm.kept, ?_⟩
  cases ok with
  | false => exact .inl rfl
  | true =>
    cases completed with
    | false => exact .inl rfl
    | true => exact .inr ⟨fun hdata => hcl hdata rfl, _, honl w2, rfl⟩

/-- **Recovering a data member.**  It is seated and rebuilt; only if the rebuild reaches the end,
over clean slots, is it brought online. -/
lemma recoverData_spec {i : ℕ} (hi : i < w.dataClients.length) (pool : PoolId) (name : String)
    (node : ℕ) :
    ∃ w2, Kept (fun p x => p = pool ∧ ∃ s ∈ (w.alloc i).live, InSlot s x)
        (w.seatData i pool name node) w2 ∧
      ((w.recoverData i pool name node).1 = w2 ∨ (∀ s ∈ (w.alloc i).live, s ∉ w.dirtySlots) ∧
          ∃ w3, Kept (fun _ _ => False) (w2.modifyData i MemberSlot.recovered) w3 ∧
            w.recoverData i pool name node = (w3, 0)) := by
  set w1 := (w.seatData i pool name node).persistMemberManifest
  have hkp : ∀ P, Kept P (w.seatData i pool name node) w1 := fun P => kept_persistMemberManifest P _
  have hsm : w1.dataClient i = pool ∧ (w1.alloc i).live = (w.alloc i).live ∧
      w1.dirtySlots = w.dirtySlots := by
    obtain ⟨dm, pm, dev', log, heq, _⟩ := hkp fun _ _ => True
    rw [heq]
    exact ⟨seatData_dataClient hi pool name node, rfl, rfl⟩
  have hreco : w.recoverData i pool name node = finishRecovery _ (w1.rebuildMember true i) := rfl
  rw [rebuildMember, hsm.1, hsm.2.1] at hreco
  obtain ⟨w2, hkp2, hout⟩ := rebuild_spec (fun w2 => w2.modifyData i MemberSlot.recovered) hkp
    (fun w2 => (kept_writeDataSuperblock _ _ i).trans (kept_persistMemberManifest _ _)) hreco
  exact ⟨w2, hkp2, hout.imp_right fun h => ⟨hsm.2.2 ▸ h.1 rfl, h.2⟩⟩

/-- **Recovering a parity member**: it is seated, rebuilt, and brought online if the rebuild reaches
the end. -/
lemma recoverParity_spec {j : ℕ} (hj : j < w.parityClients.length) (pool : PoolId) (name : String)
    (node : ℕ) :
    ∃ w2, Kept (fun p x => p = pool ∧ ∃ s ∈ w.writtenSlots, InSlot s x)
        (w.seatParity j pool name node) w2 ∧
      ((w.recoverParity j pool name node).1 = w2 ∨
        ∃ w3, Kept (fun _ _ => False) (w2.modifyParity j MemberSlot.recovered) w3 ∧
          w.recoverParity j pool name node = (w3, 0)) := by
  set w1 := (w.seatParity j pool name node).persistMemberManifest
  have hkp : ∀ P, Kept P (w.seatParity j pool name node) w1 := fun P =>
    kept_persistMemberManifest P _
  have hsm : w1.parityClient j = pool ∧ w1.writtenSlots = w.writtenSlots := by
    obtain ⟨dm, pm, dev', log, heq, _⟩ := hkp fun _ _ => True
    rw [heq]
    exact ⟨(getD_eq_getElem _ _ ((length_set ..).symm ▸ hj)).trans (getElem_set_self _), rfl⟩
  have hreco : w.recoverParity j pool name node = finishRecovery _ (w1.rebuildMember false j) := rfl
  rw [rebuildMember, if_neg Bool.false_ne_true, hsm.1, hsm.2] at hreco
  obtain ⟨w2, hkp2, hout⟩ := rebuild_spec (fun w2 => w2.modifyParity j MemberSlot.recovered) hkp
    (fun w2 => (kept_writeParitySuperblock _ _ j).trans (kept_persistMemberManifest _ _)) hreco
  exact ⟨w2, hkp2, hout.imp_right And.right⟩

end World

end ClioCore.SafeBdev
