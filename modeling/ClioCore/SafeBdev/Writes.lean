import ClioCore.SafeBdev.Stripes

/-!
# What a `Write` dispatches and lands

The two phases of `Write` read back: which member writes the walk over the block list dispatches
(`dispatch_futs`), which slots it touches, and what landing them does to the devices
(`landSegments_frame`).

The banding is only faithful as long as a member's bytes stay inside its band: `BandLimited` is the
documented limit of `2 ^ 32` slots on each member device.  Under it a member write that lands stays
inside the slots the walk has marked (`Segment.slot_mem_touched`).

`ackBlocks` is the specification's view of a `Write`: the logical bytes it acknowledges.  The
payload of a block whose member is not active is not sent, so nothing is recorded for it.
`write_acked` says that acknowledged bytes are on the devices.
-/

namespace ClioCore.SafeBdev

open Foundations List
open Ec (EcRole EcState ReedSolomon)

variable {w : World} {b : Block} {x : ℕ} {data : List UInt8} {st : Dispatch} {blocks : List Block}
  {v : UInt8}

namespace World

/-- No device is larger than the band of a member. -/
def BandLimited (w : World) : Prop :=
  ∀ p, (w.dev p).capacity ≤ kSuperblockSize + kSlotsPerMember * kChunkLen

lemma BandLimited.of_frame {P : PoolId → ℕ → Prop} {w' : World} (h : w.BandLimited)
    (hf : Frame P w w') : w'.BandLimited := by
  intro p
  rw [hf.capacity_eq]
  exact h p

/-- The address range a member write covers. -/
def Segment.Covers (seg : Segment) (p : PoolId) (x : ℕ) : Prop :=
  p = seg.pool ∧ seg.phys ≤ x ∧ x < seg.phys + seg.bytes.length

/-- A member write comes from a block of an active member. -/
structure Segment.OfBlock (seg : Segment) (w : World) (b : Block) : Prop where
  size_ne : b.size ≠ 0
  member_lt : unbandMember b.offset < w.dataMembers.length
  active : (w.dataMember (unbandMember b.offset)).state = .active
  pool_eq : seg.pool = w.dataClient (unbandMember b.offset)
  phys_eq : seg.phys = physOffset b.offset
  length_le : seg.bytes.length ≤ b.size

/-- Inside a band a block's bytes land in the slots it touches. -/
lemma inBand_of_capacity {off len : ℕ}
    (h : physOffset off + len ≤ kSuperblockSize + kSlotsPerMember * kChunkLen) :
    InBand off len := by
  rw [physOffset, slotPhysOffset] at h
  rw [InBand]
  omega

lemma inSlot_physOffset (x : ℕ) : InSlot (unbandSlot x) (physOffset x) :=
  ⟨Nat.le_add_right _ _, Nat.add_lt_add_left (Nat.mod_lt _ kChunkLen_pos) _⟩

lemma Segment.OfBlock.slot_mem_touched {seg : Segment} (h : seg.OfBlock w b)
    (h64 : b.offset + b.size < 2 ^ 64)
    (hcap : seg.phys + seg.bytes.length ≤ kSuperblockSize + kSlotsPerMember * kChunkLen) {s : ℕ}
    {p : PoolId} (hx : seg.Covers p x) (hs : InSlot s x) :
    s ∈ touchedSlots b.offset b.size := by
  obtain ⟨_, hlo, hhi⟩ := hx
  rw [h.phys_eq] at hlo hhi hcap
  have hlt : x - physOffset b.offset < seg.bytes.length := by omega
  have hphys := physOffset_add (inBand_of_capacity hcap) hlt
  have hx' : physOffset (b.offset + (x - physOffset b.offset)) = x := by omega
  have hsl := inSlot_physOffset (b.offset + (x - physOffset b.offset))
  rw [hx'] at hsl
  rw [inSlot_unique hs hsl]
  have hle := h.length_le
  exact unbandSlot_mem_touchedSlots h64 (by omega)

/-! ## Dispatch -/

/-- **One round of the walk**: it stands still, it fails, or it dispatches the block. -/
lemma dispatchBlock_cases (w : World) (data : List UInt8) (st : Dispatch) (b : Block) :
    w.dispatchBlock data st b = st ∧ (st.ok = false ∨ b.size = 0) ∨
    w.dispatchBlock data st b = { st with ok := false } ∨
    w.dispatchBlock data st b = w.dispatched data st b ∧ b.size ≠ 0 ∧
      unbandMember b.offset < w.dataMembers.length := by
  rw [dispatchBlock]
  by_cases hok : st.ok = false
  · exact Or.inl ⟨if_pos hok, Or.inl hok⟩
  by_cases hsz : b.size = 0
  · exact Or.inl ⟨by rw [if_neg hok, if_pos hsz], Or.inr hsz⟩
  by_cases hmem : w.dataMembers.length ≤ unbandMember b.offset
  · exact Or.inr (Or.inl (by rw [if_neg hok, if_neg hsz, if_pos hmem]))
  · exact Or.inr (Or.inr ⟨by rw [if_neg hok, if_neg hsz, if_neg hmem], hsz, not_le.mp hmem⟩)

/-- A round that does not fail skips an empty block or dispatches one. -/
lemma dispatchBlock_of_ok (h : (w.dispatchBlock data st b).ok = true) :
    w.dispatchBlock data st b = st ∧ b.size = 0 ∨
    w.dispatchBlock data st b = w.dispatched data st b ∧ b.size ≠ 0 ∧
      unbandMember b.offset < w.dataMembers.length := by
  rcases w.dispatchBlock_cases data st b with ⟨heq, hno | hsz⟩ | heq | hdn
  · simp [heq, hno] at h
  · exact Or.inl ⟨heq, hsz⟩
  · simp [heq] at h
  · exact Or.inr hdn

/-- Every dispatched write is that of a block, and the walk has marked the block's slots. -/
lemma dispatch_futs (w : World) (blocks : List Block) (data : List UInt8) :
    ∀ seg ∈ (w.dispatch blocks data).futs, ∃ b ∈ blocks, seg.OfBlock w b ∧
      touchedSlots b.offset b.size ⊆ (w.dispatch blocks data).touched := by
  refine foldlRecOn (motive := fun st : Dispatch => ∀ seg ∈ st.futs, ∃ b ∈ blocks,
    seg.OfBlock w b ∧ touchedSlots b.offset b.size ⊆ st.touched) _ _ (by simp) ?_
  intro st hst b hb
  rcases w.dispatchBlock_cases data st b with ⟨heq, _⟩ | heq | ⟨heq, hsz, hmem⟩
  · rwa [heq]
  · rwa [heq]
  · rw [heq]
    intro seg hseg
    rw [dispatched] at hseg ⊢
    have hold : seg ∈ st.futs → ∃ b' ∈ blocks, seg.OfBlock w b' ∧
        touchedSlots b'.offset b'.size ⊆ st.touched ∪ touchedSlots b.offset b.size := by
      intro hmem'
      obtain ⟨b', hb', hof, hsub⟩ := hst seg hmem'
      exact ⟨b', hb', hof, hsub.trans Finset.subset_union_left⟩
    by_cases hact : (w.dataMember (unbandMember b.offset)).state = .active
    · simp only [if_pos hact, mem_append, mem_singleton] at hseg
      rcases hseg with hseg | rfl
      · exact hold hseg
      · exact ⟨b, hb, ⟨hsz, hmem, hact, rfl, rfl, length_take_le _ _⟩, Finset.subset_union_right⟩
    · simp only [if_neg hact] at hseg
      exact hold hseg

/-! ## Landing -/

lemma landSegments_append (dev : PoolId → Device) (futs : List Segment) (seg : Segment) :
    landSegments dev (futs ++ [seg]) = landSegment (landSegments dev futs) seg := by
  rw [landSegments, foldl_append]
  rfl

/-- The footprint of landing: the ranges of the writes that are in range of their device. -/
lemma landSegments_frame (w : World) (futs : List Segment) :
    Frame (fun p x => ∃ seg ∈ futs, seg.Covers p x ∧
      seg.phys + seg.bytes.length ≤ (w.dev p).capacity) w
      { w with dev := (landSegments w.dev futs).1 } := by
  induction futs using reverseRecOn with
  | nil => exact Frame.refl _ w
  | append_singleton futs seg ih =>
    have ih' : Frame (fun p x => ∃ seg' ∈ futs ++ [seg], seg'.Covers p x ∧
        seg'.phys + seg'.bytes.length ≤ (w.dev p).capacity) w
        { w with dev := (landSegments w.dev futs).1 } :=
      ih.mono fun p x hx => by
        obtain ⟨seg', hseg', hx'⟩ := hx
        exact ⟨seg', by simp [hseg'], hx'⟩
    rw [landSegments_append, landSegment]
    cases hw : ((landSegments w.dev futs).1 seg.pool).write seg.phys seg.bytes with
    | none => exact ih'
    | some dv =>
      have hcap := ih.capacity_eq seg.pool
      have hle : seg.phys + seg.bytes.length ≤ (w.dev seg.pool).capacity := by
        rw [← hcap]
        exact Device.le_capacity_of_write hw
      refine ih'.trans ((frame_write (w := { w with dev := (landSegments w.dev futs).1 })
        hw).mono fun p x hx => ?_)
      obtain ⟨rfl, hlo, hhi⟩ := hx
      exact ⟨seg, by simp, ⟨rfl, hlo, hhi⟩, hle⟩

/-! ## What a `Write` leaves -/

/-- A `Write` that succeeds: every block was dispatched, every member write has landed, and the
touched slots are marked. -/
lemma write_eq_zero (h : (w.write blocks data).2.1 = 0) : (w.dispatch blocks data).ok = true ∧
      (landSegments w.dev (w.dispatch blocks data).futs).2 = true ∧
      w.write blocks data = ({ w with
        dev := (landSegments w.dev (w.dispatch blocks data).futs).1
        writtenSlots := w.writtenSlots ∪ (w.dispatch blocks data).touched
        dirtySlots := w.dirtySlots ∪ (w.dispatch blocks data).touched }, 0,
        (w.dispatch blocks data).bytesWritten) := by
  by_cases hemp : w.dataMembers = [] ∨ blocks = []
  · rw [write, if_pos hemp] at h
    exact absurd h Nat.one_ne_zero
  · rw [write, if_neg hemp] at h ⊢
    dsimp only at h ⊢
    split_ifs at h with hok
    rw [if_pos hok]
    exact ⟨(Bool.and_eq_true_iff.mp hok).1, (Bool.and_eq_true_iff.mp hok).2, rfl⟩

/-- A `Write` that fails marks nothing, though it may have landed some of its member writes. -/
lemma write_ne_zero (h : (w.write blocks data).2.1 ≠ 0) :
    ∃ dev', (w.write blocks data).1 = { w with dev := dev' } := by
  by_cases hemp : w.dataMembers = [] ∨ blocks = []
  · exact ⟨w.dev, by rw [write, if_pos hemp]⟩
  · rw [write, if_neg hemp] at h ⊢
    dsimp only at h ⊢
    split_ifs at h with hok
    · exact absurd rfl h
    · exact ⟨_, by rw [if_neg hok]⟩

/-- Once the walk has failed it stands still. -/
lemma dispatchBlock_ok_of_foldl (h : (blocks.foldl (w.dispatchBlock data) st).ok = true) :
    st.ok = true := by
  induction blocks generalizing st with
  | nil => exact h
  | cons b blocks ih =>
    have hb := ih h
    by_contra hno
    rw [Bool.not_eq_true] at hno
    rw [dispatchBlock, if_pos hno] at hb
    exact Bool.false_ne_true (hno.symm.trans hb)

/-- What a walk that does not fail has done for a non-empty block: its member exists, its slots are
marked, and its payload was sent if the member is active. -/
structure DispatchedIn (w : World) (data : List UInt8) (st : Dispatch) (b : Block) : Prop where
  member_lt : unbandMember b.offset < w.dataMembers.length
  touched : touchedSlots b.offset b.size ⊆ st.touched
  sent : (w.dataMember (unbandMember b.offset)).state = .active → ∃ pos, pos + b.size ≤ st.bufPos ∧
      ⟨w.dataClient (unbandMember b.offset), physOffset b.offset,
        (data.drop pos).take b.size⟩ ∈ st.futs

/-- **The walk that does not fail** only adds to what it has, and dispatches every block. -/
lemma foldl_dispatchBlock_spec (hok : (blocks.foldl (w.dispatchBlock data) st).ok = true) :
    st.touched ⊆ (blocks.foldl (w.dispatchBlock data) st).touched ∧
    st.futs ⊆ (blocks.foldl (w.dispatchBlock data) st).futs ∧
    (blocks.foldl (w.dispatchBlock data) st).bufPos = st.bufPos + (blocks.map (·.size)).sum ∧
    ∀ b ∈ blocks, b.size ≠ 0 →
      w.DispatchedIn data (blocks.foldl (w.dispatchBlock data) st) b := by
  induction blocks generalizing st with
  | nil => exact ⟨Finset.Subset.refl _, Subset.refl _, rfl,
      by simp⟩
  | cons b blocks ih =>
    rw [foldl_cons] at hok ⊢
    obtain ⟨htou, hfuts, hpos, hall⟩ := ih hok
    rw [map_cons, sum_cons]
    rcases dispatchBlock_of_ok (dispatchBlock_ok_of_foldl hok) with
      ⟨heq, hsz⟩ | ⟨heq, hsz, hmem⟩
    · rw [heq] at htou hfuts hpos hall ⊢
      refine ⟨htou, hfuts, by omega, fun b' hb' hsz' => ?_⟩
      rcases mem_cons.mp hb' with rfl | hb'
      · exact absurd hsz hsz'
      · exact hall b' hb' hsz'
    · rw [heq] at htou hfuts hpos hall ⊢
      set st' := blocks.foldl (w.dispatchBlock data) (w.dispatched data st b)
      have hpos' : st'.bufPos = st.bufPos + (b.size + (blocks.map (·.size)).sum) := by
        rw [hpos, dispatched, Nat.add_assoc]
      refine ⟨Finset.subset_union_left.trans htou, fun seg hseg => hfuts ?_, hpos',
        fun b' hb' hsz' => ?_⟩
      · rw [dispatched]
        split_ifs
        · exact mem_append_left _ hseg
        · exact hseg
      · rcases mem_cons.mp hb' with rfl | hb'
        · refine ⟨hmem, Finset.subset_union_right.trans htou, fun hact => ?_⟩
          refine ⟨st.bufPos, by omega, hfuts ?_⟩
          rw [dispatched]
          simp only [if_pos hact]
          exact mem_append_right _ (mem_singleton_self _)
        · exact hall b' hb' hsz'

lemma dispatchedIn_of_mem (hok : (w.dispatch blocks data).ok = true) (hb : b ∈ blocks)
    (hsz : b.size ≠ 0) :
    w.DispatchedIn data (w.dispatch blocks data) b :=
  (foldl_dispatchBlock_spec hok).2.2.2 b hb hsz

/-- `bytes_written_` is the size of the request. -/
lemma dispatch_bytesWritten (hok : (w.dispatch blocks data).ok = true) :
    (w.dispatch blocks data).bufPos = (blocks.map (·.size)).sum ∧
      (w.dispatch blocks data).bytesWritten = (blocks.map (·.size)).sum := by
  have hpos : (w.dispatch blocks data).bufPos = (blocks.map (·.size)).sum :=
    (foldl_dispatchBlock_spec hok).2.2.1.trans (Nat.zero_add _)
  have hsm : (w.dispatch blocks data).bytesWritten = (w.dispatch blocks data).bufPos := by
    refine foldlRecOn (motive := fun st : Dispatch => st.bytesWritten = st.bufPos) _ _ rfl ?_
    intro st hst b _
    rcases w.dispatchBlock_cases data st b with ⟨heq, _⟩ | heq | ⟨heq, _⟩
    · rwa [heq]
    · rwa [heq]
    · rw [heq]
      exact congrArg (· + b.size) hst
  exact ⟨hpos, hsm.trans hpos⟩

/-- Writes that landed are in range of their devices. -/
lemma le_capacity_of_landed {futs : List Segment} (hok : (landSegments w.dev futs).2 = true) :
    ∀ seg ∈ futs, seg.phys + seg.bytes.length ≤ (w.dev seg.pool).capacity := by
  induction futs using reverseRecOn with
  | nil => simp
  | append_singleton futs last ih =>
    rw [landSegments_append, landSegment] at hok
    cases hw : ((landSegments w.dev futs).1 last.pool).write last.phys last.bytes with
    | none =>
      simp [hw] at hok
    | some dv =>
      simp only [hw] at hok
      intro seg hseg
      rcases mem_append.mp hseg with hseg | hseg
      · exact ih hok seg hseg
      · rw [mem_singleton.mp hseg, ← (landSegments_frame w futs).capacity_eq]
        exact Device.le_capacity_of_write hw

/-! ## Acknowledged bytes -/

/-- What a block of a successful `Write` acknowledges: its payload if the member is active, and
nothing for a block whose payload was not sent. -/
def ackBlock (w : World) (data : List UInt8) (bufPos : ℕ) (b : Block) (acked : ℕ → Option UInt8) :
    ℕ → Option UInt8 := fun x =>
  if b.Covers x then
    if (w.dataMember (unbandMember b.offset)).state = .active then
      data[bufPos + (x - b.offset)]?
    else none
  else acked x

/-- What the blocks acknowledge in list order; a later block overrides an earlier one. -/
def ackBlocks (w : World) (data : List UInt8) : List Block → ℕ → (ℕ → Option UInt8) →
    ℕ → Option UInt8
  | [], _, acked => acked
  | b :: rest, bufPos, acked =>
    ackBlocks w data rest (bufPos + b.size) (ackBlock w data bufPos b acked)

/-- Acknowledged bytes are old or lie in a block. -/
lemma ackBlocks_cases {bufPos : ℕ} {acked : ℕ → Option UInt8}
    (h : w.ackBlocks data blocks bufPos acked x = some v) :
    acked x = some v ∨ ∃ b ∈ blocks, b.Covers x := by
  induction blocks generalizing bufPos acked with
  | nil => exact Or.inl h
  | cons b blocks ih =>
    rcases ih h with hold | ⟨b', hb', hcov⟩
    · by_cases hcov : b.Covers x
      · exact Or.inr ⟨b, by simp, hcov⟩
      · rw [ackBlock, if_neg hcov] at hold
        exact Or.inl hold
    · exact Or.inr ⟨b', by simp [hb'], hcov⟩

/-- The recorded bytes are on the devices once the dispatched writes have landed. -/
def AckLanded (w : World) (L : ℕ → Prop) (st : Dispatch) (acked : ℕ → Option UInt8) : Prop :=
  (landSegments w.dev st.futs).2 = true → ∀ x v, L x → acked x = some v →
    unbandMember x < w.dataMembers.length ∧
      ((landSegments w.dev st.futs).1 (w.dataClient (unbandMember x))).bytes (physOffset x) = v

variable {w : World} {L : ℕ → Prop} {data : List UInt8} {st : Dispatch} {b : Block}
  {acked : ℕ → Option UInt8}

section

variable (hwd : w.Wired) (hbn : w.BandLimited)
include hwd hbn

/-- Landing one more block keeps the record. -/
lemma AckLanded.block (h : w.AckLanded L st acked) (hsz : b.size ≠ 0)
    (hmem : unbandMember b.offset < w.dataMembers.length)
    (hact : (w.dataMember (unbandMember b.offset)).state = .active) {st' : Dispatch}
    (hfuts : st'.futs = st.futs ++ [⟨w.dataClient (unbandMember b.offset), physOffset b.offset,
      (data.drop st.bufPos).take b.size⟩]) :
    w.AckLanded L st' (w.ackBlock data st.bufPos b acked) := by
  intro hland x v hL hx
  set seg : Segment := ⟨w.dataClient (unbandMember b.offset), physOffset b.offset,
    (data.drop st.bufPos).take b.size⟩
  have hof : seg.OfBlock w b := ⟨hsz, hmem, hact, rfl, rfl, length_take_le _ _⟩
  have hfrm := landSegments_frame w st.futs
  rw [hfuts, landSegments_append, landSegment] at hland ⊢
  cases hwr : ((landSegments w.dev st.futs).1 seg.pool).write seg.phys seg.bytes with
  | none =>
    simp [hwr] at hland
  | some dv =>
    simp only [hwr] at hland ⊢
    have hdv := Device.write_eq_some hwr
    have hcap : physOffset b.offset + seg.bytes.length
        ≤ kSuperblockSize + kSlotsPerMember * kChunkLen := by
      refine le_trans ?_ (hbn seg.pool)
      rw [← hfrm.capacity_eq]
      exact Device.le_capacity_of_write hwr
    rw [ackBlock] at hx
    split_ifs at hx with hcov
    · -- The address is in the block: the landed write put it there.
      have hxt : b.offset + (x - b.offset) = x := by
        have := hcov.1
        omega
      have hby : seg.bytes[x - b.offset]? = some v := by
        have hlt : x - b.offset < b.size := by
          have h2 := hcov.2
          omega
        rwa [getElem?_take_of_lt hlt, getElem?_drop]
      obtain ⟨ht, hget⟩ := List.getElem?_eq_some_iff.mp hby
      have hm := (unband_add (inBand_of_capacity hcap) ht).1
      have hphys := physOffset_add (inBand_of_capacity hcap) ht
      rw [hxt] at hm hphys
      refine ⟨by rw [hm]; exact hmem, ?_⟩
      rw [hm, Function.update_self, hdv]
      dsimp only
      rw [hphys, writeRange_apply_of_mem (Nat.le_add_right _ _) (by omega) 0,
        Nat.add_sub_cancel_left, getD_eq_getElem _ _ ht, hget]
    · obtain ⟨hm, hval⟩ := h hland x v hL hx
      refine ⟨hm, ?_⟩
      -- outside the block, the bytes of its member are left alone
      have hnot : ¬ seg.Covers (w.dataClient (unbandMember x)) (physOffset x) := by
        rintro ⟨hpo, hlo, hhi⟩
        -- on one member, logical and physical distances agree
        have hx := band_eq x
        have hb := band_eq b.offset
        have hle := hof.length_le
        rw [hwd.dataClient_inj hm hof.member_lt hpo] at hx
        rw [hof.phys_eq] at hlo hhi
        simp only [physOffset, slotPhysOffset] at hlo hhi
        exact hcov ⟨by omega, by omega⟩
      rw [← hval]
      exact (frame_write (w := { w with dev := (landSegments w.dev st.futs).1 }) hwr).bytes_eq hnot

/-- The record along the walk. -/
lemma AckLanded.foldl (blocks : List Block) (h : w.AckLanded L st acked)
    (hok : (blocks.foldl (w.dispatchBlock data) st).ok = true) :
    w.AckLanded L (blocks.foldl (w.dispatchBlock data) st)
      (w.ackBlocks data blocks st.bufPos acked) := by
  induction blocks generalizing st acked with
  | nil => exact h
  | cons b blocks ih =>
    rw [foldl_cons] at hok ⊢
    rw [ackBlocks]
    rcases dispatchBlock_of_ok (dispatchBlock_ok_of_foldl hok) with
      ⟨heq, hsz⟩ | ⟨heq, hsz, hmem⟩
    · rw [heq] at hok ⊢
      rw [hsz]
      refine ih (fun hland x v hL hx => h hland x v hL ?_) hok
      have hnot : ¬ b.Covers x := fun hcov => by
        have h1 := hcov.1
        have h2 := hcov.2
        omega
      rwa [ackBlock, if_neg hnot] at hx
    · rw [heq] at hok ⊢
      refine ih ?_ hok
      by_cases hact : (w.dataMember (unbandMember b.offset)).state = .active
      · exact h.block hwd hbn hsz hmem hact (if_pos hact)
      · -- Nothing was sent, and nothing is recorded for the block.
        intro hland x v hL hx
        rw [dispatched, if_neg hact] at hland ⊢
        rw [ackBlock] at hx
        split_ifs at hx
        exact h hland x v hL hx

/-- **Acknowledged bytes are on the devices** after a `Write` that succeeds. -/
lemma write_acked (hrc : (w.write blocks data).2.1 = 0)
    (hold : ∀ x v, L x → acked x = some v → unbandMember x < w.dataMembers.length ∧
      (w.dev (w.dataClient (unbandMember x))).bytes (physOffset x) = v)
    (hL : L x) (hx : w.ackBlocks data blocks 0 acked x = some v) :
    unbandMember x < w.dataMembers.length ∧ ((landSegments w.dev (w.dispatch blocks data).futs).1
        (w.dataClient (unbandMember x))).bytes (physOffset x) = v := by
  obtain ⟨hok, hland, _⟩ := write_eq_zero hrc
  have hsta : w.AckLanded L ⟨0, 0, [], ∅, true⟩ acked := fun _ => hold
  exact hsta.foldl hwd hbn blocks hok hland x v hL hx

end

/-- The footprint of a `Write` that succeeds stays inside the slots it marks. -/
lemma write_frame (hbn : w.BandLimited) (data : List UInt8)
    (h64 : ∀ b ∈ blocks, b.offset + b.size < 2 ^ 64) :
    Frame (fun _ x => ∀ s, InSlot s x → s ∈ (w.dispatch blocks data).touched) w
      { w with dev := (landSegments w.dev (w.dispatch blocks data).futs).1 } := by
  refine (landSegments_frame w (w.dispatch blocks data).futs).mono fun p x hx s hs => ?_
  obtain ⟨seg, hseg, hcov, hcap⟩ := hx
  obtain ⟨b, hb, hof, hsub⟩ := w.dispatch_futs blocks data seg hseg
  exact hsub (hof.slot_mem_touched (h64 b hb) (hcap.trans (hbn p)) hcov hs)

end World

end ClioCore.SafeBdev
