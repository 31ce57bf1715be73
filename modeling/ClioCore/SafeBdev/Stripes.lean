import ClioCore.SafeBdev.Membership
import Mathlib.Data.List.Forall2

/-!
# Stripes and their parity

What the helpers of the data path leave unchanged, and what they compute.

`Frame P` says that a piece of the data path changed nothing but the bytes at the device addresses
in `P`, apart from ejecting members (`Demoted`): a read has the empty footprint, building the parity
of slot `s` has the footprint of slot `s` on the parity pools.  Every helper gets one such lemma,
and the invariants of the later files are carried by the frame alone.

* `Wired` — clients, members and allocators are aligned and no pool is used twice.
* `ParityCurrent` — every active parity member holds its encoding of a stripe's chunks.
* `reconstructStripe_sound` — a reconstruction over a current stripe returns the chunks the members
  hold, whichever members are down.
* `buildSlot_spec` — building a slot makes its parity current or leaves the slot dirty.
-/

namespace ClioCore.SafeBdev

open Foundations List Function
open Ec (EcRole EcState ReedSolomon)

variable {d j x s : ℕ} {e : IoStatus} {w : World} {buf : List UInt8}

/-! ## Ejected members -/

/-- Some active members of the list have become faulty, and only those in `bad`. -/
structure Demoted (bad : ℕ → Prop) (ms ms' : List MemberSlot) : Prop where
  length_eq : ms'.length = ms.length
  /-- A member afterwards is the one before, or that one ejected. -/
  getD : ∀ i, ms'.getD i default = ms.getD i default ∨ bad i ∧ (ms.getD i default).state = .active ∧
      ms'.getD i default = { ms.getD i default with state := .faulty }

namespace Demoted

variable {bad bad' : ℕ → Prop} {ms ms' ms'' : List MemberSlot}

lemma refl (bad : ℕ → Prop) (ms : List MemberSlot) : Demoted bad ms ms :=
  ⟨rfl, fun _ => .inl rfl⟩

section

variable (h : Demoted bad ms ms')
include h

lemma trans (h' : Demoted bad ms' ms'') : Demoted bad ms ms'' := by
  refine ⟨h'.length_eq.trans h.length_eq, fun i => ?_⟩
  rcases h.getD i with heq | ⟨hbad, hact, heq⟩
  · rw [← heq]
    exact h'.getD i
  · rcases h'.getD i with heq' | ⟨_, hact', _⟩
    · exact .inr ⟨hbad, hact, heq'.trans heq⟩
    · rw [heq] at hact'
      cases hact'

lemma mono (hbad : ∀ i, bad i → bad' i) : Demoted bad' ms ms' :=
  ⟨h.length_eq, fun i => (h.getD i).imp_right fun hi => ⟨hbad i hi.1, hi.2⟩⟩

lemma active {i : ℕ} (hact : (ms'.getD i default).state = .active) :
    (ms.getD i default).state = .active := by
  rcases h.getD i with heq | ⟨_, hact', _⟩
  · rwa [heq] at hact
  · exact hact'

end

lemma modify {i : ℕ} (hbad : bad i) (hact : (ms.getD i default).state = .active) :
    Demoted bad ms (ms.modify i fun m => { m with state := .faulty }) := by
  refine ⟨length_modify .., fun j => ?_⟩
  rw [getD_modify]
  split_ifs with hj
  · rw [hj.1]
    exact .inr ⟨hbad, hact, rfl⟩
  · exact .inl rfl

end Demoted

/-! ## Frames -/

namespace World

/-- The device of data member `d` fails its reads for good. -/
def DataFails (w : World) (d : ℕ) : Prop := (w.dev (w.dataClient d)).readStatus = .fatal

/-- The device of parity member `j` fails for good. -/
def ParityFails (w : World) (j : ℕ) : Prop :=
  (w.dev (w.parityClient j)).readStatus = .fatal ∨ (w.dev (w.parityClient j)).writeStatus = .fatal

/-- Nothing has changed but device bytes inside `P` and members ejected for their devices. -/
def Frame (P : PoolId → ℕ → Prop) (w w' : World) : Prop :=
  ∃ dm pm dev', w' = { w with dataMembers := dm, parityMembers := pm, dev := dev' } ∧
    Demoted w.DataFails w.dataMembers dm ∧ Demoted w.ParityFails w.parityMembers pm ∧
    ∀ p, ∃ f, dev' p = { w.dev p with bytes := f } ∧ ∀ x, ¬ P p x → f x = (w.dev p).bytes x

/-- Only members may have been ejected. -/
def Ejected : World → World → Prop := Frame fun _ _ => False

variable {P Q : PoolId → ℕ → Prop} {w w' w'' : World}

lemma Frame.refl (P : PoolId → ℕ → Prop) (w : World) : Frame P w w :=
  ⟨w.dataMembers, w.parityMembers, w.dev, rfl, .refl _ _, .refl _ _,
    fun p => ⟨(w.dev p).bytes, rfl, fun _ _ => rfl⟩⟩

lemma Frame.trans (h : Frame P w w') (h' : Frame P w' w'') : Frame P w w'' := by
  obtain ⟨dm, pm, dev', rfl, hdm, hpm, hdev⟩ := h
  obtain ⟨dm', pm', dev'', rfl, hdm', hpm', hdev'⟩ := h'
  have hsta : ∀ p, (dev' p).readStatus = (w.dev p).readStatus ∧
      (dev' p).writeStatus = (w.dev p).writeStatus := by
    intro p
    obtain ⟨f, hf, _⟩ := hdev p
    simp [hf]
  refine ⟨dm', pm', dev'', rfl, hdm.trans (hdm'.mono fun d hd => (hsta _).1.symm.trans hd),
    hpm.trans (hpm'.mono fun j hj => hj.imp (hsta _).1.symm.trans (hsta _).2.symm.trans),
    fun p => ?_⟩
  obtain ⟨f, hf, hfx⟩ := hdev p
  obtain ⟨g, hg, hgx⟩ := hdev' p
  refine ⟨g, ?_, fun x hx => ?_⟩
  · rw [hg]
    simp [hf]
  · rw [hgx x hx]
    simp only [hf]
    exact hfx x hx

lemma Frame.mono (hPQ : ∀ p x, P p x → Q p x) (h : Frame P w w') : Frame Q w w' := by
  obtain ⟨dm, pm, dev', rfl, hdm, hpm, hdev⟩ := h
  refine ⟨dm, pm, dev', rfl, hdm, hpm, fun p => ?_⟩
  obtain ⟨f, hf, hfx⟩ := hdev p
  exact ⟨f, hf, fun x hx => hfx x (fun hP => hx (hPQ p x hP))⟩

lemma Ejected.frame (h : Ejected w w') : Frame P w w' := h.mono fun _ _ hf => hf.elim

section

variable (h : Frame P w w')
include h

/-- A frame leaves the bookkeeping of slots alone. -/
lemma Frame.fields :
    w'.poolId = w.poolId ∧ w'.dataClients = w.dataClients ∧ w'.parityClients = w.parityClients ∧
      w'.dataAlloc = w.dataAlloc ∧ w'.dirtySlots = w.dirtySlots ∧
      w'.writtenSlots = w.writtenSlots ∧ w'.maxFailures = w.maxFailures ∧
      w'.parityLevel = w.parityLevel := by
  obtain ⟨dm, pm, dev', rfl, _⟩ := h
  exact ⟨rfl, rfl, rfl, rfl, rfl, rfl, rfl, rfl⟩

lemma Frame.demoted : Demoted w.DataFails w.dataMembers w'.dataMembers ∧
      Demoted w.ParityFails w.parityMembers w'.parityMembers := by
  obtain ⟨dm, pm, dev', rfl, hdm, hpm, _⟩ := h
  exact ⟨hdm, hpm⟩

lemma Frame.stripeMembers_eq (s : ℕ) : w'.stripeMembers s = w.stripeMembers s := by
  obtain ⟨dm, pm, dev', rfl, _⟩ := h
  rfl

lemma Frame.data_active (hact : (w'.dataMember d).state = .active) :
    (w.dataMember d).state = .active := h.demoted.1.active hact

lemma Frame.parity_active (hact : (w'.parityMember j).state = .active) :
    (w.parityMember j).state = .active :=
  h.demoted.2.active hact

lemma Frame.bytes_eq {p : PoolId} (hx : ¬ P p x) : (w'.dev p).bytes x = (w.dev p).bytes x := by
  obtain ⟨dm, pm, dev', rfl, _, _, hdev⟩ := h
  obtain ⟨f, hf, hfx⟩ := hdev p
  simp only [hf]
  exact hfx x hx

/-- A device outside the footprint is as it was. -/
lemma Frame.dev_eq {p : PoolId} (hp : ∀ x, ¬ P p x) : w'.dev p = w.dev p := by
  obtain ⟨dm, pm, dev', rfl, _, _, hdev⟩ := h
  obtain ⟨f, hf, hfx⟩ := hdev p
  have hby : f = (w.dev p).bytes := funext fun x => hfx x (hp x)
  simp [hf, hby]

lemma Frame.capacity_eq (p : PoolId) : (w'.dev p).capacity = (w.dev p).capacity := by
  obtain ⟨dm, pm, dev', rfl, _, _, hdev⟩ := h
  obtain ⟨f, hf, _⟩ := hdev p
  simp [hf]

lemma Frame.status_eq (p : PoolId) :
    (w'.dev p).readStatus = (w.dev p).readStatus ∧
    (w'.dev p).writeStatus = (w.dev p).writeStatus := by
  obtain ⟨dm, pm, dev', rfl, _, _, hdev⟩ := h
  obtain ⟨f, hf, _⟩ := hdev p
  simp [hf]

end

/-- Only a fatal error ejects. -/
lemma maybeFaultData_of_ne (w : World) (d : ℕ) (h : e ≠ .fatal) :
    w.maybeFaultData d e = w := if_neg fun hc => h hc.1

lemma maybeFaultParity_of_ne (w : World) (j : ℕ) (h : e ≠ .fatal) :
    w.maybeFaultParity j e = w := if_neg fun hc => h hc.1

lemma ejected_maybeFaultData (he : e = .fatal → w.DataFails d) :
    Ejected w (w.maybeFaultData d e) := by
  rw [maybeFaultData]
  split_ifs with h
  · exact ⟨_, w.parityMembers, w.dev, rfl, .modify (he h.1) h.2.2, .refl _ _,
      fun p => ⟨(w.dev p).bytes, rfl, fun _ _ => rfl⟩⟩
  · exact .refl _ w

lemma ejected_maybeFaultParity (he : e = .fatal → w.ParityFails j) :
    Ejected w (w.maybeFaultParity j e) := by
  rw [maybeFaultParity]
  split_ifs with h
  · exact ⟨w.dataMembers, _, w.dev, rfl, .refl _ _, .modify (he h.1) h.2.2,
      fun p => ⟨(w.dev p).bytes, rfl, fun _ _ => rfl⟩⟩
  · exact .refl _ w

lemma ejected_readDataSegment (w : World) (d off len : ℕ) :
    Ejected w (w.readDataSegment d off len).1 := ejected_maybeFaultData id

/-! ## Chunks and parity -/

/-- The chunk of slot `s` as the device of data member `d` holds it. -/
def chunkAt (w : World) (d s : ℕ) : List UInt8 :=
  readRange (w.dev (w.dataClient d)).bytes (slotPhysOffset s) kChunkLen

/-- The chunk of slot `s` as the device of parity member `j` holds it. -/
def parityAt (w : World) (j s : ℕ) : List UInt8 :=
  readRange (w.dev (w.parityClient j)).bytes (slotPhysOffset s) kChunkLen

/-- The chunks of a stripe in shard order. -/
def stripeChunks (w : World) (s : ℕ) : List (List UInt8) :=
  (w.stripeMembers s).map fun d => w.chunkAt d s

/-- The parity row `j` a stripe should have. -/
def encodedParity (w : World) (j s : ℕ) : List UInt8 :=
  (w.getCodec (w.stripeMembers s).length).encodeParityShard j (w.stripeChunks s) kChunkLen

/-- Every active parity member holds its encoding of the stripe. -/
def ParityCurrent (w : World) (s : ℕ) : Prop :=
  ∀ j < w.parityLevel, (w.parityMember j).state = .active → w.parityAt j s = w.encodedParity j s

lemma length_stripeChunks (w : World) (s : ℕ) :
    (w.stripeChunks s).length = (w.stripeMembers s).length := length_map ..

lemma readDataSegment_chunk (h : (w.readDataSegment d (slotPhysOffset s) kChunkLen).2 = some buf)
    : buf = w.chunkAt d s :=
  Device.read_eq_some h

lemma Ejected.chunkAt_eq (h : Ejected w w') (d s : ℕ) : w'.chunkAt d s = w.chunkAt d s := by
  rw [chunkAt, dataClient, h.fields.2.1]
  exact readRange_congr fun x _ _ => h.bytes_eq not_false

lemma Ejected.parityAt_eq (h : Ejected w w') (j s : ℕ) : w'.parityAt j s = w.parityAt j s := by
  rw [parityAt, parityClient, h.fields.2.2.1]
  exact readRange_congr fun x _ _ => h.bytes_eq not_false

/-! ## Reconstruction -/

/-- Index and buffer lists of equal length whose pairs all satisfy `Good`. -/
def Gathered (Good : ℕ → List UInt8 → Prop) (acc : List ℕ × List (List UInt8)) : Prop :=
  acc.2.length = acc.1.length ∧ ∀ i < acc.1.length, Good (acc.1.getD i 0) (acc.2.getD i [])

variable {Good : ℕ → List UInt8 → Prop} {acc : List ℕ × List (List UInt8)}

lemma Gathered.push (h : Gathered Good acc) {g : ℕ} (hg : Good g buf) :
    Gathered Good (acc.1 ++ [g], acc.2 ++ [buf]) := by
  obtain ⟨hlen, hall⟩ := h
  refine ⟨by simp [hlen], fun i hi => ?_⟩
  rw [length_append, length_singleton] at hi
  by_cases hls : i < acc.1.length
  · rw [getD_append _ _ _ _ hls, getD_append _ _ _ _ (by omega)]
    exact hall i hls
  · have hi1 : i = acc.1.length := by omega
    rw [getD_append_right _ _ _ _ (by omega), getD_append_right _ _ _ _ (by omega), hlen,
      hi1, Nat.sub_self]
    exact hg

lemma gatherData_spec (exclude kS : ℕ) (l : List (ℕ × ℕ))
    (hgood : ∀ x ∈ l, Good x.2 (w.chunkAt x.1 s)) (hacc : Gathered Good acc) :
    Ejected w (gatherData s exclude kS w l acc).1 ∧
      Gathered Good (gatherData s exclude kS w l acc).2 := by
  induction l generalizing w acc with
  | nil => exact ⟨.refl _ w, hacc⟩
  | cons x l ih =>
    obtain ⟨d, pos⟩ := x
    have hrs : ∀ x ∈ l, Good x.2 (w.chunkAt x.1 s) := fun x hx => hgood x (by simp [hx])
    rw [gatherData]
    split_ifs with hex hst
    · exact ih hrs hacc
    · exact ih hrs hacc
    · have hej := ejected_readDataSegment w d (slotPhysOffset s) kChunkLen
      rcases hrd : w.readDataSegment d (slotPhysOffset s) kChunkLen with ⟨w', r⟩
      rw [hrd] at hej
      have hrs' : ∀ x ∈ l, Good x.2 (w'.chunkAt x.1 s) := by
        intro x hx
        rw [hej.chunkAt_eq]
        exact hrs x hx
      cases r with
      | none =>
        obtain ⟨hej', hg⟩ := ih hrs' hacc
        exact ⟨hej.trans hej', hg⟩
      | some buf =>
        have hbuf : buf = w.chunkAt d s := readDataSegment_chunk (by rw [hrd])
        have hacc' := hacc.push (hbuf ▸ hgood (d, pos) (by simp))
        simp only []
        split_ifs with hk
        · exact ⟨hej, hacc'⟩
        · obtain ⟨hej', hg⟩ := ih hrs' hacc'
          exact ⟨hej.trans hej', hg⟩

lemma gatherParity_spec (kS : ℕ) (l : List ℕ)
    (hgood : ∀ j ∈ l, (w.parityMember j).state = .active → Good (kS + j) (w.parityAt j s))
    (hacc : Gathered Good acc) :
    Ejected w (gatherParity s kS w l acc).1 ∧ Gathered Good (gatherParity s kS w l acc).2 := by
  induction l generalizing w acc with
  | nil => exact ⟨.refl _ w, hacc⟩
  | cons j l ih =>
    have hrs : ∀ j ∈ l, (w.parityMember j).state = .active → Good (kS + j) (w.parityAt j s) :=
      fun j hj => hgood j (by simp [hj])
    rw [gatherParity]
    split_ifs with hk hst
    · exact ⟨.refl _ w, hacc⟩
    · exact ih hrs hacc
    · have hej : Ejected w (w.readParityChunk j s).1 := ejected_maybeFaultParity Or.inl
      rcases hrd : w.readParityChunk j s with ⟨w', r⟩
      rw [hrd] at hej
      have hrs' : ∀ j ∈ l, (w'.parityMember j).state = .active →
          Good (kS + j) (w'.parityAt j s) := by
        intro j hj hact
        rw [hej.parityAt_eq]
        exact hrs j hj (hej.parity_active hact)
      cases r with
      | none =>
        obtain ⟨hej', hg⟩ := ih hrs' hacc
        exact ⟨hej.trans hej', hg⟩
      | some buf =>
        have hbuf : buf = w.parityAt j s := Device.read_eq_some (congrArg Prod.snd hrd)
        have hacc' := hacc.push (hbuf ▸ hgood j (by simp) (not_not.mp hst))
        obtain ⟨hej', hg⟩ := ih hrs' hacc'
        exact ⟨hej.trans hej', hg⟩

lemma gather_spec (Good : ℕ → List UInt8 → Prop) (w : World) (s : ℕ) (stripe : List ℕ)
    (exclude : ℕ) (hdt : ∀ x ∈ stripe.zipIdx, Good x.2 (w.chunkAt x.1 s))
    (hpty : ∀ j < w.parityLevel, (w.parityMember j).state = .active →
      Good (stripe.length + j) (w.parityAt j s)) :
    Ejected w (w.gather s stripe exclude).1 ∧ Gathered Good (w.gather s stripe exclude).2 := by
  have hemp : Gathered Good ([], []) := ⟨rfl, by simp⟩
  obtain ⟨hej1, hg1⟩ := gatherData_spec exclude stripe.length stripe.zipIdx hdt hemp
  obtain ⟨hej2, hg2⟩ := gatherParity_spec stripe.length
    (range (gatherData s exclude stripe.length w stripe.zipIdx ([], [])).1.parityLevel)
    (by
      intro j hj hact
      rw [mem_range, hej1.fields.2.2.2.2.2.2.2] at hj
      rw [hej1.parityAt_eq]
      exact hpty j hj (hej1.parity_active hact)) hg1
  exact ⟨hej1.trans hej2, hg2⟩

lemma ejected_reconstructStripe (w : World) (s : ℕ) (stripe : List ℕ) (exclude : ℕ) :
    Ejected w (w.reconstructStripe s stripe exclude).1 := by
  obtain ⟨hej, _⟩ := gather_spec (fun _ _ => True) w s stripe exclude (fun _ _ => trivial)
    (fun _ _ _ => trivial)
  rw [reconstructStripe]
  split_ifs
  · exact .refl _ w
  · simp only []
    split_ifs
    · exact hej
    · exact hej

/-- **A reconstruction over a current stripe is exact**: it returns the chunks the members hold,
including the chunk of the excluded member. -/
lemma reconstructStripe_sound {exclude : ℕ} (hcur : w.ParityCurrent s) {out : List (List UInt8)}
    (hout : (w.reconstructStripe s (w.stripeMembers s) exclude).2 = some out) :
    out = w.stripeChunks s := by
  set stripe := w.stripeMembers s
  have hlen : (w.stripeChunks s).length = stripe.length := w.length_stripeChunks s
  obtain ⟨hej, hgood⟩ := gather_spec
    (fun g buf => buf = (w.getCodec stripe.length).shardOf (w.stripeChunks s) kChunkLen g)
    w s stripe exclude
    (by
      -- A data survivor is the chunk at its position in the stripe.
      intro x hx
      obtain ⟨hlt, heq⟩ := List.getElem?_eq_some_iff.mp (mem_zipIdx_iff_getElem?.mp hx)
      have hlt' : x.2 < (w.stripeChunks s).length := by rw [hlen]; exact hlt
      rw [ReedSolomon.shardOf, if_pos (show x.2 < (w.getCodec stripe.length).k from hlt),
        getD_eq_getElem _ _ hlt']
      simp only [stripeChunks, getElem_map]
      rw [← heq])
    (by
      intro j hj hact
      rw [hcur j hj hact, encodedParity, ReedSolomon.shardOf,
        if_neg (show ¬ stripe.length + j < (w.getCodec stripe.length).k from
          Nat.not_lt.mpr (Nat.le_add_right _ _)),
        show stripe.length + j - (w.getCodec stripe.length).k = j from Nat.add_sub_cancel_left ..])
  have hcod : (w.gather s stripe exclude).1.getCodec stripe.length = w.getCodec stripe.length := by
    rw [getCodec, getCodec, hej.fields.2.2.2.2.2.2.1]
  rw [reconstructStripe] at hout
  split_ifs at hout with hk
  simp only [] at hout
  split_ifs at hout with hsho
  rw [hcod] at hout
  refine ReedSolomon.decodeData_sound _ hlen ?_ ?_ hout
  · intro d hd
    obtain ⟨e, _, rfl⟩ := mem_map.mp hd
    exact length_readRange
  · intro i hi
    have hi' : i < stripe.length := hi
    exact hgood.2 i (by omega)

/-! ## Wiring -/

/-- Members, clients and allocators are aligned, and no pool serves two members. -/
structure Wired (w : World) : Prop where
  dataClients_length : w.dataClients.length = w.dataMembers.length
  dataAlloc_length : w.dataAlloc.length = w.dataMembers.length
  parityClients_length : w.parityClients.length = w.parityMembers.length
  parityLevel_eq : w.parityLevel = w.parityMembers.length
  nodup : (w.dataClients ++ w.parityClients).Nodup

lemma Wired.dataClient_inj (h : w.Wired) {d' : ℕ} (hd : d < w.dataMembers.length)
    (hd' : d' < w.dataMembers.length) (heq : w.dataClient d = w.dataClient d') : d = d' := by
  rw [← h.dataClients_length] at hd hd'
  rw [dataClient, dataClient, getD_eq_getElem _ _ hd, getD_eq_getElem _ _ hd'] at heq
  exact (Nodup.getElem_inj_iff (nodup_append.mp h.nodup).1).mp heq

lemma Wired.parityClient_inj (h : w.Wired) {j' : ℕ} (hj : j < w.parityLevel)
    (hj' : j' < w.parityLevel) (heq : w.parityClient j = w.parityClient j') : j = j' := by
  rw [h.parityLevel_eq, ← h.parityClients_length] at hj hj'
  rw [parityClient, parityClient, getD_eq_getElem _ _ hj, getD_eq_getElem _ _ hj'] at heq
  exact (Nodup.getElem_inj_iff (nodup_append.mp h.nodup).2.1).mp heq

lemma Wired.dataClient_ne_parityClient (h : w.Wired) (hd : d < w.dataMembers.length)
    (hj : j < w.parityLevel) : w.dataClient d ≠ w.parityClient j := by
  rw [← h.dataClients_length] at hd
  rw [h.parityLevel_eq, ← h.parityClients_length] at hj
  rw [dataClient, parityClient, getD_eq_getElem _ _ hd, getD_eq_getElem _ _ hj]
  exact (nodup_append.mp h.nodup).2.2 _ (getElem_mem hd) _ (getElem_mem hj)

lemma Wired.of_frame (h : w.Wired) (hf : Frame P w w') : w'.Wired := by
  obtain ⟨_, hdc, hpc, hal, _, _, _, hpl⟩ := hf.fields
  obtain ⟨hdm, hpm⟩ := hf.demoted
  exact ⟨by rw [hdc, hdm.length_eq, h.dataClients_length], by rw [hal, hdm.length_eq,
    h.dataAlloc_length], by rw [hpc, hpm.length_eq, h.parityClients_length],
    by rw [hpl, hpm.length_eq, h.parityLevel_eq], by rw [hdc, hpc]; exact h.nodup⟩

lemma mem_stripeMembers : d ∈ w.stripeMembers s ↔ d < w.dataAlloc.length ∧
    s ∈ (w.alloc d).live := by
  simp [stripeMembers]

lemma Wired.lt_of_mem_stripe (h : w.Wired) (hd : d ∈ w.stripeMembers s) :
    d < w.dataMembers.length := by
  rw [← h.dataAlloc_length]
  exact (mem_stripeMembers.mp hd).1

/-- Addresses of slot `s`. -/
def InSlot (s x : ℕ) : Prop := slotPhysOffset s ≤ x ∧ x < slotPhysOffset s + kChunkLen

lemma inSlot_unique {s' : ℕ} (h : InSlot s x) (h' : InSlot s' x) : s = s' := by
  have hdiv : ∀ {a : ℕ}, InSlot a x → (x - kSuperblockSize) / kChunkLen = a := by
    rintro a ⟨hlo, hhi⟩
    rw [slotPhysOffset] at hlo hhi
    exact Nat.div_eq_of_lt_le (by omega) (by rw [Nat.succ_mul]; omega)
  rw [← hdiv h, hdiv h']

/-- The footprint of building the parity of slot `s`. -/
def ParityFootprint (w : World) (s : ℕ) (p : PoolId) (x : ℕ) : Prop :=
  p ∈ w.parityClients ∧ InSlot s x

/-- Building parity spares the data pools. -/
lemma Wired.not_parityFootprint (h : w.Wired) (hd : d < w.dataMembers.length) :
    ¬ w.ParityFootprint s (w.dataClient d) x := by
  rintro ⟨hp, _⟩
  obtain ⟨i, hi, heq⟩ := getElem_of_mem hp
  have hi' : i < w.parityLevel := by
    rwa [h.parityLevel_eq, ← h.parityClients_length]
  apply h.dataClient_ne_parityClient hd hi'
  rw [parityClient, getD_eq_getElem _ _ hi, heq]

lemma Frame.chunkAt_eq (h : Frame P w w') (hP : ∀ x, InSlot s x → ¬ P (w.dataClient d) x)
    : w'.chunkAt d s = w.chunkAt d s := by
  rw [chunkAt, dataClient, h.fields.2.1]
  exact readRange_congr fun x hx hx' => h.bytes_eq (hP x ⟨hx, hx'⟩)

lemma Frame.parityAt_eq (h : Frame P w w') (hP : ∀ x, InSlot s x → ¬ P (w.parityClient j) x)
    : w'.parityAt j s = w.parityAt j s := by
  rw [parityAt, parityClient, h.fields.2.2.1]
  exact readRange_congr fun x hx hx' => h.bytes_eq (hP x ⟨hx, hx'⟩)

section

variable (h : Frame P w w') (hP : ∀ d ∈ w.stripeMembers s, ∀ x, InSlot s x → ¬ P (w.dataClient d) x)
include h hP

/-- The stripe's chunks are out of reach of a footprint that spares the data pools. -/
lemma Frame.stripeChunks_eq : w'.stripeChunks s = w.stripeChunks s := by
  rw [stripeChunks, h.stripeMembers_eq]
  exact map_congr_left fun d hd => h.chunkAt_eq (hP d hd)

lemma Frame.encodedParity_eq (j : ℕ) : w'.encodedParity j s = w.encodedParity j s := by
  rw [encodedParity, encodedParity, h.stripeChunks_eq hP, h.stripeMembers_eq, getCodec, getCodec,
    h.fields.2.2.2.2.2.2.1]

end

/-- A footprint that spares slot `s` keeps its parity current. -/
lemma Frame.parityCurrent (h : Frame P w w') (hP : ∀ p x, InSlot s x → ¬ P p x)
    (hcur : w.ParityCurrent s) : w'.ParityCurrent s := by
  intro j hj hact
  rw [h.fields.2.2.2.2.2.2.2] at hj
  rw [h.parityAt_eq (fun x hx => hP _ x hx), h.encodedParity_eq (fun d _ x hx => hP _ x hx)]
  exact hcur j hj (h.parity_active hact)

/-! ## Building parity -/

lemma readStripeChunks_spec (s : ℕ) (l : List ℕ) (w : World) :
    Ejected w (readStripeChunks s w l).1 ∧ ∀ chunks,
      (readStripeChunks s w l).2 = some chunks → chunks = l.map fun d => w.chunkAt d s := by
  induction l generalizing w with
  | nil => exact ⟨.refl _ w, fun chunks h => (Option.some.inj h).symm⟩
  | cons d l ih =>
    rw [readStripeChunks]
    split_ifs with hst
    · exact ⟨.refl _ w, fun chunks h => by simp at h⟩
    · have hej := ejected_readDataSegment w d (slotPhysOffset s) kChunkLen
      rcases hrd : w.readDataSegment d (slotPhysOffset s) kChunkLen with ⟨w', r⟩
      rw [hrd] at hej
      cases r with
      | none => exact ⟨hej, fun chunks h => by simp at h⟩
      | some buf =>
        have hbuf : buf = w.chunkAt d s := readDataSegment_chunk (by rw [hrd])
        obtain ⟨hej', hrs⟩ := ih w'
        simp only []
        rcases hrec : readStripeChunks s w' l with ⟨w'', r'⟩
        rw [hrec] at hej' hrs
        cases r' with
        | none => exact ⟨hej.trans hej', fun chunks h => by simp at h⟩
        | some chunks' =>
          refine ⟨hej.trans hej', fun chunks h => ?_⟩
          rw [← Option.some.inj h, hrs chunks' rfl]
          congr 1
          exact map_congr_left fun e _ => hej.chunkAt_eq e s

/-- A device write has the footprint of the range it writes. -/
lemma frame_write {q : PoolId} {off : ℕ} {data : List UInt8} {dv : Device}
    (h : (w.dev q).write off data = some dv) :
    Frame (fun p x => p = q ∧ off ≤ x ∧ x < off + data.length) w
      { w with dev := update w.dev q dv } := by
  have hdv := Device.write_eq_some h
  refine ⟨w.dataMembers, w.parityMembers, _, rfl, .refl _ _, .refl _ _, fun p => ?_⟩
  by_cases hp : p = q
  · subst hp
    refine ⟨dv.bytes, by rw [update_self, hdv], fun x hx => ?_⟩
    rw [hdv]
    apply writeRange_apply_of_not_mem
    by_contra hcon
    exact hx ⟨rfl, by omega, by omega⟩
  · exact ⟨(w.dev p).bytes, by rw [update_of_ne hp], fun x _ => rfl⟩

/-- One parity chunk written: the footprint is its slot on its pool, and the chunk is there. -/
lemma writeParityChunk_spec (w : World) (j s : ℕ) {chunk : List UInt8}
    (hlen : chunk.length = kChunkLen) :
    Frame (fun p x => p = w.parityClient j ∧ InSlot s x) w (w.writeParityChunk j s chunk).1 ∧
      ((w.writeParityChunk j s chunk).2 = true →
        (w.writeParityChunk j s chunk).1.parityAt j s = chunk) := by
  rw [writeParityChunk]
  cases hw : (w.dev (w.parityClient j)).write (slotPhysOffset s) chunk with
  | none =>
    exact ⟨(ejected_maybeFaultParity Or.inr).frame, fun h => absurd h Bool.false_ne_true⟩
  | some dv =>
    have hfrm := frame_write hw
    rw [hlen] at hfrm
    have hej : Ejected { w with dev := update w.dev (w.parityClient j) dv }
        (World.maybeFaultParity { w with dev := update w.dev (w.parityClient j) dv } j
          (w.dev (w.parityClient j)).writeStatus) :=
      ejected_maybeFaultParity fun he => .inr ((hfrm.status_eq _).2.trans he)
    refine ⟨hfrm.trans hej.frame, fun _ => ?_⟩
    rw [hej.parityAt_eq]
    have hback : parityAt { w with dev := update w.dev (w.parityClient j) dv } j s
        = readRange dv.bytes (slotPhysOffset s) kChunkLen :=
      congrArg (fun d : Device => readRange d.bytes (slotPhysOffset s) kChunkLen)
        (update_self (w.parityClient j) dv w.dev)
    rw [hback, Device.write_eq_some hw, ← hlen]
    exact readRange_writeRange_self

/-- The parity rows of one slot: their footprint is that slot on the parity pools, and after a
success every active row in the list holds its encoding. -/
lemma writeParityRows_spec (chunks : List (List UInt8)) (l : List ℕ) (hwd : w.Wired)
    (hl : ∀ j ∈ l, j < w.parityLevel) (hnd : l.Nodup) :
    Frame (fun p x => (∃ j ∈ l, p = w.parityClient j) ∧
      InSlot s x) w (writeParityRows s chunks w l).1 ∧
      ((writeParityRows s chunks w l).2 = true → ∀ j ∈ l,
        ((writeParityRows s chunks w l).1.parityMember j).state = .active →
        (writeParityRows s chunks w l).1.parityAt j s
          = (w.getCodec chunks.length).encodeParityShard j chunks kChunkLen) := by
  induction l generalizing w with
  | nil => exact ⟨.refl _ w, by simp⟩
  | cons j l ih =>
    obtain ⟨hjl, hnd'⟩ := nodup_cons.mp hnd
    rw [writeParityRows]
    split_ifs with hst
    · obtain ⟨hf, hok⟩ := ih hwd (fun i hi => hl i (by simp [hi])) hnd'
      refine ⟨hf.mono fun p x hx => ?_, fun h i hi hact => ?_⟩
      · obtain ⟨⟨i, hi, rfl⟩, hx'⟩ := hx
        exact ⟨⟨i, by simp [hi], rfl⟩, hx'⟩
      · rcases mem_cons.mp hi with rfl | hi'
        · exact absurd (hf.parity_active hact) hst
        · exact hok h i hi' hact
    · obtain ⟨hf1, hchk⟩ := writeParityChunk_spec w j s
        (ReedSolomon.encodeParityShard_length (w.getCodec chunks.length) j chunks kChunkLen)
      rcases hwr : w.writeParityChunk j s
        ((w.getCodec chunks.length).encodeParityShard j chunks kChunkLen) with ⟨w1, b⟩
      rw [hwr] at hf1 hchk
      have hf1' : Frame (fun p x => (∃ i ∈ j :: l, p = w.parityClient i) ∧ InSlot s x) w w1 :=
        hf1.mono fun p x hx => ⟨⟨j, by simp, hx.1⟩, hx.2⟩
      cases b with
      | false => exact ⟨hf1', fun h => absurd h Bool.false_ne_true⟩
      | true =>
        have hpc : w1.parityClients = w.parityClients := hf1.fields.2.2.1
        have hpl : w1.parityLevel = w.parityLevel := hf1.fields.2.2.2.2.2.2.2
        have hcod : w1.getCodec chunks.length = w.getCodec chunks.length := by
          rw [getCodec, getCodec, hf1.fields.2.2.2.2.2.2.1]
        have hcli : ∀ i, w1.parityClient i = w.parityClient i := by
          intro i
          rw [parityClient, parityClient, hpc]
        obtain ⟨hf2, hok⟩ := ih (hwd.of_frame hf1)
          (fun i hi => by rw [hpl]; exact hl i (by simp [hi])) hnd'
        simp only [hcli] at hf2
        have hf2' : Frame (fun p x => (∃ i ∈ j :: l, p = w.parityClient i) ∧ InSlot s x) w1
            (writeParityRows s chunks w1 l).1 :=
          hf2.mono fun p x hx => by
            obtain ⟨⟨i, hi, rfl⟩, hx'⟩ := hx
            exact ⟨⟨i, by simp [hi], rfl⟩, hx'⟩
        refine ⟨hf1'.trans hf2', fun h i hi hact => ?_⟩
        rcases mem_cons.mp hi with rfl | hi'
        · -- The later rows go to other pools.
          rw [hf2.parityAt_eq, hchk rfl]
          rintro x _ ⟨⟨i', hi', heq⟩, _⟩
          rw [hcli] at heq
          have hii := hwd.parityClient_inj (hl _ (by simp)) (hl i' (by simp [hi'])) heq
          exact hjl (hii ▸ hi')
        · rw [← hcod]
          exact hok h i hi' hact

/-- **Building a slot.**  Its footprint is the slot on the parity pools.  The written set stays, the
dirty set loses at most the slot, and if it does and the stripe has a chunk, the parity is current.
-/
lemma buildSlot_spec (hwd : w.Wired) (s : ℕ) : ∃ w1, Frame (w.ParityFootprint s) w w1 ∧
      (w.buildSlot s = w1 ∨ w.buildSlot s = { w1 with dirtySlots := w1.dirtySlots.erase s } ∧
        (w.stripeMembers s ≠ [] → w1.ParityCurrent s)) := by
  rw [buildSlot]
  by_cases hstr : w.stripeMembers s = []
  · rw [if_pos hstr]
    exact ⟨w, .refl _ w, .inr ⟨rfl, fun h => absurd hstr h⟩⟩
  rw [if_neg hstr]
  obtain ⟨hej, hchu⟩ := readStripeChunks_spec s (w.stripeMembers s) w
  rcases hrd : readStripeChunks s w (w.stripeMembers s) with ⟨w1, r⟩
  rw [hrd] at hej hchu
  cases r with
  | none => exact ⟨w1, hej.frame, .inl rfl⟩
  | some chunks =>
    have hcs : chunks = w.stripeChunks s := hchu chunks rfl
    have hpl : w1.parityLevel = w.parityLevel := hej.fields.2.2.2.2.2.2.2
    have hwd1 := hwd.of_frame hej
    obtain ⟨hf, hok⟩ := writeParityRows_spec chunks (range w1.parityLevel) hwd1
      (fun j hj => mem_range.mp hj) nodup_range
    have hf' : Frame (w.ParityFootprint s) w1
        (writeParityRows s chunks w1 (range w1.parityLevel)).1 := by
      refine hf.mono fun p x hx => ?_
      obtain ⟨⟨j, hj, rfl⟩, hx'⟩ := hx
      have hj' : j < w.parityClients.length := by
        rw [hwd.parityClients_length, ← hwd.parityLevel_eq, ← hpl]
        exact mem_range.mp hj
      refine ⟨?_, hx'⟩
      rw [parityClient, hej.fields.2.2.1, getD_eq_getElem _ _ hj']
      exact getElem_mem hj'
    simp only []
    rcases hwr : writeParityRows s chunks w1 (range w1.parityLevel) with ⟨w2, b⟩
    rw [hwr] at hf' hok hf
    cases b with
    | false => exact ⟨w2, hej.frame.trans hf', .inl rfl⟩
    | true =>
      refine ⟨w2, hej.frame.trans hf', .inr ⟨rfl, fun _ j hj hact => ?_⟩⟩
      have hfrm : Frame (w.ParityFootprint s) w w2 := hej.frame.trans hf'
      rw [hfrm.fields.2.2.2.2.2.2.2, ← hpl] at hj
      -- The parity writes spare the data pools, so the encoding is still that of the stripe.
      rw [hok rfl j (mem_range.mpr hj) hact, hfrm.encodedParity_eq, encodedParity, hcs,
        length_stripeChunks, getCodec, getCodec, hej.fields.2.2.2.2.2.2.1]
      exact fun d hd x _ => hwd.not_parityFootprint (hwd.lt_of_mem_stripe hd)

end World

end ClioCore.SafeBdev
