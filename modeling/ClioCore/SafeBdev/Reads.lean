import ClioCore.SafeBdev.Writes

/-!
# What a `Read` returns

A `Read` serves a block of an active member from its device, and a block of a member that is down by
decoding, chunk by chunk.  `Serves w Good` collects what makes each of the bytes it returns
acceptable: the byte the device holds is, and where a chunk is decoded, its stripe is current or
nothing is asked of its bytes.  `read_serves` is the result: every byte of a `Read` that succeeds is
acceptable at its address.

Nothing a `Read` does changes a device; it can only eject members (`ejected_read`).
-/

namespace ClioCore.SafeBdev

open Foundations List Nat
open Ec (EcRole EcState ReedSolomon)

/-- The logical addresses of a block list in the order a request buffer holds their bytes. -/
def addresses (blocks : List Block) : List ℕ :=
  blocks.flatMap fun b => List.range' b.offset b.size

/-- Inside a chunk only the position changes. -/
lemma unband_within (off : ℕ) {t : ℕ} (h : unbandWithin off + t < kChunkLen) :
    unbandMember (off + t) = unbandMember off ∧ unbandSlot (off + t) = unbandSlot off ∧
      unbandWithin (off + t) = unbandWithin off + t := by
  have hoff := unband_eq off
  have hsum : (unbandMember off * kSlotsPerMember + unbandSlot off) * kChunkLen
      + (unbandWithin off + t) = off + t := by omega
  rw [← hsum]
  exact unband_of_eq (Nat.mod_lt _ kSlotsPerMember_pos) h

/-- The addresses `[off, off + len)` against a list of as many bytes. -/
lemma forall₂_range' {Good : ℕ → UInt8 → Prop} {off len : ℕ} {out : List UInt8}
    (hlen : out.length = len) (h : ∀ t < len, Good (off + t) (out.getD t 0)) :
    Forall₂ Good (range' off len) out := by
  rw [forall₂_iff_get]
  refine ⟨by rw [length_range', hlen], fun i h1 h2 => ?_⟩
  have hi : i < len := by rwa [length_range'] at h1
  have hgood := h i hi
  rw [getD_eq_getElem _ _ h2] at hgood
  simpa using hgood

namespace World

variable {w w' : World} {Good : ℕ → UInt8 → Prop}

/-- The byte the device of its member holds at a logical address. -/
def byteAt (w : World) (x : ℕ) : UInt8 :=
  (w.dev (w.dataClient (unbandMember x))).bytes (physOffset x)

/-- What makes the bytes of a `Read` acceptable. -/
structure Serves (w : World) (Good : ℕ → UInt8 → Prop) : Prop where
  bandLimited : w.BandLimited
  direct : ∀ x, unbandMember x < w.dataMembers.length → Good x (w.byteAt x)
  decoded : ∀ x, unbandSlot x ∉ w.dirtySlots → unbandMember x ∈ w.stripeMembers (unbandSlot x) →
    w.ParityCurrent (unbandSlot x) ∨ ∀ b, Good x b

lemma Ejected.parityCurrent (h : Ejected w w') {s : ℕ} (hcur : w.ParityCurrent s) :
    w'.ParityCurrent s := Frame.parityCurrent h (fun _ _ _ hf => hf) hcur

lemma Serves.of_ejected (hs : w.Serves Good) (h : Ejected w w') : w'.Serves Good := by
  refine ⟨hs.bandLimited.of_frame h, fun x hx => ?_, fun x hdt hmem => ?_⟩
  · rw [byteAt, dataClient, h.fields.2.1, h.bytes_eq not_false]
    exact hs.direct x (by rwa [h.demoted.1.length_eq] at hx)
  · rw [h.fields.2.2.2.2.1] at hdt
    rw [h.stripeMembers_eq] at hmem
    exact (hs.decoded x hdt hmem).imp_left h.parityCurrent

/-! ## Decoded chunks -/

lemma reconstructStripe_shape {s exclude : ℕ} {stripe : List ℕ} {out : List (List UInt8)}
    (h : (w.reconstructStripe s stripe exclude).2 = some out) :
    out.length = stripe.length ∧ ∀ c ∈ out, c.length = kChunkLen := by
  rw [reconstructStripe] at h
  split_ifs at h
  simp only [] at h
  split_ifs at h
  exact ReedSolomon.decodeData_shape _ h

/-- The decoded piece `[cur, cur + len)` of one chunk is acceptable. -/
lemma Serves.chunk (hs : w.Serves Good) (hwd : w.Wired) {cur len pos : ℕ}
    (hlen : unbandWithin cur + len ≤ kChunkLen) (hdt : unbandSlot cur ∉ w.dirtySlots)
    (hpos : (w.stripeMembers (unbandSlot cur)).findIdx? (· = unbandMember cur) = some pos)
    {chunks : List (List UInt8)}
    (hrec : (w.reconstructStripe (unbandSlot cur) (w.stripeMembers (unbandSlot cur))
      (unbandMember cur)).2 = some chunks) :
    Forall₂ Good (range' cur len) (((chunks.getD pos []).drop (unbandWithin cur)).take len) := by
  obtain ⟨hposl, hat, _⟩ := findIdx?_eq_some_iff_getElem.mp hpos
  have hmb : (w.stripeMembers (unbandSlot cur))[pos] = unbandMember cur := by simpa using hat
  have hmem : unbandMember cur ∈ w.stripeMembers (unbandSlot cur) :=
    hmb ▸ getElem_mem hposl
  obtain ⟨hcnt, hsha⟩ := reconstructStripe_shape hrec
  have hpos' : pos < chunks.length := by omega
  have hchu : (chunks.getD pos []).length = kChunkLen := by
    rw [getD_eq_getElem _ _ hpos']
    exact hsha _ (getElem_mem hpos')
  refine forall₂_range' (by rw [length_take, length_drop]; omega) fun t ht => ?_
  obtain ⟨hm, hsl, hwi⟩ := unband_within cur (t := t) (by omega)
  have hdt' : unbandSlot (cur + t) ∉ w.dirtySlots := by rwa [hsl]
  have hmem' : unbandMember (cur + t) ∈ w.stripeMembers (unbandSlot (cur + t)) := by rwa [hsl, hm]
  rcases hs.decoded (cur + t) hdt' hmem' with hcur | hany
  · -- A current stripe decodes to what the member holds.
    rw [hsl] at hcur
    have hout := reconstructStripe_sound hcur hrec
    have hchk : chunks.getD pos [] = w.chunkAt (unbandMember cur) (unbandSlot cur) := by
      rw [getD_eq_getElem _ _ hpos']
      simp only [hout, stripeChunks, getElem_map]
      rw [hmb]
    have hbyte : (((chunks.getD pos []).drop (unbandWithin cur)).take len).getD t 0
        = w.byteAt (cur + t) := by
      rw [hchk, chunkAt, drop_readRange (by omega), take_readRange (by omega), getD_readRange ht,
        byteAt, hm, physOffset, hsl, hwi, add_assoc]
    rw [hbyte]
    exact hs.direct _ (by rw [hm]; exact hwd.lt_of_mem_stripe hmem)
  · exact hany _

/-! ## Degraded blocks -/

/-- The degraded loop ejects members at most, and appends acceptable bytes for `[cur, hi)`. -/
lemma readDegraded_spec (w : World) (cur hi : ℕ) (acc : List UInt8) :
    Ejected w (w.readDegraded cur hi acc).1 ∧ ∀ {Good : ℕ → UInt8 → Prop}, w.Serves Good → w.Wired →
      cur ≤ hi → ∀ {addrs : List ℕ}, Forall₂ Good addrs acc → ∀ {out : List UInt8},
        (w.readDegraded cur hi acc).2 = some out →
        Forall₂ Good (addrs ++ range' cur (hi - cur)) out := by
  induction hn : hi - cur using Nat.strong_induction_on generalizing w cur acc with
  | _ n ih =>
    rw [readDegraded]
    split_ifs with hcur
    · simp only []
      split_ifs with hdt
      · exact ⟨.refl _ w, by simp⟩
      cases hpos : (w.stripeMembers (unbandSlot cur)).findIdx? (· = unbandMember cur) with
      | none => exact ⟨.refl _ w, by simp⟩
      | some pos =>
        have hej := ejected_reconstructStripe w (unbandSlot cur)
          (w.stripeMembers (unbandSlot cur)) (unbandMember cur)
        rcases hrec : w.reconstructStripe (unbandSlot cur) (w.stripeMembers (unbandSlot cur))
          (unbandMember cur) with ⟨w1, r⟩
        rw [hrec] at hej
        cases r with
        | none => exact ⟨hej, by simp⟩
        | some chunks =>
          set e := min hi (cur / kChunkLen * kChunkLen + kChunkLen)
          obtain ⟨hpc, hwin⟩ : cur < e ∧ unbandWithin cur + (e - cur) ≤ kChunkLen := by
            have hdm := div_add_mod cur kChunkLen
            have hlt := mod_lt cur kChunkLen_pos
            rw [mul_comm] at hdm
            rw [unbandWithin]
            omega
          obtain ⟨hej', hserves⟩ := ih _ (by omega) w1 e
            (acc ++ ((chunks.getD pos []).drop (unbandWithin cur)).take (e - cur)) rfl
          refine ⟨hej.trans hej', fun hs hwd _ _ hacc _ hout => ?_⟩
          have hchk := hs.chunk hwd hwin hdt hpos (by rw [hrec])
          have hrs := hserves (hs.of_ejected hej) (hwd.of_frame hej) (min_le_left _ _)
            (rel_append hacc hchk) hout
          -- The piece and the rest make up the range.
          rw [← hn]
          have hspl : range' cur (hi - cur) = range' cur (e - cur) ++ range' e (hi - e) := by
            have h2 : hi - cur = (e - cur) + (hi - e) := by omega
            have h3 : cur + 1 * (e - cur) = e := by omega
            rw [h2, ← range'_append, h3]
          rwa [hspl, ← append_assoc]
    · refine ⟨.refl _ w, fun _ _ hle _ hacc _ hout => ?_⟩
      cases hout
      have hz0 : n = 0 := by omega
      rwa [hz0, range'_zero, append_nil]

/-! ## Blocks -/

lemma ejected_readBlock (w : World) (b : Block) : Ejected w (w.readBlock b).1 := by
  rw [readBlock]
  split_ifs
  · exact Frame.refl _ w
  · exact ejected_readDataSegment w _ _ _
  · exact (readDegraded_spec w _ _ _).1

lemma Serves.readBlock (hs : w.Serves Good) (hwd : w.Wired) {b : Block}
    (h64 : b.offset + b.size < 2 ^ 64) {out : List UInt8} (hout : (w.readBlock b).2 = some out) :
    Forall₂ Good (range' b.offset b.size) out := by
  rw [World.readBlock] at hout
  split_ifs at hout with hmem hact
  · -- One contiguous read; a read in range of the device stays inside the band.
    obtain ⟨⟨-, hin⟩, -⟩ := Option.ite_none_right_eq_some.mp hout
    have hbn := inBand_of_capacity (hin.trans (hs.bandLimited _))
    rw [Device.read_eq_some hout]
    refine forall₂_range' length_readRange fun t ht => ?_
    have hm := (unband_add hbn ht).1
    have hgood := hs.direct (b.offset + t) (by omega)
    rw [byteAt, hm, physOffset_add hbn ht] at hgood
    rwa [getD_readRange ht]
  · rw [mod_eq_of_lt h64] at hout
    have h := (readDegraded_spec w _ _ _).2 hs hwd (le_add_right _ _) Forall₂.nil hout
    rwa [nil_append, Nat.add_sub_cancel_left] at h

lemma ejected_readBlocks (w : World) (blocks : List Block) (acc : List UInt8) :
    Ejected w (w.readBlocks blocks acc).1 := by
  induction blocks generalizing w acc with
  | nil => exact Frame.refl _ w
  | cons b blocks ih =>
    rw [readBlocks]
    split_ifs
    · exact ih w acc
    · have hej := ejected_readBlock w b
      rcases hrd : w.readBlock b with ⟨w1, r⟩
      rw [hrd] at hej
      cases r with
      | none => exact hej
      | some out => exact hej.trans (ih w1 _)

lemma Serves.readBlocks (hs : w.Serves Good) (hwd : w.Wired) {blocks : List Block}
    (h64 : ∀ b ∈ blocks, b.offset + b.size < 2 ^ 64) {acc : List UInt8} {addrs : List ℕ}
    (hacc : Forall₂ Good addrs acc) (hrc : (w.readBlocks blocks acc).2.1 = 0) :
    Forall₂ Good (addrs ++ addresses blocks) (w.readBlocks blocks acc).2.2 := by
  induction blocks generalizing w acc addrs with
  | nil =>
    rwa [addresses, flatMap_nil, append_nil]
  | cons b blocks ih =>
    have h64' : ∀ b ∈ blocks, b.offset + b.size < 2 ^ 64 := fun b' hb' => h64 b' (by simp [hb'])
    rw [addresses, flatMap_cons, ← append_assoc]
    rw [World.readBlocks] at hrc ⊢
    by_cases hsz : b.size = 0
    · rw [if_pos hsz] at hrc ⊢
      rw [hsz, range'_zero, append_nil]
      exact ih hs hwd h64' hacc hrc
    · rw [if_neg hsz] at hrc ⊢
      have hej := ejected_readBlock w b
      rcases hrd : w.readBlock b with ⟨w1, r⟩
      rw [hrd] at hej
      simp only [hrd] at hrc ⊢
      cases r with
      | none => exact absurd hrc one_ne_zero
      | some out =>
        have hblo := hs.readBlock hwd (h64 b (by simp)) (by rw [hrd])
        exact ih (hs.of_ejected hej) (hwd.of_frame hej) h64' (rel_append hacc hblo) hrc

lemma ejected_read (w : World) (blocks : List Block) : Ejected w (w.read blocks).1 := by
  rw [read]
  split_ifs
  · exact Frame.refl _ w
  · exact ejected_readBlocks w blocks []

/-- **Every byte of a `Read` that succeeds is acceptable at its address.** -/
lemma read_serves (hs : w.Serves Good) (hwd : w.Wired) {blocks : List Block}
    (h64 : ∀ b ∈ blocks, b.offset + b.size < 2 ^ 64) (hrc : (w.read blocks).2.1 = 0) :
    Forall₂ Good (addresses blocks) (w.read blocks).2.2 := by
  rw [read] at hrc ⊢
  split_ifs at hrc with hemp
  rw [if_neg hemp]
  exact hs.readBlocks hwd h64 Forall₂.nil hrc

end World

end ClioCore.SafeBdev
