import Mathlib.Data.Finset.Basic
import Mathlib.Order.Interval.Finset.Nat
import Mathlib.Tactic

/-!
# Addressing of the safe block device

Each data member owns slots of `kChunkLen` bytes, and a logical byte offset encodes the member, the
slot and the position in the slot ("banding"): member `d` owns the logical band of
`kSlotsPerMember` slots that starts at `BandOffset(d, 0)`.  Physically, slot `s` of every member
starts at `SlotPhysOffset(s)`, behind the superblock.

The arithmetic facts the data path needs are proved from `0 < kChunkLen` and `0 < kSlotsPerMember`
only; the constants themselves are irreducible, so that no proof computes with them by accident.

* `unband_of_eq` — decoding inverts encoding inside the band.
* `unband_add` — inside a band, consecutive logical bytes are consecutive physical bytes.
* `touchedSlots` — the slots a block spans.
-/

namespace ClioCore.SafeBdev

open Nat

/-- EC chunk / slot length in bytes. -/
@[irreducible] def kChunkLen : ℕ := 65536

/-- Reserved superblock area at the front of every member. -/
@[irreducible] def kSuperblockSize : ℕ := 65536

/-- Banding stride: the number of slots each data member owns in the logical address space. -/
@[irreducible] def kSlotsPerMember : ℕ := 2 ^ 32

lemma kChunkLen_pos : 0 < kChunkLen := by unfold kChunkLen; norm_num

lemma kSlotsPerMember_pos : 0 < kSlotsPerMember := by unfold kSlotsPerMember; norm_num

/-- A run of bytes of the logical address space. -/
structure Block where
  offset : ℕ
  size : ℕ
deriving DecidableEq

/-- Logical byte offset of the chunk base for member `d`, slot `s`, in 64 bits. -/
def bandOffset (d s : ℕ) : ℕ := (d * kSlotsPerMember + s) * kChunkLen % 2 ^ 64

variable (off : ℕ)

/-- The data member of a logical offset. -/
def unbandMember : ℕ := off / kChunkLen / kSlotsPerMember

/-- The slot of a logical offset. -/
def unbandSlot : ℕ := off / kChunkLen % kSlotsPerMember

/-- The position in the chunk of a logical offset. -/
def unbandWithin : ℕ := off % kChunkLen

/-- Absolute member offset of slot `s`'s chunk start. -/
def slotPhysOffset (s : ℕ) : ℕ := kSuperblockSize + s * kChunkLen

lemma slotPhysOffset_zero : slotPhysOffset 0 = kSuperblockSize := by simp [slotPhysOffset]

lemma unband_zero : unbandMember 0 = 0 ∧ unbandSlot 0 = 0 ∧ unbandWithin 0 = 0 := by
  simp [unbandMember, unbandSlot, unbandWithin]

/-- Absolute member offset of a logical offset. -/
def physOffset : ℕ := slotPhysOffset (unbandSlot off) + unbandWithin off

/-- The slots the logical range `[off, off + len)` spans; the last byte is computed in 64 bits. -/
def touchedSlots (off len : ℕ) : Finset ℕ :=
  (Finset.Icc (off / kChunkLen) ((off + len - 1) % 2 ^ 64 / kChunkLen)).image (· % kSlotsPerMember)

/-- A logical offset is its member's band, its slot and its position. -/
lemma unband_eq :
    (unbandMember off * kSlotsPerMember + unbandSlot off) * kChunkLen + unbandWithin off = off := by
  rw [unbandMember, unbandSlot, unbandWithin, mul_comm (_ / _ / _), div_add_mod,
    mul_comm (_ / _), div_add_mod]

/-- The three parts determine each other's decoding. -/
lemma unband_of_eq {d s i : ℕ} (hs : s < kSlotsPerMember) (hi : i < kChunkLen) :
    unbandMember ((d * kSlotsPerMember + s) * kChunkLen + i) = d ∧
      unbandSlot ((d * kSlotsPerMember + s) * kChunkLen + i) = s ∧
      unbandWithin ((d * kSlotsPerMember + s) * kChunkLen + i) = i := by
  have hdiv : ((d * kSlotsPerMember + s) * kChunkLen + i) / kChunkLen =
      d * kSlotsPerMember + s := by
    rw [mul_comm, mul_add_div kChunkLen_pos, div_eq_of_lt hi, add_zero]
  refine ⟨?_, ?_, ?_⟩
  · rw [unbandMember, hdiv, mul_comm, mul_add_div kSlotsPerMember_pos, div_eq_of_lt hs, add_zero]
  · rw [unbandSlot, hdiv, mul_comm, mul_add_mod, mod_eq_of_lt hs]
  · rw [unbandWithin, mul_comm, mul_add_mod, mod_eq_of_lt hi]

/-! ## Inside a band -/

/-- The range `[off, off + len)` ends inside the band of its first byte. -/
def InBand (off len : ℕ) : Prop :=
  unbandSlot off * kChunkLen + unbandWithin off + len ≤ kSlotsPerMember * kChunkLen

/-- Position of a logical offset relative to the start of its member's band. -/
lemma band_eq : unbandMember off * (kSlotsPerMember * kChunkLen)
      + (unbandSlot off * kChunkLen + unbandWithin off) = off := by
  have h := unband_eq off
  rw [add_mul, mul_assoc] at h
  omega

/-- Inside a band, consecutive logical bytes are consecutive bytes of one member. -/
lemma unband_add {off len t : ℕ} (hbn : InBand off len) (ht : t < len) :
    unbandMember (off + t) = unbandMember off ∧
      unbandSlot (off + t) * kChunkLen + unbandWithin (off + t)
        = unbandSlot off * kChunkLen + unbandWithin off + t := by
  set p := unbandSlot off * kChunkLen + unbandWithin off + t
  have hlt : p < kSlotsPerMember * kChunkLen := by
    have := hbn
    rw [InBand] at this
    omega
  have hsl : p / kChunkLen < kSlotsPerMember := Nat.div_lt_of_lt_mul (by rwa [Nat.mul_comm])
  have hoff : off + t = (unbandMember off * kSlotsPerMember + p / kChunkLen) * kChunkLen
      + p % kChunkLen := by
    have hdm := div_add_mod p kChunkLen
    have hbe := band_eq off
    rw [add_mul, mul_assoc, mul_comm (p / kChunkLen)]
    omega
  obtain ⟨hm, hs, hw⟩ := unband_of_eq hsl (mod_lt p kChunkLen_pos)
  rw [hoff, hm, hs, hw, mul_comm (p / kChunkLen), div_add_mod]
  exact ⟨rfl, rfl⟩

lemma physOffset_add {off len t : ℕ} (hbn : InBand off len) (ht : t < len) :
    physOffset (off + t) = physOffset off + t := by
  have h := (unband_add hbn ht).2
  rw [physOffset, physOffset, slotPhysOffset, slotPhysOffset]
  omega

/-- Every byte of a block lies in a slot the block touches. -/
lemma unbandSlot_mem_touchedSlots {off len t : ℕ} (h64 : off + len < 2 ^ 64) (ht : t < len) :
    unbandSlot (off + t) ∈ touchedSlots off len := by
  rw [touchedSlots, Finset.mem_image]
  refine ⟨(off + t) / kChunkLen, ?_, rfl⟩
  rw [Finset.mem_Icc]
  exact ⟨Nat.div_le_div_right (by omega), Nat.div_le_div_right (by omega)⟩

/-- The logical addresses of a block. -/
def Block.Covers (b : Block) (x : ℕ) : Prop := b.offset ≤ x ∧ x < b.offset + b.size

instance (b : Block) (x : ℕ) : Decidable (b.Covers x) :=
  inferInstanceAs (Decidable (b.offset ≤ x ∧ x < b.offset + b.size))

lemma Block.Covers.slot_mem_touched {b : Block} {x : ℕ} (h : b.Covers x)
    (h64 : b.offset + b.size < 2 ^ 64) : unbandSlot x ∈ touchedSlots b.offset b.size := by
  obtain ⟨hlo, hhi⟩ := h
  have hx : b.offset + (x - b.offset) = x := by omega
  rw [← hx]
  exact unbandSlot_mem_touchedSlots h64 (by omega)

end ClioCore.SafeBdev
