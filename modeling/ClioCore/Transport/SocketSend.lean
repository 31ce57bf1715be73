import Mathlib.Data.List.Basic
import Mathlib.Tactic

/-!
# Scattered writes on a socket

`SendV` is to write an array of buffers to a stream and not to return before all of it is written.
It counts the bytes of every buffer, but its copy of the array has room for 64, and `sendmsg` is
offered nothing behind these.  Once they are written `sendmsg` takes 0 bytes in every round, and the
loop never ends if a later buffer has bytes.

The lengths add up to less than `2 ^ 63` and the number of buffers is an `int`, so that both are
natural numbers here.
-/

namespace ClioCore.Transport

open List

/-- What a call of `sendmsg` does.  One that accepts takes up to `more + 1` bytes, as many as it is
offered; one that would block is followed by a `poll` that succeeds. -/
inductive SendMsg where
  | interrupted
  | wouldBlock
  | accepts (more : ℕ)

/-- The answers of a kernel that accepts bytes again and again. -/
structure Kernel where
  answer : ℕ → SendMsg
  accepting : ∀ n, ∃ m ≥ n, ∃ more, answer m = .accepts more

/-- `sent`, `local_iov` from `iov_idx` on, and the bytes that the stream has received -/
structure SendState where
  sent : ℕ
  localIov : List (List UInt8)
  stream : List UInt8

/-- What is left of the buffers when `n` bytes are written -/
def advance : List (List UInt8) → ℕ → List (List UInt8)
  | [], _ => []
  | b :: bs, n => if b.length ≤ n then advance bs (n - b.length) else b.drop n :: bs

/-- A round of the loop -/
def SendState.round (s : SendState) : SendMsg → SendState
  | .interrupted | .wouldBlock => s
  | .accepts more =>
    let offered := s.localIov.flatten
    let n := min (more + 1) offered.length
    ⟨s.sent + n, advance s.localIov n, s.stream ++ offered.take n⟩

section

variable (kernel : Kernel) (iov : List (List UInt8))

def total : ℕ := (iov.map length).sum

/-- The loop of `SendV` after at most `n` rounds -/
def sendRounds : ℕ → SendState
  | 0 => ⟨0, iov.take 64, []⟩
  | n + 1 =>
    let s := sendRounds n
    if s.sent < total iov then s.round (kernel.answer n) else s

/-- `SendV`, if it returns within `n` rounds: its result and what the stream has received -/
def sendV (n : ℕ) : Option (ℕ × List UInt8) :=
  let s := sendRounds kernel iov n
  if s.sent < total iov then none else some (s.sent, s.stream)

end

/-- `Bulk` -/
structure Bulk where
  data : List UInt8
  /-- `BULK_XFER` -/
  xfer : Bool

/-- The buffers of `Send`: the length of the metadata in network order, the metadata and the bulks
-/
def sendIov (metaBuf : List UInt8) (send : List Bulk) : List (List UInt8) :=
  [24, 16, 8, 0].map (fun i => .ofNat (metaBuf.length % 2 ^ 32 / 2 ^ i)) :: metaBuf ::
    (send.filter Bulk.xfer).map Bulk.data

/-- `Send`, if it returns within `n` rounds -/
def send (kernel : Kernel) (metaBuf : List UInt8) (send : List Bulk) (n : ℕ) : Option ℕ :=
  (sendV kernel (sendIov metaBuf send) n).map fun _ => 0

/-- `SendV` returns the total length with all buffers on the stream. -/
def SendsAll (iov : List (List UInt8)) : Prop :=
  ∀ kernel : Kernel, ∃ n, sendV kernel iov n = some (total iov, iov.flatten)

/-! ## The loop -/

variable {kernel : Kernel} {iov : List (List UInt8)} {s : SendState} {n : ℕ}

lemma flatten_advance (bs : List (List UInt8)) (n : ℕ) :
    (advance bs n).flatten = bs.flatten.drop n := by
  induction bs generalizing n with
  | nil => simp [advance]
  | cons b bs ih =>
    rw [advance]
    split_ifs with h
    · rw [ih, flatten_cons, drop_append, drop_of_length_le h, nil_append]
    · rw [flatten_cons, flatten_cons, drop_append_of_le_length (by omega)]

/-- What has been written and what is left make up the buffers that `local_iov` has room for. -/
structure Split (iov : List (List UInt8)) (s : SendState) : Prop where
  flatten : s.stream ++ s.localIov.flatten = (iov.take 64).flatten
  sent : s.sent = s.stream.length

lemma Split.round (h : Split iov s) (a : SendMsg) : Split iov (s.round a) := by
  cases a with
  | interrupted => exact h
  | wouldBlock => exact h
  | accepts more =>
    constructor
    · simp only [SendState.round]
      rw [flatten_advance, append_assoc, take_append_drop, h.flatten]
    · simp only [SendState.round]
      rw [length_append, length_take, h.sent, min_assoc, min_self]

lemma split_sendRounds (kernel : Kernel) (iov : List (List UInt8)) (n : ℕ) :
    Split iov (sendRounds kernel iov n) := by
  induction n with
  | zero => exact ⟨rfl, rfl⟩
  | succ n ih =>
    rw [sendRounds]
    split_ifs
    · exact ih.round _
    · exact ih

lemma total_eq (iov : List (List UInt8)) : total iov = iov.flatten.length := length_flatten.symm

lemma flatten_take_drop (iov : List (List UInt8)) :
    (iov.take 64).flatten ++ (iov.drop 64).flatten = iov.flatten := by
  rw [← flatten_append, take_append_drop]

/-- If `SendV` returns, everything is written and nothing was behind the first 64 buffers. -/
lemma of_sendV_eq_some {r : ℕ × List UInt8} (h : sendV kernel iov n = some r) :
    r = (total iov, iov.flatten) ∧ (iov.drop 64).flatten = [] := by
  have hs := split_sendRounds kernel iov n
  set s := sendRounds kernel iov n with hdef
  simp only [sendV, ← hdef] at h
  split_ifs at h with hlt
  cases h
  have hlen := congrArg length hs.flatten
  have hall := congrArg length (flatten_take_drop iov)
  rw [total_eq] at hlt ⊢
  simp only [length_append] at hlen hall
  rw [hs.sent] at hlt ⊢
  have hrest : (iov.drop 64).flatten = [] := length_eq_zero_iff.mp (by omega)
  have hleft : s.localIov.flatten = [] := length_eq_zero_iff.mp (by omega)
  refine ⟨Prod.ext (by dsimp only; omega) ?_, hrest⟩
  rw [← flatten_take_drop, hrest, append_nil, ← hs.flatten, hleft, append_nil]

/-- A round that accepts makes progress while bytes are left. -/
lemma sent_lt_of_accepts {more : ℕ} (ha : kernel.answer n = .accepts more)
    (hdrop : (iov.drop 64).flatten = []) (hlt : (sendRounds kernel iov n).sent < total iov) :
    (sendRounds kernel iov n).sent < (sendRounds kernel iov (n + 1)).sent := by
  have hs := split_sendRounds kernel iov n
  have hlen := congrArg length hs.flatten
  have hall := congrArg length (flatten_take_drop iov)
  rw [total_eq] at hlt
  simp only [length_append, hdrop, length_nil] at hlen hall
  have hleft : 0 < (sendRounds kernel iov n).localIov.flatten.length := by
    have := hs.sent
    omega
  rw [sendRounds, if_pos (by rwa [total_eq]), ha, SendState.round]
  dsimp only
  omega

lemma sent_mono (kernel : Kernel) (iov : List (List UInt8)) :
    Monotone fun n => (sendRounds kernel iov n).sent := by
  refine monotone_nat_of_le_succ fun n => ?_
  rw [sendRounds]
  split_ifs
  · cases kernel.answer n with
    | accepts more => exact Nat.le_add_right _ _
    | _ => exact le_rfl
  · exact le_rfl

lemma exists_sendV (kernel : Kernel) (hdrop : (iov.drop 64).flatten = []) :
    ∃ n r, sendV kernel iov n = some r := by
  -- the bytes that are not yet sent bound the rounds that accept
  suffices h : ∀ d, ∃ n, total iov ≤ (sendRounds kernel iov n).sent + (total iov - d) by
    obtain ⟨n, hn⟩ := h (total iov)
    exact ⟨n, _, if_neg (by omega)⟩
  intro d
  induction d with
  | zero => exact ⟨0, by omega⟩
  | succ d ih =>
    obtain ⟨n, hn⟩ := ih
    obtain ⟨m, hm, more, ha⟩ := kernel.accepting n
    have hmono := sent_mono kernel iov hm
    dsimp only at hmono
    by_cases hlt : (sendRounds kernel iov m).sent < total iov
    · have hstep := sent_lt_of_accepts ha hdrop hlt
      exact ⟨m + 1, by omega⟩
    · exact ⟨m, by omega⟩

instance : Inhabited Kernel := ⟨fun _ => .accepts 0, fun n => ⟨n, le_rfl, 0, rfl⟩⟩

/-- **Scattered writes** return with everything written exactly if nothing is behind the first 64
buffers, and `Send` returns exactly if nothing is behind the first 62 bulks. -/
theorem sendsAll_iff (iov : List (List UInt8)) (metaBuf : List UInt8) (bulks : List Bulk) :
    (SendsAll iov ↔ (iov.drop 64).flatten = []) ∧
      ((∀ kernel, ∃ n, send kernel metaBuf bulks n = some 0) ↔
        (((bulks.filter Bulk.xfer).drop 62).map Bulk.data).flatten = []) := by
  refine ⟨⟨fun h => ?_, fun h kernel => ?_⟩, ?_⟩
  · obtain ⟨n, hn⟩ := h default
    exact (of_sendV_eq_some hn).2
  · obtain ⟨n, r, hr⟩ := exists_sendV kernel h
    exact ⟨n, (of_sendV_eq_some hr).1 ▸ hr⟩
  · have hdrop : (sendIov metaBuf bulks).drop 64 =
        ((bulks.filter Bulk.xfer).drop 62).map Bulk.data := by
      rw [map_drop]
      rfl
    rw [← hdrop]
    refine ⟨fun h => ?_, fun h kernel => ?_⟩
    · obtain ⟨n, hn⟩ := h default
      obtain ⟨r, hr, -⟩ := Option.map_eq_some_iff.mp hn
      exact (of_sendV_eq_some hr).2
    · obtain ⟨n, r, hr⟩ := exists_sendV kernel h
      exact ⟨n, Option.map_eq_some_iff.mpr ⟨r, hr, rfl⟩⟩

/-- `SendV` never returns from 65 buffers of one byte each. -/
theorem not_sendsAll_sixtyFive : ¬ SendsAll (replicate 65 [1]) ∧
    ∀ kernel n, sendV kernel (replicate 65 [1]) n = none := by
  have hnone : ∀ kernel n, sendV kernel (replicate 65 [1]) n = none := by
    intro kernel n
    refine Option.eq_none_iff_forall_ne_some.mpr fun r hr => ?_
    exact absurd (of_sendV_eq_some hr).2 (by decide)
  refine ⟨fun h => ?_, hnone⟩
  obtain ⟨n, hn⟩ := h default
  exact absurd ((hnone default n).symm.trans hn) (Option.some_ne_none _).symm

end ClioCore.Transport
