import ClioCore.Foundations.Framing
import ClioCore.Foundations.Serial

/-!
# The restart log

`RestartLog` appends a record for each path that is registered or unregistered, and `LiveSet` reads
the whole file: it keeps the paths in the order in which they became live and, apart from that, the
set of those live now.  The two agree as long as no path is registered again after it was removed,
and the file is read as it was written as long as nothing is appended to a torn record.

Directories can be created and files opened, written and renamed.
-/

namespace ClioCore.Runtime.RestartLog

open Foundations List

/-! ## The log -/

/-- The bytes of a path. -/
abbrev Path := List UInt8

inductive Op where
  | add
  | rm
deriving DecidableEq

structure Entry where
  op : Op
  path : Path
deriving DecidableEq

variable {file : List UInt8} {es : List Entry} {e : Entry}

/-- What `AppendEntry` appends; the length is cut to 32 bits. -/
def Entry.bytes (e : Entry) : List UInt8 :=
  let len := e.path.length % 2 ^ 32
  (if e.op = .rm then 1 else 0) :: (toLe 4 len ++ e.path.take len)

/-- One turn of the loop of `ReadAll`: every operation but 1 is an add. -/
def Entry.read : List UInt8 → Option (Entry × List UInt8)
  | [] => none
  | op :: bs =>
    let len := ofLe (bs.take 4)
    let body := bs.drop 4
    if bs.length < 4 ∨ body.length < len then none
    else some (⟨if op = 1 then .rm else .add, body.take len⟩, body.drop len)

def readAll (file : List UInt8) : List Entry := scan Entry.read file.length file

/-- One entry of the loop of `LiveSet`, over `order` and `live`. -/
def track (s : List Path × Finset Path) (e : Entry) :
    List Path × Finset Path :=
  match e.op with
  | .add => if e.path ∈ s.2 then s else (s.1 ++ [e.path], insert e.path s.2)
  | .rm => (s.1, s.2.erase e.path)

def tracked (es : List Entry) : List Path × Finset Path := es.foldl track ([], ∅)

def liveOf (es : List Entry) : List Path := (tracked es).1.filter (· ∈ (tracked es).2)

def liveSet (file : List UInt8) : List Path := liveOf (readAll file)

def isMinimal (entries : List Entry) (live : List Path) : Bool := entries = live.map (.mk .add)

def compact (file : List UInt8) : List UInt8 :=
  if isMinimal (readAll file) (liveSet file) then file
  else ((liveSet file).map (.mk .add)).flatMap Entry.bytes

inductive Call where
  /-- `AppendAdd` or `AppendRm`, of which the first `cut` bytes reach the file. -/
  | append (e : Entry) (cut : ℕ)
  | compact

def step (file : List UInt8) : Call → Option (List UInt8)
  | .append e cut => some (file ++ e.bytes.take cut)
  | .compact => some (compact file)

/-- Nothing is appended after a torn record, and no path that the file has added is added while it
is not live. -/
def orderly (file : List UInt8) : Call → Bool
  | .append e cut => decide ((readAll file).flatMap Entry.bytes = file ∧
      (e.op = .add → e.bytes.length ≤ cut → e.path ∈ liveSet file ∨ e ∉ readAll file))
  | .compact => true

/-! ## What it is for -/

/-- The paths registered, by the age of their registration. -/
def register (l : List Path) (e : Entry) : List Path :=
  match e.op with
  | .add => if e.path ∈ l then l else l ++ [e.path]
  | .rm => l.erase e.path

def registered (es : List Entry) : List Path := es.foldl register []

/-- The last record about a path. -/
def lastOp (es : List Entry) (p : Path) : Option Op :=
  (es.filter (·.path = p)).getLast?.map Entry.op

/-- The records that the calls write in full. -/
def written : List Call → List Entry
  | [] => []
  | .append e cut :: calls => if e.bytes.length ≤ cut then e :: written calls else written calls
  | .compact :: calls => written calls

lemma nodup_registered (es : List Entry) : (registered es).Nodup := by
  induction es using reverseRecOn with
  | nil => exact nodup_nil
  | append_singleton es e ih =>
    rw [registered, foldl_concat, register]
    cases e.op with
    | add =>
      split_ifs with hp
      · exact ih
      · simpa using ih.concat hp
    | rm => exact ih.erase _

lemma mem_registered (es : List Entry) (p : Path) : p ∈ registered es ↔
    lastOp es p = some .add := by
  induction es using reverseRecOn with
  | nil => simp [registered, lastOp]
  | append_singleton es e ih =>
    obtain ⟨op, path⟩ := e
    rw [registered, foldl_concat, ← registered, register]
    by_cases hp : path = p
    · subst hp
      cases op with
      | add => by_cases hmem : path ∈ registered es <;> simp [lastOp, hmem]
      | rm => simp [lastOp, (nodup_registered es).mem_erase_iff]
    · have hls : lastOp (es ++ [⟨op, path⟩]) p = lastOp es p := by simp [lastOp, hp]
      rw [hls, ← ih]
      cases op with
      | add => by_cases hmem : path ∈ registered es <;> simp [hmem, Ne.symm hp]
      | rm => exact mem_erase_of_ne (Ne.symm hp)

/-! ## Order and membership -/

/-- The order has every live path, and each path it has once. -/
structure Sound (es : List Entry) : Prop where
  nodup : (tracked es).1.Nodup
  live : ∀ p ∈ (tracked es).2, p ∈ (tracked es).1
  adds : ∀ p ∈ (tracked es).1, ⟨.add, p⟩ ∈ es

lemma tracked_concat (es : List Entry) (e : Entry) : tracked (es ++ [e]) = track (tracked es) e :=
  foldl_concat ..

namespace Sound

lemma mem_liveOf (h : Sound es) {p : Path} : p ∈ liveOf es ↔ p ∈ (tracked es).2 := by
  rw [liveOf, mem_filter, decide_eq_true_iff]
  exact and_iff_right_of_imp (h.live p)

/-- **One more record** registers or unregisters its path, unless it adds one that was removed. -/
lemma concat (h : Sound es) (hadd : e.op = .add → e.path ∈ liveOf es ∨ e ∉ es) :
    Sound (es ++ [e]) ∧ liveOf (es ++ [e]) = register (liveOf es) e := by
  obtain ⟨op, p⟩ := e
  have hold : ∀ q ∈ (tracked es).1, ⟨.add, q⟩ ∈ es ++ [⟨op, p⟩] :=
    fun q hq => mem_append_left _ (h.adds q hq)
  cases op with
  | add =>
    by_cases hp : p ∈ (tracked es).2
    · have hsm : tracked (es ++ [⟨.add, p⟩]) = tracked es := by
        rw [tracked_concat, track, if_pos hp]
      rw [register, if_pos (h.mem_liveOf.mpr hp), liveOf, hsm]
      exact ⟨⟨hsm ▸ h.nodup, hsm ▸ h.live, hsm ▸ hold⟩, rfl⟩
    · have hnew : p ∉ (tracked es).1 := fun hmem =>
        ((hadd rfl).resolve_left (h.mem_liveOf.not.mpr hp)) (h.adds p hmem)
      have hmore : tracked (es ++ [⟨.add, p⟩]) = ((tracked es).1 ++ [p],
          insert p (tracked es).2) := by
        rw [tracked_concat, track, if_neg hp]
      refine ⟨⟨?_, ?_, ?_⟩, ?_⟩
      · rw [hmore]
        simpa using h.nodup.concat hnew
      · rw [hmore]
        intro q hq
        rcases Finset.mem_insert.mp hq with rfl | hq
        · simp
        · exact mem_append_left _ (h.live q hq)
      · rw [hmore]
        intro q hq
        rcases mem_append.mp hq with hq | hq
        · exact hold q hq
        · simp [mem_singleton.mp hq]
      · rw [register, if_neg (h.mem_liveOf.not.mpr hp), liveOf, hmore, filter_append]
        congr 1
        · refine filter_congr fun q hq => ?_
          simp [show q ≠ p by rintro rfl; exact hnew hq]
        · simp
  | rm =>
    have hless : tracked (es ++ [⟨.rm, p⟩]) = ((tracked es).1, (tracked es).2.erase p) :=
      tracked_concat ..
    refine ⟨⟨hless ▸ h.nodup, ?_, hless ▸ hold⟩, ?_⟩
    · rw [hless]
      exact fun q hq => h.live q (Finset.mem_of_mem_erase hq)
    · have her : (liveOf es).erase p = (liveOf es).filter (· != p) :=
        (h.nodup.filter _).erase_eq_filter p
      rw [register, her, liveOf, hless, liveOf, filter_filter]
      refine filter_congr fun q _ => ?_
      by_cases hq : q = p <;> simp [hq]

end Sound

lemma liveOf_map_add {l : List Path} (hl : l.Nodup) :
    Sound (l.map (.mk .add)) ∧ liveOf (l.map (.mk .add)) = l := by
  induction l using reverseRecOn with
  | nil => exact ⟨⟨nodup_nil, by simp [tracked], by simp [tracked]⟩, rfl⟩
  | append_singleton l p ih =>
    obtain ⟨hl, hp⟩ : l.Nodup ∧ p ∉ l := by simpa [nodup_append, imp_not_comm] using hl
    obtain ⟨hsnd, hlv⟩ := ih hl
    obtain ⟨hsnd', hlv'⟩ := hsnd.concat (e := ⟨.add, p⟩) fun _ => .inr (by simpa using hp)
    rw [map_append, map_singleton]
    refine ⟨hsnd', ?_⟩
    rw [hlv', hlv, register, if_neg hp]

/-! ## The file -/

lemma read_bytes_append (he : e.path.length < 2 ^ 32) (rest : List UInt8) :
    Entry.read (e.bytes ++ rest) = some (e, rest) := by
  obtain ⟨op, path⟩ := e
  have hlen : ofLe (toLe 4 path.length) = path.length := ofLe_toLe he
  rw [Entry.bytes, Nat.mod_eq_of_lt he]
  cases op <;> simp [Entry.read, hlen]

/-- A record of which only a part was written cannot be read. -/
lemma read_take_bytes (he : e.path.length < 2 ^ 32) {n : ℕ} (hn : n < e.bytes.length) :
    Entry.read (e.bytes.take n) = none := by
  have hlen : ofLe (toLe 4 e.path.length) = e.path.length := ofLe_toLe he
  rw [Entry.bytes, Nat.mod_eq_of_lt he] at hn ⊢
  simp only [take_length, length_cons, length_append, length_toLe] at hn ⊢
  cases n with
  | zero => rfl
  | succ n =>
    refine if_pos (or_iff_not_imp_left.mpr fun hfour => ?_)
    have hfour : 4 ≤ n := by
      rw [length_take] at hfour
      omega
    rw [take_take, Nat.min_eq_left hfour, take_left' (length_toLe ..), length_drop, length_take]
    omega

/-- The file is the records `es` and a tail that cannot be read, and they come to what was
registered. -/
structure Holds (file : List UInt8) (reg : List Path) (es : List Entry) : Prop where
  file : ∃ tail, file = es.flatMap Entry.bytes ++ tail ∧ Entry.read tail = none
  short : ∀ e ∈ es, e.path.length < 2 ^ 32
  sound : Sound es
  live : liveOf es = reg

namespace Holds

variable {reg : List Path}

section

variable (h : Holds file reg es)
include h

lemma readAll : readAll file = es := by
  obtain ⟨tail, rfl, htail⟩ := h.file
  exact scan_flatMap (fun e he => read_bytes_append (h.short e he)) (by simp [Entry.bytes]) htail

lemma liveSet : liveSet file = reg := by rw [RestartLog.liveSet, h.readAll, h.live]

lemma nodup : reg.Nodup := h.live ▸ h.sound.nodup.filter _

lemma compact : ∃ es', Holds (compact file) reg es' := by
  rw [RestartLog.compact]
  split_ifs
  · exact ⟨es, h⟩
  · obtain ⟨hsnd, hlv⟩ := liveOf_map_add h.nodup
    rw [h.liveSet]
    refine ⟨_, ⟨[], by simp, rfl⟩, fun e he => ?_, hsnd, hlv⟩
    obtain ⟨p, hp, rfl⟩ := mem_map.mp he
    rw [← h.live] at hp
    exact h.short _ (h.sound.adds p (mem_of_mem_filter hp))

lemma append {cut : ℕ} (he : e.path.length < 2 ^ 32) (hok : orderly file (.append e cut)) :
    ∃ es', Holds (file ++ e.bytes.take cut) ((written [.append e cut]).foldl register reg) es' := by
  obtain ⟨hcl, hadd⟩ := of_decide_eq_true hok
  rw [h.readAll] at hcl hadd
  rw [h.liveSet, ← h.live] at hadd
  rw [written]
  split_ifs with hcut
  · obtain ⟨hsnd, hlv⟩ := h.sound.concat fun ho => hadd ho hcut
    refine ⟨es ++ [e], ⟨[], ?_, rfl⟩, fun e' he' => ?_, hsnd, hlv.trans (by rw [h.live]; rfl)⟩
    · rw [take_of_length_le hcut, ← hcl]
      simp
    · rcases mem_append.mp he' with he' | he'
      · exact h.short e' he'
      · rwa [mem_singleton.mp he']
  · exact ⟨es, ⟨e.bytes.take cut, by rw [hcl], read_take_bytes he (not_le.mp hcut)⟩,
      h.short, h.sound, h.live⟩

lemma run {file' : List UInt8} {calls : List Call}
    (hshort : ∀ e cut, .append e cut ∈ calls → e.path.length < 2 ^ 32)
    (hok : Meets step (fun file c => orderly file c) file calls)
    (hrun : runAll step file calls = some file') :
    ∃ es', Holds file' ((written calls).foldl register reg) es' := by
  induction calls generalizing file reg es with
  | nil => exact ⟨es, Option.some.inj hrun ▸ h⟩
  | cons c calls ih =>
    obtain ⟨file1, hs, hrs⟩ := Option.bind_eq_some_iff.mp hrun
    have hshort' : ∀ e cut, .append e cut ∈ calls → e.path.length < 2 ^ 32 :=
      fun e cut hmem => hshort e cut (mem_cons_of_mem _ hmem)
    have hone : ∃ es', Holds file1 ((written [c]).foldl register reg) es' := by
      cases c with
      | append e cut => exact Option.some.inj hs ▸ h.append (hshort e cut mem_cons_self) hok.1
      | compact => exact Option.some.inj hs ▸ h.compact
    obtain ⟨es', h'⟩ := hone
    have hspl : written (c :: calls) = written [c] ++ written calls := by
      cases c with
      | append e cut => simp only [written]; split_ifs <;> rfl
      | compact => rfl
    rw [hspl, foldl_append]
    exact ih h' hshort' (hok.2 file1 hs) hrs

end

end Holds

/-- **What is remembered.**  In a run of orderly calls `LiveSet` lists each path whose last record
is an add once, by the age of its registration, and `Compact` does not change that. -/
theorem liveSet_of_orderly {calls : List Call} {file : List UInt8}
    (hshort : ∀ e cut, .append e cut ∈ calls → e.path.length < 2 ^ 32)
    (hok : Meets step (fun file c => orderly file c) [] calls)
    (hrun : runAll step [] calls = some file) :
    liveSet file = registered (written calls) ∧ (liveSet file).Nodup ∧
    (∀ p, p ∈ liveSet file ↔ lastOp (written calls) p = some .add) ∧
    liveSet (compact file) = liveSet file := by
  have hemp : Holds [] [] [] :=
    ⟨⟨[], rfl, rfl⟩, by simp, ⟨nodup_nil, by simp [tracked], by simp [tracked]⟩, rfl⟩
  obtain ⟨es, h⟩ := hemp.run hshort hok hrun
  obtain ⟨es', h'⟩ := h.compact
  have hlv : liveSet file = registered (written calls) := h.liveSet
  refine ⟨hlv, hlv ▸ nodup_registered _, fun p => ?_, h'.liveSet.trans h.liveSet.symm⟩
  rw [hlv, mem_registered]

theorem liveSet_of_torn_last :
    liveSet (Entry.bytes ⟨.add, [97]⟩ ++ [1, 1, 0]) = [[97]] := by
  have hcls : runAll step [] [.append ⟨.add, [97]⟩ 6, .append ⟨.rm, [97]⟩ 3]
      = some (Entry.bytes ⟨.add, [97]⟩ ++ [1, 1, 0]) := by decide +kernel
  refine (liveSet_of_orderly (fun e cut he => ?_) (by decide +kernel) hcls).1
  simp only [mem_cons, Call.append.injEq, not_mem_nil, or_false] at he
  obtain ⟨⟨rfl, -⟩, -⟩ | ⟨rfl, -⟩ := he <;> decide

/-- A path that is added again is listed twice, until the log is compacted; and a path that is added
after a torn record is lost. -/
theorem liveSet_of_added_again_and_after_torn :
    (runAll step [] [.append ⟨.add, [97]⟩ 6, .append ⟨.rm, [97]⟩ 6, .append ⟨.add, [97]⟩ 6]).map
      liveSet = some [[97], [97]] ∧
    (runAll step [] [.append ⟨.add, [97]⟩ 6, .append ⟨.rm, [97]⟩ 6, .append ⟨.add, [97]⟩ 6,
      .compact]).map liveSet = some [[97]] ∧
    (runAll step [] [.append ⟨.add, [97]⟩ 3, .append ⟨.add, [98]⟩ 6]).map liveSet = some [] := by
  decide +kernel

end ClioCore.Runtime.RestartLog
