import ClioCore.Filesystem.Lookup

/-!
# What reads, writes and truncates do to the pages of a file

The specifications of the loops of `filesystem_runtime.cc` over pages.  `Core.Holds c tagId l` says
that the pages of a tag hold the bytes `l`.  A write through a `FileInfo` whose size is the length
of `l` leaves pages that hold `l` overwritten, a truncate pages that hold `l` resized, and a read
returns what there is of `l` in its range.  None of them touches a blob of another tag.
-/

namespace ClioCore.Filesystem

open Foundations Cte List Nat Function Option State BlobKey

variable {want off handle : ℕ} {data l : List UInt8}

lemma kFsPageSize_pos : 0 < kFsPageSize := by decide

/-- Pages have different names. -/
lemma toString_inj {m n : ℕ} (h : toString m = toString n) : m = n := by
  have hval : ∀ k : ℕ, ofDigitChars 10 (toString k).toList 0 = k := by
    intro k
    rw [Nat.toString_eq_repr, Nat.toList_repr, ofDigitChars_ten_toDigits]
  rw [← hval m, h, hval n]

/-- The name of a page consists of digits. -/
lemma toString_ne_of_mem {p : ℕ} {name : String} {c : Char} (hc : c ∈ name.toList)
    (hdig : c.isDigit = false) : toString p ≠ name := by
  rintro rfl
  rw [isDigit_of_mem_toString hc] at hdig
  simp at hdig

/-- The loop over pages is the plain one if the range does not wrap. -/
lemma pageSpans_eq_pieces {fuel cur done : ℕ} (h : cur + (want - done) ≤ 2 ^ 64) :
    pageSpans fuel cur done want = pieces kFsPageSize fuel cur done want := by
  induction fuel generalizing cur done with
  | zero => rfl
  | succ fuel ih =>
    rw [pageSpans, Foundations.pieces]
    split_ifs with hlt
    · have hpos := pos_of_piece kFsPageSize_pos cur hlt
      rw [cons.injEq]
      refine ⟨rfl, ?_⟩
      generalize min (kFsPageSize - cur % kFsPageSize) (want - done) = n at hpos ⊢
      rcases lt_or_ge (cur + n) (2 ^ 64) with hft | hwra
      · rw [u64, mod_eq_of_lt hft]
        exact ih (by omega)
      · -- The range ends at the top: no round is left, wherever the position has wrapped to.
        have hend : ¬ done + n < want := by omega
        cases fuel with
        | zero => rfl
        | succ fuel => rw [pageSpans, Foundations.pieces, if_neg hend, if_neg hend]
    · rfl

namespace Core

variable {c : Core} {tagId : TagId}

/-- The pages of the tag hold the bytes. -/
def Holds (c : Core) (tagId : TagId) (l : List UInt8) : Prop :=
  Paged kFsPageSize 0 (c.pages tagId) l

/-- A byte of a file as it is stored. -/
def byteAt (c : Core) (tagId : TagId) (i : ℕ) : UInt8 := pagedGet kFsPageSize 0 (c.pages tagId) i

/-- The two cores differ in blobs of one tag only. -/
structure SameBut (tagId : TagId) (c c' : Core) : Prop where
  tags : c'.tags = c.tags
  content : ∀ other name, other ≠ tagId → c'.content other name = c.content other name

lemma SameBut.refl (tagId : TagId) (c : Core) : SameBut tagId c c := ⟨rfl, fun _ _ _ => rfl⟩

lemma SameBut.trans {c1 c2 c3 : Core} (h : SameBut tagId c1 c2) (h' : SameBut tagId c2 c3) :
    SameBut tagId c1 c3 where
  tags := h'.tags.trans h.tags
  content other name hne := (h'.content other name hne).trans (h.content other name hne)

lemma SameBut.byteAt {c' : Core} (h : SameBut tagId c c') {other : TagId} (hne : other ≠ tagId) :
    c'.byteAt other = c.byteAt other := by
  have hpgs : c'.pages other = c.pages other := funext fun p => h.content other _ hne
  funext i
  rw [Core.byteAt, hpgs]
  rfl

/-! ## One blob -/

lemma content_insert (c : Core) (key : BlobKey) (bytes : List UInt8) (other : TagId)
    (name : String) : ({ c with blobs := c.blobs.insert key bytes } : Core).content other name
      = if key = ⟨other, name⟩ then bytes else c.content other name := by
  unfold content
  obtain rfl | hne := eq_or_ne key ⟨other, name⟩
  · rw [if_pos rfl, AList.lookup_insert, getD_some]
  · rw [if_neg hne, AList.lookup_insert_ne hne.symm]

section

variable (c tagId)

lemma content_delBlob (gone : String) (other : TagId) (name : String) :
    (c.delBlob tagId gone).content other name
      = if (⟨tagId, gone⟩ : BlobKey) = ⟨other, name⟩ then [] else c.content other name := by
  unfold content delBlob
  obtain heq | hne := eq_or_ne (⟨tagId, gone⟩ : BlobKey) ⟨other, name⟩
  · rw [if_pos heq, heq, AList.lookup_erase, getD_none]
  · rw [if_neg hne, AList.lookup_erase_ne hne.symm]

variable (name : String)

lemma sameBut_delBlob : SameBut tagId c (c.delBlob tagId name) := by
  refine ⟨rfl, fun other name' hne => ?_⟩
  rw [content_delBlob, if_neg fun h => hne (congrArg tag h).symm]

lemma sameBut_insert (bytes : List UInt8) :
    SameBut tagId c { c with blobs := c.blobs.insert ⟨tagId, name⟩ bytes } := by
  refine ⟨rfl, fun other name' hne => ?_⟩
  rw [content_insert, if_neg fun h => hne (congrArg tag h).symm]

lemma pages_insert (p : ℕ) (bytes : List UInt8) :
    ({ c with blobs := c.blobs.insert ⟨tagId, toString p⟩ bytes } : Core).pages tagId
      = update (c.pages tagId) p bytes := by
  funext q
  unfold pages
  rw [content_insert]
  obtain rfl | hne := eq_or_ne q p
  · rw [if_pos rfl, update_self]
  · rw [if_neg fun h => hne (toString_inj (congrArg name h)).symm, update_of_ne hne]

lemma putBlob_page (p off : ℕ) (hdt : data ≠ []) :
    ∃ c', c.putBlob tagId (toString p) off data = (0, c') ∧ SameBut tagId c c' ∧
      c'.pages tagId = update (c.pages tagId) p (overwrite 0 (c.pages tagId p) off data) := by
  refine ⟨_, by rw [putBlob, if_neg hdt, if_neg (show toString p ≠ "" from Nat.repr_ne_empty)], ?_,
    ?_⟩
  · exact sameBut_insert c tagId _ _
  · exact pages_insert c tagId p _

lemma sameBut_truncateBlob (n : ℕ) : SameBut tagId c (c.truncateBlob tagId name n) := by
  unfold truncateBlob
  split
  · exact .refl tagId c
  · exact sameBut_insert c tagId name _

/-- A page that is cut: it may not have been there at all. -/
lemma pages_truncateBlob (p n : ℕ) :
    (∀ q, q ≠ p → (c.truncateBlob tagId (toString p) n).pages tagId q = c.pages tagId q) ∧
    ((c.truncateBlob tagId (toString p) n).pages tagId p = resize 0 (c.pages tagId p) n ∨
      c.pages tagId p = [] ∧ (c.truncateBlob tagId (toString p) n).pages tagId p = []) := by
  unfold truncateBlob
  cases hlk : c.blobs.lookup ⟨tagId, toString p⟩ with
  | none =>
    have hno : c.pages tagId p = [] := by rw [pages, content, hlk, getD_none]
    exact ⟨fun q _ => rfl, .inr ⟨hno, hno⟩⟩
  | some bytes =>
    have hby : c.pages tagId p = bytes := by rw [pages, content, hlk, getD_some]
    rw [pages_insert, update_self, hby]
    exact ⟨fun q hq => update_of_ne hq _ _, .inl rfl⟩

end

/-- Stamping the times of a directory changes no page. -/
lemma pages_touchDir (c : Core) (dir : String) (tagId : TagId) :
    (c.touchDir dir).pages tagId = c.pages tagId := by
  funext p
  unfold touchDir truncateBlob
  dsimp only
  split
  · rfl
  · rw [pages, content_insert, if_neg]
    · rfl
    · intro h
      have hnm : toString p = tsTouchBlob := (congrArg name h).symm
      exact toString_ne_of_mem (c := '_') (by decide) (by decide) hnm

lemma tags_touchDir (c : Core) (dir : String) :
    (c.touchDir dir).tags = (c.tags.getOrCreateTag dir .null).2 := by
  unfold touchDir truncateBlob
  dsimp only
  split <;> rfl

/-! ## Loops over pages -/

/-- **The loop of a read.** -/
lemma flatMap_getBlob (c : Core) (tagId : TagId) (hoff : off + want ≤ 2 ^ 64) :
    ((pageSpans want off 0 want).flatMap fun q => c.getBlob tagId (toString q.page) q.pageOff q.len)
      = (range want).map fun i => c.byteAt tagId (off + i) := by
  rw [pageSpans_eq_pieces (by omega)]
  refine Eq.trans ?_ (flatMap_window_pieces kFsPageSize_pos (c.pages tagId) (Nat.zero_add want).ge)
  exact flatMap_congr fun q _ => window_eq_append _ _ _

lemma Holds.read (h : c.Holds tagId l) (hoff : off + want ≤ 2 ^ 64) :
    ((pageSpans want off 0 want).flatMap fun q => c.getBlob tagId (toString q.page) q.pageOff q.len)
      = window 0 l off want := by
  rw [flatMap_getBlob c tagId hoff]
  exact map_congr_left fun i _ => (h.cell _).symm

/-- The loop of a write, round by round. -/
lemma loopWhile_writePage (data : List UInt8) {qs : List Foundations.Piece}
    (hqs : ∀ q ∈ qs, 0 < q.len ∧ q.done + q.len ≤ data.length) (c : Core) (tagId : TagId) (k : ℕ) :
    ∃ c', loopWhile (writePage tagId data) qs (c, k) =
    ((c', k + (qs.map Foundations.Piece.len).sum), true) ∧
      SameBut tagId c c' ∧ c'.pages tagId = overwritePieces 0 data (c.pages tagId) qs := by
  induction qs generalizing c k with
  | nil => exact ⟨c, rfl, .refl tagId c, rfl⟩
  | cons q qs ih =>
    obtain ⟨hlen, hend⟩ := hqs q mem_cons_self
    have hdt : (data.drop q.done).take q.len ≠ [] := by
      rw [← length_pos_iff, length_take, length_drop]
      omega
    obtain ⟨c1, hput, hsm1, hpgs1⟩ := c.putBlob_page tagId q.page q.pageOff hdt
    obtain ⟨c2, hlp, hsm2, hpgs2⟩ :=
      ih (fun r hr => hqs r (mem_cons_of_mem _ hr)) c1 (k + q.len)
    have hrnd : writePage tagId data (c, k) q = ((c1, k + q.len), true) := by
      simp only [writePage, hput, if_true]
    refine ⟨c2, ?_, hsm1.trans hsm2, ?_⟩
    · rw [loopWhile, hrnd]
      dsimp only
      rw [hlp, map_cons, sum_cons, add_assoc]
    · rw [hpgs2, hpgs1]
      rfl

/-- **The loop of a write.** -/
lemma Holds.write (h : c.Holds tagId l) (hoff : off + data.length ≤ 2 ^ 64) :
    ∃ c', loopWhile (writePage tagId data) (pageSpans data.length off 0 data.length) (c, 0)
        = ((c', data.length), true) ∧
      SameBut tagId c c' ∧ c'.Holds tagId (overwrite 0 l off data) := by
  rw [pageSpans_eq_pieces (by omega)]
  have hsum : ((pieces kFsPageSize data.length off 0 data.length).map Foundations.Piece.len).sum
      = data.length :=
    sum_len_pieces kFsPageSize_pos (by omega)
  obtain ⟨c', hlp, hsm, hpgs⟩ := loopWhile_writePage data
    (fun q hq => mem_pieces kFsPageSize_pos hq) c tagId 0
  rw [hsum, zero_add] at hlp
  refine ⟨c', hlp, hsm, ?_⟩
  have hst : Paged kFsPageSize 0 (c.pages tagId) (overwrite 0 l off (data.take 0)) := by
    refine ⟨fun i => ?_, fun p i hi => ?_⟩
    · rw [getD_overwrite, if_neg (by simp), h.cell]
    · rw [length_overwrite]
      have := h.inside p i hi
      omega
  rw [Holds, hpgs]
  exact hst.overwrite_pieces kFsPageSize_pos (zero_le _) (zero_add _).ge

/-- A loop of deletions. -/
lemma foldl_delBlob (tagId : TagId) (ps : List ℕ) (c : Core) :
    SameBut tagId c (ps.foldl (fun c p => c.delBlob tagId (toString p)) c) ∧
    ∀ p, (ps.foldl (fun c p => c.delBlob tagId (toString p)) c).pages tagId p
      = if p ∈ ps then [] else c.pages tagId p := by
  induction ps generalizing c with
  | nil => exact ⟨.refl tagId c, fun p => by simp⟩
  | cons q ps ih =>
    obtain ⟨hsm, hpgs⟩ := ih (c.delBlob tagId (toString q))
    refine ⟨(c.sameBut_delBlob tagId (toString q)).trans hsm, fun p => ?_⟩
    rw [foldl_cons, hpgs, pages, content_delBlob]
    by_cases hp : p ∈ ps
    · rw [if_pos hp, if_pos (mem_cons_of_mem _ hp)]
    · obtain rfl | hne := eq_or_ne p q
      · rw [if_neg hp, if_pos rfl, if_pos mem_cons_self]
      · have hkey : (⟨tagId, toString q⟩ : BlobKey) ≠ ⟨tagId, toString p⟩ :=
          fun h => hne (toString_inj (congrArg name h)).symm
        rw [if_neg hp, if_neg hkey, if_neg (by simp [hp, hne])]
        rfl

/-- **The blob operations of a truncate.** -/
lemma Holds.trim (h : c.Holds tagId l) (hid : tagId ≠ .null) (n : ℕ) :
    SameBut tagId c (trimPages c tagId l.length n) ∧
      (trimPages c tagId l.length n).Holds tagId (resize 0 l n) := by
  unfold trimPages
  rw [if_neg hid]
  split_ifs with hlt
  · obtain ⟨hoth, hcut⟩ := c.pages_truncateBlob tagId (n / kFsPageSize) (n % kFsPageSize)
    obtain ⟨hsm, hpgs⟩ := foldl_delBlob tagId
      (range' (n / kFsPageSize + 1) ((l.length - 1) / kFsPageSize - n / kFsPageSize))
      (c.truncateBlob tagId (toString (n / kFsPageSize)) (n % kFsPageSize))
    refine ⟨(c.sameBut_truncateBlob tagId _ _).trans hsm, ?_⟩
    refine Paged.shrink kFsPageSize_pos h (fun p hp => ?_) ?_ (fun p hp => ?_)
    · rw [hpgs, if_neg, hoth p hp.ne]
      rw [mem_range'_1]
      omega
    · rw [hpgs, if_neg]
      · exact hcut
      · rw [mem_range'_1]
        omega
    · rw [hpgs]
      split_ifs with hmem
      · rfl
      · -- Beyond the last page of the old content there was nothing.
        have hls : (l.length - 1) / kFsPageSize < p := by
          rw [mem_range'_1] at hmem
          omega
        rw [hoth p hp.ne']
        refine h.eq_nil ?_
        have := (div_lt_iff_lt_mul kFsPageSize_pos).mp hls
        omega
  · obtain ⟨hoth, hcut⟩ := c.pages_truncateBlob tagId (n / kFsPageSize + 1) 0
    refine ⟨c.sameBut_truncateBlob tagId _ _, ?_⟩
    have hnil : c.pages tagId (n / kFsPageSize + 1) = [] := by
      refine h.eq_nil ?_
      have := (div_lt_iff_lt_mul kFsPageSize_pos).mp (lt_succ_self (n / kFsPageSize))
      exact (Nat.le_of_not_lt hlt).trans this.le
    have hpgs : (c.truncateBlob tagId (toString (n / kFsPageSize + 1)) 0).pages tagId
        = c.pages tagId := by
      funext p
      obtain rfl | hne := eq_or_ne p (n / kFsPageSize + 1)
      · rcases hcut with hcut | ⟨-, hcut⟩
        · rw [hcut, hnil]
          rfl
        · rw [hcut, hnil]
      · exact hoth p hne
    rw [Holds, hpgs]
    exact Paged.grow h (Nat.le_of_not_lt hlt)

end Core

/-! ## Operations on a `FileInfo` -/

namespace State

variable {s : State} {i : ℕ} {l : List UInt8}

/-- A read of the whole file, whatever its pages look like. -/
lemma read_whole (hi : s.lookupHandle handle = some i) (hsz : (s.files i).size < 2 ^ 64) :
    s.read handle 0 (s.files i).size
      = some ((range (s.files i).size).map (s.core.byteAt (s.files i).tagId)) := by
  unfold read
  rw [hi, map_some]
  dsimp only
  rw [zero_add, u64, mod_eq_of_lt hsz, if_neg (lt_irrefl _), s.core.flatMap_getBlob _ (by omega)]
  split_ifs with hemp
  · rw [le_zero.mp hemp]
    rfl
  · simp

section

variable (hi : s.lookupHandle handle = some i) (hhd : s.core.Holds (s.files i).tagId l)
  (hsz : (s.files i).size = l.length)
include hi hhd hsz

/-- **Read.** -/
lemma read_eq {n : ℕ} (hoff : off + n < 2 ^ 64) :
    s.read handle off n = some ((l.drop off).take n) := by
  unfold read
  rw [hi, map_some]
  dsimp only
  rw [u64, hsz]
  congr 1
  split_ifs with hend hcla
  · rw [drop_eq_nil_of_le hend, take_nil]
  · rw [hhd.read (by omega), window_eq_take (by omega), take_of_length_le (by simp),
      take_of_length_le (by simp; omega)]
  · rw [hhd.read (by omega), window_eq_take (by omega)]

/-- **Write.** -/
lemma write_eq (hoff : off + data.length < 2 ^ 64) : ∃ c', s.write handle off data
        = (some ⟨0, data.length, (overwrite 0 l off data).length⟩,
          { s with core := c' }.modifyFile i fun info =>
            { info with size := (overwrite 0 l off data).length }) ∧
      Core.SameBut (s.files i).tagId s.core c' ∧
      c'.Holds (s.files i).tagId (overwrite 0 l off data) := by
  obtain ⟨c', hlp, hsm, hnew⟩ := hhd.write hoff.le
  refine ⟨c', ?_, hsm, hnew⟩
  have hlen : max (s.files i).size (u64 (off + data.length)) = (overwrite 0 l off data).length := by
    rw [length_overwrite, u64, mod_eq_of_lt hoff, hsz]
  unfold write
  rw [hi]
  dsimp only
  rw [hlp]
  simp [modifyFile, hlen]

end

end State

end ClioCore.Filesystem
