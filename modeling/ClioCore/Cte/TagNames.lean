import ClioCore.Cte.State
import Mathlib.Data.List.TakeWhile

/-!
# Names of tags

A tag whose name is an absolute path is stored relative to its parent: `"/a/b"` is stored as
`"$tagid<M.m>/b"` (with braces for the angle brackets), where `M.m` is the id of `"/a"`.  The root
is stored as `"/"`, and a name that does not begin with a slash is stored as it is.

This file has the functions on such names and what they have to do with each other: a stored name
reads back as what it was made of (`parseTagRef_makeRelativeName`), and the components of a joined
path are those it was joined from (`splitPathComponents_joinComponents`).
-/

namespace ClioCore.Cte

open List Nat

/-! ## Paths -/

/-- `IsHierPath` -/
def isHierPath (name : String) : Bool := name.toList.head? = some '/'

/-- `SplitPathComponents`: the parts between slashes that are not empty. -/
def splitPathComponents (path : String) : List String :=
  ((path.toList.splitOn '/').filter fun c => c ≠ []).map String.ofList

/-- `JoinPath` -/
def joinPath (parentFull leaf : String) : String :=
  if parentFull = "/" then "/" ++ leaf else parentFull ++ "/" ++ leaf

variable {l : List Char} {c : Char} (comps : List String)

/-- The path with the given components. -/
def joinComponents : String := comps.foldl joinPath "/"

/-- `SplitParentLeaf`: none for the root. -/
def splitParentLeaf (path : String) : Option (String × String) :=
  match (splitPathComponents path).getLast? with
  | none => none
  | some leaf => some (joinComponents (splitPathComponents path).dropLast, leaf)

/-- A component of a path: not empty and without a slash. -/
def IsComponent (c : String) : Prop := c ≠ "" ∧ '/' ∉ c.toList

/-! ## Stored names -/

/-- `kTagRefPrefix` -/
def kTagRefPrefix : String := "$tagid\x7b"

/-- `MakeRelativeName` -/
def makeRelativeName (parent : TagId) (leaf : String) : String :=
  kTagRefPrefix ++ toString parent.major ++ "." ++ toString parent.minor ++ "\x7d/" ++ leaf

/-- `isspace` in the C locale: the blank, and the characters from tab to carriage return. -/
def isspace (c : Char) : Bool := c.toNat = 32 ∨ 9 ≤ c.toNat ∧ c.toNat ≤ 13

/-- `std::stoul`: blanks, a sign, then the digits up to the first other character; none if there are
no digits or too many. -/
def stoul (s : List Char) : Option ℕ :=
  let trimmed := s.dropWhile isspace
  let negative := trimmed.head? = some '-'
  let unsigned := if negative ∨ trimmed.head? = some '+' then trimmed.tail else trimmed
  let digits := unsigned.takeWhile Char.isDigit
  let n := Nat.ofDigitChars 10 digits 0
  if digits = [] ∨ 2 ^ 64 ≤ n then none
  else some (if negative then (2 ^ 64 - n) % 2 ^ 64 else n)

/-- `ParseTagRef`: the parent and the leaf of a stored name; none for other names. -/
def parseTagRef (stored : String) : Option (TagId × String) :=
  if kTagRefPrefix.toList <+: stored.toList then
    let rest := stored.toList.drop kTagRefPrefix.toList.length
    let id := rest.takeWhile (· ≠ '\x7d')
    let suffix := (rest.dropWhile (· ≠ '\x7d')).tail
    if '\x7d' ∈ rest ∧ '.' ∈ id then
      match stoul (id.takeWhile (· ≠ '.')), stoul ((id.dropWhile (· ≠ '.')).tail) with
      | some major, some minor => some (⟨major % 2 ^ 32, minor % 2 ^ 32⟩,
          String.ofList (if suffix.head? = some '/' then suffix.tail else suffix))
      | _, _ => none
    else none
  else none

/-- An id that the two `u32` of a `TagId` can hold. -/
def TagId.Fits (id : TagId) : Prop := id.major < 2 ^ 32 ∧ id.minor < 2 ^ 32

/-! ## Reading back -/

lemma takeWhile_append_of_all {p : Char → Bool} {rest : List Char}
    (h : ∀ x ∈ l, p x = true) (hc : p c = false) : (l ++ c :: rest).takeWhile p = l := by
  rw [takeWhile_append_of_pos h, takeWhile_cons_of_neg (by simp [hc]), append_nil]

lemma dropWhile_append_of_all {p : Char → Bool} {rest : List Char}
    (h : ∀ x ∈ l, p x = true) (hc : p c = false) : (l ++ c :: rest).dropWhile p = c :: rest := by
  rw [dropWhile_append_of_pos h, dropWhile_cons_of_neg (by simp [hc])]

lemma isDigit_of_mem_toString {n : ℕ} (h : c ∈ (toString n).toList) : c.isDigit = true := by
  rw [Nat.toString_eq_repr, Nat.repr, String.toList_ofList] at h
  exact isDigit_of_mem_toDigits (by decide) (by decide) h

/-- A digit is no blank and no sign. -/
lemma not_blank_of_isDigit (h : c.isDigit = true) :
    isspace c = false ∧ c ≠ '-' ∧ c ≠ '+' ∧ c ≠ '.' ∧ c ≠ '\x7d' := by
  refine ⟨?_, ?_, ?_, ?_, ?_⟩
  · have hle : 48 ≤ c.toNat := (Char.isDigit_iff_toNat.mp h).1
    exact decide_eq_false (by omega)
  all_goals
    rintro rfl
    simp at h

/-- A printed number reads back. -/
lemma stoul_toString {n : ℕ} (h : n < 2 ^ 64) : stoul (toString n).toList = some n := by
  have hdig : ∀ c ∈ (toString n).toList, c.isDigit = true := fun c hc => isDigit_of_mem_toString hc
  have hval : ofDigitChars 10 (toString n).toList 0 = n := by
    rw [Nat.toString_eq_repr, Nat.repr, String.toList_ofList]
    exact ofDigitChars_toDigits (by decide) (by decide)
  have hne : (toString n).toList ≠ [] := by
    rw [Nat.toString_eq_repr, Nat.repr, String.toList_ofList]
    exact toDigits_ne_nil
  generalize (toString n).toList = l at hdig hval hne ⊢
  obtain ⟨c, cs, rfl⟩ := exists_cons_of_ne_nil hne
  obtain ⟨hbla, hminu, hplus, -, -⟩ := not_blank_of_isDigit (hdig c mem_cons_self)
  have htk : (c :: cs).takeWhile Char.isDigit = c :: cs := takeWhile_eq_self_iff.mpr hdig
  have hdr : (c :: cs).dropWhile isspace = c :: cs :=
    dropWhile_cons_of_neg (by simp [hbla])
  simp only [stoul, hdr, head?_cons, Option.some.injEq, hminu, hplus, or_self, if_false, htk,
    hval, not_le.mpr h, cons_ne_nil]

/-- **A stored name reads back.** -/
lemma parseTagRef_makeRelativeName {parent : TagId} (hft : parent.Fits) (leaf : String) :
    parseTagRef (makeRelativeName parent leaf) = some (parent, leaf) := by
  set major := (toString parent.major).toList with hmj
  set minor := (toString parent.minor).toList with hmnr
  have hmaj : ∀ c ∈ major, c.isDigit = true := fun c hc => isDigit_of_mem_toString hc
  have hmin : ∀ c ∈ minor, c.isDigit = true := fun c hc => isDigit_of_mem_toString hc
  have hli : (makeRelativeName parent leaf).toList
      = kTagRefPrefix.toList ++ ((major ++ '.' :: minor) ++ '\x7d' :: '/' :: leaf.toList) := by
    simp only [makeRelativeName, String.toList_append, ← hmj, ← hmnr, append_assoc]
    rfl
  have hid : ∀ c ∈ major ++ '.' :: minor, (c ≠ '\x7d' : Bool) = true := by
    intro c hc
    rcases mem_append.mp hc with hc | hc
    · simpa using (not_blank_of_isDigit (hmaj c hc)).2.2.2.2
    · rcases mem_cons.mp hc with rfl | hc
      · decide
      · simpa using (not_blank_of_isDigit (hmin c hc)).2.2.2.2
  have hdots : ∀ c ∈ major, (c ≠ '.' : Bool) = true := fun c hc => by
    simpa using (not_blank_of_isDigit (hmaj c hc)).2.2.2.1
  have hsto1 : stoul major = some parent.major := stoul_toString (by have := hft.1; omega)
  have hsto2 : stoul minor = some parent.minor := stoul_toString (by have := hft.2; omega)
  simp only [parseTagRef, hli]
  rw [if_pos (prefix_append _ _), drop_left, takeWhile_append_of_all hid (by decide),
    dropWhile_append_of_all hid (by decide), takeWhile_append_of_all hdots (by decide),
    dropWhile_append_of_all hdots (by decide), if_pos ⟨by simp, by simp⟩]
  simp only [tail_cons, hsto1, hsto2, head?_cons, if_true, String.ofList_toList,
    mod_eq_of_lt hft.1, mod_eq_of_lt hft.2]

/-- Stored names are made of different things. -/
lemma makeRelativeName_inj {p q : TagId} (hp : p.Fits) (hq : q.Fits) {l m : String}
    (h : makeRelativeName p l = makeRelativeName q m) : p = q ∧ l = m := by
  have hprs := parseTagRef_makeRelativeName hp l
  rw [h, parseTagRef_makeRelativeName hq m] at hprs
  obtain ⟨hpq, hlm⟩ := Prod.mk.inj (Option.some.inj hprs)
  exact ⟨hpq.symm, hlm.symm⟩

lemma makeRelativeName_ne_empty (p : TagId) (l : String) : makeRelativeName p l ≠ "" := by
  intro h
  have hlen := congrArg (fun s => s.toList.length) h
  simp [makeRelativeName] at hlen

/-! ## Components -/

lemma joinComponents_concat (c : String) :
    joinComponents (comps ++ [c]) = joinPath (joinComponents comps) c := by
  rw [joinComponents, foldl_append]
  rfl

/-- The characters of a joined path. -/
lemma toList_joinComponents (hne : comps ≠ []) (h : ∀ c ∈ comps, IsComponent c) :
    (joinComponents comps).toList = comps.flatMap fun c => '/' :: c.toList := by
  induction comps using reverseRecOn with
  | nil => exact absurd rfl hne
  | append_singleton comps c ih =>
    rw [joinComponents_concat, joinPath]
    by_cases hnil : comps = []
    · subst hnil
      have hrt : joinComponents [] = "/" := rfl
      rw [if_pos hrt]
      simp
    · have hcs : ∀ d ∈ comps, IsComponent d := fun d hd => h d (mem_append_left _ hd)
      have hih := ih hnil hcs
      have hlong : joinComponents comps ≠ "/" := by
        intro hrt
        rw [hrt] at hih
        obtain ⟨d, ds, rfl⟩ := exists_cons_of_ne_nil hnil
        have hd := (hcs d mem_cons_self).1
        have hnil' : d.toList ++ ds.flatMap (fun c => '/' :: c.toList) = [] :=
          (cons.inj hih).2.symm
        exact hd (String.toList_inj.mp (append_eq_nil_iff.mp hnil').1)
      rw [if_neg hlong]
      simp [hih]

lemma isHierPath_joinComponents (h : ∀ c ∈ comps, IsComponent c) :
    isHierPath (joinComponents comps) = true := by
  cases comps with
  | nil => decide
  | cons c cs =>
    rw [isHierPath, toList_joinComponents _ (cons_ne_nil c cs) h]
    simp

lemma flatMap_slash (cs : List (List Char)) :
    cs.flatMap (fun c => '/' :: c) = ['/'].intercalate ([] :: cs) := by
  induction cs with
  | nil => rfl
  | cons c cs ih =>
    rw [flatMap_cons, ih]
    cases cs with
    | nil => simp
    | cons d ds => simp

/-- **A joined path splits into its components.** -/
lemma splitPathComponents_joinComponents (h : ∀ c ∈ comps, IsComponent c) :
    splitPathComponents (joinComponents comps) = comps := by
  by_cases hne : comps = []
  · subst hne
    decide
  have hli : (joinComponents comps).toList = ['/'].intercalate ([] :: comps.map String.toList) := by
    rw [toList_joinComponents comps hne h, ← flatMap_slash, flatMap_map]
  have hspl : (joinComponents comps).toList.splitOn '/' = [] :: comps.map String.toList := by
    rw [hli]
    refine splitOn_intercalate '/' (fun l hl => ?_) (cons_ne_nil _ _)
    rcases mem_cons.mp hl with rfl | hl
    · exact not_mem_nil
    · obtain ⟨c, hc, rfl⟩ := mem_map.mp hl
      exact (h c hc).2
  have hfil : (comps.map String.toList).filter (fun c => c ≠ []) = comps.map String.toList := by
    refine filter_eq_self.mpr fun l hl => ?_
    obtain ⟨c, hc, rfl⟩ := mem_map.mp hl
    have hc' : c.toList ≠ [] := fun h0 => (h c hc).1 (String.toList_inj.mp h0)
    simpa using hc'
  rw [splitPathComponents, hspl, filter_cons_of_neg (by simp), hfil, map_map]
  have hid : String.ofList ∘ String.toList = id := funext fun c => String.ofList_toList
  rw [hid, map_id]

lemma notMem_of_mem_splitOn {c : List Char} (h : c ∈ l.splitOn '/') : '/' ∉ c := by
  induction l generalizing c with
  | nil =>
    rw [splitOn_nil, mem_singleton] at h
    exact h ▸ not_mem_nil
  | cons x l ih =>
    rw [splitOn_cons_eq_if_modifyHead] at h
    split_ifs at h with hx
    · rcases mem_cons.mp h with rfl | h
      · exact not_mem_nil
      · exact ih h
    · cases hs : l.splitOn '/' with
      | nil => exact absurd hs (splitOn_ne_nil '/' l)
      | cons d ds =>
        rw [hs] at h
        rcases mem_cons.mp h with rfl | h
        · intro hmem
          rcases mem_cons.mp hmem with rfl | hmem
          · exact hx (by simp)
          · exact ih (hs ▸ mem_cons_self) hmem
        · exact ih (hs ▸ mem_cons_of_mem d h)

/-- What a path is split into are components. -/
lemma isComponent_of_mem {path c : String} (h : c ∈ splitPathComponents path) : IsComponent c := by
  obtain ⟨l, hl, rfl⟩ := mem_map.mp h
  obtain ⟨hspl, hne⟩ := mem_filter.mp hl
  refine ⟨fun h0 => ?_, ?_⟩
  · have hnil : l = [] := by
      rw [← String.toList_ofList (l := l), h0]
      rfl
    simp [hnil] at hne
  · rw [String.toList_ofList]
    exact notMem_of_mem_splitOn hspl

end ClioCore.Cte
