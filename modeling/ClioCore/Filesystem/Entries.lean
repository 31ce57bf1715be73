import ClioCore.Cte.TagTree
import ClioCore.Filesystem.Directories
import ClioCore.Foundations.Namespace

/-!
# The namespace in a tag table

The binding of a stored name `makeRelativeName x k` to a tag is an entry `k` of the directory `x`,
and the tag table of a filesystem is a namespace in the sense of `ClioCore.Foundations.Namespace`:
`locate t p` is the tag that the components `p` lead to.  `Laid` is what the tag operations of the
filesystem keep of it; `Indexed` says that the index of absolute names has the paths that lead to
tags, and no others.

Under `Laid`, a canonical name resolves to the path of the tag (`Laid.resolveTagName`), and under
`Indexed` the queries of the filesystem are questions about `locate`.
-/

namespace ClioCore.Filesystem

open Foundations Foundations.Namespace Cte List

/-! ## Joined paths -/

lemma joinComponents_inj {p q : List String} (hp : ∀ c ∈ p, IsComponent c)
    (hq : ∀ c ∈ q, IsComponent c) (h : joinComponents p = joinComponents q) : p = q := by
  rw [← splitPathComponents_joinComponents p hp, h, splitPathComponents_joinComponents q hq]

lemma toList_joinComponents_append {p r : List String} (hne : p ≠ [])
    (h : ∀ c ∈ p ++ r, IsComponent c) :
    (joinComponents (p ++ r)).toList
      = (joinComponents p).toList ++ r.flatMap fun c => '/' :: c.toList := by
  rw [toList_joinComponents _ (by simp [hne]) h, flatMap_append,
    toList_joinComponents p hne fun c hc => h c (mem_append_left r hc)]

/-- Parts between slashes can be read off a prefix that ends with a slash. -/
lemma append_of_slashes_prefix {ps qs : List String} (hps : ∀ c ∈ ps, IsComponent c)
    (hqs : ∀ c ∈ qs, IsComponent c)
    (h : ps.flatMap (fun c => '/' :: c.toList) ++ ['/'] <+: qs.flatMap fun c => '/' :: c.toList) :
    ∃ r, r ≠ [] ∧ qs = ps ++ r := by
  induction ps generalizing qs with
  | nil =>
    refine ⟨qs, ?_, rfl⟩
    rintro rfl
    cases h.length_le
  | cons c ps ih =>
    cases qs with
    | nil => cases h.length_le
    | cons d qs =>
      obtain ⟨rest, hrs⟩ := h
      have hnos : ∀ e : String, IsComponent e → ∀ x ∈ e.toList, (x ≠ '/' : Bool) = true := by
        intro e he x hx
        simpa using fun hsl : x = '/' => he.2 (hsl ▸ hx)
      have hc := hnos c (hps c mem_cons_self)
      have hd := hnos d (hqs d mem_cons_self)
      simp only [flatMap_cons, cons_append, append_assoc, nil_append, cons.injEq, true_and] at hrs
      -- Both sides begin with a component and, on the left at least, a slash.
      obtain ⟨l, hl⟩ : ∃ l, ps.flatMap (fun c => '/' :: c.toList) ++ '/' :: rest = '/' :: l := by
        cases ps with
        | nil => exact ⟨rest, rfl⟩
        | cons e ps => exact ⟨_, rfl⟩
      have hcd : c.toList = d.toList := by
        have htk := congrArg (takeWhile fun x => (x ≠ '/' : Bool)) hrs
        rw [hl, takeWhile_append_of_all hc (by decide)] at htk
        cases qs with
        | nil =>
          rw [hl, flatMap_nil, append_nil] at hrs
          exact absurd (hrs ▸ mem_append_right _ mem_cons_self) (hqs d mem_cons_self).2
        | cons e qs =>
          rw [flatMap_cons, cons_append, takeWhile_append_of_all hd (by decide)] at htk
          exact htk
      rw [hcd] at hrs
      obtain ⟨r, hr, rfl⟩ := ih (fun e he => hps e (mem_cons_of_mem c he))
        (fun e he => hqs e (mem_cons_of_mem d he)) ⟨rest, by simpa using hrs⟩
      exact ⟨r, hr, by rw [String.toList_inj.mp hcd]; rfl⟩

/-- **Below a path** are the paths that continue it. -/
lemma joinComponents_below_iff {p q : List String} (hne : p ≠ []) (hp : ∀ c ∈ p, IsComponent c)
    (hq : ∀ c ∈ q, IsComponent c) :
    (joinComponents p ++ "/").toList <+: (joinComponents q).toList ↔ ∃ r, r ≠ [] ∧ q = p ++ r := by
  constructor
  · intro h
    have hqne : q ≠ [] := by
      rintro rfl
      have hlen := h.length_le
      rw [String.toList_append, toList_joinComponents p hne hp] at hlen
      obtain ⟨c, p, rfl⟩ := exists_cons_of_ne_nil hne
      simp [joinComponents] at hlen
    rw [String.toList_append, toList_joinComponents p hne hp, toList_joinComponents q hqne hq] at h
    exact append_of_slashes_prefix hp hq h
  · rintro ⟨r, hr, rfl⟩
    rw [toList_joinComponents_append hne hq, String.toList_append]
    obtain ⟨c, r, rfl⟩ := exists_cons_of_ne_nil hr
    refine (prefix_append_right_inj _).mpr ?_
    exact ⟨c.toList ++ r.flatMap fun c => '/' :: c.toList, rfl⟩

/-- What follows the slash. -/
lemma drop_joinComponents_append {p r : List String}
    (hne : p ≠ []) (h : ∀ c ∈ p ++ r, IsComponent c) :
    (joinComponents (p ++ r)).toList.drop ((joinComponents p).toList.length + 1)
      = (r.flatMap fun c => '/' :: c.toList).tail := by
  rw [toList_joinComponents_append hne h, ← drop_drop, drop_left, drop_one]

/-! ## Stored names -/

lemma makeRelativeName_injective {x y : TagId} {k l : String}
    (h : makeRelativeName x k = makeRelativeName y l) : x = y ∧ k = l := by
  have hli := congrArg String.toList h
  simp only [makeRelativeName, String.toList_append, append_assoc, append_cancel_left_eq] at hli
  have hdot : ∀ (n : ℕ) (c : Char), c ∈ (toString n).toList → (c ≠ '.' : Bool) = true :=
    fun n c hc => by
    simpa using (not_blank_of_isDigit (isDigit_of_mem_toString hc)).2.2.2.1
  have hbra : ∀ (n : ℕ) (c : Char), c ∈ (toString n).toList → (c ≠ '\x7d' : Bool) = true :=
    fun n c hc => by simpa using (not_blank_of_isDigit (isDigit_of_mem_toString hc)).2.2.2.2
  have hmj : x.major = y.major := by
    have htk := congrArg (takeWhile fun c => (c ≠ '.' : Bool)) hli
    rw [show ".".toList = ['.'] from rfl, singleton_append, singleton_append,
      takeWhile_append_of_all (hdot _) (by decide),
      takeWhile_append_of_all (hdot _) (by decide)] at htk
    exact toString_inj (String.toList_inj.mp htk)
  rw [hmj, append_cancel_left_eq, append_cancel_left_eq] at hli
  have hmnr : x.minor = y.minor := by
    have htk := congrArg (takeWhile fun c => (c ≠ '\x7d' : Bool)) hli
    simp only [show "\x7d/".toList = ['\x7d', '/'] from rfl, cons_append] at htk
    rw [takeWhile_append_of_all (hbra _) (by decide),
      takeWhile_append_of_all (hbra _) (by decide)] at htk
    exact toString_inj (String.toList_inj.mp htk)
  rw [hmnr, append_cancel_left_eq, append_cancel_left_eq] at hli
  obtain ⟨xM, xm⟩ := x
  obtain ⟨yM, ym⟩ := y
  obtain rfl : xM = yM := hmj
  obtain rfl : xm = ym := hmnr
  exact ⟨rfl, String.toList_inj.mp hli⟩

/-- The root and the tags that the filesystem keeps for itself are stored under names of their own.
-/
def Flat (key : String) : Prop := key = "/" ∨ key ∈ reservedNames

lemma not_flat_makeRelativeName (x : TagId) (k : String) : ¬ Flat (makeRelativeName x k) := by
  intro h
  have hhead : (makeRelativeName x k).toList.head? = some '$' := by
    simp [makeRelativeName, kTagRefPrefix]
  have hfl : ∀ key ∈ "/" :: reservedNames, key.toList.head? ≠ some '$' := by decide
  exact hfl _ (mem_cons.mpr h) hhead

variable {key : String}

lemma Flat.ne_makeRelativeName (h : Flat key) {x : TagId} {k : String} :
    key ≠ makeRelativeName x k := fun heq => not_flat_makeRelativeName x k (heq ▸ h)

lemma not_flat_joinComponents {p : List String} (hne : p ≠ []) (hp : ∀ c ∈ p, IsComponent c) :
    ¬ Flat (joinComponents p) := by
  intro hfl
  have hli := toList_joinComponents p hne hp
  obtain ⟨c, p, rfl⟩ := exists_cons_of_ne_nil hne
  have hlen : 2 ≤ (joinComponents (c :: p)).toList.length := by
    have hc : 0 < c.toList.length :=
      length_pos_iff.mpr fun h0 => (hp c mem_cons_self).1 (String.toList_inj.mp h0)
    rw [hli, flatMap_cons, length_append, length_cons]
    omega
  have hsl : '/' ∈ (joinComponents (c :: p)).toList := by
    rw [hli]
    simp
  have hsho : ∀ key ∈ "/" :: reservedNames, '/' ∈ key.toList → ¬ 2 ≤ key.toList.length := by decide
  exact hsho _ (mem_cons.mpr hfl) hsl hlen

/-! ## Entries -/

/-- The entry of a directory. -/
def entries (t : TagTable) (dir : TagId) (leaf : String) : Option TagId :=
  t.names.lookup (makeRelativeName dir leaf)

/-- The root; before there is one, an id that no tag gets. -/
def rootOf (t : TagTable) : TagId := (t.names.lookup "/").getD ⟨t.nodeId, 0⟩

/-- The tag that the components lead to. -/
def locate (t : TagTable) (p : List String) : Option TagId := walk (entries t) (rootOf t) p

/-- What the operations of the filesystem keep of its tag table. -/
structure Laid (t : TagTable) : Prop where
  sound : t.Sound
  keys : ∀ key id, t.names.lookup key = some id →
    Flat key ∨ ∃ x k, IsComponent k ∧ key = makeRelativeName x k
  /-- The root and the reserved tags have no other name. -/
  single : ∀ key key' id, Flat key → t.names.lookup key = some id → t.names.lookup key' = some id →
    key' = key
  ids : ∀ id, t.Has id → id.major = t.nodeId ∧ 0 < id.minor ∧ id.minor < t.nextMinor
  node : t.nodeId < 2 ^ 32
  minor : 0 < t.nextMinor ∧ t.nextMinor < 2 ^ 32
  tree : IsTree (entries t) (rootOf t)
  rooted : t.names.lookup "/" = none → ∀ x k, entries t x k = none
  /-- Absolute names are resolved to this depth. -/
  shallow : ∀ q, locate t q ≠ none → q.length ≤ 256

/-- The index has the paths that lead to tags. -/
def Indexed (t : TagTable) : Prop :=
  ∀ key, key ∈ t.search ↔ (Flat key ∧ t.names.lookup key ≠ none) ∨
    ∃ q, q ≠ [] ∧ locate t q ≠ none ∧ key = joinComponents q

variable {t u : TagTable} {x y : TagId} {k : String} {p q : List String}

lemma walk_eq (t : TagTable) (cur : TagId) (comps : List String) :
    t.walk cur comps = walk (entries t) cur comps := by
  induction comps generalizing cur with
  | nil => rfl
  | cons c comps ih =>
    exact congrArg _ (funext ih)

lemma rootOf_eq {r : TagId} (h : t.names.lookup "/" = some r) : rootOf t = r := by
  rw [rootOf, h, Option.getD_some]

namespace Laid

section

variable (h : Laid t)
include h

/-- Something below the root means that there is one. -/
lemma lookup_root (hxk : entries t x k = some y) : t.names.lookup "/" = some (rootOf t) := by
  cases hrt : t.names.lookup "/" with
  | none => cases (h.rooted hrt x k).symm.trans hxk
  | some r => rw [rootOf_eq hrt]

lemma isComponent_of_entry (hxk : entries t x k = some y) : IsComponent k := by
  rcases h.keys _ _ hxk with hfl | ⟨x', k', hk', heq⟩
  · exact absurd hfl (not_flat_makeRelativeName x k)
  · exact (makeRelativeName_injective heq).2 ▸ hk'

lemma has_of_entry (hxk : entries t x k = some y) : t.Has y :=
  h.sound.consistent.known _ _ hxk

/-- What a path leads to is a tag, apart from the root before there is one. -/
lemma has_of_locate (hp : locate t p = some x) (hne : p ≠ []) : t.Has x := by
  rcases eq_nil_or_concat p with rfl | ⟨p, k, rfl⟩
  · exact absurd rfl hne
  · rw [concat_eq_append] at hp
    obtain ⟨y, -, hy⟩ := walk_concat_eq_some.mp hp
    exact h.has_of_entry hy

lemma has_root {r : TagId} (hrt : t.names.lookup "/" = some r) : t.Has r :=
  h.sound.consistent.known _ _ hrt

lemma has_dir (hxk : entries t x k = some y) : t.Has x := by
  obtain ⟨p, hp⟩ := h.tree.reachable x (isDir_of_entry hxk)
  rcases eq_nil_or_concat p with rfl | ⟨p, k', rfl⟩
  · obtain rfl : rootOf t = x := Option.some.inj hp
    exact h.has_root (h.lookup_root hxk)
  · exact h.has_of_locate hp (by simp)

lemma fits (hx : t.Has x) : x.Fits := by
  obtain ⟨hmj, -, hmnr⟩ := h.ids x hx
  exact ⟨hmj ▸ h.node, hmnr.trans h.minor.2⟩

lemma ne_null (hx : t.Has x) : x ≠ .null := by
  rintro rfl
  exact absurd (h.ids _ hx).2.1 (by decide)

lemma isComponent (hp : locate t p ≠ none) : ∀ c ∈ p, IsComponent c := by
  induction p using reverseRecOn with
  | nil => simp
  | append_singleton p k ih =>
    obtain ⟨y, hy⟩ := Option.ne_none_iff_exists'.mp hp
    obtain ⟨x, hx, hxk⟩ := walk_concat_eq_some.mp hy
    intro c hc
    rcases mem_append.mp hc with hc | hc
    · exact ih (by simp [locate, hx]) c hc
    · exact mem_singleton.mp hc ▸ h.isComponent_of_entry hxk

/-- A tag other than the root is reached by the entries that its names stand for. -/
lemma entry_of_name (hp : locate t p = some x) (hne : p ≠ []) {name : String}
    (hnm : t.names.lookup name = some x) :
    ∃ d c, IsComponent c ∧ name = makeRelativeName d c ∧ entries t d c = some x := by
  rcases eq_nil_or_concat p with rfl | ⟨p, k, rfl⟩
  · exact absurd rfl hne
  rw [concat_eq_append] at hp
  obtain ⟨d, -, hd⟩ := walk_concat_eq_some.mp hp
  rcases h.keys _ _ hnm with hfl | ⟨d', c, hc, rfl⟩
  · -- a tag with a name of its own has no other
    have heq := h.single _ _ _ hfl hnm hd
    exact absurd (heq ▸ hfl) (not_flat_makeRelativeName d k)
  · exact ⟨d', c, hc, rfl, hnm⟩

/-- Only the root and the reserved tags have a name of their own. -/
lemma not_flat_of_locate (hp : locate t p = some x) (hne : p ≠ []) {name : String} (hfl : Flat name)
    : t.names.lookup name ≠ some x := by
  intro hnm
  obtain ⟨d, c, -, rfl, -⟩ := h.entry_of_name hp hne hnm
  exact not_flat_makeRelativeName d c hfl

lemma lookup_tagName {info : TagInfo} (hin : t.infos.lookup x = some info) :
    t.names.lookup info.tagName = some x :=
  (h.sound.consistent.bound x info hin _).mpr mem_cons_self

/-- **Resolution.**  The canonical name of the root, of a directory and of anything else with one
entry resolves to its path. -/
lemma resolveTagNameFrom (hp : locate t p = some x) (hx : Sole (entries t) x) {info : TagInfo}
    (hin : t.infos.lookup x = some info) {n : ℕ} (hn : p.length ≤ n) :
    t.resolveTagNameFrom n info.tagName = joinComponents p := by
  induction p using reverseRecOn generalizing x info n with
  | nil =>
    obtain rfl : rootOf t = x := Option.some.inj hp
    have hnm : info.tagName = "/" := by
      cases hrt : t.names.lookup "/" with
      | none =>
        -- the stand-in for the root is no tag
        have hids := h.ids _ (show t.Has (rootOf t) by simp [TagTable.Has, hin])
        rw [rootOf, hrt] at hids
        exact absurd hids.2.1 (lt_irrefl 0)
      | some r =>
        rw [rootOf_eq hrt] at hin
        exact h.single _ _ _ (.inl rfl) hrt (h.lookup_tagName hin)
    rw [hnm]
    cases n with
    | zero => rfl
    | succ n => rw [TagTable.resolveTagNameFrom]; rfl
  | append_singleton p k ih =>
    obtain ⟨d, hd, hdk⟩ := walk_concat_eq_some.mp hp
    obtain ⟨d', c, -, hnm, hen⟩ := h.entry_of_name hp (by simp) (h.lookup_tagName hin)
    obtain ⟨rfl, rfl⟩ := hx d k d' c hdk hen
    have hdir : t.Has d := h.has_dir hdk
    obtain ⟨dinfo, hdin⟩ := Option.ne_none_iff_exists'.mp hdir
    obtain ⟨n, rfl⟩ : ∃ m, n = m + 1 := ⟨n - 1, by simp at hn; omega⟩
    rw [TagTable.resolveTagNameFrom, hnm, parseTagRef_makeRelativeName (h.fits hdir)]
    simp only [hdin]
    rw [ih hd (h.tree.sole_of_entry hdk) hdin (by simpa using hn), joinComponents_concat]

/-- The path that an entry of a directory resolves to, be it there or not. -/
lemma resolveTagName (hp : locate t p = some x) (hx : t.Has x) (hso : Sole (entries t) x)
    (k : String) : t.resolveTagName (makeRelativeName x k) = joinComponents (p ++ [k]) := by
  obtain ⟨info, hin⟩ := Option.ne_none_iff_exists'.mp hx
  have hlen : p.length ≤ 256 := h.shallow p (by simp [hp])
  rw [TagTable.resolveTagName, TagTable.resolveTagNameFrom,
    parseTagRef_makeRelativeName (h.fits hx)]
  simp only [hin]
  rw [h.resolveTagNameFrom hp hso hin hlen, joinComponents_concat]

end

end Laid

/-! ## Queries -/

/-- Looking a path up. -/
lemma findTag_joinComponents (h : Laid t) (hp : ∀ c ∈ p, IsComponent c) (hne : p ≠ []) :
    Core.findTag t (joinComponents p) = locate t p := by
  rw [Core.findTag, if_pos (isHierPath_joinComponents p hp),
    splitPathComponents_joinComponents p hp]
  cases hrt : t.names.lookup "/" with
  | none =>
    obtain ⟨k, p, rfl⟩ := exists_cons_of_ne_nil hne
    rw [Option.bind_none, locate, walk, h.rooted hrt, Option.bind_none]
  | some r => rw [Option.bind_some, walk_eq, locate, rootOf_eq hrt]

variable {c : Core}

lemma tagQueryExact_joinComponents (h : Laid c.tags) (hp : ∀ k ∈ p, IsComponent k) (hne : p ≠ []) :
    c.tagQueryExact (joinComponents p) = locate c.tags p := by
  rw [Core.tagQueryExact, findTag_joinComponents h hp hne]
  cases hx : locate c.tags p with
  | none => rfl
  | some x =>
    rw [Option.filter_some, if_pos]
    exact decide_eq_true (h.ne_null (h.has_of_locate hx hne))

lemma not_slash_prefix_of_flat {dir : String} (h : Flat key) (hdir : dir ≠ "")
    (hbl : (dir ++ "/").toList <+: key.toList) : False := by
  have hsl : '/' ∈ key.toList := hbl.subset (by simp)
  have hlen : 2 ≤ key.toList.length := by
    have := hbl.length_le
    have hpos : 0 < dir.toList.length := length_pos_iff.mpr fun h0 => hdir (String.toList_inj.mp h0)
    rw [String.toList_append, length_append] at this
    have hone : "/".toList.length = 1 := rfl
    omega
  have hfl : ∀ key ∈ "/" :: reservedNames, '/' ∈ key.toList → ¬ 2 ≤ key.toList.length := by decide
  exact hfl key (mem_cons.mpr h) hsl hlen

lemma joinComponents_ne_empty (hp : ∀ c ∈ p, IsComponent c) : joinComponents p ≠ "" := by
  intro h
  have hhier := isHierPath_joinComponents p hp
  rw [h] at hhier
  exact absurd hhier (by decide)

/-- **Children** in the index are entries of the directory. -/
lemma mem_tagQueryChildren (h : Laid c.tags) (hix : Indexed c.tags) (hp : ∀ k ∈ p, IsComponent k)
    (hne : p ≠ []) :
    key ∈ c.tagQueryChildren (joinComponents p) ↔
      ∃ k, locate c.tags (p ++ [k]) ≠ none ∧ key = joinComponents (p ++ [k]) := by
  rw [Core.tagQueryChildren, mem_insertionSort, mem_filter, decide_eq_true_eq,
    ← AList.mem_keys, hix]
  constructor
  · rintro ⟨hfl | ⟨q, -, hq, rfl⟩, hbl, -, hsl⟩
    · exact (not_slash_prefix_of_flat hfl.1 (joinComponents_ne_empty hp) hbl).elim
    · have hcs := h.isComponent hq
      obtain ⟨r, hr, rfl⟩ := (joinComponents_below_iff hne hp hcs).mp hbl
      rw [drop_joinComponents_append hne hcs] at hsl
      obtain ⟨k, r, rfl⟩ := exists_cons_of_ne_nil hr
      cases r with
      | nil => exact ⟨k, hq, rfl⟩
      | cons d r => exact absurd (by simp) hsl
  · rintro ⟨k, hk, rfl⟩
    have hcs := h.isComponent hk
    have hdr := drop_joinComponents_append hne hcs
    have hk' : IsComponent k := hcs k (by simp)
    refine ⟨.inr ⟨p ++ [k], by simp, hk, rfl⟩,
      (joinComponents_below_iff hne hp hcs).mpr ⟨[k], by simp, rfl⟩, ?_, ?_⟩
    · rw [hdr]
      simpa using hk'.1
    · rw [hdr]
      simpa using hk'.2

/-- A component that a dot matches. -/
def OneLine (c : String) : Prop := ∀ ch ∈ c.toList, ch ≠ '\n' ∧ ch ≠ '\r'

instance (c : String) : Decidable (OneLine c) :=
  List.decidableBAll _ c.toList

lemma all_tail_slashes {r : List String} :
    ((r.flatMap fun c => '/' :: c.toList).tail.all fun ch => ch ≠ '\n' ∧ ch ≠ '\r') ↔
      ∀ c ∈ r, OneLine c := by
  have hsl : ('/' ≠ '\n' ∧ '/' ≠ '\r') := by decide
  have hall : ∀ r : List String,
      (∀ ch ∈ r.flatMap fun c => '/' :: c.toList, ch ≠ '\n' ∧ ch ≠ '\r') ↔ ∀ c ∈ r, OneLine c := by
    intro r
    constructor
    · exact fun h c hc ch hch => h ch (mem_flatMap.mpr ⟨c, hc, mem_cons_of_mem _ hch⟩)
    · intro h ch hch
      obtain ⟨c, hc, hch⟩ := mem_flatMap.mp hch
      rcases mem_cons.mp hch with rfl | hch
      · exact hsl
      · exact h c hc ch hch
  rw [← hall, all_eq_true]
  simp only [decide_eq_true_eq]
  cases r with
  | nil => simp
  | cons c r =>
    rw [flatMap_cons, cons_append, forall_mem_cons]
    exact (and_iff_right hsl).symm

/-- What `RenameTag` and `DelTag` find below a path. -/
lemma mem_searchBelow (h : Laid t) (hix : Indexed t) (hp : ∀ k ∈ p, IsComponent k) (hne : p ≠ []) :
    key ∈ t.searchBelow (joinComponents p) ↔
      ∃ r, r ≠ [] ∧ locate t (p ++ r) ≠ none ∧ (∀ c ∈ r, OneLine c) ∧
      key = joinComponents (p ++ r) := by
  rw [TagTable.searchBelow, mem_insertionSort, mem_filter, decide_eq_true_eq, ← AList.mem_keys, hix]
  constructor
  · rintro ⟨hfl | ⟨q, -, hq, rfl⟩, hbl, hline⟩
    · exact (not_slash_prefix_of_flat hfl.1 (joinComponents_ne_empty hp) hbl).elim
    · have hcs := h.isComponent hq
      obtain ⟨r, hr, rfl⟩ := (joinComponents_below_iff hne hp hcs).mp hbl
      rw [drop_joinComponents_append hne hcs, all_tail_slashes] at hline
      exact ⟨r, hr, hq, hline, rfl⟩
  · rintro ⟨r, hr, hq, hline, rfl⟩
    have hcs := h.isComponent hq
    refine ⟨.inr ⟨p ++ r, by simp [hne], hq, rfl⟩,
      (joinComponents_below_iff hne hp hcs).mpr ⟨r, hr, rfl⟩, ?_⟩
    rwa [drop_joinComponents_append hne hcs, all_tail_slashes]

end ClioCore.Filesystem
