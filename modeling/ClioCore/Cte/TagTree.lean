import ClioCore.Cte.TagBindings

/-!
# The tree of tags

The canonical names of path tags name their parents, which makes the tags a directory tree: every
parent exists, no tag is above itself, `DelTag` comes to an end, and the path that `ResolveTagName`
reports for a tag leads to it (`TagTable.IsTree`).

`RenameTag` does not look whether the destination is below the tag that moves, so the tree can be
bent into a circle.  `TagTask.keepsTree` is the condition under which tasks on absolute paths keep
it a tree.  The invariant is that every tag hangs from the root: `TagTable.Rooted t id comps` says
that the tag is reached from `/` by the components `comps`.
-/

namespace ClioCore.Cte

open Foundations List Option AList TagTable Forest TagTask

variable {id parent preferred x : TagId} {comps : List String} {info : TagInfo} {n m bound : ℕ}
  {name : String} {rank : TagId → ℕ}

namespace TagTable

/-- A `DelTag` task on the table. -/
def delStep (fuel : ℕ) (t : TagTable) (task : TagId × String × Bool) : Option TagTable :=
  (t.delTag fuel task.1 task.2.1 task.2.2).map Prod.snd

/-- Every parent exists, no tag is above itself, all further deletions return, and every tag is
found under the path reported for it. -/
structure IsTree (t : TagTable) : Prop where
  parents : ∀ id parent, t.parentOf id = some parent → t.Has parent
  acyclic : ∀ n id, Forest.ancestor t.parentOf (n + 1) id ≠ some id
  deletions : ∀ tasks, ∃ fuel t', runAll (delStep fuel) t tasks = some t'
  reachable : ∀ id info, t.infos.lookup id = some info →
    t.resolvePathToId (t.resolveTagName info.tagName) = id

/-- The components lead from the root to the tag. -/
inductive Rooted (t : TagTable) : TagId → List String → Prop
  | root {id : TagId} {info : TagInfo} (hinfo : t.infos.lookup id = some info)
      (hname : info.tagName = "/") : Rooted t id []
  | child {id parent : TagId} {info : TagInfo} {leaf : String} {comps : List String}
      (hparent : Rooted t parent comps) (hfits : parent.Fits)
      (hinfo : t.infos.lookup id = some info)
      (hname : info.tagName = makeRelativeName parent leaf) (hleaf : IsComponent leaf) :
      Rooted t id (comps ++ [leaf])

/-- Every tag hangs from the root, at most 257 levels down, and its canonical name is bound to it.
-/
structure Planted (t : TagTable) : Prop where
  node : t.nodeId < 2 ^ 32
  minor : t.nextMinor < 2 ^ 32
  fits : ∀ id, t.Has id → id.Fits
  own : ∀ id info, t.infos.lookup id = some info → t.names.lookup info.tagName = some id
  binds : ∀ key id, key = "/" ∨ (parseTagRef key).isSome → t.names.lookup key = some id →
    ∃ info, t.infos.lookup id = some info ∧ info.tagName = key
  rooted : ∀ id, t.Has id → ∃ comps, Rooted t id comps ∧ comps.length ≤ 257
  noAliases : ∀ id info, t.infos.lookup id = some info → info.aliases = []

variable {t u : TagTable}

/-! ## Consequences of hanging from the root -/

lemma parseTagRef_root : parseTagRef "/" = none := by decide

lemma Rooted.has (h : Rooted t id comps) : t.Has id := by
  cases h with
  | root hin => simp [Has, hin]
  | child _ _ hin => simp [Has, hin]

lemma parentOf_eq (h : t.infos.lookup id = some info) :
    t.parentOf id = (parseTagRef info.tagName).map Prod.fst := by simp [parentOf, h]

/-- The parent of a tag that hangs from the root. -/
lemma Rooted.parentOf_child {leaf : String} (hin : t.infos.lookup id = some info)
    (hft : parent.Fits) (hnm : info.tagName = makeRelativeName parent leaf)
    : t.parentOf id = some parent := by
  rw [parentOf_eq hin, hnm, parseTagRef_makeRelativeName hft, map_some]

lemma parentOf_root (hin : t.infos.lookup id = some info) (hnm : info.tagName = "/")
    : t.parentOf id = none := by
  rw [parentOf_eq hin, hnm, parseTagRef_root, map_none]

section

variable (h : Rooted t id comps)
include h

/-- A tag with a parent hangs from it. -/
lemma Rooted.of_parent (hparent : t.parentOf id = some parent)
    : ∃ info leaf comps', Rooted t parent comps' ∧
      parent.Fits ∧ t.infos.lookup id = some info ∧ info.tagName = makeRelativeName parent leaf ∧
      IsComponent leaf ∧ comps = comps' ++ [leaf] := by
  cases h with
  | root hin hnm => rw [parentOf_root hin hnm] at hparent; simp at hparent
  | @child _ p info leaf comps' hp hft hin hnm hleaf =>
    rw [parentOf_child hin hft hnm] at hparent
    cases hparent
    exact ⟨info, leaf, comps', hp, hft, hin, hnm, hleaf, rfl⟩

/-- A tag hangs from the root in one way. -/
lemma Rooted.unique {comps' : List String} (h' : Rooted t id comps') : comps = comps' := by
  induction h generalizing comps' with
  | root hin hnm =>
    cases h' with
    | root => rfl
    | child _ hft hin' hnm' =>
      have := parentOf_root hin hnm
      simp [parentOf_child hin' hft hnm'] at this
  | @child id parent info leaf comps _ hft hin hnm _ ih =>
    obtain ⟨info', leaf', comps'', hp, -, hin', hnm', -, rfl⟩ :=
      h'.of_parent (parentOf_child hin hft hnm)
    cases hin.symm.trans hin'
    obtain ⟨-, rfl⟩ := makeRelativeName_inj hft hft (hnm.symm.trans hnm')
    rw [ih hp]

/-- The canonical name of a tag that hangs from the root. -/
lemma Rooted.isRef (hin : t.infos.lookup id = some info) :
    info.tagName = "/" ∨ (parseTagRef info.tagName).isSome := by
  cases h with
  | root hin' hnm => exact .inl (some.inj (hin.symm.trans hin') ▸ hnm)
  | child _ hft hin' hnm =>
    cases hin.symm.trans hin'
    exact .inr (by rw [hnm, parseTagRef_makeRelativeName hft]; rfl)

lemma Rooted.isComponent : ∀ c ∈ comps, IsComponent c := by
  induction h with
  | root => simp
  | child _ _ _ _ hleaf ih =>
    intro c hc
    rcases mem_append.mp hc with hc | hc
    · exact ih c hc
    · exact mem_singleton.mp hc ▸ hleaf

end

/-- The number of components above a tag. -/
noncomputable def depth (t : TagTable) (id : TagId) : ℕ :=
  open Classical in if h : ∃ comps, Rooted t id comps then h.choose.length else 0

lemma Rooted.depth_eq (h : Rooted t id comps) : t.depth id = comps.length := by
  have hex : ∃ comps, Rooted t id comps := ⟨comps, h⟩
  rw [depth, dif_pos hex, hex.choose_spec.unique h]

lemma has_of_parentOf (h : t.parentOf id = some parent) : t.Has id := by
  intro hnone
  simp [parentOf, hnone] at h

lemma Planted.ranked (h : t.Planted) : Forest.Ranked t.parentOf t.depth 257 := by
  intro id parent hparent
  obtain ⟨comps, hrt, hle⟩ := h.rooted id (has_of_parentOf hparent)
  obtain ⟨_, _, comps', hp, -, -, -, -, rfl⟩ := hrt.of_parent hparent
  rw [hrt.depth_eq, hp.depth_eq]
  exact ⟨by simp, hle⟩

/-! ## Paths -/

/-- The path reported for a tag has the components that lead to it. -/
lemma Rooted.resolveTagNameFrom (h : Rooted t id comps) (hn : comps.length ≤ n)
    (hin : t.infos.lookup id = some info) :
    t.resolveTagNameFrom n info.tagName = joinComponents comps := by
  induction h generalizing n info with
  | root hin' hnm =>
    cases hin.symm.trans hin'
    rw [hnm]
    cases n with
    | zero => rfl
    | succ n => rw [resolveTagNameFrom]; rfl
  | @child id parent info' leaf comps hp hft hin' hnm _ ih =>
    cases hin.symm.trans hin'
    obtain ⟨n, rfl⟩ : ∃ k, n = k + 1 := ⟨n - 1, by simp at hn; omega⟩
    obtain ⟨pinfo, hpin⟩ := ne_none_iff_exists'.mp hp.has
    rw [resolveTagNameFrom, hnm, parseTagRef_makeRelativeName hft]
    simp only [hpin]
    rw [ih (by simpa using hn) hpin, joinComponents_concat]

lemma walk_append (t : TagTable) (cur : TagId) (comps comps' : List String) :
    t.walk cur (comps ++ comps') = (t.walk cur comps).bind fun id => t.walk id comps' := by
  induction comps generalizing cur with
  | nil => rfl
  | cons c comps ih =>
    rw [cons_append, walk, walk]
    cases t.names.lookup (makeRelativeName cur c) with
    | none => rfl
    | some child => exact ih child

/-- The components lead to the tag. -/
lemma Rooted.walk
    (hown : ∀ id info, t.infos.lookup id = some info → t.names.lookup info.tagName = some id)
    (h : Rooted t id comps) : ∃ root, t.names.lookup "/" = some root ∧
    t.walk root comps = some id := by
  induction h with
  | @root id info hin hnm => exact ⟨id, hnm ▸ hown id info hin, rfl⟩
  | @child id parent info leaf comps _ _ hin hnm _ ih =>
    obtain ⟨root, hroot, hwk⟩ := ih
    have hbd := hnm ▸ hown id info hin
    exact ⟨root, hroot, by rw [walk_append, hwk]; simp [TagTable.walk, hbd]⟩

lemma Planted.resolvePathToId (h : t.Planted) (hin : t.infos.lookup id = some info) :
    t.resolvePathToId (t.resolveTagName info.tagName) = id := by
  obtain ⟨comps, hrt, hle⟩ := h.rooted id (by simp [Has, hin])
  obtain ⟨root, hroot, hwk⟩ := hrt.walk h.own
  rw [resolveTagName, hrt.resolveTagNameFrom hle hin, TagTable.resolvePathToId, hroot]
  rw [bind_some, splitPathComponents_joinComponents comps hrt.isComponent, hwk]
  rfl

/-! ## Deletions return -/

lemma ancestorChain_mono {l : List TagId} (h : t.ancestorChain n name = some l) (hnm : n ≤ m)
    : t.ancestorChain m name = some l := by
  induction n generalizing m name l with
  | zero => simp [ancestorChain] at h
  | succ n ih =>
    obtain ⟨m, rfl⟩ : ∃ k, m = k + 1 := ⟨m - 1, by omega⟩
    unfold ancestorChain at h ⊢
    cases hprs : parseTagRef name with
    | none => simpa [hprs] using h
    | some ref =>
      obtain ⟨parent, leaf⟩ := ref
      simp only [hprs] at h ⊢
      split
      · next hroot => rwa [if_pos hroot] at h
      · next hroot =>
          rw [if_neg hroot] at h
          cases hin : t.infos.lookup parent with
          | none => simpa [hin] using h
          | some info =>
            simp only [hin] at h ⊢
            obtain ⟨l', hl', rfl⟩ := map_eq_some_iff.mp h
            rw [ih hl' (by omega), map_some]

/-- The loop over the ancestors ends: their ranks fall. -/
lemma exists_ancestorChain (h : Forest.Ranked t.parentOf rank bound) (k : ℕ) (name : String)
    (hk : ∀ parent leaf, parseTagRef name = some (parent, leaf) → rank parent < k) :
    ∃ l, t.ancestorChain (k + 1) name = some l := by
  induction k generalizing name with
  | zero =>
    cases hprs : parseTagRef name with
    | none => exact ⟨[], by rw [ancestorChain, hprs]⟩
    | some ref => exact absurd (hk ref.1 ref.2 hprs) (by omega)
  | succ k ih =>
    unfold ancestorChain
    cases hprs : parseTagRef name with
    | none => exact ⟨[], rfl⟩
    | some ref =>
      obtain ⟨parent, leaf⟩ := ref
      dsimp only
      split
      · exact ⟨[], rfl⟩
      · cases hin : t.infos.lookup parent with
        | none => exact ⟨[], rfl⟩
        | some info =>
          obtain ⟨l, hl⟩ := ih info.tagName fun parent' leaf' hprs' => by
            have hfall := (h parent parent' (by simp [parentOf, hin, hprs'])).1
            have := hk parent leaf hprs
            omega
          exact ⟨parent :: l, by dsimp only; rw [hl]; rfl⟩

lemma delPlan_mono {posixUnlink : Bool} {plan : DelPlan}
    (h : t.delPlan n id name posixUnlink = some plan) (hnm : n ≤ m) :
    t.delPlan m id name posixUnlink = some plan := by
  unfold delPlan at h ⊢
  cases htg : t.delTarget id name with
  | none => simpa [htg] using h
  | some target =>
    obtain ⟨found, key⟩ := target
    simp only [htg] at h ⊢
    cases hin : t.infos.lookup found with
    | none => simpa [hin] using h
    | some info =>
      simp only [hin] at h ⊢
      obtain ⟨ancestors, hanc, h⟩ := bind_eq_some_iff.mp h
      rw [ancestorChain_mono hanc hnm, bind_some]
      split
      · next hali => rwa [if_pos hali] at h
      · next hali =>
          rw [if_neg hali] at h
          split
          · next new hnew => simpa [hnew] using h
          · next hnew =>
              simp only [hnew] at h
              obtain ⟨toDelete, hdel, rfl⟩ := map_eq_some_iff.mp h
              rw [traverse_mono hdel hnm, map_some]

lemma mem_children {child : TagId} : child ∈ t.children id → t.parentOf child = some id := by
  intro h
  simpa using (mem_filter.mp h).2

/-- A deletion among ranked tags returns. -/
lemma exists_delPlan (h : Forest.Ranked t.parentOf rank bound) (id : TagId) (name : String)
    (posixUnlink : Bool) :
    ∃ n plan, t.delPlan n id name posixUnlink = some plan := by
  unfold delPlan
  cases htg : t.delTarget id name with
  | none => exact ⟨0, _, rfl⟩
  | some target =>
    obtain ⟨found, key⟩ := target
    cases hin : t.infos.lookup found with
    | none => exact ⟨0, .notFound found, by simp [hin]⟩
    | some info =>
      obtain ⟨n, toDelete, hdel⟩ := h.exists_traverse (fun x y hy => mem_children hy) [found]
      obtain ⟨ancestors, hanc⟩ := exists_ancestorChain h (rank found) info.tagName
        fun parent leaf hprs => (h found parent (by simp [parentOf, hin, hprs])).1
      have hanc' := ancestorChain_mono hanc (le_max_right n (rank found + 1))
      have hdel' := traverse_mono hdel (le_max_left n (rank found + 1))
      refine ⟨max n (rank found + 1), ?_⟩
      simp only [hin, hanc', hdel', bind_some, map_some]
      split
      · exact ⟨_, rfl⟩
      · split <;> exact ⟨_, rfl⟩

/-- The tags of `u` are tags of `t`. -/
def Thinned (t u : TagTable) : Prop :=
  ∀ id info, u.infos.lookup id = some info → t.infos.lookup id = some info

lemma Thinned.refl (t : TagTable) : Thinned t t := fun _ _ h => h

lemma Thinned.dropTag (h : Thinned t u) (id : TagId) : Thinned t (u.dropTag id) := by
  intro other info hin
  exact h other info (lookup_erase_eq_some.mp hin).2

lemma Thinned.pruneAncestors (h : Thinned t u) (ancs : List TagId) :
    Thinned t (u.pruneAncestors ancs) := by
  induction ancs generalizing u with
  | nil => exact h
  | cons anc ancs ih =>
    unfold pruneAncestors
    split
    · exact ih h
    · split
      · exact ih (h.dropTag anc)
      · exact h

/-- A deletion where no tag has an alias leaves some of the tags as they were. -/
lemma thinned_delTag (hno : ∀ id info, t.infos.lookup id = some info → info.aliases = []) {fuel : ℕ}
    {posixUnlink : Bool} {r : (ℕ × TagId) × TagTable}
    (hr : t.delTag fuel id name posixUnlink = some r)
    : Thinned t r.2 := by
  obtain ⟨plan, hplan, rfl⟩ := map_eq_some_iff.mp hr
  rcases delPlan_cases hplan with ⟨found, rfl, -⟩ | ⟨found, key, info, ancestors, -, hin, -,
    ⟨rfl, -, -⟩ | ⟨new, rest, -, -, -, hrs⟩ | ⟨toDelete, rfl, -⟩⟩
  · exact Thinned.refl t
  · have his : (t.unlinkAlias found key).infos = t.infos.insert found info := by
      simp only [unlinkAlias, searchDelete, setAliases, hin]
      rw [show info.aliases.erase key = info.aliases by simp [hno found info hin]]
    intro other info' hin'
    rw [his] at hin'
    obtain ⟨rfl, rfl⟩ | ⟨-, hin'⟩ := lookup_insert_eq_some.mp hin'
    · exact hin
    · exact hin'
  · simp [hno found info hin] at hrs
  · have hst : Thinned t (t.searchDelete (t.deadEntries info.tagName toDelete)) := Thinned.refl t
    exact (foldlRecOn (motive := Thinned t) _ _ hst
      fun _ hs id _ => hs.dropTag id).pruneAncestors ancestors

lemma Thinned.parentOf (h : Thinned t u) (hparent : u.parentOf id = some parent) :
    t.parentOf id = some parent := by
  obtain ⟨info, hin, hprs⟩ := bind_eq_some_iff.mp hparent
  exact bind_eq_some_iff.mpr ⟨info, h id info hin, hprs⟩

lemma delStep_mono {task : TagId × String × Bool} (h : delStep n t task = some u) (hnm : n ≤ m)
    : delStep m t task = some u := by
  obtain ⟨r, hr, rfl⟩ := map_eq_some_iff.mp h
  obtain ⟨plan, hplan, rfl⟩ := map_eq_some_iff.mp hr
  rw [delStep, delTag, delPlan_mono hplan hnm]
  rfl

lemma runAll_delStep_mono {tasks : List (TagId × String × Bool)}
    (h : runAll (delStep n) t tasks = some u) (hnm : n ≤ m) :
    runAll (delStep m) t tasks = some u := by
  induction tasks generalizing t with
  | nil => exact h
  | cons task tasks ih =>
    obtain ⟨v, hv, hrs⟩ := bind_eq_some_iff.mp h
    exact bind_eq_some_iff.mpr ⟨v, delStep_mono hv hnm, ih hrs⟩

/-- **All deletions return** where tags are ranked and have no aliases. -/
lemma exists_runAll_delStep (h : Forest.Ranked t.parentOf rank bound)
    (hno : ∀ id info, t.infos.lookup id = some info → info.aliases = [])
    (tasks : List (TagId × String × Bool)) : ∃ fuel u, runAll (delStep fuel) t tasks = some u := by
  induction tasks generalizing t with
  | nil => exact ⟨0, t, rfl⟩
  | cons task tasks ih =>
    obtain ⟨n, plan, hplan⟩ := exists_delPlan h task.1 task.2.1 task.2.2
    obtain ⟨v, hv⟩ : ∃ v, delStep n t task = some v := by
      rw [delStep, delTag, hplan]
      exact ⟨_, rfl⟩
    have hthin : Thinned t v := by
      obtain ⟨r, hr, rfl⟩ := map_eq_some_iff.mp hv
      exact thinned_delTag hno hr
    obtain ⟨m, w, hw⟩ := ih (h.mono fun _ _ hparent => hthin.parentOf hparent)
      fun id info hin => hno id info (hthin id info hin)
    refine ⟨max n m, w, bind_eq_some_iff.mpr ⟨v, ?_, ?_⟩⟩
    · exact delStep_mono hv (le_max_left n m)
    · exact runAll_delStep_mono hw (le_max_right n m)

/-- **A planted table is a tree.** -/
lemma Planted.isTree (h : t.Planted) : t.IsTree where
  parents id _ hparent := by
    obtain ⟨comps, hrt, -⟩ := h.rooted id (has_of_parentOf hparent)
    obtain ⟨_, _, _, hp, -⟩ := hrt.of_parent hparent
    exact hp.has
  acyclic n id := h.ranked.ancestor_ne n id
  deletions tasks := exists_runAll_delStep h.ranked h.noAliases tasks
  reachable _ _ hin := h.resolvePathToId hin

/-! ## Creating tags -/

lemma Rooted.mono (hsub : ∀ id info, t.infos.lookup id = some info → u.infos.lookup id = some info)
    (h : Rooted t id comps) : Rooted u id comps := by
  induction h with
  | root hin hnm => exact .root (hsub _ _ hin) hnm
  | child _ hft hin hnm hleaf ih => exact .child ih hft (hsub _ _ hin) hnm hleaf

/-- A stored name under which a tag can be planted. -/
def Plants (t : TagTable) (name : String) (comps : List String) : Prop :=
  (name = "/" ∧ comps = []) ∨ ∃ parent leaf comps', name = makeRelativeName parent leaf ∧
    parent.Fits ∧ IsComponent leaf ∧ Rooted t parent comps' ∧ comps = comps' ++ [leaf]

lemma Plants.rooted (h : Plants t name comps) (hin : t.infos.lookup id = some info)
    (hnm : info.tagName = name) :
    Rooted t id comps := by
  rcases h with ⟨rfl, rfl⟩ | ⟨parent, leaf, comps', rfl, hft, hleaf, hp, rfl⟩
  · exact .root hin hnm
  · exact .child hp hft hin hnm hleaf

lemma Plants.mono (hsub : ∀ id info, t.infos.lookup id = some info → u.infos.lookup id = some info)
    (h : Plants t name comps) : Plants u name comps := by
  rcases h with h | ⟨parent, leaf, comps', hnm, hft, hleaf, hp, hcs⟩
  · exact .inl h
  · exact .inr ⟨parent, leaf, comps', hnm, hft, hleaf, hp.mono hsub, hcs⟩

lemma Plants.isRef (h : Plants t name comps) :
    name = "/" ∨ (parseTagRef name).isSome := by
  rcases h with ⟨rfl, -⟩ | ⟨parent, leaf, comps', rfl, hft, -⟩
  · exact .inl rfl
  · exact .inr (by rw [parseTagRef_makeRelativeName hft]; rfl)

/-- A new tag is planted. -/
lemma Planted.addTag (h : t.Planted) (hpls : Plants t name comps) (hle : comps.length ≤ 257)
    (hnm : t.names.lookup name = none) (hid : ¬ t.Has id) (hft : id.Fits) :
    (t.addTag name id).Planted ∧ Rooted (t.addTag name id) id comps ∧
      ∀ other info, t.infos.lookup other = some info →
        (t.addTag name id).infos.lookup other = some info := by
  have hns : (t.addTag name id).names = t.names.insert name id := rfl
  have hsf : (t.addTag name id).infos.lookup id = some ⟨name, 0, []⟩ := lookup_insert _
  have hne : ∀ {other info}, t.infos.lookup other = some info → other ≠ id := by
    rintro other info hin rfl
    exact hid (by simp [Has, hin])
  have hsub : ∀ other info, t.infos.lookup other = some info →
      (t.addTag name id).infos.lookup other = some info := by
    exact fun other info hin => (lookup_insert_ne (hne hin)).trans hin
  have hrt : Rooted (t.addTag name id) id comps := (hpls.mono hsub).rooted hsf rfl
  refine ⟨⟨h.node, h.minor, fun other hoth => ?_, fun other info hin => ?_,
    fun key other href hkey => ?_, fun other hoth => ?_, fun other info hin => ?_⟩, hrt, hsub⟩
  · obtain ⟨info, hin⟩ := ne_none_iff_exists'.mp hoth
    obtain ⟨rfl, -⟩ | ⟨-, hin⟩ := lookup_insert_eq_some.mp hin
    · exact hft
    · exact h.fits other (by simp [Has, hin])
  · obtain ⟨rfl, rfl⟩ | ⟨-, hin⟩ := lookup_insert_eq_some.mp hin
    · rw [hns, lookup_insert]
    · have hown := h.own other info hin
      have hdiff : info.tagName ≠ name := by
        rintro rfl
        simp [hnm] at hown
      rw [hns, lookup_insert_ne hdiff, hown]
  · obtain ⟨rfl, rfl⟩ | ⟨-, hkey⟩ := lookup_insert_eq_some.mp hkey
    · exact ⟨_, hsf, rfl⟩
    · obtain ⟨info, hin, htag⟩ := h.binds key other href hkey
      exact ⟨info, hsub other info hin, htag⟩
  · obtain ⟨info, hin⟩ := ne_none_iff_exists'.mp hoth
    obtain ⟨rfl, -⟩ | ⟨-, hin⟩ := lookup_insert_eq_some.mp hin
    · exact ⟨comps, hrt, hle⟩
    · obtain ⟨comps', hc, hle'⟩ := h.rooted other (by simp [Has, hin])
      exact ⟨comps', hc.mono hsub, hle'⟩
  · obtain ⟨-, rfl⟩ | ⟨-, hin⟩ := lookup_insert_eq_some.mp hin
    · rfl
    · exact h.noAliases other info hin

lemma Planted.of_lookup (h : t.Planted) (hnode : u.nodeId < 2 ^ 32) (hmnr : u.nextMinor < 2 ^ 32)
    (hns : ∀ key, key = "/" ∨ (parseTagRef key).isSome → u.names.lookup key = t.names.lookup key)
    (his : ∀ id, u.infos.lookup id = t.infos.lookup id) : u.Planted := by
  have hsub : ∀ id info, t.infos.lookup id = some info → u.infos.lookup id = some info :=
    fun id info hin => by rw [his, hin]
  refine ⟨hnode, hmnr, fun id hid => ?_, fun id info hin => ?_, fun key id href hkey => ?_,
    fun id hid => ?_, fun id info hin => ?_⟩
  · exact h.fits id (by rwa [Has, his] at hid)
  · rw [his] at hin
    obtain ⟨comps, hrt, -⟩ := h.rooted id (by simp [Has, hin])
    rw [hns _ (hrt.isRef hin), h.own id info hin]
  · rw [hns key href] at hkey
    obtain ⟨info, hin, htag⟩ := h.binds key id href hkey
    exact ⟨info, hsub id info hin, htag⟩
  · obtain ⟨comps, hrt, hle⟩ := h.rooted id (by rwa [Has, his] at hid)
    exact ⟨comps, hrt.mono hsub, hle⟩
  · rw [his] at hin
    exact h.noAliases id info hin

lemma Planted.getOrAssignTagId (h : t.Planted) (hpls : Plants t name comps)
    (hle : comps.length ≤ 257) (hfr : t.freshId name preferred = true) (hpref : preferred.Fits) :
    (t.getOrAssignTagId name preferred).2.Planted ∧
      Rooted (t.getOrAssignTagId name preferred).2 (t.getOrAssignTagId name preferred).1 comps := by
  unfold TagTable.getOrAssignTagId
  cases hnm : t.names.lookup name with
  | some id =>
    obtain ⟨info, hin, htag⟩ := h.binds name id hpls.isRef hnm
    exact ⟨h, hpls.rooted hin htag⟩
  | none =>
    by_cases hnew : preferred ≠ .null ∧ ¬ t.Has preferred
    · simp only [if_pos hnew]
      obtain ⟨hpl, hrt, -⟩ := h.addTag hpls hle hnm hnew.2 hpref
      exact ⟨hpl, hrt⟩
    · have hid : ¬ t.Has t.generateNewTagId.1 := by simpa [freshId, hnm, hnew] using hfr
      have hgen : t.generateNewTagId.2.Planted :=
        h.of_lookup h.node (Nat.mod_lt _ (by norm_num)) (fun _ _ => rfl) fun _ => rfl
      have hsm : ∀ id info, t.infos.lookup id = some info →
          t.generateNewTagId.2.infos.lookup id = some info := fun _ _ hin => hin
      simp only [if_neg hnew]
      obtain ⟨hpl, hrt, -⟩ := hgen.addTag (hpls.mono hsm) hle hnm hid ⟨h.node, h.minor⟩
      exact ⟨hpl, hrt⟩

lemma fits_null : TagId.null.Fits := by
  constructor <;> decide

lemma Planted.assignChain (h : t.Planted) {above : List String} (hparent : Rooted t parent above)
    (hcs : ∀ c ∈ comps, IsComponent c) (hle : above.length + comps.length ≤ 257)
    (hpref : preferred.Fits) (hfr : t.freshChain parent preferred comps = true) :
    (t.assignChain parent preferred comps).2.Planted ∧
      Rooted (t.assignChain parent preferred comps).2 (t.assignChain parent preferred comps).1
        (above ++ comps) := by
  induction comps generalizing t parent above with
  | nil => exact ⟨h, by rw [append_nil]; exact hparent⟩
  | cons comp comps ih =>
    obtain ⟨hfst, hrs⟩ := Bool.and_eq_true_iff.mp hfr
    have hpls : Plants t (makeRelativeName parent comp) (above ++ [comp]) :=
      .inr ⟨parent, comp, above, rfl, h.fits parent hparent.has, hcs comp mem_cons_self,
        hparent, rfl⟩
    have hhint : (if comps = [] then preferred else .null).Fits := by
      split
      · exact hpref
      · exact fits_null
    rw [length_cons] at hle
    obtain ⟨hpl, hrt⟩ := h.getOrAssignTagId hpls (by simp; omega) hfst hhint
    have := ih hpl hrt (fun c hc => hcs c (mem_cons_of_mem comp hc)) (by simp; omega) hrs
    rwa [append_assoc] at this

/-- **The chain of tags of a path is planted**, and its last tag is at the path. -/
lemma Planted.getOrCreateTagChain (h : t.Planted) {path : String} (hpt : isHierPath path = true)
    (hle : (splitPathComponents path).length ≤ 257) (hpref : preferred.Fits)
    (hfr : t.freshTags path preferred = true) :
    (t.getOrCreateTagChain path preferred).2.Planted ∧
      Rooted (t.getOrCreateTagChain path preferred).2 (t.getOrCreateTagChain path preferred).1
        (splitPathComponents path) := by
  unfold TagTable.getOrCreateTagChain
  unfold freshTags at hfr
  rw [if_pos hpt] at hfr ⊢
  obtain ⟨hroot, hrs⟩ := Bool.and_eq_true_iff.mp hfr
  have hpls : Plants t "/" [] := .inl ⟨rfl, rfl⟩
  obtain ⟨hpl, hrt⟩ := h.getOrAssignTagId hpls (by simp) hroot fits_null
  exact hpl.assignChain hrt (fun c hc => isComponent_of_mem hc) (by simpa using hle) hpref hrs

/-! ## Moving tags -/

/-- Within the levels that `ResolveTagName` follows, `x` is `y` or below it. -/
def isAtOrBelow (t : TagTable) (x y : TagId) : Bool :=
  (List.range 258).any fun n => Forest.ancestor t.parentOf n x = some y

/-- With the tag at the given depth, no tag below it is deeper than 257 levels. -/
def staysShallow (t : TagTable) (source : TagId) (depth : ℕ) : Bool :=
  t.infos.keys.all fun id => (List.range 258).all fun n =>
    decide (Forest.ancestor t.parentOf n id = some source → depth + n ≤ 257)

lemma Planted.lt_of_ancestor (h : t.Planted) {y : TagId} (hx : t.Has x)
    (hn : ancestor t.parentOf n x = some y) : n < 258 := by
  obtain ⟨comps, hrt, hle⟩ := h.rooted x hx
  have hrank := h.ranked.rank_add_le hn
  rw [hrt.depth_eq] at hrank
  omega

section Move

variable {source parent : TagId} {info : TagInfo} {leaf : String} {above : List String}

/-- What `u` is after the tag `source` of `t` has got a free name below `parent`. -/
structure Moved (t u : TagTable) (source parent : TagId) (info : TagInfo)
    (leaf : String) : Prop where
  node : u.nodeId = t.nodeId
  minor : u.nextMinor = t.nextMinor
  lookup : t.infos.lookup source = some info
  free : t.names.lookup (makeRelativeName parent leaf) = none
  names : u.names = (t.names.erase info.tagName).insert (makeRelativeName parent leaf) source
  infos : u.infos = t.infos.insert source { info with tagName := makeRelativeName parent leaf }

lemma Moved.lookup_of_ne (h : Moved t u source parent info leaf) (hid : id ≠ source) :
    u.infos.lookup id = t.infos.lookup id := by rw [h.infos, lookup_insert_ne hid]

lemma Moved.lookup_source (h : Moved t u source parent info leaf) :
    u.infos.lookup source = some { info with tagName := makeRelativeName parent leaf } := by
  rw [h.infos, lookup_insert]

/-- Tags that are not below the moved one stay where they are. -/
lemma Rooted.of_moved (hmv : Moved t u source parent info leaf) (h : Rooted t id comps)
    (hnot : ¬ Forest.AtOrBelow t.parentOf id source) : Rooted u id comps := by
  have hne : ∀ {x}, ¬ Forest.AtOrBelow t.parentOf x source → x ≠ source := by
    rintro x hx rfl
    exact hx (atOrBelow_refl _ _)
  induction h with
  | root hin hnm => exact .root ((hmv.lookup_of_ne (hne hnot)).trans hin) hnm
  | child _ hft hin hnm hleaf ih =>
    have hp := parentOf_child hin hft hnm
    exact .child (ih fun hbl => hnot (hbl.of_parent hp)) hft
      ((hmv.lookup_of_ne (hne hnot)).trans hin) hnm hleaf

section

variable (h : t.Planted) (hmv : Moved t u source parent info leaf) (habo : Rooted t parent above)
  (hleaf : IsComponent leaf)
include h hmv habo hleaf

/-- Tags below the moved one come along. -/
lemma Planted.rooted_of_moved (hnot : ¬ Forest.AtOrBelow t.parentOf parent source)
    (hn : ancestor t.parentOf n id = some source) :
    ∃ comps, Rooted u id comps ∧ comps.length = above.length + 1 + n := by
  induction n generalizing id with
  | zero =>
    cases hn
    exact ⟨above ++ [leaf], .child (habo.of_moved hmv hnot) (h.fits parent habo.has)
      hmv.lookup_source rfl hleaf, by simp⟩
  | succ n ih =>
    obtain ⟨p, hp, hrs⟩ := bind_eq_some_iff.mp hn
    obtain ⟨comps, hcs, hlen⟩ := ih hrs
    have hid : id ≠ source := by
      rintro rfl
      exact h.ranked.ancestor_ne n id hn
    obtain ⟨comps', hrt, -⟩ := h.rooted id (has_of_parentOf hp)
    obtain ⟨info', leaf', -, -, hft, hin', hnm', hleaf', -⟩ := hrt.of_parent hp
    exact ⟨comps ++ [leaf'], .child hcs hft ((hmv.lookup_of_ne hid).trans hin') hnm' hleaf', by
      simp; omega⟩

/-- **A move to a place that is not below the tag itself keeps the tree.** -/
lemma Planted.moved (hnot : t.isAtOrBelow parent source = false)
    (hshl : t.staysShallow source (above.length + 1) = true) : u.Planted := by
  simp only [staysShallow, List.all_eq_true, List.mem_range, decide_eq_true_eq] at hshl
  have hnot' : ¬ Forest.AtOrBelow t.parentOf parent source := by
    rintro ⟨n, hn⟩
    simp only [isAtOrBelow, List.any_eq_false, List.mem_range, decide_eq_true_eq] at hnot
    exact hnot n (h.lt_of_ancestor habo.has hn) hn
  have hsf := hmv.lookup_source
  have hown := h.own source info hmv.lookup
  have hhas : ∀ {id}, u.Has id → t.Has id := by
    intro id hid
    obtain rfl | hne := eq_or_ne id source
    · simp [Has, hmv.lookup]
    · rwa [Has, hmv.lookup_of_ne hne] at hid
  refine ⟨hmv.node ▸ h.node, hmv.minor ▸ h.minor, fun id hid => h.fits id (hhas hid),
    fun id info' hin' => ?_, fun key id href hkey => ?_, fun id hid => ?_, fun id info' hin' => ?_⟩
  · obtain rfl | hne := eq_or_ne id source
    · cases hsf.symm.trans hin'
      rw [hmv.names, lookup_insert]
    · rw [hmv.lookup_of_ne hne] at hin'
      have hbd := h.own id info' hin'
      have hnew : info'.tagName ≠ makeRelativeName parent leaf := by
        intro heq
        rw [heq, hmv.free] at hbd
        simp at hbd
      have hold : info'.tagName ≠ info.tagName := by
        intro heq
        rw [heq, hown] at hbd
        exact hne (some.inj hbd).symm
      rw [hmv.names, lookup_insert_ne hnew, lookup_erase_ne hold, hbd]
  · rw [hmv.names] at hkey
    obtain ⟨rfl, rfl⟩ | ⟨-, hkey⟩ := lookup_insert_eq_some.mp hkey
    · exact ⟨_, hsf, rfl⟩
    · obtain ⟨hold, hkey⟩ := lookup_erase_eq_some.mp hkey
      obtain ⟨info', hin', htag⟩ := h.binds key id href hkey
      have hne : id ≠ source := by
        rintro rfl
        rw [hmv.lookup] at hin'
        exact hold (some.inj hin' ▸ htag.symm)
      exact ⟨info', (hmv.lookup_of_ne hne).trans hin', htag⟩
  · by_cases hbl : Forest.AtOrBelow t.parentOf id source
    · obtain ⟨n, hn⟩ := hbl
      obtain ⟨comps, hcs, hlen⟩ := h.rooted_of_moved hmv habo hleaf hnot' hn
      have hkey : id ∈ t.infos.keys := by
        rw [← AList.mem_keys, ← AList.lookup_isSome]
        exact Option.isSome_iff_ne_none.mpr (hhas hid)
      exact ⟨comps, hcs, hlen ▸ hshl id hkey n (h.lt_of_ancestor (hhas hid) hn) hn⟩
    · obtain ⟨comps, hrt, hle⟩ := h.rooted id (hhas hid)
      exact ⟨comps, hrt.of_moved hmv hbl, hle⟩
  · obtain rfl | hne := eq_or_ne id source
    · cases hsf.symm.trans hin'
      exact h.noAliases id info hmv.lookup
    · rw [hmv.lookup_of_ne hne] at hin'
      exact h.noAliases id info' hin'

end

end Move

lemma splitParentLeaf_eq {path parentPath leaf : String}
    (h : splitParentLeaf path = some (parentPath, leaf)) :
    isHierPath parentPath = true ∧ IsComponent leaf ∧
      splitPathComponents path = splitPathComponents parentPath ++ [leaf] := by
  unfold splitParentLeaf at h
  split at h
  · simp at h
  · next last hls =>
      obtain ⟨rfl, rfl⟩ := Prod.mk.inj (some.inj h)
      have hcs : ∀ c ∈ (splitPathComponents path).dropLast, IsComponent c :=
        fun c hc => isComponent_of_mem (mem_of_mem_dropLast hc)
      refine ⟨isHierPath_joinComponents _ hcs, isComponent_of_mem (mem_of_getLast? hls), ?_⟩
      rw [splitPathComponents_joinComponents _ hcs]
      exact (dropLast_append_getLast? last hls).symm

/-- A moved tag goes to a place that is free, not below itself and not too deep; or it stays. -/
def keepsTreeMove (t : TagTable) (id : TagId) (oldName newName : String) : Bool :=
  match splitParentLeaf newName with
  | none => true
  | some (newParentPath, newLeaf) =>
    let parent := t.getOrCreateTagChain newParentPath .null
    let newRel := makeRelativeName parent.1 newLeaf
    let source := parent.2.renameSource id oldName
    t.freshTags newParentPath .null && (splitPathComponents newParentPath).length ≤ 257 &&
      match parent.2.infos.lookup source with
      | none => true
      | some info => newRel = info.tagName ||
          (parent.2.names.lookup newRel = none && !parent.2.isAtOrBelow parent.1 source &&
            parent.2.staysShallow source (splitPathComponents newName).length)

end TagTable

/-- `GetOrCreateTag` and `RenameTag` on absolute paths. -/
def TagTask.OnPaths : TagTask → Prop
  | .getOrCreate name preferred => isHierPath name = true ∧ preferred.Fits
  | .rename _ oldName newName => isHierPath oldName = true ∧ isHierPath newName = true
  | .getOrCreateAlias .. => False
  | .del .. => False

/-- The condition under which a task on absolute paths keeps the tags a tree. -/
def TagTask.keepsTree (t : TagTable) : TagTask → Bool
  | .getOrCreate name preferred =>
    if t.isRemoteTag preferred then name ≠ "/" || (t.names.lookup name).isSome
    else t.freshTags name preferred && (splitPathComponents name).length ≤ 257
  | .rename id oldName newName => oldName = newName || t.keepsTreeMove id oldName newName
  | .getOrCreateAlias .. => true
  | .del .. => true

namespace TagTable

variable {t u : TagTable}

lemma parseTagRef_of_isHierPath (h : isHierPath name = true) : parseTagRef name = none := by
  have hpre : ¬ kTagRefPrefix.toList <+: name.toList := by
    intro hp
    obtain ⟨rest, hrs⟩ := hp
    rw [isHierPath, ← hrs] at h
    simp [kTagRefPrefix] at h
  rw [parseTagRef, if_neg hpre]

lemma Planted.getOrCreateTag (h : t.Planted) (hpt : isHierPath name = true) (hpref : preferred.Fits)
    (hok : (getOrCreate name preferred).keepsTree t = true) :
    (t.getOrCreateTag name preferred).2.Planted := by
  unfold TagTable.getOrCreateTag
  by_cases hrmt : t.isRemoteTag preferred
  · simp only [keepsTree, if_pos hrmt, Bool.or_eq_true, decide_eq_true_eq] at hok
    rw [if_pos hrmt]
    split
    · exact h
    · next hnone =>
        -- the key that is bound is not one that stored names are made of
        have hroot : name ≠ "/" := by
          rcases hok with hok | hok
          · exact hok
          · simp [hnone] at hok
        refine h.of_lookup h.node h.minor (fun key href => ?_) fun _ => rfl
        have hkey : key ≠ name := by
          rintro rfl
          rcases href with href | href
          · exact hroot href
          · simp [parseTagRef_of_isHierPath hpt] at href
        exact lookup_insert_ne hkey
  · simp only [keepsTree, if_neg hrmt, Bool.and_eq_true, decide_eq_true_eq] at hok
    rw [if_neg hrmt]
    exact (h.getOrCreateTagChain hpt hok.2 hpref hok.1).1

lemma Planted.renamePath (h : t.Planted) {oldName newName : String}
    (hok : t.keepsTreeMove id oldName newName = true) :
    (t.renamePath id oldName newName).2.Planted := by
  unfold TagTable.renamePath
  unfold keepsTreeMove at hok
  cases hspl : splitParentLeaf newName with
  | none => exact h
  | some dest =>
    obtain ⟨path, leaf⟩ := dest
    simp only [hspl, Bool.and_eq_true, decide_eq_true_eq] at hok ⊢
    obtain ⟨⟨hfr, hle⟩, hok⟩ := hok
    obtain ⟨hpt, hleaf, hcs⟩ := splitParentLeaf_eq hspl
    obtain ⟨hpl, habo⟩ := h.getOrCreateTagChain hpt hle fits_null hfr
    generalize t.getOrCreateTagChain path .null = parent at hok hpl habo ⊢
    split
    · exact hpl
    cases hin : parent.2.infos.lookup (parent.2.renameSource id oldName) with
    | none => exact hpl
    | some info =>
      simp only [hin, Bool.or_eq_true, Bool.and_eq_true, decide_eq_true_eq,
        Bool.not_eq_true'] at hok
      rcases hok with hsm | ⟨⟨hfe, hnot⟩, hshl⟩
      · rw [hsm]
        obtain ⟨hns, his⟩ := lookup_moveTag_self hin (hpl.own _ info hin)
        refine hpl.of_lookup ?_ ?_ (fun key _ => hns key) his
        · simpa [moveTag, setTagName, hin] using hpl.node
        · simpa [moveTag, setTagName, hin] using hpl.minor
      · have hbd := hpl.own _ info hin
        have hdiff : info.tagName ≠ makeRelativeName parent.1 leaf := by
          intro heq
          rw [heq, hfe] at hbd
          simp at hbd
        refine hpl.moved ⟨?_, ?_, hin, hfe, ?_, ?_⟩ habo hleaf hnot ?_
        · simp [moveTag, setTagName, hin]
        · simp [moveTag, setTagName, hin]
        · simp [moveTag, setTagName, hin, hdiff]
        · simp [moveTag, setTagName, hin]
        · simpa [hcs] using hshl

lemma planted_init {nodeId : ℕ} (h : nodeId < 2 ^ 32) : (init nodeId).Planted := by
  refine ⟨h, by simp [init], fun id hid => ?_, fun id info hin => ?_, fun key id _ hkey => ?_,
    fun id hid => ?_, fun id info hin => ?_⟩
  · exact absurd rfl hid
  · simp [init] at hin
  · simp [init] at hkey
  · exact absurd rfl hid
  · simp [init] at hin

lemma Planted.run (h : t.Planted) {fuel : ℕ} {task : TagTask} (hpaths : task.OnPaths)
    (hok : task.keepsTree t = true) (hrun : task.run fuel t = some u) : u.Planted := by
  cases task with
  | getOrCreate name preferred => exact some.inj hrun ▸ h.getOrCreateTag hpaths.1 hpaths.2 hok
  | rename id oldName newName =>
    rw [← some.inj hrun]
    unfold renameTag
    split
    · exact h
    split
    · exact h
    next hdiff =>
    rw [if_pos (show isHierPath oldName = true ∧ isHierPath newName = true from hpaths)]
    exact h.renamePath (by simpa [keepsTree, hdiff] using hok)
  | getOrCreateAlias => exact hpaths.elim
  | del => exact hpaths.elim

end TagTable

/-! ## Whole histories -/

/-- **The tags stay a tree** in every history of tasks on absolute paths that go to places that are
free, not below the tag that moves, and at most 257 levels deep. -/
theorem isTree_of_keepsTree (nodeId fuel : ℕ) (hnode : nodeId < 2 ^ 32) (tasks : List TagTask)
    (hpaths : ∀ task ∈ tasks, task.OnPaths) (t : TagTable)
    (hok : Meets (fun t task => task.run fuel t) (fun t task => task.keepsTree t = true)
      (TagTable.init nodeId) tasks)
    (hrun : runAll (fun t task => task.run fuel t) (TagTable.init nodeId) tasks = some t) :
    t.IsTree :=
  (runAll_invariant TagTable.Planted
    (fun _ task hmem _ hs hkee hstp => hs.run (hpaths task hmem) hkee hstp)
    (planted_init hnode) hok hrun).isTree

/-- A directory with a file in it is moved into another. -/
def moveDirectory : List TagTask :=
  [.getOrCreate "/a/f" .null, .getOrCreate "/b" .null, .rename .null "/a" "/b/c"]

theorem isTree_moveDirectory : ∃ t,
    runAll (fun t task => task.run 0 t) (TagTable.init 0) moveDirectory = some t ∧ t.IsTree ∧
      t.resolvePathToId "/b/c/f" = ⟨0, 3⟩ := by
  have hev : (runAll (fun t task => task.run 0 t) (init 0) moveDirectory).any (fun t =>
      t.resolvePathToId "/b/c/f" = ⟨0, 3⟩) = true := by
    decide +kernel
  have hok : Meets (fun t task => task.run 0 t) (fun t task => task.keepsTree t = true)
      (init 0) moveDirectory := by
    decide +kernel
  have hpaths : ∀ task ∈ moveDirectory, task.OnPaths := by
    intro task htask
    fin_cases htask
    · exact ⟨by decide, fits_null⟩
    · exact ⟨by decide, fits_null⟩
    · exact ⟨by decide, by decide⟩
  obtain ⟨t, hrun, hid⟩ := (any_eq_true _ _).mp hev
  exact ⟨t, hrun, isTree_of_keepsTree 0 0 (by decide) moveDirectory hpaths t hok hrun,
    of_decide_eq_true hid⟩

/-- A directory is moved to a place below itself. -/
def moveBelowItself : List TagTask :=
  [.getOrCreate "/a" .null, .rename .null "/a" "/a/b/c"]

/-- The two tags are each other's parent. -/
theorem not_isTree_moveBelowItself : ∃ t,
    runAll (fun t task => task.run 0 t) (TagTable.init 0) moveBelowItself = some t ∧
    ¬ t.IsTree := by
  have hev : (runAll (fun t task => task.run 0 t) (init 0) moveBelowItself).any (fun t =>
      ancestor t.parentOf 2 ⟨0, 2⟩ = some ⟨0, 2⟩) = true := by
    decide +kernel
  obtain ⟨t, hrun, hcyc⟩ := (any_eq_true _ _).mp hev
  exact ⟨t, hrun, fun h => h.acyclic 1 ⟨0, 2⟩ (of_decide_eq_true hcyc)⟩

end ClioCore.Cte
