import ClioCore.Foundations.Forest
import ClioCore.Cte.TagNames
import Mathlib.Data.List.Sort

/-!
# The tag table

What a container knows about tags: the bindings of names (`tag_name_to_id_`), the tags
(`tag_id_to_info_`), the index of absolute names that regular expressions are matched against
(`tag_search_`) and the counter that new ids come from.  The functions are those of
`core_runtime.cc`, on this part of the container alone; `log` collects the records they write to the
tag log.

A tag has one canonical name, `TagInfo.tagName`, and further names in `TagInfo.aliases` (hard
links).  All of them are keys of `names`.  Two loops of `DelTag` follow canonical names without a
set of visited tags and need not end, so `delTag` takes a bound on their iterations and returns none
when it is used up.

Times (`last_modified_`, `last_read_`, `last_changed_`), telemetry and the mirrors in shared and
device memory are left out: nothing here reads them.  `tag_search_.Search` is taken at what it is
for, the entries whose key matches, in the order of the keys.
-/

namespace ClioCore.Cte

open Foundations

/-- The part of a container that tags are kept in. -/
structure TagTable where
  /-- `tag_name_to_id_` -/
  names : AList (fun _ : String => TagId)
  /-- `tag_id_to_info_` -/
  infos : AList (fun _ : TagId => TagInfo)
  /-- `tag_search_` -/
  search : AList (fun _ : String => TagId)
  nodeId : ℕ
  /-- `next_tag_id_minor_` -/
  nextMinor : ℕ
  /-- The records for the tag log, oldest first. -/
  log : List TagTxn

namespace TagTable

/-- The table of a container that has just been created. -/
def init (nodeId : ℕ) : TagTable := ⟨∅, ∅, ∅, nodeId, 1, []⟩

variable (t : TagTable) (id : TagId) (name : String)

/-- The container has a tag with this id. -/
def Has : Prop := t.infos.lookup id ≠ none

instance (t : TagTable) (id : TagId) : Decidable (t.Has id) :=
  inferInstanceAs (Decidable (_ ≠ none))

/-! ## Resolution -/

/-- `ResolveTagName` with `n` levels left. -/
def resolveTagNameFrom (t : TagTable) : ℕ → String → String
  | 0, stored => stored
  | n + 1, stored =>
    match parseTagRef stored with
    | none => stored
    | some (parent, leaf) =>
      match t.infos.lookup parent with
      | none => "/" ++ leaf
      | some info => joinPath (t.resolveTagNameFrom n info.tagName) leaf

/-- `ResolveTagName`: the absolute path of a stored name.  It gives up below level 256. -/
def resolveTagName (stored : String) : String := t.resolveTagNameFrom 257 stored

/-- The tag that a path leads to from another. -/
def walk (t : TagTable) (cur : TagId) : List String → Option TagId
  | [] => some cur
  | comp :: comps =>
    (t.names.lookup (makeRelativeName cur comp)).bind fun child => t.walk child comps

/-- `ResolvePathToIdLocked`: the null id if there is no such path. -/
def resolvePathToId (path : String) : TagId :=
  ((t.names.lookup "/").bind fun root => t.walk root (splitPathComponents path)).getD .null

/-! ## Creation -/

/-- `GenerateNewTagId` -/
def generateNewTagId : TagId × TagTable :=
  (⟨t.nodeId, t.nextMinor⟩, { t with nextMinor := (t.nextMinor + 1) % 2 ^ 32 })

/-- The second half of `GetOrAssignTagId`: a new tag under a name. -/
def addTag (id : TagId) : TagTable :=
  let stored : TagTable :=
    { t with names := t.names.insert name id, infos := t.infos.insert id ⟨name, 0, []⟩ }
  { stored with
    search := stored.search.insert (stored.resolveTagName name) id
    log := stored.log ++ [.createTag name id] }

/-- `GetOrAssignTagId` -/
def getOrAssignTagId (preferred : TagId) : TagId × TagTable :=
  match t.names.lookup name with
  | some id => (id, t)
  | none =>
    if preferred ≠ .null ∧ ¬ t.Has preferred then (preferred, t.addTag name preferred)
    else
      let new := t.generateNewTagId
      (new.1, new.2.addTag name new.1)

/-- The loop of `GetOrCreateTagChain`: the preferred id is for the last tag. -/
def assignChain (t : TagTable) (parent preferred : TagId) : List String → TagId × TagTable
  | [] => (parent, t)
  | comp :: comps =>
    let assigned := t.getOrAssignTagId (makeRelativeName parent comp)
      (if comps = [] then preferred else .null)
    assigned.2.assignChain assigned.1 preferred comps

/-- `GetOrCreateTagChain` -/
def getOrCreateTagChain (preferred : TagId) : TagId × TagTable :=
  if isHierPath name then
    let root := t.getOrAssignTagId "/" .null
    root.2.assignChain root.1 preferred (splitPathComponents name)
  else t.getOrAssignTagId name preferred

/-- The id belongs to a tag of another node. -/
def isRemoteTag (preferred : TagId) : Prop :=
  preferred.major ≠ 0 ∧ preferred.major ≠ t.nodeId

instance (t : TagTable) (preferred : TagId) : Decidable (t.isRemoteTag preferred) :=
  inferInstanceAs (Decidable (_ ∧ _))

/-- `GetOrCreateTag`: the id of the reply and the table.  For a tag of another node only the name is
bound here. -/
def getOrCreateTag (preferred : TagId) : TagId × TagTable :=
  if t.isRemoteTag preferred then
    match t.names.lookup name with
    | some _ => (preferred, t)
    | none =>
      (preferred, { t with
        names := t.names.insert name preferred
        search := t.search.insert (t.resolveTagName name) preferred })
  else t.getOrCreateTagChain name preferred

/-! ## The search index -/

/-- `tag_search_.Search("^" + EscapeRegexLiteral(dir) + "/.*")`; a dot matches no line terminator.
-/
def searchBelow (dir : String) : List String :=
  (t.search.keys.filter fun key =>
    (dir ++ "/").toList <+: key.toList ∧
      (key.toList.drop (dir.toList.length + 1)).all fun c => c ≠ '\n' ∧
      c ≠ '\r').insertionSort (· ≤ ·)

/-- `tag_search_.Rename` -/
def searchRename (search : AList (fun _ : String => TagId)) (old new : String) :
    AList (fun _ : String => TagId) :=
  match search.lookup old with
  | none => search
  | some id => if old = new then search else (search.erase old).insert new id

/-- The entry of a moved tag and those below it get the new path. -/
def searchMove (oldAbs newAbs : String) : AList (fun _ : String => TagId) :=
  let self := if t.search.lookup oldAbs ≠ none then [oldAbs] else []
  (self ++ t.searchBelow oldAbs).foldl (fun search key =>
      searchRename search key (newAbs ++ String.ofList (key.toList.drop oldAbs.toList.length)))
    t.search

/-- Entries of the index are deleted. -/
def searchDelete (keys : List String) : TagTable :=
  { t with search := keys.foldl (fun search key => search.erase key) t.search }

/-! ## RenameTag -/

/-- A tag gets another canonical name. -/
def setTagName : TagTable :=
  match t.infos.lookup id with
  | none => t
  | some info => { t with infos := t.infos.insert id { info with tagName := name } }

/-- The hierarchical move, once the parent of the destination exists. -/
def moveTag (curRel newRel : String) : TagTable :=
  let names := if curRel ≠ newRel then t.names.erase curRel else t.names
  let search := t.searchMove (t.resolveTagName curRel) (t.resolveTagName newRel)
  ({ t with names := names.insert newRel id, search := search } : TagTable).setTagName id newRel

/-- The tag that a hierarchical `RenameTag` moves. -/
def renameSource (oldName : String) : TagId :=
  if id = .null then t.resolvePathToId oldName else id

/-- The hierarchical branch of `RenameTag`. -/
def renamePath (oldName newName : String) : (ℕ × TagId) × TagTable :=
  match splitParentLeaf newName with
  | none => ((1, id), t)
  | some (newParentPath, newLeaf) =>
    let parent := t.getOrCreateTagChain newParentPath .null
    let newRel := makeRelativeName parent.1 newLeaf
    let source := parent.2.renameSource id oldName
    if source = .null then ((1, id), parent.2)
    else
      match parent.2.infos.lookup source with
      | none => ((1, id), parent.2)
      | some info => ((0, source), parent.2.moveTag source info.tagName newRel)

/-- The flat branch of `RenameTag`. -/
def renameFlat (oldName newName : String) : (ℕ × TagId) × TagTable :=
  let bound := t.names.lookup oldName
  let target := if id = .null then bound.getD .null else id
  let names := match bound with
    | none => t.names
    | some b => (t.names.erase oldName).insert newName b
  let moved : TagTable := { t with names := names, search := searchRename t.search oldName newName }
  ((0, target), if target = .null then moved else moved.setTagName target newName)

/-- `RenameTag`: return code and id of the reply, and the table. -/
def renameTag (oldName newName : String) : (ℕ × TagId) × TagTable :=
  if oldName = "" ∨ newName = "" then ((1, id), t)
  else if oldName = newName then ((0, id), t)
  else if isHierPath oldName ∧ isHierPath newName then t.renamePath id oldName newName
  else t.renameFlat id oldName newName

/-! ## GetOrCreateTagAlias -/

/-- Phase A of `GetOrCreateTagAlias`: the tag the alias is for. -/
def aliasTarget (existingName : String) : TagId :=
  if id = .null ∧ existingName ≠ "" then
    let byPath := if isHierPath existingName then t.resolvePathToId existingName else .null
    if byPath = .null then (t.names.lookup existingName).getD .null else byPath
  else id

/-- The key of an alias, and the table in which its parent exists; none for the root. -/
def aliasKey (aliasName : String) : Option (String × TagTable) :=
  if isHierPath aliasName then
    match splitParentLeaf aliasName with
    | none => none
    | some (parentPath, leaf) =>
      let parent := t.getOrCreateTagChain parentPath .null
      some (makeRelativeName parent.1 leaf, parent.2)
  else some (aliasName, t)

/-- Phase C of `GetOrCreateTagAlias` for a key that is not bound. -/
def bindAlias (key : String) : TagTable :=
  let bound : TagTable :=
    { t with names := t.names.insert key id, search := t.search.insert (t.resolveTagName key) id }
  match t.infos.lookup id with
  | none => bound
  | some info =>
    if key = info.tagName ∨ key ∈ info.aliases then bound
    else { bound with infos := t.infos.insert id { info with aliases := info.aliases ++ [key] } }

/-- `GetOrCreateTagAlias`: return code, `found_` and id of the reply, and the table. -/
def getOrCreateTagAlias (existingName aliasName : String) : (ℕ × Bool × TagId) × TagTable :=
  if aliasName = "" then ((1, false, id), t)
  else
    let target := t.aliasTarget id existingName
    if target = .null ∨ ¬ t.Has target then ((0, false, .null), t)
    else
      match t.aliasKey aliasName with
      | none => ((1, true, id), t)
      | some (key, t) =>
        match t.names.lookup key with
        | some existing => ((0, true, existing), t)
        | none => ((0, true, target), t.bindAlias target key)

/-! ## DelTag -/

/-- Step 1 of `DelTag`: the tag and the key it was found under (none is the empty string); none if
there is no such tag. -/
def delTarget : Option (TagId × String) :=
  if id ≠ .null then some (id, "")
  else if name = "" then none
  else
    let lookup (key : String) : Option (TagId × String) :=
      (t.names.lookup key).map fun id => (id, key)
    let byPath :=
      if isHierPath name then
        if name = "/" then lookup "/"
        else
          match splitParentLeaf name with
          | none => none
          | some (parentPath, leaf) =>
            let parent := t.resolvePathToId parentPath
            if parent = .null then none else lookup (makeRelativeName parent leaf)
      else none
    ((byPath.filter fun r => r.1 ≠ .null).or (lookup name)).filter fun r => r.1 ≠ .null

/-- The parent that the canonical name of a tag names. -/
def parentOf : Option TagId :=
  (t.infos.lookup id).bind fun info => (parseTagRef info.tagName).map Prod.fst

/-- The ancestors below the root, from the parent of the stored name upwards. -/
def ancestorChain (t : TagTable) : ℕ → String → Option (List TagId)
  | 0, _ => none
  | n + 1, name =>
    match parseTagRef name with
    | none => some []
    | some (parent, _) =>
      if t.names.lookup "/" = some parent ∧ parent ≠ .null then some []
      else
        match t.infos.lookup parent with
        | none => some []
        | some info => (t.ancestorChain n info.tagName).map (parent :: ·)

/-- The tags whose canonical name names this parent. -/
def children : List TagId :=
  t.infos.keys.filter fun child => t.parentOf child = some id

/-- `TagInfo` of a tag loses an alias. -/
def setAliases (f : List String → List String) : TagTable :=
  match t.infos.lookup id with
  | none => t
  | some info => { t with infos := t.infos.insert id { info with aliases := f info.aliases } }

/-- The unlinking of an alias. -/
def unlinkAlias (key : String) : TagTable :=
  let unbound : TagTable := { t with names := t.names.erase key }
  (unbound.searchDelete [t.resolveTagName key]).setAliases id fun aliases => aliases.erase key

/-- The unlinking of the canonical name: the first alias takes its place. -/
def promoteAlias (key newCanonical : String) : TagTable :=
  let unbound : TagTable := { t with names := t.names.erase key }
  ((unbound.searchDelete [t.resolveTagName key]).setAliases id List.tail).setTagName id newCanonical

/-- What `DelTag` does to a tag that goes, apart from its blobs: all its names, the tag itself, and
a record in the log. -/
def dropTag : TagTable :=
  let info := (t.infos.lookup id).getD ⟨"", 0, []⟩
  let keys := (if info.tagName = "" then [] else [info.tagName]) ++ info.aliases
  { t with
    names := keys.foldl (fun names key => names.erase key) t.names
    infos := t.infos.erase id
    log := t.log ++ [.delTag info.tagName id] }

/-- Step 7b of `DelTag`: ancestors without a child go too, from the bottom up. -/
def pruneAncestors (t : TagTable) : List TagId → TagTable
  | [] => t
  | anc :: ancs =>
    match t.infos.lookup anc with
    | none => t.pruneAncestors ancs
    | some info =>
      if t.children anc = [] then
        ((t.dropTag anc).searchDelete [t.resolveTagName info.tagName]).pruneAncestors ancs
      else t

/-- What `DelTag` has decided to do. -/
inductive DelPlan
  /-- There is no such tag. -/
  | notFound (id : TagId)
  /-- Drop a name that is not the canonical one. -/
  | unlink (id : TagId) (key : String)
  /-- Drop the canonical name of a tag with other names. -/
  | promote (id : TagId) (key newCanonical : String)
  /-- Delete the tags, then those ancestors that have become empty. -/
  | cascade (id : TagId) (canonical : String) (toDelete ancestors : List TagId)
deriving DecidableEq

/-- The decisions of `DelTag`.  The loops over ancestors and descendants get `fuel` iterations each.
-/
def delPlan (fuel : ℕ) (id : TagId) (name : String) (posixUnlink : Bool) :
    Option DelPlan :=
  match t.delTarget id name with
  | none => some (.notFound id)
  | some (id, key) =>
    match t.infos.lookup id with
    | none => some (.notFound id)
    | some info =>
      (t.ancestorChain fuel info.tagName).bind fun ancestors =>
        if key ≠ "" ∧ key ≠ info.tagName then some (.unlink id key)
        else
          match if posixUnlink ∧ key ≠ "" then info.aliases.head? else none with
          | some new => some (.promote id key new)
          | none => (Forest.traverse t.children fuel [id]).map fun toDelete =>
            .cascade id info.tagName toDelete ancestors

/-- The entries of the index that a deletion removes. -/
def deadEntries (canonical : String) (toDelete : List TagId) : List String :=
  let abs := t.resolveTagName canonical
  let aliases := toDelete.flatMap fun id => ((t.infos.lookup id).getD ⟨"", 0, []⟩).aliases
  abs :: t.searchBelow abs ++ aliases.map t.resolveTagName

/-- Steps 7 and 7b of `DelTag`. -/
def dropTags (toDelete ancestors : List TagId) : TagTable :=
  (toDelete.foldl dropTag t).pruneAncestors ancestors

/-- `DelTag` on the tag table: return code and id of the reply, and the table; none if the loops
need more than `fuel` iterations. -/
def delTag (fuel : ℕ) (id : TagId) (name : String) (posixUnlink : Bool) :
    Option ((ℕ × TagId) × TagTable) :=
  (t.delPlan fuel id name posixUnlink).map fun
    | .notFound id => ((1, id), t)
    | .unlink id key => ((0, id), t.unlinkAlias id key)
    | .promote id key new => ((0, id), t.promoteAlias id key new)
    | .cascade id canonical toDelete ancestors =>
      ((0, id), (t.searchDelete (t.deadEntries canonical toDelete)).dropTags toDelete ancestors)

end TagTable

/-! ## Operations -/

/-- The tasks on tags. -/
inductive TagTask
  | getOrCreate (name : String) (preferred : TagId)
  | rename (id : TagId) (oldName newName : String)
  | getOrCreateAlias (id : TagId) (existingName aliasName : String)
  | del (id : TagId) (name : String) (posixUnlink : Bool)
deriving DecidableEq

/-- The table after a task; none if the task needs more than `fuel` iterations of a loop. -/
def TagTask.run (fuel : ℕ) (t : TagTable) : TagTask → Option TagTable
  | .getOrCreate name preferred => some (t.getOrCreateTag name preferred).2
  | .rename id oldName newName => some (t.renameTag id oldName newName).2
  | .getOrCreateAlias id existingName aliasName =>
    some (t.getOrCreateTagAlias id existingName aliasName).2
  | .del id name posixUnlink => (t.delTag fuel id name posixUnlink).map Prod.snd

end ClioCore.Cte
