import ClioCore.Ec.ReedSolomon

/-!
# The striped array (`ec/ec_array.h`)

An `EcArray` maps `k` data members and up to `mMax` parity members onto a Reed–Solomon code.  The
array is sliced into stripes: stripe `s` occupies bytes `[s * shardLen, (s + 1) * shardLen)` on
every member.

The source holds its members by non-owning pointers to abstract `MemberStore`s.  Here a pointer is a
natural number and the stores live in a heap `ℕ → σ`, so that two members may alias and a store may
outlive its membership, as in the source.  `MemberStore` is the source's interface and
`LawfulMemberStore` the contract of a store that accepts in-range I/O; `MemoryStore` is the
in-memory implementation and satisfies it.

* `collectSurvivors` is the member walk of `ReconstructStripeData`; `collectSurvivors_spec` says
  what it gathers.
* `Codeword` is the array invariant: every active member holds its generator-row image of the
  logical contents of every stripe.
* `readStripeData_eq`, `readDataShard_eq` and `reconstructStripeData_eq` read the logical contents
  back from the invariant.
-/

namespace ClioCore.Ec

open Foundations List Function ReedSolomon Nat

variable {i s p : ℕ} {exclude : Option ℕ} {data : List (List UInt8)}

/-! ## Member stores -/

/-- Abstract byte-addressable member device. -/
class MemberStore (σ : Type) where
  /-- Read `len` bytes at `offset`; `none` on failure. -/
  read : σ → ℕ → ℕ → Option (List UInt8)
  /-- Write `len` bytes of the buffer at `offset`; `none` on failure. -/
  write : σ → ℕ → ℕ → List UInt8 → Option σ
  /-- Total capacity in bytes. -/
  capacity : σ → ℕ

open MemberStore (capacity)

/-- A store that accepts in-range I/O: in range, reads and writes succeed, a write is read back, and
bytes outside the written range keep their value. -/
class LawfulMemberStore (σ : Type) [MemberStore σ] : Prop where
  capacity_lt (s : σ) : capacity s < 2 ^ 64
  read_inRange (s : σ) (offset len : ℕ) (h : offset + len ≤ capacity s) :
    ∃ out, MemberStore.read s offset len = some out ∧ out.length = len
  write_inRange (s : σ) (offset len : ℕ) (inp : List UInt8) (hinp : inp.length = len)
    (h : offset + len ≤ capacity s) :
    ∃ s', MemberStore.write s offset len inp = some s' ∧
      capacity s' = capacity s ∧
      MemberStore.read s' offset len = some inp ∧
      ∀ offset' len', offset' + len' ≤ capacity s →
        (offset' + len' ≤ offset ∨ offset + len ≤ offset') →
        MemberStore.read s' offset' len' = MemberStore.read s offset' len'

/-- Simple in-memory store; its size is a `uint64_t`. -/
structure MemoryStore where
  buf : List UInt8
  size_lt : buf.length < 2 ^ 64

namespace MemoryStore

/-- A store of `capacity` zero bytes. -/
def ofCapacity (capacity : ℕ) (h : capacity < 2 ^ 64) : MemoryStore :=
  ⟨List.replicate capacity 0, by rwa [length_replicate]⟩

-- The bounds test adds in 64 bits, as `offset + len > buf_.size()` does.
instance : MemberStore MemoryStore where
  read s offset len :=
    if s.buf.length < (offset + len) % 2 ^ 64 then none else some ((s.buf.drop offset).take len)
  write s offset len inp :=
    if s.buf.length < (offset + len) % 2 ^ 64 then none
    else some ⟨s.buf.mapIdx fun i b =>
      if offset ≤ i ∧ i < offset + len then inp.getD (i - offset) 0 else b,
      by rw [length_mapIdx]; exact s.size_lt⟩
  capacity s := s.buf.length

lemma read_inRange {s : MemoryStore} {offset len : ℕ} (h : offset + len ≤ s.buf.length) :
    MemberStore.read s offset len = some ((s.buf.drop offset).take len) := by
  have hlt := s.size_lt
  simp only [MemberStore.read]
  rw [if_neg (by omega)]

lemma getElem?_take_drop (l : List UInt8) (offset len i : ℕ) :
    ((l.drop offset).take len)[i]? = if i < len then l[offset + i]? else none := by
  by_cases hi : i < len
  · rw [getElem?_take_of_lt hi, getElem?_drop, if_pos hi]
  · rw [if_neg hi, getElem?_take_eq_none (by omega)]

instance : LawfulMemberStore MemoryStore where
  capacity_lt s := s.size_lt
  read_inRange s offset len h := by
    refine ⟨_, read_inRange h, ?_⟩
    have h' : offset + len ≤ s.buf.length := h
    rw [length_take, length_drop]
    omega
  write_inRange s offset len inp hinp h := by
    have h' : offset + len ≤ s.buf.length := h
    have hlt := s.size_lt
    have hmod : (offset + len) % 2 ^ 64 = offset + len := Nat.mod_eq_of_lt (by omega)
    set s' : MemoryStore := ⟨s.buf.mapIdx fun i b =>
      if offset ≤ i ∧ i < offset + len then inp.getD (i - offset) 0 else b,
      by rw [length_mapIdx]; exact hlt⟩ with hs'
    have hlen : s'.buf.length = s.buf.length := by rw [hs', length_mapIdx]
    have hwrite : MemberStore.write s offset len inp = some s' := by
      simp only [MemberStore.write]
      rw [hmod, if_neg (by omega)]
    refine ⟨s', hwrite, hlen, ?_, ?_⟩
    · rw [read_inRange (by omega)]
      congr 1
      apply ext_getElem?
      intro i
      rw [getElem?_take_drop]
      by_cases hi : i < len
      · rw [if_pos hi, hs', List.getElem?_mapIdx, List.getElem?_eq_getElem (by omega),
          List.getElem?_eq_getElem (by omega), Option.map_some,
          if_pos ⟨Nat.le_add_right _ _, by omega⟩, Nat.add_sub_cancel_left,
          getD_eq_getElem _ _ (by omega)]
      · rw [if_neg hi, List.getElem?_eq_none (by omega)]
    · intro offset' len' hr hdisj
      have hr' : offset' + len' ≤ s.buf.length := hr
      rw [read_inRange (by omega), read_inRange hr']
      congr 1
      apply ext_getElem?
      intro i
      rw [getElem?_take_drop, getElem?_take_drop]
      by_cases hi : i < len'
      · rw [if_pos hi, if_pos hi, hs', List.getElem?_mapIdx, List.getElem?_eq_getElem (by omega),
          Option.map_some, if_neg (by omega)]
      · rw [if_neg hi, if_neg hi]

end MemoryStore

/-! ## The array -/

/-- Member role within the array. -/
inductive EcRole
  | data
  | parity
deriving DecidableEq, Inhabited

/-- Member availability. -/
inductive EcState
  | active
  | faulty
  | removed
deriving DecidableEq, Inhabited

/-- One member of the array. -/
structure EcMember where
  /-- Pointer to the member's store. -/
  store : ℕ
  role : EcRole
  state : EcState
  /-- Data column or parity row. -/
  index : ℕ
deriving DecidableEq, Inhabited

/-- The array object: geometry, parity level and members, data members first and parity members in
the order they were added. -/
structure EcArray where
  shardLen : ℕ
  numStripes : ℕ
  k : ℕ
  mMax : ℕ
  parityLevel : ℕ
  members : List EcMember
deriving DecidableEq

namespace EcArray

/-- The constructor: `k` active data members over the given stores. -/
def create (shardLen numStripes k mMax : ℕ) (dataStores : List ℕ) : EcArray where
  shardLen := shardLen
  numStripes := numStripes
  k := k
  mMax := mMax
  parityLevel := 0
  members := (List.range k).map fun c => ⟨dataStores.getD c 0, .data, .active, c⟩

variable (a : EcArray)

/-- The array's code. -/
def rs : ReedSolomon := ⟨a.k, a.mMax⟩

/-- `members_[i]`. -/
def member (i : ℕ) : EcMember := a.members.getD i default

/-- Index of the parity member for row `r`. -/
def parityMemberIndex (r : ℕ) : ℕ := a.k + r

/-- Byte offset of a stripe on every member. -/
def stripeOffset (stripe : ℕ) : ℕ := stripe * a.shardLen % 2 ^ 64

/-- The shard index a member stands for in the code. -/
def globalIndex (m : EcMember) : ℕ :=
  match m.role with
  | .data => m.index
  | .parity => a.k + m.index

section Operations

variable {σ : Type} [MemberStore σ]

/-- `store->Write(offset, shard_len_, shard)` on the store at address `p`. -/
def storeShard (heap : ℕ → σ) (p offset : ℕ) (shard : List UInt8) : (ℕ → σ) × Bool :=
  match MemberStore.write (heap p) offset a.shardLen shard with
  | some st => (Function.update heap p st, true)
  | none => (heap, false)

/-- Store a shard on a member if the member is active; an inactive member is skipped. -/
def writeMember (heap : ℕ → σ) (i offset : ℕ) (shard : List UInt8) : (ℕ → σ) × Bool :=
  if (a.member i).state = .active then a.storeShard heap (a.member i).store offset shard
  else (heap, true)

/-- Compute and write all active parity rows for a stripe given its data. -/
def writeParityForStripe (heap : ℕ → σ) (stripe : ℕ) (dataShards : List (List UInt8)) :
    (ℕ → σ) × Bool :=
  if a.parityLevel = 0 then (heap, true)
  else
    loopWhile (fun heap r => a.writeMember heap (a.parityMemberIndex r) (a.stripeOffset stripe)
      (a.rs.encodeParityShard r dataShards a.shardLen)) (List.range a.parityLevel) heap

/-- Write one stripe: the data shards on the active data members, then the parity rows. -/
def writeStripe (heap : ℕ → σ) (stripe : ℕ) (dataShards : List (List UInt8)) : (ℕ → σ) × Bool :=
  if a.numStripes ≤ stripe ∨ dataShards.length ≠ a.k then (heap, false)
  else
    match loopWhile (fun heap c => a.writeMember heap c (a.stripeOffset stripe)
        (dataShards.getD c [])) (List.range a.k) heap with
    | (heap', true) => a.writeParityForStripe heap' stripe dataShards
    | (heap', false) => (heap', false)

/-- The shard of a stripe that a store holds. -/
def shardIn (store : σ) (stripe : ℕ) : Option (List UInt8) :=
  MemberStore.read store (a.stripeOffset stripe) a.shardLen

/-- The member walk of `ReconstructStripeData`: read the active members in order, skipping
`exclude`, until `k` shards are gathered.  `none` if a member's store fails to read. -/
def collectSurvivors (heap : ℕ → σ) (stripe : ℕ) (exclude : Option ℕ) :
    List (EcMember × ℕ) → List ℕ × List (List UInt8) → Option (List ℕ × List (List UInt8))
  | [], acc => some acc
  | (m, i) :: rest, acc =>
    if exclude = some i then collectSurvivors heap stripe exclude rest acc
    else if m.state ≠ .active then collectSurvivors heap stripe exclude rest acc
    else
      match a.shardIn (heap m.store) stripe with
      | none => none
      | some buf =>
        let acc' := (acc.1 ++ [a.globalIndex m], acc.2 ++ [buf])
        if acc'.1.length = a.k then some acc'
        else collectSurvivors heap stripe exclude rest acc'

/-- Reconstruct all `k` data shards of a stripe from the active members, optionally excluding one
member (used during its own recovery). -/
def reconstructStripeData (heap : ℕ → σ) (stripe : ℕ) (exclude : Option ℕ) :
    Option (List (List UInt8)) :=
  match a.collectSurvivors heap stripe exclude a.members.zipIdx ([], []) with
  | none => none
  | some (survivorIndex, survivorBuf) =>
    if survivorIndex.length < a.k then none
    else a.rs.decodeData survivorIndex survivorBuf a.shardLen

/-- Read the `k` data shards of a stripe, reconstructing if a data member is not active. -/
def readStripeData (heap : ℕ → σ) (stripe : ℕ) : Option (List (List UInt8)) :=
  if a.numStripes ≤ stripe then none
  else if (List.range a.k).all (fun c => (a.member c).state = .active) then
    (List.range a.k).mapM fun c => a.shardIn (heap (a.member c).store) stripe
  else a.reconstructStripeData heap stripe none

/-- Read a single data shard, reconstructing if needed. -/
def readDataShard (heap : ℕ → σ) (stripe c : ℕ) : Option (List UInt8) :=
  if (a.member c).state = .active then a.shardIn (heap (a.member c).store) stripe
  else (a.reconstructStripeData heap stripe none).map fun data => data.getD c []

/-- One stripe of `AddParityDrive`: read the stripe and store its row `r` on the new drive. -/
def addParityStripe (store r : ℕ) (heap : ℕ → σ) (s : ℕ) : (ℕ → σ) × Bool :=
  match a.readStripeData heap s with
  | none => (heap, false)
  | some data =>
    a.storeShard heap store (a.stripeOffset s) (a.rs.encodeParityShard r data a.shardLen)

/-- Append a parity member for the next row. -/
def pushParity (store : ℕ) : EcArray :=
  { a with members := a.members ++ [⟨store, .parity, .active, a.parityLevel⟩] }

/-- Add a parity drive: compute the single new parity row for every stripe.  The new member is in
the list while the stripes are read; it is popped again if one of them fails.  `none` is `-1`. -/
def addParityDrive (heap : ℕ → σ) (store : ℕ) : EcArray × (ℕ → σ) × Option ℕ :=
  if a.mMax ≤ a.parityLevel then (a, heap, none)
  else
    let r := a.parityLevel
    match loopWhile ((a.pushParity store).addParityStripe store r)
      (List.range a.numStripes) heap with
    | (heap', true) => ({ a.pushParity store with parityLevel := r + 1 }, heap', some (r + 1))
    | (heap', false) => (a, heap', none)

/-- Assign to `members_[i]`. -/
def replaceMember (i : ℕ) (m : EcMember) : EcArray := { a with members := a.members.set i m }

/-- Seat a store under member `i` and bring the member online. -/
def seat (i newStore : ℕ) : EcArray :=
  a.replaceMember i ⟨newStore, (a.member i).role, .active, (a.member i).index⟩

/-- Set the state of a member. -/
def setState (i : ℕ) (state : EcState) : EcArray :=
  a.replaceMember i { a.member i with state := state }

/-- Mark a member faulty. -/
def markFaulty (memberIndex : ℕ) : EcArray := a.setState memberIndex .faulty

/-- Remove a member; if `wasFaulty` it stays a recovery candidate. -/
def removeDrive (memberIndex : ℕ) (wasFaulty : Bool) : EcArray :=
  a.setState memberIndex (if wasFaulty then .faulty else .removed)

/-- The shard a member stores for a stripe with the given data. -/
def memberShard (m : EcMember) (data : List (List UInt8)) : List UInt8 :=
  match m.role with
  | .data => data.getD m.index []
  | .parity => a.rs.encodeParityShard m.index data a.shardLen

/-- One stripe of `RecoverMember`: reconstruct the stripe without the member and store the member's
shard on the new store. -/
def recoverStripe (memberIndex newStore : ℕ) (heap : ℕ → σ) (s : ℕ) : (ℕ → σ) × Bool :=
  match a.reconstructStripeData heap s (some memberIndex) with
  | none => (heap, false)
  | some data =>
    a.storeShard heap newStore (a.stripeOffset s) (a.memberShard (a.member memberIndex) data)

/-- Reconstruct a member's shards onto `newStore` and bring it back online. -/
def recoverMember (heap : ℕ → σ) (memberIndex newStore : ℕ) : EcArray × (ℕ → σ) × Bool :=
  match loopWhile (a.recoverStripe memberIndex newStore) (List.range a.numStripes) heap with
  | (heap', true) => (a.seat memberIndex newStore, heap', true)
  | (heap', false) => (a, heap', false)

end Operations

/-! ## Which members a reconstruction reads -/

/-- The members the walk considers: active and not excluded. -/
def eligible (exclude : Option ℕ) (x : EcMember × ℕ) : Bool :=
  exclude ≠ some x.2 ∧ x.1.state = .active

/-- The shard indices of all members a reconstruction may read, in member order. -/
def survivors (exclude : Option ℕ) : List ℕ :=
  (a.members.zipIdx.filter (eligible exclude)).map fun x => a.globalIndex x.1

/-- Number of members that are not active. -/
def downCount : ℕ := a.members.countP fun m => m.state ≠ .active

variable {a}

/-- Positions are shard indices: data members first, then the parity rows in order. -/
structure WellFormed (a : EcArray) : Prop where
  length_members : a.members.length = a.k + a.parityLevel
  parityLevel_le : a.parityLevel ≤ a.mMax
  data_member : ∀ i < a.k, (a.member i).role = .data ∧ (a.member i).index = i
  parity_member : ∀ r < a.parityLevel,
    (a.member (a.k + r)).role = .parity ∧ (a.member (a.k + r)).index = r

lemma WellFormed.globalIndex_member (h : a.WellFormed) (hi : i < a.members.length) :
    a.globalIndex (a.member i) = i := by
  rw [h.length_members] at hi
  by_cases hik : i < a.k
  · obtain ⟨hrole, hix⟩ := h.data_member i hik
    simp [globalIndex, hrole, hix]
  · obtain ⟨hrole, hix⟩ := h.parity_member (i - a.k) (by omega)
    rw [Nat.add_sub_cancel' (not_lt.mp hik)] at hrole hix
    simp only [globalIndex, hrole, hix]
    omega

lemma WellFormed.memberShard_member (h : a.WellFormed) (hi : i < a.members.length)
    (data : List (List UInt8)) :
    a.memberShard (a.member i) data = a.rs.shardOf data a.shardLen i := by
  rw [h.length_members] at hi
  by_cases hik : i < a.k
  · obtain ⟨hrole, hix⟩ := h.data_member i hik
    simp [memberShard, hrole, hix, shardOf, rs, hik]
  · obtain ⟨hrole, hix⟩ := h.parity_member (i - a.k) (by omega)
    rw [Nat.add_sub_cancel' (not_lt.mp hik)] at hrole hix
    simp [memberShard, hrole, hix, shardOf, rs, hik]

lemma mem_zipIdx_members {x : EcMember × ℕ} :
    x ∈ a.members.zipIdx ↔ x.2 < a.members.length ∧ x.1 = a.member x.2 := by
  rw [mem_zipIdx_iff_getElem?, member, getD_eq_getElem?_getD]
  constructor
  · intro h
    obtain ⟨hlt, heq⟩ := List.getElem?_eq_some_iff.mp h
    exact ⟨hlt, by rw [h, Option.getD_some]⟩
  · rintro ⟨hlt, heq⟩
    rw [heq, getElem?_eq_getElem hlt, Option.getD_some]

lemma WellFormed.survivors_eq (h : a.WellFormed) (exclude : Option ℕ) :
    a.survivors exclude = (a.members.zipIdx.filter (eligible exclude)).map Prod.snd := by
  apply map_congr_left
  intro x hx
  obtain ⟨hlt, heq⟩ := mem_zipIdx_members.mp (mem_of_mem_filter hx)
  rw [heq, h.globalIndex_member hlt]

lemma WellFormed.mem_survivors (h : a.WellFormed) {g : ℕ} : g ∈ a.survivors exclude ↔
      g < a.members.length ∧ exclude ≠ some g ∧ (a.member g).state = .active := by
  rw [h.survivors_eq, mem_map]
  constructor
  · rintro ⟨x, hx, rfl⟩
    rw [mem_filter, mem_zipIdx_members, eligible, decide_eq_true_eq] at hx
    obtain ⟨⟨hlt, heq⟩, hex, hact⟩ := hx
    exact ⟨hlt, hex, heq ▸ hact⟩
  · rintro ⟨hlt, hex, hact⟩
    refine ⟨(a.member g, g), ?_, rfl⟩
    rw [mem_filter, mem_zipIdx_members, eligible, decide_eq_true_eq]
    exact ⟨⟨hlt, rfl⟩, hex, hact⟩

/-- Excluding a member that is down, or none, leaves every active member to read. -/
lemma length_survivors (exclude : Option ℕ)
    (hex : ∀ i < a.members.length, exclude = some i → (a.member i).state ≠ .active) :
    (a.survivors exclude).length + a.downCount = a.members.length := by
  have hfil : a.members.zipIdx.filter (eligible exclude)
      = a.members.zipIdx.filter ((fun m : EcMember => decide (m.state = .active)) ∘ Prod.fst) := by
    apply filter_congr
    intro x hx
    obtain ⟨hlt, heq⟩ := mem_zipIdx_members.mp hx
    simp only [eligible, comp_apply, decide_eq_decide]
    constructor
    · exact fun h => h.2
    · exact fun h => ⟨fun hi => hex x.2 hlt hi (heq ▸ h), h⟩
  rw [survivors, length_map, hfil, ← countP_eq_length_filter, ← countP_map,
    zipIdx_map_fst, downCount]
  have h := length_eq_countP_add_countP (fun m : EcMember => decide (m.state = .active))
    (l := a.members)
  simp only [decide_eq_true_eq, ne_eq] at h ⊢
  omega

/-! ## The array invariant -/

section Invariant

variable {σ : Type} [MemberStore σ]

/-- Member `i` holds its shard of stripe `s`. -/
def HoldsShard (a : EcArray) (heap : ℕ → σ) (data : List (List UInt8)) (s i : ℕ) : Prop :=
  a.shardIn (heap (a.member i).store) s = some (a.rs.shardOf data a.shardLen i)

/-- **The code-word invariant.**  `contents s` are the logical data shards of stripe `s`; every
active member holds its generator-row image of them. -/
structure Codeword (a : EcArray) (heap : ℕ → σ) (contents : ℕ → List (List UInt8)) : Prop where
  wellFormed : a.WellFormed
  store_inj : ∀ i < a.members.length, ∀ j < a.members.length, (a.member i).state = .active →
    (a.member j).state = .active → (a.member i).store = (a.member j).store → i = j
  room : ∀ i < a.members.length, (a.member i).state = .active →
    a.numStripes * a.shardLen ≤ capacity (heap (a.member i).store)
  length_contents : ∀ s < a.numStripes, (contents s).length = a.k
  length_shard : ∀ s < a.numStripes, ∀ d ∈ contents s, d.length = a.shardLen
  holds : ∀ s < a.numStripes, ∀ i < a.members.length, (a.member i).state = .active →
    a.HoldsShard heap (contents s) s i

/-- What the walk gathers when every member it reads holds its shard: the shards of a prefix of
the survivors, stopped at `k` or complete. -/
lemma collectSurvivors_spec (heap : ℕ → σ) (s : ℕ) {shard : ℕ → List UInt8}
    (l : List (EcMember × ℕ)) (hrd : ∀ x ∈ l, eligible exclude x → a.shardIn (heap x.1.store) s
      = some (shard (a.globalIndex x.1)))
    (acc : List ℕ × List (List UInt8)) :
    ∃ idx, a.collectSurvivors heap s exclude l acc = some (acc.1 ++ idx, acc.2 ++ idx.map shard) ∧
      idx <+: (l.filter (eligible exclude)).map (fun x => a.globalIndex x.1) ∧
      (a.k ≤ (acc.1 ++ idx).length ∨
        idx = (l.filter (eligible exclude)).map (fun x => a.globalIndex x.1)) := by
  induction l generalizing acc with
  | nil => exact ⟨[], by simp [collectSurvivors], by simp, Or.inr rfl⟩
  | cons x l ih =>
    obtain ⟨m, i⟩ := x
    have hrs := ih (fun x hx => hrd x (by simp [hx]))
    by_cases hel : eligible exclude (m, i)
    · rw [filter_cons_of_pos hel, map_cons]
      have hr := hrd (m, i) (by simp) hel
      rw [eligible, decide_eq_true_eq] at hel
      rw [collectSurvivors, if_neg hel.1, if_neg (not_not.mpr hel.2), hr]
      simp only []
      by_cases hk : (acc.1 ++ [a.globalIndex m]).length = a.k
      · rw [if_pos hk]
        exact ⟨[a.globalIndex m], rfl, by simp, Or.inl hk.ge⟩
      · rw [if_neg hk]
        obtain ⟨idx, hcol, hpre, hend⟩ := hrs (acc.1 ++ [a.globalIndex m],
          acc.2 ++ [shard (a.globalIndex m)])
        refine ⟨a.globalIndex m :: idx, ?_, ?_, ?_⟩
        · rw [hcol]
          simp
        · exact (prefix_cons_inj _).mpr hpre
        · rcases hend with hend | hend
          · left
            simpa using hend
          · right
            rw [hend]
    · rw [filter_cons_of_neg hel]
      have hskip : a.collectSurvivors heap s exclude ((m, i) :: l) acc
          = a.collectSurvivors heap s exclude l acc := by
        rw [collectSurvivors]
        by_cases hex : exclude = some i
        · rw [if_pos hex]
        · have hst : m.state ≠ .active := fun h => hel (decide_eq_true ⟨hex, h⟩)
          rw [if_neg hex, if_pos hst]
      rw [hskip]
      exact hrs acc

/-- The indices and buffers a reconstruction decodes from. -/
lemma collectSurvivors_members {heap : ℕ → σ} (hwf : a.WellFormed)
    (hhd : ∀ i ∈ a.survivors exclude, a.HoldsShard heap data s i) :
    ∃ idx, a.collectSurvivors heap s exclude a.members.zipIdx ([], [])
        = some (idx, idx.map (a.rs.shardOf data a.shardLen)) ∧
      idx <+: a.survivors exclude ∧ (a.k ≤ idx.length ∨ idx = a.survivors exclude) := by
  have h := collectSurvivors_spec heap s a.members.zipIdx (fun x hx hel => by
    obtain ⟨hlt, heq⟩ := mem_zipIdx_members.mp hx
    have hmem : x.2 ∈ a.survivors exclude := by
      rw [hwf.survivors_eq]
      exact mem_map.mpr ⟨x, mem_filter.mpr ⟨hx, hel⟩, rfl⟩
    rw [heq, hwf.globalIndex_member hlt]
    exact hhd x.2 hmem) ([], [])
  simpa only [nil_append, survivors] using h

/-- A reconstruction returns the stripe's contents when `k` members can be read, and fails
otherwise. -/
lemma reconstructStripeData_eq {heap : ℕ → σ} (hwf : a.WellFormed)
    (h256 : a.k + a.parityLevel ≤ 256)
    (hlen : data.length = a.k) (hshd : ∀ d ∈ data, d.length = a.shardLen)
    (hhd : ∀ i ∈ a.survivors exclude, a.HoldsShard heap data s i) :
    a.reconstructStripeData heap s exclude
      = if a.k ≤ (a.survivors exclude).length then some data else none := by
  obtain ⟨idx, hcol, hpre, hend⟩ := collectSurvivors_members hwf hhd
  rw [reconstructStripeData, hcol]
  simp only []
  by_cases hk : a.k ≤ (a.survivors exclude).length
  · have hidx : a.k ≤ idx.length := by
      rcases hend with hend | hend
      · exact hend
      · rwa [hend]
    rw [if_neg (not_lt.mpr hidx), if_pos hk]
    have hsub : (idx.take a.k).Sublist (a.survivors exclude) :=
      (take_sublist _ _).trans hpre.sublist
    obtain ⟨out, hout⟩ := a.rs.decodeData_total hwf.parityLevel_le h256 hidx
      (hsub.nodup (by
        rw [hwf.survivors_eq]
        apply Nodup.sublist (Sublist.map Prod.snd filter_sublist)
        rw [zipIdx_map_snd]
        exact nodup_range'))
      (fun g hg => by
        have hlt := (hwf.mem_survivors.mp (hsub.subset hg)).1
        rwa [hwf.length_members] at hlt)
      (idx.map (a.rs.shardOf data a.shardLen)) a.shardLen
    rw [hout, a.rs.decodeData_sound hlen hshd _ hout]
    intro i hi
    have hi' : i < idx.length := lt_of_lt_of_le hi hidx
    simp [hi']
  · rw [if_neg hk, if_pos]
    have hle := hpre.length_le
    omega

variable {heap : ℕ → σ} {contents : ℕ → List (List UInt8)}

lemma Codeword.holds_survivors (h : Codeword a heap contents) (hs : s < a.numStripes)
    (exclude : Option ℕ) : ∀ i ∈ a.survivors exclude, a.HoldsShard heap (contents s) s i := by
  intro i hi
  obtain ⟨hlt, _, hact⟩ := h.wellFormed.mem_survivors.mp hi
  exact h.holds s hs i hlt hact

/-- With at most `parityLevel` members down every stripe can be reconstructed. -/
lemma Codeword.reconstructStripeData_none (h : Codeword a heap contents)
    (h256 : a.k + a.parityLevel ≤ 256) (hdown : a.downCount ≤ a.parityLevel) (hs : s < a.numStripes)
    : a.reconstructStripeData heap s none = some (contents s) := by
  have hlen := length_survivors (a := a) none (by simp)
  rw [reconstructStripeData_eq h.wellFormed h256 (h.length_contents s hs) (h.length_shard s hs)
    (h.holds_survivors hs none), if_pos]
  have hmem := h.wellFormed.length_members
  omega

/-- The fast path: with every data member active the shards are read in place. -/
lemma readStripeData_of_active (hs : s < a.numStripes) (hlen : data.length = a.k)
    (hact : ∀ c < a.k, (a.member c).state = .active)
    (hrd : ∀ c < a.k, a.shardIn (heap (a.member c).store) s = some (data.getD c []))
    : a.readStripeData heap s = some data := by
  have hall : (range a.k).all (fun c => decide ((a.member c).state = .active)) = true := by
    rw [all_eq_true]
    intro c hc
    exact decide_eq_true (hact c (mem_range.mp hc))
  rw [readStripeData, if_neg (not_le.mpr hs), if_pos hall,
    mapM_eq_some_map _ (fun c => data.getD c []) _ (fun c hc => hrd c (mem_range.mp hc))]
  congr 1
  apply ext_getD []
  · rw [length_map, length_range, hlen]
  · intro i hi
    rw [length_map, length_range] at hi
    simp [hi]

lemma Codeword.read_data (h : Codeword a heap contents) {c : ℕ} (hs : s < a.numStripes)
    (hc : c < a.k) (hact : (a.member c).state = .active) :
    a.shardIn (heap (a.member c).store) s = some ((contents s).getD c []) := by
  have hlt : c < a.members.length := by rw [h.wellFormed.length_members]; omega
  have hrd := h.holds s hs c hlt hact
  rw [HoldsShard, shardOf, if_pos (show c < a.rs.k from hc)] at hrd
  exact hrd

section

variable (h : Codeword a heap contents) (h256 : a.k + a.parityLevel ≤ 256)
  (hdown : a.downCount ≤ a.parityLevel) (hs : s < a.numStripes)
include h h256 hdown hs

/-- **Reads are exact** with at most `parityLevel` members down. -/
lemma Codeword.readStripeData_eq : a.readStripeData heap s = some (contents s) := by
  by_cases hall : ∀ c < a.k, (a.member c).state = .active
  · exact readStripeData_of_active hs (h.length_contents s hs) hall
      (fun c hc => h.read_data hs hc (hall c hc))
  · have hnot : (range a.k).all (fun c => decide ((a.member c).state = .active)) ≠ true := by
      intro hc
      rw [all_eq_true] at hc
      exact hall (fun c hck => of_decide_eq_true (hc c (mem_range.mpr hck)))
    rw [readStripeData, if_neg (not_le.mpr hs), if_neg hnot]
    exact h.reconstructStripeData_none h256 hdown hs

lemma Codeword.readDataShard_eq {c : ℕ} (hc : c < a.k) :
    a.readDataShard heap s c = some ((contents s).getD c []) := by
  by_cases hact : (a.member c).state = .active
  · rw [readDataShard, if_pos hact, h.read_data hs hc hact]
  · rw [readDataShard, if_neg hact, h.reconstructStripeData_none h256 hdown hs, Option.map_some]

end

/-! ## Membership changes -/

lemma member_replaceMember (i j : ℕ) (m : EcMember) :
    (a.replaceMember i m).member j = if j = i ∧ i < a.members.length then m else a.member j := by
  rw [member, replaceMember, getD_set, member]

lemma length_replaceMember (i : ℕ) (m : EcMember) :
    (a.replaceMember i m).members.length = a.members.length := length_set

/-- Changing the store or the state of a member keeps positions and shard indices together. -/
lemma WellFormed.replaceMember (h : a.WellFormed) {m : EcMember}
    (hrole : m.role = (a.member i).role) (hix : m.index = (a.member i).index) :
    (a.replaceMember i m).WellFormed := by
  have hkp : ∀ j, ((a.replaceMember i m).member j).role = (a.member j).role ∧
      ((a.replaceMember i m).member j).index = (a.member j).index := by
    intro j
    rw [member_replaceMember]
    by_cases hj : j = i ∧ i < a.members.length
    · rw [if_pos hj, hj.1]
      exact ⟨hrole, hix⟩
    · rw [if_neg hj]
      exact ⟨rfl, rfl⟩
  refine ⟨?_, h.parityLevel_le, fun j hj => ?_, fun r hr => ?_⟩
  · rw [length_replaceMember]
    exact h.length_members
  · rw [(hkp j).1, (hkp j).2]
    exact h.data_member j hj
  · have hpm := h.parity_member r hr
    rw [← (hkp _).1, ← (hkp _).2] at hpm
    exact hpm

/-- Member `i` has a store of its own in `a'`, which holds its shards. -/
def HoldsMember (a a' : EcArray) (heap : ℕ → σ) (contents : ℕ → List (List UInt8)) (i : ℕ) : Prop :=
  (∀ j < a.members.length, j ≠ i → (a.member j).state = .active →
    (a.member j).store ≠ (a'.member i).store) ∧
  a.numStripes * a.shardLen ≤ capacity (heap (a'.member i).store) ∧
  ∀ s < a.numStripes, a.shardIn (heap (a'.member i).store) s
    = some (a.rs.shardOf (contents s) a.shardLen i)

/-- The active members are as before, but for one that has a store of its own. -/
lemma Codeword.of_members (h : Codeword a heap contents) {a' : EcArray}
    {ms : List EcMember} {lv : ℕ}
    {heap' : ℕ → σ} (ha' : a' = { a with members := ms, parityLevel := lv }) (hwf : a'.WellFormed)
    (hmb : ∀ j < a'.members.length, (a'.member j).state = .active →
      (j < a.members.length ∧ a'.member j = a.member j ∧
        heap' (a.member j).store = heap (a.member j).store) ∨
      j = i ∧ HoldsMember a a' heap' contents i) : Codeword a' heap' contents := by
  subst ha'
  refine ⟨hwf, ?_, ?_, h.length_contents, h.length_shard, ?_⟩
  · intro j hj l hl hactj hactl hsto
    by_cases hjl : j = l
    · exact hjl
    rcases hmb j hj hactj with ⟨hj', hmj, -⟩ | ⟨rfl, hown, -⟩
    · rw [hmj] at hactj hsto
      rcases hmb l hl hactl with ⟨hl', hml, -⟩ | ⟨rfl, hown, -⟩
      · rw [hml] at hactl hsto
        exact h.store_inj j hj' l hl' hactj hactl hsto
      · exact absurd hsto (hown j hj' hjl hactj)
    · rcases hmb l hl hactl with ⟨hl', hml, -⟩ | ⟨rfl, -⟩
      · rw [hml] at hactl hsto
        exact absurd hsto.symm (hown l hl' (Ne.symm hjl) hactl)
      · exact absurd rfl hjl
  · intro j hj hact
    rcases hmb j hj hact with ⟨hj', hmj, hhp⟩ | ⟨rfl, -, hrm, -⟩
    · rw [hmj] at hact ⊢
      rw [hhp]
      exact h.room j hj' hact
    · exact hrm
  · intro s hs j hj hact
    rcases hmb j hj hact with ⟨hj', hmj, hhp⟩ | ⟨rfl, -, -, hrd⟩
    · rw [hmj] at hact
      rw [HoldsShard, hmj, hhp]
      exact h.holds s hs j hj' hact
    · exact hrd s hs

/-- Taking a member out of service keeps the invariant. -/
lemma Codeword.setState (h : Codeword a heap contents) (i : ℕ) {state : EcState}
    (hstt : state ≠ .active) : Codeword (a.setState i state) heap contents := by
  -- A member that is active afterwards is one the operation did not touch.
  refine h.of_members rfl (h.wellFormed.replaceMember rfl rfl) (i := i) fun j hj hact => ?_
  rw [EcArray.setState, length_replaceMember] at hj
  rw [EcArray.setState, member_replaceMember] at hact ⊢
  by_cases hji : j = i ∧ i < a.members.length
  · rw [if_pos hji] at hact
    exact absurd hact hstt
  · rw [if_neg hji]
    exact .inl ⟨hj, rfl, rfl⟩

/-! ## What one write to a member changes -/

variable [LawfulMemberStore σ]

section

variable (hs : s < a.numStripes) (hrm : a.numStripes * a.shardLen ≤ capacity (heap p))
include hs hrm

lemma stripeOffset_eq : a.stripeOffset s = s * a.shardLen ∧
      s * a.shardLen + a.shardLen ≤ capacity (heap p) := by
  have hle : (s + 1) * a.shardLen ≤ a.numStripes * a.shardLen := mul_le_mul_right _ hs
  rw [succ_mul] at hle
  have hcap := LawfulMemberStore.capacity_lt (heap p)
  exact ⟨mod_eq_of_lt (by omega), by omega⟩

/-- Writing one shard of one stripe into a store: the stripe is read back, the other stripes keep
their bytes. -/
lemma storeShard_stripe {shard : List UInt8} (hshd : shard.length = a.shardLen) :
    ∃ st, a.storeShard heap p (a.stripeOffset s) shard = (update heap p st, true) ∧
      capacity st = capacity (heap p) ∧
      ∀ s' < a.numStripes, a.shardIn st s' = if s' = s then some shard
          else a.shardIn (heap p) s' := by
  obtain ⟨hoff, hin⟩ := stripeOffset_eq hs hrm
  obtain ⟨st, hw, hcap, hback, hfrm⟩ := LawfulMemberStore.write_inRange (heap p)
    (s * a.shardLen) a.shardLen shard hshd hin
  refine ⟨st, by rw [storeShard, hoff, hw], hcap, fun s' hs' => ?_⟩
  obtain ⟨hoff', hin'⟩ := stripeOffset_eq hs' hrm
  by_cases heq : s' = s
  · rw [if_pos heq, heq, shardIn, hoff, hback]
  · rw [if_neg heq, shardIn, shardIn, hoff', hfrm _ _ hin']
    rcases lt_or_gt_of_ne heq with hlt | hgt
    · left
      have := mul_le_mul_right a.shardLen hlt
      rw [succ_mul] at this
      exact this
    · right
      have := mul_le_mul_right a.shardLen hgt
      rw [succ_mul] at this
      exact this

end

/-- Progress of `WriteStripe`: members below `n` have stripe `s` replaced by the shards of `data`,
everything else is as it was in `heap`. -/
structure StripePut (a : EcArray) (heap : ℕ → σ) (s : ℕ) (data : List (List UInt8)) (n : ℕ)
    (heap' : ℕ → σ) : Prop where
  room : ∀ i < a.members.length, (a.member i).state = .active →
    a.numStripes * a.shardLen ≤ capacity (heap' (a.member i).store)
  read : ∀ s' < a.numStripes, ∀ i < a.members.length, (a.member i).state = .active →
    a.shardIn (heap' (a.member i).store) s'
      = if s' = s ∧ i < n then some (a.rs.shardOf data a.shardLen i)
        else a.shardIn (heap (a.member i).store) s'

lemma shardOf_length (hlen : data.length = a.k) (hshd : ∀ d ∈ data, d.length = a.shardLen) (i : ℕ) :
    (a.rs.shardOf data a.shardLen i).length = a.shardLen := by
  by_cases hi : i < a.rs.k
  · have hid : i < data.length := by rw [hlen]; exact hi
    rw [shardOf, if_pos hi, getD_eq_getElem _ _ hid]
    exact hshd _ (getElem_mem hid)
  · rw [shardOf, if_neg hi, encodeParityShard_length]

/-- One round of either loop of `WriteStripe`. -/
lemma StripePut.writeMember {heap' : ℕ → σ} {n : ℕ}
    (hinj : ∀ i < a.members.length, ∀ j < a.members.length, (a.member i).state = .active →
      (a.member j).state = .active → (a.member i).store = (a.member j).store → i = j)
    (hs : s < a.numStripes) (hlen : data.length = a.k) (hshd : ∀ d ∈ data, d.length = a.shardLen)
    (hn : n < a.members.length) (h : StripePut a heap s data n heap') :
    ∃ heap'', a.writeMember heap' n (a.stripeOffset s) (a.rs.shardOf data a.shardLen n)
      = (heap'', true) ∧ StripePut a heap s data (n + 1) heap'' := by
  by_cases hact : (a.member n).state = .active
  · obtain ⟨st, hw, hcap, hrd⟩ := storeShard_stripe hs (h.room n hn hact)
      (shardOf_length hlen hshd n)
    refine ⟨update heap' (a.member n).store st, ?_, ?_, ?_⟩
    · rw [EcArray.writeMember, if_pos hact, hw]
    · intro i hi hacti
      by_cases hin : (a.member i).store = (a.member n).store
      · rw [hin, update_self, hcap]
        exact h.room n hn hact
      · rw [update_of_ne hin]
        exact h.room i hi hacti
    · intro s' hs' i hi hacti
      by_cases hin : i = n
      · subst hin
        rw [update_self, hrd s' hs', h.read s' hs' i hi hact]
        by_cases hss : s' = s
        · rw [if_pos hss, if_pos ⟨hss, lt_succ_self i⟩]
        · rw [if_neg hss, if_neg (fun hc => hss hc.1), if_neg (fun hc => hss hc.1)]
      · have hne : (a.member i).store ≠ (a.member n).store :=
          fun heq => hin (hinj i hi n hn hacti hact heq)
        have hiff : (s' = s ∧ i < n) ↔ (s' = s ∧ i < n + 1) := by omega
        rw [update_of_ne hne, h.read s' hs' i hi hacti]
        simp [hiff]
  · refine ⟨heap', ?_, h.room, ?_⟩
    · rw [EcArray.writeMember, if_neg hact]
    · intro s' hs' i hi hacti
      have hin : i ≠ n := fun heq => hact (heq ▸ hacti)
      have hiff : (s' = s ∧ i < n) ↔ (s' = s ∧ i < n + 1) := by omega
      rw [h.read s' hs' i hi hacti]
      simp [hiff]

/-- **`WriteStripe` succeeds and keeps the invariant**, whatever members are down. -/
lemma Codeword.writeStripe (h : Codeword a heap contents) (hs : s < a.numStripes)
    (hlen : data.length = a.k) (hshd : ∀ d ∈ data, d.length = a.shardLen) :
    ∃ heap', a.writeStripe heap s data = (heap', true) ∧
      Codeword a heap' (update contents s data) := by
  have hput : StripePut a heap s data 0 heap := by
    refine ⟨h.room, fun s' _ i _ _ => ?_⟩
    rw [if_neg (fun hc => not_lt_zero i hc.2)]
  have hmem := h.wellFormed.length_members
  obtain ⟨heap1, hlp1, hput1⟩ := loopWhile_range_total (StripePut a heap s data)
    (fun heap c => a.writeMember heap c (a.stripeOffset s) (data.getD c [])) a.k heap hput (by
      intro c hc heap' hput'
      obtain ⟨heap'', hw, hput''⟩ := hput'.writeMember h.store_inj hs hlen hshd (by omega)
      rw [shardOf, if_pos (show c < a.rs.k from hc)] at hw
      exact ⟨heap'', hw, hput''⟩)
  obtain ⟨heap2, hlp2, hput2⟩ : ∃ heap2, a.writeParityForStripe heap1 s data = (heap2, true) ∧
      StripePut a heap s data (a.k + a.parityLevel) heap2 := by
    rw [writeParityForStripe]
    by_cases hp : a.parityLevel = 0
    · rw [hp]
      exact ⟨heap1, rfl, hput1⟩
    · rw [if_neg hp]
      apply loopWhile_range_total (fun r => StripePut a heap s data (a.k + r)) _ _ _ hput1
      intro r hr heap' hput'
      obtain ⟨heap'', hw, hput''⟩ := hput'.writeMember h.store_inj hs hlen hshd (by omega)
      have hnk : ¬ a.k + r < a.rs.k := not_lt.mpr (le_add_right a.k r)
      rw [shardOf, if_neg hnk, show a.k + r - a.rs.k = r from Nat.add_sub_cancel_left ..] at hw
      exact ⟨heap'', hw, hput''⟩
  refine ⟨heap2, ?_, h.wellFormed, h.store_inj, hput2.room, ?_, ?_, ?_⟩
  · rwa [EcArray.writeStripe, if_neg (not_or.mpr ⟨not_le.mpr hs, not_not.mpr hlen⟩), hlp1]
  · intro s' hs'
    by_cases hss : s' = s
    · rw [hss, update_self, hlen]
    · rw [update_of_ne hss, h.length_contents s' hs']
  · intro s' hs'
    by_cases hss : s' = s
    · rwa [hss, update_self]
    · rw [update_of_ne hss]
      exact h.length_shard s' hs'
  · intro s' hs' i hi hact
    rw [HoldsShard, hput2.read s' hs' i hi hact]
    by_cases hss : s' = s
    · rw [hss, update_self, if_pos ⟨rfl, by omega⟩]
    · rw [if_neg (fun hc => hss hc.1), update_of_ne hss]
      exact h.holds s' hs' i hi hact

/-- The loop that fills one store stripe by stripe, shared by `AddParityDrive` and
`RecoverMember`: it touches that store only and leaves its shard in every stripe. -/
lemma fillStore_loop (shard : ℕ → List UInt8) (step : (ℕ → σ) → ℕ → (ℕ → σ) × Bool)
    (hrm : a.numStripes * a.shardLen ≤ capacity (heap p))
    (hshd : ∀ s < a.numStripes, (shard s).length = a.shardLen)
    (hstp : ∀ s < a.numStripes, ∀ heap' : ℕ → σ, (∀ q ≠ p, heap' q = heap q) → step heap' s
      = a.storeShard heap' p (a.stripeOffset s) (shard s)) :
    ∃ heap', loopWhile step (range a.numStripes) heap = (heap', true) ∧
      (∀ q ≠ p, heap' q = heap q) ∧ a.numStripes * a.shardLen ≤ capacity (heap' p) ∧
      ∀ s < a.numStripes,
        a.shardIn (heap' p) s = some (shard s) := by
  apply loopWhile_range_total (fun n (heap' : ℕ → σ) => (∀ q ≠ p, heap' q = heap q) ∧
    a.numStripes * a.shardLen ≤ capacity (heap' p) ∧
    ∀ s < n, a.shardIn (heap' p) s = some (shard s))
  · exact ⟨fun _ _ => rfl, hrm, by simp⟩
  · rintro n hn heap' ⟨hfrm, hrm', hdn⟩
    obtain ⟨st, hw, hcap, hrd⟩ := storeShard_stripe hn hrm' (hshd n hn)
    refine ⟨update heap' p st, ?_, ?_, ?_, ?_⟩
    · rw [hstp n hn heap' hfrm, hw]
    · intro q hq
      rw [update_of_ne hq]
      exact hfrm q hq
    · rwa [update_self, hcap]
    · intro s hs
      rw [update_self, hrd s (by omega)]
      by_cases hsn : s = n
      · rw [if_pos hsn, hsn]
      · rw [if_neg hsn]
        exact hdn s (by omega)

end Invariant

end EcArray

end ClioCore.Ec
