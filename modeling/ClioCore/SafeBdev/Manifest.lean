import ClioCore.Foundations.Framing
import ClioCore.Foundations.Storage

/-!
# The member log as a file

The bytes that `PersistMemberManifest` appends and the loop of `LoadMemberManifest` that reads them
back.  Records have a name of variable length and no frame; a record cut by a crash at the end of
the file is not read, whatever the byte it is cut at.

The log is enabled, its file can be opened and written, and no compaction is under way.
-/

namespace ClioCore.SafeBdev

open Foundations List

/-- A record of the file (`MemberManifestEntry`), or a member as `WriteMemberRecord` sees it: words
of 32 bits and the bytes of the pool's name. -/
structure MemberRecord where
  role : UInt32
  index : UInt32
  poolMajor : UInt32
  poolMinor : UInt32
  nodeId : UInt32
  state : UInt32
  recovering : UInt32
  poolName : List UInt8
deriving DecidableEq

namespace MemberRecord

/-- `WriteMemberRecord`. -/
def bytes (r : MemberRecord) : List UInt8 :=
  toLe 4 r.role.toNat ++ (toLe 4 r.index.toNat ++ (toLe 4 r.poolMajor.toNat ++
    (toLe 4 r.poolMinor.toNat ++ (toLe 4 r.nodeId.toNat ++ (toLe 4 r.state.toNat ++
      (toLe 4 r.recovering.toNat ++ (toLe 4 r.poolName.length ++ r.poolName)))))))

/-- What `PersistMemberManifest` writes of `data_members_` and `parity_members_`. -/
def snapshot (data parity : List MemberRecord) : List MemberRecord :=
  data.map (fun m => { m with role := 0 }) ++ parity.map fun m => { m with role := 1 }

/-- `PersistMemberManifest`. -/
def persist (file : List UInt8) (members : List MemberRecord × List MemberRecord) : List UInt8 :=
  file ++ (snapshot members.1 members.2).flatMap bytes

def getU32 : StateT (List UInt8) Option UInt32 := do
  let bs ← getItems 4
  return .ofNat (ofLe bs)

/-- One round of the reading loop. -/
def read : StateT (List UInt8) Option MemberRecord := do
  let role ← getU32
  guard (role ≤ 1)
  let index ← getU32
  let poolMajor ← getU32
  let poolMinor ← getU32
  let nodeId ← getU32
  let state ← getU32
  let recovering ← getU32
  let nameLen ← getU32
  guard (nameLen.toNat ≤ 2 ^ 20)
  let poolName ← getItems nameLen.toNat
  return ⟨role, index, poolMajor, poolMinor, nodeId, state, recovering, poolName⟩

/-- The key of a slot in `latest`. -/
def slotKey (role index : UInt32) : ℕ := role.toNat <<< 32 ||| index.toNat

def key (r : MemberRecord) : ℕ := slotKey r.role r.index

/-- `LoadMemberManifest`. -/
def load (file : List UInt8) : List MemberRecord := replay key (scan read file.length file)

/-- Records that are read back: the role is one of the two, and the name is not too long. -/
def Sane (r : MemberRecord) : Prop := r.role ≤ 1 ∧ r.poolName.length ≤ 2 ^ 20

variable {r : MemberRecord}

lemma getU32_toLe {v : ℕ} (h : v < 2 ^ 32) (rest : List UInt8) :
    getU32 (toLe 4 v ++ rest) = some (.ofNat v, rest) := by
  have hrd := getItems_append (toLe 4 v) rest
  rw [length_toLe] at hrd
  rw [getU32, bind_of_eq_some hrd, ofLe_toLe (h.trans_eq (by norm_num))]
  rfl

lemma read_bytes_append (h : r.Sane) (rest : List UInt8) :
    read (r.bytes ++ rest) = some (r, rest) := by
  have h32 (x : UInt32) (rest : List UInt8) : getU32 (toLe 4 x.toNat ++ rest) = some (x, rest) := by
    rw [getU32_toLe x.toNat_lt, UInt32.ofNat_toNat]
  have hlen : r.poolName.length < 2 ^ 32 := h.2.trans_lt (by norm_num)
  have hnm : (UInt32.ofNat r.poolName.length).toNat = r.poolName.length :=
    UInt32.toNat_ofNat_of_lt hlen
  have hlong : (UInt32.ofNat r.poolName.length).toNat ≤ 2 ^ 20 := hnm.trans_le h.2
  have hite := getItems_append r.poolName rest
  rw [← hnm] at hite
  simp only [bytes, append_assoc]
  rw [read, bind_of_eq_some (h32 ..), bind_of_eq_some (guard_apply h.1 _)]
  iterate 6 rw [bind_of_eq_some (h32 ..)]
  rw [bind_of_eq_some (getU32_toLe hlen _), bind_of_eq_some (guard_apply hlong _),
    bind_of_eq_some hite]
  rfl

lemma extends_getU32 : Extends getU32 := .bind (extends_getItems 4) fun _ => extends_pure _

lemma extends_read : Extends read := by
  refine .bind extends_getU32 fun role => .bind (extends_guard (role ≤ 1)) fun _ => ?_
  iterate 6 refine .bind extends_getU32 fun _ => ?_
  refine .bind extends_getU32 fun nameLen => .bind (extends_guard (nameLen.toNat ≤ 2 ^ 20)) fun _ =>
    ?_
  exact .bind (extends_getItems _) fun _ => extends_pure _

lemma slotKey_inj {role index role' index' : UInt32} :
    slotKey role index = slotKey role' index' ↔ role = role' ∧ index = index' := by
  have h := index.toNat_lt
  have h' := index'.toNat_lt
  rw [slotKey, slotKey, ← Nat.shiftLeft_add_eq_or_of_lt h, ← Nat.shiftLeft_add_eq_or_of_lt h',
    ← UInt32.toNat_inj, ← UInt32.toNat_inj]
  omega

/-- Records that are read back are all found, up to where the file is cut. -/
lemma load_of_sane {old new : List MemberRecord} (hold : ∀ r ∈ old, r.Sane)
    (hnew : ∀ r ∈ new, r.Sane) (n : ℕ) : load (old.flatMap bytes ++ (new.flatMap bytes).take n)
      = replay key (old ++ completed bytes n new) := by
  have hrd (r) (hr : r ∈ new) : read r.bytes = some (r, []) := by
    simpa using read_bytes_append (hnew r hr) []
  obtain ⟨tail, htail, hno⟩ := take_flatMap extends_read hrd rfl n
  have hsane (r) (hr : r ∈ old ++ completed bytes n new) : r.Sane :=
    (mem_append.mp hr).elim (hold r) fun hr => hnew r (mem_of_mem_completed hr)
  rw [load, htail, ← append_assoc, ← flatMap_append,
    scan_flatMap (fun r hr => read_bytes_append (hsane r hr)) (fun r _ => by
      simp [bytes, toLe]) hno]

lemma foldl_persist (snaps : List (List MemberRecord × List MemberRecord)) (file : List UInt8) :
    snaps.foldl persist file = file ++
    (snaps.flatMap fun ms => snapshot ms.1 ms.2).flatMap bytes := by
  induction snaps generalizing file with
  | nil => simp
  | cons ms snaps ih => simp [ih, persist]

end MemberRecord

open MemberRecord

/-- **Replay of the member log.**  Whatever the byte at which the last snapshot is cut, the entries
read are, one for each role and index, the last records that were written in full. -/
theorem load_of_cut_snapshot (snaps : List (List MemberRecord × List MemberRecord))
    (data parity : List MemberRecord) (n : ℕ)
    (hnames : ∀ ms ∈ snaps ++ [(data, parity)], ∀ m ∈ ms.1 ++ ms.2, m.poolName.length ≤ 2 ^ 20) :
    let file := snaps.foldl persist []
    let entries := load ((persist file (data, parity)).take (file.length + n))
    entries.Pairwise (fun r r' => r.key < r'.key) ∧ ∀ role index,
      entries.find? (fun r => r.role = role ∧ r.index = index)
        = (((snaps.flatMap fun ms => snapshot ms.1 ms.2) ++
          completed bytes n (snapshot data parity)).filter
            fun r => r.role = role ∧ r.index = index).getLast? := by
  intro file entries
  have hsane (ms) (hms : ms ∈ snaps ++ [(data, parity)]) : ∀ r ∈ snapshot ms.1 ms.2, r.Sane := by
    intro r hr
    obtain hr | hr := mem_append.mp hr <;> obtain ⟨m, hm, rfl⟩ := mem_map.mp hr
    · exact ⟨(by decide : (0 : UInt32) ≤ 1), hnames ms hms m (mem_append_left _ hm)⟩
    · exact ⟨(by decide : (1 : UInt32) ≤ 1), hnames ms hms m (mem_append_right _ hm)⟩
  have hold : ∀ r ∈ snaps.flatMap fun ms => snapshot ms.1 ms.2, r.Sane := by
    intro r hr
    obtain ⟨ms, hms, hr⟩ := mem_flatMap.mp hr
    exact hsane ms (mem_append_left _ hms) r hr
  have hfi : file = (snaps.flatMap fun ms => snapshot ms.1 ms.2).flatMap bytes :=
    foldl_persist snaps []
  have hens := load_of_sane hold (hsane (data, parity) (by simp)) n
  rw [← hfi, ← take_length_add_append] at hens
  rw [show entries = _ from hens]
  refine ⟨pairwise_replay _, fun role index => ?_⟩
  simp only [← slotKey_inj]
  exact find?_replay _ _

/-- The second version of a member is cut after twenty bytes: the first is found. -/
theorem load_of_cut_snapshot_first :
    let file := persist [] ([⟨0, 0, 1, 0, 7, 0, 0, [97]⟩], [])
    (load ((persist file ([⟨0, 0, 2, 0, 7, 1, 0, [98]⟩], [])).take (file.length + 20))).find?
      (fun r => r.role = 0 ∧ r.index = 0) = some ⟨0, 0, 1, 0, 7, 0, 0, [97]⟩ :=
  ((load_of_cut_snapshot [([⟨0, 0, 1, 0, 7, 0, 0, [97]⟩], [])] [⟨0, 0, 2, 0, 7, 1, 0, [98]⟩] [] 20
    (by decide)).2 0 0).trans (by decide)

end ClioCore.SafeBdev
