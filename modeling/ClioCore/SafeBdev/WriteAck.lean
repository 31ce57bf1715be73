import ClioCore.SafeBdev.DegradedRead
import ClioCore.SafeBdev.Recovery

/-!
# What an acknowledged `Write` is worth

A `Write` that returns `0` says that its bytes are safe: a `Read` of the same blocks returns them,
or they can be recovered onto replacement drives.  `Retains` is that promise; `Recoverable` lets the
recovery choose any sequence of `RecoverBdev` onto fresh drives, but not what those drives hold.

The code keeps the promise exactly for the block lists of active members whose payload is a function
of the address.  The payload of a block whose member is down is dropped: nothing is sent, and the
slot is marked dirty, so that neither a degraded `Read` nor a rebuild will touch its stripe.

* `Unsettled` — what recoveries keep of the array a `Write` has left.
* `Lost` — an address whose byte is on no device.
* `Direct`, `SameData` — blocks read from their devices, and what `BuildParity` leaves alone.
-/

namespace ClioCore.SafeBdev

open Foundations List World
open Ec (EcRole EcState ReedSolomon)

variable {q : PoolId} {i y : ℕ} {b : Block} {blocks : List Block}

/-- The arguments of a `RecoverBdev`. -/
structure RecoverTask where
  oldBdevId : PoolId
  newPoolId : PoolId
  poolName : String
  nodeId : ℕ

/-- The payload gives every address one byte. -/
def SingleValued (blocks : List Block) (data : List UInt8) : Prop :=
  ∃ content : ℕ → UInt8, (addresses blocks).map content = data

namespace World

/-- `RecoverBdev`s one after another, as long as they succeed. -/
def recoverAll : World → List RecoverTask → Option World
  | w, [] => some w
  | w, t :: rest =>
    match w.recoverBdev t.oldBdevId t.newPoolId t.poolName t.nodeId with
    | (w', 0) => recoverAll w' rest
    | (_, _ + 1) => none

/-- The array with `content` on the drives that are not part of it. -/
def withSpares (w : World) (content : PoolId → ℕ → UInt8) : World :=
  { w with dev := fun p =>
      if p ∈ w.dataClients ++ w.parityClients then w.dev p
      else { w.dev p with bytes := content p } }

/-- Whatever the drives outside the array hold, some recoveries onto them make a `Read` return the
bytes. -/
def Recoverable (w : World) (blocks : List Block) (data : List UInt8) : Prop :=
  ∀ content, ∃ tasks : List RecoverTask, (tasks.map (·.newPoolId)).Nodup ∧
    (∀ t ∈ tasks, t.newPoolId ∉ w.dataClients ++ w.parityClients) ∧
    ∃ w' : World, (w.withSpares content).recoverAll tasks = some w' ∧ (w'.read blocks).2 = (0, data)

/-- The promise of a `Write`: after any `BuildParity`s, the bytes are read back or recoverable. -/
def Retains (w : World) (blocks : List Block) (data : List UInt8) : Prop :=
  ∀ batches : List ℕ,
    let w' := batches.foldl buildParity (w.write blocks data).1
    (w'.read blocks).2 = (0, data) ∨ w'.Recoverable blocks data

/-- The device of every active data member serves reads. -/
def Serving (w : World) : Prop :=
  ∀ d < w.dataMembers.length, (w.dataMember d).state = .active →
    (w.dev (w.dataClient d)).readStatus = .ok

variable {w w' : World}

/-! ## Recoveries leave dirty slots dirty -/

/-- What recoveries keep: the slots that await parity, and drives that are not in use. -/
structure Unsettled (w : World) (dirty : Finset ℕ) (spares : List PoolId) : Prop where
  wired : w.Wired
  bandLimited : w.BandLimited
  dirty_eq : w.dirtySlots = dirty
  unused : ∀ p ∈ spares, p ∉ w.dataClients ++ w.parityClients

/-- The byte for the physical address `x` of data member `d`, in slot `s`, is nowhere: the member is
down, or it was replaced by a drive that held `c`. -/
structure Lost (w : World) (d s x : ℕ) (c : UInt8) (spares : List PoolId) : Prop where
  lt : d < w.dataMembers.length
  dirty : s ∈ w.dirtySlots
  spare : ∀ p ∈ spares, (w.dev p).bytes x = c
  lost : (w.dataMember d).state ≠ .active ∨ s ∉ (w.alloc d).live ∧
    (w.dev (w.dataClient d)).bytes x = c

variable {P : PoolId → ℕ → Prop} {dirty : Finset ℕ} {spares : List PoolId} {d s x : ℕ} {c : UInt8}

lemma Unsettled.kept (h : w.Unsettled dirty spares) (hk : Kept P w w') :
    w'.Unsettled dirty spares := by
  refine ⟨hk.wired h.wired, hk.bandLimited h.bandLimited, ?_, ?_⟩
  · obtain ⟨dm, pm, dev', log, rfl, _⟩ := hk
    exact h.dirty_eq
  · obtain ⟨dm, pm, dev', log, rfl, _⟩ := hk
    exact h.unused

lemma Lost.kept (h : w.Lost d s x c spares) (hk : Kept P w w') (hsps : ∀ p ∈ spares, ¬ P p x)
    (hP : (w.dataMember d).state = .active → ¬ P (w.dataClient d) x) :
    w'.Lost d s x c spares := by
  obtain ⟨dm, pm, dev', log, rfl, hdm, _, _, hby⟩ := hk
  refine ⟨h.lt.trans_eq hdm.length_eq.symm, h.dirty,
    fun p hp => (hby p x (hsps p hp)).trans (h.spare p hp), ?_⟩
  by_cases hact : (w.dataMember d).state = .active
  · obtain ⟨hlv, hc⟩ := h.lost.resolve_left (not_not.mpr hact)
    exact Or.inr ⟨hlv, (hby _ x (hP hact)).trans hc⟩
  · exact Or.inl fun hact' => hact (hdm.active hact')

section

variable (h : w.Unsettled dirty (q :: spares)) (hnd : (q :: spares).Nodup)
include h hnd

/-- Seating a member on a spare. -/
lemma Unsettled.seat {n : ℕ} {dc pc : List PoolId} {dm pm : List MemberSlot}
    (hclis : dc ++ pc = (w.dataClients ++ w.parityClients).set n q)
    (hdc : dc.length = w.dataClients.length) (hpc : pc.length = w.parityClients.length)
    (hdm : dm.length = w.dataMembers.length) (hpm : pm.length = w.parityMembers.length) :
    Unsettled { w with
        dataClients := dc
        parityClients := pc
        dataMembers := dm
        parityMembers := pm } dirty spares := by
  refine ⟨⟨?_, h.wired.2.trans hdm.symm, ?_, h.wired.4.trans hpm.symm, ?_⟩, h.bandLimited,
    h.dirty_eq, fun p hp => ?_⟩
  · exact hdc.trans (h.wired.1.trans hdm.symm)
  · exact hpc.trans (h.wired.3.trans hpm.symm)
  · exact hclis ▸ h.wired.nodup.set (h.unused q (by simp))
  · intro hmem
    have hmem' : p ∈ (w.dataClients ++ w.parityClients).set n q := hclis ▸ hmem
    rcases mem_or_eq_of_mem_set hmem' with hold | rfl
    · exact h.unused p (by simp [hp]) hold
    · exact (nodup_cons.mp hnd).1 hp

lemma Unsettled.seatData (hi : i < w.dataClients.length) (name : String) (node : ℕ) :
    (w.seatData i q name node).Unsettled dirty spares :=
  h.seat hnd (set_append_left _ _ hi).symm (length_set ..) rfl (length_modify ..)
    rfl

lemma Unsettled.seatParity (j : ℕ) (name : String) (node : ℕ) :
    (w.seatParity j q name node).Unsettled dirty spares := by
  have hclis : w.dataClients ++ w.parityClients.set j q
      = (w.dataClients ++ w.parityClients).set (w.dataClients.length + j) q := by
    rw [set_append_right _ _ (Nat.le_add_right _ _), Nat.add_sub_cancel_left]
  exact h.seat hnd hclis rfl (length_set ..) rfl (length_modify ..)

end

lemma Unsettled.modifyData (h : w.Unsettled dirty spares) (i : ℕ) (f : MemberSlot → MemberSlot) :
    (w.modifyData i f).Unsettled dirty spares :=
  ⟨⟨h.wired.1.trans (length_modify ..).symm, h.wired.2.trans (length_modify ..).symm,
    h.wired.3, h.wired.4, h.wired.5⟩, h.bandLimited, h.dirty_eq, h.unused⟩

lemma Unsettled.modifyParity (h : w.Unsettled dirty spares) (j : ℕ) (f : MemberSlot → MemberSlot) :
    (w.modifyParity j f).Unsettled dirty spares :=
  ⟨⟨h.wired.1, h.wired.2, h.wired.3.trans (length_modify ..).symm,
    h.wired.4.trans (length_modify ..).symm, h.wired.5⟩, h.bandLimited, h.dirty_eq, h.unused⟩

lemma Lost.seatData (h : w.Lost d s x c (q :: spares)) (hi : i < w.dataMembers.length)
    (name : String) (node : ℕ) :
    (w.seatData i q name node).Lost d s x c spares := by
  refine ⟨h.lt.trans_eq (length_modify ..).symm, h.dirty, fun p hp => h.spare p (by simp [hp]), ?_⟩
  by_cases hid : d = i
  · subst hid
    exact Or.inl fun hact => absurd
      ((seatData_dataMember_self hi q name node).symm.trans hact) EcState.noConfusion
  · obtain ⟨hmb, hcli⟩ := seatData_of_ne hid q name node
    rw [hcli, hmb]
    exact h.lost

/-- The clients of the array are not spares. -/
lemma Unsettled.dataClient_ne (h : w.Unsettled dirty spares) (hq : q ∈ spares)
    (hd : d < w.dataMembers.length) : w.dataClient d ≠ q := by
  rintro rfl
  rw [← h.wired.dataClients_length] at hd
  refine h.unused _ hq (mem_append_left _ ?_)
  rw [dataClient, getD_eq_getElem _ _ hd]
  exact getElem_mem hd

section

variable (h : w.Unsettled dirty (q :: spares)) (hnd : (q :: spares).Nodup)
include h hnd

/-- A recovered data member does not bring the byte back. -/
lemma Unsettled.recoverData (hi : i < w.dataMembers.length) (name : String) (node : ℕ) :
    (w.recoverData i q name node).1.Unsettled dirty spares ∧ (InSlot s x →
      w.Lost d s x c (q :: spares) → (w.recoverData i q name node).1.Lost d s x c spares) := by
  have hic : i < w.dataClients.length := hi.trans_eq h.wired.dataClients_length.symm
  obtain ⟨w2, hk, hres⟩ := recoverData_spec hic q name node
  have hu2 := (h.seatData hnd hic name node).kept hk
  have hq : q ∉ spares := (nodup_cons.mp hnd).1
  have hl2 (hl : w.Lost d s x c (q :: spares)) : w2.Lost d s x c spares := by
    refine (hl.seatData hi name node).kept hk (fun p hp hP => hq (hP.1 ▸ hp)) fun hact hP => ?_
    have hid : d ≠ i := by
      rintro rfl
      cases (seatData_dataMember_self hi q name node).symm.trans hact
    rw [(seatData_of_ne hid q name node).2] at hP
    exact h.dataClient_ne (by simp) hl.lt hP.1
  rcases hres with heq | ⟨hcl, w3, hk3, heq⟩ <;> rw [heq]
  · exact ⟨hu2, fun _ => hl2⟩
  · refine ⟨(hu2.modifyData i _).kept hk3, fun hx hl => ?_⟩
    have h2 := hl2 hl
    refine Lost.kept (w := w2.modifyData i MemberSlot.recovered)
      ⟨h2.lt.trans_eq (length_modify ..).symm, h2.dirty, h2.spare, ?_⟩ hk3
      (fun _ _ hP => hP) fun _ hP => hP
    rw [dataMember_modifyData]
    by_cases hid : d = i
    · -- The slot is dirty, so it was not live and the rebuild has left it alone.
      subst hid
      have hlv : s ∉ (w.alloc d).live := fun hs => hcl s hs hl.dirty
      obtain ⟨dm, pm, dev', log, rfl, _, _, _, hby⟩ := hk
      refine Or.inr ⟨hlv, ?_⟩
      have hbyte : (dev' q).bytes x = c := by
        refine (hby q x ?_).trans (hl.spare q (by simp))
        rintro ⟨_, s', hs', hx'⟩
        exact hlv (inSlot_unique hx hx' ▸ hs')
      show (dev' ((w.seatData d q name node).dataClient d)).bytes x = c
      rwa [seatData_dataClient hic q name node]
    · rw [if_neg fun hc => hid hc.1]
      exact h2.lost

lemma Unsettled.recoverParity {j : ℕ} (hj : j < w.parityMembers.length) (name : String) (node : ℕ) :
    (w.recoverParity j q name node).1.Unsettled dirty spares ∧ (w.Lost d s x c (q :: spares) →
      (w.recoverParity j q name node).1.Lost d s x c spares) := by
  have hjc : j < w.parityClients.length := hj.trans_eq h.wired.parityClients_length.symm
  obtain ⟨w2, hk, hres⟩ := recoverParity_spec hjc q name node
  have hu2 := (h.seatParity hnd j name node).kept hk
  have hq : q ∉ spares := (nodup_cons.mp hnd).1
  have hl2 (hl : w.Lost d s x c (q :: spares)) : w2.Lost d s x c spares :=
    Lost.kept (w := w.seatParity j q name node) ⟨hl.lt, hl.dirty,
      fun p hp => hl.spare p (by simp [hp]),
      hl.lost⟩ hk (fun p hp hP => hq (hP.1 ▸ hp)) fun _ hP => h.dataClient_ne (by simp) hl.lt hP.1
  rcases hres with heq | ⟨w3, hk3, heq⟩ <;> rw [heq]
  · exact ⟨hu2, hl2⟩
  · refine ⟨(hu2.modifyParity j _).kept hk3, fun hl => ?_⟩
    exact Lost.kept (w := w2.modifyParity j MemberSlot.recovered)
      ⟨(hl2 hl).lt, (hl2 hl).dirty, (hl2 hl).spare, (hl2 hl).lost⟩ hk3 (fun _ _ hP => hP)
      fun _ hP => hP

/-- A `RecoverBdev` onto a spare. -/
lemma Unsettled.recoverBdev (old : PoolId) (name : String) (node : ℕ) :
    (w.recoverBdev old q name node).1.Unsettled dirty spares ∧
      (InSlot s x → w.Lost d s x c (q :: spares) →
        (w.recoverBdev old q name node).1.Lost d s x c spares) := by
  rw [World.recoverBdev]
  cases hi : w.dataMembers.findIdx? (·.poolId = old) with
  | some i =>
    have hlt := (findIdx?_eq_some_iff_getElem.mp hi).1
    exact h.recoverData hnd hlt name node
  | none =>
    cases hj : w.parityMembers.findIdx? (·.poolId = old) with
    | some j =>
      have hlt := (findIdx?_eq_some_iff_getElem.mp hj).1
      exact (h.recoverParity hnd hlt name node).imp_right fun hl _ => hl
    | none =>
      exact ⟨⟨h.wired, h.bandLimited, h.dirty_eq, fun p hp => h.unused p (by simp [hp])⟩,
        fun _ hlost => ⟨hlost.lt, hlost.dirty, fun p hp => hlost.spare p (by simp [hp]),
          hlost.lost⟩⟩

end

/-- **What any sequence of recoveries keeps.** -/
lemma Unsettled.recoverAll {tasks : List RecoverTask} (hnd : (tasks.map (·.newPoolId)).Nodup)
    (h : w.Unsettled dirty (tasks.map (·.newPoolId))) (hrun : w.recoverAll tasks = some w') :
    w'.Unsettled dirty [] ∧
      (InSlot s x → w.Lost d s x c (tasks.map (·.newPoolId)) → w'.Lost d s x c []) := by
  induction tasks generalizing w with
  | nil =>
    obtain rfl : w = w' := Option.some.inj hrun
    exact ⟨h, fun _ hlost => hlost⟩
  | cons t tasks ih =>
    obtain ⟨hu, hl⟩ := h.recoverBdev hnd t.oldBdevId t.poolName t.nodeId
    rw [recoverAll] at hrun
    rcases hrec : w.recoverBdev t.oldBdevId t.newPoolId t.poolName t.nodeId with ⟨w1, rc⟩
    rw [hrec] at hrun hu hl
    cases rc with
    | succ rc => exact absurd hrun (Option.some_ne_none w').symm
    | zero =>
      obtain ⟨hu', hl'⟩ := ih (nodup_cons.mp hnd).2 hu hrun
      exact ⟨hu', fun hx hlost => hl' hx (hl hx hlost)⟩

/-! ## Reading dirty blocks -/

lemma active_of_readBlocks {acc : List UInt8} (hb : b ∈ blocks) (h64 : b.offset + b.size < 2 ^ 64)
    (hsz : b.size ≠ 0) (hdt : unbandSlot b.offset ∈ w.dirtySlots)
    (hrc : (w.readBlocks blocks acc).2.1 = 0) :
    (w.dataMember (unbandMember b.offset)).state = .active := by
  induction blocks generalizing w acc with
  | nil => simp at hb
  | cons b' blocks ih =>
    rw [readBlocks] at hrc
    by_cases hsz' : b'.size = 0
    · rw [if_pos hsz'] at hrc
      rcases mem_cons.mp hb with rfl | hb
      · exact absurd hsz' hsz
      · exact ih hb hdt hrc
    · rw [if_neg hsz'] at hrc
      have hej := ejected_readBlock w b'
      rcases hrd : w.readBlock b' with ⟨w1, r⟩
      rw [hrd] at hej
      simp only [hrd] at hrc
      cases r with
      | none => exact absurd hrc Nat.one_ne_zero
      | some out =>
        rcases mem_cons.mp hb with rfl | hb
        · -- a degraded block whose first slot is dirty cannot be read
          by_contra hdown
          replace hrd := congrArg Prod.snd hrd
          rw [readBlock] at hrd
          split_ifs at hrd with hmem
          have hlt : b.offset < (b.offset + b.size) % 2 ^ 64 := by omega
          rw [readDegraded, dif_pos hlt] at hrd
          simp [hdt] at hrd
        · exact hej.data_active (ih hb (by rwa [hej.fields.2.2.2.2.1]) hrc)

lemma mem_addresses : y ∈ addresses blocks ↔ ∃ b ∈ blocks, b.Covers y := by
  simp only [addresses, mem_flatMap, mem_range'_1, Block.Covers]

/-- A `Read` of dirty blocks that succeeds returns what the devices hold. -/
lemma Unsettled.read_eq (h : w.Unsettled dirty spares)
    (h64 : ∀ b ∈ blocks, b.offset + b.size < 2 ^ 64)
    (hdt : ∀ y ∈ addresses blocks, unbandSlot y ∈ dirty) (hrc : (w.read blocks).2.1 = 0) :
    (w.read blocks).2.2 = (addresses blocks).map w.byteAt := by
  have hsv : w.Serves fun y v => y ∈ addresses blocks → v = w.byteAt y := by
    refine ⟨h.bandLimited, fun y _ _ => rfl, fun y hcl _ => Or.inr fun v hy => ?_⟩
    rw [h.dirty_eq] at hcl
    exact absurd (hdt y hy) hcl
  have hrd := read_serves hsv h.wired h64 hrc
  rw [forall₂_iff_get] at hrd
  refine ext_getElem (by rw [length_map, hrd.1]) fun i h1 h2 => ?_
  have hi : i < (addresses blocks).length := by rwa [length_map] at h2
  have := hrd.2 i hi h1 (getElem_mem hi)
  simpa using this

/-! ## What the promise takes -/

variable {blocks : List Block} {data : List UInt8}

lemma dirty_addresses (h64 : ∀ b ∈ blocks, b.offset + b.size < 2 ^ 64)
    (hrc : (w.write blocks data).2.1 = 0) :
    ∀ y ∈ addresses blocks, unbandSlot y ∈ (w.write blocks data).1.dirtySlots := by
  obtain ⟨hok, _, heq⟩ := write_eq_zero hrc
  intro y hy
  obtain ⟨b, hb, hcov⟩ := mem_addresses.mp hy
  have hsz : b.size ≠ 0 := by
    have h1 := hcov.1
    have h2 := hcov.2
    omega
  rw [heq]
  exact Finset.mem_union_right _
    ((dispatchedIn_of_mem hok hb hsz).touched (hcov.slot_mem_touched (h64 b hb)))

/-- The array a successful `Write` leaves. -/
lemma unsettled_write (hwired : w.Wired) (hband : w.BandLimited)
    (h64 : ∀ b ∈ blocks, b.offset + b.size < 2 ^ 64) (hrc : (w.write blocks data).2.1 = 0) :
    (w.write blocks data).1.Unsettled (w.write blocks data).1.dirtySlots [] := by
  obtain ⟨_, _, heq⟩ := write_eq_zero hrc
  have hfrm := write_frame hband data h64
  have hwired' := hwired.of_frame hfrm
  have hband' := hband.of_frame hfrm
  rw [heq]
  exact ⟨⟨hwired'.1, hwired'.2, hwired'.3, hwired'.4, hwired'.5⟩, fun p => hband' p, rfl,
    by simp⟩

lemma Unsettled.withSpares (h : w.Unsettled dirty []) (content : PoolId → ℕ → UInt8)
    (hsps : ∀ p ∈ spares, p ∉ w.dataClients ++ w.parityClients) :
    (w.withSpares content).Unsettled dirty spares := by
  refine ⟨⟨h.wired.1, h.wired.2, h.wired.3, h.wired.4, h.wired.5⟩, fun p => ?_, h.dirty_eq, hsps⟩
  have hcap : ((w.withSpares content).dev p).capacity = (w.dev p).capacity := by
    rw [World.withSpares]
    simp only []
    split_ifs <;> rfl
  exact hcap.trans_le (h.bandLimited p)

section

variable (hret : w.Retains blocks data) (hwired : w.Wired) (hband : w.BandLimited)
  (h64 : ∀ b ∈ blocks, b.offset + b.size < 2 ^ 64) (hrc : (w.write blocks data).2.1 = 0)
include hret hwired hband h64 hrc

/-- A promise kept after the `Write` is a `Read` that succeeds, now or after recoveries onto drives
that hold `content`. -/
lemma Retains.read (content : PoolId → ℕ → UInt8) :
    ∃ w' : World, w'.Unsettled (w.write blocks data).1.dirtySlots [] ∧
    (w'.read blocks).2 = (0, data) ∧
      ∀ d s x c, InSlot s x → d < (w.write blocks data).1.dataMembers.length →
        ((w.write blocks data).1.dataMember d).state ≠ .active →
        s ∈ (w.write blocks data).1.dirtySlots → (∀ p, content p x = c) → w'.Lost d s x c [] := by
  set w1 := (w.write blocks data).1 with hw1
  have hu := unsettled_write hwired hband h64 hrc
  rw [← hw1] at hu
  rcases hret [] with hrd | hreco
  · exact ⟨w1, hu, hrd, fun d s x c _ hd hdown hs _ =>
      ⟨hd, hs, by simp, Or.inl hdown⟩⟩
  · obtain ⟨tasks, hnd, hfr, w', hrun, hrd⟩ := hreco content
    have hfr' : ∀ p ∈ tasks.map (·.newPoolId), p ∉ w1.dataClients ++ w1.parityClients := by
      intro p hp
      obtain ⟨t, ht, rfl⟩ := mem_map.mp hp
      exact hfr t ht
    have hst := hu.withSpares content hfr'
    refine ⟨w', (hst.recoverAll (d := 0) (s := 0) (x := 0) (c := 0) hnd hrun).1, hrd,
      fun d s x c hx hd hdown hs hc => ?_⟩
    refine (hst.recoverAll hnd hrun).2 hx ⟨hd, hs, fun p hp => ?_, Or.inl hdown⟩
    rw [withSpares]
    simp only [if_neg (hfr' p hp)]
    exact hc p

/-- The promise is not kept for a block whose member is down. -/
lemma Retains.active (hb : b ∈ blocks) (hsz : b.size ≠ 0) :
    (w.dataMember (unbandMember b.offset)).state = .active := by
  obtain ⟨hok, _, heq⟩ := write_eq_zero hrc
  have hms : (w.write blocks data).1.dataMembers = w.dataMembers := by rw [heq]
  by_contra hdown
  -- Fill the spares with a byte the payload does not have at the block's first address.
  have hmem : b.offset ∈ addresses blocks := mem_addresses.mpr ⟨b, hb, le_rfl, by omega⟩
  obtain ⟨i, hi, hat⟩ := getElem_of_mem hmem
  obtain ⟨c, hc⟩ : ∃ c : UInt8, c ≠ data.getD i 0 := by
    by_cases hz0 : data.getD i 0 = 0
    · exact ⟨1, by rw [hz0]; decide⟩
    · exact ⟨0, Ne.symm hz0⟩
  obtain ⟨w', hu, hrd, hlost⟩ := hret.read hwired hband h64 hrc fun _ _ => c
  have hdt := dirty_addresses h64 hrc
  have hlt := (dispatchedIn_of_mem hok hb hsz).member_lt
  have hl := hlost (unbandMember b.offset) (unbandSlot b.offset) (physOffset b.offset) _
    (inSlot_physOffset _) (by rwa [hms]) (by rwa [dataMember, hms]) (hdt _ hmem)
    fun _ => rfl
  have hrc' : (w'.read blocks).2.1 = 0 := by rw [hrd]
  have hact : (w'.dataMember (unbandMember b.offset)).state = .active := by
    rw [World.read] at hrc'
    split_ifs at hrc'
    exact active_of_readBlocks hb (h64 b hb) hsz hl.dirty hrc'
  have hbyte : w'.byteAt b.offset = c := (hl.lost.resolve_left (not_not.mpr hact)).2
  have hout := hu.read_eq h64 hdt hrc'
  rw [hrd] at hout
  have hval : data.getD i 0 = w'.byteAt b.offset := by
    rw [show data = (addresses blocks).map w'.byteAt from hout,
      getD_eq_getElem _ _ (by rwa [length_map]), getElem_map, hat]
  exact hc (hbyte.symm.trans hval.symm)

lemma Retains.singleValued : SingleValued blocks data := by
  obtain ⟨w', hu, hrd, _⟩ := hret.read hwired hband h64 hrc fun _ _ => 0
  have hout := hu.read_eq h64 (dirty_addresses h64 hrc) (by rw [hrd])
  rw [hrd] at hout
  exact ⟨w'.byteAt, hout.symm⟩

end

/-! ## Keeping the promise -/

/-- Addresses outside the blocks keep their record. -/
lemma ackBlocks_of_not_mem {acked : ℕ → Option UInt8} {pos : ℕ} (hy : y ∉ addresses blocks) :
    w.ackBlocks data blocks pos acked y = acked y := by
  induction blocks generalizing pos acked with
  | nil => rfl
  | cons b blocks ih =>
    rw [addresses, flatMap_cons, mem_append, not_or] at hy
    have hnot : ¬ b.Covers y := fun hcov => hy.1 (mem_range'_1.mpr hcov)
    rw [ackBlocks, ih hy.2, ackBlock, if_neg hnot]

/-- A single-valued payload of active members is acknowledged as it is. -/
lemma ackBlocks_eq {content : ℕ → UInt8} {acked : ℕ → Option UInt8} {pos : ℕ}
    (hact : ∀ b ∈ blocks, b.size ≠ 0 → (w.dataMember (unbandMember b.offset)).state = .active)
    (hdata : data.drop pos = (addresses blocks).map content) (hy : y ∈ addresses blocks) :
    w.ackBlocks data blocks pos acked y = some (content y) := by
  induction blocks generalizing pos acked with
  | nil => cases hy
  | cons b blocks ih =>
    rw [addresses, flatMap_cons, map_append] at hdata
    rw [ackBlocks]
    by_cases hrs : y ∈ addresses blocks
    · refine ih (fun b' hb' => hact b' (by simp [hb'])) ?_ hrs
      rw [← drop_drop, hdata, drop_left' (by simp)]
      rfl
    · rw [addresses, flatMap_cons, mem_append] at hy
      have hcov : b.Covers y := mem_range'_1.mp (hy.resolve_right hrs)
      have hlt : y - b.offset < b.size := by
        have h1 := hcov.1
        have h2 := hcov.2
        omega
      have hsz : b.size ≠ 0 := by omega
      rw [ackBlocks_of_not_mem hrs, ackBlock, if_pos hcov, if_pos (hact b (by simp) hsz),
        ← getElem?_drop, hdata, getElem?_append_left (by simpa using hlt),
        getElem?_map, getElem?_range' hlt]
      have hy' : b.offset + 1 * (y - b.offset) = y := by
        have h1 := hcov.1
        omega
      rw [hy']
      rfl

/-- A block that is read from the device of its member. -/
structure Direct (w : World) (b : Block) : Prop where
  lt : unbandMember b.offset < w.dataMembers.length
  active : (w.dataMember (unbandMember b.offset)).state = .active
  serving : (w.dev (w.dataClient (unbandMember b.offset))).readStatus = .ok
  inRange : physOffset b.offset + b.size ≤ (w.dev (w.dataClient (unbandMember b.offset))).capacity

lemma Direct.readBlock (h : w.Direct b) (hband : w.BandLimited) :
    w.readBlock b = (w, some ((range' b.offset b.size).map w.byteAt)) := by
  have hin := inBand_of_capacity (h.inRange.trans (hband _))
  have hrd : (w.dev (w.dataClient (unbandMember b.offset))).read (physOffset b.offset) b.size
      = some ((range' b.offset b.size).map w.byteAt) := by
    rw [Device.read, if_pos ⟨h.serving, h.inRange⟩, readRange_eq_iff.mpr]
    refine ⟨by simp, fun i hi => ?_⟩
    have hlt : i < b.size := by simpa using hi
    rw [getElem_map, getElem_range', Nat.one_mul, byteAt, (unband_add hin hlt).1,
      physOffset_add hin hlt]
  rw [World.readBlock, if_neg (not_le.mpr h.lt), if_pos h.active, readDataSegment, h.serving, hrd,
    w.maybeFaultData_of_ne _ IoStatus.noConfusion]

lemma readBlocks_direct (hband : w.BandLimited) (h : ∀ b ∈ blocks, b.size ≠ 0 → w.Direct b)
    (acc : List UInt8) :
    w.readBlocks blocks acc = (w, 0, acc ++ (addresses blocks).map w.byteAt) := by
  induction blocks generalizing acc with
  | nil => rw [readBlocks, addresses, flatMap_nil, map_nil, append_nil]
  | cons b blocks ih =>
    have ih' := ih fun b' hb' => h b' (by simp [hb'])
    rw [readBlocks, addresses, flatMap_cons, map_append]
    by_cases hsz : b.size = 0
    · rw [ih', hsz, range'_zero, map_nil]
      rfl
    · rw [if_neg hsz, (h b (by simp) hsz).readBlock hband]
      simp only [ih', append_assoc]
      rfl

/-- The data half of the array is as it was. -/
structure SameData (w w' : World) : Prop where
  wired : w'.Wired
  dataMembers_eq : w'.dataMembers = w.dataMembers
  dataClients_eq : w'.dataClients = w.dataClients
  capacity_eq : ∀ p, (w'.dev p).capacity = (w.dev p).capacity
  dev_eq : ∀ d < w.dataMembers.length, w'.dev (w.dataClient d) = w.dev (w.dataClient d)

lemma SameData.serving (h : SameData w w') (hs : w.Serving) : w'.Serving := by
  intro d hd hact
  rw [h.dataMembers_eq] at hd
  rw [dataMember, h.dataMembers_eq] at hact
  rw [dataClient, h.dataClients_eq, ← dataClient, h.dev_eq d hd]
  exact hs d hd hact

lemma SameData.trans {w'' : World} (h : SameData w w') (h' : SameData w' w'') : SameData w w'' := by
  refine ⟨h'.wired, h'.dataMembers_eq.trans h.dataMembers_eq,
    h'.dataClients_eq.trans h.dataClients_eq,
    fun p => (h'.capacity_eq p).trans (h.capacity_eq p), fun d hd => ?_⟩
  have hdev := h'.dev_eq d (by rwa [h.dataMembers_eq])
  rw [dataClient, h.dataClients_eq] at hdev
  exact hdev.trans (h.dev_eq d hd)

section

variable (hwired : w.Wired) (hs : w.Serving)
include hwired hs

lemma sameData_buildSlot (s : ℕ) : SameData w (w.buildSlot s) := by
  obtain ⟨w1, hfrm, hres⟩ := buildSlot_spec hwired s
  have hwd1 := hwired.of_frame hfrm
  have hms : w1.dataMembers = w.dataMembers := by
    refine ext_getElem hfrm.demoted.1.length_eq fun d h1 hd => ?_
    rw [← getD_eq_getElem _ default h1, ← getD_eq_getElem _ default hd]
    refine (hfrm.demoted.1.getD d).resolve_right fun hi => ?_
    cases (hs d hd hi.2.1).symm.trans hi.1
  have hdev : ∀ d < w.dataMembers.length, w1.dev (w.dataClient d) = w.dev (w.dataClient d) :=
    fun d hd => hfrm.dev_eq fun x => hwired.not_parityFootprint hd
  rcases hres with heq | ⟨heq, _⟩
  · rw [heq]
    exact ⟨hwd1, hms, hfrm.fields.2.1, hfrm.capacity_eq, hdev⟩
  · rw [heq]
    exact ⟨⟨hwd1.1, hwd1.2, hwd1.3, hwd1.4, hwd1.5⟩, hms, hfrm.fields.2.1, hfrm.capacity_eq, hdev⟩

lemma sameData_foldl_buildSlot (batch : List ℕ) : SameData w (batch.foldl buildSlot w) := by
  induction batch generalizing w with
  | nil => exact ⟨hwired, rfl, rfl, fun _ => rfl, fun _ _ => rfl⟩
  | cons s batch ih =>
    have hsl := sameData_buildSlot hwired hs s
    exact hsl.trans (ih hsl.wired (hsl.serving hs))

lemma sameData_buildParity (maxBatch : ℕ) : SameData w (w.buildParity maxBatch) := by
  rw [buildParity]
  split_ifs
  · exact ⟨⟨hwired.1, hwired.2, hwired.3, hwired.4, hwired.5⟩, rfl, rfl, fun _ => rfl,
      fun _ _ => rfl⟩
  · exact sameData_foldl_buildSlot hwired hs _

/-- Any number of `BuildParity`s leaves the data half of a serving array alone. -/
lemma sameData_builds (batches : List ℕ) : SameData w (batches.foldl buildParity w) := by
  induction batches generalizing w with
  | nil => exact ⟨hwired, rfl, rfl, fun _ => rfl, fun _ _ => rfl⟩
  | cons n batches ih =>
    have hbld := sameData_buildParity hwired hs n
    exact hbld.trans (ih hbld.wired (hbld.serving hs))

end

lemma SameData.direct (h : SameData w w') (hb : w.Direct b) : w'.Direct b := by
  have hcli : w'.dataClient (unbandMember b.offset) = w.dataClient (unbandMember b.offset) := by
    rw [dataClient, h.dataClients_eq, ← dataClient]
  have hdev := h.dev_eq _ hb.lt
  refine ⟨by rw [h.dataMembers_eq]; exact hb.lt, ?_, ?_, ?_⟩
  · rw [dataMember, h.dataMembers_eq]
    exact hb.active
  · rw [hcli, hdev]
    exact hb.serving
  · rw [hcli, hdev]
    exact hb.inRange

/-- After a `Write` that succeeds, the blocks of active members are read from their devices. -/
lemma direct_write (hs : w.Serving) (hrc : (w.write blocks data).2 = (0, data.length))
    (hb : b ∈ blocks)
    (hsz : b.size ≠ 0) (hact : (w.dataMember (unbandMember b.offset)).state = .active) :
    (w.write blocks data).1.Direct b := by
  have hz0 : (w.write blocks data).2.1 = 0 := by rw [hrc]
  obtain ⟨hok, hland, heq⟩ := write_eq_zero hz0
  have hfrm := landSegments_frame w (w.dispatch blocks data).futs
  obtain ⟨hlt, _, hsent⟩ := dispatchedIn_of_mem hok hb hsz
  obtain ⟨pos, hpos, hseg⟩ := hsent hact
  have hlen : (w.dispatch blocks data).bufPos = data.length := by
    rw [heq] at hrc
    rw [(dispatch_bytesWritten hok).1, ← (dispatch_bytesWritten hok).2]
    exact (Prod.mk.inj hrc).2
  have hcap := le_capacity_of_landed hland _ hseg
  simp only [length_take, length_drop] at hcap
  rw [heq]
  refine ⟨hlt, hact, ?_, ?_⟩
  · exact (hfrm.status_eq _).1.trans (hs _ hlt hact)
  · refine le_trans ?_ (hfrm.capacity_eq _).ge
    have hmin : min b.size (data.length - pos) = b.size := by omega
    rw [hmin] at hcap
    exact hcap

end World

/-- **When a successful `Write` keeps its promise.**  On a serving array with any members down, the
acknowledged bytes are read back or recoverable exactly when every non-empty block belongs to an
active member and no address is given two different bytes. -/
theorem write_retains_iff {w : World} {blocks : List Block} {data : List UInt8} (hwired : w.Wired)
    (hband : w.BandLimited) (hserving : w.Serving)
    (h64 : ∀ b ∈ blocks, b.offset + b.size < 2 ^ 64)
    (hrc : (w.write blocks data).2 = (0, data.length)) :
    w.Retains blocks data ↔
      (∀ b ∈ blocks, b.size ≠ 0 → (w.dataMember (unbandMember b.offset)).state = .active) ∧
        SingleValued blocks data := by
  have hz0 : (w.write blocks data).2.1 = 0 := by rw [hrc]
  constructor
  · intro hret
    exact ⟨fun b hb hsz => hret.active hwired hband h64 hz0 hb hsz,
      hret.singleValued hwired hband h64 hz0⟩
  · rintro ⟨hact, content, hct⟩ batches
    left
    obtain ⟨_, _, heq⟩ := write_eq_zero hz0
    have huns := unsettled_write hwired hband h64 hz0
    have hser₁ : (w.write blocks data).1.Serving := by
      intro d hd hd'
      rw [heq] at hd hd' ⊢
      exact ((landSegments_frame w _).status_eq _).1.trans (hserving d hd hd')
    have hsm := sameData_builds huns.wired hser₁ batches
    set w₁ := (w.write blocks data).1 with hw₁
    set w' := batches.foldl buildParity w₁
    have hband' : w'.BandLimited := fun p => (hsm.capacity_eq p).trans_le (huns.bandLimited p)
    have hdir : ∀ b ∈ blocks, b.size ≠ 0 → w'.Direct b := fun b hb hsz =>
      hsm.direct (direct_write hserving hrc hb hsz (hact b hb hsz))
    have hne : ¬ (w'.dataMembers = [] ∨ blocks = []) := by
      rw [hsm.dataMembers_eq]
      intro hemp
      have hms : w₁.dataMembers = w.dataMembers := by rw [hw₁, heq]
      rw [hms] at hemp
      rw [write, if_pos hemp] at hz0
      exact Nat.one_ne_zero hz0
    rw [World.read, if_neg hne, World.readBlocks_direct hband' hdir]
    refine Prod.ext rfl ((map_congr_left fun y hy => ?_).trans hct)
    -- a single-valued payload of active members is on the devices
    have hack : w.ackBlocks data blocks 0 (fun _ => none) y = some (content y) :=
      ackBlocks_eq hact (drop_zero.trans hct.symm) hy
    obtain ⟨hlt, hval⟩ : unbandMember y < w₁.dataMembers.length ∧ w₁.byteAt y = content y := by
      rw [hw₁, heq]
      exact write_acked (L := fun _ => True) hwired hband hz0
        (fun _ v _ hv => absurd hv (Option.some_ne_none v).symm) trivial hack
    rw [← hval, byteAt, byteAt, dataClient, hsm.dataClients_eq, ← dataClient, hsm.dev_eq _ hlt]

/-! ## The pair with a member down -/

namespace pair

variable {state : EcState} {a0 a1 : MemberAlloc} {cursor : ℕ} {written dirty : Finset ℕ}
  {f g : ℕ → UInt8}

lemma wired : (pair state a0 a1 cursor written dirty f g).Wired := by
  have hps : ([⟨1, 0⟩, ⟨2, 0⟩, ⟨3, 0⟩] : List PoolId).Nodup := by decide
  exact ⟨rfl, rfl, rfl, rfl, hps⟩

lemma bandLimited : (pair state a0 a1 cursor written dirty f g).BandLimited := fun _ =>
  Nat.add_le_add_left (Nat.le_mul_of_pos_left _ kSlotsPerMember_pos) _

lemma serving : (pair state a0 a1 cursor written dirty f g).Serving := fun _ _ _ => rfl

end pair

/-- A byte written to an active member of the pair is retained. -/
theorem write_retains_iff_pair :
    (pair .active ⟨1, 1, [], {0}⟩ ⟨0, 1, [], ∅⟩ 1 ∅ ∅ (fun _ => 0) fun _ => 0).Retains
      [⟨0, 1⟩] [7] := by
  refine (write_retains_iff pair.wired pair.bandLimited pair.serving (by simp) ?_).mpr
    ⟨fun b hb _ => ?_, fun _ => 7, rfl⟩
  · rw [pair.write_first]
    rfl
  · rw [mem_singleton.mp hb, unband_zero.1]
    rfl

/-- The pair with its first member faulty and a live chunk on it. -/
def pairDown : World :=
  pair .faulty ⟨1, 1, [], {0}⟩ ⟨0, 1, [], ∅⟩ 1 ∅ ∅ (fun _ => 0) fun _ => 0

/-- **A successful `Write` drops the payload of a member that is down.**  One of two data members is
faulty and one parity member is active.  The `Write` to the faulty member's live chunk returns `0`
with `bytes_written_ = 1`, no device changes, and neither a `Read` nor any recovery brings the byte
back. -/
theorem droppedPayload_of_write_faulty :
    ((pairDown.dataMembers ++ pairDown.parityMembers).countP fun m => m.state ≠ .active)
        ≤ pairDown.parityLevel ∧
      pairDown.LiveAt 0 ∧ (pairDown.write [⟨0, 1⟩] [7]).2 = (0, 1) ∧
      (pairDown.write [⟨0, 1⟩] [7]).1.dev = pairDown.dev ∧
      ¬ pairDown.Retains [⟨0, 1⟩] [7] := by
  have hwr : (pairDown.write [⟨0, 1⟩] [7]).2 = (0, 1) := by with_unfolding_all rfl
  refine ⟨by decide, pair.liveAt_zero, hwr, by with_unfolding_all rfl, fun hret => ?_⟩
  have hacti := hret.active pair.wired pair.bandLimited (by simp) (by rw [hwr])
    (mem_singleton_self _) Nat.one_ne_zero
  rw [unband_zero.1] at hacti
  cases hacti

end ClioCore.SafeBdev
