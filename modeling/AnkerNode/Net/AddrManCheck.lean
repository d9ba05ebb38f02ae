import AnkerNode.Lib.Checks
import AnkerNode.Net.AddrManRun
import Std.Data.TreeSet.Lemmas

namespace AnkerNode

open Checks

-- what `Check_` collects of the entries
structure CheckSets where
  setTried : Std.TreeSet Nat := ∅
  mapNew : Std.TreeMap Nat Int := ∅

namespace CAddrMan

def triedSlots : List (Nat × Nat) :=
  (List.range ADDRMAN_TRIED_BUCKET_COUNT).product (List.range ADDRMAN_BUCKET_SIZE)

section Check

variable (ctx : AddrManContext) (s : CAddrMan)

def checkKind (sets : CheckSets) (n : Nat) (info : CAddrInfo) : Except Int CheckSets :=
  if info.fInTried then do
    failIf (info.nLastSuccess = 0) (-1)
    failIf (info.nRefCount ≠ 0) (-2)
    .ok { sets with setTried := sets.setTried.insert n }
  else do
    failIf (info.nRefCount < 0 ∨ ADDRMAN_NEW_BUCKETS_PER_ADDRESS < info.nRefCount) (-3)
    failIf (info.nRefCount = 0) (-4)
    .ok { sets with mapNew := sets.mapNew.insert n info.nRefCount }

def checkEntry (sets : CheckSets) (it : Nat × CAddrInfo) : Except Int CheckSets := do
  let sets ← checkKind sets it.1 it.2
  -- `mapAddr[info]` is 0 for an address that is missing
  failIf ((s.mapAddr it.2.ip).getD 0 ≠ it.1) (-5)
  failIf (it.2.nRandomPos < 0 ∨ s.vRandom.length ≤ it.2.nRandomPos ∨
    s.vRandom[it.2.nRandomPos.toNat]? ≠ some it.1) (-14)
  failIf (it.2.nLastTry < 0) (-6)
  failIf (it.2.nLastSuccess < 0) (-8)
  .ok sets

def checkTriedSlot (setTried : Std.TreeSet Nat) (slot : Nat × Nat) :
    Except Int (Std.TreeSet Nat) :=
  match s.vvTried slot with
  | none => .ok setTried
  | some nId => do
    failIf (!setTried.contains nId) (-11)
    failIf (ctx.getTriedBucket s.nKey (s.entry nId) ≠ slot.1) (-17)
    failIf (ctx.getBucketPosition s.nKey (s.entry nId) false slot.1 ≠ slot.2) (-18)
    .ok (setTried.erase nId)

def checkNewSlot (mapNew : Std.TreeMap Nat Int) (slot : Nat × Nat) :
    Except Int (Std.TreeMap Nat Int) :=
  match s.vvNew slot with
  | none => .ok mapNew
  | some nId => do
    failIf (!mapNew.contains nId) (-12)
    failIf (ctx.getBucketPosition s.nKey (s.entry nId) true slot.1 ≠ slot.2) (-19)
    if mapNew.getD nId 0 - 1 = 0 then .ok (mapNew.erase nId)
    else .ok (mapNew.insert nId (mapNew.getD nId 0 - 1))

def checkAll : Except Int Unit := do
  failIf ((s.vRandom.length : Int) ≠ s.nTried + s.nNew) (-7)
  let sets ← s.mapInfo.toList.foldlM s.checkEntry {}
  failIf ((sets.setTried.size : Int) ≠ s.nTried) (-9)
  failIf ((sets.mapNew.size : Int) ≠ s.nNew) (-10)
  let setTried ← triedSlots.foldlM (s.checkTriedSlot ctx) sets.setTried
  let mapNew ← newSlots.foldlM (s.checkNewSlot ctx) sets.mapNew
  failIf (setTried.size ≠ 0) (-13)
  failIf (mapNew.size ≠ 0) (-15)
  failIf (s.nKey = 0) (-16)

-- the code `Check_` returns
def check : Int :=
  match s.checkAll ctx with
  | .error err => err
  | .ok _ => 0

end Check

end CAddrMan

-- The entries have gone into the sets.
structure Collected (its : List (Nat × CAddrInfo)) (sets : CheckSets) : Prop where
  tried : ∀ n, sets.setTried.contains n = true ↔ ∃ info, (n, info) ∈ its ∧ info.fInTried = true
  new : ∀ (n : Nat) r, sets.mapNew[n]? = some r ↔
    ∃ info, (n, info) ∈ its ∧ info.fInTried = false ∧ info.nRefCount = r
  countTried : sets.setTried.size = (its.map fun it => CAddrMan.isTried it.2).sum
  countNew : sets.mapNew.size = (its.map fun it => CAddrMan.isNew it.2).sum

namespace Collected

variable {its : List (Nat × CAddrInfo)} {sets : CheckSets} {n : Nat} {info : CAddrInfo}

theorem empty : Collected [] {} where
  tried n := by simp
  new n r := by simp
  countTried := rfl
  countNew := rfl

theorem putTried (h : Collected its sets) (hfresh : ∀ info, (n, info) ∉ its)
    (htried : info.fInTried = true) :
    Collected (its ++ [(n, info)]) { sets with setTried := sets.setTried.insert n } where
  tried m := by
    have hold := h.tried m
    rw [Std.TreeSet.contains_insert]
    simp only [List.mem_append, List.mem_singleton, Prod.mk.injEq, Bool.or_eq_true, beq_iff_eq,
      Std.LawfulEqOrd.compare_eq_iff_eq]
    grind
  new m r := by
    have hold := h.new m r
    simp only [List.mem_append, List.mem_singleton, Prod.mk.injEq]
    grind
  countTried := by
    have hout : sets.setTried.contains n = false := by
      rw [Bool.eq_false_iff]
      intro hin
      obtain ⟨old, hold, -⟩ := (h.tried n).mp hin
      exact hfresh old hold
    rw [Std.TreeSet.size_insert, hout, if_neg Bool.false_ne_true, h.countTried]
    simp [CAddrMan.isTried, htried]
  countNew := by
    rw [h.countNew]
    simp [CAddrMan.isNew, htried]

theorem putNew (h : Collected its sets) (hfresh : ∀ info, (n, info) ∉ its)
    (hnew : info.fInTried = false) :
    Collected (its ++ [(n, info)])
      { sets with mapNew := sets.mapNew.insert n info.nRefCount } where
  tried m := by
    have hold := h.tried m
    simp only [List.mem_append, List.mem_singleton, Prod.mk.injEq]
    grind
  new m r := by
    have hold := h.new m r
    rw [Std.TreeMap.getElem?_insert]
    simp only [List.mem_append, List.mem_singleton, Prod.mk.injEq,
      Std.LawfulEqOrd.compare_eq_iff_eq]
    grind
  countTried := by
    rw [h.countTried]
    simp [CAddrMan.isTried, hnew]
  countNew := by
    have hout : sets.mapNew.contains n = false := by
      rw [Bool.eq_false_iff]
      intro hin
      rw [← Std.TreeMap.isSome_getElem?_eq_contains, Option.isSome_iff_exists] at hin
      obtain ⟨r, hr⟩ := hin
      obtain ⟨old, hold, -⟩ := (h.new n r).mp hr
      exact hfresh old hold
    rw [Std.TreeMap.size_insert, hout, if_neg Bool.false_ne_true, h.countNew]
    simp [CAddrMan.isNew, hnew]

end Collected

-- A map with as many of each entry as the slots have.
def Left (slots : List (Nat × Nat)) (t : Nat × Nat → Option Nat) (m : Std.TreeMap Nat Int) : Prop :=
  ∀ a : Nat, m[a]? = if SlotTable.occ slots t a = 0 then none
    else some (SlotTable.occ slots t a : Int)

def LeftOnce (slots : List (Nat × Nat)) (t : Nat × Nat → Option Nat) (set : Std.TreeSet Nat) :
    Prop :=
  ∀ a, set.contains a = true ↔ 0 < SlotTable.occ slots t a

namespace CAddrMan

variable {ctx : AddrManContext} {nKey : UInt256} {s : CAddrMan} {n : Nat} {info : CAddrInfo}
  {its : List (Nat × CAddrInfo)} {sets : CheckSets} {slots : List (Nat × Nat)} {slot : Nat × Nat}

theorem Sound.checkKind (h : Sound ctx nKey s) (hid : s.entries n = some info)
    (hfresh : ∀ info, (n, info) ∉ its) (hsets : Collected its sets) :
    ∃ sets', checkKind sets n info = .ok sets' ∧ Collected (its ++ [(n, info)]) sets' := by
  rw [CAddrMan.checkKind]
  cases htried : info.fInTried with
  | true =>
    obtain ⟨href, -, hgood⟩ := h.slotted.tried n info hid htried
    refine ⟨_, ?_, hsets.putTried hfresh htried⟩
    rw [if_pos rfl, failIf_bind (by simp [hgood]), failIf_bind (by simp [href])]
  | false =>
    obtain ⟨hocc, hle, hne⟩ := h.slotted.new n info hid htried
    have hpos : info.nRefCount ≠ 0 := hne id
    have hrange : ¬(info.nRefCount < 0 ∨ ADDRMAN_NEW_BUCKETS_PER_ADDRESS < info.nRefCount) := by
      omega
    refine ⟨_, ?_, hsets.putNew hfresh htried⟩
    rw [if_neg Bool.false_ne_true, failIf_bind (by simpa using hrange),
      failIf_bind (by simp [hpos])]

theorem Sound.checkEntry (h : Sound ctx nKey s) (hid : s.entries n = some info)
    (hfresh : ∀ info, (n, info) ∉ its) (hsets : Collected its sets) :
    ∃ sets', s.checkEntry sets (n, info) = .ok sets' ∧ Collected (its ++ [(n, info)]) sets' := by
  obtain ⟨p, hp, hlt, hat⟩ := h.listed.exists_pos hid
  have haddr : s.mapAddr info.ip = some n := (h.listed.addr info.ip n).mpr ⟨info, hid, rfl⟩
  obtain ⟨htry, hsuccess⟩ := h.slotted.times n info hid
  obtain ⟨sets', hsets', hcollected⟩ := h.checkKind hid hfresh hsets
  refine ⟨sets', ?_, hcollected⟩
  have hpos : ¬(info.nRandomPos < 0 ∨ (s.vRandom.length : Int) ≤ info.nRandomPos ∨
      s.vRandom[info.nRandomPos.toNat]? ≠ some n) := by
    rw [hp, Int.toNat_natCast, hat]
    simp [hlt]
  rw [CAddrMan.checkEntry, hsets', ok_bind, failIf_bind (by simp [haddr]),
    failIf_bind (by simpa using hpos), failIf_bind (by simpa using htry),
    failIf_bind (by simpa using hsuccess)]

theorem Sound.foldlM_checkEntry (h : Sound ctx nKey s)
    (hits : ∀ it ∈ its, s.entries it.1 = some it.2) (hnd : (its.map Prod.fst).Nodup) :
    ∃ sets, its.foldlM s.checkEntry {} = .ok sets ∧ Collected its sets := by
  induction its using List.reverseRecOn with
  | nil => exact ⟨{}, rfl, Collected.empty⟩
  | append_singleton its it ih =>
    rw [List.map_append, List.nodup_append'] at hnd
    obtain ⟨sets, hsets, hcollected⟩ := ih (fun i hi => hits i (List.mem_append_left _ hi)) hnd.1
    have hfresh : ∀ info, (it.1, info) ∉ its := fun info hin =>
      hnd.2.2 (List.mem_map_of_mem hin) (List.mem_singleton.mpr rfl)
    obtain ⟨sets', hsets', hcollected'⟩ := h.checkEntry
      (hits it (List.mem_append_right _ (List.mem_singleton.mpr rfl))) hfresh hcollected
    refine ⟨sets', ?_, hcollected'⟩
    rw [List.foldlM_append, hsets, ok_bind, List.foldlM_cons, hsets', ok_bind]
    rfl

theorem Sound.checkNewSlot (h : Sound ctx nKey s) {mapNew : Std.TreeMap Nat Int}
    (hleft : Left (slot :: slots) s.vvNew mapNew) :
    ∃ mapNew', s.checkNewSlot ctx mapNew slot = .ok mapNew' ∧ Left slots s.vvNew mapNew' := by
  rw [CAddrMan.checkNewSlot]
  cases hslot : s.vvNew slot with
  | none =>
    refine ⟨mapNew, rfl, fun a => ?_⟩
    have hocc : SlotTable.occ (slot :: slots) s.vvNew a = SlotTable.occ slots s.vvNew a := by
      rw [SlotTable.occ_cons, hslot, if_neg (by simp), Nat.zero_add]
    rw [hleft a, hocc]
  | some nId =>
    obtain ⟨-, info, hid, -, heq⟩ := h.slotted.new_slot slot nId hslot
    have hocc : ∀ a : Nat, SlotTable.occ (slot :: slots) s.vvNew a =
        (if nId = a then 1 else 0) + SlotTable.occ slots s.vvNew a := by
      intro a
      rw [SlotTable.occ_cons, hslot]
      simp only [Option.some.injEq]
    have hget : mapNew[nId]? = some (1 + SlotTable.occ slots s.vvNew nId : Int) := by
      rw [hleft nId, hocc nId, if_pos rfl, if_neg (by omega)]
      simp
    have hcontains : mapNew.contains nId = true := by
      rw [← Std.TreeMap.isSome_getElem?_eq_contains, hget]
      rfl
    have hgetD : mapNew.getD nId 0 - 1 = SlotTable.occ slots s.vvNew nId := by
      rw [Std.TreeMap.getD_eq_getD_getElem?, hget, Option.getD_some]
      omega
    have hposition : ctx.getBucketPosition s.nKey (s.entry nId) true slot.1 = slot.2 := by
      rw [entry_eq hid, h.key]
      exact (congrArg Prod.snd heq).symm
    dsimp only
    rw [failIf_bind (by simp [hcontains]), failIf_bind (by simp [hposition]), hgetD]
    by_cases hzero : (SlotTable.occ slots s.vvNew nId : Int) = 0
    · refine ⟨mapNew.erase nId, if_pos hzero, fun a => ?_⟩
      have hold := hleft a
      rw [hocc a] at hold
      rw [Std.TreeMap.getElem?_erase]
      simp only [Std.LawfulEqOrd.compare_eq_iff_eq]
      grind
    · refine ⟨_, if_neg hzero, fun a => ?_⟩
      have hold := hleft a
      rw [hocc a] at hold
      rw [Std.TreeMap.getElem?_insert]
      simp only [Std.LawfulEqOrd.compare_eq_iff_eq]
      grind

theorem Sound.checkTriedSlot (h : Sound ctx nKey s) {setTried : Std.TreeSet Nat}
    (honce : slot ∉ slots) (hleft : LeftOnce (slot :: slots) s.vvTried setTried) :
    ∃ setTried', s.checkTriedSlot ctx setTried slot = .ok setTried' ∧
      LeftOnce slots s.vvTried setTried' := by
  rw [CAddrMan.checkTriedSlot]
  cases hslot : s.vvTried slot with
  | none =>
    refine ⟨setTried, rfl, fun a => ?_⟩
    rw [hleft a, SlotTable.occ_cons, hslot, if_neg (by simp), Nat.zero_add]
  | some nId =>
    obtain ⟨info, hid, -, heq⟩ := h.slotted.tried_slot slot nId hslot
    have hcontains : setTried.contains nId = true := by
      rw [hleft nId, SlotTable.occ_cons, hslot, if_pos rfl]
      omega
    have hbucket : ctx.getTriedBucket s.nKey (s.entry nId) = slot.1 := by
      rw [entry_eq hid, h.key]
      exact (congrArg Prod.fst heq).symm
    have hposition : ctx.getBucketPosition s.nKey (s.entry nId) false slot.1 = slot.2 := by
      rw [← hbucket, entry_eq hid, h.key]
      exact (congrArg Prod.snd heq).symm
    have hgone : SlotTable.occ slots s.vvTried nId = 0 := by
      refine Nat.eq_zero_of_not_pos fun hpos => ?_
      obtain ⟨c, hc, hcn⟩ := SlotTable.occ_pos_iff.mp hpos
      obtain ⟨info', hid', -, heq'⟩ := h.slotted.tried_slot c nId hcn
      rw [hid, Option.some.injEq] at hid'
      rw [heq, hid', ← heq'] at honce
      exact honce hc
    dsimp only
    rw [failIf_bind (by simp [hcontains]), failIf_bind (by simp [hbucket]),
      failIf_bind (by simp [hposition])]
    refine ⟨_, rfl, fun a => ?_⟩
    have hold := hleft a
    rw [SlotTable.occ_cons, hslot] at hold
    rw [Std.TreeSet.contains_erase]
    simp only [Bool.and_eq_true, bne_iff_ne, ne_eq, Std.LawfulEqOrd.compare_eq_iff_eq]
    grind

theorem Sound.foldlM_checkNewSlot (h : Sound ctx nKey s) {mapNew : Std.TreeMap Nat Int}
    (hleft : Left slots s.vvNew mapNew) :
    ∃ mapNew', slots.foldlM (s.checkNewSlot ctx) mapNew = .ok mapNew' ∧ Left [] s.vvNew mapNew' := by
  induction slots generalizing mapNew with
  | nil => exact ⟨mapNew, rfl, hleft⟩
  | cons slot slots ih =>
    obtain ⟨mapNew₁, hstep, hleft₁⟩ := h.checkNewSlot hleft
    rw [List.foldlM_cons, hstep, ok_bind]
    exact ih hleft₁

theorem Sound.foldlM_checkTriedSlot (h : Sound ctx nKey s) {setTried : Std.TreeSet Nat}
    (hnd : slots.Nodup) (hleft : LeftOnce slots s.vvTried setTried) :
    ∃ setTried', slots.foldlM (s.checkTriedSlot ctx) setTried = .ok setTried' ∧
      LeftOnce [] s.vvTried setTried' := by
  induction slots generalizing setTried with
  | nil => exact ⟨setTried, rfl, hleft⟩
  | cons slot slots ih =>
    obtain ⟨honce, hnd⟩ := List.nodup_cons.mp hnd
    obtain ⟨setTried₁, hstep, hleft₁⟩ := h.checkTriedSlot honce hleft
    rw [List.foldlM_cons, hstep, ok_bind]
    exact ih hnd hleft₁

theorem triedSlots_nodup : triedSlots.Nodup := List.nodup_range.product List.nodup_range

theorem triedSlot_mem (ctx : AddrManContext) (nKey : UInt256) (info : CAddrInfo) :
    ctx.triedSlot nKey info ∈ triedSlots :=
  List.mem_product.mpr ⟨List.mem_range.mpr (Nat.mod_lt _ (by decide)),
    List.mem_range.mpr (Nat.mod_lt _ (by decide))⟩

theorem mem_toList_iff (s : CAddrMan) (n : Nat) (info : CAddrInfo) :
    (n, info) ∈ s.mapInfo.toList ↔ s.entries n = some info :=
  Std.TreeMap.mem_toList_iff_getElem?_eq_some

theorem keys_nodup (s : CAddrMan) : (s.mapInfo.toList.map Prod.fst).Nodup := by
  refine List.Pairwise.map _ ?_ Std.TreeMap.distinct_keys_toList
  intro a b hab heq
  exact hab (by rw [heq]; exact Std.ReflOrd.compare_self)

theorem Listed.length_vRandom (h : s.Listed) : s.vRandom.length = s.mapInfo.toList.length := by
  have hperm : s.vRandom.Perm (s.mapInfo.toList.map Prod.fst) := by
    refine (List.perm_ext_iff_of_nodup h.random.nodup s.keys_nodup).mpr fun n => ?_
    rw [h.random.mem_iff, Option.isSome_map, Option.isSome_iff_exists, List.mem_map]
    constructor
    · rintro ⟨info, hid⟩
      exact ⟨(n, info), (s.mem_toList_iff n info).mpr hid, rfl⟩
    · rintro ⟨⟨m, info⟩, hmem, rfl⟩
      exact ⟨info, (s.mem_toList_iff m info).mp hmem⟩
  rw [hperm.length_eq, List.length_map]

theorem total_isTried_add_isNew (s : CAddrMan) :
    TreeTotal.total isTried s.mapInfo + TreeTotal.total isNew s.mapInfo =
      s.mapInfo.toList.length := by
  have hone : ∀ info : CAddrInfo, isTried info + isNew info = 1 := by
    intro info
    rw [isTried, isNew]
    split <;> rfl
  rw [TreeTotal.total, TreeTotal.total, ← List.sum_map_add]
  induction s.mapInfo.toList with
  | nil => rfl
  | cons it its ih =>
    rw [List.map_cons, List.sum_cons, ih, hone, List.length_cons, Nat.add_comm]

-- before any slot is looked at
theorem Sound.left (h : Sound ctx nKey s) (hsets : Collected s.mapInfo.toList sets) :
    Left newSlots s.vvNew sets.mapNew := by
  intro a
  refine Option.ext fun r => ?_
  rw [hsets.new a r]
  simp only [mem_toList_iff]
  constructor
  · rintro ⟨info, hid, hnew, rfl⟩
    obtain ⟨hocc, -, hne⟩ := h.slotted.new a info hid hnew
    have hpos := hne id
    rw [hocc] at hpos ⊢
    rw [if_neg (Int.natCast_ne_zero.mp hpos)]
  · intro hr
    by_cases hnew : ∃ info, s.entries a = some info ∧ info.fInTried = false
    · obtain ⟨info, hid, hnew⟩ := hnew
      obtain ⟨hocc, -, -⟩ := h.slotted.new a info hid hnew
      refine ⟨info, hid, hnew, ?_⟩
      split at hr
      · cases hr
      · rw [hocc]
        exact Option.some.inj hr
    · have hzero : SlotTable.occ newSlots s.vvNew a = 0 := by
        refine Nat.eq_zero_of_not_pos fun hpos => hnew ?_
        obtain ⟨slot, -, hslot⟩ := SlotTable.occ_pos_iff.mp hpos
        obtain ⟨-, info, hid, hfalse, -⟩ := h.slotted.new_slot slot a hslot
        exact ⟨info, hid, hfalse⟩
      rw [hzero, if_pos rfl] at hr
      cases hr

theorem Sound.leftOnce (h : Sound ctx nKey s) (hsets : Collected s.mapInfo.toList sets) :
    LeftOnce triedSlots s.vvTried sets.setTried := by
  intro a
  rw [hsets.tried a, SlotTable.occ_pos_iff]
  simp only [mem_toList_iff]
  constructor
  · rintro ⟨info, hid, htried⟩
    exact ⟨_, triedSlot_mem ctx nKey info, (h.slotted.tried a info hid htried).2.1⟩
  · rintro ⟨slot, -, hslot⟩
    obtain ⟨info, hid, htried, -⟩ := h.slotted.tried_slot slot a hslot
    exact ⟨info, hid, htried⟩

theorem Sound.checkAll (h : Sound ctx nKey s) :
    s.checkAll ctx = failIf (nKey = 0) (-16) := by
  have hlength := h.listed.length_vRandom
  have htotal := s.total_isTried_add_isNew
  have hnNew := h.countNew
  have hnTried := h.countTried
  obtain ⟨sets, hsets, hcollected⟩ := h.foldlM_checkEntry
    (fun it hit => (s.mem_toList_iff it.1 it.2).mp hit) s.keys_nodup
  obtain ⟨setTried, htried, hleftTried⟩ := h.foldlM_checkTriedSlot triedSlots_nodup
    (h.leftOnce hcollected)
  obtain ⟨mapNew, hnew, hleftNew⟩ := h.foldlM_checkNewSlot (h.left hcollected)
  have hcountTried : sets.setTried.size = TreeTotal.total isTried s.mapInfo := hcollected.countTried
  have hcountNew : sets.mapNew.size = TreeTotal.total isNew s.mapInfo := hcollected.countNew
  have hemptyTried : setTried.size = 0 := by
    rw [← beq_iff_eq, ← Std.TreeSet.isEmpty_eq_size_eq_zero,
      Std.TreeSet.isEmpty_iff_forall_contains]
    intro a
    rw [Bool.eq_false_iff, ne_eq, hleftTried a]
    exact lt_irrefl 0
  have hemptyNew : mapNew.size = 0 := by
    rw [← beq_iff_eq, ← Std.TreeMap.isEmpty_eq_size_eq_zero,
      Std.TreeMap.isEmpty_iff_forall_contains]
    intro a
    rw [← Std.TreeMap.isSome_getElem?_eq_contains, hleftNew a]
    rfl
  rw [CAddrMan.checkAll, failIf_bind (by simp; omega), hsets, ok_bind, failIf_bind (by simp; omega),
    failIf_bind (by simp; omega), htried, ok_bind, hnew, ok_bind, failIf_bind (by simp [hemptyTried]),
    failIf_bind (by simp [hemptyNew]), h.key]

theorem Sound.check_eq (h : Sound ctx nKey s) : s.check ctx = if nKey = 0 then -16 else 0 := by
  rw [check, h.checkAll, failIf]
  by_cases hkey : nKey = 0
  · simp only [hkey, decide_true, if_true]
  · simp only [hkey, decide_false, Bool.false_eq_true, if_false]

end CAddrMan

end AnkerNode
