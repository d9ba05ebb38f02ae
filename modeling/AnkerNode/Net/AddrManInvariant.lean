import AnkerNode.Lib.SlotTable
import AnkerNode.Net.AddrMan
import Mathlib.Data.List.ProdSigma

namespace AnkerNode

namespace CAddrMan

def newSlots : List (Nat × Nat) :=
  (List.range ADDRMAN_NEW_BUCKET_COUNT).product (List.range ADDRMAN_BUCKET_SIZE)

def entries (s : CAddrMan) : Nat → Option CAddrInfo := fun nId => s.mapInfo[nId]?

-- The buckets agree with the entries; a `loose` entry may be in no bucket.
structure Slotted (ctx : AddrManContext) (nKey : UInt256) (loose : Nat → Prop)
    (e : Nat → Option CAddrInfo) (vvNew vvTried : Nat × Nat → Option Nat) : Prop where
  new_slot : ∀ slot nId, vvNew slot = some nId → slot.1 < ADDRMAN_NEW_BUCKET_COUNT ∧
    ∃ info, e nId = some info ∧ info.fInTried = false ∧ slot = ctx.newSlot nKey info slot.1
  tried_slot : ∀ slot nId, vvTried slot = some nId → ∃ info, e nId = some info ∧
    info.fInTried = true ∧ slot = ctx.triedSlot nKey info
  tried : ∀ nId info, e nId = some info → info.fInTried = true → info.nRefCount = 0 ∧
    vvTried (ctx.triedSlot nKey info) = some nId ∧ info.nLastSuccess ≠ 0
  new : ∀ nId info, e nId = some info → info.fInTried = false →
    info.nRefCount = SlotTable.occ newSlots vvNew nId ∧
      info.nRefCount ≤ ADDRMAN_NEW_BUCKETS_PER_ADDRESS ∧ (¬loose nId → info.nRefCount ≠ 0)
  times : ∀ nId info, e nId = some info → 0 ≤ info.nLastTry ∧ 0 ≤ info.nLastSuccess

-- what the moves between the buckets leave of an entry
structure Moved (info info' : CAddrInfo) : Prop where
  service : info'.toNetService = info.toNetService
  lastTry : info'.nLastTry = info.nLastTry
  lastSuccess : info'.nLastSuccess = info.nLastSuccess

section Slots

theorem newSlots_nodup : newSlots.Nodup := List.nodup_range.product List.nodup_range

variable (ctx : AddrManContext) (nKey : UInt256) (info : CAddrInfo)

theorem newSlot_mem {nBucket : Nat} (h : nBucket < ADDRMAN_NEW_BUCKET_COUNT) :
    ctx.newSlot nKey info nBucket ∈ newSlots :=
  List.mem_product.mpr ⟨List.mem_range.mpr h, List.mem_range.mpr (Nat.mod_lt _ (by decide))⟩

theorem getNewBucket_lt (src : CNetAddr) :
    ctx.getNewBucket nKey info src < ADDRMAN_NEW_BUCKET_COUNT := Nat.mod_lt _ (by decide)

variable {info} {info' : CAddrInfo}

theorem newSlot_congr (h : info'.toNetService = info.toNetService) (nBucket : Nat) :
    ctx.newSlot nKey info' nBucket = ctx.newSlot nKey info nBucket := by
  simp only [AddrManContext.newSlot, AddrManContext.getBucketPosition, h]

theorem triedSlot_congr (h : info'.toNetService = info.toNetService) :
    ctx.triedSlot nKey info' = ctx.triedSlot nKey info := by
  simp only [AddrManContext.triedSlot, AddrManContext.getBucketPosition,
    AddrManContext.getTriedBucket, h]

end Slots

namespace Slotted

variable {ctx : AddrManContext} {nKey : UInt256} {loose loose' : Nat → Prop}
  {e : Nat → Option CAddrInfo} {vvNew vvTried : Nat × Nat → Option Nat} {slot : Nat × Nat}
  {nId : Nat} {info info' : CAddrInfo}

theorem mono (h : Slotted ctx nKey loose e vvNew vvTried)
    (hloose : ∀ nId info, e nId = some info → info.fInTried = false → loose nId →
      loose' nId ∨ info.nRefCount ≠ 0) :
    Slotted ctx nKey loose' e vvNew vvTried where
  new_slot := h.new_slot
  tried_slot := h.tried_slot
  tried := h.tried
  new nId info hid hnew := by
    obtain ⟨hocc, hle, hne⟩ := h.new nId info hid hnew
    refine ⟨hocc, hle, fun hnot => ?_⟩
    by_cases hl : loose nId
    · exact (hloose nId info hid hnew hl).resolve_left hnot
    · exact hne hl
  times := h.times

theorem slot_mem (h : Slotted ctx nKey loose e vvNew vvTried) (hslot : vvNew slot = some nId) :
    slot ∈ newSlots := by
  obtain ⟨hlt, info, -, -, heq⟩ := h.new_slot slot nId hslot
  rw [heq]
  exact newSlot_mem ctx nKey info hlt

theorem refCount_pos (h : Slotted ctx nKey loose e vvNew vvTried) (hslot : vvNew slot = some nId)
    (hid : e nId = some info) : 0 < info.nRefCount := by
  obtain ⟨-, info₁, hid₁, hnew, -⟩ := h.new_slot slot nId hslot
  rw [hid, Option.some.injEq] at hid₁
  subst hid₁
  rw [(h.new nId info hid hnew).1]
  exact Int.natCast_pos.mpr (SlotTable.occ_pos_iff.mpr ⟨slot, h.slot_mem hslot, hslot⟩)

theorem not_slotted (h : Slotted ctx nKey loose e vvNew vvTried) (hid : e nId = some info)
    (href : info.nRefCount = 0) (slot : Nat × Nat) : vvNew slot ≠ some nId := by
  intro hslot
  exact absurd href (Int.ne_of_gt (h.refCount_pos hslot hid))

-- What no bucket looks at may change.
theorem touch (h : Slotted ctx nKey loose e vvNew vvTried) (hid : e nId = some info)
    (hservice : info'.toNetService = info.toNetService) (htried : info'.fInTried = info.fInTried)
    (href : info'.nRefCount = info.nRefCount) (htry : 0 ≤ info'.nLastTry)
    (hsuccess : 0 ≤ info'.nLastSuccess)
    (hgood : info.nLastSuccess ≠ 0 → info'.nLastSuccess ≠ 0) :
    Slotted ctx nKey loose (Function.update e nId (some info')) vvNew vvTried where
  new_slot slot i hi := by
    have hold := h.new_slot slot i hi
    have hslot := newSlot_congr ctx nKey hservice slot.1
    grind [Function.update_apply]
  tried_slot slot i hi := by
    have hold := h.tried_slot slot i hi
    have hslot := triedSlot_congr ctx nKey hservice
    grind [Function.update_apply]
  tried i x hx hxt := by
    have hold := h.tried i
    have hslot := triedSlot_congr ctx nKey hservice
    grind [Function.update_apply]
  new i x hx hxt := by
    have hold := h.new i
    grind [Function.update_apply]
  times i x hx := by
    have hold := h.times i
    grind [Function.update_apply]

-- A new entry is in no bucket yet.
theorem create (h : Slotted ctx nKey loose e vvNew vvTried) (hid : e nId = none)
    (hnew : info.fInTried = false) (href : info.nRefCount = 0) (htry : 0 ≤ info.nLastTry)
    (hsuccess : 0 ≤ info.nLastSuccess) :
    Slotted ctx nKey (fun j => j = nId ∨ loose j) (Function.update e nId (some info))
      vvNew vvTried where
  new_slot slot i hi := by
    have hold := h.new_slot slot i hi
    grind [Function.update_apply]
  tried_slot slot i hi := by
    have hold := h.tried_slot slot i hi
    grind [Function.update_apply]
  tried i x hx hxt := by
    have hold := h.tried i
    grind [Function.update_apply]
  new i x hx hxt := by
    have hold := h.new i
    have hnone : SlotTable.occ newSlots vvNew nId = 0 := by
      refine Nat.eq_zero_of_not_pos fun hpos => ?_
      rw [SlotTable.occ_pos_iff] at hpos
      revert hpos
      rintro ⟨slot, -, hslot⟩
      obtain ⟨-, info', hid', -⟩ := h.new_slot slot nId hslot
      rw [hid] at hid'
      cases hid'
    grind [Function.update_apply, ADDRMAN_NEW_BUCKETS_PER_ADDRESS]
  times i x hx := by
    have hold := h.times i
    grind [Function.update_apply]

-- A slot of the new buckets is emptied; its entry may be without one then.
theorem unslot (h : Slotted ctx nKey loose e vvNew vvTried) (hslot : vvNew slot = some nId)
    (hid : e nId = some info) (hmoved : Moved info info') (htried : info'.fInTried = info.fInTried)
    (href : info'.nRefCount = info.nRefCount - 1) :
    Slotted ctx nKey (fun j => j = nId ∨ loose j) (Function.update e nId (some info'))
      (Function.update vvNew slot none) vvTried where
  new_slot c i hi := by
    have hold := h.new_slot c i
    have hcongr := newSlot_congr ctx nKey hmoved.service c.1
    grind [Function.update_apply]
  tried_slot c i hi := by
    have hold := h.tried_slot c i hi
    have hcongr := triedSlot_congr ctx nKey hmoved.service
    grind [Function.update_apply]
  tried i x hx hxt := by
    have hold := h.tried i
    have hnew := h.new_slot slot nId hslot
    grind [Function.update_apply]
  new i x hx hxt := by
    have hold := h.new i
    have hocc := SlotTable.occ_update (a := i) (v := none) newSlots_nodup (h.slot_mem hslot) (t := vvNew)
    grind [Function.update_apply]
  times i x hx := by
    have hold := h.times i
    grind [Function.update_apply, Moved]

-- A new entry gets an empty slot of its own.
theorem slotNew (h : Slotted ctx nKey loose e vvNew vvTried) (hslot : vvNew slot = none)
    (hid : e nId = some info) (hnew : info.fInTried = false)
    (hbucket : slot.1 < ADDRMAN_NEW_BUCKET_COUNT) (heq : slot = ctx.newSlot nKey info slot.1)
    (hroom : info.nRefCount < ADDRMAN_NEW_BUCKETS_PER_ADDRESS) (hmoved : Moved info info')
    (htried : info'.fInTried = info.fInTried) (href : info'.nRefCount = info.nRefCount + 1) :
    Slotted ctx nKey (fun j => loose j ∧ j ≠ nId) (Function.update e nId (some info'))
      (Function.update vvNew slot (some nId)) vvTried where
  new_slot c i hi := by
    have hold := h.new_slot c i
    have hcongr := newSlot_congr ctx nKey hmoved.service c.1
    grind [Function.update_apply]
  tried_slot c i hi := by
    have hold := h.tried_slot c i hi
    have hcongr := triedSlot_congr ctx nKey hmoved.service
    grind [Function.update_apply]
  tried i x hx hxt := by
    have hold := h.tried i
    grind [Function.update_apply]
  new i x hx hxt := by
    have hold := h.new i
    have hmem : slot ∈ newSlots := by
      rw [heq]
      exact newSlot_mem ctx nKey info hbucket
    have hocc := SlotTable.occ_update (a := i) (v := some nId) newSlots_nodup hmem (t := vvNew)
    grind [Function.update_apply]
  times i x hx := by
    have hold := h.times i
    grind [Function.update_apply, Moved]

theorem remove (h : Slotted ctx nKey loose e vvNew vvTried) (hid : e nId = some info)
    (hnew : info.fInTried = false) (href : info.nRefCount = 0) :
    Slotted ctx nKey (fun j => loose j ∧ j ≠ nId) (Function.update e nId none) vvNew vvTried where
  new_slot c i hi := by
    have hold := h.new_slot c i hi
    have hnot := h.not_slotted hid href c
    grind [Function.update_apply]
  tried_slot c i hi := by
    have hold := h.tried_slot c i hi
    grind [Function.update_apply]
  tried i x hx hxt := by
    have hold := h.tried i
    grind [Function.update_apply]
  new i x hx hxt := by
    have hold := h.new i
    grind [Function.update_apply]
  times i x hx := by
    have hold := h.times i
    grind [Function.update_apply]

theorem occ_eq_zero (h : Slotted ctx nKey loose e vvNew vvTried) (hid : e nId = some info)
    (htried : info.fInTried = true) : SlotTable.occ newSlots vvNew nId = 0 := by
  refine Nat.eq_zero_of_not_pos fun hpos => ?_
  rw [SlotTable.occ_pos_iff] at hpos
  obtain ⟨c, -, hc⟩ := hpos
  obtain ⟨-, info', hid', hnew, -⟩ := h.new_slot c nId hc
  grind

-- A tried entry goes back to the new ones, in no bucket yet.
theorem untry (h : Slotted ctx nKey loose e vvNew vvTried) (hslot : vvTried slot = some nId)
    (hid : e nId = some info) (hmoved : Moved info info') (hnew : info'.fInTried = false)
    (href : info'.nRefCount = info.nRefCount) :
    Slotted ctx nKey (fun j => j = nId ∨ loose j) (Function.update e nId (some info')) vvNew
      (Function.update vvTried slot none) where
  new_slot c i hi := by
    have hold := h.new_slot c i hi
    have htried := h.tried_slot slot nId hslot
    grind [Function.update_apply]
  tried_slot c i hi := by
    have hold := h.tried_slot c i
    have htried := h.tried_slot slot nId hslot
    have hplace := h.tried nId info hid
    grind [Function.update_apply]
  tried i x hx hxt := by
    have hold := h.tried i
    grind [Function.update_apply]
  new i x hx hxt := by
    have hold := h.new i
    have htried := h.tried_slot slot nId hslot
    have hplace := h.tried nId info hid
    have hnone := h.occ_eq_zero hid
    grind [Function.update_apply, ADDRMAN_NEW_BUCKETS_PER_ADDRESS]
  times i x hx := by
    have hold := h.times i
    grind [Function.update_apply, Moved]

-- A new entry in no bucket is tried, at a tried slot that is empty.
theorem tryAt (h : Slotted ctx nKey loose e vvNew vvTried) (hid : e nId = some info)
    (hnew : info.fInTried = false) (hzero : info.nRefCount = 0) (hgood : info.nLastSuccess ≠ 0)
    (hslot : vvTried (ctx.triedSlot nKey info) = none) (hmoved : Moved info info')
    (htried : info'.fInTried = true) (href : info'.nRefCount = info.nRefCount) :
    Slotted ctx nKey (fun j => loose j ∧ j ≠ nId) (Function.update e nId (some info')) vvNew
      (Function.update vvTried (ctx.triedSlot nKey info) (some nId)) where
  new_slot c i hi := by
    have hold := h.new_slot c i hi
    have hnot := h.not_slotted hid hzero c
    grind [Function.update_apply]
  tried_slot c i hi := by
    have hold := h.tried_slot c i
    have hcongr := triedSlot_congr ctx nKey hmoved.service
    grind [Function.update_apply]
  tried i x hx hxt := by
    have hold := h.tried i
    have hcongr := triedSlot_congr ctx nKey hmoved.service
    have hsuccess := hmoved.lastSuccess
    grind [Function.update_apply]
  new i x hx hxt := by
    have hold := h.new i
    grind [Function.update_apply]
  times i x hx := by
    have hold := h.times i
    grind [Function.update_apply, Moved]

end Slotted

def isNew (info : CAddrInfo) : Nat := if info.fInTried then 0 else 1

def isTried (info : CAddrInfo) : Nat := if info.fInTried then 1 else 0

-- The indexes of the entries agree.
structure Listed (s : CAddrMan) : Prop where
  addr : ∀ ip nId, s.mapAddr ip = some nId ↔ ∃ info, s.entries nId = some info ∧ info.ip = ip
  random : Positions.Indexed s.vRandom fun nId => (s.entries nId).map CAddrInfo.nRandomPos
  fresh : ∀ nId info, s.entries nId = some info → nId < s.nIdCount

-- The counters are off by `dNew` and `dTried` in the middle of an operation.
structure Booked (ctx : AddrManContext) (nKey : UInt256) (loose : Nat → Prop) (dNew dTried : Int)
    (s : CAddrMan) : Prop where
  key : s.nKey = nKey
  slotted : Slotted ctx nKey loose s.entries s.vvNew s.vvTried
  countNew : s.nNew = TreeTotal.total isNew s.mapInfo + dNew
  countTried : s.nTried = TreeTotal.total isTried s.mapInfo + dTried

structure Consistent (ctx : AddrManContext) (nKey : UInt256) (loose : Nat → Prop)
    (dNew dTried : Int) (s : CAddrMan) : Prop extends Booked ctx nKey loose dNew dTried s where
  listed : s.Listed

section Entries

variable {s : CAddrMan} {nId : Nat} {info info' : CAddrInfo}

theorem entry_eq (hid : s.entries nId = some info) : s.entry nId = info := by
  rw [entry, Std.TreeMap.getD_eq_getD_getElem?]
  rw [entries] at hid
  rw [hid, Option.getD_some]

theorem contains_eq (s : CAddrMan) (nId : Nat) : s.mapInfo.contains nId = (s.entries nId).isSome := by
  rw [entries, Std.TreeMap.isSome_getElem?_eq_contains]

theorem entries_insert (m : Std.TreeMap Nat CAddrInfo) (nId : Nat) (info : CAddrInfo) :
    (fun j => (m.insert nId info)[j]?) = Function.update (fun j => m[j]?) nId (some info) := by
  funext j
  rw [Std.TreeMap.getElem?_insert, Function.update_apply]
  simp only [Std.LawfulEqOrd.compare_eq_iff_eq, @eq_comm _ j nId]

theorem entries_erase (m : Std.TreeMap Nat CAddrInfo) (nId : Nat) :
    (fun j => (m.erase nId)[j]?) = Function.update (fun j => m[j]?) nId none := by
  funext j
  rw [Std.TreeMap.getElem?_erase, Function.update_apply]
  simp only [Std.LawfulEqOrd.compare_eq_iff_eq, @eq_comm _ j nId]

@[simp] theorem entries_setInfo (s : CAddrMan) (nId : Nat) (info : CAddrInfo) :
    (s.setInfo nId info).entries = Function.update s.entries nId (some info) :=
  entries_insert s.mapInfo nId info

-- What an entry counts before and after makes the difference.
theorem total_setInfo (f : CAddrInfo → Nat) (hid : s.entries nId = some info) (info' : CAddrInfo) :
    TreeTotal.total f (s.mapInfo.insert nId info') + f info =
      TreeTotal.total f s.mapInfo + f info' := by
  rw [TreeTotal.total_insert_erase, TreeTotal.total_erase hid]
  omega

end Entries

end CAddrMan

end AnkerNode
