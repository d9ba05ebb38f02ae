import AnkerNode.Net.AddrMan
import AnkerNode.Serialize.TransactionFormat

namespace AnkerNode

open ByteStream

def writeInt (n : Int) : List UInt8 := writeLE 4 (n % 2 ^ 32).toNat

def readInt : Reader Int := do
  let n ← readLE 4
  pure (toInt32 n)

-- the port goes with its high byte first
def NetService.serialize (addr : NetService) : List UInt8 :=
  writeLE 16 addr.ip.toNat ++
    ([UInt8.ofNat (addr.port.toNat / 256)] ++ [UInt8.ofNat (addr.port.toNat % 256)])

def NetService.unserialize : Reader NetService := do
  let ip ← readLE 16
  let high ← readByte
  let low ← readByte
  pure ⟨BitVec.ofNat 128 ip, UInt16.ofNat (high.toNat * 256 + low.toNat)⟩

namespace CAddrInfo

-- under `SER_DISK`, where the version of the client goes first
def serialize (nVersion : UInt32) (info : CAddrInfo) : List UInt8 :=
  writeLE 4 nVersion.toNat ++ (writeLE 4 info.nTime.toNat ++ (writeLE 8 info.nServices.toNat ++
    (info.toNetService.serialize ++ (writeLE 16 info.source.toNat ++
      (writeLE 8 info.nLastSuccess.toUInt64.toNat ++ writeLE 4 info.nAttempts.toUInt32.toNat)))))

-- what is read over an entry; `CAddress::Init` takes the last try away
def unserialize (info : CAddrInfo) : Reader CAddrInfo := do
  let _ ← readLE 4
  let nTime ← readLE 4
  let nServices ← readLE 8
  let service ← NetService.unserialize
  let source ← readLE 16
  let nLastSuccess ← readLE 8
  let nAttempts ← readLE 4
  pure { info with
    toNetService := service
    nServices := UInt64.ofNat nServices
    nTime := UInt32.ofNat nTime
    nLastTry := 0
    source := BitVec.ofNat 128 source
    nLastSuccess := (UInt64.ofNat nLastSuccess).toInt64
    nAttempts := (UInt32.ofNat nAttempts).toInt32 }

-- an entry without what only the memory holds
def onDisk (info : CAddrInfo) : CAddrInfo :=
  { info with nLastTry := 0, nRefCount := 0, fInTried := false, nRandomPos := -1 }

end CAddrInfo

namespace CAddrMan

section Serialize

variable (nVersion : UInt32) (s : CAddrMan)

-- The new entries get numbers in their order; `none` is a failed assertion.
def serializeNew (nNew : Int) : List (Nat × CAddrInfo) → (Nat → Int) → Int →
    Option (List UInt8 × (Nat → Int))
  | [], mapUnkIds, _ => some ([], mapUnkIds)
  | it :: its, mapUnkIds, nIds =>
    let mapUnkIds := Function.update mapUnkIds it.1 nIds
    if it.2.nRefCount ≠ 0 then
      if nIds = nNew then none
      else (serializeNew nNew its mapUnkIds (nIds + 1)).map fun r =>
        (it.2.serialize nVersion ++ r.1, r.2)
    else serializeNew nNew its mapUnkIds nIds

def serializeTried (nTried : Int) : List (Nat × CAddrInfo) → Int → Option (List UInt8)
  | [], _ => some []
  | it :: its, nIds =>
    if it.2.fInTried then
      if nIds = nTried then none
      else (serializeTried nTried its (nIds + 1)).map fun bytes => it.2.serialize nVersion ++ bytes
    else serializeTried nTried its nIds

def serializeBucket (mapUnkIds : Nat → Int) (bucket : Nat) : List UInt8 :=
  let nIds := (List.range ADDRMAN_BUCKET_SIZE).filterMap fun i => s.vvNew (bucket, i)
  writeInt nIds.length ++ nIds.flatMap fun nId => writeInt (mapUnkIds nId)

def serialize : Option (List UInt8) := do
  let new ← serializeNew nVersion s.nNew s.mapInfo.toList (fun _ => 0) 0
  let tried ← serializeTried nVersion s.nTried s.mapInfo.toList 0
  some ([1] ++ ([32] ++ (writeLE 32 s.nKey.toNat ++ (writeInt s.nNew ++ (writeInt s.nTried ++
    (writeLE 4 (ADDRMAN_NEW_BUCKET_COUNT ^^^ 2 ^ 30) ++ (new.1 ++ (tried ++
      (List.range ADDRMAN_NEW_BUCKET_COUNT).flatMap (s.serializeBucket new.2)))))))))

end Serialize

section Unserialize

variable (ctx : AddrManContext) (s : CAddrMan)

-- `Clear` leaves the maps as they are.
def clear (nKey : UInt256) : CAddrMan := { nKey := nKey, mapInfo := s.mapInfo, mapAddr := s.mapAddr }

-- a reference by the primary source
def referBySource (n : Nat) : CAddrMan :=
  let info := s.entry n
  let slot := ctx.newSlot s.nKey info (ctx.getNewBucket s.nKey info info.source)
  if s.vvNew slot = none then
    (s.setNew slot (some n)).setInfo n { info with nRefCount := info.nRefCount + 1 }
  else s

-- `fUsable` where the positions in the file are those of this table
def unserializeNew (fUsable : Bool) : Nat → Nat → CAddrMan → Reader CAddrMan
  | 0, _, s => pure s
  | left + 1, n, s => do
    let info ← CAddrInfo.unserialize (s.entry n)
    let s := { s with
      mapInfo := s.mapInfo.insert n { info with nRandomPos := s.vRandom.length }
      mapAddr := Function.update s.mapAddr info.ip (some n)
      vRandom := s.vRandom ++ [n] }
    unserializeNew fUsable left (n + 1) (if fUsable then s else s.referBySource ctx n)

def unserializeTried : Nat → Int → CAddrMan → Reader (CAddrMan × Int)
  | 0, nLost, s => pure (s, nLost)
  | left + 1, nLost, s => do
    let info ← CAddrInfo.unserialize {}
    let slot := ctx.triedSlot s.nKey info
    if s.vvTried slot = none then
      unserializeTried left nLost { s with
        nIdCount := s.nIdCount + 1
        mapInfo := s.mapInfo.insert s.nIdCount
          { info with nRandomPos := s.vRandom.length, fInTried := true }
        mapAddr := Function.update s.mapAddr info.ip (some s.nIdCount)
        vRandom := s.vRandom ++ [s.nIdCount]
        vvTried := Function.update s.vvTried slot (some s.nIdCount) }
    else unserializeTried left (nLost + 1) s

def placeNew (fUsable : Bool) (bucket : Nat) (nIndex : Int) : CAddrMan :=
  if 0 ≤ nIndex ∧ nIndex < s.nNew then
    let info := s.entry nIndex.toNat
    let slot := ctx.newSlot s.nKey info bucket
    if fUsable ∧ s.vvNew slot = none ∧ info.nRefCount < ADDRMAN_NEW_BUCKETS_PER_ADDRESS then
      (s.setInfo nIndex.toNat { info with nRefCount := info.nRefCount + 1 }).setNew slot
        (some nIndex.toNat)
    else s
  else s

def unserializePositions (fUsable : Bool) (bucket : Nat) : Nat → CAddrMan → Reader CAddrMan
  | 0, s => pure s
  | left + 1, s => do
    let nIndex ← readInt
    unserializePositions fUsable bucket left (s.placeNew ctx fUsable bucket nIndex)

def unserializeBuckets (fUsable : Bool) : Nat → Nat → CAddrMan → Reader CAddrMan
  | 0, _, s => pure s
  | left + 1, bucket, s => do
    let nSize ← readInt
    let s ← unserializePositions ctx fUsable bucket nSize.toNat s
    unserializeBuckets fUsable left (bucket + 1) s

def pruneEntry (s : CAddrMan) (nId : Nat) : Option CAddrMan :=
  if (s.entry nId).fInTried = false ∧ (s.entry nId).nRefCount = 0 then s.delete nId else some s

def prune : Option CAddrMan := (s.mapInfo.toList.map Prod.fst).foldlM pruneEntry s

-- The ids are not negative, so a negative number of new entries is not followed.
def unserialize : Reader CAddrMan := do
  let nVersion ← readByte
  let nKeySize ← readByte
  -- "Incorrect keysize in addrman deserialization"
  if nKeySize ≠ 32 then failure
  else
    let nKey ← readLE 32
    let nNew ← readInt
    let nTried ← readInt
    let nBuckets ← readLE 4
    if nNew < 0 then failure
    else
      let nUBuckets := toInt32 (if nVersion ≠ 0 then nBuckets ^^^ 2 ^ 30 else nBuckets)
      let fUsable := decide (nVersion = 1 ∧ nUBuckets = ADDRMAN_NEW_BUCKET_COUNT)
      let s := { s.clear (BitVec.ofNat 256 nKey) with nNew := nNew, nTried := nTried }
      let s ← unserializeNew ctx fUsable nNew.toNat 0 s
      let r ← unserializeTried ctx nTried.toNat 0 { s with nIdCount := nNew.toNat }
      let s ← unserializeBuckets ctx fUsable nUBuckets.toNat 0 { r.1 with nTried := nTried - r.2 }
      StateT.lift s.prune

end Unserialize

end CAddrMan

section Written

theorem parses_readInt {n : Int} (h : -2 ^ 31 ≤ n ∧ n < 2 ^ 31) : Parses readInt (writeInt n) n := by
  have hread := parses_map toInt32 (parses_readLE 4 (n % 2 ^ 32).toNat (by omega))
  rwa [toInt32_emod h] at hread

theorem parses_readLE_netAddr (ip : CNetAddr) : Parses (readLE 16) (writeLE 16 ip.toNat) ip.toNat := by
  have hlt := ip.isLt
  refine parses_readLE 16 ip.toNat ?_
  norm_num at hlt ⊢
  exact hlt

theorem parses_netService (addr : NetService) :
    Parses NetService.unserialize addr.serialize addr := by
  have hport := addr.port.toNat_lt
  have hhigh : (UInt8.ofNat (addr.port.toNat / 256)).toNat = addr.port.toNat / 256 := by
    rw [UInt8.toNat_ofNat']
    omega
  have hlow : (UInt8.ofNat (addr.port.toNat % 256)).toNat = addr.port.toNat % 256 := by
    rw [UInt8.toNat_ofNat']
    omega
  have hback : addr.port.toNat / 256 * 256 + addr.port.toNat % 256 = addr.port.toNat := by omega
  have hread : Parses NetService.unserialize addr.serialize ⟨BitVec.ofNat 128 addr.ip.toNat,
      UInt16.ofNat ((UInt8.ofNat (addr.port.toNat / 256)).toNat * 256 +
        (UInt8.ofNat (addr.port.toNat % 256)).toNat)⟩ := by
    refine parses_bind (parses_readLE_netAddr addr.ip) ?_
    refine parses_bind (parses_readByte (UInt8.ofNat (addr.port.toNat / 256))) ?_
    exact parses_map (fun low : UInt8 => NetService.mk (BitVec.ofNat 128 addr.ip.toNat)
      (UInt16.ofNat ((UInt8.ofNat (addr.port.toNat / 256)).toNat * 256 + low.toNat)))
      (parses_readByte (UInt8.ofNat (addr.port.toNat % 256)))
  rw [hhigh, hlow, hback, UInt16.ofNat_toNat, BitVec.ofNat_toNat, BitVec.setWidth_eq] at hread
  exact hread

namespace CAddrInfo

theorem parses_unserialize (nVersion : UInt32) (info old : CAddrInfo) :
    Parses (unserialize old) (info.serialize nVersion)
      { info.onDisk with
        nRefCount := old.nRefCount, fInTried := old.fInTried, nRandomPos := old.nRandomPos } := by
  have hread : Parses (unserialize old) (info.serialize nVersion) { old with
      toNetService := info.toNetService
      nServices := UInt64.ofNat info.nServices.toNat
      nTime := UInt32.ofNat info.nTime.toNat
      nLastTry := 0
      source := BitVec.ofNat 128 info.source.toNat
      nLastSuccess := (UInt64.ofNat info.nLastSuccess.toUInt64.toNat).toInt64
      nAttempts := (UInt32.ofNat info.nAttempts.toUInt32.toNat).toInt32 } := by
    refine parses_bind (parses_readLE 4 nVersion.toNat nVersion.toNat_lt) ?_
    refine parses_bind (parses_readLE 4 info.nTime.toNat info.nTime.toNat_lt) ?_
    refine parses_bind (parses_readLE 8 info.nServices.toNat info.nServices.toNat_lt) ?_
    refine parses_bind (parses_netService info.toNetService) ?_
    refine parses_bind (parses_readLE_netAddr info.source) ?_
    refine parses_bind (parses_readLE 8 _ info.nLastSuccess.toUInt64.toNat_lt) ?_
    exact parses_map (fun nAttempts => { old with
      toNetService := info.toNetService
      nServices := UInt64.ofNat info.nServices.toNat
      nTime := UInt32.ofNat info.nTime.toNat
      nLastTry := 0
      source := BitVec.ofNat 128 info.source.toNat
      nLastSuccess := (UInt64.ofNat info.nLastSuccess.toUInt64.toNat).toInt64
      nAttempts := (UInt32.ofNat nAttempts).toInt32 })
      (parses_readLE 4 _ info.nAttempts.toUInt32.toNat_lt)
  simp only [UInt64.ofNat_toNat, UInt32.ofNat_toNat, Int64.toInt64_toUInt64, Int32.toInt32_toUInt32,
    BitVec.ofNat_toNat, BitVec.setWidth_eq] at hread
  exact hread

end CAddrInfo

end Written

namespace CAddrMan

variable {nNew nTried nIds : Int} {its : List (Nat × CAddrInfo)}

def newEntries (its : List (Nat × CAddrInfo)) : List (Nat × CAddrInfo) :=
  its.filter fun it => decide (it.2.nRefCount ≠ 0)

def triedEntries (its : List (Nat × CAddrInfo)) : List (Nat × CAddrInfo) :=
  its.filter fun it => it.2.fInTried

theorem serializeNew_spec (nVersion : UInt32) (mapUnkIds : Nat → Int) (hnd : (its.map Prod.fst).Nodup)
    (hroom : nIds + (newEntries its).length ≤ nNew) :
    ∃ ids, serializeNew nVersion nNew its mapUnkIds nIds =
        some ((newEntries its).flatMap fun it => it.2.serialize nVersion, ids) ∧
      (∀ (k : Nat) it, (newEntries its)[k]? = some it → ids it.1 = nIds + k) ∧
      ∀ nId, nId ∉ its.map Prod.fst → ids nId = mapUnkIds nId := by
  induction its generalizing mapUnkIds nIds with
  | nil => exact ⟨mapUnkIds, rfl, fun k it hk => by simp [newEntries] at hk, fun _ _ => rfl⟩
  | cons it its ih =>
    rw [List.map_cons, List.nodup_cons] at hnd
    rw [serializeNew]
    by_cases href : it.2.nRefCount ≠ 0
    · have hnews : newEntries (it :: its) = it :: newEntries its :=
        List.filter_cons_of_pos (by simpa using href)
      rw [hnews, List.length_cons] at hroom
      have hrest : nIds + 1 + (newEntries its).length ≤ nNew := by omega
      obtain ⟨ids, hids, hat, hother⟩ := ih (Function.update mapUnkIds it.1 nIds) hnd.2 hrest
      have hfirst : ids it.1 = nIds := by rw [hother it.1 hnd.1, Function.update_self]
      rw [if_pos href, if_neg (by omega), hids, hnews]
      refine ⟨ids, rfl, fun k x hk => ?_, fun nId hnId => ?_⟩
      · cases k with
        | zero =>
          rw [List.getElem?_cons_zero, Option.some.injEq] at hk
          rw [← hk, hfirst]
          omega
        | succ k =>
          rw [hat k x hk]
          omega
      · rw [List.map_cons, List.mem_cons, not_or] at hnId
        rw [hother nId hnId.2, Function.update_of_ne hnId.1]
    · have hnews : newEntries (it :: its) = newEntries its :=
        List.filter_cons_of_neg (by simpa using href)
      rw [hnews] at hroom ⊢
      obtain ⟨ids, hids, hat, hother⟩ := ih (Function.update mapUnkIds it.1 nIds) hnd.2 hroom
      rw [if_neg href, hids]
      refine ⟨ids, rfl, hat, fun nId hnId => ?_⟩
      rw [List.map_cons, List.mem_cons, not_or] at hnId
      rw [hother nId hnId.2, Function.update_of_ne hnId.1]

theorem serializeTried_eq (nVersion : UInt32)
    (hroom : nIds + (triedEntries its).length ≤ nTried) :
    serializeTried nVersion nTried its nIds =
      some ((triedEntries its).flatMap fun it => it.2.serialize nVersion) := by
  induction its generalizing nIds with
  | nil => rfl
  | cons it its ih =>
    rw [serializeTried]
    by_cases htried : it.2.fInTried = true
    · have htrieds : triedEntries (it :: its) = it :: triedEntries its :=
        List.filter_cons_of_pos htried
      rw [htrieds, List.length_cons] at hroom
      rw [if_pos htried, if_neg (by omega), ih (by omega), htrieds]
      rfl
    · have htrieds : triedEntries (it :: its) = triedEntries its :=
        List.filter_cons_of_neg htried
      rw [htrieds] at hroom ⊢
      rw [if_neg htried, ih hroom]

end CAddrMan

end AnkerNode
