import AnkerNode.Lib.SlotTable
import AnkerNode.Lib.TreeMaps
import AnkerNode.Primitives.Transaction

namespace AnkerNode

abbrev CNetAddr := BitVec 128

-- a `CService`
structure NetService where
  ip : CNetAddr := 0
  port : UInt16 := 0
deriving DecidableEq

structure CAddress extends NetService where
  nServices : UInt64 := 1
  nTime : UInt32 := 100000000
  nLastTry : Int64 := 0
deriving DecidableEq

structure CAddrInfo extends CAddress where
  source : CNetAddr := 0
  nLastSuccess : Int64 := 0
  nAttempts : Int32 := 0
  nRefCount : Int := 0
  fInTried : Bool := false
  nRandomPos : Int := -1
deriving DecidableEq

def ADDRMAN_TRIED_BUCKET_COUNT : Nat := 256
def ADDRMAN_NEW_BUCKET_COUNT : Nat := 1024
def ADDRMAN_BUCKET_SIZE : Nat := 64
def ADDRMAN_TRIED_BUCKETS_PER_GROUP : Nat := 8
def ADDRMAN_NEW_BUCKETS_PER_SOURCE_GROUP : Nat := 64
def ADDRMAN_NEW_BUCKETS_PER_ADDRESS : Int := 8
def ADDRMAN_HORIZON_DAYS : Int := 30
def ADDRMAN_RETRIES : Int := 3
def ADDRMAN_MAX_FAILURES : Int := 10
def ADDRMAN_MIN_FAIL_DAYS : Int := 7
def ADDRMAN_GETADDR_MAX_PCT : Nat := 23
def ADDRMAN_GETADDR_MAX : Nat := 2500

-- The hashes behind the buckets, each named after what follows the key.
structure AddrManContext where
  getGroup : CNetAddr → List UInt8
  isRoutable : CNetAddr → Bool
  hashKey : UInt256 → NetService → Nat
  hashGroup : UInt256 → List UInt8 → Nat → Nat
  hashSource : UInt256 → List UInt8 → List UInt8 → Nat
  hashPosition : UInt256 → Bool → Nat → NetService → Nat

namespace CAddrInfo

def ofAddress (addr : CAddress) (addrSource : CNetAddr) : CAddrInfo :=
  { toNetService := addr.toNetService, nServices := addr.nServices, nTime := addr.nTime,
    source := addrSource }

def isTerrible (info : CAddrInfo) (nNow : Int) : Bool :=
  if info.nLastTry ≠ 0 ∧ nNow - 60 ≤ info.nLastTry.toInt then false
  else
    decide (nNow + 10 * 60 < info.nTime.toNat) ||
    decide (info.nTime = 0 ∨ ADDRMAN_HORIZON_DAYS * 24 * 60 * 60 < nNow - info.nTime.toNat) ||
    decide (info.nLastSuccess = 0 ∧ ADDRMAN_RETRIES ≤ info.nAttempts.toInt) ||
    decide (ADDRMAN_MIN_FAIL_DAYS * 24 * 60 * 60 < nNow - info.nLastSuccess.toInt ∧
      ADDRMAN_MAX_FAILURES ≤ info.nAttempts.toInt)

end CAddrInfo

namespace AddrManContext

variable (ctx : AddrManContext) (nKey : UInt256)

def getTriedBucket (info : CAddrInfo) : Nat :=
  ctx.hashGroup nKey (ctx.getGroup info.ip)
    (ctx.hashKey nKey info.toNetService % ADDRMAN_TRIED_BUCKETS_PER_GROUP) %
      ADDRMAN_TRIED_BUCKET_COUNT

def getNewBucket (info : CAddrInfo) (src : CNetAddr) : Nat :=
  ctx.hashGroup nKey (ctx.getGroup src)
    (ctx.hashSource nKey (ctx.getGroup info.ip) (ctx.getGroup src) %
      ADDRMAN_NEW_BUCKETS_PER_SOURCE_GROUP) % ADDRMAN_NEW_BUCKET_COUNT

def getBucketPosition (info : CAddrInfo) (fNew : Bool) (nBucket : Nat) : Nat :=
  ctx.hashPosition nKey fNew nBucket info.toNetService % ADDRMAN_BUCKET_SIZE

def newSlot (info : CAddrInfo) (nBucket : Nat) : Nat × Nat :=
  (nBucket, ctx.getBucketPosition nKey info true nBucket)

def triedSlot (info : CAddrInfo) : Nat × Nat :=
  (ctx.getTriedBucket nKey info,
    ctx.getBucketPosition nKey info false (ctx.getTriedBucket nKey info))

end AddrManContext

-- `none` for -1 in the buckets
structure CAddrMan where
  nKey : UInt256
  nIdCount : Nat := 0
  mapInfo : Std.TreeMap Nat CAddrInfo := ∅
  mapAddr : CNetAddr → Option Nat := fun _ => none
  vRandom : List Nat := []
  nTried : Int := 0
  vvTried : Nat × Nat → Option Nat := fun _ => none
  nNew : Int := 0
  vvNew : Nat × Nat → Option Nat := fun _ => none

namespace CAddrMan

variable (ctx : AddrManContext) (s : CAddrMan)

-- `mapInfo[nId]`
def entry (nId : Nat) : CAddrInfo := s.mapInfo.getD nId {}

def setInfo (nId : Nat) (info : CAddrInfo) : CAddrMan :=
  { s with mapInfo := s.mapInfo.insert nId info }

def setNew (slot : Nat × Nat) (nId : Option Nat) : CAddrMan :=
  { s with vvNew := Function.update s.vvNew slot nId }

def setTried (slot : Nat × Nat) (nId : Option Nat) : CAddrMan :=
  { s with vvTried := Function.update s.vvTried slot nId }

def countNew (n : Int) : CAddrMan := { s with nNew := s.nNew + n }

def countTried (n : Int) : CAddrMan := { s with nTried := s.nTried + n }

def find (ip : CNetAddr) : Option (Nat × CAddrInfo) :=
  (s.mapAddr ip).bind fun nId => s.mapInfo[nId]?.map fun info => (nId, info)

def create (addr : CAddress) (addrSource : CNetAddr) : CAddrMan × Nat :=
  ({ s with
      nIdCount := s.nIdCount + 1
      mapInfo := s.mapInfo.insert s.nIdCount
        { CAddrInfo.ofAddress addr addrSource with nRandomPos := s.vRandom.length }
      mapAddr := Function.update s.mapAddr addr.ip (some s.nIdCount)
      vRandom := s.vRandom ++ [s.nIdCount] }, s.nIdCount)

-- A negative position is none of the vector's; `none` is a failed assertion.
def swapRandom (nRndPos1 nRndPos2 : Int) : Option CAddrMan :=
  if nRndPos1 = nRndPos2 then some s
  else if nRndPos1 < 0 ∨ nRndPos2 < 0 then none
  else do
    let nId1 ← s.vRandom[nRndPos1.toNat]?
    let nId2 ← s.vRandom[nRndPos2.toNat]?
    if !s.mapInfo.contains nId1 || !s.mapInfo.contains nId2 then none
    else
      let s := s.setInfo nId1 { s.entry nId1 with nRandomPos := nRndPos2 }
      let s := s.setInfo nId2 { s.entry nId2 with nRandomPos := nRndPos1 }
      some { s with
        vRandom := (s.vRandom.set nRndPos1.toNat nId2).set nRndPos2.toNat nId1 }

def delete (nId : Nat) : Option CAddrMan :=
  if !s.mapInfo.contains nId || (s.entry nId).fInTried || decide ((s.entry nId).nRefCount ≠ 0) then none
  else do
    let s ← s.swapRandom (s.entry nId).nRandomPos (s.vRandom.length - 1)
    some { s with
      vRandom := s.vRandom.dropLast
      mapAddr := Function.update s.mapAddr (s.entry nId).ip none
      mapInfo := s.mapInfo.erase nId
      nNew := s.nNew - 1 }

def clearNew (slot : Nat × Nat) : Option CAddrMan :=
  match s.vvNew slot with
  | none => some s
  | some nIdDelete =>
    let infoDelete := s.entry nIdDelete
    if infoDelete.nRefCount ≤ 0 then none
    else
      let s := s.setInfo nIdDelete { infoDelete with nRefCount := infoDelete.nRefCount - 1 }
      let s := s.setNew slot none
      if (s.entry nIdDelete).nRefCount = 0 then s.delete nIdDelete else some s

def dropFromBucket (nId : Nat) (s : CAddrMan) (bucket : Nat) : CAddrMan :=
  let info := s.entry nId
  let slot := ctx.newSlot s.nKey info bucket
  if s.vvNew slot = some nId then
    (s.setInfo nId { info with nRefCount := info.nRefCount - 1 }).setNew slot none
  else s

def evict (nIdEvict : Nat) (slot : Nat × Nat) : Option CAddrMan :=
  if !s.mapInfo.contains nIdEvict then none
  else do
    let s := s.setInfo nIdEvict { s.entry nIdEvict with fInTried := false }
    let s := (s.setTried slot none).countTried (-1)
    let infoOld := s.entry nIdEvict
    let newSlot := ctx.newSlot s.nKey infoOld (ctx.getNewBucket s.nKey infoOld infoOld.source)
    let s ← s.clearNew newSlot
    if (s.vvNew newSlot).isSome then none
    else
      let s := s.setInfo nIdEvict { s.entry nIdEvict with nRefCount := 1 }
      some ((s.setNew newSlot (some nIdEvict)).countNew 1)

def makeTried (nId : Nat) : Option CAddrMan :=
  let s := (List.range ADDRMAN_NEW_BUCKET_COUNT).foldl (dropFromBucket ctx nId) s
  let s := s.countNew (-1)
  if (s.entry nId).nRefCount ≠ 0 then none
  else do
    let slot := ctx.triedSlot s.nKey (s.entry nId)
    let s ← match s.vvTried slot with
      | none => some s
      | some nIdEvict => s.evict ctx nIdEvict slot
    if (s.vvTried slot).isSome then none
    else
      let s := (s.setTried slot (some nId)).countTried 1
      some (s.setInfo nId { s.entry nId with fInTried := true })

def good (addr : NetService) (nTime : Int64) (nRnd : Nat) : Option CAddrMan :=
  match s.find addr.ip with
  | none => some s
  | some (nId, info) =>
    if info.toNetService ≠ addr then some s
    else
      let s := s.setInfo nId { info with nLastSuccess := nTime, nLastTry := nTime, nAttempts := 0 }
      if info.fInTried then some s
      else if (List.range ADDRMAN_NEW_BUCKET_COUNT).any fun n =>
          s.vvNew (ctx.newSlot s.nKey info ((n + nRnd) % ADDRMAN_NEW_BUCKET_COUNT)) == some nId then
        s.makeTried ctx nId
      else some s

-- the part of `Add_` that both kinds of address come to
def insertNew (nId : Nat) (source : CNetAddr) (nNow : Int) : Option CAddrMan :=
  let slot := ctx.newSlot s.nKey (s.entry nId) (ctx.getNewBucket s.nKey (s.entry nId) source)
  if s.vvNew slot = some nId then some s
  else
    let fInsert := match s.vvNew slot with
      | none => true
      | some nIdExisting =>
        let infoExisting := s.entry nIdExisting
        infoExisting.isTerrible nNow ||
          decide (1 < infoExisting.nRefCount ∧ (s.entry nId).nRefCount = 0)
    if fInsert then do
      let s ← s.clearNew slot
      let s := s.setInfo nId { s.entry nId with nRefCount := (s.entry nId).nRefCount + 1 }
      some (s.setNew slot (some nId))
    else if (s.entry nId).nRefCount = 0 then s.delete nId
    else some s

def refreshTime (info : CAddrInfo) (addr : CAddress) (nTimePenalty nNow : Int) : CAddrInfo :=
  let nUpdateInterval : Int := if nNow - addr.nTime.toNat < 24 * 60 * 60 then 60 * 60 else 24 * 60 * 60
  if addr.nTime ≠ 0 ∧ (info.nTime = 0 ∨
      (info.nTime.toNat : Int) < addr.nTime.toNat - nUpdateInterval - nTimePenalty) then
    { info with nTime := UInt32.ofInt (max 0 (addr.nTime.toNat - nTimePenalty)) }
  else info

def add (addr : CAddress) (source : CNetAddr) (nTimePenalty nNow : Int) (nRand : Nat) :
    Option (CAddrMan × Bool) :=
  if !ctx.isRoutable addr.ip then some (s, false)
  else
    match s.find addr.ip with
    | some (nId, info) =>
      let info := refreshTime info addr nTimePenalty nNow
      let info := { info with nServices := info.nServices ||| addr.nServices }
      let s := s.setInfo nId info
      if addr.nTime = 0 ∨ (info.nTime ≠ 0 ∧ addr.nTime ≤ info.nTime) then some (s, false)
      else if info.fInTried then some (s, false)
      else if info.nRefCount = ADDRMAN_NEW_BUCKETS_PER_ADDRESS then some (s, false)
      else if 1 < 2 ^ info.nRefCount.toNat ∧ nRand % 2 ^ info.nRefCount.toNat ≠ 0 then some (s, false)
      else (s.insertNew ctx nId source nNow).map fun s => (s, false)
    | none =>
      let (s, nId) := s.create addr source
      let info := s.entry nId
      let s := s.setInfo nId
        { info with nTime := UInt32.ofInt (max 0 (info.nTime.toNat - nTimePenalty)) }
      let s := s.countNew 1
      (s.insertNew ctx nId source nNow).map fun s => (s, true)

-- `Attempt_` and `Connected_` change one entry, where it is that of the service.
def withService (addr : NetService) (change : CAddrInfo → CAddrInfo) : CAddrMan :=
  match s.find addr.ip with
  | none => s
  | some (nId, info) => if info.toNetService ≠ addr then s else s.setInfo nId (change info)

def attempt (addr : NetService) (nTime : Int64) : CAddrMan :=
  s.withService addr fun info => { info with nLastTry := nTime, nAttempts := info.nAttempts + 1 }

def connected (addr : NetService) (nTime : Int64) : CAddrMan :=
  s.withService addr fun info =>
    if 20 * 60 < nTime.toInt - info.nTime.toNat then { info with nTime := UInt32.ofInt nTime.toInt }
    else info

def nNodes : Nat :=
  min ADDRMAN_GETADDR_MAX (ADDRMAN_GETADDR_MAX_PCT * s.vRandom.length / 100)

-- from a position on, for as many positions as are left
def getAddrFrom (rand : Nat → Nat) (nNow : Int) (nNodes : Nat) :
    Nat → Nat → CAddrMan → List CAddress → Option (CAddrMan × List CAddress)
  | 0, _, s, vAddr => some (s, vAddr)
  | left + 1, n, s, vAddr =>
    if nNodes ≤ vAddr.length then some (s, vAddr)
    else do
      let s ← s.swapRandom n ((rand n % (s.vRandom.length - n) + n : Nat) : Int)
      let nId ← s.vRandom[n]?
      if !s.mapInfo.contains nId then none
      else
        let ai := s.entry nId
        getAddrFrom rand nNow nNodes left (n + 1) s
          (if ai.isTerrible nNow then vAddr else vAddr ++ [ai.toCAddress])

def getAddr (rand : Nat → Nat) (nNow : Int) : Option (CAddrMan × List CAddress) :=
  getAddrFrom rand nNow s.nNodes s.vRandom.length 0 s []

end CAddrMan

end AnkerNode
