import AnkerNode.Coins.Undo
import AnkerNode.Coins.View
import AnkerNode.Lib.Table
import AnkerNode.Lib.TreeMaps

namespace AnkerNode

structure CCoinsCacheEntry where
  coins : CCoins
  fDirty : Bool := false
  fFresh : Bool := false
deriving DecidableEq, Repr

structure CCoinsViewCache where
  cacheCoins : Std.TreeMap UInt256 CCoinsCacheEntry := ∅
  hashBlock : UInt256 := 0

structure CCoinsViewDB where
  records : UInt256 → Option (List UInt8) := fun _ => none
  hashBestChain : UInt256 := 0

structure CoinsStack where
  caches : List CCoinsViewCache := []
  db : CCoinsViewDB := {}

namespace CCoinsViewDB

variable (ops : PubKeyOps) (db : CCoinsViewDB)

def getCoins (txid : UInt256) : Option CCoins := (db.records txid).bind (CCoins.readRecord ops)

def batchWriteCoins (coins : CCoins) : Option (List UInt8) :=
  if coins.isPruned then none else some (coins.serialize ops)

def batchWrite (child : CCoinsViewCache) : CCoinsViewDB where
  records := Table.writeAll Prod.fst (fun it => batchWriteCoins ops it.2.coins) db.records
    (child.cacheCoins.toList.filter fun it => it.2.fDirty)
  hashBestChain := if child.hashBlock = 0 then db.hashBestChain else child.hashBlock

end CCoinsViewDB

namespace CCoinsViewCache

def writeEntry (itUs : Option CCoinsCacheEntry) (it : CCoinsCacheEntry) :
    Option (Option CCoinsCacheEntry) :=
  if !it.fDirty then some itUs
  else
    match itUs with
    | none =>
      if it.coins.isPruned then some none
      else if it.fFresh then some (some ⟨it.coins, true, true⟩)
      -- assert(it->second.flags & CCoinsCacheEntry::FRESH)
      else none
    | some us =>
      if us.fFresh && it.coins.isPruned then some none
      else some (some { us with coins := it.coins, fDirty := true })

def batchWrite (cache child : CCoinsViewCache) : Option CCoinsViewCache :=
  (TreeMerge.mergeM writeEntry cache.cacheCoins child.cacheCoins.toList).map fun cacheCoins =>
    { cacheCoins := cacheCoins, hashBlock := child.hashBlock }

end CCoinsViewCache

namespace CoinsStack

variable (ops : PubKeyOps)

-- `GetCoins` on the topmost of `caches`; what a lower level supplies is kept on the way up.
def fetchCoins (db : CCoinsViewDB) (txid : UInt256) :
    List CCoinsViewCache → Option CCoins × List CCoinsViewCache
  | [] => (db.getCoins ops txid, [])
  | cache :: below =>
    match cache.cacheCoins[txid]? with
    | some entry => (some entry.coins, cache :: below)
    | none =>
      match fetchCoins db txid below with
      | (none, below) => (none, cache :: below)
      | (some tmp, below) =>
        (some tmp, { cache with
          cacheCoins := cache.cacheCoins.insert txid ⟨tmp, false, tmp.isPruned⟩ } :: below)

def getCoins (s : CoinsStack) (txid : UInt256) : Option CCoins × CoinsStack :=
  match fetchCoins ops s.db txid s.caches with
  | (coins, caches) => (coins, { s with caches := caches })

def accessCoins (s : CoinsStack) (txid : UInt256) : Option CCoins × CoinsStack :=
  s.getCoins ops txid

def haveCoins (s : CoinsStack) (txid : UInt256) : Bool × CoinsStack :=
  match s.getCoins ops txid with
  | (coins, s) => (coins.any fun c => !c.vout.isEmpty, s)

-- The entry `ModifyCoins` hands out, before its DIRTY bit is set.
def entryToModify (db : CCoinsViewDB) (txid : UInt256) (cache : CCoinsViewCache)
    (below : List CCoinsViewCache) : CCoinsCacheEntry × List CCoinsViewCache :=
  match cache.cacheCoins[txid]? with
  | some entry => (entry, below)
  | none =>
    match fetchCoins ops db txid below with
    | (none, below) => (⟨CCoins.clear, false, true⟩, below)
    | (some coins, below) => (⟨coins, false, coins.isPruned⟩, below)

-- The destructor of the modifier.
def releaseEntry (cache : CCoinsViewCache) (txid : UInt256) (entry : CCoinsCacheEntry) :
    CCoinsViewCache :=
  let entry := { entry with coins := entry.coins.cleanup }
  { cache with
    cacheCoins := TreeMerge.put cache.cacheCoins txid
      (if entry.fFresh && entry.coins.isPruned then none else some entry) }

def modifyCoins (s : CoinsStack) (txid : UInt256) (edit : CCoins → CCoins) : CoinsStack :=
  match s.caches with
  | [] => s
  | cache :: below =>
    match entryToModify ops s.db txid cache below with
    | (entry, below) =>
      { s with caches :=
          releaseEntry cache txid { entry with coins := edit entry.coins, fDirty := true } :: below }

def push (s : CoinsStack) : CoinsStack := { s with caches := {} :: s.caches }

-- `Flush` of the topmost cache, which is then dropped.
def flush (s : CoinsStack) : Option CoinsStack :=
  match s.caches with
  | [] => some s
  | [cache] => some ⟨[], s.db.batchWrite ops cache⟩
  | cache :: parent :: below =>
    (parent.batchWrite cache).map fun parent => { s with caches := parent :: below }

def flushTimes : Nat → CoinsStack → Option CoinsStack
  | 0, s => some s
  | n + 1, s => (s.flush ops).bind (flushTimes n)

def flushAll (s : CoinsStack) : Option CoinsStack := flushTimes ops s.caches.length s

end CoinsStack

end AnkerNode
