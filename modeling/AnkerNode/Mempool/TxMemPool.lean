import AnkerNode.Lib.Loops
import AnkerNode.Lib.Table
import AnkerNode.Lib.TreeMaps
import AnkerNode.Validation.CheckTransaction

namespace AnkerNode

structure CTxMemPoolEntry where
  tx : CTransaction
  nTxSize : Nat
deriving DecidableEq, Repr

structure CInPoint where
  ptx : CTransaction
  n : Nat
deriving DecidableEq, Repr

structure CTxMemPool where
  fSanityCheck : Bool := false
  mapTx : Std.TreeMap UInt256 CTxMemPoolEntry := ∅
  mapNextTx : COutPoint → Option CInPoint := fun _ => none
  totalTxSize : Nat := 0
  nTransactionsUpdated : Nat := 0

namespace CTxMemPool

variable (pool : CTxMemPool)

def addUnchecked (hash : UInt256) (entry : CTxMemPoolEntry) : CTxMemPool :=
  { pool with
    mapTx := pool.mapTx.insert hash entry
    mapNextTx :=
      if entry.tx.isZerocoinSpend then pool.mapNextTx
      else Table.writeAll (fun p : CTxIn × Nat => p.1.prevout) (fun p => some ⟨entry.tx, p.2⟩)
        pool.mapNextTx entry.tx.vin.zipIdx
    totalTxSize := pool.totalTxSize + entry.nTxSize
    nTransactionsUpdated := pool.nTransactionsUpdated + 1 }

def spenders (hash : UInt256) (nOutputs : Nat) : List UInt256 :=
  (List.range nOutputs).filterMap fun i =>
    (pool.mapNextTx ⟨hash, UInt32.ofNat i⟩).map fun it => it.ptx.hash

def removeEntry (hash : UInt256) (entry : CTxMemPoolEntry) : CTxMemPool :=
  { pool with
    mapTx := pool.mapTx.erase hash
    mapNextTx := Table.writeAll CTxIn.prevout (fun _ => none) pool.mapNextTx entry.tx.vin
    totalTxSize := pool.totalTxSize - entry.nTxSize
    nTransactionsUpdated := pool.nTransactionsUpdated + 1 }

def removeStep (fRecursive : Bool) (s : CTxMemPool × List CTransaction) (hash : UInt256) :
    (CTxMemPool × List CTransaction) × List UInt256 :=
  match s.1.mapTx[hash]? with
  | none => (s, [])
  | some entry =>
    ((s.1.removeEntry hash entry, s.2 ++ [entry.tx]),
      if fRecursive then s.1.spenders hash entry.tx.vout.length else [])

theorem size_removeEntry_lt {pool : CTxMemPool} {hash : UInt256} {entry : CTxMemPoolEntry}
    (h : pool.mapTx[hash]? = some entry) :
    (pool.removeEntry hash entry).mapTx.size < pool.mapTx.size := by
  have hcon : pool.mapTx.contains hash = true := by
    rw [Std.TreeMap.contains_eq_isSome_getElem?, h]
    rfl
  have hpos : pool.mapTx.size ≠ 0 := by
    intro h0
    have hne := Std.TreeMap.isEmpty_eq_false_of_contains hcon
    simp [Std.TreeMap.isEmpty_eq_size_eq_zero, h0] at hne
  simp only [removeEntry, Std.TreeMap.size_erase, hcon, if_true]
  omega

def removal (fRecursive : Bool) : Worklist (CTxMemPool × List CTransaction) UInt256 where
  step := removeStep fRecursive
  size := fun s => s.1.mapTx.size
  shrinks := by
    intro s hash
    simp only [removeStep]
    split
    · exact .inr ⟨rfl, rfl⟩
    · rename_i entry h
      exact .inl (size_removeEntry_lt h)

def remove (origTx : CTransaction) (removed : List CTransaction) (fRecursive : Bool) :
    CTxMemPool × List CTransaction :=
  let orphans :=
    if fRecursive && !pool.mapTx.contains origTx.hash then
      pool.spenders origTx.hash origTx.vout.length
    else []
  (removal fRecursive).run (origTx.hash :: orphans) (pool, removed)

def spendsImmature (params : ChainParams) (pcoins : CCoinsView) (nMemPoolHeight : UInt32) :
    List CTxIn → Option Bool
  | [] => some false
  | txin :: vin =>
    if pool.mapTx.contains txin.prevout.hash then
      spendsImmature params pcoins nMemPoolHeight vin
    else
      match pcoins.accessCoins txin.prevout.hash with
      | none => if pool.fSanityCheck then none else some true
      | some coins =>
        if (coins.fCoinBase || coins.fCoinStake) &&
            decide (nMemPoolHeight - UInt32.ofInt coins.nHeight < UInt32.ofInt params.nMaturity) then
          some true
        else spendsImmature params pcoins nMemPoolHeight vin

def transactionsToRemove (params : ChainParams) (pcoins : CCoinsView) (nMemPoolHeight : UInt32) :
    Option (List CTransaction) :=
  (pool.mapTx.toList.map fun it => it.2.tx).filterM fun tx =>
    pool.spendsImmature params pcoins nMemPoolHeight tx.vin

def removeSpender (pool : CTxMemPool) (tx : CTransaction) : CTxMemPool :=
  (pool.remove tx [] true).1

def removeCoinbaseSpends (params : ChainParams) (pcoins : CCoinsView) (nMemPoolHeight : UInt32) :
    Option CTxMemPool :=
  (pool.transactionsToRemove params pcoins nMemPoolHeight).map fun txs =>
    txs.foldl removeSpender pool

def removeConflict (tx : CTransaction) (s : CTxMemPool × List CTransaction) (txin : CTxIn) :
    CTxMemPool × List CTransaction :=
  match s.1.mapNextTx txin.prevout with
  | none => s
  | some it => if it.ptx.hash = tx.hash then s else s.1.remove it.ptx s.2 true

def removeConflicts (tx : CTransaction) (removed : List CTransaction) :
    CTxMemPool × List CTransaction :=
  tx.vin.foldl (removeConflict tx) (pool, removed)

def removeConnected (s : CTxMemPool × List CTransaction) (tx : CTransaction) :
    CTxMemPool × List CTransaction :=
  (s.1.remove tx [] false).1.removeConflicts tx s.2

def removeForBlock (vtx : List CTransaction) (conflicts : List CTransaction) :
    CTxMemPool × List CTransaction :=
  vtx.foldl removeConnected (pool, conflicts)

end CTxMemPool

end AnkerNode
