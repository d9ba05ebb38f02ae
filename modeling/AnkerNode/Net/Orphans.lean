import AnkerNode.Lib.Buckets
import AnkerNode.Validation.CheckTransaction

namespace AnkerNode

abbrev NodeId := Int

structure COrphanTx where
  tx : CTransaction
  fromPeer : NodeId
deriving DecidableEq, Repr

structure OrphanPool where
  mapOrphanTransactions : Std.TreeMap UInt256 COrphanTx := ∅
  mapOrphanTransactionsByPrev : Std.TreeMap UInt256 (Finset UInt256) := ∅

def CTransaction.parents (tx : CTransaction) : List UInt256 := tx.vin.map fun txin => txin.prevout.hash

namespace OrphanPool

variable (pool : OrphanPool)

def addOrphanTx (tx : CTransaction) (peer : NodeId) : OrphanPool × Bool :=
  if pool.mapOrphanTransactions.contains tx.hash then (pool, false)
  else if 5000 < tx.getSerializeSize then (pool, false)
  else
    ({ mapOrphanTransactions := pool.mapOrphanTransactions.insert tx.hash ⟨tx, peer⟩
       mapOrphanTransactionsByPrev :=
         tx.parents.foldl (Buckets.add tx.hash) pool.mapOrphanTransactionsByPrev }, true)

def eraseOrphanTx (hash : UInt256) : OrphanPool :=
  match pool.mapOrphanTransactions[hash]? with
  | none => pool
  | some it =>
    { mapOrphanTransactions := pool.mapOrphanTransactions.erase hash
      mapOrphanTransactionsByPrev :=
        it.tx.parents.foldl (Buckets.remove hash) pool.mapOrphanTransactionsByPrev }

def eraseIfFrom (peer : NodeId) (pool : OrphanPool) (orphan : UInt256 × COrphanTx) : OrphanPool :=
  if orphan.2.fromPeer = peer then pool.eraseOrphanTx orphan.2.tx.hash else pool

def eraseOrphansFor (peer : NodeId) : OrphanPool :=
  pool.mapOrphanTransactions.toList.foldl (eraseIfFrom peer) pool

-- lower_bound, and the first orphan when there is none above
def evicted (randomhash : UInt256) : UInt256 :=
  ((pool.mapOrphanTransactions.keys.find? fun hash => decide (randomhash ≤ hash)).or
    pool.mapOrphanTransactions.keys.head?).getD 0

variable {pool}

theorem contains_evicted (randomhash : UInt256) (h : 0 < pool.mapOrphanTransactions.size) :
    pool.mapOrphanTransactions.contains (pool.evicted randomhash) = true := by
  have hmem : pool.evicted randomhash ∈ pool.mapOrphanTransactions.keys := by
    rw [evicted]
    cases hf : pool.mapOrphanTransactions.keys.find? fun hash => decide (randomhash ≤ hash) with
    | some hash => exact List.mem_of_find?_eq_some hf
    | none =>
      cases hk : pool.mapOrphanTransactions.keys with
      | nil =>
        rw [← Std.TreeMap.length_keys, hk] at h
        simp at h
      | cons k ks => simp
  exact Std.TreeMap.contains_iff_mem.mpr (Std.TreeMap.mem_keys.mp hmem)

theorem size_eraseOrphanTx {hash : UInt256}
    (h : pool.mapOrphanTransactions.contains hash = true) :
    (pool.eraseOrphanTx hash).mapOrphanTransactions.size =
      pool.mapOrphanTransactions.size - 1 := by
  rw [Std.TreeMap.contains_eq_isSome_getElem?] at h
  obtain ⟨it, hit⟩ := Option.isSome_iff_exists.mp h
  have hc : pool.mapOrphanTransactions.contains hash = true := by
    rw [Std.TreeMap.contains_eq_isSome_getElem?, hit]
    rfl
  simp only [eraseOrphanTx, hit, Std.TreeMap.size_erase, hc, if_true]

def limitOrphanTxSize (getRandHash : Nat → UInt256) (nMaxOrphans nEvicted : Nat)
    (pool : OrphanPool) : OrphanPool × Nat :=
  if nMaxOrphans < pool.mapOrphanTransactions.size then
    limitOrphanTxSize getRandHash nMaxOrphans (nEvicted + 1)
      (pool.eraseOrphanTx (pool.evicted (getRandHash nEvicted)))
  else (pool, nEvicted)
termination_by pool.mapOrphanTransactions.size
decreasing_by
  rename_i h
  rw [size_eraseOrphanTx (contains_evicted _ (by omega))]
  omega

structure Indexed (pool : OrphanPool) : Prop where
  keyed : ∀ (hash : UInt256) (it : COrphanTx),
    pool.mapOrphanTransactions[hash]? = some it → it.tx.hash = hash
  full : Buckets.Full pool.mapOrphanTransactionsByPrev
  mem_iff : ∀ prev hash : UInt256,
    hash ∈ Buckets.bucket pool.mapOrphanTransactionsByPrev prev ↔
      ∃ it : COrphanTx, pool.mapOrphanTransactions[hash]? = some it ∧ prev ∈ it.tx.parents

theorem indexed_empty : Indexed {} where
  keyed := by simp
  full := by
    intro prev
    simp
  mem_iff := by simp [Buckets.bucket]

theorem Indexed.addOrphanTx (h : pool.Indexed) (tx : CTransaction) (peer : NodeId) :
    (pool.addOrphanTx tx peer).1.Indexed := by
  rw [OrphanPool.addOrphanTx]
  split
  · exact h
  · rename_i hnew
    split
    · exact h
    · have hnone : pool.mapOrphanTransactions[tx.hash]? = none := by
        rw [Std.TreeMap.contains_eq_isSome_getElem?] at hnew
        simpa using hnew
      have hget : ∀ hash : UInt256,
          (pool.mapOrphanTransactions.insert tx.hash ⟨tx, peer⟩)[hash]? =
            if tx.hash = hash then some ⟨tx, peer⟩ else pool.mapOrphanTransactions[hash]? := by
        intro hash
        simp [Std.TreeMap.getElem?_insert]
      refine ⟨fun hash it hit => ?_, Buckets.full_foldl_add _ h.full, fun prev hash => ?_⟩
      · rw [hget] at hit
        split at hit
        · rename_i heq
          rw [← Option.some.inj hit, heq]
        · exact h.keyed hash it hit
      · rw [Buckets.mem_bucket_foldl_add, h.mem_iff, hget]
        by_cases heq : tx.hash = hash
        · subst heq
          simp [hnone]
        · have hne : hash ≠ tx.hash := fun heq' => heq heq'.symm
          simp [heq, hne]

theorem Indexed.eraseOrphanTx (h : pool.Indexed) (hash : UInt256) :
    (pool.eraseOrphanTx hash).Indexed := by
  rw [OrphanPool.eraseOrphanTx]
  split
  · exact h
  · rename_i it hit
    have hget : ∀ k : UInt256, (pool.mapOrphanTransactions.erase hash)[k]? =
        if hash = k then none else pool.mapOrphanTransactions[k]? := by
      intro k
      simp [Std.TreeMap.getElem?_erase]
    refine ⟨fun k it' hit' => ?_, Buckets.full_foldl_remove _ h.full, fun prev k => ?_⟩
    · rw [hget] at hit'
      split at hit'
      · simp at hit'
      · exact h.keyed k it' hit'
    · rw [Buckets.mem_bucket_foldl_remove, h.mem_iff, hget]
      by_cases heq : hash = k
      · subst heq
        simp [hit]
      · have hne : k ≠ hash := fun heq' => heq heq'.symm
        simp [heq, hne]

theorem Indexed.eraseOrphansFor (h : pool.Indexed) (peer : NodeId) :
    (pool.eraseOrphansFor peer).Indexed := by
  rw [OrphanPool.eraseOrphansFor]
  generalize pool.mapOrphanTransactions.toList = orphans
  induction orphans generalizing pool with
  | nil => exact h
  | cons orphan orphans ih =>
    refine ih ?_
    rw [eraseIfFrom]
    split
    · exact h.eraseOrphanTx _
    · exact h

theorem Indexed.limitOrphanTxSize (h : pool.Indexed) (getRandHash : Nat → UInt256)
    (nMaxOrphans nEvicted : Nat) :
    (OrphanPool.limitOrphanTxSize getRandHash nMaxOrphans nEvicted pool).1.Indexed := by
  fun_induction OrphanPool.limitOrphanTxSize getRandHash nMaxOrphans nEvicted pool with
  | case1 nEvicted pool hlt ih => exact ih (h.eraseOrphanTx _)
  | case2 nEvicted pool hle => exact h

theorem size_limitOrphanTxSize (getRandHash : Nat → UInt256) (nMaxOrphans nEvicted : Nat)
    (pool : OrphanPool) :
    (limitOrphanTxSize getRandHash nMaxOrphans nEvicted pool).1.mapOrphanTransactions.size ≤
      nMaxOrphans := by
  fun_induction limitOrphanTxSize getRandHash nMaxOrphans nEvicted pool with
  | case1 nEvicted pool hlt ih => exact ih
  | case2 nEvicted pool hle => exact Nat.le_of_not_lt hle

inductive Reachable : OrphanPool → Prop
  | start : Reachable {}
  | addOrphanTx (pool : OrphanPool) (tx : CTransaction) (peer : NodeId) : Reachable pool →
      Reachable (pool.addOrphanTx tx peer).1
  | eraseOrphanTx (pool : OrphanPool) (hash : UInt256) : Reachable pool →
      Reachable (pool.eraseOrphanTx hash)
  | eraseOrphansFor (pool : OrphanPool) (peer : NodeId) : Reachable pool →
      Reachable (pool.eraseOrphansFor peer)
  | limitOrphanTxSize (pool : OrphanPool) (getRandHash : Nat → UInt256) (nMaxOrphans : Nat) :
      Reachable pool → Reachable (limitOrphanTxSize getRandHash nMaxOrphans 0 pool).1

theorem Reachable.indexed (h : Reachable pool) : pool.Indexed := by
  induction h with
  | start => exact indexed_empty
  | addOrphanTx pool tx peer _ ih => exact ih.addOrphanTx tx peer
  | eraseOrphanTx pool hash _ ih => exact ih.eraseOrphanTx hash
  | eraseOrphansFor pool peer _ ih => exact ih.eraseOrphansFor peer
  | limitOrphanTxSize pool getRandHash nMaxOrphans _ ih =>
    exact ih.limitOrphanTxSize getRandHash nMaxOrphans 0

theorem orphan_index_exact (pool : OrphanPool) (h : Reachable pool) :
    (∀ (prev : UInt256) (hashes : Finset UInt256),
      pool.mapOrphanTransactionsByPrev[prev]? = some hashes →
        hashes.Nonempty ∧ ∀ hash, hash ∈ hashes ↔ ∃ it : COrphanTx,
          pool.mapOrphanTransactions[hash]? = some it ∧ it.tx.hash = hash ∧
            ∃ txin ∈ it.tx.vin, txin.prevout.hash = prev) ∧
    (∀ (hash : UInt256) (it : COrphanTx), pool.mapOrphanTransactions[hash]? = some it →
      ∀ txin ∈ it.tx.vin, ∃ hashes : Finset UInt256,
        pool.mapOrphanTransactionsByPrev[txin.prevout.hash]? = some hashes ∧ hash ∈ hashes) ∧
    ∀ (getRandHash : Nat → UInt256) (nMaxOrphans : Nat),
      (limitOrphanTxSize getRandHash nMaxOrphans 0 pool).1.mapOrphanTransactions.size ≤
        nMaxOrphans := by
  have hi := h.indexed
  refine ⟨fun prev hashes hget => ⟨Buckets.nonempty_of_full hi.full hget, fun hash => ?_⟩,
    fun hash it hit txin htxin => ?_, fun getRandHash nMaxOrphans =>
      size_limitOrphanTxSize getRandHash nMaxOrphans 0 pool⟩
  · rw [← Buckets.bucket_of_some hget, hi.mem_iff]
    constructor
    · rintro ⟨it, hit, hprev⟩
      exact ⟨it, hit, hi.keyed hash it hit, List.mem_map.mp hprev⟩
    · rintro ⟨it, hit, -, hprev⟩
      exact ⟨it, hit, List.mem_map.mpr hprev⟩
  · have hmem : hash ∈ Buckets.bucket pool.mapOrphanTransactionsByPrev txin.prevout.hash :=
      (hi.mem_iff _ hash).mpr ⟨it, hit, List.mem_map.mpr ⟨txin, htxin, rfl⟩⟩
    rw [Buckets.bucket] at hmem
    cases hb : pool.mapOrphanTransactionsByPrev[txin.prevout.hash]? with
    | none =>
      rw [hb] at hmem
      simp at hmem
    | some hashes =>
      rw [hb] at hmem
      exact ⟨hashes, rfl, hmem⟩

def sharedParent : OrphanPool :=
  (limitOrphanTxSize (fun _ => 3) 1 0 ((((({} : OrphanPool).addOrphanTx
    { hash := 3, vin := [⟨⟨1, 0⟩, [], 0⟩, ⟨⟨1, 1⟩, [], 0⟩], vout := [] } 7).1.addOrphanTx
    { hash := 4, vin := [⟨⟨1, 2⟩, [], 0⟩, ⟨⟨2, 0⟩, [], 0⟩], vout := [] } 7).1))).1

theorem orphan_index_exact_sharedParent : Reachable sharedParent ∧
    (limitOrphanTxSize (fun _ => 0) 0 0 sharedParent).1.mapOrphanTransactions.size ≤ 0 := by
  have hr : Reachable sharedParent :=
    .limitOrphanTxSize _ _ 1 (.addOrphanTx _ _ 7 (.addOrphanTx _ _ 7 .start))
  exact ⟨hr, (orphan_index_exact sharedParent hr).2.2 _ 0⟩

end OrphanPool

end AnkerNode
