import AnkerNode.Mempool.TxMemPool

namespace AnkerNode

namespace CTxMemPool

open TreeTotal

def Pooled (pool : CTxMemPool) (tx : CTransaction) : Prop :=
  ∃ entry, pool.mapTx[tx.hash]? = some entry ∧ entry.tx = tx

-- What `CTxMemPool::check` asserts about `mapNextTx` and `totalTxSize`.
structure SpendIndexed (pool : CTxMemPool) : Prop where
  keyed : ∀ (hash : UInt256) (entry : CTxMemPoolEntry), pool.mapTx[hash]? = some entry → entry.tx.hash = hash
  index : ∀ (o : COutPoint) (tx : CTransaction) (n : Nat), pool.mapNextTx o = some ⟨tx, n⟩ ↔
    pool.Pooled tx ∧ tx.isZerocoinSpend = false ∧ tx.prevouts[n]? = some o
  disjoint : ∀ tx tx' : CTransaction, pool.Pooled tx → pool.Pooled tx' →
    tx.isZerocoinSpend = false → tx'.isZerocoinSpend = false → tx ≠ tx' →
      tx.prevouts.Disjoint tx'.prevouts
  total : pool.totalTxSize = total CTxMemPoolEntry.nTxSize pool.mapTx

-- The pool stores under `tx`'s hash no zerocoin spend that shares an input with a pooled
-- ordinary transaction.
def Spares (pool : CTxMemPool) (tx : CTransaction) : Prop :=
  ∀ z, pool.Pooled z → z.hash = tx.hash → z.isZerocoinSpend = true →
    ∀ t, pool.Pooled t → t.isZerocoinSpend = false → z.prevouts.Disjoint t.prevouts

section Index

variable {pool : CTxMemPool}

theorem Pooled.unique {tx tx' : CTransaction} (h : pool.Pooled tx) (h' : pool.Pooled tx')
    (heq : tx.hash = tx'.hash) : tx = tx' := by
  obtain ⟨entry, he, rfl⟩ := h
  obtain ⟨entry', he', rfl⟩ := h'
  rw [heq, he'] at he
  rw [Option.some.inj he]

theorem SpendIndexed.pooled_of_get (h : pool.SpendIndexed) {hash : UInt256}
    {entry : CTxMemPoolEntry} (he : pool.mapTx[hash]? = some entry) : pool.Pooled entry.tx :=
  ⟨entry, by rw [h.keyed hash entry he]; exact he, rfl⟩

theorem SpendIndexed.spender (h : pool.SpendIndexed) {tx : CTransaction} {o : COutPoint}
    (hp : pool.Pooled tx) (hz : tx.isZerocoinSpend = false) (ho : o ∈ tx.prevouts) :
    ∃ n, pool.mapNextTx o = some ⟨tx, n⟩ := by
  obtain ⟨n, hn⟩ := List.mem_iff_getElem?.mp ho
  exact ⟨n, (h.index o tx n).mpr ⟨hp, hz, hn⟩⟩

-- The index determines the transaction that spends an outpoint.
theorem disjoint_of_index
    (index : ∀ o tx n, pool.mapNextTx o = some ⟨tx, n⟩ ↔
      pool.Pooled tx ∧ tx.isZerocoinSpend = false ∧ tx.prevouts[n]? = some o)
    (tx tx' : CTransaction) (hp : pool.Pooled tx) (hp' : pool.Pooled tx')
    (hz : tx.isZerocoinSpend = false) (hz' : tx'.isZerocoinSpend = false) (hne : tx ≠ tx') :
    tx.prevouts.Disjoint tx'.prevouts := by
  intro o ho ho'
  obtain ⟨n, hn⟩ := List.mem_iff_getElem?.mp ho
  obtain ⟨m, hm⟩ := List.mem_iff_getElem?.mp ho'
  have h := (index o tx n).mpr ⟨hp, hz, hn⟩
  have h' := (index o tx' m).mpr ⟨hp', hz', hm⟩
  rw [h] at h'
  simp only [Option.some.injEq, CInPoint.mk.injEq] at h'
  exact hne h'.1

theorem spendIndexed_empty (fSanityCheck : Bool) :
    SpendIndexed { fSanityCheck := fSanityCheck } := by
  refine ⟨?_, ?_, ?_, by simp⟩
  · intro hash entry he
    simp at he
  · intro o tx n
    simp [Pooled]
  · rintro tx tx' ⟨entry, he, -⟩
    simp at he

end Index

section Remove

variable {pool : CTxMemPool} {hash : UInt256} {entry : CTxMemPoolEntry}

theorem mapTx_removeEntry (h : UInt256) :
    (pool.removeEntry hash entry).mapTx[h]? = if h = hash then none else pool.mapTx[h]? := by
  by_cases hh : h = hash
  · subst hh
    simp [removeEntry]
  · have hc : compare hash h ≠ .eq := by
      intro hc
      exact hh (Std.LawfulEqOrd.eq_of_compare hc).symm
    simp [removeEntry, Std.TreeMap.getElem?_erase, hc, hh]

theorem pooled_removeEntry {tx : CTransaction} :
    (pool.removeEntry hash entry).Pooled tx ↔ pool.Pooled tx ∧ tx.hash ≠ hash := by
  simp only [Pooled, mapTx_removeEntry]
  by_cases hh : tx.hash = hash
  · simp [hh]
  · simp [hh]

theorem mapNextTx_removeEntry (o : COutPoint) :
    (pool.removeEntry hash entry).mapNextTx o =
      if o ∈ entry.tx.prevouts then none else pool.mapNextTx o :=
  Table.writeAll_const none

-- `entry` may leave the pool without taking another transaction's `mapNextTx` entries along.
def Detached (pool : CTxMemPool) (hash : UInt256) : Prop :=
  ∀ entry : CTxMemPoolEntry, pool.mapTx[hash]? = some entry → entry.tx.isZerocoinSpend = true →
    ∀ o ∈ entry.tx.prevouts, pool.mapNextTx o = none

theorem SpendIndexed.removeEntry (h : pool.SpendIndexed) (he : pool.mapTx[hash]? = some entry)
    (hd : pool.Detached hash) : (pool.removeEntry hash entry).SpendIndexed := by
  have hp := h.pooled_of_get he
  have hkey := h.keyed hash entry he
  -- An outpoint of `entry` is indexed under no other transaction.
  have hown : ∀ o tx n, pool.mapNextTx o = some ⟨tx, n⟩ → tx.hash ≠ hash →
      o ∉ entry.tx.prevouts := by
    intro o tx n hn hne ho
    cases hz : entry.tx.isZerocoinSpend with
    | true =>
      rw [hd entry he hz o ho] at hn
      simp at hn
    | false =>
      obtain ⟨m, hm⟩ := h.spender hp hz ho
      rw [hm] at hn
      simp only [Option.some.injEq, CInPoint.mk.injEq] at hn
      rw [← hn.1] at hne
      exact hne hkey
  have hindex : ∀ o tx n, (pool.removeEntry hash entry).mapNextTx o = some ⟨tx, n⟩ ↔
      (pool.removeEntry hash entry).Pooled tx ∧ tx.isZerocoinSpend = false ∧
        tx.prevouts[n]? = some o := by
    intro o tx n
    rw [mapNextTx_removeEntry, pooled_removeEntry]
    constructor
    · intro hn
      split at hn
      · simp at hn
      · rename_i ho
        obtain ⟨htx, hz, hpo⟩ := (h.index o tx n).mp hn
        refine ⟨⟨htx, ?_⟩, hz, hpo⟩
        intro heq
        obtain rfl := htx.unique hp (heq.trans hkey.symm)
        exact ho (List.mem_of_getElem? hpo)
    · rintro ⟨⟨htx, hne⟩, hz, hpo⟩
      have hn := (h.index o tx n).mpr ⟨htx, hz, hpo⟩
      rw [if_neg (hown o tx n hn hne)]
      exact hn
  refine ⟨?_, hindex, disjoint_of_index hindex, ?_⟩
  · intro k e hk
    rw [mapTx_removeEntry] at hk
    split at hk
    · simp at hk
    · exact h.keyed k e hk
  · have ht := h.total
    rw [total_erase he] at ht
    simp only [CTxMemPool.removeEntry]
    omega

theorem detached_removeEntry {k : UInt256} (hd : pool.Detached k) :
    (pool.removeEntry hash entry).Detached k := by
  intro e he hz o ho
  rw [mapTx_removeEntry] at he
  split at he
  · simp at he
  · rw [mapNextTx_removeEntry]
    split
    · rfl
    · exact hd e he hz o ho

theorem SpendIndexed.detached_of_indexed (h : pool.SpendIndexed) {o : COutPoint} {it : CInPoint}
    (hit : pool.mapNextTx o = some it) : pool.Detached it.ptx.hash := by
  obtain ⟨hp, hz, -⟩ := (h.index o it.ptx it.n).mp hit
  intro e he hze
  rw [← hp.unique (h.pooled_of_get he) (h.keyed _ e he).symm, hz] at hze
  simp at hze

theorem SpendIndexed.detached_spender (h : pool.SpendIndexed) {nOutputs : Nat} {k : UInt256}
    (hk : k ∈ pool.spenders hash nOutputs) : pool.Detached k := by
  simp only [spenders, List.mem_filterMap, Option.map_eq_some_iff] at hk
  obtain ⟨i, -, it, hn, rfl⟩ := hk
  exact h.detached_of_indexed hn

theorem SpendIndexed.removeStep (fRecursive : Bool) (k : UInt256) (queue : List UInt256)
    (s : CTxMemPool × List CTransaction)
    (h : s.1.SpendIndexed ∧ ∀ x ∈ k :: queue, s.1.Detached x) :
    (removeStep fRecursive s k).1.1.SpendIndexed ∧
      ∀ x ∈ queue ++ (removeStep fRecursive s k).2, (removeStep fRecursive s k).1.1.Detached x := by
  obtain ⟨hidx, hq⟩ := h
  rw [List.forall_mem_cons] at hq
  simp only [CTxMemPool.removeStep]
  cases he : s.1.mapTx[k]? with
  | none => exact ⟨hidx, by simpa using hq.2⟩
  | some entry =>
    refine ⟨hidx.removeEntry he hq.1, ?_⟩
    intro x hx
    apply detached_removeEntry
    rcases List.mem_append.mp hx with hx | hx
    · exact hq.2 x hx
    · cases fRecursive with
      | false => simp at hx
      | true => exact hidx.detached_spender hx

theorem SpendIndexed.remove {origTx : CTransaction} (h : pool.SpendIndexed)
    (hd : pool.Detached origTx.hash) (removed : List CTransaction) (fRecursive : Bool) :
    (pool.remove origTx removed fRecursive).1.SpendIndexed := by
  have hrun := (removal fRecursive).run_invariant
    (fun queue s => s.1.SpendIndexed ∧ ∀ x ∈ queue, s.1.Detached x)
    (SpendIndexed.removeStep fRecursive)
    (origTx.hash :: if fRecursive && !pool.mapTx.contains origTx.hash then
      pool.spenders origTx.hash origTx.vout.length else []) (pool, removed)
  refine (hrun ⟨h, ?_⟩).1
  rw [List.forall_mem_cons]
  refine ⟨hd, fun x hx => ?_⟩
  split at hx
  · exact h.detached_spender hx
  · simp at hx

theorem remove_of_pooled {origTx : CTransaction} (entry : CTxMemPoolEntry)
    (removed : List CTransaction) (h : pool.mapTx[origTx.hash]? = some entry) :
    pool.remove origTx removed false =
      (pool.removeEntry origTx.hash entry, removed ++ [entry.tx]) := by
  simp [CTxMemPool.remove, Worklist.run_cons, removal, CTxMemPool.removeStep, h]

end Remove

section Add

variable {pool : CTxMemPool} {entry : CTxMemPoolEntry}

theorem pooled_addUnchecked (hnew : pool.mapTx[entry.tx.hash]? = none) {tx : CTransaction} :
    (pool.addUnchecked entry.tx.hash entry).Pooled tx ↔ tx = entry.tx ∨ pool.Pooled tx := by
  simp only [Pooled, addUnchecked, Std.TreeMap.getElem?_insert,
    Std.LawfulEqOrd.compare_eq_iff_eq]
  by_cases hh : entry.tx.hash = tx.hash
  · rw [← hh, hnew]
    simp [eq_comm]
  · have hne : tx ≠ entry.tx := by
      rintro rfl
      exact hh rfl
    simp [hh, hne]

theorem mapNextTx_addUnchecked (pool : CTxMemPool) (hz : entry.tx.isZerocoinSpend = false) (o : COutPoint) :
    (o ∉ entry.tx.prevouts ∧
        (pool.addUnchecked entry.tx.hash entry).mapNextTx o = pool.mapNextTx o) ∨
      ∃ n, entry.tx.prevouts[n]? = some o ∧
        (pool.addUnchecked entry.tx.hash entry).mapNextTx o = some ⟨entry.tx, n⟩ := by
  have hkeys : entry.tx.vin.zipIdx.map (fun p => p.1.prevout) = entry.tx.prevouts := by
    have hfst := congrArg (List.map CTxIn.prevout) (List.zipIdx_map_fst 0 entry.tx.vin)
    rwa [List.map_map] at hfst
  simp only [addUnchecked, hz, Bool.false_eq_true, if_false]
  by_cases ho : o ∈ entry.tx.prevouts
  · rw [← hkeys] at ho
    obtain ⟨⟨txin, n⟩, hmem, rfl, hval⟩ := Table.writeAll_of_mem
      (fun p : CTxIn × Nat => some (CInPoint.mk entry.tx p.2)) pool.mapNextTx ho
    refine .inr ⟨n, ?_, hval⟩
    have hn := List.mk_mem_zipIdx_iff_getElem?.mp hmem
    simp [CTransaction.prevouts, hn]
  · refine .inl ⟨ho, Table.writeAll_of_not_mem ?_⟩
    rwa [hkeys]

theorem SpendIndexed.addUnchecked (h : pool.SpendIndexed)
    (hnew : pool.mapTx[entry.tx.hash]? = none)
    (hnd : entry.tx.isZerocoinSpend = false → entry.tx.prevouts.Nodup)
    (hfree : entry.tx.isZerocoinSpend = false →
      ∀ o ∈ entry.tx.prevouts, pool.mapNextTx o = none) :
    (pool.addUnchecked entry.tx.hash entry).SpendIndexed := by
  have hindex : ∀ o tx n, (pool.addUnchecked entry.tx.hash entry).mapNextTx o = some ⟨tx, n⟩ ↔
      (pool.addUnchecked entry.tx.hash entry).Pooled tx ∧ tx.isZerocoinSpend = false ∧
        tx.prevouts[n]? = some o := by
    intro o tx n
    rw [pooled_addUnchecked hnew]
    cases hz : entry.tx.isZerocoinSpend with
    | true =>
      have hkeep : (pool.addUnchecked entry.tx.hash entry).mapNextTx = pool.mapNextTx := by
        simp [CTxMemPool.addUnchecked, hz]
      rw [hkeep, h.index o tx n]
      constructor
      · rintro ⟨hp, hrest⟩
        exact ⟨.inr hp, hrest⟩
      · rintro ⟨rfl | hp, hord, hpo⟩
        · simp [hz] at hord
        · exact ⟨hp, hord, hpo⟩
    | false =>
      rcases mapNextTx_addUnchecked pool hz o with ⟨ho, heq⟩ | ⟨m, hm, heq⟩
      · rw [heq, h.index o tx n]
        constructor
        · rintro ⟨hp, hrest⟩
          exact ⟨.inr hp, hrest⟩
        · rintro ⟨rfl | hp, hord, hpo⟩
          · exact absurd (List.mem_of_getElem? hpo) ho
          · exact ⟨hp, hord, hpo⟩
      · rw [heq]
        simp only [Option.some.injEq, CInPoint.mk.injEq]
        constructor
        · rintro ⟨rfl, rfl⟩
          exact ⟨.inl rfl, hz, hm⟩
        · rintro ⟨rfl | hp, hord, hpo⟩
          · exact ⟨rfl, (List.getElem?_inj (List.getElem?_eq_some_iff.mp hm).1 (hnd hz)).mp
              (hm.trans hpo.symm)⟩
          · have hn := (h.index o tx n).mpr ⟨hp, hord, hpo⟩
            rw [hfree hz o (List.mem_of_getElem? hm)] at hn
            simp at hn
  refine ⟨?_, hindex, disjoint_of_index hindex, ?_⟩
  · intro k e hk
    simp only [CTxMemPool.addUnchecked, Std.TreeMap.getElem?_insert,
      Std.LawfulEqOrd.compare_eq_iff_eq] at hk
    split at hk
    · rename_i heq
      simp only [Option.some.injEq] at hk
      rw [← hk, heq]
    · exact h.keyed k e hk
  · have ht := h.total
    simp only [CTxMemPool.addUnchecked, total_insert hnew]
    omega

end Add

section Conflicts

variable {pool : CTxMemPool}

theorem SpendIndexed.detached_of_spares (h : pool.SpendIndexed) {tx : CTransaction}
    (hs : pool.Spares tx) : pool.Detached tx.hash := by
  intro e he hz o ho
  cases hn : pool.mapNextTx o with
  | none => rfl
  | some it =>
    obtain ⟨hp, hord, hpo⟩ := (h.index o it.ptx it.n).mp hn
    have hdis := hs e.tx (h.pooled_of_get he) (h.keyed _ e he) hz it.ptx hp hord
    exact absurd (List.mem_of_getElem? hpo) (fun hmem => hdis ho hmem)

theorem SpendIndexed.removeConflicts (h : pool.SpendIndexed) (tx : CTransaction)
    (removed : List CTransaction) : (pool.removeConflicts tx removed).1.SpendIndexed := by
  have hstep : ∀ (vin : List CTxIn) (s : CTxMemPool × List CTransaction),
      s.1.SpendIndexed → (vin.foldl (removeConflict tx) s).1.SpendIndexed := by
    intro vin
    induction vin with
    | nil => exact fun s hs => hs
    | cons txin vin ih =>
      intro s hs
      apply ih
      simp only [removeConflict]
      cases hn : s.1.mapNextTx txin.prevout with
      | none => exact hs
      | some it =>
        simp only
        split
        · exact hs
        · exact hs.remove (hs.detached_of_indexed hn) s.2 true
  exact hstep tx.vin (pool, removed) h

end Conflicts

end CTxMemPool

end AnkerNode

namespace AnkerNode

inductive MempoolOp where
  | addUnchecked (entry : CTxMemPoolEntry)
  | remove (origTx : CTransaction) (fRecursive : Bool)
  | removeConflicts (tx : CTransaction)
  | removeForBlock (vtx : List CTransaction)
  | removeCoinbaseSpends (pcoins : CCoinsView) (nMemPoolHeight : UInt32)

namespace CTxMemPool

-- The tests `AcceptToMemoryPool` makes on the transaction and the pool alone.
def acceptable (pool : CTxMemPool) (ctx : CheckContext) (fZerocoinActive : Bool)
    (tx : CTransaction) : Bool :=
  (ctx.checkTransaction tx fZerocoinActive).isOk && !tx.isCoinBase && !tx.isCoinStake &&
    !pool.mapTx.contains tx.hash &&
    (tx.isZerocoinSpend || tx.vin.all fun txin => (pool.mapNextTx txin.prevout).isNone)

inductive Step (params : ChainParams) : CTxMemPool → MempoolOp → CTxMemPool → Prop where
  | addUnchecked (pool : CTxMemPool) (ctx : CheckContext) (fZerocoinActive : Bool)
      (entry : CTxMemPoolEntry) (h : pool.acceptable ctx fZerocoinActive entry.tx = true) :
      Step params pool (.addUnchecked entry) (pool.addUnchecked entry.tx.hash entry)
  | remove (pool : CTxMemPool) (origTx : CTransaction) (fRecursive : Bool) :
      Step params pool (.remove origTx fRecursive) (pool.remove origTx [] fRecursive).1
  | removeConflicts (pool : CTxMemPool) (tx : CTransaction) :
      Step params pool (.removeConflicts tx) (pool.removeConflicts tx []).1
  | removeForBlock (pool : CTxMemPool) (vtx : List CTransaction) :
      Step params pool (.removeForBlock vtx) (pool.removeForBlock vtx []).1
  | removeCoinbaseSpends {pool pool' : CTxMemPool} {pcoins : CCoinsView} {nMemPoolHeight : UInt32}
      (h : pool.removeCoinbaseSpends params pcoins nMemPoolHeight = some pool') :
      Step params pool (.removeCoinbaseSpends pcoins nMemPoolHeight) pool'

inductive Reachable (params : ChainParams) (Cond : CTxMemPool → MempoolOp → Prop) :
    CTxMemPool → Prop where
  | start (fSanityCheck : Bool) : Reachable params Cond { fSanityCheck := fSanityCheck }
  | step {pool pool' : CTxMemPool} (op : MempoolOp) (h : Reachable params Cond pool)
      (hcond : Cond pool op) (hstep : Step params pool op pool') : Reachable params Cond pool'

-- `Spares` before each of the calls of `remove` that a loop over `txs` makes.
def SparesEach {σ : Type} (pool : σ → CTxMemPool) (step : σ → CTransaction → σ) :
    σ → List CTransaction → Prop
  | _, [] => True
  | s, tx :: txs => (pool s).Spares tx ∧ SparesEach pool step (step s tx) txs

def Harmless (params : ChainParams) (pool : CTxMemPool) : MempoolOp → Prop
  | .addUnchecked entry =>
    entry.tx.isZerocoinSpend = false →
      entry.tx.vin.Pairwise fun a b => a.scriptSig.isZerocoinSpend = true → a.prevout ≠ b.prevout
  | .remove origTx _ => pool.Spares origTx
  | .removeConflicts _ => True
  | .removeForBlock vtx => SparesEach Prod.fst removeConnected (pool, []) vtx
  | .removeCoinbaseSpends pcoins nMemPoolHeight =>
    ∀ txs, pool.transactionsToRemove params pcoins nMemPoolHeight = some txs →
      SparesEach id removeSpender pool txs

theorem acceptable_iff {pool : CTxMemPool} {ctx : CheckContext} {fZerocoinActive : Bool}
    {tx : CTransaction} :
    pool.acceptable ctx fZerocoinActive tx = true ↔
      (ctx.checkTransaction tx fZerocoinActive).isOk = true ∧ tx.isCoinBase = false ∧
        tx.isCoinStake = false ∧ pool.mapTx[tx.hash]? = none ∧
        (tx.isZerocoinSpend = false → ∀ o ∈ tx.prevouts, pool.mapNextTx o = none) := by
  have hzc : (tx.isZerocoinSpend || tx.vin.all fun txin => (pool.mapNextTx txin.prevout).isNone)
        = true ↔
      (tx.isZerocoinSpend = false → ∀ o ∈ tx.prevouts, pool.mapNextTx o = none) := by
    cases tx.isZerocoinSpend <;> simp [CTransaction.prevouts]
  simp only [acceptable, Bool.and_eq_true, hzc, Bool.not_eq_true',
    Std.TreeMap.contains_eq_isSome_getElem?, Option.isSome_eq_false_iff, Option.isNone_iff_eq_none,
    and_assoc]

theorem SpendIndexed.foldl {σ : Type} {pool : σ → CTxMemPool} {step : σ → CTransaction → σ}
    (hstep : ∀ s tx, (pool s).SpendIndexed → (pool s).Spares tx → (pool (step s tx)).SpendIndexed)
    {txs : List CTransaction} {s : σ} (h : (pool s).SpendIndexed)
    (hs : SparesEach pool step s txs) : (pool (txs.foldl step s)).SpendIndexed := by
  induction txs generalizing s with
  | nil => exact h
  | cons tx txs ih => exact ih (hstep s tx h hs.1) hs.2

theorem SpendIndexed.step {params : ChainParams} {pool pool' : CTxMemPool} {op : MempoolOp}
    (h : pool.SpendIndexed) (hop : Harmless params pool op) (hstep : Step params pool op pool') :
    pool'.SpendIndexed := by
  cases hstep with
  | addUnchecked ctx fZerocoinActive entry hacc =>
    obtain ⟨hok, -, -, hnew, hfree⟩ := acceptable_iff.mp hacc
    obtain ⟨⟨⟩, hok⟩ := Checks.exists_ok_of_isOk hok
    exact h.addUnchecked hnew (fun hz => (CheckContext.prevouts_nodup_iff hok).mpr (hop hz)) hfree
  | remove => exact h.remove (h.detached_of_spares hop) [] _
  | removeConflicts => exact h.removeConflicts _ []
  | removeForBlock =>
    refine SpendIndexed.foldl ?_ h hop
    intro s tx hs hsp
    exact (hs.remove (hs.detached_of_spares hsp) [] false).removeConflicts tx s.2
  | removeCoinbaseSpends hrun =>
    simp only [removeCoinbaseSpends, Option.map_eq_some_iff] at hrun
    obtain ⟨txs, htxs, rfl⟩ := hrun
    refine SpendIndexed.foldl (fun s tx hs hsp => ?_) h (hop txs htxs)
    exact SpendIndexed.remove hs (SpendIndexed.detached_of_spares hs hsp) [] true

theorem spend_index_reachable (params : ChainParams) (pool : CTxMemPool)
    (h : Reachable params (Harmless params) pool) : pool.SpendIndexed := by
  induction h with
  | start fSanityCheck => exact spendIndexed_empty fSanityCheck
  | step op _ hcond hstep ih => exact ih.step hcond hstep

def payment : CTxMemPoolEntry := ⟨CheckContext.twoInputs [] 0 1, 200⟩

theorem spend_index_payment :
    ∃ pool, Reachable CheckContext.plainContext.params
        (Harmless CheckContext.plainContext.params) pool ∧
      pool.mapNextTx ⟨5, 1⟩ = some ⟨payment.tx, 1⟩ ∧ pool.SpendIndexed := by
  have hreach : Reachable CheckContext.plainContext.params
      (Harmless CheckContext.plainContext.params) (addUnchecked {} payment.tx.hash payment) :=
    .step (.addUnchecked payment) (.start false) (fun _ => by decide)
      (.addUnchecked _ CheckContext.plainContext true payment (by decide))
  exact ⟨_, hreach, by decide, spend_index_reachable _ _ hreach⟩

def spendContext : CheckContext :=
  { CheckContext.plainContext with
    lib := { CheckContext.plainLib with verify := fun _ _ => true }
    readAccumulatorValue := fun _ => some 1 }

-- A zerocoin spend whose second input names an output that `payment` spends.
def mixedSpend : CTxMemPoolEntry where
  tx :=
    { hash := 7
      vin := [⟨COutPoint.null, [OP_ZEROCOINSPEND], 1⟩, ⟨⟨5, 0⟩, [OP_ZEROCOINSPEND], 5⟩]
      vout := [⟨3, [0x51]⟩] }
  nTxSize := 100

theorem mixed_spend_unindexes_payment :
    ∃ pool, Reachable CheckContext.plainContext.params (fun _ _ => True) pool ∧
      pool.Pooled payment.tx ∧ payment.tx.isZerocoinSpend = false ∧
      payment.tx.prevouts[0]? = some ⟨5, 0⟩ ∧ pool.mapNextTx ⟨5, 0⟩ = none ∧
      ¬ pool.SpendIndexed := by
  have hspend : Reachable CheckContext.plainContext.params (fun _ _ => True)
      (addUnchecked {} mixedSpend.tx.hash mixedSpend) :=
    .step (.addUnchecked mixedSpend) (.start false) trivial
      (.addUnchecked _ spendContext true mixedSpend (by decide))
  have hboth := Reachable.step (.addUnchecked payment) hspend trivial
    (.addUnchecked _ CheckContext.plainContext true payment (by decide))
  have hgone := Reachable.step (.remove mixedSpend.tx false) hboth trivial
    (.remove _ mixedSpend.tx false)
  rw [remove_of_pooled mixedSpend [] (by decide)] at hgone
  have hp : (removeEntry ((addUnchecked {} mixedSpend.tx.hash mixedSpend).addUnchecked
      payment.tx.hash payment) mixedSpend.tx.hash mixedSpend).Pooled payment.tx :=
    ⟨payment, by decide, rfl⟩
  have hnone : (removeEntry ((addUnchecked {} mixedSpend.tx.hash mixedSpend).addUnchecked
      payment.tx.hash payment) mixedSpend.tx.hash mixedSpend).mapNextTx ⟨5, 0⟩ = none := by decide
  refine ⟨_, hgone, hp, by decide, by decide, hnone, fun hidx => ?_⟩
  have hsome := (hidx.index ⟨5, 0⟩ payment.tx 0).mpr ⟨hp, by decide, by decide⟩
  rw [hnone] at hsome
  simp at hsome

end CTxMemPool

end AnkerNode
