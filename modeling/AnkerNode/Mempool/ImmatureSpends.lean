import AnkerNode.Mempool.DescendantClosure

namespace AnkerNode

namespace CTxMemPool

-- What `CTxMemPool::check` asserts of the inputs of a pooled transaction.
def Supplied (pool : CTxMemPool) (pcoins : CCoinsView) : Prop :=
  ∀ t, pool.Pooled t → t.isZerocoinSpend = false → ∀ o ∈ t.prevouts,
    (∃ r, pool.Pooled r ∧ r.hash = o.hash ∧ o.n.toNat < r.vout.length) ∨
      pool.mapTx[o.hash]? = none ∧
        ∃ coins, pcoins.accessCoins o.hash = some coins ∧ coins.isAvailable o.n.toNat = true

-- an input from a coinbase or coinstake in `pcoins`, with a number of confirmations in `p`
def SpendsGenerated (pool : CTxMemPool) (pcoins : CCoinsView) (nMemPoolHeight : UInt32)
    (p : Int → Prop) (tx : CTransaction) : Prop :=
  tx.isZerocoinSpend = false ∧ ∃ o ∈ tx.prevouts, pool.mapTx[o.hash]? = none ∧
    ∃ coins, pcoins.accessCoins o.hash = some coins ∧
      (coins.fCoinBase || coins.fCoinStake) = true ∧ p (nMemPoolHeight.toNat - coins.nHeight)

structure HeightsFit (params : ChainParams) (pcoins : CCoinsView) : Prop where
  maturity : 0 ≤ params.nMaturity ∧ params.nMaturity < 2 ^ 31
  height : ∀ hash coins, pcoins.accessCoins hash = some coins →
    0 ≤ coins.nHeight ∧ coins.nHeight < 2 ^ 31

section Depth

theorem toNat_ofInt {n : Int} (h : 0 ≤ n ∧ n < 2 ^ 31) : ((UInt32.ofInt n).toNat : Int) = n := by
  rw [UInt32.ofInt, UInt32.toNat_ofNat']
  omega

-- The unsigned difference puts a coin above the height out of reach of any maturity.
theorem depth_lt_iff (nMemPoolHeight : UInt32) {nHeight nMaturity : Int} (hheight : 0 ≤ nHeight ∧ nHeight < 2 ^ 31)
    (hmaturity : 0 ≤ nMaturity ∧ nMaturity < 2 ^ 31) :
    nMemPoolHeight - UInt32.ofInt nHeight < UInt32.ofInt nMaturity ↔
      0 ≤ (nMemPoolHeight.toNat : Int) - nHeight ∧
        (nMemPoolHeight.toNat : Int) - nHeight < nMaturity := by
  have hH := toNat_ofInt hheight
  have hM := toNat_ofInt hmaturity
  have hlt := nMemPoolHeight.toNat_lt
  rw [UInt32.lt_iff_toNat_lt, UInt32.toNat_sub]
  omega

end Depth

section Scan

variable {pool : CTxMemPool} {params : ChainParams} {pcoins : CCoinsView}
  {nMemPoolHeight : UInt32}

theorem contains_iff {hash : UInt256} :
    pool.mapTx.contains hash = true ↔ pool.mapTx[hash]? ≠ none := by
  rw [Std.TreeMap.contains_eq_isSome_getElem?, Option.isSome_iff_ne_none]

def Due (params : ChainParams) (d : Int) : Prop := 0 ≤ d ∧ d < params.nMaturity

theorem spendsImmature_eq (nMemPoolHeight : UInt32) (hfit : HeightsFit params pcoins) {vin : List CTxIn}
    (hcoins : ∀ txin ∈ vin, pool.mapTx[txin.prevout.hash]? = none →
      ∃ coins, pcoins.accessCoins txin.prevout.hash = some coins) :
    ∃ b, pool.spendsImmature params pcoins nMemPoolHeight vin = some b ∧
      (b = true ↔ ∃ txin ∈ vin, pool.mapTx[txin.prevout.hash]? = none ∧
        ∃ coins, pcoins.accessCoins txin.prevout.hash = some coins ∧
          (coins.fCoinBase || coins.fCoinStake) = true ∧
            Due params (nMemPoolHeight.toNat - coins.nHeight)) := by
  induction vin with
  | nil => exact ⟨false, rfl, by simp⟩
  | cons txin vin ih =>
    rw [List.forall_mem_cons] at hcoins
    obtain ⟨b, hb, hiff⟩ := ih hcoins.2
    rw [spendsImmature]
    by_cases hpool : pool.mapTx[txin.prevout.hash]? = none
    · obtain ⟨coins, hget⟩ := hcoins.1 hpool
      have hout : ¬ pool.mapTx.contains txin.prevout.hash = true := by
        rw [contains_iff, not_not]
        exact hpool
      have hdepth := depth_lt_iff nMemPoolHeight (hfit.height _ coins hget) hfit.maturity
      rw [if_neg hout, hget]
      by_cases hdue : ((coins.fCoinBase || coins.fCoinStake) && decide
          (nMemPoolHeight - UInt32.ofInt coins.nHeight < UInt32.ofInt params.nMaturity)) = true
      · refine ⟨true, if_pos hdue, ?_⟩
        rw [Bool.and_eq_true, decide_eq_true_eq, hdepth] at hdue
        simp only [true_iff]
        exact ⟨txin, List.mem_cons_self, hpool, coins, hget, hdue.1, hdue.2⟩
      · refine ⟨b, (if_neg hdue).trans hb, ?_⟩
        rw [Bool.and_eq_true, decide_eq_true_eq, hdepth] at hdue
        rw [hiff]
        simp only [List.mem_cons, exists_eq_or_imp]
        refine ⟨Or.inr, ?_⟩
        rintro (⟨-, coins', hget', hgen, hd⟩ | hrest)
        · rw [hget, Option.some.injEq] at hget'
          exact absurd ⟨hget' ▸ hgen, hget' ▸ hd⟩ hdue
        · exact hrest
    · rw [if_pos (contains_iff.mpr hpool)]
      refine ⟨b, hb, ?_⟩
      rw [hiff]
      simp only [List.mem_cons, exists_eq_or_imp, hpool, false_and, false_or]

end Scan

section Strip

variable {pool pool' : CTxMemPool} {done : List CTransaction}

-- `pool'` is `pool` without the descendants of `done`.
structure Stripped (pool : CTxMemPool) (done : List CTransaction) (pool' : CTxMemPool) : Prop where
  index : pool'.SpendIndexed
  pooled : ∀ t, pool'.Pooled t ↔ pool.Pooled t ∧ ∀ d ∈ done, ¬ pool.Descends d t

theorem stripped_nil (h : pool.SpendIndexed) : Stripped pool [] pool :=
  ⟨h, fun t => by simp⟩

theorem Stripped.spendsOutput_iff (hs : Stripped pool done pool') (h : pool.SpendIndexed)
    {a b : CTransaction} :
    pool'.SpendsOutput a b ↔ pool.SpendsOutput a b ∧ pool'.Pooled b := by
  constructor
  · rintro ⟨i, hi, n, hn⟩
    obtain ⟨hb, hz, ho⟩ := (hs.index.index _ b n).mp hn
    exact ⟨⟨i, hi, n, (h.index _ b n).mpr ⟨((hs.pooled b).mp hb).1, hz, ho⟩⟩, hb⟩
  · rintro ⟨⟨i, hi, n, hn⟩, hb⟩
    obtain ⟨-, hz, ho⟩ := (h.index _ b n).mp hn
    exact ⟨i, hi, n, (hs.index.index _ b n).mpr ⟨hb, hz, ho⟩⟩

-- What is left descends from `tx` through transactions that are left.
theorem Stripped.descends_iff (hs : Stripped pool done pool') (h : pool.SpendIndexed)
    {tx t : CTransaction} (ht : pool'.Pooled t) : pool'.Descends tx t ↔ pool.Descends tx t := by
  constructor
  · intro hdesc
    clear ht
    induction hdesc with
    | refl => exact .refl
    | tail _ hab ih => exact ih.tail ((hs.spendsOutput_iff h).mp hab).1
  · intro hdesc
    induction hdesc with
    | refl => exact .refl
    | @tail b c hb hbc ih =>
      have hedge := (hs.spendsOutput_iff h).mpr ⟨hbc, ht⟩
      by_cases hroot : b = tx
      · rw [hroot] at hedge
        exact .single hedge
      · have hleft : pool'.Pooled b := by
          refine (hs.pooled b).mpr ⟨(Descends.spender h hb hroot).1, fun d hd hdb => ?_⟩
          exact ((hs.pooled c).mp ht).2 d hd (hdb.tail hbc)
        exact (ih hleft).tail hedge

theorem Stripped.removeSpender (hs : Stripped pool done pool') (h : pool.SpendIndexed)
    (hspends : ∀ z, pool.Pooled z → z.isZerocoinSpend = false) {tx : CTransaction}
    (htx : pool.Pooled tx) : Stripped pool (done ++ [tx]) (removeSpender pool' tx) := by
  have hordinary : ∀ z, pool'.Pooled z → z.isZerocoinSpend = false :=
    fun z hz => hspends z ((hs.pooled z).mp hz).1
  have hdetached : pool'.Detached tx.hash := by
    intro entry he hz
    rw [hordinary _ (hs.index.pooled_of_get he)] at hz
    cases hz
  have hstored : pool'.stored tx = tx := by
    cases he : pool'.mapTx[tx.hash]? with
    | none => exact stored_of_none he
    | some entry =>
      have hentry := ((hs.pooled _).mp (hs.index.pooled_of_get he)).1
      rw [stored_of_get he, hentry.unique htx (hs.index.keyed _ entry he)]
  have hacyclic : pool'.Acyclic (pool'.stored tx) := by
    intro hp hz
    rw [hordinary _ hp] at hz
    cases hz
  obtain ⟨gone, -, hswept⟩ := swept_remove hs.index hacyclic []
  rw [hstored] at hswept
  refine ⟨hs.index.remove hdetached [] true, fun t => ?_⟩
  rw [CTxMemPool.removeSpender, hswept.pooled_iff, hswept.mem_iff, List.forall_mem_append,
    List.forall_mem_singleton, ← and_assoc, ← hs.pooled t]
  constructor
  · rintro ⟨ht, hout⟩
    exact ⟨ht, fun hdesc => hout ⟨ht, (hs.descends_iff h ht).mpr hdesc⟩⟩
  · rintro ⟨ht, hout⟩
    exact ⟨ht, fun hin => hout ((hs.descends_iff h ht).mp hin.2)⟩

theorem Stripped.foldl (hs : Stripped pool done pool') (h : pool.SpendIndexed)
    (hspends : ∀ z, pool.Pooled z → z.isZerocoinSpend = false) {txs : List CTransaction}
    (htxs : ∀ tx ∈ txs, pool.Pooled tx) :
    Stripped pool (done ++ txs) (txs.foldl CTxMemPool.removeSpender pool') := by
  induction txs generalizing done pool' with
  | nil => simpa using hs
  | cons tx txs ih =>
    rw [List.forall_mem_cons] at htxs
    have hnext := ih (hs.removeSpender h hspends htxs.1) htxs.2
    rwa [List.append_assoc, List.singleton_append] at hnext

end Strip

section Shrink

variable {pool : CTxMemPool}

theorem remove_shrinks (pool : CTxMemPool) (origTx : CTransaction) (removed : List CTransaction)
    (fRecursive : Bool) :
    (∀ k : UInt256, pool.mapTx[k]? = none → (pool.remove origTx removed fRecursive).1.mapTx[k]? = none) ∧
      (pool.remove origTx removed fRecursive).1.mapTx[origTx.hash]? = none := by
  have hrun := (removal fRecursive).run_invariant
    (fun queue s => (∀ k : UInt256, pool.mapTx[k]? = none → s.1.mapTx[k]? = none) ∧
      (s.1.mapTx[origTx.hash]? = none ∨ origTx.hash ∈ queue)) ?_
    (origTx.hash :: if fRecursive && !pool.mapTx.contains origTx.hash then
      pool.spenders origTx.hash origTx.vout.length else []) (pool, removed)
    ⟨fun _ hk => hk, Or.inr List.mem_cons_self⟩
  · exact ⟨hrun.1, hrun.2.resolve_right (List.not_mem_nil)⟩
  · rintro k queue s ⟨hnone, horig⟩
    change (∀ x : UInt256, pool.mapTx[x]? = none → (removeStep fRecursive s k).1.1.mapTx[x]? = none) ∧
      ((removeStep fRecursive s k).1.1.mapTx[origTx.hash]? = none ∨
        origTx.hash ∈ queue ++ (removeStep fRecursive s k).2)
    rw [removeStep]
    cases he : s.1.mapTx[k]? with
    | none =>
      refine ⟨hnone, ?_⟩
      rcases horig with horig | horig
      · exact Or.inl horig
      · rcases List.mem_cons.mp horig with rfl | horig
        · exact Or.inl he
        · exact Or.inr (List.mem_append_left _ horig)
    | some entry =>
      simp only [mapTx_removeEntry]
      refine ⟨fun x hx => ?_, ?_⟩
      · split
        · rfl
        · exact hnone x hx
      · rcases horig with horig | horig
        · left
          split
          · rfl
          · exact horig
        · rcases List.mem_cons.mp horig with rfl | horig
          · exact Or.inl (if_pos rfl)
          · exact Or.inr (List.mem_append_left _ horig)

theorem foldl_removeSpender_none {txs : List CTransaction} {k : UInt256}
    (hk : pool.mapTx[k]? = none ∨ ∃ tx ∈ txs, tx.hash = k) :
    (txs.foldl removeSpender pool).mapTx[k]? = none := by
  induction txs generalizing pool with
  | nil => simpa using hk
  | cons tx txs ih =>
    apply ih
    obtain ⟨hshrinks, hgone⟩ := remove_shrinks pool tx [] true
    rcases hk with hk | ⟨tx', htx', rfl⟩
    · exact Or.inl (hshrinks k hk)
    · rcases List.mem_cons.mp htx' with rfl | htx'
      · exact Or.inl hgone
      · exact Or.inr ⟨tx', htx', rfl⟩

end Shrink

section Exact

variable {pool : CTxMemPool} {params : ChainParams} {pcoins : CCoinsView}
  {nMemPoolHeight : UInt32}

-- what the call is for: the spenders of immature outputs leave with their descendants
def RemovesImmature (pool : CTxMemPool) (params : ChainParams) (pcoins : CCoinsView)
    (nMemPoolHeight : UInt32) : Prop :=
  ∃ pool', pool.removeCoinbaseSpends params pcoins nMemPoolHeight = some pool' ∧
    ∀ t, pool'.Pooled t ↔ pool.Pooled t ∧ ¬ ∃ s, pool.Pooled s ∧
      pool.SpendsGenerated pcoins nMemPoolHeight (fun d => d < params.nMaturity) s ∧
        pool.Descends s t

theorem mem_pooled (h : pool.SpendIndexed) {tx : CTransaction} :
    tx ∈ pool.mapTx.toList.map (fun it => it.2.tx) ↔ pool.Pooled tx := by
  rw [List.mem_map]
  constructor
  · rintro ⟨⟨k, entry⟩, hmem, rfl⟩
    exact h.pooled_of_get (Std.TreeMap.mem_toList_iff_getElem?_eq_some.mp hmem)
  · rintro ⟨entry, he, rfl⟩
    exact ⟨(entry.tx.hash, entry), Std.TreeMap.mem_toList_iff_getElem?_eq_some.mpr he, rfl⟩

theorem spendsImmature_of_ordinary (nMemPoolHeight : UInt32) (hfit : HeightsFit params pcoins)
    (hsupplied : pool.Supplied pcoins) {tx : CTransaction} (htx : pool.Pooled tx)
    (hz : tx.isZerocoinSpend = false) :
    ∃ b, pool.spendsImmature params pcoins nMemPoolHeight tx.vin = some b ∧
      (b = true ↔ pool.SpendsGenerated pcoins nMemPoolHeight (Due params) tx) := by
  have hcoins : ∀ txin ∈ tx.vin, pool.mapTx[txin.prevout.hash]? = none →
      ∃ coins, pcoins.accessCoins txin.prevout.hash = some coins := by
    intro txin htxin hnone
    rcases hsupplied tx htx hz _ (List.mem_map_of_mem htxin) with ⟨r, ⟨e, he, -⟩, hr, -⟩ |
      ⟨-, coins, hget, -⟩
    · rw [hr, hnone] at he
      cases he
    · exact ⟨coins, hget⟩
  obtain ⟨b, hb, hiff⟩ := spendsImmature_eq nMemPoolHeight hfit hcoins
  refine ⟨b, hb, hiff.trans ?_⟩
  rw [SpendsGenerated, CTransaction.prevouts]
  simp only [hz, true_and, List.mem_map, exists_exists_and_eq_and]

-- Without zerocoin spends the call takes the spenders that it sees as due, and their descendants.
theorem removeCoinbaseSpends_eq (nMemPoolHeight : UInt32) (h : pool.SpendIndexed) (hfit : HeightsFit params pcoins)
    (hsupplied : pool.Supplied pcoins)
    (hspends : ∀ z, pool.Pooled z → z.isZerocoinSpend = false) :
    ∃ pool', pool.removeCoinbaseSpends params pcoins nMemPoolHeight = some pool' ∧
      ∀ t, pool'.Pooled t ↔ pool.Pooled t ∧ ¬ ∃ s, pool.Pooled s ∧
        pool.SpendsGenerated pcoins nMemPoolHeight (Due params) s ∧ pool.Descends s t := by
  have hscan : ∀ tx ∈ pool.mapTx.toList.map (fun it => it.2.tx),
      ∃ b, pool.spendsImmature params pcoins nMemPoolHeight tx.vin = some b := by
    intro tx htx
    have htx' := (mem_pooled h).mp htx
    obtain ⟨b, hb, -⟩ := spendsImmature_of_ordinary nMemPoolHeight hfit hsupplied htx' (hspends tx htx')
    exact ⟨b, hb⟩
  obtain ⟨txs, htxs⟩ := Checks.exists_filterM hscan
  have hmem : ∀ s, s ∈ txs ↔ pool.Pooled s ∧
      pool.SpendsGenerated pcoins nMemPoolHeight (Due params) s := by
    intro s
    rw [(Checks.filterM_eq_some htxs).2 s, mem_pooled h]
    refine and_congr_right fun hs => ?_
    obtain ⟨b, hb, hiff⟩ := spendsImmature_of_ordinary nMemPoolHeight hfit hsupplied hs (hspends s hs)
    rw [← hiff, hb, Option.some.injEq]
  refine ⟨txs.foldl removeSpender pool, ?_, fun t => ?_⟩
  · rw [removeCoinbaseSpends, transactionsToRemove, htxs]
    rfl
  · have hstrip := (stripped_nil h).foldl h hspends (fun tx htx => ((hmem tx).mp htx).1)
    rw [hstrip.pooled t, List.nil_append]
    refine and_congr_right fun _ => ?_
    constructor
    · rintro hout ⟨s, hs, hdue, hdesc⟩
      exact hout s ((hmem s).mpr ⟨hs, hdue⟩) hdesc
    · intro hout d hd hdesc
      exact hout ⟨d, ((hmem d).mp hd).1, ((hmem d).mp hd).2, hdesc⟩

end Exact

section Theorem

variable {pool : CTxMemPool} {params : ChainParams} {pcoins : CCoinsView}
  {nMemPoolHeight : UInt32}

-- The null hash of its first input is neither pooled nor a coin's, so the scan takes a zerocoin
-- spend for one whose coin is missing.
theorem spendsImmature_of_zerocoinSpend (params : ChainParams) (nMemPoolHeight : UInt32)
    (hpool : pool.mapTx[(0 : UInt256)]? = none)
    (hcoins : pcoins.accessCoins 0 = none) {z : CTransaction} (hz : z.isZerocoinSpend = true) :
    pool.spendsImmature params pcoins nMemPoolHeight z.vin =
      if pool.fSanityCheck then none else some true := by
  rw [CTransaction.isZerocoinSpend] at hz
  split at hz
  · cases hz
  · rename_i txin vin hvin
    rw [Bool.and_eq_true, beq_iff_eq] at hz
    have hout : ¬ pool.mapTx.contains (0 : UInt256) = true := by
      rw [contains_iff, not_not]
      exact hpool
    rw [hvin, spendsImmature, hz.1, if_neg hout, hcoins]

theorem zerocoinSpend_removed (h : pool.SpendIndexed) (hpool : pool.mapTx[(0 : UInt256)]? = none)
    (hcoins : pcoins.accessCoins 0 = none) {z : CTransaction} (hz : z.isZerocoinSpend = true)
    (hpooled : pool.Pooled z) {pool' : CTxMemPool}
    (hrun : pool.removeCoinbaseSpends params pcoins nMemPoolHeight = some pool') :
    ¬ pool'.Pooled z := by
  rw [removeCoinbaseSpends, Option.map_eq_some_iff] at hrun
  obtain ⟨txs, htxs, rfl⟩ := hrun
  obtain ⟨hall, hmem⟩ := Checks.filterM_eq_some htxs
  obtain ⟨b, hb⟩ := hall z ((mem_pooled h).mpr hpooled)
  have hscan := spendsImmature_of_zerocoinSpend params nMemPoolHeight hpool hcoins hz
  have htrue : pool.spendsImmature params pcoins nMemPoolHeight z.vin = some true := by
    rw [hscan] at hb ⊢
    split at hb
    · cases hb
    · rename_i hcheck
      exact if_neg hcheck
  have hin : z ∈ txs := (hmem z).mpr ⟨(mem_pooled h).mpr hpooled, htrue⟩
  rintro ⟨entry, he, -⟩
  rw [foldl_removeSpender_none (Or.inr ⟨z, hin, rfl⟩)] at he
  cases he

theorem immature_spends_removed_iff (h : pool.SpendIndexed) (hfit : HeightsFit params pcoins)
    (hsupplied : pool.Supplied pcoins) (hpool : pool.mapTx[(0 : UInt256)]? = none)
    (hcoins : pcoins.accessCoins 0 = none) :
    pool.RemovesImmature params pcoins nMemPoolHeight ↔
      (∀ z, pool.Pooled z → z.isZerocoinSpend = false) ∧
        ∀ s, pool.Pooled s → pool.SpendsGenerated pcoins nMemPoolHeight (fun d => d < 0) s →
          ∃ r, pool.Pooled r ∧ pool.SpendsGenerated pcoins nMemPoolHeight (Due params) r ∧
            pool.Descends r s := by
  constructor
  · rintro ⟨pool', hrun, hexact⟩
    have hspends : ∀ z, pool.Pooled z → z.isZerocoinSpend = false := by
      intro z hz
      by_contra hzc
      rw [Bool.not_eq_false] at hzc
      refine zerocoinSpend_removed h hpool hcoins hzc hz hrun ((hexact z).mpr ⟨hz, ?_⟩)
      rintro ⟨s, -, hs, hdesc⟩
      by_cases hsame : z = s
      · rw [← hsame, SpendsGenerated, hzc] at hs
        exact absurd hs.1 (by decide)
      · rw [(Descends.spender h hdesc hsame).2] at hzc
        cases hzc
    refine ⟨hspends, fun s hs habove => ?_⟩
    obtain ⟨pool'', hrun', hseen⟩ :=
      removeCoinbaseSpends_eq nMemPoolHeight h hfit hsupplied hspends
    rw [hrun, Option.some.injEq] at hrun'
    subst hrun'
    have hgone : ¬ pool'.Pooled s := by
      intro hleft
      obtain ⟨hz, o, ho, hnone, coins, hget, hgen, hd⟩ := habove
      have hmaturity := hfit.maturity.1
      refine ((hexact s).mp hleft).2 ⟨s, hs, ⟨hz, o, ho, hnone, coins, hget, hgen, ?_⟩, .refl⟩
      dsimp only at hd ⊢
      omega
    by_contra hnone
    exact hgone ((hseen s).mpr ⟨hs, hnone⟩)
  · rintro ⟨hspends, habove⟩
    obtain ⟨pool', hrun, hseen⟩ :=
      removeCoinbaseSpends_eq nMemPoolHeight h hfit hsupplied hspends
    refine ⟨pool', hrun, fun t => (hseen t).trans (and_congr_right fun _ => not_congr ?_)⟩
    constructor
    · rintro ⟨s, hs, ⟨hz, o, ho, hnone, coins, hget, hgen, hd⟩, hdesc⟩
      exact ⟨s, hs, ⟨hz, o, ho, hnone, coins, hget, hgen, hd.2⟩, hdesc⟩
    · rintro ⟨s, hs, ⟨hz, o, ho, hnone, coins, hget, hgen, hd⟩, hdesc⟩
      by_cases hlow : 0 ≤ (nMemPoolHeight.toNat : Int) - coins.nHeight
      · exact ⟨s, hs, ⟨hz, o, ho, hnone, coins, hget, hgen, hlow, hd⟩, hdesc⟩
      · obtain ⟨r, hr, hdue, hrs⟩ := habove s hs
          ⟨hz, o, ho, hnone, coins, hget, hgen, by simpa using hlow⟩
        exact ⟨r, hr, hdue, hrs.trans hdesc⟩

end Theorem

def generatedCoins (nHeight : Int) : CCoinsView where
  coins := fun txid =>
    if txid = 5 then
      some { fCoinBase := true, vout := [⟨9, [0x51]⟩], nHeight := nHeight, nVersion := 1 }
    else none
  hashBlock := 0

theorem accessCoins_generatedCoins {nHeight : Int} {hash : UInt256} {coins : CCoins}
    (h : (generatedCoins nHeight).accessCoins hash = some coins) : coins.nHeight = nHeight := by
  simp only [CCoinsView.accessCoins, generatedCoins] at h
  split at h
  · rw [← Option.some.inj h]
  · cases h

theorem heightsFit_generatedCoins {nHeight : Int} (h : 0 ≤ nHeight ∧ nHeight < 2 ^ 31) :
    HeightsFit CheckContext.plainContext.params (generatedCoins nHeight) :=
  ⟨by decide, fun _ _ hget => by rw [accessCoins_generatedCoins hget]; exact h⟩

theorem pooled_familyPool {t : CTransaction} (h : familyPool.Pooled t) :
    t = spending.tx ∨ t = funding.tx := by
  rcases (pooled_addUnchecked (by decide)).mp h with rfl | h
  · exact Or.inl rfl
  · rcases (pooled_addUnchecked (by decide)).mp h with rfl | ⟨entry, he, -⟩
    · exact Or.inr rfl
    · simp at he

theorem immature_spends_removed_family :
    familyPool.RemovesImmature CheckContext.plainContext.params (generatedCoins 10) 20 := by
  have hsupplied : familyPool.Supplied (generatedCoins 10) := by
    intro t ht _ o ho
    rcases pooled_familyPool ht with rfl | rfl
    · left
      rw [List.mem_singleton.mp ho]
      exact ⟨funding.tx, ⟨funding, by decide, rfl⟩, rfl, by decide⟩
    · right
      rw [List.mem_singleton.mp ho]
      exact ⟨by decide, _, rfl, by decide⟩
  refine (immature_spends_removed_iff spendIndexed_familyPool
    (heightsFit_generatedCoins (by decide)) hsupplied (by decide) (by decide)).mpr ⟨?_, ?_⟩
  · intro z hz
    rcases pooled_familyPool hz with rfl | rfl
    · decide
    · decide
  · rintro s - ⟨-, o, -, -, coins, hget, -, hd⟩
    rw [accessCoins_generatedCoins hget] at hd
    exact absurd hd (by decide)

def serialSpend : CTxMemPoolEntry where
  tx := { hash := 7, vin := [⟨COutPoint.null, [OP_ZEROCOINSPEND], 1⟩], vout := [⟨3, [0x51]⟩] }
  nTxSize := 100

def serialPool : CTxMemPool := addUnchecked {} serialSpend.tx.hash serialSpend

theorem zerocoin_spend_taken_for_immature :
    serialPool.SpendIndexed ∧ serialPool.Supplied (generatedCoins 10) ∧
      HeightsFit CheckContext.plainContext.params (generatedCoins 10) ∧
      serialPool.Pooled serialSpend.tx ∧ serialSpend.tx.isZerocoinSpend = true ∧
      (∃ pool', serialPool.removeCoinbaseSpends CheckContext.plainContext.params
        (generatedCoins 10) 20 = some pool' ∧ ¬ pool'.Pooled serialSpend.tx) ∧
      ¬ serialPool.RemovesImmature CheckContext.plainContext.params (generatedCoins 10) 20 := by
  have hindex : serialPool.SpendIndexed :=
    (spendIndexed_empty false).addUnchecked (by decide) (fun hz => absurd hz (by decide))
      (fun hz => absurd hz (by decide))
  have hpooled : serialPool.Pooled serialSpend.tx := ⟨serialSpend, by decide, rfl⟩
  have hz : serialSpend.tx.isZerocoinSpend = true := by decide
  have honly : ∀ t, serialPool.Pooled t → t = serialSpend.tx := by
    intro t ht
    rcases (pooled_addUnchecked (by decide)).mp ht with rfl | ⟨entry, he, -⟩
    · rfl
    · simp at he
  have hsupplied : serialPool.Supplied (generatedCoins 10) := by
    intro t ht hord
    rw [honly t ht, hz] at hord
    cases hord
  have hrun : (serialPool.removeCoinbaseSpends CheckContext.plainContext.params
      (generatedCoins 10) 20).isSome = true := by
    rw [removeCoinbaseSpends, Option.isSome_map]
    decide
  obtain ⟨pool', hpool'⟩ := Option.isSome_iff_exists.mp hrun
  have hgone := zerocoinSpend_removed hindex (by decide) (by decide) hz hpooled hpool'
  refine ⟨hindex, hsupplied, heightsFit_generatedCoins (by decide), hpooled, hz,
    ⟨pool', hpool', hgone⟩, ?_⟩
  rintro ⟨pool'', hrun', hexact⟩
  rw [hpool', Option.some.injEq] at hrun'
  subst hrun'
  refine hgone ((hexact _).mpr ⟨hpooled, ?_⟩)
  rintro ⟨s, hs, ⟨hord, -⟩, -⟩
  rw [honly s hs, hz] at hord
  cases hord

end CTxMemPool

end AnkerNode
