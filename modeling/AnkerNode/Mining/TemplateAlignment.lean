import AnkerNode.Mining.Selection
import AnkerNode.Validation.ConnectSpec

namespace AnkerNode

namespace MinerContext

variable {P F : Type} (ctx : MinerContext P F)

-- What holds of the second loop after `taken`.
structure Built (s : Selection) (taken : List (CTransaction × Bool)) : Prop where
  addressed : s.addresses.Nodup
  queue : (s.queued ++ taken.map Prod.fst).Subperm ctx.booked
  vtx : s.vtx = (taken.filter Prod.snd).map Prod.fst
  applied : s.vtx.foldlM ctx.applyTx (ctx.view, []) = some (s.view, s.vTxFees)
  cost : s.nBlockCost = 4000 + (s.vtx.map txCost).sum
  limit : (s.vtx.map txCost).sum < ctx.args.nBlockMaxCost
  serials : (s.vtx.flatMap ctx.serials).Nodup
  recorded : ∀ serial ∈ s.vtx.flatMap ctx.serials, serial ∈ s.vBlockSerials

variable {ctx}

theorem built_start {c : Collection} (h : ctx.collect = some c) : ctx.Built (ctx.start c) [] where
  addressed := (collect_spec h).1.nodup
  queue := by
    refine List.Subperm.trans (List.Sublist.subperm ?_) (collect_spec h).2.2
    rw [List.map_nil, List.append_nil]
    exact List.Sublist.append_left (List.filter_sublist.map _) _
  vtx := rfl
  applied := rfl
  cost := rfl
  limit := by
    rw [start, List.map_nil, List.sum_nil, BlockArgs.nBlockMaxCost]
    omega
  serials := List.nodup_nil
  recorded := fun _ h => absurd h List.not_mem_nil

theorem Built.taken {s s' : Selection} {taken : List (CTransaction × Bool)} {tx : CTransaction}
    {fPlaced : Bool} (hs : ctx.Built s taken) (hmem : tx ∈ s.vecPriority)
    (h : ctx.Taken s tx s' fPlaced) : ctx.Built s' (taken ++ [(tx, fPlaced)]) := by
  have hqueue : ∀ {queued : List CTransaction}, queued.Perm (s.vecPriority.erase tx ++ s.waiting) →
      (queued ++ (taken ++ [(tx, fPlaced)]).map Prod.fst).Subperm ctx.booked := by
    intro queued hq
    refine List.Perm.subperm_right ?_ |>.mp hs.queue
    have herase := List.perm_cons_erase hmem
    rw [List.map_append, List.map_cons, List.map_nil, ← List.append_assoc]
    refine List.Perm.trans ?_ (List.perm_append_singleton tx _).symm
    rw [← List.cons_append]
    refine List.Perm.append_right _ ?_
    refine (List.Perm.append_right s.waiting herase).trans ?_
    rw [List.cons_append]
    exact hq.symm.cons tx
  cases h with
  | left hledger haddr hqueued =>
    simp only [Selection.ledger, Prod.mk.injEq] at hledger
    obtain ⟨hview, hcost, hserials, hvtx, hfees⟩ := hledger
    refine ⟨haddr ▸ hs.addressed, hqueue hqueued, ?_, ?_, ?_, ?_, ?_, ?_⟩
    · rw [hvtx, hs.vtx]
      simp
    · rw [hvtx, hview, hfees]
      exact hs.applied
    · rw [hcost, hvtx]
      exact hs.cost
    · rw [hvtx]
      exact hs.limit
    · rw [hvtx]
      exact hs.serials
    · rw [hvtx, hserials]
      exact hs.recorded
  | placed hlimit happly hnodup hfresh hrecorded hledger haddr hqueued =>
    simp only [Selection.ledger, Prod.mk.injEq] at hledger
    obtain ⟨hview, hcost, hserials, hvtx, hfees⟩ := hledger
    have hsum : (s'.vtx.map txCost).sum = (s.vtx.map txCost).sum + txCost tx := by
      simp [hvtx]
    have hflat : s'.vtx.flatMap ctx.serials = s.vtx.flatMap ctx.serials ++ ctx.serials tx := by
      simp [hvtx]
    have hbooked := hs.cost
    refine ⟨haddr ▸ hs.addressed, hqueue hqueued, ?_, ?_, ?_, ?_, ?_, ?_⟩
    · rw [hvtx, hs.vtx]
      simp
    · rw [hvtx, hview, hfees, List.foldlM_append, hs.applied]
      simpa using happly
    · rw [hcost, hsum]
      omega
    · rw [hsum]
      omega
    · rw [hflat, List.nodup_append']
      refine ⟨hs.serials, hnodup, fun serial hold hnew => ?_⟩
      exact hfresh hnew (hs.recorded serial hold)
    · rw [hflat, hserials]
      intro serial hserial
      rcases List.mem_append.mp hserial with hold | hnew
      · exact List.mem_append_left _ (hs.recorded serial hold)
      · exact List.mem_append_right _ (hrecorded serial hnew)

section Runs

variable [LinearOrder P] [LinearOrder F]

theorem built_of_selects {s s' : Selection} {taken : List (CTransaction × Bool)}
    (h : ctx.Selects s taken s') (hs : ctx.Built s []) : ctx.Built s' taken := by
  induction h with
  | refl => exact hs
  | step _ hfront hselect hmid =>
    exact hmid.taken hfront.1 (select_taken hmid.addressed hselect)

end Runs

theorem Built.wellFormed {s : Selection} {taken : List (CTransaction × Bool)}
    (hpool : ctx.pool.SpendIndexed) (h : ctx.Built s taken) : ctx.WellFormed s.vtx := by
  have hsub : s.vtx.Subperm ctx.booked := by
    refine List.Subperm.trans (List.Sublist.subperm ?_) h.queue
    rw [h.vtx]
    exact (List.filter_sublist.map _).trans (List.sublist_append_right _ _)
  obtain ⟨txs, hperm, hbooked⟩ := hsub
  have hpooled : ∀ tx ∈ s.vtx, ctx.pool.Pooled tx := fun tx htx =>
    poolTxs_pooled hpool ((bookedFrom_sublist 400 _).subset (hbooked.subset (hperm.mem_iff.mpr htx)))
  have hdistinct : (s.vtx.map CTransaction.hash).Nodup := by
    rw [← (hperm.map _).nodup_iff]
    exact ((hbooked.trans (bookedFrom_sublist 400 _)).map _).nodup (poolTxs_distinct hpool)
  refine ⟨hpooled, hdistinct, by rw [h.applied]; rfl, ?_, ?_, h.serials, h.limit, ?_⟩
  · intro before tx after hsplit hspends
    exact parents_of_applied h.applied hsplit hspends
  · rw [List.nodup_flatMap]
    refine ⟨?_, ?_⟩
    · intro tx htx
      obtain ⟨hmem, hspends⟩ := List.mem_filter.mp htx
      exact prevouts_nodup_of_applied h.applied hmem hspends
    · have hne : (s.vtx.filter fun tx => tx.spendsCoins).Pairwise (· ≠ ·) :=
        (List.filter_sublist.map CTransaction.hash).nodup hdistinct |>.of_map
      refine hne.imp_of_mem fun {tx tx'} htx htx' hdiff => ?_
      obtain ⟨hmem, hspends⟩ := List.mem_filter.mp htx
      obtain ⟨hmem', hspends'⟩ := List.mem_filter.mp htx'
      simp only [CTransaction.spendsCoins, Bool.and_eq_true, Bool.not_eq_true'] at hspends hspends'
      exact hpool.disjoint tx tx' (hpooled tx hmem) (hpooled tx' hmem') hspends.2 hspends'.2 hdiff
  · have hsum : (ctx.sigOpCosts s.vtx).sum ≤ (ctx.sigOpCosts ctx.booked).sum := by
      rw [sigOpCosts, ← (hperm.map fun tx => ctx.sigOpCost tx.hash).sum_eq]
      exact (hbooked.map fun tx => ctx.sigOpCost tx.hash).sum_le_sum (by simp)
    have hlimit : 400 + (ctx.sigOpCosts ctx.booked).sum < MAX_BLOCK_SIGOPS_COST :=
      sum_bookedFrom (by decide) ctx.poolTxs
    omega

theorem Built.length_le {s : Selection} {taken : List (CTransaction × Bool)}
    (h : ctx.Built s taken) : taken.length ≤ ctx.booked.length := by
  have hle := h.queue.length_le
  rw [List.length_append, List.length_map] at hle
  omega

section Template

variable {coinbase : CTransaction} {coinstake : Option CTransaction} {c : Collection} {s : Selection}
  {taken : List (CTransaction × Bool)}

theorem vTxSigOpsCost_template (h : ctx.collect = some c) :
    (ctx.template coinbase coinstake c s).vTxSigOpsCost =
      ((WITNESS_SCALE_FACTOR * ctx.legacySigOpCount coinbase : Nat) : Int) ::
        (ctx.sigOpCosts ctx.booked).map Int.ofNat := by
  rw [template, (collect_spec h).2.1]
  simp

-- The costs were booked in the order of the pool, one for each transaction that was booked.
theorem aligned_template_iff (hc : ctx.collect = some c) (h : ctx.Built s taken) :
    ctx.Aligned coinbase s.vtx (ctx.template coinbase coinstake c s) ↔
      coinstake = none ∧
        taken.map (fun it => ctx.sigOpCost it.1.hash) = ctx.sigOpCosts ctx.booked ∧
          ∀ it ∈ taken, it.2 = true := by
  have hcosts : (ctx.template coinbase coinstake c s).vTxSigOpsCost = _ :=
    vTxSigOpsCost_template hc
  have hfees := length_foldlM_applyTx h.applied
  rw [List.length_nil, Nat.zero_add] at hfees
  constructor
  · intro ha
    have hlength := ha.fees_length
    simp only [template, List.length_cons, List.length_append, hfees] at hlength
    obtain rfl : coinstake = none := by
      cases coinstake with
      | none => rfl
      | some tx =>
        simp only [Option.toList_some, List.length_singleton] at hlength
        omega
    have hsig := ha.sigOps
    rw [hcosts] at hsig
    simp only [template, Option.toList_none, List.nil_append, List.length_cons,
      Nat.add_sub_cancel_left, List.drop_succ_cons, List.drop_zero] at hsig
    have hbooked : ctx.sigOpCosts ctx.booked = ctx.sigOpCosts s.vtx :=
      List.map_injective_iff.mpr Int.ofNat_injective hsig
    have hall : taken.filter Prod.snd = taken := by
      refine List.filter_sublist.eq_of_length_le ?_
      have hlengths := congrArg List.length hbooked
      have hvtx := congrArg List.length h.vtx
      simp only [sigOpCosts, List.length_map] at hlengths hvtx
      exact h.length_le.trans (hlengths.trans hvtx).le
    refine ⟨rfl, ?_, fun it hit => List.filter_eq_self.mp hall it hit⟩
    rw [hbooked, h.vtx, hall]
    simp [sigOpCosts]
  · rintro ⟨rfl, hbooked, hplaced⟩
    have hvtx : s.vtx = taken.map Prod.fst := by
      rw [h.vtx, List.filter_eq_self.mpr hplaced]
    have hsig : ctx.sigOpCosts s.vtx = ctx.sigOpCosts ctx.booked := by
      rw [hvtx, ← hbooked]
      simp [sigOpCosts]
    have hlength := congrArg List.length hsig
    simp only [sigOpCosts, List.length_map] at hlength
    refine ⟨by simp [template, hfees], ?_, ?_, ?_, by rw [hcosts]; rfl⟩
    · rw [hcosts]
      simp [template, sigOpCosts, hlength]
    · exact ⟨s.view, s.vTxFees, h.applied, by simp [template], by simp [template]⟩
    · rw [hcosts, hsig]
      simp [template]

end Template

section Step

variable [LinearOrder P] [LinearOrder F]

instance (s : Selection) (tx : CTransaction) : Decidable (ctx.IsFront s tx) :=
  inferInstanceAs (Decidable (_ ∧ _))

def next (ctx : MinerContext P F) (s : Selection) (tx : CTransaction) : Selection :=
  ((ctx.select s tx).map Prod.fst).getD s

theorem Selects.next {s s' : Selection} {taken : List (CTransaction × Bool)} {tx : CTransaction}
    {fPlaced : Bool} (hrun : ctx.Selects s taken s') (hfront : ctx.IsFront s' tx)
    (h : (ctx.select s' tx).map Prod.snd = some fPlaced) :
    ctx.Selects s (taken ++ [(tx, fPlaced)]) (ctx.next s' tx) := by
  rw [Option.map_eq_some_iff] at h
  obtain ⟨⟨s'', _⟩, hselect, rfl⟩ := h
  rw [MinerContext.next, hselect]
  exact hrun.step hfront hselect

end Step

-- Two transactions that spend coins of the tip; the later one in the pool has the higher priority.
def paysFrom (hash prev : UInt256) : CTransaction where
  hash := hash
  vin := [{ prevout := ⟨prev, 0⟩, scriptSig := [] }]
  vout := [⟨COIN, [0x51]⟩]

def minedCoinbase : CTransaction where
  hash := 9
  vin := [{ prevout := COutPoint.null, scriptSig := [] }]
  vout := [⟨COIN, [0x51]⟩]

def withPayment (pool : CTxMemPool) (entry : CTxMemPoolEntry) : CTxMemPool :=
  pool.addUnchecked entry.tx.hash entry

def twoPaymentsPool : CTxMemPool :=
  withPayment (withPayment {} ⟨paysFrom 3 1, 100⟩) ⟨paysFrom 4 2, 100⟩

def twoPayments : MinerContext Nat Nat where
  connect := ConnectContext.plainConnect
  args := {}
  pool := twoPaymentsPool
  view := ⟨fun hash => if hash = 1 ∨ hash = 2 then
    some (CCoins.fromTx (paysFrom hash 0) 5) else none, 0⟩
  nHeight := 300
  adjustedTime := 1000
  fIncludeWitness := true
  sigOpCost := fun hash => if hash = 3 then 80 else 4
  dPriority := BitVec.toNat
  feeRate := fun _ => 0
  allowFree := fun _ => true
  belowMinRelayFee := fun _ => true
  prioritised := fun _ => false
  legacySigOpCount := fun _ => 1

theorem twoPaymentsPool_indexed : twoPaymentsPool.SpendIndexed := by
  have hfirst : (withPayment {} ⟨paysFrom 3 1, 100⟩).SpendIndexed := by
    refine (CTxMemPool.spendIndexed_empty false).addUnchecked ?_ ?_ ?_ <;> decide +kernel
  refine hfirst.addUnchecked ?_ ?_ ?_ <;> decide +kernel

def twoPaymentsQueue : Collection := twoPayments.collect.getD {}

def twoPaymentsBlock : Selection :=
  twoPayments.next (twoPayments.next (twoPayments.start twoPaymentsQueue) (paysFrom 4 2))
    (paysFrom 3 1)

def twoPaymentsTemplate : CBlockTemplate :=
  twoPayments.template minedCoinbase none twoPaymentsQueue twoPaymentsBlock

theorem twoPayments_created : twoPayments.CreatesBlock minedCoinbase none
    [(paysFrom 4 2, true), (paysFrom 3 1, true)] twoPaymentsTemplate := by
  refine ⟨twoPaymentsQueue, twoPaymentsBlock, ?_, ?_, by decide +kernel, rfl⟩
  · have hsome : twoPayments.collect.isSome = true := by decide +kernel
    obtain ⟨c, hc⟩ := Option.isSome_iff_exists.mp hsome
    rw [twoPaymentsQueue, hc]
    rfl
  · have hfirst : twoPayments.Selects (twoPayments.start twoPaymentsQueue) [(paysFrom 4 2, true)]
        (twoPayments.next (twoPayments.start twoPaymentsQueue) (paysFrom 4 2)) :=
      (Selects.refl _).next (by decide +kernel) (by decide +kernel)
    exact hfirst.next (by decide +kernel) (by decide +kernel)

end MinerContext

end AnkerNode
