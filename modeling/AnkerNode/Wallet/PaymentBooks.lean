import AnkerNode.Validation.WitnessCommitment
import AnkerNode.Wallet.CreateTransaction

namespace AnkerNode

namespace PayRequest

variable {req : PayRequest} {wallet : PayWallet}

section Change

variable {script : CScript} {nPass : Nat} {nChange nFeeRet : Int} {vout vout' : List CTxOut}

theorem sumWhere_addToFirst (h : addToFirst script nChange vout = some vout')
    (hrange : ∀ txout ∈ vout, toCAmount (txout.nValue + nChange) = txout.nValue + nChange)
    (p : CScript → Bool) :
    sumWhere p vout' = sumWhere p vout + if p script then nChange else 0 := by
  induction vout generalizing vout' with
  | nil => cases h
  | cons txout vout ih =>
    rw [List.forall_mem_cons] at hrange
    rw [addToFirst] at h
    split at h
    · rename_i hscript
      cases h
      rw [sumWhere_cons, sumWhere_cons, hrange.1, hscript]
      dsimp only
      split <;> omega
    · obtain ⟨rest, hrest, rfl⟩ := Option.map_eq_some_iff.mp h
      rw [sumWhere_cons, sumWhere_cons, ih hrest hrange.2, add_assoc]

theorem nonneg_addToFirst (h : addToFirst script nChange vout = some vout')
    (hrange : ∀ txout ∈ vout, toCAmount (txout.nValue + nChange) = txout.nValue + nChange)
    (hchange : 0 ≤ nChange) (hnonneg : ∀ txout ∈ vout, 0 ≤ txout.nValue) :
    ∀ txout ∈ vout', 0 ≤ txout.nValue := by
  induction vout generalizing vout' with
  | nil => cases h
  | cons txout vout ih =>
    rw [List.forall_mem_cons] at hrange hnonneg
    rw [addToFirst] at h
    split at h
    · cases h
      rw [List.forall_mem_cons, hrange.1]
      exact ⟨add_nonneg hnonneg.1 hchange, hnonneg.2⟩
    · obtain ⟨rest, hrest, rfl⟩ := Option.map_eq_some_iff.mp h
      exact List.forall_mem_cons.mpr ⟨hnonneg.1, ih hrest hrange.2 hnonneg.2⟩

theorem scripts_addToFirst (h : addToFirst script nChange vout = some vout') :
    vout'.map CTxOut.scriptPubKey = vout.map CTxOut.scriptPubKey := by
  induction vout generalizing vout' with
  | nil => cases h
  | cons txout vout ih =>
    rw [addToFirst] at h
    split at h
    · cases h
      rfl
    · obtain ⟨rest, hrest, rfl⟩ := Option.map_eq_some_iff.mp h
      rw [List.map_cons, List.map_cons, ih hrest]

theorem insertChange_perm (wallet : PayWallet) (newTxOut : CTxOut) (vout : List CTxOut)
    (nPass : Nat) :
    (vout.insertIdx (wallet.getRandInt nPass (vout.length + 1)) newTxOut).Perm (newTxOut :: vout) :=
  List.perm_insertIdx newTxOut vout
    (Nat.le_of_lt_succ (wallet.getRandInt_lt nPass (vout.length + 1) (Nat.succ_pos _)))

-- The change either goes to the fee or to an output with its script.
structure Settled (req : PayRequest) (wallet : PayWallet) (nPass : Nat) (nChange nFeeRet : Int)
    (vout : List CTxOut) (settled : Int × List CTxOut) : Prop where
  kept : ∃ nKept, 0 ≤ nKept ∧ settled.1 + nKept = nFeeRet + nChange ∧
    ∀ p, sumWhere p settled.2 =
      sumWhere p vout + if p (req.scriptChange wallet nPass) then nKept else 0
  nonneg : ∀ txout ∈ settled.2, 0 ≤ txout.nValue

theorem settled_fee (hnonneg : ∀ txout ∈ vout, 0 ≤ txout.nValue) :
    Settled req wallet nPass nChange nFeeRet vout (nFeeRet + nChange, vout) :=
  ⟨⟨0, le_rfl, add_zero _, fun p => by simp⟩, hnonneg⟩

theorem settled_insertChange (hchange : 0 ≤ nChange)
    (hroom : toCAmount (nFeeRet + nChange) = nFeeRet + nChange)
    (hnonneg : ∀ txout ∈ vout, 0 ≤ txout.nValue) :
    Settled req wallet nPass nChange nFeeRet vout
      (req.insertChange wallet nPass nChange nFeeRet vout) := by
  rw [insertChange]
  split
  · rw [hroom]
    exact settled_fee hnonneg
  · have hperm := insertChange_perm wallet ⟨nChange, req.scriptChange wallet nPass⟩ vout
      nPass
    refine ⟨⟨nChange, hchange, rfl, fun p => ?_⟩, fun txout hmem => ?_⟩
    · rw [sumWhere_perm hperm, sumWhere_cons, add_comm]
    · rcases List.mem_cons.mp (hperm.mem_iff.mp hmem) with rfl | hmem
      · exact hchange
      · exact hnonneg txout hmem

theorem settled_settleChange (hchange : 0 ≤ nChange)
    (hroom : toCAmount (nFeeRet + nChange) = nFeeRet + nChange)
    (hrange : ∀ txout ∈ vout, toCAmount (txout.nValue + nChange) = txout.nValue + nChange)
    (hnonneg : ∀ txout ∈ vout, 0 ≤ txout.nValue) :
    Settled req wallet nPass nChange nFeeRet vout
      (req.settleChange wallet nPass nChange nFeeRet vout) := by
  rw [settleChange]
  split
  · rw [hroom]
    exact settled_fee hnonneg
  · split
    · split
      · rename_i hmerged
        obtain ⟨dest, -, hmerged⟩ := Option.bind_eq_some_iff.mp hmerged
        exact ⟨⟨nChange, hchange, rfl, sumWhere_addToFirst hmerged hrange⟩,
          nonneg_addToFirst hmerged hrange hchange hnonneg⟩
      · exact settled_insertChange hchange hroom hnonneg
    · obtain rfl : nChange = 0 := by omega
      have hfee : Settled req wallet nPass 0 nFeeRet vout (nFeeRet + 0, vout) := settled_fee hnonneg
      rwa [add_zero] at hfee

theorem le_fee_settleChange (hchange : 0 ≤ nChange)
    (hroom : toCAmount (nFeeRet + nChange) = nFeeRet + nChange) :
    nFeeRet ≤ (req.settleChange wallet nPass nChange nFeeRet vout).1 := by
  rw [settleChange]
  split
  · rw [hroom]
    exact le_add_of_nonneg_right hchange
  · split
    · split
      · exact le_rfl
      · rw [insertChange]
        split
        · rw [hroom]
          exact le_add_of_nonneg_right hchange
        · exact le_rfl
    · exact le_rfl

theorem scripts_settleChange (req : PayRequest) (wallet : PayWallet) (nPass : Nat)
    (nChange nFeeRet : Int) (vout : List CTxOut) :
    ∃ extra, ((req.settleChange wallet nPass nChange nFeeRet vout).2.map CTxOut.scriptPubKey).Perm
      (extra ++ vout.map CTxOut.scriptPubKey) := by
  rw [settleChange]
  split
  · exact ⟨[], .refl _⟩
  · split
    · split
      · rename_i hmerged
        obtain ⟨dest, -, hmerged⟩ := Option.bind_eq_some_iff.mp hmerged
        exact ⟨[], .of_eq (scripts_addToFirst hmerged)⟩
      · rw [insertChange]
        split
        · exact ⟨[], .refl _⟩
        · exact ⟨[req.scriptChange wallet nPass], (insertChange_perm wallet _ vout nPass).map _⟩
    · exact ⟨[], .refl _⟩

end Change

section Signing

variable {tx tx' txNewConst : CTransaction} {nIn : Nat} {setCoins : List WalletCoin}

theorem vout_updateTransaction (tx : CTransaction) (nIn : Nat) (data : SignatureData) :
    (updateTransaction tx nIn data).vout = tx.vout := by
  rw [updateTransaction]
  dsimp only
  split <;> rfl

theorem prevouts_updateTransaction (tx : CTransaction) (nIn : Nat) (data : SignatureData) :
    (updateTransaction tx nIn data).vin.map CTxIn.prevout = tx.vin.map CTxIn.prevout := by
  have hmodify : ∀ (vin : List CTxIn) (n : Nat),
      (vin.modify n fun txin => { txin with scriptSig := data.scriptSig }).map CTxIn.prevout =
        vin.map CTxIn.prevout := by
    intro vin
    induction vin with
    | nil => simp
    | cons txin vin ih =>
      intro n
      cases n with
      | zero => rfl
      | succ n => rw [List.modify_succ_cons, List.map_cons, ih, List.map_cons]
  rw [updateTransaction]
  dsimp only
  split
  · exact hmodify tx.vin nIn
  · exact hmodify tx.vin nIn

theorem signFrom_spec (h : signFrom wallet txNewConst nIn setCoins tx = some tx') :
    tx'.vout = tx.vout ∧ tx'.vin.map CTxIn.prevout = tx.vin.map CTxIn.prevout := by
  induction setCoins generalizing nIn tx with
  | nil =>
    cases h
    exact ⟨rfl, rfl⟩
  | cons coin setCoins ih =>
    rw [signFrom] at h
    split at h
    · cases h
    · rename_i sigdata _
      obtain ⟨hvout, hprevouts⟩ := ih h
      exact ⟨hvout.trans (vout_updateTransaction tx nIn sigdata),
        hprevouts.trans (prevouts_updateTransaction tx nIn sigdata)⟩

end Signing

-- What a pass comes to: an error, or a signed transaction whose fee is checked.
theorem pass_cases (req : PayRequest) (wallet : PayWallet) (nValue : Int) (s : PayState) :
    (∃ strFailReason, req.pass wallet nValue s = .inr (.error strFailReason)) ∨
    ∃ vout setCoins txNew settled, req.payeeOutputs wallet = .ok vout ∧
      wallet.selectCoins s.nPass (toCAmount (nValue + s.nFeeRet)) = some setCoins ∧
      settled = req.settleChange wallet s.nPass
        (toCAmount ((setCoins.map WalletCoin.nValue).sum - nValue - s.nFeeRet)) s.nFeeRet vout ∧
      txNew.vout = settled.2 ∧
      txNew.vin.map CTxIn.prevout = setCoins.map WalletCoin.outpoint ∧
      req.pass wallet nValue s = req.checkFee wallet s setCoins txNew settled.1 := by
  rw [pass]
  split
  · exact .inl ⟨_, rfl⟩
  · split
    · exact .inl ⟨_, rfl⟩
    · dsimp only
      split
      · exact .inl ⟨_, rfl⟩
      · rename_i vout hvout _ setCoins hselect _ txNew hsigned
        obtain ⟨hout, hin⟩ := signFrom_spec hsigned
        refine .inr ⟨vout, setCoins, txNew, _, hvout, hselect, rfl, hout, ?_, rfl⟩
        rw [hin, unsignedTransaction, List.map_map]
        rfl

section Fee

variable {s s' : PayState} {setCoins : List WalletCoin} {txNew : CTransaction} {nFeeRet : Int}
  {created : CreatedTransaction}

theorem checkFee_eq_ok (h : req.checkFee wallet s setCoins txNew nFeeRet = .inr (.ok created)) :
    created = ⟨txNew, setCoins, nFeeRet⟩ ∧ txNew.getTransactionCost < MAX_STANDARD_TX_COST ∧
      ((wallet.fSendFreeTransactions = true ∧
          txNew.getVirtualTransactionSize ≤ MAX_FREE_TRANSACTION_CREATE_SIZE ∧
          wallet.completesAsFree txNew setCoins = true) ∨
        req.nFeeNeeded wallet txNew.getVirtualTransactionSize ≤ nFeeRet) := by
  rw [checkFee] at h
  split at h
  · cases h
  · rename_i hcost
    dsimp only at h
    split at h
    · rename_i hfree
      cases h
      rw [Bool.and_eq_true, Bool.and_eq_true, decide_eq_true_eq] at hfree
      exact ⟨rfl, not_le.mp hcost, .inl ⟨hfree.1.1, hfree.1.2, hfree.2⟩⟩
    · split at h
      · cases h
      · split at h
        · cases h
          exact ⟨rfl, not_le.mp hcost, .inr ‹_›⟩
        · cases h

theorem checkFee_eq_inl (h : req.checkFee wallet s setCoins txNew nFeeRet = .inl s') :
    s'.nFeeRet = req.nFeeNeeded wallet txNew.getVirtualTransactionSize ∧ nFeeRet < s'.nFeeRet := by
  rw [checkFee] at h
  split at h
  · cases h
  · dsimp only at h
    split at h
    · cases h
    · split at h
      · cases h
      · split at h
        · cases h
        · cases h
          exact ⟨rfl, not_le.mp ‹_›⟩

theorem nFeeNeeded_le (nBytes : Nat) :
    req.nFeeNeeded wallet nBytes ≤ max req.startFee wallet.maxTxFee := by
  have hstart : req.nFeePayAsked ≤ req.startFee := by
    rw [startFee]
    split <;> omega
  have hminimum : wallet.getMinimumFee nBytes ≤ wallet.maxTxFee := min_le_right _ _
  exact max_le_max hstart hminimum

end Fee

theorem startFee_nonneg (req : PayRequest) : 0 ≤ req.startFee := by
  rw [startFee]
  split <;> omega

-- The fee that a pass starts with.
structure FeeInRange (req : PayRequest) (wallet : PayWallet) (s : PayState) : Prop where
  start : req.startFee ≤ s.nFeeRet
  limit : s.nFeeRet ≤ max req.startFee wallet.maxTxFee

section Room

variable {nValue : Int} {s s' : PayState} {setCoins : List WalletCoin}
  (hroom : PayRoom req wallet) (htotal : req.totalAmount = some nValue)

include hroom htotal

theorem change_of_room (hs : FeeInRange req wallet s)
    (hselect : wallet.selectCoins s.nPass (toCAmount (nValue + s.nFeeRet)) = some setCoins) :
    ∃ nChange, 0 ≤ nChange ∧
      (setCoins.map WalletCoin.nValue).sum = nValue + s.nFeeRet + nChange ∧
      toCAmount ((setCoins.map WalletCoin.nValue).sum - nValue - s.nFeeRet) = nChange ∧
      nValue + s.nFeeRet + nChange < 2 ^ 63 := by
  obtain ⟨-, hpos, hlt⟩ := totalAmount_eq_some htotal
  have hfee := hroom.fee nValue htotal
  have hstart := req.startFee_nonneg
  have hlow := hs.start
  have hlimit := hs.limit
  have hcoins := hroom.coins _ _ _ hselect
  obtain ⟨-, henough⟩ := wallet.selects _ _ _ hselect
  rw [toCAmount_of_range (by omega) (by omega)] at henough
  refine ⟨(setCoins.map WalletCoin.nValue).sum - nValue - s.nFeeRet, by omega, by omega, ?_, by omega⟩
  exact toCAmount_of_range (by omega) (by omega)

theorem pass_inl (hs : FeeInRange req wallet s) (h : req.pass wallet nValue s = .inl s') :
    FeeInRange req wallet s' ∧ s.nFeeRet < s'.nFeeRet := by
  obtain ⟨-, hpos, -⟩ := totalAmount_eq_some htotal
  rcases req.pass_cases wallet nValue s with
    ⟨_, herror⟩ | ⟨vout, setCoins, txNew, settled, -, hselect, rfl, -, -, hpass⟩
  · rw [herror] at h
    cases h
  · obtain ⟨nChange, hchange, -, heq, hlt⟩ := change_of_room hroom htotal hs hselect
    rw [hpass, heq] at h
    obtain ⟨hfee, hmore⟩ := checkFee_eq_inl h
    have hstart := req.startFee_nonneg
    have hlow := hs.start
    have hkept : s.nFeeRet ≤ (req.settleChange wallet s.nPass nChange s.nFeeRet vout).1 :=
      le_fee_settleChange hchange (toCAmount_of_range (by omega) (by omega))
    refine ⟨⟨by omega, ?_⟩, hkept.trans_lt hmore⟩
    rw [hfee]
    exact nFeeNeeded_le _

theorem exists_ends : ∃ r, WhileLoop.Ends (req.pass wallet nValue) { nFeeRet := req.startFee } r := by
  have hlimit : req.startFee ≤ max req.startFee wallet.maxTxFee := le_max_left _ _
  apply WhileLoop.exists_ends_of_measure (P := FeeInRange req wallet)
    (fun s => (max req.startFee wallet.maxTxFee - s.nFeeRet).toNat)
  · intro s s' hs hpass
    obtain ⟨hs', hmore⟩ := pass_inl hroom htotal hs hpass
    have hlimit' := hs'.limit
    exact ⟨hs', by omega⟩
  · exact ⟨le_rfl, hlimit⟩

theorem booksKept_of_pass (hsplit : 1 ≤ req.nSplitBlock)
    (hamounts : req.paysWhole = true ∨ ∀ s ∈ req.vecSend, 0 ≤ s.2) (hs : FeeInRange req wallet s)
    {created : CreatedTransaction} (h : req.pass wallet nValue s = .inr (.ok created)) :
    BooksKept req wallet created := by
  obtain ⟨hsum, hpos, -⟩ := totalAmount_eq_some htotal
  rcases req.pass_cases wallet nValue s with
    ⟨_, herror⟩ | ⟨vout, setCoins, txNew, settled, hvout, hselect, hsettled, hout, hin, hpass⟩
  · rw [herror] at h
    cases h
  · obtain ⟨nChange, hchange, hcoins, heq, hlt⟩ := change_of_room hroom htotal hs hselect
    rw [hpass] at h
    obtain ⟨rfl, -, hfee⟩ := checkFee_eq_ok h
    have hstart := req.startFee_nonneg
    have hlow := hs.start
    have hnonneg := payeeOutputs_nonneg hsplit hamounts hvout
    have hpayees := sumWhere_payeeOutputs hsplit hvout
    have htotal' : (vout.map CTxOut.nValue).sum = nValue := by
      have hall := hpayees fun _ => true
      rw [sumWhere_true, wantedWhere, List.filter_true] at hall
      rw [hall, hsum]
    have hrange : ∀ txout ∈ vout, toCAmount (txout.nValue + nChange) = txout.nValue + nChange := by
      intro txout hmem
      have hle : txout.nValue ≤ (vout.map CTxOut.nValue).sum :=
        List.single_le_sum (by simpa using hnonneg) _ (List.mem_map_of_mem hmem)
      have htxout := hnonneg txout hmem
      exact toCAmount_of_range (by omega) (by omega)
    rw [heq] at hsettled
    have hbooks : Settled req wallet s.nPass nChange s.nFeeRet vout settled := hsettled ▸
      settled_settleChange hchange (toCAmount_of_range (by omega) (by omega)) hrange hnonneg
    obtain ⟨nKept, hkept, hfees, hwhere⟩ := hbooks.kept
    refine ⟨hin, (wallet.selects _ _ _ hselect).1, ?_, ?_, ⟨s.nPass, nKept, hkept, ?_⟩, hfee⟩
    · have hall := hwhere fun _ => true
      rw [sumWhere_true, sumWhere_true, htotal', if_pos rfl, ← hout] at hall
      dsimp only
      omega
    · rw [hout]
      exact hbooks.nonneg
    · intro script
      have hscript := hwhere fun k => k == script
      rw [hpayees, ← hout] at hscript
      refine hscript.trans ?_
      by_cases heq : script = req.scriptChange wallet s.nPass
      · simp [heq, wanted, wantedWhere]
      · have hne : (req.scriptChange wallet s.nPass == script) = false := by
          simpa using Ne.symm heq
        rw [hne, if_neg heq]
        rfl

end Room

end PayRequest

-- one coin of just the amount
def exactCoin (nValue : Int) : WalletCoin :=
  (⟨{ hash := 0, vin := [], vout := [⟨nValue, []⟩] }, false⟩, 0)

def exactCoins (nTargetValue : Int) : List WalletCoin :=
  if nTargetValue ≤ 0 then [] else [exactCoin nTargetValue]

theorem le_sum_exactCoins (nTargetValue : Int) :
    nTargetValue ≤ ((exactCoins nTargetValue).map WalletCoin.nValue).sum := by
  rw [exactCoins]
  split
  · assumption
  · exact (add_zero nTargetValue).ge

theorem sum_exactCoins {nTargetValue : Int} (h : 0 ≤ nTargetValue) :
    ((exactCoins nTargetValue).map WalletCoin.nValue).sum = nTargetValue := by
  rw [exactCoins]
  split
  · exact le_antisymm h ‹_›
  · exact add_zero nTargetValue

-- A wallet that has every amount at hand and pays no fee of its own.
def exactWallet : PayWallet where
  selectCoins _ nTargetValue := if nTargetValue < 2 ^ 63 then some (exactCoins nTargetValue) else none
  selects _ nTargetValue setCoins h := by
    split at h
    · cases h
      refine ⟨?_, le_sum_exactCoins nTargetValue⟩
      rw [exactCoins]
      split
      · exact List.nodup_nil
      · exact List.nodup_singleton _
    · cases h
  reservedKeyID _ := []
  getRandInt _ _ := 0
  getRandInt_lt _ _ h := h
  produceSignature _ _ _ := some ⟨[], []⟩
  fSendFreeTransactions := false
  completesAsFree _ _ := false
  fPayAtLeastCustomFee := true
  payTxFee := ⟨0⟩
  estimateFee := ⟨0⟩
  minTxFee := ⟨0⟩
  minRelayTxFee := ⟨0⟩
  maxTxFee := 0

namespace PayRequest

variable {req : PayRequest} {nValue : Int}

-- The least that a transaction with the split outputs comes to.
def leastTransaction (req : PayRequest) (nValue : Int) : CTransaction :=
  unsignedTransaction (exactCoins (nValue + req.startFee)) req.splitOutputs []

theorem sum_outBytes_le {vout vout' : List CTxOut} {extra : List CScript}
    (h : (vout'.map CTxOut.scriptPubKey).Perm (extra ++ vout.map CTxOut.scriptPubKey)) :
    vout.length ≤ vout'.length ∧
      (vout.map CTxOut.getSerializeSize).sum ≤ (vout'.map CTxOut.getSerializeSize).sum := by
  let outBytes (script : CScript) : Nat := 8 + (getSizeOfCompactSize script.length + script.length)
  have hbytes : ∀ vout : List CTxOut,
      vout.map CTxOut.getSerializeSize = (vout.map CTxOut.scriptPubKey).map outBytes := by
    intro vout
    rw [List.map_map]
    rfl
  have hlength := h.length_eq
  have hsum := (h.map outBytes).sum_eq
  rw [List.map_append, List.sum_append] at hsum
  rw [List.length_append, List.length_map, List.length_map] at hlength
  rw [hbytes vout, hbytes vout', hsum]
  omega

theorem length_le_sum_inBytes (vin : List CTxIn) :
    41 * vin.length ≤ (vin.map CTxIn.getSerializeSize).sum := by
  induction vin with
  | nil => exact le_rfl
  | cons txin vin ih =>
    have hcompact : 1 ≤ getSizeOfCompactSize txin.scriptSig.length := by
      rw [getSizeOfCompactSize]
      split_ifs <;> omega
    rw [List.length_cons, List.map_cons, List.sum_cons, CTxIn.getSerializeSize]
    omega

theorem four_mul_size_le_cost (tx : CTransaction) : 4 * tx.getSerializeSize ≤ tx.getTransactionCost := by
  have hwitness : tx.getSerializeSize ≤ tx.getSerializeSizeWithWitness := Nat.le_add_right _ _
  rw [CTransaction.getTransactionCost, WITNESS_SCALE_FACTOR]
  omega

theorem cost_leastTransaction (req : PayRequest) (nValue : Int) :
    (req.leastTransaction nValue).getTransactionCost =
      4 * (req.leastTransaction nValue).getSerializeSize := by
  have hwitness : (req.leastTransaction nValue).getSerializeSizeWithWitness =
      (req.leastTransaction nValue).getSerializeSize := rfl
  rw [CTransaction.getTransactionCost, WITNESS_SCALE_FACTOR, hwitness]
  omega

theorem cost_leastTransaction_le {tx : CTransaction} {extra : List CScript}
    (hvin : 0 < nValue + req.startFee → tx.vin ≠ [])
    (hvout : (tx.vout.map CTxOut.scriptPubKey).Perm
      (extra ++ req.splitOutputs.map CTxOut.scriptPubKey)) :
    (req.leastTransaction nValue).getTransactionCost ≤ tx.getTransactionCost := by
  obtain ⟨houtputs, hout⟩ := sum_outBytes_le hvout
  have hinputs : (req.leastTransaction nValue).vin.length ≤ tx.vin.length ∧
      ((req.leastTransaction nValue).vin.map CTxIn.getSerializeSize).sum =
        41 * (req.leastTransaction nValue).vin.length := by
    rw [leastTransaction, unsignedTransaction, exactCoins]
    split
    · exact ⟨Nat.zero_le _, rfl⟩
    · exact ⟨List.length_pos_iff.mpr (hvin (not_le.mp ‹_›)), rfl⟩
  have hin := length_le_sum_inBytes tx.vin
  have hinCompact := getSizeOfCompactSize_mono hinputs.1
  have houtCompact := getSizeOfCompactSize_mono houtputs
  rw [cost_leastTransaction]
  refine le_trans (Nat.mul_le_mul_left 4 ?_) (four_mul_size_le_cost tx)
  rw [CTransaction.getSerializeSize, CTransaction.getSerializeSize, hinputs.2]
  change 4 + (_ + _) + (getSizeOfCompactSize req.splitOutputs.length +
    (req.splitOutputs.map CTxOut.getSerializeSize).sum) + 4 ≤ _
  omega

-- No amount is negative, or the dust check finds those that are, or there is no transaction: the
-- running sum gives the amounts away, or the outputs alone are too large.
def Accountable (req : PayRequest) : Prop :=
  ∀ nValue, req.totalAmount = some nValue → req.paysWhole = true ∨ (∀ s ∈ req.vecSend, 0 ≤ s.2) ∨
    MAX_STANDARD_TX_COST ≤ (req.leastTransaction nValue).getTransactionCost

theorem payeeOutputs_of_split {wallet : PayWallet} (hwhole : ¬req.paysWhole = true) :
    req.payeeOutputs wallet = .ok req.splitOutputs := if_neg hwhole

theorem accountable_of_cost {wallet : PayWallet} (hroom : PayRoom req wallet)
    (htotal : req.totalAmount = some nValue) (hwhole : ¬req.paysWhole = true) {s : PayState}
    (hs : FeeInRange req wallet s) {created : CreatedTransaction}
    (h : req.pass wallet nValue s = .inr (.ok created)) :
    (req.leastTransaction nValue).getTransactionCost < MAX_STANDARD_TX_COST := by
  rcases req.pass_cases wallet nValue s with
    ⟨_, herror⟩ | ⟨vout, setCoins, txNew, settled, hvout, hselect, rfl, hout, hin, hpass⟩
  · rw [herror] at h
    cases h
  · obtain ⟨nChange, hchange, hcoins, -, -⟩ := change_of_room hroom htotal hs hselect
    rw [hpass] at h
    obtain ⟨-, hcost, -⟩ := checkFee_eq_ok h
    rw [payeeOutputs_of_split hwhole] at hvout
    cases hvout
    obtain ⟨extra, hscripts⟩ := scripts_settleChange req wallet s.nPass
      (toCAmount ((setCoins.map WalletCoin.nValue).sum - nValue - s.nFeeRet)) s.nFeeRet
      req.splitOutputs
    rw [← hout] at hscripts
    refine lt_of_le_of_lt (cost_leastTransaction_le (fun hpos hempty => ?_) hscripts) hcost
    rw [hempty] at hin
    have hnone : setCoins = [] := List.map_eq_nil_iff.mp hin.symm
    have hlow := hs.start
    rw [hnone, List.map_nil, List.sum_nil] at hcoins
    omega

theorem keepsBooks_of_accountable {wallet : PayWallet} (hsplit : 1 ≤ req.nSplitBlock)
    (h : req.Accountable) (hroom : PayRoom req wallet) : KeepsBooks req wallet := by
  cases htotal : req.totalAmount with
  | none =>
    have hreturns : ∀ fuel, req.createTransaction wallet fuel =
        some (.error "Transaction amounts must be positive") := by
      intro fuel
      rw [createTransaction, htotal]
    refine ⟨⟨_, 0, hreturns 0⟩, fun created ⟨fuel, hfuel⟩ => ?_⟩
    rw [hreturns] at hfuel
    cases hfuel
  | some nValue =>
    have hreturns : ∀ fuel, req.createTransaction wallet fuel =
        WhileLoop.run (req.pass wallet nValue) fuel { nFeeRet := req.startFee } := by
      intro fuel
      rw [createTransaction, htotal]
    obtain ⟨r, fuel, hfuel⟩ := exists_ends hroom htotal
    refine ⟨⟨r, fuel, (hreturns fuel).trans hfuel⟩, fun created ⟨fuel, hfuel⟩ => ?_⟩
    rw [hreturns] at hfuel
    obtain ⟨s, hs, hpass⟩ := WhileLoop.exists_last_of_ends (P := FeeInRange req wallet)
      (fun s s' hs hnext => (pass_inl hroom htotal hs hnext).1) ⟨le_rfl, le_max_left _ _⟩
      ⟨fuel, hfuel⟩
    by_cases hwhole : req.paysWhole = true
    · exact booksKept_of_pass hroom htotal hsplit (.inl hwhole) hs hpass
    · rcases (h nValue htotal).resolve_left hwhole with hamounts | hcost
      · exact booksKept_of_pass hroom htotal hsplit (.inr hamounts) hs hpass
      · exact absurd (accountable_of_cost hroom htotal hwhole hs hpass) (not_lt.mpr hcost)

section Exact

variable (htotal : req.totalAmount = some nValue) (hlt : nValue + req.startFee < 2 ^ 63)

include htotal hlt

theorem payRoom_exactWallet : PayRoom req exactWallet := by
  constructor
  · intro nPass nTargetValue setCoins hselect
    rw [exactWallet] at hselect
    dsimp only at hselect
    split at hselect
    · cases hselect
      rcases le_or_gt 0 nTargetValue with hle | hneg
      · rw [sum_exactCoins hle]
        assumption
      · rw [exactCoins, if_pos hneg.le]
        decide
    · cases hselect
  · intro nValue' htotal'
    rw [htotal] at htotal'
    cases htotal'
    rw [exactWallet, max_eq_left req.startFee_nonneg]
    exact hlt

-- With funds of just the amount there is no change to hide a negative output.
theorem pass_exactWallet (hwhole : ¬req.paysWhole = true)
    (hcost : (req.leastTransaction nValue).getTransactionCost < MAX_STANDARD_TX_COST) :
    req.pass exactWallet nValue { nFeeRet := req.startFee } =
      .inr (.ok ⟨req.leastTransaction nValue, exactCoins (nValue + req.startFee), req.startFee⟩) := by
  obtain ⟨-, hpos, -⟩ := totalAmount_eq_some htotal
  have hstart := req.startFee_nonneg
  have htarget : toCAmount (nValue + req.startFee) = nValue + req.startFee :=
    toCAmount_of_range (by omega) hlt
  have hselect : exactWallet.selectCoins 0 (nValue + req.startFee) =
      some (exactCoins (nValue + req.startFee)) := if_pos hlt
  have hchange : toCAmount (nValue + req.startFee - nValue - req.startFee) = 0 := by
    rw [toCAmount_of_range (by omega) (by omega)]
    omega
  have hsettled : req.settleChange exactWallet 0 0 req.startFee req.splitOutputs =
      (req.startFee, req.splitOutputs) := by
    rw [settleChange]
    split
    · rw [add_zero, toCAmount_of_range (by omega) (by omega)]
    · rfl
  have hsigned : signFrom exactWallet
      (unsignedTransaction (exactCoins (nValue + req.startFee)) req.splitOutputs []) 0
      (exactCoins (nValue + req.startFee))
      (unsignedTransaction (exactCoins (nValue + req.startFee)) req.splitOutputs []) =
        some (req.leastTransaction nValue) := by
    rw [leastTransaction, exactCoins]
    split
    · rfl
    · rfl
  have hfee : req.nFeeNeeded exactWallet (req.leastTransaction nValue).getVirtualTransactionSize =
      req.startFee := by
    have hzero : exactWallet.getMinimumFee (req.leastTransaction nValue).getVirtualTransactionSize =
        0 := by
      simp [PayWallet.getMinimumFee, exactWallet, CFeeRate.getFee]
    rw [nFeeNeeded, hzero, startFee]
    split <;> omega
  have hrelay : exactWallet.minRelayTxFee.getFee
      (req.leastTransaction nValue).getVirtualTransactionSize = 0 := by
    simp [exactWallet, CFeeRate.getFee]
  rw [pass, payeeOutputs_of_split hwhole]
  dsimp only
  rw [htarget, hselect]
  dsimp only
  rw [sum_exactCoins (by omega), hchange, hsettled]
  dsimp only
  rw [hsigned]
  dsimp only
  rw [checkFee, if_neg (not_le.mpr hcost)]
  dsimp only
  rw [hfee, hrelay, if_neg (by simp [exactWallet]), if_neg (not_lt.mpr hstart), if_pos le_rfl]

end Exact

theorem accountable_of_keepsBooks (hsplit : 1 ≤ req.nSplitBlock)
    (hlt : ∀ nValue, req.totalAmount = some nValue → nValue + req.startFee < 2 ^ 63)
    (h : ∀ wallet, PayRoom req wallet → KeepsBooks req wallet) : req.Accountable := by
  intro nValue htotal
  by_contra hnot
  rw [not_or, not_or, not_le] at hnot
  obtain ⟨hwhole, hamounts, hcost⟩ := hnot
  have hlt := hlt nValue htotal
  have hpass := pass_exactWallet htotal hlt hwhole hcost
  have hreturns : req.Returns exactWallet (.ok
      ⟨req.leastTransaction nValue, exactCoins (nValue + req.startFee), req.startFee⟩) := by
    refine ⟨1, ?_⟩
    rw [createTransaction, htotal]
    dsimp only
    rw [WhileLoop.run, hpass]
  have hbooks := (h exactWallet (payRoom_exactWallet htotal hlt)).kept _ hreturns
  apply hamounts
  intro s hs
  by_contra hneg
  rw [not_le] at hneg
  obtain ⟨nAmount, hmem, hnegative⟩ :=
    exists_neg_splitAmount ⟨(req.amounts s hs).1, hneg⟩ hsplit
  refine absurd (hbooks.nonneg ⟨nAmount, s.1⟩ ?_) (not_le.mpr hnegative)
  exact List.mem_flatMap.mpr ⟨s, hs, List.mem_map.mpr ⟨nAmount, hmem, rfl⟩⟩

end PayRequest

-- one coin in two parts, and the rest to another payee
def splitRequest : PayRequest where
  vecSend := [([0x51], 5), ([0x52], 0)]
  coinControl := some { fSplitBlock := true, nSplitBlock := 2 }
  amounts := by decide

-- The sum is positive wherever it is looked at.
def mixedRequest : PayRequest where
  vecSend := [([0x51], 5), ([0x52], -3)]
  amounts := by decide

end AnkerNode
