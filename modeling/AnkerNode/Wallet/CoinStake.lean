import AnkerNode.Budget.BlockChecks
import AnkerNode.Validation.CheckBlock

namespace AnkerNode

def CENT : Int := 1000000

def MAX_STANDARD_TX_COST : Nat := 400000

-- A coin of the stake set. `kernelTime` is the time at which `CheckStakeKernelHash` finds its
-- kernel; `fIndexed` says that its block is in `mapBlockIndex`.
structure StakeCoin where
  prevout : COutPoint
  txOut : CTxOut
  fIndexed : Bool := true
  kernelTime : Option Int
deriving DecidableEq, Repr

-- `stakeScript` is what `Solver` and the key store make of the script of a kernel.
structure StakeWallet where
  nBalance : Int
  nReserveBalance : Int := 0
  setStakeCoins : List StakeCoin
  nMedianTimePast : Int
  stakeScript : CScript → Option CScript
  nStakeSplitThreshold : Nat := 500
  getMinimumFee : Nat → Int
  signSignature : StakeCoin → List CTxOut → Bool

def CTransaction.getTransactionCost (tx : CTransaction) : Nat :=
  tx.getSerializeSize * (WITNESS_SCALE_FACTOR - 1) + tx.getSerializeSizeWithWitness

def PaymentNode.fillBlockPayee (node : PaymentNode) (vout : List CTxOut) (fProofOfStake : Bool)
    (rpayee : Option CScript) : List CTxOut :=
  if node.fSuperblocks && node.budget.isBudgetPaymentBlock node.budgetEnv (node.tip.2 + 1) then
    node.budget.fillBlockPayee (fun nHeight => node.subsidyEnv.getBlockValue nHeight none)
      node.tip.2 vout fProofOfStake
  else node.subsidyEnv.fillBlockPayee node.tip.2 vout fProofOfStake rpayee

namespace StakeWallet

variable (wallet : StakeWallet) (node : PaymentNode)

-- The search stops at the first kernel in time, even when its script is not supported.
def findKernel : List StakeCoin → Option (StakeCoin × CScript)
  | [] => none
  | pcoin :: rest =>
    if !pcoin.fIndexed then findKernel rest
    else
      match pcoin.kernelTime with
      | none => findKernel rest
      | some nTxNewTime =>
        if nTxNewTime ≤ wallet.nMedianTimePast then findKernel rest
        else
          (wallet.stakeScript pcoin.txOut.scriptPubKey).map fun scriptPubKeyOut =>
            (pcoin, scriptPubKeyOut)

-- The sizes are of type `uint64_t`.
def splitsStake (pcoin : StakeCoin) : Bool :=
  let nTotalSize := (pcoin.txOut.nValue + node.subsidyEnv.getBlockValue node.tip.2 none) % 2 ^ 64
  decide ((wallet.nStakeSplitThreshold * COIN) % 2 ^ 64 < nTotalSize / 2)

def stakeOutputs (pcoin : StakeCoin) (scriptPubKeyOut : CScript) : List CTxOut :=
  [⟨0, []⟩, ⟨0, scriptPubKeyOut⟩] ++
    if wallet.splitsStake node pcoin then [⟨0, scriptPubKeyOut⟩] else []

def firstHalf (nAmount : Int) : Int := (nAmount.tdiv 2).tdiv CENT * CENT

def setAmounts (nAmount : Int) (vout : List CTxOut) : List CTxOut :=
  if vout.length = 3 then
    (vout.modify 1 fun out => { out with nValue := firstHalf nAmount }).modify 2 fun out =>
      { out with nValue := nAmount - firstHalf nAmount }
  else vout.modify 1 fun out => { out with nValue := nAmount }

-- the coinstake before it is signed
def stakeTx (pcoin : StakeCoin) (vout : List CTxOut) : CTransaction where
  hash := 0
  vin := [⟨pcoin.prevout, [], 0xffffffff⟩]
  vout := vout

def feeLoop (pcoin : StakeCoin) (nCredit : Int) :
    Nat → Int → List CTxOut → Option (Int × List CTxOut)
  | 0, _, _ => none
  | fuel + 1, nMinFee, vout =>
    let vout := setAmounts (nCredit - nMinFee) vout
    let nBytes := (stakeTx pcoin vout).getTransactionCost % 2 ^ 32
    if MAX_STANDARD_TX_COST ≤ nBytes then none
    else
      let nFeeNeeded := wallet.getMinimumFee nBytes
      if nMinFee < nFeeNeeded then feeLoop pcoin nCredit fuel nFeeNeeded vout
      else some (nMinFee, vout)

def coinStakeReward : Int :=
  match node.subsidyEnv.getPayee node.tip.2 with
  | some payee => node.subsidyEnv.getBlockValue node.tip.2 (some payee)
  | none => node.subsidyEnv.getBlockValue node.tip.2 none

def addFees (nFees : Int) (vout : List CTxOut) : List CTxOut :=
  if 0 < nFees then vout.modify 1 fun out => { out with nValue := out.nValue + nFees } else vout

-- The outputs of the coinstake. The second round of the fee loop is always the last one.
def createCoinStake (nFees : Int) : Option (List CTxOut) :=
  if 0 < wallet.nBalance && wallet.nBalance ≤ wallet.nReserveBalance then none
  else
    match wallet.findKernel wallet.setStakeCoins with
    | none => none
    | some (pcoin, scriptPubKeyOut) =>
      let nCredit := pcoin.txOut.nValue
      if nCredit == 0 || wallet.nBalance - wallet.nReserveBalance < nCredit then none
      else
        match wallet.feeLoop pcoin (nCredit + coinStakeReward node) 2 0
            (wallet.stakeOutputs node pcoin scriptPubKeyOut) with
        | none => none
        | some (_, vout) =>
          let vout := node.fillBlockPayee vout true (node.subsidyEnv.getPayee node.tip.2)
          let vout := addFees nFees vout
          if wallet.signSignature pcoin vout then some vout else none

-- the outputs of the coinstake once the amounts are set
def settled (pcoin : StakeCoin) (scriptPubKeyOut : CScript) (nAmount : Int) : List CTxOut :=
  if wallet.splitsStake node pcoin then
    [⟨0, []⟩, ⟨firstHalf nAmount, scriptPubKeyOut⟩] ++
      [⟨nAmount - firstHalf nAmount, scriptPubKeyOut⟩]
  else [⟨0, []⟩] ++ [⟨nAmount, scriptPubKeyOut⟩]

def coinStakeBytes (pcoin : StakeCoin) (scriptPubKeyOut : CScript) : Nat :=
  (stakeTx pcoin (wallet.stakeOutputs node pcoin scriptPubKeyOut)).getTransactionCost % 2 ^ 32

def coinStakeFee (pcoin : StakeCoin) (scriptPubKeyOut : CScript) : Int :=
  max 0 (wallet.getMinimumFee (wallet.coinStakeBytes node pcoin scriptPubKeyOut))

variable {wallet} {node} {pcoin : StakeCoin} {scriptPubKeyOut : CScript}

theorem setAmounts_stakeOutputs (nAmount : Int) :
    setAmounts nAmount (wallet.stakeOutputs node pcoin scriptPubKeyOut) =
      wallet.settled node pcoin scriptPubKeyOut nAmount := by
  rw [stakeOutputs, settled]
  cases wallet.splitsStake node pcoin with
  | true => rfl
  | false => rfl

theorem setAmounts_settled (nAmount nOld : Int) :
    setAmounts nAmount (wallet.settled node pcoin scriptPubKeyOut nOld) =
      wallet.settled node pcoin scriptPubKeyOut nAmount := by
  rw [settled, settled]
  cases wallet.splitsStake node pcoin with
  | true => rfl
  | false => rfl

-- The size of a transaction does not depend on its amounts.
theorem getTransactionCost_settled (nAmount : Int) :
    (stakeTx pcoin (wallet.settled node pcoin scriptPubKeyOut nAmount)).getTransactionCost % 2 ^ 32 =
      wallet.coinStakeBytes node pcoin scriptPubKeyOut := by
  rw [coinStakeBytes, stakeOutputs, settled]
  cases wallet.splitsStake node pcoin with
  | true => rfl
  | false => rfl

theorem feeLoop_succ {vout : List CTxOut} (nCredit nMinFee : Int) (fuel : Nat)
    (hvout : ∀ nAmount, setAmounts nAmount vout =
      wallet.settled node pcoin scriptPubKeyOut nAmount) :
    wallet.feeLoop pcoin nCredit (fuel + 1) nMinFee vout =
      if MAX_STANDARD_TX_COST ≤ wallet.coinStakeBytes node pcoin scriptPubKeyOut then none
      else if nMinFee < wallet.getMinimumFee (wallet.coinStakeBytes node pcoin scriptPubKeyOut) then
        wallet.feeLoop pcoin nCredit fuel
          (wallet.getMinimumFee (wallet.coinStakeBytes node pcoin scriptPubKeyOut))
          (wallet.settled node pcoin scriptPubKeyOut (nCredit - nMinFee))
      else some (nMinFee, wallet.settled node pcoin scriptPubKeyOut (nCredit - nMinFee)) := by
  simp only [feeLoop, hvout, getTransactionCost_settled]

theorem feeLoop_eq (nCredit : Int) (fuel : Nat) :
    wallet.feeLoop pcoin nCredit (fuel + 2) 0 (wallet.stakeOutputs node pcoin scriptPubKeyOut) =
      if MAX_STANDARD_TX_COST ≤ wallet.coinStakeBytes node pcoin scriptPubKeyOut then none
      else some (wallet.coinStakeFee node pcoin scriptPubKeyOut,
        wallet.settled node pcoin scriptPubKeyOut
          (nCredit - wallet.coinStakeFee node pcoin scriptPubKeyOut)) := by
  rw [feeLoop_succ nCredit 0 (fuel + 1) setAmounts_stakeOutputs]
  split
  · rfl
  · rename_i hsize
    rw [coinStakeFee]
    by_cases hfee : 0 < wallet.getMinimumFee (wallet.coinStakeBytes node pcoin scriptPubKeyOut)
    · rw [if_pos hfee, feeLoop_succ _ _ fuel fun nAmount => setAmounts_settled nAmount _,
        if_neg hsize, if_neg (lt_irrefl _), max_eq_right hfee.le]
    · rw [if_neg hfee, max_eq_left (not_lt.mp hfee)]

theorem createCoinStake_eq_some {nFees : Int} {vout : List CTxOut}
    (hkernel : wallet.findKernel wallet.setStakeCoins = some (pcoin, scriptPubKeyOut))
    (h : wallet.createCoinStake node nFees = some vout) :
    vout = addFees nFees (node.fillBlockPayee
      (wallet.settled node pcoin scriptPubKeyOut (pcoin.txOut.nValue + coinStakeReward node -
        wallet.coinStakeFee node pcoin scriptPubKeyOut)) true
      (node.subsidyEnv.getPayee node.tip.2)) := by
  simp only [createCoinStake, hkernel, feeLoop_eq _ 0] at h
  split at h
  · simp at h
  · split at h
    · simp at h
    · split at h
      · simp at h
      · rename_i heq
        split at heq
        · simp at heq
        · obtain ⟨-, rfl⟩ := Prod.mk.inj (Option.some.inj heq)
          split at h
          · exact (Option.some.inj h).symm
          · simp at h

theorem coinStakeFee_nonneg : 0 ≤ wallet.coinStakeFee node pcoin scriptPubKeyOut := le_max_left ..

-- Without a vote for the next height the payee is the current masternode, and the reward is by the
-- age of the first masternode with its payee: it may not be older than the current one, up to the
-- fee.
def RewardAgrees (env : SubsidyEnv) (nHeight nFee : Int) : Prop :=
  env.nLastPOWBlock < nHeight → env.masternodePayments.getBlockPayee (nHeight + 1) = none →
    ∀ currentNode, env.getCurrentMasterNode = some currentNode →
      SubsidyEnv.masternodePayment nHeight (env.nMnActiveCount (env.find currentNode.payee)) ≤
        SubsidyEnv.masternodePayment nHeight (env.nMnActiveCount (some currentNode)) + nFee

theorem coinStakeReward_le_iff {nFee : Int} (hfee : 0 ≤ nFee) :
    coinStakeReward node ≤ node.subsidyEnv.getBlockValue node.tip.2 none + nFee ↔
      RewardAgrees node.subsidyEnv node.tip.2 nFee := by
  by_cases htip : node.subsidyEnv.nLastPOWBlock < node.tip.2
  · simp only [coinStakeReward, RewardAgrees, htip, true_imp_iff, SubsidyEnv.getPayee]
    cases hvoted : node.subsidyEnv.masternodePayments.getBlockPayee (node.tip.2 + 1) with
    | some payee =>
      simp only [SubsidyEnv.getBlockValue_of_lt htip, SubsidyEnv.getMasternodePayment,
        SubsidyEnv.paidNode_getPayee hvoted]
      exact iff_of_true (by omega) (by simp)
    | none =>
      cases hcurrent : node.subsidyEnv.getCurrentMasterNode with
      | none => exact iff_of_true (by simpa using hfee) (by simp)
      | some currentNode =>
        have hnode : node.subsidyEnv.paidNode node.tip.2 none = some currentNode := by
          simp [SubsidyEnv.paidNode, hvoted, hcurrent]
        have hpayee : node.subsidyEnv.paidNode node.tip.2 (some currentNode.payee) =
            node.subsidyEnv.find currentNode.payee := rfl
        simp only [Option.map_some, SubsidyEnv.getBlockValue_of_lt htip, true_imp_iff,
          Option.some.injEq, forall_eq', SubsidyEnv.getMasternodePayment, hnode, hpayee]
        omega
  · have hreward : coinStakeReward node = node.subsidyEnv.getBlockValue node.tip.2 none := by
      rw [coinStakeReward]
      split
      · rw [SubsidyEnv.getBlockValue_of_le (not_lt.mp htip),
          SubsidyEnv.getBlockValue_of_le (not_lt.mp htip)]
      · rfl
    rw [hreward]
    exact iff_of_true (by omega) fun h => absurd h htip

theorem firstHalf_nonneg {nAmount : Int} (h : 0 ≤ nAmount - firstHalf nAmount) :
    0 ≤ firstHalf nAmount := by
  rcases le_or_gt 0 nAmount with hpos | hneg
  · have hhalf : 0 ≤ (nAmount.tdiv 2).tdiv CENT :=
      Int.tdiv_nonneg (Int.tdiv_nonneg hpos (by decide)) (by decide)
    simp only [firstHalf, CENT] at hhalf ⊢
    omega
  · obtain ⟨n, rfl⟩ : ∃ n, nAmount = -n := ⟨-nAmount, by omega⟩
    have hhalf : n.tdiv 2 = n / 2 := Int.tdiv_eq_ediv_of_nonneg (by omega)
    have heq : firstHalf (-n) = -(n / 2 / CENT * CENT) := by
      rw [firstHalf, Int.neg_tdiv, Int.neg_tdiv, hhalf, Int.tdiv_eq_ediv_of_nonneg (by omega),
        Int.neg_mul]
    rw [heq] at h
    simp only [CENT] at h
    omega

def deduction (node : PaymentNode) : Int :=
  (node.subsidyEnv.getPayee node.tip.2).elim 0 fun payee =>
    node.subsidyEnv.getMasternodePayment node.tip.2 (some payee) +
      getColdstakingPayment node.tip.2

-- The masternode payment is not negative, and the last of the stake outputs covers what is paid
-- to the masternode and to the cold staker.
def Affordable (wallet : StakeWallet) (node : PaymentNode) (nFees : Int) (pcoin : StakeCoin)
    (scriptPubKeyOut : CScript) : Prop :=
  let nAmount := pcoin.txOut.nValue + coinStakeReward node -
    wallet.coinStakeFee node pcoin scriptPubKeyOut
  (∀ payee, node.subsidyEnv.getPayee node.tip.2 = some payee →
    -20 ≤ node.subsidyEnv.nMnActiveCount (node.subsidyEnv.find payee)) ∧
  deduction node ≤
    if wallet.splitsStake node pcoin then nAmount - firstHalf nAmount else nAmount + nFees

theorem addFees_cons {nFees : Int} (hfees : 0 ≤ nFees) (empty out : CTxOut) (vout : List CTxOut) :
    addFees nFees (empty :: out :: vout) =
      empty :: { out with nValue := out.nValue + nFees } :: vout := by
  rw [addFees]
  split
  · rfl
  · obtain rfl : nFees = 0 := by omega
    simp

theorem fillBlockPayee_unpaid {vout : List CTxOut} {rpayee : Option CScript} {nHeight : Int}
    {env : SubsidyEnv} (hpayee : rpayee.or (env.getPayee nHeight) = none) :
    env.fillBlockPayee nHeight vout true rpayee = vout := by
  simp [SubsidyEnv.fillBlockPayee, hpayee]

-- the outputs of a coinstake that is found, for the two numbers of stake outputs
theorem createCoinStake_outputs {nFees : Int} {vout : List CTxOut} (hfees : 0 ≤ nFees)
    (htip : node.subsidyEnv.nLastPOWBlock ≤ node.tip.2)
    (hbudget : (node.fSuperblocks &&
      node.budget.isBudgetPaymentBlock node.budgetEnv (node.tip.2 + 1)) = false)
    (hkernel : wallet.findKernel wallet.setStakeCoins = some (pcoin, scriptPubKeyOut))
    (h : wallet.createCoinStake node nFees = some vout) {nAmount : Int}
    (hamount : nAmount = pcoin.txOut.nValue + coinStakeReward node -
      wallet.coinStakeFee node pcoin scriptPubKeyOut) :
    vout = (if wallet.splitsStake node pcoin then
        [⟨0, []⟩, ⟨firstHalf nAmount + nFees, scriptPubKeyOut⟩,
          ⟨nAmount - firstHalf nAmount - deduction node, scriptPubKeyOut⟩]
      else [⟨0, []⟩, ⟨nAmount + nFees - deduction node, scriptPubKeyOut⟩]) ++
        (node.subsidyEnv.getPayee node.tip.2).elim [] fun payee =>
          [⟨node.subsidyEnv.getMasternodePayment node.tip.2 (some payee), payee⟩,
            node.subsidyEnv.coldStakingOutput node.tip.2] := by
  rw [createCoinStake_eq_some hkernel h, ← hamount, PaymentNode.fillBlockPayee, hbudget,
    if_neg (by simp), settled, deduction]
  cases hpayee : node.subsidyEnv.getPayee node.tip.2 with
  | none =>
    rw [fillBlockPayee_unpaid (by simp [hpayee])]
    cases wallet.splitsStake node pcoin with
    | true => simp [addFees_cons hfees]
    | false => simp [addFees_cons hfees]
  | some payee =>
    have hfill : ∀ init last, node.subsidyEnv.fillBlockPayee node.tip.2 (init ++ [last]) true
        (some payee) = init ++ [SubsidyEnv.subtract (getColdstakingPayment node.tip.2)
          (SubsidyEnv.subtract (node.subsidyEnv.getMasternodePayment node.tip.2 (some payee)) last),
          ⟨node.subsidyEnv.getMasternodePayment node.tip.2 (some payee), payee⟩,
          node.subsidyEnv.coldStakingOutput node.tip.2] :=
      fun init last => SubsidyEnv.fillBlockPayee_stake (by omega) rfl
    cases wallet.splitsStake node pcoin with
    | true =>
      simp only [if_true, Option.elim_some]
      rw [hfill]
      simp only [List.cons_append, List.nil_append, addFees_cons hfees, SubsidyEnv.subtract]
      congr 4
      omega
    | false =>
      simp only [Bool.false_eq_true, if_false, Option.elim_some]
      rw [hfill]
      simp only [List.cons_append, List.nil_append, addFees_cons hfees, SubsidyEnv.subtract]
      congr 3
      omega

theorem outputs_acceptable_iff {vout : List CTxOut} {nValue nLimit : Int} :
    ((CTxOut.mk 0 [] :: vout).head?.any CTxOut.isEmpty = true ∧
      (∀ out ∈ CTxOut.mk 0 [] :: vout, 0 ≤ out.nValue) ∧
      ((CTxOut.mk 0 [] :: vout).map CTxOut.nValue).sum - nValue ≤ nLimit) ↔
    (∀ out ∈ vout, 0 ≤ out.nValue) ∧ (vout.map CTxOut.nValue).sum ≤ nLimit + nValue := by
  have hhead : (CTxOut.mk 0 [] :: vout).head?.any CTxOut.isEmpty = true := rfl
  rw [List.forall_mem_cons, List.map_cons, List.sum_cons]
  simp only [hhead, true_and, le_refl, zero_add, tsub_le_iff_right]

theorem coinstake_acceptable_iff (wallet : StakeWallet) (node : PaymentNode) (nFees : Int)
    (pcoin : StakeCoin) (scriptPubKeyOut : CScript) (vout : List CTxOut) (hfees : 0 ≤ nFees)
    (htip : node.subsidyEnv.nLastPOWBlock ≤ node.tip.2)
    (hbudget : (node.fSuperblocks &&
      node.budget.isBudgetPaymentBlock node.budgetEnv (node.tip.2 + 1)) = false)
    (hkernel : wallet.findKernel wallet.setStakeCoins = some (pcoin, scriptPubKeyOut))
    (hstake : wallet.createCoinStake node nFees = some vout) :
    ((vout.head?.any CTxOut.isEmpty = true) ∧ (∀ out ∈ vout, 0 ≤ out.nValue) ∧
      (vout.map CTxOut.nValue).sum - pcoin.txOut.nValue ≤
        node.subsidyEnv.getBlockValue node.tip.2 none + nFees) ↔
    RewardAgrees node.subsidyEnv node.tip.2 (wallet.coinStakeFee node pcoin scriptPubKeyOut) ∧
      Affordable wallet node nFees pcoin scriptPubKeyOut := by
  have hfee : 0 ≤ wallet.coinStakeFee node pcoin scriptPubKeyOut := coinStakeFee_nonneg
  rw [← coinStakeReward_le_iff hfee, Affordable]
  obtain ⟨nAmount, hamount⟩ : ∃ nAmount, nAmount = pcoin.txOut.nValue + coinStakeReward node -
      wallet.coinStakeFee node pcoin scriptPubKeyOut := ⟨_, rfl⟩
  have hhalf : 0 ≤ nAmount - firstHalf nAmount → 0 ≤ firstHalf nAmount := firstHalf_nonneg
  have hcold := getColdstakingPayment_nonneg node.tip.2
  rw [createCoinStake_outputs hfees htip hbudget hkernel hstake hamount, deduction]
  simp only [← hamount]
  cases hpayee : node.subsidyEnv.getPayee node.tip.2 with
  | none =>
    cases wallet.splitsStake node pcoin with
    | true =>
      simp only [if_true, Option.elim_none, List.cons_append, List.nil_append]
      rw [outputs_acceptable_iff]
      simp only [List.forall_mem_cons, List.not_mem_nil, List.map_cons, List.map_nil,
        List.sum_cons, List.sum_nil, reduceCtorEq, false_imp_iff, implies_true, true_and, and_true]
      omega
    | false =>
      simp only [Bool.false_eq_true, if_false, Option.elim_none, List.cons_append, List.nil_append]
      rw [outputs_acceptable_iff]
      simp only [List.forall_mem_cons, List.not_mem_nil, List.map_cons, List.map_nil,
        List.sum_cons, List.sum_nil, reduceCtorEq, false_imp_iff, implies_true, true_and, and_true]
      omega
  | some payee =>
    have hpaid : 0 ≤ node.subsidyEnv.getMasternodePayment node.tip.2 (some payee) ↔
        -20 ≤ node.subsidyEnv.nMnActiveCount (node.subsidyEnv.find payee) :=
      SubsidyEnv.masternodePayment_nonneg_iff _ _
    cases wallet.splitsStake node pcoin with
    | true =>
      simp only [if_true, Option.elim_some, List.cons_append, List.nil_append]
      rw [outputs_acceptable_iff]
      simp only [List.forall_mem_cons, List.not_mem_nil, List.map_cons, List.map_nil,
        List.sum_cons, List.sum_nil, SubsidyEnv.coldStakingOutput, Option.some.injEq, forall_eq',
        ← hpaid, false_imp_iff, implies_true, and_true]
      omega
    | false =>
      simp only [Bool.false_eq_true, if_false, Option.elim_some, List.cons_append, List.nil_append]
      rw [outputs_acceptable_iff]
      simp only [List.forall_mem_cons, List.not_mem_nil, List.map_cons, List.map_nil,
        List.sum_cons, List.sum_nil, SubsidyEnv.coldStakingOutput, Option.some.injEq, forall_eq',
        ← hpaid, false_imp_iff, implies_true, and_true]
      omega

-- The current masternode has just started; its payee may be shared with an old one.
def stakerNode (payee : CScript) : PaymentNode where
  tip := (5, 1000)
  budgetEnv := CBudgetManager.countEnv 0
  subsidyEnv :=
    { nTime := 40000000
      vMasternodes := [SubsidyEnv.record [0x51] 1000000, SubsidyEnv.record payee 40000000]
      isEnabled := fun _ => true
      calculateScore := fun mn => mn.sigTime }
  budget := {}

def staker (nValue : Int) (nStakeSplitThreshold : Nat) : StakeWallet where
  nBalance := nValue
  setStakeCoins := [⟨⟨9, 0⟩, ⟨nValue, [0x53]⟩, true, some 100⟩]
  nMedianTimePast := 50
  stakeScript := some
  nStakeSplitThreshold := nStakeSplitThreshold
  getMinimumFee := fun _ => 10000
  signSignature := fun _ _ => true

theorem coinstake_acceptable_own_payee :
    ((staker (2000 * COIN) 500).createCoinStake (stakerNode [0x52]) 7).any (fun vout =>
      decide ((vout.map CTxOut.nValue).sum - 2000 * COIN ≤
        (stakerNode [0x52]).subsidyEnv.getBlockValue 1000 none + 7)) = true := by
  cases hstake : (staker (2000 * COIN) 500).createCoinStake (stakerNode [0x52]) 7 with
  | none =>
    have hsome :
        ((staker (2000 * COIN) 500).createCoinStake (stakerNode [0x52]) 7).isSome = true := by
      decide +kernel
    simp [hstake] at hsome
  | some vout =>
    rw [Option.any_some, decide_eq_true_eq]
    refine ((coinstake_acceptable_iff (staker (2000 * COIN) 500) (stakerNode [0x52]) 7
      ⟨⟨9, 0⟩, ⟨2000 * COIN, [0x53]⟩, true, some 100⟩ [0x53] vout (by decide) (by decide)
      (by decide +kernel) (by decide +kernel) hstake).mpr ⟨?_, ?_, by decide +kernel⟩).2.2
    · intro _ _ currentNode hcurrent
      obtain rfl : SubsidyEnv.record [0x52] 40000000 = currentNode := Option.some.inj
        ((by decide +kernel : (stakerNode [0x52]).subsidyEnv.getCurrentMasterNode =
          some (SubsidyEnv.record [0x52] 40000000)).symm.trans hcurrent)
      decide +kernel
    · intro payee hpayee
      obtain rfl : [0x52] = payee := Option.some.inj
        ((by decide +kernel : (stakerNode [0x52]).subsidyEnv.getPayee 1000 = some [0x52]).symm.trans
          hpayee)
      decide +kernel

theorem coinstake_overpays :
    ((staker (2000 * COIN) 500).createCoinStake (stakerNode [0x51]) 0).any (fun vout =>
        decide ((stakerNode [0x51]).subsidyEnv.getBlockValue 1000 none <
          (vout.map CTxOut.nValue).sum - 2000 * COIN)) = true ∧
      ((staker (2 * COIN) 1).createCoinStake (stakerNode [0x52]) 0).any (fun vout =>
        vout.any fun out => decide (out.nValue < 0)) = true := by
  refine ⟨by decide +kernel, by decide +kernel⟩

end StakeWallet

end AnkerNode
