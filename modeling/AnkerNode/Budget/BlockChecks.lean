import AnkerNode.Budget.Payments
import AnkerNode.Masternode.BlockPayment
import AnkerNode.Validation.ConnectBlock

namespace AnkerNode

-- A node with a tip, and the sporks that decide what it asks of a block.
structure PaymentNode where
  tip : UInt256 × Int
  blockHeight : UInt256 → Option Int := fun _ => none
  budgetEnv : BudgetEnv
  subsidyEnv : SubsidyEnv
  budget : CBudgetManager
  fSuperblocks : Bool := true
  fBudgetEnforcement : Bool := true
  fMasternodeEnforcement : Bool := true

namespace PaymentNode

variable (node : PaymentNode)

-- `nMinted > nExpectedValue + 0.25 * GetMasternodePayment(nHeight)`, over the integers
def exceedsWithDelta (nHeight nMinted nExpectedValue : Int) : Bool :=
  decide (4 * nExpectedValue + node.subsidyEnv.getMasternodePayment nHeight none < 4 * nMinted)

def paymentContext : PaymentContext where
  tip := some node.tip
  blockHeight := node.blockHeight
  isSynced := node.budgetEnv.fSynced
  superblocksActive := node.fSuperblocks
  budgetPaymentCycleBlocks := node.budgetEnv.getBudgetPaymentCycleBlocks
  isBudgetPaymentBlock := node.budget.isBudgetPaymentBlock node.budgetEnv
  exceedsWithDelta := node.exceedsWithDelta

def isBlockValueValid (block : CBlock) (nExpectedValue nMinted : Int) : Bool :=
  node.paymentContext.isBlockValueValid block nExpectedValue nMinted

def txNew (block : CBlock) (nBlockHeight : Int) : List CTxOut :=
  let tx := if node.subsidyEnv.nLastPOWBlock < nBlockHeight then block.vtx[1]? else block.vtx[0]?
  tx.elim [] CTransaction.vout

def checkMasternodePayee (vout : List CTxOut) (nBlockHeight : Int) : Bool :=
  node.subsidyEnv.isTransactionValid vout nBlockHeight || !node.fMasternodeEnforcement

-- A payment that is neither valid nor missing leaves the block to the masternodes.
def verdict (vout : List CTxOut) (nBlockHeight : Int) : TrxValidationStatus → Bool
  | .Valid => true
  | .Invalid => !node.fBudgetEnforcement && node.checkMasternodePayee vout nBlockHeight
  | _ => node.checkMasternodePayee vout nBlockHeight

def isBlockPayeeValid (hist : PaymentHistory) (block : CBlock) (nBlockHeight : Int) :
    PaymentHistory × Bool :=
  if !node.budgetEnv.fSynced then (hist, true)
  else
    let vout := node.txNew block nBlockHeight
    if node.fSuperblocks && node.budget.isBudgetPaymentBlock node.budgetEnv nBlockHeight then
      let result := node.budget.isTransactionValid node.budgetEnv hist vout nBlockHeight
      (result.1, node.verdict vout nBlockHeight result.2)
    else (hist, node.checkMasternodePayee vout nBlockHeight)

-- Whether the payees are looked up among the budgets.
def checksBudget (nBlockHeight : Int) : Bool :=
  node.budgetEnv.fSynced && node.fSuperblocks &&
    node.budget.isBudgetPaymentBlock node.budgetEnv nBlockHeight

def refusal (vout : List CTxOut) (nBlockHeight : Int) : TrxValidationStatus :=
  CBudgetManager.refusal (node.budget.nCountThreshold node.budgetEnv nBlockHeight) vout nBlockHeight
    .Invalid false node.budget.finalizedBudgets

-- The verdict on a block whose budget payment is not accepted: it does not depend on the history.
def fallback (vout : List CTxOut) (nBlockHeight : Int) : Bool :=
  node.verdict vout nBlockHeight (node.refusal vout nBlockHeight)

variable {node} {hist : PaymentHistory} {block : CBlock} {nBlockHeight : Int}

theorem isBlockPayeeValid_of_not_checksBudget (h : node.checksBudget nBlockHeight = false) :
    node.isBlockPayeeValid hist block nBlockHeight =
      (hist, !node.budgetEnv.fSynced ||
        node.checkMasternodePayee (node.txNew block nBlockHeight) nBlockHeight) := by
  rw [isBlockPayeeValid]
  cases hsynced : node.budgetEnv.fSynced with
  | false => rfl
  | true =>
    simp only [checksBudget, hsynced, Bool.true_and] at h
    simp [h]

theorem isBlockPayeeValid_of_checksBudget (h : node.checksBudget nBlockHeight = true) :
    node.isBlockPayeeValid hist block nBlockHeight =
      ((WindowLedger.walk nBlockHeight hist (node.budget.claimsFor node.budgetEnv nBlockHeight
          (node.txNew block nBlockHeight))).1,
        (WindowLedger.walk nBlockHeight hist (node.budget.claimsFor node.budgetEnv nBlockHeight
          (node.txNew block nBlockHeight))).2 ||
            node.fallback (node.txNew block nBlockHeight) nBlockHeight) := by
  simp only [checksBudget, Bool.and_eq_true] at h
  obtain ⟨⟨hsynced, hspork⟩, hblock⟩ := h
  simp only [isBlockPayeeValid, hsynced, hspork, hblock, Bool.not_true, Bool.false_eq_true,
    Bool.and_self, if_false, if_true, CBudgetManager.isTransactionValid_eq hblock,
    CBudgetManager.claimsFor]
  split
  · rename_i hwalk
    rw [hwalk]
    rfl
  · rename_i hwalk
    rw [Bool.not_eq_true] at hwalk
    rw [hwalk]
    rfl

theorem payee_check_repeatable_iff (node : PaymentNode) (block : CBlock) (nBlockHeight : Int) :
    (∀ hist, (node.isBlockPayeeValid (node.isBlockPayeeValid hist block nBlockHeight).1 block
        nBlockHeight).2 = (node.isBlockPayeeValid hist block nBlockHeight).2) ↔
      node.checksBudget nBlockHeight = false ∨
        node.fallback (node.txNew block nBlockHeight) nBlockHeight = true ∨
        ¬ WindowLedger.Payable (node.budget.claimsFor node.budgetEnv nBlockHeight
          (node.txNew block nBlockHeight)) := by
  cases hbudget : node.checksBudget nBlockHeight with
  | false => simp [isBlockPayeeValid_of_not_checksBudget hbudget]
  | true =>
    simp only [isBlockPayeeValid_of_checksBudget hbudget, Bool.true_eq_false, false_or]
    cases node.fallback (node.txNew block nBlockHeight) nBlockHeight with
    | true => simp
    | false =>
      simp only [Bool.or_false, Bool.false_eq_true, false_or]
      exact WindowLedger.walk_repeatable_iff CBudgetManager.claims_window

def paidNode : PaymentNode where
  tip := (5, 86399)
  budgetEnv := CBudgetManager.countEnv 10
  subsidyEnv :=
    { nTime := 0
      vMasternodes := []
      isEnabled := fun _ => true
      calculateScore := fun _ => 1
      masternodePayments :=
        { mapMasternodeBlocks := fun h =>
            if h = 86400 then some ⟨86400, [⟨[0x52], 6⟩]⟩ else none } }
  budget := CBudgetManager.votedManager

def budgetBlock (payments : List CTxOut) : CBlock where
  hash := 6
  hashPrevBlock := 5
  vtx := [⟨1, 1, [], [⟨0, []⟩], 0, []⟩, ⟨2, 1, [], ⟨0, []⟩ :: payments, 0, []⟩]

theorem payee_check_refuses_again :
    (paidNode.isBlockPayeeValid (fun _ => none) (budgetBlock [⟨10 * COIN, [0x51]⟩]) 86400).2 =
        true ∧
      (paidNode.isBlockPayeeValid
        (paidNode.isBlockPayeeValid (fun _ => none) (budgetBlock [⟨10 * COIN, [0x51]⟩]) 86400).1
        (budgetBlock [⟨10 * COIN, [0x51]⟩]) 86400).2 = false := by
  refine ⟨by decide +kernel, by decide +kernel⟩

-- the height of a block on top of another one
def heightAfter (node : PaymentNode) (hashPrevBlock : UInt256) : Int :=
  if node.tip.1 = hashPrevBlock then node.tip.2 + 1
  else
    match node.blockHeight hashPrevBlock with
    | some nHeight => nHeight + 1
    | none => 0

-- the largest amount that a finalized budget pays at a height
def largestPayment (node : PaymentNode) (nBlockHeight : Int) : Int :=
  (((node.budget.covering nBlockHeight).filterMap fun b =>
    (b.getPayeeAndAmount nBlockHeight).map Prod.snd).max?).getD 0

theorem isBlockValueValid_superblocks {ctx : PaymentContext} {tip : UInt256 × Int}
    (htip : ctx.tip = some tip) (hsynced : ctx.isSynced = true)
    (hspork : ctx.superblocksActive = true) {nExpectedValue nMinted : Int} :
    ctx.isBlockValueValid block nExpectedValue nMinted = true ↔
      ctx.isBudgetPaymentBlock (ctx.nextHeight tip block) = true ∨
        ctx.exceedsWithDelta (ctx.nextHeight tip block) nMinted nExpectedValue = false := by
  simp only [PaymentContext.isBlockValueValid, htip, hsynced, hspork, Bool.not_true,
    Bool.false_eq_true, if_false]
  cases ctx.isBudgetPaymentBlock (ctx.nextHeight tip block) with
  | true => simp
  | false => simp

theorem isBlockValueValid_iff (hsynced : node.budgetEnv.fSynced = true)
    (hspork : node.fSuperblocks = true) {nExpectedValue nMinted : Int} :
    node.isBlockValueValid block nExpectedValue nMinted = true ↔
      node.budget.isBudgetPaymentBlock node.budgetEnv (node.heightAfter block.hashPrevBlock) = true ∨
        4 * nMinted ≤ 4 * nExpectedValue +
          node.subsidyEnv.getMasternodePayment (node.heightAfter block.hashPrevBlock) none := by
  have hexceeds : ∀ nHeight, node.exceedsWithDelta nHeight nMinted nExpectedValue = false ↔
      4 * nMinted ≤ 4 * nExpectedValue + node.subsidyEnv.getMasternodePayment nHeight none := by
    intro nHeight
    simp [exceedsWithDelta]
  rw [← hexceeds]
  exact isBlockValueValid_superblocks (rfl : node.paymentContext.tip = some node.tip) hsynced hspork

-- outputs that pay every voted payee of a height
def payVoted (node : PaymentNode) (nBlockHeight : Int) : List CTxOut :=
  (node.subsidyEnv.masternodePayments.mapMasternodeBlocks nBlockHeight).elim [] fun payees =>
    payees.vecPayments.map fun p =>
      ⟨node.subsidyEnv.getMasternodePayment payees.nBlockHeight none, p.scriptPubKey⟩

theorem checkMasternodePayee_payVoted {vout : List CTxOut}
    (h : ∀ out ∈ node.payVoted nBlockHeight, out ∈ vout) :
    node.checkMasternodePayee vout nBlockHeight = true := by
  rw [checkMasternodePayee, Bool.or_eq_true]
  left
  rw [SubsidyEnv.isTransactionValid]
  cases hpayees : node.subsidyEnv.masternodePayments.mapMasternodeBlocks nBlockHeight with
  | none => rfl
  | some payees =>
    simp only [payVoted, hpayees, Option.elim_some, List.forall_mem_map] at h
    rw [SubsidyEnv.blockPayees_isTransactionValid_iff]
    rintro ⟨p, hp, hvotes⟩
    exact ⟨p, hp, hvotes, SubsidyEnv.isPaid_iff.mpr ⟨_, h p hp, rfl, le_rfl⟩⟩

def blockWith (hashPrevBlock : UInt256) (vout : List CTxOut) : CBlock where
  hash := 0
  hashPrevBlock := hashPrevBlock
  vtx := [⟨1, 1, [], vout, 0, []⟩, ⟨2, 1, [], vout, 0, []⟩]

theorem txNew_blockWith (hashPrevBlock : UInt256) (vout : List CTxOut) :
    node.txNew (blockWith hashPrevBlock vout) nBlockHeight = vout := by
  rw [txNew]
  split <;> rfl

theorem refusal_eq (node : PaymentNode) (vout : List CTxOut) (nBlockHeight : Int) :
    node.refusal vout nBlockHeight =
      if node.budget.finalizedBudgets.any fun b =>
          decide (node.budget.nCountThreshold node.budgetEnv nBlockHeight < b.getVoteCount) then
        (CBudgetManager.eligible (node.budget.nCountThreshold node.budgetEnv nBlockHeight)
          nBlockHeight node.budget.finalizedBudgets).getLast?.elim .Invalid fun b =>
            if (b.claim vout nBlockHeight).isSome then .DoublePayment else .Invalid
      else .VoteThreshold := by
  rw [refusal, CBudgetManager.refusal_eq, Bool.or_false]

theorem isBudgetPaymentBlock_of_checksBudget (h : node.checksBudget nBlockHeight = true) :
    node.budget.isBudgetPaymentBlock node.budgetEnv nBlockHeight = true := by
  simp only [checksBudget, Bool.and_eq_true] at h
  exact h.2

theorem isBlockPayeeValid_payVoted {vout : List CTxOut} {hashPrevBlock : UInt256}
    (hblock : node.checksBudget nBlockHeight = true)
    (hvoted : ∀ out ∈ node.payVoted nBlockHeight, out ∈ vout)
    (hrefusal : node.refusal vout nBlockHeight ≠ .Invalid) :
    (node.isBlockPayeeValid hist (blockWith hashPrevBlock vout) nBlockHeight).2 = true := by
  have hpayee : node.checkMasternodePayee vout nBlockHeight = true :=
    checkMasternodePayee_payVoted hvoted
  have hfallback : node.fallback vout nBlockHeight = true := by
    rw [fallback]
    cases hstatus : node.refusal vout nBlockHeight with
    | Valid => rfl
    | Invalid => exact absurd hstatus hrefusal
    | DoublePayment => exact hpayee
    | VoteThreshold => exact hpayee
  rw [isBlockPayeeValid_of_checksBudget hblock, txNew_blockWith, hfallback, Bool.or_true]

-- A passing block, whatever it mints, on a height where the budgets are checked.
theorem exists_passing_block (hist : PaymentHistory) (hashPrevBlock : UInt256)
    (hblock : node.checksBudget nBlockHeight = true)
    (hsome : 10 ≤ node.budgetEnv.nCountEnabled ∨
      ∀ b ∈ node.budget.finalizedBudgets,
        b.getVoteCount ≤ node.budget.nCountThreshold node.budgetEnv nBlockHeight) :
    ∃ vout, (node.isBlockPayeeValid hist (blockWith hashPrevBlock vout) nBlockHeight).2 = true := by
  rcases hsome with hten | hnone
  · obtain ⟨b, payment, -, hb, hcount, -⟩ :=
      CBudgetManager.exists_highestBudget (isBudgetPaymentBlock_of_checksBudget hblock)
    rw [CBudgetManager.mem_covering] at hb
    have hthreshold : node.budget.nCountThreshold node.budgetEnv nBlockHeight < b.getVoteCount := by
      rw [CBudgetManager.nCountThreshold, hcount]
      omega
    have hmem := CBudgetManager.mem_eligible.mpr ⟨hb.1, hthreshold, hb.2⟩
    obtain ⟨last, hlast⟩ := List.getLast?_isSome.mpr (List.ne_nil_of_mem hmem) |>
      Option.isSome_iff_exists.mp
    have hcovers := (CBudgetManager.mem_eligible.mp (List.mem_of_getLast? hlast)).2.2
    obtain ⟨q, hq⟩ := CFinalizedBudget.exists_payment hcovers
    have hclaim : (last.claim (node.payVoted nBlockHeight ++ [⟨q.nAmount, q.payee⟩])
        nBlockHeight).isSome = true := by
      rw [CFinalizedBudget.claim_of_payment hq]
      · rfl
      · rw [List.countP_append]
        simp [CTxBudgetPayment.isPaidBy]
    have hrefusal : node.refusal (node.payVoted nBlockHeight ++ [⟨q.nAmount, q.payee⟩])
        nBlockHeight = .DoublePayment := by
      rw [refusal_eq, if_pos, hlast, Option.elim_some, if_pos hclaim]
      rw [List.any_eq_true]
      exact ⟨b, hb.1, by simpa using hthreshold⟩
    exact ⟨node.payVoted nBlockHeight ++ [⟨q.nAmount, q.payee⟩],
      isBlockPayeeValid_payVoted hblock (fun out hout => List.mem_append_left _ hout)
        (by simp [hrefusal])⟩
  · have hrefusal : node.refusal (node.payVoted nBlockHeight) nBlockHeight = .VoteThreshold := by
      rw [refusal_eq, if_neg]
      simpa using hnone
    exact ⟨_, isBlockPayeeValid_payVoted hblock (fun out hout => hout) (by simp [hrefusal])⟩

theorem isBlockPayeeValid_none_eligible (hblock : node.checksBudget nBlockHeight = true)
    (henforced : node.fBudgetEnforcement = true) (hfew : node.budgetEnv.nCountEnabled < 10)
    (habove : ∃ b ∈ node.budget.finalizedBudgets,
      node.budget.nCountThreshold node.budgetEnv nBlockHeight < b.getVoteCount) :
    (node.isBlockPayeeValid hist block nBlockHeight).2 = false := by
  have hpayment := isBudgetPaymentBlock_of_checksBudget hblock
  have hempty : CBudgetManager.eligible (node.budget.nCountThreshold node.budgetEnv nBlockHeight)
      nBlockHeight node.budget.finalizedBudgets = [] := by
    rw [List.eq_nil_iff_forall_not_mem]
    intro b hb
    exact absurd (CBudgetManager.ten_le_of_eligible hb hpayment) (by omega)
  have hrefusal : ∀ vout, node.refusal vout nBlockHeight = .Invalid := by
    intro vout
    rw [refusal_eq, hempty, if_pos]
    · rfl
    · simpa using habove
  rw [isBlockPayeeValid_of_checksBudget hblock, CBudgetManager.claimsFor, CBudgetManager.claims,
    hempty, fallback, hrefusal]
  simp [verdict, henforced, WindowLedger.walk]

-- The bound on what is minted, over all blocks on top of one that pass both checks.
def MintedBounded (node : PaymentNode) (hist : PaymentHistory) (hashPrevBlock : UInt256) : Prop :=
  ∀ block nExpectedValue nMinted, block.hashPrevBlock = hashPrevBlock →
    (node.isBlockPayeeValid hist block (node.heightAfter hashPrevBlock)).2 = true →
    node.isBlockValueValid block nExpectedValue nMinted = true →
    4 * (nMinted - nExpectedValue - node.largestPayment (node.heightAfter hashPrevBlock)) ≤
      node.subsidyEnv.getMasternodePayment (node.heightAfter hashPrevBlock) none

theorem mintedBounded_off_budget {hashPrevBlock : UInt256}
    (hsynced : node.budgetEnv.fSynced = true) (hsuperblocks : node.fSuperblocks = true)
    (hpayment : node.budget.isBudgetPaymentBlock node.budgetEnv
      (node.heightAfter hashPrevBlock) = false) :
    node.MintedBounded hist hashPrevBlock ↔
      0 ≤ node.largestPayment (node.heightAfter hashPrevBlock) := by
  have hchecks : node.checksBudget (node.heightAfter hashPrevBlock) = false := by
    simp [checksBudget, hpayment]
  simp only [MintedBounded, isBlockPayeeValid_of_not_checksBudget hchecks, hsynced, Bool.not_true,
    Bool.false_or, isBlockValueValid_iff hsynced hsuperblocks]
  constructor
  · intro hall
    have hbound := hall (blockWith hashPrevBlock
        (node.payVoted (node.heightAfter hashPrevBlock))) 0
      (node.subsidyEnv.getMasternodePayment (node.heightAfter hashPrevBlock) none / 4) rfl
      (by rw [txNew_blockWith]; exact checkMasternodePayee_payVoted fun _ h => h)
      (.inr (by dsimp only [blockWith]; omega))
    omega
  · intro hlargest block nExpectedValue nMinted hprev _ hvalue
    rw [hprev, hpayment] at hvalue
    simp only [Bool.false_eq_true, false_or] at hvalue
    omega

theorem mintedBounded_on_budget {hashPrevBlock : UInt256}
    (hsynced : node.budgetEnv.fSynced = true) (hsuperblocks : node.fSuperblocks = true)
    (henforced : node.fBudgetEnforcement = true)
    (hpayment : node.budget.isBudgetPaymentBlock node.budgetEnv
      (node.heightAfter hashPrevBlock) = true) :
    node.MintedBounded hist hashPrevBlock ↔
      node.budgetEnv.nCountEnabled < 10 ∧ ∃ b ∈ node.budget.finalizedBudgets,
        node.budget.nCountThreshold node.budgetEnv (node.heightAfter hashPrevBlock) <
          b.getVoteCount := by
  have hchecks : node.checksBudget (node.heightAfter hashPrevBlock) = true := by
    simp [checksBudget, hsynced, hsuperblocks, hpayment]
  constructor
  · intro hall
    by_contra hcond
    have hsome : 10 ≤ node.budgetEnv.nCountEnabled ∨ ∀ b ∈ node.budget.finalizedBudgets,
        b.getVoteCount ≤
          node.budget.nCountThreshold node.budgetEnv (node.heightAfter hashPrevBlock) := by
      by_contra hno
      push Not at hno
      exact hcond hno
    obtain ⟨vout, hpasses⟩ := exists_passing_block hist hashPrevBlock hchecks hsome
    have hbound := hall (blockWith hashPrevBlock vout) 0
      (node.largestPayment (node.heightAfter hashPrevBlock) +
        (node.subsidyEnv.getMasternodePayment (node.heightAfter hashPrevBlock) none).natAbs + 1)
      rfl hpasses
      ((isBlockValueValid_iff hsynced hsuperblocks).mpr (.inl hpayment))
    omega
  · rintro ⟨hfew, habove⟩ block nExpectedValue nMinted _ hpayee _
    rw [isBlockPayeeValid_none_eligible hchecks henforced hfew habove] at hpayee
    simp at hpayee

theorem superblock_minted_bounded_iff (node : PaymentNode) (hist : PaymentHistory)
    (hashPrevBlock : UInt256) (hsynced : node.budgetEnv.fSynced = true)
    (hsuperblocks : node.fSuperblocks = true) (henforced : node.fBudgetEnforcement = true) :
    (∀ block nExpectedValue nMinted, block.hashPrevBlock = hashPrevBlock →
      (node.isBlockPayeeValid hist block (node.heightAfter hashPrevBlock)).2 = true →
      node.isBlockValueValid block nExpectedValue nMinted = true →
      4 * (nMinted - nExpectedValue - node.largestPayment (node.heightAfter hashPrevBlock)) ≤
        node.subsidyEnv.getMasternodePayment (node.heightAfter hashPrevBlock) none) ↔
    (node.budget.isBudgetPaymentBlock node.budgetEnv (node.heightAfter hashPrevBlock) = false ∧
        0 ≤ node.largestPayment (node.heightAfter hashPrevBlock)) ∨
      (node.budget.isBudgetPaymentBlock node.budgetEnv (node.heightAfter hashPrevBlock) = true ∧
        node.budgetEnv.nCountEnabled < 10 ∧
        ∃ b ∈ node.budget.finalizedBudgets,
          node.budget.nCountThreshold node.budgetEnv (node.heightAfter hashPrevBlock) <
            b.getVoteCount) := by
  cases hpayment : node.budget.isBudgetPaymentBlock node.budgetEnv
    (node.heightAfter hashPrevBlock) with
  | false =>
    simp only [Bool.false_eq_true, false_and, or_false, true_and]
    exact mintedBounded_off_budget hsynced hsuperblocks hpayment
  | true =>
    simp only [Bool.true_eq_false, false_and, false_or, true_and]
    exact mintedBounded_on_budget hsynced hsuperblocks henforced hpayment

theorem superblock_minted_bounded_quiet :
    4 * (500 * COIN - 500 * COIN - { paidNode with budget := {} }.largestPayment 86400) ≤
      { paidNode with budget := {} }.subsidyEnv.getMasternodePayment 86400 none :=
  (superblock_minted_bounded_iff { paidNode with budget := {} } (fun _ => none) 5 rfl rfl rfl).mpr
    (.inl ⟨by decide +kernel, by decide +kernel⟩) (budgetBlock [⟨400 * COIN, [0x52]⟩]) (500 * COIN)
    (500 * COIN) rfl (by decide +kernel) (by decide +kernel)

theorem superblock_overmints :
    (paidNode.isBlockPayeeValid (fun _ => none)
        (budgetBlock [⟨10 * COIN, [0x51]⟩, ⟨1000000 * COIN, [0x53]⟩]) 86400).2 = true ∧
      paidNode.isBlockValueValid (budgetBlock [⟨10 * COIN, [0x51]⟩, ⟨1000000 * COIN, [0x53]⟩])
        (paidNode.subsidyEnv.getBlockValue 86399 none) (1000010 * COIN) = true ∧
      paidNode.subsidyEnv.getMasternodePayment 86400 none <
        4 * (1000010 * COIN - paidNode.subsidyEnv.getBlockValue 86399 none -
          paidNode.largestPayment 86400) := by
  refine ⟨by decide +kernel, by decide +kernel, by decide +kernel⟩

end PaymentNode

end AnkerNode
