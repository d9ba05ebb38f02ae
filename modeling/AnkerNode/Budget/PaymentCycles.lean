import AnkerNode.Budget.Suggestion
import AnkerNode.Masternode.Rank

namespace AnkerNode

-- the constructor of `CBudgetProposalBroadcast`
def budgetProposalBroadcast (env : BudgetEnv) (strProposalName strURL : String)
    (nPaymentCount : Int) (address : CScript) (nAmount nBlockStart : Int) (nFeeTXHash : UInt256) :
    CBudgetProposal where
  strProposalName := strProposalName
  strURL := strURL
  nBlockStart := nBlockStart
  nBlockEnd :=
    let nCycleStart := nBlockStart - nBlockStart.tmod env.getBudgetPaymentCycleBlocks
    int32Wrap (nCycleStart + (env.getBudgetPaymentCycleBlocks + 1) * nPaymentCount)
  address := address
  nAmount := nAmount
  nFeeTXHash := nFeeTXHash

-- the part of the first check of `GetBudget` that compares the periods
def CBudgetProposal.inPeriod (env : BudgetEnv) (p : CBudgetProposal) (nBlockStart : Int) : Bool :=
  decide (p.nBlockStart ≤ nBlockStart) &&
    decide (nBlockStart + env.getBudgetPaymentCycleBlocks - 1 ≤ p.nBlockEnd)

theorem BudgetEnv.passesCheck1_eq (env : BudgetEnv) (marks : ProposalMarks) (nBlockStart : Int)
    (c : CountedProposal) :
    env.passesCheck1 marks nBlockStart c =
      ((marks c.key).fValid && c.proposal.inPeriod env nBlockStart &&
        decide ((env.nCountEnabled / 10 : Nat) < c.proposal.getYeas - c.proposal.getNays) &&
        env.isEstablished (marks c.key)) := by
  simp only [passesCheck1, CBudgetProposal.inPeriod, Bool.and_assoc]

theorem int32Wrap_of_range {n : Int} (hnonneg : 0 ≤ n) (hmax : n < 2 ^ 31) : int32Wrap n = n := by
  rw [int32Wrap]
  exact Int.bmod_eq_of_le (by omega) (by omega)

-- the starts of the payment cycles of a proposal
def paymentCycles (cycle nBlockStart : Int) (n : Nat) : List Int :=
  (List.range n).map fun k : Nat => nBlockStart + cycle * k

theorem mem_paymentCycles_iff {cycle nBlockStart start : Int} {n : Nat} (hcycle : 0 < cycle)
    (hcount : n + 1 < cycle) (hstart : cycle ∣ nBlockStart) (haligned : cycle ∣ start) :
    start ∈ paymentCycles cycle nBlockStart n ↔
      nBlockStart ≤ start ∧ start + cycle - 1 ≤ nBlockStart + (cycle + 1) * n := by
  obtain ⟨d, hd⟩ := Int.dvd_sub haligned hstart
  have hmem : start ∈ paymentCycles cycle nBlockStart n ↔ ∃ k : Nat, k < n ∧ d = k := by
    simp only [paymentCycles, List.mem_map, List.mem_range]
    constructor
    · rintro ⟨k, hk, heq⟩
      refine ⟨k, hk, Int.eq_of_mul_eq_mul_left hcycle.ne' ?_⟩
      omega
    · rintro ⟨k, hk, rfl⟩
      exact ⟨k, hk, by omega⟩
  have hbounds : (nBlockStart ≤ start ∧ start + cycle - 1 ≤ nBlockStart + (cycle + 1) * n) ↔
      0 ≤ cycle * d ∧ cycle * d + cycle - 1 ≤ cycle * n + n := by
    rw [Int.add_mul, Int.one_mul]
    omega
  rw [hmem, hbounds]
  constructor
  · rintro ⟨k, hk, rfl⟩
    have hle : cycle * (k + 1) ≤ cycle * n := Int.mul_le_mul_of_nonneg_left (by omega) hcycle.le
    rw [Int.mul_add, Int.mul_one] at hle
    exact ⟨Int.mul_nonneg hcycle.le (by omega), by omega⟩
  · rintro ⟨hlow, hhigh⟩
    have hd0 : 0 ≤ d := by
      by_contra hneg
      have hle : cycle * d ≤ cycle * (-1) := Int.mul_le_mul_of_nonneg_left (by omega) hcycle.le
      omega
    have hdn : d < n := by
      by_contra hge
      have hle : cycle * n ≤ cycle * d := Int.mul_le_mul_of_nonneg_left (by omega) hcycle.le
      omega
    exact ⟨d.toNat, by omega, by omega⟩

section Broadcast

variable {env : BudgetEnv} {strProposalName strURL : String} {address : CScript}
  {nAmount nBlockStart : Int} {nFeeTXHash : UInt256} {n : Nat}

theorem BudgetEnv.cycle_pos (env : BudgetEnv) : 0 < env.getBudgetPaymentCycleBlocks := by
  rw [getBudgetPaymentCycleBlocks]
  split <;> decide

theorem nBlockEnd_budgetProposalBroadcast (hnonneg : 0 ≤ nBlockStart)
    (haligned : env.getBudgetPaymentCycleBlocks ∣ nBlockStart)
    (hrange : nBlockStart + (env.getBudgetPaymentCycleBlocks + 1) * n < 2 ^ 31) :
    (budgetProposalBroadcast env strProposalName strURL n address nAmount nBlockStart
      nFeeTXHash).nBlockEnd = nBlockStart + (env.getBudgetPaymentCycleBlocks + 1) * n := by
  have hpos := env.cycle_pos
  have hprod : 0 ≤ (env.getBudgetPaymentCycleBlocks + 1) * (n : Int) :=
    Int.mul_nonneg (by omega) (by omega)
  simp only [budgetProposalBroadcast, Int.tmod_eq_zero_of_dvd haligned, Int.sub_zero]
  exact int32Wrap_of_range (by omega) hrange

theorem getTotalPaymentCount_budgetProposalBroadcast
    (hcount : n + 1 < env.getBudgetPaymentCycleBlocks) (hnonneg : 0 ≤ nBlockStart)
    (haligned : env.getBudgetPaymentCycleBlocks ∣ nBlockStart)
    (hrange : nBlockStart + (env.getBudgetPaymentCycleBlocks + 1) * n < 2 ^ 31) :
    (budgetProposalBroadcast env strProposalName strURL n address nAmount nBlockStart
      nFeeTXHash).getTotalPaymentCount env = n := by
  have hpos := env.cycle_pos
  rw [CBudgetProposal.getTotalPaymentCount, CBudgetProposal.getBlockEndCycle,
    nBlockEnd_budgetProposalBroadcast hnonneg haligned hrange, CBudgetProposal.getBlockStartCycle,
    budgetProposalBroadcast, Int.tmod_eq_zero_of_dvd haligned]
  have hspan : nBlockStart + (env.getBudgetPaymentCycleBlocks + 1) * n - (nBlockStart - 0) =
      n + env.getBudgetPaymentCycleBlocks * n := by
    rw [Int.add_mul, Int.one_mul]
    omega
  rw [hspan, Int.tdiv_eq_ediv_of_nonneg, Int.add_mul_ediv_left _ _ hpos.ne',
    Int.ediv_eq_zero_of_lt (by omega) (by omega), Int.zero_add]
  exact Int.add_nonneg (by omega) (Int.mul_nonneg hpos.le (by omega))

theorem checkEnd_budgetProposalBroadcast {nHeight : Int} (strProposal : String)
    (hcount : n + 1 < env.getBudgetPaymentCycleBlocks) (hnonneg : 0 ≤ nBlockStart)
    (haligned : env.getBudgetPaymentCycleBlocks ∣ nBlockStart)
    (hrange : nBlockStart + (env.getBudgetPaymentCycleBlocks + 1) * n < 2 ^ 31)
    (hheight : nHeight ≤ nBlockStart + env.getBudgetPaymentCycleBlocks * n) :
    (budgetProposalBroadcast env strProposalName strURL n address nAmount nBlockStart
      nFeeTXHash).checkEnd { env with nTipHeight := some nHeight } strProposal = .ok () := by
  rw [CBudgetProposal.checkEnd]
  refine Checks.failIf_eq_ok.mpr (decide_eq_false (not_lt.mpr ?_))
  exact hheight.trans_eq (congrArg (nBlockStart + env.getBudgetPaymentCycleBlocks * ·)
    (getTotalPaymentCount_budgetProposalBroadcast hcount hnonneg haligned hrange).symm)

end Broadcast

theorem proposal_payment_cycles (env : BudgetEnv) (strProposalName strURL : String) (n : Nat)
    (address : CScript) (nAmount nBlockStart : Int) (nFeeTXHash : UInt256) (hpayments : 1 ≤ n)
    (hcount : n + 1 < env.getBudgetPaymentCycleBlocks) (hnonneg : 0 ≤ nBlockStart)
    (haligned : env.getBudgetPaymentCycleBlocks ∣ nBlockStart)
    (hrange : nBlockStart + (env.getBudgetPaymentCycleBlocks + 1) * n < 2 ^ 31) :
    let p := budgetProposalBroadcast env strProposalName strURL n address nAmount nBlockStart
      nFeeTXHash
    p.getTotalPaymentCount env = n ∧
      (∀ start, env.getBudgetPaymentCycleBlocks ∣ start →
        (p.inPeriod env start = true ↔
          start ∈ paymentCycles env.getBudgetPaymentCycleBlocks nBlockStart n)) ∧
      ∀ nHeight, nHeight ≤ nBlockStart + env.getBudgetPaymentCycleBlocks * (n - 1) →
        (∀ strProposal,
          p.checkEnd { env with nTipHeight := some nHeight } strProposal = .ok ()) ∧
        ∀ hash fCheckCollateral,
          p.isValid { env with nTipHeight := some nHeight } hash fCheckCollateral =
            p.isValid { env with nTipHeight := some nBlockStart } hash fCheckCollateral := by
  intro p
  have hpos := env.cycle_pos
  have hlast : env.getBudgetPaymentCycleBlocks * ((n : Int) - 1) + env.getBudgetPaymentCycleBlocks =
      env.getBudgetPaymentCycleBlocks * n := by
    rw [Int.mul_sub, Int.mul_one]
    omega
  have hfirst : 0 ≤ env.getBudgetPaymentCycleBlocks * ((n : Int) - 1) :=
    Int.mul_nonneg hpos.le (by omega)
  refine ⟨getTotalPaymentCount_budgetProposalBroadcast hcount hnonneg haligned hrange, ?_, ?_⟩
  · intro start hstart
    rw [mem_paymentCycles_iff hpos hcount haligned hstart, CBudgetProposal.inPeriod,
      nBlockEnd_budgetProposalBroadcast hnonneg haligned hrange, Bool.and_eq_true,
      decide_eq_true_iff, decide_eq_true_iff]
    rfl
  · intro nHeight hheight
    have hend : ∀ strProposal, p.checkEnd { env with nTipHeight := some nHeight } strProposal =
        .ok () := fun strProposal =>
      checkEnd_budgetProposalBroadcast strProposal hcount hnonneg haligned hrange (by omega)
    have hstart : ∀ strProposal, p.checkEnd { env with nTipHeight := some nBlockStart }
        strProposal = .ok () := fun strProposal =>
      checkEnd_budgetProposalBroadcast strProposal hcount hnonneg haligned hrange (by omega)
    refine ⟨hend, ?_⟩
    intro hash fCheckCollateral
    rw [CBudgetProposal.isValid, hend, CBudgetProposal.isValid, hstart]
    rfl

theorem proposal_payment_cycles_two :
    let env : BudgetEnv := { networkID := .TESTNET, nTipHeight := none }
    let p := budgetProposalBroadcast env "road" "" 2 [0x51] COIN 288 1
    p.getTotalPaymentCount env = 2 ∧ (∀ start, env.getBudgetPaymentCycleBlocks ∣ start →
      (p.inPeriod env start = true ↔ start ∈ [288, 432])) :=
  have h := proposal_payment_cycles { networkID := .TESTNET, nTipHeight := none } "road" "" 2 [0x51]
    COIN 288 1 (by decide) (by decide) (by decide) (by decide) (by decide)
  ⟨h.1, h.2.1⟩

end AnkerNode
