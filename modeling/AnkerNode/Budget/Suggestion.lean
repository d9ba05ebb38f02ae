import AnkerNode.Budget.Admission
import AnkerNode.Lib.Greedy
import AnkerNode.Lib.Ranking

namespace AnkerNode

open Checks FirstFit Sorting

-- what a stored proposal carries besides the fields of its broadcast
structure ProposalMark where
  fValid : Bool := true
  nTime : Int := 0
  nAlloted : Int := 0
deriving Repr

abbrev ProposalMarks := UInt256 → ProposalMark

-- An entry of `vBudgetPorposalsSort`; `key` is where the proposal stands in `mapProposals`.
structure CountedProposal where
  key : UInt256
  proposal : CBudgetProposal
  nVotes : Int

def CountedProposal.ofItem (it : UInt256 × CBudgetProposal) : CountedProposal where
  key := it.1
  proposal := it.2
  nVotes := it.2.getYeas - it.2.getNays

def CountedProposal.getAmount (c : CountedProposal) : Int := c.proposal.nAmount

def sortProposalsByVotes (left right : CountedProposal) : Bool :=
  if left.nVotes ≠ right.nVotes then decide (right.nVotes < left.nVotes)
  else decide (right.proposal.nFeeTXHash < left.proposal.nFeeTXHash)

namespace BudgetEnv

variable (env : BudgetEnv)

def isEstablished (mark : ProposalMark) : Bool :=
  if env.networkID = .MAIN then decide (mark.nTime < env.nTime - 60 * 60 * 24)
  else decide (mark.nTime < env.nTime - 60 * 5)

-- the first block of the payment cycle after the one that `nHeight` is in
def nextBlockStart (nHeight : Int) : Int :=
  nHeight - nHeight.tmod env.getBudgetPaymentCycleBlocks + env.getBudgetPaymentCycleBlocks

def passesCheck1 (marks : ProposalMarks) (nBlockStart : Int) (c : CountedProposal) : Bool :=
  let nBlockEnd := nBlockStart + env.getBudgetPaymentCycleBlocks - 1
  (marks c.key).fValid && decide (c.proposal.nBlockStart ≤ nBlockStart) &&
    decide (nBlockEnd ≤ c.proposal.nBlockEnd) &&
    decide ((env.nCountEnabled / 10 : Nat) < c.proposal.getYeas - c.proposal.getNays) &&
    env.isEstablished (marks c.key)

end BudgetEnv

def setAllotted (marks : ProposalMarks) (key : UInt256) (nAlloted : Int) : ProposalMarks :=
  fun k => if k = key then { marks k with nAlloted := nAlloted } else marks k

structure Allotment where
  marks : ProposalMarks
  nBudgetAllocated : Int := 0
  vBudgetProposalsRet : List CountedProposal := []

namespace CBudgetManager

variable (hashes : BudgetHashes) (env : BudgetEnv) (budget : CBudgetManager)

-- `vBudgetPorposalsSort` before it is sorted
def countedProposals : List CountedProposal :=
  (budget.proposals.cleanAndRemove hashes.proposalBallot (env.proposalDesk hashes)
    false).mapItems.toList.map CountedProposal.ofItem

def allot (nBlockStart : Int) (a : Allotment) (c : CountedProposal) : Allotment :=
  if env.passesCheck1 a.marks nBlockStart c then
    if int64Wrap (c.getAmount + a.nBudgetAllocated) ≤ env.getTotalBudget nBlockStart then
      { marks := setAllotted a.marks c.key c.getAmount
        nBudgetAllocated := int64Wrap (a.nBudgetAllocated + c.getAmount)
        vBudgetProposalsRet := a.vBudgetProposalsRet ++ [c] }
    else { a with marks := setAllotted a.marks c.key 0 }
  else a

-- `order` is what `std::sort` makes of the counted proposals.
def getBudget (marks : ProposalMarks) (order : List CountedProposal) : Allotment :=
  match env.nTipHeight with
  | none => { marks := marks }
  | some nHeight => order.foldl (allot env (env.nextBlockStart nHeight)) { marks := marks }

end CBudgetManager

def Allotment.payments (hash : ProposalHash) (a : Allotment) : List CTxBudgetPayment :=
  a.vBudgetProposalsRet.map fun c =>
    ⟨c.proposal.getHash hash, c.proposal.address, (a.marks c.key).nAlloted⟩

-- the budget that `SubmitFinalBudget` makes of a suggestion
def suggestedBudget (hash : ProposalHash) (nBlockStart : Int) (a : Allotment)
    (txidCollateral : UInt256) : CFinalizedBudget where
  strBudgetName := "main"
  nBlockStart := nBlockStart
  vecBudgetPayments := a.payments hash
  nFeeTXHash := txidCollateral

-- What the wallet and the chain answer about the collateral of a finalized budget: the transaction
-- the wallet makes for it, and the confirmations of one that can be found.
structure CollateralEnv where
  nBudgetFeeConfirmations : Int := 6
  getBudgetSystemCollateralTX : UInt256 → Option UInt256
  getConfirmations : UInt256 → Option Int

structure BudgetSubmitter where
  nSubmittedHeight : Int := 0
  mapCollateralTxids : Std.TreeMap UInt256 UInt256 := ∅
  marks : ProposalMarks := fun _ => {}
  budget : CBudgetManager := {}

namespace BudgetSubmitter

variable (hashes : BudgetHashes) (env : BudgetEnv) (cenv : CollateralEnv)

-- the collateral of a budget, made now when there is none yet
def collateral (hash : UInt256) (s : BudgetSubmitter) : BudgetSubmitter × Option UInt256 :=
  match s.mapCollateralTxids[hash]? with
  | some txid => (s, some txid)
  | none =>
    match cenv.getBudgetSystemCollateralTX hash with
    | none => (s, none)
    | some txid =>
      ({ s with mapCollateralTxids := s.mapCollateralTxids.insert hash txid }, some txid)

def confirmed (txid : UInt256) : Bool :=
  match cenv.getConfirmations txid with
  | none => false
  | some conf => decide (cenv.nBudgetFeeConfirmations + 1 ≤ conf)

def finalizationWindow : Int :=
  if env.networkID = .TESTNET then 64 else env.getBudgetPaymentCycleBlocks.tdiv 30 * 2

-- what `GetBudget` leaves of the proposals
def afterGetBudget (a : Allotment) (s : BudgetSubmitter) : BudgetSubmitter :=
  { s with
    marks := a.marks
    budget := { s.budget with
      proposals := s.budget.proposals.cleanAndRemove hashes.proposalBallot
        (env.proposalDesk hashes) false } }

def submitBudget (nCurrentHeight : Int) (b : CFinalizedBudget) (s : BudgetSubmitter) :
    BudgetSubmitter :=
  if !(b.isValid env hashes.finalized (fun _ => none) true).isOk then s
  else
    let seen := Function.update s.budget.finalized.mapSeenItems (b.getHash hashes.finalized) true
    { s with
      nSubmittedHeight := nCurrentHeight
      budget := { s.budget with
        finalized := { s.budget.finalized with mapSeenItems := seen }.addItem
          hashes.finalizedBallot (env.finalizedDesk hashes) b } }

def submitFinalBudget (order : List CountedProposal) (s : BudgetSubmitter) : BudgetSubmitter :=
  match env.nTipHeight with
  | none => s
  | some nCurrentHeight =>
    let nBlockStart := env.nextBlockStart nCurrentHeight
    if nBlockStart ≤ s.nSubmittedHeight then s
    else if finalizationWindow env < nBlockStart - nCurrentHeight then s
    else
      let a := CBudgetManager.getBudget env s.marks order
      let s := s.afterGetBudget hashes env a
      let hash := (suggestedBudget hashes.proposal nBlockStart a 0).getHash hashes.finalized
      if (a.payments hashes.proposal).isEmpty then s
      else if s.budget.finalized.mapSeenItems hash then { s with nSubmittedHeight := nCurrentHeight }
      else
        match s.collateral cenv hash with
        | (s, none) => s
        | (s, some txid) =>
          if !confirmed cenv txid then s
          else
            s.submitBudget hashes env nCurrentHeight
              (suggestedBudget hashes.proposal nBlockStart a txid)

variable {hashes : BudgetHashes} {env : BudgetEnv} {cenv : CollateralEnv} {s : BudgetSubmitter}
  {b : CFinalizedBudget} {k : UInt256}

theorem collateral_budget (cenv : CollateralEnv) (hash : UInt256) (s : BudgetSubmitter) :
    (s.collateral cenv hash).1.budget = s.budget := by
  rw [collateral]
  split
  · rfl
  · split
    · rfl
    · rfl

theorem submitBudget_finalized {nCurrentHeight : Int} {b' : CFinalizedBudget}
    (h : (s.submitBudget hashes env nCurrentHeight b').budget.finalized.mapItems[k]? = some b) :
    s.budget.finalized.mapItems[k]? = some b ∨
      (b = b' ∧ b.isValid env hashes.finalized (fun _ => none) true = .ok ()) := by
  rw [submitBudget] at h
  split at h
  · exact .inl h
  · rename_i hok
    obtain ⟨u, hu⟩ := exists_ok_of_isOk (x := b'.isValid env hashes.finalized (fun _ => none) true)
      (by simpa using hok)
    simp only [VoteDesk.addItem] at h
    split at h
    · exact .inl h
    · split at h
      · exact .inl h
      · rcases VoteDesk.getElem?_insert_cases h with ⟨-, rfl⟩ | h
        · exact .inr ⟨rfl, hu⟩
        · exact .inl h

-- All that a submission adds to the finalized budgets is a valid budget made of a suggestion.
theorem submitFinalBudget_finalized {order : List CountedProposal}
    (h : (s.submitFinalBudget hashes env cenv order).budget.finalized.mapItems[k]? = some b) :
    s.budget.finalized.mapItems[k]? = some b ∨
      ∃ nHeight txidCollateral, env.nTipHeight = some nHeight ∧
        b = suggestedBudget hashes.proposal (env.nextBlockStart nHeight)
          (CBudgetManager.getBudget env s.marks order) txidCollateral ∧
        b.isValid env hashes.finalized (fun _ => none) true = .ok () := by
  rw [submitFinalBudget] at h
  split at h
  · exact .inl h
  · rename_i nHeight htip
    dsimp only at h
    split at h
    · exact .inl h
    · split at h
      · exact .inl h
      · split at h
        · exact .inl h
        · split at h
          · exact .inl h
          · have hbudget := collateral_budget cenv
              ((suggestedBudget hashes.proposal (env.nextBlockStart nHeight)
                (CBudgetManager.getBudget env s.marks order) 0).getHash hashes.finalized)
              (s.afterGetBudget hashes env (CBudgetManager.getBudget env s.marks order))
            split at h
            · rename_i heq
              rw [heq] at hbudget
              rw [hbudget] at h
              exact .inl h
            · rename_i s' txid heq
              rw [heq] at hbudget
              dsimp only at hbudget
              split at h
              · rw [hbudget] at h
                exact .inl h
              · rcases submitBudget_finalized h with h | ⟨hb, hvalid⟩
                · rw [hbudget] at h
                  exact .inl h
                · exact .inr ⟨nHeight, txid, htip, hb, hvalid⟩

end BudgetSubmitter

section Allot

variable {env : BudgetEnv} {nBlockStart : Int} {marks : ProposalMarks} {a : Allotment}
  {order : List CountedProposal}

-- the proposals that `GetBudget` may pay, in the order of the votes
def payable (env : BudgetEnv) (marks : ProposalMarks) (nBlockStart : Int)
    (order : List CountedProposal) : List CountedProposal :=
  order.filter (env.passesCheck1 marks nBlockStart)

-- The allotment has changed nothing of the marks but what the proposals it took are allotted.
structure Allotment.Follows (marks : ProposalMarks) (a : Allotment) : Prop where
  fValid : ∀ k, (a.marks k).fValid = (marks k).fValid
  nTime : ∀ k, (a.marks k).nTime = (marks k).nTime
  nAlloted : ∀ c ∈ a.vBudgetProposalsRet, (a.marks c.key).nAlloted = c.getAmount

theorem passesCheck1_follows (h : a.Follows marks) (c : CountedProposal) :
    env.passesCheck1 a.marks nBlockStart c = env.passesCheck1 marks nBlockStart c := by
  simp only [BudgetEnv.passesCheck1, BudgetEnv.isEstablished, h.fValid, h.nTime]

theorem follows_setAllotted {key : UInt256} (nAlloted : Int) (h : a.Follows marks)
    (hkey : ∀ c ∈ a.vBudgetProposalsRet, c.key ≠ key) :
    Allotment.Follows marks { a with marks := setAllotted a.marks key nAlloted } := by
  have hmark : ∀ k, (setAllotted a.marks key nAlloted k).fValid = (a.marks k).fValid ∧
      (setAllotted a.marks key nAlloted k).nTime = (a.marks k).nTime := by
    intro k
    simp only [setAllotted]
    split
    · exact ⟨rfl, rfl⟩
    · exact ⟨rfl, rfl⟩
  refine ⟨?_, ?_, ?_⟩
  · intro k
    exact (hmark k).1.trans (h.fValid k)
  · intro k
    exact (hmark k).2.trans (h.nTime k)
  · intro c hc
    simp only [setAllotted]
    rw [if_neg (hkey c hc)]
    exact h.nAlloted c hc

theorem follows_take {c : CountedProposal} {nBudgetAllocated : Int} (h : a.Follows marks)
    (hkey : ∀ c' ∈ a.vBudgetProposalsRet, c'.key ≠ c.key) :
    Allotment.Follows marks
      { marks := setAllotted a.marks c.key c.getAmount
        nBudgetAllocated := nBudgetAllocated
        vBudgetProposalsRet := a.vBudgetProposalsRet ++ [c] } := by
  have hset := follows_setAllotted c.getAmount h hkey
  refine ⟨hset.fValid, hset.nTime, ?_⟩
  intro c' hc'
  rcases List.mem_append.mp hc' with hc' | hc'
  · exact hset.nAlloted c' hc'
  · rw [List.mem_singleton.mp hc']
    simp [setAllotted]

-- An amount that is added to a whole budget stays within `CAmount`.
def Addable (nAmount : Int) : Prop :=
  0 ≤ nAmount ∧ ∀ (env : BudgetEnv) (nHeight : Int),
    nAmount + env.getTotalBudget nHeight ≤ int64Max

theorem addable_of_isValid {hash : ProposalHash} {p : CBudgetProposal} {fCheckCollateral : Bool}
    (h : p.isValid env hash fCheckCollateral = .ok ()) : Addable p.nAmount := by
  simp only [CBudgetProposal.isValid, bind_eq_ok, failIf_eq_ok, decide_eq_false_iff_not,
    not_lt] at h
  obtain ⟨-, -, -, -, -, -, -, hmin, -, -, -, -, -, -, -, hmax, -⟩ := h
  have hcap := (env.getTotalBudget_bounds p.nBlockStart).2
  simp only [COIN] at hmin hcap
  refine ⟨by omega, ?_⟩
  intro env' nHeight
  have hcap' := (env'.getTotalBudget_bounds nHeight).2
  simp only [COIN] at hcap'
  simp only [int64Max]
  omega

theorem fills_allot (env : BudgetEnv) (nBlockStart : Int) (h : a.Follows marks) (hnonneg : 0 ≤ a.nBudgetAllocated)
    (hmax : a.nBudgetAllocated ≤ env.getTotalBudget nBlockStart)
    (hkeys : (order.map CountedProposal.key).Nodup)
    (hnew : ∀ c ∈ order, ∀ c' ∈ a.vBudgetProposalsRet, c'.key ≠ c.key)
    (hadd : ∀ c ∈ order, Addable c.getAmount) :
    ∃ chosen, Fills CountedProposal.getAmount (env.getTotalBudget nBlockStart - a.nBudgetAllocated)
        (payable env marks nBlockStart order) chosen ∧
      (order.foldl (CBudgetManager.allot env nBlockStart) a).vBudgetProposalsRet =
        a.vBudgetProposalsRet ++ chosen ∧
      (order.foldl (CBudgetManager.allot env nBlockStart) a).Follows marks := by
  induction order generalizing a with
  | nil => exact ⟨[], .nil _, by simp, h⟩
  | cons c order ih =>
    rw [List.map_cons, List.nodup_cons] at hkeys
    rw [List.forall_mem_cons] at hnew hadd
    obtain ⟨hamount, hsum⟩ := hadd.1
    have hfits := hsum env nBlockStart
    have hsums : int64Wrap (c.getAmount + a.nBudgetAllocated) = c.getAmount + a.nBudgetAllocated :=
      CFinalizedBudget.int64Wrap_of_range (by omega) (by omega)
    rw [List.foldl_cons, payable, List.filter_cons, ← passesCheck1_follows h c]
    simp only [CBudgetManager.allot, hsums]
    split
    · split
      · rename_i hroom
        have hall : int64Wrap (a.nBudgetAllocated + c.getAmount) =
            a.nBudgetAllocated + c.getAmount := by
          rw [Int.add_comm, hsums, Int.add_comm]
        rw [hall]
        obtain ⟨chosen, hfill, hret, hfollows⟩ := ih (follows_take h hnew.1)
          (Int.add_nonneg hnonneg hamount) (by simpa [Int.add_comm] using hroom) hkeys.2
          (by
            intro c' hc' c'' hc''
            rcases List.mem_append.mp hc'' with hc'' | hc''
            · exact hnew.2 c' hc' c'' hc''
            · rw [List.mem_singleton.mp hc'']
              intro heq
              exact hkeys.1 (heq ▸ List.mem_map_of_mem hc'))
          hadd.2
        refine ⟨c :: chosen, .take (by omega) ?_, by simp [hret], hfollows⟩
        rw [Int.sub_sub]
        exact hfill
      · rename_i hroom
        obtain ⟨chosen, hfill, hret, hfollows⟩ :=
          ih (follows_setAllotted 0 h hnew.1) hnonneg hmax hkeys.2 hnew.2 hadd.2
        exact ⟨chosen, .skip (by omega) hfill, hret, hfollows⟩
    · exact ih h hnonneg hmax hkeys.2 hnew.2 hadd.2

theorem Allotment.payments_amount (h : a.Follows marks) (hash : ProposalHash) :
    (a.payments hash).map CTxBudgetPayment.nAmount =
      a.vBudgetProposalsRet.map CountedProposal.getAmount := by
  rw [Allotment.payments, List.map_map]
  apply List.map_congr_left
  intro c hc
  exact h.nAlloted c hc

end Allot

theorem BudgetEnv.nextBlockStart_nat (env : BudgetEnv) (nHeight : Nat) :
    ∃ n : Nat, env.nextBlockStart nHeight = env.getBudgetPaymentCycleBlocks * (n + 1) := by
  have hcycle : 0 < env.getBudgetPaymentCycleBlocks := by
    rw [BudgetEnv.getBudgetPaymentCycleBlocks]
    split <;> decide
  obtain ⟨n, hn⟩ := Int.eq_ofNat_of_zero_le (Int.ediv_nonneg (Int.natCast_nonneg nHeight) hcycle.le)
  refine ⟨n, ?_⟩
  have hdiv := Int.emod_add_mul_ediv nHeight env.getBudgetPaymentCycleBlocks
  rw [hn] at hdiv
  rw [BudgetEnv.nextBlockStart, Int.tmod_eq_emod_of_nonneg (Int.natCast_nonneg nHeight),
    Int.mul_add, Int.mul_one]
  omega

theorem suggestedBudget_isValid_iff {env : BudgetEnv} {hashes : BudgetHashes} {nHeight : Nat}
    {a : Allotment} {txidCollateral : UInt256} (htip : env.nTipHeight = some (nHeight : Int))
    (htxid : txidCollateral ≠ 0) (hsome : a.payments hashes.proposal ≠ [])
    (hnonneg : ∀ payment ∈ a.payments hashes.proposal, 0 ≤ payment.nAmount)
    (hsum : ((a.payments hashes.proposal).map CTxBudgetPayment.nAmount).sum ≤
      env.getTotalBudget (env.nextBlockStart nHeight))
    (getName : UInt256 → Option String) :
    (suggestedBudget hashes.proposal (env.nextBlockStart nHeight) a txidCollateral).isValid env
        hashes.finalized getName false = .ok () ↔ (a.payments hashes.proposal).length ≤ 100 := by
  constructor
  · intro h
    exact (CFinalizedBudget.isValid_eq_ok h).1
  · intro hcount
    obtain ⟨n, hstart⟩ := env.nextBlockStart_nat nHeight
    have hcycle : env.getBudgetPaymentCycleBlocks = 86400 ∨
        env.getBudgetPaymentCycleBlocks = 144 := by
      rw [BudgetEnv.getBudgetPaymentCycleBlocks]
      split
      · exact .inl rfl
      · exact .inr rfl
    have hlength := List.length_pos_iff.mpr hsome
    have hpayout : (suggestedBudget hashes.proposal (env.nextBlockStart nHeight) a
        txidCollateral).getTotalPayout ≤ env.getTotalBudget (env.nextBlockStart nHeight) := by
      rw [CFinalizedBudget.getTotalPayout]
      have hmax := hsum.trans (env.getTotalBudget_le _)
      refine (CFinalizedBudget.foldl_payout le_rfl hnonneg (by simpa using hmax)).trans_le ?_
      simpa using hsum
    simp only [CFinalizedBudget.isValid, bind_eq_ok, failIf_eq_ok, onlyIf_eq_ok, exists_const]
    refine ⟨?_, ?_, decide_eq_false (Nat.not_lt.mpr hcount), rfl, ?_, ?_,
      decide_eq_false (Int.not_lt.mpr hpayout), by simp, ?_⟩
    · have hmod : (env.nextBlockStart nHeight).tmod env.getBudgetPaymentCycleBlocks = 0 := by
        rw [hstart, Int.mul_tmod_right]
      simpa [suggestedBudget] using hmod
    · apply decide_eq_false
      simp only [CFinalizedBudget.getBlockEnd, suggestedBudget]
      omega
    · have hne : env.nextBlockStart nHeight ≠ 0 := by
        rw [hstart]
        rcases hcycle with hcycle | hcycle
        · rw [hcycle]
          omega
        · rw [hcycle]
          omega
      simpa [suggestedBudget] using hne
    · simpa [suggestedBudget] using htxid
    · simp only [CFinalizedBudget.checkAge, htip, failIf_eq_ok]
      apply decide_eq_false
      simp only [CFinalizedBudget.getBlockEnd, suggestedBudget, BudgetEnv.nextBlockStart]
      rcases hcycle with hcycle | hcycle
      · omega
      · omega

namespace CBudgetManager

variable {hashes : BudgetHashes} {env : BudgetEnv} {budget : CBudgetManager}
  {marks : ProposalMarks} {order : List CountedProposal}

theorem countedProposals_keys (hashes : BudgetHashes) (env : BudgetEnv) (budget : CBudgetManager) :
    ((budget.countedProposals hashes env).map CountedProposal.key).Nodup := by
  rw [countedProposals, List.map_map, List.Nodup, List.pairwise_map]
  refine Std.TreeMap.distinct_keys_toList.imp ?_
  intro it it' hne heq
  refine hne ?_
  have hkey : it.1 = it'.1 := heq
  rw [hkey]
  exact Std.ReflCmp.compare_self

theorem countedProposals_addable
    (hadmitted : budget.proposals.Holds fun p => Addable p.nAmount) :
    ∀ c ∈ budget.countedProposals hashes env, Addable c.getAmount := by
  intro c hc
  obtain ⟨⟨k, p⟩, hit, rfl⟩ := List.mem_map.mp hc
  have hheld := VoteDesk.holds_cleanAndRemove hashes.proposalBallot
    (env.proposalDesk hashes) (fun _ _ h => h) hadmitted false
  exact hheld k p (Std.TreeMap.mem_toList_iff_getElem?_eq_some.mp hit)

theorem getBudget_fills (marks : ProposalMarks) {nHeight : Int} (htip : env.nTipHeight = some nHeight)
    (hadmitted : budget.proposals.Holds fun p => Addable p.nAmount)
    (horder : SortsTo sortProposalsByVotes (budget.countedProposals hashes env) order) :
    Fills CountedProposal.getAmount (env.getTotalBudget (env.nextBlockStart nHeight))
        (payable env marks (env.nextBlockStart nHeight) order)
        (getBudget env marks order).vBudgetProposalsRet ∧
      (getBudget env marks order).Follows marks := by
  have hkeys : (order.map CountedProposal.key).Nodup :=
    (horder.perm.map _).nodup_iff.mpr (countedProposals_keys hashes env budget)
  have hadd : ∀ c ∈ order, Addable c.getAmount := fun c hc =>
    countedProposals_addable hadmitted c (horder.perm.subset hc)
  have hstart : Allotment.Follows marks { marks := marks } := ⟨by simp, by simp, by simp⟩
  obtain ⟨chosen, hfill, hret, hfollows⟩ := fills_allot env
    (env.nextBlockStart nHeight) hstart le_rfl (env.getTotalBudget_bounds _).1 hkeys
    (by simp) hadd
  simp only [getBudget, htip]
  refine ⟨?_, hfollows⟩
  rw [hret]
  simpa using hfill

theorem suggestion_bounded (marks : ProposalMarks) {nHeight : Int} (htip : env.nTipHeight = some nHeight)
    (hadmitted : budget.proposals.Holds fun p => Addable p.nAmount)
    (horder : SortsTo sortProposalsByVotes (budget.countedProposals hashes env) order) :
    ((getBudget env marks order).vBudgetProposalsRet.map CountedProposal.getAmount).sum ≤
        env.getTotalBudget (env.nextBlockStart nHeight) ∧
      ((getBudget env marks order).vBudgetProposalsRet.map CountedProposal.key).Nodup := by
  obtain ⟨hfill, -⟩ := getBudget_fills marks htip hadmitted horder
  refine ⟨hfill.sum_le (env.getTotalBudget_bounds _).1, ?_⟩
  have hkeys : (order.map CountedProposal.key).Nodup :=
    (horder.perm.map _).nodup_iff.mpr (countedProposals_keys hashes env budget)
  exact hkeys.sublist ((hfill.sublist.trans List.filter_sublist).map _)

theorem suggestion_valid_iff {nHeight : Nat} (htip : env.nTipHeight = some (nHeight : Int))
    (hadmitted : budget.proposals.Holds fun p => Addable p.nAmount)
    (horder : SortsTo sortProposalsByVotes (budget.countedProposals hashes env) order)
    {txidCollateral : UInt256} (htxid : txidCollateral ≠ 0)
    (hsome : (getBudget env marks order).payments hashes.proposal ≠ [])
    (getName : UInt256 → Option String) :
    (suggestedBudget hashes.proposal (env.nextBlockStart nHeight) (getBudget env marks order)
        txidCollateral).isValid env hashes.finalized getName false = .ok () ↔
      (getBudget env marks order).vBudgetProposalsRet.length ≤ 100 := by
  obtain ⟨hfill, hfollows⟩ := getBudget_fills marks htip hadmitted horder
  have hamounts := Allotment.payments_amount hfollows hashes.proposal
  have hnonneg : ∀ payment ∈ (getBudget env marks order).payments hashes.proposal,
      0 ≤ payment.nAmount := by
    intro payment hpayment
    have hmem := List.mem_map_of_mem (f := CTxBudgetPayment.nAmount) hpayment
    rw [hamounts] at hmem
    obtain ⟨c, hc, hamount⟩ := List.mem_map.mp hmem
    rw [← hamount]
    have hcounted := horder.perm.subset ((hfill.sublist.trans List.filter_sublist).subset hc)
    exact (countedProposals_addable hadmitted c hcounted).1
  have hsum := (suggestion_bounded marks htip hadmitted horder).1
  rw [← hamounts] at hsum
  rw [suggestedBudget_isValid_iff htip htxid hsome hnonneg hsum, Allotment.payments, List.length_map]

theorem admitted_run (hashes : BudgetHashes) (steps : List (BudgetEnv × BudgetStep)) :
    (run hashes {} steps).proposals.Holds fun p => Addable p.nAmount := by
  refine holds_run (fun _ _ h => h) (fun _ _ h => addable_of_isValid h) ?_ steps
  intro k p hp
  simp at hp

def tinyHashes : BudgetHashes where
  proposal _ _ _ _ nAmount _ := BitVec.ofInt 256 nAmount
  finalized _ _ _ := 1
  vote _ nProposalHash _ _ := nProposalHash
  finalizedVote _ nBudgetHash _ := nBudgetHash
  outPoint o := o.hash

def crowdVoter : CTxIn where
  prevout := ⟨1, 0⟩
  scriptSig := []

def crowdEnv : BudgetEnv where
  nTipHeight := some 100
  nTime := 100000
  vMasternodes := [{ vin := crowdVoter, pubKeyMasternode := [], protocolVersion := 0 }]

def crowdProposal (i : Nat) : CBudgetProposal where
  strProposalName := "p"
  strURL := "u"
  nBlockStart := 0
  nBlockEnd := 200000
  address := [0x51]
  nAmount := 10 * COIN + i
  nFeeTXHash := 1

def crowdVote (i : Nat) : CBudgetVote where
  vin := crowdVoter
  nProposalHash := (crowdProposal i).getHash tinyHashes.proposal
  nVote := VOTE_YES
  nTime := 0

-- `n` proposals of about ten coins each, all of them voted for
def crowd (n : Nat) : List (BudgetEnv × BudgetStep) :=
  (List.range n).flatMap fun i =>
    [(crowdEnv, .message (.mprop (crowdProposal i))), (crowdEnv, .message (.mvote (crowdVote i)))]

def crowdOrder (n : Nat) : List CountedProposal :=
  (run tinyHashes {} (crowd n)).countedProposals tinyHashes crowdEnv

theorem sortsTo_crowdOrder {n : Nat}
    (h : (crowdOrder n).all fun c => c.nVotes == 1 && c.proposal.nFeeTXHash == 1) :
    SortsTo sortProposalsByVotes (crowdOrder n) (crowdOrder n) := by
  simp only [List.all_eq_true, Bool.and_eq_true, beq_iff_eq] at h
  apply sortsTo_self
  intro a ha b hb
  simp [sortProposalsByVotes, h a ha, h b hb]

-- A single funded proposal is the whole suggestion.
example : ((getBudget crowdEnv (fun _ => {}) (crowdOrder 1)).vBudgetProposalsRet).length = 1 := by
  decide +kernel

end CBudgetManager

end AnkerNode
