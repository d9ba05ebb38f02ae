import AnkerNode.Lib.Checks
import AnkerNode.Masternode.Payments
import AnkerNode.Primitives.Transaction
import AnkerNode.Script.Script
import Mathlib.Algebra.Order.BigOperators.Group.List

namespace AnkerNode

open Checks

structure CTxBudgetPayment where
  nProposalHash : UInt256
  payee : CScript
  nAmount : Int
deriving DecidableEq, Repr

structure CFinalizedBudgetVote where
  vin : CTxIn
  nBudgetHash : UInt256
  nTime : Int
  vchSig : List UInt8 := []
  fValid : Bool := true
deriving DecidableEq, Repr

structure CFinalizedBudget where
  strBudgetName : String
  nBlockStart : Int
  vecBudgetPayments : List CTxBudgetPayment
  mapVotes : Std.TreeMap UInt256 CFinalizedBudgetVote := ∅
  nFeeTXHash : UInt256

structure CollateralResult where
  fValid : Bool
  strError : String := ""
  nConf : Int := 0
deriving DecidableEq, Repr

-- `fPastBudget`: the masternode sync has gone past its budget stage.
structure BudgetEnv where
  networkID : NetworkID := .MAIN
  nTipHeight : Option Int
  nTime : Int := 0
  nCountEnabled : Nat := 0
  isBudgetCollateralValid : UInt256 → UInt256 → Bool → CollateralResult :=
    fun _ _ _ => { fValid := true }
  fLiteMode : Bool := false
  fBlockchainSynced : Bool := true
  fSynced : Bool := true
  fPastBudget : Bool := true
  vMasternodes : List CMasternode := []
  verifyMessage : List UInt8 → List UInt8 → String → Bool := fun _ _ _ => true

-- `CHashWriter` over the name, the start and the payments of a finalized budget
abbrev BudgetHash := String → Int → List CTxBudgetPayment → UInt256

def CFinalizedBudget.getHash (hash : BudgetHash) (b : CFinalizedBudget) : UInt256 :=
  hash b.strBudgetName b.nBlockStart b.vecBudgetPayments

-- hundredths of a coin a block pays to the budget
def budgetShares : List (Int × Int × Int) :=
  [(500, 400000, 63), (400000, 1451200, 53), (1451200, 2502400, 45), (2502400, 3553600, 38),
    (3553600, 4604800, 33), (4604800, 5656000, 28), (5656000, 6707200, 24), (6707200, 7758400, 20),
    (7758400, 8809600, 17), (8809600, 9860800, 14), (9860800, 10912000, 12),
    (10912000, 11963200, 10), (11963200, 13014400, 9), (13014400, 14065600, 8),
    (14065600, 15116800, 6), (15116800, 16168000, 5), (16168000, 17219200, 5),
    (17219200, 18270400, 4), (18270400, 19321600, 3), (19321600, 20372800, 3),
    (20372800, 21424000, 2), (21424000, 22475200, 2)]

def COutPoint.toStringShort (o : COutPoint) : String :=
  o.hash.getHex ++ "-" ++ toString o.n.toNat

namespace BudgetEnv

variable (env : BudgetEnv)

def find (vin : CTxIn) : Option CMasternode :=
  env.vMasternodes.find? fun mn => mn.vin.prevout == vin.prevout

-- what `SignatureValid` of either kind of vote does with its message
def signatureValid (vin : CTxIn) (vchSig : List UInt8) (strMessage : String)
    (fSignatureCheck : Bool) : Bool :=
  match env.find vin with
  | none => false
  | some pmn => !fSignatureCheck || env.verifyMessage pmn.pubKeyMasternode vchSig strMessage

def getBudgetPaymentCycleBlocks : Int := if env.networkID = .MAIN then 86400 else 144

def getTotalBudget (nHeight : Int) : Int :=
  if env.nTipHeight.isNone then 0
  else if env.networkID = .TESTNET then 500 * COIN / 100 * 10 * 146
  else heightRow budgetShares 2 nHeight * (COIN / 100) * 1440 * 30 * 2

end BudgetEnv

def CFinalizedBudgetVote.signatureValid (env : BudgetEnv) (vote : CFinalizedBudgetVote)
    (fSignatureCheck : Bool) : Bool :=
  env.signatureValid vote.vin vote.vchSig
    (vote.vin.prevout.toStringShort ++ vote.nBudgetHash.getHex ++ toString vote.nTime)
    fSignatureCheck

def int64Wrap (n : Int) : Int := Int.bmod n (2 ^ 64)

namespace CFinalizedBudget

variable (b : CFinalizedBudget)

def getBlockEnd : Int := b.nBlockStart + (b.vecBudgetPayments.length - 1)

def getVoteCount : Int := b.mapVotes.size

def covers (nBlockHeight : Int) : Bool :=
  decide (b.nBlockStart ≤ nBlockHeight) && decide (nBlockHeight ≤ b.getBlockEnd)

def getBudgetPaymentByBlock (nBlockHeight : Int) : Option CTxBudgetPayment :=
  let i := nBlockHeight - b.nBlockStart
  if i < 0 then none
  else if b.vecBudgetPayments.length - 1 < i then none
  else b.vecBudgetPayments[i.toNat]?

def getPayeeAndAmount (nBlockHeight : Int) : Option (CScript × Int) :=
  (b.getBudgetPaymentByBlock nBlockHeight).map fun payment => (payment.payee, payment.nAmount)

def getTotalPayout : Int :=
  b.vecBudgetPayments.foldl (fun ret payment => int64Wrap (ret + payment.nAmount)) 0

-- `getName` is the name of a known proposal.
def getProposals (getName : UInt256 → Option String) : String :=
  b.vecBudgetPayments.foldl
    (fun ret payment =>
      let token := (getName payment.nProposalHash).getD payment.nProposalHash.getHex
      if ret = "" then token else ret ++ "," ++ token)
    ""

def checkAge (env : BudgetEnv) (strProposals : String) : Except String Unit :=
  match env.nTipHeight with
  | none => .ok ()
  | some nCurrentHeight =>
    let cycle := env.getBudgetPaymentCycleBlocks
    let nBlockStart := nCurrentHeight - nCurrentHeight.tmod cycle + cycle
    failIf (b.getBlockEnd < nBlockStart - 2 * cycle)
      ("Budget " ++ b.strBudgetName ++ " (" ++ strProposals ++ ") (ends at block " ++
        toString b.getBlockEnd ++ ") too old and obsolete")

def checkCollateral (env : BudgetEnv) (hash : BudgetHash) : Except String Unit :=
  let collateral := env.isBudgetCollateralValid b.nFeeTXHash (b.getHash hash) true
  failIf (!collateral.fValid)
    ("Budget " ++ b.strBudgetName ++ " Invalid Collateral : " ++ collateral.strError)

def isValid (env : BudgetEnv) (hash : BudgetHash) (getName : UInt256 → Option String)
    (fCheckCollateral : Bool) : Except String Unit := do
  let strProposals := b.getProposals getName
  let strBudget := "Budget " ++ b.strBudgetName ++ " (" ++ strProposals ++ ")"
  failIf (b.nBlockStart.tmod env.getBudgetPaymentCycleBlocks != 0) "Invalid BlockStart"
  failIf (decide (100 < b.getBlockEnd - b.nBlockStart)) "Invalid BlockEnd"
  failIf (decide (100 < b.vecBudgetPayments.length)) "Invalid budget payments count (too many)"
  failIf (b.strBudgetName == "") "Invalid Budget Name"
  failIf (b.nBlockStart == 0) (strBudget ++ " Invalid BlockStart == 0")
  failIf (b.nFeeTXHash == 0) (strBudget ++ " Invalid FeeTx == 0")
  failIf (decide (env.getTotalBudget b.nBlockStart < b.getTotalPayout))
    (strBudget ++ " Invalid Payout (more than max)")
  onlyIf fCheckCollateral (b.checkCollateral env hash)
  b.checkAge env strProposals

end CFinalizedBudget

theorem BudgetEnv.getTotalBudget_bounds (env : BudgetEnv) (nHeight : Int) :
    0 ≤ env.getTotalBudget nHeight ∧
      env.getTotalBudget nHeight ≤ 63 * (COIN / 100) * 1440 * 30 * 2 := by
  have hrow : 0 ≤ heightRow budgetShares 2 nHeight ∧ heightRow budgetShares 2 nHeight ≤ 63 :=
    heightRow_forall (P := fun n => 0 ≤ n ∧ n ≤ 63) (by decide) (by decide) nHeight
  simp only [getTotalBudget]
  split
  · decide
  · split
    · decide
    · simp only [COIN]
      omega

theorem BudgetEnv.getTotalBudget_le (env : BudgetEnv) (nHeight : Int) :
    env.getTotalBudget nHeight ≤ int64Max :=
  (env.getTotalBudget_bounds nHeight).2.trans (by decide)

namespace CFinalizedBudget

variable {b : CFinalizedBudget} {env : BudgetEnv} {hash : BudgetHash}
  {getName : UInt256 → Option String} {fCheckCollateral : Bool}

theorem int64Wrap_of_range {n : Int} (hnonneg : 0 ≤ n) (hmax : n ≤ int64Max) : int64Wrap n = n := by
  simp only [int64Max] at hmax
  rw [int64Wrap, Int.bmod_eq_of_le (by omega) (by omega)]

theorem foldl_payout {payments : List CTxBudgetPayment} {acc : Int} (hacc : 0 ≤ acc)
    (hnonneg : ∀ p ∈ payments, 0 ≤ p.nAmount)
    (hsum : acc + (payments.map CTxBudgetPayment.nAmount).sum ≤ int64Max) :
    payments.foldl (fun ret payment => int64Wrap (ret + payment.nAmount)) acc =
      acc + (payments.map CTxBudgetPayment.nAmount).sum := by
  induction payments generalizing acc with
  | nil => simp
  | cons p payments ih =>
    rw [List.forall_mem_cons] at hnonneg
    have hrest : 0 ≤ (payments.map CTxBudgetPayment.nAmount).sum := by
      apply List.sum_nonneg
      simpa using hnonneg.2
    rw [List.map_cons, List.sum_cons] at hsum ⊢
    rw [List.foldl_cons, int64Wrap_of_range (by omega) (by omega)]
    rw [ih (by omega) hnonneg.2 (by omega), Int.add_assoc]

theorem isValid_eq_ok (h : b.isValid env hash getName fCheckCollateral = .ok ()) :
    b.vecBudgetPayments.length ≤ 100 ∧ b.getTotalPayout ≤ env.getTotalBudget b.nBlockStart := by
  simp only [isValid, bind_eq_ok, failIf_eq_ok, decide_eq_false_iff_not, not_lt] at h
  obtain ⟨-, -, -, -, -, hcount, -, -, -, -, -, -, -, hpayout, -⟩ := h
  exact ⟨hcount, hpayout⟩

theorem accepted_budget_bounded_iff (b : CFinalizedBudget) (env : BudgetEnv) (hash : BudgetHash)
    (getName : UInt256 → Option String) (fCheckCollateral : Bool)
    (hvalid : b.isValid env hash getName fCheckCollateral = .ok ()) :
    ((∀ p ∈ b.vecBudgetPayments,
        0 ≤ p.nAmount ∧ p.nAmount ≤ env.getTotalBudget b.nBlockStart) ∧
      (b.vecBudgetPayments.map CTxBudgetPayment.nAmount).sum ≤ env.getTotalBudget b.nBlockStart ∧
      b.vecBudgetPayments.length ≤ 100) ↔
    (∀ p ∈ b.vecBudgetPayments, 0 ≤ p.nAmount) ∧
      (b.vecBudgetPayments.map CTxBudgetPayment.nAmount).sum ≤ int64Max := by
  obtain ⟨hcount, hpayout⟩ := isValid_eq_ok hvalid
  constructor
  · rintro ⟨hbounds, hsum, -⟩
    exact ⟨fun p hp => (hbounds p hp).1, hsum.trans (env.getTotalBudget_le _)⟩
  · rintro ⟨hnonneg, hfits⟩
    have hsum : (b.vecBudgetPayments.map CTxBudgetPayment.nAmount).sum ≤
        env.getTotalBudget b.nBlockStart := by
      rw [getTotalPayout, foldl_payout le_rfl hnonneg (by omega), Int.zero_add] at hpayout
      exact hpayout
    refine ⟨fun p hp => ⟨hnonneg p hp, ?_⟩, hsum, hcount⟩
    have hterm := List.single_le_sum (l := b.vecBudgetPayments.map CTxBudgetPayment.nAmount)
      (by simpa using hnonneg) p.nAmount (List.mem_map_of_mem hp)
    exact hterm.trans hsum

def mainEnv : BudgetEnv where
  nTipHeight := some 86000

def plainBudget (amounts : List Int) : CFinalizedBudget where
  strBudgetName := "main"
  nBlockStart := 86400
  vecBudgetPayments := amounts.map fun nAmount => ⟨1, [0x51], nAmount⟩
  nFeeTXHash := 1

theorem accepted_budget_bounded_plain :
    ((plainBudget [10 * COIN, 20 * COIN]).vecBudgetPayments.map CTxBudgetPayment.nAmount).sum ≤
      mainEnv.getTotalBudget 86400 := by
  refine ((accepted_budget_bounded_iff (plainBudget [10 * COIN, 20 * COIN]) mainEnv
    (fun _ _ _ => 1) (fun _ => none) true ?_).mpr ⟨by decide, by decide⟩).2.1
  decide +kernel

theorem accepted_budget_overpays :
    (plainBudget [-10000 * COIN, 60000 * COIN]).isValid mainEnv (fun _ _ _ => 1) (fun _ => none)
        true = .ok () ∧
      mainEnv.getTotalBudget 86400 < 60000 * COIN ∧
      (∃ p ∈ (plainBudget [-10000 * COIN, 60000 * COIN]).vecBudgetPayments,
        mainEnv.getTotalBudget 86400 < p.nAmount) := by
  refine ⟨by decide +kernel, by decide, ⟨1, [0x51], 60000 * COIN⟩, by decide, by decide⟩

end CFinalizedBudget

def VOTE_YES : Int := 1

def VOTE_NO : Int := 2

structure CBudgetVote where
  vin : CTxIn
  nProposalHash : UInt256
  nVote : Int
  nTime : Int
  vchSig : List UInt8 := []
  fValid : Bool := true
deriving DecidableEq, Repr

def CBudgetVote.signatureValid (env : BudgetEnv) (vote : CBudgetVote) (fSignatureCheck : Bool) :
    Bool :=
  env.signatureValid vote.vin vote.vchSig
    (vote.vin.prevout.toStringShort ++ vote.nProposalHash.getHex ++ toString vote.nVote ++
      toString vote.nTime)
    fSignatureCheck

structure CBudgetProposal where
  strProposalName : String
  strURL : String
  nBlockStart : Int
  nBlockEnd : Int
  address : CScript
  nAmount : Int
  nFeeTXHash : UInt256
  mapVotes : Std.TreeMap UInt256 CBudgetVote := ∅

-- `CHashWriter` over the name, the address, the span, the payee and the amount of a proposal
abbrev ProposalHash := String → String → Int → Int → Int → CScript → UInt256

namespace CBudgetProposal

variable (p : CBudgetProposal)

def getHash (hash : ProposalHash) : UInt256 :=
  hash p.strProposalName p.strURL p.nBlockStart p.nBlockEnd p.nAmount p.address

def countVotes (nVote : Int) : Int :=
  (p.mapVotes.toList.countP fun kv => kv.2.nVote == nVote && kv.2.fValid : Nat)

def getYeas : Int := p.countVotes VOTE_YES

def getNays : Int := p.countVotes VOTE_NO

def getBlockStartCycle (env : BudgetEnv) : Int :=
  p.nBlockStart - p.nBlockStart.tmod env.getBudgetPaymentCycleBlocks

def getBlockEndCycle : Int := p.nBlockEnd

def getTotalPaymentCount (env : BudgetEnv) : Int :=
  (p.getBlockEndCycle - p.getBlockStartCycle env).tdiv env.getBudgetPaymentCycleBlocks

def checkEnd (env : BudgetEnv) (strProposal : String) : Except String Unit :=
  match env.nTipHeight with
  | none => .ok ()
  | some nHeight =>
    let nProposalEnd := p.nBlockStart + env.getBudgetPaymentCycleBlocks * p.getTotalPaymentCount env
    failIf (decide (nProposalEnd < nHeight))
      (strProposal ++ ": Invalid nBlockEnd (" ++ toString nProposalEnd ++ ") < current height (" ++
        toString nHeight ++ ")")

def isValid (env : BudgetEnv) (hash : ProposalHash) (fCheckCollateral : Bool) :
    Except String Unit := do
  let strProposal := "Proposal " ++ p.strProposalName
  failIf (decide ((env.nCountEnabled / 10 : Nat) < p.getNays - p.getYeas))
    (strProposal ++ ": Active removal")
  failIf (decide (p.nBlockStart < 0)) "Invalid Proposal"
  failIf (decide (p.nBlockEnd < p.nBlockStart))
    (strProposal ++ ": Invalid nBlockEnd (end before start)")
  failIf (decide (p.nAmount < 10 * COIN)) (strProposal ++ ": Invalid nAmount")
  failIf p.address.isEmpty (strProposal ++ ": Invalid Payment Address")
  onlyIf fCheckCollateral
    (failIf (!(env.isBudgetCollateralValid p.nFeeTXHash (p.getHash hash) false).fValid)
      (strProposal ++ ": Invalid collateral"))
  failIf (CScript.isPayToScriptHash p.address)
    (strProposal ++ ": Multisig is not currently supported.")
  failIf (decide (env.getTotalBudget p.nBlockStart < p.nAmount))
    (strProposal ++ ": Payment more than max")
  p.checkEnd env strProposal

end CBudgetProposal

end AnkerNode
