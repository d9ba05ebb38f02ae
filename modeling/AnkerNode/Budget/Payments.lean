import AnkerNode.Budget.Manager
import AnkerNode.Lib.Best
import AnkerNode.Lib.WindowLedger

namespace AnkerNode

inductive TrxValidationStatus where
  | Invalid
  | Valid
  | DoublePayment
  | VoteThreshold
deriving DecidableEq, Repr

-- `mapPayment_History`: the height at which a proposal was paid
abbrev PaymentHistory := UInt256 → Option Int

def CTxBudgetPayment.isPaidBy (payment : CTxBudgetPayment) (out : CTxOut) : Bool :=
  payment.payee == out.scriptPubKey && payment.nAmount == out.nValue

namespace CFinalizedBudget

variable (b : CFinalizedBudget)

def inCycle (nPaidBlockHeight : Int) : Bool :=
  !(decide (nPaidBlockHeight < b.nBlockStart) || decide (b.getBlockEnd < nPaidBlockHeight))

def isPaidAlready (hist : PaymentHistory) (nProposalHash : UInt256) (nBlockHeight : Int) :
    PaymentHistory × Bool :=
  let hist : PaymentHistory := fun k => (hist k).filter b.inCycle
  if (hist nProposalHash).isNone then
    (Function.update hist nProposalHash (some nBlockHeight), false)
  else (hist, true)

def checkOutputs (payment : CTxBudgetPayment) (nBlockHeight : Int) :
    PaymentHistory → TrxValidationStatus → List CTxOut → PaymentHistory × TrxValidationStatus
  | hist, status, [] => (hist, status)
  | hist, status, out :: vout =>
    if payment.isPaidBy out then
      match b.isPaidAlready hist payment.nProposalHash nBlockHeight with
      | (hist, true) => (hist, .DoublePayment)
      | (hist, false) => checkOutputs payment nBlockHeight hist .Valid vout
    else checkOutputs payment nBlockHeight hist status vout

def isTransactionValid (hist : PaymentHistory) (vout : List CTxOut) (nBlockHeight : Int) :
    PaymentHistory × TrxValidationStatus :=
  match b.getBudgetPaymentByBlock nBlockHeight with
  | none => (hist, .Invalid)
  | some payment => b.checkOutputs payment nBlockHeight hist .Invalid vout

end CFinalizedBudget

namespace CBudgetManager

variable (env : BudgetEnv) (budget : CBudgetManager)

def finalizedBudgets : List CFinalizedBudget := budget.mapFinalizedBudgets.toList.map Prod.snd

def covering (nBlockHeight : Int) : List CFinalizedBudget :=
  budget.finalizedBudgets.filter fun b => b.covers nBlockHeight

def nHighestCount (start nBlockHeight : Int) : Int :=
  (Best.highest CFinalizedBudget.getVoteCount start (budget.covering nBlockHeight)).2

def isBudgetPaymentBlock (nBlockHeight : Int) : Bool :=
  decide ((env.nCountEnabled / 20 : Nat) < budget.nHighestCount (-1) nBlockHeight)

def highestBudget (nBlockHeight : Int) : Option CFinalizedBudget :=
  (Best.highest CFinalizedBudget.getVoteCount 0 ((budget.covering nBlockHeight).filter fun b =>
    (b.getPayeeAndAmount nBlockHeight).isSome)).1

-- `txNew.vout` after `CBudgetManager::FillBlockPayee`, at a tip of height `nHeight`
def fillBlockPayee (blockValue : Int → Int) (nHeight : Int) (vout : List CTxOut)
    (fProofOfStake : Bool) : List CTxOut :=
  let payment := (budget.highestBudget (nHeight + 1)).bind fun b =>
    b.getPayeeAndAmount (nHeight + 1)
  if fProofOfStake then
    match payment with
    | none => vout
    | some (payee, nAmount) => vout ++ [⟨nAmount, payee⟩]
  else
    let vout := vout.modify 0 fun out => { out with nValue := blockValue nHeight }
    match payment with
    | none => vout
    | some (payee, nAmount) => vout.take 1 ++ [⟨nAmount, payee⟩]

def checkBudgets (nCountThreshold : Int) (vout : List CTxOut) (nBlockHeight : Int) :
    PaymentHistory → TrxValidationStatus → Bool → List CFinalizedBudget →
      PaymentHistory × TrxValidationStatus
  | hist, status, fThreshold, [] => (hist, if fThreshold then status else .VoteThreshold)
  | hist, status, fThreshold, b :: bs =>
    if nCountThreshold < b.getVoteCount then
      if b.covers nBlockHeight then
        match b.isTransactionValid hist vout nBlockHeight with
        | (hist, .Valid) => (hist, .Valid)
        | (hist, status) => checkBudgets nCountThreshold vout nBlockHeight hist status true bs
      else checkBudgets nCountThreshold vout nBlockHeight hist status true bs
    else checkBudgets nCountThreshold vout nBlockHeight hist status fThreshold bs

def nCountThreshold (nBlockHeight : Int) : Int :=
  budget.nHighestCount 0 nBlockHeight - (env.nCountEnabled / 10 : Nat)

def isTransactionValid (hist : PaymentHistory) (vout : List CTxOut) (nBlockHeight : Int) :
    PaymentHistory × TrxValidationStatus :=
  if budget.nHighestCount 0 nBlockHeight < (env.nCountEnabled / 20 : Nat) then (hist, .Invalid)
  else
    checkBudgets (budget.nCountThreshold env nBlockHeight) vout nBlockHeight hist .Invalid false
      budget.finalizedBudgets

end CBudgetManager

namespace CFinalizedBudget

variable {b : CFinalizedBudget} {hist : PaymentHistory} {nBlockHeight : Int}
  {payment : CTxBudgetPayment} {vout : List CTxOut}

theorem covers_iff :
    b.covers nBlockHeight = true ↔ b.nBlockStart ≤ nBlockHeight ∧ nBlockHeight ≤ b.getBlockEnd := by
  simp [covers]

theorem inCycle_of_covers (h : b.covers nBlockHeight = true) : b.inCycle nBlockHeight = true := by
  rw [covers_iff] at h
  simp [inCycle, h.1, h.2]

theorem exists_payment (h : b.covers nBlockHeight = true) :
    ∃ payment, b.getBudgetPaymentByBlock nBlockHeight = some payment := by
  rw [covers_iff, getBlockEnd] at h
  have hlt : (nBlockHeight - b.nBlockStart).toNat < b.vecBudgetPayments.length := by omega
  refine ⟨b.vecBudgetPayments[(nBlockHeight - b.nBlockStart).toNat], ?_⟩
  simp only [getBudgetPaymentByBlock]
  rw [if_neg (by omega), if_neg (by omega), List.getElem?_eq_getElem hlt]

-- the claim a budget has on the payment history when some outputs pay it
def claim (b : CFinalizedBudget) (vout : List CTxOut) (nBlockHeight : Int) :
    Option (WindowLedger.Claim UInt256 Int) :=
  (b.getBudgetPaymentByBlock nBlockHeight).bind fun payment =>
    if vout.countP payment.isPaidBy = 0 then none
    else some ⟨payment.nProposalHash, b.inCycle, decide (vout.countP payment.isPaidBy = 1)⟩

theorem isPaidAlready_eq (c : WindowLedger.Claim UInt256 Int) (hwindow : c.window = b.inCycle) :
    b.isPaidAlready hist c.key nBlockHeight =
      (WindowLedger.enter nBlockHeight hist c, (WindowLedger.keep c hist c.key).isSome) := by
  have hkeep : (fun k => (hist k).filter b.inCycle) = WindowLedger.keep c hist := by
    rw [← hwindow]
    rfl
  have hlookup : (hist c.key).filter b.inCycle = WindowLedger.keep c hist c.key := by
    rw [← hwindow]
    rfl
  simp only [isPaidAlready, hkeep, hlookup, WindowLedger.enter]
  cases WindowLedger.keep c hist c.key with
  | none => rfl
  | some t => rfl

theorem checkOutputs_unmatched {status : TrxValidationStatus}
    (h : vout.countP payment.isPaidBy = 0) :
    b.checkOutputs payment nBlockHeight hist status vout = (hist, status) := by
  induction vout with
  | nil => rfl
  | cons out vout ih =>
    rw [List.countP_cons] at h
    rw [checkOutputs, if_neg (by intro hpaid; simp [hpaid] at h)]
    exact ih (by omega)

-- Once the proposal is recorded, one more output that pays it is a double payment.
theorem checkOutputs_recorded {c : WindowLedger.Claim UInt256 Int} {status : TrxValidationStatus}
    (hkey : c.key = payment.nProposalHash) (hwindow : c.window = b.inCycle)
    (hsome : (WindowLedger.keep c hist c.key).isSome = true) (hkeep : WindowLedger.keep c hist = hist)
    (h : vout.countP payment.isPaidBy ≠ 0) :
    b.checkOutputs payment nBlockHeight hist status vout = (hist, .DoublePayment) := by
  induction vout with
  | nil => simp at h
  | cons out vout ih =>
    rw [checkOutputs]
    split
    · rw [← hkey, isPaidAlready_eq c hwindow, hsome, WindowLedger.enter_of_recorded hsome, hkeep]
    · rename_i hpaid
      rw [List.countP_cons, if_neg hpaid] at h
      exact ih h

theorem checkOutputs_eq {c : WindowLedger.Claim UInt256 Int} {status : TrxValidationStatus}
    (hkey : c.key = payment.nProposalHash) (hwindow : c.window = b.inCycle)
    (honce : c.once = decide (vout.countP payment.isPaidBy = 1)) (hnow : c.window nBlockHeight = true)
    (h : vout.countP payment.isPaidBy ≠ 0) :
    b.checkOutputs payment nBlockHeight hist status vout =
      (WindowLedger.enter nBlockHeight hist c,
        if WindowLedger.accepts hist c then .Valid else .DoublePayment) := by
  induction vout with
  | nil => simp at h
  | cons out vout ih =>
    rw [checkOutputs]
    split
    · rename_i hpaid
      rw [List.countP_cons_of_pos hpaid] at honce
      rw [← hkey, isPaidAlready_eq c hwindow]
      cases hlookup : WindowLedger.keep c hist c.key with
      | some t => simp [WindowLedger.accepts, hlookup]
      | none =>
        simp only [Option.isSome_none]
        by_cases hrest : vout.countP payment.isPaidBy = 0
        · rw [checkOutputs_unmatched hrest]
          simp [WindowLedger.accepts, hlookup, honce, hrest]
        · have hself : WindowLedger.keep c (WindowLedger.enter nBlockHeight hist c) =
              WindowLedger.enter nBlockHeight hist c := WindowLedger.keep_enter hnow
          obtain ⟨t, ht⟩ := WindowLedger.enter_self nBlockHeight hist c
          rw [checkOutputs_recorded hkey hwindow (by rw [hself, ht]; rfl) hself hrest]
          have honce' : c.once = false := by
            rw [honce, decide_eq_false_iff_not]
            omega
          simp [WindowLedger.accepts, honce']
    · rename_i hpaid
      rw [List.countP_cons_of_neg hpaid] at honce h
      exact ih honce h

-- What one finalized budget says of the outputs, read as a claim on the payment history.
theorem isTransactionValid_eq (hcovers : b.covers nBlockHeight = true) :
    b.isTransactionValid hist vout nBlockHeight =
      match b.claim vout nBlockHeight with
      | none => (hist, .Invalid)
      | some c =>
        (WindowLedger.enter nBlockHeight hist c,
          if WindowLedger.accepts hist c then .Valid else .DoublePayment) := by
  obtain ⟨payment, hpayment⟩ := exists_payment hcovers
  simp only [isTransactionValid, claim, hpayment, Option.bind_some]
  by_cases hcount : vout.countP payment.isPaidBy = 0
  · rw [if_pos hcount, checkOutputs_unmatched hcount]
  · rw [if_neg hcount]
    exact checkOutputs_eq rfl rfl rfl (inCycle_of_covers hcovers) hcount

theorem claim_of_payment (hpayment : b.getBudgetPaymentByBlock nBlockHeight = some payment)
    (hcount : vout.countP payment.isPaidBy ≠ 0) :
    b.claim vout nBlockHeight = some ⟨payment.nProposalHash, b.inCycle,
      decide (vout.countP payment.isPaidBy = 1)⟩ := by
  simp only [claim, hpayment, Option.bind_some, if_neg hcount]

theorem claim_eq_some {c : WindowLedger.Claim UInt256 Int}
    (h : b.claim vout nBlockHeight = some c) :
    ∃ payment, b.getBudgetPaymentByBlock nBlockHeight = some payment ∧
      vout.countP payment.isPaidBy ≠ 0 ∧
      c = ⟨payment.nProposalHash, b.inCycle, decide (vout.countP payment.isPaidBy = 1)⟩ := by
  simp only [claim, Option.bind_eq_some_iff] at h
  obtain ⟨payment, hpayment, hclaim⟩ := h
  split at hclaim
  · simp at hclaim
  · rename_i hcount
    exact ⟨payment, hpayment, hcount, (Option.some.inj hclaim).symm⟩

theorem claim_window (hcovers : b.covers nBlockHeight = true)
    {c : WindowLedger.Claim UInt256 Int} (h : b.claim vout nBlockHeight = some c) :
    c.window nBlockHeight = true := by
  obtain ⟨payment, -, -, rfl⟩ := claim_eq_some h
  exact inCycle_of_covers hcovers

end CFinalizedBudget

namespace CBudgetManager

variable {env : BudgetEnv} {budget : CBudgetManager} {hist : PaymentHistory} {nBlockHeight : Int}
  {vout : List CTxOut}

-- the budgets that may be paid at a height
def eligible (nCountThreshold nBlockHeight : Int) (bs : List CFinalizedBudget) :
    List CFinalizedBudget :=
  bs.filter fun b => decide (nCountThreshold < b.getVoteCount) && b.covers nBlockHeight

def claims (nCountThreshold : Int) (vout : List CTxOut) (nBlockHeight : Int)
    (bs : List CFinalizedBudget) : List (WindowLedger.Claim UInt256 Int) :=
  (eligible nCountThreshold nBlockHeight bs).filterMap fun b => b.claim vout nBlockHeight

-- The status when no budget is found to be paid: it does not depend on the history.
def refusal (nCountThreshold : Int) (vout : List CTxOut) (nBlockHeight : Int) :
    TrxValidationStatus → Bool → List CFinalizedBudget → TrxValidationStatus
  | status, fThreshold, [] => if fThreshold then status else .VoteThreshold
  | status, fThreshold, b :: bs =>
    if nCountThreshold < b.getVoteCount then
      if b.covers nBlockHeight then
        refusal nCountThreshold vout nBlockHeight
          (if (b.claim vout nBlockHeight).isSome then .DoublePayment else .Invalid) true bs
      else refusal nCountThreshold vout nBlockHeight status true bs
    else refusal nCountThreshold vout nBlockHeight status fThreshold bs

theorem checkBudgets_eq (nCountThreshold : Int) (status : TrxValidationStatus) (fThreshold : Bool)
    (bs : List CFinalizedBudget) :
    checkBudgets nCountThreshold vout nBlockHeight hist status fThreshold bs =
      ((WindowLedger.walk nBlockHeight hist (claims nCountThreshold vout nBlockHeight bs)).1,
        if (WindowLedger.walk nBlockHeight hist (claims nCountThreshold vout nBlockHeight bs)).2
        then .Valid
        else refusal nCountThreshold vout nBlockHeight status fThreshold bs) := by
  induction bs generalizing hist status fThreshold with
  | nil => rfl
  | cons b bs ih =>
    by_cases hthreshold : nCountThreshold < b.getVoteCount
    · cases hcovers : b.covers nBlockHeight with
      | false =>
        have hclaims : claims nCountThreshold vout nBlockHeight (b :: bs) =
            claims nCountThreshold vout nBlockHeight bs := by simp [claims, eligible, hcovers]
        simp only [checkBudgets, refusal, if_pos hthreshold, hcovers, Bool.false_eq_true, if_false,
          ih, hclaims]
      | true =>
        simp only [checkBudgets, refusal, if_pos hthreshold, hcovers, if_true,
          CFinalizedBudget.isTransactionValid_eq hcovers]
        cases hclaim : b.claim vout nBlockHeight with
        | none =>
          have hclaims : claims nCountThreshold vout nBlockHeight (b :: bs) =
              claims nCountThreshold vout nBlockHeight bs := by
            simp [claims, eligible, hcovers, hthreshold, hclaim]
          simp [ih, hclaims]
        | some c =>
          have hclaims : claims nCountThreshold vout nBlockHeight (b :: bs) =
              c :: claims nCountThreshold vout nBlockHeight bs := by
            simp [claims, eligible, hcovers, hthreshold, hclaim]
          rw [hclaims, WindowLedger.walk]
          by_cases haccepts : WindowLedger.accepts hist c = true
          · simp only [haccepts, if_true]
          · simp only [if_neg haccepts, ih, Option.isSome_some, if_true]
    · have hclaims : claims nCountThreshold vout nBlockHeight (b :: bs) =
          claims nCountThreshold vout nBlockHeight bs := by simp [claims, eligible, hthreshold]
      simp only [checkBudgets, refusal, if_neg hthreshold, ih, hclaims]

theorem nFivePercent_lt (hblock : budget.isBudgetPaymentBlock env nBlockHeight = true) :
    ((env.nCountEnabled / 20 : Nat) : Int) < budget.nHighestCount 0 nBlockHeight := by
  rw [isBudgetPaymentBlock, decide_eq_true_eq, nHighestCount] at hblock
  rw [nHighestCount]
  generalize hr : Best.highest CFinalizedBudget.getVoteCount (-1) (budget.covering nBlockHeight) = r
    at hblock
  cases hr ▸ Best.highest_spec CFinalizedBudget.getVoteCount (-1) (budget.covering nBlockHeight) with
  | none h => exact absurd hblock (by simp only [not_lt]; omega)
  | found before m after heq hfloor hbefore hafter =>
    have hm : m ∈ budget.covering nBlockHeight := by rw [heq]; simp
    have hpos : (0 : Int) < m.getVoteCount := lt_of_le_of_lt (by omega) hblock
    obtain ⟨m', -, hm', hle⟩ := Best.exists_highest hm hpos
    rw [hm']
    exact lt_of_lt_of_le hblock hle

theorem isTransactionValid_eq (hblock : budget.isBudgetPaymentBlock env nBlockHeight = true) :
    budget.isTransactionValid env hist vout nBlockHeight =
      ((WindowLedger.walk nBlockHeight hist (claims (budget.nCountThreshold env nBlockHeight) vout
          nBlockHeight budget.finalizedBudgets)).1,
        if (WindowLedger.walk nBlockHeight hist (claims (budget.nCountThreshold env nBlockHeight)
          vout nBlockHeight budget.finalizedBudgets)).2 then .Valid
        else refusal (budget.nCountThreshold env nBlockHeight) vout nBlockHeight .Invalid false
          budget.finalizedBudgets) := by
  rw [isTransactionValid, if_neg (not_lt.mpr (nFivePercent_lt hblock).le), checkBudgets_eq]

theorem refusal_ne_valid {nCountThreshold : Int} {bs : List CFinalizedBudget} (fThreshold : Bool)
    {status : TrxValidationStatus} (h : status ≠ .Valid) :
    refusal nCountThreshold vout nBlockHeight status fThreshold bs ≠ .Valid := by
  induction bs generalizing status fThreshold with
  | nil =>
    rw [refusal]
    split
    · exact h
    · simp
  | cons b bs ih =>
    rw [refusal]
    split
    · split
      · apply ih
        split <;> simp
      · exact ih true h
    · exact ih fThreshold h

theorem refusal_eq (nCountThreshold : Int) (status : TrxValidationStatus) (fThreshold : Bool)
    (bs : List CFinalizedBudget) :
    refusal nCountThreshold vout nBlockHeight status fThreshold bs =
      if (bs.any fun b => decide (nCountThreshold < b.getVoteCount)) || fThreshold then
        (eligible nCountThreshold nBlockHeight bs).getLast?.elim status fun b =>
          if (b.claim vout nBlockHeight).isSome then .DoublePayment else .Invalid
      else .VoteThreshold := by
  induction bs generalizing status fThreshold with
  | nil => rfl
  | cons b bs ih =>
    rw [refusal]
    split
    · rename_i hthreshold
      split
      · rename_i hcovers
        have heligible : eligible nCountThreshold nBlockHeight (b :: bs) =
            b :: eligible nCountThreshold nBlockHeight bs := by
          simp [eligible, hthreshold, hcovers]
        rw [ih, heligible, List.getLast?_cons]
        cases (eligible nCountThreshold nBlockHeight bs).getLast? with
        | none => simp [hthreshold]
        | some last => simp [hthreshold]
      · rename_i hcovers
        have heligible : eligible nCountThreshold nBlockHeight (b :: bs) =
            eligible nCountThreshold nBlockHeight bs := by simp [eligible, hcovers]
        rw [ih, heligible]
        simp [hthreshold]
    · rename_i hthreshold
      have heligible : eligible nCountThreshold nBlockHeight (b :: bs) =
          eligible nCountThreshold nBlockHeight bs := by simp [eligible, hthreshold]
      rw [ih, heligible]
      simp [hthreshold]

theorem isTransactionValid_iff (hblock : budget.isBudgetPaymentBlock env nBlockHeight = true) :
    (budget.isTransactionValid env hist vout nBlockHeight).2 = .Valid ↔
      (WindowLedger.walk nBlockHeight hist (claims (budget.nCountThreshold env nBlockHeight) vout
        nBlockHeight budget.finalizedBudgets)).2 = true := by
  rw [isTransactionValid_eq hblock]
  dsimp only
  split
  · rename_i h
    exact iff_of_true rfl h
  · rename_i h
    exact iff_of_false (refusal_ne_valid false (by simp)) h

theorem mem_eligible {nCountThreshold : Int} {bs : List CFinalizedBudget} {b : CFinalizedBudget} :
    b ∈ eligible nCountThreshold nBlockHeight bs ↔
      b ∈ bs ∧ nCountThreshold < b.getVoteCount ∧ b.covers nBlockHeight = true := by
  simp [eligible]

theorem claims_window {nCountThreshold : Int} {bs : List CFinalizedBudget} :
    ∀ c ∈ claims nCountThreshold vout nBlockHeight bs, c.window nBlockHeight = true := by
  intro c hc
  obtain ⟨b, hb, hclaim⟩ := List.mem_filterMap.mp hc
  exact CFinalizedBudget.claim_window (mem_eligible.mp hb).2.2 hclaim

theorem mem_covering {b : CFinalizedBudget} :
    b ∈ budget.covering nBlockHeight ↔
      b ∈ budget.finalizedBudgets ∧ b.covers nBlockHeight = true := by
  simp [covering]

theorem exists_highestBudget (hblock : budget.isBudgetPaymentBlock env nBlockHeight = true) :
    ∃ b payment, budget.highestBudget nBlockHeight = some b ∧ b ∈ budget.covering nBlockHeight ∧
      budget.nHighestCount 0 nBlockHeight = b.getVoteCount ∧
      b.getBudgetPaymentByBlock nBlockHeight = some payment := by
  have hfilter : ((budget.covering nBlockHeight).filter fun b =>
      (b.getPayeeAndAmount nBlockHeight).isSome) = budget.covering nBlockHeight := by
    rw [List.filter_eq_self]
    intro b hb
    obtain ⟨payment, hpayment⟩ := CFinalizedBudget.exists_payment (mem_covering.mp hb).2
    simp [CFinalizedBudget.getPayeeAndAmount, hpayment]
  have hpos : (0 : Int) < budget.nHighestCount 0 nBlockHeight :=
    lt_of_le_of_lt (by omega) (nFivePercent_lt hblock)
  rw [highestBudget, hfilter]
  rw [nHighestCount] at hpos ⊢
  generalize hr : Best.highest CFinalizedBudget.getVoteCount 0 (budget.covering nBlockHeight) = r
    at hpos ⊢
  cases hr ▸ Best.highest_spec CFinalizedBudget.getVoteCount 0 (budget.covering nBlockHeight) with
  | none h => exact absurd hpos (by simp)
  | found before m after heq hfloor hbefore hafter =>
    have hm : m ∈ budget.covering nBlockHeight := by rw [heq]; simp
    obtain ⟨payment, hpayment⟩ := CFinalizedBudget.exists_payment (mem_covering.mp hm).2
    exact ⟨m, payment, rfl, hm, rfl, hpayment⟩

-- the outputs that `FillBlockPayee` keeps
def carried (blockValue : Int → Int) (nHeight : Int) (vout : List CTxOut) (fProofOfStake : Bool) :
    List CTxOut :=
  if fProofOfStake then vout
  else (vout.modify 0 fun out => { out with nValue := blockValue nHeight }).take 1

theorem fillBlockPayee_eq {b : CFinalizedBudget} {payment : CTxBudgetPayment}
    (hb : budget.highestBudget nBlockHeight = some b)
    (hpayment : b.getBudgetPaymentByBlock nBlockHeight = some payment) (blockValue : Int → Int)
    (fProofOfStake : Bool) :
    budget.fillBlockPayee blockValue (nBlockHeight - 1) vout fProofOfStake =
      carried blockValue (nBlockHeight - 1) vout fProofOfStake ++
        [⟨payment.nAmount, payment.payee⟩] := by
  have hpayee : b.getPayeeAndAmount nBlockHeight = some (payment.payee, payment.nAmount) := by
    rw [CFinalizedBudget.getPayeeAndAmount, hpayment]
    rfl
  rw [fillBlockPayee, Int.sub_add_cancel, hb, Option.bind_some, hpayee, carried]
  cases fProofOfStake with
  | true => rfl
  | false => rfl

-- Of the budgets that may be paid, the first one for the proposal whose payment is among the
-- outputs finds it there once.
def PaidOnce (env : BudgetEnv) (budget : CBudgetManager) (nBlockHeight : Int) (vout : List CTxOut)
    (nProposalHash : UInt256) : Prop :=
  ∃ before b after payment,
    eligible (budget.nCountThreshold env nBlockHeight) nBlockHeight budget.finalizedBudgets =
      before ++ b :: after ∧
    b.getBudgetPaymentByBlock nBlockHeight = some payment ∧
    payment.nProposalHash = nProposalHash ∧ vout.countP payment.isPaidBy = 1 ∧
    ∀ d ∈ before, ∀ q, d.getBudgetPaymentByBlock nBlockHeight = some q →
      q.nProposalHash = nProposalHash → vout.countP q.isPaidBy = 0

def claimsFor (env : BudgetEnv) (budget : CBudgetManager) (nBlockHeight : Int)
    (vout : List CTxOut) : List (WindowLedger.Claim UInt256 Int) :=
  claims (budget.nCountThreshold env nBlockHeight) vout nBlockHeight budget.finalizedBudgets

theorem ten_le_of_eligible {b : CFinalizedBudget}
    (hb : b ∈ eligible (budget.nCountThreshold env nBlockHeight) nBlockHeight
      budget.finalizedBudgets)
    (hblock : budget.isBudgetPaymentBlock env nBlockHeight = true) : 10 ≤ env.nCountEnabled := by
  rw [mem_eligible, nCountThreshold] at hb
  obtain ⟨hmem, hcount, hcovers⟩ := hb
  have hle : b.getVoteCount ≤ budget.nHighestCount 0 nBlockHeight := by
    by_cases hpos : 0 < b.getVoteCount
    · obtain ⟨m, -, hm, hle⟩ := Best.exists_highest (mem_covering.mpr ⟨hmem, hcovers⟩) hpos
      rw [nHighestCount, hm]
      exact hle
    · have := nFivePercent_lt hblock
      omega
  omega

-- what `PaidOnce` says of the budgets before the first one, as a fact about their claims
theorem claims_before {before : List CFinalizedBudget} {nProposalHash : UInt256}
    (h : ∀ d ∈ before, ∀ q, d.getBudgetPaymentByBlock nBlockHeight = some q →
      q.nProposalHash = nProposalHash → vout.countP q.isPaidBy = 0) :
    ∀ c ∈ before.filterMap (fun b => b.claim vout nBlockHeight), c.key ≠ nProposalHash := by
  intro c hc hkey
  obtain ⟨d, hd, hdclaim⟩ := List.mem_filterMap.mp hc
  obtain ⟨q, hq, hcount, rfl⟩ := CFinalizedBudget.claim_eq_some hdclaim
  exact hcount (h d hd q hq hkey)

theorem exists_first_claim (env : BudgetEnv) (budget : CBudgetManager) (nBlockHeight : Int)
    (vout : List CTxOut) (nProposalHash : UInt256) :
    (∀ c ∈ claimsFor env budget nBlockHeight vout, c.key ≠ nProposalHash) ∨
      ∃ before b after payment,
        eligible (budget.nCountThreshold env nBlockHeight) nBlockHeight budget.finalizedBudgets =
          before ++ b :: after ∧
        b.getBudgetPaymentByBlock nBlockHeight = some payment ∧
        payment.nProposalHash = nProposalHash ∧ vout.countP payment.isPaidBy ≠ 0 ∧
        ∀ d ∈ before, ∀ q, d.getBudgetPaymentByBlock nBlockHeight = some q →
          q.nProposalHash = nProposalHash → vout.countP q.isPaidBy = 0 := by
  cases hfind : (eligible (budget.nCountThreshold env nBlockHeight) nBlockHeight
      budget.finalizedBudgets).find? fun b =>
        (b.claim vout nBlockHeight).any fun c => c.key == nProposalHash with
  | none =>
    left
    rw [List.find?_eq_none] at hfind
    intro c hc hkey
    obtain ⟨b, hb, hclaim⟩ := List.mem_filterMap.mp hc
    exact hfind b hb (by simp [hclaim, hkey])
  | some b =>
    right
    obtain ⟨hb, before, after, hsplit, hbefore⟩ := List.find?_eq_some_iff_append.mp hfind
    rw [Option.any_eq_true] at hb
    obtain ⟨c, hclaim, hkey⟩ := hb
    rw [beq_iff_eq] at hkey
    obtain ⟨payment, hpayment, hcount, rfl⟩ := CFinalizedBudget.claim_eq_some hclaim
    refine ⟨before, b, after, payment, hsplit, hpayment, hkey, hcount, ?_⟩
    intro d hd q hq hqkey
    have hno := hbefore d hd
    by_contra hpaid
    rw [CFinalizedBudget.claim_of_payment hq hpaid] at hno
    simp [hqkey] at hno

theorem walk_of_paidOnce {nProposalHash : UInt256}
    (h : PaidOnce env budget nBlockHeight vout nProposalHash) (hhist : hist nProposalHash = none) :
    (WindowLedger.walk nBlockHeight hist (claimsFor env budget nBlockHeight vout)).2 = true := by
  obtain ⟨before, b, after, payment, hsplit, hpayment, rfl, honce, hbefore⟩ := h
  have hclaim := CFinalizedBudget.claim_of_payment hpayment (by rw [honce]; simp)
  simp only [claimsFor, claims, hsplit, List.filterMap_append, List.filterMap_cons, hclaim]
  exact WindowLedger.walk_of_first hhist rfl (by simpa using honce) (claims_before hbefore)

theorem paidOnce_of_walk {nProposalHash : UInt256}
    (h : (WindowLedger.walk nBlockHeight (WindowLedger.openAt nBlockHeight nProposalHash none)
      (claimsFor env budget nBlockHeight vout)).2 = true) :
    PaidOnce env budget nBlockHeight vout nProposalHash := by
  have hnow : ∀ c ∈ claimsFor env budget nBlockHeight vout, c.window nBlockHeight = true :=
    claims_window
  rcases exists_first_claim env budget nBlockHeight vout nProposalHash with
    habsent | ⟨before, b, after, payment, hsplit, hpayment, hkey, hcount, hbefore⟩
  · rw [WindowLedger.walk_absent hnow habsent] at h
    simp at h
  · refine ⟨before, b, after, payment, hsplit, hpayment, hkey, ?_, hbefore⟩
    by_contra hmore
    have hclaim := CFinalizedBudget.claim_of_payment hpayment hcount
    have hclaims : claimsFor env budget nBlockHeight vout =
        before.filterMap (fun b => b.claim vout nBlockHeight) ++
          ⟨payment.nProposalHash, b.inCycle, decide (vout.countP payment.isPaidBy = 1)⟩ ::
            after.filterMap (fun b => b.claim vout nBlockHeight) := by
      simp only [claimsFor, claims, hsplit, List.filterMap_append, List.filterMap_cons, hclaim]
    rw [hclaims] at h hnow
    rw [WindowLedger.walk_of_first_repeated hnow hkey (by simpa using hmore)
      (claims_before hbefore)] at h
    simp at h

theorem filled_budget_valid_iff (env : BudgetEnv) (budget : CBudgetManager) (nBlockHeight : Int)
    (blockValue : Int → Int) (vout : List CTxOut) (fProofOfStake : Bool)
    (hblock : budget.isBudgetPaymentBlock env nBlockHeight = true) :
    (∀ hist : PaymentHistory,
      (∀ b payment, budget.highestBudget nBlockHeight = some b →
        b.getBudgetPaymentByBlock nBlockHeight = some payment →
          hist payment.nProposalHash = none) →
      (budget.isTransactionValid env hist
        (budget.fillBlockPayee blockValue (nBlockHeight - 1) vout fProofOfStake)
        nBlockHeight).2 = .Valid) ↔
    10 ≤ env.nCountEnabled ∧
      ∀ b payment, budget.highestBudget nBlockHeight = some b →
        b.getBudgetPaymentByBlock nBlockHeight = some payment →
          PaidOnce env budget nBlockHeight
            (carried blockValue (nBlockHeight - 1) vout fProofOfStake ++
              [⟨payment.nAmount, payment.payee⟩])
            payment.nProposalHash := by
  obtain ⟨b, payment, hb, -, -, hpayment⟩ := exists_highestBudget hblock
  simp only [isTransactionValid_iff hblock, fillBlockPayee_eq hb hpayment]
  constructor
  · intro hall
    have hpaid := paidOnce_of_walk (hall
      (WindowLedger.openAt nBlockHeight payment.nProposalHash none) (by
        intro b' payment' hb' hpayment'
        obtain rfl : b = b' := Option.some.inj (hb.symm.trans hb')
        obtain rfl : payment = payment' := Option.some.inj (hpayment.symm.trans hpayment')
        exact WindowLedger.openAt_self none))
    constructor
    · obtain ⟨before, b', after, -, hsplit, -⟩ := hpaid
      exact ten_le_of_eligible (b := b') (by rw [hsplit]; simp) hblock
    · intro b' payment' hb' hpayment'
      obtain rfl : b = b' := Option.some.inj (hb.symm.trans hb')
      obtain rfl : payment = payment' := Option.some.inj (hpayment.symm.trans hpayment')
      exact hpaid
  · rintro ⟨-, hpaid⟩ hist hhist
    exact walk_of_paidOnce (hpaid b payment hb hpayment) (hhist b payment hb hpayment)

def votedBudget : CFinalizedBudget :=
  { CFinalizedBudget.plainBudget [10 * COIN] with
    mapVotes := (∅ : Std.TreeMap UInt256 CFinalizedBudgetVote).insert 1
      ⟨⟨⟨1, 0⟩, [], 0⟩, 7, 0, [], true⟩ }

def votedManager : CBudgetManager where
  finalized := { mapItems := (∅ : Std.TreeMap UInt256 CFinalizedBudget).insert 7 votedBudget }

def countEnv (nCountEnabled : Nat) : BudgetEnv where
  nTipHeight := some 86399
  nCountEnabled := nCountEnabled

theorem filled_budget_valid_ten :
    (votedManager.isTransactionValid (countEnv 10) (fun _ => none)
      (votedManager.fillBlockPayee (fun _ => 0) (86400 - 1) [⟨0, []⟩] true) 86400).2 = .Valid := by
  refine (filled_budget_valid_iff (countEnv 10) votedManager 86400 (fun _ => 0) [⟨0, []⟩] true
    (by decide +kernel)).mpr ⟨by decide, ?_⟩ (fun _ => none) (fun _ _ _ _ => rfl)
  intro b payment hb hpayment
  obtain rfl : votedBudget = b := Option.some.inj hb
  obtain rfl : ⟨1, [0x51], 10 * COIN⟩ = payment := Option.some.inj hpayment
  refine ⟨[], votedBudget, [], ⟨1, [0x51], 10 * COIN⟩, rfl, rfl, rfl, by decide, by simp⟩

theorem filled_budget_refused :
    votedManager.isBudgetPaymentBlock (countEnv 9) 86400 = true ∧
      (votedManager.isTransactionValid (countEnv 9) (fun _ => none)
        (votedManager.fillBlockPayee (fun _ => 0) (86400 - 1) [⟨0, []⟩] true) 86400).2 =
          .VoteThreshold := by
  refine ⟨by decide +kernel, by decide +kernel⟩

end CBudgetManager

end AnkerNode
