import AnkerNode.Lib.Best
import AnkerNode.Primitives.Transaction
import Mathlib.Algebra.Order.Ring.Int
import Mathlib.Tactic.Positivity
import Mathlib.Tactic.Ring
import Std.Data.TreeMap.Lemmas

namespace AnkerNode

def MNPAYMENTS_SIGNATURES_TOTAL : Int := 10

structure CMasternode where
  vin : CTxIn
  pubKeyMasternode : List UInt8
  protocolVersion : Int
deriving DecidableEq, Repr

structure CMasternodePayee where
  scriptPubKey : CScript
  nVotes : Int
deriving DecidableEq, Repr

structure CMasternodeBlockPayees where
  nBlockHeight : Int
  vecPayments : List CMasternodePayee := []
deriving DecidableEq, Repr

namespace CMasternodeBlockPayees

def addPayeeTo (payeeIn : CScript) (nIncrement : Int) : List CMasternodePayee → List CMasternodePayee
  | [] => [⟨payeeIn, nIncrement⟩]
  | payee :: vecPayments =>
    if payee.scriptPubKey = payeeIn then
      { payee with nVotes := payee.nVotes + nIncrement } :: vecPayments
    else payee :: addPayeeTo payeeIn nIncrement vecPayments

def addPayee (payees : CMasternodeBlockPayees) (payeeIn : CScript) (nIncrement : Int) :
    CMasternodeBlockPayees :=
  { payees with vecPayments := addPayeeTo payeeIn nIncrement payees.vecPayments }

def votesIn (payee : CScript) : List CMasternodePayee → Int
  | [] => 0
  | p :: vecPayments => if p.scriptPubKey = payee then p.nVotes else votesIn payee vecPayments

theorem votesIn_addPayeeTo (payee payeeIn : CScript) (nIncrement : Int)
    (vecPayments : List CMasternodePayee) :
    votesIn payee (addPayeeTo payeeIn nIncrement vecPayments) =
      votesIn payee vecPayments + if payeeIn = payee then nIncrement else 0 := by
  induction vecPayments with
  | nil => simp [addPayeeTo, votesIn]
  | cons p vecPayments ih =>
    simp only [addPayeeTo]
    split
    · rename_i heq
      simp only [votesIn, heq]
      split <;> simp
    · rename_i hne
      simp only [votesIn, ih]
      split
      · rename_i heq
        rw [if_neg (fun h => hne (heq.trans h.symm)), Int.add_zero]
      · rfl

end CMasternodeBlockPayees

structure CMasternodePaymentWinner where
  vinMasternode : CTxIn
  nBlockHeight : Int
  payee : CScript
  vchSig : List UInt8 := []
deriving DecidableEq, Repr

structure PaymentsEnv where
  fBlockchainSynced : Bool
  fLiteMode : Bool
  nPeerVersion : Int
  activeProtocol : Int
  nTipHeight : Option Int
  nCountEnabled : Int
  vMasternodes : List CMasternode
  getMasternodeRank : CTxIn → Int → Int → Int
  getBlockHash : Int → Option UInt256
  verifyMessage : List UInt8 → List UInt8 → COutPoint × Int × CScript → Bool

namespace PaymentsEnv

variable (env : PaymentsEnv)

def find (vin : CTxIn) : Option CMasternode :=
  env.vMasternodes.find? fun mn => mn.vin.prevout == vin.prevout

def isValid (winner : CMasternodePaymentWinner) : Bool :=
  match env.find winner.vinMasternode with
  | none => false
  | some pmn =>
    !decide (pmn.protocolVersion < env.activeProtocol) &&
      !decide (MNPAYMENTS_SIGNATURES_TOTAL <
        env.getMasternodeRank winner.vinMasternode (winner.nBlockHeight - 100) env.activeProtocol)

def signatureValid (winner : CMasternodePaymentWinner) : Bool :=
  match env.find winner.vinMasternode with
  | none => false
  | some pmn =>
    env.verifyMessage pmn.pubKeyMasternode winner.vchSig
      (winner.vinMasternode.prevout, winner.nBlockHeight, winner.payee)

-- `nHeight - (CountEnabled() * 1.25)`, cut towards zero as the conversion to `int` does
def nFirstBlock (nHeight : Int) : Int := (4 * nHeight - 5 * env.nCountEnabled).tdiv 4

def inRange (winner : CMasternodePaymentWinner) : Bool :=
  env.nTipHeight.any fun nHeight =>
    decide (env.nFirstBlock nHeight ≤ winner.nBlockHeight) &&
      decide (winner.nBlockHeight ≤ nHeight + 20)

end PaymentsEnv

structure CMasternodePayments where
  mapMasternodePayeeVotes : Std.TreeMap UInt256 CMasternodePaymentWinner := ∅
  mapMasternodeBlocks : Int → Option CMasternodeBlockPayees := fun _ => none
  mapMasternodesLastVote : UInt256 → Option Int := fun _ => none

-- `CHashWriter` over the payee, the height and the outpoint of a winner
abbrev WinnerHash := CScript → Int → COutPoint → UInt256

def CMasternodePaymentWinner.getHash (hash : WinnerHash) (winner : CMasternodePaymentWinner) :
    UInt256 :=
  hash winner.payee winner.nBlockHeight winner.vinMasternode.prevout

namespace CMasternodePayments

def lastVoteKey (outMasternode : COutPoint) : UInt256 :=
  outMasternode.hash + BitVec.ofNat 256 outMasternode.n.toNat

def canVote (s : CMasternodePayments) (outMasternode : COutPoint) (nBlockHeight : Int) :
    CMasternodePayments × Bool :=
  if s.mapMasternodesLastVote (lastVoteKey outMasternode) = some nBlockHeight then (s, false)
  else
    ({ s with
        mapMasternodesLastVote := Function.update s.mapMasternodesLastVote
          (lastVoteKey outMasternode) (some nBlockHeight) }, true)

variable (s : CMasternodePayments) (hash : WinnerHash) (env : PaymentsEnv)
  (winner : CMasternodePaymentWinner)

def addWinningMasternode : CMasternodePayments × Bool :=
  match env.getBlockHash (winner.nBlockHeight - 100) with
  | none => (s, false)
  | some _ =>
    if s.mapMasternodePayeeVotes.contains (winner.getHash hash) then (s, false)
    else
      let blockPayees :=
        (s.mapMasternodeBlocks winner.nBlockHeight).getD { nBlockHeight := winner.nBlockHeight }
      ({ s with
          mapMasternodePayeeVotes :=
            s.mapMasternodePayeeVotes.insert (winner.getHash hash) winner
          mapMasternodeBlocks := Function.update s.mapMasternodeBlocks winner.nBlockHeight
            (some (blockPayees.addPayee winner.payee 1)) }, true)

-- The tests that stand before `CanVote` in the handling of a winner.
def reachesCanVote : Bool :=
  env.fBlockchainSynced && !env.fLiteMode && !decide (env.nPeerVersion < env.activeProtocol) &&
    !s.mapMasternodePayeeVotes.contains (winner.getHash hash) && env.inRange winner &&
    env.isValid winner

-- The flag tells whether the winner was added, and so relayed.
def processMNW : CMasternodePayments × Bool :=
  if !s.reachesCanVote hash env winner then (s, false)
  else
    match s.canVote winner.vinMasternode.prevout winner.nBlockHeight with
    | (s, false) => (s, false)
    | (s, true) =>
      if !env.signatureValid winner then (s, false) else s.addWinningMasternode hash env winner

end CMasternodePayments

-- The first height a row no longer covers, the last one it covers and the reward in hundredths of
-- a coin. Decimal factors of the source are read as exact fractions, cut to an integer where the
-- source converts them to one.
def fullBlockValues : List (Int × Int × Int) :=
  [(0, 400000, 625), (400000, 1451200, 531), (1451200, 2502400, 452), (2502400, 3553600, 384),
    (3553600, 4604800, 326), (4604800, 5656000, 277), (5656000, 6707200, 236),
    (6707200, 7758400, 200), (7758400, 8809600, 170), (8809600, 9860800, 145),
    (9860800, 10912000, 123), (10912000, 11963200, 105), (11963200, 13014400, 89),
    (13014400, 14065600, 76), (14065600, 15116800, 64), (15116800, 16168000, 55),
    (16168000, 17219200, 46), (17219200, 18270400, 39), (18270400, 19321600, 34),
    (19321600, 20372800, 28), (20372800, 21424000, 24), (21424000, 22475200, 21)]

def heightRow (rows : List (Int × Int × Int)) (last : Int) (nHeight : Int) : Int :=
  (rows.find? fun row => decide (row.1 < nHeight) && decide (nHeight ≤ row.2.1)).elim last
    fun row => row.2.2

def getFullBlockValue (nHeight : Int) : Int :=
  if nHeight = 0 then 1228922247 * (COIN / 100)
  else heightRow fullBlockValues 18 nHeight * (COIN / 100)

def getColdstakingPayment (nHeight : Int) : Int := (getFullBlockValue nHeight * 5).tdiv 100

-- `payTime` is set to the time of the construction.
structure CColdStaking where
  pubKeyCollateralAddress : CScript := []
  sigTime : Int := 0
  payTime : Int
deriving DecidableEq, Repr

structure MasternodeRecord extends CMasternode where
  payee : CScript
  sigTime : Int
deriving DecidableEq, Repr

def CMasternodeBlockPayees.getPayee (payees : CMasternodeBlockPayees) : Option CScript :=
  (Best.highest CMasternodePayee.nVotes (-1) payees.vecPayments).1.map CMasternodePayee.scriptPubKey

def CMasternodePayments.getBlockPayee (s : CMasternodePayments) (nBlockHeight : Int) :
    Option CScript :=
  (s.mapMasternodeBlocks nBlockHeight).bind CMasternodeBlockPayees.getPayee

structure SubsidyEnv where
  nTime : Int
  nLastPOWBlock : Int := 500
  vMasternodes : List MasternodeRecord
  isEnabled : MasternodeRecord → Bool
  calculateScore : MasternodeRecord → Int
  masternodePayments : CMasternodePayments := {}
  mapColdStaking : Std.TreeMap UInt256 CColdStaking := ∅

namespace SubsidyEnv

variable (env : SubsidyEnv)

def find (payee : CScript) : Option MasternodeRecord :=
  env.vMasternodes.find? fun mn => mn.payee == payee

def getCurrentMasterNode : Option MasternodeRecord :=
  (Best.highest env.calculateScore 0
    (env.vMasternodes.filter fun mn => !(decide (mn.protocolVersion < 0) || !env.isEnabled mn))).1

def getPayee (nHeight : Int) : Option CScript :=
  match env.masternodePayments.getBlockPayee (nHeight + 1) with
  | some payee => some payee
  | none => env.getCurrentMasterNode.map MasternodeRecord.payee

-- `(int)((GetTime() - sigTime) / 60) * 2`
def nMasternodeActiveHeight (mn : MasternodeRecord) : Int :=
  Int.bmod ((env.nTime - mn.sigTime).tdiv 60) (2 ^ 32) * 2

def threeMonthHeight : Int := 2 * 60 * 24 * 30 * 3

def nMnActiveCount (mn : Option MasternodeRecord) : Int :=
  min ((mn.elim 0 env.nMasternodeActiveHeight).tdiv threeMonthHeight) 5

-- the masternode whose age counts: that of the payee, or of the one that is looked up
def paidNode (nHeight : Int) : Option CScript → Option MasternodeRecord
  | some payee => env.find payee
  | none =>
    match env.masternodePayments.getBlockPayee (nHeight + 1) with
    | none => env.getCurrentMasterNode
    | some cpayee => env.find cpayee

def subsidyAdjustmentPercentage (nHeight : Int) : Int := if 9860800 < nHeight then 70 else 75

def masternodePayment (nHeight nMnActiveCount : Int) : Int :=
  let ret := (getFullBlockValue nHeight * subsidyAdjustmentPercentage nHeight).tdiv 100
  (ret * (100 + 5 * nMnActiveCount)).tdiv 100

def getMasternodePayment (nHeight : Int) (payee : Option CScript) : Int :=
  masternodePayment nHeight (env.nMnActiveCount (env.paidNode nHeight payee))

def stakingPercentage (nHeight : Int) : Int := if 9860800 < nHeight then 15 else 10

def getBlockValue (nHeight : Int) (payee : Option CScript) : Int :=
  if nHeight ≤ env.nLastPOWBlock then getFullBlockValue nHeight
  else
    (stakingPercentage nHeight * getFullBlockValue nHeight +
      100 * (env.getMasternodePayment nHeight payee + getColdstakingPayment nHeight)).tdiv 100

end SubsidyEnv

theorem heightRow_forall {P : Int → Prop} {rows : List (Int × Int × Int)} {last : Int}
    (hlast : P last) (hrows : ∀ row ∈ rows, P row.2.2) (nHeight : Int) :
    P (heightRow rows last nHeight) := by
  simp only [heightRow]
  cases hfind : rows.find? fun row => decide (row.1 < nHeight) && decide (nHeight ≤ row.2.1) with
  | none => exact hlast
  | some row => exact hrows row (List.mem_of_find?_eq_some hfind)

-- Every reward is a whole number of hundredths of a coin, so no percentage is ever cut.
theorem getFullBlockValue_hundredths (nHeight : Int) :
    ∃ n, 0 < n ∧ getFullBlockValue nHeight = n * 1000000 := by
  simp only [getFullBlockValue]
  split
  · exact ⟨1228922247, by decide, rfl⟩
  · refine ⟨heightRow fullBlockValues 18 nHeight, ?_, rfl⟩
    exact heightRow_forall (P := fun n => 0 < n) (by decide) (by decide) nHeight

theorem getColdstakingPayment_nonneg (nHeight : Int) : 0 ≤ getColdstakingPayment nHeight := by
  obtain ⟨n, hn, heq⟩ := getFullBlockValue_hundredths nHeight
  rw [getColdstakingPayment, heq]
  exact Int.tdiv_nonneg (by omega) (by decide)

namespace SubsidyEnv

variable {env : SubsidyEnv}

theorem tdiv_hundred {a b : Int} (h : a = 100 * b) : a.tdiv 100 = b := by
  rw [h, Int.mul_tdiv_cancel_left _ (by decide)]

theorem masternodePayment_eq {nHeight n : Int} (hn : getFullBlockValue nHeight = n * 1000000)
    (nMnActiveCount : Int) : masternodePayment nHeight nMnActiveCount =
      n * (subsidyAdjustmentPercentage nHeight * 100) * (100 + 5 * nMnActiveCount) := by
  have hret : (getFullBlockValue nHeight * subsidyAdjustmentPercentage nHeight).tdiv 100 =
      n * (subsidyAdjustmentPercentage nHeight * 10000) := by
    apply tdiv_hundred
    rw [hn]
    ring
  rw [masternodePayment, hret]
  apply tdiv_hundred
  ring

theorem subsidyAdjustmentPercentage_pos (nHeight : Int) :
    0 < subsidyAdjustmentPercentage nHeight := by
  simp only [subsidyAdjustmentPercentage]
  split <;> decide

theorem masternodePayment_nonneg_iff (nHeight nMnActiveCount : Int) :
    0 ≤ masternodePayment nHeight nMnActiveCount ↔ -20 ≤ nMnActiveCount := by
  obtain ⟨n, hpos, hn⟩ := getFullBlockValue_hundredths nHeight
  have hpct := subsidyAdjustmentPercentage_pos nHeight
  rw [masternodePayment_eq hn, mul_nonneg_iff_of_pos_left (by positivity)]
  omega

def stakingShare (nHeight : Int) : Int :=
  (stakingPercentage nHeight * getFullBlockValue nHeight).tdiv 100

theorem getBlockValue_of_lt {nHeight : Int} (h : env.nLastPOWBlock < nHeight)
    (payee : Option CScript) : env.getBlockValue nHeight payee =
      stakingShare nHeight + env.getMasternodePayment nHeight payee +
        getColdstakingPayment nHeight := by
  obtain ⟨n, -, hn⟩ := getFullBlockValue_hundredths nHeight
  have hshare : stakingShare nHeight = stakingPercentage nHeight * n * 10000 := by
    apply tdiv_hundred
    rw [hn]
    ring
  rw [getBlockValue, if_neg (by omega)]
  apply tdiv_hundred
  rw [hshare, hn]
  ring

theorem getBlockValue_of_le {nHeight : Int} (h : nHeight ≤ env.nLastPOWBlock)
    (payee : Option CScript) : env.getBlockValue nHeight payee = getFullBlockValue nHeight :=
  if_pos h

theorem paidNode_getPayee {nHeight : Int} {payee : CScript}
    (h : env.masternodePayments.getBlockPayee (nHeight + 1) = some payee) :
    env.paidNode nHeight (some payee) = env.paidNode nHeight none := by
  simp [paidNode, h]

end SubsidyEnv

end AnkerNode
