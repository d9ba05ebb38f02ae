import AnkerNode.Masternode.Payments

namespace AnkerNode

def MASTERNODE_MIN_CONFIRMATIONS : Int := 15

def MASTERNODE_MIN_MNP_SECONDS : Int := 10 * 60

def MASTERNODE_MIN_MNB_SECONDS : Int := 5 * 60

def MASTERNODE_EXPIRATION_SECONDS : Int := 120 * 60

def MASTERNODE_REMOVAL_SECONDS : Int := 130 * 60

def MASTERNODE_CHECK_SECONDS : Int := 5

inductive MasternodeState where
  | PRE_ENABLED
  | ENABLED
  | EXPIRED
  | OUTPOINT_SPENT
  | REMOVE
  | WATCHDOG_EXPIRED
  | POSE_BAN
  | VIN_SPENT
  | POS_ERROR
deriving DecidableEq, Repr

structure CService where
  strIP : String := "::"
  nPort : Nat := 0
  fLocal : Bool := false
deriving DecidableEq, Repr

def CService.toString (addr : CService) : String := addr.strIP ++ ":" ++ ToString.toString addr.nPort

structure CMasternodePing where
  vin : CTxIn := CTxIn.null
  blockHash : UInt256 := 0
  sigTime : Int := 0
  vchSig : List UInt8 := []
deriving DecidableEq, Repr

namespace CMasternodePing

variable (mnp : CMasternodePing)

-- `operator==` with a ping that was never made
def isNull : Bool := mnp.vin == CTxIn.null && mnp.blockHash == 0

end CMasternodePing

structure MasternodeEntry extends CMasternode where
  addr : CService := {}
  pubKeyCollateralAddress : List UInt8 := []
  sig : List UInt8 := []
  activeState : MasternodeState := .ENABLED
  sigTime : Int := 0
  lastPing : CMasternodePing := {}
  unitTest : Bool := false
  lastTimeChecked : Int := 0
deriving DecidableEq, Repr

-- What `Check` asks of the node. `acceptableInputs` answers for the transaction that would spend
-- an input, `fLockMain` tells whether `cs_main` was free.
structure CheckEnv where
  nTime : Int
  nAdjustedTime : Int
  fShutdownRequested : Bool := false
  fLockMain : Bool := true
  acceptableInputs : CTxIn → Bool := fun _ => true

namespace MasternodeEntry

variable (mn : MasternodeEntry) (env : CheckEnv)

def isBroadcastedWithin (seconds : Int) : Bool := decide (env.nAdjustedTime - mn.sigTime < seconds)

def isPingedWithin (seconds : Int) (now : Int := -1) : Bool :=
  let now := if now = -1 then env.nAdjustedTime else now
  !mn.lastPing.isNull && decide (now - mn.lastPing.sigTime < seconds)

def isEnabled : Bool := mn.activeState == .ENABLED

-- the state that `Check` ends in, once it is not too early for it
def checkedState : MasternodeState :=
  if mn.activeState = .VIN_SPENT then mn.activeState
  else if !mn.isPingedWithin env MASTERNODE_REMOVAL_SECONDS then .REMOVE
  else if !mn.isPingedWithin env MASTERNODE_EXPIRATION_SECONDS then .EXPIRED
  else if mn.lastPing.sigTime - mn.sigTime < MASTERNODE_MIN_MNP_SECONDS then .PRE_ENABLED
  else if mn.unitTest then .ENABLED
  else if !env.fLockMain then mn.activeState
  else if !env.acceptableInputs mn.vin then .VIN_SPENT
  else .ENABLED

def check (forceCheck : Bool) : MasternodeEntry :=
  if env.fShutdownRequested then mn
  else if !forceCheck && decide (env.nTime - mn.lastTimeChecked < MASTERNODE_CHECK_SECONDS) then mn
  else { mn with lastTimeChecked := env.nTime, activeState := mn.checkedState env }

variable {mn env}

theorem check_eq (mn : MasternodeEntry) (env : CheckEnv) (forceCheck : Bool) :
    ∃ nChecked state, mn.check env forceCheck =
      { mn with lastTimeChecked := nChecked, activeState := state } := by
  rw [check]
  split
  · exact ⟨mn.lastTimeChecked, mn.activeState, rfl⟩
  · split
    · exact ⟨mn.lastTimeChecked, mn.activeState, rfl⟩
    · exact ⟨env.nTime, mn.checkedState env, rfl⟩

@[simp] theorem check_vin (forceCheck : Bool) : (mn.check env forceCheck).vin = mn.vin := by
  obtain ⟨nChecked, state, heq⟩ := check_eq mn env forceCheck
  rw [heq]

@[simp] theorem check_protocolVersion (forceCheck : Bool) :
    (mn.check env forceCheck).protocolVersion = mn.protocolVersion := by
  obtain ⟨nChecked, state, heq⟩ := check_eq mn env forceCheck
  rw [heq]

-- A second check at the same time has nothing to do.
theorem check_check : (mn.check env false).check env false = mn.check env false := by
  cases hshut : env.fShutdownRequested with
  | true => simp [check, hshut]
  | false =>
    cases hearly : decide (env.nTime - mn.lastTimeChecked < MASTERNODE_CHECK_SECONDS) with
    | true => simp [check, hshut, hearly]
    | false =>
      have hnow : decide ((0 : Int) < MASTERNODE_CHECK_SECONDS) = true := by decide
      simp [check, hshut, hearly, hnow]

end MasternodeEntry

end AnkerNode
