import AnkerNode.Lib.SlotTable
import AnkerNode.Masternode.Masternode
import AnkerNode.Script.Standard
import Mathlib.Data.List.Nodup

namespace AnkerNode

def MIN_PEER_MNANNOUNCE : Int := 70003

structure CMasternodeBroadcast where
  vin : CTxIn
  addr : CService := {}
  pubKeyCollateralAddress : List UInt8
  pubKeyMasternode : List UInt8
  sig : List UInt8 := []
  sigTime : Int
  protocolVersion : Int
  lastPing : CMasternodePing := {}
deriving DecidableEq, Repr

-- Hashes, and the text of an input.
structure AnnounceHashes where
  hash160 : Valtype → Valtype
  broadcast : Int → List UInt8 → UInt256
  ping : CTxIn → Int → UInt256
  vinToString : CTxIn → String

-- What a message makes the node ask of itself. `fLockMainAdd` tells whether `cs_main` was free
-- when the inputs were checked, `confirmTime` is the time of the block that gave a collateral its
-- last needed confirmation, `invalidDoS` the penalty of unacceptable inputs.
structure AnnounceEnv extends CheckEnv where
  fLiteMode : Bool := false
  fBlockchainSynced : Bool := true
  fMainNet : Bool := true
  nMinProtocol : Int := 0
  nHeight : Int := 0
  blockHeight : UInt256 → Option Int := fun _ => none
  getTransaction : UInt256 → Option CTransaction := fun _ => none
  getInputAge : CTxIn → Int := fun _ => 0
  confirmTime : CTxIn → Option Int := fun _ => none
  invalidDoS : CTxIn → Int := fun _ => 0
  fLockMainAdd : Bool := true
  activeMasternode : Option (COutPoint × List UInt8) := none
  verifyMessage : List UInt8 → List UInt8 → String → Bool

def AnnounceEnv.fActive (env : AnnounceEnv) : Bool := !env.fLiteMode && env.fBlockchainSynced

def MasternodeEntry.ofBroadcast (mnb : CMasternodeBroadcast) : MasternodeEntry where
  vin := mnb.vin
  addr := mnb.addr
  pubKeyCollateralAddress := mnb.pubKeyCollateralAddress
  pubKeyMasternode := mnb.pubKeyMasternode
  sig := mnb.sig
  sigTime := mnb.sigTime
  lastPing := mnb.lastPing
  protocolVersion := mnb.protocolVersion

-- `operator=`: what `swap` names is copied, and `lastTimeChecked` stays with the place.
def MasternodeEntry.assign (place mn : MasternodeEntry) : MasternodeEntry :=
  { mn with lastTimeChecked := place.lastTimeChecked }

-- the bytes of a key as characters
def byteString (vch : List UInt8) : String := String.ofList (vch.map fun b => Char.ofNat b.toNat)

-- a 160-bit number, its last byte first
def getHex160 (id : Valtype) : String :=
  String.ofList (id.reverse.flatMap fun b => DigitText.hexText 2 b.toNat)

namespace CMasternodePing

variable (mnp : CMasternodePing) (hashes : AnnounceHashes) (env : AnnounceEnv)

def getHash : UInt256 := hashes.ping mnp.vin mnp.sigTime

def strMessage : String :=
  hashes.vinToString mnp.vin ++ mnp.blockHash.getHex ++ toString mnp.sigTime

def verifySignature (pubKeyMasternode : List UInt8) : Bool :=
  env.verifyMessage pubKeyMasternode mnp.vchSig (mnp.strMessage hashes)

end CMasternodePing

namespace CMasternodeBroadcast

variable (mnb : CMasternodeBroadcast) (hashes : AnnounceHashes) (env : AnnounceEnv)

def getHash : UInt256 := hashes.broadcast mnb.sigTime mnb.pubKeyCollateralAddress

def getOldStrMessage : String :=
  mnb.addr.toString ++ toString mnb.sigTime ++ byteString mnb.pubKeyCollateralAddress ++
    byteString mnb.pubKeyMasternode ++ toString mnb.protocolVersion

def getNewStrMessage : String :=
  mnb.addr.toString ++ toString mnb.sigTime ++
    getHex160 (hashes.hash160 mnb.pubKeyCollateralAddress) ++
    getHex160 (hashes.hash160 mnb.pubKeyMasternode) ++ toString mnb.protocolVersion

def verifySignature : Bool :=
  env.verifyMessage mnb.pubKeyCollateralAddress mnb.sig (mnb.getNewStrMessage hashes) ||
    env.verifyMessage mnb.pubKeyCollateralAddress mnb.sig mnb.getOldStrMessage

def withPing (mnp : CMasternodePing) : CMasternodeBroadcast := { mnb with lastPing := mnp }

def isVinAssociatedWithPubkey : Bool :=
  (env.getTransaction mnb.vin.prevout.hash).any fun tx => tx.vout.any fun out =>
    out.nValue == 4000 * COIN &&
      out.scriptPubKey == getScriptForDestination
        (.CKeyID (hashes.hash160 mnb.pubKeyCollateralAddress))

end CMasternodeBroadcast

def insertNew {α : Type} (m : UInt256 → Option α) (key : UInt256) (a : α) : UInt256 → Option α :=
  fun h => if h = key then (m h).or (some a) else m h

def modifyFirst {α : Type} (p : α → Bool) (f : α → α) : List α → List α
  | [] => []
  | a :: l => if p a then f a :: l else a :: modifyFirst p f l

structure CMasternodeMan where
  vMasternodes : List MasternodeEntry := []
  mapSeenMasternodeBroadcast : UInt256 → Option CMasternodeBroadcast := fun _ => none
  mapSeenMasternodePing : UInt256 → Option CMasternodePing := fun _ => none
  mWeAskedForMasternodeListEntry : COutPoint → Option Int := fun _ => none

namespace CMasternodeMan

variable (m : CMasternodeMan) (hashes : AnnounceHashes) (env : AnnounceEnv)

def find (vin : CTxIn) : Option MasternodeEntry :=
  m.vMasternodes.find? fun mn => mn.vin.prevout == vin.prevout

def update (vin : CTxIn) (f : MasternodeEntry → MasternodeEntry) : CMasternodeMan :=
  { m with
    vMasternodes := modifyFirst (fun mn => mn.vin.prevout == vin.prevout) f m.vMasternodes }

def add (mn : MasternodeEntry) : CMasternodeMan :=
  if !mn.isEnabled then m
  else if (m.find mn.vin).isSome then m
  else { m with vMasternodes := m.vMasternodes ++ [mn] }

def remove (vin : CTxIn) : CMasternodeMan :=
  { m with
    vMasternodes := SlotErase.eraseFirst MasternodeEntry.assign (fun mn => mn.vin == vin)
      m.vMasternodes }

def askForMN (vin : CTxIn) : CMasternodeMan :=
  if (m.mWeAskedForMasternodeListEntry vin.prevout).any fun t => decide (env.nTime < t) then m
  else
    { m with
      mWeAskedForMasternodeListEntry := fun o =>
        if o = vin.prevout then some (env.nTime + MASTERNODE_MIN_MNP_SECONDS)
        else m.mWeAskedForMasternodeListEntry o }

def seeBroadcast (mnb : CMasternodeBroadcast) : CMasternodeMan :=
  { m with
    mapSeenMasternodeBroadcast :=
      insertNew m.mapSeenMasternodeBroadcast (mnb.getHash hashes) mnb }

def forgetBroadcast (mnb : CMasternodeBroadcast) : CMasternodeMan :=
  { m with
    mapSeenMasternodeBroadcast := fun h =>
      if h = mnb.getHash hashes then none else m.mapSeenMasternodeBroadcast h }

def seePing (mnp : CMasternodePing) : CMasternodeMan :=
  { m with mapSeenMasternodePing := insertNew m.mapSeenMasternodePing (mnp.getHash hashes) mnp }

def fInFuture (sigTime : Int) : Bool := decide (env.nAdjustedTime + 60 * 60 < sigTime)

-- `CMasternodePing::CheckAndUpdate` when only the time is checked: the verdict and the penalty
def checkSigTimeOnly (mnp : CMasternodePing) : Bool × Int :=
  if fInFuture env mnp.sigTime then (false, 1)
  else
    match m.find mnp.vin with
    | none => (true, 0)
    | some mn =>
      if mnp.verifySignature hashes env mn.pubKeyMasternode then (true, 0) else (false, 33)

-- the ping becomes the last of its masternode, here and in the broadcast that was seen of it
def takePing (mnp : CMasternodePing) (mn : MasternodeEntry) : CMasternodeMan :=
  let m := m.update mnp.vin fun mn => { mn with lastPing := mnp }
  let hash := hashes.broadcast mn.sigTime mn.pubKeyCollateralAddress
  let m :=
    { m with
      mapSeenMasternodeBroadcast := fun h =>
        (m.mapSeenMasternodeBroadcast h).map fun (mnb : CMasternodeBroadcast) =>
          if h = hash then mnb.withPing mnp else mnb }
  m.update mnp.vin fun mn => mn.check env.toCheckEnv true

-- `CMasternodePing::CheckAndUpdate`: the state, the verdict and the penalty
def pingCheckAndUpdate (mnp : CMasternodePing) (fRequireEnabled : Bool) :
    CMasternodeMan × Bool × Int :=
  if fInFuture env mnp.sigTime then (m, false, 1)
  else
    match m.find mnp.vin with
    | none => (m, false, 0)
    | some mn =>
      if mn.protocolVersion < env.nMinProtocol then (m, false, 0)
      else if fRequireEnabled && !mn.isEnabled then (m, false, 0)
      else if mn.isPingedWithin env.toCheckEnv (MASTERNODE_MIN_MNP_SECONDS - 60) mnp.sigTime then
        (m, false, 0)
      else if !mnp.verifySignature hashes env mn.pubKeyMasternode then (m, false, 33)
      else
        match env.blockHeight mnp.blockHash with
        | none => (m, false, 0)
        | some nHeight =>
          if nHeight < env.nHeight - 24 then (m, false, 0)
          else
            let m := m.takePing hashes env mnp mn
            (m, (m.find mnp.vin).any MasternodeEntry.isEnabled, 0)

-- `UpdateFromNewBroadcast` of a masternode whose broadcast is newer
def updateFromNewBroadcast (mnb : CMasternodeBroadcast) : CMasternodeMan :=
  let m := m.update mnb.vin fun mn =>
    { mn with
      pubKeyMasternode := mnb.pubKeyMasternode
      pubKeyCollateralAddress := mnb.pubKeyCollateralAddress
      sigTime := mnb.sigTime
      sig := mnb.sig
      protocolVersion := mnb.protocolVersion
      addr := mnb.addr
      lastTimeChecked := 0 }
  let pinged :=
    if mnb.lastPing.isNull then (m, true, 0)
    else m.pingCheckAndUpdate hashes env mnb.lastPing false
  if pinged.2.1 then
    (pinged.1.update mnb.vin fun mn => { mn with lastPing := mnb.lastPing }).seePing hashes
      mnb.lastPing
  else pinged.1

def refresh (mnb : CMasternodeBroadcast) (mn : MasternodeEntry) : CMasternodeMan :=
  if mn.pubKeyCollateralAddress = mnb.pubKeyCollateralAddress &&
      !mn.isBroadcastedWithin env.toCheckEnv MASTERNODE_MIN_MNB_SECONDS then
    (m.updateFromNewBroadcast hashes env mnb).update mnb.vin fun mn =>
      mn.check env.toCheckEnv false
  else m

-- `CMasternodeBroadcast::CheckAndUpdate`
def broadcastCheckAndUpdate (mnb : CMasternodeBroadcast) : CMasternodeMan × Bool × Int :=
  if fInFuture env mnb.sigTime then (m, false, 1)
  else if mnb.lastPing.isNull then (m, false, 0)
  else if !(m.checkSigTimeOnly hashes env mnb.lastPing).1 then
    (m, false, (m.checkSigTimeOnly hashes env mnb.lastPing).2)
  else if mnb.protocolVersion < env.nMinProtocol then (m, false, 0)
  else if (getScriptForDestination (.CKeyID (hashes.hash160 mnb.pubKeyCollateralAddress))).length ≠
      25 then (m, false, 100)
  else if (getScriptForDestination (.CKeyID (hashes.hash160 mnb.pubKeyMasternode))).length ≠ 25 then
    (m, false, 100)
  else if mnb.vin.scriptSig ≠ [] then (m, false, 0)
  else if !mnb.verifySignature hashes env then
    (m, false, if mnb.protocolVersion < MIN_PEER_MNANNOUNCE then 0 else 100)
  else if env.fMainNet != (mnb.addr.nPort == 12365) then (m, false, 0)
  else
    match m.find mnb.vin with
    | none => (m, true, 0)
    | some mn =>
      if mnb.sigTime ≤ mn.sigTime then (m, false, 0)
      else if !mn.isEnabled then (m, true, 0)
      else (m.refresh hashes env mnb mn, true, 0)

def addChecked (mnb : CMasternodeBroadcast) : CMasternodeMan × Bool × Int :=
  if !env.fLockMainAdd then (m.forgetBroadcast hashes mnb, false, 0)
  else if !env.acceptableInputs mnb.vin then (m, false, env.invalidDoS mnb.vin)
  else if env.getInputAge mnb.vin < MASTERNODE_MIN_CONFIRMATIONS then
    (m.forgetBroadcast hashes mnb, false, 0)
  else if (env.confirmTime mnb.vin).any fun t => decide (mnb.sigTime < t) then (m, false, 0)
  else (m.add (.ofBroadcast mnb), true, 0)

def isOwn (mnb : CMasternodeBroadcast) : Bool :=
  env.activeMasternode.any fun own =>
    mnb.vin.prevout == own.1 && mnb.pubKeyMasternode == own.2

-- `CMasternodeBroadcast::CheckInputsAndAdd`
def checkInputsAndAdd (mnb : CMasternodeBroadcast) : CMasternodeMan × Bool × Int :=
  if isOwn env mnb then (m, true, 0)
  else if mnb.lastPing.isNull then (m, false, 0)
  else if !(m.checkSigTimeOnly hashes env mnb.lastPing).1 then
    (m, false, (m.checkSigTimeOnly hashes env mnb.lastPing).2)
  else
    match m.find mnb.vin with
    | none => m.addChecked hashes env mnb
    | some mn => if mn.isEnabled then (m, true, 0) else (m.remove mn.vin).addChecked hashes env mnb

-- the state and the misbehaviour of the sender
def processMNB (mnb : CMasternodeBroadcast) : CMasternodeMan × Int :=
  if !env.fActive then (m, 0)
  else if (m.mapSeenMasternodeBroadcast (mnb.getHash hashes)).isSome then (m, 0)
  else
    match (m.seeBroadcast hashes mnb).broadcastCheckAndUpdate hashes env mnb with
    | (m, false, nDoS) => (m, nDoS)
    | (m, true, _) =>
      if !mnb.isVinAssociatedWithPubkey hashes env then (m, 33)
      else
        match m.checkInputsAndAdd hashes env mnb with
        | (m, _, nDoS) => (m, nDoS)

def processMNP (mnp : CMasternodePing) : CMasternodeMan × Int :=
  if !env.fActive then (m, 0)
  else if (m.mapSeenMasternodePing (mnp.getHash hashes)).isSome then (m, 0)
  else
    match (m.seePing hashes mnp).pingCheckAndUpdate hashes env mnp true with
    | (m, true, _) => (m, 0)
    | (m, false, nDoS) =>
      if 0 < nDoS then (m.askForMN env mnp.vin, nDoS)
      else if (m.find mnp.vin).isSome then (m, 0)
      else (m.askForMN env mnp.vin, 0)

def isStale (force : Bool) (mn : MasternodeEntry) : Bool :=
  mn.activeState == .REMOVE || mn.activeState == .VIN_SPENT ||
    (force && mn.activeState == .EXPIRED) || decide (mn.protocolVersion < env.nMinProtocol)

-- Broadcasts of a masternode that goes are forgotten, and so are old broadcasts and pings.
def checkAndRemove (forceExpiredRemoval : Bool) : CMasternodeMan :=
  let checked := m.vMasternodes.map fun mn => mn.check env.toCheckEnv false
  let stale := checked.filter (isStale env forceExpiredRemoval)
  let fOld := fun sigTime : Int => decide (sigTime < env.nTime - MASTERNODE_REMOVAL_SECONDS * 2)
  { vMasternodes := SlotErase.sweep MasternodeEntry.assign (isStale env forceExpiredRemoval)
      checked.length checked
    mapSeenMasternodeBroadcast := fun h =>
      (m.mapSeenMasternodeBroadcast h).filter fun mnb =>
        !(stale.any fun mn => mnb.vin == mn.vin) && !fOld mnb.lastPing.sigTime
    mapSeenMasternodePing := fun h =>
      (m.mapSeenMasternodePing h).filter fun mnp => !fOld mnp.sigTime
    mWeAskedForMasternodeListEntry := fun o =>
      (m.mWeAskedForMasternodeListEntry o).filter fun t =>
        !(stale.any fun mn => o == mn.vin.prevout) && !decide (t < env.nTime) }

end CMasternodeMan

inductive AnnounceMessage
  | mnb (mnb : CMasternodeBroadcast)
  | mnp (mnp : CMasternodePing)

inductive AnnounceStep
  | message (msg : AnnounceMessage)
  | checkAndRemove (forceExpiredRemoval : Bool)

namespace CMasternodeMan

variable (hashes : AnnounceHashes)

def processMessage (m : CMasternodeMan) (env : AnnounceEnv) : AnnounceMessage → CMasternodeMan × Int
  | .mnb mnb => m.processMNB hashes env mnb
  | .mnp mnp => m.processMNP hashes env mnp

def step (m : CMasternodeMan) : AnnounceEnv × AnnounceStep → CMasternodeMan
  | (env, .message msg) => (m.processMessage hashes env msg).1
  | (env, .checkAndRemove force) => m.checkAndRemove env force

def run (m : CMasternodeMan) (steps : List (AnnounceEnv × AnnounceStep)) : CMasternodeMan :=
  steps.foldl (step hashes) m

end CMasternodeMan

end AnkerNode
