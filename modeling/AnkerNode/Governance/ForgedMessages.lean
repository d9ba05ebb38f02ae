import AnkerNode.Budget.ForgedVotes
import AnkerNode.Budget.VoteDelivery
import AnkerNode.Masternode.ForgedAnnouncements

namespace AnkerNode

-- a signature is right when it is the key
def keySigns (key sig : List UInt8) (_ : String) : Bool := sig == key

def shortHashes : AnnounceHashes where
  hash160 vch := List.replicate 20 (vch.headD 0)
  broadcast sigTime _ := BitVec.ofNat 256 sigTime.toNat
  ping _ sigTime := BitVec.ofNat 256 sigTime.toNat
  vinToString _ := "vin"

namespace CBudgetManager

def signedEnv : BudgetEnv :=
  { votersEnv [1] with vMasternodes := [⟨⟨⟨1, 0⟩, [], 0⟩, [7], 0⟩], verifyMessage := keySigns }

def voteSigned (vchSig : List UInt8) : CBudgetVote :=
  ⟨⟨⟨1, 0⟩, [], 0⟩, 8, VOTE_YES, 0, vchSig, true⟩

def proposed : CBudgetManager :=
  run firstHash {} [(signedEnv, .message (.mprop plainProposal))]

def yeasAfter (budget : CBudgetManager) : Option Int :=
  ((budget.processMessage firstHash signedEnv (.mvote (voteSigned [7]))).proposals.mapItems[
    (8 : UInt256)]?).map CBudgetProposal.getYeas

def liteEnv : BudgetEnv := { signedEnv with fLiteMode := true }

theorem forged_vote_suppresses :
    ¬(BudgetMessage.mvote (voteSigned [9])).Verifies signedEnv ∧
      ¬NoTrace firstHash proposed signedEnv (.mvote (voteSigned [9])) := by
  constructor
  · intro h
    have hfalse : (voteSigned [9]).signatureValid signedEnv true = false := by decide +kernel
    exact Bool.false_ne_true (hfalse.symm.trans h)
  · intro h
    have hgenuine : (BudgetMessage.mvote (voteSigned [7])).Verifies signedEnv := by
      have htrue : (voteSigned [7]).signatureValid signedEnv true = true := by decide +kernel
      exact htrue
    have halike := (h [] signedEnv (.mvote (voteSigned [7])) ⟨rfl, rfl, rfl, rfl⟩
      hgenuine).proposals 8
    have hlost : yeasAfter (proposed.processMessage firstHash signedEnv
        (.mvote (voteSigned [9]))) = some 0 := by decide +kernel
    have hcounted : yeasAfter proposed = some 1 := by decide +kernel
    have hyeas := congrArg (Option.map CBudgetProposal.getYeas) halike
    exact absurd ((hlost.symm.trans hyeas).trans hcounted) (by decide)

end CBudgetManager

namespace CMasternodeMan

def announceEnv : AnnounceEnv where
  nTime := 100000
  nAdjustedTime := 100000
  getTransaction _ := some
    { hash := 1, vin := [], vout := [⟨4000 * COIN, getScriptForDestination (.CKeyID (List.replicate 20 5))⟩] }
  getInputAge _ := 15
  blockHeight _ := some 0
  verifyMessage := keySigns

def pingSigned (vchSig : List UInt8) : CMasternodePing := ⟨⟨⟨1, 0⟩, [], 0⟩, 1, 99900, vchSig⟩

def broadcastSigned (sig : List UInt8) : CMasternodeBroadcast where
  vin := ⟨⟨1, 0⟩, [], 0⟩
  addr := { nPort := 12365 }
  pubKeyCollateralAddress := [5]
  pubKeyMasternode := [6]
  sig := sig
  sigTime := 90000
  protocolVersion := 70900
  lastPing := pingSigned [6]

theorem forged_broadcast_suppresses :
    ¬(AnnounceMessage.mnb (broadcastSigned [9])).Verifies shortHashes {} announceEnv ∧
      ¬NoTrace shortHashes {} announceEnv (.mnb (broadcastSigned [9])) := by
  constructor
  · intro h
    have hfalse : (broadcastSigned [9]).verifySignature shortHashes announceEnv = false := by
      decide +kernel
    exact Bool.false_ne_true (hfalse.symm.trans h)
  · intro h
    have hgenuine : (AnnounceMessage.mnb (broadcastSigned [5])).Signed shortHashes
        (({} : CMasternodeMan).run shortHashes []) announceEnv := by
      have htrue : (broadcastSigned [5]).verifySignature shortHashes announceEnv = true := by
        decide +kernel
      exact htrue
    have halike := (h [] announceEnv (.mnb (broadcastSigned [5])) ⟨rfl, rfl⟩ hgenuine).masternodes
    have hlost : ((({} : CMasternodeMan).processMessage shortHashes announceEnv
        (.mnb (broadcastSigned [9]))).1.processMessage shortHashes announceEnv
          (.mnb (broadcastSigned [5]))).1.vMasternodes = [] := by decide +kernel
    have hadded : (({} : CMasternodeMan).processMessage shortHashes announceEnv
        (.mnb (broadcastSigned [5]))).1.vMasternodes ≠ [] := by decide +kernel
    exact hadded (halike.symm.trans hlost)

def pinged : CMasternodeMan where
  vMasternodes := [{ vin := ⟨⟨1, 0⟩, [], 0⟩, pubKeyMasternode := [6], protocolVersion := 70900 }]

theorem forged_ping_suppresses :
    ¬(AnnounceMessage.mnp (pingSigned [9])).Verifies shortHashes pinged announceEnv ∧
      ¬NoTrace shortHashes pinged announceEnv (.mnp (pingSigned [9])) := by
  constructor
  · rintro ⟨mn, hfind, h⟩
    have hkey : (pinged.find (pingSigned [9]).vin).all fun mn =>
        !(pingSigned [9]).verifySignature shortHashes announceEnv mn.pubKeyMasternode := by
      decide +kernel
    rw [hfind, Option.all_some, h] at hkey
    exact Bool.false_ne_true hkey
  · intro h
    have hgenuine : (AnnounceMessage.mnp (pingSigned [6])).Signed shortHashes
        (pinged.run shortHashes []) announceEnv := by
      refine ⟨[6], by decide +kernel, fun mn hfind => ?_⟩
      have hkey : (pinged.find (pingSigned [6]).vin).all fun mn => mn.pubKeyMasternode == [6] := by
        decide +kernel
      have hmn : pinged.find (pingSigned [6]).vin = some mn := hfind
      rw [hmn, Option.all_some, beq_iff_eq] at hkey
      exact hkey
    have halike := (h [] announceEnv (.mnp (pingSigned [6])) ⟨rfl, rfl⟩ hgenuine).masternodes
    have hlost : ((pinged.processMessage shortHashes announceEnv
        (.mnp (pingSigned [9]))).1.processMessage shortHashes announceEnv
          (.mnp (pingSigned [6]))).1.vMasternodes.map (·.lastPing) = [{}] := by decide +kernel
    have hpinged : (pinged.processMessage shortHashes announceEnv
        (.mnp (pingSigned [6]))).1.vMasternodes.map (·.lastPing) = [pingSigned [6]] := by
      decide +kernel
    have hping := congrArg (List.map fun mn : MasternodeEntry => mn.lastPing) halike
    exact absurd ((hlost.symm.trans hping).trans hpinged) (by decide)

end CMasternodeMan

end AnkerNode
