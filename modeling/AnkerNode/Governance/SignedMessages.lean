import AnkerNode.Budget.FinalizedBudget
import AnkerNode.Primitives.Transaction

namespace AnkerNode

structure CSporkMessage where
  nSporkID : Int
  nValue : Int
  nTimeSigned : Int
  vchSig : List UInt8 := []
deriving DecidableEq, Repr

-- the string that is signed and the one that is checked
def CSporkMessage.strMessage (spork : CSporkMessage) : String :=
  toString spork.nSporkID ++ toString spork.nValue ++ toString spork.nTimeSigned

def sporkNames : List (Int × String) :=
  [(10001, "SPORK_2_SWIFTTX"), (10002, "SPORK_3_SWIFTTX_BLOCK_FILTERING"),
    (10004, "SPORK_5_MAX_VALUE"), (10006, "SPORK_7_MASTERNODE_SCANNING"),
    (10007, "SPORK_8_MASTERNODE_PAYMENT_ENFORCEMENT"),
    (10008, "SPORK_9_MASTERNODE_BUDGET_ENFORCEMENT"),
    (10009, "SPORK_10_MASTERNODE_PAY_UPDATED_NODES"), (10012, "SPORK_13_ENABLE_SUPERBLOCKS"),
    (10015, "SPORK_16_ZEROCOIN_MAINTENANCE_MODE"), (10016, "SPORK_17_SEGWIT_ACTIVATION")]

def getSporkNameByID (id : Int) : String := (sporkNames.lookup id).getD "Unknown"

structure SporkEnv where
  fLiteMode : Bool := false
  hasTip : Bool := true
  getHash : CSporkMessage → UInt256
  sporkKey : List UInt8
  verifyMessage : List UInt8 → List UInt8 → String → Bool

def SporkEnv.checkSignature (env : SporkEnv) (spork : CSporkMessage) : Bool :=
  env.verifyMessage env.sporkKey spork.vchSig spork.strMessage

structure SporkManager where
  mapSporks : UInt256 → Option CSporkMessage := fun _ => none
  mapSporksActive : Int → Option CSporkMessage := fun _ => none
  sporkDB : Int → Option CSporkMessage := fun _ => none

namespace SporkManager

variable (s : SporkManager)

def activate (env : SporkEnv) (spork : CSporkMessage) : SporkManager where
  mapSporks h := if h = env.getHash spork then some spork else s.mapSporks h
  mapSporksActive id := if id = spork.nSporkID then some spork else s.mapSporksActive id
  sporkDB id := if id = spork.nSporkID then some spork else s.sporkDB id

def seen (spork : CSporkMessage) : Bool :=
  (s.mapSporksActive spork.nSporkID).any fun active =>
    decide (spork.nTimeSigned ≤ active.nTimeSigned)

-- the state after a spork message and the misbehaviour of its sender
def processSpork (env : SporkEnv) (spork : CSporkMessage) : SporkManager × Int :=
  if env.fLiteMode || !env.hasTip then (s, 0)
  else if getSporkNameByID spork.nSporkID = "Unknown" then (s, 0)
  else if s.seen spork then (s, 0)
  else if !env.checkSignature spork then (s, 100)
  else (s.activate env spork, 0)

variable {s} {env : SporkEnv} {spork forged : CSporkMessage}

theorem processSpork_of_invalid (h : env.checkSignature spork = false) :
    (s.processSpork env spork).1 = s := by
  simp only [processSpork, h, Bool.not_false, if_true]
  split_ifs <;> rfl

-- What the signature of one message allows, it allows for any content with the same string.
theorem processSpork_of_same_text (hon : env.fLiteMode = false) (htip : env.hasTip = true)
    (hsigned : env.checkSignature spork = true) (hsig : forged.vchSig = spork.vchSig)
    (htext : forged.strMessage = spork.strMessage)
    (hknown : getSporkNameByID forged.nSporkID ≠ "Unknown") (hnew : s.seen forged = false) :
    s.processSpork env forged = (s.activate env forged, 0) := by
  have hforged : env.checkSignature forged = true := by
    rw [SporkEnv.checkSignature, hsig, htext]
    exact hsigned
  simp [processSpork, hon, htip, hknown, hnew, hforged]

end SporkManager

open DigitText

def CBudgetVote.strMessage (vote : CBudgetVote) : String :=
  vote.vin.prevout.toStringShort ++ vote.nProposalHash.getHex ++ toString vote.nVote ++
    toString vote.nTime

theorem CBudgetVote.signatureValid_eq (env : BudgetEnv) (vote : CBudgetVote) (f : Bool) :
    vote.signatureValid env f = env.signatureValid vote.vin vote.vchSig vote.strMessage f :=
  rfl

theorem toList_getHex (x : UInt256) : x.getHex.toList = hexText 64 x.toNat := by
  simp [UInt256.getHex]

theorem getHex_inj {x y : UInt256} (h : x.getHex.toList = y.getHex.toList) : x = y := by
  rw [toList_getHex, toList_getHex] at h
  exact BitVec.eq_of_toNat_eq (hexText_inj x.isLt y.isLt h)

theorem length_getHex (x : UInt256) : x.getHex.toList.length = 64 := by
  rw [toList_getHex, length_hexText]

theorem COutPoint.eq_of_toNat {o o' : COutPoint} (hhash : o.hash = o'.hash)
    (hn : o.n.toNat = o'.n.toNat) : o = o' := by
  cases o
  cases o'
  exact congrArg₂ COutPoint.mk hhash (UInt32.toNat_inj.mp hn)

namespace CSporkMessage

def SameContent (m m' : CSporkMessage) : Prop :=
  m.nSporkID = m'.nSporkID ∧ m.nValue = m'.nValue ∧ m.nTimeSigned = m'.nTimeSigned

-- the identifier and the value end at the same places
def SameWidths (m m' : CSporkMessage) : Prop :=
  width m.nSporkID = width m'.nSporkID ∧ width m.nValue = width m'.nValue

theorem toList_strMessage (m : CSporkMessage) :
    m.strMessage.toList = decimal m.nSporkID ++ (decimal m.nValue ++ decimal m.nTimeSigned) := by
  simp only [strMessage, String.toList_append, List.append_assoc]
  rfl

theorem sameContent_iff {m m' : CSporkMessage} (h : m.strMessage = m'.strMessage) :
    m.SameContent m' ↔ m.SameWidths m' := by
  constructor
  · rintro ⟨hid, hvalue, -⟩
    exact ⟨congrArg width hid, congrArg width hvalue⟩
  · rintro ⟨hid, hvalue⟩
    have htext := congrArg String.toList h
    rw [toList_strMessage, toList_strMessage] at htext
    obtain ⟨h1, hrest⟩ := List.append_inj htext hid
    obtain ⟨h2, h3⟩ := List.append_inj hrest hvalue
    exact ⟨decimal_inj h1, decimal_inj h2, decimal_inj h3⟩

theorem width_of_known {id : Int} (h : getSporkNameByID id ≠ "Unknown") : width id = 5 := by
  have hwidth : ∀ it ∈ sporkNames, width it.1 = 5 := by decide +kernel
  cases hname : sporkNames.lookup id with
  | none => simp [getSporkNameByID, hname] at h
  | some name =>
    obtain ⟨before, after, heq, -⟩ := List.lookup_eq_some_iff.mp hname
    exact hwidth (id, name) (by rw [heq]; simp)

-- The identifiers of the sporks are as long, so only digits of the value and the time can move.
theorem known_text_iff {m m' : CSporkMessage} (hm : getSporkNameByID m.nSporkID ≠ "Unknown")
    (hm' : getSporkNameByID m'.nSporkID ≠ "Unknown") :
    m.strMessage = m'.strMessage ↔ m.SameContent m' ∨ m.nSporkID = m'.nSporkID ∧
      (Moved m.nValue m.nTimeSigned m'.nValue m'.nTimeSigned ∨
        Moved m'.nValue m'.nTimeSigned m.nValue m.nTimeSigned) := by
  have hwidth : width m.nSporkID = width m'.nSporkID := by
    rw [width_of_known hm, width_of_known hm']
  have hsplit : m.strMessage = m'.strMessage ↔ m.nSporkID = m'.nSporkID ∧
      decimal m.nValue ++ decimal m.nTimeSigned = decimal m'.nValue ++ decimal m'.nTimeSigned := by
    rw [← String.toList_inj, toList_strMessage, toList_strMessage]
    constructor
    · intro h
      obtain ⟨hid, hrest⟩ := List.append_inj h hwidth
      exact ⟨decimal_inj hid, hrest⟩
    · rintro ⟨hid, hrest⟩
      rw [hid, hrest]
  rw [hsplit, append_eq_iff, SameContent]
  tauto

end CSporkMessage

namespace CBudgetVote

def SameContent (v v' : CBudgetVote) : Prop :=
  v.vin.prevout = v'.vin.prevout ∧ v.nProposalHash = v'.nProposalHash ∧ v.nVote = v'.nVote ∧
    v.nTime = v'.nTime

-- the index of the output and the vote are as long
def SameWidths (v v' : CBudgetVote) : Prop :=
  width v.vin.prevout.n.toNat = width v'.vin.prevout.n.toNat ∧ width v.nVote = width v'.nVote

theorem toList_strMessage (v : CBudgetVote) :
    v.strMessage.toList = v.vin.prevout.hash.getHex.toList ++ ('-' ::
      (decimal v.vin.prevout.n.toNat ++ (v.nProposalHash.getHex.toList ++
        (decimal v.nVote ++ decimal v.nTime)))) := by
  simp only [strMessage, COutPoint.toStringShort, String.toList_append, List.append_assoc]
  rfl

theorem sameContent_iff {v v' : CBudgetVote} (h : v.strMessage = v'.strMessage) :
    v.SameContent v' ↔ v.SameWidths v' := by
  constructor
  · rintro ⟨hprevout, -, hvote, -⟩
    exact ⟨congrArg (fun o : COutPoint => width o.n.toNat) hprevout, congrArg width hvote⟩
  · rintro ⟨hn, hvote⟩
    have htext := congrArg String.toList h
    rw [toList_strMessage, toList_strMessage] at htext
    obtain ⟨hhash, htext⟩ := List.append_inj htext (by rw [length_getHex, length_getHex])
    obtain ⟨hindex, htext⟩ := List.append_inj (List.cons.inj htext).2 hn
    obtain ⟨hproposal, htext⟩ := List.append_inj htext (by rw [length_getHex, length_getHex])
    obtain ⟨hnVote, hnTime⟩ := List.append_inj htext hvote
    have hnat : v.vin.prevout.n.toNat = v'.vin.prevout.n.toNat := by
      exact_mod_cast decimal_inj hindex
    exact ⟨COutPoint.eq_of_toNat (getHex_inj hhash) hnat, getHex_inj hproposal,
      decimal_inj hnVote, decimal_inj hnTime⟩

-- Two votes of one masternode on one proposal read the same only if digits are moved between the
-- vote and its time.
theorem same_target_text_iff {v v' : CBudgetVote} (hprevout : v.vin.prevout = v'.vin.prevout)
    (hproposal : v.nProposalHash = v'.nProposalHash) :
    v.strMessage = v'.strMessage ↔ v.SameContent v' ∨
      Moved v.nVote v.nTime v'.nVote v'.nTime ∨ Moved v'.nVote v'.nTime v.nVote v.nTime := by
  rw [← String.toList_inj, toList_strMessage, toList_strMessage, hprevout, hproposal,
    List.append_cancel_left_eq, List.cons.injEq, List.append_cancel_left_eq,
    List.append_cancel_left_eq, append_eq_iff, SameContent]
  tauto

end CBudgetVote

-- Two messages with one string have one content just when their numbers end at the same places.
theorem signed_text_content_iff (m m' : CSporkMessage) (v v' : CBudgetVote) :
    (m.strMessage = m'.strMessage → (m.SameContent m' ↔ m.SameWidths m')) ∧
      (v.strMessage = v'.strMessage → (v.SameContent v' ↔ v.SameWidths v')) :=
  ⟨fun h => CSporkMessage.sameContent_iff h, fun h => CBudgetVote.sameContent_iff h⟩

def signedSpork : CSporkMessage := ⟨10004, 1001, 1500000000, [1]⟩

def rereadSpork : CSporkMessage := ⟨10004, 100, 11500000000, [1]⟩

def signedVote : CBudgetVote where
  vin := ⟨⟨7, 1⟩, [], 0xffffffff⟩
  nProposalHash := 9
  nVote := VOTE_YES
  nTime := 1500000000
  vchSig := [1]

def rereadVote : CBudgetVote := { signedVote with nVote := 11, nTime := 500000000 }

theorem rereadSpork_text : signedSpork.strMessage = rereadSpork.strMessage := by decide +kernel

theorem rereadVote_text : signedVote.strMessage = rereadVote.strMessage := by decide +kernel

theorem signed_text_content_iff_reread :
    (signedSpork.SameContent rereadSpork ↔ signedSpork.SameWidths rereadSpork) ∧
      (signedVote.SameContent rereadVote ↔ signedVote.SameWidths rereadVote) :=
  ⟨(signed_text_content_iff signedSpork rereadSpork signedVote rereadVote).1 rereadSpork_text,
    (signed_text_content_iff signedSpork rereadSpork signedVote rereadVote).2 rereadVote_text⟩

-- a key that signed these two texts only
def sporkEnv : SporkEnv where
  getHash spork := BitVec.ofInt 256 (spork.nValue + spork.nTimeSigned)
  sporkKey := [4]
  verifyMessage _ vchSig strMessage := vchSig == [1] && strMessage == signedSpork.strMessage

-- The second message is accepted on the signature of the first and changes the active value.
theorem signed_text_ambiguous :
    (signedSpork.strMessage = rereadSpork.strMessage ∧ ¬signedSpork.SameContent rereadSpork) ∧
      (signedVote.strMessage = rereadVote.strMessage ∧ ¬signedVote.SameContent rereadVote) ∧
      let s := (SporkManager.processSpork {} sporkEnv signedSpork).1
      (s.mapSporksActive 10004).map CSporkMessage.nValue = some 1001 ∧
        ((s.processSpork sporkEnv rereadSpork).1.mapSporksActive 10004).map
          CSporkMessage.nValue = some 100 := by
  refine ⟨⟨rereadSpork_text, ?_⟩, ⟨rereadVote_text, ?_⟩, by decide +kernel, by decide +kernel⟩
  · rintro ⟨-, hvalue, -⟩
    exact absurd hvalue (by decide)
  · rintro ⟨-, -, hvote, -⟩
    exact absurd hvote (by decide)

end AnkerNode
