import AnkerNode.Script.CombineSignatures
import AnkerNode.Script.PushParsing

namespace AnkerNode

def STANDARD_SCRIPT_VERIFY_FLAGS : Nat :=
  SCRIPT_VERIFY_P2SH ||| SCRIPT_VERIFY_DERSIG ||| SCRIPT_VERIFY_STRICTENC |||
    SCRIPT_VERIFY_MINIMALDATA ||| SCRIPT_VERIFY_NULLDUMMY |||
    SCRIPT_VERIFY_DISCOURAGE_UPGRADABLE_NOPS ||| SCRIPT_VERIFY_WITNESS ||| SCRIPT_VERIFY_CLEANSTACK |||
    SCRIPT_VERIFY_LOW_S ||| SCRIPT_VERIFY_DISCOURAGE_UPGRADABLE_WITNESS_PROGRAM |||
    SCRIPT_VERIFY_WITNESS_PUBKEYTYPE ||| SCRIPT_VERIFY_CHECKSEQUENCEVERIFY |||
    SCRIPT_VERIFY_CHECKLOCKTIMEVERIFY

structure CKeyStore where
  getPubKey : Valtype → Option Valtype
  getCScript : Valtype → Option CScript

structure BaseSignatureCreator where
  keystore : CKeyStore
  createSig : Valtype → CScript → SigVersion → Option Valtype

-- `none` where the solver finds no type
structure SignStepResult where
  whichType : Option Txnouttype
  ret : List Valtype
  solved : Bool
deriving DecidableEq, Repr

namespace BaseSignatureCreator

variable (hashes : ScriptHashes) (creator : BaseSignatureCreator)

-- `CPubKey::GetID`: a `CPubKey` that is not valid has no bytes to hash
def getID (vch : Valtype) : Valtype := hashes.hash160 (if isValidPubKey vch then vch else [])

def signN (nRequired : Nat) (keys : List Valtype) (scriptCode : CScript) (sigversion : SigVersion) :
    List Valtype :=
  CombineMultisig.pushSigs (fun pubkey => creator.createSig (getID hashes pubkey) scriptCode sigversion)
    nRequired keys

def signStep (scriptPubKey : CScript) (sigversion : SigVersion) : SignStepResult :=
  match scriptPubKey.solver with
  | none => ⟨none, [], false⟩
  | some (.TX_NULL_DATA, _) => ⟨some .TX_NULL_DATA, [], false⟩
  | some (.TX_ZEROCOINMINT, _) => ⟨some .TX_ZEROCOINMINT, [], false⟩
  | some (.TX_WITNESS_UNKNOWN, _) => ⟨some .TX_WITNESS_UNKNOWN, [], false⟩
  | some (.TX_PUBKEY, vSolutions) =>
    match creator.createSig (getID hashes (vSolutions.headD [])) scriptPubKey sigversion with
    | none => ⟨some .TX_PUBKEY, [], false⟩
    | some vchSig => ⟨some .TX_PUBKEY, [vchSig], true⟩
  | some (.TX_PUBKEYHASH, vSolutions) =>
    match creator.createSig (vSolutions.headD []) scriptPubKey sigversion with
    | none => ⟨some .TX_PUBKEYHASH, [], false⟩
    | some vchSig =>
      ⟨some .TX_PUBKEYHASH, [vchSig, (creator.keystore.getPubKey (vSolutions.headD [])).getD []], true⟩
  | some (.TX_SCRIPTHASH, vSolutions) =>
    match creator.keystore.getCScript (vSolutions.headD []) with
    | none => ⟨some .TX_SCRIPTHASH, [], false⟩
    | some scriptRet => ⟨some .TX_SCRIPTHASH, [scriptRet], true⟩
  | some (.TX_MULTISIG, vSolutions) =>
    let nRequired := ((vSolutions.headD []).headD 0).toNat
    let sigs := creator.signN hashes nRequired ((vSolutions.drop 1).take (vSolutions.length - 2))
      scriptPubKey sigversion
    ⟨some .TX_MULTISIG, [] :: sigs, sigs.length == nRequired⟩
  | some (.TX_WITNESS_V0_KEYHASH, vSolutions) =>
    ⟨some .TX_WITNESS_V0_KEYHASH, [vSolutions.headD []], true⟩
  | some (.TX_WITNESS_V0_SCRIPTHASH, vSolutions) =>
    match creator.keystore.getCScript (hashes.ripemd160 (vSolutions.headD [])) with
    | none => ⟨some .TX_WITNESS_V0_SCRIPTHASH, [], false⟩
    | some scriptRet => ⟨some .TX_WITNESS_V0_SCRIPTHASH, [scriptRet], true⟩

-- the step into the script that a P2SH output names the hash of
def signScriptHash (step : SignStepResult) : SignStepResult :=
  if step.solved ∧ step.whichType = some .TX_SCRIPTHASH then
    let sub := creator.signStep hashes (step.ret.headD []) .SIGVERSION_BASE
    { sub with solved := sub.solved && decide (sub.whichType ≠ some .TX_SCRIPTHASH) }
  else step

-- The stack of the witness is apart from what goes into `scriptSig`.
def signWitness (step : SignStepResult) : Bool × List Valtype × CScriptWitness :=
  if step.solved ∧ step.whichType = some .TX_WITNESS_V0_KEYHASH then
    let sub := creator.signStep hashes (ScriptContext.payToPubKeyHash (step.ret.headD []))
      .SIGVERSION_WITNESS_V0
    (sub.solved, [], sub.ret)
  else if step.solved ∧ step.whichType = some .TX_WITNESS_V0_SCRIPTHASH then
    let witnessscript := step.ret.headD []
    let sub := creator.signStep hashes witnessscript .SIGVERSION_WITNESS_V0
    (sub.solved && decide (sub.whichType ≠ some .TX_SCRIPTHASH) &&
      decide (sub.whichType ≠ some .TX_WITNESS_V0_SCRIPTHASH) &&
      decide (sub.whichType ≠ some .TX_WITNESS_V0_KEYHASH), [], sub.ret ++ [witnessscript])
  else (step.solved, step.ret, [])

def produceSignature (checker : BaseSignatureChecker) (fromPubKey : CScript) :
    Bool × CScript × CScriptWitness :=
  let step := creator.signStep hashes fromPubKey .SIGVERSION_BASE
  let fP2SH := step.solved && decide (step.whichType = some .TX_SCRIPTHASH)
  let (solved, result, witness) := creator.signWitness hashes (creator.signScriptHash hashes step)
  let scriptSig := PushAll (if fP2SH then result ++ [step.ret.headD []] else result)
  (solved && ((ScriptContext.mk hashes checker).verifyScript STANDARD_SCRIPT_VERIFY_FLAGS scriptSig
    fromPubKey witness).result.isOk, scriptSig, witness)

end BaseSignatureCreator

namespace CombineMultisig

variable {sigs : Valtype → Option Valtype} {nRequired : Nat} {keys : List Valtype}

theorem length_pushSigs (sigs : Valtype → Option Valtype) (nRequired : Nat) (keys : List Valtype) :
    (pushSigs sigs nRequired keys).length =
      min nRequired (keys.countP fun key => (sigs key).isSome) := by
  induction keys generalizing nRequired with
  | nil => cases nRequired <;> simp [pushSigs]
  | cons key keys ih =>
    cases nRequired with
    | zero => simp [pushSigs]
    | succ n =>
      rw [pushSigs, List.countP_cons]
      cases hkey : sigs key with
      | none => simp [ih]
      | some sig =>
        simp only [List.length_cons, ih, Option.isSome_some, if_true]
        omega

theorem pushSigs_congr {sigs' : Valtype → Option Valtype} (h : ∀ key ∈ keys, sigs key = sigs' key) :
    pushSigs sigs nRequired keys = pushSigs sigs' nRequired keys := by
  induction keys generalizing nRequired with
  | nil => cases nRequired <;> rfl
  | cons key keys ih =>
    obtain ⟨hkey, hrest⟩ := List.forall_mem_cons.mp h
    cases nRequired with
    | zero => rfl
    | succ n =>
      rw [pushSigs, pushSigs, hkey, ih hrest, ih hrest]

theorem mem_pushSigs {sig : Valtype} (h : sig ∈ pushSigs sigs nRequired keys) :
    ∃ key ∈ keys, sigs key = some sig := by
  induction keys generalizing nRequired with
  | nil => cases nRequired <;> cases h
  | cons key keys ih =>
    cases nRequired with
    | zero => cases h
    | succ n =>
      rw [pushSigs] at h
      cases hkey : sigs key with
      | none =>
        rw [hkey] at h
        obtain ⟨key', hmem, hsig⟩ := ih h
        exact ⟨key', List.mem_cons_of_mem _ hmem, hsig⟩
      | some sig' =>
        rw [hkey] at h
        rcases List.mem_cons.mp h with rfl | h
        · exact ⟨key, List.mem_cons_self .., hkey⟩
        · obtain ⟨key', hmem, hsig⟩ := ih h
          exact ⟨key', List.mem_cons_of_mem _ hmem, hsig⟩

theorem pushSigs_matches (sigs : Valtype → Option Valtype) (nRequired : Nat) (keys : List Valtype) :
    List.SublistForall₂ (fun sig key => key ∈ keys ∧ sigs key = some sig)
      (pushSigs sigs nRequired keys) keys := by
  suffices h : ∀ keys' : List Valtype, (∀ key ∈ keys, key ∈ keys') →
      List.SublistForall₂ (fun sig key => key ∈ keys' ∧ sigs key = some sig)
        (pushSigs sigs nRequired keys) keys from h keys fun _ => id
  intro keys' hkeys
  induction keys generalizing nRequired with
  | nil => cases nRequired <;> exact .nil
  | cons key keys ih =>
    obtain ⟨hkey, hrest⟩ := List.forall_mem_cons.mp hkeys
    cases nRequired with
    | zero => exact .nil
    | succ n =>
      rw [pushSigs]
      cases hsig : sigs key with
      | none => exact .cons_right (ih (n + 1) hrest)
      | some sig => exact .cons ⟨hkey, hsig⟩ (ih n hrest)

end CombineMultisig

end AnkerNode
