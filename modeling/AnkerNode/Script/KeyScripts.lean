import AnkerNode.Script.Sign
import AnkerNode.Script.StandardScripts

namespace AnkerNode

open Checks GreedyMatch Traced

-- what the encoding checks of the standard flags let through
structure StandardSig (sig : Valtype) : Prop where
  nonempty : sig ≠ []
  encoded : checkSignatureEncoding sig STANDARD_SCRIPT_VERIFY_FLAGS = .ok ()

def StandardKey (key : Valtype) (sigversion : SigVersion) : Prop :=
  checkPubKeyEncoding key STANDARD_SCRIPT_VERIFY_FLAGS sigversion = .ok ()

theorem StandardSig.shape {sig : Valtype} (h : StandardSig sig) :
    9 ≤ sig.length ∧ sig.length ≤ 73 ∧ sig.headD 0 = 0x30 := by
  have hencoded := h.encoded
  have hder : hasFlag STANDARD_SCRIPT_VERIFY_FLAGS SCRIPT_VERIFY_DERSIG = true := by decide
  rw [checkSignatureEncoding, if_neg h.nonempty, hder, seq_eq_ok] at hencoded
  have hvalid := setErrorIf_eq_ok.mp hencoded.1
  rw [Bool.true_or, Bool.true_or, Bool.true_and, Bool.not_eq_false'] at hvalid
  simp only [isValidSignatureEncoding, Bool.and_eq_true, decide_eq_true_eq, beq_iff_eq] at hvalid
  obtain ⟨⟨⟨⟨⟨⟨⟨⟨⟨hmin, hmax⟩, hhead⟩, -⟩, -⟩, -⟩, -⟩, -⟩, -⟩, -⟩ := hvalid
  refine ⟨hmin, hmax, ?_⟩
  rwa [List.getD_eq_getElem?_getD, ← List.head?_eq_getElem?, ← List.headD_eq_head?_getD] at hhead

theorem StandardKey.shape {key : Valtype} {sigversion : SigVersion} (h : StandardKey key sigversion) :
    33 ≤ key.length ∧ key.length ≤ 65 ∧ key.headD 0 ≠ 0x30 ∧ isValidPubKey key = true := by
  have hstrict : hasFlag STANDARD_SCRIPT_VERIFY_FLAGS SCRIPT_VERIFY_STRICTENC = true := by decide
  rw [StandardKey, checkPubKeyEncoding, hstrict, seq_eq_ok] at h
  have hvalid := setErrorIf_eq_ok.mp h.1
  rw [Bool.true_and, Bool.not_eq_false'] at hvalid
  rw [isCompressedOrUncompressedPubKey] at hvalid
  cases key with
  | nil => cases hvalid
  | cons b key =>
    rw [List.headD_cons] at hvalid ⊢
    split_ifs at hvalid with hshort h4 h23
    · have h65 := of_decide_eq_true hvalid
      refine ⟨by omega, by omega, by rw [h4]; decide, ?_⟩
      rw [isValidPubKey, h65, h4]
      rfl
    · have h33 := of_decide_eq_true hvalid
      refine ⟨by omega, by omega, by rcases h23 with h | h <;> rw [h] <;> decide, ?_⟩
      rw [isValidPubKey, pubKeyLen, if_pos h23, h33]
      rfl
theorem StandardKey.length_witness {key : Valtype} (h : StandardKey key .SIGVERSION_WITNESS_V0) :
    key.length = 33 := by
  have hstrict : hasFlag STANDARD_SCRIPT_VERIFY_FLAGS SCRIPT_VERIFY_WITNESS_PUBKEYTYPE = true := by
    decide
  rw [StandardKey, checkPubKeyEncoding, hstrict, seq_eq_ok] at h
  have hvalid := setErrorIf_eq_ok.mp h.2
  rw [decide_eq_true rfl, Bool.true_and, Bool.true_and, Bool.not_eq_false', isCompressedPubKey,
    Bool.and_eq_true] at hvalid
  exact of_decide_eq_true hvalid.1

-- a script that the wallet makes for its own keys
inductive KeyScript
  | pubKey (key : Valtype)
  | pubKeyHash (key : Valtype)
  | multisig (nRequired : Nat) (keys : List Valtype)

namespace KeyScript

variable (hashes : ScriptHashes)

def keys : KeyScript → List Valtype
  | pubKey key | pubKeyHash key => [key]
  | multisig _ keys => keys

def nRequired : KeyScript → Nat
  | pubKey _ | pubKeyHash _ => 1
  | multisig nRequired _ => nRequired

def script : KeyScript → CScript
  | pubKey key => getScriptForRawPubKey key
  | pubKeyHash key => getScriptForDestination (.CKeyID (hashes.hash160 key))
  | multisig nRequired keys => getScriptForMultisig nRequired keys

def whichType : KeyScript → Txnouttype
  | pubKey _ => .TX_PUBKEY
  | pubKeyHash _ => .TX_PUBKEYHASH
  | multisig _ _ => .TX_MULTISIG

def vSolutions : KeyScript → List Valtype
  | pubKey key => [key]
  | pubKeyHash key => [hashes.hash160 key]
  | multisig nRequired keys => [UInt8.ofNat nRequired] :: keys ++ [[UInt8.ofNat keys.length]]

-- Every key has a form that the standard flags take, and a multisig script has up to 16 of them.
structure WellFormed (sigversion : SigVersion) (ks : KeyScript) : Prop where
  standard : ∀ key ∈ ks.keys, StandardKey key sigversion
  required : 1 ≤ ks.nRequired ∧ ks.nRequired ≤ ks.keys.length
  few : ks.keys.length ≤ 16

end KeyScript

namespace BaseSignatureCreator

variable (hashes : ScriptHashes) (creator : BaseSignatureCreator)

-- the signature for a key of a script
def sigFor (ks : KeyScript) (sigversion : SigVersion) (key : Valtype) : Option Valtype :=
  creator.createSig (hashes.hash160 key) (ks.script hashes) sigversion

def CanSign (ks : KeyScript) (sigversion : SigVersion) : Prop :=
  ks.nRequired ≤ ks.keys.countP fun key => (creator.sigFor hashes ks sigversion key).isSome

-- The signatures are encoded as they should be and verify for their keys, and the key store has the
-- public key of what it signs for. No signature is the hash of a key.
structure Sound (checker : BaseSignatureChecker) (ks : KeyScript) (sigversion : SigVersion) :
    Prop where
  standard : ∀ key ∈ ks.keys, ∀ sig, creator.sigFor hashes ks sigversion key = some sig →
    StandardSig sig
  verifies : ∀ key ∈ ks.keys, ∀ sig, creator.sigFor hashes ks sigversion key = some sig →
    checker.checkSig sig key (ks.script hashes) sigversion = true
  getPubKey : ∀ key ∈ ks.keys, ∀ sig, creator.sigFor hashes ks sigversion key = some sig →
    creator.keystore.getPubKey (hashes.hash160 key) = some key
  apart : ∀ key ∈ ks.keys, ∀ sig, creator.sigFor hashes ks sigversion key = some sig →
    sig ≠ hashes.hash160 key

end BaseSignatureCreator

namespace KeyScript

open BaseSignatureCreator ScriptContext

variable {hashes : ScriptHashes} {creator : BaseSignatureCreator} {checker : BaseSignatureChecker}
  {ks : KeyScript} {sigversion : SigVersion}

theorem WellFormed.multisigKeys (h : ks.WellFormed sigversion) :
    CScript.MultisigKeys ks.nRequired ks.keys :=
  ⟨h.required, h.few, fun key hkey =>
    ⟨(h.standard key hkey).shape.1, (h.standard key hkey).shape.2.1⟩⟩

theorem solver_script (hsizes : HashSizes hashes) (h : ks.WellFormed sigversion) :
    (ks.script hashes).solver = some (ks.whichType, ks.vSolutions hashes) := by
  cases ks with
  | pubKey key =>
    obtain ⟨hmin, hmax, -⟩ := (h.standard key (List.mem_singleton_self key)).shape
    exact CScript.solver_rawPubKey hmin hmax
  | pubKeyHash key => exact CScript.solver_payToPubKeyHash (hsizes.hash160 key)
  | multisig nRequired keys => exact CScript.solver_multisig h.multisigKeys

-- No opcode of the script pushes one of its signatures.
theorem apart_script (hsizes : HashSizes hashes) (h : ks.WellFormed sigversion)
    (hsound : creator.Sound hashes checker ks sigversion) {key sig : Valtype} (hkey : key ∈ ks.keys)
    (hsig : creator.sigFor hashes ks sigversion key = some sig) :
    (ks.script hashes).findAndDelete (CScript.pushData sig) = ks.script hashes := by
  obtain ⟨hmin, hmax, hhead⟩ := (hsound.standard key hkey sig hsig).shape
  have hnil : ([] : Valtype) ≠ sig := (hsound.standard key hkey sig hsig).nonempty.symm
  have hkeys : ∀ key' ∈ ks.keys, key' ≠ sig := fun key' hkey' heq =>
    (h.standard key' hkey').shape.2.2.1 (heq ▸ hhead)
  refine CScript.findAndDelete_push (by omega) ?_
  cases ks with
  | pubKey key' =>
    have hlen := (h.standard key' (List.mem_singleton_self key')).shape.2.1
    rw [script, CScript.instructions_rawPubKey hlen]
    simp only [List.forall_mem_cons]
    exact ⟨⟨_, rfl, hkeys key' (List.mem_singleton_self key')⟩, ⟨_, rfl, hnil⟩, nofun⟩
  | pubKeyHash key' =>
    obtain rfl : key = key' := List.mem_singleton.mp hkey
    have hops := CScript.instructions_payToPubKeyHash (hsizes.hash160 key)
    change ∀ op ∈ CScript.instructions (payToPubKeyHash (hashes.hash160 key)), _
    rw [hops]
    simp only [List.forall_mem_cons]
    exact ⟨⟨_, rfl, hnil⟩, ⟨_, rfl, hnil⟩, ⟨_, rfl, (hsound.apart key hkey sig hsig).symm⟩,
      ⟨_, rfl, hnil⟩, ⟨_, rfl, hnil⟩, nofun⟩
  | multisig nRequired keys =>
    have hkeys' : CScript.MultisigKeys nRequired keys := h.multisigKeys
    rw [script, CScript.instructions_multisig hkeys', List.forall_mem_cons]
    refine ⟨⟨_, rfl, hnil⟩, fun op hop => ?_⟩
    rcases List.mem_append.mp hop with hop | hop
    · obtain ⟨i, rfl, hi⟩ := CScript.mem_pushOps hop
      exact ⟨i, rfl, hkeys _ hi⟩
    · rcases List.mem_cons.mp hop with rfl | hop
      · exact ⟨_, rfl, hnil⟩
      · obtain rfl := List.mem_singleton.mp hop
        exact ⟨_, rfl, hnil⟩

theorem dropSignatures_script (hsizes : HashSizes hashes) (h : ks.WellFormed sigversion)
    (hsound : creator.Sound hashes checker ks sigversion) {sigs : List Valtype}
    (hsigs : ∀ sig ∈ sigs, ∃ key ∈ ks.keys, creator.sigFor hashes ks sigversion key = some sig) :
    dropSignatures sigversion (ks.script hashes) sigs = ks.script hashes := by
  cases sigversion with
  | SIGVERSION_WITNESS_V0 => rfl
  | SIGVERSION_BASE =>
    rw [dropSignatures]
    induction sigs with
    | nil => rfl
    | cons sig sigs ih =>
      obtain ⟨⟨key, hkey, hsig⟩, hrest⟩ := List.forall_mem_cons.mp hsigs
      rw [List.foldl_cons, apart_script hsizes h hsound hkey hsig]
      exact ih hrest

theorem checkEncodings_standard {sig key : Valtype} (hsig : StandardSig sig)
    (hkey : StandardKey key sigversion) :
    checkEncodings STANDARD_SCRIPT_VERIFY_FLAGS sigversion sig key = .ok () := by
  rw [checkEncodings, hsig.encoded]
  exact hkey

-- what `SignStep` puts on the stack of a script that is signed for
def answer (hashes : ScriptHashes) (creator : BaseSignatureCreator) (ks : KeyScript)
    (sigversion : SigVersion) : List Valtype :=
  let sigs := CombineMultisig.pushSigs (creator.sigFor hashes ks sigversion) ks.nRequired ks.keys
  match ks with
  | pubKey _ => sigs
  | pubKeyHash key => sigs ++ [key]
  | multisig _ _ => [] :: sigs

theorem getID_standard {key : Valtype} (h : StandardKey key sigversion) :
    getID hashes key = hashes.hash160 key := by
  rw [getID, if_pos h.shape.2.2.2]

theorem pushSigs_single (sigs : Valtype → Option Valtype) (key : Valtype) :
    CombineMultisig.pushSigs sigs 1 [key] = (sigs key).toList := by
  rw [CombineMultisig.pushSigs]
  cases sigs key with
  | none => rfl
  | some sig => rfl

theorem signStep_script (hsizes : HashSizes hashes) (h : ks.WellFormed sigversion)
    (hsound : creator.Sound hashes checker ks sigversion) :
    (creator.signStep hashes (ks.script hashes) sigversion).whichType = some ks.whichType ∧
      ((creator.signStep hashes (ks.script hashes) sigversion).solved = true ↔
        creator.CanSign hashes ks sigversion) ∧
      ((creator.signStep hashes (ks.script hashes) sigversion).solved = true →
        (creator.signStep hashes (ks.script hashes) sigversion).ret =
          answer hashes creator ks sigversion) := by
  have hsolver := solver_script hsizes h
  rw [signStep, hsolver]
  cases ks with
  | pubKey key =>
    have hkey : StandardKey key sigversion := h.standard key (List.mem_singleton_self key)
    have hsigs : creator.createSig (getID hashes key) (script hashes (pubKey key)) sigversion =
        creator.sigFor hashes (pubKey key) sigversion key := by
      rw [getID_standard hkey, sigFor]
    have hanswer := pushSigs_single (creator.sigFor hashes (pubKey key) sigversion) key
    simp only [whichType, vSolutions, List.headD_cons, hsigs, CanSign, nRequired, keys, answer,
      hanswer, List.countP_singleton]
    cases creator.sigFor hashes (pubKey key) sigversion key with
    | none => simp
    | some sig => simp
  | pubKeyHash key =>
    have hsigs : creator.createSig (hashes.hash160 key) (script hashes (pubKeyHash key)) sigversion =
        creator.sigFor hashes (pubKeyHash key) sigversion key := rfl
    have hanswer := pushSigs_single (creator.sigFor hashes (pubKeyHash key) sigversion) key
    have hpub := hsound.getPubKey key (List.mem_singleton_self key)
    simp only [whichType, vSolutions, List.headD_cons, hsigs, CanSign, nRequired, keys, answer,
      hanswer, List.countP_singleton]
    cases hsig : creator.sigFor hashes (pubKeyHash key) sigversion key with
    | none => simp
    | some sig => simp [hpub sig hsig]
  | multisig m keys' =>
    have hm : (UInt8.ofNat m).toNat = m := by
      have hle : m ≤ 16 := h.required.2.trans h.few
      rw [UInt8.toNat_ofNat']
      omega
    have hmiddle : (([UInt8.ofNat m] :: keys' ++ [[UInt8.ofNat keys'.length]]).drop 1).take
        (([UInt8.ofNat m] :: keys' ++ [[UInt8.ofNat keys'.length]]).length - 2) = keys' := by
      rw [show ([UInt8.ofNat m] :: keys' ++ [[UInt8.ofNat keys'.length]]).length - 2 = keys'.length by
        simp]
      exact List.take_left
    have hsigs : creator.signN hashes m keys' (script hashes (multisig m keys')) sigversion =
        CombineMultisig.pushSigs (creator.sigFor hashes (multisig m keys') sigversion) m keys' := by
      rw [signN]
      refine CombineMultisig.pushSigs_congr fun key hkey => ?_
      rw [getID_standard (h.standard key hkey), sigFor]
    simp only [whichType, vSolutions, hmiddle]
    simp only [List.cons_append, List.headD_cons, hm, hsigs, CanSign, nRequired, keys, answer,
      beq_iff_eq, CombineMultisig.length_pushSigs, true_and, implies_true, and_true]
    omega

end KeyScript
namespace KeyScript

open BaseSignatureCreator ScriptContext

variable {hashes : ScriptHashes} {creator : BaseSignatureCreator} {checker : BaseSignatureChecker}
  {ks : KeyScript} {sigversion : SigVersion}

theorem mem_signed (ks : KeyScript) {sig : Valtype}
    (h : sig ∈ CombineMultisig.pushSigs (creator.sigFor hashes ks sigversion) ks.nRequired ks.keys) :
    ∃ key ∈ ks.keys, creator.sigFor hashes ks sigversion key = some sig :=
  CombineMultisig.mem_pushSigs h

theorem evalScript_pubKey {key sig : Valtype} (hsizes : HashSizes hashes)
    (h : (pubKey key).WellFormed sigversion)
    (hsound : creator.Sound hashes checker (pubKey key) sigversion)
    (hsig : creator.sigFor hashes (pubKey key) sigversion key = some sig) :
    ((ScriptContext.mk hashes checker).evalScript STANDARD_SCRIPT_VERIFY_FLAGS sigversion [sig]
      ((pubKey key).script hashes)).result = .ok [[1]] := by
  have hmem : key ∈ (pubKey key).keys := List.mem_singleton_self key
  have hkey := h.standard key hmem
  have hpush : Pushable key := ⟨by have := hkey.shape.1; omega,
    hkey.shape.2.1.trans (by decide)⟩
  have hdrop := dropSignatures_script hsizes h hsound fun s hs =>
    ⟨key, hmem, List.mem_singleton.mp hs ▸ hsig⟩
  have hlen := hkey.shape.2.1
  have hscript : ((pubKey key).script hashes).length ≤ 10000 := by
    have := CScript.length_pushData_le hpush.2
    rw [script, getScriptForRawPubKey, List.length_append, List.length_singleton]
    omega
  refine evalScript_of_runs ⟨[[1]], [], [], 1, (pubKey key).script hashes⟩ hscript ?_ rfl
  have hops : ((pubKey key).script hashes).instructions = _ := CScript.instructions_rawPubKey hlen
  rw [hops]
  refine runs_cons (step_push rfl (CScript.pushHeader_spec (hlen.trans_lt (by decide))).1
    (checkMinimalPush_pushOpcode hpush) hpush.2 (by simp)) ?_
  refine runs_cons (step_opcode 0 _ rfl (by decide) (by decide) rfl (by decide) ?_ (by simp)) (runs_nil _)
  refine evalCheckSig_ok rfl
    (checkEncodings_standard (hsound.standard key hmem sig hsig) hkey) ?_
  change checker.checkSig sig key (dropSignatures sigversion ((pubKey key).script hashes) [sig])
    sigversion = true
  rw [hdrop]
  exact hsound.verifies key hmem sig hsig

theorem evalScript_pubKeyHash {key sig : Valtype} (hsizes : HashSizes hashes)
    (h : (pubKeyHash key).WellFormed sigversion)
    (hsound : creator.Sound hashes checker (pubKeyHash key) sigversion)
    (hsig : creator.sigFor hashes (pubKeyHash key) sigversion key = some sig) :
    ((ScriptContext.mk hashes checker).evalScript STANDARD_SCRIPT_VERIFY_FLAGS sigversion [key, sig]
      ((pubKeyHash key).script hashes)).result = .ok [[1]] := by
  have hmem : key ∈ (pubKeyHash key).keys := List.mem_singleton_self key
  have hkey := h.standard key hmem
  have hid := hsizes.hash160 key
  have hdrop := dropSignatures_script hsizes h hsound fun s hs =>
    ⟨key, hmem, List.mem_singleton.mp hs ▸ hsig⟩
  have hscript : ((pubKeyHash key).script hashes).length ≤ 10000 := by
    have := @CScript.length_pushData_le (hashes.hash160 key) (by rw [hid]; decide)
    simp only [script, getScriptForDestination, List.length_append, List.length_cons,
      List.length_nil]
    omega
  refine evalScript_of_runs ⟨[[1]], [], [], 4, (pubKeyHash key).script hashes⟩ hscript ?_
    rfl
  have hops : ((pubKeyHash key).script hashes).instructions = _ :=
    CScript.instructions_payToPubKeyHash hid
  rw [hops]
  -- the key is doubled, hashed and compared, and is left on top of the signature
  refine runs_cons (step_opcode 0 ⟨[key, key, sig], [], [], 1, (pubKeyHash key).script hashes⟩
    rfl (by decide) (by decide) rfl (by decide) rfl (by simp)) ?_
  refine runs_cons (step_opcode 1 ⟨[hashes.hash160 key, key, sig], [], [], 2,
    (pubKeyHash key).script hashes⟩ rfl (by decide) (by decide) rfl (by decide) rfl (by simp)) ?_
  refine runs_cons (step_push rfl (show (20 : UInt8) ≤ CScript.OP_PUSHDATA4 by decide) ?_
    (by rw [hid]; decide) (by simp)) ?_
  · have hpush := @checkMinimalPush_pushOpcode (hashes.hash160 key)
      ⟨by rw [hid]; decide, by rw [hid]; decide⟩
    rw [hid] at hpush
    exact hpush
  refine runs_cons (step_opcode 2 ⟨[key, sig], [], [], 3, (pubKeyHash key).script hashes⟩
    rfl (by decide) (by decide) rfl (by decide) ?_ (by simp)) ?_
  · exact evalEqualVerify_ok rfl
  refine runs_cons (step_opcode 3 _ rfl (by decide) (by decide) rfl (by decide) ?_ (by simp))
    (runs_nil _)
  exact evalCheckSig_ok rfl
    (checkEncodings_standard (hsound.standard key hmem sig hsig) hkey)
    (hdrop.symm ▸ hsound.verifies key hmem sig hsig)

theorem evalScript_multisig {m : Nat} {keys : List Valtype} (hsizes : HashSizes hashes)
    (h : (multisig m keys).WellFormed sigversion)
    (hsound : creator.Sound hashes checker (multisig m keys) sigversion) {sigs : List Valtype}
    (hsigs : sigs = CombineMultisig.pushSigs (creator.sigFor hashes (multisig m keys) sigversion)
      m keys) (hcount : sigs.length = m) :
    ((ScriptContext.mk hashes checker).evalScript STANDARD_SCRIPT_VERIFY_FLAGS sigversion
      (sigs.reverse ++ [[]]) ((multisig m keys).script hashes)).result = .ok [[1]] := by
  have hkeys : CScript.MultisigKeys m keys := h.multisigKeys
  obtain ⟨⟨hone, hle⟩, hfew, hlens⟩ := id hkeys
  have hsigned : ∀ sig ∈ sigs.reverse, ∃ key ∈ keys,
      creator.sigFor hashes (multisig m keys) sigversion key = some sig := fun sig hsig =>
    mem_signed (multisig m keys) (hsigs ▸ List.mem_reverse.mp hsig)
  have hdrop := dropSignatures_script hsizes h hsound hsigned
  have hm := (CScript.encodeOP_N_spec m (by omega) hone).2.2.2.2.2.2
  have hn := (CScript.encodeOP_N_spec keys.length hfew (by omega)).2.2.2.2.2.2
  refine evalScript_of_runs
    ⟨[[1]], [], [], 1 + keys.length, (multisig m keys).script hashes⟩
    (hkeys.length_script.trans (by decide)) ?_ rfl
  have hops : ((multisig m keys).script hashes).instructions = _ :=
    CScript.instructions_multisig hkeys
  rw [hops]
  refine runs_cons (step_smallInt rfl hone (by omega) (by
    simp only [List.length_append, List.length_reverse, List.length_cons, List.length_nil]
    omega) _) ?_
  refine runs_append (runs_pushOps (fun key hkey => ⟨by have := (hlens key hkey).1; omega,
    (hlens key hkey).2.trans (by decide)⟩) rfl (by
      simp only [EvalState.push, List.length_append, List.length_reverse, List.length_cons,
        List.length_nil]
      omega)) ?_
  refine runs_cons (step_smallInt rfl (by omega) hfew (by
    simp only [EvalState.push, List.length_append, List.length_reverse, List.length_cons,
      List.length_nil]
    omega) _) ?_
  refine runs_cons (step_opcode 0 _ rfl (by decide) (by decide) rfl (by decide) ?_ (by simp)) (runs_nil _)
  have hstack : MultiSigStack STANDARD_SCRIPT_VERIFY_FLAGS ([UInt8.ofNat keys.length] ::
      (keys.reverse ++ [UInt8.ofNat m] :: (sigs.reverse ++ [[]]))) keys.reverse sigs.reverse [] [] :=
    ⟨⟨[UInt8.ofNat keys.length], [UInt8.ofNat m], rfl, by rw [List.length_reverse]; exact hn _,
      by rw [List.length_reverse, hcount]; exact hm _⟩, by rw [List.length_reverse]; omega,
      by rw [List.length_reverse, List.length_reverse]; omega, fun _ => rfl⟩
  have hrun := @evalCheckMultiSig_ok ⟨hashes, checker⟩ _ sigversion
    ⟨[UInt8.ofNat keys.length] :: (keys.reverse ++ [UInt8.ofNat m] :: (sigs.reverse ++ [[]])),
      [], [], 1, (multisig m keys).script hashes⟩ _ _ _ _ hstack
    (by
      rw [List.length_reverse]
      change 1 + keys.length ≤ 201
      omega)
    (fun sig hsig key hkey => by
      obtain ⟨key', hkey', hsig'⟩ := hsigned sig hsig
      exact checkEncodings_standard (hsound.standard key' hkey' sig hsig')
        (h.standard key (List.mem_reverse.mp hkey)))
    (by
      change List.SublistForall₂ (fun sig key => checker.checkSig sig key
        (dropSignatures sigversion ((multisig m keys).script hashes) sigs.reverse) sigversion = true)
        sigs.reverse keys.reverse
      rw [hdrop]
      refine GreedyMatch.reverse ?_
      have hmatch := CombineMultisig.pushSigs_matches
        (creator.sigFor hashes (multisig m keys) sigversion) m keys
      rw [← hsigs] at hmatch
      obtain ⟨l, hl, hsub⟩ := List.sublistForall₂_iff.mp hmatch
      exact List.sublistForall₂_iff.mpr ⟨l, hl.imp fun sig key hkey =>
        hsound.verifies key hkey.1 sig hkey.2, hsub⟩)
  rw [List.length_reverse] at hrun
  exact hrun

-- What is signed for runs to true.
theorem evalScript_answer (hsizes : HashSizes hashes) (h : ks.WellFormed sigversion)
    (hsound : creator.Sound hashes checker ks sigversion) (hsign : creator.CanSign hashes ks sigversion) :
    ((ScriptContext.mk hashes checker).evalScript STANDARD_SCRIPT_VERIFY_FLAGS sigversion
      (answer hashes creator ks sigversion).reverse (ks.script hashes)).result = .ok [[1]] := by
  cases ks with
  | pubKey key =>
    obtain ⟨sig, hsig⟩ : ∃ sig, creator.sigFor hashes (pubKey key) sigversion key = some sig := by
      rw [CanSign, nRequired, keys, List.countP_singleton] at hsign
      exact Option.isSome_iff_exists.mp (by by_contra hno; simp [hno] at hsign)
    have hanswer := pushSigs_single (creator.sigFor hashes (pubKey key) sigversion) key
    rw [hsig] at hanswer
    rw [answer, nRequired, keys, hanswer]
    exact evalScript_pubKey hsizes h hsound hsig
  | pubKeyHash key =>
    obtain ⟨sig, hsig⟩ : ∃ sig, creator.sigFor hashes (pubKeyHash key) sigversion key = some sig := by
      rw [CanSign, nRequired, keys, List.countP_singleton] at hsign
      exact Option.isSome_iff_exists.mp (by by_contra hno; simp [hno] at hsign)
    have hanswer := pushSigs_single (creator.sigFor hashes (pubKeyHash key) sigversion) key
    rw [hsig] at hanswer
    rw [answer, nRequired, keys, hanswer]
    exact evalScript_pubKeyHash hsizes h hsound hsig
  | multisig m keys =>
    rw [answer, List.reverse_cons]
    refine evalScript_multisig hsizes h hsound rfl ?_
    rw [CombineMultisig.length_pushSigs]
    exact Nat.min_eq_left hsign

theorem answer_pushable (h : ks.WellFormed sigversion)
    (hsound : creator.Sound hashes checker ks sigversion) :
    (answer hashes creator ks sigversion).length ≤ 17 ∧
      ∀ v ∈ answer hashes creator ks sigversion, Pushable v := by
  have hlen := CombineMultisig.length_pushSigs (creator.sigFor hashes ks sigversion) ks.nRequired
    ks.keys
  have hsigs : ∀ v ∈ CombineMultisig.pushSigs (creator.sigFor hashes ks sigversion) ks.nRequired
      ks.keys, Pushable v := fun v hv => by
    obtain ⟨key, hkey, hsig⟩ := mem_signed ks hv
    obtain ⟨hmin, hmax, -⟩ := (hsound.standard key hkey v hsig).shape
    exact ⟨by omega, hmax.trans (by decide)⟩
  have hm := h.required.2
  have hfew := h.few
  cases ks with
  | pubKey key => exact ⟨by rw [answer]; omega, hsigs⟩
  | pubKeyHash key =>
    obtain ⟨hmin, hmax, -⟩ := (h.standard key (List.mem_singleton_self key)).shape
    refine ⟨?_, fun v hv => ?_⟩
    · rw [answer, List.length_append, List.length_singleton]
      have : nRequired (pubKeyHash key) = 1 := rfl
      omega
    · rcases List.mem_append.mp hv with hv | hv
      · exact hsigs v hv
      · rw [List.mem_singleton.mp hv]
        exact ⟨by omega, hmax.trans (by decide)⟩
  | multisig m keys =>
    refine ⟨?_, fun v hv => ?_⟩
    · rw [answer, List.length_cons]
      omega
    · rcases List.mem_cons.mp hv with rfl | hv
      · exact ⟨by decide, by decide⟩
      · exact hsigs v hv

end KeyScript

end AnkerNode
