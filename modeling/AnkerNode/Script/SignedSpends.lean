import AnkerNode.Script.KeyScripts
import AnkerNode.Script.SigOpBound
import AnkerNode.Validation.BlockSignature
import AnkerNode.Validation.SignatureHash

namespace AnkerNode

open Checks Traced

namespace ScriptContext

variable {hashes : ScriptHashes} {checker : BaseSignatureChecker} {values : List Valtype}
  {redeem scriptPubKey : CScript} {program : Valtype} {witness : CScriptWitness}

def payToScriptHash (id : Valtype) : CScript := getScriptForDestination (.CScriptID id)

-- version 0 of a witness program
def payToWitness (program : Valtype) : CScript := [OP_0] ++ CScript.pushData program

theorem payToScriptHash_eq {id : Valtype} (hid : id.length = 20) :
    payToScriptHash id = OP_HASH160 :: 20 :: (id ++ [OP_EQUAL]) := by
  simp [payToScriptHash, getScriptForDestination, CScript.pushData_short (b := id) (by omega), hid]

theorem isPayToScriptHash_of_hash {id : Valtype} (hid : id.length = 20) :
    (payToScriptHash id).isPayToScriptHash = true ∧ (payToScriptHash id).isWitnessProgram = none := by
  rw [payToScriptHash_eq hid]
  have hversion : OP_HASH160 ≠ OP_0 ∧ (OP_HASH160 < OP_1 ∨ OP_16 < OP_HASH160) := by decide
  refine ⟨by simp [CScript.isPayToScriptHash, hid], ?_⟩
  rw [CScript.isWitnessProgram, if_pos (c := _ ∧ _) hversion, ite_self]

-- The script that is paid to by its hash is compared and left out.
theorem evalScript_payToScriptHash {stack : List Valtype}
    (hhash : (hashes.hash160 redeem).length = 20) (hroom : stack.length ≤ 900) :
    ((ScriptContext.mk hashes checker).evalScript STANDARD_SCRIPT_VERIFY_FLAGS .SIGVERSION_BASE
      (redeem :: stack) (payToScriptHash (hashes.hash160 redeem))).result = .ok ([1] :: stack) := by
  have hops : (payToScriptHash (hashes.hash160 redeem)).instructions =
      [some ⟨OP_HASH160, [], 20 :: (hashes.hash160 redeem ++ [OP_EQUAL])⟩,
        some ⟨20, hashes.hash160 redeem, [OP_EQUAL]⟩, some ⟨OP_EQUAL, [], []⟩] := by
    rw [payToScriptHash_eq hhash, CScript.instructions_cons (by decide),
      CScript.instructions_push (by decide) hhash, CScript.instructions_cons (by decide),
      CScript.instructions_nil]
  have hsize : (payToScriptHash (hashes.hash160 redeem)).length ≤ 10000 := by
    rw [payToScriptHash_eq hhash]
    simp only [List.length_cons, List.length_append, List.length_nil]
    omega
  refine evalScript_of_runs ⟨[1] :: stack, [], [], 2,
    payToScriptHash (hashes.hash160 redeem)⟩ hsize ?_ rfl
  rw [hops]
  refine runs_cons (step_opcode 0 ⟨hashes.hash160 redeem :: stack, [], [], 1,
    payToScriptHash (hashes.hash160 redeem)⟩ rfl (by decide) (by decide) rfl (by decide) rfl
    (by simp only [List.length_cons, List.length_nil]; omega)) ?_
  refine runs_cons (step_push rfl (show (20 : UInt8) ≤ CScript.OP_PUSHDATA4 by decide) ?_
    (by rw [hhash]; decide) (by simp only [List.length_cons, List.length_nil]; omega)) ?_
  · have hpush := @checkMinimalPush_pushOpcode (hashes.hash160 redeem)
      ⟨by rw [hhash]; decide, by rw [hhash]; decide⟩
    rw [hhash] at hpush
    exact hpush
  refine runs_cons (step_opcode 1 _ rfl (by decide) (by decide) rfl (by decide)
    (evalEqual_ok rfl)
    (by simp only [List.length_cons, EvalState.push, List.length_nil]; omega)) (runs_nil _)

theorem standard_flags : hasFlag STANDARD_SCRIPT_VERIFY_FLAGS SCRIPT_VERIFY_SIGPUSHONLY = false ∧
    hasFlag STANDARD_SCRIPT_VERIFY_FLAGS SCRIPT_VERIFY_WITNESS = true ∧
    hasFlag STANDARD_SCRIPT_VERIFY_FLAGS SCRIPT_VERIFY_P2SH = true ∧
    hasFlag STANDARD_SCRIPT_VERIFY_FLAGS SCRIPT_VERIFY_CLEANSTACK = true := by decide

-- What `VerifyScript` does once the two scripts are run, under the standard flags.
theorem verifyScript_eq_ok {scriptSig : CScript} {stackCopy : List Valtype} (stack : List Valtype)
    (state state' : List Valtype × Bool)
    (hsig : ((ScriptContext.mk hashes checker).evalScript STANDARD_SCRIPT_VERIFY_FLAGS
      .SIGVERSION_BASE [] scriptSig).result = .ok stackCopy)
    (hpub : ((ScriptContext.mk hashes checker).evalScript STANDARD_SCRIPT_VERIFY_FLAGS
      .SIGVERSION_BASE stackCopy scriptPubKey).result = .ok stack)
    (htrue : requireTrue stack = .ok ())
    (hwitness : ((ScriptContext.mk hashes checker).verifyWitness STANDARD_SCRIPT_VERIFY_FLAGS witness
      scriptPubKey (!scriptSig.isEmpty) .SCRIPT_ERR_WITNESS_MALLEATED stack false).result = .ok state)
    (hhash : ((ScriptContext.mk hashes checker).verifyScriptHash STANDARD_SCRIPT_VERIFY_FLAGS witness
      scriptSig scriptPubKey stackCopy state).result = .ok state')
    (hclean : state'.1.length = 1) (hexpected : state'.2 = true ∨ witness = []) :
    ((ScriptContext.mk hashes checker).verifyScript STANDARD_SCRIPT_VERIFY_FLAGS scriptSig
      scriptPubKey witness).result = .ok () := by
  obtain ⟨hpushonly, hflagw, hflagp, hflagc⟩ := standard_flags
  rw [verifyScript, hpushonly]
  refine result_bind_eq_ok.mpr ⟨(), rfl, result_bind_eq_ok.mpr ⟨stackCopy, hsig,
    result_bind_eq_ok.mpr ⟨stack, hpub, result_bind_eq_ok.mpr ⟨(), htrue,
    result_bind_eq_ok.mpr ⟨state, hwitness, result_bind_eq_ok.mpr ⟨state', hhash,
    result_bind_eq_ok.mpr ⟨(), ?_, ?_⟩⟩⟩⟩⟩⟩⟩
  · rw [liftM_eq, result_lift, requireCleanStack, hflagc, hflagp, hflagw, hclean]
    rfl
  · rw [liftM_eq, result_lift, requireExpectedWitness, hflagw, hflagp]
    rcases hexpected with h | h
    · rw [h]
      rfl
    · rw [h]
      cases state'.2 <;> rfl

theorem verifyScript_plain (hvalues : ∀ v ∈ values, Pushable v) (hcount : values.length ≤ 18)
    (heval : ((ScriptContext.mk hashes checker).evalScript STANDARD_SCRIPT_VERIFY_FLAGS
      .SIGVERSION_BASE values.reverse scriptPubKey).result = .ok [[1]])
    (hprogram : scriptPubKey.isWitnessProgram = none)
    (hscripthash : ¬ scriptPubKey.isPayToScriptHash = true) :
    ((ScriptContext.mk hashes checker).verifyScript STANDARD_SCRIPT_VERIFY_FLAGS (PushAll values)
      scriptPubKey []).result = .ok () := by
  refine verifyScript_eq_ok [[1]] ([[1]], false) ([[1]], false)
    (evalScript_pushes _ hvalues hcount) heval rfl ?_ ?_ rfl (.inr rfl)
  · rw [verifyWitness, standard_flags.2.1, if_pos rfl, hprogram]
    rfl
  · rw [verifyScriptHash_of_not _ hscripthash]
    rfl

-- the script that is paid to by its hash, once it is on top of the stack
theorem verifyScript_scripthash (values : List Valtype) (state : List Valtype × Bool)
    (hvalues : ∀ v ∈ values, Pushable v) (hcount : values.length ≤ 17)
    (hredeem : Pushable redeem) (hhash : (hashes.hash160 redeem).length = 20)
    {stack : List Valtype} (heval : ((ScriptContext.mk hashes checker).evalScript
      STANDARD_SCRIPT_VERIFY_FLAGS .SIGVERSION_BASE values.reverse redeem).result = .ok stack)
    (htrue : requireTrue stack = .ok ())
    (hwitness : ((ScriptContext.mk hashes checker).verifyWitness STANDARD_SCRIPT_VERIFY_FLAGS witness
      redeem (PushAll (values ++ [redeem]) != CScript.pushData redeem)
      .SCRIPT_ERR_WITNESS_MALLEATED_P2SH stack false).result = .ok state)
    (hclean : state.1.length = 1) (hexpected : state.2 = true ∨ witness = []) :
    ((ScriptContext.mk hashes checker).verifyScript STANDARD_SCRIPT_VERIFY_FLAGS
      (PushAll (values ++ [redeem])) (payToScriptHash (hashes.hash160 redeem)) witness).result =
        .ok () := by
  have hpushes : ∀ v ∈ values ++ [redeem], Pushable v := fun v hv => by
    rcases List.mem_append.mp hv with hv | hv
    · exact hvalues v hv
    · rw [List.mem_singleton.mp hv]
      exact hredeem
  have hlength : (values ++ [redeem]).length ≤ 18 := by
    rw [List.length_append, List.length_singleton]
    omega
  have hcopy : ((ScriptContext.mk hashes checker).evalScript STANDARD_SCRIPT_VERIFY_FLAGS
      .SIGVERSION_BASE [] (PushAll (values ++ [redeem]))).result =
        .ok (values ++ [redeem]).reverse := evalScript_pushes _ hpushes hlength
  rw [List.reverse_append, List.reverse_singleton, List.singleton_append] at hcopy
  obtain ⟨hscripthash, hprogram⟩ := isPayToScriptHash_of_hash hhash
  refine verifyScript_eq_ok ([1] :: values.reverse) ([1] :: values.reverse, false) state hcopy
    (evalScript_payToScriptHash hhash (by rw [List.length_reverse]; omega)) rfl ?_ ?_ hclean hexpected
  · rw [verifyWitness, standard_flags.2.1, if_pos rfl, hprogram]
    rfl
  · rw [verifyScriptHash, if_pos ⟨standard_flags.2.2.1, hscripthash⟩, isPushOnly_pushAll hpushes hlength]
    exact result_bind_eq_ok.mpr ⟨(), rfl, result_bind_eq_ok.mpr ⟨stack, heval,
      result_bind_eq_ok.mpr ⟨(), htrue, hwitness⟩⟩⟩

section Witness

theorem payToWitness_eq (program : Valtype) (hshort : program.length < 76) :
    payToWitness program = OP_0 :: UInt8.ofNat program.length :: program := by
  rw [payToWitness, CScript.pushData_short hshort, List.singleton_append]

theorem isWitnessProgram_payToWitness (hmin : 2 ≤ program.length) (hmax : program.length ≤ 40) :
    (payToWitness program).isWitnessProgram = some (0, program) := by
  have hsize : (UInt8.ofNat program.length).toNat = program.length := by
    rw [UInt8.toNat_ofNat']
    omega
  rw [payToWitness_eq _ (by omega), CScript.isWitnessProgram]
  simp only [List.length_cons, hsize]
  rw [if_neg (by omega), if_neg (by simp), if_pos trivial]
  rfl

theorem payToWitness_pushAll (hmin : 2 ≤ program.length) :
    payToWitness program = PushAll [[], program] := by
  rw [CScript.PushAll_eq_flatMap]
  · simp only [List.flatMap_cons, List.flatMap_nil, List.append_nil]
    rfl
  · intro v hv
    rcases List.mem_cons.mp hv with rfl | hv
    · decide
    · rw [List.mem_singleton.mp hv]
      omega

theorem evalScript_payToWitness (hmin : 2 ≤ program.length) (hmax : program.length ≤ 40) :
    ((ScriptContext.mk hashes checker).evalScript STANDARD_SCRIPT_VERIFY_FLAGS .SIGVERSION_BASE []
      (payToWitness program)).result = .ok [program, []] := by
  rw [payToWitness_pushAll hmin]
  refine evalScript_pushes [[], program] (fun v hv => ?_) (by simp)
  rcases List.mem_cons.mp hv with rfl | hv
  · exact ⟨by decide, by decide⟩
  · rw [List.mem_singleton.mp hv]
    exact ⟨by omega, hmax.trans (by decide)⟩

theorem verifyWitness_program (malleated : Bool) (serror : ScriptError) (stack : List Valtype)
    (hadWitness : Bool) (hmin : 2 ≤ program.length) (hmax : program.length ≤ 40)
    (hmalleated : malleated = false) (hstack : stack.length = 2)
    (hprogram : ((ScriptContext.mk hashes checker).verifyWitnessProgram STANDARD_SCRIPT_VERIFY_FLAGS
      witness 0 program).result = .ok ()) :
    ∃ state, ((ScriptContext.mk hashes checker).verifyWitness STANDARD_SCRIPT_VERIFY_FLAGS witness
      (payToWitness program) malleated serror stack hadWitness).result = .ok state ∧
        state.1.length = 1 ∧ state.2 = true := by
  refine ⟨(resizeToOne stack, true), ?_, ?_, rfl⟩
  · rw [verifyWitness, standard_flags.2.1, if_pos rfl, isWitnessProgram_payToWitness hmin hmax,
      hmalleated]
    exact result_bind_eq_ok.mpr ⟨(), rfl, result_bind_eq_ok.mpr ⟨(), hprogram, rfl⟩⟩
  · rw [resizeToOne, List.length_drop]
    omega

theorem verifyScript_witness (hmin : 2 ≤ program.length) (hmax : program.length ≤ 40)
    (htrue : castToBool program = true)
    (hprogram : ((ScriptContext.mk hashes checker).verifyWitnessProgram STANDARD_SCRIPT_VERIFY_FLAGS
      witness 0 program).result = .ok ()) :
    ((ScriptContext.mk hashes checker).verifyScript STANDARD_SCRIPT_VERIFY_FLAGS (PushAll [])
      (payToWitness program) witness).result = .ok () := by
  obtain ⟨state, hwitness, hclean, hhad⟩ := verifyWitness_program
    (!(PushAll []).isEmpty) .SCRIPT_ERR_WITNESS_MALLEATED [program, []] false hmin hmax rfl rfl hprogram
  have hscripthash : ¬ (payToWitness program).isPayToScriptHash = true := by
    rw [payToWitness_eq _ (by omega)]
    simp [CScript.isPayToScriptHash, show OP_0 ≠ OP_HASH160 by decide]
  refine verifyScript_eq_ok _ _ state (evalScript_pushes [] (List.forall_mem_nil _) (by decide))
    (evalScript_payToWitness hmin hmax) ?_ hwitness ?_ hclean (.inl hhad)
  · rw [requireTrue, htrue]
    rfl
  · rw [verifyScriptHash_of_not _ hscripthash]
    rfl

theorem verifyScript_witness_scripthash (hmin : 2 ≤ program.length) (hmax : program.length ≤ 40)
    (htrue : castToBool program = true)
    (hhash : (hashes.hash160 (payToWitness program)).length = 20)
    (hprogram : ((ScriptContext.mk hashes checker).verifyWitnessProgram STANDARD_SCRIPT_VERIFY_FLAGS
      witness 0 program).result = .ok ()) :
    ((ScriptContext.mk hashes checker).verifyScript STANDARD_SCRIPT_VERIFY_FLAGS
      (PushAll [payToWitness program]) (payToScriptHash (hashes.hash160 (payToWitness program)))
      witness).result = .ok () := by
  have hlength : (payToWitness program).length = program.length + 2 := by
    rw [payToWitness_eq _ (by omega)]
    rfl
  have hredeem : Pushable (payToWitness program) := ⟨by omega, by
    have : MAX_SCRIPT_ELEMENT_SIZE = 520 := rfl
    omega⟩
  have hsame : (PushAll ([] ++ [payToWitness program]) != CScript.pushData (payToWitness program)) =
      false := by
    rw [List.nil_append, CScript.PushAll_eq_flatMap fun v hv => List.mem_singleton.mp hv ▸ hredeem.1,
      List.flatMap_singleton]
    exact bne_self_eq_false _
  obtain ⟨state, hwitness, hclean, hhad⟩ := verifyWitness_program
    (PushAll ([] ++ [payToWitness program]) != CScript.pushData (payToWitness program))
    .SCRIPT_ERR_WITNESS_MALLEATED_P2SH [program, []] false hmin hmax hsame rfl hprogram
  refine verifyScript_scripthash [] state (List.forall_mem_nil _) (by decide) hredeem hhash
    (evalScript_payToWitness hmin hmax) ?_ hwitness hclean (.inl hhad)
  rw [requireTrue, htrue]
  rfl

theorem verifyWitnessProgram_eq_ok {stack : List Valtype} {script : CScript}
    (hscript : (ScriptContext.mk hashes checker).witnessScript witness program = .ok (stack, script))
    (hstack : ∀ v ∈ stack, Pushable v)
    (heval : ((ScriptContext.mk hashes checker).evalScript STANDARD_SCRIPT_VERIFY_FLAGS
      .SIGVERSION_WITNESS_V0 stack script).result = .ok [[1]]) :
    ((ScriptContext.mk hashes checker).verifyWitnessProgram STANDARD_SCRIPT_VERIFY_FLAGS witness 0
      program).result = .ok () := by
  have hsize : (stack.any fun vch => decide (MAX_SCRIPT_ELEMENT_SIZE < vch.length)) = false := by
    rw [List.any_eq_false]
    intro v hv
    rw [decide_eq_true_eq]
    exact Nat.not_lt.mpr (hstack v hv).2
  rw [verifyWitnessProgram, if_pos rfl]
  refine result_bind_eq_ok.mpr ⟨(stack, script), hscript, result_bind_eq_ok.mpr ⟨(), ?_,
    result_bind_eq_ok.mpr ⟨[[1]], heval, rfl⟩⟩⟩
  rw [hsize]
  rfl

theorem witnessScript_scripthash {answer : List Valtype} {script : CScript}
    (hlength : (hashes.sha256 script).length = 32) :
    (ScriptContext.mk hashes checker).witnessScript (answer ++ [script]) (hashes.sha256 script) =
      .ok (answer.reverse, script) := by
  rw [witnessScript, if_pos hlength, List.reverse_append, List.reverse_singleton,
    List.singleton_append]
  dsimp only
  rw [bne_self_eq_false]
  rfl

theorem witnessScript_keyhash {answer : List Valtype} (hprogram : program.length = 20)
    (hlength : answer.length = 2) :
    (ScriptContext.mk hashes checker).witnessScript answer program =
      .ok (answer.reverse, payToPubKeyHash program) := by
  rw [witnessScript, if_neg (by omega), if_pos hprogram, hlength]
  rfl

end Witness

end ScriptContext
-- an output that a wallet makes for its own keys
inductive WalletOutput
  | bare (ks : KeyScript)
  | scripthash (ks : KeyScript)
  | witnessScripthash (ks : KeyScript)
  | witnessInScripthash (ks : KeyScript)
  | witnessKeyhash (key : Valtype)
  | witnessKeyhashInScripthash (key : Valtype)

namespace WalletOutput

open BaseSignatureCreator KeyScript ScriptContext

variable (hashes : ScriptHashes)

def keyScript : WalletOutput → KeyScript
  | bare ks | scripthash ks | witnessScripthash ks | witnessInScripthash ks => ks
  | witnessKeyhash key | witnessKeyhashInScripthash key => .pubKeyHash key

def sigversion : WalletOutput → SigVersion
  | bare _ | scripthash _ => .SIGVERSION_BASE
  | _ => .SIGVERSION_WITNESS_V0

-- the witness program of the output, in it or behind its script hash
def program : WalletOutput → Option Valtype
  | bare _ | scripthash _ => none
  | witnessScripthash ks | witnessInScripthash ks => some (hashes.sha256 (ks.script hashes))
  | witnessKeyhash key | witnessKeyhashInScripthash key => some (hashes.hash160 key)

-- the scripts behind hashes that the key store has to have
def redeemScripts : WalletOutput → List CScript
  | bare _ | witnessKeyhash _ => []
  | scripthash ks | witnessScripthash ks => [ks.script hashes]
  | witnessInScripthash ks =>
    [getScriptForDestination (.WitnessV0ScriptHash (hashes.sha256 (ks.script hashes))),
      ks.script hashes]
  | witnessKeyhashInScripthash key =>
    [getScriptForDestination (.WitnessV0KeyHash (hashes.hash160 key))]

def scriptPubKey : WalletOutput → CScript
  | bare ks => ks.script hashes
  | scripthash ks => getScriptForDestination (.CScriptID (hashes.hash160 (ks.script hashes)))
  | witnessScripthash ks =>
    getScriptForDestination (.WitnessV0ScriptHash (hashes.sha256 (ks.script hashes)))
  | witnessInScripthash ks => getScriptForDestination (.CScriptID (hashes.hash160
      (getScriptForDestination (.WitnessV0ScriptHash (hashes.sha256 (ks.script hashes))))))
  | witnessKeyhash key => getScriptForDestination (.WitnessV0KeyHash (hashes.hash160 key))
  | witnessKeyhashInScripthash key => getScriptForDestination (.CScriptID (hashes.hash160
      (getScriptForDestination (.WitnessV0KeyHash (hashes.hash160 key)))))

-- No witness program is a number that a script takes for false.
structure Spendable (creator : BaseSignatureCreator) (out : WalletOutput) : Prop where
  wellFormed : out.keyScript.WellFormed out.sigversion
  known : ∀ script ∈ out.redeemScripts hashes, script.length ≤ MAX_SCRIPT_ELEMENT_SIZE ∧
    creator.keystore.getCScript (hashes.hash160 script) = some script
  program : ∀ program ∈ out.program hashes, castToBool program = true

end WalletOutput

-- the hashes are of the sizes their names say, and `OP_HASH160` is the one of the other
structure HashLaws (hashes : ScriptHashes) : Prop where
  sizes : HashSizes hashes
  hash160 : ∀ vch, hashes.hash160 vch = hashes.ripemd160 (hashes.sha256 vch)

namespace WalletOutput

open BaseSignatureCreator KeyScript ScriptContext

variable {hashes : ScriptHashes} {creator : BaseSignatureCreator} {checker : BaseSignatureChecker}
  {out : WalletOutput} {ks : KeyScript} {script : CScript}

theorem solver_payToScriptHash {id : Valtype} (hid : id.length = 20) :
    (getScriptForDestination (.CScriptID id)).solver = some (.TX_SCRIPTHASH, [id]) := by
  have hscript := payToScriptHash_eq hid
  have hhash := (isPayToScriptHash_of_hash hid).1
  rw [payToScriptHash] at hscript hhash
  rw [CScript.solver, if_pos hhash, hscript]
  simp [← hid]

theorem solver_payToWitness {program : Valtype} (hlength : program.length = 20 ∨ program.length = 32) :
    (payToWitness program).solver = some (if program.length = 20 then .TX_WITNESS_V0_KEYHASH
      else .TX_WITNESS_V0_SCRIPTHASH, [program]) := by
  have hprogram : (payToWitness program).isWitnessProgram = some (0, program) :=
    isWitnessProgram_payToWitness (by omega) (by omega)
  have hscript := payToWitness_eq program (by omega)
  rw [CScript.solver, hprogram, hscript]
  have h1 : ¬ CScript.isPayToScriptHash (OP_0 :: UInt8.ofNat program.length :: program) = true := by
    simp [CScript.isPayToScriptHash, show OP_0 ≠ OP_HASH160 by decide]
  have h2 : ¬ (OP_0 :: UInt8.ofNat program.length :: program).head? = some OP_ZEROCOINMINT := by
    simp [show OP_0 ≠ OP_ZEROCOINMINT by decide]
  rw [if_neg h1, if_neg h2]
  dsimp only
  rw [CScript.solveWitness]
  rcases hlength with h | h
  · rw [if_pos ⟨rfl, h⟩, if_pos h]
  · rw [if_neg (by omega), if_pos ⟨rfl, h⟩, if_neg (by omega)]

-- The steps of `ProduceSignature` into what an output names the hash of.
theorem signStep_scripthash (hsize : (hashes.hash160 script).length = 20)
    (hknown : creator.keystore.getCScript (hashes.hash160 script) = some script)
    (sigversion : SigVersion) :
    creator.signStep hashes (getScriptForDestination (.CScriptID (hashes.hash160 script))) sigversion =
      ⟨some .TX_SCRIPTHASH, [script], true⟩ := by
  rw [signStep, solver_payToScriptHash hsize]
  dsimp only [List.headD_cons]
  rw [hknown]

theorem signStep_witnessScripthash (hlaws : HashLaws hashes)
    (hknown : creator.keystore.getCScript (hashes.hash160 script) = some script)
    (sigversion : SigVersion) :
    creator.signStep hashes (payToWitness (hashes.sha256 script)) sigversion =
      ⟨some .TX_WITNESS_V0_SCRIPTHASH, [script], true⟩ := by
  have h32 := hlaws.sizes.sha256 script
  rw [hlaws.hash160] at hknown
  rw [signStep, solver_payToWitness (.inr h32), if_neg (by omega)]
  dsimp only [List.headD_cons]
  rw [hknown]

theorem signStep_witnessKeyhash {program : Valtype} (hsize : program.length = 20)
    (sigversion : SigVersion) :
    creator.signStep hashes (payToWitness program) sigversion =
      ⟨some .TX_WITNESS_V0_KEYHASH, [program], true⟩ := by
  rw [signStep, solver_payToWitness (.inl hsize), if_pos hsize]
  rfl

end WalletOutput

namespace WalletOutput

open BaseSignatureCreator KeyScript ScriptContext

variable {hashes : ScriptHashes} {creator : BaseSignatureCreator} {checker : BaseSignatureChecker}
  {out : WalletOutput} {ks : KeyScript} {script fromPubKey : CScript} {sigversion : SigVersion}

-- The test of the solution decides nothing where the solution verifies.
theorem produceSignature_eq (values : List Valtype) {step : SignStepResult} {solved : Bool}
    {result : List Valtype} {witness : CScriptWitness}
    (hstep : creator.signStep hashes fromPubKey .SIGVERSION_BASE = step)
    (hsigned : creator.signWitness hashes (creator.signScriptHash hashes step) =
      (solved, result, witness))
    (hvalues : (if step.solved && decide (step.whichType = some .TX_SCRIPTHASH) then
      result ++ [step.ret.headD []] else result) = values)
    (hverify : solved = true → ((ScriptContext.mk hashes checker).verifyScript
      STANDARD_SCRIPT_VERIFY_FLAGS (PushAll values) fromPubKey witness).result = .ok ()) :
    (creator.produceSignature hashes checker fromPubKey).1 = solved := by
  have hproduce : (creator.produceSignature hashes checker fromPubKey).1 =
      (solved && ((ScriptContext.mk hashes checker).verifyScript STANDARD_SCRIPT_VERIFY_FLAGS
        (PushAll values) fromPubKey witness).result.isOk) := by
    rw [produceSignature, hstep]
    simp only [hsigned, hvalues]
  rw [hproduce]
  cases solved with
  | false => rfl
  | true =>
    rw [hverify rfl]
    rfl

theorem whichType_ne (ks : KeyScript) : ks.whichType ≠ .TX_SCRIPTHASH ∧
    ks.whichType ≠ .TX_WITNESS_V0_KEYHASH ∧ ks.whichType ≠ .TX_WITNESS_V0_SCRIPTHASH := by
  cases ks with
  | pubKey key => exact ⟨nofun, nofun, nofun⟩
  | pubKeyHash key => exact ⟨nofun, nofun, nofun⟩
  | multisig nRequired keys => exact ⟨nofun, nofun, nofun⟩

theorem signScriptHash_of_key {step : SignStepResult} (h : step.whichType = some ks.whichType) :
    creator.signScriptHash hashes step = step := by
  have hne : ¬ (step.solved = true ∧ step.whichType = some .TX_SCRIPTHASH) := by
    rw [h]
    exact fun hboth => (whichType_ne ks).1 (Option.some.inj hboth.2)
  rw [signScriptHash, if_neg hne]

theorem signScriptHash_into {sub : SignStepResult}
    (hsub : creator.signStep hashes script .SIGVERSION_BASE = sub)
    (hne : sub.whichType ≠ some .TX_SCRIPTHASH) :
    creator.signScriptHash hashes ⟨some .TX_SCRIPTHASH, [script], true⟩ = sub := by
  obtain ⟨whichType, ret, solved⟩ := sub
  rw [signScriptHash, if_pos ⟨rfl, rfl⟩]
  dsimp only [List.headD_cons]
  rw [hsub, decide_eq_true hne, Bool.and_true]

theorem signWitness_of_key {step : SignStepResult} (h : step.whichType = some ks.whichType) :
    creator.signWitness hashes step = (step.solved, step.ret, []) := by
  have hkey : ¬ (step.solved = true ∧ step.whichType = some .TX_WITNESS_V0_KEYHASH) := by
    rw [h]
    exact fun hboth => (whichType_ne ks).2.1 (Option.some.inj hboth.2)
  have hscript : ¬ (step.solved = true ∧ step.whichType = some .TX_WITNESS_V0_SCRIPTHASH) := by
    rw [h]
    exact fun hboth => (whichType_ne ks).2.2 (Option.some.inj hboth.2)
  rw [signWitness, if_neg hkey, if_neg hscript]

theorem signWitness_scripthash (h : (creator.signStep hashes (ks.script hashes)
    .SIGVERSION_WITNESS_V0).whichType = some ks.whichType) :
    creator.signWitness hashes ⟨some .TX_WITNESS_V0_SCRIPTHASH, [ks.script hashes], true⟩ =
      ((creator.signStep hashes (ks.script hashes) .SIGVERSION_WITNESS_V0).solved, [],
        (creator.signStep hashes (ks.script hashes) .SIGVERSION_WITNESS_V0).ret ++
          [ks.script hashes]) := by
  obtain ⟨hne, hnekey, hnescript⟩ := whichType_ne ks
  rw [signWitness, if_neg (by simp), if_pos ⟨rfl, rfl⟩]
  simp [h, hne, hnekey, hnescript]

-- the witness that is made for a script behind its hash
theorem verifyProgram_scripthash (hlaws : HashLaws hashes)
    (h : ks.WellFormed .SIGVERSION_WITNESS_V0)
    (hsound : creator.Sound hashes checker ks .SIGVERSION_WITNESS_V0)
    (hsign : creator.CanSign hashes ks .SIGVERSION_WITNESS_V0) :
    ((ScriptContext.mk hashes checker).verifyWitnessProgram STANDARD_SCRIPT_VERIFY_FLAGS
      (answer hashes creator ks .SIGVERSION_WITNESS_V0 ++ [ks.script hashes]) 0
      (hashes.sha256 (ks.script hashes))).result = .ok () := by
  have hpush := (answer_pushable h hsound).2
  exact verifyWitnessProgram_eq_ok (witnessScript_scripthash (hlaws.sizes.sha256 _))
    (fun v hv => hpush v (List.mem_reverse.mp hv)) (evalScript_answer hlaws.sizes h hsound hsign)

theorem verifyProgram_keyhash {key : Valtype} (hlaws : HashLaws hashes)
    (h : (KeyScript.pubKeyHash key).WellFormed .SIGVERSION_WITNESS_V0)
    (hsound : creator.Sound hashes checker (.pubKeyHash key) .SIGVERSION_WITNESS_V0)
    (hsign : creator.CanSign hashes (.pubKeyHash key) .SIGVERSION_WITNESS_V0) :
    ((ScriptContext.mk hashes checker).verifyWitnessProgram STANDARD_SCRIPT_VERIFY_FLAGS
      (answer hashes creator (.pubKeyHash key) .SIGVERSION_WITNESS_V0) 0
      (hashes.hash160 key)).result = .ok () := by
  have hpush := (answer_pushable h hsound).2
  have hlength : (answer hashes creator (.pubKeyHash key) .SIGVERSION_WITNESS_V0).length = 2 := by
    have hsigs := CombineMultisig.length_pushSigs
      (creator.sigFor hashes (.pubKeyHash key) .SIGVERSION_WITNESS_V0) 1 [key]
    have hone : min 1 ([key].countP fun key' => (creator.sigFor hashes (.pubKeyHash key)
        .SIGVERSION_WITNESS_V0 key').isSome) = 1 := Nat.min_eq_left hsign
    rw [answer, List.length_append, List.length_singleton, nRequired, keys, hsigs, hone]
  exact verifyWitnessProgram_eq_ok (witnessScript_keyhash (hlaws.sizes.hash160 key) hlength)
    (fun v hv => hpush v (List.mem_reverse.mp hv)) (evalScript_answer hlaws.sizes h hsound hsign)

theorem script_length_ne (h : ks.WellFormed sigversion) : (ks.script hashes).length ≠ 1 := by
  cases ks with
  | pubKey key =>
    obtain ⟨hmin, hmax, -⟩ := (h.standard key (List.mem_singleton_self key)).shape
    have hpush : (CScript.pushData key).length = key.length + 1 := by
      rw [CScript.pushData_short (by omega), List.length_cons]
    rw [KeyScript.script, getScriptForRawPubKey, List.length_append, hpush, List.length_singleton]
    omega
  | pubKeyHash key =>
    simp only [KeyScript.script, getScriptForDestination, List.length_append, List.length_cons]
    omega
  | multisig nRequired keys =>
    simp only [KeyScript.script, getScriptForMultisig, List.length_append, List.length_cons]
    omega

-- No script of keys names a program or a hash.
theorem script_plain (hsizes : HashSizes hashes) (h : ks.WellFormed sigversion) :
    (ks.script hashes).isWitnessProgram = none ∧ ¬ (ks.script hashes).isPayToScriptHash = true := by
  have hsolver := solver_script hsizes h
  obtain ⟨hne, hnekey, hnescript⟩ := whichType_ne ks
  generalize hstype : ks.whichType = t at hsolver hne hnekey hnescript
  generalize ks.vSolutions hashes = vSolutions at hsolver
  cases CScript.solver_branch hsolver with
  | scripthash => exact absurd rfl hne
  | mint => cases ks <;> cases hstype
  | nullData => cases ks <;> cases hstype
  | witness _ _ hprogram hwitness =>
    rw [CScript.solveWitness] at hwitness
    split_ifs at hwitness
    · cases hwitness
      exact absurd rfl hnekey
    · cases hwitness
      exact absurd rfl hnescript
    · cases hwitness
      cases ks <;> cases hstype
  | templates hscripthash _ hprogram _ _ => exact ⟨hprogram, hscripthash⟩

theorem produceSignature_bare (hsizes : HashSizes hashes) (h : ks.WellFormed .SIGVERSION_BASE)
    (hsound : creator.Sound hashes checker ks .SIGVERSION_BASE) :
    (creator.produceSignature hashes checker (ks.script hashes)).1 =
      (creator.signStep hashes (ks.script hashes) .SIGVERSION_BASE).solved := by
  obtain ⟨htype, hsolved, hret⟩ := signStep_script hsizes h hsound
  obtain ⟨hlength, hpush⟩ := answer_pushable h hsound
  obtain ⟨hprogram, hscripthash⟩ := script_plain hsizes h
  refine produceSignature_eq
    (creator.signStep hashes (ks.script hashes) .SIGVERSION_BASE).ret rfl
    ((congrArg _ (signScriptHash_of_key htype)).trans (signWitness_of_key htype)) ?_ fun hsign => ?_
  · rw [htype, if_neg]
    simpa using fun _ => (whichType_ne ks).1
  · rw [hret hsign]
    exact verifyScript_plain hpush (by omega)
      (evalScript_answer hsizes h hsound (hsolved.mp hsign)) hprogram hscripthash

theorem produceSignature_scripthash (hsizes : HashSizes hashes) (h : ks.WellFormed .SIGVERSION_BASE)
    (hsound : creator.Sound hashes checker ks .SIGVERSION_BASE)
    (hsize : (ks.script hashes).length ≤ MAX_SCRIPT_ELEMENT_SIZE)
    (hknown : creator.keystore.getCScript (hashes.hash160 (ks.script hashes)) =
      some (ks.script hashes)) :
    (creator.produceSignature hashes checker
      (getScriptForDestination (.CScriptID (hashes.hash160 (ks.script hashes))))).1 =
      (creator.signStep hashes (ks.script hashes) .SIGVERSION_BASE).solved := by
  obtain ⟨htype, hsolved, hret⟩ := signStep_script hsizes h hsound
  obtain ⟨hlength, hpush⟩ := answer_pushable h hsound
  obtain ⟨hprogram, -⟩ := script_plain hsizes h
  have hredeem : Pushable (ks.script hashes) := ⟨script_length_ne h, hsize⟩
  have hsub : creator.signScriptHash hashes ⟨some .TX_SCRIPTHASH, [ks.script hashes], true⟩ =
      creator.signStep hashes (ks.script hashes) .SIGVERSION_BASE :=
    signScriptHash_into rfl (by
      rw [htype]
      exact fun heq => (whichType_ne ks).1 (Option.some.inj heq))
  refine produceSignature_eq
    ((creator.signStep hashes (ks.script hashes) .SIGVERSION_BASE).ret ++ [ks.script hashes])
    (signStep_scripthash (hsizes.hash160 _) hknown _)
    ((congrArg _ hsub).trans (signWitness_of_key htype)) rfl fun hsign => ?_
  rw [hret hsign]
  refine verifyScript_scripthash _ ([[1]], false) hpush hlength hredeem (hsizes.hash160 _)
    (evalScript_answer hsizes h hsound (hsolved.mp hsign)) rfl ?_ rfl (.inr rfl)
  rw [verifyWitness, standard_flags.2.1, if_pos rfl, hprogram]
  rfl

theorem produceSignature_witnessScripthash (hlaws : HashLaws hashes)
    (h : ks.WellFormed .SIGVERSION_WITNESS_V0)
    (hsound : creator.Sound hashes checker ks .SIGVERSION_WITNESS_V0)
    (hknown : creator.keystore.getCScript (hashes.hash160 (ks.script hashes)) =
      some (ks.script hashes))
    (htrue : castToBool (hashes.sha256 (ks.script hashes)) = true) :
    (creator.produceSignature hashes checker (payToWitness (hashes.sha256 (ks.script hashes)))).1 =
      (creator.signStep hashes (ks.script hashes) .SIGVERSION_WITNESS_V0).solved := by
  obtain ⟨htype, hsolved, hret⟩ := signStep_script hlaws.sizes h hsound
  have h32 := hlaws.sizes.sha256 (ks.script hashes)
  refine produceSignature_eq [] (signStep_witnessScripthash hlaws hknown _)
    (signWitness_scripthash htype) rfl fun hsign => ?_
  rw [hret hsign]
  exact verifyScript_witness (by omega) (by omega) htrue
    (verifyProgram_scripthash hlaws h hsound (hsolved.mp hsign))

theorem produceSignature_witnessInScripthash (hlaws : HashLaws hashes)
    (h : ks.WellFormed .SIGVERSION_WITNESS_V0)
    (hsound : creator.Sound hashes checker ks .SIGVERSION_WITNESS_V0)
    (hknown : creator.keystore.getCScript (hashes.hash160 (ks.script hashes)) =
      some (ks.script hashes))
    (hprogram : creator.keystore.getCScript
      (hashes.hash160 (payToWitness (hashes.sha256 (ks.script hashes)))) =
        some (payToWitness (hashes.sha256 (ks.script hashes))))
    (htrue : castToBool (hashes.sha256 (ks.script hashes)) = true) :
    (creator.produceSignature hashes checker (getScriptForDestination (.CScriptID
      (hashes.hash160 (payToWitness (hashes.sha256 (ks.script hashes))))))).1 =
      (creator.signStep hashes (ks.script hashes) .SIGVERSION_WITNESS_V0).solved := by
  obtain ⟨htype, hsolved, hret⟩ := signStep_script hlaws.sizes h hsound
  have h32 := hlaws.sizes.sha256 (ks.script hashes)
  have hsub : creator.signScriptHash hashes
      ⟨some .TX_SCRIPTHASH, [payToWitness (hashes.sha256 (ks.script hashes))], true⟩ =
        ⟨some .TX_WITNESS_V0_SCRIPTHASH, [ks.script hashes], true⟩ :=
    signScriptHash_into (signStep_witnessScripthash hlaws hknown _) nofun
  refine produceSignature_eq [payToWitness (hashes.sha256 (ks.script hashes))]
    (signStep_scripthash (hlaws.sizes.hash160 _) hprogram _)
    ((congrArg _ hsub).trans (signWitness_scripthash htype)) rfl fun hsign => ?_
  rw [hret hsign]
  exact verifyScript_witness_scripthash (by omega) (by omega) htrue (hlaws.sizes.hash160 _)
    (verifyProgram_scripthash hlaws h hsound (hsolved.mp hsign))

section Keyhash

variable {key : Valtype}

theorem signWitness_keyhash (program : Valtype) :
    creator.signWitness hashes ⟨some .TX_WITNESS_V0_KEYHASH, [program], true⟩ =
      ((creator.signStep hashes (payToPubKeyHash program) .SIGVERSION_WITNESS_V0).solved, [],
        (creator.signStep hashes (payToPubKeyHash program) .SIGVERSION_WITNESS_V0).ret) := by
  rw [signWitness, if_pos ⟨rfl, rfl⟩]
  rfl

theorem produceSignature_witnessKeyhash (hlaws : HashLaws hashes)
    (h : (KeyScript.pubKeyHash key).WellFormed .SIGVERSION_WITNESS_V0)
    (hsound : creator.Sound hashes checker (.pubKeyHash key) .SIGVERSION_WITNESS_V0)
    (htrue : castToBool (hashes.hash160 key) = true) :
    (creator.produceSignature hashes checker (payToWitness (hashes.hash160 key))).1 =
      (creator.signStep hashes ((KeyScript.pubKeyHash key).script hashes)
        .SIGVERSION_WITNESS_V0).solved := by
  obtain ⟨-, hsolved, hret⟩ := signStep_script hlaws.sizes h hsound
  have h20 := hlaws.sizes.hash160 key
  refine produceSignature_eq [] (signStep_witnessKeyhash h20 _)
    (signWitness_keyhash _) rfl fun hsign => ?_
  rw [show (creator.signStep hashes (payToPubKeyHash (hashes.hash160 key))
    .SIGVERSION_WITNESS_V0).ret = _ from hret hsign]
  exact verifyScript_witness (by omega) (by omega) htrue
    (verifyProgram_keyhash hlaws h hsound (hsolved.mp hsign))

theorem produceSignature_witnessKeyhashInScripthash (hlaws : HashLaws hashes)
    (h : (KeyScript.pubKeyHash key).WellFormed .SIGVERSION_WITNESS_V0)
    (hsound : creator.Sound hashes checker (.pubKeyHash key) .SIGVERSION_WITNESS_V0)
    (hprogram : creator.keystore.getCScript (hashes.hash160 (payToWitness (hashes.hash160 key))) =
      some (payToWitness (hashes.hash160 key)))
    (htrue : castToBool (hashes.hash160 key) = true) :
    (creator.produceSignature hashes checker (getScriptForDestination (.CScriptID
      (hashes.hash160 (payToWitness (hashes.hash160 key)))))).1 =
      (creator.signStep hashes ((KeyScript.pubKeyHash key).script hashes)
        .SIGVERSION_WITNESS_V0).solved := by
  obtain ⟨-, hsolved, hret⟩ := signStep_script hlaws.sizes h hsound
  have h20 := hlaws.sizes.hash160 key
  have hsub : creator.signScriptHash hashes
      ⟨some .TX_SCRIPTHASH, [payToWitness (hashes.hash160 key)], true⟩ =
        ⟨some .TX_WITNESS_V0_KEYHASH, [hashes.hash160 key], true⟩ :=
    signScriptHash_into (signStep_witnessKeyhash h20 _) nofun
  refine produceSignature_eq [payToWitness (hashes.hash160 key)]
    (signStep_scripthash (hlaws.sizes.hash160 _) hprogram _)
    ((congrArg _ hsub).trans (signWitness_keyhash _)) rfl fun hsign => ?_
  rw [show (creator.signStep hashes (payToPubKeyHash (hashes.hash160 key))
    .SIGVERSION_WITNESS_V0).ret = _ from hret hsign]
  exact verifyScript_witness_scripthash (by omega) (by omega) htrue (hlaws.sizes.hash160 _)
    (verifyProgram_keyhash hlaws h hsound (hsolved.mp hsign))

end Keyhash

-- `ProduceSignature` signs for an output of the wallet exactly when enough of the keys sign: what it
-- puts together passes its own test.
theorem produceSignature_iff (hlaws : HashLaws hashes) (out : WalletOutput)
    (h : out.Spendable hashes creator)
    (hsound : creator.Sound hashes checker out.keyScript out.sigversion) :
    (creator.produceSignature hashes checker (out.scriptPubKey hashes)).1 = true ↔
      creator.CanSign hashes out.keyScript out.sigversion := by
  obtain ⟨hformed, hknown, htrue⟩ := h
  obtain ⟨-, hsolved, -⟩ := signStep_script hlaws.sizes hformed hsound
  rw [← hsolved]
  cases out with
  | bare ks => exact Bool.eq_iff_iff.mp (produceSignature_bare hlaws.sizes hformed hsound)
  | scripthash ks =>
    obtain ⟨hsize, hscript⟩ := hknown _ (List.mem_singleton_self (ks.script hashes))
    exact Bool.eq_iff_iff.mp
      (produceSignature_scripthash hlaws.sizes hformed hsound hsize hscript)
  | witnessScripthash ks =>
    have hscript := (hknown _ (List.mem_singleton_self (ks.script hashes))).2
    exact Bool.eq_iff_iff.mp
      (produceSignature_witnessScripthash hlaws hformed hsound hscript (htrue _ rfl))
  | witnessInScripthash ks =>
    obtain ⟨⟨-, hprogram⟩, ⟨-, hscript⟩, -⟩ := List.forall_mem_cons.mp hknown |>.imp_right
      List.forall_mem_cons.mp
    exact Bool.eq_iff_iff.mp
      (produceSignature_witnessInScripthash hlaws hformed hsound hscript hprogram (htrue _ rfl))
  | witnessKeyhash key =>
    exact Bool.eq_iff_iff.mp (produceSignature_witnessKeyhash hlaws hformed hsound (htrue _ rfl))
  | witnessKeyhashInScripthash key =>
    have hprogram := (hknown _ (List.mem_singleton_self _)).2
    exact Bool.eq_iff_iff.mp
      (produceSignature_witnessKeyhashInScripthash hlaws hformed hsound hprogram (htrue _ rfl))

end WalletOutput

namespace KeyOps

open BaseSignatureCreator

variable {κ : Type} (ops : KeyOps κ) (getKey : Valtype → Option κ) (getCScript : Valtype → Option CScript)
  (signatureHash : CScript → UInt32 → SigVersion → UInt256) (nHashType : UInt32)

-- `TransactionSignatureCreator`; what is signed is the hash of its transaction for its input
def transactionSignatureCreator : BaseSignatureCreator where
  keystore := ⟨fun keyID => (getKey keyID).map ops.getPubKey, getCScript⟩
  createSig keyID scriptCode sigversion :=
    match getKey keyID with
    | none => none
    | some key =>
      if sigversion = .SIGVERSION_WITNESS_V0 ∧ (ops.getPubKey key).length ≠ 33 then none
      else (ops.sign key (signatureHash scriptCode nHashType sigversion)).map fun vchSig =>
        vchSig ++ [nHashType.toUInt8]

-- `TransactionSignatureChecker`, with the lock times of its transaction
def transactionSignatureChecker (checkLockTime checkSequence : Int → Bool) : BaseSignatureChecker where
  checkSig vchSig vchPubKey scriptCode sigversion :=
    isValidPubKey vchPubKey && !vchSig.isEmpty &&
      ops.verify vchPubKey
        (signatureHash scriptCode (vchSig.getLastD 0).toUInt32 sigversion) vchSig.dropLast
  checkLockTime := checkLockTime
  checkSequence := checkSequence

-- the hash types that a signature may end in
def DefinedHashType (nHashType : UInt32) : Prop :=
  nHashType.toNat ∈ [1, 2, 3, 0x81, 0x82, 0x83]

-- What `CKey::Sign` makes is DER with a low S; a valid key signs every hash.
structure SignsDer : Prop where
  signs : ∀ key hash, (ops.sign key hash).isSome
  standard : ∀ key hash vchSig, ops.sign key hash = some vchSig →
    ∀ nHashType, DefinedHashType nHashType → StandardSig (vchSig ++ [nHashType.toUInt8])

variable {ops getKey getCScript signatureHash nHashType} {hashes : ScriptHashes} {ks : KeyScript}
  {sigversion : SigVersion} {checkLockTime checkSequence : Int → Bool}

theorem toUInt32_hashType (h : DefinedHashType nHashType) :
    nHashType.toUInt8.toUInt32 = nHashType := by
  have hlt : nHashType.toNat < 256 := by
    rw [DefinedHashType] at h
    simp only [List.mem_cons, List.not_mem_nil, or_false] at h
    omega
  apply UInt32.toNat.inj
  rw [UInt8.toNat_toUInt32, UInt32.toNat_toUInt8]
  exact Nat.mod_eq_of_lt hlt

-- a key of the script has the signature of the key that is stored under its hash
theorem sigFor_eq_some (hstore : ops.StoresKeys getKey) (hhash : ops.hash160 = hashes.hash160)
    {key sig : Valtype}
    (hsig : (ops.transactionSignatureCreator getKey getCScript signatureHash nHashType).sigFor hashes ks
      sigversion key = some sig) :
    ∃ secret vchSig, getKey (hashes.hash160 key) = some secret ∧ key = ops.getPubKey secret ∧
      ops.sign secret (signatureHash (ks.script hashes) nHashType sigversion) = some vchSig ∧
      sig = vchSig ++ [nHashType.toUInt8] := by
  rw [sigFor, transactionSignatureCreator] at hsig
  cases hkey : getKey (hashes.hash160 key) with
  | none =>
    simp only [hkey] at hsig
    cases hsig
  | some secret =>
    simp only [hkey] at hsig
    split at hsig
    · cases hsig
    · obtain ⟨vchSig, hvchSig, rfl⟩ := Option.map_eq_some_iff.mp hsig
      have hpub := (hstore.unique _ secret hkey key).mp (by rw [hhash])
      exact ⟨secret, vchSig, rfl, hpub, hvchSig, rfl⟩

theorem transactionSignatureCreator_sound (hcorrect : ops.EcdsaCorrect) (hder : ops.SignsDer)
    (hstore : ops.StoresKeys getKey) (hhash : ops.hash160 = hashes.hash160)
    (htype : DefinedHashType nHashType)
    (hapart : ∀ key ∈ ks.keys, ∀ secret vchSig, getKey (hashes.hash160 key) = some secret →
      ops.sign secret (signatureHash (ks.script hashes) nHashType sigversion) = some vchSig →
      vchSig ++ [nHashType.toUInt8] ≠ hashes.hash160 key) :
    (ops.transactionSignatureCreator getKey getCScript signatureHash nHashType).Sound hashes
      (ops.transactionSignatureChecker signatureHash checkLockTime checkSequence) ks sigversion where
  standard key _ sig hsig := by
    obtain ⟨secret, vchSig, -, -, hsign, rfl⟩ := sigFor_eq_some hstore hhash hsig
    exact hder.standard secret _ vchSig hsign nHashType htype
  verifies key _ sig hsig := by
    obtain ⟨secret, vchSig, hsecret, rfl, hsign, rfl⟩ := sigFor_eq_some hstore hhash hsig
    have hvalid := hstore.valid _ secret hsecret
    have hverify := (hcorrect.verifies secret _ vchSig hsign).2
    simp [transactionSignatureChecker, hvalid, toUInt32_hashType htype, hverify]
  getPubKey key _ sig hsig := by
    obtain ⟨secret, vchSig, hsecret, hpub, -⟩ := sigFor_eq_some hstore hhash hsig
    simp only [transactionSignatureCreator]
    rw [hsecret, hpub]
    rfl
  apart key hkey sig hsig := by
    obtain ⟨secret, vchSig, hsecret, -, hsign, rfl⟩ := sigFor_eq_some hstore hhash hsig
    exact hapart key hkey secret vchSig hsecret hsign

theorem sigFor_isSome_iff (hder : ops.SignsDer) (hstore : ops.StoresKeys getKey)
    (hhash : ops.hash160 = hashes.hash160) {key : Valtype} (hkey : StandardKey key sigversion) :
    ((ops.transactionSignatureCreator getKey getCScript signatureHash nHashType).sigFor hashes ks
      sigversion key).isSome = (getKey (hashes.hash160 key)).isSome := by
  rw [sigFor, transactionSignatureCreator]
  cases hsecret : getKey (hashes.hash160 key) with
  | none => simp only [hsecret, Option.isSome_none]
  | some secret =>
    have hpub := (hstore.unique _ secret hsecret key).mp (by rw [hhash])
    have hcompressed : ¬ (sigversion = .SIGVERSION_WITNESS_V0 ∧ (ops.getPubKey secret).length ≠ 33) := by
      rintro ⟨rfl, hne⟩
      rw [← hpub] at hne
      exact hne hkey.length_witness
    simp only [hsecret, if_neg hcompressed, Option.isSome_map, hder.signs, Option.isSome_some]

-- An output of the wallet can be spent by the keys it stores, whenever they are enough.
theorem signTransaction_iff (hlaws : HashLaws hashes) (hcorrect : ops.EcdsaCorrect)
    (hder : ops.SignsDer) (hstore : ops.StoresKeys getKey) (hhash : ops.hash160 = hashes.hash160)
    (htype : DefinedHashType nHashType) (out : WalletOutput)
    (hout : out.Spendable hashes
      (ops.transactionSignatureCreator getKey getCScript signatureHash nHashType))
    (hapart : ∀ key ∈ out.keyScript.keys, ∀ secret vchSig,
      getKey (hashes.hash160 key) = some secret →
      ops.sign secret (signatureHash (out.keyScript.script hashes) nHashType out.sigversion) =
        some vchSig →
      vchSig ++ [nHashType.toUInt8] ≠ hashes.hash160 key) :
    ((ops.transactionSignatureCreator getKey getCScript signatureHash nHashType).produceSignature hashes
        (ops.transactionSignatureChecker signatureHash checkLockTime checkSequence)
        (out.scriptPubKey hashes)).1 = true ↔
      out.keyScript.nRequired ≤
        out.keyScript.keys.countP fun key => (getKey (hashes.hash160 key)).isSome := by
  rw [WalletOutput.produceSignature_iff hlaws out hout
    (transactionSignatureCreator_sound hcorrect hder hstore hhash htype hapart), CanSign]
  rw [List.countP_congr fun key hkey => by
    rw [sigFor_isSome_iff hder hstore hhash (hout.wellFormed.standard key hkey)]]

end KeyOps

namespace KeyOps

-- hashes that set the one key apart from all other bytes
def oneKeyHashes : ScriptHashes where
  ripemd160 := fun vch => if vch = List.replicate 32 1 then List.replicate 20 1 else List.replicate 20 2
  sha1 := fun _ => List.replicate 20 0
  sha256 := fun vch => if vch = oneKeyBytes then List.replicate 32 1 else List.replicate 32 2
  hash160 := fun vch => if vch = oneKeyBytes then List.replicate 20 1 else List.replicate 20 2
  hash256 := fun _ => List.replicate 32 0

def derKey : KeyOps Unit where
  hash160 := oneKeyHashes.hash160
  getPubKey := fun _ => oneKeyBytes
  sign := fun _ _ => some [0x30, 6, 2, 1, 1, 2, 1, 1]
  verify := fun vch _ vchSig => vch == oneKeyBytes && vchSig == [0x30, 6, 2, 1, 1, 2, 1, 1]

def derKeyStore (keyID : Valtype) : Option Unit :=
  if keyID = List.replicate 20 1 then some () else none

theorem oneKeyHashes_laws : HashLaws oneKeyHashes := by
  refine ⟨⟨fun vch => ?_, fun _ => rfl, fun vch => ?_, fun vch => ?_, fun _ => rfl⟩, fun vch => ?_⟩
  · simp only [oneKeyHashes]
    split <;> rfl
  · simp only [oneKeyHashes]
    split <;> rfl
  · simp only [oneKeyHashes]
    split <;> rfl
  · simp only [oneKeyHashes]
    split
    · rfl
    · rw [if_neg (by decide)]

theorem storesKeys_derKey : derKey.StoresKeys derKeyStore := by
  refine ⟨fun _ _ _ => rfl, fun keyID key hkey vch => ?_⟩
  have hkeyID : keyID = List.replicate 20 1 := by
    by_contra hne
    rw [derKeyStore, if_neg hne] at hkey
    cases hkey
  change (if vch = oneKeyBytes then List.replicate 20 1 else List.replicate 20 2) = keyID ↔
    vch = oneKeyBytes
  rw [hkeyID]
  by_cases hvch : vch = oneKeyBytes
  · simp [hvch]
  · rw [if_neg hvch]
    exact iff_of_false (by decide) hvch

theorem signsDer_derKey : derKey.SignsDer := by
  refine ⟨fun _ _ => rfl, fun _ _ vchSig hsig nHashType htype => ?_⟩
  have hbyte : nHashType.toUInt8 ∈ ([1, 2, 3, 0x81, 0x82, 0x83] : List UInt8) := by
    rw [DefinedHashType] at htype
    simp only [List.mem_cons, List.not_mem_nil, or_false, ← UInt8.toNat_inj, UInt32.toNat_toUInt8,
      UInt8.reduceToNat] at htype ⊢
    omega
  have hall : ∀ b ∈ ([1, 2, 3, 0x81, 0x82, 0x83] : List UInt8),
      checkSignatureEncoding ([0x30, 6, 2, 1, 1, 2, 1, 1] ++ [b]) STANDARD_SCRIPT_VERIFY_FLAGS =
        .ok () := by decide +kernel
  rw [← Option.some.inj hsig]
  exact ⟨by simp, hall _ hbyte⟩

-- one of one key, behind the hash of the script
theorem signTransaction_iff_oneKey :
    ((derKey.transactionSignatureCreator derKeyStore
        (fun _ => some (getScriptForMultisig 1 [oneKeyBytes])) (fun _ _ _ => 0)
        SIGHASH_ALL).produceSignature oneKeyHashes
      (derKey.transactionSignatureChecker (fun _ _ _ => 0) (fun _ => true) fun _ => true)
      ((WalletOutput.scripthash (.multisig 1 [oneKeyBytes])).scriptPubKey oneKeyHashes)).1 = true := by
  refine (signTransaction_iff oneKeyHashes_laws ⟨fun _ _ vchSig h => ?_⟩ signsDer_derKey
    storesKeys_derKey rfl (by rw [DefinedHashType]; decide) (.scripthash (.multisig 1 [oneKeyBytes])) ⟨⟨?_, by decide,
      by decide⟩, ?_, nofun⟩ ?_).mpr (by decide)
  · rw [← Option.some.inj h]
    exact ⟨by decide, rfl⟩
  · intro key hkey
    obtain rfl : key = oneKeyBytes := List.mem_singleton.mp hkey
    exact (by decide : checkPubKeyEncoding oneKeyBytes STANDARD_SCRIPT_VERIFY_FLAGS .SIGVERSION_BASE =
      .ok ())
  · intro script hscript
    obtain rfl : script = getScriptForMultisig 1 [oneKeyBytes] := List.mem_singleton.mp hscript
    exact ⟨by decide, rfl⟩
  · intro key hkey secret vchSig _ hsign
    obtain rfl : key = oneKeyBytes := List.mem_singleton.mp hkey
    rw [← Option.some.inj hsign]
    decide

end KeyOps

end AnkerNode
