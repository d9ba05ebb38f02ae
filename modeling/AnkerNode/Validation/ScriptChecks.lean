import AnkerNode.Script.Verify
import AnkerNode.Validation.ConnectSpec

namespace AnkerNode

open Checks

def ScriptError.toString : ScriptError → String
  | SCRIPT_ERR_UNKNOWN_ERROR => "unknown error"
  | SCRIPT_ERR_EVAL_FALSE =>
    "Script evaluated without error but finished with a false/empty top stack element"
  | SCRIPT_ERR_VERIFY => "Script failed an OP_VERIFY operation"
  | SCRIPT_ERR_EQUALVERIFY => "Script failed an OP_EQUALVERIFY operation"
  | SCRIPT_ERR_CHECKMULTISIGVERIFY => "Script failed an OP_CHECKMULTISIGVERIFY operation"
  | SCRIPT_ERR_CHECKSIGVERIFY => "Script failed an OP_CHECKSIGVERIFY operation"
  | SCRIPT_ERR_NUMEQUALVERIFY => "Script failed an OP_NUMEQUALVERIFY operation"
  | SCRIPT_ERR_SCRIPT_SIZE => "Script is too big"
  | SCRIPT_ERR_PUSH_SIZE => "Push value size limit exceeded"
  | SCRIPT_ERR_OP_COUNT => "Operation limit exceeded"
  | SCRIPT_ERR_STACK_SIZE => "Stack size limit exceeded"
  | SCRIPT_ERR_SIG_COUNT => "Signature count negative or greater than pubkey count"
  | SCRIPT_ERR_PUBKEY_COUNT => "Pubkey count negative or limit exceeded"
  | SCRIPT_ERR_BAD_OPCODE => "Opcode missing or not understood"
  | SCRIPT_ERR_DISABLED_OPCODE => "Attempted to use a disabled opcode"
  | SCRIPT_ERR_INVALID_STACK_OPERATION => "Operation not valid with the current stack size"
  | SCRIPT_ERR_INVALID_ALTSTACK_OPERATION => "Operation not valid with the current altstack size"
  | SCRIPT_ERR_OP_RETURN => "OP_RETURN was encountered"
  | SCRIPT_ERR_UNBALANCED_CONDITIONAL => "Invalid OP_IF construction"
  | SCRIPT_ERR_NEGATIVE_LOCKTIME => "Negative locktime"
  | SCRIPT_ERR_UNSATISFIED_LOCKTIME => "Locktime requirement not satisfied"
  | SCRIPT_ERR_SIG_HASHTYPE => "Signature hash type missing or not understood"
  | SCRIPT_ERR_SIG_DER => "Non-canonical DER signature"
  | SCRIPT_ERR_MINIMALDATA => "Data push larger than necessary"
  | SCRIPT_ERR_SIG_PUSHONLY => "Only non-push operators allowed in signatures"
  | SCRIPT_ERR_SIG_HIGH_S => "Non-canonical signature: S value is unnecessarily high"
  | SCRIPT_ERR_SIG_NULLDUMMY => "Dummy CHECKMULTISIG argument must be zero"
  | SCRIPT_ERR_DISCOURAGE_UPGRADABLE_NOPS => "NOPx reserved for soft-fork upgrades"
  | SCRIPT_ERR_DISCOURAGE_UPGRADABLE_WITNESS_PROGRAM =>
    "Witness version reserved for soft-fork upgrades"
  | SCRIPT_ERR_PUBKEYTYPE => "Public key is neither compressed or uncompressed"
  | SCRIPT_ERR_WITNESS_PROGRAM_WRONG_LENGTH => "Witness program has incorrect length"
  | SCRIPT_ERR_WITNESS_PROGRAM_WITNESS_EMPTY => "Witness program was passed an empty witness"
  | SCRIPT_ERR_WITNESS_PROGRAM_MISMATCH => "Witness program hash mismatch"
  | SCRIPT_ERR_WITNESS_MALLEATED => "Witness requires empty scriptSig"
  | SCRIPT_ERR_WITNESS_MALLEATED_P2SH => "Witness requires only-redeemscript scriptSig"
  | SCRIPT_ERR_WITNESS_UNEXPECTED => "Witness provided for non-witness script"
  | SCRIPT_ERR_CLEANSTACK => "Extra items left on stack after execution"
  | SCRIPT_ERR_WITNESS_PUBKEYTYPE => "Using non-compressed keys in segwit"

theorem CScript.instructions_of_isUnspendable {script : CScript} (h : script.isUnspendable = true) :
    ∃ i ops, script.instructions = some i :: ops ∧ i.opcode = OP_RETURN := by
  cases script with
  | nil => simp [CScript.isUnspendable] at h
  | cons opcode rest =>
    obtain rfl : opcode = OP_RETURN := by simpa [CScript.isUnspendable] using h
    exact ⟨_, _, rfl, rfl⟩

-- the outputs that `CCoins` drops could not be spent
theorem ScriptContext.evalScript_of_isUnspendable (ctx : ScriptContext) (flags : Nat)
    (sigversion : SigVersion) (stack : List Valtype) {script : CScript}
    (h : script.isUnspendable = true) (out : List Valtype) :
    (ctx.evalScript flags sigversion stack script).result ≠ .ok out := by
  obtain ⟨i, ops, hops, hop⟩ := CScript.instructions_of_isUnspendable h
  intro hok
  rw [evalScript, hops] at hok
  obtain ⟨-, -, hok⟩ := Traced.result_bind_eq_ok.mp hok
  obtain ⟨st, hst, -⟩ := Traced.result_bind_eq_ok.mp hok
  rw [evalOps] at hst
  obtain ⟨st', hst', -⟩ := Traced.result_bind_eq_ok.mp hst
  rw [step] at hst'
  obtain ⟨permitted, hpermit, hst'⟩ := Traced.result_bind_eq_ok.mp hst'
  obtain ⟨after, hexec, -⟩ := Traced.result_bind_eq_ok.mp hst'
  have hrun : permitted.fExec = true := by
    simp only [EvalState.permit, Traced.liftM_eq, Traced.result_lift, Checks.bind_eq_ok,
      Except.ok.injEq] at hpermit
    obtain ⟨-, -, -, -, -, -, rfl⟩ := hpermit
    rfl
  have hreturn : Opcode.ofByte OP_RETURN = .OP_RETURN := by decide
  rw [execute, hop, if_neg (fun hpush => absurd hpush.2 (by decide)), if_pos (Or.inl hrun),
    hreturn] at hexec
  cases hexec

namespace ScriptCheck

variable (hashes : ScriptHashes) (checkSig : CheckSigOracle) (check : ScriptCheck)

def scriptSig : CScript := (check.tx.vin[check.nIn]?.map CTxIn.scriptSig).getD []

def witness : CScriptWitness := check.tx.vtxinwit[check.nIn]?.getD []

def context : ScriptContext :=
  ⟨hashes, check.tx.signatureChecker check.nIn checkSig check.txout.nValue⟩

def evaluation : Eval Unit :=
  (check.context hashes checkSig).verifyScript check.nFlags check.scriptSig
    check.txout.scriptPubKey check.witness

-- A failed assertion ends the process: the flags of a block meet those of `VerifyScript`.
def run : Option String :=
  match (check.evaluation hashes checkSig).result with
  | .ok _ => none
  | .error (.error serror) => some serror.toString
  | .error .assertion => some "assertion failed"

variable {hashes checkSig check}

theorem run_eq_none (h : check.run hashes checkSig = none) :
    (check.evaluation hashes checkSig).result.isOk = true := by
  simp only [run] at h
  split at h
  · rename_i hok
    simp [hok, Except.isOk, Except.toBool]
  · simp at h
  · simp at h

theorem run_of_isUnspendable (hashes : ScriptHashes) (checkSig : CheckSigOracle)
    {check : ScriptCheck} (h : check.txout.scriptPubKey.isUnspendable = true) :
    check.run hashes checkSig ≠ none := by
  intro hnone
  obtain ⟨a, hok⟩ := Checks.exists_ok_of_isOk (run_eq_none hnone)
  rw [evaluation, ScriptContext.verifyScript] at hok
  obtain ⟨-, -, hok⟩ := Traced.result_bind_eq_ok.mp hok
  obtain ⟨stackCopy, -, hok⟩ := Traced.result_bind_eq_ok.mp hok
  obtain ⟨stack, hstack, -⟩ := Traced.result_bind_eq_ok.mp hok
  exact ScriptContext.evalScript_of_isUnspendable _ _ _ _ h _ hstack

end ScriptCheck

namespace ConnectContext

variable {ctx : ConnectContext}

theorem mem_scriptChecksFrom {view : CCoinsView} {tx : CTransaction} {flags i nIn : Nat}
    {vin : List CTxIn} {txin : CTxIn} (h : vin[nIn]? = some txin) :
    ⟨tx, i + nIn, view.outAt txin.prevout, flags⟩ ∈ scriptChecksFrom view tx flags i vin := by
  induction vin generalizing i nIn with
  | nil => simp at h
  | cons first vin ih =>
    cases nIn with
    | zero =>
      obtain rfl : first = txin := by simpa using h
      exact List.mem_cons_self
    | succ nIn =>
      rw [Nat.add_comm nIn 1, ← Nat.add_assoc]
      exact List.mem_cons_of_mem _ (ih (by simpa using h))

theorem runScriptChecks_eq_ok {checks : List ScriptCheck}
    (h : ctx.runScriptChecks checks = .ok ()) : ∀ check ∈ checks, ctx.verifyScript check = none := by
  induction checks with
  | nil => simp
  | cons check checks ih =>
    obtain ⟨_, hone, hrest⟩ := bind_eq_ok.mp h
    refine List.forall_mem_cons.mpr ⟨?_, ih hrest⟩
    cases hcheck : ctx.verifyScript check with
    | none => rfl
    | some serror => simp [runScriptCheck, hcheck] at hone

-- every script check of the transaction has passed or is put off to the end of the block
theorem checkInputs_scripts {view : CCoinsView} {nSpendHeight : Int} {flags : Nat}
    {tx : CTransaction} {vChecks : List ScriptCheck} (hs : tx.spendsCoins = true)
    (h : ctx.checkInputs view nSpendHeight true flags tx = .ok vChecks) :
    ∀ check ∈ scriptChecksFrom view tx flags 0 tx.vin,
      ctx.verifyScript check = none ∨ check ∈ vChecks := by
  simp only [checkInputs, hs, Bool.not_true, Bool.false_eq_true, if_false, if_true] at h
  obtain ⟨_, _, h⟩ := bind_eq_ok.mp h
  obtain ⟨_, _, h⟩ := bind_eq_ok.mp h
  obtain ⟨_, _, h⟩ := bind_eq_ok.mp h
  obtain ⟨_, hrun, h⟩ := bind_eq_ok.mp h
  intro check hcheck
  cases hthreads : ctx.nScriptCheckThreads == 0 with
  | true =>
    rw [onlyIf_eq_ok] at hrun
    exact .inl (runScriptChecks_eq_ok (hrun hthreads) check hcheck)
  | false =>
    simp only [hthreads, Bool.false_eq_true, if_false, Except.ok.injEq] at h
    exact .inr (h ▸ hcheck)

theorem connectOrdinary_vChecks {tx : CTransaction} {nHeight nSpendHeight : Int}
    {fScriptChecks : Bool} {flags : Nat} {st st' : ConnectState}
    (h : ctx.connectOrdinary tx nHeight nSpendHeight fScriptChecks flags st = .ok st') :
    ∃ vChecks, ctx.checkInputs st.view nSpendHeight fScriptChecks flags tx = .ok vChecks ∧
      st'.vChecks = st.vChecks ++ vChecks := by
  simp only [connectOrdinary, bind_eq_ok, failIf_eq_ok, fromOption_eq_ok, exists_const,
    Bool.not_eq_false', Except.ok.injEq] at h
  obtain ⟨-, st1, hmints, nIn, -, nOut, -, -, vChecks, hci, rfl⟩ := h
  obtain ⟨rfl, -⟩ := connectMints_eq_ok hmints
  exact ⟨vChecks, hci, rfl⟩

theorem connectTx_vChecks {block : CBlock} {pindex : ConnectIndex} {nSpendHeight : Int}
    {first : Bool} {tx : CTransaction} {st st' : ConnectState}
    (h : ctx.connectTx block pindex nSpendHeight first tx st = .ok st') :
    ∃ vChecks, st'.vChecks = st.vChecks ++ vChecks ∧ (tx.spendsCoins = true →
      ctx.checkInputs st.view nSpendHeight (ctx.scriptChecksActive pindex) (ctx.scriptFlags block)
        tx = .ok vChecks) := by
  simp only [connectTx, bind_eq_ok, failIf_eq_ok, exists_const] at h
  obtain ⟨-, mid, hkind, hrec⟩ := h
  obtain ⟨nOut, view, txundo, -, -, rfl⟩ := recordOutputs_eq_ok hrec
  simp only [connectKind] at hkind
  split at hkind
  · rename_i hzc
    obtain ⟨-, -, rfl⟩ := connectZerocoinSpend_eq_ok hkind
    exact ⟨[], by simp, fun hs => by simp [CTransaction.spendsCoins, hzc] at hs⟩
  · split at hkind
    · obtain ⟨vChecks, hci, hv⟩ := connectOrdinary_vChecks hkind
      exact ⟨vChecks, hv, fun _ => hci⟩
    · rename_i hcb
      cases hkind
      exact ⟨[], by simp, fun hs => by simp_all [CTransaction.spendsCoins]⟩

theorem connectTxs_vChecks {block : CBlock} {pindex : ConnectIndex} {nSpendHeight : Int}
    {first : Bool} {vtx : List CTransaction} {st st' : ConnectState}
    (h : ctx.connectTxs block pindex nSpendHeight first vtx st = .ok st') :
    ∀ check ∈ st.vChecks, check ∈ st'.vChecks := by
  induction vtx generalizing first st with
  | nil =>
    cases h
    exact fun _ hc => hc
  | cons tx vtx ih =>
    obtain ⟨mid, hone, hrest⟩ := bind_eq_ok.mp h
    obtain ⟨vChecks, hmid, -⟩ := connectTx_vChecks hone
    exact fun check hc => ih hrest check (hmid ▸ List.mem_append_left _ hc)

theorem connectTxs_append {block : CBlock} {pindex : ConnectIndex} {nSpendHeight : Int}
    {first : Bool} {before rest : List CTransaction} {st st' : ConnectState}
    (h : ctx.connectTxs block pindex nSpendHeight first (before ++ rest) st = .ok st') :
    ∃ mid, ctx.connectTxs block pindex nSpendHeight first before st = .ok mid ∧
      ctx.connectTxs block pindex nSpendHeight (first && before.isEmpty) rest mid = .ok st' := by
  induction before generalizing first st with
  | nil => exact ⟨st, rfl, by simpa using h⟩
  | cons tx before ih =>
    obtain ⟨one, hone, hrest⟩ := bind_eq_ok.mp h
    obtain ⟨mid, hbefore, hafter⟩ := ih hrest
    exact ⟨mid, bind_eq_ok.mpr ⟨one, hone, hbefore⟩, by simpa using hafter⟩

-- an input of the block at the state in which its transaction is connected
structure ConnectedInput (ctx : ConnectContext) (block : CBlock) (pindex : ConnectIndex)
    (view : CCoinsView) (tx : CTransaction) (nIn : Nat) (txin : CTxIn) (st : ConnectState) :
    Prop where
  notGenesis : block.hash ≠ ctx.params.hashGenesisBlock
  position : ∃ before after pprev, block.vtx = before ++ tx :: after ∧
    pindex.pprev = some pprev ∧
    ctx.connectTxs block pindex (pprev.nHeight + 1) true before { view := view } = .ok st
  spendsCoins : tx.spendsCoins = true
  input : tx.vin[nIn]? = some txin

def inputCheck (ctx : ConnectContext) (block : CBlock) (tx : CTransaction) (nIn : Nat)
    (txin : CTxIn) (st : ConnectState) : ScriptCheck :=
  ⟨tx, nIn, st.view.outAt txin.prevout, ctx.scriptFlags block⟩

theorem connectBlock_verifies {getBlockValue : Int → Int} {block : CBlock} {pindex : ConnectIndex}
    {view : CCoinsView} {r : ConnectResult} {tx : CTransaction} {nIn : Nat} {txin : CTxIn}
    {st : ConnectState} (h : ctx.connectBlock getBlockValue block pindex view = .ok r)
    (hchecks : ctx.scriptChecksActive pindex = true)
    (hinput : ConnectedInput ctx block pindex view tx nIn txin st) :
    ctx.verifyScript (ctx.inputCheck block tx nIn txin st) = none := by
  obtain ⟨pprev, final, hblock, -⟩ := (connectBlock_eq_ok_iff hinput.notGenesis).mp h
  obtain ⟨before, after, pprev', hvtx, hprev, hbefore⟩ := hinput.position
  obtain rfl : pprev = pprev' := Option.some.inj (hblock.parent.symm.trans hprev)
  have htxs := hblock.txs
  rw [hvtx] at htxs
  obtain ⟨mid, hmid, hrest⟩ := connectTxs_append htxs
  obtain rfl : st = mid := Except.ok.inj (hbefore.symm.trans hmid)
  obtain ⟨next, hone, hafter⟩ := bind_eq_ok.mp hrest
  obtain ⟨vChecks, hnext, hci⟩ := connectTx_vChecks hone
  have hci := hci hinput.spendsCoins
  rw [hchecks] at hci
  have hmem : ctx.inputCheck block tx nIn txin st ∈
      scriptChecksFrom st.view tx (ctx.scriptFlags block) 0 tx.vin := by
    simpa only [inputCheck, Nat.zero_add] using mem_scriptChecksFrom (i := 0) hinput.input
  rcases checkInputs_scripts hinput.spendsCoins hci _ hmem with hok | hlate
  · exact hok
  · have hfinal := connectTxs_vChecks hafter _ (hnext ▸ List.mem_append_right _ hlate)
    have hnone := hblock.scripts
    rw [List.any_eq_false] at hnone
    simpa [inputCheck] using hnone _ hfinal

end ConnectContext

end AnkerNode
