import AnkerNode.Lib.Greedy
import AnkerNode.Script.Interpreter

namespace AnkerNode

open Checks GreedyMatch

-- none of the flags under which signatures and keys have to be encoded in some way
structure NoEncodingFlags (flags : Nat) : Prop where
  dersig : hasFlag flags SCRIPT_VERIFY_DERSIG = false
  lowS : hasFlag flags SCRIPT_VERIFY_LOW_S = false
  strictenc : hasFlag flags SCRIPT_VERIFY_STRICTENC = false
  witnessPubKeyType : hasFlag flags SCRIPT_VERIFY_WITNESS_PUBKEYTYPE = false

-- What `OP_CHECKMULTISIG` finds on the stack, the top first: the keys under their number, then the
-- signatures under theirs, then the element that it takes without looking at it.
structure MultiSigStack (flags : Nat) (stack keys sigs rest : List Valtype) (dummy : Valtype) :
    Prop where
  layout : ∃ nKeys nSigs, stack = nKeys :: (keys ++ nSigs :: (sigs ++ dummy :: rest)) ∧
    CScriptNum.ofVch nKeys (hasFlag flags SCRIPT_VERIFY_MINIMALDATA) = some (keys.length : Int) ∧
    CScriptNum.ofVch nSigs (hasFlag flags SCRIPT_VERIFY_MINIMALDATA) = some (sigs.length : Int)
  keys_le : keys.length ≤ 20
  sigs_le : sigs.length ≤ keys.length
  nullDummy : hasFlag flags SCRIPT_VERIFY_NULLDUMMY = true → dummy = []

namespace ScriptContext

variable {ctx : ScriptContext} {flags : Nat} {sigversion : SigVersion}

theorem checkEncodings_ok (h : NoEncodingFlags flags) (vchSig vchPubKey : Valtype) :
    checkEncodings flags sigversion vchSig vchPubKey = .ok () := by
  have hsig : checkSignatureEncoding vchSig flags = .ok () := by
    rw [checkSignatureEncoding, h.dersig, h.lowS, h.strictenc]
    split <;> rfl
  rw [checkEncodings, hsig, checkPubKeyEncoding, h.strictenc, h.witnessPubKeyType]
  rfl

theorem multiSigLoop_result (h : NoEncodingFlags flags) (scriptCode : CScript)
    (sigs keys : List Valtype) :
    (ctx.multiSigLoop flags sigversion scriptCode sigs keys).result =
      .ok (greedy (fun sig key => ctx.checker.checkSig sig key scriptCode sigversion) sigs keys) := by
  induction keys generalizing sigs with
  | nil => cases sigs <;> rfl
  | cons key keys ih =>
    cases sigs with
    | nil => rfl
    | cons sig sigs =>
      rw [multiSigLoop, checkEncodings_ok h, greedy]
      generalize hleft : (if ctx.checker.checkSig sig key scriptCode sigversion then sigs
        else sig :: sigs) = left
      have hturn : (do
          liftM (Except.ok () : Except ScriptFailure Unit)
          let fOk ← ctx.checkSig sig key scriptCode sigversion
          let left := if fOk then sigs else sig :: sigs
          if keys.length < left.length then pure false
          else ctx.multiSigLoop flags sigversion scriptCode left keys : Eval Bool).result =
          (if keys.length < left.length then (pure false : Eval Bool)
            else ctx.multiSigLoop flags sigversion scriptCode left keys).result := by
        rw [← hleft]
        rfl
      rw [hturn]
      by_cases hlt : keys.length < left.length
      · rw [if_pos hlt, if_pos hlt]
        rfl
      · rw [if_neg hlt, if_neg hlt]
        exact ih left

theorem multiSigCount_ok {vch : Valtype} {fRequireMinimal : Bool} {n : Nat} {limit : Int}
    {serror : ScriptError} (hvch : CScriptNum.ofVch vch fRequireMinimal = some (n : Int))
    (hle : (n : Int) ≤ limit) (hn : n ≤ 20) :
    multiSigCount vch fRequireMinimal limit serror = .ok n := by
  have hint : CScriptNum.getint n = n := by
    rw [CScriptNum.getint]
    omega
  have hpass : (decide ((n : Int) < 0) || decide (limit < n)) = false := by
    rw [Bool.or_eq_false_iff, decide_eq_false_iff_not, decide_eq_false_iff_not]
    omega
  rw [multiSigCount, scriptNum, hvch]
  change (setErrorIf (decide (CScriptNum.getint n < 0) || decide (limit < CScriptNum.getint n))
    serror >>= fun _ => .ok (CScriptNum.getint n).toNat) = _
  rw [hint, hpass]
  rfl

theorem multiSigArgs_ok {st : EvalState} {keys sigs rest : List Valtype} {dummy : Valtype}
    (hstack : MultiSigStack flags st.stack keys sigs rest dummy)
    (hops : st.nOpCount + keys.length ≤ MAX_OPS_PER_SCRIPT) :
    st.multiSigArgs (hasFlag flags SCRIPT_VERIFY_MINIMALDATA) =
      .ok ⟨keys.length, keys, sigs, dummy, rest⟩ := by
  obtain ⟨⟨nKeys, nSigs, hlayout, hnKeys, hnSigs⟩, hkeys, hsigs, -⟩ := hstack
  have hdrop : (keys ++ nSigs :: (sigs ++ dummy :: rest)).drop (keys.length + 1) =
      sigs ++ dummy :: rest := by
    rw [List.drop_append, List.drop_of_length_le (by omega)]
    simp
  have hroom : decide ((keys ++ nSigs :: (sigs ++ dummy :: rest)).length < keys.length + 1) =
      false := by
    simp
  have hroom' : decide ((sigs ++ dummy :: rest).length < sigs.length + 1) = false := by simp
  rw [EvalState.multiSigArgs, hlayout]
  dsimp only
  rw [multiSigCount_ok hnKeys (by rw [MAX_PUBKEYS_PER_MULTISIG]; omega) hkeys]
  change (setErrorIf (decide (MAX_OPS_PER_SCRIPT < st.nOpCount + keys.length)) _ >>= fun _ =>
    setErrorIf (decide ((keys ++ nSigs :: (sigs ++ dummy :: rest)).length < keys.length + 1)) _ >>=
      fun _ => _) = _
  rw [decide_eq_false (by omega), hroom, hdrop]
  change (multiSigCount ((keys ++ nSigs :: (sigs ++ dummy :: rest)).getD keys.length []) _ _ _ >>=
    fun nSigsCount => _) = _
  rw [show (keys ++ nSigs :: (sigs ++ dummy :: rest)).getD keys.length [] = nSigs by simp,
    multiSigCount_ok hnSigs (by omega) (by omega)]
  change (setErrorIf (decide ((sigs ++ dummy :: rest).length < sigs.length + 1)) _ >>= fun _ =>
    _) = _
  rw [hroom']
  change Except.ok _ = _
  simp

-- The signatures, from the top, get keys from the top on, each a key below that of the one before.
def Assignable (ctx : ScriptContext) (sigversion : SigVersion) (scriptCode : CScript)
    (sigs keys : List Valtype) : Prop :=
  ∃ f : Fin sigs.length → Fin keys.length, StrictMono f ∧
    ∀ k, ctx.checker.checkSig (sigs.get k) (keys.get (f k)) scriptCode sigversion = true

theorem multiSigLoop_iff (h : NoEncodingFlags flags) (scriptCode : CScript)
    (sigs keys : List Valtype) :
    ∃ fSuccess, (ctx.multiSigLoop flags sigversion scriptCode sigs keys).result = .ok fSuccess ∧
      (fSuccess = true ↔ ctx.Assignable sigversion scriptCode sigs keys) :=
  ⟨_, multiSigLoop_result h scriptCode sigs keys,
    greedy_iff.trans sublistForall₂_iff_exists_strictMono⟩

theorem evalCheckMultiSig_iff (h : NoEncodingFlags flags) {st : EvalState}
    {keys sigs rest : List Valtype} {dummy : Valtype}
    (hstack : MultiSigStack flags st.stack keys sigs rest dummy)
    (hops : st.nOpCount + keys.length ≤ MAX_OPS_PER_SCRIPT) :
    ∃ fSuccess, (ctx.evalCheckMultiSig flags sigversion st none).result =
        .ok { st with stack := vchBool fSuccess :: rest, nOpCount := st.nOpCount + keys.length } ∧
      (fSuccess = true ↔ ctx.Assignable sigversion
        (dropSignatures sigversion st.pbegincodehash sigs) sigs keys) := by
  obtain ⟨fSuccess, hloop, hiff⟩ : ∃ fSuccess, (ctx.multiSigLoop flags sigversion
      (dropSignatures sigversion st.pbegincodehash sigs) sigs keys).result = .ok fSuccess ∧ _ :=
    multiSigLoop_iff h _ sigs keys
  have hdummy : (hasFlag flags SCRIPT_VERIFY_NULLDUMMY && !dummy.isEmpty) = false := by
    cases hflag : hasFlag flags SCRIPT_VERIFY_NULLDUMMY with
    | false => rfl
    | true => rw [hstack.nullDummy hflag]; rfl
  refine ⟨fSuccess, ?_, hiff⟩
  rw [evalCheckMultiSig, multiSigArgs_ok hstack hops]
  refine Traced.result_bind_eq_ok.mpr ⟨⟨keys.length, keys, sigs, dummy, rest⟩, rfl, ?_⟩
  refine Traced.result_bind_eq_ok.mpr ⟨fSuccess, hloop, ?_⟩
  rw [hdummy]
  rfl

theorem checkMultiSig_subsequence (ctx : ScriptContext) (sigversion : SigVersion)
    (h : NoEncodingFlags flags) {st : EvalState} {i : Instruction} {keys sigs rest : List Valtype}
    {dummy : Valtype} (hexec : st.fExec = true) (hopcode : i.opcode = OP_CHECKMULTISIG)
    (hstack : MultiSigStack flags st.stack keys sigs rest dummy)
    (hops : st.nOpCount + keys.length ≤ MAX_OPS_PER_SCRIPT) :
    st.stack.length = rest.length + (keys.length + sigs.length + 3) ∧
      ∃ fSuccess, (ctx.execute flags sigversion st i).result =
          .ok { st with stack := vchBool fSuccess :: rest, nOpCount := st.nOpCount + keys.length } ∧
        (fSuccess = true ↔ ∃ f : Fin sigs.length → Fin keys.length, StrictMono f ∧
          ∀ k, ctx.checker.checkSig (sigs.get k) (keys.get (f k))
            (dropSignatures sigversion st.pbegincodehash sigs) sigversion = true) := by
  have hexecute : ctx.execute flags sigversion st i =
      ctx.evalCheckMultiSig flags sigversion st none := by
    rw [execute, hopcode, if_neg (by rintro ⟨-, hle⟩; revert hle; decide), if_pos (Or.inl hexec)]
    rfl
  obtain ⟨⟨nKeys, nSigs, hlayout, -⟩, -⟩ := id hstack
  refine ⟨?_, ?_⟩
  · rw [hlayout]
    simp only [List.length_cons, List.length_append]
    omega
  · rw [hexecute]
    exact evalCheckMultiSig_iff h hstack hops

-- one of two keys, and a checker that takes a signature for the key of the same bytes
theorem checkMultiSig_subsequence_second : ∃ fSuccess,
    ((ScriptContext.mk ⟨id, id, id, id, id⟩ ⟨fun sig key _ _ => sig == key, fun _ => true,
      fun _ => true⟩).execute 0 .SIGVERSION_BASE
        { stack := [[2], [7], [8], [1], [8], []], pbegincodehash := [] }
        ⟨OP_CHECKMULTISIG, [], []⟩).result =
      .ok { stack := [vchBool fSuccess], nOpCount := 2, pbegincodehash := [] } ∧
    (fSuccess = true ↔ ∃ f : Fin 1 → Fin 2, StrictMono f ∧
      ∀ k, (([[8]] : List Valtype).get k == ([[7], [8]] : List Valtype).get (f k)) = true) :=
  (@checkMultiSig_subsequence 0 ⟨⟨id, id, id, id, id⟩, ⟨fun sig key _ _ => sig == key, fun _ => true,
    fun _ => true⟩⟩ .SIGVERSION_BASE ⟨rfl, rfl, rfl, rfl⟩
    { stack := [[2], [7], [8], [1], [8], []], pbegincodehash := [] } ⟨OP_CHECKMULTISIG, [], []⟩
    [[7], [8]] [[8]] [] [] rfl rfl
    ⟨⟨[2], [1], rfl, by decide, by decide⟩, by decide, by decide, fun _ => rfl⟩ (by decide)).2

end ScriptContext

end AnkerNode
