import AnkerNode.Lib.Greedy
import AnkerNode.Script.CodeSeparators
import AnkerNode.Script.MultiSigMatching
import AnkerNode.Script.PushParsing
import AnkerNode.Script.Solver

namespace AnkerNode

open Checks GreedyMatch Traced

def getScriptForRawPubKey (pubKey : Valtype) : CScript := CScript.pushData pubKey ++ [OP_CHECKSIG]

def getScriptForMultisig (nRequired : Nat) (keys : List Valtype) : CScript :=
  [EncodeOP_N nRequired] ++ keys.flatMap CScript.pushData ++ [EncodeOP_N keys.length, OP_CHECKMULTISIG]

namespace CScript

-- No opcode of the script pushes the signature.
theorem findAndDelete_push {s : CScript} {sig : Valtype} (hshort : sig.length < 76)
    (hops : ∀ op ∈ s.instructions, ∃ i, op = some i ∧ i.data ≠ sig) :
    s.findAndDelete (pushData sig) = s := by
  have hbyte : (UInt8.ofNat sig.length).toNat = sig.length := by
    rw [UInt8.toNat_ofNat']
    omega
  have hdirect : UInt8.ofNat sig.length < OP_PUSHDATA1 := by
    rw [UInt8.lt_iff_toNat_lt, hbyte]
    exact hshort
  rw [findAndDelete, pushData_short hshort, if_neg (by simp)]
  suffices h : ∀ fuel (pc : CScript),
      (∀ op ∈ pc.instructions, ∃ i, op = some i ∧ i.data ≠ sig) →
      findAndDeleteFrom (UInt8.ofNat sig.length :: sig) fuel pc = pc from h _ s hops
  intro fuel
  induction fuel with
  | zero => exact fun _ _ => rfl
  | succ fuel ih =>
    intro pc hpc
    rw [findAndDeleteFrom]
    by_cases hprefix : (UInt8.ofNat sig.length :: sig).isPrefixOf pc = true
    · obtain ⟨rest, rfl⟩ := List.isPrefixOf_iff_prefix.mp hprefix
      have hinstr : instructions (UInt8.ofNat sig.length :: sig ++ rest) = _ :=
        instructions_push hdirect hbyte.symm rest
      rw [hinstr] at hpc
      obtain ⟨i, hi, hne⟩ := hpc _ (List.mem_cons_self ..)
      exact absurd (congrArg Instruction.data (Option.some.inj hi)).symm hne
    · rw [if_neg hprefix]
      cases hop : getOp2 pc with
      | none => rfl
      | some i =>
        have hnext : ∀ op ∈ i.next.instructions, ∃ j, op = some j ∧ j.data ≠ sig := by
          intro op hmem
          refine hpc op ?_
          rw [instructions_of_getOp2 hop]
          exact List.mem_cons_of_mem _ hmem
        dsimp only
        rw [ih i.next hnext]
        obtain ⟨before, hbefore⟩ := next_suffix hop
        rw [← hbefore, List.length_append, Nat.add_sub_cancel, List.take_left]

end CScript

theorem EvalState.push_room {st : EvalState} (h : st.stack.length + st.altstack.length < 1000)
    (vch : Valtype) :
    decide (1000 < (st.push vch).stack.length + (st.push vch).altstack.length) = false := by
  rw [decide_eq_false_iff_not]
  change ¬ 1000 < st.stack.length + 1 + st.altstack.length
  omega

namespace ScriptContext

variable {ctx : ScriptContext} {flags : Nat} {sigversion : SigVersion} {st st₁ st₂ : EvalState}
  {ops : List (Option Instruction)} {i : Instruction}

def Runs (ctx : ScriptContext) (flags : Nat) (sigversion : SigVersion)
    (ops : List (Option Instruction)) (st st₁ : EvalState) : Prop :=
  (ctx.evalOps flags sigversion ops st).result = .ok st₁

theorem runs_nil (st : EvalState) : ctx.Runs flags sigversion [] st st := rfl

theorem runs_cons (hstep : (ctx.step flags sigversion st i).result = .ok st₁)
    (hrest : ctx.Runs flags sigversion ops st₁ st₂) :
    ctx.Runs flags sigversion (some i :: ops) st st₂ :=
  result_bind_eq_ok.mpr ⟨st₁, hstep, hrest⟩

theorem evalScript_of_runs {stack : List Valtype} {script : CScript} (st₁ : EvalState)
    (hsize : script.length ≤ 10000)
    (h : ctx.Runs flags sigversion script.instructions { stack := stack, pbegincodehash := script } st₁)
    (hexec : st₁.vfExec = []) :
    (ctx.evalScript flags sigversion stack script).result = .ok st₁.stack := by
  have hfits : decide (10000 < script.length) = false := decide_eq_false (by omega)
  rw [evalScript, hfits]
  refine result_bind_eq_ok.mpr ⟨(), rfl, result_bind_eq_ok.mpr ⟨st₁, h, ?_⟩⟩
  rw [hexec]
  rfl

theorem step_push (hexec : st.vfExec = []) (hop : i.opcode ≤ CScript.OP_PUSHDATA4)
    (hminimal : checkMinimalPush i.data i.opcode = true)
    (hsize : i.data.length ≤ MAX_SCRIPT_ELEMENT_SIZE)
    (hroom : st.stack.length + st.altstack.length < 1000) :
    (ctx.step flags sigversion st i).result = .ok (st.push i.data) := by
  have hpermit := EvalState.permit_push st hsize (UInt8.le_trans hop (by decide))
  have hroom' := EvalState.push_room hroom i.data
  have hrun : (ctx.execute flags sigversion st i).result = .ok (st.push i.data) := by
    rw [execute, if_pos ⟨by rw [EvalState.fExec, hexec]; rfl, hop⟩, hminimal]
    refine result_bind_eq_ok.mpr ⟨(), ?_, rfl⟩
    rw [Bool.not_true, Bool.and_false]
    rfl
  rw [step, hpermit]
  refine result_bind_eq_ok.mpr ⟨st, rfl, result_bind_eq_ok.mpr ⟨_, hrun, ?_⟩⟩
  rw [hroom']
  rfl

theorem step_smallInt (hexec : st.vfExec = []) {n : Nat} (hone : 1 ≤ n) (hsixteen : n ≤ 16)
    (hroom : st.stack.length + st.altstack.length < 1000) (next : CScript) :
    (ctx.step flags sigversion st ⟨EncodeOP_N n, [], next⟩).result =
      .ok (st.push [UInt8.ofNat n]) := by
  obtain ⟨hpush, hop, hint, hserialize⟩ : CScript.OP_PUSHDATA4 < EncodeOP_N n ∧
      EncodeOP_N n ≤ OP_16 ∧ Opcode.ofByte (EncodeOP_N n) = .smallInt n ∧
      CScriptNum.serialize n = [UInt8.ofNat n] := by
    have : ∀ n ≤ 16, 1 ≤ n → CScript.OP_PUSHDATA4 < EncodeOP_N n ∧ EncodeOP_N n ≤ OP_16 ∧
        Opcode.ofByte (EncodeOP_N n) = .smallInt n ∧
        CScriptNum.serialize n = [UInt8.ofNat n] := by decide +kernel
    exact this n hsixteen hone
  have hpermit := EvalState.permit_push st (i := ⟨EncodeOP_N n, [], next⟩) (Nat.zero_le _) hop
  have hroom' := EvalState.push_room hroom [UInt8.ofNat n]
  have hrun : (ctx.execute flags sigversion st ⟨EncodeOP_N n, [], next⟩).result =
      .ok (st.push [UInt8.ofNat n]) := by
    rw [execute, if_neg (fun h => absurd hpush (UInt8.not_lt.mpr h.2)),
      if_pos (.inl (by rw [EvalState.fExec, hexec]; rfl)), hint, evalOpcode, hserialize]
    rfl
  rw [step, hpermit]
  refine result_bind_eq_ok.mpr ⟨st, rfl, result_bind_eq_ok.mpr ⟨_, hrun, ?_⟩⟩
  rw [hroom']
  rfl

theorem step_opcode (n : Nat) (st₁ : EvalState) {op : UInt8} {next : CScript} (hexec : st.vfExec = [])
    (hop : OP_16 < op) (henabled : disabledOpcodes.contains op = false) (hn : st.nOpCount = n)
    (hcount : n < MAX_OPS_PER_SCRIPT)
    (hrun : (ctx.evalOpcode flags sigversion { st with nOpCount := st.nOpCount + 1 } next
      (Opcode.ofByte op)).result = .ok st₁)
    (hroom : st₁.stack.length + st₁.altstack.length ≤ 1000) :
    (ctx.step flags sigversion st ⟨op, [], next⟩).result = .ok st₁ := by
  have hpermit : st.permit ⟨op, [], next⟩ = .ok { st with nOpCount := st.nOpCount + 1 } := by
    have hops : ¬ MAX_OPS_PER_SCRIPT < st.nOpCount + 1 := by omega
    simp only [EvalState.permit, hop, henabled, if_true, List.length_nil, hops, decide_false,
      Bool.and_false, Nat.not_lt_zero]
    rfl
  have hexecute : (ctx.execute flags sigversion { st with nOpCount := st.nOpCount + 1 }
      ⟨op, [], next⟩).result = .ok st₁ := by
    have hnot : ¬ op ≤ CScript.OP_PUSHDATA4 :=
      UInt8.not_le.mpr (UInt8.lt_trans (by decide) hop)
    rw [execute, if_neg (fun h => hnot h.2), if_pos (.inl (by rw [EvalState.fExec, hexec]; rfl))]
    exact hrun
  have hroom' : decide (1000 < st₁.stack.length + st₁.altstack.length) = false :=
    decide_eq_false (by omega)
  rw [step, hpermit]
  refine result_bind_eq_ok.mpr ⟨_, rfl, result_bind_eq_ok.mpr ⟨_, hexecute, ?_⟩⟩
  rw [hroom']
  rfl

theorem evalEqualVerify_ok {x : Valtype} {stack : List Valtype} {next : CScript}
    (hstack : st.stack = x :: x :: stack) :
    (ctx.evalOpcode flags sigversion st next .OP_EQUALVERIFY).result =
      .ok { st with stack := stack } := by
  rw [evalOpcode, result_lift, EvalState.equalVerify, hstack]
  dsimp only
  rw [beq_self_eq_true]
  rfl

theorem evalEqual_ok {x : Valtype} {stack : List Valtype} {next : CScript}
    (hstack : st.stack = x :: x :: stack) :
    (ctx.evalOpcode flags sigversion st next (.stack .OP_EQUAL)).result =
      .ok { st with stack := [1] :: stack } := by
  rw [evalOpcode, result_lift, EvalState.stackOp, hstack, StackOp.apply, beq_self_eq_true]
  rfl

theorem evalCheckSig_ok {vchPubKey vchSig : Valtype} {stack : List Valtype}
    (hstack : st.stack = vchPubKey :: vchSig :: stack)
    (hencoded : checkEncodings flags sigversion vchSig vchPubKey = .ok ())
    (hcheck : ctx.checker.checkSig vchSig vchPubKey
      (dropSignatures sigversion st.pbegincodehash [vchSig]) sigversion = true) :
    (ctx.evalCheckSig flags sigversion st none).result = .ok { st with stack := [1] :: stack } := by
  rw [evalCheckSig, hstack]
  dsimp only
  rw [hencoded]
  refine result_bind_eq_ok.mpr ⟨(), rfl, result_bind_eq_ok.mpr ⟨true, ?_, rfl⟩⟩
  rw [← hcheck]
  rfl

theorem multiSigLoop_encoded (ctx : ScriptContext) (scriptCode : CScript) {sigs keys : List Valtype}
    (h : ∀ sig ∈ sigs, ∀ key ∈ keys, checkEncodings flags sigversion sig key = .ok ()) :
    (ctx.multiSigLoop flags sigversion scriptCode sigs keys).result =
      .ok (greedy (fun sig key => ctx.checker.checkSig sig key scriptCode sigversion) sigs keys) := by
  induction keys generalizing sigs with
  | nil => cases sigs <;> rfl
  | cons key keys ih =>
    cases sigs with
    | nil => rfl
    | cons sig sigs =>
      have hturn : (ctx.multiSigLoop flags sigversion scriptCode (sig :: sigs) (key :: keys)).result =
          (if keys.length < (if ctx.checker.checkSig sig key scriptCode sigversion then sigs
              else sig :: sigs).length then (pure false : Eval Bool)
            else ctx.multiSigLoop flags sigversion scriptCode
              (if ctx.checker.checkSig sig key scriptCode sigversion then sigs else sig :: sigs)
              keys).result := by
        rw [multiSigLoop, h sig (List.mem_cons_self ..) key (List.mem_cons_self ..)]
        rfl
      have hleft : ∀ s ∈ (if ctx.checker.checkSig sig key scriptCode sigversion then sigs
          else sig :: sigs), s ∈ sig :: sigs := by
        split
        · exact fun s hs => List.mem_cons_of_mem _ hs
        · exact fun s hs => hs
      rw [hturn, greedy]
      generalize (if ctx.checker.checkSig sig key scriptCode sigversion then sigs
        else sig :: sigs) = left at hleft ⊢
      by_cases hlt : keys.length < left.length
      · rw [if_pos hlt, if_pos hlt]
        rfl
      · rw [if_neg hlt, if_neg hlt]
        exact ih fun s hs k hk => h s (hleft s hs) k (List.mem_cons_of_mem _ hk)

theorem evalCheckMultiSig_ok {keys sigs rest : List Valtype} {dummy : Valtype}
    (hstack : MultiSigStack flags st.stack keys sigs rest dummy)
    (hops : st.nOpCount + keys.length ≤ MAX_OPS_PER_SCRIPT)
    (hencoded : ∀ sig ∈ sigs, ∀ key ∈ keys, checkEncodings flags sigversion sig key = .ok ())
    (hmatch : List.SublistForall₂ (fun sig key => ctx.checker.checkSig sig key
      (dropSignatures sigversion st.pbegincodehash sigs) sigversion = true) sigs keys) :
    (ctx.evalCheckMultiSig flags sigversion st none).result =
      .ok { st with stack := [1] :: rest, nOpCount := st.nOpCount + keys.length } := by
  have hdummy : (hasFlag flags SCRIPT_VERIFY_NULLDUMMY && !dummy.isEmpty) = false := by
    cases hflag : hasFlag flags SCRIPT_VERIFY_NULLDUMMY with
    | false => rfl
    | true => rw [hstack.nullDummy hflag]; rfl
  have hloop := multiSigLoop_encoded ctx
    (dropSignatures sigversion st.pbegincodehash sigs) hencoded
  rw [greedy_iff.mpr hmatch] at hloop
  rw [evalCheckMultiSig, multiSigArgs_ok hstack hops]
  refine result_bind_eq_ok.mpr ⟨⟨keys.length, keys, sigs, dummy, rest⟩, rfl, ?_⟩
  refine result_bind_eq_ok.mpr ⟨true, hloop, ?_⟩
  rw [hdummy]
  rfl

end ScriptContext

namespace CScript

variable {values : List Valtype} {key id : Valtype} {rest : CScript}

-- the instructions of pushes with `rest` behind them
def pushOps : List Valtype → CScript → List (Option Instruction)
  | [], _ => []
  | v :: values, rest =>
    some ⟨pushOpcode v.length, v, values.flatMap pushData ++ rest⟩ :: pushOps values rest

theorem instructions_pushes (values : List Valtype) (rest : CScript)
    (h : (values.flatMap pushData ++ rest).length < 2 ^ 32) :
    instructions (values.flatMap pushData ++ rest) = pushOps values rest ++ instructions rest := by
  induction values with
  | nil => rfl
  | cons v values ih =>
    rw [List.flatMap_cons, List.append_assoc] at h ⊢
    have hsize : v.length ≤ (pushData v).length := by
      rw [pushData, List.length_append]
      exact Nat.le_add_left _ _
    rw [List.length_append] at h
    have hv : (Pushed.vch v).Short := by
      change v.length < 2 ^ 32
      omega
    have hhead := @instructions_script _ hv (values.flatMap pushData ++ rest)
      (by rw [List.length_append]; exact h)
    rw [Pushed.script] at hhead
    rw [hhead, ih (by omega)]
    rfl

theorem mem_pushOps {op : Option Instruction} (h : op ∈ pushOps values rest) :
    ∃ i, op = some i ∧ i.data ∈ values := by
  induction values with
  | nil => cases h
  | cons v values ih =>
    rcases List.mem_cons.mp h with rfl | h
    · exact ⟨_, rfl, List.mem_cons_self ..⟩
    · obtain ⟨i, hi, hdata⟩ := ih h
      exact ⟨i, hi, List.mem_cons_of_mem _ hdata⟩

theorem takePubKeys_pushOps (hvalues : ∀ v ∈ values, 33 ≤ v.length ∧ v.length ≤ 65)
    {i : Instruction} (hi : i.data = []) (ops : List (Option Instruction)) :
    takePubKeys (pushOps values rest ++ some i :: ops) = (values, some i :: ops) := by
  induction values with
  | nil =>
    rw [pushOps, List.nil_append, takePubKeys, hi]
    rfl
  | cons v values ih =>
    obtain ⟨hv, hrest⟩ := List.forall_mem_cons.mp hvalues
    rw [pushOps, List.cons_append, takePubKeys, if_neg (by simp only; omega), ih hrest]

theorem PushAll_eq_flatMap (hvalues : ∀ v ∈ values, v.length ≠ 1) :
    PushAll values = values.flatMap pushData := by
  refine List.flatMap_congr fun v hv => ?_
  by_cases hempty : v.length = 0
  · rw [if_pos hempty, List.length_eq_zero_iff.mp hempty]
    rfl
  · rw [if_neg hempty, if_neg (fun h => hvalues v hv h.1)]

theorem length_pushData_le {v : Valtype} (h : v.length ≤ MAX_SCRIPT_ELEMENT_SIZE) :
    (pushData v).length ≤ v.length + 3 := by
  have hmax : MAX_SCRIPT_ELEMENT_SIZE = 520 := rfl
  rw [pushData, pushHeader, List.length_append]
  split_ifs
  · simp only [List.length_cons, List.length_nil]
    omega
  · simp only [List.length_cons, List.length_nil]
    omega
  · simp only [List.length_cons, List.length_nil]
    omega
  · omega

theorem instructions_rawPubKey (hkey : key.length ≤ 65) :
    instructions (getScriptForRawPubKey key) =
      [some ⟨pushOpcode key.length, key, [OP_CHECKSIG]⟩, some ⟨OP_CHECKSIG, [], []⟩] := by
  have hscript : getScriptForRawPubKey key = [key].flatMap pushData ++ [OP_CHECKSIG] := by
    rw [getScriptForRawPubKey, List.flatMap_singleton]
  have hsize := @length_pushData_le key (hkey.trans (by decide))
  rw [hscript, instructions_pushes, instructions_cons (by decide), instructions_nil]
  · rfl
  · rw [List.flatMap_singleton, List.length_append, List.length_singleton]
    omega

theorem instructions_payToPubKeyHash (hid : id.length = 20) :
    instructions (ScriptContext.payToPubKeyHash id) =
      [some ⟨OP_DUP, [], OP_HASH160 :: (pushData id ++ [OP_EQUALVERIFY, OP_CHECKSIG])⟩,
        some ⟨OP_HASH160, [], pushData id ++ [OP_EQUALVERIFY, OP_CHECKSIG]⟩,
        some ⟨20, id, [OP_EQUALVERIFY, OP_CHECKSIG]⟩,
        some ⟨OP_EQUALVERIFY, [], [OP_CHECKSIG]⟩, some ⟨OP_CHECKSIG, [], []⟩] := by
  have hpush : pushData id = 20 :: id := by
    rw [pushData_short (by omega), hid]
    rfl
  rw [ScriptContext.payToPubKeyHash, hpush]
  change instructions (OP_DUP :: OP_HASH160 :: (20 :: (id ++ [OP_EQUALVERIFY, OP_CHECKSIG]))) = _
  rw [instructions_cons (by decide), instructions_cons (by decide),
    instructions_push (by decide) hid, instructions_cons (by decide),
    instructions_cons (by decide), instructions_nil]
  rfl

theorem encodeOP_N_spec : ∀ n ≤ 16, 1 ≤ n → OP_PUSHDATA4 < EncodeOP_N n ∧ EncodeOP_N n ≤ OP_16 ∧
    OP_1 ≤ EncodeOP_N n ∧ DecodeOP_N (EncodeOP_N n) = n ∧
    Opcode.ofByte (EncodeOP_N n) = .smallInt n ∧ CScriptNum.serialize n = [UInt8.ofNat n] ∧
    ∀ b, CScriptNum.ofVch [UInt8.ofNat n] b = some (n : Int) := by
  decide +kernel

-- the keys of a multisig script, and how many of them have to sign
structure MultisigKeys (nRequired : Nat) (keys : List Valtype) : Prop where
  required : 1 ≤ nRequired ∧ nRequired ≤ keys.length
  few : keys.length ≤ 16
  sizes : ∀ key ∈ keys, 33 ≤ key.length ∧ key.length ≤ 65

theorem length_flatMap_pushData (values : List Valtype) {n : Nat} (hn : n ≤ MAX_SCRIPT_ELEMENT_SIZE)
    (hvalues : ∀ v ∈ values, v.length ≤ n) :
    (values.flatMap pushData).length ≤ values.length * (n + 3) := by
  have hsum : (values.map fun v => (pushData v).length).sum ≤
      (values.map fun v => (pushData v).length).length * (n + 3) :=
    List.sum_le_card_nsmul _ _ fun x hx => by
      obtain ⟨v, hv, rfl⟩ := List.mem_map.mp hx
      exact (length_pushData_le ((hvalues v hv).trans hn)).trans
        (Nat.add_le_add_right (hvalues v hv) 3)
  rwa [List.length_map, ← List.length_flatMap] at hsum

theorem MultisigKeys.length_script {nRequired : Nat} {keys : List Valtype}
    (h : MultisigKeys nRequired keys) : (getScriptForMultisig nRequired keys).length ≤ 1200 := by
  have hkeys := length_flatMap_pushData keys (n := 65) (by decide)
    fun key hkey => (h.sizes key hkey).2
  have hfew := h.few
  rw [getScriptForMultisig]
  simp only [List.length_append, List.length_cons, List.length_nil]
  omega

theorem instructions_multisig {nRequired : Nat} {keys : List Valtype}
    (h : MultisigKeys nRequired keys) :
    instructions (getScriptForMultisig nRequired keys) =
      some ⟨EncodeOP_N nRequired, [],
        keys.flatMap pushData ++ [EncodeOP_N keys.length, OP_CHECKMULTISIG]⟩ ::
      (pushOps keys [EncodeOP_N keys.length, OP_CHECKMULTISIG] ++
        [some ⟨EncodeOP_N keys.length, [], [OP_CHECKMULTISIG]⟩, some ⟨OP_CHECKMULTISIG, [], []⟩]) := by
  have hsize := h.length_script
  obtain ⟨⟨hone, hle⟩, hfew, -⟩ := h
  have hm := (encodeOP_N_spec nRequired (by omega) hone).1
  have hn := (encodeOP_N_spec keys.length hfew (by omega)).1
  rw [getScriptForMultisig, List.append_assoc] at hsize ⊢
  rw [List.singleton_append, instructions_cons hm, instructions_pushes, instructions_cons hn,
    instructions_cons (by decide), instructions_nil]
  rw [List.length_append] at hsize
  omega

variable {key id : Valtype}

theorem solver_rawPubKey (hmin : 33 ≤ key.length) (hmax : key.length ≤ 65) :
    (getScriptForRawPubKey key).solver = some (.TX_PUBKEY, [key]) := by
  have hscript : getScriptForRawPubKey key = UInt8.ofNat key.length :: (key ++ [OP_CHECKSIG]) := by
    rw [getScriptForRawPubKey, pushData_short (by omega)]
    rfl
  obtain ⟨hhash, hmint, hzero, hone, hreturn⟩ : UInt8.ofNat key.length ≠ OP_HASH160 ∧
      UInt8.ofNat key.length ≠ OP_ZEROCOINMINT ∧ UInt8.ofNat key.length ≠ OP_0 ∧
      UInt8.ofNat key.length < OP_1 ∧ UInt8.ofNat key.length ≠ OP_RETURN := by
    have : ∀ n ≤ 65, 33 ≤ n → UInt8.ofNat n ≠ OP_HASH160 ∧ UInt8.ofNat n ≠ OP_ZEROCOINMINT ∧
        UInt8.ofNat n ≠ OP_0 ∧ UInt8.ofNat n < OP_1 ∧ UInt8.ofNat n ≠ OP_RETURN := by decide +kernel
    exact this key.length hmax hmin
  have htemplates : (getScriptForRawPubKey key).solveTemplates = some (.TX_PUBKEY, [key]) := by
    rw [solveTemplates, instructions_rawPubKey hmax]
    simp [matchTemplate, pubKeyTemplate, TemplateOp.solutions, Nat.not_lt.mpr hmin,
      Nat.not_lt.mpr hmax]
  rw [hscript] at htemplates ⊢
  rw [solver, if_neg (by simp [isPayToScriptHash, hhash]), if_neg (by simpa using hmint)]
  have hprogram : isWitnessProgram (UInt8.ofNat key.length :: (key ++ [OP_CHECKSIG])) = none := by
    cases key with
    | nil => exact absurd hmin (by simp)
    | cons b key =>
      rw [List.cons_append, isWitnessProgram, if_pos (c := _ ∧ _) ⟨hzero, .inl hone⟩, ite_self]
  rw [hprogram]
  dsimp only
  rw [if_neg (by simp [isNullData, hreturn]), htemplates]

theorem solver_payToPubKeyHash (hid : id.length = 20) :
    (ScriptContext.payToPubKeyHash id).solver = some (.TX_PUBKEYHASH, [id]) := by
  have hscript : ScriptContext.payToPubKeyHash id =
      OP_DUP :: OP_HASH160 :: 20 :: (id ++ [OP_EQUALVERIFY, OP_CHECKSIG]) := by
    simp [ScriptContext.payToPubKeyHash, pushData_short (b := id) (by omega), hid]
  have htemplates : (ScriptContext.payToPubKeyHash id).solveTemplates =
      some (.TX_PUBKEYHASH, [id]) := by
    rw [solveTemplates, instructions_payToPubKeyHash hid]
    simp [pubKeyTemplate, pubKeyHashTemplates, matchTemplate, TemplateOp.solutions, hid]
  rw [hscript] at htemplates ⊢
  have hversion : OP_DUP ≠ OP_0 ∧ (OP_DUP < OP_1 ∨ OP_16 < OP_DUP) := by decide
  rw [solver, if_neg (by simp [isPayToScriptHash, show OP_DUP ≠ OP_HASH160 by decide]),
    if_neg (by simp [show OP_DUP ≠ OP_ZEROCOINMINT by decide]), isWitnessProgram, if_pos hversion]
  rw [ite_self]
  dsimp only
  rw [if_neg (by simp [isNullData, show OP_DUP ≠ OP_RETURN by decide]), htemplates]

theorem smallInteger_encode {n : Nat} (hn : n ≤ 16) (hone : 1 ≤ n) :
    smallInteger (EncodeOP_N n) = some (UInt8.ofNat n) := by
  obtain ⟨-, hsixteen, hop, hdecode, -⟩ := encodeOP_N_spec n hn hone
  rw [smallInteger, if_pos (.inr ⟨hop, hsixteen⟩), hdecode]

theorem matchTemplate_multisig {b : UInt8} (hop : b ≠ OP_DUP) (next : CScript)
    (ops : List (Option Instruction)) :
    matchTemplate pubKeyTemplate (some ⟨b, [], next⟩ :: ops) = none ∧
      (pubKeyHashTemplates.findSome? fun template =>
        matchTemplate template (some ⟨b, [], next⟩ :: ops)) = none := by
  constructor
  · rw [pubKeyTemplate, matchTemplate, TemplateOp.solutions]
    rfl
  · simp [pubKeyHashTemplates, matchTemplate, TemplateOp.solutions, hop]

theorem solver_multisig {nRequired : Nat} {keys : List Valtype} (h : MultisigKeys nRequired keys) :
    (getScriptForMultisig nRequired keys).solver =
      some (.TX_MULTISIG, [UInt8.ofNat nRequired] :: keys ++ [[UInt8.ofNat keys.length]]) := by
  obtain ⟨⟨hone, hle⟩, hfew, hsizes⟩ := id h
  have hmatch : matchMultisig (getScriptForMultisig nRequired keys).instructions =
      some (UInt8.ofNat nRequired, keys, UInt8.ofNat keys.length) := by
    rw [instructions_multisig h, matchMultisig, smallInteger_encode (by omega) hone]
    simp only [Option.bind_eq_bind, Option.bind_some]
    rw [takePubKeys_pushOps hsizes rfl]
    simp only [smallInteger_encode hfew (by omega), Option.bind_some, and_self, if_true]
  obtain ⟨hm, -, hop, -⟩ := encodeOP_N_spec nRequired (by omega) hone
  have hbytes : ∀ n ≤ 16, 1 ≤ n → EncodeOP_N n ≠ OP_DUP ∧ EncodeOP_N n ≠ OP_HASH160 ∧
      EncodeOP_N n ≠ OP_ZEROCOINMINT ∧ EncodeOP_N n ≠ OP_RETURN ∧ (UInt8.ofNat n).toNat = n := by
    decide +kernel
  obtain ⟨hdup, hhash, hmint, hreturn, hm'⟩ := hbytes nRequired (by omega) hone
  have hn' := (hbytes keys.length hfew (by omega)).2.2.2.2
  have htemplates : (getScriptForMultisig nRequired keys).solveTemplates =
      some (.TX_MULTISIG, [UInt8.ofNat nRequired] :: keys ++ [[UInt8.ofNat keys.length]]) := by
    have hnone := matchTemplate_multisig hdup
      (keys.flatMap pushData ++ [EncodeOP_N keys.length, OP_CHECKMULTISIG])
      (pushOps keys [EncodeOP_N keys.length, OP_CHECKMULTISIG] ++
        [some ⟨EncodeOP_N keys.length, [], [OP_CHECKMULTISIG]⟩, some ⟨OP_CHECKMULTISIG, [], []⟩])
    rw [← instructions_multisig h] at hnone
    rw [solveTemplates, hnone.1, hnone.2, hmatch]
    simp only [Option.bind_eq_bind, Option.bind_some]
    rw [if_neg]
    rw [UInt8.lt_iff_toNat_lt, UInt8.lt_iff_toNat_lt, UInt8.lt_iff_toNat_lt, hm', hn']
    have h1 : (1 : UInt8).toNat = 1 := rfl
    omega
  cases keys with
  | nil => exact absurd hle (by simp only [List.length_nil]; omega)
  | cons key keys =>
    obtain ⟨hkey, -⟩ := List.forall_mem_cons.mp hsizes
    have hscript : getScriptForMultisig nRequired (key :: keys) =
        EncodeOP_N nRequired :: UInt8.ofNat key.length ::
          (key ++ (keys.flatMap pushData ++
            [EncodeOP_N (key :: keys).length, OP_CHECKMULTISIG])) := by
      simp only [getScriptForMultisig, List.flatMap_cons, pushData_short (b := key) (by omega),
        List.cons_append, List.nil_append, List.append_assoc]
    have hprogram : isWitnessProgram (getScriptForMultisig nRequired (key :: keys)) = none := by
      have hlen : (UInt8.ofNat key.length).toNat = key.length := by
        rw [UInt8.toNat_ofNat']
        omega
      rw [hscript, isWitnessProgram]
      simp only [List.length_cons, List.length_append, List.length_nil, hlen]
      split_ifs
      · rfl
      · rfl
      · omega
      · rfl
    rw [solver, hprogram]
    dsimp only
    rw [htemplates, hscript, if_neg (by simp [isPayToScriptHash, hhash]),
      if_neg (by simpa using hmint), if_neg (by simp [isNullData, hreturn])]

end CScript

namespace ScriptContext

variable {ctx : ScriptContext} {flags : Nat} {sigversion : SigVersion} {st st₁ st₂ : EvalState}
  {ops ops' : List (Option Instruction)} {i : Instruction}

theorem runs_append (h : ctx.Runs flags sigversion ops st st₁)
    (h' : ctx.Runs flags sigversion ops' st₁ st₂) :
    ctx.Runs flags sigversion (ops ++ ops') st st₂ := by
  induction ops generalizing st with
  | nil =>
    obtain rfl : st = st₁ := by simpa [Runs, evalOps] using h
    exact h'
  | cons op ops ih =>
    cases op with
    | none => cases h
    | some i =>
      obtain ⟨st', hstep, hrest⟩ := result_bind_eq_ok.mp h
      exact runs_cons hstep (ih hrest)

-- an element that `PushAll` and `operator<<` push alike, by an opcode that is minimal for it
def Pushable (v : Valtype) : Prop := v.length ≠ 1 ∧ v.length ≤ MAX_SCRIPT_ELEMENT_SIZE

theorem checkMinimalPush_pushOpcode {v : Valtype} (h : Pushable v) :
    checkMinimalPush v (CScript.pushOpcode v.length) = true := by
  obtain ⟨hone, hmax⟩ := h
  have h520 : MAX_SCRIPT_ELEMENT_SIZE = 520 := rfl
  have hpush1 : CScript.OP_PUSHDATA1.toNat = 76 := rfl
  have hneg : v ≠ [0x81] := by
    rintro rfl
    exact hone rfl
  rw [checkMinimalPush, CScript.pushOpcode, hpush1]
  by_cases hzero : v.length = 0
  · rw [if_pos hzero, hzero]
    rfl
  rw [if_neg hzero, if_neg (fun h => hone h.1), if_neg hneg]
  by_cases h75 : v.length ≤ 75
  · rw [if_pos h75, if_pos (by omega), UInt8.toNat_ofNat', Nat.mod_eq_of_lt (by omega)]
    exact beq_self_eq_true _
  have h76 : ¬ v.length < 76 := by omega
  rw [if_neg h75, if_neg h76]
  by_cases h255 : v.length ≤ 255
  · rw [if_pos h255, if_pos h255]
    rfl
  · have h65535 : v.length ≤ 65535 := by omega
    rw [if_neg h255, if_neg h255, if_pos h65535, if_pos h65535]
    rfl

theorem runs_pushOps {values : List Valtype} {rest : CScript} (hvalues : ∀ v ∈ values, Pushable v)
    (hexec : st.vfExec = [])
    (hroom : st.stack.length + st.altstack.length + values.length ≤ 1000) :
    ctx.Runs flags sigversion (CScript.pushOps values rest) st
      { st with stack := values.reverse ++ st.stack } := by
  induction values generalizing st with
  | nil => exact runs_nil st
  | cons v values ih =>
    obtain ⟨hv, hrest⟩ := List.forall_mem_cons.mp hvalues
    rw [List.length_cons] at hroom
    have hop := (@CScript.pushHeader_spec v.length
      (hv.2.trans_lt (by decide))).1
    have hstep : (ctx.step flags sigversion st ⟨CScript.pushOpcode v.length, v,
        values.flatMap CScript.pushData ++ rest⟩).result = .ok (st.push v) :=
      step_push hexec hop (checkMinimalPush_pushOpcode hv) hv.2 (by omega)
    have hroom' : (st.push v).stack.length + (st.push v).altstack.length + values.length ≤ 1000 := by
      change st.stack.length + 1 + st.altstack.length + values.length ≤ 1000
      omega
    have hrun := @ih (st.push v) hrest hexec hroom'
    refine runs_cons hstep ?_
    rw [List.reverse_cons, List.append_assoc]
    exact hrun

theorem length_pushAll_le {values : List Valtype} (hvalues : ∀ v ∈ values, Pushable v)
    (hcount : values.length ≤ 18) : (PushAll values).length ≤ 10000 := by
  have hsize := CScript.length_flatMap_pushData values (Nat.le_refl _)
    fun v hv => (hvalues v hv).2
  have h520 : MAX_SCRIPT_ELEMENT_SIZE = 520 := rfl
  rw [h520] at hsize
  rw [CScript.PushAll_eq_flatMap fun v hv => (hvalues v hv).1]
  omega

theorem instructions_pushAll {values : List Valtype} (hvalues : ∀ v ∈ values, Pushable v)
    (hcount : values.length ≤ 18) :
    (PushAll values).instructions = CScript.pushOps values [] := by
  have hsize := length_pushAll_le hvalues hcount
  rw [CScript.PushAll_eq_flatMap fun v hv => (hvalues v hv).1] at hsize ⊢
  have hops := CScript.instructions_pushes values [] (by
    rw [List.append_nil]
    omega)
  rwa [List.append_nil, CScript.instructions_nil, List.append_nil] at hops

-- `scriptSig` leaves what it pushes, the last on top.
theorem evalScript_pushes (values : List Valtype) (hvalues : ∀ v ∈ values, Pushable v)
    (hcount : values.length ≤ 18) :
    (ctx.evalScript flags sigversion [] (PushAll values)).result = .ok values.reverse := by
  have hruns : ctx.Runs flags sigversion (PushAll values).instructions
      { stack := [], pbegincodehash := PushAll values }
      { stack := values.reverse ++ [], pbegincodehash := PushAll values } := by
    rw [instructions_pushAll hvalues hcount]
    exact runs_pushOps hvalues rfl (by simp only [List.length_nil]; omega)
  rw [List.append_nil] at hruns
  exact evalScript_of_runs _ (length_pushAll_le hvalues hcount) hruns rfl

theorem isPushOnly_pushAll {values : List Valtype} (hvalues : ∀ v ∈ values, Pushable v)
    (hcount : values.length ≤ 18) : (PushAll values).isPushOnly = true := by
  rw [CScript.isPushOnly, instructions_pushAll hvalues hcount, List.all_eq_true]
  clear hcount
  induction values with
  | nil => exact List.forall_mem_nil _
  | cons v values ih =>
    obtain ⟨hv, hrest⟩ := List.forall_mem_cons.mp hvalues
    rw [CScript.pushOps, List.forall_mem_cons]
    refine ⟨?_, ih hrest⟩
    have hop := (@CScript.pushHeader_spec v.length (hv.2.trans_lt (by decide))).1
    exact decide_eq_true (UInt8.le_trans hop (by decide))

end ScriptContext

end AnkerNode
