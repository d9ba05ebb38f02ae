import AnkerNode.Script.SigOps

namespace AnkerNode

open Checks Traced

namespace CScript

theorem eq_of_isPayToScriptHash {s : CScript} (h : s.isPayToScriptHash = true) :
    ∃ id : Valtype, id.length = 20 ∧ s = OP_HASH160 :: 0x14 :: (id ++ [OP_EQUAL]) := by
  simp only [isPayToScriptHash, Bool.and_eq_true, beq_iff_eq] at h
  obtain ⟨⟨⟨hlen, h0⟩, h1⟩, h22⟩ := h
  match s, hlen, h0, h1, h22 with
  | a :: b :: rest, hlen, h0, h1, h22 =>
    simp only [List.length_cons, List.getElem?_cons_zero, Option.some.injEq,
      List.getElem?_cons_succ] at hlen h0 h1 h22
    have hdrop : rest.drop 20 = [OP_EQUAL] := by
      have hlast : (rest.drop 20).length = 1 := by simp only [List.length_drop]; omega
      obtain ⟨x, hx⟩ := List.length_eq_one_iff.mp hlast
      have hget : (rest.drop 20)[0]? = some OP_EQUAL := by simpa using h22
      rw [hx] at hget ⊢
      simpa using hget
    refine ⟨rest.take 20, by simp only [List.length_take]; omega, ?_⟩
    rw [h0, h1, ← hdrop, List.take_append_drop]

theorem instructions_payToScriptHash {id : Valtype} (h : id.length = 20) :
    instructions (OP_HASH160 :: 0x14 :: (id ++ [OP_EQUAL])) =
      [some ⟨OP_HASH160, [], 0x14 :: (id ++ [OP_EQUAL])⟩, some ⟨0x14, id, [OP_EQUAL]⟩,
        some ⟨OP_EQUAL, [], []⟩] := by
  rw [instructions_cons (by decide), instructions_push (by decide) h, instructions_cons (by decide)]
  rfl

theorem getSigOpCount_payToScriptHash {s : CScript} (h : s.isPayToScriptHash = true) :
    s.getSigOpCount true = 0 := by
  obtain ⟨id, hid, rfl⟩ := eq_of_isPayToScriptHash h
  rw [getSigOpCount, instructions_payToScriptHash hid]
  rfl

theorem isWitnessProgram_payToScriptHash {s : CScript} (h : s.isPayToScriptHash = true) :
    s.isWitnessProgram = none := by
  obtain ⟨id, hid, rfl⟩ := eq_of_isPayToScriptHash h
  have hversion : OP_HASH160 ≠ OP_0 ∧ (OP_HASH160 < OP_1 ∨ OP_16 < OP_HASH160) := by decide
  simp only [isWitnessProgram, if_pos hversion, ite_self]

end CScript

theorem getSigOpCount_payToPubKeyHash {program : Valtype} (h : program.length = 20) :
    CScript.getSigOpCount (ScriptContext.payToPubKeyHash program) true = 1 := by
  have hscript : ScriptContext.payToPubKeyHash program =
      OP_DUP :: OP_HASH160 :: 0x14 :: (program ++ [OP_EQUALVERIFY, OP_CHECKSIG]) := by
    simp only [ScriptContext.payToPubKeyHash, CScript.pushData, h]
    rfl
  rw [CScript.getSigOpCount, hscript, CScript.instructions_cons (by decide),
    CScript.instructions_cons (by decide), CScript.instructions_push (by decide) h,
    CScript.instructions_cons (by decide), CScript.instructions_cons (by decide)]
  rfl

namespace ScriptContext

variable (ctx : ScriptContext) (flags : Nat)

theorem getSigOpCount_witnessScript {witness : CScriptWitness} {program : Valtype}
    {p : List Valtype × CScript} (h : ctx.witnessScript witness program = .ok p) :
    CScript.getSigOpCount p.2 true = witnessSigOps 0 program witness := by
  simp only [witnessScript] at h
  split at h
  · rename_i hlen
    split at h
    · simp [setError] at h
    · rename_i scriptPubKey stack hwitness
      obtain ⟨_, _, h⟩ := bind_eq_ok.mp h
      cases h
      have hlast : witness.getLast? = some scriptPubKey := by
        rw [← List.head?_reverse, hwitness, List.head?_cons]
      simp [witnessSigOps, hlast, hlen]
  · split at h
    · rename_i hlen
      obtain ⟨_, _, h⟩ := bind_eq_ok.mp h
      cases h
      simpa [witnessSigOps, hlen] using getSigOpCount_payToPubKeyHash hlen
    · simp [setError] at h

theorem calls_verifyWitnessProgram (witness : CScriptWitness) (witversion : Nat)
    (program : Valtype) :
    Calls (witnessSigOps witversion program witness)
      (ctx.verifyWitnessProgram flags witness witversion program) := by
  simp only [verifyWitnessProgram]
  split
  · rename_i hversion
    refine (within_lift _).bind_free fun p hp => (within_lift _).bind_free fun _ _ => ?_
    rw [hversion, ← getSigOpCount_witnessScript ctx hp]
    exact (calls_evalScript ctx flags _ _ _).bind fun _ _ =>
      (within_lift _).bind_free fun _ _ => within_lift _
  · exact (within_lift _).mono (Nat.zero_le _)

-- the count that `CountWitnessSigOps` gives a script that may be a witness program
def programSigOps (script : CScript) (witness : CScriptWitness) : Nat :=
  if hasFlag flags SCRIPT_VERIFY_WITNESS then (witnessSigOpsOf script witness).getD 0 else 0

theorem calls_verifyWitness (witness : CScriptWitness) (script : CScript) (malleated : Bool)
    (serror : ScriptError) (stack : List Valtype) (hadWitness : Bool) :
    Calls (programSigOps flags script witness)
      (ctx.verifyWitness flags witness script malleated serror stack hadWitness) := by
  simp only [verifyWitness, programSigOps, witnessSigOpsOf]
  split
  · cases hprogram : script.isWitnessProgram with
    | none => exact within_pure _
    | some program =>
      exact (within_lift _).bind_free fun _ _ =>
        (calls_verifyWitnessProgram ctx flags witness _ _).bind fun _ _ => within_pure _
  · exact within_pure _

end ScriptContext

def pushesSmallScript : Opcode → Bool
  | .smallInt n => decide ((CScriptNum.serialize n).length ≤ 1) &&
      decide (CScript.getSigOpCount (CScriptNum.serialize n) true = 0)
  | .invalid => true
  | _ => false

theorem pushesSmallScript_ofByte : ∀ b : UInt8, b ≤ OP_16 →
    b ≤ CScript.OP_PUSHDATA4 ∨ pushesSmallScript (Opcode.ofByte b) = true :=
  forall_uint8 (by decide +kernel)

-- The top of the stack next to the data of the last push: the two differ where an opcode pushes a
-- number of one byte, and a script of that byte has no signature operation.
def TopMirrors (data : Valtype) (st : EvalState) : Prop :=
  st.vfExec = [] ∧ ∀ top, st.stack.head? = some top →
    top = data ∨ top.length ≤ 1 ∧ CScript.getSigOpCount top true = 0

namespace ScriptContext

variable (ctx : ScriptContext) (flags : Nat) (sigversion : SigVersion)

theorem evalOpcode_topMirrors {st : EvalState} (hst : st.vfExec = []) (data : Valtype)
    (next : CScript) {op : Opcode} (hop : pushesSmallScript op = true) :
    Yields (TopMirrors data) (ctx.evalOpcode flags sigversion st next op) := by
  cases op with
  | smallInt n =>
    simp only [pushesSmallScript, Bool.and_eq_true, decide_eq_true_eq] at hop
    refine yields_pure ⟨hst, fun top htop => .inr ?_⟩
    obtain rfl : CScriptNum.serialize n = top := by simpa [EvalState.push] using htop
    exact hop
  | invalid => exact yields_lift fun a ha => by simp [setError] at ha
  | _ => simp [pushesSmallScript] at hop

theorem execute_topMirrors {st : EvalState} (hst : st.vfExec = []) {i : Instruction}
    (hpush : i.opcode ≤ OP_16) :
    Yields (TopMirrors i.data) (ctx.execute flags sigversion st i) := by
  have hexec : st.fExec = true := by simp [EvalState.fExec, hst]
  by_cases hdata : i.opcode ≤ CScript.OP_PUSHDATA4
  · simp only [execute, hexec, hdata, and_self, if_true]
    refine .of_bind fun _ => yields_pure ⟨hst, fun top htop => .inl ?_⟩
    simpa [EvalState.push] using htop.symm
  · simp only [execute, hexec, hdata, and_false, true_or, if_true, if_false]
    have hop := (pushesSmallScript_ofByte i.opcode hpush).resolve_left hdata
    exact evalOpcode_topMirrors ctx flags sigversion hst i.data i.next hop

theorem step_topMirrors {st : EvalState} (hst : st.vfExec = []) {i : Instruction}
    (hpush : i.opcode ≤ OP_16) :
    Yields (TopMirrors i.data) (ctx.step flags sigversion st i) := by
  refine Yields.bind (yields_lift fun st' hpermit => (permit_eq_ok hpermit).2.trans hst)
    fun st' hst' => ?_
  exact (execute_topMirrors ctx flags sigversion hst' hpush).bind fun _ h =>
    .of_bind fun _ => yields_pure h

theorem evalOps_topMirrors {ops : List (Option Instruction)} {data : Valtype} {st : EvalState}
    (h : TopMirrors data st)
    (hpush : ops.all (fun op => op.any fun i => decide (i.opcode ≤ OP_16)) = true) :
    ∃ last, CScript.lastPush data ops = some last ∧
      Yields (TopMirrors last) (ctx.evalOps flags sigversion ops st) := by
  induction ops generalizing data st with
  | nil => exact ⟨data, rfl, yields_pure h⟩
  | cons op ops ih =>
    cases op with
    | none => simp at hpush
    | some i =>
      simp only [List.all_cons, Option.any_some, Bool.and_eq_true, decide_eq_true_eq] at hpush
      have hstep := step_topMirrors ctx flags sigversion h.1 hpush.1
      have hempty : TopMirrors i.data { stack := [], pbegincodehash := [] } := ⟨rfl, by simp⟩
      obtain ⟨last, hlast, -⟩ := ih hempty hpush.2
      refine ⟨last, ?_, hstep.bind fun st' hst' => ?_⟩
      · rw [CScript.lastPush, if_neg (UInt8.not_lt.mpr hpush.1), hlast]
      · obtain ⟨last', hlast', hyields⟩ := ih hst' hpush.2
        obtain rfl : last = last' := Option.some.inj (hlast.symm.trans hlast')
        exact hyields

theorem evalScript_lastPush {scriptSig : CScript} (hpush : scriptSig.isPushOnly = true) :
    ∃ last, CScript.lastPush [] scriptSig.instructions = some last ∧
      Yields (fun stack => ∀ top, stack.head? = some top →
        top = last ∨ top.length ≤ 1 ∧ CScript.getSigOpCount top true = 0)
        (ctx.evalScript flags sigversion [] scriptSig) := by
  have hempty : TopMirrors [] { stack := [], pbegincodehash := scriptSig } := ⟨rfl, by simp⟩
  obtain ⟨last, hlast, hyields⟩ := evalOps_topMirrors ctx flags sigversion hempty hpush
  exact ⟨last, hlast, .of_bind fun _ => hyields.bind fun st' hst' =>
    .of_bind fun _ => yields_pure hst'.2⟩

end ScriptContext

theorem witnessSigOpsOf_short {script : CScript} (h : script.length ≤ 1) (witness : CScriptWitness) :
    witnessSigOpsOf script witness = none := by
  match script, h with
  | [], _ => rfl
  | [_], _ => rfl

namespace ScriptContext

variable (ctx : ScriptContext) {flags : Nat}

theorem countWitnessSigOps_eq (hp2sh : hasFlag flags SCRIPT_VERIFY_P2SH = true)
    (scriptSig scriptPubKey : CScript) (witness : CScriptWitness) :
    countWitnessSigOps scriptSig scriptPubKey witness flags =
      .ok (programSigOps flags scriptPubKey witness +
        if scriptPubKey.isPayToScriptHash ∧ scriptSig.isPushOnly then
          programSigOps flags ((CScript.lastPush [] scriptSig.instructions).getD []) witness
        else 0) := by
  by_cases hon : hasFlag flags SCRIPT_VERIFY_WITNESS = true
  · have hassert : assertThat (hasFlag flags SCRIPT_VERIFY_P2SH) = .ok () := by
      simp [assertThat, failIf, hp2sh]
    simp only [countWitnessSigOps, programSigOps, hon, if_true, hassert]
    cases hprogram : witnessSigOpsOf scriptPubKey witness with
    | none =>
      change (if _ then _ else _) = _
      split <;> simp
    | some n =>
      have hscript : ¬ scriptPubKey.isPayToScriptHash = true := fun h => by
        simp [witnessSigOpsOf, CScript.isWitnessProgram_payToScriptHash h] at hprogram
      simp only [hscript, Bool.false_eq_true, false_and, if_false, Option.getD_some, Nat.add_zero]
      rfl
  · simp [countWitnessSigOps, programSigOps, hon]

theorem programSigOps_payToScriptHash {scriptPubKey : CScript}
    (h : scriptPubKey.isPayToScriptHash = true) (witness : CScriptWitness) :
    programSigOps flags scriptPubKey witness = 0 := by
  simp [programSigOps, witnessSigOpsOf, CScript.isWitnessProgram_payToScriptHash h]

theorem calls_verifyScriptHash {scriptSig scriptPubKey : CScript} {witness : CScriptWitness}
    {stackCopy : List Valtype} (hscript : scriptPubKey.isPayToScriptHash = true)
    (hcopy : (ctx.evalScript flags .SIGVERSION_BASE [] scriptSig).result = .ok stackCopy)
    (state : List Valtype × Bool) :
    Calls (scriptPubKey.getSigOpCountWith scriptSig +
        if scriptPubKey.isPayToScriptHash ∧ scriptSig.isPushOnly then
          programSigOps flags ((CScript.lastPush [] scriptSig.instructions).getD []) witness
        else 0)
      (ctx.verifyScriptHash flags witness scriptSig scriptPubKey stackCopy state) := by
  refine Within.ite ?_ ((within_pure _).mono (Nat.zero_le _))
  refine (within_lift _).bind_free fun _ hpush => ?_
  have hpush : scriptSig.isPushOnly = true := by simpa [setErrorIf_eq_ok] using hpush
  obtain ⟨last, hlast, hyields⟩ := evalScript_lastPush ctx flags .SIGVERSION_BASE hpush
  cases stackCopy with
  | nil => exact (within_lift _).mono (Nat.zero_le _)
  | cons pubKey2 stack =>
    have htop := hyields _ hcopy pubKey2 rfl
    have heval : CScript.getSigOpCount pubKey2 true ≤ scriptPubKey.getSigOpCountWith scriptSig := by
      simp only [CScript.getSigOpCountWith, hscript, hlast]
      rcases htop with rfl | ⟨-, hzero⟩
      · exact Nat.le_refl _
      · exact Nat.le_trans (Nat.le_of_eq hzero) (Nat.zero_le _)
    have hprogram : programSigOps flags pubKey2 witness ≤ programSigOps flags last witness := by
      rcases htop with rfl | ⟨hshort, -⟩
      · exact Nat.le_refl _
      · simp [programSigOps, witnessSigOpsOf_short hshort]
    simp only [hscript, hpush, hlast, and_self, if_true, Option.getD_some]
    refine Within.bind ((calls_evalScript ctx flags _ _ _).mono heval) fun _ _ => ?_
    exact (within_lift _).bind_free fun _ _ =>
      (calls_verifyWitness ctx flags _ _ _ _ _ _).mono hprogram

theorem verifyScriptHash_of_not {scriptPubKey : CScript}
    (h : ¬ scriptPubKey.isPayToScriptHash = true) (witness : CScriptWitness) (scriptSig : CScript)
    (stackCopy : List Valtype) (state : List Valtype × Bool) :
    ctx.verifyScriptHash flags witness scriptSig scriptPubKey stackCopy state = pure state :=
  if_neg fun hc => h hc.2

-- the evaluations after that of `scriptSig`
theorem calls_afterScriptSig {scriptSig scriptPubKey : CScript} {witness : CScriptWitness}
    {stackCopy : List Valtype}
    (hcopy : (ctx.evalScript flags .SIGVERSION_BASE [] scriptSig).result = .ok stackCopy) :
    Calls (scriptPubKey.getSigOpCountWith scriptSig +
        (programSigOps flags scriptPubKey witness +
          if scriptPubKey.isPayToScriptHash ∧ scriptSig.isPushOnly then
            programSigOps flags ((CScript.lastPush [] scriptSig.instructions).getD []) witness
          else 0))
      (do
        let stack ← ctx.evalScript flags .SIGVERSION_BASE stackCopy scriptPubKey
        requireTrue stack
        let state ← ctx.verifyWitness flags witness scriptPubKey (!scriptSig.isEmpty)
          .SCRIPT_ERR_WITNESS_MALLEATED stack false
        let state ← ctx.verifyScriptHash flags witness scriptSig scriptPubKey stackCopy state
        requireCleanStack flags state.1
        requireExpectedWitness flags witness state.2) := by
  have hclosing (state : List Valtype × Bool) :
      Calls 0 (do
        requireCleanStack flags state.1
        requireExpectedWitness flags witness state.2 : Eval Unit) :=
    (within_lift _).bind_free fun _ _ => within_lift _
  by_cases hscript : scriptPubKey.isPayToScriptHash = true
  · have heval (stack : List Valtype) :
        Calls 0 (ctx.evalScript flags .SIGVERSION_BASE stack scriptPubKey) := by
      rw [← CScript.getSigOpCount_payToScriptHash hscript]
      exact calls_evalScript ctx flags _ _ _
    have hbare (stack : List Valtype) :
        Calls 0 (ctx.verifyWitness flags witness scriptPubKey (!scriptSig.isEmpty)
          .SCRIPT_ERR_WITNESS_MALLEATED stack false) := by
      rw [← programSigOps_payToScriptHash hscript witness]
      exact calls_verifyWitness ctx flags _ _ _ _ _ _
    rw [programSigOps_payToScriptHash hscript, Nat.zero_add]
    refine (heval stackCopy).bind_free fun stack _ => (within_lift _).bind_free fun _ _ =>
      (hbare stack).bind_free fun state _ => ?_
    exact (calls_verifyScriptHash ctx hscript hcopy state).bind fun state _ => hclosing state
  · simp only [verifyScriptHash_of_not ctx hscript, CScript.getSigOpCountWith, hscript]
    refine (calls_evalScript ctx flags _ _ _).bind fun stack _ => ?_
    refine (within_lift _).bind_free fun _ _ => ?_
    exact (calls_verifyWitness ctx flags _ _ _ _ _ _).bind fun state _ =>
      (within_pure _).bind_free fun state _ => (hclosing state).mono (Nat.zero_le _)

theorem sigOps_bound_checkSigs (hp2sh : hasFlag flags SCRIPT_VERIFY_P2SH = true)
    (scriptSig scriptPubKey : CScript) (witness : CScriptWitness) :
    ∃ nWitness, countWitnessSigOps scriptSig scriptPubKey witness flags = .ok nWitness ∧
      (ctx.verifyScript flags scriptSig scriptPubKey witness).log.countP ScriptEvent.isCheckSig ≤
        scriptSig.getSigOpCount true + scriptPubKey.getSigOpCountWith scriptSig + nWitness := by
  refine ⟨_, countWitnessSigOps_eq hp2sh scriptSig scriptPubKey witness, ?_⟩
  rw [Nat.add_assoc]
  exact Within.bind_free (within_lift _) fun _ _ =>
    (calls_evalScript ctx flags _ _ _).bind fun stackCopy hcopy => calls_afterScriptSig ctx hcopy

end ScriptContext

def constantHash : Valtype := List.replicate 20 7

def firstKeyContext : ScriptContext where
  hashes := ⟨id, id, id, fun _ => constantHash, id⟩
  checker := ⟨fun _ vchPubKey _ _ => vchPubKey == [2], fun _ => true, fun _ => true⟩

-- one signature of two keys behind a script hash
def multiSigInput : CScript :=
  [OP_0, 1, 0xaa] ++ CScript.pushData [OP_1, 1, 2, 1, 3, 0x52, OP_CHECKMULTISIG]

def multiSigOutput : CScript := [OP_HASH160, 0x14] ++ constantHash ++ [OP_EQUAL]

theorem sigOps_bound_checkSigs_multiSig : ∃ nWitness,
    countWitnessSigOps multiSigInput multiSigOutput [] SCRIPT_VERIFY_P2SH = .ok nWitness ∧
      (firstKeyContext.verifyScript SCRIPT_VERIFY_P2SH multiSigInput multiSigOutput []).log.countP
          ScriptEvent.isCheckSig ≤
        multiSigInput.getSigOpCount true + multiSigOutput.getSigOpCountWith multiSigInput +
          nWitness :=
  ScriptContext.sigOps_bound_checkSigs firstKeyContext (by decide) multiSigInput multiSigOutput []

example : (firstKeyContext.verifyScript SCRIPT_VERIFY_P2SH multiSigInput multiSigOutput []).log.countP
    ScriptEvent.isCheckSig = 2 := by decide +kernel

end AnkerNode
