import AnkerNode.Script.Verify

namespace AnkerNode

open Checks Traced

section Minimal

variable {min₂ min₁ : Bool} (hmin : min₁ = true → min₂ = true)

include hmin

theorem scriptNum_okImplies (vch : Valtype) (size : Nat) :
    OkImplies (scriptNum vch min₂ size) (scriptNum vch min₁ size) := by
  intro n hn
  simp only [scriptNum, fromOption_eq_ok] at hn ⊢
  exact CScriptNum.ofVch_mono hmin hn

theorem pick_okImplies (st : EvalState) (roll : Bool) :
    OkImplies (st.pick min₂ roll) (st.pick min₁ roll) := by
  simp only [EvalState.pick]
  split
  · exact (scriptNum_okImplies hmin _ _).bind fun n => okImplies_refl _
  · exact okImplies_refl _

theorem unaryOp_okImplies (st : EvalState) (op : UnaryOp) :
    OkImplies (st.unaryOp min₂ op) (st.unaryOp min₁ op) := by
  simp only [EvalState.unaryOp]
  split
  · exact okImplies_refl _
  · exact (scriptNum_okImplies hmin _ _).bind fun bn => okImplies_refl _

theorem binaryArgs_okImplies (st : EvalState) :
    OkImplies (st.binaryArgs min₂) (st.binaryArgs min₁) := by
  simp only [EvalState.binaryArgs]
  split
  · exact (scriptNum_okImplies hmin _ _).bind fun bn1 =>
      (scriptNum_okImplies hmin _ _).bind fun bn2 => okImplies_refl _
  · exact okImplies_refl _

theorem within_okImplies (st : EvalState) : OkImplies (st.within min₂) (st.within min₁) := by
  simp only [EvalState.within]
  split
  · exact (scriptNum_okImplies hmin _ _).bind fun bn1 =>
      (scriptNum_okImplies hmin _ _).bind fun bn2 =>
        (scriptNum_okImplies hmin _ _).bind fun bn3 => okImplies_refl _
  · exact okImplies_refl _

theorem multiSigCount_okImplies (vch : Valtype) (limit : Int) (serror : ScriptError) :
    OkImplies (multiSigCount vch min₂ limit serror) (multiSigCount vch min₁ limit serror) :=
  (scriptNum_okImplies hmin vch 4).bind fun _ => okImplies_refl _

theorem multiSigArgs_okImplies (st : EvalState) :
    OkImplies (st.multiSigArgs min₂) (st.multiSigArgs min₁) := by
  simp only [EvalState.multiSigArgs]
  split
  · exact okImplies_refl _
  · refine (multiSigCount_okImplies hmin _ _ _).bind fun nKeysCount => ?_
    refine (okImplies_refl _).bind fun _ => ?_
    refine (okImplies_refl _).bind fun _ => ?_
    exact (multiSigCount_okImplies hmin _ _ _).bind fun nSigsCount => okImplies_refl _

end Minimal

namespace ScriptContext

variable {flags₁ flags₂ : Nat} (hsub : FlagsSubset flags₁ flags₂)

include hsub

theorem checkEncodings_okImplies (sigversion : SigVersion) (vchSig vchPubKey : Valtype) :
    OkImplies (checkEncodings flags₂ sigversion vchSig vchPubKey)
      (checkEncodings flags₁ sigversion vchSig vchPubKey) := by
  have hmono (flag : Nat) (h : hasFlag flags₁ flag = true) : hasFlag flags₂ flag = true :=
    hasFlag_mono hsub h
  refine OkImplies.bind ?_ fun _ => ?_
  · simp only [checkSignatureEncoding]
    split
    · exact okImplies_refl _
    · refine (okImplies_setErrorIf ?_).bind fun _ =>
        (okImplies_onlyIf (hmono _)).bind fun _ => okImplies_setErrorIf ?_
      · simp only [Bool.and_eq_true, Bool.or_eq_true]
        exact And.imp_left (Or.imp (Or.imp (hmono _) (hmono _)) (hmono _))
      · simp only [Bool.and_eq_true]
        exact And.imp_left (hmono _)
  · refine (okImplies_setErrorIf ?_).bind fun _ => okImplies_setErrorIf ?_
    · simp only [Bool.and_eq_true]
      exact And.imp_left (hmono _)
    · simp only [Bool.and_eq_true]
      exact And.imp_left (And.imp_left (hmono _))

variable (ctx : ScriptContext) (sigversion : SigVersion)

theorem evalCheckSig_simulates (st : EvalState) (verify : Option ScriptError) :
    Simulates Eq (ctx.evalCheckSig flags₂ sigversion st verify)
      (ctx.evalCheckSig flags₁ sigversion st verify) := by
  simp only [evalCheckSig]
  split
  · exact (simulates_lift (checkEncodings_okImplies hsub _ _ _)).bind_eq fun _ =>
      simulates_refl _
  · exact simulates_refl _

theorem multiSigLoop_simulates (scriptCode : CScript) (sigs keys : List Valtype) :
    Simulates Eq (ctx.multiSigLoop flags₂ sigversion scriptCode sigs keys)
      (ctx.multiSigLoop flags₁ sigversion scriptCode sigs keys) := by
  induction keys generalizing sigs with
  | nil => cases sigs <;> exact simulates_refl _
  | cons key keys ih =>
    cases sigs with
    | nil => exact simulates_refl _
    | cons sig sigs =>
      simp only [multiSigLoop]
      refine (simulates_lift (checkEncodings_okImplies hsub _ _ _)).bind_eq fun _ =>
        (simulates_refl _).bind_eq fun fOk => ?_
      exact Simulates.ite (simulates_refl _) (ih _)

theorem evalCheckMultiSig_simulates (st : EvalState) (verify : Option ScriptError) :
    Simulates Eq (ctx.evalCheckMultiSig flags₂ sigversion st verify)
      (ctx.evalCheckMultiSig flags₁ sigversion st verify) := by
  have hmono (flag : Nat) (h : hasFlag flags₁ flag = true) : hasFlag flags₂ flag = true :=
    hasFlag_mono hsub h
  refine (simulates_lift (multiSigArgs_okImplies (hmono _) st)).bind_eq fun args =>
    (multiSigLoop_simulates hsub ctx sigversion _ _ _).bind_eq fun fSuccess =>
      (simulates_lift (okImplies_setErrorIf ?_)).bind_eq fun _ => simulates_refl _
  simp only [Bool.and_eq_true]
  exact And.imp_left (hmono _)

theorem lockTimeArg_okImplies (st : EvalState) :
    OkImplies (lockTimeArg flags₂ st) (lockTimeArg flags₁ st) := by
  simp only [lockTimeArg]
  split
  · exact okImplies_refl _
  · exact (scriptNum_okImplies (hasFlag_mono hsub) _ _).bind fun _ => okImplies_refl _

omit hsub in
theorem evalCheckLockTimeVerify_yields (flags : Nat) (st : EvalState) :
    Yields (fun st' => st' = st) (ctx.evalCheckLockTimeVerify flags st) := by
  simp only [evalCheckLockTimeVerify]
  split
  · exact .of_bind fun _ => .of_bind fun _ => .of_bind fun _ => yields_pure rfl
  · exact .of_bind fun _ => yields_pure rfl

omit hsub in
theorem evalCheckSequenceVerify_yields (flags : Nat) (st : EvalState) :
    Yields (fun st' => st' = st) (ctx.evalCheckSequenceVerify flags st) := by
  simp only [evalCheckSequenceVerify]
  split
  · refine .of_bind fun _ => ?_
    split
    · exact yields_pure rfl
    · exact .of_bind fun _ => .of_bind fun _ => yields_pure rfl
  · exact .of_bind fun _ => yields_pure rfl

end ScriptContext

-- a flag set that leaves an upgraded NOP off must not discourage it
structure UpgradesKnown (flags : Nat) : Prop where
  lockTime : hasFlag flags SCRIPT_VERIFY_DISCOURAGE_UPGRADABLE_NOPS = true →
    hasFlag flags SCRIPT_VERIFY_CHECKLOCKTIMEVERIFY = true
  sequence : hasFlag flags SCRIPT_VERIFY_DISCOURAGE_UPGRADABLE_NOPS = true →
    hasFlag flags SCRIPT_VERIFY_CHECKSEQUENCEVERIFY = true

namespace ScriptContext

variable {flags₁ flags₂ : Nat}

theorem discourageNop_of_off {flag : Nat}
    (h : hasFlag flags₁ SCRIPT_VERIFY_DISCOURAGE_UPGRADABLE_NOPS = true → hasFlag flags₁ flag = true)
    (hoff : ¬ hasFlag flags₁ flag = true) : discourageNop flags₁ = .ok () := by
  rw [discourageNop, setErrorIf_eq_ok, Bool.eq_false_iff]
  exact fun hd => hoff (h hd)

variable (hsub : FlagsSubset flags₁ flags₂) (hnops : UpgradesKnown flags₁)

include hsub

theorem discourageNop_okImplies : OkImplies (discourageNop flags₂) (discourageNop flags₁) :=
  okImplies_setErrorIf (hasFlag_mono hsub)

include hnops

variable (ctx : ScriptContext) (sigversion : SigVersion)

theorem evalCheckLockTimeVerify_simulates (st : EvalState) :
    Simulates Eq (ctx.evalCheckLockTimeVerify flags₂ st)
      (ctx.evalCheckLockTimeVerify flags₁ st) := by
  by_cases hon : hasFlag flags₁ SCRIPT_VERIFY_CHECKLOCKTIMEVERIFY = true
  · simp only [evalCheckLockTimeVerify, hon, hasFlag_mono hsub hon, if_true]
    exact (simulates_lift (lockTimeArg_okImplies hsub st)).bind_eq fun _ => simulates_refl _
  · rw [show ctx.evalCheckLockTimeVerify flags₁ st = pure st by
      simp only [evalCheckLockTimeVerify, if_neg hon, discourageNop_of_off hnops.lockTime hon]
      rfl]
    exact simulates_pure_right (evalCheckLockTimeVerify_yields ctx flags₂ st)

theorem evalCheckSequenceVerify_simulates (st : EvalState) :
    Simulates Eq (ctx.evalCheckSequenceVerify flags₂ st)
      (ctx.evalCheckSequenceVerify flags₁ st) := by
  by_cases hon : hasFlag flags₁ SCRIPT_VERIFY_CHECKSEQUENCEVERIFY = true
  · simp only [evalCheckSequenceVerify, hon, hasFlag_mono hsub hon, if_true]
    exact (simulates_lift (lockTimeArg_okImplies hsub st)).bind_eq fun _ => simulates_refl _
  · rw [show ctx.evalCheckSequenceVerify flags₁ st = pure st by
      simp only [evalCheckSequenceVerify, if_neg hon, discourageNop_of_off hnops.sequence hon]
      rfl]
    exact simulates_pure_right (evalCheckSequenceVerify_yields ctx flags₂ st)

theorem evalOpcode_simulates (st : EvalState) (next : CScript) (op : Opcode) :
    Simulates Eq (ctx.evalOpcode flags₂ sigversion st next op)
      (ctx.evalOpcode flags₁ sigversion st next op) := by
  have hmin (h : hasFlag flags₁ SCRIPT_VERIFY_MINIMALDATA = true) :
      hasFlag flags₂ SCRIPT_VERIFY_MINIMALDATA = true := hasFlag_mono hsub h
  cases op with
  | upgradableNop =>
    exact (simulates_lift (discourageNop_okImplies hsub)).bind_eq fun _ => simulates_refl _
  | OP_CHECKLOCKTIMEVERIFY => exact evalCheckLockTimeVerify_simulates hsub hnops ctx st
  | OP_CHECKSEQUENCEVERIFY => exact evalCheckSequenceVerify_simulates hsub hnops ctx st
  | OP_PICK => exact simulates_lift (pick_okImplies hmin st false)
  | OP_ROLL => exact simulates_lift (pick_okImplies hmin st true)
  | unary op => exact simulates_lift (unaryOp_okImplies hmin st op)
  | binary op =>
    exact simulates_lift ((binaryArgs_okImplies hmin st).bind fun _ => okImplies_refl _)
  | OP_NUMEQUALVERIFY =>
    exact simulates_lift ((binaryArgs_okImplies hmin st).bind fun _ => okImplies_refl _)
  | OP_WITHIN => exact simulates_lift (within_okImplies hmin st)
  | OP_CHECKSIG => exact evalCheckSig_simulates hsub ctx sigversion st _
  | OP_CHECKSIGVERIFY => exact evalCheckSig_simulates hsub ctx sigversion st _
  | OP_CHECKMULTISIG => exact evalCheckMultiSig_simulates hsub ctx sigversion st _
  | OP_CHECKMULTISIGVERIFY => exact evalCheckMultiSig_simulates hsub ctx sigversion st _
  | _ => exact simulates_refl _

theorem execute_simulates (st : EvalState) (i : Instruction) :
    Simulates Eq (ctx.execute flags₂ sigversion st i) (ctx.execute flags₁ sigversion st i) := by
  simp only [execute]
  split
  · refine (simulates_lift (okImplies_setErrorIf ?_)).bind_eq fun _ => simulates_refl _
    simp only [Bool.and_eq_true]
    exact And.imp_left (hasFlag_mono hsub)
  · split
    · exact evalOpcode_simulates hsub hnops ctx sigversion st _ _
    · exact simulates_refl _

theorem step_simulates (st : EvalState) (i : Instruction) :
    Simulates Eq (ctx.step flags₂ sigversion st i) (ctx.step flags₁ sigversion st i) :=
  (simulates_refl _).bind_eq fun st =>
    (execute_simulates hsub hnops ctx sigversion st i).bind_eq fun _ => simulates_refl _

theorem evalOps_simulates (ops : List (Option Instruction)) (st : EvalState) :
    Simulates Eq (ctx.evalOps flags₂ sigversion ops st)
      (ctx.evalOps flags₁ sigversion ops st) := by
  induction ops generalizing st with
  | nil => exact simulates_refl _
  | cons op ops ih =>
    cases op with
    | none => exact simulates_refl _
    | some i => exact (step_simulates hsub hnops ctx sigversion st i).bind_eq ih

theorem evalScript_simulates (stack : List Valtype) (script : CScript) :
    Simulates Eq (ctx.evalScript flags₂ sigversion stack script)
      (ctx.evalScript flags₁ sigversion stack script) :=
  (simulates_refl _).bind_eq fun _ =>
    (evalOps_simulates hsub hnops ctx sigversion _ _).bind_eq fun _ => simulates_refl _

theorem verifyWitnessProgram_simulates (witness : CScriptWitness) (witversion : Nat)
    (program : Valtype) :
    Simulates Eq (ctx.verifyWitnessProgram flags₂ witness witversion program)
      (ctx.verifyWitnessProgram flags₁ witness witversion program) := by
  simp only [verifyWitnessProgram]
  split
  · exact (simulates_refl _).bind_eq fun _ => (simulates_refl _).bind_eq fun _ =>
      (evalScript_simulates hsub hnops ctx _ _ _).bind_eq fun _ => simulates_refl _
  · exact simulates_lift (okImplies_setErrorIf (hasFlag_mono hsub))

end ScriptContext

structure FlagsAdmissible (flags : Nat) : Prop where
  cleanStack : hasFlag flags SCRIPT_VERIFY_CLEANSTACK = true →
    hasFlag flags SCRIPT_VERIFY_P2SH = true ∧ hasFlag flags SCRIPT_VERIFY_WITNESS = true
  witness : hasFlag flags SCRIPT_VERIFY_WITNESS = true → hasFlag flags SCRIPT_VERIFY_P2SH = true

-- what is left of a verification under more flags says nothing to one without `WITNESS`
def AgreeUnderWitness (flags : Nat) (state₂ state₁ : List Valtype × Bool) : Prop :=
  hasFlag flags SCRIPT_VERIFY_WITNESS = true → state₂ = state₁

namespace ScriptContext

variable {flags₁ flags₂ : Nat} (hsub : FlagsSubset flags₁ flags₂)
  (hadm : FlagsAdmissible flags₁)

include hsub

section Closing

variable {state₂ state₁ : List Valtype × Bool} (hstate : AgreeUnderWitness flags₁ state₂ state₁)

include hadm hstate

theorem requireCleanStack_okImplies :
    OkImplies (requireCleanStack flags₂ state₂.1) (requireCleanStack flags₁ state₁.1) := by
  by_cases hon : hasFlag flags₁ SCRIPT_VERIFY_CLEANSTACK = true
  · obtain ⟨hp2sh, hwitness⟩ := hadm.cleanStack hon
    rw [hstate hwitness]
    simp only [requireCleanStack, hon, hp2sh, hwitness, hasFlag_mono hsub hon,
      hasFlag_mono hsub hp2sh, hasFlag_mono hsub hwitness, if_true]
    exact okImplies_refl _
  · intro u _
    simp only [requireCleanStack, if_neg hon]

theorem requireExpectedWitness_okImplies (witness : CScriptWitness) :
    OkImplies (requireExpectedWitness flags₂ witness state₂.2)
      (requireExpectedWitness flags₁ witness state₁.2) := by
  by_cases hon : hasFlag flags₁ SCRIPT_VERIFY_WITNESS = true
  · have hp2sh := hadm.witness hon
    rw [hstate hon]
    simp only [requireExpectedWitness, hon, hp2sh, hasFlag_mono hsub hon,
      hasFlag_mono hsub hp2sh, if_true]
    exact okImplies_refl _
  · intro u _
    simp only [requireExpectedWitness, if_neg hon]

end Closing

variable (hnops : UpgradesKnown flags₁) (ctx : ScriptContext)

include hnops

theorem verifyWitness_simulates (witness : CScriptWitness) (script : CScript) (malleated : Bool)
    (serror : ScriptError) (stack : List Valtype) {had₂ had₁ : Bool}
    (hhad : hasFlag flags₁ SCRIPT_VERIFY_WITNESS = true → had₂ = had₁) :
    Simulates (AgreeUnderWitness flags₁)
      (ctx.verifyWitness flags₂ witness script malleated serror stack had₂)
      (ctx.verifyWitness flags₁ witness script malleated serror stack had₁) := by
  by_cases hon : hasFlag flags₁ SCRIPT_VERIFY_WITNESS = true
  · obtain rfl := hhad hon
    refine Simulates.mono (R := Eq) ?_ fun a b hab _ => hab
    simp only [verifyWitness, hon, hasFlag_mono hsub hon, if_true]
    split
    · exact simulates_refl _
    · exact (simulates_refl _).bind_eq fun _ =>
        (verifyWitnessProgram_simulates hsub hnops ctx _ _ _).bind_eq fun _ => simulates_refl _
  · simp only [verifyWitness, if_neg hon]
    exact simulates_pure_right fun _ _ h => absurd h hon

include hadm

theorem verifyScriptHash_simulates (witness : CScriptWitness) (scriptSig scriptPubKey : CScript)
    (stackCopy : List Valtype) {state₂ state₁ : List Valtype × Bool}
    (hstate : AgreeUnderWitness flags₁ state₂ state₁) :
    Simulates (AgreeUnderWitness flags₁)
      (ctx.verifyScriptHash flags₂ witness scriptSig scriptPubKey stackCopy state₂)
      (ctx.verifyScriptHash flags₁ witness scriptSig scriptPubKey stackCopy state₁) := by
  by_cases hon : hasFlag flags₁ SCRIPT_VERIFY_P2SH = true
  · simp only [verifyScriptHash, hon, hasFlag_mono hsub hon, true_and]
    refine Simulates.ite ((simulates_refl _).bind_eq fun _ => ?_) (simulates_pure hstate)
    cases stackCopy with
    | nil => exact fun a ha => by simp at ha
    | cons pubKey2 stack =>
      exact (evalScript_simulates hsub hnops ctx _ _ _).bind_eq fun _ =>
        (simulates_refl _).bind_eq fun _ =>
          verifyWitness_simulates hsub hnops ctx _ _ _ _ _ fun h => congrArg Prod.snd (hstate h)
  · have hoff : ¬ hasFlag flags₁ SCRIPT_VERIFY_WITNESS = true := fun h => hon (hadm.witness h)
    rw [show ctx.verifyScriptHash flags₁ witness scriptSig scriptPubKey stackCopy state₁ =
      pure state₁ from if_neg fun h => hon h.1]
    exact simulates_pure_right fun _ _ h => absurd h hoff

theorem verifyScript_simulates (scriptSig scriptPubKey : CScript) (witness : CScriptWitness) :
    Simulates Eq (ctx.verifyScript flags₂ scriptSig scriptPubKey witness)
      (ctx.verifyScript flags₁ scriptSig scriptPubKey witness) := by
  refine (simulates_lift (okImplies_setErrorIf ?_)).bind_eq fun _ => ?_
  · simp only [Bool.and_eq_true]
    exact And.imp_left (hasFlag_mono hsub)
  · refine (evalScript_simulates hsub hnops ctx _ _ _).bind_eq fun stackCopy => ?_
    refine (evalScript_simulates hsub hnops ctx _ _ _).bind_eq fun stack => ?_
    refine (simulates_refl _).bind_eq fun _ => ?_
    refine (verifyWitness_simulates hsub hnops ctx witness _ _ _ stack fun _ => rfl).bind
      fun state₂ state₁ hstate => ?_
    refine (verifyScriptHash_simulates hsub hadm hnops ctx witness _ _ stackCopy hstate).bind
      fun state₂ state₁ hstate => ?_
    exact (simulates_lift (requireCleanStack_okImplies hsub hadm hstate)).bind_eq fun _ =>
      simulates_lift (requireExpectedWitness_okImplies hsub hadm hstate witness)

theorem flags_only_restrict (scriptSig scriptPubKey : CScript) (witness : CScriptWitness)
    (hok : (ctx.verifyScript flags₂ scriptSig scriptPubKey witness).result = .ok ()) :
    (ctx.verifyScript flags₁ scriptSig scriptPubKey witness).result = .ok () :=
  simulates_eq_iff.mp
    (verifyScript_simulates hsub hadm hnops ctx scriptSig scriptPubKey witness) () hok

end ScriptContext

def plainHashes : ScriptHashes := ⟨id, id, id, id, id⟩

def permissiveChecker : BaseSignatureChecker :=
  ⟨fun _ _ _ _ => true, fun _ => true, fun _ => true⟩

def permissiveContext : ScriptContext := ⟨plainHashes, permissiveChecker⟩

def segwitFlags : Nat :=
  SCRIPT_VERIFY_P2SH + SCRIPT_VERIFY_DERSIG + SCRIPT_VERIFY_WITNESS +
    SCRIPT_VERIFY_CHECKLOCKTIMEVERIFY + SCRIPT_VERIFY_CHECKSEQUENCEVERIFY

theorem flags_only_restrict_sequence :
    (permissiveContext.verifyScript SCRIPT_VERIFY_P2SH [0x55] [0xb2] []).result = .ok () :=
  ScriptContext.flags_only_restrict
    (show FlagsSubset SCRIPT_VERIFY_P2SH segwitFlags by decide) ⟨by decide, by decide⟩
    ⟨by decide, by decide⟩ permissiveContext [0x55] [0xb2] [] rfl

end AnkerNode
