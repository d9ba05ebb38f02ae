import AnkerNode.Script.Verify

namespace AnkerNode

open Checks Traced

theorem forall_uint8 {P : UInt8 → Prop} (h : ∀ n : Fin 256, P (UInt8.ofFin n)) (b : UInt8) : P b :=
  h b.toFin

namespace Opcode

theorem byte_of_checkSig : ∀ b : UInt8,
    (ofByte b = OP_CHECKSIG → b = AnkerNode.OP_CHECKSIG) ∧
      (ofByte b = OP_CHECKSIGVERIFY → b = AnkerNode.OP_CHECKSIGVERIFY) :=
  forall_uint8 (by decide +kernel)

theorem byte_of_checkMultiSig : ∀ b : UInt8,
    (ofByte b = OP_CHECKMULTISIG → b = AnkerNode.OP_CHECKMULTISIG) ∧
      (ofByte b = OP_CHECKMULTISIGVERIFY → b = AnkerNode.OP_CHECKMULTISIGVERIFY) :=
  forall_uint8 (by decide +kernel)

theorem ofByte_smallInt : ∀ b : UInt8, OP_1 ≤ b ∧ b ≤ OP_16 →
    ofByte b = smallInt (DecodeOP_N b) ∧ 1 ≤ DecodeOP_N b ∧ DecodeOP_N b ≤ 16 :=
  forall_uint8 (by decide +kernel)

end Opcode

theorem multiSigCount_serialize {n k : Nat} {fRequireMinimal : Bool} {limit : Int}
    {serror : ScriptError} (hn : 1 ≤ n ∧ n ≤ 16)
    (h : multiSigCount (CScriptNum.serialize n) fRequireMinimal limit serror = .ok k) : k = n := by
  have hnum : ∀ n : Fin 17, 1 ≤ n.val → ∀ minimal : Bool,
      CScriptNum.ofVch (CScriptNum.serialize n.val) minimal 4 = some (n.val : Int) := by
    decide +kernel
  obtain ⟨m, hm, h⟩ := bind_eq_ok.mp h
  obtain ⟨-, -, h⟩ := bind_eq_ok.mp h
  rw [scriptNum, fromOption_eq_ok, hnum ⟨n, by omega⟩ hn.1] at hm
  cases hm
  cases h
  simp only [CScriptNum.getint]
  omega

theorem multiSigCount_le {vch : Valtype} {fRequireMinimal : Bool} {limit : Int} {k : Nat}
    {serror : ScriptError} (h : multiSigCount vch fRequireMinimal limit serror = .ok k) :
    (k : Int) ≤ limit := by
  obtain ⟨n, -, h⟩ := bind_eq_ok.mp h
  obtain ⟨_, hc, h⟩ := bind_eq_ok.mp h
  cases h
  simp only [setErrorIf_eq_ok, Bool.or_eq_false_iff, decide_eq_false_iff_not] at hc
  omega

namespace ScriptContext

variable (ctx : ScriptContext) (flags : Nat) (sigversion : SigVersion)

abbrev Calls (n : Nat) {α : Type} (m : Eval α) : Prop := Within ScriptEvent.isCheckSig n m

theorem calls_checkSig (vchSig vchPubKey : Valtype) (scriptCode : CScript) :
    Calls 1 (ctx.checkSig vchSig vchPubKey scriptCode sigversion) :=
  (within_emit _).bind fun _ _ => within_pure _

theorem calls_evalCheckSig (st : EvalState) (verify : Option ScriptError) :
    Calls 1 (ctx.evalCheckSig flags sigversion st verify) := by
  simp only [evalCheckSig]
  split
  · exact (within_lift _).bind_free fun _ _ =>
      (calls_checkSig ctx sigversion _ _ _).bind fun _ _ => within_lift _
  · exact (within_lift _).mono (Nat.zero_le 1)

theorem calls_multiSigLoop (scriptCode : CScript) (sigs keys : List Valtype) :
    Calls keys.length (ctx.multiSigLoop flags sigversion scriptCode sigs keys) := by
  induction keys generalizing sigs with
  | nil => cases sigs <;> exact within_pure _
  | cons key keys ih =>
    cases sigs with
    | nil => exact (within_pure _).mono (Nat.zero_le _)
    | cons sig sigs =>
      simp only [multiSigLoop]
      rw [List.length_cons, Nat.add_comm]
      refine (within_lift _).bind_free fun _ _ =>
        (calls_checkSig ctx sigversion _ _ _).bind fun fOk _ => ?_
      exact Within.ite ((within_pure _).mono (Nat.zero_le _)) (ih _)

end ScriptContext

abbrev IsMultiSig (b : UInt8) : Prop := b = OP_CHECKMULTISIG ∨ b = OP_CHECKMULTISIGVERIFY

-- what the opcode before an instruction says about the number of keys on top of the stack
def TopIs (lastOpcode : UInt8) (st : EvalState) : Prop :=
  OP_1 ≤ lastOpcode ∧ lastOpcode ≤ OP_16 → st.fExec = true →
    st.stack.head? = some (CScriptNum.serialize (DecodeOP_N lastOpcode))

theorem multiSigArgs_nKeysCount {st : EvalState} {fRequireMinimal : Bool} {args : MultiSigArgs}
    (h : st.multiSigArgs fRequireMinimal = .ok args) :
    args.keys.length ≤ args.nKeysCount ∧ args.nKeysCount ≤ 20 ∧
      ∀ n : Nat, 1 ≤ n ∧ n ≤ 16 → st.stack.head? = some (CScriptNum.serialize n) →
        args.nKeysCount = n := by
  simp only [EvalState.multiSigArgs] at h
  cases hstack : st.stack with
  | nil => simp [hstack, setError] at h
  | cons top below =>
    simp only [hstack] at h
    obtain ⟨nKeysCount, hkeys, h⟩ := bind_eq_ok.mp h
    obtain ⟨_, _, h⟩ := bind_eq_ok.mp h
    obtain ⟨_, _, h⟩ := bind_eq_ok.mp h
    obtain ⟨_, _, h⟩ := bind_eq_ok.mp h
    obtain ⟨_, _, h⟩ := bind_eq_ok.mp h
    cases h
    refine ⟨List.length_take_le _ _, ?_, ?_⟩
    · exact Int.ofNat_le.mp (multiSigCount_le hkeys)
    · intro n hn hhead
      obtain rfl : top = CScriptNum.serialize n := by simpa using hhead
      exact multiSigCount_serialize hn hkeys

theorem sigOpsAt_checkSig {lastOpcode b : UInt8} (h : b = OP_CHECKSIG ∨ b = OP_CHECKSIGVERIFY) :
    CScript.sigOpsAt true lastOpcode b = 1 := if_pos h

theorem keys_le_sigOpsAt {lastOpcode b : UInt8}
    (hb : IsMultiSig b) {st : EvalState}
    (htop : TopIs lastOpcode st) (hexec : st.fExec = true) {fRequireMinimal : Bool}
    {args : MultiSigArgs} (h : st.multiSigArgs fRequireMinimal = .ok args) :
    args.keys.length ≤ CScript.sigOpsAt true lastOpcode b := by
  obtain ⟨hkeys, hlimit, hcount⟩ := multiSigArgs_nKeysCount h
  have hne : ¬ (b = OP_CHECKSIG ∨ b = OP_CHECKSIGVERIFY) := by
    rcases hb with rfl | rfl <;> decide
  rw [CScript.sigOpsAt, if_neg hne, if_pos hb]
  simp only [true_and]
  split
  · rename_i hlast
    have hn := Opcode.ofByte_smallInt lastOpcode hlast
    rw [hcount _ hn.2 (htop hlast hexec)] at hkeys
    exact hkeys
  · exact Nat.le_trans hkeys hlimit

namespace ScriptContext

variable (ctx : ScriptContext) (flags : Nat) (sigversion : SigVersion)

theorem calls_evalCheckMultiSig {lastOpcode b : UInt8}
    (hb : IsMultiSig b) {st : EvalState}
    (htop : TopIs lastOpcode st) (hexec : st.fExec = true) (verify : Option ScriptError) :
    Calls (CScript.sigOpsAt true lastOpcode b)
      (ctx.evalCheckMultiSig flags sigversion st verify) :=
  (within_lift _).bind_free fun _ hargs =>
    (((calls_multiSigLoop ctx flags sigversion _ _ _).mono
      (keys_le_sigOpsAt hb htop hexec hargs)).bind fun _ _ =>
        (within_lift _).bind_free fun _ _ => within_lift _)

theorem calls_lockTimes (st : EvalState) :
    Calls 0 (ctx.evalCheckLockTimeVerify flags st) ∧
      Calls 0 (ctx.evalCheckSequenceVerify flags st) := by
  have hlock (n : Int) : Calls 0 (ctx.checkLockTime n) :=
    (within_emit_of_not rfl).bind_free fun _ _ => within_pure _
  have hsequence (n : Int) : Calls 0 (ctx.checkSequence n) :=
    (within_emit_of_not rfl).bind_free fun _ _ => within_pure _
  have hnop : Calls 0 (do discourageNop flags; pure st) :=
    (within_lift _).bind_free fun _ _ => within_pure _
  refine ⟨Within.ite ?_ hnop, Within.ite ?_ hnop⟩
  · exact (within_lift _).bind_free fun n _ => (hlock n).bind_free fun _ _ =>
      (within_lift _).bind_free fun _ _ => within_pure _
  · refine (within_lift _).bind_free fun n _ => Within.ite (within_pure _) ?_
    exact (hsequence n).bind_free fun _ _ => (within_lift _).bind_free fun _ _ => within_pure _

theorem calls_evalOpcode {lastOpcode : UInt8} {st : EvalState} {i : Instruction}
    (htop : TopIs lastOpcode st)
    (hexec : st.fExec = true ∨ (OP_IF ≤ i.opcode ∧ i.opcode ≤ OP_ENDIF)) :
    Calls (CScript.sigOpsAt true lastOpcode i.opcode)
      (ctx.evalOpcode flags sigversion st i.next (Opcode.ofByte i.opcode)) := by
  have hfree {m : Eval EvalState} (h : Calls 0 m) :
      Calls (CScript.sigOpsAt true lastOpcode i.opcode) m := h.mono (Nat.zero_le _)
  have hsig := Opcode.byte_of_checkSig i.opcode
  have hmulti := Opcode.byte_of_checkMultiSig i.opcode
  have hrun (hb : IsMultiSig i.opcode) :
      st.fExec = true := by
    refine hexec.resolve_right ?_
    rcases hb with hb | hb <;> rw [hb] <;> decide
  cases hop : Opcode.ofByte i.opcode with
  | OP_CHECKSIG =>
    rw [sigOpsAt_checkSig (.inl (hsig.1 hop))]
    exact calls_evalCheckSig ctx flags sigversion st _
  | OP_CHECKSIGVERIFY =>
    rw [sigOpsAt_checkSig (.inr (hsig.2 hop))]
    exact calls_evalCheckSig ctx flags sigversion st _
  | OP_CHECKMULTISIG =>
    have hb : IsMultiSig i.opcode := .inl (hmulti.1 hop)
    exact calls_evalCheckMultiSig ctx flags sigversion hb htop (hrun hb) _
  | OP_CHECKMULTISIGVERIFY =>
    have hb : IsMultiSig i.opcode := .inr (hmulti.2 hop)
    exact calls_evalCheckMultiSig ctx flags sigversion hb htop (hrun hb) _
  | OP_CHECKLOCKTIMEVERIFY => exact hfree (calls_lockTimes ctx flags st).1
  | OP_CHECKSEQUENCEVERIFY => exact hfree (calls_lockTimes ctx flags st).2
  | upgradableNop => exact hfree ((within_lift _).bind_free fun _ _ => within_pure _)
  | smallInt n => exact hfree (within_pure _)
  | OP_NOP => exact hfree (within_pure _)
  | OP_CODESEPARATOR => exact hfree (within_pure _)
  | _ => exact hfree (within_lift _)

theorem calls_execute {lastOpcode : UInt8} {st : EvalState} (i : Instruction)
    (htop : TopIs lastOpcode st) :
    Calls (CScript.sigOpsAt true lastOpcode i.opcode) (ctx.execute flags sigversion st i) := by
  simp only [execute]
  split
  · exact ((within_lift _).bind_free fun _ _ => within_pure _).mono (Nat.zero_le _)
  · split
    · rename_i hexec
      exact calls_evalOpcode ctx flags sigversion htop hexec
    · exact (within_pure _).mono (Nat.zero_le _)

omit ctx in
theorem permit_eq_ok {st st' : EvalState} {i : Instruction} (h : st.permit i = .ok st') :
    st'.stack = st.stack ∧ st'.vfExec = st.vfExec := by
  obtain ⟨_, _, h⟩ := bind_eq_ok.mp h
  obtain ⟨_, _, h⟩ := bind_eq_ok.mp h
  obtain ⟨_, _, h⟩ := bind_eq_ok.mp h
  cases h
  exact ⟨rfl, rfl⟩

theorem execute_topIs (st : EvalState) (i : Instruction) :
    Yields (TopIs i.opcode) (ctx.execute flags sigversion st i) := by
  by_cases hlast : OP_1 ≤ i.opcode ∧ i.opcode ≤ OP_16
  · have hpush : ¬ i.opcode ≤ CScript.OP_PUSHDATA4 :=
      UInt8.not_le.mpr (UInt8.lt_of_lt_of_le (by decide) hlast.1)
    have hif : ¬ (OP_IF ≤ i.opcode ∧ i.opcode ≤ OP_ENDIF) := fun h =>
      absurd (UInt8.le_trans h.1 hlast.2) (by decide)
    simp only [execute, hpush, hif, and_false, or_false, if_false,
      (Opcode.ofByte_smallInt i.opcode hlast).1]
    split
    · exact yields_pure fun _ _ => rfl
    · rename_i hexec
      exact yields_pure fun _ h => absurd h hexec
  · exact fun _ _ h => absurd h hlast

theorem step_topIs (st : EvalState) (i : Instruction) :
    Yields (TopIs i.opcode) (ctx.step flags sigversion st i) :=
  .of_bind fun st => (execute_topIs ctx flags sigversion st i).bind fun _ h =>
    .of_bind fun _ => yields_pure h

theorem calls_step {lastOpcode : UInt8} {st : EvalState} (i : Instruction)
    (htop : TopIs lastOpcode st) :
    Calls (CScript.sigOpsAt true lastOpcode i.opcode) (ctx.step flags sigversion st i) := by
  refine (within_lift _).bind_free fun st' hpermit => ?_
  obtain ⟨hstack, hvfExec⟩ := permit_eq_ok hpermit
  have htop' : TopIs lastOpcode st' := by
    simpa only [TopIs, EvalState.fExec, hstack, hvfExec] using htop
  exact (calls_execute ctx flags sigversion i htop').bind fun _ _ =>
    (within_lift _).bind_free fun _ _ => within_pure _

theorem calls_evalOps (ops : List (Option Instruction)) {lastOpcode : UInt8} {st : EvalState}
    (htop : TopIs lastOpcode st) :
    Calls (CScript.countSigOps true lastOpcode ops) (ctx.evalOps flags sigversion ops st) := by
  induction ops generalizing lastOpcode st with
  | nil => exact within_pure _
  | cons op ops ih =>
    cases op with
    | none => exact within_lift _
    | some i =>
      exact (calls_step ctx flags sigversion i htop).bind fun st' hst' =>
        ih (step_topIs ctx flags sigversion st i st' hst')

end ScriptContext

theorem sigOpsAt_le (fAccurate : Bool) (lastOpcode opcode : UInt8) :
    CScript.sigOpsAt fAccurate lastOpcode opcode ≤ 20 := by
  simp only [CScript.sigOpsAt]
  split
  · decide
  · split
    · split
      · rename_i h
        exact Nat.le_trans (Opcode.ofByte_smallInt lastOpcode h.2).2.2 (by decide)
      · exact Nat.le_refl 20
    · decide

theorem countSigOps_le (fAccurate : Bool) (lastOpcode : UInt8) (ops : List (Option Instruction)) :
    CScript.countSigOps fAccurate lastOpcode ops ≤ 20 * ops.length := by
  induction ops generalizing lastOpcode with
  | nil => exact Nat.zero_le _
  | cons op ops ih =>
    cases op with
    | none => exact Nat.zero_le _
    | some i =>
      have hstep := sigOpsAt_le fAccurate lastOpcode i.opcode
      have hrest := ih i.opcode
      simp only [CScript.countSigOps, List.length_cons]
      omega

theorem getSigOpCount_eq {script : CScript} (h : script.length ≤ 10000) :
    script.getSigOpCount true =
      CScript.countSigOps true CScript.OP_INVALIDOPCODE script.instructions := by
  have hcount := countSigOps_le true CScript.OP_INVALIDOPCODE script.instructions
  have hlen := CScript.instructions_length_le script
  exact Nat.mod_eq_of_lt (by omega)

namespace ScriptContext

variable (ctx : ScriptContext) (flags : Nat)

theorem calls_evalScript (sigversion : SigVersion) (stack : List Valtype) (script : CScript) :
    Calls (script.getSigOpCount true) (ctx.evalScript flags sigversion stack script) := by
  refine (within_lift _).bind_free fun _ hsize => ?_
  have hlen : script.length ≤ 10000 := by
    simpa [setErrorIf_eq_ok] using hsize
  rw [getSigOpCount_eq hlen]
  exact (calls_evalOps ctx flags sigversion _ fun h => absurd h (by decide)).bind fun _ _ =>
    (within_lift _).bind_free fun _ _ => within_pure _

end ScriptContext

end AnkerNode
