import AnkerNode.Script.ThrowingRun

namespace AnkerNode

open Checks Following Traced

structure HashSizes (hashes : ScriptHashes) : Prop where
  ripemd160 (vch : Valtype) : (hashes.ripemd160 vch).length = 20
  sha1 (vch : Valtype) : (hashes.sha1 vch).length = 20
  sha256 (vch : Valtype) : (hashes.sha256 vch).length = 32
  hash160 (vch : Valtype) : (hashes.hash160 vch).length = 20
  hash256 (vch : Valtype) : (hashes.hash256 vch).length = 32

def SmallElements (stack : List Valtype) : Prop :=
  ∀ vch ∈ stack, vch.length ≤ MAX_SCRIPT_ELEMENT_SIZE

theorem smallElements_nil : SmallElements [] := nofun

theorem smallElements_cons {vch : Valtype} {stack : List Valtype} :
    SmallElements (vch :: stack) ↔
      vch.length ≤ MAX_SCRIPT_ELEMENT_SIZE ∧ SmallElements stack :=
  List.forall_mem_cons

theorem SmallElements.subset {stack stack' : List Valtype} (h : SmallElements stack)
    (hsub : ∀ vch ∈ stack', vch ∈ stack) : SmallElements stack' :=
  fun vch hvch => h vch (hsub vch hvch)

theorem CScriptNum.magnitude_length_le (fuel n : Nat) : (magnitude fuel n).length ≤ fuel := by
  induction fuel generalizing n with
  | zero => exact Nat.le_refl 0
  | succ fuel ih =>
    rw [magnitude]
    split
    · exact Nat.zero_le _
    · exact Nat.succ_le_succ (ih _)

theorem CScriptNum.serialize_length_le (value : Int) : (serialize value).length ≤ 9 := by
  have hmagnitude := magnitude_length_le 8 value.natAbs
  rw [serialize]
  split
  · exact Nat.zero_le _
  · split
    · rw [List.length_append]
      exact Nat.succ_le_succ hmagnitude
    · split
      · rw [List.length_append, List.length_dropLast, List.length_singleton]
        omega
      · omega

theorem small_serialize (value : Int) :
    (CScriptNum.serialize value).length ≤ MAX_SCRIPT_ELEMENT_SIZE :=
  (CScriptNum.serialize_length_le value).trans (by decide)

theorem small_vchBool (b : Bool) : (vchBool b).length ≤ MAX_SCRIPT_ELEMENT_SIZE := by
  cases b <;> decide

theorem HashSizes.small {hashes : ScriptHashes} (h : HashSizes hashes) (op : HashOp)
    (vch : Valtype) : (op.apply hashes vch).length ≤ MAX_SCRIPT_ELEMENT_SIZE := by
  cases op with
  | OP_RIPEMD160 => exact (h.ripemd160 vch).trans_le (by decide)
  | OP_SHA1 => exact (h.sha1 vch).trans_le (by decide)
  | OP_SHA256 => exact (h.sha256 vch).trans_le (by decide)
  | OP_HASH160 => exact (h.hash160 vch).trans_le (by decide)
  | OP_HASH256 => exact (h.hash256 vch).trans_le (by decide)

theorem small_stackOp {op : StackOp} {s s' : List Valtype} (hs : SmallElements s)
    (h : op.apply s = some s') : SmallElements s' := by
  cases op with
  | OP_2DROP | OP_2DUP | OP_NIP | OP_OVER | OP_SWAP | OP_TUCK =>
    rcases s with _ | ⟨x2, _ | ⟨x1, s⟩⟩
    iterate 2 cases h
    cases h
    simp only [smallElements_cons] at hs ⊢
    tauto
  | OP_3DUP | OP_ROT =>
    rcases s with _ | ⟨x3, _ | ⟨x2, _ | ⟨x1, s⟩⟩⟩
    iterate 3 cases h
    cases h
    simp only [smallElements_cons] at hs ⊢
    tauto
  | OP_2OVER | OP_2SWAP =>
    rcases s with _ | ⟨x4, _ | ⟨x3, _ | ⟨x2, _ | ⟨x1, s⟩⟩⟩⟩
    iterate 4 cases h
    cases h
    simp only [smallElements_cons] at hs ⊢
    tauto
  | OP_2ROT =>
    rcases s with _ | ⟨x6, _ | ⟨x5, _ | ⟨x4, _ | ⟨x3, _ | ⟨x2, _ | ⟨x1, s⟩⟩⟩⟩⟩⟩
    iterate 6 cases h
    cases h
    simp only [smallElements_cons] at hs ⊢
    tauto
  | OP_EQUAL =>
    rcases s with _ | ⟨x2, _ | ⟨x1, s⟩⟩
    iterate 2 cases h
    cases h
    simp only [smallElements_cons] at hs ⊢
    exact ⟨small_vchBool _, hs.2.2⟩
  | OP_DEPTH =>
    cases h
    exact smallElements_cons.mpr ⟨small_serialize _, hs⟩
  | OP_IFDUP =>
    rcases s with _ | ⟨x, s⟩
    · cases h
    · cases h
      split
      · exact smallElements_cons.mpr ⟨(smallElements_cons.mp hs).1, hs⟩
      · exact hs
  | OP_DROP | OP_DUP =>
    rcases s with _ | ⟨x, s⟩
    · cases h
    · cases h
      simp only [smallElements_cons] at hs ⊢
      tauto
  | OP_SIZE =>
    rcases s with _ | ⟨x, s⟩
    · cases h
    · cases h
      exact smallElements_cons.mpr ⟨small_serialize _, hs⟩

structure SmallStacks (st : EvalState) : Prop where
  stack : SmallElements st.stack
  altstack : SmallElements st.altstack

namespace SmallStacks

variable {st st' : EvalState}

theorem withStack (h : SmallStacks st) {stack : List Valtype} (hstack : SmallElements stack) :
    SmallStacks { st with stack := stack } :=
  ⟨hstack, h.altstack⟩

theorem cons (h : SmallStacks st) {vch : Valtype} {stack : List Valtype}
    (hs : st.stack = vch :: stack) :
    vch.length ≤ MAX_SCRIPT_ELEMENT_SIZE ∧ SmallElements stack :=
  smallElements_cons.mp (hs ▸ h.stack)

theorem push (h : SmallStacks st) {vch : Valtype} (hvch : vch.length ≤ MAX_SCRIPT_ELEMENT_SIZE) :
    SmallStacks (st.push vch) :=
  h.withStack (smallElements_cons.mpr ⟨hvch, h.stack⟩)

theorem answer (h : SmallStacks st) {stack : List Valtype} (hstack : SmallElements stack)
    {fSuccess : Bool} {verify : Option ScriptError}
    (hanswer : st.answer stack fSuccess verify = .ok st') : SmallStacks st' := by
  cases verify with
  | none =>
    cases hanswer
    exact h.withStack (smallElements_cons.mpr ⟨small_vchBool _, hstack⟩)
  | some serror =>
    obtain ⟨-, hok⟩ := seq_eq_ok.mp hanswer
    cases hok
    exact h.withStack hstack

theorem openBranch (h : SmallStacks st) {negated : Bool}
    (hopen : st.openBranch negated = .ok st') : SmallStacks st' := by
  rw [EvalState.openBranch] at hopen
  split at hopen
  · split at hopen
    · cases hopen
    · rename_i vch stack hs
      cases hopen
      exact ⟨(h.cons hs).2, h.altstack⟩
  · cases hopen
    exact ⟨h.stack, h.altstack⟩

theorem toggleBranch (h : SmallStacks st) (htoggle : st.toggleBranch = .ok st') :
    SmallStacks st' := by
  rw [EvalState.toggleBranch] at htoggle
  split at htoggle
  · cases htoggle
  · cases htoggle
    exact ⟨h.stack, h.altstack⟩

theorem closeBranch (h : SmallStacks st) (hclose : st.closeBranch = .ok st') :
    SmallStacks st' := by
  rw [EvalState.closeBranch] at hclose
  split at hclose
  · cases hclose
  · cases hclose
    exact ⟨h.stack, h.altstack⟩

theorem verify (h : SmallStacks st) (hverify : st.verify = .ok st') : SmallStacks st' := by
  rw [EvalState.verify] at hverify
  split at hverify
  · cases hverify
  · rename_i vch stack hs
    obtain ⟨-, hok⟩ := seq_eq_ok.mp hverify
    cases hok
    obtain ⟨hvch, hstack⟩ := h.cons hs
    exact h.withStack hstack

theorem toAltStack (h : SmallStacks st) (hto : st.toAltStack = .ok st') : SmallStacks st' := by
  rw [EvalState.toAltStack] at hto
  split at hto
  · cases hto
  · rename_i vch stack hs
    cases hto
    obtain ⟨hvch, hstack⟩ := h.cons hs
    exact ⟨hstack, smallElements_cons.mpr ⟨hvch, h.altstack⟩⟩

theorem fromAltStack (h : SmallStacks st) (hfrom : st.fromAltStack = .ok st') :
    SmallStacks st' := by
  rw [EvalState.fromAltStack] at hfrom
  split at hfrom
  · cases hfrom
  · rename_i vch altstack hs
    cases hfrom
    have haltstack := h.altstack
    rw [hs, smallElements_cons] at haltstack
    exact ⟨smallElements_cons.mpr ⟨haltstack.1, h.stack⟩, haltstack.2⟩

theorem stackOp (h : SmallStacks st) {op : StackOp} (hop : st.stackOp op = .ok st') :
    SmallStacks st' := by
  rw [EvalState.stackOp] at hop
  split at hop
  · cases hop
  · rename_i stack hs
    cases hop
    exact h.withStack (small_stackOp h.stack hs)

theorem equalVerify (h : SmallStacks st) (hverify : st.equalVerify = .ok st') :
    SmallStacks st' := by
  rw [EvalState.equalVerify] at hverify
  split at hverify
  · rename_i x2 x1 stack hs
    have hbelow := smallElements_cons.mp (h.cons hs).2
    exact h.answer hbelow.2 hverify
  · cases hverify

theorem pick (h : SmallStacks st) {fRequireMinimal roll : Bool}
    (hpick : st.pick fRequireMinimal roll = .ok st') : SmallStacks st' := by
  rw [EvalState.pick] at hpick
  split at hpick
  · rename_i top x s hs
    obtain ⟨bn, -, hpick⟩ := bind_eq_ok.mp hpick
    obtain ⟨hn, hok⟩ := seq_eq_ok.mp hpick
    cases hok
    obtain ⟨hvch, hstack⟩ := h.cons hs
    obtain ⟨hnonneg, hlt⟩ := Bool.or_eq_false_iff.mp (setErrorIf_eq_ok.mp hn)
    rw [decide_eq_false_iff_not] at hnonneg hlt
    have hindex : (CScriptNum.getint bn).toNat < (x :: s).length := by omega
    refine h.withStack (smallElements_cons.mpr ⟨?_, ?_⟩)
    · rw [List.getD_eq_getElem _ _ hindex]
      exact hstack _ (List.getElem_mem hindex)
    · split
      · exact hstack.subset fun _ => List.mem_of_mem_eraseIdx
      · exact hstack
  · cases hpick

theorem unaryOp (h : SmallStacks st) {fRequireMinimal : Bool} {op : UnaryOp}
    (hop : st.unaryOp fRequireMinimal op = .ok st') : SmallStacks st' := by
  rw [EvalState.unaryOp] at hop
  split at hop
  · cases hop
  · rename_i top stack hs
    obtain ⟨bn, -, hok⟩ := bind_eq_ok.mp hop
    cases hok
    obtain ⟨hvch, hstack⟩ := h.cons hs
    exact h.withStack (smallElements_cons.mpr ⟨small_serialize _, hstack⟩)

theorem binaryArgs (h : SmallStacks st) {fRequireMinimal : Bool} {args : Int × Int × List Valtype}
    (hargs : st.binaryArgs fRequireMinimal = .ok args) : SmallElements args.2.2 := by
  rw [EvalState.binaryArgs] at hargs
  split at hargs
  · rename_i x2 x1 stack hs
    obtain ⟨bn1, -, hargs⟩ := bind_eq_ok.mp hargs
    obtain ⟨bn2, -, hok⟩ := bind_eq_ok.mp hargs
    cases hok
    have hbelow := smallElements_cons.mp (h.cons hs).2
    exact hbelow.2
  · cases hargs

theorem binaryOp (h : SmallStacks st) {fRequireMinimal : Bool} {op : BinaryOp}
    (hop : st.binaryOp fRequireMinimal op = .ok st') : SmallStacks st' := by
  obtain ⟨args, hargs, hok⟩ := bind_eq_ok.mp hop
  cases hok
  exact h.withStack (smallElements_cons.mpr ⟨small_serialize _, h.binaryArgs hargs⟩)

theorem numEqualVerify (h : SmallStacks st) {fRequireMinimal : Bool}
    (hop : st.numEqualVerify fRequireMinimal = .ok st') : SmallStacks st' := by
  obtain ⟨args, hargs, hanswer⟩ := bind_eq_ok.mp hop
  exact h.answer (h.binaryArgs hargs) hanswer

theorem within (h : SmallStacks st) {fRequireMinimal : Bool}
    (hop : st.within fRequireMinimal = .ok st') : SmallStacks st' := by
  rw [EvalState.within] at hop
  split at hop
  · rename_i x3 x2 x1 stack hs
    obtain ⟨bn1, -, hop⟩ := bind_eq_ok.mp hop
    obtain ⟨bn2, -, hop⟩ := bind_eq_ok.mp hop
    obtain ⟨bn3, -, hok⟩ := bind_eq_ok.mp hop
    cases hok
    have hbelow := smallElements_cons.mp (smallElements_cons.mp (h.cons hs).2).2
    exact h.withStack (smallElements_cons.mpr ⟨small_vchBool _, hbelow.2⟩)
  · cases hop

theorem hashOp (h : SmallStacks st) {hashes : ScriptHashes} (hsizes : HashSizes hashes)
    {op : HashOp} (hop : st.hashOp hashes op = .ok st') : SmallStacks st' := by
  rw [EvalState.hashOp] at hop
  split at hop
  · cases hop
  · rename_i vch stack hs
    cases hop
    obtain ⟨hvch, hstack⟩ := h.cons hs
    exact h.withStack (smallElements_cons.mpr ⟨hsizes.small op vch, hstack⟩)

end SmallStacks

namespace ScriptContext

variable (ctx : ScriptContext) (flags : Nat) (sigversion : SigVersion) {st : EvalState}

theorem small_evalCheckSig (h : SmallStacks st) (verify : Option ScriptError) :
    Yields SmallStacks (ctx.evalCheckSig flags sigversion st verify) := by
  rw [evalCheckSig]
  split
  · rename_i vchPubKey vchSig stack hs
    have hbelow := smallElements_cons.mp (h.cons hs).2
    refine Yields.of_bind fun _ => Yields.of_bind fun fSuccess => ?_
    exact yields_lift fun _ => h.answer hbelow.2
  · refine yields_lift fun st' hfail => ?_
    cases hfail

theorem small_multiSigArgs (h : SmallStacks st) {fRequireMinimal : Bool} {args : MultiSigArgs}
    (hargs : st.multiSigArgs fRequireMinimal = .ok args) : SmallElements args.rest := by
  rw [EvalState.multiSigArgs] at hargs
  split at hargs
  · cases hargs
  · rename_i top below hs
    obtain ⟨nKeysCount, -, hargs⟩ := bind_eq_ok.mp hargs
    obtain ⟨-, hargs⟩ := seq_eq_ok.mp hargs
    obtain ⟨-, hargs⟩ := seq_eq_ok.mp hargs
    obtain ⟨nSigsCount, -, hargs⟩ := bind_eq_ok.mp hargs
    obtain ⟨-, hok⟩ := seq_eq_ok.mp hargs
    cases hok
    exact (h.cons hs).2.subset fun _ hvch => List.mem_of_mem_drop (List.mem_of_mem_drop hvch)

theorem small_evalCheckMultiSig (h : SmallStacks st) (verify : Option ScriptError) :
    Yields SmallStacks (ctx.evalCheckMultiSig flags sigversion st verify) := by
  refine Yields.bind (yields_lift fun _ => small_multiSigArgs h) fun args hrest => ?_
  refine Yields.of_bind fun fSuccess => Yields.of_bind fun _ => yields_lift fun _ hanswer => ?_
  have hcounted : SmallStacks { st with nOpCount := st.nOpCount + args.nKeysCount } :=
    ⟨h.stack, h.altstack⟩
  exact hcounted.answer hrest hanswer

theorem small_lockTimes (h : SmallStacks st) :
    Yields SmallStacks (ctx.evalCheckLockTimeVerify flags st) ∧
      Yields SmallStacks (ctx.evalCheckSequenceVerify flags st) := by
  have hnop : Yields SmallStacks (do discourageNop flags; pure st : Eval EvalState) :=
    Yields.of_bind fun _ => yields_pure h
  constructor
  · rw [evalCheckLockTimeVerify]
    split
    · refine Yields.of_bind fun _ => Yields.of_bind fun _ => ?_
      exact Yields.of_bind fun _ => yields_pure h
    · exact hnop
  · rw [evalCheckSequenceVerify]
    split
    · refine Yields.of_bind fun _ => ?_
      split
      · exact yields_pure h
      · exact Yields.of_bind fun _ => Yields.of_bind fun _ => yields_pure h
    · exact hnop

theorem small_evalOpcode (hsizes : HashSizes ctx.hashes) (h : SmallStacks st) (next : CScript)
    (op : Opcode) : Yields SmallStacks (ctx.evalOpcode flags sigversion st next op) := by
  cases op with
  | smallInt n => exact yields_pure (h.push (small_serialize n))
  | OP_NOP => exact yields_pure h
  | upgradableNop => exact Yields.of_bind fun _ => yields_pure h
  | OP_CHECKLOCKTIMEVERIFY => exact (small_lockTimes ctx flags h).1
  | OP_CHECKSEQUENCEVERIFY => exact (small_lockTimes ctx flags h).2
  | OP_IF | OP_NOTIF => exact yields_lift fun _ => h.openBranch
  | OP_ELSE => exact yields_lift fun _ => h.toggleBranch
  | OP_ENDIF => exact yields_lift fun _ => h.closeBranch
  | OP_VERIFY => exact yields_lift fun _ => h.verify
  | OP_RETURN | invalid => exact yields_lift nofun
  | OP_TOALTSTACK => exact yields_lift fun _ => h.toAltStack
  | OP_FROMALTSTACK => exact yields_lift fun _ => h.fromAltStack
  | OP_PICK | OP_ROLL => exact yields_lift fun _ => h.pick
  | OP_EQUALVERIFY => exact yields_lift fun _ => h.equalVerify
  | stack op => exact yields_lift fun _ => h.stackOp
  | unary op => exact yields_lift fun _ => h.unaryOp
  | binary op => exact yields_lift fun _ => h.binaryOp
  | OP_NUMEQUALVERIFY => exact yields_lift fun _ => h.numEqualVerify
  | OP_WITHIN => exact yields_lift fun _ => h.within
  | hash op => exact yields_lift fun _ => h.hashOp hsizes
  | OP_CODESEPARATOR => exact yields_pure ⟨h.stack, h.altstack⟩
  | OP_CHECKSIG | OP_CHECKSIGVERIFY => exact small_evalCheckSig ctx flags sigversion h _
  | OP_CHECKMULTISIG | OP_CHECKMULTISIGVERIFY =>
    exact small_evalCheckMultiSig ctx flags sigversion h _

theorem small_execute (hsizes : HashSizes ctx.hashes) (h : SmallStacks st) {i : Instruction}
    (hdata : i.data.length ≤ MAX_SCRIPT_ELEMENT_SIZE) :
    Yields SmallStacks (ctx.execute flags sigversion st i) := by
  rw [execute]
  split
  · exact Yields.of_bind fun _ => yields_pure (h.push hdata)
  · split
    · exact small_evalOpcode ctx flags sigversion hsizes h i.next _
    · exact yields_pure h

end ScriptContext

end AnkerNode
