import AnkerNode.Lib.Traced
import AnkerNode.Script.ThrowingEval

namespace AnkerNode

open Checks Following Traced

namespace Throwing

-- The failures the interpreter is meant to have: the errors it returns, and the one exception that
-- is caught. Nothing explains any other stop.
inductive Explained : Stop → ScriptFailure → Prop
  | returned (serror : ScriptError) : Explained (.returned (.error serror)) (.error serror)
  | scriptnum : Explained (.thrown .scriptnum_error) (.error .SCRIPT_ERR_UNKNOWN_ERROR)

theorem follows_setError {α : Type} (serror : ScriptError) :
    Follows Explained Eq (setError serror : Except Stop α) (AnkerNode.setError serror) :=
  .error (.returned _)

theorem follows_setErrorIf (cond : Bool) (serror : ScriptError) :
    Follows Explained Eq (setErrorIf cond serror) (AnkerNode.setErrorIf cond serror) :=
  follows_failIf (.returned _) cond

theorem follows_returns {α : Type} {x : Except ScriptFailure α} (h : Avoids .assertion x) :
    Follows Explained Eq (returns x) x :=
  follows_mapError fun e he => by
    cases e with
    | error serror => exact .returned serror
    | assertion => exact absurd he h

theorem avoids_setErrorIf (cond : Bool) (serror : ScriptError) :
    Avoids .assertion (AnkerNode.setErrorIf cond serror) := by
  have hne : ScriptFailure.error serror ≠ .assertion := nofun
  exact avoids_failIf hne cond

theorem avoids_isLowDERSignature (vchSig : Valtype) :
    Avoids .assertion (isLowDERSignature vchSig) :=
  avoids_bind_iff.mpr ⟨avoids_setErrorIf _ _, fun _ _ => avoids_setErrorIf _ _⟩

theorem avoids_checkSignatureEncoding (vchSig : Valtype) (flags : Nat) :
    Avoids .assertion (checkSignatureEncoding vchSig flags) := by
  rw [checkSignatureEncoding]
  split
  · exact avoids_ok
  · refine avoids_bind_iff.mpr ⟨avoids_setErrorIf _ _, fun _ _ => ?_⟩
    refine avoids_bind_iff.mpr ⟨?_, fun _ _ => avoids_setErrorIf _ _⟩
    cases hasFlag flags SCRIPT_VERIFY_LOW_S with
    | false => exact avoids_ok
    | true => exact avoids_isLowDERSignature vchSig

theorem avoids_checkEncodings (flags : Nat) (sigversion : SigVersion) (vchSig vchPubKey : Valtype) :
    Avoids .assertion (ScriptContext.checkEncodings flags sigversion vchSig vchPubKey) := by
  refine avoids_bind_iff.mpr ⟨avoids_checkSignatureEncoding vchSig flags, fun _ _ => ?_⟩
  exact avoids_bind_iff.mpr ⟨avoids_setErrorIf _ _, fun _ _ => avoids_setErrorIf _ _⟩

theorem tracks_calls {α : Type} {x : Eval α} {a : α} (h : x.result = .ok a) :
    Tracks Explained Eq (calls x) x :=
  ⟨rfl, follows_mapError fun _ he => by rw [h] at he; cases he⟩

theorem follows_scriptNum (vch : Valtype) (fRequireMinimal : Bool) (nMaxNumSize : Nat) :
    Follows Explained Eq (scriptNum vch fRequireMinimal nMaxNumSize)
      (AnkerNode.scriptNum vch fRequireMinimal nMaxNumSize) := by
  rw [scriptNum, AnkerNode.scriptNum]
  cases CScriptNum.ofVch vch fRequireMinimal nMaxNumSize with
  | none => exact .error .scriptnum
  | some n => exact .ok rfl

section Access

variable {stack : List Valtype}

theorem stacktop_of_lt {k : Nat} (h : k < stack.length) :
    stacktop stack (-(k : Int) - 1) = .ok (stack.getD k []) := by
  have hindex : (-(-(k : Int) - 1) - 1).toNat = k := by omega
  rw [stacktop, if_pos (by omega), hindex, List.getElem?_eq_getElem h,
    List.getD_eq_getElem _ _ h]
  rfl

theorem popTimes_of_le {n : Nat} (h : n ≤ stack.length) :
    popTimes n stack = .ok (stack.drop n) := by
  induction n generalizing stack with
  | zero => rfl
  | succ n ih =>
    cases stack with
    | nil => exact absurd h (Nat.not_succ_le_zero n)
    | cons vch stack => exact ih (Nat.le_of_succ_le_succ h)

theorem eraseTop_of_lt {k : Nat} (h : k < stack.length) :
    eraseTop stack (k + 1) k = .ok (stack.eraseIdx k) := by
  rw [eraseTop, if_neg (Nat.not_lt.mpr h), List.eraseIdx_eq_take_drop_succ]

theorem answer_follows (st : EvalState) (stack : List Valtype) (fSuccess : Bool)
    (verify : Option ScriptError) :
    Follows Explained Eq (do
      let stack ← answer stack fSuccess verify
      .ok { st with stack := stack }) (st.answer stack fSuccess verify) := by
  cases verify with
  | none => exact .ok rfl
  | some serror =>
    cases fSuccess with
    | false => exact .error (.returned _)
    | true => exact .ok rfl

end Access

section Numbers

-- A number read from four bytes is far from the ends of the 64-bit range.
theorem setVch_bounds {vch : Valtype} (h : vch.length ≤ 4) :
    -2 ^ 32 < CScriptNum.setVch vch ∧ CScriptNum.setVch vch < 2 ^ 32 := by
  have hdigit : ∀ x ∈ vch.map UInt8.toNat, x < 256 := by
    intro x hx
    obtain ⟨b, -, rfl⟩ := List.mem_map.mp hx
    exact b.toNat_lt
  have hvalue : littleEndian vch < 2 ^ 32 := by
    have hlt := Nat.ofDigits_lt_base_pow_length (by decide) hdigit
    rw [List.length_map] at hlt
    exact Nat.lt_of_lt_of_le hlt (Nat.pow_le_pow_right (by decide) h)
  have hsign : (256 : Int) ^ (vch.length - 1) ≤ 256 ^ 3 :=
    pow_le_pow_right₀ (by decide) (by omega)
  have hpos : (0 : Int) ≤ 256 ^ (vch.length - 1) := by positivity
  rw [CScriptNum.setVch]
  split <;> omega

theorem scriptNum_bounds {vch : Valtype} {fRequireMinimal : Bool} {n : Int}
    (h : AnkerNode.scriptNum vch fRequireMinimal 4 = .ok n) : -2 ^ 32 < n ∧ n < 2 ^ 32 := by
  rw [AnkerNode.scriptNum, fromOption_eq_ok, CScriptNum.ofVch] at h
  split at h
  · cases h
  · split at h
    · cases h
    · rw [← Option.some.inj h]
      exact setVch_bounds (Nat.le_of_not_lt ‹_›)

theorem unary_eq (op : UnaryOp) {bn : Int} (h : -2 ^ 32 < bn ∧ bn < 2 ^ 32) :
    unary op bn = .ok (op.apply bn) := by
  obtain ⟨hlow, hhigh⟩ := h
  have hneg : negate bn = .ok (-bn) := if_neg (by rw [int64Min]; omega)
  cases op with
  | OP_1ADD => exact if_pos (.inr (.inl ⟨by decide, by rw [int64Max]; omega⟩))
  | OP_1SUB => exact if_pos (.inr (.inl ⟨by decide, by rw [int64Min]; omega⟩))
  | OP_NEGATE => exact hneg
  | OP_ABS =>
    rw [unary, UnaryOp.apply, hneg]
    split <;> rfl
  | OP_NOT | OP_0NOTEQUAL => rfl

end Numbers

theorem stackOp_follows (st : EvalState) (op : StackOp) :
    Follows Explained Eq (do
      let stack ← stackOp st.stack op
      .ok { st with stack := stack }) (st.stackOp op) := by
  obtain ⟨stack, altstack, vfExec, nOpCount, pbegincodehash⟩ := st
  cases op with
  | OP_2DROP | OP_2DUP | OP_NIP | OP_OVER | OP_SWAP | OP_TUCK | OP_EQUAL =>
    rcases stack with _ | ⟨x2, _ | ⟨x1, s⟩⟩
    iterate 2 exact .error (.returned _)
    exact .ok rfl
  | OP_3DUP | OP_ROT =>
    rcases stack with _ | ⟨x3, _ | ⟨x2, _ | ⟨x1, s⟩⟩⟩
    iterate 3 exact .error (.returned _)
    exact .ok rfl
  | OP_2OVER | OP_2SWAP =>
    rcases stack with _ | ⟨x4, _ | ⟨x3, _ | ⟨x2, _ | ⟨x1, s⟩⟩⟩⟩
    iterate 4 exact .error (.returned _)
    exact .ok rfl
  | OP_2ROT =>
    rcases stack with _ | ⟨x6, _ | ⟨x5, _ | ⟨x4, _ | ⟨x3, _ | ⟨x2, _ | ⟨x1, s⟩⟩⟩⟩⟩⟩
    iterate 6 exact .error (.returned _)
    exact .ok rfl
  | OP_DEPTH => exact .ok rfl
  | OP_IFDUP | OP_DROP | OP_DUP | OP_SIZE =>
    rcases stack with _ | ⟨x, s⟩
    · exact .error (.returned _)
    · exact .ok rfl

theorem equalVerify_follows (st : EvalState) :
    Follows Explained Eq (do
      let stack ← equalVerify st.stack
      .ok { st with stack := stack }) st.equalVerify := by
  obtain ⟨stack, altstack, vfExec, nOpCount, pbegincodehash⟩ := st
  rcases stack with _ | ⟨x2, _ | ⟨x1, s⟩⟩
  iterate 2 exact .error (.returned _)
  exact answer_follows _ s (x1 == x2) (some .SCRIPT_ERR_EQUALVERIFY)

theorem verify_follows (st : EvalState) :
    Follows Explained Eq (do
      let stack ← verify st.stack
      .ok { st with stack := stack }) st.verify := by
  rw [EvalState.verify]
  cases hs : st.stack with
  | nil => exact .error (.returned _)
  | cons x s =>
    have hlow : verify (x :: s) = if castToBool x then .ok s else setError .SCRIPT_ERR_VERIFY := rfl
    rw [hlow]
    dsimp only
    cases castToBool x with
    | false => exact .error (.returned _)
    | true => exact .ok rfl

theorem openBranch_follows (st : EvalState) (negated : Bool) :
    Follows Explained Eq (openBranch st negated) (st.openBranch negated) := by
  obtain ⟨stack, altstack, vfExec, nOpCount, pbegincodehash⟩ := st
  rw [openBranch, EvalState.openBranch]
  split
  · rcases stack with _ | ⟨x, s⟩
    · exact .error (.returned _)
    · exact .ok rfl
  · exact .ok rfl

theorem toAltStack_follows (st : EvalState) :
    Follows Explained Eq (toAltStack st) st.toAltStack := by
  obtain ⟨stack, altstack, vfExec, nOpCount, pbegincodehash⟩ := st
  rcases stack with _ | ⟨x, s⟩
  · exact .error (.returned _)
  · exact .ok rfl

theorem fromAltStack_follows (st : EvalState) :
    Follows Explained Eq (fromAltStack st) st.fromAltStack := by
  obtain ⟨stack, altstack, vfExec, nOpCount, pbegincodehash⟩ := st
  rcases altstack with _ | ⟨x, s⟩
  · exact .error (.returned _)
  · exact .ok rfl

theorem hashOp_follows (st : EvalState) (hashes : ScriptHashes) (op : HashOp) :
    Follows Explained Eq (do
      let stack ← hashOp st.stack hashes op
      .ok { st with stack := stack }) (st.hashOp hashes op) := by
  obtain ⟨stack, altstack, vfExec, nOpCount, pbegincodehash⟩ := st
  rcases stack with _ | ⟨x, s⟩
  · exact .error (.returned _)
  · exact .ok rfl

theorem unaryOp_follows (st : EvalState) (fRequireMinimal : Bool) (op : UnaryOp) :
    Follows Explained Eq (do
      let stack ← unaryOp st.stack fRequireMinimal op
      .ok { st with stack := stack }) (st.unaryOp fRequireMinimal op) := by
  rw [EvalState.unaryOp]
  cases hs : st.stack with
  | nil => exact .error (.returned _)
  | cons top s =>
    have hlow : unaryOp (top :: s) fRequireMinimal op = (do
      let bn ← scriptNum top fRequireMinimal
      let bn ← unary op bn
      .ok (CScriptNum.serialize bn :: s)) := rfl
    rw [hlow, bind_assoc]
    refine (follows_scriptNum top fRequireMinimal 4).bind fun bn hbn => ?_
    rw [unary_eq op (scriptNum_bounds hbn)]
    exact .ok rfl

-- what the operations on two numbers do before they compute
theorem binaryArgs_follows (st : EvalState) (fRequireMinimal : Bool)
    (rest : Int → Int → List Valtype → Except Stop (List Valtype))
    (rest' : Int → Int → List Valtype → Except ScriptFailure EvalState)
    (h : ∀ bn1 bn2 s, Follows Explained Eq (do
      let stack ← rest bn1 bn2 s
      .ok { st with stack := stack }) (rest' bn1 bn2 s)) :
    Follows Explained Eq (do
      let stack ← (do
        need st.stack 2
        let vch1 ← stacktop st.stack (-2)
        let bn1 ← scriptNum vch1 fRequireMinimal
        let vch2 ← stacktop st.stack (-1)
        let bn2 ← scriptNum vch2 fRequireMinimal
        let stack ← popTimes 2 st.stack
        rest bn1 bn2 stack)
      .ok { st with stack := stack }) (do
      let (bn1, bn2, stack) ← st.binaryArgs fRequireMinimal
      rest' bn1 bn2 stack) := by
  rw [EvalState.binaryArgs]
  rcases hs : st.stack with _ | ⟨x2, _ | ⟨x1, s⟩⟩
  · exact .error (.returned _)
  · exact .error (.returned _)
  · change Follows Explained Eq ((do
      let bn1 ← scriptNum x1 fRequireMinimal
      let bn2 ← scriptNum x2 fRequireMinimal
      rest bn1 bn2 s) >>= _) _
    dsimp only
    rw [bind_assoc, bind_assoc]
    refine (follows_scriptNum x1 fRequireMinimal 4).bind fun bn1 _ => ?_
    rw [bind_assoc, bind_assoc]
    exact (follows_scriptNum x2 fRequireMinimal 4).bind fun bn2 _ => h bn1 bn2 s

theorem binaryOp_follows (st : EvalState) (fRequireMinimal : Bool) (op : BinaryOp) :
    Follows Explained Eq (do
      let stack ← binaryOp st.stack fRequireMinimal op false
      .ok { st with stack := stack }) (st.binaryOp fRequireMinimal op) := by
  refine binaryArgs_follows st fRequireMinimal
    (fun bn1 bn2 s => .ok (CScriptNum.serialize (op.apply bn1 bn2) :: s))
    (fun bn1 bn2 s => .ok { st with stack := CScriptNum.serialize (op.apply bn1 bn2) :: s })
    fun bn1 bn2 s => ?_
  exact .ok rfl

theorem numEqualVerify_follows (st : EvalState) (fRequireMinimal : Bool) :
    Follows Explained Eq (do
      let stack ← binaryOp st.stack fRequireMinimal .OP_NUMEQUAL true
      .ok { st with stack := stack }) (st.numEqualVerify fRequireMinimal) := by
  refine binaryArgs_follows st fRequireMinimal
    (fun bn1 bn2 s =>
      if castToBool (CScriptNum.serialize (if bn1 = bn2 then 1 else 0)) then .ok s
      else setError .SCRIPT_ERR_NUMEQUALVERIFY)
    (fun bn1 bn2 s => st.answer s (decide (bn1 = bn2)) (some .SCRIPT_ERR_NUMEQUALVERIFY))
    fun bn1 bn2 s => ?_
  by_cases heq : bn1 = bn2
  · rw [if_pos heq, decide_eq_true heq]
    exact .ok rfl
  · rw [if_neg heq, decide_eq_false heq]
    exact .error (.returned _)

theorem within_follows (st : EvalState) (fRequireMinimal : Bool) :
    Follows Explained Eq (do
      let stack ← within st.stack fRequireMinimal
      .ok { st with stack := stack }) (st.within fRequireMinimal) := by
  rw [EvalState.within]
  rcases hs : st.stack with _ | ⟨x3, _ | ⟨x2, _ | ⟨x1, s⟩⟩⟩
  iterate 3 exact .error (.returned _)
  have hlow : within (x3 :: x2 :: x1 :: s) fRequireMinimal = (do
    let bn1 ← scriptNum x1 fRequireMinimal
    let bn2 ← scriptNum x2 fRequireMinimal
    let bn3 ← scriptNum x3 fRequireMinimal
    .ok (vchBool (decide (bn2 ≤ bn1) && decide (bn1 < bn3)) :: s)) := rfl
  rw [hlow, bind_assoc]
  refine (follows_scriptNum x1 fRequireMinimal 4).bind fun bn1 _ => ?_
  rw [bind_assoc]
  refine (follows_scriptNum x2 fRequireMinimal 4).bind fun bn2 _ => ?_
  rw [bind_assoc]
  exact (follows_scriptNum x3 fRequireMinimal 4).bind fun bn3 _ => .ok rfl

theorem pick_follows (st : EvalState) (fRequireMinimal roll : Bool) :
    Follows Explained Eq (do
      let stack ← pick st.stack fRequireMinimal roll
      .ok { st with stack := stack }) (st.pick fRequireMinimal roll) := by
  rw [EvalState.pick]
  rcases hs : st.stack with _ | ⟨top, _ | ⟨x, s⟩⟩
  · exact .error (.returned _)
  · exact .error (.returned _)
  · have hlow : pick (top :: x :: s) fRequireMinimal roll = (do
      let bn ← scriptNum top fRequireMinimal
      let n := CScriptNum.getint bn
      setErrorIf (decide (n < 0) || decide (((x :: s).length : Int) ≤ n))
        .SCRIPT_ERR_INVALID_STACK_OPERATION
      let vch ← stacktop (x :: s) (-n - 1)
      let stack ← if roll then eraseTop (x :: s) (n + 1).toNat n.toNat else .ok (x :: s)
      .ok (vch :: stack)) := rfl
    rw [hlow]
    dsimp only
    rw [bind_assoc]
    refine (follows_scriptNum top fRequireMinimal 4).bind fun bn _ => ?_
    rw [bind_assoc]
    refine (follows_setErrorIf _ _).bind fun _ hn => ?_
    obtain ⟨hnonneg, hlt⟩ := Bool.or_eq_false_iff.mp (setErrorIf_eq_ok.mp hn)
    rw [decide_eq_false_iff_not] at hnonneg hlt
    obtain ⟨k, hk⟩ := Int.eq_ofNat_of_zero_le (Int.not_lt.mp hnonneg)
    rw [hk] at hlt ⊢
    have hlength : k < (x :: s).length := by omega
    have htop := stacktop_of_lt hlength
    have herase := eraseTop_of_lt hlength
    rw [htop]
    cases roll with
    | false => exact .ok rfl
    | true =>
      have hsucc : ((k : Int) + 1).toNat = k + 1 := by omega
      rw [hsucc, Int.toNat_natCast, herase]
      exact .ok rfl

section Checker

variable (ctx : ScriptContext) (flags : Nat) (sigversion : SigVersion)

theorem onStack_tracks {st : EvalState} {x : Except Stop (List Valtype)}
    {y : Except ScriptFailure EvalState}
    (h : Follows Explained Eq (do
      let stack ← x
      .ok { st with stack := stack }) y) : Tracks Explained Eq (onStack st x) (Traced.lift y) :=
  tracks_lift h

theorem lockTimeArg_follows (st : EvalState) :
    Follows Explained Eq (lockTimeArg flags st) (ScriptContext.lockTimeArg flags st) := by
  rw [lockTimeArg, ScriptContext.lockTimeArg]
  rcases hs : st.stack with _ | ⟨top, s⟩
  · exact .error (.returned _)
  · refine Follows.bind (follows_scriptNum top _ 5) fun n _ => ?_
    exact (follows_setErrorIf _ _).bind fun _ _ => .ok rfl

theorem evalCheckLockTimeVerify_tracks (st : EvalState) :
    Tracks Explained Eq (evalCheckLockTimeVerify ctx flags st)
      (ctx.evalCheckLockTimeVerify flags st) := by
  rw [evalCheckLockTimeVerify, ScriptContext.evalCheckLockTimeVerify]
  refine Tracks.ite ?_ ?_
  · refine (tracks_lift (lockTimeArg_follows flags st)).bind fun n => ?_
    refine (tracks_calls (x := ctx.checkLockTime n) rfl).bind fun fOk => ?_
    exact (tracks_lift (follows_setErrorIf _ _)).bind fun _ => tracks_pure st
  · exact (tracks_lift (follows_returns (avoids_setErrorIf _ _))).bind fun _ => tracks_pure st

theorem evalCheckSequenceVerify_tracks (st : EvalState) :
    Tracks Explained Eq (evalCheckSequenceVerify ctx flags st)
      (ctx.evalCheckSequenceVerify flags st) := by
  rw [evalCheckSequenceVerify, ScriptContext.evalCheckSequenceVerify]
  refine Tracks.ite ?_ ?_
  · refine (tracks_lift (lockTimeArg_follows flags st)).bind fun n => ?_
    refine Tracks.ite (tracks_pure st) ?_
    refine (tracks_calls (x := ctx.checkSequence n) rfl).bind fun fOk => ?_
    exact (tracks_lift (follows_setErrorIf _ _)).bind fun _ => tracks_pure st
  · exact (tracks_lift (follows_returns (avoids_setErrorIf _ _))).bind fun _ => tracks_pure st

theorem evalCheckSig_tracks (st : EvalState) (verify : Option ScriptError) :
    Tracks Explained Eq (evalCheckSig ctx flags sigversion st verify)
      (ctx.evalCheckSig flags sigversion st verify) := by
  rw [evalCheckSig, ScriptContext.evalCheckSig]
  rcases hs : st.stack with _ | ⟨vchPubKey, _ | ⟨vchSig, s⟩⟩
  · exact ⟨rfl, .error (.returned _)⟩
  · exact ⟨rfl, .error (.returned _)⟩
  · change Tracks Explained Eq (do
      Traced.lift (returns (ScriptContext.checkEncodings flags sigversion vchSig vchPubKey))
      let fSuccess ← calls (ctx.checkSig vchSig vchPubKey
        (ScriptContext.dropSignatures sigversion st.pbegincodehash [vchSig]) sigversion)
      onStack st (answer s fSuccess verify)) _
    refine (tracks_lift (follows_returns (avoids_checkEncodings _ _ _ _))).bind fun _ => ?_
    refine (tracks_calls (a := ctx.checker.checkSig _ _ _ _) rfl).bind fun fSuccess => ?_
    exact onStack_tracks (answer_follows st s fSuccess verify)

end Checker

end Throwing

end AnkerNode
