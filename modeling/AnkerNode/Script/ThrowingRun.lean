import AnkerNode.Script.ThrowingRefinement

namespace AnkerNode

open Checks Following Traced

namespace Throwing

variable {stack : List Valtype}

theorem stacktop_neg_of_lt {k : Nat} {i : Int} (hi : i = k + 1) (h : k < stack.length) :
    stacktop stack (-i) = .ok (stack.getD k []) := by
  have hindex : -i = -(k : Int) - 1 := by omega
  rw [hindex, stacktop_of_lt h]

theorem take_drop_succ {s n : Nat} (h : s < stack.length) :
    (stack.drop s).take (n + 1) = stack.getD s [] :: (stack.drop (s + 1)).take n := by
  rw [List.drop_eq_getElem_cons h, List.take_succ_cons, List.getD_eq_getElem _ _ h]

theorem signaturesFrom_eq {n s : Nat} (h : s + n ≤ stack.length) :
    signaturesFrom stack (s + 1) n = .ok ((stack.drop s).take n) := by
  induction n generalizing s with
  | zero => rfl
  | succ n ih =>
    have hlt : s < stack.length := by omega
    have hsucc : ((s : Int) + 1 + 1) = (s + 1 : Nat) + 1 := by omega
    rw [signaturesFrom, stacktop_neg_of_lt rfl hlt, hsucc, take_drop_succ hlt]
    change (signaturesFrom stack ((s + 1 : Nat) + 1) n >>= fun sigs => _) = _
    rw [ih (by omega)]
    rfl

theorem exists_count {n limit : Int} {serror : ScriptError} {u : Unit}
    (h : AnkerNode.setErrorIf (decide (n < 0) || decide (limit < n)) serror = .ok u) :
    ∃ k : Nat, n = k ∧ (k : Int) ≤ limit := by
  obtain ⟨hnonneg, hle⟩ := Bool.or_eq_false_iff.mp (setErrorIf_eq_ok.mp h)
  rw [decide_eq_false_iff_not, Int.not_lt] at hnonneg hle
  obtain ⟨k, rfl⟩ := Int.eq_ofNat_of_zero_le hnonneg
  exact ⟨k, rfl, hle⟩

theorem follows_setErrorIf_iff {p q : Prop} [Decidable p] [Decidable q] (h : p ↔ q)
    (serror : ScriptError) :
    Follows Explained Eq (setErrorIf (decide p) serror)
      (AnkerNode.setErrorIf (decide q) serror) := by
  rw [decide_eq_decide.mpr h]
  exact follows_setErrorIf _ _

-- The indices computed from the two counts mark the parts of the stack that the arguments list.
structure Describes (stack : List Valtype) (m : MultiSig) (args : MultiSigArgs) : Prop where
  nKeysCount : m.nKeysCount = args.nKeysCount
  nSigsCount : m.nSigsCount = args.sigs.length
  isig : m.isig = (2 + args.nKeysCount : Nat) + 1
  i : m.i = (2 + args.nKeysCount + args.sigs.length : Nat) + 1
  sigs_le : args.sigs.length ≤ args.nKeysCount
  length : 2 + args.nKeysCount + args.sigs.length < stack.length
  keys : args.keys = (stack.drop 1).take args.nKeysCount
  sigs : args.sigs = (stack.drop (2 + args.nKeysCount)).take args.sigs.length
  dummy : stack[2 + args.nKeysCount + args.sigs.length]? = some args.dummy
  rest : args.rest = stack.drop (2 + args.nKeysCount + args.sigs.length + 1)

theorem describes_of_counts {top : Valtype} {below : List Valtype} {nKeysCount nSigsCount : Nat}
    (hsigs : nSigsCount ≤ nKeysCount) (hlength : nKeysCount + 1 + nSigsCount < below.length) :
    Describes (top :: below)
      { nKeysCount := nKeysCount
        nSigsCount := nSigsCount
        isig := 2 + nKeysCount + 1
        i := 2 + nKeysCount + 1 + nSigsCount }
      { nKeysCount := nKeysCount
        keys := below.take nKeysCount
        sigs := (below.drop (nKeysCount + 1)).take nSigsCount
        dummy := (below.drop (nKeysCount + 1)).getD nSigsCount []
        rest := (below.drop (nKeysCount + 1)).drop (nSigsCount + 1) } := by
  have htake : ((below.drop (nKeysCount + 1)).take nSigsCount).length = nSigsCount := by
    rw [List.length_take, List.length_drop]
    omega
  have hsecond : 2 + nKeysCount = nKeysCount + 1 + 1 := by omega
  have hlast : 2 + nKeysCount + nSigsCount = nKeysCount + 1 + nSigsCount + 1 := by omega
  constructor <;> dsimp only <;> try rw [htake]
  case isig => omega
  case i => omega
  case sigs_le => exact hsigs
  case length =>
    rw [List.length_cons]
    omega
  case keys => rfl
  case sigs => rw [hsecond, List.drop_succ_cons]
  case dummy =>
    rw [hlast, List.getElem?_cons_succ, List.getD_eq_getElem?_getD, List.getElem?_drop,
      List.getElem?_eq_getElem hlength, Option.getD_some]
  case rest =>
    rw [hlast, List.drop_succ_cons, List.drop_drop]
    rfl

variable (ctx : ScriptContext) (flags : Nat) (sigversion : SigVersion)

theorem multiSigArgs_follows (st : EvalState) :
    Follows Explained (Describes st.stack) (multiSigArgs flags st)
      (st.multiSigArgs (hasFlag flags SCRIPT_VERIFY_MINIMALDATA)) := by
  rw [EvalState.multiSigArgs, multiSigArgs]
  rcases hs : st.stack with _ | ⟨top, below⟩
  · exact .error (.returned _)
  · dsimp only
    rw [multiSigCount, bind_assoc]
    refine Follows.bind (follows_scriptNum top _ 4) fun bn _ => ?_
    dsimp only
    rw [bind_assoc]
    refine (follows_setErrorIf _ _).bind fun _ hn => ?_
    obtain ⟨nKeysCount, hbn, hkeys⟩ := exists_count hn
    rw [hbn]
    refine (follows_setErrorIf_iff (by omega) _).bind fun _ _ => ?_
    refine (follows_setErrorIf_iff (by rw [List.length_cons]; omega) _).bind fun _ hroom => ?_
    rw [Int.toNat_natCast] at hroom ⊢
    have hroom := of_decide_eq_false (setErrorIf_eq_ok.mp hroom)
    rw [stacktop_neg_of_lt (k := nKeysCount + 1) (by omega) (by rw [List.length_cons]; omega),
      List.getD_cons_succ, multiSigCount, bind_assoc]
    refine Follows.bind (follows_scriptNum _ _ 4) fun bn _ => ?_
    dsimp only
    rw [bind_assoc]
    refine (follows_setErrorIf _ _).bind fun _ hn => ?_
    obtain ⟨nSigsCount, hbn, hsigs⟩ := exists_count hn
    rw [hbn]
    have hlength : (below.drop (nKeysCount + 1)).length = below.length - (nKeysCount + 1) :=
      List.length_drop
    refine (follows_setErrorIf_iff (by rw [List.length_cons]; omega) _).bind fun _ hleft => ?_
    have hleft := of_decide_eq_false (setErrorIf_eq_ok.mp hleft)
    rw [Int.toNat_natCast] at hleft ⊢
    rw [hlength] at hleft
    exact .ok (describes_of_counts (Int.ofNat_le.mp hsigs) (by omega))

-- By induction on the keys that are left: as many turns of the loop are still to come.
theorem multiSigLoop_tracks (scriptCode : CScript) {m n s k : Nat} (hn : n ≤ m)
    (hs : s + n ≤ stack.length) (hk : k + m ≤ stack.length) :
    Tracks Explained Eq
      (multiSigLoop ctx flags sigversion stack scriptCode (m + 1) (s + 1) (k + 1) n m)
      (ctx.multiSigLoop flags sigversion scriptCode ((stack.drop s).take n)
        ((stack.drop k).take m)) := by
  induction m generalizing n s k with
  | zero =>
    obtain rfl : n = 0 := Nat.le_zero.mp hn
    exact tracks_pure true
  | succ m ih =>
    cases n with
    | zero =>
      rw [List.take_zero, ScriptContext.multiSigLoop]
      exact tracks_pure true
    | succ n =>
      have hsig : s < stack.length := by omega
      have hkey : k < stack.length := by omega
      have hkeys : ((stack.drop (k + 1)).take m).length = m := by
        rw [List.length_take, List.length_drop]
        omega
      have hsigs : ((stack.drop (s + 1)).take n).length = n := by
        rw [List.length_take, List.length_drop]
        omega
      have hleft : ((m + 1 : Nat) : Int) - 1 = m := by omega
      have hused : ((n + 1 : Nat) : Int) - 1 = n := by omega
      rw [multiSigLoop, if_neg (by omega), take_drop_succ hsig, take_drop_succ hkey,
        ScriptContext.multiSigLoop, stacktop_neg_of_lt rfl hsig, stacktop_neg_of_lt rfl hkey]
      have htop := take_drop_succ (n := n) hsig
      generalize stack.getD s [] = vchSig at htop ⊢
      generalize stack.getD k [] = vchPubKey
      change Tracks Explained Eq (do
        Traced.lift (returns (ScriptContext.checkEncodings flags sigversion vchSig vchPubKey))
        let fOk ← calls (ctx.checkSig vchSig vchPubKey scriptCode sigversion)
        let isig := if fOk then (s : Int) + 1 + 1 else s + 1
        let nSigsCount := if fOk then ((n + 1 : Nat) : Int) - 1 else (n + 1 : Nat)
        if ((m + 1 : Nat) : Int) - 1 < nSigsCount then pure false
        else
          multiSigLoop ctx flags sigversion stack scriptCode (m + 1) isig (k + 1 + 1) nSigsCount
            (((m + 1 : Nat) : Int) - 1)) _
      refine (tracks_lift (follows_returns (avoids_checkEncodings _ _ _ _))).bind fun _ => ?_
      refine (tracks_calls (a := ctx.checker.checkSig _ _ _ _) rfl).bind fun fOk => ?_
      cases fOk with
      | true =>
        simp only [if_true]
        rw [hleft, hused, hkeys, hsigs, if_neg (by omega), if_neg (by omega)]
        exact ih (n := n) (s := s + 1) (k := k + 1) (by omega) (by omega) (by omega)
      | false =>
        simp only [Bool.false_eq_true, if_false]
        rw [hleft, hkeys, List.length_cons, hsigs]
        by_cases hlt : m < n + 1
        · rw [if_pos (by omega), if_pos hlt]
          exact tracks_pure false
        · rw [if_neg (by omega), if_neg hlt, ← htop]
          exact ih (n := n + 1) (s := s) (k := k + 1) (by omega) (by omega) (by omega)

theorem cleanUpMultiSig_follows {st : EvalState} {m : MultiSig} {args : MultiSigArgs}
    (h : Describes st.stack m args) (fSuccess : Bool) (verify : Option ScriptError)
    (nOpCount : Nat) :
    Follows Explained Eq (do
      let stack ← cleanUpMultiSig flags st.stack m.i fSuccess verify
      .ok { st with stack := stack, nOpCount := nOpCount }) (do
      AnkerNode.setErrorIf (hasFlag flags SCRIPT_VERIFY_NULLDUMMY && !args.dummy.isEmpty)
        .SCRIPT_ERR_SIG_NULLDUMMY
      { st with nOpCount := nOpCount }.answer args.rest fSuccess verify) := by
  have hlt := h.length
  obtain ⟨hdummy, hvalue⟩ := List.getElem?_eq_some_iff.mp h.dummy
  have hi : (m.i - 1).toNat = 2 + args.nKeysCount + args.sigs.length := by
    rw [h.i]
    omega
  rw [cleanUpMultiSig, hi, popTimes_of_le hlt.le, List.drop_eq_getElem_cons hdummy, hvalue, ← h.rest]
  have hanswer := answer_follows { st with nOpCount := nOpCount } args.rest fSuccess verify
  cases hasFlag flags SCRIPT_VERIFY_NULLDUMMY with
  | false => exact hanswer
  | true =>
    change Follows Explained Eq ((do
      setErrorIf (!args.dummy.isEmpty) .SCRIPT_ERR_SIG_NULLDUMMY
      answer args.rest fSuccess verify) >>= _) _
    rw [bind_assoc]
    exact (follows_setErrorIf _ _).bind fun _ _ => hanswer

theorem evalCheckMultiSig_tracks (st : EvalState) (verify : Option ScriptError) :
    Tracks Explained Eq (evalCheckMultiSig ctx flags sigversion st verify)
      (ctx.evalCheckMultiSig flags sigversion st verify) := by
  rw [evalCheckMultiSig, ScriptContext.evalCheckMultiSig]
  refine (tracks_lift (multiSigArgs_follows flags st)).andThen fun m args h => ?_
  have hlt := h.length
  have hsigs : signaturesFrom st.stack m.isig m.nSigsCount.toNat = .ok args.sigs := by
    rw [h.isig, h.nSigsCount, Int.toNat_natCast, signaturesFrom_eq (by omega), ← h.sigs]
  have hsigrange : 2 + args.nKeysCount + args.sigs.length ≤ st.stack.length := hlt.le
  have hkeyrange : 1 + args.nKeysCount ≤ st.stack.length := by omega
  have hloop := multiSigLoop_tracks ctx flags sigversion
    (ScriptContext.dropSignatures sigversion st.pbegincodehash args.sigs) h.sigs_le hsigrange
    hkeyrange
  rw [← h.sigs, ← h.keys, ← h.isig, ← h.nSigsCount, ← h.nKeysCount] at hloop
  rw [hsigs, h.nKeysCount, Int.toNat_natCast, ← h.nKeysCount]
  refine Tracks.bind hloop fun fSuccess => ?_
  have hclean := cleanUpMultiSig_follows flags h fSuccess verify (st.nOpCount + args.nKeysCount)
  have hlift := tracks_lift (ω := ScriptEvent) hclean
  rw [lift_bind (AnkerNode.setErrorIf _ _)] at hlift
  exact hlift

end Throwing

namespace Throwing

variable (ctx : ScriptContext) (flags : Nat) (sigversion : SigVersion)

theorem follows_toggleBranch (st : EvalState) :
    Follows Explained Eq (returns st.toggleBranch) st.toggleBranch := by
  refine follows_returns ?_
  rw [EvalState.toggleBranch]
  cases st.vfExec with
  | nil => nofun
  | cons b vfExec => exact avoids_ok

theorem follows_closeBranch (st : EvalState) :
    Follows Explained Eq (returns st.closeBranch) st.closeBranch := by
  refine follows_returns ?_
  rw [EvalState.closeBranch]
  cases st.vfExec with
  | nil => nofun
  | cons b vfExec => exact avoids_ok

theorem avoids_permit (st : EvalState) (i : Instruction) : Avoids .assertion (st.permit i) := by
  refine avoids_bind_iff.mpr ⟨avoids_setErrorIf _ _, fun _ _ => ?_⟩
  refine avoids_bind_iff.mpr ⟨avoids_setErrorIf _ _, fun _ _ => ?_⟩
  exact avoids_bind_iff.mpr ⟨avoids_setErrorIf _ _, fun _ _ => avoids_ok⟩

theorem evalOpcode_tracks (st : EvalState) (next : CScript) (op : Opcode) :
    Tracks Explained Eq (evalOpcode ctx flags sigversion st next op)
      (ctx.evalOpcode flags sigversion st next op) := by
  cases op with
  | smallInt n => exact tracks_pure _
  | OP_NOP => exact tracks_pure _
  | upgradableNop =>
    exact (tracks_lift (follows_returns (avoids_setErrorIf _ _))).bind fun _ => tracks_pure st
  | OP_CHECKLOCKTIMEVERIFY => exact evalCheckLockTimeVerify_tracks ctx flags st
  | OP_CHECKSEQUENCEVERIFY => exact evalCheckSequenceVerify_tracks ctx flags st
  | OP_IF => exact tracks_lift (openBranch_follows st false)
  | OP_NOTIF => exact tracks_lift (openBranch_follows st true)
  | OP_ELSE => exact tracks_lift (follows_toggleBranch st)
  | OP_ENDIF => exact tracks_lift (follows_closeBranch st)
  | OP_VERIFY => exact onStack_tracks (verify_follows st)
  | OP_RETURN => exact tracks_lift (follows_setError _)
  | OP_TOALTSTACK => exact tracks_lift (toAltStack_follows st)
  | OP_FROMALTSTACK => exact tracks_lift (fromAltStack_follows st)
  | OP_PICK => exact onStack_tracks (pick_follows st _ false)
  | OP_ROLL => exact onStack_tracks (pick_follows st _ true)
  | OP_EQUALVERIFY => exact onStack_tracks (equalVerify_follows st)
  | stack op => exact onStack_tracks (stackOp_follows st op)
  | unary op => exact onStack_tracks (unaryOp_follows st _ op)
  | binary op => exact onStack_tracks (binaryOp_follows st _ op)
  | OP_NUMEQUALVERIFY => exact onStack_tracks (numEqualVerify_follows st _)
  | OP_WITHIN => exact onStack_tracks (within_follows st _)
  | hash op => exact onStack_tracks (hashOp_follows st ctx.hashes op)
  | OP_CODESEPARATOR => exact tracks_pure _
  | OP_CHECKSIG => exact evalCheckSig_tracks ctx flags sigversion st none
  | OP_CHECKSIGVERIFY => exact evalCheckSig_tracks ctx flags sigversion st _
  | OP_CHECKMULTISIG => exact evalCheckMultiSig_tracks ctx flags sigversion st none
  | OP_CHECKMULTISIGVERIFY => exact evalCheckMultiSig_tracks ctx flags sigversion st _
  | invalid => exact tracks_lift (follows_setError _)

theorem execute_tracks (st : EvalState) (i : Instruction) :
    Tracks Explained Eq (execute ctx flags sigversion st i)
      (ctx.execute flags sigversion st i) := by
  rw [execute, ScriptContext.execute]
  refine Tracks.ite ?_ (Tracks.ite (evalOpcode_tracks ctx flags sigversion st _ _) (tracks_pure st))
  exact (tracks_lift (follows_setErrorIf _ _)).bind fun _ => tracks_pure _

theorem step_tracks (st : EvalState) (i : Instruction) :
    Tracks Explained Eq (step ctx flags sigversion st i) (ctx.step flags sigversion st i) := by
  refine (tracks_lift (follows_returns (avoids_permit st i))).bind fun st => ?_
  refine (execute_tracks ctx flags sigversion st i).bind fun st => ?_
  exact (tracks_lift (follows_setErrorIf _ _)).bind fun _ => tracks_pure st

-- Every instruction takes at least one byte: the bytes that are left bound the turns of the loop.
theorem evalLoop_tracks {fuel : Nat} {pc : CScript} (h : pc.length ≤ fuel) (st : EvalState) :
    Tracks Explained Eq (evalLoop ctx flags sigversion fuel pc st)
      (ctx.evalOps flags sigversion pc.instructions st) := by
  induction fuel generalizing pc st with
  | zero =>
    obtain rfl : pc = [] := List.length_eq_zero_iff.mp (Nat.le_zero.mp h)
    exact tracks_pure st
  | succ fuel ih =>
    cases pc with
    | nil => exact tracks_pure st
    | cons b pc =>
      cases hop : CScript.getOp2 (b :: pc) with
      | none =>
        simp only [evalLoop, hop, CScript.instructions_of_bad hop, List.isEmpty_cons,
          Bool.false_eq_true, if_false]
        exact tracks_lift (follows_setError _)
      | some i =>
        have hlt := CScript.getOp2_next_lt hop
        simp only [evalLoop, hop, CScript.instructions_of_getOp2 hop, List.isEmpty_cons,
          Bool.false_eq_true, if_false]
        refine (step_tracks ctx flags sigversion st i).bind fun st => ?_
        exact ih (by omega) st

theorem evalScript_tracks (stack : List Valtype) (script : CScript) :
    Tracks Explained Eq (evalScript ctx flags sigversion stack script)
      (ctx.evalScript flags sigversion stack script) := by
  refine (tracks_lift (follows_setErrorIf _ _)).bind fun _ => ?_
  refine (evalLoop_tracks ctx flags sigversion (Nat.le_refl _) _).bind fun st => ?_
  exact (tracks_lift (follows_setErrorIf _ _)).bind fun _ => tracks_pure _

end Throwing

end AnkerNode
