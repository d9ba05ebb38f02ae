import AnkerNode.Script.SigOpBound
import AnkerNode.Script.StackBounds

namespace AnkerNode

open Checks Following Traced

structure EvalState.Bounded (st : EvalState) : Prop extends SmallStacks st where
  size : st.stack.length + st.altstack.length ≤ 1000

namespace ScriptContext

variable (ctx : ScriptContext) (flags : Nat) (sigversion : SigVersion)

theorem small_permit {st st' : EvalState} {i : Instruction} (h : SmallStacks st)
    (hpermit : st.permit i = .ok st') :
    i.data.length ≤ MAX_SCRIPT_ELEMENT_SIZE ∧ SmallStacks st' := by
  obtain ⟨hdata, hpermit⟩ := seq_eq_ok.mp hpermit
  obtain ⟨-, hpermit⟩ := seq_eq_ok.mp hpermit
  obtain ⟨-, hok⟩ := seq_eq_ok.mp hpermit
  cases hok
  exact ⟨Nat.le_of_not_lt (of_decide_eq_false (setErrorIf_eq_ok.mp hdata)), h.stack, h.altstack⟩

theorem bounded_step (hsizes : HashSizes ctx.hashes) {st : EvalState} (h : SmallStacks st)
    (i : Instruction) : Yields EvalState.Bounded (ctx.step flags sigversion st i) := by
  refine Yields.bind (yields_lift fun _ => small_permit h) fun st ⟨hdata, hst⟩ => ?_
  refine Yields.bind (small_execute ctx flags sigversion hsizes hst hdata) fun st hst => ?_
  intro st' hok
  obtain ⟨_, hsize, hok⟩ := result_bind_eq_ok.mp hok
  cases hok
  exact ⟨hst, Nat.le_of_not_lt (of_decide_eq_false (setErrorIf_eq_ok.mp hsize))⟩

end ScriptContext

namespace Throwing

-- where the loop condition is tested: what is left of the script, and the state
inductive LoopState (ctx : ScriptContext) (flags : Nat) (sigversion : SigVersion)
    (stack : List Valtype) (script : CScript) : CScript → EvalState → Prop
  | start : LoopState ctx flags sigversion stack script script
      { stack := stack, pbegincodehash := script }
  | next {pc : CScript} {st st' : EvalState} {i : Instruction}
      (h : LoopState ctx flags sigversion stack script pc st) (hop : CScript.getOp2 pc = some i)
      (hstep : (step ctx flags sigversion st i).result = .ok st') :
      LoopState ctx flags sigversion stack script i.next st'

variable {ctx : ScriptContext} {flags : Nat} {sigversion : SigVersion} {stack : List Valtype}
  {script : CScript}

theorem loopState_bounded (hsizes : HashSizes ctx.hashes) (hstack : SmallElements stack)
    (hlength : stack.length ≤ 1000) {pc : CScript} {st : EvalState}
    (h : LoopState ctx flags sigversion stack script pc st) : st.Bounded := by
  induction h with
  | start => exact ⟨⟨hstack, smallElements_nil⟩, hlength⟩
  | @next pc st st' i _ _ hstep ih =>
    have hok := (step_tracks ctx flags sigversion st i).result.ok_iff.mp hstep
    exact ctx.bounded_step flags sigversion hsizes ih.toSmallStacks i st' hok

theorem evalLoop_loopState {fuel : Nat} {pc : CScript} {st st' : EvalState}
    (h : LoopState ctx flags sigversion stack script pc st)
    (hrun : (evalLoop ctx flags sigversion fuel pc st).result = .ok st') :
    LoopState ctx flags sigversion stack script [] st' := by
  induction fuel generalizing pc st with
  | zero =>
    cases pc with
    | nil =>
      cases hrun
      exact h
    | cons b pc => cases hrun
  | succ fuel ih =>
    cases pc with
    | nil =>
      cases hrun
      exact h
    | cons b pc =>
      simp only [evalLoop, List.isEmpty_cons, Bool.false_eq_true, if_false] at hrun
      cases hop : CScript.getOp2 (b :: pc) with
      | none =>
        rw [hop] at hrun
        cases hrun
      | some i =>
        rw [hop] at hrun
        obtain ⟨st₁, hstep, hrest⟩ := result_bind_eq_ok.mp hrun
        exact ih (h.next hop hstep) hrest

theorem evalScript_bounded (hsizes : HashSizes ctx.hashes) (hstack : SmallElements stack)
    (hlength : stack.length ≤ 1000) {out : List Valtype}
    (hrun : (evalScript ctx flags sigversion stack script).result = .ok out) :
    SmallElements out ∧ out.length ≤ 1000 := by
  obtain ⟨-, -, hrun⟩ := result_bind_eq_ok.mp hrun
  obtain ⟨st, hloop, hrun⟩ := result_bind_eq_ok.mp hrun
  obtain ⟨-, -, hrun⟩ := result_bind_eq_ok.mp hrun
  cases hrun
  have hst := loopState_bounded hsizes hstack hlength (evalLoop_loopState .start hloop)
  exact ⟨hst.stack, (Nat.le_add_right _ _).trans hst.size⟩

theorem evalScript_stops {stop : Stop}
    (h : (evalScript ctx flags sigversion stack script).result = .error stop) :
    (∃ serror, stop = .returned (.error serror)) ∨ stop = .thrown .scriptnum_error := by
  obtain ⟨failure, -, hexplained⟩ :=
    (evalScript_tracks ctx flags sigversion stack script).result.explained h
  cases hexplained with
  | returned serror => exact .inl ⟨serror, rfl⟩
  | scriptnum => exact .inr rfl

end Throwing

namespace ScriptContext

variable (ctx : ScriptContext) (flags : Nat)

theorem avoids_evalScript (sigversion : SigVersion) (stack : List Valtype) (script : CScript) :
    Avoids .assertion (ctx.evalScript flags sigversion stack script).result := by
  have hfollows := (Throwing.evalScript_tracks ctx flags sigversion stack script).result
  exact hfollows.avoids nofun

theorem avoids_requireTrue (stack : List Valtype) : Avoids .assertion (requireTrue stack) := by
  cases stack with
  | nil => nofun
  | cons top stack => exact Throwing.avoids_setErrorIf _ _

theorem avoids_witnessScript (witness : CScriptWitness) (program : Valtype) :
    Avoids .assertion (ctx.witnessScript witness program) := by
  rw [witnessScript]
  split
  · split
    · intro h
      cases h
    · exact avoids_bind_iff.mpr ⟨Throwing.avoids_setErrorIf _ _, fun _ _ => avoids_ok⟩
  · split
    · exact avoids_bind_iff.mpr ⟨Throwing.avoids_setErrorIf _ _, fun _ _ => avoids_ok⟩
    · intro h
      cases h

theorem avoids_verifyWitnessProgram (witness : CScriptWitness) (witversion : Nat)
    (program : Valtype) :
    Avoids .assertion (ctx.verifyWitnessProgram flags witness witversion program).result := by
  rw [verifyWitnessProgram]
  split
  · refine avoids_result_bind (avoids_witnessScript ctx witness program) fun _ => ?_
    refine avoids_result_bind (Throwing.avoids_setErrorIf _ _) fun _ => ?_
    refine avoids_result_bind (avoids_evalScript ctx flags _ _ _) fun stack => ?_
    exact avoids_result_bind (Throwing.avoids_setErrorIf _ _) fun _ => avoids_requireTrue stack
  · exact Throwing.avoids_setErrorIf _ _

theorem avoids_verifyWitness (witness : CScriptWitness) (script : CScript) (malleated : Bool)
    (serror : ScriptError) (stack : List Valtype) (hadWitness : Bool) :
    Avoids .assertion
      (ctx.verifyWitness flags witness script malleated serror stack hadWitness).result := by
  rw [verifyWitness]
  split
  · split
    · exact avoids_ok
    · refine avoids_result_bind (Throwing.avoids_setErrorIf _ _) fun _ => ?_
      exact avoids_result_bind (avoids_verifyWitnessProgram ctx flags witness _ _) fun _ => avoids_ok
  · exact avoids_ok

-- `HASH160 <> EQUAL` fails on an empty stack
theorem payToScriptHash_needs_element {scriptPubKey : CScript}
    (hp2sh : scriptPubKey.isPayToScriptHash = true) {stackCopy stack : List Valtype}
    (heval : (ctx.evalScript flags .SIGVERSION_BASE stackCopy scriptPubKey).result = .ok stack) :
    stackCopy ≠ [] := by
  rintro rfl
  obtain ⟨id, hid, rfl⟩ := CScript.eq_of_isPayToScriptHash hp2sh
  obtain ⟨-, -, heval⟩ := result_bind_eq_ok.mp heval
  obtain ⟨st, hops, -⟩ := result_bind_eq_ok.mp heval
  rw [CScript.instructions_payToScriptHash hid] at hops
  cases hops

theorem avoids_verifyScriptHash {scriptSig scriptPubKey : CScript} {stackCopy stack : List Valtype}
    (heval : (ctx.evalScript flags .SIGVERSION_BASE stackCopy scriptPubKey).result = .ok stack)
    (witness : CScriptWitness) (state : List Valtype × Bool) :
    Avoids .assertion
      (ctx.verifyScriptHash flags witness scriptSig scriptPubKey stackCopy state).result := by
  unfold verifyScriptHash
  split
  · rename_i hcond
    refine avoids_result_bind (Throwing.avoids_setErrorIf _ _) fun _ => ?_
    cases stackCopy with
    | nil => exact absurd rfl (payToScriptHash_needs_element ctx flags hcond.2 heval)
    | cons pubKey2 stackCopy =>
      refine avoids_result_bind (avoids_evalScript ctx flags _ _ _) fun stack => ?_
      refine avoids_result_bind (avoids_requireTrue stack) fun _ => ?_
      exact avoids_verifyWitness ctx flags witness pubKey2 _ _ stack state.2
  · exact avoids_ok

end ScriptContext

section

open Throwing (LoopState)

theorem interpreter_has_no_internal_failures {ctx : ScriptContext} (hsizes : HashSizes ctx.hashes)
    (flags : Nat) (sigversion : SigVersion) {stack : List Valtype} (hstack : SmallElements stack)
    (hlength : stack.length ≤ 1000) (script : CScript) :
    (∀ stop, (Throwing.evalScript ctx flags sigversion stack script).result = .error stop →
      (∃ serror, stop = .returned (.error serror)) ∨ stop = .thrown .scriptnum_error) ∧
    (∀ pc st, LoopState ctx flags sigversion stack script pc st → st.Bounded) ∧
    (∀ out, (Throwing.evalScript ctx flags sigversion stack script).result = .ok out →
      SmallElements out ∧ out.length ≤ 1000) ∧
    ∀ scriptSig scriptPubKey witness stackCopy out state,
      (ctx.evalScript flags .SIGVERSION_BASE [] scriptSig).result = .ok stackCopy →
      (ctx.evalScript flags .SIGVERSION_BASE stackCopy scriptPubKey).result = .ok out →
      (ctx.verifyScriptHash flags witness scriptSig scriptPubKey stackCopy state).result ≠
        .error .assertion := by
  refine ⟨fun stop hstop => Throwing.evalScript_stops hstop, ?_, ?_, ?_⟩
  · intro pc st hst
    exact Throwing.loopState_bounded hsizes hstack hlength hst
  · intro out hrun
    exact Throwing.evalScript_bounded hsizes hstack hlength hrun
  · intro scriptSig scriptPubKey witness stackCopy out state _ heval
    exact ctx.avoids_verifyScriptHash flags heval witness state

-- no operation of the script below asks for a digest
def digestContext : ScriptContext where
  hashes :=
    { ripemd160 := fun _ => List.replicate 20 0
      sha1 := fun _ => List.replicate 20 0
      sha256 := fun _ => List.replicate 32 0
      hash160 := fun _ => List.replicate 20 0
      hash256 := fun _ => List.replicate 32 0 }
  checker := ⟨fun _ _ _ _ => false, fun _ => false, fun _ => false⟩

theorem digestContext_sizes : HashSizes digestContext.hashes :=
  ⟨fun _ => rfl, fun _ => rfl, fun _ => rfl, fun _ => rfl, fun _ => rfl⟩

-- `1 ROLL` brings the second element to the top
def rollScript : CScript := [OP_1, 0x7a]

theorem interpreter_has_no_internal_failures_roll :
    (Throwing.evalScript digestContext 0 .SIGVERSION_BASE [[5], [3]] rollScript).result =
        .ok [[3], [5]] ∧
      SmallElements [[3], [5]] ∧ [[3], [5]].length ≤ 1000 := by
  have hstack : SmallElements [[5], [3]] := by simp [SmallElements, MAX_SCRIPT_ELEMENT_SIZE]
  have hrun : (Throwing.evalScript digestContext 0 .SIGVERSION_BASE [[5], [3]] rollScript).result =
      .ok [[3], [5]] := by decide +kernel
  obtain ⟨-, -, hbounded, -⟩ := interpreter_has_no_internal_failures digestContext_sizes 0
    .SIGVERSION_BASE hstack (by decide) rollScript
  exact ⟨hrun, hbounded _ hrun⟩

end

end AnkerNode
