import AnkerNode.Script.InterpreterSafety
import AnkerNode.Script.NumberEncoding
import AnkerNode.Script.SigOps
import AnkerNode.Script.StackBounds
import AnkerNode.Script.Standard

namespace AnkerNode

namespace CScript

-- `GetOp2`, which casts what is left of the script to an `unsigned int`
def getOp32 : CScript → Option Instruction
  | [] => none
  | opcode :: pc =>
    if opcode ≤ OP_PUSHDATA4 then
      if pc.length < sizeWidth opcode then none
      else if (pc.drop (sizeWidth opcode)).length % 2 ^ 32 < readSize opcode pc then none
      else some ⟨opcode, (pc.drop (sizeWidth opcode)).take (readSize opcode pc),
        (pc.drop (sizeWidth opcode)).drop (readSize opcode pc)⟩
    else some ⟨opcode, [], pc⟩

-- `n` calls of `GetOp`: the opcodes with their data, and where the last call ends
def getOps : Nat → CScript → Option (List (UInt8 × Valtype) × CScript)
  | 0, pc => some ([], pc)
  | n + 1, pc =>
    (getOp32 pc).bind fun i => (getOps n i.next).map fun (ops, rest) => ((i.opcode, i.data) :: ops, rest)

inductive Pushed
  | int64 (n : Int)
  | vch (b : Valtype)
deriving DecidableEq, Repr

abbrev IsSmallInt (n : Int) : Prop := n = -1 ∨ (1 ≤ n ∧ n ≤ 16)

def pushOpcode (size : Nat) : UInt8 :=
  if size < OP_PUSHDATA1.toNat then UInt8.ofNat size
  else if size ≤ 0xff then OP_PUSHDATA1 else if size ≤ 0xffff then OP_PUSHDATA2 else OP_PUSHDATA4

namespace Pushed

-- `operator<<`
def script : Pushed → CScript
  | int64 n => pushInt64 n
  | vch b => pushData b

-- the opcode and the data that `GetOp` is to yield
def read : Pushed → UInt8 × Valtype
  | int64 n =>
    if IsSmallInt n then (UInt8.ofNat (n + (OP_1.toNat - 1)).toNat, [])
    else (pushOpcode (CScriptNum.serialize n).length, CScriptNum.serialize n)
  | vch b => (pushOpcode b.length, b)

def Short : Pushed → Prop
  | int64 _ => True
  | vch b => b.length < 2 ^ 32

end Pushed

def scriptOf (items : List Pushed) : CScript := items.flatMap Pushed.script

-- What is left at each push is compared modulo 2^32.
def Readable : List Pushed → Prop
  | [] => True
  | item :: items =>
    item.read.2.length ≤ (item.read.2.length + (scriptOf items).length) % 2 ^ 32 ∧ Readable items

-- the number that an opcode with its data stands for
def readNumber (op : UInt8 × Valtype) : Option Int :=
  if op.1 ≤ OP_PUSHDATA4 then CScriptNum.ofVch op.2 true 8
  else some ((op.1.toNat : Int) - (OP_1.toNat - 1))

theorem getOp32_eq {pc : CScript} (h : pc.length < 2 ^ 32) : getOp32 pc = getOp2 pc := by
  cases pc with
  | nil => rfl
  | cons opcode pc =>
    have hmod : (pc.drop (sizeWidth opcode)).length % 2 ^ 32 = (pc.drop (sizeWidth opcode)).length := by
      apply Nat.mod_eq_of_lt
      rw [List.length_cons] at h
      rw [List.length_drop]
      omega
    rw [getOp32, getOp2, hmod]

theorem littleEndian_bytes (n : Nat) :
    littleEndian [UInt8.ofNat n, UInt8.ofNat (n / 256)] = n % 65536 ∧
      littleEndian [UInt8.ofNat n, UInt8.ofNat (n / 256), UInt8.ofNat (n / 65536),
        UInt8.ofNat (n / 16777216)] = n % 4294967296 := by
  have hnil : littleEndian [] = 0 := rfl
  simp only [littleEndian_cons, hnil, UInt8.toNat_ofNat']
  omega

-- The header announces the size of the data that follows it.
theorem pushHeader_spec {size : Nat} (h : size < 2 ^ 32) :
    pushOpcode size ≤ OP_PUSHDATA4 ∧ ∃ bytes, pushHeader size = pushOpcode size :: bytes ∧
      bytes.length = sizeWidth (pushOpcode size) ∧
      ∀ rest, readSize (pushOpcode size) (bytes ++ rest) = size := by
  have hpush1 : OP_PUSHDATA1.toNat = 76 := rfl
  rw [pushOpcode, pushHeader, hpush1]
  by_cases h1 : size < 76
  · have hsize : (UInt8.ofNat size).toNat = size := by
      rw [UInt8.toNat_ofNat']
      omega
    have hlt : UInt8.ofNat size < OP_PUSHDATA1 := UInt8.lt_iff_toNat_lt.mpr (by rw [hsize]; exact h1)
    have hne1 : UInt8.ofNat size ≠ OP_PUSHDATA1 := UInt8.ne_of_lt hlt
    have hne2 : UInt8.ofNat size ≠ OP_PUSHDATA2 := UInt8.ne_of_lt (UInt8.lt_trans hlt (by decide))
    have hne4 : UInt8.ofNat size ≠ OP_PUSHDATA4 := UInt8.ne_of_lt (UInt8.lt_trans hlt (by decide))
    rw [if_pos h1, if_pos h1]
    refine ⟨UInt8.le_of_lt (UInt8.lt_trans hlt (by decide)), [], rfl, ?_, fun rest => ?_⟩
    · rw [sizeWidth, if_neg hne1, if_neg hne2, if_neg hne4]
      rfl
    · rw [readSize, if_pos hlt, hsize]
  rw [if_neg h1, if_neg h1]
  by_cases h2 : size ≤ 0xff
  · rw [if_pos h2, if_pos h2]
    refine ⟨by decide, _, rfl, rfl, fun rest => ?_⟩
    change littleEndian [UInt8.ofNat size] = size
    rw [littleEndian_singleton, UInt8.toNat_ofNat']
    omega
  rw [if_neg h2, if_neg h2]
  by_cases h3 : size ≤ 0xffff
  · rw [if_pos h3, if_pos h3]
    refine ⟨by decide, _, rfl, rfl, fun rest => ?_⟩
    change littleEndian [UInt8.ofNat size, UInt8.ofNat (size / 256)] = size
    rw [(littleEndian_bytes size).1]
    omega
  · rw [if_neg h3, if_neg h3]
    refine ⟨by decide, _, rfl, rfl, fun rest => ?_⟩
    change littleEndian [UInt8.ofNat size, UInt8.ofNat (size / 256), UInt8.ofNat (size / 65536),
      UInt8.ofNat (size / 16777216)] = size
    rw [(littleEndian_bytes size).2]
    omega

theorem getOp32_pushData {b : Valtype} (hb : b.length < 2 ^ 32) (pc : CScript) :
    getOp32 (pushData b ++ pc) =
      if b.length ≤ (b.length + pc.length) % 2 ^ 32 then some ⟨pushOpcode b.length, b, pc⟩
      else none := by
  obtain ⟨hle, bytes, hheader, hwidth, hsize⟩ := pushHeader_spec hb
  have hscript : pushData b ++ pc = pushOpcode b.length :: (bytes ++ (b ++ pc)) := by
    rw [pushData, hheader, List.append_assoc, List.cons_append]
  have hdrop : (bytes ++ (b ++ pc)).drop (sizeWidth (pushOpcode b.length)) = b ++ pc := by
    rw [← hwidth, List.drop_left]
  rw [hscript, getOp32, if_pos hle, hdrop, hsize, if_neg (by simp [hwidth]), List.take_left,
    List.drop_left, List.length_append]
  by_cases hleft : b.length ≤ (b.length + pc.length) % 2 ^ 32
  · rw [if_neg (Nat.not_lt.mpr hleft), if_pos hleft]
  · rw [if_pos (Nat.not_le.mp hleft), if_neg hleft]

theorem smallInt_byte {n : Int} (hn : IsSmallInt n) :
    (UInt8.ofNat (n + (OP_1.toNat - 1)).toNat).toNat = (n + 80).toNat ∧
      ¬ UInt8.ofNat (n + (OP_1.toNat - 1)).toNat ≤ OP_PUSHDATA4 := by
  have hop : (OP_1.toNat : Int) - 1 = 80 := rfl
  have hbyte : (UInt8.ofNat (n + (OP_1.toNat - 1)).toNat).toNat = (n + 80).toNat := by
    rw [hop, UInt8.toNat_ofNat']
    rcases hn with rfl | ⟨h1, h16⟩ <;> omega
  refine ⟨hbyte, ?_⟩
  rw [UInt8.le_iff_toNat_le, hbyte]
  have hpush4 : OP_PUSHDATA4.toNat = 78 := rfl
  rcases hn with rfl | ⟨h1, h16⟩ <;> omega

theorem pushInt64_eq {n : Int} (hn : ¬ IsSmallInt n) :
    pushInt64 n = pushData (CScriptNum.serialize n) := by
  have hlength := CScriptNum.serialize_length_le n
  rw [pushInt64, if_neg hn]
  split
  · rename_i h0
    rw [h0]
    rfl
  · exact (pushData_short (by omega)).symm

theorem getOp32_script {item : Pushed} (hitem : item.Short) (pc : CScript) :
    getOp32 (item.script ++ pc) =
      if item.read.2.length ≤ (item.read.2.length + pc.length) % 2 ^ 32 then
        some ⟨item.read.1, item.read.2, pc⟩
      else none := by
  cases item with
  | vch b => exact getOp32_pushData hitem pc
  | int64 n =>
    by_cases hn : IsSmallInt n
    · have hread : (Pushed.int64 n).read = (UInt8.ofNat (n + (OP_1.toNat - 1)).toNat, []) :=
        if_pos hn
      have hscript : (Pushed.int64 n).script = [UInt8.ofNat (n + (OP_1.toNat - 1)).toNat] :=
        if_pos hn
      rw [hread, hscript]
      dsimp only
      rw [List.length_nil, if_pos (Nat.zero_le _)]
      exact if_neg (smallInt_byte hn).2
    · have hlength := CScriptNum.serialize_length_le n
      have hread : (Pushed.int64 n).read =
          (pushOpcode (CScriptNum.serialize n).length, CScriptNum.serialize n) := if_neg hn
      have hscript : (Pushed.int64 n).script = pushData (CScriptNum.serialize n) := pushInt64_eq hn
      rw [hread, hscript]
      exact getOp32_pushData (by omega) pc

theorem getOps_scriptOf {items : List Pushed} (hitems : ∀ item ∈ items, item.Short) :
    getOps items.length (scriptOf items) = some (items.map Pushed.read, []) ↔ Readable items := by
  induction items with
  | nil => exact iff_of_true rfl trivial
  | cons item items ih =>
    rw [List.forall_mem_cons] at hitems
    have hscript : scriptOf (item :: items) = item.script ++ scriptOf items := List.flatMap_cons
    rw [List.length_cons, getOps, hscript, getOp32_script hitems.1, Readable, ← ih hitems.2]
    by_cases hleft : item.read.2.length ≤ (item.read.2.length + (scriptOf items).length) % 2 ^ 32
    · rw [if_pos hleft, Option.bind_some, and_iff_right hleft]
      cases getOps items.length (scriptOf items) with
      | none => simp
      | some result => simp [Prod.ext_iff]
    · rw [if_neg hleft, Option.bind_none]
      exact iff_of_false (by simp) fun h => hleft h.1

theorem length_data_le_script (item : Pushed) : item.read.2.length ≤ item.script.length := by
  have hpush : ∀ b : Valtype, b.length ≤ (pushData b).length := fun b => by
    rw [pushData, List.length_append]
    exact Nat.le_add_left _ _
  cases item with
  | vch b => exact hpush b
  | int64 n =>
    by_cases hn : IsSmallInt n
    · have hread : (Pushed.int64 n).read = (UInt8.ofNat (n + (OP_1.toNat - 1)).toNat, []) :=
        if_pos hn
      rw [hread]
      exact Nat.zero_le _
    · have hread : (Pushed.int64 n).read =
          (pushOpcode (CScriptNum.serialize n).length, CScriptNum.serialize n) := if_neg hn
      have hscript : (Pushed.int64 n).script = pushData (CScriptNum.serialize n) := pushInt64_eq hn
      rw [hread, hscript]
      exact hpush _

theorem readable_of_short {items : List Pushed} (h : (scriptOf items).length < 2 ^ 32) :
    Readable items := by
  induction items with
  | nil => trivial
  | cons item items ih =>
    have hscript : scriptOf (item :: items) = item.script ++ scriptOf items := List.flatMap_cons
    have hdata := length_data_le_script item
    rw [hscript, List.length_append] at h
    refine ⟨?_, ih (by omega)⟩
    rw [Nat.mod_eq_of_lt (by omega)]
    exact Nat.le_add_right _ _

theorem instructions_script {item : Pushed} (hitem : item.Short) {pc : CScript}
    (h : (item.script ++ pc).length < 2 ^ 32) :
    instructions (item.script ++ pc) = some ⟨item.read.1, item.read.2, pc⟩ :: instructions pc := by
  have hdata := length_data_le_script item
  have hop : getOp2 (item.script ++ pc) = some ⟨item.read.1, item.read.2, pc⟩ := by
    rw [← getOp32_eq h, getOp32_script hitem]
    rw [List.length_append] at h
    rw [if_pos]
    rw [Nat.mod_eq_of_lt (by omega)]
    exact Nat.le_add_right _ _
  exact instructions_of_getOp2 hop

-- A number that is appended reads back as itself.
theorem readNumber_read {n : Int} (hlow : -2 ^ 63 < n) (hhigh : n < 2 ^ 63) :
    readNumber (Pushed.int64 n).read = some n := by
  by_cases hn : IsSmallInt n
  · have hread : (Pushed.int64 n).read = (UInt8.ofNat (n + (OP_1.toNat - 1)).toNat, []) :=
      if_pos hn
    obtain ⟨hbyte, hpush⟩ := smallInt_byte hn
    have hop : (OP_1.toNat : Int) - 1 = 80 := rfl
    rw [readNumber, hread, if_neg hpush, hbyte, hop]
    rcases hn with rfl | ⟨h1, h16⟩
    · rfl
    · congr 1
      omega
  · have hread : (Pushed.int64 n).read =
        (pushOpcode (CScriptNum.serialize n).length, CScriptNum.serialize n) := if_neg hn
    have hlength : (CScriptNum.serialize n).length ≤ 8 := CScriptNum.serialize_length_le_eight hlow hhigh
    have hheader := (@pushHeader_spec (CScriptNum.serialize n).length (by omega)).1
    obtain ⟨hminimal, hvalue⟩ := CScriptNum.decode_serialize (n := n) (by omega)
    rw [readNumber, hread, if_pos hheader, CScriptNum.ofVch_of_fits hlength, hminimal, hvalue]
    rfl

end CScript

open CScript

def PushAll (values : List Valtype) : CScript :=
  values.flatMap fun v =>
    if v.length = 0 then [OP_0]
    else if v.length = 1 ∧ 1 ≤ v.headD 0 ∧ v.headD 0 ≤ 16 then [EncodeOP_N (v.headD 0).toNat]
    else pushData v

-- what `PushAll` appends for a vector
def pushedItem (v : Valtype) : Pushed :=
  if v.length = 1 ∧ 1 ≤ v.headD 0 ∧ v.headD 0 ≤ 16 then .int64 (v.headD 0).toNat else .vch v

theorem smallInt_spec : ∀ b : UInt8, 1 ≤ b ∧ b ≤ 16 →
    pushInt64 b.toNat = [EncodeOP_N b.toNat] ∧ IsSmallInt b.toNat ∧
      OP_PUSHDATA4 < UInt8.ofNat ((b.toNat : Int) + (OP_1.toNat - 1)).toNat ∧
      UInt8.ofNat ((b.toNat : Int) + (OP_1.toNat - 1)).toNat ≤ OP_16 ∧
      Opcode.ofByte (UInt8.ofNat ((b.toNat : Int) + (OP_1.toNat - 1)).toNat) = .smallInt b.toNat ∧
      CScriptNum.serialize b.toNat = [b] :=
  forall_uint8 (by decide +kernel)

theorem pushedItem_script (v : Valtype) : (pushedItem v).script =
    if v.length = 0 then [OP_0]
    else if v.length = 1 ∧ 1 ≤ v.headD 0 ∧ v.headD 0 ≤ 16 then [EncodeOP_N (v.headD 0).toNat]
    else pushData v := by
  by_cases hsmall : v.length = 1 ∧ 1 ≤ v.headD 0 ∧ v.headD 0 ≤ 16
  · rw [pushedItem, if_pos hsmall, if_neg (by omega), if_pos hsmall]
    exact (smallInt_spec (v.headD 0) hsmall.2).1
  · rw [pushedItem, if_neg hsmall, if_neg hsmall]
    split
    · rename_i h0
      rw [List.length_eq_zero_iff.mp h0]
      rfl
    · rfl

theorem PushAll_eq (values : List Valtype) : PushAll values = scriptOf (values.map pushedItem) := by
  rw [PushAll, scriptOf, List.flatMap_map]
  exact List.flatMap_congr fun v _ => (pushedItem_script v).symm

theorem pushedItem_short {v : Valtype} (h : v.length ≤ MAX_SCRIPT_ELEMENT_SIZE) :
    (pushedItem v).Short := by
  rw [pushedItem]
  split
  · trivial
  · have hmax : MAX_SCRIPT_ELEMENT_SIZE = 520 := rfl
    change v.length < 2 ^ 32
    omega

theorem not_disabled : ∀ b : UInt8, b ≤ OP_16 → disabledOpcodes.contains b = false :=
  forall_uint8 (by decide +kernel)

theorem EvalState.permit_push (st : EvalState) {i : Instruction}
    (hdata : i.data.length ≤ MAX_SCRIPT_ELEMENT_SIZE) (hop : i.opcode ≤ OP_16) :
    st.permit i = .ok st := by
  have hsize : ¬ MAX_SCRIPT_ELEMENT_SIZE < i.data.length := Nat.not_lt.mpr hdata
  have hcount : ¬ OP_16 < i.opcode := UInt8.not_lt.mpr hop
  simp only [permit, hsize, hcount, not_disabled i.opcode hop, decide_false, Bool.false_and,
    if_false]
  rfl

namespace ScriptContext

variable (ctx : ScriptContext) (sigversion : SigVersion)

theorem execute_pushedItem {st : EvalState} (hexec : st.fExec = true) (v : Valtype) (next : CScript)
    (hlength : v.length ≤ MAX_SCRIPT_ELEMENT_SIZE) :
    (pushedItem v).read.1 ≤ OP_16 ∧ (pushedItem v).read.2.length ≤ MAX_SCRIPT_ELEMENT_SIZE ∧
      ctx.execute 0 sigversion st ⟨(pushedItem v).read.1, (pushedItem v).read.2, next⟩ =
        pure (st.push v) := by
  by_cases hsmall : v.length = 1 ∧ 1 ≤ v.headD 0 ∧ v.headD 0 ≤ 16
  · obtain ⟨-, hn, hpush, hop, hbyte, hserialize⟩ := smallInt_spec (v.headD 0) hsmall.2
    have hv : v = [v.headD 0] := by
      obtain ⟨b, rfl⟩ := List.length_eq_one_iff.mp hsmall.1
      rfl
    have hread : (pushedItem v).read =
        (UInt8.ofNat (((v.headD 0).toNat : Int) + (OP_1.toNat - 1)).toNat, []) := by
      rw [pushedItem, if_pos hsmall]
      exact if_pos hn
    rw [hread]
    refine ⟨hop, Nat.zero_le _, ?_⟩
    have hnot : ¬ (st.fExec = true ∧
        UInt8.ofNat (((v.headD 0).toNat : Int) + (OP_1.toNat - 1)).toNat ≤ OP_PUSHDATA4) :=
      fun h => absurd hpush (UInt8.not_lt.mpr h.2)
    rw [execute, if_neg hnot, if_pos (.inl hexec), hbyte]
    change (pure (st.push (CScriptNum.serialize (v.headD 0).toNat)) : Eval EvalState) = _
    rw [hserialize, ← hv]
  · have hread : (pushedItem v).read = (pushOpcode v.length, v) := by
      rw [pushedItem, if_neg hsmall]
      rfl
    have hmax : MAX_SCRIPT_ELEMENT_SIZE = 520 := rfl
    have hpush := (@pushHeader_spec v.length (by omega)).1
    rw [hread]
    refine ⟨UInt8.le_trans hpush (by decide), hlength, ?_⟩
    rw [execute, if_pos ⟨hexec, hpush⟩]
    rfl

theorem step_pushedItem {st : EvalState} (hexec : st.fExec = true) (halt : st.altstack = [])
    (hstack : st.stack.length < 1000) {v : Valtype} (hlength : v.length ≤ MAX_SCRIPT_ELEMENT_SIZE)
    (next : CScript) :
    ctx.step 0 sigversion st ⟨(pushedItem v).read.1, (pushedItem v).read.2, next⟩ =
      pure (st.push v) := by
  obtain ⟨hop, hdata, hrun⟩ := ctx.execute_pushedItem sigversion hexec v next hlength
  have hpermit := EvalState.permit_push st
    (i := ⟨(pushedItem v).read.1, (pushedItem v).read.2, next⟩) hdata hop
  have hsize : decide (1000 < (st.push v).stack.length + (st.push v).altstack.length) = false := by
    simp only [EvalState.push, halt, List.length_cons, List.length_nil, decide_eq_false_iff_not]
    omega
  rw [step, hpermit]
  change (ctx.execute 0 sigversion st _ >>= fun st' => _) = _
  rw [hrun]
  change (Traced.lift (setErrorIf _ _) >>= fun _ => (pure (st.push v) : Eval EvalState)) = _
  rw [hsize]
  rfl

theorem evalOps_pushAll (st : EvalState) {values : List Valtype} (hexec : st.vfExec = [])
    (halt : st.altstack = []) (hstack : st.stack.length + values.length ≤ 1000)
    (hvalues : ∀ v ∈ values, v.length ≤ MAX_SCRIPT_ELEMENT_SIZE)
    (hscript : (scriptOf (values.map pushedItem)).length < 2 ^ 32) :
    ctx.evalOps 0 sigversion (instructions (scriptOf (values.map pushedItem))) st =
      pure { st with stack := values.reverse ++ st.stack } := by
  induction values generalizing st with
  | nil => rfl
  | cons v values ih =>
    rw [List.forall_mem_cons] at hvalues
    rw [List.length_cons] at hstack
    have hsplit : scriptOf ((v :: values).map pushedItem) =
        (pushedItem v).script ++ scriptOf (values.map pushedItem) := List.flatMap_cons
    have hrest : (scriptOf (values.map pushedItem)).length < 2 ^ 32 := by
      rw [hsplit, List.length_append] at hscript
      omega
    have hfExec : st.fExec = true := by
      rw [EvalState.fExec, hexec]
      rfl
    have hstep := ctx.step_pushedItem sigversion hfExec halt (by omega) hvalues.1
      (scriptOf (values.map pushedItem))
    have hrun := ih (st.push v) hexec halt
      (by rw [EvalState.push, List.length_cons]; omega) hvalues.2 hrest
    rw [hsplit] at hscript ⊢
    rw [instructions_script (pushedItem_short hvalues.1) hscript, evalOps, hstep]
    change ctx.evalOps 0 sigversion _ (st.push v) = _
    rw [hrun, List.reverse_cons, List.append_assoc]
    rfl

theorem evalScript_pushAll {values : List Valtype} (hcount : values.length ≤ 1000)
    (hvalues : ∀ v ∈ values, v.length ≤ MAX_SCRIPT_ELEMENT_SIZE)
    (hscript : (PushAll values).length ≤ 10000) :
    ctx.evalScript 0 sigversion [] (PushAll values) = pure values.reverse := by
  have hsize : decide (10000 < (PushAll values).length) = false := by
    rw [decide_eq_false_iff_not]
    omega
  have hrun := ctx.evalOps_pushAll sigversion ⟨[], [], [], 0, PushAll values⟩ rfl rfl
    (by simpa using hcount) hvalues (by rw [← PushAll_eq]; omega)
  rw [← PushAll_eq] at hrun
  rw [evalScript, hsize]
  change (ctx.evalOps 0 sigversion _ _ >>= fun st => _) = _
  rw [hrun, List.append_nil]
  rfl

end ScriptContext

-- The stack holds its top first, so the list on it is reversed.
theorem pushes_parse_back (ctx : ScriptContext) (sigversion : SigVersion) :
    (∀ items : List Pushed, (∀ item ∈ items, item.Short) →
      (getOps items.length (scriptOf items) = some (items.map Pushed.read, []) ↔ Readable items)) ∧
    (∀ items : List Pushed, (scriptOf items).length < 2 ^ 32 → Readable items) ∧
    (∀ b : Valtype, b.length < 2 ^ 32 →
      (Pushed.vch b).read.1 ≤ OP_PUSHDATA4 ∧ (Pushed.vch b).read.2 = b) ∧
    (∀ n : Int, -2 ^ 63 < n → n < 2 ^ 63 → readNumber (Pushed.int64 n).read = some n) ∧
    (∀ values : List Valtype, values.length ≤ 1000 →
      (∀ v ∈ values, v.length ≤ MAX_SCRIPT_ELEMENT_SIZE) → (PushAll values).length ≤ 10000 →
      ctx.evalScript 0 sigversion [] (PushAll values) = pure values.reverse) := by
  refine ⟨fun items => getOps_scriptOf, fun items => readable_of_short, ?_,
    fun n => readNumber_read, fun values => ctx.evalScript_pushAll sigversion⟩
  intro b hb
  exact ⟨(pushHeader_spec hb).1, rfl⟩

theorem pushes_parse_back_mixed :
    digestContext.evalScript 0 .SIGVERSION_BASE [] (PushAll [[7], [], [1, 2]]) =
        pure [[1, 2], [], [7]] ∧
      getOps 3 (scriptOf [.vch [1, 2], .int64 (-1), .int64 500]) =
        some ([(2, [1, 2]), (OP_1NEGATE, []), (2, [0xf4, 0x01])], []) := by
  obtain ⟨hparse, hreadable, -, -, heval⟩ := pushes_parse_back digestContext .SIGVERSION_BASE
  refine ⟨heval [[7], [], [1, 2]] (by decide) (by decide) (by decide), ?_⟩
  refine (hparse [.vch [1, 2], .int64 (-1), .int64 500] ?_).mpr (hreadable _ (by decide))
  simp [Pushed.Short]

-- After the first push 2^32 bytes are left, which the cast to 32 bits takes for none.
theorem push_lost_past_four_gigabytes :
    (List.replicate (2 ^ 32 - 6) (0 : UInt8)).length < 2 ^ 32 ∧
      getOps 2 (scriptOf [.vch [0x05], .vch (List.replicate (2 ^ 32 - 6) 0)]) = none := by
  have hlength : (List.replicate (2 ^ 32 - 6) (0 : UInt8)).length = 2 ^ 32 - 6 :=
    List.length_replicate
  refine ⟨by omega, ?_⟩
  generalize List.replicate (2 ^ 32 - 6) (0 : UInt8) = b at hlength
  have hscript : scriptOf [.vch [0x05], .vch b] = (Pushed.vch [0x05]).script ++ pushData b := by
    simp [scriptOf, Pushed.script]
  have hrest : (pushData b).length = 2 ^ 32 - 1 := by
    rw [pushData, pushHeader, List.length_append, hlength]
    rfl
  have hread : (Pushed.vch [0x05]).read.2.length = 1 := rfl
  have hshort : (Pushed.vch [0x05]).Short := Nat.lt_of_lt_of_le (by decide) (Nat.le_refl _)
  rw [hscript, getOps, getOp32_script hshort, hread, hrest, if_neg (by decide)]
  rfl

end AnkerNode
