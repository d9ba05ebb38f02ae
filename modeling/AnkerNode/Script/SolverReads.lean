import AnkerNode.Script.Solver

namespace AnkerNode

open Checks

-- The solver and its callers with every read of the script and of the solutions written out.
namespace Reads

inductive Fault
  | outsideScript
  | outsideSolutions
  | outsideDestination
  | uint_error
  | assertion
  | endless
deriving DecidableEq, Repr

def OP_SMALLINTEGER : UInt8 := 0xfa

def OP_PUBKEYS : UInt8 := 0xfb

def OP_TIME : UInt8 := 0xfc

def OP_PUBKEYHASH : UInt8 := 0xfd

def OP_PUBKEY : UInt8 := 0xfe

section Script

-- the `n` bytes from the iterator `pc` on
def bytesAt (pc : CScript) (n : Nat) : Except Fault Valtype :=
  if pc.length < n then .error .outsideScript else .ok (pc.take n)

def byteAt (s : CScript) (i : Nat) : Except Fault UInt8 := fromOption .outsideScript s[i]?

-- `vector(s.begin() + first, s.begin() + last)`
def slice (s : CScript) (first last : Nat) : Except Fault Valtype :=
  if first ≤ last ∧ last ≤ s.length then .ok ((s.take last).drop first) else .error .outsideScript

def getOp : CScript → Except Fault (Option Instruction)
  | [] => .ok none
  | opcode :: pc =>
    if opcode ≤ CScript.OP_PUSHDATA4 then
      if pc.length < CScript.sizeWidth opcode then .ok none
      else do
        let size ← bytesAt pc (CScript.sizeWidth opcode)
        let nSize := if opcode < CScript.OP_PUSHDATA1 then opcode.toNat else littleEndian size
        let pc := pc.drop (CScript.sizeWidth opcode)
        if pc.length < nSize then .ok none
        else do
          let vch ← bytesAt pc nSize
          .ok (some ⟨opcode, vch, pc.drop nSize⟩)
    else .ok (some ⟨opcode, [], pc⟩)

-- where a `GetOp` that fails leaves the iterator
def stoppedAt : CScript → CScript
  | [] => []
  | opcode :: pc =>
    if pc.length < CScript.sizeWidth opcode then pc else pc.drop (CScript.sizeWidth opcode)

def decodeOP_N (opcode : UInt8) : Except Fault Nat :=
  if opcode = OP_0 ∨ OP_1 ≤ opcode ∧ opcode ≤ OP_16 then .ok (DecodeOP_N opcode)
  else .error .assertion

def byteIs (s : CScript) (i : Nat) (b : UInt8) : Except Fault Bool := do
  let read ← byteAt s i
  .ok (read == b)

def also (x y : Except Fault Bool) : Except Fault Bool := do
  let holds ← x
  if holds then y else .ok false

def isPayToScriptHash (s : CScript) : Except Fault Bool :=
  also (.ok (s.length == 23)) (also (byteIs s 0 OP_HASH160)
    (also (byteIs s 1 0x14) (byteIs s 22 OP_EQUAL)))

def isZerocoinMint (s : CScript) : Except Fault Bool :=
  also (.ok (decide (0 < s.length))) (byteIs s 0 OP_ZEROCOINMINT)

def isWitnessProgram (s : CScript) : Except Fault (Option (Nat × Valtype)) :=
  if s.length < 4 ∨ 42 < s.length then .ok none
  else do
    let version ← byteAt s 0
    if version ≠ OP_0 ∧ (version < OP_1 ∨ OP_16 < version) then .ok none
    else do
      let size ← byteAt s 1
      if size.toNat + 2 = s.length then do
        let version ← decodeOP_N version
        let program ← slice s 2 s.length
        .ok (some (version, program))
      else .ok none

def isPushOnlyFrom : Nat → CScript → Except Fault Bool
  | 0, _ => .error .endless
  | fuel + 1, pc =>
    if pc.isEmpty then .ok true
    else do
      let op ← getOp pc
      match op with
      | none => .ok false
      | some i => if OP_16 < i.opcode then .ok false else isPushOnlyFrom fuel i.next

def isNullData (s : CScript) : Except Fault Bool :=
  also (.ok (decide (1 ≤ s.length))) (also (byteIs s 0 OP_RETURN)
    (isPushOnlyFrom (s.length + 1) (s.drop 1)))

end Script

section Templates

def mTemplates : List (Txnouttype × CScript) :=
  [(.TX_PUBKEY, [OP_PUBKEY, OP_CHECKSIG]),
    (.TX_PUBKEYHASH, [OP_DUP, OP_HASH160, OP_PUBKEYHASH, OP_EQUALVERIFY, OP_CHECKSIG]),
    (.TX_PUBKEYHASH, [OP_DUP, OP_HASH160, OP_PUBKEYHASH, OP_EQUAL, OP_IF, OP_CHECKSIG, OP_ELSE,
      OP_TIME, OP_NOP3, OP_DROP, OP_DUP, OP_HASH160, OP_PUBKEYHASH, OP_EQUALVERIFY, OP_CHECKSIG,
      OP_ENDIF]),
    (.TX_MULTISIG, [OP_SMALLINTEGER, OP_PUBKEYS, OP_SMALLINTEGER, OP_CHECKMULTISIG])]

structure Scan where
  pc1 : CScript
  opcode1 : UInt8
  vch1 : Valtype
  vSolutions : List Valtype
deriving DecidableEq, Repr

def scanPubKeys : Nat → Scan → Except Fault Scan
  | 0, _ => .error .endless
  | fuel + 1, scan =>
    if 33 ≤ scan.vch1.length ∧ scan.vch1.length ≤ 65 then do
      let vSolutions := scan.vSolutions ++ [scan.vch1]
      let op ← getOp scan.pc1
      match op with
      | none => .ok ⟨stoppedAt scan.pc1, CScript.OP_INVALIDOPCODE, [], vSolutions⟩
      | some i => scanPubKeys fuel ⟨i.next, i.opcode, i.data, vSolutions⟩
    else .ok scan

-- one opcode of the script beside one of the template; `none` is a `break`
def compareOp (scan : Scan) (op2 : Instruction) : Except Fault (Option (List Valtype)) :=
  if op2.opcode = OP_PUBKEY then
    if scan.vch1.length < 33 ∨ 65 < scan.vch1.length then .ok none
    else .ok (some (scan.vSolutions ++ [scan.vch1]))
  else if op2.opcode = OP_PUBKEYHASH then
    if scan.vch1.length ≠ 20 then .ok none else .ok (some (scan.vSolutions ++ [scan.vch1]))
  else if op2.opcode = OP_TIME then .ok (some (scan.vSolutions ++ [scan.vch1]))
  else if op2.opcode = OP_SMALLINTEGER then
    if scan.opcode1 = OP_0 ∨ OP_1 ≤ scan.opcode1 ∧ scan.opcode1 ≤ OP_16 then do
      let n ← decodeOP_N scan.opcode1
      .ok (some (scan.vSolutions ++ [[UInt8.ofNat n]]))
    else .ok none
  else if scan.opcode1 ≠ op2.opcode ∨ scan.vch1 ≠ op2.data then .ok none
  else .ok (some scan.vSolutions)

-- `OP_PUBKEYS` takes keys from the script and leaves the opcode after both to the comparison
def afterPubKeys (scan : Scan) (op2 : Instruction) : Except Fault (Scan × Option Instruction) :=
  if op2.opcode = OP_PUBKEYS then do
    let scan ← scanPubKeys (scan.pc1.length + 2) scan
    let op2 ← getOp op2.next
    .ok (scan, op2)
  else .ok (scan, some op2)

def compare : Nat → CScript → CScript → List Valtype → Except Fault (Option (List Valtype))
  | 0, _, _, _ => .error .endless
  | fuel + 1, pc1, pc2, vSolutions =>
    if pc1.isEmpty && pc2.isEmpty then .ok (some vSolutions)
    else do
    let op1 ← getOp pc1
    match op1 with
    | none => .ok none
    | some op1 => do
    let op2 ← getOp pc2
    match op2 with
    | none => .ok none
    | some op2 => do
    let next ← afterPubKeys ⟨op1.next, op1.opcode, op1.data, vSolutions⟩ op2
    match next with
    | (_, none) => .ok none
    | (scan, some op2) => do
    let vSolutions ← compareOp scan op2
    match vSolutions with
    | none => .ok none
    | some vSolutions => compare fuel scan.pc1 op2.next vSolutions

-- `vSolutions[i]`, and the first byte of a solution
def solutionAt (vSolutions : List Valtype) (i : Nat) : Except Fault Valtype :=
  fromOption .outsideSolutions vSolutions[i]?

def back (vSolutions : List Valtype) : Except Fault Valtype :=
  fromOption .outsideSolutions vSolutions.getLast?

def firstByte (vch : Valtype) : Except Fault UInt8 := fromOption .outsideSolutions vch[0]?

-- `size() - 2` wraps below two solutions and then equals no byte
def multisigChecks (vSolutions : List Valtype) : Except Fault (Option (Txnouttype × List Valtype)) := do
  let m ← solutionAt vSolutions 0 >>= firstByte
  let n ← back vSolutions >>= firstByte
  if m < 1 ∨ n < 1 ∨ n < m ∨ vSolutions.length ≠ n.toNat + 2 then .ok none
  else .ok (some (.TX_MULTISIG, vSolutions))

def scanTemplates (script1 : CScript) :
    List (Txnouttype × CScript) → Except Fault (Option (Txnouttype × List Valtype))
  | [] => .ok none
  | (typeRet, script2) :: tplates => do
    let found ← compare (script1.length + 1) script1 script2 []
    match found with
    | none => scanTemplates script1 tplates
    | some vSolutions =>
      if typeRet = .TX_MULTISIG then multisigChecks vSolutions else .ok (some (typeRet, vSolutions))

end Templates

def solver (scriptPubKey : CScript) : Except Fault (Option (Txnouttype × List Valtype)) := do
  let scripthash ← isPayToScriptHash scriptPubKey
  if scripthash then do
    let hashBytes ← slice scriptPubKey 2 22
    .ok (some (.TX_SCRIPTHASH, [hashBytes]))
  else do
  let mint ← isZerocoinMint scriptPubKey
  if mint then
    if 150 < scriptPubKey.length then .ok none
    else do
      let hashBytes ← slice scriptPubKey 2 scriptPubKey.length
      .ok (some (.TX_ZEROCOINMINT, [hashBytes]))
  else do
  let witness ← isWitnessProgram scriptPubKey
  match witness with
  | some (version, program) => .ok (CScript.solveWitness version program)
  | none => do
  let data ← isNullData scriptPubKey
  if data then .ok (some (.TX_NULL_DATA, [])) else scanTemplates scriptPubKey mTemplates

section Script

variable {s : CScript}

theorem also_eq {x y : Except Fault Bool} {a b : Bool} (hx : x = .ok a)
    (hy : a = true → y = .ok b) : also x y = .ok (a && b) := by
  subst hx
  cases a with
  | false => rfl
  | true => exact hy rfl

theorem byteAt_eq {i : Nat} (h : i < s.length) : byteAt s i = .ok s[i] := by
  rw [byteAt, List.getElem?_eq_getElem h, fromOption]

theorem byteIs_eq {i : Nat} (h : i < s.length) (b : UInt8) :
    byteIs s i b = .ok (s[i]? == some b) := by
  rw [byteIs, byteAt_eq h, List.getElem?_eq_getElem h]
  rfl

theorem bytesAt_eq {pc : CScript} {n : Nat} (h : ¬pc.length < n) : bytesAt pc n = .ok (pc.take n) :=
  if_neg h

theorem slice_eq {first last : Nat} (hle : first ≤ last) (hlen : last ≤ s.length) :
    slice s first last = .ok ((s.take last).drop first) :=
  if_pos ⟨hle, hlen⟩

theorem getOp_eq (pc : CScript) : getOp pc = .ok (CScript.getOp2 pc) := by
  cases pc with
  | nil => rfl
  | cons opcode pc =>
    rw [getOp, CScript.getOp2]
    by_cases hpush : opcode ≤ CScript.OP_PUSHDATA4
    · rw [if_pos hpush, if_pos hpush]
      by_cases hwidth : pc.length < CScript.sizeWidth opcode
      · rw [if_pos hwidth, if_pos hwidth]
      · rw [if_neg hwidth, if_neg hwidth, bytesAt_eq hwidth]
        change (if _ < CScript.readSize opcode pc then _ else _) = _
        by_cases hsize : (pc.drop (CScript.sizeWidth opcode)).length < CScript.readSize opcode pc
        · rw [if_pos hsize, if_pos hsize]
        · rw [if_neg hsize, if_neg hsize]
          change (bytesAt _ (CScript.readSize opcode pc) >>= _) = _
          rw [bytesAt_eq hsize]
          rfl
    · rw [if_neg hpush, if_neg hpush]

theorem decodeOP_N_eq {opcode : UInt8} (h : opcode = OP_0 ∨ OP_1 ≤ opcode ∧ opcode ≤ OP_16) :
    decodeOP_N opcode = .ok (DecodeOP_N opcode) :=
  if_pos h

theorem isPayToScriptHash_eq (s : CScript) : isPayToScriptHash s = .ok s.isPayToScriptHash := by
  rw [isPayToScriptHash, CScript.isPayToScriptHash, Bool.and_assoc, Bool.and_assoc]
  refine also_eq rfl fun hlen => ?_
  have hlen : s.length = 23 := by simpa using hlen
  exact also_eq (byteIs_eq (by omega) _) fun _ => also_eq (byteIs_eq (by omega) _) fun _ =>
    byteIs_eq (by omega) _

theorem isZerocoinMint_eq (s : CScript) :
    isZerocoinMint s = .ok (decide (s.head? = some OP_ZEROCOINMINT)) := by
  cases s with
  | nil => rfl
  | cons b s =>
    rw [isZerocoinMint, also_eq rfl fun _ => byteIs_eq (Nat.zero_lt_succ _) _]
    simp [beq_eq_decide]

theorem isWitnessProgram_eq (s : CScript) : isWitnessProgram s = .ok s.isWitnessProgram := by
  match s with
  | [] => rfl
  | [_] => rfl
  | version :: size :: program =>
    rw [isWitnessProgram, CScript.isWitnessProgram]
    by_cases hlen : (version :: size :: program).length < 4 ∨
        42 < (version :: size :: program).length
    · rw [if_pos hlen, if_pos hlen]
    rw [if_neg hlen, if_neg hlen, byteAt_eq (Nat.zero_lt_succ _)]
    change (if version ≠ OP_0 ∧ (version < OP_1 ∨ OP_16 < version) then _ else _) = _
    by_cases hversion : version ≠ OP_0 ∧ (version < OP_1 ∨ OP_16 < version)
    · rw [if_pos hversion, if_pos hversion]
    have hdecode : version = OP_0 ∨ OP_1 ≤ version ∧ version ≤ OP_16 := by
      rw [not_and_or, not_not, not_or, UInt8.not_lt, UInt8.not_lt] at hversion
      exact hversion
    rw [if_neg hversion, if_neg hversion, byteAt_eq (by simp)]
    change (if size.toNat + 2 = _ then decodeOP_N version >>= _ else _) = _
    rw [decodeOP_N_eq hdecode, slice_eq (by simp) (Nat.le_refl _), List.take_length]
    split <;> rfl

theorem isPushOnlyFrom_eq {fuel : Nat} {pc : CScript} (h : pc.length < fuel) :
    isPushOnlyFrom fuel pc = .ok pc.isPushOnly := by
  induction fuel generalizing pc with
  | zero => exact absurd h (Nat.not_lt_zero _)
  | succ fuel ih =>
    cases pc with
    | nil => rfl
    | cons b pc =>
      rw [isPushOnlyFrom, getOp_eq, CScript.isPushOnly]
      cases hop : CScript.getOp2 (b :: pc) with
      | none =>
        rw [CScript.instructions_of_bad hop]
        rfl
      | some i =>
        have hlt := CScript.getOp2_next_lt hop
        rw [CScript.instructions_of_getOp2 hop]
        change (if OP_16 < i.opcode then _ else _) = _
        by_cases hpush : OP_16 < i.opcode
        · simp [hpush, UInt8.not_le.mpr hpush]
        · rw [if_neg hpush, ih (by omega), CScript.isPushOnly]
          simp [UInt8.not_lt.mp hpush]

theorem isNullData_eq (s : CScript) : isNullData s = .ok s.isNullData := by
  cases s with
  | nil => rfl
  | cons b rest =>
    have hpush : isPushOnlyFrom ((b :: rest).length + 1) ((b :: rest).drop 1) =
        .ok (CScript.isPushOnly rest) :=
      isPushOnlyFrom_eq (by simp only [List.drop_one, List.tail_cons, List.length_cons]; omega)
    have hread : byteIs (b :: rest) 0 OP_RETURN = .ok (b == OP_RETURN) := rfl
    have hsize : Except.ok (decide (1 ≤ (b :: rest).length)) = Except.ok (ε := Fault) true := rfl
    rw [isNullData, also_eq hsize fun _ => also_eq hread fun _ => hpush, Bool.true_and]
    rfl

end Script

section Templates

def templateByte : TemplateOp → UInt8
  | .opcode b => b
  | .OP_PUBKEY => OP_PUBKEY
  | .OP_PUBKEYHASH => OP_PUBKEYHASH
  | .OP_TIME => OP_TIME

-- an opcode that stands for itself in a template
def Plain : TemplateOp → Prop
  | .opcode b => CScript.OP_PUSHDATA4 < b ∧ b < OP_SMALLINTEGER
  | _ => True

instance (op : TemplateOp) : Decidable (Plain op) := by
  cases op <;> unfold Plain <;> infer_instance

theorem templateByte_plain {op : TemplateOp} (h : Plain op) :
    CScript.OP_PUSHDATA4 < templateByte op ∧ templateByte op ≠ OP_PUBKEYS := by
  cases op with
  | opcode b =>
    refine ⟨h.1, ?_⟩
    rintro rfl
    exact absurd h.2 (by decide)
  | _ => decide

theorem compareOp_plain {op : TemplateOp} (h : Plain op) (i : Instruction)
    (vSolutions : List Valtype) (rest : CScript) :
    compareOp ⟨i.next, i.opcode, i.data, vSolutions⟩ ⟨templateByte op, [], rest⟩ =
      .ok ((op.solutions i).map (vSolutions ++ ·)) := by
  cases op with
  | opcode b =>
    have hne : b ≠ OP_PUBKEY ∧ b ≠ OP_PUBKEYHASH ∧ b ≠ OP_TIME ∧ b ≠ OP_SMALLINTEGER := by
      refine ⟨?_, ?_, ?_, ?_⟩ <;> rintro rfl <;> exact absurd h.2 (by decide)
    simp only [compareOp, templateByte, hne, if_false, TemplateOp.solutions]
    by_cases hop : i.opcode = b
    · by_cases hdata : i.data = [] <;> simp [hop, hdata]
    · simp [hop]
  | OP_PUBKEY =>
    simp only [compareOp, templateByte, if_true, TemplateOp.solutions]
    split <;> rfl
  | OP_PUBKEYHASH =>
    have hne : OP_PUBKEYHASH ≠ OP_PUBKEY := by decide
    simp only [compareOp, templateByte, hne, if_false, if_true, TemplateOp.solutions]
    by_cases hsize : i.data.length = 20
    · simp [hsize]
    · simp [hsize]
  | OP_TIME => rfl

-- one turn of the loop beside an opcode of the template other than `OP_PUBKEYS`
theorem compare_cons {fuel : Nat} {b : UInt8} (hb : CScript.OP_PUSHDATA4 < b) (hkeys : b ≠ OP_PUBKEYS)
    (pc1 rest : CScript) (vSolutions : List Valtype) :
    compare (fuel + 1) pc1 (b :: rest) vSolutions =
      (match CScript.getOp2 pc1 with
      | none => .ok none
      | some i => do
        let vSolutions ← compareOp ⟨i.next, i.opcode, i.data, vSolutions⟩ ⟨b, [], rest⟩
        match vSolutions with
        | none => .ok none
        | some vSolutions => compare fuel i.next rest vSolutions) := by
  have hread : CScript.getOp2 (b :: rest) = some ⟨b, [], rest⟩ := if_neg (UInt8.not_le.mpr hb)
  rw [compare, getOp_eq, getOp_eq, hread]
  simp only [List.isEmpty_cons, Bool.and_false, Bool.false_eq_true, if_false]
  cases CScript.getOp2 pc1 with
  | none => rfl
  | some i =>
    have hnext : ∀ scan : Scan, afterPubKeys scan ⟨b, [], rest⟩ = .ok (scan, some ⟨b, [], rest⟩) :=
      fun _ => if_neg hkeys
    change (afterPubKeys _ _ >>= _) = _
    rw [hnext]
    rfl

-- A template without `OP_PUBKEYS` and small integers is matched opcode by opcode.
theorem compare_template {template : List TemplateOp} (h : ∀ op ∈ template, Plain op) {fuel : Nat}
    {pc1 : CScript} (hfuel : pc1.length < fuel) (vSolutions : List Valtype) :
    compare fuel pc1 (template.map templateByte) vSolutions =
      .ok ((matchTemplate template pc1.instructions).map (vSolutions ++ ·)) := by
  induction template generalizing fuel pc1 vSolutions with
  | nil =>
    obtain ⟨fuel, rfl⟩ := Nat.exists_eq_add_one_of_ne_zero (Nat.ne_of_gt (Nat.zero_lt_of_lt hfuel))
    cases pc1 with
    | nil => simp [compare, CScript.instructions_nil, matchTemplate]
    | cons b pc1 =>
      rw [List.map_nil, compare, getOp_eq]
      cases hop : CScript.getOp2 (b :: pc1) with
      | none =>
        rw [CScript.instructions_of_bad hop]
        rfl
      | some i =>
        rw [CScript.instructions_of_getOp2 hop]
        rfl
  | cons op template ih =>
    obtain ⟨fuel, rfl⟩ := Nat.exists_eq_add_one_of_ne_zero (Nat.ne_of_gt (Nat.zero_lt_of_lt hfuel))
    obtain ⟨hop, htemplate⟩ := List.forall_mem_cons.mp h
    have hbyte := templateByte_plain hop
    rw [List.map_cons, compare_cons hbyte.1 hbyte.2]
    cases hread : CScript.getOp2 pc1 with
    | none =>
      cases pc1 with
      | nil => rfl
      | cons b pc1 =>
        rw [CScript.instructions_of_bad hread]
        rfl
    | some i =>
      have hlt := CScript.getOp2_next_lt hread
      rw [CScript.instructions_of_getOp2 hread]
      simp only [compareOp_plain hop, matchTemplate]
      cases op.solutions i with
      | none => rfl
      | some vch =>
        change compare fuel i.next _ (vSolutions ++ vch) = _
        rw [ih htemplate (by omega)]
        cases matchTemplate template i.next.instructions with
        | none => rfl
        | some rest => simp

-- The loop takes the keys `takePubKeys` takes, and stops at the opcode after them if one is read.
theorem scanPubKeys_eq {fuel : Nat} {i : Instruction} (hfuel : i.next.length + 1 < fuel)
    (vSolutions : List Valtype) :
    ∃ scan, scanPubKeys fuel ⟨i.next, i.opcode, i.data, vSolutions⟩ = .ok scan ∧
      scan.vSolutions =
        vSolutions ++ (CScript.takePubKeys (some i :: i.next.instructions)).1 ∧
      ((∃ j, (CScript.takePubKeys (some i :: i.next.instructions)).2 =
          some j :: j.next.instructions ∧ j.next.length ≤ i.next.length ∧
          scan = ⟨j.next, j.opcode, j.data, scan.vSolutions⟩) ∨
        scan.opcode1 = CScript.OP_INVALIDOPCODE ∧
          (CScript.takePubKeys (some i :: i.next.instructions)).2.length ≤ 1) := by
  induction fuel generalizing i vSolutions with
  | zero => exact absurd hfuel (Nat.not_lt_zero _)
  | succ fuel ih =>
    rw [scanPubKeys]
    by_cases hkey : i.data.length < 33 ∨ 65 < i.data.length
    · have htake : CScript.takePubKeys (some i :: i.next.instructions) =
          ([], some i :: i.next.instructions) := by
        rw [CScript.takePubKeys, if_pos hkey]
      have hstop : ¬(33 ≤ i.data.length ∧ i.data.length ≤ 65) := by omega
      rw [if_neg hstop, htake]
      exact ⟨_, rfl, (List.append_nil _).symm, .inl ⟨i, rfl, Nat.le_refl _, rfl⟩⟩
    · have htake : CScript.takePubKeys (some i :: i.next.instructions) =
          (i.data :: (CScript.takePubKeys i.next.instructions).1,
            (CScript.takePubKeys i.next.instructions).2) := by
        rw [CScript.takePubKeys, if_neg hkey]
      have hturn : 33 ≤ i.data.length ∧ i.data.length ≤ 65 := by omega
      rw [if_pos hturn, htake, getOp_eq]
      cases hop : CScript.getOp2 i.next with
      | none =>
        have hrest : (CScript.takePubKeys i.next.instructions).1 = [] ∧
            (CScript.takePubKeys i.next.instructions).2.length ≤ 1 := by
          cases hnext : i.next with
          | nil => exact ⟨rfl, Nat.zero_le _⟩
          | cons b pc =>
            rw [hnext] at hop
            rw [CScript.instructions_of_bad hop]
            exact ⟨rfl, Nat.le_refl _⟩
        rw [hrest.1]
        exact ⟨_, rfl, rfl, .inr ⟨rfl, hrest.2⟩⟩
      | some j =>
        have hlt := CScript.getOp2_next_lt hop
        rw [CScript.instructions_of_getOp2 hop]
        obtain ⟨scan, hscan, hvch, hcases⟩ := ih (i := j) (by omega) (vSolutions ++ [i.data])
        refine ⟨scan, hscan, by rw [hvch, List.append_assoc, List.singleton_append], ?_⟩
        rcases hcases with ⟨k, hrest, hle, heq⟩ | hend
        · exact .inl ⟨k, hrest, by omega, heq⟩
        · exact .inr hend

theorem compareOp_smallInteger (scan : Scan) (rest : CScript) :
    compareOp scan ⟨OP_SMALLINTEGER, [], rest⟩ =
      .ok ((CScript.smallInteger scan.opcode1).map fun n => scan.vSolutions ++ [[n]]) := by
  have hne : OP_SMALLINTEGER ≠ OP_PUBKEY ∧ OP_SMALLINTEGER ≠ OP_PUBKEYHASH ∧
      OP_SMALLINTEGER ≠ OP_TIME := by decide
  simp only [compareOp, hne, if_false, if_true, CScript.smallInteger]
  by_cases hop : scan.opcode1 = OP_0 ∨ OP_1 ≤ scan.opcode1 ∧ scan.opcode1 ≤ OP_16
  · rw [if_pos hop, if_pos hop, decodeOP_N_eq hop]
    rfl
  · rw [if_neg hop, if_neg hop]
    rfl

-- what `matchMultisig` asks of the opcodes after the keys
def multisigEnd : List (Option Instruction) → Option UInt8
  | [some j, some k] => do
    let n ← CScript.smallInteger j.opcode
    if k.opcode = OP_CHECKMULTISIG ∧ k.data = [] then some n else none
  | _ => none

theorem multisigEnd_short {ops : List (Option Instruction)} (h : ops.length ≤ 1) :
    multisigEnd ops = none := by
  match ops with
  | [] => rfl
  | [none] => rfl
  | [some _] => rfl

theorem matchMultisig_cons (i : Instruction) (ops : List (Option Instruction)) :
    CScript.matchMultisig (some i :: ops) =
      (CScript.smallInteger i.opcode).bind fun m =>
        (multisigEnd (CScript.takePubKeys ops).2).map fun n =>
          (m, (CScript.takePubKeys ops).1, n) := by
  rw [CScript.matchMultisig]
  cases CScript.smallInteger i.opcode with
  | none => rfl
  | some m =>
    obtain ⟨vch, rest⟩ := CScript.takePubKeys ops
    change _ = (multisigEnd rest).map fun n => (m, vch, n)
    match rest with
    | [] => rfl
    | [none] => rfl
    | [some _] => rfl
    | none :: _ :: _ => rfl
    | some _ :: none :: _ => rfl
    | some _ :: some _ :: _ :: _ => rfl
    | [some j, some k] =>
      simp only [Option.bind_eq_bind, Option.bind_some, multisigEnd]
      cases CScript.smallInteger j.opcode with
      | none => rfl
      | some n =>
        by_cases hend : k.opcode = OP_CHECKMULTISIG ∧ k.data = []
        · simp [hend]
        · simp [hend]

theorem matchTemplate_last_opcode {b : UInt8} {ops : List (Option Instruction)} {vch : List Valtype}
    (h : matchTemplate [.opcode b] ops = some vch) : vch = [] := by
  obtain ⟨ops', hnil⟩ := CScript.matchTemplate_opcode h
  cases ops' with
  | nil => exact (Option.some.inj hnil).symm
  | cons op ops' => cases hnil

theorem multisigEnd_cons (j : Instruction) (ops : List (Option Instruction)) :
    multisigEnd (some j :: ops) = (CScript.smallInteger j.opcode).bind fun n =>
      (matchTemplate [.opcode OP_CHECKMULTISIG] ops).map fun _ => n := by
  match ops with
  | [] => simp [multisigEnd, matchTemplate]
  | [none] => simp [multisigEnd, matchTemplate]
  | none :: _ :: _ => simp [multisigEnd, matchTemplate]
  | [some k] =>
    rw [multisigEnd]
    cases CScript.smallInteger j.opcode with
    | none => rfl
    | some n =>
      by_cases hend : k.opcode = OP_CHECKMULTISIG ∧ k.data = []
      · simp [hend, matchTemplate, TemplateOp.solutions]
      · simp [hend, matchTemplate, TemplateOp.solutions]
  | some k :: op :: ops =>
    cases op <;> cases hend : TemplateOp.solutions k (.opcode OP_CHECKMULTISIG) <;>
      simp [multisigEnd, matchTemplate, hend]

theorem compare_pubKeys {fuel : Nat} {pc1 : CScript} (hfuel : pc1.length < fuel)
    (vSolutions : List Valtype) :
    compare fuel pc1 [OP_PUBKEYS, OP_SMALLINTEGER, OP_CHECKMULTISIG] vSolutions =
      .ok ((multisigEnd (CScript.takePubKeys pc1.instructions).2).map fun n =>
        vSolutions ++ (CScript.takePubKeys pc1.instructions).1 ++ [[n]]) := by
  obtain ⟨fuel, rfl⟩ := Nat.exists_eq_add_one_of_ne_zero (Nat.ne_of_gt (Nat.zero_lt_of_lt hfuel))
  rw [compare, getOp_eq, getOp_eq]
  cases hread : CScript.getOp2 pc1 with
  | none =>
    cases pc1 with
    | nil => rfl
    | cons b pc1 =>
      rw [CScript.instructions_of_bad hread]
      rfl
  | some i =>
    have hlt := CScript.getOp2_next_lt hread
    rw [CScript.instructions_of_getOp2 hread]
    obtain ⟨scan, hscan, hvch, hcases⟩ :=
      scanPubKeys_eq (i := i) (Nat.lt_succ_self (i.next.length + 1)) vSolutions
    have hnext : afterPubKeys ⟨i.next, i.opcode, i.data, vSolutions⟩
        ⟨OP_PUBKEYS, [], [OP_SMALLINTEGER, OP_CHECKMULTISIG]⟩ =
          .ok (scan, some ⟨OP_SMALLINTEGER, [], [OP_CHECKMULTISIG]⟩) := by
      rw [afterPubKeys, if_pos rfl, hscan]
      rfl
    simp only [List.isEmpty_cons, Bool.and_false, Bool.false_eq_true, if_false]
    change (afterPubKeys _ ⟨OP_PUBKEYS, [], [OP_SMALLINTEGER, OP_CHECKMULTISIG]⟩ >>= _) = _
    rw [hnext]
    change (compareOp scan ⟨OP_SMALLINTEGER, [], [OP_CHECKMULTISIG]⟩ >>= _) = _
    rw [compareOp_smallInteger, ← hvch]
    rcases hcases with ⟨j, hrest, hle, heq⟩ | ⟨hend, hshort⟩
    · have hop : scan.opcode1 = j.opcode := by rw [heq]
      have hpc : scan.pc1 = j.next := by rw [heq]
      rw [hrest, multisigEnd_cons, hop]
      cases CScript.smallInteger j.opcode with
      | none => rfl
      | some n =>
        change compare fuel scan.pc1 [OP_CHECKMULTISIG] (scan.vSolutions ++ [[n]]) = _
        have hplain : ∀ op ∈ [TemplateOp.opcode OP_CHECKMULTISIG], Plain op := by decide
        have hfuel : j.next.length < fuel := by omega
        have hlast := compare_template hplain hfuel (scan.vSolutions ++ [[n]])
        rw [hpc]
        refine hlast.trans ?_
        cases hmatch : matchTemplate [.opcode OP_CHECKMULTISIG] j.next.instructions with
        | none => rfl
        | some vch =>
          obtain rfl := matchTemplate_last_opcode hmatch
          simp
    · have hnone : CScript.smallInteger scan.opcode1 = none := by
        rw [hend]
        rfl
      rw [hnone, multisigEnd_short hshort]
      rfl

theorem compare_multisig {fuel : Nat} {pc1 : CScript} (hfuel : pc1.length < fuel) :
    compare fuel pc1 [OP_SMALLINTEGER, OP_PUBKEYS, OP_SMALLINTEGER, OP_CHECKMULTISIG] [] =
      .ok ((CScript.matchMultisig pc1.instructions).map fun keys =>
        [keys.1] :: keys.2.1 ++ [[keys.2.2]]) := by
  obtain ⟨fuel, rfl⟩ := Nat.exists_eq_add_one_of_ne_zero (Nat.ne_of_gt (Nat.zero_lt_of_lt hfuel))
  rw [compare_cons (by decide) (by decide)]
  cases hread : CScript.getOp2 pc1 with
  | none =>
    cases pc1 with
    | nil => rfl
    | cons b pc1 =>
      rw [CScript.instructions_of_bad hread]
      rfl
  | some i =>
    have hlt := CScript.getOp2_next_lt hread
    rw [CScript.instructions_of_getOp2 hread, matchMultisig_cons]
    simp only [compareOp_smallInteger]
    cases CScript.smallInteger i.opcode with
    | none => rfl
    | some m =>
      change compare fuel i.next _ [[m]] = _
      rw [compare_pubKeys (by omega), Option.bind_some, Option.map_map]
      rfl

theorem solutionAt_front (m n : UInt8) (vch : List Valtype) :
    (solutionAt ([m] :: vch ++ [[n]]) 0 >>= firstByte) = .ok m := rfl

theorem back_multisig (m n : UInt8) (vch : List Valtype) :
    (back ([m] :: vch ++ [[n]]) >>= firstByte) = .ok n := by
  rw [back, List.getLast?_concat]
  rfl

theorem multisigChecks_eq (m n : UInt8) (vch : List Valtype) :
    multisigChecks ([m] :: vch ++ [[n]]) =
      .ok (if m < 1 ∨ n < 1 ∨ n < m ∨ vch.length ≠ n.toNat then none
        else some (.TX_MULTISIG, [m] :: vch ++ [[n]])) := by
  have hlen : ([m] :: vch ++ [[n]]).length ≠ n.toNat + 2 ↔ vch.length ≠ n.toNat := by
    simp only [List.cons_append, List.length_cons, List.length_append, List.length_nil]
    omega
  rw [multisigChecks, solutionAt_front, back_multisig]
  change (if m < 1 ∨ n < 1 ∨ n < m ∨ ([m] :: vch ++ [[n]]).length ≠ n.toNat + 2 then _ else _) = _
  simp only [hlen]
  split <;> rfl

theorem scanTemplates_cons {template : List TemplateOp} (h : ∀ op ∈ template, Plain op)
    {typeRet : Txnouttype} (htype : typeRet ≠ .TX_MULTISIG) (s : CScript)
    (tplates : List (Txnouttype × CScript)) :
    scanTemplates s ((typeRet, template.map templateByte) :: tplates) =
      (match matchTemplate template s.instructions with
      | some vSolutions => .ok (some (typeRet, vSolutions))
      | none => scanTemplates s tplates) := by
  have hcompare := compare_template h (Nat.lt_succ_self s.length) []
  simp only [List.nil_append, Option.map_id'] at hcompare
  rw [scanTemplates, hcompare]
  cases matchTemplate template s.instructions with
  | none => rfl
  | some vSolutions => exact if_neg htype

theorem scanTemplates_append {templates : List (List TemplateOp)}
    (h : ∀ template ∈ templates, ∀ op ∈ template, Plain op) {typeRet : Txnouttype}
    (htype : typeRet ≠ .TX_MULTISIG) (s : CScript) (tplates : List (Txnouttype × CScript)) :
    scanTemplates s (templates.map (fun template => (typeRet, template.map templateByte)) ++ tplates) =
      (match templates.findSome? fun template => matchTemplate template s.instructions with
      | some vSolutions => .ok (some (typeRet, vSolutions))
      | none => scanTemplates s tplates) := by
  induction templates with
  | nil => rfl
  | cons template templates ih =>
    obtain ⟨htemplate, htemplates⟩ := List.forall_mem_cons.mp h
    rw [List.map_cons, List.cons_append, scanTemplates_cons htemplate htype, List.findSome?_cons]
    cases matchTemplate template s.instructions with
    | some vSolutions => rfl
    | none => exact ih htemplates

theorem scanTemplates_eq (s : CScript) : scanTemplates s mTemplates = .ok s.solveTemplates := by
  have htemplates : mTemplates = (.TX_PUBKEY, pubKeyTemplate.map templateByte) ::
      (pubKeyHashTemplates.map (fun template => (.TX_PUBKEYHASH, template.map templateByte)) ++
      [(.TX_MULTISIG, [OP_SMALLINTEGER, OP_PUBKEYS, OP_SMALLINTEGER, OP_CHECKMULTISIG])]) := rfl
  rw [htemplates, CScript.solveTemplates, scanTemplates_cons (by decide) (by decide)]
  cases matchTemplate pubKeyTemplate s.instructions with
  | some vSolutions => rfl
  | none =>
    dsimp only
    rw [scanTemplates_append (by decide) (by decide)]
    cases pubKeyHashTemplates.findSome? fun template => matchTemplate template s.instructions with
    | some vSolutions => rfl
    | none =>
      dsimp only
      rw [scanTemplates, compare_multisig (Nat.lt_succ_self _)]
      cases CScript.matchMultisig s.instructions with
      | none => rfl
      | some keys =>
        obtain ⟨m, vch, n⟩ := keys
        exact multisigChecks_eq m n vch

end Templates

-- The solver reads where nothing is in one script only.
theorem solver_eq (s : CScript) :
    solver s = if s = [OP_ZEROCOINMINT] then .error .outsideScript else .ok s.solver := by
  rw [solver, isPayToScriptHash_eq, isZerocoinMint_eq, isWitnessProgram_eq, isNullData_eq,
    CScript.solver]
  by_cases hscripthash : s.isPayToScriptHash = true
  · have hlen : s.length = 23 := by
      simp only [CScript.isPayToScriptHash, Bool.and_eq_true, beq_iff_eq] at hscripthash
      exact hscripthash.1.1.1
    have hne : s ≠ [OP_ZEROCOINMINT] := by
      rintro rfl
      cases hlen
    rw [if_neg hne, if_pos hscripthash]
    change (if s.isPayToScriptHash = true then slice s 2 22 >>= _ else _) = _
    rw [if_pos hscripthash, slice_eq (by decide) (by omega), List.drop_take]
    rfl
  rw [if_neg hscripthash]
  change (if s.isPayToScriptHash = true then _ else _) = _
  rw [if_neg hscripthash]
  change (if decide (s.head? = some OP_ZEROCOINMINT) = true then _ else _) = _
  simp only [decide_eq_true_eq]
  by_cases hmint : s.head? = some OP_ZEROCOINMINT
  · rw [if_pos hmint, if_pos hmint]
    obtain _ | ⟨b, _ | ⟨c, rest⟩⟩ := s
    · cases hmint
    · -- the vector's end lies before its beginning
      obtain rfl := Option.some.inj hmint
      rfl
    · have hne : (b :: c :: rest : CScript) ≠ [OP_ZEROCOINMINT] := by simp
      rw [if_neg hne]
      by_cases hlong : 150 < (b :: c :: rest).length
      · rw [if_pos hlong, if_pos hlong]
      · rw [if_neg hlong, if_neg hlong, slice_eq (by simp) (Nat.le_refl _), List.take_length]
        rfl
  have hne : s ≠ [OP_ZEROCOINMINT] := by
    rintro rfl
    exact hmint rfl
  rw [if_neg hmint, if_neg hmint, if_neg hne]
  cases s.isWitnessProgram with
  | some program => rfl
  | none =>
    change (if s.isNullData = true then _ else _) = _
    by_cases hdata : s.isNullData = true
    · simp only [hdata, if_true]
    · rw [if_neg hdata, scanTemplates_eq]
      simp only [hdata, Bool.false_eq_true, if_false]

end Reads

end AnkerNode
