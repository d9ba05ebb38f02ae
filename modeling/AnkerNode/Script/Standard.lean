import AnkerNode.Script.Verify

namespace AnkerNode

def OP_ELSE : UInt8 := 0x67

def OP_DROP : UInt8 := 0x75

def OP_NOP3 : UInt8 := 0xb2

inductive CTxDestination
  | CNoDestination
  | CKeyID (id : Valtype)
  | CScriptID (id : Valtype)
  | WitnessV0KeyHash (id : Valtype)
  | WitnessV0ScriptHash (id : Valtype)
  | WitnessUnknown (version : Nat) (program : Valtype)
deriving DecidableEq, Repr

inductive TemplateOp
  | opcode (b : UInt8)
  | OP_PUBKEY
  | OP_PUBKEYHASH
  | OP_TIME
deriving DecidableEq, Repr

namespace TemplateOp

-- the values a script opcode adds to `vSolutionsRet` where the template has this one
def solutions (i : Instruction) : TemplateOp → Option (List Valtype)
  | opcode b => if i.opcode = b ∧ i.data = [] then some [] else none
  | OP_PUBKEY => if i.data.length < 33 ∨ 65 < i.data.length then none else some [i.data]
  | OP_PUBKEYHASH => if i.data.length = 20 then some [i.data] else none
  | OP_TIME => some [i.data]

end TemplateOp

def matchTemplate : List TemplateOp → List (Option Instruction) → Option (List Valtype)
  | [], [] => some []
  | op :: template, some i :: ops => do
    let vch ← op.solutions i
    let vSolutions ← matchTemplate template ops
    some (vch ++ vSolutions)
  | _, _ => none

open TemplateOp in
def pubKeyTemplate : List TemplateOp := [OP_PUBKEY, opcode OP_CHECKSIG]

open TemplateOp in
def pubKeyHashTemplates : List (List TemplateOp) :=
  [[opcode OP_DUP, opcode OP_HASH160, OP_PUBKEYHASH, opcode OP_EQUALVERIFY, opcode OP_CHECKSIG],
    [opcode OP_DUP, opcode OP_HASH160, OP_PUBKEYHASH, opcode OP_EQUAL, opcode OP_IF,
      opcode OP_CHECKSIG, opcode OP_ELSE, OP_TIME, opcode OP_NOP3, opcode OP_DROP, opcode OP_DUP,
      opcode OP_HASH160, OP_PUBKEYHASH, opcode OP_EQUALVERIFY, opcode OP_CHECKSIG,
      opcode OP_ENDIF]]

-- `CPubKey::GetLen`
def pubKeyLen (chHeader : UInt8) : Nat :=
  if chHeader = 2 ∨ chHeader = 3 then 33
  else if chHeader = 4 ∨ chHeader = 6 ∨ chHeader = 7 then 65 else 0

def isValidPubKey (vch : Valtype) : Bool :=
  match vch with
  | [] => false
  | chHeader :: _ => pubKeyLen chHeader != 0 && pubKeyLen chHeader == vch.length

namespace CScript

def isNullData (s : CScript) : Bool :=
  match s with
  | [] => false
  | b :: rest => b == OP_RETURN && isPushOnly rest

def witnessDestination (version : Nat) (program : Valtype) : Option CTxDestination :=
  if version = 0 then
    if program.length = 20 then some (.WitnessV0KeyHash program)
    else if program.length = 32 then some (.WitnessV0ScriptHash program)
    else none
  else some (.WitnessUnknown version program)

def templateDestination (hash160 : Valtype → Valtype) (s : CScript) : Option CTxDestination :=
  match matchTemplate pubKeyTemplate s.instructions with
  | some vSolutions =>
    let vch := vSolutions.headD []
    if isValidPubKey vch then some (.CKeyID (hash160 vch)) else none
  | none =>
    (pubKeyHashTemplates.findSome? fun template => matchTemplate template s.instructions).map
      fun vSolutions => .CKeyID (vSolutions.headD [])

-- `ExtractDestination` with the solver it asks. A script of several keys has no single destination.
def extractDestination (hash160 : Valtype → Valtype) (scriptPubKey : CScript) :
    Option CTxDestination :=
  if scriptPubKey.isPayToScriptHash then some (.CScriptID ((scriptPubKey.drop 2).take 20))
  else if scriptPubKey.head? = some OP_ZEROCOINMINT then none
  else
    match scriptPubKey.isWitnessProgram with
    | some (version, program) => witnessDestination version program
    | none => if scriptPubKey.isNullData then none else templateDestination hash160 scriptPubKey

end CScript

def EncodeOP_N (n : Nat) : UInt8 := if n = 0 then OP_0 else UInt8.ofNat (OP_1.toNat + n - 1)

def getScriptForDestination : CTxDestination → CScript
  | .CNoDestination => []
  | .CKeyID id =>
    [OP_DUP, OP_HASH160] ++ CScript.pushData id ++ [OP_EQUALVERIFY, OP_CHECKSIG]
  | .CScriptID id => [OP_HASH160] ++ CScript.pushData id ++ [OP_EQUAL]
  | .WitnessV0KeyHash id => [OP_0] ++ CScript.pushData id
  | .WitnessV0ScriptHash id => [OP_0] ++ CScript.pushData id
  | .WitnessUnknown version program => [EncodeOP_N version] ++ CScript.pushData program

theorem getScriptForDestination_ne_nil {dest : CTxDestination} (h : dest ≠ .CNoDestination) :
    getScriptForDestination dest ≠ [] := by
  cases dest with
  | CNoDestination => exact absurd rfl h
  | _ => simp [getScriptForDestination]

namespace CScript

variable {hash160 : Valtype → Valtype} {s : CScript} {dest : CTxDestination}

theorem witnessDestination_ne {version : Nat} {program : Valtype}
    (h : witnessDestination version program = some dest) : dest ≠ .CNoDestination := by
  simp only [witnessDestination] at h
  split_ifs at h <;> cases h <;> simp

theorem templateDestination_ne (h : templateDestination hash160 s = some dest) :
    dest ≠ .CNoDestination := by
  simp only [templateDestination] at h
  split at h
  · split_ifs at h
    cases h
    simp
  · obtain ⟨vSolutions, -, rfl⟩ := Option.map_eq_some_iff.mp h
    simp

theorem extractDestination_ne (h : extractDestination hash160 s = some dest) :
    dest ≠ .CNoDestination := by
  simp only [extractDestination] at h
  by_cases hscripthash : s.isPayToScriptHash = true
  · rw [if_pos hscripthash] at h
    cases h
    simp
  · rw [if_neg hscripthash] at h
    by_cases hmint : s.head? = some OP_ZEROCOINMINT
    · rw [if_pos hmint] at h
      cases h
    · rw [if_neg hmint] at h
      cases hprogram : s.isWitnessProgram with
      | some p =>
        rw [hprogram] at h
        exact witnessDestination_ne h
      | none =>
        simp only [hprogram] at h
        split at h
        · cases h
        · exact templateDestination_ne h

theorem instructions_nil : instructions [] = [] := rfl

theorem extractDestination_witness {b size : UInt8} {program : Valtype} (hb : b = OP_0 ∨
    OP_1 ≤ b ∧ b ≤ OP_16) (hsize : size.toNat = program.length) (hmin : 2 ≤ program.length)
    (hmax : program.length ≤ 40) :
    extractDestination hash160 (b :: size :: program) =
      witnessDestination (DecodeOP_N b) program := by
  have hhash : b ≠ OP_HASH160 := by
    rintro rfl
    revert hb
    decide
  have hmint : b ≠ OP_ZEROCOINMINT := by
    rintro rfl
    revert hb
    decide
  have hscripthash : isPayToScriptHash (b :: size :: program) = false := by
    simp [isPayToScriptHash, hhash]
  have hprogram : isWitnessProgram (b :: size :: program) = some (DecodeOP_N b, program) := by
    have hversion : ¬(b ≠ OP_0 ∧ (b < OP_1 ∨ OP_16 < b)) := by
      rintro ⟨h0, h | h⟩
      · rcases hb with hb | hb
        · exact h0 hb
        · exact absurd h (UInt8.not_lt.mpr hb.1)
      · rcases hb with hb | hb
        · exact h0 hb
        · exact absurd h (UInt8.not_lt.mpr hb.2)
    simp only [isWitnessProgram, List.length_cons, if_neg hversion, hsize, if_true]
    rw [if_neg (by omega)]
  simp [extractDestination, hscripthash, hmint, hprogram]

end CScript

-- the destinations a script can name
def CTxDestination.Valid : CTxDestination → Prop
  | .CNoDestination => False
  | .CKeyID id | .CScriptID id | .WitnessV0KeyHash id => id.length = 20
  | .WitnessV0ScriptHash id => id.length = 32
  | .WitnessUnknown version program =>
    0 < version ∧ version ≤ 16 ∧ 2 ≤ program.length ∧ program.length ≤ 40

theorem CScript.pushData_short {b : Valtype} (h : b.length < 76) :
    CScript.pushData b = UInt8.ofNat b.length :: b := by
  simp [CScript.pushData, CScript.pushHeader, show b.length < CScript.OP_PUSHDATA1.toNat from h]

theorem extractDestination_keyID {hash160 : Valtype → Valtype} {id : Valtype}
    (hid : id.length = 20) :
    CScript.extractDestination hash160 (getScriptForDestination (.CKeyID id)) =
      some (.CKeyID id) := by
  have hscript : getScriptForDestination (.CKeyID id) =
      OP_DUP :: OP_HASH160 :: 20 :: (id ++ [OP_EQUALVERIFY, OP_CHECKSIG]) := by
    simp [getScriptForDestination, CScript.pushData_short (b := id) (by omega), hid]
  have hops : CScript.instructions
        (OP_DUP :: OP_HASH160 :: 20 :: (id ++ [OP_EQUALVERIFY, OP_CHECKSIG])) =
      [some ⟨OP_DUP, [], OP_HASH160 :: 20 :: (id ++ [OP_EQUALVERIFY, OP_CHECKSIG])⟩,
        some ⟨OP_HASH160, [], 20 :: (id ++ [OP_EQUALVERIFY, OP_CHECKSIG])⟩,
        some ⟨20, id, [OP_EQUALVERIFY, OP_CHECKSIG]⟩,
        some ⟨OP_EQUALVERIFY, [], [OP_CHECKSIG]⟩, some ⟨OP_CHECKSIG, [], []⟩] := by
    rw [CScript.instructions_cons (by decide), CScript.instructions_cons (by decide),
      CScript.instructions_push (by decide) hid, CScript.instructions_cons (by decide),
      CScript.instructions_cons (by decide), CScript.instructions_nil]
  have hmatch : CScript.templateDestination hash160
        (OP_DUP :: OP_HASH160 :: 20 :: (id ++ [OP_EQUALVERIFY, OP_CHECKSIG])) =
      some (.CKeyID id) := by
    simp [CScript.templateDestination, hops, pubKeyTemplate, pubKeyHashTemplates, matchTemplate,
      TemplateOp.solutions, hid]
  have hwitness : CScript.isWitnessProgram
        (OP_DUP :: OP_HASH160 :: 20 :: (id ++ [OP_EQUALVERIFY, OP_CHECKSIG])) = none := by
    have hversion : OP_DUP ≠ OP_0 ∧ (OP_DUP < OP_1 ∨ OP_16 < OP_DUP) := by decide
    simp [CScript.isWitnessProgram, hversion]
  rw [hscript, CScript.extractDestination, hwitness, hmatch]
  simp [CScript.isPayToScriptHash, CScript.isNullData, hid,
    show OP_DUP ≠ OP_ZEROCOINMINT by decide, show OP_DUP ≠ OP_RETURN by decide]

theorem extractDestination_getScriptForDestination (hash160 : Valtype → Valtype)
    {dest : CTxDestination} (h : dest.Valid) :
    CScript.extractDestination hash160 (getScriptForDestination dest) = some dest := by
  cases dest with
  | CNoDestination => exact h.elim
  | CKeyID id => exact extractDestination_keyID h
  | CScriptID id =>
    have hlen : id.length = 20 := h
    have hscript : CScript.isPayToScriptHash (OP_HASH160 :: 20 :: (id ++ [OP_EQUAL])) = true := by
      simp [CScript.isPayToScriptHash, hlen]
    simp [getScriptForDestination, CScript.pushData_short (b := id) (by omega), hlen,
      CScript.extractDestination, hscript]
  | WitnessV0KeyHash id =>
    have hlen : id.length = 20 := h
    simp [getScriptForDestination, CScript.pushData_short (b := id) (by omega),
      CScript.extractDestination_witness, CScript.witnessDestination, DecodeOP_N, hlen]
  | WitnessV0ScriptHash id =>
    have hlen : id.length = 32 := h
    simp [getScriptForDestination, CScript.pushData_short (b := id) (by omega),
      CScript.extractDestination_witness, CScript.witnessDestination, DecodeOP_N, hlen]
  | WitnessUnknown version program =>
    obtain ⟨hpos, h16, hmin, hmax⟩ := h
    have hop : OP_1 ≤ EncodeOP_N version ∧ EncodeOP_N version ≤ OP_16 ∧
        DecodeOP_N (EncodeOP_N version) = version := by
      have : ∀ n ≤ 16, 0 < n → OP_1 ≤ EncodeOP_N n ∧ EncodeOP_N n ≤ OP_16 ∧
        DecodeOP_N (EncodeOP_N n) = n := by decide
      exact this version h16 hpos
    have hsize : (UInt8.ofNat program.length).toNat = program.length := by
      rw [UInt8.toNat_ofNat']
      omega
    simp only [getScriptForDestination, CScript.pushData_short (b := program) (by omega),
      List.singleton_append]
    rw [CScript.extractDestination_witness (.inr ⟨hop.1, hop.2.1⟩) hsize hmin hmax, hop.2.2,
      CScript.witnessDestination, if_neg (by omega)]

end AnkerNode
