import AnkerNode.Script.Standard

namespace AnkerNode

inductive Txnouttype
  | TX_PUBKEY
  | TX_PUBKEYHASH
  | TX_SCRIPTHASH
  | TX_MULTISIG
  | TX_NULL_DATA
  | TX_ZEROCOINMINT
  | TX_WITNESS_V0_SCRIPTHASH
  | TX_WITNESS_V0_KEYHASH
  | TX_WITNESS_UNKNOWN
deriving DecidableEq, Repr

namespace CScript

def smallInteger (opcode : UInt8) : Option UInt8 :=
  if opcode = OP_0 ∨ OP_1 ≤ opcode ∧ opcode ≤ OP_16 then some (UInt8.ofNat (DecodeOP_N opcode))
  else none

-- the keys of a multisig script with what follows them
def takePubKeys : List (Option Instruction) → List Valtype × List (Option Instruction)
  | some i :: ops =>
    if i.data.length < 33 ∨ 65 < i.data.length then ([], some i :: ops)
    else
      let (vch, rest) := takePubKeys ops
      (i.data :: vch, rest)
  | ops => ([], ops)

def matchMultisig : List (Option Instruction) → Option (UInt8 × List Valtype × UInt8)
  | some i :: ops => do
    let m ← smallInteger i.opcode
    match takePubKeys ops with
    | (vch, [some j, some k]) =>
      let n ← smallInteger j.opcode
      if k.opcode = OP_CHECKMULTISIG ∧ k.data = [] then some (m, vch, n) else none
    | _ => none
  | _ => none

def solveTemplates (s : CScript) : Option (Txnouttype × List Valtype) :=
  match matchTemplate pubKeyTemplate s.instructions with
  | some vSolutions => some (.TX_PUBKEY, vSolutions)
  | none =>
    match pubKeyHashTemplates.findSome? fun template => matchTemplate template s.instructions with
    | some vSolutions => some (.TX_PUBKEYHASH, vSolutions)
    | none => do
      let (m, vch, n) ← matchMultisig s.instructions
      if m < 1 ∨ n < 1 ∨ n < m ∨ vch.length ≠ n.toNat then none
      else some (.TX_MULTISIG, [m] :: vch ++ [[n]])

def solveWitness (version : Nat) (program : Valtype) : Option (Txnouttype × List Valtype) :=
  if version = 0 ∧ program.length = 20 then some (.TX_WITNESS_V0_KEYHASH, [program])
  else if version = 0 ∧ program.length = 32 then some (.TX_WITNESS_V0_SCRIPTHASH, [program])
  else if version ≠ 0 then some (.TX_WITNESS_UNKNOWN, [[UInt8.ofNat version], program])
  else none

def solver (scriptPubKey : CScript) : Option (Txnouttype × List Valtype) :=
  if scriptPubKey.isPayToScriptHash then
    some (.TX_SCRIPTHASH, [(scriptPubKey.drop 2).take 20])
  else if scriptPubKey.head? = some OP_ZEROCOINMINT then
    if 150 < scriptPubKey.length then none else some (.TX_ZEROCOINMINT, [scriptPubKey.drop 2])
  else
    match scriptPubKey.isWitnessProgram with
    | some (version, program) => solveWitness version program
    | none =>
      if scriptPubKey.isNullData then some (.TX_NULL_DATA, []) else solveTemplates scriptPubKey

def destinationOf (hash160 : Valtype → Valtype) : Txnouttype × List Valtype → Option CTxDestination
  | (.TX_PUBKEY, vSolutions) =>
    if isValidPubKey (vSolutions.headD []) then some (.CKeyID (hash160 (vSolutions.headD []))) else none
  | (.TX_PUBKEYHASH, vSolutions) => some (.CKeyID (vSolutions.headD []))
  | (.TX_SCRIPTHASH, vSolutions) => some (.CScriptID (vSolutions.headD []))
  | (.TX_WITNESS_V0_KEYHASH, vSolutions) => some (.WitnessV0KeyHash (vSolutions.headD []))
  | (.TX_WITNESS_V0_SCRIPTHASH, vSolutions) => some (.WitnessV0ScriptHash (vSolutions.headD []))
  | (.TX_WITNESS_UNKNOWN, vSolutions) =>
    some (.WitnessUnknown ((vSolutions.headD []).headD 0).toNat (vSolutions.getD 1 []))
  | _ => none

variable {hash160 : Valtype → Valtype} {s : CScript}

theorem isWitnessProgram_version {version : Nat} {program : Valtype}
    (h : s.isWitnessProgram = some (version, program)) : version < 256 := by
  match s with
  | [] => cases h
  | [_] => cases h
  | b :: size :: rest =>
    simp only [isWitnessProgram] at h
    split_ifs at h
    simp only [Option.some.injEq, Prod.mk.injEq] at h
    have hb := b.toNat_lt
    rw [← h.1, DecodeOP_N]
    split <;> omega

theorem destinationOf_solveWitness {version : Nat} (hversion : version < 256) (program : Valtype) :
    (solveWitness version program).bind (destinationOf hash160) =
      witnessDestination version program := by
  have hbyte : (UInt8.ofNat version).toNat = version := by
    rw [UInt8.toNat_ofNat']
    exact Nat.mod_eq_of_lt hversion
  rw [solveWitness, witnessDestination]
  by_cases hzero : version = 0
  · by_cases h20 : program.length = 20
    · simp [hzero, h20, destinationOf]
    · by_cases h32 : program.length = 32
      · simp [hzero, h32, destinationOf]
      · simp [hzero, h20, h32]
  · simp [hzero, destinationOf, hbyte]

theorem destinationOf_solveTemplates (hash160 : Valtype → Valtype) (s : CScript) :
    s.solveTemplates.bind (destinationOf hash160) = s.templateDestination hash160 := by
  rw [solveTemplates, templateDestination]
  cases matchTemplate pubKeyTemplate s.instructions with
  | some vSolutions => rfl
  | none =>
    cases pubKeyHashTemplates.findSome? fun template => matchTemplate template s.instructions with
    | some vSolutions => rfl
    | none =>
      cases matchMultisig s.instructions with
      | none => rfl
      | some keys =>
        obtain ⟨m, vch, n⟩ := keys
        simp only [Option.bind_eq_bind, Option.bind_some, Option.map_none]
        split <;> rfl

-- The destination of a script is that of its solution: a script of several keys has none.
theorem extractDestination_eq_solver (hash160 : Valtype → Valtype) (s : CScript) :
    s.extractDestination hash160 = s.solver.bind (destinationOf hash160) := by
  rw [extractDestination, solver]
  by_cases hscripthash : s.isPayToScriptHash = true
  · rw [if_pos hscripthash, if_pos hscripthash]
    rfl
  rw [if_neg hscripthash, if_neg hscripthash]
  by_cases hmint : s.head? = some OP_ZEROCOINMINT
  · rw [if_pos hmint, if_pos hmint]
    split <;> rfl
  rw [if_neg hmint, if_neg hmint]
  cases hprogram : s.isWitnessProgram with
  | some p =>
    obtain ⟨version, program⟩ := p
    exact (destinationOf_solveWitness (isWitnessProgram_version hprogram) program).symm
  | none =>
    dsimp only
    by_cases hdata : s.isNullData = true
    · rw [if_pos hdata, if_pos hdata]
      rfl
    · rw [if_neg hdata, if_neg hdata]
      exact (destinationOf_solveTemplates hash160 s).symm

theorem matchTemplate_cons {op : TemplateOp} {template : List TemplateOp}
    {ops : List (Option Instruction)} {vSolutions : List Valtype}
    (h : matchTemplate (op :: template) ops = some vSolutions) :
    ∃ i ops' vch rest, op.solutions i = some vch ∧ matchTemplate template ops' = some rest ∧
      vSolutions = vch ++ rest := by
  match ops with
  | [] => cases h
  | none :: ops => cases h
  | some i :: ops =>
    simp only [matchTemplate, Option.bind_eq_bind, Option.bind_eq_some_iff, Option.some.injEq] at h
    obtain ⟨vch, hvch, rest, hrest, heq⟩ := h
    exact ⟨i, ops, vch, rest, hvch, hrest, heq.symm⟩

theorem matchTemplate_opcode {b : UInt8} {template : List TemplateOp}
    {ops : List (Option Instruction)} {vSolutions : List Valtype}
    (h : matchTemplate (.opcode b :: template) ops = some vSolutions) :
    ∃ ops', matchTemplate template ops' = some vSolutions := by
  obtain ⟨i, ops', vch, rest, hvch, hrest, rfl⟩ := matchTemplate_cons h
  rw [TemplateOp.solutions] at hvch
  split at hvch
  · rw [← Option.some.inj hvch]
    exact ⟨ops', hrest⟩
  · cases hvch

theorem matchTemplate_pubKey {ops : List (Option Instruction)} {vSolutions : List Valtype}
    (h : matchTemplate pubKeyTemplate ops = some vSolutions) :
    33 ≤ (vSolutions.headD []).length := by
  obtain ⟨i, ops', vch, rest, hvch, -, rfl⟩ := matchTemplate_cons h
  rw [TemplateOp.solutions] at hvch
  split at hvch
  · cases hvch
  · rw [← Option.some.inj hvch]
    change 33 ≤ i.data.length
    omega

theorem matchTemplate_pubKeyHash {template : List TemplateOp} {ops : List (Option Instruction)}
    {vSolutions : List Valtype} (htemplate : template ∈ pubKeyHashTemplates)
    (h : matchTemplate template ops = some vSolutions) : (vSolutions.headD []).length = 20 := by
  have hshape : ∃ rest, template = .opcode OP_DUP :: .opcode OP_HASH160 :: .OP_PUBKEYHASH :: rest := by
    rw [pubKeyHashTemplates, List.mem_cons, List.mem_singleton] at htemplate
    rcases htemplate with rfl | rfl
    · exact ⟨_, rfl⟩
    · exact ⟨_, rfl⟩
  obtain ⟨rest, rfl⟩ := hshape
  obtain ⟨ops₁, h₁⟩ := matchTemplate_opcode h
  obtain ⟨ops₂, h₂⟩ := matchTemplate_opcode h₁
  obtain ⟨i, ops', vch, rest', hvch, -, rfl⟩ := matchTemplate_cons h₂
  rw [TemplateOp.solutions] at hvch
  split at hvch
  · rename_i hlen
    rw [← Option.some.inj hvch]
    exact hlen
  · cases hvch

theorem type_solveWitness {version : Nat} {program : Valtype} {typeRet : Txnouttype}
    {vSolutions : List Valtype} (h : solveWitness version program = some (typeRet, vSolutions)) :
    typeRet ≠ .TX_PUBKEY ∧ typeRet ≠ .TX_PUBKEYHASH := by
  rw [solveWitness] at h
  split_ifs at h <;> cases h <;> decide

-- The template that a solution comes from.
inductive TemplateBranch (s : CScript) : Txnouttype × List Valtype → Prop where
  | pubKey {vSolutions : List Valtype}
      (h : matchTemplate pubKeyTemplate s.instructions = some vSolutions) :
      TemplateBranch s (.TX_PUBKEY, vSolutions)
  | pubKeyHash {vSolutions : List Valtype}
      (hkey : matchTemplate pubKeyTemplate s.instructions = none)
      (h : (pubKeyHashTemplates.findSome? fun template => matchTemplate template s.instructions) =
        some vSolutions) : TemplateBranch s (.TX_PUBKEYHASH, vSolutions)
  | multisig {m n : UInt8} {keys : List Valtype}
      (hkey : matchTemplate pubKeyTemplate s.instructions = none)
      (hhash : (pubKeyHashTemplates.findSome? fun template =>
        matchTemplate template s.instructions) = none)
      (h : matchMultisig s.instructions = some (m, keys, n)) :
      TemplateBranch s (.TX_MULTISIG, [m] :: keys ++ [[n]])

-- The branch of `solver` that a solution comes from.
inductive SolverBranch (s : CScript) : Txnouttype × List Valtype → Prop where
  | scripthash (h : s.isPayToScriptHash = true) :
      SolverBranch s (.TX_SCRIPTHASH, [(s.drop 2).take 20])
  | mint (hscripthash : ¬s.isPayToScriptHash = true) (h : s.head? = some OP_ZEROCOINMINT) :
      SolverBranch s (.TX_ZEROCOINMINT, [s.drop 2])
  | witness {version : Nat} {program : Valtype} {solution : Txnouttype × List Valtype}
      (hscripthash : ¬s.isPayToScriptHash = true) (hmint : ¬s.head? = some OP_ZEROCOINMINT)
      (hprogram : s.isWitnessProgram = some (version, program))
      (h : solveWitness version program = some solution) : SolverBranch s solution
  | nullData (hscripthash : ¬s.isPayToScriptHash = true) (hmint : ¬s.head? = some OP_ZEROCOINMINT)
      (hprogram : s.isWitnessProgram = none) (h : s.isNullData = true) :
      SolverBranch s (.TX_NULL_DATA, [])
  | templates {solution : Txnouttype × List Valtype} (hscripthash : ¬s.isPayToScriptHash = true)
      (hmint : ¬s.head? = some OP_ZEROCOINMINT) (hprogram : s.isWitnessProgram = none)
      (hdata : ¬s.isNullData = true) (h : TemplateBranch s solution) : SolverBranch s solution

theorem template_branch {solution : Txnouttype × List Valtype}
    (h : s.solveTemplates = some solution) : TemplateBranch s solution := by
  rw [solveTemplates] at h
  cases hkey : matchTemplate pubKeyTemplate s.instructions with
  | some vSolutions' =>
    rw [hkey] at h
    cases h
    exact .pubKey hkey
  | none =>
    rw [hkey] at h
    cases hhash : pubKeyHashTemplates.findSome? fun template =>
        matchTemplate template s.instructions with
    | some vSolutions' =>
      rw [hhash] at h
      cases h
      exact .pubKeyHash hkey hhash
    | none =>
      simp only [hhash, Option.bind_eq_bind, Option.bind_eq_some_iff] at h
      obtain ⟨⟨m, keys, n⟩, hmultisig, hkeys⟩ := h
      split at hkeys
      · cases hkeys
      · cases hkeys
        exact .multisig hkey hhash hmultisig

theorem solver_branch {solution : Txnouttype × List Valtype} (h : s.solver = some solution) :
    SolverBranch s solution := by
  rw [solver] at h
  by_cases hscripthash : s.isPayToScriptHash = true
  · rw [if_pos hscripthash] at h
    cases h
    exact .scripthash hscripthash
  rw [if_neg hscripthash] at h
  by_cases hmint : s.head? = some OP_ZEROCOINMINT
  · rw [if_pos hmint] at h
    split at h
    · cases h
    · cases h
      exact .mint hscripthash hmint
  rw [if_neg hmint] at h
  cases hprogram : s.isWitnessProgram with
  | some p =>
    rw [hprogram] at h
    exact .witness hscripthash hmint hprogram h
  | none =>
    rw [hprogram] at h
    dsimp only at h
    by_cases hdata : s.isNullData = true
    · rw [if_pos hdata] at h
      cases h
      exact .nullData hscripthash hmint hprogram hdata
    · rw [if_neg hdata] at h
      exact .templates hscripthash hmint hprogram hdata (template_branch h)

-- Only the templates pay to a key or to the hash of one.
theorem solver_pubKey {vSolutions : List Valtype} (h : s.solver = some (.TX_PUBKEY, vSolutions)) :
    33 ≤ (vSolutions.headD []).length := by
  cases solver_branch h with
  | witness _ _ _ hwitness => exact absurd rfl (type_solveWitness hwitness).1
  | templates _ _ _ _ htemplate =>
    cases htemplate with
    | pubKey hmatch => exact matchTemplate_pubKey hmatch

theorem solver_pubKeyHash {vSolutions : List Valtype}
    (h : s.solver = some (.TX_PUBKEYHASH, vSolutions)) : (vSolutions.headD []).length = 20 := by
  cases solver_branch h with
  | witness _ _ _ hwitness => exact absurd rfl (type_solveWitness hwitness).2
  | templates _ _ _ _ htemplate =>
    cases htemplate with
    | pubKeyHash _ hmatch =>
      obtain ⟨template, htemplate, hmatch⟩ := List.exists_of_findSome?_eq_some hmatch
      exact matchTemplate_pubKeyHash htemplate hmatch

end CScript

end AnkerNode
