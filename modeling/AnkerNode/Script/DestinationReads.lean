import AnkerNode.Script.SolverReads

namespace AnkerNode

open Checks

namespace Reads

section Callers

variable (hash160 : Valtype → Valtype) (scriptPubKey : CScript)

def isStandard (fDatacarrier : Bool) (nMaxDatacarrierBytes : Nat) : Except Fault Bool := do
  let solved ← solver scriptPubKey
  match solved with
  | none => .ok false
  | some (.TX_MULTISIG, vSolutions) => do
    let m ← solutionAt vSolutions 0 >>= firstByte
    let n ← back vSolutions >>= firstByte
    .ok (!(decide (n < 1 ∨ 3 < n) || decide (m < 1 ∨ n < m)))
  | some (.TX_NULL_DATA, _) =>
    .ok (fDatacarrier && decide (scriptPubKey.length ≤ nMaxDatacarrierBytes))
  | some (.TX_WITNESS_UNKNOWN, _) => .ok false
  | some _ => .ok true

-- `uint160(vch)`
def uint160 (vch : Valtype) : Except Fault Valtype :=
  if vch.length ≠ 20 then .error .uint_error else .ok vch

-- `std::copy` into an object of `size` bytes
def copyInto (size : Nat) (vch : Valtype) : Except Fault Valtype :=
  if size < vch.length then .error .outsideDestination
  else .ok (vch ++ List.replicate (size - vch.length) 0)

def solvedDestination : Txnouttype × List Valtype → Except Fault (Option CTxDestination)
  | (.TX_PUBKEY, vSolutions) => do
    let vch ← solutionAt vSolutions 0
    .ok (if isValidPubKey vch then some (.CKeyID (hash160 vch)) else none)
  | (.TX_PUBKEYHASH, vSolutions) => do
    let id ← solutionAt vSolutions 0 >>= uint160
    .ok (some (.CKeyID id))
  | (.TX_SCRIPTHASH, vSolutions) => do
    let id ← solutionAt vSolutions 0 >>= uint160
    .ok (some (.CScriptID id))
  | (.TX_WITNESS_V0_KEYHASH, vSolutions) => do
    let hash ← solutionAt vSolutions 0 >>= copyInto 20
    .ok (some (.WitnessV0KeyHash hash))
  | (.TX_WITNESS_V0_SCRIPTHASH, vSolutions) => do
    let hash ← solutionAt vSolutions 0 >>= copyInto 32
    .ok (some (.WitnessV0ScriptHash hash))
  | (.TX_WITNESS_UNKNOWN, vSolutions) => do
    let version ← solutionAt vSolutions 0 >>= firstByte
    let source ← solutionAt vSolutions 1
    let program ← copyInto 40 source
    .ok (some (.WitnessUnknown version.toNat (program.take source.length)))
  | _ => .ok none

def extractDestination : Except Fault (Option CTxDestination) := do
  let solved ← solver scriptPubKey
  match solved with
  | none => .ok none
  | some solution => solvedDestination hash160 solution

def keyDestinations : List Valtype → List CTxDestination
  | [] => []
  | vch :: keys =>
    if isValidPubKey vch then .CKeyID (hash160 vch) :: keyDestinations keys
    else keyDestinations keys

def extractDestinations : Except Fault (Option (Txnouttype × List CTxDestination × Nat)) := do
  let solved ← solver scriptPubKey
  match solved with
  | none => .ok none
  | some (.TX_NULL_DATA, _) => .ok none
  | some (.TX_MULTISIG, vSolutions) => do
    let nRequired ← solutionAt vSolutions 0 >>= firstByte
    let keys ← (List.range' 1 (vSolutions.length - 2)).mapM (solutionAt vSolutions)
    let addressRet := keyDestinations hash160 keys
    .ok (if addressRet.isEmpty then none else some (.TX_MULTISIG, addressRet, nRequired.toNat))
  | some (typeRet, _) => do
    let address ← extractDestination hash160 scriptPubKey
    .ok (address.map fun address => (typeRet, [address], 1))

end Callers

-- what the callers read from the solutions of each type
def Solved : Txnouttype × List Valtype → Prop
  | (.TX_PUBKEY, vSolutions) => ∃ vch rest, vSolutions = vch :: rest
  | (.TX_PUBKEYHASH, vSolutions) | (.TX_SCRIPTHASH, vSolutions)
  | (.TX_WITNESS_V0_KEYHASH, vSolutions) => ∃ id rest, vSolutions = id :: rest ∧ id.length = 20
  | (.TX_WITNESS_V0_SCRIPTHASH, vSolutions) => ∃ id rest, vSolutions = id :: rest ∧ id.length = 32
  | (.TX_WITNESS_UNKNOWN, vSolutions) =>
    ∃ b program, vSolutions = [[b], program] ∧ program.length ≤ 40
  | (.TX_MULTISIG, vSolutions) => ∃ m keys n, vSolutions = [m] :: keys ++ [[n]]
  | _ => True

variable {hash160 : Valtype → Valtype} {s : CScript}

theorem solved_solveWitness {version : Nat} {program : Valtype} (h : program.length ≤ 40)
    {solution : Txnouttype × List Valtype}
    (hsolved : CScript.solveWitness version program = some solution) : Solved solution := by
  rw [CScript.solveWitness] at hsolved
  split_ifs at hsolved with hkey hscript
  · cases hsolved
    exact ⟨program, [], rfl, hkey.2⟩
  · cases hsolved
    exact ⟨program, [], rfl, hscript.2⟩
  · cases hsolved
    exact ⟨_, program, rfl, h⟩

theorem isWitnessProgram_length {version : Nat} {program : Valtype}
    (h : s.isWitnessProgram = some (version, program)) : program.length ≤ 40 := by
  match s with
  | [] => cases h
  | [_] => cases h
  | b :: size :: rest =>
    simp only [CScript.isWitnessProgram] at h
    split_ifs at h with hlen
    cases h
    simp only [List.length_cons] at hlen
    omega

theorem exists_cons_of_headD {vSolutions : List Valtype} (h : 0 < (vSolutions.headD []).length) :
    ∃ vch rest, vSolutions = vch :: rest ∧ vSolutions.headD [] = vch := by
  cases vSolutions with
  | nil => cases h
  | cons vch rest => exact ⟨vch, rest, rfl, rfl⟩

theorem solved_template {solution : Txnouttype × List Valtype}
    (h : CScript.TemplateBranch s solution) : Solved solution := by
  cases h with
  | pubKey hmatch =>
    have hlen := CScript.matchTemplate_pubKey hmatch
    obtain ⟨vch, rest, heq, -⟩ := exists_cons_of_headD (Nat.lt_of_lt_of_le (by decide) hlen)
    exact ⟨vch, rest, heq⟩
  | pubKeyHash _ hmatch =>
    obtain ⟨template, htemplate, hmatch⟩ := List.exists_of_findSome?_eq_some hmatch
    have hlen := CScript.matchTemplate_pubKeyHash htemplate hmatch
    obtain ⟨vch, rest, heq, hhead⟩ := exists_cons_of_headD (Nat.lt_of_lt_of_eq (by decide) hlen.symm)
    exact ⟨vch, rest, heq, hhead ▸ hlen⟩
  | @multisig m n keys => exact ⟨m, keys, n, rfl⟩

theorem solved_solver {solution : Txnouttype × List Valtype} (h : s.solver = some solution) :
    Solved solution := by
  cases CScript.solver_branch h with
  | scripthash hscripthash =>
    have hlen : s.length = 23 := by
      simp only [CScript.isPayToScriptHash, Bool.and_eq_true, beq_iff_eq] at hscripthash
      exact hscripthash.1.1.1
    refine ⟨_, [], rfl, ?_⟩
    rw [List.length_take, List.length_drop]
    omega
  | mint => trivial
  | witness _ _ hprogram hwitness =>
    exact solved_solveWitness (isWitnessProgram_length hprogram) hwitness
  | nullData => trivial
  | templates _ _ _ _ htemplate => exact solved_template htemplate

theorem uint160_eq {vch : Valtype} (h : vch.length = 20) : uint160 vch = .ok vch :=
  if_neg (not_not_intro h)

theorem copyInto_eq {size : Nat} {vch : Valtype} (h : vch.length = size) :
    copyInto size vch = .ok vch := by
  rw [copyInto, if_neg (by omega), h, Nat.sub_self, List.replicate_zero, List.append_nil]

theorem solvedDestination_eq {solution : Txnouttype × List Valtype} (h : Solved solution) :
    solvedDestination hash160 solution = .ok (CScript.destinationOf hash160 solution) := by
  obtain ⟨typeRet, vSolutions⟩ := solution
  cases typeRet with
  | TX_PUBKEY =>
    obtain ⟨vch, rest, rfl⟩ := h
    rfl
  | TX_PUBKEYHASH | TX_SCRIPTHASH =>
    obtain ⟨id, rest, rfl, hid⟩ := h
    change (uint160 id >>= _) = _
    rw [uint160_eq hid]
    rfl
  | TX_WITNESS_V0_KEYHASH | TX_WITNESS_V0_SCRIPTHASH =>
    obtain ⟨id, rest, rfl, hid⟩ := h
    change (copyInto _ id >>= _) = _
    rw [copyInto_eq hid]
    rfl
  | TX_WITNESS_UNKNOWN =>
    obtain ⟨b, program, rfl, hlen⟩ := h
    change (copyInto 40 program >>= fun copied =>
      .ok (some (CTxDestination.WitnessUnknown b.toNat (copied.take program.length)))) = _
    rw [copyInto, if_neg (by omega)]
    change Except.ok (some (CTxDestination.WitnessUnknown b.toNat
      ((program ++ List.replicate (40 - program.length) 0).take program.length))) = _
    rw [List.take_left]
    rfl
  | _ => rfl

theorem extractDestination_eq (hash160 : Valtype → Valtype) (h : s ≠ [OP_ZEROCOINMINT]) :
    extractDestination hash160 s = .ok (s.extractDestination hash160) := by
  rw [extractDestination, solver_eq, if_neg h, CScript.extractDestination_eq_solver]
  cases hsolver : s.solver with
  | none => rfl
  | some solution => exact solvedDestination_eq (solved_solver hsolver)

theorem isStandard_isOk (h : s ≠ [OP_ZEROCOINMINT]) (fDatacarrier : Bool)
    (nMaxDatacarrierBytes : Nat) : ∃ b, isStandard s fDatacarrier nMaxDatacarrierBytes = .ok b := by
  rw [isStandard, solver_eq, if_neg h]
  cases hsolver : s.solver with
  | none => exact ⟨_, rfl⟩
  | some solution =>
    obtain ⟨typeRet, vSolutions⟩ := solution
    have hsolved := solved_solver hsolver
    cases typeRet with
    | TX_MULTISIG =>
      obtain ⟨m, keys, n, rfl⟩ := hsolved
      simp only [ok_bind, solutionAt_front, back_multisig]
      exact ⟨_, rfl⟩
    | _ => exact ⟨_, rfl⟩

theorem mapM_solutionAt (vSolutions : List Valtype) {i n : Nat} (h : i + n ≤ vSolutions.length) :
    ∃ keys, (List.range' i n).mapM (solutionAt vSolutions) = .ok keys := by
  induction n generalizing i with
  | zero => exact ⟨[], rfl⟩
  | succ n ih =>
    obtain ⟨keys, hkeys⟩ := ih (i := i + 1) (by omega)
    have hread : solutionAt vSolutions i = .ok (vSolutions[i]) := by
      rw [solutionAt, List.getElem?_eq_getElem, fromOption]
    rw [List.range'_succ, List.mapM_cons, hread, hkeys]
    exact ⟨_, rfl⟩

theorem extractDestinations_isOk (hash160 : Valtype → Valtype) (h : s ≠ [OP_ZEROCOINMINT]) :
    ∃ r, extractDestinations hash160 s = .ok r := by
  rw [extractDestinations, solver_eq, if_neg h, extractDestination_eq hash160 h]
  cases hsolver : s.solver with
  | none => exact ⟨_, rfl⟩
  | some solution =>
    obtain ⟨typeRet, vSolutions⟩ := solution
    have hsolved := solved_solver hsolver
    cases typeRet with
    | TX_MULTISIG =>
      obtain ⟨m, keys, n, rfl⟩ := hsolved
      obtain ⟨read, hread⟩ := mapM_solutionAt ([m] :: keys ++ [[n]]) (i := 1)
        (n := ([m] :: keys ++ [[n]]).length - 2) (by simp; omega)
      simp only [ok_bind, solutionAt_front, hread]
      exact ⟨_, rfl⟩
    | _ => exact ⟨_, rfl⟩

theorem getScriptForDestination_ne_mint (dest : CTxDestination) :
    getScriptForDestination dest ≠ [OP_ZEROCOINMINT] := by
  have hpush : ∀ vch, 1 ≤ (CScript.pushData vch).length := by
    intro vch
    rw [CScript.pushData, CScript.pushHeader]
    split_ifs <;> simp
  intro heq
  have hlen := congrArg List.length heq
  cases dest with
  | CNoDestination => cases heq
  | CKeyID id | CScriptID id =>
    simp only [getScriptForDestination, List.length_append, List.length_cons, List.length_nil] at hlen
    omega
  | WitnessV0KeyHash id | WitnessV0ScriptHash id =>
    have := hpush id
    simp only [getScriptForDestination, List.length_append, List.length_cons, List.length_nil] at hlen
    omega
  | WitnessUnknown version program =>
    have := hpush program
    simp only [getScriptForDestination, List.length_append, List.length_cons, List.length_nil] at hlen
    omega

-- all four return without a read outside the script or the solutions
def Reading (hash160 : Valtype → Valtype) (s : CScript) : Prop :=
  (∃ r, solver s = .ok r) ∧
    (∀ fDatacarrier nMaxDatacarrierBytes,
      ∃ b, isStandard s fDatacarrier nMaxDatacarrierBytes = .ok b) ∧
    (∃ r, extractDestination hash160 s = .ok r) ∧ ∃ r, extractDestinations hash160 s = .ok r

theorem reading_iff_ne_mint (hash160 : Valtype → Valtype) :
    (∀ s, Reading hash160 s ↔ s ≠ [OP_ZEROCOINMINT]) ∧
      ∀ dest, CTxDestination.Valid dest →
        extractDestination hash160 (getScriptForDestination dest) = .ok (some dest) := by
  refine ⟨fun s => ⟨?_, fun h => ?_⟩, fun dest h => ?_⟩
  · rintro ⟨⟨r, hr⟩, -⟩ rfl
    rw [solver_eq, if_pos rfl] at hr
    cases hr
  · exact ⟨⟨_, (solver_eq s).trans (if_neg h)⟩, isStandard_isOk h,
      ⟨_, extractDestination_eq hash160 h⟩, extractDestinations_isOk hash160 h⟩
  · rw [extractDestination_eq hash160 (getScriptForDestination_ne_mint dest),
      extractDestination_getScriptForDestination hash160 h]

theorem reading_iff_ne_mint_keyID :
    (¬Reading id [OP_ZEROCOINMINT]) ∧
      extractDestination id (getScriptForDestination (.CKeyID (List.replicate 20 7))) =
        .ok (some (.CKeyID (List.replicate 20 7))) :=
  ⟨fun h => ((reading_iff_ne_mint id).1 [OP_ZEROCOINMINT]).mp h rfl,
    (reading_iff_ne_mint id).2 _ rfl⟩

theorem mint_outside :
    solver [OP_ZEROCOINMINT] = .error .outsideScript ∧ ¬Reading id [OP_ZEROCOINMINT] := by
  refine ⟨rfl, ?_⟩
  rintro ⟨⟨r, hr⟩, -⟩
  cases hr

end Reads

end AnkerNode
