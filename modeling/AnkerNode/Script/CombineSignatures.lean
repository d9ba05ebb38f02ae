import AnkerNode.Lib.OrderedSet
import AnkerNode.Script.Script
import AnkerNode.Script.Solver

namespace AnkerNode

-- what `Solver` leaves in `typeRet`, also where it returns false: `undefined` where it leaves the
-- type unwritten or does not return
inductive TypeRet
  | undefined
  | TX_NONSTANDARD
  | written (t : Txnouttype)
deriving DecidableEq, Repr

namespace CScript

def solverTemplatesOut (s : CScript) : TypeRet × List Valtype :=
  match matchTemplate pubKeyTemplate s.instructions with
  | some vSolutions => (.written .TX_PUBKEY, vSolutions)
  | none =>
    match pubKeyHashTemplates.findSome? fun template => matchTemplate template s.instructions with
    | some vSolutions => (.written .TX_PUBKEYHASH, vSolutions)
    | none =>
      match matchMultisig s.instructions with
      | some (m, vch, n) => (.written .TX_MULTISIG, [m] :: vch ++ [[n]])
      | none => (.TX_NONSTANDARD, [])

def solverOut (s : CScript) : TypeRet × List Valtype :=
  if s.isPayToScriptHash then (.written .TX_SCRIPTHASH, [(s.drop 2).take 20])
  else if s.head? = some OP_ZEROCOINMINT then
    if s.length = 1 then (.undefined, [])
    else (.written .TX_ZEROCOINMINT, if 150 < s.length then [] else [s.drop 2])
  else
    match s.isWitnessProgram with
    | some (version, program) =>
      match solveWitness version program with
      | some (typeRet, vSolutions) => (.written typeRet, vSolutions)
      | none => (.undefined, [])
    | none => if s.isNullData then (.written .TX_NULL_DATA, []) else s.solverTemplatesOut

end CScript

namespace CombineMultisig

variable (scriptPubKey : CScript) (checker : BaseSignatureChecker) (sigversion : SigVersion)

-- `allsigs` after the signatures of one input
def insertSigs (allsigs : List Valtype) : List Valtype → List Valtype
  | [] => allsigs
  | v :: sigs =>
    if !v.isEmpty then insertSigs (OrderedSet.insert v allsigs) sigs else insertSigs allsigs sigs

-- one signature against the keys
def matchSig (sig : Valtype) : List Valtype → (Valtype → Option Valtype) → Valtype → Option Valtype
  | [], sigs => sigs
  | pubkey :: pubkeys, sigs =>
    if (sigs pubkey).isSome then matchSig sig pubkeys sigs
    else if checker.checkSig sig pubkey scriptPubKey sigversion then
      Function.update sigs pubkey (some sig)
    else matchSig sig pubkeys sigs

def matchSigs (pubkeys : List Valtype) :
    List Valtype → (Valtype → Option Valtype) → Valtype → Option Valtype
  | [], sigs => sigs
  | sig :: allsigs, sigs =>
    matchSigs pubkeys allsigs (matchSig scriptPubKey checker sigversion sig pubkeys sigs)

-- the signatures of the keys in order, while fewer than `nSigsRequired`
def pushSigs (sigs : Valtype → Option Valtype) : Nat → List Valtype → List Valtype
  | 0, _ => []
  | _ + 1, [] => []
  | nMissing + 1, pubkey :: pubkeys =>
    match sigs pubkey with
    | some sig => sig :: pushSigs sigs nMissing pubkeys
    | none => pushSigs sigs (nMissing + 1) pubkeys

end CombineMultisig

open CombineMultisig in
-- `vSolutions` holds m, the keys and n
def combineMultisig (scriptPubKey : CScript) (checker : BaseSignatureChecker)
    (vSolutions sigs1 sigs2 : List Valtype) (sigversion : SigVersion) : List Valtype :=
  let allsigs := insertSigs (insertSigs [] sigs1) sigs2
  let nSigsRequired := ((vSolutions.headD []).headD 0).toNat
  let pubkeys := (vSolutions.drop 1).take (vSolutions.length - 2)
  let sigs := matchSigs scriptPubKey checker sigversion pubkeys allsigs fun _ => none
  let pushed := pushSigs sigs nSigsRequired pubkeys
  [] :: pushed ++ List.replicate (nSigsRequired - pushed.length) []

theorem length_dropLast_lt {stack : List Valtype} (h : ¬stack.getLastD [] = []) :
    stack.dropLast.length < stack.length := by
  cases stack with
  | nil => exact absurd rfl h
  | cons v stack =>
    rw [List.length_dropLast, List.length_cons]
    omega

structure Stacks where
  script : List Valtype
  witness : List Valtype
deriving DecidableEq, Repr

-- `none` where the solver leaves no type to go by
def combineSignatures (checker : BaseSignatureChecker) (scriptPubKey : CScript)
    (sigs1 sigs2 : Stacks) (sigversion : SigVersion) : Option Stacks :=
  match scriptPubKey.solverOut with
  | (.undefined, _) => none
  | (.TX_NONSTANDARD, _) | (.written .TX_NULL_DATA, _) | (.written .TX_ZEROCOINMINT, _)
  | (.written .TX_WITNESS_UNKNOWN, _) =>
    some (if sigs2.script.length ≤ sigs1.script.length then sigs1 else sigs2)
  | (.written .TX_PUBKEY, _) | (.written .TX_PUBKEYHASH, _) =>
    some (if sigs1.script.headD [] = [] then sigs2 else sigs1)
  | (.written .TX_WITNESS_V0_KEYHASH, _) =>
    some (if sigs1.witness.headD [] = [] then sigs2 else sigs1)
  | (.written .TX_SCRIPTHASH, _) =>
    if sigs1.script.getLastD [] = [] then some sigs2
    else if sigs2.script.getLastD [] = [] then some sigs1
    else do
      let spk := sigs1.script.getLastD []
      let result ← combineSignatures checker spk { sigs1 with script := sigs1.script.dropLast }
        { sigs2 with script := sigs2.script.dropLast } sigversion
      some { result with script := result.script ++ [spk] }
  | (.written .TX_MULTISIG, vSolutions) =>
    some ⟨combineMultisig scriptPubKey checker vSolutions sigs1.script sigs2.script sigversion, []⟩
  | (.written .TX_WITNESS_V0_SCRIPTHASH, _) =>
    if sigs1.witness.getLastD [] = [] then some sigs2
    else if sigs2.witness.getLastD [] = [] then some sigs1
    else do
      let pubKey2 := sigs1.witness.getLastD []
      let result ← combineSignatures checker pubKey2 ⟨sigs1.witness.dropLast, []⟩
        ⟨sigs2.witness.dropLast, []⟩ .SIGVERSION_WITNESS_V0
      some ⟨[], result.script ++ [pubKey2]⟩
termination_by sigs1.script.length + sigs1.witness.length
decreasing_by
  · rename_i hscript _
    exact Nat.add_lt_add_right (length_dropLast_lt hscript) _
  · rename_i hwitness _
    have := length_dropLast_lt hwitness
    simp only [List.length_nil, Nat.add_zero]
    omega

namespace CombineMultisig

variable {scriptPubKey : CScript} {checker : BaseSignatureChecker} {sigversion : SigVersion}
  {sigs1 sigs2 pubkeys : List Valtype}

theorem mem_insertSigs {allsigs sigs : List Valtype} {v : Valtype} :
    v ∈ insertSigs allsigs sigs ↔ v ∈ allsigs ∨ v ∈ sigs ∧ v ≠ [] := by
  induction sigs generalizing allsigs with
  | nil => simp [insertSigs]
  | cons w sigs ih =>
    rw [insertSigs]
    by_cases hw : w = []
    · simp only [hw, List.isEmpty_nil, Bool.not_true, Bool.false_eq_true, if_false, ih,
        List.mem_cons]
      grind
    · have hne : (!w.isEmpty) = true := by simpa using hw
      rw [if_pos hne, ih, OrderedSet.mem_insert, List.mem_cons]
      grind

theorem pairwise_insertSigs {allsigs : List Valtype} (h : allsigs.Pairwise (· < ·))
    (sigs : List Valtype) : (insertSigs allsigs sigs).Pairwise (· < ·) := by
  induction sigs generalizing allsigs with
  | nil => exact h
  | cons w sigs ih =>
    rw [insertSigs]
    split
    · exact ih (OrderedSet.pairwise_insert h)
    · exact ih h

-- The set of all signatures does not depend on which input comes first.
theorem insertSigs_comm (sigs1 sigs2 : List Valtype) :
    insertSigs (insertSigs [] sigs1) sigs2 = insertSigs (insertSigs [] sigs2) sigs1 := by
  refine OrderedSet.eq_of_mem_iff
    (pairwise_insertSigs (pairwise_insertSigs List.Pairwise.nil sigs1) sigs2)
    (pairwise_insertSigs (pairwise_insertSigs List.Pairwise.nil sigs2) sigs1) fun v => ?_
  simp only [mem_insertSigs]
  tauto

-- A signature goes to the first key without one that it verifies for.
theorem matchSig_cases (scriptPubKey : CScript) (checker : BaseSignatureChecker)
    (sigversion : SigVersion) (sig : Valtype) (pubkeys : List Valtype)
    (sigs : Valtype → Option Valtype) :
    (matchSig scriptPubKey checker sigversion sig pubkeys sigs = sigs ∧
        ∀ key ∈ pubkeys, checker.checkSig sig key scriptPubKey sigversion = true →
          (sigs key).isSome) ∨
      ∃ key ∈ pubkeys, sigs key = none ∧
        checker.checkSig sig key scriptPubKey sigversion = true ∧
        matchSig scriptPubKey checker sigversion sig pubkeys sigs =
          Function.update sigs key (some sig) := by
  induction pubkeys with
  | nil => exact .inl ⟨rfl, nofun⟩
  | cons pubkey pubkeys ih =>
    rw [matchSig]
    by_cases hheld : (sigs pubkey).isSome = true
    · rw [if_pos hheld]
      rcases ih with ⟨hsame, hall⟩ | ⟨key, hkey, hfound⟩
      · refine .inl ⟨hsame, List.forall_mem_cons.mpr ⟨fun _ => hheld, hall⟩⟩
      · exact .inr ⟨key, List.mem_cons_of_mem _ hkey, hfound⟩
    rw [if_neg hheld]
    by_cases hcheck : checker.checkSig sig pubkey scriptPubKey sigversion = true
    · rw [if_pos hcheck]
      exact .inr ⟨pubkey, List.mem_cons_self .., by simpa using hheld, hcheck, rfl⟩
    · rw [if_neg hcheck]
      rcases ih with ⟨hsame, hall⟩ | ⟨key, hkey, hfound⟩
      · refine .inl ⟨hsame, List.forall_mem_cons.mpr ⟨fun h => absurd h hcheck, hall⟩⟩
      · exact .inr ⟨key, List.mem_cons_of_mem _ hkey, hfound⟩

theorem matchSig_isSome {sig : Valtype} {sigs : Valtype → Option Valtype} {key : Valtype}
    (h : (sigs key).isSome) :
    (matchSig scriptPubKey checker sigversion sig pubkeys sigs key).isSome := by
  rcases matchSig_cases scriptPubKey checker sigversion sig pubkeys sigs with
    ⟨hsame, -⟩ | ⟨k, -, hnone, -, hupdate⟩
  · rw [hsame]
    exact h
  · rw [hupdate, Function.update_of_ne]
    · exact h
    · rintro rfl
      rw [hnone] at h
      cases h

theorem matchSigs_isSome {allsigs : List Valtype} {sigs : Valtype → Option Valtype} {key : Valtype}
    (h : (sigs key).isSome) :
    (matchSigs scriptPubKey checker sigversion pubkeys allsigs sigs key).isSome := by
  induction allsigs generalizing sigs with
  | nil => exact h
  | cons sig allsigs ih => exact ih (matchSig_isSome h)

-- what is held for a key is a signature of the pool that verifies for it
def Held (scriptPubKey : CScript) (checker : BaseSignatureChecker) (sigversion : SigVersion)
    (pool : List Valtype) (sigs : Valtype → Option Valtype) : Prop :=
  ∀ key sig, sigs key = some sig →
    sig ∈ pool ∧ checker.checkSig sig key scriptPubKey sigversion = true

theorem matchSig_held {pool : List Valtype} {sig : Valtype} {sigs : Valtype → Option Valtype}
    (h : Held scriptPubKey checker sigversion pool sigs) (hsig : sig ∈ pool) :
    Held scriptPubKey checker sigversion pool
      (matchSig scriptPubKey checker sigversion sig pubkeys sigs) := by
  rcases matchSig_cases scriptPubKey checker sigversion sig pubkeys sigs with
    ⟨hsame, -⟩ | ⟨k, -, -, hcheck, hupdate⟩
  · rw [hsame]
    exact h
  · rw [hupdate]
    intro key s hs
    by_cases hkey : key = k
    · subst hkey
      rw [Function.update_self, Option.some.injEq] at hs
      subst hs
      exact ⟨hsig, hcheck⟩
    · rw [Function.update_of_ne hkey] at hs
      exact h key s hs

theorem matchSigs_held {pool allsigs : List Valtype} {sigs : Valtype → Option Valtype}
    (h : Held scriptPubKey checker sigversion pool sigs) (hpool : ∀ sig ∈ allsigs, sig ∈ pool) :
    Held scriptPubKey checker sigversion pool
      (matchSigs scriptPubKey checker sigversion pubkeys allsigs sigs) := by
  induction allsigs generalizing sigs with
  | nil => exact h
  | cons sig allsigs ih =>
    obtain ⟨hsig, hrest⟩ := List.forall_mem_cons.mp hpool
    exact ih (matchSig_held h hsig) hrest

-- each signature verifies for at most one key
def AtMostOneKey (scriptPubKey : CScript) (checker : BaseSignatureChecker) (sigversion : SigVersion)
    (pubkeys sigs : List Valtype) : Prop :=
  ∀ sig ∈ sigs, ∀ key ∈ pubkeys, ∀ key' ∈ pubkeys,
    checker.checkSig sig key scriptPubKey sigversion = true →
    checker.checkSig sig key' scriptPubKey sigversion = true → key = key'

theorem matchSigs_complete {allsigs : List Valtype} {sigs : Valtype → Option Valtype}
    (hone : AtMostOneKey scriptPubKey checker sigversion pubkeys allsigs) {sig key : Valtype}
    (hsig : sig ∈ allsigs) (hkey : key ∈ pubkeys)
    (hcheck : checker.checkSig sig key scriptPubKey sigversion = true) :
    (matchSigs scriptPubKey checker sigversion pubkeys allsigs sigs key).isSome := by
  induction allsigs generalizing sigs with
  | nil => cases hsig
  | cons s allsigs ih =>
    rcases List.mem_cons.mp hsig with rfl | hsig
    · have hmatch :
          (matchSig scriptPubKey checker sigversion sig pubkeys sigs key).isSome = true := by
        rcases matchSig_cases scriptPubKey checker sigversion sig pubkeys sigs with
          ⟨hsame, hall⟩ | ⟨k, hk, -, hk', hupdate⟩
        · rw [hsame]
          exact hall key hkey hcheck
        · rw [hupdate, hone sig (List.mem_cons_self ..) key hkey k hk hcheck hk',
            Function.update_self]
          rfl
      change (matchSigs _ _ _ _ allsigs _ key).isSome = true
      exact matchSigs_isSome hmatch
    · exact ih (fun t ht => hone t (List.mem_cons_of_mem _ ht)) hsig

-- the positions of the first `nSigsRequired` keys that a signature is held for
def covered (sigs : Valtype → Option Valtype) (nSigsRequired : Nat) (pubkeys : List Valtype) :
    List Nat :=
  ((List.range pubkeys.length).filter fun i => (sigs (pubkeys.getD i [])).isSome).take nSigsRequired

theorem filter_range_cons (p : Valtype → Bool) (key : Valtype) (keys : List Valtype) :
    ((List.range (key :: keys).length).filter fun i => p ((key :: keys).getD i [])) =
      (if p key then [0] else []) ++
        ((List.range keys.length).filter fun i => p (keys.getD i [])).map Nat.succ := by
  rw [List.length_cons, List.range_succ_eq_map, List.filter_cons, List.filter_map]
  simp only [List.getD_cons_zero, Function.comp_def, Nat.succ_eq_add_one, List.getD_cons_succ]
  split <;> rfl

theorem pushSigs_eq (sigs : Valtype → Option Valtype) (nSigsRequired : Nat) (pubkeys : List Valtype) :
    pushSigs sigs nSigsRequired pubkeys = (covered sigs nSigsRequired pubkeys).map fun i =>
      (sigs (pubkeys.getD i [])).getD [] := by
  induction pubkeys generalizing nSigsRequired with
  | nil => cases nSigsRequired <;> rfl
  | cons key pubkeys ih =>
    cases nSigsRequired with
    | zero => simp [pushSigs, covered]
    | succ n =>
      rw [pushSigs, covered, filter_range_cons fun k => (sigs k).isSome]
      cases hkey : sigs key with
      | none =>
        simp only [ih, covered, Option.isSome_none, Bool.false_eq_true, if_false, List.nil_append,
          ← List.map_take, List.map_map]
        rfl
      | some sig =>
        simp only [ih, covered, Option.isSome_some, if_true, List.singleton_append,
          List.take_succ_cons, List.map_cons, ← List.map_take, List.map_map]
        rw [List.getD_cons_zero, hkey]
        rfl

theorem pairwise_covered (sigs : Valtype → Option Valtype) (nSigsRequired : Nat)
    (pubkeys : List Valtype) : (covered sigs nSigsRequired pubkeys).Pairwise (· < ·) :=
  (List.pairwise_lt_range.filter _).sublist (List.take_sublist _ _)

theorem mem_of_covered {sigs : Valtype → Option Valtype} {nSigsRequired i : Nat}
    (h : i ∈ covered sigs nSigsRequired pubkeys) :
    i < pubkeys.length ∧ (sigs (pubkeys.getD i [])).isSome = true := by
  have hmem := List.mem_of_mem_take h
  rw [List.mem_filter, List.mem_range] at hmem
  exact hmem

-- A key that a signature is held for is passed over only when enough before it are covered.
theorem mem_covered {sigs : Valtype → Option Valtype} {nSigsRequired i : Nat}
    (hi : i < pubkeys.length) (hsig : (sigs (pubkeys.getD i [])).isSome = true)
    (hfew : ((covered sigs nSigsRequired pubkeys).filter (· < i)).length < nSigsRequired) :
    i ∈ covered sigs nSigsRequired pubkeys := by
  by_contra hnot
  have hmem : i ∈ (List.range pubkeys.length).filter fun i => (sigs (pubkeys.getD i [])).isSome :=
    List.mem_filter.mpr ⟨List.mem_range.mpr hi, hsig⟩
  have hsorted : ((List.range pubkeys.length).filter fun i =>
      (sigs (pubkeys.getD i [])).isSome).Pairwise (· < ·) := List.pairwise_lt_range.filter _
  unfold covered at hnot hfew
  generalize ((List.range pubkeys.length).filter fun i => (sigs (pubkeys.getD i [])).isSome) = all at *
  rw [← List.take_append_drop nSigsRequired all] at hmem hsorted
  have hdrop : i ∈ all.drop nSigsRequired := (List.mem_append.mp hmem).resolve_left hnot
  -- everything covered lies before `i`, and there is more than enough of it
  have hbefore : (all.take nSigsRequired).filter (· < i) = all.take nSigsRequired := by
    rw [List.filter_eq_self]
    intro j hj
    exact decide_eq_true ((List.pairwise_append.mp hsorted).2.2 j hj i hdrop)
  have hlen := List.length_pos_of_mem hdrop
  rw [hbefore, List.length_take] at hfew
  rw [List.length_drop] at hlen
  omega

-- the covered positions of the merge
def coveredKeys (scriptPubKey : CScript) (checker : BaseSignatureChecker) (sigversion : SigVersion)
    (m : UInt8) (keys sigs1 sigs2 : List Valtype) : List Nat :=
  covered (matchSigs scriptPubKey checker sigversion keys
    (insertSigs (insertSigs [] sigs1) sigs2) fun _ => none) m.toNat keys

theorem coveredKeys_comm (m : UInt8) (keys : List Valtype) :
    coveredKeys scriptPubKey checker sigversion m keys sigs2 sigs1 =
      coveredKeys scriptPubKey checker sigversion m keys sigs1 sigs2 := by
  rw [coveredKeys, coveredKeys, insertSigs_comm]

theorem combineMultisig_comm (vSolutions : List Valtype) :
    combineMultisig scriptPubKey checker vSolutions sigs2 sigs1 sigversion =
      combineMultisig scriptPubKey checker vSolutions sigs1 sigs2 sigversion := by
  rw [combineMultisig, combineMultisig, insertSigs_comm]

-- A merge of two sets of signatures for the keys, `covered` being the positions it has one for.
structure Merged (scriptPubKey : CScript) (checker : BaseSignatureChecker) (sigversion : SigVersion)
    (m : UInt8) (keys sigs1 sigs2 result : List Valtype) (covered : List Nat) : Prop where
  length_result : result.length = m.toNat + 1
  layout : ∃ found : List Valtype,
    result = [] :: found ++ List.replicate (m.toNat - found.length) [] ∧
    List.Forall₂ (fun i sig => ∃ key, keys[i]? = some key ∧ sig ∈ sigs1 ++ sigs2 ∧ sig ≠ [] ∧
      checker.checkSig sig key scriptPubKey sigversion = true) covered found
  increasing : covered.Pairwise (· < ·)
  complete : AtMostOneKey scriptPubKey checker sigversion keys
      ((sigs1 ++ sigs2).filter fun sig => !sig.isEmpty) →
    ∀ i key sig, keys[i]? = some key → sig ∈ sigs1 ++ sigs2 → sig ≠ [] →
      checker.checkSig sig key scriptPubKey sigversion = true →
      (covered.filter (· < i)).length < m.toNat → i ∈ covered

theorem combineMultisig_eq (m n : UInt8) (keys : List Valtype) :
    combineMultisig scriptPubKey checker ([m] :: keys ++ [[n]]) sigs1 sigs2 sigversion =
      let sigs := matchSigs scriptPubKey checker sigversion keys
        (insertSigs (insertSigs [] sigs1) sigs2) fun _ => none
      let found := (coveredKeys scriptPubKey checker sigversion m keys sigs1 sigs2).map fun i =>
        (sigs (keys.getD i [])).getD []
      [] :: found ++ List.replicate (m.toNat - found.length) [] := by
  have hkeys : (([m] :: keys ++ [[n]]).drop 1).take (([m] :: keys ++ [[n]]).length - 2) = keys := by
    have hlen : ([m] :: keys ++ [[n]]).length - 2 = keys.length := by simp
    rw [hlen]
    exact List.take_left
  rw [combineMultisig, hkeys, pushSigs_eq]
  rfl

theorem combineMultisig_merged (m n : UInt8) (keys : List Valtype) :
    Merged scriptPubKey checker sigversion m keys sigs1 sigs2
      (combineMultisig scriptPubKey checker ([m] :: keys ++ [[n]]) sigs1 sigs2 sigversion)
      (coveredKeys scriptPubKey checker sigversion m keys sigs1 sigs2) := by
  have hpool : ∀ sig, sig ∈ insertSigs (insertSigs [] sigs1) sigs2 ↔ sig ∈ sigs1 ++ sigs2 ∧ sig ≠ [] := by
    intro sig
    simp only [mem_insertSigs, List.not_mem_nil, false_or, List.mem_append]
    tauto
  have hlen : (coveredKeys scriptPubKey checker sigversion m keys sigs1 sigs2).length ≤ m.toNat :=
    List.length_take_le _ _
  have hheld : Held scriptPubKey checker sigversion (insertSigs (insertSigs [] sigs1) sigs2)
      (matchSigs scriptPubKey checker sigversion keys (insertSigs (insertSigs [] sigs1) sigs2)
        fun _ => none) := matchSigs_held nofun fun _ h => h
  refine ⟨?_, ⟨_, combineMultisig_eq m n keys, ?_⟩, pairwise_covered _ _ _, ?_⟩
  · rw [combineMultisig_eq]
    simp only [List.cons_append, List.length_cons, List.length_append, List.length_map,
      List.length_replicate]
    omega
  · rw [List.forall₂_map_right_iff, List.forall₂_same]
    intro i hi
    obtain ⟨hrange, hsome⟩ := mem_of_covered hi
    obtain ⟨sig, hsig⟩ := Option.isSome_iff_exists.mp hsome
    obtain ⟨hmem, hcheck⟩ := hheld _ sig hsig
    rw [List.getD_eq_getElem _ _ hrange] at hsig hcheck
    refine ⟨keys[i], List.getElem?_eq_getElem hrange, ?_⟩
    rw [List.getD_eq_getElem _ _ hrange, hsig]
    exact ⟨((hpool sig).mp hmem).1, ((hpool sig).mp hmem).2, hcheck⟩
  · intro hone i key sig hkey hsig hne hcheck hfew
    obtain ⟨hrange, hget⟩ := List.getElem?_eq_some_iff.mp hkey
    refine mem_covered hrange ?_ hfew
    rw [List.getD_eq_getElem _ _ hrange, hget]
    refine matchSigs_complete (fun s hs => hone s (List.mem_filter.mpr ?_))
      ((hpool sig).mpr ⟨hsig, hne⟩) (hget ▸ List.getElem_mem hrange) hcheck
    have hmem := (hpool s).mp hs
    exact ⟨hmem.1, by simpa using hmem.2⟩

end CombineMultisig

-- where a multisig script is spent from
inductive MultisigContext
  | bare
  | scripthash
  | witnessScripthash
  | witnessInScripthash (program : CScript)

namespace MultisigContext

def sigversion : MultisigContext → SigVersion
  | bare | scripthash => .SIGVERSION_BASE
  | witnessScripthash | witnessInScripthash _ => .SIGVERSION_WITNESS_V0

def Pays (redeem scriptPubKey : CScript) : MultisigContext → Prop
  | bare => scriptPubKey = redeem
  | scripthash => scriptPubKey.isPayToScriptHash = true
  | witnessScripthash =>
    ∃ vSolutions, scriptPubKey.solver = some (.TX_WITNESS_V0_SCRIPTHASH, vSolutions)
  | witnessInScripthash program => scriptPubKey.isPayToScriptHash = true ∧
    ∃ vSolutions, program.solver = some (.TX_WITNESS_V0_SCRIPTHASH, vSolutions)

-- the stacks of an input that hold `sigs` for the script
def Holds (redeem : CScript) (sigs : List Valtype) (input : Stacks) : MultisigContext → Prop
  | bare => input.script = sigs
  | scripthash => input.script = sigs ++ [redeem]
  | witnessScripthash => input.witness = sigs ++ [redeem]
  | witnessInScripthash program =>
    input.script = [program] ∧ input.witness = sigs ++ [redeem]

def output (redeem : CScript) (sigs : List Valtype) : MultisigContext → Stacks
  | bare => ⟨sigs, []⟩
  | scripthash => ⟨sigs ++ [redeem], []⟩
  | witnessScripthash => ⟨[], sigs ++ [redeem]⟩
  | witnessInScripthash program => ⟨[program], sigs ++ [redeem]⟩

end MultisigContext

theorem CScript.solverOut_of_solver {s : CScript} {typeRet : Txnouttype} {vSolutions : List Valtype}
    (h : s.solver = some (typeRet, vSolutions)) (htype : typeRet ≠ .TX_ZEROCOINMINT) :
    s.solverOut = (.written typeRet, vSolutions) := by
  cases solver_branch h with
  | scripthash hscripthash => rw [solverOut, if_pos hscripthash]
  | mint => exact absurd rfl htype
  | witness hscripthash hmint hprogram hwitness =>
    rw [solverOut, if_neg hscripthash, if_neg hmint, hprogram]
    dsimp only
    rw [hwitness]
  | nullData hscripthash hmint hprogram hdata =>
    rw [solverOut, if_neg hscripthash, if_neg hmint, hprogram]
    exact if_pos hdata
  | templates hscripthash hmint hprogram hdata htemplate =>
    rw [solverOut, if_neg hscripthash, if_neg hmint, hprogram]
    dsimp only
    rw [if_neg hdata, solverTemplatesOut]
    cases htemplate with
    | pubKey hkey => rw [hkey]
    | pubKeyHash hkey hhash => rw [hkey, hhash]
    | multisig hkey hhash hmultisig => rw [hkey, hhash, hmultisig]

section Contexts

variable {checker : BaseSignatureChecker} {scriptPubKey redeem program : CScript}
  {sigversion : SigVersion} {input1 input2 : Stacks} {vSolutions sigs1 sigs2 : List Valtype}

theorem combineSignatures_bare (h : redeem.solver = some (.TX_MULTISIG, vSolutions)) :
    combineSignatures checker redeem input1 input2 sigversion =
      some ⟨combineMultisig redeem checker vSolutions input1.script input2.script sigversion, []⟩ := by
  rw [combineSignatures, CScript.solverOut_of_solver h (by decide)]

theorem combineSignatures_scripthash (h : scriptPubKey.isPayToScriptHash = true)
    (hne : redeem ≠ []) (h1 : input1.script = sigs1 ++ [redeem])
    (h2 : input2.script = sigs2 ++ [redeem]) :
    combineSignatures checker scriptPubKey input1 input2 sigversion =
      (combineSignatures checker redeem { input1 with script := sigs1 }
        { input2 with script := sigs2 } sigversion).map fun result =>
          { result with script := result.script ++ [redeem] } := by
  have hout : scriptPubKey.solverOut =
      (.written .TX_SCRIPTHASH, [(scriptPubKey.drop 2).take 20]) := by
    rw [CScript.solverOut, if_pos h]
  rw [combineSignatures, hout]
  simp only [h1, h2, List.getLastD_concat, if_neg hne, List.dropLast_concat]
  cases combineSignatures checker redeem _ _ sigversion <;> rfl

theorem combineSignatures_witness (h : scriptPubKey.solver = some (.TX_WITNESS_V0_SCRIPTHASH, vSolutions))
    (hne : redeem ≠ []) (h1 : input1.witness = sigs1 ++ [redeem])
    (h2 : input2.witness = sigs2 ++ [redeem]) :
    combineSignatures checker scriptPubKey input1 input2 sigversion =
      (combineSignatures checker redeem ⟨sigs1, []⟩ ⟨sigs2, []⟩ .SIGVERSION_WITNESS_V0).map
        fun result => ⟨[], result.script ++ [redeem]⟩ := by
  rw [combineSignatures, CScript.solverOut_of_solver h (by decide)]
  simp only [h1, h2, List.getLastD_concat, if_neg hne, List.dropLast_concat]
  cases combineSignatures checker redeem _ _ .SIGVERSION_WITNESS_V0 <;> rfl

-- In every context the script's own signatures are merged, and put back where they were.
theorem combineSignatures_context (ctx : MultisigContext)
    (h : redeem.solver = some (.TX_MULTISIG, vSolutions)) (hpays : ctx.Pays redeem scriptPubKey)
    (h1 : ctx.Holds redeem sigs1 input1) (h2 : ctx.Holds redeem sigs2 input2) :
    combineSignatures checker scriptPubKey input1 input2 .SIGVERSION_BASE =
      some (ctx.output redeem
        (combineMultisig redeem checker vSolutions sigs1 sigs2 ctx.sigversion)) := by
  have hne : redeem ≠ [] := by
    rintro rfl
    cases h
  cases ctx with
  | bare =>
    obtain rfl : scriptPubKey = redeem := hpays
    obtain rfl : input1.script = sigs1 := h1
    obtain rfl : input2.script = sigs2 := h2
    exact combineSignatures_bare h
  | scripthash =>
    rw [combineSignatures_scripthash hpays hne h1 h2, combineSignatures_bare h]
    rfl
  | witnessScripthash =>
    obtain ⟨hash, hpays⟩ := hpays
    rw [combineSignatures_witness hpays hne h1 h2, combineSignatures_bare h]
    rfl
  | witnessInScripthash program =>
    obtain ⟨hpays, hash, hprogram⟩ := hpays
    have hprogram' : program ≠ [] := by
      rintro rfl
      cases hprogram
    have hscript1 : input1.script = [] ++ [program] := h1.1
    have hscript2 : input2.script = [] ++ [program] := h2.1
    have hwitness1 : (⟨[], input1.witness⟩ : Stacks).witness = sigs1 ++ [redeem] := h1.2
    have hwitness2 : (⟨[], input2.witness⟩ : Stacks).witness = sigs2 ++ [redeem] := h2.2
    rw [combineSignatures_scripthash hpays hprogram' hscript1 hscript2,
      combineSignatures_witness hprogram hne hwitness1 hwitness2, combineSignatures_bare h]
    rfl

end Contexts

open CombineMultisig in
theorem combineSignatures_multisig {redeem : CScript} {m n : UInt8} {keys : List Valtype}
    (h : redeem.solver = some (.TX_MULTISIG, [m] :: keys ++ [[n]])) (checker : BaseSignatureChecker)
    (sigs1 sigs2 : List Valtype) :
    (∀ (ctx : MultisigContext) (scriptPubKey : CScript) (input1 input2 : Stacks),
      ctx.Pays redeem scriptPubKey → ctx.Holds redeem sigs1 input1 → ctx.Holds redeem sigs2 input2 →
      combineSignatures checker scriptPubKey input1 input2 .SIGVERSION_BASE =
        some (ctx.output redeem (combineMultisig redeem checker ([m] :: keys ++ [[n]]) sigs1 sigs2
          ctx.sigversion))) ∧
    ∀ sigversion : SigVersion,
      Merged redeem checker sigversion m keys sigs1 sigs2
        (combineMultisig redeem checker ([m] :: keys ++ [[n]]) sigs1 sigs2 sigversion)
        (coveredKeys redeem checker sigversion m keys sigs1 sigs2) ∧
      coveredKeys redeem checker sigversion m keys sigs2 sigs1 =
        coveredKeys redeem checker sigversion m keys sigs1 sigs2 ∧
      combineMultisig redeem checker ([m] :: keys ++ [[n]]) sigs2 sigs1 sigversion =
        combineMultisig redeem checker ([m] :: keys ++ [[n]]) sigs1 sigs2 sigversion :=
  ⟨fun ctx _ _ _ hpays h1 h2 => combineSignatures_context ctx h hpays h1 h2,
    fun _ => ⟨combineMultisig_merged m n keys, coveredKeys_comm m keys, combineMultisig_comm _⟩⟩

-- two keys of one repeated byte, and a checker that compares first bytes
def twoOfTwo : CScript :=
  [OP_1 + 1, 33] ++ List.replicate 33 2 ++ [33] ++ List.replicate 33 3 ++ [OP_1 + 1, OP_CHECKMULTISIG]

def firstByteChecker : BaseSignatureChecker :=
  ⟨fun sig key _ _ => sig.head? == key.head?, fun _ => true, fun _ => true⟩

theorem combineSignatures_multisig_two :
    combineSignatures firstByteChecker twoOfTwo ⟨[[], [3, 7]], []⟩ ⟨[[], [2, 7]], []⟩
        .SIGVERSION_BASE = some ⟨[[], [2, 7], [3, 7]], []⟩ ∧
      CombineMultisig.coveredKeys twoOfTwo firstByteChecker .SIGVERSION_BASE 2
        [List.replicate 33 2, List.replicate 33 3] [[], [2, 7]] [[], [3, 7]] = [0, 1] := by
  have hmerge := combineSignatures_multisig
    (by decide : twoOfTwo.solver = some (.TX_MULTISIG,
      [2] :: [List.replicate 33 2, List.replicate 33 3] ++ [[2]])) firstByteChecker
    [[], [3, 7]] [[], [2, 7]]
  refine ⟨(hmerge.1 .bare twoOfTwo ⟨[[], [3, 7]], []⟩ ⟨[[], [2, 7]], []⟩ rfl rfl rfl).trans
    (by decide), ?_⟩
  rw [(hmerge.2 .SIGVERSION_BASE).2.1]
  decide

end AnkerNode
