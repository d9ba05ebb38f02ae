import AnkerNode.Coins.Undo
import AnkerNode.Validation.CheckBlock
import AnkerNode.Validation.Merkle

namespace AnkerNode

open ByteStream Checks

def serializeBytes (bs : List UInt8) : List UInt8 := writeCompactSize bs.length ++ bs

def CTxIn.serialize (txin : CTxIn) : List UInt8 :=
  writeLE 32 txin.prevout.hash.toNat ++ writeLE 4 txin.prevout.n.toNat ++
    serializeBytes txin.scriptSig ++ writeLE 4 txin.nSequence.toNat

def CTxOut.serialize (txout : CTxOut) : List UInt8 :=
  writeLE 8 (txout.nValue % 2 ^ 64).toNat ++ serializeBytes txout.scriptPubKey

-- The extended format has an empty vin and the flag 1 before the transaction's own vin.
def CTransaction.serialize (fAllowWitness : Bool) (tx : CTransaction) : List UInt8 :=
  let fWitness := fAllowWitness && !tx.witIsNull
  writeLE 4 (tx.nVersion % 2 ^ 32).toNat ++ (if fWitness then [0, 1] else []) ++
    serializeVector CTxIn.serialize tx.vin ++ serializeVector CTxOut.serialize tx.vout ++
    (if fWitness then tx.resizedWitness.flatMap (serializeVector serializeBytes) else []) ++
    writeLE 4 tx.nLockTime.toNat

def uint256Zero : List UInt8 := List.replicate 32 0

-- The leaf of the coinbase is null.
def witnessLeaves (hash256 : List UInt8 → List UInt8) (block : CBlock) : List (List UInt8) :=
  uint256Zero :: block.vtx.tail.map fun tx => hash256 (tx.serialize true)

def blockWitnessMerkleRoot (hash256 : List UInt8 → List UInt8) (block : CBlock) : List UInt8 :=
  Merkle.merkleComputation (fun l r => hash256 (l ++ r)) uint256Zero (witnessLeaves hash256 block)

def CTransaction.resizeWitness (tx : CTransaction) : CTransaction :=
  { tx with vtxinwit := tx.resizedWitness }

namespace BlockContext

variable (ctx : BlockContext)

def withWitnessTree : BlockContext :=
  { ctx with blockWitnessMerkleRoot := AnkerNode.blockWitnessMerkleRoot ctx.hash256 }

-- vtx[1] is read unchecked
def updateUncommittedBlockStructures (block : CBlock) (pindexPrev : ParentIndex) :
    Except Failure CBlock :=
  match block.vtx with
  | coinbase :: coinstake :: vtx =>
    if (getWitnessCommitment coinstake).isSome &&
        decide (ctx.sporkSegwitActivation < pindexPrev.nTime) && coinstake.vtxinwit.isEmpty then
      .ok { block with
        vtx := coinbase :: { coinstake with vtxinwit := [[List.replicate 32 0]] } :: vtx }
    else .ok block
  | _ => .error Failure.assertion

def updateHash (tx : CTransaction) : CTransaction :=
  let bytes := ctx.hash256 (tx.serialize false)
  { tx with hash := BitVec.ofNat 256 (bytes.foldr (fun b n => b.toNat + 256 * n) 0) }

def commitmentScript (witnessroot : List UInt8) : CScript :=
  [OP_RETURN, 0x24, 0xaa, 0x21, 0xa9, 0xed] ++ witnessroot

def commitTo (coinstake : CTransaction) (commitment : CScript) : CTransaction :=
  ctx.updateHash { coinstake with vout := coinstake.vout ++ [⟨0, commitment⟩] }

def generateCoinbaseCommitment (block : CBlock) (pindexPrev : ParentIndex) :
    Except Failure (CBlock × List UInt8) :=
  match block.vtx with
  | coinbase :: coinstake :: vtx =>
    let fHaveWitness := (coinstake :: vtx).any fun tx => !tx.witIsNull
    if fHaveWitness && decide (ctx.sporkSegwitActivation < pindexPrev.nTime) &&
        (getWitnessCommitment coinstake).isNone then do
      failIf (!block.witnessesFit) Failure.assertion
      let witnessroot := AnkerNode.blockWitnessMerkleRoot ctx.hash256 block
      let commitment := commitmentScript (ctx.hash256 (witnessroot ++ List.replicate 32 0))
      -- the witness root has resized the witnesses on its way
      let block ← ctx.updateUncommittedBlockStructures
        { block with
          vtx := coinbase :: ctx.commitTo coinstake.resizeWitness commitment ::
            vtx.map CTransaction.resizeWitness } pindexPrev
      .ok (block, commitment)
    else do
      let block ← ctx.updateUncommittedBlockStructures block pindexPrev
      .ok (block, [])
  | _ => .error Failure.assertion

-- what `ContextualCheckBlock` says of the witnesses of a block
def checkWitnesses (block : CBlock) (parent : Option ParentIndex) : Except Failure Unit := do
  let fHaveWitness ← ctx.haveWitness block parent
  failIf (!fHaveWitness && block.vtx.any fun tx => !tx.witIsNull)
    (Failure.rejected (CValidationState.doS {} 100 REJECT_INVALID "unexpected-witness" true))

-- The block that was committed to passes the check of its witnesses.
def CommitmentAccepted (block : CBlock) (pindexPrev : ParentIndex) : Prop :=
  ∃ generated, ctx.generateCoinbaseCommitment block pindexPrev = .ok generated ∧
    ctx.withWitnessTree.checkWitnesses generated.1 (some pindexPrev) = .ok ()

-- the strings hashed for the witness root, leaves first
def witnessStrings (block : CBlock) : List (List UInt8) :=
  block.vtx.tail.map (CTransaction.serialize true) ++
    ((Merkle.hashTree uint256Zero (witnessLeaves ctx.hash256 block)).pairs
      fun l r => ctx.hash256 (l ++ r)).map fun p => p.1 ++ p.2

-- and for the commitment to that root, with the nonce of the coinstake if it has one
def commitmentStrings (block : CBlock) (nonce : Option (List UInt8)) : List (List UInt8) :=
  ctx.witnessStrings block ++
    nonce.toList.map fun nonce => AnkerNode.blockWitnessMerkleRoot ctx.hash256 block ++ nonce

def witnessNonce (block : CBlock) : Option (List UInt8) :=
  match block.vtx[1]?.map CTransaction.resizedWitness with
  | some [[nonce]] => some nonce
  | _ => none

-- No two of the strings that generation and validation hash have one hash.
def CollisionFree (block : CBlock) (pindexPrev : ParentIndex) : Prop :=
  ∀ generated, ctx.generateCoinbaseCommitment block pindexPrev = .ok generated →
    ∀ s ∈ ctx.commitmentStrings block (some (List.replicate 32 0)) ++
        ctx.commitmentStrings generated.1 (witnessNonce generated.1),
      ∀ t ∈ ctx.commitmentStrings block (some (List.replicate 32 0)) ++
          ctx.commitmentStrings generated.1 (witnessNonce generated.1),
        ctx.hash256 s = ctx.hash256 t → s = t

end BlockContext

section Serialization

theorem length_writeCompactSize (n : Nat) :
    (writeCompactSize n).length = getSizeOfCompactSize n := by
  rw [writeCompactSize, getSizeOfCompactSize]
  split
  · rfl
  · split
    · simp [length_writeLE]
    · split <;> simp [length_writeLE]

theorem getSizeOfCompactSize_mono {m n : Nat} (h : m ≤ n) :
    getSizeOfCompactSize m ≤ getSizeOfCompactSize n := by
  simp only [getSizeOfCompactSize]
  split_ifs <;> omega

theorem length_serializeVector_lt {α : Type} (w : α → List UInt8) (v : List α) {a : α}
    (ha : 0 < (w a).length) :
    (serializeVector w v).length < (serializeVector w (v ++ [a])).length := by
  have hsize := getSizeOfCompactSize_mono (Nat.le_succ v.length)
  simp only [serializeVector, List.length_append, length_writeCompactSize, List.flatMap_append,
    List.flatMap_cons, List.flatMap_nil, List.length_nil, List.length_cons, Nat.zero_add]
  rw [Nat.succ_eq_add_one] at hsize
  omega

theorem length_txOut_serialize_pos (txout : CTxOut) : 0 < txout.serialize.length := by
  rw [CTxOut.serialize, List.length_append, length_writeLE]
  omega

end Serialization

section Witness

variable {tx tx' : CTransaction}

theorem length_resizedWitness (hnull : tx.witIsNull = false) :
    tx.resizedWitness.length = tx.vin.length := by
  simp [CTransaction.resizedWitness, hnull]

theorem witIsNull_of_resizedWitness_nil (hfit : tx.vtxinwit.length ≤ tx.vin.length)
    (hnil : tx.resizedWitness = []) : tx.witIsNull = true := by
  by_contra hnull
  have hlength := length_resizedWitness (Bool.eq_false_iff.mpr hnull)
  rw [hnil, List.length_nil] at hlength
  have hempty : tx.vtxinwit = [] := List.length_eq_zero_iff.mp (by omega)
  exact hnull (by rw [CTransaction.witIsNull, hempty]; rfl)

-- Resizing drops nothing when there are no more witnesses than inputs.
theorem witIsNull_resize (hfit : tx.vtxinwit.length ≤ tx.vin.length)
    (hwit : tx'.vtxinwit = tx.resizedWitness) : tx'.witIsNull = tx.witIsNull := by
  cases hnull : tx.witIsNull with
  | true =>
    rw [CTransaction.resizedWitness, if_pos hnull] at hwit
    rw [← hnull, CTransaction.witIsNull, CTransaction.witIsNull, hwit]
  | false =>
    rw [CTransaction.witIsNull, List.all_eq_false] at hnull ⊢
    obtain ⟨stack, hmem, hne⟩ := hnull
    refine ⟨stack, ?_, hne⟩
    obtain ⟨i, hi, rfl⟩ := List.getElem_of_mem hmem
    have hnull' : ¬tx.witIsNull = true := by
      rw [CTransaction.witIsNull, List.all_eq_true]
      exact fun hall => hne (hall _ hmem)
    rw [hwit, CTransaction.resizedWitness, if_neg hnull', List.mem_map]
    exact ⟨i, List.mem_range.mpr (by omega), by rw [List.getElem?_eq_getElem hi, Option.getD_some]⟩

theorem resizedWitness_resize (hfit : tx.vtxinwit.length ≤ tx.vin.length) (hvin : tx'.vin = tx.vin)
    (hwit : tx'.vtxinwit = tx.resizedWitness) : tx'.resizedWitness = tx.resizedWitness := by
  cases hnull : tx.witIsNull with
  | true =>
    rw [CTransaction.resizedWitness, if_pos (by rw [witIsNull_resize hfit hwit, hnull]), hwit]
  | false =>
    have hlength := length_resizedWitness hnull
    rw [CTransaction.resizedWitness, if_neg (by simp [witIsNull_resize hfit hwit, hnull]), hwit,
      hvin, ← hlength]
    refine List.ext_getElem (by simp) fun i hi hi' => ?_
    rw [List.getElem_map, List.getElem_range, List.getElem?_eq_getElem hi', Option.getD_some]

-- One more output makes a longer string, whatever becomes of an empty witness.
theorem length_serialize_lt {txout : CTxOut} (hvin : tx'.vin = tx.vin)
    (hvout : tx'.vout = tx.vout ++ [txout]) (hfit : tx.vtxinwit.length ≤ tx.vin.length)
    (hwit : tx.witIsNull = true ∨ tx'.vtxinwit = tx.resizedWitness) :
    (tx.serialize true).length < (tx'.serialize true).length := by
  have hlt := length_serializeVector_lt CTxOut.serialize tx.vout (length_txOut_serialize_pos txout)
  rw [← hvout] at hlt
  cases hnull : tx.witIsNull with
  | true =>
    simp only [CTransaction.serialize, hnull, hvin, List.length_append, length_writeLE,
      Bool.not_true, Bool.and_false, Bool.false_eq_true, if_false, List.length_nil]
    omega
  | false =>
    rw [hnull, or_iff_right Bool.false_ne_true] at hwit
    simp only [CTransaction.serialize, hnull, witIsNull_resize hfit hwit,
      resizedWitness_resize hfit hvin hwit, hvin, List.length_append, length_writeLE]
    omega

end Witness

namespace BlockContext

section Generation

variable {ctx : BlockContext} {block : CBlock} {pindexPrev : ParentIndex}
  {coinbase coinstake : CTransaction} {vtx : List CTransaction} {generated : CBlock × List UInt8}

-- The coinstake with the commitment added: its outputs, and its witness unless that was empty.
structure CommittedTo (ctx : BlockContext) (block : CBlock) (coinstake coinstake' : CTransaction) :
    Prop where
  vin : coinstake'.vin = coinstake.vin
  vout : coinstake'.vout = coinstake.vout ++ [⟨0, commitmentScript
    (ctx.hash256 (AnkerNode.blockWitnessMerkleRoot ctx.hash256 block ++ List.replicate 32 0))⟩]
  witness : coinstake.witIsNull = true ∨ coinstake'.vtxinwit = coinstake.resizedWitness

theorem updateUncommitted_eq_ok {updated : CBlock} (hvtx : block.vtx = coinbase :: coinstake :: vtx)
    (h : ctx.updateUncommittedBlockStructures block pindexPrev = .ok updated) :
    ∃ wit, updated.vtx = coinbase :: { coinstake with vtxinwit := wit } :: vtx ∧
      (wit = coinstake.vtxinwit ∨ coinstake.vtxinwit = []) := by
  rw [updateUncommittedBlockStructures, hvtx] at h
  dsimp only at h
  split at h
  · rename_i hcond
    rw [Bool.and_eq_true, List.isEmpty_iff] at hcond
    rw [Except.ok.injEq] at h
    exact ⟨[[List.replicate 32 0]], by rw [← h], Or.inr hcond.2⟩
  · rw [Except.ok.injEq] at h
    exact ⟨coinstake.vtxinwit, by rw [← h, hvtx], Or.inl rfl⟩

theorem generate_committed (hvtx : block.vtx = coinbase :: coinstake :: vtx)
    (hactive : ctx.sporkSegwitActivation < pindexPrev.nTime)
    (hwit : ((coinstake :: vtx).any fun tx => !tx.witIsNull) = true)
    (hnone : getWitnessCommitment coinstake = none)
    (h : ctx.generateCoinbaseCommitment block pindexPrev = .ok generated) :
    block.witnessesFit = true ∧ ∃ coinstake', CommittedTo ctx block coinstake coinstake' ∧
      generated.1.vtx = coinbase :: coinstake' :: vtx.map CTransaction.resizeWitness := by
  rw [generateCoinbaseCommitment, hvtx] at h
  dsimp only at h
  rw [if_pos (by rw [hwit, decide_eq_true hactive, hnone]; rfl), seq_eq_ok, failIf_eq_ok,
    Bool.not_eq_false'] at h
  obtain ⟨hfit, h⟩ := h
  rw [bind_eq_ok] at h
  obtain ⟨updated, hupdate, heq⟩ := h
  rw [Except.ok.injEq] at heq
  subst heq
  obtain ⟨wit, hupdated, hcases⟩ := updateUncommitted_eq_ok rfl hupdate
  have hfitStake : coinstake.vtxinwit.length ≤ coinstake.vin.length := by
    rw [CBlock.witnessesFit, hvtx, List.tail_cons, List.all_cons, Bool.and_eq_true,
      decide_eq_true_eq] at hfit
    exact hfit.1
  refine ⟨hfit, _, ?_, hupdated⟩
  refine ⟨rfl, rfl, ?_⟩
  rcases hcases with rfl | hempty
  · exact Or.inr rfl
  · exact Or.inl (witIsNull_of_resizedWitness_nil hfitStake hempty)

-- Witnesses of the coinbase alone call for no commitment.
theorem generate_unchanged (hvtx : block.vtx = coinbase :: coinstake :: vtx)
    (hwit : ((coinstake :: vtx).any fun tx => !tx.witIsNull) = false)
    (hnone : getWitnessCommitment coinstake = none)
    (h : ctx.generateCoinbaseCommitment block pindexPrev = .ok generated) : generated.1 = block := by
  rw [generateCoinbaseCommitment, hvtx] at h
  dsimp only at h
  rw [hwit, Bool.false_and, Bool.false_and, if_neg Bool.false_ne_true, bind_eq_ok] at h
  obtain ⟨updated, hupdate, heq⟩ := h
  rw [Except.ok.injEq] at heq
  subst heq
  rw [updateUncommittedBlockStructures, hvtx] at hupdate
  dsimp only at hupdate
  rw [hnone, Option.isSome_none, Bool.false_and, Bool.false_and, if_neg Bool.false_ne_true,
    Except.ok.injEq] at hupdate
  exact hupdate.symm

theorem getWitnessCommitment_append {tx : CTransaction} {txout : CTxOut} {vout : List CTxOut}
    (hvout : tx.vout = vout ++ [txout]) (hcommitment : isWitnessCommitment txout = true) :
    getWitnessCommitment tx = some txout := by
  rw [getWitnessCommitment, hvout, List.filter_append, List.filter_cons_of_pos hcommitment,
    List.filter_nil, List.getLast?_append, List.getLast?_singleton, Option.some_or]

theorem checkWitnessCommitment_eq_ok {txout : CTxOut}
    (h : ctx.checkWitnessCommitment block coinstake txout = .ok ()) :
    ∃ nonce, coinstake.resizedWitness = [[nonce]] ∧ nonce.length = 32 ∧
      ctx.hash256 (ctx.blockWitnessMerkleRoot block ++ nonce) =
        (txout.scriptPubKey.drop 6).take 32 := by
  rw [checkWitnessCommitment, seq_eq_ok] at h
  obtain ⟨-, h⟩ := h
  split at h
  · rename_i nonce hnonce
    rw [seq_eq_ok, failIf_eq_ok, failIf_eq_ok, bne_eq_false_iff_eq, bne_eq_false_iff_eq] at h
    exact ⟨nonce, hnonce, h.1, h.2⟩
  · exact absurd h (by simp)

theorem checkWitnesses_eq_ok (hvtx : block.vtx = coinbase :: coinstake :: vtx)
    (hactive : ctx.sporkSegwitActivation < pindexPrev.nTime)
    (h : ctx.checkWitnesses block (some pindexPrev) = .ok ()) :
    (getWitnessCommitment coinstake = none ∧ block.vtx.all CTransaction.witIsNull = true) ∨
      ∃ txout, getWitnessCommitment coinstake = some txout ∧
        ctx.checkWitnessCommitment block coinstake txout = .ok () := by
  have hlooks : (some pindexPrev).any (fun p => decide (ctx.sporkSegwitActivation < p.nTime)) = true :=
    decide_eq_true hactive
  have hcoinstake : fromOption Failure.assertion block.vtx[1]? = .ok coinstake := by
    rw [hvtx]
    rfl
  rw [checkWitnesses, haveWitness, if_pos hlooks, hcoinstake, bind_eq_ok] at h
  obtain ⟨fHaveWitness, hhave, h⟩ := h
  simp only [bind, Except.bind] at hhave
  cases hcommitment : getWitnessCommitment coinstake with
  | none =>
    rw [hcommitment, Except.ok.injEq] at hhave
    rw [← hhave, failIf_eq_ok, Bool.not_false, Bool.true_and, List.any_eq_false] at h
    refine Or.inl ⟨rfl, List.all_eq_true.mpr fun tx htx => ?_⟩
    simpa using h tx htx
  | some txout =>
    rw [hcommitment] at hhave
    refine Or.inr ⟨txout, rfl, ?_⟩
    cases hcheck : ctx.checkWitnessCommitment block coinstake txout with
    | error e => simp [hcheck] at hhave
    | ok u => rfl

theorem checkWitnesses_of_contextualCheckBlock {parent : Option ParentIndex}
    (h : ctx.contextualCheckBlock block parent = .ok ()) :
    ctx.checkWitnesses block parent = .ok () := by
  simp only [contextualCheckBlock, bind_eq_ok] at h
  obtain ⟨_, -, _, -, _, -, fHaveWitness, hhave, _, hunexpected, -⟩ := h
  rw [checkWitnesses, bind_eq_ok]
  exact ⟨fHaveWitness, hhave, hunexpected⟩

theorem length_witnessLeaves (hash256 : List UInt8 → List UInt8) (block : CBlock) :
    (witnessLeaves hash256 block).length = block.vtx.tail.length + 1 := by
  rw [witnessLeaves, List.length_cons, List.length_map]

-- Blocks with as many transactions and one witness root have the same witness leaves.
theorem witnessLeaves_eq_of_root_eq {block' : CBlock}
    (hlen : ∀ bs, (ctx.hash256 bs).length = 32)
    (hfree : ∀ s ∈ ctx.witnessStrings block, ∀ t ∈ ctx.witnessStrings block',
      ctx.hash256 s = ctx.hash256 t → s = t)
    (hlength : block.vtx.length = block'.vtx.length)
    (hroot : AnkerNode.blockWitnessMerkleRoot ctx.hash256 block =
      AnkerNode.blockWitnessMerkleRoot ctx.hash256 block') :
    witnessLeaves ctx.hash256 block = witnessLeaves ctx.hash256 block' := by
  have hwide : ∀ b : CBlock, ∀ p ∈ (Merkle.hashTree uint256Zero (witnessLeaves ctx.hash256 b)).pairs
      fun l r => ctx.hash256 (l ++ r), p.1.length = 32 ∧ p.2.length = 32 := by
    intro b
    refine (HashTree.forall_pairs (P := fun bs : List UInt8 => bs.length = 32) (fun l r => hlen _)
      (Merkle.forall_leaves_hashTree rfl fun leaf hleaf => ?_)).2
    rcases List.mem_cons.mp hleaf with rfl | hleaf
    · rfl
    · obtain ⟨tx, -, rfl⟩ := List.mem_map.mp hleaf
      exact hlen _
  refine Merkle.leaves_eq_of_merkleComputation_eq ?_ (fun p hp q hq hhash => ?_) hroot
  · rw [length_witnessLeaves, length_witnessLeaves, List.length_tail, List.length_tail, hlength]
  · have hstring := hfree (p.1 ++ p.2) (List.mem_append_right _ (List.mem_map_of_mem hp))
      (q.1 ++ q.2) (List.mem_append_right _ (List.mem_map_of_mem hq)) hhash
    have hparts := List.append_inj hstring (by rw [(hwide _ p hp).1, (hwide _ q hq).1])
    exact Prod.ext hparts.1 hparts.2

theorem take_commitmentScript {witnessroot : List UInt8} (hlength : witnessroot.length = 32) :
    ((commitmentScript witnessroot).drop 6).take 32 = witnessroot := by
  rw [commitmentScript]
  exact List.take_of_length_le hlength.le

-- The witness hash of the coinstake is a leaf, and its output more changes it.
theorem commitment_differs {coinstake' : CTransaction} {block' : CBlock} {nonce : List UInt8}
    (hvtx : block.vtx = coinbase :: coinstake :: vtx)
    (hvtx' : block'.vtx = coinbase :: coinstake' :: vtx.map CTransaction.resizeWitness)
    (hcommitted : CommittedTo ctx block coinstake coinstake') (hfit : block.witnessesFit = true)
    (hlen : ∀ bs, (ctx.hash256 bs).length = 32)
    (hfree : ∀ s ∈ ctx.commitmentStrings block (some (List.replicate 32 0)) ++
        ctx.commitmentStrings block' (witnessNonce block'),
      ∀ t ∈ ctx.commitmentStrings block (some (List.replicate 32 0)) ++
          ctx.commitmentStrings block' (witnessNonce block'),
        ctx.hash256 s = ctx.hash256 t → s = t)
    (hnonce : coinstake'.resizedWitness = [[nonce]]) (hsize : nonce.length = 32) :
    ctx.hash256 (AnkerNode.blockWitnessMerkleRoot ctx.hash256 block' ++ nonce) ≠
      ctx.hash256 (AnkerNode.blockWitnessMerkleRoot ctx.hash256 block ++ List.replicate 32 0) := by
  intro hhash
  have hsome : witnessNonce block' = some nonce := by
    rw [witnessNonce, hvtx']
    simp [hnonce]
  rw [hsome] at hfree
  have hstring := hfree _ (by simp [commitmentStrings]) _ (by simp [commitmentStrings]) hhash
  have hroot := (List.append_inj' hstring (by rw [hsize, List.length_replicate])).1
  have hleaves := witnessLeaves_eq_of_root_eq hlen
    (fun s hs t ht => hfree s (by simp [commitmentStrings, hs]) t (by simp [commitmentStrings, ht]))
    (by rw [hvtx, hvtx']; simp) hroot.symm
  rw [witnessLeaves, witnessLeaves, hvtx, hvtx'] at hleaves
  simp only [List.tail_cons, List.map_cons, List.cons.injEq, true_and] at hleaves
  have hserial := hfree (coinstake.serialize true) (by simp [commitmentStrings, witnessStrings, hvtx])
    (coinstake'.serialize true) (by simp [commitmentStrings, witnessStrings, hvtx']) hleaves.1
  have hfitStake : coinstake.vtxinwit.length ≤ coinstake.vin.length := by
    simp only [CBlock.witnessesFit, hvtx, List.tail_cons, List.all_cons, Bool.and_eq_true,
      decide_eq_true_eq] at hfit
    exact hfit.1
  have hlonger := length_serialize_lt hcommitted.vin hcommitted.vout hfitStake hcommitted.witness
  rw [hserial] at hlonger
  exact Nat.lt_irrefl _ hlonger

end Generation

-- The commitment is an output of the coinstake, whose witness hash is itself a leaf of the tree:
-- adding the output changes the root that it commits to.
theorem commitment_never_accepted (ctx : BlockContext) (block : CBlock) (pindexPrev : ParentIndex)
    {coinbase coinstake : CTransaction} {vtx : List CTransaction}
    (hvtx : block.vtx = coinbase :: coinstake :: vtx)
    (hwitness : ∃ tx ∈ block.vtx, tx.witIsNull = false)
    (hactive : ctx.sporkSegwitActivation < pindexPrev.nTime)
    (hnone : getWitnessCommitment coinstake = none)
    (hlen : ∀ bs, (ctx.hash256 bs).length = 32) (hfree : ctx.CollisionFree block pindexPrev) :
    ¬ctx.CommitmentAccepted block pindexPrev := by
  rintro ⟨generated, hgenerated, hpass⟩
  have hactive' : ctx.withWitnessTree.sporkSegwitActivation < pindexPrev.nTime := hactive
  cases hwit : (coinstake :: vtx).any fun tx => !tx.witIsNull with
  | false =>
    rw [generate_unchanged hvtx hwit hnone hgenerated] at hpass
    rcases checkWitnesses_eq_ok hvtx hactive' hpass with ⟨-, hall⟩ | ⟨txout, hsome, -⟩
    · obtain ⟨tx, htx, hnull⟩ := hwitness
      rw [List.all_eq_true.mp hall tx htx] at hnull
      exact Bool.false_ne_true hnull.symm
    · rw [hnone] at hsome
      cases hsome
  | true =>
    obtain ⟨hfit, coinstake', hcommitted, hvtx'⟩ :=
      generate_committed hvtx hactive hwit hnone hgenerated
    have hscript : (commitmentScript (ctx.hash256 (AnkerNode.blockWitnessMerkleRoot ctx.hash256
        block ++ List.replicate 32 0))).length = 38 := by
      rw [commitmentScript, List.length_append, hlen]
      rfl
    have hcommitment := getWitnessCommitment_append hcommitted.vout
      (by rw [isWitnessCommitment, hscript]; rfl)
    rcases checkWitnesses_eq_ok hvtx' hactive' hpass with ⟨hmissing, -⟩ | ⟨txout, hsome, hcheck⟩
    · rw [hcommitment] at hmissing
      cases hmissing
    · rw [hcommitment, Option.some.injEq] at hsome
      subst hsome
      obtain ⟨nonce, hnonce, hsize, hhash⟩ := checkWitnessCommitment_eq_ok hcheck
      exact commitment_differs hvtx hvtx' hcommitted hfit hlen (hfree generated hgenerated) hnonce
        hsize (hhash.trans (take_commitmentScript (hlen _)))

section Segwit

-- a hash that tells the strings of this block apart
def foldHash (bs : List UInt8) : List UInt8 :=
  writeLE 32 (bs.foldl (fun n b => (n * 257 + b.toNat + 1) % 2 ^ 256) 0)

def segwitContext : BlockContext where
  __ := syncing CheckContext.plainContext.params
  sporkSegwitActivation := 1500000000
  hash256 := foldHash

def segwitParent : ParentIndex := ⟨150000, 1540000000, [5]⟩

-- a coinstake, and a payment that spends a witness output
def segwitBlock : CBlock where
  hash := 9
  hashPrevBlock := 8
  nVersion := 5
  vtx := [
    { hash := 1, vin := [⟨COutPoint.null, [0x51], 0xffffffff⟩], vout := [⟨0, []⟩] },
    { hash := 2, vin := [⟨⟨11, 0⟩, [0x51], 0xffffffff⟩], vout := [⟨0, []⟩, ⟨1200, [0x51]⟩] },
    { hash := 3, vin := [⟨⟨12, 1⟩, [], 0xffffffff⟩], vout := [⟨700, [0x51]⟩],
      vtxinwit := [[[7, 7], [8]]] }]

def segwitGenerated : CBlock × List UInt8 :=
  match segwitContext.generateCoinbaseCommitment segwitBlock segwitParent with
  | .ok generated => generated
  | .error _ => (segwitBlock, [])

theorem generate_segwitBlock :
    segwitContext.generateCoinbaseCommitment segwitBlock segwitParent = .ok segwitGenerated := by
  decide +kernel

theorem collisionFree_segwitBlock : segwitContext.CollisionFree segwitBlock segwitParent := by
  intro generated hgenerated
  rw [generate_segwitBlock, Except.ok.injEq] at hgenerated
  subst hgenerated
  decide +kernel

theorem segwit_commitment_never_accepted :
    ¬segwitContext.CommitmentAccepted segwitBlock segwitParent :=
  commitment_never_accepted segwitContext segwitBlock segwitParent rfl
    ⟨_, List.mem_cons_of_mem _ (List.mem_cons_of_mem _ List.mem_cons_self), rfl⟩ (by decide) rfl
    (fun _ => length_writeLE 32 _) collisionFree_segwitBlock

-- The generated block is turned down for its merkle root, the nonce being as it should be.
theorem segwit_commitment_mismatch :
    2 ≤ segwitBlock.vtx.length ∧ (segwitBlock.vtx.any fun tx => !tx.witIsNull) = true ∧
      segwitContext.sporkSegwitActivation < segwitParent.nTime ∧
      segwitBlock.vtx[1]?.bind getWitnessCommitment = none ∧
      segwitContext.CollisionFree segwitBlock segwitParent ∧
      segwitContext.generateCoinbaseCommitment segwitBlock segwitParent = .ok segwitGenerated ∧
      witnessNonce segwitGenerated.1 = some (List.replicate 32 0) ∧
      segwitContext.withWitnessTree.checkWitnesses segwitGenerated.1 (some segwitParent) =
        .error (Failure.rejected
          (CValidationState.doS {} 100 REJECT_INVALID "bad-witness-merkle-match" true)) := by
  refine ⟨by decide, by decide, by decide, by decide, collisionFree_segwitBlock,
    generate_segwitBlock, ?_, ?_⟩
  · decide +kernel
  · decide +kernel

end Segwit

end BlockContext

end AnkerNode
