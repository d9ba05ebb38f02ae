import AnkerNode.Script.Solver

namespace AnkerNode

-- a private key with what `CKey` and `CPubKey` do with it, by secp256k1
structure KeyOps (κ : Type) where
  hash160 : Valtype → Valtype
  getPubKey : κ → Valtype
  sign : κ → UInt256 → Option (List UInt8)
  verify : Valtype → UInt256 → List UInt8 → Bool

-- the output of the stake that names the signer
def CBlock.stakeOut (block : CBlock) : Option CTxOut := do
  let tx ← block.vtx[1]?
  tx.vout[1]?

-- `uint160` throws on a vector of another size
def toUint160 (vch : Valtype) : Option Valtype := if vch.length = 20 then some vch else none

namespace KeyOps

variable {κ : Type} (ops : KeyOps κ) (getKey : Valtype → Option κ)

-- `CPubKey::GetID`: a `CPubKey` that is not valid has no bytes to hash
def getID (vch : Valtype) : Valtype := ops.hash160 (if isValidPubKey vch then vch else [])

def signWith (block : CBlock) (keyID : Valtype) : Bool × CBlock :=
  match getKey keyID with
  | none => (false, block)
  | some key =>
    match ops.sign key block.hash with
    | none => (false, block)
    | some vchBlockSig => (true, { block with vchBlockSig := vchBlockSig })

def signProofOfWork (block : CBlock) : List CTxOut → Option (Bool × CBlock)
  | [] => some (false, block)
  | txout :: vout =>
    match txout.scriptPubKey.solver with
    | some (.TX_PUBKEY, vSolutions) =>
      (toUint160 (vSolutions.headD [])).map (ops.signWith getKey block)
    | _ => signProofOfWork block vout

def signProofOfStake (block : CBlock) (txout : CTxOut) : Option (Bool × CBlock) :=
  match txout.scriptPubKey.solver with
  | some (.TX_PUBKEYHASH, vSolutions) =>
    (toUint160 (vSolutions.headD [])).map (ops.signWith getKey block)
  | some (.TX_PUBKEY, vSolutions) =>
    some (ops.signWith getKey block (ops.getID (vSolutions.headD [])))
  | _ => some (false, block)

def signBlock (block : CBlock) : Option (Bool × CBlock) :=
  if block.isProofOfStake then block.stakeOut.bind (ops.signProofOfStake getKey block)
  else block.vtx.head?.bind fun tx => ops.signProofOfWork getKey block tx.vout

def verifyWith (block : CBlock) (vchPubKey : Valtype) : Bool :=
  isValidPubKey vchPubKey && !block.vchBlockSig.isEmpty &&
    ops.verify vchPubKey block.hash block.vchBlockSig

def checkStakeSignature (block : CBlock) (txout : CTxOut) : Option Bool :=
  match txout.scriptPubKey.solver with
  | some (.TX_PUBKEY, vSolutions) => some (ops.verifyWith block (vSolutions.headD []))
  | some (.TX_PUBKEYHASH, vSolutions) =>
    (toUint160 (vSolutions.headD [])).map fun _ => ops.verifyWith block (vSolutions.headD [])
  | _ => some false

def checkBlockSignature (block : CBlock) : Option Bool :=
  if block.isProofOfWork then some block.vchBlockSig.isEmpty
  else block.stakeOut.bind (ops.checkStakeSignature block)

structure EcdsaCorrect : Prop where
  verifies : ∀ key hash vchSig, ops.sign key hash = some vchSig →
    vchSig ≠ [] ∧ ops.verify (ops.getPubKey key) hash vchSig = true

-- Every key is stored under the hash of its public key, and of no other bytes.
structure StoresKeys : Prop where
  valid : ∀ keyID key, getKey keyID = some key → isValidPubKey (ops.getPubKey key) = true
  unique : ∀ keyID key, getKey keyID = some key → ∀ vch,
    ops.hash160 vch = keyID ↔ vch = ops.getPubKey key

variable {ops getKey} {block : CBlock}

theorem signWith_eq_true {keyID : Valtype} {block' : CBlock} :
    ops.signWith getKey block keyID = (true, block') ↔ ∃ key vchBlockSig,
      getKey keyID = some key ∧ ops.sign key block.hash = some vchBlockSig ∧
        block' = { block with vchBlockSig := vchBlockSig } := by
  rw [signWith]
  cases hkey : getKey keyID with
  | none => simp
  | some key =>
    cases hsig : ops.sign key block.hash with
    | none => simp [hsig]
    | some vchBlockSig => simp [hsig, eq_comm]

-- The key of an output is never as short as the hash of one.
theorem signProofOfWork_ne_true (block' : CBlock) (vout : List CTxOut) :
    ops.signProofOfWork getKey block vout ≠ some (true, block') := by
  induction vout with
  | nil => simp [signProofOfWork]
  | cons txout vout ih =>
    rw [signProofOfWork]
    split
    · rename_i vSolutions hsolver
      have hlen := CScript.solver_pubKey hsolver
      have hthrows : toUint160 (vSolutions.headD []) = none := if_neg (by omega)
      rw [hthrows]
      simp
    · exact ih

theorem not_isValidPubKey_of_length {vch : Valtype} (h : vch.length = 20) :
    isValidPubKey vch = false := by
  cases vch with
  | nil => rfl
  | cons chHeader vch =>
    rw [isValidPubKey, h, pubKeyLen]
    split_ifs <;> rfl

theorem verifyWith_signed (hecdsa : ops.EcdsaCorrect) (hstore : ops.StoresKeys getKey)
    {vch : Valtype} {key : κ} {vchBlockSig : List UInt8} (hkey : getKey (ops.getID vch) = some key)
    (hsig : ops.sign key block.hash = some vchBlockSig) :
    ops.verifyWith { block with vchBlockSig := vchBlockSig } vch = true := by
  have hsame := (hstore.unique _ key hkey _).mp rfl
  have hvalid := hstore.valid _ key hkey
  obtain ⟨hne, hverify⟩ := hecdsa.verifies key block.hash vchBlockSig hsig
  by_cases hvch : isValidPubKey vch = true
  · rw [if_pos hvch] at hsame
    subst hsame
    simp [verifyWith, hvch, hne, hverify]
  · rw [if_neg hvch] at hsame
    rw [← hsame] at hvalid
    cases hvalid

def RoundTrips (ops : KeyOps κ) (getKey : Valtype → Option κ) (block : CBlock) : Prop :=
  ∀ block', ops.signBlock getKey block = some (true, block') →
    ops.checkBlockSignature block' = some true

-- a stake that pays to the hash of a key that can sign
def PaysStoredKeyHash (ops : KeyOps κ) (getKey : Valtype → Option κ) (block : CBlock) : Prop :=
  block.isProofOfStake = true ∧ ∃ txout vSolutions key vchBlockSig,
    block.stakeOut = some txout ∧ txout.scriptPubKey.solver = some (.TX_PUBKEYHASH, vSolutions) ∧
      getKey (vSolutions.headD []) = some key ∧ ops.sign key block.hash = some vchBlockSig

theorem toUint160_pubKeyHash {s : CScript} {vSolutions : List Valtype}
    (h : s.solver = some (.TX_PUBKEYHASH, vSolutions)) :
    toUint160 (vSolutions.headD []) = some (vSolutions.headD []) :=
  if_pos (CScript.solver_pubKeyHash h)

theorem checkBlockSignature_signed (hpos : block.isProofOfStake = true) {txout : CTxOut}
    (hout : block.stakeOut = some txout) (vchBlockSig : List UInt8) :
    ops.checkBlockSignature { block with vchBlockSig := vchBlockSig } =
      ops.checkStakeSignature { block with vchBlockSig := vchBlockSig } txout := by
  have hwork : ({ block with vchBlockSig := vchBlockSig } : CBlock).isProofOfWork = false := by
    change (!block.isProofOfStake) = false
    rw [hpos]
    rfl
  have hout' : ({ block with vchBlockSig := vchBlockSig } : CBlock).stakeOut = some txout := hout
  rw [checkBlockSignature, hwork, hout']
  rfl

end KeyOps

theorem block_signature_round_trips_iff {κ : Type} {ops : KeyOps κ} {getKey : Valtype → Option κ}
    (hecdsa : ops.EcdsaCorrect) (hstore : ops.StoresKeys getKey) (block : CBlock) :
    ops.RoundTrips getKey block ↔ ¬ ops.PaysStoredKeyHash getKey block := by
  constructor
  · rintro htrips ⟨hpos, txout, vSolutions, key, vchBlockSig, hout, hsolver, hkey, hsig⟩
    have hsigned : ops.signBlock getKey block =
        some (true, { block with vchBlockSig := vchBlockSig }) := by
      rw [KeyOps.signBlock, if_pos hpos, hout, Option.bind_some, KeyOps.signProofOfStake, hsolver]
      dsimp only
      rw [KeyOps.toUint160_pubKeyHash hsolver, Option.map_some, Option.some.injEq,
        KeyOps.signWith_eq_true]
      exact ⟨key, vchBlockSig, hkey, hsig, rfl⟩
    have hcheck := htrips _ hsigned
    rw [KeyOps.checkBlockSignature_signed hpos hout, KeyOps.checkStakeSignature, hsolver] at hcheck
    dsimp only at hcheck
    rw [KeyOps.toUint160_pubKeyHash hsolver, Option.map_some, Option.some.injEq, KeyOps.verifyWith,
      KeyOps.not_isValidPubKey_of_length (CScript.solver_pubKeyHash hsolver)] at hcheck
    cases hcheck
  · intro hpays block' hsigned
    rw [KeyOps.signBlock] at hsigned
    by_cases hpos : block.isProofOfStake = true
    · rw [if_pos hpos, Option.bind_eq_some_iff] at hsigned
      obtain ⟨txout, hout, hsigned⟩ := hsigned
      rw [KeyOps.signProofOfStake] at hsigned
      split at hsigned
      · rename_i vSolutions hsolver
        rw [KeyOps.toUint160_pubKeyHash hsolver, Option.map_some, Option.some.injEq,
          KeyOps.signWith_eq_true] at hsigned
        obtain ⟨key, vchBlockSig, hkey, hsig, -⟩ := hsigned
        exact absurd ⟨hpos, txout, vSolutions, key, vchBlockSig, hout, hsolver, hkey, hsig⟩ hpays
      · rename_i vSolutions hsolver
        rw [Option.some.injEq, KeyOps.signWith_eq_true] at hsigned
        obtain ⟨key, vchBlockSig, hkey, hsig, rfl⟩ := hsigned
        rw [KeyOps.checkBlockSignature_signed hpos hout, KeyOps.checkStakeSignature, hsolver]
        exact congrArg some (KeyOps.verifyWith_signed hecdsa hstore hkey hsig)
      · cases hsigned
    · rw [if_neg hpos, Option.bind_eq_some_iff] at hsigned
      obtain ⟨tx, -, hsigned⟩ := hsigned
      exact absurd hsigned (KeyOps.signProofOfWork_ne_true block' tx.vout)

namespace KeyOps

def oneKeyBytes : Valtype := 0x02 :: List.replicate 32 0

def oneKey : KeyOps Unit where
  hash160 := fun vch => if vch = oneKeyBytes then List.replicate 20 9 else 1 :: vch
  getPubKey := fun _ => oneKeyBytes
  sign := fun _ _ => some [0x30]
  verify := fun vch _ vchSig => vch == oneKeyBytes && vchSig == [0x30]

def oneKeyStore (keyID : Valtype) : Option Unit :=
  if keyID = List.replicate 20 9 then some () else none

theorem ecdsaCorrect_oneKey : oneKey.EcdsaCorrect := by
  refine ⟨fun _ _ vchSig h => ?_⟩
  rw [← Option.some.inj h]
  exact ⟨by decide, rfl⟩

theorem storesKeys_oneKey : oneKey.StoresKeys oneKeyStore := by
  refine ⟨fun _ _ _ => rfl, fun keyID key hkey vch => ?_⟩
  have hkeyID : keyID = List.replicate 20 9 := by
    by_contra hne
    rw [oneKeyStore, if_neg hne] at hkey
    cases hkey
  change (if vch = oneKeyBytes then List.replicate 20 9 else 1 :: vch) = keyID ↔ vch = oneKeyBytes
  rw [hkeyID]
  by_cases hvch : vch = oneKeyBytes
  · simp [hvch]
  · rw [if_neg hvch]
    simp [hvch, List.replicate_succ]

def stakeBlock (script : CScript) : CBlock where
  hash := 6
  hashPrevBlock := 5
  vtx :=
    [{ hash := 1, vin := [⟨COutPoint.null, [], 0⟩], vout := [⟨0, []⟩] },
      { hash := 2, vin := [⟨⟨4, 0⟩, [], 0⟩], vout := [⟨0, []⟩, ⟨3, script⟩] }]

def payToPubKey : CScript := 33 :: oneKeyBytes ++ [OP_CHECKSIG]

def payToPubKeyHash : CScript :=
  [OP_DUP, OP_HASH160, 20] ++ List.replicate 20 9 ++ [OP_EQUALVERIFY, OP_CHECKSIG]

end KeyOps

theorem block_signature_round_trips_pubKey :
    KeyOps.oneKey.RoundTrips KeyOps.oneKeyStore (KeyOps.stakeBlock KeyOps.payToPubKey) := by
  refine (block_signature_round_trips_iff KeyOps.ecdsaCorrect_oneKey KeyOps.storesKeys_oneKey
    _).mpr ?_
  rintro ⟨-, txout, vSolutions, -, -, hout, hsolver, -⟩
  rw [← Option.some.inj hout] at hsolver
  have htype : (KeyOps.payToPubKey.solver.map Prod.fst) = some .TX_PUBKEY := by decide +kernel
  rw [show KeyOps.payToPubKey.solver = some (.TX_PUBKEYHASH, vSolutions) from hsolver] at htype
  cases htype

theorem pubKeyHash_signature_rejected :
    KeyOps.oneKey.EcdsaCorrect ∧ KeyOps.oneKey.StoresKeys KeyOps.oneKeyStore ∧
      KeyOps.oneKey.signBlock KeyOps.oneKeyStore (KeyOps.stakeBlock KeyOps.payToPubKeyHash) =
        some (true, { KeyOps.stakeBlock KeyOps.payToPubKeyHash with vchBlockSig := [0x30] }) ∧
      KeyOps.oneKey.checkBlockSignature
        { KeyOps.stakeBlock KeyOps.payToPubKeyHash with vchBlockSig := [0x30] } = some false :=
  ⟨KeyOps.ecdsaCorrect_oneKey, KeyOps.storesKeys_oneKey, by decide +kernel, by decide +kernel⟩

end AnkerNode
