import AnkerNode.Coins.Undo
import AnkerNode.Lib.Bits
import AnkerNode.Lib.PrunedTree

namespace AnkerNode

open ByteStream

def MAX_BLOCK_SIZE_CURRENT : Nat := 3000000

structure CPartialMerkleTree (α : Type) where
  nTransactions : Nat
  vBits : List Bool
  vHash : List α
  fBad : Bool
deriving DecidableEq, Repr

namespace CPartialMerkleTree

variable {α : Type}

section Traversal

variable (t : CPartialMerkleTree α) (hash : α → α → α)

-- an unsigned int
def calcTreeWidth (height : Nat) : Nat :=
  ((t.nTransactions + 1 <<< height - 1) % 2 ^ 32) >>> height

-- the loop over `nHeight`
def heightFrom : Nat → Nat → Nat
  | 0, nHeight => nHeight
  | fuel + 1, nHeight =>
    if 1 < t.calcTreeWidth nHeight then heightFrom fuel (nHeight + 1) else nHeight

def nHeight : Nat := t.heightFrom 32 0

def calcHash (vTxid : List α) : Nat → Nat → Option α
  | 0, pos => vTxid[pos]?
  | height + 1, pos => do
    let left ← calcHash vTxid height (pos * 2)
    let right ←
      if pos * 2 + 1 < t.calcTreeWidth height then calcHash vTxid height (pos * 2 + 1)
      else some left
    pure (hash left right)

-- the loop over `p`
def parentOfMatch (vMatch : List Bool) (height pos : Nat) : Option Bool :=
  let first := pos <<< height % 2 ^ 32
  let stop := min ((pos + 1) <<< height % 2 ^ 32) t.nTransactions
  (List.range' first (stop - first)).foldlM
    (fun fParentOfMatch p => do
      let matched ← vMatch[p]?
      pure (fParentOfMatch || matched)) false

def pushBit (fParentOfMatch : Bool) : CPartialMerkleTree α :=
  { t with vBits := t.vBits ++ [fParentOfMatch] }

def pushHash (h : α) : CPartialMerkleTree α := { t with vHash := t.vHash ++ [h] }

def traverseAndBuild (vTxid : List α) (vMatch : List Bool) :
    Nat → Nat → CPartialMerkleTree α → Option (CPartialMerkleTree α)
  | 0, pos, t => do
    let fParentOfMatch ← t.parentOfMatch vMatch 0 pos
    let h ← t.calcHash hash vTxid 0 pos
    pure ((t.pushBit fParentOfMatch).pushHash h)
  | height + 1, pos, t => do
    let fParentOfMatch ← t.parentOfMatch vMatch (height + 1) pos
    let t := t.pushBit fParentOfMatch
    if fParentOfMatch then
      let t ← traverseAndBuild vTxid vMatch height (pos * 2) t
      if pos * 2 + 1 < t.calcTreeWidth height then
        traverseAndBuild vTxid vMatch height (pos * 2 + 1) t
      else some t
    else
      let h ← t.calcHash hash vTxid (height + 1) pos
      pure (t.pushHash h)

def build (vTxid : List α) (vMatch : List Bool) : Option (CPartialMerkleTree α) :=
  let t := ⟨vTxid.length % 2 ^ 32, [], [], false⟩
  traverseAndBuild hash vTxid vMatch t.nHeight 0 t

structure Extraction (α : Type) where
  nBitsUsed : Nat := 0
  nHashUsed : Nat := 0
  vMatch : List α := []
  -- the `pos` of each entry of `vMatch`; the source does not keep it
  positions : List Nat := []
  fBad : Bool := false
deriving DecidableEq, Repr

-- a stored hash, from which no one descends
def takeHash (zero : α) (isMatched : Bool) (pos : Nat) (s : Extraction α) : α × Extraction α :=
  match t.vHash[s.nHashUsed]? with
  | none => (zero, { s with fBad := true })
  | some h =>
    let s := { s with nHashUsed := s.nHashUsed + 1 }
    if isMatched then
      (h, { s with vMatch := s.vMatch ++ [h], positions := s.positions ++ [pos] })
    else (h, s)

def traverseAndExtract (zero : α) : Nat → Nat → Extraction α → α × Extraction α
  | 0, pos, s =>
    match t.vBits[s.nBitsUsed]? with
    | none => (zero, { s with fBad := true })
    | some fParentOfMatch =>
      t.takeHash zero fParentOfMatch pos { s with nBitsUsed := s.nBitsUsed + 1 }
  | height + 1, pos, s =>
    match t.vBits[s.nBitsUsed]? with
    | none => (zero, { s with fBad := true })
    | some false => t.takeHash zero false pos { s with nBitsUsed := s.nBitsUsed + 1 }
    | some true =>
      let (left, s) :=
        traverseAndExtract zero height (pos * 2) { s with nBitsUsed := s.nBitsUsed + 1 }
      if pos * 2 + 1 < t.calcTreeWidth height then
        let (right, s) := traverseAndExtract zero height (pos * 2 + 1) s
        (hash left right, s)
      else (hash left left, s)

def extractMatches (zero : α) : α × Extraction α :=
  let start : Extraction α := { fBad := t.fBad }
  if t.nTransactions = 0 then (zero, start)
  -- 60 is the lower bound for the size of a serialized CTransaction
  else if MAX_BLOCK_SIZE_CURRENT / 60 < t.nTransactions then (zero, start)
  else if t.nTransactions < t.vHash.length then (zero, start)
  else if t.vBits.length < t.vHash.length then (zero, start)
  else
    let (hashMerkleRoot, s) := t.traverseAndExtract hash zero t.nHeight 0 start
    if s.fBad then (zero, s)
    else if (s.nBitsUsed + 7) / 8 ≠ (t.vBits.length + 7) / 8 then (zero, s)
    else if s.nHashUsed ≠ t.vHash.length then (zero, s)
    else (hashMerkleRoot, s)

end Traversal

section Serialize

def serialize (t : CPartialMerkleTree UInt256) : List UInt8 :=
  writeLE 4 t.nTransactions ++ (serializeVector (fun h => writeLE 32 h.toNat) t.vHash ++
    serializeVector (fun b => [b]) (BitBytes.pack t.vBits))

def unserialize : Reader (CPartialMerkleTree UInt256) := do
  let nTransactions ← readLE 4
  let vHash ← unserializeVector (do let h ← readLE 32; pure (BitVec.ofNat 256 h))
  let vBytes ← unserializeVector readByte
  pure ⟨nTransactions, BitBytes.unpack vBytes, vHash, false⟩

end Serialize

section Width

open HashLevels

variable {t : CPartialMerkleTree α} {n : Nat}

theorem calcTreeWidth_eq (hn : t.nTransactions ≤ 50000) {height : Nat} (hheight : height ≤ 16) :
    t.calcTreeWidth height = width t.nTransactions height := by
  have hpow : 2 ^ height ≤ 2 ^ 16 := Nat.pow_le_pow_right (by decide) hheight
  have hlt : t.nTransactions + 2 ^ height - 1 < 2 ^ 32 := by omega
  rw [calcTreeWidth, Nat.one_shiftLeft, Nat.mod_eq_of_lt hlt, Nat.shiftRight_eq_div_pow, width]

-- `nHeight` is the first level that is at most one wide.
structure IsHeight (n nHeight : Nat) : Prop where
  below : ∀ j < nHeight, 1 < width n j
  top : width n nHeight ≤ 1
  le : nHeight ≤ 16

theorem width_sixteen (hn : n ≤ 50000) : width n 16 ≤ 1 := by
  rw [width]
  omega

theorem isHeight_heightFrom (hn : t.nTransactions ≤ 50000) {fuel nHeight : Nat}
    (hbelow : ∀ j < nHeight, 1 < width t.nTransactions j) (hle : nHeight ≤ 16)
    (hfuel : 16 < nHeight + fuel) : IsHeight t.nTransactions (t.heightFrom fuel nHeight) := by
  induction fuel generalizing nHeight with
  | zero => omega
  | succ fuel ih =>
    rw [heightFrom, calcTreeWidth_eq hn hle]
    split
    · rename_i hwide
      have hlt : nHeight < 16 := by
        refine Nat.lt_of_le_of_ne hle ?_
        rintro rfl
        exact absurd hwide (Nat.not_lt.mpr (width_sixteen hn))
      refine ih (fun j hj => ?_) hlt (by omega)
      rcases Nat.lt_succ_iff_lt_or_eq.mp hj with hj | rfl
      · exact hbelow j hj
      · exact hwide
    · rename_i hnarrow
      exact ⟨hbelow, Nat.le_of_not_lt hnarrow, hle⟩

theorem isHeight_nHeight (hn : t.nTransactions ≤ 50000) : IsHeight t.nTransactions t.nHeight :=
  isHeight_heightFrom hn (fun j hj => absurd hj (Nat.not_lt_zero j)) (Nat.zero_le 16) (by decide)

end Width

section Build

open HashLevels PrunedTree

variable {t : CPartialMerkleTree α} {hash : α → α → α} {zero : α} {vTxid : List α}
  {vMatch : List Bool}

theorem shiftLeft_lt {n height pos : Nat} (hn : n ≤ 50000) (hheight : height ≤ 16)
    (hpos : pos < width n height) : (pos + 1) <<< height < 2 ^ 32 := by
  have hpow : 2 ^ height ≤ 2 ^ 16 := Nat.pow_le_pow_right (by decide) hheight
  rw [lt_width_iff] at hpos
  rw [Nat.shiftLeft_eq, Nat.add_mul, Nat.one_mul]
  omega

theorem calcHash_eq (hn : t.nTransactions ≤ 50000) (hlength : vTxid.length = t.nTransactions)
    {height pos : Nat} (hheight : height ≤ 16) (hpos : pos < width vTxid.length height) :
    t.calcHash hash vTxid height pos = some ((level hash height vTxid).getD pos zero) := by
  induction height generalizing pos with
  | zero =>
    rw [width_zero] at hpos
    rw [calcHash, level, List.getElem?_eq_getElem hpos, List.getD_eq_getElem _ _ hpos]
  | succ height ih =>
    have hleft := double_lt_width hpos
    rw [calcHash, ih (by omega) hleft, calcTreeWidth_eq hn (by omega), ← hlength,
      getD_level_succ hpos]
    simp only [Option.bind_eq_bind, Option.bind_some]
    split
    · rename_i hlt
      rw [ih (by omega) hlt, Nat.min_eq_left (by omega)]
      rfl
    · rename_i hend
      have hmin : min (pos * 2 + 1) (width vTxid.length height - 1) = pos * 2 := by omega
      rw [hmin]
      rfl

theorem foldlM_matched {ps : List Nat} (hps : ∀ p ∈ ps, p < vMatch.length)
    (fParentOfMatch : Bool) :
    ps.foldlM (fun fParentOfMatch p => do
      let matched ← vMatch[p]?
      pure (fParentOfMatch || matched)) fParentOfMatch =
      some (fParentOfMatch || ps.any (vMatch.getD · false)) := by
  induction ps generalizing fParentOfMatch with
  | nil => simp
  | cons p ps ih =>
    have hp : p < vMatch.length := hps p (by simp)
    have htail := ih (fun q hq => hps q (by simp [hq])) (fParentOfMatch || vMatch.getD p false)
    rw [List.foldlM_cons, List.any_cons, ← Bool.or_assoc, ← htail, List.getD_eq_getElem _ _ hp,
      List.getElem?_eq_getElem hp]
    rfl

theorem parentOfMatch_eq (hn : t.nTransactions ≤ 50000) (hlength : vMatch.length = t.nTransactions)
    {height pos : Nat} (hheight : height ≤ 16) (hpos : pos < width t.nTransactions height) :
    t.parentOfMatch vMatch height pos =
      some ((leavesUnder t.nTransactions height pos).any (vMatch.getD · false)) := by
  have hstop := shiftLeft_lt hn hheight hpos
  have hstart : pos <<< height < 2 ^ 32 := by
    rw [Nat.shiftLeft_eq] at hstop ⊢
    exact Nat.lt_of_le_of_lt (Nat.mul_le_mul_right _ (Nat.le_succ pos)) hstop
  have hunder : ∀ p ∈ leavesUnder t.nTransactions height pos, p < vMatch.length := by
    intro p hp
    have hmem := List.mem_range'_1.mp hp
    omega
  rw [parentOfMatch, Nat.mod_eq_of_lt hstop, Nat.mod_eq_of_lt hstart, Nat.shiftLeft_eq,
    Nat.shiftLeft_eq]
  exact foldlM_matched hunder false

-- the tree with what a pruned one adds to its bits and hashes
def write (t : CPartialMerkleTree α) (pruned : PrunedTree α) : CPartialMerkleTree α :=
  { t with vBits := t.vBits ++ pruned.bits, vHash := t.vHash ++ pruned.hashes }

theorem traverseAndBuild_eq (hn : t.nTransactions ≤ 50000)
    (hlength : vTxid.length = t.nTransactions) (hmask : vMatch.length = t.nTransactions)
    {height pos : Nat} (hheight : height ≤ 16) (hpos : pos < width vTxid.length height) :
    traverseAndBuild hash vTxid vMatch height pos t =
      some (t.write (prune hash zero vTxid (vMatch.getD · false) height pos)) := by
  induction height generalizing pos t with
  | zero =>
    rw [traverseAndBuild, parentOfMatch_eq hn hmask hheight (hlength ▸ hpos),
      calcHash_eq hn hlength hheight hpos, prune, hlength]
    rfl
  | succ height ih =>
    have hleft := double_lt_width hpos
    rw [traverseAndBuild, parentOfMatch_eq hn hmask hheight (hlength ▸ hpos), prune, hlength]
    simp only [Option.bind_eq_bind, Option.bind_some]
    split
    · rename_i hany
      have hbuiltLeft := ih (t := t.pushBit true) hn hlength hmask (by omega) hleft
      rw [hany, hbuiltLeft, Option.bind_some]
      generalize hl : prune hash zero vTxid (vMatch.getD · false) height (pos * 2) = l
      have hwidth : ((t.pushBit true).write l).calcTreeWidth height =
          width t.nTransactions height := calcTreeWidth_eq hn (by omega)
      rw [hwidth]
      split
      · rename_i hlt
        have hbuiltRight := ih (t := (t.pushBit true).write l) hn hlength hmask (by omega)
          (hlength ▸ hlt)
        rw [hbuiltRight]
        simp [write, pushBit, PrunedTree.bits, hashes]
      · simp [write, pushBit, PrunedTree.bits, hashes]
    · rename_i hnone
      have hhash : (t.pushBit false).calcHash hash vTxid (height + 1) pos =
          some ((level hash (height + 1) vTxid).getD pos zero) :=
        calcHash_eq (t := t.pushBit false) hn hlength hheight hpos
      rw [Bool.not_eq_true] at hnone
      rw [hnone, hhash]
      rfl

end Build

section Extract

open HashLevels PrunedTree

variable {t : CPartialMerkleTree α} {hash : α → α → α} {zero : α}

-- what a traversal has done once it has read a pruned tree at `pos`
def Extraction.after (s : Extraction α) (pos : Nat) (pruned : PrunedTree α) : Extraction α :=
  { s with
    nBitsUsed := s.nBitsUsed + pruned.bits.length
    nHashUsed := s.nHashUsed + pruned.hashes.length
    vMatch := s.vMatch ++ (pruned.matched pos).map Prod.snd
    positions := s.positions ++ (pruned.matched pos).map Prod.fst }

theorem Extraction.after_leaf (s : Extraction α) (pos : Nat) (isMatched : Bool) (a : α) :
    s.after pos (leaf isMatched a) =
      if isMatched then
        { s with
          nBitsUsed := s.nBitsUsed + 1
          nHashUsed := s.nHashUsed + 1
          vMatch := s.vMatch ++ [a]
          positions := s.positions ++ [pos] }
      else { s with nBitsUsed := s.nBitsUsed + 1, nHashUsed := s.nHashUsed + 1 } := by
  cases isMatched <;> simp [after, PrunedTree.bits, hashes, matched]

theorem Extraction.after_cut (s : Extraction α) (pos : Nat) (a : α) : s.after pos (cut a) =
    { s with nBitsUsed := s.nBitsUsed + 1, nHashUsed := s.nHashUsed + 1 } := by
  simp [after, PrunedTree.bits, hashes, matched]

theorem Extraction.after_lone (s : Extraction α) (pos : Nat) (l : PrunedTree α) :
    s.after pos (lone l) =
      { s with nBitsUsed := s.nBitsUsed + 1 }.after (pos * 2) l := by
  simp only [after, PrunedTree.bits, hashes, matched, List.length_cons, Nat.add_assoc,
    Nat.add_comm 1]

theorem Extraction.after_node (s : Extraction α) (pos : Nat) (l r : PrunedTree α) :
    s.after pos (node l r) =
      ({ s with nBitsUsed := s.nBitsUsed + 1 }.after (pos * 2) l).after (pos * 2 + 1) r := by
  simp only [after, PrunedTree.bits, hashes, matched, List.length_cons, List.length_append,
    List.map_append, List.append_assoc, Nat.add_assoc, Nat.add_comm 1]

theorem takeHash_eq {s : Extraction α} {a : α} (hhash : t.vHash[s.nHashUsed]? = some a)
    (isMatched : Bool) (pos : Nat) :
    t.takeHash zero isMatched pos { s with nBitsUsed := s.nBitsUsed + 1 } =
      (a, s.after pos (leaf isMatched a)) := by
  rw [takeHash, hhash, Extraction.after_leaf]
  cases isMatched <;> rfl

-- A pruned tree of the right shape is read to its end.
theorem traverseAndExtract_eq {pruned : PrunedTree α} {height pos : Nat}
    (hshape : Shaped t.calcTreeWidth height pos pruned) {s : Extraction α} {bs : List Bool}
    {hs : List α} (hbits : t.vBits.drop s.nBitsUsed = pruned.bits ++ bs)
    (hhashes : t.vHash.drop s.nHashUsed = pruned.hashes ++ hs) :
    t.traverseAndExtract hash zero height pos s = (pruned.root hash, s.after pos pruned) := by
  induction hshape generalizing s bs hs with
  | leaf pos isMatched a =>
    have hbit : t.vBits[s.nBitsUsed]? = some isMatched := by
      rw [← List.head?_drop, hbits]; rfl
    have hhash : t.vHash[s.nHashUsed]? = some a := by rw [← List.head?_drop, hhashes]; rfl
    rw [traverseAndExtract, hbit]
    exact takeHash_eq hhash isMatched pos
  | cut h pos a =>
    have hbit : t.vBits[s.nBitsUsed]? = some false := by rw [← List.head?_drop, hbits]; rfl
    have hhash : t.vHash[s.nHashUsed]? = some a := by rw [← List.head?_drop, hhashes]; rfl
    rw [traverseAndExtract, hbit]
    exact takeHash_eq hhash false pos
  | @lone h pos l hend hl ih =>
    have hbit : t.vBits[s.nBitsUsed]? = some true := by rw [← List.head?_drop, hbits]; rfl
    have hnextBits : t.vBits.drop (s.nBitsUsed + 1) = l.bits ++ bs := by
      rw [← List.drop_drop, hbits]
      rfl
    have hbelow := ih (s := { s with nBitsUsed := s.nBitsUsed + 1 }) hnextBits hhashes
    rw [traverseAndExtract, hbit]
    simp only [hbelow, if_neg hend]
    rw [Extraction.after_lone]
    rfl
  | @node h pos l r hlt hl hr ihl ihr =>
    have hbit : t.vBits[s.nBitsUsed]? = some true := by rw [← List.head?_drop, hbits]; rfl
    have hleftBits : t.vBits.drop (s.nBitsUsed + 1) = l.bits ++ (r.bits ++ bs) := by
      rw [← List.drop_drop, hbits, PrunedTree.bits, List.cons_append, List.append_assoc]
      rfl
    have hleftHashes : t.vHash.drop s.nHashUsed = l.hashes ++ (r.hashes ++ hs) := by
      rw [hhashes, hashes, List.append_assoc]
    have hleft := ihl (s := { s with nBitsUsed := s.nBitsUsed + 1 }) hleftBits hleftHashes
    have hrightBits : t.vBits.drop
        ({ s with nBitsUsed := s.nBitsUsed + 1 }.after (pos * 2) l).nBitsUsed = r.bits ++ bs := by
      rw [Extraction.after, ← List.drop_drop, hleftBits, List.drop_left]
    have hrightHashes : t.vHash.drop
        ({ s with nBitsUsed := s.nBitsUsed + 1 }.after (pos * 2) l).nHashUsed = r.hashes ++ hs := by
      rw [Extraction.after, ← List.drop_drop, hleftHashes, List.drop_left]
    have hright := ihr hrightBits hrightHashes
    rw [traverseAndExtract, hbit]
    simp only [hleft, if_pos hlt, hright]
    rw [Extraction.after_node]
    rfl

theorem takeHash_fBad {s : Extraction α} (hbad : s.fBad = true) (isMatched : Bool) (pos : Nat) :
    (t.takeHash zero isMatched pos { s with nBitsUsed := s.nBitsUsed + 1 }).2.fBad = true := by
  rw [takeHash]
  split
  · rfl
  · split <;> exact hbad

theorem traverseAndExtract_fBad {height pos : Nat} {s : Extraction α} (hbad : s.fBad = true) :
    (t.traverseAndExtract hash zero height pos s).2.fBad = true := by
  induction height generalizing pos s with
  | zero =>
    rw [traverseAndExtract]
    split
    · rfl
    · exact takeHash_fBad hbad _ _
  | succ height ih =>
    rw [traverseAndExtract]
    split
    · rfl
    · exact takeHash_fBad hbad _ _
    · have hleft := @ih (pos * 2) { s with nBitsUsed := s.nBitsUsed + 1 } hbad
      dsimp only
      split
      · exact ih hleft
      · exact hleft

theorem exists_of_takeHash {s : Extraction α} {isMatched : Bool} {pos : Nat}
    (hgood : (t.takeHash zero isMatched pos { s with nBitsUsed := s.nBitsUsed + 1 }).2.fBad =
      false) :
    ∃ a, t.takeHash zero isMatched pos { s with nBitsUsed := s.nBitsUsed + 1 } =
      (a, s.after pos (leaf isMatched a)) := by
  cases hhash : t.vHash[s.nHashUsed]? with
  | none =>
    rw [takeHash, hhash] at hgood
    exact absurd hgood (Bool.not_eq_false _ |>.mpr rfl)
  | some a => exact ⟨a, takeHash_eq hhash isMatched pos⟩

-- A traversal that ends well has read a pruned tree of the right shape.
theorem exists_pruned {height pos : Nat} {s : Extraction α}
    (hgood : (t.traverseAndExtract hash zero height pos s).2.fBad = false) :
    ∃ pruned, Shaped t.calcTreeWidth height pos pruned ∧
      t.traverseAndExtract hash zero height pos s = (pruned.root hash, s.after pos pruned) := by
  induction height generalizing pos s with
  | zero =>
    cases hbit : t.vBits[s.nBitsUsed]? with
    | none => simp [traverseAndExtract, hbit] at hgood
    | some isMatched =>
      rw [traverseAndExtract, hbit] at hgood ⊢
      obtain ⟨a, ha⟩ := exists_of_takeHash hgood
      exact ⟨leaf isMatched a, Shaped.leaf pos isMatched a, ha⟩
  | succ height ih =>
    match hbit : t.vBits[s.nBitsUsed]? with
    | none => simp [traverseAndExtract, hbit] at hgood
    | some false =>
      rw [traverseAndExtract, hbit] at hgood ⊢
      obtain ⟨a, ha⟩ := exists_of_takeHash hgood
      exact ⟨cut a, Shaped.cut height pos a, ha⟩
    | some true =>
      rw [traverseAndExtract, hbit] at hgood ⊢
      dsimp only at hgood ⊢
      split at hgood
      · rename_i hlt
        rw [if_pos hlt]
        have hleftGood : (t.traverseAndExtract hash zero height (pos * 2)
            { s with nBitsUsed := s.nBitsUsed + 1 }).2.fBad = false := by
          by_contra hbad
          rw [Bool.not_eq_false] at hbad
          rw [traverseAndExtract_fBad hbad] at hgood
          cases hgood
        obtain ⟨l, hl, hleft⟩ := ih hleftGood
        rw [hleft] at hgood ⊢
        obtain ⟨r, hr, hright⟩ := ih hgood
        rw [hright]
        exact ⟨node l r, Shaped.node hlt hl hr, by rw [Extraction.after_node]; rfl⟩
      · rename_i hend
        rw [if_neg hend]
        obtain ⟨l, hl, hleft⟩ := ih hgood
        rw [hleft]
        exact ⟨lone l, Shaped.lone hend hl, by rw [Extraction.after_lone]; rfl⟩

end Extract

end CPartialMerkleTree

end AnkerNode
