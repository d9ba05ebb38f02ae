import AnkerNode.Net.PartialMerkleTree
import AnkerNode.Validation.MerkleTree

namespace AnkerNode

open ByteStream HashLevels PrunedTree

namespace CPartialMerkleTree

section Serialize

theorem parses_hash (h : UInt256) :
    Parses (do let n ← readLE 32; pure (BitVec.ofNat 256 n)) (writeLE 32 h.toNat) h := by
  have hlt : h.toNat < 256 ^ 32 := by
    have hlt := h.isLt
    norm_num at hlt ⊢
    exact hlt
  have hparses := parses_map (BitVec.ofNat 256) (parses_readLE 32 h.toNat hlt)
  rwa [BitVec.ofNat_toNat, BitVec.setWidth_eq] at hparses

-- The bits come back with those that fill the last byte.
theorem parses_unserialize {t : CPartialMerkleTree UInt256} (hn : t.nTransactions < 2 ^ 32)
    (hhashes : t.vHash.length ≤ MAX_SIZE) (hbits : (t.vBits.length + 7) / 8 ≤ MAX_SIZE) :
    Parses unserialize t.serialize
      ⟨t.nTransactions, BitBytes.unpack (BitBytes.pack t.vBits), t.vHash, false⟩ := by
  have hvHash := parses_unserializeVector (f := id) hhashes fun h _ => parses_hash h
  have hbytes : (BitBytes.pack t.vBits).length ≤ MAX_SIZE := by
    rw [BitBytes.pack, BitBytes.length_packTo]
    exact hbits
  have hvBytes := parses_unserializeVector (f := id) hbytes fun b _ => parses_readByte b
  rw [List.map_id] at hvHash hvBytes
  refine parses_bind (parses_readLE 4 _ (by omega)) (parses_bind hvHash ?_)
  exact parses_map (fun vBytes => (⟨t.nTransactions, BitBytes.unpack vBytes, t.vHash, false⟩ :
    CPartialMerkleTree UInt256)) hvBytes

end Serialize

variable {α : Type} {hash : α → α → α} {zero : α}

section RoundTrip

variable {vTxid : List α} {vMatch : List Bool}

theorem filter_zip (zero : α) (hmask : vMatch.length = vTxid.length) :
    (((List.range vTxid.length).filter (vMatch.getD · false)).map (vTxid.getD · zero)) =
      ((vTxid.zip vMatch).filter Prod.snd).map Prod.fst := by
  have hzip : vTxid.zip vMatch =
      (List.range vTxid.length).map fun p => (vTxid.getD p zero, vMatch.getD p false) := by
    refine List.ext_getElem (by simp [hmask]) fun p hp hp' => ?_
    have hlt : p < vTxid.length := by simpa using hp'
    simp [hlt, hmask]
  rw [hzip, List.filter_map, List.map_map]
  rfl

theorem leavesUnder_top {n height : Nat} (htop : width n height ≤ 1) :
    leavesUnder n height 0 = List.range n := by
  have hle : n ≤ 2 ^ height := by
    by_contra hlt
    have hwide : 1 < width n height := lt_width_iff.mpr (by omega)
    omega
  rw [leavesUnder, Nat.zero_mul, Nat.zero_add, Nat.one_mul, Nat.min_eq_right hle, Nat.sub_zero,
    List.range_eq_range']

-- a tree of `n` transactions before its traversal
def ofCount (n : Nat) : CPartialMerkleTree α := ⟨n, [], [], false⟩

theorem nHeight_eq {t u : CPartialMerkleTree α} (h : t.nTransactions = u.nTransactions) :
    t.nHeight = u.nHeight ∧ t.calcTreeWidth = u.calcTreeWidth := by
  have hwidth : t.calcTreeWidth = u.calcTreeWidth := by
    funext height
    rw [calcTreeWidth, calcTreeWidth, h]
  have hfrom : ∀ fuel nHeight, t.heightFrom fuel nHeight = u.heightFrom fuel nHeight := by
    intro fuel
    induction fuel with
    | zero => exact fun _ => rfl
    | succ fuel ih => intro nHeight; rw [heightFrom, heightFrom, hwidth, ih]
  exact ⟨hfrom 32 0, hwidth⟩

variable (hash zero vTxid vMatch) in
def prunedOf : PrunedTree α :=
  prune hash zero vTxid (vMatch.getD · false) (ofCount (α := α) vTxid.length).nHeight 0

section Small

variable (hne : vTxid ≠ []) (hsize : vTxid.length ≤ 50000)

include hne in
theorem width_pos (height : Nat) : 0 < width vTxid.length height := by
  rw [lt_width_iff, Nat.zero_mul]
  exact List.length_pos_of_ne_nil hne

include hsize in
theorem isHeight_ofCount :
    IsHeight vTxid.length (ofCount (α := α) vTxid.length).nHeight :=
  isHeight_nHeight (t := ofCount vTxid.length) hsize

include hne hsize in
theorem build_eq (hmask : vMatch.length = vTxid.length) : build hash vTxid vMatch =
    some ((ofCount vTxid.length).write (prunedOf hash zero vTxid vMatch)) := by
  have hmod : vTxid.length % 2 ^ 32 = vTxid.length := Nat.mod_eq_of_lt (by omega)
  rw [build, hmod]
  exact traverseAndBuild_eq (t := ofCount vTxid.length) hsize rfl hmask
    (isHeight_ofCount hsize).le (width_pos hne _)

include hsize in
theorem shaped_prunedOf {t : CPartialMerkleTree α} (hn : t.nTransactions = vTxid.length) :
    Shaped t.calcTreeWidth t.nHeight 0 (prunedOf hash zero vTxid vMatch) := by
  obtain ⟨hheight, hwidth⟩ := nHeight_eq (u := ofCount vTxid.length) hn
  rw [hheight, hwidth]
  refine (shaped_prune _ 0).congr fun k hk => ?_
  rw [calcTreeWidth_eq hsize (hk.le.trans (isHeight_ofCount hsize).le)]
  rfl

include hne hsize in
theorem root_prunedOf :
    (prunedOf hash zero vTxid vMatch).root hash = HashLevels.root hash zero vTxid := by
  have hheight := isHeight_ofCount hsize
  have hlevel : level hash (ofCount (α := α) vTxid.length).nHeight vTxid =
      [HashLevels.root hash zero vTxid] := level_eq_root hne hheight.below hheight.top
  rw [prunedOf, root_prune (width_pos hne _), hlevel]
  rfl

include hne hsize in
theorem matched_prunedOf (hmask : vMatch.length = vTxid.length) :
    ((prunedOf hash zero vTxid vMatch).matched 0).map Prod.snd =
      ((vTxid.zip vMatch).filter Prod.snd).map Prod.fst := by
  rw [prunedOf, matched_prune (width_pos hne _), leavesUnder_top (isHeight_ofCount hsize).top,
    List.map_map, ← filter_zip zero hmask]
  rfl

include hne hsize in
theorem length_hashes_prunedOf :
    (prunedOf hash zero vTxid vMatch).hashes.length ≤ vTxid.length := by
  have hle : (prunedOf hash zero vTxid vMatch).hashes.length ≤
      (leavesUnder vTxid.length (ofCount (α := α) vTxid.length).nHeight 0).length :=
    length_hashes_prune (width_pos hne _)
  rw [leavesUnder_top (isHeight_ofCount hsize).top, List.length_range] at hle
  exact hle

include hsize in
theorem length_bits_prunedOf : (prunedOf hash zero vTxid vMatch).bits.length < 2 ^ 17 := by
  have hlt : (prunedOf hash zero vTxid vMatch).bits.length <
      2 ^ ((ofCount (α := α) vTxid.length).nHeight + 1) := (shaped_prune _ 0).length_bits_lt
  refine hlt.trans_le (Nat.pow_le_pow_right (by decide) ?_)
  exact Nat.succ_le_succ (isHeight_ofCount hsize).le

end Small

theorem extractMatches_eq {t : CPartialMerkleTree α} {pruned : PrunedTree α} {k : Nat}
    (hgood : t.fBad = false) (hpos : 0 < t.nTransactions) (hn : t.nTransactions ≤ 50000)
    (hshape : Shaped t.calcTreeWidth t.nHeight 0 pruned)
    (hbits : t.vBits = pruned.bits ++ List.replicate k false)
    (hpadding : (t.vBits.length + 7) / 8 = (pruned.bits.length + 7) / 8)
    (hhashes : t.vHash = pruned.hashes) (hfew : pruned.hashes.length ≤ t.nTransactions) :
    t.extractMatches hash zero = (pruned.root hash, ({} : Extraction α).after 0 pruned) := by
  have hextract : t.traverseAndExtract hash zero t.nHeight 0 { fBad := t.fBad } =
      (pruned.root hash, { fBad := t.fBad : Extraction α }.after 0 pruned) :=
    traverseAndExtract_eq hshape hbits (hhashes.trans (List.append_nil _).symm)
  have hmore : pruned.hashes.length ≤ t.vBits.length := by
    rw [hbits, List.length_append]
    exact (length_hashes_le_bits pruned).trans (Nat.le_add_right _ _)
  have hmax : ¬MAX_BLOCK_SIZE_CURRENT / 60 < t.nTransactions := Nat.not_lt.mpr hn
  rw [extractMatches, if_neg (Nat.ne_of_gt hpos), if_neg hmax, hhashes,
    if_neg (Nat.not_lt.mpr hfew), if_neg (Nat.not_lt.mpr hmore), hextract, hgood, hpadding]
  simp [Extraction.after]

end RoundTrip

section Sound

variable {t : CPartialMerkleTree α}

-- The root is returned only where a pruned tree was read.
theorem exists_pruned_of_extractMatches (hne : (t.extractMatches hash zero).1 ≠ zero) :
    ∃ pruned, Shaped t.calcTreeWidth t.nHeight 0 pruned ∧
      t.extractMatches hash zero = (pruned.root hash, ({} : Extraction α).after 0 pruned) := by
  generalize hextracted : t.extractMatches hash zero = extracted at hne ⊢
  rw [extractMatches] at hextracted
  split at hextracted
  · exact absurd (congrArg Prod.fst hextracted.symm) hne
  split at hextracted
  · exact absurd (congrArg Prod.fst hextracted.symm) hne
  split at hextracted
  · exact absurd (congrArg Prod.fst hextracted.symm) hne
  split at hextracted
  · exact absurd (congrArg Prod.fst hextracted.symm) hne
  dsimp only at hextracted
  split at hextracted
  · exact absurd (congrArg Prod.fst hextracted.symm) hne
  rename_i hbad
  rw [Bool.not_eq_true] at hbad
  split at hextracted
  · exact absurd (congrArg Prod.fst hextracted.symm) hne
  split at hextracted
  · exact absurd (congrArg Prod.fst hextracted.symm) hne
  have hstart : t.fBad = false := by
    by_contra hstart
    rw [Bool.not_eq_false] at hstart
    rw [traverseAndExtract_fBad (by rw [hstart])] at hbad
    cases hbad
  obtain ⟨pruned, hshape, hpruned⟩ := exists_pruned hbad
  rw [hstart] at hpruned hextracted
  exact ⟨pruned, hshape, hextracted.symm.trans hpruned⟩

end Sound

end CPartialMerkleTree

section Claims

open CPartialMerkleTree Merkle

theorem partialMerkleTree_round_trip (hash : UInt256 → UInt256 → UInt256) (vTxid : List UInt256)
    (vMatch : List Bool) (hne : vTxid ≠ [])
    (hsize : vTxid.length ≤ MAX_BLOCK_SIZE_CURRENT / 60) (hmask : vMatch.length = vTxid.length) :
    ∃ t t' built s, build hash vTxid vMatch = some t ∧
      (∀ rest, unserialize.run (t.serialize ++ rest) = some (t', rest)) ∧
      buildMerkleTree hash 0 vTxid = some built ∧
      t'.extractMatches hash 0 = (built.root, s) ∧
      s.vMatch = ((vTxid.zip vMatch).filter Prod.snd).map Prod.fst := by
  have hsize : vTxid.length ≤ 50000 := hsize
  have hbits : (prunedOf hash 0 vTxid vMatch).bits.length < 2 ^ 17 := length_bits_prunedOf hsize
  have hhashes : (prunedOf hash 0 vTxid vMatch).hashes.length ≤ vTxid.length :=
    length_hashes_prunedOf hne hsize
  have hbuild : build hash vTxid vMatch =
      some ((ofCount vTxid.length).write (prunedOf hash 0 vTxid vMatch)) :=
    build_eq hne hsize hmask
  have hroot : (prunedOf hash 0 vTxid vMatch).root hash = HashLevels.root hash 0 vTxid :=
    root_prunedOf hne hsize
  have hmatched : ((prunedOf hash 0 vTxid vMatch).matched 0).map Prod.snd =
      ((vTxid.zip vMatch).filter Prod.snd).map Prod.fst := matched_prunedOf hne hsize hmask
  have hshaped : ∀ t : CPartialMerkleTree UInt256, t.nTransactions = vTxid.length →
      Shaped t.calcTreeWidth t.nHeight 0 (prunedOf hash 0 vTxid vMatch) :=
    fun t hn => shaped_prunedOf hsize hn
  generalize prunedOf hash 0 vTxid vMatch = pruned at *
  generalize hreceived : (⟨vTxid.length, BitBytes.unpack (BitBytes.pack pruned.bits),
    pruned.hashes, false⟩ : CPartialMerkleTree UInt256) = received
  have hparses : Parses unserialize ((ofCount vTxid.length).write pruned).serialize received := by
    rw [← hreceived]
    refine parses_unserialize (t := (ofCount vTxid.length).write pruned) ?_ ?_ ?_
    · exact hsize.trans_lt (by decide)
    · exact hhashes.trans (hsize.trans (by decide))
    · have hmax : 2 ^ 18 ≤ MAX_SIZE := by decide
      have hlength : ((ofCount vTxid.length).write pruned).vBits.length = pruned.bits.length := rfl
      omega
  have hextract : received.extractMatches hash 0 =
      (HashLevels.root hash 0 vTxid, ({} : Extraction UInt256).after 0 pruned) := by
    subst hreceived
    rw [← hroot]
    refine extractMatches_eq rfl (List.length_pos_of_ne_nil hne) hsize (hshaped _ rfl)
      (BitBytes.unpack_pack pruned.bits) ?_ rfl hhashes
    dsimp only
    rw [BitBytes.length_unpack, BitBytes.pack, BitBytes.length_packTo]
    omega
  refine ⟨_, received, _, _, hbuild, hparses, buildMerkleTree_eq (by omega), hextract, ?_⟩
  rw [← hmatched]
  rfl

-- the last of three
theorem partialMerkleTree_round_trip_three : ∃ t t' built s,
    build (fun a b => a * 3 + b) [1, 2, 3] [false, false, true] = some t ∧
    (∀ rest, unserialize.run (t.serialize ++ rest) = some (t', rest)) ∧
    buildMerkleTree (fun a b => a * 3 + b) (0 : UInt256) [1, 2, 3] = some built ∧
    t'.extractMatches (fun a b => a * 3 + b) 0 = (built.root, s) ∧
    s.vMatch = ((([1, 2, 3] : List UInt256).zip [false, false, true]).filter Prod.snd).map Prod.fst :=
  partialMerkleTree_round_trip _ _ _ (by decide) (by decide) rfl

-- `foldedPosition` is where a position past the end of the list lands once an odd last entry stands
-- for the one that is missing beside it.
theorem partialMerkleTree_sound {α : Type} [DecidableEq α] (hash : α → α → α) (zero : α)
    (vtx : List α) (t : CPartialMerkleTree α) (built : Built α) (hsize : vtx.length ≤ 2 ^ 30)
    (hinj : ∀ a b c d, hash a b = hash c d → a = c ∧ b = d) (hleaf : ∀ a b, hash a b ∉ vtx)
    (hbuilt : buildMerkleTree hash zero vtx = some built)
    (hroot : (t.extractMatches hash zero).1 = built.root) (hne : built.root ≠ zero) :
    (t.extractMatches hash zero).2.positions.length =
        (t.extractMatches hash zero).2.vMatch.length ∧
      ∀ p x, (p, x) ∈ (t.extractMatches hash zero).2.positions.zip
          (t.extractMatches hash zero).2.vMatch → (∀ a b, hash a b ≠ x) →
        vtx[foldedPosition vtx.length t.nHeight 0 p]? = some x ∧
          (p < vtx.length → vtx[p]? = some x) := by
  rw [buildMerkleTree_eq hsize, Option.some.injEq] at hbuilt
  subst hbuilt
  obtain ⟨pruned, hshape, hextract⟩ := exists_pruned_of_extractMatches (hroot.trans_ne hne)
  have hnil : vtx ≠ [] := by
    rintro rfl
    exact hne (root_nil zero)
  obtain ⟨k, hlevel⟩ := exists_level_eq_root hash zero hnil
  have htop : (level hash k vtx)[0]? = some (pruned.root hash) := by
    rw [hextract] at hroot
    rw [hlevel]
    exact congrArg some hroot.symm
  have hzip : (({} : Extraction α).after 0 pruned).positions.zip
      (({} : Extraction α).after 0 pruned).vMatch = pruned.matched 0 := by
    simp [Extraction.after, List.zip_map']
  rw [hextract]
  refine ⟨by simp [Extraction.after], fun p x hx hfree => ?_⟩
  rw [hzip] at hx
  obtain ⟨rfl, hget⟩ := getElem?_foldedPosition hinj hleaf hshape htop hx hfree
  refine ⟨hget, fun hp => ?_⟩
  have hpos : p / 2 ^ t.nHeight = 0 := div_pow_of_mem_matched hshape hx
  rw [← hpos, foldedPosition_eq_self hp] at hget
  exact hget

-- four claimed of three, the last of which is matched where the list has ended
def pastEnd : CPartialMerkleTree (HashTree Nat) where
  nTransactions := 4
  vBits := [true, false, true, false, true, false, false, false]
  vHash := [.node (.leaf 1) (.leaf 2), .leaf 3, .leaf 3]
  fBad := false

theorem partialMerkleTree_past_end :
    (∀ a b c d : HashTree Nat, HashTree.node a b = HashTree.node c d → a = c ∧ b = d) ∧
    (∀ a b : HashTree Nat, HashTree.node a b ∉ [HashTree.leaf 1, .leaf 2, .leaf 3]) ∧
    (buildMerkleTree .node (.leaf 0) [HashTree.leaf 1, .leaf 2, .leaf 3]).map Built.root =
      some (pastEnd.extractMatches .node (.leaf 0)).1 ∧
    (pastEnd.extractMatches .node (.leaf 0)).1 ≠ HashTree.leaf 0 ∧
    (pastEnd.extractMatches .node (.leaf 0)).2.vMatch = [HashTree.leaf 3] ∧
    (pastEnd.extractMatches .node (.leaf 0)).2.positions = [3] ∧
    [HashTree.leaf 1, .leaf 2, .leaf 3][3]? = none := by
  exact ⟨fun a b c d h => HashTree.node.inj h, fun a b h => by simp at h, by decide, by decide,
    by decide, by decide, rfl⟩

theorem partialMerkleTree_sound_pastEnd :
    (pastEnd.extractMatches .node (.leaf 0)).2.positions.length =
      (pastEnd.extractMatches .node (.leaf 0)).2.vMatch.length ∧
    ∀ p x, (p, x) ∈ (pastEnd.extractMatches .node (.leaf 0)).2.positions.zip
        (pastEnd.extractMatches .node (.leaf 0)).2.vMatch →
      (∀ a b, HashTree.node a b ≠ x) →
      [HashTree.leaf 1, .leaf 2, .leaf 3][foldedPosition 3 pastEnd.nHeight 0 p]? = some x ∧
        (p < 3 → [HashTree.leaf 1, .leaf 2, .leaf 3][p]? = some x) :=
  partialMerkleTree_sound .node (.leaf 0) [.leaf 1, .leaf 2, .leaf 3] pastEnd _ (by simp)
    (fun _ _ _ _ h => HashTree.node.inj h) (fun a b h => by simp at h)
    (show _ = some ⟨[.leaf 1, .leaf 2, .leaf 3, .node (.leaf 1) (.leaf 2),
      .node (.leaf 3) (.leaf 3), .node (.node (.leaf 1) (.leaf 2)) (.node (.leaf 3) (.leaf 3))],
      false, .node (.node (.leaf 1) (.leaf 2)) (.node (.leaf 3) (.leaf 3))⟩ by decide)
    (by decide) (by decide)

end Claims

end AnkerNode
