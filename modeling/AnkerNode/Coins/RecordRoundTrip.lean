import AnkerNode.Coins.Undo

namespace AnkerNode

open ByteStream TrimmedList

namespace CCoins

def avail (o : CTxOut) : Bool := !o.isNull

section Mask

def bitsOf (outs : List CTxOut) : Nat :=
  outs.foldr (fun o n => (if o.isNull then 0 else 1) + 2 * n) 0

theorem bitsOf_lt (outs : List CTxOut) : bitsOf outs < 2 ^ outs.length := by
  induction outs with
  | nil => decide
  | cons o outs ih =>
    rw [bitsOf, List.foldr_cons, List.length_cons, Nat.pow_succ]
    rw [bitsOf] at ih
    split <;> omega

theorem bitsOf_testBits (outs : List CTxOut) (k : Nat) :
    ((List.range (outs.length + k)).map fun p => bitsOf outs / 2 ^ p % 2 == 1) =
      outs.map avail ++ List.replicate k false := by
  induction outs with
  | nil => simp [bitsOf, List.map_const']
  | cons o outs ih =>
    have hbits : bitsOf (o :: outs) = (if o.isNull then 0 else 1) + 2 * bitsOf outs := rfl
    have hlow : (bitsOf (o :: outs) / 2 ^ 0 % 2 == 1) = avail o := by
      rw [hbits, avail]
      cases o.isNull <;> simp
    have hhigh : ∀ p, bitsOf (o :: outs) / 2 ^ (p + 1) = bitsOf outs / 2 ^ p := by
      intro p
      rw [hbits, Nat.pow_succ', ← Nat.div_div_eq_div_mul]
      congr 1
      split <;> omega
    have hlength : (o :: outs).length + k = outs.length + k + 1 := by
      rw [List.length_cons]
      omega
    rw [hlength, List.range_succ_eq_map, List.map_cons, List.map_map, hlow, List.map_cons,
      List.cons_append, ← ih]
    congr 1
    apply List.map_congr_left
    intro p _
    simp only [Function.comp_apply, hhigh]

theorem byteBits_availBits {outs : List CTxOut} (h : outs.length ≤ 8) :
    byteBits (availBits outs) = outs.map avail ++ List.replicate (8 - outs.length) false := by
  have hlt : bitsOf outs < 256 :=
    (bitsOf_lt outs).trans_le (Nat.pow_le_pow_right (by decide) h)
  have hbits : (availBits outs).toNat = bitsOf outs := by
    rw [availBits, UInt8.toNat_ofNat']
    exact Nat.mod_eq_of_lt hlt
  have hlength : outs.length + (8 - outs.length) = 8 := by omega
  rw [byteBits, hbits, ← bitsOf_testBits, hlength]

theorem availBits_ne_zero {outs : List CTxOut} (h : outs.length ≤ 8)
    (hsome : ∃ o ∈ outs, o.isNull = false) : availBits outs ≠ 0 := by
  intro hzero
  have hbits := byteBits_availBits h
  rw [hzero] at hbits
  obtain ⟨o, ho, hnull⟩ := hsome
  have hmem : true ∈ byteBits 0 := by
    rw [hbits]
    exact List.mem_append_left _ (List.mem_map.mpr ⟨o, ho, by rw [avail, hnull]; rfl⟩)
  exact absurd hmem (by decide)

-- the mask of the outputs after the first two
def maskOf (outs : List CTxOut) : List UInt8 :=
  (List.range ((outs.length + 7) / 8)).map fun b => availBits ((outs.drop (b * 8)).take 8)

theorem maskBytes_eq (vout : List CTxOut) : maskBytes vout = maskOf (vout.drop 2) := by
  rw [maskBytes, maskOf, List.length_drop]
  apply List.map_congr_left
  intro b _
  rw [List.drop_drop]

theorem maskOf_nil : maskOf [] = [] := rfl

theorem maskOf_eq_cons {outs : List CTxOut} (h : outs ≠ []) :
    maskOf outs = availBits (outs.take 8) :: maskOf (outs.drop 8) := by
  have hpos : 0 < outs.length := List.length_pos_iff.mpr h
  have hcount : (outs.length + 7) / 8 = ((outs.drop 8).length + 7) / 8 + 1 := by
    rw [List.length_drop]
    omega
  rw [maskOf, hcount, List.range_succ_eq_map, List.map_cons, List.map_map, maskOf]
  congr 1
  apply List.map_congr_left
  intro b _
  rw [Function.comp_apply, List.drop_drop]
  congr 3
  omega

-- the outputs that the mask stands for: the last byte is filled up with spent ones
theorem maskOf_bits (outs : List CTxOut) :
    ∃ k, (maskOf outs).flatMap byteBits = (outs ++ List.replicate k CTxOut.null).map avail := by
  induction hn : outs.length using Nat.strongRecOn generalizing outs with
  | ind n ih =>
    by_cases hnil : outs = []
    · exact ⟨0, by rw [hnil]; rfl⟩
    have hpos : 0 < outs.length := List.length_pos_iff.mpr hnil
    have htake : (outs.take 8).length ≤ 8 := List.length_take_le 8 outs
    rw [maskOf_eq_cons hnil, List.flatMap_cons, byteBits_availBits htake]
    by_cases hlast : outs.length ≤ 8
    · refine ⟨8 - outs.length, ?_⟩
      rw [List.take_of_length_le hlast, List.drop_of_length_le hlast, maskOf_nil, List.map_append,
        List.map_replicate, List.flatMap_nil, List.append_nil]
      rfl
    · obtain ⟨k, hk⟩ := ih (outs.drop 8).length (by rw [List.length_drop]; omega) _ rfl
      have hfull : 8 - (outs.take 8).length = 0 := by
        rw [List.length_take]
        omega
      refine ⟨k, ?_⟩
      rw [hfull, List.replicate_zero, List.append_nil, hk, ← List.map_append, ← List.append_assoc,
        List.take_append_drop]

theorem maskOf_trimmed {outs : List CTxOut} (h : Trimmed CTxOut.isNull outs) :
    (maskOf outs).rdropWhile (fun b => b == 0) = maskOf outs := by
  induction hn : outs.length using Nat.strongRecOn generalizing outs with
  | ind n ih =>
    by_cases hnil : outs = []
    · rw [hnil]
      rfl
    have hlast : (outs.getLast hnil).isNull = false := by
      have hself := List.rdropWhile_eq_self_iff.mp h hnil
      simpa using hself
    have hpos : 0 < outs.length := List.length_pos_iff.mpr hnil
    rw [List.rdropWhile_eq_self_iff]
    intro hne
    have hcons := maskOf_eq_cons hnil
    by_cases hshort : outs.length ≤ 8
    · have hsingle : maskOf outs = [availBits outs] := by
        rw [hcons, List.drop_of_length_le hshort, List.take_of_length_le hshort, maskOf_nil]
      have hbits := availBits_ne_zero hshort ⟨_, List.getLast_mem hnil, hlast⟩
      simp only [hsingle, List.getLast_singleton, beq_iff_eq]
      exact hbits
    · have hdrop : outs.drop 8 ≠ [] := by
        rw [ne_eq, List.drop_eq_nil_iff]
        omega
      have hrest := ih (outs.drop 8).length (by rw [List.length_drop]; omega)
        (trimmed_drop h 8) rfl
      have hmask : maskOf (outs.drop 8) ≠ [] := by
        rw [maskOf_eq_cons hdrop]
        exact List.cons_ne_nil _ _
      have hbyte := List.rdropWhile_eq_self_iff.mp hrest hmask
      simp only [hcons, List.getLast_cons hmask]
      exact hbyte

-- The reader stops on the count of nonzero bytes, which a mask without zeros at its end reaches last.
theorem parses_readMask {bytes : List UInt8}
    (h : bytes.rdropWhile (fun b => b == 0) = bytes) :
    Parses (readMask (bytes.countP fun b => b != 0)) bytes (bytes.flatMap byteBits) := by
  intro rest
  induction bytes with
  | nil =>
    change readMaskFrom 0 rest = _
    rw [readMaskFrom]
    rfl
  | cons b bytes ih =>
    have hrest : bytes.rdropWhile (fun b => b == 0) = bytes := by
      rw [List.rdropWhile_eq_self_iff] at h ⊢
      intro hne
      have hlast := h (List.cons_ne_nil b bytes)
      rwa [List.getLast_cons hne] at hlast
    have ih := ih hrest
    have hcount : ∃ n, (b :: bytes).countP (fun b => b != 0) = n + 1 := by
      have hlast := List.rdropWhile_eq_self_iff.mp h (List.cons_ne_nil b bytes)
      have hpos : 0 < (b :: bytes).countP (fun b => b != 0) := by
        rw [List.countP_pos_iff]
        exact ⟨_, List.getLast_mem (List.cons_ne_nil b bytes), by simpa using hlast⟩
      exact ⟨_, (Nat.succ_pred_eq_of_pos hpos).symm⟩
    obtain ⟨n, hn⟩ := hcount
    have hnext : (if b = 0 then n + 1 else n) = bytes.countP fun b => b != 0 := by
      rw [List.countP_cons] at hn
      by_cases hb : b = 0
      · simpa [hb] using hn.symm
      · simpa [hb] using hn.symm
    rw [hn]
    change readMaskFrom (n + 1) (b :: (bytes ++ rest)) = _
    rw [readMaskFrom, hnext]
    have ih' : readMaskFrom (bytes.countP fun b => b != 0) (bytes ++ rest) =
        some (bytes.flatMap byteBits, rest) := ih
    rw [ih']
    rfl

end Mask

section Outputs

variable {ops : PubKeyOps}

-- what the format can hold of an output
structure Recordable (o : CTxOut) : Prop where
  nonneg : 0 ≤ o.nValue
  value_lt : o.nValue < 2 ^ 63
  amount_fits : CTxOutCompressor.compressedAmount o.nValue.toNat < 2 ^ 64
  script_fits : o.scriptPubKey.length + CScriptCompressor.nSpecialScripts < 2 ^ 32

theorem parses_readOutputs {outs : List CTxOut} (h : ∀ o ∈ outs, o = CTxOut.null ∨ Recordable o) :
    Parses (readOutputs ops (outs.map avail))
      ((outs.filter fun o => !o.isNull).flatMap (CTxOutCompressor.serialize ops)) outs := by
  induction outs with
  | nil => exact parses_pure []
  | cons o outs ih =>
    rw [List.forall_mem_cons] at h
    have ih := parses_map (fun vout => o :: vout) (ih h.2)
    rcases h.1 with rfl | ho
    · exact parses_bind (parses_pure CTxOut.null) ih
    · have hnull : o.isNull = false := by
        rw [Bool.eq_false_iff, ne_eq, CTxOut.isNull_iff]
        have hnonneg := ho.nonneg
        omega
      have hout := CTxOutCompressor.parses_unserialize_of_fits ops CTxOut.null ho.nonneg ho.value_lt
        ho.amount_fits ho.script_fits
      rw [List.filter_cons_of_pos (by simp [hnull]), List.flatMap_cons, List.map_cons, avail, hnull]
      exact parses_bind hout ih

end Outputs

-- A coin record as the node stores it. The mask code counts 16 for each nonzero byte in 32 bits.
structure Record (c : CCoins) : Prop where
  unpruned : c.isPruned = false
  trimmed : Trimmed CTxOut.isNull c.vout
  outputs : ∀ o ∈ c.vout, o = CTxOut.null ∨ Recordable o
  version : 0 ≤ c.nVersion ∧ c.nVersion < 2 ^ 31
  height : 0 ≤ c.nHeight ∧ c.nHeight < 2 ^ 31
  mask : (c.nMaskCode - if c.fFirst || c.fSecond then 0 else 1) < 2 ^ 28

section RoundTrip

variable {ops : PubKeyOps} {c : CCoins}

theorem avail_pair (vout : List CTxOut) : ∃ k,
    [avail (vout.getD 0 CTxOut.null), avail (vout.getD 1 CTxOut.null)] ++ (vout.drop 2).map avail =
      (vout ++ List.replicate k CTxOut.null).map avail := by
  match vout with
  | [] => exact ⟨2, rfl⟩
  | [o] => exact ⟨1, rfl⟩
  | o :: o' :: vout => exact ⟨0, by simp⟩

-- The bits that the reader puts together are those of the outputs and of spent ones after them.
theorem avail_bits (c : CCoins) : ∃ k, c.fFirst :: c.fSecond :: (maskBytes c.vout).flatMap byteBits =
    (c.vout ++ List.replicate k CTxOut.null).map avail := by
  obtain ⟨k, hk⟩ := maskOf_bits (c.vout.drop 2)
  rw [maskBytes_eq, hk]
  by_cases hshort : c.vout.length ≤ 2
  · obtain ⟨j, hj⟩ := avail_pair c.vout
    refine ⟨j + k, ?_⟩
    have hnone : c.vout.drop 2 = [] := List.drop_of_length_le hshort
    calc c.fFirst :: c.fSecond :: (c.vout.drop 2 ++ List.replicate k CTxOut.null).map avail
        = [avail (c.vout.getD 0 CTxOut.null), avail (c.vout.getD 1 CTxOut.null)] ++
            (c.vout.drop 2).map avail ++ (List.replicate k CTxOut.null).map avail := by
          rw [hnone]
          rfl
      _ = (c.vout ++ List.replicate (j + k) CTxOut.null).map avail := by
          rw [hj, ← List.map_append, List.append_assoc, List.replicate_append_replicate]
  · match hvout : c.vout with
    | [] => simp [hvout] at hshort
    | [o] => simp [hvout] at hshort
    | o :: o' :: vout =>
      refine ⟨k, ?_⟩
      simp [fFirst, fSecond, outAt, hvout, avail]

theorem rdropWhile_append_null {vout : List CTxOut} (h : Trimmed CTxOut.isNull vout) (k : Nat) :
    (vout ++ List.replicate k CTxOut.null).rdropWhile CTxOut.isNull = vout := by
  induction k with
  | zero => rwa [List.replicate_zero, List.append_nil]
  | succ k ih =>
    rw [List.replicate_succ', ← List.append_assoc, List.rdropWhile_concat_pos _ _ _ rfl, ih]

-- If both of the first outputs are spent, an unspent one after them covers the bias of the mask code.
theorem nMaskCode_pos (h : c.isPruned = false) (htrim : Trimmed CTxOut.isNull c.vout)
    (hheader : (c.fFirst || c.fSecond) = false) : 0 < c.nMaskCode := by
  have hlate : c.vout.drop 2 ≠ [] := by
    intro hnone
    rw [isPruned, List.all_eq_false] at h
    obtain ⟨o, ho, hnull⟩ := h
    rw [Bool.or_eq_false_iff, fFirst, fSecond, outAt, outAt, Bool.not_eq_false',
      Bool.not_eq_false'] at hheader
    rcases hvout : c.vout with _ | ⟨a, _ | ⟨b, _ | ⟨o', vout⟩⟩⟩
    · simp [hvout] at ho
    · simp_all
    · simp only [hvout, List.mem_cons, List.not_mem_nil, or_false] at ho
      rcases ho with rfl | rfl
      · exact hnull (by simpa [hvout] using hheader.1)
      · exact hnull (by simpa [hvout] using hheader.2)
    · simp [hvout] at hnone
  have hmask : maskOf (c.vout.drop 2) ≠ [] := by
    rw [maskOf_eq_cons hlate]
    exact List.cons_ne_nil _ _
  have hlast := List.rdropWhile_eq_self_iff.mp (maskOf_trimmed (trimmed_drop htrim 2)) hmask
  rw [nMaskCode, maskBytes_eq, List.countP_pos_iff]
  exact ⟨_, List.getLast_mem hmask, by simpa using hlast⟩

def flagBits (c : CCoins) : Nat :=
  (if c.fCoinBase then 1 else 0) + (if c.fCoinStake then 2 else 0) + (if c.fFirst then 4 else 0) +
    (if c.fSecond then 8 else 0)

theorem flagBits_fields (c : CCoins) : c.flagBits < 16 ∧ (c.flagBits % 2 == 1) = c.fCoinBase ∧
    (c.flagBits / 2 % 2 == 1) = c.fCoinStake ∧ (c.flagBits / 4 % 2 == 1) = c.fFirst ∧
    (c.flagBits / 8 % 2 == 1) = c.fSecond ∧
    (c.flagBits / 4 % 4 = 0 ↔ (c.fFirst || c.fSecond) = false) := by
  rw [flagBits]
  generalize c.fCoinBase = b0, c.fCoinStake = b1, c.fFirst = b2, c.fSecond = b3
  revert b0 b1 b2 b3
  decide

theorem nCode_eq (c : CCoins) : c.nCode =
    (16 * (c.nMaskCode - if c.fFirst || c.fSecond then 0 else 1) + c.flagBits) % 2 ^ 32 := by
  rw [nCode, flagBits, Nat.add_assoc, Nat.add_assoc, Nat.add_assoc, Nat.add_assoc, Nat.add_assoc]

-- What the reader takes out of the code: the flags, the first two bits and the count of the mask.
structure HeaderRead (c : CCoins) (nCode : Nat) : Prop where
  coinBase : (nCode % 2 == 1) = c.fCoinBase
  coinStake : (nCode / 2 % 2 == 1) = c.fCoinStake
  first : (nCode / 4 % 2 == 1) = c.fFirst
  second : (nCode / 8 % 2 == 1) = c.fSecond
  mask : nCode / 16 + (if nCode / 4 % 4 = 0 then 1 else 0) = c.nMaskCode

theorem headerRead (hc : Record c) : HeaderRead c c.nCode := by
  obtain ⟨hlt, hcoinBase, hcoinStake, hfirst, hsecond, hnone⟩ := flagBits_fields c
  have hfits := hc.mask
  have hcode : c.nCode =
      16 * (c.nMaskCode - if c.fFirst || c.fSecond then 0 else 1) + c.flagBits := by
    rw [nCode_eq]
    exact Nat.mod_eq_of_lt (by omega)
  rw [hcode]
  generalize hm : (c.nMaskCode - if c.fFirst || c.fSecond then 0 else 1) = m at *
  have hquarter : (16 * m + c.flagBits) / 4 % 4 = c.flagBits / 4 % 4 := by omega
  refine ⟨?_, ?_, ?_, ?_, ?_⟩
  · rw [← hcoinBase]
    congr 1
    omega
  · rw [← hcoinStake]
    congr 1
    omega
  · rw [← hfirst]
    congr 1
    omega
  · rw [← hsecond]
    congr 1
    omega
  · rw [hquarter]
    by_cases hheader : (c.fFirst || c.fSecond) = false
    · have hpos := nMaskCode_pos hc.unpruned hc.trimmed hheader
      rw [if_pos (hnone.mpr hheader)]
      rw [hheader] at hm
      simp only [Bool.false_eq_true, if_false] at hm
      omega
    · rw [if_neg (fun h => hheader (hnone.mp h))]
      rw [Bool.not_eq_false] at hheader
      rw [hheader] at hm
      simp only [if_true] at hm
      omega

theorem outputs_bytes (vout : List CTxOut) (k : Nat) :
    (vout ++ List.replicate k CTxOut.null).filter (fun o => !o.isNull) =
      vout.filter (fun o => !o.isNull) := by
  have hnone : (List.replicate k CTxOut.null).filter (fun o => !o.isNull) = [] := by
    rw [List.filter_eq_nil_iff]
    intro o ho
    rw [List.eq_of_mem_replicate ho]
    decide
  rw [List.filter_append, hnone, List.append_nil]

theorem storedVersion_of_nonneg {n : Int} (h : 0 ≤ n) : storedVersion n = n :=
  storedVersion_eq_self_iff.mpr h

theorem parses_record (hc : Record c) : Parses (unserialize ops) (serialize ops c) c := by
  have hheader := headerRead hc
  obtain ⟨k, hk⟩ := avail_bits c
  have htrim : (maskBytes c.vout).rdropWhile (fun b => b == 0) = maskBytes c.vout := by
    rw [maskBytes_eq]
    exact maskOf_trimmed (trimmed_drop hc.trimmed 2)
  have hmask := parses_readMask htrim
  have hpadded : ∀ o ∈ c.vout ++ List.replicate k CTxOut.null, o = CTxOut.null ∨ Recordable o := by
    intro o ho
    rcases List.mem_append.mp ho with ho | ho
    · exact hc.outputs o ho
    · exact Or.inl (List.eq_of_mem_replicate ho)
  have houtputs : Parses (readOutputs ops _) _ _ := parses_readOutputs hpadded
  rw [outputs_bytes, ← hk] at houtputs
  have hversion := parses_readVarInt32 hc.version.2
  have hheight := parses_readVarInt32 hc.height.2
  rw [storedVersion_of_nonneg hc.version.1] at hversion
  rw [storedVersion_of_nonneg hc.height.1] at hheight
  have hcode : Parses (readVarInt 32) (writeVarInt 32 c.nCode) c.nCode :=
    parses_readVarInt (by decide) (Nat.mod_lt _ (by decide))
  have hlast := parses_map (fun nHeight => cleanup
      { fCoinBase := c.nCode % 2 == 1
        fCoinStake := c.nCode / 2 % 2 == 1
        vout := c.vout ++ List.replicate k CTxOut.null
        nHeight := nHeight
        nVersion := c.nVersion }) hheight
  have hvalue : cleanup
      { fCoinBase := c.nCode % 2 == 1
        fCoinStake := c.nCode / 2 % 2 == 1
        vout := c.vout ++ List.replicate k CTxOut.null
        nHeight := c.nHeight
        nVersion := c.nVersion } = c := by
    rw [cleanup, hheader.coinBase, hheader.coinStake, rdropWhile_append_null hc.trimmed]
  rw [hvalue] at hlast
  rw [serialize, htrim, List.append_assoc, List.append_assoc, List.append_assoc]
  refine parses_bind hversion (parses_bind hcode ?_)
  rw [hheader.mask, hheader.first, hheader.second]
  exact parses_bind hmask (parses_bind houtputs hlast)

end RoundTrip

section Wraps

variable {ops : PubKeyOps}

def wideRecord (n : Nat) : CCoins := { vout := List.replicate n ⟨0, []⟩, nHeight := 0, nVersion := 0 }

def longRecord (n : Nat) : CCoins :=
  { vout := [⟨0, List.replicate n 0⟩], nHeight := 0, nVersion := 0 }

theorem maskOf_replicate (o : CTxOut) (n : Nat) :
    maskOf (List.replicate (8 * n) o) = List.replicate n (availBits (List.replicate 8 o)) := by
  induction n with
  | zero => rw [Nat.mul_zero, List.replicate_zero, List.replicate_zero, maskOf_nil]
  | succ n ih =>
    have hne : List.replicate (8 * (n + 1)) o ≠ [] := by
      rw [ne_eq, List.replicate_eq_nil_iff]
      omega
    have htake : min 8 (8 * (n + 1)) = 8 := by omega
    have hdrop : 8 * (n + 1) - 8 = 8 * n := by omega
    have hcons := maskOf_eq_cons hne
    rw [List.take_replicate, List.drop_replicate, htake, hdrop, ih] at hcons
    exact hcons

theorem nMaskCode_wideRecord (n : Nat) : (wideRecord (2 + 8 * n)).nMaskCode = n := by
  have hdrop : (wideRecord (2 + 8 * n)).vout.drop 2 = List.replicate (8 * n) ⟨0, []⟩ := by
    rw [wideRecord, List.drop_replicate]
    congr 1
    omega
  have hbits : (availBits (List.replicate 8 ⟨0, []⟩) != 0) = true := by decide
  rw [nMaskCode, maskBytes_eq, hdrop, maskOf_replicate, List.countP_replicate, if_pos hbits]

theorem nCode_wideRecord (n : Nat) : (wideRecord (2 + 8 * n)).nCode = (16 * n + 12) % 2 ^ 32 := by
  have hflags : (wideRecord (2 + 8 * n)).flagBits = 12 := by
    rw [Nat.add_comm]
    rfl
  have hfirst : (wideRecord (2 + 8 * n)).fFirst = true := by
    rw [Nat.add_comm]
    rfl
  rw [nCode_eq, nMaskCode_wideRecord, hflags, hfirst]
  rfl

theorem length_readOutputs {vAvail : List Bool} {bs rest : List UInt8} {vout : List CTxOut}
    (h : (readOutputs ops vAvail).run bs = some (vout, rest)) : vout.length = vAvail.length := by
  induction vAvail generalizing bs rest vout with
  | nil =>
    rw [(run_pure_eq_some h).1]
    rfl
  | cons b vAvail ih =>
    have htail : ∀ {o : CTxOut} {bs : List UInt8},
        ((do
          let vout ← readOutputs ops vAvail
          pure (o :: vout)) : Reader (List CTxOut)).run bs = some (vout, rest) →
        vout.length = (b :: vAvail).length := by
      intro o bs h
      obtain ⟨vout', bs', hvout, h⟩ := run_bind_eq_some h
      rw [(run_pure_eq_some h).1, List.length_cons, List.length_cons, ih hvout]
    cases b with
    | false =>
      obtain ⟨o, bs', -, h⟩ := run_bind_eq_some h
      exact htail h
    | true =>
      obtain ⟨o, bs', -, h⟩ := run_bind_eq_some h
      exact htail h

-- A code whose mask count has wrapped to nothing ends the record after two outputs.
theorem length_vout_of_code {nVersion : Int} {nCode : Nat} {bs rest : List UInt8} {c : CCoins}
    (hversion : nVersion < 2 ^ 31) (hlt : nCode < 16) (hfirst : nCode / 4 % 4 ≠ 0)
    (h : (unserialize ops).run (writeVarInt32 nVersion ++ (writeVarInt 32 nCode ++ bs)) =
      some (c, rest)) : c.vout.length ≤ 2 := by
  have hcode : Parses (readVarInt 32) (writeVarInt 32 nCode) nCode :=
    parses_readVarInt (by decide) (by omega)
  have hnone : nCode / 16 + (if nCode / 4 % 4 = 0 then 1 else 0) = 0 := by
    rw [if_neg hfirst]
    omega
  obtain ⟨v, bs1, hv, h⟩ := run_bind_eq_some h
  rw [parses_readVarInt32 hversion, Option.some.injEq, Prod.mk.injEq] at hv
  rw [← hv.2] at h
  obtain ⟨n, bs2, hn, h⟩ := run_bind_eq_some h
  rw [hcode, Option.some.injEq, Prod.mk.injEq] at hn
  rw [← hn.1, hnone] at h
  obtain ⟨vAvail, bs3, hmask, h⟩ := run_bind_eq_some h
  obtain ⟨vout, bs4, hvout, h⟩ := run_bind_eq_some h
  obtain ⟨nHeight, bs5, -, h⟩ := run_bind_eq_some h
  have hempty : Parses (readMask 0) [] [] := @parses_readMask [] rfl
  have hbits : vAvail = [] := by
    have hrun := hempty bs2
    rw [List.nil_append, hmask, Option.some.injEq, Prod.mk.injEq] at hrun
    exact hrun.1
  have hlength := length_readOutputs hvout
  rw [hbits] at hlength
  rw [(run_pure_eq_some h).1, ← show vout.length = 2 from hlength]
  exact (List.rdropWhile_prefix CTxOut.isNull vout).length_le

theorem wideRecord_lost (ops : PubKeyOps) : (unserialize ops).run
    (serialize ops (wideRecord (2 + 8 * 2 ^ 28))) ≠ some (wideRecord (2 + 8 * 2 ^ 28), []) := by
  intro h
  have hcode : (16 * 2 ^ 28 + 12) % 2 ^ 32 = 12 := by decide
  rw [serialize, List.append_assoc, List.append_assoc, List.append_assoc, nCode_wideRecord,
    hcode] at h
  have hversion : (wideRecord (2 + 8 * 2 ^ 28)).nVersion < 2 ^ 31 := by
    rw [wideRecord]
    decide
  have hlength := length_vout_of_code hversion (by decide) (by decide) h
  rw [wideRecord, List.length_replicate] at hlength
  omega

theorem wideRecord_shape (n : Nat) : (wideRecord (n + 1)).isPruned = false ∧
    Trimmed CTxOut.isNull (wideRecord (n + 1)).vout := by
  refine ⟨rfl, ?_⟩
  rw [Trimmed, List.rdropWhile_eq_self_iff]
  intro hne
  rw [List.eq_of_mem_replicate (List.getLast_mem hne)]
  decide

def noPubKeys : PubKeyOps where
  isFullyValid := fun _ => false
  decompress := fun _ => none
  decompress_of_isFullyValid := decompress_of_never

def keyIDRecord : CCoins :=
  { vout := [⟨0, [OP_DUP, OP_HASH160, 20] ++ List.replicate 20 0 ++ [OP_EQUALVERIFY, OP_CHECKSIG]⟩]
    nHeight := 0
    nVersion := 0 }

theorem record_keyIDRecord : Record keyIDRecord := by
  refine ⟨by decide, by rw [Trimmed]; decide, ?_, by decide, by decide, by decide⟩
  intro o ho
  rw [List.mem_singleton.mp ho]
  exact Or.inr ⟨by decide, by decide, by decide, by decide⟩

-- a record of one output of no value, around the bytes of its script
theorem serialize_single (script : CScript) :
    serialize ops { vout := [⟨0, script⟩], nHeight := 0, nVersion := 0 } =
      [0, 4, 0] ++ CScriptCompressor.serialize ops script ++ [0] := by
  have hnone : maskBytes [⟨0, script⟩] = [] := by
    rw [maskBytes_eq, List.drop_succ_cons, List.drop_nil, maskOf_nil]
  have hcode : nCode { vout := [⟨0, script⟩], nHeight := 0, nVersion := 0 } = 4 := by
    rw [nCode_eq, nMaskCode, hnone]
    rfl
  have hzero : writeVarInt32 0 = [0] := by decide
  have hfour : writeVarInt 32 4 = [4] := by decide
  have hamount : writeVarInt 64 (CTxOutCompressor.compressAmount 0) = [0] := by decide
  have houtput : [(⟨0, script⟩ : CTxOut)].filter (fun o => !o.isNull) = [⟨0, script⟩] := rfl
  rw [serialize, hcode, hnone, houtput, List.flatMap_singleton, CTxOutCompressor.serialize]
  change writeVarInt32 0 ++ writeVarInt 32 4 ++ [] ++
    (writeVarInt 64 (CTxOutCompressor.compressAmount 0) ++ CScriptCompressor.serialize ops script) ++
      writeVarInt32 0 = _
  rw [hzero, hfour, hamount]
  rfl

theorem serialize_keyIDRecord (ops : PubKeyOps) :
    serialize ops keyIDRecord = [0, 4, 0] ++ List.replicate 22 0 := by
  have hcompress : CScriptCompressor.compress ops
      ([OP_DUP, OP_HASH160, 20] ++ List.replicate 20 0 ++ [OP_EQUALVERIFY, OP_CHECKSIG]) =
      some (List.replicate 21 0) := rfl
  rw [keyIDRecord, serialize_single, CScriptCompressor.serialize, hcompress]
  rfl

theorem compress_zeros {n : Nat} (hn : 67 < n) :
    CScriptCompressor.compress ops (List.replicate n 0) = none := by
  have hkey : CScriptCompressor.isToKeyID (List.replicate n 0) = none := by
    rw [CScriptCompressor.isToKeyID, if_neg]
    rw [List.length_replicate]
    omega
  have hid : CScriptCompressor.isToScriptID (List.replicate n 0) = none := by
    rw [CScriptCompressor.isToScriptID, if_neg]
    rw [List.length_replicate]
    omega
  have hpub : CScriptCompressor.isToPubKey ops (List.replicate n 0) = none := by
    rw [CScriptCompressor.isToPubKey, if_neg, if_neg]
    · rw [List.length_replicate]
      omega
    · rw [List.length_replicate]
      omega
  rw [CScriptCompressor.compress, hkey, hid, hpub]
  rfl

-- The size of the script wraps to the code of a payment to a key hash.
theorem serialize_longRecord {n : Nat} (hn : 67 < n)
    (hwrap : (n + CScriptCompressor.nSpecialScripts) % 2 ^ 32 = 0) :
    serialize ops (longRecord n) = [0, 4, 0] ++ List.replicate (n + 2) 0 := by
  have hzero : writeVarInt 32 0 = [0] := by decide
  rw [longRecord, serialize_single, CScriptCompressor.serialize, compress_zeros hn,
    List.length_replicate, hwrap, hzero, List.append_assoc, List.replicate_succ',
    List.replicate_succ]
  rfl

theorem longRecord_lost (ops : PubKeyOps) : (unserialize ops).run
    (serialize ops (longRecord (2 ^ 32 - 6))) ≠ some (longRecord (2 ^ 32 - 6), []) := by
  intro h
  have hsplit : 2 ^ 32 - 6 + 2 = 22 + (2 ^ 32 - 26) := by decide
  rw [serialize_longRecord (by decide) (by decide), hsplit, List.replicate_add, ← List.append_assoc,
    ← serialize_keyIDRecord ops, parses_record record_keyIDRecord, Option.some.injEq,
    Prod.mk.injEq, List.replicate_eq_nil_iff] at h
  exact absurd h.2 (by decide)

end Wraps

end CCoins

open ByteStream

namespace CCoins

theorem Recordable.parses {ops : PubKeyOps} {o : CTxOut} (h : Recordable o) :
    Parses (CTxOutCompressor.unserialize ops CTxOut.null) (CTxOutCompressor.serialize ops o) o :=
  CTxOutCompressor.parses_unserialize_of_fits ops CTxOut.null h.nonneg h.value_lt h.amount_fits
    h.script_fits

-- Only the undo of the last output keeps the metadata.
theorem undo_of_spend {c c' : CCoins} {out : COutPoint} {undo : CTxInUndo}
    (h : c.spend out = some (c', undo)) :
    undo.txout = c.outAt out.n.toNat ∧
      (c'.vout = [] ∧ undo.nHeight = (c.nHeight % 2 ^ 32).toNat ∧ undo.nVersion = c.nVersion ∨
        c'.vout ≠ [] ∧ undo.nHeight = 0 ∧ undo.nVersion = 0) := by
  rw [spend] at h
  split at h
  · simp at h
  split at h
  · simp at h
  dsimp only at h
  split at h
  · rename_i hempty
    obtain ⟨rfl, rfl⟩ := Prod.mk.inj (Option.some.inj h)
    exact ⟨rfl, .inl ⟨List.isEmpty_iff.mp hempty, rfl, rfl⟩⟩
  · rename_i hleft
    obtain ⟨rfl, rfl⟩ := Prod.mk.inj (Option.some.inj h)
    exact ⟨rfl, .inr ⟨fun hnil => hleft (List.isEmpty_iff.mpr hnil), rfl, rfl⟩⟩

end CCoins

namespace CTxInUndo

structure Recordable (undo : CTxInUndo) : Prop where
  height_lt : undo.nHeight < 2 ^ 30
  version_lt : undo.nVersion < 2 ^ 31
  version_nonneg : 0 < undo.nHeight → 0 ≤ undo.nVersion
  version_zero : undo.nHeight = 0 → undo.nVersion = 0
  output : CCoins.Recordable undo.txout

variable {ops : PubKeyOps} {undo : CTxInUndo}

theorem Recordable.readBack_eq (h : undo.Recordable) : undo.readBack = undo := by
  have hversion : (if 0 < undo.nHeight then storedVersion undo.nVersion else 0) = undo.nVersion := by
    split
    · rename_i hpos
      exact storedVersion_eq_self_iff.mpr (h.version_nonneg hpos)
    · rename_i hzero
      exact (h.version_zero (by omega)).symm
  rw [readBack, hversion]

theorem Recordable.parses (h : undo.Recordable) :
    Parses (unserialize ops) (serialize ops undo) undo := by
  have hread : Parses (unserialize ops) (serialize ops undo) undo.readBack :=
    parses_unserialize_of_output h.height_lt h.version_lt h.output.parses
  rwa [h.readBack_eq] at hread

-- What is read back of an undo says whether it was the last output's.
theorem readBack_of_spend {c c' : CCoins} {out : COutPoint}
    (hspend : c.spend out = some (c', undo)) (hpos : 0 < c.nHeight) (hlt : c.nHeight < 2 ^ 30)
    (hversion : c.nVersion < 2 ^ 31) (houtput : CCoins.Recordable (c.outAt out.n.toNat)) :
    Parses (unserialize ops) (serialize ops undo) undo.readBack ∧
      (undo.readBack.nHeight ≠ 0 ↔ c'.vout = []) := by
  obtain ⟨htxout, hcase⟩ := CCoins.undo_of_spend hspend
  rw [← htxout] at houtput
  have hheight : (c.nHeight % 2 ^ 32).toNat = c.nHeight.toNat := by omega
  rcases hcase with ⟨hnil, hlast, hver⟩ | ⟨hleft, hpart, hver⟩
  · refine ⟨parses_unserialize_of_output (by omega) (by omega) houtput.parses, ?_⟩
    have hkept : undo.readBack.nHeight = undo.nHeight := rfl
    exact iff_of_true (by omega) hnil
  · refine ⟨parses_unserialize_of_output (by omega) (by omega) houtput.parses, ?_⟩
    exact iff_of_false (fun h => h hpart) hleft

end CTxInUndo

theorem undo_round_trip (ops : PubKeyOps) :
    (∀ undo : CTxInUndo, undo.Recordable → ∀ rest,
      (CTxInUndo.unserialize ops).run (undo.serialize ops ++ rest) = some (undo, rest)) ∧
    ∀ (c c' : CCoins) (out : COutPoint) (undo : CTxInUndo), c.spend out = some (c', undo) →
      0 < c.nHeight → c.nHeight < 2 ^ 30 → c.nVersion < 2 ^ 31 →
      CCoins.Recordable (c.outAt out.n.toNat) → ∀ rest, ∃ undo' : CTxInUndo,
        (CTxInUndo.unserialize ops).run (undo.serialize ops ++ rest) = some (undo', rest) ∧
          (undo'.nHeight ≠ 0 ↔ c'.vout = []) := by
  refine ⟨fun undo h => h.parses, ?_⟩
  intro c c' out undo hspend hpos hlt hversion houtput rest
  obtain ⟨hparses, hlast⟩ := CTxInUndo.readBack_of_spend hspend hpos hlt hversion houtput
  exact ⟨undo.readBack, hparses rest, hlast⟩

namespace CTxInUndo

def coinbaseUndo : CTxInUndo :=
  { txout := ⟨50, [OP_RETURN]⟩, fCoinBase := true, nHeight := 7, nVersion := 2 }

def nullUndo : CTxInUndo := { txout := CTxOut.null }

def coinsAt (nHeight : Int) : CCoins := { vout := [⟨0, []⟩], nHeight := nHeight, nVersion := 1 }

theorem recordable_empty : CCoins.Recordable ⟨0, []⟩ := ⟨by decide, by decide, by decide, by decide⟩

end CTxInUndo

open CTxInUndo in
theorem undo_round_trip_coinbase :
    (CTxInUndo.unserialize CCoins.noPubKeys).run
        (coinbaseUndo.serialize CCoins.noPubKeys ++ [9]) = some (coinbaseUndo, [9]) ∧
      ∃ undo : CTxInUndo, (CTxInUndo.unserialize CCoins.noPubKeys).run
          (CTxInUndo.serialize CCoins.noPubKeys
            { txout := ⟨0, []⟩, nHeight := 7, nVersion := 1 } ++ [9]) = some (undo, [9]) ∧
        (undo.nHeight ≠ 0 ↔ ({ nHeight := 7, nVersion := 1 } : CCoins).vout = []) :=
  ⟨(undo_round_trip CCoins.noPubKeys).1 coinbaseUndo
      ⟨by decide, by decide, by decide, by decide, by decide, by decide, by decide, by decide⟩ [9],
    (undo_round_trip CCoins.noPubKeys).2 (coinsAt 7) _ ⟨1, 0⟩ _ rfl (by decide) (by decide)
      (by decide) recordable_empty [9]⟩

-- The format keeps neither an amount below zero nor heights outside of thirty bits, and the metadata
-- of a block at height zero looks like none.
open CTxInUndo in
theorem undo_round_trip_limits :
    (CTxInUndo.unserialize CCoins.noPubKeys).run (nullUndo.serialize CCoins.noPubKeys) ≠
        some (nullUndo, []) ∧
      (∃ undo, (coinsAt 0).spend ⟨1, 0⟩ = some ({ (coinsAt 0) with vout := [] }, undo) ∧
        undo.nHeight = 0) ∧
      ∃ undo, (coinsAt (2 ^ 30)).spend ⟨1, 0⟩ =
          some ({ (coinsAt (2 ^ 30)) with vout := [] }, undo) ∧
        ((CTxInUndo.unserialize CCoins.noPubKeys).run
          (undo.serialize CCoins.noPubKeys ++ List.replicate 20 0)).map (fun r => r.1.nHeight) =
            some 0 :=
  ⟨by decide +kernel, ⟨_, rfl, rfl⟩, _, rfl, by decide +kernel⟩

end AnkerNode
