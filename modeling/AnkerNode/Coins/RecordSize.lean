import AnkerNode.Coins.RecordRoundTrip

namespace AnkerNode

open ByteStream TrimmedList

def getSizeOfVarIntLoop : Nat → Int → Nat
  | 0, _ => 0
  | fuel + 1, n => 1 + if n ≤ 0x7f then 0 else getSizeOfVarIntLoop fuel (n / 128 - 1)

def getSizeOfVarInt (bits : Nat) (n : Int) : Nat := getSizeOfVarIntLoop ((bits + 6) / 7) n

theorem length_writeVarIntLoop (fuel n : Nat) (tmp : List UInt8) :
    (writeVarIntLoop fuel n tmp).length = tmp.length + getSizeOfVarIntLoop fuel n := by
  induction fuel generalizing n tmp with
  | zero => rfl
  | succ fuel ih =>
    rw [writeVarIntLoop, getSizeOfVarIntLoop]
    by_cases hle : n ≤ 0x7f
    · have hint : (n : Int) ≤ 0x7f := by omega
      rw [if_pos hle, if_pos hint, List.length_cons]
    · have hint : ¬(n : Int) ≤ 0x7f := by omega
      have hnext : ((n / 128 - 1 : Nat) : Int) = (n : Int) / 128 - 1 := by omega
      rw [if_neg hle, if_neg hint, ih, List.length_cons, hnext]
      omega

theorem length_writeVarInt (bits n : Nat) : (writeVarInt bits n).length = getSizeOfVarInt bits n := by
  rw [writeVarInt, length_writeVarIntLoop, getSizeOfVarInt, List.length_nil, Nat.zero_add]

theorem length_writeVarInt32 (n : Int) : (writeVarInt32 n).length = getSizeOfVarInt 32 n := by
  rw [writeVarInt32, length_writeVarInt, varInt32Code]
  split
  · have hshort : ∀ m : Int, m ≤ 0x7f → getSizeOfVarInt 32 m = 1 := by
      intro m hm
      rw [getSizeOfVarInt, getSizeOfVarIntLoop, if_pos hm]
    rw [hshort n (by omega), hshort _ (by omega)]
  · rw [Int.toNat_of_nonneg (by omega)]

def varIntBounds : List Nat := [128, 16512, 2113664, 270549120]

theorem getSizeOfVarInt_eq {n : Nat} (hn : n < 2 ^ 32) :
    getSizeOfVarInt 32 n = 1 + varIntBounds.countP fun bound => decide (bound ≤ n) := by
  simp only [getSizeOfVarInt, getSizeOfVarIntLoop, varIntBounds, List.countP_cons, List.countP_nil,
    decide_eq_true_eq, Nat.reduceAdd, Nat.reduceDiv]
  split_ifs <;> omega

theorem countP_eq_iff {α : Type} {p q : α → Bool} {l : List α}
    (h : ∀ a ∈ l, p a = true → q a = true) :
    l.countP p = l.countP q ↔ ∀ a ∈ l, p a = q a := by
  induction l with
  | nil => exact iff_of_true rfl (List.forall_mem_nil _)
  | cons a l ih =>
    rw [List.forall_mem_cons] at h
    have hle : l.countP p ≤ l.countP q := List.countP_mono_left h.2
    rw [List.forall_mem_cons, ← ih h.2, List.countP_cons, List.countP_cons]
    cases hp : p a with
    | true => simp [h.1 hp]
    | false =>
      cases q a with
      | true => simp only [Bool.false_eq_true, if_true, if_false, false_and, iff_false]; omega
      | false => simp

theorem getSizeOfVarInt_eq_iff {m n : Nat} (hm : m < 2 ^ 32) (hn : n < 2 ^ 32) :
    getSizeOfVarInt 32 m = getSizeOfVarInt 32 n ↔
      ∀ bound ∈ varIntBounds, m < bound ↔ n < bound := by
  wlog hle : m ≤ n generalizing m n
  · rw [eq_comm, this hn hm (Nat.le_of_not_le hle)]
    exact forall₂_congr fun bound _ => iff_comm
  · rw [getSizeOfVarInt_eq hm, getSizeOfVarInt_eq hn, Nat.add_left_cancel_iff, countP_eq_iff]
    · refine forall₂_congr fun bound _ => ?_
      rw [decide_eq_decide, ← not_lt, ← not_lt, not_iff_not]
    · intro bound _ hbound
      exact decide_eq_true ((of_decide_eq_true hbound).trans hle)

namespace CCoins

def maskStep (vout : List CTxOut) (sizes : Nat × Nat) (b : Nat) : Nat × Nat :=
  if ((vout.drop (2 + b * 8)).take 8).any avail then (b + 1, sizes.2 + 1) else sizes

-- the bytes of the mask up to the last one in use, and how many are not zero
def calcMaskSize (vout : List CTxOut) : Nat × Nat :=
  (List.range ((vout.length - 2 + 7) / 8)).foldl (maskStep vout) (0, 0)

def outputSize (ops : PubKeyOps) (o : CTxOut) : Nat := (CTxOutCompressor.serialize ops o).length

-- The header code counts eight for each byte of the mask, where `serialize` counts sixteen.
def getSerializeSize (ops : PubKeyOps) (c : CCoins) : Option Nat :=
  let (nMaskSize, nMaskCode) := calcMaskSize c.vout
  -- assert(fFirst || fSecond || nMaskCode)
  if !(c.fFirst || c.fSecond || nMaskCode != 0) then none
  else
    let nCode : Nat := (8 * (nMaskCode - if c.fFirst || c.fSecond then 0 else 1) +
      (if c.fCoinBase then 1 else 0) + (if c.fCoinStake then 2 else 0) +
      (if c.fFirst then 4 else 0) + (if c.fSecond then 8 else 0)) % 2 ^ 32
    some ((getSizeOfVarInt 32 c.nVersion + getSizeOfVarInt 32 nCode + nMaskSize +
      ((c.vout.filter fun o => !o.isNull).map (outputSize ops)).sum +
      getSizeOfVarInt 32 c.nHeight) % 2 ^ 32)

def recordBytes (ops : PubKeyOps) (c : CCoins) : Nat :=
  getSizeOfVarInt 32 c.nVersion + getSizeOfVarInt 32 c.nCode +
    ((maskBytes c.vout).rdropWhile fun b => b == 0).length +
    ((c.vout.filter fun o => !o.isNull).map (outputSize ops)).sum + getSizeOfVarInt 32 c.nHeight

def codeCount (c : CCoins) : Nat := c.nMaskCode - if c.fFirst || c.fSecond then 0 else 1

-- Neither the announced size wraps nor does a bound of the header's length lie between the codes.
structure SizeKept (ops : PubKeyOps) (c : CCoins) : Prop where
  short : c.recordBytes ops < 2 ^ 32
  code : ∀ bound ∈ varIntBounds, (8 * c.codeCount + c.flagBits) % 2 ^ 32 < bound ↔
    (16 * c.codeCount + c.flagBits) % 2 ^ 32 < bound

section Mask

theorem availBits_eq_zero_iff {outs : List CTxOut} (h : outs.length ≤ 8) :
    availBits outs = 0 ↔ outs.any avail = false := by
  constructor
  · intro hzero
    rw [List.any_eq_false]
    intro o ho havail
    refine availBits_ne_zero h ⟨o, ho, ?_⟩ hzero
    rwa [avail, Bool.not_eq_true'] at havail
  · intro hnone
    have hbits : bitsOf outs = 0 := by
      clear h
      induction outs with
      | nil => rfl
      | cons o outs ih =>
        rw [List.any_cons, Bool.or_eq_false_iff, avail, Bool.not_eq_false'] at hnone
        have hrest := ih hnone.2
        rw [bitsOf] at hrest
        rw [bitsOf, List.foldr_cons, hrest, if_pos hnone.1]
    change UInt8.ofNat (bitsOf outs) = 0
    rw [hbits]
    rfl

theorem foldl_maskStep (vout : List CTxOut) (n : Nat) :
    (List.range n).foldl (maskStep vout) (0, 0) =
      ((((List.range n).map fun b => availBits ((vout.drop (2 + b * 8)).take 8)).rdropWhile
          fun b => b == 0).length,
        ((List.range n).map fun b => availBits ((vout.drop (2 + b * 8)).take 8)).countP
          fun b => b != 0) := by
  induction n with
  | zero => rfl
  | succ n ih =>
    have hlength : ((vout.drop (2 + n * 8)).take 8).length ≤ 8 := List.length_take_le 8 _
    rw [List.range_succ, List.foldl_append, ih, List.foldl_cons, List.foldl_nil, maskStep,
      List.map_append, List.map_singleton, List.countP_append, List.countP_singleton]
    by_cases hzero : availBits ((vout.drop (2 + n * 8)).take 8) = 0
    · rw [(availBits_eq_zero_iff hlength).mp hzero, List.rdropWhile_concat_pos _ _ _ (by simp [hzero])]
      simp [hzero]
    · rw [List.rdropWhile_concat_neg _ _ _ (by simp [hzero])]
      rw [availBits_eq_zero_iff hlength, Bool.not_eq_false] at hzero
      rw [hzero]
      simp [availBits_eq_zero_iff hlength, hzero]

theorem calcMaskSize_eq (c : CCoins) : calcMaskSize c.vout =
    (((maskBytes c.vout).rdropWhile fun b => b == 0).length, c.nMaskCode) := by
  rw [calcMaskSize, foldl_maskStep]
  rfl

theorem exists_late_output {c : CCoins} (hpruned : c.isPruned = false)
    (hheader : (c.fFirst || c.fSecond) = false) : ∃ o ∈ c.vout.drop 2, avail o = true := by
  rw [isPruned, List.all_eq_false] at hpruned
  obtain ⟨o, ho, hnull⟩ := hpruned
  rw [Bool.or_eq_false_iff, fFirst, fSecond, outAt, outAt, Bool.not_eq_false',
    Bool.not_eq_false'] at hheader
  obtain ⟨n, hn, rfl⟩ := List.getElem_of_mem ho
  obtain _ | _ | n := n
  · rw [List.getD_eq_getElem _ _ hn] at hheader
    exact absurd hheader.1 hnull
  · rw [List.getD_eq_getElem _ _ hn] at hheader
    exact absurd hheader.2 hnull
  · refine ⟨c.vout[n + 2], ?_, by simpa [avail] using hnull⟩
    rw [List.mem_iff_getElem]
    refine ⟨n, by rw [List.length_drop]; omega, ?_⟩
    rw [List.getElem_drop]
    congr 1
    omega

-- The assertion of the header holds where there is an output left to announce.
theorem header_asserted {c : CCoins} (hpruned : c.isPruned = false) :
    (c.fFirst || c.fSecond || c.nMaskCode != 0) = true := by
  by_contra hnone
  rw [Bool.not_eq_true, Bool.or_eq_false_iff, bne_eq_false_iff_eq] at hnone
  obtain ⟨o, ho, havail⟩ := exists_late_output hpruned hnone.1
  obtain ⟨k, hbits⟩ := maskOf_bits (c.vout.drop 2)
  have hmem : true ∈ (maskOf (c.vout.drop 2)).flatMap byteBits := by
    rw [hbits, ← havail]
    exact List.mem_map_of_mem (List.mem_append_left _ ho)
  obtain ⟨b, hb, hbit⟩ := List.mem_flatMap.mp hmem
  rw [nMaskCode, maskBytes_eq, List.countP_eq_zero] at hnone
  have hzero : b = 0 := by simpa using hnone.2 b hb
  rw [hzero] at hbit
  exact absurd hbit (by decide)

end Mask

section Sizes

variable {ops : PubKeyOps} {c : CCoins}

theorem length_serialize : (c.serialize ops).length = c.recordBytes ops := by
  simp only [serialize, List.length_append, List.length_flatMap, length_writeVarInt32,
    length_writeVarInt, recordBytes]
  rfl

theorem getSerializeSize_eq (hpruned : c.isPruned = false) :
    c.getSerializeSize ops = some ((getSizeOfVarInt 32 c.nVersion +
      getSizeOfVarInt 32 ((8 * c.codeCount + c.flagBits) % 2 ^ 32 : Nat) +
      ((maskBytes c.vout).rdropWhile fun b => b == 0).length +
      ((c.vout.filter fun o => !o.isNull).map (outputSize ops)).sum +
      getSizeOfVarInt 32 c.nHeight) % 2 ^ 32) := by
  simp only [getSerializeSize, calcMaskSize_eq, header_asserted hpruned, Bool.not_true,
    Bool.false_eq_true, if_false, codeCount, flagBits, Nat.add_assoc]

theorem getSizeOfVarInt_le (n : Int) : getSizeOfVarInt 32 n ≤ 5 := by
  have hloop : ∀ fuel n, getSizeOfVarIntLoop fuel n ≤ fuel := by
    intro fuel
    induction fuel with
    | zero => exact fun n => Nat.le_refl 0
    | succ fuel ih =>
      intro n
      have hrest := ih (n / 128 - 1)
      rw [getSizeOfVarIntLoop]
      split <;> omega
  exact hloop 5 n

theorem announced_iff (hpruned : c.isPruned = false) :
    c.getSerializeSize ops = some (c.serialize ops).length ↔ c.SizeKept ops := by
  have hcodes := getSizeOfVarInt_eq_iff (m := (8 * c.codeCount + c.flagBits) % 2 ^ 32)
    (n := (16 * c.codeCount + c.flagBits) % 2 ^ 32) (Nat.mod_lt _ (by decide))
    (Nat.mod_lt _ (by decide))
  have hcode : c.nCode = (16 * c.codeCount + c.flagBits) % 2 ^ 32 := nCode_eq c
  have height := getSizeOfVarInt_le ((8 * c.codeCount + c.flagBits) % 2 ^ 32 : Nat)
  have hsixteen := getSizeOfVarInt_le ((16 * c.codeCount + c.flagBits) % 2 ^ 32 : Nat)
  rw [getSerializeSize_eq hpruned, length_serialize, Option.some.injEq]
  constructor
  · intro h
    rw [recordBytes, hcode] at h
    have hshort : c.recordBytes ops < 2 ^ 32 := by
      rw [recordBytes, hcode, ← h]
      exact Nat.mod_lt _ (by decide)
    refine ⟨hshort, hcodes.mp ?_⟩
    rw [recordBytes, hcode] at hshort
    omega
  · intro h
    have hshort := h.short
    rw [recordBytes, hcode] at hshort ⊢
    rw [hcodes.mpr h.code]
    exact Nat.mod_eq_of_lt hshort

end Sizes

end CCoins

namespace CTxInUndo

variable (ops : PubKeyOps) (undo : CTxInUndo)

def heightCode : Nat :=
  (undo.nHeight * 4 + (if undo.fCoinBase then 2 else 0) + (if undo.fCoinStake then 1 else 0)) % 2 ^ 32

def recordBytes : Nat :=
  getSizeOfVarInt 32 undo.heightCode +
    (if 0 < undo.nHeight then getSizeOfVarInt 32 undo.nVersion else 0) +
    CCoins.outputSize ops undo.txout

def getSerializeSize : Nat := undo.recordBytes ops % 2 ^ 32

theorem length_serialize : (undo.serialize ops).length = undo.recordBytes ops := by
  rw [serialize, List.length_append, List.length_append, length_writeVarInt, recordBytes,
    CCoins.outputSize, apply_ite List.length, length_writeVarInt32, List.length_nil, heightCode]
  exact (Nat.add_assoc _ _ _).symm

theorem announced_iff : undo.getSerializeSize ops = (undo.serialize ops).length ↔
    undo.recordBytes ops < 2 ^ 32 := by
  rw [getSerializeSize, length_serialize]
  constructor
  · intro h
    rw [← h]
    exact Nat.mod_lt _ (by decide)
  · exact Nat.mod_eq_of_lt

end CTxInUndo

theorem announced_size_iff (ops : PubKeyOps) :
    (∀ c : CCoins, c.isPruned = false →
      (c.getSerializeSize ops = some (c.serialize ops).length ↔ c.SizeKept ops)) ∧
    ∀ undo : CTxInUndo, undo.getSerializeSize ops = (undo.serialize ops).length ↔
      undo.recordBytes ops < 2 ^ 32 :=
  ⟨fun _ hpruned => CCoins.announced_iff hpruned, CTxInUndo.announced_iff ops⟩

theorem announced_size_keyID :
    CCoins.keyIDRecord.getSerializeSize CCoins.noPubKeys =
      some (CCoins.keyIDRecord.serialize CCoins.noPubKeys).length :=
  ((announced_size_iff CCoins.noPubKeys).1 CCoins.keyIDRecord (by decide)).mpr
    ⟨by decide, by decide⟩

-- Fifty-nine unspent outputs fill eight bytes of the mask.
theorem announced_size_one_short :
    (CCoins.wideRecord 59).isPruned = false ∧
      (CCoins.wideRecord 59).getSerializeSize CCoins.noPubKeys = some 129 ∧
      ((CCoins.wideRecord 59).serialize CCoins.noPubKeys).length = 130 := by
  exact ⟨by decide, by decide +kernel, by decide +kernel⟩

end AnkerNode
