import AnkerNode.Lib.Bits
import AnkerNode.Script.Script

namespace AnkerNode

def isCompressedOrUncompressedPubKey (vchPubKey : Valtype) : Bool :=
  if vchPubKey.length < 33 then false
  else if vchPubKey.headD 0 = 0x04 then decide (vchPubKey.length = 65)
  else if vchPubKey.headD 0 = 0x02 ∨ vchPubKey.headD 0 = 0x03 then decide (vchPubKey.length = 33)
  else false

def isCompressedPubKey (vchPubKey : Valtype) : Bool :=
  decide (vchPubKey.length = 33) && (vchPubKey.headD 0 == 0x02 || vchPubKey.headD 0 == 0x03)

-- a positive integer of `len` bytes at `pos`, not padded
def isCanonicalInteger (sig : Valtype) (pos len : Nat) : Bool :=
  len != 0 && sig.getD pos 0 &&& 0x80 == 0 &&
    !(decide (1 < len) && sig.getD pos 0 == 0 && sig.getD (pos + 1) 0 &&& 0x80 == 0)

def isValidSignatureEncoding (sig : Valtype) : Bool :=
  let lenR := (sig.getD 3 0).toNat
  let lenS := (sig.getD (5 + lenR) 0).toNat
  decide (9 ≤ sig.length) && decide (sig.length ≤ 73) && sig.getD 0 0 == 0x30 &&
    (sig.getD 1 0).toNat == sig.length - 3 && decide (5 + lenR < sig.length) &&
    lenR + lenS + 7 == sig.length && sig.getD 2 0 == 0x02 && isCanonicalInteger sig 4 lenR &&
    sig.getD (lenR + 4) 0 == 0x02 && isCanonicalInteger sig (lenR + 6) lenS

namespace Eccrypto

def vchMaxModHalfOrder : Valtype :=
  [0x7F, 0xFF, 0xFF, 0xFF, 0xFF, 0xFF, 0xFF, 0xFF, 0xFF, 0xFF, 0xFF, 0xFF, 0xFF, 0xFF, 0xFF, 0xFF,
    0x5D, 0x57, 0x6E, 0x73, 0x57, 0xA4, 0x50, 0x1D, 0xDF, 0xE9, 0x2F, 0x46, 0x68, 0x1B, 0x20, 0xA0]

def compareSameLength : Valtype → Valtype → Int
  | a :: c1, b :: c2 => if b < a then 1 else if a < b then -1 else compareSameLength c1 c2
  | _, _ => 0

def compareBigEndian (c1 c2 : Valtype) : Int :=
  if (c1.take (c1.length - c2.length)).any fun b => b != 0 then 1
  else if (c2.take (c2.length - c1.length)).any fun b => b != 0 then -1
  else compareSameLength (c1.drop (c1.length - c2.length)) (c2.drop (c2.length - c1.length))

def checkSignatureElementHalf (vch : Valtype) : Bool :=
  decide (0 < compareBigEndian vch []) && decide (compareBigEndian vch vchMaxModHalfOrder ≤ 0)

end Eccrypto

def isLowDERSignature (vchSig : Valtype) : Except ScriptFailure Unit := do
  setErrorIf (!isValidSignatureEncoding vchSig) .SCRIPT_ERR_SIG_DER
  let nLenR := (vchSig.getD 3 0).toNat
  let nLenS := (vchSig.getD (5 + nLenR) 0).toNat
  setErrorIf (!Eccrypto.checkSignatureElementHalf ((vchSig.drop (6 + nLenR)).take nLenS))
    .SCRIPT_ERR_SIG_HIGH_S

def isDefinedHashtypeSignature (vchSig : Valtype) : Bool :=
  match vchSig.getLast? with
  | none => false
  | some back => decide (1 ≤ back &&& 0x7f) && decide (back &&& 0x7f ≤ 3)

def checkSignatureEncoding (vchSig : Valtype) (flags : Nat) : Except ScriptFailure Unit :=
  if vchSig = [] then .ok ()
  else do
    setErrorIf ((hasFlag flags SCRIPT_VERIFY_DERSIG || hasFlag flags SCRIPT_VERIFY_LOW_S ||
      hasFlag flags SCRIPT_VERIFY_STRICTENC) && !isValidSignatureEncoding vchSig)
      .SCRIPT_ERR_SIG_DER
    Checks.onlyIf (hasFlag flags SCRIPT_VERIFY_LOW_S) (isLowDERSignature vchSig)
    setErrorIf (hasFlag flags SCRIPT_VERIFY_STRICTENC && !isDefinedHashtypeSignature vchSig)
      .SCRIPT_ERR_SIG_HASHTYPE

def checkPubKeyEncoding (vchPubKey : Valtype) (flags : Nat) (sigversion : SigVersion) :
    Except ScriptFailure Unit := do
  setErrorIf (hasFlag flags SCRIPT_VERIFY_STRICTENC && !isCompressedOrUncompressedPubKey vchPubKey)
    .SCRIPT_ERR_PUBKEYTYPE
  setErrorIf (hasFlag flags SCRIPT_VERIFY_WITNESS_PUBKEYTYPE &&
    decide (sigversion = .SIGVERSION_WITNESS_V0) && !isCompressedPubKey vchPubKey)
    .SCRIPT_ERR_WITNESS_PUBKEYTYPE

open TwosComplement

-- an integer's checks with each read in its place; `none` is a read outside the string
def readCanonicalInteger (sig : Valtype) (pos len : Nat) : Option Bool :=
  if len = 0 then some false
  else do
    let first ← sig[pos]?
    if first &&& 0x80 ≠ 0 then some false
    else if 1 < len ∧ first = 0x00 then do
      let second ← sig[pos + 1]?
      some (second &&& 0x80 != 0)
    else some true

def readSignatureEncoding (sig : Valtype) : Option Bool :=
  if sig.length < 9 then some false
  else if 73 < sig.length then some false
  else do
    let type ← sig[0]?
    if type ≠ 0x30 then some false
    else do
    let total ← sig[1]?
    if total.toNat ≠ sig.length - 3 then some false
    else do
    let lenR ← sig[3]?
    if sig.length ≤ 5 + lenR.toNat then some false
    else do
    let lenS ← sig[5 + lenR.toNat]?
    if lenR.toNat + lenS.toNat + 7 ≠ sig.length then some false
    else do
    let typeR ← sig[2]?
    if typeR ≠ 0x02 then some false
    else do
    let canonicalR ← readCanonicalInteger sig 4 lenR.toNat
    if !canonicalR then some false
    else do
    let typeS ← sig[lenR.toNat + 4]?
    if typeS ≠ 0x02 then some false
    else readCanonicalInteger sig (lenR.toNat + 6) lenS.toNat

-- `30 L 02 r R 02 s S h`
def StrictDer (sig : Valtype) : Prop :=
  ∃ (L r s h : UInt8) (R S : Valtype),
    sig = 0x30 :: L :: 0x02 :: r :: (R ++ 0x02 :: s :: (S ++ [h])) ∧
    9 ≤ sig.length ∧ sig.length ≤ 73 ∧ L.toNat = sig.length - 3 ∧
    R.length = r.toNat ∧ 1 ≤ r.toNat ∧ S.length = s.toNat ∧ 1 ≤ s.toNat ∧
    Canonical R ∧ Canonical S

theorem getElem?_eq_getD {sig : Valtype} {i : Nat} (h : i < sig.length) :
    sig[i]? = some (sig.getD i 0) := by
  rw [List.getElem?_eq_getElem h, List.getD_eq_getElem sig 0 h]

theorem readCanonicalInteger_eq {sig : Valtype} {pos len : Nat} (h : pos + len ≤ sig.length) :
    readCanonicalInteger sig pos len = some (isCanonicalInteger sig pos len) := by
  unfold readCanonicalInteger isCanonicalInteger
  by_cases hlen : len = 0
  · simp [hlen]
  rw [if_neg hlen, getElem?_eq_getD (by omega : pos < sig.length), Option.bind_eq_bind,
    Option.bind_some]
  by_cases hone : 1 < len
  · rw [getElem?_eq_getD (by omega : pos + 1 < sig.length)]
    generalize sig.getD pos 0 = first
    generalize sig.getD (pos + 1) 0 = second
    by_cases hneg : first &&& 0x80 = 0 <;> by_cases hzero : first = 0 <;>
      simp [hlen, hone, hneg, hzero, bne]
  · generalize sig.getD pos 0 = first
    by_cases hneg : first &&& 0x80 = 0 <;> simp [hlen, hone, hneg]

theorem readSignatureEncoding_eq (sig : Valtype) :
    readSignatureEncoding sig = some (isValidSignatureEncoding sig) := by
  unfold readSignatureEncoding isValidSignatureEncoding
  by_cases hmin : sig.length < 9
  · simp [hmin, Nat.not_le.mpr hmin]
  by_cases hmax : 73 < sig.length
  · simp [hmin, hmax, Nat.not_le.mpr hmax]
  have h0 := getElem?_eq_getD (by omega : 0 < sig.length)
  have h1 := getElem?_eq_getD (by omega : 1 < sig.length)
  have h2 := getElem?_eq_getD (by omega : 2 < sig.length)
  have h3 := getElem?_eq_getD (by omega : 3 < sig.length)
  simp only [if_neg hmin, if_neg hmax, h0, h1, h2, h3, Option.bind_eq_bind, Option.bind_some,
    decide_eq_true (Nat.not_lt.mp hmin), decide_eq_true (Nat.not_lt.mp hmax), Bool.true_and]
  generalize sig.getD 0 0 = type
  generalize sig.getD 1 0 = total
  generalize sig.getD 2 0 = typeR
  generalize sig.getD 3 0 = lenR
  by_cases htype : type = 0x30
  case neg => simp [htype]
  by_cases htotal : total.toNat = sig.length - 3
  case neg => simp [htype, htotal]
  by_cases hin : sig.length ≤ 5 + lenR.toNat
  · simp [htype, htotal, hin, Nat.not_lt.mpr hin]
  rw [getElem?_eq_getD (Nat.not_le.mp hin), Option.bind_some]
  generalize sig.getD (5 + lenR.toNat) 0 = lenS
  by_cases hsum : lenR.toNat + lenS.toNat + 7 = sig.length
  case neg => simp [htype, htotal, hin, hsum]
  -- from here both integers and the byte before the second lie inside the string
  rw [readCanonicalInteger_eq (by omega : 4 + lenR.toNat ≤ sig.length),
    getElem?_eq_getD (by omega : lenR.toNat + 4 < sig.length),
    readCanonicalInteger_eq (by omega : lenR.toNat + 6 + lenS.toNat ≤ sig.length)]
  generalize sig.getD (lenR.toNat + 4) 0 = typeS
  by_cases htypeR : typeR = 0x02
  case neg => simp [htype, htotal, hin, hsum, htypeR]
  cases hR : isCanonicalInteger sig 4 lenR.toNat
  case false => simp [htype, htotal, hin, hsum, htypeR]
  by_cases htypeS : typeS = 0x02
  case neg => simp [htype, htotal, hin, hsum, htypeR, htypeS]
  simp [htype, htotal, Nat.not_le.mp hin, hsum, htypeR, htypeS]

theorem and_sign_bit_eq_zero_iff (b : UInt8) : b &&& 0x80 = 0 ↔ b.toNat < 128 := by
  have hb : b.toNat < 256 := b.toNat_lt
  have hand : b.toNat &&& 128 = (b.toNat.testBit 7).toNat * 2 ^ 7 := Nat.and_two_pow b.toNat 7
  rw [← UInt8.toNat_inj, UInt8.toNat_and, show (0x80 : UInt8).toNat = 128 from rfl,
    show (0 : UInt8).toNat = 0 from rfl, hand, Nat.testBit_eq_decide_div_mod_eq]
  by_cases hbit : b.toNat / 2 ^ 7 % 2 = 1
  · simp only [hbit, decide_true, Bool.toNat_true]
    omega
  · simp only [hbit, decide_false, Bool.toNat_false]
    omega

theorem getD_append_add (before bytes : Valtype) (i : Nat) :
    (before ++ bytes).getD (before.length + i) 0 = bytes.getD i 0 := by
  rw [List.getD_append_right before bytes 0 _ (Nat.le_add_right _ _), Nat.add_sub_cancel_left]

-- the checks of an integer that lies between two other parts of the string
theorem isCanonicalInteger_append (before bytes after : Valtype) :
    isCanonicalInteger (before ++ (bytes ++ after)) before.length bytes.length = true ↔
      Canonical bytes := by
  have hfirst := getD_append_add before (bytes ++ after) 0
  have hsecond := getD_append_add before (bytes ++ after) 1
  rw [Nat.add_zero] at hfirst
  rw [isCanonicalInteger, hfirst, hsecond]
  match bytes with
  | [] => simpa using fun h : Canonical [] => h.ne_nil rfl
  | [b] => simp [canonical_singleton_iff, ← and_sign_bit_eq_zero_iff]
  | b :: c :: bytes =>
      rw [canonical_cons_cons_iff, ← and_sign_bit_eq_zero_iff, ← Nat.not_lt,
        ← and_sign_bit_eq_zero_iff]
      simp only [List.cons_append, List.length_cons, List.getD_cons_zero, List.getD_cons_succ]
      by_cases hzero : b = 0 <;> simp [hzero]

theorem exists_layout {sig : Valtype} {lenR lenS : Nat} (h : lenR + lenS + 7 = sig.length) :
    ∃ (type total typeR r typeS s hashType : UInt8) (R S : Valtype),
      sig = type :: total :: typeR :: r :: (R ++ typeS :: s :: (S ++ [hashType])) ∧
      R.length = lenR ∧ S.length = lenS := by
  match sig with
  | type :: total :: typeR :: r :: rest =>
      simp only [List.length_cons] at h
      have hrest : rest = rest.take lenR ++ rest.drop lenR := (List.take_append_drop _ _).symm
      have htake : (rest.take lenR).length = lenR := List.length_take_of_le (by omega)
      have hdrop : (rest.drop lenR).length = lenS + 3 := by rw [List.length_drop]; omega
      generalize rest.take lenR = R at hrest htake
      generalize rest.drop lenR = tail at hrest hdrop
      match tail with
      | typeS :: s :: last =>
          simp only [List.length_cons] at hdrop
          have hne : last ≠ [] := by rintro rfl; simp at hdrop
          refine ⟨type, total, typeR, r, typeS, s, last.getLast hne, R, last.dropLast, ?_, htake, ?_⟩
          · rw [List.dropLast_append_getLast hne, hrest]
          · rw [List.length_dropLast]; omega
      | [_] => simp at hdrop
      | [] => simp at hdrop
  | [_, _, _] => simp at h
  | [_, _] => simp at h
  | [_] => simp at h
  | [] => simp at h

theorem isValidSignatureEncoding_layout (type total typeR r typeS s hashType : UInt8)
    (R S : Valtype) (hR : R.length = r.toNat) (hS : S.length = s.toNat) :
    isValidSignatureEncoding
        (type :: total :: typeR :: r :: (R ++ typeS :: s :: (S ++ [hashType]))) = true ↔
      9 ≤ r.toNat + s.toNat + 7 ∧ r.toNat + s.toNat + 7 ≤ 73 ∧ type = 0x30 ∧
      total.toNat = r.toNat + s.toNat + 4 ∧ typeR = 0x02 ∧ Canonical R ∧ typeS = 0x02 ∧
      Canonical S := by
  have hlen : (type :: total :: typeR :: r :: (R ++ typeS :: s :: (S ++ [hashType]))).length =
      r.toNat + s.toNat + 7 := by
    simp only [List.length_cons, List.length_append, List.length_nil]
    omega
  have htypeS := getD_append_add (type :: total :: typeR :: r :: R)
    (typeS :: s :: (S ++ [hashType])) 0
  have hs := getD_append_add (type :: total :: typeR :: r :: R)
    (typeS :: s :: (S ++ [hashType])) 1
  have hcanonR := isCanonicalInteger_append [type, total, typeR, r] R
    (typeS :: s :: (S ++ [hashType]))
  have hcanonS := isCanonicalInteger_append
    (type :: total :: typeR :: r :: (R ++ [typeS, s])) S [hashType]
  simp only [List.cons_append, List.nil_append, List.append_assoc, List.length_cons,
    List.length_append, List.length_nil, hR, hS, List.getD_cons_zero, List.getD_cons_succ,
    Nat.add_zero, Nat.zero_add, Nat.reduceAdd, Nat.add_assoc] at htypeS hs hcanonR hcanonS
  have hindex : 5 + r.toNat = r.toNat + 1 + 1 + 1 + 1 + 1 := by omega
  rw [isValidSignatureEncoding, hlen]
  simp only [List.getD_cons_zero, List.getD_cons_succ, hindex, htypeS, hs, Bool.and_eq_true,
    decide_eq_true_eq, beq_iff_eq, hcanonR, hcanonS]
  constructor
  · rintro ⟨⟨⟨⟨⟨⟨⟨⟨⟨hmin, hmax⟩, htype⟩, htotal⟩, -⟩, -⟩, htypeR⟩, hR⟩, htypeS⟩, hS⟩
    exact ⟨hmin, hmax, htype, by omega, htypeR, hR, htypeS, hS⟩
  · rintro ⟨hmin, hmax, htype, htotal, htypeR, hR, htypeS, hS⟩
    refine ⟨⟨⟨⟨⟨⟨⟨⟨⟨hmin, hmax⟩, htype⟩, by omega⟩, ?_⟩, trivial⟩, htypeR⟩, hR⟩, htypeS⟩, hS⟩
    have hpos : 0 < S.length := List.length_pos_iff.mpr hS.ne_nil
    omega

theorem isValidSignatureEncoding_iff (sig : Valtype) :
    isValidSignatureEncoding sig = true ↔ StrictDer sig := by
  constructor
  · intro hvalid
    have hsum : (sig.getD 3 0).toNat + (sig.getD (5 + (sig.getD 3 0).toNat) 0).toNat + 7 =
        sig.length := by
      simp only [isValidSignatureEncoding, Bool.and_eq_true, beq_iff_eq] at hvalid
      exact hvalid.1.1.1.1.2
    obtain ⟨type, total, typeR, r, typeS, s, hashType, R, S, rfl, hR, hS⟩ := exists_layout hsum
    have hr : R.length = r.toNat := hR
    have hs : S.length = s.toNat := by
      rw [hS, ← hR, Nat.add_comm 5]
      have hlast := getD_append_add (type :: total :: typeR :: r :: R)
        (typeS :: s :: (S ++ [hashType])) 1
      exact congrArg UInt8.toNat hlast
    obtain ⟨hmin, hmax, rfl, htotal, rfl, hcanonR, rfl, hcanonS⟩ :=
      (isValidSignatureEncoding_layout type total typeR r typeS s hashType R S hr hs).mp hvalid
    have hposR : 0 < R.length := List.length_pos_iff.mpr hcanonR.ne_nil
    have hposS : 0 < S.length := List.length_pos_iff.mpr hcanonS.ne_nil
    have hlen : (0x30 :: total :: 0x02 :: r :: (R ++ 0x02 :: s :: (S ++ [hashType]))).length =
        r.toNat + s.toNat + 7 := by
      simp only [List.length_cons, List.length_append, List.length_nil]
      omega
    exact ⟨total, r, s, hashType, R, S, rfl, by omega, by omega, by omega, hr, by omega, hs,
      by omega, hcanonR, hcanonS⟩
  · rintro ⟨L, r, s, h, R, S, rfl, hmin, hmax, hL, hR, -, hS, -, hcanonR, hcanonS⟩
    rw [isValidSignatureEncoding_layout _ _ _ _ _ _ _ R S hR hS]
    simp only [List.length_cons, List.length_append, List.length_nil] at hmin hmax hL
    exact ⟨by omega, by omega, rfl, by omega, rfl, hcanonR, rfl, hcanonS⟩

theorem readSignatureEncoding_strictDer (sig : Valtype) :
    readSignatureEncoding sig = some (isValidSignatureEncoding sig) ∧
      (isValidSignatureEncoding sig = true ↔ StrictDer sig) :=
  ⟨readSignatureEncoding_eq sig, isValidSignatureEncoding_iff sig⟩

end AnkerNode
