import AnkerNode.Coins.Undo
import AnkerNode.Lib.RadixBuffer
import Mathlib.Data.Bool.AllAny

namespace AnkerNode

open RadixBuffer

-- what ends the program instead of a function
inductive Base58Fault
  | intOverflow
  | lengthError
  | assertion
deriving DecidableEq, Repr

def pszBase58 : List Char :=
  "123456789ABCDEFGHJKLMNPQRSTUVWXYZabcdefghijkmnopqrstuvwxyz".toList

def base58Char (d : Nat) : Char := pszBase58.getD d '\x00'

-- in the C locale
def isspace (c : Char) : Bool := c == ' ' || ('\t' ≤ c && c ≤ '\r')

-- an int counted up from 0
def countInt (n : Nat) : Except Base58Fault Nat :=
  if n < 2 ^ 31 then pure n else throw .intOverflow

-- a vector whose size goes through an int
def allocate (n : Nat) : Except Base58Fault (List Nat) :=
  let size := toInt32 (n % 2 ^ 32)
  if size < 0 then throw .lengthError else pure (List.replicate size.toNat 0)

def encodeBase58 (vch : List UInt8) : Except Base58Fault (List Char) := do
  let zeroes ← countInt (vch.takeWhile (· == 0)).length
  let bytes := vch.dropWhile (· == 0)
  let b58 ← allocate (bytes.length * 138 / 100 + 1)
  match convert 58 256 (bytes.map UInt8.toNat) (b58, 0) with
  | none => throw .assertion
  | some (b58, length) => pure (List.replicate zeroes '1' ++ (trim b58 length).map base58Char)

-- the loop over the characters, and where it stops
def decodeDigits : List Char → List Nat × Nat →
    Except Base58Fault (Option (List Nat × Nat × List Char))
  | [], (b256, length) => pure (some (b256, length, []))
  | c :: psz, (b256, length) =>
    if isspace c then pure (some (b256, length, c :: psz))
    else
      match pszBase58.idxOf? c with
      | none => pure none
      | some digit =>
        let (b256, carry, i) := mulAdd 256 58 length 0 b256 digit
        if carry = 0 then decodeDigits psz (b256, i) else throw .assertion

-- of a string that ends where its characters do
def decodeBase58Psz (psz : List Char) : Except Base58Fault (Option (List UInt8)) := do
  let psz := psz.dropWhile isspace
  let zeroes ← countInt (psz.takeWhile (· == '1')).length
  let psz := psz.dropWhile (· == '1')
  let b256 ← allocate (psz.length * 733 / 1000 + 1)
  match ← decodeDigits psz (b256, 0) with
  | none => pure none
  | some (b256, length, psz) =>
    if psz.dropWhile isspace ≠ [] then pure none
    else pure (some (List.replicate zeroes 0 ++ (trim b256 length).map UInt8.ofNat))

-- `str.c_str()` is read up to its first null character.
def decodeBase58 (str : List Char) : Except Base58Fault (Option (List UInt8)) :=
  decodeBase58Psz (str.takeWhile (· ≠ '\x00'))

section Alphabet

theorem idxOf_base58Char : ∀ d < 58, pszBase58.idxOf? (base58Char d) = some d := by decide

theorem isspace_base58Char : ∀ d < 58, isspace (base58Char d) = false := by decide

theorem base58Char_ne_one : ∀ d < 58, base58Char d = '1' ↔ d = 0 := by decide

theorem base58Char_ne_null : ∀ d < 58, base58Char d ≠ '\x00' := by decide

theorem base58Char_of_idxOf {c : Char} {d : Nat} (h : pszBase58.idxOf? c = some d) :
    d < 58 ∧ base58Char d = c := by
  obtain ⟨hlt, hget, -⟩ := List.idxOf?_eq_some_iff.mp h
  exact ⟨hlt, by rw [base58Char, List.getD_eq_getElem _ _ hlt, hget]⟩

end Alphabet

section Span

variable {α : Type} {p : α → Bool}

theorem dropWhile_eq_self {l : List α} (hl : ∀ b ∈ l.head?, p b = false) : l.dropWhile p = l := by
  cases l with
  | nil => rfl
  | cons b l => rw [List.dropWhile_cons_of_neg (by rw [hl b rfl]; exact Bool.false_ne_true)]

theorem takeWhile_eq_nil {l : List α} (hl : ∀ b ∈ l.head?, p b = false) : l.takeWhile p = [] := by
  cases l with
  | nil => rfl
  | cons b l => rw [List.takeWhile_cons_of_neg (by rw [hl b rfl]; exact Bool.false_ne_true)]

theorem head?_dropWhile_eq_false (l : List α) : ∀ b ∈ (l.dropWhile p).head?, p b = false := by
  intro b hb
  have hnot := List.head?_dropWhile_not p l
  rw [Option.mem_def.mp hb] at hnot
  exact hnot

theorem span_replicate {a : α} (ha : p a = true) {l : List α} (hl : ∀ b ∈ l.head?, p b = false)
    (z : Nat) : (List.replicate z a ++ l).takeWhile p = List.replicate z a ∧
      (List.replicate z a ++ l).dropWhile p = l := by
  have hall : ∀ b ∈ List.replicate z a, p b = true := fun b hb => by
    rw [List.eq_of_mem_replicate hb]
    exact ha
  rw [List.takeWhile_append_of_pos hall, List.dropWhile_append_of_pos hall, takeWhile_eq_nil hl,
    dropWhile_eq_self hl, List.append_nil]
  exact ⟨rfl, rfl⟩

end Span

section Fits

-- the ints of the encoder
structure EncodeFits (vch : List UInt8) : Prop where
  zeroes : (vch.takeWhile (· == 0)).length < 2 ^ 31
  size : (vch.dropWhile (· == 0)).length * 138 / 100 + 1 < 2 ^ 31

-- the ints of the decoder
structure DecodeFits (psz : List Char) : Prop where
  zeroes : ((psz.dropWhile isspace).takeWhile (· == '1')).length < 2 ^ 31
  size : ((psz.dropWhile isspace).dropWhile (· == '1')).length * 733 / 1000 + 1 < 2 ^ 31

theorem countInt_eq {n : Nat} (h : n < 2 ^ 31) : countInt n = pure n := if_pos h

theorem allocate_eq {n : Nat} (h : n < 2 ^ 31) : allocate n = pure (List.replicate n 0) := by
  have hsize : toInt32 (n % 2 ^ 32) = n := by
    rw [toInt32, if_pos (by omega)]
    omega
  rw [allocate, hsize, if_neg (by omega)]
  rfl

theorem pow_le_base58 (n : Nat) : 256 ^ n ≤ 58 ^ (n * 138 / 100 + 1) :=
  pow_le_pow_of_estimate (by decide) (by decide) (by norm_num) n

-- A finer quotient with smaller terms lies between the logarithms' and the code's.
theorem pow_le_base256 (n : Nat) : 58 ^ n ≤ 256 ^ (n * 733 / 1000 + 1) := by
  have hestimate : 58 ^ n ≤ 256 ^ (n * 52 / 71 + 1) :=
    pow_le_pow_of_estimate (by decide) (by decide) (by norm_num) n
  have hle : n * 52 / 71 ≤ n * 733 / 1000 := by omega
  exact hestimate.trans (Nat.pow_le_pow_right (by decide) (Nat.succ_le_succ hle))

end Fits

section Encode

theorem toNat_lt_of_mem {bytes : List UInt8} : ∀ c ∈ bytes.map UInt8.toNat, c < 256 := by
  intro c hc
  obtain ⟨b, -, rfl⟩ := List.mem_map.mp hc
  exact b.toNat_lt

-- a buffer of zeros takes all the digits
theorem convert_replicate {radix base size : Nat} (hradix : 1 < radix) (hbase : 1 < base)
    {cs : List Nat} (hcs : ∀ c ∈ cs, c < base) (hsize : base ^ cs.length ≤ radix ^ size) :
    ∃ out used, convert radix base cs (List.replicate size 0, 0) = some (out, used) ∧
      trim out used = (Nat.digits radix (value base cs 0)).reverse := by
  have hfits : value base cs 0 < radix ^ (List.replicate size 0).length := by
    rw [List.length_replicate]
    exact (value_lt hbase hcs).trans_le hsize
  obtain ⟨out, used, heq, -, hrep⟩ := convert_spec (by omega) (by omega)
    (represents_replicate (by omega) size) hfits
  exact ⟨out, used, heq, hrep.trim_eq hradix⟩

-- the value of the bytes after the leading zeros
def byteValue (vch : List UInt8) : Nat :=
  value 256 ((vch.dropWhile (· == 0)).map UInt8.toNat) 0

theorem encodeBase58_eq {vch : List UInt8} (hfits : EncodeFits vch) :
    encodeBase58 vch = pure (List.replicate (vch.takeWhile (· == 0)).length '1' ++
      (Nat.digits 58 (byteValue vch)).reverse.map base58Char) := by
  have hsize := pow_le_base58 (vch.dropWhile (· == 0)).length
  rw [← List.length_map (f := UInt8.toNat)] at hsize
  obtain ⟨out, used, heq, htrim⟩ := convert_replicate (by decide) (by decide) toNat_lt_of_mem hsize
  rw [List.length_map] at heq
  simp only [encodeBase58, countInt_eq hfits.zeroes, allocate_eq hfits.size, pure_bind, heq, htrim]
  rfl

end Encode

section Decode

-- the digits up to a stop
theorem exists_digits {psz rest : List Char} {ds out : List Nat} {length used v : Nat}
    (h : Represents 256 ds length v)
    (hread : decodeDigits psz (ds, length) = pure (some (out, used, rest))) :
    ∃ cs, psz = cs.map base58Char ++ rest ∧ (∀ c ∈ cs, c < 58) ∧
      (∀ c ∈ rest.head?, isspace c = true) ∧ Represents 256 out used (value 58 cs v) := by
  induction psz generalizing ds length v with
  | nil =>
    cases hread
    exact ⟨[], rfl, by simp, by simp, h⟩
  | cons c psz ih =>
    rw [decodeDigits] at hread
    split at hread
    · rename_i hspace
      cases hread
      exact ⟨[], rfl, by simp, by simpa using hspace, h⟩
    · cases hidx : pszBase58.idxOf? c with
      | none =>
        rw [hidx] at hread
        cases hread
      | some d =>
        obtain ⟨hd, rfl⟩ := base58Char_of_idxOf hidx
        obtain ⟨ds', last, length', heq, -, hrep, -⟩ := h.mulAdd (by decide) 58 d
        simp only [hidx, heq] at hread
        split at hread
        · rename_i hlast
          obtain ⟨cs, rfl, hcs, hrest, hvalue⟩ := ih (hrep hlast) hread
          exact ⟨d :: cs, rfl, List.forall_mem_cons.mpr ⟨hd, hcs⟩, hrest, hvalue⟩
        · cases hread

-- Where there is room for the digits, the carry is used up at each.
theorem decodeDigits_total {psz : List Char} {ds : List Nat} {length v : Nat}
    (h : Represents 256 ds length v) (hroom : (v + 1) * 58 ^ psz.length ≤ 256 ^ ds.length) :
    ∃ r, decodeDigits psz (ds, length) = pure r := by
  induction psz generalizing ds length v with
  | nil => exact ⟨_, rfl⟩
  | cons c psz ih =>
    rw [decodeDigits]
    split
    · exact ⟨_, rfl⟩
    · cases hidx : pszBase58.idxOf? c with
      | none => exact ⟨none, rfl⟩
      | some d =>
        have hd := (base58Char_of_idxOf hidx).1
        have hnext : v * 58 + d + 1 ≤ (v + 1) * 58 := by omega
        have hroom' : (v * 58 + d + 1) * 58 ^ psz.length ≤ 256 ^ ds.length :=
          calc (v * 58 + d + 1) * 58 ^ psz.length ≤ (v + 1) * 58 * 58 ^ psz.length :=
              Nat.mul_le_mul_right _ hnext
            _ = (v + 1) * 58 ^ (psz.length + 1) := by
              rw [Nat.pow_succ, Nat.mul_assoc, Nat.mul_comm 58]
            _ ≤ 256 ^ ds.length := hroom
        have hfits : v * 58 + d < 256 ^ ds.length :=
          (Nat.le_mul_of_pos_right _ (Nat.pow_pos (by decide))).trans hroom'
        obtain ⟨ds', last, length', heq, hlength, hrep, hlast⟩ :=
          h.mulAdd (by decide) 58 d
        obtain rfl := hlast hfits
        rw [← hlength] at hroom'
        simp only [heq]
        exact ih (hrep rfl) hroom'

theorem decodeDigits_map {cs : List Nat} (hcs : ∀ c ∈ cs, c < 58) (ds : List Nat) (length : Nat) :
    decodeDigits (cs.map base58Char) (ds, length) =
      match convert 256 58 cs (ds, length) with
      | none => throw .assertion
      | some (out, used) => pure (some (out, used, [])) := by
  induction cs generalizing ds length with
  | nil => rfl
  | cons c cs ih =>
    rw [List.forall_mem_cons] at hcs
    have hspace := isspace_base58Char c hcs.1
    have hidx := idxOf_base58Char c hcs.1
    simp only [List.map_cons, decodeDigits, hspace, Bool.false_eq_true, if_false, hidx, convert]
    split
    · exact ih hcs.2 _ _
    · rfl

-- the digits after the leading ones
theorem decodeBase58Psz_eq {z : Nat} {cs : List Nat} (hz : z < 2 ^ 31)
    (hsize : cs.length * 733 / 1000 + 1 < 2 ^ 31) (hcs : ∀ c ∈ cs, c < 58)
    (hhead : ∀ c ∈ cs.head?, c ≠ 0) :
    decodeBase58Psz (List.replicate z '1' ++ cs.map base58Char) =
      pure (some (List.replicate z 0 ++
        (Nat.digits 256 (value 58 cs 0)).reverse.map UInt8.ofNat)) := by
  have hspace : (List.replicate z '1' ++ cs.map base58Char).dropWhile isspace =
      List.replicate z '1' ++ cs.map base58Char := by
    refine dropWhile_eq_self fun c hc => ?_
    rcases List.mem_append.mp (List.mem_of_mem_head? hc) with hc | hc
    · rw [List.eq_of_mem_replicate hc]
      rfl
    · obtain ⟨d, hd, rfl⟩ := List.mem_map.mp hc
      exact isspace_base58Char d (hcs d hd)
  have hone : ∀ c ∈ (cs.map base58Char).head?, (c == '1') = false := by
    intro c hc
    rw [List.head?_map] at hc
    obtain ⟨d, hd, rfl⟩ := Option.map_eq_some_iff.mp hc
    rw [beq_eq_false_iff_ne, ne_eq, base58Char_ne_one d (hcs d (List.mem_of_mem_head? hd))]
    exact hhead d hd
  obtain ⟨htake, hdrop⟩ := span_replicate (p := (· == '1')) (beq_self_eq_true '1') hone z
  obtain ⟨out, used, heq, htrim⟩ := @convert_replicate 256 58 _ (by decide) (by decide) cs hcs
    (pow_le_base256 cs.length)
  have hdigits := decodeDigits_map hcs (List.replicate (cs.length * 733 / 1000 + 1) 0) 0
  rw [heq] at hdigits
  simp only [decodeBase58Psz, hspace, htake, hdrop, List.length_replicate, List.length_map,
    countInt_eq hz, allocate_eq hsize, pure_bind, hdigits, htrim]
  rfl

theorem decodeBase58Psz_total {psz : List Char} (hfits : DecodeFits psz) :
    ∃ r, decodeBase58Psz psz = pure r := by
  generalize hsigns : (psz.dropWhile isspace).dropWhile (· == '1') = signs
  have hsize : signs.length * 733 / 1000 + 1 < 2 ^ 31 := hsigns ▸ hfits.size
  have hroom : (0 + 1) * 58 ^ signs.length ≤
      256 ^ (List.replicate (signs.length * 733 / 1000 + 1) 0).length := by
    rw [List.length_replicate, Nat.zero_add, Nat.one_mul]
    exact pow_le_base256 signs.length
  obtain ⟨r, hr⟩ := decodeDigits_total (represents_replicate (by decide) _) hroom
  simp only [decodeBase58Psz, countInt_eq hfits.zeroes, hsigns, allocate_eq hsize, pure_bind, hr]
  match r with
  | none => exact ⟨none, rfl⟩
  | some (out, used, rest) =>
    dsimp only
    split
    · exact ⟨none, rfl⟩
    · exact ⟨_, rfl⟩

theorem countInt_of_eq {n m : Nat} (h : countInt n = pure m) : m = n := by
  rw [countInt] at h
  split at h
  · cases h; rfl
  · cases h

theorem exists_allocate {n : Nat} {ds : List Nat} (h : allocate n = pure ds) :
    ∃ size, ds = List.replicate size 0 := by
  rw [allocate] at h
  split at h
  · cases h
  · cases h
    exact ⟨_, rfl⟩

theorem bind_eq_pure {α β : Type} {x : Except Base58Fault α} {f : α → Except Base58Fault β} {b : β}
    (h : (x >>= f) = pure b) : ∃ a, x = pure a ∧ f a = pure b := by
  cases x with
  | error e => cases h
  | ok a => exact ⟨a, rfl, h⟩

-- what is read of a string that is taken
theorem exists_of_decodeBase58Psz {psz : List Char} {vch : List UInt8}
    (hspace : ∀ c ∈ psz, isspace c = false) (hdecode : decodeBase58Psz psz = pure (some vch)) :
    ∃ z cs, psz = List.replicate z '1' ++ cs.map base58Char ∧ (∀ c ∈ cs, c < 58) ∧
      (∀ c ∈ cs.head?, c ≠ 0) ∧
      vch = List.replicate z 0 ++ (Nat.digits 256 (value 58 cs 0)).reverse.map UInt8.ofNat := by
  have hskip : psz.dropWhile isspace = psz :=
    dropWhile_eq_self fun c hc => hspace c (List.mem_of_mem_head? hc)
  have hsplit := List.takeWhile_append_dropWhile (p := (· == '1')) (l := psz)
  have hones : psz.takeWhile (· == '1') =
      List.replicate (psz.takeWhile (· == '1')).length '1' :=
    List.eq_replicate_of_mem fun c hc => by simpa using List.mem_takeWhile_imp hc
  have hhead := head?_dropWhile_eq_false (p := (· == '1')) psz
  rw [decodeBase58Psz, hskip] at hdecode
  obtain ⟨zeroes, hzeroes, hdecode⟩ := bind_eq_pure hdecode
  obtain ⟨b256, hb256, hdecode⟩ := bind_eq_pure hdecode
  obtain ⟨r, hr, hdecode⟩ := bind_eq_pure hdecode
  obtain rfl := countInt_of_eq hzeroes
  obtain ⟨size, rfl⟩ := exists_allocate hb256
  match r with
  | none => cases hdecode
  | some (out, used, rest) =>
    obtain ⟨cs, hcs, hlt, hrest, hrep⟩ := exists_digits (represents_replicate (by decide) size) hr
    dsimp only at hdecode
    split at hdecode
    · cases hdecode
    · have hnil : rest = [] := by
        cases rest with
        | nil => rfl
        | cons c rest =>
          have hmem : c ∈ psz := by
            rw [← hsplit, hcs]
            simp
          have hc := hrest c rfl
          rw [hspace c hmem] at hc
          cases hc
      subst hnil
      rw [List.append_nil] at hcs
      cases hdecode
      refine ⟨(psz.takeWhile (· == '1')).length, cs, ?_, hlt, ?_, ?_⟩
      · rw [← hcs, ← hones, hsplit]
      · intro c hc
        have hne := hhead (base58Char c) (by rw [hcs, List.head?_map, hc]; rfl)
        have hdigit := base58Char_ne_one c (hlt c (List.mem_of_mem_head? hc))
        rw [beq_eq_false_iff_ne, ne_eq, hdigit] at hne
        exact hne
      · rw [hrep.trim_eq (by decide)]

end Decode

section RoundTrip

theorem value_digits {base : Nat} (v : Nat) : value base (Nat.digits base v).reverse 0 = v := by
  rw [value_eq, Nat.zero_mul, Nat.zero_add, List.reverse_reverse, Nat.ofDigits_digits]

theorem digits_lt {base v : Nat} (hbase : 1 < base) : ∀ c ∈ (Nat.digits base v).reverse, c < base :=
  fun _ hc => Nat.digits_lt_base hbase (List.mem_reverse.mp hc)

theorem digits_byteValue (vch : List UInt8) :
    (Nat.digits 256 (byteValue vch)).reverse.map UInt8.ofNat = vch.dropWhile (· == 0) := by
  have hhead : ∀ c ∈ ((vch.dropWhile (· == 0)).map UInt8.toNat).head?, c ≠ 0 := by
    intro _ hc
    rw [List.head?_map] at hc
    obtain ⟨b, hb, rfl⟩ := Option.map_eq_some_iff.mp hc
    have hnot := head?_dropWhile_eq_false (p := (· == 0)) vch b hb
    exact fun hzero => beq_eq_false_iff_ne.mp hnot (UInt8.toNat_inj.mp hzero)
  rw [byteValue, digits_value (by decide) toNat_lt_of_mem hhead, List.map_map]
  simp [Function.comp_def]

-- Encoding shortens nothing that the decoder counts.
theorem decodeFits_encode {vch : List UInt8} (hfits : EncodeFits vch) :
    (Nat.digits 58 (byteValue vch)).reverse.length * 733 / 1000 + 1 < 2 ^ 31 := by
  have hsize := hfits.size
  have hlt : byteValue vch < 58 ^ ((vch.dropWhile (· == 0)).length * 138 / 100 + 1) := by
    refine (value_lt (by decide) toNat_lt_of_mem).trans_le ?_
    rw [List.length_map]
    exact pow_le_base58 _
  have hlength := (Nat.digits_length_le_iff (by decide) (byteValue vch)).mpr hlt
  rw [List.length_reverse]
  omega

theorem decode_encode {vch : List UInt8} (hfits : EncodeFits vch) :
    ∃ str, encodeBase58 vch = pure str ∧ decodeBase58 str = pure (some vch) := by
  refine ⟨_, encodeBase58_eq hfits, ?_⟩
  have hlt := digits_lt (v := byteValue vch) (show 1 < 58 by decide)
  have hnull : ∀ c ∈ List.replicate (vch.takeWhile (· == 0)).length '1' ++
      (Nat.digits 58 (byteValue vch)).reverse.map base58Char, decide (c ≠ '\x00') = true := by
    intro c hc
    rw [decide_eq_true_iff]
    rcases List.mem_append.mp hc with hc | hc
    · rw [List.eq_of_mem_replicate hc]
      decide
    · obtain ⟨d, hd, rfl⟩ := List.mem_map.mp hc
      exact base58Char_ne_null d (hlt d hd)
  have hzeroes : vch.takeWhile (· == 0) =
      List.replicate (vch.takeWhile (· == 0)).length 0 :=
    List.eq_replicate_of_mem fun c hc => by simpa using List.mem_takeWhile_imp hc
  rw [decodeBase58, List.takeWhile_eq_self_iff.mpr hnull,
    decodeBase58Psz_eq hfits.zeroes (decodeFits_encode hfits) hlt head?_digits_ne_zero,
    value_digits, digits_byteValue, ← hzeroes, List.takeWhile_append_dropWhile]

theorem byteValue_digits (z v : Nat) :
    ((List.replicate z 0 ++ (Nat.digits 256 v).reverse.map UInt8.ofNat).takeWhile
        (· == 0)).length = z ∧
      byteValue (List.replicate z 0 ++ (Nat.digits 256 v).reverse.map UInt8.ofNat) = v := by
  have hlt := digits_lt (v := v) (show 1 < 256 by decide)
  have htoNat : ∀ d ∈ (Nat.digits 256 v).reverse, (UInt8.ofNat d).toNat = d := fun d hd =>
    UInt8.toNat_ofNat_of_lt' (hlt d hd)
  have hhead : ∀ b ∈ ((Nat.digits 256 v).reverse.map UInt8.ofNat).head?, (b == 0) = false := by
    intro b hb
    rw [List.head?_map] at hb
    obtain ⟨d, hd, rfl⟩ := Option.map_eq_some_iff.mp hb
    have hvalue := htoNat d (List.mem_of_mem_head? hd)
    refine beq_eq_false_iff_ne.mpr fun hzero => head?_digits_ne_zero d hd ?_
    rw [← hvalue, hzero]
    rfl
  obtain ⟨htake, hdrop⟩ := span_replicate (p := (· == 0)) (a := (0 : UInt8)) rfl hhead z
  have hmap : (Nat.digits 256 v).reverse.map (UInt8.toNat ∘ UInt8.ofNat) =
      (Nat.digits 256 v).reverse := (List.map_congr_left htoNat).trans (List.map_id' _)
  rw [htake, List.length_replicate, byteValue, hdrop, List.map_map, hmap, value_digits]
  exact ⟨rfl, rfl⟩

theorem encode_decode {str : List Char} {vch : List UInt8}
    (hplain : ∀ c ∈ str, isspace c = false ∧ c ≠ '\x00')
    (hdecode : decodeBase58 str = pure (some vch)) (hfits : EncodeFits vch) :
    encodeBase58 vch = pure str := by
  have hnull : ∀ c ∈ str, decide (c ≠ '\x00') = true :=
    fun c hc => decide_eq_true (hplain c hc).2
  rw [decodeBase58, List.takeWhile_eq_self_iff.mpr hnull] at hdecode
  obtain ⟨z, cs, rfl, hcs, hhead, rfl⟩ :=
    exists_of_decodeBase58Psz (fun c hc => (hplain c hc).1) hdecode
  obtain ⟨hz, hvalue⟩ := byteValue_digits z (value 58 cs 0)
  rw [encodeBase58_eq hfits, hz, hvalue, digits_value (by decide) hcs hhead]

end RoundTrip

section Claim

theorem base58_bijection :
    (∀ vch, EncodeFits vch →
      ∃ str, encodeBase58 vch = pure str ∧ decodeBase58 str = pure (some vch)) ∧
    (∀ str, DecodeFits (str.takeWhile (· ≠ '\x00')) → ∃ r, decodeBase58 str = pure r) ∧
    (∀ str vch, (∀ c ∈ str, isspace c = false ∧ c ≠ '\x00') →
      decodeBase58 str = pure (some vch) → EncodeFits vch → encodeBase58 vch = pure str) :=
  ⟨fun _ => decode_encode, fun _ => decodeBase58Psz_total,
    fun _ _ => encode_decode⟩

theorem base58_bijection_leading_zeros :
    (∃ str, encodeBase58 [0, 0, 1, 255] = pure str ∧
      decodeBase58 str = pure (some [0, 0, 1, 255])) ∧
    (∃ r, decodeBase58 [' ', '1', 'z', '0'] = pure r) ∧
    encodeBase58 [0, 57] = pure ['1', 'z'] :=
  ⟨base58_bijection.1 _ ⟨by decide, by decide⟩, base58_bijection.2.1 _ ⟨by decide, by decide⟩,
    base58_bijection.2.2 ['1', 'z'] _ (List.all_iff_forall_prop.mp (by decide)) (by decide)
      ⟨by decide, by decide⟩⟩

-- a size estimate past an int
theorem encodeBase58_oversized {n : Nat} (hn : n = 1556147571) :
    encodeBase58 (List.replicate n 1) = throw .lengthError := by
  have hhead : ∀ b ∈ (List.replicate n (1 : UInt8)).head?, (b == 0) = false := by
    intro b hb
    rw [List.eq_of_mem_replicate (List.mem_of_mem_head? hb)]
    rfl
  have hallocate : allocate (n * 138 / 100 + 1) = throw .lengthError := by
    subst hn
    decide
  simp only [encodeBase58, takeWhile_eq_nil hhead, dropWhile_eq_self hhead, List.length_replicate,
    hallocate]
  rfl

theorem base58_bijection_limits :
    encodeBase58 (List.replicate 1556147571 1) = throw .lengthError ∧
    decodeBase58 ['1', '\x00', '1'] = pure (some [0]) ∧ encodeBase58 [0] = pure ['1'] ∧
    ∀ c ∈ ['1', '\x00', '1'], isspace c = false :=
  ⟨encodeBase58_oversized rfl, by decide, by decide, List.all_iff_forall_prop.mp (by decide)⟩

end Claim

end AnkerNode
