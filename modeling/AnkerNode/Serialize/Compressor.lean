import AnkerNode.Lib.ByteStream
import AnkerNode.Script.Opcodes

namespace AnkerNode

open ByteStream

def MAX_SIZE : Nat := 0x02000000

structure PubKeyOps where
  isFullyValid : List UInt8 → Bool
  decompress : List UInt8 → Option (List UInt8)
  decompress_of_isFullyValid : ∀ (x y : List UInt8), x.length = 32 → y.length = 32 →
    isFullyValid ([0x04] ++ x ++ y) = true →
    decompress ((0x02 + (y.getLastD 0 &&& 0x01)) :: x) = some ([0x04] ++ x ++ y)

theorem decompress_of_never (x y : List UInt8) (_ : x.length = 32) (_ : y.length = 32)
    (h : false = true) : (none : Option (List UInt8)) = some ([0x04] ++ x ++ y) := by
  cases h

namespace CScriptCompressor

def nSpecialScripts : Nat := 6

def isToKeyID (script : CScript) : Option (List UInt8) :=
  if script.length = 25 ∧ script.take 3 = [OP_DUP, OP_HASH160, 20] ∧
      script.drop 23 = [OP_EQUALVERIFY, OP_CHECKSIG] then
    some ((script.drop 3).take 20)
  else none

def isToScriptID (script : CScript) : Option (List UInt8) :=
  if script.length = 23 ∧ script.take 2 = [OP_HASH160, 20] ∧ script.drop 22 = [OP_EQUAL] then
    some ((script.drop 2).take 20)
  else none

def isToPubKey (ops : PubKeyOps) (script : CScript) : Option (List UInt8) :=
  if script.length = 35 ∧ script.drop 34 = [OP_CHECKSIG] ∧
      (script.take 2 = [33, 0x02] ∨ script.take 2 = [33, 0x03]) then
    some ((script.drop 1).take 33)
  else if script.length = 67 ∧ script.drop 66 = [OP_CHECKSIG] ∧ script.take 2 = [65, 0x04] ∧
      ops.isFullyValid ((script.drop 1).take 65) then
    some ((script.drop 1).take 65)
  else none

def compressPubKey (pubkey : List UInt8) : Option (List UInt8) :=
  if pubkey.headD 0 = 0x02 ∨ pubkey.headD 0 = 0x03 then some (pubkey.headD 0 :: pubkey.tail.take 32)
  else if pubkey.headD 0 = 0x04 then
    some ((0x04 ||| (pubkey.getD 64 0 &&& 0x01)) :: pubkey.tail.take 32)
  else none

def compress (ops : PubKeyOps) (script : CScript) : Option (List UInt8) :=
  match isToKeyID script with
  | some keyID => some (0x00 :: keyID)
  | none =>
    match isToScriptID script with
    | some scriptID => some (0x01 :: scriptID)
    | none => (isToPubKey ops script).bind compressPubKey

def getSpecialSize (nSize : Nat) : Nat :=
  if nSize = 0 ∨ nSize = 1 then 20
  else if nSize = 2 ∨ nSize = 3 ∨ nSize = 4 ∨ nSize = 5 then 32
  else 0

def decompress (ops : PubKeyOps) (nSize : Nat) (vch : List UInt8) : Option CScript :=
  match nSize with
  | 0 => some ([OP_DUP, OP_HASH160, 20] ++ vch ++ [OP_EQUALVERIFY, OP_CHECKSIG])
  | 1 => some ([OP_HASH160, 20] ++ vch ++ [OP_EQUAL])
  | 2 => some ([33, 0x02] ++ vch ++ [OP_CHECKSIG])
  | 3 => some ([33, 0x03] ++ vch ++ [OP_CHECKSIG])
  | 4 => (ops.decompress (0x02 :: vch)).map (fun pubkey => [65] ++ pubkey ++ [OP_CHECKSIG])
  | 5 => (ops.decompress (0x03 :: vch)).map (fun pubkey => [65] ++ pubkey ++ [OP_CHECKSIG])
  | _ => none

def serialize (ops : PubKeyOps) (script : CScript) : List UInt8 :=
  match compress ops script with
  | some compr => compr
  | none => writeVarInt 32 ((script.length + nSpecialScripts) % 2 ^ 32) ++ script

def unserialize (ops : PubKeyOps) (script : CScript) : Reader CScript := do
  let nSize ← readVarInt 32
  if nSize < nSpecialScripts then
    let vch ← readBytes (getSpecialSize nSize)
    pure ((decompress ops nSize vch).getD script)
  else readBytes (nSize - nSpecialScripts)

theorem isToKeyID_eq_some {script : CScript} {keyID : List UInt8}
    (h : isToKeyID script = some keyID) :
    keyID.length = 20 ∧
      script = [OP_DUP, OP_HASH160, 20] ++ keyID ++ [OP_EQUALVERIFY, OP_CHECKSIG] := by
  simp only [isToKeyID] at h
  split at h
  · rename_i hs
    obtain ⟨hlen, htake, hdrop⟩ := hs
    simp only [Option.some.injEq] at h
    subst h
    refine ⟨by simp [hlen], ?_⟩
    have hsplit := List.take_append_drop 20 (script.drop 3)
    rw [List.drop_drop, show 3 + 20 = 23 from rfl, hdrop] at hsplit
    rw [← htake, List.append_assoc, hsplit, List.take_append_drop]
  · simp at h

theorem isToScriptID_eq_some {script : CScript} {scriptID : List UInt8}
    (h : isToScriptID script = some scriptID) :
    scriptID.length = 20 ∧ script = [OP_HASH160, 20] ++ scriptID ++ [OP_EQUAL] := by
  simp only [isToScriptID] at h
  split at h
  · rename_i hs
    obtain ⟨hlen, htake, hdrop⟩ := hs
    simp only [Option.some.injEq] at h
    subst h
    refine ⟨by simp [hlen], ?_⟩
    have hsplit := List.take_append_drop 20 (script.drop 2)
    rw [List.drop_drop, show 2 + 20 = 22 from rfl, hdrop] at hsplit
    rw [← htake, List.append_assoc, hsplit, List.take_append_drop]
  · simp at h

theorem eq_of_take_two {script : CScript} {n : Nat} {a b c : UInt8} (hlen : script.length = n + 3)
    (htake : script.take 2 = [a, b]) (hdrop : script.drop (n + 2) = [c]) :
    ∃ x, x.length = n ∧ script = [a, b] ++ x ++ [c] := by
  refine ⟨(script.drop 2).take n, by simp [hlen], ?_⟩
  have hsplit := List.take_append_drop n (script.drop 2)
  rw [List.drop_drop, Nat.add_comm 2 n, hdrop] at hsplit
  rw [← htake, List.append_assoc, hsplit, List.take_append_drop]

theorem isToPubKey_eq_some {ops : PubKeyOps} {script : CScript} {pubkey : List UInt8}
    (h : isToPubKey ops script = some pubkey) :
    (∃ header x, (header = 0x02 ∨ header = 0x03) ∧ x.length = 32 ∧ pubkey = header :: x ∧
      script = [33, header] ++ x ++ [OP_CHECKSIG]) ∨
    (∃ x y, x.length = 32 ∧ y.length = 32 ∧ pubkey = [0x04] ++ x ++ y ∧
      ops.isFullyValid pubkey = true ∧ script = [65, 0x04] ++ (x ++ y) ++ [OP_CHECKSIG]) := by
  simp only [isToPubKey] at h
  split at h
  · rename_i hs
    obtain ⟨hlen, hdrop, htake⟩ := hs
    left
    simp only [Option.some.injEq] at h
    rcases htake with htake | htake
    · obtain ⟨x, hx, rfl⟩ := eq_of_take_two (n := 32) hlen htake hdrop
      refine ⟨0x02, x, Or.inl rfl, hx, ?_, rfl⟩
      rw [← h]
      simp [hx]
    · obtain ⟨x, hx, rfl⟩ := eq_of_take_two (n := 32) hlen htake hdrop
      refine ⟨0x03, x, Or.inr rfl, hx, ?_, rfl⟩
      rw [← h]
      simp [hx]
  · split at h
    · rename_i hs
      obtain ⟨hlen, hdrop, htake, hvalid⟩ := hs
      right
      simp only [Option.some.injEq] at h
      obtain ⟨xy, hxy, rfl⟩ := eq_of_take_two (n := 64) hlen htake hdrop
      refine ⟨xy.take 32, xy.drop 32, by simp [hxy], by simp [hxy], ?_, by rw [← h]; exact hvalid,
        by rw [List.take_append_drop]⟩
      rw [← h]
      simp [hxy]
    · simp at h

theorem parses_special {ops : PubKeyOps} {s script : CScript} {code : UInt8} {vch : List UInt8}
    (hcode : code.toNat < 6) (hvch : vch.length = getSpecialSize code.toNat)
    (hd : decompress ops code.toNat vch = some script) :
    Parses (unserialize ops s) (code :: vch) script := by
  have hbyte : writeVarInt 32 code.toNat = [code] := by
    have hle : code.toNat ≤ 0x7f := by omega
    have hmod : code.toNat % 128 = code.toNat := by omega
    simp [writeVarInt, writeVarIntLoop, hle, hmod]
  have hsize : Parses (readVarInt 32) [code] code.toNat := by
    rw [← hbyte]
    exact parses_readVarInt (by omega) (by omega)
  have hbody : Parses (do
      let vch ← readBytes (getSpecialSize code.toNat)
      pure ((decompress ops code.toNat vch).getD s)) vch script := by
    have hb := parses_readBytes vch
    rw [hvch] at hb
    have hm := parses_map (fun v => (decompress ops code.toNat v).getD s) hb
    simpa [hd] using hm
  have hrest : Parses (if code.toNat < nSpecialScripts then do
      let vch ← readBytes (getSpecialSize code.toNat)
      pure ((decompress ops code.toNat vch).getD s)
      else readBytes (code.toNat - nSpecialScripts)) vch script := by
    rw [if_pos (show code.toNat < nSpecialScripts from hcode)]
    exact hbody
  exact parses_bind hsize hrest

theorem parity_cases (b : UInt8) : b &&& 0x01 = 0 ∨ b &&& 0x01 = 1 := by
  have hb : (b &&& 0x01).toNat = b.toNat % 2 := by
    rw [UInt8.toNat_and]
    exact Nat.and_one_is_mod b.toNat
  rcases Nat.mod_two_eq_zero_or_one b.toNat with h | h
  · exact Or.inl (UInt8.toNat_inj.mp (hb.trans h))
  · exact Or.inr (UInt8.toNat_inj.mp (hb.trans h))

theorem parses_compressed {ops : PubKeyOps} {s script : CScript} {compr : List UInt8}
    (h : compress ops script = some compr) : Parses (unserialize ops s) compr script := by
  simp only [compress] at h
  split at h
  · rename_i keyID hkey
    obtain ⟨hlen, hscript⟩ := isToKeyID_eq_some hkey
    simp only [Option.some.injEq] at h
    subst h
    exact parses_special (by decide) (by simpa [getSpecialSize] using hlen) (by rw [hscript]; rfl)
  · split at h
    · rename_i scriptID hid
      obtain ⟨hlen, hscript⟩ := isToScriptID_eq_some hid
      simp only [Option.some.injEq] at h
      subst h
      exact parses_special (by decide) (by simpa [getSpecialSize] using hlen) (by rw [hscript]; rfl)
    · simp only [Option.bind_eq_some_iff] at h
      obtain ⟨pubkey, hpub, hcompr⟩ := h
      rcases isToPubKey_eq_some hpub with
        ⟨header, x, hheader, hx, rfl, rfl⟩ | ⟨x, y, hx, hy, rfl, hvalid, rfl⟩
      · have hc : compr = header :: x := by
          have htake : x.take 32 = x := List.take_of_length_le (by omega)
          rcases hheader with rfl | rfl <;> simpa [compressPubKey, htake] using hcompr.symm
        subst hc
        rcases hheader with rfl | rfl
        · exact parses_special (by decide) (by simpa [getSpecialSize] using hx) rfl
        · exact parses_special (by decide) (by simpa [getSpecialSize] using hx) rfl
      · have hlast : ([(0x04 : UInt8)] ++ x ++ y).getD 64 0 = y.getLastD 0 := by
          have hy0 : y ≠ [] := by
            intro h0
            simp [h0] at hy
          rw [List.getLastD_eq_getLast?, List.getLast?_eq_getElem?, hy, List.getD_eq_getElem?_getD]
          rw [List.getElem?_append_right (by simp [hx])]
          simp [hx]
        have hc : compr = (0x04 ||| (y.getLastD 0 &&& 0x01)) :: x := by
          simp only [compressPubKey, hlast] at hcompr
          simpa [hx] using hcompr.symm
        subst hc
        have hdec := ops.decompress_of_isFullyValid x y hx hy hvalid
        rcases parity_cases (y.getLastD 0) with hp | hp
        · rw [hp] at hdec ⊢
          refine parses_special (by decide) (by simpa [getSpecialSize] using hx) ?_
          change (ops.decompress (0x02 :: x)).map _ = _
          rw [show (0x02 : UInt8) + 0 = 0x02 from rfl] at hdec
          simp [hdec]
        · rw [hp] at hdec ⊢
          refine parses_special (by decide) (by simpa [getSpecialSize] using hx) ?_
          change (ops.decompress (0x03 :: x)).map _ = _
          rw [show (0x02 : UInt8) + 1 = 0x03 from rfl] at hdec
          simp [hdec]

theorem parses_unserialize_of_fits {ops : PubKeyOps} {s script : CScript}
    (hlen : script.length + nSpecialScripts < 2 ^ 32) :
    Parses (unserialize ops s) (serialize ops script) script := by
  simp only [serialize]
  split
  · rename_i compr hcompr
    exact parses_compressed hcompr
  · rw [Nat.mod_eq_of_lt hlen]
    refine parses_bind (parses_readVarInt (by omega) hlen) ?_
    rw [if_neg (by simp), Nat.add_sub_cancel]
    exact parses_readBytes script

end CScriptCompressor

namespace CTxOutCompressor

def stripZeros : Nat → Nat → Nat → Nat × Nat
  | 0, n, e => (n, e)
  | fuel + 1, n, e => if n % 10 = 0 then stripZeros fuel (n / 10) (e + 1) else (n, e)

def compressAmount (n : Nat) : Nat :=
  if n = 0 then 0
  else
    let (n, e) := stripZeros 9 n 0
    if e < 9 then (1 + (n / 10 * 9 + n % 10 - 1) * 10 + e) % 2 ^ 64
    else (1 + (n - 1) * 10 + 9) % 2 ^ 64

def decompressAmount (x : Nat) : Nat :=
  if x = 0 then 0
  else
    let x := x - 1
    let e := x % 10
    let x := x / 10
    let n := if e < 9 then x / 9 * 10 + x % 9 + 1 else x + 1
    n * 10 ^ e % 2 ^ 64

theorem stripZeros_spec (fuel n e : Nat) :
    (stripZeros fuel n e).1 * 10 ^ (stripZeros fuel n e).2 = n * 10 ^ e ∧
      (stripZeros fuel n e).2 ≤ e + fuel ∧
      ((stripZeros fuel n e).2 < e + fuel → (stripZeros fuel n e).1 % 10 ≠ 0) ∧
      (0 < n → 0 < (stripZeros fuel n e).1) := by
  induction fuel generalizing n e with
  | zero => simp [stripZeros]
  | succ fuel ih =>
    rw [stripZeros]
    split
    · rename_i hn
      obtain ⟨hval, hle, hlast, hpos⟩ := ih (n / 10) (e + 1)
      refine ⟨?_, by omega, fun h => hlast (by omega), fun h => hpos (by omega)⟩
      rw [hval, Nat.pow_succ]
      have hn10 : n / 10 * 10 = n := by omega
      calc n / 10 * (10 ^ e * 10) = n / 10 * 10 * 10 ^ e := by ring
        _ = n * 10 ^ e := by rw [hn10]
    · rename_i hn
      exact ⟨rfl, by omega, fun _ => hn, fun h => h⟩

-- the compressed amount over unbounded numbers
def compressedAmount (n : Nat) : Nat :=
  if n = 0 then 0
  else
    let (n, e) := stripZeros 9 n 0
    if e < 9 then 1 + (n / 10 * 9 + n % 10 - 1) * 10 + e else 1 + (n - 1) * 10 + 9

theorem compressAmount_eq (n : Nat) : compressAmount n = compressedAmount n % 2 ^ 64 := by
  simp only [compressAmount, compressedAmount]
  split
  · rfl
  · split
    · rfl
    · rfl

theorem decompressAmount_of_fits {n : Nat} (hn : n < 2 ^ 64) (hfits : compressedAmount n < 2 ^ 64) :
    decompressAmount (compressAmount n) = n := by
  rw [compressAmount_eq, Nat.mod_eq_of_lt hfits]
  by_cases h0 : n = 0
  · subst h0
    rfl
  obtain ⟨hval, hle, hlast, hpos⟩ := stripZeros_spec 9 n 0
  simp only [compressedAmount, h0, if_false]
  generalize (stripZeros 9 n 0).1 = m at *
  generalize (stripZeros 9 n 0).2 = e at *
  have hm : 0 < m := hpos (by omega)
  have hmn : m * 10 ^ e = n := by simpa using hval
  by_cases he : e < 9
  · have hd := hlast (by omega)
    simp only [he, if_true, decompressAmount]
    rw [if_neg (by omega)]
    have hmod : (1 + (m / 10 * 9 + m % 10 - 1) * 10 + e - 1) % 10 = e := by omega
    have hdiv : (1 + (m / 10 * 9 + m % 10 - 1) * 10 + e - 1) / 10 = m / 10 * 9 + m % 10 - 1 := by
      omega
    have hback : (m / 10 * 9 + m % 10 - 1) / 9 * 10 + (m / 10 * 9 + m % 10 - 1) % 9 + 1 = m := by
      omega
    rw [hmod, hdiv, if_pos he, hback, hmn]
    exact Nat.mod_eq_of_lt hn
  · have he9 : e = 9 := by omega
    subst he9
    simp only [he, if_false, decompressAmount]
    rw [if_neg (by omega)]
    have hmod : (1 + (m - 1) * 10 + 9 - 1) % 10 = 9 := by omega
    have hdiv : (1 + (m - 1) * 10 + 9 - 1) / 10 + 1 = m := by omega
    rw [hmod, if_neg (by omega), hdiv, hmn]
    exact Nat.mod_eq_of_lt hn

theorem compressedAmount_lt {n : Nat} (hn : n < 2 ^ 60) : compressedAmount n < 2 ^ 64 := by
  obtain ⟨hval, hle, -, -⟩ := stripZeros_spec 9 n 0
  simp only [compressedAmount]
  generalize (stripZeros 9 n 0).1 = m at *
  generalize (stripZeros 9 n 0).2 = e at *
  have hmle : m ≤ n := by
    rw [Nat.pow_zero, Nat.mul_one] at hval
    rw [← hval]
    exact Nat.le_mul_of_pos_right m (Nat.pow_pos (by omega))
  split
  · omega
  · split
    · omega
    · omega

def toInt64 (n : Nat) : Int := if n < 2 ^ 63 then n else (n : Int) - 2 ^ 64

def serialize (ops : PubKeyOps) (txout : CTxOut) : List UInt8 :=
  writeVarInt 64 (compressAmount (txout.nValue % 2 ^ 64).toNat) ++
    CScriptCompressor.serialize ops txout.scriptPubKey

def unserialize (ops : PubKeyOps) (txout : CTxOut) : Reader CTxOut := do
  let nVal ← readVarInt 64
  let script ← CScriptCompressor.unserialize ops txout.scriptPubKey
  pure ⟨toInt64 (decompressAmount nVal), script⟩

theorem compressAmount_lt (n : Nat) : compressAmount n < 2 ^ 64 := by
  simp only [compressAmount]
  split
  · omega
  · split
    · exact Nat.mod_lt _ (by omega)
    · exact Nat.mod_lt _ (by omega)

theorem parses_unserialize_of_fits (ops : PubKeyOps) (t : CTxOut) {txout : CTxOut}
    (hlo : 0 ≤ txout.nValue) (hhi : txout.nValue < 2 ^ 63)
    (hfits : compressedAmount txout.nValue.toNat < 2 ^ 64)
    (hlen : txout.scriptPubKey.length + CScriptCompressor.nSpecialScripts < 2 ^ 32) :
    Parses (unserialize ops t) (serialize ops txout) txout := by
  have hmod : (txout.nValue % 2 ^ 64).toNat = txout.nValue.toNat := by
    rw [Int.emod_eq_of_lt hlo (by omega)]
  have hval : toInt64 (decompressAmount (compressAmount (txout.nValue % 2 ^ 64).toNat)) =
      txout.nValue := by
    rw [hmod, decompressAmount_of_fits (by omega) hfits, toInt64, if_pos (by omega)]
    omega
  refine parses_bind (parses_readVarInt (by omega) (compressAmount_lt _)) ?_
  rw [hval]
  exact parses_map (fun script => CTxOut.mk txout.nValue script)
    (CScriptCompressor.parses_unserialize_of_fits hlen)

theorem parses_unserialize (ops : PubKeyOps) (t : CTxOut) {txout : CTxOut} (hlo : 0 ≤ txout.nValue)
    (hhi : txout.nValue < 2 ^ 60) (hlen : txout.scriptPubKey.length < 2 ^ 31) :
    Parses (unserialize ops t) (serialize ops txout) txout :=
  parses_unserialize_of_fits ops t hlo (by omega) (compressedAmount_lt (by omega))
    (by simp only [CScriptCompressor.nSpecialScripts]; omega)

end CTxOutCompressor

end AnkerNode
