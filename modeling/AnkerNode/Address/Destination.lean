import AnkerNode.Address.Base58
import AnkerNode.Address.Bech32
import AnkerNode.Address.ConvertBits
import AnkerNode.Primitives.Transaction
import AnkerNode.Script.Standard

namespace AnkerNode

open ByteStream RadixBuffer

inductive Base58Type
  | PUBKEY_ADDRESS
  | SCRIPT_ADDRESS
deriving DecidableEq, Repr

namespace NetworkID

-- Regtest has the prefixes of testnet, the unit tests have those of main.
def base58Prefix : NetworkID → Base58Type → List UInt8
  | .MAIN, .PUBKEY_ADDRESS | .UNITTEST, .PUBKEY_ADDRESS => [23]
  | .MAIN, .SCRIPT_ADDRESS | .UNITTEST, .SCRIPT_ADDRESS => [13]
  | .TESTNET, .PUBKEY_ADDRESS | .REGTEST, .PUBKEY_ADDRESS => [139]
  | .TESTNET, .SCRIPT_ADDRESS | .REGTEST, .SCRIPT_ADDRESS => [19]

def bech32HRP : NetworkID → List Char
  | .MAIN | .UNITTEST => "ph".toList
  | .TESTNET => "tp".toList
  | .REGTEST => "ankt".toList

end NetworkID

section Codec

variable (hash : List UInt8 → UInt256)

-- the first four bytes of the hash
def hashCheck (vch : List UInt8) : List UInt8 := (writeLE 32 (hash vch).toNat).take 4

def encodeBase58Check (vchIn : List UInt8) : Except Base58Fault (List Char) :=
  encodeBase58 (vchIn ++ hashCheck hash vchIn)

def decodeBase58Check (psz : List Char) : Except Base58Fault (Option (List UInt8)) := do
  match ← decodeBase58 psz with
  | none => pure none
  | some vchRet =>
    if vchRet.length < 4 then pure none
    else
      let vch := vchRet.take (vchRet.length - 4)
      if hashCheck hash vch ≠ vchRet.drop (vchRet.length - 4) then pure none
      else pure (some vch)

variable (params : NetworkID)

def encodeDestination : CTxDestination → Except Base58Fault (List Char)
  | .CKeyID id => encodeBase58Check hash (params.base58Prefix .PUBKEY_ADDRESS ++ id)
  | .CScriptID id => encodeBase58Check hash (params.base58Prefix .SCRIPT_ADDRESS ++ id)
  | .WitnessV0KeyHash id => pure (Bech32.encode params.bech32HRP (convertBits 8 5 true [0] id).1)
  | .WitnessV0ScriptHash id =>
    pure (Bech32.encode params.bech32HRP (convertBits 8 5 true [0] id).1)
  | .WitnessUnknown version program =>
    if version < 1 ∨ 16 < version ∨ program.length < 2 ∨ 40 < program.length then pure []
    else
      pure (Bech32.encode params.bech32HRP
        (convertBits 8 5 true [UInt8.ofNat version] program).1)
  | .CNoDestination => pure []

def hasPrefix (type : Base58Type) (data : List UInt8) : Bool :=
  data.length == 20 + (params.base58Prefix type).length &&
    data.take (params.base58Prefix type).length == params.base58Prefix type

def base58Destination (data : List UInt8) : Option CTxDestination :=
  if hasPrefix params .PUBKEY_ADDRESS data then
    some (.CKeyID (data.drop (params.base58Prefix .PUBKEY_ADDRESS).length))
  else if hasPrefix params .SCRIPT_ADDRESS data then
    some (.CScriptID (data.drop (params.base58Prefix .SCRIPT_ADDRESS).length))
  else none

def programDestination (version : Nat) (data : List UInt8) : CTxDestination :=
  if version = 0 then
    if data.length = 20 then .WitnessV0KeyHash data
    else if data.length = 32 then .WitnessV0ScriptHash data
    else .CNoDestination
  else if 16 < version ∨ data.length < 2 ∨ 40 < data.length then .CNoDestination
  else .WitnessUnknown version data

def bech32Destination (str : List Char) : CTxDestination :=
  match Bech32.decode str with
  | (_, []) => .CNoDestination
  | (hrp, version :: values) =>
    if hrp = params.bech32HRP then
      match convertBits 5 8 false [] values with
      | (data, true) => programDestination version.toNat data
      | (_, false) => .CNoDestination
    else .CNoDestination

def decodeDestination (str : List Char) : Except Base58Fault CTxDestination := do
  let data ← decodeBase58Check hash str
  match data.bind (base58Destination params) with
  | some dest => pure dest
  | none => pure (bech32Destination params str)

end Codec

section Base58

variable {hash : List UInt8 → UInt256} {params : NetworkID}

theorem length_hashCheck (vch : List UInt8) : (hashCheck hash vch).length = 4 := by
  rw [hashCheck, List.length_take, length_writeLE]
  rfl

theorem encodeFits_short {vch : List UInt8} (h : vch.length < 2 ^ 20) : EncodeFits vch := by
  have hzeroes := (List.takeWhile_sublist (· == 0) (l := vch)).length_le
  have hrest := (List.dropWhile_sublist (· == 0) (l := vch)).length_le
  exact ⟨by omega, by omega⟩

theorem decodeFits_short {psz : List Char} (h : psz.length < 2 ^ 20) : DecodeFits psz := by
  have hspace := (List.dropWhile_sublist isspace (l := psz)).length_le
  have hzeroes := (List.takeWhile_sublist (· == '1') (l := psz.dropWhile isspace)).length_le
  have hrest := (List.dropWhile_sublist (· == '1') (l := psz.dropWhile isspace)).length_le
  exact ⟨by omega, by omega⟩

theorem decodeBase58Check_encode {vch : List UInt8} (h : vch.length < 2 ^ 10) :
    ∃ str, encodeBase58Check hash vch = pure str ∧
      decodeBase58Check hash str = pure (some vch) := by
  have hlength : (vch ++ hashCheck hash vch).length = vch.length + 4 := by
    rw [List.length_append, length_hashCheck]
  obtain ⟨str, hencode, hdecode⟩ := decode_encode (encodeFits_short (by omega :
    (vch ++ hashCheck hash vch).length < 2 ^ 20))
  refine ⟨str, hencode, ?_⟩
  rw [decodeBase58Check, hdecode, pure_bind]
  simp only [hlength, Nat.not_lt.mpr (Nat.le_add_left 4 vch.length), if_false, Nat.add_sub_cancel,
    List.take_left, List.drop_left, ne_eq, not_true_eq_false]

theorem length_base58Prefix (type : Base58Type) : (params.base58Prefix type).length = 1 := by
  cases params <;> cases type <;> rfl

theorem base58Prefix_ne :
    params.base58Prefix .SCRIPT_ADDRESS ≠ params.base58Prefix .PUBKEY_ADDRESS := by
  cases params <;> decide

theorem hasPrefix_append {type : Base58Type} {id : List UInt8} (hid : id.length = 20) :
    hasPrefix params type (params.base58Prefix type ++ id) = true := by
  rw [hasPrefix, List.take_left, List.length_append, hid, Nat.add_comm, beq_self_eq_true,
    beq_self_eq_true]
  rfl

theorem decodeDestination_keyID {id : List UInt8} (hid : id.length = 20) :
    ∃ str, encodeDestination hash params (.CKeyID id) = pure str ∧
      decodeDestination hash params str = pure (.CKeyID id) := by
  obtain ⟨str, hencode, hdecode⟩ := @decodeBase58Check_encode hash
    (params.base58Prefix .PUBKEY_ADDRESS ++ id) (by
      rw [List.length_append, length_base58Prefix, hid]
      decide)
  refine ⟨str, hencode, ?_⟩
  rw [decodeDestination, hdecode, pure_bind, Option.bind_some, base58Destination,
    if_pos (hasPrefix_append hid), List.drop_left]

theorem decodeDestination_scriptID {id : List UInt8} (hid : id.length = 20) :
    ∃ str, encodeDestination hash params (.CScriptID id) = pure str ∧
      decodeDestination hash params str = pure (.CScriptID id) := by
  obtain ⟨str, hencode, hdecode⟩ := @decodeBase58Check_encode hash
    (params.base58Prefix .SCRIPT_ADDRESS ++ id) (by
      rw [List.length_append, length_base58Prefix, hid]
      decide)
  have hother : ¬hasPrefix params .PUBKEY_ADDRESS (params.base58Prefix .SCRIPT_ADDRESS ++ id) =
      true := by
    rw [hasPrefix, length_base58Prefix, ← @length_base58Prefix params .SCRIPT_ADDRESS,
      List.take_left, Bool.and_eq_true, beq_iff_eq, beq_iff_eq]
    exact fun h => base58Prefix_ne h.2
  refine ⟨str, hencode, ?_⟩
  rw [decodeDestination, hdecode, pure_bind, Option.bind_some, base58Destination, if_neg hother,
    if_pos (hasPrefix_append hid), List.drop_left]

end Base58

section Lead

def base58Index (c : Char) : Nat := (pszBase58.idxOf? c).getD 0

theorem map_base58Index {cs : List Nat} (hcs : ∀ c ∈ cs, c < 58) :
    (cs.map base58Char).map base58Index = cs := by
  have hindex : ∀ c ∈ cs, base58Index (base58Char c) = c := fun c hc => by
    rw [base58Index, idxOf_base58Char c (hcs c hc)]
    rfl
  rw [List.map_map]
  exact (List.map_congr_left hindex).trans (List.map_id' cs)

-- The first characters of a string bound the number that its bytes write.
theorem decodeBase58_lead {lead tail : List Char} {b : UInt8} {rest : List UInt8}
    (hplain : ∀ c ∈ lead ++ tail, isspace c = false ∧ c ≠ '\x00') (hne : lead ≠ [])
    (hone : '1' ∉ lead.head?)
    (hdecode : decodeBase58 (lead ++ tail) = pure (some (b :: rest))) :
    b.toNat * 256 ^ rest.length < (value 58 (lead.map base58Index) 0 + 1) * 58 ^ tail.length ∧
      value 58 (lead.map base58Index) 0 * 58 ^ tail.length <
        (b.toNat + 1) * 256 ^ rest.length := by
  have hnull : ∀ c ∈ lead ++ tail, decide (c ≠ '\x00') = true :=
    fun c hc => decide_eq_true (hplain c hc).2
  rw [decodeBase58, List.takeWhile_eq_self_iff.mpr hnull] at hdecode
  obtain ⟨z, cs, htext, hcs, -, hvch⟩ :=
    exists_of_decodeBase58Psz (fun c hc => (hplain c hc).1) hdecode
  have hz : z = 0 := by
    cases z with
    | zero => rfl
    | succ z =>
      have hhead := congrArg List.head? htext
      rw [List.head?_append_of_ne_nil _ hne] at hhead
      exact absurd hhead hone
  subst hz
  rw [List.replicate_zero, List.nil_append] at htext hvch
  have hdigits : lead.map base58Index ++ tail.map base58Index = cs := by
    rw [← List.map_append, htext, map_base58Index hcs]
  have hbytes : (b :: rest).map UInt8.toNat = (Nat.digits 256 (value 58 cs 0)).reverse := by
    have htoNat : ∀ d ∈ (Nat.digits 256 (value 58 cs 0)).reverse, (UInt8.ofNat d).toNat = d :=
      fun d hd => UInt8.toNat_ofNat_of_lt' (digits_lt (by decide) d hd)
    rw [hvch, List.map_map]
    exact (List.map_congr_left htoNat).trans (List.map_id' _)
  have hvalue : value 256 (rest.map UInt8.toNat) b.toNat =
      value 58 (tail.map base58Index) (value 58 (lead.map base58Index) 0) := by
    rw [← value_append, hdigits, ← @value_digits 256 (value 58 cs 0), ← hbytes]
    simp [value]
  have hlow := @value_bounds 256 (by decide) (rest.map UInt8.toNat) toNat_lt_of_mem b.toNat
  have hhigh := @value_bounds 58 (by decide) (tail.map base58Index)
    (fun c hc => hcs c (hdigits ▸ List.mem_append_right _ hc)) (value 58 (lead.map base58Index) 0)
  rw [List.length_map] at hlow hhigh
  rw [hvalue] at hlow
  exact ⟨hlow.1.trans_lt hhigh.2, hhigh.1.trans_lt hlow.2⟩

end Lead

section Witness

variable {hash : List UInt8 → UInt256} {params : NetworkID}

theorem lowerHRP_bech32HRP (params : NetworkID) : Bech32.LowerHRP params.bech32HRP := by
  cases params <;> exact ⟨by decide, List.all_iff_forall_prop.mp (by decide)⟩

def leadValue (params : NetworkID) : Nat :=
  value 58 ((params.bech32HRP ++ ['1']).map base58Index) 0

-- With so many characters after the separator a number is below the version byte, with one more
-- it is above.
def shortTail : NetworkID → Base58Type → Nat
  | .TESTNET, .PUBKEY_ADDRESS => 31
  | .REGTEST, .PUBKEY_ADDRESS => 29
  | .REGTEST, .SCRIPT_ADDRESS => 28
  | _, _ => 30

theorem shortTail_spec (params : NetworkID) (type : Base58Type) : ∀ q ∈ params.base58Prefix type,
    (leadValue params + 1) * 58 ^ shortTail params type ≤ q.toNat * 256 ^ 24 ∧
      (q.toNat + 1) * 256 ^ 24 ≤ leadValue params * 58 ^ (shortTail params type + 1) := by
  cases params <;> cases type <;> exact List.all_iff_forall_prop.mp (by decide)

theorem lead_apart {type : Base58Type} {q : UInt8} (hq : q ∈ params.base58Prefix type) (k : Nat) :
    (leadValue params + 1) * 58 ^ k ≤ q.toNat * 256 ^ 24 ∨
      (q.toNat + 1) * 256 ^ 24 ≤ leadValue params * 58 ^ k := by
  obtain ⟨hshort, hlong⟩ := shortTail_spec params type q hq
  rcases Nat.lt_or_ge (shortTail params type) k with hlt | hge
  · exact Or.inr (hlong.trans (Nat.mul_le_mul_left _ (Nat.pow_le_pow_right (by decide) hlt)))
  · exact Or.inl ((Nat.mul_le_mul_left _ (Nat.pow_le_pow_right (by decide) hge)).trans hshort)

theorem plain_lead (params : NetworkID) : ∀ c ∈ params.bech32HRP ++ ['1'],
    isspace c = false ∧ c ≠ '\x00' := by
  cases params <;> exact List.all_iff_forall_prop.mp (by decide)

theorem plain_charset : ∀ c ∈ Bech32.CHARSET, isspace c = false ∧ c ≠ '\x00' :=
  List.all_iff_forall_prop.mp (by decide)

theorem head?_lead_ne_one (params : NetworkID) : '1' ∉ (params.bech32HRP ++ ['1']).head? := by
  cases params <;> decide

theorem exists_hasPrefix {data : List UInt8} {dest : CTxDestination}
    (h : base58Destination params data = some dest) :
    ∃ type, hasPrefix params type data = true := by
  rw [base58Destination] at h
  split at h
  · rename_i hprefix
    exact ⟨_, hprefix⟩
  · split at h
    · rename_i hprefix
      exact ⟨_, hprefix⟩
    · cases h

-- what passed the check is a part of what was read
theorem decodeBase58Check_of_decode {psz : List Char} {r : Option (List UInt8)}
    (h : decodeBase58 psz = pure r) : ∃ data, decodeBase58Check hash psz = pure data ∧
      ∀ vch ∈ data, ∃ check, check.length = 4 ∧ r = some (vch ++ check) := by
  rw [decodeBase58Check, h, pure_bind]
  cases r with
  | none => exact ⟨none, rfl, by simp⟩
  | some vchRet =>
    dsimp only
    split
    · exact ⟨none, rfl, by simp⟩
    · rename_i hlong
      split
      · exact ⟨none, rfl, by simp⟩
      · refine ⟨_, rfl, fun vch hvch => ⟨vchRet.drop (vchRet.length - 4), ?_, ?_⟩⟩
        · rw [List.length_drop]
          omega
        · rw [← Option.some.inj hvch, List.take_append_drop]

theorem not_base58Destination {tail : List Char} (htail : ∀ c ∈ tail, c ∈ Bech32.CHARSET)
    (hlength : tail.length ≤ 90) : ∃ data,
      decodeBase58Check hash (params.bech32HRP ++ '1' :: tail) = pure data ∧
        data.bind (base58Destination params) = none := by
  have happend : params.bech32HRP ++ '1' :: tail = (params.bech32HRP ++ ['1']) ++ tail := by
    rw [List.append_assoc]
    rfl
  have hplain : ∀ c ∈ (params.bech32HRP ++ ['1']) ++ tail, isspace c = false ∧ c ≠ '\x00' :=
    fun c hc => (List.mem_append.mp hc).elim (plain_lead params c)
      fun hc => plain_charset c (htail c hc)
  have hnull : ∀ c ∈ (params.bech32HRP ++ ['1']) ++ tail, decide (c ≠ '\x00') = true :=
    fun c hc => decide_eq_true (hplain c hc).2
  have hshort : ((params.bech32HRP ++ ['1']) ++ tail).length < 2 ^ 20 := by
    have hhrp : params.bech32HRP.length ≤ 4 := by cases params <;> decide
    rw [List.length_append, List.length_append, List.length_singleton]
    omega
  obtain ⟨r, hr⟩ := decodeBase58Psz_total (decodeFits_short hshort)
  have hdecode : decodeBase58 ((params.bech32HRP ++ ['1']) ++ tail) = pure r := by
    rw [decodeBase58, List.takeWhile_eq_self_iff.mpr hnull, hr]
  obtain ⟨data, hdata, hread⟩ := @decodeBase58Check_of_decode hash _ _ hdecode
  refine ⟨data, happend ▸ hdata, ?_⟩
  rw [Option.eq_none_iff_forall_ne_some]
  intro dest hdest
  obtain ⟨vch, hvch, hdest⟩ := Option.bind_eq_some_iff.mp hdest
  obtain ⟨check, hcheck, rfl⟩ := hread vch hvch
  obtain ⟨type, hprefix⟩ := exists_hasPrefix hdest
  rw [hasPrefix, length_base58Prefix, Bool.and_eq_true, beq_iff_eq, beq_iff_eq] at hprefix
  obtain ⟨hsize, hfirst⟩ := hprefix
  cases vch with
  | nil => cases hsize
  | cons q vch =>
    have hrest : (vch ++ check).length = 24 := by
      rw [List.length_cons] at hsize
      rw [List.length_append]
      omega
    have hq : q ∈ params.base58Prefix type := by
      rw [← hfirst]
      simp
    rw [List.cons_append] at hdecode
    obtain ⟨hlow, hhigh⟩ := decodeBase58_lead hplain (by simp) (head?_lead_ne_one params) hdecode
    rw [hrest] at hlow hhigh
    rcases lead_apart hq tail.length with hapart | hapart
    · exact absurd hlow (Nat.not_lt.mpr hapart)
    · exact absurd hhigh (Nat.not_lt.mpr hapart)

theorem decodeDestination_program {version : Nat} {bytes : List UInt8} (hversion : version ≤ 16)
    (hbytes : bytes.length ≤ 40) :
    decodeDestination hash params (Bech32.encode params.bech32HRP
        (convertBits 8 5 true [UInt8.ofNat version] bytes).1) =
      pure (programDestination version bytes) := by
  obtain ⟨groups, k, hk, heq, hgroups, hflatten⟩ := convertBits_pad bytes [UInt8.ofNat version]
  have hbyte : (UInt8.ofNat version).toNat = version :=
    UInt8.toNat_ofNat_of_lt' (hversion.trans_lt (by decide))
  have hvalues : ∀ v ∈ UInt8.ofNat version :: groupValues groups, v.toNat < 32 :=
    List.forall_mem_cons.mpr ⟨by omega, groupValues_lt hgroups⟩
  have hlength : (Bech32.encode params.bech32HRP
      (UInt8.ofNat version :: groupValues groups)).length ≤ 90 := by
    have hhrp : params.bech32HRP.length ≤ 4 := by cases params <;> decide
    have hbits := congrArg List.length hflatten
    rw [length_flatten hgroups, List.length_append, length_stream, List.length_replicate] at hbits
    rw [Bech32.length_encode, List.length_cons, groupValues, List.length_map]
    omega
  have htail : ∀ c ∈ ((UInt8.ofNat version :: groupValues groups) ++
      Bech32.createChecksum params.bech32HRP (UInt8.ofNat version :: groupValues groups)).map
        Bech32.charsetAt, c ∈ Bech32.CHARSET := by
    intro c hc
    obtain ⟨v, hv, rfl⟩ := List.mem_map.mp hc
    exact Bech32.charsetAt_mem
      ((List.mem_append.mp hv).elim (hvalues v) Bech32.createChecksum_lt)
  obtain ⟨data, hdata, hnone⟩ := @not_base58Destination hash params _ htail (by
    rw [Bech32.encode, List.length_append, List.length_cons] at hlength
    omega)
  rw [heq]
  dsimp only
  rw [List.singleton_append, decodeDestination, Bech32.encode, hdata, pure_bind, hnone]
  have hdecode := Bech32.decode_encode (lowerHRP_bech32HRP params) hvalues hlength
  rw [Bech32.encode] at hdecode
  simp only [bech32Destination, hdecode, if_true, convertBits_back hk hgroups hflatten, hbyte]

end Witness

section Claim

theorem exists_address (hash : List UInt8 → UInt256) (params : NetworkID) {dest : CTxDestination}
    (hvalid : dest.Valid) : ∃ str, encodeDestination hash params dest = pure str ∧
      decodeDestination hash params str = pure dest := by
  cases dest with
  | CNoDestination => exact absurd hvalid id
  | CKeyID id => exact decodeDestination_keyID hvalid
  | CScriptID id => exact decodeDestination_scriptID hvalid
  | WitnessV0KeyHash id =>
    have hid : id.length = 20 := hvalid
    refine ⟨_, rfl, (@decodeDestination_program hash params 0 id (by decide) (by omega)).trans ?_⟩
    rw [programDestination, if_pos rfl, if_pos hid]
  | WitnessV0ScriptHash id =>
    have hid : id.length = 32 := hvalid
    refine ⟨_, rfl, (@decodeDestination_program hash params 0 id (by decide) (by omega)).trans ?_⟩
    rw [programDestination, if_pos rfl, if_neg (by omega), if_pos hid]
  | WitnessUnknown version program =>
    obtain ⟨hpos, hversion, hshort, hlong⟩ := hvalid
    refine ⟨_, if_neg (by omega), (decodeDestination_program hversion hlong).trans ?_⟩
    rw [programDestination, if_neg (by omega), if_neg (by omega)]

theorem address_round_trip :
    (∀ (hash : List UInt8 → UInt256) (params : NetworkID) (dest : CTxDestination), dest.Valid →
      ∃ str, encodeDestination hash params dest = pure str ∧
        decodeDestination hash params str = pure dest) ∧
    (∀ hrp values, Bech32.LowerHRP hrp → (∀ v ∈ values, v.toNat < 32) →
      (Bech32.encode hrp values).length ≤ 90 →
      Bech32.decode (Bech32.encode hrp values) = (hrp, values)) ∧
    (∀ (before after : List Char) (c d : Char), '1' ∈ before → '1' ∉ after → d ≠ '1' →
      c ∈ Bech32.CHARSET → c ≠ d → Bech32.decode (before ++ d :: after) ≠ ([], []) →
      (Bech32.decode (before ++ c :: after) = ([], []) ↔
        ¬(c = Bech32.lowerCase d ∧ ∀ x ∈ before ++ after, Bech32.Letterless x))) := by
  refine ⟨fun hash params _ => exists_address hash params, fun _ _ => Bech32.decode_encode, ?_⟩
  intro before after c d hbefore hafter hd hc hne hvalid
  rw [← Bech32.decode_substituted hbefore hafter hd hc hne hvalid, not_not]

-- the double SHA-256 of the version byte of main with a key hash of zeros
def zeroKeyHash (_ : List UInt8) : UInt256 :=
  0x55e9af15e2d659d48b5b579659efdb5685d4870220bc18b116a0aa8a5a6c7b56

theorem address_round_trip_zeroKey :
    (∃ str, encodeDestination zeroKeyHash .MAIN (.CKeyID (List.replicate 20 0)) = pure str ∧
      decodeDestination zeroKeyHash .MAIN str = pure (.CKeyID (List.replicate 20 0))) ∧
    Bech32.decode (Bech32.encode "ph".toList [0, 31]) = ("ph".toList, [0, 31]) ∧
    Bech32.decode ("A12".toList ++ 'q' :: "EL5L".toList) = ([], []) :=
  ⟨address_round_trip.1 zeroKeyHash .MAIN _ rfl,
    address_round_trip.2.1 _ _ (lowerHRP_bech32HRP .MAIN) (List.all_iff_forall_prop.mp (by decide))
      (by decide),
    (address_round_trip.2.2 "A12".toList "EL5L".toList 'q' 'U' (by decide) (by decide) (by decide)
      (by decide) (by decide) (by decide)).mpr fun h => absurd h.1 (by decide)⟩

-- A capital that is the string's only letter is read in lower case as well, and no string without
-- a human-readable part is read at all.
theorem address_round_trip_limits :
    Bech32.decode "3:152W339".toList ≠ ([], []) ∧ 'w' ∈ Bech32.CHARSET ∧ 'w' ≠ 'W' ∧
      Bech32.decode "3:152w339".toList ≠ ([], []) ∧
      Bech32.decode (Bech32.encode [] [0]) ≠ ([], [0]) := by
  decide

end Claim

end AnkerNode
