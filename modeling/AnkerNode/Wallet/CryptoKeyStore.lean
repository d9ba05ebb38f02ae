import AnkerNode.Lib.ByteStream
import AnkerNode.Lib.Table
import AnkerNode.Primitives.Transaction
import Mathlib.Data.Nat.Digits.Defs
import Std.Data.TreeMap.Lemmas

namespace AnkerNode

open Std

abbrev CKeyingMaterial := List UInt8

abbrev CPubKey := List UInt8

abbrev CKeyID := BitVec 160

-- what `GetStrongRandBytes` fills
abbrev RandBytes (n : Nat) := { bytes : List UInt8 // bytes.length = n }

def WALLET_CRYPTO_KEY_SIZE : Nat := 32

def WALLET_CRYPTO_SALT_SIZE : Nat := 8

-- secp256k1, the hashes and OpenSSL's AES-256-CBC and `EVP_BytesToKey`
structure KeyCrypto where
  check : List UInt8 → Bool
  pubKeyCreate : List UInt8 → Bool → CPubKey
  hash160 : List UInt8 → CKeyID
  hash : List UInt8 → UInt256
  aesEncrypt : List UInt8 → List UInt8 → List UInt8 → List UInt8
  aesDecrypt : List UInt8 → List UInt8 → List UInt8 → Option (List UInt8)
  bytesToKey : List UInt8 → List UInt8 → Nat → List UInt8 × List UInt8

-- a `CKey` that is valid
structure CKey (crypto : KeyCrypto) where
  vch : List UInt8
  fCompressed : Bool
  size : vch.length = 32
  valid : crypto.check vch = true
deriving DecidableEq

variable {crypto : KeyCrypto}

namespace CKey

def set (crypto : KeyCrypto) (vch : List UInt8) (fCompressedIn : Bool) : Option (CKey crypto) :=
  if size : vch.length = 32 then
    if valid : crypto.check vch = true then some ⟨vch, fCompressedIn, size, valid⟩ else none
  else none

def getPubKey (key : CKey crypto) : CPubKey := crypto.pubKeyCreate key.vch key.fCompressed

def getID (key : CKey crypto) : CKeyID := crypto.hash160 key.getPubKey

theorem set_vch (key : CKey crypto) : set crypto key.vch key.fCompressed = some key := by
  rw [set, dif_pos key.size, dif_pos key.valid]

end CKey

def CPubKey.isCompressed (pubkey : CPubKey) : Bool := pubkey.length == 33

def UInt256.bytes (x : UInt256) : List UInt8 := ByteStream.writeLE 32 x.toNat

-- `uint256(ReverseEndianString(HexStr(vch)))` takes the last 64 digits, which are the first 32 bytes
def UInt256.ofBytes (vch : List UInt8) : UInt256 :=
  BitVec.ofNat 256 (Nat.ofDigits 256 (vch.map UInt8.toNat))

theorem UInt256.ofBytes_bytes (x : UInt256) : ofBytes x.bytes = x := by
  have hdigits : ∀ width n : Nat,
      Nat.ofDigits 256 ((ByteStream.writeLE width n).map UInt8.toNat) = n % 256 ^ width := by
    intro width
    induction width with
    | zero => intro n; simp [ByteStream.writeLE, Nat.mod_one]
    | succ width ih =>
      intro n
      have hbyte : (UInt8.ofNat (n % 256)).toNat = n % 256 := by
        rw [UInt8.toNat_ofNat']
        exact Nat.mod_mod n 256
      have hpow : 256 ^ (width + 1) = 256 * 256 ^ width := Nat.pow_succ'
      rw [ByteStream.writeLE, List.map_cons, Nat.ofDigits_cons, ih, hbyte, hpow, Nat.mod_mul]
  rw [ofBytes, bytes, hdigits, Nat.mod_eq_of_lt (show x.toNat < 256 ^ 32 from x.isLt),
    BitVec.ofNat_toNat, BitVec.setWidth_eq]

namespace CCrypter

-- the key and the initialisation vector of a crypter whose key is set
variable (crypto)

def setKeyFromPassphrase (strKeyData chSalt : List UInt8) (nRounds nDerivationMethod : Nat) :
    Option (List UInt8 × List UInt8) :=
  if nRounds < 1 ∨ chSalt.length ≠ WALLET_CRYPTO_SALT_SIZE then none
  else if nDerivationMethod = 0 then some (crypto.bytesToKey strKeyData chSalt nRounds)
  else none

def setKey (chNewKey chNewIV : List UInt8) : Option (List UInt8 × List UInt8) :=
  if chNewKey.length ≠ WALLET_CRYPTO_KEY_SIZE ∨ chNewIV.length ≠ WALLET_CRYPTO_KEY_SIZE then none
  else some (chNewKey, chNewIV)

end CCrypter

variable (crypto) in
def encryptSecret (vMasterKey vchPlaintext : List UInt8) (nIV : UInt256) : Option (List UInt8) :=
  (CCrypter.setKey vMasterKey nIV.bytes).map fun crypter =>
    crypto.aesEncrypt crypter.1 crypter.2 vchPlaintext

variable (crypto) in
def decryptSecret (vMasterKey vchCiphertext : List UInt8) (nIV : UInt256) : Option (List UInt8) :=
  (CCrypter.setKey vMasterKey nIV.bytes).bind fun crypter =>
    crypto.aesDecrypt crypter.1 crypter.2 vchCiphertext

structure CCryptoKeyStore (crypto : KeyCrypto) where
  mapKeys : TreeMap CKeyID (CKey crypto)
  mapCryptedKeys : TreeMap CKeyID (CPubKey × List UInt8)
  vMasterKey : CKeyingMaterial
  fUseCrypto : Bool
  fDecryptionThoroughlyChecked : Bool

namespace CCryptoKeyStore

def isCrypted (store : CCryptoKeyStore crypto) : Bool := store.fUseCrypto

def isLocked (store : CCryptoKeyStore crypto) : Bool :=
  store.isCrypted && store.vMasterKey.isEmpty

-- `none` where the call returns false
def setCrypted (store : CCryptoKeyStore crypto) : Option (CCryptoKeyStore crypto) :=
  if store.fUseCrypto then some store
  else if !store.mapKeys.isEmpty then none
  else some { store with fUseCrypto := true }

def addCryptedKey (store : CCryptoKeyStore crypto) (vchPubKey : CPubKey)
    (vchCryptedSecret : List UInt8) : Option (CCryptoKeyStore crypto) :=
  store.setCrypted.map fun store =>
    { store with
      mapCryptedKeys :=
        store.mapCryptedKeys.insert (crypto.hash160 vchPubKey) (vchPubKey, vchCryptedSecret) }

def addKeyPubKey (store : CCryptoKeyStore crypto) (key : CKey crypto) (pubkey : CPubKey) :
    Option (CCryptoKeyStore crypto) :=
  if !store.isCrypted then
    some { store with mapKeys := store.mapKeys.insert (crypto.hash160 pubkey) key }
  else if store.isLocked then none
  else (encryptSecret crypto store.vMasterKey key.vch (crypto.hash pubkey)).bind
    (store.addCryptedKey pubkey)

def haveKey (store : CCryptoKeyStore crypto) (address : CKeyID) : Bool :=
  if !store.isCrypted then store.mapKeys.contains address
  else store.mapCryptedKeys.contains address

def getKey (store : CCryptoKeyStore crypto) (address : CKeyID) : Option (CKey crypto) :=
  if !store.isCrypted then store.mapKeys[address]?
  else do
    let (vchPubKey, vchCryptedSecret) ← store.mapCryptedKeys[address]?
    let vchSecret ← decryptSecret crypto store.vMasterKey vchCryptedSecret (crypto.hash vchPubKey)
    CKey.set crypto vchSecret (CPubKey.isCompressed vchPubKey)

def getPubKey (store : CCryptoKeyStore crypto) (address : CKeyID) : Option CPubKey :=
  if !store.isCrypted then (store.mapKeys[address]?).map CKey.getPubKey
  else (store.mapCryptedKeys[address]?).map Prod.fst

def encryptKeysLoop (vMasterKeyIn : CKeyingMaterial) :
    List (CKey crypto) → CCryptoKeyStore crypto → Option (CCryptoKeyStore crypto)
  | [], store => some store
  | key :: keys, store => do
    let vchCryptedSecret ← encryptSecret crypto vMasterKeyIn key.vch (crypto.hash key.getPubKey)
    encryptKeysLoop vMasterKeyIn keys (← store.addCryptedKey key.getPubKey vchCryptedSecret)

def encryptKeys (store : CCryptoKeyStore crypto) (vMasterKeyIn : CKeyingMaterial) :
    Option (CCryptoKeyStore crypto) :=
  if !store.mapCryptedKeys.isEmpty || store.isCrypted then none
  else (encryptKeysLoop vMasterKeyIn (store.mapKeys.toList.map Prod.snd)
    { store with fUseCrypto := true }).map fun store => { store with mapKeys := ∅ }

-- one turn of the loop of `Unlock`; `none` where `GetPubKey` asserts that the key is valid
def opensKey (crypto : KeyCrypto) (vMasterKeyIn : CKeyingMaterial) (entry : CPubKey × List UInt8) :
    Option Bool :=
  match decryptSecret crypto vMasterKeyIn entry.2 (crypto.hash entry.1) with
  | none => some false
  | some vchSecret =>
    if vchSecret.length ≠ 32 then some false
    else (CKey.set crypto vchSecret (CPubKey.isCompressed entry.1)).map fun key =>
      key.getPubKey == entry.1

-- `keyPass` and `keyFail` after the loop
def unlockLoop (crypto : KeyCrypto) (fDecryptionThoroughlyChecked : Bool)
    (vMasterKeyIn : CKeyingMaterial) :
    List (CPubKey × List UInt8) → Bool → Option (Bool × Bool)
  | [], keyPass => some (keyPass, false)
  | entry :: entries, keyPass => do
    if !(← opensKey crypto vMasterKeyIn entry) then some (keyPass, true)
    else if fDecryptionThoroughlyChecked then some (true, false)
    else unlockLoop crypto fDecryptionThoroughlyChecked vMasterKeyIn entries true

-- `Unlock` as far as the keys decide; `none` where an assertion fails
def unlockKeys (store : CCryptoKeyStore crypto) (vMasterKeyIn : CKeyingMaterial) :
    Option (Bool × CCryptoKeyStore crypto) :=
  match store.setCrypted with
  | none => some (false, store)
  | some store => do
    let (keyPass, keyFail) ← unlockLoop crypto store.fDecryptionThoroughlyChecked vMasterKeyIn
      (store.mapCryptedKeys.toList.map Prod.snd) false
    if keyPass && keyFail then none
    else if keyFail || !keyPass then some (false, store)
    else some (true,
      { store with vMasterKey := vMasterKeyIn, fDecryptionThoroughlyChecked := true })

end CCryptoKeyStore

structure KeyCrypto.Laws (crypto : KeyCrypto) : Prop where
  decrypt_encrypt : ∀ chKey chIV vchPlaintext, chKey.length = 32 → chIV.length = 32 →
    crypto.aesDecrypt chKey chIV (crypto.aesEncrypt chKey chIV vchPlaintext) = some vchPlaintext
  derived_size : ∀ strKeyData chSalt nRounds,
    (crypto.bytesToKey strKeyData chSalt nRounds).1.length = 32 ∧
      (crypto.bytesToKey strKeyData chSalt nRounds).2.length = 32
  compressed : ∀ key : CKey crypto, CPubKey.isCompressed key.getPubKey = key.fCompressed

-- what `mapCryptedKeys` has of a key
def cryptedEntry (crypto : KeyCrypto) (masterKey : CKeyingMaterial) (key : CKey crypto) :
    CPubKey × List UInt8 :=
  (key.getPubKey, crypto.aesEncrypt masterKey (crypto.hash key.getPubKey).bytes key.vch)

section Secrets

variable {masterKey : CKeyingMaterial} {nIV : UInt256} {vch : List UInt8}

theorem UInt256.length_bytes (x : UInt256) : x.bytes.length = 32 := ByteStream.length_writeLE 32 _

theorem encryptSecret_eq (hsize : masterKey.length = 32) :
    encryptSecret crypto masterKey vch nIV = some (crypto.aesEncrypt masterKey nIV.bytes vch) := by
  rw [encryptSecret, CCrypter.setKey, if_neg]
  · rfl
  · rw [not_or, not_not, not_not]
    exact ⟨hsize, nIV.length_bytes⟩

theorem decryptSecret_eq (hsize : masterKey.length = 32) :
    decryptSecret crypto masterKey vch nIV = crypto.aesDecrypt masterKey nIV.bytes vch := by
  rw [decryptSecret, CCrypter.setKey, if_neg]
  · rfl
  · rw [not_or, not_not, not_not]
    exact ⟨hsize, nIV.length_bytes⟩

theorem decryptSecret_nil : decryptSecret crypto [] vch nIV = none := by
  rw [decryptSecret, CCrypter.setKey, if_pos (.inl (by decide))]
  rfl

theorem decryptSecret_encrypted (laws : crypto.Laws) (hsize : masterKey.length = 32) :
    decryptSecret crypto masterKey (crypto.aesEncrypt masterKey nIV.bytes vch) nIV = some vch := by
  rw [decryptSecret_eq hsize, laws.decrypt_encrypt _ _ _ hsize nIV.length_bytes]

theorem set_secret (laws : crypto.Laws) (key : CKey crypto) :
    CKey.set crypto key.vch (CPubKey.isCompressed key.getPubKey) = some key := by
  rw [laws.compressed, CKey.set_vch]

end Secrets

namespace CCryptoKeyStore

variable {store : CCryptoKeyStore crypto} {masterKey : CKeyingMaterial}
  {keys : TreeMap CKeyID (CKey crypto)}

theorem opensKey_entry (laws : crypto.Laws) (hsize : masterKey.length = 32) (key : CKey crypto) :
    opensKey crypto masterKey (cryptedEntry crypto masterKey key) = some true := by
  rw [opensKey, cryptedEntry]
  dsimp only
  rw [decryptSecret_encrypted laws hsize]
  dsimp only
  rw [if_neg (not_not.mpr key.size), set_secret laws]
  simp

theorem unlockLoop_pass (thorough : Bool) {entries : List (CPubKey × List UInt8)}
    (h : ∀ entry ∈ entries, opensKey crypto masterKey entry = some true) (keyPass : Bool) :
    unlockLoop crypto thorough masterKey entries keyPass =
      some (keyPass || !entries.isEmpty, false) := by
  induction entries generalizing keyPass with
  | nil => simp [unlockLoop]
  | cons entry entries ih =>
    obtain ⟨hentry, hrest⟩ := List.forall_mem_cons.mp h
    rw [unlockLoop, hentry]
    cases thorough with
    | true => simp
    | false => simpa using ih hrest true

theorem unlockLoop_fail {thorough : Bool} {entry : CPubKey × List UInt8}
    (h : opensKey crypto masterKey entry = some false) (entries : List (CPubKey × List UInt8)) :
    unlockLoop crypto thorough masterKey (entry :: entries) false = some (false, true) := by
  rw [unlockLoop, h]
  rfl

theorem addCryptedKey_eq (hcrypted : store.fUseCrypto = true) (key : CKey crypto) :
    store.addCryptedKey key.getPubKey
      (crypto.aesEncrypt masterKey (crypto.hash key.getPubKey).bytes key.vch) =
      some { store with mapCryptedKeys :=
        store.mapCryptedKeys.insert key.getID (cryptedEntry crypto masterKey key) } := by
  rw [addCryptedKey, setCrypted, if_pos hcrypted]
  rfl

-- The store keeps `keys` under `masterKey` and no key in the clear.
structure Encrypts (store : CCryptoKeyStore crypto) (masterKey : CKeyingMaterial)
    (keys : TreeMap CKeyID (CKey crypto)) : Prop where
  crypted : store.fUseCrypto = true
  noPlain : store.mapKeys.isEmpty = true
  entries : ∀ id : CKeyID, store.mapCryptedKeys[id]? = (keys[id]?).map (cryptedEntry crypto masterKey)

theorem isEmpty_eq_of_getElem? {α β : Type} {t : TreeMap CKeyID α} {u : TreeMap CKeyID β} {f : β → α}
    (h : ∀ id : CKeyID, t[id]? = (u[id]?).map f) : t.isEmpty = u.isEmpty := by
  rw [Bool.eq_iff_iff, TreeMap.isEmpty_iff_forall_not_mem, TreeMap.isEmpty_iff_forall_not_mem]
  refine forall_congr' fun id => ?_
  rw [TreeMap.mem_iff_isSome_getElem?, TreeMap.mem_iff_isSome_getElem?, h, Option.isSome_map]

theorem getElem?_of_isEmpty {α : Type} {t : TreeMap CKeyID α} (h : t.isEmpty = true) (id : CKeyID) :
    t[id]? = none := by
  rw [TreeMap.isEmpty_iff_forall_not_mem] at h
  exact TreeMap.getElem?_eq_none (h id)

namespace Encrypts

theorem isEmpty_eq (h : Encrypts store masterKey keys) :
    store.mapCryptedKeys.isEmpty = keys.isEmpty := isEmpty_eq_of_getElem? h.entries

theorem setCrypted (h : Encrypts store masterKey keys) : store.setCrypted = some store := by
  rw [CCryptoKeyStore.setCrypted, if_pos h.crypted]

theorem of_master (h : Encrypts store masterKey keys) (vMasterKey : CKeyingMaterial)
    (thorough : Bool) :
    Encrypts { store with vMasterKey := vMasterKey, fDecryptionThoroughlyChecked := thorough }
      masterKey keys := ⟨h.crypted, h.noPlain, h.entries⟩

theorem mem_entries (h : Encrypts store masterKey keys) {entry : CPubKey × List UInt8}
    (hentry : entry ∈ store.mapCryptedKeys.toList.map Prod.snd) :
    ∃ (id : CKeyID) (key : CKey crypto), keys[id]? = some key ∧ entry = cryptedEntry crypto masterKey key := by
  obtain ⟨⟨id, entry⟩, hmem, rfl⟩ := List.mem_map.mp hentry
  have hget := TreeMap.mem_toList_iff_getElem?_eq_some.mp hmem
  rw [h.entries] at hget
  obtain ⟨key, hkey, heq⟩ := Option.map_eq_some_iff.mp hget
  exact ⟨id, key, hkey, heq.symm⟩

theorem insert (h : Encrypts store masterKey keys) (key : CKey crypto) :
    Encrypts { store with mapCryptedKeys :=
      store.mapCryptedKeys.insert key.getID (cryptedEntry crypto masterKey key) }
      masterKey (keys.insert key.getID key) := by
  refine ⟨h.crypted, h.noPlain, fun id => ?_⟩
  rw [TreeMap.getElem?_insert, TreeMap.getElem?_insert, h.entries]
  split
  · rfl
  · rfl

theorem unlockKeys_self (laws : crypto.Laws) (hsize : masterKey.length = 32)
    (h : Encrypts store masterKey keys) (hkeys : keys.isEmpty = false) :
    store.unlockKeys masterKey =
      some (true, { store with vMasterKey := masterKey, fDecryptionThoroughlyChecked := true }) := by
  have hloop := unlockLoop_pass store.fDecryptionThoroughlyChecked
    (fun entry hentry => by
      obtain ⟨-, key, -, rfl⟩ := h.mem_entries hentry
      exact opensKey_entry laws hsize key) false
  have hsome : (store.mapCryptedKeys.toList.map Prod.snd).isEmpty = false := by
    rw [List.isEmpty_map, TreeMap.isEmpty_toList, h.isEmpty_eq, hkeys]
  rw [unlockKeys, h.setCrypted]
  simp [hloop, hsome]

theorem unlockKeys_other (h : Encrypts store masterKey keys) {vMasterKeyIn : CKeyingMaterial}
    (hother : ∀ (id : CKeyID) key, keys[id]? = some key →
      opensKey crypto vMasterKeyIn (cryptedEntry crypto masterKey key) = some false) :
    store.unlockKeys vMasterKeyIn = some (false, store) := by
  rw [unlockKeys, h.setCrypted]
  cases hentries : store.mapCryptedKeys.toList.map Prod.snd with
  | nil => simp [hentries, unlockLoop]
  | cons entry entries =>
    obtain ⟨id, key, hkey, rfl⟩ := h.mem_entries (hentries ▸ List.mem_cons_self)
    simp [hentries, unlockLoop_fail (hother id key hkey)]

theorem getKey_unlocked (laws : crypto.Laws) (hsize : masterKey.length = 32)
    (h : Encrypts store masterKey keys) (hmaster : store.vMasterKey = masterKey) (id : CKeyID) :
    store.getKey id = keys[id]? := by
  rw [getKey, isCrypted, h.crypted, h.entries, hmaster]
  cases keys[id]? with
  | none => rfl
  | some key =>
    simp [cryptedEntry, decryptSecret_encrypted laws hsize, set_secret laws]

theorem getKey_locked (h : Encrypts store masterKey keys) (hmaster : store.vMasterKey = [])
    (id : CKeyID) : store.getKey id = none := by
  rw [getKey, isCrypted, h.crypted, hmaster]
  cases store.mapCryptedKeys[id]? with
  | none => rfl
  | some entry => simp [decryptSecret_nil]

end Encrypts

section EncryptKeys

-- where every key is filed under its own identifier
theorem encryptKeysLoop_spec (store : CCryptoKeyStore crypto) (hsize : masterKey.length = 32)
    (ks : List (CKey crypto))
    (hcrypted : store.fUseCrypto = true) :
    ∃ store', encryptKeysLoop masterKey ks store = some store' ∧
      store'.fUseCrypto = true ∧ store'.vMasterKey = store.vMasterKey ∧
      ∀ id, store'.mapCryptedKeys[id]? = Table.writeAll CKey.getID
        (fun key => some (cryptedEntry crypto masterKey key)) (store.mapCryptedKeys[·]?) ks id := by
  induction ks generalizing store with
  | nil => exact ⟨store, rfl, hcrypted, rfl, fun id => rfl⟩
  | cons key ks ih =>
    obtain ⟨store', hloop, hcrypted', hmaster, hentries⟩ := ih { store with
      mapCryptedKeys := store.mapCryptedKeys.insert key.getID (cryptedEntry crypto masterKey key) }
      hcrypted
    refine ⟨store', ?_, hcrypted', hmaster, fun id => ?_⟩
    · rw [encryptKeysLoop, encryptSecret_eq hsize]
      simp only [Option.bind_eq_bind, Option.bind_some]
      rw [addCryptedKey_eq hcrypted]
      exact hloop
    · have hupdate : ((store.mapCryptedKeys.insert key.getID
          (cryptedEntry crypto masterKey key))[·]?) =
          Function.update (store.mapCryptedKeys[·]?) key.getID
            (some (cryptedEntry crypto masterKey key)) := by
        funext id'
        rw [TreeMap.getElem?_insert, Function.update_apply]
        simp only [LawfulEqOrd.compare_eq_iff_eq, @eq_comm _ id']
      rw [hentries, Table.writeAll_cons, hupdate]

theorem encryptKeys_spec (store : CCryptoKeyStore crypto) (hsize : masterKey.length = 32) (hplain : store.fUseCrypto = false)
    (hnone : store.mapCryptedKeys.isEmpty = true)
    (hkeyed : ∀ (id : CKeyID) key, store.mapKeys[id]? = some key → key.getID = id) :
    ∃ store', store.encryptKeys masterKey = some store' ∧
      Encrypts store' masterKey store.mapKeys ∧ store'.vMasterKey = store.vMasterKey := by
  obtain ⟨store', hloop, hcrypted, hmaster, hentries⟩ := encryptKeysLoop_spec
    { store with fUseCrypto := true } hsize (store.mapKeys.toList.map Prod.snd) rfl
  refine ⟨{ store' with mapKeys := ∅ }, ?_, ⟨hcrypted, rfl, fun id => ?_⟩, hmaster⟩
  · rw [encryptKeys, isCrypted, hplain, hnone, hloop]
    rfl
  have hmem : ∀ {key : CKey crypto}, key ∈ store.mapKeys.toList.map Prod.snd ↔
      store.mapKeys[key.getID]? = some key := by
    intro key
    constructor
    · intro h
      obtain ⟨⟨id, key⟩, hmem, rfl⟩ := List.mem_map.mp h
      have hget := TreeMap.mem_toList_iff_getElem?_eq_some.mp hmem
      rw [hkeyed id key hget]
      exact hget
    · exact fun h => List.mem_map.mpr
        ⟨(key.getID, key), TreeMap.mem_toList_iff_getElem?_eq_some.mpr h, rfl⟩
  change store'.mapCryptedKeys[id]? = _
  rw [hentries]
  cases hkey : store.mapKeys[id]? with
  | none =>
    rw [Table.writeAll_of_not_mem]
    · exact getElem?_of_isEmpty hnone id
    · rintro h
      obtain ⟨key, hin, rfl⟩ := List.mem_map.mp h
      rw [hmem.mp hin] at hkey
      cases hkey
  | some key =>
    obtain rfl := hkeyed id key hkey
    have hfiled : key.getID ∈ (store.mapKeys.toList.map Prod.snd).map CKey.getID :=
      List.mem_map_of_mem (hmem.mpr hkey)
    obtain ⟨key', hin, hid, hval⟩ := Table.writeAll_of_mem
      (fun key => some (cryptedEntry crypto masterKey key))
      (fun id : CKeyID => store.mapCryptedKeys[id]?) hfiled
    have hsame := hmem.mp hin
    rw [hid, hkey] at hsame
    cases hsame
    exact hval

end EncryptKeys

end CCryptoKeyStore

end AnkerNode
