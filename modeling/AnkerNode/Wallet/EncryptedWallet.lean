import AnkerNode.Lib.Loops
import AnkerNode.Wallet.CryptoKeyStore
import Mathlib.Data.Set.Basic

namespace AnkerNode

open Std

variable {crypto : KeyCrypto}

structure CMasterKey where
  vchCryptedKey : List UInt8
  vchSalt : List UInt8
  nDerivationMethod : Nat
  nDeriveIterations : Nat
deriving DecidableEq, Repr

-- `seedhash` and `dzs` are the records of the wallet file about zANK seeds; `seedMaster` is the field
-- of the wallet's `CzANKWallet`. Master keys are kept in the order of their numbers.
structure CWallet (crypto : KeyCrypto) extends CCryptoKeyStore crypto where
  mapMasterKeys : List (Nat × CMasterKey)
  nMasterKeyMaxID : Nat
  seedhash : Option UInt256
  dzs : UInt256 → Option (List UInt8)
  seedMaster : UInt256

namespace CWallet

def addDeterministicSeed (wallet : CWallet crypto) (seed : UInt256) : Option (CWallet crypto) :=
  let hashSeed := crypto.hash seed.bytes
  let write (record : List UInt8) : CWallet crypto :=
    { wallet with seedhash := some hashSeed, dzs := Function.update wallet.dzs hashSeed (some record) }
  if wallet.isCrypted then
    if !wallet.isLocked then (encryptSecret crypto wallet.vMasterKey seed.bytes hashSeed).map write
    else none
  else some (write seed.bytes)

def getDeterministicSeed (wallet : CWallet crypto) (hashSeed : UInt256) : Option UInt256 :=
  if wallet.isCrypted then
    if !wallet.isLocked then do
      let vchCryptedSeed ← wallet.dzs hashSeed
      let seedRetrieved := UInt256.ofBytes vchCryptedSeed
      if hashSeed = crypto.hash seedRetrieved.bytes then some seedRetrieved
      else (decryptSecret crypto wallet.vMasterKey vchCryptedSeed hashSeed).map UInt256.ofBytes
    else none
  else (wallet.dzs hashSeed).map UInt256.ofBytes

def setMasterSeed (wallet : CWallet crypto) (seedMaster : UInt256) : Bool × CWallet crypto :=
  if wallet.isLocked then (false, wallet)
  else if seedMaster = 0 then (true, { wallet with seedMaster := seedMaster })
  else
    match wallet.addDeterministicSeed seedMaster with
    | none => (false, wallet)
    | some wallet => (true, { wallet with seedMaster := seedMaster })

def lock (wallet : CWallet crypto) : Bool × CWallet crypto :=
  match wallet.setCrypted with
  | none => (false, wallet)
  | some store =>
    (true, { wallet with toCCryptoKeyStore := { store with vMasterKey := [] }, seedMaster := 0 })

-- the seed that is drawn where the file has none
def readSeed (wallet : CWallet crypto) (newSeed : UInt256) : Option UInt256 :=
  match wallet.seedhash with
  | some hashSeed => wallet.getDeterministicSeed hashSeed
  | none => some newSeed

-- `CCryptoKeyStore::Unlock`
def unlockWith (wallet : CWallet crypto) (newSeed : UInt256) (vMasterKeyIn : CKeyingMaterial) :
    Option (Bool × CWallet crypto) := do
  let (opened, store) ← wallet.unlockKeys vMasterKeyIn
  let wallet := { wallet with toCCryptoKeyStore := store }
  if !opened then some (false, wallet)
  else
    match wallet.readSeed newSeed with
    | none => some (false, wallet)
    | some nSeed => some (true, (wallet.setMasterSeed nSeed).2)

def setKeyFromPassphrase (crypto : KeyCrypto) (strKeyData : List UInt8) (masterKey : CMasterKey) :
    Option (List UInt8 × List UInt8) :=
  CCrypter.setKeyFromPassphrase crypto strKeyData masterKey.vchSalt masterKey.nDeriveIterations
    masterKey.nDerivationMethod

def unlockFrom (strWalletPassphrase : List UInt8) (newSeed : UInt256) :
    List (Nat × CMasterKey) → CWallet crypto → Option (Bool × CWallet crypto)
  | [], wallet => some (false, wallet)
  | pMasterKey :: rest, wallet =>
    match setKeyFromPassphrase crypto strWalletPassphrase pMasterKey.2 with
    | none => some (false, wallet)
    | some crypter =>
      match crypto.aesDecrypt crypter.1 crypter.2 pMasterKey.2.vchCryptedKey with
      | none => unlockFrom strWalletPassphrase newSeed rest wallet
      | some vMasterKey => do
        let (opened, wallet) ← wallet.unlockWith newSeed vMasterKey
        if opened then some (true, wallet)
        else unlockFrom strWalletPassphrase newSeed rest wallet

def unlock (wallet : CWallet crypto) (strWalletPassphrase : List UInt8) (newSeed : UInt256) :
    Option (Bool × CWallet crypto) :=
  if !wallet.isLocked then some (true, wallet)
  else unlockFrom strWalletPassphrase newSeed wallet.mapMasterKeys wallet

-- what the clock gives, never below 25000
def deriveIterations (nMeasured : Nat) : Nat := if nMeasured < 25000 then 25000 else nMeasured

def wrapMasterKey (crypto : KeyCrypto) (strWalletPassphrase vMasterKey : List UInt8)
    (kMasterKey : CMasterKey) : Option CMasterKey :=
  (setKeyFromPassphrase crypto strWalletPassphrase kMasterKey).map fun crypter =>
    { kMasterKey with vchCryptedKey := crypto.aesEncrypt crypter.1 crypter.2 vMasterKey }

def putMasterKey (wallet : CWallet crypto) (nID : Nat) (kMasterKey : CMasterKey) : CWallet crypto :=
  { wallet with
    mapMasterKeys := wallet.mapMasterKeys.map fun entry =>
      if entry.1 = nID then (nID, kMasterKey) else entry }

def changeFrom (strOld strNew : List UInt8) (nMeasured : Nat) (newSeed : UInt256)
    (fWasLocked : Bool) :
    List (Nat × CMasterKey) → CWallet crypto → Option (Bool × CWallet crypto)
  | [], wallet => some (false, wallet)
  | pMasterKey :: rest, wallet =>
    match setKeyFromPassphrase crypto strOld pMasterKey.2 with
    | none => some (false, wallet)
    | some crypter =>
      match crypto.aesDecrypt crypter.1 crypter.2 pMasterKey.2.vchCryptedKey with
      | none => some (false, wallet)
      | some vMasterKey => do
        let (opened, wallet) ← wallet.unlockWith newSeed vMasterKey
        if !opened then
          changeFrom strOld strNew nMeasured newSeed fWasLocked rest wallet
        else
          let timed := { pMasterKey.2 with nDeriveIterations := deriveIterations nMeasured }
          match wrapMasterKey crypto strNew vMasterKey timed with
          | none => some (false, wallet.putMasterKey pMasterKey.1 timed)
          | some kMasterKey =>
            let wallet := wallet.putMasterKey pMasterKey.1 kMasterKey
            some (true, if fWasLocked then wallet.lock.2 else wallet)

def changeWalletPassphrase (wallet : CWallet crypto) (strOld strNew : List UInt8) (nMeasured : Nat)
    (newSeed : UInt256) : Option (Bool × CWallet crypto) :=
  let locked := wallet.lock.2
  changeFrom strOld strNew nMeasured newSeed wallet.isLocked locked.mapMasterKeys locked

def addKeyPubKey (wallet : CWallet crypto) (secret : CKey crypto) : Bool × CWallet crypto :=
  match wallet.toCCryptoKeyStore.addKeyPubKey secret secret.getPubKey with
  | none => (false, wallet)
  | some store => (true, { wallet with toCCryptoKeyStore := store })

-- `GenerateNewKey` throws where a key is not added
def generateKeys : List (CKey crypto) → CWallet crypto → Option (CWallet crypto)
  | [], wallet => some wallet
  | key :: keys, wallet =>
    match wallet.addKeyPubKey key with
    | (false, _) => none
    | (true, wallet) => generateKeys keys wallet

def newKeyPool (newKeys : List (CKey crypto)) (wallet : CWallet crypto) : Option (CWallet crypto) :=
  if wallet.isLocked then some wallet else generateKeys newKeys wallet

-- `none` where an assertion fails
def encryptWallet (wallet : CWallet crypto) (strWalletPassphrase : List UInt8)
    (vMasterKey : RandBytes WALLET_CRYPTO_KEY_SIZE) (vchSalt : RandBytes WALLET_CRYPTO_SALT_SIZE)
    (nMeasured : Nat) (newKeys : List (CKey crypto)) (newSeed : UInt256) :
    Option (Bool × CWallet crypto) :=
  if wallet.isCrypted then some (false, wallet)
  else
    match wrapMasterKey crypto strWalletPassphrase vMasterKey
      ⟨[], vchSalt, 0, deriveIterations nMeasured⟩ with
    | none => some (false, wallet)
    | some kMasterKey => do
      let store ← wallet.encryptKeys vMasterKey
      let wallet := { wallet with
        toCCryptoKeyStore := store
        mapMasterKeys := wallet.mapMasterKeys ++ [(wallet.nMasterKeyMaxID + 1, kMasterKey)]
        nMasterKeyMaxID := wallet.nMasterKeyMaxID + 1 }
      let (_, wallet) ← wallet.lock.2.unlock strWalletPassphrase newSeed
      let wallet ← newKeyPool newKeys wallet
      some (true, wallet.lock.2)

end CWallet

inductive WalletCall (crypto : KeyCrypto) where
  | addKeyPubKey (secret : CKey crypto)
  | encryptWallet (strWalletPassphrase : List UInt8) (vMasterKey : RandBytes WALLET_CRYPTO_KEY_SIZE)
    (vchSalt : RandBytes WALLET_CRYPTO_SALT_SIZE) (nMeasured : Nat) (newKeys : List (CKey crypto))
    (newSeed : UInt256)
  | lock
  | unlock (strWalletPassphrase : List UInt8) (newSeed : UInt256)
  | changeWalletPassphrase (strOld strNew : List UInt8) (nMeasured : Nat) (newSeed : UInt256)
  | setMasterSeed (seedMaster : UInt256)

def CWallet.call (wallet : CWallet crypto) : WalletCall crypto → Option (Bool × CWallet crypto)
  | .addKeyPubKey secret => some (wallet.addKeyPubKey secret)
  | .encryptWallet strWalletPassphrase vMasterKey vchSalt nMeasured newKeys newSeed =>
    wallet.encryptWallet strWalletPassphrase vMasterKey vchSalt nMeasured newKeys newSeed
  | .lock => some wallet.lock
  | .unlock strWalletPassphrase newSeed => wallet.unlock strWalletPassphrase newSeed
  | .changeWalletPassphrase strOld strNew nMeasured newSeed =>
    wallet.changeWalletPassphrase strOld strNew nMeasured newSeed
  | .setMasterSeed seedMaster => some (wallet.setMasterSeed seedMaster)

inductive Vault.Status where
  | plain | locked | unlocked
deriving DecidableEq, Repr

-- What an encrypted wallet is for: keys and seeds that can be read unless it is locked, and one
-- passphrase that unlocks them.
structure Vault (crypto : KeyCrypto) where
  keys : TreeMap CKeyID (CKey crypto)
  status : Vault.Status
  passphrase : Option (List UInt8)
  saved : UInt256 → Option UInt256
  current : Option UInt256
  seedMaster : UInt256

namespace Vault

def setSeed (vault : Vault crypto) (seed : UInt256) : Bool × Vault crypto :=
  if vault.status = .locked then (false, vault)
  else if seed = 0 then (true, { vault with seedMaster := 0 })
  else (true, { vault with
    saved := Function.update vault.saved (crypto.hash seed.bytes) (some seed)
    current := some (crypto.hash seed.bytes)
    seedMaster := seed })

def lock (vault : Vault crypto) : Bool × Vault crypto :=
  if vault.status = .plain ∧ vault.keys.isEmpty = false then (false, vault)
  else (true, { vault with status := .locked, seedMaster := 0 })

-- A vault without keys has nothing to tell the right passphrase by.
def Opens (vault : Vault crypto) (passphrase : List UInt8) : Prop :=
  vault.passphrase = some passphrase ∧ vault.keys.isEmpty = false

instance (vault : Vault crypto) (passphrase : List UInt8) : Decidable (vault.Opens passphrase) :=
  inferInstanceAs (Decidable (_ ∧ _))

def opened (vault : Vault crypto) (newSeed : UInt256) : Vault crypto :=
  ({ vault with status := .unlocked }.setSeed ((vault.current.bind vault.saved).getD newSeed)).2

def unlock (vault : Vault crypto) (passphrase : List UInt8) (newSeed : UInt256) :
    Bool × Vault crypto :=
  if vault.status ≠ .locked then (true, vault)
  else if vault.Opens passphrase then (true, vault.opened newSeed)
  else (false, vault)

def addKey (vault : Vault crypto) (key : CKey crypto) : Bool × Vault crypto :=
  if vault.status = .locked then (false, vault)
  else (true, { vault with keys := vault.keys.insert key.getID key })

def addKeys (vault : Vault crypto) (keys : List (CKey crypto)) : Vault crypto :=
  keys.foldl (fun vault key => (vault.addKey key).2) vault

def encrypt (vault : Vault crypto) (passphrase : List UInt8) (newKeys : List (CKey crypto))
    (newSeed : UInt256) : Bool × Vault crypto :=
  if vault.status ≠ .plain then (false, vault)
  else
    let locked := { vault with status := .locked, passphrase := some passphrase, seedMaster := 0 }
    (true, (((locked.unlock passphrase newSeed).2.addKeys newKeys).lock).2)

def changePassphrase (vault : Vault crypto) (old new : List UInt8) (newSeed : UInt256) :
    Bool × Vault crypto :=
  let locked := vault.lock.2
  if locked.Opens old then
    let changed := { locked.opened newSeed with passphrase := some new }
    (true, if vault.status = .locked then changed.lock.2 else changed)
  else (false, locked)

def call (vault : Vault crypto) : WalletCall crypto → Bool × Vault crypto
  | .addKeyPubKey secret => vault.addKey secret
  | .encryptWallet passphrase _ _ _ newKeys newSeed => vault.encrypt passphrase newKeys newSeed
  | .lock => vault.lock
  | .unlock passphrase newSeed => vault.unlock passphrase newSeed
  | .changeWalletPassphrase old new _ newSeed => vault.changePassphrase old new newSeed
  | .setMasterSeed seed => vault.setSeed seed

def getKey (vault : Vault crypto) (id : CKeyID) : Option (CKey crypto) :=
  if vault.status = .locked then none else vault.keys[id]?

def getSeed (vault : Vault crypto) (hashSeed : UInt256) : Option UInt256 :=
  if vault.status = .locked then none else vault.saved hashSeed

end Vault

structure Secrets (crypto : KeyCrypto) where
  keys : Set (CKey crypto)
  seeds : Set UInt256
  passphrases : Set (List UInt8)
  masterKeys : Set (List UInt8)

-- No key, passphrase or hash of these answers for another one.
structure Secrets.Distinct (secrets : Secrets crypto) : Prop where
  masterKey : ∀ masterKey ∈ secrets.masterKeys, ∀ key ∈ secrets.keys, ∀ vMasterKeyIn,
    vMasterKeyIn ≠ masterKey →
      CCryptoKeyStore.opensKey crypto vMasterKeyIn (cryptedEntry crypto masterKey key) = some false
  passphrase : ∀ masterKey ∈ secrets.masterKeys, ∀ p ∈ secrets.passphrases,
    ∀ p' ∈ secrets.passphrases, p' ≠ p → ∀ chSalt nRounds,
      crypto.aesDecrypt (crypto.bytesToKey p' chSalt nRounds).1 (crypto.bytesToKey p' chSalt nRounds).2
        (crypto.aesEncrypt (crypto.bytesToKey p chSalt nRounds).1
          (crypto.bytesToKey p chSalt nRounds).2 masterKey) ≠ some masterKey
  seed : ∀ masterKey ∈ secrets.masterKeys, ∀ seed ∈ secrets.seeds,
    let read := UInt256.ofBytes
      (crypto.aesEncrypt masterKey (crypto.hash seed.bytes).bytes seed.bytes)
    crypto.hash read.bytes = crypto.hash seed.bytes → read = seed

def WalletCall.Within (secrets : Secrets crypto) : WalletCall crypto → Prop
  | .addKeyPubKey secret => secret ∈ secrets.keys
  | .encryptWallet strWalletPassphrase vMasterKey _ _ newKeys newSeed =>
    strWalletPassphrase ∈ secrets.passphrases ∧ vMasterKey.1 ∈ secrets.masterKeys ∧
      (∀ key ∈ newKeys, key ∈ secrets.keys) ∧ newSeed ∈ secrets.seeds
  | .lock => True
  | .unlock strWalletPassphrase newSeed =>
    strWalletPassphrase ∈ secrets.passphrases ∧ newSeed ∈ secrets.seeds
  | .changeWalletPassphrase strOld strNew _ newSeed =>
    strOld ∈ secrets.passphrases ∧ strNew ∈ secrets.passphrases ∧ newSeed ∈ secrets.seeds
  | .setMasterSeed seedMaster => seedMaster ∈ secrets.seeds

-- `kMasterKey` holds `masterKey` under the passphrase.
structure CMasterKey.Wraps (crypto : KeyCrypto) (kMasterKey : CMasterKey)
    (passphrase masterKey : List UInt8) : Prop where
  salt : kMasterKey.vchSalt.length = WALLET_CRYPTO_SALT_SIZE
  iterations : 1 ≤ kMasterKey.nDeriveIterations
  method : kMasterKey.nDerivationMethod = 0
  crypted : kMasterKey.vchCryptedKey = crypto.aesEncrypt
    (crypto.bytesToKey passphrase kMasterKey.vchSalt kMasterKey.nDeriveIterations).1
    (crypto.bytesToKey passphrase kMasterKey.vchSalt kMasterKey.nDeriveIterations).2 masterKey

inductive KeyRecords (secrets : Secrets crypto) (wallet : CWallet crypto) (vault : Vault crypto) :
    Option (List UInt8) → Prop
  | plain (hstatus : vault.status = .plain) (hcrypted : wallet.fUseCrypto = false)
    (hmaster : wallet.vMasterKey = []) (hnone : wallet.mapCryptedKeys.isEmpty = true)
    (hkeys : wallet.mapKeys = vault.keys) (hmasters : wallet.mapMasterKeys = [])
    (hpassphrase : vault.passphrase = none) : KeyRecords secrets wallet vault none
  -- locked before there was a key or a passphrase
  | keyless (hstatus : vault.status = .locked) (hcrypted : wallet.fUseCrypto = true)
    (hmaster : wallet.vMasterKey = []) (hnoPlain : wallet.mapKeys.isEmpty = true)
    (hnone : wallet.mapCryptedKeys.isEmpty = true) (hkeys : vault.keys.isEmpty = true)
    (hmasters : wallet.mapMasterKeys = []) (hpassphrase : vault.passphrase = none) :
    KeyRecords secrets wallet vault none
  | crypted {masterKey : List UInt8} (hsecret : masterKey ∈ secrets.masterKeys)
    (hsize : masterKey.length = 32)
    (hencrypts : wallet.toCCryptoKeyStore.Encrypts masterKey vault.keys)
    (hlock : vault.status = .locked ∧ wallet.vMasterKey = [] ∨
      vault.status = .unlocked ∧ wallet.vMasterKey = masterKey)
    {passphrase : List UInt8} (hpassphrase : vault.passphrase = some passphrase)
    (hmem : passphrase ∈ secrets.passphrases) {n : Nat} {kMasterKey : CMasterKey}
    (hmasters : wallet.mapMasterKeys = [(n, kMasterKey)])
    (hwraps : kMasterKey.Wraps crypto passphrase masterKey) :
    KeyRecords secrets wallet vault (some masterKey)

structure SeedRecords (secrets : Secrets crypto) (wallet : CWallet crypto) (vault : Vault crypto)
    (masterKey : Option (List UInt8)) : Prop where
  current : wallet.seedhash = vault.current
  master : wallet.seedMaster = vault.seedMaster
  live : ∀ hashSeed, vault.current = some hashSeed → ∃ seed, vault.saved hashSeed = some seed
  unsaved : ∀ hashSeed, vault.saved hashSeed = none → wallet.dzs hashSeed = none
  saved : ∀ hashSeed seed, vault.saved hashSeed = some seed →
    seed ∈ secrets.seeds ∧ crypto.hash seed.bytes = hashSeed ∧
      (wallet.dzs hashSeed = some seed.bytes ∨ ∃ k, masterKey = some k ∧
        wallet.dzs hashSeed = some (crypto.aesEncrypt k hashSeed.bytes seed.bytes))

structure Represents (secrets : Secrets crypto) (masterKey : Option (List UInt8))
    (wallet : CWallet crypto) (vault : Vault crypto) : Prop where
  keyed : ∀ (id : CKeyID) key, vault.keys[id]? = some key → key.getID = id ∧ key ∈ secrets.keys
  keys : KeyRecords secrets wallet vault masterKey
  seeds : SeedRecords secrets wallet vault masterKey

section Refinement

variable {secrets : Secrets crypto} {masterKey : Option (List UInt8)} {wallet : CWallet crypto}
  {vault : Vault crypto}

-- the seeds do not matter to the records of keys
theorem KeyRecords.congr (h : KeyRecords secrets wallet vault masterKey) {wallet' : CWallet crypto}
    {vault' : Vault crypto} (hstore : wallet'.toCCryptoKeyStore = wallet.toCCryptoKeyStore)
    (hmasters : wallet'.mapMasterKeys = wallet.mapMasterKeys) (hkeys : vault'.keys = vault.keys)
    (hstatus : vault'.status = vault.status) (hpassphrase : vault'.passphrase = vault.passphrase) :
    KeyRecords secrets wallet' vault' masterKey := by
  obtain ⟨store, masters, maxID, seedhash, dzs, seedMaster⟩ := wallet'
  obtain ⟨keys, status, passphrase, saved, current, seedMaster'⟩ := vault'
  dsimp only at hstore hmasters hkeys hstatus hpassphrase
  subst hstore hmasters hkeys hstatus hpassphrase
  cases h with
  | plain h₁ h₂ h₃ h₄ h₅ h₆ h₇ => exact .plain h₁ h₂ h₃ h₄ h₅ h₆ h₇
  | keyless h₁ h₂ h₃ h₄ h₅ h₆ h₇ h₈ => exact .keyless h₁ h₂ h₃ h₄ h₅ h₆ h₇ h₈
  | crypted h₁ h₂ h₃ h₄ h₅ h₆ h₇ h₈ => exact .crypted h₁ h₂ h₃ h₄ h₅ h₆ h₇ h₈

theorem KeyRecords.isCrypted_eq (h : KeyRecords secrets wallet vault masterKey) :
    wallet.isCrypted = decide (vault.status ≠ .plain) := by
  rw [CCryptoKeyStore.isCrypted]
  cases h with
  | plain hstatus hcrypted => rw [hcrypted, hstatus]; rfl
  | keyless hstatus hcrypted => rw [hcrypted, hstatus]; rfl
  | crypted hsecret hsize hencrypts hlock =>
    rw [hencrypts.crypted]
    rcases hlock with ⟨hstatus, -⟩ | ⟨hstatus, -⟩
    · rw [hstatus]; rfl
    · rw [hstatus]; rfl

theorem KeyRecords.isLocked_eq (h : KeyRecords secrets wallet vault masterKey) :
    wallet.isLocked = decide (vault.status = .locked) := by
  rw [CCryptoKeyStore.isLocked, CCryptoKeyStore.isCrypted]
  cases h with
  | plain hstatus hcrypted => rw [hcrypted, hstatus]; rfl
  | keyless hstatus hcrypted hmaster => rw [hcrypted, hstatus, hmaster]; rfl
  | crypted hsecret hsize hencrypts hlock =>
    rw [hencrypts.crypted]
    rcases hlock with ⟨hstatus, hmaster⟩ | ⟨hstatus, hmaster⟩
    · rw [hstatus, hmaster]; rfl
    · have hne : wallet.vMasterKey ≠ [] := fun hnil => by
        rw [← hmaster, hnil] at hsize
        cases hsize
      rw [hstatus, List.isEmpty_eq_false_iff.mpr hne]
      rfl

theorem KeyRecords.haveKey_eq (h : KeyRecords secrets wallet vault masterKey) (id : CKeyID) :
    wallet.haveKey id = vault.keys.contains id := by
  rw [CCryptoKeyStore.haveKey, CCryptoKeyStore.isCrypted]
  cases h with
  | plain hstatus hcrypted hmaster hnone hkeys => rw [hcrypted, hkeys]; rfl
  | keyless hstatus hcrypted hmaster hnoPlain hnone hkeys =>
    rw [hcrypted]
    change wallet.mapCryptedKeys.contains id = _
    rw [← TreeMap.isSome_getElem?_eq_contains, ← TreeMap.isSome_getElem?_eq_contains,
      CCryptoKeyStore.getElem?_of_isEmpty hnone, CCryptoKeyStore.getElem?_of_isEmpty hkeys]
    rfl
  | crypted hsecret hsize hencrypts =>
    rw [hencrypts.crypted]
    change wallet.mapCryptedKeys.contains id = _
    rw [← TreeMap.isSome_getElem?_eq_contains, ← TreeMap.isSome_getElem?_eq_contains,
      hencrypts.entries, Option.isSome_map]

theorem KeyRecords.getKey_eq (laws : crypto.Laws) (h : KeyRecords secrets wallet vault masterKey)
    (id : CKeyID) : wallet.getKey id = vault.getKey id := by
  rw [Vault.getKey]
  cases h with
  | plain hstatus hcrypted hmaster hnone hkeys =>
    rw [CCryptoKeyStore.getKey, CCryptoKeyStore.isCrypted, hcrypted, hstatus, hkeys]
    rfl
  | keyless hstatus hcrypted hmaster hnoPlain hnone hkeys =>
    rw [CCryptoKeyStore.getKey, CCryptoKeyStore.isCrypted, hcrypted, hstatus,
      CCryptoKeyStore.getElem?_of_isEmpty hnone]
    rfl
  | crypted hsecret hsize hencrypts hlock =>
    rcases hlock with ⟨hstatus, hmaster⟩ | ⟨hstatus, hmaster⟩
    · rw [hencrypts.getKey_locked hmaster, if_pos hstatus]
    · rw [hencrypts.getKey_unlocked laws hsize hmaster, hstatus]
      rfl

theorem Represents.getSeed_eq (laws : crypto.Laws) (hdistinct : secrets.Distinct)
    (h : Represents secrets masterKey wallet vault) (hashSeed : UInt256) :
    wallet.getDeterministicSeed hashSeed = vault.getSeed hashSeed := by
  have hlocked := h.keys.isLocked_eq
  have hcrypted := h.keys.isCrypted_eq
  rw [CWallet.getDeterministicSeed, Vault.getSeed, hlocked, hcrypted]
  cases hstatus : vault.status with
  | locked => rfl
  | plain =>
    have hnone : masterKey = none := by
      cases h.keys with
      | plain => rfl
      | keyless => rfl
      | crypted _ _ _ hlock =>
        rcases hlock with ⟨h', -⟩ | ⟨h', -⟩
        · rw [hstatus] at h'; cases h'
        · rw [hstatus] at h'; cases h'
    change (wallet.dzs hashSeed).map UInt256.ofBytes = vault.saved hashSeed
    cases hsaved : vault.saved hashSeed with
    | none => rw [h.seeds.unsaved hashSeed hsaved]; rfl
    | some seed =>
      obtain ⟨-, -, hrecord | ⟨k, hk, -⟩⟩ := h.seeds.saved hashSeed seed hsaved
      · rw [hrecord, Option.map_some, UInt256.ofBytes_bytes]
      · rw [hnone] at hk; cases hk
  | unlocked =>
    cases hsaved : vault.saved hashSeed with
    | none => simp [h.seeds.unsaved hashSeed hsaved]
    | some seed =>
      obtain ⟨hseed, hhash, hrecord | ⟨k, rfl, hrecord⟩⟩ := h.seeds.saved hashSeed seed hsaved
      · simp [hrecord, UInt256.ofBytes_bytes, hhash]
      · cases h.keys with
        | crypted hsecret hsize hencrypts hlock =>
          have hmaster : wallet.vMasterKey = k := by
            rcases hlock with ⟨h', -⟩ | ⟨-, h'⟩
            · rw [hstatus] at h'; cases h'
            · exact h'
          have hsame := hdistinct.seed k hsecret seed hseed
          rw [hhash] at hsame
          simp only [hrecord, hmaster, decryptSecret_encrypted laws hsize, Option.map_some,
            UInt256.ofBytes_bytes, Option.bind_eq_bind, Option.bind_some]
          change (if hashSeed = _ then some _ else some seed) = some seed
          split
          · rename_i heq
            exact congrArg some (hsame heq.symm)
          · rfl

theorem Represents.lock (h : Represents secrets masterKey wallet vault) :
    wallet.lock.1 = vault.lock.1 ∧ Represents secrets masterKey wallet.lock.2 vault.lock.2 := by
  obtain ⟨hkeyed, hkeys, hseeds⟩ := h
  have hrecords : ∀ {store : CCryptoKeyStore crypto}, SeedRecords secrets
      { wallet with toCCryptoKeyStore := store, seedMaster := 0 }
      { vault with status := .locked, seedMaster := 0 } masterKey := fun {store} =>
    ⟨hseeds.current, rfl, hseeds.live, hseeds.unsaved, hseeds.saved⟩
  cases hkeys with
  | plain hstatus hcrypted hmaster hnone hkeys hmasters hpassphrase =>
    cases hempty : vault.keys.isEmpty with
    | false =>
      have hvault : vault.lock = (false, vault) := by rw [Vault.lock, if_pos ⟨hstatus, hempty⟩]
      have hwallet : wallet.lock = (false, wallet) := by
        simp [CWallet.lock, CCryptoKeyStore.setCrypted, hcrypted, hkeys, hempty]
      rw [hvault, hwallet]
      exact ⟨rfl, hkeyed, .plain hstatus hcrypted hmaster hnone hkeys hmasters hpassphrase, hseeds⟩
    | true =>
      have hvault : vault.lock = (true, { vault with status := .locked, seedMaster := 0 }) := by
        rw [Vault.lock, if_neg]
        simp [hempty]
      have hwallet : wallet.lock = (true, { wallet with
          toCCryptoKeyStore := { wallet.toCCryptoKeyStore with fUseCrypto := true, vMasterKey := [] },
          seedMaster := 0 }) := by
        simp [CWallet.lock, CCryptoKeyStore.setCrypted, hcrypted, hkeys, hempty]
      rw [hvault, hwallet]
      exact ⟨rfl, hkeyed, .keyless rfl rfl rfl (hkeys ▸ hempty) hnone hempty hmasters hpassphrase,
        hrecords⟩
  | keyless hstatus hcrypted hmaster hnoPlain hnone hkeys hmasters hpassphrase =>
    have hvault : vault.lock = (true, { vault with status := .locked, seedMaster := 0 }) := by
      rw [Vault.lock, if_neg]
      simp [hkeys]
    have hwallet : wallet.lock = (true, { wallet with
        toCCryptoKeyStore := { wallet.toCCryptoKeyStore with vMasterKey := [] },
        seedMaster := 0 }) := by
      simp [CWallet.lock, CCryptoKeyStore.setCrypted, hcrypted]
    rw [hvault, hwallet]
    exact ⟨rfl, hkeyed, .keyless rfl hcrypted rfl hnoPlain hnone hkeys hmasters hpassphrase, hrecords⟩
  | crypted hsecret hsize hencrypts hlock hpassphrase hmem hmasters hwraps =>
    have hvault : vault.lock = (true, { vault with status := .locked, seedMaster := 0 }) := by
      rw [Vault.lock, if_neg]
      rcases hlock with ⟨hstatus, -⟩ | ⟨hstatus, -⟩ <;> simp [hstatus]
    have hwallet : wallet.lock = (true, { wallet with
        toCCryptoKeyStore := { wallet.toCCryptoKeyStore with vMasterKey := [] },
        seedMaster := 0 }) := by
      rw [CWallet.lock, hencrypts.setCrypted]
    rw [hvault, hwallet]
    exact ⟨rfl, hkeyed, .crypted hsecret hsize (hencrypts.of_master [] _) (.inl ⟨rfl, rfl⟩)
      hpassphrase hmem hmasters hwraps, hrecords⟩

theorem Represents.setSeed (h : Represents secrets masterKey wallet vault) {seed : UInt256}
    (hseed : seed ∈ secrets.seeds) :
    (wallet.setMasterSeed seed).1 = (vault.setSeed seed).1 ∧
      Represents secrets masterKey (wallet.setMasterSeed seed).2 (vault.setSeed seed).2 := by
  have hlocked := h.keys.isLocked_eq
  obtain ⟨hkeyed, hkeys, hseeds⟩ := h
  rw [CWallet.setMasterSeed, Vault.setSeed, hlocked]
  by_cases hstatus : vault.status = .locked
  · rw [if_pos hstatus, if_pos (decide_eq_true hstatus)]
    exact ⟨rfl, hkeyed, hkeys, hseeds⟩
  rw [if_neg hstatus, if_neg (by simpa using hstatus)]
  by_cases hzero : seed = 0
  · rw [if_pos hzero, if_pos hzero]
    subst hzero
    exact ⟨rfl, hkeyed, hkeys.congr rfl rfl rfl rfl rfl, hseeds.current, rfl, hseeds.live,
      hseeds.unsaved, hseeds.saved⟩
  rw [if_neg hzero, if_neg hzero]
  -- what the record holds: the seed, or the seed under the master key
  obtain ⟨record, hadd, hrecord⟩ : ∃ record, wallet.addDeterministicSeed seed = some { wallet with
      seedhash := some (crypto.hash seed.bytes)
      dzs := Function.update wallet.dzs (crypto.hash seed.bytes) (some record) } ∧
      (record = seed.bytes ∨ ∃ k, masterKey = some k ∧
        record = crypto.aesEncrypt k (crypto.hash seed.bytes).bytes seed.bytes) := by
    cases hkeys with
    | plain _ hcrypted =>
      refine ⟨seed.bytes, ?_, .inl rfl⟩
      simp [CWallet.addDeterministicSeed, CCryptoKeyStore.isCrypted, hcrypted]
    | keyless hlock => exact absurd hlock hstatus
    | @crypted k hsecret hsize hencrypts hlock =>
      have hmaster : wallet.vMasterKey = k := by
        rcases hlock with ⟨h', -⟩ | ⟨-, h'⟩
        · exact absurd h' hstatus
        · exact h'
      refine ⟨_, ?_, .inr ⟨k, rfl, rfl⟩⟩
      have hopen : wallet.isLocked = false := by simpa [hlocked] using hstatus
      rw [CWallet.addDeterministicSeed, CCryptoKeyStore.isCrypted, hencrypts.crypted, hopen, hmaster,
        encryptSecret_eq hsize]
      rfl
  rw [hadd]
  refine ⟨rfl, hkeyed, hkeys.congr rfl rfl rfl rfl rfl, rfl, rfl, ?_, ?_, ?_⟩
  · rintro hashSeed hcurrent
    cases hcurrent
    exact ⟨seed, Function.update_self ..⟩
  · intro hashSeed hunsaved
    dsimp only at hunsaved ⊢
    by_cases hsame : hashSeed = crypto.hash seed.bytes
    · rw [hsame, Function.update_self] at hunsaved
      cases hunsaved
    · rw [Function.update_of_ne hsame] at hunsaved ⊢
      exact hseeds.unsaved hashSeed hunsaved
  · intro hashSeed seed' hsaved
    dsimp only at hsaved ⊢
    by_cases hsame : hashSeed = crypto.hash seed.bytes
    · subst hsame
      rw [Function.update_self] at hsaved ⊢
      cases hsaved
      refine ⟨hseed, rfl, ?_⟩
      rcases hrecord with rfl | ⟨k, hk, rfl⟩
      · exact .inl rfl
      · exact .inr ⟨k, hk, rfl⟩
    · rw [Function.update_of_ne hsame] at hsaved ⊢
      exact hseeds.saved hashSeed seed' hsaved

theorem CMasterKey.Wraps.setKey {kMasterKey : CMasterKey} {passphrase k : List UInt8}
    (h : kMasterKey.Wraps crypto passphrase k) (strKeyData : List UInt8) :
    CWallet.setKeyFromPassphrase crypto strKeyData kMasterKey =
      some (crypto.bytesToKey strKeyData kMasterKey.vchSalt kMasterKey.nDeriveIterations) := by
  have hiterations := h.iterations
  rw [CWallet.setKeyFromPassphrase, CCrypter.setKeyFromPassphrase, if_neg, if_pos h.method]
  rintro (hlow | hsalt)
  · omega
  · exact hsalt h.salt

theorem CMasterKey.Wraps.decrypt (laws : crypto.Laws) {kMasterKey : CMasterKey}
    {passphrase k : List UInt8} (h : kMasterKey.Wraps crypto passphrase k) :
    crypto.aesDecrypt
      (crypto.bytesToKey passphrase kMasterKey.vchSalt kMasterKey.nDeriveIterations).1
      (crypto.bytesToKey passphrase kMasterKey.vchSalt kMasterKey.nDeriveIterations).2
      kMasterKey.vchCryptedKey = some k := by
  obtain ⟨hkey, hIV⟩ := laws.derived_size passphrase kMasterKey.vchSalt kMasterKey.nDeriveIterations
  rw [h.crypted, laws.decrypt_encrypt _ _ _ hkey hIV]

theorem CMasterKey.wraps_wrapMasterKey (crypto : KeyCrypto) (kMasterKey : CMasterKey)
    (passphrase k : List UInt8)
    (hsalt : kMasterKey.vchSalt.length = WALLET_CRYPTO_SALT_SIZE)
    (hiterations : 1 ≤ kMasterKey.nDeriveIterations) (hmethod : kMasterKey.nDerivationMethod = 0) :
    ∃ wrapped, CWallet.wrapMasterKey crypto passphrase k kMasterKey = some wrapped ∧
      wrapped.Wraps crypto passphrase k := by
  let crypter := crypto.bytesToKey passphrase kMasterKey.vchSalt kMasterKey.nDeriveIterations
  refine ⟨{ kMasterKey with vchCryptedKey := crypto.aesEncrypt crypter.1 crypter.2 k }, ?_,
    hsalt, hiterations, hmethod, rfl⟩
  rw [CWallet.wrapMasterKey, CWallet.setKeyFromPassphrase, CCrypter.setKeyFromPassphrase, if_neg,
    if_pos hmethod]
  · rfl
  rintro (hlow | hother)
  · omega
  · exact hother hsalt

theorem CWallet.deriveIterations_pos (nMeasured : Nat) : 1 ≤ deriveIterations nMeasured := by
  rw [deriveIterations]
  split
  · decide
  · omega

theorem CWallet.addDeterministicSeed_masterKeys {seed : UInt256} {wallet' : CWallet crypto}
    (h : wallet.addDeterministicSeed seed = some wallet') :
    wallet'.mapMasterKeys = wallet.mapMasterKeys := by
  rw [addDeterministicSeed] at h
  dsimp only at h
  split at h
  · split at h
    · obtain ⟨record, -, rfl⟩ := Option.map_eq_some_iff.mp h
      rfl
    · cases h
  · cases h
    rfl

theorem CWallet.setMasterSeed_masterKeys (wallet : CWallet crypto) (seed : UInt256) :
    (wallet.setMasterSeed seed).2.mapMasterKeys = wallet.mapMasterKeys := by
  rw [setMasterSeed]
  split
  · rfl
  split
  · rfl
  split
  · rfl
  · rename_i wallet' h
    change wallet'.mapMasterKeys = _
    exact addDeterministicSeed_masterKeys h

theorem Represents.readSeed_eq (laws : crypto.Laws) (hdistinct : secrets.Distinct)
    (h : Represents secrets masterKey wallet vault) (hopen : vault.status ≠ .locked)
    (newSeed : UInt256) :
    wallet.readSeed newSeed = some ((vault.current.bind vault.saved).getD newSeed) := by
  rw [CWallet.readSeed, h.seeds.current]
  cases hcurrent : vault.current with
  | none => rfl
  | some hashSeed =>
    obtain ⟨seed, hsaved⟩ := h.seeds.live hashSeed hcurrent
    dsimp only
    rw [h.getSeed_eq laws hdistinct, Vault.getSeed, if_neg hopen, Option.bind_some, hsaved]
    rfl

-- What the right master key does to a locked wallet.
theorem Represents.unlockWith_self (laws : crypto.Laws) (hdistinct : secrets.Distinct) {k : List UInt8}
    (h : Represents secrets (some k) wallet vault) (hkeys : vault.keys.isEmpty = false)
    {newSeed : UInt256} (hnew : newSeed ∈ secrets.seeds) :
    ∃ wallet', wallet.unlockWith newSeed k = some (true, wallet') ∧
      wallet'.mapMasterKeys = wallet.mapMasterKeys ∧
      Represents secrets (some k) wallet' (vault.opened newSeed) := by
  obtain ⟨hkeyed, hrecords, hseeds⟩ := h
  cases hrecords with
  | crypted hsecret hsize hencrypts hlock hpassphrase hmem hmasters hwraps =>
  have hopen : Represents secrets (some k)
      { wallet with toCCryptoKeyStore := { wallet.toCCryptoKeyStore with
        vMasterKey := k, fDecryptionThoroughlyChecked := true } }
      { vault with status := .unlocked } :=
    ⟨hkeyed, .crypted hsecret hsize (hencrypts.of_master k true) (.inr ⟨rfl, rfl⟩) hpassphrase hmem
      hmasters hwraps, hseeds.current, hseeds.master, hseeds.live, hseeds.unsaved, hseeds.saved⟩
  have hseed : (vault.current.bind vault.saved).getD newSeed ∈ secrets.seeds := by
    cases hsaved : vault.current.bind vault.saved with
    | none => exact hnew
    | some seed =>
      obtain ⟨hashSeed, -, hsaved⟩ := Option.bind_eq_some_iff.mp hsaved
      exact (hseeds.saved hashSeed seed hsaved).1
  refine ⟨_, ?_, ?_, (hopen.setSeed hseed).2⟩
  · rw [CWallet.unlockWith, hencrypts.unlockKeys_self laws hsize hkeys]
    change (match CWallet.readSeed _ newSeed with
      | none => _
      | some nSeed => _) = _
    rw [hopen.readSeed_eq laws hdistinct (Vault.Status.noConfusion ·)]
  · exact CWallet.setMasterSeed_masterKeys _ _

theorem Represents.unlockWith_other (hdistinct : secrets.Distinct) {k vMasterKeyIn : List UInt8}
    (h : Represents secrets (some k) wallet vault) (newSeed : UInt256)
    (hother : vMasterKeyIn ≠ k ∨ vault.keys.isEmpty = true) :
    wallet.unlockWith newSeed vMasterKeyIn = some (false, wallet) := by
  obtain ⟨hkeyed, hrecords, hseeds⟩ := h
  cases hrecords with
  | crypted hsecret hsize hencrypts =>
  have hfail : wallet.unlockKeys vMasterKeyIn = some (false, wallet.toCCryptoKeyStore) := by
    refine hencrypts.unlockKeys_other fun id key hkey => ?_
    rcases hother with hne | hempty
    · exact hdistinct.masterKey k hsecret key (hkeyed id key hkey).2 vMasterKeyIn hne
    · rw [CCryptoKeyStore.getElem?_of_isEmpty hempty] at hkey
      cases hkey
  rw [CWallet.unlockWith, hfail]
  rfl

-- What another passphrase decrypts, and what any does where there is no key to try.
theorem Represents.unlockWith_refused (hdistinct : secrets.Distinct) {k : List UInt8}
    (h : Represents secrets (some k) wallet vault) (newSeed : UInt256)
    {p passphrase vMasterKeyIn : List UInt8} (hk : k ∈ secrets.masterKeys)
    (hpassphrase : vault.passphrase = some p) (hp : p ∈ secrets.passphrases)
    (hmem : passphrase ∈ secrets.passphrases) (hnot : ¬ vault.Opens passphrase)
    {kMasterKey : CMasterKey} (hwraps : kMasterKey.Wraps crypto p k)
    (hdecrypt : crypto.aesDecrypt
      (crypto.bytesToKey passphrase kMasterKey.vchSalt kMasterKey.nDeriveIterations).1
      (crypto.bytesToKey passphrase kMasterKey.vchSalt kMasterKey.nDeriveIterations).2
      kMasterKey.vchCryptedKey = some vMasterKeyIn) :
    wallet.unlockWith newSeed vMasterKeyIn = some (false, wallet) := by
  refine h.unlockWith_other hdistinct newSeed ?_
  by_cases hsame : passphrase = p
  · right
    subst hsame
    simpa [Vault.Opens, hpassphrase] using hnot
  · left
    rintro rfl
    rw [hwraps.crypted] at hdecrypt
    exact hdistinct.passphrase _ hk p hp passphrase hmem hsame _ _ hdecrypt

theorem Represents.unlock (laws : crypto.Laws) (hdistinct : secrets.Distinct)
    (h : Represents secrets masterKey wallet vault) {passphrase : List UInt8} {newSeed : UInt256}
    (hmem : passphrase ∈ secrets.passphrases) (hnew : newSeed ∈ secrets.seeds) :
    ∃ wallet', wallet.unlock passphrase newSeed =
        some ((vault.unlock passphrase newSeed).1, wallet') ∧
      Represents secrets masterKey wallet' (vault.unlock passphrase newSeed).2 := by
  rw [CWallet.unlock, Vault.unlock, h.keys.isLocked_eq]
  by_cases hstatus : vault.status = .locked
  · rw [if_neg (not_not.mpr hstatus), if_neg (by simpa using hstatus)]
    cases hrecords : h.keys with
    | plain hplain => rw [hstatus] at hplain; cases hplain
    | keyless _ _ _ _ _ hkeys hmasters hpassphrase =>
      have hnot : ¬ vault.Opens passphrase := fun hopens => by
        rw [hopens.1] at hpassphrase
        cases hpassphrase
      rw [if_neg hnot, hmasters]
      exact ⟨wallet, rfl, h⟩
    | @crypted k hsecret hsize hencrypts hlock p hpassphrase hp nID kMasterKey hmasters hwraps =>
      rw [hmasters, CWallet.unlockFrom, hwraps.setKey]
      dsimp only
      by_cases hopens : vault.Opens passphrase
      · obtain rfl : passphrase = p := Option.some.inj (hopens.1.symm.trans hpassphrase)
        obtain ⟨wallet', hunlock, -, h'⟩ := h.unlockWith_self laws hdistinct hopens.2 hnew
        rw [if_pos hopens, hwraps.decrypt laws]
        exact ⟨wallet', by simp [hunlock], h'⟩
      · rw [if_neg hopens]
        refine ⟨wallet, ?_, h⟩
        split
        · rfl
        · rename_i vMasterKeyIn hdecrypt
          rw [h.unlockWith_refused hdistinct newSeed hsecret hpassphrase hp hmem hopens hwraps hdecrypt]
          rfl
  · rw [if_pos hstatus, if_pos (by simpa using hstatus)]
    exact ⟨wallet, rfl, h⟩

theorem Represents.addKey (h : Represents secrets masterKey wallet vault) {key : CKey crypto}
    (hmem : key ∈ secrets.keys) :
    (wallet.addKeyPubKey key).1 = (vault.addKey key).1 ∧
      Represents secrets masterKey (wallet.addKeyPubKey key).2 (vault.addKey key).2 := by
  have hlocked := h.keys.isLocked_eq
  have hcrypted := h.keys.isCrypted_eq
  obtain ⟨hkeyed, hkeys, hseeds⟩ := h
  have hkeyed' : ∀ (id : CKeyID) key', (vault.keys.insert key.getID key)[id]? = some key' →
      key'.getID = id ∧ key' ∈ secrets.keys := by
    intro id key' hget
    rw [TreeMap.getElem?_insert] at hget
    split at hget
    · rename_i hid
      cases hget
      exact ⟨LawfulEqOrd.compare_eq_iff_eq.mp hid, hmem⟩
    · exact hkeyed id key' hget
  have hrefused : vault.status = .locked →
      wallet.addKeyPubKey key = (false, wallet) ∧ vault.addKey key = (false, vault) := by
    intro hstatus
    rw [CWallet.addKeyPubKey, CCryptoKeyStore.addKeyPubKey, Vault.addKey, hlocked, hcrypted, hstatus]
    exact ⟨rfl, rfl⟩
  have hvault : vault.status ≠ .locked →
      vault.addKey key = (true, { vault with keys := vault.keys.insert key.getID key }) :=
    fun hstatus => by rw [Vault.addKey, if_neg hstatus]
  cases hkeys with
  | plain hstatus hplain hmaster hnone hkeys hmasters hpassphrase =>
    have hwallet : wallet.addKeyPubKey key = (true, { wallet with
        toCCryptoKeyStore := { wallet.toCCryptoKeyStore with
          mapKeys := wallet.mapKeys.insert key.getID key } }) := by
      rw [CWallet.addKeyPubKey, CCryptoKeyStore.addKeyPubKey, hcrypted, hstatus]
      rfl
    rw [hwallet, hvault (by rw [hstatus]; decide)]
    exact ⟨rfl, hkeyed', .plain hstatus hplain hmaster hnone (by rw [← hkeys]) hmasters hpassphrase,
      hseeds.current, hseeds.master, hseeds.live, hseeds.unsaved, hseeds.saved⟩
  | keyless hstatus h₂ h₃ h₄ h₅ h₆ h₇ h₈ =>
    rw [(hrefused hstatus).1, (hrefused hstatus).2]
    exact ⟨rfl, hkeyed, .keyless hstatus h₂ h₃ h₄ h₅ h₆ h₇ h₈, hseeds⟩
  | @crypted k hsecret hsize hencrypts hlock _ hpassphrase hp _ _ hmasters hwraps =>
    rcases hlock with ⟨hstatus, hmaster⟩ | ⟨hstatus, hmaster⟩
    · rw [(hrefused hstatus).1, (hrefused hstatus).2]
      exact ⟨rfl, hkeyed, .crypted hsecret hsize hencrypts (.inl ⟨hstatus, hmaster⟩) hpassphrase hp
        hmasters hwraps, hseeds⟩
    · have hwallet : wallet.addKeyPubKey key = (true, { wallet with
          toCCryptoKeyStore := { wallet.toCCryptoKeyStore with
            mapCryptedKeys :=
              wallet.mapCryptedKeys.insert key.getID (cryptedEntry crypto k key) } }) := by
        rw [CWallet.addKeyPubKey, CCryptoKeyStore.addKeyPubKey, hcrypted, hlocked, hstatus, hmaster,
          encryptSecret_eq hsize, Option.bind_some, CCryptoKeyStore.addCryptedKey_eq hencrypts.crypted]
        rfl
      rw [hwallet, hvault (by rw [hstatus]; decide)]
      exact ⟨rfl, hkeyed', .crypted hsecret hsize (hencrypts.insert key) (.inr ⟨hstatus, hmaster⟩)
        hpassphrase hp hmasters hwraps, hseeds.current, hseeds.master, hseeds.live, hseeds.unsaved,
        hseeds.saved⟩

theorem Vault.status_addKey (vault : Vault crypto) (key : CKey crypto) :
    (vault.addKey key).2.status = vault.status := by
  rw [addKey]
  split <;> rfl

theorem Vault.addKeys_locked (hlocked : vault.status = .locked) (keys : List (CKey crypto)) :
    vault.addKeys keys = vault := by
  induction keys with
  | nil => rfl
  | cons key keys ih =>
    rw [addKeys, List.foldl_cons, addKey, if_pos hlocked]
    exact ih

theorem Represents.generateKeys (h : Represents secrets masterKey wallet vault)
    (hopen : vault.status ≠ .locked) {keys : List (CKey crypto)}
    (hmem : ∀ key ∈ keys, key ∈ secrets.keys) :
    ∃ wallet', CWallet.generateKeys keys wallet = some wallet' ∧
      Represents secrets masterKey wallet' (vault.addKeys keys) := by
  induction keys generalizing wallet vault with
  | nil => exact ⟨wallet, rfl, h⟩
  | cons key keys ih =>
    obtain ⟨hkey, hrest⟩ := List.forall_mem_cons.mp hmem
    obtain ⟨hresult, hadded⟩ := h.addKey hkey
    rw [Vault.addKey, if_neg hopen] at hresult
    obtain ⟨wallet', hrun, h'⟩ := ih hadded (vault.status_addKey key ▸ hopen) hrest
    refine ⟨wallet', ?_, h'⟩
    rw [CWallet.generateKeys, ← Prod.mk.eta (p := wallet.addKeyPubKey key), hresult]
    exact hrun

theorem Represents.newKeyPool (h : Represents secrets masterKey wallet vault)
    {keys : List (CKey crypto)} (hmem : ∀ key ∈ keys, key ∈ secrets.keys) :
    ∃ wallet', CWallet.newKeyPool keys wallet = some wallet' ∧
      Represents secrets masterKey wallet' (vault.addKeys keys) := by
  rw [CWallet.newKeyPool, h.keys.isLocked_eq]
  by_cases hstatus : vault.status = .locked
  · rw [if_pos (decide_eq_true hstatus), Vault.addKeys_locked hstatus]
    exact ⟨wallet, rfl, h⟩
  · rw [if_neg (by simpa using hstatus)]
    exact h.generateKeys hstatus hmem

theorem Represents.encryptWallet (laws : crypto.Laws) (hdistinct : secrets.Distinct)
    (h : Represents secrets masterKey wallet vault) {passphrase : List UInt8}
    (vMasterKey : RandBytes WALLET_CRYPTO_KEY_SIZE) (vchSalt : RandBytes WALLET_CRYPTO_SALT_SIZE)
    (nMeasured : Nat) {newKeys : List (CKey crypto)} {newSeed : UInt256}
    (hp : passphrase ∈ secrets.passphrases) (hmaster : vMasterKey.1 ∈ secrets.masterKeys)
    (hkeys : ∀ key ∈ newKeys, key ∈ secrets.keys) (hnew : newSeed ∈ secrets.seeds) :
    ∃ masterKey' wallet', wallet.encryptWallet passphrase vMasterKey vchSalt nMeasured newKeys newSeed =
        some ((vault.encrypt passphrase newKeys newSeed).1, wallet') ∧
      Represents secrets masterKey' wallet' (vault.encrypt passphrase newKeys newSeed).2 := by
  rw [CWallet.encryptWallet, Vault.encrypt, h.keys.isCrypted_eq]
  by_cases hstatus : vault.status = .plain
  · rw [if_neg (by simpa using hstatus), if_neg (not_not.mpr hstatus)]
    obtain ⟨kMasterKey, hwrap, hwraps⟩ := CMasterKey.wraps_wrapMasterKey crypto
      ⟨[], vchSalt, 0, CWallet.deriveIterations nMeasured⟩ passphrase vMasterKey
      vchSalt.2 (CWallet.deriveIterations_pos nMeasured) rfl
    rw [hwrap]
    obtain ⟨hkeyed, hrecords, hseeds⟩ := h
    cases hrecords with
    | keyless hlocked => rw [hstatus] at hlocked; cases hlocked
    | crypted _ _ _ hlock =>
      rcases hlock with ⟨hlocked, -⟩ | ⟨hlocked, -⟩
      · rw [hstatus] at hlocked; cases hlocked
      · rw [hstatus] at hlocked; cases hlocked
    | plain _ hplain hempty hnone hsame hmasters _ =>
      obtain ⟨store, hencrypt, hencrypts, hstore⟩ := CCryptoKeyStore.encryptKeys_spec
        wallet.toCCryptoKeyStore vMasterKey.2 hplain hnone
        (fun id key hkey => (hkeyed id key (hsame ▸ hkey)).1)
      rw [hsame] at hencrypts
      -- all keys are under the master key, which is not in memory
      have hsealed : Represents secrets (some vMasterKey.1)
          { wallet with
            toCCryptoKeyStore := store
            mapMasterKeys := wallet.mapMasterKeys ++ [(wallet.nMasterKeyMaxID + 1, kMasterKey)]
            nMasterKeyMaxID := wallet.nMasterKeyMaxID + 1 }
          { vault with status := .locked, passphrase := some passphrase } := by
        refine ⟨hkeyed, .crypted hmaster vMasterKey.2 hencrypts
          (.inl ⟨rfl, hstore.trans hempty⟩) rfl hp (n := wallet.nMasterKeyMaxID + 1) ?_ hwraps,
          hseeds.current, hseeds.master, hseeds.live, hseeds.unsaved, fun hashSeed seed hsaved => ?_⟩
        · rw [hmasters]
          rfl
        · obtain ⟨hseed, hhash, hrecord | ⟨k, hk, -⟩⟩ := hseeds.saved hashSeed seed hsaved
          · exact ⟨hseed, hhash, .inl hrecord⟩
          · cases hk
      have hlocked := hsealed.lock.2
      have hvault : ({ vault with status := .locked, passphrase := some passphrase } :
          Vault crypto).lock.2 = { vault with
            status := .locked, passphrase := some passphrase, seedMaster := 0 } := by
        rw [Vault.lock, if_neg]
        simp
      rw [hvault] at hlocked
      obtain ⟨unlocked, hunlock, hopened⟩ := hlocked.unlock laws hdistinct hp hnew
      obtain ⟨grown, hpool, hgrown⟩ := hopened.newKeyPool hkeys
      refine ⟨_, _, ?_, hgrown.lock.2⟩
      simp only [hencrypt, Option.bind_eq_bind, Option.bind_some, hunlock, hpool]
  · rw [if_pos (by simpa using hstatus), if_pos hstatus]
    exact ⟨masterKey, wallet, rfl, h⟩

theorem Represents.changePassphrase (laws : crypto.Laws) (hdistinct : secrets.Distinct)
    (h : Represents secrets masterKey wallet vault) {old new : List UInt8} (nMeasured : Nat)
    {newSeed : UInt256} (hold : old ∈ secrets.passphrases) (hnewp : new ∈ secrets.passphrases)
    (hnew : newSeed ∈ secrets.seeds) :
    ∃ wallet', wallet.changeWalletPassphrase old new nMeasured newSeed =
        some ((vault.changePassphrase old new newSeed).1, wallet') ∧
      Represents secrets masterKey wallet' (vault.changePassphrase old new newSeed).2 := by
  have hlocked := h.lock.2
  rw [CWallet.changeWalletPassphrase, Vault.changePassphrase, h.keys.isLocked_eq]
  generalize wallet.lock.2 = closed at hlocked ⊢
  generalize vault.lock.2 = shut at hlocked ⊢
  dsimp only
  cases hrecords : hlocked.keys with
  | plain _ _ _ _ _ hmasters hpassphrase =>
    have hnot : ¬ shut.Opens old := fun hopens => by rw [hopens.1] at hpassphrase; cases hpassphrase
    rw [if_neg hnot, hmasters]
    exact ⟨closed, rfl, hlocked⟩
  | keyless _ _ _ _ _ _ hmasters hpassphrase =>
    have hnot : ¬ shut.Opens old := fun hopens => by rw [hopens.1] at hpassphrase; cases hpassphrase
    rw [if_neg hnot, hmasters]
    exact ⟨closed, rfl, hlocked⟩
  | @crypted k hsecret hsize hencrypts hlock p hpassphrase hp nID kMasterKey hmasters hwraps =>
    rw [hmasters, CWallet.changeFrom, hwraps.setKey]
    dsimp only
    by_cases hopens : shut.Opens old
    · obtain rfl : old = p := Option.some.inj (hopens.1.symm.trans hpassphrase)
      obtain ⟨opened, hunlock, hmasters', hopened⟩ := hlocked.unlockWith_self laws hdistinct hopens.2 hnew
      rw [if_pos hopens, hwraps.decrypt laws]
      obtain ⟨kMasterKey', hwrap, hwraps'⟩ := CMasterKey.wraps_wrapMasterKey crypto
        { kMasterKey with nDeriveIterations := CWallet.deriveIterations nMeasured } new k
        hwraps.salt (CWallet.deriveIterations_pos nMeasured) hwraps.method
      have hchanged : Represents secrets (some k) (opened.putMasterKey nID kMasterKey')
          { shut.opened newSeed with passphrase := some new } := by
        obtain ⟨hkeyed, hkeys, hseeds⟩ := hopened
        refine ⟨hkeyed, ?_, hseeds.current, hseeds.master, hseeds.live, hseeds.unsaved, hseeds.saved⟩
        cases hkeys with
        | crypted hsecret hsize hencrypts hlock =>
          refine .crypted hsecret hsize hencrypts hlock rfl hnewp (n := nID) ?_ hwraps'
          rw [CWallet.putMasterKey, hmasters', hmasters]
          simp
      dsimp only
      rw [hunlock]
      simp only [Option.bind_eq_bind, Option.bind_some, hwrap, Bool.not_true, Bool.false_eq_true,
        if_false]
      by_cases hwas : vault.status = .locked
      · rw [if_pos hwas, if_pos (decide_eq_true hwas)]
        exact ⟨_, rfl, hchanged.lock.2⟩
      · rw [if_neg hwas, if_neg (by simpa using hwas)]
        exact ⟨_, rfl, hchanged⟩
    · rw [if_neg hopens]
      refine ⟨closed, ?_, hlocked⟩
      split
      · rfl
      · rename_i vMasterKeyIn hdecrypt
        rw [hlocked.unlockWith_refused hdistinct newSeed hsecret hpassphrase hp hold hopens hwraps hdecrypt]
        rfl

theorem Represents.call (laws : crypto.Laws) (hdistinct : secrets.Distinct)
    (h : Represents secrets masterKey wallet vault) {c : WalletCall crypto} (hc : c.Within secrets) :
    ∃ wallet', wallet.call c = some ((vault.call c).1, wallet') ∧
      ∃ masterKey', Represents secrets masterKey' wallet' (vault.call c).2 := by
  cases c with
  | addKeyPubKey secret =>
    obtain ⟨hresult, h'⟩ := h.addKey hc
    exact ⟨_, by rw [CWallet.call, Vault.call, ← hresult], _, h'⟩
  | encryptWallet passphrase vMasterKey vchSalt nMeasured newKeys newSeed =>
    obtain ⟨hp, hmaster, hkeys, hnew⟩ := hc
    obtain ⟨masterKey', wallet', hrun, h'⟩ :=
      h.encryptWallet laws hdistinct vMasterKey vchSalt nMeasured hp hmaster hkeys hnew
    exact ⟨wallet', hrun, masterKey', h'⟩
  | lock => exact ⟨_, by rw [CWallet.call, Vault.call, ← h.lock.1], _, h.lock.2⟩
  | unlock passphrase newSeed =>
    obtain ⟨wallet', hrun, h'⟩ := h.unlock laws hdistinct hc.1 hc.2
    exact ⟨wallet', hrun, _, h'⟩
  | changeWalletPassphrase old new nMeasured newSeed =>
    obtain ⟨wallet', hrun, h'⟩ := h.changePassphrase laws hdistinct nMeasured hc.1 hc.2.1 hc.2.2
    exact ⟨wallet', hrun, _, h'⟩
  | setMasterSeed seed =>
    obtain ⟨hresult, h'⟩ := h.setSeed hc
    exact ⟨_, by rw [CWallet.call, Vault.call, ← hresult], _, h'⟩

end Refinement

def CWallet.new (crypto : KeyCrypto) : CWallet crypto where
  mapKeys := ∅
  mapCryptedKeys := ∅
  vMasterKey := []
  fUseCrypto := false
  fDecryptionThoroughlyChecked := false
  mapMasterKeys := []
  nMasterKeyMaxID := 0
  seedhash := none
  dzs := fun _ => none
  seedMaster := 0

def Vault.new (crypto : KeyCrypto) : Vault crypto where
  keys := ∅
  status := .plain
  passphrase := none
  saved := fun _ => none
  current := none
  seedMaster := 0

-- All that can be seen of the wallet, and what the comments of `fUseCrypto` ask of it.
structure CWallet.Shows (wallet : CWallet crypto) (vault : Vault crypto) : Prop where
  crypted : wallet.isCrypted = decide (vault.status ≠ .plain)
  locked : wallet.isLocked = decide (vault.status = .locked)
  haveKey : ∀ id, wallet.haveKey id = vault.keys.contains id
  getKey : ∀ id, wallet.getKey id = vault.getKey id
  getSeed : ∀ hashSeed, wallet.getDeterministicSeed hashSeed = vault.getSeed hashSeed
  seedMaster : wallet.seedMaster = vault.seedMaster
  noPlain : wallet.fUseCrypto = true → wallet.mapKeys.isEmpty = true
  noMaster : wallet.fUseCrypto = false → wallet.vMasterKey = []

theorem Represents.shows (laws : crypto.Laws) {secrets : Secrets crypto}
    (hdistinct : secrets.Distinct) {masterKey : Option (List UInt8)} {wallet : CWallet crypto}
    {vault : Vault crypto} (h : Represents secrets masterKey wallet vault) : wallet.Shows vault where
  crypted := h.keys.isCrypted_eq
  locked := h.keys.isLocked_eq
  haveKey := h.keys.haveKey_eq
  getKey := h.keys.getKey_eq laws
  getSeed := h.getSeed_eq laws hdistinct
  seedMaster := h.seeds.master
  noPlain hcrypted := by
    cases h.keys with
    | plain _ hplain => rw [hplain] at hcrypted; cases hcrypted
    | keyless _ _ _ hnoPlain => exact hnoPlain
    | crypted _ _ hencrypts => exact hencrypts.noPlain
  noMaster hplain := by
    cases h.keys with
    | plain _ _ hmaster => exact hmaster
    | keyless _ hcrypted => rw [hplain] at hcrypted; cases hcrypted
    | crypted _ _ hencrypts => exact absurd (hplain.symm.trans hencrypts.crypted) (by decide)

-- A cipher that puts the key and the initialisation vector before the text.
def tagCrypto : KeyCrypto where
  check _ := true
  pubKeyCreate vch fCompressed := if fCompressed then 2 :: vch else 4 :: (vch ++ vch)
  hash160 vch := BitVec.ofNat 160 (Nat.ofDigits 256 (vch.map UInt8.toNat))
  hash vch := UInt256.ofBytes vch
  aesEncrypt chKey chIV vch := chKey ++ chIV ++ vch
  aesDecrypt chKey chIV vch :=
    if vch.take 64 = chKey ++ chIV then some (vch.drop 64) else none
  bytesToKey strKeyData _ _ := ((strKeyData ++ List.replicate 32 0).take 32, List.replicate 32 0)

theorem tagCrypto_laws : tagCrypto.Laws where
  decrypt_encrypt chKey chIV vchPlaintext hkey hIV := by
    have hlength : (chKey ++ chIV).length = 64 := by rw [List.length_append, hkey, hIV]
    simp only [tagCrypto, ← hlength, List.take_left, List.drop_left, if_true]
  derived_size strKeyData chSalt nRounds := by simp [tagCrypto]
  compressed key := by
    obtain ⟨vch, fCompressed, hsize, -⟩ := key
    cases fCompressed with
    | false => simp [CKey.getPubKey, tagCrypto, CPubKey.isCompressed, hsize]
    | true => simp [CKey.getPubKey, tagCrypto, CPubKey.isCompressed, hsize]

def tagKey (b : UInt8) : CKey tagCrypto := ⟨List.replicate 32 b, true, rfl, rfl⟩

def tagSecrets : Secrets tagCrypto where
  keys := Set.univ
  seeds := {5, 6}
  passphrases := {[1], [2]}
  masterKeys := {List.replicate 32 9}

theorem tagSecrets_distinct : tagSecrets.Distinct where
  masterKey masterKey hmaster key _ vMasterKeyIn hne := by
    obtain rfl : masterKey = List.replicate 32 9 := hmaster
    rw [CCryptoKeyStore.opensKey]
    by_cases hsize : vMasterKeyIn.length = 32
    · have htake : ∀ nIV : UInt256, (List.replicate 32 (9 : UInt8) ++ nIV.bytes ++ key.vch).take 64 =
          List.replicate 32 9 ++ nIV.bytes := fun nIV => List.take_left' (by
        rw [List.length_append, List.length_replicate, nIV.length_bytes])
      rw [decryptSecret_eq hsize]
      simp only [cryptedEntry, tagCrypto, htake]
      rw [if_neg]
      intro heq
      exact hne (List.append_inj_left heq (by rw [List.length_replicate, hsize])).symm
    · rw [decryptSecret, CCrypter.setKey, if_pos (.inl hsize)]
      rfl
  passphrase masterKey hmaster p hp p' hp' hne chSalt nRounds := by
    obtain rfl : masterKey = List.replicate 32 9 := hmaster
    rcases hp with rfl | rfl
    · rcases hp' with rfl | rfl
      · exact absurd rfl hne
      · simp only [tagCrypto]; decide
    · rcases hp' with rfl | rfl
      · simp only [tagCrypto]; decide
      · exact absurd rfl hne
  seed masterKey hmaster seed hseed := by
    obtain rfl : masterKey = List.replicate 32 9 := hmaster
    rcases hseed with rfl | rfl
    · decide +kernel
    · decide +kernel

def tagCalls : List (WalletCall tagCrypto) :=
  [.addKeyPubKey (tagKey 1), .setMasterSeed 5,
    .encryptWallet [1] ⟨List.replicate 32 9, rfl⟩ ⟨List.replicate 8 0, rfl⟩ 0 [tagKey 2] 6,
    .unlock [2] 6, .unlock [1] 6, .changeWalletPassphrase [1] [2] 30000 6, .lock, .unlock [1] 6,
    .unlock [2] 6, .addKeyPubKey (tagKey 3)]

end AnkerNode
