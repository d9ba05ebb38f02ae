import AnkerNode.Lib.TreeMaps
import AnkerNode.Serialize.TransactionFormat
import Mathlib.Data.Finset.Max
import Mathlib.Data.List.Find

namespace AnkerNode

open ByteStream TreeFill

structure CAlias where
  pubKey : List UInt8 := []
  sigTime : Int
  hash : List UInt8 := []
deriving DecidableEq

-- `is >> str`: what the string holds then, and what is left to read unless it throws
def readString (str is : List UInt8) : List UInt8 × Option (List UInt8) :=
  match (readCompactSize MAX_SIZE).run is with
  | none => (str, none)
  | some (nSize, is) =>
    match (readBytes nSize).run is with
    | none => ((str ++ List.replicate nSize 0).take nSize, none)
    | some (bytes, is) => (bytes, some is)

namespace CAlias

def serialize (entry : CAlias) : List UInt8 :=
  writeLE 8 (entry.sigTime % 2 ^ 64).toNat ++ serializeBytes entry.pubKey ++
    serializeBytes entry.hash

-- The fields that are read before the stream throws keep their new values.
def unserialize (entry : CAlias) (is : List UInt8) : CAlias × Option (List UInt8) :=
  match (readLE 8).run is with
  | none => (entry, none)
  | some (sigTime, is) =>
    let entry := { entry with sigTime := CTxOutCompressor.toInt64 sigTime }
    match readString entry.pubKey is with
    | (pubKey, none) => ({ entry with pubKey := pubKey }, none)
    | (pubKey, some is) =>
      let hash := readString entry.hash is
      ({ entry with pubKey := pubKey, hash := hash.1 }, hash.2)

-- what a peer can send
def Received (entry : CAlias) : Prop :=
  ∃ before is rest, unserialize before is = (entry, some rest)

end CAlias

abbrev AliasMap := Std.TreeMap (List UInt8) CAlias

-- Under the bytes of its keys, the bytes of its values.
abbrev CAliasesDB := Std.TreeMap (List UInt8) (List UInt8)

namespace CAliasesDB

def writeKey (db : CAliasesDB) (hash : List UInt8) (entry : CAlias) : CAliasesDB :=
  db.insert (serializeBytes hash) entry.serialize

def keyExists (db : CAliasesDB) (hash : List UInt8) : Bool := db.contains (serializeBytes hash)

-- `now` is the time at which the object is made.
def readKey (db : CAliasesDB) (now : Int) (hash : List UInt8) : CAlias :=
  match db[serializeBytes hash]? with
  | none => { sigTime := now }
  | some ssValue => (CAlias.unserialize { sigTime := now } ssValue).1

-- `getTime` gives the time when the iterator stands on a key. No key of the database is empty.
def readAll (db : CAliasesDB) (getTime : List UInt8 → Int) (mapAliases : AliasMap) : AliasMap :=
  db.keys.foldl (fun mapAliases key =>
    mapAliases.insertIfNew (key.drop 1) (db.readKey (getTime key) (key.drop 1))) mapAliases

-- an `AANS` message
def processMessage (db : CAliasesDB) (now : Int) (vRecv : List UInt8) : CAliasesDB :=
  match CAlias.unserialize { sigTime := now } vRecv with
  | (_, none) => db
  | (entry, some _) => if db.keyExists entry.hash then db else db.writeKey entry.hash entry

def writeAll (writes : List (List UInt8 × CAlias)) : CAliasesDB :=
  writes.foldl (fun db w => db.writeKey w.1 w.2) ∅

-- The listing has the keys that were written, each with the last alias under it.
def ListsWritten (getTime : List UInt8 → Int) (writes : List (List UInt8 × CAlias)) : Prop :=
  ∀ key : List UInt8, ((writeAll writes).readAll getTime ∅)[key]? =
    (writes.reverse.find? fun w => key == w.1).map Prod.snd

end CAliasesDB

theorem readString_serializeBytes {bytes : List UInt8} (h : bytes.length ≤ MAX_SIZE)
    (str rest : List UInt8) : readString str (serializeBytes bytes ++ rest) = (bytes, some rest) := by
  have h64 : bytes.length < 2 ^ 64 := by
    rw [MAX_SIZE] at h
    omega
  have hsize := parses_readCompactSize h h64 (bytes ++ rest)
  rw [readString, serializeBytes, List.append_assoc, hsize]
  dsimp only
  rw [parses_readBytes bytes rest]

theorem length_of_readString {str is bytes rest : List UInt8}
    (h : readString str is = (bytes, some rest)) : bytes.length ≤ MAX_SIZE := by
  rw [readString] at h
  split at h
  · cases h
  · rename_i nSize _ hsize
    split at h
    · cases h
    · rename_i hbytes
      cases h
      rw [(exact_readBytes nSize _ _ _ hbytes).1]
      exact (exact_readCompactSize MAX_SIZE _ _ _ hsize).1

namespace CAlias

-- The ranges of the fields' types, and the sizes that the reader takes.
structure Serializable (entry : CAlias) : Prop where
  sigTime : -2 ^ 63 ≤ entry.sigTime ∧ entry.sigTime < 2 ^ 63
  pubKey_size : entry.pubKey.length ≤ MAX_SIZE
  hash_size : entry.hash.length ≤ MAX_SIZE

variable {entry : CAlias}

theorem unserialize_serialize (h : entry.Serializable) (before : CAlias) :
    unserialize before entry.serialize = (entry, some []) := by
  have hback : CTxOutCompressor.toInt64 (entry.sigTime % 2 ^ 64).toNat = entry.sigTime := by
    have hrange := h.sigTime
    rw [CTxOutCompressor.toInt64]
    split <;> omega
  have htime := parses_readLE 8 (entry.sigTime % 2 ^ 64).toNat (by omega)
    (serializeBytes entry.pubKey ++ serializeBytes entry.hash)
  have hhash := readString_serializeBytes h.hash_size before.hash []
  rw [List.append_nil] at hhash
  rw [unserialize, serialize, List.append_assoc, htime]
  dsimp only
  rw [readString_serializeBytes h.pubKey_size]
  dsimp only
  rw [hhash, hback]

theorem Received.serializable (h : entry.Received) : entry.Serializable := by
  obtain ⟨before, is, rest, h⟩ := h
  rw [unserialize] at h
  split at h
  · cases h
  · rename_i sigTime _ htime
    dsimp only at h
    split at h
    · cases h
    · rename_i pubKey is' hpubKey
      obtain ⟨rfl, hrest⟩ := Prod.mk.inj h
      have hlt := (exact_readLE 8 _ _ _ htime).1
      refine ⟨?_, length_of_readString hpubKey, length_of_readString (Prod.ext rfl hrest)⟩
      dsimp only
      rw [CTxOutCompressor.toInt64]
      split <;> omega

theorem Serializable.received (h : entry.Serializable) : entry.Received :=
  ⟨{ sigTime := 0 }, entry.serialize, [], unserialize_serialize h _⟩

end CAlias

theorem serializeBytes_of_short {bytes : List UInt8} (h : bytes.length < 253) :
    serializeBytes bytes = UInt8.ofNat bytes.length :: bytes := by
  rw [serializeBytes, writeCompactSize, if_pos h]
  rfl

theorem length_drop_serializeBytes {bytes : List UInt8} (h : 253 ≤ bytes.length) :
    bytes.length < ((serializeBytes bytes).drop 1).length := by
  have hprefix : 1 < (writeCompactSize bytes.length).length := by
    rw [writeCompactSize, if_neg (by omega)]
    split
    · simp [length_writeLE]
    · split
      · simp [length_writeLE]
      · simp [length_writeLE]
  rw [serializeBytes, List.length_drop, List.length_append]
  omega

namespace CAliasesDB

variable {writes : List (List UInt8 × CAlias)} {getTime : List UInt8 → Int}

theorem getElem?_writeAll (writes : List (List UInt8 × CAlias)) (bytes : List UInt8) :
    (writeAll writes)[bytes]? =
      (writes.reverse.find? fun w => bytes == serializeBytes w.1).map fun w => w.2.serialize := by
  refine (getElem?_foldl_insert (fun w => serializeBytes w.1) _ writes ∅ bytes).trans ?_
  simp

theorem getElem?_readAll (db : CAliasesDB) (key : List UInt8) :
    (db.readAll getTime ∅)[key]? = (db.keys.find? fun bytes => key == bytes.drop 1).map fun bytes =>
      db.readKey (getTime bytes) (bytes.drop 1) := by
  refine (getElem?_foldl_insertIfNew (fun bytes => bytes.drop 1) _ db.keys ∅ key).trans ?_
  simp

theorem mem_keys_writeAll {bytes : List UInt8} :
    bytes ∈ (writeAll writes).keys ↔ ∃ w ∈ writes, serializeBytes w.1 = bytes := by
  rw [Std.TreeMap.mem_keys, Std.TreeMap.mem_iff_isSome_getElem?, getElem?_writeAll,
    Option.isSome_map, List.find?_isSome]
  constructor
  · rintro ⟨w, hw, heq⟩
    exact ⟨w, List.mem_reverse.mp hw, (beq_iff_eq.mp heq).symm⟩
  · rintro ⟨w, hw, heq⟩
    exact ⟨w, List.mem_reverse.mpr hw, beq_iff_eq.mpr heq.symm⟩

theorem find?_serializeBytes (hshort : ∀ w ∈ writes, w.1.length < 253) {key : List UInt8}
    (hkey : key.length < 253) :
    (writes.reverse.find? fun w => serializeBytes key == serializeBytes w.1) =
      writes.reverse.find? fun w => key == w.1 := by
  refine List.find?_congr fun w hw => ?_
  have hw := hshort w (List.mem_reverse.mp hw)
  rw [serializeBytes_of_short hkey, serializeBytes_of_short hw, Bool.eq_iff_iff, beq_iff_eq,
    beq_iff_eq]
  constructor
  · exact fun h => (List.cons.inj h).2
  · rintro rfl
    rfl

theorem readKey_writeAll (hshort : ∀ w ∈ writes, w.1.length < 253)
    (hreceived : ∀ w ∈ writes, w.2.Received) {w : List UInt8 × CAlias}
    (hw : (writes.reverse.find? fun w' => w.1 == w'.1) = some w) (now : Int) :
    (writeAll writes).readKey now w.1 = w.2 := by
  have hmem := List.mem_reverse.mp (List.mem_of_find?_eq_some hw)
  rw [readKey, getElem?_writeAll, find?_serializeBytes hshort (hshort w hmem), hw, Option.map_some]
  dsimp only
  rw [CAlias.unserialize_serialize (hreceived w hmem).serializable]

theorem listsWritten_of_short (hreceived : ∀ w ∈ writes, w.2.Received)
    (hshort : ∀ w ∈ writes, w.1.length < 253) : ListsWritten getTime writes := by
  intro key
  have hdrop : ∀ bytes ∈ (writeAll writes).keys, ∃ w ∈ writes, bytes.drop 1 = w.1 := by
    intro bytes hbytes
    obtain ⟨w, hw, rfl⟩ := mem_keys_writeAll.mp hbytes
    exact ⟨w, hw, by rw [serializeBytes_of_short (hshort w hw), List.drop_one, List.tail_cons]⟩
  rw [getElem?_readAll]
  cases hlast : writes.reverse.find? fun w => key == w.1 with
  | none =>
    rw [List.find?_eq_none] at hlast
    rw [List.find?_eq_none.mpr]
    · rfl
    · intro bytes hbytes hkey
      obtain ⟨w, hw, hdrop⟩ := hdrop bytes hbytes
      rw [hdrop] at hkey
      exact hlast w (List.mem_reverse.mpr hw) hkey
  | some w =>
    have hmem := List.mem_reverse.mp (List.mem_of_find?_eq_some hlast)
    obtain rfl : key = w.1 := by simpa using List.find?_some hlast
    have hstored := mem_keys_writeAll.mpr ⟨w, hmem, rfl⟩
    cases hfirst : (writeAll writes).keys.find? fun bytes => w.1 == bytes.drop 1 with
    | none =>
      rw [List.find?_eq_none] at hfirst
      refine absurd ?_ (hfirst _ hstored)
      rw [serializeBytes_of_short (hshort w hmem), List.drop_one, List.tail_cons, beq_self_eq_true]
    | some bytes =>
      have hbytes : w.1 = bytes.drop 1 := by simpa using List.find?_some hfirst
      rw [Option.map_some, Option.map_some, ← hbytes,
        readKey_writeAll hshort hreceived hlast]

-- A long key comes back longer.
theorem exists_longer_of_listsWritten (h : ListsWritten getTime writes) {w : List UInt8 × CAlias}
    (hw : w ∈ writes) (hlong : 253 ≤ w.1.length) : ∃ w' ∈ writes, w.1.length < w'.1.length := by
  have hlist := h ((serializeBytes w.1).drop 1)
  have hsome : ((writeAll writes).keys.find? fun bytes =>
      (serializeBytes w.1).drop 1 == bytes.drop 1).isSome = true := by
    rw [List.find?_isSome]
    exact ⟨_, mem_keys_writeAll.mpr ⟨w, hw, rfl⟩, beq_self_eq_true _⟩
  rw [getElem?_readAll] at hlist
  rw [← Option.isSome_map, hlist, Option.isSome_map, List.find?_isSome] at hsome
  obtain ⟨w', hw', heq⟩ := hsome
  refine ⟨w', List.mem_reverse.mp hw', ?_⟩
  rw [← beq_iff_eq.mp heq]
  exact length_drop_serializeBytes hlong

theorem short_of_listsWritten (h : ListsWritten getTime writes) :
    ∀ w ∈ writes, w.1.length < 253 := by
  intro w hw
  by_contra hlong
  rw [not_lt] at hlong
  obtain ⟨longest, hmem, hmax⟩ := writes.toFinset.exists_max_image (fun w => w.1.length)
    ⟨w, List.mem_toFinset.mpr hw⟩
  rw [List.mem_toFinset] at hmem
  have hw' := hmax w (List.mem_toFinset.mpr hw)
  obtain ⟨longer, hlonger, hlt⟩ := exists_longer_of_listsWritten h hmem (hlong.trans hw')
  exact (hmax longer (List.mem_toFinset.mpr hlonger)).not_gt hlt

theorem listing_exact_iff (hreceived : ∀ w ∈ writes, w.2.Received) (getTime : List UInt8 → Int) :
    ListsWritten getTime writes ↔ ∀ w ∈ writes, w.1.length < 253 :=
  ⟨short_of_listsWritten, listsWritten_of_short hreceived⟩

-- the empty key, and a key that is written twice
theorem listing_exact_rewritten :
    ListsWritten (fun _ => 0) [([], ⟨[1], 5, []⟩), ([97], ⟨[], 6, [97]⟩), ([], ⟨[2], 7, []⟩)] := by
  refine (listing_exact_iff ?_ _).mpr ?_
  · intro w hw
    simp only [List.mem_cons, List.not_mem_nil, or_false] at hw
    rcases hw with rfl | rfl | rfl <;> exact CAlias.Serializable.received ⟨by decide, by decide, by decide⟩
  · simp

def longAlias : CAlias := { sigTime := 0, hash := List.replicate 253 97 }

theorem length_longAlias_hash : longAlias.hash.length = 253 := List.length_replicate

theorem longAlias_serializable : longAlias.Serializable := by
  refine ⟨by decide, by decide, ?_⟩
  rw [length_longAlias_hash, MAX_SIZE]
  omega

theorem long_alias_listed_as_another :
    processMessage ∅ 0 longAlias.serialize = writeAll [(longAlias.hash, longAlias)] ∧
      ¬ ListsWritten (fun _ => 0) [(longAlias.hash, longAlias)] := by
  constructor
  · rw [processMessage, CAlias.unserialize_serialize longAlias_serializable]
    simp [keyExists, writeAll]
  · intro h
    have hshort := short_of_listsWritten h _ List.mem_cons_self
    rw [length_longAlias_hash] at hshort
    omega

end CAliasesDB

end AnkerNode
