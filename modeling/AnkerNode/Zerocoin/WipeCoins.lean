import AnkerNode.Lib.TreeMaps

namespace AnkerNode

-- the byte strings that the zerocoin database holds, in the order of its keys
abbrev CZerocoinDB := Std.TreeMap (List UInt8) (List UInt8)

namespace CZerocoinDB

def SPENDS : UInt8 := 0x73

def MINTS : UInt8 := 0x6d

-- `hash` is the hash of the public coin
def writeCoinMint (db : CZerocoinDB) (hash hashTx : List UInt8) : CZerocoinDB :=
  db.insert (MINTS :: hash) hashTx

-- `hash` is the hash of the serial
def writeCoinSpend (db : CZerocoinDB) (hash txHash : List UInt8) : CZerocoinDB :=
  db.insert (SPENDS :: hash) txHash

-- The hash that is read from an entry is the one in its value.
def collect (type : UInt8) : List (List UInt8) → List (List UInt8 × List UInt8) →
    Option (List (List UInt8))
  | setDelete, [] => some setDelete
  | _, ([], _) :: _ => none
  | setDelete, (chType :: _, slValue) :: rest =>
    if chType = type then
      if slValue.length < 32 then none
      else collect type (setDelete.insert (slValue.take 32)) rest
    else some setDelete

def seekKey (type : UInt8) : List UInt8 := type :: List.replicate 32 0

def wipeCoins (db : CZerocoinDB) (strType : String) : Bool × CZerocoinDB :=
  if strType ≠ "spends" ∧ strType ≠ "mints" then (false, db)
  else
    let type := if strType = "spends" then SPENDS else MINTS
    match collect type [] (KeyScan.seek db (seekKey type)) with
    | none => (false, db)
    | some setDelete =>
      (true, (setDelete.map fun hash => type :: hash).foldl (fun db key => db.erase key) db)

section Scan

variable {type : UInt8} {db : CZerocoinDB}

def hasType (type : UInt8) (entry : List UInt8 × List UInt8) : Bool := entry.1.head? == some type

-- What the scan walks over: the entries of the type that are not below the first key it asks for.
def Scanned (db : CZerocoinDB) (type : UInt8) (entry : List UInt8 × List UInt8) : Prop :=
  db[entry.1]? = some entry.2 ∧ entry.1.head? = some type ∧
    compare entry.1 (seekKey type) ≠ .lt

theorem collect_eq {setDelete : List (List UInt8)} {entries : List (List UInt8 × List UInt8)}
    (hkeys : ∀ entry ∈ entries, entry.1 ≠ []) :
    collect type setDelete entries =
      if ∃ entry ∈ entries.takeWhile (hasType type), entry.2.length < 32 then none
      else some ((entries.takeWhile (hasType type)).foldl
        (fun setDelete entry => setDelete.insert (entry.2.take 32)) setDelete) := by
  induction entries generalizing setDelete with
  | nil => simp [collect]
  | cons entry entries ih =>
    rw [List.forall_mem_cons] at hkeys
    obtain ⟨key, value⟩ := entry
    cases key with
    | nil => exact absurd rfl hkeys.1
    | cons chType key =>
      rw [collect]
      by_cases htype : chType = type
      · have hpos : hasType type (chType :: key, value) = true := by simp [hasType, htype]
        rw [if_pos htype, List.takeWhile_cons_of_pos hpos]
        by_cases hshort : value.length < 32
        · rw [if_pos hshort, if_pos ⟨_, List.mem_cons_self, hshort⟩]
        · rw [if_neg hshort, ih hkeys.2]
          simp only [List.mem_cons, exists_eq_or_imp, hshort, false_or, List.foldl_cons]
      · have hneg : ¬ hasType type (chType :: key, value) = true := by simp [hasType, htype]
        rw [if_neg htype, List.takeWhile_cons_of_neg hneg]
        simp

theorem mem_foldl_insert {entries : List (List UInt8 × List UInt8)} {setDelete : List (List UInt8)}
    {hash : List UInt8} :
    hash ∈ entries.foldl (fun setDelete entry => setDelete.insert (entry.2.take 32)) setDelete ↔
      hash ∈ setDelete ∨ ∃ entry ∈ entries, entry.2.take 32 = hash := by
  induction entries generalizing setDelete with
  | nil => simp
  | cons entry entries ih =>
    rw [List.foldl_cons, ih, List.mem_insert_iff]
    simp only [List.mem_cons, exists_eq_or_imp, eq_comm (a := hash)]
    tauto

theorem head_le {a b : UInt8} {x y : List UInt8} (h : compare (a :: x) (b :: y) ≠ .gt) :
    a ≤ b := by
  have hcons : compare (a :: x) (b :: y) = (compare a b).then (compare x y) :=
    List.compareLex_cons_cons
  rw [hcons] at h
  cases hab : compare a b with
  | lt => exact UInt8.le_of_lt (Std.compare_eq_lt.mp hab)
  | eq =>
    rw [Std.LawfulEqOrd.eq_of_compare hab]
    exact UInt8.le_refl b
  | gt =>
    rw [hab] at h
    exact absurd rfl h

-- A key that is not below the first one of its type has that type or a later one.
theorem le_head_of_seek {key : List UInt8} (h : compare key (seekKey type) ≠ .lt) :
    ∃ a x, key = a :: x ∧ type ≤ a := by
  cases key with
  | nil => exact absurd rfl h
  | cons a x =>
    refine ⟨a, x, rfl, head_le (x := List.replicate 32 0) (y := x) ?_⟩
    rw [Std.OrientedOrd.eq_swap]
    intro hgt
    rw [Ordering.swap_eq_gt] at hgt
    exact h hgt

theorem mem_takeWhile_seek {entry : List UInt8 × List UInt8} :
    entry ∈ (KeyScan.seek db (seekKey type)).takeWhile (hasType type) ↔ Scanned db type entry := by
  have hseek := KeyScan.ordered_seek (t := db) (seekKey type)
  have hmono : (KeyScan.seek db (seekKey type)).Pairwise fun a b =>
      hasType type b = true → hasType type a = true := by
    refine hseek.imp_of_mem ?_
    rintro ⟨k, v⟩ ⟨k', v'⟩ hk - hlt htype
    obtain ⟨a, x, rfl, hle⟩ := le_head_of_seek (KeyScan.mem_seek.mp hk).2
    simp only [hasType, beq_iff_eq, List.head?_cons, Option.some.injEq] at htype ⊢
    cases k' with
    | nil => cases htype
    | cons b y =>
      rw [List.head?_cons, Option.some.injEq] at htype
      have hab : a ≤ b := head_le (by rw [hlt]; decide)
      rw [htype] at hab
      exact UInt8.le_antisymm hab hle
  rw [KeyScan.takeWhile_eq_filter hmono, List.mem_filter, KeyScan.mem_seek, hasType, beq_iff_eq,
    Scanned]
  tauto

theorem ne_nil_of_seek {entry : List UInt8 × List UInt8}
    (h : entry ∈ KeyScan.seek db (seekKey type)) : entry.1 ≠ [] := by
  obtain ⟨a, x, hkey, -⟩ := le_head_of_seek (KeyScan.mem_seek.mp h).2
  rw [hkey]
  exact List.cons_ne_nil a x

end Scan

inductive CoinTable where
  | spends
  | mints

def CoinTable.strType : CoinTable → String
  | .spends => "spends"
  | .mints => "mints"

def CoinTable.keyType : CoinTable → UInt8
  | .spends => SPENDS
  | .mints => MINTS

def Wiped (type : UInt8) (db db' : CZerocoinDB) : Prop :=
  ∀ key : List UInt8, db'[key]? = if key.head? = some type then none else db[key]?

-- the keys that the scan makes from the values it meets
def Collected (db : CZerocoinDB) (type : UInt8) (key : List UInt8) : Prop :=
  ∃ entry, Scanned db type entry ∧ key = type :: entry.2.take 32

section Wipe

variable {db : CZerocoinDB} {table : CoinTable}

theorem wipeCoins_strType (db : CZerocoinDB) (table : CoinTable) :
    db.wipeCoins table.strType =
      match collect table.keyType [] (KeyScan.seek db (seekKey table.keyType)) with
      | none => (false, db)
      | some setDelete => (true, (setDelete.map fun hash => table.keyType :: hash).foldl
          (fun db key => db.erase key) db) := by
  cases table <;> rfl

theorem wipeCoins_of_short (h : ∃ entry, Scanned db table.keyType entry ∧ entry.2.length < 32) :
    db.wipeCoins table.strType = (false, db) := by
  obtain ⟨entry, hscan, hshort⟩ := h
  rw [wipeCoins_strType, collect_eq (fun _ he => ne_nil_of_seek he),
    if_pos ⟨entry, mem_takeWhile_seek.mpr hscan, hshort⟩]

theorem wipeCoins_of_long (h : ∀ entry, Scanned db table.keyType entry → 32 ≤ entry.2.length) :
    ∃ db', db.wipeCoins table.strType = (true, db') ∧ ∀ key : List UInt8,
      (Collected db table.keyType key → db'[key]? = none) ∧
        (¬ Collected db table.keyType key → db'[key]? = db[key]?) := by
  have hlong : ¬ ∃ entry ∈ (KeyScan.seek db (seekKey table.keyType)).takeWhile
      (hasType table.keyType), entry.2.length < 32 := by
    rintro ⟨entry, hscan, hshort⟩
    have hlen := h entry (mem_takeWhile_seek.mp hscan)
    omega
  rw [wipeCoins_strType, collect_eq (fun _ he => ne_nil_of_seek he), if_neg hlong]
  have hmem : ∀ key, key ∈ (((KeyScan.seek db (seekKey table.keyType)).takeWhile
      (hasType table.keyType)).foldl (fun setDelete entry => setDelete.insert (entry.2.take 32))
        []).map (fun hash => table.keyType :: hash) ↔ Collected db table.keyType key := by
    intro key
    simp only [List.mem_map, mem_foldl_insert, mem_takeWhile_seek, List.not_mem_nil, false_or]
    constructor
    · rintro ⟨hash, ⟨entry, hscan, rfl⟩, rfl⟩
      exact ⟨entry, hscan, rfl⟩
    · rintro ⟨entry, hscan, rfl⟩
      exact ⟨_, ⟨entry, hscan, rfl⟩, rfl⟩
  refine ⟨_, rfl, fun key => ⟨fun hin => ?_, fun hout => ?_⟩⟩
  · exact KeyScan.getElem?_eraseAll.trans (if_pos ((hmem key).mpr hin))
  · exact KeyScan.getElem?_eraseAll.trans (if_neg (fun hin => hout ((hmem key).mp hin)))

theorem Collected.head {key : List UInt8} (h : Collected db table.keyType key) :
    key.head? = some table.keyType := by
  obtain ⟨entry, -, rfl⟩ := h
  rfl

end Wipe

theorem wipe_coins_iff (db : CZerocoinDB) (table : CoinTable) :
    ((db.wipeCoins table.strType).1 = true →
        Wiped table.keyType db (db.wipeCoins table.strType).2) ↔
      (∃ entry, Scanned db table.keyType entry ∧ entry.2.length < 32) ∨
        ∀ key value : List UInt8, db[key]? = some value → key.head? = some table.keyType →
          Collected db table.keyType key := by
  by_cases hshort : ∃ entry, Scanned db table.keyType entry ∧ entry.2.length < 32
  · rw [wipeCoins_of_short hshort]
    simp [hshort]
  · have hlong : ∀ entry, Scanned db table.keyType entry → 32 ≤ entry.2.length := by
      intro entry hscan
      by_contra hlen
      exact hshort ⟨entry, hscan, by omega⟩
    obtain ⟨db', hrun, hkeys⟩ := wipeCoins_of_long hlong
    simp only [hrun, hshort, false_or, forall_true_left]
    constructor
    · intro hwiped key value hget htype
      by_contra hnone
      have hkey := hwiped key
      rw [(hkeys key).2 hnone, if_pos htype, hget] at hkey
      cases hkey
    · intro hall key
      by_cases hcollected : Collected db table.keyType key
      · rw [(hkeys key).1 hcollected, if_pos hcollected.head]
      · rw [(hkeys key).2 hcollected]
        by_cases htype : key.head? = some table.keyType
        · rw [if_pos htype]
          cases hget : db[key]? with
          | none => rfl
          | some value => exact absurd (hall key value hget htype) hcollected
        · rw [if_neg htype]

-- A recorded spend survives: its key is made from the serial, its value from the transaction.
theorem wipe_coins_leaves_spend :
    ((writeCoinSpend ∅ (List.replicate 32 1) (List.replicate 32 2)).wipeCoins "spends").1 = true ∧
      ((writeCoinSpend ∅ (List.replicate 32 1) (List.replicate 32 2)).wipeCoins
        "spends").2[SPENDS :: List.replicate 32 1]? = some (List.replicate 32 2) ∧
      ¬ Wiped SPENDS (writeCoinSpend ∅ (List.replicate 32 1) (List.replicate 32 2))
        ((writeCoinSpend ∅ (List.replicate 32 1) (List.replicate 32 2)).wipeCoins "spends").2 := by
  have hkept : ((writeCoinSpend ∅ (List.replicate 32 1) (List.replicate 32 2)).wipeCoins
      "spends").2[SPENDS :: List.replicate 32 1]? = some (List.replicate 32 2) := by
    decide +kernel
  refine ⟨by decide +kernel, hkept, fun hwiped => ?_⟩
  have hkey := hwiped (SPENDS :: List.replicate 32 1)
  rw [hkept, if_pos (by rfl)] at hkey
  cases hkey

end CZerocoinDB

end AnkerNode
