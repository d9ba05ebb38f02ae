import AnkerNode.Coins.CacheStack

namespace AnkerNode

namespace CoinsStack

open TreeMerge

-- Coins up to the identification of pruned ones with missing ones.
def unpruned (c : Option CCoins) : Option CCoins := c.filter fun c => !c.isPruned

theorem unpruned_some (c : CCoins) : unpruned (some c) = if c.isPruned then none else some c := by
  cases h : c.isPruned <;> simp [unpruned, Option.filter, h]

theorem unpruned_eq_some {o : Option CCoins} {c : CCoins} :
    unpruned o = some c ↔ o = some c ∧ c.isPruned = false := by
  simp [unpruned, Option.filter_eq_some_iff]

theorem unpruned_eq_none {c : CCoins} : unpruned (some c) = none ↔ c.isPruned = true := by
  cases h : c.isPruned <;> simp [unpruned_some, h]

variable (ops : PubKeyOps)

def value (db : CCoinsViewDB) (txid : UInt256) : List CCoinsViewCache → Option CCoins
  | [] => unpruned (db.getCoins ops txid)
  | cache :: below =>
    match cache.cacheCoins[txid]? with
    | some entry => unpruned (some entry.coins)
    | none => value db txid below

def Held (txid : UInt256) : List CCoinsViewCache → Prop
  | [] => True
  | cache :: _ => (cache.cacheCoins[txid]?).isSome = true

-- The meaning of an entry's flags relative to the levels below it.
structure EntryOk (db : CCoinsViewDB) (below : List CCoinsViewCache) (txid : UInt256)
    (entry : CCoinsCacheEntry) : Prop where
  fresh : entry.fFresh = true → value ops db txid below = none
  clean : entry.fDirty = false → unpruned (some entry.coins) = value ops db txid below
  held : entry.fFresh = false → Held txid below
  stored : ∀ c, unpruned (some entry.coins) = some c → c.Stored ops

def Levels (db : CCoinsViewDB) : List CCoinsViewCache → Prop
  | [] => True
  | cache :: below =>
    (∀ (txid : UInt256) (entry : CCoinsCacheEntry), cache.cacheCoins[txid]? = some entry →
      EntryOk ops db below txid entry) ∧ Levels db below

def ValidDB (db : CCoinsViewDB) : Prop :=
  ∀ txid record, db.records txid = some record →
    ∃ c : CCoins, record = c.serialize ops ∧ c.isPruned = false ∧ c.Stored ops

section Fetch

variable {ops} {db : CCoinsViewDB}

theorem value_cons_some {cache : CCoinsViewCache} {below : List CCoinsViewCache} {txid : UInt256}
    {entry : CCoinsCacheEntry} (h : cache.cacheCoins[txid]? = some entry) :
    value ops db txid (cache :: below) = unpruned (some entry.coins) := by
  simp [value, h]

theorem value_cons_none {cache : CCoinsViewCache} {below : List CCoinsViewCache} {txid : UInt256}
    (h : cache.cacheCoins[txid]? = none) :
    value ops db txid (cache :: below) = value ops db txid below := by
  simp [value, h]

theorem EntryOk.mono {below below' : List CCoinsViewCache} {txid : UInt256}
    {entry : CCoinsCacheEntry} (h : EntryOk ops db below txid entry)
    (hval : value ops db txid below' = value ops db txid below)
    (hheld : Held txid below → Held txid below') : EntryOk ops db below' txid entry :=
  ⟨fun hf => hval.trans (h.fresh hf), fun hd => (h.clean hd).trans hval.symm,
    fun hf => hheld (h.held hf), h.stored⟩

theorem stored_value (hdb : ValidDB ops db) {caches : List CCoinsViewCache}
    (h : Levels ops db caches) {txid : UInt256} {c : CCoins}
    (hc : value ops db txid caches = some c) : c.Stored ops := by
  induction caches with
  | nil =>
    obtain ⟨hget, -⟩ := unpruned_eq_some.mp hc
    simp only [CCoinsViewDB.getCoins, Option.bind_eq_some_iff] at hget
    obtain ⟨record, hrec, hread⟩ := hget
    obtain ⟨c', rfl, -, hst⟩ := hdb txid record hrec
    rw [hst, Option.some.injEq] at hread
    rwa [← hread]
  | cons cache below ih =>
    cases he : cache.cacheCoins[txid]? with
    | none =>
      rw [value_cons_none he] at hc
      exact ih h.2 hc
    | some entry =>
      rw [value_cons_some he] at hc
      exact (h.1 txid entry he).stored c hc

-- A level that supplies nothing new is left as it was; the flags of a pulled-in entry say what
-- the level below holds.
theorem fetchCoins_spec (hdb : ValidDB ops db) (txid : UInt256) {caches : List CCoinsViewCache}
    (h : Levels ops db caches) :
    unpruned (fetchCoins ops db txid caches).1 = value ops db txid caches ∧
      (∀ k, value ops db k (fetchCoins ops db txid caches).2 = value ops db k caches) ∧
      Levels ops db (fetchCoins ops db txid caches).2 ∧
      (∀ k, Held k caches → Held k (fetchCoins ops db txid caches).2) ∧
      ((fetchCoins ops db txid caches).1.isSome = true →
        Held txid (fetchCoins ops db txid caches).2) ∧
      (fetchCoins ops db txid caches).2.length = caches.length := by
  induction caches with
  | nil => exact ⟨rfl, fun _ => rfl, trivial, fun _ h => h, fun _ => trivial, rfl⟩
  | cons cache below ih =>
    obtain ⟨ihval, ihkeep, ihlev, ihheld, ihtx, ihlen⟩ := ih h.2
    cases he : cache.cacheCoins[txid]? with
    | some entry =>
      simp only [fetchCoins, he]
      exact ⟨(value_cons_some he).symm, fun _ => trivial, h, fun _ h => h,
        fun _ => by simp [Held, he], trivial⟩
    | none =>
      simp only [fetchCoins, he]
      generalize fetchCoins ops db txid below = r at ihval ihkeep ihlev ihheld ihtx ihlen ⊢
      obtain ⟨found, below'⟩ := r
      have hentries : ∀ (k : UInt256) (entry : CCoinsCacheEntry),
          cache.cacheCoins[k]? = some entry → EntryOk ops db below' k entry :=
        fun k entry hk => (h.1 k entry hk).mono (ihkeep k) (ihheld k)
      cases found with
      | none =>
        refine ⟨?_, ?_, ⟨hentries, ihlev⟩, fun _ hk => hk, by simp, by simpa using ihlen⟩
        · rw [value_cons_none he]
          exact ihval
        · intro k
          cases hk : cache.cacheCoins[k]? with
          | none => rw [value_cons_none hk, value_cons_none hk, ihkeep]
          | some entry => rw [value_cons_some hk, value_cons_some hk]
      | some tmp =>
        have hself : (cache.cacheCoins.insert txid ⟨tmp, false, tmp.isPruned⟩)[txid]? =
            some ⟨tmp, false, tmp.isPruned⟩ := Std.TreeMap.getElem?_insert_self
        have hother : ∀ k, k ≠ txid →
            (cache.cacheCoins.insert txid ⟨tmp, false, tmp.isPruned⟩)[k]? =
              cache.cacheCoins[k]? :=
          fun k hk => getElem?_put_of_ne cache.cacheCoins (some ⟨tmp, false, tmp.isPruned⟩) hk
        have hpulled : EntryOk ops db below' txid ⟨tmp, false, tmp.isPruned⟩ := by
          refine ⟨?_, fun _ => ihval.trans (ihkeep txid).symm, fun _ => ihtx rfl, ?_⟩
          · intro hp
            rw [ihkeep, ← ihval, unpruned_eq_none]
            exact hp
          · intro c hc
            exact stored_value hdb h.2 (ihval.symm.trans hc)
        refine ⟨?_, ?_, ⟨?_, ihlev⟩, ?_, ?_, by simpa using ihlen⟩
        · rw [value_cons_none he]
          exact ihval
        · intro k
          by_cases hk : k = txid
          · subst hk
            rw [value_cons_some hself, value_cons_none he]
            exact ihval
          · cases hc : cache.cacheCoins[k]? with
            | none => rw [value_cons_none ((hother k hk).trans hc), value_cons_none hc, ihkeep]
            | some entry => rw [value_cons_some ((hother k hk).trans hc), value_cons_some hc]
        · intro k entry hget
          by_cases hk : k = txid
          · subst hk
            rw [hself, Option.some.injEq] at hget
            rwa [← hget]
          · exact hentries k entry ((hother k hk).symm.trans hget)
        · intro k hheld
          by_cases hk : k = txid
          · subst hk
            simp [Held]
          · rw [Held, hother k hk]
            exact hheld
        · intro _
          simp [Held]

end Fetch

section Modify

variable {ops} {db : CCoinsViewDB}

theorem entryToModify_spec (hdb : ValidDB ops db) (txid : UInt256) {cache : CCoinsViewCache}
    {below : List CCoinsViewCache} (h : Levels ops db (cache :: below)) :
    ∃ entry below', entryToModify ops db txid cache below = (entry, below') ∧
      unpruned (some entry.coins) = value ops db txid (cache :: below) ∧
      (∀ k, value ops db k below' = value ops db k below) ∧ Levels ops db below' ∧
      (∀ k, Held k below → Held k below') ∧
      (entry.fFresh = true → value ops db txid below' = none) ∧
      (entry.fFresh = false → Held txid below') := by
  cases he : cache.cacheCoins[txid]? with
  | some entry =>
    have hok := h.1 txid entry he
    refine ⟨entry, below, ?_, (value_cons_some he).symm, fun _ => rfl, h.2, fun _ hk => hk,
      hok.fresh, hok.held⟩
    simp only [entryToModify, he]
  | none =>
    obtain ⟨hval, hkeep, hlev, hheld, htx, -⟩ := fetchCoins_spec hdb txid h.2
    simp only [entryToModify, he]
    generalize fetchCoins ops db txid below = r at hval hkeep hlev hheld htx ⊢
    obtain ⟨found, below'⟩ := r
    rw [value_cons_none he]
    cases found with
    | none =>
      refine ⟨⟨CCoins.clear, false, true⟩, below', rfl, hval, hkeep, hlev, hheld, ?_, by simp⟩
      intro _
      rw [hkeep, ← hval]
      rfl
    | some coins =>
      refine ⟨⟨coins, false, coins.isPruned⟩, below', rfl, hval, hkeep, hlev, hheld, ?_,
        fun _ => htx rfl⟩
      intro hp
      rw [hkeep, ← hval, unpruned_eq_none]
      exact hp

theorem releaseEntry_spec {cache : CCoinsViewCache} {below below' : List CCoinsViewCache}
    {txid : UInt256} (entry : CCoinsCacheEntry) (h : Levels ops db (cache :: below))
    (hkeep : ∀ k, value ops db k below' = value ops db k below) (hlev : Levels ops db below')
    (hheld : ∀ k, Held k below → Held k below') (hdirty : entry.fDirty = true)
    (hfresh : entry.fFresh = true → value ops db txid below' = none)
    (hknown : entry.fFresh = false → Held txid below')
    (hstored : ∀ c, unpruned (some entry.coins.cleanup) = some c → c.Stored ops) :
    Levels ops db (releaseEntry cache txid entry :: below') ∧
      ∀ k, value ops db k (releaseEntry cache txid entry :: below') =
        if k = txid then unpruned (some entry.coins.cleanup)
        else value ops db k (cache :: below) := by
  have hother : ∀ k, k ≠ txid →
      (releaseEntry cache txid entry).cacheCoins[k]? = cache.cacheCoins[k]? :=
    fun k hk => getElem?_put_of_ne _ _ hk
  have hself : (releaseEntry cache txid entry).cacheCoins[txid]? =
      if entry.fFresh && entry.coins.cleanup.isPruned then none
      else some { entry with coins := entry.coins.cleanup } := getElem?_put_self _ _ _
  refine ⟨⟨?_, hlev⟩, ?_⟩
  · intro k e hk
    by_cases hkt : k = txid
    · subst hkt
      rw [hself] at hk
      split at hk
      · simp at hk
      · simp only [Option.some.injEq] at hk
        subst hk
        exact ⟨hfresh, fun hd => by simp [hdirty] at hd, hknown, hstored⟩
    · rw [hother k hkt] at hk
      exact (h.1 k e hk).mono (hkeep k) (hheld k)
  · intro k
    by_cases hkt : k = txid
    · subst hkt
      rw [if_pos rfl]
      by_cases hdrop : (entry.fFresh && entry.coins.cleanup.isPruned) = true
      · rw [value_cons_none (by rw [hself, if_pos hdrop])]
        simp only [Bool.and_eq_true] at hdrop
        rw [hfresh hdrop.1, unpruned_eq_none.mpr hdrop.2]
      · rw [value_cons_some (by rw [hself, if_neg hdrop])]
    · rw [if_neg hkt]
      cases hc : cache.cacheCoins[k]? with
      | none => rw [value_cons_none ((hother k hkt).trans hc), value_cons_none hc, hkeep]
      | some e => rw [value_cons_some ((hother k hkt).trans hc), value_cons_some hc]

end Modify

section Flush

variable {ops} {db : CCoinsViewDB}

-- The assertion of `BatchWrite` is the `held` part of the child's entry.
theorem writeEntry_isSome {cache : CCoinsViewCache} {below : List CCoinsViewCache} {txid : UInt256}
    {it : CCoinsCacheEntry} (h : EntryOk ops db (cache :: below) txid it) :
    ∃ r, CCoinsViewCache.writeEntry cache.cacheCoins[txid]? it = some r := by
  simp only [CCoinsViewCache.writeEntry]
  split
  · exact ⟨_, rfl⟩
  · split
    · rename_i hnone
      split
      · exact ⟨_, rfl⟩
      · have hf : it.fFresh = true := by
          cases hf : it.fFresh with
          | true => rfl
          | false =>
            have hheld := h.held hf
            simp [Held, hnone] at hheld
        exact ⟨_, if_pos hf⟩
    · split
      · exact ⟨_, rfl⟩
      · exact ⟨_, rfl⟩

theorem writeEntry_spec {cache : CCoinsViewCache} {below : List CCoinsViewCache} {txid : UInt256}
    {it : CCoinsCacheEntry} {r : Option CCoinsCacheEntry}
    (hcache : ∀ us, cache.cacheCoins[txid]? = some us → EntryOk ops db below txid us)
    (h : EntryOk ops db (cache :: below) txid it)
    (hr : CCoinsViewCache.writeEntry cache.cacheCoins[txid]? it = some r) :
    (∀ e, r = some e → EntryOk ops db below txid e) ∧
      r.elim (value ops db txid below) (fun e => unpruned (some e.coins)) =
        unpruned (some it.coins) := by
  simp only [CCoinsViewCache.writeEntry] at hr
  cases hd : it.fDirty with
  | false =>
    -- The child never changed the entry, so it still shows what lies below.
    rw [hd] at hr
    simp only [Bool.not_false, if_true, Option.some.injEq] at hr
    refine ⟨fun e he => hcache e (hr.trans he), ?_⟩
    rw [h.clean hd, ← hr]
    cases hc : cache.cacheCoins[txid]? with
    | none => exact (value_cons_none hc).symm
    | some us => exact (value_cons_some hc).symm
  | true =>
    rw [hd] at hr
    simp only [Bool.not_true, Bool.false_eq_true, if_false] at hr
    cases hc : cache.cacheCoins[txid]? with
    | none =>
      have hfresh : it.fFresh = true := by
        cases hf : it.fFresh with
        | true => rfl
        | false =>
          have hheld := h.held hf
          simp [Held, hc] at hheld
      have hbelow : value ops db txid below = none := by
        rw [← value_cons_none hc]
        exact h.fresh hfresh
      simp only [hc, hfresh, if_true] at hr
      split at hr
      · rename_i hp
        simp only [Option.some.injEq] at hr
        subst hr
        exact ⟨by simp, by rw [unpruned_eq_none.mpr hp]; exact hbelow⟩
      · simp only [Option.some.injEq] at hr
        subst hr
        refine ⟨?_, rfl⟩
        intro e he
        simp only [Option.some.injEq] at he
        subst he
        exact ⟨fun _ => hbelow, by simp, by simp, h.stored⟩
    | some us =>
      have hus := hcache us hc
      simp only [hc] at hr
      split at hr
      · rename_i hp
        simp only [Bool.and_eq_true] at hp
        simp only [Option.some.injEq] at hr
        subst hr
        exact ⟨by simp, by rw [unpruned_eq_none.mpr hp.2]; exact hus.fresh hp.1⟩
      · simp only [Option.some.injEq] at hr
        subst hr
        refine ⟨?_, rfl⟩
        intro e he
        simp only [Option.some.injEq] at he
        subst he
        exact ⟨hus.fresh, by simp, hus.held, h.stored⟩

theorem batchWrite_spec {child cache : CCoinsViewCache} {below : List CCoinsViewCache}
    (h : Levels ops db (child :: cache :: below)) :
    ∃ cache', cache.batchWrite child = some cache' ∧ Levels ops db (cache' :: below) ∧
      ∀ k, value ops db k (cache' :: below) = value ops db k (child :: cache :: below) := by
  obtain ⟨t', ht', hin, hout⟩ := mergeM_toList_spec CCoinsViewCache.writeEntry
    cache.cacheCoins child.cacheCoins (fun k it hk => writeEntry_isSome (h.1 k it hk))
  have hentry : ∀ k it, child.cacheCoins[k]? = some it →
      (∀ e, t'[k]? = some e → EntryOk ops db below k e) ∧
        (t'[k]?).elim (value ops db k below) (fun e => unpruned (some e.coins)) =
          unpruned (some it.coins) := by
    intro k it hk
    exact writeEntry_spec (h.2.1 k) (h.1 k it hk) (hin k it hk)
  refine ⟨⟨t', child.hashBlock⟩, by simp [CCoinsViewCache.batchWrite, ht'], ⟨?_, h.2.2⟩, ?_⟩
  · intro k e he
    cases hc : child.cacheCoins[k]? with
    | none => exact h.2.1 k e ((hout k hc).symm.trans he)
    | some it => exact (hentry k it hc).1 e he
  · intro k
    cases hc : child.cacheCoins[k]? with
    | none =>
      rw [value_cons_none hc]
      simp only [value, hout k hc]
    | some it =>
      rw [value_cons_some hc, ← (hentry k it hc).2]
      cases ht : t'[k]? with
      | none => exact value_cons_none ht
      | some e => exact value_cons_some ht

theorem records_batchWrite_of_dirty {cache : CCoinsViewCache} {txid : UInt256}
    {it : CCoinsCacheEntry} (h : cache.cacheCoins[txid]? = some it) (hd : it.fDirty = true) :
    (db.batchWrite ops cache).records txid = CCoinsViewDB.batchWriteCoins ops it.coins := by
  have hmem : txid ∈ (cache.cacheCoins.toList.filter fun it => it.2.fDirty).map Prod.fst := by
    refine List.mem_map.mpr ⟨(txid, it), List.mem_filter.mpr ⟨?_, hd⟩, rfl⟩
    exact Std.TreeMap.mem_toList_iff_getElem?_eq_some.mpr h
  obtain ⟨⟨k, e⟩, he, rfl, hval⟩ := Table.writeAll_of_mem
    (fun it : UInt256 × CCoinsCacheEntry => CCoinsViewDB.batchWriteCoins ops it.2.coins)
    db.records hmem
  have hget := Std.TreeMap.mem_toList_iff_getElem?_eq_some.mp (List.mem_filter.mp he).1
  rw [h, Option.some.injEq] at hget
  rw [hget]
  exact hval

theorem records_batchWrite_of_clean {cache : CCoinsViewCache} {txid : UInt256}
    (h : ∀ it : CCoinsCacheEntry, cache.cacheCoins[txid]? = some it → it.fDirty = false) :
    (db.batchWrite ops cache).records txid = db.records txid := by
  refine Table.writeAll_of_not_mem ?_
  intro hmem
  obtain ⟨⟨k, e⟩, he, rfl⟩ := List.mem_map.mp hmem
  obtain ⟨hin, hd⟩ := List.mem_filter.mp he
  have hf := h e (Std.TreeMap.mem_toList_iff_getElem?_eq_some.mp hin)
  simp [hf] at hd

theorem batchWriteDB_spec (hdb : ValidDB ops db) {cache : CCoinsViewCache}
    (h : Levels ops db [cache]) :
    ValidDB ops (db.batchWrite ops cache) ∧
      ∀ k, value ops (db.batchWrite ops cache) k [] = value ops db k [cache] := by
  have hcases : ∀ k : UInt256,
      (∃ it : CCoinsCacheEntry, cache.cacheCoins[k]? = some it ∧ it.fDirty = true) ∨
        ∀ it : CCoinsCacheEntry, cache.cacheCoins[k]? = some it → it.fDirty = false := by
    intro k
    by_cases hk : ∃ it : CCoinsCacheEntry, cache.cacheCoins[k]? = some it ∧ it.fDirty = true
    · exact .inl hk
    · refine .inr fun it hit => ?_
      rw [Bool.eq_false_iff]
      exact fun hd => hk ⟨it, hit, hd⟩
  refine ⟨?_, ?_⟩
  · intro k record hrec
    rcases hcases k with ⟨it, hit, hd⟩ | hclean
    · rw [records_batchWrite_of_dirty hit hd, CCoinsViewDB.batchWriteCoins] at hrec
      split at hrec
      · simp at hrec
      · rename_i hp
        rw [Bool.not_eq_true] at hp
        refine ⟨it.coins, (Option.some.inj hrec).symm, hp, ?_⟩
        exact (h.1 k it hit).stored it.coins (unpruned_eq_some.mpr ⟨rfl, hp⟩)
    · rw [records_batchWrite_of_clean hclean] at hrec
      exact hdb k record hrec
  · intro k
    rcases hcases k with ⟨it, hit, hd⟩ | hclean
    · rw [value_cons_some hit, value, CCoinsViewDB.getCoins, records_batchWrite_of_dirty hit hd,
        CCoinsViewDB.batchWriteCoins]
      cases hp : it.coins.isPruned with
      | true =>
        rw [unpruned_eq_none.mpr hp]
        rfl
      | false =>
        have hst := (h.1 k it hit).stored it.coins (unpruned_eq_some.mpr ⟨rfl, hp⟩)
        simp only [Bool.false_eq_true, if_false, Option.bind_some]
        rw [hst]
    · have hdb' : value ops (db.batchWrite ops cache) k [] = value ops db k [] := by
        rw [value, value, CCoinsViewDB.getCoins, CCoinsViewDB.getCoins,
          records_batchWrite_of_clean hclean]
      rw [hdb']
      cases hc : cache.cacheCoins[k]? with
      | none => exact (value_cons_none hc).symm
      | some it =>
        rw [value_cons_some hc]
        exact ((h.1 k it hc).clean (hclean it hc)).symm

end Flush

end CoinsStack

end AnkerNode
