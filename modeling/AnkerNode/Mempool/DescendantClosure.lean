import Mathlib.Logic.Relation
import AnkerNode.Mempool.SpendIndex

namespace AnkerNode

namespace CTxMemPool

def SpendsOutput (pool : CTxMemPool) (parent child : CTransaction) : Prop :=
  ∃ i < parent.vout.length, ∃ n, pool.mapNextTx ⟨parent.hash, UInt32.ofNat i⟩ = some ⟨child, n⟩

def Descends (pool : CTxMemPool) : CTransaction → CTransaction → Prop :=
  Relation.ReflTransGen pool.SpendsOutput

-- the pool's own copy of a transaction, if it has one
def stored (pool : CTxMemPool) (tx : CTransaction) : CTransaction :=
  (pool.mapTx[tx.hash]?).elim tx CTxMemPoolEntry.tx

-- The inputs of a zerocoin spend are not in `mapNextTx`: what keeps it from naming an output of
-- a descendant is that hashes commit to inputs.
def Acyclic (pool : CTxMemPool) (root : CTransaction) : Prop :=
  pool.Pooled root → root.isZerocoinSpend = true →
    ∀ t, pool.Descends root t → ∀ o ∈ root.prevouts, o.hash ≠ t.hash

section Spenders

variable {pool : CTxMemPool}

theorem mem_spenders {hash k : UInt256} {n : Nat} : k ∈ pool.spenders hash n ↔
    ∃ i < n, ∃ it, pool.mapNextTx ⟨hash, UInt32.ofNat i⟩ = some it ∧ it.ptx.hash = k := by
  simp only [spenders, List.mem_filterMap, List.mem_range, Option.map_eq_some_iff]

theorem SpendsOutput.spender (h : pool.SpendIndexed) {a b : CTransaction}
    (hab : pool.SpendsOutput a b) : pool.Pooled b ∧ b.isZerocoinSpend = false := by
  obtain ⟨i, -, n, hn⟩ := hab
  obtain ⟨hp, hz, -⟩ := (h.index _ b n).mp hn
  exact ⟨hp, hz⟩

theorem Descends.spender (h : pool.SpendIndexed) {root t : CTransaction}
    (ht : pool.Descends root t) (hne : t ≠ root) : pool.Pooled t ∧ t.isZerocoinSpend = false := by
  cases ht with
  | refl => exact absurd rfl hne
  | tail _ hab => exact hab.spender h

theorem stored_of_get {tx : CTransaction} {entry : CTxMemPoolEntry}
    (h : pool.mapTx[tx.hash]? = some entry) : pool.stored tx = entry.tx := by
  rw [stored, h]
  rfl

theorem stored_of_none {tx : CTransaction} (h : pool.mapTx[tx.hash]? = none) :
    pool.stored tx = tx := by
  rw [stored, h]
  rfl

end Spenders

-- The removal half done: `gone` has left the pool, the spenders of what has left are gone or queued.
structure Swept (pool : CTxMemPool) (root : CTransaction) (gone : List CTransaction)
    (s : CTxMemPool) (queue : List UInt256) : Prop where
  nodup : gone.Nodup
  sound : ∀ t ∈ gone, pool.Pooled t ∧ pool.Descends root t
  queued : ∀ k ∈ queue, ∀ t, pool.Pooled t → t.hash = k → pool.Descends root t
  mapTx : ∀ hash : UInt256,
    s.mapTx[hash]? = if hash ∈ gone.map CTransaction.hash then none else pool.mapTx[hash]?
  mapNextTx : ∀ o,
    s.mapNextTx o = if o ∈ gone.flatMap CTransaction.prevouts then none else pool.mapNextTx o
  start : pool.Pooled root → root ∈ gone ∨ root.hash ∈ queue
  closed : ∀ a b, (a ∈ gone ∨ (a = root ∧ ¬ pool.Pooled root)) → pool.SpendsOutput a b →
    b ∈ gone ∨ b.hash ∈ queue

section Sweep

variable {pool s : CTxMemPool} {root : CTransaction} {gone : List CTransaction} {k : UInt256}
  {queue : List UInt256} {entry : CTxMemPoolEntry}

theorem Swept.mem_of_hash (hs : Swept pool root gone s queue) {t : CTransaction}
    (ht : pool.Pooled t) (hhash : t.hash ∈ gone.map CTransaction.hash) : t ∈ gone := by
  obtain ⟨g, hg, heq⟩ := List.mem_map.mp hhash
  rw [← (hs.sound g hg).1.unique ht heq]
  exact hg

theorem Swept.skip (hs : Swept pool root gone s (k :: queue)) (h : pool.SpendIndexed)
    (hnone : s.mapTx[k]? = none) : Swept pool root gone s queue := by
  -- what is queued under `k` and pooled has left already
  have hgone : ∀ t, pool.Pooled t → t.hash ∈ k :: queue → t ∈ gone ∨ t.hash ∈ queue := by
    intro t ht hhash
    rcases List.mem_cons.mp hhash with hk | hq
    · refine Or.inl (hs.mem_of_hash ht ?_)
      by_contra hout
      obtain ⟨e, he, -⟩ := ht
      rw [← hk, hs.mapTx, if_neg hout, he] at hnone
      cases hnone
    · exact Or.inr hq
  refine ⟨hs.nodup, hs.sound, fun x hx => hs.queued x (List.mem_cons_of_mem k hx), hs.mapTx,
    hs.mapNextTx, ?_, ?_⟩
  · intro hroot
    rcases hs.start hroot with hin | hhash
    · exact Or.inl hin
    · exact hgone root hroot hhash
  · intro a b ha hab
    rcases hs.closed a b ha hab with hin | hhash
    · exact Or.inl hin
    · exact hgone b (hab.spender h).1 hhash

-- No transaction that has left takes the index entry of an output of `tx` along, unless it
-- spends that output itself.
theorem Swept.index_kept (hs : Swept pool root gone s queue) (h : pool.SpendIndexed)
    (hacyclic : pool.Acyclic root) {tx t : CTransaction} (htx : pool.Descends root tx)
    {o : COutPoint} {n : Nat} (ho : o.hash = tx.hash) (hn : pool.mapNextTx o = some ⟨t, n⟩) :
    t ∈ gone ∨ s.mapNextTx o = some ⟨t, n⟩ := by
  by_cases hout : o ∈ gone.flatMap CTransaction.prevouts
  · left
    obtain ⟨g, hg, hog⟩ := List.mem_flatMap.mp hout
    obtain ⟨hpg, hdg⟩ := hs.sound g hg
    obtain ⟨hpt, hzt, hot⟩ := (h.index o t n).mp hn
    cases hz : g.isZerocoinSpend with
    | true =>
      have hroot : g = root := by
        by_contra hne
        rw [(hdg.spender h hne).2] at hz
        cases hz
      subst hroot
      exact absurd ho (hacyclic hpg hz tx htx o hog)
    | false =>
      have hsame : t = g := by
        by_contra hne
        exact h.disjoint t g hpt hpg hzt hz hne (List.mem_of_getElem? hot) hog
      rw [hsame]
      exact hg
  · right
    rw [hs.mapNextTx, if_neg hout]
    exact hn

theorem Swept.take (hs : Swept pool root gone s (k :: queue)) (h : pool.SpendIndexed)
    (hacyclic : pool.Acyclic root) (he : s.mapTx[k]? = some entry) :
    Swept pool root (gone ++ [entry.tx]) (s.removeEntry k entry)
      (queue ++ s.spenders k entry.tx.vout.length) := by
  have hout : k ∉ gone.map CTransaction.hash := by
    intro hin
    rw [hs.mapTx, if_pos hin] at he
    cases he
  have hget : pool.mapTx[k]? = some entry := by
    rwa [hs.mapTx, if_neg hout] at he
  have hkey : entry.tx.hash = k := h.keyed k entry hget
  have hpooled : pool.Pooled entry.tx := h.pooled_of_get hget
  have hdesc : pool.Descends root entry.tx :=
    hs.queued k (List.mem_cons_self) entry.tx hpooled hkey
  have hgone : ∀ t, pool.Pooled t → t.hash ∈ k :: queue →
      t ∈ gone ++ [entry.tx] ∨ t.hash ∈ queue ++ s.spenders k entry.tx.vout.length := by
    intro t ht hhash
    rcases List.mem_cons.mp hhash with hk | hq
    · left
      rw [ht.unique hpooled (hk.trans hkey.symm)]
      exact List.mem_append_right _ (List.mem_singleton_self _)
    · exact Or.inr (List.mem_append_left _ hq)
  refine ⟨?_, ?_, ?_, ?_, ?_, ?_, ?_⟩
  · rw [List.nodup_append]
    refine ⟨hs.nodup, List.nodup_singleton _, ?_⟩
    intro t ht t' ht' heq
    rw [List.mem_singleton] at ht'
    rw [heq, ht'] at ht
    exact hout (List.mem_map.mpr ⟨entry.tx, ht, hkey⟩)
  · intro t ht
    rcases List.mem_append.mp ht with ht | ht
    · exact hs.sound t ht
    · rw [List.mem_singleton.mp ht]
      exact ⟨hpooled, hdesc⟩
  · intro x hx t ht hhash
    rcases List.mem_append.mp hx with hx | hx
    · exact hs.queued x (List.mem_cons_of_mem k hx) t ht hhash
    · obtain ⟨i, hi, it, hit, hptx⟩ := mem_spenders.mp hx
      have hpool : pool.mapNextTx ⟨k, UInt32.ofNat i⟩ = some it := by
        rw [hs.mapNextTx] at hit
        split at hit
        · cases hit
        · exact hit
      have hit' := ((h.index _ it.ptx it.n).mp hpool).1
      refine hdesc.tail ⟨i, hi, it.n, ?_⟩
      rw [ht.unique hit' (hhash.trans hptx.symm), hkey]
      exact hpool
  · intro hash
    rw [mapTx_removeEntry, hs.mapTx, List.map_append, List.map_singleton, hkey]
    by_cases hk : hash = k
    · simp [hk]
    · simp [hk]
  · intro o
    rw [mapNextTx_removeEntry, hs.mapNextTx, List.flatMap_append, List.flatMap_singleton]
    by_cases ho : o ∈ entry.tx.prevouts
    · simp [ho]
    · simp [ho]
  · intro hroot
    rcases hs.start hroot with hin | hhash
    · exact Or.inl (List.mem_append_left _ hin)
    · exact hgone root hroot hhash
  · intro a b ha hab
    have hspender := hab.spender h
    have hcases : (a ∈ gone ∨ (a = root ∧ ¬ pool.Pooled root)) ∨ a = entry.tx := by
      rcases ha with ha | ha
      · rcases List.mem_append.mp ha with ha | ha
        · exact Or.inl (Or.inl ha)
        · exact Or.inr (List.mem_singleton.mp ha)
      · exact Or.inl (Or.inr ha)
    rcases hcases with ha | rfl
    · rcases hs.closed a b ha hab with hin | hhash
      · exact Or.inl (List.mem_append_left _ hin)
      · exact hgone b hspender.1 hhash
    · obtain ⟨i, hi, n, hn⟩ := hab
      rcases hs.index_kept h hacyclic hdesc rfl hn with hin | hkept
      · exact Or.inl (List.mem_append_left _ hin)
      · right
        rw [hkey] at hkept
        exact List.mem_append_right _ (mem_spenders.mpr ⟨i, hi, _, hkept, rfl⟩)

theorem Swept.step (h : pool.SpendIndexed) (hacyclic : pool.Acyclic root)
    (removed : List CTransaction) (k : UInt256) (queue : List UInt256)
    (s : CTxMemPool × List CTransaction)
    (hs : ∃ gone, s.2 = removed ++ gone ∧ Swept pool root gone s.1 (k :: queue)) :
    ∃ gone, (removeStep true s k).1.2 = removed ++ gone ∧
      Swept pool root gone (removeStep true s k).1.1 (queue ++ (removeStep true s k).2) := by
  obtain ⟨gone, hremoved, hs⟩ := hs
  rw [removeStep]
  cases he : s.1.mapTx[k]? with
  | none => exact ⟨gone, hremoved, by simpa using hs.skip h he⟩
  | some entry =>
    refine ⟨gone ++ [entry.tx], ?_, hs.take h hacyclic he⟩
    change s.2 ++ [entry.tx] = _
    rw [hremoved, List.append_assoc]

theorem Swept.begin (h : pool.SpendIndexed) (origTx : CTransaction) :
    Swept pool (pool.stored origTx) [] pool
      (origTx.hash :: if true && !pool.mapTx.contains origTx.hash then
        pool.spenders origTx.hash origTx.vout.length else []) := by
  cases hget : pool.mapTx[origTx.hash]? with
  | some entry =>
    have hin : pool.mapTx.contains origTx.hash = true := by
      rw [Std.TreeMap.contains_eq_isSome_getElem?, hget]
      rfl
    have hkey := h.keyed _ entry hget
    have hpooled := h.pooled_of_get hget
    rw [stored_of_get hget, hin, ← hkey]
    refine ⟨List.nodup_nil, by simp, ?_, by simp, by simp, by simp, ?_⟩
    · intro k hk t ht hhash
      rw [List.mem_singleton.mp hk] at hhash
      rw [ht.unique hpooled hhash]
      exact Relation.ReflTransGen.refl
    · intro a b ha
      rcases ha with ha | ⟨-, hroot⟩
      · cases ha
      · exact absurd hpooled hroot
  | none =>
    have hout : pool.mapTx.contains origTx.hash = false := by
      rw [Std.TreeMap.contains_eq_isSome_getElem?, hget]
      rfl
    rw [stored_of_none hget, hout]
    refine ⟨List.nodup_nil, by simp, ?_, by simp, by simp, ?_, ?_⟩
    · intro k hk t ht hhash
      rcases List.mem_cons.mp hk with rfl | hk
      · obtain ⟨e, he, -⟩ := ht
        rw [hhash, hget] at he
        cases he
      · obtain ⟨i, hi, it, hit, hptx⟩ := mem_spenders.mp hk
        have hit' := ((h.index _ it.ptx it.n).mp hit).1
        rw [ht.unique hit' (hhash.trans hptx.symm)]
        exact Relation.ReflTransGen.single ⟨i, hi, it.n, hit⟩
    · exact fun _ => Or.inr List.mem_cons_self
    · intro a b ha hab
      rcases ha with ha | ⟨rfl, -⟩
      · cases ha
      · obtain ⟨i, hi, n, hn⟩ := hab
        exact Or.inr (List.mem_cons_of_mem _ (mem_spenders.mpr ⟨i, hi, _, hn, rfl⟩))

theorem swept_remove (h : pool.SpendIndexed) {origTx : CTransaction}
    (hacyclic : pool.Acyclic (pool.stored origTx)) (removed : List CTransaction) :
    ∃ gone, (pool.remove origTx removed true).2 = removed ++ gone ∧
      Swept pool (pool.stored origTx) gone (pool.remove origTx removed true).1 [] := by
  refine (removal true).run_invariant
    (fun queue s => ∃ gone, s.2 = removed ++ gone ∧
      Swept pool (pool.stored origTx) gone s.1 queue)
    (Swept.step h hacyclic removed) _ (pool, removed) ?_
  exact ⟨[], (List.append_nil removed).symm, Swept.begin h origTx⟩

theorem Swept.spender_mem (hs : Swept pool root gone s []) {a b : CTransaction}
    (ha : a ∈ gone ∨ a = root) (hab : pool.SpendsOutput a b) : b ∈ gone := by
  have hleft : a ∈ gone ∨ (a = root ∧ ¬ pool.Pooled root) := by
    rcases ha with ha | rfl
    · exact Or.inl ha
    · by_cases hroot : pool.Pooled a
      · left
        simpa using hs.start hroot
      · exact Or.inr ⟨rfl, hroot⟩
  simpa using hs.closed a b hleft hab

-- What has left in the end are the pooled descendants: by induction on the descent.
theorem Swept.mem_iff (hs : Swept pool root gone s []) {t : CTransaction} :
    t ∈ gone ↔ pool.Pooled t ∧ pool.Descends root t := by
  refine ⟨hs.sound t, ?_⟩
  rintro ⟨ht, hdesc⟩
  have hall : t ∈ gone ∨ t = root := by
    clear ht
    induction hdesc with
    | refl => exact Or.inr rfl
    | tail _ hab ih => exact Or.inl (hs.spender_mem ih hab)
  rcases hall with hin | rfl
  · exact hin
  · simpa using hs.start ht

theorem Swept.pooled_iff (hs : Swept pool root gone s queue) {t : CTransaction} :
    s.Pooled t ↔ pool.Pooled t ∧ t ∉ gone := by
  constructor
  · rintro ⟨e, he, rfl⟩
    rw [hs.mapTx] at he
    split at he
    · cases he
    · rename_i hout
      exact ⟨⟨e, he, rfl⟩, fun hin => hout (List.mem_map_of_mem hin)⟩
  · rintro ⟨ht, hout⟩
    have hhash : t.hash ∉ gone.map CTransaction.hash := fun hin => hout (hs.mem_of_hash ht hin)
    obtain ⟨e, he, heq⟩ := ht
    refine ⟨e, ?_, heq⟩
    rw [hs.mapTx, if_neg hhash]
    exact he

end Sweep

def Names (t r : CTransaction) : Prop :=
  ∃ o ∈ t.prevouts, o.hash = r.hash ∧ o.n.toNat < r.vout.length

theorem remove_descendant_closure {pool : CTxMemPool} (h : pool.SpendIndexed)
    (origTx : CTransaction) (hacyclic : pool.Acyclic (pool.stored origTx))
    (removed : List CTransaction) :
    ∃ gone, (pool.remove origTx removed true).2 = removed ++ gone ∧ gone.Nodup ∧
      (∀ t, t ∈ gone ↔ pool.Pooled t ∧ pool.Descends (pool.stored origTx) t) ∧
      (∀ hash : UInt256, (pool.remove origTx removed true).1.mapTx[hash]? =
        if hash ∈ gone.map CTransaction.hash then none else pool.mapTx[hash]?) ∧
      ∀ t, (pool.remove origTx removed true).1.Pooled t → t.isZerocoinSpend = false →
        ∀ r ∈ pool.stored origTx :: gone, ¬ Names t r := by
  obtain ⟨gone, hremoved, hs⟩ := swept_remove h hacyclic removed
  refine ⟨gone, hremoved, hs.nodup, fun t => hs.mem_iff, hs.mapTx, ?_⟩
  rintro t ht hz r hr ⟨o, ho, hhash, hlt⟩
  obtain ⟨hpooled, hout⟩ := hs.pooled_iff.mp ht
  obtain ⟨n, hn⟩ := h.spender hpooled hz ho
  refine hout (hs.spender_mem (a := r) (List.mem_cons.mp hr).symm ⟨o.n.toNat, hlt, n, ?_⟩)
  rw [← hhash, UInt32.ofNat_toNat]
  exact hn

def funding : CTxMemPoolEntry where
  tx := { hash := 11, vin := [⟨⟨5, 0⟩, [], 0⟩], vout := [⟨3, [0x51]⟩, ⟨4, [0x51]⟩] }
  nTxSize := 100

def spending : CTxMemPoolEntry where
  tx := { hash := 12, vin := [⟨⟨11, 1⟩, [], 0⟩], vout := [⟨2, [0x51]⟩] }
  nTxSize := 90

def familyPool : CTxMemPool :=
  (addUnchecked {} funding.tx.hash funding).addUnchecked spending.tx.hash spending

theorem spendIndexed_familyPool : familyPool.SpendIndexed := by
  have hparent : (addUnchecked {} funding.tx.hash funding).SpendIndexed :=
    (spendIndexed_empty false).addUnchecked (by decide) (fun _ => by decide)
      (fun _ _ _ => rfl)
  refine hparent.addUnchecked (by decide) (fun _ => by decide) (fun _ o ho => ?_)
  rw [List.mem_singleton.mp ho]
  decide

theorem remove_descendant_closure_family :
    ∃ gone, (familyPool.remove funding.tx [] true).2 = gone ∧ gone.Nodup ∧
      funding.tx ∈ gone ∧ spending.tx ∈ gone := by
  have hroot : familyPool.stored funding.tx = funding.tx := by decide
  have hacyclic : familyPool.Acyclic (familyPool.stored funding.tx) := by
    intro _ hz
    rw [hroot] at hz
    exact absurd hz (by decide)
  obtain ⟨gone, hremoved, hnodup, hmem, -, -⟩ :=
    remove_descendant_closure spendIndexed_familyPool funding.tx hacyclic []
  rw [hroot] at hmem
  refine ⟨gone, hremoved, hnodup, (hmem _).mpr ⟨⟨funding, by decide, rfl⟩, .refl⟩,
    (hmem _).mpr ⟨⟨spending, by decide, rfl⟩, .single ⟨1, by decide, 0, by decide⟩⟩⟩

end CTxMemPool

end AnkerNode
