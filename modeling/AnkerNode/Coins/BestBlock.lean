import AnkerNode.Coins.CacheRun
import AnkerNode.Lib.Table

namespace AnkerNode

namespace CCoinsViewDB

def getBestBlock (db : CCoinsViewDB) : UInt256 := db.hashBestChain

end CCoinsViewDB

namespace CoinsStack

open LayeredValue

section Definitions

variable (ops : PubKeyOps)

def fetchBestBlock (db : CCoinsViewDB) : List CCoinsViewCache → UInt256 × List CCoinsViewCache
  | [] => (db.getBestBlock, [])
  | cache :: below =>
    if cache.hashBlock = 0 then
      match fetchBestBlock db below with
      | (hashBlock, below) => (hashBlock, { cache with hashBlock := hashBlock } :: below)
    else (cache.hashBlock, cache :: below)

def getBestBlock (s : CoinsStack) : UInt256 × CoinsStack :=
  match fetchBestBlock s.db s.caches with
  | (hashBlock, caches) => (hashBlock, { s with caches := caches })

def setBestBlock (s : CoinsStack) (hashBlockIn : UInt256) : CoinsStack :=
  match s.caches with
  | [] => s
  | cache :: below => { s with caches := { cache with hashBlock := hashBlockIn } :: below }

-- The view that the topmost cache is laid over.
def base (s : CoinsStack) : CoinsStack := { s with caches := s.caches.tail }

-- `Flush` of the topmost cache, which stays in use.
def flushTop (s : CoinsStack) : Option CoinsStack :=
  match s.caches with
  | [] => some s
  | cache :: _ => (s.flush ops).map fun base =>
      { base with caches := { cache with cacheCoins := ∅ } :: base.caches }

inductive Call where
  | setBestBlock (hashBlockIn : UInt256)
  | getBestBlock
  | modifyCoins (txid : UInt256) (edit : CCoins → CCoins)
  | flush

def call (s : CoinsStack) : Call → Option CoinsStack
  | .setBestBlock hashBlockIn => some (s.setBestBlock hashBlockIn)
  | .getBestBlock => some s.getBestBlock.2
  | .modifyCoins txid edit => some (s.modifyCoins ops txid edit)
  | .flush => s.flushTop ops

-- The stack before each `Flush` of a run and the stack right after it; a failed assertion
-- ends the run.
def flushes (s : CoinsStack) : List Call → List (CoinsStack × CoinsStack)
  | [] => []
  | c :: calls =>
    match s.call ops c with
    | none => []
    | some s' =>
      match c with
      | .flush => (s, s') :: flushes s' calls
      | _ => flushes s' calls

def hashBlocks (s : CoinsStack) : List UInt256 := s.caches.map (·.hashBlock)

def Covered (s : CoinsStack) : Prop :=
  LayeredValue.Covered 0 s.db.hashBestChain s.hashBlocks

instance (s : CoinsStack) : Decidable s.Covered :=
  inferInstanceAs (Decidable (LayeredValue.Covered 0 s.db.hashBestChain s.hashBlocks))

end Definitions

variable {ops : PubKeyOps} {s s' : CoinsStack} {db : CCoinsViewDB}

theorem fetchBestBlock_fst (caches : List CCoinsViewCache) :
    (fetchBestBlock db caches).1 = topValue 0 db.hashBestChain (caches.map (·.hashBlock)) := by
  induction caches with
  | nil => rfl
  | cons cache below ih =>
    rw [fetchBestBlock, List.map_cons, topValue]
    split
    · exact ih
    · rfl

theorem fetchBestBlock_snd (caches : List CCoinsViewCache) :
    (fetchBestBlock db caches).2.map (·.hashBlock) =
      fetch 0 db.hashBestChain (caches.map (·.hashBlock)) := by
  induction caches with
  | nil => rfl
  | cons cache below ih =>
    rw [fetchBestBlock, List.map_cons, fetch]
    split
    · rw [List.map_cons, ih, fetchBestBlock_fst]
    · rfl

theorem getBestBlock_eq (s : CoinsStack) :
    s.getBestBlock.1 = topValue 0 s.db.hashBestChain s.hashBlocks := fetchBestBlock_fst s.caches

theorem hashBlock_fetchCoins (txid : UInt256) (caches : List CCoinsViewCache) :
    (fetchCoins ops db txid caches).2.map (·.hashBlock) = caches.map (·.hashBlock) := by
  induction caches with
  | nil => rfl
  | cons cache below ih =>
    rw [fetchCoins]
    split
    · rfl
    · split
      · rename_i hfetch
        rw [hfetch] at ih
        rw [List.map_cons, ih, List.map_cons]
      · rename_i hfetch
        rw [hfetch] at ih
        rw [List.map_cons, ih, List.map_cons]

theorem hashBlock_entryToModify (txid : UInt256) (cache : CCoinsViewCache)
    (below : List CCoinsViewCache) :
    (entryToModify ops db txid cache below).2.map (·.hashBlock) = below.map (·.hashBlock) := by
  have hfetch := @hashBlock_fetchCoins ops db txid below
  rw [entryToModify]
  split
  · rfl
  · split <;> (rename_i hb; rw [hb] at hfetch; exact hfetch)

theorem hashBlocks_modifyCoins (s : CoinsStack) (txid : UInt256) (edit : CCoins → CCoins) :
    (s.modifyCoins ops txid edit).hashBlocks = s.hashBlocks ∧
      (s.modifyCoins ops txid edit).db = s.db := by
  obtain ⟨caches, db⟩ := s
  cases caches with
  | nil => exact ⟨rfl, rfl⟩
  | cons cache below =>
    have hbelow := @hashBlock_entryToModify ops db txid cache below
    exact ⟨congrArg (cache.hashBlock :: ·) hbelow, rfl⟩

-- What a flush leaves at its parent: the raw field of the cache in the parent's, or the
-- database's record, which a null hash does not overwrite.
theorem flush_eq_some (h : s.flush ops = some s') :
    match s.hashBlocks with
    | [] => s' = s
    | [top] => s'.hashBlocks = [] ∧ s'.db.hashBestChain = topValue 0 s.db.hashBestChain [top]
    | top :: _ :: below => s'.hashBlocks = top :: below ∧ s'.db = s.db := by
  obtain ⟨caches, db⟩ := s
  match caches with
  | [] => exact (Option.some.inj h).symm
  | [cache] =>
    rw [← Option.some.inj h]
    exact ⟨rfl, rfl⟩
  | cache :: parent :: below =>
    obtain ⟨parent', hparent, rfl⟩ := Option.map_eq_some_iff.mp h
    obtain ⟨cacheCoins, -, rfl⟩ := Option.map_eq_some_iff.mp hparent
    exact ⟨rfl, rfl⟩

theorem flush_bestBlock_iff (h : s.flush ops = some s') :
    s'.getBestBlock.1 = s.getBestBlock.1 ↔ s.Covered := by
  have hflush := flush_eq_some h
  rw [getBestBlock_eq, getBestBlock_eq, Covered]
  cases hlayers : s.hashBlocks with
  | nil =>
    rw [hlayers] at hflush
    rw [hflush, hlayers]
    exact iff_of_true rfl trivial
  | cons top below =>
    cases below with
    | nil =>
      rw [hlayers] at hflush
      rw [hflush.1, hflush.2]
      exact iff_of_true rfl trivial
    | cons next below =>
      rw [hlayers] at hflush
      rw [hflush.1, hflush.2]
      exact topValue_copy_iff

theorem flushTop_eq_some (h : s.flushTop ops = some s') :
    s.flush ops = some s'.base ∧ s'.hashBlocks = s.hashBlocks.take 1 ++ s'.base.hashBlocks := by
  obtain ⟨caches, db⟩ := s
  cases caches with
  | nil =>
    rw [← Option.some.inj h]
    exact ⟨rfl, rfl⟩
  | cons cache below =>
    obtain ⟨parent, hparent, rfl⟩ := Option.map_eq_some_iff.mp h
    exact ⟨hparent, rfl⟩

theorem covered_flushTop (h : s.flushTop ops = some s') : s'.Covered := by
  obtain ⟨hflush, hlayers⟩ := flushTop_eq_some h
  have hbase := flush_eq_some hflush
  rw [Covered, hlayers]
  cases hs : s.hashBlocks with
  | nil =>
    rw [hs] at hbase
    rw [hbase, hs]
    trivial
  | cons top below =>
    cases below with
    | nil =>
      rw [hs] at hbase
      rw [hbase.1]
      trivial
    | cons next below =>
      rw [hs] at hbase
      rw [hbase.1]
      exact covered_copied

theorem covered_setBestBlock {hashBlockIn : UInt256} (h : hashBlockIn ≠ 0) :
    (s.setBestBlock hashBlockIn).Covered := by
  obtain ⟨caches, db⟩ := s
  cases caches with
  | nil => trivial
  | cons cache below => exact covered_of_ne h

-- Only a call that sets the null hash can uncover the stack.
theorem covered_call {c : Call} (hs : s.Covered) (hc : c ≠ .setBestBlock 0)
    (h : s.call ops c = some s') : s'.Covered := by
  cases c with
  | setBestBlock hashBlockIn =>
    rw [← Option.some.inj h]
    refine covered_setBestBlock fun h0 => hc (congrArg Call.setBestBlock h0)
  | getBestBlock =>
    rw [← Option.some.inj h, Covered, hashBlocks, getBestBlock, fetchBestBlock_snd]
    exact covered_fetch hs
  | modifyCoins txid edit =>
    obtain ⟨hlayers, hdb⟩ := @hashBlocks_modifyCoins ops s txid edit
    rw [← Option.some.inj h, Covered, hlayers, hdb]
    exact hs
  | flush => exact covered_flushTop h

theorem mem_flushes_cons {c : Call} {calls : List Call} {p : CoinsStack × CoinsStack}
    (hp : p ∈ s.flushes ops (c :: calls)) :
    ∃ s', s.call ops c = some s' ∧ (c = .flush ∧ p = (s, s') ∨ p ∈ s'.flushes ops calls) := by
  rw [flushes] at hp
  cases hcall : s.call ops c with
  | none =>
    rw [hcall] at hp
    cases hp
  | some s' =>
    rw [hcall] at hp
    refine ⟨s', rfl, ?_⟩
    cases c with
    | flush => exact (List.mem_cons.mp hp).imp_left fun heq => ⟨rfl, heq⟩
    | setBestBlock hashBlockIn => exact .inr hp
    | getBestBlock => exact .inr hp
    | modifyCoins txid edit => exact .inr hp

theorem covered_flushes {calls : List Call} (hs : s.Covered)
    (hcalls : ∀ c ∈ calls, c ≠ .setBestBlock 0) :
    ∀ p ∈ s.flushes ops calls, p.1.Covered := by
  intro p hp
  induction calls generalizing s with
  | nil => cases hp
  | cons c calls ih =>
    rw [List.forall_mem_cons] at hcalls
    obtain ⟨s', hcall, ⟨-, rfl⟩ | hp⟩ := mem_flushes_cons hp
    · exact hs
    · exact ih (covered_call hs hcalls.1 hcall) hcalls.2 hp

theorem flush_of_mem_flushes {calls : List Call} {p : CoinsStack × CoinsStack}
    (hp : p ∈ s.flushes ops calls) : p.1.flush ops = some p.2.base := by
  induction calls generalizing s with
  | nil => cases hp
  | cons c calls ih =>
    obtain ⟨s', hcall, ⟨rfl, rfl⟩ | hp⟩ := mem_flushes_cons hp
    · exact (flushTop_eq_some hcall).1
    · exact ih hp

end CoinsStack

open CoinsStack in
theorem flush_keeps_best_block_iff (ops : PubKeyOps) (s : CoinsStack) (calls : List Call) :
    ((∀ p ∈ s.flushes ops calls, p.2.base.getBestBlock.1 = p.1.getBestBlock.1) ↔
      ∀ p ∈ s.flushes ops calls, p.1.Covered) ∧
    (s.Covered → (∀ c ∈ calls, c ≠ .setBestBlock 0) → ∀ p ∈ s.flushes ops calls, p.1.Covered) := by
  refine ⟨?_, covered_flushes⟩
  refine forall₂_congr fun p hp => ?_
  exact flush_bestBlock_iff (flush_of_mem_flushes hp)

-- the parent has moved on from the database's block, and the child has not read it
open CoinsStack in
theorem flush_loses_best_block :
    ¬∀ (ops : PubKeyOps) (s : CoinsStack) (calls : List Call),
      ∀ p ∈ s.flushes ops calls, p.2.base.getBestBlock.1 = p.1.getBestBlock.1 := by
  intro h
  have hkept := h noKeys ⟨[{}, { hashBlock := 2 }], { hashBestChain := 1 }⟩ [.flush] _
    (List.mem_singleton_self _)
  revert hkept
  decide

end AnkerNode
