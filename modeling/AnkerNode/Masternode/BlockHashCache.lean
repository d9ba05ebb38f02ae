import AnkerNode.Primitives.Transaction
import Std.Data.TreeMap.Lemmas

namespace AnkerNode

-- `chainActive` is read from the tip down, along `pprev`.
structure HashCache where
  chainActive : List UInt256
  mapCacheBlockHashes : Std.TreeMap Int UInt256 := ∅

-- The loop of `GetBlockHash`: the genesis block ends it unread.
def readBack (nBlocksAgo : Nat) : Nat → List UInt256 → Option UInt256
  | n, hash :: pprev :: rest =>
    if nBlocksAgo ≤ n then some hash else readBack nBlocksAgo (n + 1) (pprev :: rest)
  | _, _ => none

namespace HashCache

variable (s : HashCache)

def height : Int := s.chainActive.length - 1

def blockAt (nHeight : Int) : Option UInt256 :=
  if nHeight < 0 then none else s.chainActive.reverse[nHeight.toNat]?

-- the height that is looked up for `nBlockHeight`
def asked (nBlockHeight : Int) : Int := if nBlockHeight = 0 then s.height else nBlockHeight

def readBlockHash (nBlockHeight : Int) : Option UInt256 :=
  if s.height = 0 then none
  else if s.height + 1 < nBlockHeight then none
  else
    let nBlocksAgo := if 0 < nBlockHeight then s.height + 1 - nBlockHeight else 0
    readBack nBlocksAgo.toNat 0 s.chainActive

def getBlockHash (nBlockHeight : Int) : HashCache × Option UInt256 :=
  if s.chainActive.isEmpty then (s, none)
  else
    match s.mapCacheBlockHashes[s.asked nBlockHeight]? with
    | some hash => (s, some hash)
    | none =>
      match s.readBlockHash (s.asked nBlockHeight) with
      | none => (s, none)
      | some hash =>
        ({ s with
            mapCacheBlockHashes := s.mapCacheBlockHashes.insert (s.asked nBlockHeight) hash },
          some hash)

-- a height whose block below is on the chain above the genesis block
def InRange (nBlockHeight : Int) : Prop := 2 ≤ nBlockHeight ∧ nBlockHeight ≤ s.height + 1

def Answers (nBlockHeight : Int) : Prop :=
  s.InRange (s.asked nBlockHeight) →
    ∃ hash, s.blockAt (s.asked nBlockHeight - 1) = some hash ∧
      (s.getBlockHash nBlockHeight).2 = some hash

def Coherent : Prop :=
  ∀ (nBlockHeight : Int) (hash : UInt256), s.mapCacheBlockHashes[nBlockHeight]? = some hash →
    2 ≤ nBlockHeight → s.blockAt (nBlockHeight - 1) = some hash

variable {s}

theorem readBack_eq {nBlocksAgo n : Nat} {chain : List UInt256} (hle : n ≤ nBlocksAgo)
    (hlt : nBlocksAgo - n + 1 < chain.length) :
    readBack nBlocksAgo n chain = chain[nBlocksAgo - n]? := by
  induction chain generalizing n with
  | nil => simp at hlt
  | cons hash rest ih =>
    cases rest with
    | nil => simp at hlt
    | cons pprev rest =>
      rw [readBack]
      split
      · have heq : nBlocksAgo - n = 0 := by omega
        simp [heq]
      · rw [ih (by omega) (by simp only [List.length_cons] at hlt ⊢; omega)]
        have hsucc : nBlocksAgo - n = nBlocksAgo - (n + 1) + 1 := by omega
        rw [hsucc, List.getElem?_cons_succ]

theorem exists_blockAt {nBlockHeight : Int} (hrange : s.InRange nBlockHeight) :
    ∃ hash, s.blockAt (nBlockHeight - 1) = some hash ∧
      s.readBlockHash nBlockHeight = some hash := by
  obtain ⟨hlow, hhigh⟩ := hrange
  simp only [height] at hhigh
  have hago : (s.chainActive.length : Int) - nBlockHeight =
      ((s.chainActive.length - nBlockHeight.toNat : Nat) : Int) := by omega
  have hindex : s.chainActive.length - nBlockHeight.toNat < s.chainActive.length := by omega
  refine ⟨s.chainActive[s.chainActive.length - nBlockHeight.toNat], ?_, ?_⟩
  · rw [blockAt, if_neg (by omega), List.getElem?_reverse (by omega),
      List.getElem?_eq_getElem (by omega)]
    congr 2
    omega
  · rw [readBlockHash, if_neg (by simp only [height]; omega), if_neg (by simp only [height]; omega)]
    simp only [height, if_pos (show (0 : Int) < nBlockHeight by omega), Int.sub_add_cancel, hago,
      Int.toNat_natCast]
    rw [readBack_eq (Nat.zero_le _) (by omega), Nat.sub_zero, List.getElem?_eq_getElem hindex]

theorem getBlockHash_cached {nBlockHeight : Int} {hash : UInt256} (htip : s.chainActive ≠ [])
    (h : s.mapCacheBlockHashes[s.asked nBlockHeight]? = some hash) :
    (s.getBlockHash nBlockHeight).2 = some hash := by
  rw [getBlockHash, if_neg (by simpa using htip), h]

theorem getBlockHash_read {nBlockHeight : Int} (htip : s.chainActive ≠ [])
    (h : s.mapCacheBlockHashes[s.asked nBlockHeight]? = none) :
    (s.getBlockHash nBlockHeight).2 = s.readBlockHash (s.asked nBlockHeight) := by
  rw [getBlockHash, if_neg (by simpa using htip), h]
  dsimp only
  split
  · rename_i hread
    exact hread.symm
  · rename_i hash hread
    exact hread.symm

theorem getBlockHash_miss {nBlockHeight : Int} {hash : UInt256} (htip : s.chainActive ≠ [])
    (h : s.mapCacheBlockHashes[s.asked nBlockHeight]? = none)
    (hread : s.readBlockHash (s.asked nBlockHeight) = some hash) :
    s.getBlockHash nBlockHeight =
      ({ s with
          mapCacheBlockHashes := s.mapCacheBlockHashes.insert (s.asked nBlockHeight) hash },
        some hash) := by
  rw [getBlockHash, if_neg (by simpa using htip), h]
  simp only [hread]

theorem getBlockHash_again (s : HashCache) (nBlockHeight : Int) :
    ((s.getBlockHash nBlockHeight).1.getBlockHash nBlockHeight).2 =
      (s.getBlockHash nBlockHeight).2 := by
  by_cases htip : s.chainActive = []
  · simp [getBlockHash, htip]
  · cases hcached : s.mapCacheBlockHashes[s.asked nBlockHeight]? with
    | some hash => simp [getBlockHash, htip, hcached]
    | none =>
      cases hread : s.readBlockHash (s.asked nBlockHeight) with
      | none => simp [getBlockHash, htip, hcached, hread]
      | some hash =>
        rw [getBlockHash_miss htip hcached hread]
        refine getBlockHash_cached (s := { s with mapCacheBlockHashes := _ }) htip ?_
        exact Std.TreeMap.getElem?_insert_self

theorem chain_of_inRange {nBlockHeight : Int} (hrange : s.InRange nBlockHeight) :
    s.chainActive ≠ [] := by
  intro hnil
  have hhigh := hrange.2
  have hlow := hrange.1
  simp only [height, hnil, List.length_nil] at hhigh
  omega

-- A call is answered rightly just when the cache has nothing wrong for it.
theorem answers_iff (nBlockHeight : Int) :
    s.Answers nBlockHeight ↔ (s.InRange (s.asked nBlockHeight) →
      ∀ hash, s.mapCacheBlockHashes[s.asked nBlockHeight]? = some hash →
        s.blockAt (s.asked nBlockHeight - 1) = some hash) := by
  constructor
  · intro hanswers hrange hash hcached
    obtain ⟨hash', hblock, hresult⟩ := hanswers hrange
    rw [getBlockHash_cached (chain_of_inRange hrange) hcached] at hresult
    rw [hblock, hresult]
  · intro hright hrange
    obtain ⟨hash, hblock, hread⟩ := exists_blockAt hrange
    refine ⟨hash, hblock, ?_⟩
    cases hcached : s.mapCacheBlockHashes[s.asked nBlockHeight]? with
    | none => rw [getBlockHash_read (chain_of_inRange hrange) hcached, hread]
    | some hash' =>
      rw [getBlockHash_cached (chain_of_inRange hrange) hcached,
        ← hright hrange hash' hcached, hblock]

theorem Coherent.answers (h : s.Coherent) (nBlockHeight : Int) : s.Answers nBlockHeight := by
  rw [answers_iff]
  intro hrange hash hcached
  exact h _ hash hcached hrange.1

end HashCache

inductive CacheStep where
  | setTip (chain : List UInt256)
  | query (nBlockHeight : Int)

namespace HashCache

variable {s : HashCache}

def step (s : HashCache) : CacheStep → HashCache
  | .setTip chain => { s with chainActive := chain }
  | .query nBlockHeight => (s.getBlockHash nBlockHeight).1

def run (s : HashCache) (steps : List CacheStep) : HashCache := steps.foldl step s

-- A change of the chain that leaves in place every block whose hash is in the cache.
def KeepsCached (s : HashCache) : CacheStep → Prop
  | .setTip chain =>
    ∀ nBlockHeight : Int, 2 ≤ nBlockHeight → nBlockHeight ∈ s.mapCacheBlockHashes →
      { s with chainActive := chain }.blockAt (nBlockHeight - 1) = s.blockAt (nBlockHeight - 1)
  | .query _ => True

theorem inRange_of_read {nBlockHeight : Int} {hash : UInt256} (hlow : 2 ≤ nBlockHeight)
    (h : s.readBlockHash nBlockHeight = some hash) : s.InRange nBlockHeight := by
  rw [readBlockHash] at h
  split at h
  · simp at h
  · split at h
    · simp at h
    · rename_i hhigh
      exact ⟨hlow, by omega⟩

theorem coherent_query (h : s.Coherent) (nBlockHeight : Int) :
    (s.getBlockHash nBlockHeight).1.Coherent := by
  rw [getBlockHash]
  split
  · exact h
  · split
    · exact h
    · split
      · exact h
      · rename_i hash hread
        intro k hash' hk hlow
        have hk' : (s.mapCacheBlockHashes.insert (s.asked nBlockHeight) hash)[k]? = some hash' := hk
        rw [Std.TreeMap.getElem?_insert] at hk'
        split at hk'
        · rename_i heq
          rw [Std.LawfulEqCmp.compare_eq_iff_eq] at heq
          rw [← Option.some.inj hk', ← heq]
          rw [← heq] at hlow
          obtain ⟨hash'', hblock, hread'⟩ := exists_blockAt (inRange_of_read hlow hread)
          rw [hread] at hread'
          rw [Option.some.inj hread']
          exact hblock
        · exact h k hash' hk' hlow

theorem coherent_step (h : s.Coherent) {x : CacheStep} (hkeeps : s.KeepsCached x) :
    (s.step x).Coherent := by
  cases x with
  | setTip chain =>
    intro k hash hk hlow
    have hcached : s.mapCacheBlockHashes[k]? = some hash := hk
    have hmem : k ∈ s.mapCacheBlockHashes := by
      rw [Std.TreeMap.mem_iff_isSome_getElem?, hcached]
      rfl
    exact (hkeeps k hlow hmem).trans (h k hash hcached hlow)
  | query nBlockHeight => exact coherent_query h nBlockHeight

theorem coherent_run (h : s.Coherent) {steps : List CacheStep}
    (hkeeps : ∀ pre x post, steps = pre ++ x :: post → (s.run pre).KeepsCached x) :
    (s.run steps).Coherent := by
  induction steps using List.reverseRecOn with
  | nil => exact h
  | append_singleton steps x ih =>
    rw [run, List.foldl_append]
    refine coherent_step (ih ?_) (hkeeps steps x [] rfl)
    intro pre y post hsplit
    exact hkeeps pre y (post ++ [x]) (by simp [hsplit])

theorem blockHash_cache_transparent (chain : List UInt256) (steps : List CacheStep)
    (hkeeps : ∀ pre x post, steps = pre ++ x :: post →
      (run { chainActive := chain } pre).KeepsCached x) :
    ∀ pre nBlockHeight post, steps = pre ++ .query nBlockHeight :: post →
      (run { chainActive := chain } pre).Answers nBlockHeight := by
  intro pre nBlockHeight post hsplit
  have hempty : HashCache.Coherent { chainActive := chain } := by
    intro k hash hk
    simp at hk
  refine (coherent_run hempty ?_).answers nBlockHeight
  intro pre' x post' hpre
  exact hkeeps pre' x (post' ++ .query nBlockHeight :: post) (by simp [hsplit, hpre])

def shortChain : HashCache where
  chainActive := [12, 11, 10]

theorem blockHash_cache_transparent_extension :
    (run shortChain [.query 2, .setTip [13, 12, 11, 10]]).Answers 2 := by
  refine blockHash_cache_transparent [12, 11, 10]
    [.query 2, .setTip [13, 12, 11, 10], .query 2] ?_ [.query 2, .setTip [13, 12, 11, 10]] 2 [] rfl
  intro pre x post hsplit
  cases x with
  | query nBlockHeight => trivial
  | setTip chain =>
    rcases pre with - | ⟨x, - | ⟨x', - | ⟨x'', pre⟩⟩⟩
    · simp at hsplit
    · simp only [List.cons_append, List.nil_append, List.cons.injEq, CacheStep.setTip.injEq]
        at hsplit
      obtain ⟨rfl, rfl, -⟩ := hsplit
      intro k hlow hk
      have hcached : (run shortChain [.query 2]).mapCacheBlockHashes.toList = [(2, 11)] := by
        decide +kernel
      have hkeys : k ∈ (run shortChain [.query 2]).mapCacheBlockHashes := hk
      obtain ⟨hash, hhash⟩ := Option.isSome_iff_exists.mp
        (Std.TreeMap.mem_iff_isSome_getElem?.mp hkeys)
      have hmem := Std.TreeMap.mem_toList_iff_getElem?_eq_some.mpr hhash
      rw [hcached, List.mem_singleton, Prod.mk.injEq] at hmem
      rw [hmem.1]
      decide +kernel
    · simp at hsplit
    · simp at hsplit

-- A reorganisation replaces the block at height 1 after its hash has been asked for.
theorem blockHash_cache_stale :
    ¬(run shortChain [.query 2, .setTip [22, 21, 10]]).Answers 2 := by
  rw [answers_iff]
  intro h
  have hcached : (run shortChain [.query 2, .setTip [22, 21, 10]]).mapCacheBlockHashes[
      (2 : Int)]? = some 11 := by decide +kernel
  have hblock := h ⟨by decide, by decide⟩ 11 hcached
  revert hblock
  decide +kernel

end HashCache

end AnkerNode
