import AnkerNode.Lib.Ranking
import AnkerNode.Masternode.BlockHashCache
import AnkerNode.Masternode.Masternode

namespace AnkerNode

open Ranking Sorting

def MN_WINNER_MINIMUM_AGE : Int := 8000

def int32Wrap (n : Int) : Int := Int.bmod n (2 ^ 32)

def bits (n : UInt256) : Nat := if n = 0 then 0 else n.toNat.log2 + 1

-- `GetCompact(false)`
def getCompact (n : UInt256) : Int :=
  let nSize := (bits n + 7) / 8
  let nCompact := if nSize ≤ 3 then n.toNat <<< (8 * (3 - nSize)) else n.toNat >>> (8 * (nSize - 3))
  if nCompact.testBit 23 then ((nCompact >>> 8) ||| ((nSize + 1) <<< 24) : Nat)
  else (nCompact ||| (nSize <<< 24) : Nat)

-- `CHashWriter` over a block hash alone, and over one with the number of an outpoint
structure ScoreHashes where
  ofBlock : UInt256 → UInt256
  ofBlockAux : UInt256 → UInt256 → UInt256

-- `outpoints_nodup` is what `Add` looks after.
structure MasternodeMan where
  hashes : HashCache
  checkEnv : CheckEnv
  fPaymentEnforcement : Bool
  vMasternodes : List MasternodeEntry
  outpoints_nodup : (vMasternodes.map fun mn => mn.vin.prevout).Nodup

-- an element of `vecMasternodeScores`
abbrev MasternodeScore := Int × CTxIn

def MasternodeScore.prevout (s : MasternodeScore) : COutPoint := s.2.prevout

-- ranks are counted from 1
def rankNumber : Option Nat → Int
  | none => -1
  | some i => (i : Int) + 1

def calculateScore (scoreHashes : ScoreHashes) (hash : Option UInt256) (vin : CTxIn) : UInt256 :=
  match hash with
  | none => 0
  | some hash =>
    let aux := vin.prevout.hash + BitVec.ofNat 256 vin.prevout.n.toNat
    let hash2 := scoreHashes.ofBlock hash
    let hash3 := scoreHashes.ofBlockAux hash aux
    if hash2 < hash3 then hash3 - hash2 else hash2 - hash3

namespace MasternodeMan

variable (m : MasternodeMan) (scoreHashes : ScoreHashes) (nBlockHeight minProtocol : Int)
  (fOnlyActive : Bool)

def find (vin : CTxIn) : Option MasternodeEntry :=
  m.vMasternodes.find? fun mn => mn.vin.prevout == vin.prevout

def blockHash : Option UInt256 := (m.hashes.getBlockHash (int32Wrap nBlockHeight)).2

def compactScore (vin : CTxIn) : Int :=
  getCompact (calculateScore scoreHashes (m.blockHash nBlockHeight) vin)

def isMature (mn : MasternodeEntry) : Bool :=
  !(m.fPaymentEnforcement &&
    decide (m.checkEnv.nAdjustedTime - mn.sigTime < MN_WINNER_MINIMUM_AGE))

-- the filter that the two functions share
def isListed (mn : MasternodeEntry) : Bool :=
  !decide (mn.protocolVersion < minProtocol) &&
    (!fOnlyActive || (mn.check m.checkEnv false).isEnabled)

-- the filter of `GetMasternodeRank`
def isRanked (mn : MasternodeEntry) : Bool :=
  m.isListed minProtocol fOnlyActive mn && m.isMature mn

def scoresOf (p : MasternodeEntry → Bool) : List MasternodeScore :=
  (m.vMasternodes.filter p).map fun mn => (m.compactScore scoreHashes nBlockHeight mn.vin, mn.vin)

-- `vecMasternodeScores` of `GetMasternodeRank` and of `GetMasternodeByRank`, before the sort
def rankScores : List MasternodeScore :=
  if (m.blockHash nBlockHeight).isNone then []
  else m.scoresOf scoreHashes nBlockHeight (m.isRanked minProtocol fOnlyActive)

def byRankScores : List MasternodeScore :=
  m.scoresOf scoreHashes nBlockHeight (m.isListed minProtocol fOnlyActive)

-- The functions are given what `std::sort` makes of the scores.
def getMasternodeRank (order : List MasternodeScore) (vin : CTxIn) : Int :=
  if (m.blockHash nBlockHeight).isNone then -1
  else rankNumber (place MasternodeScore.prevout order vin.prevout)

def getMasternodeByRank (order : List MasternodeScore) (nRank : Int) : Option MasternodeEntry :=
  if nRank < 1 then none else order[(nRank - 1).toNat]?.bind fun s => m.find s.2

-- what `GetMasternodeRank` checks on its way
def checkRanked (mn : MasternodeEntry) : MasternodeEntry :=
  if !decide (mn.protocolVersion < minProtocol) && m.isMature mn && fOnlyActive then
    mn.check m.checkEnv false
  else mn

-- what `GetMasternodeRank` leaves of the node
def afterRank : MasternodeMan where
  hashes := (m.hashes.getBlockHash (int32Wrap nBlockHeight)).1
  checkEnv := m.checkEnv
  fPaymentEnforcement := m.fPaymentEnforcement
  vMasternodes :=
    if (m.blockHash nBlockHeight).isNone then m.vMasternodes
    else m.vMasternodes.map (m.checkRanked minProtocol fOnlyActive)
  outpoints_nodup := by
    have hvin : ∀ mn, (m.checkRanked minProtocol fOnlyActive mn).vin = mn.vin := by
      intro mn
      rw [checkRanked]
      split
      · exact MasternodeEntry.check_vin false
      · rfl
    split
    · exact m.outpoints_nodup
    · rw [List.map_map]
      simpa only [Function.comp_def, hvin] using m.outpoints_nodup

section Orders

variable {m m₁ m₂ : MasternodeMan} {scoreHashes : ScoreHashes} {nBlockHeight minProtocol : Int}
  {fOnlyActive : Bool} {order order' : List MasternodeScore}

-- A masternode that `GetMasternodeRank` puts into the order.
def Ranks (m : MasternodeMan) (nBlockHeight minProtocol : Int) (fOnlyActive : Bool)
    (mn : MasternodeEntry) : Prop :=
  (m.blockHash nBlockHeight).isSome = true ∧ m.isRanked minProtocol fOnlyActive mn = true

-- Two nodes rank the same masternodes, and their compact scores put them in the same strict order.
structure SameOrder (m₁ m₂ : MasternodeMan) (scoreHashes : ScoreHashes)
    (nBlockHeight minProtocol : Int) (fOnlyActive : Bool) : Prop where
  ranked : ∀ mn ∈ m₁.vMasternodes, m₁.Ranks nBlockHeight minProtocol fOnlyActive mn ↔
    m₂.Ranks nBlockHeight minProtocol fOnlyActive mn
  ordered : ∀ a ∈ m₁.vMasternodes, ∀ b ∈ m₁.vMasternodes,
    m₁.Ranks nBlockHeight minProtocol fOnlyActive a →
    m₁.Ranks nBlockHeight minProtocol fOnlyActive b → a.vin.prevout ≠ b.vin.prevout →
    (m₁.compactScore scoreHashes nBlockHeight a.vin < m₁.compactScore scoreHashes nBlockHeight b.vin ∧
      m₂.compactScore scoreHashes nBlockHeight a.vin <
        m₂.compactScore scoreHashes nBlockHeight b.vin) ∨
    (m₁.compactScore scoreHashes nBlockHeight b.vin < m₁.compactScore scoreHashes nBlockHeight a.vin ∧
      m₂.compactScore scoreHashes nBlockHeight b.vin <
        m₂.compactScore scoreHashes nBlockHeight a.vin)

-- No masternode that only its age keeps out of the ranks stands before a ranked one.
def NoneAhead (m : MasternodeMan) (scoreHashes : ScoreHashes) (nBlockHeight minProtocol : Int)
    (fOnlyActive : Bool) : Prop :=
  ∀ a ∈ m.vMasternodes, m.Ranks nBlockHeight minProtocol fOnlyActive a →
    ∀ b ∈ m.vMasternodes, m.isListed minProtocol fOnlyActive b = true →
      b.vin.prevout ≠ a.vin.prevout →
      m.compactScore scoreHashes nBlockHeight b.vin ≠ m.compactScore scoreHashes nBlockHeight a.vin ∧
        (m.compactScore scoreHashes nBlockHeight a.vin < m.compactScore scoreHashes nBlockHeight b.vin →
          m.Ranks nBlockHeight minProtocol fOnlyActive b)

theorem mem_scoresOf {p : MasternodeEntry → Bool} {s : MasternodeScore} :
    s ∈ m.scoresOf scoreHashes nBlockHeight p ↔ ∃ mn ∈ m.vMasternodes, p mn = true ∧
      (m.compactScore scoreHashes nBlockHeight mn.vin, mn.vin) = s := by
  simp only [scoresOf, List.mem_map, List.mem_filter, and_assoc]

theorem mem_rankScores {s : MasternodeScore} :
    s ∈ m.rankScores scoreHashes nBlockHeight minProtocol fOnlyActive ↔ ∃ mn ∈ m.vMasternodes,
      m.Ranks nBlockHeight minProtocol fOnlyActive mn ∧
        (m.compactScore scoreHashes nBlockHeight mn.vin, mn.vin) = s := by
  rw [rankScores]
  cases hhash : m.blockHash nBlockHeight with
  | none => simp [Ranks, hhash]
  | some hash =>
    simp only [Option.isNone_some, Bool.false_eq_true, if_false, mem_scoresOf, Ranks, hhash,
      Option.isSome_some, true_and]

theorem rankScores_sublist :
    (m.rankScores scoreHashes nBlockHeight minProtocol fOnlyActive).Sublist
      (m.byRankScores scoreHashes nBlockHeight minProtocol fOnlyActive) := by
  rw [rankScores]
  split
  · exact List.nil_sublist _
  · refine List.Sublist.map _ (List.monotone_filter_right _ ?_)
    intro mn hmn
    rw [isRanked, Bool.and_eq_true] at hmn
    exact hmn.1

theorem byRankScores_nodup :
    ((m.byRankScores scoreHashes nBlockHeight minProtocol fOnlyActive).map
      MasternodeScore.prevout).Nodup := by
  rw [byRankScores, scoresOf, List.map_map]
  exact m.outpoints_nodup.sublist (List.filter_sublist.map _)

theorem rankScores_nodup :
    ((m.rankScores scoreHashes nBlockHeight minProtocol fOnlyActive).map
      MasternodeScore.prevout).Nodup :=
  byRankScores_nodup.sublist (rankScores_sublist.map _)

theorem entry_eq {a b : MasternodeEntry} (ha : a ∈ m.vMasternodes) (hb : b ∈ m.vMasternodes)
    (h : a.vin.prevout = b.vin.prevout) : a = b :=
  List.inj_on_of_nodup_map m.outpoints_nodup ha hb h

theorem mem_prevouts (scoreHashes : ScoreHashes) {mn : MasternodeEntry} (hmn : mn ∈ m.vMasternodes) :
    mn.vin.prevout ∈ (m.rankScores scoreHashes nBlockHeight minProtocol fOnlyActive).map
        MasternodeScore.prevout ↔ m.Ranks nBlockHeight minProtocol fOnlyActive mn := by
  rw [List.mem_map]
  constructor
  · rintro ⟨s, hs, heq⟩
    obtain ⟨mn', hmn', hranks, rfl⟩ := mem_rankScores.mp hs
    rwa [← entry_eq hmn' hmn heq]
  · intro hranks
    exact ⟨_, mem_rankScores.mpr ⟨mn, hmn, hranks, rfl⟩, rfl⟩

theorem agree_iff (hperm : m₁.vMasternodes.Perm m₂.vMasternodes) :
    Agree MasternodeScore.prevout Prod.fst
        (m₁.rankScores scoreHashes nBlockHeight minProtocol fOnlyActive)
        (m₂.rankScores scoreHashes nBlockHeight minProtocol fOnlyActive) ↔
      SameOrder m₁ m₂ scoreHashes nBlockHeight minProtocol fOnlyActive := by
  constructor
  · intro h
    have hranked : ∀ mn ∈ m₁.vMasternodes, m₁.Ranks nBlockHeight minProtocol fOnlyActive mn ↔
        m₂.Ranks nBlockHeight minProtocol fOnlyActive mn := by
      intro mn hmn
      rw [← mem_prevouts scoreHashes hmn,
        ← mem_prevouts scoreHashes (hperm.subset hmn)]
      exact h.keys _
    refine ⟨hranked, ?_⟩
    intro a ha b hb hra hrb hne
    exact h.ordered _ (mem_rankScores.mpr ⟨a, ha, hra, rfl⟩) _ (mem_rankScores.mpr ⟨b, hb, hrb, rfl⟩)
      _ (mem_rankScores.mpr ⟨a, hperm.subset ha, (hranked a ha).mp hra, rfl⟩)
      _ (mem_rankScores.mpr ⟨b, hperm.subset hb, (hranked b hb).mp hrb, rfl⟩) rfl rfl hne
  · intro h
    refine ⟨?_, ?_⟩
    · intro k
      constructor
      · intro hk
        obtain ⟨s, hs, rfl⟩ := List.mem_map.mp hk
        obtain ⟨mn, hmn, hranks, rfl⟩ := mem_rankScores.mp hs
        exact (mem_prevouts scoreHashes (hperm.subset hmn)).mpr ((h.ranked mn hmn).mp hranks)
      · intro hk
        obtain ⟨s, hs, rfl⟩ := List.mem_map.mp hk
        obtain ⟨mn, hmn, hranks, rfl⟩ := mem_rankScores.mp hs
        have hmn' := hperm.symm.subset hmn
        exact (mem_prevouts scoreHashes hmn').mpr ((h.ranked mn hmn').mpr hranks)
    · intro s hs t ht s' hs' t' ht' hkey hkey' hne
      obtain ⟨a, ha, hra, rfl⟩ := mem_rankScores.mp hs
      obtain ⟨b, hb, hrb, rfl⟩ := mem_rankScores.mp ht
      obtain ⟨a', ha', -, rfl⟩ := mem_rankScores.mp hs'
      obtain ⟨b', hb', -, rfl⟩ := mem_rankScores.mp ht'
      rw [← entry_eq (hperm.subset ha) ha' hkey, ← entry_eq (hperm.subset hb) hb' hkey']
      exact h.ordered a ha b hb hra hrb hne

theorem getMasternodeRank_eq (vin : CTxIn)
    (horder : SortsTo (higher Prod.fst)
      (m.rankScores scoreHashes nBlockHeight minProtocol fOnlyActive) order) :
    m.getMasternodeRank nBlockHeight order vin =
      rankNumber (place MasternodeScore.prevout order vin.prevout) := by
  rw [getMasternodeRank]
  split
  · rename_i hnone
    have hempty : order = [] := by
      have hperm := horder.perm
      rw [rankScores, if_pos hnone] at hperm
      exact hperm.eq_nil
    simp [hempty, place, rankNumber]
  · rfl

theorem rankNumber_inj {i j : Option Nat} : rankNumber i = rankNumber j ↔ i = j := by
  cases i with
  | none =>
    cases j with
    | none => simp
    | some j => simp only [rankNumber, reduceCtorEq, iff_false]; omega
  | some i =>
    cases j with
    | none => simp only [rankNumber, reduceCtorEq, iff_false]; omega
    | some j => simp [rankNumber]

theorem ranks_agree_iff (hperm : m₁.vMasternodes.Perm m₂.vMasternodes) :
    (∀ order₁ order₂,
      SortsTo (higher Prod.fst) (m₁.rankScores scoreHashes nBlockHeight minProtocol fOnlyActive)
        order₁ →
      SortsTo (higher Prod.fst) (m₂.rankScores scoreHashes nBlockHeight minProtocol fOnlyActive)
        order₂ →
      ∀ vin, m₁.getMasternodeRank nBlockHeight order₁ vin =
        m₂.getMasternodeRank nBlockHeight order₂ vin) ↔
    SameOrder m₁ m₂ scoreHashes nBlockHeight minProtocol fOnlyActive := by
  rw [← agree_iff hperm, ← places_agree_iff rankScores_nodup rankScores_nodup]
  refine forall_congr' fun order₁ => forall_congr' fun order₂ => forall_congr' fun h₁ =>
    forall_congr' fun h₂ => ?_
  constructor
  · intro hranks k
    have hrank := hranks ⟨k, [], 0⟩
    rwa [getMasternodeRank_eq _ h₁, getMasternodeRank_eq _ h₂, rankNumber_inj] at hrank
  · intro hplaces vin
    rw [getMasternodeRank_eq _ h₁, getMasternodeRank_eq _ h₂, hplaces]

theorem blockHash_afterRank :
    (m.afterRank nBlockHeight minProtocol fOnlyActive).blockHash nBlockHeight =
      m.blockHash nBlockHeight := by
  simp only [blockHash, afterRank, HashCache.getBlockHash_again]

theorem checkRanked_vin (mn : MasternodeEntry) :
    (m.checkRanked minProtocol fOnlyActive mn).vin = mn.vin := by
  rw [checkRanked]
  split
  · exact MasternodeEntry.check_vin false
  · rfl

theorem isListed_checkRanked (mn : MasternodeEntry) :
    (m.afterRank nBlockHeight minProtocol fOnlyActive).isListed minProtocol fOnlyActive
        (m.checkRanked minProtocol fOnlyActive mn) =
      m.isListed minProtocol fOnlyActive mn := by
  rw [checkRanked]
  split
  · simp only [isListed, afterRank, MasternodeEntry.check_protocolVersion,
      MasternodeEntry.check_check]
  · rfl

theorem byRankScores_afterRank :
    (m.afterRank nBlockHeight minProtocol fOnlyActive).byRankScores scoreHashes nBlockHeight
        minProtocol fOnlyActive =
      m.byRankScores scoreHashes nBlockHeight minProtocol fOnlyActive := by
  simp only [byRankScores, scoresOf, compactScore, blockHash_afterRank]
  cases hhash : (m.blockHash nBlockHeight).isNone with
  | true => simp only [afterRank, hhash, if_true]; rfl
  | false =>
    have hlist : (m.afterRank nBlockHeight minProtocol fOnlyActive).vMasternodes =
        m.vMasternodes.map (m.checkRanked minProtocol fOnlyActive) := by
      simp [afterRank, hhash]
    rw [hlist, List.filter_map, List.map_map]
    simp only [Function.comp_def, isListed_checkRanked, checkRanked_vin]

theorem find_outpoint {mn : MasternodeEntry} {vin : CTxIn} (hmn : mn ∈ m.vMasternodes)
    (h : mn.vin.prevout = vin.prevout) :
    ((m.find vin).map fun mn => mn.vin.prevout) = some vin.prevout := by
  cases hfind : m.find vin with
  | none =>
    have hnot := List.find?_eq_none.mp hfind mn hmn
    simp [h] at hnot
  | some mn' =>
    have hfound := List.find?_some hfind
    simpa using hfound

theorem getMasternodeByRank_outpoint (i : Nat)
    (horder : SortsTo (higher Prod.fst)
      (m.byRankScores scoreHashes nBlockHeight minProtocol fOnlyActive) order) :
    ((m.getMasternodeByRank order ((i : Int) + 1)).map fun mn => mn.vin.prevout) =
      (order[i]?).map MasternodeScore.prevout := by
  rw [getMasternodeByRank, if_neg (by omega), Int.add_sub_cancel, Int.toNat_natCast]
  cases hs : order[i]? with
  | none => rfl
  | some s =>
    obtain ⟨mn, hmn, -, rfl⟩ := mem_scoresOf.mp (horder.perm.subset (List.mem_of_getElem? hs))
    exact find_outpoint hmn rfl

theorem noneAhead_iff :
    (∀ a ∈ m.rankScores scoreHashes nBlockHeight minProtocol fOnlyActive,
      ∀ b ∈ m.byRankScores scoreHashes nBlockHeight minProtocol fOnlyActive,
        b.prevout ≠ a.prevout → b.1 ≠ a.1 ∧ (a.1 < b.1 → b.prevout ∈
          (m.rankScores scoreHashes nBlockHeight minProtocol fOnlyActive).map
            MasternodeScore.prevout)) ↔
    m.NoneAhead scoreHashes nBlockHeight minProtocol fOnlyActive := by
  constructor
  · intro h a ha hra b hb hlisted hne
    obtain ⟨hscore, hahead⟩ := h _ (mem_rankScores.mpr ⟨a, ha, hra, rfl⟩) _
      (mem_scoresOf.mpr ⟨b, hb, hlisted, rfl⟩) hne
    refine ⟨hscore, ?_⟩
    intro hlt
    exact (mem_prevouts scoreHashes hb).mp (hahead hlt)
  · intro h s hs t ht hne
    obtain ⟨a, ha, hra, rfl⟩ := mem_rankScores.mp hs
    obtain ⟨b, hb, hlisted, rfl⟩ := mem_scoresOf.mp ht
    obtain ⟨hscore, hahead⟩ := h a ha hra b hb hlisted hne
    refine ⟨hscore, ?_⟩
    intro hlt
    exact (mem_prevouts scoreHashes hb).mpr (hahead hlt)

theorem byRank_inverse_iff :
    (∀ order order',
      SortsTo (higher Prod.fst) (m.rankScores scoreHashes nBlockHeight minProtocol fOnlyActive)
        order →
      SortsTo (higher Prod.fst)
        ((m.afterRank nBlockHeight minProtocol fOnlyActive).byRankScores scoreHashes nBlockHeight
          minProtocol fOnlyActive) order' →
      ∀ vin, m.getMasternodeRank nBlockHeight order vin ≠ -1 →
        (((m.afterRank nBlockHeight minProtocol fOnlyActive).getMasternodeByRank order'
            (m.getMasternodeRank nBlockHeight order vin)).map fun mn => mn.vin.prevout) =
          some vin.prevout) ↔
    m.NoneAhead scoreHashes nBlockHeight minProtocol fOnlyActive := by
  rw [← noneAhead_iff]
  refine Iff.trans ?_ (places_kept_iff rankScores_sublist byRankScores_nodup)
  refine forall_congr' fun order => forall_congr' fun order' => forall_congr' fun h => ?_
  constructor
  · intro hback h' k i hi
    rw [← byRankScores_afterRank] at h'
    have hrank : m.getMasternodeRank nBlockHeight order ⟨k, [], 0⟩ = (i : Int) + 1 := by
      rw [getMasternodeRank_eq _ h, hi]
      rfl
    have hfound := hback h' ⟨k, [], 0⟩ (by omega)
    rwa [hrank, getMasternodeByRank_outpoint i h'] at hfound
  · intro hplaces h' vin hne
    rw [getMasternodeRank_eq _ h] at hne ⊢
    cases hplace : place MasternodeScore.prevout order vin.prevout with
    | none => exact absurd (by rw [hplace]; rfl) hne
    | some i =>
      rw [rankNumber, getMasternodeByRank_outpoint i h']
      rw [byRankScores_afterRank] at h'
      exact hplaces h' _ i hplace

theorem masternode_rank_shared_iff (m₁ m₂ : MasternodeMan) (scoreHashes : ScoreHashes)
    (nBlockHeight minProtocol : Int) (fOnlyActive : Bool)
    (hperm : m₁.vMasternodes.Perm m₂.vMasternodes) :
    ((∀ order₁ order₂,
        SortsTo (higher Prod.fst) (m₁.rankScores scoreHashes nBlockHeight minProtocol fOnlyActive)
          order₁ →
        SortsTo (higher Prod.fst) (m₂.rankScores scoreHashes nBlockHeight minProtocol fOnlyActive)
          order₂ →
        ∀ vin, m₁.getMasternodeRank nBlockHeight order₁ vin =
          m₂.getMasternodeRank nBlockHeight order₂ vin) ∧
      ∀ order order',
        SortsTo (higher Prod.fst) (m₁.rankScores scoreHashes nBlockHeight minProtocol fOnlyActive)
          order →
        SortsTo (higher Prod.fst)
          ((m₁.afterRank nBlockHeight minProtocol fOnlyActive).byRankScores scoreHashes nBlockHeight
            minProtocol fOnlyActive) order' →
        ∀ vin, m₁.getMasternodeRank nBlockHeight order vin ≠ -1 →
          (((m₁.afterRank nBlockHeight minProtocol fOnlyActive).getMasternodeByRank order'
              (m₁.getMasternodeRank nBlockHeight order vin)).map fun mn => mn.vin.prevout) =
            some vin.prevout) ↔
    SameOrder m₁ m₂ scoreHashes nBlockHeight minProtocol fOnlyActive ∧
      m₁.NoneAhead scoreHashes nBlockHeight minProtocol fOnlyActive :=
  and_congr (ranks_agree_iff hperm) byRank_inverse_iff

-- Nodes on one chain whose caches are coherent read the same hash.
theorem blockHash_of_coherent (h₁ : m₁.hashes.Coherent) (h₂ : m₂.hashes.Coherent)
    (hchain : m₁.hashes.chainActive = m₂.hashes.chainActive)
    (hrange : m₁.hashes.InRange (m₁.hashes.asked (int32Wrap nBlockHeight))) :
    m₁.blockHash nBlockHeight = m₂.blockHash nBlockHeight := by
  have hasked : m₂.hashes.asked (int32Wrap nBlockHeight) =
      m₁.hashes.asked (int32Wrap nBlockHeight) := by
    simp only [HashCache.asked, HashCache.height, hchain]
  have hrange₂ : m₂.hashes.InRange (m₂.hashes.asked (int32Wrap nBlockHeight)) := by
    rw [hasked]
    simpa only [HashCache.InRange, HashCache.height, hchain] using hrange
  obtain ⟨hash₁, hblock₁, hread₁⟩ := h₁.answers _ hrange
  obtain ⟨hash₂, hblock₂, hread₂⟩ := h₂.answers _ hrange₂
  have hsame : hash₁ = hash₂ := by
    rw [hasked] at hblock₂
    simp only [HashCache.blockAt, hchain] at hblock₁ hblock₂
    exact Option.some.inj (hblock₁.symm.trans hblock₂)
  rw [blockHash, blockHash, hread₁, hread₂, hsame]

-- What is left to ask of two nodes that see the same block hash and run the same checks.
theorem sameOrder_of_apart (hcheck : m₁.checkEnv = m₂.checkEnv)
    (hspork : m₁.fPaymentEnforcement = m₂.fPaymentEnforcement)
    (hhash : m₁.blockHash nBlockHeight = m₂.blockHash nBlockHeight)
    (hapart : ∀ a ∈ m₁.vMasternodes, ∀ b ∈ m₁.vMasternodes,
      m₁.Ranks nBlockHeight minProtocol fOnlyActive a →
      m₁.Ranks nBlockHeight minProtocol fOnlyActive b → a.vin.prevout ≠ b.vin.prevout →
      m₁.compactScore scoreHashes nBlockHeight a.vin ≠
        m₁.compactScore scoreHashes nBlockHeight b.vin) :
    SameOrder m₁ m₂ scoreHashes nBlockHeight minProtocol fOnlyActive := by
  have hscore : ∀ vin, m₂.compactScore scoreHashes nBlockHeight vin =
      m₁.compactScore scoreHashes nBlockHeight vin := by
    intro vin
    rw [compactScore, compactScore, hhash]
  refine ⟨?_, ?_⟩
  · intro mn _
    simp only [Ranks, isRanked, isListed, isMature, hcheck, hspork, hhash]
  · intro a ha b hb hra hrb hne
    simp only [hscore, and_self]
    exact lt_or_gt_of_ne (hapart a ha b hb hra hrb hne)

def plainEntry (hash : UInt256) : MasternodeEntry where
  vin := ⟨⟨hash, 0⟩, [], 0xffffffff⟩
  pubKeyMasternode := []
  protocolVersion := 0

def plainHashes (base : UInt256) : ScoreHashes where
  ofBlock _ := 0
  ofBlockAux _ aux := base + aux

def plainMan : MasternodeMan where
  hashes := HashCache.shortChain
  checkEnv := { nTime := 0, nAdjustedTime := 0 }
  fPaymentEnforcement := false
  vMasternodes := [plainEntry 1, plainEntry 2]
  outpoints_nodup := by decide

def swappedMan : MasternodeMan where
  hashes := HashCache.shortChain
  checkEnv := { nTime := 0, nAdjustedTime := 0 }
  fPaymentEnforcement := false
  vMasternodes := [plainEntry 2, plainEntry 1]
  outpoints_nodup := by decide

theorem plain_scores :
    plainMan.compactScore (plainHashes 0) 2 (plainEntry 1).vin <
      plainMan.compactScore (plainHashes 0) 2 (plainEntry 2).vin := by
  decide +kernel

theorem plain_apart {a b : MasternodeEntry} (ha : a ∈ plainMan.vMasternodes)
    (hb : b ∈ plainMan.vMasternodes) (hne : a.vin.prevout ≠ b.vin.prevout) :
    plainMan.compactScore (plainHashes 0) 2 a.vin ≠ plainMan.compactScore (plainHashes 0) 2 b.vin := by
  have hscores := plain_scores
  simp only [plainMan, List.mem_cons, List.not_mem_nil, or_false] at ha hb
  rcases ha with rfl | rfl
  · rcases hb with rfl | rfl
    · exact absurd rfl hne
    · exact hscores.ne
  · rcases hb with rfl | rfl
    · exact hscores.ne'
    · exact absurd rfl hne

theorem masternode_rank_shared_plain :
    (∀ order₁ order₂,
      SortsTo (higher Prod.fst) (plainMan.rankScores (plainHashes 0) 2 0 true) order₁ →
      SortsTo (higher Prod.fst) (swappedMan.rankScores (plainHashes 0) 2 0 true) order₂ →
      ∀ vin, plainMan.getMasternodeRank 2 order₁ vin = swappedMan.getMasternodeRank 2 order₂ vin) ∧
    ∀ order order',
      SortsTo (higher Prod.fst) (plainMan.rankScores (plainHashes 0) 2 0 true) order →
      SortsTo (higher Prod.fst)
        ((plainMan.afterRank 2 0 true).byRankScores (plainHashes 0) 2 0 true) order' →
      ∀ vin, plainMan.getMasternodeRank 2 order vin ≠ -1 →
        (((plainMan.afterRank 2 0 true).getMasternodeByRank order'
            (plainMan.getMasternodeRank 2 order vin)).map fun mn => mn.vin.prevout) =
          some vin.prevout := by
  refine (masternode_rank_shared_iff plainMan swappedMan (plainHashes 0) 2 0 true
    (List.Perm.swap _ _ _)).mpr ⟨sameOrder_of_apart rfl rfl rfl ?_, ?_⟩
  · intro a ha b hb _ _ hne
    exact plain_apart ha hb hne
  · intro a ha hra b hb hlisted hne
    refine ⟨plain_apart hb ha hne, ?_⟩
    intro _
    refine ⟨hra.1, ?_⟩
    rw [isRanked, hlisted]
    rfl

-- Two compact scores are the same although the scores are not.
theorem masternode_rank_tied :
    ∃ order₁ order₂,
      SortsTo (higher Prod.fst) (plainMan.rankScores (plainHashes (1 <<< 200)) 2 0 true) order₁ ∧
      SortsTo (higher Prod.fst) (swappedMan.rankScores (plainHashes (1 <<< 200)) 2 0 true) order₂ ∧
      plainMan.getMasternodeRank 2 order₁ (plainEntry 1).vin = 1 ∧
      swappedMan.getMasternodeRank 2 order₂ (plainEntry 1).vin = 2 := by
  refine ⟨plainMan.rankScores (plainHashes (1 <<< 200)) 2 0 true,
    swappedMan.rankScores (plainHashes (1 <<< 200)) 2 0 true, sortsTo_self ?_, sortsTo_self ?_, ?_, ?_⟩
  all_goals decide +kernel

end Orders

end MasternodeMan

end AnkerNode
