import AnkerNode.Lib.TreeMaps
import AnkerNode.Masternode.Announcements

namespace AnkerNode

open TreeSweep

-- `mapSeenMasternodeBroadcast` of the manager and `mapSeenSyncMNB` of the sync
structure SeenMaps where
  broadcasts : Std.TreeMap UInt256 CMasternodeBroadcast := ∅
  syncMNB : Std.TreeMap UInt256 Int := ∅

-- an entry read through an iterator at `end()`
inductive SeenFault
  | atEnd
deriving DecidableEq, Repr

namespace SeenMaps

variable (hashes : AnnounceHashes) (nTime : Int)

def expired (mnb : CMasternodeBroadcast) : Bool :=
  decide (mnb.lastPing.sigTime < nTime - MASTERNODE_REMOVAL_SECONDS * 2)

-- The expiry loop of `CheckAndRemove`, at the entries from `it3` on: once `it3++` has moved, the
-- hash is taken of the entry that comes after the one erased.
def expireFrom : List (UInt256 × CMasternodeBroadcast) → SeenMaps → Except SeenFault SeenMaps
  | [], s => .ok s
  | it :: its, s =>
    if expired nTime it.2 then
      match its with
      | [] => .error .atEnd
      | next :: _ =>
        expireFrom its
          { broadcasts := s.broadcasts.erase it.1
            syncMNB := s.syncMNB.erase (next.2.getHash hashes) }
    else expireFrom its s

def expire (s : SeenMaps) : Except SeenFault SeenMaps :=
  expireFrom hashes nTime s.broadcasts.toList s

-- the hashes of the entries that come right after an expired one
def followers : List (UInt256 × CMasternodeBroadcast) → List UInt256
  | it :: next :: its =>
    if expired nTime it.2 then next.2.getHash hashes :: followers (next :: its)
    else followers (next :: its)
  | _ => []

def LastKept (its : List (UInt256 × CMasternodeBroadcast)) : Prop :=
  ∀ it, its.getLast? = some it → expired nTime it.2 = false

def ExpiredHash (s : SeenMaps) (h : UInt256) : Prop :=
  ∃ (k : UInt256) (mnb : CMasternodeBroadcast),
    s.broadcasts[k]? = some mnb ∧ expired nTime mnb = true ∧ mnb.getHash hashes = h

-- What the loop is for: the expired broadcasts go, and their hashes with them.
def InStep (s : SeenMaps) : Prop :=
  ∃ s', s.expire hashes nTime = .ok s' ∧
    (∀ (k : UInt256) (mnb : CMasternodeBroadcast), s'.broadcasts[k]? = some mnb ↔
      s.broadcasts[k]? = some mnb ∧ expired nTime mnb = false) ∧
    ∀ (h : UInt256) (n : Int), s'.syncMNB[h]? = some n ↔
      s.syncMNB[h]? = some n ∧ ¬s.ExpiredHash hashes nTime h

variable {hashes nTime} {its : List (UInt256 × CMasternodeBroadcast)} {s s' : SeenMaps}

theorem getElem?_foldl_erase {β : Type} (t : Std.TreeMap UInt256 β) (hs : List UInt256)
    (h : UInt256) (n : β) :
    (hs.foldl (fun t h => t.erase h) t)[h]? = some n ↔ t[h]? = some n ∧ h ∉ hs := by
  induction hs generalizing t with
  | nil => simp
  | cons h' hs ih =>
    rw [List.foldl_cons, ih, Std.TreeMap.getElem?_erase, List.mem_cons, not_or]
    by_cases heq : h' = h
    · simp [heq]
    · simp [heq, Ne.symm heq]

theorem followers_cons_live {it : UInt256 × CMasternodeBroadcast}
    (hlive : expired nTime it.2 = false) :
    followers hashes nTime (it :: its) = followers hashes nTime its := by
  cases its with
  | nil => rfl
  | cons next its => simp [followers, hlive]

theorem followers_live (hlive : ∀ it ∈ its, expired nTime it.2 = false) :
    followers hashes nTime its = [] := by
  induction its with
  | nil => rfl
  | cons it its ih =>
    rw [followers_cons_live (hlive it List.mem_cons_self)]
    exact ih fun later hlater => hlive later (List.mem_cons_of_mem it hlater)

theorem expireFrom_spec (hashes : AnnounceHashes) (nTime : Int)
    (its : List (UInt256 × CMasternodeBroadcast)) (s : SeenMaps) :
    (LastKept nTime its → expireFrom hashes nTime its s = .ok
      { broadcasts := sweepAll (fun it => expired nTime it.2) s.broadcasts its
        syncMNB := (followers hashes nTime its).foldl (fun t h => t.erase h) s.syncMNB }) ∧
      (¬LastKept nTime its → expireFrom hashes nTime its s = .error .atEnd) := by
  induction its generalizing s with
  | nil => exact ⟨fun _ => rfl, fun h => absurd (fun it hit => by cases hit) h⟩
  | cons it its ih =>
    cases hold : expired nTime it.2 with
    | false =>
      have hlast : LastKept nTime (it :: its) ↔ LastKept nTime its := by
        cases its with
        | nil => simp [LastKept, hold]
        | cons next its => simp [LastKept]
      have hsweep : sweepAll (fun it => expired nTime it.2) s.broadcasts (it :: its) =
          sweepAll (fun it => expired nTime it.2) s.broadcasts its := by
        simp [sweepAll, hold]
      rw [hlast, followers_cons_live hold, hsweep]
      simp only [expireFrom, hold, Bool.false_eq_true, if_false]
      exact ih s
    | true =>
      cases its with
      | nil => simp [LastKept, expireFrom, hold]
      | cons next its =>
        have hlast : LastKept nTime (it :: next :: its) ↔ LastKept nTime (next :: its) := by
          simp [LastKept]
        have hsweep : sweepAll (fun it => expired nTime it.2) s.broadcasts (it :: next :: its) =
            sweepAll (fun it => expired nTime it.2) (s.broadcasts.erase it.1) (next :: its) := by
          simp [sweepAll, hold]
        rw [hlast, hsweep]
        simp only [expireFrom, followers, hold, if_true, List.foldl_cons]
        exact ih _

theorem getElem?_swept (k : UInt256) (mnb : CMasternodeBroadcast) :
    (sweepAll (fun it => expired nTime it.2) s.broadcasts s.broadcasts.toList)[k]? = some mnb ↔
      s.broadcasts[k]? = some mnb ∧ expired nTime mnb = false := by
  have hsweep := getElem?_sweep (p := fun it : UInt256 × CMasternodeBroadcast =>
    expired nTime it.2) (t := s.broadcasts) k
  rw [sweep] at hsweep
  rw [hsweep, Option.filter_eq_some_iff, Bool.not_eq_true']

theorem inStep_iff :
    s.InStep hashes nTime ↔ LastKept nTime s.broadcasts.toList ∧ ∀ h ∈ s.syncMNB,
      (h ∈ followers hashes nTime s.broadcasts.toList ↔ s.ExpiredHash hashes nTime h) := by
  obtain ⟨hkept, hfault⟩ := expireFrom_spec hashes nTime s.broadcasts.toList s
  by_cases hlast : LastKept nTime s.broadcasts.toList
  · have hok := hkept hlast
    simp only [hlast, true_and]
    constructor
    · rintro ⟨s', hs', -, hsync⟩ h hmem
      obtain rfl := Except.ok.inj (hok.symm.trans hs')
      obtain ⟨n, hn⟩ := Option.isSome_iff_exists.mp (Std.TreeMap.mem_iff_isSome_getElem?.mp hmem)
      have hiff := hsync h n
      rw [getElem?_foldl_erase] at hiff
      simp only [hn, true_and] at hiff
      exact not_iff_not.mp hiff
    · intro hsync
      refine ⟨_, hok, getElem?_swept, fun h n => ?_⟩
      rw [getElem?_foldl_erase]
      refine and_congr_right fun hn => not_congr (hsync h ?_)
      exact Std.TreeMap.mem_iff_isSome_getElem?.mpr (by rw [hn]; rfl)
  · refine iff_of_false ?_ fun h => hlast h.1
    rintro ⟨s', hs', -⟩
    rw [expire, hfault hlast] at hs'
    cases hs'

theorem mem_of_mem_followers {it : UInt256 × CMasternodeBroadcast} {h : UInt256}
    (hmem : h ∈ followers hashes nTime (it :: its)) :
    ∃ next ∈ its, next.2.getHash hashes = h := by
  induction its generalizing it with
  | nil => cases hmem
  | cons next its ih =>
    rw [followers] at hmem
    split at hmem
    · rcases List.mem_cons.mp hmem with rfl | hlater
      · exact ⟨next, List.mem_cons_self, rfl⟩
      · obtain ⟨later, hin, rfl⟩ := ih hlater
        exact ⟨later, List.mem_cons_of_mem next hin, rfl⟩
    · obtain ⟨later, hin, rfl⟩ := ih hmem
      exact ⟨later, List.mem_cons_of_mem next hin, rfl⟩

-- Only hashes of later entries are taken, so the first expired entry keeps its own.
theorem exists_not_mem_followers (hkeyed : ∀ it ∈ its, it.2.getHash hashes = it.1)
    (hnodup : (its.map Prod.fst).Nodup) (hexpired : ∃ it ∈ its, expired nTime it.2 = true) :
    ∃ it ∈ its, expired nTime it.2 = true ∧ it.1 ∉ followers hashes nTime its := by
  induction its with
  | nil =>
    obtain ⟨it, hit, -⟩ := hexpired
    cases hit
  | cons it its ih =>
    obtain ⟨hfresh, hrest⟩ := List.nodup_cons.mp hnodup
    have hkeyedRest : ∀ it ∈ its, it.2.getHash hashes = it.1 :=
      fun later hlater => hkeyed later (List.mem_cons_of_mem it hlater)
    cases hold : expired nTime it.2 with
    | true =>
      refine ⟨it, List.mem_cons_self, hold, fun hmem => ?_⟩
      obtain ⟨next, hnext, heq⟩ := mem_of_mem_followers hmem
      rw [hkeyedRest next hnext] at heq
      exact hfresh (heq ▸ List.mem_map_of_mem hnext)
    | false =>
      have hlater : ∃ it ∈ its, expired nTime it.2 = true := by
        obtain ⟨later, hin, hlater⟩ := hexpired
        rcases List.mem_cons.mp hin with rfl | hin
        · rw [hold] at hlater
          cases hlater
        · exact ⟨later, hin, hlater⟩
      obtain ⟨first, hin, hfirst, hout⟩ := ih hkeyedRest hrest hlater
      refine ⟨first, List.mem_cons_of_mem it hin, hfirst, ?_⟩
      rwa [followers_cons_live hold]

-- Of maps that hold each broadcast under its hash and know all of them, nothing may expire.
theorem inStep_keyed
    (hkeyed : ∀ (k : UInt256) (mnb : CMasternodeBroadcast),
      s.broadcasts[k]? = some mnb → mnb.getHash hashes = k)
    (hknown : ∀ (k : UInt256) (mnb : CMasternodeBroadcast),
      s.broadcasts[k]? = some mnb → k ∈ s.syncMNB) :
    s.InStep hashes nTime ↔ ∀ (k : UInt256) (mnb : CMasternodeBroadcast),
      s.broadcasts[k]? = some mnb → expired nTime mnb = false := by
  rw [inStep_iff]
  have hlist : ∀ it ∈ s.broadcasts.toList, s.broadcasts[it.1]? = some it.2 :=
    fun it hit => Std.TreeMap.mem_toList_iff_getElem?_eq_some.mp hit
  constructor
  · rintro ⟨-, hsync⟩ k mnb hmnb
    by_contra hexpired
    have hnodup : (s.broadcasts.toList.map Prod.fst).Nodup := by
      rw [Std.TreeMap.map_fst_toList_eq_keys]
      exact Std.TreeMap.nodup_keys
    obtain ⟨first, hin, hfirst, hout⟩ := exists_not_mem_followers
      (fun it hit => hkeyed it.1 it.2 (hlist it hit)) hnodup
      ⟨(k, mnb), Std.TreeMap.mem_toList_iff_getElem?_eq_some.mpr hmnb, by simpa using hexpired⟩
    refine hout ((hsync first.1 (hknown first.1 first.2 (hlist first hin))).mpr ?_)
    exact ⟨first.1, first.2, hlist first hin, hfirst, hkeyed first.1 first.2 (hlist first hin)⟩
  · intro hlive
    have hall : ∀ it ∈ s.broadcasts.toList, expired nTime it.2 = false :=
      fun it hit => hlive it.1 it.2 (hlist it hit)
    refine ⟨fun it hit => hall it (List.mem_of_getLast? hit), fun h _ => ?_⟩
    rw [followers_live hall]
    refine iff_of_false List.not_mem_nil ?_
    rintro ⟨k, mnb, hmnb, hexpired, -⟩
    rw [hlive k mnb hmnb] at hexpired
    cases hexpired

theorem seen_maps_in_step_iff (hashes : AnnounceHashes) (nTime : Int) (s : SeenMaps) :
    s.InStep hashes nTime ↔ LastKept nTime s.broadcasts.toList ∧ ∀ h ∈ s.syncMNB,
      (h ∈ followers hashes nTime s.broadcasts.toList ↔ s.ExpiredHash hashes nTime h) :=
  inStep_iff

def pingedAt (sigTime : Int) : CMasternodeBroadcast where
  vin := ⟨⟨0, 0⟩, [], 0⟩
  pubKeyCollateralAddress := []
  pubKeyMasternode := []
  sigTime := sigTime
  protocolVersion := 0
  lastPing := { sigTime := sigTime }

-- the time of signing for a hash
def timeHashes : AnnounceHashes where
  hash160 vch := vch
  broadcast sigTime _ := BitVec.ofNat 256 sigTime.toNat
  ping _ sigTime := BitVec.ofNat 256 sigTime.toNat
  vinToString _ := ""

def neighbours : SeenMaps where
  broadcasts := Std.TreeMap.ofList [((1 : UInt256), pingedAt 1), (20000, pingedAt 20000)]
  syncMNB := Std.TreeMap.ofList [((1 : UInt256), (5 : Int)), (20000, 6)]

-- The first of two has expired: the loop forgets the hash of the one it keeps, and keeps the hash of
-- the one that goes. When the last has expired, the loop reads at `end()`.
theorem seen_maps_out_of_step :
    ¬neighbours.InStep timeHashes 20000 ∧
      (neighbours.expire timeHashes 20000).map
        (fun s => (s.broadcasts.keys, s.syncMNB.keys)) = .ok ([20000], [1]) ∧
      (neighbours.expire timeHashes 40000).map (fun s => s.broadcasts.keys) = .error .atEnd := by
  have hrun : (neighbours.expire timeHashes 20000).map
      (fun s => (s.broadcasts.keys, s.syncMNB.keys)) = .ok ([20000], [1]) := by
    decide +kernel
  refine ⟨?_, hrun, by decide +kernel⟩
  rw [inStep_iff]
  rintro ⟨-, hsync⟩
  have hlost : (20000 : UInt256) ∈ followers timeHashes 20000 neighbours.broadcasts.toList := by
    decide +kernel
  obtain ⟨k, mnb, hmnb, hexpired, hhash⟩ := (hsync 20000 (by decide +kernel)).mp hlost
  have hmem := Std.TreeMap.mem_toList_iff_getElem?_eq_some.mpr hmnb
  have hentries : neighbours.broadcasts.toList = [(1, pingedAt 1), (20000, pingedAt 20000)] := by
    decide +kernel
  rw [hentries] at hmem
  simp only [List.mem_cons, List.not_mem_nil, or_false, Prod.mk.injEq] at hmem
  rcases hmem with ⟨rfl, rfl⟩ | ⟨rfl, rfl⟩
  · exact absurd hhash (by decide)
  · exact absurd hexpired (by decide)

end SeenMaps

end AnkerNode
