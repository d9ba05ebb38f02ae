import AnkerNode.Lib.SlotTable
import AnkerNode.Masternode.Announcements

namespace AnkerNode

-- every member of `CMasternode` but its lock
structure MasternodeMembers where
  lastTimeChecked : Int := 0
  vin : CTxIn
  addr : CService := {}
  pubKeyCollateralAddress : List UInt8 := []
  pubKeyMasternode : List UInt8 := []
  pubKeyCollateralAddress1 : List UInt8 := []
  pubKeyMasternode1 : List UInt8 := []
  sig : List UInt8 := []
  activeState : MasternodeState := .ENABLED
  sigTime : Int := 0
  cacheInputAge : Int := 0
  cacheInputAgeBlock : Int := 0
  unitTest : Bool := false
  allowFreeTx : Bool := true
  protocolVersion : Int := 0
  nActiveState : MasternodeState := .ENABLED
  nLastDsq : Int := 0
  nScanningErrorCount : Int := 0
  nLastScanningErrorBlockHeight : Int := 0
  lastPing : CMasternodePing := {}
  nLastDsee : Int := 0
  nLastDseep : Int := 0
deriving DecidableEq, Repr

namespace MasternodeMembers

-- the copy constructor
def copy (other : MasternodeMembers) : MasternodeMembers :=
  { other with
    pubKeyCollateralAddress1 := []
    pubKeyMasternode1 := []
    nActiveState := .ENABLED
    lastTimeChecked := 0 }

-- what `swap` makes of its first argument
def swap (first second : MasternodeMembers) : MasternodeMembers :=
  { first with
    vin := second.vin
    addr := second.addr
    pubKeyCollateralAddress := second.pubKeyCollateralAddress
    pubKeyMasternode := second.pubKeyMasternode
    sig := second.sig
    activeState := second.activeState
    sigTime := second.sigTime
    lastPing := second.lastPing
    cacheInputAge := second.cacheInputAge
    cacheInputAgeBlock := second.cacheInputAgeBlock
    unitTest := second.unitTest
    allowFreeTx := second.allowFreeTx
    protocolVersion := second.protocolVersion
    nLastDsq := second.nLastDsq
    nScanningErrorCount := second.nScanningErrorCount
    nLastScanningErrorBlockHeight := second.nLastScanningErrorBlockHeight }

-- `operator=`, which takes its argument by value
def assign (place mn : MasternodeMembers) : MasternodeMembers := swap place mn.copy

-- the members that `swap` does not name
structure Unswapped where
  lastTimeChecked : Int
  nActiveState : MasternodeState
  nLastDsee : Int
  nLastDseep : Int
  pubKeyCollateralAddress1 : List UInt8
  pubKeyMasternode1 : List UInt8
deriving DecidableEq, Repr

def unswapped (mn : MasternodeMembers) : Unswapped where
  lastTimeChecked := mn.lastTimeChecked
  nActiveState := mn.nActiveState
  nLastDsee := mn.nLastDsee
  nLastDseep := mn.nLastDseep
  pubKeyCollateralAddress1 := mn.pubKeyCollateralAddress1
  pubKeyMasternode1 := mn.pubKeyMasternode1

def toEntry (mn : MasternodeMembers) : MasternodeEntry where
  vin := mn.vin
  pubKeyMasternode := mn.pubKeyMasternode
  protocolVersion := mn.protocolVersion
  addr := mn.addr
  pubKeyCollateralAddress := mn.pubKeyCollateralAddress
  sig := mn.sig
  activeState := mn.activeState
  sigTime := mn.sigTime
  lastPing := mn.lastPing
  unitTest := mn.unitTest
  lastTimeChecked := mn.lastTimeChecked

def check (env : CheckEnv) (forceCheck : Bool) (mn : MasternodeMembers) : MasternodeMembers :=
  { mn with
    lastTimeChecked := (mn.toEntry.check env forceCheck).lastTimeChecked
    activeState := (mn.toEntry.check env forceCheck).activeState }

def remove (vin : CTxIn) (vMasternodes : List MasternodeMembers) : List MasternodeMembers :=
  SlotErase.eraseFirst assign (fun mn => mn.vin == vin) vMasternodes

def isStale (env : AnnounceEnv) (force : Bool) (mn : MasternodeMembers) : Bool :=
  CMasternodeMan.isStale env force mn.toEntry

-- `Check` of every masternode, then the loop of `CheckAndRemove`
def checkAll (env : AnnounceEnv) (vMasternodes : List MasternodeMembers) : List MasternodeMembers :=
  vMasternodes.map (check env.toCheckEnv false)

def removeStale (env : AnnounceEnv) (force : Bool) (vMasternodes : List MasternodeMembers) :
    List MasternodeMembers :=
  SlotErase.sweep assign (isStale env force) vMasternodes.length vMasternodes

variable {a b : MasternodeMembers}

theorem lawful_assign : SlotErase.Lawful assign :=
  ⟨fun _ => rfl, fun _ _ _ => rfl, fun _ _ _ => rfl⟩

theorem unswapped_assign : (assign a b).unswapped = a.unswapped := rfl

theorem assign_eq_right_iff : assign a b = b ↔ a.unswapped = b.unswapped := by
  constructor
  · intro h
    rw [← unswapped_assign (a := a) (b := b), h]
  · intro h
    simp only [unswapped, Unswapped.mk.injEq] at h
    obtain ⟨htime, hstate, hdsee, hdseep, hkey, hkey'⟩ := h
    simp only [assign, swap, copy, htime, hstate, hdsee, hdseep, hkey, hkey']

theorem toEntry_assign : (assign a b).toEntry = a.toEntry.assign b.toEntry := rfl

theorem toEntry_check (env : CheckEnv) (forceCheck : Bool) :
    (a.check env forceCheck).toEntry = a.toEntry.check env forceCheck := by
  rw [check, MasternodeEntry.check]
  split
  · rfl
  · split
    · rfl
    · rfl

-- The list of the node's state loses an entry as the list of whole records does.
theorem map_toEntry_remove (vin : CTxIn) (vMasternodes : List MasternodeMembers) (m : CMasternodeMan)
    (h : m.vMasternodes = vMasternodes.map toEntry) :
    (m.remove vin).vMasternodes = (remove vin vMasternodes).map toEntry := by
  rw [CMasternodeMan.remove, h]
  exact (SlotErase.map_eraseFirst (fun _ _ => toEntry_assign)
    (fun mn : MasternodeEntry => mn.vin == vin) vMasternodes).symm

theorem map_toEntry_checkAndRemove (env : AnnounceEnv) (force : Bool)
    (vMasternodes : List MasternodeMembers) (m : CMasternodeMan)
    (h : m.vMasternodes = vMasternodes.map toEntry) :
    (m.checkAndRemove env force).vMasternodes =
      (removeStale env force (checkAll env vMasternodes)).map toEntry := by
  have hchecked : m.vMasternodes.map (fun mn => mn.check env.toCheckEnv false) =
      (checkAll env vMasternodes).map toEntry := by
    rw [h, checkAll, List.map_map, List.map_map]
    exact List.map_congr_left fun mn _ => (toEntry_check env.toCheckEnv false).symm
  rw [CMasternodeMan.checkAndRemove, hchecked, List.length_map]
  exact (SlotErase.map_sweep (fun _ _ => toEntry_assign) (CMasternodeMan.isStale env force) _
    (checkAll env vMasternodes)).symm

-- Each record agrees with the one whose place it comes to in what `swap` does not name.
def Fits (places kept : List MasternodeMembers) : Prop :=
  ∀ (i : Nat) a b, places[i]? = some a → kept[i]? = some b → a.unswapped = b.unswapped

theorem zipWith_assign_iff {places kept : List MasternodeMembers}
    (hlength : kept.length ≤ places.length) :
    List.zipWith assign places kept = kept ↔ Fits places kept := by
  rw [SlotErase.zipWith_eq_right_iff hlength]
  simp only [assign_eq_right_iff]
  rfl

theorem masternodes_left_alone_iff (vMasternodes : List MasternodeMembers) (vin : CTxIn)
    (env : AnnounceEnv) (force : Bool) :
    (remove vin vMasternodes = vMasternodes.eraseP (fun mn => mn.vin == vin) ↔
      Fits vMasternodes (vMasternodes.eraseP fun mn => mn.vin == vin)) ∧
    (removeStale env force vMasternodes = vMasternodes.filter (fun mn => !isStale env force mn) ↔
      Fits vMasternodes (vMasternodes.filter fun mn => !isStale env force mn)) := by
  constructor
  · rw [remove, SlotErase.eraseFirst_eq lawful_assign]
    exact zipWith_assign_iff List.length_eraseP_le
  · rw [removeStale, SlotErase.sweep_eq lawful_assign fun _ _ => rfl]
    exact zipWith_assign_iff (List.length_filter_le _ _)

def recordAt (n : UInt32) (lastTimeChecked : Int) : MasternodeMembers where
  vin := ⟨⟨1, n⟩, [], 0⟩
  lastTimeChecked := lastTimeChecked

-- The second masternode comes to the place of the first and takes over the time of its last check.
theorem masternodes_left_alone_broken :
    remove ⟨⟨1, 0⟩, [], 0⟩ [recordAt 0 5, recordAt 1 7] = [recordAt 1 5] ∧
      [recordAt 0 5, recordAt 1 7].eraseP (fun mn => mn.vin == ⟨⟨1, 0⟩, [], 0⟩) =
        [recordAt 1 7] ∧ recordAt 1 5 ≠ recordAt 1 7 := by
  decide

end MasternodeMembers

def MasternodeEntry.unchecked (mn : MasternodeEntry) : MasternodeEntry :=
  { mn with lastTimeChecked := 0 }

namespace CMasternodeMan

variable {m : CMasternodeMan} {hashes : AnnounceHashes} {env : AnnounceEnv}
  {mnb : CMasternodeBroadcast} {mn : MasternodeEntry}

-- An entry that is not enabled stands in the way of an announcement with a good ping: it is removed
-- before the inputs are looked at.
structure Replaces (m : CMasternodeMan) (hashes : AnnounceHashes) (env : AnnounceEnv)
    (mnb : CMasternodeBroadcast) (mn : MasternodeEntry) : Prop where
  own : isOwn env mnb = false
  pinged : mnb.lastPing.isNull = false
  ping : (m.checkSigTimeOnly hashes env mnb.lastPing).1 = true
  known : m.find mnb.vin = some mn
  disabled : mn.isEnabled = false

theorem addChecked_false (h : (m.addChecked hashes env mnb).2.1 = false) :
    (m.addChecked hashes env mnb).1.vMasternodes = m.vMasternodes := by
  rw [addChecked] at h ⊢
  split
  · rfl
  · rename_i hlock
    rw [if_neg hlock] at h
    split
    · rfl
    · rename_i hinputs
      rw [if_neg hinputs] at h
      split
      · rfl
      · rename_i hage
        rw [if_neg hage] at h
        split
        · rfl
        · rename_i htime
          rw [if_neg htime] at h
          cases h

theorem checkInputsAndAdd_false (h : (m.checkInputsAndAdd hashes env mnb).2.1 = false) :
    (m.checkInputsAndAdd hashes env mnb).1.vMasternodes = m.vMasternodes ∧
        (∀ mn, ¬Replaces m hashes env mnb mn) ∨
      ∃ mn, Replaces m hashes env mnb mn ∧
        (m.checkInputsAndAdd hashes env mnb).1.vMasternodes = (m.remove mn.vin).vMasternodes := by
  rw [checkInputsAndAdd] at h ⊢
  cases hown : isOwn env mnb with
  | true => simp [hown] at h
  | false =>
    simp only [hown, Bool.false_eq_true, if_false] at h ⊢
    cases hnull : mnb.lastPing.isNull with
    | true => exact .inl ⟨rfl, fun mn hmn => by simp [hmn.pinged] at hnull⟩
    | false =>
      simp only [hnull, Bool.false_eq_true, if_false] at h ⊢
      cases hping : (m.checkSigTimeOnly hashes env mnb.lastPing).1 with
      | false => exact .inl ⟨rfl, fun mn hmn => by simp [hmn.ping] at hping⟩
      | true =>
        simp only [hping, Bool.not_true, Bool.false_eq_true, if_false] at h ⊢
        cases hfind : m.find mnb.vin with
        | none =>
          rw [hfind] at h
          exact .inl ⟨addChecked_false h, fun mn hmn => by simp [hmn.known] at hfind⟩
        | some mn =>
          rw [hfind] at h
          cases henabled : mn.isEnabled with
          | true => simp [henabled] at h
          | false =>
            simp only [henabled, Bool.false_eq_true, if_false] at h ⊢
            exact .inr ⟨mn, ⟨hown, hnull, hping, hfind, henabled⟩, addChecked_false h⟩

theorem map_unchecked_remove (vin : CTxIn) :
    (m.remove vin).vMasternodes.map MasternodeEntry.unchecked =
      (m.vMasternodes.eraseP fun mn => mn.vin == vin).map MasternodeEntry.unchecked := by
  have hlawful : SlotErase.Lawful MasternodeEntry.assign :=
    ⟨fun _ => rfl, fun _ _ _ => rfl, fun _ _ _ => rfl⟩
  have hkept : ∀ a b : MasternodeEntry, (a.assign b).unchecked = b.unchecked := fun _ _ => rfl
  rw [remove, SlotErase.eraseFirst_eq hlawful]
  exact SlotErase.map_zipWith hkept List.length_eraseP_le

def noHashes : AnnounceHashes where
  hash160 vch := vch
  broadcast _ _ := 1
  ping _ _ := 2
  vinToString _ := ""

def spentEnv : AnnounceEnv where
  nTime := 1000
  nAdjustedTime := 1000
  acceptableInputs _ := false
  verifyMessage _ _ _ := true

def expiredEntry : MasternodeEntry where
  vin := ⟨⟨1, 0⟩, [], 0⟩
  pubKeyMasternode := []
  protocolVersion := 0
  activeState := .EXPIRED

def pingedBroadcast : CMasternodeBroadcast where
  vin := ⟨⟨1, 0⟩, [], 0⟩
  pubKeyCollateralAddress := []
  pubKeyMasternode := []
  sigTime := 900
  protocolVersion := 0
  lastPing := { vin := ⟨⟨1, 0⟩, [], 0⟩, blockHash := 5, sigTime := 900 }

end CMasternodeMan

end AnkerNode
