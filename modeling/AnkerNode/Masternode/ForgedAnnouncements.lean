import AnkerNode.Masternode.Announcements

namespace AnkerNode

namespace AnnounceMessage

variable (hashes : AnnounceHashes)

-- Announcements: the time and the collateral key. Pings: the input and the time.
def SameIdentity : AnnounceMessage → AnnounceMessage → Prop
  | mnb a, mnb b => a.sigTime = b.sigTime ∧ a.pubKeyCollateralAddress = b.pubKeyCollateralAddress
  | mnp a, mnp b => a.vin = b.vin ∧ a.sigTime = b.sigTime
  | _, _ => False

-- what the node can check: a ping by the key of the masternode in its list
def Verifies (m : CMasternodeMan) (env : AnnounceEnv) : AnnounceMessage → Prop
  | mnb a => a.verifySignature hashes env = true
  | mnp a => ∃ mn, m.find a.vin = some mn ∧
      a.verifySignature hashes env mn.pubKeyMasternode = true

-- A ping of a masternode that the node does not know is signed by some key.
def Signed (m : CMasternodeMan) (env : AnnounceEnv) : AnnounceMessage → Prop
  | mnb a => a.verifySignature hashes env = true
  | mnp a => ∃ key, a.verifySignature hashes env key = true ∧
      ∀ mn, m.find a.vin = some mn → mn.pubKeyMasternode = key

end AnnounceMessage

namespace CMasternodeMan

variable {hashes : AnnounceHashes} {env : AnnounceEnv} {m : CMasternodeMan}
  {mnb : CMasternodeBroadcast} {mnp : CMasternodePing}

-- the message is taken down before its signature is looked at
def records (hashes : AnnounceHashes) (m : CMasternodeMan) (env : AnnounceEnv) :
    AnnounceMessage → Bool
  | .mnb mnb => env.fActive && (m.mapSeenMasternodeBroadcast (mnb.getHash hashes)).isNone
  | .mnp mnp => env.fActive && (m.mapSeenMasternodePing (mnp.getHash hashes)).isNone

structure Alike (m m' : CMasternodeMan) : Prop where
  masternodes : m'.vMasternodes = m.vMasternodes
  broadcasts : m'.mapSeenMasternodeBroadcast = m.mapSeenMasternodeBroadcast
  pings : m'.mapSeenMasternodePing = m.mapSeenMasternodePing

-- After any steps, a genuine message of the same identity does what it does without the first one.
def NoTrace (hashes : AnnounceHashes) (m : CMasternodeMan) (env : AnnounceEnv)
    (forged : AnnounceMessage) : Prop :=
  ∀ (log : List (AnnounceEnv × AnnounceStep)) (env' : AnnounceEnv) (genuine : AnnounceMessage),
    forged.SameIdentity genuine → genuine.Signed hashes (m.run hashes log) env' →
    Alike (((m.run hashes log).processMessage hashes env' genuine).1)
      ((((m.processMessage hashes env forged).1.run hashes log).processMessage hashes env'
        genuine).1)

theorem processMessage_of_not_records {msg : AnnounceMessage}
    (h : m.records hashes env msg = false) : (m.processMessage hashes env msg).1 = m := by
  cases msg with
  | mnb mnb =>
    simp only [records, Bool.and_eq_false_iff, Option.isNone_eq_false_iff] at h
    simp only [processMessage, processMNB]
    rcases h with h | h
    · simp [h]
    · simp only [h, if_true]
      split_ifs <;> rfl
  | mnp mnp =>
    simp only [records, Bool.and_eq_false_iff, Option.isNone_eq_false_iff] at h
    simp only [processMessage, processMNP]
    rcases h with h | h
    · simp [h]
    · simp only [h, if_true]
      split_ifs <;> rfl

theorem broadcastCheckAndUpdate_forged (hforged : mnb.verifySignature hashes env = false) :
    (m.broadcastCheckAndUpdate hashes env mnb).1 = m ∧
      (m.broadcastCheckAndUpdate hashes env mnb).2.1 = false := by
  simp only [broadcastCheckAndUpdate, hforged, Bool.not_false, if_true]
  split_ifs <;> exact ⟨rfl, rfl⟩

theorem pingCheckAndUpdate_forged {f : Bool}
    (hforged : ¬(AnnounceMessage.mnp mnp).Verifies hashes m env) :
    (m.pingCheckAndUpdate hashes env mnp f).1 = m ∧
      (m.pingCheckAndUpdate hashes env mnp f).2.1 = false := by
  rw [pingCheckAndUpdate]
  cases hfind : m.find mnp.vin with
  | none =>
    simp only
    split_ifs <;> exact ⟨rfl, rfl⟩
  | some mn =>
    have hsig : mnp.verifySignature hashes env mn.pubKeyMasternode = false := by
      rw [Bool.eq_false_iff]
      exact fun h => hforged ⟨mn, hfind, h⟩
    simp only [hsig, Bool.not_false, if_true]
    split_ifs <;> exact ⟨rfl, rfl⟩

theorem processMNB_forged (hrecords : m.records hashes env (.mnb mnb) = true)
    (hforged : mnb.verifySignature hashes env = false) :
    (m.processMNB hashes env mnb).1 = m.seeBroadcast hashes mnb := by
  simp only [records, Bool.and_eq_true, Option.isNone_iff_eq_none] at hrecords
  obtain ⟨hactive, hunseen⟩ := hrecords
  obtain ⟨hstate, hverdict⟩ :=
    broadcastCheckAndUpdate_forged (m := m.seeBroadcast hashes mnb) hforged
  simp only [processMNB, hactive, hunseen, Bool.not_true, Bool.false_eq_true, if_false,
    Option.isSome_none]
  cases hcheck : (m.seeBroadcast hashes mnb).broadcastCheckAndUpdate hashes env mnb with
  | mk m' verdict =>
    rw [hcheck] at hstate hverdict
    obtain ⟨ok, nDoS⟩ := verdict
    obtain rfl : ok = false := hverdict
    exact hstate

theorem askForMN_eq (m : CMasternodeMan) (env : AnnounceEnv) (vin : CTxIn) :
    ∃ asked, m.askForMN env vin = { m with mWeAskedForMasternodeListEntry := asked } := by
  rw [askForMN]
  split
  · exact ⟨m.mWeAskedForMasternodeListEntry, rfl⟩
  · exact ⟨_, rfl⟩

theorem processMNP_forged (hrecords : m.records hashes env (.mnp mnp) = true)
    (hforged : ¬(AnnounceMessage.mnp mnp).Verifies hashes m env) :
    ∃ asked, (m.processMNP hashes env mnp).1 =
      { m.seePing hashes mnp with mWeAskedForMasternodeListEntry := asked } := by
  simp only [records, Bool.and_eq_true, Option.isNone_iff_eq_none] at hrecords
  obtain ⟨hactive, hunseen⟩ := hrecords
  obtain ⟨hstate, hverdict⟩ :=
    pingCheckAndUpdate_forged (m := m.seePing hashes mnp) (f := true) hforged
  simp only [processMNP, hactive, hunseen, Bool.not_true, Bool.false_eq_true, if_false,
    Option.isSome_none]
  cases hcheck : (m.seePing hashes mnp).pingCheckAndUpdate hashes env mnp true with
  | mk m' verdict =>
    rw [hcheck] at hstate hverdict
    obtain ⟨ok, nDoS⟩ := verdict
    obtain rfl : ok = false := hverdict
    obtain rfl : m' = m.seePing hashes mnp := hstate
    simp only
    split
    · exact askForMN_eq _ env mnp.vin
    · split
      · exact ⟨_, rfl⟩
      · exact askForMN_eq _ env mnp.vin

theorem alike_refl (m : CMasternodeMan) : Alike m m := ⟨rfl, rfl, rfl⟩

-- a node whose clock is so early that it refuses the message for its time
def earlyEnv (sigTime : Int) : AnnounceEnv where
  nTime := 0
  nAdjustedTime := sigTime - (60 * 60 + 1)
  verifyMessage _ _ _ := true

theorem fInFuture_earlyEnv (sigTime : Int) : fInFuture (earlyEnv sigTime) sigTime = true := by
  have hlate : sigTime - (60 * 60 + 1) + 60 * 60 < sigTime := by omega
  exact decide_eq_true hlate

theorem processMNB_early (hunseen : m.mapSeenMasternodeBroadcast (mnb.getHash hashes) = none) :
    (m.processMNB hashes (earlyEnv mnb.sigTime) mnb).1 = m.seeBroadcast hashes mnb := by
  simp only [processMNB, hunseen, broadcastCheckAndUpdate, fInFuture_earlyEnv, if_true]
  rfl

theorem processMNP_early (hunseen : m.mapSeenMasternodePing (mnp.getHash hashes) = none) :
    (m.processMNP hashes (earlyEnv mnp.sigTime) mnp).1.mapSeenMasternodePing =
      insertNew m.mapSeenMasternodePing (mnp.getHash hashes) mnp := by
  obtain ⟨asked, hasked⟩ := askForMN_eq (m.seePing hashes mnp) (earlyEnv mnp.sigTime) mnp.vin
  have hstate : (m.processMNP hashes (earlyEnv mnp.sigTime) mnp).1 =
      (m.seePing hashes mnp).askForMN (earlyEnv mnp.sigTime) mnp.vin := by
    simp only [processMNP, hunseen, pingCheckAndUpdate, fInFuture_earlyEnv, if_true]
    rfl
  rw [hstate, hasked]
  rfl

theorem insertNew_self {α : Type} {f : UInt256 → Option α} {key : UInt256} (a : α)
    (h : f key = none) : insertNew f key a key = some a := by
  simp [insertNew, h]

theorem processMNB_seen (hseen : (m.mapSeenMasternodeBroadcast (mnb.getHash hashes)).isSome = true) :
    (m.processMNB hashes env mnb).1 = m := by
  simp only [processMNB, hseen, if_true]
  split_ifs <;> rfl

theorem processMNP_seen (hseen : (m.mapSeenMasternodePing (mnp.getHash hashes)).isSome = true) :
    (m.processMNP hashes env mnp).1 = m := by
  simp only [processMNP, hseen, if_true]
  split_ifs <;> rfl

-- Once it is recorded, the announcement with another signature is dropped and not served.
theorem not_noTrace_mnb (hrecords : m.records hashes env (.mnb mnb) = true)
    (hforged : mnb.verifySignature hashes env = false) :
    ¬NoTrace hashes m env (.mnb mnb) := by
  intro h
  have hunseen : m.mapSeenMasternodeBroadcast (mnb.getHash hashes) = none := by
    simp only [records, Bool.and_eq_true, Option.isNone_iff_eq_none] at hrecords
    exact hrecords.2
  have halike := (h [] (earlyEnv mnb.sigTime) (.mnb { mnb with sig := 0 :: mnb.sig })
    ⟨rfl, rfl⟩ rfl).broadcasts
  simp only [run, List.foldl_nil, processMessage] at halike
  have hearly : (m.processMNB hashes (earlyEnv mnb.sigTime) { mnb with sig := 0 :: mnb.sig }).1 =
      m.seeBroadcast hashes { mnb with sig := 0 :: mnb.sig } := processMNB_early hunseen
  rw [processMNB_forged hrecords hforged, processMNB_seen, hearly] at halike
  · have hvalue := congrFun halike (mnb.getHash hashes)
    have hfirst : (m.seeBroadcast hashes mnb).mapSeenMasternodeBroadcast (mnb.getHash hashes) =
        some mnb := insertNew_self mnb hunseen
    have hother : insertNew m.mapSeenMasternodeBroadcast (mnb.getHash hashes)
        { mnb with sig := 0 :: mnb.sig } (mnb.getHash hashes) =
          some { mnb with sig := 0 :: mnb.sig } := insertNew_self _ hunseen
    have hsig := congrArg CMasternodeBroadcast.sig
      (Option.some.inj ((hfirst.symm.trans hvalue).trans hother))
    simp at hsig
  · have hkey : (m.seeBroadcast hashes mnb).mapSeenMasternodeBroadcast (mnb.getHash hashes) =
        some mnb := insertNew_self mnb hunseen
    exact Option.isSome_iff_exists.mpr ⟨mnb, hkey⟩

theorem not_noTrace_mnp (hrecords : m.records hashes env (.mnp mnp) = true)
    (hforged : ¬(AnnounceMessage.mnp mnp).Verifies hashes m env) :
    ¬NoTrace hashes m env (.mnp mnp) := by
  intro h
  have hunseen : m.mapSeenMasternodePing (mnp.getHash hashes) = none := by
    simp only [records, Bool.and_eq_true, Option.isNone_iff_eq_none] at hrecords
    exact hrecords.2
  have hsigned : (AnnounceMessage.mnp { mnp with vchSig := 0 :: mnp.vchSig }).Signed hashes m
      (earlyEnv mnp.sigTime) := by
    cases hfind : m.find mnp.vin with
    | none => exact ⟨[], rfl, fun mn hmn => by simp [hfind] at hmn⟩
    | some mn =>
      refine ⟨mn.pubKeyMasternode, rfl, fun mn' hmn' => ?_⟩
      rw [Option.some.inj (hfind.symm.trans hmn')]
  have halike := (h [] (earlyEnv mnp.sigTime) (.mnp { mnp with vchSig := 0 :: mnp.vchSig })
    ⟨rfl, rfl⟩ hsigned).pings
  obtain ⟨asked, hstate⟩ := processMNP_forged hrecords hforged
  simp only [run, List.foldl_nil, processMessage] at halike
  have hearly : (m.processMNP hashes (earlyEnv mnp.sigTime)
      { mnp with vchSig := 0 :: mnp.vchSig }).1.mapSeenMasternodePing =
        insertNew m.mapSeenMasternodePing (mnp.getHash hashes)
          { mnp with vchSig := 0 :: mnp.vchSig } := processMNP_early hunseen
  rw [hstate, processMNP_seen, hearly] at halike
  · have hvalue := congrFun halike (mnp.getHash hashes)
    have hfirst : (m.seePing hashes mnp).mapSeenMasternodePing (mnp.getHash hashes) = some mnp :=
      insertNew_self mnp hunseen
    have hother : insertNew m.mapSeenMasternodePing (mnp.getHash hashes)
        { mnp with vchSig := 0 :: mnp.vchSig } (mnp.getHash hashes) =
          some { mnp with vchSig := 0 :: mnp.vchSig } := insertNew_self _ hunseen
    have hsig := congrArg CMasternodePing.vchSig
      (Option.some.inj ((hfirst.symm.trans hvalue).trans hother))
    simp at hsig
  · have hkey : (m.seePing hashes mnp).mapSeenMasternodePing (mnp.getHash hashes) = some mnp :=
      insertNew_self mnp hunseen
    exact Option.isSome_iff_exists.mpr ⟨mnp, hkey⟩

theorem forged_announcement_noTrace_iff (msg : AnnounceMessage)
    (hforged : ¬msg.Verifies hashes m env) :
    NoTrace hashes m env msg ↔ m.records hashes env msg = false := by
  constructor
  · intro h
    rw [Bool.eq_false_iff]
    intro hrecords
    cases msg with
    | mnb mnb => exact not_noTrace_mnb hrecords (Bool.eq_false_iff.mpr hforged) h
    | mnp mnp => exact not_noTrace_mnp hrecords hforged h
  · intro h log env' genuine _ _
    rw [processMessage_of_not_records h]
    exact alike_refl _

end CMasternodeMan

end AnkerNode
