import AnkerNode.Coins.View
import AnkerNode.Masternode.BlockPayment
import AnkerNode.Masternode.Masternode
import AnkerNode.Script.Standard

namespace AnkerNode

structure ColdStaker extends CColdStaking where
  vin : CTxIn
deriving DecidableEq, Repr

structure ColdStakingHashes where
  hash160 : Valtype → Valtype
  getHash : Int → CTxIn → UInt256

def ColdStaker.getHash (hashes : ColdStakingHashes) (clsr : ColdStaker) : UInt256 :=
  hashes.getHash clsr.sigTime clsr.vin

-- `stray` is what a read past the end of `vout` finds.
structure ColdStakingEnv where
  nTime : Int
  fLiteMode : Bool := false
  fBlockchainSynced : Bool := true
  getTransaction : UInt256 → Option CTransaction
  pcoinsTip : CCoinsView
  stray : CTxOut := ⟨-1, []⟩

namespace ColdStakingEnv

variable (env : ColdStakingEnv)

def threeMonthsLast : Int := SubsidyEnv.coldStakingExpiry + env.nTime

def outputOf (prevout : COutPoint) : Option CTxOut :=
  (env.getTransaction prevout.hash).map fun tx => (tx.vout[prevout.n.toNat]?).getD env.stray

end ColdStakingEnv

structure CColdStakingList where
  mapColdStaking : Std.TreeMap UInt256 ColdStaker := ∅

namespace CColdStakingList

variable (hashes : ColdStakingHashes) (list : CColdStakingList)

def entry (k : UInt256) : Option ColdStaker := list.mapColdStaking[k]?

def put (key : UInt256) (clsr : ColdStaker) : CColdStakingList :=
  ⟨list.mapColdStaking.insert key clsr⟩

def deleteHash (key : UInt256) : CColdStakingList := ⟨list.mapColdStaking.erase key⟩

def entryOf (vin : CTxIn) : Option (UInt256 × ColdStaker) :=
  list.mapColdStaking.toList.find? fun it => it.2.vin == vin

def newEntry (vin : CTxIn) (sigTime payTime : Int) (pubScript : CScript) : ColdStaker where
  vin := vin
  sigTime := sigTime
  payTime := payTime
  pubKeyCollateralAddress := getScriptForDestination
    ((CScript.extractDestination hashes.hash160 pubScript).getD .CNoDestination)

def add (env : ColdStakingEnv) (vin : CTxIn) (sigTime payTime : Int) : CColdStakingList :=
  if env.threeMonthsLast < sigTime then list
  else
    match env.outputOf vin.prevout with
    | none => list
    | some out =>
      if out.nValue = 1000 * COIN then
        if env.pcoinsTip.haveCoins vin.prevout.hash then
          let clsr := newEntry hashes vin sigTime payTime out.scriptPubKey
          ⟨list.mapColdStaking.insertIfNew (clsr.getHash hashes) clsr⟩
        else list
      else list

-- The first entry in the order of the map that has the whole input, script and sequence included.
def findOrAdd (env : ColdStakingEnv) (vin : CTxIn) (sigTime payTime : Int) : CColdStakingList :=
  match list.entryOf vin with
  | some (key, clsr) =>
    if env.threeMonthsLast < clsr.sigTime then list.deleteHash key
    else list.put key { clsr with payTime := payTime }
  | none => list.add hashes env vin sigTime payTime

def processMessage (env : ColdStakingEnv) (clsr : ColdStaker) : CColdStakingList :=
  if env.fLiteMode || !env.fBlockchainSynced then list
  else list.findOrAdd hashes env clsr.vin clsr.sigTime clsr.payTime

-- the node that fills a block, with this list
def onNode (env : SubsidyEnv) : SubsidyEnv :=
  { env with mapColdStaking := list.mapColdStaking.map fun _ clsr => clsr.toCColdStaking }

def blankEntry (nTime : Int) : ColdStaker := { payTime := nTime, vin := CTxIn.null }

def getWinningColdStaker (env : SubsidyEnv) : CColdStakingList × ColdStaker :=
  match (list.onNode env).winningColdStaker with
  | some winnerHash =>
    let winner := (list.entry winnerHash).getD (blankEntry env.nTime)
    let winner := { winner with payTime := env.nTime }
    (list.put winnerHash winner, winner)
  | none =>
    let entry := (list.entry 0).getD (blankEntry env.nTime)
    (list.put 0 entry, entry)

-- Deleting from the map that is being read is undefined beyond the first entry deleted. The loop
-- is taken to delete each expired entry.
def checkOld (nTime : Int) : CColdStakingList :=
  ⟨list.mapColdStaking.filter fun _ clsr =>
    !decide (SubsidyEnv.coldStakingExpiry + nTime < clsr.sigTime)⟩

end CColdStakingList

inductive ColdStakingStep
  | cstk (env : ColdStakingEnv) (clsr : ColdStaker)
  | findOrAdd (env : ColdStakingEnv) (vin : CTxIn)
  | getWinningColdStaker (env : SubsidyEnv)
  | checkOld (nTime : Int)

namespace ColdStakingStep

variable (hashes : ColdStakingHashes)

-- A local call signs and pays at the time of the call.
def apply (list : CColdStakingList) : ColdStakingStep → CColdStakingList
  | cstk env clsr => list.processMessage hashes env clsr
  | findOrAdd env vin => list.findOrAdd hashes env vin env.nTime env.nTime
  | getWinningColdStaker env => (list.getWinningColdStaker env).1
  | checkOld nTime => list.checkOld nTime

def run (steps : List ColdStakingStep) : CColdStakingList := steps.foldl (apply hashes) {}

end ColdStakingStep

-- the entry is the one a call of `FindorAdd` makes for an unspent output of 1000 coins
def ColdStakingEnv.Registers (hashes : ColdStakingHashes) (env : ColdStakingEnv)
    (clsr : ColdStaker) : Prop :=
  ∃ tx out dest, env.getTransaction clsr.vin.prevout.hash = some tx ∧
    tx.vout[clsr.vin.prevout.n.toNat]? = some out ∧ out.nValue = 1000 * COIN ∧
    env.pcoinsTip.haveInput clsr.vin = true ∧
    CScript.extractDestination hashes.hash160 out.scriptPubKey = some dest ∧
    clsr.pubKeyCollateralAddress = getScriptForDestination dest

def ColdStakingStep.Registers (hashes : ColdStakingHashes) (clsr : ColdStaker) :
    ColdStakingStep → Prop
  | cstk env sent => sent.vin = clsr.vin ∧ sent.sigTime = clsr.sigTime ∧ env.Registers hashes clsr
  | findOrAdd env vin => vin = clsr.vin ∧ env.nTime = clsr.sigTime ∧ env.Registers hashes clsr
  | _ => False

namespace ColdStakingStep

-- the step of the history that put the entry where it has been since
def Added (hashes : ColdStakingHashes) (history : List ColdStakingStep) (k : UInt256)
    (clsr : ColdStaker) : Prop :=
  ∃ pre step post, history = pre ++ step :: post ∧ (run hashes pre).entry k = none ∧
    step.Registers hashes clsr ∧
    ∀ mid rest, post = mid ++ rest → ((run hashes (pre ++ step :: mid)).entry k).isSome = true

structure Registry (hashes : ColdStakingHashes) (history : List ColdStakingStep) : Prop where
  key : ∀ k clsr, (run hashes history).entry k = some clsr → k = clsr.getHash hashes
  output : ∀ k clsr, (run hashes history).entry k = some clsr → Added hashes history k clsr
  outpoint : ∀ k clsr k' clsr', (run hashes history).entry k = some clsr →
    (run hashes history).entry k' = some clsr' → clsr.vin.prevout = clsr'.vin.prevout → k = k'

end ColdStakingStep

namespace CColdStakingList

-- a call that comes to put a new entry in the map
structure Adds (hashes : ColdStakingHashes) (list : CColdStakingList) (env : ColdStakingEnv)
    (vin : CTxIn) (sigTime : Int) (out : CTxOut) : Prop where
  unknown : ∀ k clsr, list.entry k = some clsr → clsr.vin ≠ vin
  young : sigTime ≤ env.threeMonthsLast
  output : env.outputOf vin.prevout = some out
  value : out.nValue = 1000 * COIN
  coins : env.pcoinsTip.haveCoins vin.prevout.hash = true
  absent : list.entry (hashes.getHash sigTime vin) = none

-- The index is inside `vout`, the output itself is unspent and names an address, and no entry has
-- its outpoint under another script or sequence.
structure Admissible (hashes : ColdStakingHashes) (list : CColdStakingList) (env : ColdStakingEnv)
    (vin : CTxIn) : Prop where
  inside : ∀ tx, env.getTransaction vin.prevout.hash = some tx →
    vin.prevout.n.toNat < tx.vout.length
  unspent : env.pcoinsTip.haveInput vin = true
  address : ∀ out, env.outputOf vin.prevout = some out →
    (CScript.extractDestination hashes.hash160 out.scriptPubKey).isSome = true
  fresh : ∀ k clsr, list.entry k = some clsr → clsr.vin.prevout ≠ vin.prevout

def Eligible (nTime : Int) (clsr : ColdStaker) : Prop :=
  clsr.payTime < nTime ∧ clsr.sigTime < SubsidyEnv.coldStakingExpiry + nTime

-- an entry is there to be paid
def HasWinner (list : CColdStakingList) (nTime : Int) : Prop :=
  (∃ k clsr, list.entry k = some clsr ∧ Eligible nTime clsr) ∨
    (list.entry 0).isSome = true

variable {hashes : ColdStakingHashes} {list : CColdStakingList} {env : ColdStakingEnv}
  {vin : CTxIn} {sigTime payTime : Int} {key : UInt256} {clsr : ColdStaker}

theorem mem_toList :
    (key, clsr) ∈ list.mapColdStaking.toList ↔ list.entry key = some clsr :=
  Std.TreeMap.mem_toList_iff_getElem?_eq_some

theorem entry_put (k : UInt256) :
    (list.put key clsr).entry k = if key = k then some clsr else list.entry k := by
  simp [put, entry, Std.TreeMap.getElem?_insert]

theorem entry_insertIfNew (k : UInt256) :
    entry ⟨list.mapColdStaking.insertIfNew key clsr⟩ k =
      if key = k ∧ list.entry key = none then some clsr else list.entry k := by
  simp [entry, Std.TreeMap.getElem?_insertIfNew]

theorem entry_of_deleteHash {k : UInt256} (h : (list.deleteHash key).entry k = some clsr) :
    list.entry k = some clsr := by
  simp only [deleteHash, entry, Std.TreeMap.getElem?_erase] at h
  split at h
  · cases h
  · exact h

theorem entry_of_checkOld {nTime : Int} {k : UInt256}
    (h : (list.checkOld nTime).entry k = some clsr) : list.entry k = some clsr := by
  simp only [checkOld, entry, Std.TreeMap.getElem?_filter'] at h
  exact (Option.filter_eq_some_iff.mp h).1

theorem entryOf_some (h : list.entryOf vin = some (key, clsr)) :
    list.entry key = some clsr ∧ clsr.vin = vin := by
  rw [entryOf] at h
  exact ⟨mem_toList.mp (List.mem_of_find?_eq_some h), by simpa using List.find?_some h⟩

theorem entryOf_none (h : list.entryOf vin = none) {k : UInt256}
    (hk : list.entry k = some clsr) : clsr.vin ≠ vin := by
  rw [entryOf, List.find?_eq_none] at h
  simpa using h _ (mem_toList.mpr hk)

-- what a call can do to the entries: drop some, pay one again, or make a new one
theorem findOrAdd_cases (hashes : ColdStakingHashes) (list : CColdStakingList)
    (env : ColdStakingEnv) (vin : CTxIn) (sigTime payTime : Int) :
    (∀ k clsr, (list.findOrAdd hashes env vin sigTime payTime).entry k = some clsr →
        list.entry k = some clsr) ∨
      (∃ key clsr, list.entry key = some clsr ∧
        list.findOrAdd hashes env vin sigTime payTime =
          list.put key { clsr with payTime := payTime }) ∨
      ∃ out, list.Adds hashes env vin sigTime out ∧
        ∀ k, (list.findOrAdd hashes env vin sigTime payTime).entry k =
          if hashes.getHash sigTime vin = k then
            some (newEntry hashes vin sigTime payTime out.scriptPubKey)
          else list.entry k := by
  simp only [findOrAdd]
  cases hentry : list.entryOf vin with
  | some it =>
    obtain ⟨key, clsr⟩ := it
    simp only
    split
    · exact .inl fun k clsr hk => entry_of_deleteHash hk
    · exact .inr (.inl ⟨key, clsr, (entryOf_some hentry).1, rfl⟩)
  | none =>
    simp only [add]
    split
    · exact .inl fun k clsr hk => hk
    · rename_i hyoung
      cases hout : env.outputOf vin.prevout with
      | none => exact .inl fun k clsr hk => hk
      | some out =>
        simp only
        split
        · rename_i hvalue
          split
          · rename_i hcoins
            cases habsent : list.entry (hashes.getHash sigTime vin) with
            | some clsr =>
              refine .inl fun k clsr' hk => ?_
              rw [entry_insertIfNew] at hk
              simpa [ColdStaker.getHash, newEntry, habsent] using hk
            | none =>
              refine .inr (.inr ⟨out, ⟨fun k clsr hk => entryOf_none hentry hk,
                not_lt.mp hyoung, hout, hvalue, hcoins, habsent⟩, fun k => ?_⟩)
              rw [entry_insertIfNew]
              simp [ColdStaker.getHash, newEntry, habsent]
          · exact .inl fun k clsr hk => hk
        · exact .inl fun k clsr hk => hk

theorem foldl_winner (nTime : Int) (entries : List (UInt256 × CColdStaking))
    (best : Option UInt256 × Int) :
    let winner := (entries.foldl
      (fun best it =>
        if it.2.payTime < best.2 && it.2.sigTime < SubsidyEnv.coldStakingExpiry + nTime then
          (some it.1, it.2.payTime)
        else best) best).1
    (∀ key, winner = some key → best.1 = some key ∨ ∃ it ∈ entries, it.1 = key) ∧
      (winner = none → best.1 = none ∧ ∀ it ∈ entries, ¬(it.2.payTime < best.2 ∧
        it.2.sigTime < SubsidyEnv.coldStakingExpiry + nTime)) := by
  induction entries generalizing best with
  | nil => simp
  | cons it entries ih =>
    simp only [List.foldl_cons]
    split
    · rename_i hit
      obtain ⟨hsome, hnone⟩ := ih (some it.1, it.2.payTime)
      refine ⟨fun key hkey => ?_, fun hwinner => absurd (hnone hwinner).1 (by simp)⟩
      rcases hsome key hkey with hkey | ⟨other, hother, rfl⟩
      · exact .inr ⟨it, List.mem_cons_self, Option.some.inj hkey⟩
      · exact .inr ⟨other, List.mem_cons_of_mem it hother, rfl⟩
    · rename_i hit
      obtain ⟨hsome, hnone⟩ := ih best
      refine ⟨fun key hkey => ?_, fun hwinner => ⟨(hnone hwinner).1, ?_⟩⟩
      · rcases hsome key hkey with hkey | ⟨other, hother, rfl⟩
        · exact .inl hkey
        · exact .inr ⟨other, List.mem_cons_of_mem it hother, rfl⟩
      · rw [List.forall_mem_cons]
        exact ⟨by simpa using hit, (hnone hwinner).2⟩

theorem toList_onNode (list : CColdStakingList) (env : SubsidyEnv) :
    (list.onNode env).mapColdStaking.toList =
      list.mapColdStaking.toList.map fun it => (it.1, it.2.toCColdStaking) :=
  Std.TreeMap.toList_map

theorem entry_of_winner {env : SubsidyEnv} (h : (list.onNode env).winningColdStaker = some key) :
    ∃ clsr, list.entry key = some clsr := by
  rw [SubsidyEnv.winningColdStaker] at h
  rcases (foldl_winner env.nTime _ _).1 key h with h | ⟨it, hit, rfl⟩
  · cases h
  · rw [toList_onNode, List.mem_map] at hit
    obtain ⟨entry, hentry, rfl⟩ := hit
    exact ⟨entry.2, mem_toList.mp hentry⟩

theorem not_eligible_of_none {env : SubsidyEnv} (h : (list.onNode env).winningColdStaker = none)
    (hentry : list.entry key = some clsr) : ¬Eligible env.nTime clsr := by
  rw [SubsidyEnv.winningColdStaker] at h
  exact ((foldl_winner env.nTime _ _).2 h).2 (key, clsr.toCColdStaking)
    (by rw [toList_onNode]; exact List.mem_map_of_mem (mem_toList.mpr hentry))

-- With a winner, or an entry at the null hash, an entry that is there is paid again.
theorem getWinningColdStaker_of_hasWinner {env : SubsidyEnv} (h : list.HasWinner env.nTime) :
    ∃ key clsr payTime, list.entry key = some clsr ∧
      list.getWinningColdStaker env =
        (list.put key { clsr with payTime := payTime }, { clsr with payTime := payTime }) := by
  rw [getWinningColdStaker]
  cases hwinner : (list.onNode env).winningColdStaker with
  | some key =>
    obtain ⟨clsr, hentry⟩ := entry_of_winner hwinner
    exact ⟨key, clsr, env.nTime, hentry, by simp [hentry]⟩
  | none =>
    rcases h with ⟨key, clsr, hentry, heligible⟩ | hzero
    · exact absurd heligible (not_eligible_of_none hwinner hentry)
    · obtain ⟨clsr, hentry⟩ := Option.isSome_iff_exists.mp hzero
      exact ⟨0, clsr, clsr.payTime, hentry, by simp only [hentry, Option.getD_some]⟩

-- What fills a block pays the address of the entry this list gives.
theorem coldStakingOutput_onNode (list : CColdStakingList) (env : SubsidyEnv) (nHeight : Int) :
    (list.onNode env).coldStakingOutput nHeight =
      ⟨getColdstakingPayment nHeight,
        (list.getWinningColdStaker env).2.pubKeyCollateralAddress⟩ := by
  have hentry : ∀ k : UInt256, (list.onNode env).mapColdStaking[k]? =
      (list.entry k).map ColdStaker.toCColdStaking := by
    intro k
    simp [onNode, entry]
  simp only [SubsidyEnv.coldStakingOutput, SubsidyEnv.getWinningColdStaker, getWinningColdStaker,
    hentry]
  cases hwinner : (list.onNode env).winningColdStaker with
  | some key =>
    simp only
    cases list.entry key <;> rfl
  | none =>
    simp only
    cases list.entry 0 <;> rfl

end CColdStakingList

namespace ColdStakingStep

open CColdStakingList

-- What the step adds is admissible, and it has an entry to pay when it pays one.
def Met (hashes : ColdStakingHashes) (list : CColdStakingList) : ColdStakingStep → Prop
  | cstk env clsr =>
    ∀ out, env.fLiteMode = false → env.fBlockchainSynced = true →
      list.Adds hashes env clsr.vin clsr.sigTime out → list.Admissible hashes env clsr.vin
  | findOrAdd env vin =>
    ∀ out, list.Adds hashes env vin env.nTime out → list.Admissible hashes env vin
  | getWinningColdStaker env => list.HasWinner env.nTime
  | checkOld _ => True

variable {hashes : ColdStakingHashes} {history : List ColdStakingStep} {step : ColdStakingStep}
  {k : UInt256} {clsr : ColdStaker}

theorem run_snoc (hashes : ColdStakingHashes) (history : List ColdStakingStep)
    (step : ColdStakingStep) :
    run hashes (history ++ [step]) = step.apply hashes (run hashes history) := by
  simp [run, List.foldl_append]

theorem Added.snoc (h : Added hashes history k clsr)
    (hentry : ((run hashes (history ++ [step])).entry k).isSome = true) :
    Added hashes (history ++ [step]) k clsr := by
  obtain ⟨pre, added, post, rfl, habsent, hregisters, hsince⟩ := h
  refine ⟨pre, added, post ++ [step], by simp, habsent, hregisters, fun mid rest hpost => ?_⟩
  rcases List.eq_nil_or_concat rest with rfl | ⟨rest, last, rfl⟩
  · rw [List.append_nil] at hpost
    simpa [← hpost] using hentry
  · rw [List.concat_eq_append, ← List.append_assoc] at hpost
    exact hsince mid rest (List.append_inj_left' hpost rfl)

theorem Added.withPayTime {payTime : Int} (h : Added hashes history k clsr) :
    Added hashes history k { clsr with payTime := payTime } := by
  obtain ⟨pre, added, post, heq, habsent, hregisters, hsince⟩ := h
  refine ⟨pre, added, post, heq, habsent, ?_, hsince⟩
  cases added <;> exact hregisters

theorem Added.exists_registers (h : Added hashes history k clsr) :
    ∃ step ∈ history, step.Registers hashes clsr := by
  obtain ⟨pre, step, post, rfl, -, hregisters, -⟩ := h
  exact ⟨step, by simp, hregisters⟩

theorem registry_nil (hashes : ColdStakingHashes) : Registry hashes [] := by
  have hempty : ∀ k, (run hashes []).entry k = none := fun k => Std.TreeMap.getElem?_emptyc
  constructor <;> intros <;> simp_all

-- a step that only drops entries
theorem Registry.shrink (h : Registry hashes history)
    (hsub : ∀ k clsr, (run hashes (history ++ [step])).entry k = some clsr →
      (run hashes history).entry k = some clsr) :
    Registry hashes (history ++ [step]) where
  key k clsr hk := h.key k clsr (hsub k clsr hk)
  output k clsr hk := (h.output k clsr (hsub k clsr hk)).snoc (by rw [hk]; rfl)
  outpoint k clsr k' clsr' hk hk' :=
    h.outpoint k clsr k' clsr' (hsub k clsr hk) (hsub k' clsr' hk')

-- a step that sets when an entry was paid
theorem Registry.pay (h : Registry hashes history) {key : UInt256} {payTime : Int}
    (hentry : (run hashes history).entry key = some clsr)
    (hstep : run hashes (history ++ [step]) =
      (run hashes history).put key { clsr with payTime := payTime }) :
    Registry hashes (history ++ [step]) := by
  have hold : ∀ k new, (run hashes (history ++ [step])).entry k = some new →
      ∃ old t, (run hashes history).entry k = some old ∧ new = { old with payTime := t } := by
    intro k new hk
    rw [hstep, entry_put] at hk
    split at hk
    · rename_i heq
      subst heq
      exact ⟨clsr, payTime, hentry, (Option.some.inj hk).symm⟩
    · exact ⟨new, new.payTime, hk, rfl⟩
  constructor
  · intro k new hk
    obtain ⟨old, t, hk', rfl⟩ := hold k new hk
    exact h.key k old hk'
  · intro k new hk
    obtain ⟨old, t, hk', rfl⟩ := hold k new hk
    exact (h.output k old hk').withPayTime.snoc (by rw [hk]; rfl)
  · intro k new k' new' hk hk' hprevout
    obtain ⟨old, t, hold1, rfl⟩ := hold k new hk
    obtain ⟨old', t', hold2, rfl⟩ := hold k' new' hk'
    exact h.outpoint k old k' old' hold1 hold2 hprevout

-- a step that registers an output no entry has
theorem Registry.register (h : Registry hashes history)
    (habsent : (run hashes history).entry (clsr.getHash hashes) = none)
    (hfresh : ∀ k old, (run hashes history).entry k = some old →
      old.vin.prevout ≠ clsr.vin.prevout)
    (hregisters : step.Registers hashes clsr)
    (hstep : ∀ k, (run hashes (history ++ [step])).entry k =
      if clsr.getHash hashes = k then some clsr else (run hashes history).entry k) :
    Registry hashes (history ++ [step]) := by
  have hold : ∀ k new, (run hashes (history ++ [step])).entry k = some new →
      (k = clsr.getHash hashes ∧ new = clsr) ∨ (run hashes history).entry k = some new := by
    intro k new hk
    rw [hstep] at hk
    split at hk
    · rename_i heq
      exact .inl ⟨heq.symm, (Option.some.inj hk).symm⟩
    · exact .inr hk
  constructor
  · intro k new hk
    rcases hold k new hk with ⟨rfl, rfl⟩ | hk'
    · rfl
    · exact h.key k new hk'
  · intro k new hk
    rcases hold k new hk with ⟨rfl, rfl⟩ | hk'
    · refine ⟨history, step, [], rfl, habsent, hregisters, fun mid rest hpost => ?_⟩
      obtain ⟨rfl, -⟩ := List.append_eq_nil_iff.mp hpost.symm
      rw [hk]
      rfl
    · exact (h.output k new hk').snoc (by rw [hk]; rfl)
  · intro k new k' new' hk hk' hprevout
    rcases hold k new hk with ⟨rfl, rfl⟩ | hk1 <;> rcases hold k' new' hk' with ⟨rfl, rfl⟩ | hk2
    · rfl
    · exact absurd hprevout.symm (hfresh k' new' hk2)
    · exact absurd hprevout (hfresh k new hk1)
    · exact h.outpoint k new k' new' hk1 hk2 hprevout

theorem registers_newEntry {list : CColdStakingList} {env : ColdStakingEnv} {vin : CTxIn}
    {sigTime : Int} {out : CTxOut} (payTime : Int) (hadds : list.Adds hashes env vin sigTime out)
    (hadmissible : list.Admissible hashes env vin) :
    env.Registers hashes (newEntry hashes vin sigTime payTime out.scriptPubKey) := by
  obtain ⟨dest, hdest⟩ := Option.isSome_iff_exists.mp (hadmissible.address out hadds.output)
  obtain ⟨tx, htx, hout⟩ := Option.map_eq_some_iff.mp hadds.output
  have hinside := hadmissible.inside tx htx
  rw [List.getElem?_eq_getElem hinside, Option.getD_some] at hout
  refine ⟨tx, out, dest, htx, ?_, hadds.value, hadmissible.unspent, hdest, ?_⟩
  · rw [← hout]
    exact List.getElem?_eq_getElem hinside
  · simp [newEntry, hdest]

theorem Registry.findOrAdd {env : ColdStakingEnv} {vin : CTxIn} {sigTime payTime : Int}
    (h : Registry hashes history)
    (hstep : run hashes (history ++ [step]) =
      (run hashes history).findOrAdd hashes env vin sigTime payTime)
    (hmet : ∀ out, (run hashes history).Adds hashes env vin sigTime out →
      (run hashes history).Admissible hashes env vin)
    (hregisters : ∀ clsr : ColdStaker, vin = clsr.vin → sigTime = clsr.sigTime →
      env.Registers hashes clsr → step.Registers hashes clsr) :
    Registry hashes (history ++ [step]) := by
  rcases findOrAdd_cases hashes (run hashes history) env vin sigTime payTime with
    hsub | ⟨key, clsr, hentry, hpay⟩ | ⟨out, hadds, hnew⟩
  · exact h.shrink (by rwa [hstep])
  · exact h.pay hentry (hstep.trans hpay)
  · have hadmissible := hmet out hadds
    have hregister : env.Registers hashes (newEntry hashes vin sigTime payTime out.scriptPubKey) :=
      registers_newEntry payTime hadds hadmissible
    have habsent : (run hashes history).entry
        ((newEntry hashes vin sigTime payTime out.scriptPubKey).getHash hashes) = none := hadds.absent
    exact h.register habsent hadmissible.fresh (hregisters _ rfl rfl hregister)
      (by rw [hstep]; exact hnew)

theorem registry_step (h : Registry hashes history) (hmet : step.Met hashes (run hashes history)) :
    Registry hashes (history ++ [step]) := by
  have hrun := run_snoc hashes history step
  cases step with
  | cstk env clsr =>
    simp only [apply, processMessage] at hrun
    by_cases hoff : (env.fLiteMode || !env.fBlockchainSynced) = true
    · rw [if_pos hoff] at hrun
      exact h.shrink (by rw [hrun]; exact fun k clsr hk => hk)
    · rw [if_neg hoff] at hrun
      simp only [Bool.or_eq_true, Bool.not_eq_true', not_or, Bool.not_eq_true,
        Bool.not_eq_false] at hoff
      exact h.findOrAdd hrun (fun out hadds => hmet out hoff.1 hoff.2 hadds)
        (fun new hvin hsig hreg => ⟨hvin, hsig, hreg⟩)
  | findOrAdd env vin =>
    exact h.findOrAdd hrun hmet (fun new hvin hsig hreg => ⟨hvin, hsig, hreg⟩)
  | getWinningColdStaker env =>
    obtain ⟨key, clsr, payTime, hentry, hwinner⟩ := getWinningColdStaker_of_hasWinner hmet
    exact h.pay hentry (hrun.trans (congrArg Prod.fst hwinner))
  | checkOld nTime =>
    exact h.shrink (by rw [hrun]; exact fun k clsr hk => entry_of_checkOld hk)

def AllMet (hashes : ColdStakingHashes) : CColdStakingList → List ColdStakingStep → Prop
  | _, [] => True
  | list, step :: rest => step.Met hashes list ∧ AllMet hashes (step.apply hashes list) rest

theorem allMet_append {list : CColdStakingList} {pre post : List ColdStakingStep} :
    AllMet hashes list (pre ++ post) ↔
      AllMet hashes list pre ∧ AllMet hashes (pre.foldl (apply hashes) list) post := by
  induction pre generalizing list with
  | nil => simp [AllMet]
  | cons step pre ih => simp [AllMet, ih, and_assoc]

theorem registry_run (history : List ColdStakingStep) (h : AllMet hashes {} history) :
    Registry hashes history := by
  induction history using List.reverseRecOn with
  | nil => exact registry_nil hashes
  | append_singleton history step ih =>
    obtain ⟨hhistory, hstep, -⟩ := allMet_append.mp h
    exact registry_step (ih hhistory) hstep

-- The cold staking output of any block filled after this history pays an address that is
-- registered then.
def PaysRegistered (hashes : ColdStakingHashes) (history : List ColdStakingStep)
    (env : SubsidyEnv) : Prop :=
  ∀ nHeight vout last rpayee payee, env.nLastPOWBlock < nHeight + 1 →
    rpayee.or (((run hashes history).onNode env).getPayee nHeight) = some payee →
    ∃ out k clsr,
      (((run hashes history).onNode env).fillBlockPayee nHeight (vout ++ [last]) true
        rpayee).getLast? = some out ∧
      out.nValue = getColdstakingPayment nHeight ∧ out.scriptPubKey ≠ [] ∧
      (run hashes history).entry k = some clsr ∧ out.scriptPubKey = clsr.pubKeyCollateralAddress

theorem Registry.address_ne_nil (h : Registry hashes history)
    (hentry : (run hashes history).entry k = some clsr) : clsr.pubKeyCollateralAddress ≠ [] := by
  obtain ⟨step, -, hregisters⟩ := (h.output k clsr hentry).exists_registers
  have haddress : ∃ env : ColdStakingEnv, env.Registers hashes clsr := by
    cases step with
    | cstk env sent => exact ⟨env, hregisters.2.2⟩
    | findOrAdd env vin => exact ⟨env, hregisters.2.2⟩
    | getWinningColdStaker env => exact hregisters.elim
    | checkOld nTime => exact hregisters.elim
  obtain ⟨env, tx, out, dest, -, -, -, -, hdest, haddress⟩ := haddress
  rw [haddress]
  exact getScriptForDestination_ne_nil (CScript.extractDestination_ne hdest)

theorem Registry.pays {env : SubsidyEnv} (h : Registry hashes history)
    (hwinner : (run hashes history).HasWinner env.nTime) : PaysRegistered hashes history env := by
  intro nHeight vout last rpayee payee htip hpayee
  obtain ⟨key, clsr, payTime, hentry, heq⟩ := getWinningColdStaker_of_hasWinner hwinner
  refine ⟨((run hashes history).onNode env).coldStakingOutput nHeight, key, clsr, ?_, ?_, ?_,
    hentry, ?_⟩
  · have hnode : ((run hashes history).onNode env).nLastPOWBlock < nHeight + 1 := htip
    rw [SubsidyEnv.fillBlockPayee_stake hnode hpayee]
    simp
  · rw [coldStakingOutput_onNode]
  · rw [coldStakingOutput_onNode, heq]
    exact h.address_ne_nil hentry
  · rw [coldStakingOutput_onNode, heq]

def plainHashes : ColdStakingHashes where
  hash160 vch := vch.take 20
  getHash sigTime vin :=
    vin.prevout.hash + vin.prevout.n.toNat + 16 * vin.nSequence.toNat + BitVec.ofInt 256 sigTime

def stakerScript : CScript := getScriptForDestination (.CKeyID (List.replicate 20 7))

def stakeTx : CTransaction where
  hash := 5
  vin := []
  vout := [⟨1000 * COIN, stakerScript⟩, ⟨1000 * COIN, stakerScript⟩]

-- The first output of the transaction is unspent, the second is spent.
def stakeEnv : ColdStakingEnv where
  nTime := 100
  getTransaction txid := if txid = 5 then some stakeTx else none
  pcoinsTip :=
    ⟨fun txid => if txid = 5 then some { vout := [⟨1000 * COIN, stakerScript⟩] } else none, 0⟩

def stakeIn (n : UInt32) : CTxIn := ⟨⟨5, n⟩, [], 0xffffffff⟩

def minerEnv : SubsidyEnv where
  nTime := 200
  vMasternodes := []
  isEnabled _ := true
  calculateScore _ := 1

def stakeRun : List ColdStakingStep :=
  [findOrAdd stakeEnv (stakeIn 0), getWinningColdStaker minerEnv]

theorem stakeRun_met : AllMet plainHashes {} stakeRun := by
  have hadmissible : Admissible plainHashes {} stakeEnv (stakeIn 0) := by
    refine ⟨fun tx htx => ?_, by decide +kernel, fun out hout => ?_, fun k clsr hk => ?_⟩
    · obtain rfl : stakeTx = tx := Option.some.inj htx
      decide
    · obtain rfl : ⟨1000 * COIN, stakerScript⟩ = out := Option.some.inj hout
      decide +kernel
    · exact absurd (Std.TreeMap.getElem?_emptyc.symm.trans hk) (by simp)
  refine ⟨fun out _ => hadmissible, .inl ⟨plainHashes.getHash 100 (stakeIn 0),
    newEntry plainHashes (stakeIn 0) 100 100 stakerScript, by decide +kernel, ?_⟩, trivial⟩
  exact ⟨by decide +kernel, by decide +kernel⟩

end ColdStakingStep

end AnkerNode
