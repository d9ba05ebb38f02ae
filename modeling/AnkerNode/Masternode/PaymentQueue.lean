import AnkerNode.Masternode.Rank
import AnkerNode.Masternode.Removal
import AnkerNode.Masternode.Payments
import Mathlib.Data.List.Sort

namespace AnkerNode

open Ranking Sorting

def CMasternodeBlockPayees.hasPayeeWithVotes (payees : CMasternodeBlockPayees) (payee : CScript)
    (nVotesReq : Int) : Bool :=
  payees.vecPayments.any fun p => decide (nVotesReq ≤ p.nVotes) && p.scriptPubKey == payee

-- an element of `vecMasternodeLastPaid`
abbrev LastPaid := Int × CTxIn

def compareLastPaid (t1 t2 : LastPaid) : Bool := decide (t1.1 < t2.1)

-- What the selection asks of the node. `paymentHash` is `CHashWriter` over an input and a time,
-- `isTooNew` the comparison `sigTime + (nMnCount * 2.6 * 60) > GetAdjustedTime()`, which is made in
-- floating point, and `fLockSchedule` tells whether `cs_main` was free when a pass, filtered or
-- not, looked up the schedule of an input.
structure QueueEnv extends CheckEnv where
  nMinProtocol : Int := 0
  hash160 : Valtype → Valtype
  paymentHash : CTxIn → Int → UInt256
  scoreHashes : ScoreHashes
  blockTime : UInt256 → UInt32
  getInputAge : CTxIn → Int
  isTooNew : Nat → Int → Int → Bool
  fLockSchedule : Bool → CTxIn → Bool := fun _ _ => true
  masternodePayments : CMasternodePayments := {}
  sorter : Sorter compareLastPaid

-- The loop of `GetLastPaid` from a block on, down to the genesis block; `n` blocks were read before.
def QueueEnv.lastPaidFrom (env : QueueEnv) (mnpayee : CScript) (nMnCount : Nat) (nOffset : Int) :
    Nat → List UInt256 → Int
  | n, hash :: pprev :: rest =>
    if nMnCount ≤ n then 0
    else if (env.masternodePayments.mapMasternodeBlocks ((rest.length : Int) + 1)).any
        fun payees => payees.hasPayeeWithVotes mnpayee 2 then
      ((env.blockTime hash).toNat : Int) + nOffset
    else env.lastPaidFrom mnpayee nMnCount nOffset (n + 1) (pprev :: rest)
  | _, _ => 0

namespace MasternodeMembers

variable (mn : MasternodeMembers) (env : QueueEnv) (hashes : HashCache) (nBlockHeight : Int)
  (fFilterSigTime : Bool) (nMnCount : Nat)

def isEnabled : Bool := mn.activeState == .ENABLED

def mnpayee : CScript := getScriptForDestination (.CKeyID (env.hash160 mn.pubKeyCollateralAddress))

-- `nMnCount` is what `CountEnabled` gives; `CountEnabled() * 1.25` is cut to a whole number.
def getLastPaid : Int :=
  env.lastPaidFrom (mn.mnpayee env) (nMnCount * 5 / 4)
    ((getCompact (env.paymentHash mn.vin mn.sigTime)).tmod 150) 0 hashes.chainActive

def month : Int := 60 * 60 * 24 * 30

def secondsSincePayment : Int :=
  let sec := env.nAdjustedTime - mn.getLastPaid env hashes nMnCount
  if sec < month then sec else month + getCompact (env.paymentHash mn.vin mn.sigTime)

def isScheduled (nNotBlockHeight : Int) : Bool :=
  if !env.fLockSchedule fFilterSigTime mn.vin || hashes.chainActive.isEmpty then false
  else
    ((List.range 9).map fun i : Nat => hashes.height + (i : Int)).any fun h =>
      h != nNotBlockHeight &&
        env.masternodePayments.getBlockPayee h == some (mn.mnpayee env)

def cacheAge : MasternodeMembers :=
  if hashes.chainActive.isEmpty then mn
  else if mn.cacheInputAge = 0 then
    { mn with cacheInputAge := env.getInputAge mn.vin, cacheInputAgeBlock := hashes.height }
  else mn

def getMasternodeInputAge : Int :=
  if hashes.chainActive.isEmpty then 0
  else
    (mn.cacheAge env hashes).cacheInputAge +
      (hashes.height - (mn.cacheAge env hashes).cacheInputAgeBlock)

def score : UInt256 :=
  calculateScore env.scoreHashes (hashes.getBlockHash (int32Wrap (nBlockHeight - 100))).2 mn.vin

-- One turn of the first loop: what becomes of the masternode, and what goes into the vector.
def queueTurn : MasternodeMembers × Option LastPaid :=
  let mn := mn.check env.toCheckEnv false
  if !mn.isEnabled then (mn, none)
  else if mn.protocolVersion < env.nMinProtocol then (mn, none)
  else if mn.isScheduled env hashes fFilterSigTime nBlockHeight then (mn, none)
  else if fFilterSigTime && env.isTooNew nMnCount mn.sigTime env.nAdjustedTime then (mn, none)
  else if mn.getMasternodeInputAge env hashes < nMnCount then (mn.cacheAge env hashes, none)
  else (mn.cacheAge env hashes, some (mn.secondsSincePayment env hashes nMnCount, mn.vin))

-- what `CountEnabled` counts
def isCounted : Bool :=
  !(decide ((mn.check env.toCheckEnv false).protocolVersion < env.nMinProtocol) ||
    !(mn.check env.toCheckEnv false).isEnabled)

-- what the first loop asks of a masternode that has just been checked
def isQueued : Bool :=
  mn.isEnabled && !decide (mn.protocolVersion < env.nMinProtocol) &&
    !mn.isScheduled env hashes fFilterSigTime nBlockHeight &&
    !(fFilterSigTime && env.isTooNew nMnCount mn.sigTime env.nAdjustedTime) &&
    !decide (mn.getMasternodeInputAge env hashes < nMnCount)

-- What a masternode that may be paid is, and what the vote store says of it.
structure Eligible : Prop where
  enabled : mn.isEnabled = true
  allowed : env.nMinProtocol ≤ mn.protocolVersion
  unscheduled : env.fLockSchedule fFilterSigTime mn.vin = true →
    ∀ h, hashes.height ≤ h → h ≤ hashes.height + 8 → h ≠ nBlockHeight →
      env.masternodePayments.getBlockPayee h ≠ some (mn.mnpayee env)
  seasoned : fFilterSigTime = true →
    env.isTooNew nMnCount mn.sigTime env.nAdjustedTime = false
  aged : (nMnCount : Int) ≤ mn.getMasternodeInputAge env hashes

variable {mn env hashes nBlockHeight fFilterSigTime nMnCount}

theorem check_vin (checkEnv : CheckEnv) : (mn.check checkEnv false).vin = mn.vin := rfl

theorem cacheAge_eq (mn : MasternodeMembers) (env : QueueEnv) (hashes : HashCache) :
    ∃ nAge nBlock, mn.cacheAge env hashes =
      { mn with cacheInputAge := nAge, cacheInputAgeBlock := nBlock } := by
  rw [cacheAge]
  split_ifs
  · exact ⟨mn.cacheInputAge, mn.cacheInputAgeBlock, rfl⟩
  · exact ⟨_, _, rfl⟩
  · exact ⟨mn.cacheInputAge, mn.cacheInputAgeBlock, rfl⟩

theorem cacheAge_vin : (mn.cacheAge env hashes).vin = mn.vin := by
  obtain ⟨nAge, nBlock, heq⟩ := cacheAge_eq mn env hashes
  rw [heq]

theorem queueTurn_vin :
    (mn.queueTurn env hashes nBlockHeight fFilterSigTime nMnCount).1.vin = mn.vin := by
  simp only [queueTurn]
  split_ifs
  all_goals simp only [cacheAge_vin, check_vin]

theorem check_check (checkEnv : CheckEnv) :
    (mn.check checkEnv false).check checkEnv false = mn.check checkEnv false := by
  have hentry : (mn.check checkEnv false).toEntry.check checkEnv false =
      (mn.check checkEnv false).toEntry := by
    rw [toEntry_check, MasternodeEntry.check_check]
  rw [check, hentry]
  rfl

def Settled (env : QueueEnv) (mn : MasternodeMembers) : Prop := mn.check env.toCheckEnv false = mn

theorem cacheAge_cacheAge :
    (mn.cacheAge env hashes).cacheAge env hashes = mn.cacheAge env hashes := by
  by_cases hempty : hashes.chainActive.isEmpty = true
  · simp [cacheAge, hempty]
  · by_cases hzero : mn.cacheInputAge = 0
    · have hfilled : mn.cacheAge env hashes =
          { mn with
            cacheInputAge := env.getInputAge mn.vin, cacheInputAgeBlock := hashes.height } := by
        simp [cacheAge, hempty, hzero]
      rw [hfilled, cacheAge, if_neg hempty]
      split
      · rfl
      · rfl
    · have hkept : mn.cacheAge env hashes = mn := by simp [cacheAge, hempty, hzero]
      rw [hkept, hkept]

theorem Settled.cacheAge (h : Settled env mn) : Settled env (mn.cacheAge env hashes) := by
  obtain ⟨nAge, nBlock, heq⟩ := cacheAge_eq mn env hashes
  have hentry : mn.toEntry.check env.toCheckEnv false = mn.toEntry := by
    rw [← toEntry_check, h]
  rw [heq, Settled, check]
  simp only [toEntry] at hentry ⊢
  rw [hentry]

theorem isScheduled_cacheAge :
    (mn.cacheAge env hashes).isScheduled env hashes fFilterSigTime nBlockHeight =
      mn.isScheduled env hashes fFilterSigTime nBlockHeight := by
  obtain ⟨nAge, nBlock, heq⟩ := cacheAge_eq mn env hashes
  rw [heq]
  rfl

theorem secondsSincePayment_cacheAge :
    (mn.cacheAge env hashes).secondsSincePayment env hashes nMnCount =
      mn.secondsSincePayment env hashes nMnCount := by
  obtain ⟨nAge, nBlock, heq⟩ := cacheAge_eq mn env hashes
  rw [heq]
  rfl

theorem getMasternodeInputAge_cacheAge :
    (mn.cacheAge env hashes).getMasternodeInputAge env hashes =
      mn.getMasternodeInputAge env hashes := by
  simp only [getMasternodeInputAge, cacheAge_cacheAge]

theorem isQueued_cacheAge :
    (mn.cacheAge env hashes).isQueued env hashes nBlockHeight fFilterSigTime nMnCount =
      mn.isQueued env hashes nBlockHeight fFilterSigTime nMnCount := by
  simp only [isQueued, getMasternodeInputAge_cacheAge, isScheduled_cacheAge]
  obtain ⟨nAge, nBlock, heq⟩ := cacheAge_eq mn env hashes
  rw [heq]
  rfl

theorem isCounted_cacheAge (h : Settled env mn) :
    (mn.cacheAge env hashes).isCounted env = mn.isCounted env := by
  rw [isCounted, isCounted, h.cacheAge, h]
  obtain ⟨nAge, nBlock, heq⟩ := cacheAge_eq mn env hashes
  rw [heq]
  rfl

theorem isCounted_check : (mn.check env.toCheckEnv false).isCounted env = mn.isCounted env := by
  rw [isCounted, isCounted, check_check]

-- A turn changes nothing but the cache of the age.
theorem queueTurn_fst (hashes : HashCache) (nBlockHeight : Int) (fFilterSigTime : Bool)
    (nMnCount : Nat) (h : Settled env mn) :
    (mn.queueTurn env hashes nBlockHeight fFilterSigTime nMnCount).1 = mn ∨
      (mn.queueTurn env hashes nBlockHeight fFilterSigTime nMnCount).1 = mn.cacheAge env hashes := by
  rw [Settled] at h
  simp only [queueTurn, h]
  split_ifs
  · exact .inl rfl
  · exact .inl rfl
  · exact .inl rfl
  · exact .inl rfl
  · exact .inr rfl
  · exact .inr rfl

-- What the cache of the age has no part in is the same after a turn.
theorem queueTurn_keeps {β : Type} {f : MasternodeMembers → β} (h : Settled env mn)
    (hf : f (mn.cacheAge env hashes) = f mn) :
    f (mn.queueTurn env hashes nBlockHeight fFilterSigTime nMnCount).1 = f mn := by
  rcases queueTurn_fst hashes nBlockHeight fFilterSigTime nMnCount h with heq | heq
  · rw [heq]
  · rw [heq, hf]

theorem queueTurn_snd (h : Settled env mn) :
    (mn.queueTurn env hashes nBlockHeight fFilterSigTime nMnCount).2 =
      if mn.isQueued env hashes nBlockHeight fFilterSigTime nMnCount then
        some (mn.secondsSincePayment env hashes nMnCount, mn.vin)
      else none := by
  rw [Settled] at h
  simp only [queueTurn, h, isQueued]
  split_ifs
  all_goals simp_all

theorem isCounted_iff (h : Settled env mn) :
    mn.isCounted env = true ↔ mn.isEnabled = true ∧ env.nMinProtocol ≤ mn.protocolVersion := by
  rw [isCounted, h, Bool.not_eq_true', Bool.or_eq_false_iff, Bool.not_eq_false',
    decide_eq_false_iff_not, Int.not_lt, and_comm]

theorem isScheduled_iff (htip : hashes.chainActive ≠ []) :
    mn.isScheduled env hashes fFilterSigTime nBlockHeight = false ↔
      (env.fLockSchedule fFilterSigTime mn.vin = true →
        ∀ h, hashes.height ≤ h → h ≤ hashes.height + 8 → h ≠ nBlockHeight →
          env.masternodePayments.getBlockPayee h ≠ some (mn.mnpayee env)) := by
  have hempty : hashes.chainActive.isEmpty = false := by simpa using htip
  cases hlock : env.fLockSchedule fFilterSigTime mn.vin with
  | false => simp [isScheduled, hlock]
  | true =>
    simp only [isScheduled, hlock, hempty, Bool.not_true, Bool.or_self, Bool.false_eq_true, if_false,
      List.any_eq_false, List.mem_map, List.mem_range, true_implies]
    constructor
    · intro hnone h hlow hhigh hne hpayee
      refine hnone h ⟨(h - hashes.height).toNat, by omega, by omega⟩ ?_
      simp [hne, hpayee]
    · rintro hnone h ⟨i, hi, rfl⟩ hscheduled
      simp only [Bool.and_eq_true, bne_iff_ne, beq_iff_eq] at hscheduled
      exact hnone _ (by omega) (by omega) hscheduled.1 hscheduled.2

theorem isQueued_iff (htip : hashes.chainActive ≠ []) :
    mn.isQueued env hashes nBlockHeight fFilterSigTime nMnCount = true ↔
      mn.Eligible env hashes nBlockHeight fFilterSigTime nMnCount := by
  simp only [isQueued, Bool.and_eq_true, Bool.not_eq_true', isScheduled_iff htip,
    decide_eq_false_iff_not, Int.not_lt]
  constructor
  · rintro ⟨⟨⟨⟨henabled, hallowed⟩, hunscheduled⟩, hseasoned⟩, haged⟩
    refine ⟨henabled, hallowed, hunscheduled, fun hfilter => ?_, haged⟩
    simpa [hfilter] using hseasoned
  · intro h
    refine ⟨⟨⟨⟨h.enabled, h.allowed⟩, h.unscheduled⟩, ?_⟩, h.aged⟩
    cases hfilter : fFilterSigTime with
    | false => rfl
    | true =>
      rw [Bool.true_and]
      exact h.seasoned hfilter

end MasternodeMembers

-- The masternodes of the manager, no two under one outpoint, and the chain with its hash cache.
structure PaymentQueue where
  vMasternodes : List MasternodeMembers
  hashes : HashCache
  outpoints_nodup : (vMasternodes.map fun mn => mn.vin.prevout).Nodup

structure QueueResult where
  queue : PaymentQueue
  pBestMasternode : Option MasternodeMembers
  nCount : Nat

namespace PaymentQueue

variable (q : PaymentQueue) (env : QueueEnv) (nBlockHeight : Int) (fFilterSigTime : Bool)

def find (vin : CTxIn) : Option MasternodeMembers :=
  q.vMasternodes.find? fun mn => mn.vin.prevout == vin.prevout

def countEnabled : Nat := q.vMasternodes.countP fun mn => mn.isCounted env

def checked : PaymentQueue where
  vMasternodes := q.vMasternodes.map fun mn => mn.check env.toCheckEnv false
  hashes := q.hashes
  outpoints_nodup := by
    rw [List.map_map]
    exact q.outpoints_nodup

-- The first loop. Every `CountEnabled` under it counts what the first one has checked.
def collected : PaymentQueue where
  vMasternodes := q.vMasternodes.map fun mn =>
    (mn.queueTurn env q.hashes nBlockHeight fFilterSigTime (q.countEnabled env)).1
  hashes := q.hashes
  outpoints_nodup := by
    rw [List.map_map]
    simpa only [Function.comp_def, MasternodeMembers.queueTurn_vin] using q.outpoints_nodup

def vecMasternodeLastPaid : List LastPaid :=
  q.vMasternodes.filterMap fun mn =>
    (mn.queueTurn env q.hashes nBlockHeight fFilterSigTime (q.countEnabled env)).2

-- the second loop, with `pBestMasternode` and `nHigh`
def payBest (nTenthNetwork : Nat) : List LastPaid → Nat → Option MasternodeMembers × UInt256 →
    Option MasternodeMembers
  | [], _, best => best.1
  | s :: vec, nCountTenth, best =>
    match q.find s.2 with
    | none => best.1
    | some pmn =>
      let n := pmn.score env q.hashes nBlockHeight
      let best := if best.2 < n then (some pmn, n) else best
      if nTenthNetwork ≤ nCountTenth + 1 then best.1
      else payBest nTenthNetwork vec (nCountTenth + 1) best

-- What follows the first loop. The scores leave the hash of one block in the cache.
def choose (vec : List LastPaid) : QueueResult where
  queue :=
    { q with
      hashes :=
        if vec.isEmpty then q.hashes
        else (q.hashes.getBlockHash (int32Wrap (nBlockHeight - 100))).1 }
  pBestMasternode := q.payBest env nBlockHeight (q.countEnabled env / 10)
    (env.sorter.sortReversed vec) 0 (none, 0)
  nCount := vec.length

-- The call that the relaxation makes does not relax any more.
def getNextUnfiltered : QueueResult :=
  let q := q.checked env
  (q.collected env nBlockHeight false).choose env nBlockHeight
    (q.vecMasternodeLastPaid env nBlockHeight false)

def relaxes : Bool :=
  fFilterSigTime && decide (((q.checked env).vecMasternodeLastPaid env nBlockHeight
    fFilterSigTime).length < q.countEnabled env / 3)

def getNextMasternodeInQueueForPayment : QueueResult :=
  if q.relaxes env nBlockHeight fFilterSigTime then
    ((q.checked env).collected env nBlockHeight fFilterSigTime).getNextUnfiltered env nBlockHeight
  else
    let q := q.checked env
    (q.collected env nBlockHeight fFilterSigTime).choose env nBlockHeight
      (q.vecMasternodeLastPaid env nBlockHeight fFilterSigTime)

-- What an answer of the selection tells, by the chain and the number of enabled masternodes.
structure Chosen (hashes : HashCache) (nEnabled : Nat) (r : QueueResult)
    (eligible top : List MasternodeMembers) : Prop where
  mem_iff : ∀ mn, mn ∈ eligible ↔ mn ∈ r.queue.vMasternodes ∧
    mn.Eligible env hashes nBlockHeight fFilterSigTime nEnabled
  nodup : (eligible.map fun mn => mn.vin.prevout).Nodup
  count : r.nCount = eligible.length
  longest : IsTop (fun mn => mn.secondsSincePayment env hashes nEnabled) (max 1 (nEnabled / 10))
    eligible top
  best : ∀ mn, r.pBestMasternode = some mn → mn ∈ top ∧
    ∀ a ∈ top, a.score env hashes nBlockHeight ≤ mn.score env hashes nBlockHeight
  null : r.pBestMasternode = none → ∀ a ∈ top, a.score env hashes nBlockHeight = 0

variable {q env nBlockHeight fFilterSigTime}

def Settled (q : PaymentQueue) (env : QueueEnv) : Prop :=
  ∀ mn ∈ q.vMasternodes, mn.Settled env

theorem settled_checked (q : PaymentQueue) (env : QueueEnv) : (q.checked env).Settled env := by
  intro mn hmn
  obtain ⟨mn', -, rfl⟩ := List.mem_map.mp hmn
  exact MasternodeMembers.check_check env.toCheckEnv

theorem countEnabled_checked (q : PaymentQueue) (env : QueueEnv) :
    (q.checked env).countEnabled env = q.countEnabled env := by
  simp only [countEnabled, checked, List.countP_map, Function.comp_def,
    MasternodeMembers.isCounted_check]

theorem countEnabled_collected (nBlockHeight : Int) (fFilterSigTime : Bool)
    (hs : q.Settled env) :
    (q.collected env nBlockHeight fFilterSigTime).countEnabled env = q.countEnabled env := by
  rw [countEnabled, collected, List.countP_map]
  apply List.countP_congr
  intro mn hmn
  rw [Function.comp_apply]
  exact Bool.eq_iff_iff.mp (MasternodeMembers.queueTurn_keeps (f := fun mn => mn.isCounted env)
    (hs mn hmn) (MasternodeMembers.isCounted_cacheAge (hs mn hmn)))

-- The vector holds the masternodes that pass, with the times they have waited.
theorem filterMap_turns {α β : Type} {turn : α → α × Option β} {p : α → Bool} {pair : α → β}
    {xs : List α} (hsnd : ∀ a ∈ xs, (turn a).2 = if p a then some (pair a) else none)
    (hp : ∀ a ∈ xs, p (turn a).1 = p a) (hpair : ∀ a ∈ xs, pair (turn a).1 = pair a) :
    xs.filterMap (fun a => (turn a).2) =
      ((xs.map fun a => (turn a).1).filter p).map pair := by
  induction xs with
  | nil => rfl
  | cons a xs ih =>
    rw [List.forall_mem_cons] at hsnd hp hpair
    rw [List.filterMap_cons, hsnd.1, ih hsnd.2 hp.2 hpair.2, List.map_cons, List.filter_cons, hp.1]
    cases p a with
    | true => simp [hpair.1]
    | false => rfl

theorem vecMasternodeLastPaid_eq (nBlockHeight : Int) (fFilterSigTime : Bool)
    (hs : q.Settled env) :
    q.vecMasternodeLastPaid env nBlockHeight fFilterSigTime =
      ((q.collected env nBlockHeight fFilterSigTime).vMasternodes.filter fun mn =>
        mn.isQueued env q.hashes nBlockHeight fFilterSigTime (q.countEnabled env)).map fun mn =>
          (mn.secondsSincePayment env q.hashes (q.countEnabled env), mn.vin) := by
  apply filterMap_turns
  · intro mn hmn
    exact MasternodeMembers.queueTurn_snd (hs mn hmn)
  · intro mn hmn
    exact MasternodeMembers.queueTurn_keeps (f := fun mn =>
      mn.isQueued env q.hashes nBlockHeight fFilterSigTime (q.countEnabled env)) (hs mn hmn)
      MasternodeMembers.isQueued_cacheAge
  · intro mn hmn
    refine MasternodeMembers.queueTurn_keeps (f := fun mn =>
      (mn.secondsSincePayment env q.hashes (q.countEnabled env), mn.vin)) (hs mn hmn) ?_
    rw [MasternodeMembers.secondsSincePayment_cacheAge, MasternodeMembers.cacheAge_vin]

theorem settled_collected (nBlockHeight : Int) (fFilterSigTime : Bool) (hs : q.Settled env) :
    (q.collected env nBlockHeight fFilterSigTime).Settled env := by
  intro mn hmn
  obtain ⟨mn', hmn', rfl⟩ := List.mem_map.mp hmn
  rcases MasternodeMembers.queueTurn_fst q.hashes nBlockHeight fFilterSigTime (q.countEnabled env)
    (hs mn' hmn') with heq | heq
  · rw [heq]
    exact hs mn' hmn'
  · rw [heq]
    exact (hs mn' hmn').cacheAge

theorem find_self {mn : MasternodeMembers} (hmn : mn ∈ q.vMasternodes) :
    q.find mn.vin = some mn := by
  cases hfind : q.find mn.vin with
  | none =>
    have hnot := List.find?_eq_none.mp hfind mn hmn
    simp at hnot
  | some mn' =>
    have hsame : mn'.vin.prevout = mn.vin.prevout := by simpa using List.find?_some hfind
    rw [List.inj_on_of_nodup_map q.outpoints_nodup (List.mem_of_find?_eq_some hfind) hmn hsame]

-- The second loop climbs over the first elements of the vector, and over one at the least.
theorem payBest_eq (env : QueueEnv) (nBlockHeight : Int) (nEnabled nTenthNetwork : Nat)
    {hashes : HashCache} (hhashes : q.hashes = hashes) {mns : List MasternodeMembers}
    (hmns : ∀ mn ∈ mns, mn ∈ q.vMasternodes) (nCountTenth : Nat)
    (best : Option MasternodeMembers × UInt256) :
    q.payBest env nBlockHeight nTenthNetwork
        (mns.map fun mn => (mn.secondsSincePayment env hashes nEnabled, mn.vin)) nCountTenth best =
      ((mns.take (max 1 (nTenthNetwork - nCountTenth))).foldl
        (Best.climb fun mn => ((mn.score env hashes nBlockHeight).toNat : Int))
        (best.1, (best.2.toNat : Int))).1 := by
  induction mns generalizing nCountTenth best with
  | nil => rw [List.map_nil, payBest, List.take_nil, List.foldl_nil]
  | cons mn mns ih =>
    rw [List.forall_mem_cons] at hmns
    have hclimb : Best.climb (fun mn => ((mn.score env hashes nBlockHeight).toNat : Int))
        (best.1, (best.2.toNat : Int)) mn =
        ((if best.2 < mn.score env hashes nBlockHeight then
          (some mn, mn.score env hashes nBlockHeight) else best).1,
        (((if best.2 < mn.score env hashes nBlockHeight then
          (some mn, mn.score env hashes nBlockHeight) else best).2.toNat : Nat) : Int)) := by
      rw [Best.climb]
      simp only [Int.ofNat_lt, ← BitVec.lt_def]
      split_ifs
      · rfl
      · rfl
    rw [List.map_cons, payBest, find_self hmns.1, hhashes]
    dsimp only
    by_cases hlast : nTenthNetwork ≤ nCountTenth + 1
    · have hone : max 1 (nTenthNetwork - nCountTenth) = 1 := by omega
      rw [if_pos hlast, hone, List.take_succ_cons, List.take_zero, List.foldl_cons, List.foldl_nil,
        hclimb]
    · have hmore : max 1 (nTenthNetwork - nCountTenth) =
          max 1 (nTenthNetwork - (nCountTenth + 1)) + 1 := by omega
      rw [if_neg hlast, ih hmns.2, hmore, List.take_succ_cons, List.foldl_cons, hclimb]

theorem isQueued_iff_eligible {mn : MasternodeMembers} (hs : q.Settled env)
    (hmn : mn ∈ q.vMasternodes) :
    mn.isQueued env q.hashes nBlockHeight fFilterSigTime (q.countEnabled env) = true ↔
      mn.Eligible env q.hashes nBlockHeight fFilterSigTime (q.countEnabled env) := by
  by_cases htip : q.hashes.chainActive = []
  · -- No input has an age then, and the masternode itself is counted.
    have hage : mn.getMasternodeInputAge env q.hashes = 0 := by
      simp [MasternodeMembers.getMasternodeInputAge, htip]
    have hpos : mn.isCounted env = true → 0 < q.countEnabled env :=
      fun hcounted => List.countP_pos_iff.mpr ⟨mn, hmn, hcounted⟩
    rw [MasternodeMembers.isCounted_iff (hs mn hmn)] at hpos
    constructor
    · intro hqueued
      simp only [MasternodeMembers.isQueued, hage, Bool.and_eq_true, Bool.not_eq_true',
        decide_eq_false_iff_not, Int.not_lt] at hqueued
      obtain ⟨⟨⟨⟨henabled, hallowed⟩, -⟩, -⟩, haged⟩ := hqueued
      have hcount := hpos ⟨henabled, hallowed⟩
      omega
    · intro heligible
      have hcount := hpos ⟨heligible.enabled, heligible.allowed⟩
      have haged := heligible.aged
      rw [hage] at haged
      omega
  · exact MasternodeMembers.isQueued_iff htip

-- What is paid is the best of the first ones of the masternodes that pass, in their order.
theorem exists_order (nBlockHeight : Int) (fFilterSigTime : Bool) (hs : q.Settled env) : ∃ mns,
    SortsTo (higher fun mn => mn.secondsSincePayment env q.hashes (q.countEnabled env))
      ((q.collected env nBlockHeight fFilterSigTime).vMasternodes.filter fun mn =>
        mn.isQueued env q.hashes nBlockHeight fFilterSigTime (q.countEnabled env)) mns ∧
      ((q.collected env nBlockHeight fFilterSigTime).choose env nBlockHeight
        (q.vecMasternodeLastPaid env nBlockHeight fFilterSigTime)).pBestMasternode =
        (Best.highest (fun mn : MasternodeMembers =>
          ((mn.score env q.hashes nBlockHeight).toNat : Int)) 0
          (mns.take (max 1 (q.countEnabled env / 10)))).1 := by
  have horder : SortsTo (higher Prod.fst) _ _ := env.sorter.sortsTo_reversed
    (q.vecMasternodeLastPaid env nBlockHeight fFilterSigTime)
  have hvec := vecMasternodeLastPaid_eq nBlockHeight fFilterSigTime hs
  rw [hvec] at horder
  obtain ⟨mns, hmap, hsorts⟩ := exists_sortsTo_map horder
  have hin : ∀ mn ∈ mns, mn ∈ (q.collected env nBlockHeight fFilterSigTime).vMasternodes :=
    fun mn hmn => (List.mem_filter.mp (hsorts.perm.subset hmn)).1
  refine ⟨mns, hsorts, ?_⟩
  rw [choose, countEnabled_collected nBlockHeight fFilterSigTime hs, hvec, hmap]
  exact payBest_eq env nBlockHeight (q.countEnabled env) (q.countEnabled env / 10) rfl hin 0 (none, 0)

theorem exists_chosen (hs : q.Settled env) : ∃ eligible top,
    Chosen env nBlockHeight fFilterSigTime q.hashes (q.countEnabled env)
      ((q.collected env nBlockHeight fFilterSigTime).choose env nBlockHeight
        (q.vecMasternodeLastPaid env nBlockHeight fFilterSigTime)) eligible top := by
  obtain ⟨mns, hsorts, hbest⟩ := exists_order nBlockHeight fFilterSigTime hs
  refine ⟨_, mns.take (max 1 (q.countEnabled env / 10)), ?_, ?_, ?_, isTop_take hsorts, ?_, ?_⟩
  · intro mn
    have hsettled := settled_collected nBlockHeight fFilterSigTime hs
    rw [List.mem_filter, ← countEnabled_collected nBlockHeight fFilterSigTime hs]
    exact and_congr_right fun hmn => isQueued_iff_eligible hsettled hmn
  · exact (PaymentQueue.outpoints_nodup _).sublist (List.filter_sublist.map _)
  · rw [choose, vecMasternodeLastPaid_eq nBlockHeight fFilterSigTime hs, List.length_map]
  · intro mn hmn
    rw [hbest] at hmn
    obtain ⟨hmem, hmax⟩ := Best.highest_some hmn
    refine ⟨hmem, fun a ha => ?_⟩
    have hle := hmax a ha
    rw [BitVec.le_def]
    omega
  · intro hnone a ha
    rw [hbest] at hnone
    have hle := Best.highest_none hnone a ha
    have hzero : (0 : UInt256).toNat = 0 := rfl
    apply BitVec.eq_of_toNat_eq
    omega

theorem next_in_queue (q : PaymentQueue) (env : QueueEnv) (nBlockHeight : Int)
    (fFilterSigTime : Bool) :
    ∃ eligible top, Chosen env nBlockHeight
      (fFilterSigTime && !q.relaxes env nBlockHeight fFilterSigTime) q.hashes (q.countEnabled env)
      (q.getNextMasternodeInQueueForPayment env nBlockHeight fFilterSigTime) eligible top := by
  have hcount := countEnabled_checked q env
  have hs := settled_checked q env
  rw [getNextMasternodeInQueueForPayment]
  cases hrelaxes : q.relaxes env nBlockHeight fFilterSigTime with
  | false =>
    rw [Bool.not_false, Bool.and_true, if_neg Bool.false_ne_true, ← hcount]
    exact exists_chosen hs
  | true =>
    rw [Bool.not_true, Bool.and_false, if_pos rfl, getNextUnfiltered, ← hcount,
      ← countEnabled_collected nBlockHeight fFilterSigTime hs, ← countEnabled_checked]
    exact exists_chosen (settled_checked
      ((q.checked env).collected env nBlockHeight fFilterSigTime) env)

def agoSorter : Sorter compareLastPaid where
  sort vec := vec.insertionSort fun a b => a.1 ≤ b.1
  sorts vec := by
    have htrans : IsTrans LastPaid fun a b => a.1 ≤ b.1 := ⟨fun _ _ _ => Int.le_trans⟩
    have htotal : Std.Total fun a b : LastPaid => a.1 ≤ b.1 := ⟨fun a b => Int.le_total a.1 b.1⟩
    refine ⟨List.perm_insertionSort _ vec, ?_⟩
    refine (List.pairwise_insertionSort (fun a b : LastPaid => a.1 ≤ b.1) vec).imp ?_
    intro a b hle
    simpa [compareLastPaid] using hle

def oneQueue : PaymentQueue where
  vMasternodes := [{ vin := ⟨⟨7, 0⟩, [], 0⟩, lastTimeChecked := 1000 }]
  hashes := { chainActive := [2, 1, 0] }
  outpoints_nodup := List.nodup_singleton _

-- The vote store pays the hash 5 at height 3.
def scheduledEnv (fLock : Bool) : QueueEnv where
  nTime := 1000
  nAdjustedTime := 1000
  hash160 _ := [5]
  paymentHash _ _ := 0
  scoreHashes := ⟨fun _ => 1, fun _ _ => 5⟩
  blockTime _ := 0
  getInputAge _ := 50
  isTooNew nMnCount sigTime now := decide (now < sigTime + 156 * nMnCount)
  fLockSchedule _ _ := fLock
  masternodePayments :=
    { mapMasternodeBlocks := fun nHeight =>
        if nHeight = 3 then
          some ⟨3, [⟨getScriptForDestination (.CKeyID [5]), 6⟩]⟩
        else none }
  sorter := agoSorter

-- The tip is at height 2, and who is to be paid at height 3 is chosen: for height 3, and for
-- height 4 when `cs_main` is not free.
theorem next_in_queue_scheduled :
    oneQueue.hashes.height = 2 ∧
      (∃ mn, (oneQueue.getNextMasternodeInQueueForPayment (scheduledEnv true) 3
          true).pBestMasternode = some mn ∧
        (scheduledEnv true).masternodePayments.getBlockPayee 3 =
          some (mn.mnpayee (scheduledEnv true))) ∧
      ∃ mn, (oneQueue.getNextMasternodeInQueueForPayment (scheduledEnv false) 4
          true).pBestMasternode = some mn ∧
        (scheduledEnv false).masternodePayments.getBlockPayee 3 =
          some (mn.mnpayee (scheduledEnv false)) := by
  have hfree : ((oneQueue.getNextMasternodeInQueueForPayment (scheduledEnv true) 3
      true).pBestMasternode.any fun mn =>
        (scheduledEnv true).masternodePayments.getBlockPayee 3 ==
          some (mn.mnpayee (scheduledEnv true))) = true := by
    decide +kernel
  have hheld : ((oneQueue.getNextMasternodeInQueueForPayment (scheduledEnv false) 4
      true).pBestMasternode.any fun mn =>
        (scheduledEnv false).masternodePayments.getBlockPayee 3 ==
          some (mn.mnpayee (scheduledEnv false))) = true := by
    decide +kernel
  simp only [Option.any_eq_true, beq_iff_eq] at hfree hheld
  exact ⟨rfl, hfree, hheld⟩

end PaymentQueue

end AnkerNode
