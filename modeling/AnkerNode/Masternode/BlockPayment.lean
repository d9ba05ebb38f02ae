import AnkerNode.Masternode.Payments

namespace AnkerNode

def MNPAYMENTS_SIGNATURES_REQUIRED : Int := 6

namespace SubsidyEnv

variable (env : SubsidyEnv)

def coldStakingExpiry : Int := 60 * 60 * 24 * 30 * 3

-- The entries are read in the order of the map, each paid before the last one chosen is chosen.
def winningColdStaker : Option UInt256 :=
  (env.mapColdStaking.toList.foldl
    (fun best it =>
      if it.2.payTime < best.2 && it.2.sigTime < coldStakingExpiry + env.nTime then
        (some it.1, it.2.payTime)
      else best)
    (none, env.nTime)).1

-- Without a winner the entry of the null hash is returned, and made when it is missing.
def getWinningColdStaker : Std.TreeMap UInt256 CColdStaking × CColdStaking :=
  match env.winningColdStaker with
  | some winnerHash =>
    let winner := (env.mapColdStaking[winnerHash]?).getD { payTime := env.nTime }
    let winner := { winner with payTime := env.nTime }
    (env.mapColdStaking.insert winnerHash winner, winner)
  | none =>
    let entry := (env.mapColdStaking[(0 : UInt256)]?).getD { payTime := env.nTime }
    (env.mapColdStaking.insert 0 entry, entry)

def subtract (nValue : Int) (out : CTxOut) : CTxOut := { out with nValue := out.nValue - nValue }

def fillCoinStake (vout : List CTxOut) (payee : CScript)
    (masternodePayment coldstakingPayment : Int) : List CTxOut :=
  let i := vout.length
  let vout := vout ++ [⟨masternodePayment, payee⟩]
  let vout := vout.modify (i - 1) (subtract masternodePayment)
  let vout := vout ++ [⟨coldstakingPayment, env.getWinningColdStaker.2.pubKeyCollateralAddress⟩]
  vout.modify (i - 1) (subtract coldstakingPayment)

def fillCoinBase (vout : List CTxOut) (payee : Option CScript) (blockValue masternodePayment : Int) :
    List CTxOut :=
  match payee with
  | none => vout.modify 0 fun out => { out with nValue := blockValue }
  | some payee =>
    (vout.modify 0 fun out => { out with nValue := blockValue - masternodePayment }).take 1 ++
      [⟨masternodePayment, payee⟩]

-- `txNew.vout` after `CMasternodePayments::FillBlockPayee`, at a tip of height `nHeight`
def fillBlockPayee (nHeight : Int) (vout : List CTxOut) (fProofOfStake : Bool)
    (rpayee : Option CScript) : List CTxOut :=
  let payee := rpayee.or (env.getPayee nHeight)
  let paid := if nHeight + 1 ≤ env.nLastPOWBlock then none else payee
  let blockValue := env.getBlockValue nHeight (some (payee.getD []))
  let masternodePayment := env.getMasternodePayment nHeight (some (payee.getD []))
  if fProofOfStake then
    match paid with
    | none => vout
    | some payee =>
      env.fillCoinStake vout payee masternodePayment (getColdstakingPayment nHeight)
  else fillCoinBase vout paid blockValue masternodePayment

def nMaxSignatures (vecPayments : List CMasternodePayee) : Int :=
  vecPayments.foldl
    (fun n payee =>
      if n ≤ payee.nVotes && MNPAYMENTS_SIGNATURES_REQUIRED ≤ payee.nVotes then payee.nVotes else n)
    0

def isPaid (requiredMasternodePayment : Int) (vout : List CTxOut) (payee : CMasternodePayee) : Bool :=
  vout.any fun out =>
    payee.scriptPubKey == out.scriptPubKey && decide (requiredMasternodePayment ≤ out.nValue)

end SubsidyEnv

open SubsidyEnv in
def CMasternodeBlockPayees.isTransactionValid (payees : CMasternodeBlockPayees) (env : SubsidyEnv)
    (vout : List CTxOut) : Bool :=
  let requiredMasternodePayment := env.getMasternodePayment payees.nBlockHeight none
  if nMaxSignatures payees.vecPayments < MNPAYMENTS_SIGNATURES_REQUIRED then true
  else
    payees.vecPayments.any fun payee =>
      decide (MNPAYMENTS_SIGNATURES_REQUIRED ≤ payee.nVotes) &&
        isPaid requiredMasternodePayment vout payee

namespace SubsidyEnv

variable {env : SubsidyEnv} {vout : List CTxOut} {last : CTxOut} {payee : CScript}

def isTransactionValid (env : SubsidyEnv) (vout : List CTxOut) (nBlockHeight : Int) : Bool :=
  match env.masternodePayments.mapMasternodeBlocks nBlockHeight with
  | none => true
  | some payees => payees.isTransactionValid env vout

def coldStakingOutput (env : SubsidyEnv) (nHeight : Int) : CTxOut :=
  ⟨getColdstakingPayment nHeight, env.getWinningColdStaker.2.pubKeyCollateralAddress⟩

theorem modify_length_append (f : CTxOut → CTxOut) (vout rest : List CTxOut) (last : CTxOut) :
    (vout ++ last :: rest).modify vout.length f = vout ++ f last :: rest := by
  induction vout with
  | nil => rfl
  | cons out vout ih => rw [List.cons_append, List.length_cons, List.modify_succ_cons, ih]; rfl

theorem fillCoinStake_append (payee : CScript) (masternodePayment coldstakingPayment : Int) :
    env.fillCoinStake (vout ++ [last]) payee masternodePayment coldstakingPayment =
      vout ++ [subtract coldstakingPayment (subtract masternodePayment last),
        ⟨masternodePayment, payee⟩,
        ⟨coldstakingPayment, env.getWinningColdStaker.2.pubKeyCollateralAddress⟩] := by
  simp only [fillCoinStake, List.length_append, List.length_cons, List.length_nil, Nat.zero_add,
    Nat.add_sub_cancel, List.append_assoc, List.cons_append, List.nil_append,
    modify_length_append]

theorem fillBlockPayee_stake {nHeight : Int} (htip : env.nLastPOWBlock < nHeight + 1)
    {rpayee : Option CScript} (hpayee : rpayee.or (env.getPayee nHeight) = some payee) :
    env.fillBlockPayee nHeight (vout ++ [last]) true rpayee =
      vout ++ [subtract (getColdstakingPayment nHeight)
          (subtract (env.getMasternodePayment nHeight (some payee)) last),
        ⟨env.getMasternodePayment nHeight (some payee), payee⟩, env.coldStakingOutput nHeight] := by
  simp only [fillBlockPayee, hpayee, if_neg (not_le.mpr htip), if_true, Option.getD_some,
    fillCoinStake_append]
  rfl

theorem foldl_maxSignatures (vecPayments : List CMasternodePayee) (n : Int) :
    vecPayments.foldl
        (fun n payee =>
          if n ≤ payee.nVotes && MNPAYMENTS_SIGNATURES_REQUIRED ≤ payee.nVotes then payee.nVotes
          else n) n < MNPAYMENTS_SIGNATURES_REQUIRED ↔
      n < MNPAYMENTS_SIGNATURES_REQUIRED ∧
        ∀ p ∈ vecPayments, p.nVotes < MNPAYMENTS_SIGNATURES_REQUIRED := by
  induction vecPayments generalizing n with
  | nil => simp
  | cons p vecPayments ih =>
    rw [List.foldl_cons, ih, List.forall_mem_cons]
    simp only [Bool.and_eq_true, decide_eq_true_eq]
    split
    · rename_i h
      constructor
      · rintro ⟨hlt, -⟩
        omega
      · rintro ⟨-, hlt, -⟩
        omega
    · rename_i h
      constructor
      · rintro ⟨hn, hall⟩
        exact ⟨hn, by omega, hall⟩
      · rintro ⟨hn, -, hall⟩
        exact ⟨hn, hall⟩

theorem nMaxSignatures_lt_iff (vecPayments : List CMasternodePayee) :
    nMaxSignatures vecPayments < MNPAYMENTS_SIGNATURES_REQUIRED ↔
      ∀ p ∈ vecPayments, p.nVotes < MNPAYMENTS_SIGNATURES_REQUIRED := by
  rw [nMaxSignatures, foldl_maxSignatures]
  simp [MNPAYMENTS_SIGNATURES_REQUIRED]

theorem isPaid_iff {required : Int} {p : CMasternodePayee} :
    isPaid required vout p = true ↔
      ∃ out ∈ vout, p.scriptPubKey = out.scriptPubKey ∧ required ≤ out.nValue := by
  simp [isPaid]

theorem blockPayees_isTransactionValid_iff {payees : CMasternodeBlockPayees} :
    payees.isTransactionValid env vout = true ↔
      ((∃ p ∈ payees.vecPayments, MNPAYMENTS_SIGNATURES_REQUIRED ≤ p.nVotes) →
        ∃ p ∈ payees.vecPayments, MNPAYMENTS_SIGNATURES_REQUIRED ≤ p.nVotes ∧
          isPaid (env.getMasternodePayment payees.nBlockHeight none) vout p = true) := by
  simp only [CMasternodeBlockPayees.isTransactionValid]
  by_cases hmax : nMaxSignatures payees.vecPayments < MNPAYMENTS_SIGNATURES_REQUIRED
  · rw [if_pos hmax]
    rw [nMaxSignatures_lt_iff] at hmax
    refine iff_of_true rfl ?_
    rintro ⟨p, hp, hvotes⟩
    exact absurd (hmax p hp) (by omega)
  · rw [if_neg hmax]
    rw [nMaxSignatures_lt_iff] at hmax
    push Not at hmax
    simp [hmax]

theorem exists_getPayee {payees : CMasternodeBlockPayees}
    (h : ∃ p ∈ payees.vecPayments, MNPAYMENTS_SIGNATURES_REQUIRED ≤ p.nVotes) :
    ∃ p ∈ payees.vecPayments, payees.getPayee = some p.scriptPubKey ∧
      MNPAYMENTS_SIGNATURES_REQUIRED ≤ p.nVotes := by
  obtain ⟨p, hp, hvotes⟩ := h
  have hfloor : -1 < p.nVotes := lt_of_lt_of_le (by decide) hvotes
  obtain ⟨m, hm, heq, hle⟩ := Best.exists_highest hp hfloor
  exact ⟨m, hm, by rw [CMasternodeBlockPayees.getPayee, heq]; rfl, hvotes.trans hle⟩

-- What the staker pays the voted payee, by that masternode's age, covers what the checker demands
-- by the age of the next payee, or another output happens to pay a payee with six votes that much.
def PaymentCovers (env : SubsidyEnv) (nBlockHeight : Int) (vout : List CTxOut) (last : CTxOut) :
    Prop :=
  ∀ payees, env.masternodePayments.mapMasternodeBlocks nBlockHeight = some payees →
    (∃ p ∈ payees.vecPayments, MNPAYMENTS_SIGNATURES_REQUIRED ≤ p.nVotes) →
      env.getMasternodePayment payees.nBlockHeight none ≤
          env.getMasternodePayment (nBlockHeight - 1) payees.getPayee ∨
        ∃ p ∈ payees.vecPayments, MNPAYMENTS_SIGNATURES_REQUIRED ≤ p.nVotes ∧
          isPaid (env.getMasternodePayment payees.nBlockHeight none)
            (vout ++ [subtract (getColdstakingPayment (nBlockHeight - 1))
              (subtract (env.getMasternodePayment (nBlockHeight - 1) payees.getPayee) last),
              env.coldStakingOutput (nBlockHeight - 1)]) p = true

theorem filled_payment_valid_iff (env : SubsidyEnv) (nBlockHeight : Int)
    (htip : env.nLastPOWBlock < nBlockHeight - 1) (vout : List CTxOut) (last : CTxOut) :
    env.isTransactionValid (env.fillBlockPayee (nBlockHeight - 1) (vout ++ [last]) true none)
        nBlockHeight = true ↔
      env.PaymentCovers nBlockHeight vout last := by
  rw [isTransactionValid, PaymentCovers]
  cases hblock : env.masternodePayments.mapMasternodeBlocks nBlockHeight with
  | none => simp
  | some payees =>
    simp only [Option.some.injEq, forall_eq', blockPayees_isTransactionValid_iff]
    refine forall_congr' fun hsix => ?_
    obtain ⟨m, hm, hget, hvotes⟩ := exists_getPayee hsix
    have hpayee : (none : Option CScript).or (env.getPayee (nBlockHeight - 1)) =
        some m.scriptPubKey := by
      simp [getPayee, CMasternodePayments.getBlockPayee, hblock, hget]
    rw [fillBlockPayee_stake (by omega) hpayee, hget]
    simp only [isPaid_iff, List.mem_append, List.mem_cons, List.not_mem_nil, or_false]
    constructor
    · rintro ⟨p, hp, hpvotes, out, hout, hscript, hle⟩
      rcases hout with hout | rfl | rfl | rfl
      · exact .inr ⟨p, hp, hpvotes, out, .inl hout, hscript, hle⟩
      · exact .inr ⟨p, hp, hpvotes, _, .inr (.inl rfl), hscript, hle⟩
      · exact .inl hle
      · exact .inr ⟨p, hp, hpvotes, _, .inr (.inr rfl), hscript, hle⟩
    · rintro (hle | ⟨p, hp, hpvotes, out, hout, hscript, hle⟩)
      · exact ⟨m, hm, hvotes, _, .inr (.inr (.inl rfl)), rfl, hle⟩
      · rcases hout with hout | rfl | rfl
        · exact ⟨p, hp, hpvotes, out, .inl hout, hscript, hle⟩
        · exact ⟨p, hp, hpvotes, _, .inr (.inl rfl), hscript, hle⟩
        · exact ⟨p, hp, hpvotes, _, .inr (.inr (.inr rfl)), hscript, hle⟩

def record (payee : CScript) (sigTime : Int) : MasternodeRecord where
  vin := ⟨⟨7, 0⟩, [], 0xffffffff⟩
  pubKeyMasternode := []
  protocolVersion := 70000
  payee := payee
  sigTime := sigTime

-- A new masternode is voted for the first height and one of fifteen months for the second.
def twoPayees (first second : Int) : SubsidyEnv where
  nTime := 40000000
  vMasternodes := [record [0x51] 40000000, record [0x52] 1000000]
  isEnabled := fun _ => true
  calculateScore := fun _ => 1
  masternodePayments :=
    { mapMasternodeBlocks := fun h =>
        if h = first then some ⟨first, [⟨[0x51], 6⟩]⟩
        else if h = second then some ⟨second, [⟨[0x52], 6⟩]⟩
        else none }

def stakeOutput : CTxOut := ⟨1000 * COIN, [0x53]⟩

theorem filled_payment_valid_second :
    (twoPayees 1001 1002).isTransactionValid
      ((twoPayees 1001 1002).fillBlockPayee (1002 - 1) ([⟨0, []⟩] ++ [stakeOutput]) true none)
      1002 = true := by
  refine (filled_payment_valid_iff (twoPayees 1001 1002) 1002 (by decide) _ _).mpr ?_
  intro payees hblock _
  obtain rfl : ⟨1002, [⟨[0x52], 6⟩]⟩ = payees := Option.some.inj hblock
  exact .inl (by decide +kernel)

theorem filled_payment_rejected :
    (twoPayees 1001 1002).nLastPOWBlock < 1000 ∧
      (twoPayees 1001 1002).getMasternodePayment 1000 (some [0x51]) + getColdstakingPayment 1000 ≤
        stakeOutput.nValue ∧
      (twoPayees 1001 1002).isTransactionValid
        ((twoPayees 1001 1002).fillBlockPayee 1000 ([⟨0, []⟩] ++ [stakeOutput]) true none)
        1001 = false := by
  refine ⟨by decide, by decide +kernel, by decide +kernel⟩

end SubsidyEnv

end AnkerNode
