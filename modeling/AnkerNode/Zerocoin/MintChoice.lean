import AnkerNode.Zerocoin.MintSelection
import Mathlib.Data.List.Perm.Subperm

namespace AnkerNode

open CoinChange CoinDenomination

section Mints

variable {nValueTarget : Int} {listMints : List CMintMeta} {mapOfDenomsHeld used : DenomMap}

def matching (coin : CoinDenomination) (mint : CMintMeta) : Bool :=
  !mint.isUsed && decide (coin = mint.denom)

def unusedOf (listMints : List CMintMeta) (coin : CoinDenomination) : Nat :=
  listMints.countP (matching coin)

theorem takeWhileLeft_of_stop {value r : Int} {goOn : Int → Bool} (n k : Nat)
    (h : goOn r = false) : takeWhileLeft value goOn n (k, r) = (k, r) := by
  cases n with
  | zero => rfl
  | succ n => rw [takeWhileLeft, h, if_neg Bool.false_ne_true]

-- The pass over the mints takes those of the denomination as long as they fit.
theorem idealPass_eq (coin : CoinDenomination) (listMints : List CMintMeta) (k : Nat) (r : Int) :
    idealPass coin listMints (k, r) =
      takeWhileLeft coin.toAmount (fits toAmount coin) (unusedOf listMints coin) (k, r) := by
  induction listMints generalizing k r with
  | nil => rfl
  | cons mint listMints ih =>
    rw [idealPass, unusedOf, List.countP_cons, ← unusedOf]
    by_cases hused : mint.isUsed = true
    · rw [if_pos hused, ih]
      simp [matching, hused]
    · rw [if_neg hused]
      by_cases hdenom : coin = mint.denom
      · have hmatch : matching coin mint = true := by simp [matching, hused, hdenom]
        rw [if_pos hmatch, takeWhileLeft]
        by_cases hfits : coin.toAmount ≤ r
        · have hgo : fits toAmount coin r = true := decide_eq_true hfits
          have htake : coin.toAmount ≤ r ∧ coin = mint.denom := ⟨hfits, hdenom⟩
          rw [if_pos htake, if_pos hgo, ← hdenom]
          dsimp only
          split
          · rename_i hstop
            rw [takeWhileLeft_of_stop _ _ (decide_eq_false (not_le.mpr hstop))]
          · exact ih _ _
        · have hstop : ¬fits toAmount coin r = true := by simpa [fits] using hfits
          have hleave : ¬(coin.toAmount ≤ r ∧ coin = mint.denom) := fun h => hfits h.1
          rw [if_neg hleave, if_neg hstop]
          exact if_pos (not_le.mp hfits)
      · have hmatch : ¬matching coin mint = true := by simp [matching, hdenom]
        have hleave : ¬(coin.toAmount ≤ r ∧ coin = mint.denom) := fun h => hdenom h.2
        rw [if_neg hmatch, Nat.add_zero, if_neg hleave]
        dsimp only
        split
        · rename_i hstop
          rw [takeWhileLeft_of_stop _ _ (decide_eq_false (not_le.mpr hstop))]
        · exact ih _ _

theorem getIdealSpends_eq : getIdealSpends nValueTarget listMints =
    (decide ((takeCoins toAmount (fits toAmount) (unusedOf listMints) zerocoinDenomList.reverse
      (fun _ => 0, nValueTarget)).2 = 0),
      (takeCoins toAmount (fits toAmount) (unusedOf listMints) zerocoinDenomList.reverse
        (fun _ => 0, nValueTarget)).1) := by
  have hfold : ∀ (denoms : List CoinDenomination) (s : DenomMap × Int), denoms.Nodup →
      (∀ x ∈ denoms, s.1 x = 0) →
      denoms.foldl (fun (s : DenomMap × Int) coin =>
        let pass := idealPass coin listMints (s.1 coin, s.2)
        (Function.update s.1 coin pass.1, pass.2)) s =
      takeCoins toAmount (fits toAmount) (unusedOf listMints) denoms s := by
    intro denoms
    induction denoms with
    | nil => exact fun _ _ _ => rfl
    | cons coin denoms ih =>
      intro s hnodup hzero
      rw [List.nodup_cons] at hnodup
      rw [List.forall_mem_cons] at hzero
      rw [List.foldl_cons, takeCoins]
      dsimp only
      rw [ih _ hnodup.2 fun x hx => ?_, idealPass_eq, hzero.1, Nat.sub_zero]
      dsimp only
      rw [Function.update_of_ne (ne_of_mem_of_not_mem hx hnodup.1)]
      exact hzero.2 x hx
  exact congrArg (fun s : DenomMap × Int => (decide (s.2 = 0), s.1))
    (hfold zerocoinDenomList.reverse (fun _ => 0, nValueTarget) denomsDown_chain.nodup
      fun _ _ => rfl)

theorem getIdealSpends_spec (nValueTarget : Int)
    (hheld : ∀ x ∈ denomsDown, mapOfDenomsHeld x = unusedOf listMints x) :
    let ideal := getIdealSpends nValueTarget listMints
    (ideal.1 = true → Within ideal.2 mapOfDenomsHeld ∧ worth ideal.2 = nValueTarget) ∧
      ∀ used, Within used mapOfDenomsHeld → worth used = nValueTarget →
        ideal.1 = true ∧ numberOf ideal.2 ≤ numberOf used := by
  have htaken := takeCoins_denoms (fits toAmount) (unusedOf listMints) nValueTarget
  rw [getIdealSpends_eq]
  dsimp only
  refine ⟨fun hzero => ⟨fun x hx => ?_, ?_⟩, fun used hwithin hworth => ?_⟩
  · rw [hheld x hx]
    exact htaken.le_held x hx
  · rw [worth, htaken.total_eq, of_decide_eq_true hzero, sub_zero]
  · obtain ⟨hrest, hcount⟩ := htaken.fits_exact denomsDown_chain
      (fun x hx => (hwithin x hx).trans (hheld x hx).le) hworth
    exact ⟨decide_eq_true hrest, hcount⟩

-- The first mints of each denomination, as many as are used.
def picked (listMints : List CMintMeta) (used : DenomMap) (denoms : List CoinDenomination) :
    List CMintMeta :=
  denoms.flatMap fun coin => (listMints.filter (matching coin)).take (used coin)

theorem spendPass_eq (coin : CoinDenomination) (listMints vSelectedMints : List CMintMeta)
    (value : Int) (left : Nat) (h : left ≤ unusedOf listMints coin) :
    spendPass coin listMints (vSelectedMints, value, left) =
      (vSelectedMints ++ (listMints.filter (matching coin)).take left,
        value + left * coin.toAmount, 0) := by
  induction listMints generalizing vSelectedMints value left with
  | nil =>
    have hnone : left = 0 := Nat.eq_zero_of_le_zero h
    simp [spendPass, hnone]
  | cons mint listMints ih =>
    rw [unusedOf, List.countP_cons, ← unusedOf] at h
    rw [spendPass]
    by_cases hmatch : matching coin mint = true
    · have hparts := hmatch
      rw [matching, Bool.and_eq_true, Bool.not_eq_true'] at hparts
      rw [if_pos hmatch] at h
      rw [hparts.1, if_neg Bool.false_ne_true, List.filter_cons_of_pos hmatch]
      cases left with
      | zero =>
        rw [if_neg fun hleft => hleft.2 rfl, ih _ _ _ (Nat.zero_le _)]
        simp
      | succ left =>
        rw [if_pos ⟨of_decide_eq_true hparts.2, Nat.succ_ne_zero left⟩, Nat.add_sub_cancel,
          ih _ _ _ (by omega), List.take_succ_cons, List.append_assoc, List.singleton_append]
        simp only [Prod.mk.injEq, and_true, true_and]
        push_cast
        ring
    · rw [if_neg hmatch] at h
      rw [List.filter_cons_of_neg hmatch, ih _ _ _ (by omega)]
      by_cases hused : mint.isUsed = true
      · rw [if_pos hused]
      · have hdenom : coin ≠ mint.denom := fun heq => hmatch (by simp [matching, hused, heq])
        rw [if_neg hused, if_neg fun h => hdenom h.1]

-- One pass selects all the coins of a denomination where that many are held.
theorem getSpends_eq (fuel : Nat) (h : ∀ x ∈ denomsDown, used x ≤ unusedOf listMints x) :
    getSpends (fuel + 1) listMints used = some (picked listMints used denomsDown, worth used) := by
  have hfold : ∀ (denoms : List CoinDenomination) (s : List CMintMeta × Int),
      (∀ x ∈ denoms, used x ≤ unusedOf listMints x) →
      denoms.foldlM (fun (s : List CMintMeta × Int) coin =>
        (WhileLoop.run (spendStep listMints coin) (fuel + 1) (s.1, s.2, used coin)).map fun s =>
          (s.1, s.2.1)) s =
        some (s.1 ++ picked listMints used denoms, s.2 + total toAmount used denoms) := by
    intro denoms
    induction denoms with
    | nil => simp [picked]
    | cons coin denoms ih =>
      intro s hle
      rw [List.forall_mem_cons] at hle
      have hstep : spendStep listMints coin (s.1, s.2, used coin) =
          .inr (s.1 ++ (listMints.filter (matching coin)).take (used coin),
            s.2 + used coin * coin.toAmount, 0) := by
        rw [spendStep, spendPass_eq _ _ _ _ _ hle.1]
        exact if_neg fun h => h rfl
      rw [List.foldlM_cons, WhileLoop.run, hstep]
      dsimp only [Option.map_some, Option.bind_eq_bind, Option.bind_some]
      rw [ih _ hle.2, picked, picked, List.flatMap_cons, total_cons, List.append_assoc,
        Int.add_assoc]
  rw [getSpends, hfold zerocoinDenomList.reverse _ h]
  simp [worth, denomsDown]

def valueOf (mints : List CMintMeta) : Int := (mints.map fun mint => mint.denom.toAmount).sum

theorem denom_of_picked {mint : CMintMeta} {coin : CoinDenomination}
    (h : mint ∈ (listMints.filter (matching coin)).take (used coin)) :
    mint ∈ listMints ∧ coin = mint.denom := by
  have hmem := List.mem_filter.mp (List.mem_of_mem_take h)
  rw [matching, Bool.and_eq_true] at hmem
  exact ⟨hmem.1, of_decide_eq_true hmem.2.2⟩

theorem picked_mem {mint : CMintMeta} {denoms : List CoinDenomination}
    (h : mint ∈ picked listMints used denoms) : mint ∈ listMints := by
  obtain ⟨coin, -, hmem⟩ := List.mem_flatMap.mp h
  exact (denom_of_picked hmem).1

theorem picked_nodup (h : listMints.Nodup) : (picked listMints used denomsDown).Nodup := by
  refine List.nodup_flatMap.mpr ⟨fun coin _ => ?_, ?_⟩
  · exact (h.filter _).sublist (List.take_sublist _ _)
  · refine denomsDown_chain.nodup.imp fun {a b} hne mint ha hb => hne ?_
    rw [(denom_of_picked ha).2, (denom_of_picked hb).2]

theorem picked_spec {denoms : List CoinDenomination}
    (h : ∀ x ∈ denoms, used x ≤ unusedOf listMints x) :
    (picked listMints used denoms).length = count used denoms ∧
      valueOf (picked listMints used denoms) = total toAmount used denoms := by
  induction denoms with
  | nil => exact ⟨rfl, rfl⟩
  | cons coin denoms ih =>
    rw [List.forall_mem_cons] at h
    obtain ⟨hlength, hvalue⟩ := ih h.2
    have hcoins : ((listMints.filter (matching coin)).take (used coin)).length = used coin := by
      rw [List.length_take, ← List.countP_eq_length_filter]
      exact min_eq_left h.1
    have hsame : ((listMints.filter (matching coin)).take (used coin)).map
        (fun mint => mint.denom.toAmount) = List.replicate (used coin) coin.toAmount := by
      refine List.eq_replicate_iff.mpr ⟨by rw [List.length_map, hcoins], ?_⟩
      simp only [List.mem_map]
      rintro _ ⟨mint, hmint, rfl⟩
      rw [(denom_of_picked hmint).2]
    have hcons : picked listMints used (coin :: denoms) =
        (listMints.filter (matching coin)).take (used coin) ++ picked listMints used denoms :=
      List.flatMap_cons
    rw [hcons, List.length_append, hcoins, hlength, count_cons, valueOf, List.map_append,
      List.sum_append, hsame, List.sum_replicate, ← valueOf, hvalue, total_cons, nsmul_eq_mul]
    exact ⟨rfl, rfl⟩

def mintsOf (mints : List CMintMeta) : DenomMap := fun denom =>
  mints.countP fun mint => mint.denom = denom

theorem mintsOf_cons (mint : CMintMeta) (mints : List CMintMeta) : mintsOf (mint :: mints) =
    Function.update (mintsOf mints) mint.denom (mintsOf mints mint.denom + 1) := by
  funext denom
  rw [mintsOf, List.countP_cons]
  rcases eq_or_ne denom mint.denom with rfl | hne
  · simp [mintsOf]
  · rw [Function.update_of_ne hne, if_neg (by simpa using hne.symm)]
    rfl

-- The wallet's distribution counts the mints of each denomination.
theorem getMyZerocoinDistribution_eq {setMints : List CMintMeta}
    (h : getMyZerocoinDistribution setMints = some mapOfDenomsHeld) :
    mapOfDenomsHeld = mintsOf setMints := by
  have hfold : ∀ (mints : List CMintMeta) (spread held : DenomMap),
      mints.foldlM (fun (spread : DenomMap) mint =>
        if mint.denom ∈ zerocoinDenomList then
          some (Function.update spread mint.denom (spread mint.denom + 1))
        else none) spread = some held → ∀ x, held x = spread x + mintsOf mints x := by
    intro mints
    induction mints with
    | nil =>
      intro spread held h x
      cases h
      rfl
    | cons mint mints ih =>
      intro spread held h x
      rw [List.foldlM_cons] at h
      split at h
      · rw [ih _ _ h x, mintsOf_cons]
        rcases eq_or_ne x mint.denom with rfl | hne
        · rw [Function.update_self, Function.update_self]
          omega
        · rw [Function.update_of_ne hne, Function.update_of_ne hne]
      · cases h
  funext x
  rw [hfold setMints _ _ h x, Nat.zero_add]

theorem mintsOf_spec (mints : List CMintMeta) :
    worth (mintsOf mints) = valueOf mints ∧ numberOf (mintsOf mints) ≤ mints.length := by
  induction mints with
  | nil => exact ⟨total_of_zero fun _ _ => rfl, by decide⟩
  | cons mint mints ih =>
    rw [mintsOf_cons, List.length_cons, valueOf, List.map_cons, List.sum_cons, ← valueOf]
    by_cases hdenom : mint.denom ∈ denomsDown
    · constructor
      · rw [worth, total_update denomsDown_chain.nodup hdenom, ← worth, ih.1]
        push_cast
        ring
      · rw [numberOf, count_update denomsDown_chain.nodup hdenom, ← numberOf]
        omega
    · have herror : mint.denom = ZQ_ERROR := not_not.mp (mt mem_denomsDown.mpr hdenom)
      constructor
      · rw [worth, total_update_of_notMem hdenom, ← worth, ih.1, herror]
        exact (zero_add _).symm
      · rw [numberOf, count_congr fun x hx => Function.update_of_ne
          (ne_of_mem_of_not_mem hx hdenom) _ _, ← numberOf]
        omega

end Mints

section Selection

variable {nValueTarget nSelectedValue : Int} {nMaxNumberOfSpends nNeededSpends : Nat}
  {fMinimizeChange : Bool} {listMints : List CMintMeta} {mapOfDenomsHeld used : DenomMap}

structure SoundSelection (nValueTarget : Int) (listMints : List CMintMeta) (s : MintSelection) :
    Prop where
  nodup : s.vSelectedMints.Nodup
  listed : ∀ mint ∈ s.vSelectedMints, mint ∈ listMints
  value_eq : s.nSelectedValue = valueOf s.vSelectedMints
  reaches : nValueTarget ≤ s.nSelectedValue
  change_eq : s.nCoinsReturned = getNumberOfCoinsUsed (getChange (s.nSelectedValue - nValueTarget))

theorem picked_sound (hnodup : listMints.Nodup)
    (hheld : ∀ x ∈ denomsDown, mapOfDenomsHeld x = unusedOf listMints x) {c : Nat}
    (h : Pays nValueTarget mapOfDenomsHeld (c, used)) (hreach : nValueTarget ≤ worth used) :
    SoundSelection nValueTarget listMints
      ⟨picked listMints used denomsDown, worth used, c, nNeededSpends⟩ where
  nodup := picked_nodup hnodup
  listed := fun _ hmint => picked_mem hmint
  value_eq := (picked_spec fun x hx => (h.within x hx).trans (hheld x hx).le).2.symm
  reaches := hreach
  change_eq := h.change_eq

theorem picked_few (hT : 0 < nValueTarget)
    (hused : ∀ x ∈ denomsDown, used x ≤ unusedOf listMints x) (hreach : nValueTarget ≤ worth used)
    (hfew : numberOf used ≤ nMaxNumberOfSpends) :
    picked listMints used denomsDown ≠ [] ∧
      (picked listMints used denomsDown).length ≤ nMaxNumberOfSpends := by
  have hlength := (picked_spec hused).1
  have hsome := worth_pos_numberOf (hT.trans_le hreach)
  rw [numberOf] at hsome hfew
  exact ⟨List.ne_nil_of_length_pos (by omega), by omega⟩

theorem selectWithChange_spec (nSelectedValue : Int) (nMaxNumberOfSpends : Nat)
    (fMinimizeChange : Bool) (nNeededSpends : Nat) (hnodup : listMints.Nodup)
    (hheld : ∀ x ∈ denomsDown, mapOfDenomsHeld x = unusedOf listMints x) (hT : 0 < nValueTarget)
    (hcoin : COIN ∣ nValueTarget) :
    ∃ s, (∀ fuel, selectWithChange (fuel + 1) nValueTarget nSelectedValue nMaxNumberOfSpends
        fMinimizeChange listMints mapOfDenomsHeld nNeededSpends = some s) ∧
      (s.vSelectedMints ≠ [] → SoundSelection nValueTarget listMints s) ∧
      (Settles nMaxNumberOfSpends nValueTarget mapOfDenomsHeld
          (calculateChange nMaxNumberOfSpends fMinimizeChange nValueTarget mapOfDenomsHeld) →
        s.vSelectedMints ≠ [] ∧ s.vSelectedMints.length ≤ nMaxNumberOfSpends) := by
  have hpays := calculateChange_pays nMaxNumberOfSpends fMinimizeChange mapOfDenomsHeld hT
  rcases hchange : calculateChange nMaxNumberOfSpends fMinimizeChange nValueTarget
    mapOfDenomsHeld with ⟨nCoinsReturned, used⟩
  rw [hchange] at hpays
  by_cases hzero : nCoinsReturned = 0
  · refine ⟨⟨[], nSelectedValue, nCoinsReturned, nNeededSpends⟩, fun fuel => ?_,
      fun hne => absurd rfl hne, fun hsettles => absurd hzero (hsettles.change_ne_zero hcoin)⟩
    rw [selectWithChange, hchange]
    exact if_pos hzero
  · have hused : ∀ x ∈ denomsDown, used x ≤ unusedOf listMints x := fun x hx =>
      (hpays.within x hx).trans (hheld x hx).le
    have hover := (hpays.lt_worth_of_change hzero).le
    refine ⟨⟨picked listMints used denomsDown, worth used, nCoinsReturned, nNeededSpends⟩,
      fun fuel => ?_, fun _ => picked_sound hnodup hheld hpays hover,
      fun hsettles => picked_few hT hused hover hsettles.few⟩
    rw [selectWithChange, hchange]
    dsimp only
    rw [if_neg hzero, getSpends_eq fuel hused]
    rfl

theorem unusedOf_of_held (hunused : ∀ mint ∈ listMints, mint.isUsed = false)
    (hheld : ∀ denom ∈ zerocoinDenomList, mapOfDenomsHeld denom = mintsOf listMints denom) :
    ∀ x ∈ denomsDown, mapOfDenomsHeld x = unusedOf listMints x := by
  intro x hx
  rw [hheld x (mem_zerocoinDenomList.mpr hx)]
  refine List.countP_congr fun mint hmint => ?_
  simp [matching, hunused mint hmint, eq_comm]

-- Mints that reach the target within the limit are coins that do.
theorem settles_of_mints
    (hheld : ∀ denom ∈ zerocoinDenomList, mapOfDenomsHeld denom = mintsOf listMints denom)
    (hT : 0 < nValueTarget) (hmax : 1 ≤ nMaxNumberOfSpends)
    (hopen : NoExact nMaxNumberOfSpends nValueTarget mapOfDenomsHeld) {mints : List CMintMeta}
    (hmints : mints.Nodup) (hmem : ∀ mint ∈ mints, mint ∈ listMints)
    (hfew : mints.length ≤ nMaxNumberOfSpends) (hreach : nValueTarget ≤ valueOf mints) :
    Settles nMaxNumberOfSpends nValueTarget mapOfDenomsHeld
      (calculateChange nMaxNumberOfSpends fMinimizeChange nValueTarget mapOfDenomsHeld) := by
  obtain ⟨hworth, hnumber⟩ := mintsOf_spec mints
  have hwithin : Within (mintsOf mints) mapOfDenomsHeld := fun x hx => by
    rw [hheld x (mem_zerocoinDenomList.mpr hx)]
    exact (List.subperm_of_subset hmints hmem).countP_le _
  exact calculateChange_settles hT hmax hopen hwithin (hworth ▸ hreach) (hnumber.trans hfew)

-- One pass of each loop ends the selection. What is selected is sound, and where some mints
-- reach the target within the limit, the selection finds such.
theorem selectMintsFromList_sound_complete (nSelectedValue : Int) (fMinimizeChange : Bool)
    (hnodup : listMints.Nodup)
    (hunused : ∀ mint ∈ listMints, mint.isUsed = false)
    (hheld : ∀ denom ∈ zerocoinDenomList, mapOfDenomsHeld denom = mintsOf listMints denom)
    (hT : 0 < nValueTarget) (hcoin : COIN ∣ nValueTarget) (hmax : 1 ≤ nMaxNumberOfSpends) :
    ∃ s, (∀ fuel, selectMintsFromList (fuel + 1) nValueTarget nSelectedValue nMaxNumberOfSpends
        fMinimizeChange listMints mapOfDenomsHeld = some s) ∧
      (s.vSelectedMints ≠ [] → SoundSelection nValueTarget listMints s) ∧
      ((∃ mints : List CMintMeta, mints.Nodup ∧ (∀ mint ∈ mints, mint ∈ listMints) ∧
          mints.length ≤ nMaxNumberOfSpends ∧ nValueTarget ≤ valueOf mints) →
        s.vSelectedMints ≠ [] ∧ s.vSelectedMints.length ≤ nMaxNumberOfSpends) := by
  have hunusedOf := unusedOf_of_held hunused hheld
  have hsettles : NoExact nMaxNumberOfSpends nValueTarget mapOfDenomsHeld →
      (∃ mints : List CMintMeta, mints.Nodup ∧ (∀ mint ∈ mints, mint ∈ listMints) ∧
        mints.length ≤ nMaxNumberOfSpends ∧ nValueTarget ≤ valueOf mints) →
      Settles nMaxNumberOfSpends nValueTarget mapOfDenomsHeld
        (calculateChange nMaxNumberOfSpends fMinimizeChange nValueTarget mapOfDenomsHeld) := by
    rintro hopen ⟨mints, hmints, hmem, hfew, hreach⟩
    exact settles_of_mints hheld hT hmax hopen hmints hmem hfew hreach
  obtain ⟨hexact, hbest⟩ := getIdealSpends_spec nValueTarget hunusedOf
  rcases hideal : getIdealSpends nValueTarget listMints with ⟨fCanMeetExactly, used⟩
  rw [hideal] at hexact hbest
  dsimp only at hexact hbest
  cases fCanMeetExactly with
  | false =>
    have hopen : NoExact nMaxNumberOfSpends nValueTarget mapOfDenomsHeld :=
      fun other hwithin hworth => absurd (hbest other hwithin hworth).1 Bool.false_ne_true
    obtain ⟨s, hrun, hsound, hcomplete⟩ := selectWithChange_spec nSelectedValue
      nMaxNumberOfSpends fMinimizeChange 0 hnodup hunusedOf hT hcoin
    refine ⟨s, fun fuel => ?_, hsound, fun hsome => hcomplete (hsettles hopen hsome)⟩
    rw [selectMintsFromList, hideal]
    exact (if_neg Bool.false_ne_true).trans (hrun fuel)
  | true =>
    obtain ⟨hwithin, hworth⟩ := hexact rfl
    have hused : ∀ x ∈ denomsDown, used x ≤ unusedOf listMints x := fun x hx =>
      (hwithin x hx).trans (hunusedOf x hx).le
    have hlength := (picked_spec hused).1
    by_cases hfew : numberOf used ≤ nMaxNumberOfSpends
    · have hpays : Pays nValueTarget mapOfDenomsHeld (0, used) :=
        ⟨hwithin, (changeCount_of_nonpos (by rw [hworth, sub_self])).symm⟩
      refine ⟨⟨picked listMints used denomsDown, worth used, 0, 0⟩, fun fuel => ?_,
        fun _ => picked_sound hnodup hunusedOf hpays hworth.ge,
        fun _ => picked_few hT hused hworth.ge hfew⟩
      rw [selectMintsFromList, hideal]
      dsimp only
      rw [if_pos rfl, getSpends_eq fuel hused]
      exact if_pos (hlength.le.trans hfew)
    · have hopen : NoExact nMaxNumberOfSpends nValueTarget mapOfDenomsHeld :=
        fun other hother heq => (not_le.mp hfew).trans_le (hbest other hother heq).2
      obtain ⟨s, hrun, hsound, hcomplete⟩ := selectWithChange_spec (worth used)
        nMaxNumberOfSpends fMinimizeChange (picked listMints used denomsDown).length hnodup
        hunusedOf hT hcoin
      refine ⟨s, fun fuel => ?_, hsound, fun hsome => hcomplete (hsettles hopen hsome)⟩
      rw [selectMintsFromList, hideal]
      dsimp only
      rw [if_pos rfl, getSpends_eq fuel hused]
      exact (if_neg (by dsimp only; rw [hlength]; exact hfew)).trans (hrun fuel)

end Selection

-- 12 out of four mints, of which the fifty alone would do.
theorem selectMintsFromList_sound_complete_twelve :
    let listMints : List CMintMeta := [⟨1, 1, ZQ_TEN, false⟩, ⟨2, 2, ZQ_FIVE, false⟩,
      ⟨3, 3, ZQ_TEN, false⟩, ⟨4, 4, ZQ_FIFTY, false⟩]
    ∃ s, (∀ fuel, selectMintsFromList (fuel + 1) (12 * COIN) 0 3 true listMints
        (mintsOf listMints) = some s) ∧
      s.vSelectedMints ≠ [] ∧ s.vSelectedMints.length ≤ 3 ∧
        SoundSelection (12 * COIN) listMints s := by
  intro listMints
  obtain ⟨s, hrun, hsound, hcomplete⟩ := @selectMintsFromList_sound_complete (12 * COIN) 3
    listMints (mintsOf listMints) 0 true (by decide) (by decide) (fun _ _ => rfl) (by decide)
    (dvd_mul_left _ _) (by decide)
  obtain ⟨hne, hfew⟩ := hcomplete ⟨[⟨4, 4, ZQ_FIFTY, false⟩], by decide, by decide, by decide,
    by decide⟩
  exact ⟨s, hrun, hne, hfew, hsound hne⟩

end AnkerNode
