import AnkerNode.Net.AddrManSteps

namespace AnkerNode

namespace CAddrMan

variable {ctx : AddrManContext} {nKey : UInt256} {loose loose' : Nat → Prop} {dNew dTried : Int}
  {s s' : CAddrMan} {nId : Nat} {info info' : CAddrInfo}

theorem Consistent.count (h : Consistent ctx nKey loose dNew dTried s) (n : Int) :
    Consistent ctx nKey loose (dNew + n) dTried (s.countNew n) := by
  refine ⟨⟨h.key, h.slotted, ?_, h.countTried⟩, h.listed.congr rfl rfl rfl rfl⟩
  have hcount := h.toBooked.countNew
  change s.nNew + n = TreeTotal.total isNew s.mapInfo + (dNew + n)
  omega

theorem create_entries (s : CAddrMan) (addr : CAddress) (source : CNetAddr) :
    (s.create addr source).1.entries = Function.update s.entries s.nIdCount
      (some { CAddrInfo.ofAddress addr source with nRandomPos := s.vRandom.length }) :=
  entries_insert s.mapInfo s.nIdCount _

theorem Listed.create (h : s.Listed) {addr : CAddress} (source : CNetAddr)
    (haddr : s.mapAddr addr.ip = none) : (s.create addr source).1.Listed := by
  have hid : s.entries s.nIdCount = none := by
    cases hid : s.entries s.nIdCount with
    | none => rfl
    | some info => exact absurd (h.fresh s.nIdCount info hid) (lt_irrefl _)
  refine ⟨fun ip i => ?_, ?_, fun i z hz => ?_⟩
  · have hold := h.addr ip i
    have hip : (CAddrInfo.ofAddress addr source).ip = addr.ip := rfl
    rw [create_entries]
    change Function.update s.mapAddr addr.ip (some s.nIdCount) ip = some i ↔ _
    grind [Function.update_apply]
  · have hnone : (s.entries s.nIdCount).map CAddrInfo.nRandomPos = none := by
      rw [hid, Option.map_none]
    have hfun : (fun i => ((s.create addr source).1.entries i).map CAddrInfo.nRandomPos) =
        Function.update (fun i => (s.entries i).map CAddrInfo.nRandomPos) s.nIdCount
          (some (s.vRandom.length : Int)) := by
      funext i
      rw [create_entries]
      grind [Function.update_apply]
    rw [hfun]
    exact h.random.push hnone
  · have hold := h.fresh i
    rw [create_entries] at hz
    change i < s.nIdCount + 1
    grind [Function.update_apply]

-- The counters have not heard of the new entry yet.
theorem Consistent.create (h : Consistent ctx nKey loose dNew dTried s) {addr : CAddress}
    (source : CNetAddr) (haddr : s.mapAddr addr.ip = none) :
    Consistent ctx nKey (fun j => j = s.nIdCount ∨ loose j) (dNew - 1) dTried
      (s.create addr source).1 := by
  have hid : s.entries s.nIdCount = none := by
    cases hid : s.entries s.nIdCount with
    | none => rfl
    | some info => exact absurd (h.listed.fresh s.nIdCount info hid) (lt_irrefl _)
  have hnew := h.toBooked.countNew
  have htried := h.toBooked.countTried
  refine ⟨⟨h.key, ?_, ?_, ?_⟩, h.listed.create source haddr⟩
  · rw [create_entries]
    exact h.slotted.create hid rfl rfl (Int64.le_refl 0) (Int64.le_refl 0)
  · change s.nNew = TreeTotal.total isNew (s.mapInfo.insert s.nIdCount _) + (dNew - 1)
    rw [TreeTotal.total_insert hid, hnew]
    simp only [isNew, CAddrInfo.ofAddress, Bool.false_eq_true, if_false]
    omega
  · change s.nTried = TreeTotal.total isTried (s.mapInfo.insert s.nIdCount _) + dTried
    rw [TreeTotal.total_insert hid, htried]
    simp only [isTried, CAddrInfo.ofAddress, Bool.false_eq_true, if_false, Nat.zero_add]

-- An entry goes into a slot that was not its own.
theorem Consistent.slotNew (h : Consistent ctx nKey loose dNew dTried s) {slot : Nat × Nat}
    (hslot : s.vvNew slot = none) (hid : s.entries nId = some info) (hnew : info.fInTried = false)
    (hbucket : slot.1 < ADDRMAN_NEW_BUCKET_COUNT) (heq : slot = ctx.newSlot nKey info slot.1)
    (hroom : info.nRefCount < ADDRMAN_NEW_BUCKETS_PER_ADDRESS) :
    Consistent ctx nKey (fun j => loose j ∧ j ≠ nId) dNew dTried
      ((s.setInfo nId { info with nRefCount := info.nRefCount + 1 }).setNew slot (some nId)) := by
  have hcounts := h.counts hid { info with nRefCount := info.nRefCount + 1 }
  simp only [isNew, isTried, Int.add_sub_cancel] at hcounts
  refine ⟨⟨h.key, ?_, hcounts.1, hcounts.2⟩, ?_⟩
  · rw [entries_setNew, entries_setInfo]
    exact h.slotted.slotNew hslot hid hnew hbucket heq hroom ⟨rfl, rfl, rfl⟩ rfl rfl
  · have hlisted : (s.setInfo nId { info with nRefCount := info.nRefCount + 1 }).Listed :=
      h.listed.setInfo hid rfl rfl
    exact hlisted.congr rfl rfl rfl rfl

theorem exists_ite {α : Type} {c : Prop} [Decidable c] {a b : Option α} {P : α → Prop}
    (ha : ∃ r, a = some r ∧ P r) (hb : ¬c → ∃ r, b = some r ∧ P r) :
    ∃ r, (if c then a else b) = some r ∧ P r := by
  split
  · exact ha
  · rename_i hc
    exact hb hc

theorem Consistent.insertNew_spec (h : Consistent ctx nKey loose dNew dTried s)
    (hloose : ∀ j, loose j → j = nId) (hid : s.entries nId = some info)
    (hnew : info.fInTried = false) (hroom : info.nRefCount < ADDRMAN_NEW_BUCKETS_PER_ADDRESS)
    (source : CNetAddr) (nNow : Int) :
    ∃ s', s.insertNew ctx nId source nNow = some s' ∧
      Consistent ctx nKey (fun _ => False) dNew dTried s' := by
  have hbucket := getNewBucket_lt ctx nKey info source
  have hkey := h.key
  rw [insertNew, entry_eq hid, hkey]
  dsimp only
  generalize hslot : ctx.newSlot nKey info (ctx.getNewBucket nKey info source) = slot
  have heq : slot = ctx.newSlot nKey info slot.1 := by
    rw [← hslot]
    rfl
  have hlt : slot.1 < ADDRMAN_NEW_BUCKET_COUNT := by
    rw [← hslot]
    exact hbucket
  by_cases hin : s.vvNew slot = some nId
  · rw [if_pos hin]
    refine ⟨s, rfl, h.mono fun j x hx _ hj => Or.inr ?_⟩
    obtain rfl := hloose j hj
    exact Int.ne_of_gt (h.slotted.refCount_pos hin hx)
  · rw [if_neg hin]
    refine exists_ite ?_ fun _ => ?_
    · obtain ⟨s₁, hclear, h₁, hvvNew, hkept⟩ := h.clearNew_spec slot
      obtain ⟨q, hid₁⟩ := (hkept.entries nId hin).some hid
      have hslot₁ : s₁.vvNew slot = none := by rw [hvvNew, Function.update_self]
      have h₂ := h₁.slotNew hslot₁ hid₁ hnew hlt heq hroom
      refine ⟨_, ?_, h₂.mono fun j x _ _ hj => absurd (hloose j hj.1) hj.2⟩
      rw [hclear]
      simp only [Option.bind_eq_bind, Option.bind_some, entry_eq hid₁]
    · by_cases hzero : info.nRefCount = 0
      · obtain ⟨s₁, hdelete, h₁, -, -⟩ := h.delete_spec hid hnew hzero
        rw [if_pos hzero]
        exact ⟨s₁, hdelete, h₁.mono fun j x _ _ hj => absurd (hloose j hj.1) hj.2⟩
      · rw [if_neg hzero]
        refine ⟨s, rfl, h.mono fun j x hx _ hj => Or.inr ?_⟩
        obtain rfl := hloose j hj
        rw [hid, Option.some.injEq] at hx
        subst hx
        exact hzero

-- what holds between two operations
def Sound (ctx : AddrManContext) (nKey : UInt256) (s : CAddrMan) : Prop :=
  Consistent ctx nKey (fun _ => False) 0 0 s

theorem refreshTime_eq (info : CAddrInfo) (addr : CAddress) (nTimePenalty nNow : Int) :
    ∃ nTime, refreshTime info addr nTimePenalty nNow = { info with nTime := nTime } := by
  rw [refreshTime]
  generalize (if nNow - (addr.nTime.toNat : Int) < 24 * 60 * 60 then (60 * 60 : Int)
    else 24 * 60 * 60) = nUpdateInterval
  split
  · exact ⟨_, rfl⟩
  · exact ⟨info.nTime, rfl⟩

theorem Sound.touch (h : Sound ctx nKey s) (hid : s.entries nId = some info)
    (hservice : info'.toNetService = info.toNetService) (htried : info'.fInTried = info.fInTried)
    (href : info'.nRefCount = info.nRefCount) (hpos : info'.nRandomPos = info.nRandomPos)
    (htry : 0 ≤ info'.nLastTry) (hsuccess : info'.nLastSuccess = info.nLastSuccess) :
    Sound ctx nKey (s.setInfo nId info') := by
  refine Consistent.touch h hid hservice htried href hpos htry ?_ ?_
  · rw [hsuccess]
    exact (h.slotted.times nId info hid).2
  · rw [hsuccess]
    exact id

theorem Sound.add_spec (h : Sound ctx nKey s) (addr : CAddress) (source : CNetAddr)
    (nTimePenalty nNow : Int) (nRand : Nat) :
    ∃ r, s.add ctx addr source nTimePenalty nNow nRand = some r ∧ Sound ctx nKey r.1 := by
  rw [add]
  refine exists_ite ⟨(s, false), rfl, h⟩ fun _ => ?_
  cases hfind : s.find addr.ip with
  | some found =>
    obtain ⟨nId, info⟩ := found
    obtain ⟨hid, -⟩ := (find_eq_some_iff h.listed).mp hfind
    obtain ⟨nTime, hrefresh⟩ := refreshTime_eq info addr nTimePenalty nNow
    have htimes := h.slotted.times nId info hid
    dsimp only
    rw [hrefresh]
    have h₁ : Sound ctx nKey (s.setInfo nId
        { info with nTime := nTime, nServices := info.nServices ||| addr.nServices }) :=
      h.touch hid rfl rfl rfl rfl htimes.1 rfl
    refine exists_ite ⟨_, rfl, h₁⟩ fun _ => exists_ite ⟨_, rfl, h₁⟩ fun htried => ?_
    refine exists_ite ⟨_, rfl, h₁⟩ fun hfull => exists_ite ⟨_, rfl, h₁⟩ fun _ => ?_
    have hid₁ : (s.setInfo nId { info with
        nTime := nTime, nServices := info.nServices ||| addr.nServices }).entries nId =
        some { info with nTime := nTime, nServices := info.nServices ||| addr.nServices } := by
      rw [entries_setInfo, Function.update_self]
    have hnew : info.fInTried = false := by simpa using htried
    have hroom : info.nRefCount < ADDRMAN_NEW_BUCKETS_PER_ADDRESS :=
      lt_of_le_of_ne (h.slotted.new nId info hid hnew).2.1 hfull
    obtain ⟨s', hs', h'⟩ :=
      Consistent.insertNew_spec h₁ (fun _ hj => hj.elim) hid₁ hnew hroom source nNow
    exact ⟨(s', false), by rw [hs']; rfl, h'⟩
  | none =>
    have hcreate := Consistent.create h source (mapAddr_of_find_eq_none h.listed hfind)
    have hid : (s.create addr source).1.entries s.nIdCount =
        some { CAddrInfo.ofAddress addr source with nRandomPos := s.vRandom.length } := by
      rw [create_entries, Function.update_self]
    change ∃ r, (((((s.create addr source).1.setInfo s.nIdCount
      { (s.create addr source).1.entry s.nIdCount with nTime := UInt32.ofInt (max 0
        (((s.create addr source).1.entry s.nIdCount).nTime.toNat - nTimePenalty)) }).countNew
      1).insertNew ctx s.nIdCount source nNow).map fun s => (s, true)) = some r ∧ _
    rw [entry_eq hid]
    generalize UInt32.ofInt _ = nTime
    generalize hinfo : { CAddrInfo.ofAddress addr source with
      nRandomPos := (s.vRandom.length : Int) } = info at hid ⊢
    have hfresh : info.fInTried = false ∧ info.nRefCount = 0 := by
      rw [← hinfo]
      exact ⟨rfl, rfl⟩
    have htimes := hcreate.slotted.times s.nIdCount info hid
    have htouch : Consistent ctx nKey (fun j => j = s.nIdCount ∨ False) (0 - 1) 0
        ((s.create addr source).1.setInfo s.nIdCount { info with nTime := nTime }) :=
      hcreate.touch hid rfl rfl rfl rfl htimes.1 htimes.2 id
    have h₁ := htouch.count 1
    have hid₁ : (((s.create addr source).1.setInfo s.nIdCount
        { info with nTime := nTime }).countNew 1).entries s.nIdCount =
        some { info with nTime := nTime } := by
      rw [entries_countNew, entries_setInfo, Function.update_self]
    have hroom : info.nRefCount < ADDRMAN_NEW_BUCKETS_PER_ADDRESS := by
      rw [hfresh.2]
      decide
    obtain ⟨s', hs', h'⟩ := h₁.insertNew_spec (fun j hj => hj.resolve_right id) hid₁ hfresh.1 hroom
      source nNow
    exact ⟨(s', true), by rw [hs']; rfl, h'⟩

theorem Consistent.untry (h : Consistent ctx nKey loose dNew dTried s) {slot : Nat × Nat}
    (hslot : s.vvTried slot = some nId) (hid : s.entries nId = some info) :
    Consistent ctx nKey (fun j => j = nId ∨ loose j) (dNew - 1) dTried
      (((s.setInfo nId { info with fInTried := false }).setTried slot none).countTried (-1)) := by
  obtain ⟨info', hid', htried, -⟩ := h.slotted.tried_slot slot nId hslot
  rw [hid, Option.some.injEq] at hid'
  subst hid'
  have hcounts := h.counts hid { info with fInTried := false }
  simp only [isNew, isTried, htried, if_true, Bool.false_eq_true, if_false] at hcounts
  refine ⟨⟨h.key, ?_, ?_, ?_⟩, ?_⟩
  · rw [entries_countTried, entries_setTried, entries_setInfo]
    exact h.slotted.untry hslot hid ⟨rfl, rfl, rfl⟩ rfl rfl
  · change s.nNew = TreeTotal.total isNew (s.setInfo nId { info with fInTried := false }).mapInfo +
      (dNew - 1)
    omega
  · change s.nTried + -1 =
      TreeTotal.total isTried (s.setInfo nId { info with fInTried := false }).mapInfo + dTried
    omega
  · have hlisted : (s.setInfo nId { info with fInTried := false }).Listed :=
      h.listed.setInfo hid rfl rfl
    exact hlisted.congr rfl rfl rfl rfl

theorem Consistent.tryAt (h : Consistent ctx nKey loose dNew dTried s)
    (hid : s.entries nId = some info) (hnew : info.fInTried = false) (hzero : info.nRefCount = 0)
    (hgood : info.nLastSuccess ≠ 0) (hslot : s.vvTried (ctx.triedSlot nKey info) = none) :
    Consistent ctx nKey (fun j => loose j ∧ j ≠ nId) (dNew + 1) dTried
      (((s.setTried (ctx.triedSlot nKey info) (some nId)).countTried 1).setInfo nId
        { info with fInTried := true }) := by
  have hcounts := h.counts hid { info with fInTried := true }
  simp only [isNew, isTried, hnew, if_true, Bool.false_eq_true, if_false] at hcounts
  refine ⟨⟨h.key, ?_, ?_, ?_⟩, ?_⟩
  · rw [entries_setInfo, entries_countTried, entries_setTried]
    exact h.slotted.tryAt hid hnew hzero hgood hslot ⟨rfl, rfl, rfl⟩ rfl rfl
  · change s.nNew = TreeTotal.total isNew (s.setInfo nId { info with fInTried := true }).mapInfo +
      (dNew + 1)
    omega
  · change s.nTried + 1 =
      TreeTotal.total isTried (s.setInfo nId { info with fInTried := true }).mapInfo + dTried
    omega
  · have hlisted : (s.setInfo nId { info with fInTried := true }).Listed :=
      h.listed.setInfo hid rfl rfl
    exact hlisted.congr rfl rfl rfl rfl

-- An entry in no new bucket gets through an eviction as it is.
theorem Consistent.evict_spec (h : Consistent ctx nKey loose dNew dTried s) {slot : Nat × Nat}
    {nIdEvict : Nat} (hslot : s.vvTried slot = some nIdEvict) (hid : s.entries nId = some info)
    (hnew : info.fInTried = false) (hzero : info.nRefCount = 0) :
    ∃ s', s.evict ctx nIdEvict slot = some s' ∧ Consistent ctx nKey loose dNew dTried s' ∧
      s'.vvTried slot = none ∧ SameBut s.entries s'.entries nId := by
  obtain ⟨old, hold, htried, -⟩ := h.slotted.tried_slot slot nIdEvict hslot
  obtain ⟨hzeroOld, -, -⟩ := h.slotted.tried nIdEvict old hold htried
  have hne : nIdEvict ≠ nId := by
    rintro rfl
    rw [hid, Option.some.injEq] at hold
    rw [hold, htried] at hnew
    cases hnew
  have h₁ := h.untry hslot hold
  have hold₁ : (((s.setInfo nIdEvict { old with fInTried := false }).setTried slot
      none).countTried (-1)).entries nIdEvict = some { old with fInTried := false } := by
    rw [entries_countTried, entries_setTried, entries_setInfo, Function.update_self]
  have hid₁ : (((s.setInfo nIdEvict { old with fInTried := false }).setTried slot
      none).countTried (-1)).entries nId = some info := by
    rw [entries_countTried, entries_setTried, entries_setInfo, Function.update_of_ne hne.symm, hid]
  have hvvTried : (((s.setInfo nIdEvict { old with fInTried := false }).setTried slot
      none).countTried (-1)).vvTried slot = none := by
    change Function.update s.vvTried slot none slot = none
    rw [Function.update_self]
  rw [evict, contains_eq, hold]
  simp only [Option.isSome_some, Bool.not_true, Bool.false_eq_true, if_false, entry_eq hold]
  generalize ((s.setInfo nIdEvict { old with fInTried := false }).setTried slot
    none).countTried (-1) = s₁ at *
  rw [entry_eq hold₁, h₁.key]
  have hbucket := getNewBucket_lt ctx nKey { old with fInTried := false } old.source
  generalize hnewSlot : ctx.newSlot nKey { old with fInTried := false } (ctx.getNewBucket nKey
    { old with fInTried := false } old.source) = newSlot
  have heq : newSlot = ctx.newSlot nKey { old with fInTried := false } newSlot.1 := by
    rw [← hnewSlot]
    rfl
  have hlt : newSlot.1 < ADDRMAN_NEW_BUCKET_COUNT := by
    rw [← hnewSlot]
    exact hbucket
  obtain ⟨s₂, hclear, h₂, hvvNew, hkept⟩ := h₁.clearNew_spec newSlot
  have hsame := hkept.entries nId (h₁.slotted.not_slotted hid₁ hzero newSlot)
  obtain ⟨q, hold₂⟩ :=
    (hkept.entries nIdEvict (h₁.slotted.not_slotted hold₁ hzeroOld newSlot)).some hold₁
  have hempty : s₂.vvNew newSlot = none := by rw [hvvNew, Function.update_self]
  have hroom : old.nRefCount < ADDRMAN_NEW_BUCKETS_PER_ADDRESS := by
    rw [hzeroOld]
    decide
  have h₃ := (h₂.slotNew hempty hold₂ rfl hlt heq hroom).count 1
  simp only [hzeroOld, Int.zero_add, Int.sub_add_cancel] at h₃
  refine ⟨_, ?_, h₃.mono fun j x _ _ hj => Or.inl (hj.1.resolve_left hj.2), ?_, ?_⟩
  · rw [hclear]
    simp only [Option.bind_eq_bind, Option.bind_some, hempty, Option.isSome_none,
      Bool.false_eq_true, if_false, entry_eq hold₂]
  · exact (congrFun hkept.vvTried slot).trans hvvTried
  · refine (SameBut.of_eq (hid₁.trans hid.symm)).trans (hsame.trans (SameBut.of_eq ?_))
    rw [entries_countNew, entries_setNew, entries_setInfo, Function.update_of_ne hne.symm]

-- The slots of an entry are emptied bucket after bucket; `done` lists the buckets that are through.
structure Dropped (ctx : AddrManContext) (nKey : UInt256) (dNew dTried : Int) (info : CAddrInfo)
    (nId : Nat) (done : List Nat) (s : CAddrMan) : Prop where
  consistent : Consistent ctx nKey (fun j => j = nId) dNew dTried s
  entry : ∃ nRefCount, s.entries nId = some { info with nRefCount := nRefCount }
  gone : ∀ slot, s.vvNew slot = some nId → slot.1 ∉ done

theorem Dropped.drop {done : List Nat} {bucket : Nat}
    (h : Dropped ctx nKey dNew dTried info nId done s) :
    Dropped ctx nKey dNew dTried info nId (bucket :: done) (dropFromBucket ctx nId s bucket) := by
  obtain ⟨nRefCount, hid⟩ := h.entry
  have hslots : ∀ slot, s.vvNew slot = some nId → slot.1 = bucket →
      slot = ctx.newSlot nKey info bucket := by
    rintro slot hslot rfl
    obtain ⟨-, info', hid', -, heq⟩ := h.consistent.slotted.new_slot slot nId hslot
    rw [hid, Option.some.injEq] at hid'
    subst hid'
    exact heq
  rw [dropFromBucket, entry_eq hid, h.consistent.key]
  have hcongr : ctx.newSlot nKey { info with nRefCount := nRefCount } bucket =
      ctx.newSlot nKey info bucket := rfl
  dsimp only
  rw [hcongr]
  split
  · rename_i hin
    refine ⟨(h.consistent.unslot hin hid).mono fun j x _ _ hj => Or.inl (hj.elim id id),
      ⟨nRefCount - 1, ?_⟩, fun slot hslot => ?_⟩
    · rw [entries_setNew, entries_setInfo, Function.update_self]
    · change Function.update s.vvNew (ctx.newSlot nKey info bucket) none slot = some nId at hslot
      by_cases heq : slot = ctx.newSlot nKey info bucket
      · rw [heq, Function.update_self] at hslot
        cases hslot
      · rw [Function.update_of_ne heq] at hslot
        rw [List.mem_cons, not_or]
        exact ⟨fun hbucket => heq (hslots slot hslot hbucket), h.gone slot hslot⟩
  · rename_i hout
    refine ⟨h.consistent, h.entry, fun slot hslot => ?_⟩
    rw [List.mem_cons, not_or]
    refine ⟨fun hbucket => hout ?_, h.gone slot hslot⟩
    rw [← hslots slot hslot hbucket]
    exact hslot

theorem Dropped.foldl {done : List Nat} (buckets : List Nat)
    (h : Dropped ctx nKey dNew dTried info nId done s) :
    Dropped ctx nKey dNew dTried info nId (buckets.reverse ++ done)
      (buckets.foldl (dropFromBucket ctx nId) s) := by
  induction buckets generalizing s done with
  | nil => exact h
  | cons bucket buckets ih =>
    rw [List.foldl_cons, List.reverse_cons, List.append_assoc]
    exact ih h.drop

-- Once all buckets are through, the entry is in none.
theorem Dropped.refCount (h : Dropped ctx nKey dNew dTried info nId
    (List.range ADDRMAN_NEW_BUCKET_COUNT).reverse s) (hnew : info.fInTried = false) :
    s.entries nId = some { info with nRefCount := 0 } := by
  obtain ⟨nRefCount, hid⟩ := h.entry
  obtain ⟨hocc, -, -⟩ := h.consistent.slotted.new nId _ hid hnew
  have hzero : SlotTable.occ newSlots s.vvNew nId = 0 := by
    refine Nat.eq_zero_of_not_pos fun hpos => ?_
    obtain ⟨slot, -, hslot⟩ := SlotTable.occ_pos_iff.mp hpos
    obtain ⟨hlt, -⟩ := h.consistent.slotted.new_slot slot nId hslot
    exact h.gone slot hslot (List.mem_reverse.mpr (List.mem_range.mpr hlt))
  rw [hzero] at hocc
  obtain rfl : nRefCount = 0 := hocc
  exact hid

theorem Sound.makeTried_spec (h : Sound ctx nKey s) (hid : s.entries nId = some info)
    (hnew : info.fInTried = false) (hgood : info.nLastSuccess ≠ 0) :
    ∃ s', s.makeTried ctx nId = some s' ∧ Sound ctx nKey s' := by
  have hstart : Dropped ctx nKey 0 0 info nId [] s :=
    ⟨h.mono fun j x _ _ hj => hj.elim, ⟨info.nRefCount, hid⟩, fun _ _ => List.not_mem_nil⟩
  have hdropped := hstart.foldl (List.range ADDRMAN_NEW_BUCKET_COUNT)
  rw [List.append_nil] at hdropped
  rw [makeTried]
  generalize (List.range ADDRMAN_NEW_BUCKET_COUNT).foldl (dropFromBucket ctx nId) s = s₁ at hdropped ⊢
  have hid₁ : (s₁.countNew (-1)).entries nId = some { info with nRefCount := 0 } :=
    hdropped.refCount hnew
  have h₁ := hdropped.consistent.count (-1)
  generalize s₁.countNew (-1) = s₂ at hid₁ h₁ ⊢
  dsimp only
  rw [entry_eq hid₁, if_neg (by simp), h₁.key]
  generalize hslot : ctx.triedSlot nKey { info with nRefCount := 0 } = slot
  have hmade : ∀ s₃, Consistent ctx nKey (fun j => j = nId) (0 + -1) 0 s₃ →
      s₃.vvTried slot = none → SameBut s₂.entries s₃.entries nId →
      ∃ s', (if (s₃.vvTried slot).isSome then none
        else some (((s₃.setTried slot (some nId)).countTried 1).setInfo nId
          { ((s₃.setTried slot (some nId)).countTried 1).entry nId with fInTried := true })) =
        some s' ∧ Sound ctx nKey s' := by
    intro s₃ h₃ hempty hsame
    obtain ⟨q, hid₃⟩ := hsame.some hid₁
    have hslot₃ : ctx.triedSlot nKey { info with nRefCount := 0, nRandomPos := q } = slot := hslot
    have htried := h₃.tryAt hid₃ hnew rfl hgood (by rw [hslot₃]; exact hempty)
    rw [hslot₃] at htried
    have hentry : ((s₃.setTried slot (some nId)).countTried 1).entry nId =
        { info with nRefCount := 0, nRandomPos := q } := entry_eq hid₃
    refine ⟨_, ?_, htried.mono fun j x _ _ hj => absurd hj.1 hj.2⟩
    rw [hempty, hentry]
    rfl
  cases hin : s₂.vvTried slot with
  | none => exact hmade s₂ h₁ hin (SameBut.refl s₂.entries nId)
  | some nIdEvict =>
    obtain ⟨s₃, hevict, h₃, hempty, hsame⟩ := h₁.evict_spec hin hid₁ hnew rfl
    dsimp only
    rw [hevict]
    exact hmade s₃ h₃ hempty hsame

end CAddrMan

end AnkerNode
