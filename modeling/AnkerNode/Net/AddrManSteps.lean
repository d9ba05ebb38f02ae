import AnkerNode.Net.AddrManInvariant

namespace AnkerNode

namespace CAddrMan

-- the same entry, somewhere else in the random order
def SameBut (e e' : Nat → Option CAddrInfo) (nId : Nat) : Prop :=
  ∃ q, e' nId = (e nId).map fun info => { info with nRandomPos := q }

namespace SameBut

variable {e e' e'' : Nat → Option CAddrInfo} {nId : Nat} {info : CAddrInfo}

theorem refl (e : Nat → Option CAddrInfo) (nId : Nat) : SameBut e e nId := by
  cases h : e nId with
  | none => exact ⟨0, by rw [h, Option.map_none]⟩
  | some info => exact ⟨info.nRandomPos, by rw [h, Option.map_some]⟩

theorem trans (h : SameBut e e' nId) (h' : SameBut e' e'' nId) : SameBut e e'' nId := by
  obtain ⟨q, hq⟩ := h
  obtain ⟨q', hq'⟩ := h'
  exact ⟨q', by rw [hq', hq, Option.map_map]; rfl⟩

theorem some (h : SameBut e e' nId) (hid : e nId = Option.some info) :
    ∃ q, e' nId = Option.some { info with nRandomPos := q } := by
  obtain ⟨q, hq⟩ := h
  exact ⟨q, by rw [hq, hid, Option.map_some]⟩

theorem of_eq (h : e' nId = e nId) : SameBut e e' nId := by
  have hrefl := refl e nId
  rw [SameBut] at hrefl ⊢
  rw [h]
  exact hrefl

end SameBut

variable {ctx : AddrManContext} {nKey : UInt256} {loose loose' : Nat → Prop} {dNew dTried : Int}
  {s s' : CAddrMan} {nId : Nat} {info info' : CAddrInfo}

theorem find_eq_some_iff (h : s.Listed) {ip : CNetAddr} :
    s.find ip = some (nId, info) ↔ s.entries nId = some info ∧ info.ip = ip := by
  rw [find, Option.bind_eq_some_iff]
  constructor
  · rintro ⟨i, hi, hinfo⟩
    rw [Option.map_eq_some_iff] at hinfo
    obtain ⟨x, hx, heq⟩ := hinfo
    rw [Prod.mk.injEq] at heq
    obtain ⟨rfl, rfl⟩ := heq
    obtain ⟨y, hy, hip⟩ := (h.addr ip i).mp hi
    rw [entries, hx, Option.some.injEq] at hy
    subst hy
    exact ⟨hx, hip⟩
  · rintro ⟨hid, hip⟩
    exact ⟨nId, (h.addr ip nId).mpr ⟨info, hid, hip⟩, by rw [entries] at hid; rw [hid]; rfl⟩

theorem mapAddr_of_find_eq_none (h : s.Listed) {ip : CNetAddr} (hfind : s.find ip = none) :
    s.mapAddr ip = none := by
  cases haddr : s.mapAddr ip with
  | none => rfl
  | some nId =>
    obtain ⟨info, hid, hip⟩ := (h.addr ip nId).mp haddr
    rw [(find_eq_some_iff h).mpr ⟨hid, hip⟩] at hfind
    cases hfind

theorem Listed.setInfo (h : s.Listed) (hid : s.entries nId = some info) (hip : info'.ip = info.ip)
    (hpos : info'.nRandomPos = info.nRandomPos) : (s.setInfo nId info').Listed where
  addr ip i := by
    have hold := h.addr ip i
    rw [entries_setInfo]
    change s.mapAddr ip = some i ↔ _
    grind [Function.update_apply]
  random := by
    have hfun : (fun i => ((s.setInfo nId info').entries i).map CAddrInfo.nRandomPos) =
        fun i => (s.entries i).map CAddrInfo.nRandomPos := by
      funext i
      rw [entries_setInfo]
      grind [Function.update_apply]
    rw [hfun]
    exact h.random
  fresh i x hx := by
    have hold := h.fresh i
    rw [entries_setInfo] at hx
    change i < s.nIdCount
    grind [Function.update_apply]

theorem Consistent.mono (h : Consistent ctx nKey loose dNew dTried s)
    (hloose : ∀ nId info, s.entries nId = some info → info.fInTried = false → loose nId →
      loose' nId ∨ info.nRefCount ≠ 0) :
    Consistent ctx nKey loose' dNew dTried s :=
  ⟨⟨h.key, h.slotted.mono hloose, h.countNew, h.countTried⟩, h.listed⟩

-- What the counters have to make up for when an entry changes.
theorem Booked.counts (h : Booked ctx nKey loose dNew dTried s) (hid : s.entries nId = some info)
    (info' : CAddrInfo) :
    s.nNew = TreeTotal.total isNew (s.setInfo nId info').mapInfo + (dNew + isNew info - isNew info') ∧
      s.nTried = TreeTotal.total isTried (s.setInfo nId info').mapInfo +
        (dTried + isTried info - isTried info') := by
  have htotalNew := total_setInfo isNew hid info'
  have htotalTried := total_setInfo isTried hid info'
  have hcountNew := h.countNew
  have hcountTried := h.countTried
  rw [setInfo]
  dsimp only
  omega

theorem Booked.touch (h : Booked ctx nKey loose dNew dTried s) (hid : s.entries nId = some info)
    (hservice : info'.toNetService = info.toNetService) (htried : info'.fInTried = info.fInTried)
    (href : info'.nRefCount = info.nRefCount) (htry : 0 ≤ info'.nLastTry)
    (hsuccess : 0 ≤ info'.nLastSuccess)
    (hgood : info.nLastSuccess ≠ 0 → info'.nLastSuccess ≠ 0) :
    Booked ctx nKey loose dNew dTried (s.setInfo nId info') where
  key := h.key
  slotted := by
    rw [entries_setInfo]
    exact h.slotted.touch hid hservice htried href htry hsuccess hgood
  countNew := by
    have hcount := (h.counts hid info').1
    rw [isNew, isNew, htried, Int.add_sub_cancel] at hcount
    exact hcount
  countTried := by
    have hcount := (h.counts hid info').2
    rw [isTried, isTried, htried, Int.add_sub_cancel] at hcount
    exact hcount

theorem Booked.reposition (h : Booked ctx nKey loose dNew dTried s) (hid : s.entries nId = some info)
    (q : Int) :
    Booked ctx nKey loose dNew dTried (s.setInfo nId { info with nRandomPos := q }) :=
  h.touch hid rfl rfl rfl (h.slotted.times nId info hid).1 (h.slotted.times nId info hid).2 id

theorem Consistent.touch (h : Consistent ctx nKey loose dNew dTried s)
    (hid : s.entries nId = some info) (hservice : info'.toNetService = info.toNetService)
    (htried : info'.fInTried = info.fInTried) (href : info'.nRefCount = info.nRefCount)
    (hpos : info'.nRandomPos = info.nRandomPos) (htry : 0 ≤ info'.nLastTry)
    (hsuccess : 0 ≤ info'.nLastSuccess)
    (hgood : info.nLastSuccess ≠ 0 → info'.nLastSuccess ≠ 0) :
    Consistent ctx nKey loose dNew dTried (s.setInfo nId info') :=
  ⟨h.toBooked.touch hid hservice htried href htry hsuccess hgood,
    h.listed.setInfo hid (by rw [hservice]) hpos⟩

-- Nothing but the random order is different.
structure Rearranged (s s' : CAddrMan) : Prop where
  size : s'.vRandom.length = s.vRandom.length
  vvNew : s'.vvNew = s.vvNew
  vvTried : s'.vvTried = s.vvTried
  entries : ∀ nId, SameBut s.entries s'.entries nId

theorem Rearranged.refl (s : CAddrMan) : Rearranged s s :=
  ⟨rfl, rfl, rfl, fun nId => SameBut.refl s.entries nId⟩

theorem Rearranged.trans {s'' : CAddrMan} (h : Rearranged s s') (h' : Rearranged s' s'') :
    Rearranged s s'' :=
  ⟨h'.size.trans h.size, h'.vvNew.trans h.vvNew, h'.vvTried.trans h.vvTried,
    fun nId => (h.entries nId).trans (h'.entries nId)⟩

theorem Listed.swap (h : s.Listed) {p q : Nat} {hp : p < s.vRandom.length}
    {hq : q < s.vRandom.length} {x y : CAddrInfo} (hpq : p ≠ q)
    (hx : s.entries s.vRandom[p] = some x) (hy : s.entries s.vRandom[q] = some y) :
    Listed { (s.setInfo s.vRandom[p] { x with nRandomPos := (q : Int) }).setInfo s.vRandom[q]
      { y with nRandomPos := (p : Int) } with
      vRandom := (s.vRandom.set p s.vRandom[q]).set q s.vRandom[p] } := by
  have hentries : ((s.setInfo s.vRandom[p] { x with nRandomPos := (q : Int) }).setInfo s.vRandom[q]
      { y with nRandomPos := (p : Int) }).entries = Function.update (Function.update s.entries
        s.vRandom[p] (some { x with nRandomPos := (q : Int) })) s.vRandom[q]
        (some { y with nRandomPos := (p : Int) }) := by
    rw [entries_setInfo, entries_setInfo]
  refine ⟨fun ip i => ?_, ?_, fun i z hz => ?_⟩
  · have hold := h.addr ip i
    change s.mapAddr ip = some i ↔ ∃ info, ((s.setInfo _ _).setInfo _ _).entries i = some info ∧ _
    rw [hentries]
    grind [Function.update_apply]
  · have hrandom := h.random.swap hpq (List.getElem?_eq_getElem hp) (List.getElem?_eq_getElem hq)
    have hfun : (fun i => (((s.setInfo s.vRandom[p] { x with nRandomPos := (q : Int) }).setInfo
        s.vRandom[q] { y with nRandomPos := (p : Int) }).entries i).map CAddrInfo.nRandomPos) =
        Function.update (Function.update (fun i => (s.entries i).map CAddrInfo.nRandomPos)
          s.vRandom[p] (some (q : Int))) s.vRandom[q] (some (p : Int)) := by
      funext i
      rw [hentries]
      grind [Function.update_apply]
    change Positions.Indexed _ fun i => (((s.setInfo _ _).setInfo _ _).entries i).map _
    rw [hfun]
    exact hrandom
  · have hold := h.fresh i
    have hz' : ((s.setInfo s.vRandom[p] { x with nRandomPos := (q : Int) }).setInfo s.vRandom[q]
      { y with nRandomPos := (p : Int) }).entries i = some z := hz
    rw [hentries] at hz'
    change i < s.nIdCount
    grind [Function.update_apply]

theorem Consistent.swapRandom_spec (h : Consistent ctx nKey loose dNew dTried s) {p q : Nat}
    (hp : p < s.vRandom.length) (hq : q < s.vRandom.length) :
    ∃ s', s.swapRandom p q = some s' ∧ Consistent ctx nKey loose dNew dTried s' ∧
      Rearranged s s' ∧ s'.vRandom[q]? = s.vRandom[p]? := by
  by_cases hpq : p = q
  · subst hpq
    exact ⟨s, by rw [swapRandom, if_pos rfl], h, Rearranged.refl s, rfl⟩
  have hat : ∀ r (hr : r < s.vRandom.length), ∃ info, s.entries s.vRandom[r] = some info ∧
      info.nRandomPos = (r : Int) := by
    intro r hr
    have hpos := (h.listed.random.at_pos r _).mp (List.getElem?_eq_getElem hr)
    rw [Option.map_eq_some_iff] at hpos
    exact hpos
  obtain ⟨x, hx, hxpos⟩ := hat p hp
  obtain ⟨y, hy, hypos⟩ := hat q hq
  have hne : s.vRandom[p] ≠ s.vRandom[q] := by
    intro heq
    refine hpq (h.listed.random.inj (List.getElem?_eq_getElem hp) ?_)
    rw [heq]
    exact List.getElem?_eq_getElem hq
  have hbooked := h.toBooked.reposition hx q
  have hy' : (s.setInfo s.vRandom[p] { x with nRandomPos := (q : Int) }).entries s.vRandom[q] =
      some y := by
    rw [entries_setInfo, Function.update_of_ne hne.symm, hy]
  have hbooked' := hbooked.reposition hy' p
  refine ⟨{ (s.setInfo s.vRandom[p] { x with nRandomPos := (q : Int) }).setInfo s.vRandom[q]
      { y with nRandomPos := (p : Int) } with
      vRandom := (s.vRandom.set p s.vRandom[q]).set q s.vRandom[p] }, ?_, ⟨?_, ?_⟩, ?_, ?_⟩
  · rw [swapRandom, if_neg (by omega), if_neg (by omega), Int.toNat_natCast, Int.toNat_natCast,
      List.getElem?_eq_getElem hp, List.getElem?_eq_getElem hq]
    simp only [Option.bind_eq_bind, Option.bind_some, contains_eq, hx, hy, Option.isSome_some,
      Bool.not_true, Bool.or_self, Bool.false_eq_true, if_false, entry_eq hx, entry_eq hy']
    rfl
  · exact ⟨hbooked'.key, hbooked'.slotted, hbooked'.countNew, hbooked'.countTried⟩
  · exact h.listed.swap hpq hx hy
  · refine ⟨by simp, rfl, rfl, fun i => ?_⟩
    change SameBut s.entries ((s.setInfo _ _).setInfo _ _).entries i
    rw [entries_setInfo, entries_setInfo]
    by_cases hi : i = s.vRandom[q]
    · subst hi
      exact ⟨p, by rw [Function.update_self, hy, Option.map_some]⟩
    · by_cases hi' : i = s.vRandom[p]
      · subst hi'
        exact ⟨q, by rw [Function.update_of_ne hi, Function.update_self, hx, Option.map_some]⟩
      · exact SameBut.of_eq (by rw [Function.update_of_ne hi, Function.update_of_ne hi'])
  · rw [List.getElem?_set_self (by simpa using hq), List.getElem?_eq_getElem hp]

-- A step keeps the tried buckets and, but for those that are gone, the entries.
structure Kept (gone : Nat → Prop) (s s' : CAddrMan) : Prop where
  vvTried : s'.vvTried = s.vvTried
  entries : ∀ nId, ¬gone nId → SameBut s.entries s'.entries nId

theorem Listed.remove (h : s.Listed) (hid : s.entries nId = some info)
    (hlast : s.vRandom[s.vRandom.length - 1]? = some nId) (nNew : Int) :
    Listed { s with
      vRandom := s.vRandom.dropLast
      mapAddr := Function.update s.mapAddr info.ip none
      mapInfo := s.mapInfo.erase nId
      nNew := nNew } := by
  have hentries : (fun j => (s.mapInfo.erase nId)[j]?) = Function.update s.entries nId none :=
    entries_erase s.mapInfo nId
  have hother : ∀ i x, s.entries i = some x → x.ip = info.ip → i = nId := by
    intro i x hx hip
    have hi := (h.addr info.ip i).mpr ⟨x, hx, hip⟩
    rw [(h.addr info.ip nId).mpr ⟨info, hid, rfl⟩, Option.some.injEq] at hi
    exact hi.symm
  refine ⟨fun ip i => ?_, ?_, fun i z hz => ?_⟩
  · have hold := h.addr ip i
    change Function.update s.mapAddr info.ip none ip = some i ↔
      ∃ x, (fun j => (s.mapInfo.erase nId)[j]?) i = some x ∧ _
    rw [hentries]
    have hi := hother i
    grind [Function.update_apply]
  · have hrandom := h.random.pop hlast
    have hfun : (fun i => ((fun j => (s.mapInfo.erase nId)[j]?) i).map CAddrInfo.nRandomPos) =
        Function.update (fun i => (s.entries i).map CAddrInfo.nRandomPos) nId none := by
      funext i
      rw [hentries]
      grind [Function.update_apply]
    change Positions.Indexed _ fun i => ((fun j => (s.mapInfo.erase nId)[j]?) i).map _
    rw [hfun]
    exact hrandom
  · have hold := h.fresh i
    change (fun j => (s.mapInfo.erase nId)[j]?) i = some z at hz
    rw [hentries] at hz
    change i < s.nIdCount
    grind [Function.update_apply]

theorem Listed.exists_pos (h : s.Listed) (hid : s.entries nId = some info) :
    ∃ p : Nat, info.nRandomPos = (p : Int) ∧ p < s.vRandom.length ∧ s.vRandom[p]? = some nId := by
  have hpos : (s.entries nId).map CAddrInfo.nRandomPos = some info.nRandomPos := by
    rw [hid, Option.map_some]
  have hnonneg := h.random.nonneg nId info.nRandomPos hpos
  have hat := h.random.at_toNat hpos
  refine ⟨info.nRandomPos.toNat, (Int.toNat_of_nonneg hnonneg).symm, ?_, hat⟩
  exact (List.getElem?_eq_some_iff.mp hat).1

theorem Consistent.delete_spec (h : Consistent ctx nKey loose dNew dTried s)
    (hid : s.entries nId = some info) (hnew : info.fInTried = false) (href : info.nRefCount = 0) :
    ∃ s', s.delete nId = some s' ∧
      Consistent ctx nKey (fun j => loose j ∧ j ≠ nId) dNew dTried s' ∧
        s'.vvNew = s.vvNew ∧ Kept (fun j => j = nId) s s' := by
  obtain ⟨p, hp, hlt, hat⟩ := h.listed.exists_pos hid
  obtain ⟨s₁, hswap, h₁, hsame, hlast⟩ :=
    h.swapRandom_spec hlt (show s.vRandom.length - 1 < s.vRandom.length by omega)
  obtain ⟨r, hid₁⟩ := (hsame.entries nId).some hid
  rw [hat, ← hsame.size] at hlast
  have hentries : (fun j => (s₁.mapInfo.erase nId)[j]?) = Function.update s₁.entries nId none :=
    entries_erase s₁.mapInfo nId
  have htotalNew := TreeTotal.total_erase (f := isNew) hid₁
  have htotalTried := TreeTotal.total_erase (f := isTried) hid₁
  have hcountNew := h₁.countNew
  have hcountTried := h₁.countTried
  refine ⟨{ s₁ with
      vRandom := s₁.vRandom.dropLast
      mapAddr := Function.update s₁.mapAddr info.ip none
      mapInfo := s₁.mapInfo.erase nId
      nNew := s₁.nNew - 1 }, ?_, ⟨⟨h₁.key, ?_, ?_, ?_⟩, ?_⟩, hsame.vvNew, hsame.vvTried, ?_⟩
  · have hend : ((s.vRandom.length : Int) - 1) = ((s.vRandom.length - 1 : Nat) : Int) := by omega
    rw [delete, contains_eq, entry_eq hid, hid, hnew, href, hp, hend]
    simp only [Option.isSome_some, Bool.not_true, Bool.false_or, ne_eq, not_true, decide_false,
      Bool.false_eq_true, if_false, hswap, Option.bind_eq_bind, Option.bind_some, entry_eq hid₁]
  · change Slotted ctx nKey _ (fun j => (s₁.mapInfo.erase nId)[j]?) _ _
    rw [hentries]
    exact h₁.slotted.remove hid₁ hnew href
  · simp only [isNew, hnew] at htotalNew
    change s₁.nNew - 1 = TreeTotal.total isNew (s₁.mapInfo.erase nId) + dNew
    rw [hcountNew, htotalNew]
    simp
    omega
  · simp only [isTried, hnew] at htotalTried
    change s₁.nTried = TreeTotal.total isTried (s₁.mapInfo.erase nId) + dTried
    rw [hcountTried, htotalTried]
    simp
  · exact h₁.listed.remove hid₁ hlast _
  · intro j hj
    refine (hsame.entries j).trans (SameBut.of_eq ?_)
    change (fun j => (s₁.mapInfo.erase nId)[j]?) j = s₁.entries j
    rw [hentries, Function.update_of_ne hj]

theorem Kept.mono {gone gone' : Nat → Prop} (h : Kept gone s s') (hgone : ∀ j, gone j → gone' j) :
    Kept gone' s s' :=
  ⟨h.vvTried, fun j hj => h.entries j fun hgonej => hj (hgone j hgonej)⟩

@[simp] theorem entries_setNew (s : CAddrMan) (slot : Nat × Nat) (v : Option Nat) :
    (s.setNew slot v).entries = s.entries := rfl

@[simp] theorem entries_setTried (s : CAddrMan) (slot : Nat × Nat) (v : Option Nat) :
    (s.setTried slot v).entries = s.entries := rfl

@[simp] theorem entries_countNew (s : CAddrMan) (n : Int) : (s.countNew n).entries = s.entries := rfl

@[simp] theorem entries_countTried (s : CAddrMan) (n : Int) :
    (s.countTried n).entries = s.entries := rfl

theorem Listed.congr (h : s.Listed) (haddr : s'.mapAddr = s.mapAddr)
    (hentries : s'.entries = s.entries) (hrandom : s'.vRandom = s.vRandom)
    (hcount : s'.nIdCount = s.nIdCount) : s'.Listed where
  addr := by
    rw [haddr, hentries]
    exact h.addr
  random := by
    rw [hrandom, hentries]
    exact h.random
  fresh := by
    rw [hentries, hcount]
    exact h.fresh

-- the entry of a slot is taken out of it
theorem Consistent.unslot (h : Consistent ctx nKey loose dNew dTried s) {slot : Nat × Nat}
    (hslot : s.vvNew slot = some nId) (hid : s.entries nId = some info) :
    Consistent ctx nKey (fun j => j = nId ∨ loose j) dNew dTried
      ((s.setInfo nId { info with nRefCount := info.nRefCount - 1 }).setNew slot none) := by
  have hcounts := h.counts hid { info with nRefCount := info.nRefCount - 1 }
  simp only [isNew, isTried, Int.add_sub_cancel] at hcounts
  refine ⟨⟨h.key, ?_, hcounts.1, hcounts.2⟩, ?_⟩
  · rw [entries_setNew, entries_setInfo]
    exact h.slotted.unslot hslot hid ⟨rfl, rfl, rfl⟩ rfl rfl
  · have hlisted : (s.setInfo nId { info with nRefCount := info.nRefCount - 1 }).Listed :=
      h.listed.setInfo hid rfl rfl
    exact hlisted.congr rfl rfl rfl rfl

theorem Consistent.clearNew_spec (h : Consistent ctx nKey loose dNew dTried s) (slot : Nat × Nat) :
    ∃ s', s.clearNew slot = some s' ∧ Consistent ctx nKey loose dNew dTried s' ∧
      s'.vvNew = Function.update s.vvNew slot none ∧
        Kept (fun j => s.vvNew slot = some j) s s' := by
  cases hslot : s.vvNew slot with
  | none =>
    refine ⟨s, by rw [clearNew, hslot], h, ?_, rfl, fun j _ => SameBut.refl s.entries j⟩
    rw [← hslot, Function.update_eq_self]
  | some nId =>
    obtain ⟨-, info, hid, hnew, -⟩ := h.slotted.new_slot slot nId hslot
    have hpos := h.slotted.refCount_pos hslot hid
    have h₁ := h.unslot hslot hid
    have hid₁ : ((s.setInfo nId { info with nRefCount := info.nRefCount - 1 }).setNew
        slot none).entries nId = some { info with nRefCount := info.nRefCount - 1 } := by
      rw [entries_setNew, entries_setInfo, Function.update_self]
    have hkept : Kept (fun j => some nId = some j) s
        ((s.setInfo nId { info with nRefCount := info.nRefCount - 1 }).setNew slot none) := by
      refine ⟨rfl, fun j hj => SameBut.of_eq ?_⟩
      rw [entries_setNew, entries_setInfo, Function.update_of_ne]
      rintro rfl
      exact hj rfl
    by_cases hzero : info.nRefCount - 1 = 0
    · obtain ⟨s₂, hdelete, h₂, hvvNew, hkept₂⟩ := h₁.delete_spec hid₁ hnew hzero
      refine ⟨s₂, ?_, h₂.mono fun j x _ _ hj => Or.inl (hj.1.resolve_left hj.2), hvvNew, ?_⟩
      · rw [clearNew, hslot]
        dsimp only
        rw [entry_eq hid, if_neg (by omega), entry_eq hid₁, if_pos hzero, hdelete]
      · refine ⟨hkept₂.vvTried.trans hkept.vvTried, fun j hj => ?_⟩
        refine (hkept.entries j hj).trans (hkept₂.entries j ?_)
        rintro rfl
        exact hj rfl
    · refine ⟨_, ?_, h₁.mono fun j x hx _ hj => ?_, rfl, hkept⟩
      · rw [clearNew, hslot]
        dsimp only
        rw [entry_eq hid, if_neg (by omega), entry_eq hid₁, if_neg hzero]
      · rcases hj with rfl | hloose
        · rw [hid₁, Option.some.injEq] at hx
          subst hx
          exact Or.inr hzero
        · exact Or.inl hloose

end CAddrMan

end AnkerNode
