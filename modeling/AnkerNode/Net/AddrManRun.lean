import AnkerNode.Net.AddrManMoves

namespace AnkerNode

namespace CAddrMan

variable {ctx : AddrManContext} {nKey : UInt256} {s s' : CAddrMan} {nId : Nat}
  {info info' : CAddrInfo}

theorem Sound.good_spec (h : Sound ctx nKey s) (addr : NetService) {nTime : Int64}
    (htime : 0 < nTime) (nRnd : Nat) :
    ∃ s', s.good ctx addr nTime nRnd = some s' ∧ Sound ctx nKey s' := by
  rw [good]
  cases hfind : s.find addr.ip with
  | none => exact ⟨s, rfl, h⟩
  | some found =>
    obtain ⟨nId, info⟩ := found
    obtain ⟨hid, -⟩ := (find_eq_some_iff h.listed).mp hfind
    have hle : 0 ≤ nTime := Int64.le_of_lt htime
    have hne : nTime ≠ 0 := (Int64.ne_of_lt htime).symm
    have h₁ : Sound ctx nKey (s.setInfo nId
        { info with nLastSuccess := nTime, nLastTry := nTime, nAttempts := 0 }) :=
      Consistent.touch h hid rfl rfl rfl rfl hle hle fun _ => hne
    have hid₁ : (s.setInfo nId { info with
        nLastSuccess := nTime, nLastTry := nTime, nAttempts := 0 }).entries nId =
        some { info with nLastSuccess := nTime, nLastTry := nTime, nAttempts := 0 } := by
      rw [entries_setInfo, Function.update_self]
    refine exists_ite ⟨s, rfl, h⟩ fun _ => exists_ite ⟨_, rfl, h₁⟩ fun htried => ?_
    have hnew : info.fInTried = false := by simpa using htried
    exact exists_ite (h₁.makeTried_spec hid₁ hnew hne) fun _ => ⟨_, rfl, h₁⟩

theorem Sound.withService (h : Sound ctx nKey s) (addr : NetService) {change : CAddrInfo → CAddrInfo}
    (hchange : ∀ info, 0 ≤ info.nLastTry → (change info).toNetService = info.toNetService ∧
      (change info).fInTried = info.fInTried ∧ (change info).nRefCount = info.nRefCount ∧
      (change info).nRandomPos = info.nRandomPos ∧ 0 ≤ (change info).nLastTry ∧
      (change info).nLastSuccess = info.nLastSuccess) :
    Sound ctx nKey (s.withService addr change) := by
  rw [CAddrMan.withService]
  cases hfind : s.find addr.ip with
  | none => exact h
  | some found =>
    obtain ⟨nId, info⟩ := found
    obtain ⟨hid, -⟩ := (find_eq_some_iff h.listed).mp hfind
    obtain ⟨hservice, htried, href, hpos, htry, hsuccess⟩ :=
      hchange info (h.slotted.times nId info hid).1
    dsimp only
    split
    · exact h
    · exact h.touch hid hservice htried href hpos htry hsuccess

theorem Sound.attempt (h : Sound ctx nKey s) (addr : NetService) {nTime : Int64}
    (htime : 0 ≤ nTime) : Sound ctx nKey (s.attempt addr nTime) :=
  h.withService addr fun _ _ => ⟨rfl, rfl, rfl, rfl, htime, rfl⟩

theorem Sound.connected (h : Sound ctx nKey s) (addr : NetService) (nTime : Int64) :
    Sound ctx nKey (s.connected addr nTime) := by
  refine h.withService addr fun info htry => ?_
  split
  · exact ⟨rfl, rfl, rfl, rfl, htry, rfl⟩
  · exact ⟨rfl, rfl, rfl, rfl, htry, rfl⟩

theorem Sound.getAddrFrom_spec (rand : Nat → Nat) (nNow : Int) (nNodes left n : Nat)
    (vAddr : List CAddress) (h : Sound ctx nKey s) (hlength : n + left = s.vRandom.length) :
    ∃ r, getAddrFrom rand nNow nNodes left n s vAddr = some r ∧ Sound ctx nKey r.1 := by
  induction left generalizing n s vAddr with
  | zero => exact ⟨(s, vAddr), rfl, h⟩
  | succ left ih =>
    rw [getAddrFrom]
    refine exists_ite ⟨(s, vAddr), rfl, h⟩ fun _ => ?_
    have hpos : rand n % (s.vRandom.length - n) + n < s.vRandom.length := by
      have hmod := Nat.mod_lt (rand n) (show 0 < s.vRandom.length - n by omega)
      omega
    obtain ⟨s₁, hswap, h₁, hsame, -⟩ :=
      Consistent.swapRandom_spec h (show n < s.vRandom.length by omega) hpos
    have hlt : n < s₁.vRandom.length := by
      rw [hsame.size]
      omega
    have hat := List.getElem?_eq_getElem hlt
    have hsome := (h₁.listed.random.mem_iff).mp (List.mem_of_getElem? hat)
    rw [Option.isSome_map] at hsome
    rw [hswap]
    simp only [Option.bind_eq_bind, Option.bind_some, hat, contains_eq, hsome, Bool.not_true,
      Bool.false_eq_true, if_false]
    exact ih _ _ h₁ (by rw [hsame.size]; omega)

theorem Sound.getAddr_spec (h : Sound ctx nKey s) (rand : Nat → Nat) (nNow : Int) :
    ∃ r, s.getAddr rand nNow = some r ∧ Sound ctx nKey r.1 :=
  h.getAddrFrom_spec rand nNow s.nNodes s.vRandom.length 0 [] (Nat.zero_add _)

theorem slotted_empty (ctx : AddrManContext) (nKey : UInt256) (loose : Nat → Prop)
    {e : Nat → Option CAddrInfo} (h : ∀ nId, e nId = none) :
    Slotted ctx nKey loose e (fun _ => none) fun _ => none where
  new_slot slot nId hslot := by cases hslot
  tried_slot slot nId hslot := by cases hslot
  tried nId info hid := by
    rw [h nId] at hid
    cases hid
  new nId info hid := by
    rw [h nId] at hid
    cases hid
  times nId info hid := by
    rw [h nId] at hid
    cases hid

theorem sound_empty (ctx : AddrManContext) (nKey : UInt256) : Sound ctx nKey { nKey := nKey } := by
  have hentries : ∀ nId, ({ nKey := nKey } : CAddrMan).entries nId = none :=
    fun nId => Std.TreeMap.getElem?_emptyc
  refine ⟨⟨rfl, slotted_empty ctx nKey _ hentries, ?_, ?_⟩, ⟨?_, ⟨?_, ?_⟩, ?_⟩⟩
  · rw [TreeTotal.total_empty]
    rfl
  · rw [TreeTotal.total_empty]
    rfl
  · intro ip nId
    simp [hentries]
  · intro p nId
    simp [hentries]
  · intro nId z hz
    simp [hentries] at hz
  · intro nId info hid
    rw [hentries nId] at hid
    cases hid

section Ids

theorem of_ite {α : Type} {c : Prop} [Decidable c] {a b : Option α} {r : α}
    (h : (if c then a else b) = some r) : a = some r ∨ b = some r := by
  split at h
  · exact Or.inl h
  · exact Or.inr h

-- Only a new entry takes an id.
theorem nIdCount_swapRandom {nRndPos1 nRndPos2 : Int}
    (h : s.swapRandom nRndPos1 nRndPos2 = some s') : s'.nIdCount = s.nIdCount := by
  rw [swapRandom] at h
  rcases of_ite h with h | h
  · cases h
    rfl
  rcases of_ite h with h | h
  · cases h
  simp only [Option.bind_eq_bind, Option.bind_eq_some_iff] at h
  obtain ⟨nId1, -, nId2, -, h⟩ := h
  rcases of_ite h with h | h
  · cases h
  · cases h
    rfl

theorem nIdCount_delete (h : s.delete nId = some s') : s'.nIdCount = s.nIdCount := by
  rw [delete] at h
  rcases of_ite h with h | h
  · cases h
  simp only [Option.bind_eq_bind, Option.bind_eq_some_iff] at h
  obtain ⟨s₁, hswap, h⟩ := h
  have hkept := nIdCount_swapRandom hswap
  cases h
  exact hkept

theorem nIdCount_clearNew {slot : Nat × Nat} (h : s.clearNew slot = some s') :
    s'.nIdCount = s.nIdCount := by
  rw [clearNew] at h
  cases hslot : s.vvNew slot with
  | none =>
    rw [hslot] at h
    cases h
    rfl
  | some nIdDelete =>
    rw [hslot] at h
    rcases of_ite h with h | h
    · cases h
    rcases of_ite h with h | h
    · have hkept := nIdCount_delete h
      exact hkept
    · cases h
      rfl

theorem nIdCount_insertNew {source : CNetAddr} {nNow : Int}
    (h : s.insertNew ctx nId source nNow = some s') : s'.nIdCount = s.nIdCount := by
  rw [insertNew] at h
  rcases of_ite h with h | h
  · cases h
    rfl
  rcases of_ite h with h | h
  · simp only [Option.bind_eq_bind, Option.bind_eq_some_iff] at h
    obtain ⟨s₁, hclear, h⟩ := h
    have hkept := nIdCount_clearNew hclear
    cases h
    exact hkept
  rcases of_ite h with h | h
  · exact nIdCount_delete h
  · cases h
    rfl

theorem nIdCount_evict {slot : Nat × Nat} (h : s.evict ctx nId slot = some s') :
    s'.nIdCount = s.nIdCount := by
  rw [evict] at h
  rcases of_ite h with h | h
  · cases h
  simp only [Option.bind_eq_bind, Option.bind_eq_some_iff] at h
  obtain ⟨s₁, hclear, h⟩ := h
  have hkept := nIdCount_clearNew hclear
  rcases of_ite h with h | h
  · cases h
  · cases h
    exact hkept

theorem nIdCount_foldl_dropFromBucket (ctx : AddrManContext) (nId : Nat) (buckets : List Nat)
    (s : CAddrMan) : (buckets.foldl (dropFromBucket ctx nId) s).nIdCount = s.nIdCount := by
  induction buckets generalizing s with
  | nil => rfl
  | cons bucket buckets ih =>
    rw [List.foldl_cons, ih, dropFromBucket]
    split
    · rfl
    · rfl

theorem nIdCount_makeTried (h : s.makeTried ctx nId = some s') : s'.nIdCount = s.nIdCount := by
  have hdrop := nIdCount_foldl_dropFromBucket ctx nId (List.range ADDRMAN_NEW_BUCKET_COUNT) s
  rw [makeTried] at h
  generalize (List.range ADDRMAN_NEW_BUCKET_COUNT).foldl (dropFromBucket ctx nId) s = s₁ at h hdrop
  rcases of_ite h with h | h
  · cases h
  dsimp only at h
  split at h
  · simp only [Option.bind_eq_bind, Option.bind_some] at h
    rcases of_ite h with h | h
    · cases h
    · cases h
      exact hdrop
  · simp only [Option.bind_eq_bind, Option.bind_eq_some_iff] at h
    obtain ⟨s₂, hevict, h⟩ := h
    have hkept := nIdCount_evict hevict
    rcases of_ite h with h | h
    · cases h
    · cases h
      exact hkept.trans hdrop

theorem nIdCount_good {addr : NetService} {nTime : Int64} {nRnd : Nat}
    (h : s.good ctx addr nTime nRnd = some s') : s'.nIdCount = s.nIdCount := by
  rw [good] at h
  split at h
  · cases h
    rfl
  rcases of_ite h with h | h
  · cases h
    rfl
  rcases of_ite h with h | h
  · cases h
    rfl
  rcases of_ite h with h | h
  · have hkept := nIdCount_makeTried h
    exact hkept
  · cases h
    rfl

theorem nIdCount_add {addr : CAddress} {source : CNetAddr} {nTimePenalty nNow : Int} {nRand : Nat}
    {r : CAddrMan × Bool} (h : s.add ctx addr source nTimePenalty nNow nRand = some r) :
    r.1.nIdCount ≤ s.nIdCount + 1 := by
  rw [add] at h
  rcases of_ite h with h | h
  · cases h
    exact Nat.le_succ _
  split at h
  · rcases of_ite h with h | h
    · cases h
      exact Nat.le_succ _
    rcases of_ite h with h | h
    · cases h
      exact Nat.le_succ _
    rcases of_ite h with h | h
    · cases h
      exact Nat.le_succ _
    rcases of_ite h with h | h
    · cases h
      exact Nat.le_succ _
    obtain ⟨s₁, hinsert, rfl⟩ := Option.map_eq_some_iff.mp h
    have hkept := nIdCount_insertNew hinsert
    exact hkept.le.trans (Nat.le_succ _)
  · obtain ⟨s₁, hinsert, rfl⟩ := Option.map_eq_some_iff.mp h
    have hkept := nIdCount_insertNew hinsert
    exact hkept.le

theorem nIdCount_withService (s : CAddrMan) (addr : NetService) (change : CAddrInfo → CAddrInfo) :
    (s.withService addr change).nIdCount = s.nIdCount := by
  rw [CAddrMan.withService]
  split
  · rfl
  · split
    · rfl
    · rfl

theorem nIdCount_getAddrFrom {rand : Nat → Nat} {nNow : Int} {nNodes left n : Nat}
    {vAddr : List CAddress} {r : CAddrMan × List CAddress}
    (h : getAddrFrom rand nNow nNodes left n s vAddr = some r) : r.1.nIdCount = s.nIdCount := by
  induction left generalizing n s vAddr with
  | zero =>
    cases h
    rfl
  | succ left ih =>
    rw [getAddrFrom] at h
    rcases of_ite h with h | h
    · cases h
      rfl
    simp only [Option.bind_eq_bind, Option.bind_eq_some_iff] at h
    obtain ⟨s₁, hswap, nId, -, h⟩ := h
    rcases of_ite h with h | h
    · cases h
    · exact (ih h).trans (nIdCount_swapRandom hswap)

end Ids

end CAddrMan

-- the calls of the address manager, each with the clock and the random numbers it meets
inductive AddrManCall where
  | Add (addr : CAddress) (source : CNetAddr) (nTimePenalty nNow : Int) (nRand : Nat)
  | Good (addr : NetService) (nTime : Int64) (nRnd : Nat)
  | Attempt (addr : NetService) (nTime : Int64)
  | Connected (addr : NetService) (nTime : Int64)
  | GetAddr (rand : Nat → Nat) (nNow : Int)

namespace AddrManCall

-- Times that are stored are of this age.
def Timed : AddrManCall → Prop
  | .Good _ nTime _ => 0 < nTime
  | .Attempt _ nTime => 0 ≤ nTime
  | _ => True

def apply (ctx : AddrManContext) (s : CAddrMan) : AddrManCall → Option CAddrMan
  | .Add addr source nTimePenalty nNow nRand =>
    (s.add ctx addr source nTimePenalty nNow nRand).map Prod.fst
  | .Good addr nTime nRnd => s.good ctx addr nTime nRnd
  | .Attempt addr nTime => some (s.attempt addr nTime)
  | .Connected addr nTime => some (s.connected addr nTime)
  | .GetAddr rand nNow => (s.getAddr rand nNow).map Prod.fst

end AddrManCall

namespace CAddrMan

variable {ctx : AddrManContext} {nKey : UInt256} {s : CAddrMan}

def run (ctx : AddrManContext) (s : CAddrMan) : List AddrManCall → Option CAddrMan
  | [] => some s
  | call :: calls => (call.apply ctx s).bind fun s => run ctx s calls

theorem Sound.apply (h : Sound ctx nKey s) {call : AddrManCall} (htimed : call.Timed) :
    ∃ s', call.apply ctx s = some s' ∧ Sound ctx nKey s' := by
  cases call with
  | Add addr source nTimePenalty nNow nRand =>
    obtain ⟨r, hr, h'⟩ := h.add_spec addr source nTimePenalty nNow nRand
    exact ⟨r.1, by rw [AddrManCall.apply, hr]; rfl, h'⟩
  | Good addr nTime nRnd => exact h.good_spec addr htimed nRnd
  | Attempt addr nTime => exact ⟨_, rfl, h.attempt addr htimed⟩
  | Connected addr nTime => exact ⟨_, rfl, h.connected addr nTime⟩
  | GetAddr rand nNow =>
    obtain ⟨r, hr, h'⟩ := h.getAddr_spec rand nNow
    exact ⟨r.1, by rw [AddrManCall.apply, hr]; rfl, h'⟩

theorem Sound.run {calls : List AddrManCall} (h : Sound ctx nKey s)
    (htimed : ∀ call ∈ calls, call.Timed) :
    ∃ s', s.run ctx calls = some s' ∧ Sound ctx nKey s' := by
  induction calls generalizing s with
  | nil => exact ⟨s, rfl, h⟩
  | cons call calls ih =>
    rw [List.forall_mem_cons] at htimed
    obtain ⟨s₁, hs₁, h₁⟩ := h.apply htimed.1
    rw [CAddrMan.run, hs₁, Option.bind_some]
    exact ih h₁ htimed.2

theorem nIdCount_apply {call : AddrManCall} {s' : CAddrMan} (h : call.apply ctx s = some s') :
    s'.nIdCount ≤ s.nIdCount + 1 := by
  cases call with
  | Add addr source nTimePenalty nNow nRand =>
    obtain ⟨r, hadd, rfl⟩ := Option.map_eq_some_iff.mp h
    exact nIdCount_add hadd
  | Good addr nTime nRnd => exact (nIdCount_good h).le.trans (Nat.le_succ _)
  | Attempt addr nTime =>
    cases h
    exact (s.nIdCount_withService addr _).le.trans (Nat.le_succ _)
  | Connected addr nTime =>
    cases h
    exact (s.nIdCount_withService addr _).le.trans (Nat.le_succ _)
  | GetAddr rand nNow =>
    obtain ⟨r, hget, rfl⟩ := Option.map_eq_some_iff.mp h
    exact (nIdCount_getAddrFrom hget).le.trans (Nat.le_succ _)

theorem nIdCount_run {calls : List AddrManCall} {s' : CAddrMan} (h : s.run ctx calls = some s') :
    s'.nIdCount ≤ s.nIdCount + calls.length := by
  induction calls generalizing s with
  | nil =>
    cases h
    exact Nat.le_refl _
  | cons call calls ih =>
    obtain ⟨s₁, happly, hrun⟩ := Option.bind_eq_some_iff.mp h
    have hstep := nIdCount_apply happly
    have hrest := ih hrun
    rw [List.length_cons]
    omega

end CAddrMan

end AnkerNode
