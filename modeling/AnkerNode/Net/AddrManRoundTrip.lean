import AnkerNode.Net.AddrManRestore

namespace AnkerNode

open ByteStream

namespace CAddrMan

-- the entries in the order of the file
def savedEntries (s : CAddrMan) : List (Nat × CAddrInfo) :=
  newEntries s.mapInfo.toList ++ triedEntries s.mapInfo.toList

def savedInfos (s : CAddrMan) : List CAddrInfo := s.savedEntries.map Prod.snd

-- the number that an entry has in the file
def savedIndex (s : CAddrMan) (nId : Nat) : Nat := (s.savedEntries.map Prod.fst).idxOf nId

def savedTable (s : CAddrMan) (slot : Nat × Nat) : Option Nat := (s.vvNew slot).map s.savedIndex

variable {ctx : AddrManContext} {nKey : UInt256} {s : CAddrMan} {n m j : Nat} {info : CAddrInfo}
  {it : Nat × CAddrInfo}

theorem Sound.refCount_ne_zero_iff (h : Sound ctx nKey s) (hid : s.entries n = some info) :
    info.nRefCount ≠ 0 ↔ info.fInTried = false := by
  constructor
  · intro href
    cases htried : info.fInTried with
    | false => rfl
    | true => exact absurd (h.slotted.tried n info hid htried).1 href
  · intro hnew
    exact (h.slotted.new n info hid hnew).2.2 id

theorem Sound.mem_newEntries (h : Sound ctx nKey s) (it : Nat × CAddrInfo) :
    it ∈ newEntries s.mapInfo.toList ↔ s.entries it.1 = some it.2 ∧ it.2.fInTried = false := by
  rw [newEntries, List.mem_filter, decide_eq_true_eq, mem_toList_iff]
  exact and_congr_right fun hid => h.refCount_ne_zero_iff hid

theorem mem_triedEntries (s : CAddrMan) (it : Nat × CAddrInfo) :
    it ∈ triedEntries s.mapInfo.toList ↔ s.entries it.1 = some it.2 ∧ it.2.fInTried = true := by
  rw [triedEntries, List.mem_filter, mem_toList_iff]

theorem Sound.saved_perm (h : Sound ctx nKey s) : s.savedEntries.Perm s.mapInfo.toList := by
  have htried : triedEntries s.mapInfo.toList =
      s.mapInfo.toList.filter fun it => !decide (it.2.nRefCount ≠ 0) := by
    refine List.filter_congr fun it hit => ?_
    have hiff := h.refCount_ne_zero_iff ((s.mem_toList_iff it.1 it.2).mp hit)
    cases hfInTried : it.2.fInTried <;> simp_all
  rw [savedEntries, htried]
  exact List.filter_append_perm _ s.mapInfo.toList

theorem Sound.mem_saved (h : Sound ctx nKey s) (it : Nat × CAddrInfo) :
    it ∈ s.savedEntries ↔ s.entries it.1 = some it.2 := by
  rw [h.saved_perm.mem_iff, mem_toList_iff]

theorem Sound.saved_nodup (h : Sound ctx nKey s) : (s.savedEntries.map Prod.fst).Nodup :=
  (h.saved_perm.map Prod.fst).nodup_iff.mpr s.keys_nodup

theorem Sound.savedIndex_eq (h : Sound ctx nKey s) (hj : s.savedEntries[j]? = some it) :
    s.savedIndex it.1 = j := by
  obtain ⟨hlt, heq⟩ := List.getElem?_eq_some_iff.mp hj
  have hindex := h.saved_nodup.idxOf_getElem j (by rwa [List.length_map])
  rw [List.getElem_map, heq] at hindex
  exact hindex

theorem Sound.getElem?_savedIndex (h : Sound ctx nKey s) (hid : s.entries n = some info) :
    s.savedEntries[s.savedIndex n]? = some (n, info) := by
  obtain ⟨j, hj⟩ := List.mem_iff_getElem?.mp ((h.mem_saved (n, info)).mpr hid)
  rw [h.savedIndex_eq hj]
  exact hj

theorem Sound.savedIndex_inj (h : Sound ctx nKey s) (hn : s.entries n = some info)
    {info' : CAddrInfo} (hm : s.entries m = some info') (heq : s.savedIndex n = s.savedIndex m) :
    n = m := by
  have hat := h.getElem?_savedIndex hn
  rw [heq, h.getElem?_savedIndex hm, Option.some.injEq, Prod.mk.injEq] at hat
  exact hat.1.symm

theorem Sound.savedInfo (h : Sound ctx nKey s) (hid : s.entries n = some info) :
    s.savedInfos[s.savedIndex n]? = some info := by
  rw [savedInfos, List.getElem?_map, h.getElem?_savedIndex hid]
  rfl

theorem Sound.exists_saved (h : Sound ctx nKey s) (hj : s.savedInfos[j]? = some info) :
    ∃ n, s.entries n = some info ∧ s.savedIndex n = j := by
  rw [savedInfos, List.getElem?_map, Option.map_eq_some_iff] at hj
  obtain ⟨it, hit, rfl⟩ := hj
  exact ⟨it.1, (h.mem_saved _).mp (List.mem_of_getElem? hit), h.savedIndex_eq hit⟩

-- The new entries come first.
theorem Sound.getElem?_newEntries (h : Sound ctx nKey s) (hid : s.entries n = some info)
    (hnew : info.fInTried = false) :
    (newEntries s.mapInfo.toList)[s.savedIndex n]? = some (n, info) := by
  obtain ⟨j, hj⟩ := List.mem_iff_getElem?.mp ((h.mem_newEntries (n, info)).mpr ⟨hid, hnew⟩)
  have hsaved : s.savedEntries[j]? = some (n, info) := by
    rw [savedEntries, List.getElem?_append_left (List.getElem?_eq_some_iff.mp hj).1]
    exact hj
  rw [h.savedIndex_eq hsaved]
  exact hj

theorem sum_map_eq_length_filter {α : Type} {l : List α} {f : α → Nat} {p : α → Bool}
    (h : ∀ a ∈ l, f a = if p a then 1 else 0) : (l.map f).sum = (l.filter p).length := by
  induction l with
  | nil => rfl
  | cons a l ih =>
    obtain ⟨ha, hl⟩ := List.forall_mem_cons.mp h
    rw [List.map_cons, List.sum_cons, ih hl, ha, List.filter_cons]
    split
    · rw [List.length_cons, Nat.add_comm]
    · rw [Nat.zero_add]

theorem Sound.nNew_eq (h : Sound ctx nKey s) : s.nNew = (newEntries s.mapInfo.toList).length := by
  rw [h.countNew, Int.add_zero, TreeTotal.total, newEntries]
  refine congrArg Nat.cast (sum_map_eq_length_filter fun it hit => ?_)
  have hiff := h.refCount_ne_zero_iff ((s.mem_toList_iff it.1 it.2).mp hit)
  rw [isNew]
  cases hfInTried : it.2.fInTried <;> simp_all

theorem Sound.nTried_eq (h : Sound ctx nKey s) :
    s.nTried = (triedEntries s.mapInfo.toList).length := by
  rw [h.countTried, Int.add_zero, TreeTotal.total, triedEntries]
  exact congrArg Nat.cast (sum_map_eq_length_filter fun it _ => rfl)

-- Entries with slots of their own are no more than the slots.
theorem length_le_slots {its : List (Nat × CAddrInfo)} {slots : List (Nat × Nat)}
    (table : Nat × Nat → Option Nat) (hnd : (its.map Prod.fst).Nodup)
    (hslot : ∀ it ∈ its, ∃ slot ∈ slots, table slot = some it.1) :
    its.length ≤ slots.length := by
  have hsubset : its.map Prod.fst ⊆ slots.filterMap table := by
    intro n hn
    obtain ⟨it, hit, rfl⟩ := List.mem_map.mp hn
    obtain ⟨slot, hmem, htable⟩ := hslot it hit
    exact List.mem_filterMap.mpr ⟨slot, hmem, htable⟩
  have hle := (hnd.subperm hsubset).length_le
  rw [List.length_map] at hle
  exact hle.trans (List.length_filterMap_le table slots)

theorem Sound.nNew_lt (h : Sound ctx nKey s) : s.nNew < 2 ^ 31 := by
  have hle : (newEntries s.mapInfo.toList).length ≤ newSlots.length := by
    refine length_le_slots s.vvNew (s.keys_nodup.sublist (List.filter_sublist.map _)) fun it hit => ?_
    obtain ⟨hid, hnew⟩ := (h.mem_newEntries it).mp hit
    obtain ⟨hocc, -, hne⟩ := h.slotted.new it.1 it.2 hid hnew
    refine SlotTable.occ_pos_iff.mp (Nat.pos_of_ne_zero fun hzero => hne id ?_)
    rw [hocc, hzero]
    rfl
  have hlength : newSlots.length = 1024 * 64 :=
    (List.length_product _ _).trans (by rw [List.length_range, List.length_range]; rfl)
  rw [h.nNew_eq]
  omega

theorem Sound.nTried_lt (h : Sound ctx nKey s) : s.nTried < 2 ^ 31 := by
  have hle : (triedEntries s.mapInfo.toList).length ≤ triedSlots.length := by
    refine length_le_slots s.vvTried (s.keys_nodup.sublist (List.filter_sublist.map _))
      fun it hit => ?_
    obtain ⟨hid, htried⟩ := (s.mem_triedEntries it).mp hit
    exact ⟨_, triedSlot_mem ctx nKey it.2, (h.slotted.tried it.1 it.2 hid htried).2.1⟩
  have hlength : triedSlots.length = 256 * 64 :=
    (List.length_product _ _).trans (by rw [List.length_range, List.length_range]; rfl)
  rw [h.nTried_eq]
  omega

theorem Sound.apart (h : Sound ctx nKey s) : s.savedInfos.Pairwise (Apart ctx nKey) := by
  rw [savedInfos, List.pairwise_map]
  refine List.Pairwise.imp_of_mem ?_ (List.pairwise_map.mp h.saved_nodup)
  intro x y hx hy hne
  have hidx := (h.mem_saved _).mp hx
  have hidy := (h.mem_saved _).mp hy
  constructor
  · intro hip
    have haddr := (h.listed.addr y.2.ip x.1).mpr ⟨x.2, hidx, hip⟩
    rw [(h.listed.addr y.2.ip y.1).mpr ⟨y.2, hidy, rfl⟩, Option.some.injEq] at haddr
    exact hne haddr.symm
  · intro htx hty hslot
    have hat := (h.slotted.tried x.1 x.2 hidx htx).2.1
    rw [hslot, (h.slotted.tried y.1 y.2 hidy hty).2.1, Option.some.injEq] at hat
    exact hne hat.symm

theorem Sound.occ_savedTable (h : Sound ctx nKey s) (hid : s.entries n = some info) :
    SlotTable.occ newSlots s.savedTable (s.savedIndex n) = SlotTable.occ newSlots s.vvNew n := by
  refine SlotTable.occ_map s.savedIndex n fun slot _ m hm heq => ?_
  obtain ⟨-, info', hid', -⟩ := h.slotted.new_slot slot m hm
  exact h.savedIndex_inj hid' hid heq

theorem Sound.savedTable_eq_some (h : Sound ctx nKey s) {slot : Nat × Nat}
    (hslot : s.savedTable slot = some j) :
    slot ∈ newSlots ∧ ∃ n info, s.vvNew slot = some n ∧ s.savedIndex n = j ∧
      s.entries n = some info ∧ info.fInTried = false ∧ slot = ctx.newSlot nKey info slot.1 := by
  obtain ⟨n, hn, hj⟩ := Option.map_eq_some_iff.mp hslot
  obtain ⟨-, info, hid, hnew, heq⟩ := h.slotted.new_slot slot n hn
  exact ⟨h.slotted.slot_mem hn, n, info, hn, hj, hid, hnew, heq⟩

theorem Sound.fits (h : Sound ctx nKey s) : Fits ctx nKey s.nNew s.savedInfos s.savedTable where
  own slot j hslot := by
    obtain ⟨-, n, info, -, rfl, hid, hnew, heq⟩ := h.savedTable_eq_some hslot
    refine ⟨?_, info, h.savedInfo hid, heq⟩
    rw [h.nNew_eq]
    exact Int.ofNat_lt.mpr (List.getElem?_eq_some_iff.mp (h.getElem?_newEntries hid hnew)).1
  room j := by
    by_cases hpos : 0 < SlotTable.occ newSlots s.savedTable j
    · obtain ⟨slot, -, hslot⟩ := SlotTable.occ_pos_iff.mp hpos
      obtain ⟨-, n, info, -, rfl, hid, hnew, -⟩ := h.savedTable_eq_some hslot
      obtain ⟨hocc, hle, -⟩ := h.slotted.new n info hid hnew
      rw [h.occ_savedTable hid, ← hocc]
      exact hle
    · rw [Nat.eq_zero_of_not_pos hpos]
      decide

end CAddrMan

namespace CAddrMan

variable {ctx : AddrManContext} {nKey : UInt256} {s s' : CAddrMan} {nNew nTried : Int}
  {infos : List CAddrInfo} {ref : Nat → Int} {vvNew : Nat × Nat → Option Nat}

theorem Sound.serializeBucket_eq (h : Sound ctx nKey s) {mapUnkIds : Nat → Int}
    (hids : ∀ (k : Nat) it, (newEntries s.mapInfo.toList)[k]? = some it → mapUnkIds it.1 = k)
    (bucket : Nat) : s.serializeBucket mapUnkIds bucket = bucketBytes s.savedTable bucket := by
  have htable : (bucketSlots bucket).filterMap s.savedTable =
      ((List.range ADDRMAN_BUCKET_SIZE).filterMap fun i => s.vvNew (bucket, i)).map
        s.savedIndex := by
    rw [bucketSlots, List.filterMap_map, List.map_filterMap]
    rfl
  have hindex : ∀ n ∈ (List.range ADDRMAN_BUCKET_SIZE).filterMap fun i => s.vvNew (bucket, i),
      mapUnkIds n = s.savedIndex n := by
    intro n hn
    obtain ⟨i, -, hi⟩ := List.mem_filterMap.mp hn
    obtain ⟨-, info, hid, hnew, -⟩ := h.slotted.new_slot _ n hi
    exact hids _ _ (h.getElem?_newEntries hid hnew)
  rw [serializeBucket, bucketBytes, htable, List.length_map, List.flatMap_map]
  refine congrArg _ (List.flatMap_congr fun n hn => ?_)
  rw [hindex n hn]

-- No assertion of `Serialize` fails.
theorem Sound.serialize_eq (h : Sound ctx nKey s) (nVersion : UInt32) :
    s.serialize nVersion = some ([1] ++ ([32] ++ (writeLE 32 nKey.toNat ++ (writeInt s.nNew ++
      (writeInt s.nTried ++ (writeLE 4 (ADDRMAN_NEW_BUCKET_COUNT ^^^ 2 ^ 30) ++
        (((newEntries s.mapInfo.toList).flatMap fun it => it.2.serialize nVersion) ++
          (((triedEntries s.mapInfo.toList).flatMap fun it => it.2.serialize nVersion) ++
            (List.range ADDRMAN_NEW_BUCKET_COUNT).flatMap (bucketBytes s.savedTable))))))))) := by
  have hroom : 0 + ((newEntries s.mapInfo.toList).length : Int) ≤ s.nNew := by
    rw [h.nNew_eq, Int.zero_add]
  have hroomTried : 0 + ((triedEntries s.mapInfo.toList).length : Int) ≤ s.nTried := by
    rw [h.nTried_eq, Int.zero_add]
  obtain ⟨mapUnkIds, hnew, hids, -⟩ :=
    serializeNew_spec nVersion (fun _ => 0) s.keys_nodup hroom
  have hbucket : s.serializeBucket mapUnkIds = bucketBytes s.savedTable := by
    funext bucket
    refine h.serializeBucket_eq (fun k it hk => ?_) bucket
    rw [hids k it hk, Int.zero_add]
  rw [serialize, hnew, serializeTried_eq nVersion hroomTried, h.key]
  simp only [Option.bind_eq_bind, Option.bind_some, hbucket]

-- Entries that are in a bucket are not pruned.
theorem Restored.prune (h : Restored ctx nKey nNew nTried infos ref vvNew s)
    (hkept : ∀ j info, infos[j]? = some info → info.fInTried = false → ref j ≠ 0) :
    s.prune = some s := by
  have hall : ∀ n ∈ s.mapInfo.toList.map Prod.fst, pruneEntry s n = some s := by
    intro n hn
    obtain ⟨⟨n, x⟩, hmem, rfl⟩ := List.mem_map.mp hn
    have hid := (s.mem_toList_iff n x).mp hmem
    have hat := h.entries n
    rw [hid] at hat
    obtain ⟨info, hinfo, rfl⟩ := Option.map_eq_some_iff.mp hat.symm
    rw [pruneEntry, entry_eq hid, if_neg fun hboth => hkept n info hinfo hboth.1 hboth.2]
  rw [CAddrMan.prune]
  generalize s.mapInfo.toList.map Prod.fst = ns at hall
  induction ns with
  | nil => rfl
  | cons n ns ih =>
    obtain ⟨hn, hns⟩ := List.forall_mem_cons.mp hall
    rw [List.foldlM_cons, hn]
    exact ih hns

theorem Restored.listed (h : Restored ctx nKey nNew nTried infos ref vvNew s)
    (hcount : s.nIdCount = infos.length) : s.Listed where
  addr ip j := by
    rw [h.addr ip j, h.entries j]
    simp only [Option.map_eq_some_iff]
    constructor
    · rintro ⟨info, hj, hip⟩
      exact ⟨_, ⟨info, hj, rfl⟩, hip⟩
    · rintro ⟨x, ⟨info, hj, rfl⟩, hip⟩
      exact ⟨info, hj, hip⟩
  random := by
    refine ⟨fun p j => ?_, fun j z hz => ?_⟩
    · rw [h.random, h.entries j, Option.map_map, Option.map_eq_some_iff, List.getElem?_eq_some_iff]
      constructor
      · rintro ⟨hlt, heq⟩
        rw [List.length_range] at hlt
        rw [List.getElem_range] at heq
        subst heq
        exact ⟨infos[p], List.getElem?_eq_getElem hlt, rfl⟩
      · rintro ⟨info, hinfo, heq⟩
        obtain rfl : j = p := Int.ofNat_inj.mp heq
        have hlt := (List.getElem?_eq_some_iff.mp hinfo).1
        exact ⟨by rwa [List.length_range], List.getElem_range _⟩
    · rw [h.entries j] at hz
      obtain ⟨x, hx, rfl⟩ := Option.map_eq_some_iff.mp hz
      obtain ⟨info, -, rfl⟩ := Option.map_eq_some_iff.mp hx
      exact Int.natCast_nonneg j
  fresh j x hx := by
    rw [h.entries j] at hx
    obtain ⟨info, hinfo, -⟩ := Option.map_eq_some_iff.mp hx
    rw [hcount]
    exact (List.getElem?_eq_some_iff.mp hinfo).1

-- the saved entries, all of their slots read
def Reloaded (ctx : AddrManContext) (nKey : UInt256) (s s' : CAddrMan) : Prop :=
  Restored ctx nKey s.nNew s.nTried s.savedInfos
    (fun j => SlotTable.occ newSlots s.savedTable j) s.savedTable s'

theorem Reloaded.exists_saved (hs : Sound ctx nKey s) (h : Reloaded ctx nKey s s') {j : Nat}
    {x : CAddrInfo} (hx : s'.entries j = some x) : ∃ n info, s.entries n = some info ∧
      s.savedIndex n = j ∧ x = info.restored (SlotTable.occ newSlots s.vvNew n) j := by
  rw [h.entries j] at hx
  obtain ⟨info, hinfo, rfl⟩ := Option.map_eq_some_iff.mp hx
  obtain ⟨n, hid, rfl⟩ := hs.exists_saved hinfo
  exact ⟨n, info, hid, rfl, by rw [hs.occ_savedTable hid]⟩

theorem Reloaded.slotted (hs : Sound ctx nKey s) (h : Reloaded ctx nKey s s') :
    Slotted ctx nKey (fun _ => False) s'.entries s'.vvNew s'.vvTried where
  new_slot slot j hslot := by
    rw [h.vvNew_eq] at hslot
    obtain ⟨hmem, n, info, -, rfl, hid, hnew, heq⟩ := hs.savedTable_eq_some hslot
    have hbucket : slot.1 < ADDRMAN_NEW_BUCKET_COUNT :=
      List.mem_range.mp (List.mem_product.mp hmem).1
    exact ⟨hbucket, _, h.entry (hs.savedInfo hid), hnew, heq⟩
  tried_slot slot j hslot := by
    obtain ⟨info, hj, htried, heq⟩ := (h.vvTried_iff slot j).mp hslot
    exact ⟨_, h.entry hj, htried, heq.symm⟩
  tried j x hx htried := by
    obtain ⟨n, info, hid, rfl, rfl⟩ := h.exists_saved hs hx
    obtain ⟨-, -, hgood⟩ := hs.slotted.tried n info hid htried
    refine ⟨?_, (h.vvTried_iff _ _).mpr ⟨info, hs.savedInfo hid, htried, rfl⟩, hgood⟩
    rw [CAddrInfo.restored, hs.slotted.occ_eq_zero hid htried]
    rfl
  new j x hx hnew := by
    obtain ⟨n, info, hid, rfl, rfl⟩ := h.exists_saved hs hx
    obtain ⟨hocc, hle, hne⟩ := hs.slotted.new n info hid hnew
    rw [h.vvNew_eq, hs.occ_savedTable hid, CAddrInfo.restored, ← hocc]
    exact ⟨rfl, hle, hne⟩
  times j x hx := by
    obtain ⟨n, info, hid, rfl, rfl⟩ := h.exists_saved hs hx
    exact ⟨Int64.le_refl 0, (hs.slotted.times n info hid).2⟩

-- What is read back is the state that was saved, under other numbers.
theorem Reloaded.sound (hs : Sound ctx nKey s) (h : Reloaded ctx nKey s s')
    (hcount : s'.nIdCount = s.savedInfos.length) : Sound ctx nKey s' := by
  have hperm : s.savedInfos.Perm (s.mapInfo.toList.map Prod.snd) := hs.saved_perm.map Prod.snd
  refine ⟨⟨h.key, h.slotted hs, ?_, ?_⟩, h.listed hcount⟩
  · rw [h.new, hs.countNew, h.totalNew, (hperm.map isNew).sum_eq, List.map_map]
    rfl
  · rw [h.tried, hs.countTried, h.totalTried, (hperm.map isTried).sum_eq, List.map_map]
    rfl

-- the new addresses, or the tried ones, as the disk knows them
def addresses (s : CAddrMan) (fInTried : Bool) : Set CAddrInfo :=
  {record | ∃ n info, s.entries n = some info ∧ info.fInTried = fInTried ∧ record = info.onDisk}

theorem Reloaded.addresses_eq (hs : Sound ctx nKey s) (h : Reloaded ctx nKey s s')
    (fInTried : Bool) : s'.addresses fInTried = s.addresses fInTried := by
  ext record
  constructor
  · rintro ⟨j, x, hx, htried, rfl⟩
    obtain ⟨n, info, hid, -, rfl⟩ := h.exists_saved hs hx
    exact ⟨n, info, hid, htried, rfl⟩
  · rintro ⟨n, info, hid, htried, rfl⟩
    exact ⟨s.savedIndex n, _, h.entry (hs.savedInfo hid), htried, rfl⟩

theorem Reloaded.of_placed (hs : Sound ctx nKey s)
    (h : Placed ctx nKey s.nNew s.nTried s.savedInfos s.savedTable newSlots s') :
    Reloaded ctx nKey s s' := by
  refine Restored.congr h rfl (funext fun slot => ?_)
  cases hslot : s.savedTable slot with
  | none => rw [ite_self]
  | some j => rw [if_pos (hs.savedTable_eq_some hslot).1]

theorem Reloaded.prune (hs : Sound ctx nKey s) (h : Reloaded ctx nKey s s') :
    s'.prune = some s' := by
  refine Restored.prune h fun j info hj hnew => ?_
  obtain ⟨n, hid, rfl⟩ := hs.exists_saved hj
  obtain ⟨hocc, -, hne⟩ := hs.slotted.new n info hid hnew
  rw [hs.occ_savedTable hid, ← hocc]
  exact hne id

theorem Sound.parses_entries (h : Sound ctx nKey s) (nVersion : UInt32) (nKey' : UInt256) :
    ∃ s₁ s₂ s₃, Parses (unserializeNew ctx true s.nNew.toNat 0
        { ({ nKey := nKey' } : CAddrMan).clear nKey with nNew := s.nNew, nTried := s.nTried })
          ((newEntries s.mapInfo.toList).flatMap fun it => it.2.serialize nVersion) s₁ ∧
      Parses (unserializeTried ctx s.nTried.toNat 0 { s₁ with nIdCount := s.nNew.toNat })
        ((triedEntries s.mapInfo.toList).flatMap fun it => it.2.serialize nVersion) (s₂, 0) ∧
      Parses (unserializeBuckets ctx true ADDRMAN_NEW_BUCKET_COUNT 0 s₂)
        ((List.range ADDRMAN_NEW_BUCKET_COUNT).flatMap (bucketBytes s.savedTable)) s₃ ∧
      Reloaded ctx nKey s s₃ ∧ s₃.nIdCount = s.savedInfos.length ∧ s₂.nTried = s.nTried := by
  have hsplit : s.savedInfos = (newEntries s.mapInfo.toList).map Prod.snd ++
      (triedEntries s.mapInfo.toList).map Prod.snd := List.map_append
  have hapart := h.apart
  rw [hsplit] at hapart
  have hnNew : s.nNew.toNat = ((newEntries s.mapInfo.toList).map Prod.snd).length := by
    rw [h.nNew_eq, Int.toNat_natCast, List.length_map]
  have hnTried : s.nTried.toNat = ((triedEntries s.mapInfo.toList).map Prod.snd).length := by
    rw [h.nTried_eq, Int.toNat_natCast, List.length_map]
  have hnew : ∀ x ∈ (newEntries s.mapInfo.toList).map Prod.snd, x.fInTried = false := by
    intro x hx
    obtain ⟨it, hit, rfl⟩ := List.mem_map.mp hx
    exact ((h.mem_newEntries it).mp hit).2
  have htried : ∀ x ∈ (triedEntries s.mapInfo.toList).map Prod.snd, x.fInTried = true := by
    intro x hx
    obtain ⟨it, hit, rfl⟩ := List.mem_map.mp hx
    exact ((s.mem_triedEntries it).mp hit).2
  obtain ⟨s₁, hparses₁, h₁⟩ := (restored_clear ctx nKey nKey' s.nNew s.nTried).parses_unserializeNew
    hnew (List.pairwise_append.mp hapart).1
  have hrenumbered : Restored ctx nKey s.nNew s.nTried
      ((newEntries s.mapInfo.toList).map Prod.snd) (fun _ => 0) (fun _ => none)
      { s₁ with nIdCount := s.nNew.toNat } :=
    ⟨h₁.key, h₁.new, h₁.tried, h₁.entries, h₁.addr, h₁.random, h₁.vvNew_eq, h₁.vvTried_iff,
      h₁.totalNew, h₁.totalTried⟩
  obtain ⟨s₂, hparses₂, h₂, hcount₂⟩ := hrenumbered.parses_unserializeTried 0 hnNew htried hapart
  rw [← hsplit] at h₂ hcount₂
  have hplaced : Placed ctx nKey s.nNew s.nTried s.savedInfos s.savedTable [] s₂ :=
    h₂.congr rfl (funext fun slot => (if_neg List.not_mem_nil).symm)
  obtain ⟨s₃, hparses₃, h₃, hcount₃⟩ := hplaced.parses_unserializeBuckets h.fits h.nNew_lt
    ADDRMAN_NEW_BUCKET_COUNT (by rw [List.nil_append, ← newSlots_eq])
  rw [List.nil_append, ← newSlots_eq] at h₃
  rw [hnNew, hnTried, List.range_eq_range']
  rw [hnNew] at hparses₂
  rw [List.flatMap_map] at hparses₁ hparses₂
  exact ⟨s₁, s₂, s₃, hparses₁, hparses₂, hparses₃, Reloaded.of_placed h h₃,
    hcount₃.trans hcount₂, h₂.tried⟩

theorem toInt32_newBuckets :
    toInt32 (if (1 : UInt8) ≠ 0 then (ADDRMAN_NEW_BUCKET_COUNT ^^^ 2 ^ 30) ^^^ 2 ^ 30
      else ADDRMAN_NEW_BUCKET_COUNT ^^^ 2 ^ 30) = ADDRMAN_NEW_BUCKET_COUNT := by
  decide

theorem parses_lift {α : Type} {o : Option α} {a : α} (h : o = some a) :
    Parses (StateT.lift o) [] a := by
  rw [h]
  exact fun _ => rfl

theorem Sound.parses_unserialize (h : Sound ctx nKey s) (nVersion : UInt32) (nKey' : UInt256) :
    ∃ bytes s', s.serialize nVersion = some bytes ∧
      Parses (unserialize ctx { nKey := nKey' }) bytes s' ∧ Reloaded ctx nKey s s' ∧
        s'.nIdCount = s.savedInfos.length := by
  obtain ⟨s₁, s₂, s₃, hnew, htried, hbuckets, hreloaded, hcount, hnum⟩ :=
    h.parses_entries nVersion nKey'
  have hnonneg : 0 ≤ s.nNew := by
    rw [h.nNew_eq]
    exact Int.natCast_nonneg _
  have hnonnegTried : 0 ≤ s.nTried := by
    rw [h.nTried_eq]
    exact Int.natCast_nonneg _
  have hnNew := h.nNew_lt
  have hnTried := h.nTried_lt
  have hkey : BitVec.ofNat 256 nKey.toNat = nKey := by rw [BitVec.ofNat_toNat, BitVec.setWidth_eq]
  have hkeyLt : nKey.toNat < 256 ^ 32 := by
    have hlt := nKey.isLt
    norm_num at hlt ⊢
    exact hlt
  have hsame : { s₂ with nTried := s.nTried - 0 } = s₂ := by rw [Int.sub_zero, ← hnum]
  refine ⟨_, s₃, h.serialize_eq nVersion, ?_, hreloaded, hcount⟩
  refine parses_bind (parses_readByte 1) (parses_bind (parses_readByte 32) ?_)
  rw [if_neg (by decide)]
  refine parses_bind (parses_readLE 32 nKey.toNat hkeyLt) ?_
  refine parses_bind (parses_readInt ⟨by omega, hnNew⟩) ?_
  refine parses_bind (parses_readInt ⟨by omega, hnTried⟩) ?_
  refine parses_bind (parses_readLE 4 (ADDRMAN_NEW_BUCKET_COUNT ^^^ 2 ^ 30) (by decide)) ?_
  rw [if_neg (by omega)]
  dsimp only
  rw [toInt32_newBuckets, hkey, decide_eq_true ⟨rfl, rfl⟩]
  refine parses_bind hnew (parses_bind htried ?_)
  rw [← List.append_nil (List.flatMap _ _), hsame]
  exact parses_bind hbuckets (parses_lift (hreloaded.prune h))

-- After every run the check passes, and what is saved then comes back. The ids are below the
-- number of calls.
theorem check_after_run (ctx : AddrManContext) {nKey : UInt256} (hkey : nKey ≠ 0)
    {calls : List AddrManCall} (htimed : ∀ call ∈ calls, call.Timed) (nVersion : UInt32)
    (nKey' : UInt256) :
    ∃ s bytes s', run ctx { nKey := nKey } calls = some s ∧ s.check ctx = 0 ∧
      s.nIdCount ≤ calls.length ∧ s.serialize nVersion = some bytes ∧
        Parses (unserialize ctx { nKey := nKey' }) bytes s' ∧ s'.check ctx = 0 ∧
          ∀ fInTried, s'.addresses fInTried = s.addresses fInTried := by
  obtain ⟨s, hrun, hsound⟩ := (sound_empty ctx nKey).run htimed
  obtain ⟨bytes, s', hbytes, hparses, hreloaded, hcount⟩ := hsound.parses_unserialize nVersion nKey'
  have hsound' : Sound ctx nKey s' := hreloaded.sound hsound hcount
  refine ⟨s, bytes, s', hrun, ?_, ?_, hbytes, hparses, ?_, hreloaded.addresses_eq hsound⟩
  · rw [hsound.check_eq, if_neg hkey]
  · exact (nIdCount_run hrun).trans (Nat.zero_add _).le
  · rw [hsound'.check_eq, if_neg hkey]

-- hashes that send everything to the first slot
def constantHashes : AddrManContext where
  getGroup _ := []
  isRoutable _ := true
  hashKey _ _ := 0
  hashGroup _ _ _ := 0
  hashSource _ _ _ := 0
  hashPosition _ _ _ _ := 0

theorem check_after_one_good : (1 : UInt256) ≠ 0 ∧
    ∃ s bytes s', run constantHashes { nKey := 1 } [.Add { ip := 7 } 9 0 50 0, .Good ⟨7, 0⟩ 60 3] =
        some s ∧ s.check constantHashes = 0 ∧ s.nIdCount ≤ 2 ∧ s.serialize 70000 = some bytes ∧
      Parses (unserialize constantHashes { nKey := 5 }) bytes s' ∧ s'.check constantHashes = 0 ∧
        ∀ fInTried, s'.addresses fInTried = s.addresses fInTried := by
  refine ⟨by decide, check_after_run constantHashes (by decide) (fun call hcall => ?_) 70000 5⟩
  rcases List.mem_pair.mp hcall with rfl | rfl
  · exact trivial
  · exact (by decide : (0 : Int64) < 60)

-- A try before 1970, or a key that is null, and the check fails.
theorem check_after_early_attempt :
    (run constantHashes { nKey := 1 } [.Add { ip := 7 } 9 0 50 0, .Attempt ⟨7, 0⟩ (-1)]).map
        (check constantHashes) = some (-6) ∧
      (run constantHashes { nKey := 0 } []).map (check constantHashes) = some (-16) := by
  refine ⟨by decide +kernel, ?_⟩
  rw [run, Option.map_some, (sound_empty constantHashes 0).check_eq, if_pos rfl]

end CAddrMan

end AnkerNode
