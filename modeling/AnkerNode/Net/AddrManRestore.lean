import AnkerNode.Net.AddrManCheck
import AnkerNode.Net.AddrManDisk

namespace AnkerNode

open ByteStream

-- an entry as it stands in memory again, at its number in the file
def CAddrInfo.restored (info : CAddrInfo) (nRefCount : Int) (j : Nat) : CAddrInfo :=
  { info.onDisk with fInTried := info.fInTried, nRefCount := nRefCount, nRandomPos := j }

-- Two entries that do not get in each other's way.
def Apart (ctx : AddrManContext) (nKey : UInt256) (x y : CAddrInfo) : Prop :=
  x.ip ≠ y.ip ∧
    (x.fInTried = true → y.fInTried = true → ctx.triedSlot nKey x ≠ ctx.triedSlot nKey y)

namespace CAddrMan

-- The entries `infos` have been read, and nothing else.
structure Restored (ctx : AddrManContext) (nKey : UInt256) (nNew nTried : Int)
    (infos : List CAddrInfo) (ref : Nat → Int) (vvNew : Nat × Nat → Option Nat) (s : CAddrMan) :
    Prop where
  key : s.nKey = nKey
  new : s.nNew = nNew
  tried : s.nTried = nTried
  entries : ∀ j, s.entries j = (infos[j]?).map fun info => info.restored (ref j) j
  addr : ∀ ip j, s.mapAddr ip = some j ↔ ∃ info, infos[j]? = some info ∧ info.ip = ip
  random : s.vRandom = List.range infos.length
  vvNew_eq : s.vvNew = vvNew
  vvTried_iff : ∀ slot j, s.vvTried slot = some j ↔
    ∃ info, infos[j]? = some info ∧ info.fInTried = true ∧ ctx.triedSlot nKey info = slot
  totalNew : TreeTotal.total isNew s.mapInfo = (infos.map isNew).sum
  totalTried : TreeTotal.total isTried s.mapInfo = (infos.map isTried).sum

variable {ctx : AddrManContext} {nKey : UInt256} {nNew nTried : Int} {infos more : List CAddrInfo}
  {ref : Nat → Int} {vvNew : Nat × Nat → Option Nat} {s s' : CAddrMan} {info : CAddrInfo}
  {nVersion : UInt32} {slot : Nat × Nat} {j : Nat}

theorem getElem?_snoc (infos : List CAddrInfo) (info : CAddrInfo) (j : Nat) :
    (infos ++ [info])[j]? = if j = infos.length then some info else infos[j]? := by
  rw [List.getElem?_append]
  split
  · rename_i hlt
    rw [if_neg (Nat.ne_of_lt hlt)]
  · rename_i hge
    by_cases hj : j = infos.length
    · simp [hj]
    · rw [if_neg hj, List.getElem?_eq_none (by simp; omega), List.getElem?_eq_none (by omega)]

theorem restored_clear (ctx : AddrManContext) (nKey nKey' : UInt256) (nNew nTried : Int) :
    Restored ctx nKey nNew nTried [] (fun _ => 0) (fun _ => none)
      { ({ nKey := nKey' } : CAddrMan).clear nKey with nNew := nNew, nTried := nTried } where
  key := rfl
  new := rfl
  tried := rfl
  entries j := Std.TreeMap.getElem?_emptyc
  addr ip j := by simp [clear]
  random := rfl
  vvNew_eq := rfl
  vvTried_iff slot j := by simp [clear]
  totalNew := TreeTotal.total_empty
  totalTried := TreeTotal.total_empty

theorem Restored.fresh (h : Restored ctx nKey nNew nTried infos ref vvNew s) :
    s.mapInfo[infos.length]? = none := by
  have hnone := h.entries infos.length
  rw [List.getElem?_eq_none (Nat.le_refl _)] at hnone
  exact hnone

-- One more entry is read.
theorem Restored.snoc (h : Restored ctx nKey nNew nTried infos (fun _ => 0) vvNew s)
    (hip : ∀ x ∈ infos, x.ip ≠ info.ip) (hkey : s'.nKey = s.nKey) (hnew : s'.nNew = s.nNew)
    (hnum : s'.nTried = s.nTried)
    (hinfo : s'.mapInfo = s.mapInfo.insert infos.length (info.restored 0 infos.length))
    (haddr : s'.mapAddr = Function.update s.mapAddr info.ip (some infos.length))
    (hrandom : s'.vRandom = s.vRandom ++ [infos.length]) (hvvNew : s'.vvNew = s.vvNew)
    (htried : s'.vvTried = if info.fInTried then
      Function.update s.vvTried (ctx.triedSlot nKey info) (some infos.length) else s.vvTried)
    (hfree : info.fInTried = true → s.vvTried (ctx.triedSlot nKey info) = none) :
    Restored ctx nKey nNew nTried (infos ++ [info]) (fun _ => 0) vvNew s' where
  key := hkey.trans h.key
  new := hnew.trans h.new
  tried := hnum.trans h.tried
  entries j := by
    have hold := h.entries j
    have hentries : s'.entries = Function.update s.entries infos.length
        (some (info.restored 0 infos.length)) := by
      change (fun nId => s'.mapInfo[nId]?) = _
      rw [hinfo]
      exact entries_insert s.mapInfo infos.length _
    rw [hentries, getElem?_snoc, Function.update_apply]
    split
    · rename_i hj
      rw [hj]
      rfl
    · exact hold
  addr ip j := by
    have hold := h.addr ip j
    have hsome : ∀ x, infos[j]? = some x → j < infos.length ∧ x ∈ infos := fun x hx =>
      ⟨(List.getElem?_eq_some_iff.mp hx).1, List.mem_of_getElem? hx⟩
    rw [haddr, getElem?_snoc, Function.update_apply]
    grind
  random := by
    rw [hrandom, h.random, List.length_append, List.length_singleton, List.range_succ]
  vvNew_eq := hvvNew.trans h.vvNew_eq
  vvTried_iff slot j := by
    have hold := h.vvTried_iff slot j
    have hsome : ∀ x, infos[j]? = some x → j < infos.length := fun x hx =>
      (List.getElem?_eq_some_iff.mp hx).1
    rw [htried, getElem?_snoc]
    grind [Function.update_apply]
  totalNew := by
    have hsame : isNew (info.restored 0 infos.length) = isNew info := rfl
    rw [hinfo, TreeTotal.total_insert h.fresh, h.totalNew, hsame, List.map_append, List.sum_append,
      List.map_singleton, List.sum_singleton, Nat.add_comm]
  totalTried := by
    have hsame : isTried (info.restored 0 infos.length) = isTried info := rfl
    rw [hinfo, TreeTotal.total_insert h.fresh, h.totalTried, hsame, List.map_append,
      List.sum_append, List.map_singleton, List.sum_singleton, Nat.add_comm]

theorem Restored.entry (h : Restored ctx nKey nNew nTried infos ref vvNew s)
    (hj : infos[j]? = some info) : s.entries j = some (info.restored (ref j) j) := by
  rw [h.entries j, hj]
  rfl

theorem Restored.entry_length (h : Restored ctx nKey nNew nTried infos ref vvNew s) :
    s.entry infos.length = {} := by
  rw [CAddrMan.entry, Std.TreeMap.getD_eq_getD_getElem?, h.fresh]
  rfl

theorem Restored.parses_unserializeNew
    (h : Restored ctx nKey nNew nTried infos (fun _ => 0) vvNew s)
    (hnew : ∀ x ∈ more, x.fInTried = false) (hapart : (infos ++ more).Pairwise (Apart ctx nKey)) :
    ∃ s', Parses (unserializeNew ctx true more.length infos.length s)
        (more.flatMap (CAddrInfo.serialize nVersion)) s' ∧
      Restored ctx nKey nNew nTried (infos ++ more) (fun _ => 0) vvNew s' := by
  induction more generalizing infos s with
  | nil => exact ⟨s, parses_pure s, by rwa [List.append_nil]⟩
  | cons info more ih =>
    obtain ⟨hinfo, hmore⟩ := List.forall_mem_cons.mp hnew
    rw [List.append_cons] at hapart ⊢
    have hip : ∀ x ∈ infos, x.ip ≠ info.ip := by
      intro x hx
      have hpair := (List.pairwise_append.mp (List.pairwise_append.mp hapart).1).2.2
      exact (hpair x hx info (List.mem_singleton.mpr rfl)).1
    have hread := CAddrInfo.parses_unserialize nVersion info (s.entry infos.length)
    rw [h.entry_length] at hread
    have hlength : s.vRandom.length = infos.length := by rw [h.random, List.length_range]
    have hstep : Restored ctx nKey nNew nTried (infos ++ [info]) (fun _ => 0) vvNew { s with
        mapInfo := s.mapInfo.insert infos.length { info.onDisk with nRandomPos := s.vRandom.length }
        mapAddr := Function.update s.mapAddr info.ip (some infos.length)
        vRandom := s.vRandom ++ [infos.length] } := by
      refine h.snoc hip rfl rfl rfl ?_ rfl rfl rfl ?_ ?_
      · rw [hlength, CAddrInfo.restored, hinfo]
        rfl
      · rw [hinfo]
        rfl
      · intro htried
        rw [hinfo] at htried
        cases htried
    obtain ⟨s', hparses, hrestored⟩ := ih hstep hmore hapart
    rw [List.length_append, List.length_singleton] at hparses
    refine ⟨s', ?_, hrestored⟩
    rw [List.length_cons, unserializeNew, List.flatMap_cons]
    refine parses_bind ?_ hparses
    rw [h.entry_length]
    exact hread

-- A tried slot is free for an entry apart from all that are read.
theorem Restored.free (h : Restored ctx nKey nNew nTried infos ref vvNew s)
    (hapart : ∀ x ∈ infos, Apart ctx nKey x info) (htried : info.fInTried = true) :
    s.vvTried (ctx.triedSlot nKey info) = none := by
  cases hslot : s.vvTried (ctx.triedSlot nKey info) with
  | none => rfl
  | some j =>
    obtain ⟨x, hx, hxtried, heq⟩ := (h.vvTried_iff _ j).mp hslot
    exact absurd heq ((hapart x (List.mem_of_getElem? hx)).2 hxtried htried)

theorem Restored.parses_unserializeTried (nLost : Int)
    (h : Restored ctx nKey nNew nTried infos (fun _ => 0) vvNew s)
    (hcount : s.nIdCount = infos.length) (htried : ∀ x ∈ more, x.fInTried = true)
    (hapart : (infos ++ more).Pairwise (Apart ctx nKey)) :
    ∃ s', Parses (unserializeTried ctx more.length nLost s)
        (more.flatMap (CAddrInfo.serialize nVersion)) (s', nLost) ∧
      Restored ctx nKey nNew nTried (infos ++ more) (fun _ => 0) vvNew s' ∧
      s'.nIdCount = (infos ++ more).length := by
  induction more generalizing infos s with
  | nil => exact ⟨s, parses_pure (s, nLost), by rwa [List.append_nil], by rwa [List.append_nil]⟩
  | cons info more ih =>
    obtain ⟨hinfo, hmore⟩ := List.forall_mem_cons.mp htried
    rw [List.append_cons] at hapart ⊢
    have hpair : ∀ x ∈ infos, Apart ctx nKey x info := fun x hx =>
      (List.pairwise_append.mp (List.pairwise_append.mp hapart).1).2.2 x hx info
        (List.mem_singleton.mpr rfl)
    have hread := CAddrInfo.parses_unserialize nVersion info {}
    have hlength : s.vRandom.length = infos.length := by rw [h.random, List.length_range]
    have hfree := h.free hpair hinfo
    have hslot : ctx.triedSlot s.nKey info.onDisk = ctx.triedSlot nKey info := by
      rw [h.key]
      rfl
    have hstep : Restored ctx nKey nNew nTried (infos ++ [info]) (fun _ => 0) vvNew { s with
        nIdCount := s.nIdCount + 1
        mapInfo := s.mapInfo.insert s.nIdCount
          { info.onDisk with nRandomPos := s.vRandom.length, fInTried := true }
        mapAddr := Function.update s.mapAddr info.ip (some s.nIdCount)
        vRandom := s.vRandom ++ [s.nIdCount]
        vvTried := Function.update s.vvTried (ctx.triedSlot s.nKey info.onDisk)
          (some s.nIdCount) } := by
      refine h.snoc (fun x hx => (hpair x hx).1) rfl rfl rfl ?_ ?_ ?_ rfl ?_ fun _ => hfree
      · rw [hcount, hlength, CAddrInfo.restored, hinfo]
        rfl
      · rw [hcount]
      · rw [hcount]
      · rw [hcount, hinfo, hslot]
        rfl
    have hnext : s.nIdCount + 1 = (infos ++ [info]).length := by
      rw [List.length_append, List.length_singleton, hcount]
    obtain ⟨s', hparses, hrestored, hcount'⟩ := ih hstep hnext hmore hapart
    refine ⟨s', ?_, hrestored, hcount'⟩
    rw [List.length_cons, unserializeTried, List.flatMap_cons]
    refine parses_bind hread ?_
    dsimp only
    rw [if_pos ?_]
    · exact hparses
    · change s.vvTried (ctx.triedSlot s.nKey info.onDisk) = none
      rw [hslot, hfree]

-- An entry gets its slot back.
theorem Restored.placeNew (h : Restored ctx nKey nNew nTried infos ref vvNew s)
    (hj : infos[j]? = some info) (hnew : (j : Int) < nNew) (hslot : vvNew slot = none)
    (heq : slot = ctx.newSlot nKey info slot.1) (hroom : ref j < ADDRMAN_NEW_BUCKETS_PER_ADDRESS) :
    Restored ctx nKey nNew nTried infos (Function.update ref j (ref j + 1))
        (Function.update vvNew slot (some j)) (s.placeNew ctx true slot.1 j) ∧
      (s.placeNew ctx true slot.1 j).nIdCount = s.nIdCount := by
  have hid := h.entry hj
  have hown : ctx.newSlot s.nKey (info.restored (ref j) j) slot.1 = slot := by
    rw [h.key]
    exact heq.symm
  have hplaced : s.placeNew ctx true slot.1 j =
      (s.setInfo j (info.restored (ref j + 1) j)).setNew slot (some j) := by
    rw [CAddrMan.placeNew, if_pos ⟨Int.natCast_nonneg j, by rw [h.new]; exact hnew⟩,
      Int.toNat_natCast, entry_eq hid]
    dsimp only
    rw [hown, h.vvNew_eq, if_pos ⟨rfl, hslot, hroom⟩]
    rfl
  rw [hplaced]
  refine ⟨⟨h.key, h.new, h.tried, fun i => ?_, h.addr, h.random, ?_, h.vvTried_iff, ?_, ?_⟩, rfl⟩
  · have hold := h.entries i
    rw [entries_setNew, entries_setInfo, Function.update_apply, Function.update_apply]
    split
    · rename_i hi
      rw [hi, hj]
      rfl
    · exact hold
  · change Function.update s.vvNew slot (some j) = _
    rw [h.vvNew_eq]
  · have htotal := total_setInfo isNew hid (info.restored (ref j + 1) j)
    have hsame : isNew (info.restored (ref j + 1) j) = isNew (info.restored (ref j) j) := rfl
    rw [← h.totalNew]
    change TreeTotal.total isNew (s.mapInfo.insert j (info.restored (ref j + 1) j)) = _
    omega
  · have htotal := total_setInfo isTried hid (info.restored (ref j + 1) j)
    have hsame : isTried (info.restored (ref j + 1) j) = isTried (info.restored (ref j) j) := rfl
    rw [← h.totalTried]
    change TreeTotal.total isTried (s.mapInfo.insert j (info.restored (ref j + 1) j)) = _
    omega

-- A table whose slots are those of the entries that it names.
structure Fits (ctx : AddrManContext) (nKey : UInt256) (nNew : Int) (infos : List CAddrInfo)
    (table : Nat × Nat → Option Nat) : Prop where
  own : ∀ slot j, table slot = some j →
    (j : Int) < nNew ∧ ∃ info, infos[j]? = some info ∧ slot = ctx.newSlot nKey info slot.1
  room : ∀ j, (SlotTable.occ newSlots table j : Int) ≤ ADDRMAN_NEW_BUCKETS_PER_ADDRESS

-- The slots `done` of the table have been read.
def Placed (ctx : AddrManContext) (nKey : UInt256) (nNew nTried : Int) (infos : List CAddrInfo)
    (table : Nat × Nat → Option Nat) (done : List (Nat × Nat)) (s : CAddrMan) : Prop :=
  Restored ctx nKey nNew nTried infos (fun j => SlotTable.occ done table j)
    (fun slot => if slot ∈ done then table slot else none) s

variable {table : Nat × Nat → Option Nat} {done slots : List (Nat × Nat)} {bucket : Nat}

theorem Restored.congr {ref' : Nat → Int} {vvNew' : Nat × Nat → Option Nat}
    (h : Restored ctx nKey nNew nTried infos ref vvNew s) (href : ref = ref')
    (hvvNew : vvNew = vvNew') : Restored ctx nKey nNew nTried infos ref' vvNew' s := by
  rw [← href, ← hvvNew]
  exact h

theorem Placed.skip (h : Placed ctx nKey nNew nTried infos table done s)
    (hslot : table slot = none) :
    Placed ctx nKey nNew nTried infos table (done ++ [slot]) s := by
  refine Restored.congr h ?_ ?_
  · funext j
    rw [SlotTable.occ_append, SlotTable.occ_cons, hslot, if_neg (by simp)]
    rfl
  · funext c
    simp only [List.mem_append, List.mem_singleton]
    by_cases hc : c = slot
    · rw [hc, hslot, ite_self, ite_self]
    · simp only [hc, or_false]

theorem Placed.place (hfits : Fits ctx nKey nNew infos table)
    (h : Placed ctx nKey nNew nTried infos table done s) (hnd : slot ∉ done)
    (hroom : ∀ j, (SlotTable.occ (done ++ [slot]) table j : Int) ≤ ADDRMAN_NEW_BUCKETS_PER_ADDRESS)
    (hslot : table slot = some j) :
    Placed ctx nKey nNew nTried infos table (done ++ [slot]) (s.placeNew ctx true slot.1 j) ∧
      (s.placeNew ctx true slot.1 j).nIdCount = s.nIdCount := by
  obtain ⟨hnew, info, hj, heq⟩ := hfits.own slot j hslot
  have hocc : ∀ i, SlotTable.occ (done ++ [slot]) table i =
      SlotTable.occ done table i + if i = j then 1 else 0 := by
    intro i
    rw [SlotTable.occ_append, SlotTable.occ_cons, hslot]
    simp only [Option.some.injEq, @eq_comm _ j i]
    rfl
  have hlt : (SlotTable.occ done table j : Int) < ADDRMAN_NEW_BUCKETS_PER_ADDRESS := by
    have hle := hroom j
    rw [hocc j, if_pos rfl] at hle
    omega
  have hplaced := Restored.placeNew h hj hnew (if_neg hnd) heq hlt
  refine ⟨hplaced.1.congr ?_ ?_, hplaced.2⟩
  · funext i
    rw [hocc i, Function.update_apply]
    split
    · rename_i hi
      rw [hi]
      simp
    · simp
  · funext c
    rw [Function.update_apply]
    simp only [List.mem_append, List.mem_singleton]
    by_cases hc : c = slot
    · rw [if_pos hc, if_pos (Or.inr hc), hc, hslot]
    · simp only [hc, if_false, or_false]

theorem Fits.room_of_prefix (hfits : Fits ctx nKey nNew infos table) (hstart : slots <+: newSlots)
    (j : Nat) : (SlotTable.occ slots table j : Int) ≤ ADDRMAN_NEW_BUCKETS_PER_ADDRESS := by
  have hroom := hfits.room j
  obtain ⟨rest, hrest⟩ := hstart
  rw [← hrest, SlotTable.occ_append] at hroom
  omega

theorem Placed.parses_unserializePositions (hfits : Fits ctx nKey nNew infos table)
    (hnNew : nNew < 2 ^ 31) (hstart : done ++ slots <+: newSlots)
    (hbucket : ∀ slot ∈ slots, slot.1 = bucket)
    (h : Placed ctx nKey nNew nTried infos table done s) :
    ∃ s', Parses (unserializePositions ctx true bucket (slots.filterMap table).length s)
        ((slots.filterMap table).flatMap fun j : Nat => writeInt j) s' ∧
      Placed ctx nKey nNew nTried infos table (done ++ slots) s' ∧ s'.nIdCount = s.nIdCount := by
  induction slots generalizing done s with
  | nil => exact ⟨s, parses_pure s, by rwa [List.append_nil], rfl⟩
  | cons slot slots ih =>
    obtain ⟨hfirst, hrest⟩ := List.forall_mem_cons.mp hbucket
    rw [List.append_cons] at hstart ⊢
    cases hslot : table slot with
    | none =>
      rw [List.filterMap_cons_none hslot]
      exact ih hstart hrest (h.skip hslot)
    | some j =>
      have hnd : slot ∉ done := by
        have hnodup := newSlots_nodup.sublist (hstart.sublist)
        have hdone := (List.nodup_append'.mp (List.nodup_append'.mp hnodup).1).2.2
        exact fun hin => hdone hin (List.mem_singleton.mpr rfl)
      have hroom := hfits.room_of_prefix ((List.prefix_append _ _).trans hstart)
      obtain ⟨hplaced, hcount⟩ := h.place hfits hnd hroom hslot
      obtain ⟨s', hparses, hplaced', hcount'⟩ := ih hstart hrest hplaced
      have hj := (hfits.own slot j hslot).1
      refine ⟨s', ?_, hplaced', hcount'.trans hcount⟩
      rw [List.filterMap_cons_some hslot, List.length_cons, unserializePositions,
        List.flatMap_cons]
      rw [hfirst] at hparses
      exact parses_bind (parses_readInt ⟨by omega, by omega⟩) hparses

def bucketSlots (bucket : Nat) : List (Nat × Nat) :=
  (List.range ADDRMAN_BUCKET_SIZE).map (Prod.mk bucket)

-- the bytes of a bucket of the table
def bucketBytes (table : Nat × Nat → Option Nat) (bucket : Nat) : List UInt8 :=
  writeInt ((bucketSlots bucket).filterMap table).length ++
    ((bucketSlots bucket).filterMap table).flatMap fun j : Nat => writeInt j

theorem Placed.parses_unserializeBuckets (hfits : Fits ctx nKey nNew infos table)
    (hnNew : nNew < 2 ^ 31) (left : Nat)
    (hstart : done ++ (List.range' bucket left).flatMap bucketSlots <+: newSlots)
    (h : Placed ctx nKey nNew nTried infos table done s) :
    ∃ s', Parses (unserializeBuckets ctx true left bucket s)
        ((List.range' bucket left).flatMap (bucketBytes table)) s' ∧
      Placed ctx nKey nNew nTried infos table
        (done ++ (List.range' bucket left).flatMap bucketSlots) s' ∧ s'.nIdCount = s.nIdCount := by
  induction left generalizing bucket done s with
  | zero => exact ⟨s, parses_pure s, by rwa [List.range'_zero, List.flatMap_nil, List.append_nil], rfl⟩
  | succ left ih =>
    simp only [List.range'_succ, List.flatMap_cons, ← List.append_assoc] at hstart ⊢
    have hbucket : ∀ slot ∈ bucketSlots bucket, slot.1 = bucket := by
      intro slot hslot
      obtain ⟨i, -, rfl⟩ := List.mem_map.mp hslot
      rfl
    have hsize : ((bucketSlots bucket).filterMap table).length ≤ ADDRMAN_BUCKET_SIZE := by
      refine (List.length_filterMap_le table _).trans ?_
      rw [bucketSlots, List.length_map, List.length_range]
    obtain ⟨s₁, hparses₁, hplaced₁, hcount₁⟩ := h.parses_unserializePositions hfits hnNew
      ((List.prefix_append _ _).trans hstart) hbucket
    obtain ⟨s', hparses, hplaced, hcount⟩ := ih hstart hplaced₁
    refine ⟨s', ?_, hplaced, hcount.trans hcount₁⟩
    rw [ADDRMAN_BUCKET_SIZE] at hsize
    rw [unserializeBuckets, bucketBytes, List.append_assoc]
    refine parses_bind (parses_readInt ⟨by omega, by omega⟩) ?_
    rw [Int.toNat_natCast]
    exact parses_bind hparses₁ hparses

theorem newSlots_eq :
    newSlots = (List.range' 0 ADDRMAN_NEW_BUCKET_COUNT).flatMap bucketSlots := by
  rw [newSlots, List.range_eq_range']
  rfl

end CAddrMan

end AnkerNode
