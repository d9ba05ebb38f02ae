import AnkerNode.Lib.Bits

namespace AnkerNode

open BitGroups

-- the inner loop, and the bits it leaves
def pushGroups (tobits acc : Nat) : Nat → Nat → List UInt8 × Nat
  | 0, bits => ([], bits)
  | fuel + 1, bits =>
    if tobits ≤ bits then
      let bits := bits - tobits
      let (out, rest) := pushGroups tobits acc fuel bits
      (UInt8.ofNat (acc >>> bits &&& (1 <<< tobits - 1)) :: out, rest)
    else ([], bits)

def convertLoop (frombits tobits : Nat) : List UInt8 → Nat → Nat → List UInt8 →
    List UInt8 × Nat × Nat
  | [], acc, bits, out => (out, acc, bits)
  | b :: it, acc, bits, out =>
    let acc := (acc <<< frombits ||| b.toNat) &&& (1 <<< (frombits + tobits - 1) - 1)
    let (pushed, rest) := pushGroups tobits acc (bits + frombits) (bits + frombits)
    convertLoop frombits tobits it acc rest (out ++ pushed)

-- `out` and what is returned
def convertBits (frombits tobits : Nat) (pad : Bool) (out it : List UInt8) : List UInt8 × Bool :=
  let (out, acc, bits) := convertLoop frombits tobits it 0 0 out
  let last := acc <<< (tobits - bits) &&& (1 <<< tobits - 1)
  if pad then (if bits ≠ 0 then out ++ [UInt8.ofNat last] else out, true)
  else (out, !(decide (frombits ≤ bits) || last != 0))

section Loop

variable {frombits tobits : Nat}

theorem and_mask (n w : Nat) : n &&& (1 <<< w - 1) = n % 2 ^ w := by
  rw [Nat.one_shiftLeft, Nat.and_two_pow_sub_one_eq_mod]

def groupValues (groups : List (List Bool)) : List UInt8 :=
  groups.map fun g => UInt8.ofNat (value g)

theorem pushGroups_spec {acc fuel : Nat} (htobits : 0 < tobits) {pending : List Bool}
    (hfuel : pending.length ≤ fuel) (hacc : acc % 2 ^ pending.length = value pending) :
    ∃ groups rest, pushGroups tobits acc fuel pending.length = (groupValues groups, rest.length) ∧
      Grouped tobits pending groups rest ∧ acc % 2 ^ rest.length = value rest := by
  induction fuel generalizing pending with
  | zero =>
    obtain rfl := List.length_eq_zero_iff.mp (Nat.le_zero.mp hfuel)
    exact ⟨[], [], rfl, ⟨rfl, by simp, htobits⟩, hacc⟩
  | succ fuel ih =>
    rw [pushGroups]
    split
    · rename_i hle
      obtain ⟨g, tail, rfl, hg⟩ : ∃ g tail, pending = g ++ tail ∧ g.length = tobits :=
        ⟨pending.take tobits, pending.drop tobits, (List.take_append_drop tobits pending).symm, by
          rw [List.length_take, Nat.min_eq_left hle]⟩
      have hrest : (g ++ tail).length - tobits = tail.length := by
        rw [List.length_append]
        omega
      rw [List.length_append, hg, Nat.add_comm, Nat.pow_add, value_append] at hacc
      have htail : acc % 2 ^ tail.length = value tail := by
        have hmod := congrArg (· % 2 ^ tail.length) hacc
        simpa only [Nat.mod_mul_right_mod, Nat.mul_add_mod_self_right,
          Nat.mod_eq_of_lt (value_lt tail)] using hmod
      have hfirst : acc >>> tail.length &&& (1 <<< tobits - 1) = value g := by
        rw [and_mask, Nat.shiftRight_eq_div_pow, ← Nat.mod_mul_right_div_self, hacc,
          Nat.mul_comm, Nat.mul_add_div (Nat.two_pow_pos _), Nat.div_eq_of_lt (value_lt tail),
          Nat.add_zero]
      obtain ⟨groups, rest, heq, hgrouped, hvalue⟩ := ih (by
        rw [List.length_append] at hfuel
        omega) htail
      refine ⟨g :: groups, rest, ?_, ⟨?_, ?_, hgrouped.rest_lt⟩, hvalue⟩
      · simp only [hrest, hfirst, heq]
        rfl
      · rw [List.flatten_cons, List.append_assoc, hgrouped.append_eq]
      · exact List.forall_mem_cons.mpr ⟨hg, hgrouped.length_eq⟩
    · rename_i hlt
      exact ⟨[], pending, rfl, ⟨rfl, by simp, Nat.lt_of_not_le hlt⟩, hacc⟩

theorem mul_add_mod {a b r f : Nat} (hb : b < 2 ^ f) :
    (a * 2 ^ f + b) % 2 ^ (r + f) = a % 2 ^ r * 2 ^ f + b := by
  have hsplit := Nat.div_add_mod a (2 ^ r)
  have hlow : a % 2 ^ r + 1 ≤ 2 ^ r := Nat.mod_lt a (Nat.two_pow_pos r)
  have hlt : a % 2 ^ r * 2 ^ f + b < 2 ^ r * 2 ^ f :=
    calc a % 2 ^ r * 2 ^ f + b < (a % 2 ^ r + 1) * 2 ^ f := by rw [Nat.add_mul, Nat.one_mul]; omega
      _ ≤ 2 ^ r * 2 ^ f := Nat.mul_le_mul_right _ hlow
  have heq : a * 2 ^ f + b = 2 ^ r * 2 ^ f * (a / 2 ^ r) + (a % 2 ^ r * 2 ^ f + b) :=
    calc a * 2 ^ f + b = (2 ^ r * (a / 2 ^ r) + a % 2 ^ r) * 2 ^ f + b := by rw [hsplit]
      _ = _ := by ring
  rw [heq, Nat.pow_add, Nat.mul_add_mod_self_left, Nat.mod_eq_of_lt hlt]

-- the bits of the values read
def stream (frombits : Nat) (it : List UInt8) : List Bool :=
  it.flatMap fun b => bits frombits b.toNat

theorem convertLoop_spec (htobits : 0 < tobits) {it out : List UInt8} {acc : Nat}
    {rest : List Bool} (hit : ∀ b ∈ it, b.toNat < 2 ^ frombits) (hrest : rest.length < tobits)
    (hacc : acc % 2 ^ rest.length = value rest) :
    ∃ groups rest' acc', convertLoop frombits tobits it acc rest.length out =
        (out ++ groupValues groups, acc', rest'.length) ∧
      Grouped tobits (rest ++ stream frombits it) groups rest' ∧
      acc' % 2 ^ rest'.length = value rest' := by
  induction it generalizing out acc rest with
  | nil =>
    refine ⟨[], rest, acc, by simp [convertLoop, groupValues], ⟨?_, by simp, hrest⟩, hacc⟩
    simp [stream]
  | cons b it ih =>
    rw [List.forall_mem_cons] at hit
    have hlength : (rest ++ bits frombits b.toNat).length = rest.length + frombits := by
      rw [List.length_append, length_bits]
    have hpending : ((acc <<< frombits ||| b.toNat) &&& (1 <<< (frombits + tobits - 1) - 1)) %
        2 ^ (rest ++ bits frombits b.toNat).length = value (rest ++ bits frombits b.toNat) := by
      have hdvd : 2 ^ (rest.length + frombits) ∣ 2 ^ (frombits + tobits - 1) :=
        Nat.pow_dvd_pow 2 (by omega)
      rw [hlength, and_mask, Nat.mod_mod_of_dvd _ hdvd, ← Nat.shiftLeft_add_eq_or_of_lt hit.1,
        Nat.shiftLeft_eq, value_append, length_bits, value_bits, Nat.mod_eq_of_lt hit.1, ← hacc,
        mul_add_mod hit.1]
    obtain ⟨groups, rest', heq, hgrouped, hvalue⟩ := pushGroups_spec htobits le_rfl hpending
    obtain ⟨groups', rest'', acc'', heq', hgrouped', hvalue'⟩ :=
      @ih (out ++ groupValues groups) _ _ hit.2 hgrouped.rest_lt hvalue
    rw [hlength] at heq
    refine ⟨groups ++ groups', rest'', acc'', ?_, ?_, hvalue'⟩
    · simp only [convertLoop, heq, heq']
      rw [groupValues, groupValues, groupValues, List.map_append, List.append_assoc]
    · have happend := hgrouped.append hgrouped'
      rw [List.append_assoc] at happend
      exact happend

end Loop

section RoundTrip

-- Eight bits to five, the last group filled with zeros.
theorem convertBits_pad (bytes out : List UInt8) : ∃ groups k, k < 5 ∧
    convertBits 8 5 true out bytes = (out ++ groupValues groups, true) ∧
    (∀ g ∈ groups, g.length = 5) ∧
    groups.flatten = stream 8 bytes ++ List.replicate k false := by
  obtain ⟨groups, rest, acc, heq, hgrouped, hacc⟩ :=
    @convertLoop_spec 8 5 (by decide) bytes out 0 []
    (fun b _ => b.toNat_lt) (by decide) rfl
  have hrest := hgrouped.rest_lt
  rw [List.nil_append] at hgrouped
  rw [List.length_nil] at heq
  simp only [convertBits, heq, if_true]
  split
  · have hlast : acc <<< (5 - rest.length) &&& (1 <<< 5 - 1) =
        value (rest ++ List.replicate (5 - rest.length) false) := by
      have hmod := mul_add_mod (a := acc) (r := rest.length) (Nat.two_pow_pos (5 - rest.length))
      have hwidth : rest.length + (5 - rest.length) = 5 := by omega
      rw [Nat.add_zero, Nat.add_zero, hwidth] at hmod
      rw [and_mask, Nat.shiftLeft_eq, hmod, hacc, value_append, value_replicate_false,
        List.length_replicate, Nat.add_zero]
    refine ⟨groups ++ [rest ++ List.replicate (5 - rest.length) false], 5 - rest.length, by omega,
      ?_, ?_, ?_⟩
    · rw [hlast, groupValues, groupValues, List.map_append, List.append_assoc]
      rfl
    · intro g hg
      rcases List.mem_append.mp hg with hg | hg
      · exact hgrouped.length_eq g hg
      · rw [List.mem_singleton.mp hg, List.length_append, List.length_replicate]
        omega
    · rw [List.flatten_append, List.flatten_singleton, ← List.append_assoc, hgrouped.append_eq]
  · rename_i hnone
    have hnil : rest = [] := List.length_eq_zero_iff.mp (not_not.mp hnone)
    have happend := hgrouped.append_eq
    rw [hnil, List.append_nil] at happend
    exact ⟨groups, 0, by decide, rfl, hgrouped.length_eq, by rw [happend]; simp⟩

theorem toNat_groupValue {g : List Bool} (hg : g.length = 5) :
    (UInt8.ofNat (value g)).toNat = value g := by
  have hlt := value_lt g
  rw [hg] at hlt
  exact UInt8.toNat_ofNat_of_lt' (hlt.trans (by decide))

theorem stream_groupValues {groups : List (List Bool)} (hgroups : ∀ g ∈ groups, g.length = 5) :
    stream 5 (groupValues groups) = groups.flatten := by
  induction groups with
  | nil => rfl
  | cons g groups ih =>
    rw [List.forall_mem_cons] at hgroups
    have hhead : bits 5 (UInt8.ofNat (value g)).toNat = g := by
      rw [toNat_groupValue hgroups.1, bits_value hgroups.1]
    have htail := ih hgroups.2
    rw [stream, groupValues] at htail
    rw [stream, groupValues, List.map_cons, List.flatMap_cons, hhead, htail, List.flatten_cons]

theorem groupValues_lt {groups : List (List Bool)} (hgroups : ∀ g ∈ groups, g.length = 5) :
    ∀ b ∈ groupValues groups, b.toNat < 32 := by
  intro b hb
  obtain ⟨g, hg, rfl⟩ := List.mem_map.mp hb
  rw [toNat_groupValue (hgroups g hg), show 32 = 2 ^ g.length from by rw [hgroups g hg]; rfl]
  exact value_lt g

theorem length_flatten {α : Type} {n : Nat} {groups : List (List α)}
    (hgroups : ∀ g ∈ groups, g.length = n) : groups.flatten.length = groups.length * n := by
  rw [List.length_flatten, List.map_congr_left hgroups, List.map_const', List.sum_replicate_nat]

theorem length_stream (frombits : Nat) (it : List UInt8) :
    (stream frombits it).length = it.length * frombits := by
  rw [stream, List.flatMap_def, length_flatten fun g hg => ?_, List.length_map]
  obtain ⟨b, -, rfl⟩ := List.mem_map.mp hg
  exact length_bits frombits b.toNat

theorem groupValues_bytes (bytes : List UInt8) :
    groupValues (bytes.map fun b => bits 8 b.toNat) = bytes := by
  have hbyte : ∀ b ∈ bytes, UInt8.ofNat (value (bits 8 b.toNat)) = b := fun b _ => by
    rw [value_bits, Nat.mod_eq_of_lt b.toNat_lt, UInt8.ofNat_toNat]
  rw [groupValues, List.map_map]
  exact (List.map_congr_left hbyte).trans (List.map_id' bytes)

-- Five bits back to eight: what is left is the zeros.
theorem convertBits_back {bytes : List UInt8} {groups : List (List Bool)} {k : Nat} (hk : k < 5)
    (hgroups : ∀ g ∈ groups, g.length = 5)
    (hflatten : groups.flatten = stream 8 bytes ++ List.replicate k false) :
    convertBits 5 8 false [] (groupValues groups) = (bytes, true) := by
  obtain ⟨groups', rest, acc, heq, hgrouped, hacc⟩ := @convertLoop_spec 5 8 (by decide)
    (groupValues groups) [] 0 [] (groupValues_lt hgroups) (by decide) rfl
  rw [List.nil_append, stream_groupValues hgroups, hflatten] at hgrouped
  have hbytes : Grouped 8 (stream 8 bytes ++ List.replicate k false)
      (bytes.map fun b => bits 8 b.toNat) (List.replicate k false) := by
    refine ⟨by rw [stream, List.flatMap_def], fun g hg => ?_, ?_⟩
    · obtain ⟨b, -, rfl⟩ := List.mem_map.mp hg
      exact length_bits 8 b.toNat
    · rw [List.length_replicate]
      omega
  obtain ⟨rfl, rfl⟩ := hgrouped.unique hbytes
  rw [value_replicate_false, List.length_replicate] at hacc
  rw [List.length_nil, List.length_replicate, List.nil_append, groupValues_bytes] at heq
  have hlast : acc <<< (8 - k) &&& (1 <<< 8 - 1) = 0 := by
    have hmod := mul_add_mod (a := acc) (r := k) (Nat.two_pow_pos (8 - k))
    rw [Nat.add_zero, Nat.add_zero, show k + (8 - k) = 8 from by omega, hacc, Nat.zero_mul] at hmod
    rw [and_mask, Nat.shiftLeft_eq, hmod]
  have hshort : ¬5 ≤ k := Nat.not_le.mpr hk
  simp only [convertBits, heq, hlast, decide_eq_false hshort, Bool.false_eq_true, if_false,
    bne_self_eq_false, Bool.or_false, Bool.not_false]

end RoundTrip

end AnkerNode
