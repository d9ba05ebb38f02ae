import Mathlib.Data.List.Basic
import Mathlib.Data.Nat.Bitwise
import Mathlib.Tactic.Ring

namespace ByteStream

abbrev Reader := StateT (List UInt8) Option

def Parses {α : Type} (r : Reader α) (bs : List UInt8) (a : α) : Prop :=
  ∀ rest, r.run (bs ++ rest) = some (a, rest)

theorem parses_pure {α : Type} (a : α) : Parses (pure a) [] a := fun _ => rfl

theorem parses_bind {α β : Type} {r : Reader α} {f : α → Reader β} {bs cs : List UInt8} {a : α}
    {b : β} (hr : Parses r bs a) (hf : Parses (f a) cs b) : Parses (r >>= f) (bs ++ cs) b := by
  intro rest
  have h := hr (cs ++ rest)
  simp only [StateT.run_bind, List.append_assoc, h, Option.bind_eq_bind, Option.bind_some]
  exact hf rest

theorem parses_map {α β : Type} {r : Reader α} {bs : List UInt8} {a : α} (f : α → β)
    (hr : Parses r bs a) : Parses (do let x ← r; pure (f x)) bs (f a) := by
  rw [← List.append_nil bs]
  exact parses_bind hr (parses_pure (f a))

theorem run_bind_eq_some {α β : Type} {r : Reader α} {f : α → Reader β} {bs rest : List UInt8}
    {b : β} (h : (r >>= f).run bs = some (b, rest)) :
    ∃ a bs', r.run bs = some (a, bs') ∧ (f a).run bs' = some (b, rest) := by
  rw [StateT.run_bind, Option.bind_eq_bind, Option.bind_eq_some_iff] at h
  obtain ⟨⟨a, bs'⟩, hr, hf⟩ := h
  exact ⟨a, bs', hr, hf⟩

theorem run_pure_eq_some {α : Type} {a b : α} {bs rest : List UInt8}
    (h : (pure a : Reader α).run bs = some (b, rest)) : b = a ∧ rest = bs := by
  rw [StateT.run_pure, Option.pure_def, Option.some.injEq, Prod.mk.injEq] at h
  exact ⟨h.1.symm, h.2.symm⟩

def readList {α : Type} (r : Reader α) : Nat → Reader (List α)
  | 0 => pure []
  | n + 1 => do
    let a ← r
    let as ← readList r n
    pure (a :: as)

theorem parses_list {α : Type} {r : Reader α} {w : α → List UInt8} {v : α → α} {as : List α}
    (h : ∀ a ∈ as, Parses r (w a) (v a)) :
    Parses (readList r as.length) (as.flatMap w) (as.map v) := by
  induction as with
  | nil => exact parses_pure []
  | cons a as ih =>
    have has := ih (fun b hb => h b (by simp [hb]))
    exact parses_bind (h a (by simp)) (parses_map (v a :: ·) has)

def readByte : Reader UInt8 := fun bs =>
  match bs with
  | [] => none
  | b :: rest => some (b, rest)

theorem parses_readByte (b : UInt8) : Parses readByte [b] b := fun _ => rfl

def readBytes (n : Nat) : Reader (List UInt8) := fun bs =>
  if n ≤ bs.length then some (bs.take n, bs.drop n) else none

theorem parses_readBytes (bs : List UInt8) : Parses (readBytes bs.length) bs bs := by
  intro rest
  simp [readBytes, StateT.run]

def writeLE : Nat → Nat → List UInt8
  | 0, _ => []
  | width + 1, n => UInt8.ofNat (n % 256) :: writeLE width (n / 256)

theorem length_writeLE (width n : Nat) : (writeLE width n).length = width := by
  induction width generalizing n with
  | zero => rfl
  | succ width ih => rw [writeLE, List.length_cons, ih]

def readLE : Nat → Reader Nat
  | 0 => pure 0
  | width + 1 => do
    let b ← readByte
    let n ← readLE width
    pure (b.toNat + 256 * n)

theorem parses_readLE (width n : Nat) (h : n < 256 ^ width) :
    Parses (readLE width) (writeLE width n) n := by
  induction width generalizing n with
  | zero =>
    have hn : n = 0 := by simpa using h
    subst hn
    exact parses_pure 0
  | succ width ih =>
    have hq : n / 256 < 256 ^ width := by
      rw [Nat.pow_succ] at h
      exact Nat.div_lt_of_lt_mul (by omega)
    have hb : (UInt8.ofNat (n % 256)).toNat = n % 256 := by
      simp [UInt8.toNat_ofNat']
    have hn : (UInt8.ofNat (n % 256)).toNat + 256 * (n / 256) = n := by omega
    have hp := parses_map (fun m => (UInt8.ofNat (n % 256)).toNat + 256 * m) (ih (n / 256) hq)
    rw [hn] at hp
    exact parses_bind (parses_readByte (UInt8.ofNat (n % 256))) hp

-- `r` takes `n` bytes, whatever they are.
def Consumes {α : Type} (r : Reader α) (n : Nat) : Prop :=
  ∀ bs : List UInt8, n ≤ bs.length → ∃ a, r.run bs = some (a, bs.drop n)

theorem consumes_pure {α : Type} (a : α) : Consumes (pure a) 0 := fun _ _ => ⟨a, rfl⟩

theorem consumes_bind {α β : Type} {r : Reader α} {f : α → Reader β} {m n : Nat}
    (hr : Consumes r m) (hf : ∀ a, Consumes (f a) n) : Consumes (r >>= f) (m + n) := by
  intro bs hlength
  obtain ⟨a, ha⟩ := hr bs (by omega)
  obtain ⟨b, hb⟩ := hf a (bs.drop m) (by rw [List.length_drop]; omega)
  refine ⟨b, ?_⟩
  simp only [StateT.run_bind, ha, Option.bind_eq_bind, Option.bind_some, hb, List.drop_drop]

theorem consumes_readByte : Consumes readByte 1 := by
  intro bs hlength
  cases bs with
  | nil => simp at hlength
  | cons b rest => exact ⟨b, rfl⟩

theorem consumes_readBytes (n : Nat) : Consumes (readBytes n) n :=
  fun bs hlength => ⟨bs.take n, by simp [readBytes, StateT.run, hlength]⟩

theorem consumes_readLE (width : Nat) : Consumes (readLE width) width := by
  induction width with
  | zero => exact consumes_pure 0
  | succ width ih =>
    rw [readLE, Nat.add_comm width 1]
    exact consumes_bind consumes_readByte fun _ => consumes_bind ih fun _ => consumes_pure _

def writeCompactSize (n : Nat) : List UInt8 :=
  if n < 253 then [UInt8.ofNat n]
  else if n ≤ 0xffff then 253 :: writeLE 2 n
  else if n ≤ 0xffffffff then 254 :: writeLE 4 n
  else 255 :: writeLE 8 n

def readSized (width minimum maxSize : Nat) : Reader Nat := do
  let n ← readLE width
  if n < minimum ∨ maxSize < n then failure else pure n

def readCompactSize (maxSize : Nat) : Reader Nat := do
  let chSize ← readByte
  if chSize < 253 then (if maxSize < chSize.toNat then failure else pure chSize.toNat)
  else if chSize = 253 then readSized 2 253 maxSize
  else if chSize = 254 then readSized 4 0x10000 maxSize
  else readSized 8 0x100000000 maxSize

theorem parses_readSized (width minimum : Nat) {maxSize n : Nat} (hn : n < 256 ^ width)
    (hmin : minimum ≤ n) (hmax : n ≤ maxSize) :
    Parses (readSized width minimum maxSize) (writeLE width n) n := by
  have hp : Parses (if n < minimum ∨ maxSize < n then failure else pure n : Reader Nat) [] n := by
    rw [if_neg (by omega)]
    exact parses_pure n
  rw [← List.append_nil (writeLE width n)]
  exact parses_bind (parses_readLE width n hn) hp

theorem parses_readCompactSize {maxSize n : Nat} (hmax : n ≤ maxSize) (hn : n < 2 ^ 64) :
    Parses (readCompactSize maxSize) (writeCompactSize n) n := by
  simp only [writeCompactSize]
  split
  · rename_i hlt
    have hb : (UInt8.ofNat n).toNat = n := by
      simp only [UInt8.toNat_ofNat']
      omega
    have hcond : UInt8.ofNat n < 253 := by
      rw [UInt8.lt_iff_toNat_lt, hb]
      exact hlt
    have hp : Parses (if UInt8.ofNat n < 253 then
        (if maxSize < (UInt8.ofNat n).toNat then failure else pure (UInt8.ofNat n).toNat)
        else if UInt8.ofNat n = 253 then readSized 2 253 maxSize
        else if UInt8.ofNat n = 254 then readSized 4 0x10000 maxSize
        else readSized 8 0x100000000 maxSize) [] n := by
      rw [if_pos hcond, hb, if_neg (Nat.not_lt.mpr hmax)]
      exact parses_pure n
    exact parses_bind (parses_readByte (UInt8.ofNat n)) hp
  · split
    · intro rest
      have hp := parses_readSized 2 253 (by omega) (by omega) hmax rest
      simpa [readCompactSize, readByte, StateT.run, bind, StateT.bind] using hp
    · split
      · intro rest
        have hp := parses_readSized 4 0x10000 (by omega) (by omega) hmax
          rest
        simpa [readCompactSize, readByte, StateT.run, bind, StateT.bind] using hp
      · intro rest
        have hp := parses_readSized 8 0x100000000 (by omega) (by omega)
          hmax rest
        simpa [readCompactSize, readByte, StateT.run, bind, StateT.bind] using hp

def writeVarIntLoop : Nat → Nat → List UInt8 → List UInt8
  | 0, _, tmp => tmp
  | fuel + 1, n, tmp =>
    let tmp := UInt8.ofNat (n % 128 + if tmp.isEmpty then 0 else 128) :: tmp
    if n ≤ 0x7f then tmp else writeVarIntLoop fuel (n / 128 - 1) tmp

def writeVarInt (bits n : Nat) : List UInt8 := writeVarIntLoop ((bits + 6) / 7) n []

def readVarIntFrom (bits : Nat) : Nat → List UInt8 → Option (Nat × List UInt8)
  | _, [] => none
  | n, chData :: rest =>
    let n := n * 128 % 2 ^ bits + chData.toNat % 128
    if 128 ≤ chData.toNat then readVarIntFrom bits ((n + 1) % 2 ^ bits) rest else some (n, rest)

def readVarInt (bits : Nat) : Reader Nat := readVarIntFrom bits 0

theorem readVarIntFrom_digit {bits v n : Nat} {tmp rest : List UInt8} (hn : n < 2 ^ bits)
    (hv : v * 128 + n % 128 = n) (hnext : tmp ≠ [] → n + 1 < 2 ^ bits) :
    readVarIntFrom bits v
        ((UInt8.ofNat (n % 128 + if tmp.isEmpty then 0 else 128) :: tmp) ++ rest) =
      if tmp.isEmpty then some (n, rest) else readVarIntFrom bits (n + 1) (tmp ++ rest) := by
  have hmod : v * 128 % 2 ^ bits = v * 128 := Nat.mod_eq_of_lt (by omega)
  cases tmp with
  | nil =>
    have hb : (UInt8.ofNat (n % 128)).toNat = n % 128 := by
      simp only [UInt8.toNat_ofNat']
      omega
    have hlt : ¬ 128 ≤ n % 128 := by omega
    simp only [List.isEmpty_nil, if_true, Nat.add_zero, List.cons_append, List.nil_append,
      readVarIntFrom, hb, hmod, Nat.mod_mod, hv, hlt, if_false]
  | cons b tmp =>
    have hb : (UInt8.ofNat (n % 128 + 128)).toNat = n % 128 + 128 := by
      simp only [UInt8.toNat_ofNat']
      omega
    have hlow : (n % 128 + 128) % 128 = n % 128 := by omega
    have hhigh : 128 ≤ n % 128 + 128 := by omega
    have hn1 : (n + 1) % 2 ^ bits = n + 1 := Nat.mod_eq_of_lt (hnext (by simp))
    simp only [List.isEmpty_cons, Bool.false_eq_true, if_false, List.cons_append, readVarIntFrom,
      hb, hmod, hlow, hv, hhigh, hn1, if_true]

theorem readVarIntFrom_writeVarIntLoop {bits fuel n : Nat} (tmp rest : List UInt8)
    (hfuel : n < 128 ^ (fuel + 1)) (hn : n < 2 ^ bits) (hnext : tmp ≠ [] → n + 1 < 2 ^ bits) :
    readVarIntFrom bits 0 (writeVarIntLoop (fuel + 1) n tmp ++ rest) =
      if tmp.isEmpty then some (n, rest) else readVarIntFrom bits (n + 1) (tmp ++ rest) := by
  -- induction on the room left in `tmp`, which holds the digits already written
  induction fuel generalizing n tmp with
  | zero =>
    have hle : n ≤ 0x7f := by omega
    simp only [writeVarIntLoop, hle, if_true]
    exact readVarIntFrom_digit hn (by omega) hnext
  | succ fuel ih =>
    rw [writeVarIntLoop]
    by_cases hle : n ≤ 0x7f
    · simp only [hle, if_true]
      exact readVarIntFrom_digit hn (by omega) hnext
    · have hq : n / 128 < 128 ^ (fuel + 1) := Nat.div_lt_of_lt_mul (by
        rw [Nat.pow_succ] at hfuel
        omega)
      simp only [hle, if_false]
      rw [ih _ (by omega) (by omega) (fun _ => by omega)]
      have hsucc : n / 128 - 1 + 1 = n / 128 := by omega
      simp only [List.isEmpty_cons, Bool.false_eq_true, if_false, hsucc]
      exact readVarIntFrom_digit hn (by omega) hnext

theorem parses_readVarInt {bits n : Nat} (hbits : 0 < bits) (hn : n < 2 ^ bits) :
    Parses (readVarInt bits) (writeVarInt bits n) n := by
  intro rest
  obtain ⟨fuel, hfuel⟩ : ∃ fuel, (bits + 6) / 7 = fuel + 1 :=
    ⟨(bits + 6) / 7 - 1, by omega⟩
  have hroom : 2 ^ bits ≤ 128 ^ (fuel + 1) := by
    rw [show (128 : Nat) = 2 ^ 7 from rfl, ← Nat.pow_mul]
    exact Nat.pow_le_pow_right (by omega) (by omega)
  have h := readVarIntFrom_writeVarIntLoop [] rest
    (lt_of_lt_of_le hn hroom) hn (by simp)
  simpa [writeVarInt, hfuel, readVarInt, StateT.run] using h

-- Whatever `r` accepts has `P` and is what `w` writes of it.
def Exact {α : Type} (r : Reader α) (P : α → Prop) (w : α → List UInt8) : Prop :=
  ∀ bs a rest, r.run bs = some (a, rest) → P a ∧ bs = w a ++ rest

theorem exact_bind {α β : Type} {r : Reader α} {f : α → Reader β} {P : α → Prop} {Q : β → Prop}
    {w : α → List UInt8} {v : α → β → List UInt8} {u : β → List UInt8} (hr : Exact r P w)
    (hf : ∀ a, P a → Exact (f a) (fun b => Q b ∧ w a ++ v a b = u b) (v a)) :
    Exact (r >>= f) Q u := by
  intro bs b rest h
  obtain ⟨a, bs', hra, hfb⟩ := run_bind_eq_some h
  obtain ⟨ha, rfl⟩ := hr bs a bs' hra
  obtain ⟨⟨hb, hu⟩, rfl⟩ := hf a ha bs' b rest hfb
  exact ⟨hb, by rw [← hu, List.append_assoc]⟩

theorem exact_pure {α : Type} {P : α → Prop} {w : α → List UInt8} {a : α} (hP : P a)
    (hw : w a = []) : Exact (pure a) P w := by
  intro bs b rest h
  obtain ⟨rfl, rfl⟩ := run_pure_eq_some h
  exact ⟨hP, by rw [hw]; rfl⟩

theorem exact_failure {α : Type} {P : α → Prop} {w : α → List UInt8} :
    Exact (failure : Reader α) P w := by
  intro bs a rest h
  simp [failure, StateT.run, StateT.failure] at h

theorem exact_ite {α : Type} {c : Prop} [Decidable c] {r s : Reader α} {P : α → Prop}
    {w : α → List UInt8} (hr : c → Exact r P w) (hs : ¬c → Exact s P w) :
    Exact (if c then r else s) P w := by
  split
  · exact hr ‹_›
  · exact hs ‹_›

theorem Exact.mono {α : Type} {r : Reader α} {P Q : α → Prop} {w v : α → List UInt8}
    (h : Exact r P w) (hPQ : ∀ a, P a → Q a ∧ w a = v a) : Exact r Q v := by
  intro bs a rest hr
  obtain ⟨ha, rfl⟩ := h bs a rest hr
  exact ⟨(hPQ a ha).1, by rw [(hPQ a ha).2]⟩

theorem exact_readByte : Exact readByte (fun _ => True) (fun b => [b]) := by
  intro bs b rest h
  cases bs with
  | nil => simp [readByte, StateT.run] at h
  | cons c cs =>
    obtain ⟨rfl, rfl⟩ : c = b ∧ cs = rest := by simpa [readByte, StateT.run] using h
    exact ⟨trivial, rfl⟩

theorem exact_readBytes (n : Nat) : Exact (readBytes n) (fun a => a.length = n) id := by
  intro bs a rest h
  rw [StateT.run, readBytes] at h
  split at h
  · obtain ⟨rfl, rfl⟩ := Prod.mk.inj (Option.some.inj h)
    exact ⟨List.length_take_of_le ‹_›, (List.take_append_drop n bs).symm⟩
  · simp at h

theorem exact_readLE (width : Nat) :
    Exact (readLE width) (fun n => n < 256 ^ width) (writeLE width) := by
  induction width with
  | zero => exact exact_pure (by decide) rfl
  | succ width ih =>
    refine exact_bind (v := fun b n => writeLE width (n / 256)) exact_readByte fun b _ => ?_
    refine exact_bind (v := fun _ _ => []) ih fun n hn => exact_pure ⟨⟨?_, ?_⟩, ?_⟩ rfl
    · have hb := b.toNat_lt
      rw [Nat.pow_succ]
      omega
    · have hb := b.toNat_lt
      have hlow : (b.toNat + 256 * n) % 256 = b.toNat := by omega
      rw [writeLE, hlow, UInt8.ofNat_toNat]
      rfl
    · have hb := b.toNat_lt
      have hhigh : (b.toNat + 256 * n) / 256 = n := by omega
      rw [hhigh, List.append_nil]

theorem exact_readSized (width minimum maxSize : Nat) : Exact (readSized width minimum maxSize)
    (fun n => n < 256 ^ width ∧ minimum ≤ n ∧ n ≤ maxSize) (writeLE width) := by
  refine exact_bind (v := fun _ _ => []) (exact_readLE width) fun n hn => ?_
  refine exact_ite (fun _ => exact_failure) fun h => ?_
  exact exact_pure ⟨⟨hn, by omega, by omega⟩, List.append_nil _⟩ rfl

-- Each marker is refused below the least number it is for.
theorem exact_readCompactSize (maxSize : Nat) :
    Exact (readCompactSize maxSize) (fun n => n ≤ maxSize) writeCompactSize := by
  refine exact_bind (v := fun b n => (writeCompactSize n).tail) exact_readByte fun b _ => ?_
  refine exact_ite (fun hb => ?_) fun hb => ?_
  · have hlt : b.toNat < 253 := by simpa [UInt8.lt_iff_toNat_lt] using hb
    refine exact_ite (fun _ => exact_failure) fun hmax => ?_
    have hw : writeCompactSize b.toNat = [b] := by
      rw [writeCompactSize, if_pos hlt, UInt8.ofNat_toNat]
    exact exact_pure ⟨by omega, by rw [hw]; rfl⟩ (by rw [hw]; rfl)
  · refine exact_ite (fun h2 => ?_) fun h2 => exact_ite (fun h4 => ?_) fun h4 => ?_
    · refine (exact_readSized 2 253 maxSize).mono fun n hn => ?_
      obtain ⟨hn, hmin, hmax⟩ := hn
      have hw : writeCompactSize n = 253 :: writeLE 2 n := by
        rw [writeCompactSize, if_neg (by omega), if_pos (by omega)]
      exact ⟨⟨hmax, by rw [hw, h2]; rfl⟩, by rw [hw]; rfl⟩
    · refine (exact_readSized 4 0x10000 maxSize).mono fun n hn => ?_
      obtain ⟨hn, hmin, hmax⟩ := hn
      have hw : writeCompactSize n = 254 :: writeLE 4 n := by
        rw [writeCompactSize, if_neg (by omega), if_neg (by omega), if_pos (by omega)]
      exact ⟨⟨hmax, by rw [hw, h4]; rfl⟩, by rw [hw]; rfl⟩
    · refine (exact_readSized 8 0x100000000 maxSize).mono fun n hn => ?_
      obtain ⟨hn, hmin, hmax⟩ := hn
      have hw : writeCompactSize n = 255 :: writeLE 8 n := by
        rw [writeCompactSize, if_neg (by omega), if_neg (by omega), if_neg (by omega)]
      have hb' : b = 255 := by
        rw [← UInt8.toNat_inj] at h2 h4 ⊢
        rw [UInt8.lt_iff_toNat_lt] at hb
        have hlt := b.toNat_lt
        simp at h2 h4 hb ⊢
        omega
      exact ⟨⟨hmax, by rw [hw, hb']; rfl⟩, by rw [hw]; rfl⟩

theorem exact_readList {α : Type} {r : Reader α} {P : α → Prop} {w : α → List UInt8}
    (hr : Exact r P w) (n : Nat) :
    Exact (readList r n) (fun as => as.length = n ∧ ∀ a ∈ as, P a) (fun as => as.flatMap w) := by
  induction n with
  | zero => exact exact_pure ⟨rfl, fun a ha => absurd ha List.not_mem_nil⟩ rfl
  | succ n ih =>
    refine exact_bind (v := fun _ as => as.tail.flatMap w) hr fun a ha => ?_
    refine exact_bind (v := fun _ _ => []) ih fun as has => ?_
    refine exact_pure ⟨⟨⟨by rw [List.length_cons, has.1], ?_⟩, rfl⟩, List.append_nil _⟩ rfl
    exact List.forall_mem_cons.mpr ⟨ha, has.2⟩

end ByteStream
