import Mathlib.Data.List.Basic

-- Streams cut into a header of fixed length and a payload of the size that the header declares.
namespace Framing

structure Frame (β : Type) where
  header : List β
  payload : List β
deriving DecidableEq, Repr

namespace Frame

variable {β : Type} (len : Nat) (size : List β → Option Nat)

def bytes (f : Frame β) : List β := f.header ++ f.payload

def Complete (f : Frame β) : Prop :=
  f.header.length = len ∧ size f.header = some f.payload.length

-- A frame that has begun and lacks a part of its header or of its payload.
inductive Open : Frame β → Prop
  | header {h : List β} (hne : h ≠ []) (hlt : h.length < len) : Open ⟨h, []⟩
  | payload {h p : List β} {n : Nat} (hlen : h.length = len) (hsize : size h = some n)
      (hlt : p.length < n) : Open ⟨h, p⟩

variable {len size} {f : Frame β}

theorem Complete.length_le (h : f.Complete len size) : len ≤ f.bytes.length := by
  rw [bytes, List.length_append, h.1]
  exact Nat.le_add_right _ _

theorem Open.bytes_ne_nil (hpos : 0 < len) (h : f.Open len size) : f.bytes ≠ [] := by
  cases h with
  | header hne hlt => simpa [bytes] using hne
  | payload hlen hsize hlt =>
    apply List.ne_nil_of_length_pos
    simp only [bytes, List.length_append]
    omega

end Frame

variable {β : Type} (len : Nat) (size : List β → Option Nat)

inductive IsParse : List β → List (Frame β) → Prop
  | nil : IsParse [] []
  | last {f : Frame β} (hopen : f.Open len size) : IsParse f.bytes [f]
  | cons {f : Frame β} {s : List β} {fs : List (Frame β)} (hcomplete : f.Complete len size)
      (hrest : IsParse s fs) : IsParse (f.bytes ++ s) (f :: fs)

variable {len size} {s t h : List β} {f : Frame β} {fs gs : List (Frame β)}

theorem Frame.Complete.inj {g : Frame β} (hf : f.Complete len size) (hg : g.Complete len size)
    (h : f.bytes ++ s = g.bytes ++ t) : f = g ∧ s = t := by
  simp only [Frame.bytes, List.append_assoc] at h
  obtain ⟨hheader, hrest⟩ := List.append_inj h (hf.1.trans hg.1.symm)
  have hsize := hf.2.symm.trans ((congrArg size hheader).trans hg.2)
  obtain ⟨hpayload, htail⟩ := List.append_inj hrest (Option.some.inj hsize)
  cases f
  cases g
  exact ⟨by simp_all, htail⟩

theorem Frame.Open.ne_complete {g : Frame β} (hg : g.Open len size) (hf : f.Complete len size) :
    g.bytes ≠ f.bytes ++ t := by
  intro h
  have hlength := congrArg List.length h
  cases hg with
  | header hne hlt =>
    simp only [Frame.bytes, List.length_append, List.length_nil] at hlength
    have := hf.1
    omega
  | @payload header p n hlen hsize hlt =>
    simp only [Frame.bytes, List.append_assoc] at h
    obtain ⟨rfl, -⟩ := List.append_inj h (hlen.trans hf.1.symm)
    have hn : n = f.payload.length := Option.some.inj (hsize.symm.trans hf.2)
    simp only [Frame.bytes, List.length_append] at hlength
    omega

theorem Frame.Open.inj {g : Frame β} (hf : f.Open len size) (hg : g.Open len size)
    (h : f.bytes = g.bytes) : f = g := by
  have hlength := congrArg List.length h
  cases hf with
  | header hne hlt =>
    cases hg with
    | header hne' hlt' => simpa [Frame.bytes] using h
    | payload hlen hsize hlt' =>
      simp only [Frame.bytes, List.length_append, List.length_nil] at hlength
      omega
  | payload hlen hsize hlt =>
    cases hg with
    | header hne' hlt' =>
      simp only [Frame.bytes, List.length_append, List.length_nil] at hlength
      omega
    | payload hlen' hsize' hlt' =>
      obtain ⟨rfl, rfl⟩ := List.append_inj h (hlen.trans hlen'.symm)
      rfl

theorem IsParse.of_nil (hpos : 0 < len) (hparse : IsParse len size s fs) (hs : s = []) :
    fs = [] := by
  cases hparse with
  | nil => rfl
  | last hopen => exact absurd hs (hopen.bytes_ne_nil hpos)
  | @cons f s fs hcomplete hrest =>
    have hlong := hcomplete.length_le
    have hzero := congrArg List.length hs
    simp only [List.length_append, List.length_nil] at hzero
    omega

-- A complete frame at the start of the stream is the first one of every parse.
theorem IsParse.of_complete (hf : f.Complete len size) (hpos : 0 < len)
    (hparse : IsParse len size s gs) (hs : s = f.bytes ++ t) :
    ∃ fs, gs = f :: fs ∧ IsParse len size t fs := by
  cases hparse with
  | nil =>
    have hlong := hf.length_le
    have hzero := congrArg List.length hs
    simp only [List.length_append, List.length_nil] at hzero
    omega
  | last hopen => exact absurd hs (hopen.ne_complete hf)
  | @cons g s fs hcomplete hrest =>
    obtain ⟨rfl, rfl⟩ := hcomplete.inj hf hs
    exact ⟨fs, rfl, hrest⟩

theorem IsParse.unique (hpos : 0 < len) (hfs : IsParse len size s fs) (hgs : IsParse len size s gs) :
    fs = gs := by
  induction hfs generalizing gs with
  | nil => exact (hgs.of_nil hpos rfl).symm
  | @last f hopen =>
    generalize hs : f.bytes = s at hgs
    cases hgs with
    | nil => exact absurd hs (hopen.bytes_ne_nil hpos)
    | last hopen' => rw [hopen.inj hopen' hs]
    | cons hcomplete hrest => exact absurd hs (hopen.ne_complete hcomplete)
  | @cons f s fs hcomplete hrest ih =>
    obtain ⟨gs', rfl, hgs'⟩ := hgs.of_complete hcomplete hpos rfl
    rw [ih hgs']

theorem isParse_append_iff (hpos : 0 < len) {done : List (Frame β)}
    (hdone : ∀ f ∈ done, f.Complete len size) :
    IsParse len size (done.flatMap Frame.bytes ++ t) gs ↔
      ∃ fs, gs = done ++ fs ∧ IsParse len size t fs := by
  induction done generalizing gs with
  | nil => simp
  | cons f done ih =>
    have hf := hdone f (List.mem_cons_self ..)
    have ih : ∀ gs, IsParse len size (done.flatMap Frame.bytes ++ t) gs ↔
        ∃ fs, gs = done ++ fs ∧ IsParse len size t fs :=
      fun gs => ih fun g hg => hdone g (List.mem_cons_of_mem _ hg)
    rw [List.flatMap_cons, List.append_assoc]
    constructor
    · intro hparse
      obtain ⟨gs', rfl, hgs'⟩ := hparse.of_complete hf hpos rfl
      obtain ⟨fs, rfl, hfs⟩ := (ih gs').mp hgs'
      exact ⟨fs, rfl, hfs⟩
    · rintro ⟨fs, rfl, hfs⟩
      exact .cons hf ((ih _).mpr ⟨fs, rfl, hfs⟩)

theorem exists_cursor (hparse : IsParse len size s fs) :
    ∃ done, (∀ f ∈ done, f.Complete len size) ∧ ∃ last, (∀ f ∈ last, f.Open len size) ∧
      fs = done ++ Option.toList last ∧ s = fs.flatMap Frame.bytes := by
  induction hparse with
  | nil => exact ⟨[], by simp, none, by simp, rfl, rfl⟩
  | @last f hopen => exact ⟨[], by simp, some f, by simpa using hopen, rfl, by simp⟩
  | cons hcomplete hrest ih =>
    obtain ⟨done, hdone, last, hlast, rfl, rfl⟩ := ih
    exact ⟨_ :: done, List.forall_mem_cons.mpr ⟨hcomplete, hdone⟩, last, hlast, rfl, by simp⟩

-- A header that the stream comes to and that declares no size leaves it without a parse.
theorem not_isParse_of_refused (hpos : 0 < len) {done : List (Frame β)}
    (hdone : ∀ f ∈ done, f.Complete len size) (hlen : h.length = len) (hsize : size h = none) :
    ¬IsParse len size (done.flatMap Frame.bytes ++ (h ++ t)) gs := by
  rw [isParse_append_iff hpos hdone]
  rintro ⟨fs, -, hparse⟩
  generalize hs : h ++ t = s at hparse
  have hheader : ∀ {f : Frame β} {t' : List β}, f.header.length = len → h ++ t = f.bytes ++ t' →
      size f.header = none := by
    intro f t' hf heq
    rw [Frame.bytes, List.append_assoc] at heq
    rw [← (List.append_inj heq (hlen.trans hf.symm)).1]
    exact hsize
  cases hparse with
  | nil =>
    have hzero := congrArg List.length hs
    simp only [List.length_append, List.length_nil] at hzero
    omega
  | @last f hopen =>
    cases hopen with
    | header hne hlt =>
      have hlength := congrArg List.length hs
      simp only [Frame.bytes, List.length_append, List.length_nil] at hlength
      omega
    | @payload header p n hlen' hsize' hlt =>
      have hbytes : h ++ t = (⟨header, p⟩ : Frame β).bytes ++ [] := by rw [hs, List.append_nil]
      have hnone : size header = none := hheader hlen' hbytes
      exact Option.some_ne_none n (hsize'.symm.trans hnone)
  | @cons f s' fs hcomplete hrest =>
    exact Option.some_ne_none _ (hcomplete.2.symm.trans (hheader hcomplete.1 hs))

end Framing
