import AnkerNode.Net.ReceiveMessages

namespace AnkerNode

open ByteStream Framing

variable {messageStart s pch t : List UInt8} {vRecvMsg before : List CNetMessage}
  {msg : CNetMessage} {f : Frame UInt8} {gs : List (Frame UInt8)}

-- the messages hold the frames of the stream so far
def Framed (messageStart s : List UInt8) (vRecvMsg : List CNetMessage) : Prop :=
  ∃ frames, IsParse 24 declaredSize s frames ∧
    List.Forall₂ (CNetMessage.At messageStart) vRecvMsg frames

theorem CNetMessage.At.complete_iff (hat : msg.At messageStart f) :
    msg.complete = true ↔ f.Complete 24 declaredSize := by
  cases hat with
  | header hdata hhdr hbuf hpos hlt htake hrecv hzero =>
    refine iff_of_false (by simp [complete, hdata]) fun hcomplete => ?_
    exact absurd hcomplete.1 hlt.ne
  | payload hdata hlen hread hlimit hbuf hpos hin hsize htake =>
    rw [Frame.Complete, declaredSize_of_read hread, if_pos hlimit]
    simp [complete, hdata, hpos, hlen]

theorem CNetMessage.At.not_complete (hat : msg.At messageStart f)
    (hopen : f.Open 24 declaredSize) : msg.complete = false := by
  rw [← Bool.not_eq_true, hat.complete_iff]
  intro hcomplete
  exact hopen.ne_complete hcomplete (List.append_nil _).symm

theorem freshMessage_at : (freshMessage messageStart).At messageStart ⟨[], []⟩ :=
  .header rfl rfl rfl rfl (by decide) rfl rfl rfl

theorem currentMessage_of_complete
    (h : ∀ msg ∈ vRecvMsg, msg.complete = true) :
    currentMessage messageStart vRecvMsg = (vRecvMsg, freshMessage messageStart) := by
  rw [currentMessage]
  cases hlast : vRecvMsg.getLast? with
  | none => rw [List.getLast?_eq_none_iff.mp hlast]
  | some msg => simp [h msg (List.mem_of_getLast? hlast)]

theorem currentMessage_of_open (h : msg.complete = false) :
    currentMessage messageStart (before ++ [msg]) = (before, msg) := by
  simp [currentMessage, h]

theorem forall_complete {done : List (Frame UInt8)}
    (hat : List.Forall₂ (CNetMessage.At messageStart) vRecvMsg done)
    (hdone : ∀ f ∈ done, f.Complete 24 declaredSize) : ∀ msg ∈ vRecvMsg, msg.complete = true := by
  induction hat with
  | nil => simp
  | cons hmsg _ ih =>
    obtain ⟨hf, hrest⟩ := List.forall_mem_cons.mp hdone
    exact List.forall_mem_cons.mpr ⟨hmsg.complete_iff.mpr hf, ih hrest⟩

-- The current message, and the complete frames of the messages before it.
theorem currentMessage_spec (h : Framed messageStart s vRecvMsg) :
    ∃ done f, List.Forall₂ (CNetMessage.At messageStart)
        (currentMessage messageStart vRecvMsg).1 done ∧
      (∀ g ∈ done, g.Complete 24 declaredSize) ∧
      (currentMessage messageStart vRecvMsg).2.At messageStart f ∧
      (currentMessage messageStart vRecvMsg).2.complete = false ∧
      s = done.flatMap Frame.bytes ++ f.bytes := by
  obtain ⟨frames, hparse, hat⟩ := h
  obtain ⟨done, hdone, last, hlast, rfl, hs⟩ := exists_cursor hparse
  cases last with
  | none =>
    rw [Option.toList_none, List.append_nil] at hat hs
    rw [currentMessage_of_complete (forall_complete hat hdone)]
    exact ⟨done, ⟨[], []⟩, hat, hdone, freshMessage_at, rfl, by rw [hs]; simp [Frame.bytes]⟩
  | some f =>
    have hbefore := List.forall₂_take_append _ _ _ hat
    obtain ⟨msg, rest, hmsg, hrest, htail⟩ :=
      List.forall₂_cons_right_iff.mp (List.forall₂_drop_append _ _ _ hat)
    rw [List.forall₂_nil_right_iff.mp hrest] at htail
    rw [← List.take_append_drop done.length vRecvMsg, htail,
      currentMessage_of_open (hmsg.not_complete (hlast f rfl))]
    exact ⟨done, f, hbefore, hdone, hmsg, hmsg.not_complete (hlast f rfl), by rw [hs]; simp⟩

theorem Framed.extend {done : List (Frame UInt8)} {g : Frame UInt8}
    (hbefore : List.Forall₂ (CNetMessage.At messageStart) before done)
    (hdone : ∀ f ∈ done, f.Complete 24 declaredSize) (hat : msg.At messageStart g)
    (hfits : g.Complete 24 declaredSize ∨ g.Open 24 declaredSize) :
    Framed messageStart (done.flatMap Frame.bytes ++ g.bytes) (before ++ [msg]) := by
  refine ⟨done ++ [g], (isParse_append_iff (by decide) hdone).mpr ⟨[g], rfl, ?_⟩,
    List.rel_append hbefore (.cons hat .nil)⟩
  rcases hfits with hcomplete | hopen
  · simpa using IsParse.cons hcomplete .nil
  · exact .last hopen

-- What one pass of the loop does, where there are bytes left.
inductive Received (messageStart s pch : List UInt8) :
    ReceiveState ⊕ Except ReceiveFailure (List CNetMessage) → Prop
  | goesOn {vRecvMsg : List CNetMessage} {handled : Nat} (hpos : 0 < handled)
      (hle : handled ≤ pch.length)
      (hframed : Framed messageStart (s ++ pch.take handled) vRecvMsg) :
      Received messageStart s pch (.inl (vRecvMsg, pch.drop handled))
  | refuses (hnot : ∀ t gs, ¬IsParse 24 declaredSize (s ++ pch ++ t) gs) :
      Received messageStart s pch (.inr (.error .refused))

theorem receiveStep_spec (h : Framed messageStart s vRecvMsg) (hpch : pch ≠ []) :
    Received messageStart s pch (receiveStep messageStart (vRecvMsg, pch)) := by
  obtain ⟨done, f, hbefore, hdone, hat, hnot, rfl⟩ := currentMessage_spec h
  have habsorbed := CNetMessage.absorb_spec hat hnot hpch
  simp only [receiveStep, List.isEmpty_iff, hpch, if_false]
  generalize (currentMessage messageStart vRecvMsg).2.absorb pch = result at habsorbed
  cases habsorbed with
  | @ok msg handled g hpos hle hat' hfits hbytes =>
    refine .goesOn hpos hle ?_
    rw [List.append_assoc, ← hbytes]
    exact Framed.extend hbefore hdone hat' hfits
  | @refused handled hlen hsize =>
    refine .refuses fun t gs => ?_
    have hstream : done.flatMap Frame.bytes ++ f.bytes ++ pch ++ t = done.flatMap Frame.bytes ++
        ((f.bytes ++ pch.take handled) ++ (pch.drop handled ++ t)) := by
      simp only [List.append_assoc]
      rw [← List.append_assoc (pch.take handled), List.take_append_drop]
    rw [hstream]
    exact not_isParse_of_refused (by decide) hdone hlen hsize

theorem run_receiveStep {fuel : Nat} (hfuel : pch.length < fuel) (h : Framed messageStart s vRecvMsg) :
    (∃ vRecvMsg', WhileLoop.run (receiveStep messageStart) fuel (vRecvMsg, pch) =
        some (.ok vRecvMsg') ∧ Framed messageStart (s ++ pch) vRecvMsg') ∨
      WhileLoop.run (receiveStep messageStart) fuel (vRecvMsg, pch) = some (.error .refused) ∧
        ∀ t gs, ¬IsParse 24 declaredSize (s ++ pch ++ t) gs := by
  induction fuel generalizing s pch vRecvMsg with
  | zero => omega
  | succ fuel ih =>
    rw [WhileLoop.run]
    by_cases hpch : pch = []
    · subst hpch
      exact .inl ⟨vRecvMsg, rfl, by rwa [List.append_nil]⟩
    · have hreceived := receiveStep_spec h hpch
      generalize receiveStep messageStart (vRecvMsg, pch) = result at hreceived
      cases hreceived with
      | refuses hnot => exact .inr ⟨rfl, hnot⟩
      | @goesOn vRecvMsg' handled hpos hle hframed =>
        have hshort : (pch.drop handled).length < fuel := by
          rw [List.length_drop]
          omega
        have hrest := ih hshort hframed
        rwa [List.append_assoc s, List.take_append_drop] at hrest

theorem receiveMsgBytes_spec (h : Framed messageStart s vRecvMsg) (pch : List UInt8) :
    (∃ vRecvMsg', receiveMsgBytes messageStart vRecvMsg pch = .ok vRecvMsg' ∧
        Framed messageStart (s ++ pch) vRecvMsg') ∨
      receiveMsgBytes messageStart vRecvMsg pch = .error .refused ∧
        ∀ t gs, ¬IsParse 24 declaredSize (s ++ pch ++ t) gs := by
  rw [receiveMsgBytes]
  rcases run_receiveStep (Nat.lt_succ_self _) h with ⟨vRecvMsg', hrun, hframed⟩ | ⟨hrun, hnot⟩
  · exact .inl ⟨vRecvMsg', by rw [hrun]; rfl, hframed⟩
  · exact .inr ⟨by rw [hrun]; rfl, hnot⟩

-- the chunks in order, up to the first refusal
def receiveChunks (messageStart : List UInt8) (chunks : List (List UInt8)) :
    Except ReceiveFailure (List CNetMessage) :=
  chunks.foldlM (receiveMsgBytes messageStart) []

theorem foldlM_receiveMsgBytes (h : Framed messageStart s vRecvMsg) (chunks : List (List UInt8)) :
    (∃ vRecvMsg', chunks.foldlM (receiveMsgBytes messageStart) vRecvMsg = .ok vRecvMsg' ∧
        Framed messageStart (s ++ chunks.flatten) vRecvMsg') ∨
      chunks.foldlM (receiveMsgBytes messageStart) vRecvMsg = .error .refused ∧
        ∀ gs, ¬IsParse 24 declaredSize (s ++ chunks.flatten) gs := by
  induction chunks generalizing s vRecvMsg with
  | nil => exact .inl ⟨vRecvMsg, rfl, by rwa [List.flatten_nil, List.append_nil]⟩
  | cons pch chunks ih =>
    rw [List.foldlM_cons, List.flatten_cons, ← List.append_assoc]
    rcases receiveMsgBytes_spec h pch with ⟨vRecvMsg', hok, hframed⟩ | ⟨hrefused, hnot⟩
    · rw [hok]
      exact ih hframed
    · rw [hrefused]
      exact .inr ⟨rfl, hnot chunks.flatten⟩

theorem receiveChunks_spec (messageStart : List UInt8) (chunks : List (List UInt8)) :
    (∃ vRecvMsg, receiveChunks messageStart chunks = .ok vRecvMsg ∧
        Framed messageStart chunks.flatten vRecvMsg) ∨
      receiveChunks messageStart chunks = .error .refused ∧
        ∀ gs, ¬IsParse 24 declaredSize chunks.flatten gs :=
  foldlM_receiveMsgBytes ⟨[], .nil, .nil⟩ chunks

structure ReceivedMessage where
  in_data : Bool
  partialHeader : List UInt8
  hdr : CMessageHeader
  payload : List UInt8
  complete : Bool
deriving DecidableEq, Repr

-- a message without the room ahead of its data
def CNetMessage.received (msg : CNetMessage) : ReceivedMessage where
  in_data := msg.in_data
  partialHeader := msg.hdrbuf.take msg.nHdrPos
  hdr := msg.hdr
  payload := msg.vRecv.take msg.nDataPos
  complete := msg.complete

def frameReceived (messageStart : List UInt8) (f : Frame UInt8) : ReceivedMessage where
  in_data := decide (f.header.length = 24)
  partialHeader := if f.header.length = 24 then [] else f.header
  hdr :=
    if f.header.length = 24 then
      ((CMessageHeader.read.run f.header).map Prod.fst).getD { pchMessageStart := messageStart }
    else { pchMessageStart := messageStart }
  payload := f.payload
  complete := decide (f.header.length = 24 ∧ declaredSize f.header = some f.payload.length)

theorem CNetMessage.At.received (hat : msg.At messageStart f) :
    msg.received = frameReceived messageStart f := by
  have hcomplete : msg.complete =
      decide (f.header.length = 24 ∧ declaredSize f.header = some f.payload.length) := by
    rw [Bool.eq_iff_iff, hat.complete_iff, decide_eq_true_iff]
    rfl
  rw [CNetMessage.received, frameReceived, hcomplete]
  cases hat with
  | header hdata hhdr hbuf hpos hlt htake hrecv hzero =>
    simp [hdata, hhdr, hpos, htake, hrecv, hlt.ne]
  | payload hdata hlen hread hlimit hbuf hpos hin hsize htake =>
    simp [hdata, hlen, hread, hbuf, hpos, htake]

theorem Framed.received (h : Framed messageStart s vRecvMsg) :
    ∃ frames, IsParse 24 declaredSize s frames ∧
      vRecvMsg.map CNetMessage.received = frames.map (frameReceived messageStart) := by
  obtain ⟨frames, hparse, hat⟩ := h
  refine ⟨frames, hparse, ?_⟩
  have hviews := hat.imp fun _ _ h => h.received
  rwa [← List.forall₂_eq_eq_eq, List.forall₂_map_left_iff, List.forall₂_map_right_iff]

theorem CNetMessage.At.length_le (hat : msg.At messageStart f) :
    msg.vRecv.length ≤ msg.hdr.nMessageSize := by
  cases hat with
  | header hdata hhdr hbuf hpos hlt htake hrecv hzero => simp [hrecv]
  | payload hdata hlen hread hlimit hbuf hpos hin hsize htake => exact hsize

theorem Framed.length_le (h : Framed messageStart s vRecvMsg) :
    ∀ msg ∈ vRecvMsg, msg.vRecv.length ≤ msg.hdr.nMessageSize := by
  obtain ⟨frames, -, hat⟩ := h
  induction hat with
  | nil => simp
  | cons hmsg _ ih => exact List.forall_mem_cons.mpr ⟨hmsg.length_le, ih⟩

-- The messages after some pass of the loop, in some call.
def Passes (messageStart : List UInt8) (chunks : List (List UInt8)) (vRecvMsg : List CNetMessage) :
    Prop :=
  ∃ done pch rest before left, chunks = done ++ pch :: rest ∧
    receiveChunks messageStart done = .ok before ∧
    Relation.ReflTransGen (fun s s' => receiveStep messageStart s = .inl s')
      (before, pch) (vRecvMsg, left)

theorem framed_of_reaches {s' s'' : ReceiveState}
    (h : Relation.ReflTransGen (fun s s' => receiveStep messageStart s = .inl s') s' s'')
    (hs : ∃ s, Framed messageStart s s'.1) : ∃ s, Framed messageStart s s''.1 := by
  induction h with
  | refl => exact hs
  | @tail b c _ hstep ih =>
    obtain ⟨s, hframed⟩ := ih
    by_cases hleft : b.2 = []
    · simp [receiveStep, hleft] at hstep
    · have hreceived := receiveStep_spec hframed hleft
      rw [hstep] at hreceived
      cases hreceived with
      | goesOn hpos hle hnext => exact ⟨_, hnext⟩

theorem Passes.length_le {chunks : List (List UInt8)} (h : Passes messageStart chunks vRecvMsg) :
    ∀ msg ∈ vRecvMsg, msg.vRecv.length ≤ msg.hdr.nMessageSize := by
  obtain ⟨done, pch, rest, before, left, -, hdone, hreaches⟩ := h
  rcases receiveChunks_spec messageStart done with ⟨before', hok, hframed⟩ | ⟨hrefused, -⟩
  · cases hok.symm.trans hdone
    obtain ⟨s, hlast⟩ := framed_of_reaches hreaches ⟨_, hframed⟩
    exact hlast.length_le
  · cases hrefused.symm.trans hdone

-- What a stream leaves, with no mention of chunks.
inductive Parsed (messageStart s : List UInt8) : Except ReceiveFailure (List ReceivedMessage) → Prop
  | ok {frames : List (Frame UInt8)} (hparse : IsParse 24 declaredSize s frames) :
      Parsed messageStart s (.ok (frames.map (frameReceived messageStart)))
  | refused (hnot : ∀ frames, ¬IsParse 24 declaredSize s frames) :
      Parsed messageStart s (.error .refused)

theorem Parsed.unique {r r' : Except ReceiveFailure (List ReceivedMessage)}
    (h : Parsed messageStart s r) (h' : Parsed messageStart s r') : r = r' := by
  cases h with
  | ok hparse =>
    cases h' with
    | ok hparse' => rw [hparse.unique (by decide) hparse']
    | refused hnot => exact absurd hparse (hnot _)
  | refused hnot =>
    cases h' with
    | ok hparse' => exact absurd hparse' (hnot _)
    | refused hnot' => rfl

theorem receiveChunks_parsed (messageStart : List UInt8) (chunks : List (List UInt8)) :
    Parsed messageStart chunks.flatten
      ((receiveChunks messageStart chunks).map (List.map CNetMessage.received)) := by
  rcases receiveChunks_spec messageStart chunks with ⟨vRecvMsg, hok, hframed⟩ | ⟨herror, hnot⟩
  · obtain ⟨frames, hparse, hviews⟩ := hframed.received
    rw [hok, Except.map, hviews]
    exact .ok hparse
  · rw [herror]
    exact .refused hnot

theorem message_framing_independent_of_cuts (messageStart : List UInt8)
    (chunks : List (List UInt8)) :
    (∀ chunks' : List (List UInt8), chunks'.flatten = chunks.flatten →
      (receiveChunks messageStart chunks').map (List.map CNetMessage.received) =
        (receiveChunks messageStart chunks).map (List.map CNetMessage.received)) ∧
      (∀ vRecvMsg, receiveChunks messageStart chunks = .ok vRecvMsg →
        ∃! frames, IsParse 24 declaredSize chunks.flatten frames ∧
          vRecvMsg.map CNetMessage.received = frames.map (frameReceived messageStart)) ∧
      (∀ e, receiveChunks messageStart chunks = .error e →
        e = .refused ∧ ∀ frames, ¬IsParse 24 declaredSize chunks.flatten frames) ∧
      ∀ vRecvMsg, Passes messageStart chunks vRecvMsg →
        ∀ msg ∈ vRecvMsg, msg.vRecv.length ≤ msg.hdr.nMessageSize := by
  refine ⟨?_, ?_, ?_, fun vRecvMsg h => h.length_le⟩
  · intro chunks' hflatten
    have hparsed := receiveChunks_parsed messageStart chunks'
    rw [hflatten] at hparsed
    exact hparsed.unique (receiveChunks_parsed messageStart chunks)
  · intro vRecvMsg hok
    rcases receiveChunks_spec messageStart chunks with ⟨vRecvMsg', hok', hframed⟩ | ⟨herror, -⟩
    · cases hok.symm.trans hok'
      obtain ⟨frames, hparse, hviews⟩ := hframed.received
      exact ⟨frames, ⟨hparse, hviews⟩, fun frames' h => h.1.unique (by decide) hparse⟩
    · cases hok.symm.trans herror
  · intro e he
    rcases receiveChunks_spec messageStart chunks with ⟨vRecvMsg, hok, -⟩ | ⟨herror, hnot⟩
    · cases he.symm.trans hok
    · cases he.symm.trans herror
      exact ⟨rfl, hnot⟩

-- A header that declares no payload is a message of its own, cut as it may be.
example : (receiveChunks [] [List.replicate 20 0, List.replicate 30 0]).map
    (List.map fun msg => (msg.complete, msg.nHdrPos)) =
      .ok [(true, 24), (true, 24), (false, 2)] := by
  decide +kernel

end AnkerNode
