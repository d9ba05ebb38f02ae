import AnkerNode.Lib.Framing
import AnkerNode.Lib.Loops
import AnkerNode.Primitives.Uint256
import AnkerNode.Serialize.Compressor
import Mathlib.Logic.Relation

namespace AnkerNode

open ByteStream Framing

def MAX_PROTOCOL_MESSAGE_LENGTH : Nat := 4 * 1000 * 1000

structure CMessageHeader where
  pchMessageStart : List UInt8
  pchCommand : List UInt8 := List.replicate 12 0
  nMessageSize : Nat := uint32 (-1)
  nChecksum : Nat := 0
deriving DecidableEq, Repr

def CMessageHeader.read : Reader CMessageHeader := do
  let pchMessageStart ← readBytes 4
  let pchCommand ← readBytes 12
  let nMessageSize ← readLE 4
  let nChecksum ← readLE 4
  pure { pchMessageStart, pchCommand, nMessageSize, nChecksum }

structure CNetMessage where
  in_data : Bool := false
  hdrbuf : List UInt8 := List.replicate 24 0
  hdr : CMessageHeader
  nHdrPos : Nat := 0
  vRecv : List UInt8 := []
  nDataPos : Nat := 0
deriving DecidableEq, Repr

-- refused: a negative return or false; overrun: a write beyond a buffer; stuck: a loop that does
-- not come to an end
inductive ReceiveFailure where
  | refused
  | overrun
  | stuck
deriving DecidableEq, Repr

def memcpy (buf : List UInt8) (pos : Nat) (bytes : List UInt8) : Except ReceiveFailure (List UInt8) :=
  if pos + bytes.length ≤ buf.length then
    .ok (buf.take pos ++ bytes ++ buf.drop (pos + bytes.length))
  else .error .overrun

def resize (buf : List UInt8) (n : Nat) : List UInt8 :=
  buf.take n ++ List.replicate (n - buf.length) 0

namespace CNetMessage

def complete (msg : CNetMessage) : Bool := msg.in_data && msg.hdr.nMessageSize == msg.nDataPos

def parseHeader (msg : CNetMessage) : Except ReceiveFailure CNetMessage :=
  match CMessageHeader.read.run msg.hdrbuf with
  | none => .error .refused
  | some (hdr, rest) =>
    if MAX_SIZE < hdr.nMessageSize then .error .refused
    else .ok { msg with hdr := hdr, hdrbuf := rest, in_data := true }

def readHeader (msg : CNetMessage) (pch : List UInt8) : Except ReceiveFailure (CNetMessage × Nat) := do
  let nRemaining := uint32 (24 - msg.nHdrPos)
  let nCopy := min nRemaining pch.length
  let hdrbuf ← memcpy msg.hdrbuf msg.nHdrPos (pch.take nCopy)
  let msg := { msg with hdrbuf := hdrbuf, nHdrPos := msg.nHdrPos + nCopy }
  if msg.nHdrPos < 24 then .ok (msg, nCopy) else (msg.parseHeader).map fun msg => (msg, nCopy)

-- up to 256 KiB ahead of the data, and no more than the message
def grow (msg : CNetMessage) (nCopy : Nat) : List UInt8 :=
  if msg.vRecv.length < uint32 (msg.nDataPos + nCopy) then
    resize msg.vRecv (min msg.hdr.nMessageSize (uint32 (msg.nDataPos + nCopy + 256 * 1024)))
  else msg.vRecv

def readData (msg : CNetMessage) (pch : List UInt8) : Except ReceiveFailure (CNetMessage × Nat) := do
  let nRemaining := uint32 (msg.hdr.nMessageSize - msg.nDataPos)
  let nCopy := min nRemaining pch.length
  let vRecv ← memcpy (msg.grow nCopy) msg.nDataPos (pch.take nCopy)
  .ok ({ msg with vRecv := vRecv, nDataPos := msg.nDataPos + nCopy }, nCopy)

def refuseOversized (result : CNetMessage × Nat) : Except ReceiveFailure (CNetMessage × Nat) :=
  if result.1.in_data && decide (MAX_PROTOCOL_MESSAGE_LENGTH < result.1.hdr.nMessageSize) then
    .error .refused
  else .ok result

def absorb (msg : CNetMessage) (pch : List UInt8) : Except ReceiveFailure (CNetMessage × Nat) :=
  (if !msg.in_data then msg.readHeader pch else msg.readData pch).bind refuseOversized

end CNetMessage

-- a message as its constructor leaves it
def freshMessage (messageStart : List UInt8) : CNetMessage where
  hdr := { pchMessageStart := messageStart }

abbrev ReceiveState := List CNetMessage × List UInt8

-- the messages before the current incomplete one, and this one or a new one
def currentMessage (messageStart : List UInt8) (vRecvMsg : List CNetMessage) :
    List CNetMessage × CNetMessage :=
  match vRecvMsg.getLast? with
  | none => ([], freshMessage messageStart)
  | some msg =>
    if msg.complete then (vRecvMsg, freshMessage messageStart) else (vRecvMsg.dropLast, msg)

def receiveStep (messageStart : List UInt8) (s : ReceiveState) :
    ReceiveState ⊕ Except ReceiveFailure (List CNetMessage) :=
  if s.2.isEmpty then .inr (.ok s.1)
  else
    let current := currentMessage messageStart s.1
    match current.2.absorb s.2 with
    | .error e => .inr (.error e)
    | .ok (msg, handled) => .inl (current.1 ++ [msg], s.2.drop handled)

def receiveMsgBytes (messageStart : List UInt8) (vRecvMsg : List CNetMessage) (pch : List UInt8) :
    Except ReceiveFailure (List CNetMessage) :=
  (WhileLoop.run (receiveStep messageStart) (pch.length + 1) (vRecvMsg, pch)).getD (.error .stuck)

theorem CMessageHeader.consumes_read : Consumes CMessageHeader.read 24 :=
  consumes_bind (consumes_readBytes 4) fun _ => consumes_bind (consumes_readBytes 12) fun _ =>
    consumes_bind (consumes_readLE 4) fun _ => consumes_bind (consumes_readLE 4) fun _ =>
      consumes_pure _

-- the payload size that 24 bytes of header declare, within the limit
def declaredSize (header : List UInt8) : Option Nat :=
  (CMessageHeader.read.run header).bind fun result =>
    if result.1.nMessageSize ≤ MAX_PROTOCOL_MESSAGE_LENGTH then some result.1.nMessageSize else none

-- What a message holds after the bytes of a frame.
inductive CNetMessage.At (messageStart : List UInt8) : CNetMessage → Frame UInt8 → Prop
  | header {msg : CNetMessage} {h : List UInt8} (hdata : msg.in_data = false)
      (hhdr : msg.hdr = { pchMessageStart := messageStart }) (hbuf : msg.hdrbuf.length = 24)
      (hpos : msg.nHdrPos = h.length) (hlt : h.length < 24) (htake : msg.hdrbuf.take h.length = h)
      (hrecv : msg.vRecv = []) (hzero : msg.nDataPos = 0) : At messageStart msg ⟨h, []⟩
  | payload {msg : CNetMessage} {h p : List UInt8} (hdata : msg.in_data = true)
      (hlen : h.length = 24) (hread : CMessageHeader.read.run h = some (msg.hdr, []))
      (hlimit : msg.hdr.nMessageSize ≤ MAX_PROTOCOL_MESSAGE_LENGTH) (hbuf : msg.hdrbuf = [])
      (hpos : msg.nDataPos = p.length) (hin : p.length ≤ msg.vRecv.length)
      (hsize : msg.vRecv.length ≤ msg.hdr.nMessageSize) (htake : msg.vRecv.take p.length = p) :
      At messageStart msg ⟨h, p⟩

theorem length_resize (buf : List UInt8) (n : Nat) : (resize buf n).length = n := by
  simp only [resize, List.length_append, List.length_take, List.length_replicate]
  omega

theorem take_resize {buf : List UInt8} {k n : Nat} (hk : k ≤ buf.length) (hn : k ≤ n) :
    (resize buf n).take k = buf.take k := by
  rw [resize, List.take_append_of_le_length (by rw [List.length_take]; omega), List.take_take,
    Nat.min_eq_left hn]

theorem memcpy_eq (buf bytes : List UInt8) (pos : Nat) (h : pos + bytes.length ≤ buf.length) :
    ∃ buf', memcpy buf pos bytes = .ok buf' ∧ buf'.length = buf.length ∧
      buf'.take (pos + bytes.length) = buf.take pos ++ bytes := by
  refine ⟨buf.take pos ++ bytes ++ buf.drop (pos + bytes.length), by rw [memcpy, if_pos h], ?_, ?_⟩
  · simp only [List.length_append, List.length_take, List.length_drop]
    omega
  · rw [List.take_append_of_le_length]
    · apply List.take_of_length_le
      simp only [List.length_append, List.length_take]
      omega
    · simp only [List.length_append, List.length_take]
      omega

-- What a read leaves of a frame and the bytes at hand.
inductive Absorbed (messageStart : List UInt8) (f : Frame UInt8) (pch : List UInt8) :
    Except ReceiveFailure (CNetMessage × Nat) → Prop
  | ok {msg : CNetMessage} {handled : Nat} {g : Frame UInt8} (hpos : 0 < handled)
      (hle : handled ≤ pch.length) (hat : msg.At messageStart g)
      (hfits : g.Complete 24 declaredSize ∨ g.Open 24 declaredSize)
      (hbytes : g.bytes = f.bytes ++ pch.take handled) :
      Absorbed messageStart f pch (.ok (msg, handled))
  | refused {handled : Nat} (hlen : (f.bytes ++ pch.take handled).length = 24)
      (hsize : declaredSize (f.bytes ++ pch.take handled) = none) :
      Absorbed messageStart f pch (.error .refused)

theorem declaredSize_of_read {header : List UInt8} {hdr : CMessageHeader} {rest : List UInt8}
    (hread : CMessageHeader.read.run header = some (hdr, rest)) :
    declaredSize header =
      if hdr.nMessageSize ≤ MAX_PROTOCOL_MESSAGE_LENGTH then some hdr.nMessageSize else none := by
  rw [declaredSize, hread]
  rfl

namespace CNetMessage

variable {messageStart pch : List UInt8} {msg : CNetMessage} {f : Frame UInt8}

-- What `readHeader` copies into the buffer and how it goes on.
theorem readHeader_eq {h : List UInt8} (hbuf : msg.hdrbuf.length = 24)
    (hpos : msg.nHdrPos = h.length) (hlt : h.length < 24) (htake : msg.hdrbuf.take h.length = h)
    {nCopy : Nat} (hcopy : min (24 - h.length) pch.length = nCopy) :
    ∃ hdrbuf, hdrbuf.length = 24 ∧ hdrbuf.take (h.length + nCopy) = h ++ pch.take nCopy ∧
      msg.readHeader pch =
        if h.length + nCopy < 24 then
          .ok ({ msg with hdrbuf := hdrbuf, nHdrPos := h.length + nCopy }, nCopy)
        else (parseHeader { msg with hdrbuf := hdrbuf, nHdrPos := h.length + nCopy }).map
          fun msg => (msg, nCopy) := by
  have hremaining : uint32 (24 - (h.length : Int)) = 24 - h.length := by
    rw [uint32]
    omega
  have hlength : (pch.take nCopy).length = nCopy := by
    rw [List.length_take]
    omega
  obtain ⟨hdrbuf, hmemcpy, hbuf', htake'⟩ := memcpy_eq msg.hdrbuf (pch.take nCopy) h.length
    (by omega)
  rw [hlength, htake] at htake'
  refine ⟨hdrbuf, hbuf'.trans hbuf, htake', ?_⟩
  simp only [readHeader, hpos, hremaining, hcopy, hmemcpy, bind, Except.bind]

-- A header that is all there: its message goes on to the data, or is refused.
theorem absorb_whole_header {header : List UInt8} {k : Nat} (hlen : header.length = 24)
    (hk : 0 < k) (hle : k ≤ pch.length) (hbytes : header = f.bytes ++ pch.take k)
    (hbuf : msg.hdrbuf = header) (hrecv : msg.vRecv = []) (hzero : msg.nDataPos = 0) :
    Absorbed messageStart f pch ((msg.parseHeader.map fun msg => (msg, k)).bind refuseOversized) := by
  obtain ⟨hdr, hread⟩ := CMessageHeader.consumes_read header (by omega)
  rw [List.drop_of_length_le (by omega)] at hread
  have hdeclared := declaredSize_of_read hread
  have hrefused : ¬hdr.nMessageSize ≤ MAX_PROTOCOL_MESSAGE_LENGTH →
      Absorbed messageStart f pch (.error .refused) := by
    intro hlarge
    rw [if_neg hlarge] at hdeclared
    exact .refused (hbytes ▸ hlen) (hbytes ▸ hdeclared)
  rw [parseHeader, hbuf, hread]
  by_cases hmax : MAX_SIZE < hdr.nMessageSize
  · simp only [if_pos hmax]
    have hlimits : MAX_PROTOCOL_MESSAGE_LENGTH < MAX_SIZE := by decide
    exact hrefused (by omega)
  · simp only [if_neg hmax, Except.map, Except.bind, refuseOversized, Bool.true_and,
      decide_eq_true_eq]
    by_cases hlimit : hdr.nMessageSize ≤ MAX_PROTOCOL_MESSAGE_LENGTH
    · rw [if_pos hlimit] at hdeclared
      rw [if_neg (by omega)]
      refine .ok (g := ⟨header, []⟩) hk hle ?_ ?_ (by rw [← hbytes, Frame.bytes, List.append_nil])
      · refine .payload rfl hlen hread hlimit rfl hzero ?_ ?_ ?_
        · exact Nat.zero_le _
        · simp [hrecv]
        · rfl
      · rcases Nat.eq_zero_or_pos hdr.nMessageSize with hsize | hsize
        · exact .inl ⟨hlen, by rw [hdeclared, hsize]; rfl⟩
        · exact .inr (.payload hlen hdeclared hsize)
    · rw [if_pos (by omega)]
      exact hrefused hlimit

theorem absorb_header (hat : msg.At messageStart f) (hdata : msg.in_data = false)
    (hpch : pch ≠ []) : Absorbed messageStart f pch (msg.absorb pch) := by
  cases hat with
  | payload hdata' => exact absurd (hdata.symm.trans hdata') Bool.false_ne_true
  | @header h _ hhdr hbuf hpos hlt htake hrecv hzero =>
    have hbytes := List.length_pos_of_ne_nil hpch
    generalize hcopy : min (24 - h.length) pch.length = nCopy
    obtain ⟨hdrbuf, hbuf', htake', hread⟩ := readHeader_eq hbuf hpos hlt htake hcopy
    have hheader : (h ++ pch.take nCopy).length = h.length + nCopy := by
      rw [List.length_append, List.length_take]
      omega
    simp only [absorb, hdata, Bool.not_false, if_true, hread]
    by_cases hshort : h.length + nCopy < 24
    · rw [if_pos hshort]
      simp only [Except.bind, refuseOversized, Bool.false_and, Bool.false_eq_true, if_false]
      refine .ok (g := ⟨h ++ pch.take nCopy, []⟩) (by omega) (by omega) ?_ (.inr ?_) ?_
      · rw [← hheader] at hshort htake'
        exact .header rfl hhdr hbuf' hheader.symm hshort htake' hrecv hzero
      · refine .header (List.ne_nil_of_length_pos ?_) (by omega)
        omega
      · simp [Frame.bytes]
    · rw [if_neg hshort]
      rw [List.take_of_length_le (by omega)] at htake'
      refine absorb_whole_header hbuf' (by omega) (by omega) ?_ rfl hrecv hzero
      simp [htake', Frame.bytes]

theorem grow_spec {nCopy : Nat} (hsum : msg.nDataPos + nCopy ≤ msg.hdr.nMessageSize)
    (hlimit : msg.hdr.nMessageSize ≤ MAX_PROTOCOL_MESSAGE_LENGTH)
    (hin : msg.nDataPos ≤ msg.vRecv.length) (hsize : msg.vRecv.length ≤ msg.hdr.nMessageSize) :
    msg.nDataPos + nCopy ≤ (msg.grow nCopy).length ∧
      (msg.grow nCopy).length ≤ msg.hdr.nMessageSize ∧
      (msg.grow nCopy).take msg.nDataPos = msg.vRecv.take msg.nDataPos := by
  simp only [MAX_PROTOCOL_MESSAGE_LENGTH] at hlimit
  have hnext : uint32 (msg.nDataPos + nCopy) = msg.nDataPos + nCopy :=
    uint32_natCast (n := msg.nDataPos + nCopy) (by omega)
  have hahead : uint32 (msg.nDataPos + nCopy + 256 * 1024) = msg.nDataPos + nCopy + 256 * 1024 :=
    uint32_natCast (n := msg.nDataPos + nCopy + 256 * 1024) (by omega)
  rw [grow, hnext, hahead]
  split
  · rw [length_resize, take_resize hin (by omega)]
    exact ⟨by omega, by omega, rfl⟩
  · exact ⟨by omega, hsize, rfl⟩

theorem absorb_data (hat : msg.At messageStart f) (hdata : msg.in_data = true)
    (hnot : msg.complete = false) (hpch : pch ≠ []) :
    Absorbed messageStart f pch (msg.absorb pch) := by
  cases hat with
  | header hdata' => exact absurd (hdata'.symm.trans hdata) Bool.false_ne_true
  | @payload h p _ hlen hread hlimit hbuf hpos hin hsize htake =>
    have hbytes := List.length_pos_of_ne_nil hpch
    have hlt : p.length < msg.hdr.nMessageSize := by
      simp only [complete, hdata, Bool.true_and, beq_eq_false_iff_ne, hpos] at hnot
      omega
    have hremaining : uint32 ((msg.hdr.nMessageSize : Int) - p.length) =
        msg.hdr.nMessageSize - p.length := by
      simp only [MAX_PROTOCOL_MESSAGE_LENGTH] at hlimit
      exact uint32_sub hlt.le (by omega)
    generalize hcopy : min (msg.hdr.nMessageSize - p.length) pch.length = nCopy
    have hlength : (pch.take nCopy).length = nCopy := by
      rw [List.length_take]
      omega
    obtain ⟨hroom, hgrown, hkept⟩ := grow_spec (by omega : msg.nDataPos + nCopy ≤ _) hlimit (by omega) hsize
    rw [hpos] at hroom hkept
    obtain ⟨vRecv, hmemcpy, hlength', htake'⟩ := memcpy_eq (msg.grow nCopy) (pch.take nCopy) p.length
      (by omega)
    rw [hlength, hkept, htake] at htake'
    have habsorb : msg.absorb pch =
        .ok ({ msg with vRecv := vRecv, nDataPos := p.length + nCopy }, nCopy) := by
      have hwithin : decide (MAX_PROTOCOL_MESSAGE_LENGTH < msg.hdr.nMessageSize) = false :=
        decide_eq_false (by omega)
      simp only [absorb, hdata, Bool.not_true, Bool.false_eq_true, if_false, readData, hpos,
        hremaining, hcopy, hmemcpy, bind, Except.bind, refuseOversized, hwithin, Bool.and_false]
    have hpayload : (p ++ pch.take nCopy).length = p.length + nCopy := by
      rw [List.length_append, hlength]
    have hdeclared : declaredSize h = some msg.hdr.nMessageSize := by
      rw [declaredSize_of_read hread, if_pos hlimit]
    rw [habsorb]
    refine .ok (g := ⟨h, p ++ pch.take nCopy⟩) (by omega) (by omega) ?_ ?_ ?_
    · have hfilled : (p ++ pch.take nCopy).length ≤ vRecv.length := by omega
      have hbounded : vRecv.length ≤ msg.hdr.nMessageSize := by omega
      rw [← hpayload] at htake'
      exact .payload hdata hlen hread hlimit hbuf hpayload.symm hfilled hbounded htake'
    · rcases Nat.lt_or_ge (p.length + nCopy) msg.hdr.nMessageSize with hopen | hfull
      · exact .inr (.payload hlen hdeclared (by omega))
      · refine .inl ⟨hlen, ?_⟩
        rw [hdeclared, hpayload]
        congr 1
        omega
    · simp [Frame.bytes]

theorem absorb_spec (hat : msg.At messageStart f) (hnot : msg.complete = false) (hpch : pch ≠ []) :
    Absorbed messageStart f pch (msg.absorb pch) := by
  cases hdata : msg.in_data with
  | false => exact absorb_header hat hdata hpch
  | true => exact absorb_data hat hdata hnot hpch

end CNetMessage

end AnkerNode
