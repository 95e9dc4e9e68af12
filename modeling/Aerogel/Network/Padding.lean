import Aerogel.Network.EchoReply

/-! # Padding comes back

A short frame is padded to the minimum length of a link, and the total length field says where the IPv4
packet in it ends. `ipv4::parse` does not look at that field: what follows the packet is taken for a part of
the message and is sent back, or makes the answer too long. -/

namespace Aerogel

namespace Net

variable {T : Target} {ourIp : UInt32}

/-! ## Frames with something behind them -/

/-- A byte in front of the padding. -/
theorem getD_append_of_lt {f : List UInt8} {i : Nat} (h : i < f.length) (pad : List UInt8) :
    (f ++ pad).getD i 0 = f.getD i 0 := by
  rw [List.getD_eq_getElem?_getD, List.getElem?_append_left h, ← List.getD_eq_getElem?_getD]

theorem be16At_append_of_lt {f : List UInt8} {i : Nat} (h : i + 1 < f.length) (pad : List UInt8) :
    be16At (f ++ pad) i = be16At f i := by
  rw [be16At, getD_append_of_lt (by omega), getD_append_of_lt h, be16At]

theorem be32At_append_of_lt {f : List UInt8} {i : Nat} (h : i + 3 < f.length) (pad : List UInt8) :
    be32At (f ++ pad) i = be32At f i := by
  rw [be32At, getD_append_of_lt (by omega), getD_append_of_lt (by omega), getD_append_of_lt (by omega),
    getD_append_of_lt h, be32At]

/-- The header in front of the padding. -/
theorem drop_append_payload {f : List UInt8} (h : 14 ≤ f.length) (pad : List UInt8) :
    (f ++ pad).drop 14 = f.drop 14 ++ pad := List.drop_append_of_le_length h

theorem IsEchoRequest.ihl_append {f : List UInt8} (h : IsEchoRequest ourIp f) (pad : List UInt8) :
    ihl ((f ++ pad).drop 14) = ihl (f.drop 14) := by
  have hfits := h.fits
  rw [drop_append_payload h.etype.1, ihl, getD_append_of_lt (by omega), ihl]

/-- The code takes the padding for a part of the message. -/
theorem IsEchoRequest.message_append {f : List UInt8} (h : IsEchoRequest ourIp f) (pad : List UInt8) :
    message (f ++ pad) = message f ++ pad := by
  rw [message, h.ihl_append, drop_append_payload h.etype.1, List.drop_append_of_le_length h.options, message]

/-- A padded echo request is one. -/
theorem IsEchoRequest.append {f : List UInt8} (h : IsEchoRequest ourIp f) (pad : List UInt8) :
    IsEchoRequest ourIp (f ++ pad) := by
  have hlong := h.etype.1
  have hfits := h.fits
  have hicmp := h.icmp
  have hoptions := h.options
  have hdrop := drop_append_payload hlong pad
  have hlen := @List.length_append _ (f.drop 14) pad
  constructor
  case etype =>
    rw [List.length_append, be16At_append_of_lt (by rw [List.length_drop] at hfits; omega)]
    exact ⟨by omega, h.etype.2⟩
  case fits => rw [hdrop]; omega
  case options => rw [h.ihl_append, hdrop]; omega
  case dst => rw [hdrop, be32At_append_of_lt (by omega)]; exact h.dst
  case proto => rw [hdrop, getD_append_of_lt (by omega)]; exact h.proto
  case icmp => rw [h.message_append, List.length_append]; omega
  case echo => rw [h.message_append, getD_append_of_lt (by omega)]; exact h.echo

/-! ## What the total length says -/

/-- The total length field of a frame's IPv4 header. -/
def totalLength (f : List UInt8) : Nat := (be16At f 16).toNat

/-- The ICMP message of a frame as the total length delimits it. -/
def delimited (f : List UInt8) : List UInt8 := ((f.drop 14).take (totalLength f)).drop (ihl (f.drop 14))

/-- An echo request with a valid IPv4 header, in a frame without padding. -/
structure IsValidEchoRequest (ourIp : UInt32) (f : List UInt8) : Prop extends IsEchoRequest ourIp f where
  /-- Version 4. -/
  version : f.getD 14 0 >>> 4 = 4
  /-- The header has at least five words. -/
  header : 20 ≤ ihl (f.drop 14)
  /-- The packet fills the frame. -/
  total : f.length = 14 + totalLength f

/-- The padding is not part of what the total length delimits. -/
theorem IsValidEchoRequest.delimited_append {f : List UInt8} (h : IsValidEchoRequest ourIp f)
    (pad : List UInt8) : delimited (f ++ pad) = message f := by
  have hfits := h.fits
  have htotal := h.total
  rw [List.length_drop] at hfits
  have hfield : totalLength (f ++ pad) = totalLength f := by
    rw [totalLength, be16At_append_of_lt (by omega), totalLength]
  have hlen : (f.drop 14).length = totalLength f := by
    rw [List.length_drop]
    omega
  rw [delimited, hfield, h.ihl_append, drop_append_payload (by omega), List.take_left' hlen, message]

/-! ## Replies to padded requests -/

/-- Padding behind a request changes nothing: the reply is the same, and carries the message that the total
length delimits. -/
structure PaddingIgnored (T : Target) (ourMac : Vector UInt8 6) (ourIp : UInt32) (f pad : List UInt8) :
    Prop where
  /-- Whatever the reply buffers held. -/
  same : ∀ buf buf', reply T (f ++ pad) ourMac ourIp buf = reply T f ourMac ourIp buf'
  /-- Everything behind the checksum is the request's. -/
  exact : ∀ buf a, reply T (f ++ pad) ourMac ourIp buf = .ok (some a) →
    a.drop 38 = (delimited (f ++ pad)).drop 4

/-- An answered request is not answered the same way when it is padded. -/
theorem IsEchoRequest.answer_append_ne {f pad ourMac : List UInt8} (h : IsEchoRequest ourIp f)
    (hour : ourMac.length = 6) (hpad : pad ≠ []) (hfits : 34 + (message f).length ≤ 1514) :
    answer ourMac ourIp (f ++ pad) ≠ answer ourMac ourIp f := by
  have hpos : 0 < pad.length := List.length_pos_iff.mpr hpad
  intro heq
  rw [h.answer_eq, if_pos hfits, (h.append pad).answer_eq] at heq
  split_ifs at heq with hlong
  -- the answers have different lengths
  have hlen := congrArg List.length (Option.some.inj heq)
  rw [length_echoAnswer hour h, length_echoAnswer hour (h.append pad), h.message_append,
    List.length_append] at hlen
  omega

/-- A frame without its padding. -/
def ReceivedFrame.unpadded (padded : ReceivedFrame T) {f pad : List UInt8} (h : padded.bytes = f ++ pad) :
    ReceivedFrame T where
  bytes := f
  length_lt := by
    have hlt := padded.length_lt
    rw [h, List.length_append] at hlt
    omega
  length_le_isize := by
    have hlt := padded.length_le_isize
    rw [h, List.length_append] at hlt
    omega

/-- Padding is ignored if there is none, and in requests that are too long to be answered. -/
theorem paddingIgnored_iff (ourMac : Vector UInt8 6) (ourIp : UInt32) {f pad : List UInt8}
    (h : IsValidEchoRequest ourIp f) (padded : ReceivedFrame T) (hpadded : padded.bytes = f ++ pad) :
    PaddingIgnored T ourMac ourIp f pad ↔ pad = [] ∨ 1514 < 34 + (message f).length := by
  have hreply := fun buf => reply_eq padded ourMac ourIp buf
  have hreply' := fun buf => reply_eq (padded.unpadded hpadded) ourMac ourIp buf
  rw [hpadded] at hreply
  change ∀ buf, reply T f ourMac ourIp buf = .ok (answer ourMac.toList ourIp f) at hreply'
  have hecho := h.toIsEchoRequest
  constructor
  · intro hignored
    by_contra hcond
    rw [not_or, not_lt] at hcond
    have hsame := hignored.same (Vector.replicate 1514 0) (Vector.replicate 1514 0)
    -- the replies are the answers, whatever the buffers held
    rw [hreply, hreply'] at hsame
    exact hecho.answer_append_ne ourMac.length_toList hcond.1 hcond.2 (Except.ok.inj hsame)
  · rintro (rfl | hlong)
    · refine ⟨fun buf buf' => ?_, fun buf a ha => ?_⟩
      · rw [hreply, hreply', List.append_nil]
      · -- without padding the reply is a well-formed one
        rw [hreply, List.append_nil] at ha
        have hicmp := h.icmp
        rcases answer_eq_some_iff.mp (Except.ok.inj ha) with ⟨harp, -⟩ | ⟨-, hfits, rfl⟩
        · exact absurd (harp.etype.2.symm.trans hecho.etype.2) (by decide)
        · have hlong := hecho.etype.1
          rw [h.delimited_append]
          exact (isEchoReply_echoFrame _ _ ourMac.length_toList (length_mac (by omega)) hicmp (by omega)).rest
    · -- neither of the two is answered
      have hnone : answer ourMac.toList ourIp f = none := by
        rw [hecho.answer_eq, if_neg (by omega)]
      have hnone' : answer ourMac.toList ourIp (f ++ pad) = none := by
        rw [(hecho.append pad).answer_eq, hecho.message_append, List.length_append, if_neg (by omega)]
      refine ⟨fun buf buf' => ?_, fun buf a ha => ?_⟩
      · rw [hreply, hreply', hnone, hnone']
      · rw [hreply, hnone'] at ha
        cases ha

/-- A ping without data from 10.0.0.9 to 10.0.0.2: 42 bytes, with both checksums right. -/
def shortPing : List UInt8 :=
  [0x52, 0x54, 0, 0x12, 0x34, 0x56, 2, 0, 0, 0, 0, 9, 0x08, 0x00, 0x45, 0, 0, 28, 0, 1, 0, 0, 64, 1,
   0x66, 0xD6, 10, 0, 0, 9, 10, 0, 0, 2, 8, 0, 0xF7, 0xFD, 0, 1, 0, 1]

theorem shortPing_valid : IsValidEchoRequest 0x0A000002 shortPing where
  etype := by decide
  fits := by decide
  options := by decide
  dst := by decide
  proto := by decide
  icmp := by decide
  echo := by decide
  version := by decide
  header := by decide
  total := by decide

/-- The ping alone, without padding. -/
theorem paddingIgnored_iff_shortPing :
    PaddingIgnored .x86_64 #v[0x52, 0x54, 0, 0x12, 0x34, 0x56] 0x0A000002 shortPing [] ↔
      ([] : List UInt8) = [] ∨ 1514 < 34 + (message shortPing).length :=
  paddingIgnored_iff #v[0x52, 0x54, 0, 0x12, 0x34, 0x56] 0x0A000002 shortPing_valid
    (⟨shortPing ++ [], by decide, by decide⟩ : ReceivedFrame .x86_64) rfl

/-- Its padding to 60 bytes is sent back: the reply has the padding's length too. -/
theorem shortPing_not_paddingIgnored :
    onesSum ((shortPing.drop 14).take 20) = 0xFFFF ∧ onesSum (shortPing.drop 34) = 0xFFFF ∧
    IsValidEchoRequest 0x0A000002 shortPing ∧
    ¬ PaddingIgnored .x86_64 #v[0x52, 0x54, 0, 0x12, 0x34, 0x56] 0x0A000002 shortPing (List.replicate 18 0) ∧
    (reply .x86_64 shortPing #v[0x52, 0x54, 0, 0x12, 0x34, 0x56] 0x0A000002 (Vector.replicate 1514 0)).map
      (Option.map List.length) = .ok (some 42) ∧
    (reply .x86_64 (shortPing ++ List.replicate 18 0) #v[0x52, 0x54, 0, 0x12, 0x34, 0x56] 0x0A000002
      (Vector.replicate 1514 0)).map (Option.map List.length) = .ok (some 60) := by
  let alone : ReceivedFrame .x86_64 := ⟨shortPing, by decide, by decide⟩
  let padded : ReceivedFrame .x86_64 := ⟨shortPing ++ List.replicate 18 0, by decide, by decide⟩
  refine ⟨by decide, by decide, shortPing_valid, fun h => ?_, ?_, ?_⟩
  rotate_left
  · rw [reply_eq alone]
    exact congrArg Except.ok (by decide +kernel)
  · rw [reply_eq padded]
    exact congrArg Except.ok (by decide +kernel)
  have hsame := h.same (Vector.replicate 1514 0) (Vector.replicate 1514 0)
  rw [reply_eq padded, reply_eq alone] at hsame
  exact shortPing_valid.toIsEchoRequest.answer_append_ne rfl (by decide) (by decide) (Except.ok.inj hsame)

end Net

end Aerogel
