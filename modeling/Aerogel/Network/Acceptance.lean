import Aerogel.Network.Padding

/-! # What is answered

A frame that is answered is an ARP request for `our_ip` or an echo request to `our_ip`. These are the
conditions that the code asks for: the link destination, the hardware and protocol fields of ARP, and what else
an IPv4 header says about itself are not among them. -/

namespace Aerogel

namespace Net

variable {T : Target}

/-- A frame that is answered asks this host: by ARP for its address, or by an echo request for an echo. -/
theorem netProcessPacket_answers_request (pkt : ReceivedFrame T) (ourMac : Vector UInt8 6) (ourIp : UInt32)
    (replyBuf : Vector UInt8 1514) {n : Nat} {out : List UInt8}
    (h : netProcessPacket T (some pkt.bytes) (some ourMac) ourIp (some replyBuf) = .ok (some n, out)) :
    IsArpRequest ourIp pkt.bytes ∨ IsEchoRequest ourIp pkt.bytes := by
  rw [netProcessPacket_eq] at h
  have hn := (Prod.mk.inj (Except.ok.inj h)).1
  obtain ⟨a, ha, -⟩ := Option.map_eq_some_iff.mp hn
  exact (answer_eq_some_iff.mp ha).imp And.left And.left

/-- The ping without data is answered because it is a request. -/
theorem netProcessPacket_answers_request_shortPing :
    IsArpRequest 0x0A000002 shortPing ∨ IsEchoRequest 0x0A000002 shortPing := by
  let pkt : ReceivedFrame .x86_64 := ⟨shortPing, by decide, by decide⟩
  have hanswer := @IsEchoRequest.answer_eq [0x52, 0x54, 0, 0x12, 0x34, 0x56] _ _
    shortPing_valid.toIsEchoRequest
  rw [if_pos (by decide)] at hanswer
  exact netProcessPacket_answers_request pkt #v[0x52, 0x54, 0, 0x12, 0x34, 0x56] 0x0A000002
    (Vector.replicate 1514 0) (netProcessPacket_of_answer pkt _ _ _ hanswer)

/-! ## What is not asked for -/

/-- A frame for this host on the link. -/
def AddressedTo (ourMac f : List UInt8) : Prop := f.take 6 = ourMac ∨ f.take 6 = List.replicate 6 0xFF

instance (ourMac f : List UInt8) : Decidable (AddressedTo ourMac f) := inferInstanceAs (Decidable (_ ∨ _))

/-- A well-formed ARP request for `ourIp`. -/
structure WellFormedArp (ourIp : UInt32) (f : List UInt8) : Prop where
  /-- The EtherType. -/
  etype : be16At f 12 = 0x0806
  /-- Ethernet. -/
  hardware : be16At (f.drop 14) 0 = 1
  /-- IPv4. -/
  protocol : be16At (f.drop 14) 2 = 0x0800
  /-- The lengths of their addresses. -/
  lengths : (f.drop 14).getD 4 0 = 6 ∧ (f.drop 14).getD 5 0 = 4
  /-- The operation. -/
  oper : be16At (f.drop 14) 6 = 1
  /-- The address asked for. -/
  target : be32At (f.drop 14) 24 = ourIp

/-- A well-formed echo request to `ourIp`. -/
structure WellFormedEcho (ourIp : UInt32) (f : List UInt8) : Prop where
  /-- The EtherType. -/
  etype : be16At f 12 = 0x0800
  /-- Version 4. -/
  version : (f.drop 14).getD 0 0 >>> 4 = 4
  /-- The header has at least five words. -/
  header : 20 ≤ ihl (f.drop 14)
  /-- The packet ends behind its header and inside the frame. -/
  total : ihl (f.drop 14) ≤ totalLength f ∧ totalLength f ≤ (f.drop 14).length
  /-- The header checksum verifies. -/
  headerSum : onesSum ((f.drop 14).take (ihl (f.drop 14))) = 0xFFFF
  /-- It is no fragment: no more of them follow, and the offset is 0. -/
  whole : be16At (f.drop 14) 6 &&& 0x3FFF = 0
  /-- The destination. -/
  dst : be32At (f.drop 14) 16 = ourIp
  /-- An ICMP message that asks for an echo. -/
  echo : (f.drop 14).getD 9 0 = protoIcmp ∧ (message f).getD 0 0 = 8

/-- An ARP packet for another host on the link, about addresses of other kinds and lengths. -/
def oddArp : List UInt8 :=
  [2, 0, 0, 0, 0, 3, 2, 0, 0, 0, 0, 9, 0x08, 0x06, 0, 6, 0x86, 0xDD, 8, 16, 0, 1,
   2, 0, 0, 0, 0, 9, 10, 0, 0, 9, 0, 0, 0, 0, 0, 0, 10, 0, 0, 2]

/-- The first fragment of a packet of version 6 for another host on the link, with a header of one word, a
total length of three bytes and no checksum. -/
def oddPacket : List UInt8 :=
  [2, 0, 0, 0, 0, 3, 2, 0, 0, 0, 0, 9, 0x08, 0x00, 0x61, 0, 0, 3, 8, 0, 0x20, 0, 64, 1, 0, 0,
   10, 0, 0, 9, 10, 0, 0, 2]

theorem oddArp_isArpRequest : IsArpRequest 0x0A000002 oddArp :=
  ⟨by decide, by decide, by decide, by decide⟩

theorem oddPacket_isEchoRequest : IsEchoRequest 0x0A000002 oddPacket :=
  ⟨by decide, by decide, by decide, by decide, by decide, by decide, by decide⟩

/-- Both are answered, though each breaks every rule that the code does not ask for. -/
theorem malformed_answered :
    (∃ n out, netProcessPacket .x86_64 (some oddArp) (some #v[0x52, 0x54, 0, 0x12, 0x34, 0x56]) 0x0A000002
      (some (Vector.replicate 1514 0)) = .ok (some n, out)) ∧
    ¬ AddressedTo [0x52, 0x54, 0, 0x12, 0x34, 0x56] oddArp ∧
    be16At (oddArp.drop 14) 0 ≠ 1 ∧ be16At (oddArp.drop 14) 2 ≠ 0x0800 ∧
    (oddArp.drop 14).getD 4 0 ≠ 6 ∧ (oddArp.drop 14).getD 5 0 ≠ 4 ∧
    ¬ (WellFormedArp 0x0A000002 oddArp ∨ WellFormedEcho 0x0A000002 oddArp) ∧
    (∃ n out, netProcessPacket .x86_64 (some oddPacket) (some #v[0x52, 0x54, 0, 0x12, 0x34, 0x56]) 0x0A000002
      (some (Vector.replicate 1514 0)) = .ok (some n, out)) ∧
    ¬ AddressedTo [0x52, 0x54, 0, 0x12, 0x34, 0x56] oddPacket ∧
    (oddPacket.drop 14).getD 0 0 >>> 4 ≠ 4 ∧ ihl (oddPacket.drop 14) < 20 ∧
    totalLength oddPacket < ihl (oddPacket.drop 14) ∧
    onesSum ((oddPacket.drop 14).take (ihl (oddPacket.drop 14))) ≠ 0xFFFF ∧
    be16At (oddPacket.drop 14) 6 &&& 0x3FFF ≠ 0 ∧
    ¬ (WellFormedArp 0x0A000002 oddPacket ∨ WellFormedEcho 0x0A000002 oddPacket) := by
  let arp : ReceivedFrame .x86_64 := ⟨oddArp, by decide, by decide⟩
  let packet : ReceivedFrame .x86_64 := ⟨oddPacket, by decide, by decide⟩
  have harp := @answer_eq_some_iff [0x52, 0x54, 0, 0x12, 0x34, 0x56] oddArp _ 0x0A000002 |>.mpr
    (Or.inl ⟨oddArp_isArpRequest, rfl⟩)
  have hpacket := @answer_eq_some_iff [0x52, 0x54, 0, 0x12, 0x34, 0x56] oddPacket _ 0x0A000002 |>.mpr
    (Or.inr ⟨oddPacket_isEchoRequest, by decide, rfl⟩)
  refine ⟨?_, by decide, by decide, by decide, by decide, by decide, ?_, ?_, by decide, by decide, by decide,
    by decide, by decide, by decide, ?_⟩
  · exact ⟨_, _, netProcessPacket_of_answer arp _ _ _ harp⟩
  -- one broken rule is enough
  · rintro (h | h)
    · exact absurd h.hardware (by decide)
    · exact absurd h.etype (by decide)
  · exact ⟨_, _, netProcessPacket_of_answer packet _ _ _ hpacket⟩
  · rintro (h | h)
    · exact absurd h.etype (by decide)
    · exact absurd h.version (by decide)

end Net

end Aerogel
