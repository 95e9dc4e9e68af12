import Aerogel.Network.EchoReply

/-! # UDP datagrams

`udp::write` puts a datagram behind the place of the IPv4 header, `ipv4::write` the header in
front of it; the two may run in either order. `udp_roundTrip` says that `ipv4::parse` and
`udp::parse` get back what was written, for every payload whose length fits the length fields. -/

namespace Aerogel

namespace Net

variable {T : Target}

/-! ## `udp.rs` -/

/-- `PROTO_UDP`. -/
def protoUdp : UInt8 := 17

/-- `udp::parse`: the ports and the payload. -/
def udpParse (pkt : List UInt8) : Except Panic (Option (UInt16 × UInt16 × List UInt8)) :=
  if pkt.length < 8 then .ok none
  else do
    let srcPort ← readBe16 pkt 0
    let dstPort ← readBe16 pkt 2
    let payload ← slice pkt 8 pkt.length
    return some (srcPort, dstPort, payload)

/-- `udp::write`: the length of the datagram, 0 if it does not fit, and the buffer. -/
def udpWrite (T : Target) (buf : List UInt8) (srcPort dstPort : UInt16) (payload : List UInt8) :
    Except Panic (Nat × List UInt8) := do
  let total ← addUsize T 8 payload.length
  if buf.length < total then return (0, buf)
  else
    let buf ← copyInto buf 0 2 (toBe16 srcPort)
    let buf ← copyInto buf 2 4 (toBe16 dstPort)
    let buf ← copyInto buf 4 6 (toBe16 (UInt16.ofNat total))
    let buf ← copyInto buf 6 8 [0, 0]
    let stop ← addUsize T 8 payload.length
    let buf ← copyInto buf 8 stop payload
    return (total, buf)

/-! ## One datagram in one buffer -/

/-- `udp::write(&mut buf[20..], …)`. -/
def writeDatagram (T : Target) (buf : List UInt8) (srcPort dstPort : UInt16) (payload : List UInt8) :
    Except Panic (Nat × List UInt8) := do
  let rest ← slice buf 20 buf.length
  let (n, rest) ← udpWrite T rest srcPort dstPort payload
  return (n, buf.take 20 ++ rest)

/-- `ipv4::write(buf, …)` for the header in front of it. -/
def writeHeader (T : Target) (buf : List UInt8) (srcIp dstIp : UInt32) (payload : List UInt8) :
    Except Panic (Nat × List UInt8) := do
  let payloadLen ← addUsize T 8 payload.length
  ipv4Write T buf protoUdp srcIp dstIp payloadLen

/-- `ipv4::parse` and then `udp::parse`: protocol, addresses, ports and payload. -/
def parseDatagram (T : Target) (pkt : List UInt8) :
    Except Panic (Option (UInt8 × UInt32 × UInt32 × UInt16 × UInt16 × List UInt8)) := do
  match ← ipv4Parse T pkt with
  | none => return none
  | some (dgram, proto, srcIp, dstIp) =>
    match ← udpParse dgram with
    | none => return none
    | some (srcPort, dstPort, payload) => return some (proto, srcIp, dstIp, srcPort, dstPort, payload)

/-- A UDP datagram. -/
def udpDatagram (srcPort dstPort : UInt16) (payload : List UInt8) : List UInt8 :=
  toBe16 srcPort ++ (toBe16 dstPort ++ (toBe16 (UInt16.ofNat (8 + payload.length)) ++ ([0, 0] ++ payload)))

theorem length_udpDatagram (srcPort dstPort : UInt16) (payload : List UInt8) :
    (udpDatagram srcPort dstPort payload).length = 8 + payload.length := by
  simp only [udpDatagram, List.length_append, length_toBe16, List.length_cons, List.length_nil]
  omega

/-- The fields of a datagram are written in order. -/
theorem udpWrite_eq {buf payload : List UInt8} (srcPort dstPort : UInt16)
    (hbuf : buf.length = 8 + payload.length) (hlen : 8 + payload.length < 2 ^ T.wordBits) :
    udpWrite T buf srcPort dstPort payload =
      .ok (8 + payload.length, udpDatagram srcPort dstPort payload) := by
  have h₁ : copyInto buf 0 2 (toBe16 srcPort) = .ok ([] ++ toBe16 srcPort ++ buf.drop 2) :=
    @copyInto_next (toBe16 srcPort) 0 2 [] buf rfl rfl (by rw [length_toBe16]; omega)
  rw [udpWrite, addUsize_eq hlen, ok_bind, if_neg (by omega), h₁, ok_bind,
    copyInto_next (by rfl) (by rfl) (by simp [length_toBe16]; omega), ok_bind,
    copyInto_next (by rfl) (by rfl) (by simp [length_toBe16]; omega), ok_bind,
    copyInto_next (by rfl) (by rfl) (by simp [length_toBe16]; omega), ok_bind, ok_bind,
    copyInto_next (by rfl) (by rfl) (by simp [length_toBe16]; omega), ok_bind]
  -- the payload fills the buffer
  rw [List.drop_eq_nil_of_le (by simp [length_toBe16]; omega), udpDatagram]
  simp only [List.append_assoc, List.append_nil, List.nil_append]
  rfl

/-- What is parsed is what was written. -/
theorem udpParse_udpDatagram (srcPort dstPort : UInt16) (payload : List UInt8) :
    udpParse (udpDatagram srcPort dstPort payload) = .ok (some (srcPort, dstPort, payload)) := by
  have hlen := length_udpDatagram srcPort dstPort payload
  have hsrc : be16At (udpDatagram srcPort dstPort payload) 0 = srcPort := be16At_toBe16 _ _
  have hdst : be16At (udpDatagram srcPort dstPort payload) 2 = dstPort :=
    (be16At_append_add (length_toBe16 srcPort) _ 0).trans (be16At_toBe16 _ _)
  rw [udpParse, if_neg (by omega), readBe16_eq (by omega), ok_bind, readBe16_eq (by omega), ok_bind,
    slice_back (by omega), ok_bind, hsrc, hdst]
  rfl

/-- The length field of a datagram. -/
theorem be16At_udpDatagram (srcPort dstPort : UInt16) (payload : List UInt8) :
    be16At (udpDatagram srcPort dstPort payload) 4 = UInt16.ofNat (8 + payload.length) := by
  rw [udpDatagram, show 4 = 2 + (2 + 0) from rfl, be16At_append_add (length_toBe16 _),
    be16At_append_add (length_toBe16 _)]
  exact be16At_toBe16 _ _

/-! ## There and back -/

/-- A datagram that is written into `buf` comes back. -/
structure DatagramReturns (T : Target) (srcIp dstIp : UInt32) (srcPort dstPort : UInt16)
    (payload buf packet : List UInt8) : Prop where
  /-- The datagram first, then the header: neither write changes the bytes of the other. -/
  datagramFirst : ∃ buf₁, writeDatagram T buf srcPort dstPort payload = .ok (8 + payload.length, buf₁) ∧
    buf₁.take 20 = buf.take 20 ∧ writeHeader T buf₁ srcIp dstIp payload = .ok (20, packet) ∧
    packet.drop 20 = buf₁.drop 20
  /-- The other way round the same packet results. -/
  headerFirst : ∃ buf₂, writeHeader T buf srcIp dstIp payload = .ok (20, buf₂) ∧
    buf₂.drop 20 = buf.drop 20 ∧
    writeDatagram T buf₂ srcPort dstPort payload = .ok (8 + payload.length, packet) ∧
    packet.take 20 = buf₂.take 20
  /-- The packet is parsed. -/
  parsed : parseDatagram T packet = .ok (some (17, srcIp, dstIp, srcPort, dstPort, payload))
  /-- Both length fields are right. -/
  lengths : (be16At packet 2).toNat = packet.length ∧ (be16At packet 24).toNat = (packet.drop 20).length ∧
    packet.length = 28 + payload.length

section Packet

variable {payload : List UInt8} (srcIp dstIp : UInt32) (srcPort dstPort : UInt16)

/-- The datagram is written behind the place of the header. -/
theorem writeDatagram_eq {buf : List UInt8} (hbuf : buf.length = 28 + payload.length)
    (hlen : 28 + payload.length ≤ 65535) : writeDatagram T buf srcPort dstPort payload =
      .ok (8 + payload.length, buf.take 20 ++ udpDatagram srcPort dstPort payload) := by
  have hword := T.two_pow_32_le
  rw [writeDatagram, slice_back (by omega), ok_bind,
    udpWrite_eq _ _ (by rw [List.length_drop]; omega) (by omega), ok_bind]
  rfl

/-- The header is written in front of the place of the datagram. -/
theorem writeHeader_eq {buf : List UInt8} (hbuf : buf.length = 28 + payload.length)
    (hlen : 28 + payload.length ≤ 65535) : writeHeader T buf srcIp dstIp payload =
      .ok (20, ipHeader protoUdp srcIp dstIp (8 + payload.length) ++ buf.drop 20) := by
  have hword := T.two_pow_32_le
  rw [writeHeader, addUsize_eq (by omega), ok_bind, ipv4Write_eq _ _ _ (by omega) (by omega)]

/-- Parsing takes both off again. -/
theorem parseDatagram_eq (n : Nat) : parseDatagram T
    (ipHeader protoUdp srcIp dstIp n ++ udpDatagram srcPort dstPort payload) =
      .ok (some (17, srcIp, dstIp, srcPort, dstPort, payload)) := by
  have hheader := length_ipHeader protoUdp srcIp dstIp n
  have hihl : ihl (ipHeader protoUdp srcIp dstIp n ++ udpDatagram srcPort dstPort payload) = 20 := by
    change (0x45 &&& 0x0F : UInt8).toNat * 4 = 20
    decide
  have hsrc : be32At (ipHeader protoUdp srcIp dstIp n ++ udpDatagram srcPort dstPort payload) 12 = srcIp :=
    be32At_toBe32 srcIp []
  have hdst : be32At (ipHeader protoUdp srcIp dstIp n ++ udpDatagram srcPort dstPort payload) 16 = dstIp :=
    be32At_toBe32 dstIp []
  have hproto : (ipHeader protoUdp srcIp dstIp n ++ udpDatagram srcPort dstPort payload).getD 9 0 = 17 := rfl
  have hlen : 20 ≤ (ipHeader protoUdp srcIp dstIp n ++ udpDatagram srcPort dstPort payload).length := by
    rw [List.length_append]
    omega
  rw [parseDatagram, ipv4Parse_eq, hihl, if_pos ⟨hlen, hlen⟩, ok_bind, hsrc, hdst, hproto,
    List.drop_left' hheader]
  dsimp only
  rw [udpParse_udpDatagram, ok_bind]
  rfl

/-- UDP over IPv4 in a buffer of the right size: what is written is parsed, for every payload that
the length fields can describe. -/
theorem udp_roundTrip (T : Target) {buf : List UInt8} (hlen : 28 + payload.length ≤ 65535)
    (hbuf : buf.length = 28 + payload.length) :
    ∃ packet, DatagramReturns T srcIp dstIp srcPort dstPort payload buf packet := by
  have hheader := length_ipHeader protoUdp srcIp dstIp (8 + payload.length)
  have hdgram := length_udpDatagram srcPort dstPort payload
  have htake : (buf.take 20).length = 20 := by
    rw [List.length_take]
    omega
  have hdrop : (buf.drop 20).length = 8 + payload.length := by
    rw [List.length_drop]
    omega
  refine ⟨ipHeader protoUdp srcIp dstIp (8 + payload.length) ++ udpDatagram srcPort dstPort payload, ?_⟩
  constructor
  case datagramFirst =>
    refine ⟨_, writeDatagram_eq _ _ hbuf hlen, List.take_left' htake, ?_, ?_⟩
    · rw [writeHeader_eq _ _ (by rw [List.length_append]; omega) hlen, List.drop_left' htake]
    · rw [List.drop_left' hheader, List.drop_left' htake]
  case headerFirst =>
    refine ⟨_, writeHeader_eq _ _ hbuf hlen, List.drop_left' hheader, ?_, ?_⟩
    · rw [writeDatagram_eq _ _ (by rw [List.length_append]; omega) hlen, List.take_left' hheader]
    · rw [List.take_left' hheader, List.take_left' hheader]
  case parsed => exact parseDatagram_eq _ _ _ _ _
  case lengths =>
    have hall : (ipHeader protoUdp srcIp dstIp (8 + payload.length) ++
        udpDatagram srcPort dstPort payload).length = 28 + payload.length := by
      rw [List.length_append]
      omega
    have htotal : be16At (ipHeader protoUdp srcIp dstIp (8 + payload.length) ++
        udpDatagram srcPort dstPort payload) 2 = UInt16.ofNat (20 + (8 + payload.length)) :=
      be16At_toBe16 _ []
    rw [htotal, hall, List.drop_left' hheader, hdgram, be16At_append_add hheader _ 4, be16At_udpDatagram,
      UInt16.toNat_ofNat', UInt16.toNat_ofNat', Nat.mod_eq_of_lt (by omega), Nat.mod_eq_of_lt (by omega)]
    omega

end Packet

/-- Five bytes from port 68 to port 67. -/
theorem udp_roundTrip_short : ∃ packet, DatagramReturns .x86 0x0A000002 0x0A000001 68 67 [1, 2, 3, 4, 5]
    (List.replicate 33 0) packet :=
  udp_roundTrip 0x0A000002 0x0A000001 68 67 .x86 (by decide) (by decide)

end Net

end Aerogel
