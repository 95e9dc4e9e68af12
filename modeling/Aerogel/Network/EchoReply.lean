import Aerogel.Network.Answers

/-! # Echo replies are well formed

What is on the wire, read field by field from the frame that `icmp::handle` leaves in the reply buffer. Both
checksums verify: the words that they cover, the checksum included, have the one's-complement sum `0xFFFF`,
whatever the contents and also for an odd number of bytes. -/

namespace Aerogel

namespace Net

/-! ## Reading a frame -/

variable {pre : List UInt8} {n : Nat}

/-- A byte behind a part of known length. -/
theorem getD_append_add (h : pre.length = n) (post : List UInt8) (k : Nat) :
    (pre ++ post).getD (n + k) 0 = post.getD k 0 := by
  rw [List.getD_eq_getElem?_getD, getElem?_append_add h, ← List.getD_eq_getElem?_getD]

theorem be16At_append_add (h : pre.length = n) (post : List UInt8) (k : Nat) :
    be16At (pre ++ post) (n + k) = be16At post k := by
  rw [be16At, getD_append_add h, Nat.add_assoc, getD_append_add h, be16At]

theorem be32At_append_add (h : pre.length = n) (post : List UInt8) (k : Nat) :
    be32At (pre ++ post) (n + k) = be32At post k := by
  rw [be32At, getD_append_add h, Nat.add_assoc, Nat.add_assoc, Nat.add_assoc, getD_append_add h,
    getD_append_add h, getD_append_add h, be32At]

/-- A frame with a well-formed echo reply to the message `m`. -/
structure IsEchoReply (ourMac : List UInt8) (ourIp : UInt32) (srcMac : List UInt8) (srcIp : UInt32)
    (m f : List UInt8) : Prop where
  /-- Nothing follows the message. -/
  length : f.length = 34 + m.length
  /-- Destination and source on the link. -/
  macs : f.take 6 = srcMac ∧ (f.drop 6).take 6 = ourMac
  /-- The EtherType. -/
  etype : be16At f 12 = 0x0800
  /-- Version 4, a header of five words. -/
  version : f.getD 14 0 >>> 4 = 4 ∧ f.getD 14 0 &&& 0x0F = 5
  /-- The total length. -/
  total : (be16At f 16).toNat = 20 + m.length
  /-- The protocol. -/
  proto : f.getD 23 0 = protoIcmp
  /-- Source and destination. -/
  addresses : be32At f 26 = ourIp ∧ be32At f 30 = srcIp
  /-- The header checksum verifies. -/
  headerSum : onesSum ((f.drop 14).take 20) = 0xFFFF
  /-- Type and code. -/
  type : f.getD 34 0 = 0 ∧ f.getD 35 0 = 0
  /-- Identifier, sequence number and data are the request's. -/
  rest : f.drop 38 = m.drop 4
  /-- The message checksum verifies. -/
  messageSum : onesSum (f.drop 34) = 0xFFFF

/-! ## Reading the fields that are written -/

theorem onesSum_ipHeader (proto : UInt8) (srcIp dstIp : UInt32) (n : Nat) :
    onesSum (ipHeader proto srcIp dstIp n) = 0xFFFF := by
  have hlen : (ipHeaderFront proto (20 + n)).length = 10 := rfl
  exact onesSum_checksumOf (by rw [hlen]) _

theorem onesSum_echoMessage (m : List UInt8) : onesSum (echoMessage m) = 0xFFFF :=
  @onesSum_checksumOf [0, 0] rfl _

/-- The frame with the answer to an echo request. -/
theorem isEchoReply_echoFrame {ourMac srcMac m : List UInt8} (ourIp srcIp : UInt32)
    (hour : ourMac.length = 6) (hsrc : srcMac.length = 6) (hlow : 8 ≤ m.length) (hhigh : m.length < 2 ^ 15) :
    IsEchoReply ourMac ourIp srcMac srcIp m (echoFrame ourMac ourIp srcMac srcIp m) := by
  have hheader := length_frameHeader 0x0800 hsrc hour
  have hmacs : (srcMac ++ ourMac).length = 12 := by rw [List.length_append, hour, hsrc]
  have hip := length_ipHeader protoIcmp ourIp srcIp m.length
  have hframe : echoFrame ourMac ourIp srcMac srcIp m = frameHeader srcMac ourMac 0x0800 ++
      (ipHeader protoIcmp ourIp srcIp m.length ++ echoMessage m) := rfl
  have hmessage : (echoFrame ourMac ourIp srcMac srcIp m).drop (14 + 20) = echoMessage m := by
    rw [hframe, ← List.drop_drop, List.drop_left' hheader, List.drop_left' hip]
  -- every field is read in the part that it lies in
  constructor
  case length => exact length_echoFrame ourIp srcIp hour hsrc (by omega)
  case macs =>
    rw [hframe, frameHeader, List.append_assoc, List.append_assoc]
    exact ⟨List.take_left' hsrc, by rw [List.drop_left' hsrc, List.take_left' hour]⟩
  case etype =>
    rw [hframe, frameHeader, List.append_assoc]
    exact (be16At_append_add hmacs _ 0).trans (be16At_toBe16 _ _)
  case version =>
    -- both are in the first byte of the header
    have hfirst : (echoFrame ourMac ourIp srcMac srcIp m).getD 14 0 = 0x45 := by
      rw [hframe]
      exact getD_append_add hheader _ 0
    rw [hfirst]
    decide
  case total =>
    have htotal : be16At (echoFrame ourMac ourIp srcMac srcIp m) 16 = UInt16.ofNat (20 + m.length) := by
      rw [hframe]
      exact (be16At_append_add hheader _ 2).trans (be16At_toBe16 _ [])
    rw [htotal, UInt16.toNat_ofNat', Nat.mod_eq_of_lt (by omega)]
  case proto =>
    rw [hframe, getD_append_add hheader _ 9]
    rfl
  case addresses =>
    rw [hframe, be32At_append_add hheader _ 12, be32At_append_add hheader _ 16]
    exact ⟨be32At_toBe32 _ [], be32At_toBe32 _ []⟩
  case headerSum =>
    rw [hframe, List.drop_left' hheader, List.take_left' hip]
    exact onesSum_ipHeader _ _ _ _
  case type =>
    rw [hframe, getD_append_add hheader _ 20, getD_append_add hheader _ 21]
    exact ⟨rfl, rfl⟩
  case rest =>
    have hdrop : (echoFrame ourMac ourIp srcMac srcIp m).drop 38 = (echoMessage m).drop 4 := by
      rw [← hmessage, List.drop_drop]
    rw [hdrop]
    rfl
  case messageSum =>
    rw [hmessage]
    exact onesSum_echoMessage m

/-- Every echo request whose answer fits is answered with a well-formed echo reply: link, IPv4 and ICMP
fields are right and both checksums verify. -/
theorem icmpHandle_wellFormed (T : Target) (ourMac : Vector UInt8 6) (ourIp : UInt32)
    (srcMac : Vector UInt8 6) (srcIp : UInt32) (m : List UInt8) (hlow : 8 ≤ m.length) (htype : m[0]? = some 8)
    (hfits : 34 + m.length ≤ 1514) (out : Vector UInt8 1514) :
    ∃ buf, icmpHandle T m ourMac.toList ourIp srcMac.toList srcIp out.toList = .ok (34 + m.length, buf) ∧
      buf.length = 1514 ∧
      IsEchoReply ourMac.toList ourIp srcMac.toList srcIp m (buf.take (34 + m.length)) := by
  have hword := T.two_pow_32_le
  have hecho : m.getD 0 0 = 8 := by rw [List.getD_eq_getElem?_getD, htype, Option.getD_some]
  have hlen := @length_echoFrame ourMac.toList srcMac.toList m ourIp srcIp ourMac.length_toList
    srcMac.length_toList (by omega)
  have hanswer : icmpAnswer ourMac.toList ourIp srcMac.toList srcIp m =
      some (echoFrame ourMac.toList ourIp srcMac.toList srcIp m) := if_pos ⟨hlow, hecho, hfits⟩
  have hrun := @icmpHandle_eq T m ourMac.toList srcMac.toList out.toList ourIp srcIp (by omega)
    ourMac.length_toList srcMac.length_toList out.length_toList
  rw [hanswer, written, hlen] at hrun
  refine ⟨_, hrun, ?_, ?_⟩
  · rw [List.length_append, List.length_drop, hlen, out.length_toList]
    omega
  · rw [List.take_left' hlen]
    exact isEchoReply_echoFrame ourIp srcIp ourMac.length_toList srcMac.length_toList hlow (by omega)

/-- A ping with five bytes of data, an odd number, is answered. -/
theorem icmpHandle_wellFormed_ping : ∃ buf, icmpHandle .x86_64
      [8, 0, 0, 0, 0, 1, 0, 7, 104, 101, 108, 108, 111] #v[2, 0, 0, 0, 0, 2].toList 0x0A000002
      #v[2, 0, 0, 0, 0, 9].toList 0x0A000009 (Vector.replicate 1514 0).toList = .ok (47, buf) ∧ buf.length = 1514 ∧
    IsEchoReply #v[2, 0, 0, 0, 0, 2].toList 0x0A000002 #v[2, 0, 0, 0, 0, 9].toList 0x0A000009
      [8, 0, 0, 0, 0, 1, 0, 7, 104, 101, 108, 108, 111] (buf.take 47) :=
  icmpHandle_wellFormed .x86_64 #v[2, 0, 0, 0, 0, 2] 0x0A000002 #v[2, 0, 0, 0, 0, 9] 0x0A000009
    [8, 0, 0, 0, 0, 1, 0, 7, 104, 101, 108, 108, 111] (by decide) rfl (by decide) (Vector.replicate 1514 0)

end Net

end Aerogel
