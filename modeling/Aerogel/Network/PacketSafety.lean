import Aerogel.Network.Answers

/-! # Packet handling never panics

`netProcessPacket_eq` is an equation, so handling a frame returns for every frame a Rust slice can hold.
What is answered begins like a request, and the answer like a reply. -/

namespace Aerogel

namespace Net

variable {T : Target}

/-! ## Requests and replies -/

/-- A packet that may be answered: an ARP request, or an IPv4 packet whose payload begins like an echo
request. -/
def IsRequest (pkt : List UInt8) : Prop :=
  (pkt[12]? = some 0x08 ∧ pkt[13]? = some 0x06 ∧ pkt[20]? = some 0 ∧ pkt[21]? = some 1) ∨
  (pkt[12]? = some 0x08 ∧ pkt[13]? = some 0x00 ∧
    ∃ v₀, pkt[14]? = some v₀ ∧ pkt[14 + (v₀ &&& 0x0F).toNat * 4]? = some 8)

/-- The first bytes of an answer of length `n`: an ARP reply, or an IPv4 header without options and
an echo reply. -/
def IsReply (buf : List UInt8) (n : Nat) : Prop :=
  (n = 42 ∧ buf[12]? = some 0x08 ∧ buf[13]? = some 0x06 ∧ buf[20]? = some 0 ∧ buf[21]? = some 2) ∨
  (34 < n ∧ n ≤ buf.length ∧ buf[12]? = some 0x08 ∧ buf[13]? = some 0x00 ∧ buf[14]? = some 0x45 ∧
    buf[34]? = some 0)

/-- Two bytes of a packet, read as a number. -/
theorem getElem?_of_be16At {b : List UInt8} {i : Nat} {u v : UInt8} (hlen : i + 1 < b.length)
    (h : be16At b i = be16 u v) : b[i]? = some u ∧ b[i + 1]? = some v := by
  obtain ⟨hu, hv⟩ := be16_inj h
  rw [List.getD_eq_getElem _ _ (by omega)] at hu
  rw [List.getD_eq_getElem _ _ hlen] at hv
  exact ⟨List.getElem?_eq_some_iff.mpr ⟨_, hu⟩, List.getElem?_eq_some_iff.mpr ⟨_, hv⟩⟩

theorem IsArpRequest.isRequest {ourIp : UInt32} {pkt : List UInt8} (h : IsArpRequest ourIp pkt) :
    IsRequest pkt := by
  have hfits := h.fits
  obtain ⟨h6, h7⟩ := @getElem?_of_be16At _ 6 0 1 (by omega) h.oper
  rw [List.length_drop] at hfits
  obtain ⟨h12, h13⟩ := @getElem?_of_be16At pkt 12 0x08 0x06 (by omega) h.etype.2
  rw [List.getElem?_drop] at h6 h7
  exact Or.inl ⟨h12, h13, h6, h7⟩

theorem IsEchoRequest.isRequest {ourIp : UInt32} {pkt : List UInt8} (h : IsEchoRequest ourIp pkt) :
    IsRequest pkt := by
  have hfits := h.fits
  have hicmp := h.icmp
  have hecho := h.echo
  rw [List.length_drop] at hfits
  obtain ⟨h12, h13⟩ := @getElem?_of_be16At pkt 12 0x08 0x00 (by omega) h.etype.2
  -- the byte with the header length, and the byte that it leads to
  have hfirst : pkt[14]? = some ((pkt.drop 14).getD 0 0) := by
    rw [List.getD_eq_getElem _ _ (by rw [List.length_drop]; omega), List.getElem_drop]
    exact List.getElem?_eq_getElem (by omega)
  have htype : (message pkt)[0]? = some 8 := by
    rw [List.getD_eq_getElem _ _ (by omega)] at hecho
    exact List.getElem?_eq_some_iff.mpr ⟨_, hecho⟩
  rw [message, List.getElem?_drop, List.getElem?_drop] at htype
  exact Or.inr ⟨h12, h13, _, hfirst, htype⟩

/-- The bytes of an ARP reply that are looked at. -/
theorem isReply_arpFrame {ourMac senderMac : List UInt8} (ourIp senderIp : UInt32) (hour : ourMac.length = 6)
    (hsender : senderMac.length = 6) (rest : List UInt8) :
    IsReply (arpFrame ourMac ourIp senderMac senderIp ++ rest) 42 := by
  have hmacs : (senderMac ++ ourMac).length = 12 := by rw [List.length_append, hour, hsender]
  have hheader := length_frameHeader 0x0806 hsender hour
  refine Or.inl ⟨rfl, ?_, ?_, ?_, ?_⟩
  all_goals rw [arpFrame, List.append_assoc]
  -- two bytes behind the addresses of the frame header, and two of the ARP fields
  · rw [frameHeader, List.append_assoc]
    exact getElem?_append_add hmacs _ 0
  · rw [frameHeader, List.append_assoc]
    exact getElem?_append_add hmacs _ 1
  · exact getElem?_append_add hheader _ 6
  · exact getElem?_append_add hheader _ 7

/-- The bytes of an echo reply that are looked at. -/
theorem isReply_echoFrame {ourMac srcMac m : List UInt8} (ourIp srcIp : UInt32) (hour : ourMac.length = 6)
    (hsrc : srcMac.length = 6) (hm : 8 ≤ m.length) (rest : List UInt8) :
    IsReply (echoFrame ourMac ourIp srcMac srcIp m ++ rest) (34 + m.length) := by
  have hmacs : (srcMac ++ ourMac).length = 12 := by rw [List.length_append, hour, hsrc]
  have hheader := length_frameHeader 0x0800 hsrc hour
  have hlen := @length_echoFrame ourMac srcMac m ourIp srcIp hour hsrc (by omega)
  refine Or.inr ⟨by omega, by rw [List.length_append]; omega, ?_, ?_, ?_, ?_⟩
  all_goals rw [echoFrame, List.append_assoc]
  · rw [frameHeader, List.append_assoc]
    exact getElem?_append_add hmacs _ 0
  · rw [frameHeader, List.append_assoc]
    exact getElem?_append_add hmacs _ 1
  · exact getElem?_append_add hheader _ 0
  · exact getElem?_append_add hheader _ 20

/-- A request is answered with a reply. -/
theorem answer_isReply {ourMac pkt a : List UInt8} {ourIp : UInt32} (hour : ourMac.length = 6)
    (h : answer ourMac ourIp pkt = some a) (rest : List UInt8) :
    IsRequest pkt ∧ IsReply (a ++ rest) a.length := by
  rcases answer_eq_some_iff.mp h with ⟨harp, rfl⟩ | ⟨hecho, -, rfl⟩
  · have hfits := harp.fits
    refine ⟨harp.isRequest, ?_⟩
    rw [length_arpAnswer hour harp]
    exact isReply_arpFrame _ _ hour (length_mac (by omega)) rest
  · have hlong := hecho.etype.1
    refine ⟨hecho.isRequest, ?_⟩
    rw [length_echoAnswer hour hecho]
    exact isReply_echoFrame _ _ hour (length_mac (by omega)) hecho.icmp rest

/-! ## Every frame -/

/-- What `net_process_packet` does with a frame: it returns, and an answer is a reply inside the reply
buffer to a request. -/
theorem returns_netProcessPacket (pkt : ReceivedFrame T) (ourMac : Vector UInt8 6) (ourIp : UInt32)
    (replyBuf : Vector UInt8 1514) :
    Returns (netProcessPacket T (some pkt.bytes) (some ourMac) ourIp (some replyBuf)) fun r =>
      r.2.length = 1514 ∧ ∀ n, r.1 = some n → n ≤ 1514 ∧ IsRequest pkt.bytes ∧ IsReply r.2 n := by
  refine ⟨_, netProcessPacket_eq pkt ourMac ourIp replyBuf, ?_⟩
  cases hanswer : answer ourMac.toList ourIp pkt.bytes with
  | none => exact ⟨replyBuf.length_toList, fun n hn => by cases hn⟩
  | some a =>
      obtain ⟨-, hle⟩ := answer_length ourMac.length_toList hanswer
      obtain ⟨hreq, hrep⟩ := answer_isReply ourMac.length_toList hanswer (replyBuf.toList.drop a.length)
      refine ⟨?_, fun n hn => ?_⟩
      · rw [written, List.length_append, List.length_drop, replyBuf.length_toList]
        omega
      · obtain rfl := Option.some.inj hn
        exact ⟨hle, hreq, hrep⟩

/-- Handling a frame neither panics nor loops, whatever the bytes: every index, slice, copy and sum is
fine, and a reply lies inside the reply buffer. -/
theorem netProcessPacket_safe (T : Target) (data : Option (ReceivedFrame T))
    (ourMac : Option (Vector UInt8 6)) (ourIp : UInt32) (replyBuf : Option (Vector UInt8 1514)) :
    ∃ r, netProcessPacket T (data.map ReceivedFrame.bytes) ourMac ourIp replyBuf = .ok r ∧
      ∀ n, r.1 = some n → 1 ≤ n ∧ n ≤ 1514 ∧ r.2.length = 1514 := by
  match data, ourMac, replyBuf with
  | some pkt, some omac, some rbuf =>
      obtain ⟨r, hr, hbuf, hn⟩ := returns_netProcessPacket pkt omac ourIp rbuf
      refine ⟨r, hr, fun n hrn => ?_⟩
      obtain ⟨hle, -, hrep⟩ := hn n hrn
      refine ⟨?_, hle, hbuf⟩
      rcases hrep with ⟨hn, -⟩ | ⟨hn, -⟩
      · omega
      · omega
  | none, _, _ => exact ⟨_, rfl, fun n hn => by cases hn⟩
  | some _, none, _ => exact ⟨_, rfl, fun n hn => by cases hn⟩
  | some _, some _, none => exact ⟨_, rfl, fun n hn => by cases hn⟩

end Net

end Aerogel
