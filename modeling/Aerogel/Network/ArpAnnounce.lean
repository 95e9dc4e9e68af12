import Aerogel.Network.EchoReply

/-! # Whom ARP frames are addressed to

A reply of `arp::handle` goes to the host that asked. `net_arp_announce` makes its frame by asking
for our own address in our own name: the announcement is the reply to that, so it is addressed to
us, and nobody hears it unless our address is the broadcast address. -/

namespace Aerogel

namespace Net

variable {T : Target}

/-! ## `lib.rs` -/

/-- The request that `net_arp_announce` makes up. -/
def announceRequest (omac6 : List UInt8) (ourIp : UInt32) : Except Panic (List UInt8) := do
  let fake := List.replicate 28 0
  let fake ← copyInto fake 0 2 [0x00, 0x01]
  let fake ← copyInto fake 2 4 [0x08, 0x00]
  let fake ← writeAt fake 4 6
  let fake ← writeAt fake 5 4
  let fake ← copyInto fake 6 8 [0x00, 0x01]
  let fake ← copyInto fake 8 14 omac6
  let fake ← copyInto fake 14 18 (toBe32 ourIp)
  copyInto fake 24 28 (toBe32 ourIp)

/-- `net_arp_announce`: its result and the buffer. A null pointer is `none`. -/
def netArpAnnounce (T : Target) (ourMac : Option (Vector UInt8 6)) (ourIp : UInt32)
    (out : Option (Vector UInt8 42)) : Except Panic (Nat × List UInt8) :=
  match ourMac, out with
  | some omac, some buf => do
    let _bcast : List UInt8 := List.replicate 6 0xFF
    let omac6 ← copyInto (List.replicate 6 0) 0 6 omac.toList
    let smac6 := omac6
    let fake ← announceRequest omac6 ourIp
    let (n, buf) ← arpHandle T fake omac6 ourIp smac6 buf.toList
    return (n % 2 ^ 32, buf)
  | _, _ => .ok (0, (out.map Vector.toList).getD [])

/-! ## What the frames should say -/

/-- The broadcast address. -/
def broadcast : List UInt8 := List.replicate 6 0xFF

/-- An ARP reply of `ourMac` and `ourIp` to the host `mac` and `ip`. -/
structure IsArpReply (ourMac : List UInt8) (ourIp : UInt32) (mac : List UInt8) (ip : UInt32)
    (f : List UInt8) : Prop where
  /-- Nothing follows the ARP fields. -/
  length : f.length = 42
  /-- The destination on the link. -/
  dst : f.take 6 = mac
  /-- The source on the link. -/
  src : (f.drop 6).take 6 = ourMac
  /-- The EtherType. -/
  etype : be16At f 12 = 0x0806
  /-- Ethernet and IPv4, with addresses of 6 and 4 bytes. -/
  formats : be16At f 14 = 1 ∧ be16At f 16 = 0x0800 ∧ f.getD 18 0 = 6 ∧ f.getD 19 0 = 4
  /-- The operation. -/
  oper : be16At f 20 = 2
  /-- The sender. -/
  sender : (f.drop 22).take 6 = ourMac ∧ be32At f 28 = ourIp
  /-- The target. -/
  target : (f.drop 32).take 6 = mac ∧ be32At f 38 = ip

/-- A gratuitous ARP frame of `ourMac` and `ourIp` that every host on the link receives. -/
structure IsAnnouncement (ourMac : List UInt8) (ourIp : UInt32) (f : List UInt8) : Prop where
  /-- 42 bytes. -/
  length : f.length = 42
  /-- The destination on the link. -/
  dst : f.take 6 = broadcast
  /-- The source on the link. -/
  src : (f.drop 6).take 6 = ourMac
  /-- The EtherType. -/
  etype : be16At f 12 = 0x0806
  /-- The sender. -/
  sender : (f.drop 22).take 6 = ourMac ∧ be32At f 28 = ourIp
  /-- The address that is announced. -/
  target : be32At f 38 = ourIp

/-- An ARP payload that asks for `ourIp`. -/
structure AsksFor (ourIp : UInt32) (p : List UInt8) : Prop where
  /-- All fields are there. -/
  fits : 28 ≤ p.length
  /-- A request. -/
  oper : be16At p 6 = 1
  /-- The address asked for. -/
  target : be32At p 24 = ourIp

/-- ARP frames are addressed correctly: replies to the host that asked, announcements to every
host. -/
structure ArpAddressed (T : Target) (ourMac : Vector UInt8 6) (ourIp : UInt32) : Prop where
  /-- Every request gets a reply, into every buffer that has room for one. -/
  replies : ∀ p srcMac out, AsksFor ourIp p → ∃ n buf,
    arpHandle T p ourMac.toList ourIp srcMac out = .ok (n, buf) ∧
      if out.length < 42 then n = 0 else n = 42 ∧
        IsArpReply ourMac.toList ourIp ((p.take 14).drop 8) (be32At p 14) (buf.take 42)
  /-- The announcement. -/
  announces : ∀ out, ∃ f, netArpAnnounce T (some ourMac) ourIp (some out) = .ok (42, f) ∧
    IsAnnouncement ourMac.toList ourIp f

/-! ## Replies -/

/-- What `arp::handle` writes is addressed to the host that asked. -/
theorem isArpReply_arpFrame {ourMac mac : List UInt8} (ourIp ip : UInt32) (hour : ourMac.length = 6)
    (hmac : mac.length = 6) : IsArpReply ourMac ourIp mac ip (arpFrame ourMac ourIp mac ip) := by
  have hmacs : (mac ++ ourMac).length = 12 := by rw [List.length_append, hour, hmac]
  -- the two addresses on the link, the fixed fields, and the addresses that ARP is about
  have hframe : arpFrame ourMac ourIp mac ip = mac ++ (ourMac ++ ([8, 6] ++ ([0, 1, 8, 0, 6, 4, 0, 2] ++
      (ourMac ++ (toBe32 ourIp ++ (mac ++ toBe32 ip)))))) := by
    simp only [arpFrame, frameHeader, arpFields, List.append_assoc]
    rfl
  have hfixed : ∀ k, be16At (arpFrame ourMac ourIp mac ip) (12 + k) =
      be16At ([8, 6] ++ ([0, 1, 8, 0, 6, 4, 0, 2] ++ (ourMac ++ (toBe32 ourIp ++ (mac ++ toBe32 ip))))) k := by
    intro k
    rw [hframe, ← List.append_assoc, be16At_append_add hmacs]
  have hbyte : ∀ k, (arpFrame ourMac ourIp mac ip).getD (12 + k) 0 =
      ([8, 6] ++ ([0, 1, 8, 0, 6, 4, 0, 2] ++
        (ourMac ++ (toBe32 ourIp ++ (mac ++ toBe32 ip))))).getD k 0 := by
    intro k
    rw [hframe, ← List.append_assoc, getD_append_add hmacs]
  have hdrop : (arpFrame ourMac ourIp mac ip).drop 22 = ourMac ++
    (toBe32 ourIp ++ (mac ++ toBe32 ip)) := by
    rw [hframe, ← List.append_assoc, show 22 = 12 + 10 from rfl, ← List.drop_drop, List.drop_left' hmacs]
    rfl
  have hword : ∀ k, be32At (arpFrame ourMac ourIp mac ip) (22 + k) =
      be32At (ourMac ++ (toBe32 ourIp ++ (mac ++ toBe32 ip))) k := by
    intro k
    have hlen : ((arpFrame ourMac ourIp mac ip).take 22).length = 22 := by
      rw [List.length_take, length_arpFrame _ _ hour hmac]
      rfl
    rw [← List.take_append_drop 22 (arpFrame ourMac ourIp mac ip), be32At_append_add hlen, hdrop]
  constructor
  case length => exact length_arpFrame _ _ hour hmac
  case dst =>
    rw [hframe]
    exact List.take_left' hmac
  case src =>
    rw [hframe, List.drop_left' hmac]
    exact List.take_left' hour
  case etype => exact (hfixed 0).trans (show be16 8 6 = 0x0806 by decide)
  case formats =>
    refine ⟨(hfixed 2).trans ?_, (hfixed 4).trans ?_, hbyte 6, hbyte 7⟩
    · exact show be16 0 1 = 1 by decide
    · exact show be16 8 0 = 0x0800 by decide
  case oper => exact (hfixed 8).trans (show be16 0 2 = 2 by decide)
  case sender =>
    refine ⟨by rw [hdrop, List.take_left' hour], (hword 6).trans ?_⟩
    exact (be32At_append_add hour _ 0).trans (be32At_toBe32 _ _)
  case target =>
    refine ⟨?_, (hword 16).trans ?_⟩
    · rw [show 32 = 22 + (6 + 4) from rfl, ← List.drop_drop, hdrop, ← List.drop_drop,
        List.drop_left' hour, List.drop_left' (length_toBe32 _), List.take_left' hmac]
    · rw [show 16 = 6 + (4 + (6 + 0)) from rfl, be32At_append_add hour,
        be32At_append_add (length_toBe32 _), be32At_append_add hmac]
      exact be32At_toBe32 _ []

/-- Without room for the reply there is none. -/
theorem AsksFor.arpHandle_of_short {p out : List UInt8} {ourIp : UInt32} (h : AsksFor ourIp p)
    (ourMac : Vector UInt8 6) (srcMac : List UInt8) (hshort : out.length < 42) :
    ∃ buf, arpHandle T p ourMac.toList ourIp srcMac out = .ok (0, buf) := by
  have hword := T.two_pow_32_le
  have hfits := h.fits
  have hsender : ((p.take 14).drop 8).length = 6 := length_mac (by omega)
  rw [arpHandle, if_neg (by omega), readBe16_eq (by omega), ok_bind, readBe32_eq (by omega), ok_bind,
    readBe32_eq (by omega), ok_bind, if_neg (by rw [h.oper, h.target]; simp),
    slice_eq (by omega) (by omega), ok_bind, copyInto_array hsender, ok_bind]
  by_cases hframe : 14 ≤ out.length
  · -- the frame header is written, and nothing else
    rw [writeFrame_eq _ hframe hsender ourMac.length_toList, ok_bind]
    dsimp only
    rw [addUsize_eq (by omega), ok_bind, if_pos]
    · exact ⟨_, rfl⟩
    · rw [List.length_append, length_frameHeader _ hsender ourMac.length_toList, List.length_drop]
      omega
  · rw [writeFrame, if_pos (by omega), ok_bind]
    dsimp only
    rw [addUsize_eq (by omega), ok_bind, if_pos (by omega)]
    exact ⟨_, rfl⟩

/-- A request is answered when there is room for the reply. -/
theorem AsksFor.arpHandle_eq {p out : List UInt8} {ourIp : UInt32} (h : AsksFor ourIp p)
    (ourMac : Vector UInt8 6) (srcMac : List UInt8) : ∃ n buf,
      arpHandle T p ourMac.toList ourIp srcMac out = .ok (n, buf) ∧
        if out.length < 42 then n = 0 else n = 42 ∧
          IsArpReply ourMac.toList ourIp ((p.take 14).drop 8) (be32At p 14) (buf.take 42) := by
  have hsender : ((p.take 14).drop 8).length = 6 := length_mac (by have := h.fits; omega)
  have hlen := length_arpFrame ourIp (be32At p 14) ourMac.length_toList hsender
  split_ifs with hshort
  · obtain ⟨buf, hrun⟩ := h.arpHandle_of_short ourMac srcMac hshort
    exact ⟨0, buf, hrun, rfl⟩
  · have hanswer : arpAnswer ourMac.toList ourIp p =
        some (arpFrame ourMac.toList ourIp ((p.take 14).drop 8) (be32At p 14)) :=
      if_pos ⟨h.fits, h.oper, h.target⟩
    have hrun := @Net.arpHandle_eq T p ourMac.toList out ourIp srcMac ourMac.length_toList (by omega)
    rw [hanswer, written, hlen] at hrun
    refine ⟨_, _, hrun, rfl, ?_⟩
    rw [List.take_left' hlen]
    exact isArpReply_arpFrame _ _ ourMac.length_toList hsender

/-! ## The announcement -/

/-- The made-up request asks for our own address in our own name. -/
theorem announceRequest_eq {mac : List UInt8} (hmac : mac.length = 6) (ip : UInt32) :
    announceRequest mac ip = .ok ([0, 1, 8, 0, 6, 4, 0, 1] ++
      (mac ++ (toBe32 ip ++ (List.replicate 6 0 ++ toBe32 ip)))) := by
  have h₁ : copyInto (List.replicate 28 0) 0 2 [0, 1] = .ok ([] ++ [0, 1] ++ List.replicate 26 0) :=
    @copyInto_next [0, 1] 0 2 [] (List.replicate 28 0) rfl rfl (by decide)
  rw [announceRequest, h₁, ok_bind,
    copyInto_next (by rfl) (by rfl) (by decide), ok_bind,
    writeAt_next (by rfl) _ (by decide), ok_bind,
    writeAt_next (by rfl) _ (by decide), ok_bind,
    copyInto_next (by rfl) (by rfl) (by decide), ok_bind,
    copyInto_next (by rfl) (by omega) (by rw [hmac]; decide), ok_bind, hmac,
    copyInto_next (by simp [hmac]) (by rfl) (by simp [length_toBe32]), ok_bind]
  -- the target's hardware address is skipped and stays 0
  change copyInto (([0, 1] ++ [8, 0] ++ [6] ++ [4] ++ [0, 1] ++ mac ++ toBe32 ip) ++
    (List.replicate 6 0 ++ List.replicate 4 0)) 24 28 (toBe32 ip) = _
  rw [← List.append_assoc, copyInto_next (by simp [hmac, length_toBe32]) (by rfl)
    (by simp [length_toBe32])]
  simp only [List.append_assoc]
  rfl

/-- It is answered like any other request. -/
theorem netArpAnnounce_eq (ourMac : Vector UInt8 6) (ourIp : UInt32) (out : Vector UInt8 42) :
    netArpAnnounce T (some ourMac) ourIp (some out) =
      .ok (42, arpFrame ourMac.toList ourIp ourMac.toList ourIp) := by
  have hmac := ourMac.length_toList
  have hfixed : ([0, 1, 8, 0, 6, 4, 0, 1] : List UInt8).length = 8 := rfl
  obtain ⟨fake, hfake, hlen, hoper, htarget, hsender, hip⟩ : ∃ fake,
      announceRequest ourMac.toList ourIp = .ok fake ∧ 28 ≤ fake.length ∧ be16At fake 6 = 1 ∧
        be32At fake 24 = ourIp ∧ (fake.take 14).drop 8 = ourMac.toList ∧ be32At fake 14 = ourIp := by
    refine ⟨_, announceRequest_eq hmac ourIp, ?_, show be16 0 1 = 1 by decide, ?_, ?_, ?_⟩
    · rw [List.length_append, hfixed, List.length_append, hmac]
      exact le_rfl
    · rw [show 24 = 8 + (6 + (4 + (6 + 0))) from rfl, be32At_append_add hfixed, be32At_append_add hmac,
        be32At_append_add (length_toBe32 _), be32At_append_add List.length_replicate]
      exact be32At_toBe32 _ []
    · rw [List.drop_take, List.drop_left' hfixed, List.take_left' hmac]
    · rw [show 14 = 8 + (6 + 0) from rfl, be32At_append_add hfixed, be32At_append_add hmac, be32At_toBe32]
  have hanswer : arpAnswer ourMac.toList ourIp fake =
      some (arpFrame ourMac.toList ourIp ourMac.toList ourIp) := by
    rw [arpAnswer, if_pos ⟨hlen, hoper, htarget⟩, hsender, hip]
  have hframe := length_arpFrame ourIp ourIp hmac hmac
  rw [netArpAnnounce, copyInto_array hmac, ok_bind]
  dsimp only
  rw [hfake, ok_bind, arpHandle_eq ourIp _ hmac (by rw [out.length_toList]), hanswer, written, ok_bind,
    List.drop_eq_nil_of_le (by rw [hframe, out.length_toList]), List.append_nil, hframe]
  rfl

/-- It announces our address if it is sent to every host. -/
theorem isAnnouncement_arpFrame_iff {mac : List UInt8} (ip : UInt32) (hmac : mac.length = 6) :
    IsAnnouncement mac ip (arpFrame mac ip mac ip) ↔ mac = broadcast := by
  have h := isArpReply_arpFrame ip ip hmac hmac
  constructor
  · intro hann
    rw [← hann.dst, h.dst]
  · rintro rfl
    exact ⟨h.length, h.dst, h.src, h.etype, h.sender, h.target.2⟩

/-- Replies are always addressed correctly, announcements only if our address is the broadcast
address. -/
theorem arpAddressed_iff (T : Target) (ourMac : Vector UInt8 6) (ourIp : UInt32) :
    ArpAddressed T ourMac ourIp ↔ ourMac.toList = broadcast := by
  rw [← isAnnouncement_arpFrame_iff ourIp ourMac.length_toList]
  constructor
  · intro h
    obtain ⟨f, hrun, hann⟩ := h.announces (Vector.replicate 42 0)
    rw [netArpAnnounce_eq, Except.ok.injEq, Prod.mk.injEq] at hrun
    rw [hrun.2]
    exact hann
  · intro h
    exact ⟨fun p srcMac out hp => hp.arpHandle_eq ourMac srcMac, fun out => ⟨_, netArpAnnounce_eq _ _ _, h⟩⟩

/-- 02:00:00:00:00:02 announces itself to 02:00:00:00:00:02. -/
theorem announcement_not_broadcast : ¬ ArpAddressed .x86 #v[2, 0, 0, 0, 0, 2] 0x0A000002 := by
  intro h
  obtain ⟨f, hrun, hann⟩ := h.announces (Vector.replicate 42 0)
  rw [netArpAnnounce_eq, Except.ok.injEq, Prod.mk.injEq] at hrun
  have hdst := hann.dst
  rw [← hrun.2] at hdst
  exact absurd hdst (by decide)

end Net

end Aerogel
