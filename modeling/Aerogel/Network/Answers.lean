import Aerogel.Foundations.OnesComplement
import Aerogel.Network.Packets

/-! # What the network stack answers

`net_process_packet` without its checks: `answer` says which frames are answered, and with which bytes.
`netProcessPacket_eq` is the whole behaviour of the Rust code on frames that it can receive; every property of
it is a property of `answer`. -/

namespace Aerogel

namespace Net

variable {T : Target}

/-! ## Integers in network order -/

/-- The 16-bit number at a place of a packet. -/
def be16At (b : List UInt8) (i : Nat) : UInt16 := be16 (b.getD i 0) (b.getD (i + 1) 0)

/-- The 32-bit number at a place of a packet. -/
def be32At (b : List UInt8) (i : Nat) : UInt32 :=
  be32 (b.getD i 0) (b.getD (i + 1) 0) (b.getD (i + 2) 0) (b.getD (i + 3) 0)

theorem readBe16_eq {b : List UInt8} {i : Nat} (h : i + 1 < b.length) : readBe16 b i = .ok (be16At b i) := by
  rw [readBe16, readAt_eq (by omega), ok_bind, readAt_eq h, ok_bind]
  rfl

theorem readBe32_eq {b : List UInt8} {i : Nat} (h : i + 3 < b.length) : readBe32 b i = .ok (be32At b i) := by
  rw [readBe32, readAt_eq (by omega), ok_bind, readAt_eq (by omega), ok_bind, readAt_eq (by omega), ok_bind,
    readAt_eq h, ok_bind]
  rfl

theorem addUsize_eq {a b : Nat} (h : a + b < 2 ^ T.wordBits) : addUsize T a b = .ok (a + b) := if_pos h

/-- The value of two bytes. -/
theorem toNat_be16 (a b : UInt8) : (be16 a b).toNat = a.toNat * 256 + b.toNat := by
  have ha := a.toNat_lt
  have hb := b.toNat_lt
  have hshift : (a.toUInt16 <<< 8).toNat = a.toNat <<< 8 := by
    rw [UInt16.toNat_shiftLeft, UInt8.toNat_toUInt16]
    change a.toNat <<< 8 % 2 ^ 16 = _
    rw [Nat.shiftLeft_eq, Nat.mod_eq_of_lt (by omega)]
  rw [be16, UInt16.toNat_or, hshift, UInt8.toNat_toUInt16, ← Nat.shiftLeft_add_eq_or_of_lt hb,
    Nat.shiftLeft_eq]

/-- The value of two bytes determines them. -/
theorem be16_inj {a b c d : UInt8} (h : be16 a b = be16 c d) : a = c ∧ b = d := by
  have h₁ := toNat_be16 a b
  have h₂ := toNat_be16 c d
  have hb := b.toNat_lt
  have hd := d.toNat_lt
  rw [h] at h₁
  exact ⟨UInt8.toNat_inj.mp (by omega), UInt8.toNat_inj.mp (by omega)⟩

/-- The bytes of a number have its value. -/
theorem toNat_toBe16 (v : UInt16) : ∃ a b, toBe16 v = [a, b] ∧ a.toNat * 256 + b.toNat = v.toNat := by
  have hv := v.toNat_lt
  refine ⟨_, _, rfl, ?_⟩
  rw [UInt16.toNat_toUInt8, UInt16.toNat_toUInt8, UInt16.toNat_shiftRight]
  change v.toNat >>> 8 % 256 * 256 + v.toNat % 256 = v.toNat
  rw [Nat.shiftRight_eq_div_pow]
  omega

/-- The value of four bytes. -/
theorem toNat_be32 (a b c d : UInt8) :
    (be32 a b c d).toNat = a.toNat * 2 ^ 24 + (b.toNat * 2 ^ 16 + (c.toNat * 2 ^ 8 + d.toNat)) := by
  have ha := a.toNat_lt
  have hb := b.toNat_lt
  have hc := c.toNat_lt
  have hd := d.toNat_lt
  have hshift : ∀ (v : UInt8) (k : UInt32), k.toNat ≤ 24 →
      (v.toUInt32 <<< k).toNat = v.toNat * 2 ^ k.toNat := by
    intro v k hk
    have hv := v.toNat_lt
    have hpow : 2 ^ k.toNat ≤ 2 ^ 24 := Nat.pow_le_pow_right (by decide) hk
    have hmul : v.toNat * 2 ^ k.toNat ≤ 255 * 2 ^ 24 := Nat.mul_le_mul (by omega) hpow
    rw [UInt32.toNat_shiftLeft, UInt8.toNat_toUInt32, Nat.mod_eq_of_lt (show k.toNat < 32 by omega),
      Nat.shiftLeft_eq, Nat.mod_eq_of_lt (by omega)]
  have hor : ∀ (x : Nat) {y k : Nat}, y < 2 ^ k → x * 2 ^ k ||| y = x * 2 ^ k + y := by
    intro x y k hy
    rw [← Nat.shiftLeft_eq, ← Nat.shiftLeft_add_eq_or_of_lt hy]
  rw [be32, UInt32.toNat_or, UInt32.toNat_or, UInt32.toNat_or, hshift a 24 (by decide), hshift b 16 (by decide),
    hshift c 8 (by decide), UInt8.toNat_toUInt32]
  change a.toNat * 2 ^ 24 ||| b.toNat * 2 ^ 16 ||| c.toNat * 2 ^ 8 ||| d.toNat = _
  -- every byte lies above the ones that follow
  rw [Nat.or_assoc, Nat.or_assoc, hor c.toNat hd, @hor b.toNat _ 16 (by omega), @hor a.toNat _ 24 (by omega)]

/-- A 16-bit number is read as it was written. -/
theorem be16At_toBe16 (v : UInt16) (rest : List UInt8) : be16At (toBe16 v ++ rest) 0 = v := by
  obtain ⟨a, b, hab, hval⟩ := toNat_toBe16 v
  rw [hab]
  exact UInt16.toNat_inj.mp ((toNat_be16 a b).trans hval)

/-- A 32-bit number is read as it was written. -/
theorem be32At_toBe32 (v : UInt32) (rest : List UInt8) : be32At (toBe32 v ++ rest) 0 = v := by
  change be32 (v >>> 24).toUInt8 (v >>> 16).toUInt8 (v >>> 8).toUInt8 v.toUInt8 = v
  have hv := v.toNat_lt
  apply UInt32.toNat_inj.mp
  rw [toNat_be32]
  simp only [UInt32.toNat_toUInt8, UInt32.toNat_shiftRight]
  change v.toNat >>> 24 % 256 * 2 ^ 24 + (v.toNat >>> 16 % 256 * 2 ^ 16 +
    (v.toNat >>> 8 % 256 * 2 ^ 8 + v.toNat % 256)) = v.toNat
  simp only [Nat.shiftRight_eq_div_pow]
  omega

/-- A byte behind a part of known length. -/
theorem getElem?_append_add {pre : List UInt8} {n : Nat} (h : pre.length = n) (post : List UInt8) (k : Nat) :
    (pre ++ post)[n + k]? = post[k]? := by
  rw [List.getElem?_append_right (by omega), h, Nat.add_sub_cancel_left]

/-! ## The checksum -/

/-- The checksum of some bytes. -/
def checksumOf (data : List UInt8) : UInt16 := ~~~ (UInt16.ofNat (onesSum data))

theorem foldCarry_eq {sum : Nat} (h : sum < 2 ^ 32) : foldCarry sum = .ok (endAround sum) := by
  induction sum using Nat.strong_induction_on with
  | _ sum ih =>
      have hlow : sum &&& 0xFFFF = sum % 2 ^ 16 := Nat.and_two_pow_sub_one_eq_mod sum 16
      have hhigh : sum >>> 16 = sum / 2 ^ 16 := Nat.shiftRight_eq_div_pow sum 16
      rw [foldCarry, hlow, hhigh]
      split_ifs with hcarry
      · rw [addChecked, if_pos (by omega), ok_bind, ih _ (by omega) (by omega), endAround_fold]
      · rw [endAround_of_lt (by omega)]

/-- The words of at most 128 KiB are added up inside 32 bits. -/
theorem sumWords_addOdd_eq {data : List UInt8} (hlen : data.length ≤ 2 ^ 17) {i sum : Nat}
    (hi : i ≤ data.length) (hsum : 2 * sum ≤ 65535 * i) :
    (sumWords T data i sum >>= fun p => addOdd data p.1 p.2) = .ok (sum + wordSum (data.drop i)) := by
  have hword := T.two_pow_32_le
  -- the sum is bounded by the position, which every iteration advances
  induction hk : data.length - i using Nat.strong_induction_on generalizing i sum with
  | _ k ih =>
      rw [sumWords, addUsize_eq (by omega), ok_bind]
      split_ifs with hmore
      · have hw : (be16At data i).toNat < 65536 := (be16At data i).toNat_lt
        have hdrop : data.drop i = data.getD i 0 :: data.getD (i + 1) 0 :: data.drop (i + 2) := by
          rw [List.drop_eq_getElem_cons (show i < data.length by omega), List.drop_eq_getElem_cons hmore,
            List.getD_eq_getElem _ _ hmore, List.getD_eq_getElem _ _ (show i < data.length by omega)]
        rw [readBe16_eq hmore, ok_bind, addChecked, if_pos (by omega), ok_bind, addUsize_eq (by omega), ok_bind,
          ih _ (by omega) (by omega) (by omega) rfl, hdrop, wordSum, be16At, toNat_be16]
        congr 1
        omega
      · -- at most one byte is left
        rw [pure_bind]
        change addOdd data i sum = _
        rw [addOdd]
        split_ifs with hodd
        · have hv : (data.getD i 0).toNat < 256 := (data.getD i 0).toNat_lt
          have hdrop : data.drop i = [data.getD i 0] := by
            rw [List.drop_eq_getElem_cons hodd, List.drop_eq_nil_of_le (by omega),
              List.getD_eq_getElem _ _ hodd]
          rw [readAt_eq hodd, ok_bind, Nat.shiftLeft_eq, addChecked, if_pos (by omega), hdrop, wordSum]
        · rw [List.drop_eq_nil_of_le (by omega), wordSum, Nat.add_zero]

theorem wordSum_le (data : List UInt8) : 2 * wordSum data ≤ 65535 * (data.length + 1) := by
  induction data using wordSum.induct with
  | case1 => exact Nat.zero_le _
  | case2 a =>
      have ha := a.toNat_lt
      rw [wordSum, List.length_singleton]
      omega
  | case3 a b rest ih =>
      have ha := a.toNat_lt
      have hb := b.toNat_lt
      rw [wordSum, List.length_cons, List.length_cons]
      omega

/-- The checksum of at most 128 KiB. -/
theorem checksum_eq {data : List UInt8} (hlen : data.length ≤ 2 ^ 17) :
    checksum T data = .ok (checksumOf data) := by
  have hle := wordSum_le data
  have hsum := @sumWords_addOdd_eq T data hlen 0 0 (Nat.zero_le _) (Nat.zero_le _)
  rw [List.drop_zero, Nat.zero_add] at hsum
  rw [checksum, ← bind_assoc, hsum, ok_bind, foldCarry_eq (by omega), ok_bind, ← onesSum_eq]
  rfl

/-- A checksum makes up for the sum of the other words. -/
theorem onesSum_checksumOf {pre : List UInt8} (h : pre.length % 2 = 0) (post : List UInt8) :
    onesSum (pre ++ (toBe16 (checksumOf (pre ++ ([0, 0] ++ post))) ++ post)) = 0xFFFF := by
  obtain ⟨a, b, hab, hval⟩ := toNat_toBe16 (checksumOf (pre ++ ([0, 0] ++ post)))
  rw [hab]
  apply onesSum_insert h
  have hle := onesSum_le (pre ++ ([0, 0] ++ post))
  rw [hval, checksumOf, UInt16.toNat_not, UInt16.toNat_ofNat', Nat.mod_eq_of_lt (by omega)]
  rfl

/-! ## Frames -/

/-- An Ethernet header. -/
def frameHeader (dst src : List UInt8) (etype : UInt16) : List UInt8 := dst ++ src ++ toBe16 etype

/-- The fields of an IPv4 header in front of the checksum. -/
def ipHeaderFront (proto : UInt8) (total : Nat) : List UInt8 :=
  [0x45, 0] ++ toBe16 (UInt16.ofNat total) ++ [0, 1] ++ [0x40, 0] ++ [64, proto]

/-- An IPv4 header for a payload of `n` bytes. -/
def ipHeader (proto : UInt8) (srcIp dstIp : UInt32) (n : Nat) : List UInt8 :=
  let front := ipHeaderFront proto (20 + n)
  let addresses := toBe32 srcIp ++ toBe32 dstIp
  front ++ (toBe16 (checksumOf (front ++ ([0, 0] ++ addresses))) ++ addresses)

/-- The answer to an echo request: type and code 0, the checksum, and the rest of the request. -/
def echoMessage (m : List UInt8) : List UInt8 :=
  [0, 0] ++ (toBe16 (checksumOf ([0, 0] ++ ([0, 0] ++ m.drop 4))) ++ m.drop 4)

/-- The frame with it. -/
def echoFrame (ourMac : List UInt8) (ourIp : UInt32) (srcMac : List UInt8) (srcIp : UInt32)
    (m : List UInt8) : List UInt8 :=
  frameHeader srcMac ourMac 0x0800 ++ (ipHeader protoIcmp ourIp srcIp m.length ++ echoMessage m)

/-- The fields of an ARP reply. -/
def arpFields (ourMac : List UInt8) (ourIp : UInt32) (senderMac : List UInt8) (senderIp : UInt32) :
    List UInt8 :=
  [0, 1] ++ [8, 0] ++ [6] ++ [4] ++ [0, 2] ++ ourMac ++ toBe32 ourIp ++ senderMac ++ toBe32 senderIp

/-- The answer to an ARP request. -/
def arpFrame (ourMac : List UInt8) (ourIp : UInt32) (senderMac : List UInt8) (senderIp : UInt32) :
    List UInt8 :=
  frameHeader senderMac ourMac 0x0806 ++ arpFields ourMac ourIp senderMac senderIp

theorem length_toBe16 (v : UInt16) : (toBe16 v).length = 2 := rfl

theorem length_toBe32 (v : UInt32) : (toBe32 v).length = 4 := rfl

@[simp] theorem length_frameHeader {dst src : List UInt8} (etype : UInt16) (hdst : dst.length = 6)
    (hsrc : src.length = 6) : (frameHeader dst src etype).length = 14 := by
  simp only [frameHeader, List.length_append, length_toBe16, hdst, hsrc]

@[simp] theorem length_ipHeader (proto : UInt8) (srcIp dstIp : UInt32) (n : Nat) :
    (ipHeader proto srcIp dstIp n).length = 20 := rfl

theorem length_echoMessage {m : List UInt8} (h : 4 ≤ m.length) : (echoMessage m).length = m.length := by
  simp only [echoMessage, List.length_append, length_toBe16, List.length_cons, List.length_nil,
    List.length_drop]
  omega

theorem length_echoFrame {ourMac srcMac m : List UInt8} (ourIp srcIp : UInt32) (hour : ourMac.length = 6)
    (hsrc : srcMac.length = 6) (h : 4 ≤ m.length) :
    (echoFrame ourMac ourIp srcMac srcIp m).length = 34 + m.length := by
  rw [echoFrame, List.length_append, List.length_append, length_frameHeader _ hsrc hour, length_ipHeader,
    length_echoMessage h]
  omega

theorem length_arpFields {ourMac senderMac : List UInt8} (ourIp senderIp : UInt32)
    (hour : ourMac.length = 6) (hsender : senderMac.length = 6) :
    (arpFields ourMac ourIp senderMac senderIp).length = 28 := by
  simp only [arpFields, List.length_append, List.length_cons, List.length_nil, length_toBe32, hour, hsender]

theorem length_arpFrame {ourMac senderMac : List UInt8} (ourIp senderIp : UInt32) (hour : ourMac.length = 6)
    (hsender : senderMac.length = 6) : (arpFrame ourMac ourIp senderMac senderIp).length = 42 := by
  rw [arpFrame, List.length_append, length_frameHeader _ hsender hour, length_arpFields _ _ hour hsender]

/-! ## Writing them -/

theorem writeFrame_eq {buf dst src : List UInt8} (etype : UInt16) (hbuf : 14 ≤ buf.length)
    (hdst : dst.length = 6) (hsrc : src.length = 6) :
    writeFrame buf dst src etype = .ok (14, frameHeader dst src etype ++ buf.drop 14) := by
  have h₁ : copyInto buf 0 6 dst = .ok ([] ++ dst ++ buf.drop dst.length) :=
    @copyInto_next dst 0 6 [] buf rfl (by omega) (by omega)
  -- every write begins where the one before ended
  rw [writeFrame, if_neg (by omega), h₁, ok_bind,
    copyInto_next (by simp [hdst]) (by omega) (by rw [List.length_drop]; omega), ok_bind,
    writeAt_next (by simp [hdst, hsrc]) _ (by simp only [List.length_drop]; omega), ok_bind,
    writeAt_next (by simp [hdst, hsrc]) _ (by simp only [List.length_drop]; omega), ok_bind]
  simp [frameHeader, toBe16, hdst, hsrc, pure, Except.pure]

/-- An IPv4 header, with the checksum put in last. -/
theorem ipv4Write_eq {buf : List UInt8} (proto : UInt8) (srcIp dstIp : UInt32) {n : Nat}
    (hbuf : 20 + n ≤ buf.length) (hn : n < 2 ^ 16) :
    ipv4Write T buf proto srcIp dstIp n = .ok (20, ipHeader proto srcIp dstIp n ++ buf.drop 20) := by
  have hword := T.two_pow_32_le
  have h₁ : writeAt buf 0 0x45 = .ok ([] ++ [0x45] ++ buf.drop 1) :=
    @writeAt_next 0 [] buf rfl 0x45 (by omega)
  rw [ipv4Write, addUsize_eq (by omega), ok_bind, if_neg (by omega), h₁, ok_bind,
    writeAt_next (by simp) _ (by simp only [List.length_drop]; omega), ok_bind,
    copyInto_next (by simp) (by rfl) (by simp only [List.length_drop, length_toBe16]; omega), ok_bind,
    copyInto_next (by simp [length_toBe16]) (by rfl) (by simp [length_toBe16]; omega), ok_bind,
    copyInto_next (by simp [length_toBe16]) (by rfl) (by simp [length_toBe16]; omega), ok_bind,
    writeAt_next (by simp [length_toBe16]) _ (by simp [length_toBe16]; omega), ok_bind,
    writeAt_next (by simp [length_toBe16]) _ (by simp [length_toBe16]; omega), ok_bind,
    copyInto_next (by simp [length_toBe16]) (by rfl) (by simp [length_toBe16]; omega), ok_bind,
    copyInto_next (by simp [length_toBe16]) (by rfl) (by simp [length_toBe16, length_toBe32]; omega), ok_bind,
    copyInto_next (by simp [length_toBe16, length_toBe32]) (by rfl)
      (by simp [length_toBe16, length_toBe32]; omega), ok_bind,
    slice_front (by simp [length_toBe16, length_toBe32]), ok_bind, checksum_eq (by
      simp [length_toBe16, length_toBe32]), ok_bind]
  -- the header so far, with the checksum field between its front and the addresses
  have hheader : [] ++ [0x45] ++ [0] ++ toBe16 (UInt16.ofNat (20 + n)) ++ [0, 1] ++ [0x40, 0] ++ [64] ++
      [proto] ++ [0, 0] ++ toBe32 srcIp ++ toBe32 dstIp =
      ipHeaderFront proto (20 + n) ++ ([0, 0] ++ (toBe32 srcIp ++ toBe32 dstIp)) := rfl
  rw [hheader, List.append_assoc (ipHeaderFront proto (20 + n)),
    copyInto_next (by rfl) (by rfl) (by simp [length_toBe16]), ok_bind]
  simp only [List.append_assoc, List.drop_drop, length_toBe16, length_toBe32]
  rfl

/-- The message of an echo reply. -/
theorem icmpBody_eq {icmp m : List UInt8} (hlen : icmp.length = m.length) (hlow : 8 ≤ m.length)
    (hhigh : m.length < 2 ^ 15) : icmpBody T icmp m = .ok (echoMessage m) := by
  have h₁ : writeAt m 0 0 = .ok ([] ++ [0] ++ m.drop 1) := @writeAt_next 0 [] m rfl 0 (by omega)
  rw [icmpBody, copyInto_self hlen, ok_bind, h₁, ok_bind,
    writeAt_next (by rfl) _ (by simp only [List.length_drop]; omega), ok_bind,
    writeAt_next (by rfl) _ (by simp only [List.length_drop]; omega), ok_bind,
    writeAt_next (by rfl) _ (by simp only [List.length_drop]; omega), ok_bind]
  -- the checksum field is 0 when the sum is taken
  have hzero : [] ++ [0] ++ [0] ++ [0] ++ [0] ++ (((m.drop 1).drop 1).drop 1).drop 1 =
      [0, 0] ++ ([0, 0] ++ m.drop 4) := by
    simp only [List.drop_drop]
    rfl
  have hall : (([0, 0] : List UInt8) ++ ([0, 0] ++ m.drop 4)).length = m.length := by
    simp only [List.length_append, List.length_cons, List.length_nil, List.length_drop]
    omega
  have hslice : slice (([0, 0] : List UInt8) ++ ([0, 0] ++ m.drop 4)) 0 m.length =
      .ok ([0, 0] ++ ([0, 0] ++ m.drop 4)) := by
    have hfront := @slice_front m.length ([0, 0] ++ ([0, 0] ++ m.drop 4)) [] hall.symm
    rwa [List.append_nil] at hfront
  rw [hzero, hslice, ok_bind, checksum_eq (by omega), ok_bind,
    copyInto_next (by rfl) (by rfl) (by simp [length_toBe16]), List.append_assoc]
  rfl

/-- The fields of an ARP reply are written in order. -/
theorem arpBody_eq {p ourMac senderMac : List UInt8} (ourIp senderIp : UInt32) (hp : 28 ≤ p.length)
    (hour : ourMac.length = 6) (hsender : senderMac.length = 6) :
    arpBody p ourMac ourIp senderMac senderIp =
      .ok (arpFields ourMac ourIp senderMac senderIp ++ p.drop 28) := by
  have h₁ : copyInto p 0 2 [0, 1] = .ok ([] ++ [0, 1] ++ p.drop 2) :=
    @copyInto_next [0, 1] 0 2 [] p rfl rfl (by simp only [List.length_cons, List.length_nil]; omega)
  rw [arpBody, h₁, ok_bind,
    copyInto_next (by rfl) (by rfl) (by simp; omega), ok_bind,
    writeAt_next (by rfl) _ (by simp; omega), ok_bind,
    writeAt_next (by rfl) _ (by simp; omega), ok_bind,
    copyInto_next (by rfl) (by rfl) (by simp; omega), ok_bind,
    copyInto_next (by rfl) (by omega) (by simp; omega), ok_bind,
    copyInto_next (by simp [hour]) (by rfl) (by simp [length_toBe32]; omega), ok_bind,
    copyInto_next (by simp [hour, length_toBe32]) (by omega) (by simp [length_toBe32]; omega), ok_bind,
    copyInto_next (by simp [hour, hsender, length_toBe32]) (by rfl) (by simp [length_toBe32]; omega)]
  simp only [List.drop_drop, length_toBe32, hour, hsender]
  rfl

/-! ## Answers -/

/-- A function that writes its answer to the front of `out` reports the length; 0 stands for no answer. -/
def written (answer : Option (List UInt8)) (out : List UInt8) : Nat × List UInt8 :=
  match answer with
  | none => (0, out)
  | some a => (a.length, a ++ out.drop a.length)

/-- What `icmp::handle` answers with a reply buffer of 1514 bytes. -/
def icmpAnswer (ourMac : List UInt8) (ourIp : UInt32) (srcMac : List UInt8) (srcIp : UInt32)
    (m : List UInt8) : Option (List UInt8) :=
  if 8 ≤ m.length ∧ m.getD 0 0 = 8 ∧ 34 + m.length ≤ 1514 then some (echoFrame ourMac ourIp srcMac srcIp m)
  else none

/-- What `arp::handle` answers. -/
def arpAnswer (ourMac : List UInt8) (ourIp : UInt32) (p : List UInt8) : Option (List UInt8) :=
  if 28 ≤ p.length ∧ be16At p 6 = 1 ∧ be32At p 24 = ourIp then
    some (arpFrame ourMac ourIp ((p.take 14).drop 8) (be32At p 14))
  else none

/-- The header length of an IPv4 packet. -/
def ihl (p : List UInt8) : Nat := (p.getD 0 0 &&& 0x0F).toNat * 4

/-- What an IPv4 packet is answered with: only a message for `ourIp` is looked at. -/
def ipv4Answer (ourMac : List UInt8) (ourIp : UInt32) (srcMac p : List UInt8) : Option (List UInt8) :=
  if 20 ≤ p.length ∧ ihl p ≤ p.length ∧ be32At p 16 = ourIp ∧ p.getD 9 0 = protoIcmp then
    icmpAnswer ourMac ourIp srcMac (be32At p 12) (p.drop (ihl p))
  else none

/-- What a frame is answered with. -/
def answer (ourMac : List UInt8) (ourIp : UInt32) (pkt : List UInt8) : Option (List UInt8) :=
  if pkt.length < 14 then none
  else match EtherType.fromU16 (be16At pkt 12) with
    | .arp => arpAnswer ourMac ourIp (pkt.drop 14)
    | .ipv4 => ipv4Answer ourMac ourIp ((pkt.take 12).drop 6) (pkt.drop 14)
    | .unknown => none

/-- A MAC address in a packet. -/
theorem length_mac {b : List UInt8} {i : Nat} (h : i + 6 ≤ b.length) : ((b.take (i + 6)).drop i).length = 6 := by
  rw [List.length_drop, List.length_take]
  omega

/-- A MAC address is copied to an array of its own. -/
theorem copyInto_array {mac : List UInt8} (h : mac.length = 6) :
    copyInto (List.replicate 6 0) 0 6 mac = .ok mac := by
  have hcopy := @copyInto_self (List.replicate 6 0) mac (by rw [List.length_replicate, h])
  rwa [List.length_replicate] at hcopy

/-- `icmp::handle` writes the frame with the answer. -/
theorem icmpHandle_eq {m ourMac srcMac out : List UInt8} (ourIp srcIp : UInt32)
    (hlen : 34 + m.length < 2 ^ T.wordBits) (hour : ourMac.length = 6) (hsrc : srcMac.length = 6)
    (hout : out.length = 1514) : icmpHandle T m ourMac ourIp srcMac srcIp out =
      .ok (written (icmpAnswer ourMac ourIp srcMac srcIp m) out) := by
  rw [icmpHandle, icmpAnswer]
  split_ifs with hshort hecho hecho
  · omega
  · rfl
  · obtain ⟨-, htype, hfits⟩ := hecho
    have hheader := length_frameHeader 0x0800 hsrc hour
    have hboth : (frameHeader srcMac ourMac 0x0800 ++ ipHeader protoIcmp ourIp srcIp m.length).length =
        14 + 20 := by
      rw [List.length_append, hheader, length_ipHeader]
    have hneed : addUsize T (14 + 20) m.length = .ok (14 + 20 + m.length) := addUsize_eq (by omega)
    -- the frame header
    rw [readAt_eq (by omega), ok_bind, if_neg (not_not.mpr htype)]
    dsimp only
    rw [hneed, ok_bind, if_neg (by omega), copyInto_array hsrc, ok_bind, writeFrame_eq _ (by omega) hsrc hour,
      ok_bind]
    dsimp only
    -- the IPv4 header, in the rest of the buffer
    rw [slice_back (by rw [List.length_append]; omega), ok_bind, List.drop_left' hheader,
      ipv4Write_eq _ _ _ (by rw [List.length_drop]; omega) (by omega), ok_bind]
    dsimp only
    rw [List.take_left' hheader, addUsize_eq (by omega), ok_bind, hneed, ok_bind, List.drop_drop,
      ← List.append_assoc]
    -- the place for the message lies behind both headers, and is overwritten
    rw [slice_eq (by omega) (by rw [List.length_append, List.length_drop]; omega), ok_bind,
      icmpBody_eq (by rw [List.length_drop, List.length_take, List.length_append, List.length_drop]; omega)
        (by omega) (by omega), ok_bind, ok_bind, List.take_left' hboth, written,
      length_echoFrame ourIp srcIp hour hsrc (by omega), echoFrame, List.drop_append,
      List.drop_eq_nil_of_le (by omega), hboth, List.drop_drop]
    simp only [List.append_assoc, List.nil_append, Nat.add_sub_cancel_left]
    rfl
  · -- not an echo request, or the answer does not fit
    rw [readAt_eq (by omega), ok_bind]
    split_ifs with htype
    · rfl
    · have hlong : ¬ 34 + m.length ≤ 1514 := fun hfits => hecho ⟨by omega, not_not.mp htype, hfits⟩
      dsimp only
      rw [addUsize_eq (by omega), ok_bind, if_pos (by omega)]
      rfl

/-- `arp::handle` writes the frame with the answer. -/
theorem arpHandle_eq {p ourMac out : List UInt8} (ourIp : UInt32) (srcMac : List UInt8)
    (hour : ourMac.length = 6) (hout : 42 ≤ out.length) :
    arpHandle T p ourMac ourIp srcMac out = .ok (written (arpAnswer ourMac ourIp p) out) := by
  have hword := T.two_pow_32_le
  rw [arpHandle, arpAnswer]
  split_ifs with hshort harp harp
  · omega
  · rfl
  · obtain ⟨-, hoper, htarget⟩ := harp
    have hsender : ((p.take 14).drop 8).length = 6 := length_mac (by omega)
    have hheader := length_frameHeader 0x0806 hsender hour
    have hsum : addUsize T 14 28 = .ok 42 := addUsize_eq (by omega)
    rw [readBe16_eq (by omega), ok_bind, readBe32_eq (by omega), ok_bind, readBe32_eq (by omega), ok_bind,
      if_neg (by rw [hoper, htarget]; simp), slice_eq (by omega) (by omega), ok_bind,
      copyInto_array hsender, ok_bind,
      writeFrame_eq _ (by omega) hsender hour, ok_bind]
    dsimp only
    rw [hsum, ok_bind, if_neg (by rw [List.length_append, List.length_drop]; omega),
      slice_back (by rw [List.length_append]; omega), ok_bind, List.drop_left' hheader,
      arpBody_eq _ _ (by rw [List.length_drop]; omega) hour hsender, ok_bind, ok_bind,
      List.take_left' hheader, written, length_arpFrame _ _ hour hsender, List.drop_drop, arpFrame,
      List.append_assoc]
    rfl
  · -- another operation, or another host is asked for
    rw [readBe16_eq (by omega), ok_bind, readBe32_eq (by omega), ok_bind, readBe32_eq (by omega), ok_bind]
    split_ifs with hother
    · rfl
    · rw [not_or, not_not, not_not] at hother
      exact absurd ⟨by omega, hother.1, hother.2⟩ harp

/-! ## Every frame -/

theorem ihl_le (p : List UInt8) : ihl p ≤ 60 := by
  have hnibble : (p.getD 0 0 &&& 0x0F).toNat ≤ 15 := by
    rw [UInt8.toNat_and]
    exact Nat.and_le_right
  rw [ihl]
  omega

/-- The IPv4 payload begins where the header length says, whatever it says. -/
theorem ipv4Parse_eq (p : List UInt8) : ipv4Parse T p =
    .ok (if 20 ≤ p.length ∧ ihl p ≤ p.length then
      some (p.drop (ihl p), p.getD 9 0, be32At p 12, be32At p 16) else none) := by
  have hword := T.two_pow_32_le
  have hihl := ihl_le p
  have hmul : mulChecked T.wordBits (p.getD 0 0 &&& 0x0F).toNat 4 = .ok (ihl p) :=
    if_pos (show ihl p < _ by omega)
  rw [ipv4Parse]
  by_cases hlen : 20 ≤ p.length
  · rw [if_neg (by omega), readAt_eq (by omega), ok_bind, hmul, ok_bind, readAt_eq (by omega), ok_bind,
      readBe32_eq (by omega), ok_bind, readBe32_eq (by omega), ok_bind]
    by_cases hoptions : ihl p ≤ p.length
    · rw [if_neg (by omega), slice_back hoptions, if_pos ⟨hlen, hoptions⟩]
      rfl
    · rw [if_pos (by omega), if_neg fun h => hoptions h.2]
      rfl
  · rw [if_pos (by omega), if_neg fun h => hlen h.1]

/-- A frame is dispatched to the function that answers it. -/
theorem dispatch_eq {pkt omac rbuf : List UInt8} (ourIp : UInt32) (hpkt : pkt.length + 34 < 2 ^ T.wordBits)
    (hmac : omac.length = 6) (hbuf : rbuf.length = 1514) :
    dispatch T pkt omac ourIp rbuf = .ok (written (answer omac ourIp pkt) rbuf) := by
  rw [dispatch, answer]
  split_ifs with hshort
  · rfl
  · have hsrc : ((pkt.take 12).drop 6).length = 6 := length_mac (by omega)
    rw [readBe16_eq (by omega), ok_bind]
    dsimp only
    rw [slice_eq (by omega) (by omega), ok_bind, slice_back (by omega), ok_bind, copyInto_array hmac, ok_bind,
      copyInto_array hsrc, ok_bind]
    -- `etype` selects the protocol
    cases EtherType.fromU16 (be16At pkt 12) with
    | arp => exact arpHandle_eq ourIp _ hmac (by omega)
    | ipv4 =>
        dsimp only
        rw [ipv4Parse_eq, ok_bind, ipv4Answer]
        have hrest : ((pkt.drop 14).drop (ihl (pkt.drop 14))).length ≤ pkt.length := by
          rw [List.length_drop, List.length_drop]
          omega
        split_ifs with hparse hall hall
        · -- a packet whose payload can be found
          dsimp only
          rw [if_neg (not_not.mpr hall.2.2.1), if_pos hall.2.2.2]
          exact icmpHandle_eq _ _ (by omega) hmac hsrc hbuf
        · -- for another host, or of another protocol
          dsimp only
          split_ifs with hdst hproto
          · rfl
          · exact absurd ⟨hparse.1, hparse.2, not_not.mp hdst, hproto⟩ hall
          · rfl
        · exact absurd ⟨hall.1, hall.2.1⟩ hparse
        · rfl
    | unknown => rfl

/-- The bytes a driver hands to `net_process_packet`: their number is a `u32`, and a Rust slice has at
most `isize::MAX` bytes. -/
structure ReceivedFrame (T : Target) where
  /-- The bytes at `data`. -/
  bytes : List UInt8
  /-- Their number is passed as a `u32`. -/
  length_lt : bytes.length < 2 ^ 32
  /-- They are one slice. -/
  length_le_isize : bytes.length < 2 ^ (T.wordBits - 1)

/-- Headers can be counted on top of a frame. -/
theorem ReceivedFrame.add_lt (pkt : ReceivedFrame T) : pkt.bytes.length + 34 < 2 ^ T.wordBits := by
  have h₁ := pkt.length_lt
  have h₂ := pkt.length_le_isize
  cases T with
  | x86 =>
      change _ < 2 ^ 31 at h₂
      change _ < 2 ^ 32
      omega
  | x86_64 =>
      change _ < 2 ^ 64
      omega

/-- A frame with an ARP request for `ourIp`. -/
structure IsArpRequest (ourIp : UInt32) (pkt : List UInt8) : Prop where
  /-- The EtherType. -/
  etype : 14 ≤ pkt.length ∧ be16At pkt 12 = 0x0806
  /-- All fields are there. -/
  fits : 28 ≤ (pkt.drop 14).length
  /-- The operation. -/
  oper : be16At (pkt.drop 14) 6 = 1
  /-- The address asked for. -/
  target : be32At (pkt.drop 14) 24 = ourIp

/-- The ICMP message of a frame. -/
def message (pkt : List UInt8) : List UInt8 := (pkt.drop 14).drop (ihl (pkt.drop 14))

/-- A frame with an echo request to `ourIp`. -/
structure IsEchoRequest (ourIp : UInt32) (pkt : List UInt8) : Prop where
  /-- The EtherType. -/
  etype : 14 ≤ pkt.length ∧ be16At pkt 12 = 0x0800
  /-- The IPv4 header is there. -/
  fits : 20 ≤ (pkt.drop 14).length
  /-- So are its options. -/
  options : ihl (pkt.drop 14) ≤ (pkt.drop 14).length
  /-- The destination. -/
  dst : be32At (pkt.drop 14) 16 = ourIp
  /-- The protocol. -/
  proto : (pkt.drop 14).getD 9 0 = protoIcmp
  /-- The ICMP header is there. -/
  icmp : 8 ≤ (message pkt).length
  /-- The message's type. -/
  echo : (message pkt).getD 0 0 = 8

/-- An echo request is answered when the answer fits. -/
theorem IsEchoRequest.answer_eq {ourMac pkt : List UInt8} {ourIp : UInt32} (h : IsEchoRequest ourIp pkt) :
    answer ourMac ourIp pkt = if 34 + (message pkt).length ≤ 1514 then
      some (echoFrame ourMac ourIp ((pkt.take 12).drop 6) (be32At (pkt.drop 14) 12) (message pkt))
    else none := by
  have hlong := h.etype.1
  rw [answer, if_neg (by omega), h.etype.2]
  change ipv4Answer _ _ _ _ = _
  rw [ipv4Answer, if_pos ⟨h.fits, h.options, h.dst, h.proto⟩, icmpAnswer]
  exact if_congr ⟨fun hall => hall.2.2, fun hfits => ⟨h.icmp, h.echo, hfits⟩⟩ rfl rfl

/-- ARP requests and echo requests are answered, an echo request only if the answer fits. -/
theorem answer_eq_some_iff {ourMac pkt a : List UInt8} {ourIp : UInt32} :
    answer ourMac ourIp pkt = some a ↔
      (IsArpRequest ourIp pkt ∧
        a = arpFrame ourMac ourIp (((pkt.drop 14).take 14).drop 8) (be32At (pkt.drop 14) 14)) ∨
      (IsEchoRequest ourIp pkt ∧ 34 + (message pkt).length ≤ 1514 ∧
        a = echoFrame ourMac ourIp ((pkt.take 12).drop 6) (be32At (pkt.drop 14) 12) (message pkt)) := by
  constructor
  · intro h
    rw [answer] at h
    split_ifs at h with hshort
    rw [EtherType.fromU16] at h
    split_ifs at h with harp hipv4
    · left
      dsimp only at h
      rw [arpAnswer] at h
      split_ifs at h with hall
      exact ⟨⟨⟨by omega, harp⟩, hall.1, hall.2.1, hall.2.2⟩, (Option.some.inj h).symm⟩
    · right
      dsimp only at h
      rw [ipv4Answer, icmpAnswer] at h
      split_ifs at h with hip hicmp
      obtain ⟨hfits, hoptions, hdst, hproto⟩ := hip
      obtain ⟨hlow, hecho, hhigh⟩ := hicmp
      exact ⟨⟨⟨by omega, hipv4⟩, hfits, hoptions, hdst, hproto, hlow, hecho⟩, hhigh, (Option.some.inj h).symm⟩
  · rintro (⟨h, rfl⟩ | ⟨h, hhigh, rfl⟩)
    · have hlong := h.etype.1
      rw [answer, if_neg (by omega), h.etype.2]
      exact if_pos ⟨h.fits, h.oper, h.target⟩
    · rw [h.answer_eq, if_pos hhigh]

/-- The length of the answer to an echo request. -/
theorem length_echoAnswer {ourMac pkt : List UInt8} {ourIp : UInt32} (hour : ourMac.length = 6)
    (h : IsEchoRequest ourIp pkt) (srcIp : UInt32) :
    (echoFrame ourMac ourIp ((pkt.take 12).drop 6) srcIp (message pkt)).length =
      34 + (message pkt).length := by
  have hlong := h.etype.1
  have hicmp := h.icmp
  exact length_echoFrame ourIp srcIp hour (length_mac (by omega)) (by omega)

/-- The length of the answer to an ARP request. -/
theorem length_arpAnswer {ourMac pkt : List UInt8} {ourIp : UInt32} (hour : ourMac.length = 6)
    (h : IsArpRequest ourIp pkt) (senderIp : UInt32) :
    (arpFrame ourMac ourIp (((pkt.drop 14).take 14).drop 8) senderIp).length = 42 := by
  have hfits := h.fits
  exact length_arpFrame ourIp senderIp hour (length_mac (by omega))

/-- An answer fits in the reply buffer. -/
theorem answer_length {ourMac pkt a : List UInt8} {ourIp : UInt32} (hour : ourMac.length = 6)
    (h : answer ourMac ourIp pkt = some a) : 34 < a.length ∧ a.length ≤ 1514 := by
  rcases answer_eq_some_iff.mp h with ⟨harp, rfl⟩ | ⟨hecho, hhigh, rfl⟩
  · rw [length_arpAnswer hour harp]
    omega
  · have hicmp := hecho.icmp
    rw [length_echoAnswer hour hecho]
    omega

/-- `net_process_packet` on a received frame. -/
theorem netProcessPacket_eq (pkt : ReceivedFrame T) (ourMac : Vector UInt8 6) (ourIp : UInt32)
    (replyBuf : Vector UInt8 1514) :
    netProcessPacket T (some pkt.bytes) (some ourMac) ourIp (some replyBuf) =
      .ok ((answer ourMac.toList ourIp pkt.bytes).map List.length,
        (written (answer ourMac.toList ourIp pkt.bytes) replyBuf.toList).2) := by
  rw [netProcessPacket, dispatch_eq ourIp pkt.add_lt ourMac.length_toList replyBuf.length_toList, ok_bind]
  cases hanswer : answer ourMac.toList ourIp pkt.bytes with
  | none => rfl
  | some a =>
      have ha := answer_length ourMac.length_toList hanswer
      dsimp only [written, Option.map_some]
      rw [if_pos (by omega), Nat.mod_eq_of_lt (by omega)]
      rfl

/-- A frame that is answered. -/
theorem netProcessPacket_of_answer (pkt : ReceivedFrame T) (ourMac : Vector UInt8 6) (ourIp : UInt32)
    (replyBuf : Vector UInt8 1514) {a : List UInt8} (h : answer ourMac.toList ourIp pkt.bytes = some a) :
    netProcessPacket T (some pkt.bytes) (some ourMac) ourIp (some replyBuf) =
      .ok (some a.length, a ++ replyBuf.toList.drop a.length) := by
  rw [netProcessPacket_eq, h]
  rfl

/-- The reply that `net_process_packet` leaves in the reply buffer, if it returns `true`. -/
def reply (T : Target) (pkt : List UInt8) (ourMac : Vector UInt8 6) (ourIp : UInt32)
    (replyBuf : Vector UInt8 1514) : Except Panic (Option (List UInt8)) := do
  let (n, buf) ← netProcessPacket T (some pkt) (some ourMac) ourIp (some replyBuf)
  return n.map fun k => buf.take k

/-- It does not depend on what the buffer held. -/
theorem reply_eq (pkt : ReceivedFrame T) (ourMac : Vector UInt8 6) (ourIp : UInt32)
    (replyBuf : Vector UInt8 1514) :
    reply T pkt.bytes ourMac ourIp replyBuf = .ok (answer ourMac.toList ourIp pkt.bytes) := by
  rw [reply, netProcessPacket_eq, ok_bind]
  cases answer ourMac.toList ourIp pkt.bytes with
  | none => rfl
  | some a =>
      change Except.ok (some ((a ++ replyBuf.toList.drop a.length).take a.length)) = _
      rw [List.take_left]

end Net

end Aerogel
