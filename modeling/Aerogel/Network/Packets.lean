import Aerogel.Foundations.Checked
import Aerogel.Machine

/-! # The network stack of `aerogel-core`

The Rust library answers ARP requests and ICMP echo requests. Arrays and slices are lists of bytes,
every index, range, copy and sum is checked as a Rust build with overflow checks does it, and a
function that writes to a `&mut` buffer returns the buffer. `usize` has the width of a pointer. -/

namespace Aerogel

namespace Net

/-- A sum in `usize`. -/
def addUsize (T : Target) (a b : Nat) : Except Panic Nat := addChecked T.wordBits a b

/-! ## Integers in network order -/

/-- `u16::from_be_bytes`. -/
def be16 (a b : UInt8) : UInt16 := a.toUInt16 <<< 8 ||| b.toUInt16

/-- `u32::from_be_bytes`. -/
def be32 (a b c d : UInt8) : UInt32 :=
  a.toUInt32 <<< 24 ||| b.toUInt32 <<< 16 ||| c.toUInt32 <<< 8 ||| d.toUInt32

/-- `u16::to_be_bytes`. -/
def toBe16 (v : UInt16) : List UInt8 := [(v >>> 8).toUInt8, v.toUInt8]

/-- `u32::to_be_bytes`. -/
def toBe32 (v : UInt32) : List UInt8 :=
  [(v >>> 24).toUInt8, (v >>> 16).toUInt8, (v >>> 8).toUInt8, v.toUInt8]

/-- `u16::from_be_bytes([b[i], b[i + 1]])`. -/
def readBe16 (b : List UInt8) (i : Nat) : Except Panic UInt16 := do
  let v₀ ← readAt b i
  let v₁ ← readAt b (i + 1)
  return be16 v₀ v₁

/-- `u32::from_be_bytes([b[i], …, b[i + 3]])`. -/
def readBe32 (b : List UInt8) (i : Nat) : Except Panic UInt32 := do
  let v₀ ← readAt b i
  let v₁ ← readAt b (i + 1)
  let v₂ ← readAt b (i + 2)
  let v₃ ← readAt b (i + 3)
  return be32 v₀ v₁ v₂ v₃

/-! ## `ethernet.rs` -/

/-- `EtherType`. -/
inductive EtherType
  /-- Address resolution. -/
  | arp
  /-- Internet protocol, version 4. -/
  | ipv4
  /-- Anything else. -/
  | unknown
  deriving DecidableEq, Repr

/-- `EtherType::from_u16`. -/
def EtherType.fromU16 (v : UInt16) : EtherType :=
  if v = 0x0806 then .arp else if v = 0x0800 then .ipv4 else .unknown

/-- `ethernet::write_frame`. -/
def writeFrame (buf dst src : List UInt8) (etype : UInt16) : Except Panic (Nat × List UInt8) :=
  if buf.length < 14 then .ok (0, buf)
  else do
    let buf ← copyInto buf 0 6 dst
    let buf ← copyInto buf 6 12 src
    let buf ← writeAt buf 12 (etype >>> 8).toUInt8
    let buf ← writeAt buf 13 etype.toUInt8
    return (14, buf)

/-! ## `arp.rs` -/

/-- The fields of the reply that `arp::handle` writes after the frame header. -/
def arpBody (p ourMac : List UInt8) (ourIp : UInt32) (senderMac : List UInt8) (senderIp : UInt32) :
    Except Panic (List UInt8) := do
  let p ← copyInto p 0 2 [0x00, 0x01]
  let p ← copyInto p 2 4 [0x08, 0x00]
  let p ← writeAt p 4 6
  let p ← writeAt p 5 4
  let p ← copyInto p 6 8 [0x00, 0x02]
  let p ← copyInto p 8 14 ourMac
  let p ← copyInto p 14 18 (toBe32 ourIp)
  let p ← copyInto p 18 24 senderMac
  copyInto p 24 28 (toBe32 senderIp)

/-- `arp::handle`: the length of the reply, 0 if there is none, and the buffer. -/
def arpHandle (T : Target) (payload ourMac : List UInt8) (ourIp : UInt32) (_srcMac out : List UInt8) :
    Except Panic (Nat × List UInt8) :=
  if payload.length < 28 then .ok (0, out)
  else do
    let oper ← readBe16 payload 6
    let senderIp ← readBe32 payload 14
    let targetIp ← readBe32 payload 24
    if oper ≠ 1 ∨ targetIp ≠ ourIp then return (0, out)
    else
      let senderMac ← copyInto (List.replicate 6 0) 0 6 (← slice payload 8 14)
      let (hlen, out) ← writeFrame out senderMac ourMac 0x0806
      let need ← addUsize T hlen 28
      if out.length < need then return (0, out)
      else
        let p ← slice out hlen out.length
        let p ← arpBody p ourMac ourIp senderMac senderIp
        let n ← addUsize T hlen 28
        return (n, out.take hlen ++ p)

/-! ## `ipv4.rs` -/

/-- `PROTO_ICMP`. -/
def protoIcmp : UInt8 := 1

/-- The first loop of `checksum`: 16-bit words from `i` on are added to `sum`. -/
def sumWords (T : Target) (data : List UInt8) (i sum : Nat) : Except Panic (Nat × Nat) := do
  let _ ← addUsize T i 1
  if i + 1 < data.length then
    let w ← readBe16 data i
    let sum ← addChecked 32 sum w.toNat
    let _ ← addUsize T i 2
    sumWords T data (i + 2) sum
  else return (i, sum)
termination_by data.length - i

/-- The second loop of `checksum`: carries are added back until none is left. -/
def foldCarry (sum : Nat) : Except Panic Nat :=
  if sum >>> 16 ≠ 0 then do
    let _ ← addChecked 32 (sum &&& 0xFFFF) (sum >>> 16)
    foldCarry ((sum &&& 0xFFFF) + (sum >>> 16))
  else .ok sum
termination_by sum
decreasing_by
  have hand := Nat.and_two_pow_sub_one_eq_mod sum 16
  rw [Nat.shiftRight_eq_div_pow] at *
  simp only [Nat.reducePow, Nat.reduceSub] at *
  omega

/-- The last byte of an odd number counts as the upper half of a word. -/
def addOdd (data : List UInt8) (i sum : Nat) : Except Panic Nat :=
  if i < data.length then do
    let v ← readAt data i
    addChecked 32 sum (v.toNat <<< 8)
  else .ok sum

/-- `ipv4::checksum`. -/
def checksum (T : Target) (data : List UInt8) : Except Panic UInt16 := do
  let (i, sum) ← sumWords T data 0 0
  let sum ← addOdd data i sum
  let sum ← foldCarry sum
  return ~~~ (UInt16.ofNat sum)

/-- `ipv4::parse`: payload, protocol, source and destination. -/
def ipv4Parse (T : Target) (pkt : List UInt8) :
    Except Panic (Option (List UInt8 × UInt8 × UInt32 × UInt32)) :=
  if pkt.length < 20 then .ok none
  else do
    let v₀ ← readAt pkt 0
    let ihl ← mulChecked T.wordBits (v₀ &&& 0x0F).toNat 4
    let proto ← readAt pkt 9
    let srcIp ← readBe32 pkt 12
    let dstIp ← readBe32 pkt 16
    if pkt.length < ihl then return none
    else
      let payload ← slice pkt ihl pkt.length
      return some (payload, proto, srcIp, dstIp)

/-- `ipv4::write`: the length of the header, 0 if the packet does not fit, and the buffer. -/
def ipv4Write (T : Target) (buf : List UInt8) (proto : UInt8) (srcIp dstIp : UInt32)
    (payloadLen : Nat) : Except Panic (Nat × List UInt8) := do
  let total ← addUsize T 20 payloadLen
  if buf.length < total then return (0, buf)
  else
    let buf ← writeAt buf 0 0x45
    let buf ← writeAt buf 1 0
    let buf ← copyInto buf 2 4 (toBe16 (UInt16.ofNat total))
    let buf ← copyInto buf 4 6 [0, 1]
    let buf ← copyInto buf 6 8 [0x40, 0]
    let buf ← writeAt buf 8 64
    let buf ← writeAt buf 9 proto
    let buf ← copyInto buf 10 12 [0, 0]
    let buf ← copyInto buf 12 16 (toBe32 srcIp)
    let buf ← copyInto buf 16 20 (toBe32 dstIp)
    let csum ← checksum T (← slice buf 0 20)
    let buf ← copyInto buf 10 12 (toBe16 csum)
    return (20, buf)

/-! ## `icmp.rs` -/

/-- The echo reply that `icmp::handle` writes after the headers. -/
def icmpBody (T : Target) (icmp payload : List UInt8) : Except Panic (List UInt8) := do
  let icmp ← copyInto icmp 0 icmp.length payload
  let icmp ← writeAt icmp 0 0
  let icmp ← writeAt icmp 1 0
  let icmp ← writeAt icmp 2 0
  let icmp ← writeAt icmp 3 0
  let csum ← checksum T (← slice icmp 0 payload.length)
  copyInto icmp 2 4 (toBe16 csum)

/-- `icmp::handle`: the length of the reply, 0 if there is none, and the buffer. -/
def icmpHandle (T : Target) (payload ourMac : List UInt8) (ourIp : UInt32) (srcMac : List UInt8)
    (srcIp : UInt32) (out : List UInt8) : Except Panic (Nat × List UInt8) :=
  if payload.length < 8 then .ok (0, out)
  else do
    let icmpType ← readAt payload 0
    if icmpType ≠ 8 then return (0, out)
    else
      let dataLen := payload.length
      let need ← addUsize T (14 + 20) dataLen
      if out.length < need then return (0, out)
      else
        let srcMacArr ← copyInto (List.replicate 6 0) 0 6 srcMac
        let (eh, out) ← writeFrame out srcMacArr ourMac 0x0800
        let ipBuf ← slice out eh out.length
        let (ih, ipBuf) ← ipv4Write T ipBuf protoIcmp ourIp srcIp dataLen
        let out := out.take eh ++ ipBuf
        let eh ← addUsize T eh ih
        let stop ← addUsize T eh dataLen
        let icmp ← slice out eh stop
        let icmp ← icmpBody T icmp payload
        let n ← addUsize T eh dataLen
        return (n, out.take eh ++ icmp ++ out.drop stop)

/-! ## `lib.rs` -/

/-- The part of `net_process_packet` between the null checks and the result: `n` and the buffer. -/
def dispatch (T : Target) (pkt omac : List UInt8) (ourIp : UInt32) (rbuf : List UInt8) :
    Except Panic (Nat × List UInt8) :=
  if pkt.length < 14 then .ok (0, rbuf)
  else do
    let etype := EtherType.fromU16 (← readBe16 pkt 12)
    let srcMac ← slice pkt 6 12
    let payload ← slice pkt 14 pkt.length
    let omac6 ← copyInto (List.replicate 6 0) 0 6 omac
    let smac6 ← copyInto (List.replicate 6 0) 0 6 srcMac
    match etype with
    | .arp => arpHandle T payload omac6 ourIp smac6 rbuf
    | .ipv4 =>
      match ← ipv4Parse T payload with
      | some (ipPayload, proto, srcIp, dstIp) =>
        if dstIp ≠ ourIp then return (0, rbuf)
        else if proto = protoIcmp then icmpHandle T ipPayload omac6 ourIp smac6 srcIp rbuf
        else return (0, rbuf)
      | none => return (0, rbuf)
    | .unknown => return (0, rbuf)

/-- `net_process_packet`: the length of the reply if it returns `true`, and the reply buffer. A null
pointer is `none`. -/
def netProcessPacket (T : Target) (data : Option (List UInt8)) (ourMac : Option (Vector UInt8 6))
    (ourIp : UInt32) (replyBuf : Option (Vector UInt8 1514)) :
    Except Panic (Option Nat × List UInt8) :=
  match data, ourMac, replyBuf with
  | some pkt, some omac, some rbuf => do
    let (n, rbuf) ← dispatch T pkt omac.toList ourIp rbuf.toList
    return (if n > 0 then some (n % 2 ^ 32) else none, rbuf)
  | _, _, _ => .ok (none, (replyBuf.map Vector.toList).getD [])

end Net

end Aerogel
