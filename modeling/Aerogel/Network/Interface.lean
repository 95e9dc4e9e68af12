import Aerogel.Drivers.Rtl8139Rx
import Aerogel.Drivers.Rtl8139Tx
import Aerogel.Network.Padding

/-! # From the card to the stack and back

`net.c` connects the two: `rtl_rx` is the callback of `rtl8139_poll`, lets the stack work on a frame and
sends its reply with `rtl_tx`. The stack writes replies of up to 1514 bytes and `rtl8139_send` takes up to
1500, which `rtl_tx` does not notice: `replySent_iff` says which replies to the frames that the driver delivers
(`Rtl8139.length_le_of_delivered`) are lost. -/

namespace Aerogel

namespace Net

open Rtl8139

variable {T : Target}

/-! ## `net.c` -/

/-- `net_tx_fn_t`, without a context. -/
abbrev NetTxFn := List UInt8 → TxState → TxState

/-- `rtl_tx` does not look at what `rtl8139_send` returns. -/
def rtlTx : NetTxFn := fun data card => (rtl8139Send card data).2

/-- The variables of `net.c`. -/
structure Iface where
  /-- `our_ip`. -/
  ourIp : UInt32
  /-- `our_mac`. -/
  ourMac : Vector UInt8 6
  /-- `tx_fn`. -/
  txFn : Option NetTxFn
  /-- `rx_reply`, of `NET_MTU` bytes. -/
  rxReply : Vector UInt8 1514

/-- `rtl_rx`. -/
def rtlRx (T : Target) (net : Iface) (card : TxState) (data : List UInt8) :
    Except Panic (Iface × TxState) := do
  let (reply, buf) ← netProcessPacket T (some data) (some net.ourMac) net.ourIp (some net.rxReply)
  let net := { net with rxReply := Vector.ofFn fun i => buf.getD i 0 }
  match reply, net.txFn with
  | some n, some tx => if n > 0 then return (net, tx (buf.take n) card) else return (net, card)
  | _, _ => return (net, card)

/-! ## Replies on their way out -/

/-- Whatever reply the stack produces is sent: `rtl8139_send` takes it, and when `rtl_rx` returns all its
bytes are in a transmit buffer. -/
def ReplySent (T : Target) (net : Iface) (card : TxState) (frame : List UInt8) : Prop :=
  ∀ n buf, netProcessPacket T (some frame) (some net.ourMac) net.ourIp (some net.rxReply) =
      .ok (some n, buf) →
    (rtl8139Send card (buf.take n)).1 = 0 ∧
    ∃ net' card', rtlRx T net card frame = .ok (net', card') ∧ card'.packet card.txCur = buf.take n ∧
      card'.txStatus card.txCur = n

/-- A frame of the driver is a slice for the stack. -/
def ReceivedFrame.ofDriver (T : Target) (frame : List UInt8) (h : frame.length ≤ 1510) : ReceivedFrame T where
  bytes := frame
  length_lt := lt_of_le_of_lt h (by decide)
  length_le_isize := by
    cases T with
    | x86 => exact lt_of_le_of_lt h (by decide)
    | x86_64 => exact lt_of_le_of_lt h (by decide)

/-- The callback lets the stack work on the frame and sends what it answers. -/
theorem rtlRx_eq (net : Iface) (card : TxState) {frame a : List UInt8} (htx : net.txFn = some rtlTx)
    (hlen : frame.length ≤ 1510) (h : answer net.ourMac.toList net.ourIp frame = some a) :
    ∃ net', rtlRx T net card frame = .ok (net', (rtl8139Send card a).2) := by
  have hpos := (answer_length net.ourMac.length_toList h).1
  have hrun := netProcessPacket_of_answer (ReceivedFrame.ofDriver T frame hlen) net.ourMac net.ourIp
    net.rxReply h
  change netProcessPacket T (some frame) _ _ _ = _ at hrun
  rw [rtlRx, hrun, ok_bind]
  dsimp only
  rw [htx]
  dsimp only
  rw [if_pos (by omega), List.take_left]
  exact ⟨_, rfl⟩

/-- Every reply to a frame that the driver can deliver is sent, unless it is an echo reply that is longer than
`rtl8139_send` takes. -/
theorem replySent_iff (net : Iface) {card : TxState} {frame : List UInt8} (hpresent : card.present = true)
    (htx : net.txFn = some rtlTx) (hlen : frame.length ≤ 1510) :
    ReplySent T net card frame ↔
      ¬ (IsEchoRequest net.ourIp frame ∧ 1466 < (message frame).length ∧ (message frame).length ≤ 1480) := by
  have hmac := net.ourMac.length_toList
  have hrun := netProcessPacket_eq (ReceivedFrame.ofDriver T frame hlen) net.ourMac net.ourIp net.rxReply
  change netProcessPacket T (some frame) _ _ _ = .ok ((answer _ _ frame).map List.length,
    (written (answer _ _ frame) _).2) at hrun
  constructor
  · rintro hsent ⟨hecho, hlow, hhigh⟩
    have hanswer := @IsEchoRequest.answer_eq net.ourMac.toList frame net.ourIp hecho
    rw [if_pos (by omega)] at hanswer
    rw [hanswer] at hrun
    obtain ⟨htaken, -⟩ := hsent _ _ hrun
    -- the reply is as long as the message requires
    dsimp only [written] at htaken
    rw [List.take_left, rtl8139Send_long (by rw [length_echoAnswer hmac hecho]; omega)] at htaken
    exact absurd htaken (show (-1 : Int) ≠ 0 by decide)
  · intro hcond n buf hreply
    obtain ⟨hn, hbuf⟩ := Prod.mk.inj (Except.ok.inj (hrun.symm.trans hreply))
    obtain ⟨a, ha, rfl⟩ := Option.map_eq_some_iff.mp hn
    -- an ARP reply is short, and an echo reply is by the condition
    have hshort : a.length ≤ 1500 := by
      rcases answer_eq_some_iff.mp ha with ⟨harp, rfl⟩ | ⟨hecho, hfits, rfl⟩
      · rw [length_arpAnswer hmac harp]
        decide
      · rw [length_echoAnswer hmac hecho]
        by_contra hlong
        exact hcond ⟨hecho, by omega, by omega⟩
    obtain ⟨htaken, hpacket, hstatus⟩ := rtl8139Send_taken hpresent hshort
    obtain ⟨net', hrx⟩ := @rtlRx_eq T net card _ _ htx hlen ha
    have htake : buf.take a.length = a := by
      rw [← hbuf, ha]
      exact List.take_left
    rw [htake]
    exact ⟨htaken, net', _, hrx, hpacket, hstatus⟩

/-- The interface of 10.0.0.2. -/
def ifaceUp : Iface := ⟨0x0A000002, #v[0x52, 0x54, 0, 0x12, 0x34, 0x56], some rtlTx, Vector.replicate 1514 0⟩

/-- The reply to the ping without data is sent. -/
theorem replySent_iff_shortPing : ReplySent .x86 ifaceUp txInit shortPing ↔
    ¬ (IsEchoRequest 0x0A000002 shortPing ∧ 1466 < (message shortPing).length ∧
      (message shortPing).length ≤ 1480) :=
  replySent_iff ifaceUp rfl rfl (by decide)

/-- A ping with 1459 zero bytes of data from 10.0.0.9 to 10.0.0.2, with both checksums right. -/
def longPing : List UInt8 :=
  [0x52, 0x54, 0, 0x12, 0x34, 0x56, 2, 0, 0, 0, 0, 9, 0x08, 0x00, 0x45, 0, 0x05, 0xCF, 0, 1, 0, 0, 64, 1,
   0x61, 0x23, 10, 0, 0, 9, 10, 0, 0, 2, 8, 0, 0xF7, 0xFD, 0, 1, 0, 1] ++ List.replicate 1459 0

theorem longPing_valid : IsValidEchoRequest 0x0A000002 longPing where
  etype := by decide +kernel
  fits := by decide +kernel
  options := by decide +kernel
  dst := by decide +kernel
  proto := by decide +kernel
  icmp := by decide +kernel
  echo := by decide +kernel
  version := by decide +kernel
  header := by decide +kernel
  total := by decide +kernel

/-- The stack answers it with 1501 bytes, which `rtl8139_send` does not take: the card does not change. -/
theorem longPing_not_replySent :
    onesSum ((longPing.drop 14).take 20) = 0xFFFF ∧ onesSum (longPing.drop 34) = 0xFFFF ∧
    IsValidEchoRequest 0x0A000002 longPing ∧ longPing.length = 1501 ∧
    (∃ a, reply .x86 longPing ifaceUp.ourMac ifaceUp.ourIp ifaceUp.rxReply = .ok (some a) ∧
      a.length = 1501 ∧ (rtl8139Send txInit a).1 = -1) ∧
    (∃ net', rtlRx .x86 ifaceUp txInit longPing = .ok (net', txInit)) ∧
    ¬ ReplySent .x86 ifaceUp txInit longPing := by
  have hecho : IsEchoRequest ifaceUp.ourIp longPing := longPing_valid.toIsEchoRequest
  have hlen : (message longPing).length = 1467 := by decide +kernel
  have hshort : longPing.length = 1501 := by decide +kernel
  let frame := ReceivedFrame.ofDriver .x86 longPing (by rw [hshort]; decide)
  have hanswer := @IsEchoRequest.answer_eq ifaceUp.ourMac.toList _ _ hecho
  rw [if_pos (by rw [hlen]; decide)] at hanswer
  have hlong := @length_echoAnswer ifaceUp.ourMac.toList longPing _ rfl hecho (be32At (longPing.drop 14) 12)
  rw [hlen] at hlong
  have hsend := @rtl8139Send_long txInit _ (show 1500 < List.length _ by rw [hlong]; decide)
  have hreply := (reply_eq frame ifaceUp.ourMac ifaceUp.ourIp ifaceUp.rxReply).trans
    (congrArg Except.ok hanswer)
  refine ⟨by decide +kernel, by decide +kernel, longPing_valid, hshort, ⟨_, hreply, hlong, ?_⟩, ?_, ?_⟩
  · rw [hsend]
  · obtain ⟨net', hrx⟩ := @rtlRx_eq .x86 ifaceUp txInit longPing _ rfl (by rw [hshort]; decide) hanswer
    rw [hsend] at hrx
    exact ⟨net', hrx⟩
  · intro hsent
    have hrun := netProcessPacket_of_answer frame ifaceUp.ourMac ifaceUp.ourIp ifaceUp.rxReply hanswer
    obtain ⟨htaken, -⟩ := hsent _ _ hrun
    rw [List.take_left, hsend] at htaken
    exact absurd htaken (by decide)

end Net

end Aerogel
