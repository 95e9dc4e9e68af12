import Aerogel.Network.Interface
import Aerogel.Network.ArpAnnounce
import Mathlib.Data.Fin.Basic

/-! # The network from the receive ring to the wire

`net_bring_up` connects the card to the stack: `rtl8139_poll` hands frames to `rtl_rx`, which lets the stack
work on them and sends what it answers through `rtl_tx`. A `Station` is all of it, the receive ring, the
variables of `net.c` and the transmit descriptors, while the device stores frames and sends packets on its own.

Seen from the wire it is a function: the announcement, and then what `response` makes of one received frame
after another (`answersInOrder_of_run`), until every frame is answered (`catchesUp_of_run`). -/

namespace Aerogel

namespace Net

open Rtl8139

variable {T : Target}

/-! ## `net.c` -/

/-- The variables before `net_init`, and after it: there is no interface. -/
def netInit : Iface := ⟨0, Vector.replicate 6 0, none, Vector.replicate 1514 0⟩

/-- `net_set_interface`. -/
def netSetInterface (net : Iface) (tx : NetTxFn) (mac : Vector UInt8 6) : Iface :=
  { net with txFn := some tx, ourMac := mac }

/-- `net_configure`; `ann` is what its array of 42 bytes happens to hold. -/
def netConfigure (T : Target) (net : Iface) (ip : UInt32) (ann : Vector UInt8 42) (card : TxState) :
    Except Panic (Iface × TxState) := do
  let net := { net with ourIp := ip }
  let (n, buf) ← netArpAnnounce T (some net.ourMac) net.ourIp (some ann)
  match net.txFn with
  | some tx => if n > 0 then return (net, tx (buf.take n) card) else return (net, card)
  | none => return (net, card)

/-- The address that `net_bring_up` configures. -/
def bringUpIp : UInt32 := 0xC0A80002

/-- `net_bring_up`, with the hardware address if `rtl8139_init` has found a card. -/
def netBringUp (T : Target) (found : Option (Vector UInt8 6)) (ann : Vector UInt8 42) (net : Iface)
    (card : TxState) : Except Panic (Iface × TxState) :=
  match found with
  | some mac => netConfigure T (netSetInterface net rtlTx mac) bringUpIp ann card
  | none => .ok (net, card)

/-! ## The station -/

/-- The card and the stack. -/
structure Station where
  /-- The receiving side. -/
  rx : RxState
  /-- The stack. -/
  net : Iface
  /-- The transmitting side. -/
  tx : TxState

/-- The frame that one step of `rtl8139_poll` passes to its callback. -/
def handed (s s' : RxState) : Option (List UInt8) := (s'.delivered.drop s.delivered.length).head?

/-- One step of `rtl8139_poll`, with its callback `rtl_rx`. -/
def Station.poll (T : Target) (s : Station) : Except Panic Station :=
  match handed s.rx (pollStep s.rx) with
  | some frame => do
    let (net, tx) ← rtlRx T s.net s.tx frame
    return ⟨pollStep s.rx, net, tx⟩
  | none => .ok { s with rx := pollStep s.rx }

/-- What happens. -/
inductive StationOp
  /-- A frame arrives. -/
  | receive (f : RxFrame)
  /-- The device raises interrupt bits for other reasons. -/
  | signal (bits : BitVec 16)
  /-- `rtl8139_poll` goes on. -/
  | poll
  /-- The device completes the transmission of descriptor `i`. -/
  | complete (i : Fin txBufs)

/-- One event. A panic has no successor. -/
inductive StationStep (T : Target) : Station → StationOp → Station → Prop
  /-- A frame that fits arrives. -/
  | receive {s : Station} {f : RxFrame} : s.rx.unread + f.slot ≤ 8192 →
      StationStep T s (.receive f) { s with rx := s.rx.store f }
  /-- Interrupt bits are raised. -/
  | signal (s : Station) (bits : BitVec 16) :
      StationStep T s (.signal bits) { s with rx := { s.rx with isr := s.rx.isr ||| bits } }
  /-- The driver makes a step. -/
  | poll {s s' : Station} : s.poll T = .ok s' → StationStep T s .poll s'
  /-- A transmission ends. -/
  | complete {s : Station} {i : Fin txBufs} : i ∈ s.tx.owned →
      StationStep T s (.complete i) { s with tx := s.tx.complete i }

/-- What the driver relies on: frames are not longer than it takes them, a descriptor is free when a frame is
handed over, and packets are sent in order. -/
def StationOp.Ready (s : Station) : StationOp → Prop
  | .receive f => f.data.length ≤ 1510
  | .signal _ => True
  | .poll => (handed s.rx (pollStep s.rx)).isSome → s.tx.owned.length < txBufs
  | .complete i => s.tx.owned.head? = some i

/-- An event that finds the station ready. -/
def ReadyStationStep (T : Target) (s : Station) (op : StationOp) (s' : Station) : Prop :=
  op.Ready s ∧ StationStep T s op s'

/-! ## What the wire sees -/

/-- What a station sends back for a frame: the stack's answer, unless it is longer than `rtl8139_send`
takes. -/
def response (mac : Vector UInt8 6) (ip : UInt32) (frame : List UInt8) : Option (List UInt8) :=
  (answer mac.toList ip frame).filter fun a => a.length ≤ 1500

/-- The announcement of a station. -/
def announcement (mac : Vector UInt8 6) (ip : UInt32) : List UInt8 := arpFrame mac.toList ip mac.toList ip

/-- The packets on the wire and those under way are the announcement and the responses to the frames that the
driver has taken from the ring, one after another. -/
def AnswersInOrder (mac : Vector UInt8 6) (ip : UInt32) (s : Station) : Prop :=
  s.tx.wire ++ s.tx.owned.map s.tx.packet =
    announcement mac ip :: ((s.rx.received.take s.rx.delivered.length).map RxFrame.data).filterMap (response mac ip)

/-! ## The invariant -/

/-- The descriptors under way are the ones before `cur`, in turn. -/
def Before (cur : Fin txBufs) : List (Fin txBufs) → Prop
  | [] => True
  | i :: rest => i + Fin.ofNat txBufs rest.length + 1 = cur ∧ Before cur rest

theorem Before.concat {cur : Fin txBufs} {owned : List (Fin txBufs)} (h : Before cur owned) :
    Before (cur + 1) (owned ++ [cur]) := by
  induction owned with
  | nil =>
      refine ⟨?_, trivial⟩
      change cur + 0 + 1 = cur + 1
      rw [Fin.add_zero]
  | cons i rest ih =>
      obtain ⟨hi, hrest⟩ := h
      refine ⟨?_, ih hrest⟩
      have hlen : (rest ++ [cur]).length = rest.length + 1 := List.length_append
      change i + Fin.ofNat txBufs (rest ++ [cur]).length + 1 = cur + 1
      rw [hlen, ← hi]
      apply Fin.ext
      simp only [Fin.val_add, Fin.val_ofNat, Fin.val_one, txBufs]
      omega

/-- While not all of them are under way, the next one is free. -/
theorem Before.notMem {cur : Fin txBufs} {owned : List (Fin txBufs)} (h : Before cur owned)
    (hlen : owned.length < txBufs) : cur ∉ owned := by
  induction owned with
  | nil => exact List.not_mem_nil
  | cons i rest ih =>
      obtain ⟨hi, hrest⟩ := h
      rw [List.length_cons] at hlen
      rw [List.mem_cons, not_or]
      refine ⟨fun heq => ?_, ih hrest (by omega)⟩
      rw [← hi, Fin.ext_iff] at heq
      simp only [Fin.val_add, Fin.val_ofNat, Fin.val_one, txBufs] at heq hlen
      have hlt : i.val < 4 := i.isLt
      omega

/-- What holds of a station that was brought up. -/
structure StationInv (mac : Vector UInt8 6) (ip : UInt32) (s : Station) : Prop where
  /-- The receive ring. -/
  rx : RxInv s.rx
  /-- The transmit descriptors. -/
  tx : TxInv s.tx
  /-- They are used in turn. -/
  turn : Before s.tx.txCur s.tx.owned
  /-- `rtl8139_init` was successful. -/
  present : s.tx.present = true
  /-- The addresses. -/
  iface : s.net.ourMac = mac ∧ s.net.ourIp = ip
  /-- The stack sends through the card. -/
  txFn : s.net.txFn = some rtlTx
  /-- What was given to the card so far. -/
  accepted : s.tx.accepted = announcement mac ip :: s.rx.delivered.filterMap (response mac ip)

variable {mac : Vector UInt8 6} {ip : UInt32} {s s' : Station}

theorem StationInv.answersInOrder (h : StationInv mac ip s) : AnswersInOrder mac ip s := by
  rw [AnswersInOrder, ← h.rx.in_order, ← h.accepted]
  exact h.tx.ok.symm

/-! ## Sending -/

theorem accepted_of_taken {card : TxState} {data : List UInt8} (hpresent : card.present = true)
    (hlen : data.length ≤ 1500) : (rtl8139Send card data).2.accepted = card.accepted ++ [data] ∧
      (rtl8139Send card data).2.present = true ∧ (rtl8139Send card data).2.txCur = card.txCur + 1 ∧
      (rtl8139Send card data).2.owned = card.owned.erase card.txCur ++ [card.txCur] := by
  have htaken : ¬ (card.present = false ∨ 1500 < data.length) := by
    rw [hpresent, not_or]
    exact ⟨by decide, by omega⟩
  rw [rtl8139Send, if_neg htaken]
  exact ⟨rfl, hpresent, rfl, rfl⟩

/-- A packet that finds a free descriptor goes behind the others. -/
theorem StationInv.send (h : StationInv mac ip s) {data : List UInt8} (hfree : s.tx.owned.length < txBufs)
    (hlen : data.length ≤ 1500) : TxInv (rtl8139Send s.tx data).2 ∧
      Before (rtl8139Send s.tx data).2.txCur (rtl8139Send s.tx data).2.owned := by
  have hnotMem := h.turn.notMem hfree
  obtain ⟨-, -, hcur, howned⟩ := accepted_of_taken h.present hlen
  refine ⟨h.tx.send fun _ => hnotMem, ?_⟩
  rw [hcur, howned, List.erase_of_not_mem hnotMem]
  exact h.turn.concat

/-- `rtl_rx` sends the response to a frame of the driver, if there is one. -/
theorem rtlRx_response {net : Iface} (hnet : net.ourMac = mac ∧ net.ourIp = ip) (htx : net.txFn = some rtlTx)
    (card : TxState) {frame : List UInt8} (hlen : frame.length ≤ 1510) : ∃ net' : Iface,
      rtlRx T net card frame =
        .ok (net', (response mac ip frame).elim card fun a => (rtl8139Send card a).2) ∧
      (net'.ourMac = mac ∧ net'.ourIp = ip) ∧ net'.txFn = some rtlTx := by
  obtain ⟨rfl, rfl⟩ := hnet
  have hrun := netProcessPacket_eq (ReceivedFrame.ofDriver T frame hlen) net.ourMac net.ourIp net.rxReply
  change netProcessPacket T (some frame) _ _ _ = _ at hrun
  rw [rtlRx, hrun, ok_bind, response]
  dsimp only [ReceivedFrame.ofDriver]
  cases hanswer : answer net.ourMac.toList net.ourIp frame with
  | none => exact ⟨_, rfl, ⟨rfl, rfl⟩, htx⟩
  | some a =>
      have hpos := (answer_length net.ourMac.length_toList hanswer).1
      rw [htx]
      -- the reply stays in `rx_reply`, whether the card takes it or not
      refine ⟨{ net with
        txFn := some rtlTx
        rxReply := Vector.ofFn fun i => (a ++ net.rxReply.toList.drop a.length).getD i 0 }, ?_, ⟨rfl, rfl⟩, rfl⟩
      dsimp only [Option.map_some, written]
      rw [if_pos (by omega), List.take_left]
      by_cases hshort : a.length ≤ 1500
      · rw [Option.filter_some, if_pos (by simpa using hshort)]
        rfl
      · rw [Option.filter_some, if_neg (by simpa using hshort), rtlTx, rtl8139Send_long (by omega)]
        rfl

/-! ## Steps -/

/-- A step of the driver passes on the frames it takes from the ring, and no long ones. -/
theorem handed_pollStep (s : RxState) : (∃ frame : List UInt8, frame.length ≤ 1510 ∧
      (pollStep s).delivered = s.delivered ++ [frame] ∧ handed s (pollStep s) = some frame) ∨
    ((pollStep s).delivered = s.delivered ∧ handed s (pollStep s) = none) := by
  rcases delivered_pollStep s with hsame | ⟨frame, hlen, hmore⟩
  · refine .inr ⟨hsame, ?_⟩
    rw [handed, hsame, List.drop_length]
    rfl
  · refine .inl ⟨frame, hlen, hmore, ?_⟩
    rw [handed, hmore, List.drop_left]
    rfl

/-- The driver never panics, and keeps the invariant when a descriptor is free. -/
theorem StationInv.poll (h : StationInv mac ip s) : ∃ s', s.poll T = .ok s' ∧
    s'.rx = pollStep s.rx ∧ (StationOp.poll.Ready s → StationInv mac ip s') := by
  rcases handed_pollStep s.rx with ⟨frame, hlen, hmore, hhanded⟩ | ⟨hsame, hhanded⟩
  · obtain ⟨net', hrtl, hiface, htx⟩ := @rtlRx_response T mac ip _ h.iface h.txFn s.tx _ hlen
    refine ⟨⟨pollStep s.rx, net', (response mac ip frame).elim s.tx fun a => (rtl8139Send s.tx a).2⟩, ?_, rfl,
      fun hready => ?_⟩
    · rw [Station.poll, hhanded]
      dsimp only
      rw [hrtl, ok_bind]
      rfl
    -- a frame was handed over, so there is a free descriptor
    have hfree : s.tx.owned.length < txBufs := hready (by rw [hhanded]; rfl)
    have haccepted := h.accepted
    cases hresp : response mac ip frame with
    | none =>
        refine ⟨h.rx.pollStep, h.tx, h.turn, h.present, hiface, htx, ?_⟩
        dsimp only [Option.elim_none]
        rw [haccepted, hmore, List.filterMap_append]
        simp [hresp]
    | some a =>
        have hshort : a.length ≤ 1500 := by
          rw [response, Option.filter_eq_some_iff] at hresp
          exact of_decide_eq_true hresp.2
        obtain ⟨hinv, hturn⟩ := h.send hfree hshort
        obtain ⟨hacc, hpresent, -, -⟩ := accepted_of_taken h.present hshort
        refine ⟨h.rx.pollStep, hinv, hturn, hpresent, hiface, htx, ?_⟩
        dsimp only [Option.elim_some]
        rw [hacc, haccepted, hmore, List.filterMap_append]
        simp [hresp]
  · refine ⟨{ s with rx := pollStep s.rx }, ?_, rfl, fun _ =>
      ⟨h.rx.pollStep, h.tx, h.turn, h.present, h.iface, h.txFn, ?_⟩⟩
    · rw [Station.poll, hhanded]
    · rw [hsame]
      exact h.accepted

/-- Sending the oldest packet keeps the invariant. -/
theorem StationInv.complete (h : StationInv mac ip s) {i : Fin txBufs} (hready : (StationOp.complete i).Ready s) :
    StationInv mac ip { s with tx := s.tx.complete i } := by
  have hhead : s.tx.owned.head? = some i := hready
  obtain ⟨rest, hrest⟩ := List.head?_eq_some_iff.mp hhead
  -- without the oldest, the others are still the ones before `cur`
  refine ⟨h.rx, h.tx.complete hready, ?_, h.present, h.iface, h.txFn, h.accepted⟩
  have hturn := h.turn
  rw [hrest] at hturn
  change Before s.tx.txCur (s.tx.owned.erase i)
  rw [hrest, List.erase_cons_head]
  exact hturn.2

/-- Every event that finds the station ready keeps the invariant. -/
theorem StationInv.step {op : StationOp} (h : StationInv mac ip s) (hstep : ReadyStationStep T s op s') :
    StationInv mac ip s' := by
  obtain ⟨hready, hstep⟩ := hstep
  cases hstep with
  | receive hfit => exact ⟨h.rx.receive hfit hready, h.tx, h.turn, h.present, h.iface, h.txFn, h.accepted⟩
  | signal bits =>
      exact ⟨h.rx.move _ _ fun hne => (h.rx.will_drain hne).or bits, h.tx, h.turn, h.present, h.iface, h.txFn,
        h.accepted⟩
  | poll hpoll =>
      obtain ⟨s'', hrun, -, hinv⟩ := @StationInv.poll T mac ip _ h
      obtain rfl := Except.ok.inj (hrun.symm.trans hpoll)
      exact hinv hready
  | complete hi => exact h.complete hready

/-- After `net_bring_up` the announcement is under way. -/
theorem StationInv.bringUp {net : Iface} {card : TxState} {ann : Vector UInt8 42} {net₀ : Iface}
    (h : netBringUp T (some mac) ann net₀ txInit = .ok (net, card)) :
    StationInv mac bringUpIp ⟨rxInit, net, card⟩ := by
  -- the announcement fills the array, and is sent whole
  have hlen : (announcement mac bringUpIp).length = 42 :=
    length_arpFrame _ _ mac.length_toList mac.length_toList
  rw [netBringUp, netConfigure, netArpAnnounce_eq, ok_bind] at h
  change Except.ok (_, rtlTx (List.take 42 (announcement mac bringUpIp)) txInit) = _ at h
  rw [List.take_of_length_le (by omega)] at h
  obtain ⟨rfl, rfl⟩ := Prod.mk.inj (Except.ok.inj h)
  have hinit : TxInv txInit := ⟨rfl, List.nodup_nil⟩
  obtain ⟨hacc, hpresent, hcur, howned⟩ :=
    @accepted_of_taken txInit _ rfl (show (announcement mac bringUpIp).length ≤ 1500 by omega)
  refine ⟨RxInv.init, hinit.send fun _ => List.not_mem_nil, ?_, hpresent, ⟨rfl, rfl⟩, rfl, ?_⟩
  · change Before (rtl8139Send txInit _).2.txCur (rtl8139Send txInit _).2.owned
    rw [hcur, howned]
    exact ⟨rfl, trivial⟩
  · change (rtl8139Send txInit _).2.accepted = _
    rw [hacc]
    rfl

/-! ## Runs -/

theorem StationInv.run {ops : List StationOp} (h : StationInv mac ip s) (hrun : Run (ReadyStationStep T) s ops s') :
    StationInv mac ip s' :=
  hrun.invariant (fun _ _ _ h hstep => h.step hstep) h

/-! ## Catching up -/

/-- A call of the driver, or a part of one. -/
def StationOp.isPoll : StationOp → Bool
  | .poll => true
  | _ => false

/-- An event inside the station. -/
def StationOp.Inner : StationOp → Prop
  | .poll => True
  | .complete _ => True
  | _ => False

/-- Only polling changes the receiving side, whatever the transmitting side does meanwhile. -/
theorem StationInv.rx_of_run {ops : List StationOp} (h : StationInv mac ip s)
    (hrun : Run (ReadyStationStep T) s ops s') (hinner : ∀ op ∈ ops, op.Inner) :
    s'.rx = polled (ops.countP StationOp.isPoll) s.rx := by
  induction hrun with
  | nil => rfl
  | @cons s t _ op ops hstep _ ih =>
      have htail := ih (h.step hstep) fun op hop => hinner op (.tail _ hop)
      have hop : op.Inner := hinner op (.head _)
      obtain ⟨-, hstep⟩ := hstep
      cases hstep with
      | receive _ => exact hop.elim
      | signal _ => exact hop.elim
      | poll hpoll =>
          obtain ⟨t', hrun, hrx, -⟩ := @StationInv.poll T mac ip _ h
          obtain rfl := Except.ok.inj (hrun.symm.trans hpoll)
          rw [htail, hrx, List.countP_cons_of_pos rfl]
          rfl
      | complete _ =>
          rw [htail, List.countP_cons_of_neg Bool.false_ne_true]

/-- The device can send what it has. -/
theorem StationInv.settle (T : Target) (h : StationInv mac ip s) : ∃ ops s', Run (ReadyStationStep T) s ops s' ∧
    (∀ op ∈ ops, op.Inner) ∧ s'.tx.owned = [] := by
  induction howned : s.tx.owned generalizing s with
  | nil => exact ⟨[], s, .nil s, fun op hop => absurd hop List.not_mem_nil, howned⟩
  | cons i rest ih =>
      have hready : (StationOp.complete i).Ready s := by
        change s.tx.owned.head? = some i
        rw [howned]
        rfl
      have hrest : (s.tx.complete i).owned = rest := by
        change s.tx.owned.erase i = rest
        rw [howned, List.erase_cons_head]
      obtain ⟨ops, s', hrun, hinner, hdone⟩ := ih (h.complete hready) hrest
      refine ⟨.complete i :: ops, s', .cons ⟨hready, .complete (by rw [howned]; exact .head _)⟩ hrun, ?_, hdone⟩
      intro op hop
      rcases List.mem_cons.mp hop with rfl | hop
      · trivial
      · exact hinner op hop

/-- The station never gets stuck: the driver can poll as often as it likes, and each time the device has sent
everything before. -/
theorem StationInv.poll_times (T : Target) (h : StationInv mac ip s) (n : Nat) :
    ∃ ops s', Run (ReadyStationStep T) s ops s' ∧ (∀ op ∈ ops, op.Inner) ∧
      n ≤ ops.countP StationOp.isPoll ∧ s'.tx.owned = [] := by
  induction n generalizing s with
  | zero =>
      obtain ⟨ops, s', hrun, hinner, hdone⟩ := h.settle T
      exact ⟨ops, s', hrun, hinner, Nat.zero_le _, hdone⟩
  | succ n ih =>
      -- the device sends everything, and then the driver polls
      obtain ⟨ops, t, hrun, hinner, hdone⟩ := h.settle T
      have ht := h.run hrun
      have hready : StationOp.poll.Ready t := fun _ => by
        rw [hdone]
        decide
      obtain ⟨u, hpoll, -, hu⟩ := @StationInv.poll T mac ip _ ht
      obtain ⟨ops', s', hrun', hinner', hcount, hdone'⟩ := ih (hu hready)
      refine ⟨ops ++ .poll :: ops', s', hrun.append (.cons ⟨hready, .poll hpoll⟩ hrun'), ?_, ?_, hdone'⟩
      · intro op hop
        rcases List.mem_append.mp hop with hop | hop
        · exact hinner op hop
        · rcases List.mem_cons.mp hop with rfl | hop
          · trivial
          · exact hinner' op hop
      · rw [List.countP_append, List.countP_cons_of_pos rfl]
        omega

/-! ## The wire -/

/-- 192.168.0.1 asks for the hardware address of 192.168.0.2. -/
def arpQuery : RxFrame :=
  { shortFrame with
    data := List.replicate 6 0xFF ++ [2, 0, 0, 0, 0, 9, 8, 6, 0, 1, 8, 0, 6, 4, 0, 1, 2, 0, 0, 0, 0, 9, 192, 168, 0, 1,
      0, 0, 0, 0, 0, 0, 192, 168, 0, 2]
    min_le := by decide
    le_max := by decide }

/-- The hardware address of the card. -/
def stationMac : Vector UInt8 6 := ifaceUp.ourMac

/-- A station is brought up and hears the question. -/
theorem exists_station : ∃ net card s,
    netBringUp .x86 (some stationMac) (Vector.replicate 42 0) netInit txInit = .ok (net, card) ∧
    Run (ReadyStationStep .x86) ⟨rxInit, net, card⟩ [.receive arpQuery] s ∧ s.rx.received = [arpQuery] := by
  have hup : ∃ net card,
      netBringUp .x86 (some stationMac) (Vector.replicate 42 0) netInit txInit = .ok (net, card) := by
    rw [netBringUp, netConfigure, netArpAnnounce_eq, ok_bind]
    exact ⟨_, _, rfl⟩
  have hfits : rxInit.unread + arpQuery.slot ≤ 8192 := by decide
  obtain ⟨net, card, hup⟩ := hup
  exact ⟨net, card, _, hup, .single ⟨show arpQuery.data.length ≤ 1510 by decide, .receive hfits⟩, rfl⟩

/-- From every state that a run reaches the station can go on, and once it has polled often enough and sent what
it had, the wire has the announcement and the responses to all frames that have arrived. -/
theorem catchesUp_of_run (T : Target) (mac : Vector UInt8 6) (ann : Vector UInt8 42) (net : Iface)
    (card : TxState) (hup : netBringUp T (some mac) ann netInit txInit = .ok (net, card)) (ops : List StationOp)
    (s : Station) (hrun : Run (ReadyStationStep T) ⟨rxInit, net, card⟩ ops s) : ∃ n,
    (∃ more s', Run (ReadyStationStep T) s more s' ∧ (∀ op ∈ more, op.Inner) ∧
      n ≤ more.countP StationOp.isPoll ∧ s'.tx.owned = []) ∧
    ∀ more s', Run (ReadyStationStep T) s more s' → (∀ op ∈ more, op.Inner) →
      n ≤ more.countP StationOp.isPoll → s'.tx.owned = [] →
      s'.tx.wire = announcement mac bringUpIp ::
        (s.rx.received.map RxFrame.data).filterMap (response mac bringUpIp) := by
  have hinv := (StationInv.bringUp hup).run hrun
  obtain ⟨n, hn⟩ := hinv.rx.ok.complete
  refine ⟨n, hinv.poll_times T n, fun more s' hmore hinner hcount hdone => ?_⟩
  have hinv' := hinv.run hmore
  -- polling delivers what is in the ring, and nothing is under way at the end
  have hall : s'.rx.delivered = s.rx.received.map RxFrame.data := by
    rw [hinv.rx_of_run hmore hinner]
    exact hn _ hcount
  have hok : s'.tx.accepted = s'.tx.wire ++ s'.tx.owned.map s'.tx.packet := hinv'.tx.ok
  rw [hdone, List.map_nil, List.append_nil] at hok
  rw [← hok, hinv'.accepted, hall]

/-- The question is answered. -/
theorem catchesUp_arpQuery : ∃ net card ops s,
    netBringUp .x86 (some stationMac) (Vector.replicate 42 0) netInit txInit = .ok (net, card) ∧
    Run (ReadyStationStep .x86) ⟨rxInit, net, card⟩ (.receive arpQuery :: ops) s ∧
    s.tx.wire = [announcement stationMac bringUpIp,
      arpFrame stationMac.toList bringUpIp [2, 0, 0, 0, 0, 9] 0xC0A80001] := by
  obtain ⟨net, card, s, hup, hrun, hreceived⟩ := exists_station
  obtain ⟨n, ⟨more, s', hmore, hinner, hcount, hdone⟩, hwire⟩ :=
    catchesUp_of_run .x86 stationMac _ net card hup _ s hrun
  refine ⟨net, card, more, s', hup, hrun.append hmore, ?_⟩
  rw [hwire more s' hmore hinner hcount hdone, hreceived]
  decide +kernel

end Net

end Aerogel
