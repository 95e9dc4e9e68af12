import Aerogel.Foundations.RingRecords
import Aerogel.Foundations.Run
import Mathlib.Data.List.Nodup

/-! # The transmit descriptors of the RTL8139

Four buffers, used in turn. Writing a descriptor's `TXSTATUS` hands its buffer to the device, which
reads it when it gets to send the packet. `rtl8139_send` does not ask whether the device is done with
a buffer before it is used again: `txOk_of_run` needs that to be so, and `burst_not_txOk` shows five
packets of which one is lost. -/

namespace Aerogel

namespace Rtl8139

/-! ## Device and driver -/

/-- `TX_BUFS`. -/
abbrev txBufs : Nat := 4

/-- Device and driver. -/
structure TxState where
  /-- `present`. -/
  present : Bool
  /-- `tx_cur`. -/
  txCur : Fin txBufs
  /-- The buffers `tx_bufs`. -/
  bufs : Fin txBufs → Mem
  /-- What was last written to each `TXSTATUS` register: the length. -/
  txStatus : Fin txBufs → Nat
  /-- The descriptors the device owns, in the order their transmissions were started. -/
  owned : List (Fin txBufs)
  /-- The packets for which `rtl8139_send` returned 0, in the order of the calls. -/
  accepted : List (List UInt8)
  /-- The packets that went out. -/
  wire : List (List UInt8)

/-- After `rtl8139_init`. -/
def txInit : TxState where
  present := true
  txCur := 0
  bufs := fun _ _ => 0
  txStatus := fun _ => 0
  owned := []
  accepted := []
  wire := []

/-- `rtl8139_send`: what it returns and what it does. A descriptor the device still owned begins
anew. -/
def rtl8139Send (s : TxState) (data : List UInt8) : Int × TxState :=
  if s.present = false ∨ 1500 < data.length then (-1, s)
  else
    let cur := s.txCur
    (0, { s with
      bufs := Function.update s.bufs cur ((s.bufs cur).storeList 0 data)
      txStatus := Function.update s.txStatus cur data.length
      owned := s.owned.erase cur ++ [cur]
      txCur := cur + 1
      accepted := s.accepted ++ [data] })

/-- What the device would put on the wire for a descriptor. -/
def TxState.packet (s : TxState) (i : Fin txBufs) : List UInt8 := (s.bufs i).bytes 0 (s.txStatus i)

/-- The device completes a transmission: only now it reads the buffer. -/
def TxState.complete (s : TxState) (i : Fin txBufs) : TxState :=
  { s with owned := s.owned.erase i, wire := s.wire ++ [s.packet i] }

/-- What happens on the card. -/
inductive TxOp
  /-- `rtl8139_send` is called. -/
  | send (data : List UInt8)
  /-- The device completes the transmission of descriptor `i`. -/
  | complete (i : Fin txBufs)

/-- One event; completions come at any time and in any order. -/
inductive TxStep : TxState → TxOp → TxState → Prop
  /-- A call. -/
  | send (s : TxState) (data : List UInt8) : TxStep s (.send data) (rtl8139Send s data).2
  /-- A completion. -/
  | complete {s : TxState} {i : Fin txBufs} : i ∈ s.owned → TxStep s (.complete i) (s.complete i)

/-- Every accepted packet is on the wire or will be, once, unchanged and in the order of the calls. -/
def TxOk (s : TxState) : Prop := s.accepted = s.wire ++ s.owned.map s.packet

/-- The event finds the card ready for it: a call that is accepted uses a descriptor that the device is
done with, and the device completes the oldest transmission first. -/
def TxOp.Ready (s : TxState) : TxOp → Prop
  | .send data => data.length ≤ 1500 → s.txCur ∉ s.owned
  | .complete i => s.owned.head? = some i

/-- An event that finds the card ready. -/
def ReadyStep (s : TxState) (op : TxOp) (s' : TxState) : Prop := op.Ready s ∧ TxStep s op s'

/-! ## The invariant -/

/-- Packets in order, and no descriptor is under way twice. -/
structure TxInv (s : TxState) : Prop where
  /-- Nothing is lost, repeated, changed or reordered. -/
  ok : TxOk s
  /-- A descriptor carries one packet at a time. -/
  nodup : s.owned.Nodup

/-- A packet that is not too long is taken, and is in the buffer of the current descriptor. -/
theorem rtl8139Send_taken {s : TxState} {data : List UInt8} (hpresent : s.present = true)
    (hlen : data.length ≤ 1500) : (rtl8139Send s data).1 = 0 ∧
      (rtl8139Send s data).2.packet s.txCur = data ∧
      (rtl8139Send s data).2.txStatus s.txCur = data.length := by
  have htaken : ¬ (s.present = false ∨ 1500 < data.length) := by
    rw [hpresent, not_or]
    exact ⟨by decide, by omega⟩
  rw [rtl8139Send, if_neg htaken]
  have hstatus : Function.update s.txStatus s.txCur data.length s.txCur = data.length :=
    Function.update_self _ _ _
  refine ⟨rfl, ?_, hstatus⟩
  change (Function.update s.bufs s.txCur ((s.bufs s.txCur).storeList 0 data) s.txCur).bytes 0
    (Function.update s.txStatus s.txCur data.length s.txCur) = data
  rw [hstatus, Function.update_self]
  exact Mem.bytes_storeList _ 0 List.prefix_rfl

/-- A longer one is not. -/
theorem rtl8139Send_long {s : TxState} {data : List UInt8} (hlen : 1500 < data.length) :
    rtl8139Send s data = (-1, s) := if_pos (Or.inr hlen)

/-- Sending into a free buffer changes no packet under way. -/
theorem TxInv.send {s : TxState} (h : TxInv s) {data : List UInt8}
    (hready : (TxOp.send data).Ready s) : TxInv (rtl8139Send s data).2 := by
  rw [rtl8139Send]
  split_ifs with hreject
  · exact h
  · have hlen : data.length ≤ 1500 := by
      rw [not_or] at hreject
      omega
    have hfree : s.txCur ∉ s.owned := hready hlen
    have herase : s.owned.erase s.txCur = s.owned := List.erase_of_not_mem hfree
    simp only [herase]
    set s' : TxState := { s with
      bufs := Function.update s.bufs s.txCur ((s.bufs s.txCur).storeList 0 data)
      txStatus := Function.update s.txStatus s.txCur data.length
      owned := s.owned ++ [s.txCur]
      txCur := s.txCur + 1
      accepted := s.accepted ++ [data] }
    have hbufs : s'.bufs =
        Function.update s.bufs s.txCur ((s.bufs s.txCur).storeList 0 data) := rfl
    have hstatus : s'.txStatus = Function.update s.txStatus s.txCur data.length := rfl
    have hnew : s'.packet s.txCur = data := by
      rw [TxState.packet, hbufs, hstatus, Function.update_self, Function.update_self]
      exact Mem.bytes_storeList _ 0 List.prefix_rfl
    have hold : s.owned.map s'.packet = s.owned.map s.packet := by
      apply List.map_congr_left
      intro i hi
      have hne : i ≠ s.txCur := fun heq => hfree (heq ▸ hi)
      rw [TxState.packet, hbufs, hstatus, Function.update_of_ne hne, Function.update_of_ne hne]
      rfl
    have hok : s.accepted = s.wire ++ s.owned.map s.packet := h.ok
    refine ⟨?_, ?_⟩
    · change s.accepted ++ [data] = s.wire ++ (s.owned ++ [s.txCur]).map s'.packet
      rw [List.map_append, List.map_singleton, hnew, hold, ← List.append_assoc, ← hok]
    · change (s.owned ++ [s.txCur]).Nodup
      rw [List.nodup_append_comm, List.singleton_append, List.nodup_cons]
      exact ⟨hfree, h.nodup⟩

/-- Completing the oldest transmission puts the next packet on the wire. -/
theorem TxInv.complete {s : TxState} (h : TxInv s) {i : Fin txBufs}
    (hready : (TxOp.complete i).Ready s) : TxInv (s.complete i) := by
  obtain ⟨rest, hrest⟩ : ∃ rest, s.owned = i :: rest := by
    have hhead : s.owned.head? = some i := hready
    exact List.head?_eq_some_iff.mp hhead
  have herase : s.owned.erase i = rest := by rw [hrest, List.erase_cons_head]
  have hok : s.accepted = s.wire ++ s.owned.map s.packet := h.ok
  have hnodup := h.nodup
  rw [hrest] at hok hnodup
  refine ⟨?_, ?_⟩
  · change s.accepted = (s.wire ++ [s.packet i]) ++ (s.owned.erase i).map s.packet
    rw [herase, hok, List.append_assoc]
    rfl
  · change (s.owned.erase i).Nodup
    rw [herase]
    exact hnodup.of_cons

/-! ## Runs -/

/-- Every event that finds the card ready keeps the packets in order. -/
theorem TxInv.step {s s' : TxState} {op : TxOp} (h : TxInv s) (hstep : ReadyStep s op s') :
    TxInv s' := by
  obtain ⟨hready, hstep⟩ := hstep
  cases hstep with
  | send data => exact h.send hready
  | complete _ => exact h.complete hready

/-- In every run whose events all find the card ready, every accepted packet goes out once, unchanged
and in order. -/
theorem txOk_of_run (ops : List TxOp) (s : TxState) (hrun : Run ReadyStep txInit ops s) : TxOk s := by
  have hinit : TxInv txInit := ⟨rfl, List.nodup_nil⟩
  exact (hrun.invariant (fun _ _ _ h hstep => TxInv.step h hstep) hinit).ok

/-- Two packets; the first one goes out before the second is sent. -/
theorem txOk_twoPackets : ∃ s, Run ReadyStep txInit
    [.send [1, 2], .complete 0, .send [3], .send (List.replicate 1501 0)] s ∧ TxOk s := by
  have hlong : ¬ (List.replicate 1501 (0 : UInt8)).length ≤ 1500 := by
    rw [List.length_replicate]
    decide
  have h₁ : ReadyStep txInit (.send [1, 2]) _ := ⟨fun _ => by decide, .send _ _⟩
  have h₂ : ReadyStep (rtl8139Send txInit [1, 2]).2 (.complete 0) _ :=
    ⟨rfl, .complete (List.mem_singleton_self _)⟩
  have h₃ : ReadyStep ((rtl8139Send txInit [1, 2]).2.complete 0) (.send [3]) _ :=
    ⟨fun _ => by decide, .send _ _⟩
  have h₄ : ReadyStep (rtl8139Send ((rtl8139Send txInit [1, 2]).2.complete 0) [3]).2
      (.send (List.replicate 1501 0)) _ := ⟨fun h => absurd h hlong, .send _ _⟩
  have hrun := Run.cons h₁ (.cons h₂ (.cons h₃ (.single h₄)))
  exact ⟨_, hrun, txOk_of_run _ _ hrun⟩

/-! ## A burst -/

/-- The state after some calls in a row. -/
def sendAll (s : TxState) (packets : List (List UInt8)) : TxState :=
  packets.foldl (fun s data => (rtl8139Send s data).2) s

/-- Calls in a row are a run. -/
theorem run_sendAll (s : TxState) (packets : List (List UInt8)) :
    Run TxStep s (packets.map .send) (sendAll s packets) := by
  induction packets generalizing s with
  | nil => exact .nil s
  | cons data packets ih => exact .cons (.send s data) (ih _)

/-- Of five packets in a row the first one is overwritten before it goes out; four are sent. -/
theorem burst_not_txOk : ∃ s, Run TxStep txInit ([[1], [2], [3], [4], [5]].map TxOp.send ++
      [1, 2, 3, 0].map TxOp.complete) s ∧
    s.accepted = [[1], [2], [3], [4], [5]] ∧ s.wire = [[2], [3], [4], [5]] ∧ s.owned = [] ∧
    ¬ TxOk s := by
  have hsent := run_sendAll txInit [[1], [2], [3], [4], [5]]
  have hdone := Run.cons (TxStep.complete (s := sendAll txInit [[1], [2], [3], [4], [5]]) (i := 1)
    (by decide)) (.cons (.complete (i := 2) (by decide)) (.cons (.complete (i := 3) (by decide))
    (.single (.complete (i := 0) (by decide)))))
  refine ⟨_, hsent.append hdone, rfl, by decide, by decide, ?_⟩
  unfold TxOk
  decide

end Rtl8139

end Aerogel
