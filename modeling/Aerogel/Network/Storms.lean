import Aerogel.Foundations.Run
import Aerogel.Network.PacketSafety
import Mathlib.Data.List.Count

/-! # Replies cause no replies

What the stack writes is never something it answers, whoever receives it. In a network of hosts that
run this code, frames therefore come in at most two generations: frames from outside and the answers
to them, at most one for each time a host receives one. -/

namespace Aerogel

namespace Net

/-! ## Two hosts -/

/-- A reply is not a request. -/
theorem IsReply.not_isRequest {buf : List UInt8} {n : Nat} (h : IsReply buf n) :
    ¬ IsRequest (buf.take n) := by
  -- the bytes looked at are inside the reply
  have hget : ∀ k < n, (buf.take n)[k]? = buf[k]? := by
    intro k hk
    rw [List.getElem?_take, if_pos hk]
  rcases h with ⟨rfl, h12, h13, h20, h21⟩ | ⟨hn, -, h12, h13, h14, h34⟩
  · rintro (⟨-, -, -, hr21⟩ | ⟨-, hr13, -⟩)
    · rw [hget 21 (by decide), h21] at hr21
      exact absurd hr21 (by decide)
    · rw [hget 13 (by decide), h13] at hr13
      exact absurd hr13 (by decide)
  · rintro (⟨-, hr13, -⟩ | ⟨-, -, v₀, hr14, hr8⟩)
    · rw [hget 13 (by omega), h13] at hr13
      exact absurd hr13 (by decide)
    · -- the header it writes has no options, so its payload begins at byte 34
      rw [hget 14 (by omega), h14] at hr14
      obtain rfl := Option.some.inj hr14
      rw [show 14 + ((0x45 : UInt8) &&& 0x0F).toNat * 4 = 34 by decide, hget 34 (by omega), h34] at hr8
      exact absurd hr8 (by decide)

variable {T₁ T₂ : Target}

/-- What one host answers, another does not answer. -/
theorem netProcessPacket_reply {pkt₁ : ReceivedFrame T₁} {mac₁ : Vector UInt8 6} {ip₁ : UInt32}
    {buf₁ : Vector UInt8 1514} {n : Nat} {buf : List UInt8}
    (h : netProcessPacket T₁ (some pkt₁.bytes) (some mac₁) ip₁ (some buf₁) = .ok (some n, buf))
    {pkt₂ : ReceivedFrame T₂} (hpkt₂ : pkt₂.bytes = buf.take n) (mac₂ : Vector UInt8 6)
    (ip₂ : UInt32) (buf₂ : Vector UInt8 1514) :
    ∃ buf', netProcessPacket T₂ (some pkt₂.bytes) (some mac₂) ip₂ (some buf₂) = .ok (none, buf') := by
  obtain ⟨r₁, hr₁, -, hreply⟩ := returns_netProcessPacket pkt₁ mac₁ ip₁ buf₁
  obtain rfl := Except.ok.inj (h.symm.trans hr₁)
  obtain ⟨-, -, hrep⟩ := hreply n rfl
  obtain ⟨⟨k, buf'⟩, hr₂, -, hnone⟩ := returns_netProcessPacket pkt₂ mac₂ ip₂ buf₂
  cases k with
  | none => exact ⟨buf', hr₂⟩
  | some k =>
      obtain ⟨-, hreq, -⟩ := hnone k rfl
      rw [hpkt₂] at hreq
      exact absurd hreq hrep.not_isRequest

/-! ## Any number of hosts -/

/-- A host with its interface configuration. -/
structure Host where
  /-- The build it runs. -/
  target : Target
  /-- `our_mac`. -/
  mac : Vector UInt8 6
  /-- `our_ip`. -/
  ip : UInt32

/-- A frame on the network. -/
structure Sent (H : Type) where
  /-- Its bytes. -/
  bytes : List UInt8
  /-- The host that generated it and the number of the frame it answers; `none` for a frame from
  outside. -/
  origin : Option (H × Nat)

/-- A network: all frames so far, and who has received which of them. -/
structure Network (H : Type) where
  /-- The frames, in the order they were sent; the position is the frame's number. -/
  sent : List (Sent H)
  /-- Every time a host has received a frame. -/
  received : List (H × Nat)

/-- What happens on a network. -/
inductive NetOp (H : Type)
  /-- A frame comes from outside. -/
  | inject (bytes : List UInt8)
  /-- Host `h` receives frame number `k`. -/
  | deliver (h : H) (k : Nat)

variable {H : Type}

/-- One event. Frames are delivered in any order, to any host and any number of times, and whatever the
reply buffer held before; an answer may get lost. -/
inductive NetStep (host : H → Host) : Network H → NetOp H → Network H → Prop
  /-- A frame comes from outside. -/
  | inject {s : Network H} (bytes : List UInt8) :
      NetStep host s (.inject bytes) { s with sent := s.sent ++ [⟨bytes, none⟩] }
  /-- A frame is received and the network sees no answer. -/
  | silent {s : Network H} {h : H} {k : Nat} {f : Sent H} {pkt : ReceivedFrame (host h).target}
      {rbuf : Vector UInt8 1514} {r : Option Nat × List UInt8} :
      s.sent[k]? = some f → pkt.bytes = f.bytes →
      netProcessPacket (host h).target (some pkt.bytes) (some (host h).mac) (host h).ip (some rbuf)
        = .ok r →
      NetStep host s (.deliver h k) { s with received := (h, k) :: s.received }
  /-- A frame is received and answered. -/
  | answer {s : Network H} {h : H} {k : Nat} {f : Sent H} {pkt : ReceivedFrame (host h).target}
      {rbuf : Vector UInt8 1514} {n : Nat} {buf : List UInt8} :
      s.sent[k]? = some f → pkt.bytes = f.bytes →
      netProcessPacket (host h).target (some pkt.bytes) (some (host h).mac) (host h).ip (some rbuf)
        = .ok (some n, buf) →
      NetStep host s (.deliver h k)
        { sent := s.sent ++ [⟨buf.take n, some (h, k)⟩], received := (h, k) :: s.received }

/-- Nothing sent, nothing received. -/
def Network.empty : Network H := { sent := [], received := [] }

/-- The frames that host `h` generated because of frame number `k`. -/
def Network.answers [DecidableEq H] (s : Network H) (h : H) (k : Nat) : List (Sent H) :=
  s.sent.filter fun f => f.origin = some (h, k)

/-- There is no reply storm. -/
structure NoStorm [DecidableEq H] (s : Network H) : Prop where
  /-- A host generates at most one frame each time it receives one. -/
  once : ∀ h k, (s.answers h k).length ≤ s.received.count (h, k)
  /-- A frame that caused another one came from outside. -/
  outside : ∀ f ∈ s.sent, ∀ h k, f.origin = some (h, k) →
    ∃ g, s.sent[k]? = some g ∧ g.origin = none

/-- Generated frames are not requests, which is what keeps the storm away. -/
structure StormInv [DecidableEq H] (s : Network H) : Prop extends NoStorm s where
  /-- Nobody will answer a generated frame. -/
  quiet : ∀ f ∈ s.sent, f.origin ≠ none → ¬ IsRequest f.bytes

/-- Frames keep their numbers. -/
theorem outside_append {l l' : List (Sent H)} {k : Nat}
    (h : ∃ g, l[k]? = some g ∧ g.origin = none) : ∃ g, (l ++ l')[k]? = some g ∧ g.origin = none := by
  obtain ⟨g, hg, hnone⟩ := h
  refine ⟨g, ?_, hnone⟩
  rw [List.getElem?_append_left, hg]
  by_contra hge
  rw [List.getElem?_eq_none (by omega)] at hg
  cases hg

/-- Every event keeps the storm away. -/
theorem StormInv.step [DecidableEq H] {host : H → Host} {s s' : Network H} {op : NetOp H}
    (h : StormInv s) (hstep : NetStep host s op s') : StormInv s' := by
  cases hstep with
  | inject bytes =>
      refine ⟨⟨fun g k => ?_, fun f hf g k hfk => ?_⟩, fun f hf hne => ?_⟩
      · rw [Network.answers, List.filter_append]
        simpa [Network.answers] using h.once g k
      · rcases List.mem_append.mp hf with hf | hf
        · exact outside_append (h.outside f hf g k hfk)
        · rw [List.mem_singleton.mp hf] at hfk
          cases hfk
      · rcases List.mem_append.mp hf with hf | hf
        · exact h.quiet f hf hne
        · rw [List.mem_singleton.mp hf] at hne
          exact absurd rfl hne
  | silent _ _ _ =>
      refine ⟨⟨fun g k => ?_, h.outside⟩, h.quiet⟩
      exact le_trans (h.once g k) (List.count_le_count_cons)
  | @answer g k f pkt rbuf n buf hk hpkt hrun =>
      obtain ⟨r, hr, -, hreply⟩ := returns_netProcessPacket pkt (host g).mac (host g).ip rbuf
      obtain rfl := Except.ok.inj (hrun.symm.trans hr)
      obtain ⟨-, hreq, hrep⟩ := hreply n rfl
      rw [hpkt] at hreq
      -- the frame was a request, so nobody here had generated it
      have horigin : f.origin = none := by
        by_contra hne
        exact h.quiet f (List.mem_of_getElem? hk) hne hreq
      refine ⟨⟨fun g' k' => ?_, fun f' hf' g' k' hfk => ?_⟩, fun f' hf' hne => ?_⟩
      · rw [Network.answers, List.filter_append, List.length_append, List.count_cons]
        have hold := h.once g' k'
        rw [Network.answers] at hold
        by_cases heq : (g, k) = (g', k')
        · simpa [heq] using hold
        · simpa [heq, fun h => heq h] using hold
      · rcases List.mem_append.mp hf' with hf' | hf'
        · exact outside_append (h.outside f' hf' g' k' hfk)
        · rw [List.mem_singleton.mp hf'] at hfk
          obtain ⟨rfl, rfl⟩ := Prod.mk.inj (Option.some.inj hfk)
          exact outside_append ⟨f, hk, horigin⟩
      · rcases List.mem_append.mp hf' with hf' | hf'
        · exact h.quiet f' hf' hne
        · rw [List.mem_singleton.mp hf']
          exact hrep.not_isRequest

/-- On the way to any state of any network there was no reply storm. -/
theorem StormInv.of_reachable [DecidableEq H] {host : H → Host} {s : Network H}
    (h : Reachable (NetStep host) .empty s) : StormInv s := by
  refine h.invariant (fun _ _ _ hs hstep => hs.step hstep) ⟨⟨fun _ _ => ?_, ?_⟩, ?_⟩
  · exact Nat.zero_le _
  · intro f hf
    cases hf
  · intro f hf
    cases hf

/-- No reply storms: the reply of one host is not answered by any other, so in every network frames
from outside are answered at most once per receipt and answers not at all. -/
theorem noReplyStorm :
    (∀ (T₁ T₂ : Target) (pkt₁ : ReceivedFrame T₁) (mac₁ : Vector UInt8 6) (ip₁ : UInt32)
      (buf₁ : Vector UInt8 1514) (n : Nat) (buf : List UInt8),
      netProcessPacket T₁ (some pkt₁.bytes) (some mac₁) ip₁ (some buf₁) = .ok (some n, buf) →
      ∀ pkt₂ : ReceivedFrame T₂, pkt₂.bytes = buf.take n →
      ∀ (mac₂ : Vector UInt8 6) (ip₂ : UInt32) (buf₂ : Vector UInt8 1514), ∃ buf',
        netProcessPacket T₂ (some pkt₂.bytes) (some mac₂) ip₂ (some buf₂) = .ok (none, buf')) ∧
    ∀ (H : Type) [DecidableEq H] (host : H → Host) (s : Network H),
      Reachable (NetStep host) .empty s → NoStorm s := by
  refine ⟨fun T₁ T₂ pkt₁ mac₁ ip₁ buf₁ n buf h pkt₂ hpkt₂ mac₂ ip₂ buf₂ => ?_,
    fun H _ host s h => ?_⟩
  · exact netProcessPacket_reply h hpkt₂ mac₂ ip₂ buf₂
  · exact (StormInv.of_reachable h).toNoStorm

/-- Who has 10.0.0.2? Tell 10.0.0.9. -/
def arpRequest : List UInt8 :=
  [0xFF, 0xFF, 0xFF, 0xFF, 0xFF, 0xFF, 2, 0, 0, 0, 0, 9, 0x08, 0x06, 0, 1, 8, 0, 6, 4, 0, 1,
   2, 0, 0, 0, 0, 9, 10, 0, 0, 9, 0, 0, 0, 0, 0, 0, 10, 0, 0, 2]

/-- 10.0.0.2 runs the 64-bit build, 10.0.0.9 the 32-bit build. -/
def twoHosts : Bool → Host
  | true => ⟨.x86_64, #v[2, 0, 0, 0, 0, 2], 0x0A000002⟩
  | false => ⟨.x86, #v[2, 0, 0, 0, 0, 9], 0x0A000009⟩

/-- The request is answered, and the answer is not. -/
theorem noReplyStorm_arp : ∃ s, Run (NetStep twoHosts) .empty
      [.inject arpRequest, .deliver true 0, .deliver false 1] s ∧ s.sent.length = 2 ∧
    NoStorm s := by
  have hanswer : ((netProcessPacket .x86_64 (some arpRequest) (some (twoHosts true).mac)
      (twoHosts true).ip (some (Vector.replicate 1514 0))).toOption.map Prod.fst)
      = some (some 42) := by decide +kernel
  let pkt₁ : ReceivedFrame .x86_64 := ⟨arpRequest, by decide, by decide⟩
  obtain ⟨⟨k, buf⟩, hrun₁, hbuf, -⟩ := returns_netProcessPacket pkt₁ (twoHosts true).mac
    (twoHosts true).ip (Vector.replicate 1514 0)
  rw [show arpRequest = pkt₁.bytes from rfl, hrun₁] at hanswer
  obtain rfl : k = some 42 := Option.some.inj hanswer
  have hlen : (buf.take 42).length < 2 ^ 31 := by
    rw [List.length_take]
    omega
  let pkt₂ : ReceivedFrame .x86 := ⟨buf.take 42, lt_trans hlen (by decide), hlen⟩
  obtain ⟨r, hrun₂, -⟩ := returns_netProcessPacket pkt₂ (twoHosts false).mac
    (twoHosts false).ip (Vector.replicate 1514 0)
  have hstep₁ : NetStep twoHosts .empty (.inject arpRequest) _ := .inject arpRequest
  have hstep₂ : NetStep twoHosts { sent := [⟨arpRequest, none⟩], received := [] }
      (.deliver true 0) _ := .answer rfl rfl hrun₁
  have hstep₃ : NetStep twoHosts
      { sent := [⟨arpRequest, none⟩, ⟨buf.take 42, some (true, 0)⟩], received := [(true, 0)] }
      (.deliver false 1) _ := .silent rfl rfl hrun₂
  have hall := Run.cons hstep₁ (.cons hstep₂ (.single hstep₃))
  exact ⟨_, hall, rfl, noReplyStorm.2 _ _ _ ⟨_, hall⟩⟩

end Net

end Aerogel
