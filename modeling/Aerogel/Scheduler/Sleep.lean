import Aerogel.Scheduler.SchedRuns

/-! # Who wakes sleeping threads

`sched_sleep` takes its caller out of the ring, and `sched_tick` looks for sleepers in the ring only. In
every run, whatever the threads do, the scan therefore finds nobody to wake (`Overdue.tick_iff`), and
`sched_tick` meets its purpose exactly when nobody is due. -/

namespace Aerogel

variable {r : SchedRun} {s : Sched} {t : ThreadPtr}

/-- The thread sleeps and its time has come. -/
def Overdue (now : Nat) (s : Sched) (t : ThreadPtr) : Prop :=
  s.state t = .sleeping ∧ (s.tcb t).wakeTick ≤ now

/-- What `sched_tick` is for: afterwards nobody is overdue, and who was is ready and in the ring. -/
structure WakesSleepers (now : Nat) (s s' : Sched) : Prop where
  /-- Nobody is overdue afterwards. -/
  none_left : ∀ t, ¬ Overdue now s' t
  /-- Who was overdue waits to run. -/
  woken : ∀ t, Overdue now s t → s'.state t = .ready ∧ ∃ l, Queued s' l ∧ t ∈ l

/-- Charging a quantum wakes nobody. -/
theorem Overdue.charge_iff {now : Nat} (cur : ThreadPtr) :
    Overdue now (chargeQuantum s cur) t ↔ Overdue now s t := by
  rw [Overdue, state_chargeQuantum, (chargeQuantum_frame s cur).2.2]
  exact Iff.rfl

/-- In every run `sched_tick` returns, and the same threads are overdue before and after it. -/
theorem Overdue.tick_iff (h : Reachable SchedStep schedBoot r) (now : Nat) :
    (∃ fuel s', schedTick fuel now r.sched = .ok s') ∧
      ∀ fuel s', schedTick fuel now r.sched = .ok s' →
        ∀ t, Overdue now s' t ↔ Overdue now r.sched t := by
  obtain ⟨v, hinv⟩ := RingInv.of_reachable h
  obtain ⟨⟨fuel, hrun⟩, hres⟩ := hinv.viewed.tick (fun x hx => hinv.ok.not_sleeping hx) now
  refine ⟨⟨fuel, _, hrun⟩, fun fuel s' hrun t => ?_⟩
  -- the scan changed nothing, so only the quantum was charged
  rw [hres fuel s' hrun]
  exact Overdue.charge_iff v.current

/-- In every state of every run: `sched_tick` returns, and it wakes the sleepers that are due exactly
when there are none. -/
theorem wakesSleepers_iff (r : SchedRun) (h : Reachable SchedStep schedBoot r) (now : Nat) :
    (∃ fuel s', schedTick fuel now r.sched = .ok s') ∧
      ∀ fuel s', schedTick fuel now r.sched = .ok s' →
        (WakesSleepers now r.sched s' ↔ ∀ t, ¬ Overdue now r.sched t) := by
  obtain ⟨hret, hsame⟩ := Overdue.tick_iff h now
  refine ⟨hret, fun fuel s' hrun => ⟨fun hw t ht => ?_, fun hnone => ⟨fun t ht => ?_, ?_⟩⟩⟩
  · exact hw.none_left t ((hsame fuel s' hrun t).mpr ht)
  · exact hnone t ((hsame fuel s' hrun t).mp ht)
  · exact fun t ht => absurd ht (hnone t)

/-- After `sched_init` nobody sleeps, and a tick has nothing to do. -/
theorem wakesSleepers_boot :
    ∃ fuel s', schedTick fuel 5 schedBoot.sched = .ok s' ∧ WakesSleepers 5 schedBoot.sched s' := by
  obtain ⟨⟨fuel, s', hrun⟩, hiff⟩ := wakesSleepers_iff schedBoot (.refl _) 5
  refine ⟨fuel, s', hrun, (hiff fuel s' hrun).mpr fun t ht => ?_⟩
  cases t with
  | idleTcb => exact absurd ht.1 (by decide)
  | heap addr => exact ThreadState.noConfusion ht.1

/-- A thread is made, added and switched to, and sleeps for 0 ms: the tick at its wake-up time leaves it
asleep. -/
theorem sleeper_not_woken :
    ∃ r, Run SchedStep schedBoot [.create 16, .add (.heap 16), .yield, .sleep 0 7] r ∧
      ∃ fuel s', schedTick fuel 7 r.sched = .ok s' ∧ ¬ WakesSleepers 7 r.sched s' := by
  let r : SchedRun :=
    { sched := schedSleep (schedYield (schedAdd (threadCreate schedBoot.sched 16) (.heap 16))) 0 7
      created := {.heap 16}
      added := {.heap 16} }
  have hrun : Run SchedStep schedBoot [.create 16, .add (.heap 16), .yield, .sleep 0 7] r :=
    .cons ⟨by decide, 0, rfl⟩ (.cons ⟨by decide, 0, rfl⟩ (.cons ⟨trivial, 0, rfl⟩
      (.single ⟨trivial, 0, rfl⟩)))
  have hdue : Overdue 7 r.sched (.heap 16) := ⟨by decide, by decide⟩
  obtain ⟨⟨fuel, s', htick⟩, hsame⟩ := Overdue.tick_iff ⟨_, hrun⟩ 7
  exact ⟨r, hrun, fuel, s', htick, fun hw => hw.none_left _ ((hsame fuel s' htick _).mpr hdue)⟩

end Aerogel
