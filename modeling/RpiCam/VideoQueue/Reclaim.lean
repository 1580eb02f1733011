import RpiCam.VideoQueue.Faults

/-!
# The memory of the frames

Every pass copies its frame once for each entry that is due, and whoever has a frame deletes it. Two consumers of one
event take their frames under the mutex of its `ThreadInfo`; so where the callers keep to `Feeds`, nothing is asked of the
order of their steps.

* `Safe.exclusive` : every step is as in `Exclusive`;
* `reach_census` : so every frame is in one place;
* `deleted_once` : no frame is deleted twice, or used when it is deleted.
-/

namespace RpiCam

open Transition

namespace Pc

theorem ready_of_takes {p : Pc} {n : Name} (h : p.takes n = true) (hr : p.removes n = false) :
    ∃ t, p.ready = some (n, t) := by
  cases p <;> simp only [takes, beq_iff_eq, Bool.false_eq_true] at h
  case popPop m t b =>
    subst h
    exact ⟨t, rfl⟩
  case removePop m q t =>
    subst h
    simp [removes] at hr

end Pc

namespace State

variable {F : Int} {s : State}

/-- Two threads that take a frame of one event have the mutex of one `ThreadInfo`. -/
theorem Sane.takes_unique (hs : Sane s) (hl : Locked s) (hst : Steady s) {n : Name} {i j : Tid}
    (hi : (s.pc i).takes n = true) (hj : (s.pc j).takes n = true) : i = j := by
  obtain ⟨t, ht⟩ := Pc.ready_of_takes hi (hst.removes i n)
  obtain ⟨u, hu⟩ := Pc.ready_of_takes hj (hst.removes j n)
  have hlookup := (hs.ready i n t ht).1
  rw [(hs.ready j n u hu).1, Option.some.injEq] at hlookup
  subst hlookup
  exact (hl.info u).unique (Pc.holdsInfo_of_ready ht) (Pc.holdsInfo_of_ready hu)

theorem Steady.deletes (hst : Steady s) (j : Tid) (n : Name) : (s.pc j).deletes n = false := by
  by_contra hp
  rw [Bool.not_eq_false] at hp
  have hremoves := Pc.removes_of_deletes hp
  rw [hst.removes j n] at hremoves
  cases hremoves

/-- Nobody removes, so a queue has all its frames. -/
theorem Steady.held_output (hst : Steady s) (n : Name) :
    s.held (.output n) = (s.data.queued n).map BufferRef.addr := by
  have hdr : s.drained n = 0 := drained_eq_zero fun i => by
    have hremoves := hst.removes i n
    cases hpc : s.pc i <;> first | rfl | simpa [hpc, Pc.drained, Pc.removes] using hremoves
  rw [held, hdr, List.drop_zero]

theorem Safe.exclusive (hs : Safe s) (hl : Locked s) (hst : Steady s) (ia : Tid × Act) : Exclusive s ia := by
  obtain ⟨i, a⟩ := ia
  intro name
  constructor
  · intro hi j hj
    by_contra hp
    rw [Bool.not_eq_false] at hp
    exact hj (hs.sane.takes_unique hl hst hp hi)
  · intro _ j _
    exact hst.deletes j name

theorem reach_census (h : Reach (· = init F) step Feeds s) : Census s.held s.data.nextAddr := by
  have hknown : ∀ s, Reach (· = init F) step Feeds s → (Locked s ∧ Coherent s) ∧ Steady s ∧ Safe s :=
    fun s hr => ⟨reach_coherent hr, (reach_wakeup hr).1, reach_safe hr⟩
  have hs : HeadKnown s ∧ Census s.held s.data.nextAddr := by
    refine h.invariant_of (fun s => HeadKnown s ∧ Census s.held s.data.nextAddr) hknown ?_ ?_
    · rintro s rfl
      refine ⟨?_, census_init F⟩
      intro j name info b hpc
      rcases init_pc F j with hj | hj <;> rw [hj] at hpc <;> cases hpc
    · rintro s ⟨i, a⟩ s' ⟨⟨hl, hc⟩, hst, hsafe⟩ ⟨hhead, hcensus⟩ - hstep
      have hrule := step_sound hstep
      exact ⟨step_headKnown hc hhead (hsafe.exclusive hl hst (i, a)) hrule,
        hcensus.transfer (step_transfer hl hc hhead (hsafe.exclusive hl hst (i, a)) hrule)⟩
  exact hs.2

/-- **No frame is deleted twice, or used when it is deleted.** With any number of consumers of an event, in every order of
their steps: no address is deleted twice, a frame that is deleted is not in `_input`, in no queue and in nobody's hand,
and no two threads, and no thread and a queue, have the same frame. -/
theorem deleted_once (h : Reach (· = init F) step Feeds s) :
    s.data.deleted.Nodup ∧ (∀ a ∈ s.data.deleted, ∀ p, p ≠ .deleted → a ∉ s.held p) ∧
      ∀ i a, a ∈ (s.pc i).hand → (∀ j, a ∈ (s.pc j).hand → j = i) ∧ ∀ e, ∀ b ∈ s.data.queued e, b.addr ≠ a := by
  have hcensus := reach_census h
  refine ⟨hcensus.nodup .deleted, ?_, ?_⟩
  · intro a ha p hp hmem
    exact hp (hcensus.unique p .deleted a hmem ha)
  · intro i a ha
    constructor
    · intro j hj
      have hplace := hcensus.unique (.hand j) (.hand i) a hj ha
      cases hplace
      rfl
    · rintro e b hb rfl
      have hmem : b.addr ∈ s.held (.output e) := by
        rw [(reach_wakeup h).1.held_output e]
        exact List.mem_map_of_mem hb
      cases hcensus.unique (.output e) (.hand i) b.addr hmem ha

/-- Thread `7` waits for a frame, and has got its copy. -/
def handedRun : List (Tid × Act) :=
  waitingRun ++ pushingRun ++ passingRun ++ (7, .wake) :: List.replicate 6 (7, .run)

theorem deleted_once_frame : ∃ s, run (checked feeding step) (init 30) handedRun = some s ∧
    s.data.deleted = [0] ∧ (s.pc 7).hand = [1] ∧ ∀ a ∈ s.data.deleted, ∀ p, p ≠ .deleted → a ∉ s.held p :=
  ⟨_, rfl, rfl, rfl, (deleted_once (.of_checked feeding feeds_of_feeding (.init rfl)
    (rfl : run (checked feeding step) (init 30) handedRun = some _))).2.1⟩

end State

end RpiCam
