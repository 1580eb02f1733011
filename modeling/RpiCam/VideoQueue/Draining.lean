import RpiCam.VideoQueue.Settling

/-!
# The consumers drain the queue

A consumer calls `pop` again and again, and deletes what it gets. It registers its event before; so `pop` gives it a frame
or waits, and each call is paid for by a frame.

* `Consuming jobs` : the callers keep to `Feeds`, and thread `i` pops the event `jobs i`, once this is registered;
* `AtJobs` : so a thread in `pop` is there for a registered event;
* `drains` : when nothing is pushed or registered any more, the steps are bounded, the calls of `pop` with them;
* `Drained`, `comes_to_drained` : and the threads can go on until every consumer waits, and nothing is left for it.
-/

namespace RpiCam

open Transition

namespace State

variable {jobs : Tid → Option Name} {F : Int} {s : State}

/-- `Feeds`, and thread `i` pops `jobs i` only, where this is registered. -/
def Consuming (jobs : Tid → Option Name) (s : State) (ia : Tid × Act) : Prop :=
  Feeds s ia ∧ ∀ n, ia.2 = .call (.pop n) → jobs ia.1 = some n ∧ n ∈ s.data.threadInfo ∧ n ∈ s.data.output

/-- Whoever is in `pop` is there for its event, and this is registered. -/
def AtJobs (jobs : Tid → Option Name) (s : State) : Prop :=
  ∀ i n, (s.pc i).inPop n = true → jobs i = some n ∧ n ∈ s.data.threadInfo ∧ n ∈ s.data.output

/-! ## Registered events -/

theorem step_atJobs {s' : State} {i : Tid} {a : Act} (hst : Steady s) (hs : AtJobs jobs s)
    (hok : Consuming jobs s (i, a)) (h : Step s i a (s.pc i) s') : AtJobs jobs s' := by
  intro j n hn
  have hbefore : jobs j = some n ∧ n ∈ s.data.threadInfo ∧ n ∈ s.data.output := by
    by_cases hj : j = i
    · subst hj
      rcases h.inPop_self hn with hold | ⟨rfl, -⟩
      · exact hs j n hold
      · exact hok.2 n rfl
    · rw [← Pc.inPop_plain, h.plain_of_ne hj, Pc.inPop_plain] at hn
      exact hs j n hn
  obtain ⟨hjob, hinfo, houtput⟩ := hbefore
  exact ⟨hjob, h.threadInfo_kept hinfo (hst.erasesInfo i n), h.output_kept houtput (hst.deletes i n)⟩

theorem reach_feeds (h : Reach (· = init F) step (Consuming jobs) s) : Reach (· = init F) step Feeds s :=
  h.mono fun _ _ _ _ hok _ => hok.1

theorem reach_atJobs (h : Reach (· = init F) step (Consuming jobs) s) : AtJobs jobs s := by
  refine h.invariant_of (AtJobs jobs) (fun s hr => (reach_wakeup (reach_feeds hr)).1) ?_ ?_
  · rintro s rfl i n hn
    rcases init_pc F i with hi | hi <;> rw [hi] at hn <;> cases hn
  · rintro s ⟨i, a⟩ s' hst hs hok hstep
    exact step_atJobs hst hs hok (step_sound hstep)

/-! ## Runs of the consumers -/

/-- No method is called but `pop`, as in `Consuming`. -/
def draining (jobs : Tid → Option Name) (s : State) : Tid × Act → Bool
  | (i, .call (.pop n)) => decide (jobs i = some n ∧ n ∈ s.data.threadInfo ∧ n ∈ s.data.output)
  | (_, .call _) => false
  | _ => true

theorem draining_of_noCall {ia : Tid × Act} (h : ia.2.calls = false) : draining jobs s ia = true := by
  obtain ⟨i, a⟩ := ia
  cases a with
  | call r => cases h
  | _ => rfl

theorem consuming_of_draining (s : State) (ia : Tid × Act) (h : draining jobs s ia = true) : Consuming jobs s ia := by
  obtain ⟨i, a⟩ := ia
  cases a with
  | call r =>
    cases r with
    | pop n =>
      rw [draining, decide_eq_true_eq] at h
      refine ⟨feeds_of_feeding _ _ rfl, ?_⟩
      rintro m hm
      cases hm
      exact h
    | _ => cases h
  | _ => exact ⟨feeds_of_feeding _ _ rfl, nofun⟩

theorem draws_of_draining {threads : Finset Tid} {e : Nat} {s' : State} {i : Tid} {a : Act}
    (hjobs : ∀ i n, jobs i = some n → i ∈ threads) (hw : Within threads e s) (h : Step s i a (s.pc i) s')
    (ha : draining jobs s (i, a) = true) : Draws threads 12 i a := by
  cases hcalls : a.calls with
  | false => exact hw.draws h hcalls 12
  | true =>
    cases a with
    | call r =>
      cases r with
      | pop n =>
        rw [draining, decide_eq_true_eq] at ha
        refine ⟨hjobs i n ha.1, ?_⟩
        rintro r hr
        cases hr
        exact ⟨⟨n, rfl⟩, Nat.le_refl _⟩
      | _ => cases ha
    | _ => cases hcalls

theorem draining_step {threads : Finset Tid} {e : Nat} {s' : State} {ia : Tid × Act}
    (hjobs : ∀ i n, jobs i = some n → i ∈ threads)
    (hs : Reach (· = init F) step (Consuming jobs) s ∧ Within threads e s)
    (h : checked (draining jobs) step s ia = some s') :
    (Reach (· = init F) step (Consuming jobs) s' ∧ Within threads e s') ∧
      s'.effort threads e 12 + 1 ≤ s.effort threads e 12 + 4 * if spurious s ia then 1 else 0 := by
  obtain ⟨i, a⟩ := ia
  obtain ⟨hr, hw⟩ := hs
  obtain ⟨ha, hst⟩ := checked_eq_some.mp h
  have hknown : PopsKnown 12 s := fun i n hn => Or.inr (reach_atJobs hr i n hn).2
  obtain ⟨hw', hle⟩ := quiet_step (reach_feeds hr) hw hknown (draws_of_draining hjobs hw (step_sound hst) ha) hst
  exact ⟨⟨.next (i, a) hr (consuming_of_draining s (i, a) ha) hst, hw'⟩, hle⟩

theorem exists_workers {m : Nat} (hjobs : ∀ i, m ≤ i → jobs i = none)
    (h : Reach (· = init F) step (Consuming jobs) s) :
    ∃ threads : Finset Tid, (∀ i n, jobs i = some n → i ∈ threads) ∧ ∀ j ∉ threads, s.pc j = .idle := by
  obtain ⟨threads, hidle⟩ := exists_idle (reach_feeds h)
  refine ⟨threads ∪ Finset.range m, ?_, ?_⟩
  · intro i n hn
    rw [Finset.mem_union, Finset.mem_range]
    by_contra hi
    rw [not_or, Nat.not_lt] at hi
    rw [hjobs i hi.2] at hn
    cases hn
  · intro j hj
    rw [Finset.mem_union, not_or] at hj
    exact hidle j hj.1

/-- **The consumers drain the queue.** When nothing is pushed or registered any more, and the consumers go on calling `pop`
for their events and deleting what they get, the number of steps is bounded, up to four for each wait that ends on its
own, however the threads come between each other. -/
theorem drains {m : Nat} (hjobs : ∀ i, m ≤ i → jobs i = none) (h : Reach (· = init F) step (Consuming jobs) s) :
    ∃ n, ∀ as s', run (checked (draining jobs) step) s as = some s' → as.length ≤ n + 4 * spuriousWakes s as := by
  obtain ⟨threads, hmem, hidle⟩ := exists_workers hjobs h
  refine ⟨s.effort threads (s.mostEntries threads) 12, ?_⟩
  intro as s' hrun
  have hle := length_le_potential
    (fun t => Reach (· = init F) step (Consuming jobs) t ∧ Within threads (s.mostEntries threads) t)
    (effort threads (s.mostEntries threads) 12) (fun s ia s' hs hst => draining_step hmem hs hst)
    ⟨h, hidle, Nat.le_refl _⟩ hrun
  rw [charged_checked _ hrun, charged_mul] at hle
  exact Nat.le_trans (Nat.le_add_left _ _) hle

/-! ## Where they come to -/

/-- Every consumer of a registered event waits and has nothing to take, and of all frames only those of events without a
consumer are left. -/
structure Drained (jobs : Tid → Option Name) (s : State) : Prop where
  passed : (passesOf s.log).map Prod.fst = pushesOf s.log
  waits : ∀ i n, 6 ≤ i → jobs i = some n → n ∈ s.data.threadInfo →
    (∃ info cond, s.pc i = .popWait n info cond false) ∧ s.data.queued n = []
  left : ∀ a < s.data.nextAddr, a ∈ s.data.deleted ∨
    ∃ n, a ∈ (s.data.queued n).map BufferRef.addr ∧ ∀ i, 6 ≤ i → jobs i = some n → n ∉ s.data.threadInfo

theorem output_of_rest (hall : ∀ i, s.pc i = .idle ∨ (s.pc i).sleeps = true) (hc : Coherent s) {n : Name}
    (hn : n ∈ s.data.threadInfo) : n ∈ s.data.output := by
  rcases hc.known n hn with ho | ⟨i, hi⟩
  · exact ho
  · rcases hall i with hidle | hsleeps
    · rw [hidle] at hi
      cases hi
    · cases hp : s.pc i <;> rw [hp] at hsleeps hi <;> first | cases hsleeps | cases hi

theorem calls_pop {i : Tid} {n : Name} (hf : s.fault = none) (hidle : s.pc i = .idle) (hjob : jobs i = some n)
    (hinfo : n ∈ s.data.threadInfo) (ho : n ∈ s.data.output) :
    checked (draining jobs) step s (i, .call (.pop n)) ≠ none := by
  have hcheck : draining jobs s (i, .call (.pop n)) = true := by
    rw [draining, decide_eq_true_eq]
    exact ⟨hjob, hinfo, ho⟩
  simp [checked, hcheck, step, hf, hidle, start]

theorem drained_of_end (hr : Reach (· = init F) step (Consuming jobs) s)
    (hend : ∀ ia, spurious s ia = false → checked (draining jobs) step s ia = none) : Drained jobs s := by
  have hfeeds := reach_feeds hr
  have hfault := (reach_safe hfeeds).fault
  have hrest : AtRest s := by
    intro ia hcalls hspurious
    have hnone := hend ia hspurious
    rwa [checked, if_pos (draining_of_noCall hcalls)] at hnone
  have hall := (atRest_iff (reach_coherent hfeeds).1 hfault).mp hrest
  obtain ⟨hst, hwatch, hattended⟩ := reach_wakeup hfeeds
  have hwaits : ∀ i n, 6 ≤ i → jobs i = some n → n ∈ s.data.threadInfo →
      (∃ info cond, s.pc i = .popWait n info cond false) ∧ s.data.queued n = [] := by
    intro i n hi hjob hinfo
    have hidle : s.pc i ≠ .idle := fun hidle =>
      calls_pop hfault hidle hjob hinfo (output_of_rest hall (reach_coherent hfeeds).2 hinfo) (hend _ rfl)
    have hin : (s.pc i).inPop n = true := by
      have hsleeps := (hall i).resolve_left hidle
      cases hp : s.pc i <;> rw [hp] at hsleeps <;> try cases hsleeps
      case popWait k info cond notified =>
        obtain ⟨hjob', -⟩ := reach_atJobs hr i k (by rw [hp]; simp [Pc.inPop])
        rw [hjob, Option.some.injEq] at hjob'
        simp [Pc.inPop, hjob']
      case distWait notified =>
        have hlt := (hattended.distributors i).mp (by rw [hp]; rfl)
        exact absurd hlt (Nat.not_lt.mpr hi)
    exact ⟨popWait_of_rest (hall i) hin, queued_of_rest hall hwatch hin⟩
  refine ⟨passes_of_rest hall (push_order hfeeds) (hattended.input_nil hall), hwaits, ?_⟩
  intro a ha
  rcases left_of_rest hall hst hattended (reach_census hfeeds) ha with hdeleted | ⟨n, hn⟩
  · exact Or.inl hdeleted
  · refine Or.inr ⟨n, hn, ?_⟩
    intro i hi hjob hinfo
    rw [(hwaits i n hi hjob hinfo).2] at hn
    cases hn

/-- **They come to the end.** From any such state the threads can go on, with no new push or registration and no wait that
ends on its own, until every frame that was pushed has been passed on, every consumer of a registered event waits before
an empty queue, and all frames are deleted but those of events that nobody consumes. -/
theorem comes_to_drained {m : Nat} (hjobs : ∀ i, m ≤ i → jobs i = none)
    (h : Reach (· = init F) step (Consuming jobs) s) :
    ∃ as s', run (checked (draining jobs) step) s as = some s' ∧ spuriousWakes s as = 0 ∧ Drained jobs s' := by
  obtain ⟨threads, hmem, hidle⟩ := exists_workers hjobs h
  obtain ⟨as, s', hrun, hcharge, hend⟩ := exists_terminal
    (fun t => Reach (· = init F) step (Consuming jobs) t ∧ Within threads (s.mostEntries threads) t)
    (effort threads (s.mostEntries threads) 12) (fun s ia s' hs hst => draining_step hmem hs hst)
    ⟨h, hidle, Nat.le_refl _⟩
  rw [charged_checked _ hrun, charged_mul] at hcharge
  refine ⟨as, s', hrun, (Nat.mul_eq_zero.mp hcharge).resolve_left (by decide), ?_⟩
  refine drained_of_end (.of_checked (draining jobs) consuming_of_draining h hrun) ?_
  intro ia hspurious
  exact hend ia (by rw [hspurious]; rfl)

/-- Thread `7` consumes `cam`. -/
def camJobs (i : Tid) : Option Name := if i = 7 then some ['c', 'a', 'm'] else none

def consuming (jobs : Tid → Option Name) (s : State) (ia : Tid × Act) : Bool :=
  draining jobs s ia || feedingOnly s ia

theorem consuming_sound (s : State) (ia : Tid × Act) (h : consuming jobs s ia = true) : Consuming jobs s ia := by
  rw [consuming, Bool.or_eq_true] at h
  rcases h with h | h
  · exact consuming_of_draining s ia h
  · refine ⟨(feedsOne_of_feedingOnly [] s ia h).1, ?_⟩
    obtain ⟨i, a⟩ := ia
    rintro n rfl
    cases h

theorem camJobs_none (i : Tid) (hi : 8 ≤ i) : camJobs i = none := if_neg (Nat.ne_of_gt hi)

theorem drains_frame : ∃ s, run (checked (consuming camJobs) step) (init 30) (waitingRun ++ pushingRun) = some s ∧
    s.data.input ≠ [] ∧ ∃ n, ∀ as s', run (checked (draining camJobs) step) s as = some s' →
      as.length ≤ n + 4 * spuriousWakes s as :=
  ⟨_, rfl, List.cons_ne_nil _ _, drains camJobs_none (.of_checked (consuming camJobs) consuming_sound (.init rfl)
    (rfl : run (checked (consuming camJobs) step) (init 30) (waitingRun ++ pushingRun) = some _))⟩

theorem comes_to_drained_frame :
    ∃ s, run (checked (consuming camJobs) step) (init 30) (waitingRun ++ pushingRun) = some s ∧ s.data.input ≠ [] ∧
      ∃ as s', run (checked (draining camJobs) step) s as = some s' ∧ spuriousWakes s as = 0 ∧ Drained camJobs s' :=
  ⟨_, rfl, List.cons_ne_nil _ _, comes_to_drained camJobs_none
    (.of_checked (consuming camJobs) consuming_sound (.init rfl)
      (rfl : run (checked (consuming camJobs) step) (init 30) (waitingRun ++ pushingRun) = some _))⟩

end State

end RpiCam
