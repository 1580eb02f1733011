import RpiCam.Event.System

/-!
# The life of a processor

`stop_event` deletes the processor of its name without waiting for the loop that uses it, and leaves the name bound to it.

* `Ended s p` : the loop of the processor `p` has returned;
* `Outlives s` : what is deleted has ended and is deleted once, and no frame goes to a processor after `stop_event` of it
  is complete;
* `StopsEnded` : `stop_event` is called for a processor that is there and whose loop has ended;
* `processor_outlives_loop` : then every processor outlives its loop;
* `frame_after_stop` : `stop_event` of an event whose loop has a frame.
-/

namespace RpiCam

open Transition

namespace System

/-- The loop of the processor has returned. -/
def Ended (s : System) (p : ProcessorId) : Prop := ∃ i name, s.caller i = .returned (.event p name)

/-- A thread is the loop of the processor, and has not returned. -/
def Loops (s : System) (i : Tid) (p : ProcessorId) : Prop := ∃ name, s.Runs i (.event p name)

/-- The first mark is not a `stop_event` of the processor that the second one hands a frame to. -/
def Unstopped (m m' : Mark) : Prop := ∀ name p i n b, m = .stopped name p → m' ≠ .handed i (.event p n) b

/-- A deleted processor has ended and no thread is in its loop, none of its frames is handed over after a `stop_event` of
it is complete, and `stop_event` deletes nothing else. -/
structure Outlives (s : System) : Prop where
  deleted : ∀ p ∈ s.handler.deleted, s.Ended p ∧ ∀ i, ¬ s.Loops i p
  handed : s.marks.Pairwise Unstopped
  fault : s.fault = none

/-- The name is bound to a processor whose loop has ended, and that is not deleted. -/
def Stoppable (s : System) (name : Name) : Prop :=
  ∃ p, AList.lookup name s.handler.eventThread = some p ∧ s.Ended p ∧ p ∉ s.handler.deleted

/-- `stop_event` is called for a processor that has ended and is not deleted, and no other call of it is about to do so. -/
def StopsEnded (s : System) : Tid × SysAct → Prop
  | (_, .stopEvent name) => s.Stoppable name ∧ ∀ j, s.caller j ≠ .stopping name
  | _ => True

/-- Each processor has one thread and one name, and `stop_event` is only about processors that have ended. -/
structure Lives (s : System) : Prop where
  fresh : ∀ i p name, (s.caller i).consumer = some (.event p name) → p < s.handler.nextProcessor
  single : ∀ i j p n n', (s.caller i).consumer = some (.event p n) → (s.caller j).consumer = some (.event p n') → i = j
  bound : ∀ n p, AList.lookup n s.handler.eventThread = some p → p < s.handler.nextProcessor
  inj : ∀ n n' p, AList.lookup n s.handler.eventThread = some p → AList.lookup n' s.handler.eventThread = some p → n = n'
  stopping : ∀ i name, s.caller i = .stopping name → s.Stoppable name
  alone : ∀ i j name, s.caller i = .stopping name → s.caller j = .stopping name → i = j
  fault : s.fault = none
  deleted : ∀ p ∈ s.handler.deleted, s.Ended p
  stopped : ∀ name p, .stopped name p ∈ s.marks → s.Ended p
  handed : s.marks.Pairwise Unstopped

theorem Ended.kept {s s' : System} {i : Tid} {a : SysAct} {p : ProcessorId} (hp : s.Ended p)
    (h : Rule s i a (s.caller i) s') : s'.Ended p := by
  obtain ⟨j, name, hj⟩ := hp
  exact ⟨j, name, h.returned_kept hj⟩

/-- The loop that has ended is the only one. -/
theorem Lives.not_loops {s : System} (hs : Lives s) {p : ProcessorId} (hp : s.Ended p) (i : Tid) : ¬ s.Loops i p := by
  rintro ⟨n, hn, hrun⟩
  obtain ⟨j, name, hj⟩ := hp
  have hji : j = i := hs.single j i p name n (by rw [hj]; rfl) hn
  subst hji
  exact hrun _ hj

/-- The consumer of a thread was this one, or it is the loop of a new processor. -/
theorem consumer_event {s s' : System} {i j : Tid} {a : SysAct} (h : Rule s i a (s.caller i) s') {p : ProcessorId}
    {name : Name} (hj : (s'.caller j).consumer = some (.event p name)) :
    (s.caller j).consumer = some (.event p name) ∨
      ∃ event, a = .startEvent event j ∧ p = s.handler.nextProcessor ∧ name = event.eventName := by
  rcases h.consumer_cases j with he | ⟨-, ⟨event, ha, hc⟩ | ⟨c, -, -, hc, hl⟩⟩
  · exact Or.inl (he ▸ hj)
  · rw [hc] at hj
    cases hj
    exact Or.inr ⟨event, ha, rfl, rfl⟩
  · rw [hl] at hj
    rcases hc with rfl | rfl <;> cases hj

theorem nextProcessor_le {s s' : System} {i : Tid} {a : SysAct} (h : Rule s i a (s.caller i) s') :
    s.handler.nextProcessor ≤ s'.handler.nextProcessor := by
  rcases h.handler_cases with ⟨he, -⟩ | ⟨event, t, -, he, -⟩ | ⟨name, p, -, -, -, he, -⟩
  · rw [he]
  · rw [he]
    exact Nat.le_succ _
  · rw [he]
    exact Nat.le_refl _

theorem startEvent_handler {s s' : System} {i t : Tid} {event : EventProcessor}
    (h : Rule s i (.startEvent event t) (s.caller i) s') : s'.handler = s.handler.startEvent event := by
  generalize s.caller i = p at h
  cases h with
  | startEvent => rfl
  | turn ht => cases ht
  | call hc => cases hc

theorem Rule.bound_cases {s s' : System} {i : Tid} {a : SysAct} (h : Rule s i a (s.caller i) s') {name : Name}
    {p : ProcessorId} (hl : AList.lookup name s'.handler.eventThread = some p) :
    AList.lookup name s.handler.eventThread = some p ∨ (p = s.handler.nextProcessor ∧
      s'.handler.nextProcessor = s.handler.nextProcessor + 1 ∧
      ∃ event t, a = .startEvent event t ∧ name = event.eventName) := by
  rcases h.handler_cases with ⟨he, -⟩ | ⟨event, t, ha, he, -⟩ | ⟨m, q, -, -, -, he, -⟩
  · exact Or.inl (he ▸ hl)
  · rw [he, EventHandler.lookup_startEvent] at hl
    split_ifs at hl with hnew
    · cases hl
      exact Or.inr ⟨rfl, by rw [he]; rfl, event, t, ha, hnew.1⟩
    · exact Or.inl hl
  · rw [he] at hl
    exact Or.inl hl

theorem Rule.bound_kept {s s' : System} {i : Tid} {a : SysAct} (h : Rule s i a (s.caller i) s') {name : Name}
    {p : ProcessorId} (hl : AList.lookup name s.handler.eventThread = some p) :
    AList.lookup name s'.handler.eventThread = some p := by
  rcases h.handler_cases with ⟨he, -⟩ | ⟨event, t, -, he, -⟩ | ⟨m, q, -, -, -, he, -⟩
  · exact he ▸ hl
  · rw [he, EventHandler.lookup_startEvent, if_neg]
    · exact hl
    · rintro ⟨rfl, hnone⟩
      rw [hnone] at hl
      cases hl
  · rw [he]
    exact hl

/-- A processor that is deleted was so, or is the one that `stop_event` finds. -/
theorem Rule.deleted_cases {s s' : System} {i : Tid} {a : SysAct} (h : Rule s i a (s.caller i) s') {p : ProcessorId}
    (hp : p ∈ s'.handler.deleted) : p ∈ s.handler.deleted ∨
      ∃ name, s.caller i = .stopping name ∧ s'.caller i = .free ∧ AList.lookup name s.handler.eventThread = some p := by
  rcases h.handler_cases with ⟨he, -⟩ | ⟨event, t, -, he, -⟩ | ⟨name, q, hc, hl, hc', he, -⟩
  · exact Or.inl (he ▸ hp)
  · rw [he] at hp
    exact Or.inl hp
  · rw [he] at hp
    rcases List.mem_append.mp hp with hp | hp
    · exact Or.inl hp
    · rw [List.mem_singleton.mp hp]
      exact Or.inr ⟨name, hc, hc', hl⟩

theorem Lives.stoppable_kept {s s' : System} {i j : Tid} {a : SysAct} {name : Name} (hs : Lives s)
    (h : Rule s i a (s.caller i) s') (hst : s.Stoppable name) (hj : ∀ k, s.caller k = .stopping name → k = j)
    (hj' : s'.caller j = .stopping name) : s'.Stoppable name := by
  obtain ⟨p, hl, hend, hdel⟩ := hst
  refine ⟨p, h.bound_kept hl, hend.kept h, fun hp => ?_⟩
  rcases h.deleted_cases hp with hp | ⟨m, hc, hc', hm⟩
  · exact hdel hp
  · -- thread `i` deletes the processor of this name, so it is thread `j`
    cases hs.inj name m p hl hm
    rw [← hj i hc, hc'] at hj'
    cases hj'

theorem step_lives {s s' : System} {i : Tid} {a : SysAct} (hs : Lives s) (hok : StopsEnded s (i, a))
    (h : Rule s i a (s.caller i) s') : Lives s' where
  fresh j p name hj := by
    rcases consumer_event h hj with hold | ⟨event, rfl, rfl, -⟩
    · exact Nat.lt_of_lt_of_le (hs.fresh j p name hold) (nextProcessor_le h)
    · rw [startEvent_handler h]
      exact Nat.lt_succ_self _
  single j k p n n' hj hk := by
    rcases consumer_event h hj with h1 | ⟨event, rfl, rfl, -⟩ <;>
      rcases consumer_event h hk with h2 | ⟨event', he, hp, -⟩
    · exact hs.single j k p n n' h1 h2
    · exact absurd (hs.fresh j p n h1) (hp ▸ Nat.lt_irrefl _)
    · exact absurd (hs.fresh k _ n' h2) (Nat.lt_irrefl _)
    · cases he
      rfl
  bound n p hl := by
    rcases h.bound_cases hl with hl | ⟨rfl, hnext, -⟩
    · exact Nat.lt_of_lt_of_le (hs.bound n p hl) (nextProcessor_le h)
    · rw [hnext]
      exact Nat.lt_succ_self _
  inj n n' p hl hl' := by
    rcases h.bound_cases hl with h1 | ⟨rfl, -, event, t, ha, hn⟩ <;>
      rcases h.bound_cases hl' with h2 | ⟨hp, -, event', t', ha', hn'⟩
    · exact hs.inj n n' p h1 h2
    · exact absurd (hs.bound n p h1) (hp ▸ Nat.lt_irrefl _)
    · exact absurd (hs.bound n' _ h2) (Nat.lt_irrefl _)
    · rw [ha] at ha'
      cases ha'
      rw [hn, hn']
  stopping j name hj := by
    rcases h.stopping_cases hj with hold | rfl
    · exact hs.stoppable_kept h (hs.stopping j name hold) (fun k hk => hs.alone k j name hk hold) hj
    · exact hs.stoppable_kept h hok.1 (fun k hk => absurd hk (hok.2 k)) hj
  alone j k name hj hk := by
    rcases h.stopping_cases hj with h1 | rfl
    · rcases h.stopping_cases hk with h2 | rfl
      · exact hs.alone j k name h1 h2
      · exact absurd h1 (hok.2 j)
    · exact (h.stopping_of_call hj (hok.2 j)).trans (h.stopping_of_call hk (hok.2 k)).symm
  fault := by
    generalize hp : s.caller i = p at h
    cases h with
    | @deleteFails name f hf =>
      obtain ⟨p, hl, -, hdel⟩ := hs.stopping i name hp
      exact absurd (hf p hl) hdel
    | _ => exact hs.fault
  deleted p hp := by
    rcases h.deleted_cases hp with hp | ⟨name, hc, -, hl⟩
    · exact (hs.deleted p hp).kept h
    · obtain ⟨q, hq, hend, -⟩ := hs.stopping i name hc
      rw [hl, Option.some.injEq] at hq
      exact (hq ▸ hend).kept h
  stopped name p hm := by
    rcases h.handler_cases with ⟨-, hmarks⟩ | ⟨event, t, -, -, hmarks⟩ | ⟨name', q, hc, hl, -, -, hmarks⟩
    · exact (hs.stopped name p (hmarks name p hm)).kept h
    · rw [hmarks] at hm
      exact (hs.stopped name p hm).kept h
    · rw [hmarks] at hm
      rcases List.mem_append.mp hm with hm | hm
      · exact (hs.stopped name p hm).kept h
      · cases List.mem_singleton.mp hm
        obtain ⟨q', hq', hend, -⟩ := hs.stopping i name hc
        rw [hl, Option.some.injEq] at hq'
        exact (hq' ▸ hend).kept h
  handed := by
    rcases h.marks_cases with hm | ⟨m, hm, hhanded⟩
    · rw [hm]
      exact hs.handed
    · rw [hm, List.pairwise_append]
      refine ⟨hs.handed, List.pairwise_singleton _ _, ?_⟩
      rintro m' hm' m'' hm'' name p j n b rfl hb
      rw [List.mem_singleton.mp hm''] at hb
      obtain ⟨rfl, hc⟩ := hhanded j _ b hb
      -- the thread that gets the frame is in the loop of a processor that has ended
      refine hs.not_loops (hs.stopped name p hm') j ⟨n, ?_, fun c => ?_⟩
      · rw [hc]
        rfl
      · rw [hc]
        exact Caller.noConfusion

theorem lives_init (F : Int) : Lives (init F) where
  fresh i p name h := by cases h
  single i j p n n' h := by cases h
  bound n p h := by cases h
  inj n n' p h := by cases h
  stopping i name h := by cases h
  alone i j name h := by cases h
  fault := rfl
  deleted p h := by cases h
  stopped name p h := by cases h
  handed := List.Pairwise.nil

/-- **A processor outlives its loop** in every run where `stop_event` is called for processors that are there and whose
loops have returned. -/
theorem processor_outlives_loop {F : Int} {s : System} (h : Reach (· = init F) step StopsEnded s) : Outlives s := by
  have hs : Lives s := by
    refine Reach.invariant Lives ?_ (fun s a s' hs hok hst => step_lives hs hok (step_sound hst)) h
    rintro s rfl
    exact lives_init F
  exact ⟨fun p hp => ⟨hs.deleted p hp, hs.not_loops (hs.deleted p hp)⟩, hs.handed, hs.fault⟩

def camEvent (enable : Bool) : EventProcessor := ⟨['c', 'a', 'm'], some 30, some enable, some ['s', 'o']⟩

/-- Thread `6` has started the event, for thread `7`. -/
def startedCam (enable : Bool) : System :=
  ((init 30).setHandler (EventHandler.new.startEvent (camEvent enable))).goto 7 (.launched (.event 0 ['c', 'a', 'm']))

/-- Thread `7` registers its event, and calls `pop`. -/
def registering (enable : Bool) : List (Tid × SysAct) :=
  [(7, .insert (.insert ['c', 'a', 'm'] 30 enable)), (7, .queue .run), (7, .queue .run), (7, .queue .run),
    (7, .inserted), (7, .pop)]

/-- The loop of a disabled event ends in its first `pop`, while the event `hall` goes on; then thread `6` stops the
event that has ended. -/
def disabledRun : List (Tid × SysAct) :=
  [(6, .startEvent (camEvent false) 7), (6, .startEvent ⟨"hall".toList, some 30, some true, some ['s', 'o']⟩ 8)] ++
    registering false ++ List.replicate 8 (7, .queue .run) ++
    [(8, .insert (.insert "hall".toList 30 true)), (7, .noFrame), (6, .stopEvent ['c', 'a', 'm'])] ++
    List.replicate 6 (6, .queue .run) ++ [(6, .delete)]

/-- The callers from `n` on are free. -/
def Few (n : Nat) (s : System) : Prop := ∀ j, n ≤ j → s.caller j = .free

/-- The check of `StopsEnded`, where thread `7` is the loop that has ended, and the callers from `9` on are free. -/
def stopsEnded (s : System) (ia : Tid × SysAct) : Bool :=
  decide (ia.1 < 9) && match ia.2 with
    | .stopEvent name => ((List.range 9).all fun j => s.caller j ≠ .stopping name) &&
      (AList.lookup name s.handler.eventThread).any fun p =>
        decide (s.caller 7 = .returned (.event p name)) && decide (p ∉ s.handler.deleted)
    | .startEvent _ t => decide (t < 9)
    | _ => true

theorem stopsEnded_sound (s : System) (ia : Tid × SysAct) (hs : Few 9 s) (h : stopsEnded s ia = true) :
    StopsEnded s ia := by
  obtain ⟨i, a⟩ := ia
  cases a with
  | stopEvent name =>
    simp only [stopsEnded, Bool.and_eq_true, decide_eq_true_eq, Option.any_eq_true, List.all_eq_true,
      List.mem_range] at h
    obtain ⟨-, halone, p, hl, hend, hdel⟩ := h
    refine ⟨⟨p, hl, ⟨7, name, hend⟩, hdel⟩, fun j => ?_⟩
    by_cases hj : j < 9
    · exact halone j hj
    · rw [hs j (Nat.not_lt.mp hj)]
      exact Caller.noConfusion
  | _ => trivial

theorem stopsEnded_few (s : System) (ia : Tid × SysAct) (s' : System) (hs : Few 9 s) (h : stopsEnded s ia = true)
    (hst : step s ia = some s') : Few 9 s' := by
  obtain ⟨i, a⟩ := ia
  simp only [stopsEnded, Bool.and_eq_true, decide_eq_true_eq] at h
  intro j hj
  rcases (step_sound hst).caller_cases j with ⟨he, -⟩ | ⟨-, -, event, rfl, -⟩ | ⟨rfl, -⟩
  · rw [he]
    exact hs j hj
  · exact absurd (of_decide_eq_true h.2) (Nat.not_lt.mpr hj)
  · exact absurd h.1 (Nat.not_lt.mpr hj)

theorem processor_outlives_loop_disabled : ∃ s, run (checked stopsEnded step) (init 30) disabledRun = some s ∧
    s.handler.deleted = [0] ∧ s.caller 8 = .inserting (.event 1 "hall".toList) ∧ Outlives s :=
  ⟨_, rfl, rfl, rfl, processor_outlives_loop (.of_checked_of stopsEnded (Few 9) stopsEnded_sound stopsEnded_few
    (.init rfl) (fun _ _ => rfl) (rfl : run (checked stopsEnded step) (init 30) disabledRun = some _))⟩

/-- Thread `7` has taken a frame when thread `6` stops its event; then it hands the frame over. -/
def stoppedRun : List (Tid × SysAct) :=
  [(6, .startEvent (camEvent true) 7)] ++ registering true ++
    (State.pushingRun ++ State.passingRun).map (fun ia => (ia.1, .queue ia.2)) ++ List.replicate 10 (7, .queue .run) ++
    [(6, .stopEvent ['c', 'a', 'm'])] ++ List.replicate 7 (6, .queue .run) ++ [(6, .delete), (7, .frame)]

/-- **`stop_event` does not wait for the loop.** The processor is deleted while its loop has a frame, and the frame is
handed to its program afterwards. -/
theorem frame_after_stop : ∃ s, Reach (· = init 30) step (fun _ _ => True) s ∧ 0 ∈ s.handler.deleted ∧ s.Loops 7 0 ∧
    ¬ s.marks.Pairwise Unstopped := by
  have hrun : ∃ s, run step (init 30) stoppedRun = some s ∧ s.handler.deleted = [0] ∧
      s.caller 7 = .executing (.event 0 ['c', 'a', 'm']) ∧ ∃ b,
      s.marks = [.stopped ['c', 'a', 'm'] 0, .handed 7 (.event 0 ['c', 'a', 'm']) b] := ⟨_, rfl, rfl, rfl, _, rfl⟩
  obtain ⟨s, hs, hdeleted, hcaller, b, hmarks⟩ := hrun
  refine ⟨s, .of_run (.init rfl) hs, by simp [hdeleted], ⟨['c', 'a', 'm'], by simp [hcaller, Caller.consumer], ?_⟩, ?_⟩
  · intro c hc
    rw [hcaller] at hc
    cases hc
  · intro h
    rw [hmarks] at h
    exact List.rel_of_pairwise_cons h (List.mem_singleton_self _) _ _ _ _ _ rfl rfl

end System

end RpiCam
