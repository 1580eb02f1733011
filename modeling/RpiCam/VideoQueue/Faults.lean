import RpiCam.VideoQueue.History
import RpiCam.VideoQueue.Wakeup

/-!
# No fault

`Machine.lean` has five faults: a division by zero, an entry or a queue that is not there, an empty queue, an iterator
whose entry is gone. Where the callers keep to `Feeds` there is none of them, with any number of consumers of
any event.

* `Pc.iterator`, `Pc.ready` : the entry a pass is at, and the one a consumer takes a frame from;
* `Sane` : the divisors are not zero, the entry of a pass is there, and whoever takes a frame finds one;
* `faultless` : in every run.
-/

namespace RpiCam

open Transition

namespace Pc

/-- The entry that the iterator of a pass is at. -/
def iterator : Pc → Option (Name × InfoId)
  | distVisit _ _ left _ => left
  | distDue _ _ n t _ | distEntry _ _ n t _ | distCopy _ _ n t _ => some (n, t)
  | _ => none

/-- The name, and the `ThreadInfo` whose mutex the consumer has, past the test of line 173. -/
def ready : Pc → Option (Name × InfoId)
  | popTest n t | popFront n t | popPop n t _ => some (n, t)
  | _ => none

theorem iterator_plain (p : Pc) : p.plain.iterator = p.iterator := by cases p <;> rfl

theorem ready_plain (p : Pc) : p.plain.ready = p.ready := by cases p <;> rfl

theorem holdsInfo_of_ready {p : Pc} {n : Name} {t : InfoId} (h : p.ready = some (n, t)) : p.holdsInfo t = true := by
  cases p <;> simp only [ready, Option.some.injEq, Prod.mk.injEq, reduceCtorEq] at h <;> simp [holdsInfo, h]

theorem removes_of_deletes {p : Pc} {n : Name} (h : p.deletes n = true) : p.removes n = true := by
  cases p <;> first | exact h | cases h

end Pc

namespace State

/-- The divisors are not zero, the entry of a pass is there, and who takes a frame finds one. -/
structure Sane (s : State) : Prop where
  divisor : ∀ n t, AList.lookup n s.data.threadInfo = some t → (s.data.infos t).fps ≠ 0
  iterator : ∀ j n t, (s.pc j).iterator = some (n, t) → AList.lookup n s.data.threadInfo = some t
  input : ∀ j, s.pc j = .distTake → s.data.input ≠ []
  ready : ∀ j n t, (s.pc j).ready = some (n, t) →
    AList.lookup n s.data.threadInfo = some t ∧ s.data.queued n ≠ []

/-! ## The divisors -/

theorem Feeds.delivers {s : State} {i : Tid} {a : Act} (h : Feeds s (i, a)) : ∃ e, Delivers e s (i, a) := by
  have hinsert : ∀ n fps r, a = .call (.insert n fps r) → 1 ≤ fps ∧ fps ≤ s.data.deviceFps :=
    fun n fps r ha => ⟨(h.1 n fps r ha).1, (h.1 n fps r ha).2.1⟩
  by_cases hp : ∃ n, a = .call (.pop n)
  · obtain ⟨n, rfl⟩ := hp
    refine ⟨'x' :: n, hinsert, h.2.1, h.2.2 _, ?_⟩
    simp
  · exact ⟨[], hinsert, h.2.1, h.2.2 _, fun ha => absurd ⟨[], ha⟩ hp⟩

theorem divisor_ne_zero {F f : Int} (h : 1 ≤ f ∧ f ≤ F) : F.tdiv f ≠ 0 := by
  have hpos : 1 ≤ F / f := Int.le_ediv_of_mul_le (by omega) (by omega)
  rw [Int.tdiv_eq_ediv_of_nonneg (by omega)]
  omega

theorem divisor_step {s s' : State} {i : Tid} {a : Act} (hc : Coherent s) (ho : OwnInfos s) (hst : Steady s)
    (hs : Sane s) (h : Step s i a (s.pc i) s') {n : Name} {t : InfoId}
    (hl : AList.lookup n s'.data.threadInfo = some t) : (s'.data.infos t).fps ≠ 0 := by
  -- the thread that steps does not register a `ThreadInfo` that is registered
  have hother : ∀ m, AList.lookup n s.data.threadInfo = some t → s.pc i ≠ .insertInfo m t := by
    intro m hl hpc
    exact ho.unregistered i t n (by rw [hpc]; rfl) hl
  rcases h.threadInfo_cases with he | ⟨m, u, hpc, -, -, hd⟩ | ⟨m, hpc, -, -⟩
  · rw [he] at hl
    rcases h.infos_cases (hc.infoFresh n t hl) with hi | ⟨m, hpc, -, -⟩ | ⟨m, -, -, hi⟩
    · rw [hi]
      exact hs.divisor n t hl
    · exact absurd hpc (hother m hl)
    · rw [hi]
      exact hs.divisor n t hl
  · rw [hd] at hl ⊢
    simp only [VideoQueue.enterInfo, UnorderedMap.lookup_emplace] at hl ⊢
    split_ifs at hl with hn
    · cases hl
      rw [Function.update_self]
      exact divisor_ne_zero (ho.request i t (by rw [hpc]; rfl))
    · have htu : t ≠ u := by
        rintro rfl
        exact hother m hl hpc
      rw [Function.update_of_ne htu]
      exact hs.divisor n t hl
  · have herase := hst.erasesInfo i m
    rcases hpc with ⟨u, hpc⟩ | ⟨u, hpc⟩ <;> rw [hpc] at herase <;> simp [Pc.erasesInfo] at herase

/-! ## The entry of a pass -/

theorem Step.iterator_self {s s' : State} {i : Tid} {a : Act} (h : Step s i a (s.pc i) s') {n : Name} {t : InfoId}
    (hl : (s'.pc i).iterator = some (n, t)) :
    (s.pc i).iterator = some (n, t) ∨ AList.lookup n s.data.threadInfo = some t := by
  generalize hpc : s.pc i = p at h ⊢
  cases h
  case move p' hm =>
    simp only [goto_pc, Function.update_self] at hl
    cases hm <;> simp only [Pc.iterator, Option.some.injEq, Prod.mk.injEq, reduceCtorEq] at hl ⊢
    case distReach b u left m info rest hk =>
      obtain ⟨rfl, rfl⟩ := hl
      exact Or.inr hk
    all_goals exact Or.inl hl
  case lockInput p' hfree hm => cases hm <;> simp [Pc.iterator] at hl
  case lockThreadInfo p' hfree hm => cases hm <;> simp [Pc.iterator] at hl
  case lockInfo p' u hfree hm =>
    simp only [goto_pc, Function.update_self] at hl
    cases hm
    · cases hl
    · cases hl
    · exact Or.inl hl
  case distCopy b u m info rest v hk hc =>
    simp only [goto_pc, Function.update_self, Pc.iterator, Option.some.injEq, Prod.mk.injEq] at hl
    obtain ⟨rfl, rfl⟩ := hl
    exact Or.inl rfl
  case fail f hm => exact Or.inl (by rw [fail_pc, hpc] at hl; exact hl)
  all_goals simp [Pc.iterator] at hl

theorem iterator_step {s s' : State} {i : Tid} {a : Act} (hst : Steady s) (hs : Sane s) (h : Step s i a (s.pc i) s')
    {j : Tid} {n : Name} {t : InfoId} (hl : (s'.pc j).iterator = some (n, t)) :
    AList.lookup n s'.data.threadInfo = some t := by
  refine h.lookup_kept ?_ (hst.erasesInfo i n)
  by_cases hj : j = i
  · subst hj
    exact (h.iterator_self hl).elim (hs.iterator j n t) id
  · rw [← Pc.iterator_plain, h.plain_of_ne hj, Pc.iterator_plain] at hl
    exact hs.iterator j n t hl

/-! ## The frame of a pass -/

/-- Only line 204 takes frames out of `_input`. -/
theorem Step.input_kept {s s' : State} {i : Tid} {a : Act} (h : Step s i a (s.pc i) s') (hpc : s.pc i ≠ .distTake)
    (hin : s.data.input ≠ []) : s'.data.input ≠ [] := by
  generalize s.pc i = p at h hpc
  cases h
  case pushInput b waiter hn => simp [VideoQueue.push]
  case distTake b t v hi => exact absurd rfl hpc
  case distCopy b t name info rest v hl hc =>
    simp only [goto_data, setInfo_data, setData_data]
    rw [(VideoQueue.copyTo_extends hc).input]
    exact hin
  all_goals exact hin

/-- A thread comes to line 204 with a frame in `_input`. -/
theorem Step.takes_self {s s' : State} {i : Tid} {a : Act} (h : Step s i a (s.pc i) s') (hpc' : s'.pc i = .distTake) :
    s'.data.input = s.data.input ∧ (s.pc i = .distTake ∨ s.data.input ≠ []) := by
  generalize hpc : s.pc i = p at h ⊢
  cases h
  case move p' hm =>
    simp only [goto_pc, Function.update_self] at hpc'
    cases hm <;> simp only [reduceCtorEq] at hpc'
    case distTest b rest hin => exact ⟨rfl, Or.inr (by rw [hin]; simp)⟩
  case lockInput p' hfree hm => cases hm <;> simp at hpc'
  case lockThreadInfo p' hfree hm => cases hm <;> simp at hpc'
  case lockInfo p' u hfree hm => cases hm <;> simp at hpc'
  case fail f hm => exact ⟨rfl, Or.inl (by rw [fail_pc, hpc] at hpc'; exact hpc')⟩
  all_goals simp at hpc'

theorem input_step {s s' : State} {i : Tid} {a : Act} (hl : Locked s) (hs : Sane s) (h : Step s i a (s.pc i) s')
    {j : Tid} (hpc' : s'.pc j = .distTake) : s'.data.input ≠ [] := by
  by_cases hj : j = i
  · subst hj
    obtain ⟨he, hpc | hin⟩ := h.takes_self hpc'
    · rw [he]
      exact hs.input j hpc
    · rw [he]
      exact hin
  · have hpc : s.pc j = .distTake := (h.pc_of_ne hj rfl).mp hpc'
    refine h.input_kept ?_ (hs.input j hpc)
    intro hi
    exact hj (hl.input.unique (by rw [hpc]; rfl) (by rw [hi]; rfl))

/-! ## The frame of a consumer -/

/-- A consumer comes to line 177 with a frame in its queue, for its event runs. -/
theorem Step.ready_self {s s' : State} {i : Tid} {a : Act} (h : Step s i a (s.pc i) s') {n : Name} {t : InfoId}
    (hr : (s'.pc i).ready = some (n, t)) :
    s'.data = s.data ∧ ((s.pc i).ready = some (n, t) ∨
      (s.pc i).locksFor = some (n, t) ∧ (s.data.queued n ≠ [] ∨
        ∃ u, AList.lookup n s.data.threadInfo = some u ∧ (s.data.infos u).isRun = false)) := by
  generalize hpc : s.pc i = p at h ⊢
  cases h
  case move p' hm =>
    simp only [goto_pc, Function.update_self] at hr
    refine ⟨rfl, ?_⟩
    cases hm <;> simp only [Pc.ready, Option.some.injEq, Prod.mk.injEq, reduceCtorEq] at hr ⊢
    case popStopped m u c v hk hrun =>
      obtain ⟨rfl, rfl⟩ := hr
      exact Or.inr ⟨rfl, Or.inr ⟨v, hk, hrun⟩⟩
    case popReady m u c q b rest ho hq =>
      obtain ⟨rfl, rfl⟩ := hr
      exact Or.inr ⟨rfl, Or.inl (by rw [queued_of_lookup ho hq]; simp)⟩
    all_goals exact Or.inl hr
  case lockInput p' hfree hm => cases hm <;> simp [Pc.ready] at hr
  case lockThreadInfo p' hfree hm => cases hm <;> simp [Pc.ready] at hr
  case lockInfo p' u hfree hm => cases hm <;> simp [Pc.ready] at hr
  case fail f hm => exact ⟨rfl, Or.inl (by rw [fail_pc, hpc] at hr; exact hr)⟩
  all_goals simp [Pc.ready] at hr

/-- The consumer has the mutex of the entry, so nobody else takes its frame. -/
theorem queued_kept {s s' : State} {i : Tid} {a : Act} (hl : Locked s) (hc : Coherent s) (hst : Steady s) (hs : Sane s)
    (h : Step s i a (s.pc i) s') {j : Tid} (hj : j ≠ i) {n : Name} {t : InfoId} (hr : (s.pc j).ready = some (n, t)) :
    s'.data.queued n ≠ [] := by
  obtain ⟨hlook, hne⟩ := hs.ready j n t hr
  obtain ⟨q, b, rest, ho, hq⟩ := exists_queue hne
  have ho' := h.output_lookup hc ho (by rw [hq]; simp)
  cases h.queue (hc.queueFresh n q ho) with
  | keep he =>
    rw [queued_of_lookup ho' (he.trans hq)]
    simp
  | append _ _ _ he =>
    rw [queued_of_lookup ho' he]
    simp
  | @drain m info c l hpc _ _ =>
    have hrm := hst.removes i m
    rw [hpc] at hrm
    simp [Pc.removes] at hrm
  | @delete m info hpc _ _ _ =>
    have hrm := hst.removes i m
    rw [hpc] at hrm
    simp [Pc.removes] at hrm
  | @pop m info c d l hpc hom _ _ =>
    have hmn : m = n := hc.inj m n q hom ho
    subst hmn
    have hri : (s.pc i).ready = some (m, info) := by rw [hpc]; rfl
    have hlook' := (hs.ready i m info hri).1
    rw [hlook, Option.some.injEq] at hlook'
    subst hlook'
    exact absurd ((hl.info t).unique (Pc.holdsInfo_of_ready hr) (Pc.holdsInfo_of_ready hri)) hj

theorem ready_step {s s' : State} {i : Tid} {a : Act} (hl : Locked s) (hc : Coherent s) (hst : Steady s)
    (hw : Watching s) (hs : Sane s) (h : Step s i a (s.pc i) s') {j : Tid} {n : Name} {t : InfoId}
    (hr : (s'.pc j).ready = some (n, t)) :
    AList.lookup n s'.data.threadInfo = some t ∧ s'.data.queued n ≠ [] := by
  by_cases hj : j = i
  · subst hj
    obtain ⟨hd, hold | ⟨hlock, hne | ⟨u, hu, hrun⟩⟩⟩ := h.ready_self hr
    · rw [hd]
      exact hs.ready j n t hold
    · rw [hd]
      exact ⟨hw.locks j n t hlock, hne⟩
    · rw [hst.registered n u hu] at hrun
      cases hrun
  · have hold : (s.pc j).ready = some (n, t) := by
      rw [← Pc.ready_plain, h.plain_of_ne hj, Pc.ready_plain] at hr
      exact hr
    exact ⟨h.lookup_kept (hs.ready j n t hold).1 (hst.erasesInfo i n), queued_kept hl hc hst hs h hj hold⟩

/-! ## Every run -/

theorem sane_init (F : Int) : Sane (init F) where
  divisor n t h := by simp [init, VideoQueue.new] at h
  iterator j n t h := by rcases init_pc F j with hj | hj <;> rw [hj] at h <;> cases h
  input j h := by rcases init_pc F j with hj | hj <;> rw [hj] at h <;> cases h
  ready j n t h := by rcases init_pc F j with hj | hj <;> rw [hj] at h <;> cases h

theorem Steady.keepsEntries {s : State} (hst : Steady s) (ia : Tid × Act) : KeepsEntries s ia := by
  intro n
  refine ⟨?_, ?_, ?_⟩
  · intro he
    rw [hst.erasesInfo ia.1 n] at he
    cases he
  · rintro ⟨t, hpc⟩
    exact absurd hpc (hst.erases ia.1 n t)
  · intro hd
    have hr := Pc.removes_of_deletes hd
    rw [hst.removes ia.1 n] at hr
    cases hr

/-- What keeps a step from faulting. -/
structure Safe (s : State) : Prop where
  own : OwnInfos s
  found : Found s
  sane : Sane s
  fault : s.fault = none

theorem step_sane {s s' : State} {i : Tid} {a : Act} (hl : Locked s) (hc : Coherent s) (hst : Steady s)
    (hw : Watching s) (ho : OwnInfos s) (hs : Sane s) (h : Step s i a (s.pc i) s') : Sane s' where
  divisor _ _ := divisor_step hc ho hst hs h
  iterator _ _ _ := iterator_step hst hs h
  input _ := input_step hl hs h
  ready _ _ _ := ready_step hl hc hst hw hs h

theorem Safe.no_failure {s : State} (hc : Coherent s) (hst : Steady s) (hs : Safe s) (i : Tid) (f : Fault) :
    ¬ Fails s (s.pc i) f := by
  intro hf
  have hsane := hs.sane
  -- nobody is in `remove_event`, so no queue of an entry is deleted
  have hqueue : ∀ n q, AList.lookup n s.data.output = some q → s.data.queues q ≠ none := by
    intro n q ho
    rcases hc.live n q ho with hq | ⟨j, hj⟩
    · exact hq
    · have hr := Pc.removes_of_deletes hj
      rw [hst.removes j n] at hr
      cases hr
  have hinfo := hs.found.info i
  have houtput := hs.found.output i
  have hready := hsane.ready i
  have hiter := hsane.iterator i
  have hremoves := hst.removes i
  have hinput := hsane.input i
  have hrequest := hs.own.request i
  generalize s.pc i = p at hf hinfo houtput hready hiter hremoves hinput hrequest
  cases hf with
  | insertZero _ hz =>
    have := hrequest _ rfl
    omega
  | dueZero hk hz => exact hsane.divisor _ _ hk hz
  | @popMutex n hk | @popCond n _ hk | @popRun n _ _ hk | @popTest n _ hk =>
    exact AList.lookup_eq_none.mp hk (hinfo n (by simp [Pc.needsInfo]))
  | @popEmpty n _ _ hk | @popFront n _ hk | @popPop n _ _ hk =>
    exact AList.lookup_eq_none.mp hk (houtput n (by simp [Pc.needsOutput, Pc.needsInfo]))
  | @drainDeleted n _ _ _ | @deleteDeleted n _ _ _ | @removeDeleted n _ _ _ | @deleteEmpty n _ _ _
  | @removeEmptied n _ _ _ | @touchDangling n _ _ _ | @removeDangling n _ _ =>
    have hr := hremoves n
    simp [Pc.removes] at hr
  | emptyDeleted ho hq | frontDeleted ho hq | popDeleted ho hq | copyDeleted ho hq => exact hqueue _ _ ho hq
  | frontEmpty ho hq | popEmptied ho hq => exact (hready _ _ rfl).2 (queued_of_lookup ho hq)
  | inputEmpty hin => exact hinput rfl hin
  | leftDangling hk | dueDangling hk | entryDangling hk | copyDangling hk => exact hk (hiter _ _ rfl)

theorem Step.fault_cases {s s' : State} {i : Tid} {a : Act} (h : Step s i a (s.pc i) s') :
    s'.fault = s.fault ∨ ∃ f, Fails s (s.pc i) f := by
  generalize s.pc i = p at h
  cases h
  case fail f hf => exact Or.inr ⟨f, hf⟩
  all_goals exact Or.inl rfl

theorem reach_safe {F : Int} {s : State} (h : Reach (· = init F) step Feeds s) : Safe s := by
  have hknown : ∀ s, Reach (· = init F) step Feeds s → (Locked s ∧ Coherent s) ∧ Steady s ∧ Watching s ∧ Attended s :=
    fun s hr => ⟨reach_coherent hr, reach_wakeup hr⟩
  refine h.invariant_of Safe hknown ?_ ?_
  · rintro s rfl
    exact ⟨ownInfos_init F, found_init F, sane_init F, rfl⟩
  · rintro s ⟨i, a⟩ s' ⟨⟨hl, hc⟩, hst, hw, -⟩ hs hok hstep
    have hrule := step_sound hstep
    obtain ⟨e, he⟩ := hok.delivers
    refine ⟨step_ownInfos hc hs.own he hrule, step_found hl hc hs.found (hst.keepsEntries _) hrule,
      step_sane hl hc hst hw hs.own hs.sane hrule, ?_⟩
    rcases hrule.fault_cases with hf | ⟨f, hf⟩
    · exact hf.trans hs.fault
    · exact absurd hf (hs.no_failure hc hst i f)

/-- **The queue never faults.** Whatever interleaving of pushes, passes, registrations and any number of consumers: as
long as every event gets a `ThreadInfo` of its own with a rate of the device, and none is removed, nothing is divided by
zero, and no absent entry, deleted or empty queue or dangling iterator is used. -/
theorem faultless {F : Int} {s : State} (h : Reach (· = init F) step Feeds s) : s.fault = none := (reach_safe h).fault

theorem faultless_frame : ∃ s, run (checked feeding step) (init 30)
    (waitingRun ++ pushingRun ++ passingRun ++ [(7, .wake), (7, .run), (7, .run), (7, .run), (7, .run), (7, .run),
      (7, .run)]) = some s ∧ poppedOf ['c', 'a', 'm'] s.log ≠ [] ∧ s.fault = none :=
  ⟨_, rfl, by decide, faultless (.of_checked feeding feeds_of_feeding (.init rfl)
    (rfl : run (checked feeding step) (init 30) (waitingRun ++ pushingRun ++ passingRun ++
      [(7, .wake), (7, .run), (7, .run), (7, .run), (7, .run), (7, .run), (7, .run)]) = some _))⟩

end State

end RpiCam
