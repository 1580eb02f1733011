import RpiCam.VideoQueue.Ownership

/-!
# Releasing a consumer

A consumer that waits in `pop` is woken by `notify_all` on the `ThreadInfo` it waits on. Only a distribution pass calls
it, for the entries of `_thread_info`, and `remove_event` takes the entry away without a notification.

* `Stranded s name t` : `remove_event` returned, and a thread still waits on the removed `ThreadInfo`, not notified;
* `RemovesIdle` : a step erases no entry while another thread is in the wait on it;
* `consumer_released` : in runs of such steps nobody is stranded;
* `removeInfo_strands`, `stranded_consumer` : removing an event whose consumer waits strands it.
-/

namespace RpiCam

open Transition

namespace Pc

/-- In the wait of `pop`, on the condition variable of `cond`. -/
def waitsOn (name : Name) (cond : InfoId) : Pc → Bool
  | popRun n _ c | popEmpty n _ c | popWait n _ c _ | popWake n _ c => n == name && c == cond
  | _ => false

theorem waitsOn_plain (name : Name) (cond : InfoId) (p : Pc) : p.plain.waitsOn name cond = p.waitsOn name cond := by
  cases p <;> rfl

end Pc

namespace State

/-- `remove_event` took the `ThreadInfo` away, and a thread waits on it with no notification pending. -/
def Stranded (s : State) (name : Name) (t : InfoId) : Prop :=
  .removed name t ∈ s.log ∧ AList.lookup name s.data.threadInfo ≠ some t ∧
    ∃ i info, s.pc i = .popWait name info t false

/-- The step erases no entry while another thread is in the wait on it. -/
def RemovesIdle (s : State) : Tid × Act → Prop
  | (i, _) => ∀ name, (s.pc i).erasesInfo name = true → ∀ t, AList.lookup name s.data.threadInfo = some t →
    ∀ j, j ≠ i → (s.pc j).waitsOn name t = false

/-- What a thread waits on is registered. -/
def WaitsRegistered (s : State) : Prop :=
  ∀ j name t, (s.pc j).waitsOn name t = true → AList.lookup name s.data.threadInfo = some t

theorem WaitsRegistered.self {s s' : State} {i : Tid} {a : Act} (hs : WaitsRegistered s)
    (h : Step s i a (s.pc i) s') {name : Name} {t : InfoId} (hw : (s'.pc i).waitsOn name t = true) :
    AList.lookup name s'.data.threadInfo = some t := by
  have hi := hs i name t
  generalize hpc : s.pc i = p at h hi
  cases h
  case move p' hm =>
    simp only [goto_pc, Function.update_self] at hw
    simp only [goto_data]
    cases hm <;> simp only [Pc.waitsOn, Bool.and_eq_true, beq_iff_eq, Bool.false_eq_true] at hi hw
    case popCond n info cond hl =>
      obtain ⟨rfl, rfl⟩ := hw
      exact hl
    all_goals exact hi hw
  case lockInput p' hfree hm => cases hm <;> simp [Pc.waitsOn] at hw
  case lockThreadInfo p' hfree hm => cases hm <;> simp [Pc.waitsOn] at hw
  case lockInfo p' info hfree hm =>
    simp only [goto_pc, Function.update_self] at hw
    cases hm
    · cases hw
    · exact hi hw
    · cases hw
  case fail f hm =>
    rw [fail_pc, hpc] at hw
    exact hi hw
  case popBlock n info cond q hl hq =>
    simp only [goto_pc, Function.update_self] at hw
    exact hi hw
  all_goals simp [Pc.waitsOn] at hw

theorem step_waitsRegistered {s s' : State} {i : Tid} {a : Act} (hs : WaitsRegistered s)
    (hok : RemovesIdle s (i, a)) (h : Step s i a (s.pc i) s') : WaitsRegistered s' := by
  intro j name t hw
  by_cases hj : j = i
  · subst hj
    exact hs.self h hw
  · rw [← Pc.waitsOn_plain, h.plain_of_ne hj, Pc.waitsOn_plain] at hw
    have hm := hs j name t hw
    refine h.lookup_kept hm ?_
    by_contra he
    rw [hok name (by simpa using he) t hm j hj] at hw
    cases hw

/-- **Nobody is stranded** in a run whose steps erase no entry while another thread is in the wait on it. -/
theorem consumer_released {F : Int} {s : State} (h : Reach (· = init F) step RemovesIdle s) (name : Name)
    (t : InfoId) : ¬ Stranded s name t := by
  have hs : WaitsRegistered s := by
    refine Reach.invariant WaitsRegistered ?_ (fun s a s' hs hok hst => step_waitsRegistered hs hok (step_sound hst)) h
    rintro s rfl j name t hw
    rcases init_pc F j with hj | hj <;> rw [hj] at hw <;> cases hw
  rintro ⟨-, hne, i, info, hpc⟩
  exact hne (hs i name t (by simp [hpc, Pc.waitsOn]))

/-- The check of `RemovesIdle` at the place of the thread, where the threads from `9` on are idle. -/
def removesIdle (s : State) (ia : Tid × Act) : Bool :=
  decide (ia.1 < 9) && match s.pc ia.1 with
    | .removeInfo n _ | .popErase n _ =>
      (AList.lookup n s.data.threadInfo).all fun t => noOther 9 s ia.1 (Pc.waitsOn n t)
    | _ => true

theorem removesIdle_sound {s : State} {ia : Tid × Act} (hs : Few 9 s) (h : removesIdle s ia = true) :
    RemovesIdle s ia := by
  obtain ⟨i, a⟩ := ia
  intro name he t hl j hj
  simp only [removesIdle, Bool.and_eq_true] at h
  cases hpc : s.pc i <;> simp only [hpc, Pc.erasesInfo, beq_iff_eq, Bool.false_eq_true] at h he <;> subst he <;>
    rw [hl] at h
  · exact noOther_sound hs rfl h.2 hj
  · exact noOther_sound hs rfl h.2 hj

/-- Thread `7` waits, is woken by a frame and takes it; then thread `6` removes `cam`. -/
def servedRun : List (Tid × Act) :=
  waitingRun ++ pushingRun ++ passingRun ++ (7, .wake) :: List.replicate 6 (7, .run) ++ removingRun

theorem consumer_released_served : ∃ s, run (checked removesIdle step) (init 30) servedRun = some s ∧
    .removed ['c', 'a', 'm'] 0 ∈ s.log ∧ ¬ Stranded s ['c', 'a', 'm'] 0 :=
  ⟨_, rfl, by decide, consumer_released (reach_of_few (by decide) removesIdle
    (fun _ _ h => of_decide_eq_true (Bool.and_eq_true_iff.mp h).1) (fun _ _ => removesIdle_sound)
    (rfl : run (checked removesIdle step) (init 30) servedRun = some _)) _ _⟩

/-- The last step of `remove_event` strands every thread that waits and was not notified before. -/
theorem removeInfo_strands {s s' : State} {i j : Tid} {a : Act} {name : Name} {info t : InfoId}
    (hpc : s.pc i = .removeInfo name t) (hw : s.pc j = .popWait name info t false)
    (h : step s (i, a) = some s') : Stranded s' name t := by
  have hj : j ≠ i := by
    rintro rfl
    rw [hpc] at hw
    cases hw
  have hst := step_sound h
  rw [hpc] at hst
  rw [step_removeInfo_inv hst]
  refine ⟨by simp, by simp [VideoQueue.eraseThreadInfo], j, info, ?_⟩
  simpa [Function.update_of_ne hj] using hw

/-- **A removed event keeps its consumer.** The consumer waits, `remove_event` returns, and no notification is on its
way. -/
theorem stranded_consumer : ∃ s, Reach (· = init 30) step (fun _ _ => True) s ∧ Stranded s ['c', 'a', 'm'] 0 :=
  ⟨_, .of_run (.init rfl) (rfl : run step (init 30) (waitingRun ++ removingRun) = some _), by decide, by decide,
    7, 0, rfl⟩

end State

end RpiCam
