import RpiCam.VideoQueue.Maps

/-!
# The methods as runs of one thread

`Basic` has each method as one function; in `Machine` a method is the steps of a thread. Where nobody else is inside, a
thread that runs alone computes the function.

* `Solo i s s'` : the actions of thread `i` alone bring `s` to `s'`;
* `insertEvent_solo`, `removeEvent_solo`, `push_solo`, `pop_solo`, `distributeBuffer_solo` : the five methods;
* `calls_reached` : so every sequence of calls is a run of the machine;
* `VideoQueue.queue_of_registered` : what `Coherent` says of the states between calls.
-/

namespace RpiCam

open Transition

namespace State

/-- The actions of thread `i` alone bring `s` to `s'`. -/
def Solo (i : Tid) (s s' : State) : Prop := ∃ acts : List Act, run step s (acts.map fun a => (i, a)) = some s'

theorem Solo.refl (i : Tid) (s : State) : Solo i s s := ⟨[], rfl⟩

theorem Solo.trans {i : Tid} {s t u : State} (h : Solo i s t) (h' : Solo i t u) : Solo i s u := by
  obtain ⟨as, ha⟩ := h
  obtain ⟨bs, hb⟩ := h'
  refine ⟨as ++ bs, ?_⟩
  rw [List.map_append, run_append, ha]
  exact hb

theorem Solo.act {i : Tid} {a : Act} {s t u : State} (h : step s (i, a) = some t) (h' : Solo i t u) : Solo i s u := by
  obtain ⟨as, ha⟩ := h'
  refine ⟨a :: as, ?_⟩
  rw [List.map_cons, run_cons, h]
  exact ha

theorem Solo.reach {i : Tid} {s s' : State} {start : State → Prop} (h : Solo i s s')
    (hs : Reach start step (fun _ _ => True) s) : Reach start step (fun _ _ => True) s' := by
  obtain ⟨acts, h⟩ := h
  exact .of_run hs h

/-! ## One step of a thread -/

section

variable {s s' : State} {i : Tid} {p : Pc}

theorem step_call {r : Request} (hf : s.fault = none) (hpc : s.pc i = .idle) (h : s.start i r = some s') :
    step s (i, .call r) = some s' := by
  simp only [step, hf, hpc, ne_eq, not_true_eq_false, if_false]
  exact h

theorem step_run (hf : s.fault = none) : step s (i, .run) = (s.runPush i (s.pc i)).or ((s.runInsert i (s.pc i)).or
    ((s.runRemove i (s.pc i)).or ((s.runPop i (s.pc i)).or (s.runDistribute i (s.pc i))))) := by
  simp only [step, hf, ne_eq, not_true_eq_false, if_false]

theorem step_remove (hf : s.fault = none) (hpc : s.pc i = p) (h : s.runRemove i p = some s') :
    step s (i, .run) = some s' := by
  rw [step_run hf, hpc, h]
  cases p <;> first | rfl | cases h

theorem step_pop (hf : s.fault = none) (hpc : s.pc i = p) (h : s.runPop i p = some s') :
    step s (i, .run) = some s' := by
  rw [step_run hf, hpc, h]
  cases p <;> first | rfl | cases h

end

/-! ## The methods -/

structure Free (s : State) : Prop where
  fault : s.fault = none
  input : s.inputMutex = none
  threadInfo : s.threadInfoMutex = none
  info : ∀ t, s.infoMutex t = none
  noWait : ∀ j, (s.pc j).waits = false

/-- Thread `i` alone comes to `p` with the data `v`, and leaves all but the log as it was. -/
def Ends (i : Tid) (s : State) (v : VideoQueue) (p : Pc) : Prop :=
  ∃ log, Solo i s { s with data := v, pc := Function.update s.pc i p, log := log }

theorem noWait_update {pc : Tid → Pc} (h : ∀ j, (pc j).waits = false) (i : Tid) {p : Pc} (hp : p.waits = false)
    (j : Tid) : (Function.update pc i p j).waits = false := by
  by_cases hj : j = i
  · rw [hj, Function.update_self]
    exact hp
  · rw [Function.update_of_ne hj]
    exact h j

theorem Free.ends {s : State} (hs : Free s) (i : Tid) (v : VideoQueue) {p : Pc} (hp : p.waits = false)
    (log : List Event) : Free { s with data := v, pc := Function.update s.pc i p, log := log } :=
  ⟨hs.fault, hs.input, hs.threadInfo, hs.info, noWait_update hs.noWait i hp⟩

theorem insertEvent_solo {s : State} {i : Tid} {name : Name} {info : InfoId} {v : VideoQueue} {r : Int} (hs : Free s)
    (hpc : s.pc i = .idle) (hi : info < s.data.nextInfo) (h : s.data.insertEvent name info = .done v r) :
    Ends i s v .idle := by
  have hti := hs.threadInfo
  rcases VideoQueue.insertEvent_done h with ⟨⟨t, hl⟩, rfl, -⟩ | ⟨hl, hf, rfl, -⟩
  · refine ⟨s.log, [.call (.insertAgain name info), .run, .run], ?_⟩
    simp [run_cons, step, hs.fault, hpc, start, hi, runPush, runInsert, hti, hl, goto, setThreadInfo]
  · refine ⟨s.log ++ [.registered name info (s.data.infos info).fps (s.data.infos info).isRun],
      [.call (.insertAgain name info), .run, .run, .run], ?_⟩
    simp [run_cons, step, hs.fault, hpc, start, hi, runPush, runInsert, hti, hl, hf, goto, setThreadInfo, setData,
      note, VideoQueue.registered]

theorem drain_solo {s : State} {i : Tid} {name : Name} {q : QueueId} {info : Option InfoId} {l : List BufferRef}
    (hf : s.fault = none) (hpc : s.pc i = .removeDrain name (some q) info) (hq : s.data.queues q = some l) :
    Solo i s ((s.setData ((VideoQueue.drain q l s.data).deleteQueue q)).goto i (.removeErase name info)) := by
  induction l generalizing s with
  | nil => exact .act (step_remove hf hpc (by simp [runRemove, hq, VideoQueue.drain])) (.refl ..)
  | cons b rest ih =>
    have hfront : Solo i s ((s.setData ((s.data.deleteBuffer b).popFront q rest)).goto i
        (.removeDrain name (some q) info)) := by
      refine ⟨[.run, .run, .run], ?_⟩
      simp [run_cons, step, hf, hpc, runPush, runInsert, runRemove, hq, goto, setData, VideoQueue.deleteBuffer]
    refine hfront.trans ?_
    have hrest := ih (s := (s.setData ((s.data.deleteBuffer b).popFront q rest)).goto i (.removeDrain name (some q) info))
      hf (Function.update_self ..) (by simp [VideoQueue.popFront])
    simpa only [goto, setData, Function.update_idem, VideoQueue.drain] using hrest

theorem removeOutput_solo {s : State} {i : Tid} {name : Name} {info : Option InfoId} {w : VideoQueue}
    (hf : s.fault = none) (hpc : s.pc i = .removeDrain name (AList.lookup name s.data.output) info)
    (h : s.data.removeOutput name = .done w ()) :
    Solo i s ((s.setData w).goto i (.removeStop name info)) := by
  unfold VideoQueue.removeOutput at h
  cases ho : AList.lookup name s.data.output with
  | none =>
    rw [ho] at h hpc
    cases h
    exact .act (step_remove hf hpc rfl) (.refl ..)
  | some q =>
    rw [ho] at h hpc
    cases hq : s.data.queues q with
    | none => simp [hq] at h
    | some l =>
      simp only [hq] at h
      cases h
      refine (drain_solo hf hpc hq).trans (.act (step_remove hf (Function.update_self ..) rfl) ?_)
      simp only [goto, setData, Function.update_idem]
      exact .refl ..

theorem removeEvent_solo {s : State} {i : Tid} {name : Name} {v : VideoQueue} {r : Int} (hs : Free s)
    (hpc : s.pc i = .idle) (h : s.data.removeEvent name = .done v r) : Ends i s v .idle := by
  have hti := hs.threadInfo
  -- to line 100
  have h1 : Solo i s ((s.setThreadInfo (some i)).goto i (.removeDrain name (AList.lookup name s.data.output)
      (AList.lookup name s.data.threadInfo))) := by
    refine ⟨[.call (.remove name), .run, .run, .run], ?_⟩
    cases hl : AList.lookup name s.data.threadInfo with
    | none =>
      simp [run_cons, step, hs.fault, hpc, start, runPush, runInsert, runRemove, hti, hl, goto, setThreadInfo]
    | some t =>
      simp [run_cons, step, hs.fault, hpc, start, runPush, runInsert, runRemove, hti, hl, hs.info, goto,
        setThreadInfo]
  unfold VideoQueue.removeEvent at h
  cases hr : s.data.removeOutput name with
  | blocked => simp [hr] at h
  | fault f => simp [hr] at h
  | done w _ =>
    have hw := (VideoQueue.removeOutput_done hr).1
    simp only [hr] at h
    have h2 := h1.trans (removeOutput_solo hs.fault (Function.update_self ..) hr)
    -- from line 122 on
    cases hl : AList.lookup name s.data.threadInfo with
    | none =>
      simp only [hl] at h
      cases h
      rw [hl] at h2
      refine ⟨s.log, h2.trans ⟨[.run], ?_⟩⟩
      simp [run_cons, step, hs.fault, runPush, runInsert, runRemove, goto, setThreadInfo, setData, hti]
    | some t =>
      simp only [hl] at h
      cases h
      rw [hl] at h2
      refine ⟨s.log ++ [.removed name t], h2.trans ⟨[.run, .run], ?_⟩⟩
      simp [run_cons, step, hs.fault, runPush, runInsert, runRemove, hw, hl, goto, setThreadInfo, setData, note, hti]

theorem push_solo {s : State} {i : Tid} {b : VideoBuffer} (hs : Free s) (hpc : s.pc i = .idle) :
    Ends i s (s.data.newBuffer.push ⟨s.data.nextAddr, b⟩) .idle := by
  have hin := hs.input
  -- nobody waits, so there is nobody to wake
  have hcan : ∀ j < 6, ¬ Function.update s.pc i (.pushInput ⟨s.data.nextAddr, b⟩) j = .distWait false := by
    intro j _ hj
    have hw := noWait_update hs.noWait i (p := .pushInput ⟨s.data.nextAddr, b⟩) rfl j
    rw [hj] at hw
    cases hw
  refine ⟨s.log ++ [.pushed ⟨s.data.nextAddr, b⟩], [.call (.push b), .run, .notify none], ?_⟩
  simpa [run_cons, step, hs.fault, hpc, start, runPush, hin, CanNotify, goto, setInput, setData, note, notifyOne,
    VideoQueue.push, VideoQueue.newBuffer] using hcan

section Pop

variable {s u : State} {i : Tid} {name : Name} {info : InfoId} {q : QueueId}

theorem Solo.popMove {p : Pc} (p' : Pc) (hf : s.fault = none)
    (h : (s.goto i p).runPop i p = some ((s.goto i p).goto i p')) (hu : Solo i (s.goto i p') u) :
    Solo i (s.goto i p) u := by
  refine .act (step_pop hf (Function.update_self ..) h) ?_
  simpa [goto] using hu

theorem popFindOutput_solo (hf : s.fault = none) (hpc : s.pc i = .idle)
    (hl : AList.lookup name s.data.threadInfo = some info) : Solo i s (s.goto i (.popFindOutput name)) := by
  refine .act (step_call (r := .pop name) hf hpc rfl) ?_
  refine .popMove _ hf ?_ (.refl ..)
  simp [runPop, hl]

/-- To the predicate at line 173, with the mutex of the event. -/
theorem popRun_solo (hs : Free s) (hpc : s.pc i = .idle) (hl : AList.lookup name s.data.threadInfo = some info)
    (ho : AList.lookup name s.data.output = some q) :
    Solo i s ((s.setInfo info (some i)).goto i (.popRun name info info)) := by
  refine (popFindOutput_solo hs.fault hpc hl).trans ?_
  refine .popMove (.popMutex name) hs.fault (by simp [runPop, ho]) ?_
  refine .popMove (.popLock name info) hs.fault (by simp [runPop, hl]) ?_
  have hlock : (s.goto i (.popLock name info)).runPop i (.popLock name info) =
      some (((s.goto i (.popLock name info)).setInfo info (some i)).goto i (.popCond name info)) := by
    simp [runPop, hs.info info]
  refine .act (step_pop hs.fault (Function.update_self ..) hlock) ?_
  have hgoto : ((s.goto i (.popLock name info)).setInfo info (some i)).goto i (.popCond name info) =
      (s.setInfo info (some i)).goto i (.popCond name info) := by
    simp [goto, setInfo]
  rw [hgoto]
  refine .popMove _ hs.fault ?_ (.refl ..)
  simp [runPop, hl]

/-- The event is off: from the predicate to the end. -/
theorem popErase_solo (hf : s.fault = none) (hl : AList.lookup name s.data.threadInfo = some info)
    (hrun : (s.data.infos info).isRun = false) :
    Solo i (s.goto i (.popRun name info info))
      (((s.setData (s.data.eraseThreadInfo name)).setInfo info none).goto i .idle) := by
  refine .popMove (.popTest name info) hf (by simp [runPop, hl, hrun]) ?_
  refine .popMove (.popErase name info) hf (by simp [runPop, hl, hrun]) ?_
  refine .act (step_pop hf (Function.update_self ..) rfl) ?_
  simp only [goto, setData, setInfo, Function.update_idem]
  exact .refl ..

/-- The event is on and has a frame: from the predicate to the caller. -/
theorem popPop_solo {b : BufferRef} {rest : List BufferRef} (hf : s.fault = none)
    (hl : AList.lookup name s.data.threadInfo = some info) (hrun : (s.data.infos info).isRun = true)
    (ho : AList.lookup name s.data.output = some q) (hq : s.data.queues q = some (b :: rest)) :
    Solo i (s.goto i (.popRun name info info))
      ((((s.setData (s.data.popFront q rest)).setInfo info none).note (.popped name b)).goto i (.hold b)) := by
  refine .popMove (.popEmpty name info info) hf (by simp [runPop, hl, hrun]) ?_
  refine .popMove (.popTest name info) hf (by simp [runPop, ho, hq]) ?_
  refine .popMove (.popFront name info) hf (by simp [runPop, hl, hrun]) ?_
  refine .popMove (.popPop name info b) hf (by simp [runPop, ho, hq]) ?_
  have hpop : (s.goto i (.popPop name info b)).runPop i (.popPop name info b) =
      some (((((s.goto i (.popPop name info b)).setData (s.data.popFront q rest)).setInfo info none).note
        (.popped name b)).goto i (.hold b)) := by
    simp [runPop, ho, hq]
  refine .act (step_pop hf (Function.update_self ..) hpop) ?_
  simp only [goto, setData, setInfo, note, Function.update_idem]
  exact .refl ..

end Pop

theorem pop_solo {s : State} {i : Tid} {name : Name} {v : VideoQueue} {r : Option BufferRef} (hs : Free s)
    (hpc : s.pc i = .idle) (h : s.data.pop name = .done v r) :
    Ends i s v (match r with
      | none => .idle
      | some b => .hold b) := by
  -- the mutex of the event is as it was
  have hfree : ∀ info, Function.update s.infoMutex info none = s.infoMutex := by
    intro info
    rw [← hs.info info, Function.update_eq_self]
  rcases VideoQueue.pop_done h with ⟨rfl, rfl, hn⟩ | ⟨info, hl, ho, hrun, rfl, rfl⟩ |
    ⟨info, q, b, rest, hl, ho, hrun, hq, rfl, rfl⟩
  · cases hl : AList.lookup name s.data.threadInfo with
    | none =>
      refine ⟨s.log, .act (step_call (r := .pop name) hs.fault hpc rfl) ?_⟩
      refine .popMove _ hs.fault ?_ (.refl ..)
      simp [runPop, hl]
    | some info =>
      have ho := hn.resolve_left (by simp [hl])
      refine ⟨s.log, (popFindOutput_solo hs.fault hpc hl).trans ?_⟩
      refine .popMove _ hs.fault ?_ (.refl ..)
      simp [runPop, ho]
  · obtain ⟨q, ho⟩ := Option.isSome_iff_exists.mp ho
    refine ⟨s.log, (popRun_solo hs hpc hl ho).trans ?_⟩
    have herase := popErase_solo (s := s.setInfo info (some i)) (i := i) hs.fault hl hrun
    simpa [goto, setData, setInfo, hfree] using herase
  · refine ⟨s.log ++ [.popped name b], (popRun_solo hs hpc hl ho).trans ?_⟩
    have hpop := popPop_solo (s := s.setInfo info (some i)) (i := i) hs.fault hl hrun ho hq
    simpa [goto, setData, setInfo, note, hfree] using hpop

/-! ## A distribution pass -/

theorem notifyAll_pc_of_noWait {s : State} {j : Tid} (h : (s.pc j).waits = false) (info : InfoId) :
    (s.notifyAll info).pc j = s.pc j := by
  simp only [notifyAll]
  cases hpc : s.pc j <;> first | rfl | (rw [hpc] at h; cases h)

theorem copy_solo {s : State} {i : Tid} {b : BufferRef} {t : Int} {name : Name} {info : InfoId}
    {left : Option (Name × InfoId)} {rest : List (Name × InfoId)} {v : VideoQueue} (hf : s.fault = none)
    (hfree : s.infoMutex info = none)
    (hwait : ∀ j, (s.pc j).waits = false) (hpc : s.pc i = .distVisit b t left ((name, info) :: rest))
    (hleft : ¬ s.Erased left) (hl : AList.lookup name s.data.threadInfo = some info) (hd : s.data.due info = some true)
    (hc : s.data.copyTo b t name = .done v ()) :
    Solo i s ((s.setData v).goto i (.distVisit b t (some (name, info)) rest)) := by
  refine ⟨[.run, .run, .run, .run], ?_⟩
  simp [run_cons, step, hf, hpc, runPush, runInsert, runRemove, runPop, runDistribute, hleft, hl, hd, hfree, hc, goto,
    setInfo, setData, notifyAll]
  funext j
  by_cases hj : j = i
  · subst hj
    simp
  · simp only [Function.update_of_ne hj]
    exact notifyAll_pc_of_noWait (hwait j) info

theorem not_erased {s : State} {left : Option (Name × InfoId)}
    (h : ∀ e ∈ left, AList.lookup e.1 s.data.threadInfo = some e.2) : ¬ s.Erased left := by
  rintro ⟨e, he, hne⟩
  exact hne (h e he)

theorem visit_solo {s : State} {i : Tid} {b : BufferRef} {t : Int} {left : Option (Name × InfoId)}
    {order : List (Name × InfoId)} {w : VideoQueue} (hf : s.fault = none) (hfree : ∀ u, s.infoMutex u = none)
    (hwait : ∀ j, (s.pc j).waits = false) (hpc : s.pc i = .distVisit b t left order) (hleft : ¬ s.Erased left)
    (hl : ∀ e ∈ order, AList.lookup e.1 s.data.threadInfo = some e.2)
    (h : VideoQueue.visit b t order s.data = .done w ()) :
    Solo i s (((s.setData w).setThreadInfo none).goto i (.distDelete b)) := by
  induction order generalizing s left with
  | nil =>
    cases h
    refine ⟨[.run], ?_⟩
    simp [run_cons, step, hf, hpc, hleft, runPush, runInsert, runRemove, runPop, runDistribute, goto, setData,
      setThreadInfo]
  | cons e rest ih =>
    obtain ⟨name, info⟩ := e
    have hlk := hl (name, info) (List.mem_cons_self ..)
    have hrest : ∀ e ∈ rest, AList.lookup e.1 s.data.threadInfo = some e.2 := fun e he =>
      hl e (List.mem_cons_of_mem _ he)
    have hwait' := noWait_update hwait i (p := .distVisit b t (some (name, info)) rest) rfl
    rw [VideoQueue.visit] at h
    cases hd : s.data.due info with
    | none => simp [hd] at h
    | some hit =>
      cases hit with
      | false =>
        simp only [hd] at h
        have hskip : Solo i s (s.goto i (.distVisit b t (some (name, info)) rest)) := by
          refine ⟨[.run, .run], ?_⟩
          simp [run_cons, step, hf, hpc, hleft, runPush, runInsert, runRemove, runPop, runDistribute, hlk, hd, goto]
        have := ih (s := s.goto i (.distVisit b t (some (name, info)) rest)) hf hfree hwait' (Function.update_self ..)
          (not_erased (by simpa using hlk)) hrest h
        simp only [goto, setData, setThreadInfo, Function.update_idem] at this hskip ⊢
        exact hskip.trans this
      | true =>
        simp only [hd] at h
        cases hc : s.data.copyTo b t name with
        | blocked => simp [hc] at h
        | fault f => simp [hc] at h
        | done v _ =>
          simp only [hc] at h
          have hcopied := copy_solo hf (hfree info) hwait hpc hleft hlk hd hc
          have hti := (copyTo_output hc).2.1
          have := ih (s := (s.setData v).goto i (.distVisit b t (some (name, info)) rest)) hf hfree hwait'
            (Function.update_self ..) (not_erased (by simpa [hti] using hlk)) (hti ▸ hrest) h
          simp only [goto, setData, setThreadInfo, Function.update_idem] at this hcopied ⊢
          exact hcopied.trans this

theorem distributeBuffer_solo {s : State} {i : Tid} {t : Int} {order : List (Name × InfoId)} {v : VideoQueue}
    (hs : Free s) (hpc : s.pc i = .distLock) (ho : UnorderedMap.IterationOrder s.data.threadInfo order)
    (h : s.data.distributeBuffer t order = .done v ()) : Ends i s v .distLock := by
  have hin := hs.input
  have hti := hs.threadInfo
  unfold VideoQueue.distributeBuffer at h
  cases hb : s.data.takeInput with
  | none => simp [hb] at h
  | some p =>
    obtain ⟨b, u⟩ := p
    simp only [hb] at h
    obtain ⟨hinput, -⟩ := VideoQueue.takeInput_eq hb
    have hu := (takeInput_output hb).2.1
    cases hv : VideoQueue.visit b t order u with
    | blocked => simp [hv] at h
    | fault f => simp [hv] at h
    | done w _ =>
      simp only [hv] at h
      cases h
      -- to line 217
      have h1 : Solo i s (((((s.setData u).setInput (some i)).setThreadInfo (some i)).note
          (.passed b u.currentFrameNo)).goto i (.distVisit b t none order)) := by
        refine ⟨[.run, .run, .clock t, .iterate order], ?_⟩
        simp [run_cons, step, hs.fault, hpc, runPush, runInsert, runRemove, runPop, runDistribute, hin, hinput, hb,
          hti, hu, ho, goto, setInput, setThreadInfo, setData, note]
      have h2 := visit_solo (i := i) (s := ((((s.setData u).setInput (some i)).setThreadInfo (some i)).note
          (.passed b u.currentFrameNo)).goto i (.distVisit b t none order)) hs.fault hs.info ?_ (Function.update_self ..)
          (not_erased (by simp)) (fun e he => hu.symm ▸ (ho.mem e.1 e.2).mp he) hv
      · refine ⟨s.log ++ [.passed b u.currentFrameNo], (h1.trans h2).trans ⟨[.run], ?_⟩⟩
        simp [run_cons, step, hs.fault, runPush, runInsert, runRemove, runPop, runDistribute, goto, setInput,
          setThreadInfo, setData, note, hin, hti]
      · exact noWait_update hs.noWait i rfl

/-! ## Sequences of calls -/

/-- The distributors are at the beginning of their loops, and the threads from `n` on have not called anything. -/
structure Resting (s : State) (n : Tid) : Prop extends Free s where
  distributors : ∀ j < 6, s.pc j = .distLock
  idle : ∀ j, n ≤ j → s.pc j = .idle
  callers : 6 ≤ n

theorem resting_init (F : Int) : Resting (init F) 6 where
  fault := rfl
  input := rfl
  threadInfo := rfl
  info _ := rfl
  noWait j := by rcases init_pc F j with h | h <;> rw [h] <;> rfl
  distributors j hj := if_pos hj
  idle j hj := if_neg (Nat.not_lt.mpr hj)
  callers := Nat.le_refl 6

theorem Resting.called {s : State} {n : Tid} (hs : Resting s n) {v : VideoQueue} {p : Pc} (hp : p.waits = false)
    (h : Ends n s v p) : ∃ s', Solo n s s' ∧ Resting s' (n + 1) ∧ s'.data = v := by
  obtain ⟨log, h⟩ := h
  refine ⟨_, h, ⟨hs.toFree.ends n v hp log, fun j hj => ?_, fun j hj => ?_, Nat.le_succ_of_le hs.callers⟩, rfl⟩
  · have hne : j ≠ n := Nat.ne_of_lt (Nat.lt_of_lt_of_le hj hs.callers)
    simpa [Function.update_of_ne hne] using hs.distributors j hj
  · have hne : j ≠ n := Nat.ne_of_gt hj
    simpa [Function.update_of_ne hne] using hs.idle j (Nat.le_of_succ_le hj)

theorem Resting.passed {s : State} {n : Tid} (hs : Resting s n) {v : VideoQueue} (h : Ends 0 s v .distLock) :
    ∃ s', Solo 0 s s' ∧ Resting s' n ∧ s'.data = v := by
  obtain ⟨log, h⟩ := h
  refine ⟨_, h, ⟨hs.toFree.ends 0 v rfl log, fun j hj => ?_, fun j hj => ?_, hs.callers⟩, rfl⟩
  · by_cases hj0 : j = 0
    · simp [hj0]
    · simpa [Function.update_of_ne hj0] using hs.distributors j hj
  · have hne : j ≠ 0 := Nat.ne_of_gt (Nat.lt_of_lt_of_le (by decide) (Nat.le_trans hs.callers hj))
    simpa [Function.update_of_ne hne] using hs.idle j hj

/-- One call is a run of one thread. -/
theorem exec_solo {s : State} {n : Tid} {c : Call} {w : VideoQueue} {r : Ret} (hs : Resting s n)
    (h : s.data.exec c = .done w r) : ∃ i s' n', Solo i s s' ∧ Resting s' n' ∧ s'.data = w := by
  have hpc := hs.idle n (Nat.le_refl n)
  cases c with
  | newThreadInfo fps isRun =>
    cases h
    have hends : Ends n s (s.data.newThreadInfo fps isRun) (.insertLock [] s.data.nextInfo) :=
      ⟨s.log, .act (step_call (r := .insert [] fps isRun) hs.fault hpc rfl) (.refl ..)⟩
    obtain ⟨s', h1, h2, h3⟩ := hs.called rfl hends
    exact ⟨n, s', n + 1, h1, h2, h3⟩
  | insertEvent name info =>
    simp only [VideoQueue.exec] at h
    split_ifs at h with hlt
    obtain ⟨k, hk, -⟩ := VideoQueue.mapRet_eq_done h
    obtain ⟨s', h1, h2, h3⟩ := hs.called rfl (insertEvent_solo hs.toFree hpc hlt hk)
    exact ⟨n, s', n + 1, h1, h2, h3⟩
  | removeEvent name =>
    obtain ⟨k, hk, -⟩ := VideoQueue.mapRet_eq_done h
    obtain ⟨s', h1, h2, h3⟩ := hs.called rfl (removeEvent_solo hs.toFree hpc hk)
    exact ⟨n, s', n + 1, h1, h2, h3⟩
  | push b =>
    cases h
    obtain ⟨s', h1, h2, h3⟩ := hs.called rfl (push_solo hs.toFree hpc)
    exact ⟨n, s', n + 1, h1, h2, h3⟩
  | distributeBuffer t order =>
    simp only [VideoQueue.exec] at h
    split_ifs at h with ho
    obtain ⟨k, hk, -⟩ := VideoQueue.mapRet_eq_done h
    obtain ⟨s', h1, h2, h3⟩ := hs.passed (distributeBuffer_solo hs.toFree (hs.distributors 0 (by decide)) ho hk)
    exact ⟨0, s', n, h1, h2, h3⟩
  | pop name =>
    obtain ⟨b, hb, -⟩ := VideoQueue.mapRet_eq_done h
    obtain ⟨s', h1, h2, h3⟩ := hs.called (by cases b <;> rfl) (pop_solo hs.toFree hpc hb)
    exact ⟨n, s', n + 1, h1, h2, h3⟩

/-- **A sequence of calls is a run of the machine.** -/
theorem calls_reached {F : Int} {v : VideoQueue} (h : Reach (· = .new F) VideoQueue.step (fun _ _ => True) v) :
    ∃ s n, Reach (· = init F) step (fun _ _ => True) s ∧ Resting s n ∧ s.data = v := by
  refine Reach.invariant (fun v => ∃ s n, Reach (· = init F) step (fun _ _ => True) s ∧ Resting s n ∧ s.data = v) ?_
    (fun v c w hv _ hst => ?_) h
  · rintro v rfl
    exact ⟨init F, 6, .init rfl, resting_init F, rfl⟩
  · obtain ⟨s, n, hr, hs, rfl⟩ := hv
    obtain ⟨r, hc⟩ := VideoQueue.step_eq_some hst
    obtain ⟨i, s', n', h1, h2, h3⟩ := exec_solo hs hc
    exact ⟨s', n', h1.reach hr, h2, h3⟩

end State

open State in
/-- Between calls a registered name has a queue, which is there and is of no other name. -/
theorem VideoQueue.queue_of_registered {F : Int} {v : VideoQueue}
    (h : Reach (· = .new F) VideoQueue.step (fun _ _ => True) v) {name : Name} (hm : name ∈ v.threadInfo) :
    ∃ q l, AList.lookup name v.output = some q ∧ v.queues q = some l ∧
      ∀ name', AList.lookup name' v.output = some q → name' = name := by
  obtain ⟨s, n, hr, hs, rfl⟩ := calls_reached h
  obtain ⟨hl, hc⟩ := reach_coherent hr
  have hout : ∀ i, (s.pc i).holdsThreadInfo = false := by
    have := hl.threadInfo
    rw [hs.threadInfo] at this
    exact this.free
  have hmo : name ∈ s.data.output := by
    refine (hc.known name hm).resolve_right ?_
    rintro ⟨i, hi⟩
    exact Bool.false_ne_true ((hout i).symm.trans (Pc.holdsThreadInfo_of_splits hi))
  obtain ⟨q, ho⟩ := Option.isSome_iff_exists.mp (AList.lookup_isSome.mpr hmo)
  have hq : s.data.queues q ≠ none := by
    refine (hc.live name q ho).resolve_right ?_
    rintro ⟨i, hi⟩
    exact Bool.false_ne_true ((hout i).symm.trans (Pc.holdsThreadInfo_of_deletes hi))
  obtain ⟨l, hq⟩ := Option.ne_none_iff_exists'.mp hq
  exact ⟨q, l, ho, hq, fun name' ho' => hc.inj name' name q ho' ho⟩

end RpiCam
