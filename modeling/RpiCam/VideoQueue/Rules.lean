import RpiCam.VideoQueue.Machine

/-!
# The rules of the machine

`Step s i a p s'` lists what one step of thread `i` from the place `p` can do. Most steps only move the thread on
(`Moves`), take a mutex (`TakesInput`, `TakesThreadInfo`, `TakesInfo`) or fault (`Fails`); each of the others has a
rule of its own.

* `step_sound` : every step of `State.step` is an instance of a rule;
* `step_insertInfo_inv` and the like : the rules from one place.
-/

namespace RpiCam

namespace State

/-- The steps that change nothing but the place of the thread. -/
inductive Moves (s : State) : Act → Pc → Pc → Prop
  | insertAgain {name info} : info < s.data.nextInfo →
      Moves s (.call (.insertAgain name info)) .idle (.insertLock name info)
  | remove {name} : Moves s (.call (.remove name)) .idle (.removeLock name)
  | pop {name} : Moves s (.call (.pop name)) .idle (.popFindInfo name)
  | removeFind {a name} : Moves s a (.removeFind name)
      (.removeTouch name (AList.lookup name s.data.output) (AList.lookup name s.data.threadInfo))
  | removeTouch {a name queue info} :
      (∀ t, info = some t → AList.lookup name s.data.threadInfo = some t ∧ s.infoMutex t = none) →
      Moves s a (.removeTouch name queue info) (.removeDrain name queue info)
  | removeDrain {a name info} : Moves s a (.removeDrain name none info) (.removeStop name info)
  | removeFront {a name q info b rest} : s.data.queues q = some (b :: rest) →
      Moves s a (.removeDrain name (some q) info) (.removeDelete name q info)
  | popUnknown {a name} : AList.lookup name s.data.threadInfo = none → Moves s a (.popFindInfo name) .idle
  | popFindInfo {a name info} : AList.lookup name s.data.threadInfo = some info →
      Moves s a (.popFindInfo name) (.popFindOutput name)
  | popNoQueue {a name} : AList.lookup name s.data.output = none → Moves s a (.popFindOutput name) .idle
  | popFindOutput {a name q} : AList.lookup name s.data.output = some q →
      Moves s a (.popFindOutput name) (.popMutex name)
  | popMutex {a name info} : AList.lookup name s.data.threadInfo = some info →
      Moves s a (.popMutex name) (.popLock name info)
  | popCond {a name info cond} : AList.lookup name s.data.threadInfo = some cond →
      Moves s a (.popCond name info) (.popRun name info cond)
  | popRunning {a name info cond t} : AList.lookup name s.data.threadInfo = some t → (s.data.infos t).isRun = true →
      Moves s a (.popRun name info cond) (.popEmpty name info cond)
  | popStopped {a name info cond t} : AList.lookup name s.data.threadInfo = some t → (s.data.infos t).isRun = false →
      Moves s a (.popRun name info cond) (.popTest name info)
  | popReady {a name info cond q b rest} : AList.lookup name s.data.output = some q →
      s.data.queues q = some (b :: rest) → Moves s a (.popEmpty name info cond) (.popTest name info)
  | popAwake {name info cond notified} : Moves s .wake (.popWait name info cond notified) (.popWake name info cond)
  | popGoes {a name info t} : AList.lookup name s.data.threadInfo = some t → (s.data.infos t).isRun = true →
      Moves s a (.popTest name info) (.popFront name info)
  | popStops {a name info t} : AList.lookup name s.data.threadInfo = some t → (s.data.infos t).isRun = false →
      Moves s a (.popTest name info) (.popErase name info)
  | popFront {a name info q b rest} : AList.lookup name s.data.output = some q →
      s.data.queues q = some (b :: rest) → Moves s a (.popFront name info) (.popPop name info b)
  | distAwake {notified} : Moves s .wake (.distWait notified) .distWake
  | distTest {a b rest} : s.data.input = b :: rest → Moves s a .distTest .distTake
  | distErased {a b t left name info rest} : AList.lookup name s.data.threadInfo ≠ some info →
      Moves s a (.distVisit b t left ((name, info) :: rest)) (.distVisit b t left rest)
  | distReach {a b t left name info rest} : AList.lookup name s.data.threadInfo = some info →
      Moves s a (.distVisit b t left ((name, info) :: rest)) (.distDue b t name info rest)
  | distSkip {a b t name info rest} : AList.lookup name s.data.threadInfo = some info →
      s.data.due info = some false → Moves s a (.distDue b t name info rest) (.distVisit b t (some (name, info)) rest)
  | distDue {a b t name info rest} : AList.lookup name s.data.threadInfo = some info →
      s.data.due info = some true → Moves s a (.distDue b t name info rest) (.distEntry b t name info rest)

/-- The places where `_input_mutex` is locked. -/
inductive TakesInput : Pc → Pc → Prop
  | push {b} : TakesInput (.pushLock b) (.pushInput b)
  | dist : TakesInput .distLock .distTest
  | distWake : TakesInput .distWake .distTest

/-- The places where `_thread_info_mutex` is locked, but for `distribute_buffer`. -/
inductive TakesThreadInfo : Pc → Pc → Prop
  | insert {name info} : TakesThreadInfo (.insertLock name info) (.insertInfo name info)
  | remove {name} : TakesThreadInfo (.removeLock name) (.removeFind name)

/-- The places where the mutex of a `ThreadInfo` is locked. -/
inductive TakesInfo (s : State) (info : InfoId) : Pc → Pc → Prop
  | pop {name} : TakesInfo s info (.popLock name info) (.popCond name info)
  | popWake {name cond} : TakesInfo s info (.popWake name info cond) (.popRun name info cond)
  | dist {b t name rest} : AList.lookup name s.data.threadInfo = some info →
      TakesInfo s info (.distEntry b t name info rest) (.distCopy b t name info rest)

/-- What is undefined, and where. -/
inductive Fails (s : State) : Pc → Fault → Prop
  | insertZero {name info} : AList.lookup name s.data.threadInfo = none → (s.data.infos info).fps = 0 →
      Fails s (.insertInfo name info) .zeroDivisor
  | dueZero {b t name info rest} : AList.lookup name s.data.threadInfo = some info → (s.data.infos info).fps = 0 →
      Fails s (.distDue b t name info rest) .zeroDivisor
  | popMutex {name} : AList.lookup name s.data.threadInfo = none → Fails s (.popMutex name) .absentEntry
  | popCond {name info} : AList.lookup name s.data.threadInfo = none → Fails s (.popCond name info) .absentEntry
  | popRun {name info cond} : AList.lookup name s.data.threadInfo = none →
      Fails s (.popRun name info cond) .absentEntry
  | popTest {name info} : AList.lookup name s.data.threadInfo = none → Fails s (.popTest name info) .absentEntry
  | popEmpty {name info cond} : AList.lookup name s.data.output = none →
      Fails s (.popEmpty name info cond) .absentEntry
  | popFront {name info} : AList.lookup name s.data.output = none → Fails s (.popFront name info) .absentEntry
  | popPop {name info b} : AList.lookup name s.data.output = none → Fails s (.popPop name info b) .absentEntry
  | drainDeleted {name q info} : s.data.queues q = none → Fails s (.removeDrain name (some q) info) .deletedQueue
  | deleteDeleted {name q info} : s.data.queues q = none → Fails s (.removeDelete name q info) .deletedQueue
  | removeDeleted {name q info} : s.data.queues q = none → Fails s (.removePop name q info) .deletedQueue
  | emptyDeleted {name info cond q} : AList.lookup name s.data.output = some q → s.data.queues q = none →
      Fails s (.popEmpty name info cond) .deletedQueue
  | frontDeleted {name info q} : AList.lookup name s.data.output = some q → s.data.queues q = none →
      Fails s (.popFront name info) .deletedQueue
  | popDeleted {name info b q} : AList.lookup name s.data.output = some q → s.data.queues q = none →
      Fails s (.popPop name info b) .deletedQueue
  | copyDeleted {b t name info rest q} : AList.lookup name s.data.output = some q → s.data.queues q = none →
      Fails s (.distCopy b t name info rest) .deletedQueue
  | deleteEmpty {name q info} : s.data.queues q = some [] → Fails s (.removeDelete name q info) .emptyQueue
  | removeEmptied {name q info} : s.data.queues q = some [] → Fails s (.removePop name q info) .emptyQueue
  | frontEmpty {name info q} : AList.lookup name s.data.output = some q → s.data.queues q = some [] →
      Fails s (.popFront name info) .emptyQueue
  | popEmptied {name info b q} : AList.lookup name s.data.output = some q → s.data.queues q = some [] →
      Fails s (.popPop name info b) .emptyQueue
  | inputEmpty : s.data.input = [] → Fails s .distTake .emptyQueue
  | touchDangling {name queue info} : AList.lookup name s.data.threadInfo ≠ some info →
      Fails s (.removeTouch name queue (some info)) .danglingIterator
  | removeDangling {name info} : AList.lookup name s.data.threadInfo ≠ some info →
      Fails s (.removeStop name (some info)) .danglingIterator
  | leftDangling {b t name info rest} : AList.lookup name s.data.threadInfo ≠ some info →
      Fails s (.distVisit b t (some (name, info)) rest) .danglingIterator
  | dueDangling {b t name info rest} : AList.lookup name s.data.threadInfo ≠ some info →
      Fails s (.distDue b t name info rest) .danglingIterator
  | entryDangling {b t name info rest} : AList.lookup name s.data.threadInfo ≠ some info →
      Fails s (.distEntry b t name info rest) .danglingIterator
  | copyDangling {b t name info rest} : AList.lookup name s.data.threadInfo ≠ some info →
      Fails s (.distCopy b t name info rest) .danglingIterator

/-- One step of thread `i`, from its place. -/
inductive Step (s : State) (i : Tid) : Act → Pc → State → Prop
  | callPush {b} : Step s i (.call (.push b)) .idle
      ((s.setData s.data.newBuffer).goto i (.pushLock ⟨s.data.nextAddr, b⟩))
  | callInsert {name fps isRun} : Step s i (.call (.insert name fps isRun)) .idle
      ((s.setData (s.data.newThreadInfo fps isRun)).goto i (.insertLock name s.data.nextInfo))
  | move {a p p'} : Moves s a p p' → Step s i a p (s.goto i p')
  | lockInput {a p p'} : TakesInput p p' → s.inputMutex = none → Step s i a p ((s.setInput (some i)).goto i p')
  | lockThreadInfo {a p p'} : TakesThreadInfo p p' → s.threadInfoMutex = none →
      Step s i a p ((s.setThreadInfo (some i)).goto i p')
  | lockInfo {a p p' info} : TakesInfo s info p p' → s.infoMutex info = none →
      Step s i a p ((s.setInfo info (some i)).goto i p')
  | fail {a p f} : Fails s p f → Step s i a p (s.fail f)
  | pushInput {a b waiter} : s.CanNotify waiter → Step s i a (.pushInput b)
      (((((s.notifyOne waiter).setData (s.data.push b)).setInput none).note (.pushed b)).goto i .idle)
  | insertRefused {a name info t} : AList.lookup name s.data.threadInfo = some t →
      Step s i a (.insertInfo name info) ((s.setThreadInfo none).goto i .idle)
  | insertInfo {a name info} : AList.lookup name s.data.threadInfo = none → (s.data.infos info).fps ≠ 0 →
      Step s i a (.insertInfo name info) (((s.setData (s.data.enterInfo name info)).note
        (.registered name info (s.data.infos info).fps (s.data.infos info).isRun)).goto i (.insertOutput name))
  | insertOutput {a name} : Step s i a (.insertOutput name)
      (((s.setData (s.data.enterOutput name)).setThreadInfo none).goto i .idle)
  | removeDelete {a name q info b rest} : s.data.queues q = some (b :: rest) →
      Step s i a (.removeDelete name q info) ((s.setData (s.data.deleteBuffer b)).goto i (.removePop name q info))
  | removePop {a name q info b rest} : s.data.queues q = some (b :: rest) → Step s i a (.removePop name q info)
      ((s.setData (s.data.popFront q rest)).goto i (.removeDrain name (some q) info))
  | deleteQueue {a name q info} : s.data.queues q = some [] →
      Step s i a (.removeDrain name (some q) info) ((s.setData (s.data.deleteQueue q)).goto i (.removeErase name info))
  | removeErase {a name info} : Step s i a (.removeErase name info)
      ((s.setData (s.data.eraseOutput name)).goto i (.removeStop name info))
  | removeNone {a name} : Step s i a (.removeStop name none) ((s.setThreadInfo none).goto i .idle)
  | removeStop {a name info} : AList.lookup name s.data.threadInfo = some info →
      Step s i a (.removeStop name (some info)) ((s.setData (s.data.stopInfo info)).goto i (.removeInfo name info))
  | removeInfo {a name info} : Step s i a (.removeInfo name info)
      ((((s.setData (s.data.eraseThreadInfo name)).setThreadInfo none).note (.removed name info)).goto i .idle)
  | popBlock {a name info cond q} : AList.lookup name s.data.output = some q → s.data.queues q = some [] →
      Step s i a (.popEmpty name info cond) ((s.setInfo info none).goto i (.popWait name info cond false))
  | popErase {a name info} : Step s i a (.popErase name info)
      (((s.setData (s.data.eraseThreadInfo name)).setInfo info none).goto i .idle)
  | popPop {a name info b q c rest} : AList.lookup name s.data.output = some q →
      s.data.queues q = some (c :: rest) → Step s i a (.popPop name info b)
      ((((s.setData (s.data.popFront q rest)).setInfo info none).note (.popped name b)).goto i (.hold b))
  | release {a b} : Step s i a (.hold b) ((s.setData (s.data.deleteBuffer b)).goto i .idle)
  | distBlock {a} : s.data.input = [] → Step s i a .distTest ((s.setInput none).goto i (.distWait false))
  | distTake {a b t v} : s.data.takeInput = some (b, v) →
      Step s i a .distTake ((s.setData v).goto i (.distIterate b t))
  | distIterate {a b t order} : s.threadInfoMutex = none → UnorderedMap.IterationOrder s.data.threadInfo order →
      Step s i a (.distIterate b t)
      (((s.setThreadInfo (some i)).note (.passed b s.data.currentFrameNo)).goto i (.distVisit b t none order))
  | distEnd {a b t left} : Step s i a (.distVisit b t left []) ((s.setThreadInfo none).goto i (.distDelete b))
  | distCopy {a b t name info rest v} : AList.lookup name s.data.threadInfo = some info →
      s.data.copyTo b t name = .done v () → Step s i a (.distCopy b t name info rest)
      ((((s.notifyAll info).setData v).setInfo info none).goto i (.distVisit b t (some (name, info)) rest))
  | distDelete {a b} : Step s i a (.distDelete b)
      (((s.setData (s.data.deleteBuffer b)).setInput none).goto i .distLock)

/-! ## Every step is a rule -/

theorem start_sound {s s' : State} {i : Tid} {r : Request} (h : s.start i r = some s') :
    Step s i (.call r) .idle s' := by
  cases r with
  | push b => cases h; exact .callPush
  | insert name fps isRun => cases h; exact .callInsert
  | insertAgain name info =>
    simp only [start] at h
    split_ifs at h with hlt
    cases h
    exact .move (.insertAgain hlt)
  | remove name => cases h; exact .move .remove
  | pop name => cases h; exact .move .pop

theorem runPush_sound {s s' : State} {i : Tid} {p : Pc} (h : s.runPush i p = some s') :
    Step s i .run p s' := by
  cases p <;> simp only [runPush, reduceCtorEq] at h
  case pushLock b =>
    split_ifs at h with hm
    cases h
    exact .lockInput .push hm

theorem runInsert_sound {s s' : State} {i : Tid} {p : Pc} (h : s.runInsert i p = some s') :
    Step s i .run p s' := by
  cases p <;> simp only [runInsert, reduceCtorEq] at h
  case insertLock name info =>
    split_ifs at h with hm
    cases h
    exact .lockThreadInfo .insert hm
  case insertInfo name info =>
    cases hl : AList.lookup name s.data.threadInfo with
    | some t =>
      rw [hl] at h
      cases h
      exact .insertRefused hl
    | none =>
      simp only [hl] at h
      split_ifs at h with hf
      · cases h
        exact .fail (.insertZero hl hf)
      · cases h
        exact .insertInfo hl hf
  case insertOutput name =>
    cases h
    exact .insertOutput

theorem runRemove_sound {s s' : State} {i : Tid} {p : Pc} (h : s.runRemove i p = some s') :
    Step s i .run p s' := by
  cases p <;> simp only [runRemove, reduceCtorEq] at h
  case removeLock name =>
    split_ifs at h with hm
    cases h
    exact .lockThreadInfo .remove hm
  case removeFind name =>
    cases h
    exact .move .removeFind
  case removeTouch name queue info =>
    cases info with
    | none =>
      cases h
      exact .move (.removeTouch (by simp))
    | some t =>
      simp only at h
      split_ifs at h with hl hm
      · cases h; exact .fail (.touchDangling hl)
      · cases h; exact .move (.removeTouch (by rintro _ ⟨⟩; exact ⟨not_ne_iff.mp hl, hm⟩))
  case removeDrain name queue info =>
    cases queue with
    | none =>
      cases h
      exact .move .removeDrain
    | some q =>
      simp only at h
      match hq : s.data.queues q with
      | none => rw [hq] at h; cases h; exact .fail (.drainDeleted hq)
      | some [] => rw [hq] at h; cases h; exact .deleteQueue hq
      | some (b :: rest) => rw [hq] at h; cases h; exact .move (.removeFront hq)
  case removeDelete name q info =>
    match hq : s.data.queues q with
    | none => rw [hq] at h; cases h; exact .fail (.deleteDeleted hq)
    | some [] => rw [hq] at h; cases h; exact .fail (.deleteEmpty hq)
    | some (b :: rest) => rw [hq] at h; cases h; exact .removeDelete hq
  case removePop name q info =>
    match hq : s.data.queues q with
    | none => rw [hq] at h; cases h; exact .fail (.removeDeleted hq)
    | some [] => rw [hq] at h; cases h; exact .fail (.removeEmptied hq)
    | some (b :: rest) => rw [hq] at h; cases h; exact .removePop hq
  case removeErase name info =>
    cases h
    exact .removeErase
  case removeStop name info =>
    cases info with
    | none => cases h; exact .removeNone
    | some t =>
      simp only at h
      split_ifs at h with hl
      · cases h; exact .removeStop hl
      · cases h; exact .fail (.removeDangling hl)
  case removeInfo name info =>
    cases h
    exact .removeInfo

theorem runPop_sound {s s' : State} {i : Tid} {p : Pc} (h : s.runPop i p = some s') :
    Step s i .run p s' := by
  cases p <;> simp only [runPop, reduceCtorEq] at h
  case popFindInfo name =>
    cases hl : AList.lookup name s.data.threadInfo with
    | none => rw [hl] at h; cases h; exact .move (.popUnknown hl)
    | some t => rw [hl] at h; cases h; exact .move (.popFindInfo hl)
  case popFindOutput name =>
    cases hl : AList.lookup name s.data.output with
    | none => rw [hl] at h; cases h; exact .move (.popNoQueue hl)
    | some q => rw [hl] at h; cases h; exact .move (.popFindOutput hl)
  case popMutex name =>
    cases hl : AList.lookup name s.data.threadInfo with
    | none => rw [hl] at h; cases h; exact .fail (.popMutex hl)
    | some t => rw [hl] at h; cases h; exact .move (.popMutex hl)
  case popLock name info =>
    split_ifs at h with hm
    cases h
    exact .lockInfo .pop hm
  case popCond name info =>
    cases hl : AList.lookup name s.data.threadInfo with
    | none => rw [hl] at h; cases h; exact .fail (.popCond hl)
    | some t => rw [hl] at h; cases h; exact .move (.popCond hl)
  case popRun name info cond =>
    cases hl : AList.lookup name s.data.threadInfo with
    | none => rw [hl] at h; cases h; exact .fail (.popRun hl)
    | some t =>
      simp only [hl] at h
      cases hr : (s.data.infos t).isRun with
      | true => rw [hr] at h; cases h; exact .move (.popRunning hl hr)
      | false => rw [hr] at h; cases h; exact .move (.popStopped hl hr)
  case popEmpty name info cond =>
    cases hl : AList.lookup name s.data.output with
    | none => rw [hl] at h; cases h; exact .fail (.popEmpty hl)
    | some q =>
      simp only [hl] at h
      match hq : s.data.queues q with
      | none => rw [hq] at h; cases h; exact .fail (.emptyDeleted hl hq)
      | some [] => rw [hq] at h; cases h; exact .popBlock hl hq
      | some (b :: rest) => rw [hq] at h; cases h; exact .move (.popReady hl hq)
  case popWake name info cond =>
    split_ifs at h with hm
    cases h
    exact .lockInfo .popWake hm
  case popTest name info =>
    cases hl : AList.lookup name s.data.threadInfo with
    | none => rw [hl] at h; cases h; exact .fail (.popTest hl)
    | some t =>
      simp only [hl] at h
      cases hr : (s.data.infos t).isRun with
      | true => rw [hr] at h; cases h; exact .move (.popGoes hl hr)
      | false => rw [hr] at h; cases h; exact .move (.popStops hl hr)
  case popErase name info =>
    cases h
    exact .popErase
  case popFront name info =>
    cases hl : AList.lookup name s.data.output with
    | none => rw [hl] at h; cases h; exact .fail (.popFront hl)
    | some q =>
      simp only [hl] at h
      match hq : s.data.queues q with
      | none => rw [hq] at h; cases h; exact .fail (.frontDeleted hl hq)
      | some [] => rw [hq] at h; cases h; exact .fail (.frontEmpty hl hq)
      | some (b :: rest) => rw [hq] at h; cases h; exact .move (.popFront hl hq)
  case popPop name info b =>
    cases hl : AList.lookup name s.data.output with
    | none => rw [hl] at h; cases h; exact .fail (.popPop hl)
    | some q =>
      simp only [hl] at h
      match hq : s.data.queues q with
      | none => rw [hq] at h; cases h; exact .fail (.popDeleted hl hq)
      | some [] => rw [hq] at h; cases h; exact .fail (.popEmptied hl hq)
      | some (c :: rest) => rw [hq] at h; cases h; exact .popPop hl hq
  case hold b =>
    cases h
    exact .release

theorem due_eq_none {v : VideoQueue} {info : InfoId} (h : v.due info = none) : (v.infos info).fps = 0 := by
  by_contra hf
  simp [VideoQueue.due, hf] at h

theorem copyTo_fault {v : VideoQueue} {b : BufferRef} {t : Int} {name : Name} {f : Fault}
    (h : v.copyTo b t name = .fault f) :
    f = .deletedQueue ∧ ∃ q, AList.lookup name v.output = some q ∧ v.queues q = none := by
  unfold VideoQueue.copyTo at h
  cases ho : AList.lookup name v.output with
  | none => simp [ho] at h
  | some q =>
    simp only [ho] at h
    cases hq : v.queues q with
    | none =>
      simp only [hq] at h
      cases h
      exact ⟨rfl, q, rfl, hq⟩
    | some l => simp [hq] at h

theorem runDistribute_sound {s s' : State} {i : Tid} {p : Pc} (h : s.runDistribute i p = some s') :
    Step s i .run p s' := by
  cases p <;> simp only [runDistribute, reduceCtorEq] at h
  case distLock =>
    split_ifs at h with hm
    cases h
    exact .lockInput .dist hm
  case distTest =>
    cases hi : s.data.input with
    | nil => rw [hi] at h; cases h; exact .distBlock hi
    | cons b rest => rw [hi] at h; cases h; exact .move (.distTest hi)
  case distWake =>
    split_ifs at h with hm
    cases h
    exact .lockInput .distWake hm
  case distVisit b t left rest =>
    split_ifs at h with hleft
    · cases h
      obtain ⟨⟨name, info⟩, hentry, hl⟩ := hleft
      cases hentry
      exact .fail (.leftDangling hl)
    · rcases rest with _ | ⟨⟨name, info⟩, rest⟩
      · cases h
        exact .distEnd
      · simp only at h
        split_ifs at h with hl
        · cases h; exact .move (.distReach hl)
        · cases h; exact .move (.distErased hl)
  case distDue b t name info rest =>
    split_ifs at h with hl
    · cases h; exact .fail (.dueDangling hl)
    · have hl := not_ne_iff.mp hl
      match hd : s.data.due info with
      | none => rw [hd] at h; cases h; exact .fail (.dueZero hl (due_eq_none hd))
      | some false => rw [hd] at h; cases h; exact .move (.distSkip hl hd)
      | some true => rw [hd] at h; cases h; exact .move (.distDue hl hd)
  case distEntry b t name info rest =>
    split_ifs at h with hl hm
    · cases h; exact .fail (.entryDangling hl)
    · cases h; exact .lockInfo (.dist (not_ne_iff.mp hl)) hm
  case distCopy b t name info rest =>
    split_ifs at h with hl
    · cases h; exact .fail (.copyDangling hl)
    · cases hc : s.data.copyTo b t name with
      | done v _ => rw [hc] at h; cases h; exact .distCopy (not_ne_iff.mp hl) hc
      | blocked => simp [hc] at h
      | fault f =>
        rw [hc] at h
        cases h
        obtain ⟨rfl, q, ho, hq⟩ := copyTo_fault hc
        exact .fail (.copyDeleted ho hq)
  case distDelete b =>
    cases h
    exact .distDelete

/-- **Every step is an instance of a rule.** -/
theorem step_sound {s s' : State} {i : Tid} {a : Act} (h : step s (i, a) = some s') : Step s i a (s.pc i) s' := by
  simp only [step] at h
  split at h
  · cases h
  split at h
  · rename_i r hpc
    rw [hpc]
    exact start_sound h
  · rename_i waiter b hpc
    split_ifs at h with hn
    cases h
    rw [hpc]
    exact .pushInput hn
  · rename_i t hpc
    match ht : s.data.takeInput with
    | none =>
      rw [ht] at h
      cases h
      rw [hpc]
      refine .fail (.inputEmpty ?_)
      unfold VideoQueue.takeInput at ht
      cases hi : s.data.input with
      | nil => rfl
      | cons b rest => simp [hi] at ht
    | some (b, v) => rw [ht] at h; cases h; rw [hpc]; exact .distTake ht
  · rename_i order b t hpc
    split_ifs at h with hm
    cases h
    rw [hpc]
    exact .distIterate hm.1 hm.2
  · rename_i name info cond notified hpc
    cases h
    rw [hpc]
    exact .move .popAwake
  · rename_i notified hpc
    cases h
    rw [hpc]
    exact .move .distAwake
  · simp only [Option.or_eq_some_iff] at h
    rcases h with h | ⟨-, h | ⟨-, h | ⟨-, h | ⟨-, h⟩⟩⟩⟩
    · exact runPush_sound h
    · exact runInsert_sound h
    · exact runRemove_sound h
    · exact runPop_sound h
    · exact runDistribute_sound h
  · cases h

/-! ## The steps from one place -/

section

variable {s s' : State} {i : Tid} {a : Act} {name : Name}

theorem step_insertInfo_inv {info : InfoId} (h : Step s i a (.insertInfo name info) s') :
    (∃ f, s' = s.fail f) ∨
    ((∃ t, AList.lookup name s.data.threadInfo = some t) ∧ s' = (s.setThreadInfo none).goto i .idle) ∨
    (AList.lookup name s.data.threadInfo = none ∧ s' = ((s.setData (s.data.enterInfo name info)).note
      (.registered name info (s.data.infos info).fps (s.data.infos info).isRun)).goto i (.insertOutput name)) := by
  cases h with
  | move hm => cases hm
  | lockInput hm => cases hm
  | lockThreadInfo hm => cases hm
  | lockInfo hm => cases hm
  | fail hm => exact Or.inl ⟨_, rfl⟩
  | insertRefused hl => exact Or.inr (Or.inl ⟨⟨_, hl⟩, rfl⟩)
  | insertInfo hl hf => exact Or.inr (Or.inr ⟨hl, rfl⟩)

theorem step_insertOutput_inv (h : Step s i a (.insertOutput name) s') :
    s' = ((s.setData (s.data.enterOutput name)).setThreadInfo none).goto i .idle := by
  cases h with
  | move hm => cases hm
  | lockInput hm => cases hm
  | lockThreadInfo hm => cases hm
  | lockInfo hm => cases hm
  | fail hm => cases hm
  | insertOutput => rfl

theorem step_removeErase_inv {info : Option InfoId} (h : Step s i a (.removeErase name info) s') :
    s' = (s.setData (s.data.eraseOutput name)).goto i (.removeStop name info) := by
  cases h with
  | move hm => cases hm
  | lockInput hm => cases hm
  | lockThreadInfo hm => cases hm
  | lockInfo hm => cases hm
  | fail hm => cases hm
  | removeErase => rfl

theorem step_removeStop_inv {info : Option InfoId} (h : Step s i a (.removeStop name info) s') :
    (∃ f, s' = s.fail f) ∨ (info = none ∧ s' = (s.setThreadInfo none).goto i .idle) ∨
      ∃ t, info = some t ∧ s' = (s.setData (s.data.stopInfo t)).goto i (.removeInfo name t) := by
  cases h with
  | move hm => cases hm
  | lockInput hm => cases hm
  | lockThreadInfo hm => cases hm
  | lockInfo hm => cases hm
  | fail hm => exact Or.inl ⟨_, rfl⟩
  | removeNone => exact Or.inr (Or.inl ⟨rfl, rfl⟩)
  | removeStop hl => exact Or.inr (Or.inr ⟨_, rfl, rfl⟩)

theorem step_removeInfo_inv {info : InfoId} (h : Step s i a (.removeInfo name info) s') :
    s' = (((s.setData (s.data.eraseThreadInfo name)).setThreadInfo none).note (.removed name info)).goto i .idle := by
  cases h with
  | move hm => cases hm
  | lockInput hm => cases hm
  | lockThreadInfo hm => cases hm
  | lockInfo hm => cases hm
  | fail hm => cases hm
  | removeInfo => rfl

end

end State

end RpiCam
