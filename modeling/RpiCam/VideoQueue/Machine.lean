import Mathlib.Tactic.Simps.Basic
import RpiCam.Lib.Transition
import RpiCam.VideoQueue.Basic

/-!
# The queue under threads

`State` is the queue, its mutexes and the place (`Pc`) of every thread. Threads `0` to `5` are the ones of the
constructor, in `distribute_buffer`; any other thread is idle or inside a call. A step runs one thread from its line to
the next place where another thread can come between: a mutex, a wait, a queue that other threads can reach too, or one
of the lookups of `pop`, which holds no lock on the maps. A lookup, an insertion and an erasure in a map are each done at
once: a lookup in the middle of a rehash does not occur.

* `step s (i, a)` : thread `i` goes on; `a` carries what the program does not decide (the request, the clock, the order
  of an iteration, whom `notify_one` wakes);
* `Step s i s'` : the rules, `step_sound` : every step is one of them;
* `log` is a history: no step reads it.

A state with a `fault` has no further step. The destructor is not modelled, so `_q_enable` stays true.
-/

namespace RpiCam

abbrev Tid := Nat

/-- Where a thread is: the line of `VideoQueue.cpp` it is about to run, with its local variables. -/
inductive Pc
  | idle
  /-- 147. -/
  | pushLock (b : BufferRef)
  /-- 148, 149. -/
  | pushInput (b : BufferRef)
  /-- 53. -/
  | insertLock (name : Name) (info : InfoId)
  /-- 55 to 71. -/
  | insertInfo (name : Name) (info : InfoId)
  /-- 72 to 78. -/
  | insertOutput (name : Name)
  /-- 88. -/
  | removeLock (name : Name)
  /-- 91, 92. -/
  | removeFind (name : Name)
  /-- 94 to 96. -/
  | removeTouch (name : Name) (queue : Option QueueId) (info : Option InfoId)
  /-- 100 to 106, and 115 where the queue is empty. -/
  | removeDrain (name : Name) (queue : Option QueueId) (info : Option InfoId)
  /-- 108 to 110. -/
  | removeDelete (name : Name) (queue : QueueId) (info : Option InfoId)
  /-- 112. -/
  | removePop (name : Name) (queue : QueueId) (info : Option InfoId)
  /-- 116. -/
  | removeErase (name : Name) (info : Option InfoId)
  /-- 122 to 129, and the return where there is no entry. -/
  | removeStop (name : Name) (info : Option InfoId)
  /-- 130 to 141. -/
  | removeInfo (name : Name) (info : InfoId)
  /-- 157. -/
  | popFindInfo (name : Name)
  /-- 163. -/
  | popFindOutput (name : Name)
  /-- 169, the lookup. -/
  | popMutex (name : Name)
  /-- 169, the lock of the mutex of `info`. -/
  | popLock (name : Name) (info : InfoId)
  /-- 170, the lookup. -/
  | popCond (name : Name) (info : InfoId)
  /-- 173, `_is_run`. -/
  | popRun (name : Name) (info cond : InfoId)
  /-- 173, `empty()`. -/
  | popEmpty (name : Name) (info cond : InfoId)
  /-- In the wait, on the condition variable of `cond`. -/
  | popWait (name : Name) (info cond : InfoId) (notified : Bool)
  /-- Awake, to lock the mutex of `info` again. -/
  | popWake (name : Name) (info cond : InfoId)
  /-- 177. -/
  | popTest (name : Name) (info : InfoId)
  /-- 178. -/
  | popErase (name : Name) (info : InfoId)
  /-- 183. -/
  | popFront (name : Name) (info : InfoId)
  /-- 184. -/
  | popPop (name : Name) (info : InfoId) (b : BufferRef)
  /-- The caller of `pop` has the frame and will delete it. -/
  | hold (b : BufferRef)
  /-- 193. -/
  | distLock
  /-- 198. -/
  | distTest
  /-- In the wait, on `_input_cond`. -/
  | distWait (notified : Bool)
  /-- Awake, to lock `_input_mutex` again. -/
  | distWake
  /-- 204 to 213. -/
  | distTake
  /-- 215, 217. -/
  | distIterate (b : BufferRef) (t : Int)
  /-- 217, the iterator goes from the entry `left` to the next one, or 241 where there is none. -/
  | distVisit (b : BufferRef) (t : Int) (left : Option (Name × InfoId)) (rest : List (Name × InfoId))
  /-- 219, the iterator stands at the entry. -/
  | distDue (b : BufferRef) (t : Int) (name : Name) (info : InfoId) (rest : List (Name × InfoId))
  /-- 221. -/
  | distEntry (b : BufferRef) (t : Int) (name : Name) (info : InfoId) (rest : List (Name × InfoId))
  /-- 224 to 239. -/
  | distCopy (b : BufferRef) (t : Int) (name : Name) (info : InfoId) (rest : List (Name × InfoId))
  /-- 242. -/
  | distDelete (b : BufferRef)
  deriving DecidableEq

/-- What a thread that is idle calls. -/
inductive Request
  | push (b : VideoBuffer)
  /-- `insert_event` with a new `ThreadInfo`. -/
  | insert (name : Name) (fps : Int) (isRun : Bool)
  /-- `insert_event` with a `ThreadInfo` allocated before. -/
  | insertAgain (name : Name) (info : InfoId)
  | remove (name : Name)
  | pop (name : Name)
  deriving DecidableEq

/-- How a thread goes on. -/
inductive Act
  | call (r : Request)
  | run
  /-- `push` wakes this waiting distributor, or there is none. -/
  | notify (waiter : Option Tid)
  /-- `time(NULL)` is this. -/
  | clock (t : Int)
  /-- The iteration over `_thread_info` has this order. -/
  | iterate (order : List (Name × InfoId))
  /-- A wait ends, notified or not. -/
  | wake
  deriving DecidableEq

/-- What happened, for the record. -/
inductive Event
  | pushed (b : BufferRef)
  /-- `insert_event` entered the name, with this request. -/
  | registered (name : Name) (info : InfoId) (fps : Int) (isRun : Bool)
  /-- A pass begins its iteration, with this frame and this `_current_frame_no`. -/
  | passed (b : BufferRef) (frameNo : Int)
  | popped (name : Name) (b : BufferRef)
  /-- `remove_event` returns after it removed the entry. -/
  | removed (name : Name) (info : InfoId)
  deriving DecidableEq

/-- The queue, its mutexes and its threads. -/
structure State where
  data : VideoQueue
  inputMutex : Option Tid
  threadInfoMutex : Option Tid
  infoMutex : InfoId → Option Tid
  pc : Tid → Pc
  fault : Option Fault
  log : List Event

namespace State

def init (deviceFps : Int) : State where
  data := .new deviceFps
  inputMutex := none
  threadInfoMutex := none
  infoMutex := fun _ => none
  pc := fun i => if i < 6 then .distLock else .idle
  fault := none
  log := []

variable (s : State)

@[simps] def goto (i : Tid) (p : Pc) : State := { s with pc := Function.update s.pc i p }

@[simps] def fail (f : Fault) : State := { s with fault := some f }

@[simps] def note (e : Event) : State := { s with log := s.log ++ [e] }

@[simps] def setData (v : VideoQueue) : State := { s with data := v }

@[simps] def setInput (m : Option Tid) : State := { s with inputMutex := m }

@[simps] def setThreadInfo (m : Option Tid) : State := { s with threadInfoMutex := m }

@[simps] def setInfo (info : InfoId) (m : Option Tid) : State :=
  { s with infoMutex := Function.update s.infoMutex info m }

@[simps] def notifyAll (info : InfoId) : State :=
  { s with pc := fun i => match s.pc i with
      | .popWait name own cond notified => .popWait name own cond (notified || cond == info)
      | p => p }

@[simps] def notifyOne (waiter : Option Tid) : State :=
  { s with pc := fun i => if waiter = some i then .distWait true else s.pc i }

/-- Whom `notify_one` can wake: a waiting distributor, and nobody only where there is none. -/
def CanNotify (waiter : Option Tid) : Prop :=
  match waiter with
  | none => ∀ i < 6, s.pc i ≠ .distWait false
  | some w => s.pc w = .distWait false

instance (waiter : Option Tid) : Decidable (s.CanNotify waiter) :=
  match waiter with
  | none => inferInstanceAs (Decidable (∀ i < 6, s.pc i ≠ .distWait false))
  | some w => inferInstanceAs (Decidable (s.pc w = .distWait false))

/-! ## The step function -/

def start (i : Tid) : Request → Option State
  | .push b => some ((s.setData s.data.newBuffer).goto i (.pushLock ⟨s.data.nextAddr, b⟩))
  | .insert name fps isRun =>
    some ((s.setData (s.data.newThreadInfo fps isRun)).goto i (.insertLock name s.data.nextInfo))
  | .insertAgain name info => if info < s.data.nextInfo then some (s.goto i (.insertLock name info)) else none
  | .remove name => some (s.goto i (.removeLock name))
  | .pop name => some (s.goto i (.popFindInfo name))

/-- Line 147. -/
def runPush (i : Tid) : Pc → Option State
  | .pushLock b => if s.inputMutex = none then some ((s.setInput (some i)).goto i (.pushInput b)) else none
  | _ => none

/-- Lines 53 to 78. -/
def runInsert (i : Tid) : Pc → Option State
  | .insertLock name info =>
    if s.threadInfoMutex = none then some ((s.setThreadInfo (some i)).goto i (.insertInfo name info)) else none
  | .insertInfo name info =>
    match AList.lookup name s.data.threadInfo with
    | some _ => some ((s.setThreadInfo none).goto i .idle)
    | none =>
      if (s.data.infos info).fps = 0 then some (s.fail .zeroDivisor)
      else some (((s.setData (s.data.enterInfo name info)).note
        (.registered name info (s.data.infos info).fps (s.data.infos info).isRun)).goto i (.insertOutput name))
  | .insertOutput name => some (((s.setData (s.data.enterOutput name)).setThreadInfo none).goto i .idle)
  | _ => none

/-- Lines 88 to 141. -/
def runRemove (i : Tid) : Pc → Option State
  | .removeLock name =>
    if s.threadInfoMutex = none then some ((s.setThreadInfo (some i)).goto i (.removeFind name)) else none
  | .removeFind name =>
    some (s.goto i (.removeTouch name (AList.lookup name s.data.output) (AList.lookup name s.data.threadInfo)))
  | .removeTouch name queue info =>
    match info with
    | none => some (s.goto i (.removeDrain name queue none))
    | some t =>
      -- the iterator of line 92 is used again, and `pop` may have erased its entry
      if AList.lookup name s.data.threadInfo ≠ some t then some (s.fail .danglingIterator)
      -- the temporary `unique_lock` waits for the mutex and gives it back at once
      else if s.infoMutex t = none then some (s.goto i (.removeDrain name queue (some t)))
      else none
  | .removeDrain name queue info =>
    match queue with
    | none => some (s.goto i (.removeStop name info))
    | some q =>
      match s.data.queues q with
      | none => some (s.fail .deletedQueue)
      | some [] => some ((s.setData (s.data.deleteQueue q)).goto i (.removeErase name info))
      | some (_ :: _) => some (s.goto i (.removeDelete name q info))
  | .removeDelete name q info =>
    match s.data.queues q with
    | none => some (s.fail .deletedQueue)
    | some [] => some (s.fail .emptyQueue)
    | some (b :: _) => some ((s.setData (s.data.deleteBuffer b)).goto i (.removePop name q info))
  | .removePop name q info =>
    match s.data.queues q with
    | none => some (s.fail .deletedQueue)
    | some [] => some (s.fail .emptyQueue)
    | some (_ :: rest) => some ((s.setData (s.data.popFront q rest)).goto i (.removeDrain name (some q) info))
  | .removeErase name info => some ((s.setData (s.data.eraseOutput name)).goto i (.removeStop name info))
  | .removeStop name info =>
    match info with
    | none => some ((s.setThreadInfo none).goto i .idle)
    | some t =>
      if AList.lookup name s.data.threadInfo = some t then
        some ((s.setData (s.data.stopInfo t)).goto i (.removeInfo name t))
      else some (s.fail .danglingIterator)
  | .removeInfo name info =>
    some ((((s.setData (s.data.eraseThreadInfo name)).setThreadInfo none).note (.removed name info)).goto i .idle)
  | _ => none

/-- Lines 157 to 187. -/
def runPop (i : Tid) : Pc → Option State
  | .popFindInfo name =>
    match AList.lookup name s.data.threadInfo with
    | none => some (s.goto i .idle)
    | some _ => some (s.goto i (.popFindOutput name))
  | .popFindOutput name =>
    match AList.lookup name s.data.output with
    | none => some (s.goto i .idle)
    | some _ => some (s.goto i (.popMutex name))
  | .popMutex name =>
    match AList.lookup name s.data.threadInfo with
    | none => some (s.fail .absentEntry)
    | some info => some (s.goto i (.popLock name info))
  | .popLock name info =>
    if s.infoMutex info = none then some ((s.setInfo info (some i)).goto i (.popCond name info)) else none
  | .popCond name info =>
    match AList.lookup name s.data.threadInfo with
    | none => some (s.fail .absentEntry)
    | some cond => some (s.goto i (.popRun name info cond))
  | .popRun name info cond =>
    match AList.lookup name s.data.threadInfo with
    | none => some (s.fail .absentEntry)
    | some t =>
      if (s.data.infos t).isRun then some (s.goto i (.popEmpty name info cond))
      else some (s.goto i (.popTest name info))
  | .popEmpty name info cond =>
    match AList.lookup name s.data.output with
    | none => some (s.fail .absentEntry)
    | some q =>
      match s.data.queues q with
      | none => some (s.fail .deletedQueue)
      | some [] => some ((s.setInfo info none).goto i (.popWait name info cond false))
      | some (_ :: _) => some (s.goto i (.popTest name info))
  | .popWake name info cond =>
    if s.infoMutex info = none then some ((s.setInfo info (some i)).goto i (.popRun name info cond)) else none
  | .popTest name info =>
    match AList.lookup name s.data.threadInfo with
    | none => some (s.fail .absentEntry)
    | some t =>
      if (s.data.infos t).isRun then some (s.goto i (.popFront name info))
      else some (s.goto i (.popErase name info))
  | .popErase name info => some (((s.setData (s.data.eraseThreadInfo name)).setInfo info none).goto i .idle)
  | .popFront name info =>
    match AList.lookup name s.data.output with
    | none => some (s.fail .absentEntry)
    | some q =>
      match s.data.queues q with
      | none => some (s.fail .deletedQueue)
      | some [] => some (s.fail .emptyQueue)
      | some (b :: _) => some (s.goto i (.popPop name info b))
  | .popPop name info b =>
    match AList.lookup name s.data.output with
    | none => some (s.fail .absentEntry)
    | some q =>
      match s.data.queues q with
      | none => some (s.fail .deletedQueue)
      | some [] => some (s.fail .emptyQueue)
      | some (_ :: rest) =>
        some ((((s.setData (s.data.popFront q rest)).setInfo info none).note (.popped name b)).goto i (.hold b))
  | .hold b => some ((s.setData (s.data.deleteBuffer b)).goto i .idle)
  | _ => none

/-- The entry an iterator stands at is not there any more. -/
def Erased (entry : Option (Name × InfoId)) : Prop :=
  ∃ e ∈ entry, AList.lookup e.1 s.data.threadInfo ≠ some e.2

instance (entry : Option (Name × InfoId)) : Decidable (s.Erased entry) :=
  inferInstanceAs (Decidable (∃ e ∈ entry, _))

/-- Lines 193 to 242. -/
def runDistribute (i : Tid) : Pc → Option State
  | .distLock => if s.inputMutex = none then some ((s.setInput (some i)).goto i .distTest) else none
  | .distTest =>
    match s.data.input with
    | [] => some ((s.setInput none).goto i (.distWait false))
    | _ :: _ => some (s.goto i .distTake)
  | .distWake => if s.inputMutex = none then some ((s.setInput (some i)).goto i .distTest) else none
  | .distVisit b t left rest =>
    if s.Erased left then some (s.fail .danglingIterator)
    else match rest with
      | [] => some ((s.setThreadInfo none).goto i (.distDelete b))
      | (name, info) :: rest =>
        -- an entry that was erased before the iterator came to it is not reached
        if AList.lookup name s.data.threadInfo = some info then some (s.goto i (.distDue b t name info rest))
        else some (s.goto i (.distVisit b t left rest))
  | .distDue b t name info rest =>
    if AList.lookup name s.data.threadInfo ≠ some info then some (s.fail .danglingIterator)
    else match s.data.due info with
      | none => some (s.fail .zeroDivisor)
      | some false => some (s.goto i (.distVisit b t (some (name, info)) rest))
      | some true => some (s.goto i (.distEntry b t name info rest))
  | .distEntry b t name info rest =>
    if AList.lookup name s.data.threadInfo ≠ some info then some (s.fail .danglingIterator)
    else if s.infoMutex info = none then
      some ((s.setInfo info (some i)).goto i (.distCopy b t name info rest))
    else none
  | .distCopy b t name info rest =>
    if AList.lookup name s.data.threadInfo ≠ some info then some (s.fail .danglingIterator)
    else match s.data.copyTo b t name with
      | .done v _ =>
        some ((((s.notifyAll info).setData v).setInfo info none).goto i (.distVisit b t (some (name, info)) rest))
      | .blocked => none
      | .fault f => some (s.fail f)
  | .distDelete b => some (((s.setData (s.data.deleteBuffer b)).setInput none).goto i .distLock)
  | _ => none

def step (s : State) : Tid × Act → Option State
  | (i, a) =>
    if s.fault ≠ none then none
    else match a, s.pc i with
      | .call r, .idle => s.start i r
      | .notify waiter, .pushInput b =>
        if s.CanNotify waiter then
          some (((((s.notifyOne waiter).setData (s.data.push b)).setInput none).note (.pushed b)).goto i .idle)
        else none
      | .clock t, .distTake =>
        match s.data.takeInput with
        | none => some (s.fail .emptyQueue)
        | some (b, v) => some ((s.setData v).goto i (.distIterate b t))
      | .iterate order, .distIterate b t =>
        if s.threadInfoMutex = none ∧ UnorderedMap.IterationOrder s.data.threadInfo order then
          some (((s.setThreadInfo (some i)).note (.passed b s.data.currentFrameNo)).goto i (.distVisit b t none order))
        else none
      | .wake, .popWait name info cond _ => some (s.goto i (.popWake name info cond))
      | .wake, .distWait _ => some (s.goto i .distWake)
      | .run, p =>
        (s.runPush i p).or ((s.runInsert i p).or ((s.runRemove i p).or ((s.runPop i p).or (s.runDistribute i p))))
      | _, _ => none

end State

end RpiCam
