import RpiCam.Event.Handler
import RpiCam.Live.Clock
import RpiCam.VideoQueue.Lookup

/-!
# The consumers of the queue

Three kinds of threads take frames from the queue by name: the loops that `start_event` launches, the live stream that
`play_stream` registers, and `make_sdp`. `System` is the machine of the queue with the handler of the events and, for
each thread, where its caller is (`Caller`).

* `Consumer`, `Caller` : what a thread is, and the line of its caller;
* `System.step` : a call on the queue goes on, or the caller does; no caller looks at the result of `insert_event`;
* `Rule.caller_cases` : what a step does to a thread and its caller;
* `Agree` : where the caller is inside a call, so is the thread; `reach_agree`;
* `reach_queue` : the queue of a reached system is a reached queue.

The GStreamer thread of a stream and the thread that registered it are one thread here: the first pops after the other
has registered, and is gone before `make_sdp` removes its name. There is one pipeline for the live stream, so a
`play_stream` that finds it playing brings no thread that pops.

A processor that is deleted can still be used; the loop of such a processor has read its settings or has not, and both are
steps. Deleting it again is a fault, and so is `stop_event` of a name that is not there. An id is never used again: that an
address is shows through a deleted processor only.
-/

namespace RpiCam

open Transition

/-- The consumer of `make_sdp`. -/
def sdpName : Name := ['s', 'd', 'p']

/-- Who takes frames. -/
inductive Consumer
  /-- The loop of a processor, with its `_event_name`. -/
  | event (p : ProcessorId) (name : Name)
  | live
  | sdp
  deriving DecidableEq

def Consumer.name : Consumer → Name
  | .event _ name => name
  | .live => liveName
  | .sdp => sdpName

/-- Where the caller of the queue is. -/
inductive Caller
  /-- In none of these functions. -/
  | free
  /-- Before `insert_event`. -/
  | launched (c : Consumer)
  | inserting (c : Consumer)
  /-- Before `pop`. -/
  | ready (c : Consumer)
  | popping (c : Consumer)
  /-- With the frame: in `event_exec`, or in the callback of the pipeline. -/
  | executing (c : Consumer)
  /-- `make_sdp` in `remove_event`. -/
  | finishing
  | returned (c : Consumer)
  /-- `stop_event` in `remove_event`. -/
  | stopping (name : Name)
  deriving DecidableEq

/-- What happened, for the record. -/
inductive Mark
  /-- The `insert_event` of a consumer returned 1. -/
  | refused (i : Tid) (c : Consumer)
  /-- A frame is handed to the consumer. -/
  | handed (i : Tid) (c : Consumer) (b : BufferRef)
  /-- `stop_event` returns after it deleted the processor. -/
  | stopped (name : Name) (p : ProcessorId)
  deriving DecidableEq

/-- What `stop_event` must not run into. -/
inductive StopFault
  /-- Line 31 uses `end()`. -/
  | absentName
  /-- Line 32 deletes what was deleted before. -/
  | deletedProcessor
  deriving DecidableEq

/-- The queue, the event handler and the callers. -/
structure System where
  queue : State
  handler : EventHandler
  caller : Tid → Caller
  /-- The pipeline of the live stream is in `PLAYING`. -/
  playing : Bool
  fault : Option StopFault
  marks : List Mark

/-- How a thread goes on. -/
inductive SysAct
  /-- In the queue, or a producer begins a `push`. -/
  | queue (a : Act)
  /-- `start_event`, with the processor it constructs and the thread it launches. -/
  | startEvent (event : EventProcessor) (thread : Tid)
  /-- `play_stream` or `make_sdp` begins. -/
  | stream (c : Consumer)
  /-- The consumer calls `insert_event`. -/
  | insert (r : Request)
  /-- `insert_event` returned, with any result. -/
  | inserted
  | pop
  /-- `pop` returned null: a loop ends, a stream waits for the next request of its pipeline. -/
  | noFrame
  /-- `pop` returned a frame. -/
  | frame
  /-- The frame is deleted. -/
  | deleted
  /-- The pipeline of `make_sdp` is at its end. -/
  | finish
  | finished
  /-- `stop_event` begins. -/
  | stopEvent (name : Name)
  /-- Lines 31 and 32 of `stop_event`. -/
  | delete

/-- The request by which a consumer registers. `play_stream` uses one `ThreadInfo` again. A setting that was not read,
or is read after the processor was deleted, is any. -/
def Consumer.requests (h : EventHandler) : Consumer → Request → Bool
  | .event p name, .insert n fps isRun =>
    n = name && ((h.objects p).bind EventProcessor.fps).all (· = fps) &&
      ((h.objects p).bind EventProcessor.enable).all (· = isRun)
  | .live, .insert n fps isRun => n = liveName && fps = 30 && isRun
  | .live, .insertAgain n _ => n = liveName
  | .sdp, .insert n fps isRun => n = sdpName && fps = 30 && isRun
  | _, _ => false

/-- The call a thread is in. -/
inductive Work
  | none
  | push
  | distribute
  | insert (name : Name)
  | remove (name : Name)
  | pop (name : Name)
  /-- With the frame that `pop` returned. -/
  | hold
  deriving DecidableEq

/-- The call of a place. -/
def Pc.work : Pc → Work
  | idle => .none
  | pushLock _ | pushInput _ => .push
  | insertLock n _ | insertInfo n _ | insertOutput n => .insert n
  | removeLock n | removeFind n | removeTouch n _ _ | removeDrain n _ _ | removeDelete n _ _ | removePop n _ _
  | removeErase n _ | removeStop n _ | removeInfo n _ => .remove n
  | popFindInfo n | popFindOutput n | popMutex n | popLock n _ | popCond n _ | popRun n _ _ | popEmpty n _ _
  | popWait n _ _ _ | popWake n _ _ | popTest n _ | popErase n _ | popFront n _ | popPop n _ _ => .pop n
  | hold _ => .hold
  | distLock | distTest | distWait _ | distWake | distTake | distIterate _ _ | distVisit _ _ _ _ | distDue _ _ _ _ _
  | distEntry _ _ _ _ _ | distCopy _ _ _ _ _ | distDelete _ => .distribute

namespace System

/-- The program after the constructors, for a device of this rate. -/
def init (deviceFps : Int) : System where
  queue := .init deviceFps
  handler := .new
  caller := fun _ => .free
  playing := false
  fault := none
  marks := []

variable (s : System)

@[simps] def goto (i : Tid) (p : Caller) : System := { s with caller := Function.update s.caller i p }

@[simps] def setQueue (q : State) : System := { s with queue := q }

@[simps] def setHandler (h : EventHandler) : System := { s with handler := h }

@[simps] def setPlaying (b : Bool) : System := { s with playing := b }

@[simps] def fail (f : StopFault) : System := { s with fault := some f }

@[simps] def mark (m : List Mark) : System := { s with marks := s.marks ++ m }

/-- What is taken down of a step in the queue: line 56 of `insert_event` for a consumer. -/
def refusal (i : Tid) : List Mark :=
  match s.caller i, s.queue.pc i with
  | .inserting c, .insertInfo name _ =>
    if (AList.lookup name s.queue.data.threadInfo).isSome then [.refused i c] else []
  | _, _ => []

/-- The steps in the queue that are not a caller's: a frame that was popped waits for its caller, and of the calls
only `push` is made by the others. -/
def inQueue (i : Tid) : Act → Bool
  | .call (.push _) => s.caller i = .free
  | .call _ => false
  | .run =>
    match s.queue.pc i, s.caller i with
    | .hold _, .executing _ => true
    | .hold _, _ => false
    | _, _ => true
  | _ => true

def begin (i : Tid) (r : Request) (p : Caller) : Option System :=
  (State.step s.queue (i, .call r)).map fun q => (s.setQueue q).goto i p

def step (s : System) : Tid × SysAct → Option System
  | (i, a) =>
    if s.queue.fault ≠ none ∨ s.fault ≠ none then none
    else match a, s.caller i with
      | .queue a, _ =>
        if s.inQueue i a then (State.step s.queue (i, a)).map fun q => (s.setQueue q).mark (s.refusal i) else none
      | .startEvent event t, .free =>
        if s.queue.pc i = .idle ∧ s.caller t = .free ∧ s.queue.pc t = .idle ∧ t ≠ i then
          some ((s.setHandler (s.handler.startEvent event)).goto t
            (.launched (.event s.handler.nextProcessor event.eventName)))
        else none
      | .stream c, .free =>
        if s.queue.pc i = .idle ∧ (c = .live ∨ c = .sdp) then some (s.goto i (.launched c)) else none
      | .insert r, .launched c => if c.requests s.handler r then s.begin i r (.inserting c) else none
      | .inserted, .inserting c =>
        if s.queue.pc i = .idle then
          if c = .live ∧ s.playing = true then some (s.goto i (.returned c))
          else some ((s.setPlaying (s.playing || c = .live)).goto i (.ready c))
        else none
      | .pop, .ready c => s.begin i (.pop c.name) (.popping c)
      | .noFrame, .popping c =>
        if s.queue.pc i = .idle then
          some (s.goto i (match c with
            | .event p name => .returned (.event p name)
            | c => .ready c))
        else none
      | .frame, .popping c =>
        match s.queue.pc i with
        | .hold b => some ((s.mark [.handed i c b]).goto i (.executing c))
        | _ => none
      | .deleted, .executing c => if s.queue.pc i = .idle then some (s.goto i (.ready c)) else none
      | .finish, .ready .sdp => s.begin i (.remove sdpName) .finishing
      | .finished, .finishing => if s.queue.pc i = .idle then some (s.goto i (.returned .sdp)) else none
      | .stopEvent name, .free => s.begin i (.remove name) (.stopping name)
      | .delete, .stopping name =>
        if s.queue.pc i = .idle then
          match s.handler.stopEvent name with
          | none => some (s.fail .absentName)
          | some (h, p) =>
            if p ∈ s.handler.deleted then some (s.fail .deletedProcessor)
            else some (((s.setHandler h).mark [.stopped name p]).goto i .free)
        else none
      | _, _ => none

/-! ## The rules -/

/-- A caller goes on outside the queue, and the pipeline of the live stream. -/
inductive Turns (playing : Bool) : SysAct → Caller → Caller → Bool → Prop
  | stream {c} : c = .live ∨ c = .sdp → Turns playing (.stream c) .free (.launched c) playing
  | inserted {c} : ¬ (c = .live ∧ playing = true) →
      Turns playing .inserted (.inserting c) (.ready c) (playing || c = .live)
  | playsAlready : playing = true → Turns playing .inserted (.inserting .live) (.returned .live) playing
  | loopEnds {p name} : Turns playing .noFrame (.popping (.event p name)) (.returned (.event p name)) playing
  | noFrame {c} : c = .live ∨ c = .sdp → Turns playing .noFrame (.popping c) (.ready c) playing
  | deleted {c} : Turns playing .deleted (.executing c) (.ready c) playing
  | finished : Turns playing .finished .finishing (.returned .sdp) playing

/-- A caller calls the queue. -/
inductive Calls (s : System) : SysAct → Request → Caller → Caller → Prop
  | insert {c r} : c.requests s.handler r = true → Calls s (.insert r) r (.launched c) (.inserting c)
  | pop {c} : Calls s .pop (.pop c.name) (.ready c) (.popping c)
  | finish : Calls s .finish (.remove sdpName) (.ready .sdp) .finishing
  | stopEvent {name} : Calls s (.stopEvent name) (.remove name) .free (.stopping name)

/-- One step of thread `i`, from its place. -/
inductive Rule (s : System) (i : Tid) : SysAct → Caller → System → Prop
  | queue {a p q} : s.inQueue i a = true → State.step s.queue (i, a) = some q →
      Rule s i (.queue a) p ((s.setQueue q).mark (s.refusal i))
  | startEvent {event t} : s.queue.pc i = .idle → s.caller t = .free → s.queue.pc t = .idle → t ≠ i →
      Rule s i (.startEvent event t) .free ((s.setHandler (s.handler.startEvent event)).goto t
        (.launched (.event s.handler.nextProcessor event.eventName)))
  | turn {a p p' b} : Turns s.playing a p p' b → s.queue.pc i = .idle → Rule s i a p ((s.setPlaying b).goto i p')
  | call {a r p p' q} : Calls s a r p p' → State.step s.queue (i, .call r) = some q →
      Rule s i a p ((s.setQueue q).goto i p')
  | frame {c b} : s.queue.pc i = .hold b → Rule s i .frame (.popping c) ((s.mark [.handed i c b]).goto i (.executing c))
  | deleteFails {name f} : (∀ p, AList.lookup name s.handler.eventThread = some p → p ∈ s.handler.deleted) →
      Rule s i .delete (.stopping name) (s.fail f)
  | delete {name h p} : s.queue.pc i = .idle → s.handler.stopEvent name = some (h, p) → p ∉ s.handler.deleted →
      Rule s i .delete (.stopping name) (((s.setHandler h).mark [.stopped name p]).goto i .free)

theorem begin_sound {s s' : System} {i : Tid} {a : SysAct} {r : Request} {p p' : Caller} (hc : Calls s a r p p')
    (h : s.begin i r p' = some s') : Rule s i a p s' := by
  unfold begin at h
  rw [Option.map_eq_some_iff] at h
  obtain ⟨q, hq, rfl⟩ := h
  exact .call hc hq

theorem step_sound {s s' : System} {i : Tid} {a : SysAct} (h : step s (i, a) = some s') :
    Rule s i a (s.caller i) s' := by
  simp only [step] at h
  split at h
  · cases h
  split at h
  · split_ifs at h with hin
    rw [Option.map_eq_some_iff] at h
    obtain ⟨q, hq, rfl⟩ := h
    exact .queue hin hq
  · rename_i event t hp
    rw [hp]
    split_ifs at h with hc
    cases h
    exact .startEvent hc.1 hc.2.1 hc.2.2.1 hc.2.2.2
  · rename_i c hp
    rw [hp]
    split_ifs at h with hc
    cases h
    exact .turn (.stream hc.2) hc.1
  · rename_i r c hp
    rw [hp]
    split_ifs at h with hc
    exact begin_sound (.insert hc) h
  · rename_i c hp
    rw [hp]
    split_ifs at h with hc hplays
    · cases h
      obtain ⟨rfl, hplaying⟩ := hplays
      exact .turn (.playsAlready hplaying) hc
    · cases h
      exact .turn (.inserted hplays) hc
  · rename_i c hp
    rw [hp]
    exact begin_sound .pop h
  · rename_i c hp
    rw [hp]
    split_ifs at h with hc
    cases h
    cases c with
    | event p name => exact .turn .loopEnds hc
    | live => exact .turn (.noFrame (Or.inl rfl)) hc
    | sdp => exact .turn (.noFrame (Or.inr rfl)) hc
  · rename_i c hp
    rw [hp]
    split at h
    · cases h
      exact .frame (by assumption)
    · cases h
  · rename_i c hp
    rw [hp]
    split_ifs at h with hc
    cases h
    exact .turn .deleted hc
  · rename_i hp
    rw [hp]
    exact begin_sound .finish h
  · rename_i hp
    rw [hp]
    split_ifs at h with hc
    cases h
    exact .turn .finished hc
  · rename_i name hp
    rw [hp]
    exact begin_sound .stopEvent h
  · rename_i name hp
    rw [hp]
    split_ifs at h with hc
    split at h
    · rename_i hnone
      cases h
      rw [EventHandler.stopEvent, Option.map_eq_none_iff] at hnone
      refine .deleteFails fun p hl => ?_
      rw [hnone] at hl
      cases hl
    · rename_i handler p hsome
      split_ifs at h with hdel
      · cases h
        refine .deleteFails fun q hl => ?_
        rw [EventHandler.stopEvent, hl, Option.map_some, Option.some.injEq, Prod.mk.injEq] at hsome
        rw [hsome.2]
        exact hdel
      · cases h
        exact .delete hc hsome hdel
  · cases h

/-- The caller of thread `i` goes on, from `s` to `s'`. -/
inductive Goes (s s' : System) (i : Tid) : SysAct → Caller → Caller → Prop
  | turn {a p p' b} : Turns s.playing a p p' b → s'.playing = b → s.queue.pc i = .idle → s'.queue = s.queue →
      Goes s s' i a p p'
  | call {a r p p'} : Calls s a r p p' → State.step s.queue (i, .call r) = some s'.queue → Goes s s' i a p p'
  | frame {c b} : s.queue.pc i = .hold b → s'.queue = s.queue → Goes s s' i .frame (.popping c) (.executing c)
  | delete {name} : s.queue.pc i = .idle → s'.queue = s.queue → Goes s s' i .delete (.stopping name) .free

/-- What a step does to a thread: its caller stays, and it goes on in the queue at most; or `start_event` launches it;
or its caller goes on. -/
theorem Rule.caller_cases {s s' : System} {i : Tid} {a : SysAct} (h : Rule s i a (s.caller i) s') (j : Tid) :
    (s'.caller j = s.caller j ∧ (s'.queue.pc j = s.queue.pc j ∨
      ∃ b, State.step s.queue (i, b) = some s'.queue ∧ (j = i → s.inQueue i b = true))) ∨
    (s.caller j = .free ∧ s'.queue.pc j = .idle ∧ ∃ event, a = .startEvent event j ∧
      s'.caller j = .launched (.event s.handler.nextProcessor event.eventName)) ∨
    (j = i ∧ Goes s s' i a (s.caller j) (s'.caller j)) := by
  generalize hp : s.caller i = p at h
  by_cases hj : j = i
  · subst hj
    rw [hp]
    cases h with
    | queue hin hq => exact Or.inl ⟨hp, Or.inr ⟨_, hq, fun _ => hin⟩⟩
    | startEvent hi ht hti hne => exact Or.inl ⟨by simp [Function.update_of_ne hne.symm, hp], Or.inl rfl⟩
    | turn ht hidle => exact Or.inr (Or.inr ⟨rfl, by simpa using .turn ht rfl hidle rfl⟩)
    | call hc hq => exact Or.inr (Or.inr ⟨rfl, by simpa using .call hc hq⟩)
    | frame hb => exact Or.inr (Or.inr ⟨rfl, by simpa using .frame hb rfl⟩)
    | deleteFails => exact Or.inl ⟨hp, Or.inl rfl⟩
    | delete hidle hn hdel => exact Or.inr (Or.inr ⟨rfl, by simpa using .delete hidle rfl⟩)
  · cases h with
    | queue hin hq => exact Or.inl ⟨rfl, Or.inr ⟨_, hq, fun h => absurd h hj⟩⟩
    | @startEvent event t hi ht hti hne =>
      by_cases hjt : j = t
      · subst hjt
        exact Or.inr (Or.inl ⟨ht, hti, event, rfl, by simp⟩)
      · exact Or.inl ⟨by simp [Function.update_of_ne hjt], Or.inl rfl⟩
    | turn ht hidle => exact Or.inl ⟨by simp [Function.update_of_ne hj], Or.inl rfl⟩
    | call hc hq => exact Or.inl ⟨by simp [Function.update_of_ne hj], Or.inr ⟨_, hq, fun h => absurd h hj⟩⟩
    | frame hb => exact Or.inl ⟨by simp [Function.update_of_ne hj], Or.inl rfl⟩
    | deleteFails => exact Or.inl ⟨rfl, Or.inl rfl⟩
    | delete hidle hn hdel => exact Or.inl ⟨by simp [Function.update_of_ne hj], Or.inl rfl⟩

theorem Rule.queue_cases {s s' : System} {i : Tid} {a : SysAct} {p : Caller} (h : Rule s i a p s') :
    s'.queue = s.queue ∨ ∃ b, State.step s.queue (i, b) = some s'.queue := by
  cases h with
  | queue hin hq => exact Or.inr ⟨_, hq⟩
  | call hc hq => exact Or.inr ⟨_, hq⟩
  | startEvent | turn | frame | deleteFails | delete => exact Or.inl rfl

/-- **The queue of a reached system is a reached queue.** -/
theorem reach_queue {F : Int} {ok : System → Tid × SysAct → Prop} {s : System} (h : Reach (· = init F) step ok s) :
    Reach (· = State.init F) State.step (fun _ _ => True) s.queue := by
  induction h with
  | init hs =>
    subst hs
    exact .init rfl
  | @next s s' a _ _ hst ih =>
    rcases (step_sound hst).queue_cases with hq | ⟨b, hq⟩
    · rw [hq]
      exact ih
    · exact .next _ ih trivial hq

end System

/-! ## Callers and places -/

theorem Pc.work_plain (p : Pc) : p.plain.work = p.work := by cases p <;> rfl

theorem Pc.work_eq_none {p : Pc} : p.work = .none ↔ p = .idle := by cases p <;> simp [Pc.work]

/-- The call that a request begins. -/
def Request.work : Request → Work
  | .push _ => .push
  | .insert n _ _ | .insertAgain n _ => .insert n
  | .remove n => .remove n
  | .pop n => .pop n

def Caller.consumer : Caller → Option Consumer
  | .launched c | .inserting c | .ready c | .popping c | .executing c | .returned c => some c
  | .finishing => some .sdp
  | .free | .stopping _ => none

/-- A thread in a call is where its caller says. -/
def Caller.Agree : Caller → Work → Prop
  | .free, w => w = .none ∨ w = .push ∨ w = .distribute
  | .launched _, w | .ready _, w | .returned _, w => w = .none
  | .inserting c, w => w = .none ∨ w = .insert c.name
  | .popping c, w => w = .none ∨ w = .pop c.name ∨ w = .hold
  | .executing _, w => w = .none ∨ w = .hold
  | .finishing, w => w = .none ∨ w = .remove sdpName
  | .stopping n, w => w = .none ∨ w = .remove n

theorem Caller.agree_none (c : Caller) : c.Agree .none := by cases c <;> simp [Caller.Agree]

open State in
/-- A step in the queue stays in the call, ends it, or comes back from `pop` with a frame. -/
theorem State.Step.work {s s' : State} {i : Tid} {a : Act} (h : Step s i a (s.pc i) s') (hpc : s.pc i ≠ .idle) :
    s'.pc i = .idle ∨ (s'.pc i).work = (s.pc i).work ∨ ∃ n b, (s.pc i).work = .pop n ∧ s'.pc i = .hold b := by
  generalize hp : s.pc i = p at h hpc ⊢
  cases h
  case move p' hm =>
    simp only [goto_pc, Function.update_self]
    cases hm <;> first | exact absurd rfl hpc | exact Or.inl rfl | exact Or.inr (Or.inl rfl)
  case lockInput p' hfree hm =>
    simp only [goto_pc, Function.update_self]
    cases hm <;> exact Or.inr (Or.inl rfl)
  case lockThreadInfo p' hfree hm =>
    simp only [goto_pc, Function.update_self]
    cases hm <;> exact Or.inr (Or.inl rfl)
  case lockInfo p' t hfree hm =>
    simp only [goto_pc, Function.update_self]
    cases hm <;> exact Or.inr (Or.inl rfl)
  case fail f hm => exact Or.inr (Or.inl (by rw [fail_pc, hp]))
  case popPop n t b q c rest ho hq => exact Or.inr (Or.inr ⟨n, b, rfl, by simp⟩)
  all_goals
    first
    | exact absurd rfl hpc
    | rw [goto_pc, Function.update_self]
      first
      | exact Or.inl rfl
      | exact Or.inr (Or.inl rfl)

theorem State.call_work {s s' : State} {i : Tid} {r : Request} (h : State.step s (i, .call r) = some s') :
    (s'.pc i).work = r.work := by
  have hidle := State.idle_of_call h
  simp only [State.step, hidle] at h
  split_ifs at h
  cases r <;> simp only [State.start] at h
  case insertAgain n t =>
    split_ifs at h
    cases h
    simp [Pc.work, Request.work]
  all_goals
    cases h
    simp [Pc.work, Request.work]

theorem State.work_of_ne {s s' : State} {i j : Tid} {a : Act} (h : State.step s (i, a) = some s') (hj : j ≠ i) :
    (s'.pc j).work = (s.pc j).work := by
  rw [← Pc.work_plain, (State.step_sound h).plain_of_ne hj, Pc.work_plain]

theorem Consumer.requests_work {h : EventHandler} {c : Consumer} {r : Request} (hr : c.requests h r = true) :
    r.work = .insert c.name := by
  cases c <;> cases r <;>
    simp only [Consumer.requests, Bool.and_eq_true, decide_eq_true_eq, Bool.false_eq_true] at hr <;>
    simp only [Request.work, Consumer.name, hr]

namespace System

/-- A thread that is in no call goes on in the queue as a producer. -/
theorem push_of_inQueue {s : System} {i : Tid} {a : Act} {q : State} (hin : s.inQueue i a = true)
    (hq : State.step s.queue (i, a) = some q) (hidle : s.queue.pc i = .idle) :
    s.caller i = .free ∧ (q.pc i).work = .push := by
  cases a with
  | call r =>
    cases r with
    | push b => exact ⟨by simpa [inQueue] using hin, State.call_work hq⟩
    | _ => cases hin
  | _ =>
    simp [State.step, hidle, State.runPush, State.runInsert, State.runRemove, State.runPop,
      State.runDistribute] at hq

theorem agree_inQueue {s : System} {i : Tid} {a : Act} {q : State}
    (hs : (s.caller i).Agree (s.queue.pc i).work) (hin : s.inQueue i a = true)
    (hq : State.step s.queue (i, a) = some q) : (s.caller i).Agree (q.pc i).work := by
  by_cases hidle : s.queue.pc i = .idle
  · obtain ⟨hfree, hw⟩ := push_of_inQueue hin hq hidle
    rw [hfree, hw]
    exact Or.inr (Or.inl rfl)
  · rcases (State.step_sound hq).work hidle with hw | hw | ⟨n, b, hp, hw⟩
    · rw [hw]
      exact Caller.agree_none _
    · rw [hw]
      exact hs
    · rw [hw]
      rw [hp] at hs
      cases hc : s.caller i <;> rw [hc] at hs <;> simp [Caller.Agree] at hs
      exact Or.inr (Or.inr rfl)

theorem Goes.agree {s s' : System} {i : Tid} {a : SysAct} {p p' : Caller} (h : Goes s s' i a p p') :
    p'.Agree (s'.queue.pc i).work := by
  cases h with
  | turn ht hplays hidle hq =>
    rw [hq, hidle]
    exact Caller.agree_none _
  | call hc hq =>
    rw [State.call_work hq]
    cases hc with
    | insert hr => exact Or.inr (Consumer.requests_work hr)
    | pop => exact Or.inr (Or.inl rfl)
    | finish => exact Or.inr rfl
    | stopEvent => exact Or.inr rfl
  | frame hb hq =>
    rw [hq, hb]
    exact Or.inr rfl
  | delete hidle hq =>
    rw [hq, hidle]
    exact Caller.agree_none _

/-- **A thread in a call is where its caller says.** -/
theorem reach_agree {F : Int} {ok : System → Tid × SysAct → Prop} {s : System} (h : Reach (· = init F) step ok s)
    (j : Tid) : (s.caller j).Agree (s.queue.pc j).work := by
  revert j
  refine Reach.invariant (fun s => ∀ j, (s.caller j).Agree (s.queue.pc j).work) ?_ ?_ h
  · rintro s rfl j
    rcases State.init_pc F j with hj | hj
    · exact Or.inr (Or.inr (by rw [init, hj]; rfl))
    · exact Or.inl (by rw [init, hj]; rfl)
  · intro s a s' hs _ hst j
    rcases (step_sound hst).caller_cases j with ⟨he, hpc | ⟨b, hq, hin⟩⟩ | ⟨-, hidle, event, -, hl⟩ | ⟨rfl, hg⟩
    · rw [he, hpc]
      exact hs j
    · rw [he]
      by_cases hj : j = a.1
      · rw [hj] at hin ⊢
        exact agree_inQueue (hs a.1) (hin rfl) hq
      · rw [State.work_of_ne hq hj]
        exact hs j
    · rw [hl, hidle]
      rfl
    · exact hg.agree

/-! ## What a step changes -/

/-- A thread is the consumer, and has not returned. -/
def Runs (s : System) (i : Tid) (c : Consumer) : Prop :=
  (s.caller i).consumer = some c ∧ ∀ c', s.caller i ≠ .returned c'

/-- A caller that goes on stays the consumer it is, or it begins a stream. -/
theorem Goes.consumer {s s' : System} {i : Tid} {a : SysAct} {p p' : Caller} (h : Goes s s' i a p p') :
    p'.consumer = p.consumer ∨ (p = .free ∧ ∃ c, a = .stream c ∧ (c = .live ∨ c = .sdp) ∧ p' = .launched c) := by
  cases h with
  | turn ht =>
    cases ht with
    | stream hc => exact Or.inr ⟨rfl, _, rfl, hc, rfl⟩
    | _ => exact Or.inl rfl
  | call hc => exact Or.inl (by cases hc <;> rfl)
  | frame => exact Or.inl rfl
  | delete => exact Or.inl rfl

theorem Rule.consumer_cases {s s' : System} {i : Tid} {a : SysAct} (h : Rule s i a (s.caller i) s') (j : Tid) :
    (s'.caller j).consumer = (s.caller j).consumer ∨
      (s.caller j = .free ∧ ((∃ event, a = .startEvent event j ∧
          s'.caller j = .launched (.event s.handler.nextProcessor event.eventName)) ∨
        ∃ c, a = .stream c ∧ j = i ∧ (c = .live ∨ c = .sdp) ∧ s'.caller j = .launched c)) := by
  rcases h.caller_cases j with ⟨he, -⟩ | ⟨hfree, -, hstart⟩ | ⟨hj, hg⟩
  · exact Or.inl (by rw [he])
  · exact Or.inr ⟨hfree, Or.inl hstart⟩
  · rcases hg.consumer with he | ⟨hfree, c, ha, hc, hl⟩
    · exact Or.inl he
    · exact Or.inr ⟨hfree, Or.inr ⟨c, ha, hj, hc, hl⟩⟩

/-- A consumer that has returned does nothing any more. -/
theorem Rule.returned_kept {s s' : System} {i j : Tid} {a : SysAct} {c : Consumer} (h : Rule s i a (s.caller i) s')
    (hj : s.caller j = .returned c) : s'.caller j = .returned c := by
  rcases h.caller_cases j with ⟨he, -⟩ | ⟨hfree, -⟩ | ⟨-, hg⟩
  · rw [he, hj]
  · rw [hj] at hfree
    cases hfree
  · rw [hj] at hg
    cases hg with
    | turn ht => cases ht
    | call hc => cases hc

theorem Rule.runs_cases {s s' : System} {i j : Tid} {a : SysAct} {c : Consumer} (h : Rule s i a (s.caller i) s')
    (hj : s'.Runs j c) : s.Runs j c ∨ (s.caller j = .free ∧
      ((∃ event, a = .startEvent event j ∧ c = .event s.handler.nextProcessor event.eventName) ∨
        (a = .stream c ∧ j = i))) := by
  rcases h.consumer_cases j with he | ⟨hfree, ⟨event, ha, hc⟩ | ⟨c', ha, hi, -, hc⟩⟩
  · refine Or.inl ⟨he ▸ hj.1, fun c' hret => ?_⟩
    exact hj.2 c' (h.returned_kept hret)
  · have hcons := hj.1
    rw [hc] at hcons
    cases hcons
    exact Or.inr ⟨hfree, Or.inl ⟨event, ha, rfl⟩⟩
  · have hcons := hj.1
    rw [hc] at hcons
    cases hcons
    exact Or.inr ⟨hfree, Or.inr ⟨ha, hi⟩⟩

theorem Rule.stopping_cases {s s' : System} {i j : Tid} {a : SysAct} {name : Name} (h : Rule s i a (s.caller i) s')
    (hj : s'.caller j = .stopping name) : s.caller j = .stopping name ∨ a = .stopEvent name := by
  rcases h.caller_cases j with ⟨he, -⟩ | ⟨-, -, event, -, hl⟩ | ⟨-, hg⟩
  · exact Or.inl (he ▸ hj)
  · rw [hl] at hj
    cases hj
  · rw [hj] at hg
    generalize s.caller j = p at hg
    cases hg with
    | turn ht => cases ht
    | call hc =>
      cases hc
      exact Or.inr rfl

theorem Rule.stopping_of_call {s s' : System} {i j : Tid} {a : SysAct} {name : Name} (h : Rule s i a (s.caller i) s')
    (hj : s'.caller j = .stopping name) (hold : s.caller j ≠ .stopping name) : j = i := by
  rcases h.caller_cases j with ⟨he, -⟩ | ⟨-, -, event, -, hl⟩ | ⟨hji, -⟩
  · exact absurd (he ▸ hj) hold
  · rw [hl] at hj
    cases hj
  · exact hji

theorem Rule.handler_cases {s s' : System} {i : Tid} {a : SysAct} (h : Rule s i a (s.caller i) s') :
    (s'.handler = s.handler ∧ ∀ name p, .stopped name p ∈ s'.marks → .stopped name p ∈ s.marks) ∨
      (∃ event t, a = .startEvent event t ∧ s'.handler = s.handler.startEvent event ∧ s'.marks = s.marks) ∨
      ∃ name p, s.caller i = .stopping name ∧ AList.lookup name s.handler.eventThread = some p ∧
        s'.caller i = .free ∧ s'.handler = s.handler.deleteProcessor p ∧ s'.marks = s.marks ++ [.stopped name p] := by
  generalize hp : s.caller i = p at h
  cases h with
  | queue hin hq =>
    refine Or.inl ⟨rfl, fun name p hm => ?_⟩
    rw [mark_marks] at hm
    refine (List.mem_append.mp hm).resolve_right ?_
    unfold refusal
    split
    · split_ifs <;> simp
    · simp
  | startEvent => exact Or.inr (Or.inl ⟨_, _, rfl, rfl, rfl⟩)
  | turn => exact Or.inl ⟨rfl, fun name p hm => hm⟩
  | call => exact Or.inl ⟨rfl, fun name p hm => hm⟩
  | frame =>
    refine Or.inl ⟨rfl, fun name p hm => ?_⟩
    simpa using hm
  | deleteFails => exact Or.inl ⟨rfl, fun name p hm => hm⟩
  | delete hidle hn hdel =>
    simp only [EventHandler.stopEvent, Option.map_eq_some_iff, Prod.mk.injEq] at hn
    obtain ⟨q, hq, rfl, rfl⟩ := hn
    exact Or.inr (Or.inr ⟨_, _, rfl, hq, by simp, rfl, rfl⟩)

/-- A step puts down one mark at most, and `handed` only for a consumer that came back from `pop` with a frame. -/
theorem Rule.marks_cases {s s' : System} {i : Tid} {a : SysAct} (h : Rule s i a (s.caller i) s') :
    s'.marks = s.marks ∨ ∃ m, s'.marks = s.marks ++ [m] ∧
      ∀ j c b, m = .handed j c b → j = i ∧ s.caller i = .popping c := by
  generalize hp : s.caller i = p at h
  cases h with
  | queue hin hq =>
    rw [mark_marks, setQueue_marks]
    unfold refusal
    split
    · split_ifs
      · exact Or.inr ⟨_, rfl, fun j c b hm => by cases hm⟩
      · exact Or.inl (List.append_nil _)
    · exact Or.inl (List.append_nil _)
  | startEvent => exact Or.inl rfl
  | turn => exact Or.inl rfl
  | call => exact Or.inl rfl
  | @frame c b hb =>
    refine Or.inr ⟨_, rfl, fun j c' b' hm => ?_⟩
    cases hm
    exact ⟨rfl, rfl⟩
  | deleteFails => exact Or.inl rfl
  | delete => exact Or.inr ⟨_, rfl, fun j c b hm => by cases hm⟩

end System

end RpiCam
