import RpiCam.Event.Processor
import RpiCam.VideoQueue.Settling
import RpiCam.VideoQueue.Stamps

/-!
# What an event program reports

`event_loop` registers its event, and runs the program of the event on one frame after the other. Where the program returns
a positive number, the timestamp of the frame is reported to the server. What the program computes is not in the
repository: its answers come with the steps.

* `eventExec` : what is returned, and what is reported, for an answer of the program;
* `EventLoop` : the thread of the loop, with the queue and all its other threads;
* `Working` : what was executed and the frame in the hand of the loop are what was popped;
* `reports_exact` : the program sees the frames its divisor selects, in order and each once, and the reports are the
  timestamps of those it answers with a positive number;
* `reports_at_rest` : when nothing is left to do, it has seen all of them.
-/

namespace RpiCam

open Transition

/-- `event_exec`, for a frame to which the program answers `ret`: what it returns, and the time that `event_send` gets. -/
def eventExec (ret : Int) (buffer : VideoBuffer) : Int × Option Int :=
  if ret < 0 then (1, none) else if ret ≠ 0 then (0, some buffer.timestamp) else (0, none)

/-- The time that is reported for a frame and the answer to it. -/
def reportOf (x : BufferRef × Int) : Option Int := (eventExec x.2 x.1.val).2

theorem reportOf_eq (x : BufferRef × Int) : reportOf x = if 0 < x.2 then some x.1.val.timestamp else none := by
  unfold reportOf eventExec
  split_ifs <;> first | rfl | omega

inductive LoopPlace
  /-- 131. -/
  | insert
  /-- 134, in `insert_event` still or in `pop`, or back from it with a frame. -/
  | pop
  /-- 145: `event_exec` has returned. -/
  | delete
  /-- Behind the loop. -/
  | ended
  deriving DecidableEq

/-- Where the loop is after a step of its thread in the queue, from `p` to `p'`. It ends where `pop` returns without a
frame. -/
def LoopPlace.next (name : Name) (p p' : Pc) : LoopPlace → LoopPlace
  | insert => pop
  | pop => if p.inPop name = true ∧ p' = .idle then ended else pop
  | delete => pop
  | ended => ended

/-- The loop of a processor on the thread `tid`, the queue, and the clock. -/
structure EventLoop where
  processor : EventProcessor
  tid : Tid
  timed : Timed
  place : LoopPlace
  reports : List Int
  /-- For the record: the frames the program has seen, with its answers. -/
  executed : List (BufferRef × Int)

/-- A step in the queue, of any thread, or the program answers. -/
inductive LoopAct
  | queue (ia : Tid × Act)
  | exec (ret : Int)

/-- The frame that `pop` has returned. -/
def Pc.holding : Pc → List BufferRef
  | hold b => [b]
  | _ => []

theorem Pc.holding_plain (p : Pc) : p.plain.holding = p.holding := by cases p <;> rfl

theorem Pc.holding_of_sleeps {p : Pc} (h : p = .idle ∨ p.sleeps = true) : p.holding = [] := by
  rcases h with rfl | h
  · rfl
  · cases p <;> first | rfl | cases h

/-- The frame that is for `event_exec`. -/
def LoopPlace.inHand (p : Pc) : LoopPlace → List BufferRef
  | pop => p.holding
  | _ => []

theorem LoopPlace.inHand_of_ne {place : LoopPlace} (h : place ≠ .pop) (p : Pc) : place.inHand p = [] := by
  cases place <;> first | rfl | exact absurd rfl h

namespace EventLoop

/-- The thread begins, with nothing pushed yet. -/
def start (processor : EventProcessor) (tid : Tid) (deviceFps now : Int) : EventLoop where
  processor := processor
  tid := tid
  timed := .init deviceFps now
  place := .insert
  reports := []
  executed := []

variable (l : EventLoop)

abbrev queue : State := l.timed.queue

abbrev name : Name := l.processor.eventName

/-- Where the thread is in the queue. -/
abbrev pc : Pc := l.timed.queue.pc l.tid

/-- What the loop lets its thread do in the queue: the calls are its own, and it keeps a frame until `event_exec` has
returned. -/
def allows (a : Act) : Bool :=
  match l.place with
  | .insert => decide (l.processor.request.map Act.call = some a)
  | .pop => decide (l.pc.holding = []) && (!a.calls || decide (a = .call (.pop l.name)))
  | .delete => !a.calls
  | .ended => false

def step (l : EventLoop) : LoopAct → Option EventLoop
  | .queue (i, a) =>
    if i = l.tid then
      if l.allows a then
        (l.timed.step (i, a)).map fun timed => { l with timed, place := l.place.next l.name l.pc (timed.queue.pc l.tid) }
      else none
    else (l.timed.step (i, a)).map fun timed => { l with timed }
  | .exec ret =>
    match l.place, l.pc with
    | .pop, .hold b =>
      some { l with
        place := .delete
        reports := l.reports ++ (eventExec ret b.val).2.toList
        executed := l.executed ++ [(b, ret)] }
    | _, _ => none

/-! ## The rules -/

inductive Rule (l : EventLoop) : LoopAct → EventLoop → Prop
  | own {a timed} : l.allows a = true → l.timed.step (l.tid, a) = some timed →
      Rule l (.queue (l.tid, a)) { l with timed, place := l.place.next l.name l.pc (timed.queue.pc l.tid) }
  | other {i a timed} : i ≠ l.tid → l.timed.step (i, a) = some timed → Rule l (.queue (i, a)) { l with timed }
  | exec {ret b} : l.place = .pop → l.pc = .hold b → Rule l (.exec ret) { l with
      place := .delete
      reports := l.reports ++ (reportOf (b, ret)).toList
      executed := l.executed ++ [(b, ret)] }

variable {l} {l' : EventLoop}

theorem step_rule {a : LoopAct} (h : l.step a = some l') : Rule l a l' := by
  cases a with
  | queue ia =>
    obtain ⟨i, a⟩ := ia
    simp only [step] at h
    split_ifs at h with hi ha
    · subst hi
      obtain ⟨timed, ht, rfl⟩ := Option.map_eq_some_iff.mp h
      exact .own ha ht
    · obtain ⟨timed, ht, rfl⟩ := Option.map_eq_some_iff.mp h
      exact .other hi ht
  | exec ret =>
    simp only [step] at h
    split at h
    · rename_i b hplace hpc
      cases h
      exact .exec hplace hpc
    · cases h

theorem Rule.fixed {a : LoopAct} (h : Rule l a l') : l'.processor = l.processor ∧ l'.tid = l.tid := by
  cases h <;> exact ⟨rfl, rfl⟩

theorem Rule.timed_cases {a : LoopAct} (h : Rule l a l') :
    (∃ ia, a = .queue ia ∧ l.timed.step ia = some l'.timed) ∨ l'.timed = l.timed := by
  cases h with
  | own _ ht => exact Or.inl ⟨_, rfl, ht⟩
  | other _ ht => exact Or.inl ⟨_, rfl, ht⟩
  | exec => exact Or.inr rfl

/-! ## The frames of the loop -/

/-- What the thread of a loop pops is of its own event. -/
def Own (e : Name) (p : Pc) : Prop := ∀ n, p.inPop n = true → n = e

/-- A thread that has no frame gets one exactly where the log says so. -/
theorem holding_step {s s' : State} {i : Tid} {a : Act} {e : Name} (h : State.Step s i a (s.pc i) s')
    (hnone : (s.pc i).holding = []) (hown : Own e (s.pc i)) :
    poppedOf e s'.log = poppedOf e s.log ++ (s'.pc i).holding := by
  generalize hpc : s.pc i = p at h hnone hown
  cases h
  case move p' hm =>
    simp only [State.goto_pc, Function.update_self]
    cases hm <;> simp [Pc.holding]
  case lockInput p' hfree hm => cases hm <;> simp [Pc.holding]
  case lockThreadInfo p' hfree hm => cases hm <;> simp [Pc.holding]
  case lockInfo p' t hfree hm => cases hm <;> simp [Pc.holding]
  case fail f hm =>
    rw [State.fail_pc, hpc, hnone, List.append_nil]
    rfl
  case popPop n info b q c rest ho hq =>
    have hn : n = e := hown n (by simp [Pc.inPop])
    simp [poppedOf, Pc.holding, hn]
  case release b => cases hnone
  all_goals simp [poppedOf, Pc.holding]

/-- Where the loop is, where its thread is, and what both have to do with the log. -/
structure Working (l : EventLoop) : Prop where
  delete : l.place = .delete → ∃ b, l.pc = .hold b
  own : Own l.name l.pc
  popped : l.executed.map Prod.fst ++ l.place.inHand l.pc = poppedOf l.name l.queue.log
  reports : l.reports = l.executed.filterMap reportOf

theorem step_hold {s s' : State} {i : Tid} {a : Act} {b : BufferRef} (h : State.Step s i a (.hold b) s') :
    s'.log = s.log ∧ s'.pc i = .idle := by
  cases h with
  | move hm => cases hm
  | lockInput hm => cases hm
  | lockThreadInfo hm => cases hm
  | lockInfo hm => cases hm
  | fail hm => cases hm
  | release => exact ⟨rfl, by simp⟩

/-- Another thread leaves the frame of the loop and the log of its event alone. -/
theorem Working.other {i : Tid} {a : Act} {timed : Timed} (hw : Working l) (hi : i ≠ l.tid)
    (hpop : (l.queue.pc i).inPop l.name = false) (h : l.timed.step (i, a) = some timed) :
    Working { l with timed } := by
  have hstep := State.step_sound (Timed.step_queue h).1
  have hplain := hstep.plain_of_ne (Ne.symm hi)
  have hsame : ∀ p : Pc, p.waits = false → (timed.queue.pc l.tid = p ↔ l.pc = p) := fun p hp =>
    hstep.pc_of_ne (Ne.symm hi) hp
  have hlog : poppedOf l.name timed.queue.log = poppedOf l.name l.queue.log := by
    rcases hstep.popped_cases l.name with hp | ⟨info, b, hpc, -⟩
    · exact hp
    · rw [hpc] at hpop
      simp [Pc.inPop] at hpop
  refine ⟨?_, ?_, ?_, hw.reports⟩
  · intro hp
    obtain ⟨b, hb⟩ := hw.delete hp
    exact ⟨b, (hsame _ rfl).mpr hb⟩
  · intro n hn
    rw [← Pc.inPop_plain, hplain, Pc.inPop_plain] at hn
    exact hw.own n hn
  · have hhand : l.place.inHand (timed.queue.pc l.tid) = l.place.inHand l.pc := by
      cases l.place with
      | pop => rw [LoopPlace.inHand, LoopPlace.inHand, ← Pc.holding_plain, hplain, Pc.holding_plain]
      | _ => rfl
    exact (congrArg _ hhand).trans (hw.popped.trans hlog.symm)

theorem Working.own_step {a : Act} {timed : Timed} (hw : Working l) (ha : l.allows a = true)
    (h : l.timed.step (l.tid, a) = some timed) :
    Working { l with timed, place := l.place.next l.name l.pc (timed.queue.pc l.tid) } := by
  have hstep := State.step_sound (Timed.step_queue h).1
  -- the calls of the loop are its own, so what it pops after the step is of its event
  have hown' : Own l.name (timed.queue.pc l.tid) := by
    intro n hn
    rcases hstep.inPop_self hn with hold | ⟨rfl, -⟩
    · exact hw.own n hold
    · cases hp : l.place <;> simp only [allows, hp, Act.calls] at ha
      · cases hr : l.processor.request with
        | none => simp [hr] at ha
        | some r =>
          simp only [hr, Option.map_some, Option.some.injEq, Act.call.injEq, decide_eq_true_eq] at ha
          subst ha
          simp only [EventProcessor.request] at hr
          split at hr <;> cases hr
      · simp only [Bool.not_true, Bool.false_or, Bool.and_eq_true, decide_eq_true_eq, Act.call.injEq,
          Request.pop.injEq] at ha
        exact ha.2
      · cases ha
      · cases ha
  cases hp : l.place with
  | insert =>
    simp only [allows, hp, decide_eq_true_eq, Option.map_eq_some_iff] at ha
    obtain ⟨r, -, rfl⟩ := ha
    have hidle : l.timed.queue.pc l.tid = .idle := State.idle_of_call (Timed.step_queue h).1
    have hpopped := hw.popped
    rw [LoopPlace.inHand_of_ne (by rw [hp]; decide), List.append_nil] at hpopped
    have hlog := holding_step hstep (by rw [hidle]; rfl) hw.own
    exact ⟨nofun, hown', (congrArg (· ++ _) hpopped).trans hlog.symm, hw.reports⟩
  | pop =>
    have hnone : l.pc.holding = [] := by
      simp only [allows, hp, Bool.and_eq_true, decide_eq_true_eq] at ha
      exact ha.1
    have hpopped := hw.popped
    rw [hp, LoopPlace.inHand, hnone, List.append_nil] at hpopped
    have hlog := holding_step hstep hnone hw.own
    rw [LoopPlace.next]
    split_ifs with hend
    · have hidle : (timed.queue.pc l.tid).holding = [] := by rw [hend.2]; rfl
      rw [hidle] at hlog
      exact ⟨nofun, hown', (congrArg (· ++ _) hpopped).trans hlog.symm, hw.reports⟩
    · exact ⟨nofun, hown', (congrArg (· ++ _) hpopped).trans hlog.symm, hw.reports⟩
  | delete =>
    obtain ⟨b, hb⟩ := hw.delete hp
    rw [show l.timed.queue.pc l.tid = .hold b from hb] at hstep
    obtain ⟨hlog, hidle⟩ := step_hold hstep
    have hpopped := hw.popped
    rw [LoopPlace.inHand_of_ne (by rw [hp]; decide), List.append_nil] at hpopped
    refine ⟨nofun, hown', ?_, hw.reports⟩
    have hhand : (LoopPlace.delete.next l.name l.pc (timed.queue.pc l.tid)).inHand (timed.queue.pc l.tid) = [] := by
      rw [hidle]
      rfl
    refine (congrArg _ hhand).trans ?_
    rw [List.append_nil, hpopped]
    exact congrArg (poppedOf l.name) hlog.symm
  | ended => simp [allows, hp] at ha

theorem Working.exec {ret : Int} {b : BufferRef} (hw : Working l) (hplace : l.place = .pop) (hpc : l.pc = .hold b) :
    Working { l with
      place := .delete
      reports := l.reports ++ (reportOf (b, ret)).toList
      executed := l.executed ++ [(b, ret)] } := by
  have hpopped := hw.popped
  rw [hplace, LoopPlace.inHand, hpc, Pc.holding] at hpopped
  have hmap : (l.executed ++ [(b, ret)]).map Prod.fst = l.executed.map Prod.fst ++ [b] := List.map_append
  refine ⟨fun _ => ⟨b, hpc⟩, hw.own, ?_, ?_⟩
  · exact (List.append_nil _).trans (hmap.trans hpopped)
  · rw [List.filterMap_append, ← hw.reports]
    cases hr : reportOf (b, ret) <;> simp [hr]

/-! ## Every run -/

/-- Every call of `pop` for `e` is made by the thread of the loop, and the calls for `e` are as in `Delivers`. -/
def Attends (tid : Tid) (e : Name) (l : EventLoop) : LoopAct → Prop
  | .queue ia => State.Consumes tid e l.queue ia
  | .exec _ => True

variable {F now : Int} {p : EventProcessor} {tid : Tid} {ok : EventLoop → LoopAct → Prop}

theorem reach_fixed (h : Reach (· = start p tid F now) step ok l) : l.processor = p ∧ l.tid = tid := by
  refine h.invariant (fun l => l.processor = p ∧ l.tid = tid) ?_ ?_
  · rintro l rfl
    exact ⟨rfl, rfl⟩
  · rintro l a l' ⟨hp, ht⟩ - hst
    obtain ⟨hp', ht'⟩ := (step_rule hst).fixed
    exact ⟨hp'.trans hp, ht'.trans ht⟩

/-- A run of the loop is one of the queue and the clock. -/
theorem reach_timed (ok' : State → Tid × Act → Prop) (hok : ∀ l ia, ok l (.queue ia) → ok' l.queue ia)
    (h : Reach (· = start p tid F now) step ok l) :
    Reach (· = Timed.init F now) Timed.step (fun s ia => ok' s.queue ia) l.timed := by
  induction h with
  | init hs =>
    subst hs
    exact .init rfl
  | next a _ ha hst ih =>
    rcases (step_rule hst).timed_cases with ⟨ia, rfl, ht⟩ | ht
    · exact .next ia ih (hok _ ia ha) ht
    · rw [ht]
      exact ih

theorem working_start (p : EventProcessor) (tid : Tid) (F now : Int) : Working (start p tid F now) where
  delete := nofun
  own n hn := by
    have hpc : (start p tid F now).pc = .distLock ∨ (start p tid F now).pc = .idle := State.init_pc F tid
    rcases hpc with hpc | hpc <;> rw [hpc] at hn <;> cases hn
  popped := rfl
  reports := rfl

theorem others_not_popping (h : Reach (· = start p tid F now) step (Attends tid p.eventName) l) :
    ∀ j, j ≠ tid → (l.queue.pc j).inPop p.eventName = false :=
  (State.reach_consumes (Timed.reach_queue (reach_timed (State.Consumes tid p.eventName) (fun _ _ h => h) h))).2

theorem reach_working (h : Reach (· = start p tid F now) step (Attends tid p.eventName) l) : Working l := by
  have hknown : ∀ l, Reach (· = start p tid F now) step (Attends tid p.eventName) l →
      (l.processor = p ∧ l.tid = tid) ∧ ∀ j, j ≠ tid → (l.queue.pc j).inPop p.eventName = false :=
    fun l hl => ⟨reach_fixed hl, others_not_popping hl⟩
  refine h.invariant_of Working hknown ?_ ?_
  · rintro l rfl
    exact working_start p tid F now
  · rintro l a l' ⟨⟨rfl, rfl⟩, hothers⟩ hw - hst
    cases step_rule hst with
    | own hallow ht => exact hw.own_step hallow ht
    | @other i a timed hi ht => exact hw.other hi (hothers i hi) ht
    | exec hplace hpc => exact hw.exec hplace hpc

/-- `Attends`, and the callers of all events keep to `Feeds`. -/
def AttendsAll (tid : Tid) (e : Name) (l : EventLoop) : LoopAct → Prop
  | .queue ia => State.Feeds l.queue ia ∧ State.Consumes tid e l.queue ia
  | .exec _ => True

theorem AttendsAll.attends {e : Name} {a : LoopAct} (h : AttendsAll tid e l a) : Attends tid e l a := by
  cases a with
  | queue ia => exact h.2
  | exec ret => trivial

theorem reach_delivers (h : Reach (· = start p tid F now) step (Attends tid p.eventName) l) :
    Reach (· = Timed.init F now) Timed.step (fun s ia => State.Delivers p.eventName s.queue ia) l.timed :=
  Timed.reach_delivers (reach_timed (State.Consumes tid p.eventName) (fun _ _ h => h) h)

theorem Working.executed_prefix (hw : Working l) : l.executed.map Prod.fst <+: poppedOf l.name l.queue.log :=
  ⟨_, hw.popped⟩

theorem Working.reports_sorted (hw : Working l) (h : Ordered (poppedOf l.name l.queue.log)) :
    l.reports.Pairwise (· ≤ ·) := by
  have hframes : Ordered (l.executed.map Prod.fst) := h.sublist hw.executed_prefix.sublist
  rw [Ordered, List.pairwise_map] at hframes
  rw [hw.reports, List.pairwise_filterMap]
  refine hframes.imp ?_
  intro x y hxy u hu v hv
  rw [reportOf_eq, Option.ite_none_right_eq_some, Option.some.injEq] at hu hv
  rw [← hu.2, ← hv.2]
  exact hxy

/-- **The reports are exact.** Whatever the other threads do, as long as the event is its own: the frames that the program
has seen are the first of those that its divisor selects of the frames passed on since it registered, in order and each
once, and what is reported are the timestamps of those that it answers with a positive number; if the clock does not go
back, they are in order. -/
theorem reports_exact (hF : 1 ≤ F) (h : Reach (· = start p tid F now) step (Attends tid p.eventName) l) {t : InfoId}
    {f : Int} {post : List Event} (hr : State.FirstRegistered p.eventName t f post l.queue.log) :
    (l.executed.map fun x => x.1.val.payload) <+: (State.selected (F / f) post).map (fun b => b.val.payload) ∧
      l.reports = l.executed.filterMap (fun x => if 0 < x.2 then some x.1.val.timestamp else none) ∧
      l.reports.Pairwise (· ≤ ·) := by
  have hw := reach_working h
  have htimed := reach_delivers h
  have hname : l.name = p.eventName := congrArg _ (reach_fixed h).1
  refine ⟨?_, ?_, ?_⟩
  · rw [← State.delivered_eq hF (Timed.reach_queue htimed) hr, List.map_append, List.map_append, List.append_assoc]
    have hprefix := hw.executed_prefix.map fun b => b.val.payload
    rw [List.map_map, hname] at hprefix
    exact hprefix.trans (List.prefix_append _ _)
  · rw [hw.reports]
    exact List.filterMap_congr fun x _ => reportOf_eq x
  · apply hw.reports_sorted
    rw [hname]
    exact (Timed.reach_inOrder hF htimed hr).order.sublist (List.sublist_append_left _ _)

def camProcessor : EventProcessor := ⟨['c', 'a', 'm'], some 30, some true, none⟩

/-- Thread `6` registers and waits, the distributors fall asleep, and a frame is pushed and passed on to thread `6`. -/
def gettingRun : List (Tid × Act) :=
  [(6, .call (.insert ['c', 'a', 'm'] 30 true)), (6, .run), (6, .run), (6, .run), (6, .call (.pop ['c', 'a', 'm']))] ++
    List.replicate 7 (6, .run) ++ ((List.range 6).flatMap fun j => [(j, .run), (j, .run)]) ++
    [(8, .call (.push sampleFrame)), (8, .run), (8, .notify (some 0)), (0, .wake)] ++ State.passingRun ++
    [(0, .run), (0, .run), (6, .wake)] ++ List.replicate 6 (6, .run)

/-- It deletes the frame, and waits again. -/
def waitingAgain : List (Tid × Act) := (6, .run) :: (6, .call (.pop ['c', 'a', 'm'])) :: List.replicate 7 (6, .run)

/-- In between, the program answers `1`. -/
def reportingRun : List LoopAct := gettingRun.map .queue ++ .exec 1 :: waitingAgain.map .queue

def attends (tid : Tid) (e : Name) (l : EventLoop) : LoopAct → Bool
  | .queue ia => State.feeding l.queue ia && State.consumes tid e l.queue ia
  | .exec _ => true

theorem attendsAll_of_attends (tid : Tid) (e : Name) (l : EventLoop) (a : LoopAct) (h : attends tid e l a = true) :
    AttendsAll tid e l a := by
  cases a with
  | queue ia =>
    rw [attends, Bool.and_eq_true] at h
    exact ⟨State.feeds_of_feeding _ _ h.1, State.consumes_sound tid e _ _ h.2⟩
  | exec ret => trivial

theorem reports_exact_frame : ∃ l, run (checked (attends 6 ['c', 'a', 'm']) step) (start camProcessor 6 30 0)
      reportingRun = some l ∧ l.reports = [5] ∧ l.reports.Pairwise (· ≤ ·) := by
  have hrun : run (checked (attends 6 ['c', 'a', 'm']) step) (start camProcessor 6 30 0) reportingRun = some _ := rfl
  have hreach : Reach (· = start camProcessor 6 30 0) step (Attends 6 camProcessor.eventName) _ :=
    .of_checked (attends 6 ['c', 'a', 'm']) (fun l a h => (attendsAll_of_attends 6 _ l a h).attends) (.init rfl) hrun
  exact ⟨_, hrun, rfl, (reports_exact (by decide) hreach ⟨[], rfl, by simp⟩).2.2⟩

/-- **At rest the program has seen everything.** When its thread waits for a frame and there is nothing left to do in the
queue, every frame that was pushed has been passed on, and the program has seen all that its divisor selects. -/
theorem reports_at_rest (hF : 1 ≤ F) (h : Reach (· = start p tid F now) step (AttendsAll tid p.eventName) l)
    (hrest : State.AtRest l.queue) (hwait : (l.queue.pc tid).inPop p.eventName = true) {t : InfoId} {f : Int}
    {post : List Event} (hr : State.FirstRegistered p.eventName t f post l.queue.log) :
    (passesOf l.queue.log).map Prod.fst = pushesOf l.queue.log ∧
      (l.executed.map fun x => x.1.val.payload) = (State.selected (F / f) post).map fun b => b.val.payload := by
  have hattends : Reach (· = start p tid F now) step (Attends tid p.eventName) l := h.mono fun _ _ _ _ hok _ => hok.attends
  have hfeeds : Reach (· = State.init F) State.step State.Feeds l.queue :=
    Timed.reach_queue (reach_timed State.Feeds (fun _ _ h => h.1) h)
  have hw := reach_working hattends
  have hname : l.name = p.eventName := congrArg _ (reach_fixed h).1
  have hall := (State.atRest_iff (State.reach_coherent hfeeds).1 (State.reach_safe hfeeds).fault).mp hrest
  obtain ⟨-, hwatch, hattended⟩ := State.reach_wakeup hfeeds
  have hdelivered := State.delivered_eq hF (Timed.reach_queue (reach_delivers hattends)) hr
  rw [State.pending_of_rest hall, State.queued_of_rest hall hwatch hwait, List.append_nil, List.append_nil] at hdelivered
  have hpopped := hw.popped
  have hhand : l.place.inHand l.pc = [] := by
    cases l.place with
    | pop => exact Pc.holding_of_sleeps (hall l.tid)
    | _ => rfl
  rw [hhand, List.append_nil, hname] at hpopped
  refine ⟨State.passes_of_rest hall (State.push_order hfeeds) (hattended.input_nil hall), ?_⟩
  rw [← hdelivered, ← hpopped, List.map_map]
  rfl

theorem few_of_run {n : Nat} {l l' : EventLoop} {as : List LoopAct} (hidle : l.queue.Few n)
    (has : ∀ ia, .queue ia ∈ as → ia.1 < n) (hrun : run step l as = some l') : l'.queue.Few n := by
  refine run_invariant_of_mem (fun l => l.queue.Few n) ?_ hidle hrun
  intro a ha l l' hidle hst
  rcases (step_rule hst).timed_cases with ⟨ia, rfl, ht⟩ | ht
  · exact State.step_few hidle (has ia ha) (State.step_sound (Timed.step_queue ht).1)
  · rw [queue, ht]
    exact hidle

theorem lt_of_mem_reportingRun : ∀ ia, .queue ia ∈ reportingRun → ia.1 < 9 := by
  have hthreads : ∀ ia ∈ gettingRun ++ waitingAgain, ia.1 < 9 := by decide
  intro ia hia
  refine hthreads ia ?_
  simpa [reportingRun] using hia

theorem reports_at_rest_frame : ∃ l, run (checked (attends 6 ['c', 'a', 'm']) step) (start camProcessor 6 30 0)
      reportingRun = some l ∧ l.executed.length = 1 ∧
    (passesOf l.queue.log).map Prod.fst = pushesOf l.queue.log := by
  have hinit : (start camProcessor 6 30 0).queue.Few 9 := State.few_init (by decide) 30
  have hrun : run (checked (attends 6 ['c', 'a', 'm']) step) (start camProcessor 6 30 0) reportingRun = some _ := rfl
  have hreach : Reach (· = start camProcessor 6 30 0) step (AttendsAll 6 camProcessor.eventName) _ :=
    .of_checked (attends 6 ['c', 'a', 'm']) (attendsAll_of_attends 6 _) (.init rfl) hrun
  have hlocked := (State.reach_coherent (Timed.reach_queue (reach_timed State.Feeds (fun _ _ h => h.1) hreach))).1
  have hidle := few_of_run hinit lt_of_mem_reportingRun (run_of_checked hrun)
  exact ⟨_, hrun, rfl, (reports_at_rest (by decide) hreach (State.atRest_of_idle hlocked rfl hidle (by decide)) rfl
    ⟨[], rfl, by simp⟩).1⟩

end EventLoop

end RpiCam
