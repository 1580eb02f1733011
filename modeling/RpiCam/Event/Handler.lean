import Mathlib.Data.List.Nodup
import RpiCam.Event.Processor

/-!
# The event handler

`EventHandler` keeps a processor for each started name in `_event_thread`. `start_event` allocates one and launches its
loop whether or not `emplace` enters it, and `stop_event` deletes the processor it finds and leaves the entry.

* `startEvent`, `stopEvent` : what the two do to the map and the heap;
* `HandlerState`, `HandlerState.call` : the handler with the loops it launched, and one call;
* `Started` : what the handler is for, the processor of each name that is started and not stopped; `Started.call`;
* `Conforms` : after some calls the two agree;
* `conforms_iff` : they agree after all calls of a sequence where it only starts, each name once.
-/

namespace RpiCam

/-- The address of an `EventProcessor`. -/
abbrev ProcessorId := Nat

/-- `event::EventHandler`, with the heap of its processors and what was deleted, in order. -/
structure EventHandler where
  eventThread : UnorderedMap Name ProcessorId
  objects : ProcessorId → Option EventProcessor
  nextProcessor : ProcessorId
  deleted : List ProcessorId

namespace EventHandler

def new : EventHandler where
  eventThread := ∅
  objects := fun _ => none
  nextProcessor := 0
  deleted := []

variable (h : EventHandler)

/-- Lines 15 and 16: `event` is the processor that is constructed, at the address `nextProcessor`. -/
def startEvent (event : EventProcessor) : EventHandler :=
  { h with
    eventThread := UnorderedMap.emplace h.eventThread event.eventName h.nextProcessor
    objects := Function.update h.objects h.nextProcessor (some event)
    nextProcessor := h.nextProcessor + 1 }

def deleteProcessor (p : ProcessorId) : EventHandler :=
  { h with objects := Function.update h.objects p none, deleted := h.deleted ++ [p] }

/-- Lines 31 and 32: the processor that is deleted. There is none where `find` gives `end()`, which is not tested. -/
def stopEvent (name : Name) : Option (EventHandler × ProcessorId) :=
  (AList.lookup name h.eventThread).map fun p => (h.deleteProcessor p, p)

theorem lookup_startEvent (event : EventProcessor) (name : Name) :
    AList.lookup name (h.startEvent event).eventThread =
      if name = event.eventName ∧ AList.lookup event.eventName h.eventThread = none then some h.nextProcessor
      else AList.lookup name h.eventThread := by
  rw [startEvent, UnorderedMap.lookup_emplace]

end EventHandler

/-! ## Sequences of calls -/

/-- A call of the handler. `start` carries the processor that `EventProcessor(name)` constructs. -/
inductive HandlerCall
  | start (event : EventProcessor)
  | stop (name : Name)

/-- The calls of `EventInitializer::init`, for the entries of the directory of events. -/
def eventInitializerInit (events : List EventProcessor) : List HandlerCall := events.map .start

def eventInitializerStop (eventNames : List Name) : List HandlerCall := eventNames.map .stop

/-- The handler, the loops it has launched, and what the last call returned. -/
structure HandlerState where
  handler : EventHandler
  launched : List ProcessorId
  ret : Int

def HandlerState.init : HandlerState := ⟨.new, [], 0⟩

/-- One call. Nothing is left where the behaviour is undefined. -/
def HandlerState.call (s : HandlerState) : HandlerCall → Option HandlerState
  | .start event => some ⟨s.handler.startEvent event, s.launched ++ [s.handler.nextProcessor], 0⟩
  | .stop name => (s.handler.stopEvent name).map fun r => ⟨r.1, s.launched, 0⟩

/-- What the calls are to do: the processor of each name that is started and not stopped since, the loops that are
launched, the processors that are deleted, and whether the last call succeeds. -/
structure Started where
  processor : Name → Option ProcessorId
  launched : List ProcessorId
  deleted : List ProcessorId
  ok : Bool

def Started.init : Started := ⟨fun _ => none, [], [], true⟩

/-- One call, where `p` is the address of a new processor. -/
def Started.call (t : Started) (p : ProcessorId) : HandlerCall → Started
  | .start event =>
    match t.processor event.eventName with
    | none =>
      { t with
        processor := Function.update t.processor event.eventName (some p)
        launched := t.launched ++ [p]
        ok := true }
    | some _ => { t with ok := true }
  | .stop name =>
    match t.processor name with
    | none => { t with ok := false }
    | some q => { t with processor := Function.update t.processor name none, deleted := t.deleted ++ [q], ok := true }

/-- The handler and what it is for, over the same calls. -/
def runCalls : HandlerState → Started → List HandlerCall → Option (HandlerState × Started)
  | s, t, [] => some (s, t)
  | s, t, c :: cs => (s.call c).bind fun s' => runCalls s' (t.call s.handler.nextProcessor c) cs

/-- The map has the started names with their processors, one loop was launched for each of them, and exactly the stopped
processors were deleted, each once; the last call failed exactly where it had to. -/
structure Agrees (s : HandlerState) (t : Started) : Prop where
  eventThread : ∀ name, AList.lookup name s.handler.eventThread = t.processor name
  launched : s.launched = t.launched
  deleted : s.handler.deleted = t.deleted
  once : s.handler.deleted.Nodup
  ret : s.ret = 0 ↔ t.ok = true

/-- After the calls both are in agreement. -/
def Conforms (calls : List HandlerCall) : Prop := ∃ s t, runCalls .init .init calls = some (s, t) ∧ Agrees s t

theorem runCalls_concat (s : HandlerState) (t : Started) (cs : List HandlerCall) (c : HandlerCall) :
    runCalls s t (cs ++ [c]) =
      (runCalls s t cs).bind fun r => (r.1.call c).map fun s' => (s', r.2.call r.1.handler.nextProcessor c) := by
  induction cs generalizing s t with
  | nil =>
    rw [List.nil_append, runCalls, runCalls, Option.bind_some]
    cases s.call c <;> rfl
  | cons c' cs ih =>
    rw [List.cons_append, runCalls, runCalls]
    cases s.call c' with
    | none => rfl
    | some s' => exact ih s' _

/-! ## One call -/

theorem Agrees.start {s : HandlerState} {t : Started} (h : Agrees s t) {event : EventProcessor}
    (hnew : t.processor event.eventName = none) : ∃ s', s.call (.start event) = some s' ∧
      Agrees s' (t.call s.handler.nextProcessor (.start event)) ∧ s'.handler.deleted = s.handler.deleted := by
  refine ⟨_, rfl, ⟨fun name => ?_, ?_, ?_, h.once, ?_⟩, rfl⟩
  · simp only [Started.call, hnew]
    rw [EventHandler.lookup_startEvent, h.eventThread, h.eventThread, Function.update_apply]
    simp only [hnew, and_true]
  · simp only [Started.call, hnew, h.launched]
  · simp only [Started.call, hnew]
    exact h.deleted
  · simp only [Started.call, hnew]

/-- Starting a name that is there launches a second loop. -/
theorem not_agrees_start {s s' : HandlerState} {t : Started} (h : Agrees s t) {event : EventProcessor}
    (hold : t.processor event.eventName ≠ none) (hs : s.call (.start event) = some s') :
    ¬ Agrees s' (t.call s.handler.nextProcessor (.start event)) := by
  intro h'
  obtain ⟨q, hq⟩ := Option.ne_none_iff_exists'.mp hold
  have hl := h'.launched
  cases hs
  simp only [Started.call, hq, h.launched] at hl
  have := congrArg List.length hl
  simp at this

/-- Stopping never agrees: an absent name is undefined behaviour, and a present one stays. -/
theorem not_agrees_stop {s s' : HandlerState} {t : Started} (h : Agrees s t) {name : Name}
    (hs : s.call (.stop name) = some s') : ¬ Agrees s' (t.call s.handler.nextProcessor (.stop name)) := by
  intro h'
  have hkeep := h'.eventThread name
  cases hl : AList.lookup name s.handler.eventThread with
  | none => simp [HandlerState.call, EventHandler.stopEvent, hl] at hs
  | some q =>
    have hq : t.processor name = some q := by rw [← h.eventThread, hl]
    simp only [HandlerState.call, EventHandler.stopEvent, hl, Option.map_some, Option.some.injEq] at hs
    subst hs
    simp only [Started.call, hq, Function.update_self] at hkeep
    rw [EventHandler.deleteProcessor, hl] at hkeep
    cases hkeep

/-! ## All calls -/

/-- Starts of distinct names keep to the purpose, and the started names are these. -/
theorem agrees_starts (events : List EventProcessor) (h : (events.map EventProcessor.eventName).Nodup) :
    ∃ s t, runCalls .init .init (eventInitializerInit events) = some (s, t) ∧ Agrees s t ∧
      ∀ name, t.processor name = none ↔ name ∉ events.map EventProcessor.eventName := by
  induction events using List.reverseRecOn with
  | nil => exact ⟨_, _, rfl, ⟨fun _ => rfl, rfl, rfl, List.nodup_nil, by decide⟩, fun name => by simp [Started.init]⟩
  | append_singleton events event ih =>
    rw [List.map_append, List.map_singleton, List.nodup_append] at h
    obtain ⟨s, t, hrun, ha, hnames⟩ := ih h.1
    have hnew : t.processor event.eventName = none := by
      rw [hnames]
      exact fun hmem => h.2.2 _ hmem _ (List.mem_singleton_self _) rfl
    obtain ⟨s', hcall, ha', -⟩ := ha.start hnew
    refine ⟨s', _, ?_, ha', fun name => ?_⟩
    · rw [eventInitializerInit, List.map_append, List.map_singleton, runCalls_concat]
      rw [show runCalls .init .init (events.map .start) = some (s, t) from hrun]
      simp [hcall]
    · simp only [Started.call, hnew, Function.update_apply, List.map_append, List.map_singleton, List.mem_append,
        List.mem_singleton, not_or, ← hnames]
      by_cases hn : name = event.eventName <;> simp [hn]

/-- **After every call the handler has the started names, each once and with its processor, exactly where the calls are
only starts, each of another name.** -/
theorem conforms_iff (calls : List HandlerCall) :
    (∀ pre, pre <+: calls → Conforms pre) ↔
      ∃ events, calls = eventInitializerInit events ∧ (events.map EventProcessor.eventName).Nodup := by
  constructor
  · intro h
    induction calls using List.reverseRecOn with
    | nil => exact ⟨[], rfl, List.nodup_nil⟩
    | append_singleton cs c ih =>
      obtain ⟨events, rfl, hnodup⟩ := ih fun pre hpre => h pre (hpre.trans (List.prefix_append _ _))
      obtain ⟨s, t, hrun, ha, hnames⟩ := agrees_starts events hnodup
      obtain ⟨s', t', hrun', ha'⟩ := h _ (List.prefix_refl _)
      rw [runCalls_concat, hrun, Option.bind_some, Option.map_eq_some_iff] at hrun'
      obtain ⟨s'', hcall, he⟩ := hrun'
      cases he
      cases c with
      | start event =>
        refine ⟨events ++ [event], by simp [eventInitializerInit], ?_⟩
        rw [List.map_append, List.map_singleton, List.nodup_append]
        refine ⟨hnodup, List.nodup_singleton _, ?_⟩
        rintro name hname _ hmem rfl
        rw [List.mem_singleton.mp hmem] at hname
        refine not_agrees_start ha (fun hnone => ?_) hcall ha'
        exact (hnames _).mp hnone hname
      | stop name => exact absurd ha' (not_agrees_stop ha hcall)
  · rintro ⟨events, rfl, hnodup⟩ pre hpre
    obtain ⟨more, hmore⟩ := hpre
    obtain ⟨events', rest, rfl, rfl, -⟩ := List.map_eq_append_iff.mp hmore.symm
    rw [List.map_append, List.nodup_append] at hnodup
    obtain ⟨s, t, hrun, ha, -⟩ := agrees_starts events' hnodup.1
    exact ⟨s, t, hrun, ha⟩

def camProcessor : EventProcessor := ⟨"cam".toList, some 30, some true, some ['s', 'o']⟩

/-- The initializer starts the event `cam` and stops it. The entry stays, and stopping it again deletes its processor a
second time. -/
theorem stopped_entry :
    ¬ Conforms (eventInitializerInit [camProcessor] ++ eventInitializerStop ["cam".toList]) ∧
      ∃ s t, runCalls .init .init (eventInitializerInit [camProcessor] ++
          eventInitializerStop ["cam".toList, "cam".toList]) = some (s, t) ∧
        AList.lookup "cam".toList s.handler.eventThread = some 0 ∧ s.handler.deleted = [0, 0] := by
  constructor
  · rintro ⟨s, t, hrun, ha⟩
    cases hrun
    exact absurd (ha.eventThread "cam".toList) (by decide)
  · exact ⟨_, _, rfl, rfl, rfl⟩

end RpiCam
