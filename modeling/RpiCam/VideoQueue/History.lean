import RpiCam.VideoQueue.Maps

/-!
# The history of a run

What the log says was pushed, passed on and popped, and the first result about it: the frames that were passed on, the
one in the hand of a distributor and those in `_input` are the frames that were pushed, in this order (`push_order`).
-/

namespace RpiCam

open Transition

def pushesOf (log : List Event) : List BufferRef :=
  log.filterMap fun e => match e with
    | .pushed b => some b
    | _ => none

def passesOf (log : List Event) : List (BufferRef × Int) :=
  log.filterMap fun e => match e with
    | .passed b n => some (b, n)
    | _ => none

/-- The frames that were popped from the name. -/
def poppedOf (name : Name) (log : List Event) : List BufferRef :=
  log.filterMap fun e => match e with
    | .popped k b => if k = name then some b else none
    | _ => none

/-- The frame a distributor has taken from `_input` and not yet passed on. -/
def Pc.taken : Pc → List BufferRef
  | distIterate b _ => [b]
  | _ => []

theorem Pc.taken_plain (p : Pc) : p.plain.taken = p.taken := by cases p <;> rfl

namespace State

/-- The frame between `_input` and its pass. -/
def taken (s : State) : List BufferRef := atHolder s.inputMutex fun i => (s.pc i).taken

/-- The frames come out of `_input` in the order they were pushed. -/
def PushOrder (s : State) : Prop :=
  (passesOf s.log).map Prod.fst ++ s.taken ++ s.data.input = pushesOf s.log

theorem taken_of_holder {s : State} (hl : Locked s) {i : Tid} (hi : (s.pc i).holdsInput = true) :
    s.taken = (s.pc i).taken := by
  rw [taken, (hl.input i).mpr hi, atHolder_some]

theorem Step.taken_same {s s' : State} {i : Tid} {a : Act} (hl : Locked s) (h : Step s i a (s.pc i) s')
    (hi : (s.pc i).taken = []) (hi' : (s'.pc i).taken = []) : s'.taken = s.taken :=
  hl.input.atHolder_turn h.turn_input hi hi' fun j hj _ => by
    rw [← Pc.taken_plain, h.plain_of_ne hj, Pc.taken_plain]

theorem Moves.taken {s : State} {a : Act} {p p' : Pc} (h : Moves s a p p') : p.taken = [] ∧ p'.taken = [] := by
  cases h <;> exact ⟨rfl, rfl⟩

theorem pushOrder_same {s s' : State} {i : Tid} {a : Act} (hl : Locked s) (h : Step s i a (s.pc i) s')
    (hs : PushOrder s) (hi : (s.pc i).taken = []) (hi' : (s'.pc i).taken = []) (hin : s'.data.input = s.data.input)
    (hpush : pushesOf s'.log = pushesOf s.log) (hpass : passesOf s'.log = passesOf s.log) : PushOrder s' := by
  unfold PushOrder at hs ⊢
  rw [hpass, hpush, hin, h.taken_same hl hi hi']
  exact hs

theorem step_pushOrder {s s' : State} {i : Tid} {a : Act} (hl : Locked s) (hs : PushOrder s)
    (h : Step s i a (s.pc i) s') : PushOrder s' := by
  have h0 := h
  have hl' := step_locked hl h
  generalize hpc : s.pc i = p at h
  cases h
  case move p' hm =>
    exact pushOrder_same hl h0 hs (by rw [hpc]; exact hm.taken.1) (by simpa using hm.taken.2) rfl rfl rfl
  case lockInput p' hfree hm =>
    exact pushOrder_same hl h0 hs (by cases hm <;> simp [hpc, Pc.taken]) (by cases hm <;> simp [Pc.taken]) rfl rfl rfl
  case lockThreadInfo p' hfree hm =>
    exact pushOrder_same hl h0 hs (by cases hm <;> simp [hpc, Pc.taken]) (by cases hm <;> simp [Pc.taken]) rfl rfl rfl
  case lockInfo p' t hfree hm =>
    exact pushOrder_same hl h0 hs (by cases hm <;> simp [hpc, Pc.taken]) (by cases hm <;> simp [Pc.taken]) rfl rfl rfl
  case fail f hm =>
    have : (s.fail f).taken = s.taken := rfl
    unfold PushOrder at hs ⊢
    rw [this]
    exact hs
  case pushInput b waiter hn =>
    -- the thread has the mutex, so no distributor has a frame in its hand
    have h1 : s.taken = [] := by rw [taken_of_holder hl (i := i) (by rw [hpc]; rfl), hpc]; rfl
    have h2 : (((((s.notifyOne waiter).setData (s.data.push b)).setInput none).note (.pushed b)).goto i .idle).taken =
        [] := rfl
    unfold PushOrder at hs ⊢
    rw [h1] at hs
    rw [h2]
    simp only [goto_log, note_log, setInput_log, setData_log, notifyOne_log, goto_data, note_data, setInput_data,
      setData_data, VideoQueue.push]
    simp only [passesOf, pushesOf, List.filterMap_append, List.filterMap_cons, List.filterMap_nil, List.append_nil,
      ← List.append_assoc] at hs ⊢
    rw [hs]
  case distTake b t v hi =>
    obtain ⟨hin, hv⟩ := VideoQueue.takeInput_eq hi
    have h1 : s.taken = [] := by rw [taken_of_holder hl (i := i) (by rw [hpc]; rfl), hpc]; rfl
    have h2 : ((s.setData v).goto i (.distIterate b t)).taken = [b] := by
      rw [taken_of_holder hl' (i := i) (by simp [Pc.holdsInput])]
      simp [Pc.taken]
    unfold PushOrder at hs ⊢
    rw [h1, hin, List.append_nil] at hs
    rw [h2]
    simpa using hs
  case distIterate b t order hfree ho =>
    have h1 : s.taken = [b] := by rw [taken_of_holder hl (i := i) (by rw [hpc]; rfl), hpc]; rfl
    have h2 : (((s.setThreadInfo (some i)).note (.passed b s.data.currentFrameNo)).goto i
        (.distVisit b t none order)).taken = [] := by
      rw [taken_of_holder hl' (i := i) (by simp [Pc.holdsInput])]
      simp [Pc.taken]
    unfold PushOrder at hs ⊢
    rw [h1] at hs
    rw [h2]
    simp only [passesOf, pushesOf, goto_log, note_log, setThreadInfo_log, goto_data, note_data, setThreadInfo_data,
      List.filterMap_append, List.filterMap_cons, List.filterMap_nil, List.map_append, List.map_cons, List.map_nil,
      List.append_nil] at hs ⊢
    exact hs
  case distCopy b t name info rest v hl' hc =>
    exact pushOrder_same hl h0 hs (by simp [hpc, Pc.taken]) (by simp [Pc.taken]) (VideoQueue.copyTo_extends hc).input
      rfl rfl
  all_goals
    exact pushOrder_same hl h0 hs (by rw [hpc]; rfl) (by simp [Pc.taken]) rfl (by simp [pushesOf]) (by simp [passesOf])

/-- **Frames are passed on in the order they were pushed**, each once. -/
theorem push_order {F : Int} {ok : State → Tid × Act → Prop} {s : State} (h : Reach (· = init F) step ok s) :
    PushOrder s := by
  refine Reach.invariant_of PushOrder (fun s hr => (reach_coherent hr).1) ?_
    (fun s a s' hk hs _ hst => step_pushOrder hk hs (step_sound hst)) h
  rintro s rfl
  rfl

end State

end RpiCam
