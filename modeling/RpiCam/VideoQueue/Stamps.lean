import RpiCam.VideoQueue.Delivery

/-!
# The timestamps of the frames

A pass reads the clock once and stamps every copy with it. Six threads make passes, but each of them holds
`_input_mutex` from the frame it takes to the end of its pass; so with a clock that does not go back, every event gets its
frames with timestamps in order.

* `Timed` : the machine with its clock;
* `Pc.passTime` : the time that a pass has read;
* `Stamped` : the passes have the time, and the queues are in order;
* `stamps_in_order` : in every run;
* `InOrder`, `stamps_delivered` : what a consumer gets, where the callers keep to `Delivers`;
* `consumers_agree` : of two consumers, the one at the lower rate gets what the other gets too.
-/

namespace RpiCam

open Transition

/-- The queue and the time that was read last. -/
structure Timed where
  queue : State
  now : Int

namespace Timed

def init (deviceFps now : Int) : Timed := ⟨.init deviceFps, now⟩

/-- What `time(NULL)` gives, if anything: not less than before. -/
def nextNow (now : Int) : Act → Option Int
  | .clock t => if now ≤ t then some t else none
  | _ => some now

def step (s : Timed) (ia : Tid × Act) : Option Timed :=
  (nextNow s.now ia.2).bind fun now => (s.queue.step ia).map fun queue => ⟨queue, now⟩

theorem step_queue {s s' : Timed} {ia : Tid × Act} (h : s.step ia = some s') :
    s.queue.step ia = some s'.queue ∧ nextNow s.now ia.2 = some s'.now := by
  rw [step, Option.bind_eq_some_iff] at h
  obtain ⟨now, hnow, h⟩ := h
  obtain ⟨queue, hqueue, rfl⟩ := Option.map_eq_some_iff.mp h
  exact ⟨hqueue, hnow⟩

theorem nextNow_clock {now now' t : Int} (h : nextNow now (.clock t) = some now') : now' = t ∧ now ≤ t := by
  rw [nextNow, Option.ite_none_right_eq_some, Option.some.injEq] at h
  exact ⟨h.2.symm, h.1⟩

theorem nextNow_other {now now' : Int} {a : Act} (ha : ∀ t, a ≠ .clock t) (h : nextNow now a = some now') :
    now' = now := by
  cases a with
  | clock t => exact absurd rfl (ha t)
  | _ => exact (Option.some.inj h).symm

theorem nextNow_le {now now' : Int} {a : Act} (h : nextNow now a = some now') : now ≤ now' := by
  by_cases ha : ∃ t, a = .clock t
  · obtain ⟨t, rfl⟩ := ha
    obtain ⟨rfl, hle⟩ := nextNow_clock h
    exact hle
  · exact Int.le_of_eq (nextNow_other (not_exists.mp ha) h).symm

theorem reach_queue {F now : Int} {ok : State → Tid × Act → Prop} {s : Timed}
    (h : Reach (· = init F now) step (fun s ia => ok s.queue ia) s) : Reach (· = State.init F) State.step ok s.queue := by
  induction h with
  | init hs =>
    subst hs
    exact .init rfl
  | next ia _ hok hst ih => exact .next ia ih hok (step_queue hst).1

end Timed

/-! ## The time of a pass -/

/-- The time that the pass of the thread has read. -/
def Pc.passTime : Pc → Option Int
  | distIterate _ t | distVisit _ t _ _ | distDue _ t _ _ _ | distEntry _ t _ _ _ | distCopy _ t _ _ _ => some t
  | _ => none

theorem Pc.passTime_plain (p : Pc) : p.plain.passTime = p.passTime := by cases p <;> rfl

theorem Pc.holdsInput_of_passTime {p : Pc} {t : Int} (h : p.passTime = some t) : p.holdsInput = true := by
  cases p <;> first | rfl | cases h

namespace State

theorem Moves.passTime {s : State} {a : Act} {p p' : Pc} (h : Moves s a p p') : p'.passTime = p.passTime := by
  cases h <;> rfl

theorem Step.passTime_self {s s' : State} {i : Tid} {a : Act} (h : Step s i a (s.pc i) s') {t : Int}
    (ht : (s'.pc i).passTime = some t) : (s.pc i).passTime = some t ∨ s.pc i = .distTake := by
  generalize hpc : s.pc i = p at h ⊢
  cases h
  case move p' hm =>
    rw [goto_pc, Function.update_self, hm.passTime] at ht
    exact Or.inl ht
  case lockInput p' hfree hm => cases hm <;> simp [Pc.passTime] at ht
  case lockThreadInfo p' hfree hm => cases hm <;> simp [Pc.passTime] at ht
  case lockInfo p' info hfree hm =>
    simp only [goto_pc, Function.update_self] at ht
    cases hm with
    | dist _ => exact Or.inl ht
    | _ => cases ht
  case fail f hm => exact Or.inl (by rwa [fail_pc, hpc] at ht)
  case distTake b t' v hi => exact Or.inr rfl
  case distIterate b t' order hfree ho =>
    simp only [goto_pc, Function.update_self] at ht
    exact Or.inl ht
  case distCopy b t' name info rest v hl hc =>
    simp only [goto_pc, Function.update_self] at ht
    exact Or.inl ht
  all_goals simp [Pc.passTime] at ht

/-- The clock is read in the step of lines 204 to 213. -/
theorem step_clock {s s' : State} {i : Tid} {t : Int} (h : s.step (i, .clock t) = some s') :
    s.pc i = .distTake ∧ ∀ u, (s'.pc i).passTime = some u → u = t := by
  simp only [step] at h
  split_ifs at h
  cases hpc : s.pc i <;> rw [hpc] at h <;> simp only [reduceCtorEq] at h
  refine ⟨rfl, ?_⟩
  intro u hu
  cases hi : s.data.takeInput with
  | none =>
    rw [hi] at h
    cases h
    rw [fail_pc, hpc] at hu
    cases hu
  | some bv =>
    rw [hi] at h
    cases h
    simp only [goto_pc, Function.update_self, Pc.passTime, Option.some.injEq] at hu
    exact hu.symm

theorem clock_of_distTake {s s' : State} {i : Tid} {a : Act} (h : s.step (i, a) = some s') (hpc : s.pc i = .distTake) :
    ∃ t, a = .clock t := by
  simp only [step] at h
  split_ifs at h
  rw [hpc] at h
  cases a with
  | clock t => exact ⟨t, rfl⟩
  | _ => cases h

theorem Step.queued_change {s s' : State} {i : Tid} {a : Act} (hc : Coherent s) (h : Step s i a (s.pc i) s')
    (e : Name) : (s'.data.queued e).Sublist (s.data.queued e) ∨
      ∃ b t info rest, s.pc i = .distCopy b t e info rest ∧
        s'.data.queued e = s.data.queued e ++ [⟨s.data.nextAddr, b.val.copyAt t⟩] := by
  cases ho' : AList.lookup e s'.data.output with
  | none =>
    left
    have hnil : s'.data.queued e = [] := by simp [VideoQueue.queued, ho']
    rw [hnil]
    exact List.nil_sublist _
  | some q =>
    have hqueued : ∀ l, s'.data.queues q = some l → s'.data.queued e = l := fun l => queued_of_lookup ho'
    -- the queue was the event's before, or it is new
    have hentry : AList.lookup e s.data.output = some q ∨ s'.data.queued e = s.data.queued e := by
      rcases h.output_cases with ⟨he, -⟩ | ⟨n, -, -, hd⟩ | ⟨n, info, -, -, hd⟩
      · exact Or.inl (he ▸ ho')
      · right
        rw [hd]
        exact queued_enterOutput hc n e
      · left
        rw [hd] at ho'
        simp only [VideoQueue.eraseOutput, UnorderedMap.lookup_erase'] at ho'
        split_ifs at ho'
        exact ho'
    rcases hentry with ho | hsame
    · cases h.queue (hc.queueFresh e q ho) with
      | keep he =>
        left
        have hsame : s'.data.queued e = s.data.queued e := by simp [VideoQueue.queued, ho, ho', he]
        rw [hsame]
      | append hpc hon hq he =>
        have hn := hc.inj _ _ q hon ho
        subst hn
        exact Or.inr ⟨_, _, _, _, hpc, by rw [hqueued _ he, queued_of_lookup ho hq]⟩
      | drain hpc hq he =>
        left
        rw [hqueued _ he, queued_of_lookup ho hq]
        exact List.sublist_cons_self _ _
      | delete hpc _ _ he =>
        left
        have hnil : s'.data.queued e = [] := by simp [VideoQueue.queued, ho', he]
        rw [hnil]
        exact List.nil_sublist _
      | pop hpc _ hq he =>
        left
        rw [hqueued _ he, queued_of_lookup ho hq]
        exact List.sublist_cons_self _ _
    · left
      rw [hsame]

end State

/-! ## The order -/

abbrev Ordered (l : List BufferRef) : Prop := l.Pairwise fun a b => a.val.timestamp ≤ b.val.timestamp

/-- Every pass under way has the time, and the queues are in order and not ahead of it. -/
structure Stamped (s : Timed) : Prop where
  time : ∀ i t, (s.queue.pc i).passTime = some t → t = s.now
  order : ∀ e, Ordered (s.queue.data.queued e)
  bound : ∀ e, ∀ b ∈ s.queue.data.queued e, b.val.timestamp ≤ s.now

namespace Timed

theorem time_step {s s' : Timed} {i : Tid} {a : Act} (hl : State.Locked s.queue) (h : Stamped s)
    (hst : s.step (i, a) = some s') : ∀ j t, (s'.queue.pc j).passTime = some t → t = s'.now := by
  obtain ⟨hqueue, hnow⟩ := step_queue hst
  have hstep := State.step_sound hqueue
  intro j t ht
  by_cases ha : ∃ u, a = .clock u
  · obtain ⟨u, rfl⟩ := ha
    obtain ⟨hpc, hself⟩ := State.step_clock hqueue
    rw [(nextNow_clock hnow).1]
    by_cases hj : j = i
    · subst hj
      exact hself t ht
    · -- another pass would hold `_input_mutex`
      rw [← Pc.passTime_plain, hstep.plain_of_ne hj, Pc.passTime_plain] at ht
      exact absurd (hl.input.unique (Pc.holdsInput_of_passTime ht) (by rw [hpc]; rfl)) hj
  · rw [nextNow_other (not_exists.mp ha) hnow]
    by_cases hj : j = i
    · subst hj
      rcases hstep.passTime_self ht with hold | hpc
      · exact h.time j t hold
      · exact absurd (State.clock_of_distTake hqueue hpc) ha
    · rw [← Pc.passTime_plain, hstep.plain_of_ne hj, Pc.passTime_plain] at ht
      exact h.time j t ht

theorem stamped_step {s s' : Timed} {i : Tid} {a : Act} (hl : State.Locked s.queue) (hc : State.Coherent s.queue)
    (h : Stamped s) (hst : s.step (i, a) = some s') : Stamped s' := by
  obtain ⟨hqueue, hnow⟩ := step_queue hst
  have hle := nextNow_le hnow
  refine ⟨time_step hl h hst, ?_, ?_⟩
  · intro e
    rcases (State.step_sound hqueue).queued_change hc e with hsub | ⟨b, t, info, rest, hpc, hq⟩
    · exact (h.order e).sublist hsub
    · have ht : t = s.now := h.time i t (by rw [hpc]; rfl)
      rw [hq]
      refine List.pairwise_append.mpr ⟨h.order e, List.pairwise_singleton _ _, ?_⟩
      intro c hcmem b' hb'
      rw [List.mem_singleton.mp hb', ht]
      exact h.bound e c hcmem
  · intro e b hb
    rcases (State.step_sound hqueue).queued_change hc e with hsub | ⟨b', t, info, rest, hpc, hq⟩
    · exact Int.le_trans (h.bound e b (hsub.subset hb)) hle
    · have ht : t = s.now := h.time i t (by rw [hpc]; rfl)
      rw [hq, List.mem_append, List.mem_singleton] at hb
      rcases hb with hb | rfl
      · exact Int.le_trans (h.bound e b hb) hle
      · exact ht ▸ hle

theorem stamped_init (F now : Int) : Stamped (init F now) where
  time i t ht := by
    rcases State.init_pc F i with h | h <;> simp only [init, h] at ht <;> cases ht
  order e := by simp [init, State.init, VideoQueue.new, VideoQueue.queued]
  bound e b hb := by simp [init, State.init, VideoQueue.new, VideoQueue.queued] at hb

theorem reach_stamped {F now : Int} {ok : State → Tid × Act → Prop} {s : Timed}
    (h : Reach (· = init F now) step (fun s ia => ok s.queue ia) s) : Stamped s := by
  refine h.invariant_of Stamped (fun s hr => State.reach_coherent (reach_queue hr)) ?_ ?_
  · rintro s rfl
    exact stamped_init F now
  · rintro s ⟨i, a⟩ s' ⟨hl, hc⟩ hs - hst
    exact stamped_step hl hc hs hst

/-- **The queues are in the order of their timestamps.** Whatever the callers do, and however the six distributors come
between each other: if the clock does not go back, the frames in the queue of every event have timestamps in order, none
of which is ahead of the clock. -/
theorem stamps_in_order {F now : Int} {s : Timed} (h : Reach (· = init F now) step (fun _ _ => True) s) (e : Name) :
    ((s.queue.data.queued e).Pairwise fun a b => a.val.timestamp ≤ b.val.timestamp) ∧
      ∀ b ∈ s.queue.data.queued e, b.val.timestamp ≤ s.now := by
  have hs : Stamped s := @reach_stamped F now (fun _ _ => True) s h
  exact ⟨hs.order e, hs.bound e⟩

theorem stamps_in_order_two : ∃ s, run step (init 30 0) State.twoFramesRun = some s ∧
    (s.queue.data.queued ['c', 'a', 'm']).map (fun b => b.val.timestamp) = [5, 6] ∧
    ((s.queue.data.queued ['c', 'a', 'm']).Pairwise fun a b => a.val.timestamp ≤ b.val.timestamp) ∧
    ∀ b ∈ s.queue.data.queued ['c', 'a', 'm'], b.val.timestamp ≤ s.now :=
  ⟨_, rfl, rfl, stamps_in_order (.of_run (.init rfl) (rfl : run step (init 30 0) State.twoFramesRun = some _)) _⟩

/-- What the consumer of the name has got and what is in its queue. -/
def received (e : Name) (s : Timed) : List BufferRef := poppedOf e s.queue.log ++ s.queue.data.queued e

/-- A step of the machine under the discipline of the callers: a pop moves a frame, and a pass adds one. -/
theorem received_step {s s' : Timed} {i : Tid} {a : Act} {e : Name} {t : InfoId} {f : Int} {post : List Event}
    (ha : State.After e t f post s.queue) (hc : State.Coherent s.queue) (halone : State.Alone e s.queue)
    (hs : Stamped s) (hst : s.step (i, a) = some s') :
    received e s' = received e s ∨ ∃ b, received e s' = received e s ++ [b] ∧ b.val.timestamp = s.now := by
  have hstep := State.step_sound (step_queue hst).1
  by_cases hpop : ∃ info b, s.queue.pc i = .popPop e info b
  · left
    obtain ⟨info, b, hpc⟩ := hpop
    obtain ⟨rest, hhead⟩ := ha.head i info b hpc
    rw [hpc] at hstep
    unfold received
    generalize s'.queue = q' at hstep
    cases hstep with
    | @popPop _ _ _ _ q c tail ho hq =>
      rw [State.queued_of_lookup ho hq, List.cons.injEq] at hhead
      obtain ⟨rfl, rfl⟩ := hhead
      have hqueued : (s.queue.data.popFront q tail).queued e = tail :=
        State.queued_of_lookup ho (by simp [VideoQueue.popFront])
      have hpopped : poppedOf e (s.queue.log ++ [.popped e c]) = poppedOf e s.queue.log ++ [c] := by simp [poppedOf]
      simp only [State.goto_log, State.setInfo_log, State.setData_log, State.note_log, State.goto_data, State.note_data,
        State.setInfo_data, State.setData_data]
      rw [hpopped, hqueued, State.queued_of_lookup ho hq, List.append_assoc, List.singleton_append]
    | fail hm => rfl
    | move hm => cases hm
    | lockInput hm => cases hm
    | lockThreadInfo hm => cases hm
    | lockInfo hm => cases hm
  · have hpopped : poppedOf e s'.queue.log = poppedOf e s.queue.log := by
      rcases hstep.popped_cases e with hp | ⟨info, b, hpc, -⟩
      · exact hp
      · exact absurd ⟨info, b, hpc⟩ hpop
    unfold received
    rw [hpopped]
    rcases hstep.queued_cases hc halone with hq | ⟨b, u, info, rest, hpc, hq⟩ | ⟨info, b, c, rest, hpc, -⟩
    · exact Or.inl (by rw [hq])
    · refine Or.inr ⟨_, by rw [hq, List.append_assoc], ?_⟩
      exact hs.time i u (by rw [hpc]; rfl)
    · exact absurd ⟨info, b, hpc⟩ hpop

theorem received_nil {F : Int} (hF : 1 ≤ F) {e : Name} {s : State} (h : Reach (· = .init F) State.step (State.Delivers e) s)
    {t : InfoId} {f : Int} (hr : State.FirstRegistered e t f [] s.log) :
    poppedOf e s.log ++ s.data.queued e = [] := by
  have hall := State.delivered_eq hF h hr
  rw [State.selected_of_noPass rfl, List.map_nil, List.map_eq_nil_iff, List.append_eq_nil_iff] at hall
  exact hall.1

/-- What the consumer gets has its timestamps in order, none of which is ahead of the clock. -/
structure InOrder (e : Name) (s : Timed) : Prop where
  order : Ordered (received e s)
  bound : ∀ b ∈ received e s, b.val.timestamp ≤ s.now

theorem InOrder.step {e : Name} {s s' : Timed} {i : Tid} {a : Act} {t : InfoId} {f : Int} {post : List Event}
    (h : InOrder e s) (ha : State.After e t f post s.queue) (hc : State.Coherent s.queue)
    (halone : State.Alone e s.queue) (hs : Stamped s) (hst : s.step (i, a) = some s') : InOrder e s' := by
  have hle := nextNow_le (step_queue hst).2
  rcases received_step ha hc halone hs hst with hsame | ⟨b, hmore, hb⟩
  · exact ⟨by rw [hsame]; exact h.order, fun c hmem => Int.le_trans (h.bound c (hsame ▸ hmem)) hle⟩
  · refine ⟨?_, ?_⟩
    · rw [hmore]
      refine List.pairwise_append.mpr ⟨h.order, List.pairwise_singleton _ _, ?_⟩
      intro c hmem b' hb'
      rw [List.mem_singleton.mp hb', hb]
      exact h.bound c hmem
    · intro c hmem
      rw [hmore, List.mem_append, List.mem_singleton] at hmem
      rcases hmem with hmem | rfl
      · exact Int.le_trans (h.bound c hmem) hle
      · rw [hb]
        exact hle

theorem reach_inOrder {F now : Int} (hF : 1 ≤ F) {e : Name} {s : Timed}
    (h : Reach (· = init F now) step (fun s ia => State.Delivers e s.queue ia) s) {t : InfoId} {f : Int}
    {post : List Event} (hr : State.FirstRegistered e t f post s.queue.log) : InOrder e s := by
  induction h generalizing post with
  | init hs =>
    subst hs
    obtain ⟨pre, hlog, -⟩ := hr
    simp [init, State.init] at hlog
  | @next s s' ia hreach hok hst ih =>
    obtain ⟨i, a⟩ := ia
    rcases (State.step_sound (step_queue hst).1).firstRegistered hr with ⟨post', evs, hr', -, rfl⟩ | ⟨-, -, -, rfl, -, -⟩
    · have hqueue := reach_queue hreach
      obtain ⟨⟨-, halone, -⟩, hd⟩ := State.reach_delivery hF hqueue
      exact (ih hr').step (hd.after t f post' hr') (State.reach_coherent hqueue).2 halone (reach_stamped hreach) hst
    · have hnil : received e s' = [] := received_nil hF (reach_queue (.next (i, a) hreach hok hst)) hr
      exact ⟨by rw [hnil]; exact List.Pairwise.nil, by rw [hnil]; exact List.forall_mem_nil _⟩

/-- **A consumer gets its frames in the order of their timestamps**, where the callers keep to `Delivers`: what it has
popped, followed by what is in its queue, and nothing of it is ahead of the clock. -/
theorem stamps_delivered {F now : Int} (hF : 1 ≤ F) {e : Name} {s : Timed}
    (h : Reach (· = init F now) step (fun s ia => State.Delivers e s.queue ia) s) {t : InfoId} {f : Int}
    {post : List Event} (hr : State.FirstRegistered e t f post s.queue.log) :
    (received e s).Pairwise (fun a b => a.val.timestamp ≤ b.val.timestamp) ∧
      ∀ b ∈ received e s, b.val.timestamp ≤ s.now := by
  have hs := reach_inOrder hF h hr
  exact ⟨hs.order, hs.bound⟩

theorem reach_delivers {F now : Int} {c : Tid} {e : Name} {s : Timed}
    (h : Reach (· = init F now) step (fun s ia => State.Consumes c e s.queue ia) s) :
    Reach (· = init F now) step (fun s ia => State.Delivers e s.queue ia) s :=
  h.mono fun _ _ _ hr hok hst => hok.delivers (State.reach_consumes (reach_queue hr)).2 (step_queue hst).1

theorem stamps_delivered_two :
    ∃ s, run step (init 30 0) (State.twoFramesRun ++ State.poppingRun) = some s ∧
      (poppedOf ['c', 'a', 'm'] s.queue.log).map (fun b => b.val.timestamp) = [5] ∧
      (received ['c', 'a', 'm'] s).map (fun b => b.val.timestamp) = [5, 6] ∧
      (received ['c', 'a', 'm'] s).Pairwise (fun a b => a.val.timestamp ≤ b.val.timestamp) ∧
      ∀ b ∈ received ['c', 'a', 'm'] s, b.val.timestamp ≤ s.now := by
  have hrun : run (checked (fun s ia => State.consumes 7 ['c', 'a', 'm'] s.queue ia) step) (init 30 0)
      (State.twoFramesRun ++ State.poppingRun) = some _ := rfl
  have hreach : Reach (· = init 30 0) step (fun s ia => State.Consumes 7 ['c', 'a', 'm'] s.queue ia) _ :=
    .of_checked _ (fun s ia h => State.consumes_sound 7 ['c', 'a', 'm'] s.queue ia h) (.init rfl) hrun
  exact ⟨_, rfl, rfl, rfl, stamps_delivered (by decide) (reach_delivers hreach) ⟨[], rfl, by simp⟩⟩

end Timed

namespace State

/-! ## Two consumers -/

theorem selected_sublist {d d' : Int} (hd : d ∣ d') {post post' : List Event} (hpost : post' <:+ post) :
    (selected d' post').Sublist (selected d post) := by
  have hpasses : (passesOf post').Sublist (passesOf post) := hpost.sublist.filterMap _
  unfold selected
  refine List.Sublist.map _ (List.Sublist.trans ?_ (hpasses.filter _))
  apply List.monotone_filter_right
  intro p hp
  rw [decide_eq_true_iff] at hp ⊢
  exact hd.trans hp

/-- **Consumers agree.** Of two events, the one that was registered later, with a divisor that is a multiple of the
other's, gets no frame that the other does not get, and in the same order. -/
theorem consumers_agree {F : Int} (hF : 1 ≤ F) {e e' : Name} {s : State}
    (h : Reach (· = init F) step (fun s ia => Delivers e s ia ∧ Delivers e' s ia) s) {t t' : InfoId} {f f' : Int}
    {post post' : List Event} (hr : FirstRegistered e t f post s.log) (hr' : FirstRegistered e' t' f' post' s.log)
    (hlater : post' <:+ post) (hrate : F / f ∣ F / f') :
    ((poppedOf e' s.log ++ s.data.queued e' ++ s.pendingOf e' (F / f')).map fun b => b.val.payload).Sublist
      ((poppedOf e s.log ++ s.data.queued e ++ s.pendingOf e (F / f)).map fun b => b.val.payload) := by
  rw [delivered_eq hF (h.mono fun _ _ _ _ hok _ => hok.1) hr, delivered_eq hF (h.mono fun _ _ _ _ hok _ => hok.2) hr']
  exact (selected_sublist hrate hlater).map _

/-- A pass over two entries, from the lock to the delete. -/
def passingBoth (t : Int) (turns : Nat) : List (Tid × Act) :=
  [(0, .run), (0, .run), (0, .clock t), (0, .iterate [(['c', 'a', 'm'], 0), (['l', 'o', 'w'], 1)])] ++
    List.replicate turns (0, .run)

/-- Threads `6` and `7` register `cam` at 30 and `low` at 15, and two frames go through: `low` gets the second. -/
def twoRatesRun : List (Tid × Act) :=
  waitingRun.take 4 ++ [(7, .call (.insert ['l', 'o', 'w'] 15 true)), (7, .run), (7, .run), (7, .run)] ++
    pushing sampleFrame ++ passingBoth 5 8 ++ pushing nextFrame ++ passingBoth 6 10

theorem consumers_agree_two : ∃ s, run (checked registering step) (init 30) twoRatesRun = some s ∧
    (s.data.queued ['c', 'a', 'm']).map (fun b => b.val.payload) = [sampleFrame.payload, nextFrame.payload] ∧
    (s.data.queued ['l', 'o', 'w']).map (fun b => b.val.payload) = [nextFrame.payload] ∧
    ((poppedOf ['l', 'o', 'w'] s.log ++ s.data.queued ['l', 'o', 'w'] ++ s.pendingOf ['l', 'o', 'w'] (30 / 15)).map
      fun b => b.val.payload).Sublist
    ((poppedOf ['c', 'a', 'm'] s.log ++ s.data.queued ['c', 'a', 'm'] ++ s.pendingOf ['c', 'a', 'm'] (30 / 30)).map
      fun b => b.val.payload) :=
  ⟨_, rfl, rfl, rfl, consumers_agree (by decide) (.of_checked registering
    (fun s ia h => ⟨delivers_of_registering _ s ia h, delivers_of_registering _ s ia h⟩) (.init rfl)
    (rfl : run (checked registering step) (init 30) twoRatesRun = some _))
    (⟨[], rfl, by simp⟩ : FirstRegistered ['c', 'a', 'm'] 0 30
      [.registered ['l', 'o', 'w'] 1 15 true, .pushed ⟨0, sampleFrame⟩, .passed ⟨0, sampleFrame⟩ 1,
        .pushed ⟨2, nextFrame⟩, .passed ⟨2, nextFrame⟩ 2] _)
    ⟨[.registered ['c', 'a', 'm'] 0 30 true], rfl, by simp⟩ ⟨[_], rfl⟩ (by decide)⟩

end State

end RpiCam
