import RpiCam.Event.Lifetime

/-!
# One consumer for a queue

Events, the live stream and `make_sdp` register in one space of names, and then take frames by name. None of them looks
at the result of `insert_event`.

* `Takes s i name` : thread `i` is in `pop` of the name, or has a frame from there;
* `Undivided s` : a refused consumer gets no frame, and nobody shares a queue;
* `Distinct` : a consumer is started only under a name that no running consumer has, and nothing is stopped;
* `Single` : then names identify running consumers, and a registered name has one that registered it;
* `one_consumer` : in such runs no queue is shared;
* `shared_queue` : two loops of one name.
-/

namespace RpiCam

open Transition

/-- A `pop` that returns null has left the name unregistered, or found no queue. -/
theorem State.Step.pop_idle {s s' : State} {i : Tid} {a : Act} {n : Name} (h : Step s i a (s.pc i) s')
    (hw : (s.pc i).work = .pop n) (hidle : s'.pc i = .idle) :
    n ∉ s'.data.threadInfo ∨ (s.pc i = .popFindOutput n ∧ s'.data = s.data ∧ n ∉ s.data.output) := by
  generalize hp : s.pc i = p at h hw
  cases h
  case move p' hm =>
    rw [State.goto_pc, Function.update_self] at hidle
    cases hm <;> cases hidle
    case popUnknown name hl =>
      cases hw
      exact Or.inl (AList.lookup_eq_none.mp hl)
    case popNoQueue name hl =>
      cases hw
      exact Or.inr ⟨rfl, rfl, AList.lookup_eq_none.mp hl⟩
  case lockInfo p' t hfree hm =>
    rw [State.goto_pc, Function.update_self] at hidle
    cases hm <;> cases hidle
  case lockInput p' hfree hm => cases hm <;> cases hw
  case lockThreadInfo p' hfree hm => cases hm <;> cases hw
  case fail f hm =>
    rw [State.fail_pc, hp] at hidle
    rw [hidle] at hw
    cases hw
  case popErase name info =>
    cases hw
    exact Or.inl (by simp [VideoQueue.eraseThreadInfo, AList.mem_erase])
  case popBlock => simp at hidle
  case popPop => simp at hidle
  all_goals cases hw

theorem State.Step.remove_idle {s s' : State} {i : Tid} {a : Act} {n : Name} (h : Step s i a (s.pc i) s')
    (hf : (s.pc i).Fact s.data) (hw : (s.pc i).work = .remove n) (hidle : s'.pc i = .idle) :
    n ∉ s'.data.threadInfo := by
  generalize hp : s.pc i = p at h hw hf
  cases h
  case move p' hm =>
    rw [State.goto_pc, Function.update_self] at hidle
    cases hm <;> cases hidle <;> cases hw
  case lockInfo p' t hfree hm => cases hm <;> cases hw
  case lockInput p' hfree hm => cases hm <;> cases hw
  case lockThreadInfo p' hfree hm =>
    rw [State.goto_pc, Function.update_self] at hidle
    cases hm <;> cases hidle
  case fail f hm =>
    rw [State.fail_pc, hp] at hidle
    rw [hidle] at hw
    cases hw
  case removeNone name =>
    cases hw
    exact AList.lookup_eq_none.mp (hf.2 rfl)
  case removeInfo name info =>
    cases hw
    simp [VideoQueue.eraseThreadInfo, AList.mem_erase]
  case removeDelete => simp at hidle
  case removePop => simp at hidle
  case deleteQueue => simp at hidle
  case removeErase => simp at hidle
  case removeStop => simp at hidle
  all_goals cases hw

namespace System

/-- The thread is in `pop` of the name, or has a frame from there. -/
def Takes (s : System) (i : Tid) (name : Name) : Prop :=
  ∃ c, (s.caller i = .popping c ∨ s.caller i = .executing c) ∧ c.name = name

/-- A consumer whose registration was refused gets no frame, and no two threads take frames from one queue. -/
structure Undivided (s : System) : Prop where
  refused : ∀ i c, .refused i c ∈ s.marks → ∀ b, .handed i c b ∉ s.marks
  single : ∀ i j name, s.Takes i name → s.Takes j name → i = j

/-- A consumer is started only under a name that no running consumer has, and no event is stopped. -/
def Distinct (s : System) : Tid × SysAct → Prop
  | (_, .startEvent event _) => ∀ j c, s.Runs j c → c.name ≠ event.eventName
  | (_, .stream c) => ∀ j c', s.Runs j c' → c'.name ≠ c.name
  | (_, .stopEvent _) => False
  | _ => True

/-- The consumer is past line 72 of `insert_event`. -/
def Registered (s : System) (i : Tid) : Prop :=
  match s.caller i with
  | .inserting _ => s.queue.pc i = .idle ∨ ∃ name, s.queue.pc i = .insertOutput name
  | .ready _ | .popping _ | .executing _ | .finishing => True
  | _ => False

/-- Its name is to be unregistered when the thread is idle again. -/
def Leaves : Caller → Consumer → Prop
  | .popping c, c' => c = c' ∧ ∃ p name, c = .event p name
  | .finishing, c => c = .sdp
  | _, _ => False

/-- The live stream is past its registration, for ever. -/
def Plays : Caller → Prop
  | .ready c | .popping c | .executing c => c = .live
  | _ => False

/-- Names identify the running consumers. -/
structure Single (s : System) : Prop where
  names : ∀ i j c c', s.Runs i c → s.Runs j c' → c.name = c'.name → i = j
  owner : ∀ name, name ∈ s.queue.data.threadInfo → ∃ i c, s.Runs i c ∧ c.name = name ∧ s.Registered i
  gone : ∀ i c, Leaves (s.caller i) c → s.queue.pc i = .idle → c.name ∉ s.queue.data.threadInfo
  played : s.playing = true → ∃ i, Plays (s.caller i)
  accepted : ∀ i c, .refused i c ∉ s.marks
  unstopped : ∀ i name, s.caller i ≠ .stopping name

/-! ## The invariant -/

theorem Leaves.runs {s : System} {i : Tid} {c : Consumer} (h : Leaves (s.caller i) c) : s.Runs i c := by
  unfold Runs
  cases hp : s.caller i <;> rw [hp] at h
  case popping c' =>
    obtain ⟨rfl, -⟩ := h
    exact ⟨rfl, fun c => Caller.noConfusion⟩
  case finishing =>
    cases h
    exact ⟨rfl, fun c => Caller.noConfusion⟩
  all_goals exact absurd h id

theorem runs_inserting {s : System} {i : Tid} {c : Consumer} (h : s.caller i = .inserting c) : s.Runs i c := by
  unfold Runs
  rw [h]
  exact ⟨rfl, fun c' => Caller.noConfusion⟩

theorem Takes.runs {s : System} {i : Tid} {n : Name} (h : s.Takes i n) : ∃ c, s.Runs i c ∧ c.name = n := by
  obtain ⟨c, hc, hname⟩ := h
  refine ⟨c, ?_, hname⟩
  unfold Runs
  rcases hc with hc | hc <;> rw [hc]
  · exact ⟨rfl, fun c' => Caller.noConfusion⟩
  · exact ⟨rfl, fun c' => Caller.noConfusion⟩

/-- A thread in `insert_event` is a consumer that registers. -/
theorem caller_of_insert {s : System} {i : Tid} {n : Name} (h : (s.caller i).Agree (s.queue.pc i).work)
    (hw : (s.queue.pc i).work = .insert n) : ∃ c, s.caller i = .inserting c ∧ c.name = n := by
  rw [hw] at h
  cases hp : s.caller i <;> rw [hp] at h <;> simp [Caller.Agree] at h
  exact ⟨_, rfl, h.symm⟩

theorem caller_of_remove {s : System} {i : Tid} {n : Name} (h : (s.caller i).Agree (s.queue.pc i).work)
    (hw : (s.queue.pc i).work = .remove n) : s.caller i = .stopping n ∨ (s.caller i = .finishing ∧ n = sdpName) := by
  rw [hw] at h
  cases hp : s.caller i <;> rw [hp] at h <;> simp [Caller.Agree] at h
  · exact Or.inr ⟨rfl, h⟩
  · exact Or.inl (by rw [h])

/-- A name is registered by a consumer of that name. -/
theorem Rule.registers {s s' : System} {i : Tid} {a : SysAct} {n : Name} (h : Rule s i a (s.caller i) s')
    (hagree : (s.caller i).Agree (s.queue.pc i).work) (hn : n ∈ s'.queue.data.threadInfo) :
    n ∈ s.queue.data.threadInfo ∨ ∃ c, s.caller i = .inserting c ∧ c.name = n ∧ s'.caller i = .inserting c ∧
      s'.queue.pc i = .insertOutput n := by
  have hstep : ∀ {b q}, State.step s.queue (i, b) = some q → n ∈ q.data.threadInfo →
      n ∈ s.queue.data.threadInfo ∨ (∃ info, s.queue.pc i = .insertInfo n info) ∧ q.pc i = .insertOutput n := by
    intro b q hq hn
    rcases (State.step_sound hq).threadInfo_cases with he | ⟨m, info, hpc, hpc', -, hd⟩ | ⟨m, -, -, hd⟩
    · exact Or.inl (he ▸ hn)
    · rw [hd] at hn
      rcases (UnorderedMap.mem_emplace ..).mp hn with rfl | hn
      · exact Or.inr ⟨⟨info, hpc⟩, hpc'⟩
      · exact Or.inl hn
    · rw [hd] at hn
      exact Or.inl ((AList.mem_erase.mp hn).2)
  generalize hp : s.caller i = p at h
  cases h with
  | queue hin hq =>
    rcases hstep hq hn with hn | ⟨⟨info, hpc⟩, hpc'⟩
    · exact Or.inl hn
    · obtain ⟨c, hc, hname⟩ := caller_of_insert hagree (n := n) (by rw [hpc]; rfl)
      exact Or.inr ⟨c, hp.symm.trans hc, hname, hc, hpc'⟩
  | call hc hq =>
    rcases hstep hq hn with hn | ⟨⟨info, hpc⟩, -⟩
    · exact Or.inl hn
    · rw [State.idle_of_call hq] at hpc
      cases hpc
  | startEvent => exact Or.inl hn
  | turn => exact Or.inl hn
  | frame => exact Or.inl hn
  | deleteFails => exact Or.inl hn
  | delete => exact Or.inl hn

theorem Registered.of_ne {s s' : System} {i j : Tid} {b : Act} (hreg : s.Registered j)
    (hq : State.step s.queue (i, b) = some s'.queue) (hj : j ≠ i) (hcaller : s'.caller j = s.caller j) :
    s'.Registered j := by
  unfold Registered at hreg ⊢
  rw [hcaller]
  cases hp : s.caller j <;> rw [hp] at hreg
  case inserting c =>
    have h := State.step_sound hq
    rcases hreg with hidle | ⟨name, hpc⟩
    · exact Or.inl ((h.pc_of_ne hj rfl).mpr hidle)
    · exact Or.inr ⟨name, (h.pc_of_ne hj rfl).mpr hpc⟩
  all_goals exact hreg

theorem Registered.of_queue {s s' : System} {i : Tid} {b : Act} (hreg : s.Registered i) (hin : s.inQueue i b = true)
    (hq : State.step s.queue (i, b) = some s'.queue) (hcaller : s'.caller i = s.caller i) : s'.Registered i := by
  unfold Registered at hreg ⊢
  rw [hcaller]
  cases hp : s.caller i <;> rw [hp] at hreg
  case inserting c =>
    rcases hreg with hidle | ⟨name, hpc⟩
    · have hfree := (push_of_inQueue hin hq hidle).1
      rw [hp] at hfree
      cases hfree
    · have h := State.step_sound hq
      rw [hpc] at h
      rw [State.step_insertOutput_inv h]
      exact Or.inl (by simp)
  all_goals exact hreg

theorem Runs.of_caller {s s' : System} {j : Tid} {c : Consumer} (h : s.Runs j c) (he : s'.caller j = s.caller j) :
    s'.Runs j c := by
  unfold Runs
  rw [he]
  exact h

theorem Registered.of_same {s s' : System} {j : Tid} (h : s.Registered j) (he : s'.caller j = s.caller j)
    (hq : s'.queue.pc j = s.queue.pc j) : s'.Registered j := by
  unfold Registered
  rw [he, hq]
  exact h

/-- A registered consumer whose caller goes on stays so, or it is about to return: at the end of a loop or a `make_sdp`, or
where the live stream plays already. -/
theorem Goes.registered {s s' : System} {i : Tid} {a : SysAct} {c : Consumer}
    (h : Goes s s' i a (s.caller i) (s'.caller i)) (hrun : s.Runs i c) (hreg : s.Registered i) :
    (s'.Runs i c ∧ s'.Registered i) ∨ (Leaves (s.caller i) c ∧ s.queue.pc i = .idle) ∨
      (s.playing = true ∧ s.caller i = .inserting .live) := by
  unfold Runs at hrun ⊢
  unfold Registered at hreg ⊢
  generalize s.caller i = p at h hrun hreg
  generalize s'.caller i = p' at h
  cases h with
  | turn ht hplays hidle =>
    cases ht with
    | stream hc => exact absurd hreg id
    | playsAlready hplaying => exact Or.inr (Or.inr ⟨hplaying, rfl⟩)
    | loopEnds =>
      cases hrun.1
      exact Or.inr (Or.inl ⟨⟨rfl, _, _, rfl⟩, hidle⟩)
    | finished =>
      cases hrun.1
      exact Or.inr (Or.inl ⟨rfl, hidle⟩)
    | _ => exact Or.inl ⟨⟨hrun.1, fun c' => Caller.noConfusion⟩, trivial⟩
  | call hc hq =>
    cases hc with
    | insert hr => exact absurd hreg id
    | stopEvent => exact absurd hreg id
    | _ => exact Or.inl ⟨⟨hrun.1, fun c' => Caller.noConfusion⟩, trivial⟩
  | frame => exact Or.inl ⟨⟨hrun.1, fun c' => Caller.noConfusion⟩, trivial⟩
  | delete => exact absurd hreg id

theorem Rule.registered_kept {s s' : System} {i j : Tid} {a : SysAct} {c : Consumer} (h : Rule s i a (s.caller i) s')
    (hrun : s.Runs j c) (hreg : s.Registered j) :
    (s'.Runs j c ∧ s'.Registered j) ∨ (Leaves (s.caller j) c ∧ s.queue.pc j = .idle) ∨
      (s.playing = true ∧ s.caller j = .inserting .live) := by
  rcases h.caller_cases j with ⟨he, hpc | ⟨b, hq, hin⟩⟩ | ⟨hfree, -⟩ | ⟨rfl, hg⟩
  · exact Or.inl ⟨hrun.of_caller he, hreg.of_same he hpc⟩
  · refine Or.inl ⟨hrun.of_caller he, ?_⟩
    by_cases hj : j = i
    · subst hj
      exact hreg.of_queue (hin rfl) hq he
    · exact hreg.of_ne hq hj he
  · unfold Registered at hreg
    rw [hfree] at hreg
    exact absurd hreg id
  · exact hg.registered hrun hreg

theorem Plays.runs {s : System} {i : Tid} (h : Plays (s.caller i)) : s.Runs i .live := by
  unfold Runs
  cases hp : s.caller i <;> rw [hp] at h
  case ready c | popping c | executing c =>
    subst h
    exact ⟨rfl, fun c' => Caller.noConfusion⟩
  all_goals exact absurd h id

theorem Plays.goes {s s' : System} {i : Tid} {a : SysAct} {p p' : Caller} (hp : Plays p) (h : Goes s s' i a p p') :
    Plays p' := by
  cases h with
  | turn ht =>
    cases ht with
    | noFrame hc => exact hp
    | deleted => exact hp
    | loopEnds => cases hp
    | _ => exact absurd hp id
  | call hc =>
    cases hc with
    | pop => exact hp
    | finish => cases hp
    | _ => exact absurd hp id
  | frame => exact hp
  | delete => exact absurd hp id

/-- The live stream plays on, and it begins to play with a thread that goes on to pop. -/
theorem Rule.plays {s s' : System} {i : Tid} {a : SysAct} (h : Rule s i a (s.caller i) s')
    (hs : s.playing = true → ∃ j, Plays (s.caller j)) (hplaying : s'.playing = true) : ∃ j, Plays (s'.caller j) := by
  by_cases hold : s.playing = true
  · obtain ⟨j, hj⟩ := hs hold
    refine ⟨j, ?_⟩
    rcases h.caller_cases j with ⟨he, -⟩ | ⟨hfree, -⟩ | ⟨-, hg⟩
    · exact he ▸ hj
    · rw [hfree] at hj
      exact absurd hj id
    · exact hj.goes hg
  · refine ⟨i, ?_⟩
    generalize s.caller i = p at h
    cases h with
    | turn ht =>
      cases ht with
      | inserted hc =>
        rw [goto_caller, Function.update_self]
        simpa [hold, Plays] using hplaying
      | _ => exact absurd hplaying hold
    | _ => exact absurd hplaying hold

theorem Goes.not_leaves {s s' : System} {i : Tid} {a : SysAct} {p p' : Caller} {c : Consumer} (h : Goes s s' i a p p')
    (hl : Leaves p' c) : s'.queue.pc i ≠ .idle := by
  intro hidle
  cases h with
  | turn ht => cases ht <;> exact hl
  | @call _ r _ _ hc hq =>
    have hw := State.call_work hq
    rw [hidle] at hw
    cases r <;> cases hw
  | frame => exact hl
  | delete => exact hl

/-- A consumer that is to return is idle again: it was before, or its call has just ended. -/
theorem Rule.leaves_cases {s s' : System} {i j : Tid} {a : SysAct} {c : Consumer} (h : Rule s i a (s.caller i) s')
    (hl : Leaves (s'.caller j) c) (hidle : s'.queue.pc j = .idle) :
    (Leaves (s.caller j) c ∧ s.queue.pc j = .idle) ∨
      (j = i ∧ Leaves (s.caller i) c ∧ ∃ b, s.inQueue i b = true ∧ State.step s.queue (i, b) = some s'.queue) := by
  rcases h.caller_cases j with ⟨he, hpc | ⟨b, hq, hin⟩⟩ | ⟨-, -, event, -, hlaunched⟩ | ⟨rfl, hg⟩
  · exact Or.inl ⟨he ▸ hl, hpc ▸ hidle⟩
  · by_cases hj : j = i
    · subst hj
      exact Or.inr ⟨rfl, he ▸ hl, b, hin rfl, hq⟩
    · exact Or.inl ⟨he ▸ hl, ((State.step_sound hq).pc_of_ne hj rfl).mp hidle⟩
  · rw [hlaunched] at hl
    exact absurd hl id
  · exact absurd hidle (hg.not_leaves hl)

theorem Rule.refused_cases {s s' : System} {i j : Tid} {a : SysAct} {c : Consumer} (h : Rule s i a (s.caller i) s')
    (hm : .refused j c ∈ s'.marks) :
    .refused j c ∈ s.marks ∨ (s.caller i = .inserting c ∧ ∃ name info, s.queue.pc i = .insertInfo name info ∧
      name ∈ s.queue.data.threadInfo) := by
  generalize hp : s.caller i = p at h
  cases h with
  | queue hin hq =>
    rw [mark_marks] at hm
    rcases List.mem_append.mp hm with hm | hm
    · exact Or.inl hm
    · unfold refusal at hm
      split at hm
      · rename_i c' name info hc' hpc
        split_ifs at hm with hl
        · cases List.mem_singleton.mp hm
          exact Or.inr ⟨hp.symm.trans hc', name, info, hpc, AList.lookup_isSome.mp hl⟩
        · cases hm
      · cases hm
  | startEvent => exact Or.inl hm
  | turn => exact Or.inl hm
  | call => exact Or.inl hm
  | frame => exact Or.inl (by simpa using hm)
  | deleteFails => exact Or.inl hm
  | delete => exact Or.inl (by simpa using hm)

theorem not_hold_of_inQueue {s : System} {i : Tid} {a : Act} {q : State} (hin : s.inQueue i a = true)
    (hq : State.step s.queue (i, a) = some q) {b : BufferRef} (hpc : s.queue.pc i = .hold b) :
    ∃ c, s.caller i = .executing c := by
  cases a with
  | run =>
    simp only [inQueue, hpc] at hin
    cases hc : s.caller i <;> rw [hc] at hin
    case executing c => exact ⟨c, rfl⟩
    all_goals cases hin
  | _ => simp [State.step, hpc] at hq

/-- The thread between the changes of the two maps is a running consumer of the name. -/
theorem Single.splitter {s : System} (hs : Single s) (hagree : ∀ j, (s.caller j).Agree (s.queue.pc j).work)
    {k : Tid} {n : Name} (hk : (s.queue.pc k).splits n = true) : ∃ c, s.Runs k c ∧ c.name = n := by
  have hw : (s.queue.pc k).work = .insert n ∨ (s.queue.pc k).work = .remove n := by
    cases hpc : s.queue.pc k <;> rw [hpc] at hk <;> simp only [Pc.splits, beq_iff_eq, Bool.false_eq_true] at hk <;>
      subst hk
    · exact Or.inl rfl
    · exact Or.inr rfl
    · exact Or.inr rfl
  rcases hw with hw | hw
  · obtain ⟨c, hc, hname⟩ := caller_of_insert (hagree k) hw
    exact ⟨c, runs_inserting hc, hname⟩
  · rcases caller_of_remove (hagree k) hw with hc | ⟨hc, hn⟩
    · exact absurd hc (hs.unstopped k n)
    · exact ⟨.sdp, ⟨by rw [hc]; rfl, fun c' => by rw [hc]; exact Caller.noConfusion⟩, hn.symm⟩

theorem Single.unregistered {s : System} (hs : Single s) (hagree : ∀ j, (s.caller j).Agree (s.queue.pc j).work)
    (hc : State.Coherent s.queue) {i : Tid} {c : Consumer} {b : Act} {q : State} (hl : Leaves (s.caller i) c)
    (hin : s.inQueue i b = true) (hq : State.step s.queue (i, b) = some q) (hidle : q.pc i = .idle) :
    c.name ∉ q.data.threadInfo := by
  have h := State.step_sound hq
  have hruns := hl.runs
  have hpc : s.queue.pc i ≠ .idle := by
    intro hpc
    rw [(push_of_inQueue hin hq hpc).1] at hl
    exact hl
  have hw := hagree i
  cases hp : s.caller i <;> rw [hp] at hl hw
  case popping c' =>
    obtain ⟨rfl, -⟩ := hl
    rcases hw with hw | hw | hw
    · exact absurd (Pc.work_eq_none.mp hw) hpc
    · rcases h.pop_idle hw hidle with hn | ⟨hat, hd, hn⟩
      · exact hn
      · -- registered without a queue: somebody is between the two maps, under this name
        rw [hd]
        intro hmem
        rcases hc.known _ hmem with ho | ⟨k, hk⟩
        · exact hn ho
        · obtain ⟨c'', hk', hname⟩ := hs.splitter hagree hk
          have hki := hs.names k i _ _ hk' hruns hname
          rw [hki, hat] at hk
          cases hk
    · cases hat : s.queue.pc i <;> rw [hat] at hw <;> cases hw
      obtain ⟨c'', hex⟩ := not_hold_of_inQueue hin hq hat
      rw [hp] at hex
      cases hex
  case finishing =>
    cases hl
    rcases hw with hw | hw
    · exact absurd (Pc.work_eq_none.mp hw) hpc
    · exact h.remove_idle (hc.fact i) hw hidle
  all_goals exact absurd hl id

theorem step_single {s s' : System} {i : Tid} {a : SysAct} (hagree : ∀ j, (s.caller j).Agree (s.queue.pc j).work)
    (hc : State.Coherent s.queue) (hs : Single s) (hok : Distinct s (i, a)) (h : Rule s i a (s.caller i) s') :
    Single s' where
  names j k c c' hj hk hname := by
    rcases h.runs_cases hj with h1 | ⟨-, ⟨event, rfl, rfl⟩ | ⟨rfl, hji⟩⟩ <;>
      rcases h.runs_cases hk with h2 | ⟨-, ⟨event', he, hp⟩ | ⟨he, hki⟩⟩
    · exact hs.names j k c c' h1 h2 hname
    · subst he hp
      exact absurd hname (hok j c h1)
    · subst he
      exact absurd hname (hok j c h1)
    · exact absurd hname.symm (hok k c' h2)
    · cases he
      rfl
    · cases he
    · exact absurd hname.symm (hok k c' h2)
    · cases he
    · rw [hji, hki]
  owner n hn := by
    rcases h.registers (hagree i) hn with hn | ⟨c, hi, hname, hi', hpc⟩
    · obtain ⟨j, c, hrun, hname, hreg⟩ := hs.owner n hn
      rcases h.registered_kept hrun hreg with ⟨hrun', hreg'⟩ | ⟨hl, hidle⟩ | ⟨hplaying, hinserting⟩
      · exact ⟨j, c, hrun', hname, hreg'⟩
      · exact absurd (hname ▸ hn) (hs.gone j c hl hidle)
      · -- the stream that plays is another thread of the same name
        obtain ⟨k, hk⟩ := hs.played hplaying
        have hkj := hs.names k j _ _ hk.runs (runs_inserting hinserting) rfl
        rw [hkj, hinserting] at hk
        exact absurd hk id
    · refine ⟨i, c, runs_inserting hi', hname, ?_⟩
      unfold Registered
      rw [hi']
      exact Or.inr ⟨n, hpc⟩
  gone j c hl hidle := by
    rcases h.leaves_cases hl hidle with ⟨hl, hidle⟩ | ⟨rfl, hl, b, hin, hq⟩
    · intro hmem
      rcases h.registers (hagree i) hmem with hm | ⟨c', hi, hname, -, -⟩
      · exact hs.gone j c hl hidle hm
      · have hij : i = j :=
          hs.names i j c' c (runs_inserting hi) hl.runs hname
        rw [← hij, hi] at hl
        exact hl
    · exact hs.unregistered hagree hc hl hin hq hidle
  played hplaying := h.plays hs.played hplaying
  accepted j c hm := by
    rcases h.refused_cases hm with hm | ⟨hi, n, info, hpc, hn⟩
    · exact hs.accepted j c hm
    · have hname : c.name = n := by
        obtain ⟨c', hi', hname⟩ := caller_of_insert (hagree i) (n := n) (by rw [hpc]; rfl)
        rw [hi] at hi'
        cases hi'
        exact hname
      obtain ⟨k, c', hrun, hname', hreg⟩ := hs.owner n hn
      have hki : k = i := by
        refine hs.names k i c' c hrun (runs_inserting hi) ?_
        rw [hname', hname]
      -- the owner of the name is past the test
      unfold Registered at hreg
      rw [hki, hi] at hreg
      rcases hreg with hidle | ⟨m, hat⟩
      · rw [hpc] at hidle
        cases hidle
      · rw [hpc] at hat
        cases hat
  unstopped j n hj := by
    rcases h.stopping_cases hj with hold | rfl
    · exact hs.unstopped j n hold
    · exact hok

theorem single_init (F : Int) : Single (init F) where
  names i j c c' h := by cases h.1
  owner n h := by cases h
  gone i c h := absurd h id
  played h := by cases h
  accepted i c h := by cases h
  unstopped i n h := by cases h

theorem reach_single {F : Int} {s : System} (h : Reach (· = init F) step Distinct s) : Single s := by
  have hknown : ∀ s, Reach (· = init F) step Distinct s →
      (∀ j, (s.caller j).Agree (s.queue.pc j).work) ∧ State.Coherent s.queue := by
    intro s hr
    exact ⟨reach_agree hr, (State.reach_coherent (reach_queue hr)).2⟩
  refine Reach.invariant_of Single hknown ?_ ?_ h
  · rintro s rfl
    exact single_init F
  · intro s a s' hk hs hok hst
    exact step_single hk.1 hk.2 hs hok (step_sound hst)

/-- **No queue is shared** in a run where each consumer is started under a name that no running consumer has. -/
theorem one_consumer {F : Int} {s : System} (h : Reach (· = init F) step Distinct s) : Undivided s := by
  have hs := reach_single h
  refine ⟨fun i c hm => absurd hm (hs.accepted i c), fun i j name hi hj => ?_⟩
  obtain ⟨c, hc, hname⟩ := hi.runs
  obtain ⟨c', hc', hname'⟩ := hj.runs
  exact hs.names i j c c' hc hc' (hname.trans hname'.symm)

/-- The loop of `cam` on thread `7` and the live stream on thread `9`. -/
def startedTwo : System := (startedCam true).goto 9 (.launched .live)

/-- Both register, and call `pop`. -/
def twoRun : List (Tid × SysAct) :=
  registering true ++ [(9, .insert (.insert liveName 30 true)), (9, .queue .run), (9, .queue .run), (9, .queue .run),
    (9, .inserted), (9, .pop)]

def unstarted (_ : System) : Tid × SysAct → Bool
  | (_, .startEvent _ _) | (_, .stream _) | (_, .stopEvent _) => false
  | _ => true

theorem unstarted_sound (s : System) (ia : Tid × SysAct) (h : unstarted s ia = true) : Distinct s ia := by
  obtain ⟨i, a⟩ := ia
  cases a <;> trivial

theorem startedTwo_distinct : Distinct (startedCam true) (9, .stream .live) := by
  intro j c hj hname
  have hcons := hj.1
  unfold startedCam at hcons
  by_cases h7 : j = 7
  · subst h7
    simp only [goto_caller, Function.update_self, Caller.consumer, Option.some.injEq] at hcons
    subst hcons
    cases hname
  · simp [Function.update_of_ne h7, init, Caller.consumer] at hcons

theorem one_consumer_two : ∃ s, run (checked unstarted step) startedTwo twoRun = some s ∧
    s.Takes 7 ['c', 'a', 'm'] ∧ s.Takes 9 liveName ∧ Undivided s :=
  ⟨_, rfl, ⟨.event 0 ['c', 'a', 'm'], Or.inl rfl, rfl⟩, ⟨.live, Or.inl rfl, rfl⟩, one_consumer (F := 30)
    (.of_checked unstarted unstarted_sound
      (.next (9, .stream .live) (.next (6, .startEvent (camEvent true) 7) (.init rfl) (fun j c h => by cases h.1) rfl)
        startedTwo_distinct rfl)
      (rfl : run (checked unstarted step) startedTwo twoRun = some _))⟩

/-- Thread `6` starts `cam` twice. The loop on thread `7` registers; the one on thread `9` is refused, and pops. -/
def sharedRun : List (Tid × SysAct) :=
  [(6, .startEvent (camEvent true) 7), (6, .startEvent (camEvent true) 9)] ++ registering true ++
    [(9, .insert (.insert ['c', 'a', 'm'] 30 true)), (9, .queue .run), (9, .queue .run), (9, .inserted), (9, .pop)] ++
    (State.pushingRun ++ State.passingRun).map (fun ia => (ia.1, .queue ia.2)) ++ List.replicate 10 (9, .queue .run) ++
    [(9, .frame)]

/-- **Two loops of one name.** The loop whose registration was refused takes a frame of the registered one. -/
theorem shared_queue : ∃ s, Reach (· = init 30) step (fun _ _ => True) s ∧
    s.Takes 7 ['c', 'a', 'm'] ∧ s.Takes 9 ['c', 'a', 'm'] ∧ ¬ Undivided s := by
  have hrun : ∃ s, run step (init 30) sharedRun = some s ∧ s.caller 7 = .popping (.event 0 ['c', 'a', 'm']) ∧
      s.caller 9 = .executing (.event 1 ['c', 'a', 'm']) ∧ ∃ b,
      s.marks = [.refused 9 (.event 1 ['c', 'a', 'm']), .handed 9 (.event 1 ['c', 'a', 'm']) b] :=
    ⟨_, rfl, rfl, rfl, _, rfl⟩
  obtain ⟨s, hs, h7, h9, b, hmarks⟩ := hrun
  refine ⟨s, .of_run (.init rfl) hs, ⟨_, Or.inl h7, rfl⟩, ⟨_, Or.inr h9, rfl⟩, fun hu => ?_⟩
  exact hu.refused 9 (.event 1 ['c', 'a', 'm']) (by simp [hmarks]) b (by simp [hmarks])

end System

end RpiCam
