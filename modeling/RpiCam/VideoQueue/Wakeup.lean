import RpiCam.VideoQueue.Callers
import RpiCam.VideoQueue.Ownership

/-!
# No lost wake-up

`push` wakes one of the distributors, and a pass wakes the consumers of an event from inside the mutex of its
`ThreadInfo`. `Feeds` is the discipline: every `insert_event` gets a new `ThreadInfo` that runs, with a rate of the
device, and nobody removes an event.

* `Steady` : then no entry is ever taken out of `_thread_info`;
* `Watching` : a consumer waits on the condition variable of its entry, and its queue was empty when it was last
  notified;
* `Attended` : while `_input` has frames a distributor is awake or notified;
* `no_lost_wakeup` : in every reached state a consumer that waits without a notification has an empty queue;
* `test_excludes_copy` : the test of a consumer and the copy of a pass for the same event exclude each other.
-/

namespace RpiCam

open Transition

namespace Pc

def distributes : Pc → Bool
  | distLock | distTest | distWait _ | distWake | distTake | distIterate _ _ | distVisit _ _ _ _ | distDue _ _ _ _ _
  | distEntry _ _ _ _ _ | distCopy _ _ _ _ _ | distDelete _ => true
  | _ => false

/-- The name, and the `ThreadInfo` found for it at line 169. -/
def locksFor : Pc → Option (Name × InfoId)
  | popLock n t | popCond n t | popRun n t _ | popEmpty n t _ | popWait n t _ _ | popWake n t _ => some (n, t)
  | _ => none

/-- The name, and the `ThreadInfo` found for it at line 170. -/
def watches : Pc → Option (Name × InfoId)
  | popRun n _ c | popEmpty n _ c | popWait n _ c _ | popWake n _ c => some (n, c)
  | _ => none

theorem distributes_plain (p : Pc) : p.plain.distributes = p.distributes := by cases p <;> rfl

theorem locksFor_plain (p : Pc) : p.plain.locksFor = p.locksFor := by cases p <;> rfl

theorem watches_plain (p : Pc) : p.plain.watches = p.watches := by cases p <;> rfl

end Pc

namespace State

/-- Every event gets a `ThreadInfo` of its own that runs, with a rate from `1` to that of the device, and none is
removed. -/
def Feeds (s : State) : Tid × Act → Prop
  | (_, a) => (∀ n fps r, a = .call (.insert n fps r) → 1 ≤ fps ∧ fps ≤ s.data.deviceFps ∧ r = true) ∧
    (∀ n t, a ≠ .call (.insertAgain n t)) ∧ ∀ n, a ≠ .call (.remove n)

/-! ## Entries stay -/

/-- Nobody takes an entry out of `_thread_info`, and every `ThreadInfo` runs. -/
structure Steady (s : State) : Prop where
  removes : ∀ j n, (s.pc j).removes n = false
  erases : ∀ j n t, s.pc j ≠ .popErase n t
  inserted : ∀ j t, (s.pc j).inserts = some t → (s.data.infos t).isRun = true
  registered : ∀ n t, AList.lookup n s.data.threadInfo = some t → (s.data.infos t).isRun = true

theorem Steady.erasesInfo {s : State} (hs : Steady s) (j : Tid) (n : Name) : (s.pc j).erasesInfo n = false := by
  have hr := hs.removes j
  have he := hs.erases j
  cases hp : s.pc j <;> try rfl
  case removeInfo m t => simpa [hp, Pc.removes] using hr m
  case popErase m t => exact absurd hp (he m t)

theorem Steady.isRun {s s' : State} {i : Tid} {a : Act} (hs : Steady s) (h : Step s i a (s.pc i) s') {t : InfoId}
    (ht : t < s.data.nextInfo) : (s'.data.infos t).isRun = (s.data.infos t).isRun := by
  rcases h.infos_cases ht with he | ⟨n, -, -, he⟩ | ⟨n, hpc, -, -⟩
  · rw [he]
  · rw [he]
  · have := hs.removes i n
    rw [hpc] at this
    simp [Pc.removes] at this

/-- A thread comes to line 178 only where the event does not run. -/
theorem Step.erases_self {s s' : State} {i : Tid} {a : Act} (h : Step s i a (s.pc i) s') {n : Name} {t : InfoId}
    (he : s'.pc i = .popErase n t) :
    s.pc i = .popErase n t ∨ ∃ u, AList.lookup n s.data.threadInfo = some u ∧ (s.data.infos u).isRun = false := by
  generalize hpc : s.pc i = p at h ⊢
  cases h
  case move p' hm =>
    simp only [goto_pc, Function.update_self] at he
    cases hm <;> simp only [Pc.popErase.injEq, reduceCtorEq] at he
    case popStops m u v hl hr =>
      obtain ⟨rfl, -⟩ := he
      exact Or.inr ⟨v, hl, hr⟩
  case lockInput p' hfree hm => cases hm <;> simp at he
  case lockThreadInfo p' hfree hm => cases hm <;> simp at he
  case lockInfo p' u hfree hm => cases hm <;> simp at he
  case fail f hm => exact Or.inl (by rw [fail_pc, hpc] at he; exact he)
  all_goals simp at he

theorem step_steady {s s' : State} {i : Tid} {a : Act} (hc : Coherent s) (hs : Steady s) (hok : Feeds s (i, a))
    (h : Step s i a (s.pc i) s') : Steady s' where
  removes j n := by
    by_contra hr
    rw [Bool.not_eq_false] at hr
    by_cases hj : j = i
    · subst hj
      rcases h.removes_self hr with hold | ha
      · rw [hs.removes j n] at hold
        cases hold
      · exact hok.2.2 n ha
    · rw [← Pc.removes_plain, h.plain_of_ne hj, Pc.removes_plain, hs.removes j n] at hr
      cases hr
  erases j n t he := by
    by_cases hj : j = i
    · subst hj
      rcases h.erases_self he with hold | ⟨u, hl, hr⟩
      · exact hs.erases j n t hold
      · rw [hs.registered n u hl] at hr
        cases hr
    · exact hs.erases j n t ((h.pc_of_ne hj rfl).mp he)
  inserted j t ht := by
    have hold : (s.pc j).inserts = some t → (s'.data.infos t).isRun = true := fun h1 => by
      rw [hs.isRun h (inserts_lt hc h1)]
      exact hs.inserted j t h1
    by_cases hj : j = i
    · subst hj
      rcases h.inserts_self ht with h1 | ⟨n, fps, r, ha, hu, hd⟩ | ⟨n, ha⟩
      · exact hold h1
      · rw [hd, hu]
        simpa [VideoQueue.newThreadInfo] using (hok.1 n fps r ha).2.2
      · exact absurd ha (hok.2.1 n t)
    · rw [← Pc.inserts_plain, h.plain_of_ne hj, Pc.inserts_plain] at ht
      exact hold ht
  registered n t ht := by
    rcases h.threadInfo_cases with he | ⟨m, u, hpc, -, -, hd⟩ | ⟨m, hpc, -, -⟩
    · rw [he] at ht
      rw [hs.isRun h (hc.infoFresh n t ht)]
      exact hs.registered n t ht
    · rw [hd] at ht
      simp only [VideoQueue.enterInfo, UnorderedMap.lookup_emplace] at ht
      split_ifs at ht with hn
      · rw [Option.some.injEq] at ht
        subst ht
        have hi : (s.pc i).inserts = some u := by rw [hpc]; rfl
        rw [hs.isRun h (inserts_lt hc hi)]
        exact hs.inserted i u hi
      · rw [hs.isRun h (hc.infoFresh n t ht)]
        exact hs.registered n t ht
    · have := hs.erasesInfo i m
      rcases hpc with ⟨u, hpc⟩ | ⟨u, hpc⟩ <;> rw [hpc] at this <;> simp [Pc.erasesInfo] at this

theorem steady_init (F : Int) : Steady (init F) where
  removes j n := by rcases init_pc F j with hj | hj <;> rw [hj] <;> rfl
  erases j n t h := by rcases init_pc F j with hj | hj <;> rw [hj] at h <;> cases h
  inserted j t h := by rcases init_pc F j with hj | hj <;> rw [hj] at h <;> cases h
  registered n t h := by simp [init, VideoQueue.new] at h

/-! ## Consumers that wait -/

/-- What a consumer looked up is still there, and who waits without a notification has an empty queue. -/
structure Watching (s : State) : Prop where
  locks : ∀ j n t, (s.pc j).locksFor = some (n, t) → AList.lookup n s.data.threadInfo = some t
  conds : ∀ j n c, (s.pc j).watches = some (n, c) → AList.lookup n s.data.threadInfo = some c
  empty : ∀ j n t c, s.pc j = .popWait n t c false →
    ∃ q, AList.lookup n s.data.output = some q ∧ s.data.queues q = some []

theorem Step.locksFor_self {s s' : State} {i : Tid} {a : Act} (h : Step s i a (s.pc i) s') {n : Name} {t : InfoId}
    (hl : (s'.pc i).locksFor = some (n, t)) :
    (s.pc i).locksFor = some (n, t) ∨ AList.lookup n s.data.threadInfo = some t := by
  generalize hpc : s.pc i = p at h ⊢
  cases h
  case move p' hm =>
    simp only [goto_pc, Function.update_self] at hl
    cases hm <;> simp only [Pc.locksFor, Option.some.injEq, Prod.mk.injEq, reduceCtorEq] at hl ⊢
    case popMutex m u hk =>
      obtain ⟨rfl, rfl⟩ := hl
      exact Or.inr hk
    all_goals exact Or.inl hl
  case lockInput p' hfree hm => cases hm <;> simp [Pc.locksFor] at hl
  case lockThreadInfo p' hfree hm => cases hm <;> simp [Pc.locksFor] at hl
  case lockInfo p' u hfree hm =>
    simp only [goto_pc, Function.update_self] at hl
    cases hm
    · exact Or.inl hl
    · exact Or.inl hl
    · cases hl
  case fail f hm => exact Or.inl (by rw [fail_pc, hpc] at hl; exact hl)
  case popBlock m u c q ho hq =>
    simp only [goto_pc, Function.update_self] at hl
    exact Or.inl hl
  all_goals simp [Pc.locksFor] at hl

theorem Step.watches_self {s s' : State} {i : Tid} {a : Act} (h : Step s i a (s.pc i) s') {n : Name} {c : InfoId}
    (hl : (s'.pc i).watches = some (n, c)) :
    (s.pc i).watches = some (n, c) ∨ AList.lookup n s.data.threadInfo = some c := by
  generalize hpc : s.pc i = p at h ⊢
  cases h
  case move p' hm =>
    simp only [goto_pc, Function.update_self] at hl
    cases hm <;> simp only [Pc.watches, Option.some.injEq, Prod.mk.injEq, reduceCtorEq] at hl ⊢
    case popCond m u v hk =>
      obtain ⟨rfl, rfl⟩ := hl
      exact Or.inr hk
    all_goals exact Or.inl hl
  case lockInput p' hfree hm => cases hm <;> simp [Pc.watches] at hl
  case lockThreadInfo p' hfree hm => cases hm <;> simp [Pc.watches] at hl
  case lockInfo p' u hfree hm =>
    simp only [goto_pc, Function.update_self] at hl
    cases hm
    · cases hl
    · exact Or.inl hl
    · cases hl
  case fail f hm => exact Or.inl (by rw [fail_pc, hpc] at hl; exact hl)
  case popBlock m u v q ho hq =>
    simp only [goto_pc, Function.update_self] at hl
    exact Or.inl hl
  all_goals simp [Pc.watches] at hl

theorem Step.stays_waiting {s s' : State} {i : Tid} {a : Act} (h : Step s i a (s.pc i) s') {j : Tid} (hj : j ≠ i)
    {n : Name} {t c : InfoId} (hw : s'.pc j = .popWait n t c false) : s.pc j = .popWait n t c false := by
  generalize s.pc i = p at h
  cases h
  case pushInput b waiter hn =>
    simp only [goto_pc, Function.update_of_ne hj, note_pc, setInput_pc, setData_pc, notifyOne_pc] at hw
    split_ifs at hw
    exact hw
  case distCopy b t' name info rest v hl hc =>
    simp only [goto_pc, Function.update_of_ne hj, setInfo_pc, setData_pc, notifyAll_pc] at hw
    cases hp : s.pc j <;> rw [hp] at hw <;> simp_all
  all_goals simpa [Function.update_of_ne hj] using hw

/-- A pass that changes a queue notifies everybody who waits on the condition variable of the entry. -/
theorem Step.copy_notifies {s s' : State} {i : Tid} {a : Act} (h : Step s i a (s.pc i) s') {b : BufferRef} {t : Int}
    {name : Name} {info : InfoId} {rest : List (Name × InfoId)} (hpc : s.pc i = .distCopy b t name info rest) :
    s'.data = s.data ∨ AList.lookup name s.data.threadInfo = some info ∧
      ∀ j n own notified, s'.pc j = .popWait n own info notified → notified = true := by
  rw [hpc] at h
  cases h
  case move p' hm => cases hm
  case lockInput p' hfree hm => cases hm
  case lockThreadInfo p' hfree hm => cases hm
  case lockInfo p' u hfree hm => cases hm
  case fail f hm => exact Or.inl rfl
  case distCopy v hc hl =>
    refine Or.inr ⟨hl, fun j n own notified hw => ?_⟩
    by_cases hj : j = i
    · subst hj
      simp at hw
    · simp only [goto_pc, Function.update_of_ne hj, setInfo_pc, setData_pc, notifyAll_pc] at hw
      cases hp : s.pc j <;> rw [hp] at hw <;> simp only [Pc.popWait.injEq, reduceCtorEq] at hw
      obtain ⟨-, -, rfl, rfl⟩ := hw
      simp

/-- Who begins to wait has just found its queue empty. -/
theorem Step.waits_self {s s' : State} {i : Tid} {a : Act} (h : Step s i a (s.pc i) s') {n : Name} {t c : InfoId}
    {notified : Bool} (hw : s'.pc i = .popWait n t c notified) :
    s'.data = s.data ∧ (s.pc i = .popWait n t c notified ∨
      ∃ q, AList.lookup n s.data.output = some q ∧ s.data.queues q = some []) := by
  generalize hpc : s.pc i = p at h ⊢
  cases h
  case move p' hm =>
    simp only [goto_pc, Function.update_self] at hw
    cases hm <;> simp at hw
  case lockInput p' hfree hm => cases hm <;> simp at hw
  case lockThreadInfo p' hfree hm => cases hm <;> simp at hw
  case lockInfo p' u hfree hm => cases hm <;> simp at hw
  case fail f hm => exact ⟨rfl, Or.inl (by rw [fail_pc, hpc] at hw; exact hw)⟩
  case popBlock m u v q ho hq =>
    simp only [goto_pc, Function.update_self, Pc.popWait.injEq] at hw
    obtain ⟨rfl, -⟩ := hw
    exact ⟨rfl, Or.inr ⟨q, ho, hq⟩⟩
  all_goals simp at hw

/-- The queue of a consumer that waits without a notification stays empty. -/
theorem Watching.empty_step {s s' : State} {i : Tid} {a : Act} (hc : Coherent s) (hst : Steady s) (hs : Watching s)
    (h : Step s i a (s.pc i) s') {j : Tid} {n : Name} {t c : InfoId} (hw : s'.pc j = .popWait n t c false)
    (hold : s.pc j = .popWait n t c false) :
    ∃ q, AList.lookup n s'.data.output = some q ∧ s'.data.queues q = some [] := by
  obtain ⟨q, ho, hq⟩ := hs.empty j n t c hold
  refine ⟨q, h.output_lookup hc ho (by rw [hq]; simp), ?_⟩
  cases h.queue (hc.queueFresh n q ho) with
  | keep hkeep => rw [hkeep, hq]
  | @append b t' name info rest l hpc ho' _ _ =>
    have hcond := hs.conds j n c (by rw [hold]; rfl)
    have hname : name = n := hc.inj name n q ho' ho
    rcases h.copy_notifies hpc with hd | ⟨hlook, hnot⟩
    · rw [hd, hq]
    · rw [hname, hcond, Option.some.injEq] at hlook
      subst hlook
      cases hnot j n t false hw
  | @drain name info b rest hpc _ _ =>
    have := hst.removes i name
    rw [hpc] at this
    simp [Pc.removes] at this
  | @delete name info hpc _ _ _ =>
    have := hst.removes i name
    rw [hpc] at this
    simp [Pc.removes] at this
  | pop _ _ hl _ =>
    rw [hq] at hl
    cases hl

theorem step_watching {s s' : State} {i : Tid} {a : Act} (hc : Coherent s) (hst : Steady s) (hs : Watching s)
    (h : Step s i a (s.pc i) s') : Watching s' where
  locks j n t hl := by
    refine h.lookup_kept ?_ (hst.erasesInfo i n)
    by_cases hj : j = i
    · subst hj
      exact (h.locksFor_self hl).elim (hs.locks j n t) id
    · rw [← Pc.locksFor_plain, h.plain_of_ne hj, Pc.locksFor_plain] at hl
      exact hs.locks j n t hl
  conds j n c hl := by
    refine h.lookup_kept ?_ (hst.erasesInfo i n)
    by_cases hj : j = i
    · subst hj
      exact (h.watches_self hl).elim (hs.conds j n c) id
    · rw [← Pc.watches_plain, h.plain_of_ne hj, Pc.watches_plain] at hl
      exact hs.conds j n c hl
  empty j n t c hw := by
    by_cases hj : j = i
    · subst hj
      obtain ⟨hd, hold | ⟨q, ho, hq⟩⟩ := h.waits_self hw
      · exact hs.empty_step hc hst h hw hold
      · exact ⟨q, by rw [hd]; exact ho, by rw [hd]; exact hq⟩
    · exact hs.empty_step hc hst h hw (h.stays_waiting hj hw)

theorem watching_init (F : Int) : Watching (init F) where
  locks j n t h := by rcases init_pc F j with hj | hj <;> rw [hj] at h <;> cases h
  conds j n t h := by rcases init_pc F j with hj | hj <;> rw [hj] at h <;> cases h
  empty j n t c h := by rcases init_pc F j with hj | hj <;> rw [hj] at h <;> cases h

/-! ## Distributors that wait -/

/-- The distributors are the threads `0` to `5`, and while `_input` has frames one of them is awake or notified. -/
structure Attended (s : State) : Prop where
  distributors : ∀ j, (s.pc j).distributes = true ↔ j < 6
  input : s.data.input ≠ [] → ∃ j < 6, s.pc j ≠ .distWait false

theorem Step.distributes_self {s s' : State} {i : Tid} {a : Act} (h : Step s i a (s.pc i) s') :
    (s'.pc i).distributes = (s.pc i).distributes := by
  generalize hpc : s.pc i = p at h ⊢
  cases h
  case move p' hm =>
    simp only [goto_pc, Function.update_self]
    cases hm <;> rfl
  case lockInput p' hfree hm =>
    simp only [goto_pc, Function.update_self]
    cases hm <;> rfl
  case lockThreadInfo p' hfree hm =>
    simp only [goto_pc, Function.update_self]
    cases hm <;> rfl
  case lockInfo p' u hfree hm =>
    simp only [goto_pc, Function.update_self]
    cases hm <;> rfl
  case fail f hm => rw [fail_pc, hpc]
  all_goals simp [Pc.distributes]

theorem Step.distributes {s s' : State} {i : Tid} {a : Act} (h : Step s i a (s.pc i) s') (j : Tid) :
    (s'.pc j).distributes = (s.pc j).distributes := by
  by_cases hj : j = i
  · subst hj
    exact h.distributes_self
  · rw [← Pc.distributes_plain, h.plain_of_ne hj, Pc.distributes_plain]

/-- A distributor that waits without a notification waited so before, or has just found `_input` empty. -/
theorem Step.blocked {s s' : State} {i : Tid} {a : Act} (h : Step s i a (s.pc i) s') {j : Tid}
    (hw : s'.pc j = .distWait false) : s.pc j = .distWait false ∨ s'.data.input = [] := by
  by_cases hj : j = i
  · subst hj
    generalize hpc : s.pc j = p at h ⊢
    cases h
    case move p' hm =>
      simp only [goto_pc, Function.update_self] at hw
      cases hm <;> simp at hw
    case lockInput p' hfree hm => cases hm <;> simp at hw
    case lockThreadInfo p' hfree hm => cases hm <;> simp at hw
    case lockInfo p' u hfree hm => cases hm <;> simp at hw
    case fail f hm => exact Or.inl (by rw [fail_pc, hpc] at hw; exact hw)
    case distBlock hi => exact Or.inr hi
    all_goals simp at hw
  · left
    generalize s.pc i = p at h
    cases h
    case pushInput b waiter hn =>
      simp only [goto_pc, Function.update_of_ne hj, note_pc, setInput_pc, setData_pc, notifyOne_pc] at hw
      split_ifs at hw
      · cases hw
      · exact hw
    case distCopy b t' name info rest v hl hc =>
      simp only [goto_pc, Function.update_of_ne hj, setInfo_pc, setData_pc, notifyAll_pc] at hw
      cases hp : s.pc j <;> rw [hp] at hw <;> simp_all
    all_goals simpa [Function.update_of_ne hj] using hw

/-- A step leaves `_input` alone, takes from it, or adds to it and then no distributor is left to notify, or one that
waited is notified. -/
theorem Step.input_cases {s s' : State} {i : Tid} {a : Act} (h : Step s i a (s.pc i) s') :
    s'.data.input = s.data.input ∨ (∃ b, s.data.input = b :: s'.data.input) ∨
      (∀ j < 6, s.pc j ≠ .distWait false) ∨ ∃ w, s.pc w = .distWait false ∧ s'.pc w = .distWait true := by
  generalize hpc : s.pc i = p at h
  cases h
  case pushInput b waiter hn =>
    refine Or.inr (Or.inr ?_)
    cases waiter with
    | none => exact Or.inl hn
    | some w =>
      refine Or.inr ⟨w, hn, ?_⟩
      have hwi : w ≠ i := by
        rintro rfl
        rw [show s.pc w = .distWait false from hn] at hpc
        cases hpc
      simp [Function.update_of_ne hwi]
  case distTake b t v hi =>
    obtain ⟨hin, hv⟩ := VideoQueue.takeInput_eq hi
    refine Or.inr (Or.inl ⟨b, ?_⟩)
    simp only [goto_data, setData_data]
    rw [hin, hv]
  case distCopy b t name info rest v hl hc =>
    left
    simp only [goto_data, setInfo_data, setData_data]
    exact (VideoQueue.copyTo_extends hc).input
  all_goals exact Or.inl rfl

theorem step_attended {s s' : State} {i : Tid} {a : Act} (hs : Attended s) (h : Step s i a (s.pc i) s') :
    Attended s' where
  distributors j := by rw [h.distributes j]; exact hs.distributors j
  input hin := by
    -- a distributor awake before is awake after, for the step leaves frames in `_input`
    have hkeep : (∃ j < 6, s.pc j ≠ .distWait false) → ∃ j < 6, s'.pc j ≠ .distWait false := by
      rintro ⟨j, hj, hne⟩
      exact ⟨j, hj, fun hw => (h.blocked hw).elim hne hin⟩
    rcases h.input_cases with he | ⟨b, he⟩ | hall | ⟨w, hw, hw'⟩
    · exact hkeep (hs.input (he ▸ hin))
    · exact hkeep (hs.input (by rw [he]; simp))
    · exact hkeep ⟨0, by decide, hall 0 (by decide)⟩
    · exact ⟨w, (hs.distributors w).mp (by rw [hw]; rfl), by rw [hw']; simp⟩

theorem attended_init (F : Int) : Attended (init F) where
  distributors j := by
    simp only [init]
    split_ifs with hj <;> simp [Pc.distributes, hj]
  input h := absurd rfl h

/-! ## Every run -/

theorem reach_wakeup {F : Int} {s : State} (h : Reach (· = init F) step Feeds s) :
    Steady s ∧ Watching s ∧ Attended s := by
  refine Reach.invariant_of (fun s => Steady s ∧ Watching s ∧ Attended s) (fun s hr => reach_coherent hr) ?_
    (fun s a s' hk hs hok hst => ?_) h
  · rintro s rfl
    exact ⟨steady_init F, watching_init F, attended_init F⟩
  · have hstep := step_sound hst
    exact ⟨step_steady hk.2 hs.1 hok hstep, step_watching hk.2 hs.1 hs.2.1 hstep, step_attended hs.2.2 hstep⟩

/-- **No wake-up is lost.** While `_input` has frames some distributor is not blocked without a notification, and a
consumer that is blocked without a notification has an empty queue. -/
theorem no_lost_wakeup {F : Int} {s : State} (h : Reach (· = init F) step Feeds s) :
    (s.data.input ≠ [] → ∃ j < 6, s.pc j ≠ .distWait false) ∧
      ∀ j name info cond, s.pc j = .popWait name info cond false → s.data.queued name = [] := by
  obtain ⟨-, hw, ha⟩ := reach_wakeup h
  refine ⟨ha.input, fun j name info cond hj => ?_⟩
  obtain ⟨q, ho, hq⟩ := hw.empty j name info cond hj
  exact queued_of_lookup ho hq

def feeding (s : State) : Tid × Act → Bool
  | (_, .call (.insert _ fps r)) => decide (fps = 30) && decide (30 ≤ s.data.deviceFps) && r
  | (_, .call (.insertAgain _ _)) | (_, .call (.remove _)) => false
  | _ => true

theorem feeds_of_feeding (s : State) (ia : Tid × Act) (h : feeding s ia = true) : Feeds s ia := by
  obtain ⟨i, a⟩ := ia
  refine ⟨?_, ?_, ?_⟩
  · rintro n fps r rfl
    simp only [feeding, Bool.and_eq_true, decide_eq_true_eq] at h
    obtain ⟨⟨rfl, hF⟩, hr⟩ := h
    exact ⟨by decide, hF, hr⟩
  · rintro n t rfl
    cases h
  · rintro n rfl
    cases h

/-- The consumer waits while a frame is in `_input`, and distributor `0` waits with a notification. -/
theorem no_lost_wakeup_waiting : ∃ s,
    run (checked feeding step) (init 30) (waitingRun ++ [(0, .run), (0, .run)] ++
      [(8, .call (.push sampleFrame)), (8, .run), (8, .notify (some 0))]) = some s ∧
    s.pc 7 = .popWait ['c', 'a', 'm'] 0 0 false ∧ s.data.queued ['c', 'a', 'm'] = [] ∧
    s.data.input ≠ [] ∧ s.pc 0 = .distWait true ∧ ∃ j < 6, s.pc j ≠ .distWait false := by
  have hrun : run (checked feeding step) (init 30) (waitingRun ++ [(0, .run), (0, .run)] ++
      [(8, .call (.push sampleFrame)), (8, .run), (8, .notify (some 0))]) = some _ := rfl
  have hreach := no_lost_wakeup (.of_checked feeding feeds_of_feeding (.init rfl) hrun)
  exact ⟨_, hrun, rfl, hreach.2 7 _ _ _ rfl, List.cons_ne_nil _ _, rfl, hreach.1 (List.cons_ne_nil _ _)⟩

/-- **The parts of a test and of a copy do not mix**: no thread is at the test of an event, between the lock and the
wait, while a pass copies for the same entry. -/
theorem test_excludes_copy {F : Int} {s : State} (h : Reach (· = init F) step Feeds s) {j k : Tid} {n : Name}
    {t c info : InfoId} {b : BufferRef} {u : Int} {rest : List (Name × InfoId)}
    (hj : s.pc j = .popRun n t c ∨ s.pc j = .popEmpty n t c) (hk : s.pc k = .distCopy b u n info rest) :
    AList.lookup n s.data.threadInfo ≠ some info := by
  intro hl
  obtain ⟨-, hw, -⟩ := reach_wakeup h
  have hlock : AList.lookup n s.data.threadInfo = some t :=
    hw.locks j n t (by rcases hj with hj | hj <;> rw [hj] <;> rfl)
  rw [hlock, Option.some.injEq] at hl
  subst hl
  have hown := (reach_coherent h).1.info t
  have hjk : j = k := hown.unique (by rcases hj with hj | hj <;> simp [hj, Pc.holdsInfo]) (by simp [hk, Pc.holdsInfo])
  rw [hjk, hk] at hj
  rcases hj with hj | hj <;> cases hj

end State

end RpiCam
