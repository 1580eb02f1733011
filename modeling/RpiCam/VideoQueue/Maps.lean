import RpiCam.VideoQueue.Calls
import RpiCam.VideoQueue.Locks

/-!
# The two maps under threads

What a step does to `_output` and `_thread_info` (`Step.output_cases`, `Step.threadInfo_cases`), and what follows for
every run, whatever the threads do:

* `Pc.Fact` : what a thread inside `insert_event` or `remove_event` knows, since it holds `_thread_info_mutex`;
* `Coherent` : a name of `_thread_info` is in `_output`, and its queue is there, unless a thread is between its two
  changes; no two names share a queue; `reach_coherent`.

Only `pop` changes a map without the mutex: line 178 erases from `_thread_info`.
-/

namespace RpiCam

open Transition

namespace Pc

/-- In `insert_event` or `remove_event` between the change of one map and the change of the other. -/
def splits (name : Name) : Pc → Bool
  | insertOutput n | removeStop n _ | removeInfo n _ => n == name
  | _ => false

/-- In `remove_event` between `delete` of the queue and `erase` of its entry. -/
def deletes (name : Name) : Pc → Bool
  | removeErase n _ => n == name
  | _ => false

theorem splits_plain (name : Name) (p : Pc) : p.plain.splits name = p.splits name := by cases p <;> rfl

theorem deletes_plain (name : Name) (p : Pc) : p.plain.deletes name = p.deletes name := by cases p <;> rfl

theorem holdsThreadInfo_of_splits {name : Name} {p : Pc} (h : p.splits name = true) : p.holdsThreadInfo = true := by
  cases p <;> first | rfl | cases h

theorem holdsThreadInfo_of_deletes {name : Name} {p : Pc} (h : p.deletes name = true) : p.holdsThreadInfo = true := by
  cases p <;> first | rfl | cases h

/-- What the place of a thread says about the maps. -/
def Fact (v : VideoQueue) : Pc → Prop
  | insertLock _ info | insertInfo _ info => info < v.nextInfo
  | removeTouch name queue info | removeDrain name queue info =>
    AList.lookup name v.output = queue ∧ (info = none → AList.lookup name v.threadInfo = none)
  | removeDelete name q info | removePop name q info =>
    AList.lookup name v.output = some q ∧ (info = none → AList.lookup name v.threadInfo = none)
  | removeErase name info => info = none → AList.lookup name v.threadInfo = none
  | removeStop name info =>
    AList.lookup name v.output = none ∧ (info = none → AList.lookup name v.threadInfo = none)
  | removeInfo name _ => AList.lookup name v.output = none
  | _ => True

theorem fact_plain (v : VideoQueue) (p : Pc) : p.plain.Fact v ↔ p.Fact v := by cases p <;> rfl

theorem fact_mono {v w : VideoQueue} {p : Pc} (h : p.Fact v) (ho : w.output = v.output)
    (ht : ∀ name, AList.lookup name v.threadInfo = none → AList.lookup name w.threadInfo = none)
    (hn : v.nextInfo ≤ w.nextInfo) : p.Fact w := by
  cases p <;> simp only [Fact, ho] at h ⊢
  case insertLock => exact Nat.lt_of_lt_of_le h hn
  case insertInfo => exact Nat.lt_of_lt_of_le h hn
  case removeTouch => exact ⟨h.1, fun hi => ht _ (h.2 hi)⟩
  case removeDrain => exact ⟨h.1, fun hi => ht _ (h.2 hi)⟩
  case removeDelete => exact ⟨h.1, fun hi => ht _ (h.2 hi)⟩
  case removePop => exact ⟨h.1, fun hi => ht _ (h.2 hi)⟩
  case removeErase => exact fun hi => ht _ (h hi)
  case removeStop => exact ⟨h.1, fun hi => ht _ (h.2 hi)⟩
  case removeInfo => exact h

/-- A place outside the mutex knows no more than how many `ThreadInfo` objects there are. -/
theorem fact_outside {v w : VideoQueue} {p : Pc} (h : p.Fact v) (hp : p.holdsThreadInfo = false)
    (hn : v.nextInfo ≤ w.nextInfo) : p.Fact w := by
  cases p <;> simp only [Fact, holdsThreadInfo, Bool.true_eq_false] at h hp ⊢
  case insertLock => exact Nat.lt_of_lt_of_le h hn

end Pc

namespace State

/-! ## What a step changes -/

theorem copyTo_output {v w : VideoQueue} {b : BufferRef} {t : Int} {name : Name} (h : v.copyTo b t name = .done w ()) :
    w.output = v.output ∧ w.threadInfo = v.threadInfo ∧ w.nextQueue = v.nextQueue ∧ w.nextInfo = v.nextInfo :=
  have hx := VideoQueue.copyTo_extends h
  ⟨hx.output, hx.threadInfo, hx.nextQueue, hx.nextInfo⟩

theorem takeInput_output {v w : VideoQueue} {b : BufferRef} (h : v.takeInput = some (b, w)) :
    w.output = v.output ∧ w.threadInfo = v.threadInfo ∧ w.nextQueue = v.nextQueue ∧ w.nextInfo = v.nextInfo := by
  obtain ⟨-, hw⟩ := VideoQueue.takeInput_eq h
  rw [hw]
  exact ⟨rfl, rfl, rfl, rfl⟩

theorem Step.output_cases {s s' : State} {i : Tid} {a : Act} (h : Step s i a (s.pc i) s') :
    (s'.data.output = s.data.output ∧ s'.data.nextQueue = s.data.nextQueue) ∨
    (∃ name, s.pc i = .insertOutput name ∧ s'.pc i = .idle ∧ s'.data = s.data.enterOutput name) ∨
    (∃ name info, s.pc i = .removeErase name info ∧ s'.pc i = .removeStop name info ∧
      s'.data = s.data.eraseOutput name) := by
  generalize hpc : s.pc i = p at h ⊢
  cases h
  case insertOutput name => exact Or.inr (Or.inl ⟨name, rfl, by simp, rfl⟩)
  case removeErase name info => exact Or.inr (Or.inr ⟨name, info, rfl, by simp, rfl⟩)
  case distTake b t v hi =>
    obtain ⟨ho, -, hq, -⟩ := takeInput_output hi
    exact Or.inl ⟨ho, hq⟩
  case distCopy b t name info rest v hl hc =>
    obtain ⟨ho, -, hq, -⟩ := copyTo_output hc
    exact Or.inl ⟨ho, hq⟩
  all_goals exact Or.inl ⟨rfl, rfl⟩

theorem Step.threadInfo_cases {s s' : State} {i : Tid} {a : Act} (h : Step s i a (s.pc i) s') :
    s'.data.threadInfo = s.data.threadInfo ∨
    (∃ name info, s.pc i = .insertInfo name info ∧ s'.pc i = .insertOutput name ∧
      AList.lookup name s.data.threadInfo = none ∧ s'.data = s.data.enterInfo name info) ∨
    (∃ name, ((∃ info, s.pc i = .removeInfo name info) ∨ ∃ info, s.pc i = .popErase name info) ∧ s'.pc i = .idle ∧
      s'.data = s.data.eraseThreadInfo name) := by
  generalize hpc : s.pc i = p at h ⊢
  cases h
  case insertInfo name info hl hf => exact Or.inr (Or.inl ⟨name, info, rfl, by simp, hl, rfl⟩)
  case removeInfo name info => exact Or.inr (Or.inr ⟨name, Or.inl ⟨info, rfl⟩, by simp, rfl⟩)
  case popErase name info => exact Or.inr (Or.inr ⟨name, Or.inr ⟨info, rfl⟩, by simp, rfl⟩)
  case distTake b t v hi => exact Or.inl (takeInput_output hi).2.1
  case distCopy b t name info rest v hl hc => exact Or.inl (copyTo_output hc).2.1
  all_goals exact Or.inl rfl

/-- What a step does to a queue that was allocated before. -/
inductive QueueStep (s s' : State) (i : Tid) (q : QueueId) : Prop
  | keep : s'.data.queues q = s.data.queues q → QueueStep s s' i q
  | append {b t name info rest l} : s.pc i = .distCopy b t name info rest → AList.lookup name s.data.output = some q →
      s.data.queues q = some l → s'.data.queues q = some (l ++ [⟨s.data.nextAddr, b.val.copyAt t⟩]) →
      QueueStep s s' i q
  | drain {name info b rest} : s.pc i = .removePop name q info → s.data.queues q = some (b :: rest) →
      s'.data.queues q = some rest → QueueStep s s' i q
  | delete {name info} : s.pc i = .removeDrain name (some q) info → s.data.queues q = some [] →
      s'.pc i = .removeErase name info → s'.data.queues q = none → QueueStep s s' i q
  | pop {name info b c rest} : s.pc i = .popPop name info b → AList.lookup name s.data.output = some q →
      s.data.queues q = some (c :: rest) → s'.data.queues q = some rest → QueueStep s s' i q

theorem Step.queue {s s' : State} {i : Tid} {a : Act} (h : Step s i a (s.pc i) s') {q : QueueId}
    (hq : q < s.data.nextQueue) : QueueStep s s' i q := by
  generalize hpc : s.pc i = p at h
  cases h
  case insertOutput name =>
    refine .keep ?_
    simp only [goto_data, setThreadInfo_data, setData_data, VideoQueue.enterOutput]
    rw [Function.update_of_ne (Nat.ne_of_lt hq)]
  case removePop name q' info b rest hl =>
    by_cases hqq : q = q'
    · subst hqq
      exact .drain hpc hl (by simp [VideoQueue.popFront])
    · exact .keep (by simp [VideoQueue.popFront, Function.update_of_ne hqq])
  case deleteQueue name q' info hl =>
    by_cases hqq : q = q'
    · subst hqq
      exact .delete hpc hl (by simp) (by simp [VideoQueue.deleteQueue])
    · exact .keep (by simp [VideoQueue.deleteQueue, Function.update_of_ne hqq])
  case popPop name info b q' c rest ho hl =>
    by_cases hqq : q = q'
    · subst hqq
      exact .pop hpc ho hl (by simp [VideoQueue.popFront])
    · exact .keep (by simp [VideoQueue.popFront, Function.update_of_ne hqq])
  case distTake b t v hi =>
    obtain ⟨-, hv⟩ := VideoQueue.takeInput_eq hi
    refine .keep ?_
    simp only [goto_data, setData_data]
    rw [hv]
  case distCopy b t name info rest v hl hc =>
    rcases VideoQueue.copyTo_done hc with ⟨-, rfl⟩ | ⟨q', l, ho, hql, rfl⟩
    · exact .keep rfl
    · by_cases hqq : q = q'
      · subst hqq
        exact .append hpc ho hql (by simp [VideoQueue.copied])
      · exact .keep (by simp [VideoQueue.copied, VideoQueue.newBuffer, Function.update_of_ne hqq])
  all_goals exact .keep rfl

theorem Step.deviceFps {s s' : State} {i : Tid} {a : Act} (h : Step s i a (s.pc i) s') :
    s'.data.deviceFps = s.data.deviceFps := by
  generalize s.pc i = p at h
  cases h
  case distTake b t v hi =>
    simp only [goto_data, setData_data]
    rw [(VideoQueue.takeInput_eq hi).2]
  case distCopy b t name info rest v hl hc => exact (VideoQueue.copyTo_extends hc).deviceFps
  all_goals rfl

theorem Step.infos_cases {s s' : State} {i : Tid} {a : Act} (h : Step s i a (s.pc i) s') {t : InfoId}
    (ht : t < s.data.nextInfo) :
    s'.data.infos t = s.data.infos t ∨
    (∃ name, s.pc i = .insertInfo name t ∧ AList.lookup name s.data.threadInfo = none ∧
      s'.data.infos t = { s.data.infos t with fps := s.data.deviceFps.tdiv (s.data.infos t).fps }) ∨
    (∃ name, s.pc i = .removeStop name (some t) ∧ AList.lookup name s.data.threadInfo = some t ∧
      s'.data.infos t = { s.data.infos t with isRun := false }) := by
  generalize hpc : s.pc i = p at h ⊢
  cases h
  case callInsert name fps isRun =>
    left
    simp [VideoQueue.newThreadInfo, Function.update_of_ne (Nat.ne_of_lt ht)]
  case insertInfo name info hl hf =>
    by_cases hti : t = info
    · subst hti
      exact Or.inr (Or.inl ⟨name, rfl, hl, by simp [VideoQueue.enterInfo]⟩)
    · left
      simp [VideoQueue.enterInfo, Function.update_of_ne hti]
  case removeStop name info hl =>
    by_cases hti : t = info
    · subst hti
      exact Or.inr (Or.inr ⟨name, rfl, hl, by simp [VideoQueue.stopInfo]⟩)
    · left
      simp [VideoQueue.stopInfo, Function.update_of_ne hti]
  case distTake b t' v hi =>
    left
    simp only [goto_data, setData_data]
    rw [(VideoQueue.takeInput_eq hi).2]
  case distCopy b t' name info rest v hl hc =>
    left
    simp only [goto_data, setInfo_data, setData_data]
    rw [(VideoQueue.copyTo_extends hc).infos]
  all_goals exact Or.inl rfl

theorem Step.nextInfo_le {s s' : State} {i : Tid} {a : Act} (h : Step s i a (s.pc i) s') :
    s.data.nextInfo ≤ s'.data.nextInfo := by
  generalize s.pc i = p at h
  cases h
  case callInsert => exact Nat.le_succ _
  case distTake b t v hi => exact le_of_eq (takeInput_output hi).2.2.2.symm
  case distCopy b t name info rest v hl hc => exact le_of_eq (copyTo_output hc).2.2.2.symm
  all_goals exact le_refl _

/-- A thread outside `_thread_info_mutex` leaves `_output` alone and takes at most an entry from `_thread_info`. -/
theorem Step.maps_of_outside {s s' : State} {i : Tid} {a : Act} (h : Step s i a (s.pc i) s')
    (hi : (s.pc i).holdsThreadInfo = false) :
    s'.data.output = s.data.output ∧
      ∀ name, AList.lookup name s.data.threadInfo = none → AList.lookup name s'.data.threadInfo = none := by
  constructor
  · rcases h.output_cases with ⟨ho, -⟩ | ⟨name, hpc, -⟩ | ⟨name, info, hpc, -⟩
    · exact ho
    · rw [hpc] at hi; cases hi
    · rw [hpc] at hi; cases hi
  · intro name hn
    rcases h.threadInfo_cases with ht | ⟨n, info, hpc, -⟩ | ⟨n, -, -, hd⟩
    · rw [ht]; exact hn
    · rw [hpc] at hi; cases hi
    · rw [hd]
      simp only [VideoQueue.eraseThreadInfo, UnorderedMap.lookup_erase']
      split_ifs
      · rfl
      · exact hn

/-! ## Facts of the threads inside the mutex -/

theorem Step.fact_self {s s' : State} {i : Tid} {a : Act} (h : Step s i a (s.pc i) s')
    (hf : (s.pc i).Fact s.data) : (s'.pc i).Fact s'.data := by
  generalize hpc : s.pc i = p at h hf
  cases h
  case callInsert => simp [Pc.Fact, VideoQueue.newThreadInfo]
  case move p' hm =>
    simp only [goto_pc, Function.update_self, goto_data]
    cases hm <;> simp only [Pc.Fact] at hf ⊢
    case insertAgain hlt => exact hlt
    case removeFind => exact ⟨trivial, id⟩
    case removeTouch => exact hf
    case removeDrain => exact hf
    case removeFront => exact hf
  case lockInput p' hfree hm => cases hm <;> simp [Pc.Fact]
  case lockThreadInfo p' hfree hm =>
    simp only [goto_pc, Function.update_self]
    cases hm
    · exact hf
    · trivial
  case lockInfo p' info hfree hm => cases hm <;> simp [Pc.Fact]
  case fail f hm =>
    rw [fail_pc, hpc]
    exact hf
  case removeDelete name q info b rest hq =>
    simp only [goto_pc, Function.update_self]
    exact hf
  case removePop name q info b rest hq =>
    simp only [goto_pc, Function.update_self]
    exact hf
  case deleteQueue name q info hq =>
    simp only [goto_pc, Function.update_self]
    exact hf.2
  case removeErase name info =>
    simp only [goto_pc, Function.update_self]
    exact ⟨by simp [VideoQueue.eraseOutput], hf⟩
  case removeStop name info hl =>
    simp only [goto_pc, Function.update_self]
    exact hf.1
  all_goals simp [Pc.Fact]

theorem Locked.outside {s : State} (hl : Locked s) {i j : Tid} (hj : j ≠ i)
    (hin : (s.pc j).holdsThreadInfo = true) : (s.pc i).holdsThreadInfo = false := by
  cases hi : (s.pc i).holdsThreadInfo with
  | false => rfl
  | true => exact absurd (hl.threadInfo.unique hin hi) hj

theorem step_fact {s s' : State} {i : Tid} {a : Act} (hl : Locked s) (hf : ∀ j, (s.pc j).Fact s.data)
    (h : Step s i a (s.pc i) s') (j : Tid) : (s'.pc j).Fact s'.data := by
  by_cases hj : j = i
  · subst hj
    exact h.fact_self (hf j)
  · rw [← Pc.fact_plain, h.plain_of_ne hj, Pc.fact_plain]
    cases hin : (s.pc j).holdsThreadInfo with
    | false => exact Pc.fact_outside (hf j) hin h.nextInfo_le
    | true =>
      obtain ⟨ho, ht⟩ := h.maps_of_outside (hl.outside hj hin)
      exact Pc.fact_mono (hf j) ho ht h.nextInfo_le

/-! ## Coherence of the maps -/

/-- The two maps and the heap of queues fit together, up to the thread that is changing them. -/
structure Coherent (s : State) : Prop where
  fact : ∀ i, (s.pc i).Fact s.data
  known : ∀ name, name ∈ s.data.threadInfo → name ∈ s.data.output ∨ ∃ i, (s.pc i).splits name = true
  live : ∀ name q, AList.lookup name s.data.output = some q →
    s.data.queues q ≠ none ∨ ∃ i, (s.pc i).deletes name = true
  gone : ∀ i name info q, s.pc i = .removeErase name info → AList.lookup name s.data.output = some q →
    s.data.queues q = none
  inj : ∀ name name' q, AList.lookup name s.data.output = some q → AList.lookup name' s.data.output = some q →
    name = name'
  queueFresh : ∀ name q, AList.lookup name s.data.output = some q → q < s.data.nextQueue
  infoFresh : ∀ name t, AList.lookup name s.data.threadInfo = some t → t < s.data.nextInfo

theorem Step.exists_place {s s' : State} {i : Tid} {a : Act} (h : Step s i a (s.pc i) s') {f : Pc → Bool}
    (hf : ∀ p, f p.plain = f p) (he : ∃ j, f (s.pc j) = true) :
    (∃ j, f (s'.pc j) = true) ∨ f (s.pc i) = true := by
  obtain ⟨j, hj⟩ := he
  by_cases hji : j = i
  · subst hji
    exact Or.inr hj
  · refine Or.inl ⟨j, ?_⟩
    rw [← hf, h.plain_of_ne hji, hf]
    exact hj

theorem splits_step {s s' : State} {i : Tid} {a : Act} {k : Name} (hf : (s.pc i).Fact s.data)
    (h : Step s i a (s.pc i) s') (hk : k ∈ s'.data.threadInfo) (hsp : (s.pc i).splits k = true) :
    k ∈ s'.data.output ∨ ∃ j, (s'.pc j).splits k = true := by
  cases hpc : s.pc i <;> rw [hpc] at hsp h hf <;> simp only [Pc.splits, beq_iff_eq, Bool.false_eq_true] at hsp
  case insertOutput name =>
    subst hsp
    rw [step_insertOutput_inv h]
    exact Or.inl ((UnorderedMap.mem_emplace ..).mpr (Or.inl rfl))
  case removeStop name info =>
    subst hsp
    rcases step_removeStop_inv h with ⟨f, rfl⟩ | ⟨rfl, rfl⟩ | ⟨t, -, rfl⟩
    · exact Or.inr ⟨i, by simp [hpc, Pc.splits]⟩
    · exact absurd hk (AList.lookup_eq_none.mp (hf.2 rfl))
    · exact Or.inr ⟨i, by simp [Pc.splits]⟩
  case removeInfo name info =>
    subst hsp
    rw [step_removeInfo_inv h] at hk
    exact absurd rfl (AList.mem_erase.mp hk).1

theorem step_known {s s' : State} {i : Tid} {a : Act} (hs : Coherent s) (h : Step s i a (s.pc i) s') (k : Name)
    (hk : k ∈ s'.data.threadInfo) : k ∈ s'.data.output ∨ ∃ j, (s'.pc j).splits k = true := by
  have hold : k ∈ s.data.threadInfo → k ∈ s'.data.output ∨ ∃ j, (s'.pc j).splits k = true := by
    intro hk'
    rcases hs.known k hk' with ho | he
    · -- a name of `_output` stays there, or its thread goes on to line 122
      rcases h.output_cases with ⟨he, -⟩ | ⟨name, -, -, he⟩ | ⟨name, info, -, hpc', he⟩
      · exact Or.inl (he ▸ ho)
      · rw [he]
        exact Or.inl ((UnorderedMap.mem_emplace ..).mpr (Or.inr ho))
      · by_cases hkn : k = name
        · exact Or.inr ⟨i, by rw [hpc', hkn]; simp [Pc.splits]⟩
        · rw [he]
          exact Or.inl (AList.mem_erase.mpr ⟨hkn, ho⟩)
    · rcases h.exists_place (Pc.splits_plain k) he with he' | hsp
      · exact Or.inr he'
      · exact splits_step (hs.fact i) h hk hsp
  rcases h.threadInfo_cases with ht | ⟨name, info, -, hpc', -, hd⟩ | ⟨name, -, -, hd⟩
  · exact hold (ht ▸ hk)
  · rw [hd] at hk
    rcases (UnorderedMap.mem_emplace ..).mp hk with rfl | hk
    · exact Or.inr ⟨i, by rw [hpc']; simp [Pc.splits]⟩
    · exact hold hk
  · rw [hd] at hk
    exact hold (AList.mem_erase.mp hk).2

theorem lookup_enterOutput {v : VideoQueue} {name k : Name} {q : QueueId}
    (h : AList.lookup k (v.enterOutput name).output = some q) :
    AList.lookup k v.output = some q ∨ (k = name ∧ AList.lookup k v.output = none ∧ q = v.nextQueue) := by
  simp only [VideoQueue.enterOutput, UnorderedMap.lookup_emplace] at h
  split_ifs at h with hk
  · exact Or.inr ⟨hk.1, hk.1 ▸ hk.2, (Option.some.inj h).symm⟩
  · exact Or.inl h

theorem lookup_eraseOutput {v : VideoQueue} {name k : Name} {q : QueueId}
    (h : AList.lookup k (v.eraseOutput name).output = some q) : k ≠ name ∧ AList.lookup k v.output = some q := by
  simp only [VideoQueue.eraseOutput, UnorderedMap.lookup_erase'] at h
  split_ifs at h with hk
  exact ⟨hk, h⟩

theorem step_live {s s' : State} {i : Tid} {a : Act} (hs : Coherent s) (h : Step s i a (s.pc i) s') (k : Name)
    (q : QueueId) (hk : AList.lookup k s'.data.output = some q) :
    s'.data.queues q ≠ none ∨ ∃ j, (s'.pc j).deletes k = true := by
  have hold : AList.lookup k s.data.output = some q →
      s'.data.queues q ≠ none ∨ ∃ j, (s'.pc j).deletes k = true := by
    intro hk'
    rcases hs.live k q hk' with hq | hd
    · rcases h.queue (hs.queueFresh k q hk') with he | ⟨-, -, -, he⟩ | ⟨-, -, he⟩ | ⟨hpc, -, hpc', -⟩ | ⟨-, -, -, he⟩
      · exact Or.inl (he ▸ hq)
      · exact Or.inl (by simp [he])
      · exact Or.inl (by simp [he])
      · -- the deleted queue is the one of the name that is removed
        have hf := hs.fact i
        rw [hpc] at hf
        refine Or.inr ⟨i, ?_⟩
        rw [hpc', hs.inj _ _ q hk' hf.1]
        simp [Pc.deletes]
      · exact Or.inl (by simp [he])
    · rcases h.exists_place (Pc.deletes_plain k) hd with hd' | hdel
      · exact Or.inr hd'
      · -- the thread at line 116 erases the entry
        cases hpc : s.pc i <;> rw [hpc] at hdel h <;> simp only [Pc.deletes, beq_iff_eq, Bool.false_eq_true] at hdel
        case removeErase name info =>
          subst hdel
          rw [step_removeErase_inv h] at hk
          exact absurd rfl (lookup_eraseOutput hk).1
  rcases h.output_cases with ⟨he, -⟩ | ⟨name, -, -, he⟩ | ⟨name, info, hpc, -, he⟩
  · exact hold (he ▸ hk)
  · rw [he] at hk
    rcases lookup_enterOutput hk with hk' | ⟨-, -, rfl⟩
    · exact hold hk'
    · left
      rw [he]
      simp [VideoQueue.enterOutput]
  · rw [he] at hk
    exact hold (lookup_eraseOutput hk).2

theorem step_gone {s s' : State} {i : Tid} {a : Act} (hl : Locked s) (hs : Coherent s) (h : Step s i a (s.pc i) s')
    (j : Tid) (name : Name) (info : Option InfoId) (q : QueueId) (hpc' : s'.pc j = .removeErase name info)
    (hk : AList.lookup name s'.data.output = some q) : s'.data.queues q = none := by
  by_cases hj : j = i
  · subst hj
    have hf := hs.fact j
    generalize hpc : s.pc j = p at h hf
    cases h
    case deleteQueue n q' t hq =>
      simp only [goto_pc, Function.update_self, Pc.removeErase.injEq] at hpc'
      obtain ⟨rfl, rfl⟩ := hpc'
      have hqq : q' = q := Option.some.inj (hf.1.symm.trans hk)
      simp [VideoQueue.deleteQueue, hqq]
    case move p' hm =>
      simp only [goto_pc, Function.update_self] at hpc'
      cases hm <;> cases hpc'
    case fail f hm =>
      rw [fail_pc, hpc] at hpc'
      subst hpc'
      cases hm
    case lockInput p' hfree hm => cases hm <;> simp at hpc'
    case lockThreadInfo p' hfree hm => cases hm <;> simp at hpc'
    case lockInfo p' t hfree hm => cases hm <;> simp at hpc'
    all_goals simp at hpc'
  · have hpc := (h.pc_of_ne hj rfl).mp hpc'
    have hi := hl.outside hj (by rw [hpc]; rfl)
    rw [(h.maps_of_outside hi).1] at hk
    have hq := hs.gone j name info q hpc hk
    rcases h.queue (hs.queueFresh name q hk) with he | ⟨-, -, he, -⟩ | ⟨-, he, -⟩ | ⟨-, -, -, he⟩ | ⟨-, -, he, -⟩
    · rw [he]; exact hq
    · rw [hq] at he; cases he
    · rw [hq] at he; cases he
    · exact he
    · rw [hq] at he; cases he

theorem step_queue {s s' : State} {i : Tid} {a : Act} (hs : Coherent s) (h : Step s i a (s.pc i) s') :
    (∀ name name' q, AList.lookup name s'.data.output = some q → AList.lookup name' s'.data.output = some q →
      name = name') ∧ ∀ name q, AList.lookup name s'.data.output = some q → q < s'.data.nextQueue := by
  rcases h.output_cases with ⟨ho, hn⟩ | ⟨name, -, -, he⟩ | ⟨name, info, -, -, he⟩
  · rw [ho, hn]
    exact ⟨hs.inj, hs.queueFresh⟩
  · rw [he]
    refine ⟨fun k k' q hk hk' => ?_, fun k q hk => ?_⟩
    · rcases lookup_enterOutput hk with h1 | ⟨rfl, -, rfl⟩ <;> rcases lookup_enterOutput hk' with h2 | ⟨h2, -, h3⟩
      · exact hs.inj k k' q h1 h2
      · exact absurd (hs.queueFresh k q h1) (h3 ▸ lt_irrefl _)
      · exact absurd (hs.queueFresh k' _ h2) (lt_irrefl _)
      · exact h2.symm
    · rcases lookup_enterOutput hk with h1 | ⟨-, -, rfl⟩
      · exact Nat.lt_succ_of_lt (hs.queueFresh k q h1)
      · exact Nat.lt_succ_self _
  · rw [he]
    exact ⟨fun k k' q hk hk' => hs.inj k k' q (lookup_eraseOutput hk).2 (lookup_eraseOutput hk').2,
      fun k q hk => hs.queueFresh k q (lookup_eraseOutput hk).2⟩

theorem step_infoFresh {s s' : State} {i : Tid} {a : Act} (hs : Coherent s) (h : Step s i a (s.pc i) s')
    (k : Name) (t : InfoId) (hk : AList.lookup k s'.data.threadInfo = some t) : t < s'.data.nextInfo := by
  have hle := h.nextInfo_le
  rcases h.threadInfo_cases with he | ⟨name, info, hpc, -, -, he⟩ | ⟨name, -, -, he⟩
  · exact Nat.lt_of_lt_of_le (hs.infoFresh k t (he ▸ hk)) hle
  · have hf := hs.fact i
    rw [hpc] at hf
    rw [he] at hk
    simp only [VideoQueue.enterInfo, UnorderedMap.lookup_emplace] at hk
    split_ifs at hk with hkn
    · rw [Option.some.injEq] at hk
      exact hk ▸ Nat.lt_of_lt_of_le hf hle
    · exact Nat.lt_of_lt_of_le (hs.infoFresh k t hk) hle
  · rw [he] at hk
    simp only [VideoQueue.eraseThreadInfo, UnorderedMap.lookup_erase'] at hk
    split_ifs at hk
    exact Nat.lt_of_lt_of_le (hs.infoFresh k t hk) hle

theorem step_coherent {s s' : State} {i : Tid} {a : Act} (hl : Locked s) (hs : Coherent s)
    (h : Step s i a (s.pc i) s') : Coherent s' where
  fact := step_fact hl hs.fact h
  known := step_known hs h
  live := step_live hs h
  gone := step_gone hl hs h
  inj := (step_queue hs h).1
  queueFresh := (step_queue hs h).2
  infoFresh := step_infoFresh hs h

theorem coherent_init (F : Int) : Coherent (init F) where
  fact i := by
    simp only [init]
    split_ifs <;> trivial
  known name h := absurd h (by simp [init, VideoQueue.new])
  live name q h := by simp [init, VideoQueue.new] at h
  gone i name info q hpc := by rcases init_pc F i with hi | hi <;> rw [hi] at hpc <;> cases hpc
  inj name name' q h := by simp [init, VideoQueue.new] at h
  queueFresh name q h := by simp [init, VideoQueue.new] at h
  infoFresh name t h := by simp [init, VideoQueue.new] at h

/-- **What holds in every run.** -/
theorem reach_coherent {F : Int} {ok : State → Tid × Act → Prop} {s : State} (h : Reach (· = init F) step ok s) :
    Locked s ∧ Coherent s := by
  refine Reach.invariant (fun s => Locked s ∧ Coherent s) ?_ (fun s a s' hs _ hst => ?_) h
  · rintro s rfl
    exact ⟨locked_init F, coherent_init F⟩
  · exact ⟨step_locked hs.1 (step_sound hst), step_coherent hs.1 hs.2 (step_sound hst)⟩

end State

end RpiCam
