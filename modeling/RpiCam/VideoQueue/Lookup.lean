import RpiCam.VideoQueue.Maps

/-!
# The lookups of `pop`

`pop` checks at lines 157 and 163 that the name has an entry, and looks it up again up to line 184 without a lock on
the maps, across a wait.

* `needsInfo`, `needsOutput` : where `pop` still relies on an entry of `_thread_info` or of `_output`;
* `KeepsEntries` : a step erases no entry that another thread in `pop` relies on;
* `Found`, `reach_found` : in runs of such steps every thread past its checks has its entries.
-/

namespace RpiCam

open Transition

namespace Pc

/-- In `pop`, past the checks, with a lookup in `_thread_info` to come. -/
def needsInfo (name : Name) : Pc → Bool
  | popMutex n | popLock n _ | popCond n _ | popRun n _ _ | popEmpty n _ _ | popWait n _ _ _ | popWake n _ _
  | popTest n _ => n == name
  | _ => false

/-- In `pop`, past the checks, with a lookup in `_output` to come. -/
def needsOutput (name : Name) : Pc → Bool
  | popFront n _ | popPop n _ _ => n == name
  | p => p.needsInfo name

/-- At a line that erases the name from `_thread_info`. -/
def erasesInfo (name : Name) : Pc → Bool
  | removeInfo n _ | popErase n _ => n == name
  | _ => false

theorem needsInfo_plain (name : Name) (p : Pc) : p.plain.needsInfo name = p.needsInfo name := by cases p <;> rfl

theorem needsOutput_plain (name : Name) (p : Pc) : p.plain.needsOutput name = p.needsOutput name := by cases p <;> rfl

end Pc

namespace State

/-- The step erases no entry that another thread in `pop` relies on. At line 178 this includes a thread between its two
checks; at line 130 the second check of such a thread fails. -/
def KeepsEntries (s : State) : Tid × Act → Prop
  | (i, _) => ∀ name,
    ((s.pc i).erasesInfo name = true → name ∈ s.data.threadInfo → ∀ j, j ≠ i → (s.pc j).needsInfo name = false) ∧
    ((∃ info, s.pc i = .popErase name info) → name ∈ s.data.threadInfo → ∀ j, j ≠ i → s.pc j ≠ .popFindOutput name) ∧
    ((s.pc i).deletes name = true → ∀ j, j ≠ i → (s.pc j).needsOutput name = false)

/-- Every thread past its checks has its entries, and one between its checks will fail the second or has the first. -/
structure Found (s : State) : Prop where
  info : ∀ j name, (s.pc j).needsInfo name = true → name ∈ s.data.threadInfo
  output : ∀ j name, (s.pc j).needsOutput name = true → name ∈ s.data.output
  between : ∀ j name, s.pc j = .popFindOutput name →
    name ∈ s.data.threadInfo ∨ (name ∉ s.data.output ∧ ∀ k, s.pc k ≠ .insertOutput name)
  fault : s.fault ≠ some .absentEntry

/-! ## One step -/

theorem Step.threadInfo_kept {s s' : State} {i : Tid} {a : Act} (h : Step s i a (s.pc i) s') {name : Name}
    (hm : name ∈ s.data.threadInfo) (he : (s.pc i).erasesInfo name = false) : name ∈ s'.data.threadInfo := by
  rcases h.threadInfo_cases with ht | ⟨n, info, -, -, -, hd⟩ | ⟨n, hpc, -, hd⟩
  · exact ht ▸ hm
  · rw [hd]
    exact (UnorderedMap.mem_emplace ..).mpr (Or.inr hm)
  · rw [hd]
    refine AList.mem_erase.mpr ⟨?_, hm⟩
    rintro rfl
    rcases hpc with ⟨info, hpc⟩ | ⟨info, hpc⟩ <;> rw [hpc] at he <;> simp [Pc.erasesInfo] at he

theorem Step.lookup_kept {s s' : State} {i : Tid} {a : Act} (h : Step s i a (s.pc i) s') {name : Name} {t : InfoId}
    (hm : AList.lookup name s.data.threadInfo = some t) (he : (s.pc i).erasesInfo name = false) :
    AList.lookup name s'.data.threadInfo = some t := by
  rcases h.threadInfo_cases with ht | ⟨n, info, -, -, hn, hd⟩ | ⟨n, hpc, -, hd⟩
  · exact ht ▸ hm
  · rw [hd]
    simp only [VideoQueue.enterInfo, UnorderedMap.lookup_emplace]
    rw [if_neg]
    · exact hm
    · rintro ⟨rfl, -⟩
      rw [hn] at hm
      cases hm
  · rw [hd]
    simp only [VideoQueue.eraseThreadInfo, UnorderedMap.lookup_erase']
    rw [if_neg]
    · exact hm
    · rintro rfl
      rcases hpc with ⟨info, hpc⟩ | ⟨info, hpc⟩ <;> rw [hpc] at he <;> simp [Pc.erasesInfo] at he

/-- A step takes a name out of `_output` only at line 116. -/
theorem Step.output_kept {s s' : State} {i : Tid} {a : Act} (h : Step s i a (s.pc i) s') {name : Name}
    (hm : name ∈ s.data.output) (he : (s.pc i).deletes name = false) : name ∈ s'.data.output := by
  rcases h.output_cases with ⟨ho, -⟩ | ⟨n, -, -, hd⟩ | ⟨n, info, hpc, -, hd⟩
  · exact ho ▸ hm
  · rw [hd]
    exact (UnorderedMap.mem_emplace ..).mpr (Or.inr hm)
  · rw [hd]
    refine AList.mem_erase.mpr ⟨?_, hm⟩
    rintro rfl
    rw [hpc] at he
    simp [Pc.deletes] at he

theorem Found.self {s s' : State} {i : Tid} {a : Act} (hs : Found s) (h : Step s i a (s.pc i) s') (name : Name) :
    ((s'.pc i).needsInfo name = true → name ∈ s'.data.threadInfo) ∧
      ((s'.pc i).needsOutput name = true → name ∈ s'.data.output) := by
  have hi := hs.info i name
  have ho := hs.output i name
  have hb := hs.between i name
  generalize hpc : s.pc i = p at h hi ho hb
  cases h
  case move p' hm =>
    simp only [goto_pc, Function.update_self, goto_data]
    cases hm <;> simp only [Pc.needsInfo, Pc.needsOutput, beq_iff_eq] at hi ho ⊢
    case popFindOutput n q hq =>
      refine ⟨?_, ?_⟩ <;> rintro rfl
      · exact (hb rfl).resolve_right fun hn => hn.1 (UnorderedMap.mem_of_lookup hq)
      · exact UnorderedMap.mem_of_lookup hq
    all_goals simp_all
  case lockInput p' hfree hm => cases hm <;> simp [Pc.needsInfo, Pc.needsOutput]
  case lockThreadInfo p' hfree hm => cases hm <;> simp [Pc.needsInfo, Pc.needsOutput]
  case lockInfo p' info hfree hm =>
    simp only [goto_pc, Function.update_self, goto_data, setInfo_data]
    cases hm
    · exact ⟨hi, ho⟩
    · exact ⟨hi, ho⟩
    · simp [Pc.needsInfo, Pc.needsOutput]
  case fail f hm =>
    rw [fail_pc, hpc]
    exact ⟨hi, ho⟩
  case popBlock n info cond q hl hq =>
    simp only [goto_pc, Function.update_self, goto_data, setInfo_data]
    exact ⟨hi, ho⟩
  all_goals simp [Pc.needsInfo, Pc.needsOutput]

theorem Found.others {s s' : State} {i : Tid} {a : Act} (hs : Found s) (hok : KeepsEntries s (i, a))
    (h : Step s i a (s.pc i) s') {j : Tid} (hj : j ≠ i) (name : Name) :
    ((s'.pc j).needsInfo name = true → name ∈ s'.data.threadInfo) ∧
      ((s'.pc j).needsOutput name = true → name ∈ s'.data.output) := by
  rw [← Pc.needsInfo_plain, ← Pc.needsOutput_plain, h.plain_of_ne hj, Pc.needsInfo_plain, Pc.needsOutput_plain]
  constructor
  · intro hn
    have hm := hs.info j name hn
    refine h.threadInfo_kept hm ?_
    by_contra he
    rw [(hok name).1 (by simpa using he) hm j hj] at hn
    cases hn
  · intro hn
    refine h.output_kept (hs.output j name hn) ?_
    by_contra he
    rw [(hok name).2.2 (by simpa using he) j hj] at hn
    cases hn

/-- A thread comes to line 163 or to line 72 with the name in `_thread_info`. -/
theorem Step.arrives {s s' : State} {i : Tid} {a : Act} {name : Name} (h : Step s i a (s.pc i) s')
    (hpc' : s'.pc i = .popFindOutput name ∨ s'.pc i = .insertOutput name) : name ∈ s'.data.threadInfo := by
  generalize hpc : s.pc i = p at h
  cases h
  case move p' hm =>
    simp only [goto_pc, Function.update_self] at hpc'
    cases hm <;> simp at hpc'
    case popFindInfo n info hl => exact hpc' ▸ UnorderedMap.mem_of_lookup hl
  case insertInfo n info hl hf =>
    simp at hpc'
    exact hpc' ▸ (UnorderedMap.mem_emplace ..).mpr (Or.inl rfl)
  case fail f hm => rcases hpc' with hpc' | hpc' <;> rw [fail_pc, hpc] at hpc' <;> subst hpc' <;> cases hm
  case lockInput p' hfree hm => cases hm <;> simp at hpc'
  case lockThreadInfo p' hfree hm => cases hm <;> simp at hpc'
  case lockInfo p' info hfree hm => cases hm <;> simp at hpc'
  all_goals simp at hpc'

theorem step_between {s s' : State} {i : Tid} {a : Act} (hl : Locked s) (hc : Coherent s) (hs : Found s)
    (hok : KeepsEntries s (i, a)) (h : Step s i a (s.pc i) s') (j : Tid) (name : Name)
    (hpc' : s'.pc j = .popFindOutput name) :
    name ∈ s'.data.threadInfo ∨ (name ∉ s'.data.output ∧ ∀ k, s'.pc k ≠ .insertOutput name) := by
  by_cases hj : j = i
  · subst hj
    exact Or.inl (h.arrives (Or.inl hpc'))
  by_cases hm' : name ∈ s'.data.threadInfo
  · exact Or.inl hm'
  right
  have hpc := (h.pc_of_ne hj rfl).mp hpc'
  have hnew : s'.pc i ≠ .insertOutput name := fun hi => hm' (h.arrives (Or.inr hi))
  rcases hs.between j name hpc with hm | ⟨ho, hk⟩
  · -- the name goes: `remove_event` has erased it from `_output` before, and is still inside the mutex
    obtain ⟨info, hi⟩ : ∃ info, s.pc i = .removeInfo name info := by
      rcases h.threadInfo_cases with ht | ⟨n, info, -, -, -, hd⟩ | ⟨n, hi, -, hd⟩
      · exact absurd (ht ▸ hm) hm'
      · exact absurd (hd ▸ (UnorderedMap.mem_emplace ..).mpr (Or.inr hm)) hm'
      · by_cases hn : name = n
        · subst hn
          rcases hi with hi | hi
          · exact hi
          · exact absurd hpc ((hok name).2.1 hi hm j hj)
        · exact absurd (hd ▸ AList.mem_erase.mpr ⟨hn, hm⟩) hm'
    have hf := hc.fact i
    rw [hi] at hf
    refine ⟨?_, fun k => ?_⟩
    · rcases h.output_cases with ⟨he, -⟩ | ⟨n, hn, -⟩ | ⟨n, t, hn, -⟩
      · rw [he]
        exact AList.lookup_eq_none.mp hf
      · rw [hi] at hn; cases hn
      · rw [hi] at hn; cases hn
    · by_cases hki : k = i
      · exact hki ▸ hnew
      · intro hpk
        have := hl.outside hki (by rw [(h.pc_of_ne hki rfl).mp hpk]; rfl)
        rw [hi] at this
        cases this
  · refine ⟨?_, fun k => ?_⟩
    · rcases h.output_cases with ⟨he, -⟩ | ⟨n, hi, -, hd⟩ | ⟨n, t, -, -, hd⟩
      · rw [he]; exact ho
      · rw [hd]
        intro hm
        rcases (UnorderedMap.mem_emplace ..).mp hm with rfl | hm
        · exact hk i hi
        · exact ho hm
      · rw [hd]
        exact fun hm => ho (AList.mem_erase.mp hm).2
    · by_cases hki : k = i
      · exact hki ▸ hnew
      · exact fun hpk => hk k ((h.pc_of_ne hki rfl).mp hpk)

theorem step_fault {s s' : State} {i : Tid} {a : Act} (hs : Found s) (h : Step s i a (s.pc i) s') :
    s'.fault ≠ some .absentEntry := by
  have hi := hs.info i
  have ho := hs.output i
  generalize s.pc i = p at h hi ho
  cases h
  case fail f hm =>
    simp only [fail_fault, ne_eq, Option.some.injEq]
    rintro rfl
    cases hm
    case popMutex name hl => exact AList.lookup_eq_none.mp hl (hi name (by simp [Pc.needsInfo]))
    case popCond name info hl => exact AList.lookup_eq_none.mp hl (hi name (by simp [Pc.needsInfo]))
    case popRun name info cond hl => exact AList.lookup_eq_none.mp hl (hi name (by simp [Pc.needsInfo]))
    case popTest name info hl => exact AList.lookup_eq_none.mp hl (hi name (by simp [Pc.needsInfo]))
    case popEmpty name info cond hl =>
      exact AList.lookup_eq_none.mp hl (ho name (by simp [Pc.needsOutput, Pc.needsInfo]))
    case popFront name info hl => exact AList.lookup_eq_none.mp hl (ho name (by simp [Pc.needsOutput]))
    case popPop name info b hl => exact AList.lookup_eq_none.mp hl (ho name (by simp [Pc.needsOutput]))
  all_goals exact hs.fault

theorem step_found {s s' : State} {i : Tid} {a : Act} (hl : Locked s) (hc : Coherent s) (hs : Found s)
    (hok : KeepsEntries s (i, a)) (h : Step s i a (s.pc i) s') : Found s' where
  info j name hn := by
    by_cases hj : j = i
    · subst hj
      exact (hs.self h name).1 hn
    · exact (hs.others hok h hj name).1 hn
  output j name hn := by
    by_cases hj : j = i
    · subst hj
      exact (hs.self h name).2 hn
    · exact (hs.others hok h hj name).2 hn
  between := step_between hl hc hs hok h
  fault := step_fault hs h

theorem found_init (F : Int) : Found (init F) where
  info j name h := by rcases init_pc F j with hj | hj <;> rw [hj] at h <;> cases h
  output j name h := by rcases init_pc F j with hj | hj <;> rw [hj] at h <;> cases h
  between j name h := by rcases init_pc F j with hj | hj <;> rw [hj] at h <;> cases h
  fault h := by cases h

/-- Thread `6` registers `cam`, and thread `7` waits in `pop`. -/
def waitingRun : List (Tid × Act) :=
  [(6, .call (.insert ['c', 'a', 'm'] 30 true)), (6, .run), (6, .run), (6, .run), (7, .call (.pop ['c', 'a', 'm'])),
    (7, .run), (7, .run), (7, .run), (7, .run), (7, .run), (7, .run), (7, .run)]

/-- Thread `6` removes `cam`. -/
def removingRun : List (Tid × Act) :=
  [(6, .call (.remove ['c', 'a', 'm'])), (6, .run), (6, .run), (6, .run), (6, .run), (6, .run), (6, .run), (6, .run)]

end State

end RpiCam
