import RpiCam.VideoQueue.Lookup

/-!
# What the callers of an event keep to

`Delivers e` is the discipline under which the delivery of the event `e` is exact: every `insert_event` gets a new
`ThreadInfo` with a rate from `1` to that of the device, nobody removes `e`, and one consumer at a time pops `e`.

* `OwnInfos` : then no two names, and no two calls, share a `ThreadInfo`;
* `Alone` : nobody is in `remove_event` of `e`, and at most one thread in `pop` of `e`.
-/

namespace RpiCam

open Transition

namespace Pc

/-- The `ThreadInfo` a thread is about to register. -/
def inserts : Pc → Option InfoId
  | insertLock _ info | insertInfo _ info => some info
  | _ => none

def removes (name : Name) : Pc → Bool
  | removeLock n | removeFind n | removeTouch n _ _ | removeDrain n _ _ | removeDelete n _ _ | removePop n _ _
  | removeErase n _ | removeStop n _ | removeInfo n _ => n == name
  | _ => false

def inPop (name : Name) : Pc → Bool
  | popFindInfo n | popFindOutput n | popMutex n | popLock n _ | popCond n _ | popRun n _ _ | popEmpty n _ _
  | popWait n _ _ _ | popWake n _ _ | popTest n _ | popErase n _ | popFront n _ | popPop n _ _ => n == name
  | _ => false

theorem inserts_plain (p : Pc) : p.plain.inserts = p.inserts := by cases p <;> rfl

theorem removes_plain (name : Name) (p : Pc) : p.plain.removes name = p.removes name := by cases p <;> rfl

theorem inPop_plain (name : Name) (p : Pc) : p.plain.inPop name = p.inPop name := by cases p <;> rfl

end Pc

namespace State

/-- The discipline of the callers, for the event `e`. -/
def Delivers (e : Name) (s : State) : Tid × Act → Prop
  | (_, a) => (∀ n fps r, a = .call (.insert n fps r) → 1 ≤ fps ∧ fps ≤ s.data.deviceFps) ∧
    (∀ n t, a ≠ .call (.insertAgain n t)) ∧ a ≠ .call (.remove e) ∧
    (a = .call (.pop e) → ∀ j, (s.pc j).inPop e = false)

/-! ## New `ThreadInfo` objects -/

/-- Every `ThreadInfo` is registered once, for one name, with a rate the device has. -/
structure OwnInfos (s : State) : Prop where
  apart : ∀ j k u, (s.pc j).inserts = some u → (s.pc k).inserts = some u → j = k
  unregistered : ∀ j u name, (s.pc j).inserts = some u → AList.lookup name s.data.threadInfo ≠ some u
  inj : ∀ n n' u, AList.lookup n s.data.threadInfo = some u → AList.lookup n' s.data.threadInfo = some u → n = n'
  request : ∀ j u, (s.pc j).inserts = some u → 1 ≤ (s.data.infos u).fps ∧ (s.data.infos u).fps ≤ s.data.deviceFps

theorem Step.inserts_self {s s' : State} {i : Tid} {a : Act} (h : Step s i a (s.pc i) s') {u : InfoId}
    (hu : (s'.pc i).inserts = some u) :
    (s.pc i).inserts = some u ∨
      (∃ n fps r, a = .call (.insert n fps r) ∧ u = s.data.nextInfo ∧ s'.data = s.data.newThreadInfo fps r) ∨
      ∃ n, a = .call (.insertAgain n u) := by
  generalize hpc : s.pc i = p at h ⊢
  cases h
  case callInsert n fps r =>
    simp only [goto_pc, Function.update_self, Pc.inserts, Option.some.injEq] at hu
    exact Or.inr (Or.inl ⟨n, fps, r, rfl, hu.symm, rfl⟩)
  case move p' hm =>
    simp only [goto_pc, Function.update_self] at hu
    cases hm <;> simp only [Pc.inserts, Option.some.injEq, reduceCtorEq] at hu
    case insertAgain n t hlt => exact Or.inr (Or.inr ⟨n, by rw [hu]⟩)
  case lockThreadInfo p' hfree hm =>
    simp only [goto_pc, Function.update_self] at hu
    cases hm
    · exact Or.inl hu
    · cases hu
  case lockInput p' hfree hm => cases hm <;> simp [Pc.inserts] at hu
  case lockInfo p' t hfree hm => cases hm <;> simp [Pc.inserts] at hu
  case fail f hm => rw [fail_pc, hpc] at hu; exact Or.inl hu
  all_goals simp [Pc.inserts] at hu

theorem inserts_lt {s : State} (hc : Coherent s) {j : Tid} {u : InfoId} (hu : (s.pc j).inserts = some u) :
    u < s.data.nextInfo := by
  have hf := hc.fact j
  cases hp : s.pc j <;> rw [hp] at hu hf <;> simp only [Pc.inserts, Option.some.injEq, reduceCtorEq] at hu
  · exact hu ▸ hf
  · exact hu ▸ hf

theorem Step.inserts_cases {s s' : State} {i : Tid} {a : Act} (hc : Coherent s) {e : Name}
    (hok : Delivers e s (i, a)) (h : Step s i a (s.pc i) s') {j : Tid} {u : InfoId}
    (hu : (s'.pc j).inserts = some u) :
    ((s.pc j).inserts = some u ∧ u < s.data.nextInfo) ∨
      (j = i ∧ u = s.data.nextInfo ∧ ∃ n fps r, a = .call (.insert n fps r) ∧
        s'.data = s.data.newThreadInfo fps r) := by
  by_cases hj : j = i
  · subst hj
    rcases h.inserts_self hu with hold | ⟨n, fps, r, ha, hu', hd⟩ | ⟨n, ha⟩
    · exact Or.inl ⟨hold, inserts_lt hc hold⟩
    · exact Or.inr ⟨rfl, hu', n, fps, r, ha, hd⟩
    · exact absurd ha (hok.2.1 n u)
  · rw [← Pc.inserts_plain, h.plain_of_ne hj, Pc.inserts_plain] at hu
    exact Or.inl ⟨hu, inserts_lt hc hu⟩

theorem step_ownInfos {s s' : State} {i : Tid} {a : Act} {e : Name} (hc : Coherent s) (hs : OwnInfos s)
    (hok : Delivers e s (i, a)) (h : Step s i a (s.pc i) s') : OwnInfos s' := by
  -- an entry after the step was there before, or the thread has just registered it
  have hentry : ∀ name u, AList.lookup name s'.data.threadInfo = some u →
      AList.lookup name s.data.threadInfo = some u ∨ ((s.pc i).inserts = some u ∧ s.pc i = .insertInfo name u ∧
        (s'.pc i).inserts = none) := by
    intro name u hk
    rcases h.threadInfo_cases with ht | ⟨n, info, hpc, hpc', -, hd⟩ | ⟨n, -, -, hd⟩
    · exact Or.inl (ht ▸ hk)
    · rw [hd] at hk
      simp only [VideoQueue.enterInfo, UnorderedMap.lookup_emplace] at hk
      split_ifs at hk with hkn
      · rw [Option.some.injEq] at hk
        rw [← hk, hkn.1]
        exact Or.inr ⟨by rw [hpc]; rfl, hpc, by rw [hpc']; rfl⟩
      · exact Or.inl hk
    · rw [hd] at hk
      simp only [VideoQueue.eraseThreadInfo, UnorderedMap.lookup_erase'] at hk
      split_ifs at hk
      exact Or.inl hk
  refine ⟨fun j k u hj hk => ?_, fun j u name hj hk => ?_, fun n n' u hn hn' => ?_, fun j u hj => ?_⟩
  · rcases h.inserts_cases hc hok hj with ⟨h1, hlt⟩ | ⟨rfl, hu, -⟩ <;>
      rcases h.inserts_cases hc hok hk with ⟨h2, hlt'⟩ | ⟨h2, hu', -⟩
    · exact hs.apart j k u h1 h2
    · exact absurd hlt (hu' ▸ Nat.lt_irrefl _)
    · exact absurd hlt' (hu ▸ Nat.lt_irrefl _)
    · exact h2.symm
  · rcases h.inserts_cases hc hok hj with ⟨h1, -⟩ | ⟨rfl, hu, n, fps, r, -, hd⟩
    · rcases hentry name u hk with hk | ⟨h2, -, hnone⟩
      · exact hs.unregistered j u name h1 hk
      · rw [hs.apart j i u h1 h2, hnone] at hj
        cases hj
    · have hk' : AList.lookup name s.data.threadInfo = some u := by rw [hd] at hk; exact hk
      exact absurd (hc.infoFresh name u hk') (hu ▸ Nat.lt_irrefl _)
  · rcases hentry n u hn with h1 | ⟨h1, hp, -⟩ <;> rcases hentry n' u hn' with h2 | ⟨h2, hp', -⟩
    · exact hs.inj n n' u h1 h2
    · exact absurd h1 (hs.unregistered i u n h2)
    · exact absurd h2 (hs.unregistered i u n' h1)
    · rw [hp] at hp'
      cases hp'
      rfl
  · rw [h.deviceFps]
    rcases h.inserts_cases hc hok hj with ⟨h1, hlt⟩ | ⟨-, hu, n, fps, r, ha, hd⟩
    · rcases h.infos_cases hlt with he | ⟨n, hpc, hn, -⟩ | ⟨n, -, hk, -⟩
      · rw [he]
        exact hs.request j u h1
      · -- the thread that registers it is no longer about to
        have hji : j = i := hs.apart j i u h1 (by rw [hpc]; rfl)
        subst hji
        rcases h.threadInfo_cases with ht | ⟨m, info, -, hpc', -⟩ | ⟨m, -, hpc', -⟩
        · rw [hpc] at h
          rcases step_insertInfo_inv h with ⟨f, rfl⟩ | ⟨⟨t, hl⟩, -⟩ | ⟨-, rfl⟩
          · exact hs.request j u h1
          · rw [hn] at hl
            cases hl
          · simp [Pc.inserts] at hj
        · rw [hpc'] at hj; cases hj
        · rw [hpc'] at hj; cases hj
      · exact absurd hk (hs.unregistered j u n h1)
    · rw [hd, hu]
      simpa [VideoQueue.newThreadInfo] using hok.1 n fps r ha

theorem ownInfos_init (F : Int) : OwnInfos (init F) where
  apart j k u h := by rcases init_pc F j with hj | hj <;> rw [hj] at h <;> cases h
  unregistered j u name h := by rcases init_pc F j with hj | hj <;> rw [hj] at h <;> cases h
  inj n n' u h := by simp [init, VideoQueue.new] at h
  request j u h := by rcases init_pc F j with hj | hj <;> rw [hj] at h <;> cases h

/-! ## One consumer and no removal -/

/-- Nobody removes the event, and at most one thread is in `pop` of it. -/
structure Alone (e : Name) (s : State) : Prop where
  removes : ∀ j, (s.pc j).removes e = false
  single : ∀ j k, (s.pc j).inPop e = true → (s.pc k).inPop e = true → j = k

theorem Step.removes_self {s s' : State} {i : Tid} {a : Act} {e : Name} (h : Step s i a (s.pc i) s')
    (hr : (s'.pc i).removes e = true) : (s.pc i).removes e = true ∨ a = .call (.remove e) := by
  generalize hpc : s.pc i = p at h ⊢
  cases h
  case move p' hm =>
    simp only [goto_pc, Function.update_self] at hr
    cases hm <;> simp only [Pc.removes, beq_iff_eq, Bool.false_eq_true] at hr ⊢
    case remove => exact Or.inr (by rw [hr])
    all_goals exact Or.inl hr
  case lockInput p' hfree hm => cases hm <;> simp [Pc.removes] at hr
  case lockThreadInfo p' hfree hm =>
    simp only [goto_pc, Function.update_self] at hr
    cases hm
    · cases hr
    · exact Or.inl hr
  case lockInfo p' t hfree hm => cases hm <;> simp [Pc.removes] at hr
  case fail f hm => rw [fail_pc, hpc] at hr; exact Or.inl hr
  case removeDelete n q t b rest hq => simp only [goto_pc, Function.update_self] at hr; exact Or.inl hr
  case removePop n q t b rest hq => simp only [goto_pc, Function.update_self] at hr; exact Or.inl hr
  case deleteQueue n q t hq => simp only [goto_pc, Function.update_self] at hr; exact Or.inl hr
  case removeErase n t => simp only [goto_pc, Function.update_self] at hr; exact Or.inl hr
  case removeStop n t hl => simp only [goto_pc, Function.update_self] at hr; exact Or.inl hr
  all_goals simp [Pc.removes] at hr

theorem Step.inPop_self {s s' : State} {i : Tid} {a : Act} {e : Name} (h : Step s i a (s.pc i) s')
    (hp : (s'.pc i).inPop e = true) :
    (s.pc i).inPop e = true ∨ (a = .call (.pop e) ∧ s'.pc i = .popFindInfo e) := by
  generalize hpc : s.pc i = p at h ⊢
  cases h
  case move p' hm =>
    simp only [goto_pc, Function.update_self] at hp
    cases hm <;> simp only [Pc.inPop, beq_iff_eq, Bool.false_eq_true] at hp ⊢
    case pop => exact Or.inr (by simp [hp])
    all_goals exact Or.inl hp
  case lockInput p' hfree hm => cases hm <;> simp [Pc.inPop] at hp
  case lockThreadInfo p' hfree hm => cases hm <;> simp [Pc.inPop] at hp
  case lockInfo p' t hfree hm =>
    simp only [goto_pc, Function.update_self] at hp
    cases hm
    · exact Or.inl hp
    · exact Or.inl hp
    · cases hp
  case fail f hm => rw [fail_pc, hpc] at hp; exact Or.inl hp
  case popBlock n info cond q ho hq => simp only [goto_pc, Function.update_self] at hp; exact Or.inl hp
  all_goals simp [Pc.inPop] at hp

theorem step_alone {s s' : State} {i : Tid} {a : Act} {e : Name} (hs : Alone e s) (hok : Delivers e s (i, a))
    (h : Step s i a (s.pc i) s') : Alone e s' := by
  have hpop : ∀ j, (s'.pc j).inPop e = true → (s.pc j).inPop e = true ∨ j = i ∧ ∀ k, (s.pc k).inPop e = false := by
    intro j hj
    by_cases hji : j = i
    · subst hji
      rcases h.inPop_self hj with hold | ⟨ha, -⟩
      · exact Or.inl hold
      · exact Or.inr ⟨rfl, hok.2.2.2 ha⟩
    · rw [← Pc.inPop_plain, h.plain_of_ne hji, Pc.inPop_plain] at hj
      exact Or.inl hj
  refine ⟨fun j => ?_, fun j k hj hk => ?_⟩
  · cases hr : (s'.pc j).removes e with
    | false => rfl
    | true =>
      by_cases hji : j = i
      · subst hji
        rcases h.removes_self hr with hold | ha
        · rw [hs.removes j] at hold; cases hold
        · exact absurd ha hok.2.2.1
      · rw [← Pc.removes_plain, h.plain_of_ne hji, Pc.removes_plain, hs.removes j] at hr
        cases hr
  · rcases hpop j hj with h1 | ⟨h1, hnone⟩ <;> rcases hpop k hk with h2 | ⟨h2, hnone'⟩
    · exact hs.single j k h1 h2
    · rw [hnone' j] at h1; cases h1
    · rw [hnone k] at h2; cases h2
    · rw [h1, h2]

theorem alone_init (e : Name) (F : Int) : Alone e (init F) where
  removes j := by rcases init_pc F j with hj | hj <;> rw [hj] <;> rfl
  single j k h := by rcases init_pc F j with hj | hj <;> rw [hj] at h <;> cases h

/-! ## One consumer thread -/

/-- `Delivers e` where every call of `pop` for `e` is made by thread `c`. -/
def Consumes (c : Tid) (e : Name) (s : State) : Tid × Act → Prop
  | (i, a) => (∀ n fps r, a = .call (.insert n fps r) → 1 ≤ fps ∧ fps ≤ s.data.deviceFps) ∧
    (∀ n t, a ≠ .call (.insertAgain n t)) ∧ a ≠ .call (.remove e) ∧ (a = .call (.pop e) → i = c)

theorem idle_of_call {s s' : State} {i : Tid} {r : Request} (h : step s (i, .call r) = some s') : s.pc i = .idle := by
  simp only [step] at h
  split at h
  · cases h
  · cases hpc : s.pc i <;> rw [hpc] at h <;> first | rfl | cases h

/-- A thread that calls is in no call, so one consumer thread is one consumer at a time. -/
theorem Consumes.delivers {c : Tid} {e : Name} {s s' : State} {ia : Tid × Act} (h : Consumes c e s ia)
    (hothers : ∀ j, j ≠ c → (s.pc j).inPop e = false) (hst : step s ia = some s') : Delivers e s ia := by
  obtain ⟨i, a⟩ := ia
  refine ⟨h.1, h.2.1, h.2.2.1, ?_⟩
  rintro rfl j
  by_cases hj : j = c
  · rw [hj, ← h.2.2.2 rfl, idle_of_call hst]
    rfl
  · exact hothers j hj

theorem reach_consumes {F : Int} {c : Tid} {e : Name} {s : State} (h : Reach (· = init F) step (Consumes c e) s) :
    Reach (· = init F) step (Delivers e) s ∧ ∀ j, j ≠ c → (s.pc j).inPop e = false := by
  induction h with
  | init hs =>
    subst hs
    exact ⟨.init rfl, fun j _ => by rcases init_pc F j with hj | hj <;> rw [hj] <;> rfl⟩
  | @next s s' a _ hok hst ih =>
    obtain ⟨i, a⟩ := a
    obtain ⟨hr, hpop⟩ := ih
    refine ⟨.next (i, a) hr (hok.delivers hpop hst) hst, fun j hj => ?_⟩
    have hstep := step_sound hst
    by_contra hin
    rw [Bool.not_eq_false] at hin
    by_cases hji : j = i
    · subst hji
      rcases hstep.inPop_self hin with hold | ⟨ha, -⟩
      · rw [hpop j hj] at hold
        cases hold
      · exact hj (hok.2.2.2 ha)
    · rw [← Pc.inPop_plain, hstep.plain_of_ne hji, Pc.inPop_plain, hpop j hj] at hin
      cases hin

def consumes (c : Tid) (e : Name) (s : State) : Tid × Act → Bool
  | (_, .call (.insert _ fps _)) => decide (1 ≤ fps ∧ fps ≤ s.data.deviceFps)
  | (_, .call (.insertAgain _ _)) => false
  | (_, .call (.remove n)) => decide (n ≠ e)
  | (i, .call (.pop n)) => decide (n = e → i = c)
  | _ => true

theorem consumes_sound (c : Tid) (e : Name) (s : State) (ia : Tid × Act) (h : consumes c e s ia = true) :
    Consumes c e s ia := by
  obtain ⟨i, a⟩ := ia
  cases a with
  | call r =>
    cases r with
    | push b => simp [Consumes]
    | insert n fps r => simpa [Consumes, consumes] using h
    | insertAgain n t => cases h
    | remove n => simpa [Consumes, consumes] using h
    | pop n => simpa [Consumes, consumes, imp_iff_not_or] using h
  | _ => simp [Consumes]

end State

end RpiCam
