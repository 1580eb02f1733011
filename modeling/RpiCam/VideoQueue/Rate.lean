import RpiCam.VideoQueue.Numbers

/-!
# The rate of an event

`insert_event` turns a requested rate `f` into the divisor `F / f`. In as many passes in a row as the device makes in a
second, an event that stays registered gets `F / (F / f)` frames.

* `RatesFit e` : the registrations ask for rates of the device, and none has the `ThreadInfo` of `e`;
* `Entered` : the divisor of `e` is that of its last request;
* `enqueuedIn` : how many frames the queue of `e` gets in a run;
* `enqueued_window` : in a run between passes these are the frames that the passes select;
* `decimation_rate` : the number of frames in a window of `F` passes.
-/

namespace RpiCam

open Transition

namespace State

/-- A registration that takes effect asks for a rate of the device, and its `ThreadInfo` is not that of `e`. -/
def RatesFit (e : Name) (s : State) : Tid × Act → Prop
  | (i, _) => ∀ n u, s.pc i = .insertInfo n u → AList.lookup n s.data.threadInfo = none →
    (1 ≤ (s.data.infos u).fps ∧ (s.data.infos u).fps ≤ s.data.deviceFps) ∧ AList.lookup e s.data.threadInfo ≠ some u

/-- The last registration of the name: its `ThreadInfo` and the rate that it asked for. -/
def lastRequest (e : Name) (log : List Event) : Option (InfoId × Int) :=
  (log.filterMap fun ev => match ev with
    | .registered n u f _ => if n = e then some (u, f) else none
    | _ => none).getLast?

/-- The frames by which the queue of the name grows. -/
def enqueued (e : Name) (s s' : State) : Nat := (s'.data.queued e).length - (s.data.queued e).length

/-- The frames that the queue of the name gets in a run. -/
def enqueuedIn (e : Name) : State → List (Tid × Act) → Nat
  | _, [] => 0
  | s, a :: as => match step s a with
    | none => 0
    | some s' => enqueued e s s' + enqueuedIn e s' as

/-! ## The divisor of a registered event -/

/-- The divisor of `e` comes from its last request. -/
structure Entered (e : Name) (F : Int) (s : State) : Prop where
  deviceFps : s.data.deviceFps = F
  request : ∀ t, AList.lookup e s.data.threadInfo = some t →
    ∃ f, lastRequest e s.log = some (t, f) ∧ 1 ≤ f ∧ f ≤ F ∧ (s.data.infos t).fps = F / f

theorem lastRequest_append {e : Name} {log evs : List Event} (h : ∀ t f r, .registered e t f r ∉ evs) :
    lastRequest e (log ++ evs) = lastRequest e log := by
  unfold lastRequest
  rw [List.filterMap_append]
  have hnone : (evs.filterMap fun ev => match ev with
      | .registered n u f _ => if n = e then some (u, f) else none
      | _ => none) = [] := by
    rw [List.filterMap_eq_nil_iff]
    intro ev hev
    cases ev with
    | registered n u f r =>
      have hn : n ≠ e := by
        rintro rfl
        exact h u f r hev
      simp [hn]
    | _ => rfl
  rw [hnone, List.append_nil]

/-- While an event is registered, its name is not registered again. -/
theorem Step.lastRequest_eq {s s' : State} {i : Tid} {a : Act} {e : Name} {t : InfoId} (h : Step s i a (s.pc i) s')
    (hk : AList.lookup e s.data.threadInfo = some t) : lastRequest e s'.log = lastRequest e s.log := by
  obtain ⟨evs, hlog⟩ := h.log
  rw [hlog]
  apply lastRequest_append
  intro u f r hev
  obtain ⟨hpc, hpc', -⟩ := h.logs_registered hlog hev
  obtain ⟨hnone, -⟩ := h.enterInfo_eq hpc hpc'
  rw [hnone] at hk
  cases hk

theorem step_entered {F : Int} (hF : 0 ≤ F) {e : Name} {s s' : State} {i : Tid} {a : Act} (hc : Coherent s)
    (hs : Entered e F s) (hok : RatesFit e s (i, a)) (h : Step s i a (s.pc i) s') : Entered e F s' := by
  refine ⟨h.deviceFps.trans hs.deviceFps, fun t ht => ?_⟩
  have hold : AList.lookup e s.data.threadInfo = some t →
      ∃ f, lastRequest e s'.log = some (t, f) ∧ 1 ≤ f ∧ f ≤ F ∧ (s'.data.infos t).fps = F / f := by
    intro hk
    obtain ⟨f, hreq, h1, hle, hfps⟩ := hs.request t hk
    refine ⟨f, (h.lastRequest_eq hk).trans hreq, h1, hle, ?_⟩
    rcases h.infos_cases (hc.infoFresh e t hk) with he | ⟨n, hpc, hn, -⟩ | ⟨n, -, -, he⟩
    · rw [he]
      exact hfps
    · exact absurd hk (hok n t hpc hn).2
    · rw [he]
      exact hfps
  rcases h.threadInfo_cases with hti | ⟨n, u, hpc, hpc', hn, hd⟩ | ⟨n, -, -, hd⟩
  · exact hold (hti ▸ ht)
  · by_cases hne : e = n
    · subst hne
      obtain ⟨-, -, hlog⟩ := h.enterInfo_eq hpc hpc'
      rw [hd] at ht
      simp only [VideoQueue.enterInfo, UnorderedMap.lookup_emplace, hn, and_self, if_true, Option.some.injEq] at ht
      subst ht
      obtain ⟨⟨h1, hle⟩, -⟩ := hok e u hpc hn
      refine ⟨(s.data.infos u).fps, ?_, h1, hs.deviceFps ▸ hle, ?_⟩
      · rw [hlog]
        simp [lastRequest]
      · rw [hd]
        simp only [VideoQueue.enterInfo, Function.update_self]
        rw [hs.deviceFps, Int.tdiv_eq_ediv_of_nonneg hF]
    · rw [hd] at ht
      simp only [VideoQueue.enterInfo, UnorderedMap.lookup_emplace] at ht
      rw [if_neg fun hx => hne hx.1] at ht
      exact hold ht
  · rw [hd] at ht
    simp only [VideoQueue.eraseThreadInfo, UnorderedMap.lookup_erase'] at ht
    split_ifs at ht
    exact hold ht

theorem reach_entered {F : Int} (hF : 0 ≤ F) {e : Name} {s : State} (h : Reach (· = init F) step (RatesFit e) s) :
    Entered e F s := by
  refine Reach.invariant_of (Entered e F) (fun s hr => reach_coherent hr) ?_
    (fun s a s' hk hs hok hst => step_entered hF hk.2 hs hok (step_sound hst)) h
  rintro s rfl
  exact ⟨rfl, fun t ht => by simp [init, VideoQueue.new] at ht⟩

/-! ## What the queue gets -/

/-- The queue of a name grows where a frame is copied, and nowhere else. -/
theorem Step.queued_grows {s s' : State} {i : Tid} {a : Act} {e : Name} (hc : Coherent s)
    (h : Step s i a (s.pc i) s') : (s'.data.queued e).length ≤ (s.data.queued e).length ∨
      ∃ b t info rest, s.pc i = .distCopy b t e info rest := by
  cases ho : AList.lookup e s.data.output with
  | none =>
    left
    rcases h.output_cases with ⟨he, -⟩ | ⟨n, -, -, hd⟩ | ⟨n, info, -, -, hd⟩
    · simp [VideoQueue.queued, he, ho]
    · rw [hd, queued_enterOutput hc n e]
    · have : AList.lookup e s'.data.output = none := by
        rw [hd]
        simp only [VideoQueue.eraseOutput, UnorderedMap.lookup_erase', ho]
        split_ifs <;> rfl
      simp [VideoQueue.queued, this]
  | some q =>
    -- the entry is gone, or it is for the same queue
    have hentry : AList.lookup e s'.data.output = none ∨ AList.lookup e s'.data.output = some q := by
      rcases h.output_cases with ⟨he, -⟩ | ⟨n, -, -, hd⟩ | ⟨n, info, -, -, hd⟩
      · exact Or.inr (he ▸ ho)
      · right
        rw [hd]
        simp only [VideoQueue.enterOutput, UnorderedMap.lookup_emplace]
        rw [if_neg]
        · exact ho
        · rintro ⟨rfl, hn⟩
          rw [ho] at hn
          cases hn
      · rw [hd]
        simp only [VideoQueue.eraseOutput, UnorderedMap.lookup_erase']
        split_ifs
        · exact Or.inl rfl
        · exact Or.inr ho
    have hlen : s'.data.queues q = s.data.queues q ∨ (s'.data.queues q = none) ∨
        (∃ c rest, s.data.queues q = some (c :: rest) ∧ s'.data.queues q = some rest) →
        (s'.data.queued e).length ≤ (s.data.queued e).length := by
      intro hq
      rcases hentry with hn | hk
      · simp [VideoQueue.queued, hn]
      · rcases hq with he | he | ⟨c, rest, hq, he⟩
        · simp [VideoQueue.queued, hk, ho, he]
        · simp [VideoQueue.queued, hk, he]
        · simp [VideoQueue.queued, hk, ho, hq, he]
    cases h.queue (hc.queueFresh e q ho) with
    | keep he => exact Or.inl (hlen (Or.inl he))
    | append hpc hon _ _ =>
      have hn := hc.inj _ _ q hon ho
      subst hn
      exact Or.inr ⟨_, _, _, _, hpc⟩
    | drain hpc hq he => exact Or.inl (hlen (Or.inr (Or.inr ⟨_, _, hq, he⟩)))
    | delete hpc _ _ he => exact Or.inl (hlen (Or.inr (Or.inl he)))
    | pop hpc _ hq he => exact Or.inl (hlen (Or.inr (Or.inr ⟨_, _, hq, he⟩)))

section

variable {s s' : State} {e : Name} {t : InfoId} {d : Int}

/-- **What one step gives to the queue** was selected before it. -/
theorem Visiting.enqueued_step {i : Tid} {a : Act} {evs : List Event} (hs : Visiting e t d s) (hl : Locked s)
    (hc : Coherent s) (h : Step s i a (s.pc i) s') (hlog : s'.log = s.log ++ evs) :
    enqueued e s s' + (s'.pendingOf e d).length = (s.pendingOf e d).length + (selected d evs).length := by
  unfold enqueued
  cases hs.pending_step hl hc h hlog with
  | select hp hev hp' hdata =>
    rw [hdata, hp, hp', List.length_nil]
    omega
  | copy hp hev hp' hq =>
    rw [hq, hp, hp', hev, selected_of_noPass rfl, List.length_append, List.length_singleton, List.length_nil,
      List.length_singleton]
    omega
  | stay hp hpass hcopy =>
    have hle : (s'.data.queued e).length ≤ (s.data.queued e).length := by
      rcases h.queued_grows hc with hle | ⟨b, t', info, rest, hpc⟩
      · exact hle
      · rw [hcopy b t' info rest hpc]
    rw [hp, selected_of_noPass hpass, List.length_nil]
    omega

/-- The registrations fit, and `e` has its entry. -/
def Stays (e : Name) (t : InfoId) (s : State) (a : Tid × Act) : Prop :=
  RatesFit e s a ∧ AList.lookup e s.data.threadInfo = some t

/-- **The frames that a run gives to the queue**, with the one pending in the end, are the one pending in the beginning
and those that the passes select. -/
theorem enqueued_window {F : Int} {as : List (Tid × Act)} (hr : Reach (· = init F) step (RatesFit e) s)
    (hs : Visiting e t d s) (hok : Along step (Stays e t) s as) (hrun : run step s as = some s')
    (hend : AList.lookup e s'.data.threadInfo = some t) :
    ∃ w, s'.log = s.log ++ w ∧
      enqueuedIn e s as + (s'.pendingOf e d).length = (s.pendingOf e d).length + (selected d w).length := by
  induction as generalizing s with
  | nil =>
    cases hrun
    exact ⟨[], by simp, by rw [enqueuedIn, selected_of_noPass rfl, List.length_nil]; omega⟩
  | cons a as ih =>
    rw [run_cons, Option.bind_eq_some_iff] at hrun
    obtain ⟨u, hst, hrun⟩ := hrun
    obtain ⟨⟨hfit, -⟩, hrest⟩ := along_cons.mp hok
    have hstep := step_sound hst
    obtain ⟨hl, hc⟩ := reach_coherent hr
    have hentry : AList.lookup e u.data.threadInfo = some t := by
      cases as with
      | nil =>
        cases hrun
        exact hend
      | cons b as => exact ((hrest u hst).1).2
    have hu : Visiting e t d u := hs.step hl hc hstep hentry fun n hpc hn => (hfit n t hpc hn).2 hs.entry
    obtain ⟨evs, hevs⟩ := hstep.log
    obtain ⟨w, hw, hcount⟩ := ih (.next a hr hfit hst) hu (hrest u hst) hrun
    have hone := hs.enqueued_step hl hc hstep hevs
    refine ⟨evs ++ w, by rw [hw, hevs, List.append_assoc], ?_⟩
    have hin : enqueuedIn e s (a :: as) = enqueued e s u + enqueuedIn e u as := by
      rw [enqueuedIn, hst]
    rw [hin, selected_append, List.length_append]
    omega

end

/-! ## The rate -/

/-- Nested quotients: at least the requested rate, and less than twice as much. -/
theorem rate_bounds {F f : Nat} (h1 : 1 ≤ f) (hf : f ≤ F) : f ≤ F / (F / f) ∧ F / (F / f) < 2 * f := by
  have hq : 0 < F / f := Nat.div_pos hf h1
  have hlow : f * (F / f) ≤ F := Nat.mul_div_le F f
  have hhigh : F < f * (F / f + 1) := Nat.lt_mul_div_succ F h1
  constructor
  · exact (Nat.le_div_iff_mul_le hq).mpr hlow
  · rw [Nat.div_lt_iff_lt_mul hq]
    calc F < f * (F / f + 1) := hhigh
      _ ≤ f * (2 * (F / f)) := Nat.mul_le_mul_left _ (by omega)
      _ = 2 * f * (F / f) := by rw [← Nat.mul_assoc, Nat.mul_comm f 2]

/-- A thread is in an iteration of `distribute_buffer`. -/
def InPass (s : State) : Prop := ∃ j, (s.pc j).entries ≠ []

theorem pendingOf_of_noPass {s : State} (h : ¬ InPass s) (e : Name) (d : Int) : s.pendingOf e d = [] := by
  have hnone : ∀ j, (s.pc j).entries = [] := fun j => by
    by_contra hj
    exact h ⟨j, hj⟩
  cases hm : s.threadInfoMutex with
  | none => rw [pendingOf, hm, atHolder_none]
  | some i => rw [pendingOf, hm, atHolder_some, Pc.pending_of_entries (hnone i)]

theorem not_inPass_of_free {s : State} (hl : Locked s) (h : s.threadInfoMutex = none) : ¬ InPass s := by
  rintro ⟨j, hj⟩
  have := (hl.threadInfo j).mpr (Pc.holdsThreadInfo_of_entries hj)
  rw [h] at this
  cases this

theorem frameNo_of_passed {F : Nat} (hF : 1 ≤ F) {s : State} (hs : Numbered F s) (h : passesOf s.log ≠ []) :
    1 ≤ s.data.currentFrameNo ∧ s.data.currentFrameNo ≤ F := by
  have hpos := List.length_pos_iff.mpr h
  rw [hs.current]
  cases hb : s.begun with
  | zero =>
    unfold begun at hb
    omega
  | succ k => exact frameNo_range hF k

/-- **The decimation rate.** On a camera of `F` frames a second, an event that asked for `f` and stays registered gets
`F / (F / f)` frames in every `F` passes in a row. -/
theorem decimation_rate {F f : Nat} (hF : 1 ≤ F) {e : Name} {t : InfoId} {s s' : State} {as : List (Tid × Act)}
    (hr : Reach (· = init F) step (RatesFit e) s) (hreq : lastRequest e s.log = some (t, (f : Int)))
    (hstay : Along step (Stays e t) s as) (hrun : run step s as = some s')
    (hstart : AList.lookup e s.data.threadInfo = some t) (hend : AList.lookup e s'.data.threadInfo = some t)
    (hfree : ¬ InPass s) (hfree' : ¬ InPass s')
    (hwindow : (passesOf s'.log).length = (passesOf s.log).length + F) :
    enqueuedIn e s as = F / (F / f) ∧ f ≤ F / (F / f) ∧ F / (F / f) < 2 * f ∧
      ∀ u, Reach (· = init F) step (fun _ _ => True) u → passesOf u.log ≠ [] →
        1 ≤ u.data.currentFrameNo ∧ u.data.currentFrameNo ≤ F := by
  obtain ⟨g, hg, h1, hle, hfps⟩ := (reach_entered (by omega) hr).request t hstart
  rw [hreq, Option.some.injEq, Prod.mk.injEq] at hg
  obtain ⟨-, rfl⟩ := hg
  have hbounds := rate_bounds (F := F) (f := f) (by omega) (by omega)
  have hd : ((F / f : Nat) : Int) = (F : Int) / f := Int.natCast_ediv F f
  have hentries : ∀ j, (s.pc j).entries = [] := fun j => by
    by_contra hj
    exact hfree ⟨j, hj⟩
  have hvisit : Visiting e t ((F / f : Nat) : Int) s := by
    refine ⟨hstart, by rw [hfps, hd], ?_, fun j => by simp [hentries j], fun j hj => ?_⟩
    · have := Nat.div_pos (show f ≤ F by omega) (show 0 < f by omega)
      omega
    · have := hentries j
      cases hp : s.pc j <;> rw [hp] at hj this <;> first | cases hj | cases this
  obtain ⟨w, hlog, hcount⟩ := enqueued_window hr hvisit hstay hrun hend
  rw [pendingOf_of_noPass hfree, pendingOf_of_noPass hfree', List.length_nil] at hcount
  have hnum : Numbered F s' := numbered hF (hr.of_along (hstay.mono fun _ _ h => h.1) hrun)
  have hpasses : (passesOf w).length = F := by
    rw [hlog, passesOf, List.filterMap_append, List.length_append] at hwindow
    exact Nat.add_left_cancel hwindow
  have hsel := selected_window hnum (F / f) (show s'.log = s.log ++ w ++ [] by rw [hlog, List.append_nil]) hpasses
  refine ⟨by omega, hbounds.1, hbounds.2, fun u hu hpassed => ?_⟩
  exact frameNo_of_passed hF (numbered hF hu) hpassed

def ratesFit (e : Name) (s : State) : Tid × Act → Bool
  | (i, _) => match s.pc i with
    | .insertInfo _ u => decide ((1 ≤ (s.data.infos u).fps ∧ (s.data.infos u).fps ≤ s.data.deviceFps) ∧
      AList.lookup e s.data.threadInfo ≠ some u)
    | _ => true

theorem ratesFit_sound (e : Name) (s : State) (ia : Tid × Act) (h : ratesFit e s ia = true) : RatesFit e s ia := by
  intro n u hpc _
  simpa [ratesFit, hpc] using h

/-- An event that asks for 2 of 3 frames a second. -/
def cameraRun : List (Tid × Act) :=
  [(6, .call (.insert ['c', 'a', 'm'] 2 true)), (6, .run), (6, .run), (6, .run)]

/-- A frame is pushed and thread `0` passes it on to the event. -/
def cameraPass : List (Tid × Act) :=
  [(8, .call (.push sampleFrame)), (8, .run), (8, .notify none), (0, .run), (0, .run), (0, .clock 0),
    (0, .iterate [(['c', 'a', 'm'], 0)]), (0, .run), (0, .run), (0, .run), (0, .run), (0, .run), (0, .run)]

def stays (e : Name) (t : InfoId) (s : State) (ia : Tid × Act) : Bool :=
  ratesFit e s ia && AList.lookup e s.data.threadInfo == some t

theorem stays_sound (e : Name) (t : InfoId) (s : State) (ia : Tid × Act) (h : stays e t s ia = true) :
    Stays e t s ia := by
  rw [stays, Bool.and_eq_true, beq_iff_eq] at h
  exact ⟨ratesFit_sound e s ia h.1, h.2⟩

/-- What the theorem needs of an end of the window. -/
def cameraEnd (s : State) : Option Tid × Option InfoId × Option (InfoId × Int) × Nat :=
  (s.threadInfoMutex, AList.lookup ['c', 'a', 'm'] s.data.threadInfo, lastRequest ['c', 'a', 'm'] s.log,
    (passesOf s.log).length)

/-- The ends of a window of three passes. -/
def cameraWindow : Option ((Option Tid × Option InfoId × Option (InfoId × Int) × Nat) ×
    (Option Tid × Option InfoId × Option (InfoId × Int) × Nat)) :=
  (run (checked (ratesFit ['c', 'a', 'm']) step) (init (3 : Nat)) cameraRun).bind fun s =>
    (run (checked (stays ['c', 'a', 'm'] 0) step) s (cameraPass ++ cameraPass ++ cameraPass)).map fun s' =>
      (cameraEnd s, cameraEnd s')

theorem decimation_rate_two : ∃ s s', run step (init (3 : Nat)) cameraRun = some s ∧
    run step s (cameraPass ++ cameraPass ++ cameraPass) = some s' ∧
    enqueuedIn ['c', 'a', 'm'] s (cameraPass ++ cameraPass ++ cameraPass) = 3 / (3 / 2) := by
  have hwindow : cameraWindow = some ((none, some 0, some (0, 2), 0), (none, some 0, some (0, 2), 3)) := rfl
  simp only [cameraWindow, Option.bind_eq_some_iff, Option.map_eq_some_iff, cameraEnd, Prod.mk.injEq] at hwindow
  obtain ⟨s, hs, s', hs', ⟨hfree, hstart, hreq, hnone⟩, hfree', hend, -, hthree⟩ := hwindow
  obtain ⟨hrun, hok⟩ := along_of_checked _ (ratesFit_sound ['c', 'a', 'm']) hs
  obtain ⟨hrun', hok'⟩ := along_of_checked _ (stays_sound ['c', 'a', 'm'] 0) hs'
  have hinit : Reach (· = init (3 : Nat)) step (RatesFit ['c', 'a', 'm']) (init (3 : Nat)) := .init rfl
  have hreach := hinit.of_along hok hrun
  have hreach' := hreach.of_along (hok'.mono fun _ _ h => h.1) hrun'
  exact ⟨s, s', hrun, hrun', (decimation_rate (by decide) hreach hreq hok' hrun' hstart hend
    (not_inPass_of_free (reach_coherent hreach).1 hfree) (not_inPass_of_free (reach_coherent hreach').1 hfree')
    (by rw [hnone, hthree])).1⟩

end State

end RpiCam
