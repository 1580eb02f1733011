import RpiCam.Video.Keeping

/-!
# The age of the footage

The clock does not go back, the recorder names a segment by it, and a sweep goes by it. So the directory has the segments
of the maintained time, and after a sweep no older ones.

* `InTime` : the clock shows an `int`;
* `Dated` : no time of the program is later than the clock;
* `Retained` : no segment of the maintained time has gone;
* `Timely` : what a thread knows of the ages of the segments;
* `footage_retained`, `clip_complete`, `swept_clean` : the results about every run.
-/

namespace RpiCam.Video

open Transition

/-- The `now` of a sweep. -/
def Place.now : Place → Option Int
  | sweepListing now _ _ _ => some now
  | sweeping sweep _ _ => some sweep.now
  | _ => none

/-- In `int`, nothing wraps before the year 2038. -/
theorem cutoff_eq {now maintainTime : Int} (hnow : 0 ≤ now ∧ now < 2 ^ 31)
    (hM : 0 ≤ maintainTime ∧ FitsInt maintainTime) : cutoff now maintainTime = now - maintainTime := by
  obtain ⟨h0, hlow, hhigh⟩ := hM
  rw [cutoff, wrapInt_of_fits ⟨by omega, hnow.2⟩, wrapInt_of_fits ⟨by omega, by omega⟩]

namespace Footage

variable {c : VideoConfig} {s s' : Footage}

/-- The clock shows an `int`. -/
def InTime (_ : Footage) : FootageAct → Prop
  | .tick t => t < 2 ^ 31
  | _ => True

/-- Times are not negative, and not later than the clock. -/
structure Dated (s : Footage) : Prop where
  clock : 0 ≤ s.clock ∧ s.clock < 2 ^ 31
  recorded : ∀ t, .recorded t ∈ s.history → 0 ≤ t ∧ t ≤ s.clock
  now : ∀ i n, (s.place i).now = some n → 0 ≤ n ∧ n ≤ s.clock
  sweeps : ∀ sweep e, (sweep, e) ∈ s.sweeps → 0 ≤ sweep.now ∧ sweep.now ≤ s.clock

theorem Rule.clock_worker {i : Nat} {a : WorkerAct} (h : Rule c s (.worker i a) s') : s'.clock = s.clock := by
  cases h <;> rfl

theorem Rule.now_self {i : Nat} {a : WorkerAct} (h : Rule c s (.worker i a) s') {n : Int}
    (hn : (s'.place i).now = some n) : (s.place i).now = some n ∨ n = s.clock := by
  cases h with
  | move hm =>
    rw [goto_place, Function.update_self] at hn
    generalize s.place i = p at hm
    cases hm with
    | sweepList =>
      cases hn
      exact Or.inr rfl
    | sweep _ _ => exact Or.inl hn
    | next _ _ => exact Or.inl hn
    | _ => cases hn
  | take hm _ =>
    simp only [goto_place, Function.update_self] at hn
    generalize s.place i = p at hm
    cases hm <;> cases hn
  | give _ =>
    rw [release_place, goto_place, Function.update_self] at hn
    cases hn
  | erase hp _ _ =>
    rw [goto_place, Function.update_self] at hn
    rw [hp]
    exact Or.inl hn
  | swept _ _ =>
    simp only [release_place, goto_place, Function.update_self] at hn
    cases hn
  | throws _ _ _ =>
    simp only [goto_place, Function.update_self] at hn
    cases hn

theorem Rule.sweeps_worker {i : Nat} {a : WorkerAct} (h : Rule c s (.worker i a) s') {sweep : Sweep}
    {e : Option Thrown} (hmem : (sweep, e) ∈ s'.sweeps) :
    (sweep, e) ∈ s.sweeps ∨ (s.place i).now = some sweep.now := by
  cases h with
  | swept hp _ =>
    rcases List.mem_append.mp hmem with hmem | hmem
    · exact Or.inl hmem
    · cases List.mem_singleton.mp hmem
      rw [hp]
      exact Or.inr rfl
  | throws hp _ _ =>
    rcases List.mem_append.mp hmem with hmem | hmem
    · exact Or.inl hmem
    · cases List.mem_singleton.mp hmem
      rw [hp]
      exact Or.inr rfl
  | _ => exact Or.inl hmem

theorem dated_worker (h : Dated s) {i : Nat} {a : WorkerAct} (hr : Rule c s (.worker i a) s') : Dated s' := by
  have hclock := hr.clock_worker
  constructor
  · rw [hclock]
    exact h.clock
  · intro t ht
    rw [hclock]
    cases hr.changes with
    | same _ _ hh => exact h.recorded t (hh ▸ ht)
    | deleted _ _ _ _ hh _ =>
      rw [hh, delete, List.mem_append, List.mem_singleton] at ht
      rcases ht with ht | ht
      · exact h.recorded t ht
      · cases ht
  · intro j n hn
    rw [hclock]
    by_cases hj : j = i
    · subst hj
      rcases hr.now_self hn with hn | rfl
      · exact h.now j n hn
      · exact ⟨h.clock.1, Int.le_refl _⟩
    · rw [hr.place_of_ne hj] at hn
      exact h.now j n hn
  · intro sweep e hmem
    rw [hclock]
    rcases hr.sweeps_worker hmem with hmem | hn
    · exact h.sweeps sweep e hmem
    · exact h.now i sweep.now hn

theorem dated_step {a : FootageAct} (h : Dated s) (hok : InTime s a) (hr : Rule c s a s') : Dated s' := by
  cases a with
  | tick t =>
    cases hr with
    | tick ht =>
      have hclock := h.clock
      refine ⟨⟨Int.le_trans hclock.1 ht, hok⟩, ?_, ?_, ?_⟩
      · intro u hu
        exact ⟨(h.recorded u hu).1, Int.le_trans (h.recorded u hu).2 ht⟩
      · intro i n hn
        exact ⟨(h.now i n hn).1, Int.le_trans (h.now i n hn).2 ht⟩
      · intro sweep e hmem
        exact ⟨(h.sweeps sweep e hmem).1, Int.le_trans (h.sweeps sweep e hmem).2 ht⟩
  | record =>
    cases hr
    refine ⟨h.clock, ?_, h.now, h.sweeps⟩
    intro t ht
    rcases List.mem_append.mp ht with ht | ht
    · exact h.recorded t ht
    · cases List.mem_singleton.mp ht
      exact ⟨h.clock.1, Int.le_refl _⟩
  | worker i a => exact dated_worker h hr

/-! ## The maintained time -/

/-- Every segment of the maintained time is there. -/
def Retained (c : VideoConfig) (s : Footage) : Prop :=
  ∀ t, .recorded t ∈ s.history → s.clock - c.maintainSec ≤ t → (timeName t, true) ∈ s.folder

theorem Dated.stoi (h : Dated s) {t : Int} (ht : .recorded t ∈ s.history) : RpiCam.stoi (timeName t) = .ok t := by
  have hclock := h.clock
  have hr := h.recorded t ht
  exact stoi_timeName ⟨by omega, by omega⟩

theorem sweepTurn_cases {cutoff : Int} {path : List Char} {refused : List Char → Bool} {file : FileName} {n : Int}
    (hn : stoi file = .ok n) :
    (sweepTurn cutoff path refused file = .erase → n < cutoff) ∧
      (sweepTurn cutoff path refused file = .next → cutoff ≤ n) := by
  unfold sweepTurn
  rw [stoi_upToDot, hn]
  dsimp only
  split_ifs with hlt
  · exact ⟨nofun, nofun⟩
  · exact ⟨fun _ => hlt, nofun⟩
  · exact ⟨nofun, fun _ => Int.not_lt.mp hlt⟩

theorem retained_step (hM : 0 ≤ c.maintainSec) (hd : Dated s) (h : Retained c s) {a : FootageAct}
    (hr : Rule c s a s') : Retained c s' := by
  cases a with
  | tick t =>
    cases hr with
    | tick ht =>
      intro u hu hage
      refine h u hu ?_
      simp only at hage
      omega
  | record =>
    cases hr
    intro t ht hage
    rw [mem_record]
    rcases List.mem_append.mp ht with ht | ht
    · exact Or.inl (h t ht hage)
    · cases List.mem_singleton.mp ht
      exact Or.inr rfl
  | worker i a =>
    intro t ht hage
    rw [hr.clock_worker] at hage
    cases hr.changes with
    | same _ hf hh =>
      rw [hf]
      exact h t (hh ▸ ht) hage
    | deleted hp hfile hturn hf hh _ =>
      rw [hh, delete, List.mem_append, List.mem_singleton] at ht
      rcases ht with ht | ht
      · rw [hf, mem_delete]
        refine ⟨h t ht hage, ?_⟩
        -- a name that the sweep deletes is older
        rintro rfl
        obtain ⟨h0, hle⟩ := hd.now i _ (by rw [hp]; rfl)
        have hlt := (sweepTurn_cases (hd.stoi ht)).1 hturn
        rw [cutoff_eq ⟨h0, by have := hd.clock; omega⟩ ⟨hM, c.fits.2.2⟩] at hlt
        omega
      · cases ht

/-! ## What a thread knows of the ages -/

/-- The regular files of the directory that are segments, with their times. -/
def HasSegment (s : Footage) (name : FileName) (n : Int) : Prop :=
  (name, true) ∈ s.folder ∧ isSegment name true = true ∧ stoi name = .ok n

/-- What a thread at a place knows: an iteration began with every segment of the maintained time, or only later ones have
come since; a clip has those of them that it needs, and no others; and a sweep still has every older segment before it. -/
def Timely (c : VideoConfig) (s : Footage) : Place → Prop
  | .clipListing _ _ before mark begun =>
    ∀ t, .recorded t ∈ s.history.take mark → begun - c.maintainSec ≤ t → (timeName t, true) ∈ before
  | .clipping timestamp _ concat mark begun =>
    mark ≤ s.history.length ∧
    (∀ t, .recorded t ∈ s.history.take mark → begun - c.maintainSec ≤ t → overlaps c timestamp t →
      timeName t ∈ concat) ∧
    ∀ name ∈ concat, ∃ n, stoi name = .ok n ∧ overlaps c timestamp n
  | .sweepListing now _ mark _ => ∀ t, .recorded t ∈ s.history.drop mark → now ≤ t
  | .sweeping sweep files it => ∀ name n, HasSegment s name n → n < sweep.now - c.maintainSec → name ∈ files.drop it
  | _ => True

theorem timely_outside {p : Place} (h : p.inside = false) : Timely c s p := by
  cases p <;> trivial

theorem Timely.same {p : Place} (h : Timely c s p) (hf : s'.folder = s.folder) (hh : s'.history = s.history) :
    Timely c s' p := by
  cases p <;> simp only [Timely, HasSegment, hf, hh] at h ⊢ <;> exact h

theorem Timely.record {p : Place} (h : Timely c s p) (hk : Known c s p) (hM : 0 ≤ c.maintainSec) (hd : Dated s)
    (hnow : ∀ n, p.now = some n → n ≤ s.clock) : Timely c s.record p := by
  cases p with
  | clipListing timestamp eventId before mark begun =>
    intro t ht
    rw [Footage.record, List.take_append_of_le_length (Watched.le hk)] at ht
    exact h t ht
  | clipping timestamp eventId concat mark begun =>
    obtain ⟨hle, hall, honly⟩ := h
    refine ⟨?_, ?_, honly⟩
    · simp only [Footage.record, List.length_append]
      omega
    · intro t ht
      rw [Footage.record, List.take_append_of_le_length hle] at ht
      exact hall t ht
  | sweepListing now before mark refused =>
    intro t ht
    rw [drop_record (Watched.le hk)] at ht
    rcases List.mem_append.mp ht with ht | ht
    · exact h t ht
    · cases List.mem_singleton.mp ht
      exact hnow now rfl
  | sweeping sweep files it =>
    rintro name n ⟨hmem, hseg, hn⟩ hlt
    rcases mem_record.mp hmem with hmem | he
    · exact h name n ⟨hmem, hseg, hn⟩ hlt
    · have hclock := hd.clock
      have hle := hnow sweep.now rfl
      rw [Prod.mk.injEq] at he
      rw [he.1, stoi_timeName ⟨by omega, hclock.2⟩, Except.ok.injEq] at hn
      omega
  | _ => trivial

theorem selected_readable {timestamp : Int} {dir : List Visit} {concat : List FileName}
    (h : selected c timestamp dir = .ok concat) : .fails ∉ dir :=
  ((selected_ok_iff c timestamp dir).mp ⟨concat, h⟩).1

theorem setFilename_readable {dir : List Visit} {files : List FileName} (h : setFilename dir = .ok files) :
    .fails ∉ dir := by
  rw [← listFiles_ok_iff []]
  unfold setFilename at h
  cases hl : listFiles [] dir with
  | error e =>
    rw [hl] at h
    cases h
  | ok fs => exact ⟨fs, rfl⟩

theorem Timely.move {p q : Place} (h : Timely c s p) (hk : Known c s p) (hM : 0 ≤ c.maintainSec) (hd : Dated s)
    (hret : Retained c s) (hnow : ∀ n, p.now = some n → 0 ≤ n ∧ n ≤ s.clock) (hm : Moves c s p q) : Timely c s q := by
  have hclock := hd.clock
  cases hm with
  | clipList =>
    intro t ht hage
    rw [List.take_length] at ht
    exact hret t ht hage
  | sweepList =>
    intro t ht
    rw [List.drop_length] at ht
    cases ht
  | select hdir hsel =>
    refine ⟨Watched.le hk, ?_, fun name hname => ((mem_selected hsel name).mp hname).2⟩
    intro t ht hage hover
    have hfound := (Watched.listed hk hdir).2 (selected_readable hsel) _ (h t ht hage)
    rw [mem_selected hsel]
    exact ⟨⟨true, isSegment_timeName t, hfound⟩, t, hd.stoi (List.mem_of_mem_take ht), hover⟩
  | @sweep now before mark refused dir files hdir hfiles =>
    rintro name n ⟨hmem, hseg, hn⟩ hlt
    rw [List.drop_zero, mem_setFilename hfiles]
    rcases Watched.origin hk _ hmem with hb | ⟨t, ht, he⟩
    · exact ⟨true, hseg, (Watched.listed hk hdir).2 (setFilename_readable hfiles) _ hb⟩
    · -- what has come since is not older
      have hle := h t ht
      rw [Prod.mk.injEq] at he
      rw [he.1, hd.stoi (List.mem_of_mem_drop ht), Except.ok.injEq] at hn
      simp only at hlt
      omega
  | @next sweep files it file hfile hturn =>
    rintro name n hhas hlt
    have hmem := h name n hhas hlt
    rw [drop_of_getElem? hfile, List.mem_cons] at hmem
    rcases hmem with rfl | hmem
    · obtain ⟨h0, hle⟩ := hnow sweep.now rfl
      have hge := (sweepTurn_cases hhas.2.2).2 hturn
      rw [cutoff_eq ⟨h0, by omega⟩ ⟨hM, c.fits.2.2⟩] at hge
      omega
    · exact hmem
  | _ => trivial

theorem Timely.erase {sweep : Sweep} {files : List FileName} {it : Nat} {file : FileName}
    (h : Timely c s (.sweeping sweep files it)) (hfile : files[it]? = some file)
    (hf : s'.folder = (s.delete file).folder) (deleted : List (List Char)) :
    Timely c s' (.sweeping { sweep with deleted } (files.eraseIdx it) it) := by
  rintro name n ⟨hmem, hseg, hn⟩ hlt
  rw [hf, mem_delete] at hmem
  have hleft := h name n ⟨hmem.1, hseg, hn⟩ hlt
  rw [drop_of_getElem? hfile, List.mem_cons] at hleft
  rw [drop_eraseIdx (List.getElem?_eq_some_iff.mp hfile).1]
  exact hleft.resolve_left hmem.2

/-- After a sweep that threw nothing there is no segment from before its cutoff. -/
def Clean (c : VideoConfig) (s : Footage) : Prop :=
  ∀ sweep, (sweep, none) ∈ s.sweeps → ∀ name n, HasSegment s name n → sweep.now - c.maintainSec ≤ n

/-- The invariants of the runs in time. -/
structure InAge (c : VideoConfig) (s : Footage) : Prop where
  dated : Dated s
  retained : Retained c s
  timely : ∀ i, Timely c s (s.place i)
  clean : Clean c s

theorem timely_self (hM : 0 ≤ c.maintainSec) (hs : Sound c s) (h : InAge c s) {i : Nat} {a : WorkerAct}
    (hr : Rule c s (.worker i a) s') : Timely c s' (s'.place i) := by
  have hi := h.timely i
  cases hr with
  | move hm =>
    rw [goto_place, Function.update_self]
    exact (hi.move (hs.known i) hM h.dated h.retained (fun n hn => h.dated.now i n hn) hm).same rfl rfl
  | take hm _ =>
    simp only [goto_place, Function.update_self]
    generalize s.place i = p at hm
    cases hm <;> trivial
  | give _ =>
    rw [release_place, goto_place, Function.update_self]
    trivial
  | erase hp hfile _ =>
    rw [hp] at hi
    rw [goto_place, Function.update_self]
    exact hi.erase hfile rfl _
  | swept _ _ =>
    simp only [release_place, goto_place, Function.update_self]
    trivial
  | throws _ _ _ =>
    simp only [goto_place, Function.update_self]
    trivial

theorem timely_other (hs : Sound c s) (h : InAge c s) {i : Nat} {a : WorkerAct} (hr : Rule c s (.worker i a) s')
    {j : Nat} (hj : j ≠ i) : Timely c s' (s'.place j) := by
  rw [hr.place_of_ne hj]
  cases hr.changes with
  | same _ hf hh => exact (h.timely j).same hf hh
  | deleted hp _ _ _ _ _ =>
    apply timely_outside
    by_contra hin
    rw [Bool.not_eq_false] at hin
    exact hj (hs.locked.alone hp hin)

theorem Rule.hasSegment_worker {i : Nat} {a : WorkerAct} (h : Rule c s (.worker i a) s') {name : FileName} {n : Int}
    (hhas : HasSegment s' name n) : HasSegment s name n := by
  obtain ⟨hmem, hseg, hn⟩ := hhas
  refine ⟨?_, hseg, hn⟩
  cases h.changes with
  | same _ hf _ => exact hf ▸ hmem
  | deleted _ _ _ hf _ _ =>
    rw [hf, mem_delete] at hmem
    exact hmem.1

theorem clean_worker (h : InAge c s) {i : Nat} {a : WorkerAct} (hr : Rule c s (.worker i a) s') : Clean c s' := by
  intro sweep hmem name n hhas
  have hold := hr.hasSegment_worker hhas
  cases hr with
  | swept hp hend =>
    rcases List.mem_append.mp hmem with hmem | hmem
    · exact h.clean sweep hmem name n hold
    · cases List.mem_singleton.mp hmem
      have hi := h.timely i
      rw [hp, Timely, List.drop_eq_nil_of_le hend] at hi
      by_contra hlt
      cases hi name n hold (Int.not_le.mp hlt)
  | throws hp _ _ =>
    rcases List.mem_append.mp hmem with hmem | hmem
    · exact h.clean sweep hmem name n hold
    · cases List.mem_singleton.mp hmem
  | _ => exact h.clean sweep hmem name n hold

theorem clean_record (hM : 0 ≤ c.maintainSec) (h : InAge c s) : Clean c s.record := by
  rintro sweep hmem name n ⟨hfolder, hseg, hn⟩
  rcases mem_record.mp hfolder with hold | he
  · exact h.clean sweep hmem name n ⟨hold, hseg, hn⟩
  · have hclock := h.dated.clock
    have hsweep := h.dated.sweeps sweep none hmem
    rw [Prod.mk.injEq] at he
    rw [he.1, stoi_timeName ⟨by omega, hclock.2⟩, Except.ok.injEq] at hn
    omega

theorem inAge_step (hM : 0 ≤ c.maintainSec) (hs : Sound c s) (h : InAge c s) {a : FootageAct} (hok : InTime s a)
    (hr : Rule c s a s') : InAge c s' := by
  refine ⟨dated_step h.dated hok hr, retained_step hM h.dated h.retained hr, ?_, ?_⟩
  · intro j
    cases a with
    | tick t =>
      cases hr
      exact (h.timely j).same rfl rfl
    | record =>
      cases hr
      exact (h.timely j).record (hs.known j) hM h.dated fun n hn => (h.dated.now j n hn).2
    | worker i a =>
      by_cases hj : j = i
      · exact hj ▸ timely_self hM hs h hr
      · exact timely_other hs h hr hj
  · cases a with
    | tick t =>
      cases hr
      exact h.clean
    | record =>
      cases hr
      exact clean_record hM h
    | worker i a => exact clean_worker h hr

/-! ## Every run -/

/-- The program starts with any directory, at a time that is an `int`. -/
def StartsInTime (s : Footage) : Prop := ∃ folder clock, (0 ≤ clock ∧ clock < 2 ^ 31) ∧ s = start folder clock

theorem inAge_start (c : VideoConfig) (folder : Directory) {clock : Int} (h : 0 ≤ clock ∧ clock < 2 ^ 31) :
    InAge c (start folder clock) where
  dated := ⟨h, nofun, nofun, nofun⟩
  retained := nofun
  timely _ := trivial
  clean := nofun

theorem reach_inAge (hM : 0 ≤ c.maintainSec) (h : Reach StartsInTime (step c) InTime s) : InAge c s := by
  have hsound : ∀ s, Reach StartsInTime (step c) InTime s → Sound c s := by
    intro s hr
    refine hr.invariant (Sound c) ?_ fun s a s' hs _ hst => sound_step hs (step_rule hst)
    rintro s ⟨folder, clock, -, rfl⟩
    exact sound_start c folder clock
  refine h.invariant_of (InAge c) hsound ?_ ?_
  · rintro s ⟨folder, clock, hclock, rfl⟩
    exact inAge_start c folder hclock
  · intro s a s' hs h hok hst
    exact inAge_step hM hs h hok (step_rule hst)

def inTime (_ : Footage) : FootageAct → Bool
  | .tick t => t < 2 ^ 31
  | _ => true

theorem inTime_sound (s : Footage) (a : FootageAct) (h : inTime s a = true) : InTime s a := by
  cases a with
  | tick t => simpa [inTime, InTime] using h
  | _ => trivial

theorem startsInTime_footage : StartsInTime footageStart := ⟨_, _, by decide, rfl⟩

/-- **The maintained time is kept.** In every run, a segment that the recorder began no longer ago than the maintained
time is in the directory, however the sweeps and the clips come between. -/
theorem footage_retained (hM : 0 ≤ c.maintainSec) (h : Reach StartsInTime (step c) InTime s) {t : Int}
    (ht : .recorded t ∈ s.history) (hage : s.clock - c.maintainSec ≤ t) : (timeName t, true) ∈ s.folder :=
  (reach_inAge hM h).retained t ht hage

theorem footage_retained_swept : ∃ s, run (checked inTime (step readmeConfig)) footageStart busyRun = some s ∧
    s.history = [.recorded 1700000000, .deleted "1700000000.mp4".toList, .recorded 1700000200] ∧
    (timeName 1700000200, true) ∈ s.folder :=
  ⟨_, rfl, rfl, footage_retained (t := 1700000200) (by decide) (.of_checked inTime inTime_sound
    (.init startsInTime_footage) (rfl : run (checked inTime (step readmeConfig)) footageStart busyRun = some _))
    (by decide) (by decide)⟩

/-- **A sweep leaves nothing old.** After a `remove_video` that threw nothing, no segment from before its cutoff is in the
directory, then or later. -/
theorem swept_clean (hM : 0 ≤ c.maintainSec) (h : Reach StartsInTime (step c) InTime s) {sweep : Sweep}
    (hmem : (sweep, none) ∈ s.sweeps) {name : FileName} {n : Int} (hfile : (name, true) ∈ s.folder)
    (hseg : isSegment name true = true) (hn : stoi name = .ok n) : sweep.now - c.maintainSec ≤ n :=
  (reach_inAge hM h).clean sweep hmem name n ⟨hfile, hseg, hn⟩

theorem swept_clean_one : ∃ s, run (checked inTime (step readmeConfig)) footageStart sweepingRun = some s ∧
    s.folder = [("1700000200.mp4".toList, true)] ∧ (1700000200 : Int) - 120 ≤ 1700000200 :=
  ⟨_, rfl, rfl, swept_clean (c := readmeConfig) (by decide) (.of_checked inTime inTime_sound
    (.init startsInTime_footage) (rfl : run (checked inTime (step readmeConfig)) footageStart sweepingRun = some _))
    (List.mem_singleton_self (oldSweep, none)) (List.mem_singleton_self ("1700000200.mp4".toList, true))
    (by decide) (by decide +kernel)⟩

end Footage

end RpiCam.Video
