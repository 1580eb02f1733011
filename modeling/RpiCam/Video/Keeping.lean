import RpiCam.Video.FileLock
import RpiCam.Video.Footage

/-!
# What `_file_lock` keeps

* `Locked`, `Rule.turn` : one thread at a time is in `process_video` or `remove_video`;
* `Changes` : what a step does to the directory;
* `Watched` : an iteration over the directory, that only the recorder comes between;
* `Known`, `Sound`, `reach_sound` : what each thread can rely on, in every run;
* `clip_kept` : the files of a clip are there until its pipeline is done;
* `sweep_atomic` : a sweep deletes what it would with nobody else there.
-/

namespace RpiCam.Video

open Transition

namespace Footage

variable {c : VideoConfig} {s s' : Footage}

/-! ## The lock -/

/-- `_file_lock` is the one thread's that is inside. -/
def Locked (s : Footage) : Prop := OwnedBy s.lock fun i => (s.place i).inside

theorem Rule.place_of_ne {i : Nat} {a : WorkerAct} (h : Rule c s (.worker i a) s') {j : Nat} (hj : j ≠ i) :
    s'.place j = s.place j := by
  cases h <;> exact Function.update_of_ne hj ..

theorem Moves.inside {p q : Place} (h : Moves c s p q) : q.inside = p.inside := by cases h <;> rfl

theorem Takes.inside {p q : Place} (h : Takes p q) : p.inside = false ∧ q.inside = true := by
  cases h <;> exact ⟨rfl, rfl⟩

theorem Gives.inside {p : Place} (h : Gives p) : p.inside = true := by cases h <;> rfl

theorem Rule.turn {i : Nat} {a : WorkerAct} (h : Rule c s (.worker i a) s') :
    Turn i s.lock (s.place i).inside (s'.place i).inside s'.lock := by
  cases h with
  | move hm => exact .keep (by simp [hm.inside])
  | take hm hfree => exact .take hfree (by simp [hm.inside.2])
  | give hm => exact .give hm.inside (by simp [Place.inside])
  | erase hp _ _ => exact .keep (by simp [hp, Place.inside])
  | swept hp _ => exact .give (by rw [hp]; rfl) (by simp [Place.inside])
  | throws hp _ _ => exact .keep (by simp [hp, Place.inside])

theorem locked_step {a : FootageAct} (h : Locked s) (hr : Rule c s a s') : Locked s' := by
  cases a with
  | tick t =>
    cases hr
    exact h
  | record =>
    cases hr
    exact h
  | worker i a => exact h.turn (fun j hj => by rw [hr.place_of_ne hj]) hr.turn

/-- While one thread sweeps, no other one is inside. -/
theorem Locked.alone (h : Locked s) {i j : Nat} {sweep : Sweep} {files : List FileName} {it : Nat}
    (hi : s.place i = .sweeping sweep files it) (hj : (s.place j).inside = true) : j = i :=
  OwnedBy.unique h hj (by rw [hi]; rfl)

/-! ## What a step changes in the directory -/

/-- The directory and the history of a step: the same, with one more segment, or with one less name, and then the thread
sweeps. -/
inductive Changes (c : VideoConfig) (s s' : Footage) : FootageAct → Prop
  | same {a} : a ≠ .record → s'.folder = s.folder → s'.history = s.history → Changes c s s' a
  | recorded : s' = s.record → Changes c s s' .record
  | deleted {i a sweep files it file} : s.place i = .sweeping sweep files it → files[it]? = some file →
      sweepTurn (cutoff sweep.now c.maintainSec) c.vidPath sweep.refused file = .erase →
      s'.folder = (s.delete file).folder → s'.history = (s.delete file).history →
      s'.place i = .sweeping { sweep with deleted := sweep.deleted ++ [filePath c.vidPath file] }
        (files.eraseIdx it) it → Changes c s s' (.worker i a)

theorem Rule.changes {a : FootageAct} (h : Rule c s a s') : Changes c s s' a := by
  cases h with
  | tick _ => exact .same nofun rfl rfl
  | record _ => exact .recorded rfl
  | erase hp hfile hturn => exact .deleted hp hfile hturn rfl rfl (Function.update_self ..)
  | move _ => exact .same nofun rfl rfl
  | take _ _ => exact .same nofun rfl rfl
  | give _ => exact .same nofun rfl rfl
  | swept _ _ => exact .same nofun rfl rfl
  | throws _ _ _ => exact .same nofun rfl rfl

theorem mem_record {e : FileName × Bool} : e ∈ s.record.folder ↔ e ∈ s.folder ∨ e = (timeName s.clock, true) := by
  unfold record
  dsimp only
  split_ifs with h
  · constructor
    · exact Or.inl
    · rintro (he | rfl)
      · exact he
      · exact h
  · rw [List.mem_append, List.mem_singleton]

theorem mem_delete {name : FileName} {e : FileName × Bool} : e ∈ (s.delete name).folder ↔ e ∈ s.folder ∧ e.1 ≠ name := by
  rw [delete, List.mem_filter, decide_eq_true_iff]

/-! ## An iteration over the directory -/

/-- Since `before` and `mark` nothing was deleted, and what has come is from the recorder. -/
structure Watched (before : Directory) (mark : Nat) (s : Footage) : Prop where
  le : mark ≤ s.history.length
  kept : ∀ e ∈ before, e ∈ s.folder
  come : ∀ t, .recorded t ∈ s.history.drop mark → (timeName t, true) ∈ s.folder
  origin : ∀ e ∈ s.folder, e ∈ before ∨ ∃ t, .recorded t ∈ s.history.drop mark ∧ e = (timeName t, true)
  noDelete : ∀ name, .deleted name ∉ s.history.drop mark

theorem watched_begin (s : Footage) : Watched s.folder s.history.length s where
  le := Nat.le_refl _
  kept _ he := he
  come t ht := by
    rw [List.drop_length] at ht
    cases ht
  origin _ he := Or.inl he
  noDelete name hname := by
    rw [List.drop_length] at hname
    cases hname

theorem Watched.same {before : Directory} {mark : Nat} (h : Watched before mark s) (hf : s'.folder = s.folder)
    (hh : s'.history = s.history) : Watched before mark s' := by
  obtain ⟨h1, h2, h3, h4, h5⟩ := h
  constructor
  · rwa [hh]
  · rwa [hf]
  · rwa [hf, hh]
  · rwa [hf, hh]
  · rwa [hh]

theorem drop_record {mark : Nat} (h : mark ≤ s.history.length) :
    s.record.history.drop mark = s.history.drop mark ++ [.recorded s.clock] :=
  List.drop_append_of_le_length h

theorem Watched.record {before : Directory} {mark : Nat} (h : Watched before mark s) : Watched before mark s.record where
  le := by
    have := h.le
    simp only [Footage.record, List.length_append]
    omega
  kept e he := mem_record.mpr (Or.inl (h.kept e he))
  come t ht := by
    rw [drop_record h.le, List.mem_append, List.mem_singleton] at ht
    rw [mem_record]
    rcases ht with ht | ht
    · exact Or.inl (h.come t ht)
    · cases ht
      exact Or.inr rfl
  origin e he := by
    rw [drop_record h.le]
    rcases mem_record.mp he with he | rfl
    · rcases h.origin e he with hb | ⟨t, ht, rfl⟩
      · exact Or.inl hb
      · exact Or.inr ⟨t, List.mem_append_left _ ht, rfl⟩
    · exact Or.inr ⟨s.clock, List.mem_append_right _ (List.mem_singleton_self _), rfl⟩
  noDelete name hname := by
    rw [drop_record h.le, List.mem_append, List.mem_singleton] at hname
    rcases hname with hname | hname
    · exact h.noDelete name hname
    · cases hname

/-- What a listing finds is there, and what was there is found. -/
theorem Watched.listed {before : Directory} {mark : Nat} (h : Watched before mark s) {dir : List Visit}
    (hdir : listing before (s.history.drop mark) dir = true) :
    (∀ name r, .entry name r ∈ dir → (name, r) ∈ s.folder) ∧
      (.fails ∉ dir → ∀ e ∈ before, .entry e.1 e.2 ∈ dir) := by
  rw [listing, Bool.and_eq_true, List.all_eq_true, decide_eq_true_iff] at hdir
  obtain ⟨hmay, hmust⟩ := hdir
  refine ⟨?_, ?_⟩
  · intro name r hmem
    have hor := hmay _ hmem
    rw [decide_eq_true_iff, List.any_eq_true] at hor
    rcases hor with hb | ⟨rfl, e, he, hname⟩
    · exact h.kept _ hb
    · cases e with
      | recorded t =>
        rw [decide_eq_true_iff] at hname
        exact hname ▸ h.come t he
      | deleted _ => cases hname
  · intro hfails e he
    rcases hmust with hf | hall
    · exact absurd hf hfails
    · rw [List.all_eq_true] at hall
      have hor := hall e he
      rw [decide_eq_true_iff] at hor
      rcases hor with hd | hd
      · exact absurd hd (h.noDelete e.1)
      · exact hd

/-! ## What a thread can rely on -/

/-- The deletions of the sweep so far, and those to come where these names are left, are those of a call that nothing
comes between. -/
def Uninterrupted (c : VideoConfig) (sweep : Sweep) (left : List FileName) : Prop :=
  (sweep.deleted ++ (removeLoop (cutoff sweep.now c.maintainSec) c.vidPath sweep.refused left).1,
    (removeLoop (cutoff sweep.now c.maintainSec) c.vidPath sweep.refused left).2) =
  removed sweep.now c.maintainSec c.vidPath sweep.dir sweep.refused

theorem drop_of_getElem? {files : List FileName} {it : Nat} {file : FileName} (h : files[it]? = some file) :
    files.drop it = file :: files.drop (it + 1) := by
  obtain ⟨hlt, rfl⟩ := List.getElem?_eq_some_iff.mp h
  exact List.drop_eq_getElem_cons hlt

theorem drop_eraseIdx {files : List FileName} {it : Nat} (h : it < files.length) :
    (files.eraseIdx it).drop it = files.drop (it + 1) := by
  rw [List.eraseIdx_eq_take_drop_succ]
  exact List.drop_left' (by rw [List.length_take, Nat.min_eq_left (Nat.le_of_lt h)])

theorem removeLoop_cons (cutoff : Int) (path : List Char) (refused : List Char → Bool) (file : FileName)
    (files : List FileName) : removeLoop cutoff path refused (file :: files) =
      match sweepTurn cutoff path refused file with
      | .erase => (filePath path file :: (removeLoop cutoff path refused files).1, (removeLoop cutoff path refused files).2)
      | .next => removeLoop cutoff path refused files
      | .throw e => ([], some e) := by
  rw [removeLoop]
  unfold sweepTurn
  cases stoi (upToDot file) with
  | error e => rfl
  | ok n =>
    dsimp only
    split_ifs <;> rfl

/-- What a thread at a place knows: the directory is as its iteration saw it, the files of its clip are there, and its
sweep so far is part of an uninterrupted one. -/
def Known (c : VideoConfig) (s : Footage) : Place → Prop
  | .clipListing _ _ before mark _ => Watched before mark s
  | .clipping _ _ concat _ _ => ∀ name ∈ concat, (name, true) ∈ s.folder
  | .sweepListing _ before mark _ => Watched before mark s
  | .sweeping sweep files it => Uninterrupted c sweep (files.drop it)
  | _ => True

theorem known_outside {p : Place} (h : p.inside = false) : Known c s p := by
  cases p <;> trivial

theorem Known.same {p : Place} (h : Known c s p) (hf : s'.folder = s.folder) (hh : s'.history = s.history) :
    Known c s' p := by
  cases p with
  | clipListing _ _ before mark _ => exact Watched.same h hf hh
  | clipping _ _ concat _ _ =>
    intro name hname
    rw [hf]
    exact h name hname
  | sweepListing _ before mark _ => exact Watched.same h hf hh
  | sweeping sweep files it => exact h
  | _ => trivial

theorem Known.record {p : Place} (h : Known c s p) : Known c s.record p := by
  cases p with
  | clipListing _ _ before mark _ => exact Watched.record h
  | clipping _ _ concat _ _ =>
    intro name hname
    exact mem_record.mpr (Or.inl (h name hname))
  | sweepListing _ before mark _ => exact Watched.record h
  | sweeping sweep files it => exact h
  | _ => trivial

theorem Known.move {p q : Place} (h : Known c s p) (hm : Moves c s p q) : Known c s q := by
  cases hm with
  | clipList => exact watched_begin s
  | sweepList => exact watched_begin s
  | select hdir hsel =>
    intro name hname
    obtain ⟨⟨r, hseg, hmem⟩, -⟩ := (mem_selected hsel name).mp hname
    obtain rfl : r = true := by
      cases r with
      | true => rfl
      | false => cases hseg
    exact (Watched.listed h hdir).1 name true hmem
  | sweep hdir hfiles =>
    rw [Known, Uninterrupted, List.nil_append, List.drop_zero]
    unfold removed
    rw [hfiles]
  | next hfile hturn =>
    rw [Known, drop_of_getElem? hfile, Uninterrupted, removeLoop_cons, hturn] at h
    exact h
  | _ => trivial

theorem Known.erase {sweep : Sweep} {files : List FileName} {it : Nat} {file : FileName}
    (h : Known c s (.sweeping sweep files it)) (hfile : files[it]? = some file)
    (hturn : sweepTurn (cutoff sweep.now c.maintainSec) c.vidPath sweep.refused file = .erase) :
    Known c s' (.sweeping { sweep with deleted := sweep.deleted ++ [filePath c.vidPath file] } (files.eraseIdx it)
      it) := by
  rw [Known, drop_of_getElem? hfile, Uninterrupted, removeLoop_cons, hturn] at h
  rw [Known, drop_eraseIdx (List.getElem?_eq_some_iff.mp hfile).1, Uninterrupted, List.append_assoc, List.singleton_append]
  exact h

/-- What every thread knows, and what the sweeps that are over have deleted. -/
structure Sound (c : VideoConfig) (s : Footage) : Prop where
  locked : Locked s
  known : ∀ i, Known c s (s.place i)
  swept : ∀ sweep e, (sweep, e) ∈ s.sweeps →
    (sweep.deleted, e) = removed sweep.now c.maintainSec c.vidPath sweep.dir sweep.refused

theorem Takes.known {p q : Place} (h : Takes p q) : Known c s q := by cases h <;> trivial

/-- The step of a thread, for the others: they are outside where it deletes. -/
theorem known_other {i : Nat} {a : WorkerAct} (h : Sound c s) (hr : Rule c s (.worker i a) s') {j : Nat} (hj : j ≠ i) :
    Known c s' (s'.place j) := by
  rw [hr.place_of_ne hj]
  cases hr.changes with
  | same _ hf hh => exact (h.known j).same hf hh
  | deleted hp _ _ _ _ _ =>
    apply known_outside
    by_contra hin
    rw [Bool.not_eq_false] at hin
    exact hj (h.locked.alone hp hin)

theorem known_self {i : Nat} {a : WorkerAct} (h : Sound c s) (hr : Rule c s (.worker i a) s') :
    Known c s' (s'.place i) := by
  have hi := h.known i
  cases hr with
  | move hm =>
    rw [goto_place, Function.update_self]
    exact (hi.move hm).same rfl rfl
  | take hm _ =>
    simp only [goto_place, Function.update_self]
    exact hm.known
  | give _ =>
    rw [release_place, goto_place, Function.update_self]
    trivial
  | erase hp hfile hturn =>
    rw [hp] at hi
    rw [goto_place, Function.update_self]
    exact hi.erase hfile hturn
  | swept _ _ =>
    simp only [release_place, goto_place, Function.update_self]
    trivial
  | throws _ _ _ =>
    simp only [goto_place, Function.update_self]
    trivial

theorem swept_worker {i : Nat} {a : WorkerAct} (h : Sound c s) (hr : Rule c s (.worker i a) s') (sweep : Sweep)
    (e : Option Thrown) (hmem : (sweep, e) ∈ s'.sweeps) :
    (sweep.deleted, e) = removed sweep.now c.maintainSec c.vidPath sweep.dir sweep.refused := by
  cases hr with
  | swept hp hend =>
    rcases List.mem_append.mp hmem with hmem | hmem
    · exact h.swept sweep e hmem
    · cases List.mem_singleton.mp hmem
      have hi := h.known i
      rw [hp, Known, List.drop_eq_nil_of_le hend, Uninterrupted, removeLoop, List.append_nil] at hi
      exact hi
  | throws hp hfile hturn =>
    rcases List.mem_append.mp hmem with hmem | hmem
    · exact h.swept sweep e hmem
    · cases List.mem_singleton.mp hmem
      have hi := h.known i
      rw [hp, Known, drop_of_getElem? hfile, Uninterrupted, removeLoop_cons, hturn, List.append_nil] at hi
      exact hi
  | _ => exact h.swept sweep e hmem

theorem sound_step {a : FootageAct} (h : Sound c s) (hr : Rule c s a s') : Sound c s' := by
  refine ⟨locked_step h.locked hr, ?_, ?_⟩
  · intro j
    cases a with
    | tick t =>
      cases hr
      exact (h.known j).same rfl rfl
    | record =>
      cases hr
      exact (h.known j).record
    | worker i a =>
      by_cases hj : j = i
      · exact hj ▸ known_self h hr
      · exact known_other h hr hj
  · cases a with
    | tick t =>
      cases hr
      exact h.swept
    | record =>
      cases hr
      exact h.swept
    | worker i a => exact swept_worker h hr

theorem sound_start (c : VideoConfig) (folder : Directory) (clock : Int) : Sound c (start folder clock) where
  locked := .of_free fun _ => rfl
  known _ := trivial
  swept := nofun

/-- The program starts, with any directory and at any time. -/
def Starts (s : Footage) : Prop := ∃ folder clock, s = start folder clock

theorem reach_sound {ok : Footage → FootageAct → Prop} (h : Reach Starts (step c) ok s) : Sound c s := by
  refine h.invariant (Sound c) ?_ ?_
  · rintro s ⟨folder, clock, rfl⟩
    exact sound_start c folder clock
  · intro s a s' hs _ hst
    exact sound_step hs (step_rule hst)

/-! ## What `_file_lock` is for -/

/-- **No file of a clip is deleted** while its pipeline reads it, whatever the recorder, other clips and the remove
thread do. -/
theorem clip_kept (h : Reach Starts (step c) (fun _ _ => True) s) {i : Nat} {timestamp begun : Int}
    {eventId : List Char} {concat : List FileName} {mark : Nat}
    (hp : s.place i = .clipping timestamp eventId concat mark begun) : ∀ name ∈ concat, (name, true) ∈ s.folder := by
  have hk := (reach_sound h).known i
  rw [hp] at hk
  exact hk

/-- A segment is recorded, and a minute later thread `0` makes a clip of it. -/
def clippingRun : List FootageAct :=
  [.record, .tick 1700000060, .worker 0 (.processVideo 1700000030 "door".toList), .worker 0 .lock,
    .worker 0 (.list fun _ => false), .worker 0 (.listed [.entry "1700000000.mp4".toList true])]

/-- More than the maintained time later thread `1` sweeps, and the recorder goes on. -/
def sweepingRun : List FootageAct :=
  clippingRun ++ [.worker 0 .finished, .tick 1700000200, .worker 1 .removeVideo, .worker 1 .lock,
    .worker 1 (.list fun _ => false), .worker 1 (.listed [.entry "1700000000.mp4".toList true]), .worker 1 .turn,
    .worker 1 .turn, .record]

/-- Thread `0` makes a clip of the new segment, and thread `1` would sweep again. -/
def busyRun : List FootageAct :=
  sweepingRun ++ [.tick 1700000260, .worker 0 (.processVideo 1700000230 "door".toList), .worker 0 .lock,
    .worker 0 (.list fun _ => false), .worker 0 (.listed [.entry "1700000200.mp4".toList true]),
    .worker 1 .removeVideo]

def footageStart : Footage := start [] 1700000000

theorem clip_kept_swept : ∃ s, run (step readmeConfig) footageStart busyRun = some s ∧ s.sweeps.length = 1 ∧
    ("1700000200.mp4".toList, true) ∈ s.folder :=
  ⟨_, rfl, rfl, clip_kept (.of_run (.init ⟨_, _, rfl⟩) (rfl : run (step readmeConfig) footageStart busyRun = some _))
    (i := 0) (rfl : _ = Place.clipping 1700000230 _ ["1700000200.mp4".toList] _ _) _ (List.mem_singleton_self _)⟩

/-- **A sweep is atomic.** Each `remove_video` that is over, interleaved as it was with the others, has deleted what an
uninterrupted call on its listing does, and has thrown what that does. -/
theorem sweep_atomic (h : Reach Starts (step c) (fun _ _ => True) s) {sweep : Sweep} {e : Option Thrown}
    (hmem : (sweep, e) ∈ s.sweeps) :
    sweep.deleted = (removed sweep.now c.maintainSec c.vidPath sweep.dir sweep.refused).1 ∧
      e = (removed sweep.now c.maintainSec c.vidPath sweep.dir sweep.refused).2 := by
  have hs := (reach_sound h).swept sweep e hmem
  rw [← hs]
  exact ⟨rfl, rfl⟩

def oldSweep : Sweep :=
  ⟨1700000200, [.entry "1700000000.mp4".toList true], fun _ => false, ["video/1700000000.mp4".toList]⟩

theorem sweep_atomic_one : ∃ s, run (step readmeConfig) footageStart sweepingRun = some s ∧
    oldSweep.deleted = (removed oldSweep.now 120 "video".toList oldSweep.dir oldSweep.refused).1 :=
  ⟨_, rfl, (sweep_atomic (.of_run (.init ⟨_, _, rfl⟩)
    (rfl : run (step readmeConfig) footageStart sweepingRun = some _))
    (List.mem_singleton_self (oldSweep, none))).1⟩

end Footage

end RpiCam.Video
