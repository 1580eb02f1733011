import RpiCam.Lib.Transition
import RpiCam.Video.Handler

/-!
# The lock of the video files

`process_video` and `remove_video` take `_file_lock` at their start and give it back before each of their returns. An
exception passes them by.

* `VideoCall` : a call of either, with the directory and the outcomes it meets;
* `VideoCall.Clean` : nothing throws in it;
* `step` : a call that ends, from one state of the lock to the next;
* `step_kept`, `step_free` : no call ends where the lock is kept, and one that ends leaves it free where it is clean;
* `file_lock_released` : the lock after any calls.
-/

namespace RpiCam.Video

open Transition

inductive VideoCall
  | processVideo (timestamp : Int) (eventId : List Char) (dir : List Visit) (gst : Gst)
  | removeVideo (now maintainTime : Int) (path : List Char) (dir : List Visit) (refused : List Char → Bool)

/-- `_file_lock` after a call, and what the call comes to. -/
def VideoCall.make (c : VideoConfig) (lock : FileLock) : VideoCall → FileLock × Outcome
  | .processVideo timestamp eventId dir gst => Video.processVideo c lock timestamp eventId dir gst
  | .removeVideo now maintainTime path dir refused => Video.removeVideo lock now maintainTime path dir refused

/-- A call that has returned or thrown. -/
def Outcome.ended : Outcome → Bool
  | .blocked | .running => false
  | .threw _ | .returned _ => true

/-- The directory can be read, each segment has a number for its name, and each removal succeeds. -/
def VideoCall.Clean : VideoCall → Prop
  | .processVideo _ _ dir _ => Readable dir
  | .removeVideo now maintainTime path dir refused =>
    Readable dir ∧ ∀ name, Segment dir name → ¬ Stuck (cutoff now maintainTime) path refused name

/-- A call that ends, and `_file_lock` afterwards. -/
def step (c : VideoConfig) (lock : FileLock) (k : VideoCall) : Option FileLock :=
  if (k.make c lock).2.ended then some (k.make c lock).1 else none

/-! ## One call -/

theorem make_kept (c : VideoConfig) (k : VideoCall) : k.make c .kept = (.kept, .blocked) := by
  cases k with
  | processVideo => rfl
  | removeVideo => rfl

/-- Where the lock is kept every call waits. -/
theorem step_kept (c : VideoConfig) (k : VideoCall) : step c .kept k = none := by
  rw [step, make_kept]
  rfl

theorem make_free_ne_blocked (c : VideoConfig) (k : VideoCall) : (k.make c .free).2 ≠ .blocked := by
  cases k with
  | processVideo timestamp eventId dir gst =>
    simp only [VideoCall.make, processVideo, reduceCtorEq, if_false]
    split
    · simp
    · split_ifs <;> simp
  | removeVideo now maintainTime path dir refused =>
    simp only [VideoCall.make, removeVideo, reduceCtorEq, if_false]
    split <;> simp

theorem make_unclean {c : VideoConfig} {k : VideoCall} (h : ¬ k.Clean) : ∃ e, k.make c .free = (.kept, .threw e) := by
  cases k with
  | processVideo timestamp eventId dir gst =>
    have hnone : ¬ ∃ fs, selected c timestamp dir = .ok fs := fun hok => h ((selected_ok_iff c timestamp dir).mp hok)
    cases hsel : selected c timestamp dir with
    | error e =>
      simp only [VideoCall.make, processVideo, hsel]
      exact ⟨e, rfl⟩
    | ok fs => exact absurd ⟨fs, hsel⟩ hnone
  | removeVideo now maintainTime path dir refused =>
    have hsome : (removed now maintainTime path dir refused).2 ≠ none := fun hnone =>
      h ((removed_ok_iff now maintainTime path dir refused).mp hnone)
    obtain ⟨e, he⟩ := Option.ne_none_iff_exists'.mp hsome
    simp only [VideoCall.make, removeVideo, he]
    exact ⟨e, rfl⟩

/-- A clean call throws nothing, and keeps the lock only where it waits for its pipeline for ever. -/
theorem make_clean {c : VideoConfig} {k : VideoCall} (h : k.Clean) :
    k.make c .free = (.kept, .running) ∨ ∃ ret, k.make c .free = (.free, .returned ret) := by
  cases k with
  | processVideo timestamp eventId dir gst =>
    obtain ⟨fs, hfs⟩ := (selected_ok_iff c timestamp dir).mpr h
    simp only [VideoCall.make, processVideo, hfs, reduceCtorEq, if_false]
    split_ifs <;> simp
  | removeVideo now maintainTime path dir refused =>
    have hnone := (removed_ok_iff now maintainTime path dir refused).mpr h
    simp only [VideoCall.make, removeVideo, hnone]
    exact Or.inr ⟨0, rfl⟩

/-- **One call that ends.** -/
theorem step_free {c : VideoConfig} {k : VideoCall} {lock : FileLock} (h : step c .free k = some lock) :
    lock = .free ↔ k.Clean := by
  unfold step at h
  by_cases hk : k.Clean
  · rcases make_clean (c := c) hk with hm | ⟨ret, hm⟩
    · rw [hm] at h
      cases h
    · rw [hm] at h
      cases h
      exact ⟨fun _ => hk, fun _ => rfl⟩
  · obtain ⟨e, hm⟩ := make_unclean (c := c) hk
    rw [hm] at h
    cases h
    exact ⟨fun he => FileLock.noConfusion he, fun hc => absurd hc hk⟩

/-! ## Sequences of calls -/

theorem run_kept {c : VideoConfig} {ks : List VideoCall} {lock : FileLock} (h : run (step c) .kept ks = some lock) :
    ks = [] ∧ lock = .kept := by
  cases ks with
  | nil =>
    cases h
    exact ⟨rfl, rfl⟩
  | cons k ks =>
    rw [run_cons, step_kept] at h
    cases h

theorem step_ne_held {c : VideoConfig} {k : VideoCall} {lock : FileLock} (h : step c .free k = some lock) :
    lock = .free ∨ lock = .kept := by
  unfold step at h
  by_cases hk : k.Clean
  · rcases make_clean (c := c) hk with hm | ⟨ret, hm⟩ <;> rw [hm] at h <;> cases h
    exact Or.inl rfl
  · obtain ⟨e, hm⟩ := make_unclean (c := c) hk
    rw [hm] at h
    cases h
    exact Or.inr rfl

/-- After calls that end, the lock is free where all of them were clean, and else kept. -/
theorem run_free_iff {c : VideoConfig} {ks : List VideoCall} {lock : FileLock} (h : run (step c) .free ks = some lock) :
    (lock = .free ↔ ∀ k ∈ ks, k.Clean) ∧ (lock = .free ∨ lock = .kept) := by
  induction ks with
  | nil =>
    cases h
    simp
  | cons k ks ih =>
    rw [run_cons, Option.bind_eq_some_iff] at h
    obtain ⟨after, hk, hks⟩ := h
    have hfree := step_free hk
    rw [List.forall_mem_cons, ← hfree]
    rcases step_ne_held hk with rfl | rfl
    · obtain ⟨hiff, hor⟩ := ih hks
      exact ⟨by simp [hiff], hor⟩
    · -- the first call keeps the lock, so it is the last one
      obtain ⟨rfl, rfl⟩ := run_kept hks
      simp

/-- **The lock is released by all calls that end, and no later call waits for it for ever, exactly where each call meets
a directory it can read, names that are numbers, and no refused removal.** -/
theorem file_lock_released {c : VideoConfig} {ks : List VideoCall} {lock : FileLock}
    (h : run (step c) .free ks = some lock) :
    (lock = .free ↔ ∀ k ∈ ks, k.Clean) ∧
      ∀ k : VideoCall, (k.make c lock).2 = .blocked ↔ ∃ j ∈ ks, ¬ j.Clean := by
  obtain ⟨hiff, hor⟩ := run_free_iff h
  refine ⟨hiff, fun k => ?_⟩
  have hex : (∃ j ∈ ks, ¬ j.Clean) ↔ ¬ lock = .free := by
    rw [hiff]
    simp only [not_forall, exists_prop]
  rw [hex]
  rcases hor with rfl | rfl
  · simp [make_free_ne_blocked]
  · simp [make_kept]

/-- The settings of the README. -/
def readmeConfig : VideoConfig where
  splitTime := 40
  duration := 120
  maintainSec := 120
  vidPath := "video".toList
  fits := by decide

/-- A retention run over a directory whose removals succeed. -/
def retentionRun (dir : List Visit) : VideoCall := .removeVideo 1700000100 120 "video".toList dir fun _ => false

/-- A clip of the segments around an event, whose pipeline comes to its end. -/
def clipCall (timestamp : Int) (dir : List Visit) : VideoCall :=
  .processVideo timestamp "door".toList dir ⟨fun _ => true, true, [none, some .eos]⟩

/-- A segment that is older than two minutes, and a later one. -/
def twoSegments : List Visit :=
  [.entry "1699999960.mp4".toList true, .entry "event".toList false, .entry "1700000000.mp4".toList true]

/-- A clip is made of both segments, the older one is removed, and a clip is made of the other. -/
def numberedCalls : List VideoCall :=
  [clipCall 1700000010 twoSegments, retentionRun twoSegments, clipCall 1700000100 twoSegments.tail]

theorem setFilename_twoSegments : setFilename twoSegments = .ok ["1699999960.mp4".toList, "1700000000.mp4".toList] := by
  have hlist : listFiles [] twoSegments = .ok ["1699999960.mp4".toList, "1700000000.mp4".toList] := by decide +kernel
  rw [setFilename, hlist]
  dsimp only
  rw [sortFiles, List.mergeSort_of_pairwise (by decide +kernel)]
  decide +kernel

theorem run_numberedCalls : run (step readmeConfig) .free numberedCalls = some .free := by
  have hfirst : step readmeConfig .free (clipCall 1700000010 twoSegments) = some .free := by
    simp only [step, clipCall, VideoCall.make, processVideo, selected, setFilename_twoSegments]
    decide +kernel
  have hremove : step readmeConfig .free (retentionRun twoSegments) = some .free := by
    simp only [step, retentionRun, VideoCall.make, removeVideo, removed, setFilename_twoSegments]
    decide +kernel
  rw [numberedCalls, run_cons, hfirst, Option.bind_some, run_cons, hremove]
  decide +kernel

theorem file_lock_released_numbered :
    (removed 1700000100 120 "video".toList twoSegments fun _ => false).1 = ["video/1699999960.mp4".toList] ∧
      (∀ k ∈ numberedCalls, k.Clean) ∧ ∀ k : VideoCall, (k.make readmeConfig .free).2 ≠ .blocked := by
  have h := file_lock_released run_numberedCalls
  have hclean := h.1.mp rfl
  refine ⟨?_, hclean, fun k hblocked => ?_⟩
  · rw [removed, setFilename_twoSegments]
    decide +kernel
  · obtain ⟨j, hj, hunclean⟩ := (h.2 k).mp hblocked
    exact hunclean (hclean j hj)

theorem kept_lock : step readmeConfig .free (retentionRun [.entry "notes.mp4".toList true]) = some .kept ∧
    ∀ k : VideoCall, k.make readmeConfig .kept = (.kept, .blocked) := by
  constructor
  · decide +kernel
  · exact make_kept readmeConfig

end RpiCam.Video
