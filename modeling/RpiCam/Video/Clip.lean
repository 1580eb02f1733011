import Mathlib.Data.Finset.Sort
import Mathlib.Data.Int.ConditionallyCompleteOrder
import RpiCam.Video.Retention

/-!
# The clip of an event

A directory of segments is listed in an arbitrary order; what `process_video` joins does not depend on it.

* `Listing times dir` : a listing of the segments of these times, with whatever else is in the directory;
* `setFilename_listing` : `set_filename` gives the segments in the order of their times;
* `Meets` : the segment of a time has a second in the range of an event;
* `launched` : what is given to `gst_parse_launch`, and `processVideo_eq` what the call makes of it;
* `clip_exact` : the clip of an event.
-/

namespace RpiCam.Video

/-- A listing of a directory whose segments start at these times. -/
structure Listing (times : Finset Int) (dir : List Visit) : Prop where
  /-- Nothing throws. -/
  read : .fails ∉ dir
  nonneg : ∀ f ∈ times, 0 ≤ f
  segment : ∀ name, Segment dir name ↔ ∃ f ∈ times, name = timeName f

/-! ## The order of the segments -/

theorem nodup_listFiles {files fs : List FileName} {dir : List Visit} (hfiles : files.Nodup)
    (h : listFiles files dir = .ok fs) : fs.Nodup := by
  induction dir generalizing files with
  | nil =>
    cases h
    exact hfiles
  | cons v dir ih =>
    cases v with
    | fails => cases h
    | entry name r =>
      unfold listFiles at h
      split_ifs at h with hseg hmem
      · exact ih hfiles h
      · apply ih _ h
        rw [List.nodup_append]
        exact ⟨hfiles, List.nodup_singleton _, fun a ha b hb he => hmem (by simp_all)⟩
      · exact ih hfiles h

/-- The time by which `sort` compares a name. -/
def sortKey (name : FileName) : Int := (stoi name).toOption.getD 0

theorem sortKey_timeName {f : Int} (h : FitsInt f) : sortKey (timeName f) = f := by
  rw [sortKey, stoi_timeName h]
  rfl

theorem sorted_sortFiles {files fs : List FileName} (h : sortFiles files = .ok fs) :
    fs.Pairwise fun a b => sortKey a ≤ sortKey b := by
  unfold sortFiles at h
  split_ifs at h with hlen hall
  · cases h
    match files, hlen with
    | [], _ => exact List.Pairwise.nil
    | [a], _ => exact List.pairwise_singleton _ _
  · cases h
    have hsorted : (files.mergeSort fun a b => decide (sortKey a ≤ sortKey b)).Pairwise
        fun a b => decide (sortKey a ≤ sortKey b) = true := by
      apply List.pairwise_mergeSort
      · intro a b c hab hbc
        simp only [decide_eq_true_eq] at *
        omega
      · intro a b
        simp only [Bool.or_eq_true, decide_eq_true_eq]
        omega
    exact hsorted.imp fun hab => of_decide_eq_true hab

theorem setFilename_ordered {dir : List Visit} {fs : List FileName} (h : setFilename dir = .ok fs) :
    fs.Nodup ∧ fs.Pairwise fun a b => sortKey a ≤ sortKey b := by
  unfold setFilename at h
  cases hl : listFiles [] dir with
  | error e => rw [hl] at h; cases h
  | ok files =>
    rw [hl] at h
    exact ⟨(sortFiles_perm h).nodup_iff.mpr (nodup_listFiles List.nodup_nil hl), sorted_sortFiles h⟩

/-- **The segments in the order of their times**, whatever the listing. -/
theorem setFilename_listing {times : Finset Int} {dir : List Visit} (h : Listing times dir)
    (hint : ∀ f ∈ times, FitsInt f) :
    setFilename dir = .ok ((times.sort (· ≤ ·)).map timeName) := by
  have hread : Readable dir := by
    refine ⟨h.read, fun name hname => ?_⟩
    obtain ⟨f, hf, rfl⟩ := (h.segment name).mp hname
    exact isNumbered_iff.mpr ⟨f, stoi_timeName (hint f hf)⟩
  obtain ⟨fs, hfs⟩ := setFilename_of_readable hread
  have hmem : ∀ name, name ∈ fs ↔ ∃ f ∈ times, name = timeName f := by
    intro name
    rw [mem_setFilename hfs, h.segment]
  have hkey : ∀ name ∈ fs, timeName (sortKey name) = name := by
    intro name hname
    obtain ⟨f, hf, rfl⟩ := (hmem name).mp hname
    rw [sortKey_timeName (hint f hf)]
  -- the names are those of their keys, and the keys are the times in order
  have hnames : fs = (fs.map sortKey).map timeName := by
    rw [List.map_map]
    exact (List.map_congr_left hkey |>.trans (List.map_id _)).symm
  obtain ⟨hnodup, hsorted⟩ := setFilename_ordered hfs
  have hkeys : (fs.map sortKey).Nodup :=
    hnodup.map_on fun a ha b hb hab => by rw [← hkey a ha, ← hkey b hb, hab]
  have htimes : (fs.map sortKey).toFinset = times := by
    ext f
    rw [List.mem_toFinset, List.mem_map]
    constructor
    · rintro ⟨name, hname, rfl⟩
      obtain ⟨f, hf, rfl⟩ := (hmem name).mp hname
      rwa [sortKey_timeName (hint f hf)]
    · intro hf
      exact ⟨timeName f, (hmem _).mpr ⟨f, hf, rfl⟩, sortKey_timeName (hint f hf)⟩
  have hsort : times.sort (· ≤ ·) = fs.map sortKey := by
    rw [← htimes]
    exact (List.toFinset_sort (· ≤ ·) hkeys).mpr (List.pairwise_map.mpr hsorted)
  rw [hfs, hsort, ← hnames]

/-! ## The segments of an event -/

/-- The segment of `L` seconds that starts at `f` has a second at most the duration away from `t`. -/
def Meets (c : VideoConfig) (L t f : Int) : Prop :=
  ∃ s, f ≤ s ∧ s ≤ f + L - 1 ∧ t - c.duration ≤ s ∧ s ≤ t + c.duration

/-- `split_time` of `process_video`, line 65. -/
def splitSeconds (c : VideoConfig) : Int := c.splitTimeNs.tdiv 1000000000

/-- Where nothing overflows, the two comparisons of line 92 find the common seconds. -/
theorem overlaps_iff_meets {c : VideoConfig} {t f : Int} (hL : 1 ≤ splitSeconds c) (hD : 0 ≤ c.duration)
    (hstart : FitsInt (t - c.duration)) (hend : FitsInt (t + c.duration))
    (hlast : FitsInt (f + splitSeconds c - 1)) :
    overlaps c t f ↔ Meets c (splitSeconds c) t f := by
  unfold overlaps
  simp only [show c.splitTimeNs.tdiv 1000000000 = splitSeconds c from rfl, wrapInt_of_fits hstart,
    wrapInt_of_fits hend, wrapInt_of_fits hlast, Bool.and_eq_true, decide_eq_true_eq]
  constructor
  · rintro ⟨hle, hge⟩
    exact ⟨max f (t - c.duration), by omega, by omega, by omega, by omega⟩
  · rintro ⟨s, h1, h2, h3, h4⟩
    exact ⟨by omega, by omega⟩

theorem concatFile_times (c : VideoConfig) (t : Int) {times : List Int} (hint : ∀ f ∈ times, FitsInt f) :
    concatFile c t (times.map timeName) = .ok ((times.filter fun f => overlaps c t f).map timeName) := by
  induction times with
  | nil => rfl
  | cons f times ih =>
    rw [List.forall_mem_cons] at hint
    rw [List.map_cons, concatFile, stoi_upToDot, stoi_timeName hint.1, ih hint.2, List.filter_cons]
    by_cases ho : overlaps c t f = true
    · simp only [ho, if_true, List.map_cons]
    · simp only [ho, if_false, Bool.false_eq_true]

/-- What the call gives to `gst_parse_launch`, line 115. It gives nothing if it throws or finds no segment. -/
def launched (c : VideoConfig) (timestamp : Int) (eventId : List Char) (dir : List Visit) : Option (List Char) :=
  match selected c timestamp dir with
  | .error _ => none
  | .ok concat => if concat = [] then none else some (pipeline c eventId concat)

/-- GStreamer is asked about this text only. -/
theorem processVideo_eq (c : VideoConfig) (timestamp : Int) (eventId : List Char) (dir : List Visit) (gst : Gst) :
    processVideo c .free timestamp eventId dir gst =
      match launched c timestamp eventId dir, selected c timestamp dir with
      | none, .error e => (.kept, .threw e)
      | none, .ok _ => (.free, .returned (-1))
      | some text, _ =>
        if !gst.parses text then (.free, .returned (-1))
        else if !gst.plays then (.free, .returned (-1))
        else if busLoop gst.bus then (.free, .returned 0)
        else (.kept, .running) := by
  unfold processVideo launched
  rw [if_neg (by decide)]
  cases selected c timestamp dir with
  | error e => rfl
  | ok concat =>
    by_cases hnone : concat = []
    · simp only [hnone, if_true]
    · simp only [hnone, if_false]

/-- **The clip of an event is exact and in order.** -/
theorem clip_exact {c : VideoConfig} {t : Int} {times : Finset Int} {dir : List Visit} (hL : 1 ≤ splitSeconds c)
    (hD : 0 ≤ c.duration) (hstart : FitsInt (t - c.duration)) (hend : FitsInt (t + c.duration))
    (hlast : ∀ f ∈ times, FitsInt (f + splitSeconds c - 1)) (hdir : Listing times dir) (eventId : List Char)
    (gst : Gst) :
    ∃ clip : List Int,
      (∀ f, f ∈ clip ↔ f ∈ times ∧ Meets c (splitSeconds c) t f) ∧
      clip.Pairwise (· < ·) ∧
      (∀ dir', Listing times dir' → selected c t dir' = .ok (clip.map timeName)) ∧
      launched c t eventId dir = (if clip = [] then none else some (pipeline c eventId (clip.map timeName))) ∧
      (processVideo c .free t eventId dir gst = (.free, .returned (-1)) ∧ launched c t eventId dir = none ↔
        clip = []) := by
  have hint : ∀ f ∈ times, FitsInt f := by
    intro f hf
    have h0 := hdir.nonneg f hf
    have h1 := hlast f hf
    unfold FitsInt at *
    omega
  have hselected : ∀ dir', Listing times dir' →
      selected c t dir' = .ok ((times.sort.filter fun f => overlaps c t f).map timeName) := by
    intro dir' hdir'
    rw [selected, setFilename_listing hdir' hint]
    exact concatFile_times c t fun f hf => hint f ((Finset.mem_sort _).mp hf)
  refine ⟨times.sort.filter fun f => overlaps c t f, ?_, ?_, hselected, ?_, ?_⟩
  · intro f
    rw [List.mem_filter, Finset.mem_sort]
    constructor
    · rintro ⟨hf, ho⟩
      exact ⟨hf, (overlaps_iff_meets hL hD hstart hend (hlast f hf)).mp ho⟩
    · rintro ⟨hf, hm⟩
      exact ⟨hf, (overlaps_iff_meets hL hD hstart hend (hlast f hf)).mpr hm⟩
  · exact (Finset.sortedLT_sort times).pairwise.filter _
  · rw [launched, hselected dir hdir]
    simp only [List.map_eq_nil_iff]
  · rw [processVideo_eq, launched, hselected dir hdir]
    by_cases hnone : (times.sort.filter fun f => overlaps c t f) = []
    · simp [hnone]
    · simp [hnone]

/-- Two segments, the directory of the events and a file. -/
def fourEntries : List Visit :=
  [.entry "1700000000.mp4".toList true, .entry "event".toList false, .entry "notes.txt".toList true,
    .entry "1699999879.mp4".toList true]

theorem listing_fourEntries : Listing {1699999879, 1700000000} fourEntries where
  read := by decide
  nonneg := by decide
  segment := by
    intro name
    have h2 : isSegment "event".toList false = false := by decide
    have h3 : isSegment "notes.txt".toList true = false := by decide +kernel
    have hf : "1699999879.mp4".toList = timeName 1699999879 := by decide +kernel
    have hg : "1700000000.mp4".toList = timeName 1700000000 := by decide +kernel
    simp only [fourEntries, segment_cons, h2, h3, hf, hg, isSegment_timeName, Bool.false_eq_true, true_and, false_and,
      false_or, segment_nil, or_false, Finset.mem_insert, Finset.mem_singleton, exists_eq_or_imp, exists_eq_left]
    exact or_comm

theorem clip_exact_two : ∃ clip : List Int,
    (∀ f, f ∈ clip ↔ f ∈ ({1699999879, 1700000000} : Finset Int) ∧
      Meets (twoMinutes 2 (by decide)) 2 1700000000 f) ∧
    clip.Pairwise (· < ·) ∧
    selected (twoMinutes 2 (by decide)) 1700000000 fourEntries = .ok (clip.map timeName) := by
  obtain ⟨clip, hmem, hsorted, hselected, -⟩ := clip_exact (c := twoMinutes 2 (by decide)) (t := 1700000000)
    (by decide) (by decide) (by decide) (by decide) (by decide) listing_fourEntries "e".toList
    { parses := fun _ => true, plays := true, bus := [some .eos] }
  exact ⟨clip, hmem, hsorted, hselected _ listing_fourEntries⟩

end RpiCam.Video
