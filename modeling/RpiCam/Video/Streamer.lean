import RpiCam.Lib.TreeChanges
import RpiCam.Video.Clip

/-!
# What the streamer records

The pipeline of the streamer cuts the video into segments, each as long as `split_time()` says, and names each by the
time at which it begins. `VideoHandler` computes with the same length and reads the same names.

* `createPipeline`, `formatLocation` : the text of the pipeline, and the path of a segment;
* `SplitTimeKept` : both uses of the configured length are of that length, `split_time_iff` : where this is so;
* `recordAll` : the tree after segments of some times are recorded;
* `Lists fs cwd s dir` : what an iteration over the directory `s` may find;
* `RoundTrip` : what is recorded is found again, in order, `round_trip_iff` : where this is so.
-/

namespace RpiCam.Video

/-! ## The length of a segment -/

/-- `createPipeline`, with the width, the height, the frame rate and the format of the settings. -/
def createPipeline (width height : Int) (frameRate format : List Char) (c : VideoConfig) : List Char :=
  "( appsrc name=stream_src is-live=true format=time caps=video/x-raw,width=".toList ++ intText width ++
    ",height=".toList ++ intText height ++ ",framerate=".toList ++ frameRate ++ ",format=".toList ++ format ++
    " ! tee name=t ! queue ! videoconvert ! x264enc speed-preset=ultrafast tune=fastdecode ! ".toList ++
    "video/x-h264,profile=high ! rtph264pay config-interval=1 name=pay0 pt=96 ".toList ++
    "t. ! queue ! videoconvert ! x264enc speed-preset=ultrafast tune=fastdecode ! ".toList ++
    ("splitmuxsink name=muxsink max-size-time=".toList ++ intText c.splitTimeNs ++ " )".toList)

/-- The configured seconds are those of the recorder and those of the clips. -/
structure SplitTimeKept (c : VideoConfig) : Prop where
  /-- The product of line 85 is an `int`. -/
  fits : FitsInt (c.splitTime * 10 ^ 9)
  ns : c.splitTimeNs = c.splitTime * 10 ^ 9
  seconds : splitSeconds c = c.splitTime
  muxsink : ∀ width height frameRate format,
    "splitmuxsink name=muxsink max-size-time=".toList ++ intText (c.splitTime * 10 ^ 9) ++ " )".toList <:+
      createPipeline width height frameRate format c
  clip : ∀ t f, 0 ≤ c.duration → FitsInt (t - c.duration) → FitsInt (t + c.duration) →
    FitsInt (f + c.splitTime - 1) → (overlaps c t f ↔ Meets c c.splitTime t f)

theorem splitSeconds_of_fits {c : VideoConfig} (h : FitsInt (c.splitTime * 10 ^ 9)) :
    splitSeconds c = c.splitTime := by
  rw [splitSeconds, VideoConfig.splitTimeNs, wrapInt_of_fits h]
  exact Int.mul_tdiv_cancel _ (by decide)

/-- **The configured length of a segment is kept** up to two seconds. -/
theorem split_time_iff {c : VideoConfig} (h1 : 1 ≤ c.splitTime) : SplitTimeKept c ↔ c.splitTime ≤ 2 := by
  constructor
  · intro h
    have := h.fits
    unfold FitsInt at this
    omega
  · intro h2
    have hfits : FitsInt (c.splitTime * 10 ^ 9) := by
      unfold FitsInt
      omega
    have hns : c.splitTimeNs = c.splitTime * 10 ^ 9 := wrapInt_of_fits hfits
    have hseconds := splitSeconds_of_fits hfits
    refine ⟨hfits, hns, hseconds, ?_, ?_⟩
    · intro width height frameRate format
      unfold createPipeline
      rewrite [hns]
      exact List.suffix_append _ _
    · intro t f hD hstart hend hlast
      rw [← hseconds] at hlast h1 ⊢
      exact overlaps_iff_meets h1 hD hstart hend hlast

theorem split_time_two : SplitTimeKept (twoMinutes 2 (by decide)) :=
  (split_time_iff (by decide)).mpr (by decide)

/-- Forty seconds are a nanosecond count that is no `int`: the recorder cuts after a little more than one second, and
the clips are chosen as if it were one. -/
theorem forty_seconds : ∃ h : FitsInt 40, (twoMinutes 40 h).splitTimeNs = 1345294336 ∧
    splitSeconds (twoMinutes 40 h) = 1 ∧ ¬ SplitTimeKept (twoMinutes 40 h) := by
  refine ⟨by decide, by decide, by decide, fun h => ?_⟩
  have := h.fits
  revert this
  decide

/-! ## The names of the segments -/

open FileSystem

/-- `format_location_callback` at the time `t`. The directory is not that of the settings. -/
def formatLocation (t : Int) : List Char := "video/".toList ++ intText t ++ ".mp4".toList

/-- A segment that begins at `t` and is written whole. -/
def record (footage : Int → List Char) (cwd : Path) (fs : FileSystem) (t : Int) : FileSystem :=
  match fs.openFile false cwd (formatLocation t) true with
  | none => fs
  | some (q, fs') => fs'.writeFile q (footage t)

def recordAll (footage : Int → List Char) (cwd : Path) (fs : FileSystem) (times : List Int) : FileSystem :=
  times.foldl (record footage cwd) fs

/-- The directory that a path string opens. -/
def directoryAt (fs : FileSystem) (cwd : Path) (s : List Char) : Option Path :=
  if cStr s = [] then none else fs.walkDir cwd (components s)

/-- What a `directory_iterator` makes of an entry. `followed` says whether a link leads to a regular file, or that its
status throws. -/
def visitOf (followed : FileName → Option Bool) (name : FileName) : Node → Visit
  | .dir => .entry name false
  | .file _ => .entry name true
  | .link _ => match followed name with
    | none => .fails
    | some isRegularFile => .entry name isRegularFile

/-- An iteration over the directory `s`, in any order. -/
def Lists (fs : FileSystem) (cwd : Path) (s : List Char) (dir : List Visit) : Prop :=
  match directoryAt fs cwd s with
  | none => dir = [.fails]
  | some p => ∃ (followed : FileName → Option Bool) (entries : List (FileName × Node)),
    (∀ name node, (name, node) ∈ entries ↔ fs.entry (p ++ [name]) = some node) ∧
      dir = entries.map fun e => visitOf followed e.1 e.2

/-- A directory without links and without segments. -/
structure Unused (fs : FileSystem) (p : Path) : Prop where
  finite : ∃ names : List FileName, ∀ name, fs.entry (p ++ [name]) ≠ none → name ∈ names
  free : ∀ name node, fs.entry (p ++ [name]) = some node →
    extension name ≠ ['.', 'm', 'p', '4'] ∧ ∀ target, node ≠ .link target

/-- Each segment recorded is found under `savePath`, in the order of the times, and its name is read as its time by
`process_video` and by `remove_video`. -/
def RoundTrip (footage : Int → List Char) (fs : FileSystem) (cwd : Path) (savePath : List Char) (times : List Int) :
    Prop :=
  ∀ t ∈ times, stoi (upToDot (timeName t)) = .ok t ∧
    ∀ dir, Lists (recordAll footage cwd fs times) cwd savePath dir → setFilename dir = .ok (times.map timeName)

/-- `savePath` leads to the directory that the recorder writes to. -/
def SameDirectory (fs : FileSystem) (cwd : Path) (savePath : List Char) : Prop :=
  ∃ p, directoryAt fs cwd savePath = some p ∧ directoryAt fs cwd "video".toList = some p

theorem timeName_eq (t : Int) : timeName t = intText t ++ ['.', 'm', 'p', '4'] := rfl

theorem extension_timeName (t : Int) : extension (timeName t) = ['.', 'm', 'p', '4'] := by
  have := isSegment_timeName t
  simpa [isSegment] using this

theorem notMem_intText {c : Char} (hc : c.isDigit = false) (hdash : c ≠ '-') (t : Int) : c ∉ intText t := by
  intro h
  unfold intText at h
  split_ifs at h
  · rw [isDigit_toDigits h] at hc
    cases hc
  · rcases List.mem_cons.mp h with h | h
    · exact hdash h
    · rw [isDigit_toDigits h] at hc
      cases hc

theorem components_formatLocation (t : Int) : components (formatLocation t) = ["video".toList, timeName t] := by
  have hslash : '/' ∉ timeName t := by
    rw [timeName_eq, List.mem_append, not_or]
    exact ⟨notMem_intText rfl (by decide) t, by decide⟩
  have hnul : '\x00' ∉ timeName t := by
    rw [timeName_eq, List.mem_append, not_or]
    exact ⟨notMem_intText rfl (by decide) t, by decide⟩
  rw [show formatLocation t = "video".toList ++ '/' :: timeName t from rfl, components_cons (by decide) (by decide),
    components_single hnul hslash]

theorem ordinary_timeName (t : Int) : Ordinary (timeName t) := by
  have hlen : 4 ≤ (timeName t).length := by
    rw [timeName_eq, List.length_append]
    exact Nat.le_add_left _ _
  refine ⟨fun h => ?_, ?_⟩
  · rw [h] at hlen
    simp at hlen
  · rw [isDot, Bool.or_eq_false_iff, beq_eq_false_iff_ne, beq_eq_false_iff_ne]
    constructor <;> · intro h; rw [h] at hlen; simp at hlen

/-! ## The tree of the recorded segments -/

variable {footage : Int → List Char} {fs fs' : FileSystem} {cwd p : Path} {savePath : List Char} {times : List Int}

theorem directoryAt_video : directoryAt fs cwd "video".toList = fs.walkDir cwd ["video".toList] := rfl

theorem record_none (h : directoryAt fs cwd "video".toList = none) (t : Int) : record footage cwd fs t = fs := by
  have hopen : fs.openAt cwd (formatLocation t) = none := by
    unfold openAt
    rw [components_formatLocation, Option.bind_eq_none_iff]
    intro q hq
    have hparts : fs.walk maxLinks cwd (["video".toList] ++ timeName t :: []) = some q := hq
    obtain ⟨p, hp⟩ := walkDir_of_append hparts
    rw [directoryAt_video, hp] at h
    cases h
  simp only [record, openFile, hopen, Bool.false_eq_true, if_false, Option.map_none]

variable (footage) in
theorem record_entry (h : directoryAt fs cwd "video".toList = some p) (t : Int)
    (hfree : ∀ node, fs.entry (p ++ [timeName t]) = some node → ∃ c, node = .file c) (x : Path) :
    (record footage cwd fs t).entry x =
      if x = p ++ [timeName t] then some (.file (footage t)) else fs.entry x := by
  have hdir := (walkDir_eq_some.mp h).2
  have hnotDir : fs.entry (p ++ [timeName t]) ≠ some .dir := by
    intro he
    obtain ⟨c, hc⟩ := hfree _ he
    cases hc
  have hwalk : fs.walk maxLinks cwd ["video".toList, timeName t] = some (p ++ [timeName t]) := by
    show fs.walk maxLinks cwd (["video".toList] ++ [timeName t]) = some (p ++ [timeName t])
    apply walk_child (ordinary_timeName t) h
    intro target he
    obtain ⟨c, hc⟩ := hfree _ he
    cases hc
  have hopen : fs.openAt cwd (formatLocation t) = some (p ++ [timeName t]) := by
    rw [openAt, components_formatLocation, hwalk, Option.bind_some, if_neg hnotDir]
  have hcreate : fs.create (p ++ [timeName t]) true = fs.put (p ++ [timeName t]) (.file []) := rfl
  have hput := entry_put fs hdir hnotDir (.file [])
  have hself := hput (p ++ [timeName t])
  rw [if_pos rfl] at hself
  have hp : (fs.put (p ++ [timeName t]) (.file [])).entry p = some .dir := by
    rw [hput, if_neg (by simp), hdir]
  simp only [record, openFile, hopen, hcreate, Bool.false_eq_true, if_false, Option.map_some]
  rw [writeFile, content, hself]
  show ((fs.put (p ++ [timeName t]) (.file [])).put _ (.file ([] ++ footage t))).entry x = _
  rw [entry_put _ hp (by rw [hself]; simp), hput]
  split_ifs <;> rfl

/-- The tree `fs'` is `fs` with segments of these times in the directory `p`. -/
structure Recorded (fs : FileSystem) (p : Path) (times : List Int) (fs' : FileSystem) : Prop where
  file : ∀ t ∈ times, ∃ c, fs'.entry (p ++ [timeName t]) = some (.file c)
  other : ∀ x, (∀ t ∈ times, x ≠ p ++ [timeName t]) → fs'.entry x = fs.entry x

namespace Recorded

/-- Where a segment of a time is, or can be put, there is nothing or a file. -/
theorem node_file (h : Recorded fs p times fs') (hu : Unused fs p) {t : Int} {node : Node}
    (hn : fs'.entry (p ++ [timeName t]) = some node) : ∃ c, node = .file c := by
  by_cases hr : ∃ s ∈ times, timeName s = timeName t
  · obtain ⟨s, hs, he⟩ := hr
    obtain ⟨c, hc⟩ := h.file s hs
    rw [he, hn] at hc
    exact ⟨c, Option.some.inj hc⟩
  · rw [h.other _ fun s hs he => hr ⟨s, hs, by simpa using he.symm⟩] at hn
    exact absurd (extension_timeName t) (hu.free _ _ hn).1

theorem keeps (h : Recorded fs p times fs') (hu : Unused fs p) : Keeps fs fs' ∧ Keeps fs' fs := by
  constructor
  · intro q node hq hnode
    rw [h.other q ?_]
    · exact hq
    · rintro t - rfl
      exact (hu.free _ _ hq).1 (extension_timeName t)
  · intro q node hq hnode
    rw [← h.other q ?_]
    · exact hq
    · rintro t - rfl
      obtain ⟨c, hc⟩ := h.node_file hu hq
      exact hnode c hc

theorem directoryAt_eq (h : Recorded fs p times fs') (hu : Unused fs p) (cwd : Path) (s : List Char) :
    directoryAt fs' cwd s = directoryAt fs cwd s := by
  unfold directoryAt
  split_ifs
  · rfl
  · apply Option.ext
    intro q
    exact ⟨walkDir_keeps (h.keeps hu).2, walkDir_keeps (h.keeps hu).1⟩

theorem record (h : Recorded fs p times fs') (hu : Unused fs p) (hv : directoryAt fs cwd "video".toList = some p)
    (t : Int) : Recorded fs p (times ++ [t]) (record footage cwd fs' t) := by
  have hentry := record_entry footage ((h.directoryAt_eq hu cwd _).trans hv) t fun _ => h.node_file hu
  constructor
  · intro s hs
    rw [hentry]
    split_ifs with he
    · exact ⟨_, rfl⟩
    · rcases List.mem_append.mp hs with hs | hs
      · exact h.file s hs
      · exact absurd (by rw [List.mem_singleton.mp hs]) he
  · intro x hx
    rw [hentry, if_neg (hx t (by simp))]
    exact h.other x fun s hs => hx s (List.mem_append_left _ hs)

end Recorded

theorem recordAll_concat (times : List Int) (t : Int) :
    recordAll footage cwd fs (times ++ [t]) = record footage cwd (recordAll footage cwd fs times) t :=
  List.foldl_append ..

theorem recordAll_recorded (hv : directoryAt fs cwd "video".toList = some p) (hu : Unused fs p) (times : List Int) :
    Recorded fs p times (recordAll footage cwd fs times) := by
  induction times using List.reverseRecOn with
  | nil => exact ⟨by simp, fun _ _ => rfl⟩
  | append_singleton times t ih =>
    rw [recordAll_concat]
    exact ih.record hu hv t

theorem recordAll_none (hv : directoryAt fs cwd "video".toList = none) (times : List Int) :
    recordAll footage cwd fs times = fs := by
  induction times using List.reverseRecOn with
  | nil => rfl
  | append_singleton times t ih => rw [recordAll_concat, ih, record_none hv]

/-! ## The listing of the recorded segments -/

theorem exists_lists {s : List Char} (hfin : ∀ p, directoryAt fs cwd s = some p →
    ∃ names : List FileName, ∀ name, fs.entry (p ++ [name]) ≠ none → name ∈ names) : ∃ dir, Lists fs cwd s dir := by
  unfold Lists
  cases hp : directoryAt fs cwd s with
  | none => exact ⟨_, rfl⟩
  | some p =>
    obtain ⟨names, hnames⟩ := hfin p hp
    refine ⟨_, fun _ => none, names.filterMap fun name => (fs.entry (p ++ [name])).map fun node => (name, node), ?_, rfl⟩
    intro name node
    simp only [List.mem_filterMap, Option.map_eq_some_iff, Prod.mk.injEq]
    constructor
    · rintro ⟨_, -, node', hnode, rfl, rfl⟩
      exact hnode
    · intro hnode
      exact ⟨name, hnames name (by rw [hnode]; exact Option.some_ne_none _), node, hnode, rfl, rfl⟩

theorem entry_of_segment {s : List Char} {dir : List Visit} {name : FileName} (h : Lists fs cwd s dir)
    (hp : directoryAt fs cwd s = some p) (hname : Segment dir name) : fs.entry (p ++ [name]) ≠ none := by
  unfold Lists at h
  rw [hp] at h
  obtain ⟨followed, entries, hentries, rfl⟩ := h
  obtain ⟨r, -, hmem⟩ := hname
  obtain ⟨⟨n, node⟩, he, hvisit⟩ := List.mem_map.mp hmem
  have hn : n = name := by
    cases node with
    | dir | file => cases hvisit; rfl
    | link target =>
      simp only [visitOf] at hvisit
      split at hvisit <;> cases hvisit
      rfl
  rw [← hn, (hentries n node).mp he]
  exact Option.some_ne_none _

theorem lists_listing {s : List Char} {dir : List Visit} (h : Lists fs' cwd s dir) (hp : directoryAt fs' cwd s = some p)
    (hr : Recorded fs p times fs') (hu : Unused fs p) (h0 : ∀ t ∈ times, 0 ≤ t) : Listing times.toFinset dir := by
  unfold Lists at h
  rw [hp] at h
  obtain ⟨followed, entries, hentries, rfl⟩ := h
  have hlink : ∀ name target, fs'.entry (p ++ [name]) ≠ some (.link target) := by
    intro name target he
    have := (hr.keeps hu).2 _ _ he (by simp)
    exact (hu.free _ _ this).2 target rfl
  refine ⟨?_, fun t ht => h0 t (List.mem_toFinset.mp ht), fun name => ?_⟩
  · intro hmem
    obtain ⟨⟨n, node⟩, he, hvisit⟩ := List.mem_map.mp hmem
    cases node with
    | dir | file => cases hvisit
    | link target => exact hlink n target ((hentries _ _).mp he)
  · simp only [List.mem_toFinset]
    constructor
    · rintro ⟨r, hseg, hmem⟩
      have hne : fs'.entry (p ++ [name]) ≠ none := by
        apply entry_of_segment (s := s) _ hp ⟨r, hseg, hmem⟩
        unfold Lists
        rw [hp]
        exact ⟨followed, entries, hentries, rfl⟩
      by_contra hnot
      rw [hr.other _ fun t ht he => hnot ⟨t, ht, by simpa using he⟩] at hne
      obtain ⟨node, hnode⟩ := Option.ne_none_iff_exists'.mp hne
      simp only [isSegment, Bool.and_eq_true, decide_eq_true_eq] at hseg
      exact (hu.free _ _ hnode).1 hseg.2
    · rintro ⟨t, ht, rfl⟩
      obtain ⟨c, hc⟩ := hr.file t ht
      exact ⟨true, isSegment_timeName t, List.mem_map.mpr ⟨_, (hentries _ _).mpr hc, rfl⟩⟩

/-! ## The law of the names -/

section

variable (hvideo : ∀ p, directoryAt fs cwd "video".toList = some p → Unused fs p)

include hvideo

/-- The recorder finds no directory and writes nothing, or writes the segments into it. -/
theorem recordAll_cases (footage : Int → List Char) (times : List Int) :
    recordAll footage cwd fs times = fs ∨
      ∃ v, directoryAt fs cwd "video".toList = some v ∧ Unused fs v ∧
        Recorded fs v times (recordAll footage cwd fs times) := by
  cases hv : directoryAt fs cwd "video".toList with
  | none => exact Or.inl (recordAll_none hv times)
  | some v => exact Or.inr ⟨v, rfl, hvideo v hv, recordAll_recorded hv (hvideo v hv) times⟩

theorem recordAll_directoryAt (footage : Int → List Char) (times : List Int) (s : List Char) :
    directoryAt (recordAll footage cwd fs times) cwd s = directoryAt fs cwd s := by
  rcases recordAll_cases hvideo footage times with he | ⟨v, -, hu, hr⟩
  · rw [he]
  · exact hr.directoryAt_eq hu cwd s

theorem recordAll_other (footage : Int → List Char) {name : FileName} (hname : ∀ t ∈ times, name ≠ timeName t) :
    (recordAll footage cwd fs times).entry (p ++ [name]) = fs.entry (p ++ [name]) := by
  rcases recordAll_cases hvideo footage times with he | ⟨v, -, -, hr⟩
  · rw [he]
  · apply hr.other
    intro t ht he
    exact hname t ht (by simpa using (List.append_inj' he rfl).2)

theorem lists_recordAll (hsave : ∀ p, directoryAt fs cwd savePath = some p → Unused fs p) (footage : Int → List Char)
    (times : List Int) : ∃ dir, Lists (recordAll footage cwd fs times) cwd savePath dir := by
  apply exists_lists
  intro p hp
  rw [recordAll_directoryAt hvideo] at hp
  obtain ⟨names, hnames⟩ := (hsave p hp).finite
  refine ⟨names ++ times.map timeName, fun name hname => ?_⟩
  by_cases hn : ∃ t ∈ times, name = timeName t
  · obtain ⟨t, ht, rfl⟩ := hn
    exact List.mem_append_right _ (List.mem_map_of_mem ht)
  · rw [recordAll_other hvideo footage fun t ht he => hn ⟨t, ht, he⟩] at hname
    exact List.mem_append_left _ (hnames name hname)

/-- A segment is found only in the directory that the recorder writes to. -/
theorem same_of_roundTrip (hsave : ∀ p, directoryAt fs cwd savePath = some p → Unused fs p)
    (h : RoundTrip footage fs cwd savePath times) {t : Int} (ht : t ∈ times) : SameDirectory fs cwd savePath := by
  have hdirs := recordAll_directoryAt hvideo footage times savePath
  obtain ⟨dir, hdir⟩ := lists_recordAll hvideo hsave footage times
  have hfiles := (h t ht).2 dir hdir
  cases hp : directoryAt fs cwd savePath with
  | none =>
    unfold Lists at hdir
    rw [hdirs, hp] at hdir
    rw [hdir] at hfiles
    cases hfiles
  | some p =>
    have hseg : Segment dir (timeName t) := (mem_setFilename hfiles _).mp (List.mem_map_of_mem ht)
    have hne := entry_of_segment hdir (hdirs.trans hp) hseg
    have hfree : fs.entry (p ++ [timeName t]) = none := by
      by_contra hsome
      obtain ⟨node, hnode⟩ := Option.ne_none_iff_exists'.mp hsome
      exact ((hsave p hp).free _ _ hnode).1 (extension_timeName t)
    rcases recordAll_cases hvideo footage times with he | ⟨v, hv, -, hr⟩
    · rw [he] at hne
      exact absurd hfree hne
    · by_cases hpv : p = v
      · exact ⟨p, hp, by rw [hv, hpv]⟩
      · rw [hr.other] at hne
        · exact absurd hfree hne
        · intro s _ he
          exact hpv (List.append_inj' he rfl).1

end

/-- **Segment names round-trip** exactly for times that are an `int`, where the settings name the directory that the
recorder writes to. -/
theorem round_trip_iff {footage : Int → List Char} {fs : FileSystem} {cwd : Path} {savePath : List Char}
    {times : List Int} (hsave : ∀ p, directoryAt fs cwd savePath = some p → Unused fs p)
    (hvideo : ∀ p, directoryAt fs cwd "video".toList = some p → Unused fs p) (hsorted : times.Pairwise (· < ·))
    (h0 : ∀ t ∈ times, 0 ≤ t) :
    RoundTrip footage fs cwd savePath times ↔ ∀ t ∈ times, t < 2 ^ 31 ∧ SameDirectory fs cwd savePath := by
  constructor
  · intro h t ht
    have hfits := fits_of_stoi (h t ht).1
    exact ⟨hfits.2, same_of_roundTrip hvideo hsave h ht⟩
  · intro h t ht
    have hint : ∀ s ∈ times, FitsInt s := by
      intro s hs
      have h1 := h0 s hs
      have h2 := (h s hs).1
      exact ⟨by omega, h2⟩
    obtain ⟨p, hp, hv⟩ := (h t ht).2
    refine ⟨by rw [stoi_upToDot, stoi_timeName (hint t ht)], fun dir hdir => ?_⟩
    have hr : Recorded fs p times (recordAll footage cwd fs times) := recordAll_recorded hv (hvideo p hv) times
    have hlisting := lists_listing hdir ((hr.directoryAt_eq (hvideo p hv) cwd savePath).trans hp) hr (hvideo p hv) h0
    rw [setFilename_listing hlisting fun s hs => hint s (List.mem_toFinset.mp hs)]
    have hnodup : times.Nodup := hsorted.imp fun hlt => ne_of_lt hlt
    have hle : times.Pairwise (· ≤ ·) := hsorted.imp fun hlt => le_of_lt hlt
    rw [(List.toFinset_sort (· ≤ ·) hnodup).mpr hle]

/-- The directory of the recorder and another one. -/
def twoDirectories : FileSystem := (bare.put ["video".toList] .dir).put ["clips".toList] .dir

theorem unused_twoDirectories {n : List Char} : Unused twoDirectories [n] := by
  have hnone : ∀ name, twoDirectories.entry ([n] ++ [name]) = none := by
    intro name
    rw [twoDirectories, entry_put_of_ne _ _ (by simp), entry_put_of_ne _ _ (by simp)]
    rfl
  exact ⟨⟨[], fun name h => absurd (hnone name) h⟩, fun name node h => by rw [hnone] at h; cases h⟩

theorem directoryAt_twoDirectories : directoryAt twoDirectories [] "video".toList = some ["video".toList] ∧
    directoryAt twoDirectories [] "clips".toList = some ["clips".toList] := by
  decide +kernel

theorem unused_video {p : Path} (h : directoryAt twoDirectories [] "video".toList = some p) :
    Unused twoDirectories p := by
  rw [directoryAt_twoDirectories.1, Option.some.injEq] at h
  rw [← h]
  exact unused_twoDirectories

theorem unused_clips {p : Path} (h : directoryAt twoDirectories [] "clips".toList = some p) :
    Unused twoDirectories p := by
  rw [directoryAt_twoDirectories.2, Option.some.injEq] at h
  rw [← h]
  exact unused_twoDirectories

theorem round_trip_video : RoundTrip (fun _ => []) twoDirectories [] "video".toList [5, 1700000000] :=
  (round_trip_iff (fun _ => unused_video) (fun _ => unused_video) (by decide) (by decide)).mpr fun t ht =>
    ⟨by revert t; decide, _, directoryAt_twoDirectories.1, directoryAt_twoDirectories.1⟩

/-- The first second that is no `int`, and a directory of another name. -/
theorem lost_segments : ¬ RoundTrip (fun _ => []) twoDirectories [] "video".toList [2 ^ 31] ∧
    ¬ RoundTrip (fun _ => []) twoDirectories [] "clips".toList [1700000000] := by
  constructor
  · intro h
    have hfits := fits_of_stoi (h (2 ^ 31) (List.mem_singleton_self _)).1
    revert hfits
    decide
  · intro h
    obtain ⟨p, hp, hv⟩ := same_of_roundTrip (fun _ => unused_video) (fun _ => unused_clips) h
      (List.mem_singleton_self 1700000000)
    rw [directoryAt_twoDirectories.2, Option.some.injEq] at hp
    rw [directoryAt_twoDirectories.1, Option.some.injEq, ← hp] at hv
    revert hv
    decide

end RpiCam.Video
