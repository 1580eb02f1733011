import RpiCam.Lib.EraseLoop
import RpiCam.Video.Clip

/-!
# What retention removes

`remove_video` lists the segments of its directory, and takes from the vector of their names, one after the other, those
that it deletes.

* `Folder`, `ListsFolder` : a directory with what its entries hold, and a listing of it;
* `Disk.remove` : `std::filesystem::remove` in the directory;
* `removeBody`, `removal` : the body of the loop, and the call from the listing to its end;
* `removal_eq` : the loop over the vector deletes what `removed` says;
* `removeLoop_expired` : where nothing is thrown, that is each segment from before the cutoff;
* `remove_video_exact` : the directory after a call.
-/

namespace RpiCam.Video

variable {α : Type}

/-- An entry of a directory. `data` is what a file or a directory holds. -/
structure Entry (α : Type) where
  isRegularFile : Bool
  data : α

/-- The entries of a directory by their names. -/
abbrev Folder (α : Type) := FileName → Option (Entry α)

/-- A listing finds the entries of the directory, in some order. -/
structure ListsFolder (dir : List Visit) (folder : Folder α) : Prop where
  read : .fails ∉ dir
  entry : ∀ name r, .entry name r ∈ dir ↔ ∃ e, folder name = some e ∧ e.isRegularFile = r

/-- The directory, and the paths that `std::filesystem::remove` has been called with. -/
structure Disk (α : Type) where
  folder : Folder α
  removals : List (List Char)

/-- `std::filesystem::remove` on the path `p`, in the directory `path`. -/
def Disk.remove (path p : List Char) (d : Disk α) : Disk α where
  folder name := if filePath path name = p then none else d.folder name
  removals := d.removals ++ [p]

/-- The body of the loop of `remove_video`, lines 196 to 208. -/
def removeBody (cutoff : Int) (path : List Char) (refused : List Char → Bool) (file : FileName) (d : Disk α) :
    LoopTurn Thrown × Disk α :=
  match stoi (upToDot file) with
  | .error _ => (.throw .stoi, d)
  | .ok fileTimestamp =>
    if fileTimestamp < cutoff then
      if refused (filePath path file) then (.throw .filesystem, d)
      else (.erase, d.remove path (filePath path file))
    else (.next, d)

/-- A `remove_video` at `now` that has the lock, with its vector and the directory. -/
def removal (now maintainTime : Int) (path : List Char) (dir : List Visit) (refused : List Char → Bool)
    (folder : Folder α) : Looped FileName (Disk α) Thrown :=
  match setFilename dir with
  | .error e => ⟨[], ⟨folder, []⟩, some e⟩
  | .ok files => eraseLoop (removeBody (cutoff now maintainTime) path refused) files 0 ⟨folder, []⟩

/-- `name` is a regular `.mp4` file whose time is before `t`. -/
def Expired (folder : Folder α) (t : Int) (name : FileName) : Prop :=
  ∃ e n, folder name = some e ∧ isSegment name e.isRegularFile ∧ stoi name = .ok n ∧ n < t

/-! ## The loop -/

theorem Disk.folder_remove (path p : List Char) (d : Disk α) (name : FileName) :
    (d.remove path p).folder name = if filePath path name = p then none else d.folder name :=
  rfl

/-- The deletions of a list of paths. -/
def Disk.removeAll (path : List Char) (ps : List (List Char)) (d : Disk α) : Disk α :=
  ps.foldl (fun d p => d.remove path p) d

theorem removals_removeAll (path : List Char) (ps : List (List Char)) (d : Disk α) :
    (d.removeAll path ps).removals = d.removals ++ ps := by
  induction ps generalizing d with
  | nil => exact (List.append_nil _).symm
  | cons p ps ih =>
    show (Disk.removeAll path ps (d.remove path p)).removals = _
    rw [ih, Disk.remove, List.append_assoc, List.singleton_append]

theorem folder_removeAll (path : List Char) (ps : List (List Char)) (d : Disk α) (name : FileName) :
    (d.removeAll path ps).folder name = if filePath path name ∈ ps then none else d.folder name := by
  induction ps generalizing d with
  | nil => rfl
  | cons p ps ih =>
    show (Disk.removeAll path ps (d.remove path p)).folder name = _
    rw [ih, Disk.folder_remove]
    by_cases hmem : filePath path name ∈ ps
    · rw [if_pos hmem, if_pos (List.mem_cons_of_mem _ hmem)]
    · rw [if_neg hmem]
      by_cases hp : filePath path name = p
      · rw [if_pos hp, if_pos (hp ▸ List.mem_cons_self ..)]
      · rw [if_neg hp, if_neg (by simp [hp, hmem])]

/-- A pass of the body deletes what `removeLoop` does. -/
theorem pass_removeBody (cutoff : Int) (path : List Char) (refused : List Char → Bool) (files : List FileName)
    (d : Disk α) :
    (pass (removeBody cutoff path refused) files d).state = d.removeAll path (removeLoop cutoff path refused files).1 ∧
      (pass (removeBody cutoff path refused) files d).thrown = (removeLoop cutoff path refused files).2 := by
  induction files generalizing d with
  | nil => exact ⟨rfl, rfl⟩
  | cons file files ih =>
    unfold pass removeLoop removeBody
    cases stoi (upToDot file) with
    | error e => exact ⟨rfl, rfl⟩
    | ok n =>
      dsimp only
      split_ifs
      · exact ⟨rfl, rfl⟩
      · exact ih (d.remove path (filePath path file))
      · exact ih d

/-- **The loop over the vector deletes what `removed` says**, and throws what it does. -/
theorem removal_eq (now maintainTime : Int) (path : List Char) (dir : List Visit) (refused : List Char → Bool)
    (folder : Folder α) :
    (removal now maintainTime path dir refused folder).state =
        Disk.removeAll path (removed now maintainTime path dir refused).1 ⟨folder, []⟩ ∧
      (removal now maintainTime path dir refused folder).thrown = (removed now maintainTime path dir refused).2 := by
  unfold removal removed
  cases setFilename dir with
  | error e => exact ⟨rfl, rfl⟩
  | ok files =>
    dsimp only
    rw [eraseLoop_eq_pass]
    exact pass_removeBody _ path refused files _

/-! ## What is deleted -/

/-- The time of the name is before the cutoff. -/
def isOld (cutoff : Int) (name : FileName) : Bool := (stoi name).toOption.any fun n => n < cutoff

theorem isOld_iff {cutoff : Int} {name : FileName} : isOld cutoff name ↔ ∃ n, stoi name = .ok n ∧ n < cutoff := by
  unfold isOld
  cases stoi name with
  | error e => simp [Except.toOption]
  | ok n => simp [Except.toOption]

/-- Where nothing is thrown, the loop deletes each name from before the cutoff. -/
theorem removeLoop_expired {cutoff : Int} {path : List Char} {refused : List Char → Bool} {files : List FileName}
    (h : (removeLoop cutoff path refused files).2 = none) :
    (removeLoop cutoff path refused files).1 = (files.filter (isOld cutoff)).map (filePath path) := by
  rw [removeLoop_ok_iff] at h
  induction files with
  | nil => rfl
  | cons file files ih =>
    rw [List.forall_mem_cons] at h
    obtain ⟨⟨hnumbered, hstuck⟩, hfiles⟩ := h
    obtain ⟨n, hn⟩ := isNumbered_iff.mp hnumbered
    rw [removeLoop, stoi_upToDot, hn]
    dsimp only
    by_cases hlt : n < cutoff
    · have hok : refused (filePath path file) = false := by
        by_contra href
        exact hstuck ⟨n, hn, hlt, by simpa using href⟩
      have hold : isOld cutoff file := isOld_iff.mpr ⟨n, hn, hlt⟩
      rw [if_pos hlt, hok, List.filter_cons_of_pos hold, List.map_cons, ← ih hfiles]
      rfl
    · have hold : ¬ isOld cutoff file = true := by
        rw [isOld_iff]
        rintro ⟨m, hm, hlt'⟩
        rw [hn] at hm
        cases hm
        exact hlt hlt'
      rw [if_neg hlt, List.filter_cons_of_neg hold]
      exact ih hfiles

theorem ListsFolder.segment {dir : List Visit} {folder : Folder α} (h : ListsFolder dir folder) (name : FileName) :
    Segment dir name ↔ ∃ e, folder name = some e ∧ isSegment name e.isRegularFile := by
  unfold Segment
  simp only [h.entry]
  constructor
  · rintro ⟨r, hseg, e, he, rfl⟩
    exact ⟨e, he, hseg⟩
  · rintro ⟨e, he, hseg⟩
    exact ⟨e.isRegularFile, hseg, e, he, rfl⟩

theorem removal_of_removed {now maintainTime : Int} {path : List Char} {dir : List Visit}
    {refused : List Char → Bool} {folder : Folder α} (hdir : ListsFolder dir folder)
    (h : (removed now maintainTime path dir refused).2 = none) :
    ∃ names : List FileName,
      (removal now maintainTime path dir refused folder).state.removals = names.map (filePath path) ∧
      names.Nodup ∧ (∀ name, name ∈ names ↔ Expired folder (cutoff now maintainTime) name) ∧
      ∀ name, (removal now maintainTime path dir refused folder).state.folder name =
        if name ∈ names then none else folder name := by
  rw [(removal_eq now maintainTime path dir refused folder).1]
  unfold removed at h ⊢
  cases hfiles : setFilename dir with
  | error e =>
    rw [hfiles] at h
    cases h
  | ok files =>
    rw [hfiles] at h
    dsimp only at h ⊢
    rw [removeLoop_expired h]
    refine ⟨files.filter (isOld (cutoff now maintainTime)), ?_, ?_, ?_, ?_⟩
    · exact removals_removeAll ..
    · exact (setFilename_ordered hfiles).1.filter _
    · intro name
      rw [List.mem_filter, mem_setFilename hfiles, hdir.segment, isOld_iff]
      constructor
      · rintro ⟨⟨e, he, hseg⟩, n, hn, hlt⟩
        exact ⟨e, n, he, hseg, hn, hlt⟩
      · rintro ⟨e, n, he, hseg, hn, hlt⟩
        exact ⟨⟨e, he, hseg⟩, n, hn, hlt⟩
    · intro name
      rw [folder_removeAll]
      simp only [List.mem_map_of_injective fun _ _ => filePath_injective]

/-- **`remove_video` deletes the expired segments**, each once, and leaves the other entries as they are. -/
theorem remove_video_exact {now maintainTime : Int} {path : List Char} {dir : List Visit}
    {refused : List Char → Bool} {folder : Folder α} (hnow : 0 ≤ now ∧ now < 2 ^ 31)
    (hM : 0 ≤ maintainTime ∧ FitsInt maintainTime) (hdir : ListsFolder dir folder)
    (hnames : ∀ name e, folder name = some e → isSegment name e.isRegularFile → isNumbered name)
    (hremove : ∀ name, Segment dir name → refused (filePath path name) = false) :
    removeVideo .free now maintainTime path dir refused = (.free, .returned 0) ∧
      (removal now maintainTime path dir refused folder).thrown = none ∧
      (∃ names : List FileName,
        (removal now maintainTime path dir refused folder).state.removals = names.map (filePath path) ∧
        names.Nodup ∧ ∀ name, name ∈ names ↔ Expired folder (now - maintainTime) name) ∧
      ∀ name, (Expired folder (now - maintainTime) name →
          (removal now maintainTime path dir refused folder).state.folder name = none) ∧
        (¬ Expired folder (now - maintainTime) name →
          (removal now maintainTime path dir refused folder).state.folder name = folder name) := by
  have hcutoff : cutoff now maintainTime = now - maintainTime := by
    obtain ⟨h0, hlow, hhigh⟩ := hM
    have hn : wrapInt now = now := wrapInt_of_fits ⟨by omega, hnow.2⟩
    rw [cutoff, hn, wrapInt_of_fits ⟨by omega, by omega⟩]
  have hnone : (removed now maintainTime path dir refused).2 = none := by
    rw [removed_ok_iff]
    refine ⟨⟨hdir.read, fun name hname => ?_⟩, ?_⟩
    · obtain ⟨e, he, hseg⟩ := (hdir.segment name).mp hname
      exact hnames name e he hseg
    · rintro name hname ⟨n, -, -, href⟩
      rw [hremove name hname] at href
      cases href
  have hreturn : removeVideo .free now maintainTime path dir refused = (.free, .returned 0) := by
    simp only [removeVideo, hnone, reduceCtorEq, if_false]
  obtain ⟨names, hremovals, hnodup, hnames, hfolder⟩ := removal_of_removed hdir hnone
  rw [hcutoff] at hnames
  refine ⟨hreturn, (removal_eq ..).2.trans hnone, ⟨names, hremovals, hnodup, hnames⟩, fun name => ⟨?_, ?_⟩⟩
  · intro hexp
    rw [hfolder, if_pos ((hnames name).mpr hexp)]
  · intro hexp
    rw [hfolder, if_neg fun hmem => hexp ((hnames name).mp hmem)]

/-- A segment from before the last two minutes, a later one, and the directory of the events. -/
def threeEntries : Folder String := fun name =>
  if name = "1699999879.mp4".toList then some ⟨true, "old"⟩
  else if name = "1700000000.mp4".toList then some ⟨true, "new"⟩
  else if name = "event".toList then some ⟨false, "clips"⟩
  else none

theorem remove_video_exact_two :
    (removal 1700000000 120 "video".toList
        [.entry "1700000000.mp4".toList true, .entry "event".toList false, .entry "1699999879.mp4".toList true]
        (fun _ => false) threeEntries).state.folder "1699999879.mp4".toList = none := by
  have hseg : ∀ name e, threeEntries name = some e → isSegment name e.isRegularFile →
      name = "1699999879.mp4".toList ∨ name = "1700000000.mp4".toList := by
    intro name e he hseg
    unfold threeEntries at he
    split_ifs at he with h1 h2 h3
    · exact Or.inl h1
    · exact Or.inr h2
    · cases he
      rw [isSegment, Bool.false_and] at hseg
      cases hseg
  refine ((remove_video_exact (by decide) (by decide) ?_ ?_ (fun _ _ => rfl)).2.2.2 _).1 ?_
  · constructor
    · decide
    · intro name r
      simp only [threeEntries, List.mem_cons, Visit.entry.injEq, List.not_mem_nil, or_false]
      constructor
      · rintro (⟨rfl, rfl⟩ | ⟨rfl, rfl⟩ | ⟨rfl, rfl⟩) <;> exact ⟨_, rfl, rfl⟩
      · rintro ⟨e, he, rfl⟩
        split_ifs at he with h1 h2 h3
        · cases he
          exact Or.inr (Or.inr ⟨h1, rfl⟩)
        · cases he
          exact Or.inl ⟨h2, rfl⟩
        · cases he
          exact Or.inr (Or.inl ⟨h3, rfl⟩)
  · intro name e he hs
    rcases hseg name e he hs with rfl | rfl <;> decide
  · exact ⟨⟨true, "old"⟩, 1699999879, rfl, by decide, by decide, by decide⟩

end RpiCam.Video
