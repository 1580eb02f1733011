import RpiCam.Event.Processor
import RpiCam.Http.EventDirectory

/-!
# Starting what was uploaded

`post_request_complete` saves the program of `cam` as `event/cam/cam`; `event_init` loads `./event/cam/cam.so`.

* `RunsUpload` : a processor that runs the upload, at its rate, and enabled;
* `readFile_soPath` : in the directory of a saved upload the shared object is missing, or empty;
* `never_runs` : no upload that is accepted and saved is run.
-/

namespace RpiCam

open Transition FileSystem

namespace EventProcessor

/-- The processor has the bytes of the upload as its shared object, its rate, which is positive, and is enabled. -/
def RunsUpload (info : Http.ConnectionInfo) (p : EventProcessor) : Prop :=
  p.handle = some info.fileContent ∧ (∃ n, stoi info.fps = .ok n ∧ 1 ≤ n ∧ p.fps = some n) ∧ p.enable = some true

theorem soName_ne (name : Name) : name ++ ".so".toList ≠ name ∧ name ++ ".so".toList ≠ "enable".toList := by
  constructor
  · intro h
    have := congrArg List.length h
    rw [List.length_append] at this
    have hlen : ".so".toList.length = 3 := rfl
    omega
  · intro h
    have h1 : (name ++ ".so".toList).getLast? = some 'o' := List.getLast?_append_of_ne_nil name (by decide)
    rw [h] at h1
    revert h1
    decide

theorem append_slashes (d e n t : List Char) :
    d ++ ['/'] ++ (e ++ ['/']) ++ n ++ ['/'] ++ n ++ t = d ++ '/' :: (e ++ '/' :: (n ++ '/' :: (n ++ t))) := by simp

theorem components_soPath {name : Name} (hslash : '/' ∉ name) (hnul : '\x00' ∉ name) :
    components (soPath name) = [['.'], "event".toList, name, name ++ ".so".toList] := by
  have h := congrArg components (append_slashes ['.'] "event".toList name ".so".toList)
  have hso : '\x00' ∉ name ++ ".so".toList ∧ '/' ∉ name ++ ".so".toList := by
    simp only [List.mem_append, not_or]
    exact ⟨⟨hnul, by decide⟩, hslash, by decide⟩
  rw [components_cons (by decide) (by decide), components_cons (by decide) (by decide), components_cons hnul hslash,
    components_single hso.1 hso.2] at h
  exact h

/-- **The shared object** of a saved upload is missing, or it is the empty file of a frame rate. -/
theorem readFile_soPath {cwd : Path} {info : Http.ConnectionInfo} {fs₀ fs : FileSystem} {b : Path}
    (hn : Http.Named info) (h : Http.Filled cwd info fs₀ fs b) :
    fs.readFile cwd (soPath info.fileName) = none ∨ fs.readFile cwd (soPath info.fileName) = some [] := by
  set so := info.fileName ++ ".so".toList with hso
  have hord : Ordinary so := by
    refine ⟨by simp [hso, hn.nonempty], ?_⟩
    have h3 : 4 ≤ so.length := by
      have := List.length_pos_iff.mpr hn.nonempty
      have hlen : ".so".toList.length = 3 := rfl
      rw [hso, List.length_append]
      omega
    simp only [isDot, Bool.or_eq_false_iff, beq_eq_false_iff_ne]
    constructor <;> intro he <;> rw [he] at h3 <;> simp at h3
  have hw := walk_child hord (h.walkDir_event hn) (h.entry_ne_link so)
  have hopen : fs.openAt cwd (soPath info.fileName) = some (b ++ [info.fileName] ++ [so]) := by
    rw [openAt, components_soPath hn.noSlash h.noNul, walk_dot (dir_of_walkDir h.parent)]
    rw [show ["event".toList, info.fileName, so] = ["event".toList, info.fileName] ++ [so] from rfl, hw]
    exact if_neg (h.entry_ne_dir so)
  rw [readFile, hopen, Option.bind_some, content]
  rcases h.files (b ++ [info.fileName] ++ [so]) (List.prefix_append _ _) (by simp) with he | ⟨n, c, hnc, he, hc⟩
  · rw [he]
    exact Or.inl rfl
  · rw [he]
    have hname : so = n := by simpa using hnc
    subst hname
    rw [hc (soName_ne _).1 (soName_ne _).2]
    exact Or.inr rfl

/-- What is loaded was read from the path of the shared object. -/
theorem handle_of_new {loads hasMain : List Char → Bool} {fs : FileSystem} {cwd : Path} {name : Name}
    {order : List Name} {program : List Char} (h : (new loads hasMain fs cwd name order).handle = some program) :
    fs.readFile cwd (soPath name) = some program := by
  have hname : (scan fs cwd name order).eventName = name ∧ (scan fs cwd name order).handle = none := by
    unfold scan
    split
    · exact foldl_scanEntry fs cwd order _
    · exact ⟨rfl, rfl⟩
  rw [new, eventInit, hname.1] at h
  split at h
  · rw [hname.2] at h
    cases h
  · rename_i content hr
    have hc : content = program := by
      split_ifs at h <;> exact Option.some.inj h
    rw [Option.filter_eq_some_iff] at hr
    exact hc ▸ hr.1

/-- **No upload is ever run.** For every upload that is answered `200` and saved, whatever the iterator lists first, the
processor that starts under its name does not have the uploaded program. -/
theorem never_runs {cwd : Path} {info : Http.ConnectionInfo} {body : String} {fs₀ : FileSystem} {s : Http.Saving}
    (h : Http.programReply info = .ok ⟨200, body⟩) (hs : Http.Saves cwd info fs₀ s) (hsaved : s.saved)
    (loads hasMain : List Char → Bool) (order : List Name) :
    ¬ RunsUpload info (new loads hasMain s.fs cwd info.fileName order) := by
  rintro ⟨hhandle, -⟩
  have hn := Http.named_of_reply h
  have hshape := Http.shape_of_saves hn hs
  rw [Http.Shape, hsaved] at hshape
  obtain ⟨b, hb⟩ := hshape hsaved
  have hread := handle_of_new hhandle
  obtain ⟨-, -, -, hcontent, -⟩ := (Http.programReply_status h).mp rfl
  rcases readFile_soPath hn hb with he | he <;> rw [he] at hread
  · cases hread
  · exact hcontent (Option.some.inj hread).symm

def eventTree : FileSystem := bare.put ["event".toList] .dir

/-- A whole save without a refusal. -/
def savingRun : List Http.Os := List.replicate 7 Http.Os.able

def savedCam : Http.Saving :=
  (run (Http.saveStep [] (Http.uploadOf "cam".toList)) (.begin eventTree) savingRun).getD (.begin eventTree)

theorem saves_savedCam : Http.Saves [] (Http.uploadOf "cam".toList) eventTree savedCam := by
  have h : (run (Http.saveStep [] (Http.uploadOf "cam".toList)) (.begin eventTree) savingRun).isSome = true := by
    decide +kernel
  obtain ⟨s, hs⟩ := Option.isSome_iff_exists.mp h
  have he : savedCam = s := by rw [savedCam, hs, Option.getD_some]
  exact he ▸ .of_run (.init rfl) hs

theorem saved_savedCam : savedCam.saved := by
  unfold Http.Saving.saved
  decide +kernel

theorem never_runs_cam : ¬ RunsUpload (Http.uploadOf "cam".toList)
    (new (fun _ => true) (fun _ => true) savedCam.fs [] "cam".toList ["enable".toList, "30".toList, "cam".toList]) :=
  never_runs rfl saves_savedCam saved_savedCam _ _ _

/-- **An upload that is saved and not run.** The directory has the program, the rate and `enable`, and no shared
object. -/
theorem unrunnable_upload : Http.Saves [] (Http.uploadOf "cam".toList) eventTree savedCam ∧ savedCam.saved ∧
    savedCam.fs.content ["event".toList, "cam".toList, "cam".toList] = some ['x'] ∧
    ¬ RunsUpload (Http.uploadOf "cam".toList) (new (fun _ => true) (fun _ => true) savedCam.fs [] "cam".toList
      ["cam".toList, "30".toList, "enable".toList]) := by
  refine ⟨saves_savedCam, saved_savedCam, by decide +kernel, fun h => ?_⟩
  exact absurd h.1 (by decide +kernel)

end EventProcessor

end RpiCam
