import RpiCam.Lib.PropertyTree
import RpiCam.Lib.Transition

/-!
# The configuration

`ProgramConfig` makes one object for each section of `config.json` when it is first asked for it, and keeps the object
before it is read. `HttpConfig` and `VideoConfig` report a key that is missing; `CameraConfig` logs it and goes on.

* `HttpConfig.setFile`, `VideoConfig.setFile`, `CameraConfig.setFile` : what is read of each section;
* `ProgramConfig.step` : a call of an accessor;
* `Full`, `LacksKey` : a section with everything in it, and a camera section with a key missing; `setFile_full`,
  `setFile_returned`, `setFile_lacksKey` : what comes of each;
* `Traced` : the objects are those of `setFile`; `traced_step`;
* `Faithful` : what is handed out is complete, and an accessor always answers the same;
* `config_faithful_iff` : both hold in every state of a run exactly where each call `Fits`;
* `second_call` : a section with a key missing, asked for twice.

`config.json` is the tree that `read_json` makes of it, if it does not throw.
-/

namespace RpiCam.Config

open Transition

/-- The formats that `CameraConfig` knows. -/
inductive PixelFormat
  | rgb24
  | yuyv
  | mjpeg
  deriving DecidableEq, Repr

/-- The value of a member. -/
inductive Value
  | string (s : List Char)
  | int (n : Int)
  | pixel (format : PixelFormat)
  deriving DecidableEq, Repr

def string (name : String) : Key Value := ⟨name, fun text => some (.string text)⟩

def int (name : String) : Key Value := ⟨name, fun text => (streamInt text).map .int⟩

/-- Lines 49 to 60 of `CameraConfig::read_config`. -/
def pixelFormat (text : List Char) : Option PixelFormat :=
  if text = "V4L2_PIX_FMT_RGB24".toList then some .rgb24
  else if text = "V4L2_PIX_FMT_YUYV".toList then some .yuyv
  else if text = "V4L2_PIX_FMT_MJPEG".toList then some .mjpeg
  else none

/-- What a call comes to. -/
inductive Reading
  | returned (ret : Int)
  /-- An exception, which nothing catches. -/
  | threw
  deriving DecidableEq, Repr

/-- A `catch` of `ptree_bad_path` alone, with the code that is returned after it. -/
def caught (ret : Int) : Option PtreeError → Reading
  | none => .returned 0
  | some .badPath => .returned ret
  | some .badData => .threw

def HttpConfig.keys : List (Key Value) :=
  [string "cert_file", string "private_file", int "thread_pool_size", int "tls", int "port", string "remote_server",
    int "upload_clients"]

def VideoConfig.keys : List (Key Value) :=
  [int "width", int "height", string "framerate", string "format", int "split-time", int "duration",
    string "save_path", int "maintain"]

/-- The `read_config` of a section that only reads its keys. -/
def readConfig (keys : List (Key Value)) (props : Ptree) (c : Members Value) : Members Value × Reading :=
  ((readKeys props keys c).1, caught 1 (readKeys props keys c).2)

def HttpConfig.readConfig : Ptree → Members Value → Members Value × Reading := Config.readConfig HttpConfig.keys

def VideoConfig.readConfig : Ptree → Members Value → Members Value × Reading := Config.readConfig VideoConfig.keys

namespace CameraConfig

/-- The pixel type, from its name. -/
def format : Key Value := ⟨"format", fun text => (pixelFormat text).map .pixel⟩

/-- The members that are set, and what they are set from. -/
def keys : List (Key Value) := [string "device_path", int "width", int "height", int "fps", format]

/-- The keys that are read, in their order. -/
def reads : List (Key Value) := [string "device_path", int "width", int "height", string "format", int "fps"]

/-- The format in the local variable `format`. -/
def formatOf : Option Value → Option PixelFormat
  | some (.string text) => pixelFormat text
  | _ => none

/-- `CameraConfig::read_config`: `width`, `height` and `format` are local variables first. -/
def readConfig (props : Ptree) (c : Members Value) : Members Value × Reading :=
  match readKeys props [string "device_path"] c with
  | (c, some e) => (c, caught 0 (some e))
  | (c, none) =>
    match readKeys props [int "width", int "height", string "format"] fun _ => none with
    | (_, some e) => (c, caught 0 (some e))
    | (locals, none) =>
      let c := Function.update (Function.update c "width" (locals "width")) "height" (locals "height")
      match readKeys props [int "fps"] c with
      | (c, some e) => (c, caught 0 (some e))
      | (c, none) =>
        match formatOf (locals "format") with
        | some t => (Function.update c "format" (some (.pixel t)), .returned 0)
        | none => (c, .returned 1)

end CameraConfig

/-- `set_file`, for the section of this name. -/
def setFile (name : String) (readConfig : Ptree → Members Value → Members Value × Reading) (content : Option Ptree)
    (c : Members Value) : Members Value × Reading :=
  match content with
  | none => (c, .threw)
  | some root =>
    match root.getChild name with
    | none => (c, .returned 1)
    | some props => readConfig props c

def HttpConfig.setFile : Option Ptree → Members Value → Members Value × Reading :=
  Config.setFile "http" HttpConfig.readConfig

def VideoConfig.setFile : Option Ptree → Members Value → Members Value × Reading :=
  Config.setFile "video" VideoConfig.readConfig

def CameraConfig.setFile : Option Ptree → Members Value → Members Value × Reading :=
  Config.setFile "camera" CameraConfig.readConfig

inductive Section
  | http
  | video
  | camera
  deriving DecidableEq, Repr

namespace Section

def name : Section → String
  | http => "http"
  | video => "video"
  | camera => "camera"

/-- The members of the object, with their keys. -/
def keys : Section → List (Key Value)
  | http => HttpConfig.keys
  | video => VideoConfig.keys
  | camera => CameraConfig.keys

/-- The virtual call of `set_file`. -/
def readConfig : Section → Ptree → Members Value → Members Value × Reading
  | http => HttpConfig.readConfig
  | video => VideoConfig.readConfig
  | camera => CameraConfig.readConfig

/-- The virtual call of `ProgramConfig::read_config`. -/
def setFile : Section → Option Ptree → Members Value → Members Value × Reading
  | http => HttpConfig.setFile
  | video => VideoConfig.setFile
  | camera => CameraConfig.setFile

end Section

/-- `ProgramConfig`: its three pointers, what the accessors have answered, and whether an exception has ended the
process. -/
structure ProgramConfig where
  config : Section → Option (Members Value)
  answers : List (Section × Option (Members Value))
  stopped : Bool

namespace ProgramConfig

def init : ProgramConfig := ⟨fun _ => none, [], false⟩

/-- `ProgramConfig::read_config` on a new object. -/
def readConfig (content : Option Ptree) (a : Section) : Members Value × Reading := a.setFile content fun _ => none

def access (content : Option Ptree) (a : Section) (s : ProgramConfig) : ProgramConfig :=
  match s.config a with
  | some c => { s with answers := s.answers ++ [(a, some c)] }
  | none =>
    let made := readConfig content a
    let s := { s with config := Function.update s.config a (some made.1) }
    match made.2 with
    | .threw => { s with stopped := true }
    | .returned ret => { s with answers := s.answers ++ [(a, if ret = 0 then some made.1 else none)] }

def httpConfig (content : Option Ptree) : ProgramConfig → ProgramConfig := access content .http

def videoConfig (content : Option Ptree) : ProgramConfig → ProgramConfig := access content .video

def cameraConfig (content : Option Ptree) : ProgramConfig → ProgramConfig := access content .camera

def step (content : Option Ptree) (s : ProgramConfig) (a : Section) : Option ProgramConfig :=
  if s.stopped then none
  else some (match a with
    | .http => httpConfig content s
    | .video => videoConfig content s
    | .camera => cameraConfig content s)

end ProgramConfig

/-! ## What is read -/

/-- Every key of the section is there with a value, and the object has these values. -/
def Complete (content : Option Ptree) (a : Section) (c : Members Value) : Prop :=
  ∃ root props, content = some root ∧ root.getChild a.name = some props ∧ Stores props a.keys c

/-- The section is there, and every key of it with a value; the format of the camera is one of the three. -/
def Full (content : Option Ptree) (a : Section) : Prop :=
  ∃ root props, content = some root ∧ root.getChild a.name = some props ∧ firstError props a.keys = none

/-- The section of the camera is there, and the first of its keys that cannot be read is missing. -/
def LacksKey (content : Option Ptree) : Prop :=
  ∃ root props, content = some root ∧ root.getChild "camera" = some props ∧
    firstError props CameraConfig.reads = some .badPath

theorem full_of_complete {content : Option Ptree} {a : Section} {c : Members Value} (h : Complete content a c) :
    Full content a := by
  obtain ⟨root, props, hroot, hprops, hstores⟩ := h
  refine ⟨root, props, hroot, hprops, (firstError_eq_none_iff a.keys).mpr ?_⟩
  intro k hk
  obtain ⟨v, hv, -⟩ := hstores k hk
  exact ⟨v, hv⟩

theorem nodup_keys (a : Section) : (a.keys.map Key.name).Nodup := by
  cases a <;> decide

/-- The two sections whose `read_config` reports what is missing. -/
theorem readConfig_returned {keys : List (Key Value)} {props : Ptree} {c : Members Value}
    (h : (readConfig keys props c).2 = .returned 0) : firstError props keys = none := by
  rw [readConfig, readKeys_error] at h
  cases he : firstError props keys with
  | none => rfl
  | some e =>
    rw [he] at h
    cases e <;> cases h

theorem readConfig_full {keys : List (Key Value)} (hnodup : (keys.map Key.name).Nodup) {props : Ptree}
    (h : firstError props keys = none) (c : Members Value) :
    (readConfig keys props c).2 = .returned 0 ∧ Stores props keys (readConfig keys props c).1 := by
  refine ⟨?_, stores_readKeys hnodup h c⟩
  rw [readConfig, readKeys_error, h]
  rfl

namespace CameraConfig

theorem read_format {props : Ptree} {text : List Char} (h : (string "format").read props = .ok (.string text)) :
    format.read props =
      match pixelFormat text with
      | some t => .ok (.pixel t)
      | none => .error .badData := by
  unfold Key.read at h ⊢
  cases hget : props.get "format" with
  | none =>
    simp only [string, hget] at h
    cases h
  | some data =>
    simp only [string, hget] at h
    cases h
    simp only [format, hget]
    cases pixelFormat text <;> rfl

theorem read_string {props : Ptree} {name : String} {v : Value} (h : (string name).read props = .ok v) :
    ∃ text, v = .string text := by
  unfold Key.read at h
  simp only [string] at h
  cases hget : props.get name with
  | none =>
    rw [hget] at h
    cases h
  | some data =>
    rw [hget] at h
    cases h
    exact ⟨data, rfl⟩

/-- Where all members can be set, all keys can be read. -/
theorem reads_of_keys {props : Ptree} (h : firstError props keys = none) : firstError props reads = none := by
  rw [firstError_eq_none_iff] at h ⊢
  have hformat : ∃ v, (string "format").read props = .ok v := by
    obtain ⟨v, hv⟩ := h format (List.mem_of_getLast? rfl)
    unfold Key.read at hv ⊢
    simp only [format] at hv
    cases hget : props.get "format" with
    | none =>
      rw [hget] at hv
      cases hv
    | some text => exact ⟨.string text, by simp only [string, hget]⟩
  simp only [keys, List.forall_mem_cons] at h
  simp only [reads, List.forall_mem_cons]
  exact ⟨h.1, h.2.1, h.2.2.1, hformat, h.2.2.2.1, nofun⟩

def locals (props : Ptree) : Members Value :=
  (readKeys props [int "width", int "height", string "format"] fun _ => none).1

/-- The object before `fps` is read. -/
def sized (props : Ptree) (c : Members Value) : Members Value :=
  Function.update (Function.update (readKeys props [string "device_path"] c).1 "width" (locals props "width")) "height"
    (locals props "height")

/-- The object when `fps` was read. -/
def stored (props : Ptree) (c : Members Value) : Members Value := (readKeys props [int "fps"] (sized props c)).1

theorem firstError_reads (props : Ptree) : firstError props reads =
    (firstError props [string "device_path"]).or
      ((firstError props [int "width", int "height", string "format"]).or (firstError props [int "fps"])) := by
  rw [← firstError_append, ← firstError_append]
  rfl

theorem readConfig_error {props : Ptree} {e : PtreeError} (h : firstError props reads = some e) (c : Members Value) :
    (readConfig props c).2 = caught 0 (some e) := by
  rw [firstError_reads] at h
  rw [readConfig, readKeys_pair [string "device_path"], readKeys_pair [int "width", int "height", string "format"]]
  cases hA : firstError props [string "device_path"] with
  | some e' =>
    rw [hA] at h
    cases h
    rfl
  | none =>
    cases hB : firstError props [int "width", int "height", string "format"] with
    | some e' =>
      rw [hA, hB] at h
      cases h
      rfl
    | none =>
      rw [hA, hB] at h
      have hC : firstError props [int "fps"] = some e := h
      dsimp only
      rw [readKeys_pair [int "fps"], hC]

theorem readConfig_read {props : Ptree} (h : firstError props reads = none) (c : Members Value) :
    readConfig props c = match formatOf (locals props "format") with
      | some t => (Function.update (stored props c) "format" (some (.pixel t)), .returned 0)
      | none => (stored props c, .returned 1) := by
  rw [firstError_reads, Option.or_eq_none_iff, Option.or_eq_none_iff] at h
  obtain ⟨hA, hB, hC⟩ := h
  rw [readConfig, readKeys_pair [string "device_path"], readKeys_pair [int "width", int "height", string "format"], hA,
    hB]
  dsimp only
  rw [readKeys_pair [int "fps"], hC]
  rfl

theorem stored_read {props : Ptree} (h : firstError props reads = none) (c : Members Value) :
    Stores props [string "device_path", int "width", int "height", int "fps"] (stored props c) ∧
      ∃ text, (string "format").read props = .ok (.string text) ∧ locals props "format" = some (.string text) := by
  rw [firstError_reads, Option.or_eq_none_iff, Option.or_eq_none_iff] at h
  obtain ⟨hA, hB, hC⟩ := h
  have hpath := stores_readKeys (by decide) hA c
  have hlocals := stores_readKeys (by decide) hB fun _ => none
  have hfps := stores_readKeys (by decide) hC (sized props c)
  have hother : ∀ name, name ≠ "fps" → stored props c name = sized props c name := by
    intro name hname
    exact readKeys_other (by simpa [int] using hname) _
  simp only [Stores, List.forall_mem_cons, List.not_mem_nil, false_implies, implies_true, and_true]
    at hpath hlocals hfps ⊢
  obtain ⟨⟨w, hw, hlw⟩, ⟨hh, hhr, hlh⟩, ⟨f, hf, hlf⟩⟩ := hlocals
  obtain ⟨p, hp, hsp⟩ := hpath
  obtain ⟨n, hn, hsn⟩ := hfps
  obtain ⟨text, rfl⟩ := read_string hf
  refine ⟨⟨⟨p, hp, ?_⟩, ⟨w, hw, ?_⟩, ⟨hh, hhr, ?_⟩, ⟨n, hn, hsn⟩⟩, text, hf, hlf⟩
  · rw [hother _ (by decide)]
    exact hsp
  · rw [hother _ (by decide)]
    exact hlw
  · rw [hother _ (by decide)]
    exact hlh

/-- **What `CameraConfig` reports** where all keys are there. -/
theorem readConfig_format {props : Ptree} (h : firstError props reads = none) (c : Members Value) :
    (Stores props keys (readConfig props c).1 ∧ (readConfig props c).2 = .returned 0) ∨
      (firstError props keys ≠ none ∧ (readConfig props c).2 = .returned 1) := by
  obtain ⟨hstores, text, htext, hlocal⟩ := stored_read h c
  have hof : formatOf (some (.string text)) = pixelFormat text := rfl
  have hread := read_format htext
  rw [readConfig_read h, hlocal, hof]
  cases hf : pixelFormat text with
  | some t =>
    rw [hf] at hread
    refine Or.inl ⟨?_, rfl⟩
    have hkept : ∀ k ∈ [string "device_path", int "width", int "height", int "fps"],
        Function.update (stored props c) "format" (some (.pixel t)) k.name = stored props c k.name := by
      intro k hk
      apply Function.update_of_ne
      revert k
      decide
    intro k hk
    rcases List.mem_append.mp (show k ∈ [string "device_path", int "width", int "height", int "fps"] ++ [_] from hk)
      with hk | hk
    · obtain ⟨v, hv, hs⟩ := hstores k hk
      exact ⟨v, hv, (hkept k hk).trans hs⟩
    · rw [show k = format from List.mem_singleton.mp hk]
      refine ⟨.pixel t, hread, ?_⟩
      show Function.update (stored props c) "format" _ "format" = _
      exact Function.update_self ..
  | none =>
    rw [hf] at hread
    refine Or.inr ⟨fun hnone => ?_, rfl⟩
    obtain ⟨v, hv⟩ := (firstError_eq_none_iff keys).mp hnone format (List.mem_of_getLast? rfl)
    rw [hread] at hv
    cases hv

end CameraConfig

/-! ## What comes of a section -/

theorem setFile_eq (a : Section) : a.setFile = setFile a.name a.readConfig := by
  cases a <;> rfl

theorem setFile_section {a : Section} {root props : Ptree} (h : root.getChild a.name = some props)
    (c : Members Value) : a.setFile (some root) c = a.readConfig props c := by
  rw [setFile_eq, setFile, h]

theorem setFile_missing {a : Section} {root : Ptree} (h : root.getChild a.name = none) (c : Members Value) :
    a.setFile (some root) c = (c, .returned 1) := by
  rw [setFile_eq, setFile, h]

theorem setFile_full {content : Option Ptree} {a : Section} (h : Full content a) (c : Members Value) :
    (a.setFile content c).2 = .returned 0 ∧ Complete content a (a.setFile content c).1 := by
  obtain ⟨root, props, rfl, hprops, hnone⟩ := h
  rw [setFile_section hprops]
  have hread : (a.readConfig props c).2 = .returned 0 ∧ Stores props a.keys (a.readConfig props c).1 := by
    cases a with
    | http => exact readConfig_full (nodup_keys .http) hnone c
    | video => exact readConfig_full (nodup_keys .video) hnone c
    | camera =>
      rcases CameraConfig.readConfig_format (CameraConfig.reads_of_keys hnone) c with ⟨hstores, hret⟩ | ⟨hne, -⟩
      · exact ⟨hret, hstores⟩
      · exact absurd hnone hne
  exact ⟨hread.1, root, props, rfl, hprops, hread.2⟩

/-- A section of the camera without a key is handed out. -/
theorem setFile_lacksKey {content : Option Ptree} (h : LacksKey content) (c : Members Value) :
    (Section.camera.setFile content c).2 = .returned 0 ∧ ¬ Full content .camera := by
  obtain ⟨root, props, rfl, hprops, hpath⟩ := h
  constructor
  · rw [setFile_section (a := .camera) hprops]
    exact CameraConfig.readConfig_error hpath c
  · rintro ⟨root', props', hroot, hprops', hnone⟩
    cases hroot
    cases hprops.symm.trans hprops'
    rw [CameraConfig.reads_of_keys hnone] at hpath
    cases hpath

theorem setFile_returned {content : Option Ptree} {a : Section} {c : Members Value}
    (h : (a.setFile content c).2 = .returned 0) : Full content a ∨ (a = .camera ∧ LacksKey content) := by
  cases content with
  | none =>
    rw [setFile_eq] at h
    cases h
  | some root =>
    cases hprops : root.getChild a.name with
    | none =>
      rw [setFile_missing hprops] at h
      cases h
    | some props =>
      rw [setFile_section hprops] at h
      cases a with
      | http => exact Or.inl ⟨root, props, rfl, hprops, readConfig_returned h⟩
      | video => exact Or.inl ⟨root, props, rfl, hprops, readConfig_returned h⟩
      | camera =>
        cases hreads : firstError props CameraConfig.reads with
        | none =>
          rcases CameraConfig.readConfig_format hreads c with ⟨hstores, -⟩ | ⟨-, hret⟩
          · exact Or.inl (full_of_complete ⟨root, props, rfl, hprops, hstores⟩)
          · cases hret.symm.trans h
        | some e =>
          have hcaught := (CameraConfig.readConfig_error hreads c).symm.trans h
          cases e with
          | badPath => exact Or.inr ⟨rfl, root, props, rfl, hprops, hreads⟩
          | badData => cases hcaught

/-! ## Calls -/

namespace ProgramConfig

/-- A call comes to this: the object that is there, an exception, or a new object. -/
theorem access_cases (content : Option Ptree) (a : Section) (s : ProgramConfig) :
    (∃ c, s.config a = some c ∧ access content a s = { s with answers := s.answers ++ [(a, some c)] }) ∨
    (s.config a = none ∧ (readConfig content a).2 = .threw ∧ access content a s =
      { s with config := Function.update s.config a (some (readConfig content a).1), stopped := true }) ∨
    (∃ ret, s.config a = none ∧ (readConfig content a).2 = .returned ret ∧ access content a s =
      { s with
        config := Function.update s.config a (some (readConfig content a).1)
        answers := s.answers ++ [(a, if ret = 0 then some (readConfig content a).1 else none)] }) := by
  unfold access
  cases hc : s.config a with
  | some c => exact Or.inl ⟨c, rfl, rfl⟩
  | none =>
    dsimp only
    cases hr : (readConfig content a).2 with
    | threw => exact Or.inr (Or.inl ⟨rfl, rfl, rfl⟩)
    | returned ret => exact Or.inr (Or.inr ⟨ret, rfl, rfl, rfl⟩)

theorem step_eq {content : Option Ptree} {s s' : ProgramConfig} {a : Section} (h : step content s a = some s') :
    s' = access content a s := by
  unfold step at h
  split_ifs at h
  cases a <;> exact (Option.some.inj h).symm

/-- What an accessor without an object has never answered, and one with an object has answered with the result of
`set_file` before. -/
structure Traced (content : Option Ptree) (s : ProgramConfig) : Prop where
  fresh : ∀ a, s.config a = none → ∀ x ∈ s.answers, x.1 ≠ a
  made : s.stopped = false → ∀ a c, s.config a = some c → c = (readConfig content a).1 ∧
    ∃ ret, (readConfig content a).2 = .returned ret ∧ (a, if ret = 0 then some c else none) ∈ s.answers

/-- A complete object is all that is handed out, and an accessor always answers the same. -/
structure Faithful (content : Option Ptree) (s : ProgramConfig) : Prop where
  complete : ∀ x ∈ s.answers, ∀ c, x.2 = some c → Complete content x.1 c
  same : ∀ x ∈ s.answers, ∀ y ∈ s.answers, x.1 = y.1 → x.2 = y.2

/-- A section that is asked for again is a full one, and that of the camera does not lack a key. -/
def Fits (content : Option Ptree) (s : ProgramConfig) (a : Section) : Prop :=
  s.stopped = false → (s.config a ≠ none → Full content a) ∧ (a = .camera → ¬ LacksKey content)

theorem traced_init (content : Option Ptree) : Traced content init := ⟨nofun, nofun⟩

theorem faithful_init (content : Option Ptree) : Faithful content init := ⟨nofun, nofun⟩

theorem traced_access {content : Option Ptree} {a : Section} {s : ProgramConfig} (hs : Traced content s)
    (hstop : s.stopped = false) : Traced content (access content a s) := by
  -- the entries of the other accessors
  have hold : ∀ b c, s.config b = some c → ∀ x, c = (readConfig content b).1 ∧
      ∃ ret, (readConfig content b).2 = .returned ret ∧ (b, if ret = 0 then some c else none) ∈ s.answers ++ [x] := by
    intro b c hc x
    obtain ⟨hmade, ret, hret, hmem⟩ := hs.made hstop b c hc
    exact ⟨hmade, ret, hret, List.mem_append_left _ hmem⟩
  rcases access_cases content a s with ⟨c, hc, he⟩ | ⟨hc, hr, he⟩ | ⟨ret, hc, hr, he⟩ <;> rw [he]
  · refine ⟨fun b hb x hx => ?_, fun _ b c' hb => hold b c' hb _⟩
    rcases List.mem_append.mp hx with hx | hx
    · exact hs.fresh b hb x hx
    · rw [List.mem_singleton.mp hx]
      rintro rfl
      rw [hc] at hb
      cases hb
  · refine ⟨fun b hb x hx => hs.fresh b ?_ x hx, nofun⟩
    simp only [Function.update_apply] at hb
    split_ifs at hb
    exact hb
  · refine ⟨fun b hb x hx => ?_, fun _ b c' hb => ?_⟩
    · simp only [Function.update_apply] at hb
      split_ifs at hb with hba
      rcases List.mem_append.mp hx with hx | hx
      · exact hs.fresh b hb x hx
      · rw [List.mem_singleton.mp hx]
        exact Ne.symm hba
    · simp only [Function.update_apply] at hb
      split_ifs at hb with hba
      · cases hb
        subst hba
        exact ⟨rfl, ret, hr, List.mem_append_right _ (List.mem_singleton_self _)⟩
      · exact hold b c' hb _

theorem faithful_append {content : Option Ptree} {s : ProgramConfig} (hs : Faithful content s) {s' : ProgramConfig}
    {a : Section} {o : Option (Members Value)} (h : s'.answers = s.answers ++ [(a, o)]) :
    Faithful content s' ↔ (∀ c, o = some c → Complete content a c) ∧ ∀ x ∈ s.answers, x.1 = a → x.2 = o := by
  constructor
  · rintro ⟨hcomplete, hsame⟩
    rw [h] at hcomplete hsame
    simp only [List.forall_mem_append, List.forall_mem_singleton, forall₂_and] at hcomplete hsame
    exact ⟨hcomplete.2, hsame.1.2⟩
  · rintro ⟨hcomplete, hsame⟩
    refine ⟨?_, ?_⟩ <;> rw [h] <;> simp only [List.forall_mem_append, List.forall_mem_singleton, forall₂_and]
    · exact ⟨hs.complete, hcomplete⟩
    · exact ⟨⟨hs.same, hsame⟩, fun x hx he => (hsame x hx he.symm).symm, fun _ => trivial⟩

/-- **A call keeps the answers faithful exactly where it fits.** -/
theorem faithful_access_iff {content : Option Ptree} {a : Section} {s : ProgramConfig} (hs : Traced content s)
    (hP : Faithful content s) (hstop : s.stopped = false) :
    Faithful content (access content a s) ↔ Fits content s a := by
  have hfits : Fits content s a ↔ (s.config a ≠ none → Full content a) ∧ (a = .camera → ¬ LacksKey content) :=
    imp_iff_right hstop
  have hlacks : ∀ c, Complete content a c → a = .camera → ¬ LacksKey content := by
    rintro c hc rfl hl
    exact (setFile_lacksKey hl fun _ => none).2 (full_of_complete hc)
  have hlacked : LacksKey content → a = .camera → (readConfig content a).2 = .returned 0 := by
    rintro hl rfl
    exact (setFile_lacksKey hl _).1
  rw [hfits]
  rcases access_cases content a s with ⟨c, hc, he⟩ | ⟨hc, hr, he⟩ | ⟨ret, hc, hr, he⟩ <;> rw [he]
  · rw [faithful_append hP rfl, hc]
    obtain ⟨hmade, ret, hret, hmem⟩ := hs.made hstop a c hc
    constructor
    · rintro ⟨hcomplete, -⟩
      exact ⟨fun _ => full_of_complete (hcomplete c rfl), hlacks c (hcomplete c rfl)⟩
    · rintro ⟨hfull, -⟩
      obtain ⟨hzero, hcomplete⟩ := setFile_full (hfull nofun) fun _ => none
      have hret0 : ret = 0 := by
        cases hret.symm.trans hzero
        rfl
      rw [if_pos hret0] at hmem
      refine ⟨?_, fun x hx hxa => hP.same x hx _ hmem hxa⟩
      rintro _ ⟨⟩
      rw [hmade]
      exact hcomplete
  · refine iff_of_true ⟨hP.complete, hP.same⟩ ⟨fun hne => absurd hc hne, fun ha hl => ?_⟩
    cases hr.symm.trans (hlacked hl ha)
  · rw [faithful_append hP rfl, hc]
    have hfresh : ∀ x ∈ s.answers, x.1 = a → x.2 = if ret = 0 then some (readConfig content a).1 else none :=
      fun x hx hxa => absurd hxa (hs.fresh a hc x hx)
    by_cases hret : ret = 0
    · subst hret
      rw [if_pos rfl] at hfresh ⊢
      constructor
      · rintro ⟨hcomplete, -⟩
        exact ⟨fun hne => absurd rfl hne, hlacks _ (hcomplete _ rfl)⟩
      · rintro ⟨-, hcamera⟩
        refine ⟨?_, hfresh⟩
        rintro _ ⟨⟩
        have hfull : Full content a := (setFile_returned hr).resolve_right fun h => hcamera h.1 h.2
        exact (setFile_full hfull _).2
    · rw [if_neg hret] at hfresh ⊢
      refine iff_of_true ⟨nofun, hfresh⟩ ⟨fun hne => absurd rfl hne, fun ha hl => ?_⟩
      cases hr.symm.trans (hlacked hl ha)
      exact hret rfl

/-- **Only complete objects are handed out, and always the same**, in every state of a run exactly where each accessor
that is called again has a full section and the section of the camera lacks no key; for every content of the file and
all calls in any order. -/
theorem config_faithful_iff (content : Option Ptree) (calls : List Section) :
    Always (step content) (Faithful content) init calls ↔ Along (step content) (Fits content) init calls := by
  apply always_iff_along (Traced content) _ _ (traced_init content) (faithful_init content) calls
  · intro s a s' hs hP h
    have hstop : s.stopped = false := by
      unfold step at h
      split_ifs at h with hstop
      exact Bool.eq_false_iff.mpr hstop
    rw [step_eq h]
    exact ⟨traced_access hs hstop, faithful_access_iff hs hP hstop⟩
  · intro s a hnone hstop
    unfold step at hnone
    rw [if_neg (Bool.eq_false_iff.mp hstop)] at hnone
    cases hnone

/-- A file whose section `http` is empty, and whose camera has no rate. -/
def partialFile : Option Ptree :=
  some (.node [] [("http", .node [] []), ("camera", .node [] [("device_path", .node "/dev/video0".toList []),
    ("width", .node "640".toList []), ("height", .node "480".toList []),
    ("format", .node "V4L2_PIX_FMT_YUYV".toList [])])])

/-- **A second call** hands out the object that the first one could not read, and the camera's is handed out at once
without its rate and its format. -/
theorem second_call : ¬ Always (step partialFile) (Faithful partialFile) init [.http, .http] ∧
    ¬ Always (step partialFile) (Faithful partialFile) init [.camera] := by
  constructor
  · intro h
    have hrun : ∃ s c, run (step partialFile) init [.http, .http] = some s ∧
        s.answers = [(.http, none), (.http, some c)] := ⟨_, _, rfl, rfl⟩
    obtain ⟨s, c, hs, hanswers⟩ := hrun
    have hsame := (h _ (List.prefix_refl _) s hs).same (.http, none) (by simp [hanswers]) (.http, some c)
      (by simp [hanswers]) rfl
    cases hsame
  · intro h
    have hrun : ∃ s c, run (step partialFile) init [.camera] = some s ∧ s.answers = [(.camera, some c)] :=
      ⟨_, _, rfl, rfl⟩
    obtain ⟨s, c, hs, hanswers⟩ := hrun
    have hlacks : LacksKey partialFile := ⟨_, _, rfl, rfl, rfl⟩
    apply (setFile_lacksKey hlacks fun _ => none).2
    exact full_of_complete ((h _ (List.prefix_refl _) s hs).complete (.camera, some c) (by simp [hanswers]) c rfl)

end ProgramConfig

end RpiCam.Config
