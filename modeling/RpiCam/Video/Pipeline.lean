import RpiCam.Lib.Words
import RpiCam.Video.FileLock

/-!
# The pipeline of an event

`process_video` writes the description of its pipeline as a text, with the event id, the directory and the names of the
segments in it, and `gst_parse_launch` reads it up to a NUL.

* `tokens` : the words of the description;
* `template` : what they are meant to be: one `filesink`, and a `filesrc` for each segment;
* `Contained` : they are that, and the id is one component of a path;
* `Tame` : a text that is part of one word;
* `pipeline_contained_iff` : which ids, directories and names are contained; `tokens_eq_of_contained` : two ids that are.
-/

namespace RpiCam.Video

/-- The words that `gst_parse_launch` reads. -/
def tokens (description : List Char) : List (List Char) := words isSpace (cStr description)

def location (file : List Char) : List Char := "location=".toList ++ file

/-- The elements of the pipeline before the segments, from line 105. -/
def sinkTokens (file : List Char) : List (List Char) :=
  ["concat".toList, "name=c".toList, "!".toList, "queue".toList, "!".toList, "m.video_0".toList, "qtmux".toList,
    "name=m".toList, "!".toList, "filesink".toList, location file]

/-- The elements for a segment, from line 109. -/
def sourceTokens (file : List Char) : List (List Char) :=
  ["filesrc".toList, location file, "!".toList, "qtdemux".toList, "!".toList, "h264parse".toList, "!".toList,
    "c.".toList]

/-- The pipeline that is meant: it writes the file of the event, and reads each of the segments. -/
def template (c : VideoConfig) (eventId : List Char) (concat : List FileName) : List (List Char) :=
  sinkTokens (eventFile c eventId) ++ concat.flatMap fun file => sourceTokens (filePath c.vidPath file)

/-- The description is the one that is meant, and the id is one component of a path. -/
def Contained (c : VideoConfig) (eventId : List Char) (concat : List FileName) : Prop :=
  tokens (pipeline c eventId concat) = template c eventId concat ∧ eventId ≠ [] ∧ '/' ∉ eventId

/-- A text without white space or a NUL. -/
def Tame (s : List Char) : Prop := ∀ ch ∈ s, isSpace ch = false ∧ ch ≠ '\x00'

instance decidableTame (s : List Char) : Decidable (Tame s) :=
  s.decidableBAll fun ch => isSpace ch = false ∧ ch ≠ '\x00'

@[simp] theorem tame_append {s t : List Char} : Tame (s ++ t) ↔ Tame s ∧ Tame t := List.forall_mem_append

theorem tame_of_mem_tokens {description w : List Char} (hw : w ∈ tokens description) : Tame w := by
  intro ch hch
  obtain ⟨hspace, hmem⟩ := (of_mem_words hw).2 ch hch
  refine ⟨hspace, ?_⟩
  rintro rfl
  exact nul_notMem_cStr _ hmem

/-! ## The words of the description -/

theorem words_space {w : List Char} (hw : Tame w) (hne : w ≠ []) (s : List Char) :
    words isSpace (w ++ ' ' :: s) = w :: words isSpace s :=
  words_append_word rfl hne (fun ch hch => (hw ch hch).1) s

def sourceText (c : VideoConfig) (file : FileName) : List Char :=
  " filesrc location=".toList ++ c.vidPath ++ "/".toList ++ file ++ " ! qtdemux ! h264parse ! c.".toList

theorem sourceText_eq (c : VideoConfig) (file : FileName) (rest : List Char) :
    sourceText c file ++ rest =
      ' ' :: ("filesrc".toList ++ ' ' :: (location (filePath c.vidPath file) ++ ' ' ::
        ("! qtdemux ! h264parse !".toList ++ ' ' :: ("c.".toList ++ rest)))) := by
  have hassoc : ∀ a b v f m e : List Char, (' ' :: (a ++ ' ' :: b)) ++ v ++ ['/'] ++ f ++ (' ' :: (m ++ ' ' :: e)) ++ rest =
      ' ' :: (a ++ ' ' :: ((b ++ (v ++ '/' :: f)) ++ ' ' :: (m ++ ' ' :: (e ++ rest)))) := by
    intro a b v f m e
    simp
  have hsource : " filesrc location=".toList = ' ' :: ("filesrc".toList ++ ' ' :: "location=".toList) := by decide
  have hlink : " ! qtdemux ! h264parse ! c.".toList = ' ' :: ("! qtdemux ! h264parse !".toList ++ ' ' :: "c.".toList) := by
    decide
  unfold sourceText location filePath
  rw [hsource, hlink]
  exact hassoc ..

theorem pipeline_eq (c : VideoConfig) (eventId : List Char) (concat : List FileName) :
    pipeline c eventId concat = "concat name=c ! queue ! m.video_0 qtmux name=m ! filesink".toList ++ ' ' ::
      (location (eventFile c eventId) ++ concat.flatMap (sourceText c)) := by
  have hassoc : ∀ a b v d e f t : List Char, (a ++ ' ' :: b) ++ v ++ d ++ e ++ f ++ t =
      a ++ ' ' :: ((b ++ (v ++ d ++ e ++ f)) ++ t) := by
    intro a b v d e f t
    simp
  have hsink : "concat name=c ! queue ! m.video_0 qtmux name=m ! filesink location=".toList =
      "concat name=c ! queue ! m.video_0 qtmux name=m ! filesink".toList ++ ' ' :: "location=".toList := by decide
  unfold pipeline location eventFile
  rw [hsink]
  exact hassoc ..

theorem words_sources {c : VideoConfig} {w : List Char} {concat : List FileName} (hw : Tame w) (hne : w ≠ [])
    (hpath : Tame c.vidPath) (hfiles : ∀ file ∈ concat, Tame file) :
    words isSpace (w ++ concat.flatMap (sourceText c)) =
      w :: concat.flatMap fun file => sourceTokens (filePath c.vidPath file) := by
  induction concat generalizing w with
  | nil =>
    rw [List.flatMap_nil, List.flatMap_nil, List.append_nil]
    exact words_of_word hne fun ch hch => (hw ch hch).1
  | cons file files ih =>
    rw [List.forall_mem_cons] at hfiles
    have hlocation : Tame (location (filePath c.vidPath file)) := by
      refine tame_append.mpr ⟨by decide, tame_append.mpr ⟨hpath, ?_⟩⟩
      exact List.forall_mem_cons.mpr ⟨by decide, hfiles.1⟩
    have hlink : words isSpace "! qtdemux ! h264parse !".toList =
        ["!".toList, "qtdemux".toList, "!".toList, "h264parse".toList, "!".toList] := by decide
    have hrest := ih (w := "c.".toList) (by decide) (by decide) hfiles.2
    rw [List.flatMap_cons, List.flatMap_cons, sourceText_eq, words_space hw hne, words_space (by decide) (by decide),
      words_space hlocation (List.append_ne_nil_of_left_ne_nil (by decide) _), words_append_cons rfl, hrest, hlink]
    rfl

theorem nul_notMem_append {s t : List Char} : '\x00' ∉ s ++ t ↔ '\x00' ∉ s ∧ '\x00' ∉ t := by
  rw [List.mem_append, not_or]

theorem Tame.noNul {s : List Char} (h : Tame s) : '\x00' ∉ s := fun hmem => (h _ hmem).2 rfl

theorem nul_notMem_pipeline {c : VideoConfig} {eventId : List Char} {concat : List FileName} (hpath : Tame c.vidPath)
    (hid : Tame eventId) (hfiles : ∀ file ∈ concat, Tame file) : '\x00' ∉ pipeline c eventId concat := by
  unfold pipeline
  simp only [nul_notMem_append]
  refine ⟨⟨⟨⟨⟨by decide, hpath.noNul⟩, by decide⟩, hid.noNul⟩, by decide⟩, ?_⟩
  rw [List.mem_flatMap]
  rintro ⟨file, hfile, hmem⟩
  have hsource : '\x00' ∉ sourceText c file := by
    unfold sourceText
    simp only [nul_notMem_append]
    exact ⟨⟨⟨⟨by decide, hpath.noNul⟩, by decide⟩, (hfiles file hfile).noNul⟩, by decide⟩
  exact hsource hmem

/-! ## Which ids are contained -/

/-- **The pipeline of an event** is the one that is meant, and the id one component, exactly where the id is a name without
a slash and nothing in the description has white space or a NUL. -/
theorem pipeline_contained_iff (c : VideoConfig) (eventId : List Char) (concat : List FileName) :
    Contained c eventId concat ↔
      eventId ≠ [] ∧ '/' ∉ eventId ∧ Tame eventId ∧ Tame c.vidPath ∧ ∀ file ∈ concat, Tame file := by
  constructor
  · rintro ⟨ht, hne, hslash⟩
    have htame : ∀ w ∈ template c eventId concat, Tame w := fun w hw => tame_of_mem_tokens (ht ▸ hw)
    have hsink : Tame (location (eventFile c eventId)) := by
      apply htame
      exact List.mem_append_left _ (List.mem_of_getLast? rfl)
    have hevent := tame_append.mp (tame_append.mp (tame_append.mp hsink).2).1
    refine ⟨hne, hslash, hevent.2, (tame_append.mp hevent.1).1, ?_⟩
    intro file hfile
    have hsource : Tame (location (filePath c.vidPath file)) := by
      apply htame
      apply List.mem_append_right
      rw [List.mem_flatMap]
      exact ⟨file, hfile, List.mem_cons_of_mem _ (List.mem_cons_self ..)⟩
    exact fun ch hch => (tame_append.mp (tame_append.mp hsource).2).2 ch (List.mem_cons_of_mem _ hch)
  · rintro ⟨hne, hslash, hid, hpath, hfiles⟩
    refine ⟨?_, hne, hslash⟩
    have hevent : Tame (location (eventFile c eventId)) := by
      refine tame_append.mpr ⟨by decide, tame_append.mpr ⟨tame_append.mpr ⟨tame_append.mpr ⟨hpath, ?_⟩, hid⟩, ?_⟩⟩
      · decide
      · decide
    have hsink : words isSpace "concat name=c ! queue ! m.video_0 qtmux name=m ! filesink".toList =
        ["concat".toList, "name=c".toList, "!".toList, "queue".toList, "!".toList, "m.video_0".toList, "qtmux".toList,
          "name=m".toList, "!".toList, "filesink".toList] := by decide +kernel
    unfold tokens
    rw [cStr_eq_self (nul_notMem_pipeline hpath hid hfiles), pipeline_eq, words_append_cons rfl, hsink,
      words_sources hevent (List.append_ne_nil_of_left_ne_nil (by decide) _) hpath hfiles]
    rfl

/-- **Two ids that spoil the pipeline**: one brings a second sink, the other names a file outside `event`. -/
theorem spliced_id : ¬ Contained readmeConfig "a filesink location=/b".toList ["100.mp4".toList] ∧
    ¬ Contained readmeConfig "../a".toList ["100.mp4".toList] := by
  constructor
  · intro h
    exact absurd h.1 (by decide +kernel)
  · intro h
    exact absurd h.2.2 (by decide)

/-- Two ids that are contained differ in the location of the sink alone. -/
theorem tokens_eq_of_contained {c : VideoConfig} {eventId eventId' : List Char} {concat : List FileName}
    (h : Contained c eventId concat) (h' : Contained c eventId' concat) :
    tokens (pipeline c eventId' concat) =
      (tokens (pipeline c eventId concat)).set 10 (location (eventFile c eventId')) := by
  rw [h.1, h'.1]
  rfl

end RpiCam.Video
