import RpiCam.Http.Install

/-!
# Bodies in pieces

The post processor gives the value of a field to `iterate_program_post` in pieces. `name` and `fps` are assigned from
each piece, and `file` is appended to, from nothing at offset 0.

* `Field`, `deliver` : a body with its cuts, and the calls of the iterator;
* `takeLast`, `takeAll` : what the pieces of one more field make of a value;
* `received_fields` : the fields of a `connection_info` after a body;
* `received_eq_iff` : when a value is the last field of its key;
* `whole_iff` : when the three of them are.
-/

namespace RpiCam.Http

/-- A field of a multipart body: its value in the pieces that are delivered. An empty value has none. -/
structure Field where
  key : List Char
  pieces : List (List Char)
  nonempty : ∀ p ∈ pieces, p ≠ []

def Field.value (f : Field) : List Char := f.pieces.flatten

/-- The calls of the iterator for pieces from the offset `off` on. -/
def deliverFrom (key : List Char) (off : Nat) : List (List Char) → List PostPiece
  | [] => []
  | p :: ps => ⟨key, p, off⟩ :: deliverFrom key (off + p.length) ps

def Field.deliver (f : Field) : List PostPiece := deliverFrom f.key 0 f.pieces

def deliver (body : List Field) : List PostPiece := body.flatMap Field.deliver

/-- The pieces of each field `key` of a body. -/
def cuts (key : List Char) (body : List Field) : List (List (List Char)) :=
  (body.filter fun f => f.key = key).map Field.pieces

/-- The last value of `key`, or nothing. -/
def lastValue (key : List Char) (body : List Field) : List Char := ((cuts key body).getLast?.getD []).flatten

/-- The fields hold the last values of the body. -/
structure Whole (info : ConnectionInfo) (body : List Field) : Prop where
  name : info.fileName = lastValue "name".toList body
  fps : info.fps = lastValue "fps".toList body
  file : info.fileContent = lastValue "file".toList body

/-- The last of the fields is one piece, or all of them are empty. -/
def OnePiece (cs : List (List (List Char))) : Prop := (∀ ps ∈ cs, ps = []) ∨ (cs.getLast?.getD []).length = 1

/-- The last of the fields is not empty, or all of them are. -/
def Nonempty (cs : List (List (List Char))) : Prop := (∀ ps ∈ cs, ps = []) ∨ cs.getLast?.getD [] ≠ []

/-- The last name and the last fps are in one piece, and the last file is not empty; or there is nothing of the kind. -/
def Uncut (body : List Field) : Prop :=
  OnePiece (cuts "name".toList body) ∧ OnePiece (cuts "fps".toList body) ∧ Nonempty (cuts "file".toList body)

/-! ## Values -/

/-- Pieces that are assigned. -/
def takeLast (v : List Char) (ps : List (List Char)) : List Char := ps.getLast?.getD v

/-- Pieces that are appended. -/
def takeAll (v : List Char) (ps : List (List Char)) : List Char := if ps = [] then v else ps.flatten

section Values

variable {take : List Char → List (List Char) → List Char}

theorem received_eq_nil_iff (hnil : ∀ v, take v [] = v)
    (hne : ∀ v ps, ps ≠ [] → (∀ p ∈ ps, p ≠ []) → take v ps ≠ [])
    {cs : List (List (List Char))} (hcs : ∀ ps ∈ cs, ∀ p ∈ ps, p ≠ []) :
    cs.foldl take [] = [] ↔ ∀ ps ∈ cs, ps = [] := by
  induction cs using List.reverseRecOn with
  | nil => simp
  | append_singleton cs ps ih =>
    rw [List.foldl_concat]
    by_cases hps : ps = []
    · rw [hps, hnil, ih fun qs hqs => hcs qs (List.mem_append_left _ hqs)]
      simp [or_imp]
    · have := hne (cs.foldl take []) ps hps (hcs ps (by simp))
      constructor
      · intro h
        exact absurd h this
      · intro h
        exact absurd (h ps (by simp)) hps

/-- A value is the last field of its key if the last field was taken whole, or if all of them are empty. -/
theorem received_eq_iff (good : List (List Char) → Prop) (hnil : ∀ v, take v [] = v)
    (hne : ∀ v ps, ps ≠ [] → (∀ p ∈ ps, p ≠ []) → take v ps ≠ [])
    (hgood : ∀ v ps, ps ≠ [] → (∀ p ∈ ps, p ≠ []) → (take v ps = ps.flatten ↔ good ps)) (hgoodne : ¬ good [])
    {cs : List (List (List Char))} (hcs : ∀ ps ∈ cs, ∀ p ∈ ps, p ≠ []) :
    cs.foldl take [] = (cs.getLast?.getD []).flatten ↔ (∀ ps ∈ cs, ps = []) ∨ good (cs.getLast?.getD []) := by
  cases cs using List.reverseRecOn with
  | nil => simp
  | append_singleton cs ps =>
    rw [List.foldl_concat, List.getLast?_concat, Option.getD_some]
    by_cases hps : ps = []
    · subst hps
      have hcs' : ∀ ps ∈ cs, ∀ p ∈ ps, p ≠ [] := fun qs hqs => hcs qs (List.mem_append_left _ hqs)
      rw [hnil, List.flatten_nil, received_eq_nil_iff hnil hne hcs']
      simp [hgoodne, or_imp]
    · rw [hgood _ ps hps (hcs ps (by simp))]
      constructor
      · exact Or.inr
      · rintro (h | h)
        · exact absurd (h ps (by simp)) hps
        · exact h

end Values

theorem takeLast_eq_flatten {v : List Char} {ps : List (List Char)} (hps : ps ≠ []) (hne : ∀ p ∈ ps, p ≠ []) :
    takeLast v ps = ps.flatten ↔ ps.length = 1 := by
  cases ps using List.reverseRecOn with
  | nil => exact absurd rfl hps
  | append_singleton ps p =>
    rw [takeLast, List.getLast?_concat, Option.getD_some, List.flatten_concat, List.length_append]
    cases ps with
    | nil => simp
    | cons q ps =>
      have hq := List.length_pos_iff.mpr (hne q (by simp))
      constructor
      · intro h
        have := congrArg List.length h
        simp only [List.flatten_cons, List.length_append] at this
        omega
      · intro h
        simp at h

theorem takeLast_iff {cs : List (List (List Char))} (hcs : ∀ ps ∈ cs, ∀ p ∈ ps, p ≠ []) :
    cs.foldl takeLast [] = (cs.getLast?.getD []).flatten ↔ OnePiece cs := by
  apply received_eq_iff (fun ps => ps.length = 1)
  · exact fun v => rfl
  · intro v ps hps hne
    obtain ⟨p, hp⟩ := List.getLast?_isSome.mpr hps |> Option.isSome_iff_exists.mp
    rw [takeLast, hp]
    exact hne p (List.mem_of_getLast? hp)
  · exact fun v ps => takeLast_eq_flatten
  · simp
  · exact hcs

theorem takeAll_iff {cs : List (List (List Char))} (hcs : ∀ ps ∈ cs, ∀ p ∈ ps, p ≠ []) :
    cs.foldl takeAll [] = (cs.getLast?.getD []).flatten ↔ Nonempty cs := by
  apply received_eq_iff (fun ps => ps ≠ [])
  · exact fun v => rfl
  · intro v ps hps hne
    rw [takeAll, if_neg hps]
    obtain ⟨p, tail, rfl⟩ := List.exists_cons_of_ne_nil hps
    have := hne p (by simp)
    simp [this]
  · intro v ps hps _
    simp [takeAll, hps]
  · simp
  · exact hcs

/-! ## The fields of a `connection_info` -/

/-- The iterator on pieces, none of which ends the iteration. -/
def feed (info : ConnectionInfo) (pieces : List PostPiece) : ConnectionInfo :=
  pieces.foldl (fun info piece => (info.iterateProgramPost piece).1) info

theorem postProcess_eq_feed {pieces : List PostPiece} (h : ∀ p ∈ pieces, p.data ≠ []) (info : ConnectionInfo) :
    info.postProcess pieces = feed info pieces := by
  induction pieces generalizing info with
  | nil => rfl
  | cons p pieces ih =>
    have hgo : (info.iterateProgramPost p).2 = true := by
      simpa [ConnectionInfo.iterateProgramPost] using h p (by simp)
    rw [ConnectionInfo.postProcess, if_pos hgo, ih fun q hq => h q (by simp [hq])]
    rfl

/-- How the pieces are grouped into parts of the body does not matter. -/
theorem foldl_postProcess_eq_feed {parts : List (List PostPiece)} (h : ∀ p ∈ parts.flatten, p.data ≠ [])
    (info : ConnectionInfo) : parts.foldl ConnectionInfo.postProcess info = feed info parts.flatten := by
  induction parts generalizing info with
  | nil => rfl
  | cons pieces parts ih =>
    rw [List.flatten_cons] at h
    rw [List.foldl_cons, postProcess_eq_feed fun p hp => h p (List.mem_append_left _ hp),
      ih fun p hp => h p (List.mem_append_right _ hp), List.flatten_cons, feed, feed, feed, List.foldl_append]

theorem data_ne_nil {body : List Field} {p : PostPiece} (h : p ∈ deliver body) : p.data ≠ [] := by
  obtain ⟨f, -, hp⟩ := List.mem_flatMap.mp h
  have hfrom : ∀ (ps : List (List Char)) off, p ∈ deliverFrom f.key off ps → p.data ∈ ps := by
    intro ps
    induction ps with
    | nil => intro off hp; cases hp
    | cons q ps ih =>
      intro off hp
      rcases List.mem_cons.mp hp with rfl | hp
      · exact List.mem_cons_self ..
      · exact List.mem_cons_of_mem _ (ih _ hp)
  exact f.nonempty _ (hfrom f.pieces 0 hp)

theorem iterateProgramPost_eq (info : ConnectionInfo) (key data : List Char) (off : Nat) :
    (info.iterateProgramPost ⟨key, data, off⟩).1 =
      { info with
        fileName := if key = "name".toList then data else info.fileName
        fps := if key = "fps".toList then data else info.fps
        fileContent := if key = "file".toList then (if off = 0 then [] else info.fileContent) ++ data
          else info.fileContent } := by
  have h1 : "name".toList ≠ "fps".toList := by decide
  have h2 : "name".toList ≠ "file".toList := by decide
  have h3 : "fps".toList ≠ "file".toList := by decide
  unfold ConnectionInfo.iterateProgramPost
  by_cases hname : key = "name".toList
  · subst hname
    simp only [if_true, h1, h2, if_false]
  · by_cases hfps : key = "fps".toList
    · subst hfps
      simp only [hname, if_true, h3, if_false]
    · simp only [hname, hfps, if_false]
      split_ifs <;> rfl

theorem takeLast_cons (v p : List Char) (ps : List (List Char)) : takeLast p ps = takeLast v (p :: ps) := by
  rw [takeLast, takeLast, List.getLast?_cons, Option.getD_some]

/-- Pieces of a field, from an offset on. What is already there of the file stays, except at offset 0. -/
theorem feed_deliverFrom (key : List Char) {ps : List (List Char)} (h : ∀ p ∈ ps, p ≠ []) (off : Nat)
    (info : ConnectionInfo) :
    feed info (deliverFrom key off ps) =
      { info with
        fileName := if key = "name".toList then takeLast info.fileName ps else info.fileName
        fps := if key = "fps".toList then takeLast info.fps ps else info.fps
        fileContent := if key = "file".toList then
            (if off = 0 ∧ ps ≠ [] then [] else info.fileContent) ++ ps.flatten
          else info.fileContent } := by
  induction ps generalizing off info with
  | nil => simp [feed, deliverFrom, takeLast]
  | cons p ps ih =>
    have hlater : off + p.length ≠ 0 := by
      have := List.length_pos_iff.mpr (h p (by simp))
      omega
    have hfeed : feed info (deliverFrom key off (p :: ps)) =
        feed (info.iterateProgramPost ⟨key, p, off⟩).1 (deliverFrom key (off + p.length) ps) := rfl
    rw [hfeed, ih fun q hq => h q (by simp [hq]), iterateProgramPost_eq]
    simp only [hlater, false_and, if_false]
    congr 1
    · split_ifs <;> first | rfl | exact (takeLast_cons ..)
    · split_ifs <;> first | rfl | exact (takeLast_cons ..)
    · split_ifs <;> simp_all

theorem feed_deliver (f : Field) (info : ConnectionInfo) :
    feed info f.deliver =
      { info with
        fileName := if f.key = "name".toList then takeLast info.fileName f.pieces else info.fileName
        fps := if f.key = "fps".toList then takeLast info.fps f.pieces else info.fps
        fileContent := if f.key = "file".toList then takeAll info.fileContent f.pieces else info.fileContent } := by
  rw [Field.deliver, feed_deliverFrom f.key f.nonempty]
  have htake : (if 0 = 0 ∧ f.pieces ≠ [] then [] else info.fileContent) ++ f.pieces.flatten =
      takeAll info.fileContent f.pieces := by
    by_cases hps : f.pieces = [] <;> simp [takeAll, hps]
  rw [htake]

theorem foldl_cuts_cons (take : List Char → List (List Char) → List Char) (v key : List Char) (f : Field)
    (body : List Field) :
    (cuts key (f :: body)).foldl take v = (cuts key body).foldl take (if f.key = key then take v f.pieces else v) := by
  unfold cuts
  by_cases h : f.key = key <;> simp [h]

/-- **The fields after a body.** -/
theorem received_fields (body : List Field) (info : ConnectionInfo) :
    feed info (deliver body) =
      { info with
        fileName := (cuts "name".toList body).foldl takeLast info.fileName
        fps := (cuts "fps".toList body).foldl takeLast info.fps
        fileContent := (cuts "file".toList body).foldl takeAll info.fileContent } := by
  induction body generalizing info with
  | nil => rfl
  | cons f body ih =>
    have hsplit : feed info (deliver (f :: body)) = feed (feed info f.deliver) (deliver body) := by
      rw [deliver, List.flatMap_cons, feed, feed, feed, List.foldl_append]
      rfl
    rw [hsplit, ih, feed_deliver]
    simp only [foldl_cuts_cons]

theorem cuts_nonempty (key : List Char) (body : List Field) : ∀ ps ∈ cuts key body, ∀ p ∈ ps, p ≠ [] := by
  intro ps hps
  obtain ⟨f, -, rfl⟩ := List.mem_map.mp hps
  exact f.nonempty

/-! ## Two cuts of one body -/

/-- The body without its cuts. -/
def form (body : List Field) : List (List Char × List Char) := body.map fun f => (f.key, f.value)

theorem lastValue_eq (key : List Char) (body : List Field) :
    lastValue key body = (((form body).filter fun f => f.1 = key).map Prod.snd).getLast?.getD [] := by
  have hvalues : ((form body).filter fun f => f.1 = key).map Prod.snd = (cuts key body).map List.flatten := by
    unfold form cuts
    rw [List.filter_map, List.map_map, List.map_map]
    rfl
  rw [hvalues, lastValue, List.getLast?_map]
  cases (cuts key body).getLast? <;> rfl

theorem lastValue_congr {body body' : List Field} (h : form body = form body') (key : List Char) :
    lastValue key body = lastValue key body' := by
  rw [lastValue_eq, lastValue_eq, h]

namespace ProgramRequest

theorem info_eq {r : ProgramRequest} {body : List Field} (h : r.body.flatten = deliver body) :
    r.info = { ConnectionInfo.fresh with
      postprocessor := true
      connectionType := .post
      fileName := (cuts "name".toList body).foldl takeLast []
      fps := (cuts "fps".toList body).foldl takeLast []
      fileContent := (cuts "file".toList body).foldl takeAll [] } := by
  have hdata : ∀ p ∈ r.body.flatten, p.data ≠ [] := by
    rw [h]
    exact fun p => data_ne_nil
  rw [info, foldl_postProcess_eq_feed hdata, h, received_fields]
  rfl

theorem whole_iff {r : ProgramRequest} {body : List Field} (h : r.body.flatten = deliver body) :
    Whole r.info body ↔ Uncut body := by
  rw [info_eq h, Uncut, ← takeLast_iff (cuts_nonempty _ _), ← takeLast_iff (cuts_nonempty _ _),
    ← takeAll_iff (cuts_nonempty _ _)]
  exact ⟨fun h => ⟨h.name, h.fps, h.file⟩, fun h => ⟨h.1, h.2.1, h.2.2⟩⟩

theorem info_eq_of_whole {r r' : ProgramRequest} {body body' : List Field} (h : r.body.flatten = deliver body)
    (h' : r'.body.flatten = deliver body') (hform : form body = form body') (hw : Whole r.info body)
    (hw' : Whole r'.info body') : r'.info = r.info := by
  have hname : r'.info.fileName = r.info.fileName := by rw [hw'.name, hw.name, lastValue_congr hform]
  have hfps : r'.info.fps = r.info.fps := by rw [hw'.fps, hw.fps, lastValue_congr hform]
  have hfile : r'.info.fileContent = r.info.fileContent := by rw [hw'.file, hw.file, lastValue_congr hform]
  rw [info_eq h, info_eq h'] at *
  simp only at hname hfps hfile
  rw [hname, hfps, hfile]

theorem serve_congr {r : ProgramRequest} {parts : List (List PostPiece)} (h : { r with body := parts }.info = r.info) :
    { r with body := parts }.serve = r.serve := by
  by_cases ha : r.Accepted
  · have ha' : { r with body := parts }.Accepted := ha
    rw [serve_accepted ha', serve_accepted ha, h]
  · simp only [serve, serveCalls, programAccept, programAcceptFirst]
    split_ifs with h1 h2 h3
    · rfl
    · rfl
    · rfl
    · exact absurd ⟨by omega, by simpa using h2, by simpa using h3⟩ ha

/-- **An upload is the last field of each name, whatever the cuts, exactly where the last name and the last fps are in
one piece and the last file is not empty**, unless there is nothing of that name in any field. Against such a body the
same one with other cuts leaves the same fields under this condition only, and then installs the same program. -/
theorem upload_whole {r : ProgramRequest} {body : List Field} (h : r.body.flatten = deliver body) :
    (Whole r.info body ↔ Uncut body) ∧
      ∀ body' parts, form body = form body' → parts.flatten = deliver body' → Uncut body →
        ({ r with body := parts }.info = r.info ↔ Uncut body') ∧
          (Uncut body' → ∀ cwd fs fs', { r with body := parts }.Installs cwd fs fs' ↔ r.Installs cwd fs fs') := by
  refine ⟨whole_iff h, ?_⟩
  intro body' parts hform h' hcut
  have hparts : ({ r with body := parts } : ProgramRequest).body.flatten = deliver body' := h'
  have hw := (whole_iff h).mpr hcut
  have hinfo : { r with body := parts }.info = r.info ↔ Uncut body' := by
    rw [← whole_iff hparts]
    constructor
    · intro he
      rw [he]
      exact ⟨hw.name.trans (lastValue_congr hform _), hw.fps.trans (lastValue_congr hform _),
        hw.file.trans (lastValue_congr hform _)⟩
    · exact info_eq_of_whole h hparts hform hw
  refine ⟨hinfo, fun hcut' cwd fs fs' => ?_⟩
  have hserve := serve_congr (hinfo.mpr hcut')
  unfold Installs
  rw [hserve]

/-- The upload of a program `cam`, whose name is sent in these pieces. -/
def camBody (name : List (List Char)) (hname : ∀ p ∈ name, p ≠ []) : List Field :=
  [⟨"name".toList, name, hname⟩, ⟨"fps".toList, ["30".toList], by decide⟩,
    ⟨"file".toList, ["pri".toList, "nt".toList], by decide⟩]

/-- A request with the upload slot and the post processor it needs. -/
def requestOf (body : List Field) : ProgramRequest where
  resources := ⟨true, true⟩
  uploadClient := 10
  body := (deliver body).map fun p => [p]
  finished := true

theorem requestOf_body (body : List Field) : (requestOf body).body.flatten = deliver body := by
  unfold requestOf
  generalize deliver body = pieces
  induction pieces with
  | nil => rfl
  | cons p pieces ih => simpa using ih

theorem upload_whole_cam : Whole (requestOf (camBody ["cam".toList] (by decide))).info
    (camBody ["cam".toList] (by decide)) :=
  (upload_whole (requestOf_body _)).1.mpr ⟨Or.inr (by decide), Or.inr (by decide), Or.inr (by decide)⟩

/-- The same upload with its name in two pieces installs the program `m`. -/
theorem cut_name : ∃ h : ∀ p ∈ ["ca".toList, "m".toList], p ≠ [],
    form (camBody ["ca".toList, "m".toList] h) = form (camBody ["cam".toList] (by decide)) ∧
      (requestOf (camBody ["ca".toList, "m".toList] h)).info.fileName = "m".toList ∧
      (requestOf (camBody ["cam".toList] (by decide))).info.fileName = "cam".toList ∧
      ¬ Whole (requestOf (camBody ["ca".toList, "m".toList] h)).info (camBody ["ca".toList, "m".toList] h) := by
  refine ⟨by decide, by decide, by decide +kernel, by decide +kernel, ?_⟩
  intro h
  exact absurd h.name (by decide +kernel)

end ProgramRequest

end RpiCam.Http
