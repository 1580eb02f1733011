import RpiCam.Http.Handler
import RpiCam.Lib.Iteration

/-!
# The name of a program

`iterate_program_post` takes the name in an upload by its size, and `iterate_get_filename` the name in a start or a stop
up to a NUL.

* `pieceAt` : a piece in its buffer;
* `Delivers` : a body with a piece of the field `name`;
* `HandsOver` : the name that a request gives to `start_event` or `stop_event`, `handsOver_cStr`;
* `upload_name` : the name that an upload stores;
* `cStr_buffer_iff`, `cStr_append_eq_iff` : when a C string in a buffer is a part of it, and when two are the same;
* `program_name_iff` : when the names are the same.
-/

namespace RpiCam.Http

/-- The piece of `size` bytes at `pos` in a buffer; what is behind it can be read as well. -/
def pieceAt (key buffer : List Char) (pos size off : Nat) : BufferedPiece where
  key := key
  data := (buffer.drop pos).take size
  off := off
  beyond := buffer.drop (pos + size)

/-- The last piece of the field `name` in the parts of a body. The iteration comes to it. -/
structure Delivers (body : List (List BufferedPiece)) (piece : BufferedPiece) : Prop where
  key : piece.key = "name".toList
  last : ∃ parts pre post parts', body = parts ++ (pre ++ piece :: post) :: parts' ∧
    (∀ p ∈ pre, p.data ≠ []) ∧ (∀ p ∈ post, p.key ≠ "name".toList) ∧
    ∀ ps ∈ parts', ∀ p ∈ ps, p.key ≠ "name".toList

namespace HttpRequest

/-- The call of `EventHandler` that a route makes with the name. -/
def nameEvent (r : HttpRequest) : Option (List Char → EventCall) :=
  match route r.url r.method with
  | .programStart => some .startEvent
  | .programStop => some .stopEvent
  | _ => none

/-- A start or a stop whose first call has got its memory and its post processor. -/
structure Named (r : HttpRequest) : Prop where
  route : r.nameEvent ≠ none
  info : r.surroundings.resources.info = true
  processor : r.surroundings.resources.processor = true

/-- Each end of the body gives the name to `start_event` or `stop_event`. -/
def HandsOver (r : HttpRequest) (name : List Char) : Prop :=
  ∃ event, r.nameEvent = some event ∧ ∀ finals, r.serve finals = .ok ⟨[], List.replicate finals (event name)⟩

end HttpRequest

/-! ## C strings in a buffer -/

/-- A C string ends with its value where the value has no NUL and one is behind it. -/
theorem cStr_buffer_iff (value after : List Char) :
    '\x00' ∈ value ++ after ∧ cStr (value ++ after) = value ↔ '\x00' ∉ value ∧ after.head? = some '\x00' := by
  constructor
  · rintro ⟨hnul, heq⟩
    have hvalue : '\x00' ∉ value := heq ▸ nul_notMem_cStr (value ++ after)
    refine ⟨hvalue, ?_⟩
    rw [cStr_append hvalue, List.append_right_eq_self] at heq
    cases after with
    | nil => exact absurd hnul (by simpa using hvalue)
    | cons c after =>
      have hc : c = '\x00' := by
        by_contra hc
        simp [cStr, hc] at heq
      rw [hc, List.head?_cons]
  · rintro ⟨hvalue, hhead⟩
    cases after with
    | nil => cases hhead
    | cons c after =>
      rw [List.head?_cons, Option.some.injEq] at hhead
      subst hhead
      refine ⟨by simp, ?_⟩
      rw [cStr_append hvalue]
      simp [cStr]

/-- Two buffers with one value: the C strings are the same where the value ends them, or what is behind it does so
alike. -/
theorem cStr_append_eq_iff (value after after' : List Char) :
    cStr (value ++ after) = cStr (value ++ after') ↔ '\x00' ∈ value ∨ cStr after = cStr after' := by
  by_cases h : '\x00' ∈ value
  · simp only [cStr_append_nul h, h, true_or]
  · simp only [cStr_append h, List.append_cancel_left_eq, h, false_or]

theorem pieceAt_data (key before value after : List Char) (off : Nat) :
    (pieceAt key (before ++ value ++ after) before.length value.length off).data = value := by
  simp [pieceAt]

theorem pieceAt_beyond (key before value after : List Char) (off : Nat) :
    (pieceAt key (before ++ value ++ after) before.length value.length off).beyond = after := by
  simp [pieceAt]

/-! ## The two iterators -/

theorem getFilename_eq_iterate : getFilename = iterate iterateGetFilename := by
  funext info pieces
  induction pieces generalizing info with
  | nil => rfl
  | cons piece pieces ih => rw [getFilename, iterate, ih]

theorem postProcess_map_eq_iterate (info : ConnectionInfo) (pieces : List BufferedPiece) :
    info.postProcess (pieces.map BufferedPiece.toPostPiece) =
      iterate (fun info piece => info.iterateProgramPost piece.toPostPiece) info pieces := by
  induction pieces generalizing info with
  | nil => rfl
  | cons piece pieces ih => rw [List.map_cons, ConnectionInfo.postProcess, iterate, ih]

theorem iterateGetFilename_other {piece : BufferedPiece} (h : piece.key ≠ "name".toList) (info : ConnectionInfo) :
    (iterateGetFilename info piece).1.fileName = info.fileName := by
  rw [iterateGetFilename, if_neg h]

theorem iterateProgramPost_other {piece : PostPiece} (h : piece.key ≠ "name".toList) (info : ConnectionInfo) :
    (info.iterateProgramPost piece).1.fileName = info.fileName := by
  rw [ConnectionInfo.iterateProgramPost, if_neg h]
  split_ifs <;> rfl

/-- The name of a start or a stop: a C string, which may end behind the piece. -/
theorem foldl_getFilename {body : List (List BufferedPiece)} {piece : BufferedPiece} (h : Delivers body piece)
    (info : ConnectionInfo) :
    (body.foldl getFilename info).fileName = cStr (piece.data ++ piece.beyond) := by
  obtain ⟨parts, pre, post, parts', rfl, hpre, hpost, hparts'⟩ := h.last
  rw [getFilename_eq_iterate]
  apply foldl_iterate_takes ConnectionInfo.fileName
  · intro p hp info
    simpa [iterateGetFilename] using hpre p hp
  · intro info
    rw [iterateGetFilename, if_pos h.key]
  · exact fun p hp => iterateGetFilename_other (hpost p hp)
  · exact fun ps hps p hp => iterateGetFilename_other (hparts' ps hps p hp)

theorem foldl_postProcess {body : List (List BufferedPiece)} {piece : BufferedPiece} (h : Delivers body piece)
    (info : ConnectionInfo) :
    ((body.map fun pieces => pieces.map BufferedPiece.toPostPiece).foldl ConnectionInfo.postProcess info).fileName =
      piece.data := by
  obtain ⟨parts, pre, post, parts', rfl, hpre, hpost, hparts'⟩ := h.last
  rw [List.foldl_map]
  simp only [postProcess_map_eq_iterate]
  apply foldl_iterate_takes ConnectionInfo.fileName
  · intro p hp info
    simpa [ConnectionInfo.iterateProgramPost] using hpre p hp
  · intro info
    rw [ConnectionInfo.iterateProgramPost, if_pos h.key]
  · exact fun p hp => iterateProgramPost_other (hpost p hp)
  · exact fun ps hps p hp => iterateProgramPost_other (hparts' ps hps p hp)

/-! ## Requests -/

namespace HttpRequest

variable {r : HttpRequest}

theorem handler_of_nameEvent {event : List Char → EventCall} (h : r.nameEvent = some event) (uploadClient : Int)
    (conCls : Option ConnectionInfo) (call : BodyCall) :
    libmicrohttpdHandler r.surroundings r.url r.method r.headers uploadClient conCls call =
      programNameAccept event r.surroundings.resources uploadClient conCls call := by
  unfold nameEvent at h
  rw [libmicrohttpdHandler]
  split at h
  · rename_i hroute
    cases h
    rw [hroute]
    rfl
  · rename_i hroute
    cases h
    rw [hroute]
    rfl
  · cases h

/-- **A start or a stop hands over the C string at the piece.** -/
theorem handsOver_cStr (hr : r.Named) {piece : BufferedPiece} (h : Delivers r.body piece) :
    r.HandsOver (cStr (piece.data ++ piece.beyond)) := by
  obtain ⟨event, hevent⟩ := Option.ne_none_iff_exists'.mp hr.route
  refine ⟨event, hevent, fun finals => ?_⟩
  have hhandler := handler_of_nameEvent hevent
  have hinfo : ¬ r.surroundings.resources.info = false := by simp [hr.info]
  have hproc : ¬ r.surroundings.resources.processor = false := by simp [hr.processor]
  have hserve := serveFrom_name hhandler r.body finals r.uploadClient { ConnectionInfo.fresh with postprocessor := true }
  rw [foldl_getFilename h] at hserve
  simp only [serve, serveFrom, hhandler, programNameAccept, if_neg hinfo, if_neg hproc, hserve]
  rfl

theorem HandsOver.eq {name name' : List Char} (h : r.HandsOver name) (h' : r.HandsOver name') : name = name' := by
  obtain ⟨event, hevent, hserve⟩ := h
  obtain ⟨event', hevent', hserve'⟩ := h'
  rw [hevent, Option.some.injEq] at hevent'
  subst hevent'
  have hone := (hserve 1).symm.trans (hserve' 1)
  simp only [List.replicate_one, Except.ok.injEq, Outcome.mk.injEq, List.cons.injEq, and_true, true_and] at hone
  unfold nameEvent at hevent
  split at hevent
  · cases hevent
    exact EventCall.startEvent.inj hone
  · cases hevent
    exact EventCall.stopEvent.inj hone
  · cases hevent

theorem upload_name {piece : BufferedPiece} (h : Delivers r.body piece) :
    (r.upload 1).info.fileName = piece.data :=
  foldl_postProcess h _

/-- **Start, stop and upload read the same name** exactly where the name has no NUL and a NUL is behind it. Two requests
with the same name hand over the same one exactly where it has a NUL, or the bytes behind it are the same up to one. -/
theorem program_name_iff (hr : r.Named) {before value after : List Char} {off : Nat}
    (hbody : Delivers r.body
      (pieceAt "name".toList (before ++ value ++ after) before.length value.length off)) :
    ('\x00' ∈ value ++ after ∧ r.HandsOver (r.upload 1).info.fileName ↔
      '\x00' ∉ value ∧ after.head? = some '\x00') ∧
    ∀ (r' : HttpRequest) (before' after' : List Char) (off' : Nat), r'.Named →
      Delivers r'.body (pieceAt "name".toList (before' ++ value ++ after') before'.length value.length off') →
      ((∃ name, r.HandsOver name ∧ r'.HandsOver name) ↔ '\x00' ∈ value ∨ cStr after = cStr after') := by
  have hname := handsOver_cStr hr hbody
  rw [pieceAt_data, pieceAt_beyond] at hname
  constructor
  · rw [upload_name hbody, pieceAt_data, ← cStr_buffer_iff]
    apply and_congr_right
    intro _
    constructor
    · exact fun h => hname.eq h
    · intro h
      rwa [h] at hname
  · intro r' before' after' off' hr' hbody'
    have hname' := handsOver_cStr hr' hbody'
    rw [pieceAt_data, pieceAt_beyond] at hname'
    rw [← cStr_append_eq_iff]
    constructor
    · rintro ⟨name, h, h'⟩
      rw [hname.eq h, hname'.eq h']
    · intro h
      rw [← h] at hname'
      exact ⟨_, hname, hname'⟩

/-- A start with the name `cam` in a buffer that goes on with these bytes. -/
def startBefore (after : List Char) : HttpRequest :=
  { startCam with body := [[pieceAt "name".toList ("--b\r\n\r\n".toList ++ "cam".toList ++ after) 7 3 0]] }

/-- The name is followed by the end of the multipart body. -/
def startInBody : HttpRequest := startBefore "\r\n--b--\x00".toList

theorem delivers_startBefore (after : List Char) : Delivers (startBefore after).body
    (pieceAt "name".toList ("--b\r\n\r\n".toList ++ "cam".toList ++ after) 7 3 0) where
  key := rfl
  last := ⟨[], [], [], [], rfl, by simp, by simp, by simp⟩

theorem named_startBefore (after : List Char) : (startBefore after).Named where
  route := by
    have hstart : startCam.nameEvent ≠ none := by decide
    exact hstart
  info := rfl
  processor := rfl

/-- A NUL behind the name keeps it, and then the bytes behind the NUL do not matter; the end of a body does not. -/
theorem program_name_iff_cam :
    (startBefore "\x00a".toList).HandsOver ((startBefore "\x00a".toList).upload 1).info.fileName ∧
      (∃ name, (startBefore "\x00a".toList).HandsOver name ∧ (startBefore "\x00b".toList).HandsOver name) ∧
      ¬ startInBody.HandsOver (startInBody.upload 1).info.fileName := by
  have hterminated := program_name_iff (named_startBefore "\x00a".toList) (delivers_startBefore "\x00a".toList)
  have hbody := (program_name_iff (named_startBefore _) (delivers_startBefore "\r\n--b--\x00".toList)).1
  refine ⟨(hterminated.1.mpr ⟨by decide, rfl⟩).2, ?_, fun h => ?_⟩
  · exact (hterminated.2 _ _ "\x00b".toList 0 (named_startBefore _) (delivers_startBefore _)).mpr (Or.inr (by decide))
  · exact absurd (hbody.mp ⟨by decide, h⟩).2 (by decide)

/-- The upload of the body is named `cam`; the start is of what stands in the buffer up to a NUL. -/
theorem start_in_body : startInBody.HandsOver "cam\r\n--b--".toList ∧
    (startInBody.upload 1).info.fileName = "cam".toList ∧ ¬ startInBody.HandsOver "cam".toList := by
  have hname := handsOver_cStr (named_startBefore "\r\n--b--\x00".toList) (delivers_startBefore _)
  rw [show cStr (_ ++ _) = "cam\r\n--b--".toList by decide] at hname
  refine ⟨hname, ?_, fun h => ?_⟩
  · rw [startInBody, upload_name (delivers_startBefore _)]
    decide
  · exact absurd (hname.eq h) (by decide)

end HttpRequest

end RpiCam.Http
