import RpiCam.Lib.Stoi

/-!
# The upload of a program

A request `POST /program` is served by several calls of `program_accept`: the first one takes an upload slot, one call
for each piece of body that arrives gives it to the post processor, and a last one, at the end of the body, answers.
When the request has ended, however it ends, `post_request_complete` is called.

* `iterateProgramPost` : a value, or a part of one, that the post processor has found in the body;
* `programAccept` : the handler;
* `postRequestComplete` : the completion callback up to the place where it begins to save (line 63);
* `ProgramRequest` : one request, from its first call to its end; `serve` runs its calls.

What libmicrohttpd decides is an argument: whether it creates a post processor, and which pieces it finds in a part of
the body. Destroying a post processor delivers no further piece. Memory is an argument where the source asks whether it
got it: `new` throws there, and the test that follows never finds a null pointer. Line 233 reads `con_info->postprocessor`
for the log after `delete con_info`; nothing depends on what it reads.
-/

namespace RpiCam.Http

inductive HttpMethod
  | get
  | post
  deriving DecidableEq

/-- `http::connection_info`. A `vector<char>` and a `string` are lists of `char`. -/
structure ConnectionInfo where
  connectionType : HttpMethod
  /-- The post processor is not null. -/
  postprocessor : Bool
  fileName : List Char
  fps : List Char
  fileContent : List Char
  uploadDone : Bool
  deriving DecidableEq

/-- A response: the status and the text. -/
structure Reply where
  status : Nat
  body : String
  deriving DecidableEq

/-- What the post processor gives to its iterator: `size` is the length of `data`. -/
structure PostPiece where
  key : List Char
  data : List Char
  off : Nat
  deriving DecidableEq

namespace ConnectionInfo

/-- `new connection_info()`, with lines 221 to 225. -/
def fresh : ConnectionInfo where
  connectionType := .get
  postprocessor := false
  fileName := []
  fps := []
  fileContent := []
  uploadDone := false

/-- `iterate_program_post`: the fields after it, and whether the iteration goes on. -/
def iterateProgramPost (info : ConnectionInfo) (piece : PostPiece) : ConnectionInfo × Bool :=
  (if piece.key = "name".toList then { info with fileName := piece.data }
    else if piece.key = "fps".toList then { info with fps := piece.data }
    else if piece.key = "file".toList then
      { info with fileContent := (if piece.off = 0 then [] else info.fileContent) ++ piece.data }
    else info,
    piece.data ≠ [])

/-- `MHD_post_process` on a part of the body in which it finds these pieces. -/
def postProcess (info : ConnectionInfo) : List PostPiece → ConnectionInfo
  | [] => info
  | piece :: pieces =>
    if (info.iterateProgramPost piece).2 then postProcess (info.iterateProgramPost piece).1 pieces
    else (info.iterateProgramPost piece).1

end ConnectionInfo

/-- A call of `program_accept` after the first one: a part of the body, or `*size == 0` at its end. -/
inductive Call
  | data (pieces : List PostPiece)
  | last
  deriving DecidableEq

/-- What the first call asks for: memory for the `connection_info`, and a post processor. -/
structure Resources where
  info : Bool
  processor : Bool
  deriving DecidableEq

/-- After a call: `_upload_client`, `*con_cls` and what was answered. -/
structure Answer where
  uploadClient : Int
  conCls : Option ConnectionInfo
  reply : Option Reply
  deriving DecidableEq

inductive Thrown
  | badAlloc
  | stoi (e : StoiError)
  deriving DecidableEq

/-- An exception that leaves the call, and `_upload_client` then. -/
structure Escape where
  thrown : Thrown
  uploadClient : Int
  deriving DecidableEq

/-- Lines 197 to 244. The slot is taken at line 208, before the memory is asked for. -/
def programAcceptFirst (resources : Resources) (uploadClient : Int) : Except Escape Answer :=
  if uploadClient ≤ 0 then .ok ⟨uploadClient, none, some ⟨503, "program upload busy, try again later"⟩⟩
  else if resources.info = false then .error ⟨.badAlloc, uploadClient - 1⟩
  else if resources.processor = false then .ok ⟨uploadClient - 1, none, some ⟨500, "Internanl Server Error"⟩⟩
  else .ok ⟨uploadClient - 1,
    some { ConnectionInfo.fresh with postprocessor := true, connectionType := .post }, none⟩

/-- Lines 258 to 289: what is answered at the end of the body. What is not caught is an error. -/
def programReply (info : ConnectionInfo) : Except StoiError Reply :=
  if '/' ∈ info.fileName then .ok ⟨400, "Invalid file name"⟩
  else match stoi info.fps with
    | .error .outOfRange => .error .outOfRange
    | .error .invalidArgument => .ok ⟨400, "Invalid fps value"⟩
    | .ok _ =>
      if info.fileName = [] ∨ info.fileContent = [] ∨ info.fps = [] then .ok ⟨400, "bad request"⟩
      else .ok ⟨200, "program file saved"⟩

/-- Lines 255 to 292. -/
def programAcceptLast (info : ConnectionInfo) : Except StoiError (ConnectionInfo × Reply) :=
  (programReply info).map fun reply => ({ info with uploadDone := true }, reply)

def programAccept (resources : Resources) (uploadClient : Int) (conCls : Option ConnectionInfo) (call : Call) :
    Except Escape Answer :=
  match conCls, call with
  | none, _ => programAcceptFirst resources uploadClient
  | some info, .data pieces => .ok ⟨uploadClient, some (info.postProcess pieces), none⟩
  | some info, .last =>
    match programAcceptLast info with
    | .error e => .error ⟨.stoi e, uploadClient⟩
    | .ok (info, reply) => .ok ⟨uploadClient, some info, some reply⟩

/-- Where `post_request_complete` ends, or begins to save. -/
inductive Completion
  /-- There is no `connection_info`. -/
  | nothing
  /-- Not an upload: the `connection_info` is deleted. -/
  | deleted
  /-- A field is empty. -/
  | refused (reply : Reply)
  /-- Line 63 is reached. -/
  | saves (info : ConnectionInfo)
  deriving DecidableEq

/-- Lines 29 to 62. -/
def checkFields (info : ConnectionInfo) : Completion :=
  if info.fileName = [] then .refused ⟨400, "filename is empty"⟩
  else if info.fileContent = [] then .refused ⟨400, "file is empty"⟩
  else if info.fps = [] then .refused ⟨400, "fps is empty"⟩
  else .saves info

/-- `post_request_complete` to line 62, with `_upload_client`. -/
def postRequestComplete (uploadClient : Int) : Option ConnectionInfo → Int × Completion
  | none => (uploadClient, .nothing)
  | some info =>
    match info.connectionType with
    | .get => (uploadClient, .deleted)
    | .post => (if info.postprocessor then uploadClient + 1 else uploadClient, checkFields info)

/-! ## What the calls keep -/

theorem ConnectionInfo.postProcess_connection (info : ConnectionInfo) (pieces : List PostPiece) :
    (info.postProcess pieces).connectionType = info.connectionType ∧
      (info.postProcess pieces).postprocessor = info.postprocessor := by
  induction pieces generalizing info with
  | nil => exact ⟨rfl, rfl⟩
  | cons piece pieces ih =>
    have hp : (info.iterateProgramPost piece).1.connectionType = info.connectionType ∧
        (info.iterateProgramPost piece).1.postprocessor = info.postprocessor := by
      unfold iterateProgramPost
      split_ifs <;> exact ⟨rfl, rfl⟩
    unfold postProcess
    split_ifs
    · exact ⟨(ih _).1.trans hp.1, (ih _).2.trans hp.2⟩
    · exact hp

/-- `200` is the answer for a name without a slash, a number, and fields that are not empty. -/
theorem programReply_status {info : ConnectionInfo} {reply : Reply} (h : programReply info = .ok reply) :
    reply.status = 200 ↔ '/' ∉ info.fileName ∧ (∃ n, stoi info.fps = .ok n) ∧ info.fileName ≠ [] ∧
      info.fileContent ≠ [] ∧ info.fps ≠ [] := by
  unfold programReply at h
  by_cases hslash : '/' ∈ info.fileName
  · rw [if_pos hslash] at h
    cases h
    simp [hslash]
  · rw [if_neg hslash] at h
    split at h
    · cases h
    · rename_i he
      cases h
      simp [he]
    · rename_i n he
      split_ifs at h with hempty <;> cases h
      · simp only [Nat.reduceEqDiff, false_iff]
        rintro ⟨-, -, h1, h2, h3⟩
        rcases hempty with h | h | h <;> contradiction
      · simp only [not_or] at hempty
        simp only [true_iff]
        exact ⟨hslash, ⟨n, he⟩, hempty⟩

/-- The answer throws for a number that is not an `int`, if the name has no slash. -/
theorem programReply_error {info : ConnectionInfo} {e : StoiError} (h : programReply info = .error e) :
    '/' ∉ info.fileName ∧ stoi info.fps = .error .outOfRange := by
  unfold programReply at h
  by_cases hslash : '/' ∈ info.fileName
  · rw [if_pos hslash] at h
    cases h
  · rw [if_neg hslash] at h
    split at h
    · exact ⟨hslash, ‹_›⟩
    · cases h
    · split_ifs at h

theorem checkFields_eq_saves {info info' : ConnectionInfo} :
    checkFields info = .saves info' ↔ info = info' ∧ info.fileName ≠ [] ∧ info.fileContent ≠ [] ∧ info.fps ≠ [] := by
  unfold checkFields
  split_ifs with h1 h2 h3 <;> simp_all

theorem saves_iff {uploadClient : Int} {conCls : Option ConnectionInfo} {info : ConnectionInfo} :
    (postRequestComplete uploadClient conCls).2 = .saves info ↔ conCls = some info ∧ info.connectionType = .post ∧
      info.fileName ≠ [] ∧ info.fileContent ≠ [] ∧ info.fps ≠ [] := by
  cases conCls with
  | none => simp [postRequestComplete]
  | some i =>
    have hi : ∀ t, i.connectionType = t → (i = info ∧ info.connectionType = .post → t = .post) := by
      rintro t ht ⟨rfl, hp⟩
      exact ht.symm.trans hp
    cases ht : i.connectionType with
    | get =>
      simp only [postRequestComplete, ht, reduceCtorEq, Option.some.injEq, false_iff]
      rintro ⟨he, hp, -⟩
      cases hi _ ht ⟨he, hp⟩
    | post =>
      simp only [postRequestComplete, ht, checkFields_eq_saves, Option.some.injEq]
      constructor
      · rintro ⟨rfl, h⟩
        exact ⟨rfl, ht, h⟩
      · rintro ⟨rfl, -, h⟩
        exact ⟨rfl, h⟩

/-! ## One request -/

/-- A request: what its first call gets, the parts of its body, and whether the end of the body is reached. -/
structure ProgramRequest where
  resources : Resources
  uploadClient : Int
  body : List (List PostPiece)
  finished : Bool

/-- After the calls of a request. -/
structure Served where
  conCls : Option ConnectionInfo
  replies : List Reply
  deriving DecidableEq

namespace ProgramRequest

/-- The first call is accepted. -/
def Accepted (r : ProgramRequest) : Prop :=
  0 < r.uploadClient ∧ r.resources.info = true ∧ r.resources.processor = true

instance (r : ProgramRequest) : Decidable r.Accepted := inferInstanceAs (Decidable (_ ∧ _ ∧ _))

def calls (r : ProgramRequest) : List Call := r.body.map .data ++ if r.finished then [.last] else []

/-- The calls of `program_accept`, as long as there is no response. -/
def serveCalls (resources : Resources) (uploadClient : Int) :
    Option ConnectionInfo → List Call → Except Escape Served
  | conCls, [] => .ok ⟨conCls, []⟩
  | conCls, call :: calls =>
    match programAccept resources uploadClient conCls call with
    | .error e => .error e
    | .ok ⟨_, conCls', some reply⟩ => .ok ⟨conCls', [reply]⟩
    | .ok ⟨uploadClient', conCls', none⟩ => serveCalls resources uploadClient' conCls' calls

/-- The request up to its completion. An error ends the process. -/
def serve (r : ProgramRequest) : Except Escape Served :=
  serveCalls r.resources r.uploadClient none (.data [] :: r.calls)

def info (r : ProgramRequest) : ConnectionInfo :=
  r.body.foldl ConnectionInfo.postProcess { ConnectionInfo.fresh with postprocessor := true, connectionType := .post }

end ProgramRequest

end RpiCam.Http
