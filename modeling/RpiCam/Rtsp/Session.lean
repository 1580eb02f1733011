import RpiCam.Lib.StdString
import RpiCam.Lib.Transition
import RpiCam.Lib.UnorderedMap
import RpiCam.Rtsp.Handler

/-!
# An RTSP session

`run` reads a request and calls `read`, as long as this returns 0. `read` chooses a handler for the first request of a
session, by the file that the URL names in the table of the listener; it calls one method of the handler for each of six
request methods and writes a response. Its own `ret` is never assigned: each branch declares another one.

* `Session.opened` : the choice of the handler, lines 95 to 113;
* `Session.respond` : the response of each branch;
* `read`, `run` : one request, and those of a connection;
* `Handled.Lawful` : what a request is to get; `Kept` : the requests that get it;
* `LawfulRun` : the requests of a connection get it in their order, `run` goes on after those that keep the session;
* `session_loop_iff` : a connection is lawful exactly where every request that is handled is one of these.

The library that reads and writes the messages is given by `Hydra`. A response that is handed to `write_rtsp` counts as
given.
-/

namespace RpiCam.Rtsp

open Transition UnorderedMap

/-- The listener's table from URL paths to files. -/
abbrev PathTable := UnorderedMap (List Char) (List Char)

/-- What the program relies on in `boost::hydra`. -/
structure Hydra where
  /-- The status of a new response. -/
  freshStatus : Nat
  /-- What `prepare_payload` puts where `Content-Location` is read. -/
  payloadLength : List Char → List Char

/-- The request methods that `read` has a branch for. -/
inductive Method
  | options
  | describe
  | setup
  | play
  | pause
  | teardown
  deriving DecidableEq, Repr

/-- A request. It has no `method` where `read` has no branch for it, and a header that is absent reads as empty. -/
structure Request where
  method : Option Method
  target : List Char
  cseq : List Char
  transport : List Char
  range : List Char

structure Response where
  status : Nat
  keepAlive : Bool
  cseq : List Char
  fields : List (String × List Char)
  body : List Char

/-- A request, what it meets, what `remote_endpoint` gives (`none` where it throws), and what the memory of `ret` holds. -/
structure Input where
  request : Request
  surroundings : Surroundings
  remote : Option (List Char)
  unset : Int

structure Session where
  uuid : List Char
  urlPath : List Char
  filePath : List Char
  handler : Option Handler

def Session.new (uuid : List Char) : Session := ⟨uuid, [], [], none⟩

/-- Lines 97 to 103: the path of the first target; `none` where `substr` throws. The position 1 is `npos + 2`. -/
def targetPath (target : List Char) : Option (List Char) :=
  match find target "/".toList (((find target "//".toList 0).map (· + 2)).getD 1) with
  | none => none
  | some idx => substr target idx

/-- Lines 107 to 112. -/
def newHandler (filePath : List Char) : Handler :=
  if (find filePath "/dev".toList 0).isSome then .live else .file .new

namespace Session

/-- Lines 95 to 113: the table, and the session with its handler. -/
def opened (table : PathTable) (s : Session) (target : List Char) : Option (PathTable × Session) :=
  if s.urlPath = [] ∧ s.filePath = [] then
    (targetPath target).map fun url =>
      let at_ := subscript table url
      (at_.1, { s with urlPath := url, filePath := at_.2, handler := some (newHandler at_.2) })
  else some (table, s)

/-- Lines 188 and 189: `find` gives `npos` where there is no port, and `npos + 12` is 11. -/
def clientPorts (transport : List Char) : Option (List Char) :=
  substr transport (((find transport "client_port=".toList 0).map (· + 12)).getD 11)

/-- The method that a branch calls; `none` where `substr` throws. -/
def callOf (s : Session) (remote : List Char) (request : Request) : Method → Option Call
  | .options => some .option
  | .describe => some (.describe s.filePath)
  | .setup => (clientPorts request.transport).map fun ports => .setup s.filePath remote ports
  | .play => some (.play request.range)
  | .pause => some (.pause request.range)
  | .teardown => some .teardown

def call (s : Session) (w : Surroundings) (c : Call) : Session × Result :=
  match s.handler with
  | none => (s, .failed .nullDereference)
  | some h => ({ s with handler := some (h.call w c).1 }, (h.call w c).2)

/-- Lines 115 to 119. -/
def freshResponse (hydra : Hydra) (request : Request) : Response :=
  ⟨hydra.freshStatus, true, request.cseq, [("Server", "Hydar RTSP Serer".toList)], []⟩

/-- The lines of the `DESCRIBE` branch that differ in status, type and body. -/
def describeResponse (hydra : Hydra) (request : Request) (status : Nat) (contentType body : List Char) : Response :=
  let res := freshResponse hydra request
  { res with
    status
    fields := res.fields ++ [("Content-Type", contentType), ("Content-Length", hydra.payloadLength body),
      ("Content-Location", request.target)]
    body }

/-- The response to a method that returned `ret` and gave `out`. -/
def respond (hydra : Hydra) (s : Session) (request : Request) (ret : Int) (out : List Char) : Method → Response
  | .options =>
    let res := freshResponse hydra request
    { res with status := 200, fields := res.fields ++ [("Public", out)] }
  | .describe =>
    if ret = 0 then describeResponse hydra request 200 "application/sdp".toList out
    else if ret = 1 then describeResponse hydra request 500 "text/plain".toList "SDP Generate Error".toList
    else if ret = 2 then describeResponse hydra request 200 "application/sdp".toList out
    else freshResponse hydra request
  | .setup =>
    let res := freshResponse hydra request
    { res with status := 200, fields := res.fields ++ [("Transport", out), ("Session", s.uuid)] }
  | .play =>
    let res := freshResponse hydra request
    { res with
      status := 200
      fields := res.fields ++ [("RTP-Info", "url=".toList ++ request.target ++ ";".toList ++ out), ("Session", s.uuid),
        ("Range", request.range)] }
  | .pause =>
    let res := freshResponse hydra request
    { res with status := 200, fields := res.fields ++ [("Session", s.uuid), ("Range", request.range)] }
  | .teardown =>
    let res := freshResponse hydra request
    { res with status := 200, keepAlive := false, fields := res.fields ++ [("Session", s.uuid)] }

end Session

/-- `write_rtsp`, where 0 keeps the session. -/
def writeRtsp (res : Response) : Int := if res.keepAlive then 0 else 1

/-- What ends a call of `read`. -/
inductive ReadEnd
  | returned (ret : Int)
  | failed (fault : Fault)
  deriving DecidableEq, Repr

/-- What a call of `read` leaves: the table and the session, what the handler gave, the responses, and its end. -/
structure Read where
  table : PathTable
  session : Session
  answer : Option Result
  responses : List Response
  result : ReadEnd

/-- `read`. What `write_rtsp` returns is assigned to the `ret` of the branch, so the call returns what its own `ret` was
left with. -/
def read (hydra : Hydra) (table : PathTable) (s : Session) (i : Input) : Read :=
  match s.opened table i.request.target with
  | none => ⟨table, s, none, [], .failed .threw⟩
  | some (table, s) =>
    match i.request.method with
    | none => ⟨table, s, none, [], .returned i.unset⟩
    | some m =>
      match i.remote with
      | none => ⟨table, s, none, [], .failed .threw⟩
      | some remote =>
        match s.callOf remote i.request m with
        | none => ⟨table, s, none, [], .failed .threw⟩
        | some c =>
          match s.call i.surroundings c with
          | (s, .failed fault) => ⟨table, s, some (.failed fault), [], .failed fault⟩
          | (s, .returned ret out) =>
            ⟨table, s, some (.returned ret out), [s.respond hydra i.request ret out m], .returned i.unset⟩

/-- A request that was handled: what its handler gave, its responses, and the end of `read`. -/
structure Handled where
  request : Request
  answer : Option Result
  responses : List Response
  result : ReadEnd

/-- `run`: the requests of a connection, one after the other, as long as `read` returns 0. -/
def run (hydra : Hydra) (table : PathTable) (s : Session) : List Input → List Handled
  | [] => []
  | i :: inputs =>
    let r := read hydra table s i
    ⟨i.request, r.answer, r.responses, r.result⟩ ::
      if r.result = .returned 0 then run hydra r.table r.session inputs else []

/-! ## What a request gets -/

/-- One response with the number of the request; 0 where the connection is kept, and not 0 after a `TEARDOWN`. -/
structure Handled.Lawful (h : Handled) : Prop where
  answered : ∃ res, h.responses = [res] ∧ res.cseq = h.request.cseq
  kept : h.request.method ≠ some .teardown → (∀ res ∈ h.responses, res.keepAlive = true) → h.result = .returned 0
  ended : h.request.method = some .teardown → ∃ ret, ret ≠ 0 ∧ h.result = .returned ret

/-- The requests of a connection get this, in their order; the first of them that does not keep the session, or the last
of all, ends the run. -/
structure LawfulRun (hydra : Hydra) (table : PathTable) (s : Session) (inputs : List Input) : Prop where
  lawful : ∀ h ∈ run hydra table s inputs, h.Lawful
  ordered : (run hydra table s inputs).map Handled.request <+: inputs.map Input.request
  goesOn : ∀ before h, run hydra table s inputs = before ++ [h] → h.request.method ≠ some .teardown →
    (∀ res ∈ h.responses, res.keepAlive = true) → before.length + 1 = inputs.length
  last : ∀ before h after, run hydra table s inputs = before ++ h :: after → h.request.method = some .teardown → after = []

/-- The table and the session between two requests. -/
abbrev Connection := PathTable × Session

/-- A request after which `run` goes on. -/
def Connection.next (hydra : Hydra) (c : Connection) (i : Input) : Option Connection :=
  let r := read hydra c.1 c.2 i
  if r.result = .returned 0 then some (r.table, r.session) else none

/-- A request that `read` has a branch for, whose branch is not left by an exception and whose handler returns; and the
memory of `ret` holds 0, but for a `TEARDOWN`. -/
def Kept (c : Connection) (i : Input) : Prop :=
  ∃ m remote c' call, i.request.method = some m ∧ c.2.opened c.1 i.request.target = some c' ∧ i.remote = some remote ∧
    c'.2.callOf remote i.request m = some call ∧ (∃ ret out, (c'.2.call i.surroundings call).2 = .returned ret out) ∧
    (i.unset = 0 ↔ m ≠ .teardown)

theorem respond_cseq (hydra : Hydra) (s : Session) (request : Request) (ret : Int) (out : List Char) (m : Method) :
    (s.respond hydra request ret out m).cseq = request.cseq := by
  cases m with
  | describe =>
    unfold Session.respond
    split_ifs <;> rfl
  | _ => rfl

theorem writeRtsp_respond (hydra : Hydra) (s : Session) (request : Request) (ret : Int) (out : List Char) (m : Method) :
    writeRtsp (s.respond hydra request ret out m) = 0 ↔ m ≠ .teardown := by
  cases m with
  | describe =>
    unfold Session.respond
    split_ifs <;> simp [writeRtsp, Session.describeResponse, Session.freshResponse]
  | _ => simp [writeRtsp, Session.respond, Session.freshResponse]

theorem read_of_call (hydra : Hydra) {table : PathTable} {s : Session} {i : Input} {c' : Connection} {m : Method}
    {remote : List Char} {call : Call} (ho : s.opened table i.request.target = some c')
    (hm : i.request.method = some m) (hr : i.remote = some remote) (hc : c'.2.callOf remote i.request m = some call) :
    read hydra table s i =
      match c'.2.call i.surroundings call with
      | (s', .failed fault) => ⟨c'.1, s', some (.failed fault), [], .failed fault⟩
      | (s', .returned ret out) =>
        ⟨c'.1, s', some (.returned ret out), [s'.respond hydra i.request ret out m], .returned i.unset⟩ := by
  unfold read
  rw [ho]
  simp only [hm, hr, hc]

/-- A request without a response: its method has no branch, an exception passes, or the handler does not return. -/
theorem read_responses {hydra : Hydra} {table : PathTable} {s : Session} {i : Input}
    (h : (read hydra table s i).responses ≠ []) :
    ∃ m remote c' call ret out, i.request.method = some m ∧ s.opened table i.request.target = some c' ∧
      i.remote = some remote ∧ c'.2.callOf remote i.request m = some call ∧
      (c'.2.call i.surroundings call).2 = .returned ret out := by
  cases ho : s.opened table i.request.target with
  | none =>
    rw [read, ho] at h
    exact absurd rfl h
  | some c' =>
    cases hm : i.request.method with
    | none =>
      simp only [read, ho, hm] at h
      exact absurd rfl h
    | some m =>
      cases hr : i.remote with
      | none =>
        simp only [read, ho, hm, hr] at h
        exact absurd rfl h
      | some remote =>
        cases hc : c'.2.callOf remote i.request m with
        | none =>
          simp only [read, ho, hm, hr, hc] at h
          exact absurd rfl h
        | some call =>
          rw [read_of_call hydra ho hm hr hc] at h
          split at h
          · exact absurd rfl h
          · rename_i s' ret out he
            exact ⟨m, remote, c', call, ret, out, rfl, rfl, rfl, hc, congrArg Prod.snd he⟩

def handled (hydra : Hydra) (c : Connection) (i : Input) : Handled :=
  let r := read hydra c.1 c.2 i
  ⟨i.request, r.answer, r.responses, r.result⟩

theorem writeRtsp_eq_zero_iff (res : Response) : writeRtsp res = 0 ↔ res.keepAlive = true := by
  unfold writeRtsp
  split_ifs with h <;> simp [h]

/-- **One request is lawful exactly where it is kept.** -/
theorem lawful_iff (hydra : Hydra) (c : Connection) (i : Input) : (handled hydra c i).Lawful ↔ Kept c i := by
  constructor
  · intro h
    obtain ⟨res, hres, -⟩ := h.answered
    have hne : (read hydra c.1 c.2 i).responses ≠ [] := by
      intro he
      rw [show (handled hydra c i).responses = [] from he] at hres
      cases hres
    obtain ⟨m, remote, c', call, ret, out, hm, ho, hr, hc, hret⟩ := read_responses hne
    refine ⟨m, remote, c', call, hm, ho, hr, hc, ⟨ret, out, hret⟩, ?_⟩
    have hread := read_of_call hydra ho hm hr hc
    obtain ⟨s', he⟩ : ∃ s', c'.2.call i.surroundings call = (s', .returned ret out) := ⟨_, Prod.ext rfl hret⟩
    rw [he] at hread
    have hresult : (handled hydra c i).result = .returned i.unset := congrArg Read.result hread
    have hresponses : (handled hydra c i).responses = [s'.respond hydra i.request ret out m] :=
      congrArg Read.responses hread
    by_cases ht : m = .teardown
    · subst ht
      obtain ⟨n, hn, he⟩ := h.ended hm
      rw [hresult, ReadEnd.returned.injEq] at he
      simp [he, hn]
    · have hkeep := h.kept (fun he => ht (Option.some.inj (hm.symm.trans he))) (by
        intro res hmem
        rw [hresponses, List.mem_singleton] at hmem
        rw [hmem, ← writeRtsp_eq_zero_iff, writeRtsp_respond]
        exact ht)
      rw [hresult, ReadEnd.returned.injEq] at hkeep
      simp [hkeep, ht]
  · rintro ⟨m, remote, c', call, hm, ho, hr, hc, ⟨ret, out, hret⟩, hunset⟩
    have hread := read_of_call hydra ho hm hr hc
    obtain ⟨s', he⟩ : ∃ s', c'.2.call i.surroundings call = (s', .returned ret out) := ⟨_, Prod.ext rfl hret⟩
    rw [he] at hread
    have hresult : (handled hydra c i).result = .returned i.unset := congrArg Read.result hread
    have hresponses : (handled hydra c i).responses = [s'.respond hydra i.request ret out m] :=
      congrArg Read.responses hread
    refine ⟨⟨_, hresponses, respond_cseq ..⟩, ?_, ?_⟩
    · intro hne _
      have ht : m ≠ .teardown := fun he => hne (he ▸ hm)
      rw [hresult, hunset.mpr ht]
    · intro he
      have ht : m = .teardown := Option.some.inj (hm.symm.trans he)
      refine ⟨i.unset, ?_, hresult⟩
      intro h0
      exact hunset.mp h0 ht

/-! ## A connection -/

theorem run_cons_eq (hydra : Hydra) (c : Connection) (i : Input) (inputs : List Input) :
    run hydra c.1 c.2 (i :: inputs) =
      handled hydra c i :: ((c.next hydra i).map fun c' => run hydra c'.1 c'.2 inputs).getD [] := by
  have h : run hydra c.1 c.2 (i :: inputs) = handled hydra c i ::
      if (read hydra c.1 c.2 i).result = .returned 0 then
        run hydra (read hydra c.1 c.2 i).table (read hydra c.1 c.2 i).session inputs
      else [] := rfl
  rw [h, Connection.next]
  split_ifs <;> rfl

/-- The handled requests are the first ones. -/
theorem run_ordered (hydra : Hydra) (c : Connection) (inputs : List Input) :
    (run hydra c.1 c.2 inputs).map Handled.request <+: inputs.map Input.request := by
  induction inputs generalizing c with
  | nil => exact List.prefix_refl _
  | cons i inputs ih =>
    rw [run_cons_eq, List.map_cons, List.map_cons]
    apply (List.prefix_cons_inj i.request).mpr
    cases c.next hydra i with
    | none => exact List.nil_prefix
    | some c' => exact ih c'

theorem run_last {hydra : Hydra} {c : Connection} {inputs : List Input} {before after : List Handled} {h : Handled}
    (hrun : run hydra c.1 c.2 inputs = before ++ h :: after) (hne : h.result ≠ .returned 0) : after = [] := by
  induction inputs generalizing c before with
  | nil => simp [run] at hrun
  | cons i inputs ih =>
    rw [run_cons_eq] at hrun
    cases before with
    | nil =>
      rw [List.nil_append, List.cons.injEq] at hrun
      obtain ⟨rfl, rfl⟩ := hrun
      have hn : c.next hydra i = none := if_neg hne
      rw [hn]
      rfl
    | cons b before =>
      rw [List.cons_append, List.cons.injEq] at hrun
      cases hn : c.next hydra i with
      | none =>
        rw [hn] at hrun
        simp at hrun
      | some c' =>
        rw [hn] at hrun
        exact ih hrun.2

theorem run_goesOn {hydra : Hydra} {c : Connection} {inputs : List Input} {before : List Handled} {h : Handled}
    (hrun : run hydra c.1 c.2 inputs = before ++ [h]) (h0 : h.result = .returned 0) :
    before.length + 1 = inputs.length := by
  induction inputs generalizing c before with
  | nil => simp [run] at hrun
  | cons i inputs ih =>
    rw [run_cons_eq] at hrun
    cases before with
    | nil =>
      rw [List.nil_append, List.cons.injEq] at hrun
      obtain ⟨rfl, hrest⟩ := hrun
      obtain ⟨c', hn⟩ : ∃ c', c.next hydra i = some c' := ⟨_, if_pos h0⟩
      rw [hn, Option.map_some, Option.getD_some] at hrest
      cases inputs with
      | nil => rfl
      | cons j inputs =>
        rw [run_cons_eq] at hrest
        cases hrest
    | cons b before =>
      rw [List.cons_append, List.cons.injEq] at hrun
      cases hn : c.next hydra i with
      | none =>
        rw [hn] at hrun
        simp at hrun
      | some c' =>
        rw [hn] at hrun
        rw [List.length_cons, List.length_cons, ih hrun.2]

/-- What `run` does with its requests follows from what each of them gets. -/
theorem lawfulRun_iff (hydra : Hydra) (c : Connection) (inputs : List Input) :
    LawfulRun hydra c.1 c.2 inputs ↔ ∀ h ∈ run hydra c.1 c.2 inputs, h.Lawful := by
  constructor
  · exact fun h => h.lawful
  · intro hl
    refine ⟨hl, run_ordered hydra c inputs, ?_, ?_⟩
    · intro before h hrun hne hkeep
      have hmem : h ∈ run hydra c.1 c.2 inputs := by
        rw [hrun]
        exact List.mem_append_right _ (List.mem_singleton.mpr rfl)
      exact run_goesOn hrun ((hl h hmem).kept hne hkeep)
    · intro before h after hrun ht
      have hmem : h ∈ run hydra c.1 c.2 inputs := by
        rw [hrun]
        exact List.mem_append_right _ (List.mem_cons_self ..)
      obtain ⟨ret, hret, hresult⟩ := (hl h hmem).ended ht
      apply run_last hrun
      rw [hresult]
      intro he
      exact hret (ReadEnd.returned.inj he)

theorem forall_mem_run_iff {hydra : Hydra} {p : Handled → Prop} {q : Connection → Input → Prop}
    (hpq : ∀ c i, p (handled hydra c i) ↔ q c i) (c : Connection) (inputs : List Input) :
    (∀ h ∈ run hydra c.1 c.2 inputs, p h) ↔ Along (Connection.next hydra) q c inputs := by
  induction inputs generalizing c with
  | nil => simp [run, Along]
  | cons i inputs ih =>
    rw [run_cons_eq, List.forall_mem_cons, along_cons, hpq]
    apply and_congr Iff.rfl
    cases hn : c.next hydra i with
    | none => simp
    | some c' =>
      rw [Option.map_some, Option.getD_some, ih]
      simp

/-- **The session loop**: every request that is handled is answered once, in order, and keeps or ends the session, exactly
where each of them is kept. -/
theorem session_loop_iff (hydra : Hydra) (table : PathTable) (s : Session) (inputs : List Input) :
    LawfulRun hydra table s inputs ↔ Along (Connection.next hydra) Kept (table, s) inputs :=
  (lawfulRun_iff hydra (table, s) inputs).trans (forall_mem_run_iff (lawful_iff hydra) (table, s) inputs)

/-- The library as it is made after Beast: a new response has the status 200. -/
def beast : Hydra := ⟨200, fun body => toStdString body.length⟩

/-- A request for the live stream, from `10.0.0.2`. -/
def liveInput (method : Option Method) (unset : Int) : Input where
  request := ⟨method, "rtsp://cam/live".toList, "1".toList, [], []⟩
  surroundings := .able
  remote := some "10.0.0.2".toList
  unset := unset

def liveTable : PathTable := AList.insert "/live".toList "/dev/video".toList ∅

/-- **Two connections that are not lawful**: an `OPTIONS` where the memory of `ret` holds 1 ends the session, and a
method without a branch gets no response. -/
theorem unlawful_session :
    ¬ LawfulRun beast liveTable (.new []) [liveInput (some .options) 1] ∧
    ¬ LawfulRun beast liveTable (.new []) [liveInput none 0] := by
  constructor
  · intro h
    have hk := (h.lawful _ (List.mem_cons_self ..)).kept (by decide) (by decide)
    exact absurd hk (by decide)
  · intro h
    obtain ⟨res, hres, -⟩ := (h.lawful _ (List.mem_cons_self ..)).answered
    cases hres

end RpiCam.Rtsp
