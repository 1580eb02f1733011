import RpiCam.Http.Save
import RpiCam.Lib.TreeChanges

/-!
# What is installed

`post_request_complete` does not look at `upload_done`: it saves whatever the request has sent when it ends.

* `serve_refused`, `serve_accepted` : what is left of a request and what it was answered;
* `OnlyAccepted r` : the file system changes only for an upload that was answered `200`;
* `Harmless` : the requests that save nothing, and those that are answered `200` or end the process;
* `onlyAccepted_iff` : these and no others;
* `aborted_upload` : a request that ends early and is installed.
-/

namespace RpiCam.Http

open Transition FileSystem

namespace ProgramRequest

/-- The status of a response to the request. -/
def Answered (r : ProgramRequest) (status : Nat) : Prop :=
  ∃ served, r.serve = .ok served ∧ ∃ reply ∈ served.replies, reply.status = status

/-- The completion of the request brings the file system from `fs` to `fs'`, at its end or on the way. -/
def Installs (r : ProgramRequest) (cwd : Path) (fs fs' : FileSystem) : Prop :=
  ∃ served info s, r.serve = .ok served ∧ (postRequestComplete r.uploadClient served.conCls).2 = .saves info ∧
    Saves cwd info fs s ∧ s.fs = fs'

/-- The completion changes nothing, or the end of the body was reached and answered `200`. -/
def OnlyAccepted (r : ProgramRequest) : Prop :=
  ∀ cwd fs fs', r.Installs cwd fs fs' → fs' = fs ∨ (r.finished = true ∧ r.Answered 200)

/-- The first call is refused, or a field is empty, or the request ends with a name without a slash and a number. -/
def Harmless (r : ProgramRequest) : Prop :=
  ¬ r.Accepted ∨ r.info.fileName = [] ∨ r.info.fileContent = [] ∨ r.info.fps = [] ∨
    (r.finished = true ∧ '/' ∉ r.info.fileName ∧ stoi r.info.fps ≠ .error .invalidArgument)

/-! ## What the calls leave -/

theorem serveCalls_data (resources : Resources) (uploadClient : Int) (info : ConnectionInfo)
    (body : List (List PostPiece)) (calls : List Call) :
    serveCalls resources uploadClient (some info) (body.map .data ++ calls) =
      serveCalls resources uploadClient (some (body.foldl ConnectionInfo.postProcess info)) calls := by
  induction body generalizing info with
  | nil => rfl
  | cons pieces body ih => exact ih (info.postProcess pieces)

theorem serve_refused {r : ProgramRequest} (h : ¬ r.Accepted) :
    if r.uploadClient ≤ 0 ∨ r.resources.info = true then ∃ reply, r.serve = .ok ⟨none, [reply]⟩ ∧ reply.status ≠ 200
    else r.serve = .error ⟨.badAlloc, r.uploadClient - 1⟩ := by
  unfold Accepted at h
  simp only [serve, serveCalls, programAccept, programAcceptFirst]
  by_cases hbusy : r.uploadClient ≤ 0
  · simp [hbusy]
  · cases hinfo : r.resources.info with
    | false => simp [hbusy]
    | true =>
      have hproc : r.resources.processor = false := by
        by_contra hp
        exact h ⟨by omega, hinfo, by simpa using hp⟩
      simp [hbusy, hproc]

theorem conCls_of_refused {r : ProgramRequest} (h : ¬ r.Accepted) {served : Served} (hs : r.serve = .ok served) :
    served.conCls = none := by
  have hrefused := serve_refused h
  split_ifs at hrefused
  · obtain ⟨reply, hr, -⟩ := hrefused
    rw [hr] at hs
    cases hs
    rfl
  · rw [hrefused] at hs
    cases hs

theorem serve_accepted {r : ProgramRequest} (h : r.Accepted) :
    r.serve = if r.finished = true then
        match programReply r.info with
        | .error e => .error ⟨.stoi e, r.uploadClient - 1⟩
        | .ok reply => .ok ⟨some { r.info with uploadDone := true }, [reply]⟩
      else .ok ⟨some r.info, []⟩ := by
  obtain ⟨h1, h2, h3⟩ := h
  have hfirst : programAcceptFirst r.resources r.uploadClient =
      .ok ⟨r.uploadClient - 1, some { ConnectionInfo.fresh with postprocessor := true, connectionType := .post },
        none⟩ := by
    rw [programAcceptFirst, if_neg (by omega), if_neg (by simp [h2]), if_neg (by simp [h3])]
  simp only [serve, serveCalls, programAccept, hfirst, calls, serveCalls_data]
  change serveCalls _ _ (some r.info) _ = _
  split_ifs
  · simp only [serveCalls, programAccept, programAcceptLast]
    cases programReply r.info <;> rfl
  · rfl

theorem info_connectionType (r : ProgramRequest) : r.info.connectionType = .post := by
  have h : ∀ (body : List (List PostPiece)) (info : ConnectionInfo), info.connectionType = .post →
      (body.foldl ConnectionInfo.postProcess info).connectionType = .post := by
    intro body
    induction body with
    | nil => exact fun info h => h
    | cons pieces body ih => exact fun info h => ih _ ((info.postProcess_connection pieces).1.trans h)
  exact h r.body _ rfl

/-! ## Who changes the file system -/

/-- An upload with any name changes the file system it needs to find. -/
theorem saves_changes (info : ConnectionInfo) : ∃ fs s, Saves [] info fs s ∧ s.fs ≠ fs := by
  have hs := components_eventDirectory info []
  rw [List.append_nil] at hs
  obtain ⟨hdir, hne⟩ := removeAll_directories ordinary_event hs
  obtain ⟨s, hsaves, he⟩ := saves_removeAll hdir
  exact ⟨_, s, hsaves, he ▸ hne⟩

theorem installs_of_accepted {r : ProgramRequest} (h : r.Accepted) {served : Served} (hs : r.serve = .ok served)
    (h1 : r.info.fileName ≠ []) (h2 : r.info.fileContent ≠ []) (h3 : r.info.fps ≠ []) :
    ∃ info, (postRequestComplete r.uploadClient served.conCls).2 = .saves info := by
  rw [serve_accepted h] at hs
  split_ifs at hs
  · cases hr : programReply r.info with
    | error e => rw [hr] at hs; cases hs
    | ok reply =>
      rw [hr] at hs
      cases hs
      exact ⟨_, saves_iff.mpr ⟨rfl, r.info_connectionType, h1, h2, h3⟩⟩
  · cases hs
    exact ⟨_, saves_iff.mpr ⟨rfl, r.info_connectionType, h1, h2, h3⟩⟩

theorem fields_of_installs {r : ProgramRequest} {served : Served} (hs : r.serve = .ok served) {info : ConnectionInfo}
    (hi : (postRequestComplete r.uploadClient served.conCls).2 = .saves info) :
    r.Accepted ∧ r.info.fileName ≠ [] ∧ r.info.fileContent ≠ [] ∧ r.info.fps ≠ [] := by
  have ha : r.Accepted := by
    by_contra h
    rw [conCls_of_refused h hs] at hi
    cases hi
  obtain ⟨hc, -, hne⟩ := saves_iff.mp hi
  refine ⟨ha, ?_⟩
  rw [serve_accepted ha] at hs
  split_ifs at hs
  · cases hr : programReply r.info with
    | error e => rw [hr] at hs; cases hs
    | ok reply =>
      rw [hr] at hs
      cases hs
      cases hc
      exact hne
  · cases hs
    cases hc
    exact hne

/-- **A program is installed only by an accepted upload, exactly for the harmless requests.** -/
theorem onlyAccepted_iff (r : ProgramRequest) : r.OnlyAccepted ↔ r.Harmless := by
  constructor
  · intro h
    by_contra hh
    simp only [Harmless, not_or, not_not, not_and] at hh
    obtain ⟨ha, h1, h2, h3, hend⟩ := hh
    -- what is left is saved, and was not answered `200`
    obtain ⟨served, hs, hnot⟩ : ∃ served, r.serve = .ok served ∧ ¬ (r.finished = true ∧ r.Answered 200) := by
      rw [serve_accepted ha]
      cases hf : r.finished with
      | false => exact ⟨_, rfl, by simp⟩
      | true =>
        have hreply : ∀ e, programReply r.info ≠ .error e := fun e he => by
          obtain ⟨hslash, hout⟩ := programReply_error he
          rw [hend hf hslash] at hout
          cases hout
        cases hr : programReply r.info with
        | error e => exact absurd hr (hreply e)
        | ok reply =>
          refine ⟨_, rfl, ?_⟩
          rintro ⟨-, served, hserve, reply', hmem, hstatus⟩
          rw [serve_accepted ha, if_pos hf, hr] at hserve
          cases hserve
          rw [List.mem_singleton.mp hmem, programReply_status hr] at hstatus
          obtain ⟨hslash, ⟨n, hn⟩, -⟩ := hstatus
          rw [hend hf hslash] at hn
          cases hn
    obtain ⟨info, hi⟩ := installs_of_accepted ha hs h1 h2 h3
    obtain ⟨fs, s, hsave, hne⟩ := saves_changes info
    rcases h [] fs s.fs ⟨served, info, s, hs, hi, hsave, rfl⟩ with he | he
    · exact hne he
    · exact hnot he
  · rintro hh cwd fs fs' ⟨served, info, s, hs, hi, -⟩
    obtain ⟨ha, h1, h2, h3⟩ := fields_of_installs hs hi
    rcases hh with h | h | h | h | ⟨hf, hslash, hnum⟩
    · exact absurd ha h
    · exact absurd h h1
    · exact absurd h h2
    · exact absurd h h3
    · refine Or.inr ⟨hf, served, hs, ?_⟩
      rw [serve_accepted ha, if_pos hf] at hs
      cases hr : programReply r.info with
      | error e => rw [hr] at hs; cases hs
      | ok reply =>
        rw [hr] at hs
        cases hs
        refine ⟨reply, List.mem_singleton.mpr rfl, (programReply_status hr).mpr ⟨hslash, ?_, h1, h2, h3⟩⟩
        cases hn : stoi r.info.fps with
        | ok n => exact ⟨n, rfl⟩
        | error e =>
          cases e with
          | invalidArgument => exact absurd hn hnum
          | outOfRange => simp [programReply, hslash, hn] at hr

/-- The three fields arrive, and then the connection is lost. -/
def abortedRequest : ProgramRequest where
  resources := ⟨true, true⟩
  uploadClient := 2
  body := [[⟨"name".toList, "cam".toList, 0⟩, ⟨"fps".toList, "30".toList, 0⟩, ⟨"file".toList, "x".toList, 0⟩]]
  finished := false

def eventTree : FileSystem := bare.put ["event".toList] .dir

/-- **A request that was aborted is installed.** -/
theorem aborted_upload : ¬ abortedRequest.OnlyAccepted := by
  intro h
  have hrun : run (saveStep [] abortedRequest.info) (.begin eventTree) [Os.able, Os.able] =
      some ⟨eventTree.put ["event".toList, "cam".toList] .dir, .openProgram, false⟩ := rfl
  rcases h [] eventTree _ ⟨⟨some abortedRequest.info, []⟩, abortedRequest.info, _, rfl, rfl,
    .of_run (.init rfl) hrun, rfl⟩ with he | he
  · exact absurd (congrArg (fun fs => fs.entry ["event".toList, "cam".toList]) he) (by decide)
  · exact Bool.false_ne_true he.1

end ProgramRequest

end RpiCam.Http
