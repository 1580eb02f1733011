import RpiCam.Http.Concurrent
import RpiCam.Http.Handler
import RpiCam.Http.Slots
import RpiCam.Lib.Holdings

/-!
# The memory of the requests

The first call of `/program`, `/program/start` and `/program/stop` makes a `connection_info` and a post processor.
`post_request_complete` gets the `connection_info` back, and is the only place where both can be given back.

* `Bookkeeping` : what the requests hold, with a ledger for either kind of object;
* `Bookkeeping.step` : a first call, a later call or the completion of some request;
* `NoLeak` : once all requests have completed, every object was given back once;
* `Tidy` : an upload that gives both back; `ending_iff_directoryMade` is its last condition;
* `accounted_step` : what a step leaves behind;
* `no_leak_iff` : nothing leaks exactly where every completed request is tidy.

What is not caught ends the process, and the run with it.
-/

namespace RpiCam.Http

open Transition FileSystem

/-! ## The calls -/

/-- The handlers that make a `connection_info`. -/
inductive Acceptor
  | program
  | programStart
  | programStop
  deriving DecidableEq

def accept (acceptor : Acceptor) (resources : Resources) (uploadClient : Int) (conCls : Option ConnectionInfo)
    (call : BodyCall) : Except Failure Handled :=
  match acceptor with
  | .program =>
    match programAccept resources uploadClient conCls call.toCall with
    | .error _ => .error .threw
    | .ok answer => .ok ⟨answer.conCls, answer.uploadClient, answer.reply, []⟩
  | .programStart => programStartAccept resources uploadClient conCls call
  | .programStop => programStopAccept resources uploadClient conCls call

/-- The URL and the method that lead to a handler. -/
def Acceptor.route : Acceptor → Route
  | .program => .program
  | .programStart => .programStart
  | .programStop => .programStop

theorem libmicrohttpdHandler_accept {acceptor : Acceptor} {url method : List Char}
    (h : route url method = acceptor.route) (w : Surroundings) (headers : List (List Char × List Char))
    (uploadClient : Int) (conCls : Option ConnectionInfo) (call : BodyCall) :
    libmicrohttpdHandler w url method headers uploadClient conCls call =
      accept acceptor w.resources uploadClient conCls call := by
  unfold libmicrohttpdHandler
  rw [h]
  cases acceptor <;> rfl

/-- The place in `post_request_complete` and `flag`. Others change the file system as well, so that every call of the
save meets one of its own. -/
def placeStep (cwd : Path) (info : ConnectionInfo) (p : SavePlace × Bool) (call : FileSystem × Os) :
    Option (SavePlace × Bool) :=
  (saveStep cwd info ⟨call.1, p.1, p.2⟩ call.2).map fun s => (s.place, s.flag)

/-- Whether `post_request_complete` comes to `delete con_info`. -/
inductive Ending
  | returns
  | deletes
  deriving DecidableEq

/-- The rest of `post_request_complete`: `none` where it does not come to its end. -/
def ending (cwd : Path) (calls : List (FileSystem × Os)) : Completion → Option Ending
  | .nothing => some .returns
  | .deleted => some .deletes
  | .refused _ => some .returns
  | .saves info =>
    match run (placeStep cwd info) (.isDirectory, false) calls with
    | some (.done reply, _) => some (if .done reply = invalidName then .returns else .deletes)
    | _ => none

/-! ## The machine -/

/-- A request whose `*con_cls` is not null. -/
structure Pending where
  acceptor : Acceptor
  conInfo : ConnectionInfo
  /-- Which `connection_info` it is. -/
  infoRef : Nat
  /-- Which post processor it has. -/
  processorRef : Nat

structure Bookkeeping where
  uploadClient : Int
  requests : UnorderedMap Nat Pending
  /-- `new connection_info()` and `delete con_info`. -/
  infos : Ledger
  /-- `MHD_create_post_processor` and `MHD_destroy_post_processor`. -/
  processors : Ledger

inductive RequestAct
  | first (id : Nat) (acceptor : Acceptor) (resources : Resources)
  | call (id : Nat) (call : BodyCall)
  /-- With the calls of its save, if it comes to that. -/
  | complete (id : Nat) (calls : List (FileSystem × Os))

namespace Bookkeeping

def init (uploadClients : Int) : Bookkeeping := ⟨uploadClients, ∅, .empty, .empty⟩

/-- The `connection_info`s after a first call that returns: a busy `program_accept` makes none, and without a post
processor it is deleted at once. -/
def infosAfter (s : Bookkeeping) (acceptor : Acceptor) (resources : Resources) : Ledger :=
  if acceptor = .program ∧ s.uploadClient ≤ 0 then s.infos
  else if resources.processor = false then s.infos.create.release s.infos.created
  else s.infos.create

/-- The post processors after a first call. -/
def processorsAfter (s : Bookkeeping) (acceptor : Acceptor) (resources : Resources) : Ledger :=
  if acceptor = .program ∧ s.uploadClient ≤ 0 then s.processors
  else if resources.processor = false then s.processors
  else s.processors.create

def step (cwd : Path) (s : Bookkeeping) : RequestAct → Option Bookkeeping
  | .first id acceptor resources =>
    if id ∈ s.requests then none
    else match accept acceptor resources s.uploadClient none (.data []) with
      | .error _ => none
      | .ok handled =>
        some {
          uploadClient := handled.uploadClient
          requests := match handled.conCls with
            | some info => AList.insert id ⟨acceptor, info, s.infos.created, s.processors.created⟩ s.requests
            | none => s.requests
          infos := s.infosAfter acceptor resources
          processors := s.processorsAfter acceptor resources }
  | .call id call =>
    match AList.lookup id s.requests with
    | none => none
    | some r =>
      match accept r.acceptor ⟨true, true⟩ s.uploadClient (some r.conInfo) call with
      | .error _ => none
      | .ok handled =>
        some { s with
          uploadClient := handled.uploadClient
          requests := AList.insert id { r with conInfo := handled.conCls.getD r.conInfo } s.requests }
  | .complete id calls =>
    match AList.lookup id s.requests with
    | none => some s
    | some r =>
      let (uploadClient, completion) := postRequestComplete s.uploadClient (some r.conInfo)
      match ending cwd calls completion with
      | none => none
      | some ends =>
        some {
          uploadClient
          requests := AList.erase id s.requests
          infos := if ends = .deletes then s.infos.release r.infoRef else s.infos
          processors := if r.conInfo.connectionType = .post ∧ r.conInfo.postprocessor = true then
              s.processors.release r.processorRef
            else s.processors }

end Bookkeeping

/-! ## The law -/

/-- The calls bring all their requests to completion. -/
def AllCompleted (cwd : Path) (uploadClients : Int) (acts : List RequestAct) : Prop :=
  ∃ s, run (Bookkeeping.step cwd) (.init uploadClients) acts = some s ∧ s.requests.keys = []

/-- Once all requests have completed, every `connection_info` was deleted once, and every post processor destroyed
once. -/
def NoLeak (cwd : Path) (uploadClients : Int) (acts : List RequestAct) : Prop :=
  ∀ s, run (Bookkeeping.step cwd) (.init uploadClients) acts = some s → s.requests.keys = [] →
    s.infos.Balanced ∧ s.processors.Balanced

/-- No call of lines 72 to 75 throws. -/
def DirectoryMade (cwd : Path) (info : ConnectionInfo) (calls : List (FileSystem × Os)) : Prop :=
  Along (placeStep cwd info)
    (fun p call => p.1.begins = true → saveFails cwd info ⟨call.1, p.1, p.2⟩ call.2 = false) (.isDirectory, false) calls

/-- An upload with its three fields, for which the directory is made. -/
def Pending.Tidy (cwd : Path) (r : Pending) (calls : List (FileSystem × Os)) : Prop :=
  r.acceptor = .program ∧ r.conInfo.fileName ≠ [] ∧ r.conInfo.fileContent ≠ [] ∧ r.conInfo.fps ≠ [] ∧
    DirectoryMade cwd r.conInfo calls

/-- A request that completes with a `connection_info` is tidy. -/
def Bookkeeping.Tidy (cwd : Path) (s : Bookkeeping) : RequestAct → Prop
  | .complete id calls => ∀ r, AList.lookup id s.requests = some r → r.Tidy cwd calls
  | .first .. | .call .. => True

/-- Every request that completes is tidy. -/
def TidyRun (cwd : Path) (uploadClients : Int) (acts : List RequestAct) : Prop :=
  Along (Bookkeeping.step cwd) (Bookkeeping.Tidy cwd) (.init uploadClients) acts

/-! ## The save -/

section

variable {cwd : Path} {info : ConnectionInfo}

theorem saveStep_later {s s' : Saving} {os : Os} (h : saveStep cwd info s os = some s') (hb : s.place.begins = false) :
    s'.place ≠ invalidName := by
  have hsaved : SavePlace.done ⟨200, "Program saved successfully"⟩ ≠ invalidName := by decide
  have herror : SavePlace.done ⟨200, "Program save Error"⟩ ≠ invalidName := by decide
  obtain ⟨fs, place, flag⟩ := s
  cases saveStep_sound h with
  | refusedName _ _ _ hp => rcases hp with rfl | rfl <;> cases hb
  | there | notThere | removed | created => cases hb
  | programClosed | programOpen | programWritten | fpsClosed | fpsOpen | enableClosed => nofun
  | enableOpen => cases flag <;> nofun
  | enableWritten => exact hsaved
  | cleaned _ _ _ threw =>
    cases threw with
    | true => nofun
    | false => exact herror

/-- **A call of the save leads to the early return exactly where it is one of lines 72 to 75 and throws.** -/
theorem saveStep_invalidName {s s' : Saving} {os : Os} (h : saveStep cwd info s os = some s') :
    s.place ≠ invalidName ∧
      (s'.place = invalidName ↔ ¬ (s.place.begins = true → saveFails cwd info s os = false)) := by
  constructor
  · intro he
    simp only [saveStep, he, invalidName, reduceCtorEq] at h
  · cases hb : s.place.begins with
    | false => exact iff_of_false (saveStep_later h hb) fun hn => hn fun ht => absurd ht (by decide)
    | true =>
      obtain ⟨fs, place, flag⟩ := s
      unfold saveStep at h
      cases place with
      | isDirectory =>
        simp only at h
        split_ifs at h <;> cases h <;> simp_all [saveFails, invalidName]
      | removeAll =>
        simp only at h
        split at h <;> cases h <;> simp_all [saveFails, invalidName]
      | createDirectory =>
        simp only at h
        split at h <;> cases h <;> simp_all [saveFails, invalidName]
      | _ => cases hb

/-- The early return is taken exactly where a call of lines 72 to 75 has thrown. -/
theorem run_invalidName {p q : SavePlace × Bool} {calls : List (FileSystem × Os)}
    (h : run (placeStep cwd info) p calls = some q) :
    q.1 = invalidName ↔ p.1 = invalidName ∨ ¬ Along (placeStep cwd info)
      (fun p call => p.1.begins = true → saveFails cwd info ⟨call.1, p.1, p.2⟩ call.2 = false) p calls := by
  induction calls generalizing p with
  | nil =>
    cases h
    exact ⟨Or.inl, fun h => h.resolve_right fun hn => hn trivial⟩
  | cons call calls ih =>
    rw [run_cons, Option.bind_eq_some_iff] at h
    obtain ⟨p', hp, h⟩ := h
    rw [ih h, along_cons, hp]
    unfold placeStep at hp
    rw [Option.map_eq_some_iff] at hp
    obtain ⟨s, hs, rfl⟩ := hp
    obtain ⟨hne, hiff⟩ := saveStep_invalidName hs
    simp only [Option.some.injEq, forall_eq']
    rw [hiff, or_iff_right hne, not_and_or]

/-- A completion that saves deletes its `connection_info` exactly where the directory is made. -/
theorem ending_saves {calls : List (FileSystem × Os)} {ends : Ending} (h : ending cwd calls (.saves info) = some ends) :
    ends = .deletes ↔ DirectoryMade cwd info calls := by
  simp only [ending] at h
  split at h
  · rename_i reply flag hrun
    have hiff := run_invalidName hrun
    rw [or_iff_right (by nofun)] at hiff
    unfold DirectoryMade
    cases h
    rw [← not_iff_not, ← hiff]
    split_ifs with he
    · exact iff_of_true nofun he
    · exact iff_of_false (fun hn => hn rfl) he
  · cases h

end

/-! ## A request -/

/-- What every call keeps: it has a post processor, and is of type `POST` exactly if it is an upload. -/
structure Pending.Made (r : Pending) : Prop where
  processor : r.conInfo.postprocessor = true
  type : r.conInfo.connectionType = .post ↔ r.acceptor = .program

theorem getFilename_connection (info : ConnectionInfo) (pieces : List BufferedPiece) :
    (getFilename info pieces).connectionType = info.connectionType ∧
      (getFilename info pieces).postprocessor = info.postprocessor := by
  induction pieces generalizing info with
  | nil => exact ⟨rfl, rfl⟩
  | cons piece pieces ih =>
    have hp : (iterateGetFilename info piece).1.connectionType = info.connectionType ∧
        (iterateGetFilename info piece).1.postprocessor = info.postprocessor := by
      unfold iterateGetFilename
      split_ifs <;> exact ⟨rfl, rfl⟩
    unfold getFilename
    split_ifs
    · exact ⟨(ih _).1.trans hp.1, (ih _).2.trans hp.2⟩
    · exact hp

theorem programNameAccept_later {event : List Char → EventCall} {resources : Resources} {uploadClient : Int}
    {info : ConnectionInfo} {call : BodyCall} {handled : Handled}
    (h : programNameAccept event resources uploadClient (some info) call = .ok handled) :
    ∃ info', handled.conCls = some info' ∧ info'.connectionType = info.connectionType ∧
      info'.postprocessor = info.postprocessor := by
  cases call with
  | data pieces =>
    cases h
    exact ⟨_, rfl, getFilename_connection info pieces⟩
  | last =>
    cases h
    exact ⟨_, rfl, rfl, rfl⟩

theorem accept_later {acceptor : Acceptor} {resources : Resources} {uploadClient : Int} {info : ConnectionInfo}
    {call : BodyCall} {handled : Handled} (h : accept acceptor resources uploadClient (some info) call = .ok handled) :
    ∃ info', handled.conCls = some info' ∧ info'.connectionType = info.connectionType ∧
      info'.postprocessor = info.postprocessor := by
  unfold accept at h
  cases acceptor with
  | program =>
    simp only at h
    split at h <;> cases h
    rename_i answer ha
    exact (Server.programAccept_later ha).2
  | programStart => exact programNameAccept_later h
  | programStop => exact programNameAccept_later h

namespace Bookkeeping

variable {cwd : Path} {s s' : Bookkeeping}

/-- **A first call** that returns keeps nothing that it makes, or keeps one `connection_info` and one post processor. -/
theorem first_cases {s : Bookkeeping} {acceptor : Acceptor} {resources : Resources} {handled : Handled}
    (h : accept acceptor resources s.uploadClient none (.data []) = .ok handled) :
    (handled.conCls = none ∧ s.processorsAfter acceptor resources = s.processors ∧
        (s.infosAfter acceptor resources = s.infos ∨
          s.infosAfter acceptor resources = s.infos.create.release s.infos.created)) ∨
      ∃ info, handled.conCls = some info ∧
        (∀ a b, (⟨acceptor, info, a, b⟩ : Pending).Made) ∧ s.infosAfter acceptor resources = s.infos.create ∧
        s.processorsAfter acceptor resources = s.processors.create := by
  unfold infosAfter processorsAfter
  cases acceptor with
  | program =>
    simp only [accept, programAccept, programAcceptFirst] at h
    simp only [true_and]
    split_ifs at h ⊢ <;> cases h
    · simp
    · simp
    · exact Or.inr ⟨_, rfl, fun _ _ => ⟨rfl, by simp⟩, rfl, rfl⟩
  | programStart | programStop =>
    simp only [accept, programStartAccept, programStopAccept, programNameAccept] at h
    simp only [reduceCtorEq, false_and, if_false]
    split_ifs at h ⊢ <;> cases h
    · simp
    · exact Or.inr ⟨_, rfl, fun _ _ => ⟨rfl, by simp [ConnectionInfo.fresh]⟩, rfl, rfl⟩

/-- Both ledgers keep the account of the requests, and nothing was lost exactly if `clean`. -/
def Accounted (s : Bookkeeping) (clean : Prop) : Prop :=
  ∃ lostInfos lostProcessors, Account s.infos s.requests Pending.infoRef lostInfos ∧
    Account s.processors s.requests Pending.processorRef lostProcessors ∧
    (∀ id r, AList.lookup id s.requests = some r → r.Made) ∧
    (((∀ a, ¬ lostInfos a) ∧ ∀ a, ¬ lostProcessors a) ↔ clean)

theorem accounted_init (uploadClients : Int) : (init uploadClients).Accounted True := by
  refine ⟨_, _, .empty _, .empty _, ?_, by simp⟩
  intro id r hr
  simp [init] at hr

theorem accounted_first {clean : Prop} (ha : s.Accounted clean) {id : Nat} {acceptor : Acceptor} {resources : Resources}
    (h : step cwd s (.first id acceptor resources) = some s') : s'.Accounted clean := by
  obtain ⟨lostInfos, lostProcessors, hi, hp, hm, hclean⟩ := ha
  simp only [step] at h
  split_ifs at h with hid
  split at h
  · cases h
  rename_i handled hacc
  cases h
  rcases first_cases hacc with ⟨hnone, hprocs, hinfos | hinfos⟩ | ⟨info, hsome, hmade, hinfos, hprocs⟩
  · simp only [hnone, hprocs, hinfos]
    exact ⟨lostInfos, lostProcessors, hi, hp, hm, hclean⟩
  · -- made and deleted, for want of a post processor
    simp only [hnone, hprocs, hinfos]
    exact ⟨lostInfos, lostProcessors, hi.unmade, hp, hm, hclean⟩
  · simp only [hsome, hprocs, hinfos]
    have hk : AList.lookup id s.requests = none := AList.lookup_eq_none.mpr hid
    exact ⟨lostInfos, lostProcessors, hi.insert hk rfl, hp.insert hk rfl,
      fun _ _ => UnorderedMap.forall_insert hm (hmade _ _), hclean⟩

theorem accounted_call {clean : Prop} (ha : s.Accounted clean) {id : Nat} {call : BodyCall}
    (h : step cwd s (.call id call) = some s') : s'.Accounted clean := by
  obtain ⟨lostInfos, lostProcessors, hi, hp, hm, hclean⟩ := ha
  simp only [step] at h
  split at h
  · cases h
  · rename_i r hk
    split at h
    · cases h
    · rename_i handled hacc
      cases h
      obtain ⟨info', hsome, htype, hproc⟩ := accept_later hacc
      have hr := hm id r hk
      have hmade : ({ r with conInfo := info' } : Pending).Made :=
        ⟨hproc.trans hr.processor, by rw [← hr.type, ← htype]⟩
      simp only [hsome, Option.getD_some]
      exact ⟨lostInfos, lostProcessors, hi.replace hk rfl, hp.replace hk rfl,
        fun _ _ => UnorderedMap.forall_insert hm hmade, hclean⟩

/-- What `post_request_complete` gives back: the post processor of an upload, and the `connection_info` of a request
that is no upload, or has its fields and its directory. -/
theorem completion_cases {r : Pending} (hr : r.Made) {uploadClient : Int} {calls : List (FileSystem × Os)}
    {ends : Ending} (h : ending cwd calls (postRequestComplete uploadClient (some r.conInfo)).2 = some ends) :
    r.Tidy cwd calls ↔ ends = .deletes ∧ r.conInfo.connectionType = .post ∧ r.conInfo.postprocessor = true := by
  have hproc := hr.processor
  have htype := hr.type
  cases ht : r.conInfo.connectionType with
  | get =>
    rw [ht] at htype
    refine iff_of_false ?_ (by simp)
    intro hg
    exact absurd (htype.mpr hg.1) (by simp)
  | post =>
    rw [ht] at htype
    have hprogram : r.acceptor = .program := htype.mp rfl
    simp only [postRequestComplete, ht] at h
    unfold Pending.Tidy
    simp only [hprogram, hproc, and_true, true_and]
    unfold checkFields at h
    split_ifs at h with h1 h2 h3
    · cases h
      exact iff_of_false (fun hg => hg.1 h1) (by decide)
    · cases h
      exact iff_of_false (fun hg => hg.2.1 h2) (by decide)
    · cases h
      exact iff_of_false (fun hg => hg.2.2.1 h3) (by decide)
    · rw [ending_saves h]
      exact ⟨fun hg => hg.2.2.2, fun hg => ⟨h1, h2, h3, hg⟩⟩

theorem accounted_complete {clean : Prop} (ha : s.Accounted clean) {id : Nat} {calls : List (FileSystem × Os)}
    (h : step cwd s (.complete id calls) = some s') : s'.Accounted (clean ∧ s.Tidy cwd (.complete id calls)) := by
  obtain ⟨lostInfos, lostProcessors, hi, hp, hm, hclean⟩ := ha
  have htidy : s.Tidy cwd (.complete id calls) ↔ ∀ r, AList.lookup id s.requests = some r → r.Tidy cwd calls := Iff.rfl
  simp only [step] at h
  split at h
  · rename_i hk
    cases h
    refine ⟨lostInfos, lostProcessors, hi, hp, hm, ?_⟩
    rw [hclean, htidy, hk]
    simp
  · rename_i r hk
    split at h
    · cases h
    · rename_i ends hends
      cases h
      obtain ⟨lostInfos', hi', hli⟩ := hi.drop hk (ends = .deletes)
      obtain ⟨lostProcessors', hp', hlp⟩ :=
        hp.drop hk (r.conInfo.connectionType = .post ∧ r.conInfo.postprocessor = true)
      refine ⟨lostInfos', lostProcessors', hi', hp', ?_, ?_⟩
      · intro id' r' hr'
        exact hm id' r' (UnorderedMap.lookup_erase_eq_some.mp hr').2
      · rw [hli, hlp, ← hclean, htidy, hk]
        simp only [Option.some.injEq, forall_eq', completion_cases (hm id r hk) hends]
        exact and_and_and_comm

/-- **A step keeps the account**, and loses something exactly where it is not tidy. -/
theorem accounted_step {clean : Prop} (ha : s.Accounted clean) {act : RequestAct} (h : step cwd s act = some s') :
    s'.Accounted (clean ∧ s.Tidy cwd act) := by
  cases act with
  | first id acceptor resources =>
    rw [Tidy, and_true]
    exact accounted_first ha h
  | call id call =>
    rw [Tidy, and_true]
    exact accounted_call ha h
  | complete id calls => exact accounted_complete ha h

theorem accounted_run {clean : Prop} (ha : s.Accounted clean) {acts : List RequestAct}
    (h : run (step cwd) s acts = some s') : s'.Accounted (clean ∧ Along (step cwd) (Tidy cwd) s acts) := by
  induction acts generalizing s clean with
  | nil =>
    cases h
    rw [show Along (step cwd) (Tidy cwd) s' [] = True from rfl, and_true]
    exact ha
  | cons act acts ih =>
    rw [run_cons, Option.bind_eq_some_iff] at h
    obtain ⟨t, ht, h⟩ := h
    have hall := ih (accounted_step ha ht) h
    rw [and_assoc] at hall
    rw [along_cons, ht]
    simpa only [Option.some.injEq, forall_eq'] using hall

/-- **Where no request is left**, both ledgers are balanced exactly if nothing was lost. -/
theorem Accounted.balanced_iff {clean : Prop} (ha : s.Accounted clean) (he : s.requests.keys = []) :
    (s.infos.Balanced ∧ s.processors.Balanced) ↔ clean := by
  obtain ⟨lostInfos, lostProcessors, hi, hp, -, hclean⟩ := ha
  rw [hi.balanced_iff he, hp.balanced_iff he, hclean]

end Bookkeeping

/-! ## The runs -/

/-- **Nothing leaks exactly where every completed request is tidy**: each one that got its memory is an upload, its
three fields are not empty, and its directory is made. -/
theorem no_leak_iff (cwd : Path) (uploadClients : Int) (acts : List RequestAct) :
    NoLeak cwd uploadClients acts ↔ (AllCompleted cwd uploadClients acts → TidyRun cwd uploadClients acts) := by
  have hbalanced : ∀ s, run (Bookkeeping.step cwd) (.init uploadClients) acts = some s → s.requests.keys = [] →
      ((s.infos.Balanced ∧ s.processors.Balanced) ↔ TidyRun cwd uploadClients acts) := by
    intro s hrun he
    rw [(Bookkeeping.accounted_run (Bookkeeping.accounted_init uploadClients) hrun).balanced_iff he, true_and]
    rfl
  constructor
  · rintro hno ⟨s, hrun, he⟩
    exact (hbalanced s hrun he).mp (hno s hrun he)
  · intro htidy s hrun he
    exact (hbalanced s hrun he).mpr (htidy ⟨s, hrun, he⟩)

/-- An upload that is saved gives both back. -/
example : ∃ s, run (Bookkeeping.step []) (.init 1)
    [.first 1 .program ⟨true, true⟩,
      .call 1 (.data [⟨⟨"name".toList, "cam".toList, 0⟩, []⟩, ⟨⟨"fps".toList, "30".toList, 0⟩, []⟩,
        ⟨⟨"file".toList, ['x'], 0⟩, []⟩]),
      .complete 1 (List.replicate 2 (eventsTree, .able) ++ List.replicate 5 (camTree, .able))] = some s ∧
    s.requests.keys = [] ∧ s.infos.Balanced ∧ s.processors.Balanced :=
  ⟨_, rfl, rfl, by decide, by decide⟩

/-- **A `POST /program/start`**: its post processor is not destroyed. -/
theorem start_leaks : ¬ NoLeak [] 1 [.first 1 .programStart ⟨true, true⟩, .call 1 .last, .complete 1 []] := by
  intro h
  exact absurd (h _ rfl rfl).2 (by decide)

end RpiCam.Http
