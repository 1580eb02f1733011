import RpiCam.Rtsp.Session

/-!
# The path table of the listener

Every session has a reference to the one table of the listener, and the first request of a session looks its URL up with
`operator[]`.

* `Server`, `Server.step` : the table, the sessions, and a request on one of them, in any interleaving;
* `Server.Framed` : the table is the one that the listener was made with, and the sessions go by it;
* `Listed` : a first request whose URL is in the table;
* `table_frame_iff` : the table stays exactly where every first request is listed.

A lookup is one step. Two sessions that insert at the same time would be worse.
-/

namespace RpiCam.Rtsp

open Transition UnorderedMap

/-- The listener's table, the sessions by their threads, and whether the process still runs. -/
structure Server where
  table : PathTable
  sessions : Nat → Option Session
  running : Bool

inductive ServerAction
  /-- `handle_session` begins. -/
  | accept (thread : Nat) (uuid : List Char)
  /-- `run` has read a request. -/
  | request (thread : Nat) (i : Input)

/-- A session with a handler has the file of its URL in the table, and the kind of handler that goes with the file. -/
def Session.Framed (table : PathTable) (s : Session) : Prop :=
  ∀ h, s.handler = some h → s.filePath = (AList.lookup s.urlPath table).getD [] ∧
    (h = .live ↔ (find s.filePath "/dev".toList 0).isSome = true)

namespace Server

def start (table : PathTable) : Server := ⟨table, fun _ => none, true⟩

def setSession (v : Server) (thread : Nat) (s : Option Session) : Server :=
  { v with sessions := Function.update v.sessions thread s }

/-- What a request leaves: `run` goes on, or the session ends, or an exception ends the process. -/
def afterRead (v : Server) (thread : Nat) (r : Read) : Server :=
  let v := { v with table := r.table }
  match r.result with
  | .returned ret => v.setSession thread (if ret = 0 then some r.session else none)
  | .failed .waits => v.setSession thread none
  | .failed _ => { v with sessions := fun _ => none, running := false }

def step (hydra : Hydra) (v : Server) : ServerAction → Option Server
  | .accept thread uuid =>
    if v.running = true ∧ v.sessions thread = none then some (v.setSession thread (some (.new uuid))) else none
  | .request thread i => (v.sessions thread).map fun s => v.afterRead thread (read hydra v.table s i)

/-- The table is `table`, and the sessions go by it. -/
def Framed (table : PathTable) (v : Server) : Prop :=
  v.table = table ∧ ∀ thread s, v.sessions thread = some s → s.Framed table

end Server

/-- A request on a session that has its URL, or whose URL is in the table. -/
def Listed (v : Server) : ServerAction → Prop
  | .accept _ _ => True
  | .request thread i => ∀ s url, v.sessions thread = some s → s.urlPath = [] ∧ s.filePath = [] →
    targetPath i.request.target = some url → url ∈ v.table

/-- In a run of these actions the table stays, and the sessions go by it. -/
def TableFrame (hydra : Hydra) (table : PathTable) (actions : List ServerAction) : Prop :=
  Along (Server.step hydra) (fun v a => ∀ v', v.step hydra a = some v' → v'.Framed table) (.start table) actions

/-! ## One request -/

theorem call_kind (w : Surroundings) (c : Call) (h : Handler) : (h.call w c).1 = .live ↔ h = .live := by
  cases h with
  | file h => simp [Handler.call]
  | live => simp [Handler.call]

theorem Session.call_session (s : Session) (w : Surroundings) (c : Call) :
    (s.call w c).1.urlPath = s.urlPath ∧ (s.call w c).1.filePath = s.filePath ∧
      ∀ h, (s.call w c).1.handler = some h → ∃ h', s.handler = some h' ∧ (h = .live ↔ h' = .live) := by
  unfold Session.call
  cases hh : s.handler with
  | none =>
    refine ⟨rfl, rfl, ?_⟩
    intro h he
    rw [hh] at he
    cases he
  | some h' =>
    refine ⟨rfl, rfl, ?_⟩
    intro h he
    cases he
    exact ⟨h', rfl, call_kind w c h'⟩

/-- After its first lines `read` leaves the table alone, and the URL, the file and the kind of handler. -/
theorem read_session (hydra : Hydra) {table : PathTable} {s : Session} {i : Input} {c' : Connection}
    (ho : s.opened table i.request.target = some c') :
    (read hydra table s i).table = c'.1 ∧ (read hydra table s i).session.urlPath = c'.2.urlPath ∧
      (read hydra table s i).session.filePath = c'.2.filePath ∧
      ∀ h, (read hydra table s i).session.handler = some h → ∃ h', c'.2.handler = some h' ∧ (h = .live ↔ h' = .live) := by
  have hsame : ∀ h, c'.2.handler = some h → ∃ h', c'.2.handler = some h' ∧ (h = .live ↔ h' = .live) :=
    fun h hh => ⟨h, hh, Iff.rfl⟩
  unfold read
  rw [ho]
  dsimp only
  cases i.request.method with
  | none => exact ⟨rfl, rfl, rfl, hsame⟩
  | some m =>
    cases i.remote with
    | none => exact ⟨rfl, rfl, rfl, hsame⟩
    | some remote =>
      dsimp only
      cases c'.2.callOf remote i.request m with
      | none => exact ⟨rfl, rfl, rfl, hsame⟩
      | some call =>
        obtain ⟨h1, h2, h3⟩ := c'.2.call_session i.surroundings call
        dsimp only
        split
        · rename_i s' fault he
          rw [he] at h1 h2 h3
          exact ⟨rfl, h1, h2, h3⟩
        · rename_i s' ret out he
          rw [he] at h1 h2 h3
          exact ⟨rfl, h1, h2, h3⟩

theorem read_of_not_opened {hydra : Hydra} {table : PathTable} {s : Session} {i : Input}
    (ho : s.opened table i.request.target = none) : read hydra table s i = ⟨table, s, none, [], .failed .threw⟩ := by
  unfold read
  rw [ho]

theorem newHandler_kind (filePath : List Char) :
    newHandler filePath = .live ↔ (find filePath "/dev".toList 0).isSome = true := by
  unfold newHandler
  split_ifs with h
  · exact ⟨fun _ => h, fun _ => rfl⟩
  · constructor
    · intro he
      cases he
    · intro he
      exact absurd he h

/-- The first lines of `read`: a session that goes by the table still does, and a URL that is listed adds nothing. -/
theorem Session.Framed.opened {table : PathTable} {s : Session} {target : List Char} {c' : Connection}
    (hs : s.Framed table) (ho : s.opened table target = some c')
    (hl : ∀ url, s.urlPath = [] ∧ s.filePath = [] → targetPath target = some url → url ∈ table) :
    c'.1 = table ∧ c'.2.Framed table := by
  unfold Session.opened at ho
  split_ifs at ho with hnew
  · rw [Option.map_eq_some_iff] at ho
    obtain ⟨url, hurl, rfl⟩ := ho
    have hmem := hl url hnew hurl
    refine ⟨(subscript_fst_eq_iff table url).mpr hmem, ?_⟩
    intro h hh
    cases hh
    dsimp only
    rw [subscript_of_mem hmem]
    exact ⟨rfl, newHandler_kind _⟩
  · cases ho
    exact ⟨rfl, hs⟩

theorem Session.Framed.read {hydra : Hydra} {table table' : PathTable} {s : Session} {i : Input} {c' : Connection}
    (ho : s.opened table' i.request.target = some c') (hc : c'.2.Framed table) :
    (Rtsp.read hydra table' s i).session.Framed table := by
  obtain ⟨-, hurl, hfile, hkind⟩ := read_session hydra ho
  intro h hh
  obtain ⟨h', hh', hk⟩ := hkind h hh
  rw [hurl, hfile, hk]
  exact hc h' hh'

/-! ## Any number of sessions -/

namespace Server

@[simp] theorem afterRead_table (v : Server) (thread : Nat) (r : Read) : (v.afterRead thread r).table = r.table := by
  unfold afterRead
  dsimp only
  split <;> rfl

theorem Framed.setSession {table : PathTable} {v : Server} (hv : v.Framed table) (thread : Nat) {s : Option Session}
    (hs : ∀ s', s = some s' → s'.Framed table) : (v.setSession thread s).Framed table := by
  refine ⟨hv.1, ?_⟩
  intro other s' h
  unfold Server.setSession at h
  dsimp only at h
  by_cases ho : other = thread
  · subst ho
    rw [Function.update_self] at h
    exact hs s' h
  · rw [Function.update_of_ne ho] at h
    exact hv.2 other s' h

theorem Framed.afterRead {table : PathTable} {v : Server} (hv : v.Framed table) (thread : Nat) {r : Read}
    (ht : r.table = table) (hs : r.result ≠ .failed .threw → r.session.Framed table) :
    (v.afterRead thread r).Framed table := by
  have hv' : Framed table { v with table := r.table } := ⟨ht, hv.2⟩
  unfold Server.afterRead
  dsimp only
  split
  · rename_i ret he
    apply hv'.setSession
    intro s' h
    split_ifs at h
    cases h
    exact hs (by rw [he]; exact fun h => nomatch h)
  · exact hv'.setSession thread fun _ h => nomatch h
  · exact ⟨ht, fun _ _ h => nomatch h⟩

theorem step_request (hydra : Hydra) (v : Server) (thread : Nat) (i : Input) :
    v.step hydra (.request thread i) =
      (v.sessions thread).map fun s => v.afterRead thread (read hydra v.table s i) := rfl

/-- **One step**: the table stays where the first request of a session is listed, and only there. -/
theorem Framed.step_iff {hydra : Hydra} {table : PathTable} {v : Server} (hv : v.Framed table) (a : ServerAction) :
    (∀ v', v.step hydra a = some v' → v'.Framed table) ↔ Listed v a := by
  cases a with
  | accept thread uuid =>
    refine ⟨fun _ => trivial, fun _ v' h => ?_⟩
    unfold Server.step at h
    dsimp only at h
    split_ifs at h
    cases h
    apply hv.setSession
    intro s' he
    cases he
    exact fun _ h => nomatch h
  | request thread i =>
    constructor
    · intro h s url hs hnew hurl
      have ho : s.opened v.table i.request.target = some
          ((subscript v.table url).1, { s with urlPath := url, filePath := (subscript v.table url).2,
                                               handler := some (newHandler (subscript v.table url).2) }) := by
        unfold Session.opened
        rw [if_pos hnew, hurl]
        rfl
      have hstep := h (v.afterRead thread (read hydra v.table s i)) (by rw [step_request, hs]; rfl)
      have ht := hstep.1
      rw [afterRead_table, (read_session hydra ho).1, ← hv.1] at ht
      exact (subscript_fst_eq_iff v.table url).mp ht
    · intro hl v' h
      rw [step_request, Option.map_eq_some_iff] at h
      obtain ⟨s, hs, rfl⟩ := h
      cases ho : s.opened v.table i.request.target with
      | none =>
        rw [read_of_not_opened ho]
        exact hv.afterRead thread hv.1 fun hne => absurd rfl hne
      | some c' =>
        have hl' : ∀ url, s.urlPath = [] ∧ s.filePath = [] → targetPath i.request.target = some url → url ∈ v.table :=
          fun url => hl s url hs
        obtain rfl : v.table = table := hv.1
        obtain ⟨ht, hc⟩ := (hv.2 thread s hs).opened ho hl'
        exact hv.afterRead thread ((read_session hydra ho).1.trans ht) fun _ => hc.read ho

end Server

theorem framed_start (table : PathTable) : (Server.start table).Framed table := ⟨rfl, fun _ _ h => nomatch h⟩

/-- **The path table**: whatever the sessions ask, the table stays, and the sessions go by it, exactly where every first
request of a session is listed. -/
theorem table_frame_iff (hydra : Hydra) (table : PathTable) (actions : List ServerAction) :
    TableFrame hydra table actions ↔ Along (Server.step hydra) Listed (.start table) actions :=
  along_congr (Server.Framed table) (fun _ a hv => hv.step_iff a) (fun _ _ s' _ hp hst => hp s' hst)
    (framed_start table) actions

/-- **A request that adds an entry**: a session opens with a URL that is not in the table. -/
theorem unlisted_request :
    ¬ TableFrame beast liveTable
      [.accept 0 [], .request 0 { liveInput (some .options) 0 with
        request := ⟨some .options, "rtsp://cam/x".toList, "1".toList, [], []⟩ }] := by
  intro h
  have h1 := (h.2 _ rfl).1 _ rfl
  exact absurd (congrArg (fun t : PathTable => t.entries.length) h1.1) (by decide)

end RpiCam.Rtsp
