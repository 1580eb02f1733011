import RpiCam.Rtsp.PathTable
import RpiCam.Rtsp.Target

/-!
# Where the requests of a listener go

A first request with any URL adds an entry to the table, so the table grows with what the clients ask. What a URL stands
for does not change by that, and a session stays with what its first request stood for.

* `fileOf` : the file of a URL, where an absent one reads as empty;
* `Routed` : every URL has the file that it began with, and the sessions go by it;
* `routed` : this holds in every run of the listener;
* `session_pinned` : no later request changes the URL, the file or the kind of handler of a session.
-/

namespace RpiCam.Rtsp

open Transition UnorderedMap

/-- What `_path_map[url]` reads. -/
def fileOf (table : PathTable) (url : List Char) : List Char := (AList.lookup url table).getD []

/-- The file of every URL is the first table's, whose entries are all there, and the sessions go by them. -/
structure Server.Routed (table : PathTable) (v : Server) : Prop where
  file : ∀ url, fileOf v.table url = fileOf table url
  keeps : ∀ url ∈ table, url ∈ v.table
  sessions : ∀ thread s, v.sessions thread = some s → s.Framed table

theorem Session.framed_congr {table table' : PathTable} {s : Session} (h : ∀ url, fileOf table' url = fileOf table url)
    (hs : s.Framed table') : s.Framed table := by
  intro handler hh
  obtain ⟨hfile, hkind⟩ := hs handler hh
  exact ⟨hfile.trans (h s.urlPath), hkind⟩

/-- The first lines of `read`: an absent URL is added, and reads as before. -/
theorem opened_routed {table : PathTable} {s : Session} {target : List Char} {c' : Connection} (hs : s.Framed table)
    (ho : s.opened table target = some c') :
    (∀ url, fileOf c'.1 url = fileOf table url) ∧ (∀ url ∈ table, url ∈ c'.1) ∧ c'.2.Framed table := by
  unfold Session.opened at ho
  split_ifs at ho with hnew
  · rw [Option.map_eq_some_iff] at ho
    obtain ⟨url, -, rfl⟩ := ho
    refine ⟨getD_lookup_subscript table url, fun other hmem => mem_subscript hmem, ?_⟩
    rintro handler ⟨⟩
    exact ⟨subscript_snd table url, newHandler_kind _⟩
  · cases ho
    exact ⟨fun _ => rfl, fun _ hmem => hmem, hs⟩

namespace Server

theorem Routed.setSession {table : PathTable} {v : Server} (hv : v.Routed table) (thread : Nat) {s : Option Session}
    (hs : ∀ s', s = some s' → s'.Framed table) : (v.setSession thread s).Routed table := by
  refine ⟨hv.file, hv.keeps, ?_⟩
  intro other s' h
  unfold Server.setSession at h
  dsimp only at h
  by_cases ho : other = thread
  · subst ho
    rw [Function.update_self] at h
    exact hs s' h
  · rw [Function.update_of_ne ho] at h
    exact hv.sessions other s' h

theorem Routed.afterRead {table : PathTable} {v : Server} (hv : v.Routed table) (thread : Nat) {r : Read}
    (hfile : ∀ url, fileOf r.table url = fileOf v.table url) (hkeeps : ∀ url ∈ v.table, url ∈ r.table)
    (hs : r.session.Framed table) : (v.afterRead thread r).Routed table := by
  have hv' : Routed table { v with table := r.table } :=
    ⟨fun url => (hfile url).trans (hv.file url), fun url hmem => hkeeps url (hv.keeps url hmem), hv.sessions⟩
  unfold Server.afterRead
  cases r.result with
  | returned ret =>
    apply hv'.setSession
    intro s' h
    split_ifs at h
    cases h
    exact hs
  | failed fault =>
    cases fault with
    | waits => exact hv'.setSession thread nofun
    | _ => exact ⟨hv'.file, hv'.keeps, nofun⟩

theorem Routed.step {hydra : Hydra} {table : PathTable} {v v' : Server} (hv : v.Routed table) {a : ServerAction}
    (h : v.step hydra a = some v') : v'.Routed table := by
  cases a with
  | accept thread uuid =>
    simp only [Server.step] at h
    split_ifs at h
    cases h
    apply hv.setSession
    rintro s' ⟨⟩
    exact nofun
  | request thread i =>
    rw [step_request, Option.map_eq_some_iff] at h
    obtain ⟨s, hs, rfl⟩ := h
    have hframed : s.Framed v.table := Session.framed_congr (fun url => (hv.file url).symm) (hv.sessions thread s hs)
    cases ho : s.opened v.table i.request.target with
    | none =>
      rw [read_of_not_opened ho]
      exact hv.afterRead thread (fun _ => rfl) (fun _ hmem => hmem) (hv.sessions thread s hs)
    | some c' =>
      obtain ⟨hfile, hkeeps, hc⟩ := opened_routed hframed ho
      have htable := (read_session hydra ho).1
      refine hv.afterRead thread ?_ ?_ ?_
      · rw [htable]
        exact hfile
      · rw [htable]
        exact hkeeps
      · exact Session.framed_congr hv.file (hc.read ho)

theorem routed_start (table : PathTable) : (Server.start table).Routed table := ⟨fun _ => rfl, fun _ h => h, nofun⟩

theorem reach_routed {hydra : Hydra} {table : PathTable} {ok : Server → ServerAction → Prop} {v : Server}
    (h : Reach (· = Server.start table) (Server.step hydra) ok v) : v.Routed table := by
  refine h.invariant (Server.Routed table) ?_ fun v a v' hv _ hst => hv.step hst
  rintro v rfl
  exact routed_start table

/-- **Requests do not change where URLs lead.** In every run of the listener, whatever its sessions ask and however they
come between each other, every URL has the file that it had in the first table, or the empty one; no entry of the first
table is lost; and every session has the file of its URL there, and the live handler exactly where this names a
device. -/
theorem routed {hydra : Hydra} {table : PathTable} {v : Server}
    (h : Reach (· = Server.start table) (Server.step hydra) (fun _ _ => True) v) :
    (∀ url, fileOf v.table url = fileOf table url) ∧ (∀ url ∈ table, url ∈ v.table) ∧
    ∀ thread s handler, v.sessions thread = some s → s.handler = some handler →
      s.filePath = fileOf table s.urlPath ∧
        (handler = .live ↔ (find (fileOf table s.urlPath) "/dev".toList 0).isSome = true) := by
  have hv := reach_routed h
  refine ⟨hv.file, hv.keeps, ?_⟩
  intro thread s handler hs hh
  obtain ⟨hfile, hkind⟩ := hv.sessions thread s hs handler hh
  refine ⟨hfile, ?_⟩
  rw [hkind, hfile]
  rfl

/-- An `OPTIONS` for a URL that is not in the table. -/
def unlistedInput : Input :=
  { liveInput (some .options) 0 with request := ⟨some .options, "rtsp://cam/x".toList, "1".toList, [], []⟩ }

/-- A session opens with it. -/
def unlistedRun : List ServerAction := [.accept 0 [], .request 0 unlistedInput]

theorem routed_unlisted : ∃ v, Transition.run (Server.step beast) (.start liveTable) unlistedRun = some v ∧
    "/x".toList ∈ v.table ∧ fileOf v.table "/x".toList = fileOf liveTable "/x".toList :=
  ⟨_, rfl, by decide, (routed (.of_run (.init rfl)
    (rfl : Transition.run (Server.step beast) (.start liveTable) unlistedRun = some _))).1 _⟩

/-! ## A session keeps what it began with -/

end Server

theorem targetPath_ne_nil {target url : List Char} (h : targetPath target = some url) : url ≠ [] := by
  unfold targetPath at h
  generalize ((find target "//".toList 0).map (· + 2)).getD 1 = start at h
  cases hfind : find target "/".toList start with
  | none =>
    rw [hfind] at h
    cases h
  | some k =>
    rw [hfind] at h
    simp only [substr_of_find hfind, Option.some.injEq] at h
    have hpre := isPrefix_of_find hfind
    rw [h] at hpre
    rintro rfl
    cases List.prefix_nil.mp hpre

/-- A session with a handler has its URL. -/
def Session.Named (s : Session) : Prop := ∀ handler, s.handler = some handler → s.urlPath ≠ []

theorem Session.Named.opened {table : PathTable} {s : Session} {target : List Char} {c' : Connection} (hs : s.Named)
    (ho : s.opened table target = some c') : c'.2.Named := by
  unfold Session.opened at ho
  split_ifs at ho with hnew
  · rw [Option.map_eq_some_iff] at ho
    obtain ⟨url, hurl, rfl⟩ := ho
    exact fun _ _ => targetPath_ne_nil hurl
  · cases ho
    exact hs

theorem Session.Named.read {hydra : Hydra} {table : PathTable} {s : Session} (hs : s.Named) (i : Input) :
    (Rtsp.read hydra table s i).session.Named := by
  cases ho : s.opened table i.request.target with
  | none =>
    rw [read_of_not_opened ho]
    exact hs
  | some c' =>
    obtain ⟨-, hurl, -, hkind⟩ := read_session hydra ho
    intro handler hh
    obtain ⟨handler', hh', -⟩ := hkind handler hh
    rw [hurl]
    exact hs.opened ho handler' hh'

theorem opened_of_named {table : PathTable} {s : Session} (hs : s.urlPath ≠ []) (target : List Char) :
    s.opened table target = some (table, s) :=
  if_neg fun h => hs h.1

theorem read_handler (hydra : Hydra) {table : PathTable} {s : Session} {i : Input} {c' : Connection} {handler : Handler}
    (ho : s.opened table i.request.target = some c') (hh : c'.2.handler = some handler) :
    ∃ handler', (read hydra table s i).session.handler = some handler' := by
  unfold read
  rw [ho]
  dsimp only
  cases i.request.method with
  | none => exact ⟨handler, hh⟩
  | some m =>
    cases i.remote with
    | none => exact ⟨handler, hh⟩
    | some remote =>
      dsimp only
      cases c'.2.callOf remote i.request m with
      | none => exact ⟨handler, hh⟩
      | some call =>
        have hcall : (c'.2.call i.surroundings call).1.handler = some (handler.call i.surroundings call).1 := by
          rw [Session.call, hh]
        dsimp only
        split
        · rename_i s' fault he
          rw [he] at hcall
          exact ⟨_, hcall⟩
        · rename_i s' ret out he
          rw [he] at hcall
          exact ⟨_, hcall⟩

/-- The URL, the file and the kind of handler of `s` are still those of `s'`. -/
structure Pinned (s s' : Session) : Prop where
  url : s'.urlPath = s.urlPath
  file : s'.filePath = s.filePath
  kind : ∃ handler handler', s.handler = some handler ∧ s'.handler = some handler' ∧ (handler' = .live ↔ handler = .live)

theorem Pinned.trans {s s' s'' : Session} (h : Pinned s s') (h' : Pinned s' s'') : Pinned s s'' where
  url := h'.url.trans h.url
  file := h'.file.trans h.file
  kind := by
    obtain ⟨handler, handler1, hh, hh1, hk⟩ := h.kind
    obtain ⟨handler2, handler', hh2, hh', hk'⟩ := h'.kind
    rw [hh1, Option.some.injEq] at hh2
    subst hh2
    exact ⟨handler, handler', hh, hh', hk'.trans hk⟩

theorem pinned_refl {s : Session} {handler : Handler} (hh : s.handler = some handler) : Pinned s s :=
  ⟨rfl, rfl, handler, handler, hh, hh, Iff.rfl⟩

theorem read_pinned (hydra : Hydra) (table : PathTable) {s : Session} (hs : s.Named) {handler : Handler}
    (hh : s.handler = some handler) (i : Input) : Pinned s (read hydra table s i).session := by
  have ho : s.opened table i.request.target = some (table, s) := opened_of_named (hs handler hh) i.request.target
  obtain ⟨-, hurl, hfile, hkind⟩ := read_session hydra ho
  obtain ⟨handler', hh'⟩ := read_handler hydra ho hh
  obtain ⟨handler'', hh'', hk⟩ := hkind handler' hh'
  exact ⟨hurl, hfile, handler'', handler', hh'', hh', hk⟩

namespace Server

/-- The session that a request leaves, if it does, and those of the other threads, unless the process ends. -/
theorem afterRead_sessions {v : Server} {thread : Nat} {r : Read} {other : Nat} {s' : Session}
    (h : (v.afterRead thread r).sessions other = some s') :
    (other = thread ∧ s' = r.session) ∨ (other ≠ thread ∧ v.sessions other = some s') := by
  have hset : ∀ s, (∀ s'', s = some s'' → s'' = r.session) →
      (Server.setSession { v with table := r.table } thread s).sessions other = some s' →
      (other = thread ∧ s' = r.session) ∨ (other ≠ thread ∧ v.sessions other = some s') := by
    intro s hs hsome
    unfold setSession at hsome
    dsimp only at hsome
    by_cases ho : other = thread
    · subst ho
      rw [Function.update_self] at hsome
      exact Or.inl ⟨rfl, hs s' hsome⟩
    · rw [Function.update_of_ne ho] at hsome
      exact Or.inr ⟨ho, hsome⟩
  unfold afterRead at h
  cases hr : r.result with
  | returned ret =>
    rw [hr] at h
    refine hset _ ?_ h
    intro s'' hs
    split_ifs at hs
    cases hs
    rfl
  | failed fault =>
    rw [hr] at h
    cases fault with
    | waits => exact hset none nofun h
    | _ => cases h

/-- Every session with a handler has its URL. -/
def AllNamed (v : Server) : Prop := ∀ thread s, v.sessions thread = some s → s.Named

theorem AllNamed.step {hydra : Hydra} {v v' : Server} (hv : v.AllNamed) {a : ServerAction}
    (h : v.step hydra a = some v') : v'.AllNamed := by
  intro other s' hs'
  cases a with
  | accept thread uuid =>
    simp only [Server.step] at h
    split_ifs at h
    cases h
    unfold setSession at hs'
    dsimp only at hs'
    by_cases ho : other = thread
    · subst ho
      rw [Function.update_self] at hs'
      cases hs'
      exact nofun
    · rw [Function.update_of_ne ho] at hs'
      exact hv other s' hs'
  | request thread i =>
    rw [step_request, Option.map_eq_some_iff] at h
    obtain ⟨s, hs, rfl⟩ := h
    rcases afterRead_sessions hs' with ⟨-, rfl⟩ | ⟨-, hold⟩
    · exact (hv thread s hs).read i
    · exact hv other s' hold

/-- One step of any session: one with a handler is gone, or keeps what it began with. -/
theorem step_pinned {hydra : Hydra} {v v' : Server} (hv : v.AllNamed) {a : ServerAction} (h : v.step hydra a = some v')
    {thread : Nat} {s s' : Session} {handler : Handler} (hs : v.sessions thread = some s)
    (hh : s.handler = some handler) (hs' : v'.sessions thread = some s') : Pinned s s' := by
  cases a with
  | accept other uuid =>
    simp only [Server.step] at h
    split_ifs at h with hfree
    cases h
    have hne : thread ≠ other := by
      rintro rfl
      rw [hfree.2] at hs
      cases hs
    unfold setSession at hs'
    dsimp only at hs'
    rw [Function.update_of_ne hne, hs] at hs'
    cases hs'
    exact pinned_refl hh
  | request other i =>
    rw [step_request, Option.map_eq_some_iff] at h
    obtain ⟨s0, hs0, rfl⟩ := h
    rcases afterRead_sessions hs' with ⟨rfl, rfl⟩ | ⟨-, hold⟩
    · rw [hs] at hs0
      cases hs0
      exact read_pinned hydra v.table (hv thread s hs) hh i
    · rw [hs] at hold
      cases hold
      exact pinned_refl hh

theorem run_pinned {hydra : Hydra} {v v' : Server} (hv : v.AllNamed) {thread : Nat} {s s' : Session} {handler : Handler}
    (hs : v.sessions thread = some s) (hh : s.handler = some handler) {actions : List ServerAction}
    (hrun : Transition.run (Server.step hydra) v actions = some v')
    (hstays : Always (Server.step hydra) (fun w => w.sessions thread ≠ none) v actions)
    (hs' : v'.sessions thread = some s') : Pinned s s' := by
  induction actions generalizing v s handler with
  | nil =>
    cases hrun
    rw [hs] at hs'
    cases hs'
    exact pinned_refl hh
  | cons a actions ih =>
    rw [run_cons, Option.bind_eq_some_iff] at hrun
    obtain ⟨w, hw, hrun⟩ := hrun
    have hrest := (always_cons.mp hstays).2 w hw
    obtain ⟨s1, hs1⟩ := Option.ne_none_iff_exists'.mp (hrest [] List.nil_prefix w rfl)
    have hpin := step_pinned hv hw hs hh hs1
    obtain ⟨-, handler1, -, hh1, -⟩ := hpin.kind
    exact hpin.trans (ih (hv.step hw) hs1 hh1 hrun hrest)

/-- **A session keeps what its first request chose.** From any state of the listener, as long as a session with a handler
lives, and whatever it and the others ask, with whatever URLs, it keeps its URL, its file and its kind of handler. -/
theorem session_pinned {hydra : Hydra} {table : PathTable} {v v' : Server}
    (h : Reach (· = Server.start table) (Server.step hydra) (fun _ _ => True) v) {thread : Nat} {s s' : Session}
    {handler : Handler} (hs : v.sessions thread = some s) (hh : s.handler = some handler)
    {actions : List ServerAction} (hrun : Transition.run (Server.step hydra) v actions = some v')
    (hstays : Always (Server.step hydra) (fun w => w.sessions thread ≠ none) v actions)
    (hs' : v'.sessions thread = some s') : Pinned s s' := by
  refine run_pinned ?_ hs hh hrun hstays hs'
  refine h.invariant AllNamed ?_ fun v a v' hv _ hst => hv.step hst
  rintro v rfl
  exact nofun

/-- A session opens with the live stream. -/
def openedServer : Server :=
  ((Server.start liveTable).setSession 0 (some (.new []))).afterRead 0
    (read beast liveTable (.new []) (liveInput (some .options) 0))

theorem session_pinned_live : ∃ v' s s', openedServer.sessions 0 = some s ∧ v'.sessions 0 = some s' ∧
    Transition.run (Server.step beast) openedServer [.request 0 unlistedInput] = some v' ∧
    s.urlPath = "/live".toList ∧ Pinned s s' :=
  ⟨_, _, _, rfl, rfl, rfl, rfl, session_pinned (.of_run (.init rfl)
    (rfl : Transition.run (Server.step beast) (.start liveTable)
      [.accept 0 [], .request 0 (liveInput (some .options) 0)] = some openedServer))
    (rfl : openedServer.sessions 0 = some _) rfl
    (rfl : Transition.run (Server.step beast) openedServer [.request 0 unlistedInput] = some _)
    (always_cons.mpr ⟨Option.isSome_iff_ne_none.mp rfl, by
      rintro w ⟨⟩
      exact always_nil.mpr (Option.isSome_iff_ne_none.mp rfl)⟩) rfl⟩

end Server

end RpiCam.Rtsp
