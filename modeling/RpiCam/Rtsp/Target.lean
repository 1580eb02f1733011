import RpiCam.Rtsp.Session

/-!
# The target of the first request

The first request of a session names its file. `read` looks for `//` in the target, and for the next `/` behind it; it
takes what is from there on, and does not ask whether either was found.

* `UrlParts` : a target of the form `scheme://authority/path`;
* `targetPath_of_parts` : its path is found;
* `opened_eq_none_iff` : the targets that throw;
* `TargetLaw`, `target_law_iff` : what each target is to come to, and the targets that do.
-/

namespace RpiCam.Rtsp

open UnorderedMap

/-- The target is `scheme://authority/path`. -/
structure UrlParts (target scheme authority path : List Char) : Prop where
  eq : target = scheme ++ "://".toList ++ authority ++ "/".toList ++ path
  nonempty : scheme ≠ []
  scheme : ':' ∉ scheme ∧ '/' ∉ scheme
  authority : '/' ∉ authority

/-- The session has had no request. -/
def Session.Fresh (s : Session) : Prop := s.urlPath = [] ∧ s.filePath = []

/-- What becomes of a target in the first request of a session: nothing is thrown; a path is taken exactly; and any other
target is answered with an error, where the session goes on. -/
structure TargetLaw (target : List Char) : Prop where
  total : ∀ (table : PathTable) (s : Session), s.Fresh → (s.opened table target).isSome
  path : ∀ scheme authority path, UrlParts target scheme authority path →
    ∀ (table : PathTable) (s : Session) (c : Connection), s.Fresh → s.opened table target = some c →
      c.2.urlPath = "/".toList ++ path
  refused : (¬ ∃ scheme authority path, UrlParts target scheme authority path) →
    ∀ (hydra : Hydra) (table : PathTable) (s : Session) (i : Input), s.Fresh → i.request.target = target →
      i.remote ≠ none → ∃ res ret, (read hydra table s i).responses = [res] ∧ 400 ≤ res.status ∧
        (read hydra table s i).result = .returned ret

/-! ## The path -/

/-- **The path of a URL is found**, behind the authority. -/
theorem targetPath_of_parts {target scheme authority path : List Char} (h : UrlParts target scheme authority path) :
    targetPath target = some ("/".toList ++ path) := by
  obtain ⟨rfl, -, ⟨-, hscheme⟩, hauthority⟩ := h
  -- the two places: the slashes behind the scheme, and the one behind the authority
  have hfirst : find (scheme ++ "://".toList ++ authority ++ "/".toList ++ path) "//".toList 0 =
      some (scheme.length + 1) := by
    have hnone : '/' ∉ scheme ++ [':'] := by simpa using hscheme
    have hfind := find_append hnone [] ['/'] (authority ++ '/' :: path)
    simpa using hfind
  have hsecond : find (scheme ++ "://".toList ++ authority ++ "/".toList ++ path) "/".toList (scheme.length + 3) =
      some (scheme.length + 3 + authority.length) := by
    have hfind := find_append hauthority (scheme ++ [':', '/', '/']) [] path
    simpa using hfind
  rw [targetPath, hfirst, Option.map_some, Option.getD_some, hsecond]
  show substr _ _ = _
  rw [substr_of_find hsecond]
  congr 1
  have hlen : scheme.length + 3 + authority.length = (scheme ++ "://".toList ++ authority).length := by
    simp only [List.length_append, String.reduceToList, List.length_cons, List.length_nil]
  rw [hlen, List.append_assoc (scheme ++ "://".toList ++ authority), List.drop_left]

/-- Where the search for the path begins: behind the first `//`, or, without one, behind the first character. -/
def searchStart (target : List Char) : Nat := ((find target "//".toList 0).map (· + 2)).getD 1

theorem targetPath_eq_none_iff (target : List Char) :
    targetPath target = none ↔ '/' ∉ target.drop (searchStart target) := by
  rw [← find_char_eq_none_iff]
  unfold targetPath searchStart
  generalize ((find target "//".toList 0).map (· + 2)).getD 1 = start
  have hslash : find target ['/'] start = find target "/".toList start := rfl
  rw [hslash]
  cases hfind : find target "/".toList start with
  | none => simp
  | some k => simp [substr_of_find hfind]

theorem opened_of_fresh (table : PathTable) {s : Session} (hs : s.Fresh) (target : List Char) :
    s.opened table target = (targetPath target).map fun url =>
      ((subscript table url).1, { s with
        urlPath := url
        filePath := (subscript table url).2
        handler := some (newHandler (subscript table url).2) }) :=
  if_pos hs

/-- The targets that end the session by an exception: no slash is behind the place where the search begins. -/
theorem opened_eq_none_iff (table : PathTable) {s : Session} (hs : s.Fresh) (target : List Char) :
    s.opened table target = none ↔ '/' ∉ target.drop (searchStart target) := by
  rw [← targetPath_eq_none_iff, opened_of_fresh table hs, Option.map_eq_none_iff]

/-! ## The law -/

theorem opened_handler {table : PathTable} {s : Session} {target : List Char} {c : Connection} (hs : s.Fresh)
    (h : s.opened table target = some c) : c.2.handler = some (newHandler c.2.filePath) := by
  rw [opened_of_fresh table hs] at h
  obtain ⟨url, -, rfl⟩ := Option.map_eq_some_iff.mp h
  rfl

theorem read_options (hydra : Hydra) {table : PathTable} {s : Session} {i : Input} {remote : List Char} {c : Connection}
    (hs : s.Fresh) (hm : i.request.method = some .options) (hr : i.remote = some remote)
    (ho : s.opened table i.request.target = some c) :
    ∃ res, (read hydra table s i).responses = [res] ∧ res.status = 200 := by
  have hcallOf : c.2.callOf remote i.request .options = some .option := rfl
  have hread := read_of_call hydra ho hm hr hcallOf
  have hcall : ∃ s' out, c.2.call i.surroundings .option = (s', .returned 0 out) := by
    rw [Session.call, opened_handler hs ho]
    cases newHandler c.2.filePath with
    | file h => exact ⟨_, _, rfl⟩
    | live => exact ⟨_, _, rfl⟩
  obtain ⟨s', out, hcall⟩ := hcall
  rw [hcall] at hread
  exact ⟨_, congrArg Read.responses hread, rfl⟩

/-- Any other target is to be refused, and one that does not throw is an `OPTIONS` away from its 200. -/
theorem TargetLaw.parts {target : List Char} (h : TargetLaw target) :
    ∃ scheme authority path, UrlParts target scheme authority path := by
  by_contra hother
  have hfresh : (Session.new []).Fresh := ⟨rfl, rfl⟩
  obtain ⟨c, hc⟩ := Option.isSome_iff_exists.mp (h.total ∅ _ hfresh)
  have hread := h.refused hother beast ∅ (.new [])
    ⟨⟨some .options, target, [], [], []⟩, .able, some [], 0⟩ hfresh rfl (by simp)
  obtain ⟨res, ret, hres, hstatus, -⟩ := hread
  obtain ⟨res', hres', hstatus'⟩ := read_options beast (i := ⟨⟨some .options, target, [], [], []⟩, .able, some [], 0⟩)
    hfresh rfl rfl hc
  rw [hres] at hres'
  cases hres'
  omega

/-- **A target comes to what it should exactly where it is `scheme://authority/path`.** Any other one throws, or is
taken for a path. -/
theorem target_law_iff (target : List Char) :
    TargetLaw target ↔ ∃ scheme authority path, UrlParts target scheme authority path := by
  constructor
  · exact TargetLaw.parts
  · rintro ⟨scheme, authority, path, hparts⟩
    have hopened : ∀ (table : PathTable) (s : Session), s.Fresh → ∃ c, s.opened table target = some c ∧
        c.2.urlPath = "/".toList ++ path := by
      intro table s hs
      rw [opened_of_fresh table hs, targetPath_of_parts hparts]
      exact ⟨_, rfl, rfl⟩
    refine ⟨?_, ?_, ?_⟩
    · intro table s hs
      obtain ⟨c, hc, -⟩ := hopened table s hs
      rw [hc]
      rfl
    · intro scheme' authority' path' hparts' table s c hs hc
      rw [opened_of_fresh table hs, targetPath_of_parts hparts'] at hc
      obtain rfl := Option.some.inj hc
      rfl
    · intro hother
      exact absurd ⟨scheme, authority, path, hparts⟩ hother

theorem target_star :
    (read beast ∅ (.new []) { liveInput (some .options) 0 with
        request := ⟨some .options, "*".toList, "1".toList, [], []⟩ }).result = .failed .threw ∧
      ¬ TargetLaw "*".toList ∧ targetPath "cam/live".toList = some "/live".toList ∧
      ¬ TargetLaw "cam/live".toList := by
  have hlaw : ∀ target : List Char, ':' ∉ target → ¬ TargetLaw target := by
    intro target hcolon h
    obtain ⟨scheme, authority, path, hparts⟩ := h.parts
    exact hcolon (by simp [hparts.eq])
  refine ⟨by decide, hlaw _ (by decide), by decide, hlaw _ (by decide)⟩

end RpiCam.Rtsp
