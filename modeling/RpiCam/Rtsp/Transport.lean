import RpiCam.Lib.Scanf
import RpiCam.Rtsp.Session

/-!
# The ports of a client

A `SETUP` names the ports of the client in its `Transport` header. `read` cuts the header behind the first
`client_port=`, and `setup_request` of a file reads two numbers there. Neither looks whether it was found.

* `endpoints` : the endpoints that `setup_request` makes, `none` in place of a port that is not set;
* `Names` : a header that names two ports;
* `clientPorts_of_names`, `scanPair_of_names` : they are found, and read;
* `clientPorts_eq_none_iff` : the headers that throw;
* `TransportLaw`, `transport_law_iff` : what each header is to come to, and the headers that do.
-/

namespace RpiCam.Rtsp

/-- An `int` as a port: the conversion to `unsigned short`. -/
def toPort (n : Int) : Nat := (n % 2 ^ 16).toNat

/-- The ports of the endpoints that `setup_request` makes, lines 146 and 152, that of RTP first. -/
def endpoints (w : Surroundings) (clientPort : List Char) : List (Option Nat) :=
  let ports := scanPair clientPort
  if !w.pipeline || !w.elements then []
  else if !w.sockets then [ports.1.map toPort]
  else [ports.1.map toPort, ports.2.map toPort]

/-- The name of the parameter. -/
def clientPortKey : List Char := "client_port=".toList

/-- The header names the ports `a` and `b`: behind its first `client_port=` is `a-b` in decimal digits, which end there or
at a `;`. -/
def Names (transport : List Char) (a b : Nat) : Prop :=
  ∃ before da db after, transport = before ++ (clientPortKey ++ (da ++ '-' :: (db ++ after))) ∧
    find transport clientPortKey 0 = some before.length ∧
    (∀ c ∈ da, c.isDigit = true) ∧ (∀ c ∈ db, c.isDigit = true) ∧ da ≠ [] ∧ db ≠ [] ∧
    decimal da = a ∧ decimal db = b ∧ (1 ≤ a ∧ a ≤ 65535) ∧ (1 ≤ b ∧ b ≤ 65535) ∧
    (after = [] ∨ after.head? = some ';')

/-- A `SETUP` with this header in a session that serves a file. -/
structure FileSetup (transport : List Char) (table : PathTable) (s : Session) (i : Input) : Prop where
  method : i.request.method = some .setup
  header : i.request.transport = transport
  remote : i.remote ≠ none
  file : ∃ c h, s.opened table i.request.target = some c ∧ c.2.handler = some (.file h)

/-- What becomes of a header: nothing is thrown over it, no endpoint gets a port that is not set, ports that are named are
those of the endpoints, and without them a file is not set up. -/
structure TransportLaw (transport : List Char) : Prop where
  total : Session.clientPorts transport ≠ none
  set : ∀ ports, Session.clientPorts transport = some ports → ∀ w, ∀ port ∈ endpoints w ports, port ≠ none
  named : ∀ a b, Names transport a b → ∃ ports, Session.clientPorts transport = some ports ∧
    ∀ w, endpoints w ports <+: [some a, some b] ∧
      ∀ h out, (FileHandler.setupRequest h w).2 = .returned 0 out → endpoints w ports = [some a, some b]
  refused : (¬ ∃ a b, Names transport a b) → ∀ (hydra : Hydra) table s i, FileSetup transport table s i →
    ∃ res, (read hydra table s i).responses = [res] ∧ 400 ≤ res.status

/-! ## The header -/

theorem endpoints_of_setup {h : FileHandler} {w : Surroundings} {out : List Char}
    (hsetup : (h.setupRequest w).2 = .returned 0 out) (clientPort : List Char) :
    endpoints w clientPort = [(scanPair clientPort).1.map toPort, (scanPair clientPort).2.map toPort] := by
  unfold FileHandler.setupRequest at hsetup
  unfold endpoints
  by_cases hmade : (!w.pipeline || !w.elements) = true
  · simp [hmade] at hsetup
  · by_cases hsockets : (!w.sockets) = true
    · simp [hmade, hsockets] at hsetup
    · simp only [hmade, hsockets, if_false, Bool.false_eq_true]

/-- The endpoints are the two, or those that were made before a failure. -/
theorem endpoints_isPrefix (w : Surroundings) (clientPort : List Char) :
    endpoints w clientPort <+: [(scanPair clientPort).1.map toPort, (scanPair clientPort).2.map toPort] := by
  unfold endpoints
  split_ifs
  · exact List.nil_prefix
  · exact ⟨[_], rfl⟩
  · exact List.prefix_refl _

theorem toPort_of_lt {n : Nat} (h : n ≤ 65535) : toPort n = n := by
  unfold toPort
  omega

theorem clientPorts_of_names {transport : List Char} {a b : Nat} (h : Names transport a b) :
    ∃ ports, Session.clientPorts transport = some ports ∧ scanPair ports = (some (a : Int), some (b : Int)) := by
  obtain ⟨before, da, db, after, htransport, hfind, hda, hdb, hna, hnb, rfl, rfl, hla, hlb, hafter⟩ := h
  have hcut : Session.clientPorts transport = some (da ++ '-' :: (db ++ after)) := by
    have hlen : before.length + 12 = (before ++ clientPortKey).length := by
      rw [List.length_append]
      rfl
    unfold Session.clientPorts
    rw [show find transport "client_port=".toList 0 = some before.length from hfind, Option.map_some, Option.getD_some,
      htransport, hlen, ← List.append_assoc, substr, if_pos (by simp), List.drop_left]
  refine ⟨_, hcut, ?_⟩
  apply scanPair_digits hda hna hdb hnb
  · rcases hafter with rfl | hafter
    · simp
    · rw [hafter]
      intro c hc
      cases hc
      decide
  · omega
  · omega

theorem scanPair_of_names {transport : List Char} {a b : Nat} (h : Names transport a b) :
    ∃ ports, Session.clientPorts transport = some ports ∧
      (scanPair ports).1.map toPort = some a ∧ (scanPair ports).2.map toPort = some b := by
  obtain ⟨ports, hports, hscan⟩ := clientPorts_of_names h
  obtain ⟨-, -, -, -, -, -, -, -, -, -, -, -, hla, hlb, -⟩ := h
  refine ⟨ports, hports, ?_, ?_⟩
  · rw [hscan]
    exact congrArg some (toPort_of_lt hla.2)
  · rw [hscan]
    exact congrArg some (toPort_of_lt hlb.2)

/-- The headers that end the session by an exception: those shorter than 11 characters, without the key. -/
theorem clientPorts_eq_none_iff (transport : List Char) :
    Session.clientPorts transport = none ↔ find transport clientPortKey 0 = none ∧ transport.length < 11 := by
  unfold Session.clientPorts
  show substr transport (((find transport clientPortKey 0).map (· + 12)).getD 11) = none ↔ _
  cases hfind : find transport clientPortKey 0 with
  | none =>
    simp [substr]
  | some k =>
    have hle : k + 12 ≤ transport.length := by
      rw [find, if_pos (Nat.zero_le _)] at hfind
      obtain ⟨i, hi, rfl⟩ := Option.map_eq_some_iff.mp hfind
      obtain ⟨-, hkey, -⟩ := indexOf_eq_some_iff.mp hi
      have hlen := hkey.length_le
      have hkeylen : clientPortKey.length = 12 := rfl
      rw [List.length_drop, List.length_drop] at hlen
      omega
    simp [substr, hle]

/-! ## The law -/

/-- A file session that has been opened, and a `SETUP` in it with a header. -/
def fileSetup (transport : List Char) : Session × Input :=
  (⟨[], "/f".toList, "f.mp4".toList, some (.file .new)⟩,
    ⟨⟨some .setup, "rtsp://cam/f".toList, "1".toList, transport, []⟩, .able, some "10.0.0.2".toList, 0⟩)

theorem fileSetup_fileSetup (transport : List Char) :
    FileSetup transport ∅ (fileSetup transport).1 (fileSetup transport).2 where
  method := rfl
  header := rfl
  remote := by simp [fileSetup]
  file := ⟨(∅, (fileSetup transport).1), .new, rfl, rfl⟩

theorem read_fileSetup {transport ports : List Char} (h : Session.clientPorts transport = some ports) :
    ∃ res, (read beast ∅ (fileSetup transport).1 (fileSetup transport).2).responses = [res] ∧ res.status = 200 := by
  have ho : (fileSetup transport).1.opened ∅ (fileSetup transport).2.request.target =
      some (∅, (fileSetup transport).1) := rfl
  have hc : (fileSetup transport).1.callOf "10.0.0.2".toList (fileSetup transport).2.request .setup =
      some (.setup "f.mp4".toList "10.0.0.2".toList ports) := by
    show (Session.clientPorts transport).map _ = _
    rw [h]
    rfl
  have hm : (fileSetup transport).2.request.method = some .setup := rfl
  have hr : (fileSetup transport).2.remote = some "10.0.0.2".toList := rfl
  have hread := read_of_call beast ho hm hr hc
  exact ⟨_, congrArg Read.responses hread, rfl⟩

/-- **A header comes to what it should exactly where it names two ports.** -/
theorem transport_law_iff (transport : List Char) : TransportLaw transport ↔ ∃ a b, Names transport a b := by
  constructor
  · intro h
    by_contra hnames
    obtain ⟨ports, hports⟩ := Option.ne_none_iff_exists'.mp h.total
    obtain ⟨res, hres, hstatus⟩ := h.refused hnames beast ∅ _ _ (fileSetup_fileSetup transport)
    obtain ⟨res', hres', hstatus'⟩ := read_fileSetup hports
    rw [hres] at hres'
    cases hres'
    omega
  · rintro ⟨a, b, hnames⟩
    obtain ⟨ports, hports, hrtp, hrtcp⟩ := scanPair_of_names hnames
    refine ⟨?_, ?_, ?_, ?_⟩
    · rw [hports]
      simp
    · intro ports' hports' w port hport
      obtain rfl := Option.some.inj (hports.symm.trans hports')
      have hmem := (endpoints_isPrefix w ports).subset hport
      rw [hrtp, hrtcp] at hmem
      rintro rfl
      simp at hmem
    · intro a' b' hnames'
      obtain ⟨ports', hports', hrtp', hrtcp'⟩ := scanPair_of_names hnames'
      refine ⟨ports', hports', fun w => ⟨?_, fun h out hsetup => ?_⟩⟩
      · rw [← hrtp', ← hrtcp']
        exact endpoints_isPrefix w ports'
      · rw [endpoints_of_setup hsetup, hrtp', hrtcp']
    · intro hother
      exact absurd ⟨a, b, hnames⟩ hother

/-- A header that throws, and one whose ports are not set. -/
theorem transport_without_ports :
    Session.clientPorts [] = none ∧ ¬ TransportLaw [] ∧
      Session.clientPorts "RTP/AVP;unicast".toList = some "cast".toList ∧
      endpoints .able "cast".toList = [none, none] ∧ ¬ TransportLaw "RTP/AVP;unicast".toList := by
  refine ⟨by decide, fun h => h.total (by decide), by decide, by decide, fun h => ?_⟩
  exact h.set "cast".toList (by decide) .able none (by decide) rfl

end RpiCam.Rtsp
