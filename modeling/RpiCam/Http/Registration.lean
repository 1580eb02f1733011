import Mathlib.Data.List.TakeWhile
import RpiCam.Lib.Transition

/-!
# The registration of the camera

The first boot makes a uuid, writes it to `system/uuid` and sends it to the server; a later boot finds the file and
starts the daemon. That the file is there is all a boot knows of the boots before it.

* `camerainfoSend` : the codes of `camerainfo_send`;
* `Device.step` : what a boot does in `HttpInitializer::init`, and the power cuts between;
* `Step` : one rule for each kind of step, `step_sound`;
* `Origin` : how the boot went that made the file;
* `Recorded` : the file is what this boot wrote, and the reports are uuids; `recorded_step`;
* `Registered` : once the daemon was started, the uuid in the file was reported, and it stays;
* `registered_iff` : this holds in every state of a run exactly where each start of the daemon `Fits`;
* `unregistered_boot` : a first boot whose report fails, and a second one.
-/

namespace RpiCam.Http

open Transition

/-- `boost::uuids::to_string`: 36 hexadecimal digits and dashes. -/
def IsUuid (u : List Char) : Prop := u.length = 36 ∧ ∀ c ∈ u, c = '-' ∨ c ∈ "0123456789abcdef".toList

-- over the digits that are there, not over all characters
instance (u : List Char) : Decidable (IsUuid u) := @instDecidableAnd _ _ _ (List.decidableBAll _ u)

/-- `std::getline` on the file. -/
def uuidOf (content : List Char) : List Char := content.takeWhile fun c => c ≠ '\n'

/-- `send_request`, where `curl` is not null: whether `curl_easy_perform` comes to `CURLE_OK`. -/
def sendRequest (performed : Bool) : Int := if performed then 0 else 2

/-- `camerainfo_send`: whether `curl_easy_init` gives a handle, and what becomes of the transfer. -/
def camerainfoSend (curl performed : Bool) : Int := if curl then sendRequest performed else 1

inductive BootPhase
  /-- No process, or not yet in `init`. -/
  | off
  | begun
  /-- The directory `system` is there. -/
  | directory
  /-- Line 44, `cnt` is 0. -/
  | fresh
  | generated (uuid : List Char)
  | opened (uuid : List Char)
  /-- Before `camerainfo_send`. -/
  | written (uuid : List Char)
  /-- Line 64, `cnt` is 1. -/
  | found
  /-- Line 75. -/
  | named (uuid : List Char)
  /-- `init` has returned. -/
  | returned (ret : Int)
  deriving DecidableEq

/-- How the boot went that made the file, for the record. -/
structure Origin where
  uuid : List Char
  /-- The bytes that reached the file. -/
  bytes : Nat
  /-- Its own report was made, and answered. -/
  answered : Bool
  /-- The uuids that were reported before it, by boots that could not make the file. -/
  earlier : List (List Char)

/-- What outlives a boot, and the boot that runs. -/
structure Device where
  /-- `system` is a directory. -/
  system : Bool
  /-- The regular file `system/uuid`. -/
  file : Option (List Char)
  phase : BootPhase
  origin : Option Origin
  /-- The uuids for which a `camerainfo_send` returned 0. -/
  reported : List (List Char)
  /-- What was in the file when the daemon was started, each time. -/
  starts : List (Option (List Char))

inductive BootAct
  | boot
  /-- The power goes, or an exception ends the process. -/
  | cut
  /-- Lines 24 to 26: `create_directory` makes `system`, or throws. -/
  | makeDirectory (able : Bool)
  | scan
  | generate (uuid : List Char)
  /-- The file opens for writing or not. -/
  | openFile (able : Bool)
  /-- The bytes that reach the file. -/
  | write (bytes : Nat)
  | send (curl performed : Bool)
  /-- The file opens for reading or not. -/
  | read (able : Bool)
  /-- `MHD_start_daemon` gives a daemon or not. -/
  | start (able : Bool)

namespace Device

/-- A device that was never started. -/
def init (system : Bool) : Device := ⟨system, none, .off, none, [], []⟩

variable (s : Device)

/-- Line 48: the file is there, and empty. -/
def openFile (uuid : List Char) : Device :=
  { s with file := some [], phase := .opened uuid, origin := some ⟨uuid, 0, false, s.reported⟩ }

/-- Lines 50 and 51. -/
def write (uuid : List Char) (bytes : Nat) : Device :=
  { s with
    file := some (uuid.take bytes)
    phase := .written uuid
    origin := s.origin.map fun o => { o with bytes } }

/-- The report of the boot that has just made the file, or could not make it, is answered. -/
def report (uuid : List Char) : Device :=
  { s with
    phase := .named uuid
    reported := s.reported ++ [uuid]
    origin := s.origin.map fun o => { o with answered := true } }

/-- Lines 55 to 60. -/
def send (uuid : List Char) (ret : Int) : Device :=
  if ret = 0 then s.report uuid else { s with phase := .returned 3 }

/-- The daemon is there. -/
def start : Device := { s with phase := .returned 0, starts := s.starts ++ [s.file] }

def step (s : Device) (a : BootAct) : Option Device :=
  match a, s.phase with
  | .cut, _ => some { s with phase := .off }
  | .boot, .off => some { s with phase := .begun }
  | .makeDirectory able, .begun =>
    if s.system || able then some { s with system := true, phase := .directory } else some { s with phase := .off }
  | .scan, .directory => some { s with phase := if s.file.isSome then .found else .fresh }
  | .generate uuid, .fresh => if IsUuid uuid then some { s with phase := .generated uuid } else none
  | .openFile able, .generated uuid => some (if able then s.openFile uuid else { s with phase := .written uuid })
  | .write bytes, .opened uuid => some (s.write uuid bytes)
  | .send curl performed, .written uuid => some (s.send uuid (camerainfoSend curl performed))
  | .read able, .found => some { s with phase := .named (if able then (s.file.map uuidOf).getD [] else []) }
  | .start able, .named _ => some (if able then s.start else { s with phase := .returned 1 })
  | _, _ => none

end Device

/-- The boot is not about to make the file, or to report. -/
def BootPhase.settled : BootPhase → Bool
  | fresh | generated _ | opened _ | written _ => false
  | _ => true

namespace Device

inductive Step (s : Device) : BootAct → Device → Prop
  | turn {a p b} : p.settled = true → a ≠ .start true → Step s a { s with system := b, phase := p }
  | fresh : s.file = none → Step s .scan { s with phase := .fresh }
  | generated {u} : s.phase = .fresh → IsUuid u → Step s (.generate u) { s with phase := .generated u }
  | opened {u} : s.phase = .generated u → Step s (.openFile true) (s.openFile u)
  | unopened {u} : s.phase = .generated u → Step s (.openFile false) { s with phase := .written u }
  | wrote {u n} : s.phase = .opened u → Step s (.write n) (s.write u n)
  | sent {u c p} : s.phase = .written u → camerainfoSend c p = 0 →
      Step s (.send c p) (s.report u)
  | started {u} : s.phase = .named u → Step s (.start true) s.start

variable {s s' : Device} {a : BootAct}

theorem step_sound (h : s.step a = some s') : Step s a s' := by
  unfold step at h
  split at h
  · cases h
    exact .turn rfl nofun
  · cases h
    exact .turn rfl nofun
  · split_ifs at h <;> cases h
    · exact .turn rfl nofun
    · exact .turn rfl nofun
  · cases h
    by_cases hf : s.file.isSome = true
    · rw [if_pos hf]
      exact .turn rfl nofun
    · rw [if_neg hf]
      exact .fresh (Option.not_isSome_iff_eq_none.mp hf)
  · rename_i hp
    split_ifs at h with hu
    cases h
    exact .generated hp hu
  · rename_i able u hp
    cases h
    cases able with
    | true => exact .opened hp
    | false => exact .unopened hp
  · rename_i hp
    cases h
    exact .wrote hp
  · rename_i c p u hp
    cases h
    unfold send
    split_ifs with hret
    · exact .sent hp hret
    · exact .turn rfl nofun
  · cases h
    exact .turn rfl nofun
  · rename_i able u hp
    cases h
    cases able with
    | true => exact .started hp
    | false => exact .turn rfl nofun
  · cases h

/-! ## What is recorded -/

/-- The file is what its boot wrote, every report is of a uuid, that of this boot is the last one, and a boot that is
about to make the file is the first to start a daemon. -/
structure Recorded (s : Device) : Prop where
  file : ∀ c, s.file = some c → ∃ o, s.origin = some o
  origin : ∀ o, s.origin = some o → s.file = some (o.uuid.take o.bytes) ∧ IsUuid o.uuid ∧
    s.reported = o.earlier ++ if o.answered then [o.uuid] else []
  reported : ∀ u ∈ s.reported, IsUuid u
  phase : match s.phase with
    | .fresh => s.origin = none ∧ s.starts = []
    | .generated u => s.origin = none ∧ IsUuid u ∧ s.starts = []
    | .opened u => s.origin = some ⟨u, 0, false, s.reported⟩ ∧ IsUuid u ∧ s.starts = []
    | .written u => (∀ o, s.origin = some o → o.uuid = u ∧ o.answered = false) ∧ IsUuid u
    | _ => True

/-- Once the daemon was started, the uuid in the file is there and was reported; and it is the one that was there at
each start. -/
structure Registered (s : Device) : Prop where
  reported : s.starts ≠ [] → ∃ c, s.file = some c ∧ uuidOf c ≠ [] ∧ uuidOf c ∈ s.reported
  fixed : ∀ f ∈ s.starts, f.map uuidOf = s.file.map uuidOf

/-- Where the daemon is started, the boot that made the file wrote all 36 characters, and its own report was answered,
or the server had answered for the same uuid before. -/
def Fits (s : Device) (a : BootAct) : Prop :=
  a = .start true → (s.step a).isSome →
    ∃ o, s.origin = some o ∧ 36 ≤ o.bytes ∧ (o.answered = true ∨ o.uuid ∈ o.earlier)

theorem recorded_init (system : Bool) : Recorded (init system) := ⟨nofun, nofun, nofun, trivial⟩

theorem registered_init (system : Bool) : Registered (init system) := ⟨fun h => absurd rfl h, nofun⟩

theorem recorded_settled (hs : Recorded s) {b : Bool} {p : BootPhase} (hp : p.settled = true) :
    Recorded { s with system := b, phase := p } := by
  refine ⟨hs.file, hs.origin, hs.reported, ?_⟩
  cases p <;> first | exact trivial | cases hp

theorem recorded_step (hs : Recorded s) (hr : Registered s) (h : Step s a s') : Recorded s' := by
  have hphase := hs.phase
  cases h with
  | turn hp _ => exact recorded_settled hs hp
  | fresh hf =>
    refine ⟨hs.file, hs.origin, hs.reported, ?_, ?_⟩
    · show s.origin = none
      by_contra hne
      obtain ⟨o, ho⟩ := Option.ne_none_iff_exists'.mp hne
      have hfile := (hs.origin o ho).1
      rw [hf] at hfile
      cases hfile
    · -- no file, so no daemon was started
      by_contra hne
      obtain ⟨c, hc, -⟩ := hr.reported hne
      rw [hf] at hc
      cases hc
  | generated hp hu =>
    rw [hp] at hphase
    exact ⟨hs.file, hs.origin, hs.reported, hphase.1, hu, hphase.2⟩
  | opened hp =>
    rw [hp] at hphase
    refine ⟨fun c _ => ⟨_, rfl⟩, ?_, hs.reported, rfl, hphase.2⟩
    rintro o ⟨⟩
    exact ⟨rfl, hphase.2.1, (List.append_nil _).symm⟩
  | unopened hp =>
    rw [hp] at hphase
    refine ⟨hs.file, hs.origin, hs.reported, fun o ho => ?_, hphase.2.1⟩
    have ho' : s.origin = some o := ho
    rw [hphase.1] at ho'
    cases ho'
  | @wrote u n hp =>
    rw [hp] at hphase
    have horigin : (s.write u n).origin = some ⟨u, n, false, s.reported⟩ := by
      show s.origin.map _ = _
      rw [hphase.1]
      rfl
    refine ⟨fun c _ => ⟨_, horigin⟩, fun o ho => ?_, hs.reported, fun o ho => ?_, hphase.2.1⟩
    · cases horigin.symm.trans ho
      exact ⟨rfl, hphase.2.1, (List.append_nil _).symm⟩
    · cases horigin.symm.trans ho
      exact ⟨rfl, rfl⟩
  | @sent u c p hp hret =>
    rw [hp] at hphase
    refine ⟨fun f hf => ?_, fun o' ho' => ?_, fun v hv => ?_, trivial⟩
    · obtain ⟨o, ho⟩ := hs.file f hf
      exact ⟨_, congrArg (Option.map _) ho⟩
    · obtain ⟨o, ho, rfl⟩ := Option.map_eq_some_iff.mp ho'
      obtain ⟨hfile, huuid, hreported⟩ := hs.origin o ho
      obtain ⟨hou, hno⟩ := hphase.1 o ho
      refine ⟨hfile, huuid, ?_⟩
      rw [hno, if_neg Bool.false_ne_true, List.append_nil] at hreported
      show s.reported ++ [u] = o.earlier ++ [o.uuid]
      rw [hreported, hou]
    · rcases List.mem_append.mp hv with hv | hv
      · exact hs.reported v hv
      · rw [List.mem_singleton.mp hv]
        exact hphase.2
  | started hp => exact ⟨hs.file, hs.origin, hs.reported, trivial⟩

theorem registered_kept (hs : Recorded s) (hr : Registered s) (h : Step s a s') (ha : a ≠ .start true) :
    Registered s' := by
  have hphase := hs.phase
  cases h with
  | turn _ _ => exact ⟨hr.reported, hr.fixed⟩
  | fresh _ => exact ⟨hr.reported, hr.fixed⟩
  | generated _ _ => exact ⟨hr.reported, hr.fixed⟩
  | opened hp =>
    rw [hp] at hphase
    have hnone : s.starts = [] := hphase.2.2
    refine ⟨fun hne => absurd hnone hne, fun f hf => ?_⟩
    rw [show (s.openFile _).starts = s.starts from rfl, hnone] at hf
    cases hf
  | unopened _ => exact ⟨hr.reported, hr.fixed⟩
  | wrote hp =>
    rw [hp] at hphase
    have hnone : s.starts = [] := hphase.2.2
    refine ⟨fun hne => absurd hnone hne, fun f hf => ?_⟩
    rw [show (s.write _ _).starts = s.starts from rfl, hnone] at hf
    cases hf
  | sent _ _ =>
    refine ⟨fun hne => ?_, hr.fixed⟩
    obtain ⟨c, hc, hne, hmem⟩ := hr.reported hne
    exact ⟨c, hc, hne, List.mem_append_left _ hmem⟩
  | started _ => exact absurd rfl ha

theorem uuidOf_take {u : List Char} (h : IsUuid u) (n : Nat) : uuidOf (u.take n) = u.take n := by
  unfold uuidOf
  rw [List.takeWhile_eq_self_iff]
  intro c hc
  rw [decide_eq_true_eq]
  rintro rfl
  rcases h.2 '\n' (List.mem_of_mem_take hc) with hdash | hmem
  · exact absurd hdash (by decide)
  · exact absurd hmem (by decide)

/-- What the boot that made the file, and those before it, have reported. -/
theorem mem_reported_iff (hs : Recorded s) {o : Origin} (ho : s.origin = some o) :
    o.uuid ∈ s.reported ↔ o.answered = true ∨ o.uuid ∈ o.earlier := by
  rw [(hs.origin o ho).2.2, List.mem_append, or_comm]
  apply or_congr_left
  split_ifs with hanswered
  · exact iff_of_true (List.mem_singleton_self _) hanswered
  · exact iff_of_false List.not_mem_nil hanswered

/-- A start keeps what was registered exactly where the boot that made the file wrote it whole and was answered. -/
theorem registered_start (hs : Recorded s) (hr : Registered s) : Registered s.start ↔
    ∃ o, s.origin = some o ∧ 36 ≤ o.bytes ∧ (o.answered = true ∨ o.uuid ∈ o.earlier) := by
  constructor
  · intro h
    obtain ⟨c, hc, -, hmem⟩ := h.reported (List.append_ne_nil_of_right_ne_nil _ (List.cons_ne_nil _ _))
    obtain ⟨o, ho⟩ := hs.file c hc
    obtain ⟨hfile, huuid, -⟩ := hs.origin o ho
    have hfc : c = o.uuid.take o.bytes := Option.some.inj (hc.symm.trans hfile)
    rw [hfc, uuidOf_take huuid] at hmem
    have hlen : (o.uuid.take o.bytes).length = 36 := (hs.reported _ hmem).1
    have hu : o.uuid.length = 36 := huuid.1
    rw [List.length_take] at hlen
    rw [List.take_of_length_le (by omega)] at hmem
    exact ⟨o, ho, by omega, (mem_reported_iff hs ho).mp hmem⟩
  · rintro ⟨o, ho, hle, hmem⟩
    rw [← mem_reported_iff hs ho] at hmem
    obtain ⟨hfile, huuid, -⟩ := hs.origin o ho
    have hlen : o.uuid.length = 36 := huuid.1
    have hof := uuidOf_take huuid o.bytes
    rw [List.take_of_length_le (by omega)] at hfile hof
    refine ⟨fun _ => ⟨o.uuid, hfile, ?_, ?_⟩, fun f hf => ?_⟩
    · rw [hof]
      intro hnil
      rw [hnil] at hlen
      cases hlen
    · rw [hof]
      exact hmem
    · rcases List.mem_append.mp hf with hf | hf
      · exact hr.fixed f hf
      · rw [List.mem_singleton.mp hf]
        rfl

/-- **Every daemon runs registered, and under one uuid**, in every state of a run exactly where each start comes after
a boot that made the file, wrote it whole and was answered; for boots of any number, cut off anywhere. -/
theorem registered_iff (system : Bool) (acts : List BootAct) :
    Always step Registered (init system) acts ↔ Along step Fits (init system) acts := by
  apply always_iff_along Recorded _ _ (recorded_init system) (registered_init system) acts
  · intro s a s' hs hr h
    refine ⟨recorded_step hs hr (step_sound h), ?_⟩
    by_cases ha : a = .start true
    · subst ha
      have hfits : Fits s (.start true) ↔
          ∃ o, s.origin = some o ∧ 36 ≤ o.bytes ∧ (o.answered = true ∨ o.uuid ∈ o.earlier) := by
        constructor
        · intro hf
          exact hf rfl (by rw [h]; rfl)
        · exact fun ho _ _ => ho
      rw [hfits, ← registered_start hs hr]
      have hstep := step_sound h
      generalize hact : BootAct.start true = a at hstep
      cases hstep with
      | turn _ hne => exact absurd hact.symm hne
      | started hp => exact Iff.rfl
      | _ => cases hact
    · exact iff_of_true (registered_kept hs hr (step_sound h) ha) fun he => absurd he ha
  · intro s a hnone _ hsome
    rw [hnone] at hsome
    cases hsome

def sampleUuid : List Char := "0b0e41bc-5c4c-4d0c-9a5e-7f2f3c1d2e4a".toList

/-- A boot that finds no file, with the answer of the server. -/
def firstBoot (performed : Bool) : List BootAct :=
  [.boot, .makeDirectory true, .scan, .generate sampleUuid, .openFile true, .write 36, .send true performed]

/-- A boot that finds the file. -/
def laterBoot : List BootAct := [.cut, .boot, .makeDirectory true, .scan, .read true, .start true]

/-- **A report that fails.** The first boot leaves the file and returns 3; the second one finds it and starts the daemon,
with a uuid that was never reported. -/
theorem unregistered_boot : ¬ Always step Registered (init false) (firstBoot false ++ laterBoot) := by
  intro h
  have hrun : (run step (init false) (firstBoot false ++ laterBoot)).map (fun s => (s.starts, s.reported)) =
      some ([some sampleUuid], []) := by decide +kernel
  rw [Option.map_eq_some_iff] at hrun
  obtain ⟨s, hs, he⟩ := hrun
  obtain ⟨hstarts, hreported⟩ := Prod.mk.inj he
  obtain ⟨c, -, -, hmem⟩ := (h _ (List.prefix_refl _) s hs).reported (by rw [hstarts]; exact List.cons_ne_nil _ _)
  rw [hreported] at hmem
  cases hmem

end Device

end RpiCam.Http
