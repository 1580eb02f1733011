import RpiCam.Event.Decimation
import RpiCam.Lib.CInt
import RpiCam.VideoQueue.Numbers

/-!
# The clock of the live stream

`play_need_data` stamps the frames of `live` with `frame_duration * frame_cnt`. It takes 30 of them for a second, and
counts them in an `int`.

* `playNeedData`, `playStream` : one call, and all calls of a stream whose frames are pushed;
* `playStream_pts` : the stamps;
* `KeepsPace` : every second of capture moves the stamps on by 30 frame durations, and frame `n` has the stamp
  `n * frame_duration`;
* `liveRate_eq_iff` : the decimation leaves 30 of `F` frames exactly where `F % 30 < F / 30`;
* `live_clock` : when a stream keeps pace.
-/

namespace RpiCam

open Transition State

def liveName : Name := ['l', 'i', 'v', 'e']

def frameDuration : Nat := 1 * 10 ^ 9 / 30

/-- What `play_need_data` sets of a `GstBuffer`. -/
structure GstBuffer where
  data : List UInt8
  pts : Nat
  dts : Nat
  duration : Nat
  deriving DecidableEq

/-- How the calls of GStreamer go. -/
structure GstCalls where
  allocated : Bool
  mapped : Bool
  pushed : Bool

/-- Line 124. The `int` is converted to `guint64` before the product. -/
def timestamp (frameCnt : Int) : Nat := (frameDuration * frameCnt % 2 ^ 64).toNat

/-- Lines 107 to 127. `buffer_size` is a `guint`. -/
def stamped (frameCnt : Int) (b : BufferRef) : GstBuffer where
  data := b.val.buffer.take (b.val.size % 2 ^ 32)
  pts := timestamp frameCnt
  dts := timestamp frameCnt
  duration := frameDuration

/-- `play_need_data` on what `pop("live")` gave it: `frame_cnt` afterwards, and the buffer that was pushed. The bytes of
a copy are never null, so the test at line 101 fails. -/
def playNeedData (frameCnt : Int) (g : GstCalls) : Option BufferRef → Int × Option GstBuffer
  | none => (frameCnt, none)
  | some b =>
    if !g.allocated || !g.mapped || !g.pushed then (frameCnt, none)
    else (wrapInt (frameCnt + 1), some (stamped frameCnt b))

/-- The buffers of a stream all of whose frames are pushed. -/
def playStream (frameCnt : Int) : List BufferRef → List GstBuffer
  | [] => []
  | b :: bs =>
    let r := playNeedData frameCnt ⟨true, true, true⟩ (some b)
    r.2.toList ++ playStream r.1 bs

theorem playStream_cons (frameCnt : Int) (b : BufferRef) (bs : List BufferRef) :
    playStream frameCnt (b :: bs) = stamped frameCnt b :: playStream (wrapInt (frameCnt + 1)) bs := rfl

theorem playStream_getElem? (bs : List BufferRef) (k n : Nat) :
    (playStream (wrapInt k) bs)[n]? = bs[n]?.map (stamped (wrapInt (k + n : Nat))) := by
  induction bs generalizing k n with
  | nil => rfl
  | cons b bs ih =>
    rw [playStream_cons]
    cases n with
    | zero => rfl
    | succ n =>
      rw [List.getElem?_cons_succ, List.getElem?_cons_succ, wrapInt_add]
      have := ih (k + 1) n
      rw [Nat.cast_add_one] at this
      rw [this, Nat.add_right_comm, Nat.add_assoc]

theorem playStream_length (bs : List BufferRef) (c : Int) : (playStream c bs).length = bs.length := by
  induction bs generalizing c with
  | nil => rfl
  | cons b bs ih => rw [playStream_cons, List.length_cons, List.length_cons, ih]

/-! ## The stamps -/

theorem frameDuration_eq : frameDuration = 33333333 := by decide

theorem wrapInt_zero : wrapInt 0 = 0 := wrapInt_of_fits (by unfold FitsInt; omega)

/-- Up to `2 ^ 31` frames the count is exact. -/
theorem timestamp_of_lt {n : Nat} (h : n < 2 ^ 31) : timestamp (wrapInt n) = n * frameDuration := by
  have hfits : FitsInt n := by unfold FitsInt; omega
  have hmod : ((33333333 : Nat) : Int) * n % 2 ^ 64 = (n * 33333333 : Nat) := by omega
  rw [wrapInt_of_fits hfits, timestamp, frameDuration_eq, hmod, Int.toNat_natCast]

/-- Then it is negative, and the stamp is not that of the frame. -/
theorem timestamp_overflow : timestamp (wrapInt (2 ^ 31 : Nat)) ≠ 2 ^ 31 * frameDuration := by
  decide +kernel

theorem playStream_pts {bs : List BufferRef} {n : Nat} {g : GstBuffer} (h : (playStream 0 bs)[n]? = some g) :
    n < bs.length ∧ g.pts = timestamp (wrapInt n) := by
  have hn := playStream_getElem? bs 0 n
  rw [Nat.cast_zero, wrapInt_zero, h, Nat.zero_add] at hn
  cases hb : bs[n]? with
  | none => rw [hb] at hn; cases hn
  | some b =>
    rw [hb, Option.map_some, Option.some.injEq] at hn
    rw [hn]
    exact ⟨(List.getElem?_eq_some_iff.mp hb).1, by simp only [stamped]⟩

theorem exists_buffer {bs : List BufferRef} {n : Nat} (h : n < bs.length) :
    ∃ g, (playStream 0 bs)[n]? = some g ∧ g.pts = timestamp (wrapInt n) := by
  rw [← playStream_length bs 0] at h
  exact ⟨_, List.getElem?_eq_getElem h, (playStream_pts (List.getElem?_eq_getElem h)).2⟩

/-! ## Seconds -/

/-- The decimation for 30 frames a second leaves 30 of `F`. -/
theorem liveRate_eq_iff {F : Nat} (hF : 30 ≤ F) : F / (F / 30) = 30 ↔ F % 30 < F / 30 := by
  have hpos : 0 < F / 30 := by omega
  have hsplit := Nat.div_add_mod F 30
  rw [Nat.div_eq_iff hpos]
  constructor
  · intro h
    omega
  · intro h
    omega

/-- A stream keeps pace with the capture whose log since the registration is `post`: the frames that follow a second and
its start are 30 frame durations apart, and the stamps count the frames. -/
structure KeepsPace (F : Nat) (post : List Event) (buffers : List GstBuffer) : Prop where
  second : ∀ before w after g g', post = before ++ w ++ after → (passesOf w).length = F →
    buffers[(selected (F / 30 : Nat) before).length]? = some g →
    buffers[(selected (F / 30 : Nat) (before ++ w)).length]? = some g' → g'.pts = g.pts + 30 * frameDuration
  pts : ∀ n g, buffers[n]? = some g → g.pts = n * frameDuration
  increases : ∀ n g g', buffers[n]? = some g → buffers[n + 1]? = some g' → g.pts < g'.pts

section

variable {F : Nat} {s : State} {t : InfoId} {post : List Event}

theorem popped_le_selected (hF : 30 ≤ F) (h : Reach (· = init F) step (Delivers liveName) s)
    (hr : FirstRegistered liveName t streamFps post s.log) :
    (poppedOf liveName s.log).length ≤ (selected (F / 30 : Nat) post).length := by
  have hexact := congrArg List.length (delivered_eq (by omega) h hr)
  simp only [List.length_map, List.length_append] at hexact
  have hd : ((F / 30 : Nat) : Int) = (F : Int) / streamFps := Int.natCast_ediv F 30
  rw [hd, ← hexact]
  omega

theorem KeepsPace.rate (hF : 30 ≤ F) (h : Reach (· = init F) step (Delivers liveName) s)
    (hr : FirstRegistered liveName t streamFps post s.log)
    (hk : KeepsPace F post (playStream 0 (poppedOf liveName s.log)))
    (hlong : F / (F / 30) < (poppedOf liveName s.log).length) : F % 30 < F / 30 := by
  have hnum := numbered (F := F) (by omega) h
  have hle := popped_le_selected hF h hr
  obtain ⟨pre, hlog, -⟩ := hr
  have hlog' : s.log = (pre ++ [.registered liveName t streamFps true]) ++ post ++ [] := by rw [hlog]; simp
  -- more frames than a second has come from more passes than a second has
  have hpasses : F ≤ (passesOf post).length := by
    by_contra hlt
    have := selected_le hnum (F / 30) hlog' (by omega)
    omega
  obtain ⟨w, after, hpost, hw⟩ := exists_passes hpasses
  have hsel : (selected (F / 30 : Nat) w).length = F / (F / 30) :=
    selected_window hnum (F / 30) (show s.log = (pre ++ [.registered liveName t streamFps true]) ++ w ++ after by
      rw [hlog', hpost]; simp) hw
  obtain ⟨g, hg, -⟩ := exists_buffer (show 0 < (poppedOf liveName s.log).length by omega)
  obtain ⟨g', hg', -⟩ := exists_buffer hlong
  have hsecond := hk.second [] w after g g' hpost hw hg (by rw [List.nil_append, hsel]; exact hg')
  rw [hk.pts _ g hg, hk.pts _ g' hg', Nat.zero_mul, Nat.zero_add] at hsecond
  exact (liveRate_eq_iff hF).mp (Nat.eq_of_mul_eq_mul_right (by rw [frameDuration_eq]; decide) hsecond)

/-- **When the live stream keeps pace.** On a camera of `F ≥ 30` frames a second, a stream all of whose delivered frames
are popped and pushed keeps pace exactly where the decimation leaves 30 frames of a second, or the stream is no longer
than that, and the count of frames stays within `int`. -/
theorem live_clock (hF : 30 ≤ F) (h : Reach (· = init F) step (Delivers liveName) s)
    (hr : FirstRegistered liveName t streamFps post s.log) :
    KeepsPace F post (playStream 0 (poppedOf liveName s.log)) ↔
      ((poppedOf liveName s.log).length ≤ F / (F / 30) ∨ F % 30 < F / 30) ∧
        (poppedOf liveName s.log).length ≤ 2 ^ 31 := by
  constructor
  · intro hk
    constructor
    · by_cases hlong : F / (F / 30) < (poppedOf liveName s.log).length
      · exact Or.inr (hk.rate hF h hr hlong)
      · exact Or.inl (Nat.le_of_not_lt hlong)
    · by_contra hlong
      obtain ⟨g, hg, hpts⟩ := exists_buffer (Nat.lt_of_not_le hlong)
      exact timestamp_overflow (hpts.symm.trans (hk.pts _ g hg))
  · rintro ⟨hrate, hcount⟩
    have hpts : ∀ n g, (playStream 0 (poppedOf liveName s.log))[n]? = some g → g.pts = n * frameDuration := by
      intro n g hg
      obtain ⟨hn, hp⟩ := playStream_pts hg
      exact hp.trans (timestamp_of_lt (Nat.lt_of_lt_of_le hn hcount))
    refine ⟨fun before w after g g' hpost hw hg hg' => ?_, hpts, fun n g g' hg hg' => ?_⟩
    · have hnum := numbered (F := F) (by omega) h
      obtain ⟨pre, hlog, -⟩ := hr
      have hsel : (selected (F / 30 : Nat) w).length = F / (F / 30) := by
        have hsplit : s.log = (pre ++ .registered liveName t streamFps true :: before) ++ w ++ after := by
          rw [hlog, hpost]
          simp
        exact selected_window hnum (F / 30) hsplit hw
      have hg'' := hpts _ g' hg'
      have hlt := (playStream_pts hg').1
      rw [selected_append, List.length_append, hsel] at hg'' hlt
      have h30 : F / (F / 30) = 30 := by
        rcases hrate with hshort | hrate
        · omega
        · exact (liveRate_eq_iff hF).mpr hrate
      rw [hg'', hpts _ g hg, h30, Nat.add_mul]
    · rw [hpts _ g hg, hpts _ g' hg', Nat.add_mul]
      have hpos : 0 < frameDuration := by rw [frameDuration_eq]; decide
      omega

end

/-! ## Streams -/

def liveRound : List (Tid × Act) :=
  [(8, .call (.push sampleFrame)), (8, .run), (8, .notify none), (0, .run), (0, .run), (0, .clock 0),
    (0, .iterate [(liveName, 0)]), (0, .run), (0, .run), (0, .run), (0, .run), (0, .run), (0, .run),
    (7, .call (.pop liveName)), (7, .run), (7, .run), (7, .run), (7, .run), (7, .run), (7, .run), (7, .run), (7, .run),
    (7, .run), (7, .run), (7, .run)]

/-- The stream registers, and `n` frames go through. -/
def liveRun (n : Nat) : List (Tid × Act) :=
  [(6, .call (.insert liveName streamFps true)), (6, .run), (6, .run), (6, .run)] ++
    (List.replicate n liveRound).flatten

/-- What the checks below need of the log of a run. -/
def liveLog (F : Int) (n : Nat) : Option (List Event × Nat) :=
  (run (checked (consumes 7 liveName) step) (init F) (liveRun n)).map fun s =>
    (s.log.take 1, (poppedOf liveName s.log).length)

theorem liveRun_reach {F : Int} {n k : Nat} {e : Event} (h : liveLog F n = some ([e], k)) :
    ∃ s, Reach (· = init F) step (Delivers liveName) s ∧ s.log = e :: s.log.drop 1 ∧
      (poppedOf liveName s.log).length = k := by
  simp only [liveLog, Option.map_eq_some_iff, Prod.mk.injEq] at h
  obtain ⟨s, hrun, hhead, hk⟩ := h
  refine ⟨s, (reach_consumes (.of_checked _ (consumes_sound 7 liveName) (.init rfl) hrun)).1, ?_, hk⟩
  rw [← List.singleton_append, ← hhead, List.take_append_drop]

theorem live_clock_seconds : ∃ s, Reach (· = init (30 : Nat)) step (Delivers liveName) s ∧
    (poppedOf liveName s.log).length = 32 ∧
    KeepsPace 30 (s.log.drop 1) (playStream 0 (poppedOf liveName s.log)) := by
  obtain ⟨s, hs, hlog, hk⟩ := liveRun_reach (F := (30 : Nat)) (n := 32)
    (e := .registered liveName 0 streamFps true) (k := 32) (by decide +kernel)
  exact ⟨s, hs, hk, (live_clock (by decide) hs ⟨[], hlog, by simp⟩).mpr ⟨Or.inr (by decide), by omega⟩⟩

/-- **A camera of 31 frames a second.** The decimation leaves all 31, and each second of capture makes the stamps run
ahead by one frame duration. -/
theorem live_ahead : ∃ s t post, Reach (· = init (31 : Nat)) step (Delivers liveName) s ∧
    FirstRegistered liveName t streamFps post s.log ∧
    ¬ KeepsPace 31 post (playStream 0 (poppedOf liveName s.log)) := by
  obtain ⟨s, hs, hlog, hk⟩ := liveRun_reach (F := (31 : Nat)) (n := 32)
    (e := .registered liveName 0 streamFps true) (k := 32) (by decide +kernel)
  have hr : FirstRegistered liveName 0 streamFps (s.log.drop 1) s.log := ⟨[], hlog, by simp⟩
  refine ⟨s, 0, s.log.drop 1, hs, hr, fun hpace => ?_⟩
  have := hpace.rate (by decide) hs hr (by omega)
  omega

end RpiCam
