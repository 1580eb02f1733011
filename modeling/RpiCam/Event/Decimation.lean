import RpiCam.Event.Processor
import RpiCam.VideoQueue.Maps

/-!
# Frame decimation

`insert_event` replaces the requested frame rate by `_device_fps / _fps`, and a pass takes the frames whose number is
divisible by that. The divisor is zero when the request is zero, and the quotient when the request is above the rate of
the device.

* `tdiv_ne_zero_iff` : for a request that is not zero, the quotient is zero exactly above the device rate;
* `RequestFits` : a registration asks for a rate other than zero that the device has;
* `no_zero_divisor` : in runs of such registrations nothing divides by zero;
* `zero_request`, `fast_request` : an event directory with a file `0`, and the live stream on a camera of 15 fps.
-/

namespace RpiCam

open Transition

/-- The frame rate the `live` and the `sdp` stream ask for. -/
def streamFps : Int := 30

/-- The truncated quotient of a request by the device rate vanishes exactly above the device rate. -/
theorem tdiv_ne_zero_iff {F f : Int} (hF : 1 ≤ F) (hf : f ≠ 0) : F.tdiv f ≠ 0 ↔ f.natAbs ≤ F.natAbs := by
  have hq : (F.tdiv f).natAbs = F.natAbs / f.natAbs := Int.natAbs_tdiv F f
  rw [← Int.natAbs_ne_zero, hq, Nat.div_ne_zero_iff]
  constructor
  · exact fun h => h.2
  · exact fun h => ⟨by omega, h⟩

theorem positive_fits_iff {F n : Int} {filename : Name} (hF : 1 ≤ F) (hp : isPositive filename = true)
    (hn : stoi filename = .ok n) : (n ≠ 0 ∧ n.natAbs ≤ F.natAbs) ↔ 1 ≤ n ∧ n ≤ F := by
  obtain ⟨m, hm, h0⟩ := (isPositive_iff filename).mp hp
  rw [hn, Except.ok.injEq] at hm
  omega

namespace State

/-- A registration of a free name asks for a rate that is not zero and not above that of the device. -/
def RequestFits (s : State) : Tid × Act → Prop
  | (i, _) => ∀ name info, s.pc i = .insertInfo name info → AList.lookup name s.data.threadInfo = none →
    (s.data.infos info).fps ≠ 0 ∧ (s.data.infos info).fps.natAbs ≤ s.data.deviceFps.natAbs

/-- The divisors of the registered events. -/
def DivisorsNonzero (s : State) : Prop :=
  ∀ name t, AList.lookup name s.data.threadInfo = some t → (s.data.infos t).fps ≠ 0

theorem step_divisorsNonzero {s s' : State} {i : Tid} {a : Act} (hF : 1 ≤ s.data.deviceFps) (hc : Coherent s)
    (hs : DivisorsNonzero s) (hok : RequestFits s (i, a)) (h : Step s i a (s.pc i) s') : DivisorsNonzero s' := by
  intro name t hk
  -- whatever is registered with `t`, a step leaves the divisor of `t` nonzero
  have hkeep : ∀ k, AList.lookup k s.data.threadInfo = some t → (s'.data.infos t).fps ≠ 0 := by
    intro k hk'
    rcases h.infos_cases (hc.infoFresh k t hk') with he | ⟨n, hpc, hn, he⟩ | ⟨n, -, -, he⟩
    · rw [he]
      exact hs k t hk'
    · rw [he]
      exact (tdiv_ne_zero_iff hF (hok n t hpc hn).1).mpr (hok n t hpc hn).2
    · rw [he]
      exact hs k t hk'
  rcases h.threadInfo_cases with ht | ⟨n, info, hpc, -, hn, hd⟩ | ⟨n, -, -, hd⟩
  · exact hkeep name (ht ▸ hk)
  · rw [hd] at hk
    simp only [VideoQueue.enterInfo, UnorderedMap.lookup_emplace] at hk
    split_ifs at hk with hkn
    · rw [Option.some.injEq] at hk
      subst hk
      rw [hd]
      simp only [VideoQueue.enterInfo, Function.update_self]
      exact (tdiv_ne_zero_iff hF (hok n info hpc hn).1).mpr (hok n info hpc hn).2
    · exact hkeep name hk
  · rw [hd] at hk
    simp only [VideoQueue.eraseThreadInfo, UnorderedMap.lookup_erase'] at hk
    split_ifs at hk
    exact hkeep name hk

theorem step_noZeroDivisor {s s' : State} {i : Tid} {a : Act} (hs : DivisorsNonzero s)
    (hf : s.fault ≠ some .zeroDivisor) (hok : RequestFits s (i, a)) (h : Step s i a (s.pc i) s') :
    s'.fault ≠ some .zeroDivisor := by
  generalize hpc : s.pc i = p at h
  cases h
  case fail f hm =>
    simp only [fail_fault, ne_eq, Option.some.injEq]
    rintro rfl
    cases hm
    case insertZero name info hl hz => exact (hok name info hpc hl).1 hz
    case dueZero b t name info rest hl hz => exact hs name info hl hz
  all_goals exact hf

/-- **No zero divisor.** For every device rate `F ≥ 1`, in every run whose registrations fit, no division and no modulus
by zero is evaluated. -/
theorem no_zero_divisor {F : Int} (hF : 1 ≤ F) {s : State} (h : Reach (· = init F) step RequestFits s) :
    s.fault ≠ some .zeroDivisor ∧ DivisorsNonzero s := by
  have hs : s.data.deviceFps = F ∧ DivisorsNonzero s ∧ s.fault ≠ some .zeroDivisor := by
    refine Reach.invariant_of (fun s => s.data.deviceFps = F ∧ DivisorsNonzero s ∧ s.fault ≠ some .zeroDivisor)
      (fun s hr => reach_coherent hr) ?_ (fun s a s' hk hs hok hst => ?_) h
    · rintro s rfl
      exact ⟨rfl, fun name t hk => by simp [init, VideoQueue.new] at hk, by simp [init]⟩
    · obtain ⟨hdev, hdiv, hf⟩ := hs
      have hst' := step_sound hst
      exact ⟨hst'.deviceFps.trans hdev, step_divisorsNonzero (hdev ▸ hF) hk.2 hdiv hok hst',
        step_noZeroDivisor hdiv hf hok hst'⟩
  exact ⟨hs.2.2, hs.2.1⟩

/-- A thread registers an event, another pushes a frame, and thread `0` takes it to its iteration. -/
def registerAndPass (name : Name) (fps : Int) : List (Tid × Act) :=
  [(6, .call (.insert name fps true)), (6, .run), (6, .run), (6, .run), (8, .call (.push sampleFrame)), (8, .run),
    (8, .notify none), (0, .run), (0, .run), (0, .clock 5), (0, .iterate [(name, 0)])]

def fits (s : State) : Tid × Act → Bool
  | (i, _) => match s.pc i with
    | .insertInfo _ info =>
      decide ((s.data.infos info).fps ≠ 0 ∧ (s.data.infos info).fps.natAbs ≤ s.data.deviceFps.natAbs)
    | _ => true

theorem requestFits_of_fits (s : State) (ia : Tid × Act) (h : fits s ia = true) : RequestFits s ia := by
  intro name info hpc _
  simpa [fits, hpc] using h

theorem no_zero_divisor_live : ∃ s,
    run (checked fits step) (init 60) (registerAndPass "live".toList streamFps) = some s ∧
    (s.data.infos 0).fps = 2 ∧ s.fault ≠ some .zeroDivisor :=
  ⟨_, rfl, rfl, (no_zero_divisor (by decide) (.of_checked fits requestFits_of_fits (.init rfl)
    (rfl : run (checked fits step) (init 60) (registerAndPass "live".toList streamFps) = some _))).1⟩

end State

/-- The tree after an upload of the program `x` for `cam` with the frame rate `0`, which `is_positive` accepts. -/
def zeroRateTree : FileSystem :=
  ((((FileSystem.bare.put ["event".toList] .dir).put ["event".toList, "cam".toList] .dir).put
    ["event".toList, "cam".toList, "cam".toList] (.file ['x'])).put
    ["event".toList, "cam".toList, ['0']] (.file [])).put ["event".toList, "cam".toList, "enable".toList] (.file ['1'])

/-- **A frame rate of zero.** The event loop of the uploaded program divides by zero when it registers. -/
theorem zero_request :
    (EventProcessor.new (fun _ => true) (fun _ => true) zeroRateTree [] "cam".toList
      ["cam".toList, ['0'], "enable".toList]).request =
      some (.insert "cam".toList 0 true) ∧
    ∃ s, Reach (· = State.init 60) State.step (fun _ _ => True) s ∧ s.fault = some .zeroDivisor := by
  refine ⟨by decide, _, .of_run (.init rfl)
    (rfl : run State.step (State.init 60) [(6, .call (.insert "cam".toList 0 true)), (6, .run), (6, .run)] = some _),
    rfl⟩

/-- **A frame rate above the camera's.** On a camera of 15 fps the divisor of the live stream is zero, and the next pass
takes a modulus by it. -/
theorem fast_request : ∃ s, Reach (· = State.init 15) State.step (fun _ _ => True) s ∧ s.fault = some .zeroDivisor :=
  ⟨_, .of_run (.init rfl) (rfl : run State.step (State.init 15)
    (State.registerAndPass "live".toList streamFps ++ [(0, .run), (0, .run)]) = some _), rfl⟩

end RpiCam
