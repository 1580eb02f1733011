import Mathlib.Data.Nat.Factorization.Basic
import Mathlib.Data.Nat.Periodic
import RpiCam.VideoQueue.Delivery

/-!
# The numbers of the frames

`_current_frame_no` counts the passes from `1` to the rate of the device, over and over.

* `advance`, `frameNo` : the next number, and the number of pass `k`;
* `numbered` : in every run the passes have the numbers `frameNo F 0, frameNo F 1, ...`;
* `card_window` : among as many passes in a row as the device makes in a second, the divisor `d` divides `F / d`
  numbers;
* `selected_window`, `selected_le` : so a consumer gets `F / d` frames of every second.
-/

namespace RpiCam

open Transition

/-- Lines 210 to 212. -/
def advance (F n : Int) : Int := if n + 1 > F then 1 else n + 1

/-- The number of pass `k`, the first of which is `0`. -/
def frameNo (F k : Nat) : Int := (k % F : Nat) + 1

/-- `_current_frame_no` when `k` passes have begun. -/
def lastNo (F : Nat) : Nat → Int
  | 0 => 0
  | k + 1 => frameNo F k

theorem frameNo_range {F : Nat} (hF : 0 < F) (k : Nat) : 1 ≤ frameNo F k ∧ frameNo F k ≤ F := by
  have := Nat.mod_lt k hF
  unfold frameNo
  omega

theorem advance_frameNo {F : Nat} (hF : 0 < F) (k : Nat) : advance F (frameNo F k) = frameNo F (k + 1) := by
  have hlt := Nat.mod_lt k hF
  have hnext : (k + 1) % F = (k % F + 1) % F := (Nat.mod_add_mod k F 1).symm
  unfold advance frameNo
  by_cases hk : k % F + 1 = F
  · rw [hnext, hk, Nat.mod_self, if_pos (by omega)]
    rfl
  · have hle : k % F + 1 < F := by omega
    rw [hnext, Nat.mod_eq_of_lt hle, if_neg (by omega)]
    rfl

theorem advance_lastNo {F : Nat} (hF : 0 < F) (k : Nat) : advance F (lastNo F k) = frameNo F k := by
  cases k with
  | zero =>
    rw [lastNo, advance, if_neg (by omega), frameNo, Nat.zero_mod]
    rfl
  | succ k => exact advance_frameNo hF k

theorem frameNo_periodic (F : Nat) : Function.Periodic (frameNo F) F := fun k => by
  unfold frameNo
  rw [Nat.add_mod_right]

/-- Among `F` passes in a row, `d` divides the numbers of `F / d`. -/
theorem card_window (F a d : Nat) :
    ((List.range' a F).filter fun k => decide ((d : Int) ∣ frameNo F k)).length = F / d := by
  have hper : Function.Periodic (fun k => (d : Int) ∣ frameNo F k) F := fun k => by
    dsimp only
    rw [frameNo_periodic F k]
  have hcard := Nat.filter_multiset_Ico_card_eq_of_periodic a F _ hper
  have hone : ∀ k ∈ Finset.range F, ((d : Int) ∣ frameNo F k ↔ d ∣ k + 1) := fun k hk => by
    unfold frameNo
    rw [Nat.mod_eq_of_lt (Finset.mem_range.mp hk)]
    exact_mod_cast Int.natCast_dvd_natCast
  calc ((List.range' a F).filter fun k => decide ((d : Int) ∣ frameNo F k)).length
      = Nat.count (fun k => (d : Int) ∣ frameNo F k) F := by
        have hico : Multiset.Ico a (a + F) = (List.range' a F : Multiset Nat) := by
          show (Finset.Ico a (a + F)).val = _
          rw [Nat.Ico_eq_range', Nat.add_sub_cancel_left]
        rw [← hcard, hico, Multiset.filter_coe, Multiset.coe_card]
    _ = (Finset.filter (fun k => d ∣ k + 1) (Finset.range F)).card := by
        rw [Nat.count_eq_card_filter_range, Finset.filter_congr hone]
    _ = F / d := Nat.card_multiples F d

/-! ## The numbers of a run -/

namespace State

/-- The passes so far, and the one a distributor has taken a frame for. -/
def begun (s : State) : Nat := (passesOf s.log).length + s.taken.length

/-- The number of the last pass that began, of the passes before it, and the rate of the device. -/
structure Numbered (F : Nat) (s : State) : Prop where
  deviceFps : s.data.deviceFps = F
  current : s.data.currentFrameNo = lastNo F s.begun
  passes : (passesOf s.log).map Prod.snd = (List.range (passesOf s.log).length).map (frameNo F)

theorem numbered_same {F : Nat} {s s' : State} {i : Tid} {a : Act} (hl : Locked s) (h : Step s i a (s.pc i) s')
    (hs : Numbered F s) (hi : (s.pc i).taken = []) (hi' : (s'.pc i).taken = [])
    (hno : s'.data.currentFrameNo = s.data.currentFrameNo) (hpass : passesOf s'.log = passesOf s.log) :
    Numbered F s' where
  deviceFps := h.deviceFps.trans hs.deviceFps
  current := by
    unfold begun
    rw [hno, hpass, h.taken_same hl hi hi']
    exact hs.current
  passes := by
    rw [hpass]
    exact hs.passes

theorem step_numbered {F : Nat} (hF : 0 < F) {s s' : State} {i : Tid} {a : Act} (hl : Locked s) (hs : Numbered F s)
    (h : Step s i a (s.pc i) s') : Numbered F s' := by
  have h0 := h
  have hl' := step_locked hl h
  generalize hpc : s.pc i = p at h
  cases h
  case move p' hm =>
    exact numbered_same hl h0 hs (by rw [hpc]; exact hm.taken.1) (by simpa using hm.taken.2) rfl rfl
  case lockInput p' hfree hm =>
    exact numbered_same hl h0 hs (by cases hm <;> simp [hpc, Pc.taken]) (by cases hm <;> simp [Pc.taken]) rfl rfl
  case lockThreadInfo p' hfree hm =>
    exact numbered_same hl h0 hs (by cases hm <;> simp [hpc, Pc.taken]) (by cases hm <;> simp [Pc.taken]) rfl rfl
  case lockInfo p' t hfree hm =>
    exact numbered_same hl h0 hs (by cases hm <;> simp [hpc, Pc.taken]) (by cases hm <;> simp [Pc.taken]) rfl rfl
  case fail f hm => exact ⟨hs.deviceFps, hs.current, hs.passes⟩
  case distTake b t v hi =>
    obtain ⟨hin, hv⟩ := VideoQueue.takeInput_eq hi
    have h1 : s.taken = [] := by rw [taken_of_holder hl (i := i) (by rw [hpc]; rfl), hpc]; rfl
    have h2 : ((s.setData v).goto i (.distIterate b t)).taken = [b] := by
      rw [taken_of_holder hl' (i := i) (by simp [Pc.holdsInput])]
      simp [Pc.taken]
    have hcur := hs.current
    unfold begun at hcur
    rw [h1, List.length_nil, Nat.add_zero] at hcur
    refine ⟨h0.deviceFps.trans hs.deviceFps, ?_, hs.passes⟩
    unfold begun
    rw [h2]
    have hno : v.currentFrameNo = advance F s.data.currentFrameNo := by
      rw [hv, ← hs.deviceFps]
      rfl
    simp only [goto_data, setData_data, goto_log, setData_log, List.length_singleton]
    rw [hno, hcur]
    exact advance_lastNo hF _
  case distIterate b t order hfree ho =>
    have h1 : s.taken = [b] := by rw [taken_of_holder hl (i := i) (by rw [hpc]; rfl), hpc]; rfl
    have h2 : (((s.setThreadInfo (some i)).note (.passed b s.data.currentFrameNo)).goto i
        (.distVisit b t none order)).taken = [] := by
      rw [taken_of_holder hl' (i := i) (by simp [Pc.holdsInput])]
      simp [Pc.taken]
    have hcur := hs.current
    unfold begun at hcur
    rw [h1, List.length_singleton] at hcur
    have hpass : passesOf (((s.setThreadInfo (some i)).note (.passed b s.data.currentFrameNo)).goto i
        (.distVisit b t none order)).log = passesOf s.log ++ [(b, s.data.currentFrameNo)] := by
      simp [passesOf]
    refine ⟨hs.deviceFps, ?_, ?_⟩
    · unfold begun
      rw [h2, hpass, List.length_append]
      exact hcur
    · rw [hpass, List.map_append, hs.passes, List.length_append, List.length_singleton, List.range_succ,
        List.map_append, List.map_singleton, List.map_singleton, hcur]
      rfl
  case distCopy b t name info rest v hl' hc =>
    exact numbered_same hl h0 hs (by simp [hpc, Pc.taken]) (by simp [Pc.taken])
      (VideoQueue.copyTo_extends hc).currentFrameNo rfl
  all_goals
    exact numbered_same hl h0 hs (by rw [hpc]; rfl) (by simp [Pc.taken]) rfl (by simp [passesOf])

/-- **The passes are numbered from `1` to the rate of the device, over and over.** -/
theorem numbered {F : Nat} (hF : 0 < F) {ok : State → Tid × Act → Prop} {s : State} (h : Reach (· = init F) step ok s) :
    Numbered F s := by
  refine Reach.invariant_of (Numbered F) (fun s hr => (reach_coherent hr).1) ?_
    (fun s a s' hk hs _ hst => step_numbered hF hk hs (step_sound hst)) h
  rintro s rfl
  exact ⟨rfl, rfl, rfl⟩

/-- The passes of a part of the log are numbered on from those before it. -/
theorem Numbered.window {F : Nat} {s : State} (hs : Numbered F s) {before w after : List Event}
    (hlog : s.log = before ++ w ++ after) :
    (passesOf w).map Prod.snd = (List.range' (passesOf before).length (passesOf w).length).map (frameNo F) := by
  have hsplit : passesOf s.log = passesOf before ++ passesOf w ++ passesOf after := by
    rw [hlog]
    simp [passesOf]
  have hp := hs.passes
  rw [hsplit, List.length_append, List.length_append, List.range_eq_range', ← List.range'_append_1,
    ← List.range'_append_1, Nat.zero_add, List.map_append, List.map_append, List.map_append, List.map_append] at hp
  have hhead := (List.append_inj hp (by simp)).1
  exact (List.append_inj hhead (by simp)).2

theorem selected_length {F : Nat} {s : State} (hs : Numbered F s) {before w after : List Event} (d : Nat)
    (hlog : s.log = before ++ w ++ after) : (selected d w).length =
      ((List.range' (passesOf before).length (passesOf w).length).filter fun k =>
        decide ((d : Int) ∣ frameNo F k)).length := by
  calc (selected d w).length
      = (((passesOf w).map Prod.snd).filter fun n => decide ((d : Int) ∣ n)).length := by
        rw [List.filter_map, List.length_map, selected, List.length_map]
        rfl
    _ = _ := by
        rw [hs.window hlog, List.filter_map, List.length_map]
        rfl

/-- **A consumer with the divisor `d` gets `F / d` frames of every second.** -/
theorem selected_window {F : Nat} {s : State} (hs : Numbered F s) {before w after : List Event} (d : Nat)
    (hlog : s.log = before ++ w ++ after) (hw : (passesOf w).length = F) : (selected d w).length = F / d := by
  rw [selected_length hs d hlog, hw]
  exact card_window F _ d

theorem selected_le {F : Nat} {s : State} (hs : Numbered F s) {before w after : List Event} (d : Nat)
    (hlog : s.log = before ++ w ++ after) (hw : (passesOf w).length ≤ F) : (selected d w).length ≤ F / d := by
  have hsub : List.Sublist (List.range' (passesOf before).length (passesOf w).length)
      (List.range' (passesOf before).length F) := List.range'_sublist_right.mpr hw
  calc (selected d w).length
      = ((List.range' (passesOf before).length (passesOf w).length).filter fun k =>
          decide ((d : Int) ∣ frameNo F k)).length := selected_length hs d hlog
    _ ≤ ((List.range' (passesOf before).length F).filter fun k => decide ((d : Int) ∣ frameNo F k)).length :=
        (hsub.filter _).length_le
    _ = F / d := card_window F _ d

theorem exists_passes {post : List Event} {k : Nat} (h : k ≤ (passesOf post).length) :
    ∃ w after, post = w ++ after ∧ (passesOf w).length = k := by
  induction post generalizing k with
  | nil => exact ⟨[], [], rfl, (Nat.le_zero.mp h).symm⟩
  | cons e post ih =>
    cases k with
    | zero => exact ⟨[], e :: post, rfl, rfl⟩
    | succ k =>
      cases e with
      | passed b n =>
        obtain ⟨w, after, rfl, hw⟩ := ih (Nat.le_of_succ_le_succ h)
        exact ⟨.passed b n :: w, after, rfl, by rw [← hw]; rfl⟩
      | _ =>
        obtain ⟨w, after, rfl, hw⟩ := ih h
        exact ⟨_ :: w, after, rfl, by rw [← hw]; rfl⟩

end State

end RpiCam
