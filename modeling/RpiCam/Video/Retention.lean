import RpiCam.Video.Handler

/-!
# Retention and selection

`remove_video` looks at the start of a segment and `process_video` at all of its seconds.

* `Needed` : an event at a time selects the segment, or one of its seconds is in the range of the event;
* `VideoConfig.Retains` : a `remove_video` at a time deletes nothing that an event then needs;
* `overlaps_covers` : `process_video` selects by the seconds;
* `timeName` : a name for each time;
* `retains_iff` : where the settings keep what is needed.
-/

namespace RpiCam.Video

/-- One of the seconds of the segment that starts at `n` is at most the duration away from `t`. -/
def Covers (c : VideoConfig) (t n : Int) : Prop :=
  ∃ s, n ≤ s ∧ s < n + c.splitTime ∧ t - c.duration ≤ s ∧ s ≤ t + c.duration

/-- An event at `t` needs the segment `name`. -/
def Needed (c : VideoConfig) (t : Int) (dir : List Visit) (name : FileName) : Prop :=
  (∃ fs, selected c t dir = .ok fs ∧ name ∈ fs) ∨ ∃ n, stoi name = .ok n ∧ Covers c t n

/-- A `remove_video` at `t` deletes nothing that an event at `t` needs. -/
def VideoConfig.Retains (c : VideoConfig) (t : Int) : Prop :=
  ∀ dir refused name, Needed c t dir name →
    filePath c.vidPath name ∉ (removed t c.maintainSec c.vidPath dir refused).1

theorem filePath_injective {path : List Char} {a b : FileName} (h : filePath path a = filePath path b) : a = b := by
  unfold filePath at h
  exact List.tail_eq_of_cons_eq (List.append_cancel_left h)

theorem fits_of_stoi {s : List Char} {n : Int} (h : stoi s = .ok n) : FitsInt n := by
  simp only [stoi] at h
  unfold FitsInt
  split_ifs at h <;> · cases h; omega

/-- With an exact `split_time`, what is selected has a second in the range. The sums that overflow only lose
segments. -/
theorem overlaps_covers {c : VideoConfig} {t n : Int} (hS : FitsInt (c.splitTime * 10 ^ 9)) (h1 : 1 ≤ c.splitTime)
    (hD : 0 ≤ c.duration) (ht : FitsInt t) (hn : FitsInt n) (h : overlaps c t n) : Covers c t n := by
  have hsplit : c.splitTimeNs.tdiv 1000000000 = c.splitTime := by
    rw [VideoConfig.splitTimeNs, wrapInt_of_fits hS]
    exact Int.mul_tdiv_cancel _ (by decide)
  simp only [overlaps, hsplit, Bool.and_eq_true, decide_eq_true_eq] at h
  have hfits := c.fits.2.1
  have hstart := wrapInt_fits (t - c.duration)
  have hend := wrapInt_fits (t + c.duration)
  have hfile := wrapInt_fits (n + c.splitTime - 1)
  obtain ⟨i, hi⟩ := exists_wrapInt (t - c.duration)
  obtain ⟨j, hj⟩ := exists_wrapInt (t + c.duration)
  obtain ⟨k, hk⟩ := exists_wrapInt (n + c.splitTime - 1)
  unfold FitsInt at *
  have hlast : t - c.duration ≤ n + c.splitTime - 1 := by omega
  have hfirst : n ≤ t + c.duration := by omega
  exact ⟨max n (t - c.duration), by omega, by omega, by omega, by omega⟩

/-- What an event needs, and the directory has, starts at most the duration and a segment before it. -/
theorem start_of_needed {c : VideoConfig} {t : Int} {dir : List Visit} {name : FileName}
    (hS : FitsInt (c.splitTime * 10 ^ 9)) (h1 : 1 ≤ c.splitTime) (hD : 0 ≤ c.duration) (ht : FitsInt t)
    (h : Needed c t dir name) : ∃ n, stoi name = .ok n ∧ t - c.duration - (c.splitTime - 1) ≤ n := by
  obtain ⟨n, hn, hc⟩ : ∃ n, stoi name = .ok n ∧ Covers c t n := by
    rcases h with ⟨fs, hfs, hmem⟩ | h
    · obtain ⟨-, n, hn, ho⟩ := (mem_selected hfs name).mp hmem
      exact ⟨n, hn, overlaps_covers hS h1 hD ht (fits_of_stoi hn) ho⟩
    · exact h
  obtain ⟨s, h1, h2, h3, h4⟩ := hc
  exact ⟨n, hn, by omega⟩

/-! ## Segments of any time -/

/-- The name of a segment that starts at `n`. -/
def timeName (n : Int) : FileName :=
  (if 0 ≤ n then Nat.toDigits 10 n.toNat else '-' :: Nat.toDigits 10 n.natAbs) ++ ['.', 'm', 'p', '4']

theorem stoi_timeName {n : Int} (h : FitsInt n) : stoi (timeName n) = .ok n := by
  unfold timeName
  unfold FitsInt at h
  split_ifs with h0
  · rw [stoi_toDigits (by omega)]
    congr 1
    omega
  · rw [stoi_neg_toDigits (by omega)]
    congr 1
    omega

theorem extension_mp4 {stem : List Char} (h : stem ≠ []) :
    extension (stem ++ ['.', 'm', 'p', '4']) = ['.', 'm', 'p', '4'] := by
  have hlen : stem.length ≠ 0 := fun hl => h (List.length_eq_zero_iff.mp hl)
  simp [extension, List.rdropWhile, List.rtakeWhile, hlen]

theorem isSegment_timeName (n : Int) : isSegment (timeName n) true := by
  have hext : extension (timeName n) = ['.', 'm', 'p', '4'] := by
    apply extension_mp4
    split_ifs
    · exact toDigits_ne_nil _
    · exact List.cons_ne_nil _ _
  simp [isSegment, hext]

theorem removed_single {now maintainTime n : Int} (path : List Char) (hn : FitsInt n)
    (h : n < cutoff now maintainTime) :
    (removed now maintainTime path [.entry (timeName n) true] fun _ => false).1 = [filePath path (timeName n)] := by
  simp [removed, setFilename, listFiles, isSegment_timeName, sortFiles, removeLoop, stoi_upToDot, stoi_timeName hn, h]

/-! ## The law -/

/-- **Retention spares what an event needs** exactly where the maintained time also reaches over the seconds of a
segment after its first, or where no `int` is before the cutoff; and where the cutoff itself is an `int`. -/
theorem retains_iff {c : VideoConfig} {t : Int} (hS : FitsInt (c.splitTime * 10 ^ 9)) (h1 : 1 ≤ c.splitTime)
    (hD : 0 ≤ c.duration) (hM : c.duration ≤ c.maintainSec) (ht : FitsInt t) :
    c.Retains t ↔ FitsInt (t - c.maintainSec) ∧
      (c.duration + c.splitTime - 1 ≤ c.maintainSec ∨ t - c.maintainSec = -2 ^ 31) := by
  have hfits := c.fits.2.2
  have hcut : cutoff t c.maintainSec = wrapInt (t - c.maintainSec) := by
    rw [cutoff, wrapInt_of_fits ht]
  constructor
  · intro h
    -- a time that is needed and from before the cutoff
    have hnone : ∀ n, FitsInt n → Covers c t n → cutoff t c.maintainSec ≤ n := by
      intro n hn hc
      by_contra hlt
      apply h [.entry (timeName n) true] (fun _ => false) (timeName n) (Or.inr ⟨n, stoi_timeName hn, hc⟩)
      rw [removed_single c.vidPath hn (by omega)]
      exact List.mem_singleton_self _
    have hint : FitsInt (t - c.maintainSec) := by
      by_contra hint
      have hle := hnone t ht ⟨t, by omega, by omega, by omega, by omega⟩
      rw [hcut] at hle
      have hw := wrapInt_fits (t - c.maintainSec)
      obtain ⟨k, hk⟩ := exists_wrapInt (t - c.maintainSec)
      unfold FitsInt at *
      omega
    refine ⟨hint, ?_⟩
    by_contra hlt
    rw [not_or] at hlt
    have hprev : FitsInt (t - c.maintainSec - 1) := by
      unfold FitsInt at *
      omega
    have hle := hnone (t - c.maintainSec - 1) hprev ⟨t - c.duration, by omega, by omega, by omega, by omega⟩
    rw [hcut, wrapInt_of_fits hint] at hle
    omega
  · rintro ⟨hint, hlong⟩ dir refused name hneed hmem
    obtain ⟨n, hn, hge⟩ := start_of_needed hS h1 hD ht hneed
    obtain ⟨name', -, hpath, m, hm, hlt⟩ := mem_removed hmem
    rw [← filePath_injective hpath, hn] at hm
    cases hm
    rw [hcut, wrapInt_of_fits hint] at hlt
    have := fits_of_stoi hn
    unfold FitsInt at *
    omega

/-- Segments of `splitTime` seconds, kept for as long as an event looks back. -/
def twoMinutes (splitTime : Int) (h : FitsInt splitTime) : VideoConfig where
  splitTime := splitTime
  duration := 120
  maintainSec := 120
  vidPath := "video".toList
  fits := ⟨h, by decide, by decide⟩

theorem retains_iff_second : (twoMinutes 1 (by decide)).Retains 1700000000 :=
  (retains_iff (by decide) (by decide) (by decide) (by decide) (by decide)).mpr (by decide)

/-- The directory of one segment of two seconds. The second of them is the first one that the event looks for. -/
def oneSegment : List Visit := [.entry "1699999879.mp4".toList true]

theorem lost_segment : ∃ hS : FitsInt 2,
    selected (twoMinutes 2 hS) 1700000000 oneSegment = .ok ["1699999879.mp4".toList] ∧
      (removed 1700000000 120 "video".toList oneSegment fun _ => false).1 = ["video/1699999879.mp4".toList] ∧
      ¬ (twoMinutes 2 hS).Retains 1700000000 := by
  refine ⟨by decide, ?_⟩
  have hselected : selected (twoMinutes 2 (by decide)) 1700000000 oneSegment = .ok ["1699999879.mp4".toList] := by
    decide +kernel
  have hremoved : (removed 1700000000 120 "video".toList oneSegment fun _ => false).1 =
      ["video/1699999879.mp4".toList] := by
    decide +kernel
  refine ⟨hselected, hremoved, fun h => ?_⟩
  apply h oneSegment (fun _ => false) _ (Or.inl ⟨_, hselected, List.mem_singleton_self _⟩)
  show _ ∈ (removed 1700000000 120 "video".toList oneSegment fun _ => false).1
  rw [hremoved]
  exact List.mem_singleton_self _

end RpiCam.Video
