import RpiCam.Rtsp.Phases

/-!
# The references of the pipelines

`setup_request` makes a pipeline and owes one `gst_object_unref` for it. The destructor of `RTPSessionInfoGst` makes that
call, and so do the failure exits of `setup_request`, before the pointer is stored; `teardown_request` makes it by hand
and then deletes the `RTPSessionInfoGst`.

* `FileHandler.Accounted` : every pipeline was released once, but for the one that is stored;
* `references_teardown` : a teardown leaves all as it is, or releases its pipeline twice;
* `accounted_step` : every request keeps this, but for a teardown that succeeds (`TearsDown`);
* `overdrawn_of_teardown` : such a teardown releases its pipeline twice, which no later request undoes;
* `released_once_iff` : the references balance exactly where no teardown succeeds.
-/

namespace RpiCam.Rtsp

open Transition

/-- A teardown that stops and releases a pipeline. -/
def TearsDown (p : Phase) (r : FileRequest) : Prop :=
  r.1 = .teardown ∧ r.2.stateChange ≠ .failure ∧ ∃ seen, p = .ready seen

/-- Every pipeline of the session is released exactly once, by the end of the session. -/
def ReleasedOnce (requests : List FileRequest) : Prop :=
  ∀ h, run FileHandler.step .new requests = some h → h.destroy.pipelines.Balanced

namespace FileHandler

variable {h h' : FileHandler} {w : Surroundings}

/-- The pipeline that is stored. -/
def Holds (h : FileHandler) (a : Nat) : Prop := ∃ info, h.rtpInfo = some info ∧ info.pipeline = some a

/-- All pipelines but the stored one were released, once. -/
def Accounted (h : FileHandler) : Prop := h.pipelines.Settled h.Holds

theorem holds_iff {info : RtpSessionInfoGst} (hi : h.rtpInfo = some info) (a : Nat) :
    h.Holds a ↔ info.pipeline = some a := by
  unfold Holds
  rw [hi]
  simp

theorem not_holds_of_none (hi : h.rtpInfo = none) (a : Nat) : ¬ h.Holds a := by
  rintro ⟨info, hs, -⟩
  rw [hi] at hs
  cases hs

theorem accounted_new : new.Accounted :=
  Ledger.settled_empty.congr fun a => iff_of_false (not_holds_of_none rfl a) id

/-- After the first lines of a setup, and after the destructor, nothing is held. -/
theorem settled_cleared (ha : h.Accounted) : h.cleared.Settled fun _ => False := by
  unfold cleared deleteRtpInfo
  cases hi : h.rtpInfo with
  | none => exact ha.congr fun a => iff_of_false id (not_holds_of_none hi a)
  | some info =>
    cases hp : info.pipeline with
    | none =>
      have hnot : ∀ a, ¬ h.Holds a := by
        intro a
        rw [holds_iff hi, hp]
        simp
      simp only [deleteInfo, hp, unref]
      exact ha.congr fun a => iff_of_false id (hnot a)
    | some p =>
      have hheld : h.Holds p := (holds_iff hi p).mpr hp
      have hs := Ledger.settled_release ha hheld
      simp only [deleteInfo, hp, unref]
      refine hs.congr fun a => iff_of_false id ?_
      rintro ⟨hha, hne⟩
      rw [holds_iff hi, hp, Option.some.injEq] at hha
      exact hne hha.symm

theorem balanced_destroy (ha : h.Accounted) : h.destroy.pipelines.Balanced :=
  (settled_cleared ha).balanced_iff.mpr fun _ => id

theorem overdrawn_cleared (ho : h.pipelines.Overdrawn) : h.cleared.Overdrawn := by
  unfold cleared deleteRtpInfo
  cases h.rtpInfo with
  | none => exact ho
  | some info =>
    dsimp only [deleteInfo]
    cases info.pipeline with
    | none => exact ho
    | some p => exact ho.release p

/-! ## One request -/

/-- A request that leaves the references and the pipeline as they are. -/
def KeepsReferences (h h' : FileHandler) : Prop := h'.pipelines = h.pipelines ∧ ∀ a, h'.Holds a ↔ h.Holds a

theorem keepsReferences_refl (h : FileHandler) : h.KeepsReferences h := ⟨rfl, fun _ => Iff.rfl⟩

theorem keepsReferences_of_pipeline {info info' : RtpSessionInfoGst} (hi : h.rtpInfo = some info)
    (hp : info'.pipeline = info.pipeline) : h.KeepsReferences { h with rtpInfo := some info' } := by
  refine ⟨rfl, fun a => ?_⟩
  rw [holds_iff hi, holds_iff (h := { h with rtpInfo := some info' }) rfl, hp]

theorem keepsReferences_step {r : FileRequest} (hw : h.Whole) (hs : h.step r = some h')
    (hsetup : ∀ path addr port, r.1 ≠ .setup path addr port) (htear : r.1 ≠ .teardown) : h.KeepsReferences h' := by
  obtain ⟨call, w⟩ := r
  cases call with
  | option =>
    cases hs
    exact keepsReferences_refl h
  | describe path =>
    rw [describe_step] at hs
    split_ifs at hs
    cases hs
    exact keepsReferences_refl h
  | setup path addr port => exact absurd rfl (hsetup path addr port)
  | play time =>
    obtain rfl | ⟨info, info', hi, rfl, hp, -⟩ := play_step hw hs
    · exact keepsReferences_refl h'
    · exact keepsReferences_of_pipeline hi hp
  | pause time =>
    rw [pause_step hs]
    exact keepsReferences_refl h
  | teardown => exact absurd rfl htear

/-- A teardown leaves everything as it is, or releases its pipeline twice. -/
theorem references_teardown {r : FileRequest} (hw : h.Whole) (hs : h.step r = some h') (hr : r.1 = .teardown) :
    (h.KeepsReferences h' ∧ ¬ TearsDown h.phase r) ∨
      ∃ p, h.Holds p ∧ TearsDown h.phase r ∧ h'.pipelines = (h.pipelines.release p).release p := by
  obtain ⟨call, w⟩ := r
  subst hr
  obtain ⟨info, hi, ⟨rfl, hnot⟩ | ⟨p, hp, hc, rfl⟩⟩ := teardown_step hw hs
  · refine Or.inl ⟨keepsReferences_refl h', ?_⟩
    rintro ⟨-, hne, seen, hphase⟩
    have hnone := hnot.resolve_right hne
    rw [phase_of_some hi, hnone] at hphase
    cases hphase
  · refine Or.inr ⟨p, (holds_iff hi p).mpr hp, ⟨rfl, hc, !info.first, ?_⟩, rfl⟩
    rw [phase_of_some hi, hp]
    rfl

/-- **Every request but a teardown that succeeds keeps the account.** -/
theorem accounted_step {r : FileRequest} (hw : h.Whole) (ha : h.Accounted) (hs : h.step r = some h')
    (ht : ¬ TearsDown h.phase r) : h'.Accounted := by
  have hkeep : h.KeepsReferences h' → h'.Accounted := by
    rintro ⟨hp, hheld⟩
    unfold Accounted
    rw [hp]
    exact Ledger.Settled.congr ha hheld
  by_cases htear : r.1 = .teardown
  · rcases references_teardown hw hs htear with h1 | ⟨p, -, h1, -⟩
    · exact hkeep h1.1
    · exact absurd h1 ht
  · by_cases hsetup : ∃ path addr port, r.1 = .setup path addr port
    · obtain ⟨path, addr, port, hr⟩ := hsetup
      obtain ⟨call, w⟩ := r
      subst hr
      have hcl := settled_cleared ha
      rw [setup_step] at hs
      split_ifs at hs <;> cases hs
      · exact (Ledger.settled_unmade hcl).congr fun a => iff_of_false (not_holds_of_none rfl a) id
      · exact hcl.congr fun a => iff_of_false (not_holds_of_none rfl a) id
      · refine (Ledger.settled_unmade hcl).congr fun a => iff_of_false ?_ id
        rintro ⟨info, hi, hp⟩
        cases hi
        cases hp
      · refine (Ledger.settled_create hcl).congr fun a => ?_
        rw [holds_iff rfl, Option.some.injEq, false_or]
        exact eq_comm
    · exact hkeep (keepsReferences_step hw hs (fun path addr port hr => hsetup ⟨path, addr, port, hr⟩) htear)

theorem overdrawn_step {r : FileRequest} (hw : h.Whole) (ho : h.pipelines.Overdrawn) (hs : h.step r = some h') :
    h'.pipelines.Overdrawn := by
  by_cases htear : r.1 = .teardown
  · rcases references_teardown hw hs htear with h1 | ⟨p, -, -, h1⟩
    · rw [h1.1.1]
      exact ho
    · rw [h1]
      exact (ho.release p).release p
  · by_cases hsetup : ∃ path addr port, r.1 = .setup path addr port
    · obtain ⟨path, addr, port, hr⟩ := hsetup
      obtain ⟨call, w⟩ := r
      subst hr
      have hcl := overdrawn_cleared ho
      rw [setup_step] at hs
      split_ifs at hs <;> cases hs
      · exact hcl.create.release _
      · exact hcl
      · exact hcl.create.release _
      · exact hcl.create
    · rw [(keepsReferences_step hw hs (fun path addr port hr => hsetup ⟨path, addr, port, hr⟩) htear).1]
      exact ho

/-- **A teardown that succeeds releases its pipeline twice.** -/
theorem overdrawn_of_teardown {r : FileRequest} (hw : h.Whole) (ha : h.Accounted) (hs : h.step r = some h')
    (ht : TearsDown h.phase r) : h'.pipelines.Overdrawn := by
  rcases references_teardown hw hs ht.1 with h1 | ⟨p, hp, -, h1⟩
  · exact absurd ht h1.2
  · rw [h1]
    exact Ledger.overdrawn_release_release (ha.known p hp)

/-! ## A session -/

theorem balanced_iff_along (hw : h.Whole) (ha : h.Accounted) {requests : List FileRequest}
    (hrun : run step h requests = some h') :
    h'.destroy.pipelines.Balanced ↔ Along Phase.step (fun p r => ¬ TearsDown p r) h.phase requests := by
  induction requests generalizing h with
  | nil =>
    cases hrun
    exact iff_of_true (balanced_destroy ha) trivial
  | cons r requests ih =>
    rw [run_cons, Option.bind_eq_some_iff] at hrun
    obtain ⟨h1, hs, hrun⟩ := hrun
    have hw1 : h1.Whole := whole_step hw hs
    have hphase : Phase.step h.phase r = some h1.phase := by
      rw [← map_phase_step hw, hs]
      rfl
    rw [along_cons, hphase]
    by_cases ht : TearsDown h.phase r
    · have ho : h1.pipelines.Overdrawn := overdrawn_of_teardown hw ha hs ht
      have hend : h'.Whole ∧ h'.pipelines.Overdrawn := by
        refine run_invariant (fun h => h.Whole ∧ h.pipelines.Overdrawn) ?_ ⟨hw1, ho⟩ hrun
        rintro h r h' ⟨hw, ho⟩ hs
        exact ⟨whole_step hw hs, overdrawn_step hw ho hs⟩
      exact iff_of_false (overdrawn_cleared hend.2).not_balanced fun hall => hall.1 ht
    · rw [ih hw1 (accounted_step hw ha hs ht) hrun]
      constructor
      · intro hall
        refine ⟨ht, ?_⟩
        intro p hp
        cases hp
        exact hall
      · intro hall
        exact hall.2 _ rfl

end FileHandler

/-- No teardown among the requests succeeds. -/
def NeverTornDown (requests : List FileRequest) : Prop :=
  Along Phase.step (fun p r => ¬ TearsDown p r) .unset requests

/-- **The references of the pipelines balance exactly where no teardown succeeds**, in a session that comes to its
end. -/
theorem released_once_iff (requests : List FileRequest) :
    ReleasedOnce requests ↔ (run Phase.step .unset requests ≠ none → NeverTornDown requests) := by
  have hrun : (run FileHandler.step .new requests).map FileHandler.phase = run Phase.step .unset requests :=
    run_map FileHandler.phase FileHandler.Whole (fun h r hw => FileHandler.map_phase_step hw r)
      (fun h r h' hw hs => FileHandler.whole_step hw hs) FileHandler.whole_new requests
  unfold ReleasedOnce NeverTornDown
  rw [← hrun]
  cases hr : run FileHandler.step .new requests with
  | none => simp
  | some h =>
    have hb := FileHandler.balanced_iff_along FileHandler.whole_new FileHandler.accounted_new hr
    constructor
    · intro hall _
      exact hb.mp (hall h rfl)
    · rintro hall h' ⟨⟩
      exact hb.mpr (hall (by simp))

/-- **`SETUP` and `TEARDOWN`**: the pipeline is released twice. -/
theorem setup_teardown : ¬ ReleasedOnce [(.setup [] [] [], .able), (.teardown, .able)] := by
  intro h
  exact absurd (h _ rfl) (by decide)

end RpiCam.Rtsp
