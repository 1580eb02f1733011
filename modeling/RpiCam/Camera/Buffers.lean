import Mathlib.Data.List.Range
import RpiCam.Camera.Capture

/-!
# The buffers of the camera

* `Progress` : how far `init` has come, and what it returned;
* `places`, `Placed` : every buffer that was tried is in one place: the device's, the thread's, refused or dropped;
* `Sized` : a filled buffer holds at least the bytes the device says, and is mapped from end to end;
* `Exact` : the frames, the buffer in the thread's hand and the filled buffers are what the device filled, in order.
-/

namespace RpiCam

open Transition

namespace Camera

variable {c c' : Camera}

/-! ## How far `init` has come -/

/-- `init` has tried to queue this many buffers: all when it returned 0, none when it failed. -/
structure Progress (c : Camera) : Prop where
  le : c.tried ≤ nCamBuf
  setUp : setsUp c.pc = true → c.tried = 0 ∧ c.initRet = none
  queue : ∀ i, c.pc = .queue i → c.tried = i ∧ i < nCamBuf ∧ c.initRet = none
  done : c.initRet = some 0 → c.tried = nCamBuf
  failed : ∀ r, c.initRet = some r → r ≠ 0 → c.tried = 0

/-- The thread is past `init`. -/
def started : CameraPc → Bool
  | .queue _ => false
  | p => !setsUp p

theorem Goes.started {p q : CameraPc} (h : Goes p q) : started q = true := by cases h <;> rfl

theorem Progress.later (h : Progress c) (htried : c'.tried = c.tried) (hret : c'.initRet = c.initRet)
    (hpc : started c'.pc = true) : Progress c' where
  le := htried ▸ h.le
  setUp hs := by
    cases hp : c'.pc <;> rw [hp] at hs hpc <;> cases hs <;> cases hpc
  queue i hq := by
    rw [hq] at hpc
    cases hpc
  done hr := htried.trans (h.done (hret ▸ hr))
  failed r hr h0 := htried.trans (h.failed r (hret ▸ hr) h0)

theorem progress_step (h : Progress c) (hr : Rule c c') : Progress c' := by
  cases hr
  case setUp fd count mapped p hp hq hm =>
    obtain ⟨h0, hret⟩ := h.setUp hp
    refine ⟨h.le, fun _ => ⟨h0, hret⟩, ?_, h.done, h.failed⟩
    rintro i rfl
    rcases hq with hq | hq
    · cases hq
    · cases hq
      exact ⟨h0, by decide, hret⟩
  case initFails count ret hp hret =>
    obtain ⟨h0, -⟩ := h.setUp hp
    refine ⟨h.le, nofun, nofun, ?_, fun _ _ _ => h0⟩
    intro he
    exact absurd (Option.some.inj he) hret
  case initQueued i hpc hi hlt =>
    obtain ⟨-, -, hret⟩ := h.queue i hpc
    refine ⟨Nat.le_of_lt hlt, nofun, ?_, ?_, ?_⟩
    · rintro j ⟨⟩
      exact ⟨rfl, hlt, hret⟩
    · intro he
      rw [hret] at he
      cases he
    · intro r he
      rw [hret] at he
      cases he
  case initRefused i hpc hlt =>
    obtain ⟨-, -, hret⟩ := h.queue i hpc
    refine ⟨Nat.le_of_lt hlt, nofun, ?_, ?_, ?_⟩
    · rintro j ⟨⟩
      exact ⟨rfl, hlt, hret⟩
    · intro he
      rw [hret] at he
      cases he
    · intro r he
      rw [hret] at he
      cases he
  case lastQueued i hpc hi hge =>
    obtain ⟨-, hlt, -⟩ := h.queue i hpc
    refine ⟨hlt, nofun, nofun, fun _ => Nat.le_antisymm hlt hge, ?_⟩
    rintro r ⟨⟩ h0
    exact absurd rfl h0
  case lastRefused i hpc hge =>
    obtain ⟨-, hlt, -⟩ := h.queue i hpc
    refine ⟨hlt, nofun, nofun, fun _ => Nat.le_antisymm hlt hge, ?_⟩
    rintro r ⟨⟩ h0
    exact absurd rfl h0
  case goes p hg => exact h.later rfl rfl hg.started
  case write i bytes halive hs hi hb => exact ⟨h.le, h.setUp, h.queue, h.done, h.failed⟩
  case finish i n halive hs hi hn => exact ⟨h.le, h.setUp, h.queue, h.done, h.failed⟩
  all_goals exact h.later rfl rfl rfl

theorem progress_start (m : VideoMeta) (memory : Nat → List UInt8) : Progress (start m memory) :=
  ⟨Nat.zero_le _, fun _ => ⟨rfl, rfl⟩, nofun, nofun, nofun⟩

/-! ## Where the buffers are -/

/-- The buffers of the device, of the thread, the refused ones and the dropped ones. -/
def places (c : Camera) : List Nat := c.buffers.owned ++ c.pc.hand ++ c.lost ++ c.dropped

/-- Every buffer that `init` has tried to queue is in one place. -/
def Placed (c : Camera) : Prop := c.places.Perm (List.range c.tried)

theorem places_count (c : Camera) (x : Nat) :
    c.places.count x = c.buffers.owned.count x + c.pc.hand.count x + c.lost.count x + c.dropped.count x := by
  rw [places, List.count_append, List.count_append, List.count_append]

theorem setsUp_hand {p : CameraPc} (h : setsUp p = true) : p.hand = [] := by
  cases p <;> first | rfl | cases h

theorem Goes.hand {p q : CameraPc} (h : Goes p q) : q.hand = p.hand := by cases h <;> rfl

theorem Placed.same (h : Placed c) (htried : c'.tried = c.tried) (hp : c'.places.Perm c.places) : Placed c' := by
  unfold Placed
  rw [htried]
  exact hp.trans h

theorem Placed.more (h : Placed c) (htried : c'.tried = c.tried + 1) (hp : c'.places.Perm (c.tried :: c.places)) :
    Placed c' := by
  unfold Placed
  rw [htried, List.range_succ]
  exact (hp.trans (h.cons _)).trans (List.perm_append_singleton ..).symm

theorem places_perm {l : List Nat}
    (h : ∀ x, c'.buffers.owned.count x + c'.pc.hand.count x + c'.lost.count x + c'.dropped.count x = l.count x) :
    c'.places.Perm l := by
  rw [List.perm_iff_count]
  intro x
  rw [places_count]
  exact h x

theorem placed_step (hpr : Progress c) (h : Placed c) (hr : Rule c c') : Placed c' := by
  cases hr
  case setUp fd count mapped p hp hq hm =>
    refine h.same rfl (places_perm fun x => ?_)
    have hhand : p.hand = [] := by
      rcases hq with hq | rfl
      · exact setsUp_hand hq
      · rfl
    rw [places_count, hhand, setsUp_hand hp]
  case initFails count ret hp hret =>
    refine h.same rfl (places_perm fun x => ?_)
    rw [places_count, setsUp_hand hp]
    rfl
  case initQueued i hpc hi hlt =>
    obtain ⟨rfl, -⟩ := hpr.queue i hpc
    refine h.more rfl (places_perm fun x => ?_)
    have hx := (c.buffers.owned_queue c.tried).count_eq x
    simp only [List.count_cons, places_count, hpc, CameraPc.hand, List.count_nil] at hx ⊢
    omega
  case lastQueued i hpc hi hge =>
    obtain ⟨rfl, -⟩ := hpr.queue i hpc
    refine h.more rfl (places_perm fun x => ?_)
    have hx := (c.buffers.owned_queue c.tried).count_eq x
    simp only [List.count_cons, places_count, hpc, CameraPc.hand, List.count_nil, initReturns] at hx ⊢
    omega
  case initRefused i hpc hlt =>
    obtain ⟨rfl, -⟩ := hpr.queue i hpc
    refine h.more rfl (places_perm fun x => ?_)
    simp only [List.count_cons, List.count_append, places_count, hpc, CameraPc.hand, List.count_nil]
    omega
  case lastRefused i hpc hge =>
    obtain ⟨rfl, -⟩ := hpr.queue i hpc
    refine h.more rfl (places_perm fun x => ?_)
    simp only [List.count_cons, List.count_append, places_count, hpc, CameraPc.hand, List.count_nil, initReturns]
    omega
  case streamOn hpc =>
    refine h.same rfl (places_perm fun x => ?_)
    rw [places_count, hpc]
    rfl
  case goes p hg =>
    refine h.same rfl (places_perm fun x => ?_)
    rw [places_count, goto, hg.hand]
  case take index n rest hpc hd =>
    refine h.same rfl (places_perm fun x => ?_)
    have hx := (Exchange.owned_take hd).count_eq x
    simp only [List.count_cons, places_count, hpc, CameraPc.hand, List.count_nil] at hx ⊢
    omega
  case copy index n frame hpc hmeta hbuf =>
    refine h.same rfl (places_perm fun x => ?_)
    rw [places_count, hpc]
    rfl
  case crash index n hpc hbad =>
    refine h.same rfl (places_perm fun x => ?_)
    rw [places_count, hpc]
    rfl
  case requeued index hpc =>
    refine h.same rfl (places_perm fun x => ?_)
    have hx := (c.buffers.owned_queue index).count_eq x
    simp only [List.count_cons, places_count, hpc, CameraPc.hand, List.count_nil] at hx ⊢
    omega
  case requeueRefused index hpc =>
    refine h.same rfl (places_perm fun x => ?_)
    simp only [List.count_cons, List.count_append, places_count, hpc, CameraPc.hand, List.count_nil]
    omega
  case turnedOff hpc =>
    refine h.same rfl (places_perm fun x => ?_)
    simp only [turnOff, goto, Exchange.owned_off, List.count_append, places_count, hpc, CameraPc.hand,
      List.count_nil]
    omega
  case write i bytes halive hs hi hb =>
    refine h.same rfl (places_perm fun x => ?_)
    rw [places_count, Exchange.owned_write]
  case finish i n halive hs hi hn =>
    refine h.same rfl (places_perm fun x => ?_)
    rw [places_count, (Exchange.owned_finish hi n).count_eq x]

theorem Placed.nodup (h : Placed c) : c.places.Nodup := h.nodup_iff.mpr List.nodup_range

theorem Placed.lt (hpr : Progress c) (h : Placed c) {i : Nat} (hi : i ∈ c.places) : i < nCamBuf := by
  rw [h.mem_iff, List.mem_range] at hi
  exact Nat.lt_of_lt_of_le hi hpr.le

theorem Placed.owned (h : Placed c) : c.buffers.owned.Nodup := by
  have hn := h.nodup
  unfold places at hn
  rw [List.append_assoc, List.append_assoc] at hn
  exact hn.of_append_left

/-- What the thread has taken is not the device's. -/
theorem Placed.hand (h : Placed c) {i : Nat} (hi : i ∈ c.pc.hand) : i ∉ c.buffers.owned := by
  intro ho
  have hn := h.nodup
  unfold places at hn
  rw [List.append_assoc (c.buffers.owned ++ _)] at hn
  exact (List.nodup_append.mp hn.of_append_left).2.2 i ho i hi rfl

theorem placed_start (m : VideoMeta) (memory : Nat → List UInt8) : Placed (start m memory) := List.Perm.refl []

/-! ## What the device says of a buffer -/

/-- A filled buffer, also one that the thread has taken, has at least the bytes the device says. What is mapped is a
whole buffer. -/
structure Sized (c : Camera) : Prop where
  done : ∀ d ∈ c.buffers.done, d.2 ≤ (c.buffers.memory d.1).length
  taken : ∀ i n, c.pc = .copy i n → n ≤ (c.buffers.memory i).length
  mapped : ∀ i n, c.mapped i = some n → (c.buffers.memory i).length = n

theorem Sized.same (h : Sized c) (hb : ∀ d ∈ c'.buffers.done, d ∈ c.buffers.done)
    (hm : c'.buffers.memory = c.buffers.memory) (hmap : c'.mapped = c.mapped) (hpc : ∀ i n, c'.pc ≠ .copy i n) :
    Sized c' where
  done d hd := hm ▸ h.done d (hb d hd)
  taken i n hc := absurd hc (hpc i n)
  mapped i n hc := hm ▸ h.mapped i n (hmap ▸ hc)

theorem Goes.not_copy {p q : CameraPc} (h : Goes p q) (i n : Nat) : q ≠ .copy i n := by
  rintro rfl
  cases h

/-- A write is into a queued buffer, so the filled ones stay as they are. -/
theorem Sized.write (h : Sized c) (hp : Placed c) {i : Nat} (hi : i ∈ c.buffers.queued) {bytes : List UInt8}
    (hb : bytes.length = (c.buffers.memory i).length) : Sized { c with buffers := c.buffers.write i bytes } where
  done d hd := by
    have hne : d.1 ≠ i := by
      rintro rfl
      exact (List.nodup_append.mp hp.owned).2.2 _ hi _ (List.mem_map_of_mem hd) rfl
    simp only [Exchange.write, Function.update_of_ne hne]
    exact h.done d hd
  taken j n hpc := by
    have hne : j ≠ i := by
      rintro rfl
      exact hp.hand (i := j) (by rw [hpc]; exact List.mem_singleton_self j) (List.mem_append_left _ hi)
    simp only [Exchange.write, Function.update_of_ne hne]
    exact h.taken j n hpc
  mapped j n hmap := by
    have hlen := h.mapped j n hmap
    simp only [Exchange.write, Function.update_apply]
    split_ifs with hji
    · rw [hb, ← hji, hlen]
    · exact hlen

theorem sized_step (hp : Placed c) (h : Sized c) (hr : Rule c c') : Sized c' := by
  cases hr
  case setUp fd count mapped p hs hq hm =>
    refine ⟨h.done, ?_, ?_⟩
    · rintro i n rfl
      rcases hq with hq | hq <;> cases hq
    · intro i n hi
      rcases hm i n hi with hi | hi
      · exact h.mapped i n hi
      · exact hi
  case goes p hg => exact h.same (fun d hd => hd) rfl rfl hg.not_copy
  case take index n rest hpc hd =>
    refine ⟨?_, ?_, h.mapped⟩
    · intro d hmem
      rw [Exchange.take, hd] at hmem
      exact h.done d (hd ▸ List.mem_cons_of_mem _ hmem)
    · rintro i m ⟨⟩
      exact h.done (index, n) (hd ▸ List.mem_cons_self)
  case write i bytes halive hs hi hb => exact h.write hp hi hb
  case finish i n halive hs hi hn =>
    refine ⟨?_, h.taken, h.mapped⟩
    intro d hd
    rcases List.mem_append.mp hd with hd | hd
    · exact h.done d hd
    · rw [List.mem_singleton.mp hd]
      exact hn
  case turnedOff hpc => exact h.same nofun rfl rfl nofun
  all_goals exact h.same (fun d hd => hd) rfl rfl nofun

/-- With 8 buffers, and each of them mapped from end to end, line 195 fails only where `mmap` did. -/
theorem crash_unmapped (hpr : Progress c) (hp : Placed c) (h : Sized c) {index n : Nat} (hpc : c.pc = .copy index n)
    (hbad : ¬ (index < nCamBuf ∧ c.Covers index n)) : c.mapped index = none := by
  have hplace : index ∈ c.places := by
    unfold places
    rw [hpc]
    exact List.mem_append_left _ (List.mem_append_left _ (List.mem_append_right _ (List.mem_singleton_self index)))
  cases hm : c.mapped index with
  | none => rfl
  | some length =>
    have hlength := h.mapped index length hm
    exact absurd ⟨hp.lt hpr hplace, length, hm, hlength ▸ h.taken index n hpc, hlength.ge⟩ hbad

/-! ## What becomes of the contents -/

/-- What the thread has taken and not copied yet. -/
def inHand (c : Camera) : List (List UInt8) :=
  match c.pc with
  | .copy index n | .crashed index n => [firstBytes (c.buffers.memory index) n]
  | _ => []

/-- The frames, what is in the hand of the thread, what is filled and what was dropped unread are what the device has
filled, in this order. Something is dropped only at the end, when the stream is turned off. -/
structure Exact (c : Camera) : Prop where
  eq : c.frames.map (fun f => f.buffer) ++ c.inHand ++ c.buffers.delivered firstBytes ++ c.unread = c.filled
  quiet : c.unread = [] ∨ (c.streaming = false ∧ c.pc = .returned 0)

theorem setsUp_inHand (h : setsUp c.pc = true) : c.inHand = [] := by
  unfold inHand
  cases hp : c.pc <;> rw [hp] at h <;> first | rfl | cases h

theorem Goes.not_copied {p q : CameraPc} (h : Goes p q) (c : Camera) (hp : c.pc = p) :
    c.inHand = [] ∧ (c.goto q).inHand = [] := by
  unfold inHand
  rw [hp]
  cases h <;> exact ⟨rfl, rfl⟩

theorem Exact.same (h : Exact c) (hu : c.unread = []) (hu' : c'.unread = [])
    (heq : c'.frames.map (fun f => f.buffer) ++ c'.inHand ++ c'.buffers.delivered firstBytes =
      c.frames.map (fun f => f.buffer) ++ c.inHand ++ c.buffers.delivered firstBytes)
    (hf : c'.filled = c.filled) : Exact c' where
  eq := by
    have he := h.eq
    rw [hu, List.append_nil] at he
    rw [hu', List.append_nil, hf, heq, he]
  quiet := Or.inl hu'

theorem Exact.unread_nil (h : Exact c) (hpc : ∀ r, c.pc ≠ .returned r) : c.unread = [] := by
  rcases h.quiet with hu | ⟨-, hr⟩
  · exact hu
  · exact absurd hr (hpc 0)

theorem Exact.unread_of_streaming (h : Exact c) (hs : c.streaming = true) : c.unread = [] := by
  rcases h.quiet with hu | ⟨hoff, -⟩
  · exact hu
  · rw [hs] at hoff
    cases hoff

theorem Goes.not_returned {p q : CameraPc} (h : Goes p q) (r : Int) : p ≠ .returned r := by
  rintro rfl
  cases h

theorem setsUp_not_returned {p : CameraPc} (h : setsUp p = true) (r : Int) : p ≠ .returned r := by
  rintro rfl
  cases h

/-- A step of the thread from a place with an empty hand to one with an empty hand, that leaves frames and device. -/
theorem Exact.idle (h : Exact c) (hpc : ∀ r, c.pc ≠ .returned r) (hi : c.inHand = []) (hi' : c'.inHand = [])
    (hfr : c'.frames = c.frames) (hd : c'.buffers.delivered firstBytes = c.buffers.delivered firstBytes)
    (hu : c'.unread = c.unread) (hf : c'.filled = c.filled) : Exact c' := by
  have hnil := h.unread_nil hpc
  exact h.same hnil (hu.trans hnil) (by rw [hi, hi', hfr, hd]) hf

theorem exact_step (hp : Placed c) (h : Exact c) (hr : Rule c c') : Exact c' := by
  cases hr
  case setUp fd count mapped p hs hq hm =>
    refine h.idle (setsUp_not_returned hs) (setsUp_inHand hs) ?_ rfl rfl rfl rfl
    rcases hq with hq | rfl
    · exact setsUp_inHand hq
    · rfl
  case initFails count ret hs hret => exact h.idle (setsUp_not_returned hs) (setsUp_inHand hs) rfl rfl rfl rfl rfl
  case goes p hg =>
    obtain ⟨hi, hi'⟩ := hg.not_copied c rfl
    exact h.idle hg.not_returned hi hi' rfl rfl rfl rfl
  case take index n rest hpc hd =>
    have hu := h.unread_nil (by rw [hpc]; nofun)
    refine h.same hu hu ?_ rfl
    rw [Exchange.delivered_take firstBytes hd]
    simp only [inHand, hpc, Exchange.take, List.append_nil, List.append_assoc, List.singleton_append]
  case copy index n frame hpc hmeta hbuf =>
    have hu := h.unread_nil (by rw [hpc]; nofun)
    refine h.same hu hu ?_ rfl
    simp only [inHand, hpc, List.map_append, List.map_singleton, hbuf, List.append_nil]
  case crash index n hpc hbad =>
    have hu := h.unread_nil (by rw [hpc]; nofun)
    refine h.same hu hu ?_ rfl
    simp only [inHand, hpc, goto]
  case turnedOff hpc =>
    have he := h.eq
    refine ⟨?_, Or.inr ⟨rfl, rfl⟩⟩
    rw [h.unread_nil (by rw [hpc]; nofun)] at he
    simp only [inHand, hpc, List.append_nil] at he
    simp only [inHand, goto, turnOff, h.unread_nil (by rw [hpc]; nofun), Exchange.off, Exchange.delivered,
      List.map_nil, List.append_nil]
    exact he
  case write i bytes halive hs hi hb =>
    have hu := h.unread_of_streaming hs
    refine h.same hu hu ?_ rfl
    rw [Exchange.delivered_write firstBytes hp.owned hi]
    congr 2
    -- the buffer in the hand of the thread is not the device's
    unfold inHand
    cases hpc : c.pc
    case copy index n =>
      have hne : index ≠ i := by
        rintro rfl
        exact hp.hand (i := index) (by rw [hpc]; exact List.mem_singleton_self index) (List.mem_append_left _ hi)
      simp only [Exchange.write, Function.update_of_ne hne]
    case crashed index n =>
      rw [alive, hpc] at halive
      cases halive
    all_goals rfl
  case finish i n halive hs hi hn =>
    have hu := h.unread_of_streaming hs
    have he := h.eq
    refine ⟨?_, Or.inl hu⟩
    rw [hu, List.append_nil] at he
    rw [hu, List.append_nil, Exchange.delivered_finish, ← he, ← List.append_assoc]
    rfl
  case initQueued i hpc hi hlt =>
    exact h.idle (by rw [hpc]; nofun) (by simp [inHand, hpc]) rfl rfl (Exchange.delivered_queue ..) rfl rfl
  case lastQueued i hpc hi hge =>
    exact h.idle (by rw [hpc]; nofun) (by simp [inHand, hpc]) rfl rfl (Exchange.delivered_queue ..) rfl rfl
  case initRefused i hpc hlt => exact h.idle (by rw [hpc]; nofun) (by simp [inHand, hpc]) rfl rfl rfl rfl rfl
  case lastRefused i hpc hge => exact h.idle (by rw [hpc]; nofun) (by simp [inHand, hpc]) rfl rfl rfl rfl rfl
  case streamOn hpc => exact h.idle (by rw [hpc]; nofun) (by simp [inHand, hpc]) rfl rfl rfl rfl rfl
  case requeued index hpc =>
    exact h.idle (by rw [hpc]; nofun) (by simp [inHand, hpc]) rfl rfl (Exchange.delivered_queue ..) rfl rfl
  case requeueRefused index hpc => exact h.idle (by rw [hpc]; nofun) (by simp [inHand, hpc]) rfl rfl rfl rfl rfl

theorem exact_start (m : VideoMeta) (memory : Nat → List UInt8) : Exact (start m memory) := ⟨rfl, Or.inl rfl⟩

end Camera

end RpiCam
