/-!
# A pool of permits

A `Pool` counts the permits that are free, those that are held, and those that were taken and will never be given back.
`Conserved n` is the whole account of a pool of `n` permits; every step keeps it, and the free and the held permits are
all there are exactly as long as none was lost (`Conserved.all_iff`).
-/

namespace RpiCam

structure Pool where
  free : Int
  held : Nat
  lost : Nat

namespace Pool

/-- Every permit is accounted for. -/
def Conserved (n : Int) (p : Pool) : Prop := p.free + p.held + p.lost = n

/-- One step of a pool. -/
inductive Step : Pool → Pool → Prop
  | stay (p : Pool) : Step p p
  | take (free : Int) (held lost : Nat) : Step ⟨free, held, lost⟩ ⟨free - 1, held + 1, lost⟩
  | giveBack (free : Int) (held lost : Nat) : Step ⟨free, held + 1, lost⟩ ⟨free + 1, held, lost⟩
  | lose (free : Int) (held lost : Nat) : Step ⟨free, held, lost⟩ ⟨free - 1, held, lost + 1⟩

theorem Step.conserved {n : Int} {p p' : Pool} (h : Step p p') (hp : p.Conserved n) : p'.Conserved n := by
  unfold Conserved at hp ⊢
  cases h with
  | stay => exact hp
  | take => dsimp only at hp ⊢; omega
  | giveBack => dsimp only at hp ⊢; omega
  | lose => dsimp only at hp ⊢; omega

theorem Conserved.all_iff {n : Int} {p : Pool} (h : p.Conserved n) : p.free + p.held = n ↔ p.lost = 0 := by
  unfold Conserved at h
  omega

end Pool

end RpiCam
