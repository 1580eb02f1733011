import Mathlib.Data.List.Nodup
import Mathlib.Logic.Function.Basic

/-!
# Buffers exchanged with a device

A device and its client share buffers. The client queues a buffer, the device writes into it and hands it back filled,
and the client takes it. While a buffer is the device's, the client leaves it alone, and the other way round.

* `Exchange` : the buffers that are the device's, queued or filled, and the memory;
* `queue`, `take`, `off` : what the client asks for; `write`, `finish` : what the device does by itself;
* `owned_queue`, `owned_take`, `owned_finish` : whose a buffer is, before and after;
* `delivered` : what the filled buffers hold; `delivered_write` : a write does not touch it.
-/

namespace RpiCam

variable {ι α β γ : Type}

/-- `β` is what the device says of a buffer that it has filled. -/
structure Exchange (ι α β : Type) where
  queued : List ι
  done : List (ι × β)
  memory : ι → α

namespace Exchange

/-- The buffers that are the device's. -/
def owned (x : Exchange ι α β) : List ι := x.queued ++ x.done.map Prod.fst

/-- What the filled buffers hold, in the order they were filled. -/
def delivered (read : α → β → γ) (x : Exchange ι α β) : List γ := x.done.map fun d => read (x.memory d.1) d.2

def queue (x : Exchange ι α β) (i : ι) : Exchange ι α β := { x with queued := x.queued ++ [i] }

def take (x : Exchange ι α β) : Exchange ι α β := { x with done := x.done.tail }

/-- The client takes back all of them. -/
def off (x : Exchange ι α β) : Exchange ι α β := { x with queued := [], done := [] }

variable [DecidableEq ι]

def write (x : Exchange ι α β) (i : ι) (a : α) : Exchange ι α β := { x with memory := Function.update x.memory i a }

/-- The device has filled a queued buffer. -/
def finish (x : Exchange ι α β) (i : ι) (b : β) : Exchange ι α β :=
  { x with queued := x.queued.erase i, done := x.done ++ [(i, b)] }

/-! ## Whose a buffer is -/

omit [DecidableEq ι] in
theorem owned_queue (x : Exchange ι α β) (i : ι) : (x.queue i).owned.Perm (i :: x.owned) := by
  unfold owned queue
  rw [List.append_assoc, List.singleton_append]
  exact List.perm_middle

omit [DecidableEq ι] in
theorem owned_take {x : Exchange ι α β} {i : ι} {b : β} {rest : List (ι × β)} (h : x.done = (i, b) :: rest) :
    x.owned.Perm (i :: x.take.owned) := by
  unfold owned take
  rw [h, List.tail_cons, List.map_cons]
  exact List.perm_middle

omit [DecidableEq ι] in
theorem owned_off (x : Exchange ι α β) : x.off.owned = [] := rfl

theorem owned_write (x : Exchange ι α β) (i : ι) (a : α) : (x.write i a).owned = x.owned := rfl

theorem owned_finish {x : Exchange ι α β} {i : ι} (h : i ∈ x.queued) (b : β) : (x.finish i b).owned.Perm x.owned := by
  unfold owned finish
  rw [List.map_append, List.map_singleton, ← List.append_assoc]
  have hlast : (x.queued.erase i ++ x.done.map Prod.fst ++ [i]).Perm (i :: (x.queued.erase i ++ x.done.map Prod.fst)) :=
    List.perm_append_singleton ..
  have hback : (i :: x.queued.erase i).Perm x.queued := (List.perm_cons_erase h).symm
  exact hlast.trans (hback.append_right _)

/-! ## What is delivered -/

omit [DecidableEq ι] in
theorem delivered_queue (read : α → β → γ) (x : Exchange ι α β) (i : ι) :
    (x.queue i).delivered read = x.delivered read := rfl

omit [DecidableEq ι] in
theorem delivered_take (read : α → β → γ) {x : Exchange ι α β} {i : ι} {b : β} {rest : List (ι × β)}
    (h : x.done = (i, b) :: rest) : x.delivered read = read (x.memory i) b :: x.take.delivered read := by
  unfold delivered take
  rw [h]
  rfl

/-- **A write leaves what is delivered**, where no buffer is the device's twice. -/
theorem delivered_write (read : α → β → γ) {x : Exchange ι α β} {i : ι} (hx : x.owned.Nodup) (hi : i ∈ x.queued)
    (a : α) : (x.write i a).delivered read = x.delivered read := by
  unfold delivered write
  apply List.map_congr_left
  intro d hd
  have hne : d.1 ≠ i := by
    rintro rfl
    exact (List.nodup_append.mp hx).2.2 _ hi _ (List.mem_map_of_mem hd) rfl
  dsimp only
  rw [Function.update_of_ne hne]

theorem delivered_finish (read : α → β → γ) (x : Exchange ι α β) (i : ι) (b : β) :
    (x.finish i b).delivered read = x.delivered read ++ [read (x.memory i) b] := by
  unfold delivered finish
  rw [List.map_append]
  rfl

end Exchange

end RpiCam
