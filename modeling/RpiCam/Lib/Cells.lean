import RpiCam.Lib.Stoi

/-!
# Memory, byte by byte

A byte of memory that has not been written is `none`.

* `memcpy` : the destination afterwards, and how much it reads and writes;
* `readCStr` : `std::string::assign` of a pointer, `none` where it is not defined;
* `readCStr_map_some` : on bytes that are all written.
-/

namespace RpiCam

abbrev Cell := Option Char

/-- After a `memcpy`. -/
structure Copied where
  dest : List Cell
  /-- How many bytes of the source are read, from its start on. -/
  reads : Nat
  /-- How many bytes of the destination are written, from its start on. -/
  writes : Nat

def memcpy (dest : List Cell) (src : Nat → Cell) (n : Nat) : Copied where
  dest := (List.range n).map src ++ dest.drop n
  reads := n
  writes := n

/-- The C string at the start of the memory: `none` where a byte that is read is not written or is not there. -/
def readCStr : List Cell → Option (List Char)
  | [] => none
  | none :: _ => none
  | some c :: cells => if c = '\x00' then some [] else (readCStr cells).map fun s => c :: s

theorem readCStr_map_some (bytes : List Char) :
    readCStr (bytes.map some) = if '\x00' ∈ bytes then some (cStr bytes) else none := by
  induction bytes with
  | nil => rfl
  | cons c bytes ih =>
    rw [List.map_cons, readCStr, ih]
    by_cases hc : c = '\x00'
    · subst hc
      simp [cStr]
    · have hmem : '\x00' ∈ c :: bytes ↔ '\x00' ∈ bytes := by simp [Ne.symm hc]
      simp only [hc, if_false, hmem]
      split_ifs <;> simp [cStr, hc]

/-- The string ends before the part of the bytes that its NUL is in. -/
theorem cStr_take {bytes : List Char} {n : Nat} (h : '\x00' ∈ bytes.take n) :
    cStr (bytes.take n) = cStr bytes ∧ (cStr bytes).length < n := by
  have hsame : cStr (bytes.take n) = cStr bytes := by
    rw [← cStr_append_nul h (bytes.drop n), List.take_append_drop]
  refine ⟨hsame, ?_⟩
  have hle : (cStr (bytes.take n)).length ≤ (bytes.take n).length := (List.takeWhile_sublist _).length_le
  have hne : (cStr (bytes.take n)).length ≠ (bytes.take n).length := by
    intro he
    have hself : cStr (bytes.take n) = bytes.take n := (List.takeWhile_prefix _).eq_of_length he
    exact nul_notMem_cStr (bytes.take n) (hself.symm ▸ h)
  rw [List.length_take] at hle hne
  rw [hsame] at hle hne
  omega

end RpiCam
