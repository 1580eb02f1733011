import RpiCam.Lib.CInt
import RpiCam.Lib.Stoi

/-!
# `sscanf` with numbers

A `%d` skips white space and reads one sign and digits. A number goes through `long`, whose bounds it is cut to, into an
`int`. What a conversion that fails, and those behind it, would be assigned to keeps what it was.

* `scanInt` : one `%d`, with what is left of the text;
* `scanPair` : `%d-%d`, `none` in place of a variable that is not assigned;
* `scanInt_digits`, `scanPair_digits` : on digits.
-/

namespace RpiCam

/-- A number of any length as `%d` stores it. -/
def storeInt (negative : Bool) (n : Nat) : Int :=
  wrapInt (max (-2 ^ 63) (min (if negative then -(n : Int) else n) (2 ^ 63 - 1)))

def scanInt (s : List Char) : Option (Int × List Char) :=
  let signed := takeSign (s.dropWhile isSpace)
  if signed.2.takeWhile Char.isDigit = [] then none
  else some (storeInt signed.1 (decimal (signed.2.takeWhile Char.isDigit)), signed.2.dropWhile Char.isDigit)

/-- `sscanf(s, "%d-%d", ..)`: what it assigns. -/
def scanPair (s : List Char) : Option Int × Option Int :=
  match scanInt (cStr s) with
  | none => (none, none)
  | some (a, []) => (some a, none)
  | some (a, c :: rest) => (some a, if c = '-' then (scanInt rest).map Prod.fst else none)

theorem storeInt_of_fits {n : Nat} (h : n < 2 ^ 31) : storeInt false n = n := by
  unfold storeInt
  rw [if_neg Bool.false_ne_true, min_eq_left (by omega), max_eq_right (by omega)]
  exact wrapInt_of_fits ⟨by omega, by omega⟩

theorem scanInt_digits {ds rest : List Char} (hds : ∀ c ∈ ds, c.isDigit = true) (hne : ds ≠ [])
    (hrest : ∀ c ∈ rest.head?, c.isDigit = false) (hfits : decimal ds < 2 ^ 31) :
    scanInt (ds ++ rest) = some ((decimal ds : Int), rest) := by
  obtain ⟨d, tail, rfl⟩ := List.exists_cons_of_ne_nil hne
  obtain ⟨hspace, hminus, hplus, -⟩ := isDigit_ne (hds d (List.mem_cons_self ..))
  have hsigned : takeSign ((d :: tail ++ rest).dropWhile isSpace) = (false, d :: tail ++ rest) := by
    rw [List.cons_append, List.dropWhile_cons_of_neg (by rw [hspace]; exact Bool.false_ne_true), takeSign, if_neg hminus,
      if_neg hplus]
  have htake : (d :: tail ++ rest).takeWhile Char.isDigit = d :: tail := by
    rw [List.takeWhile_append_of_pos hds]
    cases rest with
    | nil => exact List.append_nil _
    | cons c rest => simp [hrest c rfl]
  have hdrop : (d :: tail ++ rest).dropWhile Char.isDigit = rest := by
    rw [List.dropWhile_append_of_pos hds]
    cases rest with
    | nil => rfl
    | cons c rest => simp [hrest c rfl]
  unfold scanInt
  rw [hsigned]
  dsimp only
  rw [htake, hdrop, if_neg hne, storeInt_of_fits hfits]

/-- Two numbers with a `-` between them, up to something that is no digit. -/
theorem scanPair_digits {da db rest : List Char} (hda : ∀ c ∈ da, c.isDigit = true) (hna : da ≠ [])
    (hdb : ∀ c ∈ db, c.isDigit = true) (hnb : db ≠ []) (hrest : ∀ c ∈ rest.head?, c.isDigit = false)
    (hfa : decimal da < 2 ^ 31) (hfb : decimal db < 2 ^ 31) :
    scanPair (da ++ '-' :: (db ++ rest)) = (some (decimal da : Int), some (decimal db : Int)) := by
  have hnul : ∀ {ds : List Char}, (∀ c ∈ ds, c.isDigit = true) → '\x00' ∉ ds :=
    fun hds h => (isDigit_ne (hds _ h)).2.2.2 rfl
  have hcStr : cStr (da ++ '-' :: (db ++ rest)) = da ++ '-' :: (db ++ cStr rest) := by
    rw [cStr_append (hnul hda)]
    show da ++ '-' :: cStr (db ++ rest) = _
    rw [cStr_append (hnul hdb)]
  have hrest' : ∀ c ∈ (cStr rest).head?, c.isDigit = false := by
    cases rest with
    | nil => simp [cStr]
    | cons c rest =>
      by_cases hc : c = '\x00'
      · simp [cStr, hc]
      · simpa [cStr, hc] using hrest
  unfold scanPair
  rw [hcStr, scanInt_digits hda hna (by simp) hfa]
  dsimp only
  rw [if_pos rfl, scanInt_digits hdb hnb hrest' hfb]
  rfl

example : scanPair " 5000-x".toList = (some 5000, none) := by decide

end RpiCam
