import Mathlib.Data.List.TakeWhile
import Mathlib.Tactic.IntervalCases

/-!
# `std::stoi`

Strings are lists of `char`. `stoi` reads a C string as `strtol` does: white space, one sign, digits, and then anything;
it throws `invalid_argument` where there is no digit and `out_of_range` where the number is not an `int`.

* `cStr` : what `c_str()` is for a function that stops at the terminating NUL, `cStr_append`;
* `stoi_ok_digit` : a string that `stoi` accepts has a digit before any NUL, after white space and a sign only;
* `stoi_upToDot` : `stoi` reads a name and its part up to the first `.` alike;
* `intText` : the number that `<<` writes, and `stoi_toDigits` : in front of a `.` it reads back.
-/

namespace RpiCam

/-- Strings are compared by their characters. -/
instance lawfulBEqChars : LawfulBEq (List Char) := inferInstance

/-- The C string of `s`: up to the first NUL. -/
def cStr (s : List Char) : List Char := s.takeWhile fun c => c ≠ '\x00'

theorem cStr_append {s : List Char} (h : '\x00' ∉ s) (t : List Char) : cStr (s ++ t) = s ++ cStr t := by
  unfold cStr
  rw [List.takeWhile_append_of_pos]
  intro c hc
  have : c ≠ '\x00' := fun he => h (he ▸ hc)
  simpa using this

theorem cStr_eq_self {s : List Char} (h : '\x00' ∉ s) : cStr s = s := by
  simpa [cStr] using cStr_append h []

theorem cStr_append_nul {s : List Char} (h : '\x00' ∈ s) (t : List Char) : cStr (s ++ t) = cStr s := by
  induction s with
  | nil => cases h
  | cons c s ih =>
    by_cases hc : c = '\x00'
    · subst hc; simp [cStr]
    · have ht := ih ((List.mem_cons.mp h).resolve_left (Ne.symm hc))
      simpa [cStr, hc] using ht

theorem nul_notMem_cStr (s : List Char) : '\x00' ∉ cStr s := by
  intro h
  simpa using List.mem_takeWhile_imp h

inductive StoiError
  | invalidArgument
  | outOfRange
  deriving DecidableEq, Repr

def isSpace (c : Char) : Bool := c ∈ [' ', '\t', '\n', '\x0b', '\x0c', '\r']

/-- A sign and what follows it. -/
def takeSign : List Char → Bool × List Char
  | [] => (false, [])
  | c :: s => if c = '-' then (true, s) else if c = '+' then (false, s) else (false, c :: s)

/-- The value of decimal digits. -/
def decimal (ds : List Char) : Nat := ds.foldl (fun n c => 10 * n + (c.toNat - '0'.toNat)) 0

/-- The digits `strtol` reads, and the sign in front of them. -/
def number (s : List Char) : Bool × List Char :=
  let signed := takeSign ((cStr s).dropWhile isSpace)
  (signed.1, signed.2.takeWhile Char.isDigit)

def stoi (s : List Char) : Except StoiError Int :=
  let n := number s
  if n.2 = [] then .error .invalidArgument
  else
    let value : Int := if n.1 then -(decimal n.2 : Int) else decimal n.2
    if value < -2 ^ 31 ∨ 2 ^ 31 - 1 < value then .error .outOfRange else .ok value

theorem number_ne_nil_of_stoi {s : List Char} {n : Int} (h : stoi s = .ok n) : (number s).2 ≠ [] := by
  intro hd
  simp [stoi, hd] at h

/-- A string that `stoi` accepts is, as a C string, white space and a sign, a digit, and a rest. -/
theorem stoi_ok_digit {s : List Char} {n : Int} (h : stoi s = .ok n) :
    ∃ pre d rest, cStr s = pre ++ d :: rest ∧ d.isDigit = true ∧
      ∀ c ∈ pre, isSpace c = true ∨ c = '-' ∨ c = '+' := by
  have hne := number_ne_nil_of_stoi h
  set spaces := (cStr s).takeWhile isSpace with hspaces
  set body := (cStr s).dropWhile isSpace with hbody
  have hsplit : cStr s = spaces ++ body := (List.takeWhile_append_dropWhile).symm
  have hsp : ∀ c ∈ spaces, isSpace c = true := fun c hc => List.mem_takeWhile_imp hc
  -- the sign, if there is one, stands between the white space and the digits
  obtain ⟨sign, tail, hsign, htail, hsg⟩ : ∃ sign tail, body = sign ++ tail ∧ (takeSign body).2 = tail ∧
      ∀ c ∈ sign, c = '-' ∨ c = '+' := by
    rcases body with _ | ⟨c, b⟩
    · exact ⟨[], [], rfl, rfl, by simp⟩
    · by_cases h1 : c = '-'
      · exact ⟨[c], b, rfl, by simp [takeSign, h1], by simp [h1]⟩
      · by_cases h2 : c = '+'
        · exact ⟨[c], b, rfl, by simp [takeSign, h2], by simp [h2]⟩
        · exact ⟨[], c :: b, rfl, by simp [takeSign, h1, h2], by simp⟩
  have hnum : (number s).2 = tail.takeWhile Char.isDigit := by
    rw [← htail]; rfl
  rw [hnum] at hne
  rcases tail with _ | ⟨d, rest⟩
  · exact absurd rfl hne
  · have hd : d.isDigit = true := by
      by_contra hd
      exact hne (by simp [List.takeWhile, hd])
    refine ⟨spaces ++ sign, d, rest, by rw [hsplit, hsign, List.append_assoc], hd, fun c hc => ?_⟩
    rcases List.mem_append.mp hc with hc | hc
    · exact Or.inl (hsp c hc)
    · exact Or.inr (hsg c hc)

/-! ## Numbers in names -/

theorem number_append_dot (u r : List Char) : number (u ++ '.' :: r) = number u := by
  by_cases hnul : '\x00' ∈ u
  · simp only [number, cStr_append_nul hnul]
  · have hdrop : ∀ v x, (v ++ '.' :: x).dropWhile isSpace = v.dropWhile isSpace ++ '.' :: x := by
      intro v x
      induction v with
      | nil => rfl
      | cons c v ih =>
        cases hc : isSpace c <;> simp [hc, ih]
    have hsign : ∀ v x, takeSign (v ++ '.' :: x) = ((takeSign v).1, (takeSign v).2 ++ '.' :: x) := by
      intro v x
      cases v with
      | nil => rfl
      | cons c v =>
        simp only [List.cons_append, takeSign]
        split_ifs <;> rfl
    have hdigits : ∀ v x, (v ++ '.' :: x).takeWhile Char.isDigit = v.takeWhile Char.isDigit := by
      intro v x
      induction v with
      | nil => rfl
      | cons c v ih =>
        cases hc : c.isDigit <;> simp [hc, ih]
    have hdot : cStr ('.' :: r) = '.' :: cStr r := rfl
    simp only [number, cStr_append hnul, hdot, cStr_eq_self hnul, hdrop, hsign, hdigits]

theorem stoi_append_dot (u r : List Char) : stoi (u ++ '.' :: r) = stoi u := by
  unfold stoi
  rw [number_append_dot]

/-- `s.substr(0, s.find('.'))`. -/
def upToDot (s : List Char) : List Char := s.takeWhile fun c => c ≠ '.'

theorem stoi_upToDot (s : List Char) : stoi (upToDot s) = stoi s := by
  have hsplit : upToDot s ++ s.dropWhile (fun c => c ≠ '.') = s := List.takeWhile_append_dropWhile
  cases hr : s.dropWhile (fun c => c ≠ '.') with
  | nil =>
    rw [hr, List.append_nil] at hsplit
    rw [hsplit]
  | cons c r =>
    have hc : c = '.' := by
      have := List.head_dropWhile_not (l := s) (fun c => decide (c ≠ '.')) (by rw [hr]; simp)
      simp only [hr, List.head_cons] at this
      simpa using this
    rw [hr, hc] at hsplit
    rw [← stoi_append_dot (upToDot s) r, hsplit]

theorem decimal_append (ds : List Char) (c : Char) : decimal (ds ++ [c]) = 10 * decimal ds + (c.toNat - '0'.toNat) := by
  simp [decimal]

theorem digitChar_toNat {d : Nat} (h : d < 10) : d.digitChar.toNat - '0'.toNat = d := by
  interval_cases d <;> rfl

theorem digitChar_isDigit {d : Nat} (h : d < 10) : d.digitChar.isDigit = true := by
  interval_cases d <;> rfl

/-- What `<<` writes for a number reads back as the number. -/
theorem decimal_toDigits (n : Nat) : decimal (Nat.toDigits 10 n) = n := by
  induction n using Nat.strong_induction_on with
  | _ n ih =>
    rw [Nat.toDigits_eq_if (by decide)]
    split_ifs with hn
    · rw [← List.nil_append [n.digitChar], decimal_append, digitChar_toNat hn]
      simp [decimal]
    · rw [decimal_append, ih (n / 10) (by omega), digitChar_toNat (Nat.mod_lt _ (by decide))]
      omega

def intText (n : Int) : List Char := if 0 ≤ n then Nat.toDigits 10 n.toNat else '-' :: Nat.toDigits 10 n.natAbs

theorem isDigit_toDigits {n : Nat} {c : Char} (h : c ∈ Nat.toDigits 10 n) : c.isDigit = true := by
  induction n using Nat.strong_induction_on with
  | _ n ih =>
    rw [Nat.toDigits_eq_if (by decide)] at h
    split_ifs at h with hn
    · rw [List.mem_singleton.mp h]
      exact digitChar_isDigit hn
    · rcases List.mem_append.mp h with h | h
      · exact ih (n / 10) (by omega) h
      · rw [List.mem_singleton.mp h]
        exact digitChar_isDigit (Nat.mod_lt _ (by decide))

theorem toDigits_ne_nil (n : Nat) : Nat.toDigits 10 n ≠ [] := by
  rw [Nat.toDigits_eq_if (by decide)]
  split_ifs <;> simp

theorem isDigit_ne {c : Char} (h : c.isDigit = true) :
    isSpace c = false ∧ c ≠ '-' ∧ c ≠ '+' ∧ c ≠ '\x00' := by
  refine ⟨?_, ?_, ?_, ?_⟩
  · cases hs : isSpace c with
    | false => rfl
    | true =>
      simp only [isSpace, List.mem_cons, List.not_mem_nil, or_false, decide_eq_true_eq] at hs
      rcases hs with rfl | rfl | rfl | rfl | rfl | rfl <;> cases h
  all_goals
    rintro rfl
    cases h

theorem number_digits {ds : List Char} (hds : ∀ c ∈ ds, c.isDigit = true) (hne : ds ≠ []) :
    number ds = (false, ds) ∧ number ('-' :: ds) = (true, ds) := by
  obtain ⟨d, tail, rfl⟩ := List.exists_cons_of_ne_nil hne
  have hd := isDigit_ne (hds d (List.mem_cons_self ..))
  have hnul : '\x00' ∉ d :: tail := fun h => (isDigit_ne (hds _ h)).2.2.2 rfl
  have hall : (d :: tail).takeWhile Char.isDigit = d :: tail := List.takeWhile_eq_self_iff.mpr hds
  constructor
  · simp only [number, cStr_eq_self hnul, List.dropWhile_cons, hd.1, Bool.false_eq_true, if_false, takeSign, hd.2.1,
      hd.2.2.1, hall]
  · have hnul' : '\x00' ∉ '-' :: d :: tail := by
      intro h
      rcases List.mem_cons.mp h with h | h
      · cases h
      · exact hnul h
    simp only [number, cStr_eq_self hnul']
    have hdash : isSpace '-' = false := by decide
    simp only [List.dropWhile_cons, hdash, Bool.false_eq_true, if_false, takeSign, if_true, hall]

/-- **A time written in front of a `.` reads back.** -/
theorem stoi_toDigits {n : Nat} (h : n < 2 ^ 31) (r : List Char) : stoi (Nat.toDigits 10 n ++ '.' :: r) = .ok n := by
  rw [stoi_append_dot]
  unfold stoi
  rw [(number_digits (fun _ => isDigit_toDigits) (toDigits_ne_nil n)).1]
  simp only [toDigits_ne_nil, if_false, Bool.false_eq_true, decimal_toDigits]
  rw [if_neg (by omega)]

theorem stoi_neg_toDigits {n : Nat} (h : n ≤ 2 ^ 31) (r : List Char) :
    stoi ('-' :: Nat.toDigits 10 n ++ '.' :: r) = .ok (-n) := by
  rw [stoi_append_dot]
  unfold stoi
  rw [(number_digits (fun _ => isDigit_toDigits) (toDigits_ne_nil n)).2]
  simp only [toDigits_ne_nil, if_false, if_true, decimal_toDigits]
  rw [if_neg (by omega)]

example : stoi "  -12abc".toList = .ok (-12) := by decide

end RpiCam
