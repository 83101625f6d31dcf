import Mathlib.Algebra.Group.Int.Defs
import Mathlib.Algebra.Group.Nat.Defs
import Mathlib.Data.List.TakeWhile
import HPLinuxServer.Memory.Buffer

/-!
# The C string functions

The functions of `string.h`, `strings.h` and `stdlib.h` that the parser calls, over
the bytes of a string. Positions are counted from its start.
-/

set_option autoImplicit false

namespace HPLinuxServer.Memory

/-- The bytes of characters of ASCII. -/
def asciiChars (chars : List Char) : Text :=
  chars.map fun char => UInt8.ofNat char.toNat

/-- The bytes of a literal. -/
def ascii (literal : String) : Text := asciiChars literal.toList

/-- `tolower` in the C locale. -/
def toLower (byte : UInt8) : UInt8 :=
  if 65 ≤ byte ∧ byte ≤ 90 then byte + 32 else byte

/-- `isspace` in the C locale. -/
def isSpace (byte : UInt8) : Bool := byte = 32 ∨ 9 ≤ byte ∧ byte ≤ 13

def isDigit (byte : UInt8) : Bool := 48 ≤ byte ∧ byte ≤ 57

/-- `strspn(text, accept)` -/
def strspn (text accept : Text) : Nat :=
  (text.takeWhile fun byte => byte ∈ accept).length

/-- The position of the first byte of `reject`, or of the end. -/
def strcspn (text reject : Text) : Nat :=
  (text.takeWhile fun byte => byte ∉ reject).length

/-- `strpbrk(text, accept)` -/
def strpbrk (text accept : Text) : Option Nat :=
  if strcspn text accept < text.length then some (strcspn text accept) else none

/-- `strchr(text, byte)` -/
def strchr (text : Text) (byte : UInt8) : Option Nat := strpbrk text [byte]

/-- `strcasecmp(text, other) == 0` -/
def strcasecmpEq (text other : Text) : Bool :=
  text.map toLower = other.map toLower

/-- `strncasecmp(text, other, count) == 0` -/
def strncasecmpEq (text other : Text) (count : Nat) : Bool :=
  strcasecmpEq (text.take count) (other.take count)

/-- The value of the digits at the start. -/
def leadingNumber (text : Text) : Nat :=
  (text.takeWhile isDigit).foldl (fun value digit => value * 10 + (digit.toNat - 48)) 0

/-- `atol`, a `long` of 64 bits; a number outside of its range gives the nearest bound. -/
def atol (text : Text) : Int :=
  let value : Int := match text.dropWhile isSpace with
    | 45 :: digits => -leadingNumber digits
    | 43 :: digits => leadingNumber digits
    | digits => leadingNumber digits
  max (-2 ^ 63) (min (2 ^ 63 - 1) value)

/-- A `long` stored in an `int`. -/
def toInt (value : Int) : Int := Int.bmod value (2 ^ 32)

/-- What `printf` writes for `%d`. -/
def decimal (value : Int) : Text :=
  (if value < 0 then ascii "-" else []) ++ asciiChars (Nat.toDigits 10 value.natAbs)

theorem digit_bounds {char : Char} (digit : char.isDigit = true) :
    48 ≤ char.toNat ∧ char.toNat ≤ 57 := by
  simp only [Char.isDigit, Bool.and_eq_true, decide_eq_true_eq] at digit
  exact ⟨digit.1, digit.2⟩

theorem toNat_ofChar {char : Char} (digit : char.isDigit = true) :
    (UInt8.ofNat char.toNat).toNat = char.toNat := by
  have bounds := digit_bounds digit
  simp
  omega

theorem isDigit_ofChar {char : Char} (digit : char.isDigit = true) :
    isDigit (UInt8.ofNat char.toNat) = true := by
  unfold isDigit
  simp [UInt8.le_iff_toNat_le, toNat_ofChar digit, digit_bounds digit]

theorem mem_decimal {value : Int} {byte : UInt8} (member : byte ∈ decimal value) :
    byte = 45 ∨ isDigit byte = true := by
  rcases List.mem_append.mp member with sign | digits
  · left
    split at sign
    · simpa [ascii, asciiChars] using sign
    · exact nomatch sign
  · right
    obtain ⟨char, inDigits, rfl⟩ := List.mem_map.mp digits
    exact isDigit_ofChar (Nat.isDigit_of_mem_toDigits (by decide) (by decide) inDigits)

/-! ## Numbers that are written and read back -/

theorem leadingNumber_toDigits (number : Nat) {rest : Text}
    (stop : ∀ byte ∈ rest.head?, isDigit byte = false) :
    leadingNumber (asciiChars (Nat.toDigits 10 number) ++ rest) = number := by
  have digits : ∀ char ∈ Nat.toDigits 10 number, char.isDigit = true := fun _ member =>
    Nat.isDigit_of_mem_toDigits (by decide) (by decide) member
  have folds (chars : List Char) (all : ∀ char ∈ chars, char.isDigit = true) (value : Nat) :
      (asciiChars chars).foldl (fun value digit => value * 10 + (digit.toNat - 48)) value =
        Nat.ofDigitChars 10 chars value := by
    induction chars generalizing value with
    | nil => rfl
    | cons char chars ih =>
        have byte := toNat_ofChar (all char List.mem_cons_self)
        have later := ih fun other member => all other (List.mem_cons_of_mem _ member)
        rw [Nat.ofDigitChars_cons, ← later]
        simp only [asciiChars, List.map_cons, List.foldl_cons, byte, Nat.mul_comm]
        rfl
  have inDigits : ∀ byte ∈ asciiChars (Nat.toDigits 10 number), isDigit byte = true := by
    intro byte member
    obtain ⟨char, isChar, rfl⟩ := List.mem_map.mp member
    exact isDigit_ofChar (digits char isChar)
  have none_left : rest.takeWhile isDigit = [] := by
    cases rest with
    | nil => rfl
    | cons byte rest => rw [List.takeWhile_cons_of_neg (by simp [stop byte rfl])]
  unfold leadingNumber
  rw [List.takeWhile_append_of_pos inDigits, none_left, List.append_nil, folds _ digits,
    Nat.ofDigitChars_ten_toDigits]

theorem decimal_injective {first second : Int} (same : decimal first = decimal second) :
    first = second := by
  have unsigned (value : Int) : 45 ∉ asciiChars (Nat.toDigits 10 value.natAbs) := by
    intro member
    obtain ⟨char, isChar, byte⟩ := List.mem_map.mp member
    have digit := isDigit_ofChar
      (Nat.isDigit_of_mem_toDigits (by decide) (by decide) isChar : char.isDigit = true)
    rw [byte] at digit
    exact absurd digit (by decide)
  have absolute {one other : Int} (digits : asciiChars (Nat.toDigits 10 one.natAbs) =
      asciiChars (Nat.toDigits 10 other.natAbs)) : one.natAbs = other.natAbs := by
    have left := @leadingNumber_toDigits one.natAbs [] (by simp)
    have right := @leadingNumber_toDigits other.natAbs [] (by simp)
    rw [digits] at left
    exact left.symm.trans right
  have sign : ascii "-" = [45] := by decide
  unfold decimal at same
  rw [sign] at same
  by_cases firstNegative : first < 0
  · by_cases secondNegative : second < 0
    · rw [if_pos firstNegative, if_pos secondNegative] at same
      have := absolute (List.append_cancel_left same)
      omega
    · rw [if_pos firstNegative, if_neg secondNegative] at same
      rw [List.nil_append] at same
      exact absurd (same ▸ List.mem_cons_self) (unsigned second)
  · by_cases secondNegative : second < 0
    · rw [if_neg firstNegative, if_pos secondNegative] at same
      rw [List.nil_append] at same
      exact absurd (same.symm ▸ List.mem_cons_self) (unsigned first)
    · rw [if_neg firstNegative, if_neg secondNegative] at same
      have := absolute same
      omega

theorem length_decimal_le {value : Int} (low : -2147483648 ≤ value) (high : value ≤ 2147483647) :
    (decimal value).length ≤ 11 := by
  have digits : (Nat.toDigits 10 value.natAbs).length ≤ 10 :=
    (Nat.length_toDigits_le_iff (by decide) (by decide)).mpr (by omega)
  have sign : (if value < 0 then ascii "-" else []).length ≤ 1 := by
    split <;> decide
  unfold decimal asciiChars
  rw [List.length_append, List.length_map]
  omega

theorem toInt_range (value : Int) : -2147483648 ≤ toInt value ∧ toInt value ≤ 2147483647 := by
  have low := Int.le_bmod (x := value) (m := 4294967296) (by decide)
  have high := Int.bmod_lt (x := value) (m := 4294967296) (by decide)
  have same : toInt value = value.bmod 4294967296 := rfl
  omega

/-- An `int` comes through the conversion unchanged, and nothing else does. -/
theorem toInt_eq_iff {value : Int} :
    toInt value = value ↔ -2147483648 ≤ value ∧ value ≤ 2147483647 := by
  constructor
  · intro same
    exact same ▸ toInt_range value
  · intro range
    have same : toInt value = value.bmod 4294967296 := rfl
    rw [same]
    exact Int.bmod_eq_of_le (by omega) (by omega)

/-- The number that digits stand for. -/
def digitsNumber (digits : Text) : Nat :=
  digits.foldl (fun number digit => number * 10 + (digit.toNat - 48)) 0

/-- A number in decimal, with or without a sign. -/
inductive DecimalNumber : Text → Int → Prop where
  | unsigned {digits : Text} : digits ≠ [] → (∀ digit ∈ digits, isDigit digit = true) →
      DecimalNumber digits (digitsNumber digits)
  | positive {digits : Text} : digits ≠ [] → (∀ digit ∈ digits, isDigit digit = true) →
      DecimalNumber (43 :: digits) (digitsNumber digits)
  | negative {digits : Text} : digits ≠ [] → (∀ digit ∈ digits, isDigit digit = true) →
      DecimalNumber (45 :: digits) (-digitsNumber digits)

theorem leadingNumber_digits {digits : Text} (all : ∀ digit ∈ digits, isDigit digit = true) :
    leadingNumber digits = digitsNumber digits := by
  have taken : digits.takeWhile isDigit = digits := List.takeWhile_eq_self_iff.mpr all
  unfold leadingNumber digitsNumber
  rw [taken]

theorem digit_other {digit : UInt8} (isDigit : isDigit digit = true) :
    isSpace digit = false ∧ digit ≠ 43 ∧ digit ≠ 45 := by
  have bounds : 48 ≤ digit.toNat ∧ digit.toNat ≤ 57 := by
    simpa [Memory.isDigit, UInt8.le_iff_toNat_le] using isDigit
  refine ⟨?_, ?_, ?_⟩
  · simp only [isSpace, decide_eq_false_iff_not, ← UInt8.toNat_inj, UInt8.le_iff_toNat_le]
    simp
    omega
  · rintro rfl
    exact absurd bounds (by decide)
  · rintro rfl
    exact absurd bounds (by decide)

theorem clamp_long {number : Int} (low : -2 ^ 63 ≤ number) (high : number ≤ 2 ^ 63 - 1) :
    max (-2 ^ 63) (min (2 ^ 63 - 1) number) = number := by
  rw [Int.min_eq_right high, Int.max_eq_right low]

/-- `atol` reads a number, as far as it is a `long`. -/
theorem atol_decimal {value : Text} {number : Int} (decimal : DecimalNumber value number)
    (low : -2 ^ 63 ≤ number) (high : number ≤ 2 ^ 63 - 1) : atol value = number := by
  cases decimal with
  | unsigned started all =>
      cases value with
      | nil => exact absurd rfl started
      | cons digit rest =>
          obtain ⟨notSpace, notPlus, notMinus⟩ := digit_other (all digit List.mem_cons_self)
          have here : (digit :: rest).dropWhile isSpace = digit :: rest :=
            List.dropWhile_cons_of_neg (by simp [notSpace])
          unfold atol
          rw [here]
          split
          · next same => exact absurd (List.cons.inj same).1 notMinus
          · next same => exact absurd (List.cons.inj same).1 notPlus
          · rw [leadingNumber_digits all]
            exact clamp_long low high
  | @positive digits started all =>
      have read : atol (43 :: digits) =
          max (-2 ^ 63) (min (2 ^ 63 - 1) (leadingNumber digits : Int)) := rfl
      rw [read, leadingNumber_digits all]
      exact clamp_long low high
  | @negative digits started all =>
      have read : atol (45 :: digits) =
          max (-2 ^ 63) (min (2 ^ 63 - 1) (-(leadingNumber digits : Int))) := rfl
      rw [read, leadingNumber_digits all]
      exact clamp_long low high

/-- A text that is compared up to the length of a literal begins with it. -/
theorem strncasecmpEq_iff {text literal : Text} {count : Nat} (whole : literal.length = count) :
    strncasecmpEq text literal count = true ↔ literal.map toLower <+: text.map toLower := by
  unfold strncasecmpEq strcasecmpEq
  rw [decide_eq_true_iff, List.prefix_iff_eq_take, List.length_map, whole, List.map_take,
    List.take_of_length_le (Nat.le_of_eq whole)]
  exact eq_comm

section

variable {front rest text accept : Text} {byte : UInt8}

theorem strcspn_append (outside : ∀ byte ∈ front, byte ∉ accept)
    (stop : ∀ byte ∈ rest.head?, byte ∈ accept) : strcspn (front ++ rest) accept = front.length := by
  unfold strcspn
  rw [List.takeWhile_append_of_pos fun byte member => decide_eq_true (outside byte member)]
  cases rest with
  | nil => simp
  | cons byte rest => simp [stop byte rfl]

theorem strspn_append (inside : ∀ byte ∈ front, byte ∈ accept)
    (stop : ∀ byte ∈ rest.head?, byte ∉ accept) : strspn (front ++ rest) accept = front.length := by
  unfold strspn
  rw [List.takeWhile_append_of_pos fun byte member => decide_eq_true (inside byte member)]
  cases rest with
  | nil => simp
  | cons byte rest => simp [stop byte rfl]

theorem strpbrk_append (outside : ∀ byte ∈ front, byte ∉ accept) (found : byte ∈ accept) :
    strpbrk (front ++ byte :: rest) accept = some front.length := by
  unfold strpbrk
  rw [strcspn_append outside (by simpa using found), if_pos (by simp)]

theorem strpbrk_lt {position : Nat} (found : strpbrk text accept = some position) :
    position < text.length := by
  unfold strpbrk at found
  split at found
  · next inside =>
      cases found
      exact inside
  · cases found

theorem strspn_le (text accept : Text) : strspn text accept ≤ text.length :=
  (List.takeWhile_sublist _).length_le

theorem strpbrk_none (outside : ∀ byte ∈ text, byte ∉ accept) : strpbrk text accept = none := by
  have all := strcspn_append outside (by simp : ∀ byte ∈ ([] : Text).head?, byte ∈ accept)
  rw [List.append_nil] at all
  unfold strpbrk
  rw [all, if_neg (Nat.lt_irrefl _)]

/-- Cut a text at the first byte of `accept`, if there is one. -/
theorem cut_at (text accept : Text) :
    (∀ byte ∈ text, byte ∉ accept) ∨
      ∃ front byte rest, text = front ++ byte :: rest ∧ (∀ byte ∈ front, byte ∉ accept) ∧
        byte ∈ accept := by
  induction text with
  | nil => left; simp
  | cons first text ih =>
      by_cases found : first ∈ accept
      · right
        exact ⟨[], first, text, rfl, by simp, found⟩
      · rcases ih with none | ⟨front, byte, rest, rfl, outside, stop⟩
        · left
          simpa [found] using none
        · right
          exact ⟨first :: front, byte, rest, rfl, by simpa [found] using outside, stop⟩

/-- Cut a text behind the bytes of `accept` that it starts with. -/
theorem cut_behind (text accept : Text) :
    ∃ front rest, text = front ++ rest ∧ (∀ byte ∈ front, byte ∈ accept) ∧
      ∀ byte ∈ rest.head?, byte ∉ accept := by
  induction text with
  | nil => exact ⟨[], [], rfl, by simp, by simp⟩
  | cons first text ih =>
      by_cases found : first ∈ accept
      · obtain ⟨front, rest, rfl, inside, stop⟩ := ih
        exact ⟨first :: front, rest, rfl, by simpa [found] using inside, stop⟩
      · exact ⟨[], first :: text, rfl, by simp, by simpa using found⟩

end

end HPLinuxServer.Memory
