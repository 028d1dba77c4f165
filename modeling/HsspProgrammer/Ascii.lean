import Mathlib.Tactic.Common

/-! Byte strings and the ASCII characters that occur in them. Hexadecimal digits are
read in either letter case and written in lower case. -/
namespace HsspProgrammer.Ascii

abbrev Bytes := List UInt8

@[simp] abbrev tab : UInt8 := 0x09
@[simp] abbrev newline : UInt8 := 0x0a
@[simp] abbrev carriageReturn : UInt8 := 0x0d
@[simp] abbrev space : UInt8 := 0x20
@[simp] abbrev plus : UInt8 := 0x2b
@[simp] abbrev minus : UInt8 := 0x2d
@[simp] abbrev zero : UInt8 := 0x30
@[simp] abbrev one : UInt8 := 0x31
@[simp] abbrev two : UInt8 := 0x32
@[simp] abbrev nine : UInt8 := 0x39
@[simp] abbrev colon : UInt8 := 0x3a
@[simp] abbrev upperA : UInt8 := 0x41
@[simp] abbrev upperF : UInt8 := 0x46
@[simp] abbrev upperX : UInt8 := 0x58
@[simp] abbrev a : UInt8 := 0x61
@[simp] abbrev b : UInt8 := 0x62
@[simp] abbrev c : UInt8 := 0x63
@[simp] abbrev d : UInt8 := 0x64
@[simp] abbrev e : UInt8 := 0x65
@[simp] abbrev f : UInt8 := 0x66
@[simp] abbrev g : UInt8 := 0x67
@[simp] abbrev x : UInt8 := 0x78
@[simp] abbrev z : UInt8 := 0x7a

def isSpace (ch : UInt8) : Bool :=
  (tab ≤ ch && ch ≤ carriageReturn) || ch == space || ch == 0x85 || ch == 0xa0

def hexDigit (ch : UInt8) : Option Nat :=
  if zero ≤ ch ∧ ch ≤ nine then some (ch - zero).toNat
  else if a ≤ ch ∧ ch ≤ f then some ((ch - a).toNat + 10)
  else if upperA ≤ ch ∧ ch ≤ upperF then some ((ch - upperA).toNat + 10)
  else none

def digits : Nat → Bytes → Option Nat
  | value, [] => some value
  | value, ch :: rest => do
      let d ← hexDigit ch
      digits (16 * value + d) rest

def digit (n : Nat) : UInt8 := if n < 10 then zero + n.toUInt8 else a + (n - 10).toUInt8

def hexByte (v : UInt8) : Bytes := [digit (v.toNat / 16), digit (v.toNat % 16)]

def hexBytes (bytes : Bytes) : Bytes := bytes.flatMap hexByte

/-- The letter case of a hexadecimal digit is forgotten, every other byte is kept. -/
def foldCase (ch : UInt8) : UInt8 := if upperA ≤ ch ∧ ch ≤ upperF then ch + 0x20 else ch

def upperCase (ch : UInt8) : UInt8 := if a ≤ ch ∧ ch ≤ f then ch - 0x20 else ch

/- Any mixture of letter cases: the choice is made anew at every position. -/
def cased (upper : Nat → Bool) (text : Bytes) : Bytes :=
  text.mapIdx (fun i ch => if upper i then upperCase ch else ch)

section
/- Facts about one byte are decided over all 256 of them. -/
theorem forallByte {p : UInt8 → Prop} [DecidablePred p]
    (all : ∀ n : Fin 256, p (UInt8.ofFin n)) (ch : UInt8) : p ch := by
  have h := all ch.toFin
  simpa using h

theorem hexDigitDigit : ∀ n < 16, hexDigit (digit n) = some n := by decide

theorem digitNotSpace : ∀ n < 16, isSpace (digit n) = false := by decide

theorem digitNotSign : ∀ n < 16, digit n ≠ plus ∧ digit n ≠ minus := by decide

theorem digitNotX : ∀ n < 16, digit n ≠ x ∧ digit n ≠ upperX := by decide

theorem digitNotNewline : ∀ n < 16, digit n ≠ newline ∧ digit n ≠ carriageReturn := by decide

theorem digitFolded : ∀ n < 16, foldCase (digit n) = digit n := by decide

theorem foldHexDigit (ch : UInt8) : hexDigit (foldCase ch) = hexDigit ch :=
  forallByte (p := fun ch => hexDigit (foldCase ch) = hexDigit ch) (by decide +kernel) ch

theorem foldSpace (ch : UInt8) : isSpace (foldCase ch) = isSpace ch :=
  forallByte (p := fun ch => isSpace (foldCase ch) = isSpace ch) (by decide +kernel) ch

theorem foldUpper (ch : UInt8) : foldCase (upperCase ch) = foldCase ch :=
  forallByte (p := fun ch => foldCase (upperCase ch) = foldCase ch) (by decide +kernel) ch

theorem foldControl (ch : UInt8) :
    (foldCase ch = newline ↔ ch = newline) ∧ (foldCase ch = carriageReturn ↔ ch = carriageReturn) ∧
    (foldCase ch = plus ↔ ch = plus) ∧ (foldCase ch = minus ↔ ch = minus) ∧
    (foldCase ch = colon ↔ ch = colon) ∧ (foldCase ch = zero ↔ ch = zero) ∧
    (foldCase ch = x ↔ ch = x) ∧ (foldCase ch = upperX ↔ ch = upperX) :=
  forallByte (p := fun ch => (foldCase ch = newline ↔ ch = newline) ∧
    (foldCase ch = carriageReturn ↔ ch = carriageReturn) ∧ (foldCase ch = plus ↔ ch = plus) ∧
    (foldCase ch = minus ↔ ch = minus) ∧ (foldCase ch = colon ↔ ch = colon) ∧ (foldCase ch = zero ↔ ch = zero) ∧
    (foldCase ch = x ↔ ch = x) ∧ (foldCase ch = upperX ↔ ch = upperX)) (by decide +kernel) ch

theorem foldCased (upper : Nat → Bool) (text : Bytes) :
    (cased upper text).map foldCase = text.map foldCase := by
  apply List.ext_getElem
  · simp [cased]
  · intro i _ _
    simp only [cased, List.getElem_map, List.getElem_mapIdx]
    split
    · exact foldUpper _
    · rfl

end

theorem foldDigits (value : Nat) (text : Bytes) : digits value (text.map foldCase) = digits value text := by
  induction text generalizing value with
  | nil => rfl
  | cons ch rest ih => simp only [List.map_cons, digits, foldHexDigit, ih]

theorem hexByteLength (v : UInt8) : (hexByte v).length = 2 := rfl

theorem hexByteFolded (v : UInt8) : (hexByte v).map foldCase = hexByte v := by
  have bound := v.toNat_lt
  simp only [hexByte, List.map_cons, List.map_nil,
    digitFolded (v.toNat / 16) (by omega), digitFolded (v.toNat % 16) (by omega)]

theorem hexBytesFolded (bytes : Bytes) : (hexBytes bytes).map foldCase = hexBytes bytes := by
  induction bytes with
  | nil => rfl
  | cons v rest ih =>
    simp only [hexBytes, List.flatMap_cons, List.map_append, hexByteFolded] at *
    rw [ih]

theorem hexBytesLength (bytes : Bytes) : (hexBytes bytes).length = 2 * bytes.length := by
  induction bytes with
  | nil => rfl
  | cons v rest ih =>
    simp only [hexBytes, List.flatMap_cons, List.length_append, hexByteLength, List.length_cons] at *
    omega

/-- Reading the digits of a byte string continues the value base 256. -/
theorem digitsHexBytes (value : Nat) (bytes : Bytes) :
    digits value (hexBytes bytes) = some (bytes.foldl (fun n v => 256 * n + v.toNat) value) := by
  induction bytes generalizing value with
  | nil => rfl
  | cons v rest ih =>
    have bound := v.toNat_lt
    have split : 16 * (16 * value + v.toNat / 16) + v.toNat % 16 = 256 * value + v.toNat := by omega
    change digits value (hexByte v ++ hexBytes rest) = _
    simp only [hexByte, List.cons_append, List.nil_append, digits,
      hexDigitDigit (v.toNat / 16) (by omega), hexDigitDigit (v.toNat % 16) (by omega),
      bind, Option.bind, split, ih, List.foldl_cons]

theorem hexBytesChar {bytes : Bytes} {ch : UInt8} (inside : ch ∈ hexBytes bytes) :
    ∃ n < 16, ch = digit n := by
  obtain ⟨v,_,pair⟩ := List.mem_flatMap.mp inside
  have bound := v.toNat_lt
  simp only [hexByte, List.mem_cons, List.not_mem_nil, or_false] at pair
  rcases pair with same | same
  · exact ⟨v.toNat / 16,by omega,same⟩
  · exact ⟨v.toNat % 16,by omega,same⟩

end HsspProgrammer.Ascii
