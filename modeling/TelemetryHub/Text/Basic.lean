/-!
# Characters, blanks, digits and lines

The characters with the Unicode property `White_Space`, and the text that is left when they are
removed from both ends: nothing is left exactly of a blank text (`trim_eq_nil_iff`). The decimal
digits of all scripts, and the two hexadecimal digits of a byte, which are read back as it was written
(`ofHex?_hex`). A line ends with LF or CR LF: `lines` cuts a text into its lines without their ends, and
`stripTerminator` removes the end of one line from bytes.
-/

namespace TelemetryHub.Text

/-! ## Blanks -/

/-- The characters with the property `White_Space`: the ASCII blanks, the two Latin-1 ones, and the
spaces and separators beyond. -/
def isBlank (c : Char) : Bool :=
  let n := c.toNat
  (9 ≤ n && n ≤ 13) || n == 0x20 || n == 0x85 || n == 0xA0 || n == 0x1680 ||
    (0x2000 ≤ n && n ≤ 0x200A) || n == 0x2028 || n == 0x2029 || n == 0x202F ||
    n == 0x205F || n == 0x3000

def trimEnd (cs : List Char) : List Char := (cs.reverse.dropWhile isBlank).reverse

def trim (cs : List Char) : List Char := trimEnd (cs.dropWhile isBlank)

theorem dropBlanks_eq_nil_iff (cs : List Char) :
    cs.dropWhile isBlank = [] ↔ ∀ c ∈ cs, isBlank c = true := by
  induction cs with
  | nil => simp
  | cons c cs ih => cases h : isBlank c <;> simp [h, ih]

theorem trimEnd_eq_nil_iff (cs : List Char) : trimEnd cs = [] ↔ ∀ c ∈ cs, isBlank c = true := by
  simp only [trimEnd, List.reverse_eq_nil_iff, dropBlanks_eq_nil_iff, List.mem_reverse]

theorem trim_eq_nil_iff (cs : List Char) : trim cs = [] ↔ ∀ c ∈ cs, isBlank c = true := by
  induction cs with
  | nil => simp [trim, trimEnd]
  | cons c cs ih =>
    cases h : isBlank c
    · simp [trim, trimEnd_eq_nil_iff, h]
    · simpa [trim, h] using ih

/-! ## Decimal digits -/

/-- The zeros of the decimal digit runs. -/
def digitZeros : List Nat :=
  [0x30, 0x660, 0x6F0, 0x7C0, 0x966, 0x9E6, 0xA66, 0xAE6, 0xB66, 0xBE6, 0xC66, 0xCE6, 0xD66,
    0xDE6, 0xE50, 0xED0, 0xF20, 0x1040, 0x1090, 0x17E0, 0x1810, 0x1946, 0x19D0, 0x1A80, 0x1A90,
    0x1B50, 0x1BB0, 0x1C40, 0x1C50, 0xA620, 0xA8D0, 0xA900, 0xA9D0, 0xA9F0, 0xAA50, 0xABF0,
    0xFF10, 0x104A0, 0x10D30, 0x10D40, 0x11066, 0x110F0, 0x11136, 0x111D0, 0x112F0, 0x11450,
    0x114D0, 0x11650, 0x116C0, 0x116D0, 0x116DA, 0x11730, 0x118E0, 0x11950, 0x11BF0, 0x11C50,
    0x11D50, 0x11DA0, 0x11F50, 0x16130, 0x16A60, 0x16AC0, 0x16B50, 0x16D70, 0x1CCF0, 0x1D7CE,
    0x1D7D8, 0x1D7E2, 0x1D7EC, 0x1D7F6, 0x1E140, 0x1E2F0, 0x1E4F0, 0x1E5F1, 0x1E950, 0x1FBF0]

def isDigit (c : Char) : Bool :=
  if c.toNat < 0x80 then c.isDigit
  else digitZeros.any fun first => first ≤ c.toNat && c.toNat ≤ first + 9

def digits (n : Nat) : List Char := Nat.toDigits 10 n

/-- The decimal form of an integer. -/
def integer (i : Int) : List Char :=
  match i with
  | .ofNat n => digits n
  | .negSucc n => '-' :: digits (n + 1)

/-! ## Hexadecimal digits -/

def hexDigit (n : Nat) : Char := Nat.digitChar n

def hexValue? (c : Char) : Option Nat :=
  if c.isDigit then some (c.toNat - '0'.toNat)
  else if 'a' ≤ c && c ≤ 'f' then some (c.toNat - 'a'.toNat + 10)
  else if 'A' ≤ c && c ≤ 'F' then some (c.toNat - 'A'.toNat + 10)
  else none

def hex (bytes : List UInt8) : List Char :=
  bytes.flatMap fun byte => [hexDigit (byte.toNat / 16), hexDigit (byte.toNat % 16)]

/-- The bytes that digits are; there are two for every byte. -/
def ofHex? : List Char → Option (List UInt8)
  | [] => some []
  | [_] => none
  | high :: low :: rest =>
    match hexValue? high, hexValue? low, ofHex? rest with
    | some high, some low, some bytes => some (UInt8.ofNat (high * 16 + low) :: bytes)
    | _, _, _ => none

theorem hexValue?_hexDigit {n : Nat} (small : n < 16) : hexValue? (hexDigit n) = some n := by
  have all : ∀ m < 16, hexValue? (hexDigit m) = some m := by decide
  exact all n small

theorem ofHex?_hex (bytes : List UInt8) : ofHex? (hex bytes) = some bytes := by
  induction bytes with
  | nil => rfl
  | cons byte bytes ih =>
    have bound : byte.toNat < 256 := byte.toNat_lt
    have high : byte.toNat / 16 < 16 := by omega
    have low : byte.toNat % 16 < 16 := by omega
    have whole : byte.toNat / 16 * 16 + byte.toNat % 16 = byte.toNat := by omega
    have step : hex (byte :: bytes) =
        hexDigit (byte.toNat / 16) :: hexDigit (byte.toNat % 16) :: hex bytes := rfl
    rw [step, ofHex?, hexValue?_hexDigit high, hexValue?_hexDigit low, ih]
    simp only [whole, UInt8.ofNat_toNat]

/-! ## Lines -/

/-- Continue a cut into lines; `current` holds the open line, last character first. A CR is part of
the line's end only in front of an LF, and nothing after the last LF is no line. -/
def linesFrom (current : List Char) : List Char → List (List Char)
  | [] => if current.isEmpty then [] else [current.reverse]
  | c :: rest =>
    if c = '\n' then
      (match current with
        | '\r' :: earlier => earlier
        | _ => current).reverse :: linesFrom [] rest
    else linesFrom (c :: current) rest

def lines (text : List Char) : List (List Char) := linesFrom [] text

/-- Bytes without exactly one LF or CR LF at their end. -/
def stripTerminator (bytes : List UInt8) : List UInt8 :=
  match bytes.reverse with
  | 0x0A :: 0x0D :: front => front.reverse
  | 0x0A :: front => front.reverse
  | _ => bytes

theorem stripTerminator_lf (bytes : List UInt8) (last : bytes.getLast? ≠ some 0x0D) :
    stripTerminator (bytes ++ [0x0A]) = bytes := by
  unfold stripTerminator
  rw [List.reverse_append]
  cases h : bytes.reverse with
  | nil => simp at h; simp [h]
  | cons b front =>
    have : bytes = (b :: front).reverse := by rw [← h, List.reverse_reverse]
    subst this
    simp at last
    simp [last]

end TelemetryHub.Text
