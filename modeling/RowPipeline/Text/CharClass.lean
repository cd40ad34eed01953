import RowPipeline.Text.PropertyTables

/-!
# Character classes

The classes the tokenizer, the trimming functions and the quoting rule ask for. ASCII characters are
decided directly; the rest goes through the property tables.
-/

namespace RowPipeline.Text

/-- White space is the Unicode property White_Space, 25 characters in all. -/
def isBlank (c : Char) : Bool :=
  let n := c.toNat
  (9 ≤ n && n ≤ 13) || n == 0x20 || n == 0x85 || n == 0xa0 || n == 0x1680 ||
    (0x2000 ≤ n && n ≤ 0x200a) || n == 0x2028 || n == 0x2029 || n == 0x202f ||
    n == 0x205f || n == 0x3000

def isAsciiDigit (c : Char) : Bool := '0' ≤ c && c ≤ '9'

def isAsciiLetter (c : Char) : Bool := ('a' ≤ c && c ≤ 'z') || ('A' ≤ c && c ≤ 'Z')

def isHexDigit (c : Char) : Bool :=
  isAsciiDigit c || ('a' ≤ c && c ≤ 'f') || ('A' ≤ c && c ≤ 'F')

/-- Whether a character has the property a table bounds; `ascii` decides for ASCII characters. -/
def hasProperty (bounds : List Nat) (ascii : Char → Bool) (c : Char) : Bool :=
  if c.toNat < 0x80 then ascii c else inInversionList bounds c.toNat

def isAlphabetic : Char → Bool := hasProperty alphabeticBounds isAsciiLetter

/-- A digit, a letter-like number or any other number. -/
def isNumeric : Char → Bool := hasProperty numericBounds isAsciiDigit

def isAlphanumeric (c : Char) : Bool := isAlphabetic c || isNumeric c

/-- A character that attaches to the one before it. -/
def isGraphemeExtend : Char → Bool := hasProperty graphemeExtendBounds fun _ => false

/-- A character that shows as itself; the space counts, other separators do not. -/
def isPrintable (c : Char) : Bool :=
  if c.toNat < 0x80 then 0x20 ≤ c.toNat && c.toNat < 0x7f
  else !inInversionList invisibleBounds c.toNat

def isCased : Char → Bool := hasProperty casedBounds isAsciiLetter

/-- A character that the search for neighbouring letters skips. -/
def isCaseIgnorable : Char → Bool :=
  hasProperty caseIgnorableBounds fun c => c ∈ ['\'', '.', ':', '^'] || c.toNat == 0x60

/-- Cut blanks off both ends. -/
def trimBlanks (s : String) : String :=
  String.ofList (((s.toList.dropWhile isBlank).reverse.dropWhile isBlank).reverse)

/-- Two texts that differ at most in the case of ASCII letters. -/
def sameIgnoringCase (a b : String) : Bool :=
  a.toList.map Char.toLower == b.toList.map Char.toLower

def asciiLower (s : String) : String := String.ofList (s.toList.map Char.toLower)

def asciiUpper (s : String) : String := String.ofList (s.toList.map Char.toUpper)

end RowPipeline.Text
