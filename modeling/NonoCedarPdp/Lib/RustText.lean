import NonoCedarPdp.Lib.Utf8

/-!
The parts of Rust's string library the daemon formats and inspects text with.
Debug formatting consults two Unicode tables that are not needed below ASCII;
they are a parameter, pinned on the ASCII range.
-/
namespace RustText

structure UnicodeTables where
  graphemeExtend : Char → Bool
  printable : Char → Bool
  graphemeExtend_ascii : ∀ c : Char, c.toNat < 128 → graphemeExtend c = false
  printable_ascii : ∀ c : Char, c.toNat < 128 →
    printable c = decide (0x20 ≤ c.toNat ∧ c.toNat < 0x7f)

/-- `char::is_control`: the general category Cc. -/
def isControl (c : Char) : Bool :=
  c.toNat < 0x20 || (0x7f ≤ c.toNat && c.toNat ≤ 0x9f)

/-- `char::is_whitespace`: the property White_Space. -/
def isWhitespace (c : Char) : Bool :=
  (0x09 ≤ c.toNat && c.toNat ≤ 0x0d) || c.toNat == 0x20 || c.toNat == 0x85 ||
    c.toNat == 0xa0 || c.toNat == 0x1680 || (0x2000 ≤ c.toNat && c.toNat ≤ 0x200a) ||
    c.toNat == 0x2028 || c.toNat == 0x2029 || c.toNat == 0x202f || c.toNat == 0x205f ||
    c.toNat == 0x3000

/-- `str::trim`. -/
def trim (s : String) : String :=
  String.ofList
    (((s.toList.dropWhile isWhitespace).reverse.dropWhile isWhitespace).reverse)

def toAsciiLowercase (c : Char) : Char :=
  if 'A'.toNat ≤ c.toNat ∧ c.toNat ≤ 'Z'.toNat then Char.ofNat (c.toNat + 32) else c

/-- `str::eq_ignore_ascii_case`. -/
def eqIgnoreAsciiCase (s t : String) : Bool :=
  s.toList.map toAsciiLowercase == t.toList.map toAsciiLowercase

/-- The first piece of `str::split` at a character. -/
def splitFirst (sep : Char) (s : String) : String :=
  String.ofList (s.toList.takeWhile (· ≠ sep))

/-- `str::replace` of a character. -/
def replaceChar (old : Char) (new : String) (s : String) : String :=
  String.join (s.toList.map fun c => if c = old then new else String.singleton c)

def startsWithChar (s : String) (c : Char) : Bool := s.toList.head? == some c

/-- The format `{:x}`, padded with zeros as in `{:04x}`. -/
def lowerHex (width n : Nat) : String :=
  let digits := Nat.toDigits 16 n
  String.ofList (List.replicate (width - digits.length) '0' ++ digits)

/-- The format `{:04o}`. -/
def paddedOctal (n : Nat) : String :=
  let digits := Nat.toDigits 8 n
  String.ofList (List.replicate (4 - digits.length) '0' ++ digits)

/-- `char::escape_debug` as the `Debug` of `str` applies it: a single quote stays,
and a grapheme extender is escaped wherever it stands. -/
def escapeDebug (tables : UnicodeTables) (c : Char) : String :=
  if c = '\x00' then "\\0"
  else if c = '\t' then "\\t"
  else if c = '\r' then "\\r"
  else if c = '\n' then "\\n"
  else if c = '\\' then "\\\\"
  else if c = '"' then "\\\""
  else if tables.graphemeExtend c then "\\u\x7b" ++ lowerHex 1 c.toNat ++ "\x7d"
  else if tables.printable c then String.singleton c
  else "\\u\x7b" ++ lowerHex 1 c.toNat ++ "\x7d"

/-- The format `{:?}` of a string. -/
def debugStr (tables : UnicodeTables) (s : String) : String :=
  "\"" ++ String.join (s.toList.map (escapeDebug tables)) ++ "\""

/-! ## Lossy decoding -/

def isContinuation (b : UInt8) : Bool := 0x80 ≤ b && b ≤ 0xbf

/-- How many bytes of an ill-formed head one U+FFFD replaces: the longest prefix
that some well-formed sequence starts with, and at least one byte. -/
def illFormedLength : List UInt8 → Nat
  | a :: b :: rest =>
      let second :=
        if a = 0xe0 then 0xa0 ≤ b && b ≤ 0xbf
        else if a = 0xed then 0x80 ≤ b && b ≤ 0x9f
        else if a = 0xf0 then 0x90 ≤ b && b ≤ 0xbf
        else if a = 0xf4 then 0x80 ≤ b && b ≤ 0x8f
        else 0xe1 ≤ a && a ≤ 0xf3 && isContinuation b
      let third := match rest with
        | c :: _ => 0xf0 ≤ a && isContinuation c
        | [] => false
      if second then (if third then 3 else 2) else 1
  | _ => 1

def fromUtf8LossyFrom : Nat → List UInt8 → List Char
  | 0, _ => []
  | _, [] => []
  | fuel + 1, b :: rest =>
      match (b :: rest).toByteArray.utf8DecodeChar? 0 with
      | some c => c :: fromUtf8LossyFrom fuel ((b :: rest).drop c.utf8Size)
      | none =>
          '\ufffd' :: fromUtf8LossyFrom fuel
            ((b :: rest).drop (illFormedLength (b :: rest)))

/-- `String::from_utf8_lossy`. Every step consumes a byte, so the length is fuel
enough. -/
def fromUtf8Lossy (b : List UInt8) : String :=
  String.ofList (fromUtf8LossyFrom b.length b)

example : fromUtf8Lossy [0x61, 0xff, 0xe2, 0x82, 0x62, 0xc2, 0x9b] =
    "a\ufffd\ufffdb\x9b" := by
  decide +kernel

end RustText
