import NonoCedarPdp.Lib.RustText

/-!
Compact JSON text as `serde_json` writes it: no spaces, and in strings exactly the
C0 controls, the quote and the backslash escaped.
-/
namespace JsonText
open RustText

def escapeChar (c : Char) : List Char :=
  if c = '"' then ['\\', '"']
  else if c = '\\' then ['\\', '\\']
  else if c = '\x08' then ['\\', 'b']
  else if c = '\t' then ['\\', 't']
  else if c = '\n' then ['\\', 'n']
  else if c = '\x0c' then ['\\', 'f']
  else if c = '\r' then ['\\', 'r']
  else if c.toNat < 0x20 then ['\\', 'u'] ++ (lowerHex 4 c.toNat).toList
  else [c]

/-- The characters that have a letter of their own behind the backslash. -/
def shortEscapes : List (Char × Char) :=
  [('"', '"'), ('\\', '\\'), ('\x08', 'b'), ('\t', 't'), ('\n', 'n'),
    ('\x0c', 'f'), ('\r', 'r')]

/-- What a character is written as: a letter behind a backslash, a code unit, or
itself. -/
inductive Written : Char → List Char → Prop
  | short {c letter : Char} (pair : (c, letter) ∈ shortEscapes) : Written c ['\\', letter]
  | unit {c : Char} (low : c.toNat < 0x20) :
      Written c ('\\' :: 'u' :: (lowerHex 4 c.toNat).toList)
  | itself {c : Char} (quote : c ≠ '"') (backslash : c ≠ '\\')
      (high : ¬ c.toNat < 0x20) : Written c [c]

theorem written_escapeChar (c : Char) : Written c (escapeChar c) := by
  have short {c' letter : Char} (pair : (c', letter) ∈ shortEscapes) (same : c = c') :
      Written c ['\\', letter] := same ▸ .short pair
  rw [escapeChar]
  split
  · next same => exact short (by decide) same
  split
  · next same => exact short (by decide) same
  split
  · next same => exact short (by decide) same
  split
  · next same => exact short (by decide) same
  split
  · next same => exact short (by decide) same
  split
  · next same => exact short (by decide) same
  split
  · next same => exact short (by decide) same
  split
  · next low => exact .unit low
  · next quote backslash _ _ _ _ _ high => exact .itself quote backslash high

def quote (s : String) : String :=
  String.ofList ('"' :: s.toList.flatMap escapeChar ++ ['"'])

def nullable {α : Type} (text : α → String) : Option α → String
  | none => "null"
  | some value => text value

def array (elements : List String) : String := "[" ++ ",".intercalate elements ++ "]"

def object (fields : List (String × String)) : String :=
  "\x7b" ++ ",".intercalate (fields.map fun field => quote field.1 ++ ":" ++ field.2) ++ "\x7d"

end JsonText
