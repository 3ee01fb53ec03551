import NonoCedarPdp.Lib.JsonText
import Mathlib.Data.List.TakeWhile

/-!
A reader of JSON text. Numbers are kept as their literals. The reader takes every compact
text back to the value it was written for, whatever ends it.
-/
namespace JsonText
open RustText

inductive Value
  | null
  | bool (b : Bool)
  | number (literal : List Char)
  | string (s : String)
  | array (elements : List Value)
  | object (members : List (String × Value))

def isSpace (c : Char) : Bool := c == ' ' || c == '\t' || c == '\n' || c == '\r'

def skipSpace (s : List Char) : List Char := s.dropWhile isSpace

/-! ## Strings -/

def hexValue (c : Char) : Option Nat :=
  if c.isDigit then some (c.toNat - '0'.toNat)
  else if 'a'.toNat ≤ c.toNat ∧ c.toNat ≤ 'f'.toNat then some (c.toNat - 'a'.toNat + 10)
  else if 'A'.toNat ≤ c.toNat ∧ c.toNat ≤ 'F'.toNat then some (c.toNat - 'A'.toNat + 10)
  else none

/-- The four digits of a code unit. -/
def readUnit : List Char → Option (Nat × List Char)
  | a :: b :: c :: d :: rest => do
      let a ← hexValue a
      let b ← hexValue b
      let c ← hexValue c
      let d ← hexValue d
      some (((a * 16 + b) * 16 + c) * 16 + d, rest)
  | _ => none

/-- A surrogate stands only in a pair. -/
def readUnicode (s : List Char) : Option (Char × List Char) :=
  match readUnit s with
  | none => none
  | some (unit, rest) =>
      if 0xd800 ≤ unit ∧ unit < 0xdc00 then
        match rest with
        | '\\' :: 'u' :: rest =>
            match readUnit rest with
            | none => none
            | some (low, rest) =>
                if 0xdc00 ≤ low ∧ low < 0xe000 then
                  some (Char.ofNat (0x10000 + (unit - 0xd800) * 0x400 + (low - 0xdc00)), rest)
                else none
        | _ => none
      else if 0xdc00 ≤ unit ∧ unit < 0xe000 then none
      else some (Char.ofNat unit, rest)

def simpleEscape : Char → Option Char
  | '"' => some '"'
  | '\\' => some '\\'
  | '/' => some '/'
  | 'b' => some '\x08'
  | 'f' => some '\x0c'
  | 'n' => some '\n'
  | 'r' => some '\r'
  | 't' => some '\t'
  | _ => none

/-- What stands behind a backslash. -/
def readEscape : List Char → Option (Char × List Char)
  | [] => none
  | c :: rest =>
      if c = 'u' then readUnicode rest else (simpleEscape c).map fun e => (e, rest)

def readChars : Nat → List Char → Option (List Char × List Char)
  | 0, _ => none
  | _ + 1, [] => none
  | fuel + 1, c :: rest =>
      if c = '"' then some ([], rest)
      else if c = '\\' then
        match readEscape rest with
        | none => none
        | some (e, rest) => (readChars fuel rest).map fun read => (e :: read.1, read.2)
      else if c.toNat < 0x20 then none
      else (readChars fuel rest).map fun read => (c :: read.1, read.2)

/-- A string behind its opening quote. Every step consumes a character, so the length is
fuel enough. -/
def readString (s : List Char) : Option (String × List Char) :=
  (readChars s.length s).map fun read => (String.ofList read.1, read.2)

/-! ## Numbers -/

def isExponent : List Char → Bool
  | [] => true
  | c :: rest =>
      let digits := match rest with
        | sign :: digits => if sign = '+' ∨ sign = '-' then digits else rest
        | [] => []
      (c == 'e' || c == 'E') && !digits.isEmpty && digits.all Char.isDigit

def isFraction : List Char → Bool
  | [] => true
  | c :: rest =>
      if c = '.' then
        rest.head?.any Char.isDigit && isExponent (rest.dropWhile Char.isDigit)
      else isExponent (c :: rest)

/-- No digit stands behind a leading zero. -/
def isUnsigned : List Char → Bool
  | [] => false
  | c :: rest =>
      if c = '0' then isFraction rest
      else c.isDigit && isFraction (rest.dropWhile Char.isDigit)

def isNumber : List Char → Bool
  | [] => false
  | c :: rest => if c = '-' then isUnsigned rest else isUnsigned (c :: rest)

def isNumberChar (c : Char) : Bool :=
  c.isDigit || c == '-' || c == '+' || c == '.' || c == 'e' || c == 'E'

def readNumber (s : List Char) : Option (Value × List Char) :=
  let literal := s.takeWhile isNumberChar
  if isNumber literal then some (.number literal, s.dropWhile isNumberChar) else none

/-! ## Values -/

def readWord (word : String) (value : Value) (s : List Char) :
    Option (Value × List Char) :=
  if word.toList.isPrefixOf s then some (value, s.drop word.toList.length) else none

/-- One item at least, with commas between. -/
def readItems {α : Type} (item : List Char → Option (α × List Char)) (close : Char) :
    Nat → List Char → Option (List α × List Char)
  | 0, _ => none
  | fuel + 1, s =>
      match item s with
      | none => none
      | some (a, rest) =>
          match skipSpace rest with
          | [] => none
          | c :: rest =>
              if c = ',' then
                (readItems item close fuel rest).map fun read => (a :: read.1, read.2)
              else if c = close then some ([a], rest)
              else none

def readList {α : Type} (item : List Char → Option (α × List Char)) (close : Char)
    (s : List Char) : Option (List α × List Char) :=
  match skipSpace s with
  | [] => none
  | c :: rest =>
      if c = close then some ([], rest)
      else readItems item close (c :: rest).length (c :: rest)

def readMember (value : List Char → Option (Value × List Char)) (s : List Char) :
    Option ((String × Value) × List Char) :=
  match skipSpace s with
  | [] => none
  | c :: rest =>
      if c = '"' then
        match readString rest with
        | none => none
        | some (key, rest) =>
            match skipSpace rest with
            | [] => none
            | c :: rest =>
                if c = ':' then (value rest).map fun read => ((key, read.1), read.2)
                else none
      else none

/-- A value nested less than `depth` deep, and what is left behind it. -/
def readValue : Nat → List Char → Option (Value × List Char)
  | 0, _ => none
  | depth + 1, s =>
      match skipSpace s with
      | [] => none
      | c :: rest =>
          if c = '"' then (readString rest).map fun read => (.string read.1, read.2)
          else if c = '[' then
            (readList (readValue depth) ']' rest).map fun read => (.array read.1, read.2)
          else if c = '\x7b' then
            (readList (readMember (readValue depth)) '\x7d' rest).map fun read =>
              (.object read.1, read.2)
          else if c = 'n' then readWord "null" .null (c :: rest)
          else if c = 't' then readWord "true" (.bool true) (c :: rest)
          else if c = 'f' then readWord "false" (.bool false) (c :: rest)
          else readNumber (c :: rest)

/-- The depth at which `serde_json` gives up. -/
def maxDepth : Nat := 128

/-- One value and nothing but space behind it. -/
def parse (s : List Char) : Option Value :=
  match readValue maxDepth s with
  | some (value, rest) => if skipSpace rest = [] then some value else none
  | none => none

/-! ## Compact text -/

/-- The text of a value without spaces, nested less than `depth` deep. -/
inductive Compact : Nat → Value → String → Prop
  | null {depth : Nat} : Compact (depth + 1) .null "null"
  | bool {depth : Nat} (b : Bool) : Compact (depth + 1) (.bool b) (toString b)
  | natural {depth : Nat} (n : Nat) :
      Compact (depth + 1) (.number (toString n).toList) (toString n)
  | string {depth : Nat} (s : String) : Compact (depth + 1) (.string s) (quote s)
  | array {depth : Nat} {items : List (Value × String)}
      (each : ∀ i ∈ items, Compact depth i.1 i.2) :
      Compact (depth + 1) (.array (items.map Prod.fst))
        (JsonText.array (items.map Prod.snd))
  | object {depth : Nat} {members : List (String × Value × String)}
      (each : ∀ m ∈ members, Compact depth m.2.1 m.2.2) :
      Compact (depth + 1) (.object (members.map fun m => (m.1, m.2.1)))
        (JsonText.object (members.map fun m => (m.1, m.2.2)))

/-! ### Strings are read back -/

theorem toNat_of_lowerHex (n : Fin 0x20) :
    readUnit (lowerHex 4 n.val).toList = some (n.val, []) := by
  revert n
  decide +kernel

theorem readUnit_append {s : List Char} {n : Nat} (h : readUnit s = some (n, []))
    (rest : List Char) : readUnit (s ++ rest) = some (n, rest) := by
  match s, h with
  | a :: b :: c :: d :: more, h =>
      simp only [readUnit, Option.bind_eq_bind, Option.bind_eq_some_iff,
        Option.some.injEq, Prod.mk.injEq] at h
      obtain ⟨a', ha, b', hb, c', hc, d', hd, value, rfl⟩ := h
      simp [readUnit, ha, hb, hc, hd, value]

theorem readEscape_control {c : Char} (low : c.toNat < 0x20) (rest : List Char) :
    readEscape ('u' :: (lowerHex 4 c.toNat).toList ++ rest) = some (c, rest) := by
  have unit := readUnit_append (toNat_of_lowerHex ⟨c.toNat, low⟩) rest
  have high : ¬ (0xd800 ≤ c.toNat ∧ c.toNat < 0xdc00) := by omega
  have trail : ¬ (0xdc00 ≤ c.toNat ∧ c.toNat < 0xe000) := by omega
  rw [List.cons_append, readEscape, if_pos rfl, readUnicode, unit]
  simp only [if_neg high, if_neg trail, Char.ofNat_toNat]

theorem readChars_escape {e : Char} {code rest : List Char}
    (read : readEscape (code ++ rest) = some (e, rest)) (fuel : Nat) :
      readChars (fuel + 1) ('\\' :: code ++ rest) =
      (readChars fuel rest).map fun read => (e :: read.1, read.2) := by
  rw [List.cons_append, readChars, if_neg (by decide), if_pos rfl, read]

theorem readEscape_short {c letter : Char} (pair : (c, letter) ∈ shortEscapes)
    (rest : List Char) : readEscape ([letter] ++ rest) = some (c, rest) := by
  simp only [shortEscapes, List.mem_cons, List.not_mem_nil, or_false,
    Prod.mk.injEq] at pair
  obtain ⟨rfl, rfl⟩ | ⟨rfl, rfl⟩ | ⟨rfl, rfl⟩ | ⟨rfl, rfl⟩ | ⟨rfl, rfl⟩ | ⟨rfl, rfl⟩
      | ⟨rfl, rfl⟩ := pair <;> rfl

/-- Whatever a character is written as is read as that character. -/
theorem readChars_escapeChar (c : Char) (fuel : Nat) (rest : List Char) :
    readChars (fuel + 1) (escapeChar c ++ rest) =
      (readChars fuel rest).map fun read => (c :: read.1, read.2) := by
  have written := written_escapeChar c
  generalize escapeChar c = code at written
  cases written with
  | short pair => exact readChars_escape (readEscape_short pair rest) fuel
  | unit low => exact readChars_escape (readEscape_control low rest) fuel
  | itself quote backslash high =>
      rw [List.cons_append, readChars, if_neg quote, if_neg backslash, if_neg high]
      rfl

theorem readChars_flatMap (cs rest : List Char) {fuel : Nat} (enough : cs.length < fuel) :
    readChars fuel (cs.flatMap escapeChar ++ '"' :: rest) = some (cs, rest) := by
  induction cs generalizing fuel with
  | nil =>
      obtain ⟨more, rfl⟩ : ∃ more, fuel = more + 1 := ⟨fuel - 1, by simp at enough; omega⟩
      simp [readChars]
  | cons c cs ih =>
      obtain ⟨more, rfl⟩ : ∃ more, fuel = more + 1 := ⟨fuel - 1, by simp at enough; omega⟩
      have left : cs.length < more := by simpa using enough
      rw [List.flatMap_cons, List.append_assoc, readChars_escapeChar, ih left]
      rfl

theorem length_le_flatMap (cs : List Char) :
    cs.length ≤ (cs.flatMap escapeChar).length := by
  induction cs with
  | nil => exact Nat.le_refl 0
  | cons c cs ih =>
      have some : 1 ≤ (escapeChar c).length := by
        have written := written_escapeChar c
        generalize escapeChar c = code at written
        cases written <;> simp
      rw [List.flatMap_cons, List.length_append, List.length_cons]
      omega

theorem readString_quote (s : String) (rest : List Char) :
    readString (s.toList.flatMap escapeChar ++ '"' :: rest) = some (s, rest) := by
  have enough :
      s.toList.length < (s.toList.flatMap escapeChar ++ '"' :: rest).length := by
    have written := length_le_flatMap s.toList
    rw [List.length_append, List.length_cons]
    omega
  rw [readString, readChars_flatMap s.toList rest enough]
  simp

theorem toList_quote (s : String) :
    (quote s).toList = '"' :: (s.toList.flatMap escapeChar ++ ['"']) := by
  simp [quote]

/-! ### Numbers are read back -/

theorem head_toDigits {n : Nat} (positive : 0 < n) :
    ∃ d ds, Nat.toDigits 10 n = d :: ds ∧ d ≠ '0' := by
  induction n using Nat.strongRecOn with
  | ind n ih =>
      by_cases small : n < 10
      · refine ⟨n.digitChar, [], Nat.toDigits_of_lt_base small, ?_⟩
        intro zero
        have value := Nat.toNat_digitChar_of_lt_ten small
        rw [zero] at value
        have zeroCode : '0'.toNat = 48 := rfl
        omega
      · obtain ⟨d, ds, digits, nonzero⟩ := ih (n / 10) (by omega) (by omega)
        refine ⟨d, ds ++ [(n % 10).digitChar], ?_, nonzero⟩
        rw [Nat.toDigits_of_base_le (by decide) (by omega), digits, List.cons_append]

theorem isDigit_toDigits (n : Nat) : ∀ c ∈ Nat.toDigits 10 n, c.isDigit = true :=
  fun _ mem => Nat.isDigit_of_mem_toDigits (by decide) (by decide) mem

theorem isUnsigned_toDigits (n : Nat) : isUnsigned (Nat.toDigits 10 n) = true := by
  cases Nat.eq_zero_or_pos n with
  | inl zero =>
      subst zero
      decide
  | inr positive =>
      obtain ⟨d, ds, digits, nonzero⟩ := head_toDigits positive
      have all := isDigit_toDigits n
      rw [digits, List.forall_mem_cons] at all
      have rest : ds.dropWhile Char.isDigit = [] := List.dropWhile_eq_nil_iff.mpr all.2
      rw [digits, isUnsigned, if_neg nonzero, all.1, rest]
      rfl

theorem isNumber_toDigits (n : Nat) : isNumber (Nat.toDigits 10 n) = true := by
  have unsigned := isUnsigned_toDigits n
  cases digits : Nat.toDigits 10 n with
  | nil => exact absurd digits Nat.toDigits_ne_nil
  | cons d ds =>
      have digit := isDigit_toDigits n d (digits ▸ List.mem_cons_self)
      have unsignedHead : d ≠ '-' := by
        intro minus
        rw [minus] at digit
        exact absurd digit (by decide)
      rw [isNumber, if_neg unsignedHead, ← digits]
      exact unsigned

/-- A number starts with a digit, which is no other sign of the grammar. -/
theorem toString_nat (n : Nat) : ∃ d ds, (toString n).toList = d :: ds ∧
    Nat.toDigits 10 n = d :: ds ∧ ∀ sign : Char, sign.isDigit = false → d ≠ sign := by
  have text : (toString n).toList = Nat.toDigits 10 n := Nat.toList_repr
  cases digits : Nat.toDigits 10 n with
  | nil => exact absurd digits Nat.toDigits_ne_nil
  | cons d ds =>
      have digit := isDigit_toDigits n d (digits ▸ List.mem_cons_self)
      refine ⟨d, ds, text.trans digits, rfl, ?_⟩
      intro sign other same
      rw [same, other] at digit
      cases digit

/-- Where a number may end. -/
def EndsNumber (rest : List Char) : Prop := ∀ c ∈ rest.head?, isNumberChar c = false

theorem readNumber_toDigits (n : Nat) {rest : List Char} (ends : EndsNumber rest) :
    readNumber (Nat.toDigits 10 n ++ rest) =
      some (.number (Nat.toDigits 10 n), rest) := by
  have inside : ∀ c ∈ Nat.toDigits 10 n, isNumberChar c = true := by
    intro c mem
    simp [isNumberChar, isDigit_toDigits n c mem]
  have stops : rest.takeWhile isNumberChar = [] ∧ rest.dropWhile isNumberChar = rest := by
    cases rest with
    | nil => exact ⟨rfl, rfl⟩
    | cons c rest =>
        have outside : isNumberChar c = false := ends c rfl
        simp [outside]
  rw [readNumber, List.takeWhile_append_of_pos inside,
    List.dropWhile_append_of_pos inside, stops.1, stops.2, List.append_nil,
    if_pos (isNumber_toDigits n)]

/-! ### Values are read back -/

theorem skipSpace_cons {c : Char} (solid : isSpace c = false) (rest : List Char) :
    skipSpace (c :: rest) = c :: rest := by
  simp [skipSpace, solid]

theorem readWord_append (word : String) (value : Value) (rest : List Char) :
    readWord word value (word.toList ++ rest) = some (value, rest) := by
  have front : word.toList.isPrefixOf (word.toList ++ rest) = true :=
    List.isPrefixOf_iff_prefix.mpr (List.prefix_append _ _)
  rw [readWord, if_pos front, List.drop_left]

/-- The text starts an item: with no space, and not as the list closes. -/
def Starts (close : Char) (text : String) : Prop :=
  ∃ c rest, text.toList = c :: rest ∧ isSpace c = false ∧ c ≠ close

section Lists
variable {α : Type} {item : List Char → Option (α × List Char)} {close : Char}
  (rest : List Char)

theorem readItems_intercalate (solid : isSpace close = false) (other : close ≠ ',')
    (ends : isNumberChar close = false) {first : α × String} {items : List (α × String)}
    (each : ∀ i ∈ first :: items, ∀ rest, EndsNumber rest →
      item (i.2.toList ++ rest) = some (i.1, rest))
    {fuel : Nat} (enough : items.length < fuel) :
    readItems item close fuel
        ([','].intercalate ((first :: items).map fun i => i.2.toList) ++ close :: rest) =
      some ((first :: items).map Prod.fst, rest) := by
  induction items generalizing first fuel with
  | nil =>
      obtain ⟨more, rfl⟩ : ∃ more, fuel = more + 1 := ⟨fuel - 1, by simp at enough; omega⟩
      have read := each first List.mem_cons_self (close :: rest) fun c head => by
        cases head
        exact ends
      simp [readItems, List.intercalate, read, skipSpace_cons solid, other]
  | cons second items ih =>
      obtain ⟨more, rfl⟩ : ∃ more, fuel = more + 1 := ⟨fuel - 1, by simp at enough; omega⟩
      have left : items.length < more := by simpa using enough
      have text : [','].intercalate
          ((first :: second :: items).map fun i => i.2.toList) ++ close :: rest =
          first.2.toList ++ ',' ::
            ([','].intercalate ((second :: items).map fun i => i.2.toList) ++
              close :: rest) := by
        simp [List.intercalate]
      have read := each first List.mem_cons_self
        (',' :: ([','].intercalate ((second :: items).map fun i => i.2.toList) ++
          close :: rest))
        fun c head => by
          cases head
          decide
      have others := ih (fun i mem => each i (List.mem_cons_of_mem _ mem)) left
      rw [text, readItems, read]
      simp only [skipSpace_cons (c := ',') (by decide), if_true, others]
      rfl

theorem length_le_intercalate (first : α × String) (items : List (α × String)) :
    items.length ≤
      ([','].intercalate ((first :: items).map fun i => i.2.toList)).length := by
  induction items generalizing first with
  | nil => exact Nat.zero_le _
  | cons second items ih =>
      have left := ih second
      have text : [','].intercalate ((first :: second :: items).map fun i => i.2.toList) =
          first.2.toList ++ ',' ::
            [','].intercalate ((second :: items).map fun i => i.2.toList) := by
        simp [List.intercalate]
      rw [text, List.length_append, List.length_cons, List.length_cons]
      omega

theorem readList_intercalate (solid : isSpace close = false) (other : close ≠ ',')
    (ends : isNumberChar close = false) {items : List (α × String)}
    (starts : ∀ i ∈ items, Starts close i.2)
    (each : ∀ i ∈ items, ∀ rest, EndsNumber rest →
      item (i.2.toList ++ rest) = some (i.1, rest)) :
    readList item close
      ([','].intercalate (items.map fun i => i.2.toList) ++ close :: rest) =
      some (items.map Prod.fst, rest) := by
  cases items with
  | nil => simp [readList, List.intercalate, skipSpace_cons solid]
  | cons first items =>
      obtain ⟨c, tail, head, solidHead, open_⟩ := starts first List.mem_cons_self
      obtain ⟨more, text⟩ :
          ∃ more, [','].intercalate ((first :: items).map fun i => i.2.toList) ++
          close :: rest = c :: more := by
        cases items with
        | nil => exact ⟨tail ++ close :: rest, by simp [List.intercalate, head]⟩
        | cons second items =>
            refine ⟨tail ++ ',' ::
              ([','].intercalate ((second :: items).map fun i => i.2.toList) ++
                close :: rest), ?_⟩
            simp [List.intercalate, head]
      have enough : items.length < (c :: more).length := by
        have written := length_le_intercalate first items
        rw [← text, List.length_append, List.length_cons]
        omega
      have read := readItems_intercalate rest solid other ends each enough
      rw [text] at read
      rw [readList, text, skipSpace_cons solidHead]
      simp only [if_neg open_, read]

end Lists

theorem toList_array (elements : List String) : (array elements).toList =
    '[' :: ([','].intercalate (elements.map String.toList) ++ [']']) := by
  simp [array, String.toList_intercalate]

theorem toList_object (fields : List (String × String)) : (object fields).toList =
    '\x7b' :: ([','].intercalate (fields.map fun f => (quote f.1 ++ ":" ++ f.2).toList) ++
      ['\x7d']) := by
  simp [object, String.toList_intercalate, Function.comp_def]

/-- A value starts with a character of its own. -/
theorem Compact.starts {depth : Nat} {value : Value} {text : String}
    (h : Compact depth value text) : Starts ']' text := by
  cases h with
  | null => exact ⟨'n', "ull".toList, rfl, by decide, by decide⟩
  | bool b =>
      cases b with
      | true => exact ⟨'t', "rue".toList, rfl, by decide, by decide⟩
      | false => exact ⟨'f', "alse".toList, rfl, by decide, by decide⟩
  | natural n =>
      obtain ⟨d, ds, text, -, sign⟩ := toString_nat n
      refine ⟨d, ds, text, ?_, sign ']' rfl⟩
      simp [isSpace, sign ' ' rfl, sign '\t' rfl, sign '\n' rfl, sign '\r' rfl]
  | string s => exact ⟨'"', _, toList_quote s, by decide, by decide⟩
  | array => exact ⟨'[', _, toList_array _, by decide, by decide⟩
  | object => exact ⟨'\x7b', _, toList_object _, by decide, by decide⟩

theorem readMember_append {value : List Char → Option (Value × List Char)}
    {key text : String} {v : Value} {rest : List Char}
    (read : value (text.toList ++ rest) = some (v, rest)) :
    readMember value ((quote key ++ ":" ++ text).toList ++ rest) =
      some ((key, v), rest) := by
  have whole : (quote key ++ ":" ++ text).toList ++ rest =
      '"' :: (key.toList.flatMap escapeChar ++ '"' :: ':' :: (text.toList ++ rest)) := by
    simp [toList_quote]
  rw [whole, readMember, skipSpace_cons (by decide)]
  simp only [if_true, readString_quote, skipSpace_cons (c := ':') (by decide), read]
  rfl

theorem starts_member (key text : String) : Starts '\x7d' (quote key ++ ":" ++ text) := by
  have whole : (quote key ++ ":" ++ text).toList =
      '"' :: (key.toList.flatMap escapeChar ++ '"' :: ':' :: text.toList) := by
    simp [toList_quote]
  exact ⟨'"', _, whole, by decide, by decide⟩

section Scalars
variable {depth : Nat} {rest : List Char}

theorem readValue_natural (n : Nat) (ends : EndsNumber rest) :
    readValue (depth + 1) ((toString n).toList ++ rest) =
      some (.number (toString n).toList, rest) := by
  obtain ⟨d, ds, text, digits, sign⟩ := toString_nat n
  have solid : isSpace d = false := by
    simp [isSpace, sign ' ' rfl, sign '\t' rfl, sign '\n' rfl, sign '\r' rfl]
  have read := readNumber_toDigits n ends
  rw [digits] at read
  rw [text, List.cons_append, readValue, skipSpace_cons solid]
  simp only [if_neg (sign '"' rfl), if_neg (sign '[' rfl), if_neg (sign '\x7b' rfl),
    if_neg (sign 'n' rfl), if_neg (sign 't' rfl), if_neg (sign 'f' rfl)]
  exact read

theorem readValue_quote (s : String) :
    readValue (depth + 1) ((quote s).toList ++ rest) = some (.string s, rest) := by
  have whole : (quote s).toList ++ rest =
      '"' :: (s.toList.flatMap escapeChar ++ '"' :: rest) := by
    simp [toList_quote]
  rw [whole, readValue, skipSpace_cons (by decide)]
  simp only [if_true, readString_quote]
  rfl

end Scalars

theorem readValue_compact {depth : Nat} {value : Value} {text : String}
    (h : Compact depth value text) {rest : List Char} (ends : EndsNumber rest) :
    readValue depth (text.toList ++ rest) = some (value, rest) := by
  induction h generalizing rest with
  | null => exact readWord_append "null" .null rest
  | bool b =>
      cases b with
      | true => exact readWord_append "true" (.bool true) rest
      | false => exact readWord_append "false" (.bool false) rest
  | natural n => exact readValue_natural n ends
  | string s => exact readValue_quote s
  | @array _ items each ih =>
      have whole : (array (items.map Prod.snd)).toList ++ rest =
          '[' :: ([','].intercalate (items.map fun i => i.2.toList) ++ ']' :: rest) := by
        simp [toList_array, Function.comp_def]
      have read := readList_intercalate rest (by decide) (by decide) (by decide)
        (fun i mem => (each i mem).starts) fun i mem rest ends => ih i mem ends
      rw [whole, readValue, skipSpace_cons (by decide)]
      simp only [if_true, read]
      rfl
  | @object depth members each ih =>
      have whole : (object (members.map fun m => (m.1, m.2.2))).toList ++ rest = '\x7b' ::
          ([','].intercalate ((members.map fun m =>
            ((m.1, m.2.1), quote m.1 ++ ":" ++ m.2.2)).map fun i => i.2.toList) ++
              '\x7d' :: rest) := by
        simp [toList_object, Function.comp_def]
      have starts : ∀ i ∈ members.map fun m => ((m.1, m.2.1), quote m.1 ++ ":" ++ m.2.2),
          Starts '\x7d' i.2 := by
        intro i mem
        obtain ⟨m, -, rfl⟩ := List.mem_map.mp mem
        exact starts_member m.1 m.2.2
      have each' : ∀ i ∈ members.map fun m => ((m.1, m.2.1), quote m.1 ++ ":" ++ m.2.2),
          ∀ rest, EndsNumber rest →
            readMember (readValue depth) (i.2.toList ++ rest) = some (i.1, rest) := by
        intro i mem rest ends
        obtain ⟨m, known, rfl⟩ := List.mem_map.mp mem
        exact readMember_append (ih m known ends)
      have read := readList_intercalate rest (by decide) (by decide)
          (by decide) starts each'
      rw [whole, readValue, skipSpace_cons (by decide)]
      simp only [if_true, read]
      simp [Function.comp_def]

/-- Compact text on a line of its own is read as what was written. -/
theorem parse_compact {value : Value} {text : String} (h : Compact maxDepth value text) :
    parse (text.toList ++ ['\n']) = some value := by
  have ends : EndsNumber ['\n'] := by
    intro c head
    cases head
    decide
  rw [parse, readValue_compact h ends]
  rfl

example : parse " [ \"\\ud83d\\ude00\\n\" , -1.5e2,\x7b \x7d ]".toList =
    some (.array [.string "😀\n", .number "-1.5e2".toList, .object []]) := by rfl

/-! ## Typed values -/

namespace Value

def get (value : Value) (key : String) : Option Value :=
  match value with
  | .object members => members.lookup key
  | _ => none

def natural (n : Nat) : Value := .number (toString n).toList

def strings (texts : List String) : Value := .array (texts.map .string)

def nullable {α : Type} (f : α → Value) : Option α → Value
  | none => .null
  | some a => f a

def asString : Value → Option String
  | .string s => some s
  | _ => none

def asBool : Value → Option Bool
  | .bool b => some b
  | _ => none

def asNatural : Value → Option Nat
  | .number literal =>
      if literal.all Char.isDigit then some (Nat.ofDigitChars 10 literal 0) else none
  | _ => none

def asStrings : Value → Option (List String)
  | .array elements => elements.mapM asString
  | _ => none

def orNull {α : Type} (read : Value → Option α) : Value → Option (Option α)
  | .null => some none
  | value => (read value).map some

@[simp] theorem asString_string (s : String) : (Value.string s).asString = some s := rfl

@[simp] theorem asBool_bool (b : Bool) : (Value.bool b).asBool = some b := rfl

@[simp] theorem asNatural_natural (n : Nat) : (natural n).asNatural = some n := by
  have digits : (toString n).toList = Nat.toDigits 10 n := Nat.toList_repr
  have all : (Nat.toDigits 10 n).all Char.isDigit = true :=
    List.all_eq_true.mpr (isDigit_toDigits n)
  rw [natural, asNatural, digits, if_pos all, Nat.ofDigitChars_ten_toDigits]

@[simp] theorem asStrings_strings (texts : List String) :
  (strings texts).asStrings = some texts := by
  rw [strings, asStrings]
  induction texts with
  | nil => rfl
  | cons s texts ih => simp [ih]

theorem orNull_nullable {α : Type} {read : Value → Option α} {f : α → Value}
    (back : ∀ a, read (f a) = some a) (solid : read .null = none) (value : Option α) :
    orNull read (nullable f value) = some value := by
  cases value with
  | none => rfl
  | some a =>
      have read := back a
      rw [nullable]
      cases written : f a with
      | null =>
          rw [written, solid] at read
          cases read
      | bool | number | string | array | object =>
          rw [← written, orNull, read]
          · rfl
          · rw [written]
            exact Value.noConfusion

end Value

theorem compact_nullable {α : Type} {depth : Nat} {f : α → Value} {text : α → String}
    (each : ∀ a, Compact (depth + 1) (f a) (text a)) (value : Option α) :
    Compact (depth + 1) (Value.nullable f value) (nullable text value) := by
  cases value with
  | none => exact .null
  | some a => exact each a

theorem compact_strings {depth : Nat} (texts : List String) :
    Compact (depth + 2) (Value.strings texts) (array (texts.map quote)) := by
  have each : ∀ i ∈ texts.map fun s =>
      (Value.string s, quote s), Compact (depth + 1) i.1 i.2 := by
    intro i mem
    obtain ⟨s, -, rfl⟩ := List.mem_map.mp mem
    exact .string s
  simpa [Value.strings, Function.comp_def] using Compact.array each

end JsonText
