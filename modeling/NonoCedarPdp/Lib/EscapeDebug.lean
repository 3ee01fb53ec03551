import NonoCedarPdp.Lib.QuotedLiteral
import NonoCedarPdp.Lib.RustText

/-!
`str::escape_debug`, which escapes both quotes and, behind the first character, leaves
grapheme extenders as they are. What it writes is the body of a quoted literal, and it is
read back.
-/
namespace RustText
open QuotedLiteral

def apostrophe : Char := Char.ofNat 0x27

def openBrace : Char := Char.ofNat 0x7b

def closeBrace : Char := Char.ofNat 0x7d

/-- `char::escape_unicode`. -/
def escapeUnicode (c : Char) : List Char :=
  '\\' :: 'u' :: openBrace :: ((lowerHex 1 c.toNat).toList ++ [closeBrace])

/-- `char::escape_debug_ext`, with both quotes escaped. -/
def escapeDebugExt (tables : UnicodeTables) (graphemeExtended : Bool)
    (c : Char) : List Char :=
  if c = '\x00' then ['\\', '0']
  else if c = '\t' then ['\\', 't']
  else if c = '\r' then ['\\', 'r']
  else if c = '\n' then ['\\', 'n']
  else if c = '\\' then ['\\', '\\']
  else if c = '"' then ['\\', '"']
  else if c = apostrophe then ['\\', apostrophe]
  else if graphemeExtended && tables.graphemeExtend c then escapeUnicode c
  else if tables.printable c then [c]
  else escapeUnicode c

def escapeDebugFrom (tables : UnicodeTables) : Bool → List Char → List Char
  | _, [] => []
  | first, c :: rest => escapeDebugExt tables first c ++ escapeDebugFrom tables false rest

/-- `str::escape_debug`. -/
def strEscapeDebug (tables : UnicodeTables) (s : String) : String :=
  String.ofList (escapeDebugFrom tables true s.toList)

/-- A reader of escaped text; inside `\u{…}` it carries the digits' value so far. -/
def readEscaped : Option Nat → List Char → Option (List Char)
  | none, [] => some []
  | some _, [] => none
  | none, c :: rest =>
      if c = '"' then none
      else if c = '\\' then
        match rest with
        | [] => none
        | code :: rest =>
            if code = 'u' then
              match rest with
              | [] => none
              | brace :: rest =>
                  if brace = openBrace then readEscaped (some 0) rest else none
            else (simpleEscape code).bind fun e => (readEscaped none rest).map (e :: ·)
      else (readEscaped none rest).map (c :: ·)
  | some n, d :: rest =>
      if d = closeBrace then (readEscaped none rest).map (Char.ofNat n :: ·)
      else (hexDigit d).bind fun v => readEscaped (some (16 * n + v)) rest

theorem readEscaped_plain {c : Char} (noBackslash : c ≠ '\\') (noQuote : c ≠ '"')
    (rest : List Char) :
      readEscaped none (c :: rest) = (readEscaped none rest).map (c :: ·) := by
  rw [readEscaped.eq_def]
  simp only [if_neg noQuote, if_neg noBackslash]

theorem readEscaped_simple {code c : Char} (simple : simpleEscape code = some c)
    (rest : List Char) :
    readEscaped none ('\\' :: code :: rest) = (readEscaped none rest).map (c :: ·) := by
  have other : code ≠ 'u' := by
    rintro rfl
    cases simple
  rw [readEscaped.eq_def]
  simp only [if_neg (show ('\\' : Char) ≠ '"' by decide), if_true, if_neg other, simple,
    Option.bind_some]

/-! ## Digits -/

theorem hexDigit_digitChar : ∀ d : Fin 16, hexDigit (Nat.digitChar d) = some d.val := by
  decide

theorem hexValue_concat (digits : List Char) (d : Char) :
    hexValue (digits ++ [d]) = (hexValue digits).bind fun n =>
      (hexDigit d).map (16 * n + ·) := by
  rw [hexValue, List.foldlM_append]
  cases h : hexValue digits with
  | none => simp only [hexValue] at h; simp [h]
  | some n => simp only [hexValue] at h; simp [h]

theorem hexValue_toDigits (n : Nat) : hexValue (Nat.toDigits 16 n) = some n := by
  induction n using Nat.strongRecOn with
  | ind n ih =>
      by_cases small : n < 16
      · rw [Nat.toDigits_of_lt_base small]
        simpa [hexValue] using hexDigit_digitChar ⟨n, small⟩
      · have last := hexDigit_digitChar ⟨n % 16, Nat.mod_lt _ (by omega)⟩
        rw [Nat.toDigits_of_base_le (by omega) (by omega), hexValue_concat,
          ih (n / 16) (by omega), Option.bind_some, last, Option.map_some]
        exact congrArg some (Nat.div_add_mod n 16)

theorem toList_lowerHex_one (n : Nat) : (lowerHex 1 n).toList = Nat.toDigits 16 n := by
  have long : 0 < (Nat.toDigits 16 n).length := Nat.length_toDigits_pos
  have none : 1 - (Nat.toDigits 16 n).length = 0 := by omega
  simp [lowerHex, none]

theorem length_toDigits_char (c : Char) : (Nat.toDigits 16 c.toNat).length ≤ 6 := by
  have bound : c.toNat < 16 ^ 6 := by
    have valid : c.toNat < 0xd800 ∨ 0xdfff < c.toNat ∧ c.toNat < 0x110000 := c.valid
    omega
  exact (Nat.length_toDigits_le_iff (by omega) (by omega)).mpr bound

/-! ## What a character is written as -/

/-- The characters that are written as they are, or with a backslash if they are `\` or
`"`. -/
def Kept (tables : UnicodeTables) (first : Bool) (c : Char) : Prop :=
  c ≠ apostrophe ∧ tables.printable c = true ∧
  (first = true → tables.graphemeExtend c = false)

inductive Spelling (tables : UnicodeTables) (first : Bool) (c : Char) : List Char → Prop
  | plain (noBackslash : c ≠ '\\') (noQuote : c ≠ '"') (kept : Kept tables first c) :
      Spelling tables first c [c]
  | special (special : c = '\\' ∨ c = '"') (kept : Kept tables first c) :
      Spelling tables first c ['\\', c]
  | short {code : Char} (simple : simpleEscape code = some c) (noBackslash : c ≠ '\\')
      (noQuote : c ≠ '"') (changed : ¬ Kept tables first c) :
        Spelling tables first c ['\\', code]
  | unicode (noBackslash : c ≠ '\\') (noQuote : c ≠ '"')
      (changed : ¬ Kept tables first c) : Spelling tables first c (escapeUnicode c)

theorem kept_ascii {tables : UnicodeTables} {first : Bool} {c : Char}
    (low : 0x20 ≤ c.toNat) (high : c.toNat < 0x7f) (other : c ≠ apostrophe) :
      Kept tables first c := by
  refine ⟨other, ?_, fun _ => tables.graphemeExtend_ascii c (by omega)⟩
  rw [tables.printable_ascii c (by omega)]
  exact decide_eq_true ⟨low, high⟩

theorem not_kept_of_control {tables : UnicodeTables} {first : Bool} {c : Char}
    (low : c.toNat < 0x20) : ¬ Kept tables first c := by
  rintro ⟨-, printable, -⟩
  rw [tables.printable_ascii c (by omega), decide_eq_true_eq] at printable
  omega

theorem spelling_escapeDebugExt (tables : UnicodeTables) (first : Bool) (c : Char) :
    Spelling tables first c (escapeDebugExt tables first c) := by
  unfold escapeDebugExt
  split_ifs with nul tab ret line backslash quote mark extender printable
  · subst nul
    exact .short rfl (by decide) (by decide) (not_kept_of_control (by decide))
  · subst tab
    exact .short rfl (by decide) (by decide) (not_kept_of_control (by decide))
  · subst ret
    exact .short rfl (by decide) (by decide) (not_kept_of_control (by decide))
  · subst line
    exact .short rfl (by decide) (by decide) (not_kept_of_control (by decide))
  · subst backslash
    exact .special (.inl rfl) (kept_ascii (by decide) (by decide) (by decide))
  · subst quote
    exact .special (.inr rfl) (kept_ascii (by decide) (by decide) (by decide))
  · subst mark
    exact .short rfl backslash quote fun kept => kept.1 rfl
  · rw [Bool.and_eq_true] at extender
    refine .unicode backslash quote fun kept => ?_
    rw [kept.2.2 extender.1] at extender
    exact absurd extender.2 Bool.false_ne_true
  · refine .plain backslash quote ⟨mark, printable, fun head => ?_⟩
    simpa [head] using extender
  · exact .unicode backslash quote fun kept => printable kept.2.1

/-! ## The text is read back -/

theorem readEscaped_digits {digits : List Char} {n v : Nat}
    (h : digits.foldlM (fun n d => (hexDigit d).map (16 * n + ·)) n = some v)
    (rest : List Char) :
    readEscaped (some n) (digits ++ rest) = readEscaped (some v) rest := by
  induction digits generalizing n with
  | nil =>
      cases h
      rfl
  | cons d digits ih =>
      rw [List.foldlM_cons] at h
      obtain ⟨m, digit, further⟩ := Option.bind_eq_some_iff.mp h
      obtain ⟨worth, hex, rfl⟩ := Option.map_eq_some_iff.mp digit
      have inside : d ≠ closeBrace := by
        rintro rfl
        cases hex
      rw [List.cons_append, readEscaped, if_neg inside, hex, Option.bind_some, ih further]

theorem readEscaped_escapeUnicode (c : Char) (rest : List Char) :
    readEscaped none (escapeUnicode c ++ rest) =
      (readEscaped none rest).map (c :: ·) := by
  have digits := readEscaped_digits (hexValue_toDigits c.toNat) (closeBrace :: rest)
  rw [escapeUnicode, toList_lowerHex_one, List.cons_append, List.cons_append,
    List.cons_append, List.append_assoc, List.singleton_append]
  simp only [readEscaped, if_true, if_neg (show ('\\' : Char) ≠ '"' by decide), digits,
    Char.ofNat_toNat]

theorem readEscaped_spelling {tables : UnicodeTables} {first : Bool} {c : Char}
    {text : List Char} (h : Spelling tables first c text) (rest : List Char) :
    readEscaped none (text ++ rest) = (readEscaped none rest).map (c :: ·) := by
  cases h with
  | plain noBackslash noQuote kept => exact readEscaped_plain noBackslash noQuote rest
  | special special kept =>
      refine readEscaped_simple ?_ rest
      obtain rfl | rfl := special <;> rfl
  | short simple noBackslash noQuote changed => exact readEscaped_simple simple rest
  | unicode noBackslash noQuote changed => exact readEscaped_escapeUnicode c rest

theorem readEscaped_escapeDebugFrom (tables : UnicodeTables) (first : Bool)
    (text : List Char) :
    readEscaped none (escapeDebugFrom tables first text) = some text := by
  induction text generalizing first with
  | nil => rfl
  | cons c text ih =>
      rw [escapeDebugFrom, readEscaped_spelling (spelling_escapeDebugExt tables first c), ih]
      rfl

theorem body_append_spelling {tables : UnicodeTables} {first : Bool} {c : Char}
    {text source value : List Char} (h : Spelling tables first c text)
    (rest : Body source value) : Body (text ++ source) (c :: value) := by
  cases h with
  | plain noBackslash noQuote kept => exact .plain noQuote noBackslash rest
  | special special kept =>
      refine .escape ?_ rest
      obtain rfl | rfl := special <;> rfl
  | short simple noBackslash noQuote changed => exact .escape simple rest
  | unicode noBackslash noQuote changed =>
      have body := Body.unicode (length_toDigits_char c) (hexValue_toDigits c.toNat) rest
      rw [escapeUnicode, toList_lowerHex_one]
      simpa [openBrace, closeBrace] using body

/-- An escaped text is the body of a literal for it. -/
theorem body_escapeDebugFrom (tables : UnicodeTables) (first : Bool) (text : List Char) :
    Body (escapeDebugFrom tables first text) text := by
  induction text generalizing first with
  | nil => exact .nil
  | cons c text ih =>
      exact body_append_spelling (spelling_escapeDebugExt tables first c) (ih false)

/-! ## Against the two escapes a literal needs -/

/-- Every character is one `escape_debug` keeps. -/
def KeptFrom (tables : UnicodeTables) : Bool → List Char → Prop
  | _, [] => True
  | first, c :: rest => Kept tables first c ∧ KeptFrom tables false rest

theorem escapeChar_append_eq_spelling_iff {tables : UnicodeTables}
    {first : Bool} {c : Char} {text a b : List Char} (h : Spelling tables first c text) :
    escapeChar c ++ a = text ++ b ↔ Kept tables first c ∧ a = b := by
  cases h with
  | plain noBackslash noQuote kept => simp [escapeChar_of_plain noQuote noBackslash, kept]
  | special special kept =>
      have both : escapeChar c = ['\\', c] := by
        obtain rfl | rfl := special <;> rfl
      simp [both, kept]
  | short simple noBackslash noQuote changed =>
      simp [escapeChar_of_plain noQuote noBackslash, noBackslash, changed]
  | unicode noBackslash noQuote changed =>
      simp [escapeChar_of_plain noQuote noBackslash, noBackslash, changed, escapeUnicode]

/-- Escaping `\` and `"` alone agrees with `escape_debug` on the texts it keeps. -/
theorem escapeText_eq_escapeDebugFrom_iff {tables : UnicodeTables} {first : Bool}
    {text : List Char} :
    escapeText text = escapeDebugFrom tables first text ↔ KeptFrom tables first text := by
  induction text generalizing first with
  | nil => exact iff_of_true rfl trivial
  | cons c text ih =>
      rw [escapeText_cons, escapeDebugFrom,
        escapeChar_append_eq_spelling_iff (spelling_escapeDebugExt tables first c), ih, KeptFrom]

end RustText
