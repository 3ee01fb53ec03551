import Mathlib.Data.List.Basic

/-!
Quoted literals: a body between two `"` in which `\` starts an escape. A text whose
quotes and backslashes are escaped is read back as it was, in one way only, and no quote
inside it closes the literal.
-/
namespace QuotedLiteral

/-- The escapes of one character behind the backslash. -/
def simpleEscape (code : Char) : Option Char :=
  if code = '\\' then some '\\'
  else if code = '"' then some '"'
  else if code = Char.ofNat 0x27 then some (Char.ofNat 0x27)
  else if code = 'n' then some '\n'
  else if code = 'r' then some '\r'
  else if code = 't' then some '\t'
  else if code = '0' then some (Char.ofNat 0)
  else none

def hexDigit (c : Char) : Option Nat :=
  if '0' ≤ c ∧ c ≤ '9' then some (c.toNat - '0'.toNat)
  else if 'a' ≤ c ∧ c ≤ 'f' then some (c.toNat - 'a'.toNat + 10)
  else if 'A' ≤ c ∧ c ≤ 'F' then some (c.toNat - 'A'.toNat + 10)
  else none

def hexValue (digits : List Char) : Option Nat :=
  digits.foldlM (fun n d => (hexDigit d).map (16 * n + ·)) 0

/-- The body of a literal, and the text it stands for. -/
inductive Body : List Char → List Char → Prop
  | nil : Body [] []
  | plain {c : Char} {source value : List Char} (noQuote : c ≠ '"')
      (noBackslash : c ≠ '\\') (rest : Body source value) :
        Body (c :: source) (c :: value)
  | escape {code c : Char} {source value : List Char}
      (simple : simpleEscape code = some c) (rest : Body source value) :
        Body ('\\' :: code :: source) (c :: value)
  | byte {high low c : Char} {source value : List Char} (small : c.toNat < 0x80)
      (hex : hexValue [high, low] = some c.toNat) (rest : Body source value) :
      Body ('\\' :: 'x' :: high :: low :: source) (c :: value)
  | unicode {digits source value : List Char} {c : Char} (short : digits.length ≤ 6)
      (hex : hexValue digits = some c.toNat) (rest : Body source value) :
      Body ('\\' :: 'u' :: Char.ofNat 0x7b :: (digits ++ Char.ofNat 0x7d :: source)) (c :: value)

def escapeChar (c : Char) : List Char :=
  if c = '\\' then ['\\', '\\'] else if c = '"' then ['\\', '"'] else [c]

def escapeText (value : List Char) : List Char := value.flatMap escapeChar

/-- The body of a literal whose opening quote has been read, and what follows its
closing quote. -/
def splitAtQuote : List Char → Option (List Char × List Char)
  | [] => none
  | c :: rest =>
      if c = '"' then some ([], rest)
      else if c = '\\' then
        match rest with
        | [] => none
        | code :: rest =>
            (splitAtQuote rest).map fun (body, after) => (c :: code :: body, after)
      else (splitAtQuote rest).map fun (body, after) => (c :: body, after)

/-- A reader of bodies with the two escapes an escaped text needs. -/
def unescape : List Char → Option (List Char)
  | [] => some []
  | c :: rest =>
      if c = '"' then none
      else if c = '\\' then
        match rest with
        | [] => none
        | code :: rest =>
            if code = '\\' ∨ code = '"' then (unescape rest).map (code :: ·) else none
      else (unescape rest).map (c :: ·)

theorem escapeText_cons (c : Char) (value : List Char) :
    escapeText (c :: value) = escapeChar c ++ escapeText value := by
  simp [escapeText]

theorem escapeChar_of_plain {c : Char} (noQuote : c ≠ '"') (noBackslash : c ≠ '\\') :
    escapeChar c = [c] := by
  rw [escapeChar, if_neg noBackslash, if_neg noQuote]

theorem Body.of_plain {c : Char} {source value : List Char} (noBackslash : c ≠ '\\')
    (h : Body (c :: source) value) : ∃ rest, value = c :: rest ∧ Body source rest := by
  cases h with
  | plain _ _ rest => exact ⟨_, rfl, rest⟩
  | escape _ _ | byte _ _ _ | unicode _ _ _ => exact absurd rfl noBackslash

/-- An escaped text is read in one way. -/
theorem Body.unique {value other : List Char} (h : Body (escapeText value) other) :
    other = value := by
  induction value generalizing other with
  | nil =>
      cases h
      rfl
  | cons c value ih =>
      rw [escapeText_cons] at h
      by_cases backslash : c = '\\'
      · subst backslash
        cases h with
        | plain _ noBackslash _ => exact absurd rfl noBackslash
        | escape simple rest =>
            cases simple
            exact congrArg _ (ih rest)
      · by_cases quote : c = '"'
        · subst quote
          cases h with
          | plain _ noBackslash _ => exact absurd rfl noBackslash
          | escape simple rest =>
              cases simple
              exact congrArg _ (ih rest)
        · rw [escapeChar_of_plain quote backslash] at h
          obtain ⟨rest, rfl, further⟩ := Body.of_plain backslash h
          exact congrArg _ (ih further)

theorem splitAtQuote_quote (rest : List Char) :
    splitAtQuote ('"' :: rest) = some ([], rest) := by
  rw [splitAtQuote.eq_def]
  rfl

theorem splitAtQuote_plain {c : Char} (noQuote : c ≠ '"') (noBackslash : c ≠ '\\')
    (rest : List Char) :
    splitAtQuote (c :: rest) = (splitAtQuote rest).map fun (body, after) =>
      (c :: body, after) := by
  rw [splitAtQuote.eq_def]
  simp only [if_neg noQuote, if_neg noBackslash]

theorem eq_of_splitAtQuote {source body after : List Char}
    (h : splitAtQuote source = some (body, after)) : source = body ++ '"' :: after := by
  fun_induction splitAtQuote source generalizing body with
  | case1 | case3 => cases h
  | case2 rest => cases h; rfl
  | case4 _ _ _ ih =>
      obtain ⟨⟨inner, rest⟩, found, same⟩ := Option.map_eq_some_iff.mp h
      cases same
      rw [ih found]
      rfl
  | case5 _ _ _ _ ih =>
      obtain ⟨⟨inner, rest⟩, found, same⟩ := Option.map_eq_some_iff.mp h
      cases same
      rw [ih found]
      rfl

theorem unescape_plain {c : Char} (noQuote : c ≠ '"') (noBackslash : c ≠ '\\')
    (rest : List Char) : unescape (c :: rest) = (unescape rest).map (c :: ·) := by
  rw [unescape.eq_def]
  simp only [if_neg noQuote, if_neg noBackslash]

/-- The first quote that closes an escaped text is the one put behind it. -/
theorem splitAtQuote_escapeText (value rest : List Char) :
    splitAtQuote (escapeText value ++ '"' :: rest) = some (escapeText value, rest) := by
  induction value with
  | nil => exact splitAtQuote_quote rest
  | cons c value ih =>
      rw [escapeText_cons]
      by_cases backslash : c = '\\'
      · subst backslash
        simp [escapeChar, splitAtQuote, ih]
      · by_cases quote : c = '"'
        · subst quote
          simp [escapeChar, splitAtQuote, ih]
        · simp [escapeChar_of_plain quote backslash,
            splitAtQuote_plain quote backslash, ih]

theorem body_of_unescape {source value : List Char} (h : unescape source = some value) :
    Body source value := by
  fun_induction unescape source generalizing value with
  | case1 => cases h; exact .nil
  | case2 | case3 | case5 => cases h
  | case4 code rest special noQuote ih =>
      obtain ⟨read, found, rfl⟩ := Option.map_eq_some_iff.mp h
      have simple : simpleEscape code = some code := by
        obtain rfl | rfl := special <;> rfl
      exact .escape simple (ih found)
  | case6 c rest noQuote noBackslash ih =>
      obtain ⟨read, found, rfl⟩ := Option.map_eq_some_iff.mp h
      exact .plain noQuote noBackslash (ih found)

theorem unescape_escapeText (value : List Char) :
    unescape (escapeText value) = some value := by
  induction value with
  | nil => rfl
  | cons c value ih =>
      rw [escapeText_cons]
      by_cases backslash : c = '\\'
      · subst backslash
        simp [escapeChar, unescape, ih]
      · by_cases quote : c = '"'
        · subst quote
          simp [escapeChar, unescape, ih]
        · simp [escapeChar_of_plain quote backslash, unescape_plain quote backslash, ih]

end QuotedLiteral
