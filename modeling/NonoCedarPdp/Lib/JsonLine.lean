import NonoCedarPdp.Lib.JsonReader
import NonoCedarPdp.Lib.PlainText

/-!
JSON text as a line of a file. Compact text holds no line end. What the reader takes off
the front of a text it takes off every longer text, so an object whose text breaks off
anywhere is not read as a value.
-/
namespace JsonText
open RustText

/-! ## Line ends -/

def Unbroken (s : String) : Prop := '\n' ∉ s.toList

theorem unbroken_append {s t : String} (first : Unbroken s) (second : Unbroken t) :
    Unbroken (s ++ t) := by
  rw [Unbroken, String.toList_append, List.mem_append]
  exact not_or.mpr ⟨first, second⟩

theorem unbroken_intercalate {sep : String} (unbroken : Unbroken sep)
    {pieces : List String} (each : ∀ p ∈ pieces, Unbroken p) :
      Unbroken (sep.intercalate pieces) := by
  induction pieces with
  | nil => exact (List.not_mem_nil : '\n' ∉ [])
  | cons p pieces ih =>
      rw [List.forall_mem_cons] at each
      cases pieces with
      | nil => exact String.intercalate_singleton.symm ▸ each.1
      | cons q pieces =>
          rw [String.intercalate_cons_cons]
          exact unbroken_append (unbroken_append each.1 unbroken) (ih each.2)

theorem digitChar_ne_newline (d : Fin 16) : Nat.digitChar d.val ≠ '\n' := by
  revert d
  decide

theorem unbroken_toString_nat (n : Nat) : Unbroken (toString n) :=
  fun mem => forall_mem_toString_nat (P := (· ≠ '\n')) digitChar_ne_newline n '\n' mem rfl

theorem newline_not_mem_escapeChar (c : Char) : '\n' ∉ escapeChar c := by
  have written := written_escapeChar c
  generalize escapeChar c = code at written
  intro mem
  cases written with
  | short pair =>
      have letters : (shortEscapes.all fun p => p.2 != '\n') = true := rfl
      have letter := List.all_eq_true.mp letters _ pair
      simp only [List.mem_cons, List.not_mem_nil, or_false] at mem
      obtain lead | same := mem
      · exact absurd lead (by decide)
      · simp [← same] at letter
  | unit low =>
      rw [List.mem_cons, List.mem_cons] at mem
      obtain lead | lead | digit := mem
      · exact absurd lead (by decide)
      · exact absurd lead (by decide)
      · exact forall_mem_lowerHex (P := (· ≠ '\n')) digitChar_ne_newline 4 c.toNat
          '\n' digit rfl
  | itself quote backslash high =>
      rw [List.mem_singleton] at mem
      exact high (mem ▸ (by decide))

theorem unbroken_quote (s : String) : Unbroken (quote s) := by
  intro mem
  simp only [quote, String.toList_ofList, List.cons_append, List.mem_cons,
    List.mem_append, List.mem_flatMap, List.not_mem_nil, or_false] at mem
  obtain opened | ⟨c, -, code⟩ | closed := mem
  · exact absurd opened (by decide)
  · exact newline_not_mem_escapeChar c code
  · exact absurd closed (by decide)

theorem Compact.unbroken {depth : Nat} {value : Value} {text : String}
    (h : Compact depth value text) : Unbroken text := by
  have literal (s : String) (free : s.toList.contains '\n' = false) : Unbroken s := by
    intro mem
    rw [List.contains_iff_mem.mpr mem] at free
    cases free
  have comma : Unbroken "," := literal "," rfl
  induction h with
  | null => exact literal "null" rfl
  | bool b =>
      cases b with
      | true => exact literal "true" rfl
      | false => exact literal "false" rfl
  | natural n => exact unbroken_toString_nat n
  | string s => exact unbroken_quote s
  | @array _ items each ih =>
      refine unbroken_append
        (unbroken_append (literal "[" rfl) (unbroken_intercalate comma ?_))
        (literal "]" rfl)
      intro p mem
      obtain ⟨i, known, rfl⟩ := List.mem_map.mp mem
      exact ih i known
  | @object _ members each ih =>
      refine unbroken_append
        (unbroken_append (literal "\x7b" rfl) (unbroken_intercalate comma ?_))
        (literal "\x7d" rfl)
      intro p mem
      obtain ⟨f, member, rfl⟩ := List.mem_map.mp mem
      obtain ⟨m, known, rfl⟩ := List.mem_map.mp member
      exact unbroken_append
        (unbroken_append (unbroken_quote m.1) (literal ":" rfl)) (ih m known)

/-! ## Text behind text -/

section Readers
variable {α : Type}

/-- What is read stays read with more text behind it. -/
def Closed (read : List Char → Option (α × List Char)) : Prop :=
  ∀ {s a rest} (more : List Char), read s = some (a, rest) →
    read (s ++ more) = some (a, rest ++ more)

/-- So it does when something stands behind it already: a number ends where its
characters end. -/
def Extendable (read : List Char → Option (α × List Char)) : Prop :=
  ∀ {s a rest} (more : List Char), read s = some (a, rest) → rest ≠ [] →
    read (s ++ more) = some (a, rest ++ more)

theorem skipSpace_append {s rest : List Char} {c : Char} (solid : skipSpace s = c :: rest)
    (more : List Char) : skipSpace (s ++ more) = c :: (rest ++ more) := by
  have front : s.dropWhile isSpace = c :: rest := solid
  rw [skipSpace, List.dropWhile_append, front]
  rfl

end Readers

/-! ## Strings -/

theorem closed_readUnit : Closed readUnit := by
  intro s n rest more taken
  match s, taken with
  | a :: b :: c :: d :: tail, taken =>
      simp only [readUnit, Option.bind_eq_bind, Option.bind_eq_some_iff,
        Option.some.injEq, Prod.mk.injEq] at taken
      obtain ⟨a', ha, b', hb, c', hc, d', hd, value, rfl⟩ := taken
      simp [readUnit, ha, hb, hc, hd, value]

theorem closed_readUnicode : Closed readUnicode := by
  intro s c rest more taken
  cases first : readUnit s with
  | none => simp [readUnicode, first] at taken
  | some unit =>
      obtain ⟨unit, tail⟩ := unit
      have same := closed_readUnit more first
      rw [readUnicode, first] at taken
      rw [readUnicode, same]
      dsimp only at taken ⊢
      split at taken
      · next high =>
        rw [if_pos high]
        split at taken
        · next tail =>
          cases second : readUnit tail with
          | none => simp [second] at taken
          | some read =>
              obtain ⟨low, behind⟩ := read
              simp only [second, Option.ite_none_right_eq_some, Option.some.injEq,
                Prod.mk.injEq] at taken
              obtain ⟨inRange, rfl, rfl⟩ := taken
              simp [closed_readUnit more second, inRange]
        · cases taken
      · next low =>
        rw [if_neg low]
        split at taken
        · cases taken
        · next plain =>
          cases taken
          rw [if_neg plain]

theorem closed_readEscape : Closed readEscape := by
  intro s c rest more taken
  cases s with
  | nil => cases taken
  | cons d tail =>
      rw [readEscape] at taken
      rw [List.cons_append, readEscape]
      split at taken
      · next unicode =>
        rw [if_pos unicode]
        exact closed_readUnicode more taken
      · next simple =>
        rw [if_neg simple]
        obtain ⟨e, found, same⟩ := Option.map_eq_some_iff.mp taken
        cases same
        rw [found]
        rfl

theorem readChars_append {fuel fuel' : Nat} (enough : fuel ≤ fuel')
    {s cs rest : List Char} (taken : readChars fuel s = some (cs, rest))
    (more : List Char) : readChars fuel' (s ++ more) = some (cs, rest ++ more) := by
  induction fuel generalizing fuel' s cs with
  | zero => cases taken
  | succ fuel ih =>
      obtain ⟨fuel', rfl⟩ : ∃ left, fuel' = left + 1 := ⟨fuel' - 1, by omega⟩
      have left : fuel ≤ fuel' := Nat.le_of_succ_le_succ enough
      cases s with
      | nil => cases taken
      | cons c tail =>
          rw [readChars] at taken
          rw [List.cons_append, readChars]
          split at taken
          · next quote =>
            cases taken
            rw [if_pos quote]
          · next inside =>
            rw [if_neg inside]
            split at taken
            · next backslash =>
              rw [if_pos backslash]
              cases escape : readEscape tail with
              | none => simp [escape] at taken
              | some read =>
                  simp only [escape, Option.map_eq_some_iff] at taken
                  obtain ⟨others, later, same⟩ := taken
                  cases same
                  simp only [closed_readEscape more escape, ih left later,
                    Option.map_some]
            · next unescaped =>
              rw [if_neg unescaped]
              split at taken
              · cases taken
              · next high =>
                rw [if_neg high]
                obtain ⟨others, later, same⟩ := Option.map_eq_some_iff.mp taken
                cases same
                simp only [ih left later, Option.map_some]

theorem closed_readString : Closed readString := by
  intro s text rest more taken
  obtain ⟨read, found, same⟩ := Option.map_eq_some_iff.mp taken
  cases same
  have longer : s.length ≤ (s ++ more).length := by simp
  rw [readString, readChars_append longer found more, Option.map_some]

/-! ## Words and numbers -/

theorem closed_readWord (word : String) (value : Value) :
    Closed (readWord word value) := by
  intro s v rest more taken
  rw [readWord] at taken
  split at taken
  · next front =>
    obtain ⟨tail, rfl⟩ := List.isPrefixOf_iff_prefix.mp front
    cases taken
    rw [List.append_assoc, readWord_append, List.drop_left]
  · cases taken

theorem extendable_readNumber : Extendable readNumber := by
  intro s v rest more taken nonempty
  rw [readNumber] at taken
  split at taken
  · next literal =>
    cases taken
    have ends : (s.takeWhile isNumberChar).length ≠ s.length := by
      intro all
      apply nonempty
      have whole := List.takeWhile_append_dropWhile (p := isNumberChar) (l := s)
      have length := congrArg List.length whole
      rw [List.length_append, all] at length
      exact List.length_eq_zero_iff.mp (by omega)
    have same : (s ++ more).takeWhile isNumberChar = s.takeWhile isNumberChar := by
      rw [List.takeWhile_append, if_neg ends]
    rw [readNumber, same, if_pos literal, List.dropWhile_append,
      if_neg (by simpa using nonempty)]
  · cases taken

/-! ## Lists and objects -/

section Lists
variable {α : Type} {item : List Char → Option (α × List Char)} {close : Char}

theorem readItems_append (extends_ : Extendable item) {fuel fuel' : Nat}
    (enough : fuel ≤ fuel') {s rest : List Char} {items : List α}
    (taken : readItems item close fuel s = some (items, rest)) (more : List Char) :
      readItems item close fuel' (s ++ more) = some (items, rest ++ more) := by
  induction fuel generalizing fuel' s items with
  | zero => cases taken
  | succ fuel ih =>
      obtain ⟨fuel', rfl⟩ : ∃ left, fuel' = left + 1 := ⟨fuel' - 1, by omega⟩
      have left : fuel ≤ fuel' := Nat.le_of_succ_le_succ enough
      cases first : item s with
      | none => simp [readItems, first] at taken
      | some read =>
          obtain ⟨a, tail⟩ := read
          cases solid : skipSpace tail with
          | nil => simp [readItems, first, solid] at taken
          | cons c behind =>
              have nonempty : tail ≠ [] := by
                rintro rfl
                cases solid
              simp only [readItems, first, solid] at taken
              simp only [readItems, extends_ more first nonempty,
                skipSpace_append solid more]
              split at taken
              · next comma =>
                rw [if_pos comma]
                obtain ⟨others, later, same⟩ := Option.map_eq_some_iff.mp taken
                cases same
                rw [ih left later, Option.map_some]
              · next last =>
                rw [if_neg last]
                split at taken
                · next closes =>
                  cases taken
                  rw [if_pos closes]
                · cases taken

theorem closed_readList (extends_ : Extendable item) : Closed (readList item close) := by
  intro s items rest more taken
  cases solid : skipSpace s with
  | nil => simp [readList, solid] at taken
  | cons c behind =>
      simp only [readList, solid] at taken
      simp only [readList, skipSpace_append solid more]
      split at taken
      · next empty =>
        cases taken
        rw [if_pos empty]
      · next some =>
        rw [if_neg some]
        have longer : (c :: behind).length ≤ (c :: (behind ++ more)).length := by simp
        exact readItems_append extends_ longer taken more

theorem extendable_readMember {value : List Char → Option (Value × List Char)}
    (extends_ : Extendable value) : Extendable (readMember value) := by
  intro s member rest more taken nonempty
  cases solid : skipSpace s with
  | nil => simp [readMember, solid] at taken
  | cons c behind =>
      simp only [readMember, solid] at taken
      simp only [readMember, skipSpace_append solid more]
      split at taken
      · next quote =>
        rw [if_pos quote]
        cases key : readString behind with
        | none => simp [key] at taken
        | some read =>
            obtain ⟨name, tail⟩ := read
            rw [key] at taken
            rw [closed_readString more key]
            dsimp only at taken ⊢
            cases solid' : skipSpace tail with
            | nil => simp [solid'] at taken
            | cons d behind' =>
                simp only [solid'] at taken
                simp only [skipSpace_append solid' more]
                split at taken
                · next colon =>
                  rw [if_pos colon]
                  obtain ⟨v, found, same⟩ := Option.map_eq_some_iff.mp taken
                  cases same
                  rw [extends_ more found nonempty, Option.map_some]
                · cases taken
      · cases taken

end Lists

/-! ## Values -/

theorem extendable_readValue (depth : Nat) : Extendable (readValue depth) := by
  induction depth with
  | zero =>
      intro s v rest more taken
      cases taken
  | succ depth ih =>
      intro s v rest more taken nonempty
      cases solid : skipSpace s with
      | nil => simp [readValue, solid] at taken
      | cons c behind =>
          have mapped {α : Type} {read : List Char → Option (α × List Char)}
              {f : α → Value} (closed : Closed read)
              (found : (read behind).map (fun r => (f r.1, r.2)) = some (v, rest)) :
              (read (behind ++ more)).map (fun r => (f r.1, r.2)) =
                some (v, rest ++ more) := by
            obtain ⟨r, first, same⟩ := Option.map_eq_some_iff.mp found
            cases same
            rw [closed more first, Option.map_some]
          simp only [readValue, solid] at taken
          simp only [readValue, skipSpace_append solid more]
          split at taken
          · next quote => rw [if_pos quote]; exact mapped closed_readString taken
          rename_i quote
          rw [if_neg quote]
          split at taken
          · next array => rw [if_pos array]; exact mapped (closed_readList ih) taken
          rename_i array
          rw [if_neg array]
          split at taken
          · next object =>
            rw [if_pos object]
            exact mapped (closed_readList (extendable_readMember ih)) taken
          rename_i object
          rw [if_neg object]
          split at taken
          · next null => rw [if_pos null]; exact closed_readWord _ _ more taken
          rename_i null
          rw [if_neg null]
          split at taken
          · next yes => rw [if_pos yes]; exact closed_readWord _ _ more taken
          rename_i yes
          rw [if_neg yes]
          split at taken
          · next no => rw [if_pos no]; exact closed_readWord _ _ more taken
          rename_i no
          rw [if_neg no]
          exact extendable_readNumber more taken nonempty

/-- An object ends with its brace, whatever stands behind it. -/
theorem readValue_object_append {depth : Nat} {s rest : List Char} {v : Value}
    (taken : readValue depth ('\x7b' :: s) = some (v, rest)) (more : List Char) :
    readValue depth ('\x7b' :: s ++ more) = some (v, rest ++ more) := by
  cases depth with
  | zero => cases taken
  | succ depth =>
      have solid (tail : List Char) : skipSpace ('\x7b' :: tail) = '\x7b' :: tail :=
        skipSpace_cons (by decide) tail
      have object (tail : List Char) : readValue (depth + 1) ('\x7b' :: tail) =
          (readList (readMember (readValue depth)) '\x7d' tail).map fun read =>
            (.object read.1, read.2) := by
        rw [readValue, solid]
        rfl
      rw [object] at taken
      rw [List.cons_append, object]
      obtain ⟨read, found, same⟩ := Option.map_eq_some_iff.mp taken
      cases same
      rw [closed_readList (extendable_readMember (extendable_readValue depth)) more found,
        Option.map_some]

/-- The whole text of a value is read as that value, without a line end too. -/
theorem parse_compact_text {value : Value} {text : String}
    (h : Compact maxDepth value text) : parse text.toList = some value := by
  have ends : EndsNumber [] := by simp [EndsNumber]
  have read := readValue_compact h ends
  rw [List.append_nil] at read
  rw [parse, read]
  rfl

/-- A proper prefix of the text of an object is not the text of any value. -/
theorem parse_cut_object {members : List (String × Value)} {text : String}
    (h : Compact maxDepth (.object members) text) {front behind : List Char}
    (cut : text.toList = front ++ behind) (some_left : behind ≠ []) :
      parse front = none := by
  cases front with
  | nil => rfl
  | cons c front =>
      obtain rfl : c = '\x7b' := by
        generalize whole : Value.object members = value at h
        cases h with
        | null | bool | natural | string | array => cases whole
        | object =>
            rw [toList_object, List.cons_append] at cut
            exact (List.cons.inj cut).1.symm
      cases taken : readValue maxDepth ('\x7b' :: front) with
      | none => rw [parse, taken]
      | some read =>
          have longer := readValue_object_append taken behind
          have ends : EndsNumber [] := by simp [EndsNumber]
          have whole := readValue_compact h ends
          rw [List.append_nil, cut, longer] at whole
          have nothing := (Prod.mk.inj (Option.some.inj whole)).2
          exact absurd (List.append_eq_nil_iff.mp nothing).2 some_left

end JsonText
