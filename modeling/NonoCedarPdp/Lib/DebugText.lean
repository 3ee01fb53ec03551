import NonoCedarPdp.Lib.Escaping
import NonoCedarPdp.Lib.PlainText

/-!
The `Debug` of `str` as an escaping: backslash and quote stand behind the mark, and what
is not printable is spelled in letters, digits and braces.
-/
namespace RustText

/-- The characters escapes are spelled with. -/
def Word (c : Char) : Prop :=
  c.isAlphanum = true ∨ c = Char.ofNat 0x7b ∨ c = Char.ofNat 0x7d

instance : DecidablePred Word := fun c =>
  inferInstanceAs
    (Decidable (c.isAlphanum = true ∨ c = Char.ofNat 0x7b ∨ c = Char.ofNat 0x7d))

inductive DebugForm (c : Char) : List Char → Prop
  | plain (noBackslash : c ≠ '\\') (noQuote : c ≠ '"') : DebugForm c [c]
  | special (special : c = '\\' ∨ c = '"') : DebugForm c ['\\', c]
  | spelled {code : Char} {rest : List Char} (new : code ≠ c)
      (word : ∀ d ∈ code :: rest, Word d) : DebugForm c ('\\' :: code :: rest)

theorem debugForm_codePoint {c : Char} (other : 'u' ≠ c) :
    DebugForm c ("\\u\x7b" ++ lowerHex 1 c.toNat ++ "\x7d").toList := by
  have text : ("\\u\x7b" ++ lowerHex 1 c.toNat ++ "\x7d").toList =
      '\\' :: 'u' :: Char.ofNat 0x7b ::
        ((lowerHex 1 c.toNat).toList ++ [Char.ofNat 0x7d]) := by
    simp
  rw [text]
  refine .spelled other ?_
  simp only [List.forall_mem_cons, List.forall_mem_append, List.not_mem_nil,
    false_implies, implies_true, and_true]
  exact ⟨by decide, by decide, forall_mem_lowerHex (by decide) 1 c.toNat, by decide⟩

theorem debugForm_escapeDebug (tables : UnicodeTables) (c : Char) :
    DebugForm c (escapeDebug tables c).toList := by
  unfold escapeDebug
  split_ifs with nul tab ret line backslash quote extender printable
  · subst nul
    exact .spelled (by decide) (List.forall_mem_singleton.mpr (by decide))
  · subst tab
    exact .spelled (by decide) (List.forall_mem_singleton.mpr (by decide))
  · subst ret
    exact .spelled (by decide) (List.forall_mem_singleton.mpr (by decide))
  · subst line
    exact .spelled (by decide) (List.forall_mem_singleton.mpr (by decide))
  · subst backslash
    exact .special (.inl rfl)
  · subst quote
    exact .special (.inr rfl)
  · refine debugForm_codePoint ?_
    rintro rfl
    rw [tables.graphemeExtend_ascii _ (by decide)] at extender
    cases extender
  · rw [String.toList_singleton]
    exact .plain backslash quote
  · refine debugForm_codePoint ?_
    rintro rfl
    rw [tables.printable_ascii _ (by decide)] at printable
    exact printable rfl

/-- Printable ASCII but backslash and quote is written as it is. -/
theorem escapeDebug_ascii (tables : UnicodeTables) {c : Char} (low : 0x20 ≤ c.toNat)
    (high : c.toNat < 0x7f) (noBackslash : c ≠ '\\') (noQuote : c ≠ '"') :
    (escapeDebug tables c).toList = [c] := by
  have extender := tables.graphemeExtend_ascii c (by omega)
  have printable : tables.printable c = true := by
    rw [tables.printable_ascii c (by omega)]
    exact decide_eq_true ⟨low, high⟩
  have control (d : Char) (below : d.toNat < 0x20) : c ≠ d := by
    rintro rfl
    omega
  rw [escapeDebug, if_neg (control _ (by decide)), if_neg (control _ (by decide)),
    if_neg (control _ (by decide)), if_neg (control _ (by decide)), if_neg noBackslash,
    if_neg noQuote, extender, if_neg Bool.false_ne_true, if_pos printable,
    String.toList_singleton]

theorem alphanum_range {c : Char} (alnum : c.isAlphanum = true) :
    (48 ≤ c.toNat ∧ c.toNat ≤ 57) ∨ (65 ≤ c.toNat ∧ c.toNat ≤ 90) ∨
      (97 ≤ c.toNat ∧ c.toNat ≤ 122) := by
  have tests : (((decide (c.val ≥ 'A'.val ∧ c.val ≤ 'Z'.val)) ||
      (decide (c.val ≥ 'a'.val) && decide (c.val ≤ 'z'.val))) ||
      (decide (c.val ≥ '0'.val) && decide (c.val ≤ '9'.val))) = true := alnum
  simp only [Bool.or_eq_true, Bool.and_eq_true, decide_eq_true_eq, ge_iff_le,
    UInt32.le_iff_toNat_le] at tests
  change ((65 ≤ c.toNat ∧ c.toNat ≤ 90) ∨ (97 ≤ c.toNat ∧ c.toNat ≤ 122)) ∨
    (48 ≤ c.toNat ∧ c.toNat ≤ 57) at tests
  omega

theorem word_bounds {c : Char} (word : Word c) :
    0x20 ≤ c.toNat ∧ c.toNat < 0x7f ∧ c ≠ '\\' ∧ c ≠ '"' := by
  have backslash : ('\\' : Char).toNat = 92 := rfl
  have quote : ('"' : Char).toNat = 34 := rfl
  obtain alnum | rfl | rfl := word
  · have range := alphanum_range alnum
    refine ⟨by omega, by omega, ?_, ?_⟩
    · rintro rfl
      omega
    · rintro rfl
      omega
  · decide
  · decide

theorem escapeDebug_backslash (tables : UnicodeTables) :
    (escapeDebug tables '\\').toList = ['\\', '\\'] := by
  simp [escapeDebug]

def debugEscaping (tables : UnicodeTables) : Escaping Char where
  mark := '\\'
  esc c := (escapeDebug tables c).toList
  shape := by
    intro c
    have form := debugForm_escapeDebug tables c
    generalize (escapeDebug tables c).toList = text at form
    cases form with
    | plain noBackslash noQuote => exact .plain noBackslash
    | special special => exact .marked
    | spelled new word =>
        exact .spelled (word_bounds (word _ List.mem_cons_self)).2.2.1 new
  esc_mark := escapeDebug_backslash tables
  image := by
    intro c d mem
    have form := debugForm_escapeDebug tables c
    generalize escaped : (escapeDebug tables c).toList = text at form mem
    have marked := escapeDebug_backslash tables
    cases form with
    | plain noBackslash noQuote => exact .inl ((List.mem_singleton.mp mem) ▸ escaped)
    | special special =>
        rw [List.mem_pair] at mem
        obtain rfl | rfl := mem
        · exact .inr marked
        · exact .inr escaped
    | spelled new word =>
        rw [List.mem_cons] at mem
        obtain rfl | mem := mem
        · exact .inr marked
        · obtain ⟨low, high, noBackslash, noQuote⟩ := word_bounds (word d mem)
          exact .inl (escapeDebug_ascii tables low high noBackslash noQuote)

/-- Escaping makes no character but the mark and the characters escapes are spelled
with. -/
theorem forall_mem_debugEscaping (tables : UnicodeTables) {ok : Char → Prop}
    (mark : ok '\\') (word : ∀ d, Word d → ok d) :
      ∀ c, ok c → ∀ d ∈ (debugEscaping tables).esc c, ok d := by
  intro c known
  have form := debugForm_escapeDebug tables c
  change ∀ d ∈ (escapeDebug tables c).toList, ok d
  generalize (escapeDebug tables c).toList = text at form
  cases form with
  | plain noBackslash noQuote => simpa using known
  | special special => simpa using ⟨mark, known⟩
  | spelled new spelling =>
      rw [List.forall_mem_cons]
      exact ⟨mark, fun d mem => word d (spelling d mem)⟩

theorem toList_debugStr (tables : UnicodeTables) (s : String) :
    (debugStr tables s).toList =
      '"' :: ((debugEscaping tables).all s.toList ++ ['"']) := by
  simp [debugStr, Escaping.all, debugEscaping, String.toList_join, List.flatMap_map]

end RustText
