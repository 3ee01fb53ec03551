import NonoCedarPdp.Lib.JsonText

/-!
Text without control characters. JSON's own escapes cover the C0 controls only; text whose
parts are free of the others stays free of them under every way of writing it down.
-/
namespace RustText
open JsonText

def Plain (s : String) : Prop := s.toList.any isControl = false

instance : DecidablePred Plain :=
  fun s => inferInstanceAs (Decidable (s.toList.any isControl = false))

theorem plain_iff {s : String} : Plain s ↔ ∀ c ∈ s.toList, isControl c = false := by
  rw [Plain, List.any_eq_false]
  simp

theorem plain_append {s t : String} : Plain (s ++ t) ↔ Plain s ∧ Plain t := by
  simp [Plain, String.toList_append, List.any_append]

theorem plain_join {pieces : List String} (each : ∀ p ∈ pieces, Plain p) :
    Plain (String.join pieces) := by
  rw [plain_iff, String.toList_join]
  intro c mem
  obtain ⟨p, known, inside⟩ := List.mem_flatMap.mp mem
  exact plain_iff.mp (each p known) c inside

theorem plain_intercalate {sep : String} (plain : Plain sep) {pieces : List String}
    (each : ∀ p ∈ pieces, Plain p) : Plain (sep.intercalate pieces) := by
  induction pieces with
  | nil => exact (by decide : Plain "")
  | cons p pieces ih =>
      rw [List.forall_mem_cons] at each
      cases pieces with
      | nil => exact String.intercalate_singleton.symm ▸ each.1
      | cons q pieces =>
          rw [String.intercalate_cons_cons, plain_append, plain_append]
          exact ⟨⟨each.1, plain⟩, ih each.2⟩

/-! ## Digits -/

theorem plain_digitChar (d : Fin 16) : isControl (Nat.digitChar d.val) = false := by
  revert d
  decide

theorem forall_mem_toDigits {P : Char → Prop} (each : ∀ d : Fin 16, P (Nat.digitChar d))
    {base n : Nat} (proper : 1 < base) (small : base ≤ 16) :
      ∀ c ∈ Nat.toDigits base n, P c := by
  induction n using Nat.strongRecOn with
  | ind n ih =>
      intro c mem
      by_cases single : n < base
      · rw [Nat.toDigits_of_lt_base single, List.mem_singleton] at mem
        exact mem ▸ each ⟨n, by omega⟩
      · rw [Nat.toDigits_of_base_le proper (by omega), List.mem_append,
          List.mem_singleton] at mem
        cases mem with
        | inl front => exact ih (n / base) (Nat.div_lt_self (by omega) proper) c front
        | inr last =>
            have bound := Nat.mod_lt n (by omega : 0 < base)
            exact last ▸ each ⟨n % base, by omega⟩

theorem forall_mem_lowerHex {P : Char → Prop} (each : ∀ d : Fin 16, P (Nat.digitChar d))
    (width n : Nat) : ∀ c ∈ (lowerHex width n).toList, P c := by
  intro c mem
  rw [lowerHex, String.toList_ofList, List.mem_append] at mem
  cases mem with
  | inl padding => exact (List.mem_replicate.mp padding).2 ▸ each 0
  | inr digit => exact forall_mem_toDigits each (by decide) (by decide) c digit

theorem forall_mem_toString_nat {P : Char → Prop}
    (each : ∀ d : Fin 16, P (Nat.digitChar d)) (n : Nat) :
      ∀ c ∈ (toString n).toList, P c := by
  intro c mem
  have digit : c ∈ Nat.toDigits 10 n := Nat.toList_repr ▸ mem
  exact forall_mem_toDigits each (by decide) (by decide) c digit

theorem plain_lowerHex (width n : Nat) : Plain (lowerHex width n) :=
  plain_iff.mpr (forall_mem_lowerHex plain_digitChar width n)

theorem plain_toString_nat (n : Nat) : Plain (toString n) :=
  plain_iff.mpr (forall_mem_toString_nat plain_digitChar n)

/-! ## Debug text -/

/-- A control character is never printed as it is. -/
def ControlsUnprintable (tables : UnicodeTables) : Prop :=
  ∀ c, isControl c = true → tables.printable c = false

theorem plain_codePoint (width n : Nat) :
    Plain ("\\u\x7b" ++ lowerHex width n ++ "\x7d") := by
  rw [plain_append, plain_append]
  exact ⟨⟨by decide, plain_lowerHex width n⟩, by decide⟩

theorem plain_escapeDebug {tables : UnicodeTables}
    (law : ControlsUnprintable tables) (c : Char) : Plain (escapeDebug tables c) := by
  rw [escapeDebug]
  split
  · decide
  split
  · decide
  split
  · decide
  split
  · decide
  split
  · decide
  split
  · decide
  split
  · exact plain_codePoint 1 c.toNat
  split
  · next printable =>
    have free : isControl c = false := by
      cases control : isControl c with
      | false => rfl
      | true =>
          rw [law c control] at printable
          cases printable
    simpa [Plain] using free
  · exact plain_codePoint 1 c.toNat

theorem plain_debugStr {tables : UnicodeTables} (law : ControlsUnprintable tables)
    (s : String) : Plain (debugStr tables s) := by
  have inside : Plain (String.join (s.toList.map (escapeDebug tables))) := by
    apply plain_join
    intro p mem
    obtain ⟨c, -, rfl⟩ := List.mem_map.mp mem
    exact plain_escapeDebug law c
  rw [debugStr, plain_append, plain_append]
  exact ⟨⟨by decide, inside⟩, by decide⟩

/-! ## JSON text -/

theorem isControl_escapeChar {c : Char} (free : isControl c = false) :
    ∀ d ∈ escapeChar c, isControl d = false := by
  have written := written_escapeChar c
  generalize escapeChar c = code at written
  intro d mem
  cases written with
  | short pair =>
      have letters : ∀ p ∈ shortEscapes, isControl p.2 = false := by
        simp only [shortEscapes]; decide
      rw [List.mem_pair] at mem
      cases mem with
      | inl lead => exact lead ▸ (by decide)
      | inr letter => exact letter ▸ letters _ pair
  | unit low =>
      rw [List.mem_cons, List.mem_cons] at mem
      obtain lead | lead | digit := mem
      · exact lead ▸ (by decide)
      · exact lead ▸ (by decide)
      · exact plain_iff.mp (plain_lowerHex 4 c.toNat) d digit
  | itself => exact (List.mem_singleton.mp mem) ▸ free

theorem plain_quote {s : String} (plain : Plain s) : Plain (quote s) := by
  rw [plain_iff] at plain ⊢
  intro d mem
  simp only [quote, String.toList_ofList, List.cons_append, List.mem_cons,
    List.mem_append, List.mem_flatMap, List.not_mem_nil, or_false] at mem
  obtain opened | ⟨c, known, code⟩ | closed := mem
  · exact opened ▸ (by decide)
  · exact isControl_escapeChar (plain c known) d code
  · exact closed ▸ (by decide)

theorem plain_nullable {α : Type} {text : α → String} {value : Option α}
    (plain : ∀ a, value = some a → Plain (text a)) : Plain (nullable text value) := by
  cases value with
  | none => exact (by decide : Plain "null")
  | some a => exact plain a rfl

theorem plain_array {elements : List String} (each : ∀ e ∈ elements, Plain e) :
    Plain (array elements) := by
  rw [array, plain_append, plain_append]
  exact ⟨⟨by decide, plain_intercalate (by decide) each⟩, by decide⟩

theorem plain_object {fields : List (String × String)} (keys : ∀ f ∈ fields, Plain f.1)
    (values : ∀ f ∈ fields, Plain f.2) : Plain (object fields) := by
  have members : ∀ m ∈ fields.map fun f => quote f.1 ++ ":" ++ f.2, Plain m := by
    intro m mem
    obtain ⟨f, known, rfl⟩ := List.mem_map.mp mem
    rw [plain_append, plain_append]
    exact ⟨⟨plain_quote (keys f known), by decide⟩, values f known⟩
  rw [object, plain_append, plain_append]
  exact ⟨⟨by decide, plain_intercalate (by decide) members⟩, by decide⟩

end RustText
