import NonoCedarPdp.EndpointDecoding

/-!
Percent-encoding as a relation between a text and the bytes it stands for, and
`percent_decode` as its strict decoder. A pass that decodes anything shortens the path, so
the search for dot segments never stands still.
-/
namespace NonoCedarPdp
open RustText

/-- The digits of a value, in lower and in upper case. -/
def hexDigits (value : Fin 16) : List UInt8 :=
  [(Nat.digitChar value).toUInt8, (Nat.digitChar value).toUpper.toUInt8]

def HexPair (high low byte : UInt8) : Prop :=
  ∃ h l : Fin 16, high ∈ hexDigits h ∧ low ∈ hexDigits l ∧ byte.toNat = 16 * h.val + l.val

/-- Bytes with any of them, and every `%`, written as `%` and two hex digits. -/
def PercentEncoded (source bytes : List UInt8) : Prop :=
  EscapeCode.Encodes '%'.toUInt8 HexPair source bytes

def IsUtf8 (bytes : List UInt8) : Prop := ∃ text, Utf8.encode text = bytes

/-! ## Hex digits -/

theorem hex_of_mem_hexDigits (value : Fin 16) {byte : UInt8}
    (digit : byte ∈ hexDigits value) : hex byte = some (UInt8.ofNat value) := by
  have table : ∀ value : Fin 16,
      hex (Nat.digitChar value).toUInt8 = some (UInt8.ofNat value) ∧
      hex (Nat.digitChar value).toUpper.toUInt8 = some (UInt8.ofNat value) := by
    decide
  rw [hexDigits, List.mem_pair] at digit
  obtain rfl | rfl := digit
  · exact (table value).1
  · exact (table value).2

theorem mem_hexDigits_of_hex (byte : UInt8) {v : UInt8} (h : hex byte = some v) :
    ∃ value : Fin 16, byte ∈ hexDigits value ∧ v = UInt8.ofNat value := by
  have table : ∀ b : Fin 256, hex (UInt8.ofNat b) = none ∨
      ∃ value : Fin 16, UInt8.ofNat b ∈ hexDigits value := by
    decide +kernel
  have range := table ⟨byte.toNat, byte.toNat_lt⟩
  rw [UInt8.ofNat_toNat, h] at range
  obtain absent | ⟨value, digit⟩ := range
  · cases absent
  · refine ⟨value, digit, ?_⟩
    have worth := hex_of_mem_hexDigits value digit
    rw [h] at worth
    exact Option.some.inj worth

theorem toNat_pair (h l : Fin 16) :
    (UInt8.ofNat h * 16 + UInt8.ofNat l).toNat = 16 * h.val + l.val := by
  have high := h.isLt
  have low := l.isLt
  simp only [UInt8.toNat_add, UInt8.toNat_mul, UInt8.toNat_ofNat', UInt8.toNat_ofNat]
  omega

theorem percent_pair_iff (high low byte : UInt8) :
    percent.pair high low = some byte ↔ HexPair high low byte := by
  simp only [percent, Option.bind_eq_some_iff, Option.map_eq_some_iff]
  constructor
  · rintro ⟨_, hexHigh, _, hexLow, rfl⟩
    obtain ⟨h, highDigit, rfl⟩ := mem_hexDigits_of_hex high hexHigh
    obtain ⟨l, lowDigit, rfl⟩ := mem_hexDigits_of_hex low hexLow
    exact ⟨h, l, highDigit, lowDigit, toNat_pair h l⟩
  · rintro ⟨h, l, highDigit, lowDigit, worth⟩
    refine ⟨_, hex_of_mem_hexDigits h highDigit, _, hex_of_mem_hexDigits l lowDigit, ?_⟩
    rw [← UInt8.toNat_inj, toNat_pair, worth]

theorem decode_percent_iff {source bytes : List UInt8} :
    percent.decode source = some bytes ↔ PercentEncoded source bytes :=
  percent.decode_eq_some_iff percent_pair_iff

theorem decode_percent_none_iff {source : List UInt8} :
    percent.decode source = none ↔ ¬ ∃ bytes, PercentEncoded source bytes := by
  simp only [← decode_percent_iff, Option.eq_none_iff_forall_ne_some, not_exists, ne_eq]

theorem utf8_decode_none_iff {bytes : List UInt8} :
    Utf8.decode? bytes = none ↔ ¬ IsUtf8 bytes := by
  simp only [IsUtf8, ← Utf8.decode?_eq_some_iff, Option.eq_none_iff_forall_ne_some,
    not_exists, ne_eq]

/-! ## The strict decoder -/

/-- What `percent_decode` answers, by what the text stands for. -/
theorem percentDecode_cases (text : String) :
    (∃ decoded, percentDecode text = .ok decoded ∧
      PercentEncoded (Utf8.encode text) (Utf8.encode decoded)) ∨
    (percentDecode text = .error .malformedEscape ∧
      ¬ ∃ bytes, PercentEncoded (Utf8.encode text) bytes) ∨
    (percentDecode text = .error .nonUtf8 ∧
      ∃ bytes, PercentEncoded (Utf8.encode text) bytes ∧ ¬ IsUtf8 bytes) := by
  rw [percentDecode, percentDecodeFrom_spec, List.drop_zero]
  cases read : percent.decode (Utf8.encode text) with
  | none => exact .inr (.inl ⟨rfl, decode_percent_none_iff.mp read⟩)
  | some bytes =>
      have encoded := decode_percent_iff.mp read
      simp only [List.nil_append]
      cases back : Utf8.decode? bytes with
      | none => exact .inr (.inr ⟨rfl, bytes, encoded, utf8_decode_none_iff.mp back⟩)
      | some decoded =>
          rw [Utf8.decode?_eq_some_iff] at back
          exact .inl ⟨decoded, rfl, back ▸ encoded⟩

theorem PercentEncoded.unique {source bytes bytes' : List UInt8}
    (h : PercentEncoded source bytes) (h' : PercentEncoded source bytes') :
      bytes = bytes' := by
  rw [← decode_percent_iff] at h h'
  exact Option.some.inj (h.symm.trans h')

theorem percentDecode_eq_ok_iff_encoded {text decoded : String} :
    percentDecode text = .ok decoded ↔
      PercentEncoded (Utf8.encode text) (Utf8.encode decoded) := by
  constructor
  · intro h
    obtain ⟨decoded', answer, encoded⟩ | ⟨answer, -⟩ | ⟨answer, -⟩ :=
      percentDecode_cases text
    · rw [h, Except.ok.injEq] at answer
      exact answer ▸ encoded
    · rw [h] at answer
      cases answer
    · rw [h] at answer
      cases answer
  · intro h
    rw [percentDecode_eq_ok_iff, strictDecode, decode_percent_iff.mpr h]
    exact Utf8.decode?_encode decoded

theorem percentDecode_ok_iff {text : String} :
    (∃ decoded, percentDecode text = .ok decoded) ↔
      ∃ bytes, PercentEncoded (Utf8.encode text) bytes ∧ IsUtf8 bytes := by
  simp only [percentDecode_eq_ok_iff_encoded]
  constructor
  · rintro ⟨decoded, encoded⟩
    exact ⟨_, encoded, decoded, rfl⟩
  · rintro ⟨_, encoded, decoded, rfl⟩
    exact ⟨decoded, encoded⟩

theorem percentDecode_malformed_iff {text : String} :
    percentDecode text = .error .malformedEscape ↔
      ¬ ∃ bytes, PercentEncoded (Utf8.encode text) bytes := by
  obtain ⟨decoded, answer, encoded⟩ | ⟨answer, malformed⟩ | ⟨answer, bytes, encoded, -⟩ :=
    percentDecode_cases text
  · rw [answer]
    exact iff_of_false (by simp) (not_not.mpr ⟨_, encoded⟩)
  · exact iff_of_true answer malformed
  · rw [answer]
    exact iff_of_false (by simp) (not_not.mpr ⟨bytes, encoded⟩)

theorem percentDecode_nonUtf8_iff {text : String} :
    percentDecode text = .error .nonUtf8 ↔
      ∃ bytes, PercentEncoded (Utf8.encode text) bytes ∧ ¬ IsUtf8 bytes := by
  obtain ⟨decoded, answer, encoded⟩ | ⟨answer, malformed⟩ | ⟨answer, invalid⟩ :=
    percentDecode_cases text
  · rw [answer]
    refine iff_of_false (by simp) ?_
    rintro ⟨bytes, encoded', invalid⟩
    exact invalid ⟨decoded, encoded.unique encoded'⟩
  · rw [answer]
    refine iff_of_false (by simp) ?_
    exact fun ⟨bytes, encoded, _⟩ => malformed ⟨bytes, encoded⟩
  · exact iff_of_true answer invalid

theorem length_percentDecode_lt {text decoded : String} (escaped : '%' ∈ text.toList)
    (h : percentDecode text = .ok decoded) :
    (Utf8.encode decoded).length < (Utf8.encode text).length := by
  have encoded := percentDecode_eq_ok_iff_encoded.mp h
  exact percent.length_decode_lt (decode_percent_iff.mpr encoded)
    (percent_mem_encode.mpr escaped)

/-- `percent_decode` is the strict decoder, the inverse of every percent-encoding, and
what it decodes from an escape is shorter, so the search goes on with another text. -/
theorem percentDecode_strict (text : String) :
    ((∃ decoded, percentDecode text = .ok decoded) ↔
      ∃ bytes, PercentEncoded (Utf8.encode text) bytes ∧ IsUtf8 bytes) ∧
    (percentDecode text = .error .malformedEscape ↔
      ¬ ∃ bytes, PercentEncoded (Utf8.encode text) bytes) ∧
    (percentDecode text = .error .nonUtf8 ↔
      ∃ bytes, PercentEncoded (Utf8.encode text) bytes ∧ ¬ IsUtf8 bytes) ∧
    (∀ s, PercentEncoded (Utf8.encode text) (Utf8.encode s) →
      percentDecode text = .ok s) ∧
    ∀ decoded, '%' ∈ text.toList → percentDecode text = .ok decoded →
      (Utf8.encode decoded).length < (Utf8.encode text).length ∧ decoded ≠ text ∧
        ∀ remaining passes, dotSegment text = none →
          ambiguityFrom (remaining + 1) passes text =
            ambiguityFrom remaining (passes + 1) decoded := by
  refine ⟨percentDecode_ok_iff, percentDecode_malformed_iff, percentDecode_nonUtf8_iff,
    fun s => percentDecode_eq_ok_iff_encoded.mpr, fun decoded escaped read => ?_⟩
  have shorter := length_percentDecode_lt escaped read
  have other : decoded ≠ text := by
    rintro rfl
    exact Nat.lt_irrefl _ shorter
  refine ⟨shorter, other, fun remaining passes clean => ?_⟩
  simp only [ambiguityFrom, clean, escaped, not_true_eq_false, if_false,
    read, if_neg other]

end NonoCedarPdp
