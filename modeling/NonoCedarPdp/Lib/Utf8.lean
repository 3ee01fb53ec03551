import Mathlib.Data.List.Basic

/-!
UTF-8 texts seen as byte lists. Decoding is the partial inverse of encoding,
and an ASCII byte is always a character of its own, so a text may be cut at one
without looking at what stands on either side.
-/
namespace Utf8

def encode (s : String) : List UInt8 :=
  s.toList.flatMap String.utf8EncodeChar

def decode? (b : List UInt8) : Option String :=
  String.fromUTF8? b.toByteArray

@[simp] theorem toByteArray_encode (s : String) :
    (encode s).toByteArray = s.toByteArray :=
  String.utf8Encode_toList

@[simp] theorem encode_append (s t : String) :
  encode (s ++ t) = encode s ++ encode t := by
  simp [encode]

@[simp] theorem encode_ofList (l : List Char) :
    encode (String.ofList l) = l.flatMap String.utf8EncodeChar := by
  simp [encode]

theorem decode?_eq_some_iff {b : List UInt8} {s : String} :
    decode? b = some s ↔ encode s = b := by
  rw [← List.toByteArray_inj, toByteArray_encode, decode?, String.fromUTF8?]
  split
  · next valid =>
    rw [Option.some.injEq, ← String.toByteArray_inj]
    exact eq_comm
  · next invalid =>
    refine iff_of_false (by simp) ?_
    intro same
    exact invalid (same ▸ s.isValidUTF8)

@[simp] theorem decode?_encode (s : String) : decode? (encode s) = some s :=
  decode?_eq_some_iff.mpr rfl

theorem encode_injective {s t : String} (same : encode s = encode t) : s = t := by
  have decoded := congrArg decode? same
  rw [decode?_encode, decode?_encode] at decoded
  exact Option.some.inj decoded

theorem length_encode_le (s : String) : (encode s).length ≤ 4 * s.toList.length := by
  rw [encode]
  induction s.toList with
  | nil => exact Nat.le_refl 0
  | cons c cs ih =>
      have bound := c.utf8Size_le_four
      rw [List.flatMap_cons, List.length_append, String.length_utf8EncodeChar,
        List.length_cons]
      omega

/-- The first character is read off whatever stands behind it. -/
theorem utf8EncodeChar_append_inj {c d : Char} {a b : List UInt8}
    (same : String.utf8EncodeChar c ++ a = String.utf8EncodeChar d ++ b) : c = d := by
  have read := congrArg (fun bytes => bytes.toByteArray.utf8DecodeChar? 0) same
  simp only [List.toByteArray_append,
    ByteArray.utf8DecodeChar?_utf8EncodeChar_append] at read
  exact Option.some.inj read

/-- A text whose bytes start another's starts that text. -/
theorem toList_prefix_of_encode {s t : String} (starts : encode s <+: encode t) :
    s.toList <+: t.toList := by
  rw [encode, encode] at starts
  generalize s.toList = l at starts
  generalize t.toList = l' at starts
  induction l generalizing l' with
  | nil => exact List.nil_prefix
  | cons c l ih =>
      obtain ⟨rest, whole⟩ := starts
      cases l' with
      | nil =>
          have none_left := List.append_eq_nil_iff.mp (List.append_eq_nil_iff.mp whole).1
          exact absurd none_left.1 String.utf8EncodeChar_ne_nil
      | cons d l' =>
          rw [List.flatMap_cons, List.flatMap_cons, List.append_assoc] at whole
          obtain rfl := utf8EncodeChar_append_inj whole
          exact List.cons_prefix_cons.mpr
            ⟨rfl, ih l' ⟨rest, List.append_cancel_left whole⟩⟩

/-! ## ASCII bytes -/

theorem encodeChar_ascii {c : Char} (h : c.toNat < 128) :
    String.utf8EncodeChar c = [c.toUInt8] := by
  have one : c.utf8Size = 1 := by
    rw [Char.utf8Size_eq_one_iff, UInt32.le_iff_toNat_le]
    exact Nat.le_of_lt_succ h
  rw [String.utf8EncodeChar_eq_singleton one, Char.toUInt8_val]

theorem encode_cons_ascii {c : Char} (h : c.toNat < 128) (s : String) :
    encode (String.singleton c ++ s) = c.toUInt8 :: encode s := by
  simp [encode, encodeChar_ascii h]

theorem toNat_toUInt8_ascii {c : Char} (h : c.toNat < 128) :
    c.toUInt8.toNat = c.toNat := by
  change c.val.toNat % 256 = c.toNat
  exact Nat.mod_eq_of_lt (Nat.lt_trans h (by omega))

theorem toUInt8_ne_ofNat {c : Char} (h : c.toNat < 128) {n : Nat} (high : 128 ≤ n % 256) :
    c.toUInt8 ≠ UInt8.ofNat n := by
  intro same
  have value := congrArg UInt8.toNat same
  rw [toNat_toUInt8_ascii h, UInt8.toNat_ofNat'] at value
  omega

/-- Every byte of a longer encoding has its top bit set. -/
theorem eq_of_ascii_mem {c d : Char} (hc : c.toNat < 128)
    (h : c.toUInt8 ∈ String.utf8EncodeChar d) : d = c := by
  have key : c.toNat = d.toNat := by
    change c.toUInt8 ∈ if d.toNat ≤ 0x7f then _ else _ at h
    split at h
    · rename_i small
      rw [List.mem_singleton] at h
      rw [← toNat_toUInt8_ascii hc, h, UInt8.toNat_ofNat']
      change d.toNat % 256 = d.toNat
      omega
    · exfalso
      split at h
      · simp only [List.mem_cons, List.not_mem_nil, or_false] at h
        obtain h | h := h <;> exact toUInt8_ne_ofNat hc (by omega) h
      · split at h
        · simp only [List.mem_cons, List.not_mem_nil, or_false] at h
          obtain h | h | h := h <;> exact toUInt8_ne_ofNat hc (by omega) h
        · simp only [List.mem_cons, List.not_mem_nil, or_false] at h
          obtain h | h | h | h := h <;> exact toUInt8_ne_ofNat hc (by omega) h
  exact (Char.toNat_inj.mp key).symm

theorem mem_encode_ascii {c : Char} (hc : c.toNat < 128) (l : List Char) :
    c.toUInt8 ∈ l.flatMap String.utf8EncodeChar ↔ c ∈ l := by
  rw [List.mem_flatMap]
  constructor
  · rintro ⟨d, mem, hd⟩
    exact eq_of_ascii_mem hc hd ▸ mem
  · intro mem
    exact ⟨c, mem, by simp [encodeChar_ascii hc]⟩

/-- An encoding that holds an ASCII byte is cut there into two encodings. -/
theorem flatMap_eq_append_ascii {c : Char} (hc : c.toNat < 128) {l : List Char}
    {a b : List UInt8} (h : l.flatMap String.utf8EncodeChar = a ++ c.toUInt8 :: b) :
    ∃ l₁ l₂, l = l₁ ++ c :: l₂ ∧ l₁.flatMap String.utf8EncodeChar = a ∧
      l₂.flatMap String.utf8EncodeChar = b := by
  induction l generalizing a with
  | nil => simp at h
  | cons d l ih =>
      rw [List.flatMap_cons] at h
      obtain ⟨a', ha, hrest⟩ | ⟨z, hz, hrest⟩ := List.append_eq_append_iff.mp h
      · obtain ⟨l₁, l₂, rfl, h₁, h₂⟩ := ih hrest
        exact ⟨d :: l₁, l₂, rfl, by rw [List.flatMap_cons, h₁, ha], h₂⟩
      · cases z with
        | nil =>
            simp only [List.append_nil, List.nil_append] at hz hrest
            obtain ⟨l₁, l₂, rfl, h₁, h₂⟩ := ih (a := []) hrest.symm
            exact ⟨d :: l₁, l₂,
              rfl, by rw [List.flatMap_cons, h₁, hz, List.append_nil], h₂⟩
        | cons x z =>
            simp only [List.cons_append, List.cons.injEq] at hrest
            obtain ⟨rfl, rfl⟩ := hrest
            have hd : d = c := eq_of_ascii_mem hc (by rw [hz]; simp)
            subst hd
            rw [encodeChar_ascii hc] at hz
            have hlen := congrArg List.length hz
            simp only [List.length_cons, List.length_nil, List.length_append] at hlen
            obtain rfl : a = [] := List.length_eq_zero_iff.mp (by omega)
            obtain rfl : z = [] := List.length_eq_zero_iff.mp (by omega)
            exact ⟨[], l, rfl, rfl, rfl⟩

theorem decode?_append_ascii {c : Char} (hc : c.toNat < 128) (a b : List UInt8) :
    decode? (a ++ c.toUInt8 :: b) =
      (decode? a).bind fun x => (decode? b).map fun y =>
        x ++ (String.singleton c ++ y) := by
  apply Option.ext
  intro s
  simp only [Option.bind_eq_some_iff, Option.map_eq_some_iff, decode?_eq_some_iff]
  constructor
  · intro h
    obtain ⟨l₁, l₂, hl, h₁, h₂⟩ := flatMap_eq_append_ascii hc h
    refine ⟨String.ofList l₁, by simpa using h₁, String.ofList l₂, by simpa using h₂, ?_⟩
    rw [← String.toList_inj, hl]
    simp
  · rintro ⟨x, rfl, y, rfl, rfl⟩
    simp [encode, encodeChar_ascii hc]

end Utf8
