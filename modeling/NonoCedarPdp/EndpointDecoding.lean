import NonoCedarPdp.EndpointPath
import NonoCedarPdp.Lib.UriPath

/-!
What the ambiguity check reads off the successive strict percent-decodings of a
path. The byte loop is the strict decoder of the percent escape code; a path
passes the check when the search ends at a depth without having met a dot
segment.
-/
namespace NonoCedarPdp
open RustText

def percent : EscapeCode UInt8 where
  esc := '%'.toUInt8
  pair high low := (hex high).bind fun h => (hex low).map fun l => h * 16 + l

/-- Strict decoding: every `%` is followed by two hex digits and the result is UTF-8. -/
def strictDecode (text : String) : Option String :=
  (percent.decode (Utf8.encode text)).bind Utf8.decode?

def nthDecode (text : String) : Nat → Option String
  | 0 => some text
  | n + 1 => (nthDecode text n).bind strictDecode

/-- `text` decodes `m` times and no decoding on the way has a dot segment. -/
def CleanTo (text : String) (m : Nat) : Prop :=
  ∃ t, nthDecode text m = some t ∧
    ∀ j ≤ m, ∀ d, nthDecode text j = some d → dotSegment d = none

/-! ## The byte loop -/

theorem percentDecodeFrom_spec (bytes : List UInt8) (i : Nat) (out : List UInt8) :
    percentDecodeFrom bytes i out =
      match percent.decode (bytes.drop i) with
      | some x => .ok (out ++ x)
      | none => .error .malformedEscape := by
  fun_induction percentDecodeFrom bytes i out with
  | case1 i out inside plain ih =>
      rw [ih, List.drop_eq_getElem_cons inside, percent.decode_cons_of_ne plain]
      cases percent.decode (bytes.drop (i + 1)) <;> simp
  | case2 i out inside notPlain high low hl hh ih =>
      have esc : bytes[i] = percent.esc := not_not.mp notPlain
      obtain ⟨h, getHigh, hexHigh⟩ := Option.bind_eq_some_iff.mp hh
      obtain ⟨l, getLow, hexLow⟩ := Option.bind_eq_some_iff.mp hl
      obtain ⟨inHigh, eqHigh⟩ := List.getElem?_eq_some_iff.mp getHigh
      obtain ⟨inLow, eqLow⟩ := List.getElem?_eq_some_iff.mp getLow
      rw [ih, List.drop_eq_getElem_cons inside, List.drop_eq_getElem_cons inHigh,
        List.drop_eq_getElem_cons inLow, esc, eqHigh, eqLow, percent.decode_esc_cons]
      simp only [percent, hexHigh, hexLow, Option.bind_some, Option.map_some]
      cases EscapeCode.decode _ (bytes.drop (i + 3)) <;> simp
  | case3 i out inside notPlain noPair =>
      have esc : bytes[i] = percent.esc := not_not.mp notPlain
      have fails : percent.decode (bytes.drop i) = none := by
        rw [List.drop_eq_getElem_cons inside, esc]
        by_cases inHigh : i + 1 < bytes.length
        · rw [List.drop_eq_getElem_cons inHigh]
          by_cases inLow : i + 2 < bytes.length
          · rw [List.drop_eq_getElem_cons inLow, percent.decode_esc_cons]
            cases hh : hex bytes[i + 1] with
            | none => simp [percent, hh]
            | some high =>
                cases hl : hex bytes[i + 2] with
                | none => simp [percent, hl]
                | some low =>
                    exact (noPair high low (by simp [inHigh, hh])
                      (by simp [inLow, hl])).elim
          · rw [List.drop_eq_nil_of_le (by omega)]
            exact percent.decode_esc_single _
        · rw [List.drop_eq_nil_of_le (by omega)]
          exact percent.decode_esc_nil
      rw [fails]
  | case4 i out outside => simp [List.drop_eq_nil_of_le (Nat.not_lt.mp outside)]

theorem percentDecode_eq_ok_iff {text decoded : String} :
    percentDecode text = .ok decoded ↔ strictDecode text = some decoded := by
  rw [percentDecode, percentDecodeFrom_spec, strictDecode, List.drop_zero]
  cases percent.decode (Utf8.encode text) with
  | none => simp
  | some out =>
      simp only [List.nil_append, Option.bind_some]
      cases Utf8.decode? out <;> simp

theorem percentDecode_error_iff {text : String} :
    (∃ e, percentDecode text = .error e) ↔ strictDecode text = none := by
  cases h : percentDecode text with
  | error e =>
      refine iff_of_true ⟨e, rfl⟩ ?_
      rw [Option.eq_none_iff_forall_ne_some]
      intro d hd
      rw [← percentDecode_eq_ok_iff, h] at hd
      cases hd
  | ok d => simp [percentDecode_eq_ok_iff.mp h]

/-! ## Strict decoding of a concatenation -/

theorem percent_inert_slash : percent.Inert '/'.toUInt8 where
  ne_esc := by decide
  left _ := by simp [percent, show hex '/'.toUInt8 = none by decide]
  right x := by simp [percent, show hex '/'.toUInt8 = none by decide]

theorem percent_mem_encode {text : String} :
    percent.esc ∈ Utf8.encode text ↔ '%' ∈ text.toList :=
  Utf8.mem_encode_ascii (by decide) text.toList

theorem strictDecode_eq_self {text : String} (h : '%' ∉ text.toList) :
    strictDecode text = some text := by
  rw [strictDecode, percent.decode_eq_self (mt percent_mem_encode.mp h)]
  exact Utf8.decode?_encode text

theorem strictDecode_append_slash (a b : String) :
    strictDecode (a ++ ("/" ++ b)) =
      (strictDecode a).bind fun x => (strictDecode b).map fun y => x ++ ("/" ++ y) := by
  have slash : "/" = String.singleton '/' := rfl
  rw [strictDecode, Utf8.encode_append, slash, Utf8.encode_cons_ascii (by decide),
    percent.decode_append_inert percent_inert_slash, strictDecode, strictDecode]
  cases percent.decode (Utf8.encode a) with
  | none => rfl
  | some x =>
      cases percent.decode (Utf8.encode b) with
      | none => cases h : Utf8.decode? x <;> simp [h]
      | some y => exact Utf8.decode?_append_ascii (by decide) x y

/-! ## Decoding again and again -/

theorem nthDecode_succ (text : String) (n : Nat) :
    nthDecode text (n + 1) = (strictDecode text).bind (nthDecode · n) := by
  induction n with
  | zero => simp [nthDecode]
  | succ n ih =>
      rw [nthDecode, ih, Option.bind_assoc]
      rfl

theorem nthDecode_plain {text : String} (h : '%' ∉ text.toList) (n : Nat) :
    nthDecode text n = some text := by
  induction n with
  | zero => rfl
  | succ n ih => rw [nthDecode, ih, Option.bind_some, strictDecode_eq_self h]

theorem nthDecode_none_mono {text : String} {k m : Nat} (h : nthDecode text k = none)
    (hk : k ≤ m) : nthDecode text m = none := by
  induction hk with
  | refl => exact h
  | step _ ih => rw [nthDecode, ih, Option.bind_none]

theorem nthDecode_append_slash (a b : String) (n : Nat) :
    nthDecode (a ++ ("/" ++ b)) n =
      (nthDecode a n).bind fun x => (nthDecode b n).map fun y => x ++ ("/" ++ y) := by
  induction n with
  | zero => rfl
  | succ n ih =>
      rw [nthDecode, ih, nthDecode, nthDecode]
      cases nthDecode a n with
      | none => rfl
      | some x =>
          cases nthDecode b n with
          | none => cases h : strictDecode x <;> simp [h]
          | some y => exact strictDecode_append_slash x y

/-! ## Dot segments -/

theorem dotSegment_eq_none_iff {path : String} :
    dotSegment path = none ↔
      ∀ segment ∈ path.toList.splitOnP (fun c => c = '/' ∨ c = '\\'),
        ¬ UriPath.IsDot (UriPath.cutParams segment) := by
  simp [dotSegment, UriPath.IsDot, UriPath.cutParams, not_or]

theorem dotSegment_append_slash {a b : String} :
    dotSegment (a ++ ("/" ++ b)) = none ↔ dotSegment a = none ∧ dotSegment b = none := by
  have split : (a ++ ("/" ++ b)).toList = a.toList ++ '/' :: b.toList := by simp
  rw [dotSegment_eq_none_iff, dotSegment_eq_none_iff, dotSegment_eq_none_iff, split,
    List.splitOnP_append_cons _ _ (by decide)]
  exact List.forall_mem_append

theorem cleanTo_zero {text : String} : CleanTo text 0 ↔ dotSegment text = none := by
  constructor
  · rintro ⟨_, _, clean⟩
    exact clean 0 (Nat.le_refl 0) text rfl
  · intro h
    refine ⟨text, rfl, fun j hj d hd => ?_⟩
    obtain rfl : j = 0 := Nat.le_zero.mp hj
    obtain rfl : text = d := Option.some.inj hd
    exact h

theorem CleanTo.mono {text : String} {m k : Nat} (h : CleanTo text m) (hk : k ≤ m) :
    CleanTo text k := by
  obtain ⟨t, ht, clean⟩ := h
  cases hd : nthDecode text k with
  | some d => exact ⟨d, hd, fun j hj => clean j (Nat.le_trans hj hk)⟩
  | none =>
      rw [nthDecode_none_mono hd hk] at ht
      cases ht

theorem CleanTo.dotSegment_eq_none {text : String} {m : Nat} (h : CleanTo text m) :
    dotSegment text = none :=
  cleanTo_zero.mp (h.mono (Nat.zero_le m))

theorem cleanTo_succ {text decoded : String} (h : strictDecode text = some decoded)
    (first : dotSegment text = none) (m : Nat) :
      CleanTo text (m + 1) ↔ CleanTo decoded m := by
  have shift (j : Nat) : nthDecode text (j + 1) = nthDecode decoded j := by
    rw [nthDecode_succ, h, Option.bind_some]
  constructor
  · rintro ⟨t, ht, clean⟩
    exact ⟨t, shift m ▸ ht, fun j hj d hd => clean (j + 1) (by omega) d (shift j ▸ hd)⟩
  · rintro ⟨t, ht, clean⟩
    refine ⟨t, (shift m).trans ht, fun j hj d hd => ?_⟩
    cases j with
    | zero => obtain rfl : text = d := Option.some.inj hd; exact first
    | succ j => exact clean j (by omega) d ((shift j).symm.trans hd)

theorem cleanTo_append_slash {a b : String} {m : Nat} :
    CleanTo (a ++ ("/" ++ b)) m ↔ CleanTo a m ∧ CleanTo b m := by
  have parts (j : Nat) (x y : String) (hx : nthDecode a j = some x)
      (hy : nthDecode b j = some y) :
      nthDecode (a ++ ("/" ++ b)) j = some (x ++ ("/" ++ y)) := by
    rw [nthDecode_append_slash, hx, hy]
    rfl
  constructor
  · rintro ⟨t, ht, clean⟩
    rw [nthDecode_append_slash, Option.bind_eq_some_iff] at ht
    obtain ⟨x, hx, ht⟩ := ht
    obtain ⟨y, hy, -⟩ := Option.map_eq_some_iff.mp ht
    have both (j : Nat) (hj : j ≤ m) :
        ∃ x y, nthDecode a j = some x ∧ nthDecode b j = some y ∧
        dotSegment x = none ∧ dotSegment y = none := by
      cases hxj : nthDecode a j with
      | none => rw [nthDecode_none_mono hxj hj] at hx; cases hx
      | some x' =>
          cases hyj : nthDecode b j with
          | none => rw [nthDecode_none_mono hyj hj] at hy; cases hy
          | some y' =>
              exact ⟨x', y', rfl, rfl,
                dotSegment_append_slash.mp (clean j hj _ (parts j x' y' hxj hyj))⟩
    refine ⟨⟨x, hx, fun j hj d hd => ?_⟩, y, hy, fun j hj d hd => ?_⟩
    · obtain ⟨x', y', hx', -, dotA, -⟩ := both j hj
      rw [hx'] at hd
      exact Option.some.inj hd ▸ dotA
    · obtain ⟨x', y', -, hy', -, dotB⟩ := both j hj
      rw [hy'] at hd
      exact Option.some.inj hd ▸ dotB
  · rintro ⟨⟨x, hx, cleanA⟩, y, hy, cleanB⟩
    refine ⟨x ++ ("/" ++ y), parts m x y hx hy, fun j hj d hd => ?_⟩
    rw [nthDecode_append_slash, Option.bind_eq_some_iff] at hd
    obtain ⟨x', hx', hd⟩ := hd
    obtain ⟨y', hy', rfl⟩ := Option.map_eq_some_iff.mp hd
    exact dotSegment_append_slash.mpr ⟨cleanA j hj x' hx', cleanB j hj y' hy'⟩

/-! ## The search -/

theorem strictDecode_ne {text decoded : String} (h : strictDecode text = some decoded)
    (escaped : '%' ∈ text.toList) : decoded ≠ text := by
  rintro rfl
  rw [strictDecode, Option.bind_eq_some_iff] at h
  obtain ⟨out, hout, back⟩ := h
  have shorter := percent.length_decode_lt hout (percent_mem_encode.mpr escaped)
  rw [Utf8.decode?_eq_some_iff.mp back] at shorter
  exact Nat.lt_irrefl _ shorter

theorem percentDecode_error {text : String} {e : Ambiguity}
    (h : percentDecode text = .error e) : e = .malformedEscape ∨ e = .nonUtf8 := by
  rw [percentDecode, percentDecodeFrom_spec] at h
  cases hd : percent.decode ((Utf8.encode text).drop 0) with
  | none =>
      simp only [hd, Except.error.injEq] at h
      exact Or.inl h.symm
  | some out =>
      simp only [hd] at h
      cases hu : Utf8.decode? ([] ++ out) with
      | none =>
          simp only [hu, Except.error.injEq] at h
          exact Or.inr h.symm
      | some decoded =>
          simp only [hu] at h
          cases h

/-- What one pass can do with a decoding, the passes after it included. -/
inductive Pass (remaining passes : Nat) (current : String) : Option Ambiguity → Prop
  | dot {segment : String} (h : dotSegment current = some segment) :
      Pass remaining passes current (some (.dotSegment segment passes))
  | plain (clean : dotSegment current = none) (h : '%' ∉ current.toList) :
      Pass remaining passes current none
  | refused (clean : dotSegment current = none)
      (undecodable : strictDecode current = none) (first : passes = 0) {e : Ambiguity}
      (h : e = .malformedEscape ∨ e = .nonUtf8) : Pass remaining passes current (some e)
  | literal (clean : dotSegment current = none)
      (undecodable : strictDecode current = none) (later : 0 < passes) :
        Pass remaining passes current none
  | deeper (clean : dotSegment current = none) (escaped : '%' ∈ current.toList)
      {decoded : String} (h : strictDecode current = some decoded) :
      Pass remaining passes current (ambiguityFrom remaining (passes + 1) decoded)

theorem ambiguityFrom_pass (remaining passes : Nat) (current : String) :
    Pass remaining passes current (ambiguityFrom (remaining + 1) passes current) := by
  cases hdot : dotSegment current with
  | some segment =>
      have stop : ambiguityFrom (remaining + 1) passes current =
          some (.dotSegment segment passes) := by simp [ambiguityFrom, hdot]
      exact stop ▸ .dot hdot
  | none =>
      by_cases escaped : '%' ∈ current.toList
      · cases hdec : percentDecode current with
        | error e =>
            have undecodable := percentDecode_error_iff.mp ⟨e, hdec⟩
            by_cases first : passes = 0
            · have stop : ambiguityFrom (remaining + 1) passes current = some e := by
                simp [ambiguityFrom, hdot, escaped, hdec, first]
              exact stop ▸ .refused hdot undecodable first (percentDecode_error hdec)
            · have stop : ambiguityFrom (remaining + 1) passes current = none := by
                simp [ambiguityFrom, hdot, escaped, hdec, first]
              exact stop ▸ .literal hdot undecodable (Nat.pos_of_ne_zero first)
        | ok decoded =>
            have strict := percentDecode_eq_ok_iff.mp hdec
            have go : ambiguityFrom (remaining + 1) passes current =
                ambiguityFrom remaining (passes + 1) decoded := by
              simp [ambiguityFrom, hdot, escaped, hdec, strictDecode_ne strict escaped]
            exact go ▸ .deeper hdot escaped strict
      · have stop : ambiguityFrom (remaining + 1) passes current = none := by
          simp [ambiguityFrom, hdot, escaped]
        exact stop ▸ .plain hdot escaped

/-- The search stops without a verdict exactly at a clean depth where there is
nothing left to decode, or where a later pass cannot decode. -/
theorem ambiguityFrom_eq_none_iff (remaining passes : Nat) (current : String) :
    ambiguityFrom remaining passes current = none ↔
      ∃ m < remaining, ∃ t, nthDecode current m = some t ∧ CleanTo current m ∧
        ('%' ∉ t.toList ∨ (strictDecode t = none ∧ 0 < passes + m)) := by
  induction remaining generalizing passes current with
  | zero => simp [ambiguityFrom]
  | succ remaining ih =>
      have pass := ambiguityFrom_pass remaining passes current
      generalize ambiguityFrom (remaining + 1) passes current = answer at pass
      cases pass with
      | dot found =>
          refine iff_of_false (by simp) ?_
          rintro ⟨m, -, t, -, clean, -⟩
          rw [clean.dotSegment_eq_none] at found
          cases found
      | plain clean plain =>
          exact iff_of_true rfl
            ⟨0, Nat.succ_pos _, current, rfl, cleanTo_zero.mpr clean, Or.inl plain⟩
      | refused clean undecodable first kind =>
          refine iff_of_false (by simp) ?_
          rintro ⟨m, -, t, ht, -, final⟩
          cases m with
          | zero =>
              obtain rfl : current = t := Option.some.inj ht
              obtain plain | ⟨-, later⟩ := final
              · rw [strictDecode_eq_self plain] at undecodable
                cases undecodable
              · omega
          | succ m =>
              rw [nthDecode_succ, undecodable] at ht
              cases ht
      | literal clean undecodable later =>
          exact iff_of_true rfl
            ⟨0, Nat.succ_pos _, current, rfl, cleanTo_zero.mpr clean,
              Or.inr ⟨undecodable, by omega⟩⟩
      | deeper clean escaped strict =>
          rw [ih]
          constructor
          · rintro ⟨m, hm, t, ht, before, final⟩
            refine ⟨m + 1, by omega, t, ?_, (cleanTo_succ strict clean m).mpr before,
              final.imp_right fun h => ⟨h.1, by omega⟩⟩
            rw [nthDecode_succ, strict]
            exact ht
          · rintro ⟨m, hm, t, ht, before, final⟩
            cases m with
            | zero =>
                obtain rfl : current = t := Option.some.inj ht
                obtain plain | ⟨undecodable, -⟩ := final
                · exact absurd escaped plain
                · rw [strict] at undecodable
                  cases undecodable
            | succ m =>
                rw [nthDecode_succ, strict] at ht
                exact ⟨m, by omega, t, ht, (cleanTo_succ strict clean m).mp before,
                  final.imp_right fun h => ⟨h.1, by omega⟩⟩

end NonoCedarPdp
