import NonoCedarPdp.EndpointDecoding

/-!
Each verdict of the ambiguity check, read off the decodings of every depth: what
the search answers is settled by the decodings alone, those past its bound
included.
-/
namespace NonoCedarPdp
open RustText

/-- The segments of a decoding, without their parameters. -/
def segments (path : String) : List (List Char) :=
  (path.toList.splitOnP fun c => c = '/' ∨ c = '\\').map UriPath.cutParams

def HasDot (path : String) : Prop :=
  ∃ segment ∈ segments path, UriPath.IsDot segment

def FirstDot (path segment : String) : Prop :=
  ∃ before after, segments path = before ++ segment.toList :: after ∧
    UriPath.IsDot segment.toList ∧ ∀ other ∈ before, ¬ UriPath.IsDot other

theorem dotSegment_eq_none_iff_not_hasDot {path : String} :
    dotSegment path = none ↔ ¬ HasDot path := by
  rw [dotSegment_eq_none_iff]
  simp [HasDot, segments]

theorem firstDot_of_dotSegment {path segment : String}
    (h : dotSegment path = some segment) : FirstDot path segment := by
  obtain ⟨found, hfound, rfl⟩ := Option.map_eq_some_iff.mp h
  obtain ⟨dot, before, after, split, clean⟩ := List.find?_eq_some_iff_append.mp hfound
  refine ⟨before, after, ?_, ?_, ?_⟩
  · rw [String.toList_ofList]
    exact split
  · rw [String.toList_ofList]
    simpa [UriPath.IsDot] using dot
  · intro other mem
    simpa [UriPath.IsDot] using clean other mem

/-! ## Every verdict -/

theorem ambiguityFrom_dotSegment {remaining passes : Nat}
    {current segment : String} {depth : Nat}
    (h : ambiguityFrom remaining passes current = some (.dotSegment segment depth)) :
    ∃ n d, depth = passes + n ∧ nthDecode current n = some d ∧
      dotSegment d = some segment ∧
      ∀ k < n, ∀ t, nthDecode current k = some t → dotSegment t = none := by
  induction remaining generalizing passes current with
  | zero => simp [ambiguityFrom] at h
  | succ remaining ih =>
      have pass := ambiguityFrom_pass remaining passes current
      rw [h] at pass
      generalize verdict : some (Ambiguity.dotSegment segment depth) = answer at pass
      cases pass with
      | dot found =>
          cases verdict
          exact ⟨0, current, rfl, rfl, found, fun k hk => absurd hk (Nat.not_lt_zero k)⟩
      | plain clean plain => cases verdict
      | refused clean undecodable first kind =>
          cases verdict
          simp at kind
      | literal clean undecodable later => cases verdict
      | deeper clean escaped strict =>
          obtain ⟨n, d, deep, hd, found, before⟩ := ih verdict.symm
          refine ⟨n + 1, d, by omega, ?_, found, ?_⟩
          · rw [nthDecode_succ, strict]
            exact hd
          · intro k hk t ht
            cases k with
            | zero => exact Option.some.inj ht ▸ clean
            | succ k =>
                rw [nthDecode_succ, strict] at ht
                exact before k (by omega) t ht

theorem ambiguityFrom_refused {remaining passes : Nat} {current : String} {e : Ambiguity}
    (kind : e = .malformedEscape ∨ e = .nonUtf8)
    (h : ambiguityFrom remaining passes current = some e) :
    passes = 0 ∧ dotSegment current = none ∧ strictDecode current = none := by
  induction remaining generalizing passes current with
  | zero =>
      obtain rfl : Ambiguity.nestedTooDeep = e := Option.some.inj h
      simp at kind
  | succ remaining ih =>
      have pass := ambiguityFrom_pass remaining passes current
      rw [h] at pass
      generalize verdict : some e = answer at pass
      cases pass with
      | dot found =>
          cases verdict
          simp at kind
      | plain clean plain => cases verdict
      | refused clean undecodable first _ => exact ⟨first, clean, undecodable⟩
      | literal clean undecodable later => cases verdict
      | deeper clean escaped strict =>
          exact absurd (ih verdict.symm).1 (Nat.succ_ne_zero passes)

theorem ambiguityFrom_nestedTooDeep {remaining passes : Nat} {current : String}
    (h : ambiguityFrom remaining passes current = some .nestedTooDeep) :
    (nthDecode current remaining).isSome ∧
      ∀ n < remaining, ∃ d, nthDecode current n = some d ∧ dotSegment d = none ∧
        '%' ∈ d.toList := by
  induction remaining generalizing passes current with
  | zero => exact ⟨rfl, fun n hn => absurd hn (Nat.not_lt_zero n)⟩
  | succ remaining ih =>
      have pass := ambiguityFrom_pass remaining passes current
      rw [h] at pass
      generalize verdict : some Ambiguity.nestedTooDeep = answer at pass
      cases pass with
      | dot found => cases verdict
      | plain clean plain => cases verdict
      | refused clean undecodable first kind =>
          cases verdict
          simp at kind
      | literal clean undecodable later => cases verdict
      | deeper clean escaped strict =>
          obtain ⟨last, before⟩ := ih verdict.symm
          rw [nthDecode_succ, strict]
          refine ⟨last, fun n hn => ?_⟩
          cases n with
          | zero => exact ⟨current, rfl, clean, escaped⟩
          | succ n =>
              rw [nthDecode_succ, strict]
              exact before n (by omega)

/-! ## Passing the check -/

/-- Past a depth with nothing left to decode, or nothing that decodes, every
decoding is the one at that depth. -/
theorem nthDecode_settled {text d t : String} {m n : Nat} (hm : nthDecode text m = some d)
    (final : '%' ∉ d.toList ∨ strictDecode d = none) (hn : m ≤ n)
    (ht : nthDecode text n = some t) : t = d := by
  induction hn generalizing t with
  | refl => exact Option.some.inj (ht.symm.trans hm)
  | step _ ih =>
      rw [nthDecode, Option.bind_eq_some_iff] at ht
      obtain ⟨prev, hprev, step⟩ := ht
      obtain rfl := ih hprev
      obtain plain | undecodable := final
      · exact Option.some.inj (step.symm.trans (strictDecode_eq_self plain))
      · rw [undecodable] at step
        cases step

theorem ambiguityFrom_zero_eq_none_iff (bound : Nat) (text : String) :
    ambiguityFrom (bound + 1) 0 text = none ↔
      (nthDecode text 1).isSome ∧
        (∀ n d, nthDecode text n = some d → dotSegment d = none) ∧
        ∃ m ≤ bound, ∃ d, nthDecode text m = some d ∧
          ('%' ∉ d.toList ∨ strictDecode d = none) := by
  rw [ambiguityFrom_eq_none_iff]
  constructor
  · rintro ⟨m, hm, d, hd, ⟨_, _, clean⟩, final⟩
    have settled : '%' ∉ d.toList ∨ strictDecode d = none := final.imp_right And.left
    refine ⟨?_, fun n t ht => ?_, m, by omega, d, hd, settled⟩
    · cases h1 : nthDecode text 1 with
      | some _ => rfl
      | none =>
          -- then `d` is `text`, which does not decode, and the first pass does not forgive that
          obtain rfl : m = 0 := by
            by_contra deeper
            rw [nthDecode_none_mono h1 (by omega)] at hd
            cases hd
          obtain rfl : text = d := Option.some.inj hd
          have undecodable : strictDecode text = none := h1
          obtain plain | ⟨-, positive⟩ := final
          · rw [strictDecode_eq_self plain] at undecodable
            cases undecodable
          · exact absurd positive (Nat.lt_irrefl 0)
    · obtain before | past := Nat.le_total n m
      · exact clean n before t ht
      · exact nthDecode_settled hd settled past ht ▸ clean m (Nat.le_refl m) d hd
  · rintro ⟨first, clean, m, hm, d, hd, final⟩
    refine ⟨m, by omega, d, hd, ⟨d, hd, fun j _ t => clean j t⟩, ?_⟩
    refine final.imp_right fun undecodable => ⟨undecodable, ?_⟩
    cases m with
    | succ m => omega
    | zero =>
        obtain rfl : text = d := Option.some.inj hd
        have none : nthDecode text 1 = none := undecodable
        rw [none] at first
        cases first

/-- Every verdict says exactly where the decodings of the path, of every depth,
stand with dot segments. -/
theorem ambiguity_verdicts (path : String) :
    (ambiguity path = none ↔
      (nthDecode (routing path) 1).isSome ∧
        (∀ n d, nthDecode (routing path) n = some d → ¬ HasDot d) ∧
        ∃ m ≤ maxDecodePasses, ∃ d, nthDecode (routing path) m = some d ∧
          ('%' ∉ d.toList ∨ strictDecode d = none)) ∧
    (∀ segment passes, ambiguity path = some (.dotSegment segment passes) →
      (∃ d, nthDecode (routing path) passes = some d ∧ FirstDot d segment) ∧
        ∀ n < passes, ∀ d, nthDecode (routing path) n = some d → ¬ HasDot d) ∧
    (ambiguity path = some .malformedEscape ∨ ambiguity path = some .nonUtf8 →
      ¬ HasDot (routing path) ∧ strictDecode (routing path) = none) ∧
    (ambiguity path = some .nestedTooDeep →
      (∀ n ≤ maxDecodePasses, ∃ d, nthDecode (routing path) n = some d ∧ ¬ HasDot d) ∧
        (nthDecode (routing path) (maxDecodePasses + 1)).isSome ∧
        ∃ d, nthDecode (routing path) maxDecodePasses = some d ∧ '%' ∈ d.toList) := by
  simp only [← dotSegment_eq_none_iff_not_hasDot]
  refine ⟨ambiguityFrom_zero_eq_none_iff maxDecodePasses (routing path), ?_, ?_, ?_⟩
  · intro segment passes h
    obtain ⟨n, d, depth, hd, found, before⟩ := ambiguityFrom_dotSegment h
    obtain rfl : passes = n := by omega
    exact ⟨⟨d, hd, firstDot_of_dotSegment found⟩, before⟩
  · rintro (h | h)
    · exact (ambiguityFrom_refused (Or.inl rfl) h).2
    · exact (ambiguityFrom_refused (Or.inr rfl) h).2
  · intro h
    obtain ⟨last, before⟩ := ambiguityFrom_nestedTooDeep h
    refine ⟨fun n hn => ?_, last, ?_⟩
    · obtain ⟨d, hd, clean, -⟩ := before n (by omega)
      exact ⟨d, hd, clean⟩
    · obtain ⟨d, hd, -, escaped⟩ := before maxDecodePasses (by omega)
      exact ⟨d, hd, escaped⟩

example : ambiguity "/%2525252525252525252525e" = some .nestedTooDeep := by decide +kernel

end NonoCedarPdp
