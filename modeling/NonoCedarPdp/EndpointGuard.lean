import NonoCedarPdp.EndpointDecoding
import NonoCedarPdp.Engine

/-!
What the path guard gives an endpoint request. An allowed path stays under every
literal prefix of its raw text, however often an upstream decodes it before it
normalises. A refused path need not stay refused when segments are appended: a
later pass that cannot decode the appended text ends the search.
-/
namespace NonoCedarPdp
open RustText

def PolicyQuery.endpointPath (q : PolicyQuery) : Option String :=
  match q.target with
  | .command .. => none
  | .endpoint _ _ _ path _ _ => some path

/-- The guard has a verdict against `path`, and so every engine denies a query that
carries it. -/
def PathRefused (path : String) : Prop :=
  (ambiguity path).isSome ∧
    ∀ {Schema β : Type} (x : Externals Schema β) (engine : Engine Schema β)
      (q : PolicyQuery) (evalUs : Nat), q.endpointPath = some path →
      (engine.evaluate x q evalUs).1.allow = false

theorem endpointPath_eq_some {q : PolicyQuery} {path : String}
    (h : q.endpointPath = some path) :
    ∃ routeId upstream method ruleLabel childPid,
      q.target = .endpoint routeId upstream method path ruleLabel childPid := by
  cases target : q.target with
  | command command args interceptRule childPid =>
      simp [PolicyQuery.endpointPath, target] at h
  | endpoint routeId upstream method path' ruleLabel childPid =>
      obtain rfl : path' = path := by simpa [PolicyQuery.endpointPath, target] using h
      exact ⟨routeId, upstream, method, ruleLabel, childPid, rfl⟩

theorem pathRefused_iff {path : String} : PathRefused path ↔ ambiguity path ≠ none := by
  refine ⟨fun refused => Option.isSome_iff_ne_none.mp refused.1, fun found => ?_⟩
  refine ⟨Option.isSome_iff_ne_none.mpr found, fun x engine q evalUs carries => ?_⟩
  obtain ⟨routeId, upstream, method, ruleLabel, childPid, target⟩ :=
    endpointPath_eq_some carries
  by_contra allowed
  apply found
  exact Engine.ambiguity_eq_none_of_allow x target (by simpa using allowed)

/-! ## The query string -/

theorem routing_eq_self {path : String} (h : '?' ∉ path.toList) :
    routing path = path := by
  have kept : path.toList.takeWhile (· ≠ '?') = path.toList := by
    rw [List.takeWhile_eq_self_iff]
    intro c mem
    simpa using fun mark : c = '?' => h (mark ▸ mem)
  rw [routing, splitFirst, kept, String.ofList_toList]

theorem routing_append {a : String} (h : '?' ∉ a.toList) (b : String) :
    routing (a ++ b) = a ++ routing b := by
  have kept : ∀ c ∈ a.toList, decide (c ≠ '?') = true := by
    intro c mem
    simpa using fun mark : c = '?' => h (mark ▸ mem)
  apply String.toList_inj.mp
  simp only [routing, splitFirst, String.toList_append, String.toList_ofList]
  exact List.takeWhile_append_of_pos kept

theorem routing_slash (b : String) : routing ("/" ++ b) = "/" ++ routing b :=
  routing_append (by decide) b

/-! ## Appended segments -/

/-- Some pass after the first is reached by both texts without a dot segment, and
there the appended text is the one that cannot be decoded further. -/
def Masks (path suffix : String) : Prop :=
  ∃ m, 0 < m ∧ m ≤ maxDecodePasses ∧ CleanTo path m ∧ CleanTo (routing suffix) m ∧
    nthDecode (routing suffix) (m + 1) = none

theorem ambiguity_append_eq_none_iff {path : String} (noQuery : '?' ∉ path.toList)
    (found : ambiguity path ≠ none) (suffix : String) :
    ambiguity (path ++ ("/" ++ suffix)) = none ↔ Masks path suffix := by
  have current : routing (path ++ ("/" ++ suffix)) = path ++ ("/" ++ routing suffix) := by
    rw [routing_append noQuery, routing_slash]
  have own {m : Nat} {t : String} (hm : m < maxDecodePasses + 1)
      (ht : nthDecode path m = some t) (clean : CleanTo path m) :
        '%' ∈ t.toList ∧ (0 < m → strictDecode t ≠ none) := by
    have searched : ¬ ∃ m < maxDecodePasses + 1, ∃ t,
        nthDecode path m = some t ∧ CleanTo path m ∧
        ('%' ∉ t.toList ∨ (strictDecode t = none ∧ 0 < 0 + m)) := by
      rw [← ambiguityFrom_eq_none_iff]
      rwa [ambiguity, routing_eq_self noQuery] at found
    by_contra stops
    apply searched
    refine ⟨m, hm, t, ht, clean, ?_⟩
    by_cases escaped : '%' ∈ t.toList
    · right
      simpa [escaped, and_comm] using stops
    · exact Or.inl escaped
  rw [ambiguity, current, ambiguityFrom_eq_none_iff]
  constructor
  · rintro ⟨m, hm, t, ht, clean, final⟩
    obtain ⟨cleanPath, cleanSuffix⟩ := cleanTo_append_slash.mp clean
    obtain ⟨a, ha, -⟩ := id cleanPath
    obtain ⟨b, hb, -⟩ := id cleanSuffix
    obtain rfl : a ++ ("/" ++ b) = t := by
      simpa [nthDecode_append_slash, ha, hb] using ht
    obtain ⟨escaped, decodes⟩ := own hm ha cleanPath
    obtain ⟨undecodable, later⟩ := final.resolve_left (by simp [escaped])
    rw [Nat.zero_add] at later
    refine ⟨m, later, Nat.le_of_lt_succ hm, cleanPath, cleanSuffix, ?_⟩
    rw [nthDecode, hb, Option.bind_some]
    rw [strictDecode_append_slash] at undecodable
    obtain ⟨a', ha'⟩ := Option.ne_none_iff_exists'.mp (decodes later)
    simpa [ha'] using undecodable
  · rintro ⟨m, later, hm, cleanPath, cleanSuffix, stuck⟩
    obtain ⟨a, ha, -⟩ := id cleanPath
    obtain ⟨b, hb, -⟩ := id cleanSuffix
    rw [nthDecode, hb, Option.bind_some] at stuck
    refine ⟨m, Nat.lt_succ_of_le hm, a ++ ("/" ++ b), ?_,
      cleanTo_append_slash.mpr ⟨cleanPath, cleanSuffix⟩, Or.inr ⟨?_, by omega⟩⟩
    · simp [nthDecode_append_slash, ha, hb]
    · rw [strictDecode_append_slash, stuck]
      cases strictDecode a <;> rfl

/-- Appending segments to a refused path keeps it refused exactly when the
appended text masks no pass. -/
theorem refused_append_iff {path : String} (noQuery : '?' ∉ path.toList)
    (found : (ambiguity path).isSome) (suffix : String) :
    PathRefused (path ++ ("/" ++ suffix)) ↔ ¬ Masks path suffix := by
  rw [pathRefused_iff, not_iff_not]
  exact ambiguity_append_eq_none_iff noQuery (Option.isSome_iff_ne_none.mp found) suffix

/-- `/%252e%252e` is refused, `/%252e%252e/x` still is. -/
theorem refused_append_plain_segment :
    PathRefused ("/%252e%252e" ++ ("/" ++ "x")) ↔ ¬ Masks "/%252e%252e" "x" :=
  refused_append_iff (by decide +kernel) (by decide +kernel) "x"

/-- `%25zz` decodes once, and then no further: the pass that would show `..` is not
reached. -/
theorem appended_segment_masks_traversal :
    '?' ∉ "/%252e%252e".toList ∧ (ambiguity "/%252e%252e").isSome ∧
      ¬ PathRefused ("/%252e%252e" ++ ("/" ++ "%25zz")) := by
  refine ⟨by decide +kernel, by decide +kernel, fun refused => ?_⟩
  exact absurd refused.1 (by decide +kernel)

/-! ## Literal prefixes -/

theorem dotSegment_nthDecode_of_ambiguity {path : String}
    (h : ambiguity path = none) {n : Nat} {d : String}
    (hd : nthDecode (routing path) n = some d) : dotSegment d = none := by
  obtain ⟨m, -, t, ht, ⟨-, -, clean⟩, final⟩ := (ambiguityFrom_eq_none_iff _ _ _).mp h
  by_cases within : n ≤ m
  · exact clean n within d hd
  · obtain ⟨k, rfl⟩ := Nat.exists_eq_add_of_lt (Nat.not_le.mp within)
    have onward (k : Nat) : nthDecode (routing path) (m + k) = nthDecode t k := by
      induction k with
      | zero => exact ht
      | succ k ih => rw [← Nat.add_assoc, nthDecode, ih, nthDecode]
    rw [Nat.add_assoc, onward] at hd
    obtain plain | ⟨undecodable, -⟩ := final
    · rw [nthDecode_plain plain] at hd
      obtain rfl := Option.some.inj hd
      exact clean m (Nat.le_refl m) t ht
    · rw [nthDecode_succ, undecodable] at hd
      cases hd

/-- `P` is `lead ++ "/"`, and any number of decodings leaves it in place. -/
theorem nthDecode_after_literal {lead rest : String} (plain : '%' ∉ lead.toList)
    {n : Nat} {d : String} (hd : nthDecode (lead ++ ("/" ++ rest)) n = some d) :
    ∃ tail, d = lead ++ ("/" ++ tail) := by
  rw [nthDecode_append_slash, nthDecode_plain plain, Option.bind_some] at hd
  obtain ⟨tail, -, rfl⟩ := Option.map_eq_some_iff.mp hd
  exact ⟨tail, rfl⟩

/-- An upstream that decodes an allowed path any number of times and then normalises
it stays under every literal prefix of the raw path. -/
theorem allowed_path_stays_under_literal {Schema β : Type} (x : Externals Schema β)
    (engine : Engine Schema β) (q : PolicyQuery) (evalUs : Nat) (path : String)
    (carries : q.endpointPath = some path)
    (allowed : (engine.evaluate x q evalUs).1.allow = true) (literal : String)
    (leads : literal.toList <+: path.toList) (ends : literal.toList.getLast? = some '/')
    (plain : ∀ c ∈ ['%', '?', '\\', ';'], c ∉ literal.toList)
    (n : Nat) (d : String) (decoded : nthDecode (routing path) n = some d) :
    literal.toList <+: UriPath.normalize d.toList := by
  obtain ⟨routeId, upstream, method, ruleLabel, childPid, target⟩ :=
    endpointPath_eq_some carries
  have passed := Engine.ambiguity_eq_none_of_allow x target allowed
  have noDot :=
    dotSegment_eq_none_iff.mp (dotSegment_nthDecode_of_ambiguity passed decoded)
  obtain ⟨lead, split⟩ := List.getLast?_eq_some_iff.mp ends
  obtain ⟨rest, whole⟩ := leads
  have free {c : Char} (hc : c ∈ ['%', '?', '\\', ';']) :
      c ∉ (String.ofList lead).toList := by
    rw [String.toList_ofList]
    intro mem
    exact plain c hc (split ▸ List.mem_append_left _ mem)
  have raw : path = String.ofList lead ++ ("/" ++ String.ofList rest) := by
    apply String.toList_inj.mp
    rw [← whole, split]
    simp
  rw [raw, routing_append (free (by decide)), routing_slash] at decoded
  obtain ⟨tail, rfl⟩ := nthDecode_after_literal (free (by decide)) decoded
  have shape : (String.ofList lead ++ ("/" ++ tail)).toList =
      lead ++ '/' :: tail.toList := by simp
  have lit : ∀ c ∈ ['%', '?', '\\', ';'], c ∉ lead := fun c hc => by simpa using free hc
  rw [shape] at noDot ⊢
  rw [split]
  exact UriPath.leading_normalize (lit ';' (by decide)) (lit '\\' (by decide)) noDot

/-- Decoded once, and with its backslash folded, the path is still under `/repos/`. -/
theorem allowed_path_stays_under_repos :
    "/repos/".toList <+: UriPath.normalize "/repos/a\\b".toList := by
  have plain : ∀ c ∈ ['%', '?', '\\', ';'], c ∉ "/repos/".toList := by
    intro c special
    simp only [List.mem_cons, List.not_mem_nil, or_false] at special
    obtain rfl | rfl | rfl | rfl := special <;> decide +kernel
  exact allowed_path_stays_under_literal smallExternals smallEngine
    (endpointQuery "/repos/a%5cb?q=..") 7 "/repos/a%5cb?q=.." rfl
      (by decide +kernel) "/repos/"
    (by decide +kernel) (by decide +kernel) plain 1 "/repos/a\\b" (by decide +kernel)

end NonoCedarPdp
