import NonoCedarPdp.AmbiguityVerdict
import NonoCedarPdp.EndpointGuard
import NonoCedarPdp.Lib.DebugText

/-!
The refused path in the deny reason. The reason quotes the path as `Debug` writes it, so
it holds the path as sent when what `Debug` escapes stands at the path's edges, or when
the path repeats the reason's own words. Every other backslash, quote or unprintable
character is found escaped only.
-/
namespace NonoCedarPdp
open RustText Engine

/-- What the reason puts behind the quoted path. -/
def reasonTail (tables : UnicodeTables) (a : Ambiguity) : String :=
  "\"" ++ ": " ++ a.describe tables ++
    " — refusing to guess what the upstream resolves it to"

/-- The escapes are at the edges of the path, or the path echoes the words its own first
dot segment is refused with. -/
def Carried (tables : UnicodeTables) (path : String) : Prop :=
  (debugEscaping tables).EdgeOnly path.toList ∨
    ∃ segment, dotSegment (routing path) = some segment ∧
      (debugEscaping tables).Echo
        (reasonTail tables (.dotSegment segment 0)).toList path.toList

/-- The reason holds the path as sent and the description, and no policy is credited. -/
def CarriesTarget (d : Decision) (path description : String) : Prop :=
  path.toList <:+: d.reason.toList ∧ description.toList <:+: d.reason.toList ∧
  d.matched = []

/-! ## The words of the reason -/

/-- Neither a control character nor one the ambiguity check gives a meaning. -/
def isQuiet (c : Char) : Bool := !isControl c && !(['%', '/', '\\', ';', '?'].contains c)

def QuietText (s : String) : Prop := s.toList.all isQuiet = true

instance : DecidablePred QuietText :=
  fun s => inferInstanceAs (Decidable (s.toList.all isQuiet = true))

theorem quietText_iff {s : String} : QuietText s ↔ ∀ c ∈ s.toList, isQuiet c = true :=
  List.all_eq_true

theorem quietText_append {s t : String} :
    QuietText (s ++ t) ↔ QuietText s ∧ QuietText t := by
  rw [quietText_iff, quietText_iff, quietText_iff, String.toList_append,
    List.forall_mem_append]

theorem isControl_of_quiet {c : Char} (quiet : isQuiet c = true) :
    isControl c = false := by
  rw [isQuiet, Bool.and_eq_true] at quiet
  exact Bool.not_eq_true' _ ▸ quiet.1

theorem quietText_natural (n : Nat) : QuietText (toString n) :=
  quietText_iff.mpr (forall_mem_toString_nat (by decide) n)

theorem dotSegment_cases {path segment : String} (h : dotSegment path = some segment) :
    segment = "." ∨ segment = ".." := by
  obtain ⟨found, hfound, rfl⟩ := Option.map_eq_some_iff.mp h
  have dot := List.find?_some hfound
  rw [decide_eq_true_eq] at dot
  obtain rfl | rfl := dot
  · exact .inl rfl
  · exact .inr rfl

theorem ambiguity_dotSegment_cases {path segment : String} {passes : Nat}
    (h : ambiguity path = some (.dotSegment segment passes)) :
      segment = "." ∨ segment = ".." := by
  obtain ⟨n, d, -, -, found, -⟩ := ambiguityFrom_dotSegment h
  exact dotSegment_cases found

theorem debugStr_dots (tables : UnicodeTables) {segment : String}
    (dots : segment = "." ∨ segment = "..") :
      debugStr tables segment = "\"" ++ segment ++ "\"" := by
  have dot := escapeDebug_ascii tables (c := '.') (by decide) (by decide)
      (by decide) (by decide)
  rw [← String.toList_inj, toList_debugStr]
  obtain rfl | rfl := dots
  · simp [debugEscaping, dot]
  · simp [debugEscaping, dot]

theorem quietText_describe (tables : UnicodeTables) {a : Ambiguity} {path : String}
    (h : ambiguity path = some a) : QuietText (a.describe tables) := by
  cases a with
  | dotSegment segment passes =>
      have dots := ambiguity_dotSegment_cases h
      have quoted : QuietText (debugStr tables segment) := by
        rw [debugStr_dots tables dots]
        cases dots with
        | inl one => exact one ▸ (by decide)
        | inr two => exact two ▸ (by decide)
      unfold Ambiguity.describe
      simp only [quietText_append]
      refine ⟨⟨⟨⟨⟨by decide, quoted⟩, by decide⟩, ?_⟩, by decide +kernel⟩, by decide⟩
      split
      · decide
      · decide
      · rw [quietText_append, quietText_append]
        refine ⟨⟨?_, ?_⟩, ?_⟩
        · decide
        · exact quietText_natural _
        · decide +kernel
  | malformedEscape =>
      unfold Ambiguity.describe
      dsimp only
      decide +kernel
  | nonUtf8 =>
      unfold Ambiguity.describe
      dsimp only
      decide +kernel
  | nestedTooDeep =>
      unfold Ambiguity.describe
      simp only [quietText_append]
      exact ⟨⟨by decide +kernel, quietText_natural _⟩, by decide⟩

theorem quietText_reasonTail (tables : UnicodeTables) {a : Ambiguity} {path : String}
    (h : ambiguity path = some a) : QuietText (reasonTail tables a) := by
  rw [reasonTail, quietText_append, quietText_append, quietText_append]
  exact ⟨⟨⟨by decide, by decide⟩, quietText_describe tables h⟩, by decide⟩

/-! ## The reason as text -/

theorem isControl_escapeDebug (tables : UnicodeTables) :
    ∀ c, isControl c = false →
      ∀ d ∈ (debugEscaping tables).esc c, isControl d = false := by
  refine forall_mem_debugEscaping tables (by decide) fun d word => ?_
  obtain ⟨low, high, -⟩ := word_bounds word
  simp only [isControl, Bool.or_eq_false_iff, Bool.and_eq_false_iff,
    decide_eq_false_iff_not]
  omega

def reasonFront : String := "ambiguous endpoint path " ++ "\""

section Reason
variable {Schema β : Type} {x : Externals Schema β} {engine : Engine Schema β}
  {q : PolicyQuery} {path : String} {a : Ambiguity}

theorem toList_ambiguousPathReason (x : Externals Schema β) (path : String)
    (a : Ambiguity) : (ambiguousPathReason x path (a.describe x.tables)).toList =
      reasonFront.toList ++
        ((debugEscaping x.tables).all path.toList ++ (reasonTail x.tables a).toList) := by
  have frame (front cause behind : String) :
      (front ++ debugStr x.tables path ++ ": " ++ cause ++ behind).toList =
        (front ++ "\"").toList ++
          ((debugEscaping x.tables).all path.toList ++
            ("\"" ++ ": " ++ cause ++ behind).toList) := by
    simp [toList_debugStr]
  exact frame _ _ _

/-- Nothing in the reason is escaped a second time. -/
theorem controlEscape_ambiguousPathReason
    (controlFree : ∀ c ∈ path.toList, isControl c = false)
    (ambiguous : ambiguity path = some a) :
    controlEscape (ambiguousPathReason x path (a.describe x.tables)) =
      ambiguousPathReason x path (a.describe x.tables) := by
  have plain : Plain (ambiguousPathReason x path (a.describe x.tables)) := by
    rw [plain_iff, toList_ambiguousPathReason, List.forall_mem_append,
      List.forall_mem_append]
    refine ⟨plain_iff.mp (by decide : Plain reasonFront), fun c mem => ?_,
      fun c mem => ?_⟩
    · exact (debugEscaping x.tables).forall_mem_all
        (isControl_escapeDebug x.tables) controlFree c mem
    · exact isControl_of_quiet
        (quietText_iff.mp (quietText_reasonTail x.tables ambiguous) c mem)
  rw [Plain] at plain
  rw [controlEscape, if_neg (plain ▸ Bool.false_ne_true)]

theorem evaluate_of_ambiguous {routeId upstream method ruleLabel : String}
    {childPid : UInt32} (x : Externals Schema β) (engine : Engine Schema β)
    (target : q.target = .endpoint routeId upstream method path ruleLabel childPid)
    (controlFree : ∀ c ∈ path.toList, isControl c = false)
    (ambiguous : ambiguity path = some a) (evalUs : Nat) :
    (engine.evaluate x q evalUs).1.reason =
      ambiguousPathReason x path (a.describe x.tables) ∧
      (engine.evaluate x q evalUs).1.matched = [] := by
  have denied : (engine.evaluate x q evalUs).1 =
      .deny (ambiguousPathReason x path (a.describe x.tables)) := by
    simp [evaluate, pathAmbiguity, target, ambiguous]
  rw [denied, Decision.deny, controlEscape_ambiguousPathReason controlFree ambiguous]
  exact ⟨rfl, rfl⟩

end Reason

/-! ## Ambiguous paths -/

theorem routing_subset (path : String) : (routing path).toList ⊆ path.toList := by
  intro c mem
  rw [routing, splitFirst, String.toList_ofList] at mem
  exact (List.takeWhile_sublist _).subset mem

/-- Without a `%` there is nothing to decode. -/
theorem ambiguity_of_no_percent {path : String} (noPercent : '%' ∉ path.toList) :
    ambiguity path = (dotSegment (routing path)).map (.dotSegment · 0) := by
  have routed : '%' ∉ (routing path).toList :=
    fun mem => noPercent (routing_subset path mem)
  rw [ambiguity, maxDecodePasses, ambiguityFrom]
  cases dotSegment (routing path) with
  | some segment => rfl
  | none => simp [routed]

theorem ambiguity_of_dotSegment {path segment : String}
    (found : dotSegment (routing path) = some segment) :
    ambiguity path = some (.dotSegment segment 0) := by
  rw [ambiguity, maxDecodePasses, ambiguityFrom, found]

theorem segment_of_dotSegment {path segment : String}
    (h : dotSegment path = some segment) :
    ∃ whole ∈ path.toList.splitOnP (fun c => c = '/' ∨ c = '\\'),
      UriPath.cutParams whole = segment.toList := by
  obtain ⟨before, after, split, -, -⟩ := firstDot_of_dotSegment h
  have mem : segment.toList ∈ segments path :=
    split ▸ List.mem_append_right _ List.mem_cons_self
  exact List.mem_map.mp mem

theorem mem_of_dotSegment {path segment : String} (h : dotSegment path = some segment) :
    '.' ∈ path.toList := by
  obtain ⟨whole, inPath, cut⟩ := segment_of_dotSegment h
  have dot : '.' ∈ segment.toList := by
    obtain rfl | rfl := dotSegment_cases h <;> decide
  rw [← cut, UriPath.cutParams] at dot
  exact (UriPath.of_mem_splitOnP inPath _ ((List.takeWhile_sublist _).subset dot)).1

theorem dot_or_percent_of_ambiguous {path : String} {a : Ambiguity}
    (h : ambiguity path = some a) : ¬ ∀ c ∈ path.toList, c ≠ '.' ∧ c ≠ '%' := by
  intro clean
  have noPercent : '%' ∉ path.toList := fun mem => (clean _ mem).2 rfl
  rw [ambiguity_of_no_percent noPercent, Option.map_eq_some_iff] at h
  obtain ⟨segment, found, -⟩ := h
  exact (clean _ (routing_subset path (mem_of_dotSegment found))).1 rfl

/-- A path of quiet characters is ambiguous only as a dot segment of its own. -/
theorem eq_dots_of_quiet {path : String} {a : Ambiguity} (h : ambiguity path = some a)
    (quiet : QuietText path) : path = "." ∨ path = ".." := by
  have missing (c : Char) (special : isQuiet c = false) : c ∉ path.toList := fun mem =>
    absurd (quietText_iff.mp quiet c mem) (special ▸ Bool.false_ne_true)
  rw [ambiguity_of_no_percent (missing '%' (by decide)), Option.map_eq_some_iff,
    routing_eq_self (missing '?' (by decide))] at h
  obtain ⟨segment, found, -⟩ := h
  obtain ⟨whole, inPath, cut⟩ := segment_of_dotSegment found
  have single : path.toList.splitOnP (fun c => c = '/' ∨ c = '\\') = [path.toList] := by
    apply List.splitOnP_eq_singleton
    intro c mem
    have slash : c ≠ '/' := fun same => missing '/' (by decide) (same ▸ mem)
    have backslash : c ≠ '\\' := fun same => missing '\\' (by decide) (same ▸ mem)
    simp [slash, backslash]
  rw [single, List.mem_singleton] at inPath
  rw [inPath, UriPath.cutParams_eq_self (missing ';' (by decide)),
    String.toList_inj] at cut
  exact cut ▸ dotSegment_cases found

/-! ## Where the reason holds the path -/

theorem edgeOnly_of_ascii (tables : UnicodeTables) {text : List Char}
    (plain : text.all fun c => 0x20 ≤ c.toNat ∧ c.toNat < 0x7f ∧ c ≠ '\\' ∧ c ≠ '"') :
    (debugEscaping tables).EdgeOnly text := by
  refine ⟨0, [], text, 0, by simp, .inl rfl, fun c mem => ?_⟩
  obtain ⟨low, high, noBackslash, noQuote⟩ :=
    of_decide_eq_true (List.all_eq_true.mp plain c mem)
  exact escapeDebug_ascii tables low high noBackslash noQuote

theorem closed_debugEscaping (tables : UnicodeTables) (bad : Char) (notWord : ¬ Word bad)
    (notMark : bad ≠ '\\') :
    ∀ c, c ≠ bad → ∀ d ∈ (debugEscaping tables).esc c, d ≠ bad :=
  forall_mem_debugEscaping tables notMark.symm fun _ word same => notWord (same ▸ word)

/-- Only a dot segment in the path as sent is refused in words the path can repeat. -/
theorem echo_iff_of_ambiguous (tables : UnicodeTables) {path : String} {a : Ambiguity}
    (ambiguous : ambiguity path = some a) :
    (debugEscaping tables).Echo (reasonTail tables a).toList path.toList ↔
      ∃ segment, dotSegment (routing path) = some segment ∧
        (debugEscaping tables).Echo (reasonTail tables (.dotSegment segment 0)).toList
          path.toList := by
  constructor
  · intro echo
    have clean : ∀ c ∈ (reasonTail tables a).toList, c ≠ '%' := by
      rintro c mem rfl
      exact absurd (quietText_iff.mp (quietText_reasonTail tables ambiguous) '%' mem) (by decide)
    have closed := closed_debugEscaping tables '%' (by decide) (by decide)
    have noPercent : '%' ∉ path.toList :=
      fun mem => echo.forall_mem _ closed clean _ mem rfl
    have verdict := ambiguity_of_no_percent noPercent
    rw [ambiguous, eq_comm, Option.map_eq_some_iff] at verdict
    obtain ⟨segment, found, rfl⟩ := verdict
    exact ⟨segment, found, echo⟩
  · rintro ⟨segment, found, echo⟩
    have verdict := ambiguity_of_dotSegment found
    rw [ambiguous, Option.some.injEq] at verdict
    exact verdict ▸ echo

-- A path can begin with its own refusal, so the second way to be carried is not empty.
example : Carried asciiTables "..\\\" path segment\": a \"..\" path segment" :=
  .inr ⟨"..", by decide +kernel, "\": a \"..\" path segment".toList,
    1, by decide, by decide +kernel, by decide, by decide +kernel⟩

section Refusal
variable {Schema β : Type} (x : Externals Schema β) {path : String} {a : Ambiguity}

theorem path_infix_reason_iff (ambiguous : ambiguity path = some a) :
    path.toList <:+: (ambiguousPathReason x path (a.describe x.tables)).toList ↔
      Carried x.tables path := by
  have closed (c : Char) (ok : c ≠ '.' ∧ c ≠ '%') (d : Char)
      (mem : d ∈ (debugEscaping x.tables).esc c) : d ≠ '.' ∧ d ≠ '%' :=
    ⟨closed_debugEscaping x.tables '.' (by decide) (by decide) c ok.1 d mem,
      closed_debugEscaping x.tables '%' (by decide) (by decide) c ok.2 d mem⟩
  have front : reasonFront.toList.all fun c => c ≠ '.' ∧ c ≠ '%' := by decide
  have clean : ∀ c ∈ reasonFront.toList, c ≠ '.' ∧ c ≠ '%' := fun c mem =>
    of_decide_eq_true (List.all_eq_true.mp front c mem)
  rw [toList_ambiguousPathReason, Escaping.infix_frame_iff _ closed clean
    (dot_or_percent_of_ambiguous ambiguous),
    echo_iff_of_ambiguous x.tables ambiguous, Carried]
  refine or_iff_right_of_imp fun behind => .inl ?_
  have quiet : QuietText path := quietText_iff.mpr fun c mem =>
    quietText_iff.mp (quietText_reasonTail x.tables ambiguous) c (behind.subset mem)
  apply edgeOnly_of_ascii
  obtain rfl | rfl := eq_dots_of_quiet ambiguous quiet <;> decide

theorem description_infix_reason (path : String) (a : Ambiguity) :
    (a.describe x.tables).toList <:+:
      (ambiguousPathReason x path (a.describe x.tables)).toList := by
  have frame (front cause behind : String) :
      cause.toList <:+: (front ++ cause ++ behind).toList :=
    ⟨front.toList, behind.toList, by simp⟩
  exact frame _ _ _

/-- An ambiguous path without control characters is denied with no policy credited and
with its ambiguity described. The reason holds the path as sent exactly when what `Debug`
escapes stands at the path's edges, or the path repeats the words it is refused with. -/
theorem refused_target_carried_iff (engine : Engine Schema β) (q : PolicyQuery)
    (evalUs : Nat) (routeId upstream method ruleLabel : String) (childPid : UInt32)
    (target : q.target = .endpoint routeId upstream method path ruleLabel childPid)
    (controlFree : ∀ c ∈ path.toList, isControl c = false)
    (ambiguous : ambiguity path = some a) :
    (CarriesTarget (engine.evaluate x q evalUs).1 path (a.describe x.tables) ↔
        Carried x.tables path) ∧
      (a.describe x.tables).toList <:+: (engine.evaluate x q evalUs).1.reason.toList ∧
      (engine.evaluate x q evalUs).1.matched = [] := by
  obtain ⟨reason, matched⟩ :=
    evaluate_of_ambiguous x engine target controlFree ambiguous evalUs
  have described := description_infix_reason x path a
  rw [← reason] at described
  refine ⟨?_, described, matched⟩
  rw [← path_infix_reason_iff x ambiguous, ← reason]
  exact ⟨fun carries => carries.1, fun held => ⟨held, described, matched⟩⟩

end Refusal

theorem refused_target_carried_iff_traversal :
    CarriesTarget
      (smallEngine.evaluate smallExternals (endpointQuery "/repos/../user/keys") 0).1
      "/repos/../user/keys" (Ambiguity.describe asciiTables (.dotSegment ".." 0)) := by
  refine (refused_target_carried_iff smallExternals smallEngine
    (endpointQuery "/repos/../user/keys") 0
    _ _ _ _ _ rfl (plain_iff.mp (by decide)) (by decide +kernel)).1.mpr (.inl ?_)
  exact edgeOnly_of_ascii asciiTables (by decide)

def backslashPath : String := "/repos/..\\..\\user/keys"

theorem not_carried_backslashPath : ¬ Carried asciiTables backslashPath := by
  rintro (edges | ⟨segment, found, echo⟩)
  · exact absurd (Escaping.EdgeOnly.occurs _ edges) (by decide +kernel)
  · have quiet := quietText_reasonTail asciiTables (ambiguity_of_dotSegment found)
    have clean (c : Char)
        (mem : c ∈ (reasonTail asciiTables (.dotSegment segment 0)).toList) :
        c ≠ '/' := by
      rintro rfl
      exact absurd (quietText_iff.mp quiet '/' mem) (by decide)
    have closed := closed_debugEscaping asciiTables '/' (by decide) (by decide)
    exact echo.forall_mem _ closed clean '/' (by decide) rfl

/-- A backslash inside the path is doubled, and the path as sent is nowhere in the
reason. -/
theorem refused_backslash_path :
    (∀ c ∈ backslashPath.toList, isControl c = false) ∧
      ambiguity backslashPath = some (.dotSegment ".." 0) ∧
      ¬ CarriesTarget
        (smallEngine.evaluate smallExternals (endpointQuery backslashPath) 0).1
        backslashPath (Ambiguity.describe asciiTables (.dotSegment ".." 0)) := by
  have controlFree : ∀ c ∈ backslashPath.toList, isControl c = false :=
    plain_iff.mp (by decide)
  have ambiguous : ambiguity backslashPath = some (.dotSegment ".." 0) := by
    decide +kernel
  refine ⟨controlFree, ambiguous, ?_⟩
  rintro ⟨held, -⟩
  have target : (endpointQuery backslashPath).target =
      .endpoint _ _ _ backslashPath _ _ := rfl
  rw [(evaluate_of_ambiguous smallExternals smallEngine target controlFree ambiguous 0).1,
    path_infix_reason_iff smallExternals ambiguous] at held
  exact not_carried_backslashPath held

end NonoCedarPdp
