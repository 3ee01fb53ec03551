import Mathlib.Data.List.TakeWhile

/-!
URI paths as character lists: segments, segment parameters, and the
`remove_dot_segments` routine of RFC 3986, section 5.2.4. On a path without dot
segments the routine is the identity.
-/
namespace UriPath

def IsDot (segment : List Char) : Prop :=
  segment = ['.'] ∨ segment = ['.', '.']

instance : DecidablePred IsDot := fun segment =>
  inferInstanceAs (Decidable (segment = ['.'] ∨ segment = ['.', '.']))

def foldBackslash (path : List Char) : List Char :=
  path.map fun c => if c = '\\' then '/' else c

def cutParams (segment : List Char) : List Char :=
  segment.takeWhile (· ≠ ';')

def dropParams (path : List Char) : List Char :=
  ['/'].intercalate ((path.splitOn '/').map cutParams)

/-- The last segment of the output buffer and the `/` in front of it. -/
def removeLast (output : List Char) : List Char :=
  (output.reverse.dropWhile (· ≠ '/')).tail.reverse

/-- The loop of RFC 3986, 5.2.4, with its rules A to E in order. -/
def removeDotSegmentsFrom (input output : List Char) : List Char :=
  match input with
  | [] => output
  | c :: rest =>
      if ['.', '.', '/'] <+: c :: rest then
        removeDotSegmentsFrom ((c :: rest).drop 3) output
      else if ['.', '/'] <+: c :: rest then
        removeDotSegmentsFrom ((c :: rest).drop 2) output
      else if ['/', '.', '/'] <+: c :: rest then
        removeDotSegmentsFrom ((c :: rest).drop 2) output
      else if c :: rest = ['/', '.'] then removeDotSegmentsFrom ['/'] output
      else if ['/', '.', '.', '/'] <+: c :: rest then
        removeDotSegmentsFrom ((c :: rest).drop 3) (removeLast output)
      else if c :: rest = ['/', '.', '.'] then
        removeDotSegmentsFrom ['/'] (removeLast output)
      else if c :: rest = ['.'] ∨ c :: rest = ['.', '.'] then output
      else
        removeDotSegmentsFrom (rest.dropWhile (· ≠ '/'))
          (output ++ c :: rest.takeWhile (· ≠ '/'))
termination_by input.length
decreasing_by
  all_goals first
    | (rw [List.length_drop, List.length_cons]; omega)
    | (rename_i whole; rw [whole]; decide)
    | exact Nat.lt_succ_of_le (List.dropWhile_sublist _).length_le

def removeDotSegments (path : List Char) : List Char :=
  removeDotSegmentsFrom path []

/-- What a normalising server makes of a decoded path. -/
def normalize (path : List Char) : List Char :=
  removeDotSegments (dropParams (foldBackslash path))

/-! ## Segments -/

theorem not_isDot_nil : ¬ IsDot [] := by decide

theorem splitOn_slash_cons (rest : List Char) :
    ('/' :: rest).splitOn '/' = [] :: rest.splitOn '/' :=
  List.splitOn_append_cons_self [] rest

theorem mem_splitOn_of_leading {segment path : List Char} (h : '/' ∉ segment)
    (pre : segment ++ ['/'] <+: path) : segment ∈ path.splitOn '/' := by
  obtain ⟨rest, rfl⟩ := pre
  rw [List.append_assoc, List.singleton_append,
    List.splitOn_append_cons_self_of_not_mem h]
  exact List.mem_cons_self

/-- What rule E leaves has only segments of the input, and perhaps an empty one. -/
theorem mem_splitOn_dropWhile {c : Char} {rest segment : List Char}
    (h : segment ∈ (rest.dropWhile (· ≠ '/')).splitOn '/') :
    segment ∈ (c :: rest).splitOn '/' ∨ segment = [] := by
  cases hd : rest.dropWhile (· ≠ '/') with
  | nil => rw [hd] at h; exact Or.inr (by simpa using h)
  | cons d tail =>
      obtain rfl : d = '/' := by
        have nonempty : rest.dropWhile (fun c => decide (c ≠ '/')) ≠ [] := by
          rw [hd]; exact List.cons_ne_nil d tail
        have first := List.head_dropWhile_not (fun c => decide (c ≠ '/')) nonempty
        have head : (rest.dropWhile (fun c => decide (c ≠ '/'))).head nonempty = d := by
          simp only [hd, List.head_cons]
        rw [head] at first
        simpa using first
      rw [hd, splitOn_slash_cons, List.mem_cons] at h
      refine h.symm.imp_left fun inTail => ?_
      rw [← List.takeWhile_append_dropWhile (p := (· ≠ '/')) (l := rest), hd,
        ← List.cons_append, List.splitOn_append_cons_self]
      exact List.mem_append_right _ inTail

theorem removeDotSegmentsFrom_eq {input : List Char}
    (noDot : ∀ segment ∈ input.splitOn '/', ¬ IsDot segment) (output : List Char) :
    removeDotSegmentsFrom input output = output ++ input := by
  have one : '/' ∉ ['.'] := by decide
  have two : '/' ∉ ['.', '.'] := by decide
  fun_induction removeDotSegmentsFrom input output with
  | case1 output => simp
  | case2 output c rest pre =>
      exact absurd (Or.inr rfl) (noDot _ (mem_splitOn_of_leading two pre))
  | case3 output c rest _ pre =>
      exact absurd (Or.inl rfl) (noDot _ (mem_splitOn_of_leading one pre))
  | case4 output c rest _ _ pre =>
      obtain ⟨rfl, tail⟩ := List.cons_prefix_cons.mp pre
      rw [splitOn_slash_cons] at noDot
      exact absurd (Or.inl rfl)
        (noDot _ (List.mem_cons_of_mem _ (mem_splitOn_of_leading one tail)))
  | case5 output c rest _ _ _ whole =>
      rw [whole] at noDot
      exact absurd (Or.inl rfl) (noDot ['.'] (by decide))
  | case6 output c rest _ _ _ _ pre =>
      obtain ⟨rfl, tail⟩ := List.cons_prefix_cons.mp pre
      rw [splitOn_slash_cons] at noDot
      exact absurd (Or.inr rfl)
        (noDot _ (List.mem_cons_of_mem _ (mem_splitOn_of_leading two tail)))
  | case7 output c rest _ _ _ _ _ whole =>
      rw [whole] at noDot
      exact absurd (Or.inr rfl) (noDot ['.', '.'] (by decide))
  | case8 output c rest _ _ _ _ _ _ whole =>
      obtain whole | whole := whole <;> rw [whole] at noDot
      · exact absurd (Or.inl rfl) (noDot ['.'] (by decide))
      · exact absurd (Or.inr rfl) (noDot ['.', '.'] (by decide))
  | case9 output c rest _ _ _ _ _ _ _ ih =>
      rw [ih]
      · simp
      · intro segment mem
        obtain mem | rfl := mem_splitOn_dropWhile (c := c) mem
        · exact noDot segment mem
        · exact not_isDot_nil

theorem removeDotSegments_eq {path : List Char}
    (noDot : ∀ segment ∈ path.splitOn '/', ¬ IsDot segment) :
      removeDotSegments path = path :=
  removeDotSegmentsFrom_eq noDot []

/-- The characters of a segment are characters of the path, and no separators. -/
theorem of_mem_splitOnP {separator : Char → Bool} {path segment : List Char}
    (h : segment ∈ path.splitOnP separator) :
      ∀ c ∈ segment, c ∈ path ∧ separator c = false := by
  induction path generalizing segment with
  | nil =>
      obtain rfl : segment = [] := by simpa using h
      simp
  | cons d path ih =>
      rw [List.splitOnP_cons_eq_if_modifyHead] at h
      split at h
      · obtain rfl | inTail := List.mem_cons.mp h
        · simp
        · exact fun c mem => (ih inTail c mem).imp_left (List.mem_cons_of_mem d)
      · rename_i plain
        obtain ⟨head, tail, split⟩ :=
          List.exists_cons_of_ne_nil (List.splitOnP_ne_nil separator path)
        rw [split, List.modifyHead_cons, List.mem_cons] at h
        rw [split] at ih
        obtain rfl | inTail := h
        · intro c mem
          obtain rfl | inHead := List.mem_cons.mp mem
          · exact ⟨List.mem_cons_self, Bool.not_eq_true _ ▸ plain⟩
          · exact (ih List.mem_cons_self c inHead).imp_left (List.mem_cons_of_mem d)
        · exact fun c mem =>
            (ih (List.mem_cons_of_mem _ inTail) c mem).imp_left (List.mem_cons_of_mem d)

theorem of_mem_splitOn {path segment : List Char} (h : segment ∈ path.splitOn '/') :
    ∀ c ∈ segment, c ∈ path ∧ c ≠ '/' := by
  intro c mem
  obtain ⟨inPath, plain⟩ := of_mem_splitOnP h c mem
  exact ⟨inPath, by simpa using plain⟩

/-! ## Parameters -/

theorem cutParams_eq_self {segment : List Char} (h : ';' ∉ segment) :
    cutParams segment = segment := by
  rw [cutParams, List.takeWhile_eq_self_iff]
  intro c mem
  simpa using fun hc : c = ';' => h (hc ▸ mem)

theorem map_cutParams_eq_self {path : List Char} (h : ';' ∉ path) :
    (path.splitOn '/').map cutParams = path.splitOn '/' := by
  rw [List.map_congr_left, List.map_id]
  exact fun segment mem => cutParams_eq_self fun inSegment =>
    h (of_mem_splitOn mem _ inSegment).1

theorem splitOn_dropParams (path : List Char) :
    (dropParams path).splitOn '/' = (path.splitOn '/').map cutParams := by
  apply List.splitOn_intercalate
  · intro cut mem
    obtain ⟨segment, inPath, rfl⟩ := List.mem_map.mp mem
    exact fun inCut =>
      (of_mem_splitOn inPath _ ((List.takeWhile_sublist _).mem inCut)).2 rfl
  · simp

theorem intercalate_append (c : Char) {xs ys : List (List Char)} (hx : xs ≠ [])
    (hy : ys ≠ []) :
    [c].intercalate (xs ++ ys) = [c].intercalate xs ++ c :: [c].intercalate ys := by
  induction xs with
  | nil => exact absurd rfl hx
  | cons x xs ih =>
      cases xs with
      | nil => simp [List.intercalate_cons_of_ne_nil hy]
      | cons z xs =>
          have step := ih (by simp)
          simp only [List.cons_append] at step ⊢
          simp only [List.intercalate_cons_cons, step, List.append_assoc,
            List.cons_append, List.nil_append]

theorem dropParams_append {pre : List Char} (noParam : ';' ∉ pre) (rest : List Char) :
    dropParams (pre ++ '/' :: rest) = pre ++ '/' :: dropParams rest := by
  rw [dropParams, List.splitOn_append_cons_self, List.map_append,
    map_cutParams_eq_self noParam, intercalate_append '/' (by simp) (by simp),
    List.intercalate_splitOn]
  rfl

/-! ## Normalisation -/

theorem splitOn_foldBackslash (path : List Char) :
    (foldBackslash path).splitOn '/' = path.splitOnP (fun c => c = '/' ∨ c = '\\') := by
  induction path with
  | nil => rfl
  | cons c path ih =>
      have fold : foldBackslash (c :: path) =
          (if c = '\\' then '/' else c) :: foldBackslash path := rfl
      rw [fold, List.splitOn_cons_eq_if_modifyHead, ih,
        List.splitOnP_cons_eq_if_modifyHead]
      by_cases back : c = '\\' <;> by_cases slash : c = '/' <;> simp [back, slash]

theorem foldBackslash_eq_self {path : List Char} (h : '\\' ∉ path) :
    foldBackslash path = path := by
  rw [foldBackslash, List.map_congr_left, List.map_id]
  intro c mem
  have notBack : c ≠ '\\' := fun back => h (back ▸ mem)
  exact if_neg notBack

/-- Without a dot segment, what stands in front of a `/` is still in front of it
after normalisation. -/
theorem leading_normalize {pre rest : List Char} (noParam : ';' ∉ pre)
    (noBack : '\\' ∉ pre)
    (noDot : ∀ segment ∈ (pre ++ '/' :: rest).splitOnP (fun c => c = '/' ∨ c = '\\'),
      ¬ IsDot (cutParams segment)) :
    pre ++ ['/'] <+: normalize (pre ++ '/' :: rest) := by
  have fold : foldBackslash (pre ++ '/' :: rest) = pre ++ '/' :: foldBackslash rest := by
    have kept := foldBackslash_eq_self noBack
    rw [foldBackslash] at kept
    rw [foldBackslash, List.map_append, kept]
    rfl
  have segments :
      ∀ segment ∈ (dropParams (foldBackslash (pre ++ '/' :: rest))).splitOn '/',
      ¬ IsDot segment := by
    intro segment mem
    rw [splitOn_dropParams, splitOn_foldBackslash] at mem
    obtain ⟨whole, inPath, rfl⟩ := List.mem_map.mp mem
    exact noDot whole inPath
  rw [normalize, removeDotSegments_eq segments, fold, dropParams_append noParam]
  exact ⟨dropParams (foldBackslash rest), by simp⟩

end UriPath
