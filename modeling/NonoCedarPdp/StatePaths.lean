import NonoCedarPdp.Isolation
import NonoCedarPdp.UnixView
import Mathlib.Data.List.Induction
import Mathlib.Data.Set.List

/-!
The paths that are resolved before the checks. What is resolved has no link and no `..`
left in it, and the directories above it are the ones a later open goes through, exactly
when resolution does not stop at a link that leads nowhere and no `..` is left over.
-/
namespace NonoCedarPdp
open UnixFs

/-- A configured path once it is absolute. `std::path` keeps no `.` in one. -/
structure AbsolutePath where
  path : Path
  absolute : path.absolute = true
  plain : .curDir ∉ path.components

section Paths
variable {I : Type} (fs : HostFs I) (cwd : Place I OsString)

def IsLink (p : Path) : Prop := ∃ dir name, p = dir.push name ∧ LinkEntry fs cwd dir name

/-- The directory a path leads to, if it leads to one. -/
noncomputable def directoryAt (p : Path) : Option I :=
  match locate fs cwd p with
  | .ok place =>
      if (fs.entries (fs.here place)).isSome then some (fs.here place) else none
  | .error _ => none

/-- The directories among the lexical ancestors of an absolute path, from the root
down. -/
noncomputable def lexicalChain (components : List Component) : List I :=
  (List.range components.length).filterMap fun k =>
    directoryAt fs cwd ⟨true, components.take k⟩

structure CheckedIsUsed (r : Path) : Prop where
  noLink : ∀ components, components <+: r.components →
    ¬ IsLink fs cwd ⟨r.absolute, components⟩
  noParent : .parentDir ∉ r.components
  chain : Visits fs [] r.steps (lexicalChain fs cwd r.components)

/-- Where resolution stops for the first time: at no link, and with no `..` still to
come. -/
def StopsCleanly (p : Path) : Prop :=
  ∀ head c rest, p.components = head ++ c :: rest →
    (∃ place, locate fs cwd ⟨true, head⟩ = .ok place) →
    (¬ ∃ place, locate fs cwd ⟨true, head ++ [c]⟩ = .ok place) →
      .parentDir ∉ c :: rest ∧ ¬ IsLink fs cwd ⟨true, head ++ [c]⟩

variable {fs cwd} {place : Place I OsString} {p : Path}

theorem locate_root : locate fs cwd ⟨true, []⟩ = .ok [] := by
  rw [locate_absolute rfl]
  exact congrArg (Except.mapError ioError) resolve_nil

theorem locate_concat (head rest : List Component) :
    locate fs cwd ⟨true, head ++ rest⟩ =
      (locate fs cwd ⟨true, head⟩).bind fun place =>
        (resolve fs place (rest.filterMap Component.step)).mapError ioError := by
  rw [locate_absolute rfl, locate_absolute rfl, Path.steps, List.filterMap_append,
    resolve_append, Path.steps]
  cases resolve fs [] (head.filterMap Component.step) <;> rfl

theorem located_of_append {head rest : List Component}
    (h : ∃ place, locate fs cwd ⟨true, head ++ rest⟩ = .ok place) :
    ∃ place, locate fs cwd ⟨true, head⟩ = .ok place := by
  rw [locate_concat] at h
  cases found : locate fs cwd ⟨true, head⟩ with
  | error e => rw [found] at h; obtain ⟨_, h⟩ := h; cases h
  | ok place => exact ⟨place, rfl⟩

theorem push_inj {dir dir' : Path} {name name' : OsString}
    (h : dir.push name = dir'.push name') : dir = dir' ∧ name = name' := by
  obtain ⟨absolute, components⟩ := dir
  obtain ⟨absolute', components'⟩ := dir'
  simp only [Path.push, Path.mk.injEq] at h
  obtain ⟨rfl, whole⟩ := h
  obtain ⟨rfl, last⟩ := List.append_inj' whole rfl
  exact ⟨rfl, by simpa using last⟩

theorem isLink_push_iff (dir : Path) {name : OsString} :
    IsLink fs cwd (dir.push name) ↔ LinkEntry fs cwd dir name := by
  constructor
  · rintro ⟨dir', name', same, link⟩
    obtain ⟨rfl, rfl⟩ := push_inj same
    exact link
  · exact fun link => ⟨dir, name, rfl, link⟩

/-! ## What is resolved has no link in it -/

theorem not_isLink_of_chain (chain : Chain fs place) :
    ¬ IsLink fs cwd (pathOf place) := by
  cases place with
  | nil =>
      rintro ⟨dir, name, same, -⟩
      simp [pathOf, names, Path.push] at same
  | cons entry rest =>
      rw [← push_pathOf entry.1 entry.2, isLink_push_iff]
      rintro ⟨there, i, n, found, child, link⟩
      cases (locate_pathOf chain.1).symm.trans found
      obtain ⟨-, m, child', plain⟩ := chain
      cases child.symm.trans child'
      simp [plain] at link

theorem noLink_pathOf (chain : Chain fs place) {components : List Component}
    (isPrefix : components <+: (pathOf place).components) :
      ¬ IsLink fs cwd ⟨true, components⟩ := by
  obtain ⟨rest, suffix, rfl⟩ := prefix_pathOf_iff.mp isPrefix
  exact not_isLink_of_chain (chain.suffix suffix)

/-! ## The lexical chain -/

theorem lexicalChain_concat (components : List Component) (c : Component) :
    lexicalChain fs cwd (components ++ [c]) =
      lexicalChain fs cwd components ++
        (directoryAt fs cwd ⟨true, components⟩).toList := by
  rw [lexicalChain, List.length_append, List.length_singleton, List.range_succ,
    List.filterMap_append, lexicalChain]
  congr 1
  · apply List.filterMap_congr
    intro k mem
    rw [List.take_append_of_le_length (List.mem_range.mp mem).le]
  · rw [List.filterMap_cons, List.take_left']
    · cases directoryAt fs cwd ⟨true, components⟩ <;> rfl
    · rfl

theorem lexicalChain_pathOf (chain : Chain fs place) :
    lexicalChain fs cwd (pathOf place).components = above fs place := by
  induction place with
  | nil => rfl
  | cons entry rest ih =>
      have whole : (pathOf (entry :: rest)).components =
          (pathOf rest).components ++ [.normal entry.1] := by simp [pathOf, names]
      have dir : directoryAt fs cwd ⟨true, (pathOf rest).components⟩ =
          some (fs.here rest) := by
        obtain ⟨l, entries⟩ := chain.directories (List.suffix_refl rest)
        have found : locate fs cwd ⟨true, (pathOf rest).components⟩ = .ok rest :=
          locate_pathOf chain.1
        simp [directoryAt, found, entries]
      rw [whole, lexicalChain_concat, ih chain.1, dir]
      rfl

theorem checkedIsUsed_pathOf (chain : Chain fs place) :
    CheckedIsUsed fs cwd (pathOf place) where
  noLink _ := noLink_pathOf chain
  noParent := by simp [pathOf]
  chain := by
    have arrived : Visits fs place [] [] := .done
    have visits := visits_names chain arrived
    rw [List.append_nil, List.append_nil] at visits
    rw [steps_pathOf, lexicalChain_pathOf chain]
    exact visits

/-! ## Where resolution stops -/

theorem located_or_stuck (fs : HostFs I) (cwd : Place I OsString)
    (components : List Component) :
    (∃ place, locate fs cwd ⟨true, components⟩ = .ok place) ∨
      ∃ head c rest place, components = head ++ c :: rest ∧
        locate fs cwd ⟨true, head⟩ = .ok place ∧
          ¬ ∃ place, locate fs cwd ⟨true, head ++ [c]⟩ = .ok place := by
  induction components using List.reverseRecOn with
  | nil => exact .inl ⟨[], locate_root⟩
  | append_singleton components d ih =>
      obtain ⟨place, found⟩ | ⟨head, c, rest, place, rfl, found, stuck⟩ := ih
      · by_cases further : ∃ place, locate fs cwd ⟨true, components ++ [d]⟩ = .ok place
        · exact .inl further
        · exact .inr ⟨components, d, [], place, rfl, found, further⟩
      · exact .inr ⟨head, c, rest ++ [d], place, by simp, found, stuck⟩

/-- Resolution stops for the first time in one place only. -/
theorem stuck_unique {head head' rest rest' : List Component} {c c' : Component}
    (same : head ++ c :: rest = head' ++ c' :: rest')
    (found : ∃ place, locate fs cwd ⟨true, head⟩ = .ok place)
    (stuck : ¬ ∃ place, locate fs cwd ⟨true, head ++ [c]⟩ = .ok place)
    (found' : ∃ place, locate fs cwd ⟨true, head'⟩ = .ok place)
    (stuck' : ¬ ∃ place, locate fs cwd ⟨true, head' ++ [c']⟩ = .ok place) :
    head = head' ∧ c = c' ∧ rest = rest' := by
  obtain ⟨more, rfl, tail⟩ | ⟨more, rfl, tail⟩ := List.append_eq_append_iff.mp same
  · cases more with
    | nil => simpa [eq_comm] using tail
    | cons d more =>
        cases tail
        rw [← List.singleton_append, ← List.append_assoc] at found'
        exact absurd (located_of_append found') stuck
  · cases more with
    | nil => simpa [eq_comm] using tail
    | cons d more =>
        cases tail
        rw [← List.singleton_append, ← List.append_assoc] at found
        exact absurd (located_of_append found) stuck'

theorem resolveExisting_push {view : FsView} {joined dir : Path} {name : OsString}
    {rest : List OsString} {e : IoError}
    (failed : view.canonicalize (dir.push name) = .error e) (nonempty : dir ≠ .empty) :
    resolveExisting view joined (dir.push name) rest =
      resolveExisting view joined dir (name :: rest) := by
  have up : (dir.push name).parent = some dir := by simp [Path.push, Path.parent]
  rw [resolveExisting]
  split
  · next canonical => cases failed.symm.trans canonical
  · split
    · next named up' =>
      cases up.symm.trans up'
      cases (Path.fileName_push dir name).symm.trans named
      rw [if_neg nonempty]
    · next other => exact (other name dir (Path.fileName_push dir name) up).elim

/-- The loop does not go above what is no name. -/
theorem resolveExisting_nameless {view : FsView} {joined : Path} {absolute : Bool}
    {components : List Component} {c : Component} {rest : List OsString} {e : IoError}
    (failed : view.canonicalize ⟨absolute, components ++ [c]⟩ = .error e)
    (nameless : ∀ name, c ≠ .normal name) :
    resolveExisting view joined ⟨absolute, components ++ [c]⟩ rest = joined := by
  have unnamed : (⟨absolute, components ++ [c]⟩ : Path).fileName = none := by
    cases c with
    | normal name => exact absurd rfl (nameless name)
    | curDir | parentDir => simp [Path.fileName]
  rw [resolveExisting]
  split
  · next canonical => cases failed.symm.trans canonical
  · split
    · next named _ => cases unnamed.symm.trans named
    · rfl

section Stuck
variable {joined : Path} {head tail : List Component} {c : Component}

theorem not_canonical_of_stuck
    (stuck : ¬ ∃ place, locate fs cwd ⟨true, head ++ [c]⟩ = .ok place)
    (tail : List Component) :
    ∃ e, (view fs cwd).canonicalize ⟨true, head ++ c :: tail⟩ = .error e := by
  cases canonical : (view fs cwd).canonicalize ⟨true, head ++ c :: tail⟩ with
  | error e => exact ⟨e, rfl⟩
  | ok r =>
      obtain ⟨there, located, -⟩ := canonicalize_view_eq_ok_iff.mp canonical
      rw [← List.singleton_append, ← List.append_assoc] at located
      exact absurd (located_of_append ⟨there, located⟩) stuck

/-- What the loop of `absolutize` makes of a path that stops resolving at a name, with
nothing but names behind it: the resolved part, and the names put back. -/
theorem resolveExisting_of_names {name : OsString}
    (found : locate fs cwd ⟨true, head⟩ = .ok place)
    (stuck : ¬ ∃ place, locate fs cwd ⟨true, head ++ [.normal name]⟩ = .ok place)
    (names after : List OsString) :
    resolveExisting (view fs cwd) joined
      ⟨true, head ++ .normal name :: names.map .normal⟩ after =
      (pathOf place).pushAll (name :: (names ++ after)) := by
  induction names using List.reverseRecOn generalizing after with
  | nil =>
      obtain ⟨e, unresolved⟩ := not_canonical_of_stuck stuck []
      have canonical : (view fs cwd).canonicalize ⟨true, head⟩ = .ok (pathOf place) :=
        canonicalize_view_eq_ok_iff.mpr ⟨place, found, rfl⟩
      have resolved : resolveExisting (view fs cwd) joined ⟨true, head⟩ (name :: after) =
          (pathOf place).pushAll (name :: after) := by rw [resolveExisting, canonical]
      have shape : (⟨true, head ++ [.normal name]⟩ : Path) =
          (⟨true, head⟩ : Path).push name := rfl
      rw [List.map_nil, shape,
        resolveExisting_push unresolved (by simp [Path.empty]), resolved, List.nil_append]
  | append_singleton names last ih =>
      obtain ⟨e, unresolved⟩ :=
        not_canonical_of_stuck stuck ((names ++ [last]).map .normal)
      have shape :
          (⟨true, head ++ .normal name :: (names ++ [last]).map .normal⟩ : Path) =
          (⟨true, head ++ .normal name :: names.map .normal⟩ : Path).push last := by
        simp [Path.push]
      rw [shape] at unresolved ⊢
      rw [resolveExisting_push unresolved (by simp [Path.empty]), ih, List.append_assoc,
        List.singleton_append]

/-- Where something that is no name is left over, it returns the whole path as it was. -/
theorem resolveExisting_of_leftover
    (stuck : ¬ ∃ place, locate fs cwd ⟨true, head ++ [c]⟩ = .ok place) {d : Component}
    (mem : d ∈ c :: tail) (nameless : ∀ name, d ≠ .normal name) (after : List OsString) :
    resolveExisting (view fs cwd) joined ⟨true, head ++ c :: tail⟩ after = joined := by
  induction tail using List.reverseRecOn generalizing after with
  | nil =>
      obtain rfl := List.mem_singleton.mp mem
      obtain ⟨e, unresolved⟩ := not_canonical_of_stuck stuck []
      exact resolveExisting_nameless unresolved nameless
  | append_singleton tail last ih =>
      obtain ⟨e, unresolved⟩ := not_canonical_of_stuck stuck (tail ++ [last])
      rw [← List.cons_append, ← List.append_assoc] at unresolved ⊢
      by_cases named : ∃ name, last = .normal name
      · obtain ⟨name, rfl⟩ := named
        have shape : (⟨true, head ++ c :: tail ++ [.normal name]⟩ : Path) =
            (⟨true, head ++ c :: tail⟩ : Path).push name := rfl
        rw [shape] at unresolved ⊢
        rw [resolveExisting_push unresolved (by simp [Path.empty])]
        rw [← List.cons_append, List.mem_append] at mem
        cases mem with
        | inl before => exact ih before (name :: after)
        | inr here => exact absurd (List.mem_singleton.mp here) (nameless name)
      · exact resolveExisting_nameless unresolved fun name same => named ⟨name, same⟩

theorem exists_names {components : List Component} (plain : .curDir ∉ components)
    (noParent : .parentDir ∉ components) :
    ∃ names : List OsString, names.map .normal = components := by
  have all : components ∈ Set.range (List.map Component.normal) := by
    rw [Set.range_list_map]
    intro c mem
    cases c with
    | curDir => exact absurd mem plain
    | parentDir => exact absurd mem noParent
    | normal name => exact ⟨name, rfl⟩
  exact all

end Stuck

/-! ## The rest that was put back -/

section Rest
variable {name : OsString} {tail : List Component} (chain : Chain fs place)
  (stuck : ¬ ∃ there, locate fs cwd ((pathOf place).push name) = .ok there)

include stuck in
theorem not_located_rest (rest : List Component) :
    ¬ ∃ there, locate fs cwd ⟨true, (pathOf place).components ++ .normal name :: rest⟩ =
      .ok there := by
  intro located
  rw [← List.singleton_append, ← List.append_assoc] at located
  exact stuck (located_of_append located)

include chain stuck in
theorem noLink_rest (noEntry : ¬ LinkEntry fs cwd (pathOf place) name)
    {components : List Component}
    (isPrefix : components <+: (pathOf place).components ++ .normal name :: tail) :
    ¬ IsLink fs cwd ⟨true, components⟩ := by
  induction tail using List.reverseRecOn with
  | nil =>
      obtain rfl | shorter := List.prefix_concat_iff.mp isPrefix
      · exact fun link => noEntry ((isLink_push_iff (pathOf place)).mp link)
      · exact noLink_pathOf chain shorter
  | append_singleton tail d ih =>
      rw [← List.cons_append, ← List.append_assoc] at isPrefix
      obtain rfl | shorter := List.prefix_concat_iff.mp isPrefix
      · rintro ⟨dir, name', same, there, i, n, found, -⟩
        obtain ⟨absolute, components⟩ := dir
        simp only [Path.push, Path.mk.injEq] at same
        obtain ⟨rfl, whole⟩ := same
        obtain ⟨rfl, -⟩ := List.append_inj' whole rfl
        exact not_located_rest stuck tail ⟨there, found⟩
      · exact ih shorter

include chain stuck in
theorem lexicalChain_rest :
    lexicalChain fs cwd ((pathOf place).components ++ .normal name :: tail) =
    above fs place ++ (directoryAt fs cwd (pathOf place)).toList := by
  induction tail using List.reverseRecOn with
  | nil =>
      rw [lexicalChain_concat, lexicalChain_pathOf chain]
      rfl
  | append_singleton tail d ih =>
      have nowhere :
          directoryAt fs cwd ⟨true, (pathOf place).components ++ .normal name :: tail⟩ =
          none := by
        cases found :
          locate fs cwd ⟨true, (pathOf place).components ++ .normal name :: tail⟩ with
        | error e => simp [directoryAt, found]
        | ok there => exact absurd ⟨there, found⟩ (not_located_rest stuck tail)
      rw [← List.cons_append, ← List.append_assoc, lexicalChain_concat, ih, nowhere]
      simp

include chain stuck in
theorem visits_rest (noEntry : ¬ LinkEntry fs cwd (pathOf place) name)
    (more : List (Step OsString)) :
    Visits fs place (.down name :: more) (directoryAt fs cwd (pathOf place)).toList := by
  cases dir : fs.entries (fs.here place) with
  | none =>
      have nowhere : directoryAt fs cwd (pathOf place) = none := by
        simp [directoryAt, locate_pathOf chain, dir]
      have refused : fs.next place (.down name) = .error .notDirectory := by
        simp only [UnixFs.Fs.next, dir]
      rw [nowhere]
      exact .blocked refused
  | some l =>
      have here : directoryAt fs cwd (pathOf place) = some (fs.here place) := by
        simp [directoryAt, locate_pathOf chain, dir]
      cases child : fs.child (fs.here place) name with
      | none =>
          have refused : fs.next place (.down name) = .error .missing := by
            simp only [UnixFs.Fs.next, dir, child]
          rw [here]
          exact .missing refused
      | some found =>
          obtain ⟨i, n⟩ := found
          cases link : n.target with
          | none =>
              refine absurd ⟨(name, i) :: place, ?_⟩ stuck
              rw [push_pathOf name i]
              have longer : Chain fs ((name, i) :: place) := ⟨chain, n, child, link⟩
              exact locate_pathOf longer
          | some target =>
              exact absurd
                ⟨place, i, n, locate_pathOf chain, child, by simp [link]⟩ noEntry

end Rest

theorem checkedIsUsed_rest_iff {name : OsString} {tail : List Component}
    (chain : Chain fs place)
    (stuck : ¬ ∃ there, locate fs cwd ((pathOf place).push name) = .ok there) :
    CheckedIsUsed fs cwd ⟨true, (pathOf place).components ++ .normal name :: tail⟩ ↔
      .parentDir ∉ tail ∧ ¬ LinkEntry fs cwd (pathOf place) name := by
  constructor
  · intro used
    constructor
    · exact fun mem =>
        used.noParent (List.mem_append_right _ (List.mem_cons_of_mem _ mem))
    · intro entry
      refine used.noLink ((pathOf place).components ++ [.normal name]) (by simp) ?_
      exact (isLink_push_iff (pathOf place)).mpr entry
  · rintro ⟨noParent, noEntry⟩
    have steps : Path.steps ⟨true, (pathOf place).components ++ .normal name :: tail⟩ =
        downs (names place) ++ .down name :: tail.filterMap Component.step := by
      rw [Path.steps, List.filterMap_append, ← steps_pathOf]
      rfl
    refine ⟨fun _ => noLink_rest chain stuck noEntry, by simpa [pathOf] using noParent, ?_⟩
    rw [steps, lexicalChain_rest chain stuck]
    exact visits_names chain (visits_rest chain stuck noEntry _)

/-! ## Where resolution stops -/

theorem stopsCleanly_of_located {components : List Component}
    (found : locate fs cwd ⟨true, components⟩ = .ok place) :
      StopsCleanly fs cwd ⟨true, components⟩ := by
  rintro head c rest rfl _ stuck
  rw [← List.singleton_append, ← List.append_assoc] at found
  exact absurd (located_of_append ⟨place, found⟩) stuck

section Stop
variable {head tail : List Component} {c : Component}
  (found : locate fs cwd ⟨true, head⟩ = .ok place)

include found in
theorem stopsCleanly_iff_of_stuck
    (stuck : ¬ ∃ there, locate fs cwd ⟨true, head ++ [c]⟩ = .ok there) :
    StopsCleanly fs cwd ⟨true, head ++ c :: tail⟩ ↔
      .parentDir ∉ c :: tail ∧ ¬ IsLink fs cwd ⟨true, head ++ [c]⟩ := by
  constructor
  · exact fun clean => clean head c tail rfl ⟨place, found⟩ stuck
  · intro here head' c' rest' same located stuck'
    obtain ⟨rfl, rfl, rfl⟩ := stuck_unique same ⟨place, found⟩ stuck located stuck'
    exact here

include found in
/-- A link below a directory is a link below the canonical path of the directory. -/
theorem isLink_canonical_iff (name : OsString) :
    IsLink fs cwd ⟨true, head ++ [.normal name]⟩ ↔
      LinkEntry fs cwd (pathOf place) name := by
  have sameEntry :
      LinkEntry fs cwd ⟨true, head⟩ name ↔ LinkEntry fs cwd (pathOf place) name := by
    simp only [LinkEntry, found, locate_pathOf (chain_of_locate found)]
  exact (isLink_push_iff ⟨true, head⟩).trans sameEntry

end Stop

end Paths

/-- An audit log configured as a link to a place that is not there yet. -/
def danglingHost : HostFs Nat where
  root := 0
  inode
    | 0 => some ⟨0, 0o755, .directory [(Utf8.encode "decisions.jsonl", 1)]⟩
    | 1 => some ⟨1000, 0o777,
        .symlink ⟨true,
          [.down (Utf8.encode "shared"), .down (Utf8.encode "decisions.jsonl")]⟩⟩
    | _ => none

def danglingPath : AbsolutePath :=
  ⟨⟨true, [.normal (Utf8.encode "decisions.jsonl")]⟩, rfl, by simp⟩

end NonoCedarPdp
