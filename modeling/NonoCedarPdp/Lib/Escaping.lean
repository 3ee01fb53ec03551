import Mathlib.Data.List.Basic

/-!
Escaping with a mark, and the texts that are still found in their escaped form. A text
whose escapes all stand at its edges occurs there. One that occurs in a frame around the
escaped form, but not in the form itself, repeats the text of the frame.
-/
universe u

/-- What a symbol is written as: itself, itself behind the mark, or a code behind the
mark. -/
inductive Escaping.Shape {α : Type u} (mark c : α) : List α → Prop
  | plain (other : c ≠ mark) : Shape mark c [c]
  | marked : Shape mark c [mark, c]
  | spelled {code : α} {rest : List α} (other : code ≠ mark) (new : code ≠ c) :
      Shape mark c (mark :: code :: rest)

structure Escaping (α : Type u) where
  mark : α
  esc : α → List α
  shape : ∀ c, Escaping.Shape mark c (esc c)
  esc_mark : esc mark = [mark, mark]
  /-- Nothing is written with symbols that are spelled themselves. -/
  image : ∀ c, ∀ d ∈ esc c, esc d = [d] ∨ esc d = [mark, d]

namespace Escaping
variable {α : Type u} (E : Escaping α)

def all (text : List α) : List α := text.flatMap E.esc

/-- Marks at both ends, and between them symbols that are written as they are, but for one
marked symbol in front of them. -/
def EdgeOnly (text : List α) : Prop :=
  ∃ a front mid b,
    text = List.replicate a E.mark ++ (front ++ (mid ++ List.replicate b E.mark)) ∧
      (front = [] ∨ ∃ q, front = [q] ∧ E.esc q = [E.mark, q]) ∧ ∀ c ∈ mid, E.esc c = [c]

/-- A text quoted `n` times over, each quotation in front of the text itself. -/
def quoted (text : List α) : Nat → List α
  | 0 => text
  | n + 1 => E.all (quoted text n) ++ text

/-- The text is an end of what follows it in the frame, quoted over and over. -/
def Echo (after text : List α) : Prop :=
  ∃ v n, v ≠ [] ∧ v <+: after ∧ v.length ≤ text.length ∧ text <:+ E.quoted v n

@[simp] theorem all_nil : E.all [] = [] := rfl

@[simp] theorem all_cons (c : α) (text : List α) :
  E.all (c :: text) = E.esc c ++ E.all text := by
  simp [all]

@[simp] theorem all_append (s t : List α) : E.all (s ++ t) = E.all s ++ E.all t := by
  simp [all]

theorem all_marks (n : Nat) :
    E.all (List.replicate n E.mark) = List.replicate (2 * n) E.mark := by
  induction n with
  | zero => rfl
  | succ n ih =>
      rw [List.replicate_succ, all_cons, E.esc_mark, ih, Nat.mul_succ]
      rfl

theorem all_plain {text : List α} (plain : ∀ c ∈ text, E.esc c = [c]) :
    E.all text = text := by
  induction text with
  | nil => rfl
  | cons c text ih =>
      rw [List.forall_mem_cons] at plain
      rw [all_cons, plain.1, ih plain.2]
      rfl

theorem esc_ne_nil (c : α) : E.esc c ≠ [] := by
  have shape := E.shape c
  intro empty
  rw [empty] at shape
  cases shape

theorem length_all (text : List α) : text.length ≤ (E.all text).length := by
  induction text with
  | nil => exact Nat.le_refl 0
  | cons c text ih =>
      have some := List.length_pos_iff.mpr (E.esc_ne_nil c)
      rw [all_cons, List.length_append, List.length_cons]
      omega

/-! ## A text within its escaped form -/

/-- Escapes that come too early leave nothing but marks. -/
theorem marks_of_shift {text : List α} {m j : Nat}
    (h : List.replicate (m + 1) E.mark ++ E.all text = text ++ List.replicate j E.mark) :
    text = List.replicate text.length E.mark := by
  induction text generalizing m with
  | nil => rfl
  | cons c text ih =>
      rw [List.replicate_succ, List.cons_append, List.cons_append] at h
      obtain ⟨rfl, rest⟩ := List.cons.inj h
      rw [all_cons, E.esc_mark, ← List.append_assoc] at rest
      have marks : List.replicate m E.mark ++ [E.mark, E.mark] =
          List.replicate (m + 1 + 1) E.mark := by
        simp [List.replicate_succ']
      rw [marks] at rest
      rw [List.length_cons, List.replicate_succ, ← ih rest]

/-- A text its escaped form starts with has marks at its end only. -/
theorem plain_of_prefix {text : List α} {j : Nat}
    (h : E.all text = text ++ List.replicate j E.mark) :
    ∃ mid b, text = mid ++ List.replicate b E.mark ∧ ∀ c ∈ mid, E.esc c = [c] := by
  induction text with
  | nil => exact ⟨[], 0, rfl, by simp⟩
  | cons c text ih =>
      rw [all_cons] at h
      by_cases mark : c = E.mark
      · subst mark
        rw [E.esc_mark] at h
        have marks := E.marks_of_shift (m := 0) (List.cons.inj h).2
        exact ⟨[], text.length + 1, by rw [List.replicate_succ, ← marks]; rfl, by simp⟩
      · have shape := E.shape c
        generalize written : E.esc c = code at shape h
        cases shape with
        | plain =>
            obtain ⟨mid, b, rfl, plain⟩ := ih (List.cons.inj h).2
            exact ⟨c :: mid, b, rfl, List.forall_mem_cons.mpr ⟨written, plain⟩⟩
        | marked | spelled => exact absurd (List.cons.inj h).1.symm mark

theorem replicate_append_cons (c : α) (i : Nat) (text : List α) :
    List.replicate i c ++ c :: text = c :: (List.replicate i c ++ text) := by
  rw [← List.singleton_append, ← List.append_assoc, ← List.replicate_succ',
    List.replicate_succ]
  rfl

theorem edgeOnly_of_plain {text : List α} {j : Nat}
    (h : E.all text = text ++ List.replicate j E.mark) : E.EdgeOnly text := by
  obtain ⟨mid, b, whole, plain⟩ := E.plain_of_prefix h
  exact ⟨0, [], mid, b, whole, .inl rfl, plain⟩

theorem EdgeOnly.marks {n : Nat} : E.EdgeOnly (List.replicate n E.mark) :=
  ⟨n, [], [], 0, by simp, .inl rfl, by simp⟩

theorem EdgeOnly.cons_mark {text : List α} (h : E.EdgeOnly text) :
    E.EdgeOnly (E.mark :: text) := by
  obtain ⟨a, front, mid, b, rfl, one, plain⟩ := h
  exact ⟨a + 1, front, mid, b, by rw [List.replicate_succ]; rfl, one, plain⟩

/-- Around the text stand the marks that escape it, and nothing else. -/
theorem edgeOnly_of_all {text : List α} {i j : Nat}
    (h : E.all text = List.replicate i E.mark ++ (text ++ List.replicate j E.mark)) :
    E.EdgeOnly text := by
  induction text generalizing i with
  | nil => exact EdgeOnly.marks E (n := 0)
  | cons c text ih =>
      by_cases mark : c = E.mark
      · subst mark
        rw [all_cons, E.esc_mark] at h
        cases i with
        | zero =>
            have shift := E.marks_of_shift (m := 0) (List.cons.inj h).2
            rw [shift, ← List.replicate_succ]
            exact EdgeOnly.marks E
        | succ i =>
            have tail : E.mark :: E.all text =
                List.replicate i E.mark ++ E.mark :: (text ++ List.replicate j E.mark) :=
              (List.cons.inj h).2
            rw [replicate_append_cons] at tail
            exact EdgeOnly.cons_mark E (ih (List.cons.inj tail).2)
      · have shape := E.shape c
        have whole := h
        rw [all_cons] at h
        generalize written : E.esc c = code at shape h
        cases i with
        | zero =>
            cases shape with
            | plain => exact E.edgeOnly_of_plain whole
            | marked | spelled => exact absurd (List.cons.inj h).1.symm mark
        | succ i =>
            cases shape with
            | plain => exact absurd (List.cons.inj h).1 mark
            | marked =>
                have tail := (List.cons.inj h).2
                cases i with
                | zero =>
                    obtain ⟨mid, b, rfl, plain⟩ :=
                      E.plain_of_prefix (List.cons.inj tail).2
                    exact ⟨0, [c], mid, b, rfl, .inr ⟨c, rfl, written⟩, plain⟩
                | succ i => exact absurd (List.cons.inj tail).1 mark
            | spelled other new =>
                have tail := (List.cons.inj h).2
                cases i with
                | zero => exact absurd (List.cons.inj tail).1 new
                | succ i => exact absurd (List.cons.inj tail).1 other

theorem kept_of_occurs {text : List α} (h : text <:+: E.all text) :
    ∀ c ∈ text, E.esc c = [c] ∨ E.esc c = [E.mark, c] := by
  intro c mem
  obtain ⟨d, -, written⟩ := List.mem_flatMap.mp (h.subset mem)
  exact E.image d c written

theorem countP_all [DecidableEq α] {text : List α}
    (kept : ∀ c ∈ text, E.esc c = [c] ∨ E.esc c = [E.mark, c]) :
    (E.all text).countP (· ≠ E.mark) = text.countP (· ≠ E.mark) := by
  induction text with
  | nil => rfl
  | cons c text ih =>
      rw [List.forall_mem_cons] at kept
      rw [all_cons, List.countP_append, ih kept.2]
      obtain itself | marked := kept.1
      · rw [itself, ← List.countP_append]
        rfl
      · rw [marked, List.countP_cons_of_neg (by simp), ← List.countP_append]
        rfl

theorem marks_of_countP [DecidableEq α] {text : List α}
    (none : text.countP (· ≠ E.mark) = 0) : text = List.replicate text.length E.mark := by
  rw [List.countP_eq_zero] at none
  exact List.eq_replicate_iff.mpr ⟨rfl, fun c mem => by simpa using none c mem⟩

open Classical in
theorem edgeOnly_of_occurs {text : List α} (h : text <:+: E.all text) :
    E.EdgeOnly text := by
  have same := E.countP_all (E.kept_of_occurs h)
  obtain ⟨s, t, whole⟩ := h
  rw [← whole, List.countP_append, List.countP_append] at same
  have before : s = List.replicate s.length E.mark := E.marks_of_countP (by omega)
  have after : t = List.replicate t.length E.mark := E.marks_of_countP (by omega)
  rw [before, after, List.append_assoc] at whole
  exact E.edgeOnly_of_all whole.symm

theorem EdgeOnly.occurs {text : List α} (h : E.EdgeOnly text) : text <:+: E.all text := by
  obtain ⟨a, front, mid, b, rfl, one, plain⟩ := h
  have marks (n : Nat) : List.replicate (2 * n) E.mark =
      List.replicate n E.mark ++ List.replicate n E.mark := by
    rw [List.replicate_append_replicate, Nat.two_mul]
  simp only [all_append, all_marks, E.all_plain plain, marks]
  obtain rfl | ⟨q, rfl, marked⟩ := one
  · exact ⟨List.replicate a E.mark,
      List.replicate b E.mark, by simp only [all_nil, List.append_assoc]⟩
  · have front : List.replicate a E.mark ++ List.replicate a E.mark ++ E.all [q] =
        List.replicate (a + 1) E.mark ++ (List.replicate a E.mark ++ [q]) := by
      rw [all_cons, marked, all_nil, List.replicate_succ']
      simp only [List.append_assoc, List.cons_append, List.nil_append,
        replicate_append_cons]
    refine ⟨List.replicate (a + 1) E.mark, List.replicate b E.mark, ?_⟩
    simp only [← List.append_assoc] at front ⊢
    rw [← front]

theorem infix_all_iff {text : List α} : text <:+: E.all text ↔ E.EdgeOnly text :=
  ⟨E.edgeOnly_of_occurs, EdgeOnly.occurs E⟩

/-! ## A text within a frame -/

/-- Escaping makes no symbol but those a text may have. -/
theorem forall_mem_all {ok : α → Prop} (closed : ∀ c, ok c → ∀ d ∈ E.esc c, ok d)
    {text : List α} (clean : ∀ c ∈ text, ok c) : ∀ c ∈ E.all text, ok c := by
  intro c mem
  obtain ⟨d, known, here⟩ := List.mem_flatMap.mp mem
  exact closed d (clean d known) c here

/-- A text that starts in front of its escaped form is written with the frame's
symbols. -/
theorem forall_mem_of_prefix {ok : α → Prop} (closed : ∀ c, ok c → ∀ d ∈ E.esc c, ok d)
    {before text after : List α} (nonempty : before ≠ []) (clean : ∀ c ∈ before, ok c)
    (h : text <+: before ++ (E.all text ++ after)) : ∀ c ∈ text, ok c := by
  have each (n : Nat) : ∀ c ∈ text.take n, ok c := by
    induction n with
    | zero => simp
    | succ n ih =>
        have written : before ++ E.all (text.take n) <+:
            before ++ (E.all text ++ after) := by
          refine (List.prefix_append_right_inj before).mpr
            ⟨E.all (text.drop n) ++ after, ?_⟩
          rw [← List.append_assoc, ← all_append, List.take_append_drop]
        have reach : (text.take (n + 1)).length ≤
            (before ++ E.all (text.take n)).length := by
          have some := List.length_pos_iff.mpr nonempty
          have long := E.length_all (text.take n)
          rw [List.length_take] at long
          rw [List.length_take, List.length_append]
          omega
        have inside := List.prefix_of_prefix_length_le
          ((List.take_prefix (n + 1) text).trans h) written reach
        intro c mem
        cases List.mem_append.mp (inside.subset mem) with
        | inl front => exact clean c front
        | inr code => exact E.forall_mem_all closed ih c code
  simpa using each text.length

theorem suffix_all {s t : List α} (h : s <:+ t) : E.all s <:+ E.all t := by
  obtain ⟨front, rfl⟩ := h
  exact ⟨E.all front, (E.all_append front s).symm⟩

theorem suffix_quoted_succ (v : List α) (n : Nat) :
    E.quoted v n <:+ E.quoted v (n + 1) := by
  induction n with
  | zero => exact List.suffix_append _ _
  | succ n ih =>
      obtain ⟨front, whole⟩ := E.suffix_all ih
      exact ⟨front, by rw [quoted, quoted, ← whole, List.append_assoc]⟩

/-- Going back from its end, a text that ends its own escaped form is quoted in itself. -/
theorem suffix_quoted {u v : List α} (nonempty : v ≠ [])
    (h : u <:+ E.all (u ++ v)) (n : Nat) :
    (u ++ v).drop ((u ++ v).length - n) <:+ E.quoted v n := by
  induction n with
  | zero => simp
  | succ n ih =>
      generalize whole : u ++ v = text at h ih ⊢
      have ends : text <:+ E.all text ++ v :=
        whole ▸ List.suffix_append_self_iff.mpr (whole ▸ h)
      have written : E.all (text.drop (text.length - n)) ++ v <:+ E.all text ++ v :=
        List.suffix_append_self_iff.mpr (E.suffix_all (List.drop_suffix _ _))
      have reach : (text.drop (text.length - (n + 1))).length ≤
          (E.all (text.drop (text.length - n)) ++ v).length := by
        have some := List.length_pos_iff.mpr nonempty
        have long := E.length_all (text.drop (text.length - n))
        rw [List.length_drop] at long
        rw [List.length_drop, List.length_append]
        omega
      have inside :=
        List.suffix_of_suffix_length_le ((List.drop_suffix _ _).trans ends) written reach
      exact inside.trans (List.suffix_append_self_iff.mpr (E.suffix_all ih))

theorem suffix_of_quoted {u v : List α} {n : Nat} (h : u ++ v <:+ E.quoted v n) :
    u <:+ E.all (u ++ v) := by
  induction n with
  | zero =>
      have short := h.length_le
      rw [quoted, List.length_append] at short
      have none : u = [] := List.length_eq_zero_iff.mp (by omega)
      exact none ▸ List.nil_suffix
  | succ n ih =>
      obtain shorter | longer :=
        List.suffix_or_suffix_of_suffix h (E.suffix_quoted_succ v n)
      · exact ih shorter
      · exact (List.suffix_append_self_iff.mp h).trans (E.suffix_all longer)

/-- Where the escaped form and the frame behind it meet, an echo is found. -/
theorem echo_iff {after text : List α} : E.Echo after text ↔
    ∃ u v, text = u ++ v ∧ v ≠ [] ∧ v <+: after ∧ u <:+ E.all text := by
  constructor
  · rintro ⟨v, n, nonempty, inFrame, short, ends⟩
    have last : v <:+ E.quoted v n := by
      cases n with
      | zero => exact List.suffix_refl v
      | succ n => exact List.suffix_append _ v
    obtain ⟨u, rfl⟩ := List.suffix_of_suffix_length_le last ends short
    exact ⟨u, v, rfl, nonempty, inFrame, E.suffix_of_quoted ends⟩
  · rintro ⟨u, v, rfl, nonempty, inFrame, ends⟩
    have whole := E.suffix_quoted nonempty ends (u ++ v).length
    rw [Nat.sub_self, List.drop_zero] at whole
    exact ⟨v, _, nonempty, inFrame, by rw [List.length_append]; omega, whole⟩

theorem Echo.forall_mem {ok : α → Prop} (closed : ∀ c, ok c → ∀ d ∈ E.esc c, ok d)
    {after text : List α} (clean : ∀ c ∈ after, ok c) (h : E.Echo after text) :
      ∀ c ∈ text, ok c := by
  obtain ⟨v, n, -, inFrame, -, ends⟩ := h
  have okV : ∀ c ∈ v, ok c := fun c mem => clean c (inFrame.subset mem)
  have quoted : ∀ c ∈ E.quoted v n, ok c := by
    clear ends
    induction n with
    | zero => exact okV
    | succ n ih =>
        rw [quoted, List.forall_mem_append]
        exact ⟨E.forall_mem_all closed ih, okV⟩
  exact fun c mem => quoted c (ends.subset mem)

theorem infix_or_echo {after text s t : List α}
    (h : E.all text ++ after = s ++ (text ++ t)) :
    text <:+: after ∨ text <:+: E.all text ∨
      ∃ u v, text = u ++ v ∧ v ≠ [] ∧ v <+: after ∧ u <:+ E.all text := by
  obtain ⟨front, -, rest⟩ | ⟨u, written, rest⟩ := List.append_eq_append_iff.mp h
  · exact .inl ⟨front, t, by rw [rest, List.append_assoc]⟩
  obtain ⟨w, start, -⟩ | ⟨v, whole, behind⟩ := List.append_eq_append_iff.mp rest
  · exact .inr (.inl ⟨s, w, by rw [written, start, List.append_assoc]⟩)
  cases v with
  | nil =>
      rw [List.append_nil] at whole
      exact .inr (.inl ⟨s, [], by rw [List.append_nil, written, whole]⟩)
  | cons c v =>
      exact .inr (.inr ⟨u, c :: v, whole, by simp, ⟨t, behind.symm⟩, s, written.symm⟩)

/-- Where a text is found in a frame around its escaped form: in what follows it, within
the form, or as an echo. What the frame puts in front is no place for it, when the text
has a symbol that neither the front has nor escaping makes. -/
theorem infix_frame_iff {ok : α → Prop} (closed : ∀ c, ok c → ∀ d ∈ E.esc c, ok d)
    {before text after : List α} (clean : ∀ c ∈ before, ok c)
    (foreign : ¬ ∀ c ∈ text, ok c) : text <:+: before ++ (E.all text ++ after) ↔
      text <:+: after ∨ E.EdgeOnly text ∨ E.Echo after text := by
  rw [← infix_all_iff, echo_iff]
  constructor
  · rintro ⟨s, t, whole⟩
    rw [List.append_assoc] at whole
    obtain ⟨front, cut, rest⟩ | ⟨inner, -, rest⟩ := List.append_eq_append_iff.mp whole
    · by_cases nonempty : front = []
      · subst nonempty
        exact E.infix_or_echo (s := []) rest.symm
      · have okFront : ∀ c ∈ front, ok c :=
          fun c mem => clean c (cut ▸ List.mem_append_right s mem)
        refine absurd ?_ foreign
        obtain ⟨w, inFront, -⟩ | ⟨tail, split, behind⟩ :=
          List.append_eq_append_iff.mp rest
        · exact fun c mem => okFront c (inFront ▸ List.mem_append_left w mem)
        · have code : E.all front ≠ [] := by
            have long := E.length_all front
            have some := List.length_pos_iff.mpr nonempty
            exact List.length_pos_iff.mp (by omega)
          have okCode := E.forall_mem_all closed okFront
          have ends : tail <+: E.all front ++ (E.all tail ++ after) :=
            ⟨t, by rw [← behind, split, all_append, List.append_assoc]⟩
          rw [split, List.forall_mem_append]
          exact ⟨okFront, E.forall_mem_of_prefix closed code okCode ends⟩
    · exact E.infix_or_echo rest
  · rintro (behind | within | ⟨u, v, whole, -, ⟨rest, rfl⟩, ⟨front, written⟩⟩)
    · exact behind.trans ⟨before ++ E.all text, [], by simp⟩
    · exact within.trans ⟨before, after, by simp⟩
    · refine ⟨before ++ front, rest, ?_⟩
      rw [← written, whole]
      simp

end Escaping
