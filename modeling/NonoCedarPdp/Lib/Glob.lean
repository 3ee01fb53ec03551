import Mathlib.Data.List.Infix

/-!
Glob patterns over an alphabet: letters, and stars that stand for any run of letters. A
word with a star behind it matches what the word is a prefix of, and between two stars
what it is an infix of.
-/
namespace Glob

inductive Element (α : Type)
  | letter (a : α)
  | star
  deriving DecidableEq, Repr

abbrev Pattern (α : Type) := List (Element α)

def word {α : Type} (w : List α) : Pattern α := w.map .letter

/-- The letters in front of the first star. -/
def stem {α : Type} : Pattern α → List α
  | .letter a :: p => a :: stem p
  | _ => []

def starFree {α : Type} : Pattern α → Bool
  | [] => true
  | .letter _ :: p => starFree p
  | .star :: _ => false

variable {α : Type} [DecidableEq α]

def accepts : Pattern α → List α → Bool
  | [], s => s.isEmpty
  | .letter a :: p, s =>
      match s with
      | [] => false
      | b :: s => decide (a = b) && accepts p s
  | .star :: p, s => s.tails.any (accepts p)

theorem accepts_star_iff {p : Pattern α} {s : List α} :
    accepts (.star :: p) s = true ↔ ∃ rest, rest <:+ s ∧ accepts p rest = true := by
  simp only [accepts, List.any_eq_true, List.mem_tails]

theorem accepts_word_append_iff {w : List α} {p : Pattern α} {s : List α} :
    accepts (word w ++ p) s = true ↔ ∃ rest, s = w ++ rest ∧ accepts p rest = true := by
  induction w generalizing s with
  | nil => simp [word]
  | cons a w ih =>
      have pattern : word (a :: w) ++ p = .letter a :: (word w ++ p) := rfl
      rw [pattern]
      cases s with
      | nil => simp [accepts]
      | cons b s =>
          simp only [accepts, Bool.and_eq_true, decide_eq_true_eq, ih, List.cons_append,
            List.cons.injEq]
          constructor
          · intro h
            obtain ⟨rest, whole, further⟩ := h.2
            exact ⟨rest, ⟨h.1.symm, whole⟩, further⟩
          · intro h
            obtain ⟨rest, whole, further⟩ := h
            exact ⟨whole.1.symm, rest, whole.2, further⟩

/-- A star at the end accepts whatever is left. -/
theorem accepts_star (s : List α) : accepts [.star] s = true := by
  rw [accepts_star_iff]
  exact ⟨[], List.nil_suffix, rfl⟩

theorem accepts_front_iff {w s : List α} :
    accepts (word w ++ [.star]) s = true ↔ w <+: s := by
  rw [accepts_word_append_iff]
  constructor
  · intro h
    obtain ⟨rest, whole, -⟩ := h
    exact whole ▸ List.prefix_append w rest
  · intro h
    obtain ⟨rest, whole⟩ := h
    exact ⟨rest, whole.symm, accepts_star rest⟩

theorem accepts_inside_iff {w s : List α} :
    accepts (.star :: (word w ++ [.star])) s = true ↔ w <:+: s := by
  rw [accepts_star_iff, List.infix_iff_prefix_suffix]
  simp only [accepts_front_iff]
  exact exists_congr fun rest => And.comm

omit [DecidableEq α] in
theorem eq_word_stem {p : Pattern α} (h : starFree p = true) : p = word (stem p) := by
  induction p with
  | nil => rfl
  | cons e p ih =>
      cases e with
      | letter a => exact congrArg (.letter a :: ·) (ih h)
      | star => cases h

omit [DecidableEq α] in
theorem eq_word_stem_append {p : Pattern α} (h : starFree p = false) :
    ∃ rest, p = word (stem p) ++ .star :: rest := by
  induction p with
  | nil => cases h
  | cons e p ih =>
      cases e with
      | letter a =>
          obtain ⟨rest, whole⟩ := ih h
          exact ⟨rest, congrArg (.letter a :: ·) whole⟩
      | star => exact ⟨p, rfl⟩

/-- What a pattern accepts starts with its stem. -/
theorem stem_prefix {p : Pattern α} {s : List α} (h : accepts p s = true) :
    stem p <+: s := by
  cases free : starFree p with
  | true =>
      have whole : p = word (stem p) ++ [] :=
        (eq_word_stem free).trans (List.append_nil _).symm
      obtain ⟨rest, split, -⟩ := accepts_word_append_iff.mp (whole ▸ h)
      exact split ▸ List.prefix_append _ _
  | false =>
      obtain ⟨more, whole⟩ := eq_word_stem_append free
      obtain ⟨rest, split, -⟩ := accepts_word_append_iff.mp (whole ▸ h)
      exact split ▸ List.prefix_append _ _

/-- A pattern without a star accepts one word. -/
theorem eq_stem_of_starFree {p : Pattern α} {s : List α} (free : starFree p = true)
    (h : accepts p s = true) : s = stem p := by
  have whole : p = word (stem p) ++ [] :=
    (eq_word_stem free).trans (List.append_nil _).symm
  obtain ⟨rest, split, empty⟩ := accepts_word_append_iff.mp (whole ▸ h)
  have nothing : rest = [] := by simpa [accepts] using empty
  rw [split, nothing, List.append_nil]

end Glob
