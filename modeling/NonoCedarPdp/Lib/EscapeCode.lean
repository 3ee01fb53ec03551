import Mathlib.Data.List.Basic

/-!
Escape codes over an arbitrary alphabet: an escape symbol and the two symbols
after it stand for one symbol. The strict decoder refuses an escape that has no
value. Symbols that take part in no escape cut a text into pieces that decode
independently of one another.
-/
universe u

structure EscapeCode (β : Type u) where
  esc : β
  pair : β → β → Option β

namespace EscapeCode
variable {β : Type u} [DecidableEq β] (E : EscapeCode β)

def decode : List β → Option (List β)
  | [] => some []
  | b :: rest =>
      if b = E.esc then
        match rest with
        | h :: l :: rest => (E.pair h l).bind fun v => (decode rest).map (v :: ·)
        | _ => none
      else (decode rest).map (b :: ·)

/-- A text and what it stands for: any symbol may be escaped, and the escape symbol has to
be. -/
inductive Encodes (esc : β) (worth : β → β → β → Prop) : List β → List β → Prop
  | nil : Encodes esc worth [] []
  | plain {b : β} {source value : List β} (other : b ≠ esc)
      (rest : Encodes esc worth source value) :
      Encodes esc worth (b :: source) (b :: value)
  | escape {h l v : β} {source value : List β} (pair : worth h l v)
      (rest : Encodes esc worth source value) :
        Encodes esc worth (esc :: h :: l :: source) (v :: value)

/-- A symbol that neither starts an escape nor is a digit of one. -/
structure Inert (c : β) : Prop where
  ne_esc : c ≠ E.esc
  left : ∀ x, E.pair c x = none
  right : ∀ x, E.pair x c = none

@[simp] theorem decode_nil : E.decode [] = some [] := rfl

theorem decode_cons_of_ne {b : β} (h : b ≠ E.esc) (rest : List β) :
    E.decode (b :: rest) = (E.decode rest).map (b :: ·) := by
  rw [decode.eq_def]
  exact if_neg h

@[simp] theorem decode_esc_nil : E.decode [E.esc] = none := by
  simp [decode]

@[simp] theorem decode_esc_single (h : β) : E.decode [E.esc, h] = none := by
  simp [decode]

theorem decode_esc_cons (h l : β) (rest : List β) :
    E.decode (E.esc :: h :: l :: rest) =
      (E.pair h l).bind fun v => (E.decode rest).map (v :: ·) := by
  rw [decode.eq_def]
  exact if_pos rfl

/-- The shapes a text can have at its head. -/
theorem head_cases {P : List β → Prop} (nil : P [])
    (plain : ∀ b rest, b ≠ E.esc → P rest → P (b :: rest))
    (esc_nil : P [E.esc]) (esc_single : ∀ h, P [E.esc, h])
    (esc_cons : ∀ h l rest, P rest → P (E.esc :: h :: l :: rest)) (a : List β) : P a := by
  induction hn : a.length using Nat.strongRecOn generalizing a with
  | ind n ih =>
      match a with
      | [] => exact nil
      | b :: rest =>
          by_cases hb : b = E.esc
          · subst hb
            match rest with
            | [] => exact esc_nil
            | [h] => exact esc_single h
            | h :: l :: rest =>
                exact esc_cons h l rest (ih rest.length (by simp at hn; omega) rest rfl)
          · exact plain b rest hb (ih rest.length (by simp at hn; omega) rest rfl)

/-- The strict decoder reads what is encoded, and nothing else. -/
theorem decode_eq_some_iff {worth : β → β → β → Prop}
    (pair : ∀ h l v, E.pair h l = some v ↔ worth h l v) {a x : List β} :
    E.decode a = some x ↔ Encodes E.esc worth a x := by
  constructor
  · intro h
    induction a using E.head_cases generalizing x with
    | nil =>
        cases h
        exact .nil
    | plain b rest hb ih =>
        rw [decode_cons_of_ne E hb, Option.map_eq_some_iff] at h
        obtain ⟨y, hy, rfl⟩ := h
        exact .plain hb (ih hy)
    | esc_nil => simp at h
    | esc_single d => simp at h
    | esc_cons d l rest ih =>
        rw [decode_esc_cons, Option.bind_eq_some_iff] at h
        obtain ⟨v, hv, h⟩ := h
        obtain ⟨y, hy, rfl⟩ := Option.map_eq_some_iff.mp h
        exact .escape ((pair d l v).mp hv) (ih hy)
  · intro h
    induction h with
    | nil => rfl
    | plain other rest ih =>
        rw [decode_cons_of_ne E other, ih]
        rfl
    | escape worthy rest ih =>
        rw [decode_esc_cons, (pair _ _ _).mpr worthy, ih]
        rfl

theorem decode_eq_self {a : List β} (h : E.esc ∉ a) : E.decode a = some a := by
  induction a with
  | nil => rfl
  | cons b rest ih =>
      rw [List.mem_cons, not_or] at h
      rw [decode_cons_of_ne E (Ne.symm h.1), ih h.2]
      rfl

theorem decode_append_inert {c : β} (hc : E.Inert c) (a b : List β) :
    E.decode (a ++ c :: b) =
      (E.decode a).bind fun x => (E.decode b).map fun y => x ++ c :: y := by
  induction a using E.head_cases with
  | nil => rw [List.nil_append, decode_cons_of_ne E hc.ne_esc]; rfl
  | plain d rest hd ih =>
      rw [List.cons_append, decode_cons_of_ne E hd, ih, decode_cons_of_ne E hd]
      cases E.decode rest <;> cases E.decode b <;> rfl
  | esc_nil =>
      cases b with
      | nil => simp
      | cons d b => simp [decode_esc_cons, hc.left]
  | esc_single d => simp [decode_esc_cons, hc.right]
  | esc_cons d l rest ih =>
      simp only [List.cons_append, decode_esc_cons, ih]
      cases E.pair d l <;> cases E.decode rest <;> cases E.decode b <;> rfl

theorem length_decode_le {a x : List β} (h : E.decode a = some x) :
    x.length ≤ a.length := by
  revert x
  induction a using E.head_cases with
  | nil =>
      intro x h
      obtain rfl : [] = x := by simpa using h
      exact Nat.le_refl 0
  | plain c rest hc ih =>
      intro x h
      rw [decode_cons_of_ne E hc, Option.map_eq_some_iff] at h
      obtain ⟨y, hy, rfl⟩ := h
      simpa using ih hy
  | esc_nil => intro x h; simp at h
  | esc_single d => intro x h; simp at h
  | esc_cons d l rest ih =>
      intro x h
      rw [decode_esc_cons, Option.bind_eq_some_iff] at h
      obtain ⟨v, -, h⟩ := h
      rw [Option.map_eq_some_iff] at h
      obtain ⟨y, hy, rfl⟩ := h
      have := ih hy
      simp only [List.length_cons]
      omega

/-- Every escape that decodes makes the text shorter. -/
theorem length_decode_lt {a x : List β} (h : E.decode a = some x) (mem : E.esc ∈ a) :
    x.length < a.length := by
  revert x
  induction a using E.head_cases with
  | nil => simp at mem
  | plain c rest hc ih =>
      intro x h
      rw [decode_cons_of_ne E hc, Option.map_eq_some_iff] at h
      obtain ⟨y, hy, rfl⟩ := h
      have inRest : E.esc ∈ rest := (List.mem_cons.mp mem).resolve_left (Ne.symm hc)
      simpa using ih inRest hy
  | esc_nil => intro x h; simp at h
  | esc_single d => intro x h; simp at h
  | esc_cons d l rest ih =>
      intro x h
      rw [decode_esc_cons, Option.bind_eq_some_iff] at h
      obtain ⟨v, -, h⟩ := h
      rw [Option.map_eq_some_iff] at h
      obtain ⟨y, hy, rfl⟩ := h
      have := E.length_decode_le hy
      simp only [List.length_cons]
      omega

end EscapeCode
