import Mathlib.Data.Set.Function
import Mathlib.Data.Set.Prod

/-!
Self-delimiting codes: a word read off the front of a stream is read in one way,
whatever follows it. A length prefix makes any list self-delimiting, and a stream
of self-delimiting frames determines the list of values that were framed.
-/
namespace Framing
variable {α β γ : Type}

def SelfDelimiting (dom : Set β) (enc : β → List α) : Prop :=
  ∀ ⦃a b⦄, a ∈ dom → b ∈ dom → ∀ x y, enc a ++ x = enc b ++ y → a = b ∧ x = y

theorem selfDelimiting_of_length {dom : Set β} {enc : β → List α} {n : Nat}
    (width : ∀ a, (enc a).length = n) (inj : Set.InjOn enc dom) :
      SelfDelimiting dom enc := by
  intro a b ha hb x y same
  obtain ⟨front, rest⟩ := List.append_inj same (by rw [width, width])
  exact ⟨inj ha hb front, rest⟩

/-- A list behind a self-delimiting code of its length. -/
def lengthPrefixed (header : Nat → List α) (word : List α) : List α :=
  header word.length ++ word

theorem SelfDelimiting.lengthPrefixed {dom : Set Nat} {header : Nat → List α}
    (h : SelfDelimiting dom header) :
    SelfDelimiting {word | word.length ∈ dom} (lengthPrefixed header) := by
  intro a b ha hb x y same
  simp only [Framing.lengthPrefixed, List.append_assoc] at same
  obtain ⟨length, rest⟩ := h ha hb _ _ same
  exact List.append_inj rest length

theorem SelfDelimiting.comp {dom : Set β} {enc : β → List α} (h : SelfDelimiting dom enc)
    {f : γ → β} (inj : Function.Injective f) :
    SelfDelimiting (Set.preimage f dom) (enc ∘ f) := by
  intro a b ha hb x y same
  obtain ⟨value, rest⟩ := h ha hb x y same
  exact ⟨inj value, rest⟩

theorem SelfDelimiting.prod {dom : Set β} {dom' : Set γ} {enc : β → List α}
    {enc' : γ → List α} (h : SelfDelimiting dom enc) (h' : SelfDelimiting dom' enc') :
    SelfDelimiting (dom ×ˢ dom') fun p => enc p.1 ++ enc' p.2 := by
  intro a b ha hb x y same
  simp only [List.append_assoc] at same
  obtain ⟨first, rest⟩ := h ha.1 hb.1 _ _ same
  obtain ⟨second, rest⟩ := h' ha.2 hb.2 _ _ rest
  exact ⟨Prod.ext first second, rest⟩

/-- No two lists of values have the same stream of frames. -/
theorem SelfDelimiting.flatMap_injOn {dom : Set β} {enc : β → List α}
    (h : SelfDelimiting dom enc) (nonempty : ∀ a ∈ dom, enc a ≠ []) :
    Set.InjOn (List.flatMap enc) {values | ∀ a ∈ values, a ∈ dom} := by
  intro as has bs hbs same
  induction as generalizing bs with
  | nil =>
      cases bs with
      | nil => rfl
      | cons b bs =>
          have empty : enc b ++ bs.flatMap enc = [] := same.symm
          exact absurd (List.append_eq_nil_iff.mp empty).1
            (nonempty b (hbs b List.mem_cons_self))
  | cons a as ih =>
      cases bs with
      | nil =>
          have empty : enc a ++ as.flatMap enc = [] := same
          exact absurd (List.append_eq_nil_iff.mp empty).1
            (nonempty a (has a List.mem_cons_self))
      | cons b bs =>
          have front : enc a ++ as.flatMap enc = enc b ++ bs.flatMap enc := same
          obtain ⟨first, rest⟩ :=
            h (has a List.mem_cons_self) (hbs b List.mem_cons_self) _ _ front
          have others := ih (fun c mem => has c (List.mem_cons_of_mem a mem))
            (fun c mem => hbs c (List.mem_cons_of_mem b mem)) rest
          rw [first, others]

end Framing
