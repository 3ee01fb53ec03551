import Mathlib.Data.List.Basic

/-!
Files of lines, as byte lists. A record stands in a file as a line of its own when
it starts the file or follows a newline, and a newline follows it.
-/
namespace LineFile

def newline : UInt8 := '\n'.toUInt8

/-- A file set to a length: cut there, or filled up with zero bytes. -/
def setLen (bytes : List UInt8) (len : Nat) : List UInt8 :=
  bytes.take len ++ List.replicate (len - bytes.length) 0

@[simp] theorem setLen_append (bytes more : List UInt8) :
    setLen (bytes ++ more) bytes.length = bytes := by
  simp [setLen]

/-- What lies before the new end and within the file is kept. -/
theorem take_setLen {bytes : List UInt8} {len n : Nat} (within : n ≤ bytes.length)
    (kept : n ≤ len) : (setLen bytes len).take n = bytes.take n := by
  have inside : n ≤ (bytes.take len).length := by
    rw [List.length_take]
    omega
  rw [setLen, List.take_append_of_le_length inside, List.take_take, Nat.min_eq_left kept]

theorem le_length_setLen {bytes : List UInt8} {len n : Nat} (kept : n ≤ len) :
    n ≤ (setLen bytes len).length := by
  rw [setLen, List.length_append, List.length_take, List.length_replicate]
  omega

/-- The file is not empty and its last byte is not a newline. -/
def EndsMidLine (bytes : List UInt8) : Prop :=
  ∃ last, bytes.getLast? = some last ∧ last ≠ newline

instance (bytes : List UInt8) : Decidable (EndsMidLine bytes) :=
  match h : bytes.getLast? with
  | none => isFalse (by simp [EndsMidLine, h])
  | some last => if same : last = newline
      then isFalse (by simp [EndsMidLine, h, same])
      else isTrue ⟨last, h, same⟩

/-- The records stand in the file as lines of their own, in this order. -/
inductive StandIn : List UInt8 → List (List UInt8) → Prop
  | nil (bytes : List UInt8) : StandIn bytes []
  | snoc {pre : List UInt8} {records : List (List UInt8)} (earlier : StandIn pre records)
      (atLineStart : ¬ EndsMidLine pre) (record post : List UInt8) :
      StandIn (pre ++ record ++ [newline] ++ post) (records ++ [record])

variable {bytes pre record : List UInt8} {records : List (List UInt8)}

theorem not_endsMidLine_newline (bytes : List UInt8) :
    ¬ EndsMidLine (bytes ++ [newline]) := by
  simp [EndsMidLine]

/-- Bytes added behind the records do not disturb them. -/
theorem StandIn.append (h : StandIn bytes records) (post : List UInt8) :
    StandIn (bytes ++ post) records := by
  cases h with
  | nil => exact .nil _
  | snoc earlier atLineStart record after =>
      rw [List.append_assoc]
      exact .snoc earlier atLineStart record (after ++ post)

/-- A record and its newline, written at the start of a line, stand there. -/
theorem StandIn.write (h : StandIn bytes records) (atLineStart : ¬ EndsMidLine bytes)
    (record : List UInt8) :
      StandIn (bytes ++ (record ++ [newline])) (records ++ [record]) := by
  have stands := StandIn.snoc h atLineStart record []
  simpa using stands

/-- A broken line is closed before the record is written. -/
theorem StandIn.close_write (h : StandIn bytes records) (record : List UInt8) :
    StandIn (bytes ++ (newline :: (record ++ [newline]))) (records ++ [record]) := by
  have closed := (h.append [newline]).write (not_endsMidLine_newline bytes) record
  simpa using closed

/-- A single record starts the file, or there is a newline in front of it. -/
theorem standIn_singleton (h : StandIn bytes [record]) :
    record ++ [newline] <+: bytes ∨ 2 ≤ bytes.count newline := by
  generalize single : [record] = records at h
  cases h with
  | nil => cases single
  | @snoc pre before earlier atLineStart last post =>
      have parts : [] = before ∧ [record] = [last] :=
        List.append_inj' (single : [] ++ [record] = before ++ [last]) rfl
      obtain rfl := List.singleton_inj.mp parts.2
      cases ends : pre.getLast? with
      | none =>
          obtain rfl := List.getLast?_eq_none_iff.mp ends
          exact Or.inl ⟨post, by simp⟩
      | some byte =>
          obtain rfl : byte = newline := by
            by_contra other
            exact atLineStart ⟨byte, ends, other⟩
          have inPre : newline ∈ pre := List.mem_of_getLast? ends
          have counted := List.count_pos_iff.mpr inPre
          right
          simp only [List.count_append, List.count_singleton_self]
          omega

/-! ## Reading line by line -/

/-- The lines of a file; a last line that no newline ends is one of them. -/
def lines : List UInt8 → List (List UInt8)
  | [] => []
  | b :: bytes =>
      if b = newline then [] :: lines bytes
      else
        match lines bytes with
        | [] => [[b]]
        | line :: rest => (b :: line) :: rest

theorem lines_ne_nil {bytes : List UInt8} (nonempty : bytes ≠ []) : lines bytes ≠ [] := by
  cases bytes with
  | nil => exact absurd rfl nonempty
  | cons b bytes =>
      rw [lines]
      split
      · exact List.cons_ne_nil _ _
      · split <;> exact List.cons_ne_nil _ _

theorem lines_newline (bytes : List UInt8) :
    lines (newline :: bytes) = [] :: lines bytes :=
  if_pos rfl

theorem lines_cons_of_ne {b : UInt8} (inside : b ≠ newline) {bytes line : List UInt8}
    {rest : List (List UInt8)} (read : lines bytes = line :: rest) :
    lines (b :: bytes) = (b :: line) :: rest := by
  rw [lines, if_neg inside, read]

/-- A byte in front of a line there is changes no other line. -/
theorem lines_cons_of_grown (b : UInt8) {bytes longer : List UInt8}
    {more : List (List UInt8)} (nonempty : bytes ≠ [])
    (grown : lines longer = lines bytes ++ more) :
    lines (b :: longer) = lines (b :: bytes) ++ more := by
  by_cases ends : b = newline
  · rw [ends, lines_newline, lines_newline, grown, List.cons_append]
  · cases read : lines bytes with
    | nil => exact absurd read (lines_ne_nil nonempty)
    | cons line rest =>
        rw [read, List.cons_append] at grown
        rw [lines_cons_of_ne ends grown, lines_cons_of_ne ends read, List.cons_append]

theorem lines_of_no_newline {line : List UInt8} (inside : newline ∉ line)
    (nonempty : line ≠ []) : lines line = [line] := by
  induction line with
  | nil => exact absurd rfl nonempty
  | cons b line ih =>
      have first : b ≠ newline := fun same => inside (same ▸ List.mem_cons_self)
      have others : newline ∉ line := fun mem => inside (List.mem_cons_of_mem b mem)
      cases line with
      | nil => rw [lines, if_neg first]; rfl
      | cons c line => exact lines_cons_of_ne first (ih others (List.cons_ne_nil c line))

theorem lines_line {line : List UInt8} (inside : newline ∉ line) :
    lines (line ++ [newline]) = [line] := by
  induction line with
  | nil => rfl
  | cons b line ih =>
      have first : b ≠ newline := fun same => inside (same ▸ List.mem_cons_self)
      exact lines_cons_of_ne first (ih fun mem => inside (List.mem_cons_of_mem b mem))

theorem endsMidLine_cons {b : UInt8} {bytes : List UInt8} (nonempty : bytes ≠ []) :
    EndsMidLine (b :: bytes) ↔ EndsMidLine bytes := by
  rw [EndsMidLine, EndsMidLine, List.getLast?_cons_of_ne_nil nonempty]

/-- Behind a whole line the next one starts. -/
theorem lines_append {bytes : List UInt8} (whole : ¬ EndsMidLine bytes)
    (more : List UInt8) : lines (bytes ++ more) = lines bytes ++ lines more := by
  induction bytes with
  | nil => rfl
  | cons b bytes ih =>
      cases bytes with
      | cons c bytes =>
          rw [endsMidLine_cons (List.cons_ne_nil c bytes)] at whole
          exact lines_cons_of_grown b (List.cons_ne_nil c bytes) (ih whole)
      | nil =>
          obtain rfl : b = newline := by
            by_contra inside
            exact whole ⟨b, rfl, inside⟩
          exact lines_newline more

/-- A newline ends a broken line and adds an empty one behind a whole line. -/
theorem lines_append_newline (bytes more : List UInt8) :
    lines (bytes ++ newline :: more) =
      lines bytes ++ ((if EndsMidLine bytes then [] else [[]]) ++ lines more) := by
  by_cases broken : EndsMidLine bytes
  · rw [if_pos broken, List.nil_append]
    induction bytes with
    | nil => simp [EndsMidLine] at broken
    | cons b bytes ih =>
        cases bytes with
        | cons c bytes =>
            rw [endsMidLine_cons (List.cons_ne_nil c bytes)] at broken
            exact lines_cons_of_grown b (List.cons_ne_nil c bytes) (ih broken)
        | nil =>
            have inside : b ≠ newline := by simpa [EndsMidLine] using broken
            have only : lines [b] = [[b]] :=
              lines_of_no_newline (by simpa using Ne.symm inside) (List.cons_ne_nil b [])
            rw [only]
            exact lines_cons_of_ne inside (lines_newline more)
  · rw [if_neg broken, lines_append broken, lines_newline]
    rfl

end LineFile
