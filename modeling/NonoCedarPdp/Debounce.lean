import NonoCedarPdp.Query

/-!
The drain of a burst (`watcher.rs`): events are received until a wait passes without
one, or until the ceiling. Times are milliseconds from the burst's first event. The
stream of events decides how long the drain lasts; the ceiling bounds it.
-/
namespace NonoCedarPdp

def debounce : Nat := 150

def debounceCeiling : Nat := 2000

/-- When the events behind the first one arrive, in order. A stream may end or go on
for ever, but not without time passing. -/
structure Schedule where
  arrival : Nat → Option Nat
  ended : ∀ n, arrival n = none → arrival (n + 1) = none
  ordered : ∀ n a b, arrival n = some a → arrival (n + 1) = some b → a ≤ b
  progress : ∀ t, ∃ n, ∀ a, arrival n = some a → t < a

/-- The subtraction of `Duration`, which panics below zero. -/
def checkedSub (a b : Nat) : Option Nat := if b ≤ a then some (a - b) else none

inductive Received
  | event (time : Nat)
  | timeout (time : Nat)
  deriving DecidableEq, Repr

/-- `recv_timeout`, called at `now` with `next` at the head of the stream. An event that
arrives as the wait elapses may be received or not. -/
def recvTimeout (next : Option Nat) (eventWins : Bool) (now wait : Nat) : Received :=
  match next with
  | none => .timeout (now + wait)
  | some arrival =>
      if arrival < now + wait ∨ arrival = now + wait ∧ eventWins = true then
        .event (max now arrival)
      else .timeout (now + wait)

/-- The loop between two waits: the time since the first event, and how many events
behind it have been received. -/
structure Drain where
  elapsed : Nat
  consumed : Nat
  deriving DecidableEq, Repr

inductive Drained
  | panicked
  | ended (cutShort : Bool) (time consumed : Nat)
  deriving DecidableEq, Repr

/-- One turn of the drain loop: it goes on, or it is left with a result. -/
def drainTurn (schedule : Schedule) (eventWins : Nat → Bool) (s : Drain) :
    Drain ⊕ Drained :=
  if s.elapsed ≥ debounceCeiling then .inr (.ended true s.elapsed s.consumed)
  else
    match checkedSub debounceCeiling s.elapsed with
    | none => .inr .panicked
    | some remaining =>
        let wait := min debounce remaining
        match recvTimeout (schedule.arrival s.consumed)
          (eventWins s.consumed) s.elapsed wait with
        | .event time => .inl ⟨time, s.consumed + 1⟩
        | .timeout time => .inr (.ended (decide (wait < debounce)) time s.consumed)

def drainFrom (schedule : Schedule) (eventWins : Nat → Bool) :
    Nat → Drain → Option Drained
  | 0, _ => none
  | fuel + 1, s =>
      match drainTurn schedule eventWins s with
      | .inl next => drainFrom schedule eventWins fuel next
      | .inr result => some result

/-- The drain of one burst, for at most `fuel` turns. -/
def drain (schedule : Schedule) (eventWins : Nat → Bool) (fuel : Nat) : Option Drained :=
  drainFrom schedule eventWins fuel ⟨0, 0⟩

namespace Schedule

theorem arrival_mono (schedule : Schedule) {m n : Nat} (h : m ≤ n) {b : Nat}
    (hb : schedule.arrival n = some b) : ∃ a, schedule.arrival m = some a ∧ a ≤ b := by
  induction h generalizing b with
  | refl => exact ⟨b, hb, Nat.le_refl b⟩
  | @step k _ ih =>
      cases hk : schedule.arrival k with
      | none =>
          rw [schedule.ended k hk] at hb
          cases hb
      | some c =>
          obtain ⟨a, ha, below⟩ := ih hk
          exact ⟨a, ha, Nat.le_trans below (schedule.ordered k c b hk hb)⟩

/-- From some event on, all arrive past any given time. -/
theorem late (schedule : Schedule) (t : Nat) :
    ∃ n, ∀ m ≥ n, ∀ a, schedule.arrival m = some a → t < a := by
  obtain ⟨n, past⟩ := schedule.progress t
  refine ⟨n, fun m hm a ha => ?_⟩
  obtain ⟨b, hb, below⟩ := schedule.arrival_mono hm ha
  exact Nat.lt_of_lt_of_le (past b hb) below

/-- The drain ends at `time` behind a full quiet period: the first event and those that
were received lie before it, those that were not lie behind it. -/
def Quiet (schedule : Schedule) (time consumed : Nat) : Prop :=
  debounce ≤ time ∧
    (∀ n < consumed, ∀ a, schedule.arrival n = some a → a + debounce ≤ time) ∧
    ∀ n ≥ consumed, ∀ a, schedule.arrival n = some a → time ≤ a

end Schedule

/-- What holds between two waits. -/
structure Draining (schedule : Schedule) (s : Drain) : Prop where
  bounded : s.elapsed ≤ debounceCeiling
  received : ∀ n < s.consumed, ∃ a, schedule.arrival n = some a ∧ a ≤ s.elapsed
  pending : ∀ n ≥ s.consumed, ∀ a, schedule.arrival n = some a → s.elapsed ≤ a
  /-- The last event received, the first one included, is what the time was read after. -/
  last : s.elapsed = 0 ∨ ∃ n < s.consumed, schedule.arrival n = some s.elapsed

/-- What a drain that ends may say. -/
structure Ended (schedule : Schedule) (cutShort : Bool) (time consumed : Nat) : Prop where
  bounded : time ≤ debounceCeiling
  received : ∀ n < consumed, ∃ a, schedule.arrival n = some a ∧ a ≤ time
  truthful : cutShort = false ↔ schedule.Quiet time consumed

theorem draining_start (schedule : Schedule) : Draining schedule ⟨0, 0⟩ where
  bounded := Nat.zero_le _
  received n hn := absurd hn (Nat.not_lt_zero n)
  pending _ _ a _ := Nat.zero_le a
  last := .inl rfl

/-- The two ways a turn ends: an event within the bound, or a result that is truthful. -/
inductive Turned (schedule : Schedule) (s : Drain) : Drain ⊕ Drained → Prop
  | event {time : Nat} (arrives : schedule.arrival s.consumed = some time)
      (next : Draining schedule ⟨time, s.consumed + 1⟩) :
      Turned schedule s (.inl ⟨time, s.consumed + 1⟩)
  | result {cutShort : Bool} {time : Nat}
      (ended : Ended schedule cutShort time s.consumed) :
      Turned schedule s (.inr (.ended cutShort time s.consumed))

theorem recvTimeout_eq_event {next : Option Nat} {eventWins : Bool} {now wait time : Nat}
    (h : recvTimeout next eventWins now wait = .event time) :
    ∃ a, next = some a ∧ a ≤ now + wait ∧ time = max now a := by
  cases next with
  | none => simp [recvTimeout] at h
  | some a =>
      rw [recvTimeout] at h
      split at h
      · next inTime => exact ⟨a, rfl, by omega, (Received.event.inj h).symm⟩
      · cases h

theorem recvTimeout_eq_timeout {next : Option Nat} {eventWins : Bool}
    {now wait time : Nat} (h : recvTimeout next eventWins now wait = .timeout time) :
    time = now + wait ∧ ∀ a, next = some a → now + wait ≤ a := by
  cases next with
  | none =>
      rw [recvTimeout] at h
      exact ⟨(Received.timeout.inj h).symm, fun a none => by cases none⟩
  | some a =>
      rw [recvTimeout] at h
      split at h
      · cases h
      · next late =>
        refine ⟨(Received.timeout.inj h).symm, ?_⟩
        intro b same
        rw [← Option.some.inj same]
        omega

section Turn
variable {schedule : Schedule} {s : Drain}

/-- At the ceiling the last event is too recent for the drain to be quiet. -/
theorem ended_at_ceiling (h : Draining schedule s) (full : s.elapsed ≥ debounceCeiling) :
    Ended schedule true s.elapsed s.consumed where
  bounded := h.bounded
  received := h.received
  truthful := by
    refine iff_of_false (by simp) ?_
    rintro ⟨-, received, -⟩
    obtain start | ⟨n, hn, atLast⟩ := h.last
    · rw [start] at full
      exact absurd full (by decide)
    · have before := received n hn _ atLast
      simp only [debounce] at before
      omega

/-- A wait that elapses is quiet exactly when the ceiling did not shorten it. -/
theorem ended_after_wait (h : Draining schedule s) {wait : Nat} (long : wait ≤ debounce)
    (inside : s.elapsed + wait ≤ debounceCeiling)
    (silent : ∀ a, schedule.arrival s.consumed = some a → s.elapsed + wait ≤ a) :
    Ended schedule (decide (wait < debounce)) (s.elapsed + wait) s.consumed where
  bounded := inside
  received n hn := by
    obtain ⟨a, ha, before⟩ := h.received n hn
    exact ⟨a, ha, Nat.le_add_right_of_le before⟩
  truthful := by
    rw [decide_eq_false_iff_not]
    constructor
    · intro whole
      obtain rfl : wait = debounce := by omega
      refine ⟨Nat.le_add_left _ _, fun n hn a ha => ?_, fun n hn a ha => ?_⟩
      · obtain ⟨b, hb, before⟩ := h.received n hn
        obtain rfl := Option.some.inj (ha.symm.trans hb)
        omega
      · obtain ⟨b, hb, below⟩ := schedule.arrival_mono hn ha
        exact Nat.le_trans (silent b hb) below
    · rintro ⟨period, received, -⟩
      obtain start | ⟨n, hn, atLast⟩ := h.last
      · omega
      · have before := received n hn _ atLast
        omega

theorem draining_event {a : Nat}
    (arrives : schedule.arrival s.consumed = some a) (inside : a ≤ debounceCeiling) :
    Draining schedule ⟨a, s.consumed + 1⟩ where
  bounded := inside
  received n hn := schedule.arrival_mono (Nat.le_of_lt_succ hn) arrives
  pending n hn b hb := by
    obtain ⟨c, hc, below⟩ := schedule.arrival_mono (Nat.le_of_succ_le hn) hb
    obtain rfl := Option.some.inj (arrives.symm.trans hc)
    exact below
  last := .inr ⟨s.consumed, Nat.lt_succ_self _, arrives⟩

theorem turned_drainTurn (h : Draining schedule s) (eventWins : Nat → Bool) :
    Turned schedule s (drainTurn schedule eventWins s) := by
  rw [drainTurn]
  split
  · next full => exact .result (ended_at_ceiling h full)
  · next room =>
    have sub : checkedSub debounceCeiling s.elapsed =
        some (debounceCeiling - s.elapsed) :=
      if_pos h.bounded
    rw [sub]
    have long : min debounce (debounceCeiling - s.elapsed) ≤ debounce :=
      Nat.min_le_left _ _
    have inside : s.elapsed + min debounce (debounceCeiling - s.elapsed) ≤
        debounceCeiling := by
      omega
    simp only
    generalize min debounce (debounceCeiling - s.elapsed) = wait at long inside ⊢
    cases received :
      recvTimeout (schedule.arrival s.consumed) (eventWins s.consumed) s.elapsed wait with
    | event time =>
        obtain ⟨a, arrives, inTime, rfl⟩ := recvTimeout_eq_event received
        have order := h.pending s.consumed (Nat.le_refl _) a arrives
        simp only [Nat.max_eq_right order]
        exact .event arrives (draining_event arrives (Nat.le_trans inTime inside))
    | timeout time =>
        obtain ⟨rfl, silent⟩ := recvTimeout_eq_timeout received
        exact .result (ended_after_wait h long inside silent)

/-- A drain that has received all but `left` of the events up to the ceiling ends within
`left` more turns and one. -/
theorem drainFrom_ends (h : Draining schedule s) (eventWins : Nat → Bool) {left : Nat}
    (few : ∀ n ≥ s.consumed + left, ∀ a, schedule.arrival n = some a →
      debounceCeiling < a)
    {fuel : Nat} (enough : left < fuel) :
    ∃ cutShort time consumed, Ended schedule cutShort time consumed ∧
      ∀ more ≥ fuel, drainFrom schedule eventWins more s =
        some (.ended cutShort time consumed) := by
  induction left generalizing s fuel with
  | zero =>
      have turned := turned_drainTurn h eventWins
      generalize turn : drainTurn schedule eventWins s = after at turned
      cases turned with
      | event arrives next =>
          exact absurd (few s.consumed (Nat.le_refl _) _ arrives)
            (Nat.not_lt.mpr next.bounded)
      | result ended =>
          refine ⟨_, _, _, ended, fun more hmore => ?_⟩
          obtain ⟨more, rfl⟩ := Nat.exists_eq_add_of_lt (Nat.lt_of_lt_of_le enough hmore)
          simp only [drainFrom, turn]
  | succ left ih =>
      have turned := turned_drainTurn h eventWins
      generalize turn : drainTurn schedule eventWins s = after at turned
      cases turned with
      | event arrives next =>
          have room : left < fuel - 1 := by omega
          obtain ⟨cutShort, time, consumed, ended, runs⟩ := ih next
            (fun n hn a ha => few n (by simp only at hn; omega) a ha) room
          refine ⟨cutShort, time, consumed, ended, fun more hmore => ?_⟩
          obtain ⟨more, rfl⟩ : ∃ k, more = k + 1 := ⟨more - 1, by omega⟩
          simp only [drainFrom, turn]
          exact runs more (by omega)
      | result ended =>
          refine ⟨_, _, _, ended, fun more hmore => ?_⟩
          obtain ⟨more, rfl⟩ : ∃ k, more = k + 1 := ⟨more - 1, by omega⟩
          simp only [drainFrom, turn]

end Turn

/-- Whatever stream of events follows the first one, the drain ends within the ceiling,
never panics, has received only events within its time, and says it was cut short
exactly when it did not end behind a quiet period. -/
theorem drain_contract (schedule : Schedule) (eventWins : Nat → Bool) :
    ∃ fuel cutShort time consumed,
      (∀ more ≥ fuel, drain schedule eventWins more =
        some (.ended cutShort time consumed)) ∧
        time ≤ debounceCeiling ∧
        (∀ n < consumed, ∃ a, schedule.arrival n = some a ∧ a ≤ time) ∧
        (cutShort = false ↔ schedule.Quiet time consumed) := by
  obtain ⟨left, few⟩ := schedule.late debounceCeiling
  obtain ⟨cutShort, time, consumed, ended, runs⟩ :=
    drainFrom_ends (draining_start schedule) eventWins
      (fun n hn => few n (by simpa using hn)) (Nat.lt_succ_self left)
  exact ⟨left + 1, cutShort, time, consumed, runs, ended.bounded, ended.received,
    ended.truthful⟩

/-- An event every hundred milliseconds, without end. -/
def steady : Schedule where
  arrival n := some (100 * (n + 1))
  ended n h := by cases h
  ordered n a b ha hb := by
    rw [← Option.some.inj ha, ← Option.some.inj hb]
    omega
  progress t := ⟨t, fun a ha => by rw [← Option.some.inj ha]; omega⟩

example : drain steady (fun _ => true) 30 = some (.ended true 2000 20) := by decide

end NonoCedarPdp
