import JobScheduling.JobClock
import JobScheduling.JobPayload

/-! # The job state machine and the request body

    `JobState`, `VALID_TRANSITIONS` and `is_valid_transition` of
    `service/models.py`, and the `JobCreate` body a route hands on: its two
    timestamps have passed `must_be_utc`, so they are UTC datetimes. -/

namespace JobModels

open JobConstants JobClock JobPayload

inductive JobState where
  | pending
  | running
  | completed
  | failed
deriving DecidableEq, Repr

def JobState.value : JobState → String
  | .pending => statePending
  | .running => stateRunning
  | .completed => stateCompleted
  | .failed => stateFailed

/-- `JobState(v)`: the lookup by value; `none` where it raises `ValueError`.
    The error's text is built from `repr(v)`, so `v` is taken to nest less
    deep than the interpreter's recursion limit. -/
def JobState.ofValue : Json → Option JobState
  | .str s =>
      [JobState.pending, .running, .completed, .failed].find?
        (fun st => st.value = s)
  | _ => none

/-- `VALID_TRANSITIONS.get(state)`. -/
def validTransitions : JobState → Option (List JobState)
  | .pending => some [.running, .completed, .failed]
  | .running => some [.completed, .failed]
  | .completed => none
  | .failed => none

/-- `is_valid_transition(current, proposed)`. -/
def isValidTransition (current proposed : Json) : Bool :=
  match JobState.ofValue current, JobState.ofValue proposed with
  | some currentState, some proposedState =>
      match validTransitions currentState with
      | some allowed => allowed.contains proposedState
      | none => false
  | _, _ => false

/-- The edges of the state machine. -/
def Allowed (a b : JobState) : Prop :=
  ∃ allowed, validTransitions a = some allowed ∧ b ∈ allowed

instance (a b : JobState) : Decidable (Allowed a b) :=
  match h : validTransitions a with
  | some allowed =>
      decidable_of_iff (b ∈ allowed)
        ⟨fun hb => ⟨allowed, h, hb⟩, fun ⟨l, hl, hb⟩ => by
          rw [h] at hl
          rw [Option.some.inj hl]
          exact hb⟩
  | none => isFalse (fun ⟨l, hl, _⟩ => by rw [h] at hl; cases hl)

/-- Looking a state up by its value finds it. -/
@[simp] theorem ofValue_value (st : JobState) :
    JobState.ofValue (.str st.value) = some st := by
  cases st <;> rfl

/-- No two states share a value. -/
theorem value_injective {a b : JobState} (h : a.value = b.value) : a = b := by
  have hab : JobState.ofValue (.str a.value) = JobState.ofValue (.str b.value) := by
    rw [h]
  rw [ofValue_value, ofValue_value] at hab
  exact Option.some.inj hab

/-- Only an enum string is a state. -/
theorem ofValue_eq_some {v : Json} {st : JobState}
    (h : JobState.ofValue v = some st) : v = .str st.value := by
  cases v with
  | str s =>
      have hs : st.value = s := by simpa using List.find?_some h
      rw [hs]
  | null => cases h
  | bool b => cases h
  | int n => cases h
  | float x => cases h
  | surrogates cs => cases h
  | arr xs => cases h
  | obj fs => cases h

/-- The guard passes exactly along an edge between two enum strings. -/
theorem isValidTransition_iff {current proposed : Json} :
    isValidTransition current proposed = true
      ↔ ∃ a b : JobState, current = .str a.value ∧ proposed = .str b.value
          ∧ Allowed a b := by
  constructor
  · intro h
    rw [isValidTransition] at h
    cases hc : JobState.ofValue current with
    | none => rw [hc] at h; cases h
    | some a =>
        cases hp : JobState.ofValue proposed with
        | none => rw [hc, hp] at h; cases h
        | some b =>
            rw [hc, hp] at h
            refine ⟨a, b, ofValue_eq_some hc, ofValue_eq_some hp, ?_⟩
            cases hv : validTransitions a with
            | none => simp [hv] at h
            | some allowed => exact ⟨allowed, hv, by simpa [hv] using h⟩
  · rintro ⟨a, b, rfl, rfl, allowed, hv, hb⟩
    simp [isValidTransition, hv, hb]

/-- An edge leaves only PENDING and RUNNING. -/
theorem allowed_source {a b : JobState} (h : Allowed a b) :
    a = .pending ∨ a = .running := by
  revert h
  cases a <;> cases b <;> decide

/-- The request body, after Pydantic and `must_be_utc`.  `operation` may hold
    lone surrogates; an `asset_id` with one is no seeded asset, and stands here
    as any other unknown id. -/
structure JobCreate where
  assetId : String
  operation : PyStr
  startTime : Datetime
  endTime : Datetime
deriving DecidableEq

end JobModels
