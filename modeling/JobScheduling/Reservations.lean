import JobScheduling.KeyedTable
import Mathlib.Order.Interval.Set.Disjoint
import Mathlib.Data.List.Lex
import Mathlib.Order.CompletePartialOrder
import Mathlib.Order.Lattice

/-! # Reservations of resources for half-open windows

    A reservation names a resource and a window `[start, stop)` over a linear
    order, and is held or not.  A book of reservations is compatible when
    two held ones of the same resource have disjoint windows.

    * `disjoint_of_not_overlaps` — the two-comparison test every booking
      system runs is sound for disjointness, whatever the windows;
    * `ico_inter_nonempty_iff` — and exact for windows that are not empty;
    * `compatible_admit` — admitting a reservation that passes the test
      against every held one keeps the book compatible;
    * `compatible_release` — so does any rewrite of rows that never makes an
      unheld one held. -/

namespace Reservations

open KeyedTable

/-- How a row is read as a reservation. -/
structure Reading (R ρ τ : Type*) where
  resource : R → ρ
  start : R → τ
  stop : R → τ
  held : R → Prop

variable {R ρ τ : Type*} [LinearOrder τ] (v : Reading R ρ τ)

/-- The half-open window of a reservation. -/
def Reading.window (r : R) : Set τ := Set.Ico (v.start r) (v.stop r)

/-- The interval-intersection test of a reservation against `[a, b)`. -/
def Reading.Overlaps (r : R) (a b : τ) : Prop := v.start r < b ∧ a < v.stop r

/-- Two reservations that are not both held, for one resource, at an instant. -/
def Reading.Compatible (r r' : R) : Prop :=
  v.resource r = v.resource r' → v.held r → v.held r' →
    Disjoint (v.window r) (v.window r')

/-- Windows that fail the test share no instant. -/
theorem disjoint_of_not_overlaps {r r' : R}
    (h : ¬ v.Overlaps r (v.start r') (v.stop r')) :
    Disjoint (v.window r) (v.window r') := by
  rw [Set.disjoint_left]
  rintro x ⟨hx₁, hx₂⟩ ⟨hy₁, hy₂⟩
  exact h ⟨lt_of_le_of_lt hx₁ hy₂, lt_of_le_of_lt hy₁ hx₂⟩

/-- Two windows that are not empty share an instant exactly when each starts
    before the other stops. -/
theorem ico_inter_nonempty_iff {a b c d : τ} (hab : a < b) (hcd : c < d) :
    (Set.Ico a b ∩ Set.Ico c d).Nonempty ↔ a < d ∧ c < b := by
  rw [Set.Ico_inter_Ico, Set.nonempty_Ico, max_lt_iff, lt_min_iff, lt_min_iff]
  constructor
  · rintro ⟨⟨-, had⟩, hcb, -⟩
    exact ⟨had, hcb⟩
  · rintro ⟨had, hcb⟩
    exact ⟨⟨hab, had⟩, hcb, hcd⟩

/-- Admission: a reservation that passes the test against every held one of
    its resource keeps the book compatible. -/
theorem compatible_admit {T : List R} {n : R} (hT : T.Pairwise v.Compatible)
    (hn : ∀ r ∈ T, v.resource r = v.resource n → v.held r →
      ¬ v.Overlaps r (v.start n) (v.stop n)) :
    (T ++ [n]).Pairwise v.Compatible := by
  rw [List.pairwise_append]
  refine ⟨hT, List.pairwise_singleton _ _, ?_⟩
  intro r hr r' hr'
  rw [List.mem_singleton.mp hr']
  intro hres hheld _
  exact disjoint_of_not_overlaps v (hn r hr hres hheld)

/-- Release: a rewrite that keeps resource and window, and makes no row held
    that was not, keeps the book compatible. -/
theorem compatible_release {T : List R} {p : R → Bool} {f : R → R}
    (hres : ∀ r, v.resource (f r) = v.resource r)
    (hwin : ∀ r, v.window (f r) = v.window r)
    (hheld : ∀ r ∈ T, p r = true → v.held (f r) → v.held r)
    (hT : T.Pairwise v.Compatible) :
    (updateWhere p f T).Pairwise v.Compatible := by
  refine pairwise_updateWhere ?_ ?_ hT
  · intro a ha b hp hab hr ha' hb'
    rw [hres] at hr
    rw [hwin]
    exact hab hr (hheld a ha hp ha') hb'
  · intro a b hb hp hab hr ha' hb'
    rw [hres] at hr
    rw [hwin]
    exact hab hr ha' (hheld b hb hp hb')

end Reservations
