import Mathlib.Data.List.Perm.Basic

/-! # Channels that lose, duplicate and reorder

    A channel is the list of messages in flight.  Any message may be taken
    out, whichever was sent first (`take`), and any may be lost or copied
    (`Fault`).  Whatever happens, a message in flight is one that was sent:
    a property of every message sent holds of every message in flight. -/

namespace Channels

variable {M : Type*}

/-- What can happen to a message in flight. -/
inductive Fault where
  | lose (i : Nat)
  | duplicate (i : Nat)

/-- The channel after a fault; `none` where there is no such message. -/
def disturb (ms : List M) : Fault → Option (List M)
  | .lose i =>
      match ms[i]? with
      | some _ => some (ms.eraseIdx i)
      | none => none
  | .duplicate i =>
      match ms[i]? with
      | some m => some (ms ++ [m])
      | none => none

/-- Deliver the `i`-th message. -/
def take (ms : List M) (i : Nat) : Option (M × List M) :=
  match ms[i]? with
  | some m => some (m, ms.eraseIdx i)
  | none => none

/-- A fault invents no message. -/
theorem mem_of_mem_disturb {ms ms' : List M} {f : Fault}
    (h : disturb ms f = some ms') {m : M} (hm : m ∈ ms') : m ∈ ms := by
  cases f with
  | lose i =>
      cases hi : ms[i]? with
      | none => simp [disturb, hi] at h
      | some x =>
          simp only [disturb, hi, Option.some.injEq] at h
          rw [← h] at hm
          exact List.mem_of_mem_eraseIdx hm
  | duplicate i =>
      cases hi : ms[i]? with
      | none => simp [disturb, hi] at h
      | some x =>
          simp only [disturb, hi, Option.some.injEq] at h
          rw [← h] at hm
          rcases List.mem_append.mp hm with hold | hnew
          · exact hold
          · rw [List.mem_singleton.mp hnew]
            exact List.mem_of_getElem? hi

/-- A delivered message was in flight, and so were the others. -/
theorem mem_of_take {ms rest : List M} {i : Nat} {m : M}
    (h : take ms i = some (m, rest)) : m ∈ ms ∧ ∀ x ∈ rest, x ∈ ms := by
  cases hi : ms[i]? with
  | none => simp [take, hi] at h
  | some x =>
      simp only [take, hi, Option.some.injEq, Prod.mk.injEq] at h
      obtain ⟨rfl, rfl⟩ := h
      refine ⟨List.mem_of_getElem? hi, ?_⟩
      intro y hy
      exact List.mem_of_mem_eraseIdx hy

/-- A delivery loses nothing but the message delivered. -/
theorem mem_take {ms rest : List M} {i : Nat} {m x : M}
    (h : take ms i = some (m, rest)) (hx : x ∈ ms) : x = m ∨ x ∈ rest := by
  cases hi : ms[i]? with
  | none => simp [take, hi] at h
  | some y =>
      simp only [take, hi, Option.some.injEq, Prod.mk.injEq] at h
      obtain ⟨rfl, rfl⟩ := h
      obtain ⟨j, hj⟩ := List.mem_iff_getElem?.mp hx
      by_cases hij : j = i
      · rw [hij, hi] at hj
        exact Or.inl (Option.some.inj hj).symm
      · exact Or.inr (List.mem_eraseIdx_iff_getElem?.mpr ⟨j, hij, hj⟩)

/-- A delivery takes the message out, and nothing else. -/
theorem take_perm {ms rest : List M} {i : Nat} {m : M}
    (h : take ms i = some (m, rest)) : ms.Perm (m :: rest) := by
  cases hi : ms[i]? with
  | none => simp [take, hi] at h
  | some y =>
      simp only [take, hi, Option.some.injEq, Prod.mk.injEq] at h
      obtain ⟨rfl, rfl⟩ := h
      obtain ⟨hlt, hget⟩ := List.getElem?_eq_some_iff.mp hi
      rw [← hget]
      exact (List.getElem_cons_eraseIdx_perm hlt).symm

/-- A fault does not look at the messages. -/
theorem disturb_map {N : Type*} (g : M → N) (ms : List M) (f : Fault) :
    disturb (ms.map g) f = (disturb ms f).map (List.map g) := by
  cases f with
  | lose i =>
      cases hi : ms[i]? with
      | none => simp [disturb, hi]
      | some m => simp [disturb, hi, List.eraseIdx_map]
  | duplicate i =>
      cases hi : ms[i]? with
      | none => simp [disturb, hi]
      | some m => simp [disturb, hi]

/-- Nor does a delivery. -/
theorem take_map {N : Type*} (g : M → N) (ms : List M) (i : Nat) :
    take (ms.map g) i = (take ms i).map (fun p => (g p.1, p.2.map g)) := by
  cases hi : ms[i]? with
  | none => simp [take, hi]
  | some m => simp [take, hi, List.eraseIdx_map]

end Channels
