import Mathlib.Data.List.Lex
import Mathlib.Order.Lattice
import Mathlib.Algebra.Group.Nat.Defs

/-! # Fixed-width fields under lexicographic order

    Lists over a linear order are compared as words.  When the first fields of
    two words have one width, the words compare by those fields first and by
    the rest after (`append_lt_append_iff`); numbers written with a fixed
    number of digits compare as numbers (`digits_lt_digits_iff`).  Together: a
    record written field by field, each in its own width, compares as the
    tuple of its fields (`digits_append_lt_iff`). -/

namespace FixedWidth

/-- A quantity that follows an order strictly also reflects it. -/
theorem lt_iff_of_mono {ι β γ : Type*} [LinearOrder β] [LinearOrder γ]
    {f : ι → β} {g : ι → γ} (hlt : ∀ i j, f i < f j → g i < g j)
    (heq : ∀ i j, f i = f j → g i = g j) (i j : ι) :
    g i < g j ↔ f i < f j := by
  constructor
  · intro h
    rcases lt_trichotomy (f i) (f j) with hij | hij | hij
    · exact hij
    · rw [heq i j hij] at h
      exact absurd h (lt_irrefl _)
    · exact absurd h (lt_asymm (hlt j i hij))
  · exact hlt i j

variable {α : Type*} [LinearOrder α]

/-- Words with first fields of one width compare field by field. -/
theorem append_lt_append_iff {a b x y : List α} (h : a.length = b.length) :
    a ++ x < b ++ y ↔ a < b ∨ a = b ∧ x < y := by
  induction a generalizing b with
  | nil =>
      have hb : b = [] := List.eq_nil_of_length_eq_zero h.symm
      rw [hb]
      simp
  | cons c a ih =>
      cases b with
      | nil => cases h
      | cons d b =>
          have hlen : a.length = b.length := Nat.succ.inj h
          rw [List.cons_append, List.cons_append, List.cons_lt_cons_iff,
            List.cons_lt_cons_iff, ih hlen, List.cons.injEq]
          constructor
          · rintro (hlt | ⟨heq, hlt | ⟨hab, hxy⟩⟩)
            · exact Or.inl (Or.inl hlt)
            · exact Or.inl (Or.inr ⟨heq, hlt⟩)
            · exact Or.inr ⟨⟨heq, hab⟩, hxy⟩
          · rintro ((hlt | ⟨heq, hlt⟩) | ⟨⟨heq, hab⟩, hxy⟩)
            · exact Or.inl hlt
            · exact Or.inr ⟨heq, Or.inl hlt⟩
            · exact Or.inr ⟨heq, Or.inr ⟨hab, hxy⟩⟩

/-- `n` in base `b` with `w` digits, the most significant first, each written
    as its symbol. -/
def digits (b : Nat) (sym : Nat → α) : Nat → Nat → List α
  | 0, _ => []
  | w + 1, n => digits b sym w (n / b) ++ [sym (n % b)]

variable {b : Nat} {sym : Nat → α}

omit [LinearOrder α] in
@[simp] theorem length_digits (w n : Nat) : (digits b sym w n).length = w := by
  induction w generalizing n with
  | zero => rfl
  | succ w ih => rw [digits, List.length_append, ih, List.length_singleton]

omit [LinearOrder α] in
/-- The leading digit. -/
theorem digits_succ_eq_cons {w n : Nat} (h : n < b ^ (w + 1)) :
    ∃ rest, digits b sym (w + 1) n = sym (n / b ^ w) :: rest := by
  induction w generalizing n with
  | zero =>
      rw [Nat.zero_add, Nat.pow_one] at h
      exact ⟨[], by rw [digits, digits, Nat.mod_eq_of_lt h, Nat.pow_zero,
        Nat.div_one, List.nil_append]⟩
  | succ w ih =>
      have hdiv : n / b < b ^ (w + 1) := by
        rw [Nat.pow_succ] at h
        exact Nat.div_lt_of_lt_mul (Nat.mul_comm b _ ▸ h)
      obtain ⟨rest, hrest⟩ := ih hdiv
      refine ⟨rest ++ [sym (n % b)], ?_⟩
      rw [digits, hrest, List.cons_append, Nat.div_div_eq_div_mul,
        ← Nat.pow_succ']

/-- Writing a larger number gives a larger word. -/
theorem digits_lt_digits (hsym : ∀ i j, i < j → j < b → sym i < sym j)
    {w m n : Nat} (hn : n < b ^ w) (hmn : m < n) :
    digits b sym w m < digits b sym w n := by
  induction w generalizing m n with
  | zero =>
      rw [Nat.pow_zero] at hn
      omega
  | succ w ih =>
      have hb : 0 < b := by
        rcases Nat.eq_zero_or_pos b with hb | hb
        · rw [hb, Nat.zero_pow (Nat.succ_pos w)] at hn
          omega
        · exact hb
      have hdiv : n / b < b ^ w := by
        rw [Nat.div_lt_iff_lt_mul hb]
        rwa [Nat.pow_succ] at hn
      rw [digits, digits, append_lt_append_iff (by rw [length_digits, length_digits])]
      -- the leading digits differ, or the last ones do
      rcases Nat.lt_or_ge (m / b) (n / b) with hlt | hge
      · exact Or.inl (ih hdiv hlt)
      · have heq : m / b = n / b :=
          Nat.le_antisymm (Nat.div_le_div_right (Nat.le_of_lt hmn)) hge
        refine Or.inr ⟨by rw [heq], ?_⟩
        have hmod : m % b < n % b := by
          have hm := Nat.div_add_mod m b
          have hn' := Nat.div_add_mod n b
          rw [heq] at hm
          omega
        rw [List.cons_lt_cons_iff]
        exact Or.inl (hsym _ _ hmod (Nat.mod_lt n hb))

/-- Numbers of one width compare as their words do. -/
theorem digits_lt_digits_iff (hsym : ∀ i j, i < j → j < b → sym i < sym j)
    {w m n : Nat} (hm : m < b ^ w) (hn : n < b ^ w) :
    digits b sym w m < digits b sym w n ↔ m < n := by
  constructor
  · intro h
    rcases Nat.lt_trichotomy m n with hmn | hmn | hmn
    · exact hmn
    · rw [hmn] at h
      exact absurd h (lt_irrefl _)
    · exact absurd h (lt_asymm (digits_lt_digits hsym hm hmn))
  · exact digits_lt_digits hsym hn

/-- Numbers of one width are equal exactly when their digits are. -/
theorem digits_inj (hsym : ∀ i j, i < j → j < b → sym i < sym j)
    {w m n : Nat} (hm : m < b ^ w) (hn : n < b ^ w) :
    digits b sym w m = digits b sym w n ↔ m = n := by
  constructor
  · intro h
    rcases Nat.lt_trichotomy m n with hmn | hmn | hmn
    · exact absurd h (ne_of_lt (digits_lt_digits hsym hn hmn))
    · exact hmn
    · exact absurd h.symm (ne_of_lt (digits_lt_digits hsym hm hmn))
  · intro h
    rw [h]

/-- A record that starts with a number compares by that number first. -/
theorem digits_append_lt_iff (hsym : ∀ i j, i < j → j < b → sym i < sym j)
    {w m n : Nat} (hm : m < b ^ w) (hn : n < b ^ w) (x y : List α) :
    digits b sym w m ++ x < digits b sym w n ++ y ↔ m < n ∨ m = n ∧ x < y := by
  rw [append_lt_append_iff (by rw [length_digits, length_digits]),
    digits_lt_digits_iff hsym hm hn, digits_inj hsym hm hn]

end FixedWidth
