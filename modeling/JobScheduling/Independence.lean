import Mathlib.Logic.Basic

/-! # Independent operations

    An operation on a state answers and leaves a state behind.  What it reads
    is a relation: `Same s s'` says that it cannot tell `s'` from `s`.  What it
    writes is a function: it `Acts` at `s` as `w` when, wherever it reads the
    same, it answers as at `s` and writes `w`.

    Two operations of which neither's writing is seen by the other, and whose
    writings commute up to `R`, are `Independent`: the order does not matter. -/

namespace Independence

variable {σ α β : Type*}

/-- Wherever the operation reads as at `s`, it answers as there and writes
    `w`. -/
structure Acts (Same : σ → σ → Prop) (f : σ → α × σ) (s : σ) (w : σ → σ) :
    Prop where
  refl : Same s s
  same : ∀ s', Same s s' → f s' = ((f s).1, w s')

/-- Each operation answers as if the other had not run, and `R` relates the
    states of the two orders. -/
structure Independent (R : σ → σ → Prop) (f : σ → α × σ) (g : σ → β × σ)
    (s : σ) : Prop where
  left : (f (g s).2).1 = (f s).1
  right : (g (f s).2).1 = (g s).1
  state : R (g (f s).2).2 (f (g s).2).2

variable {Same Same' : σ → σ → Prop} {f : σ → α × σ} {g : σ → β × σ} {s : σ}
  {w v : σ → σ}

theorem Acts.state (h : Acts Same f s w) : (f s).2 = w s := by
  rw [h.same s h.refl]

/-- Neither operation sees the other's writing. -/
theorem Acts.independent {R : σ → σ → Prop} (hf : Acts Same f s w)
    (hg : Acts Same' g s v) (hseen : Same s (v s)) (hseen' : Same' s (w s))
    (hR : R (v (w s)) (w (v s))) : Independent R f g s := by
  have hlate := hf.same (v s) hseen
  have hlate' := hg.same (w s) hseen'
  refine ⟨?_, ?_, ?_⟩
  · rw [hg.state, hlate]
  · rw [hf.state, hlate']
  · rw [hf.state, hg.state, hlate, hlate']
    exact hR

end Independence
