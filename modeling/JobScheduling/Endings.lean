import Mathlib.Data.List.Basic

/-! # How programs that may raise end

    A program of `ExceptT ε (StateM σ)` run on a state ends with a result or
    an exception, and either way with a state: an exception keeps what was
    done before it.  `Ends` is a postcondition with one part for each, and the
    rules here follow the program's syntax:

    * `ends_pure`, `ends_throw` — the two ends;
    * `ends_bind` — the second program starts where the first one returned;
    * `ends_tryCatch` — a handler starts where the body raised;
    * `Ends.mono` — weakening. -/

namespace Endings

variable {ε σ α β : Type}

/-- A run ends with a result that meets `Q`, or with an exception that meets
    `E`. -/
def Ends (Q : α → σ → Prop) (E : ε → σ → Prop) : Except ε α × σ → Prop
  | (.ok a, s) => Q a s
  | (.error e, s) => E e s

variable {Q Q' : α → σ → Prop} {R : β → σ → Prop} {E E' : ε → σ → Prop}

/-- A postcondition can be weakened, on either end. -/
theorem Ends.mono {p : Except ε α × σ} (hQ : ∀ a s, Q a s → Q' a s)
    (hE : ∀ e s, E e s → E' e s) (h : Ends Q E p) : Ends Q' E' p := by
  obtain ⟨r, s⟩ := p
  cases r with
  | ok a => exact hQ a s h
  | error e => exact hE e s h

theorem Ends.ok {p : Except ε α × σ} {a : α} (h : Ends Q E p)
    (hp : p.1 = .ok a) : Q a p.2 := by
  obtain ⟨r, s⟩ := p
  have hr : r = .ok a := hp
  rw [hr] at h
  exact h

theorem Ends.error {p : Except ε α × σ} {e : ε} (h : Ends Q E p)
    (hp : p.1 = .error e) : E e p.2 := by
  obtain ⟨r, s⟩ := p
  have hr : r = .error e := hp
  rw [hr] at h
  exact h

/-- A program that returns at once ends where it starts. -/
theorem ends_pure {a : α} {s : σ} (h : Q a s) :
    Ends Q E ((pure a : ExceptT ε (StateM σ) α) s) := h

/-- A program that raises at once ends where it starts. -/
theorem ends_throw {e : ε} {s : σ} (h : E e s) :
    Ends Q E ((throw e : ExceptT ε (StateM σ) α) s) := h

/-- Sequencing: the second program starts in the state in which the first one
    returned; if the first one raises, the second one does not run. -/
theorem ends_bind {m : ExceptT ε (StateM σ) α}
    {f : α → ExceptT ε (StateM σ) β} {s : σ}
    (h : Ends (fun a t => Ends R E (f a t)) E (m s)) :
    Ends R E ((m >>= f) s) := by
  show Ends R E ((ExceptT.bind m f : ExceptT ε (StateM σ) β) s)
  simp only [ExceptT.bind, ExceptT.mk, bind, StateT.bind]
  generalize m s = p at h ⊢
  obtain ⟨r, t⟩ := p
  cases r with
  | ok a => exact h
  | error e => exact h

/-- Handling: the handler starts in the state in which the body raised; nothing
    the body did before is undone. -/
theorem ends_tryCatch {m : ExceptT ε (StateM σ) α}
    {f : ε → ExceptT ε (StateM σ) α} {s : σ}
    (h : Ends Q (fun e t => Ends Q E (f e t)) (m s)) :
    Ends Q E ((tryCatch m f : ExceptT ε (StateM σ) α) s) := by
  show Ends Q E ((ExceptT.tryCatch m f : ExceptT ε (StateM σ) α) s)
  simp only [ExceptT.tryCatch, ExceptT.mk, bind, StateT.bind]
  generalize m s = p at h ⊢
  obtain ⟨r, t⟩ := p
  cases r with
  | ok a => exact h
  | error e => exact h

end Endings
