import Mathlib.Data.List.Chain

/-! # Runs of a partial step function

    A labelled transition system is a partial step function
    `step : σ → ι → Option σ`; a run is a list of labels.  The rules here are
    the induction principles every later proof uses:

    * `exec_invariant` — what every step keeps, every run keeps (`_of` is the
      form for runs whose labels all satisfy a side condition);
    * `exec_history` — the same for a property of the state AND the labels
      executed so far (`exec_from_start` when these are all there are);
    * `exec_related` — a reflexive and transitive relation that every step
      respects holds between the ends of a run;
    * `exec_simulates` — a step-by-step simulation lifts to runs, and
      `exec_lockstep` — so does a bisimulation label by label;
    * `always_iff_steps` — a property holds in every state a run visits iff
      every step of the run meets its step condition;
    * `exec_length_le`, `exec_maximal` — a measure that every step decreases
      bounds every run, and leads to a state in which nothing is enabled;
      `load` measures a list by its parts.

    `outputs` collects what an observer of consecutive states sees. -/

namespace Runs

variable {σ τ ι κ : Type*}

/-- Follow a list of labels; `none` when one of them is not enabled. -/
def exec (step : σ → ι → Option σ) : σ → List ι → Option σ
  | s, [] => some s
  | s, l :: ls =>
      match step s l with
      | some t => exec step t ls
      | none => none

variable {step : σ → ι → Option σ}

@[simp] theorem exec_nil (s : σ) : exec step s [] = some s := rfl

/-- A run takes its first step, and then the others. -/
theorem exec_cons {s s' : σ} {l : ι} {ls : List ι} :
    exec step s (l :: ls) = some s'
      ↔ ∃ t, step s l = some t ∧ exec step t ls = some s' := by
  constructor
  · intro h
    cases hst : step s l with
    | none => simp [exec, hst] at h
    | some t => exact ⟨t, rfl, by simpa [exec, hst] using h⟩
  · rintro ⟨t, ht, h⟩
    simpa [exec, ht] using h

theorem exec_one {s s' : σ} {l : ι} :
    exec step s [l] = some s' ↔ step s l = some s' := by
  rw [exec_cons]
  constructor
  · rintro ⟨t, ht, h⟩
    rw [exec_nil] at h
    rw [ht, h]
  · intro h
    exact ⟨s', h, rfl⟩

/-- Runs compose. -/
theorem exec_append {s s' : σ} {ls ms : List ι} :
    exec step s (ls ++ ms) = some s'
      ↔ ∃ t, exec step s ls = some t ∧ exec step t ms = some s' := by
  induction ls generalizing s with
  | nil =>
      constructor
      · intro h; exact ⟨s, rfl, h⟩
      · rintro ⟨t, ht, h⟩
        rw [exec_nil] at ht
        rw [Option.some.inj ht]
        exact h
  | cons l ls ih =>
      rw [List.cons_append, exec_cons]
      constructor
      · rintro ⟨t, ht, h⟩
        obtain ⟨u, hu, hrest⟩ := ih.mp h
        exact ⟨u, exec_cons.mpr ⟨t, ht, hu⟩, hrest⟩
      · rintro ⟨u, hu, hrest⟩
        obtain ⟨t, ht, hu'⟩ := exec_cons.mp hu
        exact ⟨t, ht, ih.mpr ⟨u, hu', hrest⟩⟩

/-- Expose the last step of a nonempty run. -/
theorem exec_concat {s s' : σ} {ls : List ι} {l : ι} :
    exec step s (ls ++ [l]) = some s'
      ↔ ∃ t, exec step s ls = some t ∧ step t l = some s' := by
  rw [exec_append]
  constructor
  · rintro ⟨t, ht, h⟩; exact ⟨t, ht, exec_one.mp h⟩
  · rintro ⟨t, ht, h⟩; exact ⟨t, ht, exec_one.mpr h⟩

/-! ## Invariants -/

/-- The run rule for a property of the state and the labels so far. -/
theorem exec_history {I : List ι → σ → Prop}
    (hstep : ∀ ls s l s', I ls s → step s l = some s' → I (ls ++ [l]) s')
    {pre ls : List ι} {s s' : σ} (h0 : I pre s)
    (h : exec step s ls = some s') : I (pre ++ ls) s' := by
  induction ls generalizing s pre with
  | nil =>
      rw [exec_nil] at h
      rw [List.append_nil, ← Option.some.inj h]
      exact h0
  | cons l ls ih =>
      obtain ⟨t, ht, hrest⟩ := exec_cons.mp h
      have hI := ih (hstep pre s l t h0 ht) hrest
      rwa [List.append_assoc, List.singleton_append] at hI

/-- The run rule for a property of a start and the labels followed from it. -/
theorem exec_from_start {I : List ι → σ → Prop} {s s' : σ} {ls : List ι}
    (hstep : ∀ pre t l t', exec step s pre = some t → I pre t →
      step t l = some t' → I (pre ++ [l]) t')
    (h0 : I [] s) (h : exec step s ls = some s') : I ls s' := by
  have hinv : exec step s ([] ++ ls) = some s' ∧ I ([] ++ ls) s' := by
    refine exec_history (I := fun pre t => exec step s pre = some t ∧ I pre t)
      ?_ ⟨rfl, h0⟩ h
    rintro pre t l t' ⟨hrun, hI⟩ hst
    exact ⟨exec_concat.mpr ⟨t, hrun, hst⟩, hstep pre t l t' hrun hI hst⟩
  exact hinv.2

/-- The run rule for labels that all satisfy a side condition. -/
theorem exec_invariant_of {P : ι → Prop} {I : σ → Prop}
    (hstep : ∀ s l s', I s → P l → step s l = some s' → I s')
    {ls : List ι} {s s' : σ} (hP : ∀ l ∈ ls, P l) (h0 : I s)
    (h : exec step s ls = some s') : I s' := by
  induction ls generalizing s with
  | nil =>
      rw [exec_nil] at h
      rw [← Option.some.inj h]
      exact h0
  | cons l ls ih =>
      obtain ⟨t, ht, hrest⟩ := exec_cons.mp h
      have hl : P l := hP l (List.mem_cons_self ..)
      exact ih (fun m hm => hP m (List.mem_cons_of_mem _ hm))
        (hstep s l t h0 hl ht) hrest

/-- The run rule: what every step keeps, every run keeps. -/
theorem exec_invariant {I : σ → Prop}
    (hstep : ∀ s l s', I s → step s l = some s' → I s')
    {ls : List ι} {s s' : σ} (h0 : I s)
    (h : exec step s ls = some s') : I s' :=
  exec_invariant_of (P := fun _ => True)
    (fun s l s' hI _ hst => hstep s l s' hI hst) (fun _ _ => trivial) h0 h

/-- A preorder that every step from an `I`-state respects relates the two
    ends of every run. -/
theorem exec_related {I : σ → Prop} {R : σ → σ → Prop}
    (hrefl : ∀ s, R s s) (htrans : ∀ s t u, R s t → R t u → R s u)
    (hI : ∀ s l s', I s → step s l = some s' → I s')
    (hR : ∀ s l s', I s → step s l = some s' → R s s')
    {ls : List ι} {s s' : σ} (h0 : I s)
    (h : exec step s ls = some s') : R s s' := by
  induction ls generalizing s with
  | nil =>
      rw [exec_nil] at h
      rw [← Option.some.inj h]
      exact hrefl s
  | cons l ls ih =>
      obtain ⟨t, ht, hrest⟩ := exec_cons.mp h
      exact htrans s t s' (hR s l t h0 ht) (ih (hI s l t h0 ht) hrest)

/-! ## Simulation -/

/-- A forward simulation by runs of a second system lifts to runs. -/
theorem exec_simulates {step' : τ → κ → Option τ} {R : σ → τ → Prop}
    (hsim : ∀ s t l s', R s t → step s l = some s' →
      ∃ ms t', exec step' t ms = some t' ∧ R s' t')
    {ls : List ι} {s s' : σ} {t : τ} (h0 : R s t)
    (h : exec step s ls = some s') :
    ∃ ms t', exec step' t ms = some t' ∧ R s' t' := by
  induction ls generalizing s t with
  | nil =>
      rw [exec_nil] at h
      rw [← Option.some.inj h]
      exact ⟨[], t, rfl, h0⟩
  | cons l ls ih =>
      obtain ⟨u, hu, hrest⟩ := exec_cons.mp h
      obtain ⟨ms, t', hms, hR⟩ := hsim s t l u h0 hu
      obtain ⟨ns, t'', hns, hR'⟩ := ih hR hrest
      exact ⟨ms ++ ns, t'', exec_append.mpr ⟨t', hms, hns⟩, hR'⟩

/-- A run projects to a run of a second system that each of its steps leaves
    alone or is a step of. -/
theorem exec_projects {step' : τ → κ → Option τ} {f : σ → τ}
    (hstep : ∀ s l s', step s l = some s' →
      f s' = f s ∨ ∃ l', step' (f s) l' = some (f s'))
    {ls : List ι} {s s' : σ} (h : exec step s ls = some s') :
    ∃ ms, exec step' (f s) ms = some (f s') := by
  have hsim : ∀ s t l s', f s = t → step s l = some s' →
      ∃ ms t', exec step' t ms = some t' ∧ f s' = t' := by
    rintro s t l s' rfl hst
    rcases hstep s l s' hst with heq | ⟨l', hl'⟩
    · exact ⟨[], f s, rfl, heq⟩
    · exact ⟨[l'], f s', exec_one.mpr hl', rfl⟩
  obtain ⟨ms, t', hms, ht'⟩ := exec_simulates (R := fun s t => f s = t) hsim rfl h
  exact ⟨ms, by rw [hms, ht']⟩

/-- Two systems that move in lockstep, label by label, as long as an invariant
    of the second holds, do so along every run: either both go on and are
    related, or neither does. -/
theorem exec_lockstep {step' : τ → κ → Option τ} {f : ι → κ} {R : σ → τ → Prop}
    {I : τ → Prop} (hI : ∀ t k t', I t → step' t k = some t' → I t')
    (hstep : ∀ s t l, R s t → I t → Option.Rel R (step s l) (step' t (f l)))
    {s : σ} {t : τ} (hR : R s t) (h0 : I t) (ls : List ι) :
    Option.Rel R (exec step s ls) (exec step' t (ls.map f)) := by
  induction ls generalizing s t with
  | nil => exact Option.Rel.some hR
  | cons l ls ih =>
      have hrel := hstep s t l hR h0
      rw [List.map_cons, exec, exec]
      cases hs : step s l with
      | none =>
          rw [hs] at hrel
          cases ht : step' t (f l) with
          | none => exact Option.Rel.none
          | some t' =>
              rw [ht] at hrel
              cases hrel
      | some s' =>
          rw [hs] at hrel
          cases ht : step' t (f l) with
          | none =>
              rw [ht] at hrel
              cases hrel
          | some t' =>
              rw [ht] at hrel
              cases hrel with
              | some hR' => exact ih hR' (hI t (f l) t' h0 ht)

/-! ## The states a run visits -/

/-- The states a run goes through, its start included. -/
def visited (step : σ → ι → Option σ) : σ → List ι → List σ
  | s, [] => [s]
  | s, l :: ls =>
      s :: match step s l with
        | some t => visited step t ls
        | none => []

/-- The states of a run are its first one and those of the rest. -/
theorem visited_cons {s t : σ} {l : ι} {ls : List ι} (h : step s l = some t) :
    visited step s (l :: ls) = s :: visited step t ls := by
  simp [visited, h]

theorem head?_visited (s : σ) (ls : List ι) :
    (visited step s ls).head? = some s := by
  cases ls with
  | nil => rfl
  | cons l ls => rfl

/-- What every step from an `I`-state relates, consecutive visited states are
    related by. -/
theorem visited_isChain {I : σ → Prop} {R : σ → σ → Prop}
    (hI : ∀ s l s', I s → step s l = some s' → I s')
    (hR : ∀ s l s', I s → step s l = some s' → R s s')
    {ls : List ι} {s s' : σ} (h0 : I s) (h : exec step s ls = some s') :
    (visited step s ls).IsChain R := by
  induction ls generalizing s with
  | nil => exact List.isChain_singleton s
  | cons l ls ih =>
      obtain ⟨t, ht, hrest⟩ := exec_cons.mp h
      rw [visited_cons ht, List.isChain_cons]
      refine ⟨?_, ih (hI s l t h0 ht) hrest⟩
      intro u hu
      rw [head?_visited, Option.mem_some] at hu
      rw [← hu]
      exact hR s l t h0 ht

/-- Every visited state is the end of a prefix of the run. -/
theorem mem_visited {s t u : σ} {ls : List ι} (h : exec step s ls = some t)
    (hu : u ∈ visited step s ls) :
    ∃ pre post, ls = pre ++ post ∧ exec step s pre = some u := by
  induction ls generalizing s with
  | nil =>
      rw [List.mem_singleton.mp hu]
      exact ⟨[], [], rfl, rfl⟩
  | cons l ls ih =>
      obtain ⟨v, hv, hrest⟩ := exec_cons.mp h
      rw [visited_cons hv] at hu
      rcases List.mem_cons.mp hu with heq | hmem
      · rw [heq]
        exact ⟨[], l :: ls, rfl, rfl⟩
      · obtain ⟨pre, post, hls, hpre⟩ := ih hrest hmem
        exact ⟨l :: pre, post, by rw [hls]; rfl, exec_cons.mpr ⟨v, hv, hpre⟩⟩

/-! ## Observations along a run -/

/-- What an observer of consecutive states collects along a run. -/
def outputs {β : Type*} (step : σ → ι → Option σ) (f : σ → σ → List β) :
    σ → List ι → List β
  | _, [] => []
  | s, l :: ls =>
      match step s l with
      | some t => f s t ++ outputs step f t ls
      | none => []

/-- The last step of a run adds its own observations. -/
theorem outputs_concat {β : Type*} {f : σ → σ → List β} {s t u : σ}
    {ls : List ι} {l : ι} (h : exec step s ls = some t)
    (hl : step t l = some u) :
    outputs step f s (ls ++ [l]) = outputs step f s ls ++ f t u := by
  induction ls generalizing s with
  | nil =>
      rw [exec_nil] at h
      rw [Option.some.inj h]
      simp [outputs, hl]
  | cons m ls ih =>
      obtain ⟨v, hv, hrest⟩ := exec_cons.mp h
      simp only [List.cons_append, outputs, hv, ih hrest, List.append_assoc]

/-! ## Runs whose every step meets a condition -/

/-- `Q` holds of every step of a run: of the state before it and its label. -/
def EverySteps (step : σ → ι → Option σ) (Q : σ → ι → Prop) (s : σ)
    (ls : List ι) : Prop :=
  ∀ pre l post t, ls = pre ++ l :: post → exec step s pre = some t → Q t l

theorem everySteps_nil {Q : σ → ι → Prop} (s : σ) : EverySteps step Q s [] := by
  intro pre l post t hls _
  exact absurd hls (by simp)

/-- Every step of a run is its first one and those of the rest. -/
theorem everySteps_cons {Q : σ → ι → Prop} {s t : σ} {l : ι} {ls : List ι}
    (ht : step s l = some t) :
    EverySteps step Q s (l :: ls) ↔ Q s l ∧ EverySteps step Q t ls := by
  constructor
  · intro h
    refine ⟨h [] l ls s rfl rfl, ?_⟩
    intro pre m post u hls hu
    exact h (l :: pre) m post u (by rw [hls]; rfl) (exec_cons.mpr ⟨t, ht, hu⟩)
  · rintro ⟨hQ, h⟩ pre m post u hls hu
    cases pre with
    | nil =>
        rw [exec_nil] at hu
        rw [List.nil_append, List.cons.injEq] at hls
        rw [← Option.some.inj hu, ← hls.1]
        exact hQ
    | cons p pre =>
        rw [List.cons_append, List.cons.injEq] at hls
        obtain ⟨v, hv, hu'⟩ := exec_cons.mp hu
        rw [← hls.1, ht] at hv
        rw [← Option.some.inj hv] at hu'
        exact h pre m post u hls.2 hu'

/-- A label that is not enabled ends the run. -/
theorem everySteps_stuck {Q : σ → ι → Prop} {s : σ} {l : ι} {ls : List ι}
    (ht : step s l = none) : EverySteps step Q s (l :: ls) ↔ Q s l := by
  constructor
  · intro h
    exact h [] l ls s rfl rfl
  · intro hQ pre m post u hls hu
    cases pre with
    | nil =>
        rw [exec_nil] at hu
        rw [List.nil_append, List.cons.injEq] at hls
        rw [← Option.some.inj hu, ← hls.1]
        exact hQ
    | cons p pre =>
        rw [List.cons_append, List.cons.injEq] at hls
        obtain ⟨v, hv, -⟩ := exec_cons.mp hu
        rw [← hls.1, ht] at hv
        cases hv

instance decidableEverySteps {Q : σ → ι → Prop} [∀ s l, Decidable (Q s l)] :
    (s : σ) → (ls : List ι) → Decidable (EverySteps step Q s ls)
  | s, [] => isTrue (everySteps_nil s)
  | s, l :: ls =>
      match ht : step s l with
      | some t =>
          have := decidableEverySteps (Q := Q) t ls
          decidable_of_iff _ (everySteps_cons ht).symm
      | none => decidable_of_iff _ (everySteps_stuck ht).symm

/-- The run rule for runs whose every step meets a condition. -/
theorem exec_invariant_steps {I : σ → Prop} {Q : σ → ι → Prop}
    (hstep : ∀ s l s', I s → Q s l → step s l = some s' → I s')
    {ls : List ι} {s s' : σ} (hQ : EverySteps step Q s ls) (h0 : I s)
    (h : exec step s ls = some s') : I s' := by
  induction ls generalizing s with
  | nil =>
      rw [exec_nil] at h
      rw [← Option.some.inj h]
      exact h0
  | cons l ls ih =>
      obtain ⟨t, ht, hrest⟩ := exec_cons.mp h
      obtain ⟨hl, hls⟩ := (everySteps_cons ht).mp hQ
      exact ih hls (hstep s l t h0 hl ht) hrest

/-- When, from every `I`-state with `P`, a step keeps `P` exactly if it meets
    `Q`, a run keeps `P` in every visited state exactly if every step meets
    `Q`. -/
theorem always_iff_steps {I P : σ → Prop} {Q : σ → ι → Prop}
    (hI : ∀ s l s', I s → step s l = some s' → I s')
    (hPQ : ∀ s l s', I s → P s → step s l = some s' → (P s' ↔ Q s l))
    {ls : List ι} {s s' : σ} (h0 : I s) (hP : P s)
    (h : exec step s ls = some s') :
    (∀ t ∈ visited step s ls, P t) ↔ EverySteps step Q s ls := by
  induction ls generalizing s with
  | nil =>
      constructor
      · intro _
        exact everySteps_nil s
      · intro _ t ht
        rw [List.mem_singleton.mp ht]
        exact hP
  | cons l ls ih =>
      obtain ⟨t, ht, hrest⟩ := exec_cons.mp h
      rw [visited_cons ht, everySteps_cons ht, ← hPQ s l t h0 hP ht]
      constructor
      · intro hall
        have hPt : P t := by
          refine hall t (List.mem_cons_of_mem _ ?_)
          cases ls with
          | nil => exact List.mem_cons_self ..
          | cons m ms =>
              obtain ⟨u, hu, -⟩ := exec_cons.mp hrest
              rw [visited_cons hu]
              exact List.mem_cons_self ..
        refine ⟨hPt, (ih (hI s l t h0 ht) hPt hrest).mp ?_⟩
        intro u hu
        exact hall u (List.mem_cons_of_mem _ hu)
      · rintro ⟨hPt, hsteps⟩ u hu
        rcases List.mem_cons.mp hu with heq | hmem
        · rw [heq]
          exact hP
        · exact (ih (hI s l t h0 ht) hPt hrest).mpr hsteps u hmem

/-! ## Runs that end -/

/-- A measure that every step decreases bounds the length of a run. -/
theorem exec_length_le {P : ι → Prop} {I : σ → Prop} {μ : σ → Nat}
    (hI : ∀ s l s', I s → P l → step s l = some s' → I s')
    (hμ : ∀ s l s', I s → P l → step s l = some s' → μ s' < μ s)
    {ls : List ι} {s s' : σ} (hP : ∀ l ∈ ls, P l) (h0 : I s)
    (h : exec step s ls = some s') : ls.length + μ s' ≤ μ s := by
  induction ls generalizing s with
  | nil =>
      rw [exec_nil] at h
      rw [Option.some.inj h, List.length_nil, Nat.zero_add]
  | cons l ls ih =>
      obtain ⟨t, ht, hrest⟩ := exec_cons.mp h
      have hl : P l := hP l (List.mem_cons_self ..)
      have hlen := ih (fun m hm => hP m (List.mem_cons_of_mem _ hm))
        (hI s l t h0 hl ht) hrest
      have hdec := hμ s l t h0 hl ht
      rw [List.length_cons]
      omega

/-- With such a measure, every state runs on to one in which nothing is
    enabled. -/
theorem exec_maximal {P : ι → Prop} {I : σ → Prop} {μ : σ → Nat}
    (hI : ∀ s l s', I s → P l → step s l = some s' → I s')
    (hμ : ∀ s l s', I s → P l → step s l = some s' → μ s' < μ s)
    {s : σ} (h0 : I s) :
    ∃ ls s', (∀ l ∈ ls, P l) ∧ exec step s ls = some s'
      ∧ ∀ l, P l → step s' l = none := by
  induction hn : μ s using Nat.strongRecOn generalizing s with
  | _ n ih =>
      by_cases hstuck : ∀ l, P l → step s l = none
      · exact ⟨[], s, fun l hl => absurd hl List.not_mem_nil, rfl, hstuck⟩
      · rw [not_forall] at hstuck
        obtain ⟨l, hl⟩ := hstuck
        rw [Classical.not_imp] at hl
        obtain ⟨hPl, hst⟩ := hl
        obtain ⟨t, ht⟩ := Option.ne_none_iff_exists'.mp hst
        have hlt : μ t < n := by
          rw [← hn]
          exact hμ s l t h0 hPl ht
        obtain ⟨ls, s', hls, hrun, hend⟩ := ih (μ t) hlt (hI s l t h0 hPl ht) rfl
        refine ⟨l :: ls, s', ?_, exec_cons.mpr ⟨t, ht, hrun⟩, hend⟩
        intro m hm
        rcases List.mem_cons.mp hm with rfl | hmem
        · exact hPl
        · exact hls m hmem

/-! ## Measures of lists -/

/-- What the members of a list weigh together. -/
def load (w : σ → Nat) : List σ → Nat
  | [] => 0
  | x :: xs => w x + load w xs

/-- Two lists weigh what they weigh together. -/
theorem load_append (w : σ → Nat) (xs ys : List σ) :
    load w (xs ++ ys) = load w xs + load w ys := by
  induction xs with
  | nil => rw [List.nil_append, load, Nat.zero_add]
  | cons x xs ih =>
      rw [List.cons_append, load, load, ih]
      omega

/-- Replacing one member exchanges its weight. -/
theorem load_set (w : σ → Nat) {xs : List σ} {i : Nat} {x y : σ}
    (h : xs[i]? = some x) : load w (xs.set i y) + w x = load w xs + w y := by
  induction xs generalizing i with
  | nil => cases h
  | cons z zs ih =>
      cases i with
      | zero =>
          rw [List.getElem?_cons_zero, Option.some.injEq] at h
          rw [h, List.set_cons_zero, load, load]
          omega
      | succ i =>
          rw [List.getElem?_cons_succ] at h
          have hrest := ih h
          rw [List.set_cons_succ, load, load]
          omega

end Runs
