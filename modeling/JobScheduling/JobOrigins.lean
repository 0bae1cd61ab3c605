import JobScheduling.JobLedger

/-! # Where rows come from

    A row of the table was committed by exactly one step of one call, and keeps
    the place it was appended at.  `CreatedBy cfg ls n c` says that in the run
    `ls` from startup the row at place `n` was committed by the call `c`.

    * `exists_createdBy` — every row has such a call;
    * `CreatedBy.row` — the row is still that call's job;
    * `CreatedBy.valid`, `CreatedBy.submitted` — the call was submitted and
      passed `validate`. -/

namespace JobOrigins

open JobConstants JobModels JobRepository JobOrchestrator JobService JobLedger
open KeyedTable Runs

/-- In the run `ls`, the row at place `n` is the one the call `c` committed. -/
def CreatedBy (cfg : Config) (ls : List Label) (n : Nat) (c : Call) : Prop :=
  ∃ pre i post t t', ls = pre ++ .call i :: post
    ∧ exec (step cfg) Service.empty pre = some t
    ∧ t.calls[i]? = some (c, .insert (newJob c))
    ∧ step cfg t (.call i) = some t'
    ∧ t'.jobs = t.jobs ++ [newJob c]
    ∧ n = t.jobs.length

variable {cfg : Config} {ls : List Label} {s s' : Service} {l : Label}
variable {n : Nat} {c : Call}

/-- What was committed stays committed. -/
theorem CreatedBy.append (h : CreatedBy cfg ls n c) (ms : List Label) :
    CreatedBy cfg (ls ++ ms) n c := by
  obtain ⟨pre, i, post, t, t', rfl, ht, hc, hstep, hjobs, hn⟩ := h
  refine ⟨pre, i, post ++ ms, t, t', ?_, ht, hc, hstep, hjobs, hn⟩
  rw [List.append_assoc, List.cons_append]

/-- One step leaves the number of rows, or commits the job of one call. -/
theorem step_rows (hs : ServiceOk cfg s) (h : step cfg s l = some s') :
    s'.jobs.length = s.jobs.length
      ∨ ∃ i c, l = .call i ∧ s.calls[i]? = some (c, .insert (newJob c))
          ∧ s'.jobs = s.jobs ++ [newJob c] := by
  cases step_move h with
  | submit c => exact Or.inl rfl
  | call i c pc pc' T' ev here move =>
      by_cases hT : T' = s.jobs
      · exact Or.inl (congrArg List.length hT)
      · obtain ⟨job, rfl, -, hT', -⟩ := CreateMove.admits move hT
        have hjob : job = newJob c := (hs.call here).1
        rw [hjob] at here hT'
        exact Or.inr ⟨i, c, rfl, here, hT'⟩
  | deliver msg now idle => exact Or.inl rfl
  | handler pc' T' ev move =>
      -- the ids are a column the handler does not set
      have hids : T'.map Job.id = s.jobs.map Job.id :=
        HandlerMove.column (fun _ _ _ _ => rfl) move hs.ids hs.handler
      have hlen := congrArg List.length hids
      rw [List.length_map, List.length_map] at hlen
      exact Or.inl hlen

/-- **Every row was committed by a call.** -/
theorem exists_createdBy (h : exec (step cfg) Service.empty ls = some s) :
    ∀ n, n < s.jobs.length → ∃ c, CreatedBy cfg ls n c := by
  refine (exec_from_start (I := fun pre t =>
    ∀ n, n < t.jobs.length → ∃ c, CreatedBy cfg pre n c) ?_ ?_ h)
  · intro pre t l t' hrun hall hst n hn
    rcases step_rows (serviceOk_run hrun) hst with hlen | ⟨i, c, rfl, here, hjobs⟩
    · rw [hlen] at hn
      obtain ⟨c, hc⟩ := hall n hn
      exact ⟨c, hc.append [l]⟩
    · rcases Nat.lt_or_ge n t.jobs.length with hold | hnew
      · obtain ⟨c', hc'⟩ := hall n hold
        exact ⟨c', hc'.append _⟩
      · rw [hjobs, List.length_append, List.length_singleton] at hn
        have heq : n = t.jobs.length := by omega
        exact ⟨c, pre, i, [], t, t', rfl, hrun, here, hst, hjobs, heq⟩
  · intro n hn
    exact absurd hn (Nat.not_lt_zero n)

/-- **The row is its call's job**, up to what `update_state` sets. -/
theorem CreatedBy.row (h : CreatedBy cfg ls n c)
    (hrun : exec (step cfg) Service.empty ls = some s) :
    ∃ r, s.jobs[n]? = some r ∧ SameJob (newJob c) r := by
  obtain ⟨pre, i, post, t, t', rfl, ht, -, hstep, hjobs, rfl⟩ := h
  obtain ⟨u, hu, hrest⟩ := exec_append.mp hrun
  obtain ⟨u', hu', hpost⟩ := exec_cons.mp hrest
  have htu : u = t := Option.some.inj (hu.symm.trans ht)
  rw [htu, hstep] at hu'
  rw [← Option.some.inj hu'] at hpost
  have hok : ServiceOk cfg t' := serviceOk_step (serviceOk_run ht) hstep
  refine jobs_evolve hok hpost t.jobs.length (newJob c) ?_
  rw [hjobs, List.getElem?_concat_length]

/-- A row is the job of every call it was committed by. -/
theorem CreatedBy.sameJob (h : CreatedBy cfg ls n c)
    (hrun : exec (step cfg) Service.empty ls = some s) {r : Job}
    (hr : s.jobs[n]? = some r) : SameJob (newJob c) r := by
  obtain ⟨r', hr', hsame⟩ := h.row hrun
  rw [hr] at hr'
  rw [Option.some.inj hr']
  exact hsame

/-- A call that commits has passed `validate`. -/
theorem CreatedBy.valid (h : CreatedBy cfg ls n c) :
    JobValidation.validate cfg c.body c.validatedAt = none := by
  obtain ⟨pre, i, post, t, t', -, ht, here, -, -, -⟩ := h
  exact ((serviceOk_run ht).call here).2

/-- Every call of a run was submitted in it. -/
theorem calls_submitted (h : exec (step cfg) Service.empty ls = some s) :
    ∀ p ∈ s.calls, Label.submit p.1 ∈ ls := by
  refine exec_from_start (I := fun pre t =>
    ∀ p ∈ t.calls, Label.submit p.1 ∈ pre) ?_
    (fun p hp => absurd hp List.not_mem_nil) h
  intro pre t l t' _ hall hst p hp
  cases step_move hst with
  | submit c =>
      rcases List.mem_append.mp hp with hold | hnew
      · exact List.mem_append_left _ (hall p hold)
      · rw [List.mem_singleton.mp hnew]
        exact List.mem_append_right _ (List.mem_singleton_self _)
  | call i c pc pc' T' ev here move =>
      refine List.mem_append_left _ ?_
      rcases List.mem_or_eq_of_mem_set hp with hold | hnew
      · exact hall p hold
      · rw [hnew]
        exact hall (c, pc) (List.mem_of_getElem? here)
  | deliver msg now idle => exact List.mem_append_left _ (hall p hp)
  | handler pc' T' ev move => exact List.mem_append_left _ (hall p hp)

/-- The call that created a row was submitted. -/
theorem CreatedBy.submitted (h : CreatedBy cfg ls n c) :
    Label.submit c ∈ ls := by
  obtain ⟨pre, i, post, t, t', rfl, ht, here, -, -, -⟩ := h
  exact List.mem_append_left _
    (calls_submitted ht _ (List.mem_of_getElem? here))

end JobOrigins
