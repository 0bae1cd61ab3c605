import JobScheduling.JobLedger

/-! # Replays of an idempotency key

    Two halves of the idempotency promise.

    * After a 201 (`replay_stability`): a key belongs to one row for good, so
      every later call with it gets that row back at its first step, whatever
      its body, and no call of another user ever gets it.
    * During a creation (`concurrent_replay_iff`): a call that has already
      looked the key up when another one creates the row goes through the
      quota and overlap checks first, and these count the new row.  It returns
      the created job exactly when both checks let it reach the UNIQUE
      constraint, and its INSERT can be bound. -/

namespace JobReplay

open JobConstants JobClock JobPayload JobModels JobRepository JobBroker
open JobOrchestrator JobService JobLedger KeyedTable Runs

/-! ## After a 201 -/

/-- The job of a 201 is a stored row with the caller's key. -/
theorem row_of_accepted {cfg : Config} {s : Service} (hs : ServiceOk cfg s)
    {a : Nat} {c : Call} {job : Job} (ha : s.calls[a]? = some (c, accepted job)) :
    ∃ r ∈ s.jobs, r.id = job.id ∧ r.key = (c.userId, c.idempotencyKey) := by
  have hc : CallOk cfg c s.jobs (accepted job) := hs.call ha
  obtain ⟨hkey, r, hr, hsame⟩ := hc
  exact ⟨r, hr, hsame.id, hsame.key.trans hkey⟩

/-- A call whose key is stored returns the row of that key at its first step,
    and does nothing else. -/
theorem step_replay {cfg : Config} {s : Service} {b : Nat} {c : Call} {r : Job}
    (hb : s.calls[b]? = some (c, .start))
    (hfound : sqlFindByIdempotency s.jobs c.userId c.idempotencyKey = some r) :
    step cfg s (.call b)
      = some { s with calls := s.calls.set b (c, accepted r) } := by
  simp only [step, hb, createStep, hfound, List.append_nil]
  rfl

/-- **Replay stability**: at most one row per user and key; a call that starts
    after a 201 with the same user and key returns that job, adds no row and
    publishes nothing; no other user is ever answered with that job. -/
theorem replay_stability {cfg : Config} {ls : List Label} {s : Service}
    (h : exec (step cfg) Service.empty ls = some s) :
    (s.jobs.map Job.key).Nodup
      ∧ ∀ (a : Nat) (c : Call) (job : Job),
          s.calls[a]? = some (c, accepted job) →
        (∀ ms s' (b : Nat) (c' : Call), exec (step cfg) s ms = some s' →
          s'.calls[b]? = some (c', .start) → c'.userId = c.userId →
          c'.idempotencyKey = c.idempotencyKey →
          ∃ job', job'.id = job.id ∧ step cfg s' (.call b)
            = some { s' with calls := s'.calls.set b (c', accepted job') })
        ∧ ∀ (b : Nat) (c' : Call) (job' : Job),
            s.calls[b]? = some (c', accepted job') → c'.userId ≠ c.userId →
            job'.id ≠ job.id := by
  have hok := serviceOk_run h
  refine ⟨hok.keys, ?_⟩
  intro a c job ha
  obtain ⟨r, hr, hid, hkey⟩ := row_of_accepted hok ha
  constructor
  · intro ms s' b c' hms hb hu hk
    have hok' := serviceOk_run (exec_append.mpr ⟨s, h, hms⟩)
    obtain ⟨r', hr', hsame⟩ := (jobs_evolve hok hms).mem hr
    have hkey' : r'.key = (c'.userId, c'.idempotencyKey) := by
      rw [hsame.key, hkey, hu, hk]
    have hfound : sqlFindByIdempotency s'.jobs c'.userId c'.idempotencyKey
        = some r' := (find?_key hok'.keys).mpr ⟨hr', hkey'⟩
    exact ⟨r', hsame.id.trans hid, step_replay hb hfound⟩
  · intro b c' job' hb hne heq
    obtain ⟨r', hr', hid', hkey'⟩ := row_of_accepted hok hb
    -- one id, so one row, so one user
    have hrow : r' = r :=
      List.inj_on_of_nodup_map hok.ids hr' hr (hid'.trans (heq.trans hid.symm))
    rw [hrow, hkey, Prod.mk.injEq] at hkey'
    exact hne hkey'.1.symm

/-- Two users, one key: a booking, its result, a replay with another body, and
    the other user's booking under the same key. -/
private def replays : List Label :=
  [.submit (booking "user-001" "k1" "job-1" "asset-001" (february 2 1)
      (february 2 3) .handed),
    .call 0, .call 0, .call 0, .call 0,
    .deliver (resultMessage "job-1" "RUNNING") (february 1 1),
    .handler, .handler, .handler,
    .submit (booking "user-002" "k1" "job-2" "asset-002" (february 2 1)
      (february 2 3) .handed),
    .call 1, .call 1, .call 1, .call 1,
    .submit (booking "user-001" "k1" "job-3" "unknown" (february 2 3)
      (february 2 1) .handed)]

/-- The replay returns the first job, and changes nothing else. -/
theorem replay_stability_replays :
    ∃ (s : Service) (job job' : Job),
      exec (step seedConfig) Service.empty replays = some s
      ∧ job.id = "job-1" ∧ job'.id = job.id
      ∧ (step seedConfig s (.call 2)).map (fun t => (t.jobs, t.calls[2]?))
        = some (s.jobs, s.calls[2]?.map (fun p => (p.1, accepted job'))) := by
  let c : Call := booking "user-001" "k1" "job-1" "asset-001" (february 2 1)
    (february 2 3) .handed
  let c' : Call := booking "user-001" "k1" "job-3" "unknown" (february 2 3)
    (february 2 1) .handed
  obtain ⟨s, hs, hobs⟩ := Option.map_eq_some_iff.mp
    (show (exec (step seedConfig) Service.empty replays).map
        (fun s => (s.calls[0]?, s.calls[2]?))
      = some (some (c, accepted (newJob c)), some (c', .start)) by decide)
  obtain ⟨h0, h2⟩ := Prod.mk.inj hobs
  obtain ⟨job', hid, hstep⟩ := ((replay_stability hs).2 0 c (newJob c) h0).1
    [] s 2 c' rfl h2 rfl rfl
  refine ⟨s, newJob c, job', hs, rfl, hid, ?_⟩
  obtain ⟨hlen, -⟩ := List.getElem?_eq_some_iff.mp h2
  rw [hstep, h2]
  show some (s.jobs, (s.calls.set 2 (c', accepted job'))[2]?) = _
  rw [List.getElem?_set_self hlen]
  rfl

/-! ## During a creation -/

/-- A call has missed its key lookup and not yet run its transaction. -/
def InFlight : CreatePc → Prop
  | .validate => True
  | .insert _ => True
  | .start => False
  | .relookup _ => False
  | .publish _ => False
  | .returned _ => False

/-- Calls of one user with one unused key and valid bodies run on a reachable
    table, with nobody else: the indices of `before` move, call `w` creates its
    row, the indices of `after` move, and every call has returned. -/
structure Race (cfg : Config) (T : Table) (cs : List Call) (u k : String)
    (before : List Nat) (w : Nat) (creator : Call) (after : List Nat)
    (s₁ s₂ s : Service) : Prop where
  reachable : ReachableTable cfg T
  sameKey : ∀ c ∈ cs, c.userId = u ∧ c.idempotencyKey = k
  valid : ∀ c ∈ cs, JobValidation.validate cfg c.body c.validatedAt = none
  unused : sqlFindByIdempotency T u k = none
  start : exec (step cfg) (Service.waiting T cs) (before.map .call) = some s₁
  creation : step cfg s₁ (.call w) = some s₂
  grows : s₂.jobs ≠ s₁.jobs
  winner : cs[w]? = some creator
  rest : exec (step cfg) s₂ (after.map .call) = some s
  complete : ∀ p ∈ s.calls, ∃ result, p.2 = .returned result

/-- Every other call that has not returned when the row is created returns
    201 with its id. -/
def ReplaysAll (w : Nat) (creator : Call) (s₁ s : Service) : Prop :=
  ∀ (i : Nat) (c : Call) (pc : CreatePc), i ≠ w → s₁.calls[i]? = some (c, pc) →
    (∀ result, pc ≠ .returned result) →
    ∃ job, s.calls[i]? = some (c, accepted job) ∧ job.id = creator.uuid

/-- Every other call in flight when the row is created is, on the table with
    that row, below the quota and free of overlaps, and UTF-8 can represent its
    operation. -/
def Unobstructed (T : Table) (w : Nat) (creator : Call) (s₁ : Service) : Prop :=
  ∀ (i : Nat) (c : Call) (pc : CreatePc), i ≠ w → s₁.calls[i]? = some (c, pc) →
    InFlight pc →
    sqlCountActive (T ++ [newJob creator]) c.userId < maxActiveJobsPerUser
      ∧ sqlCheckOverlap (T ++ [newJob creator]) c.body.assetId
          c.body.endTime.strftime c.body.startTime.strftime = none
      ∧ c.body.operation.encodable = true

/-! ### Up to the creation -/

/-- Before the creation nothing is written and nobody publishes; from it on
    the key has a row. -/
def NotYetOrKeyed (T : Table) (u k : String) (s : Service) : Prop :=
  (s.jobs = T ∧ ∀ p ∈ s.calls, ∀ job, p.2 ≠ .publish job)
    ∨ ∃ r ∈ s.jobs, r.key = (u, k)

/-- Only the move that adds the row leads to the publish. -/
theorem CreateMove.ne_publish {cfg : Config} {c : Call} {T T' : Table}
    {pc pc' : CreatePc} {ev : List Event} (h : CreateMove cfg c T pc pc' T' ev)
    (hT : T' = T) (job : Job) : pc' ≠ .publish job := by
  intro heq
  cases h with
  | created job' admits => exact absurd hT (by simp)
  | _ => cases heq

/-- A step of a call writes nothing, or stores the key for good. -/
theorem notYetOrKeyed_step {cfg : Config} {T : Table} {u k : String}
    {s s' : Service} {i : Nat} (hok : ServiceOk cfg s)
    (hkey : ∀ c ∈ s.calls.map Prod.fst, c.userId = u ∧ c.idempotencyKey = k)
    (hs : NotYetOrKeyed T u k s) (h : step cfg s (.call i) = some s') :
    NotYetOrKeyed T u k s' := by
  rcases hs with ⟨hT, hpub⟩ | ⟨r, hr, hrk⟩
  · cases step_move h with
    | call _ c pc pc' T' ev here move =>
        have hmem : (c, pc) ∈ s.calls := List.mem_of_getElem? here
        have hc : CallOk cfg c s.jobs pc := hok.call here
        rcases (CreateMove.ledger move hc).1 with hsame | ⟨happ, -⟩
        · refine Or.inl ⟨hsame.trans hT, ?_⟩
          intro p hp job
          rcases List.mem_or_eq_of_mem_set hp with hold | hnew
          · exact hpub p hold job
          · rw [hnew]
            exact CreateMove.ne_publish move hsame job
        · refine Or.inr ⟨newJob c, ?_, ?_⟩
          · show newJob c ∈ T'
            rw [happ]
            exact List.mem_append_right _ (List.mem_singleton_self _)
          · obtain ⟨hu, hk⟩ := hkey c (List.mem_map_of_mem hmem)
            rw [← hu, ← hk]
            rfl
  · obtain ⟨r', hr', hsame⟩ :=
      (jobs_evolve hok (exec_one.mpr h)).mem hr
    exact Or.inr ⟨r', hr', hsame.key.trans hrk⟩

/-! ### From the creation on -/

/-- The answer of an insert transaction that cannot add its row `own` because
    `job` has its key: the quota, the overlap, the binding, then the
    constraint. -/
def checkedAnswer (T : Table) (job own : Job) : CreateResult :=
  if maxActiveJobsPerUser ≤ sqlCountActive T own.userId then
    .ok (.unprocessableEntity, .inr ErrorMessages.maxActiveJobs)
  else if (sqlCheckOverlap T own.assetId own.endTime own.startTime).isSome then
    .ok (.conflict, .inr ErrorMessages.overlapConflict)
  else if own.operation.encodable = false then .error .UnicodeEncodeError
  else .ok (.created, .inl job)

/-- What a call at a point is going to return, when the row of its key is
    `job` and the table stays `T`. -/
def lateAnswer (T : Table) (job : Job) (c : Call) : CreatePc → CreateResult
  | .start => .ok (.created, .inl job)
  | .relookup _ => .ok (.created, .inl job)
  | .validate => checkedAnswer T job (newJob c)
  | .insert own => checkedAnswer T job own
  | .publish own => (publishDispatch c own).1
  | .returned result => result

/-- With the key stored, a move of a valid call writes nothing and keeps the
    answer it is heading for. -/
theorem lateAnswer_move {cfg : Config} {c : Call} {T T' : Table} {job : Job}
    {pc pc' : CreatePc} {ev : List Event}
    (hfound : sqlFindByIdempotency T c.userId c.idempotencyKey = some job)
    (hvalid : JobValidation.validate cfg c.body c.validatedAt = none)
    (hc : CallOk cfg c T pc) (h : CreateMove cfg c T pc pc' T' ev) :
    T' = T ∧ lateAnswer T job c pc' = lateAnswer T job c pc := by
  obtain ⟨hmem, hkey⟩ := sqlFindByIdempotency_some hfound
  cases h with
  | replay existing found =>
      rw [hfound] at found
      rw [← Option.some.inj found]
      exact ⟨rfl, rfl⟩
  | miss found =>
      rw [hfound] at found
      cases found
  | reject status message invalid =>
      rw [hvalid] at invalid
      cases invalid
  | accept valid => exact ⟨rfl, rfl⟩
  | maxActive own quota =>
      refine ⟨rfl, ?_⟩
      show _ = checkedAnswer T job own
      rw [checkedAnswer, if_pos quota]
      rfl
  | overlap own quota found =>
      refine ⟨rfl, ?_⟩
      show _ = checkedAnswer T job own
      rw [checkedAnswer, if_neg (Nat.not_le_of_lt quota), if_pos found]
      rfl
  | unencodable own quota found lone =>
      refine ⟨rfl, ?_⟩
      show _ = checkedAnswer T job own
      rw [checkedAnswer, if_neg (Nat.not_le_of_lt quota),
        if_neg (Option.not_isSome_iff_eq_none.mpr found), if_pos lone]
      rfl
  | violation own quota found clash encodable =>
      refine ⟨rfl, ?_⟩
      have hbound : ¬ own.operation.encodable = false :=
        (Bool.not_eq_false _).mpr encodable
      show _ = checkedAnswer T job own
      rw [checkedAnswer, if_neg (Nat.not_le_of_lt quota),
        if_neg (Option.not_isSome_iff_eq_none.mpr found), if_neg hbound]
      rfl
  | created own admits =>
      obtain ⟨rfl, -⟩ := hc
      exact absurd hkey (violates_eq_false.mp admits.unique job hmem).2
  | lateReplay own existing found =>
      have hown : own = newJob c := hc
      rw [hown] at found
      have hsame : some job = some existing := hfound.symm.trans found
      rw [← Option.some.inj hsame]
      exact ⟨rfl, rfl⟩
  | lateMiss own found =>
      have hown : own = newJob c := hc
      rw [hown] at found
      cases hfound.symm.trans found
  | publish own => exact ⟨rfl, rfl⟩

/-- After the creation: the table stays, and every call heads for the answer
    it was heading for. -/
structure Settled (cfg : Config) (T : Table) (job : Job) (cs : List Call)
    (s₂ s : Service) : Prop where
  ok : ServiceOk cfg s
  jobs : s.jobs = T
  calls : s.calls.map Prod.fst = cs
  answers : ∀ (i : Nat) (c : Call) (pc : CreatePc), s₂.calls[i]? = some (c, pc) →
    ∃ pc', s.calls[i]? = some (c, pc')
      ∧ lateAnswer T job c pc' = lateAnswer T job c pc

/-- After the creation every step keeps the table and the answers to come. -/
theorem settled_step {cfg : Config} {T : Table} {job : Job} {cs : List Call}
    {s₂ s s' : Service} {i : Nat}
    (hfound : ∀ c ∈ cs,
      sqlFindByIdempotency T c.userId c.idempotencyKey = some job)
    (hvalid : ∀ c ∈ cs, JobValidation.validate cfg c.body c.validatedAt = none)
    (hs : Settled cfg T job cs s₂ s) (h : step cfg s (.call i) = some s') :
    Settled cfg T job cs s₂ s' := by
  have hok' := serviceOk_step hs.ok h
  have hcalls' := (callStep_calls h).trans hs.calls
  cases step_move h with
  | call _ c pc pc' T' ev here move =>
      have hmem : (c, pc) ∈ s.calls := List.mem_of_getElem? here
      have hcs : c ∈ cs := by
        rw [← hs.calls]
        exact List.mem_map_of_mem hmem
      have hc : CallOk cfg c s.jobs pc := hs.ok.call here
      rw [hs.jobs] at move hc
      obtain ⟨hT', hans⟩ := lateAnswer_move (hfound c hcs) (hvalid c hcs) hc move
      refine ⟨hok', hT', hcalls', ?_⟩
      intro j c₀ pc₀ hj
      obtain ⟨pc₁, hj', hans'⟩ := hs.answers j c₀ pc₀ hj
      by_cases hij : i = j
      · rw [← hij, here, Option.some.injEq, Prod.mk.injEq] at hj'
        obtain ⟨rfl, rfl⟩ := hj'
        have hlen : i < s.calls.length := (List.getElem?_eq_some_iff.mp here).1
        refine ⟨pc', ?_, hans.trans hans'⟩
        show (s.calls.set i (c, pc'))[j]? = some (c, pc')
        rw [← hij, List.getElem?_set_self hlen]
      · refine ⟨pc₁, ?_, hans'⟩
        show (s.calls.set i (c, pc'))[j]? = some (c₀, pc₁)
        rw [List.getElem?_set_ne hij]
        exact hj'

/-- The checks let the call through to the constraint exactly when it is below
    the quota, overlaps nothing and can be bound. -/
theorem checkedAnswer_eq_accepted {T : Table} {job own job' : Job} :
    checkedAnswer T job own = .ok (.created, .inl job')
      ↔ job = job' ∧ sqlCountActive T own.userId < maxActiveJobsPerUser
        ∧ sqlCheckOverlap T own.assetId own.endTime own.startTime = none
        ∧ own.operation.encodable = true := by
  rw [checkedAnswer]
  by_cases hq : maxActiveJobsPerUser ≤ sqlCountActive T own.userId
  · rw [if_pos hq]
    constructor
    · intro h
      cases h
    · rintro ⟨-, hlt, -⟩
      exact absurd hq (Nat.not_le_of_lt hlt)
  · rw [if_neg hq]
    cases ho : sqlCheckOverlap T own.assetId own.endTime own.startTime with
    | some r =>
        constructor
        · intro h
          cases h
        · rintro ⟨-, -, hnone, -⟩
          cases hnone
    | none =>
        rw [if_neg (fun h => Bool.noConfusion h)]
        cases own.operation.encodable with
        | false =>
            rw [if_pos rfl]
            constructor
            · intro h
              cases h
            · rintro ⟨-, -, -, hlone⟩
              cases hlone
        | true =>
            rw [if_neg (fun h => Bool.noConfusion h)]
            constructor
            · intro h
              injection h with h
              exact ⟨Sum.inl.inj (Prod.mk.inj h).2, Nat.lt_of_not_le hq, rfl, rfl⟩
            · rintro ⟨rfl, -, -, -⟩
              rfl

/-! ### The race -/

section Races

variable {cfg : Config} {T : Table} {cs : List Call} {u k : String}
  {before after : List Nat} {w : Nat} {creator : Call} {s₁ s₂ s : Service}

/-- Runs of calls alone keep every property their steps keep. -/
theorem exec_calls {I : Service → Prop}
    (hstep : ∀ s i s', I s → step cfg s (.call i) = some s' → I s')
    {is : List Nat} {s s' : Service} (h0 : I s)
    (h : exec (step cfg) s (is.map .call) = some s') : I s' := by
  refine exec_invariant_of (P := fun l => ∃ i, l = .call i) ?_ ?_ h0 h
  · rintro t _ t' ht ⟨i, rfl⟩ hst
    exact hstep t i t' ht hst
  · intro l hl
    obtain ⟨i, -, rfl⟩ := List.mem_map.mp hl
    exact ⟨i, rfl⟩

/-- The creation of a race: call `w` adds its row to the untouched table, and
    nobody else publishes. -/
theorem Race.creates (h : Race cfg T cs u k before w creator after s₁ s₂ s) :
    ServiceOk cfg s₂ ∧ s₂.calls.map Prod.fst = cs
      ∧ s₂.jobs = T ++ [newJob creator]
      ∧ (∀ i c pc, i ≠ w → s₁.calls[i]? = some (c, pc) →
          s₂.calls[i]? = some (c, pc) ∧ ∀ job, pc ≠ .publish job) := by
  have h0 : ServiceOk cfg (Service.waiting T cs)
      ∧ (Service.waiting T cs).calls.map Prod.fst = cs
      ∧ NotYetOrKeyed T u k (Service.waiting T cs) := by
    refine ⟨serviceOk_waiting h.reachable cs, waiting_calls T cs,
      Or.inl ⟨rfl, ?_⟩⟩
    intro p hp job heq
    obtain ⟨c, -, rfl⟩ := List.mem_map.mp hp
    cases heq
  have h1 : ServiceOk cfg s₁ ∧ s₁.calls.map Prod.fst = cs
      ∧ NotYetOrKeyed T u k s₁ := by
    refine exec_calls (I := fun t => ServiceOk cfg t
      ∧ t.calls.map Prod.fst = cs ∧ NotYetOrKeyed T u k t) ?_ h0 h.start
    rintro t i t' ⟨hok, hcs, hkey⟩ hst
    refine ⟨serviceOk_step hok hst, (callStep_calls hst).trans hcs,
      notYetOrKeyed_step hok ?_ hkey hst⟩
    rw [hcs]
    exact h.sameKey
  obtain ⟨hok₁, hcs₁, hkeyed⟩ := h1
  have hok₂ := serviceOk_step hok₁ h.creation
  have hcs₂ := (callStep_calls h.creation).trans hcs₁
  cases step_move h.creation with
  | call _ c pc pc' T' ev here move =>
      have hmem : (c, pc) ∈ s₁.calls := List.mem_of_getElem? here
      have hc : CallOk cfg c s₁.jobs pc := hok₁.call here
      have hcreator : c = creator := by
        have hw := call_of_calls hcs₁ here
        rw [h.winner] at hw
        exact (Option.some.inj hw).symm
      obtain ⟨job, rfl, rfl, happ, admits⟩ := move.admits h.grows
      obtain ⟨rfl, -⟩ := hc
      -- the new key had no row, so nothing was written before
      rcases hkeyed with ⟨hT, hpub⟩ | ⟨r, hr, hrk⟩
      · refine ⟨hok₂, hcs₂, ?_, ?_⟩
        · show T' = T ++ [newJob creator]
          rw [happ, hT, hcreator]
        · intro i c₀ pc₀ hiw hi
          refine ⟨?_, hpub (c₀, pc₀) (List.mem_of_getElem? hi)⟩
          show (s₁.calls.set w (c, .publish (newJob c)))[i]? = some (c₀, pc₀)
          rw [List.getElem?_set_ne (Ne.symm hiw)]
          exact hi
      · have hcs : c ∈ cs := by
          rw [← hcs₁]
          exact List.mem_map_of_mem hmem
        obtain ⟨hu, hk⟩ := h.sameKey c hcs
        have hnew : r.key = (newJob c).key := by
          rw [hrk, ← hu, ← hk]
          rfl
        exact absurd hnew (violates_eq_false.mp admits.unique r hr).2

/-- A call of a race that is about to insert inserts its own job. -/
theorem Race.inserts (h : Race cfg T cs u k before w creator after s₁ s₂ s)
    {i : Nat} {c : Call} {own : Job}
    (hi : s₁.calls[i]? = some (c, .insert own)) : own = newJob c := by
  have hok : ServiceOk cfg s₁ :=
    exec_calls (I := ServiceOk cfg) (fun _ _ _ hs hst => serviceOk_step hs hst)
      (serviceOk_waiting h.reachable cs) h.start
  have hc : CallOk cfg c s₁.jobs (.insert own) := hok.call hi
  exact hc.1

/-- Where the calls of a race are when the row is created decides what they
    return. -/
theorem Race.answers (h : Race cfg T cs u k before w creator after s₁ s₂ s)
    {i : Nat} {c : Call} {pc : CreatePc} (hiw : i ≠ w)
    (hi : s₁.calls[i]? = some (c, pc)) :
    s.calls[i]? = some (c, .returned
      (lateAnswer (T ++ [newJob creator]) (newJob creator) c pc)) := by
  obtain ⟨hok₂, hcs₂, hjobs, hother⟩ := h.creates
  have hcreator := h.sameKey creator (List.mem_of_getElem? h.winner)
  have hfound : ∀ c ∈ cs, sqlFindByIdempotency (T ++ [newJob creator])
      c.userId c.idempotencyKey = some (newJob creator) := by
    intro c hc
    obtain ⟨hu, hk⟩ := h.sameKey c hc
    have hkeys := hok₂.keys
    rw [hjobs] at hkeys
    refine (find?_key hkeys).mpr
      ⟨List.mem_append_right _ (List.mem_singleton_self _), ?_⟩
    rw [hu, hk, ← hcreator.1, ← hcreator.2]
    rfl
  have h₂ : Settled cfg (T ++ [newJob creator]) (newJob creator) cs s₂ s₂ :=
    ⟨hok₂, hjobs, hcs₂, fun i c pc hi => ⟨pc, hi, rfl⟩⟩
  have hs : Settled cfg (T ++ [newJob creator]) (newJob creator) cs s₂ s :=
    exec_calls (I := Settled cfg (T ++ [newJob creator]) (newJob creator) cs s₂)
      (fun _ _ _ hs hst => settled_step hfound h.valid hs hst) h₂ h.rest
  obtain ⟨pc', hi', hans⟩ := hs.answers i c pc (hother i c pc hiw hi).1
  obtain ⟨result, hres⟩ :=
    h.complete (c, pc') (List.mem_of_getElem? hi')
  rw [hi', ← hans, show pc' = .returned result from hres]
  rfl

/-- A call in flight at the creation returns what the checks on the table with
    the new row say about its own job. -/
theorem Race.answers_inFlight (h : Race cfg T cs u k before w creator after s₁ s₂ s)
    {i : Nat} {c : Call} {pc : CreatePc} (hiw : i ≠ w)
    (hi : s₁.calls[i]? = some (c, pc)) (hin : InFlight pc) :
    s.calls[i]? = some (c, .returned
      (checkedAnswer (T ++ [newJob creator]) (newJob creator) (newJob c))) := by
  rw [h.answers hiw hi]
  cases pc with
  | validate => rfl
  | insert own =>
      rw [h.inserts hi]
      rfl
  | _ => exact absurd hin id

/-- **Concurrent replays**: in a race the calls that come after the creation
    all return the created job exactly when none of those that had already
    missed it is turned away by the quota or the overlap check on the table
    with the new row, or has an operation that cannot be bound. -/
theorem concurrent_replay_iff
    (h : Race cfg T cs u k before w creator after s₁ s₂ s) :
    ReplaysAll w creator s₁ s ↔ Unobstructed T w creator s₁ := by
  obtain ⟨-, -, -, hother⟩ := h.creates
  constructor
  · intro hall i c pc hiw hi hin
    have hrun : ∀ result, pc ≠ .returned result := by
      intro result heq
      rw [heq] at hin
      exact hin
    obtain ⟨job, hjob, -⟩ := hall i c pc hiw hi hrun
    rw [h.answers_inFlight hiw hi hin, Option.some.injEq, Prod.mk.injEq] at hjob
    have hans := CreatePc.returned.inj hjob.2
    exact (checkedAnswer_eq_accepted.mp hans).2
  · intro hfree i c pc hiw hi hrun
    have hlate : InFlight pc →
        s.calls[i]? = some (c, accepted (newJob creator)) := by
      intro hin
      have hans : checkedAnswer (T ++ [newJob creator]) (newJob creator)
          (newJob c) = .ok (.created, .inl (newJob creator)) :=
        checkedAnswer_eq_accepted.mpr ⟨rfl, hfree i c pc hiw hi hin⟩
      rw [h.answers_inFlight hiw hi hin, hans]
      rfl
    refine ⟨newJob creator, ?_, rfl⟩
    cases pc with
    | validate => exact hlate trivial
    | insert own => exact hlate trivial
    | start => exact h.answers hiw hi
    | relookup own => exact h.answers hiw hi
    | publish own => exact absurd rfl ((hother i c _ hiw hi).2 own)
    | returned result => exact absurd rfl (hrun result)

end Races

/-! ### Two races -/

/-- Two calls of one user with one key, for the same window of one asset or of
    two. -/
private def racer (uuid assetId : String) : Call :=
  booking "user-001" "k1" uuid assetId (february 2 1) (february 2 3) .handed

/-- Both calls look the key up, then both insert, from the empty table. -/
private theorem race_of_two (c c' : Call) (answer : CreatePc) (after : List Nat)
    (hkey : ∀ x ∈ [c, c'], x.userId = "user-001" ∧ x.idempotencyKey = "k1")
    (hvalid : ∀ x ∈ [c, c'],
      JobValidation.validate seedConfig x.body x.validatedAt = none)
    (hanswer : ∃ result, answer = .returned result)
    (hrun : ((exec (step seedConfig) (Service.waiting [] [c, c'])
        ([0, 0, 1, 1].map .call)).bind fun s₁ =>
          (step seedConfig s₁ (.call 0)).bind fun s₂ =>
            (exec (step seedConfig) s₂ (after.map .call)).map fun s =>
              (s₁.jobs, s₁.calls, s₂.jobs, s.calls))
      = some ([], [(c, .insert (newJob c)), (c', .insert (newJob c'))],
          [newJob c], [(c, accepted (newJob c)), (c', answer)])) :
    ∃ s₁ s₂ s, Race seedConfig [] [c, c'] "user-001" "k1" [0, 0, 1, 1] 0 c
        after s₁ s₂ s
      ∧ s₁.calls = [(c, .insert (newJob c)), (c', .insert (newJob c'))]
      ∧ s.calls = [(c, accepted (newJob c)), (c', answer)] := by
  obtain ⟨s₁, hs₁, hrest⟩ := Option.bind_eq_some_iff.mp hrun
  obtain ⟨s₂, hs₂, hend⟩ := Option.bind_eq_some_iff.mp hrest
  obtain ⟨s, hs, hobs⟩ := Option.map_eq_some_iff.mp hend
  obtain ⟨hj₁, hobs⟩ := Prod.mk.inj hobs
  obtain ⟨hc₁, hobs⟩ := Prod.mk.inj hobs
  obtain ⟨hj₂, hc⟩ := Prod.mk.inj hobs
  refine ⟨s₁, s₂, s, ?_, hc₁, hc⟩
  refine ⟨⟨[], Service.empty, rfl, rfl⟩, hkey, hvalid, rfl, hs₁, hs₂, ?_, rfl,
    hs, ?_⟩
  · rw [hj₁, hj₂]
    exact List.cons_ne_nil _ _
  · intro p hp
    rw [hc, List.mem_cons, List.mem_singleton] at hp
    rcases hp with rfl | rfl
    · exact ⟨_, rfl⟩
    · exact hanswer

/-- Windows on two assets: the late call returns the created job. -/
theorem concurrent_replay_iff_twoAssets :
    ∃ s₁ s₂ s, Race seedConfig [] [racer "job-1" "asset-001",
        racer "job-2" "asset-002"] "user-001" "k1" [0, 0, 1, 1] 0
        (racer "job-1" "asset-001") [1, 1, 0] s₁ s₂ s
      ∧ ReplaysAll 0 (racer "job-1" "asset-001") s₁ s
      ∧ Unobstructed [] 0 (racer "job-1" "asset-001") s₁ := by
  obtain ⟨s₁, s₂, s, hrace, hc₁, hc⟩ :=
    race_of_two (racer "job-1" "asset-001") (racer "job-2" "asset-002")
      (accepted (newJob (racer "job-1" "asset-001"))) [1, 1, 0]
      (by decide) (by decide) ⟨_, rfl⟩ (by decide)
  have hall : ReplaysAll 0 (racer "job-1" "asset-001") s₁ s := by
    intro i c pc hi hpc _
    rw [hc₁] at hpc
    match i with
    | 0 => exact absurd rfl hi
    | 1 =>
        rw [List.getElem?_cons_succ, List.getElem?_cons_zero, Option.some.injEq,
          Prod.mk.injEq] at hpc
        refine ⟨newJob (racer "job-1" "asset-001"), ?_, rfl⟩
        rw [hc, ← hpc.1]
        rfl
    | n + 2 => cases hpc
  exact ⟨s₁, s₂, s, hrace, hall, (concurrent_replay_iff hrace).mp hall⟩

/-- Two identical requests: the late one is turned away for overlapping the
    row it should have replayed. -/
theorem concurrent_replay_conflict :
    ∃ s₁ s₂ s, Race seedConfig [] [racer "job-1" "asset-001",
        racer "job-2" "asset-001"] "user-001" "k1" [0, 0, 1, 1] 0
        (racer "job-1" "asset-001") [1, 0] s₁ s₂ s
      ∧ s.calls[1]? = some (racer "job-2" "asset-001",
          .returned (.ok (.conflict, .inr ErrorMessages.overlapConflict)))
      ∧ ¬ ReplaysAll 0 (racer "job-1" "asset-001") s₁ s := by
  obtain ⟨s₁, s₂, s, hrace, hc₁, hc⟩ :=
    race_of_two (racer "job-1" "asset-001") (racer "job-2" "asset-001")
      (.returned (.ok (.conflict, .inr ErrorMessages.overlapConflict))) [1, 0]
      (by decide) (by decide) ⟨_, rfl⟩ (by decide)
  have hconflict : s.calls[1]? = some (racer "job-2" "asset-001",
      .returned (.ok (.conflict, .inr ErrorMessages.overlapConflict))) := by
    rw [hc]
    rfl
  refine ⟨s₁, s₂, s, hrace, hconflict, ?_⟩
  intro hall
  have hlate : s₁.calls[1]? = some (racer "job-2" "asset-001",
      .insert (newJob (racer "job-2" "asset-001"))) := by
    rw [hc₁]
    rfl
  obtain ⟨job, hjob, -⟩ := hall 1 _ _ (by decide) hlate (fun _ h => by cases h)
  rw [hconflict] at hjob
  cases hjob

end JobReplay
