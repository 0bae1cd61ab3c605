import JobScheduling.JobService
import Mathlib.Logic.Relation

/-! # The ledger of jobs — what the table is for

    Seen from outside, the table is a ledger with two operations: a job is
    admitted (`LedgerStep.insert`), and a job moves along an edge of the state
    machine (`LedgerStep.transition`).  Calls, threads, connections and
    messages do not occur here.

    The properties of the table are proved of the ledger: identity of rows,
    permitted rewrites, disjoint bookings, the quota.  `service_refines_ledger`
    connects the service to it: every run of the service is, on its table, a
    run of the ledger. -/

namespace JobLedger

open JobConstants JobPayload JobModels JobRepository JobBroker JobOrchestrator
open JobService KeyedTable Reservations Runs

/-! ## Rows -/

/-- The same job: no column differs but `state`, `error_message` and
    `updated_at`. -/
structure SameJob (r r' : Job) : Prop where
  id : r'.id = r.id
  userId : r'.userId = r.userId
  assetId : r'.assetId = r.assetId
  operation : r'.operation = r.operation
  startTime : r'.startTime = r.startTime
  endTime : r'.endTime = r.endTime
  idempotencyKey : r'.idempotencyKey = r.idempotencyKey
  createdAt : r'.createdAt = r.createdAt

theorem SameJob.refl (r : Job) : SameJob r r :=
  ⟨rfl, rfl, rfl, rfl, rfl, rfl, rfl, rfl⟩

theorem SameJob.trans {a b c : Job} (h₁ : SameJob a b) (h₂ : SameJob b c) :
    SameJob a c where
  id := h₂.id.trans h₁.id
  userId := h₂.userId.trans h₁.userId
  assetId := h₂.assetId.trans h₁.assetId
  operation := h₂.operation.trans h₁.operation
  startTime := h₂.startTime.trans h₁.startTime
  endTime := h₂.endTime.trans h₁.endTime
  idempotencyKey := h₂.idempotencyKey.trans h₁.idempotencyKey
  createdAt := h₂.createdAt.trans h₁.createdAt

/-- What `update_state` makes of a row is the same job. -/
theorem sameJob_setState (r : Job) (state : String) (err : Option String)
    (now : String) : SameJob r (r.setState state err now) :=
  ⟨rfl, rfl, rfl, rfl, rfl, rfl, rfl, rfl⟩

/-- The key of a job never changes. -/
theorem SameJob.key {a b : Job} (h : SameJob a b) : b.key = a.key := by
  rw [Job.key, Job.key, h.userId, h.idempotencyKey]

/-- The row of a job holds what its call asked for, at any time. -/
theorem Holds.sameJob {c : Call} {a b : Job} (h : Holds c a) (hsame : SameJob a b) :
    Holds c b where
  id := hsame.id.trans h.id
  userId := hsame.userId.trans h.userId
  idempotencyKey := hsame.idempotencyKey.trans h.idempotencyKey
  assetId := hsame.assetId.trans h.assetId
  operation := hsame.operation.trans h.operation
  startTime := hsame.startTime.trans h.startTime
  endTime := hsame.endTime.trans h.endTime
  createdAt := hsame.createdAt.trans h.createdAt

/-- A dispatch message reads no column that can change. -/
theorem SameJob.dispatchPayload {a b : Job} (h : SameJob a b) :
    dispatchPayload b = dispatchPayload a := by
  rw [JobBroker.dispatchPayload, JobBroker.dispatchPayload, h.id, h.assetId,
    h.startTime, h.endTime, h.operation]

/-- At most one move of a row: along an edge of the state machine. -/
def Moves (r r' : Job) : Prop :=
  r' = r ∨ ∃ (a b : JobState) (err : Option String) (now : String),
    r.state = a.value ∧ Allowed a b ∧ r' = r.setState b.value err now

theorem Moves.refl (r : Job) : Moves r r := Or.inl rfl

/-- A move keeps the job. -/
theorem Moves.sameJob {r r' : Job} (h : Moves r r') : SameJob r r' := by
  rcases h with rfl | ⟨a, b, err, now, -, -, rfl⟩
  · exact SameJob.refl _
  · exact sameJob_setState r b.value err now

/-- A stored state is active exactly when it is PENDING or RUNNING. -/
theorem active_iff {r : Job} {a : JobState} (h : r.state = a.value) :
    r.active = true ↔ a = .pending ∨ a = .running := by
  rw [Job.active, h]
  cases a <;> decide

/-- A row that can move is active. -/
theorem active_of_allowed {r : Job} {a b : JobState} (h : r.state = a.value)
    (hab : Allowed a b) : r.active = true :=
  (active_iff h).mpr (allowed_source hab)

/-! ## Looking rows up -/

/-- What is found under a key is a row with that key. -/
theorem sqlFindByIdempotency_some {T : Table} {userId key : String} {r : Job}
    (h : sqlFindByIdempotency T userId key = some r) :
    r ∈ T ∧ r.key = (userId, key) :=
  ⟨List.mem_of_find?_eq_some h, by simpa using List.find?_some h⟩

/-- Nothing is found under a key exactly when no row has it. -/
theorem sqlFindByIdempotency_none {T : Table} {userId key : String} :
    sqlFindByIdempotency T userId key = none
      ↔ ∀ r ∈ T, r.key ≠ (userId, key) := by
  simp [sqlFindByIdempotency, List.find?_eq_none]

/-- What is found under an id is the row with that id. -/
theorem sqlFindByIdUnscoped_some {T : Table} {id : String} {r : Job}
    (h : sqlFindByIdUnscoped T (some id) = some r) : r ∈ T ∧ r.id = id :=
  ⟨List.mem_of_find?_eq_some h, by simpa using List.find?_some h⟩

theorem sqlFindByIdUnscoped_of_mem {T : Table} (hT : (T.map Job.id).Nodup)
    {r : Job} (hr : r ∈ T) : sqlFindByIdUnscoped T (some r.id) = some r :=
  (find?_key hT).mpr ⟨hr, rfl⟩

/-- No constraint is violated exactly when both the id and the key are new. -/
theorem violates_eq_false {T : Table} {job : Job} :
    violates T job = false ↔ ∀ r ∈ T, r.id ≠ job.id ∧ r.key ≠ job.key := by
  simp [violates, List.any_eq_false]

theorem overlaps_def (r : Job) (a b : List Nat) :
    reading.Overlaps r a b
      ↔ collate r.startTime < b ∧ a < collate r.endTime := Iff.rfl

/-- The overlap query finds nothing exactly when every active row of the asset
    passes the interval test. -/
theorem sqlCheckOverlap_none {T : Table} {assetId endTime startTime : String} :
    sqlCheckOverlap T assetId endTime startTime = none
      ↔ ∀ r ∈ T, r.assetId = assetId → r.active = true →
          ¬ reading.Overlaps r (collate startTime) (collate endTime) := by
  rw [sqlCheckOverlap, List.find?_eq_none]
  constructor
  · rintro h r hr rfl hact ⟨hs, he⟩
    refine h r hr ?_
    have hs' : collate r.startTime < collate endTime := hs
    have he' : collate startTime < collate r.endTime := he
    simp [overlapRow, hact, hs', he']
  · intro h r hr hrow
    simp only [overlapRow, Bool.and_eq_true, beq_iff_eq,
      decide_eq_true_eq] at hrow
    obtain ⟨⟨⟨hasset, hact⟩, hs⟩, he⟩ := hrow
    exact h r hr hasset hact ⟨hs, he⟩

/-! ## The two operations -/

inductive LedgerStep (T : Table) : Table → Prop where
  | insert (job : Job) (admits : Admits T job) (state : job.state = statePending)
      (err : job.errorMessage = none) : LedgerStep T (T ++ [job])
  | transition (id : String) (a b : JobState) (err : Option String)
      (now : String) (source : ∀ r ∈ T, r.id = id → r.state = a.value)
      (edge : Allowed a b) : LedgerStep T (setState T id b.value err now)

/-- The ledgers some sequence of operations produces. -/
def Ledger (T : Table) : Prop := Relation.ReflTransGen LedgerStep [] T

/-- A property of the empty table that both operations keep holds of every
    ledger. -/
theorem Ledger.induction {I : Table → Prop} (h0 : I [])
    (hstep : ∀ T T', I T → LedgerStep T T' → I T') {T : Table} (h : Ledger T) :
    I T := by
  induction h with
  | refl => exact h0
  | tail _ hlast ih => exact hstep _ _ ih hlast

/-- A column `update_state` does not set is unchanged, as a whole. -/
theorem map_setState {κ : Type} {g : Job → κ}
    (hg : ∀ r st err now, g (Job.setState r st err now) = g r) (T : Table)
    (id st : String) (err : Option String) (now : String) :
    (setState T id st err now).map g = T.map g :=
  map_updateWhere (fun r => hg r st err now) T

/-- The lookup by id finds the same row as before, as updated. -/
theorem sqlFindByIdUnscoped_setState (T : Table) (id st : String)
    (err : Option String) (now id' : String) :
    sqlFindByIdUnscoped (setState T id st err now) (some id')
      = (sqlFindByIdUnscoped T (some id')).map
          (fun r => if r.id == id then r.setState st err now else r) :=
  find?_updateWhere (p := fun r : Job => r.id == id)
    (q := fun r : Job => decide (r.id = id'))
    (f := fun r : Job => r.setState st err now) (fun _ => rfl) T

/-- An update along an allowed transition moves the rows it matches. -/
theorem setState_moves {T : Table} {id : String} {a b : JobState}
    {err : Option String} {now : String}
    (source : ∀ r ∈ T, r.id = id → r.state = a.value) (edge : Allowed a b) :
    Evolves Moves T (setState T id b.value err now) := by
  refine Evolves.updateWhere Moves.refl ?_
  intro r hr hid
  have hstate : r.state = a.value := source r hr (by simpa using hid)
  exact Or.inr ⟨a, b, err, now, hstate, edge, rfl⟩

/-- No operation removes a row, and a row moves at most along one edge. -/
theorem LedgerStep.moves {T T' : Table} (h : LedgerStep T T') :
    Evolves Moves T T' := by
  cases h with
  | insert job admits state err =>
      exact Evolves.append Moves.refl T [job]
  | transition id a b err now source edge => exact setState_moves source edge

/-- Whatever happens to the table, every row stays the row of its job. -/
theorem LedgerStep.sameJobs {T T' : Table} (h : LedgerStep T T') :
    Evolves SameJob T T' :=
  h.moves.mono (fun _ _ => Moves.sameJob)

/-- Ids stay unique. -/
theorem LedgerStep.ids {T T' : Table} (h : LedgerStep T T')
    (hT : (T.map Job.id).Nodup) : (T'.map Job.id).Nodup := by
  cases h with
  | insert job admits state err =>
      exact nodup_map_insert hT
        (fun r hr => (violates_eq_false.mp admits.unique r hr).1)
  | transition id a b err now source edge =>
      rw [map_setState (fun r st err now => rfl)]
      exact hT

/-- Idempotency keys stay unique per user. -/
theorem LedgerStep.keys {T T' : Table} (h : LedgerStep T T')
    (hT : (T.map Job.key).Nodup) : (T'.map Job.key).Nodup := by
  cases h with
  | insert job admits state err =>
      exact nodup_map_insert hT
        (fun r hr => (violates_eq_false.mp admits.unique r hr).2)
  | transition id a b err now source edge =>
      rw [map_setState (fun r st err now => rfl)]
      exact hT

/-- Bookings of one asset that are both active stay disjoint. -/
theorem LedgerStep.compatible {T T' : Table} (h : LedgerStep T T')
    (hT : T.Pairwise reading.Compatible) : T'.Pairwise reading.Compatible := by
  cases h with
  | insert job admits state err =>
      exact compatible_admit reading hT (sqlCheckOverlap_none.mp admits.overlap)
  | transition id a b err now source edge =>
      refine compatible_release reading (fun r => rfl) (fun r => rfl) ?_ hT
      intro r hr hid _
      have hstate : r.state = a.value := source r hr (by simpa using hid)
      exact active_of_allowed hstate edge

/-- Every stored operation encodes. -/
theorem LedgerStep.encodable {T T' : Table} (h : LedgerStep T T')
    (hT : ∀ r ∈ T, r.operation.encodable = true) :
    ∀ r ∈ T', r.operation.encodable = true := by
  intro r' hr'
  cases h with
  | insert job admits state err =>
      rcases List.mem_append.mp hr' with hr | hr
      · exact hT r' hr
      · rw [List.mem_singleton.mp hr]
        exact admits.encodable
  | transition id a b err now source edge =>
      obtain ⟨r, hr, rfl⟩ := List.mem_map.mp hr'
      split
      · exact hT r hr
      · exact hT r hr

/-- Nobody gets more active jobs than the quota. -/
theorem LedgerStep.quota {T T' : Table} (h : LedgerStep T T')
    (hT : ∀ u, sqlCountActive T u ≤ maxActiveJobsPerUser) :
    ∀ u, sqlCountActive T' u ≤ maxActiveJobsPerUser := by
  intro u
  cases h with
  | insert job admits state err =>
      rw [sqlCountActive, List.countP_append, List.countP_singleton]
      have hT' := hT u
      rw [sqlCountActive] at hT'
      -- the count of the job's own user was below the quota
      by_cases hu : (job.userId == u && job.active) = true
      · rw [if_pos hu]
        rw [Bool.and_eq_true, beq_iff_eq] at hu
        have hlt := admits.quota
        rw [hu.1, sqlCountActive] at hlt
        omega
      · rw [if_neg hu]
        omega
  | transition id a b err now source edge =>
      -- a row that is active after the edge was active before it
      refine Nat.le_trans (countP_updateWhere_le ?_) (hT u)
      intro r hr hid hact
      have hstate : r.state = a.value := source r hr (by simpa using hid)
      have hact' : (r.userId == u
        && (r.setState b.value err now).active) = true := hact
      rw [Bool.and_eq_true] at hact'
      rw [hact'.1, active_of_allowed hstate edge]
      rfl

/-! ## The service refines the ledger -/

/-- What holds of a call's point, given the table. -/
def CallOk (cfg : Config) (c : Call) (T : Table) : CreatePc → Prop
  | .start => True
  | .validate => True
  | .insert job => job = newJob c
      ∧ JobValidation.validate cfg c.body c.validatedAt = none
  | .relookup job => job = newJob c
  | .publish job => job = newJob c ∧ ∃ r ∈ T, SameJob job r
  | .returned (.ok (.created, .inl job)) =>
      job.key = (c.userId, c.idempotencyKey) ∧ ∃ r ∈ T, SameJob job r
  | .returned _ => True

/-- What holds of the handler's point, given the table: the row it read is
    still there, in the state it read. -/
def HandlerOk (T : Table) : HandlerPc → Prop
  | .update jobId newState _ _ =>
      ∃ id a b r, jobId.bindText = .ok (some id)
        ∧ newState = .str (JobState.value b) ∧ Allowed a b
        ∧ r ∈ T ∧ r.id = id ∧ r.state = JobState.value a
  | .reread jobId => ∃ id r, jobId.bindText = .ok (some id) ∧ r ∈ T ∧ r.id = id
  | .notify updated => ∃ r ∈ T, SameJob updated r
  | .idle => True
  | .dead _ => True

/-- The invariant of the service. -/
structure ServiceOk (cfg : Config) (s : Service) : Prop where
  ids : (s.jobs.map Job.id).Nodup
  keys : (s.jobs.map Job.key).Nodup
  calls : ∀ p ∈ s.calls, CallOk cfg p.1 s.jobs p.2
  handler : HandlerOk s.jobs s.handler

theorem ServiceOk.call {cfg : Config} {s : Service} (hs : ServiceOk cfg s)
    {i : Nat} {c : Call} {pc : CreatePc} (here : s.calls[i]? = some (c, pc)) :
    CallOk cfg c s.jobs pc :=
  hs.calls (c, pc) (List.mem_of_getElem? here)

theorem serviceOk_empty (cfg : Config) : ServiceOk cfg Service.empty where
  ids := List.nodup_nil
  keys := List.nodup_nil
  calls := fun _ hp => absurd hp (List.not_mem_nil)
  handler := trivial

/-- A row `job` was committed as is still there after the table evolved. -/
theorem exists_sameJob {T T' : Table} (h : Evolves SameJob T T') {job : Job}
    (hjob : ∃ r ∈ T, SameJob job r) : ∃ r ∈ T', SameJob job r := by
  obtain ⟨r, hr, hsame⟩ := hjob
  obtain ⟨r', hr', hsame'⟩ := h.mem hr
  exact ⟨r', hr', hsame.trans hsame'⟩

/-- A call's facts survive everything the rest of the service does. -/
theorem CallOk.evolves {cfg : Config} {c : Call} {T T' : Table} {pc : CreatePc}
    (hT : Evolves SameJob T T') (h : CallOk cfg c T pc) : CallOk cfg c T' pc := by
  match pc, h with
  | .start, _ => exact trivial
  | .validate, _ => exact trivial
  | .insert job, h => exact h
  | .relookup job, h => exact h
  | .publish job, h => exact ⟨h.1, exists_sameJob hT h.2⟩
  | .returned (.ok (.created, .inl job)), h => exact ⟨h.1, exists_sameJob hT h.2⟩
  | .returned (.ok (.created, .inr message)), _ => exact trivial
  | .returned (.ok (.conflict, answer)), _ => exact trivial
  | .returned (.ok (.unprocessableEntity, answer)), _ => exact trivial
  | .returned (.error e), _ => exact trivial

/-- An admission does not disturb the handler. -/
theorem HandlerOk.append {T : Table} {pc : HandlerPc} (h : HandlerOk T pc)
    (new : Table) : HandlerOk (T ++ new) pc := by
  cases pc with
  | idle => exact trivial
  | dead e => exact trivial
  | update jobId newState errorMsg now =>
      obtain ⟨id, a, b, r, hid, hnew, hab, hr, hrow⟩ := h
      exact ⟨id, a, b, r, hid, hnew, hab, List.mem_append_left _ hr, hrow⟩
  | reread jobId =>
      obtain ⟨id, r, hid, hr, hrow⟩ := h
      exact ⟨id, r, hid, List.mem_append_left _ hr, hrow⟩
  | notify updated =>
      obtain ⟨r, hr, hsame⟩ := h
      exact ⟨r, List.mem_append_left _ hr, hsame⟩

/-- A lookup that returns a row of the table gives the facts of a 201. -/
theorem returnedOk_of_found {cfg : Config} {c : Call} {T : Table} {r : Job}
    (h : sqlFindByIdempotency T c.userId c.idempotencyKey = some r) :
    CallOk cfg c T (.returned (.ok (.created, .inl r))) := by
  obtain ⟨hr, hkey⟩ := sqlFindByIdempotency_some h
  exact ⟨hkey, r, hr, SameJob.refl r⟩

/-- A move of a call leaves the table alone or admits its job, and keeps its
    own facts. -/
theorem CreateMove.ledger {cfg : Config} {c : Call} {T T' : Table}
    {pc pc' : CreatePc} {ev : List Event} (h : CreateMove cfg c T pc pc' T' ev)
    (hc : CallOk cfg c T pc) :
    (T' = T ∨ (T' = T ++ [newJob c] ∧ LedgerStep T T')) ∧ CallOk cfg c T' pc' := by
  cases h with
  | replay existing found => exact ⟨Or.inl rfl, returnedOk_of_found found⟩
  | miss found => exact ⟨Or.inl rfl, trivial⟩
  | reject status message invalid =>
      refine ⟨Or.inl rfl, ?_⟩
      rw [JobValidation.validate_status invalid]
      exact trivial
  | accept valid => exact ⟨Or.inl rfl, rfl, valid⟩
  | maxActive job quota => exact ⟨Or.inl rfl, trivial⟩
  | overlap job quota found => exact ⟨Or.inl rfl, trivial⟩
  | unencodable job quota found lone => exact ⟨Or.inl rfl, trivial⟩
  | violation job quota found clash encodable => exact ⟨Or.inl rfl, hc.1⟩
  | created job admits =>
      obtain ⟨rfl, -⟩ := hc
      refine ⟨Or.inr ⟨rfl, .insert (newJob c) admits rfl rfl⟩, rfl, newJob c, ?_,
        SameJob.refl _⟩
      exact List.mem_append_right _ (List.mem_singleton_self _)
  | lateReplay job existing found =>
      have hjob : job = newJob c := hc
      rw [hjob] at found
      exact ⟨Or.inl rfl, returnedOk_of_found found⟩
  | lateMiss job found => exact ⟨Or.inl rfl, trivial⟩
  | publish job =>
      refine ⟨Or.inl rfl, ?_⟩
      obtain ⟨rfl, hrow⟩ := hc
      cases hp : c.publish with
      | handed => simp only [publishDispatch, hp]; exact ⟨rfl, hrow⟩
      | dropped => simp only [publishDispatch, hp]; exact ⟨rfl, hrow⟩
      | raised e => simp only [publishDispatch, hp]; exact trivial

/-- What the update of the handler writes: the one row of its id, along the
    edge its guard checked. -/
theorem store_ledger {T T' : Table} {jobId newState errorMsg : Json}
    {now : JobClock.Datetime} (hids : (T.map Job.id).Nodup)
    (hok : HandlerOk T (.update jobId newState errorMsg now))
    (h : (storeState noFaults jobId newState errorMsg now).onTable T
      = (.ok (), T')) :
    LedgerStep T T' ∧ ∃ id st err, jobId.bindText = .ok (some id)
      ∧ newState.bindText = .ok (some st) ∧ errorMsg.bindText = .ok err
      ∧ T' = setState T id st err now.strftime := by
  obtain ⟨id, a, b, r, hid, hnew, hab, hr, hrid, hstate⟩ := hok
  have hst : newState.bindText = .ok (some b.value) := by rw [hnew]; rfl
  cases herr : errorMsg.bindText with
  | error e =>
      rw [Sql.onTable, run_storeState_error now hst herr] at h
      cases (congrArg Prod.fst h)
  | ok err =>
      rw [Sql.onTable, run_storeState now hid hst herr] at h
      have hT' : setState T id b.value err now.strftime = T' := congrArg Prod.snd h
      rw [← hT']
      refine ⟨.transition id a b err now.strftime ?_ hab, id, b.value, err, hid,
        hst, rfl, rfl⟩
      intro r' hr' hid'
      -- ids are unique, so the row written is the row that was read
      rw [List.inj_on_of_nodup_map hids hr' hr (hid'.trans hrid.symm), hstate]

/-- An update that raises has committed nothing. -/
theorem store_raised {T T' : Table} {jobId newState errorMsg : Json}
    {now : JobClock.Datetime} {e : PyExc}
    (hok : HandlerOk T (.update jobId newState errorMsg now))
    (h : (storeState noFaults jobId newState errorMsg now).onTable T
      = (.error e, T')) : T' = T ∧ errorMsg.bindText = .error e := by
  obtain ⟨id, a, b, r, hid, hnew, hab, hr, hrid, hstate⟩ := hok
  have hst : newState.bindText = .ok (some b.value) := by rw [hnew]; rfl
  cases herr : errorMsg.bindText with
  | ok err =>
      rw [Sql.onTable, run_storeState now hid hst herr] at h
      cases (congrArg Prod.fst h)
  | error e' =>
      rw [Sql.onTable, run_storeState_error now hst herr] at h
      have he : Except.error e' = Except.error e := congrArg Prod.fst h
      exact ⟨(congrArg Prod.snd h).symm, by rw [Except.error.inj he]⟩

/-- A move of the handler leaves the table alone or is a transition, and keeps
    the handler's facts. -/
theorem HandlerMove.ledger {T T' : Table} {pc pc' : HandlerPc}
    {ev : List Event} (h : HandlerMove T pc pc' T' ev)
    (hids : (T.map Job.id).Nodup) (hok : HandlerOk T pc) :
    (T' = T ∨ LedgerStep T T') ∧ HandlerOk T' pc' := by
  cases h with
  | stored jobId newState errorMsg now T' stored =>
      obtain ⟨hstep, id, st, err, hid, -, -, -⟩ := store_ledger hids hok stored
      refine ⟨Or.inr hstep, ?_⟩
      obtain ⟨id', a, b, r, hid', -, -, hr, hrid, -⟩ := hok
      obtain ⟨r', hr', hsame⟩ := hstep.sameJobs.mem hr
      exact ⟨id', r', hid', hr', hsame.id.trans hrid⟩
  | storeRaised jobId newState errorMsg now e T' stored =>
      exact ⟨Or.inl (store_raised hok stored).1, trivial⟩
  | rereadRaised jobId e bound => exact ⟨Or.inl rfl, trivial⟩
  | gone jobId id bound found => exact ⟨Or.inl rfl, trivial⟩
  | reread jobId id updated bound found =>
      refine ⟨Or.inl rfl, updated, ?_, SameJob.refl _⟩
      cases id with
      | none => cases found
      | some id => exact (sqlFindByIdUnscoped_some found).1
  | notify updated => exact ⟨Or.inl rfl, trivial⟩

/-- A column `update_state` does not set is unchanged by a move of the
    handler, as a whole. -/
theorem HandlerMove.column {κ : Type} {g : Job → κ}
    (hg : ∀ r st err now, g (Job.setState r st err now) = g r) {T T' : Table}
    {pc pc' : HandlerPc} {ev : List Event} (h : HandlerMove T pc pc' T' ev)
    (hids : (T.map Job.id).Nodup) (hok : HandlerOk T pc) :
    T'.map g = T.map g := by
  cases h with
  | stored jobId newState errorMsg now T' stored =>
      obtain ⟨-, id, st, err, -, -, -, rfl⟩ := store_ledger hids hok stored
      exact map_setState hg T id st err now.strftime
  | storeRaised jobId newState errorMsg now e T' stored =>
      rw [(store_raised hok stored).1]
  | _ => rfl

/-- A delivered message that passes the guard has read a row of the table. -/
theorem handlerOk_receive (T : Table) (msg : Delivered)
    (now : JobClock.Datetime) : HandlerOk T (receive T msg now) := by
  rw [receive]
  cases hv : readMessage T msg with
  | ignored why => exact trivial
  | raised e => exact trivial
  | proceed jobId newState errorMsg =>
      obtain ⟨-, id, current, a, b, -, -, hnew, -, -, hid, hf, hstate, hab⟩ :=
        readMessage_proceed hv
      obtain ⟨hcur, hcurid⟩ := sqlFindByIdUnscoped_some hf
      exact ⟨id, a, b, current, hid, hnew, hab, hcur, hcurid, hstate⟩

/-- **One step of the service** leaves the table alone or is one operation of
    the ledger, and keeps the invariant. -/
theorem step_refines {cfg : Config} {s s' : Service} {l : Label}
    (hs : ServiceOk cfg s) (h : step cfg s l = some s') :
    (s'.jobs = s.jobs ∨ LedgerStep s.jobs s'.jobs) ∧ ServiceOk cfg s' := by
  cases step_move h with
  | submit c =>
      refine ⟨Or.inl rfl, hs.ids, hs.keys, ?_, hs.handler⟩
      intro p hp
      rcases List.mem_append.mp hp with hold | hnew
      · exact hs.calls p hold
      · rw [List.mem_singleton.mp hnew]
        exact trivial
  | call i c pc pc' T' ev here move =>
      obtain ⟨htab, hpc'⟩ := CreateMove.ledger move (hs.call here)
      rcases htab with rfl | ⟨happ, hstep⟩
      · refine ⟨Or.inl rfl, hs.ids, hs.keys, ?_, hs.handler⟩
        intro p hp
        rcases List.mem_or_eq_of_mem_set hp with hold | hnew
        · exact hs.calls p hold
        · rw [hnew]
          exact hpc'
      · refine ⟨Or.inr hstep, hstep.ids hs.ids, hstep.keys hs.keys, ?_, ?_⟩
        · intro p hp
          rcases List.mem_or_eq_of_mem_set hp with hold | hnew
          · exact (hs.calls p hold).evolves hstep.sameJobs
          · rw [hnew]
            exact hpc'
        · show HandlerOk T' s.handler
          rw [happ]
          exact hs.handler.append _
  | deliver msg now idle =>
      exact ⟨Or.inl rfl, hs.ids, hs.keys, hs.calls,
        handlerOk_receive s.jobs msg now⟩
  | handler pc' T' ev move =>
      obtain ⟨htab, hpc'⟩ := HandlerMove.ledger move hs.ids hs.handler
      rcases htab with rfl | hstep
      · exact ⟨Or.inl rfl, hs.ids, hs.keys, hs.calls, hpc'⟩
      · exact ⟨Or.inr hstep, hstep.ids hs.ids, hstep.keys hs.keys,
          fun p hp => (hs.calls p hp).evolves hstep.sameJobs, hpc'⟩

/-- **Every step of the service keeps it.** -/
theorem serviceOk_step {cfg : Config} {s s' : Service} {l : Label}
    (hs : ServiceOk cfg s) (h : step cfg s l = some s') : ServiceOk cfg s' :=
  (step_refines hs h).2

/-- Every run from startup keeps the invariant. -/
theorem serviceOk_run {cfg : Config} {ls : List Label} {s : Service}
    (h : exec (step cfg) Service.empty ls = some s) : ServiceOk cfg s :=
  exec_invariant (fun _ _ _ hs hst => serviceOk_step hs hst)
    (serviceOk_empty cfg) h

/-- The invariant holds when calls are waiting on a reachable table. -/
theorem serviceOk_waiting {cfg : Config} {T : Table} (hT : ReachableTable cfg T)
    (cs : List Call) : ServiceOk cfg (Service.waiting T cs) := by
  obtain ⟨ls, s, h, rfl⟩ := hT
  have hok := serviceOk_run h
  refine ⟨hok.ids, hok.keys, ?_, trivial⟩
  intro p hp
  obtain ⟨c, -, rfl⟩ := List.mem_map.mp hp
  exact trivial

/-- **Refinement**: on its table, every run of the service is a run of the
    ledger. -/
theorem service_refines_ledger {cfg : Config} {ls : List Label} {s : Service}
    (h : exec (step cfg) Service.empty ls = some s) : Ledger s.jobs := by
  have hinv : ServiceOk cfg s ∧ Ledger s.jobs := by
    refine exec_invariant (I := fun t => ServiceOk cfg t ∧ Ledger t.jobs) ?_
      ⟨serviceOk_empty cfg, Relation.ReflTransGen.refl⟩ h
    rintro t l t' ⟨hok, hled⟩ hst
    obtain ⟨htab, hok'⟩ := step_refines hok hst
    refine ⟨hok', ?_⟩
    rcases htab with heq | hstep
    · rw [heq]
      exact hled
    · exact Relation.ReflTransGen.tail hled hstep
  exact hinv.2

/-- Along every run the rows of the table stay, and stay the same jobs. -/
theorem jobs_evolve {cfg : Config} {ls : List Label} {s s' : Service}
    (hs : ServiceOk cfg s) (h : exec (step cfg) s ls = some s') :
    Evolves SameJob s.jobs s'.jobs := by
  refine exec_related (I := ServiceOk cfg)
    (R := fun t t' => Evolves SameJob t.jobs t'.jobs) (fun t => ?_) ?_ ?_ ?_ hs h
  · exact Evolves.refl SameJob.refl t.jobs
  · intro t u v htu huv
    exact htu.trans (fun _ _ _ h₁ h₂ => h₁.trans h₂) huv
  · exact fun _ _ _ hok hst => serviceOk_step hok hst
  · intro t l t' hok hst
    rcases (step_refines hok hst).1 with heq | hstep
    · rw [heq]
      exact Evolves.refl SameJob.refl t.jobs
    · exact hstep.sameJobs

end JobLedger
