import JobScheduling.JobBroker
import JobScheduling.JobValidation

/-! # The job creation lifecycle

    `JobOrchestrator.create_job` twice: as the source reads, one function from
    the committed table to the answer, the table and the published dispatches
    (`createJob`); and cut at the points where other threads can come in
    between (`CreatePc`, `createStep`): key lookup, validation, insert
    transaction, key lookup after a rolled-back one, publish.

    `createJob_eq_steps` connects the two: a call whose steps run without
    interruption is `createJob`. -/

namespace JobOrchestrator

open JobConstants JobClock JobPayload JobModels JobRepository JobBroker
open JobValidation

/-- One `create_job` call: its arguments, and every reading it will take from
    the clock, the uuid generator and the MQTT client. -/
structure Call where
  body : JobCreate
  userId : String
  idempotencyKey : String
  validatedAt : Datetime
  createdAt : Datetime
  uuid : String
  publish : PublishResult
deriving DecidableEq

/-- `tuple[int, dict | str]`, or an exception. -/
abbrev CreateResult := Except PyExc (HTTPStatus × (Job ⊕ String))

/-- The job dict of a call. -/
def newJob (c : Call) : Job where
  id := c.uuid
  userId := c.userId
  assetId := c.body.assetId
  operation := c.body.operation
  startTime := c.body.startTime.strftime
  endTime := c.body.endTime.strftime
  state := statePending
  errorMessage := none
  idempotencyKey := c.idempotencyKey
  createdAt := c.createdAt.strftime
  updatedAt := c.createdAt.strftime

/-- The job is the one the call asked for: its id, its user and key, the four
    fields of its body, and the reading of its clock. -/
structure Holds (c : Call) (job : Job) : Prop where
  id : job.id = c.uuid
  userId : job.userId = c.userId
  idempotencyKey : job.idempotencyKey = c.idempotencyKey
  assetId : job.assetId = c.body.assetId
  operation : job.operation = c.body.operation
  startTime : job.startTime = c.body.startTime.strftime
  endTime : job.endTime = c.body.endTime.strftime
  createdAt : job.createdAt = c.createdAt.strftime

/-- The job dict of a call is the one the call asked for. -/
theorem newJob_holds (c : Call) : Holds c (newJob c) :=
  ⟨rfl, rfl, rfl, rfl, rfl, rfl, rfl, rfl⟩

/-- `publish_dispatch`, then the answer of `create_job`: the return code is
    not looked at, an exception escapes. -/
def publishDispatch (c : Call) (job : Job) : CreateResult × List Event :=
  match c.publish with
  | .raised e => (.error e, [.dispatch (dispatchPayload job) c.publish])
  | _ => (.ok (.created, .inl job), [.dispatch (dispatchPayload job) c.publish])

/-- Whatever becomes of it, exactly the dispatch of the job is published. -/
theorem publishDispatch_events (c : Call) (job : Job) :
    (publishDispatch c job).2 = [.dispatch (dispatchPayload job) c.publish] := by
  rw [publishDispatch]
  cases c.publish with
  | handed => rfl
  | dropped => rfl
  | raised e => rfl

/-- The answer of `create_job` to the outcome of `insert_if_no_overlap`. -/
def answer (c : Call) :
    Except PyExc InsertOutcome → CreateResult × List Event
  | .error e => (.error e, [])
  | .ok .overlap => (.ok (.conflict, .inr ErrorMessages.overlapConflict), [])
  | .ok .maxActive =>
      (.ok (.unprocessableEntity, .inr ErrorMessages.maxActiveJobs), [])
  | .ok (.idempotent existing) => (.ok (.created, .inl existing), [])
  | .ok (.created job) => publishDispatch c job

/-- `create_job`, on the committed table. -/
def createJob (cfg : Config) (c : Call) (T : Table) :
    CreateResult × Table × List Event :=
  match sqlFindByIdempotency T c.userId c.idempotencyKey with
  | some existing => (.ok (.created, .inl existing), T, [])
  | none =>
      match validate cfg c.body c.validatedAt with
      | some (status, message) => (.ok (status, .inr message), T, [])
      | none =>
          let r := (insertIfNoOverlap noFaults (newJob c)
            maxActiveJobsPerUser).onTable T
          ((answer c r.1).1, r.2, (answer c r.1).2)

/-- A whole call whose key is unused and whose body is valid does what the
    checks of its insert transaction say. -/
theorem createJob_checks {cfg : Config} {c : Call} {T : Table}
    (hmiss : sqlFindByIdempotency T c.userId c.idempotencyKey = none)
    (hvalid : JobValidation.validate cfg c.body c.validatedAt = none) :
    createJob cfg c T
      = if maxActiveJobsPerUser ≤ sqlCountActive T (newJob c).userId then
          (.ok (.unprocessableEntity, .inr ErrorMessages.maxActiveJobs), T, [])
        else if (sqlCheckOverlap T (newJob c).assetId (newJob c).endTime
            (newJob c).startTime).isSome then
          (.ok (.conflict, .inr ErrorMessages.overlapConflict), T, [])
        else if c.body.operation.encodable = false then
          (.error .UnicodeEncodeError, T, [])
        else if violates T (newJob c) then (.error .IntegrityError, T, [])
        else ((publishDispatch c (newJob c)).1, T ++ [newJob c],
          (publishDispatch c (newJob c)).2) := by
  have hpos : 0 < maxActiveJobsPerUser := by decide
  have hkey : sqlFindByIdempotency T (newJob c).userId
      (newJob c).idempotencyKey = none := hmiss
  have hins := insertIfNoOverlap_onTable T (newJob c) maxActiveJobsPerUser
  have hop : (newJob c).operation = c.body.operation := rfl
  rw [hkey, hop] at hins
  simp only [createJob, hmiss, hvalid, hins, and_iff_right hpos]
  split_ifs
  · rfl
  · rfl
  · rfl
  · rfl
  · rfl

/-! ## The steps of a call -/

/-- Where a call is. -/
inductive CreatePc where
  | start
  | validate
  | insert (job : Job)
  | relookup (job : Job)
  | publish (job : Job)
  | returned (result : CreateResult)
deriving DecidableEq

/-- A call that has returned a job, whether created or replayed. -/
def accepted (job : Job) : CreatePc := .returned (.ok (.created, .inl job))

/-- Two such points with one answer are about one job. -/
theorem accepted_inj {a b : Job} (h : accepted a = accepted b) : a = b := by
  injection h with h
  injection h with h
  exact Sum.inl.inj (Prod.mk.inj h).2

/-- How a call goes on after its insert transaction. -/
def afterInsert (job : Job) : Except PyExc TxnOutcome → CreatePc
  | .error e => .returned (.error e)
  | .ok .overlap =>
      .returned (.ok (.conflict, .inr ErrorMessages.overlapConflict))
  | .ok .maxActive =>
      .returned (.ok (.unprocessableEntity, .inr ErrorMessages.maxActiveJobs))
  | .ok .integrityError => .relookup job
  | .ok .created => .publish job

/-- One step of a call on the committed table; `none` once it has returned. -/
def createStep (cfg : Config) (c : Call) (T : Table) :
    CreatePc → Option (CreatePc × Table × List Event)
  | .start =>
      match sqlFindByIdempotency T c.userId c.idempotencyKey with
      | some existing => some (.returned (.ok (.created, .inl existing)), T, [])
      | none => some (.validate, T, [])
  | .validate =>
      match JobValidation.validate cfg c.body c.validatedAt with
      | some (status, message) =>
          some (.returned (.ok (status, .inr message)), T, [])
      | none => some (.insert (newJob c), T, [])
  -- BEGIN IMMEDIATE to commit or rollback: nobody else writes in between
  | .insert job =>
      let r := (insertTransaction noFaults job maxActiveJobsPerUser).onTable T
      some (afterInsert job r.1, r.2, [])
  | .relookup job =>
      match sqlFindByIdempotency T job.userId job.idempotencyKey with
      | some existing => some (.returned (.ok (.created, .inl existing)), T, [])
      | none => some (.returned (.error .IntegrityError), T, [])
  | .publish job =>
      some (.returned (publishDispatch c job).1, T, (publishDispatch c job).2)
  | .returned _ => none

/-- Run a call from a point to its return, with nobody in between. -/
def runToReturn (cfg : Config) (c : Call) :
    Nat → CreatePc → Table → Option (CreateResult × Table × List Event)
  | _, .returned result, T => some (result, T, [])
  | 0, _, _ => none
  | n + 1, pc, T =>
      match createStep cfg c T pc with
      | none => none
      | some (pc', T', ev) =>
          (runToReturn cfg c n pc' T').map
            (fun r => (r.1, r.2.1, ev ++ r.2.2))

/-- A call whose steps run without interruption is `create_job`. -/
theorem createJob_eq_steps (cfg : Config) (c : Call) (T : Table) :
    runToReturn cfg c 4 .start T = some (createJob cfg c T) := by
  rw [createJob]
  cases hf : sqlFindByIdempotency T c.userId c.idempotencyKey with
  | some existing => simp [runToReturn, createStep, hf]
  | none =>
      cases hv : JobValidation.validate cfg c.body c.validatedAt with
      | some status => simp [runToReturn, createStep, hf, hv]
      | none =>
          have hr := insertTransaction_onTable T (newJob c) maxActiveJobsPerUser
          have hw := insertIfNoOverlap_onTable T (newJob c) maxActiveJobsPerUser
          split_ifs at hr hw with hq ho henc hviol
          · simp [runToReturn, createStep, hf, hv, hr, hw, afterInsert, answer]
          · simp [runToReturn, createStep, hf, hv, hr, hw, afterInsert, answer]
          · simp [runToReturn, createStep, hf, hv, hr, hw, afterInsert, answer]
          · -- the key is looked up again, with the same empty result
            have hkey : sqlFindByIdempotency T (newJob c).userId
                (newJob c).idempotencyKey = none := hf
            simp [runToReturn, createStep, hf, hv, hr, hw, hkey, afterInsert,
              answer]
          · simp [runToReturn, createStep, hf, hv, hr, hw, afterInsert, answer]

end JobOrchestrator
