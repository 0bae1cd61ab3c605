import JobScheduling.JobRepository

/-! # The MQTT side of the service

    `publish_dispatch`'s payload, and `_on_message`: the handler of
    `jobs/result`, which runs in paho's single network thread.  Like
    `create_job` it stands here twice: whole (`onMessage`) and cut at the
    statements between which other threads run — the read of the row and the
    guard (`receive`), the update with its commit, the re-read, the callback
    (`handlerStep`).  `onMessage_eq_steps` connects the two.

    An exception that leaves the handler ends paho's thread (`dead`): no
    later message is handled. -/

namespace JobBroker

open JobConstants JobClock JobPayload JobModels JobRepository

/-- What paho does with one `client.publish`: the broker gets the message, it
    is dropped with a return code nobody reads, or the call raises. -/
inductive PublishResult where
  | handed
  | dropped
  | raised (e : PyExc)
deriving DecidableEq

/-- The dispatch messages and the result callbacks, in order. -/
inductive Event where
  | dispatch (payload : Json) (result : PublishResult)
  | callback (updated : Job)

/-- The payload `publish_dispatch` sends for a job. -/
def dispatchPayload (job : Job) : Json :=
  .obj [(fieldJobId, .str job.id), (fieldAssetId, .str job.assetId),
    (fieldStartTime, .str job.startTime), (fieldEndTime, .str job.endTime),
    (fieldOperation, job.operation.toJson)]

/-- The message is a dispatch with the columns of the row. -/
structure Carries (r : Job) (payload : List (String × Json)) : Prop where
  jobId : dictGet payload "job_id" = .str r.id
  assetId : dictGet payload "asset_id" = .str r.assetId
  startTime : dictGet payload "start_time" = .str r.startTime
  endTime : dictGet payload "end_time" = .str r.endTime
  operation : ∃ text, r.operation = .text text
    ∧ dictGet payload "operation" = .str text

/-- The dispatch of a row that could be stored carries its columns. -/
theorem dispatchPayload_carries {r : Job} (h : r.operation.encodable = true) :
    ∃ payload, dispatchPayload r = .obj payload ∧ Carries r payload := by
  obtain ⟨text, htext⟩ := encodable_iff.mp h
  refine ⟨_, rfl, rfl, rfl, rfl, rfl, text, htext, ?_⟩
  rw [htext]
  rfl

/-! ## `_on_message` -/

/-- The four early returns, each with its own warning. -/
inductive Ignored where
  | malformed
  | missingField
  | unknownJob
  | invalidTransition
deriving DecidableEq, Repr

/-- What `_on_message` decides before it writes. -/
inductive Verdict where
  | ignored (why : Ignored)
  | raised (e : PyExc)
  | proceed (jobId newState errorMsg : Json)

/-- `_on_message` up to the guard, on the committed table. -/
def readMessage (T : Table) : Delivered → Verdict
  | .error .JSONDecodeError => .ignored .malformed
  | .error .UnicodeDecodeError => .ignored .malformed
  -- the `except` clause names two exceptions; any other one escapes
  | .error e => .raised e
  | .ok (.obj payload) =>
      let jobId := dictGet payload fieldJobId
      let newState := dictGet payload fieldState
      if !jobId.truthy || !newState.truthy then .ignored .missingField
      else
        match ((findByIdUnscoped noFaults jobId).onTable T).1 with
        | .error e => .raised e
        | .ok none => .ignored .unknownJob
        | .ok (some current) =>
            if !isValidTransition (.str current.state) newState then
              .ignored .invalidTransition
            else .proceed jobId newState (dictGet payload fieldErrorMessage)
  -- only a dict has `get`
  | .ok _ => .raised .AttributeError

/-- `_on_message` for a delivered payload, at the clock reading `now` of
    `update_state`. -/
def onMessage (T : Table) (msg : Delivered) (now : Datetime) :
    Except PyExc Unit × Table × List Event :=
  match readMessage T msg with
  | .ignored _ => (.ok (), T, [])
  | .raised e => (.error e, T, [])
  | .proceed jobId newState errorMsg =>
      let r := (updateState noFaults jobId newState errorMsg now).onTable T
      match r.1 with
      | .error e => (.error e, r.2, [])
      | .ok none => (.ok (), r.2, [])
      | .ok (some updated) => (.ok (), r.2, [.callback updated])

/-! ## The steps of the handler -/

/-- Where paho's thread is. -/
inductive HandlerPc where
  | idle
  | update (jobId newState errorMsg : Json) (now : Datetime)
  | reread (jobId : Json)
  | notify (updated : Job)
  | dead (e : PyExc)

/-- A delivered message up to the guard. -/
def receive (T : Table) (msg : Delivered) (now : Datetime) : HandlerPc :=
  match readMessage T msg with
  | .ignored _ => .idle
  | .raised e => .dead e
  | .proceed jobId newState errorMsg => .update jobId newState errorMsg now

/-- One step of the handler on the committed table; `none` when it waits for
    a message or its thread has ended. -/
def handlerStep (T : Table) :
    HandlerPc → Option (HandlerPc × Table × List Event)
  | .idle => none
  | .update jobId newState errorMsg now =>
      let r := (storeState noFaults jobId newState errorMsg now).onTable T
      match r.1 with
      | .error e => some (.dead e, r.2, [])
      | .ok () => some (.reread jobId, r.2, [])
  | .reread jobId =>
      match ((findByIdUnscoped noFaults jobId).onTable T).1 with
      | .error e => some (.dead e, T, [])
      | .ok none => some (.idle, T, [])
      | .ok (some updated) => some (.notify updated, T, [])
  | .notify updated => some (.idle, T, [.callback updated])
  | .dead _ => none

/-- A message that passes the guard names a row by a bindable id, and asks
    for an edge of the state machine out of that row's state. -/
theorem readMessage_proceed {T : Table} {msg : Delivered}
    {jobId newState errorMsg : Json}
    (h : readMessage T msg = .proceed jobId newState errorMsg) :
    ∃ payload id current a b, msg = .ok (.obj payload)
      ∧ jobId = dictGet payload fieldJobId
      ∧ newState = .str (JobState.value b)
      ∧ newState = dictGet payload fieldState
      ∧ errorMsg = dictGet payload fieldErrorMessage
      ∧ jobId.bindText = .ok (some id)
      ∧ sqlFindByIdUnscoped T (some id) = some current
      ∧ current.state = JobState.value a ∧ Allowed a b := by
  match msg, h with
  | .ok (.obj payload), h =>
      simp only [readMessage] at h
      split at h
      · cases h
      · rw [findByIdUnscoped_onTable] at h
        cases hb : (dictGet payload fieldJobId).bindText with
        | error e => rw [hb] at h; cases h
        | ok bound =>
            rw [hb] at h
            cases bound with
            | none => cases h
            | some id =>
                cases hf : sqlFindByIdUnscoped T (some id) with
                | none => simp [hf] at h
                | some current =>
                    simp only [hf] at h
                    split at h
                    · cases h
                    · rename_i hvalid
                      rw [Bool.not_eq_true', Bool.not_eq_false] at hvalid
                      obtain ⟨a, b, hcur, hnew, hab⟩ :=
                        isValidTransition_iff.mp hvalid
                      injection h with h₁ h₂ h₃
                      refine ⟨payload, id, current, a, b, rfl, h₁.symm, ?_,
                        h₂.symm, h₃.symm, ?_, hf, ?_, hab⟩
                      · rw [← h₂, hnew]
                      · rw [← h₁, hb]
                      · exact Json.str.inj hcur
  | .error .JSONDecodeError, h => cases h
  | .error .UnicodeDecodeError, h => cases h

/-- Run the handler from a point to its end, with nobody in between. -/
def runHandler : Nat → HandlerPc → Table →
    Option (Except PyExc Unit × Table × List Event)
  | _, .idle, T => some (.ok (), T, [])
  | _, .dead e, T => some (.error e, T, [])
  | 0, _, _ => none
  | n + 1, pc, T =>
      match handlerStep T pc with
      | none => none
      | some (pc', T', ev) =>
          (runHandler n pc' T').map (fun r => (r.1, r.2.1, ev ++ r.2.2))

/-- The whole `update_state`, for parameters that bind. -/
theorem updateState_onTable {T : Table} {jobId state errorMessage : Json}
    {id st : String} {err : Option String} (now : Datetime)
    (hid : jobId.bindText = .ok (some id))
    (hst : state.bindText = .ok (some st))
    (herr : errorMessage.bindText = .ok err) :
    (updateState noFaults jobId state errorMessage now).onTable T
      = (.ok (sqlFindByIdUnscoped (setState T id st err now.strftime) (some id)),
          setState T id st err now.strftime) := by
  rw [updateState, onTable_bind (run_storeState now hid hst herr),
    findByIdUnscoped_onTable, hid]

/-- A message whose steps run without interruption is `_on_message`. -/
theorem onMessage_eq_steps (T : Table) (msg : Delivered) (now : Datetime) :
    runHandler 3 (receive T msg now) T = some (onMessage T msg now) := by
  rw [onMessage, receive]
  cases hv : readMessage T msg with
  | ignored why => rfl
  | raised e => rfl
  | proceed jobId newState errorMsg =>
      obtain ⟨-, id, -, -, b, -, -, hnew, -, -, hid, -⟩ :=
        readMessage_proceed hv
      have hst : newState.bindText = .ok (some b.value) := by rw [hnew]; rfl
      cases herr : errorMsg.bindText with
      | error e =>
          have hrun : storeState noFaults jobId newState errorMsg now
              (Conn.clean T) = (.error e, ⟨T, some T⟩) :=
            run_storeState_error now hst herr
          have hwhole : updateState noFaults jobId newState errorMsg now
              (Conn.clean T) = (.error e, ⟨T, some T⟩) := run_bind_error hrun
          simp [runHandler, handlerStep, Sql.onTable, hrun, hwhole]
      | ok err =>
          have hrun := run_storeState (T := T) now hid hst herr
          have hstep : (storeState noFaults jobId newState errorMsg now).onTable T
              = (.ok (), setState T id b.value err now.strftime) := by
            rw [Sql.onTable, hrun]
            rfl
          have hwhole := updateState_onTable (T := T) now hid hst herr
          cases hf : sqlFindByIdUnscoped
              (setState T id b.value err now.strftime) (some id) with
          | none =>
              simp [runHandler, handlerStep, hstep, hwhole,
                findByIdUnscoped_onTable, hid, hf]
          | some updated =>
              simp [runHandler, handlerStep, hstep, hwhole,
                findByIdUnscoped_onTable, hid, hf]

end JobBroker
