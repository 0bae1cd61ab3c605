import JobScheduling.Runs
import JobScheduling.JobOrchestrator

/-! # The service under any interleaving

    The shared state of the running service: the committed table, every
    `create_job` call at its point, paho's single handler thread, and the log
    of dispatches and callbacks.  A label chooses who moves: a new call
    arrives, a call takes its next step, a message is delivered to the idle
    handler, the handler takes its next step.  A run is any list of labels.

    `CreateMove` and `HandlerMove` say once what one step can do; every
    invariant is derived from them. -/

namespace JobService

open JobConstants JobClock JobPayload JobModels JobRepository JobBroker
open JobOrchestrator Runs

structure Service where
  jobs : Table
  calls : List (Call × CreatePc)
  handler : HandlerPc
  log : List Event

/-- The service after startup: an empty table, nothing in progress. -/
def Service.empty : Service := ⟨[], [], .idle, []⟩

/-- Calls waiting to be run on a table, with the handler idle. -/
def Service.waiting (T : Table) (cs : List Call) : Service :=
  ⟨T, cs.map (fun c => (c, .start)), .idle, []⟩

/-- The waiting calls are the given ones. -/
theorem waiting_calls (T : Table) (cs : List Call) :
    (Service.waiting T cs).calls.map Prod.fst = cs := by
  show (cs.map (fun c => (c, CreatePc.start))).map Prod.fst = cs
  rw [List.map_map]
  exact List.map_id' cs

/-- A waiting call has not moved. -/
theorem waiting_start {T : Table} {cs : List Call} {i : Nat} {c : Call}
    {pc : CreatePc} (h : (Service.waiting T cs).calls[i]? = some (c, pc)) :
    cs[i]? = some c ∧ pc = .start := by
  have h' : (cs.map (fun c => (c, CreatePc.start)))[i]? = some (c, pc) := h
  rw [List.getElem?_map, Option.map_eq_some_iff] at h'
  obtain ⟨c', hc', heq⟩ := h'
  obtain ⟨rfl, rfl⟩ := Prod.mk.inj heq
  exact ⟨hc', rfl⟩

inductive Label where
  | submit (c : Call)
  | call (i : Nat)
  | deliver (msg : Delivered) (now : Datetime)
  | handler

/-- One step of the service; `none` where the label is not enabled. -/
def step (cfg : Config) (s : Service) : Label → Option Service
  | .submit c => some { s with calls := s.calls ++ [(c, .start)] }
  | .call i =>
      match s.calls[i]? with
      | none => none
      | some (c, pc) =>
          match createStep cfg c s.jobs pc with
          | none => none
          | some (pc', T', ev) =>
              some { s with
                jobs := T'
                calls := s.calls.set i (c, pc')
                log := s.log ++ ev }
  | .deliver msg now =>
      match s.handler with
      | .idle => some { s with handler := receive s.jobs msg now }
      | _ => none
  | .handler =>
      match handlerStep s.jobs s.handler with
      | none => none
      | some (pc', T', ev) =>
          some { s with
            jobs := T'
            handler := pc'
            log := s.log ++ ev }

/-- A table some run of the service from its startup produces. -/
def ReachableTable (cfg : Config) (T : Table) : Prop :=
  ∃ ls s, exec (step cfg) Service.empty ls = some s ∧ s.jobs = T

/-! ## What one step of a call can do -/

/-- The row passes the three checks of the insert transaction, and can be
    bound. -/
structure Admits (T : Table) (job : Job) : Prop where
  quota : sqlCountActive T job.userId < maxActiveJobsPerUser
  overlap : sqlCheckOverlap T job.assetId job.endTime job.startTime = none
  encodable : job.operation.encodable = true
  unique : violates T job = false

/-- A call whose row passes the checks creates and publishes it. -/
theorem createJob_admits {cfg : Config} {c : Call} {T : Table}
    (hmiss : sqlFindByIdempotency T c.userId c.idempotencyKey = none)
    (hvalid : JobValidation.validate cfg c.body c.validatedAt = none)
    (h : Admits T (newJob c)) :
    createJob cfg c T = ((publishDispatch c (newJob c)).1, T ++ [newJob c],
      (publishDispatch c (newJob c)).2) := by
  have hfree : ¬ violates T (newJob c) = true := by
    rw [h.unique]
    exact Bool.false_ne_true
  have hbound : ¬ c.body.operation.encodable = false :=
    (Bool.not_eq_false _).mpr h.encodable
  rw [createJob_checks hmiss hvalid, if_neg (Nat.not_le_of_lt h.quota),
    if_neg (Option.not_isSome_iff_eq_none.mpr h.overlap), if_neg hbound,
    if_neg hfree]

/-- The moves of one `create_job` call on a table: from a point to a point,
    with the table and the events after it. -/
inductive CreateMove (cfg : Config) (c : Call) (T : Table) :
    CreatePc → CreatePc → Table → List Event → Prop where
  | replay (existing : Job)
      (found : sqlFindByIdempotency T c.userId c.idempotencyKey = some existing) :
      CreateMove cfg c T .start (.returned (.ok (.created, .inl existing))) T []
  | miss (found : sqlFindByIdempotency T c.userId c.idempotencyKey = none) :
      CreateMove cfg c T .start .validate T []
  | reject (status : HTTPStatus) (message : String)
      (invalid : JobValidation.validate cfg c.body c.validatedAt
        = some (status, message)) :
      CreateMove cfg c T .validate (.returned (.ok (status, .inr message))) T []
  | accept (valid : JobValidation.validate cfg c.body c.validatedAt = none) :
      CreateMove cfg c T .validate (.insert (newJob c)) T []
  | maxActive (job : Job)
      (quota : maxActiveJobsPerUser ≤ sqlCountActive T job.userId) :
      CreateMove cfg c T (.insert job)
        (.returned (.ok (.unprocessableEntity, .inr ErrorMessages.maxActiveJobs)))
        T []
  | overlap (job : Job)
      (quota : sqlCountActive T job.userId < maxActiveJobsPerUser)
      (found : (sqlCheckOverlap T job.assetId job.endTime
        job.startTime).isSome = true) :
      CreateMove cfg c T (.insert job)
        (.returned (.ok (.conflict, .inr ErrorMessages.overlapConflict))) T []
  | unencodable (job : Job)
      (quota : sqlCountActive T job.userId < maxActiveJobsPerUser)
      (found : sqlCheckOverlap T job.assetId job.endTime job.startTime = none)
      (lone : job.operation.encodable = false) :
      CreateMove cfg c T (.insert job) (.returned (.error .UnicodeEncodeError)) T []
  | violation (job : Job)
      (quota : sqlCountActive T job.userId < maxActiveJobsPerUser)
      (found : sqlCheckOverlap T job.assetId job.endTime job.startTime = none)
      (clash : violates T job = true) (encodable : job.operation.encodable = true) :
      CreateMove cfg c T (.insert job) (.relookup job) T []
  | created (job : Job) (admits : Admits T job) :
      CreateMove cfg c T (.insert job) (.publish job) (T ++ [job]) []
  | lateReplay (job existing : Job)
      (found : sqlFindByIdempotency T job.userId job.idempotencyKey
        = some existing) :
      CreateMove cfg c T (.relookup job)
        (.returned (.ok (.created, .inl existing))) T []
  | lateMiss (job : Job)
      (found : sqlFindByIdempotency T job.userId job.idempotencyKey = none) :
      CreateMove cfg c T (.relookup job) (.returned (.error .IntegrityError)) T []
  | publish (job : Job) :
      CreateMove cfg c T (.publish job) (.returned (publishDispatch c job).1) T
        (publishDispatch c job).2

/-- Only an insert transaction that passes its checks writes, and it leads to
    the publish. -/
theorem CreateMove.admits {cfg : Config} {c : Call} {T T' : Table}
    {pc pc' : CreatePc} {ev : List Event} (h : CreateMove cfg c T pc pc' T' ev)
    (hT : T' ≠ T) : ∃ job, pc = .insert job ∧ pc' = .publish job
      ∧ T' = T ++ [job] ∧ Admits T job := by
  cases h with
  | created job admits => exact ⟨job, rfl, rfl, rfl, admits⟩
  | _ => exact absurd rfl hT

/-- The insert transaction of a call, as a move. -/
theorem insert_move (cfg : Config) (c : Call) (T : Table) (job : Job) :
    CreateMove cfg c T (.insert job)
      (afterInsert job
        ((insertTransaction noFaults job maxActiveJobsPerUser).onTable T).1)
      ((insertTransaction noFaults job maxActiveJobsPerUser).onTable T).2
      [] := by
  have hpos : 0 < maxActiveJobsPerUser := by decide
  have hr := insertTransaction_onTable T job maxActiveJobsPerUser
  split_ifs at hr with hq ho henc hv
  · rw [hr]
    exact .maxActive job hq.2
  · rw [hr]
    exact .overlap job (Nat.lt_of_not_le (fun h => hq ⟨hpos, h⟩)) ho
  · rw [hr]
    exact .unencodable job (Nat.lt_of_not_le (fun h => hq ⟨hpos, h⟩))
      (Option.not_isSome_iff_eq_none.mp ho) henc
  · rw [hr]
    exact .violation job (Nat.lt_of_not_le (fun h => hq ⟨hpos, h⟩))
      (Option.not_isSome_iff_eq_none.mp ho) hv
      ((Bool.not_eq_false _).mp henc)
  · rw [hr]
    exact .created job ⟨Nat.lt_of_not_le (fun h => hq ⟨hpos, h⟩),
      Option.not_isSome_iff_eq_none.mp ho, (Bool.not_eq_false _).mp henc,
      (Bool.not_eq_true _).mp hv⟩

/-- Every step of a call is one of the moves. -/
theorem createStep_move {cfg : Config} {c : Call} {T T' : Table}
    {pc pc' : CreatePc} {ev : List Event}
    (h : createStep cfg c T pc = some (pc', T', ev)) :
    CreateMove cfg c T pc pc' T' ev := by
  cases pc with
  | start =>
      cases hf : sqlFindByIdempotency T c.userId c.idempotencyKey with
      | some existing =>
          simp only [createStep, hf, Option.some.injEq, Prod.mk.injEq] at h
          obtain ⟨rfl, rfl, rfl⟩ := h
          exact .replay existing hf
      | none =>
          simp only [createStep, hf, Option.some.injEq, Prod.mk.injEq] at h
          obtain ⟨rfl, rfl, rfl⟩ := h
          exact .miss hf
  | validate =>
      cases hv : JobValidation.validate cfg c.body c.validatedAt with
      | some answer =>
          simp only [createStep, hv, Option.some.injEq, Prod.mk.injEq] at h
          obtain ⟨rfl, rfl, rfl⟩ := h
          exact .reject answer.1 answer.2 hv
      | none =>
          simp only [createStep, hv, Option.some.injEq, Prod.mk.injEq] at h
          obtain ⟨rfl, rfl, rfl⟩ := h
          exact .accept hv
  | insert job =>
      simp only [createStep, Option.some.injEq, Prod.mk.injEq] at h
      obtain ⟨rfl, rfl, rfl⟩ := h
      exact insert_move cfg c T job
  | relookup job =>
      cases hf : sqlFindByIdempotency T job.userId job.idempotencyKey with
      | some existing =>
          simp only [createStep, hf, Option.some.injEq, Prod.mk.injEq] at h
          obtain ⟨rfl, rfl, rfl⟩ := h
          exact .lateReplay job existing hf
      | none =>
          simp only [createStep, hf, Option.some.injEq, Prod.mk.injEq] at h
          obtain ⟨rfl, rfl, rfl⟩ := h
          exact .lateMiss job hf
  | publish job =>
      simp only [createStep, Option.some.injEq, Prod.mk.injEq] at h
      obtain ⟨rfl, rfl, rfl⟩ := h
      exact .publish job
  | returned result => cases h

/-! ## What one step of the handler can do -/

/-- The moves of the handler on a table, once a message passed the guard. -/
inductive HandlerMove (T : Table) :
    HandlerPc → HandlerPc → Table → List Event → Prop where
  | stored (jobId newState errorMsg : Json) (now : Datetime)
      (T' : Table)
      (stored : (storeState noFaults jobId newState errorMsg now).onTable T
        = (.ok (), T')) :
      HandlerMove T (.update jobId newState errorMsg now) (.reread jobId) T' []
  | storeRaised (jobId newState errorMsg : Json) (now : Datetime)
      (e : PyExc) (T' : Table)
      (stored : (storeState noFaults jobId newState errorMsg now).onTable T
        = (.error e, T')) :
      HandlerMove T (.update jobId newState errorMsg now) (.dead e) T' []
  | rereadRaised (jobId : Json) (e : PyExc)
      (bound : jobId.bindText = .error e) :
      HandlerMove T (.reread jobId) (.dead e) T []
  | gone (jobId : Json) (id : Option String) (bound : jobId.bindText = .ok id)
      (found : sqlFindByIdUnscoped T id = none) :
      HandlerMove T (.reread jobId) .idle T []
  | reread (jobId : Json) (id : Option String) (updated : Job)
      (bound : jobId.bindText = .ok id)
      (found : sqlFindByIdUnscoped T id = some updated) :
      HandlerMove T (.reread jobId) (.notify updated) T []
  | notify (updated : Job) :
      HandlerMove T (.notify updated) .idle T [.callback updated]

/-- Every step of the handler is one of the moves. -/
theorem handlerStep_move {T T' : Table} {pc pc' : HandlerPc}
    {ev : List Event} (h : handlerStep T pc = some (pc', T', ev)) :
    HandlerMove T pc pc' T' ev := by
  cases pc with
  | idle => cases h
  | dead e => cases h
  | update jobId newState errorMsg now =>
      cases hr : (storeState noFaults jobId newState errorMsg now).onTable T with
      | mk res T'' =>
          cases res with
          | error e =>
              simp only [handlerStep, hr, Option.some.injEq, Prod.mk.injEq] at h
              obtain ⟨rfl, rfl, rfl⟩ := h
              exact .storeRaised jobId newState errorMsg now e T'' hr
          | ok u =>
              simp only [handlerStep, hr, Option.some.injEq, Prod.mk.injEq] at h
              obtain ⟨rfl, rfl, rfl⟩ := h
              exact .stored jobId newState errorMsg now T'' hr
  | reread jobId =>
      cases hb : jobId.bindText with
      | error e =>
          simp only [handlerStep, findByIdUnscoped_onTable, hb,
            Option.some.injEq, Prod.mk.injEq] at h
          obtain ⟨rfl, rfl, rfl⟩ := h
          exact .rereadRaised jobId e hb
      | ok id =>
          cases hf : sqlFindByIdUnscoped T id with
          | none =>
              simp only [handlerStep, findByIdUnscoped_onTable, hb, hf,
                Option.some.injEq, Prod.mk.injEq] at h
              obtain ⟨rfl, rfl, rfl⟩ := h
              exact .gone jobId id hb hf
          | some updated =>
              simp only [handlerStep, findByIdUnscoped_onTable, hb, hf,
                Option.some.injEq, Prod.mk.injEq] at h
              obtain ⟨rfl, rfl, rfl⟩ := h
              exact .reread jobId id updated hb hf
  | notify updated =>
      simp only [handlerStep, Option.some.injEq, Prod.mk.injEq] at h
      obtain ⟨rfl, rfl, rfl⟩ := h
      exact .notify updated

/-! ## What one step of the service can do -/

/-- The moves of the service. -/
inductive ServiceMove (cfg : Config) (s : Service) : Label → Service → Prop where
  | submit (c : Call) :
      ServiceMove cfg s (.submit c) { s with calls := s.calls ++ [(c, .start)] }
  | call (i : Nat) (c : Call) (pc pc' : CreatePc) (T' : Table)
      (ev : List Event) (here : s.calls[i]? = some (c, pc))
      (move : CreateMove cfg c s.jobs pc pc' T' ev) :
      ServiceMove cfg s (.call i)
        { s with jobs := T', calls := s.calls.set i (c, pc'), log := s.log ++ ev }
  | deliver (msg : Delivered) (now : Datetime) (idle : s.handler = .idle) :
      ServiceMove cfg s (.deliver msg now)
        { s with handler := receive s.jobs msg now }
  | handler (pc' : HandlerPc) (T' : Table) (ev : List Event)
      (move : HandlerMove s.jobs s.handler pc' T' ev) :
      ServiceMove cfg s .handler
        { s with jobs := T', handler := pc', log := s.log ++ ev }

/-- Every step of the service is one of the moves. -/
theorem step_move {cfg : Config} {s s' : Service} {l : Label}
    (h : step cfg s l = some s') : ServiceMove cfg s l s' := by
  cases l with
  | submit c =>
      rw [← Option.some.inj h]
      exact .submit c
  | call i =>
      cases hc : s.calls[i]? with
      | none => simp [step, hc] at h
      | some p =>
          obtain ⟨c, pc⟩ := p
          cases hm : createStep cfg c s.jobs pc with
          | none => simp [step, hc, hm] at h
          | some r =>
              obtain ⟨pc', T', ev⟩ := r
              simp only [step, hc, hm, Option.some.injEq] at h
              rw [← h]
              exact .call i c pc pc' T' ev hc (createStep_move hm)
  | deliver msg now =>
      cases hh : s.handler with
      | idle =>
          simp only [step, hh, Option.some.injEq] at h
          rw [← h]
          exact .deliver msg now hh
      | update jobId newState errorMsg now' => simp [step, hh] at h
      | reread jobId => simp [step, hh] at h
      | notify updated => simp [step, hh] at h
      | dead e => simp [step, hh] at h
  | handler =>
      cases hm : handlerStep s.jobs s.handler with
      | none => simp [step, hm] at h
      | some r =>
          obtain ⟨pc', T', ev⟩ := r
          simp only [step, hm, Option.some.injEq] at h
          rw [← h]
          exact .handler pc' T' ev (handlerStep_move hm)

/-- The arguments of a call never change. -/
theorem step_calls {cfg : Config} {s s' : Service} {l : Label}
    (h : step cfg s l = some s') (hl : ∀ c, l ≠ .submit c) :
    s'.calls.map Prod.fst = s.calls.map Prod.fst := by
  cases step_move h with
  | submit c => exact absurd rfl (hl c)
  | call i c pc pc' T' ev here move =>
      obtain ⟨hi, heq⟩ := List.getElem?_eq_some_iff.mp here
      have hlen : i < (s.calls.map Prod.fst).length := by rwa [List.length_map]
      have hc : (s.calls.map Prod.fst)[i] = c := by
        rw [List.getElem_map, heq]
      show (s.calls.set i (c, pc')).map Prod.fst = s.calls.map Prod.fst
      rw [List.map_set]
      show (s.calls.map Prod.fst).set i c = s.calls.map Prod.fst
      rw [← hc, List.set_getElem_self]
  | deliver msg now idle => rfl
  | handler pc' T' ev move => rfl

/-- A step of a call submits nothing. -/
theorem callStep_calls {cfg : Config} {s s' : Service} {i : Nat}
    (h : step cfg s (.call i) = some s') :
    s'.calls.map Prod.fst = s.calls.map Prod.fst := by
  refine step_calls h ?_
  intro c heq
  cases heq

/-- The call at a place is the one that was put there. -/
theorem call_of_calls {s : Service} {cs : List Call}
    (hcs : s.calls.map Prod.fst = cs) {i : Nat} {c : Call} {pc : CreatePc}
    (here : s.calls[i]? = some (c, pc)) : cs[i]? = some c := by
  rw [← hcs, List.getElem?_map, here]
  rfl

/-! ## Messages of a run -/

/-- The message a label delivers, with the clock reading of its handling. -/
def Label.delivery : Label → Option (Delivered × Datetime)
  | .deliver msg now => some (msg, now)
  | .submit _ => none
  | .call _ => none
  | .handler => none

/-- The messages of a run, in the order they were delivered. -/
def deliveries (ls : List Label) : List (Delivered × Datetime) :=
  ls.filterMap Label.delivery

/-- The messages of a run that goes one step further. -/
theorem deliveries_concat (ls : List Label) (l : Label) :
    deliveries (ls ++ [l]) = deliveries ls ++ (Label.delivery l).toList := by
  rw [deliveries, List.filterMap_append]
  cases l with
  | deliver msg now => rfl
  | _ => rfl

/-! ## Calls and messages of the concrete runs -/

/-- A booking of an asset for whole hours, submitted on February 1. -/
def booking (userId key uuid assetId : String) (startTime endTime : Datetime)
    (publish : PublishResult) : Call where
  body := ⟨assetId, "charge", startTime, endTime⟩
  userId := userId
  idempotencyKey := key
  validatedAt := february 1 0
  createdAt := february 1 0
  uuid := uuid
  publish := publish

/-- A result message with a job id and a state. -/
def resultMessage (jobId state : String) : Delivered :=
  .ok (.obj [(fieldJobId, .str jobId), (fieldState, .str state)])

end JobService
