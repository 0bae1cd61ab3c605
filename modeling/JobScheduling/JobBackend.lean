import JobScheduling.Channels
import JobScheduling.Histories
import JobScheduling.JobApi
import JobScheduling.JobLifecycle

/-! # The backend as its clients see it

    The whole process of the service: HTTP requests, the calls they start,
    result messages, Socket.IO sessions and the bridge `_on_mqtt_result`
    between the handler's thread and the event loop.  What clients are shown is
    a history: every response and every `job_update`, each with how much had
    been shown when it began.

    A request that only reads is answered at once; a `POST` that passes the
    checks of its route becomes a call of the service and is answered when
    that returns, so other things may be shown meanwhile.  An emit is scheduled
    on the loop while the handler waits for it; after the timeout the handler
    goes on, and the emit may still happen.

    `backend_refines_service`: whatever clients do, the service runs as it does
    alone. -/

namespace JobBackend

open JobConstants JobClock JobPayload JobModels JobRepository JobBroker
open JobOrchestrator JobService JobLedger JobReads JobNotifier JobApi
open KeyedTable Runs Channels Histories

/-! ## What clients are shown -/

/-- A response, or a `job_update` with the sessions it was sent to; and how
    much had been shown when the request came in, or when the handler called
    back. -/
inductive Seen where
  | answered (since : Nat) (request : Request) (response : Response)
  | pushed (since : Nat) (updated : Job) (emit : Emit)

/-- The versions of jobs it shows. -/
def Seen.shows : Seen → List Job
  | .answered _ _ response => response.shows
  | .pushed _ updated _ => [updated]

def Seen.since : Seen → Nat
  | .answered since _ _ => since
  | .pushed since _ _ => since

/-! ## The process -/

/-- An emit on its way to the event loop. -/
structure Scheduled where
  since : Nat
  updated : Job

structure Backend where
  service : Service
  /-- The requests behind the calls of the service, in the same order. -/
  posts : List (Nat × Request)
  sessions : List Session
  /-- The emit the handler waits for. -/
  waiting : Option Scheduled
  /-- The emits it no longer waits for. -/
  late : List Scheduled
  seen : List Seen

def Backend.empty : Backend := ⟨Service.empty, [], [], none, [], []⟩

/-- What a request gets from the world. -/
structure World where
  connected : Bool
  rows : List Job
  validatedAt : Datetime
  createdAt : Datetime
  uuid : String
  publish : PublishResult

/-- What becomes of an emit the handler waits for. -/
inductive EmitResult where
  | sent
  | raised
  | timeout
deriving DecidableEq, Repr

inductive BackendLabel where
  | request (r : Request) (w : World)
  | call (i : Nat)
  | deliver (msg : Delivered) (now : Datetime)
  /-- `running`: `_loop and not _loop.is_closed()`. -/
  | handler (running : Bool)
  | emit (result : EmitResult)
  | lateEmit (k : Nat) (sent : Bool)
  | connect (sid : String) (params : List (String × List String))
  | disconnect (sid : String)

instance (T : Table) (userId : String) (rows : List Job) :
    Decidable (ListsJobs T userId rows) :=
  inferInstanceAs (Decidable (_ ∧ _))

/-- The call behind a `POST`. -/
def World.call (w : World) (body : JobCreate) (user : User) (key : String) :
    Call :=
  ⟨body, user.userId, key, w.validatedAt, w.createdAt, w.uuid, w.publish⟩

/-- A request that is answered at once. -/
def Backend.answer (b : Backend) (r : Request) (response : Response) : Backend :=
  { b with seen := b.seen ++ [.answered b.seen.length r response] }

/-- A request, up to its response or its call. -/
def Backend.receive (users : List User) (b : Backend) (w : World) (r : Request) :
    Option Backend :=
  match r with
  | .health => some (b.answer r (.health w.connected))
  | .listJobs authorization =>
      match getCurrentUser users authorization with
      | none => some (b.answer r (listJobsRoute users authorization w.rows))
      -- what SQLite returns is one of the listings
      | some user =>
          if ListsJobs b.service.jobs user.userId w.rows then
            some (b.answer r (listJobsRoute users authorization w.rows))
          else none
  | .getJob authorization jobId =>
      some (b.answer r (getJobRoute users b.service.jobs authorization jobId))
  | .createJob authorization idempotencyKey body =>
      match checkRequest users authorization idempotencyKey body with
      | .error response => some (b.answer r response)
      | .ok (body, user, key) =>
          some { b with
            service := { b.service with
              calls := b.service.calls ++ [(w.call body user key, .start)] }
            posts := b.posts ++ [(b.seen.length, r)] }

/-- The response of a call, once it has returned. -/
def responseOf (posts : List (Nat × Request)) (calls : List (Call × CreatePc))
    (i : Nat) : List Seen :=
  match posts[i]?, calls[i]? with
  | some (since, request), some (_, .returned result) =>
      [.answered since request (answerOf result)]
  | _, _ => []

/-- `notify_job_update` for a scheduled emit. -/
def Backend.push (b : Backend) (e : Scheduled) : Seen :=
  .pushed e.since e.updated (onMqttResult b.sessions e.updated)

/-- `_on_mqtt_result`, for what a step called back with. -/
def schedule (running : Bool) (since : Nat) (called : List Job) :
    Option Scheduled :=
  if running then called.head?.map (fun updated => ⟨since, updated⟩) else none

/-- One step of the backend. -/
def backendStep (cfg : Config) (users : List User) (b : Backend) :
    BackendLabel → Option Backend
  | .request r w => b.receive users w r
  | .call i =>
      match step cfg b.service (.call i) with
      | none => none
      | some s' => some { b with
          service := s'
          seen := b.seen ++ responseOf b.posts s'.calls i }
  | .deliver msg now =>
      match b.waiting with
      | some _ => none
      | none =>
          match step cfg b.service (.deliver msg now) with
          | none => none
          | some s' => some { b with service := s' }
  | .handler running =>
      match b.waiting with
      | some _ => none
      | none =>
          match step cfg b.service .handler with
          | none => none
          | some s' => some { b with
              service := s'
              waiting := schedule running b.seen.length
                (callbacks (s'.log.drop b.service.log.length)) }
  | .emit result =>
      match b.waiting with
      | none => none
      | some e =>
          match result with
          | .sent => some { b with waiting := none, seen := b.seen ++ [b.push e] }
          | .raised => some { b with waiting := none }
          | .timeout => some { b with waiting := none, late := b.late ++ [e] }
  | .lateEmit k sent =>
      match take b.late k with
      | none => none
      | some (e, rest) => some { b with
          late := rest
          seen := b.seen ++ if sent then [b.push e] else [] }
  | .connect sid params =>
      match connect users sid params with
      | .ok session => some { b with sessions := b.sessions ++ [session] }
      | .error _ => some b
  | .disconnect sid =>
      some { b with sessions := b.sessions.filter (fun s => s.sid != sid) }

/-! ## What one step can do -/

/-- The header a request is authenticated by. -/
def Request.authorization : Request → Option String
  | .health => none
  | .listJobs authorization => authorization
  | .getJob authorization _ => authorization
  | .createJob authorization _ _ => authorization

/-- The user a request comes from. -/
def Caller (users : List User) (r : Request) (user : User) : Prop :=
  getCurrentUser users (Request.authorization r) = some user

/-- The response shows rows of the table, and of the caller only. -/
def Reads (users : List User) (T : Table) (r : Request)
    (response : Response) : Prop :=
  ∀ row ∈ response.shows,
    row ∈ T ∧ ∃ user, Caller users r user ∧ row.userId = user.userId

/-- The call is the one its request asked for, after the checks of the
    route. -/
def Asked (users : List User) (r : Request) (c : Call) : Prop :=
  ∃ authorization idempotencyKey body user,
    r = .createJob authorization idempotencyKey body
      ∧ checkRequest users authorization idempotencyKey body
        = .ok (c.body, user, c.idempotencyKey)
      ∧ c.userId = user.userId

/-- The moves of the backend. -/
inductive BackendMove (cfg : Config) (users : List User) (b : Backend) :
    BackendLabel → Backend → Prop where
  | answered (r : Request) (w : World) (response : Response)
      (reads : Reads users b.service.jobs r response) :
      BackendMove cfg users b (.request r w) (b.answer r response)
  | posted (r : Request) (w : World) (c : Call) (asked : Asked users r c) :
      BackendMove cfg users b (.request r w)
        { b with
          service := { b.service with calls := b.service.calls ++ [(c, .start)] }
          posts := b.posts ++ [(b.seen.length, r)] }
  | call (i : Nat) (s' : Service)
      (move : step cfg b.service (.call i) = some s') :
      BackendMove cfg users b (.call i)
        { b with
          service := s'
          seen := b.seen ++ responseOf b.posts s'.calls i }
  | deliver (msg : Delivered) (now : Datetime) (s' : Service)
      (free : b.waiting = none)
      (move : step cfg b.service (.deliver msg now) = some s') :
      BackendMove cfg users b (.deliver msg now) { b with service := s' }
  | handler (running : Bool) (s' : Service) (free : b.waiting = none)
      (move : step cfg b.service .handler = some s') :
      BackendMove cfg users b (.handler running)
        { b with
          service := s'
          waiting := schedule running b.seen.length
            (callbacks (s'.log.drop b.service.log.length)) }
  | sent (e : Scheduled) (awaited : b.waiting = some e) :
      BackendMove cfg users b (.emit .sent)
        { b with waiting := none, seen := b.seen ++ [b.push e] }
  | raised (e : Scheduled) (awaited : b.waiting = some e) :
      BackendMove cfg users b (.emit .raised) { b with waiting := none }
  | timeout (e : Scheduled) (awaited : b.waiting = some e) :
      BackendMove cfg users b (.emit .timeout)
        { b with waiting := none, late := b.late ++ [e] }
  | lateSent (k : Nat) (e : Scheduled) (rest : List Scheduled)
      (taken : take b.late k = some (e, rest)) :
      BackendMove cfg users b (.lateEmit k true)
        { b with late := rest, seen := b.seen ++ [b.push e] }
  | lateLost (k : Nat) (e : Scheduled) (rest : List Scheduled)
      (taken : take b.late k = some (e, rest)) :
      BackendMove cfg users b (.lateEmit k false) { b with late := rest }
  | connected (sid : String) (params : List (String × List String))
      (session : Session) (known : connect users sid params = .ok session) :
      BackendMove cfg users b (.connect sid params)
        { b with sessions := b.sessions ++ [session] }
  | refused (sid : String) (params : List (String × List String)) (e : Refusal)
      (unknown : connect users sid params = .error e) :
      BackendMove cfg users b (.connect sid params) b
  | disconnected (sid : String) :
      BackendMove cfg users b (.disconnect sid)
        { b with sessions := b.sessions.filter (fun s => s.sid != sid) }

/-- A response without jobs shows nothing. -/
theorem reads_none {users : List User} {T : Table} {r : Request}
    {response : Response} (h : response.shows = []) :
    Reads users T r response := by
  intro row hrow
  rw [h] at hrow
  cases hrow

/-- `GET /api/jobs/{job_id}` shows a row of the table to its owner. -/
theorem reads_getJob {users : List User} {T : Table}
    {authorization : Option String} {jobId : String} :
    Reads users T (.getJob authorization jobId)
      (getJobRoute users T authorization jobId) := by
  cases hu : getCurrentUser users authorization with
  | none =>
      refine reads_none ?_
      rw [getJobRoute, hu]
      rfl
  | some user =>
      cases hj : getJob T jobId user.userId with
      | none =>
          refine reads_none ?_
          simp only [getJobRoute, hu, hj]
          rfl
      | some job =>
          intro row hrow
          simp only [getJobRoute, hu, hj, Response.shows,
            List.mem_singleton] at hrow
          obtain ⟨hmem, -, huser⟩ := getJob_some hj
          rw [hrow]
          exact ⟨hmem, user, hu, huser⟩

/-- `checkRequest` refuses with responses that show no job. -/
theorem checkRequest_error {users : List User}
    {authorization idempotencyKey : Option String} {body : Body}
    {response : Response}
    (h : checkRequest users authorization idempotencyKey body
      = .error response) : response.shows = [] := by
  have hkey : ∀ r, checkKey idempotencyKey = .error r → r.shows = [] := by
    intro r hr
    cases idempotencyKey with
    | none =>
        rw [← Except.error.inj hr]
        rfl
    | some key =>
        simp only [checkKey] at hr
        split_ifs at hr
        · rw [← Except.error.inj hr]
          rfl
        · rw [← Except.error.inj hr]
          rfl
  have hbody : ∀ r, checkBody body = .error r → r.shows = [] := by
    intro r hr
    cases body with
    | parsed p =>
        cases hj : p.jobCreate with
        | none =>
            rw [checkBody, hj] at hr
            rw [← Except.error.inj hr]
            rfl
        | some job =>
            rw [checkBody, hj] at hr
            cases hr
    | undecodable =>
        rw [← Except.error.inj hr]
        rfl
    | invalid =>
        rw [← Except.error.inj hr]
        rfl
  rw [checkRequest] at h
  split_ifs at h with hraw
  · rw [← Except.error.inj h]
    rfl
  · cases hu : getCurrentUser users authorization with
    | none =>
        rw [hu] at h
        rw [← Except.error.inj h]
        rfl
    | some user =>
        cases hb : checkBody body with
        | error r =>
            simp only [hu, hb, Except.error.injEq] at h
            rw [← h]
            exact hbody r hb
        | ok job =>
            cases hk : checkKey idempotencyKey with
            | error r =>
                simp only [hu, hb, hk, Except.error.injEq] at h
                rw [← h]
                exact hkey r hk
            | ok key => simp [hu, hb, hk] at h

/-- A `POST` that passes the checks comes from a known user. -/
theorem checkRequest_caller {users : List User}
    {authorization idempotencyKey : Option String} {body : Body}
    {job : JobCreate} {user : User} {key : String}
    (h : checkRequest users authorization idempotencyKey body
      = .ok (job, user, key)) :
    getCurrentUser users authorization = some user := by
  rw [checkRequest] at h
  split_ifs at h
  cases hu : getCurrentUser users authorization with
  | none => simp [hu] at h
  | some u =>
      cases hb : checkBody body with
      | error r => simp [hu, hb] at h
      | ok j =>
          cases hk : checkKey idempotencyKey with
          | error r => simp [hu, hb, hk] at h
          | ok k =>
              simp only [hu, hb, hk, Except.ok.injEq, Prod.mk.injEq] at h
              rw [h.2.1]

/-- A request moves the backend as its route says. -/
theorem receive_move {cfg : Config} {users : List User} {b b' : Backend}
    {r : Request} {w : World} (h : b.receive users w r = some b') :
    BackendMove cfg users b (.request r w) b' := by
  cases r with
  | health =>
      rw [← Option.some.inj h]
      exact .answered _ w _ (reads_none rfl)
  | listJobs authorization =>
      cases hu : getCurrentUser users authorization with
      | none =>
          simp only [Backend.receive, listJobsRoute, hu, Option.some.injEq] at h
          rw [← h]
          exact .answered _ w _ (reads_none rfl)
      | some user =>
          simp only [Backend.receive, listJobsRoute, hu] at h
          split_ifs at h with hrows
          rw [← Option.some.inj h]
          refine .answered _ w _ ?_
          intro row hrow
          obtain ⟨hmem, huser⟩ := hrows.mem_iff.mp hrow
          exact ⟨hmem, user, hu, huser⟩
  | getJob authorization jobId =>
      rw [← Option.some.inj h]
      exact .answered _ w _ reads_getJob
  | createJob authorization idempotencyKey body =>
      cases hc : checkRequest users authorization idempotencyKey body with
      | error response =>
          simp only [Backend.receive, hc, Option.some.injEq] at h
          rw [← h]
          exact .answered _ w _ (reads_none (checkRequest_error hc))
      | ok p =>
          obtain ⟨job, user, key⟩ := p
          simp only [Backend.receive, hc, Option.some.injEq] at h
          rw [← h]
          exact .posted _ w (w.call job user key)
            ⟨authorization, idempotencyKey, body, user, rfl, hc, rfl⟩

/-- Every step of the backend is one of the moves. -/
theorem backendStep_move {cfg : Config} {users : List User} {b b' : Backend}
    {l : BackendLabel} (h : backendStep cfg users b l = some b') :
    BackendMove cfg users b l b' := by
  cases l with
  | request r w => exact receive_move h
  | call i =>
      cases hst : step cfg b.service (.call i) with
      | none => simp [backendStep, hst] at h
      | some s' =>
          simp only [backendStep, hst, Option.some.injEq] at h
          rw [← h]
          exact .call i s' hst
  | deliver msg now =>
      cases hw : b.waiting with
      | some e => simp [backendStep, hw] at h
      | none =>
          cases hst : step cfg b.service (.deliver msg now) with
          | none => simp [backendStep, hw, hst] at h
          | some s' =>
              simp only [backendStep, hw, hst, Option.some.injEq] at h
              rw [← h, ← hw]
              exact .deliver msg now s' hw hst
  | handler running =>
      cases hw : b.waiting with
      | some e => simp [backendStep, hw] at h
      | none =>
          cases hst : step cfg b.service .handler with
          | none => simp [backendStep, hw, hst] at h
          | some s' =>
              simp only [backendStep, hw, hst, Option.some.injEq] at h
              rw [← h]
              exact .handler running s' hw hst
  | emit result =>
      cases hw : b.waiting with
      | none => simp [backendStep, hw] at h
      | some e =>
          cases result with
          | sent =>
              simp only [backendStep, hw, Option.some.injEq] at h
              rw [← h]
              exact .sent e hw
          | raised =>
              simp only [backendStep, hw, Option.some.injEq] at h
              rw [← h]
              exact .raised e hw
          | timeout =>
              simp only [backendStep, hw, Option.some.injEq] at h
              rw [← h]
              exact .timeout e hw
  | lateEmit k sent =>
      cases ht : take b.late k with
      | none => simp [backendStep, ht] at h
      | some p =>
          obtain ⟨e, rest⟩ := p
          simp only [backendStep, ht, Option.some.injEq] at h
          rw [← h]
          cases sent with
          | true => exact .lateSent k e rest ht
          | false =>
              simp only [Bool.false_eq_true, if_false, List.append_nil]
              exact .lateLost k e rest ht
  | connect sid params =>
      cases hc : connect users sid params with
      | ok session =>
          simp only [backendStep, hc, Option.some.injEq] at h
          rw [← h]
          exact .connected sid params session hc
      | error e =>
          simp only [backendStep, hc, Option.some.injEq] at h
          rw [← h]
          exact .refused sid params e hc
  | disconnect sid =>
      rw [← Option.some.inj h]
      exact .disconnected sid

/-! ## The service inside -/

/-- A step of the backend leaves the service alone or is a step of it. -/
theorem backendStep_service {cfg : Config} {users : List User}
    {b b' : Backend} {l : BackendLabel}
    (h : backendStep cfg users b l = some b') :
    b'.service = b.service ∨ ∃ l', step cfg b.service l' = some b'.service := by
  cases backendStep_move h with
  | posted r w c asked => exact Or.inr ⟨.submit c, rfl⟩
  | call i s' move => exact Or.inr ⟨_, move⟩
  | deliver msg now s' free move => exact Or.inr ⟨_, move⟩
  | handler running s' free move => exact Or.inr ⟨_, move⟩
  | _ => exact Or.inl rfl

/-- **Refinement**: on its service, every run of the backend is a run of the
    service. -/
theorem backend_refines_service {cfg : Config} {users : List User}
    {ls : List BackendLabel} {b : Backend}
    (h : exec (backendStep cfg users) Backend.empty ls = some b) :
    ∃ ms, exec (step cfg) Service.empty ms = some b.service :=
  exec_projects (f := Backend.service)
    (fun _ _ _ hst => backendStep_service hst) h

/-- A step of the service only moves rows along edges of the state machine. -/
theorem moves_step {cfg : Config} {s s' : Service} {l : Label}
    (hs : ServiceOk cfg s) (h : step cfg s l = some s') :
    Evolves Moves s.jobs s'.jobs := by
  rcases (step_refines hs h).1 with heq | hstep
  · rw [heq]
    exact Evolves.refl Moves.refl s.jobs
  · exact hstep.moves

/-- So does a step of the backend. -/
theorem backend_moves {cfg : Config} {users : List User} {b b' : Backend}
    {l : BackendLabel} (hb : ServiceOk cfg b.service)
    (h : backendStep cfg users b l = some b') :
    Evolves Moves b.service.jobs b'.service.jobs := by
  rcases backendStep_service h with heq | ⟨l', hl'⟩
  · rw [heq]
    exact Evolves.refl Moves.refl b.service.jobs
  · exact moves_step hb hl'

/-! ## The invariant -/

/-- What holds of the parts of the backend. -/
structure BackendOk (cfg : Config) (users : List User) (b : Backend) : Prop where
  ok : ServiceOk cfg b.service
  matched : b.posts.length = b.service.calls.length
  begun : ∀ p ∈ b.posts, p.1 ≤ b.seen.length
  asked : ∀ (i since : Nat) (r : Request) (c : Call) (pc : CreatePc),
    b.posts[i]? = some (since, r) → b.service.calls[i]? = some (c, pc) →
    Asked users r c
  sessions : ∀ session ∈ b.sessions, Authentic users session
  notified : ∀ updated, b.service.handler = .notify updated →
    updated ∈ b.service.jobs

theorem backendOk_empty (cfg : Config) (users : List User) :
    BackendOk cfg users Backend.empty where
  ok := serviceOk_empty cfg
  matched := rfl
  begun := fun p hp => absurd hp List.not_mem_nil
  asked := fun i since r c pc h => by cases h
  sessions := fun s hs => absurd hs List.not_mem_nil
  notified := fun updated h => by cases h

/-- The row that the handler is to call back with stays as it was read. -/
theorem notified_step {cfg : Config} {s s' : Service} {l : Label}
    (hnote : ∀ updated, s.handler = .notify updated → updated ∈ s.jobs)
    (h : step cfg s l = some s') :
    ∀ updated, s'.handler = .notify updated → updated ∈ s'.jobs := by
  intro updated hup
  cases step_move h with
  | submit c => exact hnote updated hup
  | call i c pc pc' T' ev here move =>
      obtain ⟨new, rfl, -⟩ := CreateMove.changed move
      exact List.mem_append_left _ (hnote updated hup)
  | deliver msg now idle =>
      have hup' : receive s.jobs msg now = .notify updated := hup
      rw [receive] at hup'
      cases hr : readMessage s.jobs msg with
      | ignored why => rw [hr] at hup'; cases hup'
      | raised e => rw [hr] at hup'; cases hup'
      | proceed jobId newState errorMsg => rw [hr] at hup'; cases hup'
  | handler pc' T' ev move =>
      have hpc' : pc' = .notify updated := hup
      rw [hpc'] at move
      generalize s.handler = pc at move
      cases move with
      | reread jobId id _ bound found =>
          cases id with
          | none => cases found
          | some id => exact (sqlFindByIdUnscoped_some found).1

/-- The calls of the backend stay those their requests asked for. -/
theorem asked_step {cfg : Config} {users : List User} {b : Backend}
    {s' : Service} {l : Label} (hb : BackendOk cfg users b)
    (hl : ∀ c, l ≠ .submit c) (h : step cfg b.service l = some s') :
    b.posts.length = s'.calls.length
      ∧ ∀ (i since : Nat) (r : Request) (c : Call) (pc : CreatePc),
        b.posts[i]? = some (since, r) → s'.calls[i]? = some (c, pc) →
        Asked users r c := by
  cases step_move h with
  | submit c => exact absurd rfl (hl c)
  | call i c pc pc' T' ev here move =>
      refine ⟨by rw [hb.matched]; exact (List.length_set ..).symm, ?_⟩
      intro j since r d q hpost hcall
      rcases getElem?_set_some hcall with ⟨rfl, heq⟩ | ⟨-, hold⟩
      · rw [(Prod.mk.inj heq).1]
        exact hb.asked i since r c pc hpost here
      · exact hb.asked j since r d q hpost hold
  | deliver msg now idle => exact ⟨hb.matched, hb.asked⟩
  | handler pc' T' ev move => exact ⟨hb.matched, hb.asked⟩

/-- The invariant, for a step that is one of the service's and may show
    something. -/
theorem backendOk_service {cfg : Config} {users : List User} {b : Backend}
    {s' : Service} {l : Label} (hb : BackendOk cfg users b)
    (hl : ∀ c, l ≠ .submit c) (h : step cfg b.service l = some s')
    (waiting : Option Scheduled) (os : List Seen) :
    BackendOk cfg users
      { b with service := s', waiting := waiting, seen := b.seen ++ os } := by
  obtain ⟨hmatched, hasked⟩ := asked_step hb hl h
  refine ⟨serviceOk_step hb.ok h, hmatched, ?_, hasked, hb.sessions,
    notified_step hb.notified h⟩
  intro p hp
  refine Nat.le_trans (hb.begun p hp) ?_
  show b.seen.length ≤ (b.seen ++ os).length
  rw [List.length_append]
  omega

/-- The invariant, for a step that leaves the service and the requests
    alone. -/
theorem backendOk_frame {cfg : Config} {users : List User} {b : Backend}
    (hb : BackendOk cfg users b) (waiting : Option Scheduled)
    (late : List Scheduled) (os : List Seen) (sessions : List Session)
    (hsessions : ∀ session ∈ sessions, Authentic users session) :
    BackendOk cfg users { b with
      sessions := sessions, waiting := waiting, late := late,
      seen := b.seen ++ os } := by
  refine ⟨hb.ok, hb.matched, ?_, hb.asked, hsessions, hb.notified⟩
  intro p hp
  refine Nat.le_trans (hb.begun p hp) ?_
  show b.seen.length ≤ (b.seen ++ os).length
  rw [List.length_append]
  omega

/-- A request that becomes a call is the one behind that call. -/
theorem backendOk_posted {cfg : Config} {users : List User} {b : Backend}
    {r : Request} {c : Call} (hb : BackendOk cfg users b)
    (asked : Asked users r c) :
    BackendOk cfg users { b with
      service := { b.service with calls := b.service.calls ++ [(c, .start)] }
      posts := b.posts ++ [(b.seen.length, r)] } := by
  have hst : step cfg b.service (.submit c) = some
      { b.service with calls := b.service.calls ++ [(c, .start)] } := rfl
  refine ⟨serviceOk_step hb.ok hst, ?_, ?_, ?_, hb.sessions, hb.notified⟩
  · show (b.posts ++ [_]).length = (b.service.calls ++ [_]).length
    rw [List.length_append, List.length_append, hb.matched, List.length_singleton,
      List.length_singleton]
  · intro p hp
    rcases List.mem_append.mp hp with hold | hnew
    · exact hb.begun p hold
    · rw [List.mem_singleton.mp hnew]
  · intro i since r' d pc hpost hcall
    rcases getElem?_concat_some hpost with ⟨hi, hold⟩ | ⟨hi, hnew⟩
    · have hcall' : (b.service.calls ++ [(c, CreatePc.start)])[i]?
          = some (d, pc) := hcall
      rw [List.getElem?_append_left (by rw [← hb.matched]; exact hi)] at hcall'
      exact hb.asked i since r' d pc hold hcall'
    · have hcall' : (b.service.calls ++ [(c, CreatePc.start)])[i]?
          = some (d, pc) := hcall
      rw [hi, hb.matched, List.getElem?_concat_length] at hcall'
      rw [← (Prod.mk.inj (Option.some.inj hcall')).1, (Prod.mk.inj hnew).2]
      exact asked

/-- **Every step keeps it.** -/
theorem backendOk_step {cfg : Config} {users : List User} {b b' : Backend}
    {l : BackendLabel} (hb : BackendOk cfg users b)
    (h : backendStep cfg users b l = some b') : BackendOk cfg users b' := by
  have hsame : ∀ waiting late, BackendOk cfg users
      { b with waiting := waiting, late := late } := by
    intro waiting late
    have hframe := backendOk_frame hb waiting late [] b.sessions hb.sessions
    rw [List.append_nil] at hframe
    exact hframe
  cases backendStep_move h with
  | answered r w response reads =>
      exact backendOk_frame hb b.waiting b.late _ b.sessions hb.sessions
  | posted r w c asked => exact backendOk_posted hb asked
  | call i s' move =>
      exact backendOk_service hb (fun c heq => by cases heq) move b.waiting _
  | deliver msg now s' free move =>
      have hok := backendOk_service hb (fun c heq => by cases heq) move b.waiting []
      rw [List.append_nil] at hok
      exact hok
  | handler running s' free move =>
      have hok := backendOk_service hb (fun c heq => by cases heq) move
        (schedule running b.seen.length
          (callbacks (s'.log.drop b.service.log.length))) []
      rw [List.append_nil] at hok
      exact hok
  | sent e awaited => exact backendOk_frame hb none b.late _ b.sessions hb.sessions
  | raised e awaited => exact hsame none b.late
  | timeout e awaited => exact hsame none (b.late ++ [e])
  | lateSent k e rest taken =>
      exact backendOk_frame hb b.waiting rest _ b.sessions hb.sessions
  | lateLost k e rest taken => exact hsame b.waiting rest
  | connected sid params session known =>
      have hok := backendOk_frame hb b.waiting b.late []
        (b.sessions ++ [session]) ?_
      · rw [List.append_nil] at hok
        exact hok
      · intro x hx
        rcases List.mem_append.mp hx with hold | hnew
        · exact hb.sessions x hold
        · rw [List.mem_singleton.mp hnew]
          exact connect_authentic known
  | refused sid params e unknown => exact hb
  | disconnected sid =>
      have hok := backendOk_frame hb b.waiting b.late []
        (b.sessions.filter (fun s => s.sid != sid))
        (fun x hx => hb.sessions x (List.mem_filter.mp hx).1)
      rw [List.append_nil] at hok
      exact hok

/-! ## What a step shows -/

/-- What became of a version of a row. -/
def Became : Job → Job → Prop := Relation.ReflTransGen Moves

theorem Became.id {r r' : Job} (h : Became r r') : r'.id = r.id := by
  induction h with
  | refl => rfl
  | tail _ hmove ih => exact (Moves.sameJob hmove).id.trans ih

/-- Clients look at jobs by their ids. -/
def sight : Sight Seen Job String where
  shows := Seen.shows
  since := Seen.since
  key := Job.id
  later := Became

/-- A version that something begun is going to show: the job of a call that
    only has to publish it, or the row of an emit on its way. -/
inductive Pledged (b : Backend) : Nat → Job → Prop where
  | publish (i since : Nat) (r : Request) (c : Call) (job : Job)
      (posted : b.posts[i]? = some (since, r))
      (here : b.service.calls[i]? = some (c, .publish job)) :
      Pledged b since job
  | scheduled (e : Scheduled) (out : e ∈ b.waiting.toList ++ b.late) :
      Pledged b e.since e.updated

/-- Only the caller is shown a job by a response, and only its owner by an
    emit, which announces the row it is about. -/
def Seen.Private (users : List User) : Seen → Prop
  | .answered _ r response =>
      ∀ row ∈ response.shows, ∃ user, Caller users r user
        ∧ row.userId = user.userId
  | .pushed _ updated emit =>
      Announces updated emit ∧ ∀ session ∈ emit.recipients,
        ∃ u, usersByToken users session.token = some u
          ∧ u.userId = updated.userId

/-- A call that returns shows a row it has just read, or the job it was to
    publish. -/
theorem CreateMove.shows {cfg : Config} {c : Call} {T T' : Table}
    {pc : CreatePc} {result : CreateResult} {ev : List Event}
    (hok : CallOk cfg c T pc)
    (h : CreateMove cfg c T pc (.returned result) T' ev) :
    ∀ row ∈ (answerOf result).shows,
      (row ∈ T ∨ pc = .publish row) ∧ row.userId = c.userId := by
  intro row hrow
  cases h with
  | replay existing found =>
      rw [List.mem_singleton.mp hrow]
      obtain ⟨hmem, hkey⟩ := sqlFindByIdempotency_some found
      exact ⟨Or.inl hmem, congrArg Prod.fst hkey⟩
  | lateReplay job existing found =>
      rw [List.mem_singleton.mp hrow]
      obtain ⟨hmem, hkey⟩ := sqlFindByIdempotency_some found
      refine ⟨Or.inl hmem, (congrArg Prod.fst hkey).trans ?_⟩
      rw [show job = newJob c from hok]
      rfl
  | publish job =>
      have hjob : row = job := by
        rw [publishDispatch] at hrow
        cases hp : c.publish with
        | raised e => rw [hp] at hrow; cases hrow
        | handed => rw [hp] at hrow; exact List.mem_singleton.mp hrow
        | dropped => rw [hp] at hrow; exact List.mem_singleton.mp hrow
      rw [hjob]
      refine ⟨Or.inr rfl, ?_⟩
      rw [show job = newJob c from hok.1]
      rfl
  | reject status message invalid => cases hrow
  | maxActive job quota => cases hrow
  | overlap job quota found => cases hrow
  | unencodable job quota found lone => cases hrow
  | lateMiss job found => cases hrow

/-- What the response of a moved call is. -/
theorem responseOf_set {posts : List (Nat × Request)}
    {calls : List (Call × CreatePc)} {i since : Nat} {r : Request} {c : Call}
    {pc : CreatePc} (pc' : CreatePc) (here : calls[i]? = some (c, pc))
    (posted : posts[i]? = some (since, r)) :
    responseOf posts (calls.set i (c, pc')) i = []
      ∨ ∃ result, pc' = .returned result
        ∧ responseOf posts (calls.set i (c, pc')) i
          = [.answered since r (answerOf result)] := by
  have hset : (calls.set i (c, pc'))[i]? = some (c, pc') :=
    List.getElem?_set_self (List.getElem?_eq_some_iff.mp here).1
  cases pc' with
  | returned result =>
      refine Or.inr ⟨result, rfl, ?_⟩
      simp only [responseOf, posted, hset]
  | _ =>
      refine Or.inl ?_
      simp only [responseOf, posted, hset]

/-- The request behind a call. -/
theorem BackendOk.posted {cfg : Config} {users : List User} {b : Backend}
    (hb : BackendOk cfg users b) {i : Nat} {p : Call × CreatePc}
    (here : b.service.calls[i]? = some p) :
    ∃ since r, b.posts[i]? = some (since, r) ∧ since ≤ b.seen.length := by
  have hlt : i < b.posts.length := by
    rw [hb.matched]
    exact (List.getElem?_eq_some_iff.mp here).1
  have hpost := List.getElem?_eq_getElem hlt
  exact ⟨_, _, hpost, hb.begun _ (List.mem_of_getElem? hpost)⟩

/-- What a response or an emit of this step has to be. -/
structure Shown (users : List User) (b : Backend) (o : Seen) : Prop where
  observed : sight.Observed b.service.jobs b.seen (Pledged b) o
  confined : o.Private users

/-- An emit shows what was scheduled, to the sessions of its owner. -/
theorem shown_push {cfg : Config} {users : List User} {b : Backend}
    (hb : BackendOk cfg users b) {e : Scheduled}
    (begun : e.since ≤ b.seen.length)
    (out : e ∈ b.waiting.toList ++ b.late) : Shown users b (b.push e) := by
  refine ⟨⟨begun, ?_⟩, onMqttResult_announces b.sessions e.updated, ?_⟩
  · intro r hr
    rw [List.mem_singleton.mp hr]
    exact Or.inr (.scheduled e out)
  · intro session hsession
    obtain ⟨hmem, hroom⟩ := List.mem_filter.mp hsession
    obtain ⟨u, hu, hin⟩ := hb.sessions session hmem
    exact ⟨u, hu, room_injective (hin.symm.trans (eq_of_beq hroom))⟩

/-- **One step shows** nothing, or one thing. -/
theorem seen_step {cfg : Config} {users : List User} {b b' : Backend}
    {l : BackendLabel} (hb : BackendOk cfg users b)
    (hbegun : ∀ n r, Pledged b n r → n ≤ b.seen.length)
    (h : backendStep cfg users b l = some b') :
    b'.seen = b.seen ∨ ∃ o, b'.seen = b.seen ++ [o] ∧ Shown users b o := by
  cases backendStep_move h with
  | answered r w response reads =>
      refine Or.inr ⟨_, rfl, ⟨Nat.le_refl _, ?_⟩, ?_⟩
      · exact fun row hrow => Or.inl (reads row hrow).1
      · exact fun row hrow => (reads row hrow).2
  | call i s' move =>
      cases step_move move with
      | call i c pc pc' T' ev here hmove =>
          obtain ⟨since, r, hpost, hle⟩ := hb.posted here
          rcases responseOf_set pc' here hpost with
            hnone | ⟨result, hret, hone⟩
          · refine Or.inl ?_
            show b.seen ++ responseOf b.posts (b.service.calls.set i (c, pc')) i
              = b.seen
            rw [hnone, List.append_nil]
          · -- the call has just returned: its response shows what it read
            rw [hret] at hmove
            have hshows := CreateMove.shows (hb.ok.call here) hmove
            refine Or.inr ⟨.answered since r (answerOf result), ?_, ⟨hle, ?_⟩, ?_⟩
            · show b.seen ++ responseOf b.posts (b.service.calls.set i (c, pc')) i
                = b.seen ++ [.answered since r (answerOf result)]
              rw [hone]
            · intro row hrow
              rcases (hshows row hrow).1 with hmem | hpub
              · exact Or.inl hmem
              · rw [hpub] at here
                exact Or.inr (.publish i since r c row hpost here)
            · intro row hrow
              obtain ⟨authorization, key, body, user, hr, hchecked, huser⟩ :=
                hb.asked i since r c pc hpost here
              refine ⟨user, ?_, (hshows row hrow).2.trans huser⟩
              rw [hr]
              exact checkRequest_caller hchecked
  | sent e awaited =>
      have hout : e ∈ b.waiting.toList ++ b.late := by
        rw [awaited]
        exact List.mem_cons_self ..
      exact Or.inr ⟨_, rfl, shown_push hb (hbegun _ _ (.scheduled e hout)) hout⟩
  | lateSent k e rest taken =>
      have hout : e ∈ b.waiting.toList ++ b.late :=
        List.mem_append_right _ (mem_of_take taken).1
      exact Or.inr ⟨_, rfl, shown_push hb (hbegun _ _ (.scheduled e hout)) hout⟩
  | _ => exact Or.inl rfl

/-! ## What is still to be shown -/

/-- A step that starts nothing pledges nothing. -/
theorem Pledged.kept {b b' : Backend} {n : Nat} {v : Job} (h : Pledged b' n v)
    (hposts : b'.posts = b.posts) (hcalls : b'.service.calls = b.service.calls)
    (hout : ∀ e, e ∈ b'.waiting.toList ++ b'.late →
      e ∈ b.waiting.toList ++ b.late) : Pledged b n v := by
  cases h with
  | publish i since r c job posted here =>
      rw [hposts] at posted
      rw [hcalls] at here
      exact .publish i n r c v posted here
  | scheduled e out => exact .scheduled e (hout e out)

/-- The step of a call pledges the job it has just created. -/
theorem pledged_call {cfg : Config} {users : List User} {b : Backend} {i : Nat}
    {s' : Service} (hb : BackendOk cfg users b)
    (move : step cfg b.service (.call i) = some s') (os : List Seen)
    {n : Nat} {v : Job}
    (h : Pledged { b with service := s', seen := b.seen ++ os } n v) :
    Pledged b n v ∨ sight.Pledge b.service.jobs s'.jobs b.seen n v := by
  cases step_move move with
  | call i c pc pc' T' ev here hmove =>
      cases h with
      | scheduled e out => exact Or.inl (.scheduled e out)
      | publish j since r d job posted here' =>
          rcases getElem?_set_some here' with ⟨-, heq⟩ | ⟨-, hold⟩
          · obtain ⟨-, rfl⟩ := Prod.mk.inj heq
            cases hmove with
            | created job admits =>
                have hle := hb.begun (n, r) (List.mem_of_getElem? posted)
                refine Or.inr ⟨hle, Or.inr ?_, List.mem_concat_self⟩
                intro w hw
                exact (violates_eq_false.mp admits.unique w hw).1
          · exact Or.inl (.publish j n r d v posted hold)

/-- What the handler calls back with is scheduled as the table has it. -/
theorem schedule_mem {running : Bool} {n : Nat} {called : List Job}
    {e : Scheduled} (h : e ∈ (schedule running n called).toList) :
    e.since = n ∧ e.updated ∈ called := by
  rw [schedule] at h
  split_ifs at h
  · cases called with
    | nil => cases h
    | cons updated rest =>
        rw [List.mem_singleton.mp h]
        exact ⟨rfl, List.mem_cons_self ..⟩
  · cases h

/-- The step of the handler pledges the row it calls back with. -/
theorem pledged_handler {cfg : Config} {users : List User} {b : Backend}
    {running : Bool} {s' : Service} (hb : BackendOk cfg users b)
    (move : step cfg b.service .handler = some s')
    {n : Nat} {v : Job}
    (h : Pledged { b with
      service := s'
      waiting := schedule running b.seen.length
        (callbacks (s'.log.drop b.service.log.length)) } n v) :
    Pledged b n v ∨ sight.Pledge b.service.jobs s'.jobs b.seen n v := by
  cases step_move move with
  | handler pc' T' ev hmove =>
      cases h with
      | publish i since r c job posted here =>
          exact Or.inl (.publish i n r c v posted here)
      | scheduled e out =>
          rcases List.mem_append.mp out with hnew | hold
          · obtain ⟨hsince, hcalled⟩ := schedule_mem hnew
            have hev : e.updated ∈ callbacks ev := by
              have hlog : (b.service.log ++ ev).drop b.service.log.length = ev :=
                List.drop_left
              rw [← hlog]
              exact hcalled
            have hat := HandlerMove.callbacks hmove _ hev
            have hmem := hb.notified _ hat
            refine Or.inr ⟨Nat.le_of_eq hsince, Or.inl hmem, ?_⟩
            rw [hat] at hmove
            cases hmove with
            | notify updated => exact hmem
          · exact Or.inl (.scheduled e (List.mem_append_right _ hold))

/-- What is to be shown after a step was to be shown before it, or is as
    current as the step. -/
theorem pledged_step {cfg : Config} {users : List User} {b b' : Backend}
    {l : BackendLabel} (hb : BackendOk cfg users b)
    (h : backendStep cfg users b l = some b') {n : Nat} {v : Job}
    (hp : Pledged b' n v) :
    Pledged b n v ∨ sight.Pledge b.service.jobs b'.service.jobs b.seen n v := by
  cases backendStep_move h with
  | answered r w response reads => exact Or.inl (hp.kept (b := b) rfl rfl (fun _ he => he))
  | posted r w c asked =>
      cases hp with
      | publish i since r' d job posted here =>
          have here' : (b.service.calls ++ [(c, CreatePc.start)])[i]?
              = some (d, .publish v) := here
          rcases getElem?_concat_some here' with ⟨hi, hold⟩ | ⟨-, hnew⟩
          · have posted' : (b.posts ++ [(b.seen.length, r)])[i]?
                = some (n, r') := posted
            rw [List.getElem?_append_left (by rw [hb.matched]; exact hi)] at posted'
            exact Or.inl (.publish i n r' d v posted' hold)
          · -- a call that has just come in has nothing to publish
            cases (Prod.mk.inj hnew).2
      | scheduled e out => exact Or.inl (.scheduled e out)
  | call i s' move => exact pledged_call hb move _ hp
  | deliver msg now s' free move =>
      cases step_move move with
      | deliver msg now idle => exact Or.inl (hp.kept (b := b) rfl rfl (fun _ he => he))
  | handler running s' free move => exact pledged_handler hb move hp
  | sent e awaited =>
      refine Or.inl (hp.kept (b := b) rfl rfl ?_)
      exact fun x hx => List.mem_append_right _ hx
  | raised e awaited =>
      refine Or.inl (hp.kept (b := b) rfl rfl ?_)
      exact fun x hx => List.mem_append_right _ hx
  | timeout e awaited =>
      refine Or.inl (hp.kept (b := b) rfl rfl ?_)
      -- what timed out is still to be emitted
      intro x hx
      have hx' : x ∈ b.late ++ [e] := hx
      rw [awaited]
      rcases List.mem_append.mp hx' with hold | hnew
      · exact List.mem_append_right _ hold
      · rw [List.mem_singleton.mp hnew]
        exact List.mem_cons_self ..
  | lateSent k e rest taken =>
      refine Or.inl (hp.kept (b := b) rfl rfl ?_)
      intro x hx
      rcases List.mem_append.mp hx with hw | hl
      · exact List.mem_append_left _ hw
      · exact List.mem_append_right _ ((mem_of_take taken).2 x hl)
  | lateLost k e rest taken =>
      refine Or.inl (hp.kept (b := b) rfl rfl ?_)
      intro x hx
      rcases List.mem_append.mp hx with hw | hl
      · exact List.mem_append_left _ hw
      · exact List.mem_append_right _ ((mem_of_take taken).2 x hl)
  | connected sid params session known =>
      exact Or.inl (hp.kept (b := b) rfl rfl (fun _ he => he))
  | refused sid params e unknown => exact Or.inl hp
  | disconnected sid => exact Or.inl (hp.kept (b := b) rfl rfl (fun _ he => he))

/-! ## Runs -/

/-- The history is coherent with the table, and private. -/
structure Witnessed (cfg : Config) (users : List User) (b : Backend) : Prop where
  ok : BackendOk cfg users b
  coherent : sight.Coherent b.service.jobs b.seen (Pledged b)
  confined : ∀ o ∈ b.seen, o.Private users

theorem witnessed_empty (cfg : Config) (users : List User) :
    Witnessed cfg users Backend.empty where
  ok := backendOk_empty cfg users
  coherent := by
    have hnone : ∀ n r, ¬ Pledged Backend.empty n r := by
      intro n r hp
      cases hp with
      | publish i since r c job posted here => cases posted
      | scheduled e out => cases out
    refine ⟨fun o ho => absurd ho List.not_mem_nil,
      fun o ho => absurd ho List.not_mem_nil, ?_,
      fun n r hp => absurd hp (hnone n r), fun n r hp => absurd hp (hnone n r),
      fun n r hp => absurd hp (hnone n r)⟩
    intro i j o o' ho
    cases ho
  confined := fun o ho => absurd ho List.not_mem_nil

/-- What has been shown stays true of the rows, whatever step comes next. -/
theorem witnessed_step {cfg : Config} {users : List User} {b b' : Backend}
    {l : BackendLabel} (hb : Witnessed cfg users b)
    (h : backendStep cfg users b l = some b') : Witnessed cfg users b' := by
  have hseen := seen_step hb.ok hb.coherent.begun h
  refine ⟨backendOk_step hb.ok h, ?_, ?_⟩
  · refine hb.coherent.step (fun _ _ hm => (Moves.sameJob hm).id)
      (fun _ => Relation.ReflTransGen.refl)
      (fun _ _ _ hu hm => Relation.ReflTransGen.tail hu hm) hb.ok.ok.ids
      (backend_moves hb.ok.ok h) (fun _ _ hp => pledged_step hb.ok h hp) ?_
    rcases hseen with heq | ⟨o, heq, ho⟩
    · exact Or.inl heq
    · exact Or.inr ⟨o, heq, ho.observed⟩
  · intro o ho
    rcases hseen with heq | ⟨o', heq, ho'⟩
    · rw [heq] at ho
      exact hb.confined o ho
    · rw [heq] at ho
      rcases List.mem_append.mp ho with hold | hnew
      · exact hb.confined o hold
      · rw [List.mem_singleton.mp hnew]
        exact ho'.confined

theorem witnessed_run {cfg : Config} {users : List User}
    {ls : List BackendLabel} {b : Backend}
    (h : exec (backendStep cfg users) Backend.empty ls = some b) :
    Witnessed cfg users b :=
  exec_invariant (fun _ _ _ hb hst => witnessed_step hb hst)
    (witnessed_empty cfg users) h

end JobBackend
