import JobScheduling.JobNotifier
import JobScheduling.JobReads

/-! # The HTTP side

    The routes of `service/api/routes.py`, the authentication dependency they
    share, and what a client gets back.  A request is checked in the order the
    framework and the routes check it: a body that is no JSON, the token, the
    fields of the body, the `Idempotency-Key`; only then the orchestrator is
    called.

    `checkRequest` is everything before that call; `answerOf` is everything after
    it. -/

namespace JobApi

open JobConstants JobClock JobPayload JobModels JobRepository JobOrchestrator JobReads
open JobNotifier

/-! ## Texts -/

/-- `str.isspace` of one character. -/
def isSpace (c : Char) : Bool :=
  let n := c.toNat
  (9 ≤ n && n ≤ 13) || (28 ≤ n && n ≤ 32) || n == 0x85 || n == 0xA0
    || n == 0x1680 || (0x2000 ≤ n && n ≤ 0x200A) || n == 0x2028 || n == 0x2029
    || n == 0x202F || n == 0x205F || n == 0x3000

/-- `s.strip()`. -/
def strip (s : String) : List Char :=
  ((s.toList.dropWhile isSpace).reverse.dropWhile isSpace).reverse

/-- `s.startswith(prefix)`. -/
def startswith (s start : String) : Bool := start.toList.isPrefixOf s.toList

/-- `s.removeprefix(prefix)`. -/
def withoutPrefix (s start : String) : String :=
  if startswith s start then String.ofList (s.toList.drop start.toList.length)
  else s

/-! ## Responses -/

/-- The statuses of the API. -/
inductive ApiStatus where
  | ok
  | created
  | badRequest
  | unauthorized
  | notFound
  | conflict
  | unprocessableEntity
  | internalServerError
deriving DecidableEq, Repr

def ApiStatus.of : HTTPStatus → ApiStatus
  | .created => .created
  | .conflict => .conflict
  | .unprocessableEntity => .unprocessableEntity

/-- `JobResponse`: the columns a client sees. -/
structure JobResponse where
  id : String
  assetId : String
  operation : PyStr
  startTime : String
  endTime : String
  state : String
  errorMessage : Option String
  createdAt : String
  updatedAt : String
deriving DecidableEq, Repr

/-- What `response_model=JobResponse` keeps of a job dict. -/
def toResponse (job : Job) : JobResponse where
  id := job.id
  assetId := job.assetId
  operation := job.operation
  startTime := job.startTime
  endTime := job.endTime
  state := job.state
  errorMessage := job.errorMessage
  createdAt := job.createdAt
  updatedAt := job.updatedAt

/-- What a route returns or raises; of a job dict the client is sent
    `toResponse`.  The detail of a refusal is `none` where the framework words
    it. -/
inductive Response where
  | health (mqttConnected : Bool)
  | jobs (listing : List Job)
  | job (status : ApiStatus) (row : Job)
  | refused (status : ApiStatus) (detail : Option String)
deriving DecidableEq, Repr

def Response.status : Response → ApiStatus
  | .health _ => .ok
  | .jobs _ => .ok
  | .job status _ => status
  | .refused status _ => status

/-- The jobs a response is about. -/
def Response.shows : Response → List Job
  | .jobs listing => listing
  | .job _ row => [row]
  | .health _ => []
  | .refused _ _ => []

/-! ## Requests -/

/-- A `datetime` of the request body: its fields, and its UTC offset if it has
    one. -/
structure ParsedDatetime where
  fields : Datetime
  utcoffset : Option Timedelta
deriving DecidableEq

/-- `must_be_utc`: the datetime, or the `ValueError`. -/
def mustBeUtc (v : ParsedDatetime) : Option Datetime :=
  if v.utcoffset = some 0 then some v.fields else none

/-- A body with the fields and types of `JobCreate`, before its validators. -/
structure ParsedBody where
  assetId : String
  operation : PyStr
  startTime : ParsedDatetime
  endTime : ParsedDatetime
deriving DecidableEq

/-- `JobCreate`, after its validators. -/
def ParsedBody.jobCreate (b : ParsedBody) : Option JobCreate :=
  match mustBeUtc b.startTime, mustBeUtc b.endTime with
  | some startTime, some endTime =>
      some ⟨b.assetId, b.operation, startTime, endTime⟩
  | _, _ => none

/-- A received body: no JSON at all, JSON that is no `JobCreate`, or one whose
    validators are still to run. -/
inductive Body where
  | undecodable
  | invalid
  | parsed (b : ParsedBody)
deriving DecidableEq

/-- A request, with the headers its route reads. -/
inductive Request where
  | health
  | listJobs (authorization : Option String)
  | getJob (authorization : Option String) (jobId : String)
  | createJob (authorization idempotencyKey : Option String) (body : Body)
deriving DecidableEq

/-! ## What comes before the orchestrator -/

/-- `TokenAuthService.authenticate`. -/
def authenticate (users : List User) (token : String) : Option User :=
  usersByToken users token

/-- `get_current_user`; `none` where it raises 401. -/
def getCurrentUser (users : List User) : Option String → Option User
  | none => none
  | some authorization =>
      if authorization = "" || !startswith authorization bearerPrefix then none
      else authenticate users (withoutPrefix authorization bearerPrefix)

def unauthorized : Response := .refused .unauthorized (some ErrorMessages.invalidToken)

/-- The route's check of the `Idempotency-Key`: the key as it was sent. -/
def checkKey : Option String → Except Response String
  | none =>
      .error (.refused .badRequest (some ErrorMessages.idempotencyKeyRequired))
  | some key =>
      if key = "" || (strip key).length = 0 then
        .error (.refused .badRequest (some ErrorMessages.idempotencyKeyRequired))
      else if key.length > idempotencyKeyMaxLength then
        .error (.refused .badRequest (some ErrorMessages.idempotencyKeyTooLong))
      else .ok key

/-- The body as the route gets it; `RequestValidationError` is answered 400. -/
def checkBody : Body → Except Response JobCreate
  | .parsed b =>
      match b.jobCreate with
      | some body => .ok body
      | none => .error (.refused .badRequest none)
  | _ => .error (.refused .badRequest none)

/-- `POST /api/jobs` up to the call of the orchestrator: the arguments of that
    call, or the response. -/
def checkRequest (users : List User) (authorization idempotencyKey : Option String)
    (body : Body) : Except Response (JobCreate × User × String) :=
  -- JSON is decoded before the dependencies run, its fields are read after
  if body = .undecodable then .error (.refused .badRequest none)
  else
    match getCurrentUser users authorization with
    | none => .error unauthorized
    | some user =>
        match checkBody body with
        | .error response => .error response
        | .ok job =>
            match checkKey idempotencyKey with
            | .error response => .error response
            | .ok key => .ok (job, user, key)

/-! ## What comes after it -/

/-- The response to what `create_job` returned: a job is answered with the
    status of the route, a text with its own, an exception with 500. -/
def answerOf : CreateResult → Response
  | .ok (_, .inl job) => .job .created job
  | .ok (status, .inr message) => .refused (.of status) (some message)
  | .error _ => .refused .internalServerError none

/-- `GET /api/jobs/{job_id}`. -/
def getJobRoute (users : List User) (T : Table) (authorization : Option String)
    (jobId : String) : Response :=
  match getCurrentUser users authorization with
  | none => unauthorized
  | some user =>
      match getJob T jobId user.userId with
      | none => .refused .notFound (some ErrorMessages.jobNotFound)
      | some job => .job .ok job

/-- `GET /api/jobs`, for one of the listings SQLite may return. -/
def listJobsRoute (users : List User) (authorization : Option String)
    (rows : List Job) : Response :=
  match getCurrentUser users authorization with
  | none => unauthorized
  | some _ => .jobs rows

end JobApi
