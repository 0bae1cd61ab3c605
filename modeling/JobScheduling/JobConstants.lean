import Mathlib.Data.List.Basic

/-! # Application-wide constants

    The limits, job states, payload fields, timestamp format and error texts
    of `service/constants.py`, as far as a modelled function reads them, and
    the configuration the seed file provides. -/

namespace JobConstants

/-! ## HTTP headers -/

def bearerPrefix : String := "Bearer "

/-! ## Validation limits -/

def idempotencyKeyMaxLength : Nat := 100

def operationMaxLength : Nat := 64

def maxActiveJobsPerUser : Nat := 10

/-- A `timedelta`, in microseconds. -/
abbrev Timedelta := Int

def microsecondsPerSecond : Nat := 1000000

/-- `timedelta(minutes=15)`. -/
def minJobDuration : Timedelta := 15 * 60 * microsecondsPerSecond

/-- `timedelta(hours=4)`. -/
def maxJobDuration : Timedelta := 4 * 3600 * microsecondsPerSecond

/-! ## MQTT and job payload fields -/

def fieldJobId : String := "job_id"
def fieldAssetId : String := "asset_id"
def fieldState : String := "state"
def fieldErrorMessage : String := "error_message"
def fieldStartTime : String := "start_time"
def fieldEndTime : String := "end_time"
def fieldOperation : String := "operation"
def fieldTimestamp : String := "timestamp"

/-! ## Socket.IO -/

def socketioEventJobUpdate : String := "job_update"
def socketioRoomPrefix : String := "user:"
def socketioQueryToken : String := "token"

/-! ## Job states -/

def statePending : String := "PENDING"
def stateRunning : String := "RUNNING"
def stateCompleted : String := "COMPLETED"
def stateFailed : String := "FAILED"

def activeStates : List String := [statePending, stateRunning]

/-! ## Error messages -/

namespace ErrorMessages

def idempotencyKeyRequired : String := "Idempotency-Key header is required"
def idempotencyKeyTooLong : String := "Idempotency-Key must be <= 100 characters"
/-- `UNKNOWN_ASSET.format(asset_id=…)`. -/
def unknownAsset (assetId : String) : String := "Unknown asset_id: " ++ assetId
def startTimeInPast : String := "start_time must be in the future"
def startNotBeforeEnd : String := "start_time must be before end_time"
def durationTooShort : String := "Duration must be at least 15 minutes"
def durationTooLong : String := "Duration must not exceed 4 hours"
def operationInvalid : String :=
  "operation must be a non-empty string up to 64 characters"
def maxActiveJobs : String := "Maximum 10 active jobs per user"
def overlapConflict : String := "Overlapping job exists on this asset"
def invalidToken : String := "Missing or invalid Authorization header"
def jobNotFound : String := "Job not found"

end ErrorMessages

/-! ## HTTP statuses -/

/-- The statuses the orchestrator answers with: 201, 409 and 422. -/
inductive HTTPStatus where
  | created
  | conflict
  | unprocessableEntity
deriving DecidableEq, Repr

/-! ## Configuration -/

/-- What `config.py` loads from the seed file at import: `VALID_ASSETS`. -/
structure Config where
  validAssets : List String

/-- The assets of the shipped `data/seed.json`. -/
def seedConfig : Config where
  validAssets := ["asset-001", "asset-002", "asset-003", "asset-004",
    "asset-005", "asset-006", "asset-007", "asset-008", "asset-fault"]

end JobConstants
