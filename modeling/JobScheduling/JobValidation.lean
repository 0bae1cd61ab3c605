import JobScheduling.JobModels

/-! # Business rules of a submission

    `JobValidationService.validate`: asset, start in the future, start before
    end, duration between 15 minutes and 4 hours, operation length — in this
    order, the first violated rule answers. -/

namespace JobValidation

open JobConstants JobClock JobModels

/-- `validate(body, user_id)` at the clock reading `now`; `none` if valid. -/
def validate (cfg : Config) (body : JobCreate) (now : Datetime) :
    Option (HTTPStatus × String) :=
  if !cfg.validAssets.contains body.assetId then
    some (.unprocessableEntity, ErrorMessages.unknownAsset body.assetId)
  else if body.startTime.notAfter now then
    some (.unprocessableEntity, ErrorMessages.startTimeInPast)
  else if body.endTime.notAfter body.startTime then
    some (.unprocessableEntity, ErrorMessages.startNotBeforeEnd)
  else if body.endTime.sub body.startTime < minJobDuration then
    some (.unprocessableEntity, ErrorMessages.durationTooShort)
  else if body.endTime.sub body.startTime > maxJobDuration then
    some (.unprocessableEntity, ErrorMessages.durationTooLong)
  else if body.operation.isEmpty || body.operation.length > operationMaxLength then
    some (.unprocessableEntity, ErrorMessages.operationInvalid)
  else none

/-- A rejected body is always answered 422. -/
theorem validate_status {cfg : Config} {body : JobCreate} {now : Datetime}
    {status : HTTPStatus} {message : String}
    (h : validate cfg body now = some (status, message)) :
    status = .unprocessableEntity := by
  simp only [validate] at h
  repeat' split at h
  all_goals cases h <;> rfl

/-- A valid body names an asset of the configuration. -/
theorem validate_asset {cfg : Config} {body : JobCreate} {now : Datetime}
    (h : validate cfg body now = none) : body.assetId ∈ cfg.validAssets := by
  rw [validate] at h
  split at h
  · cases h
  · rename_i hasset
    simpa using hasset

end JobValidation
