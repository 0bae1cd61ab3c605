import JobScheduling.JobBroker

/-! # The worker

    `worker.py`: a dispatch message starts a thread, which publishes RUNNING,
    sleeps, and publishes FAILED or COMPLETED by the asset of the dispatch.
    A thread stands here at the two points where it is about to publish
    (`WorkerPc`); `ThreadMove` says once what one step of it can do. -/

namespace JobWorker

open JobClock JobPayload JobBroker

/-- `FAULT_ASSET_ID`. -/
def faultAssetId : String := "asset-fault"

/-- The error text of a simulated failure. -/
def failureText : String := "Simulated worker failure (asset-fault)"

/-- `f"{n:03d}"` for three digits. -/
def pad3 (n : Nat) : List Char :=
  [Nat.digitChar (n / 100), Nat.digitChar (n / 10 % 10), Nat.digitChar (n % 10)]

/-- `_iso_now()`, which reads the clock twice: the milliseconds are those of
    the second reading. -/
def isoNow (first second : Datetime) : String :=
  String.ofList (first.wholeSeconds ++ pad3 (second.microsecond / 1000) ++ ['Z'])

/-- The payload of `_publish_result`. -/
def resultPayload (jobId : Json) (state : String) (error : Option String)
    (timestamp : String) : Json :=
  .obj ([("job_id", jobId), ("state", .str state), ("timestamp", .str timestamp)]
    ++ match error with
      | some e => [("error_message", .str e)]
      | none => [])

/-- `_publish_result`: what reaches the broker, or the exception that ends the
    thread. -/
def publishResult (publish : PublishResult) (payload : Json) :
    Except PyExc (List Json) :=
  match publish with
  | .handed => .ok [payload]
  | .dropped => .ok []
  | .raised e => .error e

/-- `v == s`, for a string `s`. -/
def equalsText (v : Json) (s : String) : Bool :=
  match v with
  | .str t => t == s
  | _ => false

/-- Where a `_process_dispatch` thread is. -/
inductive WorkerPc where
  | started (payload : List (String × Json))
  | sleeping (jobId assetId : Json)
  | ended

/-- One step of a thread, with the clock reading and the publish of that
    step; `none` once it has ended. -/
def threadStep (timestamp : String) (publish : PublishResult) :
    WorkerPc → Option (WorkerPc × List Json)
  | .started payload =>
      let jobId := dictGet payload "job_id"
      let assetId := dictGet payload "asset_id"
      if !jobId.truthy || !assetId.truthy then some (.ended, [])
      else
        match publishResult publish
            (resultPayload jobId "RUNNING" none timestamp) with
        | .ok sent => some (.sleeping jobId assetId, sent)
        | .error _ => some (.ended, [])
  | .sleeping jobId assetId =>
      let payload :=
        if equalsText assetId faultAssetId then
          resultPayload jobId "FAILED" (some failureText) timestamp
        else resultPayload jobId "COMPLETED" none timestamp
      match publishResult publish payload with
      | .ok sent => some (.ended, sent)
      | .error _ => some (.ended, [])
  | .ended => none

/-- What the worker's `_on_message` does with a dispatch. -/
inductive Reception where
  | ignored
  | thread (pc : WorkerPc)
  | raised (e : PyExc)

/-- The worker's `_on_message`. -/
def onDispatch : Delivered → Reception
  | .error .JSONDecodeError => .ignored
  | .error .UnicodeDecodeError => .ignored
  | .error e => .raised e
  | .ok (.obj payload) => .thread (.started payload)
  | .ok _ => .raised .AttributeError

/-! ## What one step of a thread can do -/

/-- A dispatch without `job_id` or `asset_id` is ignored. -/
def malformed (payload : List (String × Json)) : Bool :=
  !(dictGet payload "job_id").truthy || !(dictGet payload "asset_id").truthy

/-- The payload of the terminal result. -/
def terminalPayload (jobId assetId : Json) (timestamp : String) : Json :=
  if equalsText assetId faultAssetId then
    resultPayload jobId "FAILED" (some failureText) timestamp
  else resultPayload jobId "COMPLETED" none timestamp

/-- What a publish that returns hands over: the payload, or nothing. -/
theorem publishResult_cases (publish : PublishResult) (payload : Json) :
    (∃ e, publish = .raised e ∧ publishResult publish payload = .error e)
      ∨ (∀ e, publish ≠ .raised e) ∧ ∃ sent, sent.Sublist [payload]
        ∧ publishResult publish payload = .ok sent := by
  cases publish with
  | handed =>
      refine Or.inr ⟨?_, [payload], List.Sublist.refl _, rfl⟩
      intro e h
      cases h
  | dropped =>
      refine Or.inr ⟨?_, [], List.nil_sublist _, rfl⟩
      intro e h
      cases h
  | raised e => exact Or.inl ⟨e, rfl, rfl⟩

/-- The moves of a thread: from a point to a point, with what reaches the
    broker. -/
inductive ThreadMove (timestamp : String) (publish : PublishResult) :
    WorkerPc → WorkerPc → List Json → Prop where
  | ignored (payload : List (String × Json)) (bad : malformed payload = true) :
      ThreadMove timestamp publish (.started payload) .ended []
  | running (payload : List (String × Json)) (sent : List Json)
      (good : malformed payload = false)
      (sends : publishResult publish (resultPayload (dictGet payload "job_id")
        "RUNNING" none timestamp) = .ok sent) :
      ThreadMove timestamp publish (.started payload)
        (.sleeping (dictGet payload "job_id") (dictGet payload "asset_id")) sent
  | terminal (jobId assetId : Json) (sent : List Json)
      (sends : publishResult publish (terminalPayload jobId assetId timestamp)
        = .ok sent) :
      ThreadMove timestamp publish (.sleeping jobId assetId) .ended sent
  | raised (pc : WorkerPc) (e : PyExc) (raises : publish = .raised e) :
      ThreadMove timestamp publish pc .ended []

/-- Every step of a thread is one of the moves. -/
theorem threadStep_move {timestamp : String} {publish : PublishResult}
    {pc pc' : WorkerPc} {sent : List Json}
    (h : threadStep timestamp publish pc = some (pc', sent)) :
    ThreadMove timestamp publish pc pc' sent := by
  cases pc with
  | started payload =>
      cases hm : malformed payload with
      | true =>
          have hm' := hm
          rw [malformed] at hm'
          simp only [threadStep, hm', if_true, Option.some.injEq,
            Prod.mk.injEq] at h
          obtain ⟨rfl, rfl⟩ := h
          exact .ignored payload hm
      | false =>
          have hm' := hm
          rw [malformed] at hm'
          rcases publishResult_cases publish (resultPayload
            (dictGet payload "job_id") "RUNNING" none timestamp) with
            ⟨e, he, hout⟩ | ⟨-, sent', -, hout⟩
          · simp only [threadStep, hm', hout, Bool.false_eq_true, if_false,
              Option.some.injEq, Prod.mk.injEq] at h
            obtain ⟨rfl, rfl⟩ := h
            exact .raised _ e he
          · simp only [threadStep, hm', hout, Bool.false_eq_true, if_false,
              Option.some.injEq, Prod.mk.injEq] at h
            obtain ⟨rfl, rfl⟩ := h
            exact .running payload sent' hm hout
  | sleeping jobId assetId =>
      rcases publishResult_cases publish (terminalPayload jobId assetId
        timestamp) with ⟨e, he, hout⟩ | ⟨-, sent', -, hout⟩
      · have hout' := hout
        rw [terminalPayload] at hout'
        simp only [threadStep, hout', Option.some.injEq, Prod.mk.injEq] at h
        obtain ⟨rfl, rfl⟩ := h
        exact .raised _ e he
      · have hout' := hout
        rw [terminalPayload] at hout'
        simp only [threadStep, hout', Option.some.injEq, Prod.mk.injEq] at h
        obtain ⟨rfl, rfl⟩ := h
        exact .terminal jobId assetId sent' hout
  | ended => cases h

end JobWorker
