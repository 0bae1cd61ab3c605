import JobScheduling.JobSystem

/-! # Outcomes of jobs

    With the worker as the only publisher on `jobs/result`, a row ends FAILED
    exactly on the fault asset, with the worker's text, COMPLETED exactly on
    the others, without one — whatever the two topics lose, copy or reorder.

    A row carries the answer to its own asset (`Outcome`).  That rests on the
    messages in flight (`SystemOk`) and on the update the handler is about to
    make (`HandlerGenuine`), since an update overwrites the error message. -/

namespace JobOutcomes

open JobConstants JobClock JobPayload JobModels JobRepository JobBroker
open JobOrchestrator JobService JobLedger JobWorker JobSystem
open KeyedTable Runs Channels

/-- The state and the error message of a row match its asset. -/
structure Outcome (r : Job) : Prop where
  failed : r.state = stateFailed →
    r.assetId = faultAssetId ∧ r.errorMessage = some failureText
  completed : r.state = stateCompleted →
    r.assetId ≠ faultAssetId ∧ r.errorMessage = none
  active : r.state ∈ activeStates → r.errorMessage = none

/-- A new job has no outcome yet. -/
theorem outcome_newJob (c : Call) : Outcome (newJob c) where
  failed := fun h => absurd h (show statePending ≠ stateFailed by decide)
  completed := fun h => absurd h (show statePending ≠ stateCompleted by decide)
  active := fun _ => rfl

/-- An answer to a row's asset, as bound for its columns, is an outcome. -/
theorem outcome_answer {r : Job} {state err : Json} {st : String}
    {errText : Option String} (h : Answer r.assetId state err)
    (hst : state.bindText = .ok (some st)) (herr : err.bindText = .ok errText)
    (now : String) : Outcome (r.setState st errText now) := by
  cases h with
  | running =>
      obtain rfl : stateRunning = st := Option.some.inj (Except.ok.inj hst)
      obtain rfl : none = errText := Except.ok.inj herr
      exact ⟨fun h => absurd h (show stateRunning ≠ stateFailed by decide),
        fun h => absurd h (show stateRunning ≠ stateCompleted by decide),
        fun _ => rfl⟩
  | failed fault =>
      obtain rfl : stateFailed = st := Option.some.inj (Except.ok.inj hst)
      obtain rfl : some failureText = errText := Except.ok.inj herr
      exact ⟨fun _ => ⟨fault, rfl⟩,
        fun h => absurd h (show stateFailed ≠ stateCompleted by decide),
        fun h => absurd h (show stateFailed ∉ activeStates by decide)⟩
  | completed sound =>
      obtain rfl : stateCompleted = st := Option.some.inj (Except.ok.inj hst)
      obtain rfl : none = errText := Except.ok.inj herr
      exact ⟨fun h => absurd h (show stateCompleted ≠ stateFailed by decide),
        fun _ => ⟨sound, rfl⟩, fun _ => rfl⟩

/-- The update the handler is about to make answers to its row's asset. -/
def HandlerGenuine (T : Table) : HandlerPc → Prop
  | .update jobId newState errorMsg _ =>
      ∃ r ∈ T, jobId = .str r.id ∧ Answer r.assetId newState errorMsg
  | .idle => True
  | .reread _ => True
  | .notify _ => True
  | .dead _ => True

/-- What the handler has accepted stays accepted while rows are rewritten. -/
theorem HandlerGenuine.evolves {T T' : Table} (hT : Evolves SameJob T T')
    {pc : HandlerPc} (h : HandlerGenuine T pc) : HandlerGenuine T' pc := by
  cases pc with
  | update jobId newState errorMsg now =>
      obtain ⟨r, hr, hid, hans⟩ := h
      obtain ⟨r', hr', hsame⟩ := hT.mem hr
      refine ⟨r', hr', ?_, ?_⟩
      · rw [hid, hsame.id]
      · rw [hsame.assetId]
        exact hans
  | _ => exact trivial

/-- A message of the worker makes the handler genuine. -/
theorem handlerGenuine_receive {T : Table} {msg : Delivered}
    (h : ResultOk T msg) (now : Datetime) :
    HandlerGenuine T (receive T msg now) := by
  rw [receive]
  cases hv : readMessage T msg with
  | ignored why => exact trivial
  | raised e => exact trivial
  | proceed jobId newState errorMsg =>
      obtain ⟨payload, -, -, -, -, hmsg, hjob, -, hstate, herr, -⟩ :=
        readMessage_proceed hv
      obtain ⟨r, hr, payload', hmsg', hid, hans⟩ := h
      rw [hmsg] at hmsg'
      have hp : payload = payload' := Json.obj.inj (Except.ok.inj hmsg')
      rw [← hp] at hid hans
      refine ⟨r, hr, hjob.trans hid, ?_⟩
      rw [hstate, herr]
      exact hans

/-- Rows with outcomes, and a handler that will keep it so. -/
structure ServiceGenuine (s : Service) : Prop where
  rows : ∀ r ∈ s.jobs, Outcome r
  handler : HandlerGenuine s.jobs s.handler

/-- A step of the service that takes no message keeps the outcomes. -/
theorem serviceGenuine_step {cfg : Config} {s s' : Service} {l : Label}
    (hok : ServiceOk cfg s) (hs : ServiceGenuine s)
    (hl : ∀ msg now, l ≠ .deliver msg now) (h : step cfg s l = some s') :
    ServiceGenuine s' := by
  have hevolve := jobs_evolve hok (exec_one.mpr h)
  cases step_move h with
  | submit c => exact ⟨hs.rows, hs.handler⟩
  | deliver msg now idle => exact absurd rfl (hl msg now)
  | call i c pc pc' T' ev here move =>
      have hc : CallOk cfg c s.jobs pc := hok.call here
      refine ⟨?_, hs.handler.evolves hevolve⟩
      rcases (CreateMove.ledger move hc).1 with rfl | ⟨happ, -⟩
      · exact hs.rows
      · intro r hr
        have hr' : r ∈ s.jobs ++ [newJob c] := by
          rw [← happ]
          exact hr
        rcases List.mem_append.mp hr' with hold | hnew
        · exact hs.rows r hold
        · rw [List.mem_singleton.mp hnew]
          exact outcome_newJob c
  | handler pc' T' ev move =>
      have hgen := hs.handler
      have hhok := hok.handler
      generalize s.handler = pc at move hgen hhok
      cases move with
      | stored jobId newState errorMsg now T' stored =>
          refine ⟨?_, trivial⟩
          obtain ⟨-, id, st, err, hid, hst, herr, hT'⟩ :=
            store_ledger hok.ids hhok stored
          obtain ⟨r, hr, hjob, hans⟩ := hgen
          have hrid : r.id = id := by
            rw [hjob] at hid
            exact Option.some.inj (Except.ok.inj hid)
          intro r' hr'
          have hmem : r' ∈ setState s.jobs id st err now.strftime := by
            rw [← hT']
            exact hr'
          obtain ⟨r₀, hr₀, heq⟩ := mem_updateWhere.mp hmem
          by_cases hid₀ : (r₀.id == id) = true
          · -- the row written is the row the message is about
            have hrow : r₀ = r := by
              refine List.inj_on_of_nodup_map hok.ids hr₀ hr ?_
              rw [hrid]
              exact beq_iff_eq.mp hid₀
            rw [if_pos hid₀, hrow] at heq
            rw [heq]
            exact outcome_answer hans hst herr _
          · rw [if_neg hid₀] at heq
            rw [heq]
            exact hs.rows r₀ hr₀
      | storeRaised jobId newState errorMsg now e T' stored =>
          have hT' := (store_raised hhok stored).1
          refine ⟨?_, trivial⟩
          show ∀ r ∈ T', Outcome r
          rw [hT']
          exact hs.rows
      | _ => exact ⟨hs.rows, trivial⟩

/-- The message does not come from another publisher. -/
def FromWorker : SystemLabel → Prop
  | .inject _ => False
  | .service _ => True
  | .dispatchFault _ => True
  | .receive _ => True
  | .thread _ _ _ _ => True
  | .resultFault _ => True
  | .result _ _ => True

/-- The invariant of the system when the worker is the only publisher. -/
structure Genuine (cfg : Config) (sys : System) : Prop where
  ok : SystemOk cfg sys
  service : ServiceGenuine sys.service
  senders : ∀ m ∈ sys.results, m.sender = .worker

theorem genuine_empty (cfg : Config) : Genuine cfg System.empty where
  ok := systemOk_empty cfg
  service := ⟨fun _ h => absurd h List.not_mem_nil, trivial⟩
  senders := fun _ h => absurd h List.not_mem_nil

/-- **Every step keeps it**, as long as only the worker publishes results. -/
theorem genuine_step {cfg : Config} {sys sys' : System} {l : SystemLabel}
    (hs : Genuine cfg sys) (hl : FromWorker l)
    (h : systemStep cfg sys l = some sys') : Genuine cfg sys' := by
  have hok := systemOk_step hs.ok h
  cases systemStep_move h with
  | service l s' noMessage move =>
      exact ⟨hok, serviceGenuine_step hs.ok.service hs.service noMessage move,
        hs.senders⟩
  | dispatchFault f ms disturbed => exact ⟨hok, hs.service, hs.senders⟩
  | receive i threads payload rest up taken =>
      exact ⟨hok, hs.service, hs.senders⟩
  | thread j first second publish threads pc pc' sent up here move =>
      refine ⟨hok, hs.service, ?_⟩
      intro m hm
      rcases List.mem_append.mp hm with hold | hnew
      · exact hs.senders m hold
      · obtain ⟨p, -, rfl⟩ := List.mem_map.mp hnew
        rfl
  | inject msg => exact absurd hl id
  | resultFault f ms disturbed =>
      exact ⟨hok, hs.service,
        fun m hm => hs.senders m (mem_of_mem_disturb disturbed hm)⟩
  | result i now m rest s' taken move =>
      obtain ⟨hm, hrest⟩ := mem_of_take taken
      have hres := hs.ok.results m hm (hs.senders m hm)
      refine ⟨hok, ?_, fun x hx => hs.senders x (hrest x hx)⟩
      cases step_move move with
      | deliver _ _ idle =>
          exact ⟨hs.service.rows, handlerGenuine_receive hres now⟩

/-- **Outcomes agree**: in every reachable table a FAILED row is on the fault
    asset and has the worker's failure text, a COMPLETED row is on another
    asset and has no error message, and neither has a row that is still
    active. -/
theorem outcomes_agree {cfg : Config} {ls : List SystemLabel} {sys : System}
    (hls : ∀ l ∈ ls, FromWorker l)
    (h : exec (systemStep cfg) System.empty ls = some sys) :
    ∀ r ∈ sys.service.jobs,
      (r.state = stateFailed → r.assetId = faultAssetId
          ∧ r.errorMessage = some failureText ∧ failureText ≠ "")
        ∧ (r.state = stateCompleted →
            r.assetId ≠ faultAssetId ∧ r.errorMessage = none)
        ∧ (r.state = statePending ∨ r.state = stateRunning →
            r.errorMessage = none) := by
  have hgen : Genuine cfg sys :=
    exec_invariant_of (fun _ _ _ hs hl hst => genuine_step hs hl hst) hls
      (genuine_empty cfg) h
  intro r hr
  have hrow := hgen.service.rows r hr
  refine ⟨?_, hrow.completed, ?_⟩
  · intro hfailed
    exact ⟨(hrow.failed hfailed).1, (hrow.failed hfailed).2, by decide⟩
  · rintro (hpending | hrunning)
    · exact hrow.active (by rw [hpending]; decide)
    · exact hrow.active (by rw [hrunning]; decide)

/-- A job of the faulty asset fails, with the text of the failure. -/
theorem outcomes_agree_delivered :
    ∃ sys r, exec (systemStep seedConfig) System.empty (delivered "asset-fault")
        = some sys
      ∧ sys.service.jobs[0]? = some r ∧ r.state = stateFailed
      ∧ r.errorMessage = some failureText := by
  obtain ⟨sys, hsys, hrow⟩ := Option.map_eq_some_iff.mp
    (show (exec (systemStep seedConfig) System.empty (delivered "asset-fault")).map
        (fun sys => sys.service.jobs[0]?.map Job.state)
      = some (some stateFailed) by decide)
  obtain ⟨r, hr, hstate⟩ := Option.map_eq_some_iff.mp hrow
  have hls : ∀ l ∈ delivered "asset-fault", FromWorker l := by
    intro l hl
    simp only [delivered, List.mem_cons, List.not_mem_nil, or_false] at hl
    rcases hl with rfl | rfl | rfl | rfl | rfl | rfl | rfl | rfl | rfl | rfl |
      rfl | rfl | rfl | rfl | rfl <;> exact trivial
  have hmem : r ∈ sys.service.jobs := List.mem_of_getElem? hr
  exact ⟨sys, r, hsys, hr, hstate,
    ((outcomes_agree hls hsys r hmem).1 hstate).2.1⟩

end JobOutcomes
