import JobScheduling.Channels
import JobScheduling.JobDispatch
import JobScheduling.JobHandler
import JobScheduling.JobWorker

/-! # Service and worker over unreliable topics

    The service, the messages in flight on `jobs/dispatch`, the worker's
    threads, and the messages in flight on `jobs/result`.  Both topics lose,
    duplicate and reorder; other publishers may put anything on
    `jobs/result`.  `system_refines_service`: on its service, every run of the
    system is a run of the service.

    `SystemOk` says what holds of every message in flight and of every thread:
    each is about a stored row, and carries its columns.  From it:
    `dispatch_once_after_commit` — dispatches are faithful and unique, and no
    answer of the worker is ever dropped as unknown. -/

namespace JobSystem

open JobConstants JobClock JobPayload JobModels JobRepository JobBroker
open JobOrchestrator JobService JobLedger JobDispatch JobHandler JobWorker
open KeyedTable Runs Channels

/-- Who put a message on `jobs/result`. -/
inductive Sender where
  | worker
  | other
deriving DecidableEq

structure Result where
  sender : Sender
  payload : Delivered

structure System where
  service : Service
  dispatches : List Json
  /-- `none` once the worker process has ended. -/
  threads : Option (List WorkerPc)
  results : List Result

def System.empty : System := ⟨Service.empty, [], some [], []⟩

inductive SystemLabel where
  | service (l : Label)
  | dispatchFault (f : Fault)
  | receive (i : Nat)
  | thread (j : Nat) (first second : Datetime) (publish : PublishResult)
  | inject (msg : Delivered)
  | resultFault (f : Fault)
  | result (i : Nat) (now : Datetime)

/-- The dispatch messages that reached the broker. -/
def handed (events : List Event) : List Json :=
  events.filterMap (fun ev =>
    match ev with
    | .dispatch payload .handed => some payload
    | _ => none)

/-- The worker after it took a dispatch message; an exception ends it with all
    its threads. -/
def receiveDispatch (threads : List WorkerPc) (payload : Json) :
    Option (List WorkerPc) :=
  match onDispatch (.ok payload) with
  | .ignored => some threads
  | .thread pc => some (threads ++ [pc])
  | .raised _ => none

/-- One step of the system.  The service gets its messages from the channel
    only. -/
def systemStep (cfg : Config) (sys : System) : SystemLabel → Option System
  | .service (.deliver _ _) => none
  | .service l =>
      match step cfg sys.service l with
      | none => none
      | some s' =>
          some { sys with
            service := s'
            dispatches := sys.dispatches
              ++ handed (s'.log.drop sys.service.log.length) }
  | .dispatchFault f =>
      match disturb sys.dispatches f with
      | none => none
      | some ms => some { sys with dispatches := ms }
  | .receive i =>
      match sys.threads, take sys.dispatches i with
      | some threads, some (payload, rest) =>
          some { sys with
            dispatches := rest
            threads := receiveDispatch threads payload }
      | _, _ => none
  | .thread j first second publish =>
      match sys.threads with
      | none => none
      | some threads =>
          match threads[j]? with
          | none => none
          | some pc =>
              match threadStep (isoNow first second) publish pc with
              | none => none
              | some (pc', sent) =>
                  some { sys with
                    threads := some (threads.set j pc')
                    results := sys.results
                      ++ sent.map (fun payload => ⟨.worker, .ok payload⟩) }
  | .inject msg => some { sys with results := sys.results ++ [⟨.other, msg⟩] }
  | .resultFault f =>
      match disturb sys.results f with
      | none => none
      | some ms => some { sys with results := ms }
  | .result i now =>
      match take sys.results i with
      | none => none
      | some (m, rest) =>
          match step cfg sys.service (.deliver m.payload now) with
          | none => none
          | some s' => some { sys with service := s', results := rest }

/-! ## What one step can do -/

/-- The moves of the system. -/
inductive SystemMove (cfg : Config) (sys : System) :
    SystemLabel → System → Prop where
  | service (l : Label) (s' : Service)
      (noMessage : ∀ msg now, l ≠ .deliver msg now)
      (move : step cfg sys.service l = some s') :
      SystemMove cfg sys (.service l)
        { sys with
          service := s'
          dispatches := sys.dispatches
            ++ handed (s'.log.drop sys.service.log.length) }
  | dispatchFault (f : Fault) (ms : List Json)
      (disturbed : disturb sys.dispatches f = some ms) :
      SystemMove cfg sys (.dispatchFault f) { sys with dispatches := ms }
  | receive (i : Nat) (threads : List WorkerPc) (payload : Json)
      (rest : List Json) (up : sys.threads = some threads)
      (taken : take sys.dispatches i = some (payload, rest)) :
      SystemMove cfg sys (.receive i)
        { sys with
          dispatches := rest
          threads := receiveDispatch threads payload }
  | thread (j : Nat) (first second : Datetime) (publish : PublishResult)
      (threads : List WorkerPc) (pc pc' : WorkerPc) (sent : List Json)
      (up : sys.threads = some threads) (here : threads[j]? = some pc)
      (move : threadStep (isoNow first second) publish pc = some (pc', sent)) :
      SystemMove cfg sys (.thread j first second publish)
        { sys with
          threads := some (threads.set j pc')
          results := sys.results
            ++ sent.map (fun payload => ⟨.worker, .ok payload⟩) }
  | inject (msg : Delivered) :
      SystemMove cfg sys (.inject msg)
        { sys with results := sys.results ++ [⟨.other, msg⟩] }
  | resultFault (f : Fault) (ms : List Result)
      (disturbed : disturb sys.results f = some ms) :
      SystemMove cfg sys (.resultFault f) { sys with results := ms }
  | result (i : Nat) (now : Datetime) (m : Result) (rest : List Result)
      (s' : Service) (taken : take sys.results i = some (m, rest))
      (move : step cfg sys.service (.deliver m.payload now) = some s') :
      SystemMove cfg sys (.result i now)
        { sys with service := s', results := rest }

/-- Every step of the system is one of the moves. -/
theorem systemStep_move {cfg : Config} {sys sys' : System} {l : SystemLabel}
    (h : systemStep cfg sys l = some sys') : SystemMove cfg sys l sys' := by
  cases l with
  | service l =>
      have hmoved : (∀ msg now, l ≠ .deliver msg now) →
          (match step cfg sys.service l with
            | none => none
            | some s' => some { sys with
                service := s'
                dispatches := sys.dispatches
                  ++ handed (s'.log.drop sys.service.log.length) })
            = some sys' → SystemMove cfg sys (.service l) sys' := by
        intro hl h'
        cases hst : step cfg sys.service l with
        | none => rw [hst] at h'; cases h'
        | some s' =>
            rw [hst] at h'
            rw [← Option.some.inj h']
            exact .service l s' hl hst
      cases l with
      | deliver msg now => cases h
      | submit c => exact hmoved (fun _ _ heq => by cases heq) h
      | call i => exact hmoved (fun _ _ heq => by cases heq) h
      | handler => exact hmoved (fun _ _ heq => by cases heq) h
  | dispatchFault f =>
      cases hd : disturb sys.dispatches f with
      | none => simp [systemStep, hd] at h
      | some ms =>
          simp only [systemStep, hd, Option.some.injEq] at h
          rw [← h]
          exact .dispatchFault f ms hd
  | receive i =>
      cases hup : sys.threads with
      | none => simp [systemStep, hup] at h
      | some threads =>
          cases ht : take sys.dispatches i with
          | none => simp [systemStep, hup, ht] at h
          | some p =>
              obtain ⟨payload, rest⟩ := p
              simp only [systemStep, hup, ht, Option.some.injEq] at h
              rw [← h]
              exact .receive i threads payload rest hup ht
  | thread j first second publish =>
      cases hup : sys.threads with
      | none => simp [systemStep, hup] at h
      | some threads =>
          cases hj : threads[j]? with
          | none => simp [systemStep, hup, hj] at h
          | some pc =>
              cases hm : threadStep (isoNow first second) publish pc with
              | none => simp [systemStep, hup, hj, hm] at h
              | some p =>
                  obtain ⟨pc', sent⟩ := p
                  simp only [systemStep, hup, hj, hm, Option.some.injEq] at h
                  rw [← h]
                  exact .thread j first second publish threads pc pc' sent hup
                    hj hm
  | inject msg =>
      rw [← Option.some.inj h]
      exact .inject msg
  | resultFault f =>
      cases hd : disturb sys.results f with
      | none => simp [systemStep, hd] at h
      | some ms =>
          simp only [systemStep, hd, Option.some.injEq] at h
          rw [← h]
          exact .resultFault f ms hd
  | result i now =>
      cases ht : take sys.results i with
      | none => simp [systemStep, ht] at h
      | some p =>
          obtain ⟨m, rest⟩ := p
          cases hst : step cfg sys.service (.deliver m.payload now) with
          | none => simp [systemStep, ht, hst] at h
          | some s' =>
              simp only [systemStep, ht, hst, Option.some.injEq] at h
              rw [← h]
              exact .result i now m rest s' ht hst

/-- A step of the system leaves the service alone or is a step of it. -/
theorem systemStep_service {cfg : Config} {sys sys' : System} {l : SystemLabel}
    (h : systemStep cfg sys l = some sys') :
    sys'.service = sys.service
      ∨ ∃ l', step cfg sys.service l' = some sys'.service := by
  cases systemStep_move h with
  | service l s' noMessage move => exact Or.inr ⟨l, move⟩
  | result i now m rest s' taken move => exact Or.inr ⟨_, move⟩
  | _ => exact Or.inl rfl

/-- **Refinement**: on its service, every run of the system is a run of the
    service. -/
theorem system_refines_service {cfg : Config} {ls : List SystemLabel}
    {sys : System} (h : exec (systemStep cfg) System.empty ls = some sys) :
    ∃ ms, exec (step cfg) Service.empty ms = some sys.service := by
  have hsim : ∀ sys s l sys', sys.service = s → systemStep cfg sys l = some sys' →
      ∃ ms s', exec (step cfg) s ms = some s' ∧ sys'.service = s' := by
    intro sys s l sys' hs hst
    rw [← hs]
    rcases systemStep_service hst with heq | ⟨l', hl'⟩
    · exact ⟨[], sys.service, rfl, heq⟩
    · exact ⟨[l'], sys'.service, exec_one.mpr hl', rfl⟩
  have hstart : System.empty.service = Service.empty := rfl
  obtain ⟨ms, s', hms, hs'⟩ := exec_simulates
    (R := fun sys s => sys.service = s) hsim hstart h
  exact ⟨ms, by rw [hms, hs']⟩

/-! ## What holds of every message in flight -/

/-- The states and error messages the worker answers with, by asset. -/
inductive Answer (assetId : String) : Json → Json → Prop where
  | running : Answer assetId (.str stateRunning) .null
  | failed (fault : assetId = faultAssetId) :
      Answer assetId (.str stateFailed) (.str failureText)
  | completed (sound : assetId ≠ faultAssetId) :
      Answer assetId (.str stateCompleted) .null

/-- The message answers the dispatch of a stored row. -/
def ResultOk (T : Table) (msg : Delivered) : Prop :=
  ∃ r ∈ T, ∃ payload, msg = .ok (.obj payload)
    ∧ dictGet payload fieldJobId = .str r.id
    ∧ Answer r.assetId (dictGet payload fieldState)
        (dictGet payload fieldErrorMessage)

/-- The thread works on the dispatch of a stored row. -/
def ThreadOk (T : Table) : WorkerPc → Prop
  | .started payload => ∃ r ∈ T, .obj payload = dispatchPayload r
  | .sleeping jobId assetId =>
      ∃ r ∈ T, jobId = .str r.id ∧ assetId = .str r.assetId
  | .ended => True

/-- An answer stays one while the table goes on. -/
theorem ResultOk.evolves {T T' : Table} (hT : Evolves SameJob T T')
    {msg : Delivered} (h : ResultOk T msg) : ResultOk T' msg := by
  obtain ⟨r, hr, payload, hmsg, hid, hans⟩ := h
  obtain ⟨r', hr', hsame⟩ := hT.mem hr
  refine ⟨r', hr', payload, hmsg, ?_, ?_⟩
  · rw [hid, hsame.id]
  · rw [hsame.assetId]
    exact hans

/-- So does a thread keep its row. -/
theorem ThreadOk.evolves {T T' : Table} (hT : Evolves SameJob T T')
    {pc : WorkerPc} (h : ThreadOk T pc) : ThreadOk T' pc := by
  cases pc with
  | started payload =>
      obtain ⟨r, hr, hp⟩ := h
      obtain ⟨r', hr', hsame⟩ := hT.mem hr
      exact ⟨r', hr', hp.trans hsame.dispatchPayload.symm⟩
  | sleeping jobId assetId =>
      obtain ⟨r, hr, hid, hasset⟩ := h
      obtain ⟨r', hr', hsame⟩ := hT.mem hr
      exact ⟨r', hr', by rw [hid, hsame.id], by rw [hasset, hsame.assetId]⟩
  | ended => exact trivial

/-- What a publish sends is the payload it was given. -/
theorem publishResult_sent {publish : PublishResult} {payload : Json}
    {sent : List Json} (h : publishResult publish payload = .ok sent) :
    ∀ p ∈ sent, p = payload := by
  intro p hp
  cases publish with
  | handed =>
      have hsent : [payload] = sent := Except.ok.inj h
      rw [← hsent] at hp
      exact List.mem_singleton.mp hp
  | dropped =>
      have hsent : [] = sent := Except.ok.inj h
      rw [← hsent] at hp
      cases hp
  | raised e => cases h

/-- A thread on a stored row answers with messages about that row. -/
theorem threadStep_ok {T : Table} {timestamp : String} {publish : PublishResult}
    {pc pc' : WorkerPc} {sent : List Json} (hpc : ThreadOk T pc)
    (h : threadStep timestamp publish pc = some (pc', sent)) :
    ThreadOk T pc' ∧ ∀ p ∈ sent, ResultOk T (.ok p) := by
  cases threadStep_move h with
  | ignored payload bad =>
      refine ⟨trivial, ?_⟩
      intro p hmem
      cases hmem
  | running payload sent good sends =>
      obtain ⟨r, hr, hp⟩ := hpc
      have hp' : payload = [(fieldJobId, .str r.id), (fieldAssetId, .str r.assetId),
          (fieldStartTime, .str r.startTime), (fieldEndTime, .str r.endTime),
          (fieldOperation, r.operation.toJson)] := Json.obj.inj hp
      have hid : dictGet payload "job_id" = .str r.id := by rw [hp']; rfl
      have hasset : dictGet payload "asset_id" = .str r.assetId := by rw [hp']; rfl
      refine ⟨⟨r, hr, hid, hasset⟩, ?_⟩
      intro p hmem
      rw [publishResult_sent sends p hmem, hid]
      exact ⟨r, hr, _, rfl, rfl, .running⟩
  | terminal jobId assetId sent sends =>
      obtain ⟨r, hr, rfl, rfl⟩ := hpc
      refine ⟨trivial, ?_⟩
      intro p hmem
      rw [publishResult_sent sends p hmem, terminalPayload]
      -- the terminal state is chosen by the asset of the dispatch
      by_cases hfault : r.assetId = faultAssetId
      · have heq : equalsText (.str r.assetId) faultAssetId = true :=
          beq_iff_eq.mpr hfault
        rw [if_pos heq]
        exact ⟨r, hr, _, rfl, rfl, .failed hfault⟩
      · have hne : ¬ equalsText (.str r.assetId) faultAssetId = true :=
          fun heq => hfault (beq_iff_eq.mp heq)
        rw [if_neg hne]
        exact ⟨r, hr, _, rfl, rfl, .completed hfault⟩
  | raised pc e raises =>
      refine ⟨trivial, ?_⟩
      intro p hmem
      cases hmem

/-- The invariant of the system. -/
structure SystemOk (cfg : Config) (sys : System) : Prop where
  service : ServiceOk cfg sys.service
  encodable : ∀ r ∈ sys.service.jobs, r.operation.encodable = true
  dispatch : DispatchOk sys.service
  dispatches : ∀ p ∈ sys.dispatches, ∃ r ∈ sys.service.jobs, p = dispatchPayload r
  threads : ∀ threads, sys.threads = some threads →
    ∀ pc ∈ threads, ThreadOk sys.service.jobs pc
  results : ∀ m ∈ sys.results, m.sender = .worker →
    ResultOk sys.service.jobs m.payload

theorem systemOk_empty (cfg : Config) : SystemOk cfg System.empty where
  service := serviceOk_empty cfg
  encodable := fun _ h => absurd h List.not_mem_nil
  dispatch := dispatchOk_empty
  dispatches := fun _ h => absurd h List.not_mem_nil
  threads := fun threads h pc hpc => by
    rw [← Option.some.inj h] at hpc
    cases hpc
  results := fun _ h => absurd h List.not_mem_nil

/-- A step of the service keeps what holds of the messages in flight. -/
theorem SystemOk.service_step {cfg : Config} {sys : System} {s' : Service}
    {l : Label} (hs : SystemOk cfg sys) (h : step cfg sys.service l = some s') :
    SystemOk cfg { sys with service := s' } := by
  have hevolve := jobs_evolve hs.service (exec_one.mpr h)
  refine ⟨serviceOk_step hs.service h, ?_,
    dispatchOk_step hs.service hs.dispatch h, ?_, ?_, ?_⟩
  · show ∀ r ∈ s'.jobs, r.operation.encodable = true
    rcases (step_refines hs.service h).1 with heq | hstep
    · rw [heq]
      exact hs.encodable
    · exact hstep.encodable hs.encodable
  · intro p hp
    obtain ⟨r, hr, heq⟩ := hs.dispatches p hp
    obtain ⟨r', hr', hsame⟩ := hevolve.mem hr
    exact ⟨r', hr', heq.trans hsame.dispatchPayload.symm⟩
  · intro threads hup pc hpc
    exact (hs.threads threads hup pc hpc).evolves hevolve
  · intro m hm hsender
    exact (hs.results m hm hsender).evolves hevolve

/-- What reached the broker is the dispatch of a stored row. -/
theorem handed_ok {s : Service} (hs : DispatchOk s) (n : Nat) {p : Json}
    (hp : p ∈ handed (s.log.drop n)) : ∃ r ∈ s.jobs, p = dispatchPayload r := by
  obtain ⟨ev, hev, hsome⟩ := List.mem_filterMap.mp hp
  have hlog : ev ∈ s.log := List.mem_of_mem_drop hev
  match ev, hsome with
  | .dispatch payload .handed, hsome =>
      rw [← Option.some.inj hsome]
      exact hs.rows payload .handed hlog

/-- **Every step of the system keeps it.** -/
theorem systemOk_step {cfg : Config} {sys sys' : System} {l : SystemLabel}
    (hs : SystemOk cfg sys) (h : systemStep cfg sys l = some sys') :
    SystemOk cfg sys' := by
  cases systemStep_move h with
  | service l s' noMessage move =>
      have hs' := hs.service_step move
      refine ⟨hs'.service, hs'.encodable, hs'.dispatch, ?_, hs'.threads,
        hs'.results⟩
      intro p hp
      rcases List.mem_append.mp hp with hold | hnew
      · exact hs'.dispatches p hold
      · exact handed_ok hs'.dispatch _ hnew
  | dispatchFault f ms disturbed =>
      exact ⟨hs.service, hs.encodable, hs.dispatch,
        fun p hp => hs.dispatches p (mem_of_mem_disturb disturbed hp),
        hs.threads, hs.results⟩
  | receive i threads payload rest up taken =>
      obtain ⟨hmem, hrest⟩ := mem_of_take taken
      refine ⟨hs.service, hs.encodable, hs.dispatch,
        fun p hp => hs.dispatches p (hrest p hp), ?_, hs.results⟩
      obtain ⟨r, hr, rfl⟩ := hs.dispatches payload hmem
      intro threads' hup pc hpc
      rw [← Option.some.inj hup] at hpc
      rcases List.mem_append.mp hpc with hold | hnew
      · exact hs.threads threads up pc hold
      · rw [List.mem_singleton.mp hnew]
        exact ⟨r, hr, rfl⟩
  | thread j first second publish threads pc pc' sent up here move =>
      have hpc := hs.threads threads up pc (List.mem_of_getElem? here)
      obtain ⟨hpc', hsent⟩ := threadStep_ok hpc move
      refine ⟨hs.service, hs.encodable, hs.dispatch, hs.dispatches, ?_, ?_⟩
      · intro threads' hup x hx
        rw [← Option.some.inj hup] at hx
        rcases List.mem_or_eq_of_mem_set hx with hold | hnew
        · exact hs.threads threads up x hold
        · rw [hnew]
          exact hpc'
      · intro m hm hsender
        rcases List.mem_append.mp hm with hold | hnew
        · exact hs.results m hold hsender
        · obtain ⟨p, hp, rfl⟩ := List.mem_map.mp hnew
          exact hsent p hp
  | inject msg =>
      refine ⟨hs.service, hs.encodable, hs.dispatch, hs.dispatches, hs.threads, ?_⟩
      intro m hm hsender
      rcases List.mem_append.mp hm with hold | hnew
      · exact hs.results m hold hsender
      · rw [List.mem_singleton.mp hnew] at hsender
        cases hsender
  | resultFault f ms disturbed =>
      exact ⟨hs.service, hs.encodable, hs.dispatch, hs.dispatches, hs.threads,
        fun m hm => hs.results m (mem_of_mem_disturb disturbed hm)⟩
  | result i now m rest s' taken move =>
      have hs' := hs.service_step move
      exact ⟨hs'.service, hs'.encodable, hs'.dispatch, hs'.dispatches, hs'.threads,
        fun x hx => hs'.results x ((mem_of_take taken).2 x hx)⟩

theorem systemOk_run {cfg : Config} {ls : List SystemLabel} {sys : System}
    (h : exec (systemStep cfg) System.empty ls = some sys) : SystemOk cfg sys :=
  exec_invariant (fun _ _ _ hs hst => systemOk_step hs hst) (systemOk_empty cfg) h

/-- A message about a stored row is not dropped for an unknown job. -/
theorem readMessage_known {T : Table} {msg : Delivered}
    (hids : (T.map Job.id).Nodup) (h : ResultOk T msg) :
    readMessage T msg ≠ .ignored .unknownJob := by
  obtain ⟨r, hr, payload, rfl, hid, hans⟩ := h
  by_cases hpresent : (dictGet payload fieldJobId).truthy = true
      ∧ (dictGet payload fieldState).truthy = true
  · have hread := readMessage_present (T := T) hpresent.1 hpresent.2
    have hfound : sqlFindByIdUnscoped T (some r.id) = some r :=
      sqlFindByIdUnscoped_of_mem hids hr
    rw [hid] at hread
    simp only [bindText_str, hfound] at hread
    rw [hread]
    split
    · intro heq; cases heq
    · intro heq; cases heq
  · rw [readMessage_missing hpresent]
    intro heq
    cases heq

/-- **Dispatch at most once, after commit, faithful**: a dispatch that a step
    publishes carries the id, asset, times and operation of a row committed
    before the step, no job is dispatched twice, and whatever the topics did to
    an answer of the worker, the service knows its job. -/
theorem dispatch_once_after_commit {cfg : Config} {ls : List SystemLabel}
    {sys : System} (h : exec (systemStep cfg) System.empty ls = some sys) :
    (∀ l sys', systemStep cfg sys l = some sys' →
        ∃ ev, sys'.service.log = sys.service.log ++ ev
          ∧ ∀ message result, .dispatch message result ∈ ev →
              ∃ r ∈ sys.service.jobs, ∃ payload,
                message = .obj payload ∧ Carries r payload)
      ∧ (sys.service.log.filterMap dispatchedId).Nodup
      ∧ ∀ m ∈ sys.results, m.sender = .worker →
          readMessage sys.service.jobs m.payload ≠ .ignored .unknownJob := by
  have hs := systemOk_run h
  refine ⟨?_, ?_, ?_⟩
  · intro l sys' hst
    rcases systemStep_service hst with heq | ⟨l', hl'⟩
    · rw [heq]
      exact ⟨[], (List.append_nil _).symm, fun _ _ hev => by cases hev⟩
    · obtain ⟨ev, hlog, hnew⟩ := step_log hs.service hl'
      refine ⟨ev, hlog, ?_⟩
      intro message result hev
      obtain ⟨r, hr, heq⟩ := (hnew message result hev).1
      rw [heq]
      exact ⟨r, hr, dispatchPayload_carries (hs.encodable r hr)⟩
  · exact (List.nodup_append.mp (hs.dispatch.nodup hs.service)).2.1
  · intro m hm hsender
    exact readMessage_known hs.service.ids (hs.results m hm hsender)

/-- A booking whose dispatch is copied, answered twice, and answered late. -/
def delivered (assetId : String) : List SystemLabel :=
  [.service (.submit (booking "user-001" "k1" "job-1" assetId (february 2 1)
      (february 2 3) .handed)),
    .service (.call 0), .service (.call 0), .service (.call 0),
    .service (.call 0),
    .dispatchFault (.duplicate 0), .receive 0, .receive 0,
    .thread 0 (february 2 1) (february 2 1) .handed,
    .thread 0 (february 2 1) (february 2 1) .handed,
    .thread 1 (february 2 1) (february 2 1) .handed,
    .result 1 (february 2 2), .service .handler, .service .handler,
    .service .handler]

/-- The values of one field in the dispatches of a log. -/
def dispatchedField (field : String) (log : List Event) : List Json :=
  log.filterMap (fun ev =>
    match ev with
    | .dispatch (.obj payload) _ => some (dictGet payload field)
    | _ => none)

/-- Reading a field as a text. -/
def asText : Json → String
  | .str s => s
  | _ => ""

/-- The five fields of the dispatch are the columns of the booking, and the
    worker answered twice. -/
theorem dispatch_once_after_commit_delivered :
    ∃ sys, exec (systemStep seedConfig) System.empty (delivered "asset-001")
        = some sys
      ∧ sys.results.map Result.sender = [.worker, .worker]
      ∧ ["job_id", "asset_id", "start_time", "end_time", "operation"].map
          (fun field => (dispatchedField field sys.service.log).map asText)
        = [["job-1"], ["asset-001"], ["2030-02-02T01:00:00.000Z"],
            ["2030-02-02T03:00:00.000Z"], ["charge"]]
      ∧ (∀ l sys', systemStep seedConfig sys l = some sys' →
          ∃ ev, sys'.service.log = sys.service.log ++ ev
            ∧ ∀ message result, .dispatch message result ∈ ev →
                ∃ r ∈ sys.service.jobs, ∃ payload,
                  message = .obj payload ∧ Carries r payload)
      ∧ ∀ m ∈ sys.results, m.sender = .worker →
          readMessage sys.service.jobs m.payload ≠ .ignored .unknownJob := by
  obtain ⟨sys, hsys, hobs⟩ := Option.map_eq_some_iff.mp
    (show (exec (systemStep seedConfig) System.empty (delivered "asset-001")).map
        (fun sys => (sys.results.map Result.sender,
          ["job_id", "asset_id", "start_time", "end_time", "operation"].map
            (fun field => (dispatchedField field sys.service.log).map asText)))
      = some ([.worker, .worker], [["job-1"], ["asset-001"],
          ["2030-02-02T01:00:00.000Z"], ["2030-02-02T03:00:00.000Z"],
          ["charge"]]) by decide +kernel)
  obtain ⟨hsenders, hfields⟩ := Prod.mk.inj hobs
  exact ⟨sys, hsys, hsenders, hfields, (dispatch_once_after_commit hsys).1,
    (dispatch_once_after_commit hsys).2.2⟩

end JobSystem
