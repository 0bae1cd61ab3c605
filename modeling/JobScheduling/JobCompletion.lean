import JobScheduling.JobQuiescence

/-! # Work completes

    `JobQuiescence` says what a quiet system looks like; here the system gets
    there.  Every step of a call, a thread or the handler, and every message
    taken or lost, uses up some of the work that is left (`work`): nothing
    goes on for ever.  As long as the topics lose nothing, nothing gets stuck
    either: `work_completes`, every call answered and every job at its end,
    whatever the order.

    And with every job at its end its slot and its place in the quota are free
    again: `capacity_returns`. -/

namespace JobCompletion

open JobConstants JobClock JobPayload JobModels JobRepository JobBroker
open JobOrchestrator JobService JobLedger JobHandler JobWorker JobSystem
open JobOutcomes JobQuiescence KeyedTable Runs Channels

/-! ## What is left to do -/

/-- The steps a call can still cause, with those of its dispatch. -/
def callWork : CreatePc → Nat
  | .start => 15
  | .validate => 14
  | .insert _ => 13
  | .publish _ => 12
  | .relookup _ => 1
  | .returned _ => 0

/-- The steps a thread can still cause, with those of its two answers. -/
def threadWork : WorkerPc → Nat
  | .started _ => 10
  | .sleeping _ _ => 5
  | .ended => 0

def handlerWork : HandlerPc → Nat
  | .update _ _ _ _ => 3
  | .reread _ => 2
  | .notify _ => 1
  | .idle => 0
  | .dead _ => 0

def threadsWork (threads : Option (List WorkerPc)) : Nat :=
  load threadWork (threads.getD [])

/-- The steps all that is there can still cause. -/
def work (sys : System) : Nat :=
  load (fun p => callWork p.2) sys.service.calls + 11 * sys.dispatches.length
    + threadsWork sys.threads + 4 * sys.results.length
    + handlerWork sys.service.handler

/-- Nothing new comes in, and nothing is copied. -/
def Onward : SystemLabel → Prop
  | .service (.submit _) => False
  | .service _ => True
  | .dispatchFault (.lose _) => True
  | .dispatchFault (.duplicate _) => False
  | .receive _ => True
  | .thread _ _ _ _ => True
  | .inject _ => False
  | .resultFault (.lose _) => True
  | .resultFault (.duplicate _) => False
  | .result _ _ => True

instance : DecidablePred Onward
  | .service (.submit _) => isFalse id
  | .service (.call _) => isTrue trivial
  | .service (.deliver _ _) => isTrue trivial
  | .service .handler => isTrue trivial
  | .dispatchFault (.lose _) => isTrue trivial
  | .dispatchFault (.duplicate _) => isFalse id
  | .receive _ => isTrue trivial
  | .thread _ _ _ _ => isTrue trivial
  | .inject _ => isFalse id
  | .resultFault (.lose _) => isTrue trivial
  | .resultFault (.duplicate _) => isFalse id
  | .result _ _ => isTrue trivial

/-- A move of a call uses up work, the dispatch it hands over included. -/
theorem createMove_work {cfg : Config} {c : Call} {T T' : Table}
    {pc pc' : CreatePc} {ev : List Event} (h : CreateMove cfg c T pc pc' T' ev) :
    callWork pc' + 11 * (handed ev).length < callWork pc := by
  cases h with
  | publish job =>
      rw [publishDispatch_events]
      cases c.publish <;> exact of_decide_eq_true rfl
  | _ => exact of_decide_eq_true rfl

/-- A move of the handler uses up work, and hands nothing over. -/
theorem handlerMove_work {T T' : Table} {pc pc' : HandlerPc} {ev : List Event}
    (h : HandlerMove T pc pc' T' ev) :
    handlerWork pc' < handlerWork pc ∧ handed ev = [] := by
  cases h <;> exact ⟨of_decide_eq_true rfl, rfl⟩

theorem receive_work (T : Table) (msg : Delivered) (now : Datetime) :
    handlerWork (receive T msg now) ≤ 3 := by
  rw [receive]
  cases readMessage T msg <;> exact of_decide_eq_true rfl

/-- A dispatch causes at most one thread. -/
theorem receiveDispatch_work (threads : List WorkerPc) (payload : Json) :
    threadsWork (receiveDispatch threads payload) ≤ load threadWork threads + 10 := by
  rw [receiveDispatch]
  cases onDispatch (.ok payload) with
  | ignored => exact Nat.le_add_right _ _
  | raised e => exact Nat.zero_le _
  | thread pc =>
      show load threadWork (threads ++ [pc]) ≤ load threadWork threads + 10
      rw [load_append, load, load]
      have hpc : threadWork pc ≤ 10 := by
        cases pc <;> exact of_decide_eq_true rfl
      omega

/-- A step of a thread uses up work, the result it sends included. -/
theorem threadStep_work {timestamp : String} {publish : PublishResult}
    {pc pc' : WorkerPc} {sent : List Json}
    (h : threadStep timestamp publish pc = some (pc', sent)) :
    threadWork pc' + 4 * sent.length < threadWork pc := by
  have hsent : ∀ {payload sent}, publishResult publish payload = .ok sent →
      sent.length ≤ 1 := by
    intro payload sent hok
    rcases publishResult_cases publish payload with ⟨e, -, he⟩ | ⟨-, ms, hms, hm⟩
    · rw [he] at hok
      cases hok
    · rw [hm] at hok
      rw [← Except.ok.inj hok]
      exact hms.length_le
  cases pc with
  | ended => cases h
  | started payload =>
      cases threadStep_move h with
      | ignored _ bad => exact of_decide_eq_true rfl
      | raised _ e raises => exact of_decide_eq_true rfl
      | running _ _ good sends =>
          have hlen := hsent sends
          show 5 + 4 * sent.length < 10
          omega
  | sleeping jobId assetId =>
      cases threadStep_move h with
      | raised _ e raises => exact of_decide_eq_true rfl
      | terminal _ _ _ sends =>
          have hlen := hsent sends
          show 0 + 4 * sent.length < 5
          omega

theorem length_lose {M : Type} {ms ms' : List M} {i : Nat}
    (h : disturb ms (.lose i) = some ms') : ms'.length < ms.length := by
  cases hi : ms[i]? with
  | none => simp [disturb, hi] at h
  | some m =>
      simp only [disturb, hi, Option.some.injEq] at h
      obtain ⟨hlt, -⟩ := List.getElem?_eq_some_iff.mp hi
      rw [← h, List.length_eraseIdx_of_lt hlt]
      omega

theorem length_take {M : Type} {ms rest : List M} {i : Nat} {m : M}
    (h : take ms i = some (m, rest)) : ms.length = rest.length + 1 :=
  (take_perm h).length_eq

/-- Every step uses up some of the work that is left. -/
theorem work_step {cfg : Config} {sys sys' : System} {l : SystemLabel}
    (hl : Onward l) (h : systemStep cfg sys l = some sys') :
    work sys' < work sys := by
  cases systemStep_move h with
  | service l s' noMessage hst =>
      cases step_move hst with
      | submit c => exact absurd hl id
      | deliver msg now idle => exact absurd rfl (noMessage msg now)
      | call i c pc pc' T' ev here move =>
          have hev : (sys.service.log ++ ev).drop sys.service.log.length = ev :=
            List.drop_left
          have hcall := createMove_work move
          -- the call's share pays for what it hands to the topic
          have hset : load (fun p => callWork p.2) (sys.service.calls.set i (c, pc'))
                + callWork pc
              = load (fun p => callWork p.2) sys.service.calls + callWork pc' :=
            load_set (fun p => callWork p.2) here
          simp only [work, hev, List.length_append]
          omega
      | handler pc' T' ev move =>
          have hev : (sys.service.log ++ ev).drop sys.service.log.length = ev :=
            List.drop_left
          obtain ⟨hless, hnone⟩ := handlerMove_work move
          simp only [work, hev, hnone, List.append_nil]
          omega
  | dispatchFault f ms disturbed =>
      cases f with
      | duplicate i => exact absurd hl id
      | lose i =>
          have hlen := length_lose disturbed
          simp only [work]
          omega
  | resultFault f ms disturbed =>
      cases f with
      | duplicate i => exact absurd hl id
      | lose i =>
          have hlen := length_lose disturbed
          simp only [work]
          omega
  | receive i threads payload rest up taken =>
      have hlen := length_take taken
      have hthreads := receiveDispatch_work threads payload
      simp only [work, threadsWork, up, Option.getD_some] at hthreads ⊢
      omega
  | thread j first second publish threads pc pc' sent up here move =>
      -- a thread's share pays for the result it sends
      have hless := threadStep_work move
      have hset := load_set threadWork (y := pc') here
      simp only [work, threadsWork, up, Option.getD_some, List.length_append,
        List.length_map]
      omega
  | inject msg => exact absurd hl id
  | result i now m rest s' taken move =>
      have hlen := length_take taken
      cases step_move move with
      | deliver _ _ idle =>
          have hhandler := receive_work sys.service.jobs m.payload now
          simp only [work, idle, handlerWork] at hhandler ⊢
          omega

/-- With no work left no step is left. -/
theorem stuck_of_work {cfg : Config} {sys : System} (h : work sys = 0)
    {l : SystemLabel} (hl : Onward l) : systemStep cfg sys l = none := by
  cases hst : systemStep cfg sys l with
  | none => rfl
  | some sys' =>
      have hless := work_step hl hst
      omega

/-! ## Both processes stay up -/

/-- The worker is up, and so is paho's thread in the service. -/
structure Alive (sys : System) : Prop where
  worker : ∃ ts, sys.threads = some ts
  handler : ∀ e, sys.service.handler ≠ .dead e

/-- An answer of the worker does not end the handler. -/
theorem receive_alive {T : Table} {msg : Delivered} (h : ResultOk T msg)
    (now : Datetime) (e : PyExc) : receive T msg now ≠ .dead e := by
  obtain ⟨r, -, payload, rfl, hid, -⟩ := h
  have hraised : ∀ e', readMessage T (.ok (.obj payload)) ≠ .raised e' := by
    intro e' hraised
    by_cases hpresent : (dictGet payload fieldJobId).truthy = true
        ∧ (dictGet payload fieldState).truthy = true
    · rw [readMessage_present hpresent.1 hpresent.2, hid, bindText_str] at hraised
      cases hfind : sqlFindByIdUnscoped T (some r.id) with
      | none => simp [hfind] at hraised
      | some current =>
          simp only [hfind] at hraised
          split at hraised <;> cases hraised
    · rw [readMessage_missing hpresent] at hraised
      cases hraised
  rw [receive]
  cases hv : readMessage T (.ok (.obj payload)) with
  | ignored why => exact HandlerPc.noConfusion
  | proceed jobId newState errorMsg => exact HandlerPc.noConfusion
  | raised e' => exact absurd hv (hraised e')

/-- With the worker as the only publisher, nothing ends either process. -/
theorem alive_step {cfg : Config} {sys sys' : System} {l : SystemLabel}
    (hs : Genuine cfg sys) (ha : Alive sys) (hl : FromWorker l)
    (h : systemStep cfg sys l = some sys') : Alive sys' := by
  cases systemStep_move h with
  | service l s' noMessage hst =>
      refine ⟨ha.worker, ?_⟩
      cases step_move hst with
      | submit c => exact ha.handler
      | deliver msg now idle => exact absurd rfl (noMessage msg now)
      | call i c pc pc' T' ev here move => exact ha.handler
      | handler pc' T' ev move =>
          have hok := hs.ok.service.handler
          have hgen := hs.service.handler
          generalize sys.service.handler = pc at move hok hgen
          intro e
          cases move with
          -- an answer of the worker has an id and an error that bind
          | storeRaised jobId newState errorMsg now e' T' stored =>
              obtain ⟨r₁, -, -, hans⟩ := hgen
              obtain ⟨t, ht⟩ := Answer.binds hans
              rw [(store_raised hok stored).2] at ht
              cases ht
          | rereadRaised jobId e' bound =>
              obtain ⟨id, r, hid, -⟩ := hok
              rw [bound] at hid
              cases hid
          | _ => exact HandlerPc.noConfusion
  | dispatchFault f ms disturbed => exact ⟨ha.worker, ha.handler⟩
  | receive i threads payload rest up taken =>
      -- a dispatch of the service is an object, so the worker survives it
      obtain ⟨r, -, rfl⟩ := hs.ok.dispatches payload (mem_of_take taken).1
      exact ⟨⟨_, rfl⟩, ha.handler⟩
  | thread j first second publish threads pc pc' sent up here move =>
      exact ⟨⟨_, rfl⟩, ha.handler⟩
  | inject msg => exact absurd hl id
  | resultFault f ms disturbed => exact ⟨ha.worker, ha.handler⟩
  | result i now m rest s' taken move =>
      refine ⟨ha.worker, ?_⟩
      obtain ⟨hmem, -⟩ := mem_of_take taken
      have hres := hs.ok.results m hmem (hs.senders m hmem)
      cases step_move move with
      | deliver _ _ idle => exact receive_alive hres now

/-! ## Nothing is stuck -/

/-- Every call has its answer, every thread has ended, and nothing is in
    flight. -/
structure Settled (sys : System) : Prop where
  calls : ∀ p ∈ sys.service.calls, ∃ r, p.2 = .returned r
  dispatches : sys.dispatches = []
  threads : ∃ ts, sys.threads = some ts ∧ ∀ pc ∈ ts, pc = .ended
  results : sys.results = []
  handler : sys.service.handler = .idle

/-- A system that has settled is quiet. -/
theorem Settled.quiet {sys : System} (h : Settled sys) : Quiet sys where
  calls := by
    intro p hp
    obtain ⟨r, hr⟩ := h.calls p hp
    rw [hr]
    rfl
  dispatches := h.dispatches
  threads := by
    obtain ⟨ts, hup, hended⟩ := h.threads
    intro ts' hts' pc hpc
    rw [hup, Option.mem_some] at hts'
    rw [← hts'] at hpc
    rw [hended pc hpc]
    rfl
  results := h.results
  handler := by
    rw [h.handler]
    rfl

/-- Only a call that has returned has no step. -/
theorem createStep_stuck {cfg : Config} {c : Call} {T : Table} {pc : CreatePc}
    (h : createStep cfg c T pc = none) : ∃ r, pc = .returned r := by
  cases pc with
  | returned r => exact ⟨r, rfl⟩
  | start =>
      cases hf : sqlFindByIdempotency T c.userId c.idempotencyKey <;>
        simp [createStep, hf] at h
  | validate =>
      cases hv : JobValidation.validate cfg c.body c.validatedAt <;>
        simp [createStep, hv] at h
  | insert job => simp [createStep] at h
  | relookup job =>
      cases hf : sqlFindByIdempotency T job.userId job.idempotencyKey <;>
        simp [createStep, hf] at h
  | publish job => simp [createStep] at h

theorem handlerStep_stuck {T : Table} {pc : HandlerPc}
    (h : handlerStep T pc = none) : pc = .idle ∨ ∃ e, pc = .dead e := by
  cases pc with
  | idle => exact Or.inl rfl
  | dead e => exact Or.inr ⟨e, rfl⟩
  | update jobId newState errorMsg now =>
      rw [handlerStep] at h
      split at h <;> cases h
  | reread jobId =>
      rw [handlerStep] at h
      split at h <;> cases h
  | notify updated => cases h

theorem threadStep_stuck {timestamp : String} {pc : WorkerPc}
    (h : threadStep timestamp .handed pc = none) : pc = .ended := by
  cases pc with
  | ended => rfl
  | started payload =>
      rw [threadStep] at h
      split at h <;> cases h
  | sleeping jobId assetId => cases h

theorem take_zero {M : Type} {ms : List M} (h : take ms 0 = none) : ms = [] := by
  cases ms with
  | nil => rfl
  | cons m ms => cases h

/-- Where no step is left, everything is done. -/
theorem stuck_settled {cfg : Config} {sys : System} (ha : Alive sys)
    (hstuck : ∀ l, Onward l → Reliable l → systemStep cfg sys l = none) :
    Settled sys := by
  obtain ⟨ts, hup⟩ := ha.worker
  have hhandler : sys.service.handler = .idle := by
    have hnone := hstuck (.service .handler) trivial trivial
    cases hst : handlerStep sys.service.jobs sys.service.handler with
    | none =>
        rcases handlerStep_stuck hst with hidle | ⟨e, hdead⟩
        · exact hidle
        · exact absurd hdead (ha.handler e)
    | some r => simp [systemStep, step, hst] at hnone
  refine ⟨?_, ?_, ⟨ts, hup, ?_⟩, ?_, hhandler⟩
  · intro p hp
    obtain ⟨i, hi⟩ := List.mem_iff_getElem?.mp hp
    have hnone := hstuck (.service (.call i)) trivial trivial
    cases hst : createStep cfg p.1 sys.service.jobs p.2 with
    | none => exact createStep_stuck hst
    | some r => simp [systemStep, step, hi, hst] at hnone
  · have hnone := hstuck (.receive 0) trivial trivial
    cases htake : take sys.dispatches 0 with
    | none => exact take_zero htake
    | some p => simp [systemStep, hup, htake] at hnone
  · intro pc hpc
    obtain ⟨j, hj⟩ := List.mem_iff_getElem?.mp hpc
    have hnone := hstuck (.thread j (february 1 0) (february 1 0) .handed) trivial rfl
    cases hst : threadStep (isoNow (february 1 0) (february 1 0)) .handed pc with
    | none => exact threadStep_stuck hst
    | some r => simp [systemStep, hup, hj, hst] at hnone
  · have hnone := hstuck (.result 0 (february 1 0)) trivial trivial
    cases htake : take sys.results 0 with
    | none => exact take_zero htake
    | some p => simp [systemStep, htake, step, hhandler] at hnone

/-! ## Every order of steps completes the work -/

/-- The later state has the calls and jobs of the earlier one, each call with
    its answer and each job at its end. -/
structure Completed (sys sys' : System) : Prop where
  settled : Settled sys'
  calls : sys'.service.calls.map Prod.fst = sys.service.calls.map Prod.fst
  jobs : Evolves SameJob sys.service.jobs sys'.service.jobs
  ended : ∀ r ∈ sys'.service.jobs,
    r.state = if r.assetId = faultAssetId then stateFailed else stateCompleted

/-- In a reliable run worker and handler stay alive, and all they hold is
    genuine. -/
theorem alive_run {cfg : Config} {ls : List SystemLabel} {sys : System}
    (hls : ∀ l ∈ ls, Reliable l)
    (h : exec (systemStep cfg) System.empty ls = some sys) :
    Genuine cfg sys ∧ Alive sys := by
  refine exec_invariant_of (P := Reliable)
    (I := fun sys => Genuine cfg sys ∧ Alive sys) ?_ hls ?_ h
  · intro s l s' hs hl hst
    have hw := fromWorker_of_reliable hl
    exact ⟨genuine_step hs.1 hw hst, alive_step hs.1 hs.2 hw hst⟩
  · exact ⟨genuine_empty cfg, ⟨[], rfl⟩, fun _ => HandlerPc.noConfusion⟩

/-- Without new calls the calls stay the same. -/
theorem calls_step {cfg : Config} {sys sys' : System} {l : SystemLabel}
    (hl : Onward l) (h : systemStep cfg sys l = some sys') :
    sys'.service.calls.map Prod.fst = sys.service.calls.map Prod.fst := by
  cases systemStep_move h with
  | service l s' noMessage hst =>
      refine step_calls hst ?_
      rintro c rfl
      exact hl
  | result i now m rest s' taken hst => exact step_calls hst (fun _ => Label.noConfusion)
  | _ => rfl

/-- Where a reliable run cannot go on, the work of every state before is
    complete. -/
theorem completed_of_stuck {cfg : Config} (hseed : "" ∉ cfg.validAssets)
    {ls ms : List SystemLabel} {sys sys' : System} (hls : ∀ l ∈ ls, Reliable l)
    (h : exec (systemStep cfg) System.empty ls = some sys)
    (hms : ∀ l ∈ ms, Onward l ∧ Reliable l)
    (hrun : exec (systemStep cfg) sys ms = some sys')
    (hstuck : ∀ l, Onward l → Reliable l → systemStep cfg sys' l = none) :
    Completed sys sys' := by
  have hall : ∀ l ∈ ls ++ ms, Reliable l := by
    intro l hl
    rcases List.mem_append.mp hl with hl | hl
    · exact hls l hl
    · exact (hms l hl).2
  have hwhole := exec_append.mpr ⟨sys, h, hrun⟩
  have hsettled := stuck_settled (alive_run hall hwhole).2 hstuck
  refine ⟨hsettled, ?_, ?_, quiet_rows_terminal hseed hall hwhole hsettled.quiet⟩
  · exact exec_invariant_of (P := Onward)
      (I := fun t => t.service.calls.map Prod.fst = sys.service.calls.map Prod.fst)
      (fun _ _ _ ht hl hst => (calls_step hl hst).trans ht)
      (fun l hl => (hms l hl).1) rfl hrun
  · obtain ⟨ns, hns⟩ := exec_projects (f := System.service)
      (fun _ _ _ hst => systemStep_service hst) hrun
    exact jobs_evolve (alive_run hls h).1.ok.service hns

/-- **Work completes**: from any state of a run whose publishes arrive and
    whose topics only reorder, every schedule without new calls is finite,
    even if messages get lost from here on; and if none is, every schedule
    that cannot go on has every call answered, every message handled and every
    job at the end its asset calls for, and there is one. -/
theorem work_completes {cfg : Config} (hseed : "" ∉ cfg.validAssets)
    {ls : List SystemLabel} {sys : System} (hls : ∀ l ∈ ls, Reliable l)
    (h : exec (systemStep cfg) System.empty ls = some sys) :
    (∀ ms sys', (∀ l ∈ ms, Onward l) →
        exec (systemStep cfg) sys ms = some sys' → ms.length ≤ work sys)
      ∧ (∀ ms sys', (∀ l ∈ ms, Onward l ∧ Reliable l) →
        exec (systemStep cfg) sys ms = some sys' →
        (∀ l, Onward l → Reliable l → systemStep cfg sys' l = none) →
        Completed sys sys')
      ∧ ∃ ms sys', (∀ l ∈ ms, Onward l ∧ Reliable l)
        ∧ exec (systemStep cfg) sys ms = some sys' ∧ Completed sys sys' := by
  refine ⟨?_, fun ms sys' hms hrun hstuck =>
    completed_of_stuck hseed hls h hms hrun hstuck, ?_⟩
  · intro ms sys' hms hrun
    have hlen := exec_length_le (P := Onward) (I := fun _ => True)
      (fun _ _ _ _ _ _ => trivial) (fun _ _ _ _ hl hst => work_step hl hst)
      hms trivial hrun
    omega
  · obtain ⟨ms, sys', hms, hrun, hstuck⟩ := exec_maximal
      (P := fun l => Onward l ∧ Reliable l) (I := fun _ => True)
      (fun _ _ _ _ _ _ => trivial) (fun _ _ _ _ hl hst => work_step hl.1 hst)
      (s := sys) trivial
    exact ⟨ms, sys', hms, hrun, completed_of_stuck hseed hls h hms hrun
      (fun l ho hr => hstuck l ⟨ho, hr⟩)⟩

/-- One job is being worked on, one is in flight, and a third call has not
    started. -/
def midway : List SystemLabel :=
  [.service (.submit (booking "user-001" "k1" "job-1" "asset-001"
      (february 2 1) (february 2 3) .handed)),
    .service (.submit (booking "user-002" "k1" "job-2" "asset-fault"
      (february 2 1) (february 2 3) .handed)),
    .service (.submit (booking "user-003" "k1" "job-3" "asset-001"
      (february 2 2) (february 2 4) .handed)),
    .service (.call 0), .service (.call 1), .service (.call 0),
    .service (.call 1), .service (.call 0), .service (.call 1),
    .service (.call 0), .service (.call 1),
    .receive 0, .thread 0 (february 2 1) (february 2 1) .handed]

/-- From the middle of three bookings, with 35 steps left at most. -/
theorem work_completes_midway :
    ∃ sys, exec (systemStep seedConfig) System.empty midway = some sys
      ∧ work sys = 35
      ∧ ∃ ms sys', (∀ l ∈ ms, Onward l ∧ Reliable l)
        ∧ exec (systemStep seedConfig) sys ms = some sys' ∧ Completed sys sys' := by
  obtain ⟨sys, h, hwork⟩ := Option.map_eq_some_iff.mp
    (show (exec (systemStep seedConfig) System.empty midway).map work = some 35 by
      decide +kernel)
  exact ⟨sys, h, hwork, (work_completes (by decide) (by decide) h).2.2⟩

/-! ## What is booked is given back -/

section Alone

variable {cfg : Config} {T : Table} {n : Nat} {c : Call}

/-- The call is on its way to its insert transaction, and nobody else has
    anything to do. -/
structure Alone (T : Table) (n : Nat) (c : Call) (sys : System) : Prop where
  jobs : sys.service.jobs = T
  here : ∃ pc, sys.service.calls[n]? = some (c, pc)
    ∧ (pc = .start ∨ pc = .validate ∨ pc = .insert (newJob c))
  others : ∀ i p, i ≠ n → sys.service.calls[i]? = some p → ∃ r, p.2 = .returned r
  dispatches : sys.dispatches = []
  threads : ∀ ts, sys.threads = some ts → ∀ pc ∈ ts, pc = .ended
  results : sys.results = []
  handler : sys.service.handler = .idle

/-- The call has stored its job, and answers with it. -/
def Granted (n : Nat) (c : Call) (sys : System) : Prop :=
  ∃ pc, sys.service.calls[n]? = some (c, pc)
    ∧ (pc = .publish (newJob c)
      ∨ pc = .returned (.ok (.created, .inl (newJob c))))

/-- A job meets no active job in a table without any. -/
theorem admits_inactive (hT : ∀ r ∈ T, r.active = false)
    (fresh : ∀ r ∈ T, r.id ≠ c.uuid)
    (unused : sqlFindByIdempotency T c.userId c.idempotencyKey = none)
    (encodable : c.body.operation.encodable = true) :
    Admits T (newJob c) := by
  refine ⟨?_, ?_, encodable, violates_eq_false.mpr ?_⟩
  · have hzero : sqlCountActive T (newJob c).userId = 0 := by
      rw [sqlCountActive, List.countP_eq_zero]
      intro r hr
      rw [hT r hr, Bool.and_false]
      exact Bool.false_ne_true
    rw [hzero]
    decide
  · refine sqlCheckOverlap_none.mpr ?_
    intro r hr _ hact
    rw [hT r hr] at hact
    cases hact
  · intro r hr
    exact ⟨fresh r hr, sqlFindByIdempotency_none.mp unused r hr⟩

/-- The call on its own reaches its insert transaction, and passes it. -/
theorem alone_call {T' : Table} {pc pc' : CreatePc} {ev : List Event}
    (admits : Admits T (newJob c))
    (unused : sqlFindByIdempotency T c.userId c.idempotencyKey = none)
    (hvalid : JobValidation.validate cfg c.body c.validatedAt = none)
    (hpc : pc = .start ∨ pc = .validate ∨ pc = .insert (newJob c))
    (move : CreateMove cfg c T pc pc' T' ev) :
    (T' = T ∧ ev = [] ∧ (pc' = .validate ∨ pc' = .insert (newJob c)))
      ∨ pc' = .publish (newJob c) := by
  rcases hpc with rfl | rfl | rfl
  · cases move with
    | replay existing found =>
        rw [unused] at found
        cases found
    | miss found => exact Or.inl ⟨rfl, rfl, Or.inl rfl⟩
  · cases move with
    | reject status message invalid =>
        rw [hvalid] at invalid
        cases invalid
    | accept valid => exact Or.inl ⟨rfl, rfl, Or.inr rfl⟩
  · cases move with
    | maxActive _ quota => exact absurd admits.quota (Nat.not_lt_of_le quota)
    | overlap _ quota found =>
        rw [admits.overlap] at found
        cases found
    | unencodable _ quota found lone =>
        rw [admits.encodable] at lone
        cases lone
    | violation _ quota found clash =>
        rw [admits.unique] at clash
        cases clash
    | created _ _ => exact Or.inr rfl

/-- The only call comes closer to its transaction, or has its job. -/
theorem alone_step {sys sys' : System} {l : SystemLabel}
    (admits : Admits T (newJob c))
    (unused : sqlFindByIdempotency T c.userId c.idempotencyKey = none)
    (hvalid : JobValidation.validate cfg c.body c.validatedAt = none)
    (hs : Alone T n c sys) (hl : Onward l) (h : systemStep cfg sys l = some sys') :
    Alone T n c sys' ∨ Granted n c sys' := by
  obtain ⟨pc₀, hpc₀, hstage⟩ := hs.here
  cases systemStep_move h with
  | service l s' noMessage hst =>
      cases step_move hst with
      | submit c => exact absurd hl id
      | deliver msg now idle => exact absurd rfl (noMessage msg now)
      | call i c' pc pc' T' ev here move =>
          by_cases hi : i = n
          · rw [hi, hpc₀] at here
            obtain ⟨rfl, rfl⟩ := Prod.mk.inj (Option.some.inj here)
            have hset : (sys.service.calls.set i (c, pc'))[n]? = some (c, pc') := by
              rw [hi]
              exact List.getElem?_set_self (List.getElem?_eq_some_iff.mp hpc₀).1
            rw [hs.jobs] at move
            rcases alone_call admits unused hvalid hstage move with
              ⟨rfl, rfl, hpc'⟩ | rfl
            · refine Or.inl ⟨rfl, ⟨pc', hset, Or.inr hpc'⟩, ?_, ?_, hs.threads,
                hs.results, hs.handler⟩
              · intro j p hj hget
                rw [hi, List.getElem?_set_ne (Ne.symm hj)] at hget
                exact hs.others j p hj hget
              · show sys.dispatches ++ handed ((sys.service.log ++ []).drop
                  sys.service.log.length) = []
                rw [hs.dispatches, List.drop_left]
                rfl
            · exact Or.inr ⟨_, hset, Or.inl rfl⟩
          · -- every other call has returned
            obtain ⟨r, hr⟩ := hs.others i _ hi here
            have hr' : pc = .returned r := hr
            rw [hr'] at move
            cases move
      | handler pc' T' ev move =>
          rw [hs.handler] at move
          cases move
  | dispatchFault f ms disturbed =>
      cases f with
      | duplicate i => exact absurd hl id
      | lose i =>
          rw [hs.dispatches] at disturbed
          cases disturbed
  | receive i threads payload rest up taken =>
      rw [hs.dispatches] at taken
      cases taken
  | thread j first second publish threads pc pc' sent up here move =>
      rw [hs.threads threads up pc (List.mem_of_getElem? here)] at move
      cases move
  | inject msg => exact absurd hl id
  | resultFault f ms disturbed =>
      cases f with
      | duplicate i => exact absurd hl id
      | lose i =>
          rw [hs.results] at disturbed
          cases disturbed
  | result i now m rest s' taken hst =>
      rw [hs.results] at taken
      cases taken

/-- A call that has stored its job and whose publish does not raise answers
    with it. -/
theorem granted_step {sys sys' : System} {l : SystemLabel} (hc : Prompt c)
    (hs : Granted n c sys) (hl : Onward l) (h : systemStep cfg sys l = some sys') :
    Granted n c sys' := by
  obtain ⟨pc₀, hpc₀, hstage⟩ := hs
  cases systemStep_move h with
  | service l s' noMessage hst =>
      cases step_move hst with
      | submit c => exact absurd hl id
      | deliver msg now idle => exact absurd rfl (noMessage msg now)
      | handler pc' T' ev move => exact ⟨pc₀, hpc₀, hstage⟩
      | call i c' pc pc' T' ev here move =>
          by_cases hi : i = n
          · rw [hi, hpc₀] at here
            obtain ⟨rfl, rfl⟩ := Prod.mk.inj (Option.some.inj here)
            refine ⟨pc', ?_, ?_⟩
            · show (sys.service.calls.set i (c, pc'))[n]? = some (c, pc')
              rw [hi]
              exact List.getElem?_set_self (List.getElem?_eq_some_iff.mp hpc₀).1
            · rcases hstage with rfl | rfl
              · cases move with
                | publish job =>
                    refine Or.inr ?_
                    rw [publishDispatch, hc.1]
              · cases move
          · refine ⟨pc₀, ?_, hstage⟩
            show (sys.service.calls.set i (c', pc'))[n]? = some (c, pc₀)
            rw [List.getElem?_set_ne hi]
            exact hpc₀
  | result i now m rest s' taken hst =>
      cases step_move hst with
      | deliver _ _ idle => exact ⟨pc₀, hpc₀, hstage⟩
  | _ => exact ⟨pc₀, hpc₀, hstage⟩

/-- A call that comes in when everything is settled is on its way alone. -/
theorem alone_submitted {sys sys' : System} (hs : Settled sys)
    (h : systemStep cfg sys (.service (.submit c)) = some sys') :
    Alone sys.service.jobs sys.service.calls.length c sys' := by
  obtain ⟨ts, hup, hends⟩ := hs.threads
  rw [← Option.some.inj h]
  refine ⟨rfl, ⟨.start, ?_, Or.inl rfl⟩, ?_, ?_, ?_, hs.results, hs.handler⟩
  · exact List.getElem?_concat_length
  · intro i p hi hget
    rcases getElem?_concat_some hget with ⟨-, hold⟩ | ⟨hn, -⟩
    · exact hs.calls p (List.mem_of_getElem? hold)
    · exact absurd hn hi
  · show sys.dispatches ++ handed (sys.service.log.drop sys.service.log.length) = []
    rw [hs.dispatches, List.drop_length]
    rfl
  · intro ts' hts' pc hpc
    have hts'' : sys.threads = some ts' := hts'
    rw [hup] at hts''
    rw [← Option.some.inj hts''] at hpc
    exact hends pc hpc

/-- Once it is answered, it is answered with its job. -/
theorem answered_granted {sys sys' : System} {ms : List SystemLabel} (hc : Prompt c)
    (admits : Admits T (newJob c))
    (unused : sqlFindByIdempotency T c.userId c.idempotencyKey = none)
    (hvalid : JobValidation.validate cfg c.body c.validatedAt = none)
    (hms : ∀ l ∈ ms, Onward l) (hs : Alone T n c sys)
    (h : exec (systemStep cfg) sys ms = some sys')
    (hanswered : ∀ p ∈ sys'.service.calls, ∃ r, p.2 = .returned r) :
    sys'.service.calls[n]?
      = some (c, .returned (.ok (.created, .inl (newJob c)))) := by
  have hinv : Alone T n c sys' ∨ Granted n c sys' := by
    refine exec_invariant_of (P := Onward)
      (I := fun t => Alone T n c t ∨ Granted n c t) ?_ hms (Or.inl hs) h
    intro t l t' ht hl hst
    rcases ht with ht | ht
    · exact alone_step admits unused hvalid ht hl hst
    · exact Or.inr (granted_step hc ht hl hst)
  rcases hinv with halone | ⟨pc, hpc, hstage⟩
  · -- a call on its way is not answered
    obtain ⟨pc, hpc, hstage⟩ := halone.here
    obtain ⟨r, hr⟩ := hanswered _ (List.mem_of_getElem? hpc)
    rw [show pc = .returned r from hr] at hstage
    rcases hstage with h | h | h <;> cases h
  · obtain ⟨r, hr⟩ := hanswered _ (List.mem_of_getElem? hpc)
    rcases hstage with h | h
    · rw [show pc = .returned r from hr] at h
      cases h
    · rw [hpc, h]

end Alone

/-- **Capacity returns**: once the work is complete, whatever was booked
    before, a valid booking that comes in under a new key, and whose operation
    UTF-8 can represent, is answered with its own job and carried out, in every
    order of the steps that follow. -/
theorem capacity_returns {cfg : Config} (hseed : "" ∉ cfg.validAssets)
    {ls ms : List SystemLabel} {sys sys' : System} {c : Call}
    (hls : ∀ l ∈ ls, Reliable l)
    (h : exec (systemStep cfg) System.empty ls = some sys) (hs : Settled sys)
    (hc : Prompt c) (fresh : ∀ r ∈ sys.service.jobs, r.id ≠ c.uuid)
    (unused : sqlFindByIdempotency sys.service.jobs c.userId c.idempotencyKey = none)
    (hvalid : JobValidation.validate cfg c.body c.validatedAt = none)
    (encodable : c.body.operation.encodable = true)
    (hms : ∀ l ∈ ms, Onward l ∧ Reliable l)
    (hrun : exec (systemStep cfg) sys (.service (.submit c) :: ms) = some sys')
    (hstuck : ∀ l, Onward l → Reliable l → systemStep cfg sys' l = none) :
    ∃ job, sys'.service.calls[sys.service.calls.length]?
        = some (c, .returned (.ok (.created, .inl job)))
      ∧ Holds c job
      ∧ ∃ r ∈ sys'.service.jobs, Holds c r
        ∧ r.state = if c.body.assetId = faultAssetId then stateFailed
          else stateCompleted := by
  have hended := quiet_rows_terminal hseed hls h hs.quiet
  -- nobody's job is active once the work is complete
  have hinactive : ∀ r ∈ sys.service.jobs, r.active = false := by
    intro r hr
    have hstate := hended r hr
    split at hstate
    · rw [Job.active, hstate]
      rfl
    · rw [Job.active, hstate]
      rfl
  have hadmits := admits_inactive hinactive fresh unused encodable
  obtain ⟨sys₁, hsub, hrest⟩ := exec_cons.mp hrun
  have hls₁ : ∀ l ∈ ls ++ [.service (.submit c)], Reliable l := by
    intro l hl
    rcases List.mem_append.mp hl with hl | hl
    · exact hls l hl
    · rw [List.mem_singleton.mp hl]
      exact hc
  have h₁ := exec_concat.mpr ⟨sys, h, hsub⟩
  have hdone := completed_of_stuck hseed hls₁ h₁ hms hrest hstuck
  have hpc := answered_granted hc hadmits unused hvalid (fun l hl => (hms l hl).1)
    (alone_submitted hs hsub) hrest hdone.settled.calls
  have hall : ∀ l ∈ (ls ++ [.service (.submit c)]) ++ ms, Reliable l := by
    intro l hl
    rcases List.mem_append.mp hl with hl | hl
    · exact hls₁ l hl
    · exact (hms l hl).2
  have hok := (alive_run hall (exec_append.mpr ⟨sys₁, h₁, hrest⟩)).1.ok.service
  obtain ⟨-, row, hrow, hsame⟩ := hok.call hpc
  refine ⟨newJob c, hpc, newJob_holds c, row, hrow,
    Holds.sameJob (newJob_holds c) hsame, ?_⟩
  have hasset : row.assetId = c.body.assetId := hsame.assetId
  rw [hdone.ended row hrow, hasset]

/-- The hours of the first job of `overtaken`, booked again by its user. -/
def again : Call :=
  booking "user-001" "k2" "job-3" "asset-001" (february 2 1) (february 2 3) .handed

/-- The steps that carry it out. -/
def carriedOut : List SystemLabel :=
  [.service (.call 2), .service (.call 2), .service (.call 2),
    .service (.call 2), .receive 0,
    .thread 2 (february 2 4) (february 2 4) .handed,
    .thread 2 (february 2 4) (february 2 4) .handed,
    .result 0 (february 2 5), .service .handler, .service .handler,
    .service .handler,
    .result 0 (february 2 5), .service .handler, .service .handler,
    .service .handler]

/-- The hours of a completed job are booked, and carried out, once more. -/
theorem capacity_returns_again :
    ∃ sys sys' job, exec (systemStep seedConfig) System.empty overtaken = some sys
      ∧ exec (systemStep seedConfig) sys (.service (.submit again) :: carriedOut)
        = some sys'
      ∧ sys'.service.calls[sys.service.calls.length]?
        = some (again, .returned (.ok (.created, .inl job)))
      ∧ job.id = "job-3" ∧ Holds again job
      ∧ ∃ r ∈ sys'.service.jobs, Holds again r ∧ r.state = "COMPLETED" := by
  obtain ⟨sys, h, hobs⟩ := Option.map_eq_some_iff.mp
    (show (exec (systemStep seedConfig) System.empty overtaken).map
        (fun sys => decide (work sys = 0
          ∧ (∀ r ∈ sys.service.jobs, r.id ≠ again.uuid)
          ∧ sqlFindByIdempotency sys.service.jobs again.userId again.idempotencyKey
            = none)) = some true by decide +kernel)
  obtain ⟨hidle, hfresh, hunused⟩ := of_decide_eq_true hobs
  obtain ⟨sys', hwhole, hwork⟩ := Option.map_eq_some_iff.mp
    (show (exec (systemStep seedConfig) System.empty
        (overtaken ++ .service (.submit again) :: carriedOut)).map work = some 0 by
      decide +kernel)
  obtain ⟨t, ht, hrun⟩ := exec_append.mp hwhole
  obtain rfl : sys = t := Option.some.inj (h.symm.trans ht)
  have hstuck : ∀ l, Onward l → Reliable l → systemStep seedConfig sys l = none :=
    fun l hl _ => stuck_of_work hidle hl
  have hsettled := stuck_settled (alive_run (by decide) h).2 hstuck
  obtain ⟨job, hanswer, hjob, r, hr, hholds, hstate⟩ :=
    capacity_returns (by decide) (by decide) h hsettled (by decide) hfresh hunused
      (by decide) (by decide) (by decide) hrun (fun l hl _ => stuck_of_work hwork hl)
  exact ⟨sys, sys', job, h, hrun, hanswer, hjob.id, hjob, r, hr, hholds, hstate⟩

end JobCompletion
