import JobScheduling.JobLedger

/-! # Dispatches

    The commit of a row and its publish are two steps of the creating call,
    with everybody else in between.  `DispatchOk` accounts for every row: its
    creating call is still before the publish, or there is exactly one
    dispatch attempt for it in the log.

    From it: no job is dispatched twice, every dispatch carries the columns
    of a committed row, and an exact condition for the promise that a job
    somebody got a 201 for has reached the broker
    (`accepted_jobs_dispatched_iff`). -/

namespace JobDispatch

open JobConstants JobClock JobPayload JobModels JobRepository JobBroker
open JobOrchestrator JobService JobLedger KeyedTable Runs

/-! ## The account of the rows -/

/-- The job a call has committed and not yet published. -/
def pendingId : Call × CreatePc → Option String
  | (_, .publish job) => some job.id
  | (_, .start) => none
  | (_, .validate) => none
  | (_, .insert _) => none
  | (_, .relookup _) => none
  | (_, .returned _) => none

/-- The job an event dispatches, whatever became of the message. -/
def dispatchedId : Event → Option String
  | .dispatch (.obj payload) _ =>
      match dictGet payload fieldJobId with
      | .str id => some id
      | _ => none
  | .dispatch _ _ => none
  | .callback _ => none

/-- The id of a dispatch is that of its job. -/
theorem dispatchedId_dispatchPayload (job : Job) (result : PublishResult) :
    dispatchedId (.dispatch (dispatchPayload job) result) = some job.id := rfl

structure DispatchOk (s : Service) : Prop where
  /-- Every row is pending in one call, or dispatched once. -/
  ids : (s.calls.filterMap pendingId ++ s.log.filterMap dispatchedId).Perm
    (s.jobs.map Job.id)
  /-- Every dispatch carries the columns of a stored row. -/
  rows : ∀ payload result, .dispatch payload result ∈ s.log →
    ∃ r ∈ s.jobs, payload = dispatchPayload r
  /-- A publish that did not raise has made its call return the job. -/
  answers : ∀ payload result, .dispatch payload result ∈ s.log →
    (∀ e, result ≠ .raised e) →
    ∃ (a : Nat) (c : Call) (job : Job), s.calls[a]? = some (c, accepted job)
      ∧ payload = dispatchPayload job

theorem dispatchOk_empty : DispatchOk Service.empty where
  ids := List.Perm.refl _
  rows := fun _ _ h => absurd h (List.not_mem_nil)
  answers := fun _ _ h => absurd h (List.not_mem_nil)

/-- What a move of a call adds to the table it also adds to its pending jobs,
    and what it publishes it takes from there. -/
theorem CreateMove.ids {cfg : Config} {c : Call} {T T' : Table}
    {pc pc' : CreatePc} {ev : List Event} (h : CreateMove cfg c T pc pc' T' ev)
    (id : String) :
    (T'.map Job.id).count id + (pendingId (c, pc)).toList.count id
      = (T.map Job.id).count id + (pendingId (c, pc')).toList.count id
        + (ev.filterMap dispatchedId).count id := by
  cases h with
  | created job admits =>
      rw [List.map_append, List.count_append]
      rfl
  | publish job =>
      rw [publishDispatch_events]
      rfl
  | _ => rfl

/-- A dispatch event a move of a call adds carries the columns of a committed
    row, and unless it raised, the call returns that job. -/
theorem CreateMove.dispatch {cfg : Config} {c : Call} {T T' : Table}
    {pc pc' : CreatePc} {ev : List Event} (h : CreateMove cfg c T pc pc' T' ev)
    (hc : CallOk cfg c T pc) {payload : Json} {result : PublishResult}
    (hev : .dispatch payload result ∈ ev) :
    (∃ r ∈ T, payload = dispatchPayload r)
      ∧ ∃ job, payload = dispatchPayload job
        ∧ ((∀ e, result ≠ .raised e) → pc' = accepted job) := by
  cases h with
  | publish job =>
      obtain ⟨-, r, hr, hsame⟩ := hc
      rw [publishDispatch_events, List.mem_singleton, Event.dispatch.injEq] at hev
      obtain ⟨rfl, rfl⟩ := hev
      refine ⟨⟨r, hr, hsame.dispatchPayload.symm⟩, job, rfl, ?_⟩
      intro hraised
      cases hp : c.publish with
      | handed => rw [publishDispatch, hp]; rfl
      | dropped => rw [publishDispatch, hp]; rfl
      | raised e => exact absurd hp (hraised e)
  | _ => cases hev

/-- The handler adds no dispatch. -/
theorem HandlerMove.no_dispatch {T T' : Table} {pc pc' : HandlerPc}
    {ev : List Event} (h : HandlerMove T pc pc' T' ev) {payload : Json}
    {result : PublishResult} : .dispatch payload result ∉ ev := by
  intro hev
  cases h with
  | notify updated => cases List.mem_singleton.mp hev
  | _ => cases hev

/-- The handler publishes no dispatch. -/
theorem HandlerMove.no_dispatchedId {T T' : Table} {pc pc' : HandlerPc}
    {ev : List Event} (h : HandlerMove T pc pc' T' ev) :
    ev.filterMap dispatchedId = [] := by
  cases h with
  | notify updated => rfl
  | _ => rfl

/-- An answer that was given stays given. -/
theorem step_accepted {cfg : Config} {s s' : Service} {l : Label}
    (h : step cfg s l = some s') {a : Nat} {c : Call} {job : Job}
    (ha : s.calls[a]? = some (c, accepted job)) :
    s'.calls[a]? = some (c, accepted job) := by
  cases step_move h with
  | submit c' =>
      show (s.calls ++ [(c', .start)])[a]? = _
      rw [List.getElem?_append_left (List.getElem?_eq_some_iff.mp ha).1]
      exact ha
  | call i c' pc pc' T' ev here move =>
      show (s.calls.set i (c', pc'))[a]? = _
      by_cases hia : i = a
      · rw [← hia, here, Option.some.injEq, Prod.mk.injEq] at ha
        rw [ha.2] at move
        cases move
      · rw [List.getElem?_set_ne hia]
        exact ha
  | deliver msg now idle => exact ha
  | handler pc' T' ev move => exact ha

/-- A step only adds to the log, and a dispatch it adds carries the columns of
    a row that is committed already; unless it raised, its call has returned
    that job. -/
theorem step_log {cfg : Config} {s s' : Service} {l : Label}
    (hok : ServiceOk cfg s) (h : step cfg s l = some s') :
    ∃ ev, s'.log = s.log ++ ev ∧ ∀ payload result, .dispatch payload result ∈ ev →
      (∃ r ∈ s.jobs, payload = dispatchPayload r)
        ∧ ((∀ e, result ≠ .raised e) → ∃ (a : Nat) (c : Call) (job : Job),
            s'.calls[a]? = some (c, accepted job)
              ∧ payload = dispatchPayload job) := by
  cases step_move h with
  | submit c => exact ⟨[], (List.append_nil _).symm, fun _ _ hev => by cases hev⟩
  | deliver msg now idle =>
      exact ⟨[], (List.append_nil _).symm, fun _ _ hev => by cases hev⟩
  | call i c pc pc' T' ev here move =>
      have hc : CallOk cfg c s.jobs pc := hok.call here
      refine ⟨ev, rfl, ?_⟩
      intro payload result hev
      obtain ⟨hrow, job, hp, hret⟩ := CreateMove.dispatch move hc hev
      refine ⟨hrow, ?_⟩
      intro hraised
      refine ⟨i, c, job, ?_, hp⟩
      show (s.calls.set i (c, pc'))[i]? = _
      rw [List.getElem?_set_self (List.getElem?_eq_some_iff.mp here).1,
        hret hraised]
  | handler pc' T' ev move =>
      exact ⟨ev, rfl, fun _ _ hev => absurd hev (HandlerMove.no_dispatch move)⟩

/-- A step adds to the table what it adds to the pending and the dispatched
    jobs. -/
theorem ids_step {cfg : Config} {s s' : Service} {l : Label}
    (hok : ServiceOk cfg s) (h : step cfg s l = some s')
    (hids : (s.calls.filterMap pendingId ++ s.log.filterMap dispatchedId).Perm
      (s.jobs.map Job.id)) :
    (s'.calls.filterMap pendingId ++ s'.log.filterMap dispatchedId).Perm
      (s'.jobs.map Job.id) := by
  cases step_move h with
  | submit c =>
      have hpend : (s.calls ++ [(c, CreatePc.start)]).filterMap pendingId
          = s.calls.filterMap pendingId := by
        rw [List.filterMap_append]
        exact List.append_nil _
      show ((s.calls ++ [(c, CreatePc.start)]).filterMap pendingId
        ++ s.log.filterMap dispatchedId).Perm (s.jobs.map Job.id)
      rw [hpend]
      exact hids
  | deliver msg now idle => exact hids
  | call i c pc pc' T' ev here move =>
      refine List.perm_iff_count.mpr (fun id => ?_)
      have hset := count_filterMap_set (f := pendingId) (b := (c, pc')) here id
      have hmove := CreateMove.ids move id
      have hid := List.perm_iff_count.mp hids id
      show (((s.calls.set i (c, pc')).filterMap pendingId)
        ++ (s.log ++ ev).filterMap dispatchedId).count id
          = (T'.map Job.id).count id
      rw [List.count_append] at hid ⊢
      rw [List.filterMap_append, List.count_append]
      omega
  | handler pc' T' ev move =>
      have hmap : T'.map Job.id = s.jobs.map Job.id :=
        HandlerMove.column (fun _ _ _ _ => rfl) move hok.ids hok.handler
      have hev := HandlerMove.no_dispatchedId move
      show (s.calls.filterMap pendingId
        ++ (s.log ++ ev).filterMap dispatchedId).Perm (T'.map Job.id)
      rw [hmap, List.filterMap_append, hev, List.append_nil]
      exact hids

/-- **Every step keeps it**: one dispatch for each creation. -/
theorem dispatchOk_step {cfg : Config} {s s' : Service} {l : Label}
    (hok : ServiceOk cfg s) (hs : DispatchOk s) (h : step cfg s l = some s') :
    DispatchOk s' := by
  obtain ⟨ev, hlog, hnew⟩ := step_log hok h
  refine ⟨ids_step hok h hs.ids, ?_, ?_⟩
  · intro payload result hev
    rw [hlog, List.mem_append] at hev
    -- the row is there before the step, and stays
    have hrow : ∃ r ∈ s.jobs, payload = dispatchPayload r :=
      hev.elim (hs.rows payload result) (fun hmem => (hnew _ _ hmem).1)
    obtain ⟨r, hr, hp⟩ := hrow
    obtain ⟨r', hr', hsame⟩ := (jobs_evolve hok (exec_one.mpr h)).mem hr
    exact ⟨r', hr', hp.trans hsame.dispatchPayload.symm⟩
  · intro payload result hev hraised
    rw [hlog, List.mem_append] at hev
    rcases hev with hold | hmem
    · obtain ⟨a, c, job, ha, hp⟩ := hs.answers payload result hold hraised
      exact ⟨a, c, job, step_accepted h ha, hp⟩
    · exact (hnew payload result hmem).2 hraised

/-- Both invariants, along every run. -/
theorem dispatchOk_run {cfg : Config} {ls : List Label} {s : Service}
    (h : exec (step cfg) Service.empty ls = some s) :
    ServiceOk cfg s ∧ DispatchOk s :=
  exec_invariant (I := fun t => ServiceOk cfg t ∧ DispatchOk t)
    (fun _ _ _ hs hst => ⟨serviceOk_step hs.1 hst, dispatchOk_step hs.1 hs.2 hst⟩)
    ⟨serviceOk_empty cfg, dispatchOk_empty⟩ h

/-- Pending and dispatched jobs are all different. -/
theorem DispatchOk.nodup {cfg : Config} {s : Service} (hok : ServiceOk cfg s)
    (hs : DispatchOk s) :
    (s.calls.filterMap pendingId ++ s.log.filterMap dispatchedId).Nodup :=
  hs.ids.nodup_iff.mpr hok.ids

/-! ## Whether an accepted job has been dispatched -/

/-- Every job somebody got a 201 for has been handed to the broker. -/
def Dispatched (s : Service) : Prop :=
  ∀ (a : Nat) (c : Call) (job : Job), s.calls[a]? = some (c, accepted job) →
    .dispatch (dispatchPayload job) .handed ∈ s.log

/-- The creating call of a row has not published it yet, or its publish
    raised. -/
def Undispatched (s : Service) (r : Job) : Prop :=
  (∃ (a : Nat) (c : Call) (job : Job), s.calls[a]? = some (c, .publish job)
      ∧ job.id = r.id)
    ∨ ∃ e, .dispatch (dispatchPayload r) (.raised e) ∈ s.log

/-- The step drops no dispatch and replays no undispatched row. -/
def SafeReply (s : Service) : Label → Prop
  | .call i =>
      match s.calls[i]? with
      | some (c, .publish _) => c.publish ≠ .dropped
      | some (c, .start) =>
          ∀ r, sqlFindByIdempotency s.jobs c.userId c.idempotencyKey = some r →
            ¬ Undispatched s r
      | some (_, .relookup job) =>
          ∀ r, sqlFindByIdempotency s.jobs job.userId job.idempotencyKey = some r →
            ¬ Undispatched s r
      | some (_, .validate) => True
      | some (_, .insert _) => True
      | some (_, .returned _) => True
      | none => True
  | .submit _ => True
  | .deliver _ _ => True
  | .handler => True

/-- While every answered job has been dispatched, a stored row has been handed
    to the broker exactly when it is not undispatched. -/
theorem handed_iff {cfg : Config} {s : Service} (hok : ServiceOk cfg s)
    (hs : DispatchOk s) (hd : Dispatched s) {r : Job} (hr : r ∈ s.jobs) :
    .dispatch (dispatchPayload r) .handed ∈ s.log ↔ ¬ Undispatched s r := by
  have hnodup := hs.nodup hok
  rw [List.nodup_append] at hnodup
  obtain ⟨-, hdisp, hdisj⟩ := hnodup
  constructor
  · rintro hhanded (⟨a, c, job, ha, hid⟩ | ⟨e, hraised⟩)
    · -- the id would be both pending and dispatched
      have hpend : r.id ∈ s.calls.filterMap pendingId := by
        rw [← hid]
        exact List.mem_filterMap.mpr
          ⟨(c, .publish job), List.mem_of_getElem? ha, rfl⟩
      have hlog : r.id ∈ s.log.filterMap dispatchedId :=
        List.mem_filterMap.mpr ⟨_, hhanded, dispatchedId_dispatchPayload r .handed⟩
      exact hdisj r.id hpend r.id hlog rfl
    · have hsame := eq_of_nodup_filterMap hdisp hhanded hraised
        (dispatchedId_dispatchPayload r .handed)
        (dispatchedId_dispatchPayload r (.raised e))
      rw [Event.dispatch.injEq] at hsame
      cases hsame.2
  · intro hno
    have hid : r.id ∈ s.calls.filterMap pendingId
        ++ s.log.filterMap dispatchedId :=
      hs.ids.mem_iff.mpr (List.mem_map_of_mem hr)
    rcases List.mem_append.mp hid with hpend | hlog
    · obtain ⟨⟨c, pc⟩, hc, hpc⟩ := List.mem_filterMap.mp hpend
      obtain ⟨a, ha⟩ := List.mem_iff_getElem?.mp hc
      cases pc with
      | publish job =>
          exact absurd (Or.inl ⟨a, c, job, ha, Option.some.inj hpc⟩) hno
      | _ => cases hpc
    · obtain ⟨ev, hev, hevid⟩ := List.mem_filterMap.mp hlog
      cases ev with
      | callback updated => cases hevid
      | dispatch payload result =>
          obtain ⟨r', hr', rfl⟩ := hs.rows payload result hev
          rw [dispatchedId_dispatchPayload, Option.some.injEq] at hevid
          have hrr : r' = r := List.inj_on_of_nodup_map hok.ids hr' hr hevid
          rw [hrr] at hev
          cases result with
          | handed => exact hev
          | raised e => exact absurd (Or.inr ⟨e, hev⟩) hno
          | dropped =>
              obtain ⟨a, c, job, ha, hp⟩ :=
                hs.answers _ _ hev (fun e h => by cases h)
              rw [hp]
              exact hd a c job ha

/-- After a step of a call, the property rests on the answer of that call. -/
theorem dispatched_call {s : Service} (hd : Dispatched s) {i : Nat} {c : Call}
    {pc pc' : CreatePc} {T' : Table} {ev : List Event}
    (here : s.calls[i]? = some (c, pc)) :
    Dispatched { s with
        jobs := T', calls := s.calls.set i (c, pc'), log := s.log ++ ev }
      ↔ ∀ job, pc' = accepted job →
          .dispatch (dispatchPayload job) .handed ∈ s.log ++ ev := by
  have hlen : i < s.calls.length := (List.getElem?_eq_some_iff.mp here).1
  constructor
  · intro hd' job hpc'
    refine hd' i c job ?_
    show (s.calls.set i (c, pc'))[i]? = _
    rw [List.getElem?_set_self hlen, hpc']
  · intro hnew a c₀ job ha
    have ha' : (s.calls.set i (c, pc'))[a]? = some (c₀, accepted job) := ha
    rcases getElem?_set_some ha' with ⟨-, heq⟩ | ⟨-, hold⟩
    · exact hnew job (Prod.mk.inj heq).2.symm
    · exact List.mem_append_left _ (hd a c₀ job hold)

/-- Answering with a stored row keeps the property exactly if the row is not
    undispatched. -/
theorem answered_row {cfg : Config} {s : Service} (hok : ServiceOk cfg s)
    (hs : DispatchOk s) (hd : Dispatched s) {u k : String} {existing : Job}
    (found : sqlFindByIdempotency s.jobs u k = some existing) :
    (∀ job, accepted existing = accepted job →
        .dispatch (dispatchPayload job) .handed ∈ s.log ++ [])
      ↔ ∀ r, sqlFindByIdempotency s.jobs u k = some r → ¬ Undispatched s r := by
  have hiff := handed_iff hok hs hd (sqlFindByIdempotency_some found).1
  rw [List.append_nil]
  constructor
  · intro h r hr
    rw [found, Option.some.injEq] at hr
    rw [← hr]
    exact hiff.mp (h existing rfl)
  · intro h job heq
    rw [← accepted_inj heq]
    exact hiff.mpr (h existing found)

/-- A publish that answers with its job hands it over, unless it is
    dropped. -/
theorem publish_dispatched_iff {cfg : Config} {s : Service}
    (hok : ServiceOk cfg s) (hs : DispatchOk s) {i : Nat} {c : Call} {job : Job}
    (here : s.calls[i]? = some (c, .publish job)) :
    (∀ job', CreatePc.returned (publishDispatch c job).1 = accepted job' →
        .dispatch (dispatchPayload job') .handed
          ∈ s.log ++ (publishDispatch c job).2)
      ↔ c.publish ≠ .dropped := by
  cases hp : c.publish with
  | handed =>
      refine ⟨(fun _ h => by cases h), ?_⟩
      intro _ job' heq
      rw [publishDispatch, hp] at heq ⊢
      rw [← accepted_inj heq]
      exact List.mem_append_right _ (List.mem_singleton_self _)
  | raised e =>
      refine ⟨(fun _ h => by cases h), ?_⟩
      intro _ job' heq
      rw [publishDispatch, hp] at heq
      cases heq
  | dropped =>
      refine ⟨fun hall => ?_, fun hne => absurd rfl hne⟩
      have hin := hall job (by rw [publishDispatch, hp]; rfl)
      rw [publishDispatch, hp] at hin
      rcases List.mem_append.mp hin with hlog | hnew
      · -- a job still pending in this call has no dispatch yet
        have hnodup := hs.nodup hok
        rw [List.nodup_append] at hnodup
        refine absurd rfl (hnodup.2.2 job.id ?_ job.id ?_)
        · exact List.mem_filterMap.mpr
            ⟨(c, .publish job), List.mem_of_getElem? here, rfl⟩
        · exact List.mem_filterMap.mpr
            ⟨_, hlog, dispatchedId_dispatchPayload job .handed⟩
      · have hev := List.mem_singleton.mp hnew
        rw [Event.dispatch.injEq] at hev
        cases hev.2

/-- One step keeps every answered job dispatched exactly if it is safe. -/
theorem dispatched_step {cfg : Config} {s s' : Service} {l : Label}
    (hok : ServiceOk cfg s) (hs : DispatchOk s) (hd : Dispatched s)
    (h : step cfg s l = some s') : Dispatched s' ↔ SafeReply s l := by
  cases step_move h with
  | submit c =>
      refine ⟨fun _ => trivial, fun _ => ?_⟩
      intro a c₀ job ha
      have ha' : (s.calls ++ [(c, CreatePc.start)])[a]?
          = some (c₀, accepted job) := ha
      rcases List.mem_append.mp (List.mem_of_getElem? ha') with
        hold | hnew
      · obtain ⟨b, hb⟩ := List.mem_iff_getElem?.mp hold
        exact hd b c₀ job hb
      · cases List.mem_singleton.mp hnew
  | deliver msg now idle => exact ⟨fun _ => trivial, fun _ => hd⟩
  | handler pc' T' ev move =>
      refine ⟨fun _ => trivial, fun _ => ?_⟩
      intro a c job ha
      exact List.mem_append_left _ (hd a c job ha)
  | call i c pc pc' T' ev here move =>
      rw [dispatched_call hd here]
      have hc : CallOk cfg c s.jobs pc := hok.call here
      cases move with
      | replay existing found =>
          simp only [SafeReply, here]
          exact answered_row hok hs hd found
      | lateReplay own existing found =>
          simp only [SafeReply, here]
          exact answered_row hok hs hd found
      | publish job =>
          simp only [SafeReply, here]
          exact publish_dispatched_iff hok hs here
      | miss found =>
          simp only [SafeReply, here]
          constructor
          · intro _ r hr
            cases found.symm.trans hr
          · intro _ job heq
            cases heq
      | lateMiss own found =>
          simp only [SafeReply, here]
          constructor
          · intro _ r hr
            cases found.symm.trans hr
          · intro _ job heq
            cases heq
      | _ =>
          -- no answer, or an answer without a job
          simp only [SafeReply, here]
          exact ⟨fun _ => trivial, fun _ _ heq => by cases heq⟩

/-- **No accepted job undispatched, exactly when**: in every state a run goes
    through, every job somebody got a 201 for has been handed to the broker,
    exactly if no publish of the run is dropped and no lookup of the run
    answers with a row that is still before its publish or whose publish
    raised. -/
theorem accepted_jobs_dispatched_iff {cfg : Config} {ls : List Label}
    {s : Service} (h : exec (step cfg) Service.empty ls = some s) :
    (∀ t ∈ visited (step cfg) Service.empty ls, Dispatched t)
      ↔ EverySteps (step cfg) SafeReply Service.empty ls := by
  have hempty : Dispatched Service.empty := by
    intro a c job ha
    cases ha
  refine always_iff_steps (I := fun t => ServiceOk cfg t ∧ DispatchOk t) ?_ ?_
    ⟨serviceOk_empty cfg, dispatchOk_empty⟩ hempty h
  · rintro t l t' ⟨hok, hs⟩ hst
    exact ⟨serviceOk_step hok hst, dispatchOk_step hok hs hst⟩
  · rintro t l t' ⟨hok, hs⟩ hd hst
    exact dispatched_step hok hs hd hst

/-- One booking, run to its return. -/
private def oneBooking (publish : PublishResult) : Call :=
  booking "user-001" "k1" "job-1" "asset-001" (february 2 1) (february 2 3)
    publish

private def booked (publish : PublishResult) : List Label :=
  [.submit (oneBooking publish), .call 0, .call 0, .call 0, .call 0]

/-- The publish results in a log. -/
private def publishResults (log : List Event) : List PublishResult :=
  log.filterMap (fun ev =>
    match ev with
    | .dispatch _ result => some result
    | .callback _ => none)

/-- A booking whose publish is handed over is a run of safe steps. -/
theorem accepted_jobs_dispatched_iff_booked :
    (∀ t ∈ visited (step seedConfig) Service.empty (booked .handed), Dispatched t)
      ∧ EverySteps (step seedConfig) SafeReply Service.empty (booked .handed) := by
  let c : Call := oneBooking .handed
  obtain ⟨s, hs⟩ := Option.isSome_iff_exists.mp
    (show (exec (step seedConfig) Service.empty (booked .handed)).isSome = true by
      decide)
  have hvisited : (visited (step seedConfig) Service.empty (booked .handed)).map
      (fun t => (t.jobs, t.calls, publishResults t.log))
      = [([], [], []), ([], [(c, .start)], []), ([], [(c, .validate)], []),
        ([], [(c, .insert (newJob c))], []),
        ([newJob c], [(c, .publish (newJob c))], []),
        ([newJob c], [(c, accepted (newJob c))], [.handed])] := by decide
  have hall : ∀ t ∈ visited (step seedConfig) Service.empty (booked .handed),
      Dispatched t := by
    intro t ht a c' job ha
    obtain ⟨pre, -, -, hpre⟩ := mem_visited hs ht
    have hobs := List.mem_map_of_mem
      (f := fun t => (t.jobs, t.calls, publishResults t.log)) ht
    have hmem : (c', accepted job) ∈ t.calls :=
      List.mem_of_getElem? ha
    simp only [hvisited, List.mem_cons, Prod.mk.injEq, List.not_mem_nil,
      or_false] at hobs
    rcases hobs with h | h | h | h | h | ⟨hjobs, hcalls, hlog⟩
    · rw [h.2.1] at hmem; cases hmem
    · rw [h.2.1] at hmem; cases List.mem_singleton.mp hmem
    · rw [h.2.1] at hmem; cases List.mem_singleton.mp hmem
    · rw [h.2.1] at hmem; cases List.mem_singleton.mp hmem
    · rw [h.2.1] at hmem; cases List.mem_singleton.mp hmem
    · -- the one handed dispatch is for the one row of the table
      have hjob : job = newJob c := by
        rw [hcalls, List.mem_singleton, Prod.mk.injEq] at hmem
        exact accepted_inj hmem.2
      have hin : PublishResult.handed ∈ publishResults t.log := by
        rw [hlog]
        exact List.mem_singleton_self _
      obtain ⟨ev, hev, hres⟩ := List.mem_filterMap.mp hin
      cases ev with
      | callback updated => cases hres
      | dispatch payload result =>
          obtain ⟨r, hr, rfl⟩ := (dispatchOk_run hpre).2.rows payload result hev
          rw [hjobs, List.mem_singleton] at hr
          rw [hjob, ← hr, ← Option.some.inj hres]
          exact hev
  exact ⟨hall, (accepted_jobs_dispatched_iff hs).mp hall⟩

/-- A dropped dispatch: the client has its 201, but the broker has nothing. -/
theorem dropped_dispatch_not_dispatched :
    ∃ s, exec (step seedConfig) Service.empty (booked .dropped) = some s
      ∧ s.calls[0]? = some (oneBooking .dropped,
          accepted (newJob (oneBooking .dropped)))
      ∧ ¬ Dispatched s := by
  obtain ⟨s, hs, hobs⟩ := Option.map_eq_some_iff.mp
    (show (exec (step seedConfig) Service.empty (booked .dropped)).map
        (fun s => (s.calls[0]?, publishResults s.log))
      = some (some (oneBooking .dropped,
          accepted (newJob (oneBooking .dropped))), [.dropped]) by decide)
  obtain ⟨hret, hlog⟩ := Prod.mk.inj hobs
  refine ⟨s, hs, hret, ?_⟩
  intro hd
  have hin : PublishResult.handed ∈ publishResults s.log :=
    List.mem_filterMap.mpr ⟨_, hd 0 _ _ hret, rfl⟩
  rw [hlog] at hin
  cases List.mem_singleton.mp hin

end JobDispatch
