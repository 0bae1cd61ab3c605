import JobScheduling.JobOutcomes
import Mathlib.Data.List.Perm.Subperm

/-! # Restarts

    Both processes can end at any time and be started again.  The startup of
    the service removes the database file: the table is empty, and so is
    everything the process had in memory.  The messages in flight stay, and so
    do the worker's threads, which work on jobs of a table that is gone.

    What keeps the old jobs away from the new ones is that no id is generated
    twice.  With that, `restarts_safe`: whatever was in flight, no id is
    dispatched twice over all the processes, the rows of the table that is
    there have outcomes that match their assets, and an answer to a removed
    job is ignored. -/

namespace JobRestarts

open JobConstants JobClock JobPayload JobModels JobRepository JobBroker
open JobOrchestrator JobService JobLedger JobDispatch JobHandler JobWorker
open JobSystem JobOutcomes KeyedTable Runs Channels

/-! ## The processes -/

/-- The system, and what the services before this one left behind. -/
structure Fleet where
  sys : System
  /-- What they logged. -/
  past : List Event
  /-- The rows of the databases that were removed. -/
  removed : Table

def Fleet.empty : Fleet := ⟨System.empty, [], []⟩

inductive FleetLabel where
  | system (l : SystemLabel)
  | startup
  | workerStart

/-- One step; `startup` is the one of `app.py`. -/
def fleetStep (cfg : Config) (f : Fleet) : FleetLabel → Option Fleet
  | .system l =>
      match systemStep cfg f.sys l with
      | none => none
      | some sys' => some { f with sys := sys' }
  | .startup => some
      { sys := { f.sys with service := Service.empty }
        past := f.past ++ f.sys.service.log
        removed := f.removed ++ f.sys.service.jobs }
  | .workerStart => some { f with sys := { f.sys with threads := some [] } }

/-- The id a label brings in. -/
def generatedId : FleetLabel → Option String
  | .system (.service (.submit c)) => some c.uuid
  | _ => none

/-- All rows there have ever been. -/
def Fleet.book (f : Fleet) : Table := f.removed ++ f.sys.service.jobs

/-- A step of the processes is one of the system, or a start. -/
theorem fleetStep_cases {cfg : Config} {f f' : Fleet} {l : FleetLabel}
    (h : fleetStep cfg f l = some f') :
    (∃ m sys', l = .system m ∧ systemStep cfg f.sys m = some sys'
        ∧ f' = { f with sys := sys' })
      ∨ (l = .startup ∧ f' = ⟨{ f.sys with service := Service.empty },
          f.past ++ f.sys.service.log, f.removed ++ f.sys.service.jobs⟩)
      ∨ (l = .workerStart ∧ f' = { f with sys := { f.sys with threads := some [] } }) := by
  cases l with
  | system m =>
      cases hst : systemStep cfg f.sys m with
      | none => simp [fleetStep, hst] at h
      | some sys' =>
          simp only [fleetStep, hst, Option.some.injEq] at h
          exact Or.inl ⟨m, sys', rfl, hst, h.symm⟩
  | startup => exact Or.inr (Or.inl ⟨rfl, (Option.some.inj h).symm⟩)
  | workerStart => exact Or.inr (Or.inr ⟨rfl, (Option.some.inj h).symm⟩)

/-! ## Ids are generated once -/

/-- The id a call has still to store. -/
def claimedId : Call × CreatePc → Option String
  | (c, .start) => some c.uuid
  | (c, .validate) => some c.uuid
  | (c, .insert _) => some c.uuid
  | (_, .relookup _) => none
  | (_, .publish _) => none
  | (_, .returned _) => none

/-- The id a step of the service brings in. -/
def submittedId : Label → Option String
  | .submit c => some c.uuid
  | .call _ => none
  | .deliver _ _ => none
  | .handler => none

/-- The ids stored and claimed. -/
def idsOf (s : Service) : List String :=
  s.jobs.map Job.id ++ s.calls.filterMap claimedId

/-- A move of a call stores the id it claimed, gives it up or keeps it. -/
theorem CreateMove.claims {cfg : Config} {c : Call} {T T' : Table}
    {pc pc' : CreatePc} {ev : List Event} (h : CreateMove cfg c T pc pc' T' ev)
    (hok : CallOk cfg c T pc) (id : String) :
    (T'.map Job.id).count id + (claimedId (c, pc')).toList.count id
      ≤ (T.map Job.id).count id + (claimedId (c, pc)).toList.count id := by
  cases h with
  | created job admits =>
      have hjob : job.id = c.uuid := congrArg Job.id hok.1
      rw [List.map_append, List.count_append, List.map_singleton, hjob]
      exact Nat.le_refl _
  | miss found => exact Nat.le_refl _
  | accept valid => exact Nat.le_refl _
  | publish job => exact Nat.le_refl _
  | lateReplay job existing found => exact Nat.le_refl _
  | lateMiss job found => exact Nat.le_refl _
  | _ => exact Nat.le_add_right _ _

/-- A step of the service stores and claims what was stored or claimed, or
    has just come in. -/
theorem idsOf_step {cfg : Config} {s s' : Service} {l : Label}
    (hs : ServiceOk cfg s) (h : step cfg s l = some s') :
    (idsOf s').Subperm (idsOf s ++ (submittedId l).toList) := by
  cases step_move h with
  | submit c =>
      have heq : idsOf { s with calls := s.calls ++ [(c, .start)] }
          = idsOf s ++ [c.uuid] := by
        show s.jobs.map Job.id ++ (s.calls ++ [(c, CreatePc.start)]).filterMap claimedId
          = _
        rw [List.filterMap_append, ← List.append_assoc]
        rfl
      rw [heq]
      exact List.Subperm.refl _
  | call i c pc pc' T' ev here move =>
      refine List.subperm_iff_count.mpr (fun id => ?_)
      have hset := count_filterMap_set (f := claimedId) (b := (c, pc')) here id
      have hmove := CreateMove.claims move (hs.call here) id
      show (T'.map Job.id ++ (s.calls.set i (c, pc')).filterMap claimedId).count id
        ≤ (idsOf s ++ []).count id
      rw [List.append_nil, idsOf, List.count_append, List.count_append]
      omega
  | deliver msg now idle =>
      show (idsOf s).Subperm (idsOf s ++ [])
      rw [List.append_nil]
  | handler pc' T' ev move =>
      have hmap : T'.map Job.id = s.jobs.map Job.id :=
        HandlerMove.column (fun _ _ _ _ => rfl) move hs.ids hs.handler
      show (T'.map Job.id ++ s.calls.filterMap claimedId).Subperm (idsOf s ++ [])
      rw [hmap, List.append_nil]
      exact List.Subperm.refl _

/-! ## Messages about any job there has been -/

/-- Every message in flight and every thread is about a row of the book. -/
structure Carried (T : Table) (sys : System) : Prop where
  dispatches : ∀ p ∈ sys.dispatches, ∃ r ∈ T, p = dispatchPayload r
  threads : ∀ threads, sys.threads = some threads →
    ∀ pc ∈ threads, ThreadOk T pc
  results : ∀ m ∈ sys.results, m.sender = .worker → ResultOk T m.payload

/-- What is in flight still stands for rows that have been rewritten. -/
theorem Carried.evolves {T T' : Table} (hT : Evolves SameJob T T')
    {sys : System} (h : Carried T sys) : Carried T' sys := by
  refine ⟨?_, ?_, ?_⟩
  · intro p hp
    obtain ⟨r, hr, heq⟩ := h.dispatches p hp
    obtain ⟨r', hr', hsame⟩ := hT.mem hr
    exact ⟨r', hr', heq.trans hsame.dispatchPayload.symm⟩
  · exact fun threads hup pc hpc => (h.threads threads hup pc hpc).evolves hT
  · exact fun m hm hsender => (h.results m hm hsender).evolves hT

/-- A step of the system carries on, over a book that has the rows of its
    table. -/
theorem carried_step {cfg : Config} {T : Table} {sys sys' : System}
    {l : SystemLabel} (hsys : Carried T sys) (hdispatch : DispatchOk sys'.service)
    (hT : ∀ r ∈ sys'.service.jobs, r ∈ T)
    (h : systemStep cfg sys l = some sys') : Carried T sys' := by
  cases systemStep_move h with
  | service l s' noMessage move =>
      -- what was in flight may be about rows of an earlier process
      refine ⟨?_, hsys.threads, hsys.results⟩
      intro p hp
      rcases List.mem_append.mp hp with hold | hnew
      · exact hsys.dispatches p hold
      · obtain ⟨r, hr, heq⟩ := handed_ok hdispatch _ hnew
        exact ⟨r, hT r hr, heq⟩
  | dispatchFault f ms disturbed =>
      exact ⟨fun p hp => hsys.dispatches p (mem_of_mem_disturb disturbed hp),
        hsys.threads, hsys.results⟩
  | receive i threads payload rest up taken =>
      obtain ⟨hmem, hrest⟩ := mem_of_take taken
      refine ⟨fun p hp => hsys.dispatches p (hrest p hp), ?_, hsys.results⟩
      obtain ⟨r, hr, rfl⟩ := hsys.dispatches payload hmem
      intro threads' hup pc hpc
      rw [← Option.some.inj hup] at hpc
      rcases List.mem_append.mp hpc with hold | hnew
      · exact hsys.threads threads up pc hold
      · rw [List.mem_singleton.mp hnew]
        exact ⟨r, hr, rfl⟩
  | thread j first second publish threads pc pc' sent up here move =>
      have hpc := hsys.threads threads up pc (List.mem_of_getElem? here)
      obtain ⟨hpc', hsent⟩ := threadStep_ok hpc move
      refine ⟨hsys.dispatches, ?_, ?_⟩
      · intro threads' hup x hx
        rw [← Option.some.inj hup] at hx
        rcases List.mem_or_eq_of_mem_set hx with hold | hnew
        · exact hsys.threads threads up x hold
        · rw [hnew]
          exact hpc'
      · intro m hm hsender
        rcases List.mem_append.mp hm with hold | hnew
        · exact hsys.results m hold hsender
        · obtain ⟨p, hp, rfl⟩ := List.mem_map.mp hnew
          exact hsent p hp
  | inject msg =>
      refine ⟨hsys.dispatches, hsys.threads, ?_⟩
      intro m hm hsender
      rcases List.mem_append.mp hm with hold | hnew
      · exact hsys.results m hold hsender
      · rw [List.mem_singleton.mp hnew] at hsender
        cases hsender
  | resultFault f ms disturbed =>
      exact ⟨hsys.dispatches, hsys.threads,
        fun m hm => hsys.results m (mem_of_mem_disturb disturbed hm)⟩
  | result i now m rest s' taken move =>
      exact ⟨hsys.dispatches, hsys.threads,
        fun x hx => hsys.results x ((mem_of_take taken).2 x hx)⟩

/-- A row a message is about and the handler finds is the row of the table. -/
theorem resultOk_of_proceed {R T : Table} {msg : Delivered}
    {jobId newState errorMsg : Json} (hids : ((R ++ T).map Job.id).Nodup)
    (h : ResultOk (R ++ T) msg)
    (hv : readMessage T msg = .proceed jobId newState errorMsg) :
    ResultOk T msg := by
  obtain ⟨payload, id, current, -, -, hmsg, hjob, -, -, -, hbind, hfound, -, -⟩ :=
    readMessage_proceed hv
  obtain ⟨r, hr, payload', hmsg', hid, hans⟩ := h
  have hp : payload = payload' := by
    rw [hmsg] at hmsg'
    exact Json.obj.inj (Except.ok.inj hmsg')
  obtain ⟨hcur, hcurid⟩ := sqlFindByIdUnscoped_some hfound
  have hrid : r.id = id := by
    rw [hjob, hp, hid] at hbind
    exact Option.some.inj (Except.ok.inj hbind)
  have hrow : r = current := List.inj_on_of_nodup_map hids hr
    (List.mem_append_right R hcur) (hrid.trans hcurid.symm)
  rw [hrow] at hans hid
  exact ⟨current, hcur, payload', hmsg', hid, hans⟩

/-- A message about a row that is gone is ignored. -/
theorem receive_stale {R T : Table} {msg : Delivered}
    (hids : ((R ++ T).map Job.id).Nodup) (h : ResultOk (R ++ T) msg) :
    ResultOk T msg ∨ ∀ now, receive T msg now = .idle := by
  cases hv : readMessage T msg with
  | proceed jobId newState errorMsg =>
      exact Or.inl (resultOk_of_proceed hids h hv)
  | ignored why =>
      refine Or.inr (fun now => ?_)
      rw [receive, hv]
  | raised e =>
      obtain ⟨r, hr, payload, rfl, hid, hans⟩ := h
      by_cases hpresent : (dictGet payload fieldJobId).truthy = true
          ∧ (dictGet payload fieldState).truthy = true
      · have hread := readMessage_present (T := T) hpresent.1 hpresent.2
        rw [hv, hid] at hread
        simp only [bindText_str] at hread
        split at hread
        · cases hread
        · split at hread
          · cases hread
          · cases hread
      · rw [readMessage_missing hpresent] at hv
        cases hv

/-! ## One step of the processes -/

/-- The invariant of the processes, for the ids generated so far. -/
structure FleetOk (cfg : Config) (ids : List String) (f : Fleet) : Prop where
  reached : ∃ ls, exec (step cfg) Service.empty ls = some f.sys.service
  fresh : (f.removed.map Job.id ++ idsOf f.sys.service).Subperm ids
  past : (f.past.filterMap dispatchedId).Subperm (f.removed.map Job.id)
  carried : Carried f.book f.sys

theorem fleetOk_empty (cfg : Config) : FleetOk cfg [] Fleet.empty where
  reached := ⟨[], rfl⟩
  fresh := List.Subperm.refl _
  past := List.Subperm.refl _
  carried := by
    refine ⟨fun p hp => absurd hp List.not_mem_nil, ?_,
      fun m hm => absurd hm List.not_mem_nil⟩
    intro threads hup pc hpc
    rw [← Option.some.inj hup] at hpc
    cases hpc

/-- What the system stores and claims. -/
theorem systemIds_step {cfg : Config} {sys sys' : System} {m : SystemLabel}
    (hs : ServiceOk cfg sys.service) (h : systemStep cfg sys m = some sys') :
    (idsOf sys'.service).Subperm
      (idsOf sys.service ++ (generatedId (.system m)).toList) := by
  have hsame : (idsOf sys.service).Subperm (idsOf sys.service ++ []) := by
    rw [List.append_nil]
  cases systemStep_move h with
  | service l s' noMessage move =>
      have hid : generatedId (.system (.service l)) = submittedId l := by
        cases l <;> rfl
      rw [hid]
      exact idsOf_step hs move
  | result i now m rest s' taken move => exact idsOf_step hs move
  | _ => exact hsame

/-- All rows there have been go on as the rows of the table do. -/
theorem book_evolves {cfg : Config} {f : Fleet} {sys' : System}
    {m : SystemLabel} (hs : ServiceOk cfg f.sys.service)
    (h : systemStep cfg f.sys m = some sys') :
    Evolves SameJob f.book (f.removed ++ sys'.service.jobs) := by
  refine Evolves.append_left SameJob.refl f.removed ?_
  rcases systemStep_service h with heq | ⟨l', hl'⟩
  · rw [heq]
    exact Evolves.refl SameJob.refl _
  · exact jobs_evolve hs (exec_one.mpr hl')

/-- **Every step of the fleet keeps it**, a restart included. -/
theorem fleetOk_step {cfg : Config} {ids : List String} {f f' : Fleet}
    {l : FleetLabel} (hf : FleetOk cfg ids f)
    (h : fleetStep cfg f l = some f') :
    FleetOk cfg (ids ++ (generatedId l).toList) f' := by
  obtain ⟨ls, hls⟩ := hf.reached
  obtain ⟨hok, hdispatch⟩ := dispatchOk_run hls
  rcases fleetStep_cases h with ⟨m, sys', rfl, hst, rfl⟩ | ⟨rfl, rfl⟩ | ⟨rfl, rfl⟩
  · -- a step of the two processes as they run
    have hreached : ∃ ls, exec (step cfg) Service.empty ls = some sys'.service := by
      rcases systemStep_service hst with heq | ⟨l', hl'⟩
      · exact ⟨ls, by rw [heq, hls]⟩
      · exact ⟨ls ++ [l'], exec_concat.mpr ⟨_, hls, hl'⟩⟩
    obtain ⟨ls', hls'⟩ := hreached
    refine ⟨⟨ls', hls'⟩, ?_, hf.past, ?_⟩
    · have hstep := (List.Subperm.refl (f.removed.map Job.id)).append
        (systemIds_step hok hst)
      rw [← List.append_assoc] at hstep
      exact hstep.trans (hf.fresh.append (List.Subperm.refl _))
    · exact carried_step (hf.carried.evolves (book_evolves hok hst))
        (dispatchOk_run hls').2 (fun r hr => List.mem_append_right _ hr) hst
  · -- the service starts again, with an empty table
    refine ⟨⟨[], rfl⟩, ?_, ?_, ?_⟩
    · -- what the calls of the old process claimed is given up
      have hkept : ((f.removed ++ f.sys.service.jobs).map Job.id
          ++ idsOf Service.empty).Sublist
          (f.removed.map Job.id ++ idsOf f.sys.service) := by
        rw [List.map_append, List.append_assoc]
        refine (List.Sublist.refl _).append ?_
        exact (List.Sublist.refl _).append (List.nil_sublist _)
      have hids := hkept.subperm.trans hf.fresh
      rw [show generatedId .startup = none from rfl, Option.toList_none,
        List.append_nil]
      exact hids
    · have hlog : (f.sys.service.log.filterMap dispatchedId).Subperm
          (f.sys.service.jobs.map Job.id) :=
        (List.sublist_append_right _ _).subperm.trans hdispatch.ids.subperm
      rw [List.filterMap_append, List.map_append]
      exact hf.past.append hlog
    · have hbook : Fleet.book ⟨{ f.sys with service := Service.empty },
          f.past ++ f.sys.service.log, f.removed ++ f.sys.service.jobs⟩
          = f.book := List.append_nil _
      rw [hbook]
      exact ⟨hf.carried.dispatches, hf.carried.threads, hf.carried.results⟩
  · -- the worker starts again, without threads
    refine ⟨⟨ls, hls⟩, ?_, hf.past, hf.carried.dispatches, ?_, hf.carried.results⟩
    · rw [show generatedId .workerStart = none from rfl, Option.toList_none,
        List.append_nil]
      exact hf.fresh
    · intro threads hup pc hpc
      rw [← Option.some.inj hup] at hpc
      cases hpc

/-- The ids of all rows there have been are different. -/
theorem FleetOk.ids {cfg : Config} {ids : List String} {f : Fleet}
    (hf : FleetOk cfg ids f) (hids : ids.Nodup) : (f.book.map Job.id).Nodup := by
  refine nodup_of_subperm (List.Subperm.trans ?_ hf.fresh) hids
  rw [Fleet.book, List.map_append]
  refine List.Sublist.subperm ((List.Sublist.refl _).append ?_)
  exact List.sublist_append_left _ _

/-- All dispatches there have been are of different jobs. -/
theorem FleetOk.dispatched {cfg : Config} {ids : List String} {f : Fleet}
    (hf : FleetOk cfg ids f) (hids : ids.Nodup) :
    ((f.past ++ f.sys.service.log).filterMap dispatchedId).Nodup := by
  obtain ⟨ls, hls⟩ := hf.reached
  have hlog : (f.sys.service.log.filterMap dispatchedId).Subperm
      (f.sys.service.jobs.map Job.id) :=
    (List.sublist_append_right _ _).subperm.trans
      (dispatchOk_run hls).2.ids.subperm
  refine nodup_of_subperm ?_ (hf.ids hids)
  rw [List.filterMap_append, Fleet.book, List.map_append]
  exact hf.past.append hlog

/-! ## Outcomes across restarts -/

/-- Nobody but the worker publishes results. -/
def WorkerOnly : FleetLabel → Prop
  | .system m => FromWorker m
  | .startup => True
  | .workerStart => True

/-- The rows of the table have outcomes, and the answers in flight are the
    worker's. -/
structure FleetGenuine (f : Fleet) : Prop where
  service : ServiceGenuine f.sys.service
  senders : ∀ m ∈ f.sys.results, m.sender = .worker

/-- A step of the present processes keeps the answers genuine. -/
theorem fleetGenuine_system {cfg : Config} {ids : List String} {f : Fleet}
    {m : SystemLabel} {sys' : System} (hf : FleetOk cfg ids f) (hids : ids.Nodup)
    (hg : FleetGenuine f) (hm : FromWorker m)
    (h : systemStep cfg f.sys m = some sys') :
    FleetGenuine { f with sys := sys' } := by
  obtain ⟨ls, hls⟩ := hf.reached
  have hok := serviceOk_run hls
  cases systemStep_move h with
  | service l s' noMessage move =>
      exact ⟨serviceGenuine_step hok hg.service noMessage move, hg.senders⟩
  | dispatchFault g ms disturbed => exact ⟨hg.service, hg.senders⟩
  | receive i threads payload rest up taken => exact ⟨hg.service, hg.senders⟩
  | thread j first second publish threads pc pc' sent up here move =>
      refine ⟨hg.service, ?_⟩
      intro m hm
      rcases List.mem_append.mp hm with hold | hnew
      · exact hg.senders m hold
      · obtain ⟨p, -, rfl⟩ := List.mem_map.mp hnew
        rfl
  | inject msg => exact absurd hm id
  | resultFault g ms disturbed =>
      exact ⟨hg.service, fun x hx => hg.senders x (mem_of_mem_disturb disturbed hx)⟩
  | result i now m rest s' taken move =>
      obtain ⟨hmem, hrest⟩ := mem_of_take taken
      have hres := hf.carried.results m hmem (hg.senders m hmem)
      refine ⟨?_, fun x hx => hg.senders x (hrest x hx)⟩
      cases step_move move with
      | deliver _ _ idle =>
          refine ⟨hg.service.rows, ?_⟩
          -- an answer to a removed job leaves the handler idle
          rcases receive_stale (hf.ids hids) hres with hrow | hstale
          · exact handlerGenuine_receive hrow now
          · show HandlerGenuine f.sys.service.jobs
              (receive f.sys.service.jobs m.payload now)
            rw [hstale now]
            exact trivial

theorem fleetGenuine_step {cfg : Config} {ids : List String} {f f' : Fleet}
    {l : FleetLabel} (hf : FleetOk cfg ids f) (hids : ids.Nodup)
    (hg : FleetGenuine f) (hl : WorkerOnly l)
    (h : fleetStep cfg f l = some f') : FleetGenuine f' := by
  rcases fleetStep_cases h with ⟨m, sys', rfl, hst, rfl⟩ | ⟨rfl, rfl⟩ | ⟨rfl, rfl⟩
  · exact fleetGenuine_system hf hids hg hl hst
  · exact ⟨⟨fun r hr => absurd hr List.not_mem_nil, trivial⟩, hg.senders⟩
  · exact ⟨hg.service, hg.senders⟩

/-- **Restarts are safe**: if no id is generated twice and the worker is the
    only one to publish results, then after any number of restarts of both
    processes, at any time, with any messages in flight: the table is one the
    service reaches on its own; no job of any process is dispatched twice; the
    rows have outcomes that match their assets; and every answer in flight is
    about a row of the table or will be ignored. -/
theorem restarts_safe {cfg : Config} {ls : List FleetLabel} {f : Fleet}
    (h : exec (fleetStep cfg) Fleet.empty ls = some f)
    (fresh : (ls.filterMap generatedId).Nodup) (worker : ∀ l ∈ ls, WorkerOnly l) :
    ReachableTable cfg f.sys.service.jobs
      ∧ ((f.past ++ f.sys.service.log).filterMap dispatchedId).Nodup
      ∧ (∀ r ∈ f.sys.service.jobs, Outcome r)
      ∧ ∀ m ∈ f.sys.results, ResultOk f.sys.service.jobs m.payload
          ∨ ∀ now, receive f.sys.service.jobs m.payload now = .idle := by
  have hinv : FleetOk cfg (ls.filterMap generatedId) f
      ∧ ((ls.filterMap generatedId).Nodup → (∀ l ∈ ls, WorkerOnly l) →
        FleetGenuine f) := by
    -- the ids are fresh up to each point of the run
    refine exec_from_start (I := fun pre f =>
      FleetOk cfg (pre.filterMap generatedId) f
        ∧ ((pre.filterMap generatedId).Nodup → (∀ l ∈ pre, WorkerOnly l) →
          FleetGenuine f)) ?_ ⟨fleetOk_empty cfg, fun _ _ => ?_⟩ h
    · rintro pre t l t' - ⟨hok, hgen⟩ hst
      have hids : (pre ++ [l]).filterMap generatedId
          = pre.filterMap generatedId ++ (generatedId l).toList := by
        rw [List.filterMap_append]
        cases hl : generatedId l with
        | none => simp [hl]
        | some id => simp [hl]
      rw [hids]
      refine ⟨fleetOk_step hok hst, ?_⟩
      intro hnodup hworker
      have hpre := hnodup.sublist (List.sublist_append_left _ _)
      exact fleetGenuine_step hok hpre
        (hgen hpre (fun x hx => hworker x (List.mem_append_left _ hx)))
        (hworker l (List.mem_append_right _ (List.mem_singleton_self l))) hst
    · exact ⟨⟨fun r hr => absurd hr List.not_mem_nil, trivial⟩,
        fun m hm => absurd hm List.not_mem_nil⟩
  obtain ⟨hok, hgen⟩ := hinv
  have hg := hgen fresh worker
  obtain ⟨ms, hms⟩ := hok.reached
  refine ⟨⟨ms, _, hms, rfl⟩, hok.dispatched fresh, hg.service.rows, ?_⟩
  intro m hm
  exact receive_stale (hok.ids fresh) (hok.carried.results m hm (hg.senders m hm))

/-- The worker has a job of the faulty asset when the service is restarted;
    its answers come while the same hours are booked again, on another one. -/
def forgotten : List FleetLabel :=
  [.system (.service (.submit (booking "user-001" "k1" "job-1" "asset-fault"
      (february 2 1) (february 2 3) .handed))),
    .system (.service (.call 0)), .system (.service (.call 0)),
    .system (.service (.call 0)), .system (.service (.call 0)),
    .system (.receive 0), .startup,
    .system (.service (.submit (booking "user-001" "k1" "job-2" "asset-001"
      (february 2 1) (february 2 3) .handed))),
    .system (.service (.call 0)), .system (.service (.call 0)),
    .system (.service (.call 0)), .system (.service (.call 0)),
    .system (.thread 0 (february 2 1) (february 2 1) .handed),
    .system (.thread 0 (february 2 1) (february 2 1) .handed),
    .system (.result 1 (february 2 2))]

/-- Both jobs are dispatched once, and the answer that is still in flight is
    about neither. -/
theorem restarts_safe_forgotten :
    ∃ f, exec (fleetStep seedConfig) Fleet.empty forgotten = some f
      ∧ (f.past ++ f.sys.service.log).filterMap dispatchedId = ["job-1", "job-2"]
      ∧ f.sys.service.jobs.map Job.state = ["PENDING"]
      ∧ f.sys.results.length = 1
      ∧ (∀ r ∈ f.sys.service.jobs, Outcome r)
      ∧ ∀ m ∈ f.sys.results, ResultOk f.sys.service.jobs m.payload
          ∨ ∀ now, receive f.sys.service.jobs m.payload now = .idle := by
  obtain ⟨f, h, hobs⟩ := Option.map_eq_some_iff.mp
    (show (exec (fleetStep seedConfig) Fleet.empty forgotten).map
        (fun f => ((f.past ++ f.sys.service.log).filterMap dispatchedId,
          f.sys.service.jobs.map Job.state, f.sys.results.length))
      = some (["job-1", "job-2"], ["PENDING"], 1) by decide +kernel)
  have hfresh : (forgotten.filterMap generatedId).Nodup := by decide
  have hworker : ∀ l ∈ forgotten, WorkerOnly l := by
    intro l hl
    simp only [forgotten, List.mem_cons, List.not_mem_nil, or_false] at hl
    rcases hl with rfl | rfl | rfl | rfl | rfl | rfl | rfl | rfl | rfl | rfl |
      rfl | rfl | rfl | rfl | rfl <;> exact trivial
  obtain ⟨hids, hrest⟩ := Prod.mk.inj hobs
  obtain ⟨hstates, hflight⟩ := Prod.mk.inj hrest
  exact ⟨f, h, hids, hstates, hflight, (restarts_safe h hfresh hworker).2.2⟩

end JobRestarts
