import JobScheduling.JobQuiescence
import JobScheduling.JobAdmission

/-! # Lost jobs

    Both topics are QoS 0, and nothing in the service looks for jobs that got
    no answer.  An active row that no call, message, thread or handler is
    about (`Lost`) therefore stays as it is, whatever comes in afterwards: it
    blocks its window on its asset and its place in its user's quota for as
    long as the service runs, and a user with ten of them can book nothing
    more (`lost_jobs_block`).  It takes one lost message: once everything is
    quiet, every row that is still active is lost.

    `JobCompletion` is the other side: without losses there are no such rows. -/

namespace JobLosses

open JobConstants JobClock JobPayload JobModels JobRepository JobBroker
open JobOrchestrator JobService JobLedger JobAdmission JobHandler JobWorker
open JobSystem JobOutcomes JobQuiescence Reservations KeyedTable Runs Channels

/-! ## Who is about a job -/

/-- The payload names the job. -/
def Names (rowId : String) (payload : List (String × Json)) : Prop :=
  dictGet payload fieldJobId = .str rowId

/-- The thread has still to answer about the job. -/
def AnswersAbout (rowId : String) : WorkerPc → Prop
  | .started payload => Names rowId payload
  | .sleeping jobId _ => jobId = .str rowId
  | .ended => False

/-- Nobody is about the job: no call has still to publish it, no message in
    flight names it, no thread has still to answer about it, and the handler is
    not about to store an answer. -/
structure Untouched (sys : System) (rowId : String) : Prop where
  calls : ∀ c job, (c, .publish job) ∈ sys.service.calls → job.id ≠ rowId
  dispatches : ∀ payload, .obj payload ∈ sys.dispatches → ¬ Names rowId payload
  threads : ∀ ts, sys.threads = some ts → ∀ pc ∈ ts, ¬ AnswersAbout rowId pc
  results : ∀ m ∈ sys.results, ∀ payload, m.payload = .ok (.obj payload) →
    ¬ Names rowId payload
  handler : ∀ newState errorMsg now,
    sys.service.handler ≠ .update (.str rowId) newState errorMsg now

/-- The row is active, and nobody is about it. -/
structure Lost (sys : System) (r : Job) : Prop where
  row : r ∈ sys.service.jobs
  active : r.active = true
  untouched : Untouched sys r.id

/-! ## Nobody turns to a lost job -/

/-- A dispatch names the job it is about. -/
theorem names_dispatch {rowId : String} {job : Job} {payload : List (String × Json)}
    (h : .obj payload = dispatchPayload job) (about : Names rowId payload) :
    job.id = rowId := by
  rw [dispatchPayload, Json.obj.injEq] at h
  rw [h] at about
  exact Json.str.inj about

/-- What a thread publishes is about the job it works on. -/
theorem threadStep_about (rowId : String) {timestamp : String}
    {publish : PublishResult} {pc pc' : WorkerPc} {sent : List Json}
    (h : threadStep timestamp publish pc = some (pc', sent)) :
    (AnswersAbout rowId pc' → AnswersAbout rowId pc)
      ∧ ∀ payload, .obj payload ∈ sent → Names rowId payload → AnswersAbout rowId pc := by
  have hnames : ∀ {jobId : Json} {state error sent payload},
      publishResult publish (resultPayload jobId state error timestamp) = .ok sent →
      .obj payload ∈ sent → Names rowId payload → jobId = .str rowId := by
    intro jobId state error sent payload hok hmem about
    have heq := publishResult_sent hok _ hmem
    have hfields : payload = [("job_id", jobId), ("state", .str state),
        ("timestamp", .str timestamp)] ++ _ := Json.obj.inj heq
    rw [hfields] at about
    exact about
  cases threadStep_move h with
  | ignored payload bad =>
      exact ⟨fun habout => absurd habout id, fun _ hmem => absurd hmem List.not_mem_nil⟩
  | running payload sent good sends =>
      exact ⟨fun habout => habout, fun _ hmem about => hnames sends hmem about⟩
  | terminal jobId assetId sent sends =>
      refine ⟨fun habout => absurd habout id, fun _ hmem about => ?_⟩
      rw [terminalPayload] at sends
      split at sends
      · exact hnames sends hmem about
      · exact hnames sends hmem about
  | raised pc e raises =>
      exact ⟨fun habout => absurd habout id, fun _ hmem => absurd hmem List.not_mem_nil⟩

/-- A call that publishes a job it has not published before has just stored
    it, under an id of its own. -/
theorem createMove_about {cfg : Config} {c : Call} {T T' : Table}
    {pc pc' : CreatePc} {ev : List Event} (h : CreateMove cfg c T pc pc' T' ev)
    {r : Job} (hr : r ∈ T) :
    (∀ job, pc' = .publish job → job.id ≠ r.id)
      ∧ ∀ payload, .obj payload ∈ handed ev → Names r.id payload →
        ∃ job, pc = .publish job ∧ job.id = r.id := by
  cases h with
  | created job admits =>
      refine ⟨?_, fun _ hmem => absurd hmem List.not_mem_nil⟩
      intro job' hjob hid
      rw [← CreatePc.publish.inj hjob] at hid
      exact (violates_eq_false.mp admits.unique r hr).1 hid.symm
  | publish job =>
      refine ⟨fun _ => CreatePc.noConfusion, ?_⟩
      intro payload hmem about
      rw [publishDispatch_events] at hmem
      refine ⟨job, rfl, names_dispatch ?_ about⟩
      cases hp : c.publish with
      | handed =>
          rw [hp] at hmem
          exact List.mem_singleton.mp hmem
      | dropped =>
          rw [hp] at hmem
          cases hmem
      | raised e =>
          rw [hp] at hmem
          cases hmem
  | _ =>
      exact ⟨fun _ => CreatePc.noConfusion,
        fun _ hmem => absurd hmem List.not_mem_nil⟩

/-- The handler publishes nothing, and takes up no message by itself. -/
theorem handlerMove_about {T T' : Table} {pc pc' : HandlerPc} {ev : List Event}
    (h : HandlerMove T pc pc' T' ev) : handed ev = []
      ∧ ∀ jobId newState errorMsg now,
        pc' ≠ .update jobId newState errorMsg now := by
  cases h <;> exact ⟨rfl, fun _ _ _ _ => HandlerPc.noConfusion⟩

/-- A message of the worker about another job leaves the handler to it. -/
theorem receive_about {T : Table} {msg : Delivered} {rowId : String}
    (h : ∀ payload, msg = .ok (.obj payload) → ¬ Names rowId payload)
    (now : Datetime) (newState errorMsg : Json) (now' : Datetime) :
    receive T msg now ≠ .update (.str rowId) newState errorMsg now' := by
  intro hreceive
  rw [receive] at hreceive
  cases hv : readMessage T msg with
  | ignored why =>
      rw [hv] at hreceive
      cases hreceive
  | raised e =>
      rw [hv] at hreceive
      cases hreceive
  | proceed jobId newState' errorMsg' =>
      rw [hv] at hreceive
      obtain ⟨payload, -, -, -, -, hobj, hjob, -⟩ := readMessage_proceed hv
      refine h payload hobj ?_
      rw [Names, ← hjob]
      exact (HandlerPc.update.inj hreceive).1

/-- A step of the service turns to a stored job only where a call or the handler
    was about it. -/
theorem untouched_service {cfg : Config} {sys : System} {s' : Service} {l : Label}
    (noMessage : ∀ msg now, l ≠ .deliver msg now)
    (h : step cfg sys.service l = some s') {r : Job} (hr : r ∈ sys.service.jobs)
    (hu : Untouched sys r.id) :
    Untouched { sys with
      service := s'
      dispatches := sys.dispatches
        ++ handed (s'.log.drop sys.service.log.length) } r.id := by
  have hdispatches : ∀ new : List Json,
      (∀ payload, .obj payload ∈ new → ¬ Names r.id payload) →
      ∀ payload, .obj payload ∈ sys.dispatches ++ new → ¬ Names r.id payload := by
    intro new hnew payload hmem
    rcases List.mem_append.mp hmem with hold | hlast
    · exact hu.dispatches payload hold
    · exact hnew payload hlast
  cases step_move h with
  | deliver msg now idle => exact absurd rfl (noMessage msg now)
  | submit c =>
      refine ⟨?_, ?_, hu.threads, hu.results, hu.handler⟩
      · intro c' job hmem
        rcases List.mem_append.mp hmem with hold | hnew
        · exact hu.calls c' job hold
        · cases List.mem_singleton.mp hnew
      · refine hdispatches _ ?_
        rw [List.drop_length]
        exact fun _ hmem => absurd hmem List.not_mem_nil
  | call i c pc pc' T' ev here move =>
      obtain ⟨hpublish, hhanded⟩ := createMove_about move hr
      refine ⟨?_, ?_, hu.threads, hu.results, hu.handler⟩
      · intro c' job hmem
        rcases List.mem_or_eq_of_mem_set hmem with hold | hnew
        · exact hu.calls c' job hold
        · exact hpublish job (Prod.mk.inj hnew).2.symm
      · -- what is dispatched was on its way to be
        refine hdispatches _ ?_
        rw [List.drop_left]
        intro payload hmem about
        obtain ⟨job, rfl, hid⟩ := hhanded payload hmem about
        exact hu.calls c job (List.mem_of_getElem? here) hid
  | handler pc' T' ev move =>
      obtain ⟨hnone, hupdate⟩ := handlerMove_about move
      refine ⟨hu.calls, ?_, hu.threads, hu.results, fun _ _ _ => hupdate _ _ _ _⟩
      refine hdispatches _ ?_
      rw [List.drop_left, hnone]
      exact fun _ hmem => absurd hmem List.not_mem_nil

/-- **Nobody turns to a job nobody is about**: whoever is about a stored job
    has it from somebody who was. -/
theorem untouched_step {cfg : Config} {sys sys' : System} {l : SystemLabel}
    (hs : Genuine cfg sys) (hl : FromWorker l)
    (h : systemStep cfg sys l = some sys') {r : Job} (hr : r ∈ sys.service.jobs)
    (hu : Untouched sys r.id) : Untouched sys' r.id := by
  cases systemStep_move h with
  | service l s' noMessage hst => exact untouched_service noMessage hst hr hu
  | dispatchFault f ms disturbed =>
      exact ⟨hu.calls, fun p hp => hu.dispatches p (mem_of_mem_disturb disturbed hp),
        hu.threads, hu.results, hu.handler⟩
  | receive i threads payload rest up taken =>
      obtain ⟨hmem, hrest⟩ := mem_of_take taken
      refine ⟨hu.calls, fun p hp => hu.dispatches p (hrest _ hp), ?_, hu.results,
        hu.handler⟩
      -- a thread is about what its dispatch is about
      obtain ⟨r₁, -, rfl⟩ := hs.ok.dispatches payload hmem
      intro ts hup pc hpc
      rw [← Option.some.inj hup] at hpc
      rcases List.mem_append.mp hpc with hold | hnew
      · exact hu.threads threads up pc hold
      · rw [List.mem_singleton.mp hnew]
        exact hu.dispatches _ hmem
  | thread j first second publish threads pc pc' sent up here move =>
      obtain ⟨hpc, hsent⟩ := threadStep_about r.id move
      have hquiet := hu.threads threads up pc (List.mem_of_getElem? here)
      refine ⟨hu.calls, hu.dispatches, ?_, ?_, hu.handler⟩
      · intro ts hup x hx
        rw [← Option.some.inj hup] at hx
        rcases List.mem_or_eq_of_mem_set hx with hold | hnew
        · exact hu.threads threads up x hold
        · rw [hnew]
          exact fun about => hquiet (hpc about)
      · intro m hm payload hobj about
        rcases List.mem_append.mp hm with hold | hnew
        · exact hu.results m hold payload hobj about
        · obtain ⟨p, hp, rfl⟩ := List.mem_map.mp hnew
          rw [show p = .obj payload from Except.ok.inj hobj] at hp
          exact hquiet (hsent payload hp about)
  | inject msg => exact absurd hl id
  | resultFault f ms disturbed =>
      exact ⟨hu.calls, hu.dispatches, hu.threads,
        fun m hm => hu.results m (mem_of_mem_disturb disturbed hm), hu.handler⟩
  | result i now m rest s' taken hst =>
      obtain ⟨hmem, hrest⟩ := mem_of_take taken
      cases step_move hst with
      | deliver _ _ idle =>
          exact ⟨hu.calls, hu.dispatches, hu.threads,
            fun x hx => hu.results x (hrest x hx),
            receive_about (hu.results m hmem) now⟩

/-! ## A lost row stays as it is -/

/-- The handler writes no row but the one it is about to update. -/
theorem handlerMove_row {T T' : Table} {pc pc' : HandlerPc} {ev : List Event}
    (hids : (T.map Job.id).Nodup) (hok : HandlerOk T pc) (hgen : HandlerGenuine T pc)
    (move : HandlerMove T pc pc' T' ev) {r : Job} (hr : r ∈ T)
    (hother : ∀ newState errorMsg now, pc ≠ .update (.str r.id) newState errorMsg now) :
    r ∈ T' := by
  cases move with
  | stored jobId newState errorMsg now T' stored =>
      obtain ⟨-, rowId, st, err, hbind, -, -, rfl⟩ := store_ledger hids hok stored
      obtain ⟨r₁, -, rfl, -⟩ := hgen
      refine mem_updateWhere.mpr ⟨r, hr, ?_⟩
      by_cases hid : (r.id == rowId) = true
      · have hrow : r.id = r₁.id :=
          (beq_iff_eq.mp hid).trans (Option.some.inj (Except.ok.inj hbind)).symm
        rw [hrow] at hother
        exact absurd rfl (hother newState errorMsg now)
      · rw [if_neg hid]
  | storeRaised jobId newState errorMsg now e T' stored =>
      rw [(store_raised hok stored).1]
      exact hr
  | _ => exact hr

/-- A row nobody is about stays in the table as it is. -/
theorem untouched_row {cfg : Config} {sys sys' : System} {l : SystemLabel}
    (hs : Genuine cfg sys) (h : systemStep cfg sys l = some sys') {r : Job}
    (hr : r ∈ sys.service.jobs) (hu : Untouched sys r.id) :
    r ∈ sys'.service.jobs := by
  have hstep : ∀ l' s', step cfg sys.service l' = some s' → r ∈ s'.jobs := by
    intro l' s' hst
    cases step_move hst with
    | submit c => exact hr
    | deliver msg now idle => exact hr
    | call i c pc pc' T' ev here move =>
        show r ∈ T'
        by_cases hT : T' = sys.service.jobs
        · rw [hT]
          exact hr
        · obtain ⟨job, -, -, rfl, -⟩ := CreateMove.admits move hT
          exact List.mem_append_left _ hr
    | handler pc' T' ev move =>
        exact handlerMove_row hs.ok.service.ids hs.ok.service.handler
          hs.service.handler move hr hu.handler
  rcases systemStep_service h with heq | ⟨l', hl'⟩
  · rw [heq]
    exact hr
  · exact hstep l' _ hl'

/-! ## What is booked around lost rows -/

/-- The row keeps clear of the rows given: of their windows on its asset, and
    of their places in its user's quota. -/
structure Avoids (R : List Job) (r' : Job) : Prop where
  windows : ∀ r ∈ R, r.assetId = r'.assetId →
    Disjoint (storedWindow r) (storedWindow r')
  quota : R.countP (fun r => r.userId == r'.userId) < maxActiveJobsPerUser

/-- A row keeps clear of them whatever its state. -/
theorem Avoids.sameJob {R : List Job} {r r' : Job} (hsame : SameJob r r')
    (h : Avoids R r) : Avoids R r' := by
  refine ⟨?_, ?_⟩
  · intro r₀ hr₀ hasset
    have hwindow : storedWindow r' = storedWindow r := by
      rw [storedWindow, storedWindow, hsame.startTime, hsame.endTime]
    rw [hwindow]
    exact h.windows r₀ hr₀ (hasset.trans hsame.assetId)
  · rw [hsame.userId]
    exact h.quota

/-- What passes the checks keeps clear of the active rows. -/
theorem avoids_of_admits {T : Table} {R : List Job} {job : Job} (hR : R.Nodup)
    (hrows : ∀ r ∈ R, r ∈ T ∧ r.active = true) (admits : Admits T job) :
    Avoids R job := by
  refine ⟨?_, ?_⟩
  · intro r hr hasset
    obtain ⟨hmem, hact⟩ := hrows r hr
    exact disjoint_of_not_overlaps reading
      (sqlCheckOverlap_none.mp admits.overlap r hmem hasset hact)
  · refine Nat.lt_of_le_of_lt ?_ admits.quota
    have hsub : R.Subperm T := hR.subperm (fun r hr => (hrows r hr).1)
    have hcount : R.countP (fun r => r.userId == job.userId)
        = R.countP (fun r => r.userId == job.userId && r.active) := by
      refine List.countP_congr ?_
      intro r hr
      rw [(hrows r hr).2, Bool.and_true]
    rw [hcount, sqlCountActive]
    exact hsub.countP_le _

/-- The rows of a step are rows from before, moved on, or avoid the active
    ones. -/
theorem rows_step {cfg : Config} {s s' : Service} {l : Label} {R : List Job}
    (hs : ServiceOk cfg s) (hR : R.Nodup)
    (hrows : ∀ r ∈ R, r ∈ s.jobs ∧ r.active = true)
    (h : step cfg s l = some s') :
    ∀ r' ∈ s'.jobs, (∃ r ∈ s.jobs, SameJob r r') ∨ Avoids R r' := by
  intro r' hr'
  cases step_move h with
  | submit c => exact Or.inl ⟨r', hr', SameJob.refl r'⟩
  | deliver msg now idle => exact Or.inl ⟨r', hr', SameJob.refl r'⟩
  | call i c pc pc' T' ev here move =>
      have hmem : r' ∈ T' := hr'
      by_cases hT : T' = s.jobs
      · rw [hT] at hmem
        exact Or.inl ⟨r', hmem, SameJob.refl r'⟩
      · obtain ⟨job, -, -, rfl, admits⟩ := CreateMove.admits move hT
        rcases List.mem_append.mp hmem with hold | hnew
        · exact Or.inl ⟨r', hold, SameJob.refl r'⟩
        · -- a new row was admitted beside the lost ones
          rw [List.mem_singleton.mp hnew]
          exact Or.inr (avoids_of_admits hR hrows admits)
  | handler pc' T' ev move =>
      have hmem : r' ∈ T' := hr'
      have hok := hs.handler
      generalize s.handler = pc at move hok
      cases move with
      | stored jobId newState errorMsg now T' stored =>
          obtain ⟨r, hr, ⟨rfl, -⟩ | ⟨a, b, err, -, -, -, rfl⟩⟩ :=
            stored_rows hs.ids hok stored hmem
          · exact Or.inl ⟨r', hr, SameJob.refl r'⟩
          · exact Or.inl ⟨r, hr, sameJob_setState r b.value err now.strftime⟩
      | storeRaised jobId newState errorMsg now e T' stored =>
          rw [(store_raised hok stored).1] at hmem
          exact Or.inl ⟨r', hmem, SameJob.refl r'⟩
      | _ => exact Or.inl ⟨r', hmem, SameJob.refl r'⟩

/-- In a quiet system nobody is about any job. -/
theorem untouched_quiet {sys : System} (hq : Quiet sys) (rowId : String) :
    Untouched sys rowId := by
  refine ⟨?_, ?_, ?_, ?_, ?_⟩
  · intro c job hmem
    cases hq.calls _ hmem
  · intro payload hmem
    rw [hq.dispatches] at hmem
    cases hmem
  · intro ts hup pc hpc
    have hended := hq.threads ts hup pc hpc
    cases pc with
    | ended => exact fun about => about
    | started payload => cases hended
    | sleeping jobId assetId => cases hended
  · intro m hm
    rw [hq.results] at hm
    cases hm
  · intro newState errorMsg now hstoring
    have hrest := hq.handler
    rw [hstoring] at hrest
    cases hrest

/-- **Lost jobs block**: with the worker as the only publisher, whatever else
    happens to the topics, every row that is still active when the system is
    quiet is lost.  And lost rows stay lost, for every continuation: each is in
    the table as it was, and every row that is booked later keeps clear of
    their windows on their assets and of their places in their users' quotas,
    so that a user with as many as the quota books nothing more. -/
theorem lost_jobs_block {cfg : Config} {ls : List SystemLabel} {sys : System}
    (hls : ∀ l ∈ ls, FromWorker l)
    (h : exec (systemStep cfg) System.empty ls = some sys) :
    (Quiet sys → ∀ r ∈ sys.service.jobs, r.active = true → Lost sys r)
      ∧ ∀ R ms sys', R.Nodup → (∀ r ∈ R, Lost sys r) → (∀ l ∈ ms, FromWorker l) →
        exec (systemStep cfg) sys ms = some sys' →
        (∀ r ∈ R, Lost sys' r)
          ∧ ∀ r' ∈ sys'.service.jobs,
            (∃ r ∈ sys.service.jobs, SameJob r r') ∨ Avoids R r' := by
  refine ⟨fun hq r hr hact => ⟨hr, hact, untouched_quiet hq r.id⟩, ?_⟩
  intro R ms sys' hR hlost hms hrun
  have hgen : Genuine cfg sys :=
    exec_invariant_of (fun _ _ _ hs hl hst => genuine_step hs hl hst) hls
      (genuine_empty cfg) h
  have hinv : Genuine cfg sys' ∧ (∀ r ∈ R, Lost sys' r)
      ∧ ∀ r' ∈ sys'.service.jobs,
        (∃ r ∈ sys.service.jobs, SameJob r r') ∨ Avoids R r' := by
    refine exec_invariant_of (P := FromWorker) (I := fun t => Genuine cfg t
      ∧ (∀ r ∈ R, Lost t r) ∧ ∀ r' ∈ t.service.jobs,
        (∃ r ∈ sys.service.jobs, SameJob r r') ∨ Avoids R r') ?_ hms ?_ hrun
    · rintro t l t' ⟨ht, hkept, hrows⟩ hl hst
      refine ⟨genuine_step ht hl hst, ?_, ?_⟩
      · intro r hr
        obtain ⟨hrow, hact, hu⟩ := hkept r hr
        exact ⟨untouched_row ht hst hrow hu, hact, untouched_step ht hl hst hrow hu⟩
      · intro r' hr'
        rcases systemStep_service hst with heq | ⟨l', hl'⟩
        · rw [heq] at hr'
          exact hrows r' hr'
        · -- the lost rows are still active, so a new row avoids them
          have hactive : ∀ r ∈ R, r ∈ t.service.jobs ∧ r.active = true :=
            fun r hr => ⟨(hkept r hr).row, (hkept r hr).active⟩
          rcases rows_step ht.ok.service hR hactive hl' r' hr' with
            ⟨r₁, hr₁, hsame⟩ | hnew
          · rcases hrows r₁ hr₁ with ⟨r, hr, hsame'⟩ | havoids
            · exact Or.inl ⟨r, hr, hsame'.trans hsame⟩
            · exact Or.inr (havoids.sameJob hsame)
          · exact Or.inr hnew
    · exact ⟨hgen, hlost, fun r' hr' => Or.inl ⟨r', hr', SameJob.refl r'⟩⟩
  exact hinv.2

/-- The `n`-th booking of one user, each on a day of its own. -/
def dayBooking (n : Nat) : Call :=
  booking "user-001" ("k" ++ toString n) ("job-" ++ toString n) "asset-001"
    (february (n + 2) 1) (february (n + 2) 2) .handed

/-- Ten jobs of one user are stored, and their dispatches get lost. -/
def tenLost : List SystemLabel :=
  (List.range 10).flatMap (fun n =>
    [.service (.submit (dayBooking n)), .service (.call n), .service (.call n),
      .service (.call n), .service (.call n), .dispatchFault (.lose 0)])

/-- The same user comes again, and somebody else wants one of the days. -/
def afterLosses : List SystemLabel :=
  [.service (.submit (dayBooking 10)),
    .service (.submit (booking "user-002" "k1" "job-11" "asset-001"
      (february 3 1) (february 3 3) .handed)),
    .service (.call 10), .service (.call 11), .service (.call 10),
    .service (.call 11), .service (.call 10), .service (.call 11)]

/-- The answer of a call, by its message. -/
def refusal : Call × CreatePc → Option String
  | (_, .returned (.ok (_, .inr message))) => some message
  | _ => none

/-- The user's eleventh booking is refused for the quota, another user's for the
    overlap. -/
theorem lost_jobs_block_ten :
    ∃ sys sys', exec (systemStep seedConfig) System.empty tenLost = some sys
      ∧ exec (systemStep seedConfig) sys afterLosses = some sys'
      ∧ sys'.service.calls.filterMap refusal
        = [ErrorMessages.maxActiveJobs, ErrorMessages.overlapConflict]
      ∧ sys.service.jobs.length = 10
      ∧ (∀ r ∈ sys.service.jobs, Lost sys' r)
      ∧ ∀ r' ∈ sys'.service.jobs, (∃ r ∈ sys.service.jobs, SameJob r r')
        ∨ Avoids sys.service.jobs r' := by
  obtain ⟨sys', hwhole, hanswers⟩ := Option.map_eq_some_iff.mp
    (show (exec (systemStep seedConfig) System.empty (tenLost ++ afterLosses)).map
        (fun sys => sys.service.calls.filterMap refusal)
      = some [ErrorMessages.maxActiveJobs, ErrorMessages.overlapConflict] by
      decide +kernel)
  obtain ⟨sys, h, hrun⟩ := exec_append.mp hwhole
  have hobs : (exec (systemStep seedConfig) System.empty tenLost).map
      (fun sys => decide (Quiet sys ∧ sys.service.jobs.length = 10
        ∧ ∀ r ∈ sys.service.jobs, r.active = true)) = some true := by
    decide +kernel
  rw [h] at hobs
  obtain ⟨hquiet, hten, hactive⟩ := of_decide_eq_true (Option.some.inj hobs)
  have hls : ∀ l ∈ tenLost, FromWorker l := by
    intro l hl
    obtain ⟨n, -, hn⟩ := List.mem_flatMap.mp hl
    simp only [List.mem_cons, List.not_mem_nil, or_false] at hn
    rcases hn with rfl | rfl | rfl | rfl | rfl | rfl <;> exact trivial
  have hms : ∀ l ∈ afterLosses, FromWorker l := by
    intro l hl
    simp only [afterLosses, List.mem_cons, List.not_mem_nil, or_false] at hl
    rcases hl with rfl | rfl | rfl | rfl | rfl | rfl | rfl | rfl <;> exact trivial
  obtain ⟨ns, hns⟩ := system_refines_service h
  have hnodup : sys.service.jobs.Nodup := (serviceOk_run hns).ids.of_map
  obtain ⟨hlost, hblock⟩ := lost_jobs_block hls h
  exact ⟨sys, sys', h, hrun, hanswers, hten, hblock sys.service.jobs afterLosses
    sys' hnodup (fun r hr => hlost hquiet r hr (hactive r hr)) hms hrun⟩

end JobLosses
