import JobScheduling.JobBackend
import JobScheduling.JobOrigins

/-! # What clients can rely on

    Results about every run of the backend, with requests, result messages,
    connections and emits in any order:

    * `observations_advance` — whoever asks after something was shown sees it
      the same or further on, whichever way it was shown;
    * `clients_confined` — jobs are shown to their owners only, an emit carries
      what was stored, and every row was asked for by an authenticated request
      that passed the checks of the API. -/

namespace JobObservers

open JobConstants JobClock JobPayload JobModels JobRepository JobBroker
open JobOrchestrator JobService JobLedger JobLifecycle JobReads JobNotifier
open JobOrigins JobApi JobBackend KeyedTable Runs Channels Histories

/-! ## Versions of a row -/

/-- An edge of the state machine, between stored texts. -/
def Edge (s t : String) : Prop :=
  ∃ a b : JobState, s = a.value ∧ t = b.value ∧ Allowed a b

theorem Became.sameJob {r r' : Job} (h : Became r r') : SameJob r r' := by
  induction h with
  | refl => exact SameJob.refl r
  | tail _ hmove ih => exact ih.trans (Moves.sameJob hmove)

theorem Became.states {r r' : Job} (h : Became r r') :
    Relation.ReflTransGen Edge r.state r'.state := by
  induction h with
  | refl => exact Relation.ReflTransGen.refl
  | tail _ hmove ih =>
      rcases hmove with rfl | ⟨a, b, err, now, ha, hab, rfl⟩
      · exact ih
      · exact ih.tail ⟨a, b, ha, rfl, hab⟩

/-- A later version is the same one, or less deep in the state machine. -/
theorem Became.depth {r r' : Job} (h : Became r r') :
    r' = r ∨ ∃ a b : JobState, r.state = a.value ∧ r'.state = b.value
      ∧ depth b < depth a := by
  induction h with
  | refl => exact Or.inl rfl
  | tail _ hmove ih =>
      rcases hmove with rfl | ⟨a, b, err, now, ha, hab, rfl⟩
      · exact ih
      · refine Or.inr ?_
        have hlt : JobLifecycle.depth b < JobLifecycle.depth a :=
          depth_lt_of_allowed hab
        rcases ih with heq | ⟨a₀, b₀, ha₀, hb₀, hdepth⟩
        · rw [heq] at ha
          exact ⟨a, b, ha, rfl, hlt⟩
        · have hmid : b₀ = a := value_injective (hb₀.symm.trans ha)
          rw [hmid] at hdepth
          exact ⟨a₀, b, ha₀, rfl, Nat.lt_trans hlt hdepth⟩

/-- The state tells the versions of a row apart. -/
theorem Became.eq_of_state {r r' : Job} (h : Became r r')
    (hst : r.state = r'.state) : r' = r := by
  rcases Became.depth h with heq | ⟨a, b, ha, hb, hlt⟩
  · exact heq
  · have hab : a = b := value_injective (ha.symm.trans (hst.trans hb))
    rw [hab] at hlt
    exact absurd hlt (Nat.lt_irrefl _)

/-- One look at a job, and one that began after it. -/
structure Advances (a b : JobResponse) : Prop where
  id : b.id = a.id
  assetId : b.assetId = a.assetId
  operation : b.operation = a.operation
  startTime : b.startTime = a.startTime
  endTime : b.endTime = a.endTime
  createdAt : b.createdAt = a.createdAt
  states : Relation.ReflTransGen Edge a.state b.state
  unchanged : a.state = b.state → b = a

/-- What a response shows of it is the same, or further on. -/
theorem Became.advances {r r' : Job} (h : Became r r') :
    Advances (toResponse r) (toResponse r') := by
  have hsame := Became.sameJob h
  exact ⟨hsame.id, hsame.assetId, hsame.operation, hsame.startTime, hsame.endTime,
    hsame.createdAt, Became.states h,
    fun hst => congrArg toResponse (Became.eq_of_state h hst)⟩

/-! ## Observations advance -/

/-- **Observations advance**: what a request or a callback shows that began
    after something was shown is the same version of the job or a later one;
    whatever was shown, its owner still finds, the same or further on; and an
    emit shows the row whose id, state and `updated_at` it carries. -/
theorem observations_advance {cfg : Config} {users : List User}
    {ls : List BackendLabel} {b : Backend}
    (h : exec (backendStep cfg users) Backend.empty ls = some b) :
    (∀ (i j : Nat) (o o' : Seen), b.seen[i]? = some o → b.seen[j]? = some o' →
        i < o'.since → ∀ u ∈ o.shows, ∀ r ∈ o'.shows, u.id = r.id →
          Advances (toResponse u) (toResponse r))
      ∧ (∀ o ∈ b.seen, ∀ u ∈ o.shows,
          ∃ r, getJob b.service.jobs u.id u.userId = some r
            ∧ Advances (toResponse u) (toResponse r))
      ∧ ∀ (since : Nat) (updated : Job) (emit : Emit),
          Seen.pushed since updated emit ∈ b.seen → Announces updated emit := by
  have hb := witnessed_run h
  refine ⟨?_, ?_, fun since updated emit ho => (hb.confined _ ho).1⟩
  · intro i j o o' ho ho' hbegan u hu r hr hid
    exact Became.advances
      (hb.coherent.advancing i j o o' ho ho' hbegan u hu r hr hid)
  · intro o ho u hu
    obtain ⟨r, hr, hid, hlater⟩ := hb.coherent.lasting o ho u hu
    have hid' : r.id = u.id := hid
    refine ⟨r, ?_, Became.advances hlater⟩
    rw [← hid', ← (Became.sameJob hlater).userId]
    exact getJob_of_mem hb.ok.ok.ids hr

/-- The header of a seed user. -/
def bearer (token : String) : Option String := some (bearerPrefix ++ token)

def alice : Option String := bearer "tok_alice_a1b2c3d4e5f6"

/-- A booking of two hours on the first asset. -/
def twoHours : Body :=
  .parsed ⟨"asset-001", "charge", ⟨february 2 10, some 0⟩,
    ⟨february 2 12, some 0⟩⟩

/-- A world in which the next id is `uuid`. -/
def morning (uuid : String) : World :=
  ⟨true, [], february 1 0, february 1 0, uuid, .handed⟩

/-- The worker is faster than the `POST` that started it: its RUNNING is pushed
    and read before the created job is answered, and replayed afterwards. -/
def overtaken : List BackendLabel :=
  [.connect "sid-1" [("token", ["tok_alice_a1b2c3d4e5f6"])],
    .request (.createJob alice (some "k1") twoHours) (morning "job-1"),
    .call 0, .call 0, .call 0,
    .deliver (resultMessage "job-1" "RUNNING") (february 2 10),
    .handler true, .handler true, .handler true, .emit .sent,
    .request (.getJob alice "job-1") (morning ""), .call 0,
    .request (.createJob alice (some "k1") twoHours) (morning "job-2"),
    .call 1]

/-- RUNNING is seen before the POST answers PENDING, and the replay is answered
    RUNNING. -/
theorem observations_advance_overtaken :
    ∃ b, exec (backendStep seedConfig seedUsers) Backend.empty overtaken = some b
      ∧ b.seen.map (fun o => (o.since, o.shows.map Job.state))
        = [(0, ["RUNNING"]), (1, ["RUNNING"]), (0, ["PENDING"]),
            (3, ["RUNNING"])]
      ∧ (∀ o ∈ b.seen, ∀ u ∈ o.shows,
          ∃ r, getJob b.service.jobs u.id u.userId = some r
            ∧ Advances (toResponse u) (toResponse r))
      ∧ ∀ (since : Nat) (updated : Job) (emit : Emit),
          Seen.pushed since updated emit ∈ b.seen → Announces updated emit := by
  obtain ⟨b, h, hobs⟩ := Option.map_eq_some_iff.mp
    (show (exec (backendStep seedConfig seedUsers) Backend.empty overtaken).map
        (fun b => b.seen.map (fun o => (o.since, o.shows.map Job.state)))
      = some [(0, ["RUNNING"]), (1, ["RUNNING"]), (0, ["PENDING"]),
          (3, ["RUNNING"])] by decide +kernel)
  exact ⟨b, h, hobs, (observations_advance h).2⟩

/-! ## Who is shown what -/

/-- The request was authenticated with a token of the user. -/
def Bearer (users : List User) (r : Request) (user : User) : Prop :=
  ∃ token, Request.authorization r = some (bearerPrefix ++ token)
    ∧ usersByToken users token = some user

/-- What the API has checked of a request before it is a call. -/
structure Admitted (users : List User) (r : Request) (c : Call) : Prop where
  caller : ∃ user, Bearer users r user ∧ c.userId = user.userId
  notBlank : strip c.idempotencyKey ≠ []
  keyLength : c.idempotencyKey.length ≤ idempotencyKeyMaxLength
  sent : ∃ authorization p,
    r = .createJob authorization (some c.idempotencyKey) (.parsed p)
      ∧ p.startTime.utcoffset = some 0 ∧ p.endTime.utcoffset = some 0
      ∧ c.body = ⟨p.assetId, p.operation, p.startTime.fields, p.endTime.fields⟩

/-- A known caller sent `Bearer` and one of the tokens. -/
theorem Caller.bearer {users : List User} {r : Request} {user : User}
    (h : Caller users r user) : Bearer users r user := by
  rw [Caller] at h
  rw [Bearer]
  generalize Request.authorization r = authorization at h
  cases authorization with
  | none => cases h
  | some header =>
      rw [getCurrentUser] at h
      split_ifs at h with hbad
      have hstarts : startswith header bearerPrefix = true := by
        cases hs : startswith header bearerPrefix with
        | true => rfl
        | false => simp [hs] at hbad
      have hprefix := hstarts
      rw [startswith, List.isPrefixOf_iff_prefix] at hprefix
      obtain ⟨token, htoken⟩ := hprefix
      have hheader : header = bearerPrefix ++ String.ofList token := by
        refine String.toList_inj.mp ?_
        rw [String.toList_append, String.toList_ofList, htoken]
      refine ⟨String.ofList token, congrArg some hheader, ?_⟩
      rw [withoutPrefix, if_pos hstarts, ← htoken, List.drop_left] at h
      exact h

/-- A key that passes is not blank, and not too long. -/
theorem checkKey_ok {sent : Option String} {key : String}
    (h : checkKey sent = .ok key) :
    sent = some key ∧ strip key ≠ [] ∧ key.length ≤ idempotencyKeyMaxLength := by
  cases sent with
  | none => cases h
  | some k =>
      rw [checkKey] at h
      split_ifs at h with hblank hlong
      rw [← Except.ok.inj h]
      refine ⟨rfl, ?_, Nat.le_of_not_lt hlong⟩
      intro hnil
      rw [hnil] at hblank
      exact hblank (Bool.or_true _)

/-- A time that passes has a UTC offset of zero. -/
theorem mustBeUtc_some {v : ParsedDatetime} {t : Datetime}
    (h : mustBeUtc v = some t) : v.utcoffset = some 0 ∧ t = v.fields := by
  rw [mustBeUtc] at h
  split_ifs at h with hutc
  exact ⟨hutc, (Option.some.inj h).symm⟩

/-- A body that passes has all its fields, and UTC times. -/
theorem checkBody_ok {body : Body} {job : JobCreate}
    (h : checkBody body = .ok job) :
    ∃ p, body = .parsed p ∧ p.startTime.utcoffset = some 0
      ∧ p.endTime.utcoffset = some 0
      ∧ job = ⟨p.assetId, p.operation, p.startTime.fields, p.endTime.fields⟩ := by
  cases body with
  | undecodable => cases h
  | invalid => cases h
  | parsed p =>
      cases hs : mustBeUtc p.startTime with
      | none => simp [checkBody, ParsedBody.jobCreate, hs] at h
      | some startTime =>
          cases he : mustBeUtc p.endTime with
          | none => simp [checkBody, ParsedBody.jobCreate, hs, he] at h
          | some endTime =>
              obtain ⟨hstart, rfl⟩ := mustBeUtc_some hs
              obtain ⟨hend, rfl⟩ := mustBeUtc_some he
              simp only [checkBody, ParsedBody.jobCreate, hs, he,
                Except.ok.injEq] at h
              exact ⟨p, rfl, hstart, hend, h.symm⟩

/-- A request that passes has a body and a key that pass. -/
theorem checkRequest_ok {users : List User}
    {authorization idempotencyKey : Option String} {body : Body}
    {job : JobCreate} {user : User} {key : String}
    (h : checkRequest users authorization idempotencyKey body
      = .ok (job, user, key)) :
    checkBody body = .ok job ∧ checkKey idempotencyKey = .ok key := by
  have hu := checkRequest_caller h
  rw [checkRequest] at h
  split_ifs at h
  cases hb : checkBody body with
  | error r => simp [hu, hb] at h
  | ok j =>
      cases hk : checkKey idempotencyKey with
      | error r => simp [hu, hb, hk] at h
      | ok k =>
          simp only [hu, hb, hk, Except.ok.injEq, Prod.mk.injEq] at h
          exact ⟨by rw [h.1], by rw [h.2.2]⟩

/-- Whatever was asked for has been checked. -/
theorem Asked.admitted {users : List User} {r : Request} {c : Call}
    (h : Asked users r c) : Admitted users r c := by
  obtain ⟨authorization, idempotencyKey, body, user, rfl, hchecked, huser⟩ := h
  obtain ⟨hbody, hkey⟩ := checkRequest_ok hchecked
  obtain ⟨rfl, hblank, hlong⟩ := checkKey_ok hkey
  obtain ⟨p, rfl, hstart, hend, hjob⟩ := checkBody_ok hbody
  exact ⟨⟨user, Caller.bearer (checkRequest_caller hchecked), huser⟩, hblank, hlong,
    authorization, p, rfl, hstart, hend, hjob⟩

/-- Every call that was submitted is there. -/
theorem submitted_calls {cfg : Config} {ls : List Label} {s : Service}
    (h : exec (step cfg) Service.empty ls = some s) :
    ∀ c, Label.submit c ∈ ls → c ∈ s.calls.map Prod.fst := by
  refine exec_from_start (I := fun pre t =>
    ∀ c, Label.submit c ∈ pre → c ∈ t.calls.map Prod.fst) ?_
    (fun c hc => absurd hc List.not_mem_nil) h
  intro pre t l t' _ hall hst c hc
  rcases List.mem_append.mp hc with hold | hnew
  · cases l with
    | submit d =>
        rw [← Option.some.inj hst, List.map_append]
        exact List.mem_append_left _ (hall c hold)
    | _ =>
        rw [step_calls hst (fun d heq => by cases heq)]
        exact hall c hold
  · rw [← List.mem_singleton.mp hnew] at hst
    rw [← Option.some.inj hst, List.map_append]
    exact List.mem_append_right _ (List.mem_singleton_self c)

/-- The row was in the table at some moment of the run. -/
def WasStored (cfg : Config) (users : List User) (ls : List BackendLabel)
    (row : Job) : Prop :=
  ∃ pre b, pre <+: ls ∧ exec (backendStep cfg users) Backend.empty pre = some b
    ∧ row ∈ b.service.jobs

/-- What was stored at some point of a run was stored at some point of a longer
    one. -/
theorem WasStored.concat {cfg : Config} {users : List User}
    {ls : List BackendLabel} {row : Job} (h : WasStored cfg users ls row)
    (l : BackendLabel) : WasStored cfg users (ls ++ [l]) row := by
  obtain ⟨pre, b, hpre, hrun, hrow⟩ := h
  exact ⟨pre, b, hpre.trans (List.prefix_append ls [l]), hrun, hrow⟩

/-- Whatever is shown was stored, and so is what is pledged. -/
theorem shown_stored {cfg : Config} {users : List User} {ls : List BackendLabel}
    {b : Backend} (h : exec (backendStep cfg users) Backend.empty ls = some b) :
    (∀ n row, Pledged b n row → WasStored cfg users ls row)
      ∧ ∀ o ∈ b.seen, ∀ row ∈ o.shows, WasStored cfg users ls row := by
  refine exec_from_start (I := fun pre t =>
    (∀ n row, Pledged t n row → WasStored cfg users pre row)
      ∧ ∀ o ∈ t.seen, ∀ row ∈ o.shows, WasStored cfg users pre row) ?_ ?_ h
  · intro pre t l t' hrun ⟨hpledged, hseen⟩ hst
    have ht := witnessed_run hrun
    have hrun' := exec_concat.mpr ⟨t, hrun, hst⟩
    refine ⟨?_, ?_⟩
    · intro n row hp
      rcases pledged_step ht.ok hst hp with hold | hnew
      · exact (hpledged n row hold).concat l
      · exact ⟨pre ++ [l], t', List.prefix_rfl, hrun', hnew.kept⟩
    · have hold : ∀ o ∈ t.seen, ∀ row ∈ o.shows,
          WasStored cfg users (pre ++ [l]) row :=
        fun o ho row hrow => (hseen o ho row hrow).concat l
      rcases seen_step ht.ok ht.coherent.begun hst with heq | ⟨new, heq, hnew⟩
      · rw [heq]
        exact hold
      · rw [heq]
        intro o ho row hrow
        rcases List.mem_append.mp ho with hmem | hlast
        · exact hold o hmem row hrow
        · rw [List.mem_singleton.mp hlast] at hrow
          rcases hnew.observed.shown row hrow with hcurrent | hp
          · exact ⟨pre, t, List.prefix_append pre [l], hrun, hcurrent⟩
          · exact (hpledged _ row hp).concat l
  · refine ⟨?_, fun o ho => absurd ho List.not_mem_nil⟩
    intro n row hp
    cases hp with
    | publish i since r c job posted here => cases posted
    | scheduled e out => cases out

/-- **Clients are confined**: a response shows jobs of its caller only; a
    `job_update` carries the id, state and `updated_at` of a stored row, and
    goes to sessions of its owner's tokens only; and every row of the table was
    asked for by a request that carried a token of its owner, a proper key and
    UTC times. -/
theorem clients_confined {cfg : Config} {users : List User}
    {ls : List BackendLabel} {b : Backend}
    (h : exec (backendStep cfg users) Backend.empty ls = some b) :
    (∀ (since : Nat) (r : Request) (response : Response),
        Seen.answered since r response ∈ b.seen →
        ∀ row ∈ response.shows, ∃ user, Bearer users r user
          ∧ row.userId = user.userId)
      ∧ (∀ (since : Nat) (updated : Job) (emit : Emit),
        Seen.pushed since updated emit ∈ b.seen →
        WasStored cfg users ls updated
          ∧ emit.payload.lookup "job_id" = some updated.id
          ∧ emit.payload.lookup "state" = some updated.state
          ∧ emit.payload.lookup "timestamp" = some updated.updatedAt
          ∧ ∀ session ∈ emit.recipients,
            ∃ u, usersByToken users session.token = some u
              ∧ u.userId = updated.userId)
      ∧ ∀ row ∈ b.service.jobs, ∃ since r c, (since, r) ∈ b.posts
          ∧ Admitted users r c ∧ Holds c row := by
  have hb := witnessed_run h
  refine ⟨?_, ?_, ?_⟩
  · intro since r response ho row hrow
    obtain ⟨user, hcaller, huser⟩ := hb.confined _ ho row hrow
    exact ⟨user, Caller.bearer hcaller, huser⟩
  · intro since updated emit ho
    obtain ⟨hannounced, howner⟩ := hb.confined _ ho
    have hstored := (shown_stored h).2 _ ho updated (List.mem_singleton_self _)
    exact ⟨hstored, hannounced.jobId, hannounced.state, hannounced.timestamp, howner⟩
  · intro row hrow
    -- the call that inserted the row is the call of a POST
    obtain ⟨ms, hms⟩ := backend_refines_service h
    obtain ⟨n, hn⟩ := List.mem_iff_getElem?.mp hrow
    obtain ⟨c, hc⟩ := exists_createdBy hms n (List.getElem?_eq_some_iff.mp hn).1
    obtain ⟨⟨c', pc⟩, hmem, rfl⟩ := List.mem_map.mp
      (submitted_calls hms c hc.submitted)
    obtain ⟨i, hi⟩ := List.mem_iff_getElem?.mp hmem
    obtain ⟨since, r, hpost, -⟩ := hb.ok.posted hi
    exact ⟨since, r, c', List.mem_of_getElem? hpost,
      Asked.admitted (hb.ok.asked i since r c' pc hpost hi),
      Holds.sameJob (newJob_holds c') (hc.sameJob hms hn)⟩

/-- Bob tries everything with Alice's job; a wrong key and a wrong header come
    to nothing. -/
def prying : List BackendLabel :=
  overtaken ++
  [.connect "sid-2" [("token", ["tok_bob_b2c3d4e5f6a1"])],
    .request (.getJob (bearer "tok_bob_b2c3d4e5f6a1") "job-1") (morning ""),
    .request (.listJobs (bearer "tok_bob_b2c3d4e5f6a1")) (morning ""),
    .request (.getJob (some "tok_alice_a1b2c3d4e5f6") "job-1") (morning ""),
    .request (.createJob alice (some " ") twoHours) (morning "job-3"),
    .deliver (resultMessage "job-1" "COMPLETED") (february 2 11),
    .handler true, .handler true, .handler true, .emit .sent]

/-- Of everything Bob tries, nothing shows him a job of Alice. -/
theorem clients_confined_prying :
    ∃ b, exec (backendStep seedConfig seedUsers) Backend.empty prying = some b
      ∧ b.seen.map (fun o => o.shows.map Job.state)
        = [["RUNNING"], ["RUNNING"], ["PENDING"], ["RUNNING"], [], [], [], [],
            ["COMPLETED"]]
      ∧ (∀ (since : Nat) (updated : Job) (emit : Emit),
        Seen.pushed since updated emit ∈ b.seen →
        WasStored seedConfig seedUsers prying updated
          ∧ emit.payload.lookup "job_id" = some updated.id
          ∧ emit.payload.lookup "state" = some updated.state
          ∧ emit.payload.lookup "timestamp" = some updated.updatedAt
          ∧ ∀ session ∈ emit.recipients,
            ∃ u, usersByToken seedUsers session.token = some u
              ∧ u.userId = updated.userId)
      ∧ ∀ row ∈ b.service.jobs, ∃ since r c, (since, r) ∈ b.posts
          ∧ Admitted seedUsers r c ∧ Holds c row := by
  obtain ⟨b, h, hobs⟩ := Option.map_eq_some_iff.mp
    (show (exec (backendStep seedConfig seedUsers) Backend.empty prying).map
        (fun b => b.seen.map (fun o => o.shows.map Job.state))
      = some [["RUNNING"], ["RUNNING"], ["PENDING"], ["RUNNING"], [], [], [], [],
          ["COMPLETED"]] by decide +kernel)
  exact ⟨b, h, hobs, (clients_confined h).2⟩

end JobObservers
