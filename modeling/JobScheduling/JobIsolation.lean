import JobScheduling.JobNotifier
import JobScheduling.JobReads

/-! # Users do not see each other

    What a user can read is a function of his own rows (`rowsOf`): `get_job`,
    `list_jobs` and the replay of a used key look nowhere else.  A step that is
    foreign to the user, that is, neither of a call of his nor of a message
    for a job of his, leaves these rows as they are, whatever keys, assets and
    ids it uses. -/

namespace JobIsolation

open JobConstants JobClock JobPayload JobModels JobRepository JobBroker
open JobOrchestrator JobService JobLedger JobReads JobNotifier KeyedTable Runs

/-- The rows of a user. -/
def rowsOf (T : Table) (userId : String) : Table :=
  T.filter (fun r => r.userId == userId)

/-! ## Reads depend on the user's own rows -/

/-- A user's lookup by id sees only the user's rows. -/
theorem getJob_rowsOf (T : Table) (jobId userId : String) :
    getJob T jobId userId = (rowsOf T userId).find? (fun r => r.id == jobId) := by
  rw [rowsOf, List.find?_filter, getJob, sqlFindById]
  congr 1
  funext r
  rw [Bool.and_comm, Bool.decide_and, Bool.decide_eq_true, Bool.decide_eq_true]

/-- So does a user's lookup by key. -/
theorem sqlFindByIdempotency_rowsOf (T : Table) (userId key : String) :
    sqlFindByIdempotency T userId key
      = (rowsOf T userId).find? (fun r => r.idempotencyKey == key) := by
  rw [rowsOf, List.find?_filter, sqlFindByIdempotency]
  congr 1
  funext r
  rw [Bool.eq_iff_iff, decide_eq_true_eq, decide_eq_true_eq, beq_iff_eq,
    beq_iff_eq, Job.key, Prod.mk.injEq]

/-- A key that was used keeps its answer: the replay reads the user's rows. -/
theorem createJob_replay {cfg : Config} {c : Call} {T : Table} {r : Job}
    (h : sqlFindByIdempotency T c.userId c.idempotencyKey = some r) :
    (createJob cfg c T).1 = .ok (.created, .inl r) := by
  rw [createJob, h]

/-- Two listings of one set of rows agree up to rows of equal age. -/
theorem ListsJobs.agree {T T' rows rows' : Table} {userId : String}
    (hT : rowsOf T' userId = rowsOf T userId) (h : ListsJobs T userId rows)
    (h' : ListsJobs T' userId rows') :
    rows.Perm rows' ∧ rows.map (fun r => collate r.createdAt)
      = rows'.map (fun r => collate r.createdAt) := by
  have hperm : rows.Perm rows' := by
    refine h.1.trans (List.Perm.trans ?_ h'.1.symm)
    show (rowsOf T userId).Perm (rowsOf T' userId)
    rw [hT]
  refine ⟨hperm, ?_⟩
  have hantisymm : ∀ a b : List Nat, b ≤ a → a ≤ b → a = b :=
    fun a b hba hab => le_antisymm hab hba
  refine List.Perm.eq_of_pairwise (fun a b _ _ => hantisymm a b) ?_ ?_
    (hperm.map _)
  · exact List.pairwise_map.mpr h.2
  · exact List.pairwise_map.mpr h'.2

/-- Everything a user reads from a table. -/
structure SameView (cfg : Config) (userId : String) (T T' : Table) : Prop where
  get : ∀ jobId, getJob T' jobId userId = getJob T jobId userId
  list : ∀ rows rows', ListsJobs T userId rows → ListsJobs T' userId rows' →
    rows.Perm rows' ∧ rows.map (fun r => collate r.createdAt)
      = rows'.map (fun r => collate r.createdAt)
  replay : ∀ c : Call, c.userId = userId →
    (∃ r ∈ T, r.key = (userId, c.idempotencyKey)) →
    (createJob cfg c T').1 = (createJob cfg c T).1

/-- The user's rows determine everything he reads. -/
theorem sameView_of_rows {cfg : Config} {userId : String} {T T' : Table}
    (hT : rowsOf T' userId = rowsOf T userId) : SameView cfg userId T T' where
  get := by
    intro jobId
    rw [getJob_rowsOf, getJob_rowsOf, hT]
  list := fun rows rows' h h' => ListsJobs.agree hT h h'
  replay := by
    rintro c rfl ⟨r, hr, hkey⟩
    have hsame : sqlFindByIdempotency T' c.userId c.idempotencyKey
        = sqlFindByIdempotency T c.userId c.idempotencyKey := by
      rw [sqlFindByIdempotency_rowsOf, sqlFindByIdempotency_rowsOf, hT]
    cases hf : sqlFindByIdempotency T c.userId c.idempotencyKey with
    | none => exact absurd hkey (sqlFindByIdempotency_none.mp hf r hr)
    | some existing =>
        rw [createJob_replay hf, createJob_replay (hsame.trans hf)]

/-! ## Foreign steps -/

/-- The value binds to the id of a job of the user. -/
def NamesJobOf (userId : String) (T : Table) (jobId : Json) : Prop :=
  ∃ r ∈ T, r.userId = userId ∧ jobId.bindText = .ok (some r.id)

instance (userId : String) (T : Table) (jobId : Json) :
    Decidable (NamesJobOf userId T jobId) :=
  inferInstanceAs
    (Decidable (∃ r ∈ T, r.userId = userId ∧ jobId.bindText = .ok (some r.id)))

/-- The message is about a job of the user. -/
def MessageFor (userId : String) (T : Table) : Delivered → Prop
  | .ok (.obj payload) => NamesJobOf userId T (dictGet payload fieldJobId)
  | .ok _ => False
  | .error _ => False

/-- The handler is at work on a message about a job of the user. -/
def HandlingFor (userId : String) (T : Table) : HandlerPc → Prop
  | .update jobId _ _ _ => NamesJobOf userId T jobId
  | .reread jobId => NamesJobOf userId T jobId
  | .notify updated => updated.userId = userId
  | .idle => False
  | .dead _ => False

/-- The step belongs to no call of the user, and handles no message about a
    job of his. -/
def Foreign (userId : String) (srv : Server) : ServerLabel → Prop
  | .connect _ _ => True
  | .service (.submit c) => c.userId ≠ userId
  | .service (.call i) => ∀ p ∈ srv.service.calls[i]?, p.1.userId ≠ userId
  | .service (.deliver msg _) => ¬ MessageFor userId srv.service.jobs msg
  | .service .handler => ¬ HandlingFor userId srv.service.jobs srv.service.handler

instance (userId : String) (T : Table) :
    (msg : Delivered) → Decidable (MessageFor userId T msg)
  | .ok (.obj payload) =>
      inferInstanceAs (Decidable (NamesJobOf userId T (dictGet payload fieldJobId)))
  | .ok .null => isFalse id
  | .ok (.bool _) => isFalse id
  | .ok (.int _) => isFalse id
  | .ok (.float _) => isFalse id
  | .ok (.str _) => isFalse id
  | .ok (.surrogates _) => isFalse id
  | .ok (.arr _) => isFalse id
  | .error _ => isFalse id

instance (userId : String) (T : Table) :
    (pc : HandlerPc) → Decidable (HandlingFor userId T pc)
  | .update jobId _ _ _ => inferInstanceAs (Decidable (NamesJobOf userId T jobId))
  | .reread jobId => inferInstanceAs (Decidable (NamesJobOf userId T jobId))
  | .notify updated => inferInstanceAs (Decidable (updated.userId = userId))
  | .idle => isFalse id
  | .dead _ => isFalse id

instance (userId : String) (srv : Server) :
    (l : ServerLabel) → Decidable (Foreign userId srv l)
  | .connect _ _ => isTrue trivial
  | .service (.submit c) => inferInstanceAs (Decidable (c.userId ≠ userId))
  | .service (.call i) =>
      inferInstanceAs
        (Decidable (∀ p ∈ srv.service.calls[i]?, p.1.userId ≠ userId))
  | .service (.deliver msg _) =>
      inferInstanceAs (Decidable (¬ MessageFor userId srv.service.jobs msg))
  | .service .handler =>
      inferInstanceAs
        (Decidable (¬ HandlingFor userId srv.service.jobs srv.service.handler))

/-- A call of another user leaves the user's rows. -/
theorem CreateMove.rowsOf {cfg : Config} {c : Call} {T T' : Table}
    {pc pc' : CreatePc} {ev : List Event} {userId : String}
    (hok : CallOk cfg c T pc) (hc : c.userId ≠ userId)
    (h : CreateMove cfg c T pc pc' T' ev) :
    JobIsolation.rowsOf T' userId = JobIsolation.rowsOf T userId := by
  by_cases hT : T' = T
  · rw [hT]
  · obtain ⟨job, rfl, -, rfl, -⟩ := CreateMove.admits h hT
    have hjob : job = newJob c := hok.1
    have hnone : [job].filter (fun r => r.userId == userId) = [] := by
      refine List.filter_eq_nil_iff.mpr ?_
      intro r hr heq
      rw [List.mem_singleton.mp hr, hjob] at heq
      exact hc (eq_of_beq heq)
    rw [JobIsolation.rowsOf, List.filter_append, hnone, List.append_nil]
    rfl

/-- The handling of a message for somebody else's job leaves them too. -/
theorem HandlerMove.rowsOf {T T' : Table} {pc pc' : HandlerPc}
    {ev : List Event} {userId : String} (hids : (T.map Job.id).Nodup)
    (hok : HandlerOk T pc)
    (hforeign : ¬ HandlingFor userId T pc)
    (h : HandlerMove T pc pc' T' ev) :
    JobIsolation.rowsOf T' userId = JobIsolation.rowsOf T userId := by
  cases h with
  | stored jobId newState errorMsg now T' stored =>
      obtain ⟨-, id, st, err, hid, -, -, rfl⟩ := store_ledger hids hok stored
      refine filter_updateWhere (fun r => rfl) ?_
      intro r hr huser hrid
      refine hforeign ⟨r, hr, eq_of_beq huser, ?_⟩
      rw [hid, eq_of_beq hrid]
  | storeRaised jobId newState errorMsg now e T' stored =>
      rw [(store_raised hok stored).1]
  | _ => rfl

/-- What a foreign run keeps: the user's rows, and nothing new in his room. -/
structure Untouched (cfg : Config) (userId : String) (srv srv' : Server) :
    Prop where
  ok : ServiceOk cfg srv'.service
  rows : rowsOf srv'.service.jobs userId = rowsOf srv.service.jobs userId
  emits : ∃ new, srv'.emits = srv.emits ++ new
    ∧ ∀ e ∈ new, e.room ≠ room userId

/-- **A foreign step** leaves the user's rows and his room alone. -/
theorem untouched_step {cfg : Config} {users : List User} {userId : String}
    {srv t t' : Server} {l : ServerLabel} (ht : Untouched cfg userId srv t)
    (hl : Foreign userId t l) (h : serverStep cfg users t l = some t') :
    Untouched cfg userId srv t' := by
  obtain ⟨new, hnew, hroom⟩ := ht.emits
  have hok := serverOk_step ht.ok h
  cases serverStep_move ht.ok h with
  | connected sid params session known => exact ⟨hok, ht.rows, new, hnew, hroom⟩
  | refused sid params e unknown => exact ht
  | service l s' ev hst log =>
      obtain ⟨ev', hlog, -, hcalled⟩ := stream_step ht.ok hst
      have hev : ev = ev' := List.append_cancel_left (log.symm.trans hlog)
      rw [← hev] at hcalled
      refine ⟨hok, ?_, new ++ (callbacks ev).map (onMqttResult t.sessions), ?_, ?_⟩
      · refine Eq.trans ?_ ht.rows
        cases step_move hst with
        | submit c => rfl
        | deliver msg now idle => rfl
        | call i c pc pc' T' ev here move =>
            exact CreateMove.rowsOf (ht.ok.call here) (hl (c, pc) here) move
        | handler pc' T' ev move =>
            exact HandlerMove.rowsOf ht.ok.ids ht.ok.handler hl move
      · rw [hnew, List.append_assoc]
      · intro e he
        rcases List.mem_append.mp he with hold | hcall
        · exact hroom e hold
        · obtain ⟨updated, hup, rfl⟩ := List.mem_map.mp hcall
          -- only the handler calls back, and not for a job of the user
          obtain ⟨rfl, hpc⟩ := hcalled updated hup
          rw [Foreign, hpc] at hl
          exact fun heq => hl (room_injective heq)

/-- **Read noninterference**: from any reachable state of the server, a run of
    steps that are all foreign to a user leaves everything he reads as it was,
    and emits nothing to his room; and a job id that is not his is to him as
    one that does not exist. -/
theorem read_noninterference {cfg : Config} {users : List User}
    {pre : List ServerLabel} {srv : Server}
    (h : exec (serverStep cfg users) Server.empty pre = some srv)
    (userId : String) {ls : List ServerLabel} {srv' : Server}
    (hrun : exec (serverStep cfg users) srv ls = some srv')
    (hforeign : EverySteps (serverStep cfg users) (Foreign userId) srv ls) :
    SameView cfg userId srv.service.jobs srv'.service.jobs
      ∧ (∃ new, srv'.emits = srv.emits ++ new ∧ ∀ e ∈ new, e.room ≠ room userId)
      ∧ ∀ jobId, (∀ r ∈ srv.service.jobs, r.id = jobId → r.userId ≠ userId) →
          getJob srv.service.jobs jobId userId = none := by
  have hok : ServiceOk cfg srv.service :=
    exec_invariant (I := fun t => ServiceOk cfg t.service)
      (fun _ _ _ hs hst => serverOk_step hs hst) (serviceOk_empty cfg) h
  have huntouched : Untouched cfg userId srv srv' := by
    refine exec_invariant_steps
      (fun _ _ _ ht hl hst => untouched_step ht hl hst) hforeign ?_ hrun
    exact ⟨hok, rfl, [], (List.append_nil _).symm,
      fun e he => absurd he List.not_mem_nil⟩
  refine ⟨sameView_of_rows huntouched.rows, huntouched.emits, ?_⟩
  intro jobId hother
  cases hf : getJob srv.service.jobs jobId userId with
  | none => rfl
  | some r =>
      obtain ⟨hr, hid, huser⟩ := getJob_some hf
      exact absurd huser (hother r hr hid)

/-- Another user books with the same key: the same asset and window are
    refused, another window is taken, answered and notified. -/
def intrusion : List ServerLabel :=
  [.service (.submit (booking "user-002" "key-1" "job-2" "asset-001"
      (february 2 11) (february 2 13) .handed)),
    .service (.call 1), .service (.call 1), .service (.call 1),
    .service (.submit (booking "user-002" "key-1" "job-3" "asset-001"
      (february 3 10) (february 3 12) .handed)),
    .service (.call 2), .service (.call 2), .service (.call 2),
    .service (.deliver (resultMessage "job-3" "RUNNING") (february 3 10)),
    .service .handler, .service .handler, .service .handler]

/-- The other user's booking is carried out, and the first one sees nothing of
    it. -/
theorem read_noninterference_intrusion :
    ∃ srv srv', exec (serverStep seedConfig seedUsers) Server.empty watched
        = some srv
      ∧ exec (serverStep seedConfig seedUsers) srv intrusion = some srv'
      ∧ srv'.service.jobs.map Job.state = [stateRunning, stateRunning]
      ∧ SameView seedConfig "user-001" srv.service.jobs srv'.service.jobs := by
  obtain ⟨srv, h, hobs⟩ := Option.map_eq_some_iff.mp
    (show (exec (serverStep seedConfig seedUsers) Server.empty watched).map
        (fun srv => ((exec (serverStep seedConfig seedUsers) srv intrusion).map
            (fun srv' => srv'.service.jobs.map Job.state),
          decide (EverySteps (serverStep seedConfig seedUsers)
            (Foreign "user-001") srv intrusion)))
      = some (some [stateRunning, stateRunning], true) by decide)
  obtain ⟨hstates, hforeign⟩ := Prod.mk.inj hobs
  obtain ⟨srv', hrun, hstates'⟩ := Option.map_eq_some_iff.mp hstates
  exact ⟨srv, srv', h, hrun, hstates',
    (read_noninterference h "user-001" hrun (of_decide_eq_true hforeign)).1⟩

end JobIsolation
