import JobScheduling.JobStatements

/-! # Transactions among other threads' statements

    `StmtMove` and `HandlerStmtMove` say once what one statement of a thread
    can do; `MachineOk` is what holds between the statements: whoever holds
    the lock works on a copy that his earlier statements explain, and nobody
    has committed anything since he took it. -/

namespace JobTransactions

open JobConstants JobClock JobPayload JobModels JobRepository JobBroker
open JobOrchestrator JobService JobFaults JobStatements KeyedTable Runs

/-! ## What one statement of a call can do -/

/-- The points at which a call holds the lock. -/
def holds : StmtPc → Bool
  | .count _ => true
  | .overlap _ => true
  | .insert _ => true
  | .commit _ => true
  | .rollback _ _ => true
  | _ => false

/-- The points inside the `try` block. -/
def tried : StmtPc → Bool
  | .count _ => true
  | .overlap _ => true
  | .insert _ => true
  | .commit _ => true
  | _ => false

/-- Why a statement of a transaction leads to its rollback.  A row that cannot
    be bound raises as a fault does. -/
inductive WhyNot (W : Table) (job : Job) :
    StmtPc → Except PyExc TxnOutcome → Prop where
  | fault (pc : StmtPc) (e : SqlFault) (inTry : tried pc = true) :
      WhyNot W job pc (.error e.val)
  | quota (full : maxActiveJobsPerUser ≤ sqlCountActive W job.userId) :
      WhyNot W job (.count job) (.ok .maxActive)
  | overlap (found : (sqlCheckOverlap W job.assetId job.endTime
        job.startTime).isSome = true) :
      WhyNot W job (.overlap job) (.ok .overlap)
  | violation (encodable : job.operation.encodable = true)
      (clash : violates W job = true) :
      WhyNot W job (.insert job) (.error .IntegrityError)

/-- The moves of a call, statement by statement. -/
inductive StmtMove (cfg : Config) (c : Call) (w : Writer) (db : Database) :
    StmtPc → StmtPc → Database → List Event → Prop where
  | outside (pc pc' : CreatePc) (ev : List Event)
      (between : (StmtPc.of pc).inside = none)
      (move : createStep cfg c db.committed pc = some (pc', db.committed, ev)) :
      StmtMove cfg c w db (.of pc) (.of pc') db ev
  | failed (pc : CreatePc) (e : SqlFault) :
      StmtMove cfg c w db (.of pc) (.returned (.error e.val)) db []
  | locked (job : Job) (free : db.writing = none) :
      StmtMove cfg c w db (.begin job) (.count job)
        ⟨db.committed, some (w, db.committed)⟩ []
  | counted (job : Job) (W : Table) (mine : db.writing = some (w, W))
      (quota : sqlCountActive W job.userId < maxActiveJobsPerUser) :
      StmtMove cfg c w db (.count job) (.overlap job) db []
  | clear (job : Job) (W : Table) (mine : db.writing = some (w, W))
      (none : sqlCheckOverlap W job.assetId job.endTime job.startTime = none) :
      StmtMove cfg c w db (.overlap job) (.insert job) db []
  | written (job : Job) (W : Table) (mine : db.writing = some (w, W))
      (encodable : job.operation.encodable = true)
      (unique : violates W job = false) :
      StmtMove cfg c w db (.insert job) (.commit job)
        ⟨db.committed, some (w, W ++ [job])⟩ []
  | committed (job : Job) (W : Table) (mine : db.writing = some (w, W)) :
      StmtMove cfg c w db (.commit job) (.publish job) (.unlocked W) []
  | refused (pc : StmtPc) (job : Job) (W : Table)
      (mine : db.writing = some (w, W)) (inside : pc.inside = some job)
      (why : Except PyExc TxnOutcome) (reason : WhyNot W job pc why) :
      StmtMove cfg c w db pc (.rollback job why) db []
  | rolledBack (job : Job) (why : Except PyExc TxnOutcome) (W : Table)
      (mine : db.writing = some (w, W)) :
      StmtMove cfg c w db (.rollback job why)
        (.of (afterInsert job (rolledBack why))) (.unlocked db.committed) []

/-- A statement decides where its thread goes on. -/
theorem moved {α π : Type} {r : Except PyExc α × Database}
    {f : Except PyExc α → π} {pc : π} {db : Database} {ev : List Event}
    (h : (some r).map (fun r => (f r.1, r.2, ([] : List Event)))
      = some (pc, db, ev)) : pc = f r.1 ∧ db = r.2 ∧ ev = [] := by
  have heq := Option.some.inj h
  exact ⟨(congrArg Prod.fst heq).symm, (congrArg (·.2.1) heq).symm,
    (congrArg (·.2.2) heq).symm⟩

/-- A connection outside the write transaction reads the committed rows, and
    its reads change nothing. -/
theorem run_reading {α : Type} {db : Database} {w : Writer}
    (free : ∀ W, db.writing ≠ some (w, W)) {faults : Faults} {s : Stmt}
    {select : Table → Except PyExc α} :
    db.run w (query faults s select)
      = some ((query faults s select (Conn.clean db.committed)).1, db) := by
  obtain ⟨T, writing⟩ := db
  have hkept : (query faults s select (Conn.clean T)).2 = Conn.clean T := by
    rw [query, statement]
    cases faults s with
    | some e => rfl
    | none =>
        cases hsel : select T with
        | error e => simp [Conn.clean, Conn.view, hsel, Except.map]
        | ok a => simp [Conn.clean, Conn.view, hsel, Except.map]
  cases writing with
  | none =>
      have hrun := run_unlocked (w := w) (T := T) (query faults s select)
      rw [hkept] at hrun
      exact hrun
  | some p =>
      obtain ⟨holder, W⟩ := p
      have hne : holder ≠ w := by
        intro heq
        exact free W (by rw [heq])
      have hconn : (⟨T, some (holder, W)⟩ : Database).conn w = Conn.clean T := by
        simp [Database.conn, Database.workingCopy, hne, Conn.clean]
      have hlocked : (⟨T, some (holder, W)⟩ : Database).lockedFor w = true := by
        simp [Database.lockedFor, hne]
      rw [Database.run, hlocked, if_pos rfl, hconn, hkept]
      rfl

/-- The lock is where a call's point says. -/
def LockFits (db : Database) (w : Writer) (pc : StmtPc) : Prop :=
  (holds pc = true → ∃ W, db.writing = some (w, W))
    ∧ (holds pc = false → ∀ W, db.writing ≠ some (w, W))

section Inversion

variable {cfg : Config} {c : Call} {w : Writer} {db db' : Database}
variable {fault : Option SqlFault} {pc' : StmtPc} {ev : List Event}

/-- The key lookup of a call is one of the moves. -/
theorem start_move (free : ∀ W, db.writing ≠ some (w, W))
    (h : callStep cfg c w (hitBy fault) db .start = some (pc', db', ev)) :
    StmtMove cfg c w db .start pc' db' ev := by
  rw [callStep, findByIdempotencyKey, run_reading free] at h
  obtain ⟨rfl, rfl, rfl⟩ := moved h
  cases fault with
  | some e => exact .failed .start e
  | none =>
      have hread : (query (hitBy none) .findByIdempotencyKey
          (fun T => .ok (sqlFindByIdempotency T c.userId c.idempotencyKey))
          (Conn.clean db'.committed)).1
          = .ok (sqlFindByIdempotency db'.committed c.userId c.idempotencyKey) :=
        rfl
      rw [hread]
      cases hf : sqlFindByIdempotency db'.committed c.userId c.idempotencyKey with
      | none =>
          refine .outside .start .validate [] rfl ?_
          simp only [createStep, hf]
      | some existing =>
          refine .outside .start (accepted existing) [] rfl ?_
          simp only [createStep, hf, accepted]

theorem relookup_move {job : Job} (free : ∀ W, db.writing ≠ some (w, W))
    (h : callStep cfg c w (hitBy fault) db (.relookup job)
      = some (pc', db', ev)) : StmtMove cfg c w db (.relookup job) pc' db' ev := by
  rw [callStep, findByIdempotencyKey, run_reading free] at h
  obtain ⟨rfl, rfl, rfl⟩ := moved h
  cases fault with
  | some e => exact .failed (.relookup job) e
  | none =>
      have hread : (query (hitBy none) .findByIdempotencyKey
          (fun T => .ok (sqlFindByIdempotency T job.userId job.idempotencyKey))
          (Conn.clean db'.committed)).1
          = .ok (sqlFindByIdempotency db'.committed job.userId
            job.idempotencyKey) := rfl
      rw [hread]
      cases hf : sqlFindByIdempotency db'.committed job.userId
          job.idempotencyKey with
      | none =>
          refine .outside (.relookup job) (.returned (.error .IntegrityError)) [] rfl ?_
          simp only [createStep, hf]
      | some existing =>
          refine .outside (.relookup job) (accepted existing) [] rfl ?_
          simp only [createStep, hf, accepted]

/-- Validation touches no database. -/
theorem validate_move
    (h : callStep cfg c w (hitBy fault) db .validate = some (pc', db', ev)) :
    StmtMove cfg c w db .validate pc' db' ev := by
  cases hv : JobValidation.validate cfg c.body c.validatedAt with
  | none =>
      simp only [callStep, hv, Option.some.injEq, Prod.mk.injEq] at h
      obtain ⟨rfl, rfl, rfl⟩ := h
      refine .outside .validate (.insert (newJob c)) [] rfl ?_
      simp only [createStep, hv]
  | some answer =>
      simp only [callStep, hv, Option.some.injEq, Prod.mk.injEq] at h
      obtain ⟨rfl, rfl, rfl⟩ := h
      refine .outside .validate (.returned (.ok (answer.1, .inr answer.2))) [] rfl ?_
      simp only [createStep, hv]

/-- `BEGIN IMMEDIATE` takes the lock when it is free, and waits or raises when
    it is not. -/
theorem begin_move {job : Job} (free : ∀ W, db.writing ≠ some (w, W))
    (h : callStep cfg c w (hitBy fault) db (.begin job) = some (pc', db', ev)) :
    StmtMove cfg c w db (.begin job) pc' db' ev := by
  obtain ⟨T, writing⟩ := db
  cases writing with
  | none =>
      have hrun : (⟨T, none⟩ : Database).run w (beginImmediate (hitBy fault))
          = _ := run_unlocked _
      rw [callStep, hrun] at h
      obtain ⟨rfl, rfl, rfl⟩ := moved h
      cases fault with
      | some e => exact .failed (.insert job) e
      | none => exact .locked job rfl
  | some p =>
      obtain ⟨holder, W⟩ := p
      have hne : holder ≠ w := by
        intro heq
        exact free W (by rw [heq])
      have hconn : (⟨T, some (holder, W)⟩ : Database).conn w = Conn.clean T := by
        simp [Database.conn, Database.workingCopy, hne, Conn.clean]
      have hlocked : (⟨T, some (holder, W)⟩ : Database).lockedFor w = true := by
        simp [Database.lockedFor, hne]
      rw [callStep, Database.run, hlocked, if_pos rfl, hconn] at h
      cases fault with
      | none => cases h
      | some e =>
          obtain ⟨rfl, rfl, rfl⟩ := moved h
          exact .failed (.insert job) e

/-- A statement inside the transaction: either a fault hits it, or it acts on
    the working copy. -/
theorem inside_move {job : Job} {pc : StmtPc} {T W : Table}
    (hin : holds pc = true) (hjob : pc.inside = some job)
    (h : callStep cfg c w (hitBy fault) ⟨T, some (w, W)⟩ pc
      = some (pc', db', ev)) :
    StmtMove cfg c w ⟨T, some (w, W)⟩ pc pc' db' ev := by
  cases pc with
  | count job =>
      rw [callStep, run_writing] at h
      obtain ⟨rfl, rfl, rfl⟩ := moved h
      cases fault with
      | some e =>
          rw [run_quotaReached_fault job _ rfl]
          exact .refused _ job W rfl rfl _ (.fault _ e rfl)
      | none =>
          rw [run_quotaReached_ok job _ rfl]
          by_cases hmax : sqlCountActive W job.userId ≥ maxActiveJobsPerUser
          · have hdec : decide (sqlCountActive (⟨T, some W⟩ : Conn).view job.userId
                ≥ maxActiveJobsPerUser) = true := decide_eq_true hmax
            rw [hdec]
            exact .refused _ job W rfl rfl _ (.quota hmax)
          · have hdec : decide (sqlCountActive (⟨T, some W⟩ : Conn).view job.userId
                ≥ maxActiveJobsPerUser) = false := decide_eq_false hmax
            rw [hdec]
            exact .counted job W rfl (Nat.lt_of_not_le hmax)
  | overlap job =>
      rw [callStep, run_writing] at h
      obtain ⟨rfl, rfl, rfl⟩ := moved h
      cases fault with
      | some e => exact .refused _ job W rfl rfl _ (.fault _ e rfl)
      | none =>
          have hq : query (hitBy none) .checkOverlap (fun T =>
              .ok (sqlCheckOverlap T job.assetId job.endTime job.startTime))
              ⟨T, some W⟩
              = (.ok (sqlCheckOverlap W job.assetId job.endTime job.startTime),
                  ⟨T, some W⟩) := run_query_ok rfl rfl
          rw [hq]
          cases ho : sqlCheckOverlap W job.assetId job.endTime job.startTime with
          | none => exact .clear job W rfl ho
          | some r => exact .refused _ job W rfl rfl _ (.overlap (by rw [ho]; rfl))
  | insert job =>
      rw [callStep, run_writing] at h
      obtain ⟨rfl, rfl, rfl⟩ := moved h
      cases fault with
      | some e => exact .refused _ job W rfl rfl _ (.fault _ e rfl)
      | none =>
          have hraised : ∀ e, sqlInsert W job = .error e →
              modify (hitBy none) .insert (fun T => sqlInsert T job) ⟨T, some W⟩
                = (.error e, ⟨T, some W⟩) := fun e he => run_modify_error rfl he
          rcases sqlInsert_cases W job with
            ⟨henc, hins⟩ | ⟨henc, hv, hins⟩ | ⟨henc, hv, hins⟩
          · rw [hraised _ hins]
            exact .refused _ job W rfl rfl _
              (.fault _ ⟨.UnicodeEncodeError, by decide⟩ rfl)
          · rw [hraised _ hins]
            exact .refused _ job W rfl rfl _ (.violation henc hv)
          · have hmod : modify (hitBy none) .insert (fun T => sqlInsert T job)
                ⟨T, some W⟩ = (.ok (), ⟨T, some (W ++ [job])⟩) :=
              run_modify_ok rfl hins
            rw [hmod]
            exact .written job W rfl henc hv
  | commit job =>
      rw [callStep, run_writing] at h
      obtain ⟨rfl, rfl, rfl⟩ := moved h
      cases fault with
      | some e => exact .refused _ job W rfl rfl _ (.fault _ e rfl)
      | none => exact .committed job W rfl
  | rollback job why =>
      rw [callStep, run_writing] at h
      obtain ⟨rfl, rfl, rfl⟩ := moved
        (f := fun _ => StmtPc.of (afterInsert job (rolledBack why))) h
      exact .rolledBack job why W rfl
  | _ => cases hin

/-- Every statement of a call is one of the moves. -/
theorem callStep_move {pc : StmtPc} (fits : LockFits db w pc)
    (h : callStep cfg c w (hitBy fault) db pc = some (pc', db', ev)) :
    StmtMove cfg c w db pc pc' db' ev := by
  cases hin : holds pc with
  | true =>
      obtain ⟨W, hW⟩ := fits.1 hin
      obtain ⟨T, writing⟩ := db
      have hW' : writing = some (w, W) := hW
      rw [hW'] at h ⊢
      cases hjob : pc.inside with
      | none => cases pc <;> cases hjob <;> cases hin
      | some job => exact inside_move hin hjob h
  | false =>
      have free := fits.2 hin
      cases pc with
      | start => exact start_move free h
      | validate => exact validate_move h
      | begin job => exact begin_move free h
      | relookup job => exact relookup_move free h
      | publish job =>
          simp only [callStep, Option.some.injEq, Prod.mk.injEq] at h
          obtain ⟨rfl, rfl, rfl⟩ := h
          exact .outside (.publish job) (.returned (publishDispatch c job).1) _ rfl rfl
      | returned result => cases h
      | _ => cases hin

end Inversion

/-! ## What one statement of the handler can do -/

/-- The moves of the handler, statement by statement. -/
inductive HandlerStmtMove (db : Database) :
    HandlerStmt → HandlerStmt → Database → List Event → Prop where
  | outside (pc pc' : HandlerPc) (ev : List Event)
      (move : handlerStep db.committed pc = some (pc', db.committed, ev)) :
      HandlerStmtMove db (.of pc) (.of pc') db ev
  | failed (pc : HandlerStmt) (e : PyExc) : HandlerStmtMove db pc (.dead e) db []
  | written (jobId newState errorMsg : Json) (now : Datetime) (W : Table)
      (free : db.writing = none)
      (runs : updateStmt noFaults jobId newState errorMsg now
        (Conn.clean db.committed) = (.ok (), ⟨db.committed, some W⟩)) :
      HandlerStmtMove db (.update jobId newState errorMsg now)
        (.commit jobId newState errorMsg now)
        ⟨db.committed, some (.handler, W)⟩ []
  | committed (jobId newState errorMsg : Json) (now : Datetime) (W : Table)
      (mine : db.writing = some (.handler, W)) :
      HandlerStmtMove db (.commit jobId newState errorMsg now) (.reread jobId)
        (.unlocked W) []

/-- The handler holds the lock exactly between its UPDATE and its commit. -/
def HandlerFits (db : Database) : HandlerStmt → Prop
  | .commit _ _ _ _ => ∃ W, db.writing = some (.handler, W)
  | .dead _ => True
  | _ => ∀ W, db.writing ≠ some (.handler, W)

/-- An UPDATE that takes effect leaves the committed rows to the others. -/
theorem updateStmt_ok {faults : Faults} {T : Table}
    {jobId state errorMsg : Json} {now : Datetime}
    (h : (updateStmt faults jobId state errorMsg now (Conn.clean T)).1 = .ok ()) :
    ∃ W, updateStmt noFaults jobId state errorMsg now (Conn.clean T)
        = (.ok (), ⟨T, some W⟩)
      ∧ updateStmt faults jobId state errorMsg now (Conn.clean T)
        = (.ok (), ⟨T, some W⟩) := by
  rw [updateStmt] at h
  cases hs : faults .updateState with
  | some e =>
      rw [JobRepository.modify, run_statement_fault hs] at h
      cases h
  | none =>
      cases hw : (do
          let st ← state.bindText
          let err ← errorMsg.bindText
          let id ← jobId.bindText
          sqlUpdateState T st err now.strftime id : Except PyExc Table) with
      | error e =>
          rw [run_modify_error hs hw] at h
          cases h
      | ok W => exact ⟨W, run_modify_ok rfl hw, run_modify_ok hs hw⟩

/-- Every statement of the handler is one of the moves. -/
theorem handlerStmt_move {db db' : Database} {fault : Option SqlFault}
    {pc pc' : HandlerStmt} {ev : List Event} (fits : HandlerFits db pc)
    (h : handlerStmt (hitBy fault) db pc = some (pc', db', ev)) :
    HandlerStmtMove db pc pc' db' ev := by
  cases pc with
  | idle => cases h
  | dead e => cases h
  | notify updated =>
      simp only [handlerStmt, Option.some.injEq, Prod.mk.injEq] at h
      obtain ⟨rfl, rfl, rfl⟩ := h
      exact .outside (.notify updated) .idle _ rfl
  | reread jobId =>
      rw [handlerStmt, findByIdUnscoped, run_reading fits] at h
      obtain ⟨rfl, rfl, rfl⟩ := moved h
      cases fault with
      | some e => exact .failed _ e.val
      | none =>
          have hread : (query (hitBy none) .findByIdUnscoped
              (fun T => jobId.bindText.map (sqlFindByIdUnscoped T))
              (Conn.clean db'.committed)).1
              = ((findByIdUnscoped noFaults jobId).onTable db'.committed).1 := rfl
          rw [hread]
          cases hf : ((findByIdUnscoped noFaults jobId).onTable db'.committed).1 with
          | error e => exact .failed _ e
          | ok found =>
              cases found with
              | none =>
                  refine .outside (.reread jobId) .idle [] ?_
                  simp only [handlerStep, hf]
              | some updated =>
                  refine .outside (.reread jobId) (.notify updated) [] ?_
                  simp only [handlerStep, hf]
  | update jobId newState errorMsg now =>
      obtain ⟨T, writing⟩ := db
      have hconn : (⟨T, writing⟩ : Database).conn .handler = Conn.clean T := by
        cases writing with
        | none => rfl
        | some p =>
            obtain ⟨holder, W⟩ := p
            have hne : holder ≠ .handler := by
              intro heq
              exact fits W (by rw [heq])
            simp [Database.conn, Database.workingCopy, hne, Conn.clean]
      -- the UPDATE takes the lock; it waits where a call has it
      cases hr : (updateStmt (hitBy fault) jobId newState errorMsg now
          (Conn.clean T)).1 with
      | error e =>
          simp only [handlerStmt, hconn, hr, Option.some.injEq, Prod.mk.injEq] at h
          obtain ⟨rfl, rfl, rfl⟩ := h
          exact .failed _ e
      | ok u =>
          obtain ⟨W, hrun, hrun'⟩ := updateStmt_ok hr
          simp only [handlerStmt, hconn, hr] at h
          rw [Database.run, hconn, hrun'] at h
          cases writing with
          | none =>
              obtain ⟨rfl, rfl, rfl⟩ := moved (α := Unit)
                (f := fun _ => HandlerStmt.commit jobId newState errorMsg now) h
              exact .written jobId newState errorMsg now W rfl hrun
          | some p =>
              obtain ⟨holder, W'⟩ := p
              have hne : holder ≠ .handler := by
                intro heq
                exact fits W' (by rw [heq])
              have hlocked : (⟨T, some (holder, W')⟩ : Database).lockedFor .handler
                  = true := by
                simp [Database.lockedFor, hne]
              rw [hlocked, if_pos rfl] at h
              cases h
  | commit jobId newState errorMsg now =>
      obtain ⟨W, hW⟩ := fits
      obtain ⟨T, writing⟩ := db
      have hW' : writing = some (.handler, W) := hW
      rw [hW'] at h ⊢
      rw [handlerStmt, run_writing] at h
      obtain ⟨rfl, rfl, rfl⟩ := moved h
      cases fault with
      | some e => exact .failed _ e.val
      | none => exact .committed jobId newState errorMsg now W rfl

/-! ## What holds between the statements -/

/-- What the rows said when a transaction was given up. -/
def Refused (T : Table) (job : Job) : Except PyExc TxnOutcome → Prop
  | .ok .maxActive => maxActiveJobsPerUser ≤ sqlCountActive T job.userId
  | .ok .overlap => sqlCountActive T job.userId < maxActiveJobsPerUser
      ∧ (sqlCheckOverlap T job.assetId job.endTime job.startTime).isSome = true
  | .ok _ => False
  | .error e => e = .IntegrityError →
      sqlCountActive T job.userId < maxActiveJobsPerUser
        ∧ sqlCheckOverlap T job.assetId job.endTime job.startTime = none
        ∧ job.operation.encodable = true ∧ violates T job = true

/-- The working copy of a call, as its earlier statements explain it: the
    committed rows are those it started from. -/
def TxnOk (T W : Table) : StmtPc → Prop
  | .count _ => W = T
  | .overlap job => W = T
      ∧ sqlCountActive T job.userId < maxActiveJobsPerUser
  | .insert job => W = T
      ∧ sqlCountActive T job.userId < maxActiveJobsPerUser
      ∧ sqlCheckOverlap T job.assetId job.endTime job.startTime = none
  | .commit job => W = T ++ [job] ∧ Admits T job
  | .rollback job why => Refused T job why
  | _ => False

/-- The working copy of the handler is what its UPDATE wrote. -/
def UpdateOk (T W : Table) : HandlerStmt → Prop
  | .commit jobId newState errorMsg now =>
      updateStmt noFaults jobId newState errorMsg now (Conn.clean T)
        = (.ok (), ⟨T, some W⟩)
  | _ => True

/-- Between two statements: the lock is where the threads' points say, and the
    working copy is what its holder made of the committed rows. -/
structure MachineOk (m : Machine) : Prop where
  fits : ∀ (i : Nat) (c : Call) (pc : StmtPc), m.calls[i]? = some (c, pc) →
    LockFits m.db (.call i) pc
  known : ∀ (i : Nat) (W : Table), m.db.writing = some (.call i, W) →
    ∃ c pc, m.calls[i]? = some (c, pc) ∧ TxnOk m.db.committed W pc
  handler : HandlerFits m.db m.handler
  update : ∀ W, m.db.writing = some (.handler, W) →
    UpdateOk m.db.committed W m.handler

theorem holds_of (pc : CreatePc) : holds (.of pc) = false := by
  cases pc <;> rfl

/-- A call that has no lock fits any point between transactions. -/
theorem lockFits_of {db : Database} {w : Writer} (pc : CreatePc)
    (free : ∀ W, db.writing ≠ some (w, W)) : LockFits db w (.of pc) := by
  refine ⟨?_, fun _ => free⟩
  intro h
  rw [holds_of] at h
  cases h

/-- A call that has the lock fits any point inside its transaction. -/
theorem lockFits_mine {db : Database} {w : Writer} {pc : StmtPc} {W : Table}
    (hin : holds pc = true) (mine : db.writing = some (w, W)) :
    LockFits db w pc := by
  refine ⟨fun _ => ⟨W, mine⟩, ?_⟩
  intro h
  rw [hin] at h
  cases h

section StmtMoves

variable {cfg : Config} {c : Call} {w : Writer} {db db' : Database}
variable {pc pc' : StmtPc} {ev : List Event}

/-- A statement passes the lock to nobody else and takes it from nobody. -/
theorem StmtMove.others (h : StmtMove cfg c w db pc pc' db' ev) {w' : Writer}
    (hw : w' ≠ w) (W : Table) :
    db'.writing = some (w', W) ↔ db.writing = some (w', W) := by
  have hmine : ∀ V, some (w, V) ≠ some (w', W) := by
    intro V heq
    exact hw (congrArg Prod.fst (Option.some.inj heq)).symm
  cases h with
  | locked job free =>
      rw [free]
      exact ⟨fun h => absurd h (hmine _), fun h => by cases h⟩
  | written job V mine encodable unique =>
      rw [mine]
      exact ⟨fun h => absurd h (hmine _), fun h => absurd h (hmine _)⟩
  | committed job V mine =>
      rw [mine]
      refine ⟨?_, fun h => absurd h (hmine _)⟩
      intro h
      cases h
  | rolledBack job why V mine =>
      rw [mine]
      refine ⟨?_, fun h => absurd h (hmine _)⟩
      intro h
      cases h
  | _ => exact Iff.rfl

/-- Nobody commits while another thread holds the lock. -/
theorem StmtMove.keeps (h : StmtMove cfg c w db pc pc' db' ev) {w' : Writer}
    (hw : w' ≠ w) {W : Table} (holder : db.writing = some (w', W)) :
    db'.committed = db.committed := by
  cases h with
  | committed job V mine =>
      rw [mine] at holder
      exact absurd (congrArg Prod.fst (Option.some.inj holder)).symm hw
  | _ => rfl

/-- Every move of a call leaves it with the lock exactly while it is inside. -/
theorem StmtMove.fits (h : StmtMove cfg c w db pc pc' db' ev)
    (fits : LockFits db w pc) : LockFits db' w pc' := by
  cases h with
  | outside pc pc' ev between move => exact lockFits_of pc' (fits.2 (holds_of pc))
  | failed pc e =>
      exact lockFits_of (.returned (.error e.val)) (fits.2 (holds_of pc))
  | locked job free => exact lockFits_mine rfl rfl
  | counted job W mine quota => exact lockFits_mine rfl mine
  | clear job W mine none => exact lockFits_mine rfl mine
  | written job W mine encodable unique => exact lockFits_mine rfl rfl
  | committed job W mine =>
      exact lockFits_of (.publish job) (fun V h => by cases h)
  | refused pc job W mine inside why reason => exact lockFits_mine rfl mine
  | rolledBack job why W mine => exact lockFits_of _ (fun V h => by cases h)

/-- What a statement leaves in the working copy of its thread. -/
theorem StmtMove.working (h : StmtMove cfg c w db pc pc' db' ev)
    (fits : LockFits db w pc)
    (hok : ∀ W, db.writing = some (w, W) → TxnOk db.committed W pc) {W : Table}
    (mine' : db'.writing = some (w, W)) : TxnOk db'.committed W pc' := by
  cases h with
  | outside pc pc' ev between move => exact absurd mine' (fits.2 (holds_of pc) W)
  | failed pc e => exact absurd mine' (fits.2 (holds_of pc) W)
  | locked job free =>
      exact (congrArg Prod.snd (Option.some.inj mine')).symm
  | counted job V mine quota =>
      have hV : V = db.committed := hok V mine
      have hW : V = W := by
        rw [mine] at mine'
        exact congrArg Prod.snd (Option.some.inj mine')
      rw [hV] at quota
      exact ⟨hW.symm.trans hV, quota⟩
  | clear job V mine none =>
      obtain ⟨hV, hquota⟩ := hok V mine
      have hW : V = W := by
        rw [mine] at mine'
        exact congrArg Prod.snd (Option.some.inj mine')
      rw [hV] at none
      exact ⟨hW.symm.trans hV, hquota, none⟩
  | written job V mine encodable unique =>
      obtain ⟨hV, hquota, hover⟩ := hok V mine
      have hW : V ++ [job] = W := congrArg Prod.snd (Option.some.inj mine')
      rw [hV] at hW unique
      exact ⟨hW.symm, hquota, hover, encodable, unique⟩
  | committed job V mine => cases mine'
  | refused pc job V mine inside why reason =>
      have hV := hok V mine
      cases reason with
      | fault pc e inTry => exact fun heq => absurd heq e.property
      | quota full =>
          have hV' : V = db.committed := hV
          rw [hV'] at full
          exact full
      | overlap found =>
          obtain ⟨hV', hquota⟩ := hV
          rw [hV'] at found
          exact ⟨hquota, found⟩
      | violation encodable clash =>
          obtain ⟨hV', hquota, hover⟩ := hV
          rw [hV'] at clash
          exact fun _ => ⟨hquota, hover, encodable, clash⟩
  | rolledBack job why V mine => cases mine'

end StmtMoves

section HandlerMoves

variable {db db' : Database} {pc pc' : HandlerStmt} {ev : List Event}

/-- The handler neither takes nor gives the lock of a call. -/
theorem HandlerStmtMove.others (h : HandlerStmtMove db pc pc' db' ev) (i : Nat)
    (W : Table) :
    db'.writing = some (.call i, W) ↔ db.writing = some (.call i, W) := by
  cases h with
  | written jobId newState errorMsg now V free runs =>
      rw [free]
      constructor
      · intro h
        cases h
      · intro h
        cases h
  | committed jobId newState errorMsg now V mine =>
      rw [mine]
      constructor
      · intro h
        cases h
      · intro h
        cases h
  | _ => exact Iff.rfl

/-- While a call has the lock, the handler commits nothing. -/
theorem HandlerStmtMove.keeps (h : HandlerStmtMove db pc pc' db' ev) {i : Nat}
    {W : Table} (holder : db.writing = some (.call i, W)) :
    db'.committed = db.committed := by
  cases h with
  | committed jobId newState errorMsg now V mine =>
      rw [mine] at holder
      cases holder
  | _ => rfl

theorem handlerFits_of {pc : HandlerPc}
    (free : ∀ W, db.writing ≠ some (.handler, W)) : HandlerFits db (.of pc) := by
  cases pc with
  | dead e => exact trivial
  | _ => exact free

/-- A point outside the update holds no lock, unless the thread has ended. -/
theorem handlerFits_free {pc : HandlerPc} (h : HandlerFits db (.of pc))
    (alive : ∀ e, pc ≠ .dead e) (W : Table) :
    db.writing ≠ some (.handler, W) := by
  cases pc with
  | dead e => exact absurd rfl (alive e)
  | _ => exact h W

/-- Every move of the handler leaves it with the lock exactly before its commit. -/
theorem HandlerStmtMove.fits (h : HandlerStmtMove db pc pc' db' ev)
    (fits : HandlerFits db pc) : HandlerFits db' pc' := by
  cases h with
  | outside pc pc' ev move =>
      refine handlerFits_of (handlerFits_free fits ?_)
      intro e heq
      rw [heq] at move
      cases move
  | failed pc e => exact trivial
  | written jobId newState errorMsg now W free runs => exact ⟨W, rfl⟩
  | committed jobId newState errorMsg now W mine =>
      intro V h
      cases h

/-- What the handler is about to commit is the update of its message. -/
theorem HandlerStmtMove.update (h : HandlerStmtMove db pc pc' db' ev)
    (fits : HandlerFits db pc) {W : Table}
    (mine' : db'.writing = some (.handler, W)) : UpdateOk db'.committed W pc' := by
  cases h with
  | outside pc pc' ev move =>
      cases pc' with
      | dead e => exact trivial
      | _ => exact trivial
  | failed pc e => exact trivial
  | written jobId newState errorMsg now V free runs =>
      have hV : V = W := congrArg Prod.snd (Option.some.inj mine')
      rw [hV] at runs
      exact runs
  | committed jobId newState errorMsg now V mine => cases mine'

end HandlerMoves

/-! ## What one step of the machine can do -/

/-- The moves of the machine. -/
inductive MachineMove (cfg : Config) (m : Machine) : StmtLabel → Machine → Prop where
  | submit (c : Call) :
      MachineMove cfg m (.submit c) { m with calls := m.calls ++ [(c, .start)] }
  | call (i : Nat) (fault : Option SqlFault) (c : Call) (pc pc' : StmtPc)
      (db' : Database) (ev : List Event) (here : m.calls[i]? = some (c, pc))
      (move : StmtMove cfg c (.call i) m.db pc pc' db' ev) :
      MachineMove cfg m (.call i fault)
        { m with db := db', calls := m.calls.set i (c, pc'), log := m.log ++ ev }
  | deliver (msg : Delivered) (now : Datetime) (fault : Option SqlFault)
      (idle : m.handler = .idle) :
      MachineMove cfg m (.deliver msg now fault)
        { m with handler := receiveStmt fault m.db.committed msg now }
  | handler (fault : Option SqlFault) (pc' : HandlerStmt) (db' : Database)
      (ev : List Event) (move : HandlerStmtMove m.db m.handler pc' db' ev) :
      MachineMove cfg m (.handler fault)
        { m with db := db', handler := pc', log := m.log ++ ev }
  | close (e : PyExc) (ended : m.handler = .dead e)
      (free : ∀ i W, m.db.writing ≠ some (.call i, W)) :
      MachineMove cfg m .close { m with db := .unlocked m.db.committed }
  | closed (e : PyExc) (ended : m.handler = .dead e) :
      MachineMove cfg m .close m

/-- Every step of the machine is one of the moves. -/
theorem machineStep_move {cfg : Config} {m m' : Machine} {l : StmtLabel}
    (hm : MachineOk m) (h : machineStep cfg m l = some m') :
    MachineMove cfg m l m' := by
  cases l with
  | submit c =>
      rw [← Option.some.inj h]
      exact .submit c
  | call i fault =>
      cases hc : m.calls[i]? with
      | none => simp [machineStep, hc] at h
      | some p =>
          obtain ⟨c, pc⟩ := p
          cases hst : callStep cfg c (.call i) (hitBy fault) m.db pc with
          | none => simp [machineStep, hc, hst] at h
          | some r =>
              obtain ⟨pc', db', ev⟩ := r
              simp only [machineStep, hc, hst, Option.some.injEq] at h
              rw [← h]
              exact .call i fault c pc pc' db' ev hc
                (callStep_move (hm.fits i c pc hc) hst)
  | deliver msg now fault =>
      cases hh : m.handler with
      | idle =>
          simp only [machineStep, hh, Option.some.injEq] at h
          rw [← h]
          exact .deliver msg now fault hh
      | _ => simp [machineStep, hh] at h
  | handler fault =>
      cases hst : handlerStmt (hitBy fault) m.db m.handler with
      | none => simp [machineStep, hst] at h
      | some r =>
          obtain ⟨pc', db', ev⟩ := r
          simp only [machineStep, hst, Option.some.injEq] at h
          rw [← h]
          exact .handler fault pc' db' ev (handlerStmt_move hm.handler hst)
  | close =>
      cases hh : m.handler with
      | dead e =>
          simp only [machineStep, hh] at h
          split_ifs at h with hl
          · rw [← Option.some.inj h]
            exact .closed e hh
          · rw [← Option.some.inj h, ← hh]
            refine .close e hh ?_
            intro i W hw
            rw [Database.lockedFor, hw] at hl
            exact hl rfl
      | _ => simp [machineStep, hh] at h

theorem machineOk_empty : MachineOk Machine.empty where
  fits := fun i c pc h => by cases h
  known := fun i W h => by cases h
  handler := fun W h => by cases h
  update := fun W h => by cases h

/-- A statement of a call moves its own lock and working copy only. -/
theorem MachineOk.call_step {cfg : Config} {m : Machine} (hm : MachineOk m) {i : Nat}
    {c : Call} {pc pc' : StmtPc} {db' : Database} {ev : List Event}
    (here : m.calls[i]? = some (c, pc))
    (move : StmtMove cfg c (.call i) m.db pc pc' db' ev) :
    MachineOk { m with db := db', calls := m.calls.set i (c, pc'), log := m.log ++ ev } := by
  have hfits := hm.fits i c pc here
  have hmine : ∀ W, m.db.writing = some (.call i, W) →
      TxnOk m.db.committed W pc := by
    intro W hW
    obtain ⟨c', pc'', hi, hok⟩ := hm.known i W hW
    rw [here, Option.some.injEq, Prod.mk.injEq] at hi
    rw [hi.2]
    exact hok
  refine ⟨?_, ?_, ?_, ?_⟩
  · intro j c' pcj hj
    rcases getElem?_set_some hj with ⟨rfl, hnew⟩ | ⟨hne, hold⟩
    · obtain ⟨rfl, rfl⟩ := Prod.mk.inj hnew
      exact StmtMove.fits move hfits
    · have hw : Writer.call j ≠ .call i := by
        intro heq
        exact hne (Writer.call.inj heq).symm
      have hj' := hm.fits j c' pcj hold
      refine ⟨?_, ?_⟩
      · intro hin
        obtain ⟨W, hW⟩ := hj'.1 hin
        exact ⟨W, (StmtMove.others move hw W).mpr hW⟩
      · intro hout W hW
        exact hj'.2 hout W ((StmtMove.others move hw W).mp hW)
  · intro j W hW
    have hlen : i < m.calls.length := (List.getElem?_eq_some_iff.mp here).1
    by_cases hji : j = i
    · rw [hji] at hW ⊢
      refine ⟨c, pc', ?_, StmtMove.working move hfits hmine hW⟩
      exact List.getElem?_set_self hlen
    · have hw : Writer.call j ≠ .call i := by
        intro heq
        exact hji (Writer.call.inj heq)
      have hW' := (StmtMove.others move hw W).mp hW
      obtain ⟨c', pcj, hj, hok⟩ := hm.known j W hW'
      refine ⟨c', pcj, ?_, ?_⟩
      · show (m.calls.set i (c, pc'))[j]? = some (c', pcj)
        rw [List.getElem?_set_ne (Ne.symm hji), hj]
      · show TxnOk db'.committed W pcj
        rw [StmtMove.keeps move hw hW']
        exact hok
  · -- the handler's lock is not the call's to give or take
    have hw : Writer.handler ≠ .call i := by
      intro heq
      cases heq
    have hfit := hm.handler
    show HandlerFits db' m.handler
    generalize m.handler = hpc at hfit
    cases hpc with
    | commit jobId newState errorMsg now =>
        obtain ⟨W, hW⟩ := hfit
        exact ⟨W, (StmtMove.others move hw W).mpr hW⟩
    | dead e => exact trivial
    | _ => exact fun W hW => hfit W ((StmtMove.others move hw W).mp hW)
  · intro W hW
    have hw : Writer.handler ≠ .call i := by
      intro heq
      cases heq
    have hW' := (StmtMove.others move hw W).mp hW
    show UpdateOk db'.committed W m.handler
    rw [StmtMove.keeps move hw hW']
    exact hm.update W hW'

/-- A statement of the handler moves the handler's. -/
theorem MachineOk.handler_step {m : Machine} (hm : MachineOk m) {pc' : HandlerStmt}
    {db' : Database} {ev : List Event} (move : HandlerStmtMove m.db m.handler pc' db' ev) :
    MachineOk { m with db := db', handler := pc', log := m.log ++ ev } := by
  refine ⟨?_, ?_, HandlerStmtMove.fits move hm.handler,
    fun W hW => HandlerStmtMove.update move hm.handler hW⟩
  · intro i c pc hi
    have hfit := hm.fits i c pc hi
    refine ⟨?_, ?_⟩
    · intro hin
      obtain ⟨W, hW⟩ := hfit.1 hin
      exact ⟨W, (HandlerStmtMove.others move i W).mpr hW⟩
    · intro hout W hW
      exact hfit.2 hout W ((HandlerStmtMove.others move i W).mp hW)
  · intro i W hW
    have hW' := (HandlerStmtMove.others move i W).mp hW
    obtain ⟨c, pc, hi, hok⟩ := hm.known i W hW'
    refine ⟨c, pc, hi, ?_⟩
    show TxnOk db'.committed W pc
    rw [HandlerStmtMove.keeps move hW']
    exact hok

/-- **Every step of the machine keeps it.** -/
theorem machineOk_step {cfg : Config} {m m' : Machine} {l : StmtLabel}
    (hm : MachineOk m) (h : machineStep cfg m l = some m') : MachineOk m' := by
  cases machineStep_move hm h with
  | submit c =>
      refine ⟨?_, ?_, hm.handler, hm.update⟩
      · intro i c' pc hi
        -- a new call holds no lock
        rcases getElem?_concat_some hi with ⟨-, hold⟩ | ⟨rfl, hnew⟩
        · exact hm.fits i c' pc hold
        · obtain ⟨-, rfl⟩ := Prod.mk.inj hnew
          refine lockFits_of .start ?_
          intro W hW
          obtain ⟨c'', pc'', hlast, -⟩ := hm.known _ W hW
          rw [List.getElem?_eq_none (Nat.le_refl _)] at hlast
          cases hlast
      · intro i W hW
        obtain ⟨c', pc, hi, hok⟩ := hm.known i W hW
        obtain ⟨hlen, -⟩ := List.getElem?_eq_some_iff.mp hi
        exact ⟨c', pc, by rw [List.getElem?_append_left hlen, hi], hok⟩
  | call i fault c pc pc' db' ev here move => exact hm.call_step here move
  | deliver msg now fault idle =>
      have hfree : ∀ W, m.db.writing ≠ some (.handler, W) := by
        have hfit := hm.handler
        rw [idle] at hfit
        exact hfit
      refine ⟨hm.fits, hm.known, ?_, fun W hW => absurd hW (hfree W)⟩
      show HandlerFits m.db (receiveStmt fault m.db.committed msg now)
      cases fault with
      | none => exact handlerFits_of hfree
      | some e =>
          rw [receiveStmt]
          split_ifs
          · exact trivial
          · exact handlerFits_of hfree
  | handler fault pc' db' ev move => exact hm.handler_step move
  | close e ended free =>
      refine ⟨?_, ?_, ?_, ?_⟩
      · intro i c pc hi
        have hfit := hm.fits i c pc hi
        refine ⟨?_, ?_⟩
        · intro hin
          obtain ⟨W, hW⟩ := hfit.1 hin
          exact absurd hW (free i W)
        · intro hout W hW
          cases hW
      · intro i W hW
        cases hW
      · show HandlerFits (.unlocked m.db.committed) m.handler
        rw [ended]
        exact trivial
      · intro W hW
        cases hW
  | closed e ended => exact hm

theorem machineOk_run {cfg : Config} {ls : List StmtLabel} {m : Machine}
    (h : exec (machineStep cfg) Machine.empty ls = some m) : MachineOk m :=
  exec_invariant (fun _ _ _ hm hst => machineOk_step hm hst) machineOk_empty h

end JobTransactions
