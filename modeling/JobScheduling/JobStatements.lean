import JobScheduling.JobFaults

/-! # Threads, statement by statement

    `JobService` takes an insert transaction, and the update of the handler,
    as one step.  Here every SQL statement is a step of its own, other threads
    come in between any two of them, and every statement may raise but a
    rollback, which is taken to succeed.  An UPDATE that raises is taken to
    hold no lock: its implicit BEGIN is a deferred one.

    The database is SQLite's: the committed rows, which every connection
    outside a write transaction reads, and at most one write transaction,
    whose thread holds the lock and works on a copy.  A statement that needs
    the lock while another thread holds it waits; it raises when its busy
    timeout runs out, which is one of the faults a label may choose.

    `insertTransaction_eq_statements` connects the cut to the repository: the
    statements of a call that runs alone are `insert_if_no_overlap` up to its
    commit or rollback, for every choice of faults that spares rollbacks. -/

namespace JobStatements

open JobConstants JobClock JobPayload JobModels JobRepository JobBroker
open JobOrchestrator JobFaults

/-! ## The database -/

/-- The thread a connection belongs to. -/
inductive Writer where
  | call (i : Nat)
  | handler
deriving DecidableEq, Repr

/-- The committed rows, and the write transaction with its working copy. -/
structure Database where
  committed : Table
  writing : Option (Writer × Table)
deriving DecidableEq

/-- The database with nobody writing. -/
def Database.unlocked (T : Table) : Database := ⟨T, none⟩

/-- The working copy of a thread, if the write transaction is its own. -/
def Database.workingCopy (db : Database) (w : Writer) : Option Table :=
  match db.writing with
  | some (holder, rows) => if holder = w then some rows else none
  | none => none

/-- The connection of a thread. -/
def Database.conn (db : Database) (w : Writer) : Conn :=
  ⟨db.committed, db.workingCopy w⟩

/-- What a thread that holds the lock, or may take it, leaves behind. -/
def Database.store (w : Writer) (c : Conn) : Database :=
  ⟨c.committed, c.txn.map (fun rows => (w, rows))⟩

/-- Another thread holds the lock. -/
def Database.lockedFor (db : Database) (w : Writer) : Bool :=
  match db.writing with
  | some (holder, _) => decide (holder ≠ w)
  | none => false

/-- Run a statement of a thread; `none` while it has to wait for the lock. -/
def Database.run {α : Type} (db : Database) (w : Writer) (m : Sql α) :
    Option (Except PyExc α × Database) :=
  let r := m (db.conn w)
  if db.lockedFor w then
    match r.2.txn with
    | some _ => none
    -- outside a write transaction a statement only reads
    | none => some (r.1, db)
  else some (r.1, Database.store w r.2)

/-! ## The statements of a call -/

/-- Where a call is: about to execute the statement named. -/
inductive StmtPc where
  | start
  | validate
  | begin (job : Job)
  | count (job : Job)
  | overlap (job : Job)
  | insert (job : Job)
  | commit (job : Job)
  | rollback (job : Job) (why : Except PyExc TxnOutcome)
  | relookup (job : Job)
  | publish (job : Job)
  | returned (result : CreateResult)

/-- A point between two transactions. -/
def StmtPc.of : CreatePc → StmtPc
  | .start => .start
  | .validate => .validate
  | .insert job => .begin job
  | .relookup job => .relookup job
  | .publish job => .publish job
  | .returned result => .returned result

/-- `BEGIN IMMEDIATE` stands before the `try`. -/
def afterBegin (job : Job) : Except PyExc Unit → StmtPc
  | .error e => .returned (.error e)
  | .ok () => .count job

def afterCount (job : Job) : Except PyExc Bool → StmtPc
  | .error e => .rollback job (.error e)
  | .ok true => .rollback job (.ok .maxActive)
  | .ok false => .overlap job

def afterOverlap (job : Job) : Except PyExc (Option Job) → StmtPc
  | .error e => .rollback job (.error e)
  | .ok (some _) => .rollback job (.ok .overlap)
  | .ok none => .insert job

def afterInsertStmt (job : Job) : Except PyExc Unit → StmtPc
  | .error e => .rollback job (.error e)
  | .ok () => .commit job

def afterCommit (job : Job) : Except PyExc Unit → StmtPc
  | .error e => .rollback job (.error e)
  | .ok () => .publish job

/-- The two `except` clauses: only an `IntegrityError` goes on. -/
def rolledBack : Except PyExc TxnOutcome → Except PyExc TxnOutcome
  | .error .IntegrityError => .ok .integrityError
  | why => why

def afterLookup : Except PyExc (Option Job) → StmtPc
  | .error e => .returned (.error e)
  | .ok (some existing) => .returned (.ok (.created, .inl existing))
  | .ok none => .validate

def afterRelookup : Except PyExc (Option Job) → StmtPc
  | .error e => .returned (.error e)
  | .ok (some existing) => .returned (.ok (.created, .inl existing))
  | .ok none => .returned (.error .IntegrityError)

/-- One statement of a call; `none` once it has returned, and while it waits
    for the lock. -/
def callStep (cfg : Config) (c : Call) (w : Writer) (faults : Faults)
    (db : Database) : StmtPc → Option (StmtPc × Database × List Event)
  | .start =>
      (db.run w (findByIdempotencyKey faults c.userId c.idempotencyKey)).map
        (fun r => (afterLookup r.1, r.2, []))
  | .validate =>
      match JobValidation.validate cfg c.body c.validatedAt with
      | some (status, message) =>
          some (.returned (.ok (status, .inr message)), db, [])
      | none => some (.begin (newJob c), db, [])
  | .begin job =>
      (db.run w (beginImmediate faults)).map
        (fun r => (afterBegin job r.1, r.2, []))
  | .count job =>
      (db.run w (quotaReached faults job maxActiveJobsPerUser)).map
        (fun r => (afterCount job r.1, r.2, []))
  | .overlap job =>
      (db.run w (query faults .checkOverlap (fun T =>
        .ok (sqlCheckOverlap T job.assetId job.endTime job.startTime)))).map
        (fun r => (afterOverlap job r.1, r.2, []))
  | .insert job =>
      (db.run w (modify faults .insert (fun T => sqlInsert T job))).map
        (fun r => (afterInsertStmt job r.1, r.2, []))
  | .commit job =>
      (db.run w (commit faults)).map (fun r => (afterCommit job r.1, r.2, []))
  -- a rollback is taken to succeed
  | .rollback job why =>
      (db.run w (rollback noFaults)).map
        (fun r => (StmtPc.of (afterInsert job (rolledBack why)), r.2, []))
  | .relookup job =>
      (db.run w (findByIdempotencyKey faults job.userId
        job.idempotencyKey)).map (fun r => (afterRelookup r.1, r.2, []))
  | .publish job =>
      some (.returned (publishDispatch c job).1, db, (publishDispatch c job).2)
  | .returned _ => none

/-! ## The statements of the handler -/

/-- Where paho's thread is. -/
inductive HandlerStmt where
  | idle
  | update (jobId newState errorMsg : Json) (now : Datetime)
  | commit (jobId newState errorMsg : Json) (now : Datetime)
  | reread (jobId : Json)
  | notify (updated : Job)
  | dead (e : PyExc)

/-- A point outside the update. -/
def HandlerStmt.of : HandlerPc → HandlerStmt
  | .idle => .idle
  | .update jobId newState errorMsg now => .update jobId newState errorMsg now
  | .reread jobId => .reread jobId
  | .notify updated => .notify updated
  | .dead e => .dead e

/-- The UPDATE of `update_state`, without its commit. -/
def updateStmt (faults : Faults) (jobId state errorMessage : Json)
    (now : Datetime) : Sql Unit :=
  modify faults .updateState (fun T => do
    let st ← state.bindText
    let err ← errorMessage.bindText
    let id ← jobId.bindText
    sqlUpdateState T st err now.strftime id)

/-- The update of a state is two statements. -/
theorem storeState_eq_statements (faults : Faults)
    (jobId state errorMessage : Json) (now : Datetime) :
    storeState faults jobId state errorMessage now
      = (do updateStmt faults jobId state errorMessage now; commit faults) := rfl

def afterStored (jobId : Json) : Except PyExc Unit → HandlerStmt
  | .error e => .dead e
  | .ok () => .reread jobId

def afterReread : Except PyExc (Option Job) → HandlerStmt
  | .error e => .dead e
  | .ok none => .idle
  | .ok (some updated) => .notify updated

/-- One statement of the handler. -/
def handlerStmt (faults : Faults) (db : Database) :
    HandlerStmt → Option (HandlerStmt × Database × List Event)
  | .idle => none
  | .update jobId newState errorMsg now =>
      let stmt := updateStmt faults jobId newState errorMsg now
      match (stmt (db.conn .handler)).1 with
      -- the implicit BEGIN is a deferred one: it holds no lock
      | .error e => some (.dead e, db, [])
      | .ok () =>
          (db.run .handler stmt).map
            (fun r => (.commit jobId newState errorMsg now, r.2, []))
  | .commit jobId _ _ _ =>
      (db.run .handler (commit faults)).map
        (fun r => (afterStored jobId r.1, r.2, []))
  | .reread jobId =>
      (db.run .handler (findByIdUnscoped faults jobId)).map
        (fun r => (afterReread r.1, r.2, []))
  | .notify updated => some (.idle, db, [.callback updated])
  | .dead _ => none

/-- The message names a job and a state: its job is looked up. -/
def looksUp : Delivered → Bool
  | .ok (.obj payload) =>
      (dictGet payload fieldJobId).truthy && (dictGet payload fieldState).truthy
  | _ => false

/-! ## The machine -/

/-- What a statement may raise whatever the rows are: SQLite keeps
    `IntegrityError` for violated constraints. -/
abbrev SqlFault := {e : PyExc // e ≠ .IntegrityError}

/-- The statement a step executes is hit by the fault, or by none. -/
def hitBy (fault : Option SqlFault) : Faults := fun _ => fault.map Subtype.val

/-- A delivered message up to the guard. -/
def receiveStmt (fault : Option SqlFault) (T : Table) (msg : Delivered)
    (now : Datetime) : HandlerStmt :=
  match fault with
  | some e => if looksUp msg then .dead e.val else .of (receive T msg now)
  | none => .of (receive T msg now)

structure Machine where
  db : Database
  calls : List (Call × StmtPc)
  handler : HandlerStmt
  log : List Event

def Machine.empty : Machine := ⟨.unlocked [], [], .idle, []⟩

inductive StmtLabel where
  | submit (c : Call)
  | call (i : Nat) (fault : Option SqlFault)
  | deliver (msg : Delivered) (now : Datetime) (fault : Option SqlFault)
  | handler (fault : Option SqlFault)
  /-- The connection of the ended handler thread is closed. -/
  | close

/-- One step of the machine: one statement of one thread. -/
def machineStep (cfg : Config) (m : Machine) : StmtLabel → Option Machine
  | .submit c => some { m with calls := m.calls ++ [(c, .start)] }
  | .call i fault =>
      match m.calls[i]? with
      | none => none
      | some (c, pc) =>
          match callStep cfg c (.call i) (hitBy fault) m.db pc with
          | none => none
          | some (pc', db', ev) =>
              some { m with
                db := db'
                calls := m.calls.set i (c, pc')
                log := m.log ++ ev }
  | .deliver msg now fault =>
      match m.handler with
      | .idle =>
          some { m with handler := receiveStmt fault m.db.committed msg now }
      | _ => none
  | .handler fault =>
      match handlerStmt (hitBy fault) m.db m.handler with
      | none => none
      | some (pc', db', ev) =>
          some { m with
            db := db'
            handler := pc'
            log := m.log ++ ev }
  | .close =>
      match m.handler with
      | .dead _ =>
          if m.db.lockedFor .handler then some m
          else some { m with db := .unlocked m.db.committed }
      | _ => none

/-! ## A thread that runs alone -/

section Alone

variable {α : Type} {w : Writer} {T W : Table}

/-- On a database nobody has locked a writer starts from the committed rows. -/
theorem run_unlocked (m : Sql α) :
    (Database.unlocked T).run w m
      = some ((m (Conn.clean T)).1, Database.store w (m (Conn.clean T)).2) := rfl

theorem lockedFor_self (T W : Table) (w : Writer) :
    (⟨T, some (w, W)⟩ : Database).lockedFor w = false := by
  simp [Database.lockedFor]

theorem conn_self (T W : Table) (w : Writer) :
    (⟨T, some (w, W)⟩ : Database).conn w = ⟨T, some W⟩ := by
  simp [Database.conn, Database.workingCopy]

/-- The holder of the lock goes on with its transaction. -/
theorem run_writing (m : Sql α) :
    (⟨T, some (w, W)⟩ : Database).run w m
      = some ((m ⟨T, some W⟩).1, Database.store w (m ⟨T, some W⟩).2) := by
  rw [Database.run, lockedFor_self, conn_self, if_neg Bool.false_ne_true]

end Alone

/-- The quota check, hit by a fault. -/
theorem run_quotaReached_fault {faults : Faults} {e : PyExc} (job : Job)
    (c : Conn) (hs : faults .countActive = some e) :
    quotaReached faults job maxActiveJobsPerUser c = (.error e, c) := by
  have hpos : maxActiveJobsPerUser > 0 := by decide
  have hcount : query faults .countActive
      (fun T => .ok (sqlCountActive T job.userId)) c = (.error e, c) :=
    run_statement_fault hs
  rw [quotaReached, if_pos hpos, run_bind_error hcount]

/-- The quota check, of the rows its connection sees. -/
theorem run_quotaReached_ok {faults : Faults} (job : Job) (c : Conn)
    (hs : faults .countActive = none) :
    quotaReached faults job maxActiveJobsPerUser c
      = (.ok (decide (sqlCountActive c.view job.userId ≥ maxActiveJobsPerUser)),
          c) := by
  have hpos : maxActiveJobsPerUser > 0 := by decide
  have hcount : query faults .countActive
      (fun T => .ok (sqlCountActive T job.userId)) c
      = (.ok (sqlCountActive c.view job.userId), c) := run_query_ok hs rfl
  rw [quotaReached, if_pos hpos, run_bind_ok hcount]
  rfl

/-- The points of an insert transaction. -/
def StmtPc.inside : StmtPc → Option Job
  | .begin job => some job
  | .count job => some job
  | .overlap job => some job
  | .insert job => some job
  | .commit job => some job
  | .rollback job _ => some job
  | _ => none

/-- Run the statements of a call as far as its transaction goes, with nobody
    in between. -/
def runTxn (cfg : Config) (c : Call) (w : Writer) (faults : Faults) :
    Nat → StmtPc → Database → Option (StmtPc × Database)
  | 0, pc, db => some (pc, db)
  | n + 1, pc, db =>
      match pc.inside with
      | none => some (pc, db)
      | some _ =>
          match callStep cfg c w faults db pc with
          | none => none
          | some (pc', db', _) => runTxn cfg c w faults n pc' db'

section Transaction

variable {cfg : Config} {c : Call} {w : Writer} {faults : Faults} {job : Job}

/-- A `try` block only matters for how it ends. -/
theorem run_tryCatch_congr {α : Type} {m m' : Sql α} {f : PyExc → Sql α}
    {conn conn' : Conn} (h : m conn = m' conn') :
    (tryCatch m f : Sql α) conn = (tryCatch m' f : Sql α) conn' := by
  show (ExceptT.tryCatch m f : Sql α) conn = (ExceptT.tryCatch m' f : Sql α) conn'
  simp only [ExceptT.tryCatch, ExceptT.mk, bind, StateT.bind, h]

/-- From a point inside its transaction, a call ends the way a program does on
    the connection. -/
def Agrees (cfg : Config) (c : Call) (w : Writer) (faults : Faults) (job : Job)
    (n : Nat) (pc : StmtPc) (T W : Table) (p : Sql TxnOutcome) : Prop :=
  ∃ r T', p ⟨T, some W⟩ = (r, Conn.clean T')
    ∧ runTxn cfg c w faults n pc ⟨T, some (w, W)⟩
      = some (.of (afterInsert job r), .unlocked T')

/-- Between transactions there is nothing to run. -/
theorem runTxn_of (n : Nat) (pc : CreatePc) (h : (StmtPc.of pc).inside = none)
    (db : Database) :
    runTxn cfg c w faults n (.of pc) db = some (.of pc, db) := by
  cases n with
  | zero => rfl
  | succ n => rw [runTxn, h]

/-- After its transaction a call is at none of the points inside one. -/
theorem inside_afterInsert (job : Job) (r : Except PyExc TxnOutcome) :
    (StmtPc.of (afterInsert job r)).inside = none := by
  cases r with
  | error e => rfl
  | ok outcome => cases outcome <;> rfl

/-- The rollback is the last statement of a transaction. -/
theorem runTxn_rollback (n : Nat) (why : Except PyExc TxnOutcome)
    (T W : Table) :
    runTxn cfg c w faults (n + 1) (.rollback job why) ⟨T, some (w, W)⟩
      = some (.of (afterInsert job (rolledBack why)), .unlocked T) := by
  have hroll : rollback noFaults ⟨T, some W⟩ = (.ok (), Conn.clean T) :=
    run_rollback rfl _
  have hstep : callStep cfg c w faults ⟨T, some (w, W)⟩ (.rollback job why)
      = some (.of (afterInsert job (rolledBack why)), .unlocked T, []) := by
    rw [callStep, run_writing, hroll]
    rfl
  rw [runTxn, hstep]
  exact runTxn_of n _ (inside_afterInsert job _) _

/-- What is raised inside the `try` is rolled back, and what is caught goes on
    as the `except` clauses say. -/
theorem agrees_raised (cfg : Config) (c : Call) (w : Writer) (job : Job)
    (hroll : faults .rollback = none) (n : Nat) (e : PyExc)
    (T W : Table) :
    Agrees cfg c w faults job (n + 1) (.rollback job (.error e)) T W
      (insertExcept faults e) := by
  refine ⟨rolledBack (.error e), T, ?_, runTxn_rollback n _ T W⟩
  by_cases he : e = .IntegrityError
  · have hexcept : insertExcept faults .IntegrityError
        = (do rollback faults; pure .integrityError) := rfl
    rw [he, hexcept, run_bind_ok (run_rollback hroll _)]
    rfl
  · have hexcept : insertExcept faults e = (do rollback faults; throw e) := by
      cases e <;> first | rfl | exact absurd rfl he
    have hagain : rolledBack (.error e) = .error e := by
      cases e <;> first | rfl | exact absurd rfl he
    rw [hexcept, hagain, run_bind_ok (run_rollback hroll _)]
    rfl

variable {n : Nat} {T W : Table}

/-- A statement that raises hands over to the `except` clauses. -/
theorem agrees_error {pc : StmtPc} {e : PyExc} {p : Sql TxnOutcome}
    {W' : Table} (hroll : faults .rollback = none)
    (hin : pc.inside = some job)
    (hp : p ⟨T, some W⟩ = (.error e, ⟨T, some W'⟩))
    (hstep : callStep cfg c w faults ⟨T, some (w, W)⟩ pc
      = some (.rollback job (.error e), ⟨T, some (w, W')⟩, [])) :
    Agrees cfg c w faults job (n + 2) pc T W
      (tryCatch p (insertExcept faults)) := by
  obtain ⟨r, T', hr, hrun⟩ := agrees_raised cfg c w job hroll n e T W'
  refine ⟨r, T', ?_, ?_⟩
  · rw [run_tryCatch_error hp, hr]
  · rw [runTxn, hin, hstep]
    exact hrun

end Transaction

/-! ### From the last statement to the first -/

section Points

variable {cfg : Config} {c : Call} {w : Writer} {faults : Faults} {job : Job}
variable {n : Nat} {T W : Table}

/-- From the commit on the statements agree with the rest of the transaction. -/
theorem agrees_commit (hroll : faults .rollback = none) :
    Agrees cfg c w faults job 2 (.commit job) T W
      (tryCatch (do commit faults; pure .created) (insertExcept faults)) := by
  cases hs : faults .commit with
  | some e =>
      have hcommit : commit faults ⟨T, some W⟩ = (.error e, ⟨T, some W⟩) :=
        run_statement_fault hs
      refine agrees_error (n := 0) hroll rfl (run_bind_error hcommit) ?_
      rw [callStep, run_writing, hcommit]
      rfl
  | none =>
      have hcommit := run_commit hs ⟨T, some W⟩
      have hbody : (do commit faults; pure .created : Sql TxnOutcome)
          ⟨T, some W⟩ = (.ok .created, Conn.clean W) := run_bind_ok hcommit
      refine ⟨.ok .created, W, run_tryCatch_ok hbody, ?_⟩
      have hstep : callStep cfg c w faults ⟨T, some (w, W)⟩ (.commit job)
          = some (.publish job, .unlocked W, []) := by
        rw [callStep, run_writing, hcommit]
        rfl
      rw [runTxn, hstep]
      rfl

/-- A statement that returns hands over to the rest of the `try` block. -/
theorem agrees_ok {α : Type} {pc pc' : StmtPc} {m : Sql α} {a : α}
    {rest : α → Sql TxnOutcome} {W' : Table} (hin : pc.inside = some job)
    (hm : m ⟨T, some W⟩ = (.ok a, ⟨T, some W'⟩))
    (hstep : callStep cfg c w faults ⟨T, some (w, W)⟩ pc
      = some (pc', ⟨T, some (w, W')⟩, []))
    (hrest : Agrees cfg c w faults job n pc' T W'
      (tryCatch (rest a) (insertExcept faults))) :
    Agrees cfg c w faults job (n + 1) pc T W
      (tryCatch (m >>= rest) (insertExcept faults)) := by
  obtain ⟨r, T', hr, hrun⟩ := hrest
  refine ⟨r, T', ?_, ?_⟩
  · have hbind : (m >>= rest) ⟨T, some W⟩ = rest a ⟨T, some W'⟩ :=
      run_bind_ok hm
    rw [run_tryCatch_congr hbind, hr]
  · rw [runTxn, hin, hstep]
    exact hrun

/-- Rows that refuse the job are rolled back inside the `try` block. -/
theorem agrees_abort {outcome : TxnOutcome} (hroll : faults .rollback = none) :
    Agrees cfg c w faults job (n + 1) (.rollback job (.ok outcome)) T W
      (tryCatch (do rollback faults; pure outcome) (insertExcept faults)) := by
  have hbody : (do rollback faults; pure outcome : Sql TxnOutcome)
      ⟨T, some W⟩ = (.ok outcome, Conn.clean T) :=
    run_bind_ok (run_rollback hroll _)
  exact ⟨.ok outcome, T, run_tryCatch_ok hbody, runTxn_rollback n _ T W⟩

/-- From the INSERT on they agree. -/
theorem agrees_insert (hroll : faults .rollback = none) :
    Agrees cfg c w faults job 3 (.insert job) T W
      (tryCatch (do
        modify faults .insert (fun T => sqlInsert T job)
        commit faults
        pure .created) (insertExcept faults)) := by
  cases hs : faults .insert with
  | some e =>
      have hins : modify faults .insert (fun T => sqlInsert T job) ⟨T, some W⟩
          = (.error e, ⟨T, some W⟩) := run_statement_fault hs
      refine agrees_error (n := 1) hroll rfl (run_bind_error hins) ?_
      rw [callStep, run_writing, hins]
      rfl
  | none =>
      cases hw : sqlInsert W job with
      | error e =>
          have hins : modify faults .insert (fun T => sqlInsert T job) ⟨T, some W⟩
              = (.error e, ⟨T, some W⟩) := run_modify_error hs hw
          refine agrees_error (n := 1) hroll rfl (run_bind_error hins) ?_
          rw [callStep, run_writing, hins]
          rfl
      | ok W' =>
          have hins : modify faults .insert (fun T => sqlInsert T job) ⟨T, some W⟩
              = (.ok (), ⟨T, some W'⟩) := run_modify_ok hs hw
          refine agrees_ok rfl hins ?_ (agrees_commit hroll)
          rw [callStep, run_writing, hins]
          rfl

/-- From the overlap check on they agree. -/
theorem agrees_overlap (hroll : faults .rollback = none) :
    Agrees cfg c w faults job 4 (.overlap job) T W
      (tryCatch (do
        let overlap ← query faults .checkOverlap (fun T =>
          .ok (sqlCheckOverlap T job.assetId job.endTime job.startTime))
        if overlap.isSome then
          rollback faults
          pure .overlap
        else
          modify faults .insert (fun T => sqlInsert T job)
          commit faults
          pure .created) (insertExcept faults)) := by
  cases hs : faults .checkOverlap with
  | some e =>
      have hq : query faults .checkOverlap (fun T =>
          .ok (sqlCheckOverlap T job.assetId job.endTime job.startTime))
          ⟨T, some W⟩ = (.error e, ⟨T, some W⟩) := run_statement_fault hs
      refine agrees_error (n := 2) hroll rfl (run_bind_error hq) ?_
      rw [callStep, run_writing, hq]
      rfl
  | none =>
      have hq : query faults .checkOverlap (fun T =>
          .ok (sqlCheckOverlap T job.assetId job.endTime job.startTime))
          ⟨T, some W⟩
          = (.ok (sqlCheckOverlap W job.assetId job.endTime job.startTime),
              ⟨T, some W⟩) := run_query_ok hs rfl
      cases ho : sqlCheckOverlap W job.assetId job.endTime job.startTime with
      | none =>
          rw [ho] at hq
          refine agrees_ok rfl hq ?_ (agrees_insert hroll)
          rw [callStep, run_writing, hq]
          rfl
      | some r =>
          rw [ho] at hq
          refine agrees_ok (n := 3) rfl hq ?_ (agrees_abort hroll)
          rw [callStep, run_writing, hq]
          rfl

/-- From the quota check on they agree, so they do as a whole. -/
theorem agrees_count (cfg : Config) (c : Call) (w : Writer) (job : Job)
    (T : Table) (hroll : faults .rollback = none) :
    Agrees cfg c w faults job 5 (.count job) T T
      (tryCatch (insertBody faults job maxActiveJobsPerUser)
        (insertExcept faults)) := by
  cases hs : faults .countActive with
  | some e =>
      have hq := run_quotaReached_fault job ⟨T, some T⟩ hs
      refine agrees_error (n := 3) hroll rfl (run_bind_error hq) ?_
      rw [callStep, run_writing, hq]
      rfl
  | none =>
      have hq := run_quotaReached_ok job ⟨T, some T⟩ hs
      by_cases hmax : sqlCountActive T job.userId ≥ maxActiveJobsPerUser
      · rw [show (⟨T, some T⟩ : Conn).view = T from rfl, decide_eq_true hmax] at hq
        refine agrees_ok (n := 4) rfl hq ?_ (agrees_abort hroll)
        rw [callStep, run_writing, hq]
        rfl
      · rw [show (⟨T, some T⟩ : Conn).view = T from rfl, decide_eq_false hmax] at hq
        refine agrees_ok rfl hq ?_ (agrees_overlap hroll)
        rw [callStep, run_writing, hq]
        rfl

/-- **The cut is the source**: the statements of a call that runs alone, from
    its `BEGIN IMMEDIATE` on, do what the transaction of
    `insert_if_no_overlap` does, whichever of them raise. -/
theorem insertTransaction_eq_statements (cfg : Config) (c : Call) (w : Writer)
    (job : Job) (T : Table) (hroll : faults .rollback = none) :
    runTxn cfg c w faults 6 (.begin job) (.unlocked T)
      = some (.of (afterInsert job
            ((insertTransaction faults job maxActiveJobsPerUser).onTable T).1),
          .unlocked
            ((insertTransaction faults job maxActiveJobsPerUser).onTable T).2) := by
  cases hs : faults .beginImmediate with
  | some e =>
      have hbegin : beginImmediate faults (Conn.clean T)
          = (.error e, Conn.clean T) := run_statement_fault hs
      have hstep : callStep cfg c w faults (.unlocked T) (.begin job)
          = some (.returned (.error e), .unlocked T, []) := by
        rw [callStep, run_unlocked, hbegin]
        rfl
      have hwhole : insertTransaction faults job maxActiveJobsPerUser
          (Conn.clean T) = (.error e, Conn.clean T) := run_bind_error hbegin
      rw [Sql.onTable, hwhole, runTxn, hstep]
      rfl
  | none =>
      have hbegin := run_begin hs T
      obtain ⟨r, T', hr, hrun⟩ := agrees_count cfg c w job T hroll
      have hstep : callStep cfg c w faults (.unlocked T) (.begin job)
          = some (.count job, ⟨T, some (w, T)⟩, []) := by
        rw [callStep, run_unlocked, hbegin]
        rfl
      have hwhole : insertTransaction faults job maxActiveJobsPerUser
          (Conn.clean T) = (r, Conn.clean T') := by
        rw [insertTransaction, run_bind_ok hbegin, hr]
      rw [Sql.onTable, hwhole, runTxn, hstep]
      exact hrun

end Points

end JobStatements
