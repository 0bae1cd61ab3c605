import JobScheduling.JobModels
import JobScheduling.KeyedTable
import JobScheduling.Reservations
import Mathlib.Tactic.SplitIfs

/-! # The SQLite repository

    `SQLiteJobRepository` on three levels:

    * the SQL statements, as functions of the table they read or write
      (`sqlFindByIdempotency` … `sqlUpdateState`);
    * the repository methods, as programs over a connection that has committed
      rows, an open transaction or none, and statements that may raise
      (`Sql`, `insertIfNoOverlap`, `updateState`);
    * what a method does to the committed table when it runs on a connection
      with no open transaction and no statement fails
      (`insertTransaction_onTable`, `storeState_onTable`): `BEGIN IMMEDIATE`
      serialises writers, so this is one atomic step of the service.

    The insertion is cut where another thread can come in between: the
    transaction itself (`insertTransaction`), and the key lookup after the
    rollback of a failed one (`concludeInsert`). -/

namespace JobRepository

open JobConstants JobClock JobPayload JobModels KeyedTable Reservations

/-- A row of the `jobs` table; the job dicts of the code have the same keys. -/
structure Job where
  id : String
  userId : String
  assetId : String
  operation : PyStr
  startTime : String
  endTime : String
  state : String
  errorMessage : Option String
  idempotencyKey : String
  createdAt : String
  updatedAt : String
deriving DecidableEq, Repr

abbrev Table := List Job

/-- The bytes the BINARY collation compares texts by. -/
def collate (s : String) : List Nat :=
  s.toList.flatMap (fun c => (String.utf8EncodeChar c).map UInt8.toNat)

/-- `state IN (ACTIVE_STATES)`. -/
def Job.active (r : Job) : Bool := activeStates.contains r.state

/-- The columns of `UNIQUE(user_id, idempotency_key)`. -/
def Job.key (r : Job) : String × String := (r.userId, r.idempotencyKey)

/-! ## The statements -/

/-- `WHERE user_id = ? AND idempotency_key = ?`. -/
def sqlFindByIdempotency (T : Table) (userId key : String) : Option Job :=
  T.find? (fun r => r.key = (userId, key))

/-- `COUNT(*) … WHERE user_id = ? AND state IN (…)`. -/
def sqlCountActive (T : Table) (userId : String) : Nat :=
  T.countP (fun r => r.userId == userId && r.active)

/-- A stored row as a reservation of its asset, by collated time columns. -/
def reading : Reading Job String (List Nat) where
  resource := Job.assetId
  start r := collate r.startTime
  stop r := collate r.endTime
  held r := r.active = true

/-- The `WHERE` clause of the overlap query. -/
def overlapRow (assetId endTime startTime : String) (r : Job) : Bool :=
  r.assetId == assetId && r.active
    && decide (collate r.startTime < collate endTime)
    && decide (collate startTime < collate r.endTime)

/-- `SELECT 1 … WHERE asset_id = ? AND state IN (…) AND start_time < ? AND
    end_time > ?`. -/
def sqlCheckOverlap (T : Table) (assetId endTime startTime : String) :
    Option Job :=
  T.find? (overlapRow assetId endTime startTime)

/-- The row would violate the primary key or the UNIQUE constraint. -/
def violates (T : Table) (job : Job) : Bool :=
  T.any (fun r => r.id == job.id || r.key == job.key)

/-- `INSERT INTO jobs …`. -/
def sqlInsert (T : Table) (job : Job) : Except PyExc Table :=
  -- the parameters are bound before a constraint is looked at
  if job.operation.encodable = false then .error .UnicodeEncodeError
  else if violates T job then .error .IntegrityError
  else .ok (T ++ [job])

/-- The three ways an INSERT goes. -/
theorem sqlInsert_cases (T : Table) (job : Job) :
    (job.operation.encodable = false
        ∧ sqlInsert T job = .error .UnicodeEncodeError)
      ∨ (job.operation.encodable = true ∧ violates T job = true
        ∧ sqlInsert T job = .error .IntegrityError)
      ∨ (job.operation.encodable = true ∧ violates T job = false
        ∧ sqlInsert T job = .ok (T ++ [job])) := by
  rw [sqlInsert]
  cases henc : job.operation.encodable with
  | false => exact Or.inl ⟨rfl, if_pos rfl⟩
  | true =>
      rw [if_neg (fun h => Bool.noConfusion h)]
      cases hv : violates T job with
      | true => exact Or.inr (Or.inl ⟨rfl, rfl, if_pos rfl⟩)
      | false => exact Or.inr (Or.inr ⟨rfl, rfl, if_neg Bool.false_ne_true⟩)

/-- `SELECT * … WHERE id = ? AND user_id = ?`. -/
def sqlFindById (T : Table) (id userId : String) : Option Job :=
  T.find? (fun r => r.id == id && r.userId == userId)

/-- `SELECT * … WHERE id = ?`, for a bound parameter: NULL equals nothing. -/
def sqlFindByIdUnscoped (T : Table) : Option String → Option Job
  | some id => T.find? (fun r => r.id = id)
  | none => none

/-- The row with the three columns `update_state` sets. -/
def Job.setState (r : Job) (state : String) (errorMessage : Option String)
    (now : String) : Job :=
  { r with state := state, errorMessage := errorMessage, updatedAt := now }

/-- The table with the row of one id rewritten. -/
def setState (T : Table) (id state : String) (errorMessage : Option String)
    (now : String) : Table :=
  updateWhere (fun r => r.id == id)
    (fun r => r.setState state errorMessage now) T

/-- `UPDATE jobs SET state = ?, error_message = ?, updated_at = ? WHERE
    id = ?`, for bound parameters; `state` is NOT NULL. -/
def sqlUpdateState (T : Table) (state errorMessage : Option String)
    (now : String) : Option String → Except PyExc Table
  | none => .ok T
  | some id =>
      match state with
      | some st => .ok (setState T id st errorMessage now)
      | none =>
          -- NOT NULL is only checked where there is a row to update
          if T.any (fun r => r.id == id) then .error .IntegrityError else .ok T

/-! ## Connections -/

/-- A thread's connection: the committed rows it can see, and the working
    copy of its open transaction. -/
structure Conn where
  committed : Table
  txn : Option Table

/-- The rows the next statement on the connection sees. -/
def Conn.view (c : Conn) : Table := c.txn.getD c.committed

/-- A connection with no open transaction. -/
def Conn.clean (T : Table) : Conn := ⟨T, none⟩

/-- The implicit BEGIN of Python's default mode before an INSERT or UPDATE. -/
def Conn.openTxn (c : Conn) : Conn :=
  match c.txn with
  | some _ => c
  | none => { c with txn := some c.committed }

/-- Programs over one connection.  An exception keeps what was done to it. -/
abbrev Sql (α : Type) := ExceptT PyExc (StateM Conn) α

/-- The statements of the repository, as places a fault can hit. -/
inductive Stmt where
  | beginImmediate
  | countActive
  | checkOverlap
  | insert
  | findByIdempotencyKey
  | findByIdUnscoped
  | updateState
  | commit
  | rollback
deriving DecidableEq, Repr

/-- Which statements raise instead of taking effect. -/
abbrev Faults := Stmt → Option PyExc

def noFaults : Faults := fun _ => none

/-- Run a statement, or raise the fault that hits it. -/
def statement {α : Type} (faults : Faults) (s : Stmt)
    (run : Conn → Except PyExc (α × Conn)) : Sql α := fun c =>
  match faults s with
  | some e => (.error e, c)
  | none =>
      match run c with
      | .ok (a, c') => (.ok a, c')
      | .error e => (.error e, c)

/-- A SELECT. -/
def query {α : Type} (faults : Faults) (s : Stmt)
    (select : Table → Except PyExc α) : Sql α :=
  statement faults s (fun c => (select c.view).map (fun a => (a, c)))

/-- An INSERT or UPDATE: the implicit BEGIN comes first, and stays when the
    statement raises. -/
def modify (faults : Faults) (s : Stmt)
    (write : Table → Except PyExc Table) : Sql Unit := fun c =>
  statement faults s
    (fun c => (write c.view).map (fun T => ((), { c with txn := some T })))
    c.openTxn

def beginImmediate (faults : Faults) : Sql Unit :=
  statement faults .beginImmediate (fun c =>
    match c.txn with
    | some _ => .error .OperationalError
    | none => .ok ((), { c with txn := some c.committed }))

def commit (faults : Faults) : Sql Unit :=
  statement faults .commit (fun c => .ok ((), Conn.clean c.view))

def rollback (faults : Faults) : Sql Unit :=
  statement faults .rollback (fun c => .ok ((), Conn.clean c.committed))

/-! ## The methods -/

/-- `find_by_idempotency_key`. -/
def findByIdempotencyKey (faults : Faults) (userId key : String) :
    Sql (Option Job) :=
  query faults .findByIdempotencyKey
    (fun T => .ok (sqlFindByIdempotency T userId key))

/-- `find_by_id_unscoped`. -/
def findByIdUnscoped (faults : Faults) (jobId : Json) : Sql (Option Job) :=
  query faults .findByIdUnscoped
    (fun T => jobId.bindText.map (sqlFindByIdUnscoped T))

/-- How the transaction of `insert_if_no_overlap` ends. -/
inductive TxnOutcome where
  | created
  | overlap
  | maxActive
  | integrityError
deriving DecidableEq, Repr

/-- What `insert_if_no_overlap` returns. -/
inductive InsertOutcome where
  | created (job : Job)
  | overlap
  | maxActive
  | idempotent (existing : Job)
deriving DecidableEq, Repr

/-- `max_active_jobs > 0`, and the count has reached it. -/
def quotaReached (faults : Faults) (job : Job) (maxActiveJobs : Nat) :
    Sql Bool :=
  if maxActiveJobs > 0 then do
    let c ← query faults .countActive
      (fun T => .ok (sqlCountActive T job.userId))
    pure (decide (c ≥ maxActiveJobs))
  else pure false

/-- The `try` block of `insert_if_no_overlap`. -/
def insertBody (faults : Faults) (job : Job) (maxActiveJobs : Nat) :
    Sql TxnOutcome := do
  if ← quotaReached faults job maxActiveJobs then
    rollback faults
    pure .maxActive
  else
    let overlap ← query faults .checkOverlap
      (fun T => .ok (sqlCheckOverlap T job.assetId job.endTime job.startTime))
    if overlap.isSome then
      rollback faults
      pure .overlap
    else
      modify faults .insert (fun T => sqlInsert T job)
      commit faults
      pure .created

/-- Both `except` clauses roll back; only an `IntegrityError` goes on. -/
def insertExcept (faults : Faults) (e : PyExc) : Sql TxnOutcome := do
  rollback faults
  match e with
  | .IntegrityError => pure .integrityError
  -- the second clause raises again what it caught
  | e => throw e

/-- `insert_if_no_overlap` from `BEGIN IMMEDIATE` to commit or rollback. -/
def insertTransaction (faults : Faults) (job : Job) (maxActiveJobs : Nat) :
    Sql TxnOutcome := do
  beginImmediate faults
  tryCatch (insertBody faults job maxActiveJobs) (insertExcept faults)

/-- The rest of `insert_if_no_overlap`: after an `IntegrityError` the key is
    looked up again, outside the transaction. -/
def concludeInsert (faults : Faults) (job : Job) :
    TxnOutcome → Sql InsertOutcome
  | .created => pure (.created job)
  | .overlap => pure .overlap
  | .maxActive => pure .maxActive
  | .integrityError => do
      match ← findByIdempotencyKey faults job.userId job.idempotencyKey with
      | some existing => pure (.idempotent existing)
      | none => throw .IntegrityError

/-- `insert_if_no_overlap`. -/
def insertIfNoOverlap (faults : Faults) (job : Job) (maxActiveJobs : Nat) :
    Sql InsertOutcome := do
  let outcome ← insertTransaction faults job maxActiveJobs
  concludeInsert faults job outcome

/-- `update_state` up to its commit. -/
def storeState (faults : Faults) (jobId state errorMessage : Json)
    (now : Datetime) : Sql Unit := do
  -- parameters are bound from left to right, and may not bind
  modify faults .updateState (fun T => do
    let st ← state.bindText
    let err ← errorMessage.bindText
    let id ← jobId.bindText
    sqlUpdateState T st err now.strftime id)
  commit faults

/-- `update_state`. -/
def updateState (faults : Faults) (jobId state errorMessage : Json)
    (now : Datetime) : Sql (Option Job) := do
  storeState faults jobId state errorMessage now
  findByIdUnscoped faults jobId

/-! ## One method on the committed table -/

/-- Run a program on a connection with no open transaction, and keep what it
    committed. -/
def Sql.onTable {α : Type} (m : Sql α) (T : Table) : Except PyExc α × Table :=
  ((m (Conn.clean T)).1, (m (Conn.clean T)).2.committed)

/-! ### How a program runs -/

section SqlPrograms

variable {α β : Type}

theorem run_pure (a : α) (c : Conn) : (pure a : Sql α) c = (.ok a, c) := rfl

/-- A program that returned is followed by the next one. -/
theorem run_bind_ok {m : Sql α} {f : α → Sql β} {c c' : Conn} {a : α}
    (h : m c = (.ok a, c')) : (m >>= f) c = f a c' := by
  show (ExceptT.bind m f : Sql β) c = f a c'
  simp [ExceptT.bind, ExceptT.mk, bind, StateT.bind, h, ExceptT.bindCont]

theorem run_bind_error {m : Sql α} {f : α → Sql β} {c c' : Conn} {e : PyExc}
    (h : m c = (.error e, c')) : (m >>= f) c = (.error e, c') := by
  show (ExceptT.bind m f : Sql β) c = (.error e, c')
  simp only [ExceptT.bind, ExceptT.mk, bind, StateT.bind, h, ExceptT.bindCont]
  rfl

theorem run_tryCatch_ok {m : Sql α} {f : PyExc → Sql α} {c c' : Conn} {a : α}
    (h : m c = (.ok a, c')) : (tryCatch m f : Sql α) c = (.ok a, c') := by
  show (ExceptT.tryCatch m f : Sql α) c = (.ok a, c')
  simp only [ExceptT.tryCatch, ExceptT.mk, bind, StateT.bind, h]
  rfl

/-- An `except` clause starts in the state in which it was raised. -/
theorem run_tryCatch_error {m : Sql α} {f : PyExc → Sql α} {c c' : Conn}
    {e : PyExc} (h : m c = (.error e, c')) :
    (tryCatch m f : Sql α) c = f e c' := by
  show (ExceptT.tryCatch m f : Sql α) c = f e c'
  simp [ExceptT.tryCatch, ExceptT.mk, bind, StateT.bind, h]

end SqlPrograms

/-! ### Statements that no fault hits -/

section NoFault

variable {α : Type} {faults : Faults} {s : Stmt} {c : Conn}

/-- A statement that is not hit does what it says. -/
theorem run_statement_ok {run : Conn → Except PyExc (α × Conn)} {a : α}
    {c' : Conn} (hs : faults s = none) (h : run c = .ok (a, c')) :
    statement faults s run c = (.ok a, c') := by
  simp only [statement, hs, h]

/-- A statement that raises by itself leaves the connection as it was. -/
theorem run_statement_error {run : Conn → Except PyExc (α × Conn)}
    {e : PyExc} (hs : faults s = none) (h : run c = .error e) :
    statement faults s run c = (.error e, c) := by
  simp only [statement, hs, h]

/-- A query reads what the connection sees, and changes nothing. -/
theorem run_query_ok {select : Table → Except PyExc α} {a : α}
    (hs : faults s = none) (h : select c.view = .ok a) :
    query faults s select c = (.ok a, c) :=
  run_statement_ok hs (by rw [h]; rfl)

theorem run_query_error {select : Table → Except PyExc α} {e : PyExc}
    (hs : faults s = none) (h : select c.view = .error e) :
    query faults s select c = (.error e, c) :=
  run_statement_error hs (by rw [h]; rfl)

/-- A write goes to the open transaction, which it opens if need be. -/
theorem run_modify_ok {write : Table → Except PyExc Table} {T : Table}
    (hs : faults s = none) (h : write c.openTxn.view = .ok T) :
    modify faults s write c = (.ok (), { c.openTxn with txn := some T }) :=
  run_statement_ok hs (by rw [h]; rfl)

/-- A write that raises leaves that transaction open. -/
theorem run_modify_error {write : Table → Except PyExc Table} {e : PyExc}
    (hs : faults s = none) (h : write c.openTxn.view = .error e) :
    modify faults s write c = (.error e, c.openTxn) :=
  run_statement_error hs (by rw [h]; rfl)

/-- `BEGIN IMMEDIATE` starts from the committed rows. -/
theorem run_begin (hs : faults .beginImmediate = none) (T : Table) :
    beginImmediate faults (Conn.clean T) = (.ok (), ⟨T, some T⟩) :=
  run_statement_ok hs rfl

/-- A commit makes what the connection sees the committed rows. -/
theorem run_commit (hs : faults .commit = none) (c : Conn) :
    commit faults c = (.ok (), Conn.clean c.view) :=
  run_statement_ok hs rfl

/-- A rollback forgets what was written since the transaction began. -/
theorem run_rollback (hs : faults .rollback = none) (c : Conn) :
    rollback faults c = (.ok (), Conn.clean c.committed) :=
  run_statement_ok hs rfl

end NoFault

/-- The quota check counts the rows of the transaction, and only if there is a
    maximum. -/
theorem run_quotaReached (T : Table) (job : Job) (m : Nat) :
    quotaReached noFaults job m ⟨T, some T⟩
      = (.ok (decide (0 < m ∧ m ≤ sqlCountActive T job.userId)), ⟨T, some T⟩) := by
  by_cases hm : m > 0
  · have hq : query noFaults .countActive
        (fun T => .ok (sqlCountActive T job.userId)) ⟨T, some T⟩
        = (.ok (sqlCountActive T job.userId), ⟨T, some T⟩) :=
      run_query_ok rfl rfl
    rw [quotaReached, if_pos hm, run_bind_ok hq, run_pure]
    have hp : (0 < m ∧ m ≤ sqlCountActive T job.userId)
        ↔ sqlCountActive T job.userId ≥ m := ⟨fun h => h.2, fun h => ⟨hm, h⟩⟩
    rw [decide_eq_decide.mpr hp]
  · rw [quotaReached, if_neg hm, run_pure]
    have hp : ¬ (0 < m ∧ m ≤ sqlCountActive T job.userId) := fun h => hm h.1
    rw [decide_eq_false hp]

/-- The `except` clauses roll back what an INSERT that raises left open. -/
theorem run_insertExcept (e : PyExc) (T W : Table) :
    insertExcept noFaults e ⟨T, some W⟩
      = (if e = .IntegrityError then .ok .integrityError else .error e,
          Conn.clean T) := by
  have hroll : rollback noFaults ⟨T, some W⟩ = (.ok (), Conn.clean T) :=
    run_rollback rfl _
  by_cases he : e = .IntegrityError
  · rw [he, insertExcept, run_bind_ok hroll]
    rfl
  · rw [insertExcept, run_bind_ok hroll, if_neg he]
    · rfl
    · exact he

/-- The transaction of an insertion ends with no open transaction: the quota
    is checked first, then the overlap, then whether the row can be bound, and
    only then the constraints of the insertion itself. -/
theorem run_insertTransaction (T : Table) (job : Job) (m : Nat) :
    insertTransaction noFaults job m (Conn.clean T)
      = if 0 < m ∧ m ≤ sqlCountActive T job.userId then
          (.ok .maxActive, Conn.clean T)
        else if (sqlCheckOverlap T job.assetId job.endTime job.startTime).isSome
          then (.ok .overlap, Conn.clean T)
        else if job.operation.encodable = false then
          (.error .UnicodeEncodeError, Conn.clean T)
        else if violates T job then (.ok .integrityError, Conn.clean T)
        else (.ok .created, Conn.clean (T ++ [job])) := by
  have hrun : insertTransaction noFaults job m (Conn.clean T)
      = tryCatch (insertBody noFaults job m) (insertExcept noFaults)
          (⟨T, some T⟩ : Conn) := run_bind_ok (run_begin rfl T)
  have hquota := run_quotaReached T job m
  have hover : query noFaults .checkOverlap
      (fun T => .ok (sqlCheckOverlap T job.assetId job.endTime job.startTime))
      ⟨T, some T⟩
      = (.ok (sqlCheckOverlap T job.assetId job.endTime job.startTime),
          ⟨T, some T⟩) := run_query_ok rfl rfl
  rw [hrun]
  by_cases hq : 0 < m ∧ m ≤ sqlCountActive T job.userId
  · have hbody : insertBody noFaults job m ⟨T, some T⟩
        = (.ok .maxActive, Conn.clean T) := by
      rw [decide_eq_true hq] at hquota
      rw [insertBody, run_bind_ok hquota, if_pos rfl,
        run_bind_ok (run_rollback rfl _), run_pure]
    rw [run_tryCatch_ok hbody, if_pos hq]
  · rw [decide_eq_false hq] at hquota
    rw [if_neg hq]
    by_cases ho : (sqlCheckOverlap T job.assetId job.endTime
        job.startTime).isSome = true
    · have hbody : insertBody noFaults job m ⟨T, some T⟩
          = (.ok .overlap, Conn.clean T) := by
        rw [insertBody, run_bind_ok hquota, if_neg Bool.false_ne_true,
          run_bind_ok hover, if_pos ho, run_bind_ok (run_rollback rfl _),
          run_pure]
      rw [run_tryCatch_ok hbody, if_pos ho]
    · rw [if_neg ho]
      -- an INSERT that raises ends the `try` block
      have hraised : ∀ e, sqlInsert T job = .error e →
          insertBody noFaults job m ⟨T, some T⟩ = (.error e, ⟨T, some T⟩) := by
        intro e he
        have hins : modify noFaults .insert (fun T => sqlInsert T job)
            ⟨T, some T⟩ = (.error e, ⟨T, some T⟩) := run_modify_error rfl he
        rw [insertBody, run_bind_ok hquota, if_neg Bool.false_ne_true,
          run_bind_ok hover, if_neg ho, run_bind_error hins]
      rcases sqlInsert_cases T job with
        ⟨henc, hins⟩ | ⟨henc, hv, hins⟩ | ⟨henc, hv, hins⟩
      · rw [run_tryCatch_error (hraised _ hins), run_insertExcept, if_pos henc]
        rfl
      · rw [run_tryCatch_error (hraised _ hins), run_insertExcept, henc,
          if_neg (fun h => Bool.noConfusion h), if_pos hv]
        rfl
      · have hmod : modify noFaults .insert (fun T => sqlInsert T job)
            ⟨T, some T⟩ = (.ok (), ⟨T, some (T ++ [job])⟩) :=
          run_modify_ok rfl hins
        have hbody : insertBody noFaults job m ⟨T, some T⟩
            = (.ok .created, Conn.clean (T ++ [job])) := by
          rw [insertBody, run_bind_ok hquota, if_neg Bool.false_ne_true,
            run_bind_ok hover, if_neg ho, run_bind_ok hmod,
            run_bind_ok (run_commit rfl _), run_pure]
          rfl
        rw [run_tryCatch_ok hbody, henc, if_neg (fun h => Bool.noConfusion h), hv,
          if_neg Bool.false_ne_true]

/-- The transaction of an insertion, as one step on the committed table. -/
theorem insertTransaction_onTable (T : Table) (job : Job) (m : Nat) :
    (insertTransaction noFaults job m).onTable T
      = if 0 < m ∧ m ≤ sqlCountActive T job.userId then (.ok .maxActive, T)
        else if (sqlCheckOverlap T job.assetId job.endTime job.startTime).isSome
          then (.ok .overlap, T)
        else if job.operation.encodable = false then (.error .UnicodeEncodeError, T)
        else if violates T job then (.ok .integrityError, T)
        else (.ok .created, T ++ [job]) := by
  rw [Sql.onTable, run_insertTransaction]
  split_ifs <;> rfl

/-- A program whose first part leaves no open transaction runs as its two
    parts, one after the other, on the committed table. -/
theorem onTable_bind {α β : Type} {m : Sql α} {f : α → Sql β} {T T' : Table}
    {a : α} (h : m (Conn.clean T) = (.ok a, Conn.clean T')) :
    (m >>= f).onTable T = (f a).onTable T' := by
  rw [Sql.onTable, run_bind_ok h]
  rfl

/-- The key lookup after a rolled-back transaction reads the committed rows
    of its own moment. -/
theorem concludeInsert_integrityError (T : Table) (job : Job) :
    (concludeInsert noFaults job .integrityError).onTable T
      = match sqlFindByIdempotency T job.userId job.idempotencyKey with
        | some existing => (.ok (.idempotent existing), T)
        | none => (.error .IntegrityError, T) := by
  have hq : findByIdempotencyKey noFaults job.userId job.idempotencyKey
      (Conn.clean T)
      = (.ok (sqlFindByIdempotency T job.userId job.idempotencyKey),
          Conn.clean T) := run_query_ok rfl rfl
  rw [Sql.onTable, concludeInsert, run_bind_ok hq]
  cases sqlFindByIdempotency T job.userId job.idempotencyKey with
  | some existing => rfl
  | none => rfl

/-- The lookup by id raises exactly when its parameter does not bind. -/
theorem findByIdUnscoped_onTable (T : Table) (jobId : Json) :
    (findByIdUnscoped noFaults jobId).onTable T
      = match jobId.bindText with
        | .ok id => (.ok (sqlFindByIdUnscoped T id), T)
        | .error e => (.error e, T) := by
  rw [Sql.onTable]
  cases hb : jobId.bindText with
  | ok id =>
      have hq : findByIdUnscoped noFaults jobId (Conn.clean T)
          = (.ok (sqlFindByIdUnscoped T id), Conn.clean T) :=
        run_query_ok rfl (by rw [hb]; rfl)
      rw [hq]
      rfl
  | error e =>
      have hq : findByIdUnscoped noFaults jobId (Conn.clean T)
          = (.error e, Conn.clean T) := run_query_error rfl (by rw [hb]; rfl)
      rw [hq]
      rfl

/-- `insert_if_no_overlap` as a whole, on the committed table. -/
theorem insertIfNoOverlap_onTable (T : Table) (job : Job) (m : Nat) :
    (insertIfNoOverlap noFaults job m).onTable T
      = if 0 < m ∧ m ≤ sqlCountActive T job.userId then (.ok .maxActive, T)
        else if (sqlCheckOverlap T job.assetId job.endTime job.startTime).isSome
          then (.ok .overlap, T)
        else if job.operation.encodable = false then (.error .UnicodeEncodeError, T)
        else if violates T job then
          match sqlFindByIdempotency T job.userId job.idempotencyKey with
          | some existing => (.ok (.idempotent existing), T)
          | none => (.error .IntegrityError, T)
        else (.ok (.created job), T ++ [job]) := by
  have hrun := run_insertTransaction T job m
  rw [insertIfNoOverlap]
  split_ifs at hrun ⊢ with hq ho henc hv
  · rw [onTable_bind hrun]
    rfl
  · rw [onTable_bind hrun]
    rfl
  · rw [Sql.onTable, run_bind_error hrun]
    rfl
  · rw [onTable_bind hrun]
    exact concludeInsert_integrityError T job
  · rw [onTable_bind hrun]
    rfl

/-- `update_state` up to its commit, for parameters that bind. -/
theorem run_storeState {T : Table} {jobId state errorMessage : Json}
    {id st : String} {err : Option String} (now : Datetime)
    (hid : jobId.bindText = .ok (some id))
    (hst : state.bindText = .ok (some st))
    (herr : errorMessage.bindText = .ok err) :
    storeState noFaults jobId state errorMessage now (Conn.clean T)
      = (.ok (), Conn.clean (setState T id st err now.strftime)) := by
  have hmod : modify noFaults .updateState (fun T => do
      let st ← state.bindText
      let err ← errorMessage.bindText
      let id ← jobId.bindText
      sqlUpdateState T st err now.strftime id) (Conn.clean T)
      = (.ok (), ⟨T, some (setState T id st err now.strftime)⟩) := by
    refine run_modify_ok rfl ?_
    rw [hid, hst, herr]
    rfl
  rw [storeState, run_bind_ok hmod, run_commit rfl]
  rfl

/-- An error text that cannot be bound makes `update_state` raise after its
    implicit BEGIN and before anything is committed. -/
theorem run_storeState_error {T : Table} {jobId state errorMessage : Json}
    {st : Option String} {e : PyExc} (now : Datetime)
    (hst : state.bindText = .ok st)
    (herr : errorMessage.bindText = .error e) :
    storeState noFaults jobId state errorMessage now (Conn.clean T)
      = (.error e, ⟨T, some T⟩) := by
  have hmod : modify noFaults .updateState (fun T => do
      let st ← state.bindText
      let err ← errorMessage.bindText
      let id ← jobId.bindText
      sqlUpdateState T st err now.strftime id) (Conn.clean T)
      = (.error e, ⟨T, some T⟩) := by
    refine run_modify_error rfl ?_
    rw [hst, herr]
    rfl
  rw [storeState, run_bind_error hmod]

end JobRepository
