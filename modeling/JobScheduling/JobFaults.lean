import JobScheduling.JobLedger
import JobScheduling.Endings

/-! # Writes under faults

    `insert_if_no_overlap` and `update_state` on a connection whose statements
    may raise.  Every statement has one rule: how it ends when a fault hits
    it, and how it ends when none does.

    * `insertIfNoOverlap_allOrNothing` — the insertion rolls back on every way
      out but its commit;
    * `updateState_atomic_iff` — the update has no rollback: it is atomic
      exactly when nothing in it raises. -/

namespace JobFaults

open JobConstants JobClock JobPayload JobModels JobRepository JobOrchestrator
open JobService JobLedger Endings

/-! ## The statements -/

section Statements

variable {α : Type} {faults : Faults} {s : Stmt} {c : Conn}
variable {Q : α → Conn → Prop} {E : PyExc → Conn → Prop}

/-- A statement that is hit raises, and leaves the connection as it was. -/
theorem run_statement_fault {run : Conn → Except PyExc (α × Conn)} {e : PyExc}
    (hs : faults s = some e) : statement faults s run c = (.error e, c) := by
  simp only [statement, hs]

/-- A statement may be hit, raise by itself, or run. -/
theorem ends_statement {run : Conn → Except PyExc (α × Conn)}
    (hfault : ∀ e, faults s = some e → E e c)
    (herror : ∀ e, run c = .error e → E e c)
    (hok : ∀ p, run c = .ok p → Q p.1 p.2) :
    Ends Q E (statement faults s run c) := by
  rw [statement]
  cases hs : faults s with
  | some e => exact hfault e hs
  | none =>
      cases hr : run c with
      | error e => exact herror e hr
      | ok p => exact hok p hr

/-- A statement that only a fault makes raise. -/
theorem ends_statement_ok {run : Conn → Except PyExc (α × Conn)} {a : α}
    {c' : Conn} (hfault : ∀ e, faults s = some e → E e c)
    (hrun : run c = .ok (a, c')) (hok : Q a c') :
    Ends Q E (statement faults s run c) := by
  refine ends_statement hfault ?_ ?_
  · intro e h
    rw [hrun] at h
    cases h
  · intro p h
    rw [hrun] at h
    rw [← Except.ok.inj h]
    exact hok

/-- A SELECT changes nothing, whether it raises or not. -/
theorem ends_query {select : Table → α}
    (hfault : ∀ e, faults s = some e → E e c) (hok : Q (select c.view) c) :
    Ends Q E (query faults s (fun T => .ok (select T)) c) :=
  ends_statement_ok hfault rfl hok

/-- An INSERT or UPDATE opens a transaction where there is none, and a failing
    one leaves it open. -/
theorem ends_modify {write : Table → Except PyExc Table}
    {R : Unit → Conn → Prop}
    (hraise : ∀ e, E e c.openTxn)
    (hok : ∀ T, write c.openTxn.view = .ok T →
      R () { c.openTxn with txn := some T }) :
    Ends R E (modify faults s write c) := by
  refine ends_statement (fun e _ => hraise e) (fun e _ => hraise e) ?_
  intro p h
  cases hw : write c.openTxn.view with
  | error e =>
      rw [hw] at h
      cases h
  | ok T =>
      rw [hw] at h
      rw [← Except.ok.inj h]
      exact hok T hw

/-- `BEGIN IMMEDIATE` opens a transaction, or nothing has happened. -/
theorem ends_begin {T : Table} {R : Unit → Conn → Prop}
    (hfault : ∀ e, faults .beginImmediate = some e → E e (Conn.clean T))
    (hok : R () ⟨T, some T⟩) :
    Ends R E (beginImmediate faults (Conn.clean T)) :=
  ends_statement_ok hfault rfl hok

/-- A commit takes effect as a whole, or not at all. -/
theorem ends_commit {R : Unit → Conn → Prop}
    (hfault : ∀ e, faults .commit = some e → E e c)
    (hok : R () (Conn.clean c.view)) : Ends R E (commit faults c) :=
  ends_statement_ok hfault rfl hok

/-- A rollback that is not hit forgets the transaction. -/
theorem ends_rollback {R : Unit → Conn → Prop}
    (hs : faults .rollback = none) (hok : R () (Conn.clean c.committed)) :
    Ends R E (rollback faults c) := by
  rw [run_rollback hs]
  exact hok

end Statements

/-! ## The insertion -/

/-- How the transaction of an insertion leaves the connection. -/
def TxnEnds (T : Table) (job : Job) : TxnOutcome → Conn → Prop
  | .created, c => c = Conn.clean (T ++ [job])
  | .overlap, c => c = Conn.clean T
  | .maxActive, c => c = Conn.clean T
  | .integrityError, c => c = Conn.clean T

/-- How the insertion leaves the connection. -/
def InsertEnds (T : Table) (job : Job) : InsertOutcome → Conn → Prop
  | .created job', c => job' = job ∧ c = Conn.clean (T ++ [job])
  | .overlap, c => c = Conn.clean T
  | .maxActive, c => c = Conn.clean T
  | .idempotent existing, c =>
      c = Conn.clean T ∧ existing ∈ T ∧ existing.key = job.key

section Insertion

variable {faults : Faults} {T : Table} {job : Job} {m : Nat}

/-- The quota check writes nothing, whatever hits it. -/
theorem ends_quotaReached :
    Ends (fun _ c => c = ⟨T, some T⟩) (fun _ c => c.committed = T)
      (quotaReached faults job m ⟨T, some T⟩) := by
  rw [quotaReached]
  by_cases hm : m > 0
  · rw [if_pos hm]
    refine ends_bind (ends_query (fun e _ => rfl) ?_)
    exact ends_pure rfl
  · rw [if_neg hm]
    exact ends_pure rfl

/-- Whatever raises in the `try` block, nothing of it is committed. -/
theorem ends_insertBody (hroll : faults .rollback = none) :
    Ends (TxnEnds T job) (fun _ c => c.committed = T)
      (insertBody faults job m ⟨T, some T⟩) := by
  rw [insertBody]
  refine ends_bind (ends_quotaReached.mono ?_ (fun _ _ h => h))
  rintro full c rfl
  cases full with
  | true =>
      rw [if_pos rfl]
      exact ends_bind (ends_rollback hroll (ends_pure rfl))
  | false =>
      rw [if_neg Bool.false_ne_true]
      refine ends_bind (ends_query (fun e _ => rfl) ?_)
      by_cases ho : (sqlCheckOverlap T job.assetId job.endTime
          job.startTime).isSome = true
      · rw [Conn.view, Option.getD_some, if_pos ho]
        exact ends_bind (ends_rollback hroll (ends_pure rfl))
      · rw [Conn.view, Option.getD_some, if_neg ho]
        refine ends_bind (ends_modify (fun e => rfl) ?_)
        intro T' hT'
        have hins : T' = T ++ [job] := by
          have hwritten : sqlInsert T job = .ok T' := hT'
          rcases sqlInsert_cases T job with ⟨-, heq⟩ | ⟨-, -, heq⟩ | ⟨-, -, heq⟩
          · rw [heq] at hwritten
            cases hwritten
          · rw [heq] at hwritten
            cases hwritten
          · exact (Except.ok.inj (heq.symm.trans hwritten)).symm
        refine ends_bind (ends_commit (fun e _ => rfl) (ends_pure ?_))
        rw [hins]
        rfl

/-- Both `except` clauses end the transaction. -/
theorem ends_insertExcept (hroll : faults .rollback = none) (e : PyExc)
    {c : Conn} (hc : c.committed = T) :
    Ends (TxnEnds T job) (fun _ c => c = Conn.clean T)
      (insertExcept faults e c) := by
  by_cases he : e = .IntegrityError
  · rw [he, insertExcept]
    refine ends_bind (ends_rollback hroll ?_)
    rw [hc]
    exact ends_pure rfl
  · rw [insertExcept]
    · refine ends_bind (ends_rollback hroll ?_)
      rw [hc]
      exact ends_throw rfl
    · exact he

/-- The insert transaction, whatever hits it: one row or none, and no
    transaction is left open. -/
theorem ends_insertTransaction (hroll : faults .rollback = none) :
    Ends (TxnEnds T job) (fun _ c => c = Conn.clean T)
      (insertTransaction faults job m (Conn.clean T)) := by
  rw [insertTransaction]
  refine ends_bind (ends_begin (fun e _ => rfl) ?_)
  refine ends_tryCatch ((ends_insertBody hroll).mono (fun _ _ h => h) ?_)
  intro e c hc
  exact ends_insertExcept hroll e hc

/-- The same of the whole method, the key lookup after an IntegrityError
    included. -/
theorem ends_insertIfNoOverlap (hroll : faults .rollback = none) :
    Ends (InsertEnds T job) (fun _ c => c = Conn.clean T)
      (insertIfNoOverlap faults job m (Conn.clean T)) := by
  rw [insertIfNoOverlap]
  refine ends_bind ((ends_insertTransaction hroll).mono ?_ (fun _ _ h => h))
  intro outcome c hc
  cases outcome with
  | created => exact ends_pure ⟨rfl, hc⟩
  | overlap => exact ends_pure hc
  | maxActive => exact ends_pure hc
  | integrityError =>
      have hclean : c = Conn.clean T := hc
      rw [hclean, concludeInsert]
      -- the key is looked up again, in the rows that were there before
      refine ends_bind (ends_query (fun e _ => rfl) ?_)
      cases hf : sqlFindByIdempotency (Conn.clean T).view job.userId
          job.idempotencyKey with
      | none => exact ends_throw rfl
      | some existing =>
          obtain ⟨hmem, hkey⟩ := sqlFindByIdempotency_some hf
          exact ends_pure ⟨rfl, hmem, hkey⟩

end Insertion

/-- **The insertion is all or nothing**: whatever statement raises, and
    whatever it raises, no transaction stays open, the row is committed exactly
    when `created` is returned, and any other way out leaves the table as it
    was; `idempotent` comes only with a committed row of the same key. -/
theorem insertIfNoOverlap_allOrNothing (faults : Faults)
    (hrollback : faults .rollback = none) (T : Table) (job : Job) (m : Nat)
    (result : Except PyExc InsertOutcome) (c : Conn)
    (h : insertIfNoOverlap faults job m (Conn.clean T) = (result, c)) :
    c.txn = none
      ∧ (result = .ok (.created job) ↔ c.committed = T ++ [job])
      ∧ ((∀ job', result ≠ .ok (.created job')) → c.committed = T)
      ∧ (∀ job', result = .ok (.created job') → job' = job)
      ∧ (∀ existing, result = .ok (.idempotent existing) →
          existing ∈ T ∧ existing.key = (job.userId, job.idempotencyKey)) := by
  have hends : Ends (InsertEnds T job) (fun _ c => c = Conn.clean T) (result, c) := by
    rw [← h]
    exact ends_insertIfNoOverlap hrollback
  have hne : T ≠ T ++ [job] := by
    intro heq
    exact absurd (List.self_eq_append_right.mp heq) (List.cons_ne_nil _ _)
  -- on every way out but `created` the connection is as it was
  have hold : c = Conn.clean T → (∀ job', result ≠ .ok (.created job')) →
      c.txn = none ∧ (result = .ok (.created job) ↔ c.committed = T ++ [job])
        ∧ ((∀ job', result ≠ .ok (.created job')) → c.committed = T)
        ∧ (∀ job', result = .ok (.created job') → job' = job) := by
    intro hc hres
    rw [hc]
    exact ⟨rfl, ⟨fun heq => absurd heq (hres job), fun heq => absurd heq hne⟩,
      fun _ => rfl, fun job' heq => absurd heq (hres job')⟩
  cases result with
  | error e =>
      obtain ⟨htxn, hiff, htab, hjob⟩ := hold hends (fun job' heq => by cases heq)
      exact ⟨htxn, hiff, htab, hjob, fun existing heq => by cases heq⟩
  | ok outcome =>
      cases outcome with
      | created job' =>
          obtain ⟨hjob, hc⟩ : job' = job ∧ c = Conn.clean (T ++ [job]) := hends
          rw [hc, hjob]
          exact ⟨rfl, ⟨fun _ => rfl, fun _ => rfl⟩,
            fun hres => absurd rfl (hres job),
            fun job'' heq => by cases heq; rfl,
            fun existing heq => by cases heq⟩
      | overlap =>
          obtain ⟨htxn, hiff, htab, hjob⟩ :=
            hold hends (fun job' heq => by cases heq)
          exact ⟨htxn, hiff, htab, hjob, fun existing heq => by cases heq⟩
      | maxActive =>
          obtain ⟨htxn, hiff, htab, hjob⟩ :=
            hold hends (fun job' heq => by cases heq)
          exact ⟨htxn, hiff, htab, hjob, fun existing heq => by cases heq⟩
      | idempotent found =>
          obtain ⟨hc, hmem, hkey⟩ : c = Conn.clean T ∧ found ∈ T
            ∧ found.key = job.key := hends
          obtain ⟨htxn, hiff, htab, hjob⟩ :=
            hold hc (fun job' heq => by cases heq)
          refine ⟨htxn, hiff, htab, hjob, ?_⟩
          intro existing heq
          cases heq
          exact ⟨hmem, hkey⟩

/-- A database that is locked when the transaction commits. -/
def lockedAtCommit : Faults
  | .commit => some .OperationalError
  | _ => none

/-- The job of the concrete runs. -/
def charging : Job := newJob (booking "alice" "key-1" "job-1" "asset-001"
  (february 2 10) (february 2 12) .handed)

/-- The same insertion into the same table, created where nothing raises and
    rolled back where the commit does. -/
theorem insertIfNoOverlap_lockedAtCommit :
    ((insertIfNoOverlap lockedAtCommit charging 10 (Conn.clean [])).1
          = .error .OperationalError
        ∧ (insertIfNoOverlap lockedAtCommit charging 10 (Conn.clean [])).2.txn = none
        ∧ (insertIfNoOverlap lockedAtCommit charging 10
          (Conn.clean [])).2.committed = [])
      ∧ (insertIfNoOverlap noFaults charging 10 (Conn.clean [])).1
          = .ok (.created charging)
        ∧ (insertIfNoOverlap noFaults charging 10 (Conn.clean [])).2.txn = none
        ∧ (insertIfNoOverlap noFaults charging 10 (Conn.clean [])).2.committed
          = [charging] := by
  have hlocked := insertIfNoOverlap_allOrNothing lockedAtCommit rfl [] charging 10
    (.error .OperationalError) _ rfl
  have hcreated := insertIfNoOverlap_allOrNothing noFaults rfl [] charging 10
    (.ok (.created charging)) _ rfl
  exact ⟨⟨rfl, hlocked.1, hlocked.2.2.1 (fun job' heq => by cases heq)⟩,
    rfl, hcreated.1, hcreated.2.1.mp rfl⟩

/-! ## The update -/

/-- What `update_state` may do to a row: exactly the named one gets the three
    columns, and keeps its others. -/
def Rewrites (jobId state errorMessage : Json) (now : Datetime)
    (row row' : Job) : Prop :=
  (jobId.bindText = .ok (some row.id) →
      state.bindText = .ok (some row'.state)
        ∧ errorMessage.bindText = .ok row'.errorMessage
        ∧ row'.updatedAt = now.strftime
        ∧ SameJob row row')
    ∧ (jobId.bindText ≠ .ok (some row.id) → row' = row)

/-- All or nothing: no transaction stays open, and the table is the old one
    where the call raised, else the old one with the named row rewritten. -/
structure AtomicUpdate (T : Table) (jobId state errorMessage : Json)
    (now : Datetime) (result : Except PyExc (Option Job)) (c : Conn) :
    Prop where
  closed : c.txn = none
  raised : ∀ e, result = .error e → c.committed = T
  returned : ∀ row, result = .ok row →
    List.Forall₂ (Rewrites jobId state errorMessage now) T c.committed

/-- Neither statement of the update raises: no fault hits it, its three
    parameters bind, and it does not set the state of a row to NULL. -/
structure UpdateRuns (faults : Faults) (T : Table)
    (jobId state errorMessage : Json) : Prop where
  update : faults .updateState = none
  commit : faults .commit = none
  bindsState : state.bindable = true
  bindsError : errorMessage.bindable = true
  bindsId : jobId.bindable = true
  notNull : state.bindText = .ok none →
    ∀ r ∈ T, jobId.bindText ≠ .ok (some r.id)

section Update

variable {faults : Faults} {T : Table} {jobId state errorMessage : Json}
variable {now : Datetime}

/-- The UPDATE of one named row rewrites exactly that row. -/
theorem forall₂_setState {id st : String} {err : Option String}
    (hid : jobId.bindText = .ok (some id))
    (hst : state.bindText = .ok (some st))
    (herr : errorMessage.bindText = .ok err) :
    List.Forall₂ (Rewrites jobId state errorMessage now) T
      (setState T id st err now.strftime) := by
  rw [setState, KeyedTable.updateWhere, List.forall₂_map_right_iff,
    List.forall₂_same]
  intro r _
  rw [Rewrites, hid]
  by_cases hr : r.id = id
  · rw [hr, beq_self_eq_true, if_pos rfl]
    exact ⟨fun _ => ⟨hst, herr, rfl, sameJob_setState r st err now.strftime⟩,
      fun hne => absurd rfl hne⟩
  · rw [beq_false_of_ne hr, if_neg Bool.false_ne_true]
    refine ⟨fun heq => absurd ?_ hr, fun _ => rfl⟩
    exact (Option.some.inj (Except.ok.inj heq)).symm

/-- The rows the UPDATE writes, or what it raises: the parameters are bound
    first, then the NOT NULL constraint is checked. -/
def writtenRows (T : Table) (jobId state errorMessage : Json)
    (now : Datetime) : Except PyExc Table := do
  let st ← state.bindText
  let err ← errorMessage.bindText
  let id ← jobId.bindText
  sqlUpdateState T st err now.strftime id

/-- The update and its commit, as two statements. -/
theorem storeState_eq :
    storeState faults jobId state errorMessage now
      = (modify faults .updateState
          (fun T => writtenRows T jobId state errorMessage now)
        >>= fun _ => commit faults) := rfl

/-- An UPDATE that may run rewrites exactly the named row. -/
theorem writtenRows_ok (now : Datetime)
    (hrun : UpdateRuns faults T jobId state errorMessage) :
    ∃ T', writtenRows T jobId state errorMessage now = .ok T'
      ∧ List.Forall₂ (Rewrites jobId state errorMessage now) T T' := by
  obtain ⟨st, hst⟩ := bindable_iff.mp hrun.bindsState
  obtain ⟨err, herr⟩ := bindable_iff.mp hrun.bindsError
  obtain ⟨id, hid⟩ := bindable_iff.mp hrun.bindsId
  have hrows : writtenRows T jobId state errorMessage now
      = sqlUpdateState T st err now.strftime id := by
    rw [writtenRows, hst, herr, hid]
    rfl
  -- a row that is not named stays
  have hsame : (∀ r ∈ T, jobId.bindText ≠ .ok (some r.id)) →
      List.Forall₂ (Rewrites jobId state errorMessage now) T T := by
    intro hother
    rw [List.forall₂_same]
    intro r hr
    exact ⟨fun heq => absurd heq (hother r hr), fun _ => rfl⟩
  cases id with
  | none =>
      refine ⟨T, hrows, hsame ?_⟩
      intro r _ heq
      rw [hid] at heq
      cases heq
  | some id =>
      cases st with
      | some st => exact ⟨_, hrows, forall₂_setState hid hst herr⟩
      | none =>
          have hother := hrun.notNull hst
          have hany : T.any (fun r => r.id == id) = false := by
            rw [List.any_eq_false]
            intro r hr heq
            refine hother r hr ?_
            rw [hid, eq_of_beq heq]
          refine ⟨T, ?_, hsame hother⟩
          rw [hrows, sqlUpdateState, if_neg (by rw [hany]; exact Bool.false_ne_true)]

/-- An UPDATE that raises does so before it writes. -/
theorem writtenRows_error (now : Datetime)
    (hupdate : faults .updateState = none)
    (hcommit : faults .commit = none)
    (hrun : ¬ UpdateRuns faults T jobId state errorMessage) :
    ∃ e, writtenRows T jobId state errorMessage now = .error e := by
  cases hst : state.bindText with
  | error e => exact ⟨e, by rw [writtenRows, hst]; rfl⟩
  | ok st =>
      cases herr : errorMessage.bindText with
      | error e => exact ⟨e, by rw [writtenRows, hst, herr]; rfl⟩
      | ok err =>
          cases hid : jobId.bindText with
          | error e => exact ⟨e, by rw [writtenRows, hst, herr, hid]; rfl⟩
          | ok id =>
              -- everything binds, so it is the NOT NULL constraint
              have hnull : ∃ r ∈ T, st = none ∧ id = some r.id := by
                by_contra hno
                refine hrun ⟨hupdate, hcommit, bindable_iff.mpr ⟨st, hst⟩,
                  bindable_iff.mpr ⟨err, herr⟩, bindable_iff.mpr ⟨id, hid⟩, ?_⟩
                intro hnone r hr heq
                rw [hst] at hnone
                rw [hid] at heq
                exact hno ⟨r, hr, Except.ok.inj hnone, Except.ok.inj heq⟩
              obtain ⟨r, hr, rfl, rfl⟩ := hnull
              have hany : T.any (fun r' => r'.id == r.id) = true :=
                List.any_eq_true.mpr ⟨r, hr, beq_self_eq_true r.id⟩
              refine ⟨.IntegrityError, ?_⟩
              rw [writtenRows, hst, herr, hid]
              exact if_pos hany

/-- Where the update may run, it commits and closes its transaction. -/
theorem storeState_ok (now : Datetime)
    (hrun : UpdateRuns faults T jobId state errorMessage) :
    ∃ T', storeState faults jobId state errorMessage now (Conn.clean T)
        = (.ok (), Conn.clean T')
      ∧ List.Forall₂ (Rewrites jobId state errorMessage now) T T' := by
  obtain ⟨T', hrows, hrewrites⟩ := writtenRows_ok now hrun
  have hmod : modify faults .updateState
      (fun T => writtenRows T jobId state errorMessage now) (Conn.clean T)
      = (.ok (), ⟨T, some T'⟩) := run_modify_ok hrun.update hrows
  refine ⟨T', ?_, hrewrites⟩
  rw [storeState_eq, run_bind_ok hmod, run_commit hrun.commit]
  rfl

/-- Where it may not, it raises and leaves its implicit transaction open. -/
theorem storeState_leavesOpen (now : Datetime)
    (hrun : ¬ UpdateRuns faults T jobId state errorMessage) :
    ∃ e T', storeState faults jobId state errorMessage now (Conn.clean T)
      = (.error e, ⟨T, some T'⟩) := by
  rw [storeState_eq]
  cases hupdate : faults .updateState with
  | some e =>
      have hmod : modify faults .updateState
          (fun T => writtenRows T jobId state errorMessage now) (Conn.clean T)
          = (.error e, ⟨T, some T⟩) := run_statement_fault hupdate
      exact ⟨e, T, run_bind_error hmod⟩
  | none =>
      cases hrows : writtenRows T jobId state errorMessage now with
      | error e =>
          have hmod : modify faults .updateState
              (fun T => writtenRows T jobId state errorMessage now)
              (Conn.clean T) = (.error e, ⟨T, some T⟩) :=
            run_modify_error hupdate hrows
          exact ⟨e, T, run_bind_error hmod⟩
      | ok T' =>
          have hmod : modify faults .updateState
              (fun T => writtenRows T jobId state errorMessage now)
              (Conn.clean T) = (.ok (), ⟨T, some T'⟩) :=
            run_modify_ok hupdate hrows
          cases hcommit : faults .commit with
          | some e =>
              refine ⟨e, T', ?_⟩
              rw [run_bind_ok hmod]
              exact run_statement_fault hcommit
          | none =>
              obtain ⟨e, herror⟩ :=
                writtenRows_error now hupdate hcommit hrun
              rw [hrows] at herror
              cases herror

end Update

/-- **The update is atomic exactly when nothing in it raises**: there is no
    rollback, so the transaction its UPDATE began stays open otherwise. -/
theorem updateState_atomic_iff (faults : Faults)
    (hreread : faults .findByIdUnscoped = none) (T : Table)
    (jobId state errorMessage : Json) (now : Datetime)
    (result : Except PyExc (Option Job)) (c : Conn)
    (h : updateState faults jobId state errorMessage now (Conn.clean T)
      = (result, c)) :
    AtomicUpdate T jobId state errorMessage now result c
      ↔ UpdateRuns faults T jobId state errorMessage := by
  constructor
  · intro hatomic
    by_contra hrun
    obtain ⟨e, T', hstore⟩ := storeState_leavesOpen now hrun
    rw [updateState, run_bind_error hstore] at h
    obtain ⟨-, rfl⟩ := Prod.mk.inj h
    have hopen : (none : Option Table) = some T' := hatomic.closed.symm
    cases hopen
  · intro hrun
    obtain ⟨T', hstore, hrewrites⟩ := storeState_ok now hrun
    obtain ⟨id, hid⟩ := bindable_iff.mp hrun.bindsId
    have hfind : findByIdUnscoped faults jobId (Conn.clean T')
        = (.ok (sqlFindByIdUnscoped T' id), Conn.clean T') :=
      run_query_ok hreread (by rw [hid]; rfl)
    rw [updateState, run_bind_ok hstore, hfind] at h
    obtain ⟨rfl, rfl⟩ := Prod.mk.inj h
    exact ⟨rfl, fun e heq => (by cases heq), fun row _ => hrewrites⟩

/-- A result message whose `error_message` is a JSON list. -/
theorem updateState_listLeavesOpen :
    ¬ AtomicUpdate [charging] (.str "job-1") (.str stateFailed)
        (.arr [.str "motor"]) (february 2 11)
        (updateState noFaults (.str "job-1") (.str stateFailed)
          (.arr [.str "motor"]) (february 2 11) (Conn.clean [charging])).1
        (updateState noFaults (.str "job-1") (.str stateFailed)
          (.arr [.str "motor"]) (february 2 11) (Conn.clean [charging])).2 := by
  intro hatomic
  have hopen : some [charging] = none := hatomic.closed
  cases hopen

/-- The row of `charging`, FAILED with its reason. -/
def chargingFailed : Job :=
  { charging with
    state := "FAILED"
    errorMessage := some "motor"
    updatedAt := "2030-02-02T11:00:00.000Z" }

/-- A job that is being carried out fails: its three columns are rewritten. -/
theorem updateState_atomic_charging :
    AtomicUpdate [charging] (.str "job-1") (.str stateFailed)
        (.str "motor") (february 2 11)
        (updateState noFaults (.str "job-1") (.str stateFailed)
          (.str "motor") (february 2 11) (Conn.clean [charging])).1
        (updateState noFaults (.str "job-1") (.str stateFailed)
          (.str "motor") (february 2 11) (Conn.clean [charging])).2
      ∧ (updateState noFaults (.str "job-1") (.str stateFailed)
          (.str "motor") (february 2 11) (Conn.clean [charging])).2.committed
        = [chargingFailed] := by
  refine ⟨(updateState_atomic_iff noFaults rfl [charging] _ _ _ _ _ _ rfl).mpr ?_,
    by decide⟩
  refine ⟨rfl, rfl, rfl, rfl, rfl, ?_⟩
  intro hnull
  cases hnull

end JobFaults
