import JobScheduling.JobRefinement

/-! # The lock

    Every statement brings its thread closer to its return, and whoever holds
    the lock can always go on: threads never wait for each other in a circle,
    and every schedule ends with all of them done (`threads_settle`).  As in
    `JobStatements`, rollbacks succeed and an UPDATE that raises holds no lock.

    The one exception is a handler that a fault ended between its UPDATE and
    its commit: its connection keeps the lock until it is closed, and until
    then the service can only answer with what it already has
    (`leaked_lock_freezes`). -/

namespace JobLocking

open JobConstants JobClock JobPayload JobModels JobRepository JobBroker
open JobOrchestrator JobService JobLedger JobFaults JobStatements JobTransactions
open JobRefinement KeyedTable Runs

/-! ## How far a thread has still to go -/

/-- The statements a call has still to execute, at most. -/
def stepsLeft : StmtPc → Nat
  | .start => 10
  | .validate => 9
  | .begin _ => 8
  | .count _ => 7
  | .overlap _ => 6
  | .insert _ => 5
  | .commit _ => 4
  | .rollback _ _ => 3
  | .relookup _ => 2
  | .publish _ => 1
  | .returned _ => 0

/-- The statements the handler has still to execute, at most. -/
def handlerLeft : HandlerStmt → Nat
  | .update _ _ _ _ => 4
  | .commit _ _ _ _ => 3
  | .reread _ => 2
  | .notify _ => 1
  | .idle => 0
  | .dead _ => 0

/-- The statements that a list of calls have still to execute, at most. -/
def callsLeft (ps : List (Call × StmtPc)) : Nat := load (fun p => stepsLeft p.2) ps

/-- The statements that all threads have still to execute, at most. -/
def remaining (m : Machine) : Nat := callsLeft m.calls + handlerLeft m.handler

/-- A thread moves: nothing new comes in. -/
def Internal : StmtLabel → Prop
  | .call _ _ => True
  | .handler _ => True
  | _ => False

/-- A thread moves, and its statement does not raise for want of the lock or
    for other reasons of its own. -/
def FaultFree : StmtLabel → Prop
  | .call _ none => True
  | .handler none => True
  | _ => False

theorem FaultFree.internal {l : StmtLabel} (h : FaultFree l) : Internal l := by
  cases l with
  | call i fault => exact trivial
  | handler fault => exact trivial
  | _ => exact h

/-- After its transaction a call has at most two statements left. -/
theorem stepsLeft_afterInsert (job : Job) (r : Except PyExc TxnOutcome) :
    stepsLeft (.of (afterInsert job r)) ≤ 2 := by
  cases r with
  | error e => exact Nat.zero_le _
  | ok outcome => cases outcome <;> exact of_decide_eq_true rfl

/-- A step of a call between its transactions brings it closer to its end. -/
theorem CreateMove.stepsLeft {cfg : Config} {c : Call} {T T' : Table}
    {pc pc' : CreatePc} {ev : List Event} (h : CreateMove cfg c T pc pc' T' ev) :
    JobLocking.stepsLeft (.of pc') < JobLocking.stepsLeft (.of pc) := by
  cases h <;> exact of_decide_eq_true rfl

/-- A statement of a call brings it closer to its return. -/
theorem StmtMove.stepsLeft {cfg : Config} {c : Call} {w : Writer}
    {db db' : Database} {pc pc' : StmtPc} {ev : List Event}
    (h : StmtMove cfg c w db pc pc' db' ev)
    (going : ∀ r, pc ≠ .returned r) :
    JobLocking.stepsLeft pc' < JobLocking.stepsLeft pc := by
  cases h with
  | outside pc pc' ev between move =>
      exact CreateMove.stepsLeft (createStep_move move)
  | failed pc e =>
      cases pc with
      | returned r => exact absurd rfl (going r)
      | _ => exact of_decide_eq_true rfl
  | refused pc job W mine inside why reason =>
      cases reason with
      | fault pc e inTry => cases pc <;> cases inTry <;> exact of_decide_eq_true rfl
      | _ => exact of_decide_eq_true rfl
  | rolledBack job why W mine =>
      exact Nat.lt_succ_of_le (stepsLeft_afterInsert job (rolledBack why))
  | _ => exact of_decide_eq_true rfl

/-- A statement of the handler brings it closer to its next message. -/
theorem HandlerStmtMove.left {db db' : Database} {pc pc' : HandlerStmt}
    {ev : List Event} (h : HandlerStmtMove db pc pc' db' ev)
    (going : pc ≠ .idle ∧ ∀ e, pc ≠ .dead e) :
    handlerLeft pc' < handlerLeft pc := by
  cases h with
  | outside pc pc' ev move =>
      cases handlerStep_move move <;> exact of_decide_eq_true rfl
  | failed pc e =>
      cases pc with
      | idle => exact absurd rfl going.1
      | dead e' => exact absurd rfl (going.2 e')
      | _ => exact of_decide_eq_true rfl
  | written jobId newState errorMsg now W free runs => exact of_decide_eq_true rfl
  | committed jobId newState errorMsg now W mine => exact of_decide_eq_true rfl

/-- A call that has returned executes no further statement. -/
theorem callStep_going {cfg : Config} {c : Call} {w : Writer} {faults : Faults}
    {db : Database} {pc : StmtPc} {r : StmtPc × Database × List Event}
    (h : callStep cfg c w faults db pc = some r) (result : CreateResult) :
    pc ≠ .returned result := by
  intro heq
  rw [heq] at h
  cases h

/-- Every statement of a thread uses up one of those that are left. -/
theorem remaining_step {cfg : Config} {m m' : Machine} {l : StmtLabel}
    (hm : MachineOk m) (hl : Internal l) (h : machineStep cfg m l = some m') :
    remaining m' < remaining m := by
  cases l with
  | call i fault =>
      cases hc : m.calls[i]? with
      | none => simp [machineStep, hc] at h
      | some p =>
          obtain ⟨c, pc⟩ := p
          cases hst : callStep cfg c (.call i) (hitBy fault) m.db pc with
          | none => simp [machineStep, hc, hst] at h
          | some r =>
              obtain ⟨pc', db', ev⟩ := r
              simp only [machineStep, hc, hst, Option.some.injEq] at h
              have hleft := StmtMove.stepsLeft
                (callStep_move (hm.fits i c pc hc) hst) (callStep_going hst)
              -- only this call's share of the load changes
              have hsum : callsLeft (m.calls.set i (c, pc')) + stepsLeft pc
                  = callsLeft m.calls + stepsLeft pc' :=
                load_set (fun p : Call × StmtPc => stepsLeft p.2) (y := (c, pc')) hc
              rw [← h]
              show callsLeft (m.calls.set i (c, pc')) + handlerLeft m.handler
                < remaining m
              rw [remaining]
              omega
  | handler fault =>
      cases hst : handlerStmt (hitBy fault) m.db m.handler with
      | none => simp [machineStep, hst] at h
      | some r =>
          obtain ⟨pc', db', ev⟩ := r
          simp only [machineStep, hst, Option.some.injEq] at h
          have hgoing : m.handler ≠ .idle ∧ ∀ e, m.handler ≠ .dead e := by
            refine ⟨?_, ?_⟩
            · intro heq
              rw [heq] at hst
              cases hst
            · intro e heq
              rw [heq] at hst
              cases hst
          have hleft := HandlerStmtMove.left (handlerStmt_move hm.handler hst) hgoing
          rw [← h]
          show callsLeft m.calls + handlerLeft pc' < remaining m
          rw [remaining]
          omega
  | _ => exact absurd hl (fun h => h)

/-! ## Whoever holds the lock can go on -/

section Enabled

variable {w : Writer} {db : Database}

/-- A thread that is not locked out can run its statement. -/
theorem run_enabled {α : Type} (m : Sql α) (h : db.lockedFor w = false) :
    ∃ r, db.run w m = some r := by
  rw [Database.run, h]
  exact ⟨_, rfl⟩

/-- A call that nobody locks out executes its next statement. -/
theorem callStep_enabled (cfg : Config) (c : Call) (faults : Faults)
    {pc : StmtPc} (h : db.lockedFor w = false)
    (going : ∀ r, pc ≠ .returned r) :
    ∃ r, callStep cfg c w faults db pc = some r := by
  have hrun : ∀ {α : Type} (m : Sql α)
      (f : Except PyExc α × Database → StmtPc × Database × List Event),
      ∃ r, (db.run w m).map f = some r := by
    intro α m f
    obtain ⟨r, hr⟩ := run_enabled m h
    exact ⟨f r, by rw [hr]; rfl⟩
  cases pc with
  | validate =>
      rw [callStep]
      cases JobValidation.validate cfg c.body c.validatedAt with
      | none => exact ⟨_, rfl⟩
      | some answer => exact ⟨_, rfl⟩
  | publish job => exact ⟨_, rfl⟩
  | returned r => exact absurd rfl (going r)
  | _ => exact hrun _ _

/-- So does the handler while it works on a message. -/
theorem handlerStmt_enabled (faults : Faults) {pc : HandlerStmt}
    (h : db.lockedFor .handler = false)
    (going : pc ≠ .idle ∧ ∀ e, pc ≠ .dead e) :
    ∃ r, handlerStmt faults db pc = some r := by
  have hrun : ∀ {α : Type} (m : Sql α)
      (f : Except PyExc α × Database → HandlerStmt × Database × List Event),
      ∃ r, (db.run .handler m).map f = some r := by
    intro α m f
    obtain ⟨r, hr⟩ := run_enabled m h
    exact ⟨f r, by rw [hr]; rfl⟩
  cases pc with
  | idle => exact absurd rfl going.1
  | dead e => exact absurd rfl (going.2 e)
  | update jobId newState errorMsg now =>
      rw [handlerStmt]
      cases (updateStmt faults jobId newState errorMsg now (db.conn .handler)).1 with
      | error e => exact ⟨_, rfl⟩
      | ok u => exact hrun _ _
  | commit jobId newState errorMsg now => exact hrun _ _
  | reread jobId => exact hrun _ _
  | notify updated => exact ⟨_, rfl⟩

end Enabled

/-! ## Threads settle -/

/-- Every call has returned, the handler waits for a message or has ended, and
    nobody holds the lock. -/
structure Settled (m : Machine) : Prop where
  calls : ∀ (i : Nat) (c : Call) (pc : StmtPc), m.calls[i]? = some (c, pc) →
    ∃ result, pc = .returned result
  handler : m.handler = .idle ∨ ∃ e, m.handler = .dead e
  lock : m.db.writing = none

/-- The handler has ended with the lock in its hands. -/
def Leaked (m : Machine) : Prop :=
  ∃ e W, m.handler = .dead e ∧ m.db.writing = some (.handler, W)

theorem lockedFor_eq_false {db : Database} {w : Writer}
    (h : ∀ holder W, db.writing = some (holder, W) → holder = w) :
    db.lockedFor w = false := by
  rw [Database.lockedFor]
  cases hw : db.writing with
  | none => rfl
  | some p =>
      obtain ⟨holder, W⟩ := p
      exact decide_eq_false (fun hne => hne (h holder W hw))

/-- A thread that is not locked out has an enabled statement, or is done. -/
theorem call_stuck {cfg : Config} {m : Machine} {i : Nat} {c : Call}
    {pc : StmtPc} (stuck : ∀ l, FaultFree l → machineStep cfg m l = none)
    (here : m.calls[i]? = some (c, pc))
    (free : m.db.lockedFor (.call i) = false) : ∃ result, pc = .returned result := by
  by_contra hgoing
  rw [not_exists] at hgoing
  obtain ⟨r, hr⟩ := callStep_enabled cfg c (hitBy none) free hgoing
  have hst : machineStep cfg m (.call i none) = none := stuck _ trivial
  simp [machineStep, here, hr] at hst

theorem handler_stuck {cfg : Config} {m : Machine}
    (stuck : ∀ l, FaultFree l → machineStep cfg m l = none)
    (free : m.db.lockedFor .handler = false) :
    m.handler = .idle ∨ ∃ e, m.handler = .dead e := by
  by_contra hgoing
  rw [not_or, not_exists] at hgoing
  obtain ⟨r, hr⟩ := handlerStmt_enabled (hitBy none) free hgoing
  have hst : machineStep cfg m (.handler none) = none := stuck _ trivial
  simp [machineStep, hr] at hst

/-- **No deadlock**: when no statement can be executed, all threads are done
    and the lock is free, unless it has leaked. -/
theorem stuck_settled {cfg : Config} {m : Machine} (hm : MachineOk m)
    (leak : ¬ Leaked m)
    (stuck : ∀ l, FaultFree l → machineStep cfg m l = none) : Settled m := by
  cases hw : m.db.writing with
  | none =>
      have hfree : ∀ w, m.db.lockedFor w = false := by
        intro w
        rw [Database.lockedFor, hw]
      exact ⟨fun i c pc here => call_stuck stuck here (hfree (.call i)),
        handler_stuck stuck (hfree .handler), hw⟩
  | some p =>
      obtain ⟨holder, W⟩ := p
      have hfree : m.db.lockedFor holder = false := by
        refine lockedFor_eq_false ?_
        intro holder' W' hw'
        rw [hw] at hw'
        exact (congrArg Prod.fst (Option.some.inj hw')).symm
      -- whoever holds the lock can go on, unless it leaked
      cases holder with
      | call i =>
          -- the holder is inside its transaction, so it has not returned
          obtain ⟨c, pc, here, htxn⟩ := hm.known i W hw
          obtain ⟨result, rfl⟩ := call_stuck stuck here hfree
          exact absurd htxn (fun h => h)
      | handler =>
          have hfits := hm.handler
          rcases handler_stuck stuck hfree with hidle | ⟨e, hdead⟩
          · rw [hidle] at hfits
            exact absurd hw (hfits W)
          · exact absurd ⟨e, W, hdead, hw⟩ leak

/-- A handler that ends holds no lock but the one it held before. -/
theorem HandlerStmtMove.keepsLock {db db' : Database} {pc pc' : HandlerStmt}
    {ev : List Event} (h : HandlerStmtMove db pc pc' db' ev) {e : PyExc}
    (ended : pc' = .dead e) {W : Table}
    (held : db'.writing = some (.handler, W)) :
    db.writing = some (.handler, W) := by
  cases h with
  | outside pc pc' ev move => exact held
  | failed pc e' => exact held
  | written jobId newState errorMsg now V free runs => cases ended
  | committed jobId newState errorMsg now V mine => cases ended

/-- Without faults the lock does not leak. -/
theorem unleaked_step {cfg : Config} {m m' : Machine} {l : StmtLabel}
    (hm : MachineOk m) (leak : ¬ Leaked m) (hl : FaultFree l)
    (h : machineStep cfg m l = some m') : ¬ Leaked m' := by
  rintro ⟨e, W, hdead, hheld⟩
  cases machineStep_move hm h with
  | call i fault c pc pc' db' ev here move =>
      have hne : Writer.handler ≠ .call i := by
        intro heq
        cases heq
      exact leak ⟨e, W, hdead, (StmtMove.others move hne W).mp hheld⟩
  | handler fault pc' db' ev move =>
      have hfits := hm.handler
      cases fault with
      | some f => exact absurd hl (fun h => h)
      | none =>
          cases hh : m.handler with
          | commit jobId newState errorMsg now =>
              rw [hh] at hfits
              obtain ⟨V, hV⟩ := hfits
              -- without a fault the commit gives the lock back
              have hrun : m.db.run .handler (commit (hitBy none))
                  = some (.ok (), .unlocked V) := by
                have hdb : m.db = ⟨m.db.committed, some (.handler, V)⟩ := by
                  rw [← hV]
                rw [hdb, run_writing]
                rfl
              simp only [machineStep, hh, handlerStmt, hrun, Option.map_some,
                Option.some.injEq] at h
              have hpc : HandlerStmt.reread jobId = pc' :=
                congrArg Machine.handler h
              have hpc' : pc' = .dead e := hdead
              rw [hpc'] at hpc
              cases hpc
          | dead e' =>
              rw [machineStep, hh] at h
              cases h
          | _ =>
              -- outside its update the handler has no lock to keep
              have hkept := HandlerStmtMove.keepsLock move hdead hheld
              rw [hh] at hfits
              exact hfits W hkept
  | _ => exact absurd hl (fun h => h)

/-- **Threads settle**: with nothing new coming in, every schedule is finite,
    whatever raises; and as long as nothing raises, every schedule that cannot
    go on has all calls answered, the handler done and the lock free, and there
    is one. -/
theorem threads_settle {cfg : Config} {ls : List StmtLabel} {m : Machine}
    (h : exec (machineStep cfg) Machine.empty ls = some m) :
    (∀ ms m', (∀ l ∈ ms, Internal l) → exec (machineStep cfg) m ms = some m' →
        ms.length ≤ remaining m)
      ∧ (¬ Leaked m →
          (∀ ms m', (∀ l ∈ ms, FaultFree l) →
            exec (machineStep cfg) m ms = some m' →
            (∀ l, FaultFree l → machineStep cfg m' l = none) → Settled m')
          ∧ ∃ ms m', (∀ l ∈ ms, FaultFree l)
            ∧ exec (machineStep cfg) m ms = some m' ∧ Settled m') := by
  have hm := machineOk_run h
  have hend : ¬ Leaked m → ∀ ms m', (∀ l ∈ ms, FaultFree l) →
      exec (machineStep cfg) m ms = some m' →
      (∀ l, FaultFree l → machineStep cfg m' l = none) → Settled m' := by
    intro leak ms m' hms hrun hstuck
    have hinv : MachineOk m' ∧ ¬ Leaked m' :=
      exec_invariant_of (P := FaultFree) (I := fun m => MachineOk m ∧ ¬ Leaked m)
        (fun _ _ _ hI hl hst => ⟨machineOk_step hI.1 hst,
          unleaked_step hI.1 hI.2 hl hst⟩) hms ⟨hm, leak⟩ hrun
    exact stuck_settled hinv.1 hinv.2 hstuck
  refine ⟨?_, fun leak => ⟨hend leak, ?_⟩⟩
  · intro ms m' hms hrun
    have hlen := exec_length_le (P := Internal) (I := MachineOk)
      (fun _ _ _ hI _ hst => machineOk_step hI hst)
      (fun _ _ _ hI hl hst => remaining_step hI hl hst) hms hm hrun
    omega
  · obtain ⟨ms, m', hms, hrun, hstuck⟩ := exec_maximal (P := FaultFree)
      (I := MachineOk)
      (fun _ _ _ hI _ hst => machineOk_step hI hst)
      (fun _ _ _ hI hl hst => remaining_step hI hl.internal hst) hm
    exact ⟨ms, m', hms, hrun, hend leak ms m' hms hrun hstuck⟩

/-- Three calls stand at the lock, one of them inside its transaction. -/
def queued : List StmtLabel :=
  [.submit (booking "user-001" "k1" "job-1" "asset-001" (february 2 10)
      (february 2 12) .handed),
    .submit (booking "user-002" "k1" "job-2" "asset-001" (february 2 11)
      (february 2 13) .handed),
    .submit (booking "user-003" "k1" "job-3" "asset-002" (february 2 11)
      (february 2 13) .handed),
    .call 0 none, .call 1 none, .call 2 none, .call 0 none, .call 1 none,
    .call 2 none, .call 1 none, .call 1 none]

/-- Two calls wait for the lock of the third one, and all are answered. -/
theorem threads_settle_queued :
    ∃ m, exec (machineStep seedConfig) Machine.empty queued = some m
      ∧ m.db.writing.map Prod.fst = some (.call 1)
      ∧ ∃ ms m', (∀ l ∈ ms, FaultFree l)
        ∧ exec (machineStep seedConfig) m ms = some m' ∧ Settled m' := by
  obtain ⟨m, h, hobs⟩ := Option.map_eq_some_iff.mp
    (show (exec (machineStep seedConfig) Machine.empty queued).map
        (fun m => m.db.writing.map Prod.fst) = some (some (.call 1)) by
      decide +kernel)
  have hleak : ¬ Leaked m := by
    rintro ⟨e, W, -, hheld⟩
    rw [hheld] at hobs
    cases hobs
  exact ⟨m, h, hobs, ((threads_settle h).2 hleak).2⟩

/-! ## The lock of an ended handler -/

/-- What a call that came after the leak can have reached. -/
def Frozen (T : Table) : StmtPc → Prop
  | .start => True
  | .validate => True
  | .begin _ => True
  | .returned (.ok (.created, .inl job)) => job ∈ T
  | .returned _ => True
  | _ => False

/-- Without the lock a call changes nothing. -/
theorem StmtMove.lockedOut {cfg : Config} {c : Call} {w : Writer}
    {db db' : Database} {pc pc' : StmtPc} {ev : List Event}
    (h : StmtMove cfg c w db pc pc' db' ev)
    (taken : db.writing ≠ none) (others : ∀ W, db.writing ≠ some (w, W)) :
    db' = db := by
  cases h with
  | locked job free => exact absurd free taken
  | written job W mine encodable unique => exact absurd mine (others W)
  | committed job W mine => exact absurd mine (others W)
  | rolledBack job why W mine => exact absurd mine (others W)
  | _ => rfl

/-- Between transactions a call neither publishes nor leaves what is frozen. -/
theorem CreateMove.frozen {cfg : Config} {c : Call} {T T' : Table}
    {pc pc' : CreatePc} {ev : List Event} (h : CreateMove cfg c T pc pc' T' ev)
    (between : (StmtPc.of pc).inside = none) (hpc : Frozen T (.of pc)) :
    ev = [] ∧ Frozen T (.of pc') := by
  cases h with
  | replay existing found => exact ⟨rfl, (sqlFindByIdempotency_some found).1⟩
  | miss found => exact ⟨rfl, trivial⟩
  | reject status message invalid =>
      rw [JobValidation.validate_status invalid]
      exact ⟨rfl, trivial⟩
  | accept valid => exact ⟨rfl, trivial⟩
  | lateReplay job existing found => exact absurd hpc (fun h => h)
  | lateMiss job found => exact absurd hpc (fun h => h)
  | publish job => exact absurd hpc (fun h => h)
  | _ => cases between

/-- ... and a call that comes in is answered from the committed rows, if it
    is answered at all. -/
theorem StmtMove.frozen {cfg : Config} {c : Call} {w : Writer}
    {db db' : Database} {pc pc' : StmtPc} {ev : List Event}
    (h : StmtMove cfg c w db pc pc' db' ev)
    (taken : db.writing ≠ none) (others : ∀ W, db.writing ≠ some (w, W))
    (hpc : Frozen db.committed pc) :
    ev = [] ∧ Frozen db.committed pc' := by
  cases h with
  | outside pc pc' ev between move =>
      exact CreateMove.frozen (createStep_move move) between hpc
  | failed pc e => exact ⟨rfl, trivial⟩
  | locked job free => exact absurd free taken
  | refused pc job W mine inside why reason => exact absurd mine (others W)
  | _ => exact absurd hpc (fun h => h)

/-- What stays as it is while the lock is leaked, and how far the calls have
    come that were not there before. -/
structure StillFrozen (m t : Machine) : Prop where
  ok : MachineOk t
  db : t.db = m.db
  handler : t.handler = m.handler
  grown : m.calls.length ≤ t.calls.length
  calls : ∀ (i : Nat) (c : Call) (pc : StmtPc), m.calls.length ≤ i →
    t.calls[i]? = some (c, pc) → Frozen m.db.committed pc

/-- Whatever step comes next, short of closing the connection, the table stays
    frozen. -/
theorem stillFrozen_step {cfg : Config} {m t t' : Machine} {l : StmtLabel}
    (leak : Leaked m) (ht : StillFrozen m t) (hl : l ≠ .close)
    (h : machineStep cfg t l = some t') : StillFrozen m t' := by
  obtain ⟨e, W, hdead, hheld⟩ := leak
  have hok := machineOk_step ht.ok h
  have htaken : t.db.writing ≠ none := by
    rw [ht.db, hheld]
    exact Option.some_ne_none _
  cases machineStep_move ht.ok h with
  | submit c =>
      refine ⟨hok, ht.db, ht.handler, ?_, ?_⟩
      · show m.calls.length ≤ (t.calls ++ [(c, StmtPc.start)]).length
        rw [List.length_append]
        exact Nat.le_trans ht.grown (Nat.le_add_right _ _)
      · intro i c' pc hi here
        rcases getElem?_concat_some here with ⟨-, hold⟩ | ⟨-, hnew⟩
        · exact ht.calls i c' pc hi hold
        · obtain ⟨-, rfl⟩ := Prod.mk.inj hnew
          exact trivial
  | call j fault c pc pc' db' ev here move =>
      have hothers : ∀ V, t.db.writing ≠ some (.call j, V) := by
        intro V hV
        rw [ht.db, hheld] at hV
        cases hV
      refine ⟨hok, (StmtMove.lockedOut move htaken hothers).trans ht.db,
        ht.handler, ?_, ?_⟩
      · show m.calls.length ≤ (t.calls.set j (c, pc')).length
        rw [List.length_set]
        exact ht.grown
      · intro i c' pci hi hpci
        rcases getElem?_set_some hpci with ⟨rfl, hnew⟩ | ⟨-, hold⟩
        · obtain ⟨-, rfl⟩ := Prod.mk.inj hnew
          have hpc := ht.calls j c pc hi here
          rw [← ht.db] at hpc ⊢
          exact (StmtMove.frozen move htaken hothers hpc).2
        · exact ht.calls i c' pci hi hold
  -- the handler that holds the lock has ended: nothing reaches it
  | deliver msg now fault idle =>
      rw [ht.handler, hdead] at idle
      cases idle
  | handler fault pc' db' ev move =>
      rw [machineStep, ht.handler, hdead] at h
      cases h
  | close e' ended free => exact absurd rfl hl
  | closed e' ended => exact absurd rfl hl

/-- A fault at the commit of its update ends the handler, and leaves the lock in
    its hands. -/
theorem commit_leaks {cfg : Config} {m : Machine} (hm : MachineOk m)
    {jobId newState errorMsg : Json} {now : Datetime}
    (here : m.handler = .commit jobId newState errorMsg now) (fault : SqlFault) :
    ∃ m', machineStep cfg m (.handler (some fault)) = some m'
      ∧ m'.handler = .dead fault.val ∧ Leaked m' := by
  have hfits := hm.handler
  rw [here] at hfits
  obtain ⟨W, hW⟩ := hfits
  have hdb : m.db = ⟨m.db.committed, some (.handler, W)⟩ := by
    rw [← hW]
  have hrun : m.db.run .handler (commit (hitBy (some fault)))
      = some (.error fault.val, m.db) := by
    rw [hdb, run_writing]
    rfl
  refine ⟨{ m with handler := .dead fault.val }, ?_, rfl, fault.val, W, rfl, hW⟩
  simp only [machineStep, here, handlerStmt, hrun, Option.map_some, afterStored,
    List.append_nil]

/-- **A leaked lock freezes the table**: whatever the commit of an update
    raises, the handler ends with the lock in its hands; and from then on, until
    its connection is closed, nothing is committed and no result is handled, and
    a call that comes in gets no further than its `BEGIN IMMEDIATE`; if it is
    answered 201, it is with a job that had been committed before. -/
theorem leaked_lock_freezes {cfg : Config} {ls : List StmtLabel} {m : Machine}
    (h : exec (machineStep cfg) Machine.empty ls = some m) :
    (∀ jobId newState errorMsg now,
        m.handler = .commit jobId newState errorMsg now → ∀ fault : SqlFault,
          ∃ m', machineStep cfg m (.handler (some fault)) = some m'
            ∧ m'.handler = .dead fault.val ∧ Leaked m')
      ∧ (Leaked m → ∀ ms m', (∀ l ∈ ms, l ≠ .close) →
          exec (machineStep cfg) m ms = some m' → StillFrozen m m') := by
  have hm := machineOk_run h
  refine ⟨fun _ _ _ _ here fault => commit_leaks hm here fault, ?_⟩
  intro leak ms m' stays h'
  refine exec_invariant_of (P := fun l => l ≠ .close)
    (fun _ _ _ ht hl hst => stillFrozen_step leak ht hl hst) stays ?_ h'
  refine ⟨hm, rfl, rfl, Nat.le_refl _, ?_⟩
  intro i c pc hi here
  have hlt := (List.getElem?_eq_some_iff.mp here).1
  omega

/-- A result is stored but its commit fails. -/
def commitFails : List StmtLabel :=
  [.submit (booking "user-001" "k1" "job-1" "asset-001" (february 2 10)
      (february 2 12) .handed),
    .call 0 none, .call 0 none, .call 0 none, .call 0 none, .call 0 none,
    .call 0 none, .call 0 none, .call 0 none,
    .deliver (resultMessage "job-1" "RUNNING") (february 2 10) none,
    .handler none, .handler (some locked)]

/-- A replay and a new booking after it. -/
def latecomers : List StmtLabel :=
  [.submit (booking "user-001" "k1" "job-2" "asset-002" (february 2 10)
      (february 2 12) .handed),
    .submit (booking "user-002" "k1" "job-3" "asset-002" (february 2 10)
      (february 2 12) .handed),
    .call 1 none, .call 2 none, .call 2 none, .call 2 (some locked)]

/-- Whether the lock is the handler's, and whether its thread has ended. -/
def leakedView (m : Machine) : Option Writer × Bool :=
  (m.db.writing.map Prod.fst, match m.handler with
    | .dead _ => true
    | _ => false)

/-- The lock and its holder can be read off the machine. -/
theorem leaked_of_view {m : Machine} (h : leakedView m = (some .handler, true)) :
    Leaked m := by
  obtain ⟨hheld, hdead⟩ := Prod.mk.inj h
  obtain ⟨⟨holder, W⟩, hW, hholder⟩ := Option.map_eq_some_iff.mp hheld
  have hholder' : holder = .handler := hholder
  rw [hholder'] at hW
  cases hh : m.handler with
  | dead e => exact ⟨e, W, hh, hW⟩
  | _ =>
      rw [hh] at hdead
      cases hdead

/-- A replay is answered, and a new booking times out on the lock. -/
theorem leaked_lock_freezes_latecomers :
    ∃ m m', exec (machineStep seedConfig) Machine.empty commitFails = some m
      ∧ exec (machineStep seedConfig) m latecomers = some m'
      ∧ Leaked m ∧ StillFrozen m m' := by
  obtain ⟨m, h, hobs⟩ := Option.map_eq_some_iff.mp
    (show (exec (machineStep seedConfig) Machine.empty commitFails).map
        (fun m => (leakedView m,
          (exec (machineStep seedConfig) m latecomers).isSome))
      = some ((some .handler, true), true) by decide +kernel)
  obtain ⟨hview, hnext⟩ := Prod.mk.inj hobs
  obtain ⟨m', h'⟩ := Option.isSome_iff_exists.mp hnext
  have hleak := leaked_of_view hview
  refine ⟨m, m', h, h', hleak, (leaked_lock_freezes h).2 hleak latecomers m' ?_ h'⟩
  intro l hl heq
  rw [heq] at hl
  simp [latecomers] at hl

end JobLocking
