import JobScheduling.JobDispatch
import JobScheduling.JobTransactions

/-! # Statements refine transactions

    Whatever statements raise but rollbacks, and however threads interleave
    between them, the machine runs as the service does whose transactions are
    single steps: a transaction of the service happens at the commit, or the
    rollback, of the machine, and a thread that a fault has ended is one that
    the service never schedules again (`statements_refine_service`).

    What holds of every run of the service then holds between any two
    statements of the machine (`statements_safe`). -/

namespace JobRefinement

open JobConstants JobClock JobPayload JobModels JobRepository JobBroker
open JobOrchestrator JobService JobLedger JobDispatch JobFaults JobStatements
open JobTransactions KeyedTable Runs

/-! ## The simulation -/

/-- Where the call of the service is that a call of the machine stands for:
    a transaction is still to come until its commit or rollback, and a call
    that a fault has ended may be anywhere. -/
def CallSim (pc : StmtPc) (q : CreatePc) : Prop :=
  pc = .of q ∨ (∃ job, pc.inside = some job ∧ q = .insert job)
    ∨ ∃ e : SqlFault, pc = .returned (.error e.val)

/-- Where the handler of the service is. -/
def HandlerSim (pc : HandlerStmt) (q : HandlerPc) : Prop :=
  pc = .of q
    ∨ (∃ jobId newState errorMsg now, pc = .commit jobId newState errorMsg now
        ∧ q = .update jobId newState errorMsg now)
    ∨ ∃ e, pc = .dead e

/-- The service that a machine stands for. -/
structure Simulates (m : Machine) (s : Service) : Prop where
  ok : MachineOk m
  jobs : s.jobs = m.db.committed
  log : s.log = m.log
  calls : s.calls.map Prod.fst = m.calls.map Prod.fst
  points : ∀ (i : Nat) (c : Call) (pc : StmtPc) (q : CreatePc),
    m.calls[i]? = some (c, pc) → s.calls[i]? = some (c, q) → CallSim pc q
  handler : HandlerSim m.handler s.handler

theorem simulates_empty : Simulates Machine.empty Service.empty where
  ok := machineOk_empty
  jobs := rfl
  log := rfl
  calls := rfl
  points := fun i c pc q h => by cases h
  handler := Or.inl rfl

/-- The call of the service at the place of a call of the machine. -/
theorem Simulates.call {m : Machine} {s : Service} (hs : Simulates m s) {i : Nat}
    {c : Call} {pc : StmtPc} (here : m.calls[i]? = some (c, pc)) :
    ∃ q, s.calls[i]? = some (c, q) ∧ CallSim pc q := by
  have hfst : (s.calls.map Prod.fst)[i]? = some c := by
    rw [hs.calls, List.getElem?_map, here]
    rfl
  rw [List.getElem?_map] at hfst
  obtain ⟨⟨c', q⟩, hq, hc⟩ := Option.map_eq_some_iff.mp hfst
  have hc' : c' = c := hc
  rw [hc'] at hq
  exact ⟨q, hq, hs.points i c pc q here hq⟩

/-- Writing the point of a call changes no arguments. -/
theorem map_fst_set {π : Type} {xs : List (Call × π)} {i : Nat} {c : Call}
    {pc pc' : π} (here : xs[i]? = some (c, pc)) :
    (xs.set i (c, pc')).map Prod.fst = xs.map Prod.fst := by
  obtain ⟨hi, heq⟩ := List.getElem?_eq_some_iff.mp here
  have hlen : i < (xs.map Prod.fst).length := by rwa [List.length_map]
  have hc : (xs.map Prod.fst)[i] = c := by rw [List.getElem_map, heq]
  rw [List.map_set]
  show (xs.map Prod.fst).set i c = xs.map Prod.fst
  rw [← hc, List.set_getElem_self]

/-- The transaction of the service, for a job that nothing refuses. -/
theorem createStep_admits {cfg : Config} {c : Call} {T : Table} {job : Job}
    (h : Admits T job) :
    createStep cfg c T (.insert job) = some (.publish job, T ++ [job], []) := by
  have hr := insertTransaction_onTable T job maxActiveJobsPerUser
  have hover : ¬ (sqlCheckOverlap T job.assetId job.endTime
      job.startTime).isSome = true := Option.not_isSome_iff_eq_none.mpr h.overlap
  have hviol : ¬ violates T job = true := by
    rw [h.unique]
    exact Bool.false_ne_true
  have hbound : ¬ job.operation.encodable = false :=
    (Bool.not_eq_false _).mpr h.encodable
  rw [if_neg (fun hq => Nat.not_le_of_lt h.quota hq.2), if_neg hover,
    if_neg hbound, if_neg hviol] at hr
  simp only [createStep, hr, afterInsert]

/-- The transaction of the service, for a job that is refused. -/
theorem createStep_refused (cfg : Config) (c : Call) {T : Table} {job : Job}
    {why : Except PyExc TxnOutcome} (h : Refused T job why) :
    createStep cfg c T (.insert job) = some (afterInsert job (rolledBack why), T, [])
      ∨ ∃ e : SqlFault, rolledBack why = .error e.val := by
  have hpos : 0 < maxActiveJobsPerUser := by decide
  have hr := insertTransaction_onTable T job maxActiveJobsPerUser
  cases why with
  | error e =>
      by_cases he : e = .IntegrityError
      · obtain ⟨hquota, hover, hbound, hviol⟩ := h he
        have hover' : ¬ (sqlCheckOverlap T job.assetId job.endTime
            job.startTime).isSome = true := Option.not_isSome_iff_eq_none.mpr hover
        have hbound' : ¬ job.operation.encodable = false :=
          (Bool.not_eq_false _).mpr hbound
        rw [if_neg (fun hq => Nat.not_le_of_lt hquota hq.2), if_neg hover',
          if_neg hbound', if_pos hviol] at hr
        rw [he]
        refine Or.inl ?_
        simp only [createStep, hr, afterInsert, rolledBack]
      · refine Or.inr ⟨⟨e, he⟩, ?_⟩
        cases e <;> first | rfl | exact absurd rfl he
  | ok outcome =>
      refine Or.inl ?_
      cases outcome with
      | maxActive =>
          rw [if_pos ⟨hpos, h⟩] at hr
          simp only [createStep, hr, afterInsert, rolledBack]
      | overlap =>
          obtain ⟨hquota, hover⟩ := h
          rw [if_neg (fun hq => Nat.not_le_of_lt hquota hq.2), if_pos hover] at hr
          simp only [createStep, hr, afterInsert, rolledBack]
      | created => exact absurd h (fun h => h)
      | integrityError => exact absurd h (fun h => h)

theorem of_injective {a b : CreatePc} (h : StmtPc.of a = .of b) : a = b := by
  cases a <;> cases b <;> cases h <;> rfl

/-- A call between two transactions is at the same point in the service,
    unless a fault has ended it. -/
theorem CallSim.of {pc : CreatePc} {q : CreatePc} (h : CallSim (.of pc) q)
    (going : ∀ r, pc ≠ .returned r) : q = pc := by
  rcases h with heq | ⟨job, hin, rfl⟩ | ⟨e, he⟩
  · exact (of_injective heq).symm
  · cases pc with
    | insert job' =>
        have hj : job' = job := Option.some.inj hin
        rw [hj]
    | _ => cases hin
  · cases pc with
    | returned r => exact absurd rfl (going r)
    | _ => cases he

/-- A call inside its transaction simulates one that stands before it. -/
theorem CallSim.inside {pc : StmtPc} {job : Job} {q : CreatePc}
    (h : CallSim pc q) (hin : pc.inside = some job) : q = .insert job := by
  rcases h with heq | ⟨job', hin', rfl⟩ | ⟨e, he⟩
  · rw [heq] at hin
    cases q with
    | insert job' => rw [Option.some.inj hin]
    | _ => cases hin
  · rw [hin, Option.some.injEq] at hin'
    rw [hin']
  · rw [he] at hin
    cases hin

/-- The service takes a step of its own, or none. -/
def Follows (cfg : Config) (s s' : Service) : Prop :=
  s' = s ∨ ∃ l, step cfg s l = some s'

section Simulation

variable {cfg : Config} {m : Machine} {s : Service} {i : Nat} {c : Call}
variable {pc pc' : StmtPc} {q q' : CreatePc} {db' : Database} {ev : List Event}

/-- The places of the calls after one of them has moved on both sides. -/
theorem Simulates.points_set (hs : Simulates m s) (hsim : CallSim pc' q') :
    ∀ (j : Nat) (cj : Call) (pcj : StmtPc) (qj : CreatePc),
      (m.calls.set i (c, pc'))[j]? = some (cj, pcj) →
      (s.calls.set i (c, q'))[j]? = some (cj, qj) → CallSim pcj qj := by
  intro j cj pcj qj hm' hs'
  rcases getElem?_set_some hm' with ⟨hji, hnew⟩ | ⟨hne, hold⟩
  · rcases getElem?_set_some hs' with ⟨-, hnew'⟩ | ⟨hne, -⟩
    · obtain ⟨-, rfl⟩ := Prod.mk.inj hnew
      obtain ⟨-, rfl⟩ := Prod.mk.inj hnew'
      exact hsim
    · exact absurd hji hne
  · rcases getElem?_set_some hs' with ⟨hji, -⟩ | ⟨-, hold'⟩
    · exact absurd hji hne
    · exact hs.points j cj pcj qj hold hold'

/-- The call of the machine moves, and its transaction is still to come. -/
theorem Simulates.stutter (hs : Simulates m s)
    (here : m.calls[i]? = some (c, pc)) (hq : s.calls[i]? = some (c, q))
    (hok : MachineOk { m with
      db := db', calls := m.calls.set i (c, pc'), log := m.log ++ [] })
    (hsame : db'.committed = m.db.committed) (hsim : CallSim pc' q) :
    ∃ s', Follows cfg s s' ∧ Simulates { m with
      db := db', calls := m.calls.set i (c, pc'), log := m.log ++ [] } s' := by
  obtain ⟨hi, heq⟩ := List.getElem?_eq_some_iff.mp hq
  have hsets : s.calls.set i (c, q) = s.calls := by
    rw [← heq, List.set_getElem_self]
  refine ⟨s, Or.inl rfl, hok, ?_, ?_, ?_, ?_, hs.handler⟩
  · exact hs.jobs.trans hsame.symm
  · exact hs.log.trans (List.append_nil _).symm
  · exact hs.calls.trans (map_fst_set here).symm
  · intro j cj pcj qj hm' hs'
    rw [← hsets] at hs'
    exact hs.points_set hsim j cj pcj qj hm' hs'

/-- The call of the machine moves, and so does that of the service. -/
theorem Simulates.advance (hs : Simulates m s)
    (here : m.calls[i]? = some (c, pc)) (hq : s.calls[i]? = some (c, q))
    (hok : MachineOk { m with
      db := db', calls := m.calls.set i (c, pc'), log := m.log ++ ev })
    (hstep : createStep cfg c m.db.committed q = some (q', db'.committed, ev))
    (hsim : CallSim pc' q') :
    ∃ s', Follows cfg s s' ∧ Simulates { m with
      db := db', calls := m.calls.set i (c, pc'), log := m.log ++ ev } s' := by
  rw [← hs.jobs] at hstep
  have hst : step cfg s (.call i) = some { s with
      jobs := db'.committed
      calls := s.calls.set i (c, q')
      log := s.log ++ ev } := by
    simp only [step, hq, hstep]
  refine ⟨_, Or.inr ⟨.call i, hst⟩, hok, rfl, ?_, ?_, ?_, hs.handler⟩
  · show s.log ++ ev = m.log ++ ev
    rw [hs.log]
  · show (s.calls.set i (c, q')).map Prod.fst = _
    rw [map_fst_set hq, hs.calls]
    exact (map_fst_set here).symm
  · exact hs.points_set hsim

end Simulation

/-- One statement of a call is one step of the service, or none. -/
theorem simulates_call {cfg : Config} {m : Machine} {s : Service} {i : Nat}
    {c : Call} {pc pc' : StmtPc} {db' : Database} {ev : List Event}
    (hs : Simulates m s) (here : m.calls[i]? = some (c, pc))
    (move : StmtMove cfg c (.call i) m.db pc pc' db' ev)
    (hok : MachineOk { m with
      db := db', calls := m.calls.set i (c, pc'), log := m.log ++ ev }) :
    ∃ s', Follows cfg s s' ∧ Simulates { m with
      db := db', calls := m.calls.set i (c, pc'), log := m.log ++ ev } s' := by
  obtain ⟨q, hq, hsim⟩ := hs.call here
  have hmine : ∀ W, m.db.writing = some (.call i, W) →
      TxnOk m.db.committed W pc := by
    intro W hW
    obtain ⟨c', pc'', hi, hok'⟩ := hs.ok.known i W hW
    rw [here, Option.some.injEq, Prod.mk.injEq] at hi
    rw [hi.2]
    exact hok'
  cases move with
  | outside pc pc' ev between move =>
      have hpc : q = pc := by
        refine hsim.of ?_
        intro r hr
        rw [hr] at move
        cases move
      rw [hpc] at hq
      exact hs.advance here hq hok move (Or.inl rfl)
  | failed pc e =>
      -- the call ends with the exception; the service does not move
      exact hs.stutter here hq hok rfl (Or.inr (Or.inr ⟨e, rfl⟩))
  | locked job free =>
      exact hs.stutter here hq hok rfl (Or.inr (Or.inl ⟨job, rfl, hsim.inside rfl⟩))
  | counted job W mine quota =>
      exact hs.stutter here hq hok rfl (Or.inr (Or.inl ⟨job, rfl, hsim.inside rfl⟩))
  | clear job W mine none =>
      exact hs.stutter here hq hok rfl (Or.inr (Or.inl ⟨job, rfl, hsim.inside rfl⟩))
  | written job W mine encodable unique =>
      exact hs.stutter here hq hok rfl (Or.inr (Or.inl ⟨job, rfl, hsim.inside rfl⟩))
  | refused pc job W mine inside why reason =>
      exact hs.stutter here hq hok rfl
        (Or.inr (Or.inl ⟨job, rfl, hsim.inside inside⟩))
  | committed job W mine =>
      -- the whole transaction of the service happens at the commit
      obtain ⟨rfl, admits⟩ := hmine W mine
      rw [hsim.inside rfl] at hq
      exact hs.advance here hq hok (createStep_admits admits) (Or.inl rfl)
  | rolledBack job why W mine =>
      -- refused in the transaction is refused by the service's one step
      rw [hsim.inside rfl] at hq
      rcases createStep_refused cfg c (hmine W mine) with
        hstep | ⟨e, he⟩
      · exact hs.advance here hq hok hstep (Or.inl rfl)
      · refine hs.stutter here hq hok rfl (Or.inr (Or.inr ⟨e, ?_⟩))
        rw [he]
        rfl

theorem handlerOf_injective {a b : HandlerPc} (h : HandlerStmt.of a = .of b) :
    a = b := by
  cases a <;> cases b <;> cases h <;> rfl

/-- Outside its update the handler is at the same point in the service, unless
    it has ended. -/
theorem HandlerSim.of (pc : HandlerPc) {q : HandlerPc}
    (h : HandlerSim (.of pc) q)
    (alive : ∀ e, pc ≠ .dead e) : q = pc := by
  rcases h with heq | ⟨jobId, newState, errorMsg, now, hcommit, -⟩ | ⟨e, he⟩
  · exact (handlerOf_injective heq).symm
  · cases pc <;> cases hcommit
  · cases pc with
    | dead e' => exact absurd rfl (alive e')
    | _ => cases he

/-- A handler before its commit simulates one before its update. -/
theorem HandlerSim.inside {jobId newState errorMsg : Json} {now : Datetime}
    {q : HandlerPc} (h : HandlerSim (.commit jobId newState errorMsg now) q) :
    q = .update jobId newState errorMsg now := by
  rcases h with heq | ⟨a, b, d, e, hcommit, rfl⟩ | ⟨e, he⟩
  · cases q <;> cases heq
  · injection hcommit with h₁ h₂ h₃ h₄
    rw [h₁, h₂, h₃, h₄]
  · cases he

/-- One statement of the handler is one step of the service, or none. -/
theorem simulates_handler {cfg : Config} {m : Machine} {s : Service}
    {pc' : HandlerStmt} {db' : Database} {ev : List Event}
    (hs : Simulates m s) (move : HandlerStmtMove m.db m.handler pc' db' ev)
    (hok : MachineOk { m with db := db', handler := pc', log := m.log ++ ev }) :
    ∃ s', Follows cfg s s'
      ∧ Simulates { m with db := db', handler := pc', log := m.log ++ ev } s' := by
  have hsim := hs.handler
  have hupdate := hs.ok.update
  generalize hpc : m.handler = pc at move hsim hupdate
  cases move with
  | outside pc pc' ev move =>
      have hq : s.handler = pc := by
        refine HandlerSim.of pc hsim ?_
        intro e he
        rw [he] at move
        cases move
      have hst : step cfg s .handler = some { s with
          jobs := m.db.committed
          handler := pc'
          log := s.log ++ ev } := by
        rw [← hs.jobs] at move
        simp only [step, hq, move]
        rw [hs.jobs]
      refine ⟨_, Or.inr ⟨.handler, hst⟩, hok, rfl, ?_, hs.calls, hs.points,
        Or.inl rfl⟩
      show s.log ++ ev = m.log ++ ev
      rw [hs.log]
  | failed pc e =>
      refine ⟨s, Or.inl rfl, hok, hs.jobs, ?_, hs.calls, hs.points,
        Or.inr (Or.inr ⟨e, rfl⟩)⟩
      exact hs.log.trans (List.append_nil _).symm
  | written jobId newState errorMsg now W free runs =>
      have hq := HandlerSim.of (.update jobId newState errorMsg now) hsim
        (fun e he => by cases he)
      refine ⟨s, Or.inl rfl, hok, hs.jobs, ?_, hs.calls, hs.points,
        Or.inr (Or.inl ⟨jobId, newState, errorMsg, now, rfl, hq⟩)⟩
      exact hs.log.trans (List.append_nil _).symm
  | committed jobId newState errorMsg now W mine =>
      -- the update of the service happens at its commit
      have hq := hsim.inside
      have hstored : (storeState noFaults jobId newState errorMsg now).onTable
          m.db.committed = (.ok (), W) := by
        rw [storeState_eq_statements, Sql.onTable,
          run_bind_ok (hupdate W mine), run_commit rfl]
        rfl
      have hst : step cfg s .handler = some { s with
          jobs := W
          handler := .reread jobId
          log := s.log ++ [] } := by
        simp only [step, hq, handlerStep, hs.jobs, hstored]
      refine ⟨_, Or.inr ⟨.handler, hst⟩, hok, rfl, ?_, hs.calls, hs.points,
        Or.inl rfl⟩
      show s.log ++ [] = m.log ++ []
      rw [hs.log]

/-- **One step of the machine** is one step of the service, or none. -/
theorem simulates_step {cfg : Config} {m m' : Machine} {s : Service}
    {l : StmtLabel} (hs : Simulates m s) (h : machineStep cfg m l = some m') :
    ∃ s', Follows cfg s s' ∧ Simulates m' s' := by
  have hok := machineOk_step hs.ok h
  cases machineStep_move hs.ok h with
  | submit c =>
      refine ⟨_, Or.inr ⟨.submit c, rfl⟩, hok, hs.jobs, hs.log, ?_, ?_,
        hs.handler⟩
      · show (s.calls ++ [(c, CreatePc.start)]).map Prod.fst
          = (m.calls ++ [(c, StmtPc.start)]).map Prod.fst
        rw [List.map_append, List.map_append, hs.calls]
        rfl
      · have hlen : s.calls.length = m.calls.length := by
          have hlen' := congrArg List.length hs.calls
          rwa [List.length_map, List.length_map] at hlen'
        intro j cj pcj qj hm' hs'
        rcases getElem?_concat_some hm' with ⟨-, hold⟩ | ⟨hj, hnew⟩
        · obtain ⟨q, hq, hsim⟩ := hs.call hold
          have hold' : (s.calls ++ [(c, .start)])[j]? = some (cj, q) := by
            rw [List.getElem?_append_left (List.getElem?_eq_some_iff.mp hq).1, hq]
          have hqj : q = qj :=
            congrArg Prod.snd (Option.some.inj (hold'.symm.trans hs'))
          rw [← hqj]
          exact hsim
        · obtain ⟨-, rfl⟩ := Prod.mk.inj hnew
          rcases getElem?_concat_some hs' with ⟨-, hold⟩ | ⟨-, hnew'⟩
          · have hlt := (List.getElem?_eq_some_iff.mp hold).1
            omega
          · obtain ⟨-, rfl⟩ := Prod.mk.inj hnew'
            exact Or.inl rfl
  | call i fault c pc pc' db' ev here move =>
      exact simulates_call hs here move hok
  | deliver msg now fault idle =>
      have hidle : s.handler = .idle := by
        have hsim := hs.handler
        rw [idle] at hsim
        exact HandlerSim.of .idle hsim (fun e he => by cases he)
      have hst : step cfg s (.deliver msg now) = some { s with
          handler := receive s.jobs msg now } := by
        simp only [step, hidle]
      have hreceived : ∀ h : receiveStmt fault m.db.committed msg now
          = .of (receive m.db.committed msg now),
          ∃ s', Follows cfg s s' ∧ Simulates { m with
            handler := receiveStmt fault m.db.committed msg now } s' := by
        intro h
        refine ⟨_, Or.inr ⟨.deliver msg now, hst⟩, hok, hs.jobs, hs.log,
          hs.calls, hs.points, Or.inl ?_⟩
        show receiveStmt fault m.db.committed msg now = .of (receive s.jobs msg now)
        rw [h, hs.jobs]
      -- the message is read before any statement, the row by one
      cases fault with
      | none => exact hreceived rfl
      | some e =>
          cases hl : looksUp msg with
          | false =>
              refine hreceived ?_
              rw [receiveStmt, hl]
              rfl
          -- a fault in the lookup ends the handler; the service has not moved
          | true =>
              refine ⟨s, Or.inl rfl, hok, hs.jobs, hs.log, hs.calls, hs.points,
                Or.inr (Or.inr ⟨e.val, ?_⟩)⟩
              show receiveStmt (some e) m.db.committed msg now = .dead e.val
              rw [receiveStmt, hl]
              rfl
  | handler fault pc' db' ev move => exact simulates_handler hs move hok
  | close e ended free =>
      exact ⟨s, Or.inl rfl, hok, hs.jobs, hs.log, hs.calls, hs.points,
        Or.inr (Or.inr ⟨e, ended⟩)⟩
  | closed e ended => exact ⟨s, Or.inl rfl, hs⟩

/-! ## Runs -/

/-- A run of the machine is a run of the service it stands for. -/
theorem simulates_run {cfg : Config} {ls : List StmtLabel} {m : Machine}
    (h : exec (machineStep cfg) Machine.empty ls = some m) :
    ∃ ms s, exec (step cfg) Service.empty ms = some s ∧ Simulates m s := by
  have hsim : ∀ (m : Machine) (s : Service) (l : StmtLabel) (m' : Machine),
      Simulates m s → machineStep cfg m l = some m' →
      ∃ ms s', exec (step cfg) s ms = some s' ∧ Simulates m' s' := by
    intro m s l m' hs hst
    obtain ⟨s', hfollows, hs'⟩ := simulates_step hs hst
    rcases hfollows with heq | ⟨l', hl'⟩
    · exact ⟨[], s', by rw [heq]; rfl, hs'⟩
    · exact ⟨[l'], s', exec_one.mpr hl', hs'⟩
  exact exec_simulates hsim simulates_empty h

/-- A call that was answered, and not by an exception, was answered the same in
    the service. -/
theorem Simulates.answered {m : Machine} {s : Service} (hs : Simulates m s)
    {i : Nat} {c : Call} {result : HTTPStatus × (Job ⊕ String)}
    (h : m.calls[i]? = some (c, .returned (.ok result))) :
    s.calls[i]? = some (c, .returned (.ok result)) := by
  obtain ⟨q, hq, hsim⟩ := hs.call h
  rcases hsim with heq | ⟨job, hin, -⟩ | ⟨e, he⟩
  · have hpc : CreatePc.returned (.ok result) = q :=
      of_injective (a := .returned (.ok result)) heq
    rw [hpc]
    exact hq
  · cases hin
  · cases he

/-- **Refinement**: whatever statements raise and wherever threads come in
    between two of them, the committed table, the log and every answer of a
    run are those of a run whose transactions are single steps. -/
theorem statements_refine_service {cfg : Config} {ls : List StmtLabel}
    {m : Machine} (h : exec (machineStep cfg) Machine.empty ls = some m) :
    ∃ ms s, exec (step cfg) Service.empty ms = some s
      ∧ s.jobs = m.db.committed ∧ s.log = m.log
      ∧ s.calls.map Prod.fst = m.calls.map Prod.fst
      ∧ ∀ (i : Nat) (c : Call) (result : HTTPStatus × (Job ⊕ String)),
          m.calls[i]? = some (c, .returned (.ok result)) →
          s.calls[i]? = some (c, .returned (.ok result)) := by
  obtain ⟨ms, s, hms, hs⟩ := simulates_run h
  exact ⟨ms, s, hms, hs.jobs, hs.log, hs.calls, fun i c result hi => hs.answered hi⟩

/-- SQLite's answer to a lock that stays taken for longer than the timeout. -/
def locked : SqlFault := ⟨.OperationalError, by decide⟩

/-- Two users book the same hours.  The second one times out on the lock of the
    first one, whose commit fails; both of them try again. -/
def contended : List StmtLabel :=
  [.submit (booking "user-001" "k1" "job-1" "asset-001" (february 2 10)
      (february 2 12) .handed),
    .submit (booking "user-002" "k1" "job-2" "asset-001" (february 2 11)
      (february 2 13) .handed),
    .call 0 none, .call 1 none, .call 0 none, .call 1 none,
    .call 0 none, .call 1 (some locked), .call 0 none, .call 0 none,
    .call 0 none, .call 0 (some locked), .call 0 none,
    .submit (booking "user-002" "k1" "job-3" "asset-001" (february 2 11)
      (february 2 13) .handed),
    .call 2 none, .call 2 none, .call 2 none, .call 2 none, .call 2 none,
    .submit (booking "user-001" "k1" "job-4" "asset-001" (february 2 10)
      (february 2 12) .handed),
    .call 3 none, .call 2 none, .call 3 none, .call 2 none, .call 2 none,
    .call 3 none, .call 3 none, .call 3 none, .call 3 none]

/-- Of the two bookings the third attempt is committed, and the service has a
    run to its table. -/
theorem statements_refine_contended :
    ∃ m ms s, exec (machineStep seedConfig) Machine.empty contended = some m
      ∧ m.db.committed.map Job.id = ["job-3"]
      ∧ exec (step seedConfig) Service.empty ms = some s
      ∧ s.jobs = m.db.committed := by
  obtain ⟨m, h, hobs⟩ := Option.map_eq_some_iff.mp
    (show (exec (machineStep seedConfig) Machine.empty contended).map
        (fun m => m.db.committed.map Job.id) = some ["job-3"] by decide +kernel)
  obtain ⟨ms, s, hms, hjobs, -⟩ := statements_refine_service h
  exact ⟨m, ms, s, h, hobs, hms, hjobs⟩

/-- What a table and its log are to be like at any time. -/
structure Safe (m : Machine) : Prop where
  disjoint : m.db.committed.Pairwise reading.Compatible
  quota : ∀ userId, sqlCountActive m.db.committed userId ≤ maxActiveJobsPerUser
  ids : (m.db.committed.map Job.id).Nodup
  keys : (m.db.committed.map Job.key).Nodup
  once : (m.log.filterMap dispatchedId).Nodup
  faithful : ∀ message result, .dispatch message result ∈ m.log →
    ∃ r ∈ m.db.committed, ∃ payload, message = .obj payload ∧ Carries r payload
  accepted : ∀ (i : Nat) (c : Call) (job : Job),
    m.calls[i]? = some (c, .returned (.ok (.created, .inl job))) →
    job.key = (c.userId, c.idempotencyKey) ∧ ∃ r ∈ m.db.committed, SameJob job r

/-- What the service never does, the statements never do. -/
theorem Simulates.safe {cfg : Config} {ms : List Label} {m : Machine}
    {s : Service} (hms : exec (step cfg) Service.empty ms = some s)
    (hs : Simulates m s) : Safe m := by
  obtain ⟨hok, hdispatch⟩ := dispatchOk_run hms
  have hledger := service_refines_ledger hms
  refine ⟨?_, ?_, ?_, ?_, ?_, ?_, ?_⟩
  · rw [← hs.jobs]
    exact hledger.induction List.Pairwise.nil (fun _ _ hT hst => hst.compatible hT)
  · rw [← hs.jobs]
    exact hledger.induction (fun _ => Nat.zero_le _) (fun _ _ hT hst => hst.quota hT)
  · rw [← hs.jobs]
    exact hok.ids
  · rw [← hs.jobs]
    exact hok.keys
  · rw [← hs.log]
    exact (List.nodup_append.mp (hdispatch.nodup hok)).2.1
  · have hencodable : ∀ r ∈ s.jobs, r.operation.encodable = true :=
      hledger.induction (fun _ hr => absurd hr List.not_mem_nil)
        (fun _ _ hT hst => hst.encodable hT)
    rw [← hs.jobs, ← hs.log]
    intro message result hev
    obtain ⟨r, hr, heq⟩ := hdispatch.rows message result hev
    rw [heq]
    exact ⟨r, hr, dispatchPayload_carries (hencodable r hr)⟩
  · intro i c job hi
    have hret : CallOk cfg c s.jobs (.returned (.ok (.created, .inl job))) :=
      hok.call (hs.answered hi)
    rw [← hs.jobs]
    exact hret

/-- **Safety under faults**: in every state between two statements, whichever
    of them raise but rollbacks, the active bookings are disjoint, the quota
    holds, ids and keys are unique, dispatches are unique and carry the columns
    of a committed row, and what was accepted is stored; and whatever the next
    statement is, and whether it raises or not, every row stays and moves at
    most along one edge of the state machine. -/
theorem statements_safe {cfg : Config} {ls : List StmtLabel} {m : Machine}
    (h : exec (machineStep cfg) Machine.empty ls = some m) :
    Safe m ∧ ∀ l m', machineStep cfg m l = some m' →
      Evolves Moves m.db.committed m'.db.committed := by
  obtain ⟨ms, s, hms, hs⟩ := simulates_run h
  refine ⟨hs.safe hms, ?_⟩
  intro l m' hst
  obtain ⟨s', hfollows, hs'⟩ := simulates_step hs hst
  rw [← hs.jobs, ← hs'.jobs]
  rcases hfollows with heq | ⟨l', hl'⟩
  · rw [heq]
    exact Evolves.refl Moves.refl s.jobs
  · rcases (step_refines (serviceOk_run hms) hl').1 with heq | hstep
    · rw [heq]
      exact Evolves.refl Moves.refl s.jobs
    · exact hstep.moves

/-- The one row that was committed is the one that is dispatched. -/
theorem statements_safe_contended :
    ∃ m, exec (machineStep seedConfig) Machine.empty contended = some m
      ∧ m.log.filterMap dispatchedId = ["job-3"] ∧ Safe m := by
  obtain ⟨m, h, hobs⟩ := Option.map_eq_some_iff.mp
    (show (exec (machineStep seedConfig) Machine.empty contended).map
        (fun m => m.log.filterMap dispatchedId) = some ["job-3"] by
      decide +kernel)
  exact ⟨m, h, hobs, (statements_safe h).1⟩

end JobRefinement
