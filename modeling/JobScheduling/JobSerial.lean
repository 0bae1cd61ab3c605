import JobScheduling.JobHandler

/-! # Serialisability

    A serial execution runs whole `create_job` calls and whole message
    handlings, one after the other (`serialStep`).  Every interleaving of the
    steps of calls with distinct keys and of the handler has the outcome of a
    serial execution (`serialisable`).

    Each operation takes effect in one of its steps: a call at its lookup when
    the key has a row, at its validation when the body is rejected, and
    otherwise at its insert transaction (`call_commits`); a message when it is
    read (`follows_deliver`), unless it passes the guard, and then when it is
    stored (`follows_handler`).  Steps before and after that one
    commute with everybody else: a key looked up in vain stays unused, and a
    row read by the handler stays as it was read. -/

namespace JobSerial

open JobConstants JobClock JobPayload JobModels JobRepository JobBroker
open JobOrchestrator JobService JobLedger JobHandler KeyedTable Runs

/-! ## Serial executions -/

/-- The table, the responses of the calls that have run, and whether the
    thread of the messages is still alive. -/
structure Serial where
  jobs : Table
  responses : List (Option CreateResult)
  alive : Bool

def Serial.start (T : Table) (cs : List Call) : Serial :=
  ⟨T, cs.map (fun _ => none), true⟩

inductive SerialOp where
  | call (i : Nat)
  | message (msg : Delivered) (now : Datetime)

/-- Run one whole operation: a call that has not run yet, or a message. -/
def serialStep (cfg : Config) (cs : List Call) (t : Serial) :
    SerialOp → Option Serial
  | .call i =>
      match cs[i]?, t.responses[i]? with
      | some c, some none =>
          some { t with
            jobs := (createJob cfg c t.jobs).2.1
            responses := t.responses.set i (some (createJob cfg c t.jobs).1) }
      | _, _ => none
  | .message msg now =>
      if t.alive then
        some { t with
          jobs := (onMessage t.jobs msg now).2.1
          alive := (onMessage t.jobs msg now).1.isOk }
      else none

def SerialOp.index : SerialOp → Option Nat
  | .call i => some i
  | .message _ _ => none

def SerialOp.delivery : SerialOp → Option (Delivered × Datetime)
  | .call _ => none
  | .message msg now => some (msg, now)

/-- The calls a serial execution has run, each once, are those with a
    response. -/
structure RunsOnce (cs : List Call) (ops : List SerialOp) (t : Serial) : Prop where
  length : t.responses.length = cs.length
  nodup : (ops.filterMap SerialOp.index).Nodup
  responses : ∀ i, i ∈ ops.filterMap SerialOp.index
    ↔ ∃ result, t.responses[i]? = some (some result)

theorem runsOnce_step {cfg : Config} {cs : List Call} {ops : List SerialOp}
    {t t' : Serial} {op : SerialOp} (ht : RunsOnce cs ops t)
    (h : serialStep cfg cs t op = some t') : RunsOnce cs (ops ++ [op]) t' := by
  cases op with
  | call i =>
      have hops : (ops ++ [SerialOp.call i]).filterMap SerialOp.index
          = ops.filterMap SerialOp.index ++ [i] := List.filterMap_append
      cases hc : cs[i]? with
      | none => simp [serialStep, hc] at h
      | some c =>
          cases hr : t.responses[i]? with
          | none => simp [serialStep, hc, hr] at h
          | some response =>
              cases response with
              | some result => simp [serialStep, hc, hr] at h
              | none =>
                  simp only [serialStep, hc, hr, Option.some.injEq] at h
                  have hfresh : i ∉ ops.filterMap SerialOp.index := by
                    rw [ht.responses i, hr]
                    rintro ⟨result, hsome⟩
                    cases hsome
                  have hlen : i < t.responses.length :=
                    (List.getElem?_eq_some_iff.mp hr).1
                  rw [← h]
                  refine ⟨?_, ?_, ?_⟩
                  · show (t.responses.set i _).length = cs.length
                    rw [List.length_set, ht.length]
                  · rw [hops, List.nodup_append]
                    refine ⟨ht.nodup, List.nodup_singleton i, ?_⟩
                    intro j hj k hk heq
                    rw [List.mem_singleton.mp hk] at heq
                    exact hfresh (heq ▸ hj)
                  · intro j
                    rw [hops, List.mem_append, List.mem_singleton]
                    show _ ↔ ∃ result, (t.responses.set i _)[j]? = _
                    by_cases hij : i = j
                    · rw [← hij, List.getElem?_set_self hlen]
                      exact ⟨fun _ => ⟨_, rfl⟩, fun _ => Or.inr rfl⟩
                    · rw [List.getElem?_set_ne hij, ← ht.responses j]
                      constructor
                      · rintro (hold | hnew)
                        · exact hold
                        · exact absurd hnew.symm hij
                      · exact Or.inl
  | message msg now =>
      have hops : (ops ++ [SerialOp.message msg now]).filterMap SerialOp.index
          = ops.filterMap SerialOp.index := by
        rw [List.filterMap_append]
        exact List.append_nil _
      by_cases halive : t.alive = true
      · simp only [serialStep, if_pos halive, Option.some.injEq] at h
        rw [← h]
        exact ⟨ht.length, hops ▸ ht.nodup, fun i => hops ▸ ht.responses i⟩
      · simp [serialStep, halive] at h

/-- After every serial run, the calls that have answers are those that ran. -/
theorem runsOnce_run {cfg : Config} {cs : List Call} {T : Table}
    {ops : List SerialOp} {t : Serial}
    (h : exec (serialStep cfg cs) (Serial.start T cs) ops = some t) :
    RunsOnce cs ops t := by
  have h0 : RunsOnce cs [] (Serial.start T cs) := by
    refine ⟨List.length_map .., List.nodup_nil, ?_⟩
    intro i
    constructor
    · intro hi
      cases hi
    · rintro ⟨result, hres⟩
      have hres' : (cs.map (fun _ => (none : Option CreateResult)))[i]?
          = some (some result) := hres
      rw [List.getElem?_map, Option.map_eq_some_iff] at hres'
      obtain ⟨c, -, hc⟩ := hres'
      cases hc
  exact exec_history (I := RunsOnce cs)
    (fun _ _ _ _ ht hst => runsOnce_step ht hst) h0 h

/-! ## Where a call takes effect -/

/-- The response a call is going to give, once it has taken effect. -/
def response (c : Call) : CreatePc → Option CreateResult
  | .start => none
  | .validate => none
  | .insert _ => none
  | .relookup _ => some (.error .IntegrityError)
  | .publish job => some (publishDispatch c job).1
  | .returned result => some result

/-- The call has looked its key up in vain. -/
def Missed : CreatePc → Prop
  | .validate => True
  | .insert _ => True
  | .relookup _ => True
  | .start => False
  | .publish _ => False
  | .returned _ => False

/-- A move of a call is silent, or it is where the whole call takes effect. -/
theorem call_commits {cfg : Config} {c : Call} {T T' : Table}
    {pc pc' : CreatePc} {ev : List Event}
    (hmiss : Missed pc →
      sqlFindByIdempotency T c.userId c.idempotencyKey = none)
    (hc : CallOk cfg c T pc) (h : CreateMove cfg c T pc pc' T' ev) :
    (response c pc' = response c pc ∧ T' = T)
      ∨ (response c pc = none ∧ response c pc' = some (createJob cfg c T).1
          ∧ T' = (createJob cfg c T).2.1) := by
  cases h with
  | replay existing found =>
      refine Or.inr ⟨rfl, ?_, ?_⟩
      · rw [createJob, found]
        rfl
      · rw [createJob, found]
  | miss found => exact Or.inl ⟨rfl, rfl⟩
  | reject status message invalid =>
      refine Or.inr ⟨rfl, ?_, ?_⟩
      · simp only [createJob, hmiss trivial, invalid]
        rfl
      · simp only [createJob, hmiss trivial, invalid]
  | accept valid => exact Or.inl ⟨rfl, rfl⟩
  | maxActive job quota =>
      obtain ⟨rfl, hvalid⟩ := hc
      rw [createJob_checks (hmiss trivial) hvalid, if_pos quota]
      exact Or.inr ⟨rfl, rfl, rfl⟩
  | overlap job quota found =>
      obtain ⟨rfl, hvalid⟩ := hc
      rw [createJob_checks (hmiss trivial) hvalid,
        if_neg (Nat.not_le_of_lt quota), if_pos found]
      exact Or.inr ⟨rfl, rfl, rfl⟩
  | unencodable job quota found lone =>
      obtain ⟨rfl, hvalid⟩ := hc
      have hlone : c.body.operation.encodable = false := lone
      rw [createJob_checks (hmiss trivial) hvalid,
        if_neg (Nat.not_le_of_lt quota),
        if_neg (Option.not_isSome_iff_eq_none.mpr found), if_pos hlone]
      exact Or.inr ⟨rfl, rfl, rfl⟩
  | violation job quota found clash encodable =>
      obtain ⟨rfl, hvalid⟩ := hc
      have hbound : ¬ c.body.operation.encodable = false :=
        (Bool.not_eq_false _).mpr encodable
      rw [createJob_checks (hmiss trivial) hvalid,
        if_neg (Nat.not_le_of_lt quota),
        if_neg (Option.not_isSome_iff_eq_none.mpr found), if_neg hbound,
        if_pos clash]
      exact Or.inr ⟨rfl, rfl, rfl⟩
  | created job admits =>
      obtain ⟨rfl, hvalid⟩ := hc
      rw [createJob_admits (hmiss trivial) hvalid admits]
      exact Or.inr ⟨rfl, rfl, rfl⟩
  | lateReplay job existing found =>
      have hjob : job = newJob c := hc
      rw [hjob] at found
      cases (hmiss trivial).symm.trans found
  | lateMiss job found => exact Or.inl ⟨rfl, rfl⟩
  | publish job => exact Or.inl ⟨rfl, rfl⟩

/-! ## Calls with distinct keys -/

/-- The key a call is made under. -/
def callKey (c : Call) : String × String := (c.userId, c.idempotencyKey)

/-- Calls at different places have different keys. -/
theorem callKey_ne {cs : List Call} (hkeys : (cs.map callKey).Nodup)
    {i j : Nat} {c c' : Call} (hij : j ≠ i) (hi : cs[i]? = some c)
    (hj : cs[j]? = some c') : callKey c ≠ callKey c' := by
  intro heq
  have hi' : (cs.map callKey)[i]? = some (callKey c) := by
    rw [List.getElem?_map, hi]
    rfl
  have hj' : (cs.map callKey)[j]? = some (callKey c) := by
    rw [List.getElem?_map, hj, heq]
    rfl
  obtain ⟨hlen, -⟩ := List.getElem?_eq_some_iff.mp hi'
  exact hij ((List.getElem?_inj hlen hkeys).mp (hi'.trans hj'.symm)).symm

/-- What holds of calls with distinct keys and the handler on a reachable
    table: whoever missed its key still misses it. -/
structure Concurrent (cfg : Config) (cs : List Call) (s : Service) : Prop where
  ok : ServiceOk cfg s
  calls : s.calls.map Prod.fst = cs
  missed : ∀ (i : Nat) (c : Call) (pc : CreatePc), s.calls[i]? = some (c, pc) →
    Missed pc → sqlFindByIdempotency s.jobs c.userId c.idempotencyKey = none

theorem concurrent_waiting {cfg : Config} {T : Table}
    (hT : ReachableTable cfg T) (cs : List Call) :
    Concurrent cfg cs (Service.waiting T cs) := by
  refine ⟨serviceOk_waiting hT cs, waiting_calls T cs, ?_⟩
  intro i c pc hi hmissed
  rw [(waiting_start hi).2] at hmissed
  exact absurd hmissed id

/-- A call that misses its key, or goes on missing it, writes nothing. -/
theorem CreateMove.missed {cfg : Config} {c : Call} {T T' : Table}
    {pc pc' : CreatePc} {ev : List Event} (h : CreateMove cfg c T pc pc' T' ev)
    (hmiss : Missed pc →
      sqlFindByIdempotency T c.userId c.idempotencyKey = none)
    (hpc' : Missed pc') :
    T' = T ∧ sqlFindByIdempotency T c.userId c.idempotencyKey = none := by
  cases h with
  | miss found => exact ⟨rfl, found⟩
  | accept valid => exact ⟨rfl, hmiss trivial⟩
  | violation job quota found clash encodable => exact ⟨rfl, hmiss trivial⟩
  | _ => exact absurd hpc' id

/-- The row of another call does not have the key. -/
theorem lookup_append_none {T : Table} {c c' : Call}
    (hne : callKey c' ≠ callKey c)
    (h : sqlFindByIdempotency T c.userId c.idempotencyKey = none) :
    sqlFindByIdempotency (T ++ [newJob c']) c.userId c.idempotencyKey = none := by
  rw [sqlFindByIdempotency_none] at h ⊢
  intro r hr
  rcases List.mem_append.mp hr with hold | hnew
  · exact h r hold
  · rw [List.mem_singleton.mp hnew]
    exact hne

/-- No update touches a key. -/
theorem lookup_keys_none {T T' : Table} (hkeys : T'.map Job.key = T.map Job.key)
    {u k : String} (h : sqlFindByIdempotency T u k = none) :
    sqlFindByIdempotency T' u k = none := by
  rw [sqlFindByIdempotency_none] at h ⊢
  intro r hr heq
  have hmem : (u, k) ∈ T.map Job.key := by
    rw [← hkeys, ← heq]
    exact List.mem_map_of_mem hr
  obtain ⟨r', hr', heq'⟩ := List.mem_map.mp hmem
  exact h r' hr' heq'

/-- Every step of a call or the handler keeps that. -/
theorem concurrent_step {cfg : Config} {cs : List Call} {s s' : Service}
    {l : Label} (hkeys : (cs.map callKey).Nodup) (hs : Concurrent cfg cs s)
    (hl : ∀ c, l ≠ .submit c) (h : step cfg s l = some s') :
    Concurrent cfg cs s' := by
  refine ⟨serviceOk_step hs.ok h, (step_calls h hl).trans hs.calls, ?_⟩
  cases step_move h with
  | submit c => exact absurd rfl (hl c)
  | deliver msg now idle => exact hs.missed
  | handler pc' T' ev move =>
      intro i c pc hi hmissed
      have hkeys' : T'.map Job.key = s.jobs.map Job.key :=
        HandlerMove.column (fun _ _ _ _ => rfl) move hs.ok.ids hs.ok.handler
      exact lookup_keys_none hkeys' (hs.missed i c pc hi hmissed)
  | call i c pc pc' T' ev here move =>
      have hc : CallOk cfg c s.jobs pc := hs.ok.call here
      intro j c₀ pc₀ hj hmissed
      have hj' : (s.calls.set i (c, pc'))[j]? = some (c₀, pc₀) := hj
      rcases getElem?_set_some hj' with ⟨-, heq⟩ | ⟨hij, hold⟩
      · obtain ⟨rfl, rfl⟩ := Prod.mk.inj heq
        obtain ⟨rfl, hmiss⟩ := CreateMove.missed move (hs.missed i _ pc here) hmissed
        exact hmiss
      · have hmiss := hs.missed j c₀ pc₀ hold hmissed
        rcases (CreateMove.ledger move hc).1 with rfl | ⟨happ, -⟩
        · exact hmiss
        · -- a new row has the key of its own call, which is another one
          have hne : callKey c ≠ callKey c₀ :=
            callKey_ne hkeys hij.symm (call_of_calls hs.calls here)
              (call_of_calls hs.calls hold)
          show sqlFindByIdempotency T' c₀.userId c₀.idempotencyKey = none
          rw [happ]
          exact lookup_append_none hne hmiss

/-! ## Where a message takes effect -/

/-- The messages a run has delivered are those of the serial execution, and
    after them the one the handler has read and not stored yet.  Read now, that
    one is taken for what it was taken for. -/
def Accounted (ls : List Label) (ops : List SerialOp) (T : Table) :
    HandlerPc → Prop
  | .update jobId newState errorMsg now =>
      ∃ msg, deliveries ls = ops.filterMap SerialOp.delivery ++ [(msg, now)]
        ∧ readMessage T msg = .proceed jobId newState errorMsg
  | .idle => deliveries ls = ops.filterMap SerialOp.delivery
  | .reread _ => deliveries ls = ops.filterMap SerialOp.delivery
  | .notify _ => deliveries ls = ops.filterMap SerialOp.delivery
  | .dead _ => deliveries ls = ops.filterMap SerialOp.delivery

/-- Rows that calls add, and labels that deliver nothing, keep the account. -/
theorem Accounted.append {ls ls' : List Label} {ops ops' : List SerialOp}
    {T : Table} {pc : HandlerPc} (h : Accounted ls ops T pc)
    (hdel : deliveries ls' = deliveries ls)
    (hops : ops'.filterMap SerialOp.delivery = ops.filterMap SerialOp.delivery)
    (new : Table) : Accounted ls' ops' (T ++ new) pc := by
  match pc, h with
  | .update jobId newState errorMsg now, ⟨msg, hmsg, hread⟩ =>
      refine ⟨msg, ?_, readMessage_append hread new⟩
      rw [hdel, hops, hmsg]
  | .idle, h => exact hdel.trans (Eq.trans h hops.symm)
  | .reread jobId, h => exact hdel.trans (Eq.trans h hops.symm)
  | .notify updated, h => exact hdel.trans (Eq.trans h hops.symm)
  | .dead e, h => exact hdel.trans (Eq.trans h hops.symm)

/-- What a run and the serial execution of its effects so far agree on. -/
structure Serialised (ls : List Label) (ops : List SerialOp) (s : Service)
    (t : Serial) : Prop where
  jobs : t.jobs = s.jobs
  responses : ∀ (i : Nat) (c : Call) (pc : CreatePc), s.calls[i]? = some (c, pc) →
    t.responses[i]? = some (response c pc)
  alive : (∀ e, s.handler ≠ .dead e) → t.alive = true
  messages : Accounted ls ops s.jobs s.handler

/-- The serial execution stays put, or runs one more operation. -/
def Follows (cfg : Config) (cs : List Call) (ls : List Label)
    (ops : List SerialOp) (s' : Service) (t : Serial) : Prop :=
  Serialised ls ops s' t
    ∨ ∃ op t', serialStep cfg cs t op = some t'
        ∧ Serialised ls (ops ++ [op]) s' t'

section Following

variable {cfg : Config} {cs : List Call} {ls : List Label}
  {ops : List SerialOp} {s : Service} {t : Serial}

/-- The serial run follows a step of a call: with the whole call where it
    commits or answers, else with nothing. -/
theorem follows_call {i : Nat} {c : Call} {pc pc' : CreatePc} {T' : Table}
    {ev : List Event} (hs : Concurrent cfg cs s) (hr : Serialised ls ops s t)
    (here : s.calls[i]? = some (c, pc))
    (move : CreateMove cfg c s.jobs pc pc' T' ev) :
    Follows cfg cs (ls ++ [.call i]) ops
      { s with jobs := T', calls := s.calls.set i (c, pc'), log := s.log ++ ev }
      t := by
  have hc : CallOk cfg c s.jobs pc := hs.ok.call here
  have hdel : deliveries (ls ++ [.call i]) = deliveries ls := by
    rw [deliveries_concat]
    exact List.append_nil _
  rcases call_commits (hs.missed i c pc here) hc move with
    ⟨hresp, rfl⟩ | ⟨hnone, hsome, hT'⟩
  · refine Or.inl ⟨hr.jobs, ?_, hr.alive, ?_⟩
    · intro j c₀ pc₀ hj
      have hj' : (s.calls.set i (c, pc'))[j]? = some (c₀, pc₀) := hj
      rcases getElem?_set_some hj' with ⟨hij, heq⟩ | ⟨-, hold⟩
      · obtain ⟨rfl, rfl⟩ := Prod.mk.inj heq
        rw [← hij, hr.responses i _ pc here, hresp]
      · exact hr.responses j c₀ pc₀ hold
    · have hacc := hr.messages.append hdel rfl []
      rwa [List.append_nil] at hacc
  · have hcs : cs[i]? = some c := call_of_calls hs.calls here
    have hti : t.responses[i]? = some none := by
      rw [hr.responses i c pc here, hnone]
    have htlen : i < t.responses.length := (List.getElem?_eq_some_iff.mp hti).1
    have hst : serialStep cfg cs t (.call i)
        = some { t with
            jobs := T'
            responses := t.responses.set i (some (createJob cfg c s.jobs).1) } := by
      simp only [serialStep, hcs, hti, hr.jobs, hT']
    refine Or.inr ⟨.call i, _, hst, rfl, ?_, hr.alive, ?_⟩
    · intro j c₀ pc₀ hj
      have hj' : (s.calls.set i (c, pc'))[j]? = some (c₀, pc₀) := hj
      show (t.responses.set i _)[j]? = _
      rcases getElem?_set_some hj' with ⟨hij, heq⟩ | ⟨hij, hold⟩
      · obtain ⟨rfl, rfl⟩ := Prod.mk.inj heq
        rw [← hij, List.getElem?_set_self htlen, hsome]
      · rw [List.getElem?_set_ne hij]
        exact hr.responses j c₀ pc₀ hold
    · have hops : (ops ++ [SerialOp.call i]).filterMap SerialOp.delivery
          = ops.filterMap SerialOp.delivery := by
        rw [List.filterMap_append]
        exact List.append_nil _
      show Accounted _ _ T' s.handler
      rcases (CreateMove.ledger move hc).1 with rfl | ⟨happ, -⟩
      · have hacc := hr.messages.append hdel hops []
        rwa [List.append_nil] at hacc
      · rw [happ]
        exact hr.messages.append hdel hops [newJob c]

/-- It follows a delivery with nothing, until the message takes effect. -/
theorem follows_deliver {msg : Delivered} {now : Datetime}
    (hr : Serialised ls ops s t) (hidle : s.handler = .idle) :
    Follows cfg cs (ls ++ [.deliver msg now]) ops
      { s with handler := receive s.jobs msg now } t := by
  have hacc : deliveries ls = ops.filterMap SerialOp.delivery := by
    have h := hr.messages
    rwa [hidle] at h
  have hdel : deliveries (ls ++ [.deliver msg now])
      = ops.filterMap SerialOp.delivery ++ [(msg, now)] := by
    rw [deliveries_concat, hacc]
    rfl
  have hops : (ops ++ [SerialOp.message msg now]).filterMap SerialOp.delivery
      = ops.filterMap SerialOp.delivery ++ [(msg, now)] := List.filterMap_append
  have halive : t.alive = true := hr.alive (by rw [hidle]; intro e he; cases he)
  have hst : serialStep cfg cs t (.message msg now)
      = some { t with
          jobs := (onMessage s.jobs msg now).2.1
          alive := (onMessage s.jobs msg now).1.isOk } := by
    simp only [serialStep, if_pos halive, hr.jobs]
  cases hread : readMessage s.jobs msg with
  | ignored why =>
      rw [onMessage_ignored now hread] at hst
      refine Or.inr ⟨.message msg now, _, hst, ?_⟩
      rw [receive, hread]
      exact ⟨rfl, hr.responses, fun _ => rfl, hdel.trans hops.symm⟩
  | raised e =>
      rw [onMessage_raised now hread] at hst
      refine Or.inr ⟨.message msg now, _, hst, ?_⟩
      rw [receive, hread]
      exact ⟨rfl, hr.responses, fun h => absurd rfl (h e), hdel.trans hops.symm⟩
  | proceed jobId newState errorMsg =>
      rw [receive, hread]
      exact Or.inl ⟨hr.jobs, hr.responses, fun _ => halive, msg, hdel, hread⟩

/-- It follows the handler with the whole message where its update commits. -/
theorem follows_handler {pc' : HandlerPc} {T' : Table} {ev : List Event}
    (hs : Concurrent cfg cs s) (hr : Serialised ls ops s t)
    (move : HandlerMove s.jobs s.handler pc' T' ev) :
    Follows cfg cs (ls ++ [.handler]) ops
      { s with jobs := T', handler := pc', log := s.log ++ ev } t := by
  have hdel : deliveries (ls ++ [.handler]) = deliveries ls := by
    rw [deliveries_concat]
    exact List.append_nil _
  have hok := hs.ok.handler
  have halive := hr.alive
  have hacc := hr.messages
  generalize s.handler = pc at move hok halive hacc
  cases move with
  | stored jobId newState errorMsg now T' stored =>
      obtain ⟨msg, hmsg, hread⟩ := hacc
      have hops : (ops ++ [SerialOp.message msg now]).filterMap SerialOp.delivery
          = ops.filterMap SerialOp.delivery ++ [(msg, now)] :=
        List.filterMap_append
      obtain ⟨-, id, st, err, hid, hst, herr, hT'⟩ :=
        store_ledger hs.ok.ids hok stored
      have hwhole := onMessage_stored now hread hid hst herr
      have hst : serialStep cfg cs t (.message msg now)
          = some { t with jobs := T', alive := true } := by
        simp only [serialStep, if_pos (halive (fun e he => by cases he)), hr.jobs,
          hwhole.1, hwhole.2, hT']
        rfl
      exact Or.inr ⟨.message msg now, _, hst, rfl, hr.responses, fun _ => rfl,
        hdel.trans (hmsg.trans hops.symm)⟩
  | storeRaised jobId newState errorMsg now e T' stored =>
      obtain ⟨msg, hmsg, hread⟩ := hacc
      have hops : (ops ++ [SerialOp.message msg now]).filterMap SerialOp.delivery
          = ops.filterMap SerialOp.delivery ++ [(msg, now)] :=
        List.filterMap_append
      obtain ⟨rfl, herr⟩ := store_raised hok stored
      have hst : serialStep cfg cs t (.message msg now)
          = some { t with jobs := s.jobs, alive := false } := by
        simp only [serialStep, if_pos (halive (fun e he => by cases he)), hr.jobs,
          onMessage_unbound now hread herr]
        rfl
      exact Or.inr ⟨.message msg now, _, hst, rfl, hr.responses,
        fun h => absurd rfl (h e), hdel.trans (hmsg.trans hops.symm)⟩
  | rereadRaised jobId e bound =>
      -- the id was bound once already, by the update
      obtain ⟨id, r, hid, -⟩ := hok
      rw [hid] at bound
      cases bound
  | gone jobId id bound found =>
      exact Or.inl ⟨hr.jobs, hr.responses,
        fun _ => halive (fun e he => by cases he), hdel.trans hacc⟩
  | reread jobId id updated bound found =>
      exact Or.inl ⟨hr.jobs, hr.responses,
        fun _ => halive (fun e he => by cases he), hdel.trans hacc⟩
  | notify updated =>
      exact Or.inl ⟨hr.jobs, hr.responses,
        fun _ => halive (fun e he => by cases he), hdel.trans hacc⟩

/-- A step of the service is silent, or the serial execution follows with the
    operation that takes effect in it. -/
theorem follows_step {s' : Service} {l : Label} (hs : Concurrent cfg cs s)
    (hr : Serialised ls ops s t) (hl : ∀ c, l ≠ .submit c)
    (h : step cfg s l = some s') : Follows cfg cs (ls ++ [l]) ops s' t := by
  cases step_move h with
  | submit c => exact absurd rfl (hl c)
  | call i c pc pc' T' ev here move => exact follows_call hs hr here move
  | deliver msg now idle => exact follows_deliver hr idle
  | handler pc' T' ev move => exact follows_handler hs hr move

end Following

theorem serialised_waiting (T : Table) (cs : List Call) :
    Serialised [] [] (Service.waiting T cs) (Serial.start T cs) := by
  refine ⟨rfl, ?_, fun _ => rfl, rfl⟩
  intro i c pc hi
  obtain ⟨hc, rfl⟩ := waiting_start hi
  show (cs.map (fun _ => (none : Option CreateResult)))[i]? = _
  rw [List.getElem?_map, hc]
  rfl

/-- Every run of calls with distinct keys and messages has a serial execution
    of its effects so far. -/
theorem serialised_run {cfg : Config} {T : Table} {cs : List Call}
    {ls : List Label} {s : Service} (hT : ReachableTable cfg T)
    (hkeys : (cs.map callKey).Nodup) (hls : ∀ l ∈ ls, ∀ c, l ≠ .submit c)
    (h : exec (step cfg) (Service.waiting T cs) ls = some s) :
    Concurrent cfg cs s
      ∧ ∃ ops t, exec (serialStep cfg cs) (Serial.start T cs) ops = some t
          ∧ Serialised ls ops s t := by
  have h0 : (∀ l ∈ ([] : List Label), ∀ c, l ≠ .submit c) →
      Concurrent cfg cs (Service.waiting T cs)
        ∧ ∃ ops t, exec (serialStep cfg cs) (Serial.start T cs) ops = some t
            ∧ Serialised [] ops (Service.waiting T cs) t := by
    intro _
    exact ⟨concurrent_waiting hT cs, [], Serial.start T cs, rfl,
      serialised_waiting T cs⟩
  refine exec_history (I := fun ls s => (∀ l ∈ ls, ∀ c, l ≠ Label.submit c) →
    Concurrent cfg cs s
      ∧ ∃ ops t, exec (serialStep cfg cs) (Serial.start T cs) ops = some t
          ∧ Serialised ls ops s t) ?_ h0 h hls
  intro ls s l s' ih hst hls
  have hl := hls l (List.mem_append_right ls List.mem_cons_self)
  obtain ⟨hs, ops, t, hrun, hr⟩ :=
    ih (fun m hm => hls m (List.mem_append_left [l] hm))
  refine ⟨concurrent_step hkeys hs hl hst, ?_⟩
  rcases follows_step hs hr hl hst with hstay | ⟨op, t', hop, hr'⟩
  · exact ⟨ops, t, hrun, hstay⟩
  · exact ⟨ops ++ [op], t', exec_concat.mpr ⟨t, hrun, hop⟩, hr'⟩

/-- **Serialisability**: calls with distinct keys, run to their ends in any
    interleaving with each other and with the handling of messages, leave the
    table and get the responses of some serial execution, which runs every
    call once and the messages in their order. -/
theorem serialisable {cfg : Config} {T : Table} {cs : List Call}
    {ls : List Label} {s : Service} (hT : ReachableTable cfg T)
    (hkeys : (cs.map callKey).Nodup) (hls : ∀ l ∈ ls, ∀ c, l ≠ .submit c)
    (h : exec (step cfg) (Service.waiting T cs) ls = some s)
    (hcalls : ∀ p ∈ s.calls, ∃ result, p.2 = .returned result)
    (hhandler : s.handler = .idle ∨ ∃ e, s.handler = .dead e) :
    ∃ ops t, exec (serialStep cfg cs) (Serial.start T cs) ops = some t
      ∧ (ops.filterMap SerialOp.index).Perm (List.range cs.length)
      ∧ ops.filterMap SerialOp.delivery = deliveries ls
      ∧ t.jobs = s.jobs
      ∧ ∀ (i : Nat) (c : Call) (result : CreateResult),
          s.calls[i]? = some (c, .returned result) →
            t.responses[i]? = some (some result) := by
  obtain ⟨hs, ops, t, hrun, hr⟩ := serialised_run hT hkeys hls h
  have honce := runsOnce_run hrun
  have hlen : s.calls.length = cs.length := by
    rw [← hs.calls, List.length_map]
  refine ⟨ops, t, hrun, ?_, ?_, hr.jobs, fun i c result hi =>
    hr.responses i c _ hi⟩
  · refine (List.perm_ext_iff_of_nodup honce.nodup List.nodup_range).mpr ?_
    intro i
    rw [honce.responses i, List.mem_range]
    constructor
    · rintro ⟨result, hi⟩
      rw [← honce.length]
      exact (List.getElem?_eq_some_iff.mp hi).1
    · intro hi
      have hi' : i < s.calls.length := hlen.symm ▸ hi
      have hget : s.calls[i]? = some s.calls[i] := List.getElem?_eq_getElem hi'
      obtain ⟨result, hres⟩ := hcalls _ (List.getElem_mem hi')
      refine ⟨result, ?_⟩
      rw [hr.responses i s.calls[i].1 s.calls[i].2 hget, hres]
      rfl
  · have hacc := hr.messages
    rcases hhandler with hidle | ⟨e, hdead⟩
    · rw [hidle] at hacc
      exact hacc.symm
    · rw [hdead] at hacc
      exact hacc.symm

/-- Two users book one window, and the second overtakes the first. -/
private def overtaken : Call :=
  booking "user-001" "k1" "job-1" "asset-001" (february 2 1) (february 2 3) .handed

private def overtaking : Call :=
  booking "user-002" "k1" "job-2" "asset-001" (february 2 1) (february 2 3) .handed

/-- Both look up and validate, the second inserts, and a result for its row is
    read before the first inserts and stored after it. -/
private def overtakingRun : List Label :=
  [.call 0, .call 1, .call 0, .call 1, .call 1,
    .deliver (resultMessage "job-2" "RUNNING") (february 1 1),
    .call 0, .handler, .call 1, .handler, .handler]

/-- The handler is ready for the next message. -/
private def waits : HandlerPc → Bool
  | .idle => true
  | .update _ _ _ _ => false
  | .reread _ => false
  | .notify _ => false
  | .dead _ => false

/-- The serial order has the same answers: 409 for the first call, 201 for the
    second one. -/
theorem serialisable_overtaking :
    ∃ s ops t, exec (step seedConfig) (Service.waiting [] [overtaken, overtaking])
        overtakingRun = some s
      ∧ exec (serialStep seedConfig [overtaken, overtaking])
          (Serial.start [] [overtaken, overtaking]) ops = some t
      ∧ (ops.filterMap SerialOp.index).Perm [0, 1]
      ∧ ops.filterMap SerialOp.delivery
        = [(resultMessage "job-2" "RUNNING", february 1 1)]
      ∧ t.jobs = s.jobs
      ∧ t.responses[0]?
        = some (some (.ok (.conflict, .inr ErrorMessages.overlapConflict)))
      ∧ t.responses[1]?
        = some (some (.ok (.created, .inl (newJob overtaking)))) := by
  obtain ⟨s, hs, hobs⟩ := Option.map_eq_some_iff.mp
    (show (exec (step seedConfig) (Service.waiting [] [overtaken, overtaking])
        overtakingRun).map (fun s => (s.calls, waits s.handler))
      = some ([(overtaken, .returned (.ok (.conflict,
            .inr ErrorMessages.overlapConflict))),
          (overtaking, accepted (newJob overtaking))], true) by decide)
  obtain ⟨hcalls, hidle⟩ := Prod.mk.inj hobs
  have hhandler : s.handler = .idle := by
    cases hpc : s.handler with
    | idle => rfl
    | _ => rw [hpc] at hidle; cases hidle
  have hdone : ∀ p ∈ s.calls, ∃ result, p.2 = .returned result := by
    intro p hp
    rw [hcalls, List.mem_cons, List.mem_singleton] at hp
    rcases hp with rfl | rfl
    · exact ⟨_, rfl⟩
    · exact ⟨_, rfl⟩
  have hlabels : ∀ l ∈ overtakingRun, ∀ c, l ≠ .submit c := by
    intro l hl c heq
    rw [heq] at hl
    simp [overtakingRun] at hl
  obtain ⟨ops, t, hrun, hperm, hdel, hjobs, hresp⟩ :=
    serialisable ⟨[], Service.empty, rfl, rfl⟩ (by decide) hlabels hs hdone
      (Or.inl hhandler)
  refine ⟨s, ops, t, hs, hrun, hperm, hdel, hjobs, ?_, ?_⟩
  · exact hresp 0 overtaken _ (by rw [hcalls]; rfl)
  · exact hresp 1 overtaking _ (by rw [hcalls]; rfl)

end JobSerial
