import JobScheduling.JobLedger
import Mathlib.Data.List.Destutter
import Mathlib.Data.List.ReduceOption

/-! # The life of a row

    What any run of the service does to one stored job: the states it goes
    through form a path of `VALID_TRANSITIONS` from PENDING, a step changes
    it only for the message the handler is working on, and nothing but its
    state, error message and update time is ever rewritten. -/

namespace JobLifecycle

open JobConstants JobClock JobPayload JobModels JobRepository JobBroker JobOrchestrator
open JobService JobLedger KeyedTable Runs

/-! ## Paths of the state machine -/

/-- How often a state can still be left. -/
def depth : JobState → Nat
  | .pending => 2
  | .running => 1
  | .completed => 0
  | .failed => 0

/-- Every allowed transition comes closer to the end. -/
theorem depth_lt_of_allowed {a b : JobState} (h : Allowed a b) :
    depth b < depth a := by
  revert h
  cases a <;> cases b <;> decide

/-- A path has no more edges than its first state has depth. -/
theorem path_length {a : JobState} {path : List JobState}
    (h : (a :: path).IsChain Allowed) : path.length ≤ depth a := by
  induction path generalizing a with
  | nil => exact Nat.zero_le _
  | cons b path ih =>
      rw [List.isChain_cons_cons] at h
      have hrest : path.length ≤ depth b := ih h.2
      have hedge : depth b < depth a := depth_lt_of_allowed h.1
      show path.length + 1 ≤ depth a
      omega

/-! ## One step -/

/-- The stored state of the row of an id. -/
def rowState (T : Table) (id : String) : Option String :=
  (sqlFindByIdUnscoped T (some id)).map Job.state

/-- How the stored state of an id may change in one step. -/
inductive StateMove : Option String → Option String → Prop where
  | same (v : Option String) : StateMove v v
  | born : StateMove none (some statePending)
  | edge (a b : JobState) (allowed : Allowed a b) :
      StateMove (some a.value) (some b.value)

/-- A new row is PENDING, and the others keep their states. -/
theorem rowState_admit (T : Table) (job : Job)
    (hstate : job.state = statePending) (id : String) :
    StateMove (rowState T id) (rowState (T ++ [job]) id) := by
  have hcases : ∀ found : Option Job, T.find? (fun r => r.id = id) = found →
      StateMove (found.map Job.state) (rowState (T ++ [job]) id) := by
    intro found hf
    cases found with
    | some r =>
        have hf' : sqlFindByIdUnscoped (T ++ [job]) (some id) = some r :=
          find?_append_of_some hf
        rw [rowState, hf']
        exact .same _
    | none =>
        have hnew : rowState (T ++ [job]) id
            = ([job].find? (fun r => r.id = id)).map Job.state := by
          show ((T ++ [job]).find? (fun r => r.id = id)).map Job.state = _
          rw [List.find?_append, hf]
          rfl
        rw [hnew]
        by_cases hid : job.id = id
        · rw [List.find?_singleton, if_pos (decide_eq_true hid)]
          show StateMove none (some job.state)
          rw [hstate]
          exact .born
        · have hno : ¬ (decide (job.id = id) = true) := by
            rwa [decide_eq_true_iff]
          rw [List.find?_singleton, if_neg hno]
          exact .same none
  exact hcases _ rfl

/-- An update moves its row along the transition, and no other one. -/
theorem rowState_transition {T : Table} {id : String} {a b : JobState}
    {err : Option String} {now : String}
    (source : ∀ r ∈ T, r.id = id → r.state = a.value) (edge : Allowed a b)
    (id' : String) :
    StateMove (rowState T id') (rowState (setState T id b.value err now) id') := by
  rw [rowState, rowState, sqlFindByIdUnscoped_setState]
  cases hf : sqlFindByIdUnscoped T (some id') with
  | none => exact .same none
  | some r =>
      show StateMove (some r.state) (some (Job.state
        (if r.id == id then r.setState b.value err now else r)))
      by_cases hid : (r.id == id) = true
      · obtain ⟨hr, -⟩ := sqlFindByIdUnscoped_some hf
        rw [if_pos hid, source r hr (by simpa using hid)]
        exact .edge a b edge
      · rw [if_neg hid]
        exact .same _

/-- A step of the service moves the stored state of an id at most once. -/
theorem rowState_step {cfg : Config} {s s' : Service} {l : Label}
    (hs : ServiceOk cfg s) (h : step cfg s l = some s') (id : String) :
    StateMove (rowState s.jobs id) (rowState s'.jobs id) := by
  rcases (step_refines hs h).1 with heq | hstep
  · rw [heq]
    exact .same _
  · -- one case per operation of the ledger
    generalize s'.jobs = T' at hstep
    cases hstep with
    | insert job admits state err => exact rowState_admit s.jobs job state id
    | transition id' a b err now source edge =>
        exact rowState_transition source edge id

/-! ## From one step to a path -/

/-- From a state on, the distinct stored states are a path. -/
theorem path_of_chain {os : List (Option String)} {a : JobState}
    (h : (some a.value :: os).IsChain StateMove) :
    ∃ path : List JobState,
      os.reduceOption.destutter' (· ≠ ·) a.value = (a :: path).map JobState.value
        ∧ (a :: path).IsChain Allowed := by
  induction os generalizing a with
  | nil => exact ⟨[], rfl, List.isChain_singleton a⟩
  | cons o os ih =>
      obtain ⟨hmove, hrest⟩ := List.isChain_cons_cons.mp h
      -- the next value is the same, or one edge further
      generalize hv : some a.value = v at hmove
      cases hmove with
      | same v =>
          rw [← hv] at hrest ⊢
          obtain ⟨path, heq, hchain⟩ := ih hrest
          refine ⟨path, ?_, hchain⟩
          rw [List.reduceOption_cons_of_some,
            List.destutter'_cons_neg _ (fun hne => hne rfl)]
          exact heq
      | born => cases hv
      | edge a' b allowed =>
          have ha : a = a' := value_injective (Option.some.inj hv)
          rw [← ha] at allowed
          obtain ⟨path, heq, hchain⟩ := ih hrest
          refine ⟨b :: path, ?_, List.isChain_cons_cons.mpr ⟨allowed, hchain⟩⟩
          have hne : a.value ≠ b.value := by
            intro hab
            have hlt := depth_lt_of_allowed allowed
            rw [value_injective hab] at hlt
            exact Nat.lt_irrefl _ hlt
          rw [List.reduceOption_cons_of_some, List.destutter'_cons_pos _ hne, heq]
          rfl

/-- Before a row exists there is no state; its first one is PENDING. -/
theorem path_from_birth {os : List (Option String)}
    (h : (none :: os).IsChain StateMove) :
    ∃ path : List JobState,
      os.reduceOption.destutter (· ≠ ·) = path.map JobState.value
        ∧ path.IsChain Allowed ∧ ∀ a ∈ path.head?, a = .pending := by
  induction os with
  | nil =>
      refine ⟨[], rfl, List.isChain_nil, ?_⟩
      intro a ha
      cases ha
  | cons o os ih =>
      obtain ⟨hmove, hrest⟩ := List.isChain_cons_cons.mp h
      generalize hv : (none : Option String) = v at hmove
      cases hmove with
      | same v =>
          rw [← hv] at hrest ⊢
          rw [List.reduceOption_cons_of_none]
          exact ih hrest
      | born =>
          obtain ⟨path, heq, hchain⟩ := path_of_chain (a := .pending) hrest
          refine ⟨.pending :: path, heq, hchain, ?_⟩
          intro a ha
          exact (Option.some.inj ha).symm
      | edge a b allowed => cases hv

/-- The distinct states the row of an id goes through along a run. -/
def rowStates (cfg : Config) (ls : List Label) (id : String) : List String :=
  (((visited (step cfg) Service.empty ls).map
    (fun s => rowState s.jobs id)).reduceOption).destutter (· ≠ ·)

/-- The states a row is seen in are a path of allowed transitions from PENDING. -/
theorem rowStates_path {cfg : Config} {ls : List Label} {s : Service}
    (h : exec (step cfg) Service.empty ls = some s) (id : String) :
    ∃ path : List JobState, rowStates cfg ls id = path.map JobState.value
      ∧ path.IsChain Allowed ∧ ∀ a ∈ path.head?, a = .pending := by
  have hchain : ((visited (step cfg) Service.empty ls).map
      (fun s => rowState s.jobs id)).IsChain StateMove := by
    rw [List.isChain_map]
    refine visited_isChain (I := ServiceOk cfg) ?_ ?_ (serviceOk_empty cfg) h
    · exact fun _ _ _ hs hst => serviceOk_step hs hst
    · exact fun _ _ _ hs hst => rowState_step hs hst id
  have hnone : ((none : Option String) :: (visited (step cfg) Service.empty ls).map
      (fun s => rowState s.jobs id)).IsChain StateMove := by
    rw [List.isChain_cons]
    refine ⟨?_, hchain⟩
    intro v hv
    rw [List.head?_map, head?_visited] at hv
    rw [← Option.some.inj hv]
    exact .same none
  exact path_from_birth hnone

/-! ## The message a step works on -/

/-- The last message delivered so far: the one the handler works on. -/
def lastDelivered (ls : List Label) : Option Delivered :=
  (deliveries ls).getLast?.map Prod.fst

/-- Only a delivery changes it. -/
theorem lastDelivered_concat (ls : List Label) (l : Label) :
    lastDelivered (ls ++ [l])
      = ((Label.delivery l).map Prod.fst).or (lastDelivered ls) := by
  rw [lastDelivered, deliveries_concat]
  cases l with
  | deliver msg now =>
      show ((deliveries ls ++ [(msg, now)]).getLast?).map Prod.fst = some msg
      rw [List.getLast?_concat]
      rfl
  | _ =>
      show ((deliveries ls ++ []).getLast?).map Prod.fst = lastDelivered ls
      rw [List.append_nil]
      rfl

/-- A pending update carries the fields of the message delivered last. -/
def Handling (ls : List Label) (s : Service) : Prop :=
  ∀ jobId newState errorMsg now,
    s.handler = .update jobId newState errorMsg now →
      ∃ payload, lastDelivered ls = some (.ok (.obj payload))
        ∧ jobId = dictGet payload fieldJobId
        ∧ newState = dictGet payload fieldState
        ∧ errorMsg = dictGet payload fieldErrorMessage

/-- Whatever step comes next, the handler works on the last message delivered to
    it. -/
theorem handling_step {cfg : Config} {ls : List Label} {s s' : Service}
    {l : Label} (hs : Handling ls s) (h : step cfg s l = some s') :
    Handling (ls ++ [l]) s' := by
  intro jobId newState errorMsg now hh
  rw [lastDelivered_concat]
  cases step_move h with
  | submit c => exact hs jobId newState errorMsg now hh
  | call i c pc pc' T' ev here move => exact hs jobId newState errorMsg now hh
  | deliver msg now' idle =>
      have hrec : receive s.jobs msg now' = .update jobId newState errorMsg now := hh
      rw [receive] at hrec
      cases hv : readMessage s.jobs msg with
      | ignored why => rw [hv] at hrec; cases hrec
      | raised e => rw [hv] at hrec; cases hrec
      | proceed j n e =>
          rw [hv] at hrec
          injection hrec with hj hn he
          obtain ⟨payload, -, -, -, -, hmsg, hjob, -, hstate, herr, -⟩ :=
            readMessage_proceed hv
          refine ⟨payload, ?_, hj.symm.trans hjob, hn.symm.trans hstate,
            he.symm.trans herr⟩
          rw [hmsg]
          rfl
  | handler pc' T' ev move =>
      -- no handler step leads to another update
      have hpc : pc' = .update jobId newState errorMsg now := hh
      rw [hpc] at move
      generalize s.handler = pc at move
      cases move

theorem handling_run {cfg : Config} {ls : List Label} {s : Service}
    (h : exec (step cfg) Service.empty ls = some s) : Handling ls s := by
  have h0 : Handling [] Service.empty := by
    intro jobId newState errorMsg now hh
    cases hh
  exact exec_history (I := Handling) (fun _ _ _ _ hs hst => handling_step hs hst)
    h0 h

/-- A step that changes a stored row is the handler's, and changes only the
    row whose id is the job id of the message it works on. -/
theorem changed_row {cfg : Config} {ls : List Label} {s s' : Service}
    {l : Label} (h : exec (step cfg) Service.empty ls = some s)
    (hst : step cfg s l = some s') {i : Nat} {r r' : Job}
    (hr : s.jobs[i]? = some r) (hr' : s'.jobs[i]? = some r') (hne : r' ≠ r) :
    l = .handler ∧ SameJob r r' ∧ ∃ payload,
      lastDelivered ls = some (.ok (.obj payload))
        ∧ (dictGet payload fieldJobId).bindText = .ok (some r.id) := by
  have hok := serviceOk_run h
  have hstay : s'.jobs ≠ s.jobs := by
    intro heq
    rw [heq, hr] at hr'
    exact hne (Option.some.inj hr').symm
  obtain ⟨hlen, -⟩ := List.getElem?_eq_some_iff.mp hr
  cases step_move hst with
  | submit c => exact absurd rfl hstay
  | call k c pc pc' T' ev here move =>
      -- a call only ever appends a row
      have hc : CallOk cfg c s.jobs pc := hok.call here
      rcases (CreateMove.ledger move hc).1 with heq | ⟨happ, -⟩
      · exact absurd heq hstay
      · have hsame : (s.jobs ++ [newJob c])[i]? = some r' := by
          rw [← happ]
          exact hr'
        rw [List.getElem?_append_left hlen, hr] at hsame
        exact absurd (Option.some.inj hsame).symm hne
  | deliver msg now idle => exact absurd rfl hstay
  | handler pc' T' ev move =>
      generalize hpc : s.handler = pc at move
      cases move with
      | stored jobId newState errorMsg now T' stored =>
          have hupd : HandlerOk s.jobs (.update jobId newState errorMsg now) := by
            rw [← hpc]
            exact hok.handler
          obtain ⟨hstep, id, st, err, hid, -, -, hT'⟩ :=
            store_ledger hok.ids hupd stored
          obtain ⟨payload, hmsg, hjob, -, -⟩ :=
            handling_run h jobId newState errorMsg now hpc
          have hrow : (setState s.jobs id st err now.strftime)[i]? = some r' := by
            rw [← hT']
            exact hr'
          rw [setState, updateWhere, List.getElem?_map, hr] at hrow
          have hrow' : (if r.id == id then r.setState st err now.strftime else r)
              = r' := Option.some.inj hrow
          by_cases hrid : (r.id == id) = true
          · rw [if_pos hrid] at hrow'
            refine ⟨rfl, ?_, payload, hmsg, ?_⟩
            · rw [← hrow']
              exact sameJob_setState r st err now.strftime
            · rw [← hjob, hid, (by simpa using hrid : r.id = id)]
          · rw [if_neg hrid] at hrow'
            exact absurd hrow'.symm hne
      | storeRaised jobId newState errorMsg now e T' stored =>
          have hupd : HandlerOk s.jobs (.update jobId newState errorMsg now) := by
            rw [← hpc]
            exact hok.handler
          exact absurd (store_raised hupd stored).1 hstay
      | rereadRaised jobId e bound => exact absurd rfl hstay
      | gone jobId id bound found => exact absurd rfl hstay
      | reread jobId id updated bound found => exact absurd rfl hstay
      | notify updated => exact absurd rfl hstay

/-- Only a step of a call adds a row. -/
theorem ids_unchanged {cfg : Config} {s s' : Service} {l : Label}
    (hok : ServiceOk cfg s) (hst : step cfg s l = some s')
    (hl : ∀ i, l ≠ .call i) : s'.jobs.map Job.id = s.jobs.map Job.id := by
  cases step_move hst with
  | submit c => rfl
  | call i c pc pc' T' ev here move => exact absurd rfl (hl i)
  | deliver msg now idle => rfl
  | handler pc' T' ev move =>
      exact HandlerMove.column (fun _ _ _ _ => rfl) move hok.ids hok.handler

/-- **State-machine safety**: along every run the distinct states of a row are
    a path of the state machine from PENDING, with at most two edges; a step
    changes a row only in its three mutable columns, and only for the message
    that names it; a message adds no row; and no row is ever removed or turned
    into another job. -/
theorem state_machine_safety {cfg : Config} {ls : List Label} {s : Service}
    (h : exec (step cfg) Service.empty ls = some s) :
    (∀ id, ∃ path : List JobState, rowStates cfg ls id = path.map JobState.value
        ∧ path.IsChain Allowed ∧ (∀ a ∈ path.head?, a = .pending)
        ∧ path.length ≤ 3)
      ∧ (∀ l s', step cfg s l = some s' →
          ∀ (i : Nat) (r r' : Job), s.jobs[i]? = some r → s'.jobs[i]? = some r' →
            r' ≠ r → l = .handler ∧ SameJob r r' ∧ ∃ payload,
              lastDelivered ls = some (.ok (.obj payload))
                ∧ (dictGet payload fieldJobId).bindText = .ok (some r.id))
      ∧ (∀ l s', step cfg s l = some s' → (∀ i, l ≠ .call i) →
          s'.jobs.map Job.id = s.jobs.map Job.id)
      ∧ ∀ ms s', exec (step cfg) s ms = some s' →
          Evolves SameJob s.jobs s'.jobs := by
  refine ⟨?_, ?_, ?_, ?_⟩
  · intro id
    obtain ⟨path, heq, hchain, hhead⟩ := rowStates_path h id
    refine ⟨path, heq, hchain, hhead, ?_⟩
    cases path with
    | nil => exact Nat.zero_le _
    | cons a path =>
        have hlen := path_length hchain
        have ha : a = .pending := hhead a rfl
        rw [ha] at hlen
        exact Nat.succ_le_succ hlen
  · intro l s' hst i r r' hr hr' hne
    exact changed_row h hst hr hr' hne
  · intro l s' hst hl
    exact ids_unchanged (serviceOk_run h) hst hl
  · intro ms s' hms
    exact jobs_evolve (serviceOk_run h) hms

/-- One booking, its dispatch answered twice and out of order. -/
private def repeatedResults : List Label :=
  [.submit (booking "user-001" "k1" "job-1" "asset-001" (february 2 1)
      (february 2 3) .handed),
    .call 0, .call 0, .call 0, .call 0,
    .deliver (resultMessage "job-1" "RUNNING") (february 1 1),
    .handler, .handler, .handler,
    .deliver (resultMessage "job-1" "COMPLETED") (february 1 2),
    .handler, .handler, .handler,
    .deliver (resultMessage "job-1" "RUNNING") (february 1 3)]

/-- Results that come twice or too late change nothing. -/
theorem state_machine_safety_repeatedResults :
    ∃ s, exec (step seedConfig) Service.empty repeatedResults = some s
      ∧ rowStates seedConfig repeatedResults "job-1"
        = ["PENDING", "RUNNING", "COMPLETED"]
      ∧ ∀ ms s', exec (step seedConfig) s ms = some s' →
          Evolves SameJob s.jobs s'.jobs := by
  obtain ⟨s, hs⟩ := Option.isSome_iff_exists.mp
    (show (exec (step seedConfig) Service.empty repeatedResults).isSome = true by
      decide)
  exact ⟨s, hs, by decide, (state_machine_safety hs).2.2.2⟩

end JobLifecycle
