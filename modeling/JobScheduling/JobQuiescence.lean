import JobScheduling.JobOutcomes

/-! # Nothing is stuck when the system is quiet

    With the worker as the only other party, publishes that arrive and topics
    that reorder but neither lose nor copy, every row that has not reached its
    end is in somebody's hands (`Held`): a call that has still to publish
    it, its dispatch in flight, a thread at work on it, the answer in flight,
    or the handler about to store that answer.

    Each step hands the row on or ends it (`accounted_step`), so where nobody
    holds anything every row is at its end (`quiet_rows_terminal`). -/

namespace JobQuiescence

open JobConstants JobClock JobPayload JobModels JobRepository JobBroker
open JobOrchestrator JobService JobLedger JobHandler JobWorker JobSystem
open JobOutcomes KeyedTable Runs Channels

/-- No edge leaves the state of the row. -/
def Terminal (r : Job) : Prop := r.state = stateFailed ∨ r.state = stateCompleted

/-! ## Who holds a row -/

/-- A call has committed the row and not published it yet. -/
def Publishes (calls : List (Call × CreatePc)) (r : Job) : Prop :=
  ∃ c job, (c, .publish job) ∈ calls ∧ job.id = r.id

/-- The thread works on the dispatch of the row. -/
def WorksOn (r : Job) : WorkerPc → Prop
  | .started payload => .obj payload = dispatchPayload r
  | .sleeping jobId assetId => jobId = .str r.id ∧ assetId = .str r.assetId
  | .ended => False

def Works (threads : Option (List WorkerPc)) (r : Job) : Prop :=
  ∃ ts, threads = some ts ∧ ∃ pc ∈ ts, WorksOn r pc

/-- The state a message asks for is one no edge leaves. -/
def Final (state : Json) : Prop :=
  state = .str stateFailed ∨ state = .str stateCompleted

/-- The message asks for the end of the row. -/
def Finishes (r : Job) (msg : Delivered) : Prop :=
  ∃ payload, msg = .ok (.obj payload)
    ∧ dictGet payload fieldJobId = .str r.id
    ∧ Final (dictGet payload fieldState)

/-- The handler is about to store the end of the row. -/
def Updates (r : Job) : HandlerPc → Prop
  | .update jobId newState _ _ => jobId = .str r.id ∧ Final newState
  | .idle => False
  | .reread _ => False
  | .notify _ => False
  | .dead _ => False

/-- Somebody will bring the row to its end. -/
inductive Held (sys : System) (r : Job) : Prop where
  | publish (pending : Publishes sys.service.calls r)
  | dispatch (inFlight : dispatchPayload r ∈ sys.dispatches)
  | thread (running : Works sys.threads r)
  | result (m : Result) (inFlight : m ∈ sys.results)
      (final : Finishes r m.payload)
  | update (storing : Updates r sys.service.handler)

section SameJob

variable {r r' : Job}

/-- A thread that works on a row works on it after it has been rewritten. -/
theorem WorksOn.sameJob (hsame : SameJob r r') {pc : WorkerPc}
    (h : WorksOn r pc) : WorksOn r' pc := by
  cases pc with
  | started payload => exact Eq.trans h hsame.dispatchPayload.symm
  | sleeping jobId assetId =>
      obtain ⟨hid, hasset⟩ := h
      exact ⟨by rw [hid, hsame.id], by rw [hasset, hsame.assetId]⟩
  | ended => exact h

/-- Who holds a row does not look at the columns that change. -/
theorem Held.sameJob {sys : System} (hsame : SameJob r r') (h : Held sys r) :
    Held sys r' := by
  cases h with
  | publish pending =>
      obtain ⟨c, job, hmem, hid⟩ := pending
      exact .publish ⟨c, job, hmem, hid.trans hsame.id.symm⟩
  | dispatch inFlight =>
      refine .dispatch ?_
      rw [hsame.dispatchPayload]
      exact inFlight
  | thread running =>
      obtain ⟨ts, hup, pc, hpc, hworks⟩ := running
      exact .thread ⟨ts, hup, pc, hpc, hworks.sameJob hsame⟩
  | result m inFlight final =>
      obtain ⟨payload, hmsg, hid, hfinal⟩ := final
      refine .result m inFlight ⟨payload, hmsg, ?_, hfinal⟩
      rw [hid, hsame.id]
  | update storing =>
      refine .update ?_
      generalize sys.service.handler = pc at storing
      cases pc with
      | update jobId newState errorMsg now =>
          exact ⟨by rw [storing.1, hsame.id], storing.2⟩
      | _ => exact storing

end SameJob

/-! ## The invariant -/

/-- What the broker and the uuid generator promise of a call. -/
def Prompt (c : Call) : Prop := c.publish = .handed ∧ c.uuid ≠ ""

/-- The row has an id and an asset that pass `if not x`, and a state of the
    state machine. -/
structure Sound (r : Job) : Prop where
  id : r.id ≠ ""
  asset : r.assetId ≠ ""
  state : ∃ st : JobState, r.state = st.value

/-- The calls publish, the rows are sound, and everyone of them is covered. -/
structure Accounted (cfg : Config) (sys : System) : Prop where
  genuine : Genuine cfg sys
  calls : ∀ p ∈ sys.service.calls, Prompt p.1
  rows : ∀ r ∈ sys.service.jobs, Sound r
  covered : ∀ r ∈ sys.service.jobs, Terminal r ∨ Held sys r

/-- Publishes arrive, the topics neither lose nor copy, and nobody else
    publishes. -/
def Reliable : SystemLabel → Prop
  | .service (.submit c) => Prompt c
  | .service _ => True
  | .dispatchFault _ => False
  | .receive _ => True
  | .thread _ _ _ publish => publish = .handed
  | .inject _ => False
  | .resultFault _ => False
  | .result _ _ => True

instance : DecidablePred Prompt := fun c =>
  inferInstanceAs (Decidable (c.publish = .handed ∧ c.uuid ≠ ""))

instance : DecidablePred Reliable
  | .service (.submit c) => inferInstanceAs (Decidable (Prompt c))
  | .service (.call _) => isTrue trivial
  | .service (.deliver _ _) => isTrue trivial
  | .service .handler => isTrue trivial
  | .dispatchFault _ => isFalse id
  | .receive _ => isTrue trivial
  | .thread _ _ _ publish => inferInstanceAs (Decidable (publish = .handed))
  | .inject _ => isFalse id
  | .resultFault _ => isFalse id
  | .result _ _ => isTrue trivial

/-! ## What the service hands on -/

/-- A row after the handler's update is a row it was not about, or has moved
    along the edge it stores. -/
theorem stored_rows {T T' : Table} {jobId newState errorMsg : Json}
    {now : Datetime} (hids : (T.map Job.id).Nodup)
    (hok : HandlerOk T (.update jobId newState errorMsg now))
    (stored : (storeState noFaults jobId newState errorMsg now).onTable T
      = (.ok (), T')) {r' : Job} (hr' : r' ∈ T') :
    ∃ r ∈ T, (r' = r ∧ jobId ≠ .str r.id)
      ∨ ∃ (a b : JobState) (err : Option String), r.state = a.value
          ∧ newState = .str b.value ∧ Allowed a b
          ∧ r' = r.setState b.value err now.strftime := by
  obtain ⟨-, id, st, err, hid, hst, -, rfl⟩ := store_ledger hids hok stored
  obtain ⟨id', a, b, r₁, hid', rfl, hab, hr₁, hrid₁, hstate⟩ := hok
  obtain rfl : b.value = st := Option.some.inj (Except.ok.inj hst)
  obtain rfl : id = id' :=
    Option.some.inj (Except.ok.inj (hid.symm.trans hid'))
  obtain ⟨r, hr, heq⟩ := mem_updateWhere.mp hr'
  refine ⟨r, hr, ?_⟩
  by_cases hrid : (r.id == id) = true
  · rw [if_pos hrid] at heq
    have hrow : r = r₁ :=
      List.inj_on_of_nodup_map hids hr hr₁ ((beq_iff_eq.mp hrid).trans hrid₁.symm)
    exact Or.inr ⟨a, b, err, by rw [hrow, hstate], rfl, hab, heq⟩
  · rw [if_neg hrid] at heq
    refine Or.inl ⟨heq, ?_⟩
    rintro rfl
    exact hrid (beq_iff_eq.mpr (Option.some.inj (Except.ok.inj hid)))

/-- Every row a service step leaves is sound, if the calls keep what the seed
    file and the uuid generator promise. -/
theorem sound_step {cfg : Config} {s s' : Service} {l : Label}
    (hseed : "" ∉ cfg.validAssets) (hok : ServiceOk cfg s)
    (hcalls : ∀ p ∈ s.calls, Prompt p.1) (hrows : ∀ r ∈ s.jobs, Sound r)
    (h : step cfg s l = some s') : ∀ r ∈ s'.jobs, Sound r := by
  cases step_move h with
  | submit c => exact hrows
  | deliver msg now idle => exact hrows
  | call i c pc pc' T' ev here move =>
      by_cases hT : T' = s.jobs
      · intro r hr
        have hr' : r ∈ T' := hr
        rw [hT] at hr'
        exact hrows r hr'
      · obtain ⟨job, rfl, -, rfl, -⟩ := CreateMove.admits move hT
        obtain ⟨rfl, hvalid⟩ : job = newJob c
            ∧ JobValidation.validate cfg c.body c.validatedAt = none := hok.call here
        have hc : Prompt c := hcalls _ (List.mem_of_getElem? here)
        have hasset := JobValidation.validate_asset hvalid
        intro r hr
        rcases List.mem_append.mp hr with hold | hnew
        · exact hrows r hold
        · rw [List.mem_singleton.mp hnew]
          refine ⟨hc.2, ?_, .pending, rfl⟩
          intro hempty
          have heq : c.body.assetId = "" := hempty
          rw [heq] at hasset
          exact hseed hasset
  | handler pc' T' ev move =>
      have hhok := hok.handler
      generalize s.handler = pc at move hhok
      cases move with
      | stored jobId newState errorMsg now T' stored =>
          intro r' hr'
          obtain ⟨r, hr, ⟨rfl, -⟩ | ⟨a, b, err, -, -, -, rfl⟩⟩ :=
            stored_rows hok.ids hhok stored hr'
          · exact hrows r' hr
          · exact ⟨(hrows r hr).id, (hrows r hr).asset, b, rfl⟩
      | storeRaised jobId newState errorMsg now e T' stored =>
          intro r hr
          have hr' : r ∈ T' := hr
          rw [(store_raised hhok stored).1] at hr'
          exact hrows r hr'
      | _ => exact hrows

/-- A call that moves keeps its row, or has just handed its dispatch to the
    broker. -/
theorem publishes_call {cfg : Config} {s : Service} (hok : ServiceOk cfg s)
    (hcalls : ∀ p ∈ s.calls, Prompt p.1) {i : Nat} {c : Call}
    {pc pc' : CreatePc} {T' : Table} {ev : List Event}
    (here : s.calls[i]? = some (c, pc))
    (move : CreateMove cfg c s.jobs pc pc' T' ev) {r : Job} (hr : r ∈ s.jobs)
    (h : Publishes s.calls r) :
    Publishes (s.calls.set i (c, pc')) r ∨ dispatchPayload r ∈ handed ev := by
  obtain ⟨c', job, hmem, hid⟩ := h
  rcases mem_set_of_mem here hmem with heq | hstay
  · obtain ⟨-, rfl⟩ := Prod.mk.inj heq
    obtain ⟨-, r₁, hr₁, hsame⟩ : job = newJob c ∧ ∃ r₁ ∈ s.jobs, SameJob job r₁ :=
      hok.call here
    have hrow : r₁ = r :=
      List.inj_on_of_nodup_map hok.ids hr₁ hr (hsame.id.trans hid)
    cases move with
    | publish job =>
        have hprompt : Prompt c := hcalls _ (List.mem_of_getElem? here)
        rw [publishDispatch_events, hprompt.1, ← hrow, hsame.dispatchPayload]
        exact Or.inr (List.mem_singleton_self _)
  · exact Or.inl ⟨c', job, hstay, hid⟩

/-- A row the handler was not about to end is held as before it moved. -/
theorem Held.handler {sys : System} {r : Job} (h : Held sys r)
    (hno : ¬ Updates r sys.service.handler) (T' : Table) (pc' : HandlerPc)
    (log : List Event) (new : List Json) :
    Held { sys with
      service := { sys.service with jobs := T', handler := pc', log := log }
      dispatches := sys.dispatches ++ new } r := by
  cases h with
  | publish pending => exact .publish pending
  | dispatch inFlight => exact .dispatch (List.mem_append_left _ inFlight)
  | thread running => exact .thread running
  | result m inFlight final => exact .result m inFlight final
  | update storing => exact absurd storing hno

/-- A row that can move is not at its end. -/
theorem not_terminal {r : Job} {a b : JobState} (hstate : r.state = a.value)
    (hab : Allowed a b) : ¬ Terminal r := by
  intro hdone
  rw [Terminal, hstate] at hdone
  rcases allowed_source hab with rfl | rfl
  · exact absurd hdone (by decide)
  · exact absurd hdone (by decide)

/-- The error message of an answer binds. -/
theorem Answer.binds {assetId : String} {state err : Json}
    (h : Answer assetId state err) : ∃ t, err.bindText = .ok t := by
  cases h with
  | running => exact ⟨none, rfl⟩
  | failed fault => exact ⟨some failureText, rfl⟩
  | completed sound => exact ⟨none, rfl⟩

/-- What the handler stores, it ends or leaves to whoever held it. -/
theorem covered_handler {cfg : Config} {sys : System} {pc' : HandlerPc}
    {T' : Table} {ev : List Event} (hs : Accounted cfg sys)
    (move : HandlerMove sys.service.jobs sys.service.handler pc' T' ev)
    (log : List Event) (new : List Json) :
    ∀ r ∈ T', Terminal r ∨ Held { sys with
      service := { sys.service with jobs := T', handler := pc', log := log }
      dispatches := sys.dispatches ++ new } r := by
  have hids := hs.genuine.ok.service.ids
  have hok := hs.genuine.ok.service.handler
  have hgen := hs.genuine.service.handler
  have hkeep : ∀ r ∈ sys.service.jobs, ¬ Updates r sys.service.handler →
      Terminal r ∨ Held { sys with
        service := { sys.service with jobs := T', handler := pc', log := log }
        dispatches := sys.dispatches ++ new } r := by
    intro r hr hno
    rcases hs.covered r hr with hdone | hheld
    · exact Or.inl hdone
    · exact Or.inr (hheld.handler hno T' pc' log new)
  generalize sys.service.handler = pc at move hok hgen hkeep
  cases move with
  | stored jobId newState errorMsg now T' stored =>
      intro r' hr'
      obtain ⟨r, hr, ⟨rfl, hother⟩ | ⟨a, b, err, hstate, rfl, hab, rfl⟩⟩ :=
        stored_rows hids hok stored hr'
      · exact hkeep r' hr (fun hup => hother hup.1)
      · cases b with
        | pending => exact absurd hab (by cases a <;> decide)
        | running =>
            -- a row that starts running is still in somebody else's hands
            have hno : ¬ Updates r
                (.update jobId (.str JobState.running.value) errorMsg now) := by
              rintro ⟨-, h | h⟩
              · exact absurd (Json.str.inj h) (by decide)
              · exact absurd (Json.str.inj h) (by decide)
            rcases hkeep r hr hno with hdone | hheld
            · exact absurd hdone (not_terminal hstate hab)
            · exact Or.inr (hheld.sameJob (sameJob_setState r _ _ _))
        | completed => exact Or.inl (Or.inr rfl)
        | failed => exact Or.inl (Or.inl rfl)
  | storeRaised jobId newState errorMsg now e T' stored =>
      obtain ⟨r₁, -, -, hans⟩ := hgen
      obtain ⟨t, ht⟩ := Answer.binds hans
      rw [(store_raised hok stored).2] at ht
      cases ht
  | _ => exact fun r hr => hkeep r hr id

/-! ## What the worker and the topics hand on -/

/-- A thread at work on a row goes on with it, or has published its end. -/
theorem threadStep_works {r : Job} (hrow : Sound r) {timestamp : String}
    {pc pc' : WorkerPc} {sent : List Json} (hpc : WorksOn r pc)
    (h : threadStep timestamp .handed pc = some (pc', sent)) :
    WorksOn r pc' ∨ ∃ p ∈ sent, Finishes r (.ok p) := by
  cases threadStep_move h with
  | ignored payload bad =>
      obtain rfl : payload = [(fieldJobId, .str r.id), (fieldAssetId, .str r.assetId),
          (fieldStartTime, .str r.startTime), (fieldEndTime, .str r.endTime),
          (fieldOperation, r.operation.toJson)] := Json.obj.inj hpc
      -- a dispatch of a row has both fields
      have hgood : ¬ (!(Json.str r.id).truthy || !(Json.str r.assetId).truthy)
          = true := by
        simp [Json.truthy, hrow.id, hrow.asset]
      exact absurd bad hgood
  | running payload sent good sends =>
      obtain rfl : payload = [(fieldJobId, .str r.id), (fieldAssetId, .str r.assetId),
          (fieldStartTime, .str r.startTime), (fieldEndTime, .str r.endTime),
          (fieldOperation, r.operation.toJson)] := Json.obj.inj hpc
      exact Or.inl ⟨rfl, rfl⟩
  | terminal jobId assetId sent sends =>
      obtain ⟨rfl, rfl⟩ := hpc
      rw [← Except.ok.inj sends, terminalPayload]
      refine Or.inr ⟨_, List.mem_singleton_self _, ?_⟩
      by_cases hfault : equalsText (.str r.assetId) faultAssetId = true
      · rw [if_pos hfault]
        exact ⟨_, rfl, rfl, Or.inl rfl⟩
      · rw [if_neg hfault]
        exact ⟨_, rfl, rfl, Or.inr rfl⟩
  | raised pc e raises => cases raises

/-- The answer that ends an open row passes the guard. -/
theorem receive_final {T : Table} (hids : (T.map Job.id).Nodup) {r : Job}
    (hr : r ∈ T) (hrow : Sound r) (hopen : ¬ Terminal r) {msg : Delivered}
    (hmsg : Finishes r msg) (now : Datetime) : Updates r (receive T msg now) := by
  obtain ⟨payload, rfl, hid, hfinal⟩ := hmsg
  have hidThere : (dictGet payload fieldJobId).truthy = true := by
    rw [hid]
    exact bne_iff_ne.mpr hrow.id
  have hstateThere : (dictGet payload fieldState).truthy = true := by
    rcases hfinal with h | h
    · rw [h]; rfl
    · rw [h]; rfl
  have hvalid : isValidTransition (.str r.state) (dictGet payload fieldState)
      = true := by
    obtain ⟨st, hst⟩ := hrow.state
    rw [hst]
    cases st with
    | pending => rcases hfinal with h | h <;> rw [h] <;> rfl
    | running => rcases hfinal with h | h <;> rw [h] <;> rfl
    | completed => exact absurd (Or.inr hst) hopen
    | failed => exact absurd (Or.inl hst) hopen
  have hread := readMessage_present (T := T) hidThere hstateThere
  rw [hid] at hread
  simp only [bindText_str, sqlFindByIdUnscoped_of_mem hids hr, hvalid] at hread
  rw [receive, hread]
  exact ⟨rfl, hfinal⟩

/-! ## Every step keeps the account -/

/-- A step of a call: its own row stays held, and what it commits it holds. -/
theorem covered_call {cfg : Config} {sys : System} (hs : Accounted cfg sys)
    {i : Nat} {c : Call} {pc pc' : CreatePc} {T' : Table} {ev : List Event}
    (here : sys.service.calls[i]? = some (c, pc))
    (move : CreateMove cfg c sys.service.jobs pc pc' T' ev) (log : List Event) :
    ∀ r ∈ T', Terminal r ∨ Held { sys with
      service := { sys.service with
        jobs := T', calls := sys.service.calls.set i (c, pc'), log := log }
      dispatches := sys.dispatches ++ handed ev } r := by
  have hold : ∀ r ∈ sys.service.jobs, Terminal r ∨ Held { sys with
      service := { sys.service with
        jobs := T', calls := sys.service.calls.set i (c, pc'), log := log }
      dispatches := sys.dispatches ++ handed ev } r := by
    intro r hr
    rcases hs.covered r hr with hdone | hheld
    · exact Or.inl hdone
    · refine Or.inr ?_
      cases hheld with
      | publish pending =>
          rcases publishes_call hs.genuine.ok.service hs.calls here move hr pending
            with hstay | hsent
          · exact .publish hstay
          · exact .dispatch (List.mem_append_right _ hsent)
      | dispatch inFlight => exact .dispatch (List.mem_append_left _ inFlight)
      | thread running => exact .thread running
      | result m inFlight final => exact .result m inFlight final
      | update storing => exact .update storing
  by_cases hT : T' = sys.service.jobs
  · intro r hr
    rw [hT] at hr
    exact hold r hr
  · obtain ⟨job, -, rfl, happ, -⟩ := CreateMove.admits move hT
    intro r hr
    rw [happ] at hr
    rcases List.mem_append.mp hr with hmem | hnew
    · exact hold r hmem
    · rw [List.mem_singleton.mp hnew]
      exact Or.inr (.publish ⟨c, job, mem_set_self here, rfl⟩)

/-- Every call of the service was submitted by a reliable step. -/
theorem prompt_step {cfg : Config} {s s' : Service} {l : Label}
    (hcalls : ∀ p ∈ s.calls, Prompt p.1) (hl : Reliable (.service l))
    (h : step cfg s l = some s') : ∀ p ∈ s'.calls, Prompt p.1 := by
  cases step_move h with
  | submit c =>
      intro p hp
      rcases List.mem_append.mp hp with hold | hnew
      · exact hcalls p hold
      · rw [List.mem_singleton.mp hnew]
        exact hl
  | call i c pc pc' T' ev here move =>
      intro p hp
      rcases List.mem_or_eq_of_mem_set hp with hold | hnew
      · exact hcalls p hold
      · rw [hnew]
        exact hcalls (c, pc) (List.mem_of_getElem? here)
  | deliver msg now idle => exact hcalls
  | handler pc' T' ev move => exact hcalls

theorem fromWorker_of_reliable {l : SystemLabel} (h : Reliable l) :
    FromWorker l := by
  cases l with
  | inject msg => exact h
  | _ => exact trivial

/-- A new call changes nothing about who holds a job. -/
theorem held_submit {sys : System} {r : Job} (h : Held sys r) (c : Call)
    (new : List Json) :
    Held { sys with
      service := { sys.service with calls := sys.service.calls ++ [(c, .start)] }
      dispatches := sys.dispatches ++ new } r := by
  cases h with
  | publish pending =>
      obtain ⟨c', job, hmem, hid⟩ := pending
      exact .publish ⟨c', job, List.mem_append_left _ hmem, hid⟩
  | dispatch inFlight => exact .dispatch (List.mem_append_left _ inFlight)
  | thread running => exact .thread running
  | result m inFlight final => exact .result m inFlight final
  | update storing => exact .update storing

/-- A dispatch the worker takes is a thread afterwards. -/
theorem held_receive {sys : System} {r r₁ : Job} (h : Held sys r) {i : Nat}
    {threads : List WorkerPc} {rest : List Json} (up : sys.threads = some threads)
    (taken : take sys.dispatches i = some (dispatchPayload r₁, rest)) :
    Held { sys with
      dispatches := rest
      threads := receiveDispatch threads (dispatchPayload r₁) } r := by
  cases h with
  | publish pending => exact .publish pending
  | dispatch inFlight =>
      rcases mem_take taken inFlight with heq | hrest
      · exact .thread ⟨_, rfl, _,
          List.mem_append_right _ (List.mem_singleton_self _), heq.symm⟩
      · exact .dispatch hrest
  | thread running =>
      obtain ⟨ts, hup, pc, hpc, hworks⟩ := running
      rw [up] at hup
      rw [← Option.some.inj hup] at hpc
      exact .thread ⟨_, rfl, pc, List.mem_append_left _ hpc, hworks⟩
  | result m inFlight final => exact .result m inFlight final
  | update storing => exact .update storing

/-- A thread that publishes the end of its row leaves it to the message. -/
theorem held_thread {sys : System} {r : Job} (hrow : Sound r) (h : Held sys r)
    {j : Nat} {timestamp : String} {threads : List WorkerPc} {pc pc' : WorkerPc}
    {sent : List Json} (up : sys.threads = some threads)
    (here : threads[j]? = some pc)
    (move : threadStep timestamp .handed pc = some (pc', sent)) :
    Held { sys with
      threads := some (threads.set j pc')
      results := sys.results
        ++ sent.map (fun payload => ⟨.worker, .ok payload⟩) } r := by
  cases h with
  | publish pending => exact .publish pending
  | dispatch inFlight => exact .dispatch inFlight
  | thread running =>
      obtain ⟨ts, hup, pc₁, hpc₁, hworks⟩ := running
      rw [up] at hup
      rw [← Option.some.inj hup] at hpc₁
      rcases mem_set_of_mem here hpc₁ with rfl | hstay
      · rcases threadStep_works hrow hworks move with hon | ⟨p, hp, hfinal⟩
        · exact .thread ⟨_, rfl, pc', mem_set_self here, hon⟩
        · refine .result ⟨.worker, .ok p⟩ ?_ hfinal
          exact List.mem_append_right _ (List.mem_map_of_mem hp)
      · exact .thread ⟨_, rfl, pc₁, hstay, hworks⟩
  | result m inFlight final =>
      exact .result m (List.mem_append_left _ inFlight) final
  | update storing => exact .update storing

/-- The answer that ends an open row, once delivered, is what the handler will
    store; any other delivery leaves the row to whoever held it. -/
theorem held_result {sys : System} {r : Job}
    (hids : (sys.service.jobs.map Job.id).Nodup) (hr : r ∈ sys.service.jobs)
    (hrow : Sound r) (hopen : ¬ Terminal r) (h : Held sys r) {i : Nat}
    {m : Result} {rest : List Result}
    (taken : take sys.results i = some (m, rest))
    (idle : sys.service.handler = .idle) (now : Datetime) :
    Held { sys with
      service := { sys.service with
        handler := receive sys.service.jobs m.payload now }
      results := rest } r := by
  cases h with
  | publish pending => exact .publish pending
  | dispatch inFlight => exact .dispatch inFlight
  | thread running => exact .thread running
  | result m' inFlight final =>
      rcases mem_take taken inFlight with rfl | hrest
      · exact .update (receive_final hids hr hrow hopen final now)
      · exact .result m' hrest final
  | update storing =>
      rw [idle] at storing
      exact absurd storing id

/-- **One step of the system** keeps the account. -/
theorem accounted_step {cfg : Config} (hseed : "" ∉ cfg.validAssets)
    {sys sys' : System} {l : SystemLabel} (hs : Accounted cfg sys)
    (hl : Reliable l) (h : systemStep cfg sys l = some sys') :
    Accounted cfg sys' := by
  have hgen := genuine_step hs.genuine (fromWorker_of_reliable hl) h
  have hok := hs.genuine.ok
  cases systemStep_move h with
  | service l s' noMessage hst =>
      refine ⟨hgen, prompt_step hs.calls hl hst,
        sound_step hseed hok.service hs.calls hs.rows hst, ?_⟩
      cases step_move hst with
      | submit c =>
          exact fun r hr => (hs.covered r hr).imp_right (held_submit · c _)
      | deliver msg now idle => exact absurd rfl (noMessage msg now)
      | call i c pc pc' T' ev here move =>
          have hev : (sys.service.log ++ ev).drop sys.service.log.length = ev :=
            List.drop_left
          rw [hev]
          exact covered_call hs here move (sys.service.log ++ ev)
      | handler pc' T' ev move => exact covered_handler hs move _ _
  | receive i threads payload rest up taken =>
      obtain ⟨r₁, -, rfl⟩ := hok.dispatches payload (mem_of_take taken).1
      exact ⟨hgen, hs.calls, hs.rows,
        fun r hr => (hs.covered r hr).imp_right (held_receive · up taken)⟩
  | thread j first second publish threads pc pc' sent up here move =>
      obtain rfl : publish = .handed := hl
      exact ⟨hgen, hs.calls, hs.rows, fun r hr =>
        (hs.covered r hr).imp_right (held_thread (hs.rows r hr) · up here move)⟩
  | result i now m rest s' taken hst =>
      cases step_move hst with
      | deliver _ _ idle =>
          refine ⟨hgen, hs.calls, hs.rows, ?_⟩
          intro r hr
          by_cases hopen : Terminal r
          · exact Or.inl hopen
          · exact (hs.covered r hr).imp_right
              (held_result hok.service.ids hr (hs.rows r hr) hopen · taken idle now)
  | dispatchFault f ms disturbed => exact absurd hl id
  | inject msg => exact absurd hl id
  | resultFault f ms disturbed => exact absurd hl id

/-! ## When the system is quiet -/

/-- The call is between its commit and its publish. -/
def unpublished : CreatePc → Bool
  | .publish _ => true
  | _ => false

/-- The thread has something left to publish. -/
def running : WorkerPc → Bool
  | .ended => false
  | _ => true

/-- The handler is at work on a message. -/
def handling : HandlerPc → Bool
  | .idle => false
  | .dead _ => false
  | _ => true

/-- No call is between its commit and its publish, no message is in flight,
    and no handler or thread is part-way. -/
structure Quiet (sys : System) : Prop where
  calls : ∀ p ∈ sys.service.calls, unpublished p.2 = false
  dispatches : sys.dispatches = []
  threads : ∀ ts ∈ sys.threads, ∀ pc ∈ ts, running pc = false
  results : sys.results = []
  handler : handling sys.service.handler = false

instance (sys : System) : Decidable (Quiet sys) :=
  decidable_of_iff
    ((∀ p ∈ sys.service.calls, unpublished p.2 = false) ∧ sys.dispatches = []
      ∧ (∀ ts ∈ sys.threads, ∀ pc ∈ ts, running pc = false)
      ∧ sys.results = [] ∧ handling sys.service.handler = false)
    ⟨fun ⟨h₁, h₂, h₃, h₄, h₅⟩ => ⟨h₁, h₂, h₃, h₄, h₅⟩,
      fun h => ⟨h.calls, h.dispatches, h.threads, h.results, h.handler⟩⟩

/-- Nobody holds anything in a quiet system. -/
theorem not_held {sys : System} (hq : Quiet sys) (r : Job) : ¬ Held sys r := by
  intro h
  cases h with
  | publish pending =>
      obtain ⟨c, job, hmem, -⟩ := pending
      cases hq.calls _ hmem
  | dispatch inFlight =>
      rw [hq.dispatches] at inFlight
      cases inFlight
  | thread busy =>
      obtain ⟨ts, hup, pc, hpc, hworks⟩ := busy
      have hended := hq.threads ts hup pc hpc
      cases pc with
      | ended => exact hworks
      | started payload => cases hended
      | sleeping jobId assetId => cases hended
  | result m inFlight final =>
      rw [hq.results] at inFlight
      cases inFlight
  | update storing =>
      have hrest := hq.handler
      generalize sys.service.handler = pc at storing hrest
      cases pc with
      | update jobId newState errorMsg now => cases hrest
      | _ => exact storing

/-- **Nothing is stuck when the system is quiet**: on a seed file without
    empty asset ids, after any run of service and worker whose publishes all
    arrive and whose topics only reorder, every row of a quiet state is
    FAILED on the fault asset and COMPLETED on any other. -/
theorem quiet_rows_terminal {cfg : Config} (hseed : "" ∉ cfg.validAssets)
    {ls : List SystemLabel} {sys : System} (hls : ∀ l ∈ ls, Reliable l)
    (h : exec (systemStep cfg) System.empty ls = some sys) (hq : Quiet sys) :
    ∀ r ∈ sys.service.jobs,
      r.state = if r.assetId = faultAssetId then stateFailed
        else stateCompleted := by
  have hs : Accounted cfg sys := by
    refine exec_invariant_of
      (fun _ _ _ hs hl hst => accounted_step hseed hs hl hst) hls ?_ h
    exact ⟨genuine_empty cfg, fun _ hp => absurd hp List.not_mem_nil,
      fun _ hr => absurd hr List.not_mem_nil,
      fun _ hr => absurd hr List.not_mem_nil⟩
  intro r hr
  have hrow := hs.genuine.service.rows r hr
  rcases hs.covered r hr with hdone | hheld
  · rcases hdone with hfailed | hcompleted
    · rw [if_pos (hrow.failed hfailed).1, hfailed]
    · rw [if_neg (hrow.completed hcompleted).1, hcompleted]
  · exact absurd hheld (not_held hq r)

/-- Two jobs side by side; the dispatches change places, and COMPLETED
    overtakes RUNNING. -/
def overtaken : List SystemLabel :=
  [.service (.submit (booking "user-001" "k1" "job-1" "asset-001"
      (february 2 1) (february 2 3) .handed)),
    .service (.submit (booking "user-002" "k1" "job-2" "asset-fault"
      (february 2 1) (february 2 3) .handed)),
    .service (.call 0), .service (.call 1), .service (.call 0),
    .service (.call 1), .service (.call 0), .service (.call 1),
    .service (.call 0), .service (.call 1),
    .receive 1, .receive 0,
    .thread 0 (february 2 1) (february 2 1) .handed,
    .thread 1 (february 2 1) (february 2 1) .handed,
    .thread 1 (february 2 1) (february 2 1) .handed,
    .thread 0 (february 2 1) (february 2 1) .handed,
    .result 2 (february 2 2), .service .handler, .service .handler,
    .service .handler,
    .result 1 (february 2 2),
    .result 0 (february 2 2), .service .handler, .service .handler,
    .service .handler,
    .result 0 (february 2 2), .service .handler, .service .handler,
    .service .handler]

/-- The messages changed places, and yet both jobs are at their ends. -/
theorem quiet_rows_terminal_overtaken :
    ∃ sys, exec (systemStep seedConfig) System.empty overtaken = some sys
      ∧ sys.service.jobs.map Job.assetId = ["asset-001", "asset-fault"]
      ∧ ∀ r ∈ sys.service.jobs, r.state
        = if r.assetId = faultAssetId then stateFailed else stateCompleted := by
  obtain ⟨sys, hsys, hobs⟩ := Option.map_eq_some_iff.mp
    (show (exec (systemStep seedConfig) System.empty overtaken).map
        (fun sys => (sys.service.jobs.map Job.assetId, decide (Quiet sys)))
      = some (["asset-001", "asset-fault"], true) by decide)
  obtain ⟨hassets, hquiet⟩ := Prod.mk.inj hobs
  refine ⟨sys, hsys, hassets, ?_⟩
  exact quiet_rows_terminal (by decide) (by decide) hsys (of_decide_eq_true hquiet)

end JobQuiescence
