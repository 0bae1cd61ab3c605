import JobScheduling.JobCompletion
import JobScheduling.JobSerial

/-! # One asset, one time, one winner

    Calls with distinct unused keys that all want one asset for overlapping
    windows, none of which an active job already has.  The race has two
    phases: while nobody has inserted, every call is still before its
    transaction (`Undecided`); the first transaction decides it (`Decided`),
    and from then on every other transaction meets the winner's row.  No step
    of any call leaves the two phases, so at the end one call has its 201 and
    all others their 409.

    That needs every INSERT to be bindable.  A call whose operation UTF-8
    cannot represent passes `validate`, and if it comes first it raises
    (`runsFirst_raises`): it is neither the winner nor turned away, and
    `exactly_one_winner_iff` says that nothing else goes wrong. -/

namespace JobWinner

open JobConstants JobPayload JobModels JobClock JobRepository JobBroker
open JobOrchestrator JobService JobLedger JobSerial JobCompletion Runs

/-- The stored windows of two calls overlap. -/
def StoredOverlap (c c' : Call) : Prop :=
  collate (newJob c).startTime < collate (newJob c').endTime
    ∧ collate (newJob c').startTime < collate (newJob c).endTime

instance : Std.Symm StoredOverlap := ⟨fun _ _ h => h.symm⟩

/-- Calls that all want one asset of the table for overlapping windows. -/
structure Contest (cfg : Config) (T : Table) (assetId : String)
    (cs : List Call) : Prop where
  keys : (cs.map callKey).Nodup
  unused : ∀ c ∈ cs, ∀ r ∈ T, r.key ≠ callKey c
  valid : ∀ c ∈ cs, JobValidation.validate cfg c.body c.validatedAt = none
  asset : ∀ c ∈ cs, c.body.assetId = assetId
  overlapping : cs.Pairwise StoredOverlap
  free : ∀ c ∈ cs, ∀ r ∈ T, r.assetId = assetId → r.active = true →
    ¬ reading.Overlaps r (collate (newJob c).startTime)
      (collate (newJob c).endTime)
  quota : ∀ c ∈ cs, sqlCountActive T c.userId ≤ maxActiveJobsPerUser - 2

/-- What the uuid generator and the MQTT client promise: the ids are new, and
    a publish returns. -/
structure Provided (T : Table) (cs : List Call) : Prop where
  fresh : ∀ c ∈ cs, ∀ r ∈ T, r.id ≠ c.uuid
  returns : ∀ c ∈ cs, ∀ e, c.publish ≠ .raised e

/-- UTF-8 can represent the operation of every call. -/
def Encodable (cs : List Call) : Prop :=
  ∀ c ∈ cs, c.body.operation.encodable = true

/-- Where a call is that has not met the winner's row yet. -/
def Racing (c : Call) : CreatePc → Prop
  | .start => True
  | .validate => True
  | .insert job => job = newJob c
  | _ => False

/-- The answer 409. -/
def conflict : CreatePc :=
  .returned (.ok (.conflict, .inr ErrorMessages.overlapConflict))

/-- Every call has returned. -/
def Finished (s : Service) : Prop :=
  ∀ p ∈ s.calls, ∃ result, p.2 = .returned result

/-- One call has its 201, every other one its 409; one row is added, and one
    dispatch of that row is published. -/
structure Won (T : Table) (cs : List Call) (s : Service) (w : Nat) (c : Call)
    (job : Job) (payload : List (String × Json)) : Prop where
  winner : cs[w]? = some c
  stands : s.calls[w]? = some (c, accepted job)
  losers : ∀ (j : Nat) (c' : Call), j ≠ w → cs[j]? = some c' →
    s.calls[j]? = some (c', conflict)
  row : s.jobs = T ++ [job]
  holds : Holds c job
  log : s.log = [.dispatch (.obj payload) c.publish]
  carries : Carries job payload

/-- The contest has exactly one winner. -/
def OneWinner (T : Table) (cs : List Call) (s : Service) : Prop :=
  ∃ w c job payload, Won T cs s w c job payload

/-- Every interleaving of the calls' steps that runs to its end has exactly one
    winner. -/
def AlwaysOneWinner (cfg : Config) (T : Table) (cs : List Call) : Prop :=
  ∀ ls s, (∀ l ∈ ls, ∃ i, l = .call i) →
    exec (step cfg) (Service.waiting T cs) ls = some s → Finished s →
    OneWinner T cs s

/-- Nobody has inserted. -/
structure Undecided (T : Table) (s : Service) : Prop where
  jobs : s.jobs = T
  log : s.log = []
  calls : ∀ (i : Nat) (c : Call) (pc : CreatePc), s.calls[i]? = some (c, pc) →
    Racing c pc

/-- The `i`-th call has inserted its job; its dispatch is the only one. -/
structure Decided (T : Table) (i : Nat) (c : Call) (s : Service) : Prop where
  jobs : s.jobs = T ++ [newJob c]
  winner : (s.calls[i]? = some (c, .publish (newJob c)) ∧ s.log = [])
    ∨ (s.calls[i]? = some (c, accepted (newJob c))
      ∧ s.log = [.dispatch (dispatchPayload (newJob c)) c.publish])
  others : ∀ (j : Nat) (c' : Call) (pc : CreatePc), j ≠ i →
    s.calls[j]? = some (c', pc) →
    Racing c' pc ∨ pc = conflict

/-- The race: the calls are the given ones, and it is undecided or decided. -/
structure Race (T : Table) (cs : List Call) (s : Service) : Prop where
  calls : s.calls.map Prod.fst = cs
  phase : Undecided T s ∨ ∃ i c, Decided T i c s

section Steps

variable {cfg : Config} {T : Table} {assetId : String} {cs : List Call}

/-- Any two calls of the contest overlap. -/
theorem storedOverlap_of_ne (hcs : Contest cfg T assetId cs) {i j : Nat}
    {c c' : Call} (hij : j ≠ i) (hi : cs[i]? = some c)
    (hj : cs[j]? = some c') : StoredOverlap c c' := by
  refine hcs.overlapping.forall (List.mem_of_getElem? hi)
    (List.mem_of_getElem? hj) ?_
  intro heq
  exact callKey_ne hcs.keys hij hi hj (congrArg callKey heq)

/-- On the untouched table every call is below the quota and overlaps
    nothing. -/
theorem checks_undecided (hcs : Contest cfg T assetId cs) {c : Call}
    (hc : c ∈ cs) :
    sqlCountActive T (newJob c).userId < maxActiveJobsPerUser
      ∧ sqlCheckOverlap T (newJob c).assetId (newJob c).endTime
          (newJob c).startTime = none := by
  constructor
  · have hquota := hcs.quota c hc
    show sqlCountActive T c.userId < maxActiveJobsPerUser
    rw [maxActiveJobsPerUser] at hquota ⊢
    omega
  · refine sqlCheckOverlap_none.mpr ?_
    intro r hr hasset hact
    exact hcs.free c hc r hr (hasset.trans (hcs.asset c hc)) hact

/-- While the race is undecided, every transaction admits its job. -/
theorem admits_undecided (hcs : Contest cfg T assetId cs)
    (hp : Provided T cs) (henc : Encodable cs) {c : Call} (hc : c ∈ cs) :
    Admits T (newJob c) := by
  obtain ⟨hquota, hover⟩ := checks_undecided hcs hc
  refine ⟨hquota, hover, henc c hc, violates_eq_false.mpr ?_⟩
  intro r hr
  exact ⟨hp.fresh c hc r hr, hcs.unused c hc r hr⟩

/-- Once it is decided, every other transaction is below the quota and meets
    the winner's row. -/
theorem overlap_decided (hcs : Contest cfg T assetId cs) {i j : Nat}
    {c c' : Call} (hij : j ≠ i) (hi : cs[i]? = some c)
    (hj : cs[j]? = some c') :
    sqlCountActive (T ++ [newJob c]) (newJob c').userId < maxActiveJobsPerUser
      ∧ sqlCheckOverlap (T ++ [newJob c]) (newJob c').assetId
          (newJob c').endTime (newJob c').startTime ≠ none := by
  have hc := List.mem_of_getElem? hi
  have hc' := List.mem_of_getElem? hj
  constructor
  · have hquota := hcs.quota c' hc'
    have hadd : sqlCountActive (T ++ [newJob c]) c'.userId
        ≤ sqlCountActive T c'.userId + 1 := by
      rw [sqlCountActive, List.countP_append, List.countP_singleton,
        sqlCountActive]
      split <;> omega
    show sqlCountActive (T ++ [newJob c]) c'.userId < maxActiveJobsPerUser
    rw [maxActiveJobsPerUser] at hquota ⊢
    omega
  · intro hnone
    refine sqlCheckOverlap_none.mp hnone (newJob c)
      (List.mem_append_right _ (List.mem_singleton_self _)) ?_ rfl
      ((overlaps_def _ _ _).mpr (storedOverlap_of_ne hcs hij hi hj))
    exact (hcs.asset c hc).trans (hcs.asset c' hc').symm

/-- A call that only moves on leaves the race undecided. -/
theorem Undecided.goes {s : Service} (hs : Undecided T s) (i : Nat) {c : Call}
    {pc' : CreatePc} (hpc' : Racing c pc') :
    Undecided T { s with
      jobs := T, calls := s.calls.set i (c, pc'), log := s.log ++ [] } := by
  refine ⟨rfl, by rw [hs.log]; rfl, ?_⟩
  intro j c' pc'' hj
  rcases KeyedTable.getElem?_set_some hj with ⟨-, heq⟩ | ⟨-, hold⟩
  · obtain ⟨rfl, rfl⟩ := Prod.mk.inj heq
    exact hpc'
  · exact hs.calls j c' pc'' hold

/-- While it is undecided, a call comes closer to its transaction, or decides
    the race. -/
theorem undecided_step (hcs : Contest cfg T assetId cs) (hp : Provided T cs)
    (henc : Encodable cs) {s s' : Service} {i : Nat}
    (hcalls : s.calls.map Prod.fst = cs)
    (hs : Undecided T s) (h : step cfg s (.call i) = some s') :
    Undecided T s' ∨ ∃ i c, Decided T i c s' := by
  cases step_move h with
  | call i c pc pc' T' ev here move =>
      have hi : cs[i]? = some c := call_of_calls hcalls here
      have hc : c ∈ cs := List.mem_of_getElem? hi
      have hracing := hs.calls i c pc here
      have hadmits := admits_undecided hcs hp henc hc
      obtain ⟨hlen, -⟩ := List.getElem?_eq_some_iff.mp here
      rw [hs.jobs] at move
      cases move with
      | replay existing found =>
          obtain ⟨hr, hkey⟩ := sqlFindByIdempotency_some found
          exact absurd hkey (hcs.unused c hc existing hr)
      | miss found => exact Or.inl (hs.goes i trivial)
      | reject status message invalid =>
          rw [hcs.valid c hc] at invalid
          cases invalid
      | accept valid => exact Or.inl (hs.goes i rfl)
      | maxActive job quota =>
          have hjob : job = newJob c := hracing
          rw [hjob] at quota
          exact absurd quota (Nat.not_le_of_lt hadmits.quota)
      | overlap job quota found =>
          have hjob : job = newJob c := hracing
          rw [hjob, hadmits.overlap] at found
          cases found
      | unencodable job quota found lone =>
          have hjob : job = newJob c := hracing
          rw [hjob, hadmits.encodable] at lone
          cases lone
      | violation job quota found clash encodable =>
          have hjob : job = newJob c := hracing
          rw [hjob, hadmits.unique] at clash
          cases clash
      | created job admits =>
          have hjob : job = newJob c := hracing
          rw [hjob]
          refine Or.inr ⟨i, c, rfl, Or.inl ⟨List.getElem?_set_self hlen, ?_⟩, ?_⟩
          · rw [hs.log]
            rfl
          · intro j c' pc'' hj hget
            rw [List.getElem?_set_ne hj.symm] at hget
            exact Or.inl (hs.calls j c' pc'' hget)
      | lateReplay job existing found => cases hracing
      | lateMiss job found => cases hracing
      | publish job => cases hracing

/-- A publish that returns answers 201. -/
theorem publishDispatch_returns {c : Call} (h : ∀ e, c.publish ≠ .raised e)
    (job : Job) : publishDispatch c job
      = (.ok (.created, .inl job), [.dispatch (dispatchPayload job) c.publish]) := by
  rw [publishDispatch]
  cases hp : c.publish with
  | handed => rfl
  | dropped => rfl
  | raised e => exact absurd hp (h e)

/-- The winner has only its publish left. -/
theorem winner_step (hp : Provided T cs) {s s' : Service} {w : Nat}
    {cw : Call} (hcw : cw ∈ cs) (hs : Decided T w cw s)
    (h : step cfg s (.call w) = some s') : Decided T w cw s' := by
  cases step_move h with
  | call i c pc pc' T' ev here move =>
      obtain ⟨hlen, -⟩ := List.getElem?_eq_some_iff.mp here
      rw [hs.jobs] at move
      rcases hs.winner with ⟨hget, hlog⟩ | ⟨hget, hlog⟩
      · obtain ⟨rfl, rfl⟩ := Prod.mk.inj (Option.some.inj (here.symm.trans hget))
        cases move with
        | publish job =>
            rw [publishDispatch_returns (hp.returns c hcw)]
            refine ⟨rfl, Or.inr ⟨List.getElem?_set_self hlen, ?_⟩, ?_⟩
            · rw [hlog]
              rfl
            · intro j c' pc'' hj hget'
              rw [List.getElem?_set_ne hj.symm] at hget'
              exact hs.others j c' pc'' hj hget'
      · obtain ⟨rfl, rfl⟩ := Prod.mk.inj (Option.some.inj (here.symm.trans hget))
        cases move

/-- A call that moves on, or loses, leaves the winner where it is. -/
theorem Decided.goes {s : Service} {i w : Nat} {c cw : Call}
    (hs : Decided T w cw s) (hiw : i ≠ w) {pc' : CreatePc}
    (hpc' : Racing c pc' ∨ pc' = conflict) :
    Decided T w cw { s with
      jobs := T ++ [newJob cw], calls := s.calls.set i (c, pc'),
      log := s.log ++ [] } := by
  refine ⟨rfl, ?_, ?_⟩
  · rw [List.append_nil]
    show ((s.calls.set i (c, pc'))[w]? = _ ∧ _)
      ∨ ((s.calls.set i (c, pc'))[w]? = _ ∧ _)
    rw [List.getElem?_set_ne hiw]
    exact hs.winner
  · intro j c' pc'' hj hget
    rcases KeyedTable.getElem?_set_some hget with ⟨-, heq⟩ | ⟨-, hold⟩
    · obtain ⟨rfl, rfl⟩ := Prod.mk.inj heq
      exact hpc'
    · exact hs.others j c' pc'' hj hold

/-- Everybody else comes closer to the transaction, or ends with a conflict. -/
theorem loser_step (hcs : Contest cfg T assetId cs) {s s' : Service}
    {i w : Nat} {cw : Call} (hcalls : s.calls.map Prod.fst = cs)
    (hw : cs[w]? = some cw) (hiw : i ≠ w) (hs : Decided T w cw s)
    (h : step cfg s (.call i) = some s') : Decided T w cw s' := by
  cases step_move h with
  | call i c pc pc' T' ev here move =>
      have hi : cs[i]? = some c := call_of_calls hcalls here
      have hc : c ∈ cs := List.mem_of_getElem? hi
      obtain ⟨hquota, hover⟩ := overlap_decided hcs hiw hw hi
      have hkey : callKey cw ≠ callKey c := callKey_ne hcs.keys hiw hw hi
      rw [hs.jobs] at move
      rcases hs.others i c pc hiw here with hracing | hlost
      · cases move with
        | replay existing found =>
            obtain ⟨hr, hk⟩ := sqlFindByIdempotency_some found
            rcases List.mem_append.mp hr with hold | hnew
            · exact absurd hk (hcs.unused c hc existing hold)
            · rw [List.mem_singleton.mp hnew] at hk
              exact absurd hk hkey
        | miss found => exact hs.goes hiw (Or.inl trivial)
        | reject status message invalid =>
            rw [hcs.valid c hc] at invalid
            cases invalid
        | accept valid => exact hs.goes hiw (Or.inl rfl)
        | maxActive job quota =>
            have hjob : job = newJob c := hracing
            rw [hjob] at quota
            exact absurd quota (Nat.not_le_of_lt hquota)
        | overlap job quota found => exact hs.goes hiw (Or.inr rfl)
        | unencodable job quota found lone =>
            have hjob : job = newJob c := hracing
            rw [hjob] at found
            exact absurd found hover
        | violation job quota found clash encodable =>
            have hjob : job = newJob c := hracing
            rw [hjob] at found
            exact absurd found hover
        | created job admits =>
            have hjob : job = newJob c := hracing
            rw [hjob] at admits
            exact absurd admits.overlap hover
        | lateReplay job existing found => cases hracing
        | lateMiss job found => cases hracing
        | publish job => cases hracing
      · rw [hlost] at move
        cases move

/-- **A step of one of the calls keeps the race.** -/
theorem race_step (hcs : Contest cfg T assetId cs) (hp : Provided T cs)
    (henc : Encodable cs) {s s' : Service} {i : Nat} (hs : Race T cs s)
    (h : step cfg s (.call i) = some s') : Race T cs s' := by
  refine ⟨(callStep_calls h).trans hs.calls, ?_⟩
  rcases hs.phase with hun | ⟨w, cw, hdec⟩
  · exact undecided_step hcs hp henc hs.calls hun h
  · have hw : cs[w]? = some cw := by
      rcases hdec.winner with ⟨hget, -⟩ | ⟨hget, -⟩
      · exact call_of_calls hs.calls hget
      · exact call_of_calls hs.calls hget
    by_cases hiw : i = w
    · rw [hiw] at h
      exact Or.inr ⟨w, cw, winner_step hp (List.mem_of_getElem? hw) hdec h⟩
    · exact Or.inr ⟨w, cw, loser_step hcs hs.calls hw hiw hdec h⟩

theorem race_waiting (T : Table) (cs : List Call) :
    Race T cs (Service.waiting T cs) := by
  refine ⟨waiting_calls T cs, Or.inl ⟨rfl, rfl, ?_⟩⟩
  intro i c pc hget
  rw [(waiting_start hget).2]
  exact trivial

/-- A finished race of calls that can all be bound has exactly one winner. -/
theorem oneWinner_of_encodable (hcs : Contest cfg T assetId cs) (hne : cs ≠ [])
    (hp : Provided T cs) (henc : Encodable cs) : AlwaysOneWinner cfg T cs := by
  intro ls s hls h hdone
  have hrace : Race T cs s := by
    refine exec_invariant_of (P := fun l => ∃ i, l = .call i) ?_ hls
      (race_waiting T cs) h
    rintro t l t' ht ⟨i, rfl⟩ hst
    exact race_step hcs hp henc ht hst
  -- nobody who has returned is still racing
  have hreturned : ∀ (i : Nat) (c : Call) (pc : CreatePc),
      s.calls[i]? = some (c, pc) → ¬ Racing c pc := by
    intro i c pc hget hracing
    obtain ⟨result, hres⟩ := hdone (c, pc) (List.mem_of_getElem? hget)
    have hpc : pc = .returned result := hres
    rw [hpc] at hracing
    exact hracing
  rcases hrace.phase with hun | ⟨w, c, hdec⟩
  · -- somebody has returned, so the race is decided
    obtain ⟨c, hc⟩ := List.exists_mem_of_ne_nil cs hne
    rw [← hrace.calls] at hc
    obtain ⟨⟨c', pc⟩, hmem, -⟩ := List.mem_map.mp hc
    obtain ⟨i, hi⟩ := List.mem_iff_getElem?.mp hmem
    exact absurd (hun.calls i c' pc hi) (hreturned i c' pc hi)
  · rcases hdec.winner with ⟨hget, -⟩ | ⟨hget, hlog⟩
    · obtain ⟨result, hres⟩ := hdone _ (List.mem_of_getElem? hget)
      cases hres
    · have hw : cs[w]? = some c := call_of_calls hrace.calls hget
      obtain ⟨payload, hpayload, hcarries⟩ := dispatchPayload_carries
        (r := newJob c) (henc c (List.mem_of_getElem? hw))
      rw [hpayload] at hlog
      refine ⟨w, c, newJob c, payload, hw, hget, ?_, hdec.jobs, newJob_holds c,
        hlog, hcarries⟩
      intro j c' hj hcj
      rw [← hrace.calls, List.getElem?_map, Option.map_eq_some_iff] at hcj
      obtain ⟨⟨c'', pc⟩, hgetj, heq⟩ := hcj
      have hc'' : c'' = c' := heq
      rw [hc''] at hgetj
      rcases hdec.others j c' pc hj hgetj with hracing | hlost
      · exact absurd hracing (hreturned j c' pc hgetj)
      · rw [hgetj, hlost]

end Steps

/-! ## The call that cannot be bound -/

section Unbindable

variable {cfg : Config} {T : Table} {assetId : String} {cs : List Call}

/-- A step of a call that writes and publishes nothing. -/
theorem step_silent {s : Service} {i : Nat} {c : Call} {pc pc' : CreatePc}
    (here : s.calls[i]? = some (c, pc))
    (h : createStep cfg c s.jobs pc = some (pc', s.jobs, [])) :
    step cfg s (.call i) = some { s with calls := s.calls.set i (c, pc') } := by
  simp only [step, here, h, List.append_nil]

/-- Run first, a call whose operation UTF-8 cannot represent raises out of its
    INSERT. -/
theorem runsFirst_raises (hcs : Contest cfg T assetId cs) {i : Nat} {c : Call}
    (hi : cs[i]? = some c) (hlone : c.body.operation.encodable = false) :
    ∃ s, exec (step cfg) (Service.waiting T cs) [.call i, .call i, .call i]
        = some s
      ∧ s.calls[i]? = some (c, .returned (.error .UnicodeEncodeError)) := by
  have hc := List.mem_of_getElem? hi
  obtain ⟨hquota, hover⟩ := checks_undecided hcs hc
  have hmiss : createStep cfg c T .start = some (.validate, T, []) := by
    simp only [createStep, sqlFindByIdempotency_none.mpr (hcs.unused c hc)]
  have hvalid : createStep cfg c T .validate
      = some (.insert (newJob c), T, []) := by
    simp only [createStep, hcs.valid c hc]
  have hraise : createStep cfg c T (.insert (newJob c))
      = some (.returned (.error .UnicodeEncodeError), T, []) := by
    have hquota' : ¬ (0 < maxActiveJobsPerUser
        ∧ maxActiveJobsPerUser ≤ sqlCountActive T (newJob c).userId) :=
      fun h => absurd h.2 (Nat.not_le_of_lt hquota)
    simp only [createStep, insertTransaction_onTable, if_neg hquota', hover,
      Option.isSome_none, Bool.false_eq_true, if_false,
      if_pos (show (newJob c).operation.encodable = false from hlone),
      afterInsert]
  have hstart : (Service.waiting T cs).calls[i]? = some (c, .start) := by
    show (cs.map (fun c => (c, CreatePc.start)))[i]? = some (c, .start)
    rw [List.getElem?_map, hi]
    rfl
  obtain ⟨hlen, -⟩ := List.getElem?_eq_some_iff.mp hstart
  refine ⟨_, exec_cons.mpr ⟨_, step_silent hstart hmiss, exec_cons.mpr ⟨_,
    step_silent (List.getElem?_set_self hlen) hvalid, exec_one.mpr
      (step_silent (List.getElem?_set_self ?_) hraise)⟩⟩,
    List.getElem?_set_self ?_⟩
  · rwa [List.length_set]
  · rwa [List.length_set, List.length_set]

/-- Every step of a call uses up work. -/
theorem callStep_work {s s' : Service} {i : Nat}
    (h : step cfg s (.call i) = some s') :
    load (fun p => callWork p.2) s'.calls
      < load (fun p => callWork p.2) s.calls := by
  cases step_move h with
  | call _ c pc pc' T' ev here move =>
      have hset := load_set (fun p : Call × CreatePc => callWork p.2)
        (y := (c, pc')) here
      have hwork : callWork pc' < callWork pc :=
        Nat.lt_of_le_of_lt (Nat.le_add_right ..) (createMove_work move)
      simp only at hset ⊢
      omega

/-- When no call can move, all have returned. -/
theorem finished_of_stuck {s : Service}
    (h : ∀ l : Label, (∃ i, l = .call i) → step cfg s l = none) :
    Finished s := by
  rintro ⟨c, pc⟩ hmem
  obtain ⟨i, hi⟩ := List.mem_iff_getElem?.mp hmem
  have hstuck := h (.call i) ⟨i, rfl⟩
  cases hm : createStep cfg c s.jobs pc with
  | none => exact createStep_stuck hm
  | some r => simp [step, hi, hm] at hstuck

/-- A call that has returned stays as it is. -/
theorem returned_stays {s s' : Service} {i j : Nat} {c : Call}
    {result : CreateResult} (hi : s.calls[i]? = some (c, .returned result))
    (h : step cfg s (.call j) = some s') :
    s'.calls[i]? = some (c, .returned result) := by
  cases step_move h with
  | call _ c' pc pc' T' ev here move =>
      by_cases hij : j = i
      · rw [hij, hi] at here
        obtain ⟨rfl, rfl⟩ := Prod.mk.inj (Option.some.inj here)
        cases move
      · show (s.calls.set j (c', pc'))[i]? = some (c, .returned result)
        rwa [List.getElem?_set_ne hij]

/-- From every state the calls can run to their returns; one that has returned
    stays as it is. -/
theorem returned_finishes (cfg : Config) {s : Service} {i : Nat} {c : Call}
    {result : CreateResult} (hi : s.calls[i]? = some (c, .returned result)) :
    ∃ ls s', (∀ l ∈ ls, ∃ j, l = .call j) ∧ exec (step cfg) s ls = some s'
      ∧ Finished s' ∧ s'.calls[i]? = some (c, .returned result) := by
  have hstays : ∀ t l t', t.calls[i]? = some (c, .returned result) →
      (∃ j, l = .call j) → step cfg t l = some t' →
      t'.calls[i]? = some (c, .returned result) := by
    rintro t l t' ht ⟨j, rfl⟩ hst
    exact returned_stays ht hst
  obtain ⟨ls, s', hls, hrun, hstuck⟩ := exec_maximal
    (μ := fun t => load (fun p => callWork p.2) t.calls) hstays
    (by rintro t l t' - ⟨j, rfl⟩ hst; exact callStep_work hst) hi
  exact ⟨ls, s', hls, hrun, finished_of_stuck hstuck,
    exec_invariant_of hstays hls hi hrun⟩

/-- A contest in which every schedule has a winner has only operations that
    UTF-8 can represent: any other call raises when it runs first. -/
theorem encodable_of_oneWinner (hcs : Contest cfg T assetId cs)
    (h : AlwaysOneWinner cfg T cs) : Encodable cs := by
  intro c hc
  by_contra hlone
  obtain ⟨i, hi⟩ := List.mem_iff_getElem?.mp hc
  obtain ⟨s₁, h₁, hraised⟩ := runsFirst_raises hcs hi
    ((Bool.not_eq_true _).mp hlone)
  obtain ⟨ls, s, hls, h₂, hdone, hstill⟩ := returned_finishes cfg hraised
  have hlabels : ∀ l ∈ [Label.call i, .call i, .call i] ++ ls, ∃ j, l = .call j := by
    intro l hl
    rcases List.mem_append.mp hl with hfirst | hrest
    · exact ⟨i, List.eq_of_mem_replicate (n := 3) hfirst⟩
    · exact hls l hrest
  obtain ⟨w, c', job, payload, hwon⟩ :=
    h _ s hlabels (exec_append.mpr ⟨s₁, h₁, h₂⟩) hdone
  -- it is neither the winner nor one of the losers
  by_cases hiw : i = w
  · have hstands := hwon.stands
    rw [← hiw, hstill] at hstands
    cases hstands
  · have hlost := hwon.losers i c hiw hi
    rw [hstill] at hlost
    cases hlost

end Unbindable

/-- **Exactly one winner**: whatever the order of the calls' steps, one of them
    is answered 201 with the one new row, whose one dispatch it publishes, and
    every other one 409, exactly when UTF-8 can represent the operation of every
    call. -/
theorem exactly_one_winner_iff {cfg : Config} {T : Table} {assetId : String}
    {cs : List Call} (hcs : Contest cfg T assetId cs) (hne : cs ≠ [])
    (hp : Provided T cs) : AlwaysOneWinner cfg T cs ↔ Encodable cs := by
  constructor
  · exact encodable_of_oneWinner hcs
  · exact oneWinner_of_encodable hcs hne hp

/-- Two users after one asset. -/
def rivals : List Call :=
  [booking "alice" "key-1" "job-1" "asset-001" (february 2 10) (february 2 12)
      .handed,
    booking "bob" "key-1" "job-2" "asset-001" (february 2 11) (february 2 13)
      .handed]

theorem rivals_contest : Contest seedConfig [] "asset-001" rivals where
  keys := by decide
  unused := fun _ _ _ hr => absurd hr List.not_mem_nil
  valid := by decide
  asset := by decide
  overlapping := List.pairwise_pair.mpr ⟨by decide, by decide⟩
  free := fun _ _ _ hr => absurd hr List.not_mem_nil
  quota := by decide

theorem rivals_provided : Provided [] rivals where
  fresh := fun _ _ _ hr => absurd hr List.not_mem_nil
  returns := by
    intro c hc e heq
    rw [rivals, List.mem_cons, List.mem_singleton] at hc
    rcases hc with rfl | rfl
    · cases heq
    · cases heq

/-- A second call overtakes the first one at its transaction, and its dispatch
    carries its booking. -/
theorem exactly_one_winner_iff_rivals :
    AlwaysOneWinner seedConfig [] rivals
      ∧ (exec (step seedConfig) (Service.waiting [] rivals)
          [.call 0, .call 1, .call 0, .call 1, .call 1, .call 0, .call 1]).map
          (fun s => (s.calls.map Prod.snd, s.jobs.map Job.id, s.log.length))
        = some ([conflict, accepted (newJob (booking "bob" "key-1" "job-2"
            "asset-001" (february 2 11) (february 2 13) .handed))], ["job-2"], 1) := by
  refine ⟨(exactly_one_winner_iff rivals_contest (List.cons_ne_nil _ _)
    rivals_provided).mpr ?_, by decide⟩
  intro c hc
  rw [rivals, List.mem_cons, List.mem_singleton] at hc
  rcases hc with rfl | rfl
  · rfl
  · rfl

/-- A booking whose operation is one lone surrogate. -/
def loneSurrogate : Call where
  body := ⟨"asset-001", .surrogates [0xD800] rfl, february 2 10, february 2 12⟩
  userId := "alice"
  idempotencyKey := "key-1"
  validatedAt := february 1 0
  createdAt := february 1 0
  uuid := "job-1"
  publish := .handed

/-- Alone with a free asset it meets every condition of a contest, and nobody
    wins: `validate` lets it through, the INSERT raises. -/
theorem loneSurrogate_raises :
    Contest seedConfig [] "asset-001" [loneSurrogate]
      ∧ Provided [] [loneSurrogate]
      ∧ ∃ s, exec (step seedConfig) (Service.waiting [] [loneSurrogate])
          [.call 0, .call 0, .call 0] = some s
        ∧ s.calls = [(loneSurrogate, .returned (.error .UnicodeEncodeError))]
        ∧ s.jobs = [] ∧ s.log = [] ∧ Finished s
        ∧ ¬ OneWinner [] [loneSurrogate] s := by
  have hcontest : Contest seedConfig [] "asset-001" [loneSurrogate] := by
    refine ⟨by decide, ?_, by decide, by decide, List.pairwise_singleton _ _, ?_,
      by decide⟩
    · exact fun _ _ _ hr => absurd hr List.not_mem_nil
    · exact fun _ _ _ hr => absurd hr List.not_mem_nil
  have hprovided : Provided [] [loneSurrogate] := by
    refine ⟨fun _ _ _ hr => absurd hr List.not_mem_nil, ?_⟩
    intro c hc e heq
    rw [List.mem_singleton.mp hc] at heq
    cases heq
  refine ⟨hcontest, hprovided, _, rfl, rfl, rfl, rfl, ?_, ?_⟩
  · intro p hp
    exact ⟨_, congrArg Prod.snd (List.mem_singleton.mp hp)⟩
  · rintro ⟨w, c, job, payload, hwon⟩
    have hrow : [] = [] ++ [job] := hwon.row
    cases hrow

end JobWinner
