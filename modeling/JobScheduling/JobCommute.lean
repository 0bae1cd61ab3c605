import JobScheduling.Independence
import JobScheduling.JobAdmission
import JobScheduling.JobHandler
import JobScheduling.JobIsolation
import JobScheduling.JobWindows

/-! # Independent operations commute

    A `create_job` call reads three things of the table: the rows of its user
    (the key and the quota), the rows of its asset (the overlap query) and the
    columns under a constraint.  A result message reads one row and rewrites
    it.  Two operations of which neither writes what the other reads give the
    same answers in either order (`independent_operations_commute`): bookings
    of different users that do not compete for an asset, a booking and a
    result about neither its user nor its asset, results about different
    jobs. -/

namespace JobCommute

open JobConstants JobClock JobPayload JobModels JobValidation JobRepository
open JobBroker JobOrchestrator JobService JobLedger JobAdmission JobHandler
open JobIsolation JobTimestamps JobCalendar JobWindows KeyedTable Independence
open Runs

/-! ## Operations -/

/-- `create_job`: its response, its dispatches, and the table. -/
def creates (cfg : Config) (c : Call) (T : Table) :
    (CreateResult × List Event) × Table :=
  let r := createJob cfg c T
  ((r.1, r.2.2), r.2.1)

/-- `_on_message`: how it ends, its callbacks, and the table. -/
def handles (msg : Delivered) (now : Datetime) (T : Table) :
    (Except PyExc Unit × List Event) × Table :=
  let r := onMessage T msg now
  ((r.1, r.2.2), r.2.1)

/-- The message names the job with this id. -/
def NamesJob (id : String) : Delivered → Prop
  | .ok (.obj payload) =>
      (dictGet payload fieldJobId).bindText = .ok (some id)
  | .ok _ => False
  | .error _ => False

/-- The calls do not compete for an asset. -/
def Apart (c c' : Call) : Prop :=
  c.body.assetId ≠ c'.body.assetId
    ∨ Disjoint (storedWindow (newJob c)) (storedWindow (newJob c'))

theorem Apart.symm {c c' : Call} (h : Apart c c') : Apart c' c := by
  rcases h with hne | hdisj
  · exact Or.inl hne.symm
  · exact Or.inr hdisj.symm

/-! ## What a call reads -/

/-- The reads of a call, on a second table as on a first. -/
structure SameChecks (cfg : Config) (c : Call) (T T' : Table) : Prop where
  key : sqlFindByIdempotency T' c.userId c.idempotencyKey
    = sqlFindByIdempotency T c.userId c.idempotencyKey
  quota : sqlCountActive T' c.userId = sqlCountActive T c.userId
  overlap : validate cfg c.body c.validatedAt = none →
    sqlCheckOverlap T' c.body.assetId c.body.endTime.strftime
        c.body.startTime.strftime
      = sqlCheckOverlap T c.body.assetId c.body.endTime.strftime
        c.body.startTime.strftime
  unique : violates T' (newJob c) = violates T (newJob c)

/-- What a call inserts: at most its own job, valid and unconstrained. -/
def Inserts (cfg : Config) (c : Call) (T new : Table) : Prop :=
  ∀ r ∈ new, r = newJob c ∧ validate cfg c.body c.validatedAt = none
    ∧ violates T (newJob c) = false

theorem SameChecks.refl (cfg : Config) (c : Call) (T : Table) :
    SameChecks cfg c T T := ⟨rfl, rfl, fun _ => rfl, rfl⟩

/-- A call that answers from what it has read inserts nothing. -/
theorem acts_answer {cfg : Config} {c : Call} {T : Table}
    (result : CreateResult) (h : ∀ T', SameChecks cfg c T T' →
      createJob cfg c T' = (result, T', [])) :
    ∃ new, Inserts cfg c T new
      ∧ Acts (SameChecks cfg c) (creates cfg c) T (· ++ new) := by
  have hT := h T (SameChecks.refl cfg c T)
  refine ⟨[], fun _ hr => absurd hr List.not_mem_nil,
    SameChecks.refl cfg c T, ?_⟩
  intro T' hT'
  rw [creates, creates, hT, h T' hT', List.append_nil]

/-- The checks of a call, where its reads are the same. -/
theorem SameChecks.createJob_checks {cfg : Config} {c : Call} {T T' : Table}
    (h : SameChecks cfg c T T')
    (hf : sqlFindByIdempotency T c.userId c.idempotencyKey = none)
    (hv : validate cfg c.body c.validatedAt = none) :
    createJob cfg c T'
      = if maxActiveJobsPerUser ≤ sqlCountActive T (newJob c).userId then
          (.ok (.unprocessableEntity, .inr ErrorMessages.maxActiveJobs), T', [])
        else if (sqlCheckOverlap T (newJob c).assetId (newJob c).endTime
            (newJob c).startTime).isSome then
          (.ok (.conflict, .inr ErrorMessages.overlapConflict), T', [])
        else if c.body.operation.encodable = false then
          (.error .UnicodeEncodeError, T', [])
        else if violates T (newJob c) then (.error .IntegrityError, T', [])
        else ((publishDispatch c (newJob c)).1, T' ++ [newJob c],
          (publishDispatch c (newJob c)).2) := by
  have hquota : sqlCountActive T' (newJob c).userId
      = sqlCountActive T (newJob c).userId := h.quota
  have hover : sqlCheckOverlap T' (newJob c).assetId (newJob c).endTime
        (newJob c).startTime
      = sqlCheckOverlap T (newJob c).assetId (newJob c).endTime
        (newJob c).startTime := h.overlap hv
  rw [JobOrchestrator.createJob_checks (h.key.trans hf) hv, hquota, hover,
    h.unique]

/-- **A call does what its reads say.** -/
theorem creates_acts (cfg : Config) (c : Call) (T : Table) :
    ∃ new, Inserts cfg c T new
      ∧ Acts (SameChecks cfg c) (creates cfg c) T (· ++ new) := by
  cases hf : sqlFindByIdempotency T c.userId c.idempotencyKey with
  | some existing =>
      refine acts_answer (.ok (.created, .inl existing)) ?_
      intro T' h
      simp only [createJob, h.key.trans hf]
  | none =>
      cases hv : validate cfg c.body c.validatedAt with
      | some rejection =>
          refine acts_answer (.ok (rejection.1, .inr rejection.2)) ?_
          intro T' h
          simp only [createJob, h.key.trans hf, hv]
      | none =>
          have hchecks := fun T' (h : SameChecks cfg c T T') =>
            h.createJob_checks hf hv
          split_ifs at hchecks with hq ho henc hviol
          · exact acts_answer _ hchecks
          · exact acts_answer _ hchecks
          · exact acts_answer _ hchecks
          · exact acts_answer _ hchecks
          · refine ⟨[newJob c], ?_, SameChecks.refl cfg c T, ?_⟩
            · intro r hmem
              rw [List.mem_singleton] at hmem
              exact ⟨hmem, hv, Bool.not_eq_true _ ▸ hviol⟩
            · intro T' h
              rw [creates, creates, hchecks T' h,
                hchecks T (SameChecks.refl cfg c T)]

/-! ## Bookings of others -/

section Bookings

variable {cfg : Config} {c c' : Call}

/-- A valid window is at most a day long. -/
theorem seconds_le_day {now : Datetime} (h : ValidBody cfg c.body now) :
    c.body.endTime.seconds ≤ c.body.startTime.seconds + 24 * 3600 := by
  have hshort := (cut_length (k := 4 * 3600)).2 h.shortEnough
  rw [microsecondsPerSecond] at hshort
  omega

/-- A row of a call that does not compete is not in the way. -/
theorem Apart.not_overlapRow (h : Apart c c')
    (hv : validate cfg c.body c.validatedAt = none)
    (hv' : validate cfg c'.body c'.validatedAt = none) :
    ¬ overlapRow c.body.assetId c.body.endTime.strftime
      c.body.startTime.strftime (newJob c') = true := by
  intro hrow
  rw [overlapRow, Bool.and_eq_true, Bool.and_eq_true, Bool.and_eq_true,
    beq_iff_eq, decide_eq_true_eq, decide_eq_true_eq] at hrow
  obtain ⟨⟨⟨hasset, -⟩, hrow⟩, hrow'⟩ := hrow
  have hover : collate c'.body.startTime.strftime
      < collate c.body.endTime.strftime := hrow
  have hover' : collate c.body.startTime.strftime
      < collate c'.body.endTime.strftime := hrow'
  rcases h with hne | hdisj
  · exact hne hasset.symm
  · have hb := validBody hv
    have hb' := validBody hv'
    -- neither window is empty, so overlapping ones meet
    have hlt := lt_of_overlap hb.seconds_lt (seconds_le_day hb) hb'.seconds_lt
      (seconds_le_day hb') hover' hover
    have hlt' := lt_of_overlap hb'.seconds_lt (seconds_le_day hb') hb.seconds_lt
      (seconds_le_day hb) hover hover'
    have hmeet := (Reservations.ico_inter_nonempty_iff hlt hlt').mpr
      ⟨hover', hover⟩
    exact hmeet.ne_empty hdisj.inter_eq

/-- A call reads the same before and after a booking of another user that
    does not compete with it. -/
theorem sameChecks_append {T S new : Table} (huser : c.userId ≠ c'.userId)
    (hid : c.uuid ≠ c'.uuid) (hapart : Apart c c')
    (hnew : Inserts cfg c' S new) : SameChecks cfg c T (T ++ new) where
  key := by
    have hnone : new.find? (fun r => r.key = (c.userId, c.idempotencyKey))
        = none := by
      rw [List.find?_eq_none]
      intro r hr hkey
      rw [(hnew r hr).1, decide_eq_true_eq, Job.key, Prod.mk.injEq] at hkey
      exact huser hkey.1.symm
    rw [sqlFindByIdempotency, List.find?_append, hnone, Option.or_none]
    rfl
  quota := by
    have hzero : new.countP (fun r => r.userId == c.userId && r.active) = 0 := by
      rw [List.countP_eq_zero]
      intro r hr hcount
      rw [(hnew r hr).1, Bool.and_eq_true, beq_iff_eq] at hcount
      exact huser hcount.1.symm
    rw [sqlCountActive, List.countP_append, hzero, Nat.add_zero]
    rfl
  overlap := by
    intro hv
    have hnone : sqlCheckOverlap new c.body.assetId c.body.endTime.strftime
        c.body.startTime.strftime = none := by
      rw [sqlCheckOverlap, List.find?_eq_none]
      intro r hr
      rw [(hnew r hr).1]
      exact hapart.not_overlapRow hv (hnew r hr).2.1
    rw [sqlCheckOverlap] at hnone ⊢
    rw [List.find?_append, hnone, Option.or_none]
    rfl
  unique := by
    have hfree : violates new (newJob c) = false := by
      rw [violates_eq_false]
      intro r hr
      rw [(hnew r hr).1]
      refine ⟨hid.symm, ?_⟩
      intro hkey
      rw [Job.key, Job.key, Prod.mk.injEq] at hkey
      exact huser hkey.1.symm
    rw [violates] at hfree
    rw [violates, List.any_append, hfree, Bool.or_false]
    rfl

end Bookings

/-! ## Results -/

/-- A rewriting of rows that leaves each the same job. -/
structure Rewriting where
  apply : Job → Job
  sameJob : ∀ r, SameJob r (apply r)

def Rewriting.keep : Rewriting := ⟨id, SameJob.refl⟩

/-- What `update_state` writes. -/
def Rewriting.setState (state : String) (errorMessage : Option String)
    (now : String) : Rewriting :=
  ⟨fun r => r.setState state errorMessage now,
    fun r => sameJob_setState r state errorMessage now⟩

/-- The table with the row of the id rewritten. -/
def rewriteRow (id : String) (f : Rewriting) (T : Table) : Table :=
  updateWhere (fun r => r.id == id) f.apply T

theorem rewriteRow_keep (id : String) (T : Table) :
    rewriteRow id Rewriting.keep T = T := updateWhere_id _ T

theorem Rewriting.id_apply (f : Rewriting) (r : Job) : (f.apply r).id = r.id :=
  (f.sameJob r).id

section Results

variable {T T' : Table} {msg : Delivered} {id id' : String}

/-- The reads of a message about a job: its row. -/
def SameRow (id : String) (T T' : Table) : Prop :=
  sqlFindByIdUnscoped T' (some id) = sqlFindByIdUnscoped T (some id)

/-- The guard reads the row the message names, and no other. -/
theorem readMessage_same (hname : NamesJob id msg) (h : SameRow id T T') :
    readMessage T' msg = readMessage T msg := by
  cases msg with
  | error e => exact absurd hname False.elim
  | ok value =>
      cases value with
      | obj payload =>
          have hbind : (dictGet payload fieldJobId).bindText = .ok (some id) :=
            hname
          by_cases hpresent : (dictGet payload fieldJobId).truthy = true
              ∧ (dictGet payload fieldState).truthy = true
          · rw [readMessage_present hpresent.1 hpresent.2,
              readMessage_present hpresent.1 hpresent.2, hbind]
            rw [SameRow] at h
            simp only [h]
          · rw [readMessage_missing hpresent, readMessage_missing hpresent]
      | _ => exact absurd hname False.elim

/-- **A result does what its row says**: with the same row of its id it ends
    the same, calls back the same and rewrites that row the same. -/
theorem handles_acts (now : Datetime) (hname : NamesJob id msg)
    (hok : (handles msg now T).1.1 = .ok ()) :
    ∃ f : Rewriting,
      Acts (SameRow id) (handles msg now) T (rewriteRow id f) := by
  cases hv : readMessage T msg with
  | ignored why =>
      refine ⟨Rewriting.keep, rfl, ?_⟩
      intro T' h
      have hv' := (readMessage_same hname h).trans hv
      rw [handles, handles, onMessage_ignored now hv,
        onMessage_ignored now hv', rewriteRow_keep]
  | raised e =>
      rw [handles, onMessage_raised now hv] at hok
      cases hok
  | proceed jobId newState errorMsg =>
      obtain ⟨payload, named, current, a, b, rfl, hjob, hnew, -, -, hid, -⟩ :=
        readMessage_proceed hv
      have hst : newState.bindText = .ok (some b.value) := by rw [hnew]; rfl
      have hnamed : named = id := by
        have hbind : (dictGet payload fieldJobId).bindText = .ok (some id) :=
          hname
        rw [← hjob, hid, Except.ok.injEq, Option.some.injEq] at hbind
        exact hbind
      rw [hnamed] at hid
      obtain ⟨err, herr⟩ := bindable_iff.mp ((onMessage_proceed now hv).mp hok)
      refine ⟨Rewriting.setState b.value err now.strftime, rfl, ?_⟩
      intro T' h
      have hv' := (readMessage_same hname h).trans hv
      -- the re-read finds the same row, as updated
      have hfound : sqlFindByIdUnscoped
            (setState T' id b.value err now.strftime) (some id)
          = sqlFindByIdUnscoped
            (setState T id b.value err now.strftime) (some id) := by
        rw [SameRow] at h
        rw [sqlFindByIdUnscoped_setState, sqlFindByIdUnscoped_setState, h]
      simp only [handles, onMessage, hv, hv', hfound,
        updateState_onTable now hid hst herr]
      cases sqlFindByIdUnscoped (setState T id b.value err now.strftime)
          (some id) with
      | none => rfl
      | some updated => rfl

/-- A rewriting of one row leaves the others to be found. -/
theorem sameRow_rewriteRow (hne : id ≠ id') (f : Rewriting) (T : Table) :
    SameRow id' T (rewriteRow id f T) := by
  have hfind := find?_updateWhere (p := fun r : Job => r.id == id)
    (q := fun r : Job => decide (r.id = id')) (f := f.apply)
    (fun r => by rw [f.id_apply]) T
  refine hfind.trans ?_
  cases hf : T.find? (fun r => decide (r.id = id')) with
  | none =>
      rw [sqlFindByIdUnscoped, hf]
      rfl
  | some r =>
      have hid : r.id = id' := by simpa using List.find?_some hf
      have hother : ¬ (r.id == id) = true := by
        rw [beq_iff_eq, hid]
        exact hne.symm
      rw [sqlFindByIdUnscoped, hf, Option.map_some, if_neg hother]

/-- Two rewritings of different rows can change places. -/
theorem rewriteRow_comm (hne : id ≠ id') (f g : Rewriting) (T : Table) :
    rewriteRow id f (rewriteRow id' g T) = rewriteRow id' g (rewriteRow id f T) := by
  refine updateWhere_comm ?_ ?_ ?_ T
  · intro r
    rw [g.id_apply]
  · intro r
    rw [f.id_apply]
  · intro r hr hr'
    exact hne ((eq_of_beq hr).symm.trans (eq_of_beq hr'))

/-- Inserted jobs are not touched: the constraint gives them other ids. -/
theorem rewriteRow_append {cfg : Config} {c : Call} {new : Table}
    (hnew : Inserts cfg c T new) {r : Job} (hr : r ∈ T) (f : Rewriting) :
    rewriteRow r.id f (T ++ new) = rewriteRow r.id f T ++ new := by
  refine updateWhere_append ?_
  intro x hx hid
  obtain ⟨rfl, -, hfree⟩ := hnew x hx
  exact (violates_eq_false.mp hfree r hr).1 (eq_of_beq hid).symm

end Results

/-! ## A result seen by a call -/

/-- The quota of a user counts the user's own rows. -/
theorem sqlCountActive_rowsOf (T : Table) (userId : String) :
    sqlCountActive T userId = (rowsOf T userId).countP Job.active := by
  rw [rowsOf, List.countP_filter, sqlCountActive]
  refine congrArg (T.countP ·) ?_
  funext r
  rw [Bool.and_comm]

/-- The rows of an asset. -/
def rowsOn (T : Table) (assetId : String) : Table :=
  T.filter (fun r => r.assetId == assetId)

/-- The overlap check looks at the rows of its asset. -/
theorem sqlCheckOverlap_rowsOn (T : Table) (assetId endTime startTime : String) :
    sqlCheckOverlap T assetId endTime startTime
      = sqlCheckOverlap (rowsOn T assetId) assetId endTime startTime := by
  rw [rowsOn, sqlCheckOverlap, sqlCheckOverlap, List.find?_filter]
  refine congrArg (T.find? ·) ?_
  funext r
  rw [Bool.eq_iff_iff, decide_eq_true_eq, overlapRow, Bool.and_eq_true,
    Bool.and_eq_true, Bool.and_eq_true]
  constructor
  · intro h
    exact ⟨h.1.1.1, h⟩
  · intro h
    exact h.2

/-- A call reads the same before and after a result about a job that is
    neither its user's nor on its asset. -/
theorem sameChecks_rewriteRow {cfg : Config} {c : Call} {T : Table}
    (hids : (T.map Job.id).Nodup) {r : Job} (hr : r ∈ T)
    (huser : r.userId ≠ c.userId) (hasset : r.assetId ≠ c.body.assetId)
    (f : Rewriting) : SameChecks cfg c T (rewriteRow r.id f T) := by
  have honly : ∀ x ∈ T, (x.id == r.id) = true → x = r := fun x hx hid =>
    List.inj_on_of_nodup_map hids hx hr (eq_of_beq hid)
  have hrows : rowsOf (rewriteRow r.id f T) c.userId = rowsOf T c.userId := by
    refine filter_updateWhere ?_ ?_
    · intro x
      rw [(f.sameJob x).userId]
    · intro x hx hmine hid
      rw [honly x hx hid] at hmine
      exact huser (eq_of_beq hmine)
  have hrows' : rowsOn (rewriteRow r.id f T) c.body.assetId
      = rowsOn T c.body.assetId := by
    refine filter_updateWhere ?_ ?_
    · intro x
      rw [(f.sameJob x).assetId]
    · intro x hx hmine hid
      rw [honly x hx hid] at hmine
      exact hasset (eq_of_beq hmine)
  refine ⟨?_, ?_, ?_, ?_⟩
  · rw [sqlFindByIdempotency_rowsOf, sqlFindByIdempotency_rowsOf, hrows]
  · rw [sqlCountActive_rowsOf, sqlCountActive_rowsOf, hrows]
  · intro _
    rw [sqlCheckOverlap_rowsOn, hrows', ← sqlCheckOverlap_rowsOn]
  · -- the columns under a constraint are not written
    have hcolumns := map_updateWhere (p := fun x : Job => x.id == r.id)
      (f := f.apply)
      (g := fun x : Job => x.id == (newJob c).id || x.key == (newJob c).key)
      (fun x => by rw [f.id_apply, (f.sameJob x).key]) T
    have hany : ∀ S : Table, violates S (newJob c)
        = (S.map (fun x : Job =>
            x.id == (newJob c).id || x.key == (newJob c).key)).any id := by
      intro S
      rw [List.any_map]
      rfl
    rw [hany, hany, rewriteRow, hcolumns]

/-! ## Either order -/

section Orders

variable {cfg : Config} {T : Table}

/-- Bookings of different users that do not compete for an asset. -/
theorem bookings_independent {c c' : Call} (huser : c.userId ≠ c'.userId)
    (hid : c.uuid ≠ c'.uuid) (hapart : Apart c c') :
    Independent List.Perm (creates cfg c) (creates cfg c') T := by
  obtain ⟨new, hnew, hacts⟩ := creates_acts cfg c T
  obtain ⟨new', hnew', hacts'⟩ := creates_acts cfg c' T
  refine hacts.independent hacts' (sameChecks_append huser hid hapart hnew')
    (sameChecks_append huser.symm hid.symm hapart.symm hnew) ?_
  rw [List.append_assoc, List.append_assoc]
  exact List.perm_append_comm.append_left T

/-- A booking and a result about neither its user nor its asset. -/
theorem booking_result_independent (hids : (T.map Job.id).Nodup) {c : Call}
    {msg : Delivered} (now : Datetime) {r : Job} (hr : r ∈ T)
    (hname : NamesJob r.id msg) (huser : r.userId ≠ c.userId)
    (hasset : r.assetId ≠ c.body.assetId)
    (hok : (handles msg now T).1.1 = .ok ()) :
    Independent Eq (creates cfg c) (handles msg now) T := by
  obtain ⟨new, hnew, hacts⟩ := creates_acts cfg c T
  obtain ⟨f, hacts'⟩ := handles_acts now hname hok
  have hrow := sqlFindByIdUnscoped_of_mem hids hr
  have hrow' : sqlFindByIdUnscoped (T ++ new) (some r.id) = some r :=
    find?_append_of_some hrow
  exact hacts.independent hacts'
    (sameChecks_rewriteRow hids hr huser hasset f) (hrow'.trans hrow.symm)
    (rewriteRow_append hnew hr f)

/-- Results about different jobs. -/
theorem results_independent {msg msg' : Delivered} (now now' : Datetime)
    {id id' : String} (hname : NamesJob id msg) (hname' : NamesJob id' msg')
    (hne : id ≠ id') (hok : (handles msg now T).1.1 = .ok ())
    (hok' : (handles msg' now' T).1.1 = .ok ()) :
    Independent Eq (handles msg now) (handles msg' now') T := by
  obtain ⟨f, hacts⟩ := handles_acts now hname hok
  obtain ⟨g, hacts'⟩ := handles_acts now' hname' hok'
  exact hacts.independent hacts' (sameRow_rewriteRow hne.symm g T)
    (sameRow_rewriteRow hne f T) (rewriteRow_comm hne.symm g f T)

end Orders

/-- **Independent operations commute**: on every reachable table, bookings of
    different users that do not compete for an asset, a booking and a result
    about neither its user nor its asset, and results about different jobs end
    the same in either order, with the same dispatches and callbacks and the
    same rows. -/
theorem independent_operations_commute {cfg : Config} {T : Table}
    (hT : ReachableTable cfg T) :
    (∀ c c' : Call, c.userId ≠ c'.userId → c.uuid ≠ c'.uuid → Apart c c' →
        Independent List.Perm (creates cfg c) (creates cfg c') T)
      ∧ (∀ (c : Call) (msg : Delivered) (now : Datetime), ∀ r ∈ T,
          NamesJob r.id msg → r.userId ≠ c.userId →
          r.assetId ≠ c.body.assetId → (handles msg now T).1.1 = .ok () →
          Independent Eq (creates cfg c) (handles msg now) T)
      ∧ (∀ (msg msg' : Delivered) (now now' : Datetime) (id id' : String),
          NamesJob id msg → NamesJob id' msg' → id ≠ id' →
          (handles msg now T).1.1 = .ok () →
          (handles msg' now' T).1.1 = .ok () →
          Independent Eq (handles msg now) (handles msg' now') T) := by
  obtain ⟨ls, s, hrun, rfl⟩ := hT
  have hids := (serviceOk_run hrun).ids
  refine ⟨?_, ?_, ?_⟩
  · intro c c' huser hid hapart
    exact bookings_independent huser hid hapart
  · intro c msg now r hr hname huser hasset hok
    exact booking_result_independent hids now hr hname huser hasset hok
  · intro msg msg' now now' id id' hname hname' hne hok hok'
    exact results_independent now now' hname hname' hne hok hok'

/-- A booking of two hours of February 2. -/
def bookingFrom (userId uuid assetId : String) (hour : Nat) : Call :=
  booking userId "key-1" uuid assetId (february 2 hour) (february 2 (hour + 2))
    .handed

/-- The morning and the afternoon are booked. -/
def dayBooked : List Label :=
  morningBooked ++ [.submit afternoon, .call 1, .call 1, .call 1, .call 1]

/-- The run books both windows. -/
theorem dayBooked_run :
    ∃ s, exec (step seedConfig) Service.empty dayBooked = some s
      ∧ s.jobs = [newJob morning, newJob afternoon] :=
  Option.map_eq_some_iff.mp
    (show (exec (step seedConfig) Service.empty dayBooked).map
      (fun s => s.jobs) = some [newJob morning, newJob afternoon] by decide)

/-- Back-to-back bookings of one asset, a booking elsewhere and a result about
    the morning, results about the morning and the afternoon. -/
theorem independent_operations_commute_day :
    ∃ T, ReachableTable seedConfig T
      ∧ Independent List.Perm
        (creates seedConfig (bookingFrom "carol" "job-3" "asset-001" 14))
        (creates seedConfig (bookingFrom "dave" "job-4" "asset-001" 16)) T
      ∧ Independent Eq
        (creates seedConfig (bookingFrom "carol" "job-3" "asset-002" 14))
        (handles (resultMessage "job-1" "RUNNING") (february 2 10)) T
      ∧ Independent Eq
        (handles (resultMessage "job-1" "RUNNING") (february 2 10))
        (handles (resultMessage "job-2" "RUNNING") (february 2 12)) T := by
  obtain ⟨s, hrun, hjobs⟩ := dayBooked_run
  have hT : ReachableTable seedConfig [newJob morning, newJob afternoon] :=
    ⟨dayBooked, s, hrun, hjobs⟩
  obtain ⟨hbookings, hresult, hresults⟩ := independent_operations_commute hT
  refine ⟨_, hT, ?_, ?_, ?_⟩
  · refine hbookings _ _ (by decide) (by decide) (Or.inr ?_)
    exact Set.Ico_disjoint_Ico_same
  · exact hresult _ _ _ (newJob morning) (List.mem_cons_self ..) rfl (by decide)
      (by decide) rfl
  · exact hresults _ _ _ _ "job-1" "job-2" rfl rfl (by decide) rfl rfl

end JobCommute
