import JobScheduling.JobOrigins
import Mathlib.Data.List.Sort

/-! # Reading jobs back

    `get_job` and `list_jobs`: both go straight to the repository and both are
    scoped to one user.  SQL leaves the order of rows with equal `created_at`
    open, so a listing is a relation, which `sqlListByUser` computes one
    solution of.

    `accepted_jobs_durable` relates what `create_job` answered to what the two
    read at any later time. -/

namespace JobReads

open JobConstants JobClock JobModels JobRepository JobBroker JobOrchestrator JobService
open JobLedger JobOrigins KeyedTable Runs

/-! ## The two queries -/

/-- `find_by_id`: `SELECT * FROM jobs WHERE id = ? AND user_id = ?`. -/
def getJob (T : Table) (jobId userId : String) : Option Job :=
  sqlFindById T jobId userId

/-- Newest first, by the collated strings. -/
def NewestFirst (a b : Job) : Prop := collate b.createdAt ≤ collate a.createdAt

instance : DecidableRel NewestFirst := fun a b =>
  inferInstanceAs (Decidable (collate b.createdAt ≤ collate a.createdAt))

/-- `list_by_user`: `SELECT * FROM jobs WHERE user_id = ? ORDER BY created_at
    DESC` may return these rows. -/
def ListsJobs (T : Table) (userId : String) (rows : List Job) : Prop :=
  rows.Perm (T.filter (fun r => r.userId == userId)) ∧ rows.Pairwise NewestFirst

/-- One of the answers of `list_by_user`. -/
def sqlListByUser (T : Table) (userId : String) : List Job :=
  (T.filter (fun r => r.userId == userId)).mergeSort
    (fun a b => decide (NewestFirst a b))

/-- There always is a listing. -/
theorem sqlListByUser_lists (T : Table) (userId : String) :
    ListsJobs T userId (sqlListByUser T userId) := by
  refine ⟨List.mergeSort_perm _ _, ?_⟩
  have hsorted : (sqlListByUser T userId).Pairwise
      (fun a b => decide (NewestFirst a b) = true) := by
    refine List.pairwise_mergeSort ?_ ?_ _
    · intro a b c hab hbc
      exact decide_eq_true
        (le_trans (of_decide_eq_true hbc) (of_decide_eq_true hab))
    · intro a b
      rw [Bool.or_eq_true, decide_eq_true_eq, decide_eq_true_eq]
      exact le_total _ _
  exact hsorted.imp (fun h => of_decide_eq_true h)

/-- `get_job` returns a row of the user with that id. -/
theorem getJob_some {T : Table} {jobId userId : String} {r : Job}
    (h : getJob T jobId userId = some r) :
    r ∈ T ∧ r.id = jobId ∧ r.userId = userId := by
  have hcond := List.find?_some h
  rw [Bool.and_eq_true, beq_iff_eq, beq_iff_eq] at hcond
  exact ⟨List.mem_of_find?_eq_some h, hcond.1, hcond.2⟩

/-- With unique ids, `get_job` returns the row of that id to its owner. -/
theorem getJob_of_mem {T : Table} (hT : (T.map Job.id).Nodup) {r : Job}
    (hr : r ∈ T) : getJob T r.id r.userId = some r := by
  cases hf : getJob T r.id r.userId with
  | none =>
      have hno := List.find?_eq_none.mp hf r hr
      rw [beq_self_eq_true, beq_self_eq_true] at hno
      exact absurd rfl hno
  | some r' =>
      obtain ⟨hr', hid, -⟩ := getJob_some hf
      rw [List.inj_on_of_nodup_map hT hr' hr hid]

/-- ... and nothing to anybody else. -/
theorem getJob_of_other {T : Table} (hT : (T.map Job.id).Nodup) {r : Job}
    (hr : r ∈ T) {userId : String} (hu : userId ≠ r.userId) :
    getJob T r.id userId = none := by
  cases hf : getJob T r.id userId with
  | none => rfl
  | some r' =>
      obtain ⟨hr', hid, huser⟩ := getJob_some hf
      have heq : r' = r := List.inj_on_of_nodup_map hT hr' hr hid
      rw [heq] at huser
      exact absurd huser.symm hu

/-- A listing shows the rows of the user. -/
theorem ListsJobs.mem_iff {T rows : Table} {userId : String}
    (h : ListsJobs T userId rows) {r : Job} :
    r ∈ rows ↔ r ∈ T ∧ r.userId = userId := by
  rw [h.1.mem_iff, List.mem_filter, beq_iff_eq]

/-- A listing has every id once. -/
theorem ListsJobs.nodup {T rows : Table} {userId : String}
    (h : ListsJobs T userId rows) (hT : (T.map Job.id).Nodup) :
    (rows.map Job.id).Nodup := by
  refine (h.1.map Job.id).nodup_iff.mpr ?_
  exact hT.sublist (List.filter_sublist.map Job.id)

/-! ## Accepted jobs -/

/-- The columns a response and a later read have to agree on. -/
def SameContent (job r : Job) : Prop :=
  r.assetId = job.assetId ∧ r.operation = job.operation
    ∧ r.startTime = job.startTime ∧ r.endTime = job.endTime
    ∧ r.createdAt = job.createdAt

/-- Two rows of one job agree on them. -/
theorem SameJob.content {a b : Job} (h : SameJob a b) : SameContent a b :=
  ⟨h.assetId, h.operation, h.startTime, h.endTime, h.createdAt⟩

/-- What the reads of a table say about a job answered to a user: it is his,
    once, and nobody else's. -/
structure Durable (T : Table) (userId : String) (job : Job) : Prop where
  get : ∃ r, getJob T job.id userId = some r ∧ SameContent job r
  lists : ∃ rows, ListsJobs T userId rows
  listed : ∀ rows, ListsJobs T userId rows → (rows.map Job.id).count job.id = 1
  hidden : ∀ other, other ≠ userId → getJob T job.id other = none
  unlisted : ∀ other, other ≠ userId → ∀ rows, ListsJobs T other rows →
    job.id ∉ rows.map Job.id

/-- A job with a row in the table is durable. -/
theorem durable_of_row {T : Table} (hT : (T.map Job.id).Nodup) {job r : Job}
    (hr : r ∈ T) (hsame : SameJob job r) : Durable T job.userId job := by
  have hid : r.id = job.id := hsame.id
  have huser : r.userId = job.userId := congrArg Prod.fst hsame.key
  rw [← huser]
  refine ⟨?_, ⟨_, sqlListByUser_lists T r.userId⟩, ?_, ?_, ?_⟩
  · rw [← hid]
    exact ⟨r, getJob_of_mem hT hr, SameJob.content hsame⟩
  · intro rows hrows
    rw [← hid]
    refine List.count_eq_one_of_mem (hrows.nodup hT) ?_
    exact List.mem_map.mpr ⟨r, hrows.mem_iff.mpr ⟨hr, rfl⟩, rfl⟩
  · intro other hother
    rw [← hid]
    exact getJob_of_other hT hr hother
  · intro other hother rows hrows hmem
    rw [← hid] at hmem
    obtain ⟨r', hr', hid'⟩ := List.mem_map.mp hmem
    obtain ⟨hin, huser'⟩ := hrows.mem_iff.mp hr'
    have heq : r' = r := List.inj_on_of_nodup_map hT hin hr hid'
    rw [heq] at huser'
    exact hother huser'.symm

/-- What a listing shows was committed by a call of its user, and `get_job`
    shows the same. -/
def Owned (cfg : Config) (ls : List Label) (T : Table) (userId : String)
    (r : Job) : Prop :=
  (∃ n c, CreatedBy cfg ls n c ∧ c.userId = userId ∧ T[n]? = some r)
    ∧ getJob T r.id userId = some r

/-- **Accepted jobs are durable and owned**: whatever `create_job` answered 201
    with is read back, by its user only, in every later state; and a user's
    listing shows only rows his own calls committed. -/
theorem accepted_jobs_durable {cfg : Config} {ls : List Label} {s : Service}
    (h : exec (step cfg) Service.empty ls = some s) :
    (∀ (i : Nat) (c : Call) (job : Job), s.calls[i]? = some (c, accepted job) →
        ∀ ms s', exec (step cfg) s ms = some s' → Durable s'.jobs c.userId job)
      ∧ (∀ userId rows, ListsJobs s.jobs userId rows → ∀ r ∈ rows,
          Owned cfg ls s.jobs userId r) := by
  have hok := serviceOk_run h
  constructor
  · intro i c job hcall ms s' hms
    have hok' : ServiceOk cfg s' :=
      exec_invariant (fun _ _ _ hs hst => serviceOk_step hs hst) hok hms
    obtain ⟨hkey, r, hr, hsame⟩ : job.key = (c.userId, c.idempotencyKey)
        ∧ ∃ r ∈ s.jobs, SameJob job r := hok.call hcall
    obtain ⟨r', hr', hsame'⟩ := (jobs_evolve hok hms).mem hr
    have huser : job.userId = c.userId := congrArg Prod.fst hkey
    rw [← huser]
    exact durable_of_row hok'.ids hr' (hsame.trans hsame')
  · intro userId rows hrows r hr
    obtain ⟨hmem, huser⟩ := hrows.mem_iff.mp hr
    obtain ⟨n, hn⟩ := List.mem_iff_getElem?.mp hmem
    obtain ⟨hlen, -⟩ := List.getElem?_eq_some_iff.mp hn
    obtain ⟨c, hc⟩ := exists_createdBy h n hlen
    have hkey : r.key = (newJob c).key := (hc.sameJob h hn).key
    have hcu : r.userId = c.userId := congrArg Prod.fst hkey
    refine ⟨⟨n, c, hc, hcu.symm.trans huser, hn⟩, ?_⟩
    rw [← huser]
    exact getJob_of_mem hok.ids hmem

/-- The call of the concrete run. -/
def charge : Call :=
  booking "alice" "key-1" "job-1" "asset-001" (february 2 10) (february 2 12)
    .handed

/-- The job is RUNNING when it is read and listed, once. -/
theorem accepted_jobs_charge :
    ∃ s s' rows, exec (step seedConfig) Service.empty
          [.submit charge, .call 0, .call 0, .call 0, .call 0] = some s
      ∧ exec (step seedConfig) s
          [.deliver (resultMessage "job-1" "RUNNING") (february 2 10), .handler]
        = some s'
      ∧ Durable s'.jobs "alice" (newJob charge)
      ∧ ListsJobs s'.jobs "alice" rows ∧ (rows.map Job.id).count "job-1" = 1 := by
  obtain ⟨s, h, hobs⟩ := Option.map_eq_some_iff.mp
    (show (exec (step seedConfig) Service.empty
          [.submit charge, .call 0, .call 0, .call 0, .call 0]).map
        (fun s => (s.calls[0]?, (exec (step seedConfig) s
          [.deliver (resultMessage "job-1" "RUNNING") (february 2 10),
            .handler]).isSome))
      = some (some (charge, accepted (newJob charge)), true) by decide)
  obtain ⟨hcall, hnext⟩ := Prod.mk.inj hobs
  obtain ⟨s', hs'⟩ := Option.isSome_iff_exists.mp hnext
  have hdurable := (accepted_jobs_durable h).1 0 charge (newJob charge) hcall _ s' hs'
  obtain ⟨rows, hrows⟩ := hdurable.lists
  exact ⟨s, s', rows, h, hs', hdurable, hrows, hdurable.listed rows hrows⟩

end JobReads
