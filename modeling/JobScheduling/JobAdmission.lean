import JobScheduling.JobLedger

/-! # Admission: disjoint bookings and the quota

    The two promises of the insert transaction, over every run of the
    service: active jobs of one asset never share an instant of their stored
    windows, and nobody has more than `MAX_ACTIVE_JOBS_PER_USER` active jobs.

    Both are invariants of the ledger: admission establishes them, a
    transition never makes an inactive row active. -/

namespace JobAdmission

open JobConstants JobClock JobPayload JobModels JobRepository JobBroker
open JobOrchestrator JobService JobLedger KeyedTable Reservations Runs

/-- The rows of a ledger keep clear of each other. -/
theorem ledger_compatible {T : Table} (h : Ledger T) :
    T.Pairwise reading.Compatible :=
  h.induction List.Pairwise.nil (fun _ _ hT hstep => hstep.compatible hT)

/-- No user has more active rows than the maximum. -/
theorem ledger_quota {T : Table} (h : Ledger T) :
    ∀ u, sqlCountActive T u ≤ maxActiveJobsPerUser :=
  h.induction (fun _ => Nat.zero_le _) (fun _ _ hT hstep => hstep.quota hT)

/-- The stored window of a row, as SQLite compares its texts. -/
def storedWindow (r : Job) : Set (List Nat) :=
  Set.Ico (collate r.startTime) (collate r.endTime)

/-- **No double booking**: in every reachable table, two distinct active rows
    of one asset have disjoint stored windows. -/
theorem no_double_booking {cfg : Config} {ls : List Label} {s : Service}
    (h : exec (step cfg) Service.empty ls = some s) {i j : Nat} {a b : Job}
    (hij : i ≠ j) (ha : s.jobs[i]? = some a) (hb : s.jobs[j]? = some b)
    (hasset : a.assetId = b.assetId) (hact : a.state ∈ activeStates)
    (hact' : b.state ∈ activeStates) :
    Disjoint (storedWindow a) (storedWindow b) := by
  have hpw := ledger_compatible (service_refines_ledger h)
  rw [List.pairwise_iff_getElem] at hpw
  obtain ⟨hi, rfl⟩ := List.getElem?_eq_some_iff.mp ha
  obtain ⟨hj, rfl⟩ := List.getElem?_eq_some_iff.mp hb
  have hheld : s.jobs[i].active = true := List.contains_iff_mem.mpr hact
  have hheld' : s.jobs[j].active = true := List.contains_iff_mem.mpr hact'
  rcases Nat.lt_or_gt_of_ne hij with hlt | hgt
  · exact hpw i j hi hj hlt hasset hheld hheld'
  · exact (hpw j i hj hi hgt hasset.symm hheld' hheld).symm

/-- Two users book one asset back to back while a result message arrives. -/
private def backToBack : List Label :=
  [.submit (booking "user-001" "k1" "job-1" "asset-001" (february 2 1)
      (february 2 3) .handed),
    .submit (booking "user-002" "k1" "job-2" "asset-001" (february 2 3)
      (february 2 5) .handed),
    .call 0, .call 1, .call 0, .call 1, .call 0,
    .deliver (resultMessage "job-1" "RUNNING") (february 1 1), .call 1, .handler,
    .call 0, .call 1, .handler, .handler]

/-- The second window starts where the first one ends, and both jobs are active. -/
theorem no_double_booking_backToBack :
    ∃ s a b, exec (step seedConfig) Service.empty backToBack = some s
      ∧ s.jobs[0]? = some a ∧ s.jobs[1]? = some b
      ∧ a.state = stateRunning ∧ b.state = statePending
      ∧ Disjoint (storedWindow a) (storedWindow b) := by
  let row (r : Job) : String × String := (r.assetId, r.state)
  obtain ⟨s, hs, hrows⟩ := Option.map_eq_some_iff.mp
    (show (exec (step seedConfig) Service.empty backToBack).map
        (fun s => (s.jobs[0]?.map row, s.jobs[1]?.map row))
      = some (some ("asset-001", "RUNNING"), some ("asset-001", "PENDING")) by
      decide)
  rw [Prod.mk.injEq] at hrows
  obtain ⟨a, ha, harow⟩ := Option.map_eq_some_iff.mp hrows.1
  obtain ⟨b, hb, hbrow⟩ := Option.map_eq_some_iff.mp hrows.2
  obtain ⟨haa, has⟩ := Prod.mk.inj harow
  obtain ⟨hba, hbs⟩ := Prod.mk.inj hbrow
  refine ⟨s, a, b, hs, ha, hb, has, hbs, ?_⟩
  have hact : a.state ∈ activeStates := by rw [has]; decide
  have hact' : b.state ∈ activeStates := by rw [hbs]; decide
  exact no_double_booking hs (i := 0) (j := 1) (by decide) ha hb
    (haa.trans hba.symm) hact hact'

/-- **Active-job quota**: in every reachable table nobody has more active jobs
    than the maximum, and a call that passed validation is turned away for
    the maximum only when its user has exactly that many. -/
theorem active_job_quota {cfg : Config} {ls : List Label} {s : Service}
    (h : exec (step cfg) Service.empty ls = some s) :
    (∀ u, sqlCountActive s.jobs u ≤ maxActiveJobsPerUser)
      ∧ ∀ i c job s', s.calls[i]? = some (c, .insert job) →
          step cfg s (.call i) = some s' →
          s'.calls[i]? = some (c, .returned
            (.ok (.unprocessableEntity, .inr ErrorMessages.maxActiveJobs))) →
          sqlCountActive s.jobs c.userId = maxActiveJobsPerUser := by
  have hquota := ledger_quota (service_refines_ledger h)
  refine ⟨hquota, ?_⟩
  intro i c job s' hi hst hret
  have hc : CallOk cfg c s.jobs (.insert job) := (serviceOk_run h).call hi
  have hlen : i < s.calls.length := (List.getElem?_eq_some_iff.mp hi).1
  cases step_move hst with
  | call _ c' pc pc' T' ev here move =>
      rw [hi, Option.some.injEq, Prod.mk.injEq] at here
      obtain ⟨rfl, rfl⟩ := here
      rw [List.getElem?_set_self hlen, Option.some.injEq, Prod.mk.injEq] at hret
      obtain ⟨-, rfl⟩ := hret
      -- only the quota branch of the transaction gives this answer
      cases move with
      | maxActive _ quota =>
          rw [hc.1] at quota
          exact Nat.le_antisymm (hquota c.userId) quota

/-- The `n`-th of eleven bookings of one user, each on a day of its own. -/
private def dailyBooking (n : Nat) : Call :=
  booking "user-001" ("k" ++ toString n) ("job-" ++ toString n) "asset-001"
    (february (n + 2) 1) (february (n + 2) 2) .handed

/-- All eleven are run to their insert transaction, the first ten past it. -/
private def elevenBookings : List Label :=
  (List.range 11).flatMap (fun n =>
    [.submit (dailyBooking n), .call n, .call n]
      ++ if n < 10 then [.call n] else [])

/-- Ten of the eleven are booked. -/
theorem active_job_quota_elevenBookings :
    ∃ s, exec (step seedConfig) Service.empty elevenBookings = some s
      ∧ sqlCountActive s.jobs "user-001" = maxActiveJobsPerUser := by
  let job : Job := newJob (dailyBooking 10)
  let answer : CreatePc := .returned
    (.ok (.unprocessableEntity, .inr ErrorMessages.maxActiveJobs))
  obtain ⟨s, hs, hobs⟩ := Option.map_eq_some_iff.mp
    (show (exec (step seedConfig) Service.empty elevenBookings).map
        (fun s => (s.calls[10]?,
          (step seedConfig s (.call 10)).map (fun t => t.calls[10]?)))
      = some (some (dailyBooking 10, .insert job),
          some (some (dailyBooking 10, answer))) by
      decide +kernel)
  rw [Prod.mk.injEq] at hobs
  obtain ⟨s', hs', hret⟩ := Option.map_eq_some_iff.mp hobs.2
  exact ⟨s, hs, (active_job_quota hs).2 10 _ job s' hobs.1 hs' hret⟩

end JobAdmission
