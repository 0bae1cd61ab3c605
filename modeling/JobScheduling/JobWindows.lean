import JobScheduling.JobOrigins
import JobScheduling.JobTimestamps

/-! # Submitted windows and stored windows

    A request names its window with microseconds; the row holds both ends cut
    to whole seconds, as strings, and the overlap query compares the strings.
    Here the two are related:

    * `stored_rows_keep_rules` — the rules `validate` checked still hold of the
      stored window;
    * `conflict_shares_instant` — a 409 is always due to a real intersection;
    * `createJob_rejects_iff` — a real intersection is refused, except where it
      lies inside the one second both windows are cut at. -/

namespace JobWindows

open JobConstants JobClock JobPayload JobCalendar JobTimestamps JobModels JobValidation
open JobRepository JobBroker JobOrchestrator JobService JobLedger JobOrigins Runs

/-! ## Bodies that pass `validate` -/

/-- What `validate` has established of a body. -/
structure ValidBody (cfg : Config) (body : JobCreate) (now : Datetime) :
    Prop where
  asset : body.assetId ∈ cfg.validAssets
  future : now.instant < body.startTime.instant
  ordered : body.startTime.instant < body.endTime.instant
  longEnough : minJobDuration ≤ body.endTime.sub body.startTime
  shortEnough : body.endTime.sub body.startTime ≤ maxJobDuration
  operation : 1 ≤ body.operation.length
    ∧ body.operation.length ≤ operationMaxLength

/-- A body that passes `validate` keeps each of its rules. -/
theorem validBody {cfg : Config} {body : JobCreate} {now : Datetime}
    (h : validate cfg body now = none) : ValidBody cfg body now := by
  have hasset := validate_asset h
  rw [validate] at h
  split at h
  · cases h
  · split at h
    · cases h
    · rename_i hfuture
      split at h
      · cases h
      · rename_i hordered
        split at h
        · cases h
        · rename_i hlong
          split at h
          · cases h
          · rename_i hshort
            split at h
            · cases h
            · rename_i hop
              rw [Bool.or_eq_true, not_or, PyStr.isEmpty, beq_iff_eq,
                decide_eq_true_eq] at hop
              exact ⟨hasset,
                (notAfter_false_iff _ _).mp (Bool.not_eq_true _ ▸ hfuture),
                (notAfter_false_iff _ _).mp (Bool.not_eq_true _ ▸ hordered),
                not_lt.mp hlong, not_lt.mp hshort, Nat.one_le_iff_ne_zero.mpr hop.1,
                Nat.le_of_not_lt hop.2⟩

/-- Whole-second limits on a length survive cutting both its ends. -/
theorem cut_length {a b : Datetime} {k : Nat} :
    (((k * microsecondsPerSecond : Nat) : Int) ≤ b.sub a →
        ((k * microsecondsPerSecond : Nat) : Int)
          ≤ ((b.seconds : Int) - a.seconds) * microsecondsPerSecond)
      ∧ (b.sub a ≤ ((k * microsecondsPerSecond : Nat) : Int) →
        ((b.seconds : Int) - a.seconds) * microsecondsPerSecond
          ≤ ((k * microsecondsPerSecond : Nat) : Int)) := by
  have ha := instant_eq a
  have hb := instant_eq b
  have hma := microsecond_lt a
  have hmb := microsecond_lt b
  have hsub : b.sub a = (b.instant : Int) - (a.instant : Int) := rfl
  rw [hsub, microsecondsPerSecond]
  constructor
  · intro h
    have h' : ((k * 1000000 : Nat) : Int)
        ≤ (b.instant : Int) - (a.instant : Int) := h
    omega
  · intro h
    have h' : (b.instant : Int) - (a.instant : Int)
        ≤ ((k * 1000000 : Nat) : Int) := h
    omega

/-! ## Bookings with sub-second ends -/

theorem plusMicroseconds_range (d : Datetime) (microsecond : Nat) :
    d.hour < 24 ∧ d.minute < 60 ∧ d.second < 60
      ∧ min microsecond 999999 < microsecondsPerSecond := by
  obtain ⟨hh, hmi, hs, -⟩ := d.time_range
  rw [microsecondsPerSecond]
  exact ⟨hh, hmi, hs, by omega⟩

/-- A time of day with microseconds. -/
def plusMicroseconds (d : Datetime) (microsecond : Nat) : Datetime :=
  { d with
    microsecond := min microsecond 999999
    time_range := plusMicroseconds_range d microsecond }

/-- A booking until 12:00:00.9. -/
def morning : Call :=
  booking "alice" "key-1" "job-1" "asset-001" (february 2 10)
    (plusMicroseconds (february 2 12) 900000) .handed

/-- A booking from 12:00:00.1. -/
def afternoon : Call :=
  booking "bob" "key-2" "job-2" "asset-001"
    (plusMicroseconds (february 2 12) 100000) (february 2 14) .handed

def morningBooked : List Label :=
  [.submit morning, .call 0, .call 0, .call 0, .call 0]

theorem morningBooked_run :
    ∃ s, exec (step seedConfig) Service.empty morningBooked = some s
      ∧ s.jobs = [newJob morning] :=
  Option.map_eq_some_iff.mp
    (show (exec (step seedConfig) Service.empty morningBooked).map
      (fun s => s.jobs) = some [newJob morning] by decide)

/-- A booking across noon. -/
def noon : Call :=
  booking "bob" "key-3" "job-3" "asset-001" (february 2 11) (february 2 13)
    .handed

/-- The call across noon, about to insert while the morning is booked. -/
def noonWaiting : List Label :=
  morningBooked ++ [.submit noon, .call 1, .call 1]

theorem morningBooked_submits {c : Call} (h : Label.submit c ∈ morningBooked) :
    c = morning := by
  simpa only [morningBooked, List.mem_cons, Label.submit.injEq, reduceCtorEq,
    List.not_mem_nil, or_false] using h

theorem noonWaiting_submits {c : Call} (h : Label.submit c ∈ noonWaiting) :
    c = morning ∨ c = noon := by
  rcases List.mem_append.mp h with hm | hn
  · exact Or.inl (morningBooked_submits hm)
  · refine Or.inr ?_
    simpa only [List.mem_cons, Label.submit.injEq, reduceCtorEq,
      List.not_mem_nil, or_false] using hn

/-! ## The rules of stored rows -/

/-- **Stored rows keep the rules**: asset, operation, a window that is not
    empty, its length within both limits, and a start not before the clock
    reading the request was validated at. -/
theorem stored_rows_keep_rules {cfg : Config} {ls : List Label} {s : Service}
    (h : exec (step cfg) Service.empty ls = some s) {n : Nat} {r : Job}
    (hr : s.jobs[n]? = some r) :
    r.assetId ∈ cfg.validAssets
      ∧ 1 ≤ r.operation.length ∧ r.operation.length ≤ operationMaxLength
      ∧ ∃ c start stop, CreatedBy cfg ls n c
          ∧ decodeTimestamp r.startTime = some start
          ∧ decodeTimestamp r.endTime = some stop
          ∧ start < stop
          ∧ minJobDuration ≤ ((stop : Int) - start) * microsecondsPerSecond
          ∧ ((stop : Int) - start) * microsecondsPerSecond ≤ maxJobDuration
          ∧ c.validatedAt.seconds ≤ start := by
  obtain ⟨hn, -⟩ := List.getElem?_eq_some_iff.mp hr
  obtain ⟨c, hc⟩ := exists_createdBy h n hn
  have hsame := hc.sameJob h hr
  rw [hsame.assetId, hsame.operation, hsame.startTime, hsame.endTime]
  have hvalid := validBody hc.valid
  have hlong := (cut_length (k := 15 * 60)).1 hvalid.longEnough
  have hshort := (cut_length (k := 4 * 3600)).2 hvalid.shortEnough
  refine ⟨hvalid.asset, hvalid.operation.1, hvalid.operation.2, c,
    c.body.startTime.seconds, c.body.endTime.seconds, hc,
    decodeTimestamp_strftime _, decodeTimestamp_strftime _, ?_, hlong, hshort,
    seconds_le_of_instant (Nat.le_of_lt hvalid.future)⟩
  rw [microsecondsPerSecond] at hlong
  omega

/-- The stored row of the morning keeps the rules. -/
theorem stored_rows_morning :
    ∃ s, exec (step seedConfig) Service.empty morningBooked = some s
      ∧ s.jobs[0]? = some (newJob morning)
      ∧ (newJob morning).assetId ∈ seedConfig.validAssets := by
  obtain ⟨s, h, hjobs⟩ := morningBooked_run
  have hrow : s.jobs[0]? = some (newJob morning) := by rw [hjobs]; rfl
  exact ⟨s, h, hrow, (stored_rows_keep_rules h hrow).1⟩

/-! ## Windows -/

/-- The submitted window, at the precision of the request. -/
def window (body : JobCreate) : Set Nat :=
  Set.Ico body.startTime.instant body.endTime.instant

/-- Two submitted windows have an instant in common. -/
def SharesInstant (a b : JobCreate) : Prop := (window a ∩ window b).Nonempty

/-- Of valid bodies, two windows share an instant exactly when each starts
    before the other one ends. -/
theorem sharesInstant_iff {cfg cfg' : Config} {a b : JobCreate}
    {now now' : Datetime} (ha : ValidBody cfg a now)
    (hb : ValidBody cfg' b now') :
    SharesInstant a b ↔ a.startTime.instant < b.endTime.instant
      ∧ b.startTime.instant < a.endTime.instant := by
  rw [SharesInstant, window, window]
  exact Reservations.ico_inter_nonempty_iff ha.ordered hb.ordered

/-- The stored, whole-second windows overlap. -/
def StoredOverlap (a b : JobCreate) : Prop :=
  a.startTime.seconds < b.endTime.seconds
    ∧ b.startTime.seconds < a.endTime.seconds

/-- The windows meet, but only inside the one second that the earlier one ends
    in and the later one starts in. -/
def MeetInsideSecond (a b : JobCreate) : Prop :=
  a.endTime.seconds = b.startTime.seconds
      ∧ b.startTime.instant < a.endTime.instant
    ∨ b.endTime.seconds = a.startTime.seconds
      ∧ a.startTime.instant < b.endTime.instant

theorem seconds_lt_of_lt {a b : Datetime} (h : a.seconds < b.seconds) :
    a.instant < b.instant := by
  have ha := instant_eq a
  have hb := instant_eq b
  have hma := microsecond_lt a
  omega

/-- Cutting both ends can only shrink an intersection. -/
theorem storedOverlap_shares {cfg cfg' : Config} {a b : JobCreate}
    {now now' : Datetime} (ha : ValidBody cfg a now)
    (hb : ValidBody cfg' b now') (h : StoredOverlap a b) :
    SharesInstant a b :=
  (sharesInstant_iff ha hb).mpr
    ⟨seconds_lt_of_lt h.1, seconds_lt_of_lt h.2⟩

/-- A valid window is longer than a second. -/
theorem ValidBody.seconds_lt {cfg : Config} {body : JobCreate} {now : Datetime}
    (h : ValidBody cfg body now) :
    body.startTime.seconds < body.endTime.seconds := by
  have hlong := (cut_length (k := 15 * 60)).1 h.longEnough
  rw [microsecondsPerSecond] at hlong
  omega

/-- An intersection is lost by cutting exactly where the windows meet inside
    one second. -/
theorem meetInsideSecond_iff {cfg cfg' : Config} {a b : JobCreate}
    {now now' : Datetime} (ha : ValidBody cfg a now)
    (hb : ValidBody cfg' b now') :
    MeetInsideSecond a b ↔ SharesInstant a b ∧ ¬ StoredOverlap a b := by
  have hla := ha.seconds_lt
  have hlb := hb.seconds_lt
  rw [sharesInstant_iff ha hb, StoredOverlap, MeetInsideSecond]
  constructor
  · rintro (⟨hsec, hlt⟩ | ⟨hsec, hlt⟩)
    · refine ⟨⟨seconds_lt_of_lt (by omega), hlt⟩, by omega⟩
    · refine ⟨⟨hlt, seconds_lt_of_lt (by omega)⟩, by omega⟩
  · rintro ⟨⟨hab, hba⟩, hno⟩
    have hab' := seconds_le_of_instant (Nat.le_of_lt hab)
    have hba' := seconds_le_of_instant (Nat.le_of_lt hba)
    rcases Nat.lt_or_ge a.startTime.seconds b.endTime.seconds with hlt | hge
    · left
      refine ⟨?_, hba⟩
      have hnot : ¬ b.startTime.seconds < a.endTime.seconds :=
        fun h => hno ⟨hlt, h⟩
      omega
    · right
      exact ⟨by omega, hab⟩

/-! ## The overlap query on stored windows -/

/-- The readings of the clock are later than year 999, so that every stored
    timestamp has four digits for its year. -/
def ModernClock (ls : List Label) : Prop :=
  ∀ c, Label.submit c ∈ ls → 1000 ≤ c.validatedAt.year

/-- A valid body is no earlier than the clock, so its years have four digits if
    those of the clock do. -/
theorem ValidBody.years {cfg : Config} {body : JobCreate} {now : Datetime}
    (h : ValidBody cfg body now) (hnow : 1000 ≤ now.year) :
    1000 ≤ body.startTime.year ∧ 1000 ≤ body.endTime.year := by
  have hstart := year_le_of_seconds
    (seconds_le_of_instant (Nat.le_of_lt h.future))
  have hend := year_le_of_seconds
    (seconds_le_of_instant (Nat.le_of_lt h.ordered))
  omega

/-- A row keeps the strings its call stored. -/
theorem SameJob.window {c : Call} {r : Job} (h : SameJob (newJob c) r) :
    r.startTime = c.body.startTime.strftime
      ∧ r.endTime = c.body.endTime.strftime :=
  ⟨h.startTime, h.endTime⟩

/-- On the rows of two valid calls, the overlap test of the query is the
    intersection of the whole-second windows. -/
theorem overlaps_iff {cfg cfg' : Config} {c c' : Call} {r : Job}
    (hr : SameJob (newJob c') r) (hc : ValidBody cfg c.body c.validatedAt)
    (hc' : ValidBody cfg' c'.body c'.validatedAt)
    (hy : 1000 ≤ c.validatedAt.year) (hy' : 1000 ≤ c'.validatedAt.year) :
    reading.Overlaps r (collate c.body.startTime.strftime)
        (collate c.body.endTime.strftime) ↔ StoredOverlap c'.body c.body := by
  obtain ⟨hs, he⟩ := hc.years hy
  obtain ⟨hs', he'⟩ := hc'.years hy'
  obtain ⟨hstart, hend⟩ := SameJob.window hr
  rw [overlaps_def, hstart, hend, collate_strftime_lt_iff hs' he,
    collate_strftime_lt_iff hs he', StoredOverlap]

/-- The overlap query finds a row exactly when one is active on the asset and
    overlaps. -/
theorem sqlCheckOverlap_isSome {T : Table} {assetId endTime startTime : String} :
    (sqlCheckOverlap T assetId endTime startTime).isSome = true
      ↔ ∃ r ∈ T, r.assetId = assetId ∧ r.active = true
          ∧ reading.Overlaps r (collate startTime) (collate endTime) := by
  rw [Option.isSome_iff_ne_none, Ne, sqlCheckOverlap_none]
  constructor
  · intro h
    by_contra hno
    exact h (fun r hr hasset hact hover => hno ⟨r, hr, hasset, hact, hover⟩)
  · rintro ⟨r, hr, hasset, hact, hover⟩ h
    exact h r hr hasset hact hover

/-! ## Active jobs and their calls -/

/-- In the table `T` of the run `ls`, the call `c'` has an active job on the
    asset. -/
def ActiveOn (cfg : Config) (ls : List Label) (T : Table) (assetId : String)
    (c' : Call) : Prop :=
  ∃ n r, T[n]? = some r ∧ r.active = true ∧ r.assetId = assetId
    ∧ CreatedBy cfg ls n c'

section ActiveJobs

variable {cfg : Config} {ls : List Label} {s : Service} {c c' : Call}

/-- The overlap query answers for the active jobs of the asset by their
    whole-second windows. -/
theorem overlap_iff_active (h : exec (step cfg) Service.empty ls = some s)
    (hclock : ModernClock ls) (hc : ValidBody cfg c.body c.validatedAt)
    (hy : 1000 ≤ c.validatedAt.year) :
    (sqlCheckOverlap s.jobs c.body.assetId c.body.endTime.strftime
        c.body.startTime.strftime).isSome = true
      ↔ ∃ c', ActiveOn cfg ls s.jobs c.body.assetId c'
          ∧ StoredOverlap c'.body c.body := by
  rw [sqlCheckOverlap_isSome]
  constructor
  · rintro ⟨r, hr, hasset, hact, hover⟩
    obtain ⟨n, hn⟩ := List.mem_iff_getElem?.mp hr
    obtain ⟨hlen, -⟩ := List.getElem?_eq_some_iff.mp hn
    obtain ⟨c', hc'⟩ := exists_createdBy h n hlen
    refine ⟨c', ⟨n, r, hn, hact, hasset, hc'⟩, ?_⟩
    exact (overlaps_iff (hc'.sameJob h hn) hc (validBody hc'.valid) hy
      (hclock c' hc'.submitted)).mp hover
  · rintro ⟨c', ⟨n, r, hn, hact, hasset, hc'⟩, hover⟩
    refine ⟨r, List.mem_of_getElem? hn, hasset, hact, ?_⟩
    exact (overlaps_iff (hc'.sameJob h hn) hc (validBody hc'.valid) hy
      (hclock c' hc'.submitted)).mpr hover

/-- The body of an active job was valid when it was booked. -/
theorem ActiveOn.validBody {assetId : String}
    (h : ActiveOn cfg ls s.jobs assetId c') :
    ValidBody cfg c'.body c'.validatedAt := by
  obtain ⟨n, r, -, -, -, hc'⟩ := h
  exact JobWindows.validBody hc'.valid

end ActiveJobs

/-! ## No false conflicts -/

/-- A step of a call, as one of its moves. -/
theorem callStep_move {cfg : Config} {s s' : Service} {i : Nat} {c : Call}
    {pc : CreatePc} (here : s.calls[i]? = some (c, pc))
    (hstep : step cfg s (.call i) = some s') :
    ∃ pc' T' ev, CreateMove cfg c s.jobs pc pc' T' ev
      ∧ s'.calls[i]? = some (c, pc') := by
  cases step_move hstep with
  | call i c' pc' pc'' T' ev here' move =>
      have heq := Option.some.inj (here'.symm.trans here)
      obtain ⟨rfl, rfl⟩ := Prod.mk.inj heq
      obtain ⟨hlen, -⟩ := List.getElem?_eq_some_iff.mp here
      exact ⟨pc'', T', ev, move, List.getElem?_set_self hlen⟩

/-- **A conflict is real**: where the insert transaction of a call answers 409,
    the submitted window of some active job of the asset shares an instant with
    the call's; where every such job ends before the call's window starts, or
    starts after it ends, the answer is not 409. -/
theorem conflict_shares_instant {cfg : Config} {ls : List Label}
    {s s' : Service} (h : exec (step cfg) Service.empty ls = some s)
    (hclock : ModernClock ls) {i : Nat} {c : Call} {job : Job}
    (here : s.calls[i]? = some (c, .insert job))
    (hstep : step cfg s (.call i) = some s') :
    (∀ answer, s'.calls[i]? = some (c, .returned (.ok (.conflict, answer))) →
        ∃ c', ActiveOn cfg ls s.jobs c.body.assetId c'
          ∧ SharesInstant c'.body c.body)
      ∧ ((∀ c', ActiveOn cfg ls s.jobs c.body.assetId c' →
            c'.body.endTime.instant ≤ c.body.startTime.instant
              ∨ c.body.endTime.instant ≤ c'.body.startTime.instant) →
          ∀ answer,
            s'.calls[i]? ≠ some (c, .returned (.ok (.conflict, answer)))) := by
  obtain ⟨hjob, hvalid⟩ := (serviceOk_run h).call here
  have hc := validBody hvalid
  have hy : 1000 ≤ c.validatedAt.year :=
    hclock c (calls_submitted h _ (List.mem_of_getElem? here))
  have hfirst : ∀ answer,
      s'.calls[i]? = some (c, .returned (.ok (.conflict, answer))) →
        ∃ c', ActiveOn cfg ls s.jobs c.body.assetId c'
          ∧ SharesInstant c'.body c.body := by
    intro answer hanswer
    -- of the moves from the transaction, only one answers 409
    have hover : (sqlCheckOverlap s.jobs job.assetId job.endTime
        job.startTime).isSome = true := by
      obtain ⟨pc', T', ev, hmove, hcalls⟩ := callStep_move here hstep
      rw [hcalls, Option.some.injEq, Prod.mk.injEq] at hanswer
      rw [hanswer.2] at hmove
      cases hmove with
      | overlap job quota found => exact found
    rw [hjob] at hover
    obtain ⟨c', hact, hstored⟩ := (overlap_iff_active h hclock hc hy).mp hover
    exact ⟨c', hact, storedOverlap_shares hact.validBody hc hstored⟩
  refine ⟨hfirst, ?_⟩
  intro hbackToBack answer hanswer
  obtain ⟨c', hact, hshares⟩ := hfirst answer hanswer
  rw [sharesInstant_iff hact.validBody hc] at hshares
  rcases hbackToBack c' hact with hle | hle
  · omega
  · omega

/-- The conflict at noon is a real one. -/
theorem conflict_noon :
    ∃ s s', exec (step seedConfig) Service.empty noonWaiting = some s
      ∧ step seedConfig s (.call 1) = some s'
      ∧ s'.calls[1]? = some (noon, .returned (.ok (.conflict,
          .inr ErrorMessages.overlapConflict)))
      ∧ ∃ c', ActiveOn seedConfig noonWaiting s.jobs "asset-001" c'
          ∧ SharesInstant c'.body noon.body := by
  obtain ⟨s, h, hobs⟩ := Option.map_eq_some_iff.mp
    (show (exec (step seedConfig) Service.empty noonWaiting).map
        (fun s => (s.calls[1]?, (step seedConfig s (.call 1)).map
          (fun s' => s'.calls[1]?)))
      = some (some (noon, .insert (newJob noon)),
          some (some (noon, .returned (.ok (.conflict,
            .inr ErrorMessages.overlapConflict))))) by decide)
  obtain ⟨here, hnext⟩ := Prod.mk.inj hobs
  obtain ⟨s', hstep, hanswer⟩ := Option.map_eq_some_iff.mp hnext
  refine ⟨s, s', h, hstep, hanswer, ?_⟩
  refine (conflict_shares_instant h ?_ here hstep).1 _ hanswer
  intro c hc
  rcases noonWaiting_submits hc with rfl | rfl
  · decide
  · decide

/-! ## Missed overlaps -/

/-- A valid call with an unused key leaves the table as it is exactly when a
    check of the insert transaction refuses it. -/
theorem createJob_writes_iff {cfg : Config} {c : Call} {T : Table}
    (hkey : sqlFindByIdempotency T c.userId c.idempotencyKey = none)
    (hvalid : validate cfg c.body c.validatedAt = none) :
    (createJob cfg c T).2.1 = T ↔ ¬ Admits T (newJob c) := by
  have hne : T ++ [newJob c] ≠ T := fun heq =>
    absurd (List.append_right_eq_self.mp heq) (List.cons_ne_nil _ _)
  by_cases hadm : Admits T (newJob c)
  · rw [createJob_admits hkey hvalid hadm]
    exact ⟨fun heq => absurd heq hne, fun hno => absurd hadm hno⟩
  · refine ⟨fun _ => hadm, fun _ => ?_⟩
    rw [createJob_checks hkey hvalid]
    split_ifs with hq ho henc hv
    · rfl
    · rfl
    · rfl
    · rfl
    · exact absurd ⟨Nat.lt_of_not_le hq, Option.not_isSome_iff_eq_none.mp ho,
        (Bool.not_eq_false _).mp henc, (Bool.not_eq_true _).mp hv⟩ hadm

/-- The insert transaction refuses the call, whatever the sub-second parts. -/
def RefusedAnyway (T : Table) (c : Call) : Prop :=
  maxActiveJobsPerUser ≤ sqlCountActive T c.userId
    ∨ (sqlCheckOverlap T c.body.assetId c.body.endTime.strftime
        c.body.startTime.strftime).isSome = true
    ∨ c.body.operation.encodable = false
    ∨ ∃ r ∈ T, r.id = c.uuid

/-- These are the ways not to be admitted. -/
theorem refusedAnyway_iff {T : Table} {c : Call}
    (hkey : sqlFindByIdempotency T c.userId c.idempotencyKey = none) :
    RefusedAnyway T c ↔ ¬ Admits T (newJob c) := by
  rw [sqlFindByIdempotency_none] at hkey
  constructor
  · rintro (hquota | hover | hlone | ⟨r, hr, hid⟩) hadm
    · exact Nat.not_le_of_lt hadm.quota hquota
    · have hnone : sqlCheckOverlap T c.body.assetId c.body.endTime.strftime
          c.body.startTime.strftime = none := hadm.overlap
      rw [hnone] at hover
      cases hover
    · have henc : c.body.operation.encodable = true := hadm.encodable
      rw [henc] at hlone
      cases hlone
    · exact (violates_eq_false.mp hadm.unique r hr).1 hid
  · intro hadm
    by_contra hno
    obtain ⟨hquota, hrest⟩ := not_or.mp hno
    obtain ⟨hover, hrest⟩ := not_or.mp hrest
    obtain ⟨henc, hids⟩ := not_or.mp hrest
    refine hadm ⟨Nat.lt_of_not_le hquota,
      Option.not_isSome_iff_eq_none.mp hover, (Bool.not_eq_false _).mp henc,
      violates_eq_false.mpr ?_⟩
    intro r hr
    exact ⟨fun hid => hids ⟨r, hr, hid⟩, hkey r hr⟩

/-- A call whose submitted window shares an instant with that of an active job
    of its asset does not create a job. -/
def RejectsOverlaps (cfg : Config) (ls : List Label) (T : Table) (c : Call) :
    Prop :=
  (∃ c', ActiveOn cfg ls T c.body.assetId c' ∧ SharesInstant c'.body c.body) →
    (createJob cfg c T).2.1 = T

/-- **Real overlaps are rejected exactly when** no active job of the asset
    meets the request only inside one second, unless the request is refused
    for another reason. -/
theorem createJob_rejects_iff {cfg : Config} {ls : List Label} {s : Service}
    (h : exec (step cfg) Service.empty ls = some s) (hclock : ModernClock ls)
    {c : Call} (hy : 1000 ≤ c.validatedAt.year)
    (hkey : sqlFindByIdempotency s.jobs c.userId c.idempotencyKey = none)
    (hvalid : validate cfg c.body c.validatedAt = none) :
    RejectsOverlaps cfg ls s.jobs c
      ↔ ∀ c', ActiveOn cfg ls s.jobs c.body.assetId c' →
          MeetInsideSecond c'.body c.body → RefusedAnyway s.jobs c := by
  have hc := validBody hvalid
  rw [RejectsOverlaps, createJob_writes_iff hkey hvalid, ← refusedAnyway_iff hkey]
  constructor
  · intro hrejects c' hact hmeet
    exact hrejects
      ⟨c', hact, ((meetInsideSecond_iff hact.validBody hc).mp hmeet).1⟩
  · rintro hmeets ⟨c', hact, hshares⟩
    by_cases hstored : StoredOverlap c'.body c.body
    · exact Or.inr (Or.inl
        ((overlap_iff_active h hclock hc hy).mpr ⟨c', hact, hstored⟩))
    · exact hmeets c' hact
        ((meetInsideSecond_iff hact.validBody hc).mpr ⟨hshares, hstored⟩)

theorem morning_active {s : Service}
    (h : exec (step seedConfig) Service.empty morningBooked = some s)
    (hjobs : s.jobs = [newJob morning]) :
    ActiveOn seedConfig morningBooked s.jobs "asset-001" morning := by
  rw [hjobs]
  obtain ⟨c, hc⟩ := exists_createdBy h 0 (by rw [hjobs]; decide)
  rw [morningBooked_submits hc.submitted] at hc
  exact ⟨0, newJob morning, rfl, by decide, rfl, hc⟩

/-- The morning and the afternoon share eight tenths of a second. -/
theorem morning_afternoon_share :
    SharesInstant morning.body afternoon.body := by
  refine ⟨afternoon.body.startTime.instant, ⟨?_, ?_⟩, ⟨?_, ?_⟩⟩
  · decide
  · decide
  · decide
  · decide

/-- The afternoon booking is created although the morning one still has the
    asset. -/
theorem afternoon_created :
    ∃ s, exec (step seedConfig) Service.empty morningBooked = some s
      ∧ sqlFindByIdempotency s.jobs "bob" "key-2" = none
      ∧ validate seedConfig afternoon.body afternoon.validatedAt = none
      ∧ ¬ RejectsOverlaps seedConfig morningBooked s.jobs afternoon := by
  obtain ⟨s, h, hjobs⟩ := morningBooked_run
  refine ⟨s, h, by rw [hjobs]; decide, by decide, ?_⟩
  intro hrejects
  have hsame := hrejects ⟨morning, morning_active h hjobs, morning_afternoon_share⟩
  rw [hjobs] at hsame
  have hcreated : (createJob seedConfig afternoon [newJob morning]).2.1
      = [newJob morning, newJob afternoon] := by decide
  rw [hcreated] at hsame
  cases hsame

/-- The condition decides the request for the afternoon. -/
theorem createJob_rejects_afternoon :
    ∃ s, exec (step seedConfig) Service.empty morningBooked = some s
      ∧ (RejectsOverlaps seedConfig morningBooked s.jobs afternoon
        ↔ ∀ c', ActiveOn seedConfig morningBooked s.jobs "asset-001" c' →
            MeetInsideSecond c'.body afternoon.body →
            RefusedAnyway s.jobs afternoon) := by
  obtain ⟨s, h, hjobs⟩ := morningBooked_run
  refine ⟨s, h, createJob_rejects_iff h ?_ (by decide) ?_ (by decide)⟩
  · intro c hc
    rw [morningBooked_submits hc]
    decide
  · rw [hjobs]
    decide

end JobWindows
