import JobScheduling.JobReads
import JobScheduling.JobTimestamps

/-! # Stored texts tell the time

    SQLite knows the timestamps of a row as texts only.  Three queries compare
    them: the overlap query, twice, and `ORDER BY created_at DESC`.  From year
    1000 on each comparison is the one of the whole seconds the texts were made
    from, so the overlap query intersects windows of seconds and a listing is
    newest first. -/

namespace JobChronology

open JobConstants JobClock JobCalendar JobRepository JobTimestamps JobReads
open Reservations

theorem cut_range (d : Datetime) : d.hour < 24 ∧ d.minute < 60 ∧ d.second < 60
    ∧ 0 < microsecondsPerSecond :=
  ⟨d.time_range.1, d.time_range.2.1, d.time_range.2.2.1, by decide⟩

/-- The datetime cut to its whole second: `d.replace(microsecond=0)`. -/
def cut (d : Datetime) : Datetime :=
  { d with microsecond := 0, time_range := cut_range d }

theorem cut_seconds (d : Datetime) : (cut d).seconds = d.seconds := rfl

theorem cut_instant (d : Datetime) : (cut d).instant = d.seconds * 1000000 := by
  rw [instant_eq, cut_seconds, cut, Nat.add_zero]

/-- The text is `strftime(TIMESTAMP_FORMAT)` of a datetime in that second. -/
def Stores (text : String) (second : Nat) : Prop :=
  ∃ d : Datetime, 1000 ≤ d.year ∧ text = d.strftime ∧ second = d.seconds

/-- Whatever the byte order says of two texts, the time order says of their
    seconds. -/
theorem Stores.lt_iff {s t : String} {m n : Nat} (hs : Stores s m)
    (ht : Stores t n) : collate s < collate t ↔ m < n := by
  obtain ⟨a, ha, rfl, rfl⟩ := hs
  obtain ⟨b, hb, rfl, rfl⟩ := ht
  exact collate_strftime_lt_iff ha hb

/-- Stored texts are in order exactly when the instants are. -/
theorem Stores.le_iff {s t : String} {m n : Nat} (hs : Stores s m)
    (ht : Stores t n) : collate s ≤ collate t ↔ m ≤ n := by
  rw [← not_lt, ← not_lt, ht.lt_iff hs]

theorem Stores.eq_iff {s t : String} {m n : Nat} (hs : Stores s m)
    (ht : Stores t n) : collate s = collate t ↔ m = n := by
  rw [le_antisymm_iff, le_antisymm_iff, hs.le_iff ht, ht.le_iff hs]

/-- The condition of the overlap query, read as a condition on seconds. -/
theorem overlapRow_iff {r : Job} {assetId startTime endTime : String}
    {s e s' e' : Nat} (hs : Stores r.startTime s) (he : Stores r.endTime e)
    (hs' : Stores startTime s') (he' : Stores endTime e') :
    overlapRow assetId endTime startTime r = true
      ↔ (r.assetId = assetId ∧ r.active = true) ∧ s < e' ∧ s' < e := by
  rw [overlapRow, Bool.and_eq_true, Bool.and_eq_true, Bool.and_eq_true,
    beq_iff_eq, decide_eq_true_eq, decide_eq_true_eq, hs.lt_iff he',
    hs'.lt_iff he, and_assoc]

/-- A listing of rows with stored creation times is newest first. -/
theorem listed_newest_first {T rows : Table} {userId : String}
    (h : ListsJobs T userId rows) : rows.Pairwise (fun newer older =>
      ∀ m n, Stores newer.createdAt m → Stores older.createdAt n → n ≤ m) := by
  refine h.2.imp ?_
  intro newer older hle m n hm hn
  exact (hn.le_iff hm).mp hle

/-- **Stored texts tell the time**: byte order is time order to the second;
    so the overlap query intersects windows of seconds, and `ORDER BY
    created_at DESC` lists the newest second first. -/
theorem stored_texts_tell_time :
    (∀ a b : Datetime, 1000 ≤ a.year → 1000 ≤ b.year →
        (collate a.strftime < collate b.strftime
            ↔ (cut a).instant < (cut b).instant)
          ∧ (collate a.strftime = collate b.strftime
            ↔ (cut a).instant = (cut b).instant)
          ∧ (collate b.strftime < collate a.strftime
            ↔ (cut b).instant < (cut a).instant))
      ∧ (∀ (r : Job) (assetId startTime endTime : String) (s e s' e' : Nat),
          Stores r.startTime s → Stores r.endTime e →
          Stores startTime s' → Stores endTime e' →
          (overlapRow assetId endTime startTime r = true
              ↔ (r.assetId = assetId ∧ r.active = true) ∧ s < e' ∧ s' < e)
            ∧ (s < e → s' < e' →
                (overlapRow assetId endTime startTime r = true
                  ↔ (r.assetId = assetId ∧ r.active = true)
                    ∧ (Set.Ico s e ∩ Set.Ico s' e').Nonempty)))
      ∧ (∀ (T rows : Table) (userId : String), ListsJobs T userId rows →
          rows.Pairwise (fun newer older => ∀ m n,
            Stores newer.createdAt m → Stores older.createdAt n → n ≤ m)) := by
  refine ⟨?_, ?_, fun T rows userId h => listed_newest_first h⟩
  · intro a b ha hb
    have hsa : Stores a.strftime a.seconds := ⟨a, ha, rfl, rfl⟩
    have hsb : Stores b.strftime b.seconds := ⟨b, hb, rfl, rfl⟩
    rw [cut_instant, cut_instant, hsa.lt_iff hsb, hsa.eq_iff hsb, hsb.lt_iff hsa]
    refine ⟨?_, ?_, ?_⟩ <;> omega
  · intro r assetId startTime endTime s e s' e' hs he hs' he'
    have hrow : overlapRow assetId endTime startTime r = true
        ↔ (r.assetId = assetId ∧ r.active = true) ∧ s < e' ∧ s' < e :=
      overlapRow_iff hs he hs' he'
    refine ⟨hrow, ?_⟩
    intro hlt hlt'
    rw [hrow, ico_inter_nonempty_iff hlt hlt']

/-- Across a change of the number of digits in the day. -/
theorem stored_texts_tell_time_ninth :
    collate (february 9 23).strftime < collate (february 10 0).strftime := by
  refine ((stored_texts_tell_time.1 (february 9 23) (february 10 0) ?_ ?_).1).mpr ?_
  · decide
  · decide
  · decide

end JobChronology
