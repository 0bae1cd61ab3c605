import JobScheduling.JobTimestamps
import JobScheduling.JobWorker

/-! # The timestamps of one dispatch

    `_iso_now` writes the whole second of one clock reading and the
    milliseconds of the next.  When a second ends between the two, the text
    can fall back by almost a second.  Where the milliseconds do not fall
    (`Steady`) it lies between the two readings, and then the RUNNING and the
    terminal result of a dispatch are in order. -/

namespace JobStamps

open JobConstants JobClock JobCalendar JobTimestamps JobPayload JobBroker
open JobWorker

/-! ## Clock readings -/

/-- One `_iso_now()` call: the clock does not run backwards between its two
    readings. -/
structure IsoNow where
  first : Datetime
  second : Datetime
  ordered : first.instant ≤ second.instant

def IsoNow.text (call : IsoNow) : String := isoNow call.first call.second

/-- The clock readings of one `_process_dispatch` thread that sleeps
    `processing` microseconds between its two results. -/
structure Shift (processing : Nat) where
  running : IsoNow
  terminal : IsoNow
  slept : running.second.instant + processing ≤ terminal.first.instant

/-! ## `_process_dispatch` -/

/-- `_process_dispatch`, from its clock readings and the outcomes of its two
    publishes: the `_iso_now` calls it makes, each with what it published. -/
def processDispatch (payload : List (String × Json)) {processing : Nat}
    (w : Shift processing) (publish publish' : PublishResult) :
    List (IsoNow × List Json) :=
  let jobId := dictGet payload "job_id"
  let assetId := dictGet payload "asset_id"
  if malformed payload then []
  else
    match publishResult publish
        (resultPayload jobId "RUNNING" none w.running.text) with
    | .ok sent =>
        match publishResult publish'
            (terminalPayload jobId assetId w.terminal.text) with
        | .ok sent' => [(w.running, sent), (w.terminal, sent')]
        | .error _ => [(w.running, sent), (w.terminal, [])]
    | .error _ => [(w.running, [])]

/-- The results of a dispatch, in the order of their publishes. -/
def results (calls : List (IsoNow × List Json)) : List Json :=
  calls.flatMap Prod.snd

/-- These are the results of the thread's two steps. -/
theorem processDispatch_threadStep (payload : List (String × Json))
    {processing : Nat} (w : Shift processing) (publish publish' : PublishResult) :
    ∃ pc sent, threadStep w.running.text publish (.started payload)
        = some (pc, sent)
      ∧ results (processDispatch payload w publish publish')
        = sent ++ ((threadStep w.terminal.text publish' pc).map Prod.snd).getD [] := by
  cases hm : malformed payload with
  | true =>
      refine ⟨.ended, [], ?_, ?_⟩
      · rw [malformed] at hm
        simp only [threadStep, hm, if_true]
      · simp only [processDispatch, hm, if_true]
        rfl
  | false =>
      have hm' := hm
      rw [malformed] at hm'
      cases hr : publishResult publish (resultPayload (dictGet payload "job_id")
          "RUNNING" none w.running.text) with
      | error e =>
          refine ⟨.ended, [], ?_, ?_⟩
          · simp only [threadStep, hm', hr, Bool.false_eq_true, if_false]
          · simp only [processDispatch, hm, hr, Bool.false_eq_true, if_false]
            rfl
      | ok sent =>
          refine ⟨.sleeping (dictGet payload "job_id")
            (dictGet payload "asset_id"), sent, ?_, ?_⟩
          · simp only [threadStep, hm', hr, Bool.false_eq_true, if_false]
          · -- the terminal payload is the one the sleeping thread publishes
            cases hr' : publishResult publish' (terminalPayload
                (dictGet payload "job_id") (dictGet payload "asset_id")
                w.terminal.text) with
            | error e =>
                simp only [processDispatch, hm, hr, hr', Bool.false_eq_true,
                  if_false]
                rw [terminalPayload] at hr'
                simp only [threadStep, hr']
                rfl
            | ok sent' =>
                simp only [processDispatch, hm, hr, hr', Bool.false_eq_true,
                  if_false]
                rw [terminalPayload] at hr'
                simp only [threadStep, hr']
                exact congrArg (sent ++ ·) (List.append_nil sent')

/-! ## The instant a text denotes -/

/-- The millisecond an `_iso_now` text denotes. -/
def decodeMilliseconds (s : String) : Option Nat :=
  match (s.toList.splitOnP (fun c => !c.isDigit)).map
      (fun field => Nat.ofDigitChars 10 field 0) with
  | [year, month, day, hour, minute, second, milli, _] =>
      some (((((daysBeforeYear year + daysBeforeMonth year month + day) * 24
        + hour) * 60 + minute) * 60 + second) * 1000 + milli)
  | _ => none

/-- Three digits are read back. -/
theorem ofDigitChars_pad3 {n : Nat} (h : n < 1000) :
    Nat.ofDigitChars 10 (pad3 n) 0 = n := by
  have hhundreds : n / 100 < 10 := by omega
  have htens : n / 10 % 10 < 10 := by omega
  have hones : n % 10 < 10 := by omega
  rw [pad3, Nat.ofDigitChars_cons_digitChar_of_lt_ten hhundreds,
    Nat.ofDigitChars_cons_digitChar_of_lt_ten htens,
    Nat.ofDigitChars_cons_digitChar_of_lt_ten hones, Nat.ofDigitChars_nil]
  omega

theorem isDigit_pad3 {n : Nat} (h : n < 1000) :
    ∀ c ∈ pad3 n, c.isDigit = true := by
  intro c hc
  rw [pad3, List.mem_cons, List.mem_cons, List.mem_singleton] at hc
  rcases hc with rfl | rfl | rfl
  · exact isDigit_digitChar _ (by omega)
  · exact isDigit_digitChar _ (by omega)
  · exact isDigit_digitChar _ (by omega)

/-- The seconds of the first reading with the milliseconds of the second. -/
def IsoNow.milliseconds (call : IsoNow) : Nat :=
  call.first.seconds * 1000 + call.second.microsecond / 1000

/-- **What an `_iso_now` text denotes.** -/
theorem decode_text (call : IsoNow) :
    decodeMilliseconds call.text = some call.milliseconds := by
  obtain ⟨hmonth, hday, hhour, hminute, hsecond⟩ := field_ranges call.first
  have hmilli : call.second.microsecond / 1000 < 1000 := by
    have hmicro := microsecond_lt call.second
    omega
  rw [decodeMilliseconds, IsoNow.text, isoNow, String.toList_ofList,
    List.append_assoc, split_wholeSeconds,
    split_field (isDigit_pad3 hmilli) rfl]
  simp only [List.splitOnP_nil, List.map_cons, List.map_nil,
    Nat.ofDigitChars_ten_toDigits, ofDigitChars_pad2 hmonth,
    ofDigitChars_pad2 hday, ofDigitChars_pad2 hhour, ofDigitChars_pad2 hminute,
    ofDigitChars_pad2 hsecond, ofDigitChars_pad3 hmilli]
  rfl

/-! ## Never backwards -/

/-- The text denotes an instant between the two readings of its call, the
    first cut to milliseconds. -/
def Between (call : IsoNow) : Prop :=
  ∃ t, decodeMilliseconds call.text = some t
    ∧ call.first.instant / 1000 ≤ t ∧ t * 1000 ≤ call.second.instant

/-- The millisecond the `timestamp` of a published result denotes. -/
def stamp : Json → Option Nat
  | .obj fields =>
      match dictGet fields "timestamp" with
      | .str s => decodeMilliseconds s
      | _ => none
  | _ => none

/-- Each call returns a text between its readings, and the published results
    carry timestamps in non-decreasing order. -/
structure NeverBackwards (calls : List (IsoNow × List Json)) : Prop where
  between : ∀ call ∈ calls, Between call.1
  inOrder : (results calls).Pairwise (fun earlier later =>
    ∃ t t', stamp earlier = some t ∧ stamp later = some t' ∧ t ≤ t')

/-- The milliseconds of the second reading are not below those of the first,
    as whenever both readings lie in one second. -/
def Steady (call : IsoNow) : Prop :=
  call.first.microsecond / 1000 ≤ call.second.microsecond / 1000

/-- A text never runs ahead of its last reading. -/
theorem milliseconds_le (call : IsoNow) :
    call.milliseconds * 1000 ≤ call.second.instant := by
  have hseconds := seconds_le_of_instant call.ordered
  have hsecond := instant_eq call.second
  rw [IsoNow.milliseconds]
  omega

/-- It falls behind its first reading exactly when the milliseconds do. -/
theorem le_milliseconds_iff (call : IsoNow) :
    call.first.instant / 1000 ≤ call.milliseconds ↔ Steady call := by
  have hfirst := instant_eq call.first
  have hmicro := microsecond_lt call.first
  rw [IsoNow.milliseconds, Steady]
  omega

theorem between_iff (call : IsoNow) : Between call ↔ Steady call := by
  rw [← le_milliseconds_iff]
  constructor
  · rintro ⟨t, ht, hge, -⟩
    rw [decode_text, Option.some.injEq] at ht
    rwa [ht]
  · intro h
    exact ⟨call.milliseconds, decode_text call, h, milliseconds_le call⟩

/-- When the terminal text does not fall back, it is not before the RUNNING
    one, which never runs ahead. -/
theorem running_le_terminal {processing : Nat} (w : Shift processing)
    (h : Steady w.terminal) :
    w.running.milliseconds ≤ w.terminal.milliseconds := by
  have hrunning := milliseconds_le w.running
  have hterminal := (le_milliseconds_iff w.terminal).mpr h
  have hslept := w.slept
  omega

/-- A result carries the milliseconds of its `_iso_now`. -/
theorem stamp_resultPayload (jobId : Json) (state : String)
    (error : Option String) (call : IsoNow) :
    stamp (resultPayload jobId state error call.text)
      = some call.milliseconds := by
  rw [← decode_text]
  rfl

theorem stamp_terminalPayload (jobId assetId : Json) (call : IsoNow) :
    stamp (terminalPayload jobId assetId call.text)
      = some call.milliseconds := by
  rw [terminalPayload]
  split
  · exact stamp_resultPayload _ _ _ _
  · exact stamp_resultPayload _ _ _ _

/-- Two results are in order if their stamps are. -/
theorem pair_inOrder {earlier later : Json} {t t' : Nat}
    (h : stamp earlier = some t) (h' : stamp later = some t') (hle : t ≤ t') :
    [earlier, later].Pairwise (fun earlier later =>
      ∃ t t', stamp earlier = some t ∧ stamp later = some t' ∧ t ≤ t') := by
  rw [List.pairwise_pair]
  exact ⟨t, t', h, h', hle⟩

/-- The calls a dispatch makes, and that its results are among the two. -/
theorem processDispatch_cases (payload : List (String × Json))
    {processing : Nat} (w : Shift processing) (publish publish' : PublishResult)
    (h : malformed payload = false) :
    (∃ e, publish = .raised e
        ∧ processDispatch payload w publish publish' = [(w.running, [])])
      ∨ (∀ e, publish ≠ .raised e) ∧ ∃ sent sent',
        processDispatch payload w publish publish'
            = [(w.running, sent), (w.terminal, sent')]
          ∧ (sent ++ sent').Sublist
            [resultPayload (dictGet payload "job_id") "RUNNING" none
                w.running.text,
              terminalPayload (dictGet payload "job_id")
                (dictGet payload "asset_id") w.terminal.text] := by
  rw [processDispatch, h]
  rcases publishResult_cases publish (resultPayload (dictGet payload "job_id")
    "RUNNING" none w.running.text) with ⟨e, he, hout⟩ | ⟨hne, sent, hsent, hout⟩
  · left
    refine ⟨e, he, ?_⟩
    simp only [hout]
    rfl
  · right
    refine ⟨hne, sent, ?_⟩
    rcases publishResult_cases publish' (terminalPayload
      (dictGet payload "job_id") (dictGet payload "asset_id") w.terminal.text)
      with ⟨e, he, hout'⟩ | ⟨hne', sent', hsent', hout'⟩
    · refine ⟨[], ?_, ?_⟩
      · simp only [hout, hout']
        rfl
      · exact hsent.append (List.nil_sublist _)
    · refine ⟨sent', ?_, hsent.append hsent'⟩
      simp only [hout, hout']
      rfl

/-- After a RUNNING publish that raises there is one call and no result. -/
theorem neverBackwards_single (call : IsoNow) :
    NeverBackwards [(call, [])] ↔ Steady call := by
  rw [← between_iff]
  constructor
  · intro h
    exact h.between (call, []) (List.mem_singleton.mpr rfl)
  · intro h
    refine ⟨?_, List.Pairwise.nil⟩
    intro c hc
    rw [List.mem_singleton] at hc
    rw [hc]
    exact h

/-- Otherwise there are two, and the order of what they published follows
    from where their texts lie. -/
theorem neverBackwards_pair {processing : Nat} (w : Shift processing)
    {sent sent' : List Json} {jobId assetId : Json}
    (hsub : (sent ++ sent').Sublist
      [resultPayload jobId "RUNNING" none w.running.text,
        terminalPayload jobId assetId w.terminal.text]) :
    NeverBackwards [(w.running, sent), (w.terminal, sent')]
      ↔ Steady w.running ∧ Steady w.terminal := by
  have hresults : results [(w.running, sent), (w.terminal, sent')]
      = sent ++ sent' := by
    rw [results, List.flatMap_cons, List.flatMap_singleton]
  constructor
  · intro h
    have hrunning := h.between (w.running, sent) (List.mem_cons_self ..)
    have hterminal := h.between (w.terminal, sent')
      (List.mem_cons_of_mem _ (List.mem_cons_self ..))
    exact ⟨(between_iff _).mp hrunning, (between_iff _).mp hterminal⟩
  · rintro ⟨hrunning, hterminal⟩
    refine ⟨?_, ?_⟩
    · intro call hcall
      rw [List.mem_cons, List.mem_singleton] at hcall
      rcases hcall with rfl | rfl
      · exact (between_iff _).mpr hrunning
      · exact (between_iff _).mpr hterminal
    · rw [hresults]
      exact List.Pairwise.sublist hsub (pair_inOrder
        (stamp_resultPayload _ _ _ _) (stamp_terminalPayload _ _ _)
        (running_le_terminal w hterminal))

/-- **Timestamps never run backwards exactly when no call falls back**: every
    `_iso_now` text lies between its readings, and the two results are in
    order, if and only if in each call the milliseconds do not fall. -/
theorem never_backwards_iff (payload : List (String × Json)) {processing : Nat}
    (w : Shift processing) (publish publish' : PublishResult) :
    NeverBackwards (processDispatch payload w publish publish')
      ↔ (malformed payload = false → Steady w.running
        ∧ ((∀ e, publish ≠ .raised e) → Steady w.terminal)) := by
  cases hformed : malformed payload with
  | true =>
      have hcalls : processDispatch payload w publish publish' = [] := by
        rw [processDispatch, hformed]
        rfl
      rw [hcalls]
      constructor
      · intro _ h
        cases h
      · intro _
        exact ⟨fun call hcall => absurd hcall List.not_mem_nil,
          List.Pairwise.nil⟩
  | false =>
      rcases processDispatch_cases payload w publish publish' hformed with
        ⟨e, he, hcalls⟩ | ⟨hne, sent, sent', hcalls, hsub⟩
      · rw [hcalls, neverBackwards_single]
        constructor
        · intro h _
          exact ⟨h, fun hne => absurd he (hne e)⟩
        · intro h
          exact (h rfl).1
      · rw [hcalls, neverBackwards_pair w hsub]
        constructor
        · intro h _
          exact ⟨h.1, fun _ => h.2⟩
        · intro h
          exact ⟨(h rfl).1, (h rfl).2 hne⟩

/-! ## A second ends between two readings -/

theorem moment_range (second microsecond : Nat) : 10 < 24 ∧ 0 < 60
    ∧ min second 59 < 60 ∧ min microsecond 999999 < microsecondsPerSecond := by
  rw [microsecondsPerSecond]
  omega

/-- A moment of the minute 10:00. -/
def moment (second microsecond : Nat) : Datetime :=
  { february 7 10 with
    second := min second 59
    microsecond := min microsecond 999999
    time_range := moment_range second microsecond }

/-- 0.4 seconds of processing; the second 10:00:00 ends inside the last
    `_iso_now` call. -/
def lateShift : Shift 400000 where
  running := ⟨moment 0 500000, moment 0 500001, by decide⟩
  terminal := ⟨moment 0 999999, moment 1 1, by decide⟩
  slept := by decide

/-- The terminal result is stamped half a second before the RUNNING one, and
    almost a second before its own readings. -/
theorem terminal_stamped_before_running :
    ¬ NeverBackwards (processDispatch
        [("job_id", .str "job-1"), ("asset_id", .str "asset-001")]
        lateShift .handed .handed)
      ∧ results (processDispatch
          [("job_id", .str "job-1"), ("asset_id", .str "asset-001")]
          lateShift .handed .handed)
        = [resultPayload (.str "job-1") "RUNNING" none "2030-02-07T10:00:00.500Z",
          resultPayload (.str "job-1") "COMPLETED" none
            "2030-02-07T10:00:00.000Z"] := by
  refine ⟨?_, ?_⟩
  · intro h
    have hterminal := h.between (lateShift.terminal, _)
      (List.mem_cons_of_mem _ (List.mem_cons_self))
    exact absurd ((between_iff _).mp hterminal) (by rw [Steady]; decide)
  · have hrunning : lateShift.running.text = "2030-02-07T10:00:00.500Z" := by
      decide
    have hterminal : lateShift.terminal.text = "2030-02-07T10:00:00.000Z" := by
      decide
    rw [← hrunning, ← hterminal]
    rfl

end JobStamps
