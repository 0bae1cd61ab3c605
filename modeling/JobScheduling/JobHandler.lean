import JobScheduling.JobLedger

/-! # What the result handler survives

    The payload of a `jobs/result` message is any byte string of an anonymous
    publisher.  `_on_message` catches the two decoding errors it names, and
    then treats whatever `json.loads` returned as a dict with bindable
    fields.  `handler_survives_iff` says for which payloads that is enough.

    `json.loads(payload.decode("utf-8"))` is a parameter `loads` here: it may
    return any JSON value or raise anything. -/

namespace JobHandler

open JobConstants JobClock JobPayload JobModels JobRepository JobBroker
open JobService JobLedger KeyedTable

/-- The payload names an existing job and a valid next state of it. -/
def NamesTransition (T : Table) (payload : List (String × Json)) : Prop :=
  ∃ id current, (dictGet payload fieldJobId).bindText = .ok (some id)
    ∧ sqlFindByIdUnscoped T (some id) = some current
    ∧ isValidTransition (.str current.state) (dictGet payload fieldState) = true

/-- The message is a JSON object naming an existing job and a valid next
    state. -/
def ValidResult (T : Table) : Delivered → Prop
  | .ok (.obj payload) => NamesTransition T payload
  | .ok _ => False
  | .error _ => False

/-- The handler returns, and a message that is no valid result has no effect. -/
def Survives (T : Table) (msg : Delivered) (now : Datetime) : Prop :=
  (onMessage T msg now).1 = .ok ()
    ∧ (¬ ValidResult T msg → (onMessage T msg now).2 = (T, []))

/-- Decoding fails the way the handler expects, or the payload is an object
    that misses a field, or whose job id binds — and whose error message does
    too, where it names a valid transition. -/
def Digestible (T : Table) : Delivered → Prop
  | .error e => e = .JSONDecodeError ∨ e = .UnicodeDecodeError
  | .ok (.obj payload) =>
      (dictGet payload fieldJobId).truthy = true →
      (dictGet payload fieldState).truthy = true →
        (dictGet payload fieldJobId).bindable = true
          ∧ (NamesTransition T payload →
              (dictGet payload fieldErrorMessage).bindable = true)
  | .ok _ => False

/-! ## What is read -/

section Reading

variable {T : Table} {payload : List (String × Json)}

/-- An object without an id or a state is ignored. -/
theorem readMessage_missing
    (h : ¬ ((dictGet payload fieldJobId).truthy = true
      ∧ (dictGet payload fieldState).truthy = true)) :
    readMessage T (.ok (.obj payload)) = .ignored .missingField := by
  have hcond : (!(dictGet payload fieldJobId).truthy
      || !(dictGet payload fieldState).truthy) = true := by
    rw [Bool.or_eq_true, Bool.not_eq_true', Bool.not_eq_true']
    by_cases hid : (dictGet payload fieldJobId).truthy = true
    · refine Or.inr ?_
      rw [← Bool.not_eq_true]
      intro hst
      exact h ⟨hid, hst⟩
    · exact Or.inl (Bool.not_eq_true _ ▸ hid)
  rw [readMessage, if_pos hcond]

/-- With both fields there, the lookup and the guard decide. -/
theorem readMessage_present (hid : (dictGet payload fieldJobId).truthy = true)
    (hst : (dictGet payload fieldState).truthy = true) :
    readMessage T (.ok (.obj payload))
      = match (dictGet payload fieldJobId).bindText with
        | .error e => .raised e
        | .ok id =>
            match sqlFindByIdUnscoped T id with
            | none => .ignored .unknownJob
            | some current =>
                if isValidTransition (.str current.state)
                    (dictGet payload fieldState) then
                  .proceed (dictGet payload fieldJobId)
                    (dictGet payload fieldState)
                    (dictGet payload fieldErrorMessage)
                else .ignored .invalidTransition := by
  have hcond : ¬ (!(dictGet payload fieldJobId).truthy
      || !(dictGet payload fieldState).truthy) = true := by
    rw [hid, hst]
    decide
  rw [readMessage, if_neg hcond, findByIdUnscoped_onTable]
  cases (dictGet payload fieldJobId).bindText with
  | error e => rfl
  | ok id =>
      cases hf : sqlFindByIdUnscoped T id with
      | none => simp [hf]
      | some current =>
          cases hvalid : isValidTransition (.str current.state)
              (dictGet payload fieldState) with
          | true => simp [hf, hvalid]
          | false => simp [hf, hvalid]

/-- Rows added meanwhile do not change what a message that passes the guard
    is taken for. -/
theorem readMessage_append {msg : Delivered} {jobId newState errorMsg : Json}
    (h : readMessage T msg = .proceed jobId newState errorMsg) (new : Table) :
    readMessage (T ++ new) msg = .proceed jobId newState errorMsg := by
  obtain ⟨payload, id, current, a, b, rfl, hjob, hnew, hstate, herr, hid, hfound,
    hcur, hab⟩ := readMessage_proceed h
  by_cases hpresent : (dictGet payload fieldJobId).truthy = true
      ∧ (dictGet payload fieldState).truthy = true
  · have hfound' : sqlFindByIdUnscoped (T ++ new) (some id) = some current :=
      find?_append_of_some hfound
    have hvalid : isValidTransition (.str current.state)
        (dictGet payload fieldState) = true :=
      isValidTransition_iff.mpr ⟨a, b, by rw [hcur], hstate.symm.trans hnew, hab⟩
    have hread := readMessage_present (T := T ++ new) hpresent.1 hpresent.2
    rw [← hjob, hid] at hread
    simp only [hfound', hvalid] at hread
    rw [hread, if_pos trivial, hstate, herr]
  · rw [readMessage_missing hpresent] at h
    cases h

end Reading

/-! ## What is done -/

section Effects

variable {T : Table} {msg : Delivered} (now : Datetime)

/-- What is ignored changes nothing, and nobody is called back. -/
theorem onMessage_ignored {why : Ignored}
    (h : readMessage T msg = .ignored why) :
    onMessage T msg now = (.ok (), T, []) := by
  rw [onMessage, h]

/-- What raises before the guard changes nothing either. -/
theorem onMessage_raised {e : PyExc} (h : readMessage T msg = .raised e) :
    onMessage T msg now = (.error e, T, []) := by
  rw [onMessage, h]

/-- A message that passes the guard with a bindable error message is stored. -/
theorem onMessage_stored {jobId newState errorMsg : Json} {id st : String}
    {err : Option String}
    (h : readMessage T msg = .proceed jobId newState errorMsg)
    (hid : jobId.bindText = .ok (some id))
    (hst : newState.bindText = .ok (some st))
    (herr : errorMsg.bindText = .ok err) :
    (onMessage T msg now).1 = .ok ()
      ∧ (onMessage T msg now).2.1 = setState T id st err now.strftime := by
  simp only [onMessage, h, updateState_onTable now hid hst herr]
  cases sqlFindByIdUnscoped (setState T id st err now.strftime) (some id) with
  | none => exact ⟨rfl, rfl⟩
  | some updated => exact ⟨rfl, rfl⟩

/-- With an error message that does not bind, it raises and stores nothing. -/
theorem onMessage_unbound {jobId newState errorMsg : Json} {e : PyExc}
    (h : readMessage T msg = .proceed jobId newState errorMsg)
    (herr : errorMsg.bindText = .error e) :
    onMessage T msg now = (.error e, T, []) := by
  obtain ⟨-, -, -, -, b, -, -, hnew, -⟩ := readMessage_proceed h
  have hst : newState.bindText = .ok (some b.value) := by rw [hnew]; rfl
  have hrun : (updateState noFaults jobId newState errorMsg now).onTable T
      = (.error e, T) := by
    rw [Sql.onTable, updateState,
      run_bind_error (run_storeState_error now hst herr)]
  simp only [onMessage, h, hrun]

/-- A message that passes the guard is handled exactly if its error message
    binds. -/
theorem onMessage_proceed {jobId newState errorMsg : Json}
    (h : readMessage T msg = .proceed jobId newState errorMsg) :
    (onMessage T msg now).1 = .ok () ↔ errorMsg.bindable = true := by
  obtain ⟨-, id, -, -, b, -, -, hnew, -, -, hid, -⟩ := readMessage_proceed h
  have hst : newState.bindText = .ok (some b.value) := by rw [hnew]; rfl
  rw [bindable_iff]
  cases herr : errorMsg.bindText with
  | error e =>
      rw [onMessage_unbound now h herr]
      constructor
      · intro hok
        cases hok
      · rintro ⟨t, ht⟩
        cases ht
  | ok err =>
      constructor
      · intro _
        exact ⟨err, rfl⟩
      · intro _
        exact (onMessage_stored now h hid hst herr).1

/-- A message that passes the guard is a valid result. -/
theorem validResult_of_proceed {jobId newState errorMsg : Json}
    (h : readMessage T msg = .proceed jobId newState errorMsg) :
    ValidResult T msg := by
  obtain ⟨payload, id, current, a, b, hmsg, hjob, hnew, hstate, -, hid, hfound,
    hcur, hab⟩ := readMessage_proceed h
  rw [hmsg]
  refine ⟨id, current, ?_, hfound, ?_⟩
  · rw [← hjob, hid]
  · rw [← hstate, isValidTransition_iff]
    exact ⟨a, b, by rw [hcur], hnew, hab⟩

/-- Anything that is no valid result leaves the table and the callbacks
    alone, whether the handler survives it or not. -/
theorem onMessage_untouched (h : ¬ ValidResult T msg) :
    (onMessage T msg now).2 = (T, []) := by
  cases hv : readMessage T msg with
  | ignored why => rw [onMessage_ignored now hv]
  | raised e => rw [onMessage_raised now hv]
  | proceed jobId newState errorMsg => exact absurd (validResult_of_proceed hv) h

end Effects

/-! ## The handler and the payload -/

/-- The handler returns from an object exactly when it is digestible. -/
theorem returns_iff_object (T : Table) (payload : List (String × Json))
    (now : Datetime) :
    (onMessage T (.ok (.obj payload)) now).1 = .ok ()
      ↔ Digestible T (.ok (.obj payload)) := by
  by_cases hpresent : (dictGet payload fieldJobId).truthy = true
      ∧ (dictGet payload fieldState).truthy = true
  · obtain ⟨hid, hst⟩ := hpresent
    have hread := readMessage_present (T := T) hid hst
    cases hb : (dictGet payload fieldJobId).bindText with
    | error e =>
        rw [hb] at hread
        rw [onMessage_raised now hread]
        constructor
        · intro hok
          cases hok
        · intro hdig
          obtain ⟨t, ht⟩ := bindable_iff.mp (hdig hid hst).1
          rw [hb] at ht
          cases ht
    | ok id =>
        have hbind : (dictGet payload fieldJobId).bindable = true :=
          bindable_iff.mpr ⟨id, hb⟩
        -- an ignored object is fine, as it names no transition
        have hignored : ∀ why, readMessage T (.ok (.obj payload)) = .ignored why →
            ¬ NamesTransition T payload →
            ((onMessage T (.ok (.obj payload)) now).1 = .ok ()
              ↔ Digestible T (.ok (.obj payload))) := by
          intro why hv hnot
          rw [onMessage_ignored now hv]
          exact ⟨fun _ _ _ => ⟨hbind, fun h => absurd h hnot⟩, fun _ => rfl⟩
        cases hf : sqlFindByIdUnscoped T id with
        | none =>
            simp only [hb, hf] at hread
            refine hignored _ hread ?_
            rintro ⟨id', current, hb', hfound, -⟩
            rw [hb, Except.ok.injEq] at hb'
            rw [← hb', hf] at hfound
            cases hfound
        | some current =>
            cases hvalid : isValidTransition (.str current.state)
                (dictGet payload fieldState) with
            | false =>
                simp only [hb, hf, hvalid] at hread
                refine hignored _ hread ?_
                rintro ⟨id', current', hb', hfound, hvalid'⟩
                rw [hb, Except.ok.injEq] at hb'
                rw [← hb', hf, Option.some.injEq] at hfound
                rw [← hfound, hvalid] at hvalid'
                cases hvalid'
            | true =>
                simp only [hb, hf, hvalid] at hread
                rw [onMessage_proceed now hread]
                constructor
                · intro hok _ _
                  exact ⟨hbind, fun _ => hok⟩
                · intro hdig
                  exact (hdig hid hst).2 (validResult_of_proceed hread)
  · rw [onMessage_ignored now (readMessage_missing hpresent)]
    refine ⟨?_, fun _ => rfl⟩
    intro _ hid hst
    exact absurd ⟨hid, hst⟩ hpresent

/-- **What the handler survives**: whatever `json.loads` does, a payload is
    handled without raising, and without effect unless it is a valid result,
    exactly when it is digestible. -/
theorem handler_survives_iff (loads : List UInt8 → Delivered)
    (bytes : List UInt8) (T : Table) (now : Datetime) :
    Survives T (loads bytes) now ↔ Digestible T (loads bytes) := by
  have hiff : ∀ msg : Delivered,
      (onMessage T msg now).1 = .ok () ↔ Digestible T msg := by
    intro msg
    cases msg with
    | ok value =>
        cases value with
        | obj payload => exact returns_iff_object T payload now
        | _ =>
            -- no other JSON value has a `get`
            constructor
            · intro hok
              cases hok
            · intro hdig
              exact absurd hdig id
    | error e =>
        cases e with
        | JSONDecodeError => exact ⟨fun _ => Or.inl rfl, fun _ => rfl⟩
        | UnicodeDecodeError => exact ⟨fun _ => Or.inr rfl, fun _ => rfl⟩
        | _ =>
            constructor
            · intro hok
              cases hok
            · intro hdig
              rcases hdig with h | h
              · cases h
              · cases h
  rw [← hiff (loads bytes)]
  exact ⟨fun h => h.1, fun h => ⟨h, onMessage_untouched now⟩⟩

/-- `json.loads` on the two bytes `[]`, and on nothing else. -/
private def loadsBrackets (bytes : List UInt8) : Delivered :=
  if bytes = [0x5B, 0x5D] then .ok (.arr []) else .error .JSONDecodeError

/-- The two bytes `[]`, an empty JSON array, end the handler's thread. -/
theorem handler_dies_of_brackets :
    (onMessage [] (loadsBrackets [0x5B, 0x5D]) (february 1 0)).1
        = .error .AttributeError
      ∧ ¬ Survives [] (loadsBrackets [0x5B, 0x5D]) (february 1 0) := by
  refine ⟨rfl, ?_⟩
  intro h
  cases h.1

end JobHandler
