import JobScheduling.JobSystem
import JobScheduling.JsonValues

/-! # The bytes on the topics

    What is published is `json.dumps(payload)` in UTF-8, and what arrives is
    `json.loads(msg.payload.decode("utf-8"))`.  The floats of the interpreter
    (`F`) and its limits on nesting and digits (`lim`) are parameters.

    * `messages_faithful`: a dispatch and a result are read as they were
      sent, whatever texts the row holds, and their bytes are printable ASCII;
    * `wire_lockstep`: the system over bytes, with any bytes injected on
      `jobs/result`, moves in lockstep with the system over payloads;
    * `answers_survived_iff`: whatever bytes are published on `jobs/dispatch`,
      the answers carry the job id that was in them, and the service survives
      them exactly when the id can be bound;
    * `brackets_survived_iff`: it survives brackets exactly as far as the
      interpreter nests. -/

namespace JobWire

open JobConstants JobClock JobPayload JobModels JobRepository JobBroker
open JobService JobLedger JobHandler JobWorker JobSystem Runs Channels JsonText

/-! ## Values -/

/-- A code point that UTF-8 can represent. -/
def isScalar (c : Nat) : Bool := decide (c < 0xD800 ∨ 0xDFFF < c ∧ c < 0x110000)

def textOf (s : List Nat) : String := String.ofList (s.map Char.ofNat)

def codePoints (s : String) : List Nat := s.toList.map Char.toNat

mutual

/-- The value as the handlers read it.  No key they look up has surrogates. -/
def toJson : Value PyFloat → Json
  | .null => .null
  | .bool b => .bool b
  | .int n => .int n
  | .float x => .float x
  | .str s => if s.all isScalar then .str (textOf s) else .surrogates s
  | .arr vs => .arr (toJsonItems vs)
  | .obj fs => .obj (toJsonFields fs)

def toJsonItems : List (Value PyFloat) → List Json
  | [] => []
  | v :: vs => toJson v :: toJsonItems vs

def toJsonFields : List (List Nat × Value PyFloat) → List (String × Json)
  | [] => []
  | (k, v) :: fs => (textOf k, toJson v) :: toJsonFields fs

end

mutual

/-- The value `json.dumps` is given. -/
def ofJson : Json → Value PyFloat
  | .null => .null
  | .bool b => .bool b
  | .int n => .int n
  | .float x => .float x
  | .str s => .str (codePoints s)
  | .surrogates cs => .str cs
  | .arr vs => .arr (ofJsonItems vs)
  | .obj fs => .obj (ofJsonFields fs)

def ofJsonItems : List Json → List (Value PyFloat)
  | [] => []
  | v :: vs => ofJson v :: ofJsonItems vs

def ofJsonFields : List (String × Json) → List (List Nat × Value PyFloat)
  | [] => []
  | (k, v) :: fs => (codePoints k, ofJson v) :: ofJsonFields fs

end

/-! ## Messages -/

section Messages

variable (F : Floats PyFloat) (lim : Limits)

/-- What `json.loads` raises; the last is never seen (`decoded_fuel`). -/
def exception : Failure → PyExc
  | .decode => .JSONDecodeError
  | .recursion => .other "RecursionError"
  | .digits => .other "ValueError"
  | .fuel => .other "SystemError"

/-- `json.loads(msg.payload.decode("utf-8"))`. -/
def decoded (bytes : ByteArray) : Delivered :=
  match String.fromUTF8? bytes with
  | none => .error .UnicodeDecodeError
  | some s =>
      match loads F lim s.toList with
      | .ok v => .ok (toJson v)
      | .error e => .error (exception e)

/-- `json.dumps(payload)`, as paho encodes it. -/
def wire (payload : Json) : ByteArray :=
  (String.ofList (dumps F (ofJson payload))).toUTF8

end Messages

/-! ## What is sent is what is read -/

section Faithful

variable {F : Floats PyFloat} {lim : Limits}

theorem fromUTF8_toUTF8 (s : String) : String.fromUTF8? s.toUTF8 = some s := by
  rw [String.fromUTF8?, String.toUTF8_eq_toByteArray, dif_pos s.isValidUTF8]
  rfl

/-- The bytes of an ASCII text without control characters. -/
def IsPrintable (bytes : ByteArray) : Prop :=
  ∀ b ∈ bytes.data, 0x20 ≤ b.toNat ∧ b.toNat ≤ 0x7E

/-- A value that is read back is sent in printable ASCII. -/
theorem wire_printable {payload : Json} {d : Nat}
    (h : WellFormed F lim d (ofJson payload)) : IsPrintable (wire F payload) := by
  intro b hb
  rw [wire, String.toUTF8_eq_toByteArray, String.toByteArray_ofList, List.utf8Encode,
    List.data_toByteArray, List.mem_toArray] at hb
  obtain ⟨c, hc, hmem⟩ := List.mem_flatMap.mp hb
  have hprint := dumps_printable h c hc
  have hsmall : c.val.toNat ≤ 0x7F := Nat.le_succ_of_le hprint.2
  rw [String.utf8EncodeChar, if_pos hsmall] at hmem
  have hbyte : b.toNat = c.toNat := by
    rw [List.mem_singleton.mp hmem, UInt8.toNat_ofNat']
    exact Nat.mod_eq_of_lt (by omega)
  rw [hbyte]
  exact hprint

theorem isScalar_iff {c : Nat} :
    isScalar c = true ↔ c < 0xD800 ∨ 0xDFFF < c ∧ c < 0x110000 := by
  rw [isScalar, decide_eq_true_eq]

/-- The code points of a text are scalars. -/
theorem isScalar_codePoints (s : String) : (codePoints s).all isScalar = true := by
  rw [List.all_eq_true]
  intro n hn
  obtain ⟨c, -, rfl⟩ := List.mem_map.mp hn
  exact isScalar_iff.mpr c.valid

/-- Scalars make no surrogate pairs. -/
theorem wellPaired_of_scalars {s : List Nat} (h : s.all isScalar = true) :
    WellPaired s := by
  rw [List.all_eq_true] at h
  refine ⟨?_, List.Pairwise.isChain (List.pairwise_of_forall_mem_list ?_)⟩
  · intro c hc
    have hscalar := isScalar_iff.mp (h c hc)
    omega
  · rintro a ha b - ⟨hhigh, -⟩
    have hscalar := isScalar_iff.mp (h a ha)
    rw [isHigh_iff] at hhigh
    omega

/-- A text is made of its code points. -/
theorem textOf_codePoints (s : String) : textOf (codePoints s) = s := by
  have hmap : s.toList.map (Char.ofNat ∘ Char.toNat) = s.toList :=
    (List.map_congr_left (fun c _ => Char.ofNat_toNat c)).trans (List.map_id _)
  rw [textOf, codePoints, List.map_map, hmap, String.ofList_toList]

/-- Different texts have different code points. -/
theorem codePoints_injective : Function.Injective codePoints := by
  intro s t h
  rw [← textOf_codePoints s, h, textOf_codePoints]

theorem ofJsonFields_eq (fs : List (String × Json)) :
    ofJsonFields fs = fs.map (fun p => (codePoints p.1, ofJson p.2)) := by
  induction fs with
  | nil => rfl
  | cons p fs ih => rw [ofJsonFields, ih, List.map_cons]

theorem toJsonFields_eq (fs : List (List Nat × Value PyFloat)) :
    toJsonFields fs = fs.map (fun p => (textOf p.1, toJson p.2)) := by
  induction fs with
  | nil => rfl
  | cons p fs ih => rw [toJsonFields, ih, List.map_cons]

/-- A value without depth that is read as it was sent. -/
structure Arrives (F : Floats PyFloat) (lim : Limits) (v : Json) : Prop where
  wellFormed : ∀ d, WellFormed F lim d (ofJson v)
  back : toJson (ofJson v) = v

/-- A message whose values arrive arrives, as ASCII text. -/
theorem decoded_object (hdepth : 0 < lim.depth) {fs : List (String × Json)}
    (hkeys : (fs.map Prod.fst).Nodup) (hvalues : ∀ p ∈ fs, Arrives F lim p.2) :
    decoded F lim (wire F (.obj fs)) = .ok (.obj fs)
      ∧ IsPrintable (wire F (.obj fs)) := by
  have hwell : WellFormed F lim lim.depth (ofJson (.obj fs)) := by
    obtain ⟨d, hd⟩ : ∃ d, lim.depth = d + 1 := ⟨lim.depth - 1, by omega⟩
    rw [hd, ofJson, ofJsonFields_eq]
    refine WellFormed.obj d _ ?_ ?_ ?_
    · rw [List.map_map]
      have hmap := hkeys.map codePoints_injective
      rwa [List.map_map] at hmap
    · intro p hp
      obtain ⟨q, -, rfl⟩ := List.mem_map.mp hp
      exact wellPaired_of_scalars (isScalar_codePoints q.1)
    · intro p hp
      obtain ⟨q, hq, rfl⟩ := List.mem_map.mp hp
      exact (hvalues q hq).wellFormed d
  have hback : toJson (ofJson (.obj fs)) = .obj fs := by
    have hmap : fs.map ((fun p => (textOf p.1, toJson p.2))
        ∘ (fun p => (codePoints p.1, ofJson p.2))) = fs := by
      rw [List.map_congr_left (g := id), List.map_id]
      intro p hp
      show (textOf (codePoints p.1), toJson (ofJson p.2)) = p
      rw [textOf_codePoints, (hvalues p hp).back]
    rw [ofJson, toJson, toJsonFields_eq, ofJsonFields_eq, List.map_map, hmap]
  refine ⟨?_, wire_printable hwell⟩
  rw [decoded, wire, fromUTF8_toUTF8]
  simp only [String.toList_ofList, loads_dumps hwell, hback]

/-- Every text arrives. -/
theorem str_arrives (s : String) : Arrives F lim (.str s) where
  wellFormed d := WellFormed.str d _ (wellPaired_of_scalars (isScalar_codePoints s))
  back := by
    rw [ofJson, toJson, if_pos (isScalar_codePoints s), textOf_codePoints]

/-- The operation of a row that could be stored arrives. -/
theorem operation_arrives {s : PyStr} (h : s.encodable = true) :
    Arrives F lim s.toJson := by
  obtain ⟨text, rfl⟩ := encodable_iff.mp h
  exact str_arrives text

/-- A dispatch arrives. -/
theorem dispatch_arrives (hdepth : 0 < lim.depth) {job : Job}
    (hop : job.operation.encodable = true) :
    decoded F lim (wire F (dispatchPayload job)) = .ok (dispatchPayload job)
      ∧ IsPrintable (wire F (dispatchPayload job)) := by
  refine decoded_object hdepth ?_ ?_
  · show [fieldJobId, fieldAssetId, fieldStartTime, fieldEndTime, fieldOperation].Nodup
    decide
  · intro p hp
    simp only [List.mem_cons, List.not_mem_nil, or_false] at hp
    rcases hp with rfl | rfl | rfl | rfl | rfl
    · exact str_arrives _
    · exact str_arrives _
    · exact str_arrives _
    · exact str_arrives _
    · exact operation_arrives hop

/-- A result arrives if its job id does. -/
theorem result_arrives (hdepth : 0 < lim.depth) {jobId : Json}
    (hid : Arrives F lim jobId) (state : String) (error : Option String)
    (timestamp : String) :
    decoded F lim (wire F (resultPayload jobId state error timestamp))
        = .ok (resultPayload jobId state error timestamp)
      ∧ IsPrintable (wire F (resultPayload jobId state error timestamp)) := by
  cases error with
  | none =>
      refine decoded_object hdepth ?_ ?_
      · show ["job_id", "state", "timestamp"].Nodup
        decide
      · intro p hp
        simp only [List.append_nil, List.mem_cons, List.not_mem_nil, or_false] at hp
        rcases hp with rfl | rfl | rfl
        · exact hid
        · exact str_arrives _
        · exact str_arrives _
  | some e =>
      refine decoded_object hdepth ?_ ?_
      · show ["job_id", "state", "timestamp", "error_message"].Nodup
        decide
      · intro p hp
        simp only [List.cons_append, List.nil_append, List.mem_cons,
          List.not_mem_nil, or_false] at hp
        rcases hp with rfl | rfl | rfl | rfl
        · exact hid
        · exact str_arrives _
        · exact str_arrives _
        · exact str_arrives _

/-- **Messages are faithful**: whatever texts a row holds, its dispatch carries
    them, and it and the results about the row are read as they were sent, and
    sent as printable ASCII. -/
theorem messages_faithful (F : Floats PyFloat) (lim : Limits)
    (hdepth : 0 < lim.depth) :
    (∀ job : Job, job.operation.encodable = true →
      decoded F lim (wire F (dispatchPayload job)) = .ok (dispatchPayload job)
        ∧ (∃ payload, dispatchPayload job = .obj payload ∧ Carries job payload)
        ∧ IsPrintable (wire F (dispatchPayload job)))
      ∧ ∀ (id state : String) (error : Option String) (timestamp : String),
        decoded F lim (wire F (resultPayload (.str id) state error timestamp))
            = .ok (resultPayload (.str id) state error timestamp)
          ∧ IsPrintable (wire F (resultPayload (.str id) state error timestamp)) := by
  constructor
  · intro job hop
    obtain ⟨hread, hprint⟩ := dispatch_arrives (F := F) hdepth hop
    exact ⟨hread, dispatchPayload_carries hop, hprint⟩
  · intro id state error timestamp
    exact result_arrives hdepth (str_arrives id) state error timestamp

/-- An interpreter for messages without floats. -/
def floatless : Floats PyFloat := ⟨fun _ => ⟨true, none⟩, fun _ => nanText⟩

/-- The two limits as Python sets them.  How deep a text may be nested when the
    handler parses it is less than the first, by the frames already in use. -/
def defaultLimits : Limits := ⟨1000, 4300⟩

/-- A row whose operation tries to end its string and to add a field. -/
def hostileJob : Job :=
  ⟨"job-1", "user-001", "asset-001", "charge\", \"job_id\": \"job-2\\", "", "",
    statePending, none, "k\n", "", ""⟩

/-- Quotes and backslashes in the operation stay in the operation. -/
theorem messages_faithful_hostile :
    decoded floatless defaultLimits (wire floatless (dispatchPayload hostileJob))
      = .ok (dispatchPayload hostileJob) :=
  ((messages_faithful floatless defaultLimits (by decide)).1 hostileJob rfl).1

end Faithful

/-! ## The system over bytes -/

structure ByteResult where
  sender : Sender
  bytes : ByteArray

/-- The service, the worker's threads, and the bytes in flight. -/
structure ByteSystem where
  service : Service
  dispatches : List ByteArray
  threads : Option (List WorkerPc)
  results : List ByteResult

def ByteSystem.empty : ByteSystem := ⟨Service.empty, [], some [], []⟩

inductive ByteLabel where
  | service (l : Label)
  | dispatchFault (f : Fault)
  | receive (i : Nat)
  | thread (j : Nat) (first second : Datetime) (publish : PublishResult)
  | inject (bytes : ByteArray)
  | resultFault (f : Fault)
  | result (i : Nat) (now : Datetime)

/-- The worker after it took a message, whatever that is read as. -/
def receiveMessage (threads : List WorkerPc) (msg : Delivered) :
    Option (List WorkerPc) :=
  match onDispatch msg with
  | .ignored => some threads
  | .thread pc => some (threads ++ [pc])
  | .raised _ => none

section Lockstep

variable (F : Floats PyFloat) (lim : Limits)

/-- One step of the system: both sides write bytes and read bytes. -/
def byteStep (cfg : Config) (sys : ByteSystem) : ByteLabel → Option ByteSystem
  -- messages come from the topic only
  | .service (.deliver _ _) => none
  | .service l =>
      match step cfg sys.service l with
      | none => none
      | some s' =>
          some { sys with
            service := s'
            dispatches := sys.dispatches
              ++ (handed (s'.log.drop sys.service.log.length)).map (wire F) }
  | .dispatchFault f =>
      match disturb sys.dispatches f with
      | none => none
      | some ms => some { sys with dispatches := ms }
  | .receive i =>
      match sys.threads, take sys.dispatches i with
      | some threads, some (bytes, rest) =>
          some { sys with
            dispatches := rest
            threads := receiveMessage threads (decoded F lim bytes) }
      | _, _ => none
  | .thread j first second publish =>
      match sys.threads with
      | none => none
      | some threads =>
          match threads[j]? with
          | none => none
          | some pc =>
              match threadStep (isoNow first second) publish pc with
              | none => none
              | some (pc', sent) =>
                  some { sys with
                    threads := some (threads.set j pc')
                    results := sys.results
                      ++ sent.map (fun payload => ⟨.worker, wire F payload⟩) }
  | .inject bytes => some { sys with results := sys.results ++ [⟨.other, bytes⟩] }
  | .resultFault f =>
      match disturb sys.results f with
      | none => none
      | some ms => some { sys with results := ms }
  | .result i now =>
      match take sys.results i with
      | none => none
      | some (m, rest) =>
          match step cfg sys.service (.deliver (decoded F lim m.bytes) now) with
          | none => none
          | some s' => some { sys with service := s', results := rest }

/-- The step over payloads: what is injected is what the bytes are read as. -/
def overPayloads : ByteLabel → SystemLabel
  | .service l => .service l
  | .dispatchFault f => .dispatchFault f
  | .receive i => .receive i
  | .thread j first second publish => .thread j first second publish
  | .inject bytes => .inject (decoded F lim bytes)
  | .resultFault f => .resultFault f
  | .result i now => .result i now

/-- A result as it is read. -/
def ByteResult.read (m : ByteResult) : Result := ⟨m.sender, decoded F lim m.bytes⟩

/-- The dispatches are what was sent, the results what will be read. -/
structure Matches (b : ByteSystem) (sys : System) : Prop where
  service : b.service = sys.service
  dispatches : b.dispatches = sys.dispatches.map (wire F)
  threads : b.threads = sys.threads
  results : sys.results = b.results.map (ByteResult.read F lim)

end Lockstep

section Lockstep

variable {F : Floats PyFloat} {lim : Limits} {cfg : Config}

theorem matches_empty : Matches F lim ByteSystem.empty System.empty where
  service := rfl
  dispatches := rfl
  threads := rfl
  results := rfl

/-- What a thread on a stored row sends is read as it was sent. -/
theorem threadStep_arrives (hdepth : 0 < lim.depth) {T : Table} {timestamp : String}
    {publish : PublishResult} {pc pc' : WorkerPc} {sent : List Json}
    (hpc : ThreadOk T pc) (h : threadStep timestamp publish pc = some (pc', sent)) :
    ∀ p ∈ sent, decoded F lim (wire F p) = .ok p := by
  cases threadStep_move h with
  | ignored payload bad => exact fun p hp => absurd hp List.not_mem_nil
  | running payload sent good sends =>
      obtain ⟨r, -, hp⟩ := hpc
      have hid : dictGet payload "job_id" = .str r.id := by
        rw [Json.obj.inj hp]
        rfl
      intro p hmem
      rw [publishResult_sent sends p hmem, hid]
      exact (result_arrives hdepth (str_arrives r.id) _ _ _).1
  | terminal jobId assetId sent sends =>
      obtain ⟨r, -, rfl, -⟩ := hpc
      intro p hmem
      rw [publishResult_sent sends p hmem, terminalPayload]
      split_ifs
      · exact (result_arrives hdepth (str_arrives r.id) _ _ _).1
      · exact (result_arrives hdepth (str_arrives r.id) _ _ _).1
  | raised pc e raises => exact fun p hp => absurd hp List.not_mem_nil

/-- One step over bytes is one step over payloads. -/
theorem byteStep_matches (hdepth : 0 < lim.depth) {b : ByteSystem} {sys : System}
    (hm : Matches F lim b sys) (hok : SystemOk cfg sys) (l : ByteLabel) :
    Option.Rel (Matches F lim) (byteStep F lim cfg b l)
      (systemStep cfg sys (overPayloads F lim l)) := by
  obtain ⟨service, dispatches, threads, results⟩ := b
  obtain ⟨hservice, hdispatches, hthreads, hresults⟩ := hm
  simp only at hservice hdispatches hthreads hresults
  subst hservice hdispatches hthreads
  cases l with
  | service l =>
      have hmoved : Option.Rel (Matches F lim)
          (match step cfg sys.service l with
            | none => none
            | some s' => some (ByteSystem.mk s'
                (sys.dispatches.map (wire F)
                  ++ (handed (s'.log.drop sys.service.log.length)).map (wire F))
                sys.threads results))
          (match step cfg sys.service l with
            | none => none
            | some s' => some { sys with
                service := s'
                dispatches := sys.dispatches
                  ++ handed (s'.log.drop sys.service.log.length) }) := by
        cases step cfg sys.service l with
        | none => exact Option.Rel.none
        | some s' =>
            exact Option.Rel.some ⟨rfl, (List.map_append ..).symm, rfl, hresults⟩
      cases l with
      | deliver msg now => exact Option.Rel.none
      | submit c => exact hmoved
      | call i => exact hmoved
      | handler => exact hmoved
  | dispatchFault f =>
      simp only [byteStep, overPayloads, systemStep, disturb_map]
      cases disturb sys.dispatches f with
      | none => exact Option.Rel.none
      | some ms => exact Option.Rel.some ⟨rfl, rfl, rfl, hresults⟩
  | receive i =>
      simp only [byteStep, overPayloads, systemStep, take_map]
      cases hup : sys.threads with
      | none => exact Option.Rel.none
      | some threads =>
          cases ht : take sys.dispatches i with
          | none => exact Option.Rel.none
          | some p =>
              -- what is in flight is the dispatch of a stored row
              obtain ⟨r, hmem, hr⟩ := hok.dispatches p.1 (mem_of_take ht).1
              have hread : decoded F lim (wire F p.1) = .ok p.1 := by
                rw [hr]
                exact (dispatch_arrives hdepth (hok.encodable r hmem)).1
              refine Option.Rel.some ⟨rfl, rfl, ?_, hresults⟩
              show receiveMessage threads (decoded F lim (wire F p.1)) = _
              rw [hread]
              rfl
  | thread j first second publish =>
      simp only [byteStep, overPayloads, systemStep]
      cases hup : sys.threads with
      | none => exact Option.Rel.none
      | some threads =>
          cases hj : threads[j]? with
          | none => simp only [hj]; exact Option.Rel.none
          | some pc =>
              simp only [hj]
              cases hst : threadStep (isoNow first second) publish pc with
              | none => exact Option.Rel.none
              | some p =>
                  refine Option.Rel.some ⟨rfl, rfl, rfl, ?_⟩
                  -- the thread is on a stored row, so its id is a text
                  have hpc := hok.threads threads hup pc (List.mem_of_getElem? hj)
                  rw [List.map_append, ← hresults, List.map_map]
                  refine congrArg (sys.results ++ ·) (List.map_congr_left ?_)
                  intro q hq
                  have hread := threadStep_arrives (F := F) hdepth hpc hst q hq
                  show _ = Result.mk .worker (decoded F lim (wire F q))
                  rw [hread]
  | inject bytes =>
      refine Option.Rel.some ⟨rfl, rfl, rfl, ?_⟩
      rw [List.map_append, ← hresults]
      rfl
  | resultFault f =>
      simp only [byteStep, overPayloads, systemStep, hresults, disturb_map]
      cases disturb results f with
      | none => exact Option.Rel.none
      | some ms => exact Option.Rel.some ⟨rfl, rfl, rfl, rfl⟩
  | result i now =>
      simp only [byteStep, overPayloads, systemStep, hresults, take_map]
      cases take results i with
      | none => exact Option.Rel.none
      | some p =>
          show Option.Rel _
            (match step cfg sys.service (.deliver (decoded F lim p.1.bytes) now) with
              | none => none
              | some s' => _)
            (match step cfg sys.service (.deliver (decoded F lim p.1.bytes) now) with
              | none => none
              | some s' => _)
          cases step cfg sys.service (.deliver (decoded F lim p.1.bytes) now) with
          | none => exact Option.Rel.none
          | some s' => exact Option.Rel.some ⟨rfl, rfl, rfl, rfl⟩

/-- **Bytes in lockstep with payloads**: whatever bytes are injected, the two
    systems go on together and stay matched, or stop together. -/
theorem wire_lockstep (F : Floats PyFloat) (lim : Limits) (cfg : Config)
    (hdepth : 0 < lim.depth) (ls : List ByteLabel) :
    Option.Rel (Matches F lim) (exec (byteStep F lim cfg) ByteSystem.empty ls)
      (exec (systemStep cfg) System.empty (ls.map (overPayloads F lim))) := by
  have hkept : ∀ sys l sys', SystemOk cfg sys → systemStep cfg sys l = some sys' →
      SystemOk cfg sys' := fun _ _ _ hok hst => systemOk_step hok hst
  have hstep : ∀ b sys l, Matches F lim b sys → SystemOk cfg sys →
      Option.Rel (Matches F lim) (byteStep F lim cfg b l)
        (systemStep cfg sys (overPayloads F lim l)) :=
    fun _ _ l hm hok => byteStep_matches hdepth hm hok l
  exact exec_lockstep hkept hstep matches_empty (systemOk_empty cfg) ls

/-- A booking that is carried out while bytes that are no UTF-8 wait on
    `jobs/result`. -/
def noisy : List ByteLabel :=
  [.inject ⟨#[0xFF]⟩,
    .service (.submit (booking "user-001" "k1" "job-1" "asset-001" (february 2 1)
      (february 2 3) .handed)),
    .service (.call 0), .service (.call 0), .service (.call 0), .service (.call 0),
    .receive 0,
    .thread 0 (february 2 1) (february 2 1) .handed,
    .result 1 (february 2 2), .service .handler, .service .handler,
    .service .handler]

/-- The bytes that are no UTF-8 are still waiting, and the job is RUNNING on
    both sides. -/
theorem wire_lockstep_noisy :
    ∃ b sys, exec (byteStep floatless defaultLimits seedConfig) ByteSystem.empty noisy
        = some b
      ∧ exec (systemStep seedConfig) System.empty
          (noisy.map (overPayloads floatless defaultLimits)) = some sys
      ∧ Matches floatless defaultLimits b sys := by
  have hrel := wire_lockstep floatless defaultLimits seedConfig (by decide) noisy
  obtain ⟨sys, hsys⟩ := Option.isSome_iff_exists.mp
    (show (exec (systemStep seedConfig) System.empty
      (noisy.map (overPayloads floatless defaultLimits))).isSome = true by decide +kernel)
  rw [hsys] at hrel
  cases hb : exec (byteStep floatless defaultLimits seedConfig) ByteSystem.empty noisy with
  | none =>
      rw [hb] at hrel
      cases hrel
  | some b =>
      rw [hb] at hrel
      cases hrel with
      | some hm => exact ⟨b, sys, rfl, hsys, hm⟩

end Lockstep

/-! ## Answers to any dispatch -/

/-- What a thread sends in the steps given by a clock text and a publish
    each. -/
def answers : WorkerPc → List (String × PublishResult) → List Json
  | _, [] => []
  | pc, (timestamp, publish) :: ls =>
      match threadStep timestamp publish pc with
      | none => []
      | some (pc', sent) => sent ++ answers pc' ls

/-- A value that is neither a list nor a dict. -/
def Atomic : Json → Prop
  | .arr _ => False
  | .obj _ => False
  | _ => True

section Answers

variable {F : Floats PyFloat} {lim : Limits}

/-- What is read of an atomic value can be sent again. -/
theorem arrives_of_read {d : Nat} {v : Value PyFloat} (h : WellFormed F lim d v)
    (hatomic : Atomic (toJson v)) : Arrives F lim (toJson v) := by
  cases h with
  | null => exact ⟨fun d => WellFormed.null d, rfl⟩
  | bool _ b => exact ⟨fun d => WellFormed.bool d b, rfl⟩
  | int _ n short => exact ⟨fun d => WellFormed.int d n short, rfl⟩
  | float _ x faithful => exact ⟨fun d => WellFormed.float d x faithful, rfl⟩
  | str _ s paired =>
      rw [toJson]
      split_ifs with hscalars
      · exact str_arrives _
      · -- a lone surrogate is escaped again
        refine ⟨fun d => WellFormed.str d s paired, ?_⟩
        rw [ofJson, toJson, if_neg hscalars]
  | arr _ vs => exact absurd hatomic id
  | obj _ fs => exact absurd hatomic id

/-- The exception that stands for fuel is never raised. -/
theorem decoded_fuel (hF : ∀ s, F.Faithful (F.read s)) (bytes : ByteArray) :
    decoded F lim bytes ≠ .error (exception .fuel) := by
  intro h
  rw [decoded] at h
  cases hs : String.fromUTF8? bytes with
  | none =>
      rw [hs] at h
      cases h
  | some s =>
      rw [hs] at h
      cases hv : loads F lim s.toList with
      | ok v =>
          simp only [hv] at h
          cases h
      | error e =>
          simp only [hv, Except.error.injEq] at h
          cases e with
          | fuel => exact loads_fuel hF s.toList hv
          | decode => exact absurd h (by decide)
          | recursion => exact absurd h (by decide)
          | digits => exact absurd h (by decide)

/-- A field is missing, or has one of the values. -/
theorem dictGet_cases (fs : List (String × Json)) (field : String) :
    dictGet fs field = .null ∨ ∃ p ∈ fs, dictGet fs field = p.2 := by
  rw [dictGet]
  induction fs with
  | nil => exact Or.inl rfl
  | cons p fs ih =>
      rw [List.lookup_cons]
      cases field == p.1 with
      | true => exact Or.inr ⟨p, List.mem_cons_self .., rfl⟩
      | false =>
          rcases ih with hnull | ⟨q, hq, heq⟩
          · exact Or.inl hnull
          · exact Or.inr ⟨q, List.mem_cons_of_mem _ hq, heq⟩

/-- An atomic value read out of any bytes can be sent again. -/
theorem arrives_of_decoded (hF : ∀ s, F.Faithful (F.read s)) {bytes : ByteArray}
    {payload : List (String × Json)} (h : decoded F lim bytes = .ok (.obj payload))
    {field : String} (hatomic : Atomic (dictGet payload field)) :
    Arrives F lim (dictGet payload field) := by
  rw [decoded] at h
  cases hs : String.fromUTF8? bytes with
  | none =>
      rw [hs] at h
      cases h
  | some s =>
      rw [hs] at h
      cases hv : loads F lim s.toList with
      | error e =>
          simp only [hv] at h
          cases h
      | ok v =>
          simp only [hv, Except.ok.injEq] at h
          obtain ⟨d, hwell⟩ : ∃ d, WellFormed F lim d v := ⟨_, loads_wellFormed hF hv⟩
          cases hwell with
          | obj d fs keys paired values =>
              -- a field that is missing is read as None
              rw [toJson, Json.obj.injEq, toJsonFields_eq] at h
              rcases dictGet_cases payload field with hnull | ⟨p, hp, heq⟩
              · rw [hnull]
                exact ⟨fun d => WellFormed.null d, rfl⟩
              · rw [← h] at hp
                obtain ⟨q, hq, rfl⟩ := List.mem_map.mp hp
                rw [heq] at hatomic ⊢
                exact arrives_of_read (values q hq) hatomic
          | str _ s =>
              rw [toJson] at h
              split_ifs at h
          | _ => cases h

/-- An answer is sent in the first step or later. -/
theorem mem_answers_cons {pc : WorkerPc} {timestamp : String}
    {publish : PublishResult} {ls : List (String × PublishResult)} {p : Json}
    (h : p ∈ answers pc ((timestamp, publish) :: ls)) :
    ∃ pc' sent, threadStep timestamp publish pc = some (pc', sent)
      ∧ (p ∈ sent ∨ p ∈ answers pc' ls) := by
  rw [answers] at h
  cases hst : threadStep timestamp publish pc with
  | none =>
      rw [hst] at h
      cases h
  | some q =>
      rw [hst] at h
      exact ⟨q.1, q.2, rfl, List.mem_append.mp h⟩

theorem answers_ended (schedule : List (String × PublishResult)) :
    answers .ended schedule = [] := by
  cases schedule with
  | nil => rfl
  | cons l ls => rfl

/-- A thread that sleeps sends one more result, about the same id. -/
theorem answers_sleeping {jobId assetId : Json}
    {schedule : List (String × PublishResult)} :
    ∀ p ∈ answers (.sleeping jobId assetId) schedule, ∃ state error timestamp,
      state ≠ "" ∧ p = resultPayload jobId state error timestamp := by
  intro p hp
  cases schedule with
  | nil => cases hp
  | cons l ls =>
      obtain ⟨pc', sent, hst, hp⟩ := mem_answers_cons hp
      cases threadStep_move hst with
      | terminal jobId assetId sent sends =>
          rw [answers_ended, or_iff_left List.not_mem_nil] at hp
          rw [publishResult_sent sends p hp, terminalPayload]
          split_ifs
          · exact ⟨_, _, _, by decide, rfl⟩
          · exact ⟨_, _, _, by decide, rfl⟩
      | raised pc e raises =>
          rw [answers_ended, or_self] at hp
          cases hp

/-- What the thread of a dispatch sends is a result with the dispatch's id. -/
theorem answers_started {payload : List (String × Json)}
    {schedule : List (String × PublishResult)} :
    ∀ p ∈ answers (.started payload) schedule,
      (dictGet payload "job_id").truthy = true ∧ ∃ state error timestamp,
        state ≠ "" ∧ p = resultPayload (dictGet payload "job_id") state error timestamp := by
  intro p hp
  cases schedule with
  | nil => cases hp
  | cons l ls =>
      obtain ⟨pc', sent, hst, hp⟩ := mem_answers_cons hp
      cases threadStep_move hst with
      | ignored payload bad =>
          rw [answers_ended, or_self] at hp
          cases hp
      | running payload sent good sends =>
          rw [malformed, Bool.or_eq_false_iff, Bool.not_eq_false'] at good
          refine ⟨good.1, ?_⟩
          rcases hp with hsent | hlater
          · rw [publishResult_sent sends p hsent]
            exact ⟨_, _, _, by decide, rfl⟩
          · exact answers_sleeping p hlater
      | raised pc e raises =>
          rw [answers_ended, or_self] at hp
          cases hp

/-- The handler survives a result that names a state exactly when the id in it
    can be bound: the other fields are texts. -/
theorem result_survived_iff (T : Table) (now : Datetime) {jobId : Json}
    (hid : jobId.truthy = true) {state : String} (hstate : state ≠ "")
    (error : Option String) (timestamp : String) :
    Survives T (.ok (resultPayload jobId state error timestamp)) now
      ↔ jobId.bindable = true := by
  obtain ⟨fs, hfs, hget, hgetState, hgetError⟩ : ∃ fs,
      resultPayload jobId state error timestamp = .obj fs
        ∧ dictGet fs fieldJobId = jobId ∧ dictGet fs fieldState = .str state
        ∧ (dictGet fs fieldErrorMessage).bindable = true := by
    cases error with
    | none => exact ⟨_, rfl, rfl, rfl, rfl⟩
    | some e => exact ⟨_, rfl, rfl, rfl, rfl⟩
  have htruthy : (Json.str state).truthy = true := bne_iff_ne.mpr hstate
  rw [hfs]
  constructor
  · intro hsurvives
    have hdig := (returns_iff_object T fs now).mp hsurvives.1
    rw [Digestible, hget, hgetState] at hdig
    exact (hdig hid htruthy).1
  · intro hbind
    have hdig : Digestible T (.ok (.obj fs)) := by
      rw [Digestible, hget]
      exact fun _ _ => ⟨hbind, fun _ => hgetError⟩
    exact ⟨(returns_iff_object T fs now).mpr hdig, onMessage_untouched now⟩

/-- **The worker echoes ids**: whatever bytes are published on `jobs/dispatch`,
    an answer to them is read as it was sent, carries the job id that was in
    them, and is survived by the service exactly when that id can be bound. -/
theorem answers_survived_iff (hF : ∀ s, F.Faithful (F.read s))
    (hdepth : 0 < lim.depth) {bytes : ByteArray} {payload : List (String × Json)}
    (hread : onDispatch (decoded F lim bytes) = .thread (.started payload))
    (hatomic : Atomic (dictGet payload "job_id"))
    (schedule : List (String × PublishResult)) :
    ∀ p ∈ answers (.started payload) schedule,
      decoded F lim (wire F p) = .ok p
        ∧ (∃ fs, p = .obj fs ∧ dictGet fs fieldJobId = dictGet payload "job_id")
        ∧ ∀ (T : Table) (now : Datetime),
          Survives T (decoded F lim (wire F p)) now
            ↔ (dictGet payload "job_id").bindable = true := by
  have hpayload : decoded F lim bytes = .ok (.obj payload) := by
    cases hmsg : decoded F lim bytes with
    | error e =>
        rw [hmsg] at hread
        cases e <;> cases hread
    | ok v =>
        rw [hmsg] at hread
        cases v with
        | obj fs =>
            cases hread
            rfl
        | _ => cases hread
  intro p hp
  -- the id was read out of the bytes, so it can be written and read again
  obtain ⟨hid, state, error, timestamp, hstate, rfl⟩ := answers_started p hp
  have harrives := (result_arrives (F := F) hdepth
    (arrives_of_decoded hF hpayload hatomic) state error timestamp).1
  refine ⟨harrives, ?_, fun T now => ?_⟩
  · cases error with
    | none => exact ⟨_, rfl, rfl⟩
    | some e => exact ⟨_, rfl, rfl⟩
  · rw [harrives]
    exact result_survived_iff T now hid hstate error timestamp

/-- A dispatch of somebody else, whose job id is the text `"\ud800"`. -/
def forged : List (String × Json) :=
  [("job_id", .surrogates [0xD800]), ("asset_id", .str "asset-001")]

/-- The worker's answer to it ends the service's thread. -/
theorem answers_survived_iff_forged :
    ¬ Survives [] (decoded floatless defaultLimits (wire floatless
        (resultPayload (.surrogates [0xD800]) "RUNNING" none "")))
      (february 2 1) := by
  have hfloats : ∀ s, floatless.Faithful (floatless.read s) :=
    fun _ => ⟨rfl, Or.inl (List.mem_cons_self ..)⟩
  have hpaired : WellPaired [0xD800] := ⟨by decide, List.isChain_singleton _⟩
  have hid : Arrives floatless defaultLimits (.surrogates [0xD800]) :=
    arrives_of_read (WellFormed.str 0 [0xD800] hpaired) trivial
  have hforged : decoded floatless defaultLimits (wire floatless (.obj forged))
      = .ok (.obj forged) := by
    refine (decoded_object (by decide) (by decide) ?_).1
    intro p hp
    simp only [forged, List.mem_cons, List.not_mem_nil, or_false] at hp
    rcases hp with rfl | rfl
    · exact hid
    · exact str_arrives _
  have hread : onDispatch (decoded floatless defaultLimits
      (wire floatless (.obj forged))) = .thread (.started forged) := by
    rw [hforged]
    rfl
  have hanswer := answers_survived_iff hfloats (by decide) hread trivial
    [("", .handed)] _ (List.mem_cons_self ..)
  intro hsurvives
  cases (hanswer.2.2 [] (february 2 1)).mp hsurvives

end Answers

/-! ## Messages nested too deeply -/

section Brackets

variable {F : Floats PyFloat} {lim : Limits}

/-- `"[" * n`. -/
def brackets (n : Nat) : ByteArray := (String.ofList (List.replicate n '[')).toUTF8

/-- The scanner goes down a level with each bracket. -/
theorem scanOnce_brackets (n : Nat) : ∀ {fuel d : Nat}, 2 * n < fuel →
    scanOnce F lim fuel d (List.replicate n '[')
      = .error (if n ≤ d then .decode else .recursion) := by
  induction n with
  | zero =>
      intro fuel d hfuel
      obtain ⟨fuel, rfl⟩ : ∃ m, fuel = m + 1 := ⟨fuel - 1, by omega⟩
      rw [List.replicate_zero, scanOnce, if_pos (Nat.zero_le d)]
  | succ n ih =>
      intro fuel d hfuel
      obtain ⟨fuel, rfl⟩ : ∃ m, fuel = m + 2 := ⟨fuel - 2, by omega⟩
      rw [List.replicate_succ]
      cases d with
      | zero =>
          rw [scanOnce.eq_def, if_neg (Nat.not_succ_le_zero n)]
          rfl
      | succ d =>
          have hskip : skipSpace (List.replicate n '[') = List.replicate n '[' := by
            cases n with
            | zero => rfl
            | succ n => exact skipSpace_cons (by decide) _
          have hnext : next ']' (List.replicate n '[') = none := by
            cases n with
            | zero => rfl
            | succ n => exact next_ne (by decide) _
          have hdeeper : scanOnce F lim fuel d (List.replicate n '[') = _ :=
            ih (by omega)
          rw [scanOnce_array, hskip, hnext]
          simp only [scanItems, hdeeper, Nat.add_le_add_iff_right]
          rfl

/-- **Nesting**: the handler survives opening brackets exactly as far as the
    interpreter nests; what it raises beyond that is no decoding error. -/
theorem brackets_survived_iff (F : Floats PyFloat) (lim : Limits) (n : Nat) (T : Table)
    (now : Datetime) : Survives T (decoded F lim (brackets n)) now ↔ n ≤ lim.depth := by
  have hskip : skipSpace (List.replicate n '[') = List.replicate n '[' := by
    cases n with
    | zero => rfl
    | succ n => exact skipSpace_cons (by decide) _
  have hhead : (List.replicate n '[').head? ≠ some byteOrderMark := by
    cases n with
    | zero => exact fun h => by cases h
    | succ n =>
        rw [List.replicate_succ, List.head?_cons, Ne, Option.some.injEq]
        decide
  have hscan : scanOnce F lim (2 * n + 1) lim.depth (List.replicate n '[') = _ :=
    scanOnce_brackets n (Nat.lt_succ_self _)
  have hread : decoded F lim (brackets n)
      = .error (if n ≤ lim.depth then .JSONDecodeError else .other "RecursionError") := by
    rw [decoded, brackets, fromUTF8_toUTF8]
    simp only [String.toList_ofList, loads, if_neg hhead, hskip, fuelOf,
      List.length_replicate, hscan]
    split_ifs
    · rfl
    · rfl
  rw [hread]
  split_ifs with hn
  · exact ⟨fun _ => hn, fun _ => ⟨rfl, fun _ => rfl⟩⟩
  · constructor
    · intro h
      cases h.1
    · exact fun h => absurd h hn

end Brackets

end JobWire
