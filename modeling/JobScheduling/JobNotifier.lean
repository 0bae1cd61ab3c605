import JobScheduling.JobLedger
import Mathlib.Data.List.Nodup

/-! # The notification stream

    `SocketIONotifierService` and the bridge `_on_mqtt_result` that the result
    handler calls back: sessions connect with a token and enter the room of
    its user; a job update is emitted to the room of the job's owner.

    The server is the service together with its sessions and the emits so far.
    `notifications_exact` compares the emits with what the table went through:
    one emit for every state change that was persisted, in the same order,
    and only to sessions of the owner. -/

namespace JobNotifier

open JobConstants JobClock JobPayload JobModels JobRepository JobBroker
open JobOrchestrator JobService JobLedger KeyedTable Runs

/-! ## Sessions -/

/-- A user of the seed file, as far as the notifier reads it. -/
structure User where
  userId : String
  token : String
deriving DecidableEq, Repr

/-- `USERS_BY_TOKEN.get(token)`: in a dict comprehension the last entry of a
    key stays. -/
def usersByToken (users : List User) (token : String) : Option User :=
  users.reverse.find? (fun u => u.token = token)

/-- The room of a user. -/
def room (userId : String) : String := socketioRoomPrefix ++ userId

/-- A connected session: the token it connected with, the user id saved for
    it, and the room it entered. -/
structure Session where
  sid : String
  token : String
  userId : String
  room : String
deriving DecidableEq, Repr

/-- The exceptions that refuse a connection. -/
inductive Refusal where
  | IndexError
  | ConnectionRefusedError (message : String)
deriving DecidableEq, Repr

/-- `params.get("token", [None])[0]`, for the lists `parse_qs` made of the
    query string. -/
def queryToken (params : List (String × List String)) :
    Except Refusal (Option String) :=
  match params.lookup socketioQueryToken with
  | none => .ok none
  | some [] => .error .IndexError
  | some (token :: _) => .ok (some token)

/-- `connect`: the session, or the exception that refuses the connection. -/
def connect (users : List User) (sid : String)
    (params : List (String × List String)) : Except Refusal Session := do
  let token ← queryToken params
  let user := match token with
    | some t => if t = "" then none else usersByToken users t
    | none => none
  match token, user with
  | some t, some u => .ok ⟨sid, t, u.userId, room u.userId⟩
  | _, _ => .error (.ConnectionRefusedError ErrorMessages.invalidToken)

/-! ## Emits -/

/-- A payload whose values are all texts. -/
abbrev Payload := List (String × String)

/-- One `emit(event, payload, room)` and the sessions it reaches. -/
structure Emit where
  event : String
  room : String
  payload : Payload
  recipients : List Session
deriving DecidableEq, Repr

/-- `notify_job_update`: the sessions that entered the room get the event. -/
def notifyJobUpdate (sessions : List Session) (userId : String)
    (payload : Payload) : Emit where
  event := socketioEventJobUpdate
  room := room userId
  payload := payload
  recipients := sessions.filter (fun s => s.room == room userId)

/-- The payload `_on_mqtt_result` builds from the updated row. -/
def jobUpdate (updated : Job) : Payload :=
  [(fieldJobId, updated.id), (fieldState, updated.state),
    (fieldTimestamp, updated.updatedAt)]

/-- `_on_mqtt_result`, with the event loop running. -/
def onMqttResult (sessions : List Session) (updated : Job) : Emit :=
  notifyJobUpdate sessions updated.userId (jobUpdate updated)

/-! ## The server -/

/-- The service, the connected sessions and the emits so far. -/
structure Server where
  service : Service
  sessions : List Session
  emits : List Emit

def Server.empty : Server := ⟨Service.empty, [], []⟩

inductive ServerLabel where
  | service (l : Label)
  | connect (sid : String) (params : List (String × List String))

/-- The rows the handler called back with. -/
def callbacks (events : List Event) : List Job :=
  events.filterMap (fun e => match e with
    | .dispatch _ _ => none
    | .callback updated => some updated)

/-- One step of the server: a step of the service, whose callbacks are emitted
    to the sessions of the moment, or a connection. -/
def serverStep (cfg : Config) (users : List User) (srv : Server) :
    ServerLabel → Option Server
  | .service l =>
      match step cfg srv.service l with
      | none => none
      | some s' => some { srv with
          service := s'
          emits := srv.emits ++ (callbacks
            (s'.log.drop srv.service.log.length)).map (onMqttResult srv.sessions) }
  | .connect sid params =>
      match connect users sid params with
      | .ok session => some { srv with sessions := srv.sessions ++ [session] }
      | .error _ => some srv

/-- The rows whose state the last step persisted. -/
def persisted (srv srv' : Server) : List Job :=
  changed srv.service.jobs srv'.service.jobs

/-- The row the handler has updated and not called back with yet. -/
def pending (s : Service) : List Job :=
  match s.handler with
  | .reread jobId =>
      match jobId.bindText with
      | .ok id => (sqlFindByIdUnscoped s.jobs id).toList
      | .error _ => []
  | .notify updated => [updated]
  | _ => []

/-! ## What one step does to the stream -/

/-- A move of a call calls nobody back. -/
theorem CreateMove.callbacks {cfg : Config} {c : Call} {T T' : Table}
    {pc pc' : CreatePc} {ev : List Event}
    (h : CreateMove cfg c T pc pc' T' ev) : JobNotifier.callbacks ev = [] := by
  cases h with
  | publish job =>
      rw [publishDispatch_events]
      rfl
  | _ => rfl

/-- A move of a call changes no row that is there. -/
theorem CreateMove.changed {cfg : Config} {c : Call} {T T' : Table}
    {pc pc' : CreatePc} {ev : List Event}
    (h : CreateMove cfg c T pc pc' T' ev) :
    ∃ new, T' = T ++ new ∧ KeyedTable.changed T T' = [] := by
  by_cases hT : T' = T
  · rw [hT]
    exact ⟨[], (List.append_nil T).symm, changed_self T⟩
  · obtain ⟨job, -, -, rfl, -⟩ := CreateMove.admits h hT
    exact ⟨[job], rfl, changed_append T [job]⟩

/-- What the handler has still to call back with does not depend on rows that
    are added. -/
theorem pending_append {s : Service} (hok : HandlerOk s.jobs s.handler)
    (new : Table) (calls : List (Call × CreatePc)) (log : List Event) :
    pending { s with jobs := s.jobs ++ new, calls := calls, log := log }
      = pending s := by
  rw [pending, pending]
  generalize s.handler = pc at hok
  cases pc with
  | reread jobId =>
      obtain ⟨id, r, hid, hr, hrid⟩ := hok
      cases hf : sqlFindByIdUnscoped s.jobs (some id) with
      | none =>
          exact absurd (decide_eq_true hrid) (List.find?_eq_none.mp hf r hr)
      | some r' =>
          have hf' : sqlFindByIdUnscoped (s.jobs ++ new) (some id) = some r' :=
            find?_append_of_some hf
          simp only [hid, hf, hf']
  | _ => rfl

/-- An edge leads to another state. -/
theorem allowed_ne {a b : JobState} (h : Allowed a b) : a ≠ b := by
  revert h
  cases a <;> cases b <;> decide

/-- The update of the handler changes exactly the row it names, and the
    re-read sees it as it was written. -/
theorem stored_changed {T T' : Table} {jobId newState errorMsg : Json}
    {now : Datetime} (hids : (T.map Job.id).Nodup)
    (hok : HandlerOk T (.update jobId newState errorMsg now))
    (h : (storeState noFaults jobId newState errorMsg now).onTable T
      = (.ok (), T')) :
    ∃ id r', jobId.bindText = .ok (some id) ∧ changed T T' = [r']
      ∧ sqlFindByIdUnscoped T' (some id) = some r' := by
  obtain ⟨-, id, st, err, hid, hst, -, rfl⟩ := store_ledger hids hok h
  obtain ⟨id', a, b, r, hid', hnew, hab, hr, hrid, hstate⟩ := hok
  rw [hid, Except.ok.injEq, Option.some.injEq] at hid'
  rw [hnew, bindText_str, Except.ok.injEq, Option.some.injEq] at hst
  have hne : r.setState st err now.strftime ≠ r := by
    intro heq
    have hst' : st = r.state := congrArg Job.state heq
    rw [← hst, hstate] at hst'
    exact allowed_ne hab (value_injective hst'.symm)
  have hrid' : r.id = id := hrid.trans hid'.symm
  refine ⟨id, r.setState st err now.strftime, hid, ?_, ?_⟩
  · have hchanged := changed_updateWhere
      (f := fun r => r.setState st err now.strftime) hids hr hne
    rw [hrid'] at hchanged
    exact hchanged
  · rw [sqlFindByIdUnscoped_setState, ← hrid', sqlFindByIdUnscoped_of_mem hids hr,
      Option.map_some, if_pos (beq_self_eq_true r.id)]

/-- A move of the handler passes its one change from the table on to the
    callback. -/
theorem HandlerMove.stream {s : Service} {T' : Table} {pc' : HandlerPc}
    {ev log : List Event} (hids : (s.jobs.map Job.id).Nodup)
    (hok : HandlerOk s.jobs s.handler)
    (h : HandlerMove s.jobs s.handler pc' T' ev) :
    pending s ++ changed s.jobs T'
      = callbacks ev ++ pending { s with jobs := T', handler := pc', log := log } := by
  rw [pending, pending]
  generalize s.handler = pc at hok h
  cases h with
  | stored jobId newState errorMsg now T' stored =>
      obtain ⟨id, r', hid, hchanged, hf⟩ := stored_changed hids hok stored
      simp only [hid, hf, hchanged]
      rfl
  | storeRaised jobId newState errorMsg now e T' stored =>
      rw [(store_raised hok stored).1, changed_self]
      rfl
  | rereadRaised jobId e bound =>
      obtain ⟨id, r, hid, -, -⟩ := hok
      rw [hid] at bound
      cases bound
  | gone jobId id bound found =>
      obtain ⟨id', r, hid, hr, hrid⟩ := hok
      rw [hid, Except.ok.injEq] at bound
      rw [← bound] at found
      exact absurd (decide_eq_true hrid) (List.find?_eq_none.mp found r hr)
  | reread jobId id updated bound found =>
      simp only [bound, found, changed_self]
      rfl
  | notify updated =>
      rw [changed_self]
      rfl

/-- The handler only ever calls back with the row it has re-read. -/
theorem HandlerMove.callbacks {T T' : Table} {pc pc' : HandlerPc}
    {ev : List Event} (h : HandlerMove T pc pc' T' ev) :
    ∀ r ∈ JobNotifier.callbacks ev, pc = .notify r := by
  intro r hr
  cases h with
  | notify updated =>
      rw [List.mem_singleton.mp hr]
  | _ => cases hr

/-- A handler that has just got a message has persisted nothing. -/
theorem pending_receive (s : Service) (msg : Delivered) (now : Datetime) :
    pending { s with handler := receive s.jobs msg now } = [] := by
  rw [pending, receive]
  cases readMessage s.jobs msg with
  | ignored why => rfl
  | raised e => rfl
  | proceed jobId newState errorMsg => rfl

/-- **One step of the service**: what is pending and what the step persists is
    what it calls back with and what is pending after it. -/
theorem stream_step {cfg : Config} {s s' : Service} {l : Label}
    (hs : ServiceOk cfg s) (h : step cfg s l = some s') :
    ∃ ev, s'.log = s.log ++ ev
      ∧ pending s ++ changed s.jobs s'.jobs = callbacks ev ++ pending s'
      ∧ ∀ r ∈ callbacks ev, l = .handler ∧ s.handler = .notify r := by
  cases step_move h with
  | submit c =>
      refine ⟨[], (List.append_nil _).symm, ?_, fun r hr => absurd hr List.not_mem_nil⟩
      rw [changed_self, List.append_nil]
      rfl
  | call i c pc pc' T' ev here move =>
      obtain ⟨new, rfl, hchanged⟩ := CreateMove.changed move
      have hnone := CreateMove.callbacks move
      refine ⟨ev, rfl, ?_, ?_⟩
      · rw [hchanged, List.append_nil, hnone, List.nil_append]
        exact (pending_append hs.handler new _ _).symm
      · rw [hnone]
        exact fun r hr => absurd hr List.not_mem_nil
  | deliver msg now idle =>
      refine ⟨[], (List.append_nil _).symm, ?_, fun r hr => absurd hr List.not_mem_nil⟩
      rw [changed_self, pending_receive, pending, idle]
      rfl
  | handler pc' T' ev move =>
      exact ⟨ev, rfl, HandlerMove.stream hs.ids hs.handler move,
        fun r hr => ⟨rfl, HandlerMove.callbacks move r hr⟩⟩

/-! ## What one step does to the server -/

/-- The moves of the server. -/
inductive ServerMove (cfg : Config) (users : List User) (srv : Server) :
    ServerLabel → Server → Prop where
  | service (l : Label) (s' : Service) (ev : List Event)
      (move : step cfg srv.service l = some s')
      (log : s'.log = srv.service.log ++ ev) :
      ServerMove cfg users srv (.service l)
        { srv with
          service := s'
          emits := srv.emits ++ (callbacks ev).map (onMqttResult srv.sessions) }
  | connected (sid : String) (params : List (String × List String))
      (session : Session) (known : connect users sid params = .ok session) :
      ServerMove cfg users srv (.connect sid params)
        { srv with sessions := srv.sessions ++ [session] }
  | refused (sid : String) (params : List (String × List String)) (e : Refusal)
      (unknown : connect users sid params = .error e) :
      ServerMove cfg users srv (.connect sid params) srv

/-- Every step of the server is one of the moves. -/
theorem serverStep_move {cfg : Config} {users : List User}
    {srv srv' : Server} {l : ServerLabel} (hs : ServiceOk cfg srv.service)
    (h : serverStep cfg users srv l = some srv') :
    ServerMove cfg users srv l srv' := by
  cases l with
  | service l =>
      cases hst : step cfg srv.service l with
      | none => simp [serverStep, hst] at h
      | some s' =>
          obtain ⟨ev, hlog, -, -⟩ := stream_step hs hst
          simp only [serverStep, hst, Option.some.injEq] at h
          rw [hlog, List.drop_left] at h
          rw [← h]
          exact .service l s' ev hst hlog
  | connect sid params =>
      cases hc : connect users sid params with
      | ok session =>
          simp only [serverStep, hc, Option.some.injEq] at h
          rw [← h]
          exact .connected sid params session hc
      | error e =>
          simp only [serverStep, hc, Option.some.injEq] at h
          rw [← h]
          exact .refused sid params e hc

/-- The service inside the server takes a step of its own, or none. -/
theorem serverStep_service {cfg : Config} {users : List User}
    {srv srv' : Server} {l : ServerLabel} (hs : ServiceOk cfg srv.service)
    (h : serverStep cfg users srv l = some srv') :
    (∃ l', l = .service l' ∧ step cfg srv.service l' = some srv'.service)
      ∨ srv'.service = srv.service := by
  cases serverStep_move hs h with
  | service l s' ev move log => exact Or.inl ⟨l, rfl, move⟩
  | connected sid params session known => exact Or.inr rfl
  | refused sid params e unknown => exact Or.inr rfl

/-- Every step keeps the invariant of the service. -/
theorem serverOk_step {cfg : Config} {users : List User}
    {srv srv' : Server} {l : ServerLabel} (hs : ServiceOk cfg srv.service)
    (h : serverStep cfg users srv l = some srv') :
    ServiceOk cfg srv'.service := by
  rcases serverStep_service hs h with ⟨l', -, hst⟩ | heq
  · exact serviceOk_step hs hst
  · rw [heq]
    exact hs

/-! ## The stream of emits -/

/-- The emit is a `job_update` for a row: its id, state and `updated_at`, and
    nothing else, to the room of its user. -/
structure Announces (r : Job) (e : Emit) : Prop where
  event : e.event = "job_update"
  room : e.room = "user:" ++ r.userId
  fields : e.payload.map Prod.fst = ["job_id", "state", "timestamp"]
  jobId : e.payload.lookup "job_id" = some r.id
  state : e.payload.lookup "state" = some r.state
  timestamp : e.payload.lookup "timestamp" = some r.updatedAt

/-- A callback announces the row it is called back with. -/
theorem onMqttResult_announces (sessions : List Session) (updated : Job) :
    Announces updated (onMqttResult sessions updated) :=
  ⟨rfl, rfl, rfl, rfl, rfl, rfl⟩

/-- The emits so far announce what was persisted so far, up to what the
    handler is about to announce. -/
structure Streamed (cfg : Config) (persistedRows : List Job) (srv : Server) :
    Prop where
  ok : ServiceOk cfg srv.service
  stream : ∃ announced, persistedRows = announced ++ pending srv.service
    ∧ List.Forall₂ Announces announced srv.emits

/-- What a step persists is announced by it or pending after it. -/
theorem streamed_step {cfg : Config} {users : List User}
    {rows : List Job} {srv srv' : Server} {l : ServerLabel}
    (hs : Streamed cfg rows srv) (h : serverStep cfg users srv l = some srv') :
    Streamed cfg (rows ++ persisted srv srv') srv' := by
  refine ⟨serverOk_step hs.ok h, ?_⟩
  obtain ⟨announced, rfl, hsaid⟩ := hs.stream
  cases serverStep_move hs.ok h with
  | service l s' ev move log =>
      obtain ⟨ev', hlog, hstream, -⟩ := stream_step hs.ok move
      have hev : ev = ev' := List.append_cancel_left (log.symm.trans hlog)
      rw [← hev] at hstream
      refine ⟨announced ++ callbacks ev, ?_, ?_⟩
      · rw [persisted, List.append_assoc, hstream, List.append_assoc]
      · refine List.rel_append hsaid ?_
        rw [List.forall₂_map_right_iff, List.forall₂_same]
        exact fun r _ => onMqttResult_announces srv.sessions r
  | connected sid params session known =>
      refine ⟨announced, ?_, hsaid⟩
      rw [persisted, changed_self, List.append_nil]
  | refused sid params e unknown =>
      refine ⟨announced, ?_, hsaid⟩
      rw [persisted, changed_self, List.append_nil]

/-! ## Who gets an emit -/

/-- Different users have different rooms. -/
theorem room_injective {a b : String} (h : room a = room b) : a = b := by
  have hlist := congrArg String.toList h
  rw [room, room, String.toList_append, String.toList_append] at hlist
  exact String.toList_inj.mp (List.append_cancel_left hlist)

/-- A session is in the room of the user its token belongs to. -/
def Authentic (users : List User) (session : Session) : Prop :=
  ∃ u, usersByToken users session.token = some u ∧ session.room = room u.userId

/-- Only a known token gets a session. -/
theorem connect_authentic {users : List User} {sid : String}
    {params : List (String × List String)} {session : Session}
    (h : connect users sid params = .ok session) : Authentic users session := by
  cases ht : queryToken params with
  | error e =>
      rw [connect, ht] at h
      cases h
  | ok token =>
      cases token with
      | none =>
          rw [connect, ht] at h
          cases h
      | some t =>
          by_cases hempty : t = ""
          · simp [connect, ht, hempty, bind, Except.bind] at h
          · cases hu : usersByToken users t with
            | none => simp [connect, ht, hempty, hu, bind, Except.bind] at h
            | some u =>
                simp only [connect, ht, hempty, hu, bind, Except.bind,
                  if_false, Except.ok.injEq] at h
                rw [← h]
                exact ⟨u, hu, rfl⟩

/-- An emit names a row of the table, and whoever got it is its owner. -/
def ReachesOwner (users : List User) (T : Table) (e : Emit) : Prop :=
  ∃ r ∈ T, e.payload.lookup fieldJobId = some r.id ∧ e.room = room r.userId
    ∧ ∀ session ∈ e.recipients,
        ∃ u, usersByToken users session.token = some u ∧ u.userId = r.userId

/-- Rows keep their owners, so an emit that reached the owner alone still has. -/
theorem ReachesOwner.evolves {users : List User} {T T' : Table} {e : Emit}
    (hT : Evolves SameJob T T') (h : ReachesOwner users T e) :
    ReachesOwner users T' e := by
  obtain ⟨r, hr, hid, hroom, hgot⟩ := h
  obtain ⟨r', hr', hsame⟩ := hT.mem hr
  have huser : r'.userId = r.userId := congrArg Prod.fst hsame.key
  refine ⟨r', hr', ?_, ?_, ?_⟩
  · rw [hsame.id]
    exact hid
  · rw [huser]
    exact hroom
  · rw [huser]
    exact hgot

/-- An emit for a row reaches its owner's sessions only. -/
theorem onMqttResult_reachesOwner {users : List User} {T : Table}
    {sessions : List Session} {updated : Job}
    (hsessions : ∀ session ∈ sessions, Authentic users session)
    (hrow : ∃ r ∈ T, SameJob updated r) :
    ReachesOwner users T (onMqttResult sessions updated) := by
  obtain ⟨r, hr, hsame⟩ := hrow
  have huser : r.userId = updated.userId := congrArg Prod.fst hsame.key
  refine ⟨r, hr, ?_, ?_, ?_⟩
  · rw [hsame.id]
    rfl
  · rw [huser]
    rfl
  · intro session hsession
    obtain ⟨hmem, hroom⟩ := List.mem_filter.mp hsession
    obtain ⟨u, hu, hin⟩ := hsessions session hmem
    refine ⟨u, hu, ?_⟩
    rw [huser]
    exact room_injective (hin.symm.trans (eq_of_beq hroom))

/-- Sessions are authentic, and every emit reached the owner of its job. -/
structure Private (cfg : Config) (users : List User) (srv : Server) : Prop where
  ok : ServiceOk cfg srv.service
  sessions : ∀ session ∈ srv.sessions, Authentic users session
  emits : ∀ e ∈ srv.emits, ReachesOwner users srv.service.jobs e

/-- **Every step keeps notifications private.** -/
theorem private_step {cfg : Config} {users : List User} {srv srv' : Server}
    {l : ServerLabel} (hs : Private cfg users srv)
    (h : serverStep cfg users srv l = some srv') : Private cfg users srv' := by
  have hok := serverOk_step hs.ok h
  cases serverStep_move hs.ok h with
  | service l s' ev move log =>
      have hT : Evolves SameJob srv.service.jobs s'.jobs :=
        jobs_evolve hs.ok (exec_one.mpr move)
      refine ⟨hok, hs.sessions, ?_⟩
      intro e he
      rcases List.mem_append.mp he with hold | hnew
      · exact (hs.emits e hold).evolves hT
      · obtain ⟨updated, hup, rfl⟩ := List.mem_map.mp hnew
        obtain ⟨ev', hlog, -, hcalled⟩ := stream_step hs.ok move
        have hev : ev = ev' := List.append_cancel_left (log.symm.trans hlog)
        rw [hev] at hup
        have hhandler := hs.ok.handler
        rw [(hcalled updated hup).2] at hhandler
        exact onMqttResult_reachesOwner hs.sessions
          (exists_sameJob hT hhandler)
  | connected sid params session known =>
      refine ⟨hok, ?_, hs.emits⟩
      intro sess hsess
      rcases List.mem_append.mp hsess with hold | hnew
      · exact hs.sessions sess hold
      · rw [List.mem_singleton.mp hnew]
        exact connect_authentic known
  | refused sid params e unknown => exact hs

/-- **The notification stream is the transition history**: one for one and in
    the same order, the emits of a run announce the state changes its steps
    persisted — the last one possibly still to come, while the handler is
    between its update and its callback — and each went to the sessions of the
    job's owner only. -/
theorem notifications_exact {cfg : Config} {users : List User}
    {ls : List ServerLabel} {srv : Server}
    (h : exec (serverStep cfg users) Server.empty ls = some srv) :
    (∃ announced,
      outputs (serverStep cfg users) persisted Server.empty ls
          = announced ++ pending srv.service
        ∧ List.Forall₂ Announces announced srv.emits)
      ∧ (pending srv.service).length ≤ 1
      ∧ (srv.service.handler = .idle ∨ (∃ e, srv.service.handler = .dead e) →
          List.Forall₂ Announces
            (outputs (serverStep cfg users) persisted Server.empty ls) srv.emits)
      ∧ ∀ e ∈ srv.emits, ReachesOwner users srv.service.jobs e := by
  have hstream : Streamed cfg
      (outputs (serverStep cfg users) persisted Server.empty ls) srv := by
    refine exec_from_start (I := fun pre srv => Streamed cfg
      (outputs (serverStep cfg users) persisted Server.empty pre) srv) ?_
      ⟨serviceOk_empty cfg, [], rfl, List.Forall₂.nil⟩ h
    intro pre t l t' hrun hs hst
    rw [outputs_concat hrun hst]
    exact streamed_step hs hst
  have hprivate : Private cfg users srv := by
    refine exec_invariant (fun _ _ _ hs hst => private_step hs hst) ?_ h
    exact ⟨serviceOk_empty cfg, fun s hs => absurd hs List.not_mem_nil,
      fun e he => absurd he List.not_mem_nil⟩
  refine ⟨hstream.stream, ?_, ?_, hprivate.emits⟩
  · rw [pending]
    split
    · split
      · rw [Option.length_toList]
        split <;> omega
      · exact Nat.zero_le _
    · exact Nat.le_refl _
    · exact Nat.zero_le _
  · intro hquiet
    have hnone : pending srv.service = [] := by
      rcases hquiet with hidle | ⟨e, hdead⟩
      · rw [pending, hidle]
      · rw [pending, hdead]
    obtain ⟨announced, hrows, hsaid⟩ := hstream.stream
    rw [hrows, hnone, List.append_nil]
    exact hsaid

/-- The users of the shipped seed file. -/
def seedUsers : List User :=
  [⟨"user-001", "tok_alice_a1b2c3d4e5f6"⟩, ⟨"user-002", "tok_bob_b2c3d4e5f6a1"⟩,
    ⟨"user-003", "tok_carol_c3d4e5f6a1b2"⟩]

/-- Two users listen, a third is refused; the job of the first one runs. -/
def watched : List ServerLabel :=
  [.connect "sid-1" [("token", ["tok_alice_a1b2c3d4e5f6"])],
    .connect "sid-2" [("token", ["tok_bob_b2c3d4e5f6a1"])],
    .connect "sid-3" [("token", ["tok_mallory"])],
    .service (.submit (booking "user-001" "key-1" "job-1" "asset-001"
      (february 2 10) (february 2 12) .handed)),
    .service (.call 0), .service (.call 0), .service (.call 0),
    .service (.call 0),
    .service (.deliver (resultMessage "job-1" "RUNNING") (february 2 10)),
    .service .handler, .service .handler, .service .handler]

/-- What becomes of each emit, as a reader of the log sees it. -/
def seen (e : Emit) : String × List String × Payload :=
  (e.room, e.recipients.map Session.sid, e.payload)

/-- The owner's session alone is told, what was persisted. -/
theorem notifications_watched :
    ∃ srv, exec (serverStep seedConfig seedUsers) Server.empty watched = some srv
      ∧ srv.emits.map seen = [("user:user-001", ["sid-1"],
          [("job_id", "job-1"), ("state", "RUNNING"),
            ("timestamp", "2030-02-02T10:00:00.000Z")])]
      ∧ (∃ announced,
          outputs (serverStep seedConfig seedUsers) persisted Server.empty watched
              = announced ++ pending srv.service
            ∧ List.Forall₂ Announces announced srv.emits)
      ∧ ∀ e ∈ srv.emits, ReachesOwner seedUsers srv.service.jobs e := by
  obtain ⟨srv, h, hobs⟩ := Option.map_eq_some_iff.mp
    (show (exec (serverStep seedConfig seedUsers) Server.empty watched).map
        (fun srv => srv.emits.map seen)
      = some [("user:user-001", ["sid-1"],
          [("job_id", "job-1"), ("state", "RUNNING"),
            ("timestamp", "2030-02-02T10:00:00.000Z")])] by decide)
  exact ⟨srv, h, hobs, (notifications_exact h).1, (notifications_exact h).2.2.2⟩

end JobNotifier
