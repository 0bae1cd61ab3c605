import JobScheduling.JobObservers
import Mathlib.Data.List.Perm.Subperm

/-! # What sessions are told

    Every `job_update` comes from a state change that was persisted, and each
    of those is passed on once: from the table to the handler, from the handler
    to the event loop, and from there to the sessions, unless it gets lost on
    the way.  `told` is what has been passed on and how far; a step of the
    backend adds to it what the step persists, and nothing else
    (`told_subperm`).

    `updates_once`: no two updates tell the same news, no job is told about
    more than twice, and as long as no emit times out the news of a job come in
    the order of its life; the emits carry these news in their payloads. -/

namespace JobNews

open JobConstants JobClock JobModels JobRepository JobBroker JobOrchestrator
open JobService JobLedger JobLifecycle JobNotifier JobApi JobBackend
open JobObservers KeyedTable Runs Channels Histories

/-! ## What is passed on -/

/-- The row of an update. -/
def pushedRow : Seen → Option Job
  | .pushed _ updated _ => some updated
  | .answered _ _ _ => none

/-- The rows of the updates that were sent, in their order. -/
def updates (seen : List Seen) : List Job := seen.filterMap pushedRow

/-- The emit of an update. -/
def pushedEmit : Seen → Option Emit
  | .pushed _ _ emit => some emit
  | .answered _ _ _ => none

/-- The emits that were sent, in their order. -/
def emitted (seen : List Seen) : List Emit := seen.filterMap pushedEmit

/-- What tells two updates apart. -/
def news (r : Job) : String × String := (r.id, r.state)

/-- The rows on their way to the sessions: sent, with the event loop, and with
    the handler. -/
def told (b : Backend) : List Job :=
  updates b.seen
    ++ ((b.waiting.toList ++ b.late).map Scheduled.updated ++ pending b.service)

/-- Each emit announces the row of its update. -/
theorem updates_announced {seen : List Seen}
    (h : ∀ (since : Nat) (updated : Job) (emit : Emit),
      Seen.pushed since updated emit ∈ seen → Announces updated emit) :
    List.Forall₂ Announces (updates seen) (emitted seen) := by
  induction seen with
  | nil => exact List.Forall₂.nil
  | cons o seen ih =>
      have hrest := ih (fun since updated emit ho =>
        h since updated emit (List.mem_cons_of_mem o ho))
      cases o with
      | answered since request response => exact hrest
      | pushed since updated emit =>
          exact List.Forall₂.cons (h since updated emit (List.mem_cons_self ..)) hrest

/-- Updates of one stretch of time after another. -/
theorem updates_append (xs ys : List Seen) :
    updates (xs ++ ys) = updates xs ++ updates ys :=
  List.filterMap_append

@[simp] theorem updates_push (b : Backend) (e : Scheduled) :
    updates [b.push e] = [e.updated] := rfl

/-- A response is no update. -/
theorem updates_responseOf (posts : List (Nat × Request))
    (calls : List (Call × CreatePc)) (i : Nat) :
    updates (responseOf posts calls i) = [] := by
  rw [responseOf]
  split
  · rfl
  · rfl

/-- At most one row is scheduled, of those called back with. -/
theorem schedule_sublist (running : Bool) (n : Nat) (called : List Job) :
    ((schedule running n called).toList.map Scheduled.updated).Sublist called := by
  rw [schedule]
  split_ifs
  · cases called with
    | nil => exact List.Sublist.refl _
    | cons updated rest => exact (List.nil_sublist rest).cons_cons updated
  · exact List.nil_sublist called

/-- What a step of the service adds to the rows on their way, if it is none of
    the handler. -/
theorem pending_step {cfg : Config} {s s' : Service} {l : Label}
    (hs : ServiceOk cfg s) (hl : l ≠ .handler) (h : step cfg s l = some s') :
    pending s' = pending s ++ changed s.jobs s'.jobs := by
  obtain ⟨ev, -, hstream, hcalled⟩ := stream_step hs h
  have hnone : callbacks ev = [] := by
    cases hev : callbacks ev with
    | nil => rfl
    | cons r rest =>
        have hr : r ∈ callbacks ev := by
          rw [hev]
          exact List.mem_cons_self ..
        exact absurd (hcalled r hr).1 hl
  rw [hnone] at hstream
  exact hstream.symm

/-- The counts of the two sides of a step, when only the service moved. -/
theorem told_service {b : Backend} {s' : Service} (new : List Job)
    (h : pending s' = pending b.service ++ new) (os : List Seen)
    (hos : updates os = []) :
    (told { b with service := s', seen := b.seen ++ os }).Subperm
      (told b ++ new) := by
  have heq : told { b with service := s', seen := b.seen ++ os }
      = told b ++ new := by
    show updates (b.seen ++ os) ++ (_ ++ pending s') = _
    rw [updates_append, hos, List.append_nil, h, told]
    simp only [List.append_assoc]
  rw [heq]

/-- The handler passes on what it calls back with, or drops it. -/
theorem told_handler {cfg : Config} {b : Backend} {s' : Service}
    (hs : ServiceOk cfg b.service) (running : Bool) (n : Nat)
    (free : b.waiting = none) (h : step cfg b.service .handler = some s') :
    (told { b with
      service := s'
      waiting := schedule running n
        (callbacks (s'.log.drop b.service.log.length)) }).Subperm
      (told b ++ changed b.service.jobs s'.jobs) := by
  obtain ⟨ev, hlog, hstream, -⟩ := stream_step hs h
  rw [hlog, List.drop_left]
  have hsched := schedule_sublist running n (callbacks ev)
  -- an update is dropped where no event loop runs: at most, not exactly
  rw [List.subperm_iff_count]
  intro r
  have hcount := hsched.count_le r
  have hmoved := congrArg (List.count r) hstream
  simp only [told, free, Option.toList_none, List.nil_append, List.map_append,
    List.count_append] at hcount hmoved ⊢
  omega

/-- **One step** passes on what was on its way and what it persists. -/
theorem told_subperm {cfg : Config} {users : List User} {b b' : Backend}
    {l : BackendLabel} (hb : BackendOk cfg users b)
    (h : backendStep cfg users b l = some b') :
    (told b').Subperm (told b ++ changed b.service.jobs b'.service.jobs) := by
  cases backendStep_move h with
  | answered r w response reads =>
      refine told_service (changed b.service.jobs b.service.jobs) ?_ _ rfl
      rw [changed_self, List.append_nil]
  | posted r w c asked =>
      rw [changed_self, List.append_nil]
      exact List.Subperm.refl _
  | call i s' move =>
      exact told_service _
        (pending_step hb.ok (fun heq => by cases heq) move) _
        (updates_responseOf _ _ i)
  | deliver msg now s' free move =>
      have hstep := told_service _
        (pending_step hb.ok (fun heq => by cases heq) move) [] rfl
      rw [List.append_nil] at hstep
      exact hstep
  | handler running s' free move =>
      exact told_handler hb.ok running b.seen.length free move
  | sent e awaited =>
      rw [changed_self, List.subperm_iff_count]
      intro r
      simp only [told, awaited, updates_append, updates_push, Option.toList_none,
        Option.toList_some, List.map_append, List.map_cons, List.map_nil,
        List.count_append, List.count_nil]
      omega
  | raised e awaited =>
      rw [changed_self, List.subperm_iff_count]
      intro r
      simp only [told, awaited, Option.toList_none, Option.toList_some,
        List.map_append, List.map_cons, List.map_nil, List.count_append,
        List.count_nil]
      omega
  | timeout e awaited =>
      rw [changed_self, List.subperm_iff_count]
      intro r
      simp only [told, awaited, Option.toList_none, Option.toList_some,
        List.map_append, List.map_cons, List.map_nil, List.count_append,
        List.count_nil]
      omega
  | lateSent k e rest taken =>
      rw [changed_self, List.subperm_iff_count]
      intro r
      have hperm := ((take_perm taken).map Scheduled.updated).count_eq r
      simp only [told, updates_append, updates_push, List.map_append,
        List.map_cons, List.count_append, List.count_cons, List.count_nil]
        at hperm ⊢
      omega
  | lateLost k e rest taken =>
      rw [changed_self, List.subperm_iff_count]
      intro r
      have hperm := ((take_perm taken).map Scheduled.updated).count_eq r
      simp only [told, List.map_append, List.map_cons, List.count_append,
        List.count_cons, List.count_nil] at hperm ⊢
      omega
  | connected sid params session known =>
      rw [changed_self, List.append_nil]
      exact List.Subperm.refl _
  | refused sid params e unknown =>
      rw [changed_self, List.append_nil]
  | disconnected sid =>
      rw [changed_self, List.append_nil]
      exact List.Subperm.refl _

/-! ## No news twice -/

/-- A row that a step persisted: it stands in the table, one edge further than
    before. -/
theorem changed_moved {T T' : Table} (hT : Evolves Moves T T') {r' : Job}
    (hr' : r' ∈ changed T T') :
    r' ∈ T' ∧ ∃ r ∈ T, r'.id = r.id ∧ ∃ a c : JobState,
      r.state = a.value ∧ r'.state = c.value ∧ Allowed a c := by
  obtain ⟨i, r, hr, hi, hne⟩ := mem_changed hr'
  refine ⟨List.mem_of_getElem? hi, r, List.mem_of_getElem? hr, ?_⟩
  obtain ⟨r'', hr'', hmoves⟩ := hT i r hr
  rw [hi, Option.some.injEq] at hr''
  rw [← hr''] at hmoves
  rcases hmoves with heq | ⟨a, c, err, now, ha, hac, rfl⟩
  · exact absurd heq.symm hne
  · exact ⟨rfl, a, c, ha, rfl, hac⟩

/-- The rows on their way tell different news, each of a state some edge led
    to, and the table has them or later versions. -/
structure Told (b : Backend) : Prop where
  once : ((told b).map news).Nodup
  reached : ∀ r ∈ told b, ∃ a c : JobState, Allowed a c ∧ r.state = c.value
  stored : ∀ r ∈ told b, ∃ r' ∈ b.service.jobs, r'.id = r.id ∧ Became r r'

/-- What a step persists is news. -/
theorem news_changed {T T' : Table} (hids : (T.map Job.id).Nodup)
    (hT : Evolves Moves T T') {x r' : Job} (hr' : r' ∈ changed T T')
    (hx : ∃ r ∈ T, r.id = x.id ∧ Became x r) : news x ≠ news r' := by
  intro heq
  obtain ⟨hid, hstate⟩ := Prod.mk.inj heq
  obtain ⟨r, hr, hrx, hbecame⟩ := hx
  obtain ⟨-, r₀, hr₀, hid₀, a, c, ha, hc, hac⟩ := changed_moved hT hr'
  have hsame : r = r₀ :=
    List.inj_on_of_nodup_map hids hr hr₀ (hrx.trans (hid.trans hid₀))
  have hlt := depth_lt_of_allowed hac
  rcases Became.depth hbecame with hrefl | ⟨a₁, b₁, ha₁, hb₁, hdepth⟩
  · -- the row itself was left along an edge
    have hca : c = a := by
      refine value_injective (hc.symm.trans (hstate.symm.trans ?_))
      rw [← ha, ← hsame, hrefl]
    rw [hca] at hlt
    exact Nat.lt_irrefl _ hlt
  · have hb₁a : b₁ = a := by
      refine value_injective (hb₁.symm.trans ?_)
      rw [← ha, ← hsame]
    have ha₁c : a₁ = c :=
      value_injective (ha₁.symm.trans (hstate.trans hc))
    rw [hb₁a, ha₁c] at hdepth
    exact Nat.lt_asymm hlt hdepth

/-- Whatever step comes next, nothing is told twice. -/
theorem told_step {cfg : Config} {users : List User} {b b' : Backend}
    {l : BackendLabel} (hb : BackendOk cfg users b) (ht : Told b)
    (h : backendStep cfg users b l = some b') : Told b' := by
  have hmoves := backend_moves hb.ok h
  have hids' := (backendOk_step hb h).ok.ids
  obtain ⟨xs, hperm, hsub⟩ := told_subperm hb h
  have hmem : ∀ r ∈ told b', r ∈ told b
      ∨ r ∈ changed b.service.jobs b'.service.jobs :=
    fun r hr => List.mem_append.mp (hsub.subset (hperm.mem_iff.mpr hr))
  refine ⟨?_, ?_, ?_⟩
  · refine ((hperm.map news).nodup_iff).mp (List.Nodup.sublist (hsub.map news) ?_)
    rw [List.map_append]
    refine ht.once.append ?_ ?_
    · -- one step persists a row once
      have hchanged := hids'.sublist
        ((changed_sublist b.service.jobs b'.service.jobs).map Job.id)
      rw [show Job.id = Prod.fst ∘ news from rfl, ← List.map_map] at hchanged
      exact hchanged.of_map
    · -- and what it persists was not told before
      intro p hp hp'
      obtain ⟨x, hx, rfl⟩ := List.mem_map.mp hp
      obtain ⟨r', hr', heq⟩ := List.mem_map.mp hp'
      exact news_changed hb.ok.ids hmoves hr' (ht.stored x hx) heq.symm
  · intro r hr
    rcases hmem r hr with hold | hnew
    · exact ht.reached r hold
    · obtain ⟨-, -, -, -, a, c, -, hc, hac⟩ := changed_moved hmoves hnew
      exact ⟨a, c, hac, hc⟩
  · intro r hr
    rcases hmem r hr with hold | hnew
    · obtain ⟨r₀, hr₀, hid, hbecame⟩ := ht.stored r hold
      obtain ⟨r', hr', hmove⟩ := hmoves.mem hr₀
      exact ⟨r', hr', (Moves.sameJob hmove).id.trans hid, hbecame.tail hmove⟩
    · exact ⟨r, (changed_moved hmoves hnew).1, rfl, Relation.ReflTransGen.refl⟩

theorem told_run {cfg : Config} {users : List User} {ls : List BackendLabel}
    {b : Backend} (h : exec (backendStep cfg users) Backend.empty ls = some b) :
    Told b := by
  have hinv : BackendOk cfg users b ∧ Told b := by
    refine exec_invariant (I := fun b => BackendOk cfg users b ∧ Told b) ?_
      ⟨backendOk_empty cfg users, List.nodup_nil, ?_, ?_⟩ h
    · exact fun _ _ _ hb hst => ⟨backendOk_step hb.1 hst, told_step hb.1 hb.2 hst⟩
    · exact fun r hr => absurd hr List.not_mem_nil
    · exact fun r hr => absurd hr List.not_mem_nil
  exact hinv.2

/-- Two updates of a job that are equally deep in the state machine are of the
    same state. -/
theorem Told.depth_injective {b : Backend} (ht : Told b)
    (hids : (b.service.jobs.map Job.id).Nodup) {x y : Job} (hx : x ∈ told b)
    (hy : y ∈ told b) (hid : x.id = y.id) {a c : JobState}
    (ha : x.state = a.value) (hc : y.state = c.value) (hac : depth a = depth c) :
    a = c := by
  obtain ⟨rx, hrx, hidx, hbx⟩ := ht.stored x hx
  obtain ⟨ry, hry, hidy, hby⟩ := ht.stored y hy
  have hrow : ry = rx :=
    List.inj_on_of_nodup_map hids hry hrx (hidy.trans (hid.symm.trans hidx.symm))
  rw [hrow] at hby
  have hself : ∀ {r : Job} {s : JobState}, r.state = s.value → Became r rx →
      rx.state = s.value ∨ ∃ d : JobState, rx.state = d.value ∧ depth d < depth s := by
    intro r s hs hr
    rcases Became.depth hr with heq | ⟨s', d, hs', hd, hlt⟩
    · exact Or.inl (by rw [heq, hs])
    · have hss : s' = s := value_injective (hs'.symm.trans hs)
      rw [hss] at hlt
      exact Or.inr ⟨d, hd, hlt⟩
  obtain ⟨p, q, hpq, hp⟩ := ht.reached x hx
  have hpa : q = a := value_injective (hp.symm.trans ha)
  obtain ⟨p', q', hpq', hp'⟩ := ht.reached y hy
  have hpc : q' = c := value_injective (hp'.symm.trans hc)
  rcases hself ha hbx with hax | ⟨d, hd, hlt⟩
  · rcases hself hc hby with hcx | ⟨d', hd', hlt'⟩
    · exact value_injective (hax.symm.trans hcx)
    · have hda : d' = a := value_injective (hd'.symm.trans hax)
      rw [hda] at hlt'
      omega
  · -- the row has left this state, so it was not a terminal one
    have hafter : ∀ s : JobState, 0 < depth s → (∃ p, Allowed p s) →
        s = .running := by
      rintro s hs ⟨p, hps⟩
      revert hs hps
      cases p <;> cases s <;> decide
    have ha' : a = .running := hafter a (by omega) ⟨p, hpa ▸ hpq⟩
    have hc' : c = .running := hafter c (by omega) ⟨p', hpc ▸ hpq'⟩
    rw [ha', hc']

/-- How often the state of a row can still be left. -/
def depthOf (r : Job) : Nat :=
  match JobState.ofValue (.str r.state) with
  | some st => depth st
  | none => 0

theorem depthOf_value {r : Job} {a : JobState} (h : r.state = a.value) :
    depthOf r = depth a := by
  rw [depthOf, h, ofValue_value]

/-- Updates of one job with different news are two at most. -/
theorem news_length {b : Backend} (ht : Told b)
    (hids : (b.service.jobs.map Job.id).Nodup) {rows : List Job} {id : String}
    (hrows : ∀ r ∈ rows, r ∈ told b) (hid : ∀ r ∈ rows, r.id = id)
    (honce : (rows.map news).Nodup) : rows.length ≤ 2 := by
  have hnodup : (rows.map depthOf).Nodup := by
    refine List.pairwise_map.mpr ((List.pairwise_map.mp honce).imp_of_mem ?_)
    intro x y hx hy hne heq
    obtain ⟨-, a, -, ha⟩ := ht.reached x (hrows x hx)
    obtain ⟨-, c, -, hc⟩ := ht.reached y (hrows y hy)
    have hxy : x.id = y.id := (hid x hx).trans (hid y hy).symm
    have hac : depth a = depth c := by
      rw [depthOf_value ha, depthOf_value hc] at heq
      exact heq
    have hsame := ht.depth_injective hids (hrows x hx) (hrows y hy) hxy ha hc hac
    refine hne (Prod.ext hxy ?_)
    show x.state = y.state
    rw [ha, hc, hsame]
  -- PENDING is never told: no edge leads to it
  have hsub : rows.map depthOf ⊆ [0, 1] := by
    intro n hn
    obtain ⟨r, hr, rfl⟩ := List.mem_map.mp hn
    obtain ⟨a, c, hac, hc⟩ := ht.reached r (hrows r hr)
    rw [depthOf_value hc]
    have hlt := depth_lt_of_allowed hac
    have htop : depth a ≤ 2 := by cases a <;> decide
    have hcases : depth c = 0 ∨ depth c = 1 := by omega
    rcases hcases with h0 | h1
    · rw [h0]
      exact List.mem_cons_self ..
    · rw [h1]
      exact List.mem_cons_of_mem _ (List.mem_singleton_self 1)
  have hlen := (List.subperm_of_subset hnodup hsub).length_le
  rw [List.length_map] at hlen
  exact hlen

/-! ## In order -/

/-- No emit is late, and each update was scheduled after the one before it was
    sent. -/
structure OnTime (b : Backend) : Prop where
  late : b.late = []
  waits : ∀ e, b.waiting = some e → ∀ (i : Nat) (o : Seen) (r : Job),
    b.seen[i]? = some o → pushedRow o = some r → i < e.since
  order : ∀ (i j : Nat) (o o' : Seen) (r r' : Job), i < j →
    b.seen[i]? = some o → b.seen[j]? = some o' →
    pushedRow o = some r → pushedRow o' = some r' → i < o'.since

/-- Something is shown that is no update. -/
theorem OnTime.append {b : Backend} (ht : OnTime b) (os : List Seen)
    (hos : ∀ o ∈ os, pushedRow o = none) : OnTime { b with seen := b.seen ++ os } := by
  have hold : ∀ {i : Nat} {o : Seen} {r : Job}, (b.seen ++ os)[i]? = some o →
      pushedRow o = some r → b.seen[i]? = some o := by
    intro i o r ho hr
    by_cases hi : i < b.seen.length
    · rw [List.getElem?_append_left hi] at ho
      exact ho
    · rw [List.getElem?_append_right (Nat.le_of_not_lt hi)] at ho
      rw [hos o (List.mem_of_getElem? ho)] at hr
      cases hr
  refine ⟨ht.late, ?_, ?_⟩
  · exact fun e he i o r ho hr => ht.waits e he i o r (hold ho hr) hr
  · exact fun i j o o' r r' hij ho ho' hr hr' =>
      ht.order i j o o' r r' hij (hold ho hr) (hold ho' hr') hr hr'

/-- The emit the handler waits for is sent. -/
theorem OnTime.sent {b : Backend} (ht : OnTime b) {e : Scheduled}
    (awaited : b.waiting = some e) :
    OnTime { b with waiting := none, seen := b.seen ++ [b.push e] } := by
  refine ⟨ht.late, (fun e he => by cases he), ?_⟩
  intro i j o o' r r' hij ho ho' hr hr'
  rcases getElem?_concat_some ho' with ⟨hj, hold'⟩ | ⟨hj, rfl⟩
  · have hi : i < b.seen.length := Nat.lt_trans hij hj
    have hold : b.seen[i]? = some o := by
      rw [← List.getElem?_append_left hi]
      exact ho
    exact ht.order i j o o' r r' hij hold hold' hr hr'
  · -- it was scheduled after everything that was sent before
    have hold : b.seen[i]? = some o := by
      rw [← List.getElem?_append_left (by omega)]
      exact ho
    exact ht.waits e awaited i o r hold hr

/-- As long as no emit times out, the next step keeps the updates in order. -/
theorem onTime_step {cfg : Config} {users : List User} {b b' : Backend}
    {l : BackendLabel} (ht : OnTime b) (hl : l ≠ .emit .timeout)
    (h : backendStep cfg users b l = some b') : OnTime b' := by
  cases backendStep_move h with
  | answered r w response reads =>
      refine ht.append _ ?_
      intro o ho
      rw [List.mem_singleton.mp ho]
      rfl
  | posted r w c asked => exact ⟨ht.late, ht.waits, ht.order⟩
  | call i s' move =>
      have happ := ht.append (responseOf b.posts s'.calls i) ?_
      · exact ⟨happ.late, happ.waits, happ.order⟩
      · intro o ho
        cases hr : pushedRow o with
        | none => rfl
        | some r =>
            have hmem : r ∈ updates (responseOf b.posts s'.calls i) :=
              List.mem_filterMap.mpr ⟨o, ho, hr⟩
            rw [updates_responseOf] at hmem
            cases hmem
  | deliver msg now s' free move => exact ⟨ht.late, ht.waits, ht.order⟩
  | handler running s' free move =>
      refine ⟨ht.late, ?_, ht.order⟩
      intro e he i o r ho hr
      have hmem : e ∈ (schedule running b.seen.length
          (callbacks (s'.log.drop b.service.log.length))).toList := by
        rw [show schedule running b.seen.length _ = some e from he]
        exact List.mem_singleton_self e
      rw [(schedule_mem hmem).1]
      exact (List.getElem?_eq_some_iff.mp ho).1
  | sent e awaited => exact ht.sent awaited
  | raised e awaited => exact ⟨ht.late, (fun e he => by cases he), ht.order⟩
  | timeout e awaited => exact absurd rfl hl
  | lateSent k e rest taken =>
      rw [ht.late] at taken
      cases taken
  | lateLost k e rest taken =>
      rw [ht.late] at taken
      cases taken
  | connected sid params session known => exact ⟨ht.late, ht.waits, ht.order⟩
  | refused sid params e unknown => exact ht
  | disconnected sid => exact ⟨ht.late, ht.waits, ht.order⟩

/-- One update of a job, and a later one. -/
def Further (r r' : Job) : Prop :=
  r.id = r'.id → Relation.TransGen Edge r.state r'.state

/-- Without timeouts, updates of a job show later and later versions. -/
theorem OnTime.further {cfg : Config} {users : List User} {b : Backend}
    (ht : OnTime b) (hb : Witnessed cfg users b) (hold : Told b) :
    (updates b.seen).Pairwise Further := by
  have honce : (updates b.seen).Pairwise (fun r r' => news r ≠ news r') := by
    have hsub : ((updates b.seen).map news).Sublist ((told b).map news) :=
      (List.sublist_append_left _ _).map news
    exact List.pairwise_map.mp (hold.once.sublist hsub)
  have hlater : (updates b.seen).Pairwise
      (fun r r' => r.id = r'.id → Became r r') := by
    rw [updates, List.pairwise_filterMap, List.pairwise_iff_getElem]
    intro i j hi hj hij r hr r' hr' hid
    have ho := List.getElem?_eq_getElem hi
    have ho' := List.getElem?_eq_getElem hj
    have hshow : ∀ {o : Seen} {x : Job}, pushedRow o = some x → x ∈ o.shows := by
      intro o x hx
      cases o with
      | answered since request response => cases hx
      | pushed since updated emit =>
          rw [← Option.some.inj hx]
          exact List.mem_singleton_self _
    exact hb.coherent.advancing i j _ _ ho ho'
      (ht.order i j _ _ r r' hij ho ho' hr hr') r (hshow hr) r' (hshow hr') hid
  refine (hlater.and honce).imp ?_
  rintro r r' ⟨hbecame, hnews⟩ hid
  rcases Relation.reflTransGen_iff_eq_or_transGen.mp
    (Became.states (hbecame hid)) with heq | htrans
  · exact absurd (Prod.ext hid heq.symm) hnews
  · exact htrans

/-- **Updates come once**: whatever is lost or late, no two `job_update`s of a
    run tell the same news and no job has more than two; and if no emit times
    out, those of a job come in the order of its life.  The news are those of
    the payloads. -/
theorem updates_once {cfg : Config} {users : List User}
    {ls : List BackendLabel} {b : Backend}
    (h : exec (backendStep cfg users) Backend.empty ls = some b) :
    ((updates b.seen).map news).Nodup
      ∧ (∀ id, ((updates b.seen).filter (fun r => r.id == id)).length ≤ 2)
      ∧ ((∀ l ∈ ls, l ≠ .emit .timeout) →
          (updates b.seen).Pairwise Further)
      ∧ List.Forall₂ Announces (updates b.seen) (emitted b.seen) := by
  have ht := told_run h
  have hb := witnessed_run h
  have hsub : (updates b.seen).Sublist (told b) := List.sublist_append_left _ _
  have honce : ((updates b.seen).map news).Nodup :=
    ht.once.sublist (hsub.map news)
  have hannounced := updates_announced
    (fun since updated emit ho => (hb.confined (.pushed since updated emit) ho).1)
  refine ⟨honce, ?_, ?_, hannounced⟩
  · intro id
    exact news_length ht hb.ok.ok.ids
      (fun r hr => hsub.subset (List.mem_filter.mp hr).1)
      (fun r hr => eq_of_beq (List.mem_filter.mp hr).2)
      (honce.sublist (List.filter_sublist.map news))
  · intro hl
    have hon : OnTime b :=
      exec_invariant_of (P := fun l => l ≠ .emit .timeout)
        (fun _ _ _ ht hl hst => onTime_step ht hl hst) hl
        ⟨rfl, (fun e he => by cases he),
          (fun i j o o' r r' hij ho => by cases ho)⟩ h
    exact hon.further hb ht

/-- The emit of RUNNING times out, and happens after that of COMPLETED. -/
def delayed : List BackendLabel :=
  [.connect "sid-1" [("token", ["tok_alice_a1b2c3d4e5f6"])],
    .request (.createJob alice (some "k1") twoHours) (morning "job-1"),
    .call 0, .call 0, .call 0, .call 0,
    .deliver (resultMessage "job-1" "RUNNING") (february 2 10),
    .handler true, .handler true, .handler true, .emit .timeout,
    .deliver (resultMessage "job-1" "COMPLETED") (february 2 12),
    .handler true, .handler true, .handler true, .emit .sent,
    .lateEmit 0 true]

/-- With a timeout the two updates change places; without one they are in order. -/
theorem updates_once_delayed :
    ∃ b b', exec (backendStep seedConfig seedUsers) Backend.empty delayed = some b
      ∧ exec (backendStep seedConfig seedUsers) Backend.empty prying = some b'
      ∧ (updates b.seen).map Job.state = ["COMPLETED", "RUNNING"]
      ∧ (updates b'.seen).map Job.state = ["RUNNING", "COMPLETED"]
      ∧ ((updates b.seen).map news).Nodup
      ∧ (updates b'.seen).Pairwise Further
      ∧ List.Forall₂ Announces (updates b'.seen) (emitted b'.seen) := by
  obtain ⟨b, h, hobs⟩ := Option.map_eq_some_iff.mp
    (show (exec (backendStep seedConfig seedUsers) Backend.empty delayed).map
        (fun b => (updates b.seen).map Job.state)
      = some ["COMPLETED", "RUNNING"] by decide +kernel)
  obtain ⟨b', h', hobs'⟩ := Option.map_eq_some_iff.mp
    (show (exec (backendStep seedConfig seedUsers) Backend.empty prying).map
        (fun b => (updates b.seen).map Job.state)
      = some ["RUNNING", "COMPLETED"] by decide +kernel)
  refine ⟨b, b', h, h', hobs, hobs', (updates_once h).1,
    (updates_once h').2.2.1 ?_, (updates_once h').2.2.2⟩
  intro l hl heq
  rw [heq] at hl
  simp [prying, overtaken] at hl

end JobNews
