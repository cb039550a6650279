/-
Whether a completion is genuine activity is said by its ids.

The prompt hook forwards the ids of a notification's envelope unless
the text mentions the wake marker, and the daemon looks them up in the
spawn registry. Here that is followed from the text to the pause: the
handler's program takes a prompt for genuine exactly as the lookup and,
where nothing matched, the grace window said (`staging`), whatever runs
in between. So the payload has no say just when it does not mention the
marker and leaves the envelope's ids alone
(`completion_treated_by_ids_iff`).
-/
import Autofork.Proofs.Envelope
import Autofork.Proofs.Recognised

namespace Autofork

open Lib

-- ============================================================ the stages

/-- How far the handler of a prompt with ids has come. -/
inductive Stage
  | unread
  | matched
  /-- Nothing matched, as looked up at `t`. -/
  | unmatched (t : Int)
  | recent
  | genuine
  | recorded

/-- The stages a handler of session `a` goes through. -/
def staging (a : String) : Prog.Typestate Op Op.Res Stage where
  ok m
    | .write (.classify ..) => m = .unread
    | .recentlyWoke sessionId t => sessionId = a ∧ ∀ t', m = .unmatched t' → t' = t
    | .write (.prompt _ waking _) => (m = .matched ∧ waking = false)
        ∨ m = .recent ∨ (m = .genuine ∧ waking = true)
    | _ => True
  next m
    | .write (.classify _ t), matched =>
        if (matched : Bool) then .matched else .unmatched t
    | .recentlyWoke .., recent => match m with
        | .unmatched _ => if (recent : Bool) then .recent else .genuine
        | m => m
    | .write (.prompt ..), _ => .recorded
    | _, _ => m

/-- Reading the transcript is no stage of its own. -/
private theorem ingestTranscript_staged (a : String) (ev : Event) (m : Stage) :
    (ingestTranscript ev).Typed (staging a) (fun m' _ => m' = m) m := by
  unfold ingestTranscript
  split
  · rfl
  · refine ⟨trivial, fun session _ => ?_⟩
    cases session with
    | none => rfl
    | some session =>
        refine ⟨trivial, fun delta _ => ?_⟩
        cases delta with
        | none => rfl
        | some delta => exact ⟨trivial, fun t _ => ⟨trivial, fun _ _ => rfl⟩⟩

/-- A handler of a prompt with ids goes through the stages. -/
theorem handleEvent_staged {ev : Event} (hev : ev.event = .promptSubmit)
    (hids : ev.notifToolUseId.isSome = true) :
    (handleEvent ev).Typed (staging ev.sessionId) (fun _ _ => True) .unread := by
  have hclassify : ∀ t, (classifyPrompt ev t).Typed (staging ev.sessionId)
      (fun m waking => (m = .matched ∧ waking = false) ∨ m = .recent
        ∨ (m = .genuine ∧ waking = true)) .unread := by
    intro t
    unfold classifyPrompt
    rw [if_pos (by rw [hids]; rfl)]
    refine (ingestTranscript_staged _ ev _).bind fun m _ hm => ?_
    rw [hm]
    refine ⟨rfl, fun matched _ => ?_⟩
    cases matched with
    | true => exact .inl ⟨rfl, rfl⟩
    | false =>
        refine ⟨⟨rfl, fun t' ht => (Stage.unmatched.inj ht).symm⟩, fun recent _ => ?_⟩
        cases recent with
        | true => exact .inr (.inl rfl)
        | false => exact .inr (.inr ⟨rfl, rfl⟩)
  refine ⟨trivial, fun _ _ => ⟨trivial, fun t _ => ?_⟩⟩
  rw [hev]
  refine (hclassify t).bind fun m waking hwaking => ?_
  exact ⟨hwaking, fun _ _ => ⟨trivial, fun _ _ => trivial⟩⟩

-- ======================================================== among the others

/-- The session was sent a wake a moment ago. -/
def Daemon.recentlyWoke (d : Daemon) (sessionId : String) (t : Int) : Bool :=
  (d.wakeIssuedAt sessionId).any fun at_ =>
    decide (wrapI64 (t - at_) < d.wakeGraceSecs)

section staged

variable {ev : Event} {k : Nat} {S : Stage → Prop}

/-- If task `k` is a handler of `ev`, it is at one of these stages. -/
def StagedIn (S : Stage → Prop) (ev : Event) (k : Nat) (w : World) : Prop :=
  ∀ task, w.tasks k = some task → task.job = .request (.event ev) →
    ∃ m, S m ∧ task.prog.Typed (staging ev.sessionId) (fun _ _ => True) m

/-- What its own operations keep it in, no other step takes it out of. -/
theorem stagedIn_step (hev : ev.event = .promptSubmit)
    (hids : ev.notifToolUseId.isSome = true) {w : World} {act : Act}
    (hnext : ∀ m op tick d r, act = .move k tick → S m →
      (staging ev.sessionId).ok m op → exec k op tick w.daemon = some (d, r) →
      S ((staging ev.sessionId).next m op r))
    (hnew : k < w.jobs.length ∨ S .unread) (h : StagedIn S ev k w) :
    StagedIn S ev k (w.step act) := by
  intro task ht hjob
  rcases World.step_tasks ht with hold | ⟨job, client, hk, -, -, rfl⟩
    | ⟨old, op, f, tick, d, r, hact, hold, hprog, hex, -, rfl⟩
    | ⟨_, _, _, _, -, -, -, rfl⟩
  · exact h task hold hjob
  · obtain rfl : job = .request (.event ev) := hjob
    refine ⟨.unread, hnew.resolve_left ?_, handleEvent_staged hev hids⟩
    omega
  · obtain ⟨m, hm, hp⟩ := h old hold hjob
    rw [hprog] at hp
    exact ⟨_, hnext m op tick d r hact hm hp.1 hex, hp.2 r trivial⟩
  · cases hjob

/-- The stage a handler is at when it is about to perform an
operation. -/
theorem StagedIn.next {w : World} (h : StagedIn S ev k w) (hn : w.Numbered)
    (hjob : w.jobs[k]? = some (.request (.event ev))) {op : Op}
    (hab : w.about k = some op) :
    ∃ m, S m ∧ (staging ev.sessionId).ok m op := by
  obtain ⟨task, f, ht, hprog⟩ := World.about_eq_some hab
  have hself := hn k task ht
  rw [hjob, Option.some.injEq] at hself
  obtain ⟨m, hm, hp⟩ := h task ht hself.symm
  rw [hprog] at hp
  exact ⟨m, hm, hp.1⟩

end staged

/-- Whatever state the daemon is in and whatever else it does: when the
handler of `ev` has classified it and records it, it leaves the pause
alone if these ids match a recorded spawn at the classification, and
begins a new one if they do not and no wake was recent until then. -/
def TreatedBy (ev : Event) (toolUseId taskId : Option String) : Prop :=
  ∀ (d : Daemon) bs cs k tick tick' t waking t',
    let w := run World.step { daemon := d } bs
    let w' := run World.step { daemon := d } (bs ++ .move k tick :: cs)
    let matched := w.daemon.store.isForkSpawn ev.sessionId toolUseId taskId
    w.jobs[k]? = some (.request (.event ev)) →
    w.about k = some (.write (.classify ev t)) →
    w'.about k = some (.write (.prompt ev waking t')) →
    let epoch := (w'.daemon.store.pauseOf ev.sessionId).1
    let epoch' := ((w'.step (.move k tick')).daemon.store.pauseOf ev.sessionId).1
    (matched = true → epoch' = epoch)
      ∧ (matched = false →
        (∀ ds, ds <+: cs → (run World.step { daemon := d }
          (bs ++ .move k tick :: ds)).daemon.recentlyWoke ev.sessionId t = false) →
        epoch' = epoch + 1)

/-- What recording a prompt does to the pause. -/
private theorem epoch_of_prompt {w : World} {k : Nat} {ev : Event}
    {waking : Bool} {t : Int} (tick : Tick)
    (hab : w.about k = some (.write (.prompt ev waking t))) :
    ((w.step (.move k tick)).daemon.store.pauseOf ev.sessionId).1
      = if waking then (w.daemon.store.pauseOf ev.sessionId).1 + 1
        else (w.daemon.store.pauseOf ev.sessionId).1 := by
  rw [World.step_write hab]
  simp only [Section.run, pauseOf_recordPrompt]
  cases waking <;> simp

/-- The stage a handler comes to by classifying its prompt. -/
private theorem stagedIn_classify {w : World} {ev : Event} {k : Nat} {t : Int}
    (tick : Tick) (hn : w.Numbered) (h : StagedIn (fun _ => True) ev k w)
    (hjob : w.jobs[k]? = some (.request (.event ev)))
    (hab : w.about k = some (.write (.classify ev t))) :
    StagedIn (fun m => m = if w.daemon.store.isForkSpawn ev.sessionId
      ev.notifToolUseId ev.notifTaskId then .matched else .unmatched t) ev k
      (w.step (.move k tick)) := by
  obtain ⟨task, f, ht, hprog⟩ := World.about_eq_some hab
  have hself := hn k task ht
  rw [hjob, Option.some.injEq] at hself
  obtain ⟨m, -, hp⟩ := h task ht hself.symm
  rw [hprog] at hp
  have hmatched := classifyNotification_matched w.daemon.store ev t
  intro task' ht' _
  have hafter : (w.step (.move k tick)).tasks k = some { task with
      started := true
      prog := f (classifyNotification w.daemon.store ev t).2 } := by
    simp only [World.step, World.move, ht, hprog, exec, Section.run,
      World.resumed, upd_same]
  rw [hafter, Option.some.injEq] at ht'
  subst ht'
  refine ⟨_, rfl, ?_⟩
  rw [← hmatched]
  exact hp.2 _ trivial

/-- From a match on, a handler stays matched until it has recorded its
prompt. -/
private theorem matched_next {a : String} {m : Stage}
    (hm : m = .matched ∨ m = .recorded) {op : Op} (r : op.Res)
    (hok : (staging a).ok m op) :
    (staging a).next m op r = .matched ∨ (staging a).next m op r = .recorded := by
  cases op with
  | write x =>
      cases x with
      | classify ev t =>
          obtain rfl : m = .unread := hok
          simp at hm
      | prompt ev waking t => exact .inr rfl
      | _ => exact hm
  | recentlyWoke s t =>
      rcases hm with rfl | rfl
      · exact .inl rfl
      · exact .inr rfl
  | _ => exact hm

/-- Where nothing matched and no wake is recent, a handler comes to take
its prompt for genuine. -/
private theorem unmatched_next {a : String} {t : Int} {k : Nat} {tick : Tick}
    {d d' : Daemon} (hrecent : d.recentlyWoke a t = false) {m : Stage}
    (hm : m = .unmatched t ∨ m = .genuine ∨ m = .recorded) {op : Op}
    {r : op.Res} (hok : (staging a).ok m op)
    (hex : exec k op tick d = some (d', r)) :
    (staging a).next m op r = .unmatched t ∨ (staging a).next m op r = .genuine
      ∨ (staging a).next m op r = .recorded := by
  cases op with
  | write x =>
      cases x with
      | classify ev t =>
          obtain rfl : m = .unread := hok
          simp at hm
      | prompt ev waking t => exact .inr (.inr rfl)
      | _ => exact hm
  | recentlyWoke s t' =>
      rcases hm with rfl | rfl | rfl
      · obtain ⟨rfl, ht⟩ := hok
        obtain rfl := ht t rfl
        simp only [exec, Option.some.injEq, Prod.mk.injEq] at hex
        have hr : r = false := hex.2.symm.trans hrecent
        rw [hr]
        exact .inr (.inl rfl)
      · exact .inr (.inl rfl)
      · exact .inr (.inr rfl)
  | _ => exact hm

/-- The handler treats a prompt by the ids its event carries. -/
theorem treatedBy_own {ev : Event} (hev : ev.event = .promptSubmit)
    (hids : ev.notifToolUseId.isSome = true) :
    TreatedBy ev ev.notifToolUseId ev.notifTaskId := by
  intro d bs cs k tick tick' t waking t' w w' matched hjob hab hab' epoch epoch'
  have hnumbered : ∀ as, (run World.step { daemon := d } as).Numbered :=
    run_invariant (P := World.Numbered) (fun _ a h => World.numbered_step h a)
      (fun k task h => by cases h)
  have hbefore : StagedIn (fun _ => True) ev k w :=
    run_invariant (P := StagedIn (fun _ => True) ev k)
      (fun _ _ h => stagedIn_step hev hids (fun _ _ _ _ _ _ _ _ _ => trivial)
        (.inr trivial) h)
      (fun task h => by cases h) bs
  have hclassified := stagedIn_classify tick (hnumbered bs) hbefore hjob hab
  have hw' : w' = run World.step (w.step (.move k tick)) cs := by
    rw [← run_cons, ← run_append]
  have hjob' : w'.jobs[k]? = some (.request (.event ev)) := by
    rw [hw']
    exact run_invariant
      (P := fun w : World => w.jobs[k]? = some (.request (.event ev)))
      (fun w a h => w.jobs_step h a) (w.jobs_step hjob _) cs
  have hpresent : ∀ w : World, w.jobs[k]? = some (.request (.event ev)) →
      k < w.jobs.length := fun w h => (List.getElem?_eq_some_iff.1 h).1
  have hepoch : epoch' = if waking then epoch + 1 else epoch :=
    epoch_of_prompt tick' hab'
  constructor
  · intro hmatched
    have hlater : StagedIn (fun m => m = .matched ∨ m = .recorded) ev k w' := by
      rw [hw']
      refine (run_invariant (P := fun w => k < w.jobs.length
        ∧ StagedIn (fun m => m = .matched ∨ m = .recorded) ev k w)
        (fun w a h => ⟨h.1.trans_le (w.step_jobs a).length_le,
          stagedIn_step hev hids (fun m op tick d r _ hm hok _ =>
            matched_next hm r hok) (.inl h.1) h.2⟩) ⟨?_, ?_⟩ cs).2
      · exact hpresent _ (w.jobs_step hjob _)
      · intro task ht hself
        obtain ⟨m, hm, hp⟩ := hclassified task ht hself
        rw [if_pos hmatched] at hm
        exact ⟨m, .inl hm, hp⟩
    obtain ⟨m, hm, hok⟩ := hlater.next (hnumbered _) hjob' hab'
    rcases hm with rfl | rfl
    · have hno : waking = false := by simpa [staging] using hok
      rw [hepoch, hno]
      rfl
    · simp [staging] at hok
  · intro hmatched hrecent
    have hguard : Along World.step (fun w _ =>
        w.daemon.recentlyWoke ev.sessionId t = false) (w.step (.move k tick)) cs := by
      refine along_iff.2 fun ds act es hsplit => ?_
      have hnow := hrecent ds ⟨act :: es, hsplit.symm⟩
      rwa [run_append, run_cons] at hnow
    have hlater : StagedIn
        (fun m => m = .unmatched t ∨ m = .genuine ∨ m = .recorded) ev k w' := by
      rw [hw']
      refine (hguard.invariant (P := fun w => k < w.jobs.length
        ∧ StagedIn (fun m => m = .unmatched t ∨ m = .genuine ∨ m = .recorded) ev k w)
        (fun w a hno h => ⟨h.1.trans_le (w.step_jobs a).length_le,
          stagedIn_step hev hids (fun m op tick d r _ hm hok hex =>
            unmatched_next hno hm hok hex) (.inl h.1) h.2⟩) ⟨?_, ?_⟩).2
      · exact hpresent _ (w.jobs_step hjob _)
      · intro task ht hself
        obtain ⟨m, hm, hp⟩ := hclassified task ht hself
        have hno : w.daemon.store.isForkSpawn ev.sessionId ev.notifToolUseId
            ev.notifTaskId = false := hmatched
        rw [hno] at hm
        exact ⟨m, .inl (by simpa using hm), hp⟩
    obtain ⟨m, hm, hok⟩ := hlater.next (hnumbered _) hjob' hab'
    rcases hm with rfl | rfl | rfl
    · simp [staging] at hok
    · have hyes : waking = true := by simpa [staging] using hok
      rw [hepoch, hyes]
      rfl
    · simp [staging] at hok

-- ========================================================= from the text

/-- The event of a prompt that is a notification and mentions no
marker. -/
theorem userPromptSubmit_of_notification {input : HookInput} {env : HookEnv}
    {p : String} (hp : input.prompt = some p)
    (hm : contains p wakeMarker = false)
    (hstart : taskNotificationPrefix.toList <+: p.toList) :
    userPromptSubmit input env = { hookEvent input env .promptSubmit with
      waking := some false
      notifToolUseId := tagValue p "tool-use-id"
      notifTaskId := tagValue p "task-id"
      notifStatus := tagValue p "status" } := by
  simp only [userPromptSubmit, hp, hm, Bool.false_eq_true, if_false,
    parseTaskNotification_of_start hstart]

/-- A tag that has a value has a closed element. -/
private theorem closes_of_tagValue {text name value : String}
    (hname : '<' ∉ name.toList) (h : tagValue text name = some value) :
    Closes name text.toList := by
  by_contra hno
  rw [tagValue_eq, elementText_unclosed hname hno, Option.bind_none] at h
  cases h

/-- A header's own value is what is read of the whole text. -/
private theorem tagValue_of_header {header payload name value : String}
    (hname : '<' ∉ name.toList) (h : tagValue header name = some value) :
    tagValue (header ++ payload) name = some value := by
  obtain ⟨v, hv⟩ := elementText_closed hname (closes_of_tagValue hname h)
  have hheader := hv []
  rw [List.append_nil] at hheader
  rw [tagValue_eq, hheader] at h
  rw [tagValue_eq, String.toList_append, hv]
  exact h

-- --------------------------------------------------- a task id in the way

/-- The store when session `a` has one recorded spawn, of task `y`. -/
private def spawned (ev : Event) (u y : String) : Store :=
  ((Store.openInMemory.upsertSession ev 0).recordSpawn ev.sessionId u none 0)
    |>.setSpawnTaskId ev.sessionId u y

private theorem isForkSpawn_spawned (ev : Event) (u y : String)
    (toolUseId taskId : Option String) :
    (spawned ev u y).isForkSpawn ev.sessionId toolUseId taskId
      = (toolUseId.any (fun v => u == v) || taskId.any fun i => y == i) := by
  have hnew : ∀ r : SpawnRec, ((Table.empty : Table SpawnRec.key).insertOrIgnore
      r).rows = [r] := fun r => Table.rows_insertOrIgnore_of_notMem _ (by simp [Table.empty])
  have hrows : (spawned ev u y).spawns.rows = [{
      sessionId := ev.sessionId, toolUseId := u, taskId := some y
      forkName := none, status := "spawned", spawnedAt := 0
      terminalAt := none }] := by
    simp [spawned, Store.setSpawnTaskId, Store.recordSpawn, Table.updateWhere,
      Store.upsertSession, Store.openInMemory, hnew]
  simp [Store.isForkSpawn, hrows, Store.matchesIds]

/-- The verdict on a prompt with ids, once they have been looked up. -/
private def verdict (ev : Event) (t : Int) (matched : Bool) : Handler Bool :=
  if matched then pure false
  else do
    let recent ← (Op.recentlyWoke ev.sessionId t).go
    pure (!recent)

/-- What is left to do then. -/
private def recording (ev : Event) (t : Int) (matched : Bool) :
    Handler ResponseBody :=
  verdict ev t matched >>= fun waking => do
    (Op.write (.prompt ev waking t)).go
    (Op.cancelWait ev.sessionId).go
    pure .ack

private theorem handleEvent_eq {ev : Event} (hev : ev.event = .promptSubmit)
    (hids : ev.notifToolUseId.isSome = true) (hpath : ev.transcriptPath = none) :
    handleEvent ev = .call (.clearPendingClose ev.sessionId) fun _ =>
      .call .now fun t => .call (.write (.classify ev t)) (recording ev t) := by
  have hread : ingestTranscript ev = pure none := by
    unfold ingestTranscript
    rw [hpath]
  simp only [handleEvent, hev, classifyPrompt, hids, Bool.true_or, if_true, hread]
  rfl

/-- A handler without a transcript, up to where it records its prompt. -/
private theorem handleEvent_unread {ev : Event} (hev : ev.event = .promptSubmit)
    (hids : ev.notifToolUseId.isSome = true) (hpath : ev.transcriptPath = none)
    (d : Daemon) (hquiet : ∀ a, d.wakeIssuedAt a = none)
    (hmatch : d.store.isForkSpawn ev.sessionId ev.notifToolUseId ev.notifTaskId
      = true) :
    let bs : List Act := [.receive (.event ev), .move 0 ⟨0, .timer⟩,
      .move 0 ⟨0, .timer⟩]
    let w := run World.step { daemon := d } bs
    let w' := run World.step { daemon := d } (bs ++ [.move 0 ⟨0, .timer⟩])
    w.jobs[0]? = some (.request (.event ev))
      ∧ w.about 0 = some (.write (.classify ev 0)) ∧ w.daemon.store = d.store
      ∧ w'.about 0 = some (.write (.prompt ev false 0))
      ∧ w'.daemon.recentlyWoke ev.sessionId 0 = false := by
  intro bs w w'
  have hmatched := classifyNotification_matched d.store ev 0
  rw [hmatch] at hmatched
  have hw : w.tasks 0 = some ⟨.request (.event ev), true, true,
      .call (.write (.classify ev 0)) (recording ev 0)⟩ := by
    simp [w, bs, World.step, World.spawn, World.move, Job.handler,
      handleEvent_eq hev hids hpath, exec, World.resumed]
  have hstore : w.daemon.store = d.store ∧ w.daemon.wakeIssuedAt = d.wakeIssuedAt
      ∧ w.jobs = [.request (.event ev)] := by
    simp [w, bs, World.step, World.spawn, World.move, Job.handler,
      handleEvent_eq hev hids hpath, exec, World.resumed]
  have hw' : w' = w.step (.move 0 ⟨0, .timer⟩) := by
    show run World.step _ (bs ++ [_]) = _
    rw [run_append]
    rfl
  refine ⟨by rw [hstore.2.2]; rfl, by simp only [World.about, hw], hstore.1, ?_, ?_⟩
  · rw [hw']
    simp [World.step, World.move, hw, exec, World.resumed, Section.run, hstore.1, hmatched, World.about]
    rfl
  · rw [hw']
    simp [World.step, World.move, hw, exec, World.resumed, Section.run, hstore, Daemon.recentlyWoke, hquiet]

/-- For every header with a tool-use id and every payload: the hook sends
that id and the daemon goes by the header's ids, exactly when the text
does not mention the marker and the payload has no say in the task
id. -/
theorem completion_treated_by_ids_iff {header payload id : String}
    (hheader : taskNotificationPrefix.toList <+: header.toList)
    (hid : tagValue header "tool-use-id" = some id)
    (hpayload : Payload payload.toList) :
    (∀ input env, input.prompt = some (header ++ payload) →
        (userPromptSubmit input env).notifToolUseId = some id
          ∧ TreatedBy (userPromptSubmit input env) (some id)
            (tagValue header "task-id"))
      ↔ contains (header ++ payload) wakeMarker = false
        ∧ Shut "task-id" header.toList payload.toList := by
  have hstart : taskNotificationPrefix.toList <+: (header ++ payload).toList := by
    rw [String.toList_append]
    exact hheader.trans (List.prefix_append _ _)
  have hown : tagValue (header ++ payload) "tool-use-id" = some id :=
    tagValue_of_header (by decide) hid
  have hshut : tagValue (header ++ payload) "task-id" = tagValue header "task-id"
      ↔ Shut "task-id" header.toList payload.toList := by
    rw [tagValue_eq, tagValue_eq, String.toList_append]
    exact value_header_iff (by decide) hpayload
  rw [← hshut]
  constructor
  · intro h
    let input : HookInput := { sessionId := "s", prompt := some (header ++ payload) }
    let env : HookEnv := { cwd := "/p", projectRoot := "/p" }
    obtain ⟨hsent, htreated⟩ := h input env rfl
    have hm : contains (header ++ payload) wakeMarker = false := by
      by_contra hm
      rw [userPromptSubmit_of_marker rfl (by simpa using hm)] at hsent
      cases hsent
    refine ⟨hm, ?_⟩
    by_contra hne
    have habsent : tagValue header "task-id" = none := by
      cases hvalue : tagValue header "task-id" with
      | none => rfl
      | some z =>
          rw [hvalue, tagValue_of_header (by decide) hvalue] at hne
          exact absurd rfl hne
    rw [habsent] at hne htreated
    obtain ⟨y, hy⟩ := Option.ne_none_iff_exists'.1 hne
    rw [userPromptSubmit_of_notification rfl hm hstart, hown, hy] at htreated
    -- a fork of that task has been recorded, under another tool-use id
    let ev : Event := { hookEvent input env .promptSubmit with
      waking := some false
      notifToolUseId := some id
      notifTaskId := some y
      notifStatus := tagValue (header ++ payload) "status" }
    let d : Daemon :=
      { store := spawned ev (id ++ "'") y, disk := .holding [] {} none }
    obtain ⟨hjob, hab, hstore, hab', hrecent⟩ := @handleEvent_unread
      ev rfl rfl rfl d (fun _ => rfl) (by
        rw [isForkSpawn_spawned]
        simp [ev])
    have hunmatched : d.store.isForkSpawn ev.sessionId (some id) none = false := by
      rw [isForkSpawn_spawned]
      simp
    have hbumped := (htreated d _ [] 0 ⟨0, .timer⟩ ⟨0, .timer⟩ 0 false 0 hjob hab
      hab').2 (by rw [hstore]; exact hunmatched) (fun ds hds => by
        rw [List.prefix_nil.1 hds]
        exact hrecent)
    have hkept := epoch_of_prompt ⟨0, .timer⟩ hab'
    rw [if_neg (by simp)] at hkept
    exact absurd (hkept.symm.trans hbumped) (Int.lt_succ _).ne
  · rintro ⟨hm, htask⟩ input env hp
    rw [userPromptSubmit_of_notification hp hm hstart, hown, htask]
    exact ⟨rfl, treatedBy_own rfl rfl⟩

/-- The header of a finished background task. -/
private def finished : String :=
  "<task-notification>\n<task-id>abc</task-id>\n"
    ++ "<tool-use-id>toolu_1</tool-use-id>\n<status>completed</status>\n"

private def noticed : HookInput where
  sessionId := "s"
  prompt := some (finished ++ "<summary>done</summary>")

/-- A completion with a plain summary goes by its ids. -/
theorem completion_treated_by_ids_plain :
    (userPromptSubmit noticed { cwd := "/p", projectRoot := "/p" }).notifToolUseId
        = some "toolu_1"
      ∧ TreatedBy (userPromptSubmit noticed { cwd := "/p", projectRoot := "/p" })
        (some "toolu_1") (tagValue finished "task-id") := by
  refine (completion_treated_by_ids_iff (by decide +kernel) (by decide +kernel)
    (.inl (by decide))).2 ⟨by decide +kernel, .inl ⟨"abc".toList, ?_⟩⟩ noticed _ rfl
  decide +kernel

/-- A summary that mentions the marker takes the ids off the event. -/
theorem completion_hidden_by_marker :
    ¬∀ (header payload id : String) (input : HookInput) (env : HookEnv),
      taskNotificationPrefix.toList <+: header.toList →
      tagValue header "tool-use-id" = some id → Payload payload.toList →
      input.prompt = some (header ++ payload) →
      (userPromptSubmit input env).notifToolUseId = some id := by
  intro h
  exact absurd (h finished "<summary>grep: source: autofork</summary>" "toolu_1"
    { sessionId := "s", prompt := some _ } { cwd := "/p", projectRoot := "/p" }
    (by decide +kernel) (by decide +kernel) (.inl (by decide)) rfl)
    (by decide +kernel)

end Autofork
