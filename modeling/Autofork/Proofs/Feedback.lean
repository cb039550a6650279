/-
No wake feedback.

A wake puts text into the session that comes back to the daemon: as a
prompt that quotes it, and as the notifications of the forks it
spawned. If any of that counted as genuine activity, the epoch would
advance, the idle latches would be free again, and the next Stop would
wake the session once more, for ever.

# What keeps it from happening

A prompt that quotes a wake is recognised by the hook, and one that
carries ids the registry knows is recognised by the daemon
(`continuing`), so the epoch stays. At one epoch a fork has one idle
latch and one for each label of its context thresholds, and every
issuance takes one that is free (`Spending`): there are no more
issuances than latches. What is released was held by an issuance
(`Draining`).

Every statement here is about a run from any state in which no task is
under way.
-/
import Autofork.Proofs.Atomic
import Autofork.Proofs.Drain
import Autofork.Proofs.Issues
import Autofork.Proofs.Latch
import Autofork.Proofs.Pauses
import Autofork.Proofs.Registry
import Autofork.Proofs.Rely

namespace Autofork

open Lib

-- ===================================================== what comes back

/-- The text contains a wake, or a release, with a fork in it. -/
def QuotesWake (p : String) : Prop :=
  ∃ sessionId conversationId projectRoot forks, forks ≠ []
    ∧ ((∃ held, contains p (buildWakePayload sessionId conversationId
          projectRoot forks held) = true)
      ∨ contains p (buildReleasePayload sessionId conversationId
          projectRoot forks) = true)

/-- What a wake brings back: the hook's event of a text that quotes one
or of a notification, or any event that carries a notification's ids. -/
inductive Continues : Event → Prop
  | quote {input : HookInput} {env : HookEnv} {p : String}
      (hp : input.prompt = some p) (h : QuotesWake p) :
      Continues (userPromptSubmit input env)
  | notification {input : HookInput} {env : HookEnv} {p : String}
      {n : TaskNotification} (hp : input.prompt = some p)
      (hn : parseTaskNotification p = some n) :
      Continues (userPromptSubmit input env)
  | ids {ev : Event}
      (h : (ev.notifToolUseId.isSome || ev.notifTaskId.isSome) = true) :
      Continues ev

/-- A text that quotes a wake carries the marker. -/
theorem QuotesWake.marker {p : String} (h : QuotesWake p) :
    contains p wakeMarker = true := by
  obtain ⟨_, _, _, _, hne, ⟨_, hp⟩ | hp⟩ := h
  · exact contains_trans hp (buildWakePayload_marker hne)
  · exact contains_trans hp (buildReleasePayload_marker hne)

/-- Such an event carries ids, or is no genuine activity by the hook's
own account. -/
theorem Continues.recognised {ev : Event} (h : Continues ev) :
    (ev.notifToolUseId.isSome || ev.notifTaskId.isSome) = true
      ∨ ev.waking = some false := by
  cases h with
  | ids h => exact .inl h
  | quote hp h =>
      rw [userPromptSubmit_of_marker hp h.marker]
      exact .inr rfl
  | @notification input env p n hp hn =>
      refine .inr ?_
      cases hm : contains p wakeMarker with
      | true =>
          rw [userPromptSubmit_of_marker hp hm]
      | false => simp [userPromptSubmit, hp, hm, hn]

-- ==================================================== the prompt handler

/-- A program that records no prompt. -/
abbrev Promptless {α : Type} (p : Handler α) : Prop :=
  p.Every fun op => ∀ ev waking t, op ≠ .write (.prompt ev waking t)

private theorem promptless_of_every {α : Type} {P : Op → Prop} {p : Handler α}
    (hP : ∀ ev waking t, ¬P (.write (.prompt ev waking t))) (h : p.Every P) :
    Promptless p := by
  refine Prog.Every.mono (fun op hop ev waking t heq => hP ev waking t ?_) h
  rw [← heq]
  exact hop

private theorem Tame.promptless {α : Type} {p : Handler α} (h : Tame p) :
    Promptless p :=
  promptless_of_every (fun _ _ _ hop => by cases hop) h

private theorem Shuts.promptless {α : Type} {p : Handler α} (h : Shuts p) :
    Promptless p :=
  promptless_of_every (fun _ _ _ hop => by cases hop) h

private theorem Polls.promptless {α : Type} {p : Handler α} (h : Polls p) :
    Promptless p :=
  promptless_of_every (fun _ _ _ hop => by cases hop) h

private theorem promptless_go {op : Op}
    (h : ∀ ev waking t, op ≠ .write (.prompt ev waking t)) :
    Promptless op.go :=
  ⟨h, fun _ => trivial⟩

/-- Where the ids of session `a` match, its prompts are recorded as no
genuine activity. -/
def continuing (a : String) : Prog.Typestate Op Op.Res Unit where
  ok _ op := match op with
    | .write (.prompt ev waking _) => ev.sessionId = a → waking = false
    | _ => True
  next m _ _ := m
  valid _ op r := match op, r with
    | .write (.classify ev _), matched => ev.sessionId = a → matched = true
    | _, _ => True

section handlers

variable {a : String}

private theorem Promptless.continuing {α : Type} {p : Handler α}
    (h : Promptless p) : p.Typed (continuing a) (fun _ _ => True) () := by
  refine Prog.Every.typed (I := fun _ => True) trivial
    (Prog.Every.mono (fun op hop m _ => ⟨?_, fun _ _ => trivial⟩) h)
  unfold Autofork.continuing
  dsimp only
  split
  · exact absurd rfl (hop _ _ _)
  · trivial

/-- A prompt of session `a` that a wake brings back is taken for no
genuine activity. -/
private theorem classifyPrompt_continuing {ev : Event} (t : Int)
    (h : ev.sessionId = a → Continues ev) :
    (classifyPrompt ev t).Typed (continuing a)
      (fun _ waking => ev.sessionId = a → waking = false) () := by
  have hrecent : ev.sessionId ≠ a → ∀ m, Prog.Typed (continuing a)
      (fun _ waking => ev.sessionId = a → waking = false) m (do
        let recent ← (Op.recentlyWoke ev.sessionId t).go
        pure (!recent)) :=
    fun hne _ => ⟨trivial, fun _ _ ha => absurd ha hne⟩
  unfold classifyPrompt
  split
  next hids =>
    refine ((tame_ingestTranscript ev).promptless.continuing).bind
      fun m _ _ => ⟨trivial, fun matched hmatched => ?_⟩
    by_cases ha : ev.sessionId = a
    · have hyes : matched = true := hmatched ha
      subst hyes
      exact fun _ => rfl
    · cases matched with
      | true => exact fun _ => rfl
      | false => exact hrecent ha m
  next hids =>
    by_cases ha : ev.sessionId = a
    · have hwaking := (h ha).recognised.resolve_left hids
      rw [hwaking]
      exact fun _ => rfl
    · split
      · exact fun h => absurd h ha
      · exact hrecent ha ()

private theorem handleEvent_continuing {ev : Event}
    (h : ev.event = .promptSubmit → ev.sessionId = a → Continues ev) :
    (handleEvent ev).Typed (continuing a) (fun _ _ => True) () := by
  refine ⟨trivial, fun _ _ => ⟨trivial, fun t _ => ?_⟩⟩
  cases hkind : ev.event with
  | stop => trivial
  | sessionStart => exact ⟨trivial, fun _ _ => trivial⟩
  | sessionEnd => exact ⟨trivial, fun _ _ => ⟨trivial, fun _ _ => trivial⟩⟩
  | promptSubmit =>
      refine (classifyPrompt_continuing t (h hkind)).bind
        fun m waking hwaking => ?_
      exact ⟨hwaking, fun _ _ => ⟨trivial, fun _ _ => trivial⟩⟩

/-- Every handler, provided that prompts of session `a` are what a wake
brings back. -/
private theorem handler_continuing (job : Job)
    (h : ∀ ev, job = .request (.event ev) → ev.event = .promptSubmit →
      ev.sessionId = a → Continues ev) :
    job.handler.Typed (continuing a) (fun _ _ => True) () := by
  cases job with
  | reap => exact shuts_sessionReaper.promptless.continuing
  | grace b gen => exact (shuts_graceClose b gen).promptless.continuing
  | request req =>
      cases req with
      | prune => exact shuts_handlePrune.promptless.continuing
      | event ev => exact handleEvent_continuing (h ev rfl)
      | stopWait ev =>
          refine Promptless.continuing ?_
          refine (promptless_go (by simp)).bind fun _ =>
            (promptless_go (by simp)).bind fun t =>
            (promptless_go (by simp)).bind fun _ =>
            (tame_ingestTranscript ev).promptless.bind fun promptTokens =>
            (promptless_go (by simp)).bind fun cfg =>
            (promptless_go (by simp)).bind fun _ =>
            (promptless_go (by simp)).bind fun _ => ?_
          exact (polls_parkedPoll ..).promptless.bind fun body =>
            (promptless_go (by simp)).bind fun _ => trivial

end handlers

-- ============================================================ the latches

/-- A context threshold. -/
def ForkRunOn.isContext : ForkRunOn → Bool
  | .contextTokens _ | .contextUsedPct _ | .contextLeft _ => true
  | _ => false

/-- The labels of a fork's context thresholds, each once. -/
def contextLabels (fork : ForkDef) : List String :=
  ((fork.runOn.filter ForkRunOn.isContext).map ForkRunOn.label).dedup

/-- The latches a fork has at one epoch. -/
def latchKeys (fork : ForkDef) (epoch : Int) : List String :=
  idlePauseKey epoch :: contextLabels fork

/-- The roster of session `a` shows the definitions `F`, as far as its
files can be read. -/
def World.Defines (a : String) (F : List (String × ForkDef)) (w : World) :
    Prop :=
  ∀ entry ∈ w.daemon.store.rosterOf a, ∀ fork ∈ w.daemon.disk.forkAt entry,
    F.lookup entry.forkName = some fork

instance (a : String) (F : List (String × ForkDef)) (w : World) :
    Decidable (w.Defines a F) :=
  inferInstanceAs (Decidable (∀ entry ∈ _, ∀ fork ∈ _, _))

/-- A first match takes one of its fork's latches. -/
theorem FirstMatch.latchKey_mem {fork : ForkDef} {moments : List ForkMoment}
    {defaultIdleSecs : Nat} {trigger : ForkRunOn}
    (h : FirstMatch fork.runOn moments defaultIdleSecs trigger) (epoch : Int) :
    ∃ key, latchKeyFor trigger epoch = some key
      ∧ key ∈ latchKeys fork epoch := by
  obtain ⟨hmem, hdue⟩ := h.due
  have hlabel : trigger.isContext = true →
      trigger.label ∈ latchKeys fork epoch := by
    intro hcontext
    refine List.mem_cons_of_mem _ (List.mem_dedup.2 ?_)
    exact List.mem_map_of_mem (List.mem_filter.2 ⟨hmem, hcontext⟩)
  refine ⟨_, latchKeyFor_of_due hdue epoch, ?_⟩
  rcases hdue.supported with ⟨_, rfl⟩ | ⟨_, rfl⟩ | ⟨_, rfl⟩ | ⟨_, rfl⟩
  · exact List.mem_cons_self
  · exact hlabel rfl
  · exact hlabel rfl
  · exact hlabel rfl

/-- What is selected has one of its fork's latches, and finds it free. -/
theorem selectFrom_latch {store : Store} {disk : Disk} {session : SessionRow}
    {cfg : Config} {moments : List ForkMoment} {t : Int}
    {F : List (String × ForkDef)}
    (hF : ∀ entry ∈ store.rosterOf session.sessionId,
      ∀ fork ∈ disk.forkAt entry, F.lookup entry.forkName = some fork)
    {x : SelectedFork}
    (hx : x ∈ selectFrom store disk session cfg moments t) :
    ∃ fork key, F.lookup x.name = some fork
      ∧ key ∈ latchKeys fork session.pauseEpoch ∧ x.latchKey = some key
      ∧ store.isLatched session.sessionId x.name key = false := by
  obtain ⟨entry, hentry, hsel⟩ := List.mem_filterMap.1 hx
  cases hfork : disk.forkAt entry with
  | none => simp [selectEntry, hfork] at hsel
  | some fork =>
      obtain ⟨-, trigger, hfirst, hfree, rfl⟩ :=
        (selectEntry_eq_some_iff hfork).1 hsel
      obtain ⟨key, hkey, hmem⟩ := hfirst.latchKey_mem session.pauseEpoch
      refine ⟨fork, key, hF entry hentry fork hfork, hmem, hkey, ?_⟩
      rw [latchTaken, hkey] at hfree
      exact hfree

-- ========================================================== the issuances

/-- What an entry issues for session `a`. -/
def Obs.issuedFor (a : String) : Obs → List SelectedFork
  | .issued _ session selected _ =>
      if session.sessionId = a then selected else []
  | _ => []

/-- What a log issues for session `a`. -/
def issuances (a : String) (l : List Obs) : List SelectedFork :=
  l.flatMap (Obs.issuedFor a)

/-- The entry issues a wake for session `a`. -/
def Obs.wakesFor (a : String) : Obs → Bool
  | .issued _ session _ _ => session.sessionId == a
  | _ => false

/-- The entry answers session `a` with a release. -/
def Obs.releasesFor (a : String) : Obs → Bool
  | .released _ session _ => session.sessionId == a
  | _ => false

/-- The latch an issuance takes. -/
def SelectedFork.latch (x : SelectedFork) : String × Option String :=
  (x.name, x.latchKey)

/-- What has been issued since the epoch began took one latch of its
fork each, all of them different, and has them still. -/
structure Spending (a : String) (F : List (String × ForkDef)) (epoch : Int)
    (s : Store) (l : List Obs) : Prop where
  distinct : ((issuances a l).map SelectedFork.latch).Nodup
  latched : ∀ x ∈ issuances a l, ∃ fork key, F.lookup x.name = some fork
    ∧ key ∈ latchKeys fork epoch ∧ x.latchKey = some key
    ∧ s.isLatched a x.name key = true
  /-- No wake was empty. -/
  wakes : l.countP (Obs.wakesFor a) ≤ (issuances a l).length

section spending

variable {a : String} {F : List (String × ForkDef)} {epoch : Int}

/-- Entries that issue nothing. -/
private theorem Spending.extend {s s' : Store} {l obs : List Obs}
    (h : Spending a F epoch s l)
    (hobs : ∀ o ∈ obs, o.issuedFor a = [] ∧ o.wakesFor a = false)
    (hkept : ∀ f key, s.isLatched a f key = true →
      s'.isLatched a f key = true) : Spending a F epoch s' (obs ++ l) := by
  have hnone : issuances a (obs ++ l) = issuances a l := by
    rw [issuances, List.flatMap_append, List.flatMap_eq_nil_iff.2
      fun o ho => (hobs o ho).1, List.nil_append, issuances]
  have hcount : (obs ++ l).countP (Obs.wakesFor a) = l.countP (Obs.wakesFor a) := by
    rw [List.countP_append, List.countP_eq_zero.2 fun o ho => by
      simp [(hobs o ho).2], Nat.zero_add]
  refine ⟨by rw [hnone]; exact h.distinct, fun x hx => ?_, ?_⟩
  · rw [hnone] at hx
    obtain ⟨fork, key, hfork, hmem, hkey, hl⟩ := h.latched x hx
    exact ⟨fork, key, hfork, hmem, hkey, hkept _ _ hl⟩
  · rw [hnone, hcount]
    exact h.wakes

/-- A stamping of free latches. -/
private theorem Spending.stamp {s : Store} {l : List Obs}
    (h : Spending a F epoch s l) {k : Nat} {session : SessionRow}
    (ha : session.sessionId = a) {selected : List SelectedFork} {t : Int}
    (hne : selected ≠ []) (hnames : (selected.map SelectedFork.name).Nodup)
    (hfree : ∀ x ∈ selected, ∃ fork key, F.lookup x.name = some fork
      ∧ key ∈ latchKeys fork epoch ∧ x.latchKey = some key
      ∧ s.isLatched a x.name key = false) (issue : Nat) :
    Spending a F epoch (s.stampWake session selected t issue)
      (.issued k session selected t :: l) := by
  have hcons : issuances a (.issued k session selected t :: l)
      = selected ++ issuances a l := by
    rw [issuances, List.flatMap_cons, Obs.issuedFor, if_pos ha, issuances]
  subst ha
  constructor
  · rw [hcons, List.map_append, List.nodup_append]
    refine ⟨?_, h.distinct, ?_⟩
    · refine List.Nodup.of_map Prod.fst ?_
      rw [List.map_map]
      exact hnames
    · -- a latch that is free was not taken before
      intro p hp q hq hpq
      obtain ⟨x, hx, rfl⟩ := List.mem_map.1 hp
      obtain ⟨y, hy, rfl⟩ := List.mem_map.1 hq
      obtain ⟨-, key, -, -, hkey, hno⟩ := hfree x hx
      obtain ⟨-, key', -, -, hkey', hyes⟩ := h.latched y hy
      obtain ⟨hname, hsame⟩ := Prod.mk.inj hpq
      rw [hkey, hkey', Option.some.injEq] at hsame
      rw [← hname, ← hsame, hno] at hyes
      cases hyes
  · intro x hx
    rw [hcons, List.mem_append] at hx
    rcases hx with hx | hx
    · obtain ⟨fork, key, hfork, hmem, hkey, -⟩ := hfree x hx
      exact ⟨fork, key, hfork, hmem, hkey,
        (isLatched_stampWake (k := k)).2 (.inr ⟨rfl, x, hx, rfl, hkey⟩)⟩
    · obtain ⟨fork, key, hfork, hmem, hkey, hl⟩ := h.latched x hx
      exact ⟨fork, key, hfork, hmem, hkey,
        (isLatched_stampWake (k := k)).2 (.inl hl)⟩
  · have hlen := List.length_pos_of_ne_nil hne
    have hwakes := h.wakes
    rw [hcons, List.length_append, List.countP_cons]
    split
    · omega
    · omega

/-- A fork has been issued no more often than it has latches. -/
theorem Spending.count_le {s : Store} {l : List Obs}
    (h : Spending a F epoch s l) {f : String} {fork : ForkDef}
    (hf : F.lookup f = some fork) :
    (issuances a l).countP (fun x => x.name == f)
      ≤ 1 + (contextLabels fork).length := by
  have hnodup : (((issuances a l).filter fun x => x.name == f).map
      SelectedFork.latch).Nodup :=
    h.distinct.sublist (List.filter_sublist.map _)
  have hsub : ((issuances a l).filter fun x => x.name == f).map
      SelectedFork.latch ⊆ (latchKeys fork epoch).map fun key => (f, some key) := by
    intro p hp
    obtain ⟨x, hx, rfl⟩ := List.mem_map.1 hp
    obtain ⟨hx, hname⟩ := List.mem_filter.1 hx
    obtain ⟨fork', key, hfork, hmem, hkey, -⟩ := h.latched x hx
    rw [beq_iff_eq.1 hname, hf, Option.some.injEq] at hfork
    rw [SelectedFork.latch, beq_iff_eq.1 hname, hkey]
    exact List.mem_map_of_mem (hfork ▸ hmem)
  have hlen := (List.subperm_of_subset hnodup hsub).length_le
  rw [List.length_map, List.length_map, ← List.countP_eq_length_filter] at hlen
  rw [Nat.add_comm]
  exact hlen

/-- All in all, no more forks have been issued than there are latches. -/
theorem Spending.length_le {s : Store} {l : List Obs}
    (h : Spending a F epoch s l) : (issuances a l).length
      ≤ (F.map fun f => 1 + (contextLabels f.2).length).sum := by
  have hsub : (issuances a l).map SelectedFork.latch
      ⊆ F.flatMap fun f => (latchKeys f.2 epoch).map fun key => (f.1, some key) := by
    intro p hp
    obtain ⟨x, hx, rfl⟩ := List.mem_map.1 hp
    obtain ⟨fork, key, hfork, hmem, hkey, -⟩ := h.latched x hx
    obtain ⟨F₁, F₂, hF, -⟩ := List.lookup_eq_some_iff.1 hfork
    refine List.mem_flatMap.2 ⟨(x.name, fork), by simp [hF], ?_⟩
    rw [SelectedFork.latch, hkey]
    exact List.mem_map_of_mem hmem
  have hlen := (List.subperm_of_subset h.distinct hsub).length_le
  rw [List.length_map, List.length_flatMap] at hlen
  refine hlen.trans (le_of_eq (congrArg List.sum (List.map_congr_left
    fun f _ => ?_)))
  rw [List.length_map, latchKeys, List.length_cons, Nat.add_comm]

end spending

-- ================================================================ the run

/-- Polls that take their row at one epoch stamp at it, and no wake or
release is empty. -/
def atEpoch (a : String) (epoch : Int) : Prog.Contract Op Op.Res Obs where
  pre _ op := match op with
    | .write (.stamp session selected _) =>
        selected ≠ [] ∧ (session.sessionId = a → session.pauseEpoch = epoch)
    | .write (.release _ released) => released ≠ []
    | _ => True
  post _ op r _ := match op, r with
    | .snapshot _, row => ∀ session, row = some session →
        session.sessionId = a → session.pauseEpoch = epoch
    | _, _ => True

/-- At most the prompts of session `a` matter. -/
def continuingRely (a : String) : World.Rely Unit where
  T _ := continuing a
  E _ _ _ := True
  I _ _ := True

/-- What a run without genuine prompts keeps, from log `l₀` on. -/
structure Fed (a : String) (F : List (String × ForkDef)) (epoch : Int)
    (l₀ : List Obs) (w : World) : Prop where
  epoch_eq : (w.daemon.store.pauseOf a).1 = epoch
  outlined : w.Outlined .free (fun _ => atEpoch a epoch) fun _ _ _ _ => True
  relying : w.Relying (continuingRely a)
  spending : ∃ l, w.daemon.log = l ++ l₀
    ∧ Spending a F epoch w.daemon.store l

/-- What such a run asks of its steps. -/
structure Feeds (a : String) (F : List (String × ForkDef)) (w : World)
    (act : Act) : Prop where
  atomic : currentStamp a w act
  defines : w.Defines a F
  stays : w.closes a act = false
  prompts : ∀ ev, act = .receive (.event ev) → ev.event = .promptSubmit →
    ev.sessionId = a → Continues ev
  matched : ∀ k tick ev t, act = .move k tick →
    w.about k = some (.write (.classify ev t)) → ev.sessionId = a →
    w.daemon.store.isForkSpawn a ev.notifToolUseId ev.notifTaskId = true

section run

variable {a : String} {F : List (String × ForkDef)} {epoch : Int}
  {l₀ : List Obs}

private theorem handler_atEpoch (job : Job) (l : List Obs) :
    Prog.Outline .free (atEpoch a epoch) (fun _ _ => True) job.handler l := by
  have hquiet : ∀ l op, op.wakes = false → (atEpoch a epoch).pre l op := by
    intro l op h
    unfold atEpoch
    dsimp only
    split
    · cases h
    · cases h
    · trivial
  refine handler_outline_free (B := fun session _ =>
      session.sessionId = a → session.pauseEpoch = epoch)
    (fun session _ _ _ h => h) hquiet
    (fun b l r l' hpost session hr ha => hpost session hr ha) ?_ ?_ job l
  · intro session l _
    refine ⟨fun _ => trivial, fun _ _ => ⟨trivial, fun released l _ _ => ?_⟩⟩
    show Prog.Outline .free (atEpoch a epoch) (fun _ _ => True)
      (if List.isEmpty released then pure none else _) l
    split
    · trivial
    next hempty =>
      have hne : released ≠ [] := by simpa using hempty
      exact ⟨fun _ => trivial, fun _ _ => ⟨hne, fun _ _ _ _ =>
        ⟨fun _ => trivial, fun _ _ => ⟨trivial, fun _ _ _ _ => trivial⟩⟩⟩⟩
  · exact fun session cfg moments selected t l hl hne hsel => ⟨hne, hl⟩

/-- A poll that is about to stamp keeps to the contract. -/
private theorem Fed.stamps {w : World} (h : Fed a F epoch l₀ w) {k : Nat}
    {session : SessionRow} {selected : List SelectedFork} {t : Int}
    (hab : w.about k = some (.write (.stamp session selected t))) :
    selected ≠ [] ∧ (session.sessionId = a → session.pauseEpoch = epoch) := by
  obtain ⟨task, f, ht, hprog⟩ := World.about_eq_some hab
  exact (h.outlined.next_free ht hprog fun l => handler_atEpoch task.job l).1

private theorem Fed.releases {w : World} (h : Fed a F epoch l₀ w) {k : Nat}
    {session : SessionRow} {released : List PendingDep}
    (hab : w.about k = some (.write (.release session released))) :
    released ≠ [] := by
  obtain ⟨task, f, ht, hprog⟩ := World.about_eq_some hab
  exact (h.outlined.next_free ht hprog fun l => handler_atEpoch task.job l).1

/-- No prompt of session `a` is recorded as genuine. -/
private theorem epoch_step {w : World} {act : Act} (h : Fed a F epoch l₀ w) :
    ((w.step act).daemon.store.pauseOf a).1 = epoch := by
  refine w.store_invariant (C := fun w _ => w.Relying (continuingRely a))
    (Q := fun s _ => (s.pauseOf a).1 = epoch) (fun _ _ _ _ h => h)
    (fun w k tick x hrely hab h => ?_) act h.relying h.epoch_eq
  rcases pauseOf_run k tick.now w.daemon x a with ⟨ev, t, rfl, ha, -⟩
    | ⟨ev, t, -, -, hs⟩ | ⟨hs, -⟩
  · obtain ⟨m, -, hok⟩ := hrely.next hab
    cases hok ha
  · rw [hs]
    exact h
  · rw [hs]
    exact h

private theorem relying_step_fed {w : World} {act : Act}
    (hC : Feeds a F w act) (h : w.Relying (continuingRely a)) :
    (w.step act).Relying (continuingRely a) := by
  refine World.relying_step (fun k op m tick d r hact hab _ _ _ hex => ?_)
    (fun _ _ => trivial) (fun _ _ _ => trivial) (fun job hjob => ?_)
    (fun k b started _ => ?_) h
  · refine ⟨trivial, ?_, trivial⟩
    cases op with
    | write x =>
        cases x with
        | classify ev t =>
            intro ha
            simp only [exec, Option.some.injEq, Prod.mk.injEq] at hex
            rw [← hex.2]
            show (classifyNotification w.daemon.store ev t).2 = true
            rw [classifyNotification_matched, ha]
            exact hC.matched k tick ev t hact hab ha
        | _ => trivial
    | _ => trivial
  · refine ⟨(), trivial, handler_continuing job fun ev heq => ?_⟩
    subst heq
    exact hC.prompts ev (World.receive_of_jobs hjob)
  · exact ⟨(), trivial, (shuts_onPollLost b started).promptless.continuing⟩

private theorem outlined_step_fed {w : World} {act : Act}
    (h : Fed a F epoch l₀ w) :
    (w.step act).Outlined .free (fun _ => atEpoch a epoch)
      fun _ _ _ _ => True := by
  refine h.outlined.step_free (fun _ l op hop => ?_)
    (fun k task _ l => handler_atEpoch task.job l) ?_
  · unfold atEpoch
    dsimp only
    split
    · cases hop
    · cases hop
    · trivial
  · intro k op tick d r _ _ hex
    cases op with
    | snapshot b =>
        intro session hrow ha
        subst hrow
        simp only [exec] at hex
        split at hex
        next session' hsome =>
          simp only [Option.some.injEq, Prod.mk.injEq] at hex
          rw [hex.2] at hsome
          have hb := Store.sessionId_of_getSession hsome
          have hepoch := congrArg Prod.fst (Store.pauseOf_of_getSession hsome)
          rw [← hb, ha, h.epoch_eq] at hepoch
          exact hepoch.symm
        next => cases hex
    | _ => trivial

/-- Every issuance takes latches that are free. -/
private theorem spending_step {w : World} {act : Act}
    (hC : Feeds a F w act) (h : Fed a F epoch l₀ w) :
    ∃ l, (w.step act).daemon.log = l ++ l₀
      ∧ Spending a F epoch (w.step act).daemon.store l := by
  refine w.store_invariant
    (C := fun w act => Feeds a F w act ∧ Fed a F epoch l₀ w)
    (Q := fun s L => ∃ l, L = l ++ l₀ ∧ Spending a F epoch s l)
    ?_ ?_ act ⟨hC, h⟩ h.spending
  · rintro s _ o ho ⟨l, rfl, hl⟩
    refine ⟨[o] ++ l, rfl, hl.extend (fun o' ho' => ?_) fun _ _ => id⟩
    rw [List.mem_singleton.1 ho']
    cases o <;> first | exact ⟨rfl, rfl⟩ | cases ho
  · rintro w k tick x ⟨hC, h⟩ hab ⟨l, hlog, hl⟩
    have hobs : ∀ {obs : List Obs} {s : Store}, Spending a F epoch s (obs ++ l) →
        ∃ l', obs ++ w.daemon.log = l' ++ l₀ ∧ Spending a F epoch s l' :=
      fun hs => ⟨_, by rw [hlog, List.append_assoc], hs⟩
    apply hobs
    by_cases hx : ∃ session selected t, x = .stamp session selected t
    · obtain ⟨session, selected, t, rfl⟩ := hx
      by_cases ha : session.sessionId = a
      · obtain ⟨-, cfg, moments, hsel⟩ := hC.atomic.selected hab ha
        obtain ⟨hne, hepoch⟩ := h.stamps hab
        refine hl.stamp ha hne ?_ (fun x hx => ?_) _
        · rw [hsel]
          exact selectFrom_nodup ..
        · rw [hsel] at hx
          rw [← hepoch ha, ← ha]
          refine selectFrom_latch ?_ hx
          rw [ha]
          exact hC.defines
      · refine hl.extend (fun o ho => ?_) fun f key hlatched =>
          (isLatched_stampWake (k := k)).2 (.inl hlatched)
        rw [List.mem_singleton.1 ho]
        simp [Obs.issuedFor, Obs.wakesFor, ha]
    · push Not at hx
      refine hl.extend (fun o ho => ?_) fun f key hlatched => ?_
      · cases o with
        | issued j session selected t =>
            exact absurd (issued_of_run ho) (hx session selected t)
        | _ => exact ⟨rfl, rfl⟩
      · refine (isLatched_run hx a f key).1.2 ⟨hlatched, fun hclosed => ?_⟩
        have hno := hC.stays
        simp [World.closes, hab, hclosed] at hno

private theorem fed_step (w : World) (act : Act) (hC : Feeds a F w act)
    (h : Fed a F epoch l₀ w) : Fed a F epoch l₀ (w.step act) where
  epoch_eq := epoch_step h
  outlined := outlined_step_fed h
  relying := relying_step_fed hC h.relying
  spending := spending_step hC h

/-- Where no task is under way, such a run may start. -/
private theorem fed_idle {disk : Disk} {bs : List Act}
    (hidle : ∀ k, (World.after disk bs).tasks k = none) :
    Fed a F ((World.after disk bs).daemon.store.pauseOf a).1
      (World.after disk bs).daemon.log (World.after disk bs) where
  epoch_eq := rfl
  outlined :=
    { numbered := World.numbered_after disk bs
      started := fun k task h => by rw [hidle k] at h; cases h
      fresh := fun k task h => by rw [hidle k] at h; cases h
      calm := fun _ => trivial }
  relying := ⟨trivial, fun k task h => by rw [hidle k] at h; cases h⟩
  spending := ⟨[], rfl, List.nodup_nil, fun x hx => (by cases hx), Nat.le_refl _⟩

end run

-- ============================================================ the releases

/-- What is held and what has been released were held at first, or have
been issued. -/
def Draining (a : String) (n : Nat) (s : Store) (l : List Obs) : Prop :=
  (s.held a).length + l.countP (Obs.releasesFor a) ≤ n + (issuances a l).length

section draining

variable {a : String} {n : Nat} {l₀ : List Obs}

private theorem held_length_le {s s' : Store} {names : List String}
    (h : ∀ f ∈ s'.held a, f ∈ s.held a ++ names) :
    (s'.held a).length ≤ (s.held a).length + names.length := by
  have hlen := (List.subperm_of_subset (s'.nodup_held a) h).length_le
  rwa [List.length_append] at hlen

/-- Entries that neither issue nor release, and a store that holds no
more. -/
private theorem Draining.extend {s s' : Store} {l obs : List Obs}
    (h : Draining a n s l) (hobs : ∀ o ∈ obs, o.releasesFor a = false)
    (hheld : ∀ row ∈ s'.pending.rows, row ∈ s.pending.rows) :
    Draining a n s' (obs ++ l) := by
  have hsub : ∀ f ∈ s'.held a, f ∈ s.held a ++ [] := by
    intro f hf
    obtain ⟨row, hrow, ha, hname⟩ := Store.mem_held.1 hf
    rw [List.append_nil]
    exact Store.mem_held.2 ⟨row, hheld row hrow, ha, hname⟩
  have hle := held_length_le hsub
  have hnone : obs.countP (Obs.releasesFor a) = 0 :=
    List.countP_eq_zero.2 fun o ho => by simp [hobs o ho]
  unfold Draining issuances at h ⊢
  rw [List.countP_append, hnone, List.flatMap_append, List.length_append]
  rw [List.length_nil] at hle
  omega

private theorem Draining.stamp {s : Store} {l : List Obs}
    (h : Draining a n s l) (k : Nat) (session : SessionRow)
    (selected : List SelectedFork) (t : Int) (issue : Nat) :
    Draining a n (s.stampWake session selected t issue)
      (.issued k session selected t :: l) := by
  have hheld : ∀ f ∈ (s.stampWake session selected t issue).held a,
      f ∈ s.held a ++ ((Obs.issued k session selected t).issuedFor a).map
        SelectedFork.name := by
    intro f hf
    obtain ⟨row, hrow, ha, rfl⟩ := Store.mem_held.1 hf
    rw [List.mem_append]
    rcases mem_pending_stampWake hrow with hold | ⟨sp, hsp, -, rfl⟩
    · exact .inl (Store.mem_held.2 ⟨row, hold, ha, rfl⟩)
    · have hsel : sp.1 ∈ selected := by
        have := List.mem_map_of_mem (f := Prod.fst) hsp
        rwa [withPreds_map_fst] at this
      rw [Obs.issuedFor, if_pos (show session.sessionId = a from ha)]
      exact .inr (List.mem_map_of_mem hsel)
  have hle := held_length_le hheld
  rw [List.length_map] at hle
  unfold Draining issuances at h ⊢
  rw [List.countP_cons, List.flatMap_cons, List.length_append]
  simp only [Obs.releasesFor, Bool.false_eq_true, if_false]
  omega

/-- A release of what is listed deletes a row for each. -/
private theorem Draining.release {s : Store} {l : List Obs}
    (h : Draining a n s l) {k : Nat} {session : SessionRow}
    {released : List PendingDep} (hne : released ≠ [])
    (hlisted : session.sessionId = a → released = s.releasable a) :
    Draining a n (s.deleteReleased session.sessionId released)
      (.released k session released :: l) := by
  have hrows : ∀ f ∈ (s.deleteReleased session.sessionId released).held a,
      f ∈ s.held a := by
    intro f hf
    obtain ⟨row, hrow, ha, hname⟩ := Store.mem_held.1 hf
    exact Store.mem_held.2
      ⟨row, (mem_pending_deleteReleased.1 hrow).1, ha, hname⟩
  have hcount : ((s.deleteReleased session.sessionId released).held a).length
      + (if Obs.releasesFor a (.released k session released) = true then 1 else 0)
        ≤ (s.held a).length := by
    split
    next ha =>
      have ha : session.sessionId = a := beq_iff_eq.1 ha
      -- the first of the dependents listed goes
      obtain ⟨dep, hdep⟩ := List.exists_mem_of_ne_nil released hne
      have hlist := hdep
      rw [hlisted ha] at hlist
      obtain ⟨⟨row, hrow, hsess, hrowdep⟩, -⟩ := mem_releasable.1 hlist
      have hgone : dep.forkName
          ∉ (s.deleteReleased session.sessionId released).held a := by
        intro hf
        obtain ⟨row', hrow', ha', hname'⟩ := Store.mem_held.1 hf
        exact (mem_pending_deleteReleased.1 hrow').2
          ⟨ha'.trans ha.symm, dep, hdep, hname'.symm⟩
      have hnodup : (dep.forkName
          :: (s.deleteReleased session.sessionId released).held a).Nodup :=
        List.nodup_cons.2 ⟨hgone, Store.nodup_held _ _⟩
      refine (List.subperm_of_subset hnodup fun f hf => ?_).length_le
      rcases List.mem_cons.1 hf with rfl | hf
      · exact Store.mem_held.2 ⟨row, hrow, hsess, by rw [← hrowdep]; rfl⟩
      · exact hrows f hf
    next =>
      exact (List.subperm_of_subset (Store.nodup_held _ _) hrows).length_le
  unfold Draining issuances at h ⊢
  rw [List.countP_cons, List.flatMap_cons, List.length_append]
  simp only [Obs.issuedFor, List.length_nil, Nat.zero_add]
  omega

/-- A run whose releases are in one step drains what it holds. -/
private theorem draining_step {w : World} {act : Act}
    (hcurrent : w.Current a)
    (hreleased : ∀ k session released,
      w.about k = some (.write (.release session released)) → released ≠ [])
    (h : ∃ l, w.daemon.log = l ++ l₀ ∧ Draining a n w.daemon.store l) :
    ∃ l, (w.step act).daemon.log = l ++ l₀
      ∧ Draining a n (w.step act).daemon.store l := by
  refine w.store_invariant (C := fun w _ => w.Current a
      ∧ ∀ k session released,
        w.about k = some (.write (.release session released)) → released ≠ [])
    (Q := fun s L => ∃ l, L = l ++ l₀ ∧ Draining a n s l)
    ?_ ?_ act ⟨hcurrent, hreleased⟩ h
  · rintro s _ o ho ⟨l, rfl, hl⟩
    refine ⟨[o] ++ l, rfl, hl.extend (fun o' ho' => ?_) fun _ => id⟩
    rw [List.mem_singleton.1 ho']
    cases o <;> first | rfl | cases ho
  · rintro w k tick x ⟨hcurrent, hreleased⟩ hab ⟨l, hlog, hl⟩
    rw [hlog]
    refine ⟨_, (List.append_assoc ..).symm, ?_⟩
    cases x with
    | stamp session selected t => exact hl.stamp k session selected t _
    | release session released =>
        exact hl.release (hreleased k session released hab)
          (hcurrent k session released hab)
    | _ =>
        refine hl.extend (fun o ho => ?_)
          (mem_pending_run (by simp) (by simp)).1
        cases o with
        | released j session released =>
            exact absurd (released_of_run ho) (by simp)
        | _ => rfl

end draining

-- ============================================================== the bound

/-- Along the acts, the ids come to match: they match a spawn of the
registry at some moment, or of the lines task `k` ingests then. -/
def World.Vouched (w : World) (a : String) (as : List Act) (k : Nat)
    (toolUseId taskId : Option String) : Prop :=
  ∃ bs cs, as = bs ++ cs
    ∧ ((run World.step w bs).daemon.store.isForkSpawn a toolUseId taskId = true
      ∨ ∃ tick ds delta t, cs = .move k tick :: ds
        ∧ (run World.step w bs).about k = some (.write (.ingest a delta t))
        ∧ delta.Names (run World.step w bs).daemon.store a toolUseId taskId)

/-- Once they have, they match for good. -/
theorem World.Vouched.matched {w : World} {a : String} {as : List Act}
    {k : Nat} {toolUseId taskId : Option String}
    (h : w.Vouched a as k toolUseId taskId)
    (hopen : Along World.step (fun w act => w.closes a act = false) w as) :
    (run World.step w as).daemon.store.isForkSpawn a toolUseId taskId
      = true := by
  obtain ⟨bs, cs, rfl, hmatch | ⟨tick, ds, delta, t, rfl, hab, hnames⟩⟩ := h
  · rw [along_append] at hopen
    rw [run_append]
    exact hopen.2.invariant (P := fun w : World =>
      w.daemon.store.isForkSpawn a toolUseId taskId = true)
      (fun w act hact h => w.isForkSpawn_step act hact h) hmatch
  · rw [along_append] at hopen
    rw [run_append, run_cons]
    refine hopen.2.2.invariant (P := fun w : World =>
      w.daemon.store.isForkSpawn a toolUseId taskId = true)
      (fun w act hact h => w.isForkSpawn_step act hact h) ?_
    rw [World.step_write hab]
    exact isForkSpawn_applyDelta hnames t

section bound

variable {disk : Disk} {a : String} {F : List (String × ForkDef)}
  {bs cs : List Act}

/-- A run whose releases are in one step, from where no task is under
way, drains. -/
private theorem draining_of_whole
    (hidle : ∀ k, (World.after disk bs).tasks k = none)
    (hfeeds : Along World.step (Feeds a F) (World.after disk bs) cs)
    (hwhole : Along World.step (fun w act => releaseWhole a w act = true)
      (World.after disk bs) cs) :
    ∃ l, (World.after disk (bs ++ cs)).daemon.log
        = l ++ (World.after disk bs).daemon.log
      ∧ Draining a ((World.after disk bs).daemon.store.held a).length
        (World.after disk (bs ++ cs)).daemon.store l := by
  have hcurrent : (World.after disk bs).Current a := by
    intro k session released hab _
    obtain ⟨task, f, ht, -⟩ := World.about_eq_some hab
    rw [hidle k] at ht
    cases ht
  rw [World.after, run_append]
  refine ((hfeeds.and hwhole).invariant (P := fun w : World =>
      Fed a F ((World.after disk bs).daemon.store.pauseOf a).1
          (World.after disk bs).daemon.log w
        ∧ w.Current a ∧ w.Listing
        ∧ ∃ l, w.daemon.log = l ++ (World.after disk bs).daemon.log
          ∧ Draining a ((World.after disk bs).daemon.store.held a).length
            w.daemon.store l) (fun w act hC h => ?_) ?_).2.2.2
  · obtain ⟨hfed, hcurrent, hlisting, hdraining⟩ := h
    exact ⟨fed_step w act hC.1 hfed,
      World.current_step w act hfed.outlined.numbered hlisting hC.2 hcurrent,
      World.listing_step w act hlisting,
      draining_step hcurrent (fun _ _ _ => hfed.releases) hdraining⟩
  · exact ⟨fed_idle hidle, hcurrent, World.listing_after disk bs, [], rfl,
      Nat.le_refl _⟩

/-- Take any run from a state in which no task is under way, with fixed
definitions `F`, each stamping of what is selected at it, the session
never closed, and no prompts of it but what its wakes bring back, those
with ids each vouched for by the time it is classified. The epoch does
not change, a fork is issued at most once for its idle latch and once
for each label of its context thresholds, and so there are no more
wakes than that, nor, if releases are in one step, releases. -/
theorem no_wake_feedback
    (hidle : ∀ k, (World.after disk bs).tasks k = none)
    (hforks : Along World.step (fun w _ => w.Defines a F)
      (World.after disk bs) cs)
    (hatomic : Along World.step (currentStamp a) (World.after disk bs) cs)
    (hopen : Along World.step (fun w act => w.closes a act = false)
      (World.after disk bs) cs)
    (hprompts : ∀ ev, .receive (.event ev) ∈ cs →
      ev.event = .promptSubmit → ev.sessionId = a → Continues ev)
    (hvouched : ∀ ds k tick es ev t, cs = ds ++ .move k tick :: es →
      (World.after disk (bs ++ ds)).about k
        = some (.write (.classify ev t)) → ev.sessionId = a →
      (World.after disk bs).Vouched a ds k ev.notifToolUseId
        ev.notifTaskId) :
    let l := newer (World.after disk bs).daemon.log
      (World.after disk (bs ++ cs)).daemon.log
    let bound := (F.map fun f => 1 + (contextLabels f.2).length).sum
    (∀ ds, ds <+: cs → ((World.after disk (bs ++ ds)).daemon.store.pauseOf a).1
        = ((World.after disk bs).daemon.store.pauseOf a).1)
      ∧ (∀ f fork, F.lookup f = some fork →
        (issuances a l).countP (fun x => x.name == f)
          ≤ 1 + (contextLabels fork).length)
      ∧ l.countP (Obs.wakesFor a) ≤ bound
      ∧ (Along World.step (fun w act => releaseWhole a w act = true)
          (World.after disk bs) cs →
        l.countP (Obs.releasesFor a)
          ≤ ((World.after disk bs).daemon.store.held a).length + bound) := by
  intro l bound
  have hafter : ∀ ds, World.after disk (bs ++ ds)
      = run World.step (World.after disk bs) ds := fun ds => run_append ..
  have hfeeds : Along World.step (Feeds a F) (World.after disk bs) cs := by
    refine along_iff.2 fun ds act es heq => ?_
    have hbefore := hopen
    rw [heq, along_append] at hbefore
    constructor
    · exact along_iff.1 hatomic ds act es heq
    · exact along_iff.1 hforks ds act es heq
    · exact along_iff.1 hopen ds act es heq
    · rintro ev rfl
      exact hprompts ev (by simp [heq])
    · rintro k tick ev t rfl hab ha
      rw [← hafter] at hab
      exact (hvouched ds k tick es ev t heq hab ha).matched hbefore.1
  have hfed : ∀ ds, ds <+: cs → Fed a F
      ((World.after disk bs).daemon.store.pauseOf a).1
      (World.after disk bs).daemon.log (World.after disk (bs ++ ds)) := by
    rintro ds ⟨es, rfl⟩
    rw [along_append] at hfeeds
    rw [hafter]
    exact hfeeds.1.invariant fed_step (fed_idle hidle)
  obtain ⟨l', hlog, hspending⟩ := (hfed cs (List.prefix_refl cs)).spending
  have hl : l = l' := by
    rw [show l = newer _ _ from rfl, hlog, newer_append]
  rw [hl]
  refine ⟨fun ds hds => (hfed ds hds).epoch_eq,
    fun f fork hf => hspending.count_le hf,
    hspending.wakes.trans hspending.length_le, fun hwhole => ?_⟩
  obtain ⟨l'', hlog', hdraining⟩ := draining_of_whole hidle hfeeds hwhole
  obtain rfl : l'' = l' := List.append_cancel_right (hlog'.symm.trans hlog)
  have hle := hspending.length_le
  unfold Draining at hdraining
  omega

end bound

-- --------------------------------------------------- one turn of the loop

/-- A fork due as soon as a turn has used a token; the transcript shows its
spawn. -/
private def spawning : Disk :=
  .holding [("f", { runOn := [.contextTokens 1] })]
    { wakeDebounceSecs := 0 }
    (some { newOffset := 1, promptTokens := some 5, spawns := [("u", some "f")] })

/-- The wake as a prompt. -/
private def quotingPrompt : String :=
  buildWakePayload "s" "t" "/p" [⟨"f", "f", "context_tokens:1", false, []⟩] []
    ++ "\n"

private def quotingEvent : Event :=
  { Event.simple .promptSubmit "s" with waking := some false }

private def spawnEvent : Event :=
  { Event.simple .promptSubmit "s" with
    waking := some false
    notifToolUseId := some "u"
    notifStatus := some "completed" }

/-- The user's prompt, handled. -/
private def prompted : List Act := .prompt "s" :: Act.moves 5 0 5

/-- A Stop is answered with a wake; the prompt that quotes it, another
Stop, and the notification of the fork it spawned. -/
private def looping : List Act :=
  .stop "s" :: Act.moves 32 1 10
    ++ .receive (.event quotingEvent) :: Act.moves 5 2 11
    ++ .stop "s" :: Act.moves 27 3 12
    ++ .receive (.event spawnEvent) :: Act.moves 10 4 100

private theorem continues_quoting : Continues quotingEvent := by
  let input : HookInput :=
    { sessionId := "s", transcriptPath := some "t", prompt := some quotingPrompt }
  let env : HookEnv := { cwd := "/p", projectRoot := "/p" }
  have hquotes : QuotesWake quotingPrompt :=
    ⟨"s", "t", "/p", _, List.cons_ne_nil _ _, .inl ⟨[], contains_append_left _ _⟩⟩
  have hev : userPromptSubmit input env = quotingEvent :=
    userPromptSubmit_of_marker rfl hquotes.marker
  rw [← hev]
  exact .quote rfl hquotes

/-- What is classified matches. -/
private def classifiesMatched (w : World) : Act → Bool
  | .move k _ => match w.about k with
      | some (.write (.classify ev _)) => w.daemon.store.isForkSpawn
          ev.sessionId ev.notifToolUseId ev.notifTaskId
      | _ => true
  | _ => true

private theorem vouched_of_matched {disk : Disk} {a : String}
    {bs cs : List Act}
    (h : Along World.step (fun w act => classifiesMatched w act = true)
      (World.after disk bs) cs) :
    ∀ ds k tick es ev t, cs = ds ++ .move k tick :: es →
      (World.after disk (bs ++ ds)).about k
        = some (.write (.classify ev t)) → ev.sessionId = a →
      (World.after disk bs).Vouched a ds k ev.notifToolUseId
        ev.notifTaskId := by
  intro ds k tick es ev t heq hab ha
  rw [World.after, run_append] at hab
  have hmatch := along_iff.1 h ds _ es heq
  simp only [classifiesMatched, hab] at hmatch
  exact ⟨ds, [], (List.append_nil ds).symm, .inl (ha ▸ hmatch)⟩

private theorem prompted_idle (k : Nat) :
    (World.after spawning prompted).tasks k = none := by
  by_contra hne
  obtain ⟨task, ht⟩ := Option.ne_none_iff_exists'.1 hne
  have hlt := (World.numbered_after spawning prompted).lt ht
  have hlen : (World.after spawning prompted).jobs.length = 1 := by
    decide +kernel
  obtain rfl : k = 0 := by omega
  have hnone : ((World.after spawning prompted).tasks 0).isNone = true := by
    decide +kernel
  exact hne (Option.isNone_iff_eq_none.1 hnone)

/-- The wake comes back twice, and nothing more comes of it. -/
theorem no_wake_feedback_turn :
    let l := newer (World.after spawning prompted).daemon.log
      (World.after spawning (prompted ++ looping)).daemon.log
    (∀ ds, ds <+: looping →
        ((World.after spawning (prompted ++ ds)).daemon.store.pauseOf "s").1
          = ((World.after spawning prompted).daemon.store.pauseOf "s").1)
      ∧ (issuances "s" l).countP (fun x => x.name == "f") ≤ 2
      ∧ l.countP (Obs.wakesFor "s") ≤ 2 ∧ l.countP (Obs.releasesFor "s") ≤ 2 := by
  have hatomic : Along World.step (currentStamp "s")
      (World.after spawning prompted) looping := by
    have h : Along World.step (fun w act => stampsFrom
          { wakeDebounceSecs := 0 } [.context 5 (some 200000)] w act = true)
        (World.after spawning prompted) looping := by decide +kernel
    exact h.mono fun _ _ hw => currentStamp_of_stampsFrom hw "s"
  have hprompts : ∀ ev, .receive (.event ev) ∈ looping →
      ev.event = .promptSubmit → ev.sessionId = "s" → Continues ev := by
    intro ev hev _ _
    simp only [looping, Act.stop, Act.moves, List.reduceReplicate,
      List.cons_append, List.nil_append, List.mem_cons, Act.receive.injEq,
      reduceCtorEq, Request.event.injEq, List.not_mem_nil, or_self, or_false,
      false_or] at hev
    rcases hev with rfl | rfl
    · exact continues_quoting
    · exact .ids rfl
  obtain ⟨hepoch, hcount, hwakes, hreleases⟩ := no_wake_feedback (a := "s")
    (F := [("f", { runOn := [.contextTokens 1] })])
    prompted_idle (by decide +kernel) hatomic (by decide +kernel) hprompts
    (vouched_of_matched (by decide +kernel))
  have hheld : (World.after spawning prompted).daemon.store.held "s" = [] := by
    decide +kernel
  have hdrained := hreleases (by decide +kernel)
  rw [hheld] at hdrained
  exact ⟨hepoch, hcount "f" _ rfl, hwakes, hdrained⟩

end Autofork
