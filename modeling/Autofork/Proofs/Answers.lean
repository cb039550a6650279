/-
Every line a connection takes up is answered once and in order, and
every task the daemon runs for a client is for one line of one
connection.

A step of one connection leaves the others' records as they are, as no
task belongs to two lines (`Serviced`). So the records are in order in
every run, and what they say of one connection holds however the others
come between (`answers_in_order`).

A client that writes a line only once it has been answered (`inTurn`)
loses none: nothing it writes arrives while a poll is parked, and the
answer it reads is that to the line it wrote, which is why it need not
look at the number (`answers_in_turn`).
-/
import Autofork.Proofs.Records

namespace Autofork

open Lib

-- ========================================================= all of them

namespace Service

/-- Every connection's record is in order, and each task of a client is
for one line of one connection. -/
structure Serviced (reader : LineReader) (said : Nat → Sayings) (s : Service) :
    Prop where
  filed : s.world.Filed
  sound : ∀ (c : Nat) (conn : Conn), s.conns[c]? = some conn →
    conn.Sound (said c) reader s.world
  apart : ∀ (c c' : Nat) (conn conn' : Conn) (p p' : Nat × Nat),
    s.conns[c]? = some conn → s.conns[c']? = some conn' → p ∈ conn.tasks →
    p' ∈ conn'.tasks → p.2 = p'.2 → c = c' ∧ p = p'
  owned : ∀ (k : Nat) (req : Request),
    s.world.jobs[k]? = some (.request req) →
    ∃ (c : Nat) (conn : Conn) (n : Nat), s.conns[c]? = some conn
      ∧ (n, k) ∈ conn.tasks

theorem serviced_init (reader : LineReader) (said : Nat → Sayings)
    (boot : Boot) : (init boot).Serviced reader said where
  filed := World.filed_init _
  sound c conn hc := by cases hc
  apart c c' conn conn' p p' hc := by cases hc
  owned k req hk := by cases hk

/-- A new connection has nothing on record. -/
theorem sound_new (said : Sayings) (reader : LineReader) (w : World) :
    ({} : Conn).Sound said reader w where
  accounted := .nil
  ordered := .nil
  due p hp := by cases hp
  asked p hp := by cases hp
  once := .nil
  stands := trivial
  live p hp := by cases hp
  delivers p hp := by cases hp

variable {reader : LineReader} {said : Nat → Sayings} {s : Service}

/-- A step of one connection's task leaves the others' tasks alone. -/
theorem Serviced.keeps (h : s.Serviced reader said) {c c' : Nat}
    {conn conn' next : Conn} {draw : Chance} {a : Option Act}
    (hc : s.conns[c]? = some conn) (hw : Worked reader s draw conn next a)
    (hc' : s.conns[c']? = some conn') (hne : c' ≠ c) :
    ∀ p ∈ conn'.tasks, World.Keeps s.world (s.world.took a) p.2 := by
  intro p hp
  have hlt := (h.sound c' conn' hc').lt hp
  rcases hw.tasks (h.sound c conn hc) with ⟨-, hown⟩ | ⟨n, req, rfl, -⟩
  · cases a with
    | none => exact .refl ..
    | some act =>
        obtain ⟨n, k, hk, hact⟩ := hown act rfl
        have hpk : p.2 ≠ k := fun hpk =>
          hne (h.apart c' c conn' conn p (n, k) hc' hc hp hk hpk).1
        rcases hact with rfl | ⟨tick, rfl⟩
        · exact World.keeps_step hlt (fun _ ha => by cases ha)
            fun ha => hpk (Act.lose.inj ha).symm
        · exact World.keeps_step hlt (fun _ ha => hpk (Act.move.inj ha).1.symm)
            fun ha => by cases ha
  · show World.Keeps s.world (s.world.step (.receive req)) p.2
    exact World.keeps_step hlt (fun _ ha => by cases ha) fun ha => by cases ha

/-- What no connection has asked for leaves their tasks alone. -/
theorem Serviced.keeps_unasked (h : s.Serviced reader said) {a : Option Act}
    (ha : ∀ act, a = some act → Unasked s act) {c : Nat} {conn : Conn}
    (hc : s.conns[c]? = some conn) :
    ∀ p ∈ conn.tasks, World.Keeps s.world (s.world.took a) p.2 := by
  intro p hp
  have hlt := (h.sound c conn hc).lt hp
  cases a with
  | none => exact .refl ..
  | some act =>
      refine World.keeps_step hlt (fun tick hact => ?_) fun hact => ?_
      · have hun := ha act rfl
        subst hact
        obtain ⟨_, _, req, -, -, hjob⟩ := (h.sound c conn hc).asked p hp
        cases hun with
        | turn tick hback =>
            rw [World.background, hjob] at hback
            cases hback
      · have hun := ha act rfl
        subst hact
        cases hun

theorem took_jobs (w : World) (a : Option Act) :
    w.jobs <+: (w.took a).jobs := by
  cases a with
  | none => exact List.prefix_refl _
  | some act => exact w.step_jobs act

theorem took_log (w : World) (a : Option Act) :
    w.daemon.log <:+ (w.took a).daemon.log := by
  cases a with
  | none => exact List.suffix_refl _
  | some act => exact w.step_log act

/-- What a list of connections reads at a place that has been set. -/
theorem conns_set {conns : List Conn} {c c' : Nat} {conn next conn' : Conn}
    (hc : conns[c]? = some conn)
    (h : (conns.set c next)[c']? = some conn') :
    (c' = c ∧ conn' = next) ∨ (c' ≠ c ∧ conns[c']? = some conn') := by
  by_cases hcc : c' = c
  · subst hcc
    have hlt := (List.getElem?_eq_some_iff.1 hc).1
    rw [List.getElem?_set_self hlt, Option.some.injEq] at h
    exact .inl ⟨rfl, h.symm⟩
  · rw [List.getElem?_set_ne (fun he => hcc he.symm)] at h
    exact .inr ⟨hcc, h⟩

/-- One connection's step keeps every record in order. -/
theorem Serviced.worked (h : s.Serviced reader said) {s' : Service} {c : Nat}
    {conn next : Conn} {draw : Chance} {a : Option Act}
    (hc : s.conns[c]? = some conn) (hw : Worked reader s draw conn next a)
    (hsaid : ∀ body answer, Plain s draw.now body answer → said c body answer)
    (hconns : s'.conns = s.conns.set c next)
    (hworld : s'.world = s.world.took a) : s'.Serviced reader said := by
  have hsound := hw.sound h.filed hsaid (h.sound c conn hc)
  have hself : s'.conns[c]? = some next := by
    rw [hconns, List.getElem?_set_self (List.getElem?_eq_some_iff.1 hc).1]
  have hother : ∀ {c' : Nat} {conn' : Conn}, c' ≠ c →
      s.conns[c']? = some conn' → s'.conns[c']? = some conn' := by
    intro c' conn' hne hc'
    rw [hconns, List.getElem?_set_ne (fun he => hne he.symm)]
    exact hc'
  -- a task of the connection is one it had, or has the next number
  obtain ⟨new, htasks, hnew⟩ : ∃ new : List (Nat × Nat),
      next.tasks = conn.tasks ++ new
        ∧ (new = [] ∨ ∃ n, new = [(n, s.world.jobs.length)]) := by
    rcases hw.tasks (h.sound c conn hc) with ⟨hsame, -⟩ | ⟨n, req, -, hsame⟩
    · exact ⟨[], by rw [hsame, List.append_nil], .inl rfl⟩
    · exact ⟨_, hsame, .inr ⟨n, rfl⟩⟩
  have hlen : ∀ p ∈ new, p.2 = s.world.jobs.length := by
    intro p hp
    rcases hnew with rfl | ⟨n, rfl⟩
    · cases hp
    · rw [List.mem_singleton.1 hp]
  have hown : ∀ p ∈ next.tasks, ∀ p' ∈ next.tasks, p.2 = p'.2 → p = p' := by
    intro p hp p' hp' heq
    rw [htasks] at hp hp'
    rcases List.mem_append.1 hp with hp | hp <;>
      rcases List.mem_append.1 hp' with hp' | hp'
    · exact (h.apart c c conn conn p p' hc hc hp hp' heq).2
    · have := (h.sound c conn hc).lt hp
      have := hlen p' hp'
      omega
    · have := (h.sound c conn hc).lt hp'
      have := hlen p hp
      omega
    · rcases hnew with rfl | ⟨n, rfl⟩
      · cases hp
      · rw [List.mem_singleton.1 hp, List.mem_singleton.1 hp']
  have hcross : ∀ {c' : Nat} {conn' : Conn} {p p' : Nat × Nat}, c' ≠ c →
      s.conns[c']? = some conn' → p ∈ next.tasks → p' ∈ conn'.tasks →
      p.2 ≠ p'.2 := by
    intro c' conn' p p' hne hc' hp hp' heq
    rw [htasks] at hp
    rcases List.mem_append.1 hp with hp | hp
    · exact hne (h.apart c c' conn conn' p p' hc hc' hp hp' heq).1.symm
    · have := (h.sound c' conn' hc').lt hp'
      have := hlen p hp
      omega
  refine ⟨hworld ▸ World.filed_took h.filed a, ?_, ?_, ?_⟩
  · intro c' conn' hc'
    rw [hconns] at hc'
    rw [hworld]
    rcases conns_set hc hc' with ⟨rfl, rfl⟩ | ⟨hne, hold⟩
    · exact hsound
    · exact (h.sound c' conn' hold).keep (took_jobs _ a) (took_log _ a)
        (h.keeps hc hw hold hne)
  · intro c₁ c₂ conn₁ conn₂ p₁ p₂ hc₁ hc₂ hp₁ hp₂ heq
    rw [hconns] at hc₁ hc₂
    rcases conns_set hc hc₁ with ⟨rfl, rfl⟩ | ⟨hne₁, hold₁⟩
    · rcases conns_set hc hc₂ with ⟨rfl, rfl⟩ | ⟨hne₂, hold₂⟩
      · exact ⟨rfl, hown p₁ hp₁ p₂ hp₂ heq⟩
      · exact absurd heq (hcross hne₂ hold₂ hp₁ hp₂)
    · rcases conns_set hc hc₂ with ⟨rfl, rfl⟩ | ⟨hne₂, hold₂⟩
      · exact absurd heq.symm (hcross hne₁ hold₁ hp₂ hp₁)
      · exact h.apart c₁ c₂ conn₁ conn₂ p₁ p₂ hold₁ hold₂ hp₁ hp₂ heq
  · intro k req hk
    rw [hworld] at hk
    have hfrom : s.world.jobs[k]? = some (.request req)
        ∨ (a = some (.receive req) ∧ k = s.world.jobs.length) := by
      cases a with
      | none => exact .inl hk
      | some act =>
          rcases World.request_of_step hk with hold | ⟨rfl, hnext⟩
          · exact .inl hold
          · exact .inr ⟨rfl, hnext⟩
    rcases hfrom with hk | ⟨rfl, rfl⟩
    · obtain ⟨c', conn', n, hc', hn⟩ := h.owned k req hk
      by_cases hcc : c' = c
      · subst hcc
        rw [hc, Option.some.injEq] at hc'
        exact ⟨c', next, n, hself, by
          rw [htasks, hc']
          exact List.mem_append_left _ hn⟩
      · exact ⟨c', conn', n, hother hcc hc', hn⟩
    · rcases hw.tasks (h.sound c conn hc) with ⟨-, hact⟩ | ⟨n, req', -, hsame⟩
      · obtain ⟨_, _, -, hact | ⟨_, hact⟩⟩ := hact _ rfl <;> cases hact
      · exact ⟨c, next, n, hself, by rw [hsame]; simp⟩

/-- What comes from outside keeps every record in order. -/
theorem Serviced.outside (h : s.Serviced reader said) {s' : Service} {m : Move}
    {a : Option Act} (hout : Outside m s.conns s'.conns)
    (hworld : s'.world = s.world.took a)
    (ha : ∀ act, a = some act → Unasked s act) : s'.Serviced reader said := by
  have hnew : ∀ (k : Nat) (req : Request),
      s'.world.jobs[k]? = some (.request req) →
      s.world.jobs[k]? = some (.request req) := by
    intro k req hk
    rw [hworld] at hk
    cases a with
    | none => exact hk
    | some act =>
        rcases World.request_of_step hk with hk | ⟨rfl, -⟩
        · exact hk
        · cases ha _ rfl
  have hkept : ∀ (c : Nat) (conn : Conn), s.conns[c]? = some conn →
      conn.Sound (said c) reader s'.world := by
    intro c conn hc
    rw [hworld]
    exact (h.sound c conn hc).keep (took_jobs _ a) (took_log _ a)
      (h.keeps_unasked ha hc)
  -- each connection has the record it had, and each record its connection
  have hback : ∀ (c : Nat) (conn' : Conn), s'.conns[c]? = some conn' →
      conn'.Sound (said c) reader s'.world ∧ (conn'.tasks = []
        ∨ ∃ conn, s.conns[c]? = some conn ∧ conn.tasks = conn'.tasks) := by
    intro c conn' hc'
    generalize s'.conns = conns at hout hc'
    cases hout with
    | none => exact ⟨hkept c conn' hc', .inr ⟨conn', hc', rfl⟩⟩
    | accept =>
        by_cases hlt : c < s.conns.length
        · rw [List.getElem?_append_left hlt] at hc'
          exact ⟨hkept c conn' hc', .inr ⟨conn', hc', rfl⟩⟩
        · rw [List.getElem?_append_right (Nat.le_of_not_lt hlt)] at hc'
          have hmem := List.mem_of_getElem? hc'
          rw [List.mem_singleton.1 hmem]
          exact ⟨sound_new _ reader _, .inl rfl⟩
    | @arrive c₀ line conn hm hc₀ hend =>
        rcases conns_set hc₀ hc' with ⟨rfl, rfl⟩ | ⟨-, hold⟩
        · exact ⟨(hkept c conn hc₀).received _ _ _, .inr ⟨conn, hc₀, rfl⟩⟩
        · exact ⟨hkept c conn' hold, .inr ⟨conn', hold, rfl⟩⟩
    | @hangUp c₀ conn hc₀ =>
        rcases conns_set hc₀ hc' with ⟨rfl, rfl⟩ | ⟨-, hold⟩
        · exact ⟨(hkept c conn hc₀).received _ _ _, .inr ⟨conn, hc₀, rfl⟩⟩
        · exact ⟨hkept c conn' hold, .inr ⟨conn', hold, rfl⟩⟩
  have hfor : ∀ (c : Nat) (conn : Conn), s.conns[c]? = some conn →
      ∃ conn', s'.conns[c]? = some conn' ∧ conn'.tasks = conn.tasks := by
    intro c conn hc
    generalize s'.conns = conns at hout
    have hset : ∀ {c₀ : Nat} {conn₀ : Conn} (next : Conn),
        s.conns[c₀]? = some conn₀ → next.tasks = conn₀.tasks →
        ∃ conn', (s.conns.set c₀ next)[c]? = some conn'
          ∧ conn'.tasks = conn.tasks := by
      intro c₀ conn₀ next hc₀ hsame
      by_cases hcc : c₀ = c
      · subst hcc
        rw [hc₀, Option.some.injEq] at hc
        exact ⟨next, List.getElem?_set_self
          (List.getElem?_eq_some_iff.1 hc₀).1, by rw [hsame, hc]⟩
      · exact ⟨conn, by rw [List.getElem?_set_ne hcc, hc], rfl⟩
    cases hout with
    | none => exact ⟨conn, hc, rfl⟩
    | accept =>
        exact ⟨conn, by
          rw [List.getElem?_append_left (List.getElem?_eq_some_iff.1 hc).1, hc],
          rfl⟩
    | arrive hm hc₀ hend => exact hset _ hc₀ rfl
    | hangUp hc₀ => exact hset _ hc₀ rfl
  refine ⟨hworld ▸ World.filed_took h.filed a,
    fun c conn' hc' => (hback c conn' hc').1, ?_, fun k req hk => ?_⟩
  · intro c c' conn conn' p p' hc hc' hp hp' heq
    rcases (hback c conn hc).2 with hnil | ⟨old, hold, hsame⟩
    · rw [hnil] at hp
      cases hp
    · rcases (hback c' conn' hc').2 with hnil | ⟨old', hold', hsame'⟩
      · rw [hnil] at hp'
        cases hp'
      · exact h.apart c c' old old' p p' hold hold' (hsame ▸ hp)
          (hsame' ▸ hp') heq
  · obtain ⟨c, conn, n, hc, hn⟩ := h.owned k req (hnew k req hk)
    obtain ⟨conn', hc', hsame⟩ := hfor c conn hc
    exact ⟨c, conn', n, hc', hsame ▸ hn⟩

theorem serviced_step (h : s.Serviced reader said) (m : Move)
    (hsaid : ∀ c draw body answer, m = .work c draw →
      Plain s draw.now body answer → said c body answer) :
    (s.step reader m).Serviced reader said := by
  rcases s.step_cases reader m with
    ⟨c, conn, draw, next, a, hm, hc, hw, hg⟩ | ⟨hout, -, -, a, hworld, ha⟩
  · exact h.worked hc hw (fun _ _ => hsaid c draw _ _ hm) hg.conns hg.world
  · exact h.outside hout hworld fun act hact => (ha act hact).1

/-- What the daemon has said of itself to connection `c`: at a step of its
task, with the state and the clock as they were then. -/
def Said (reader : LineReader) (boot : Boot) (ms : List Move) (c : Nat) :
    Sayings := fun body answer => ∃ (ps : List Move) (draw : Chance),
  ps ++ [.work c draw] <+: ms
    ∧ Plain (after reader boot ps) draw.now body answer

theorem serviced_after (reader : LineReader) (boot : Boot) (ms : List Move) :
    (after reader boot ms).Serviced reader (Said reader boot ms) := by
  induction ms using List.reverseRecOn with
  | nil => exact serviced_init reader _ boot
  | append_singleton ms m ih =>
      have hms : ms <+: ms ++ [m] := List.prefix_append ms [m]
      have hheed : (after reader boot ms).Serviced reader
          (Said reader boot (ms ++ [m])) :=
        { ih with
          sound := fun c conn hc => (ih.sound c conn hc).heed
            fun _ _ ⟨ps, draw, hps, hplain⟩ =>
              ⟨ps, draw, hps.trans hms, hplain⟩ }
      rw [after, run_append]
      refine serviced_step hheed m fun c draw _ _ hm hplain => ?_
      exact ⟨ms, draw, hm ▸ List.prefix_refl _, hplain⟩

end Service

/-- Every line a connection takes up is settled once: its answer has been
written, or could not be, or its poll was lost, or it is the one the
connection is at. Answers go out in the order of the lines, each is due
to its line, and no task is for two lines, of one connection or of
two. -/
theorem answers_in_order {reader : LineReader} {boot : Boot} {ms : List Move}
    {c : Nat} {conn : Conn}
    (hc : (Service.after reader boot ms).conns[c]? = some conn) :
    (conn.sent.map Prod.fst ++ conn.unsent ++ conn.lost
        ++ conn.pending).Perm (List.range conn.heard.length)
      ∧ (conn.sent.map Prod.fst).Pairwise (· < ·)
      ∧ (∀ p ∈ conn.sent, ∃ line, conn.heard[p.1]? = some line
        ∧ DueTo (Service.Said reader boot ms c)
          (Service.after reader boot ms).world conn.tasks p.1
          (reader.reaction line) p.2)
      ∧ (conn.tasks.map Prod.fst).Nodup
      ∧ ∀ (c' : Nat) (conn' : Conn) (p p' : Nat × Nat),
        (Service.after reader boot ms).conns[c']? = some conn' →
        p ∈ conn.tasks → p' ∈ conn'.tasks → p.2 = p'.2 → c = c' ∧ p = p' := by
  have h := Service.serviced_after reader boot ms
  have hsound := h.sound c conn hc
  refine ⟨hsound.accounted, hsound.ordered, hsound.due, hsound.once, ?_⟩
  intro c' conn' p p' hc' hp hp' heq
  exact h.apart c c' conn conn' p p' hc hc' hp hp' heq

-- ---------------------------------------------------- a poll, a minute on

/-- A client that asks for a poll of session `s`, and how the daemon
is. -/
def LineReader.polling : LineReader :=
  .holding [("poll", {
      proto := .ofNat protoVersion
      id := 7
      body := .stopWait (.simple .stop "s") }),
    ("status", { proto := .ofNat protoVersion, id := 8, body := .status })]

/-- A daemon of a user with a fork that is due after a minute. -/
def Boot.minutely : Boot :=
  .holding [("f", { runOn := [.idle (some 60)] })] { wakeDebounceSecs := 0 }

/-- The poll is recorded, finds its fork due a minute later, and is
answered. -/
def woken : List Move :=
  [.accept, .work 0 {}, .work 0 {}, .arrive 0 "poll", .work 0 {}, .work 0 {}]
    ++ List.replicate 5 (.work 0 {})
    ++ List.replicate 30 (.work 0 { now := 70 })

/-- The client has asked how the daemon is before. -/
private def askedFirst : List Move :=
  [.accept, .work 0 {}, .work 0 {}, .arrive 0 "status"]
    ++ List.replicate 4 (.work 0 { now := 5 }) ++ [.arrive 0 "poll"]
    ++ List.replicate 7 (.work 0 { now := 10 })
    ++ List.replicate 30 (.work 0 { now := 80 })

theorem answers_in_order_woken :
    ∃ conn, (Service.after .polling .minutely askedFirst).conns[0]? = some conn
      ∧ conn.sent.length = 2 ∧ (conn.sent.map Prod.fst).Pairwise (· < ·)
      ∧ ∀ p ∈ conn.sent, ∃ line, conn.heard[p.1]? = some line
        ∧ DueTo (Service.Said .polling .minutely askedFirst 0)
          (Service.after .polling .minutely askedFirst).world conn.tasks p.1
          (LineReader.polling.reaction line) p.2 := by
  have hrun : (Service.after .polling .minutely askedFirst).conns[0]?.map
      (fun conn => conn.sent.length) = some 2 := by decide +kernel
  obtain ⟨conn, hc, hlen⟩ := Option.map_eq_some_iff.1 hrun
  obtain ⟨-, hordered, hdue, -⟩ := answers_in_order hc
  exact ⟨conn, hc, hlen, hordered, hdue⟩

-- ====================================================== a client in turn

/-- The client of connection `c` writes a line, no blank one, only once
every line before it has been answered. -/
def inTurn (c : Nat) (s : Service) : Move → Prop
  | .arrive c' line => c' = c → trim line.toList ≠ []
      ∧ ∀ conn : Conn, s.conns[c]? = some conn → conn.ended = false →
        conn.sent.length = conn.arrived.length
  | _ => True

instance (c : Nat) (s : Service) : (m : Move) → Decidable (inTurn c s m)
  | .arrive c' line => inferInstanceAs (Decidable (c' = c →
      trim line.toList ≠ [] ∧ ∀ conn ∈ s.conns[c]?, conn.ended = false →
        conn.sent.length = conn.arrived.length))
  | .accept | .hangUp _ | .work .. | .reap | .grace _ | .turn .. | .edit ..
  | .quiet _ | .shutDown | .exit _ => isTrue trivial

/-- A connection whose client writes in turn. -/
structure Conn.InTurn (conn : Conn) : Prop where
  strays : conn.strays = []
  arrived : conn.arrived = conn.heard ++ conn.inbox
  /-- A line arrives only when all others have been answered. -/
  inbox : conn.inbox = [] ∨ (conn.sent.length = conn.heard.length
    ∧ ∃ line, conn.inbox = [line] ∧ trim line.toList ≠ [])
  busy : conn.stage.busy = true → conn.sent.length + 1 = conn.heard.length
  /-- No answer but the last has been left out. -/
  numbers : conn.sent.map Prod.fst = List.range conn.sent.length

theorem Protocol.Request.reaction_ne_skipped (req : Protocol.Request) :
    req.reaction ≠ .skipped := by
  unfold reaction
  split
  · exact nofun
  · split <;> exact nofun

/-- Only blank lines are skipped. -/
theorem LineReader.blank_of_skipped {reader : LineReader} {line : String}
    (h : reader.reaction line = .skipped) : trim line.toList = [] := by
  unfold LineReader.reaction Protocol.handleLine at h
  split at h
  next hblank => exact hblank
  next =>
    split at h
    · cases h
    · exact absurd h (Protocol.Request.reaction_ne_skipped _)

namespace Conn.InTurn

variable {conn : Conn}

/-- A change of stage, when no line is taken up. -/
theorem restage (h : conn.InTurn) {stage : ConnStage}
    (hbusy : stage.busy = true → conn.stage.busy = true)
    (tasks : List (Nat × Nat)) (unsent lost : List Nat) :
    { conn with stage, tasks, unsent, lost }.InTurn where
  strays := h.strays
  arrived := h.arrived
  inbox := h.inbox
  busy hb := h.busy (hbusy hb)
  numbers := h.numbers

/-- What is in the inbox is the one line that has not been answered. -/
theorem inbox_cons (h : conn.InTurn) {line : String} {rest : List String}
    (hin : conn.inbox = line :: rest) :
    rest = [] ∧ conn.sent.length = conn.heard.length
      ∧ trim line.toList ≠ [] := by
  rcases h.inbox with hnil | ⟨hlen, line', hsame, hblank⟩
  · rw [hin] at hnil
    cases hnil
  · rw [hin, List.cons.injEq] at hsame
    exact ⟨hsame.2, hlen, hsame.1 ▸ hblank⟩

/-- A line is taken up. -/
theorem take (h : conn.InTurn) {line : String} {rest : List String}
    (hin : conn.inbox = line :: rest) (stage : ConnStage)
    (tasks : List (Nat × Nat)) :
    { conn with
      inbox := rest, heard := conn.heard ++ [line], stage, tasks }.InTurn := by
  obtain ⟨rfl, hlen, -⟩ := h.inbox_cons hin
  refine ⟨h.strays, ?_, .inl rfl, fun _ => ?_, h.numbers⟩
  · show conn.arrived = (conn.heard ++ [line]) ++ []
    rw [h.arrived, hin, List.append_nil]
  · show conn.sent.length + 1 = (conn.heard ++ [line]).length
    rw [List.length_append, List.length_singleton, hlen]

/-- An answer is written, or cannot be. -/
theorem write (h : conn.InTurn) {resp : Protocol.Response} {must : Bool}
    (hstage : conn.stage = .writing resp must) (ok : Bool) :
    (conn.write resp must ok).InTurn := by
  have hlen := h.busy (by rw [hstage]; rfl)
  have hin : conn.inbox = [] := by
    rcases h.inbox with hnil | ⟨hsame, -⟩
    · exact hnil
    · omega
  have hcur : conn.current = conn.sent.length := by
    unfold Conn.current
    omega
  cases ok with
  | true =>
      refine ⟨h.strays, h.arrived, .inl hin, (fun hb => by cases hb), ?_⟩
      show (conn.sent ++ [(conn.current, resp)]).map Prod.fst
        = List.range (conn.sent ++ [(conn.current, resp)]).length
      rw [List.map_append, h.numbers, List.length_append,
        List.length_singleton, List.range_succ, hcur]
      rfl
  | false =>
      refine ⟨h.strays, h.arrived, .inl hin, fun hb => ?_, h.numbers⟩
      cases must <;> cases hb

end Conn.InTurn

/-- A step of a connection's task leaves its client in turn. -/
theorem Worked.inTurn {reader : LineReader} {s : Service} {draw : Chance}
    {conn conn' : Conn} {a : Option Act}
    (h : Worked reader s draw conn conn' a) (ht : conn.InTurn) :
    conn'.InTurn := by
  cases h with
  | idle | advance | unwind => exact ht
  | hop h =>
      exact ht.restage (fun hb => h.busy.1 ▸ hb) conn.tasks conn.unsent conn.lost
  | finish h =>
      exact ht.restage (fun hb => by cases hb) conn.tasks conn.unsent conn.lost
  | skip h hin hreact =>
      exact absurd (LineReader.blank_of_skipped hreact) (ht.inbox_cons hin).2.2
  | hear h hin hheard => exact ht.take hin _ conn.tasks
  | poll h hin hreact => exact ht.take hin _ _
  | write h ok => exact ht.write h ok
  | reply h hplain =>
      exact ht.restage (fun _ => by rw [h]; rfl) conn.tasks conn.unsent conn.lost
  | begin h => exact ht.restage (fun _ => h.busy.1) _ conn.unsent conn.lost
  | answer h =>
      exact ht.restage (fun _ => h.busy) conn.tasks conn.unsent conn.lost
  | stray h hin =>
      -- a parked poll has not been answered, so nothing can have arrived
      have hlen := (ht.inbox_cons hin).2.1
      have hbusy := ht.busy h.busy
      omega
  | lose h =>
      exact ht.restage (fun hb => by cases hb) conn.tasks conn.unsent _
  | lost h =>
      exact ht.restage (fun hb => by cases hb) conn.tasks conn.unsent conn.lost

/-- What arrives on a connection in turn. -/
theorem Conn.InTurn.receive {conn : Conn} (h : conn.InTurn) {line : String}
    (hblank : trim line.toList ≠ [])
    (hlen : conn.sent.length = conn.arrived.length) :
    { conn with
      arrived := conn.arrived ++ [line]
      inbox := conn.inbox ++ [line] }.InTurn := by
  have hsplit : conn.sent.length = conn.heard.length + conn.inbox.length := by
    rw [hlen, h.arrived, List.length_append]
  have hnil : conn.inbox = [] := by
    rcases h.inbox with hnil | ⟨hsame, line', hin, -⟩
    · exact hnil
    · rw [hin, List.length_singleton] at hsplit
      omega
  rw [hnil, List.length_nil] at hsplit
  refine ⟨h.strays, ?_, .inr ⟨hsplit, line, ?_, hblank⟩, h.busy, h.numbers⟩
  · show conn.arrived ++ [line] = conn.heard ++ (conn.inbox ++ [line])
    rw [h.arrived, List.append_assoc]
  · rw [hnil]
    rfl

/-- What comes from outside leaves the clients in turn. -/
theorem Conn.InTurn.outside {m : Move} {conns conns' : List Conn} {c : Nat}
    (hout : Service.Outside m conns conns')
    (hm : ∀ line, m = .arrive c line → trim line.toList ≠ []
      ∧ ∀ conn : Conn, conns[c]? = some conn → conn.ended = false →
        conn.sent.length = conn.arrived.length)
    (h : ∀ conn : Conn, conns[c]? = some conn → conn.InTurn) :
    ∀ conn : Conn, conns'[c]? = some conn → conn.InTurn := by
  intro conn' hc'
  cases hout with
  | none => exact h conn' hc'
  | accept =>
      by_cases hlt : c < conns.length
      · rw [List.getElem?_append_left hlt] at hc'
        exact h conn' hc'
      · rw [List.getElem?_append_right (Nat.le_of_not_lt hlt)] at hc'
        rw [List.mem_singleton.1 (List.mem_of_getElem? hc')]
        exact ⟨rfl, rfl, .inl rfl, (fun hb => by cases hb), rfl⟩
  | @arrive c₀ line conn hmove hc₀ hend =>
      rcases Service.conns_set hc₀ hc' with ⟨rfl, rfl⟩ | ⟨-, hold⟩
      · obtain ⟨hblank, hlen⟩ := hm line hmove
        exact (h conn hc₀).receive hblank (hlen conn hc₀ hend)
      · exact h conn' hold
  | @hangUp c₀ conn hc₀ =>
      rcases Service.conns_set hc₀ hc' with ⟨rfl, rfl⟩ | ⟨-, hold⟩
      · have hin := h conn hc₀
        exact ⟨hin.strays, hin.arrived, hin.inbox, hin.busy, hin.numbers⟩
      · exact h conn' hold

theorem inTurn_step {reader : LineReader} {c : Nat} (s : Service) (m : Move)
    (hm : inTurn c s m)
    (h : ∀ conn : Conn, s.conns[c]? = some conn → conn.InTurn) :
    ∀ conn : Conn, (s.step reader m).conns[c]? = some conn → conn.InTurn := by
  rcases s.step_cases reader m with
    ⟨c₀, conn, draw, next, a, -, hc, hw, hg⟩ | ⟨hout, -⟩
  · intro conn' hc'
    rw [hg.conns] at hc'
    rcases Service.conns_set hc hc' with ⟨rfl, rfl⟩ | ⟨-, hold⟩
    · exact hw.inTurn (h conn hc)
    · exact h conn' hold
  · refine Conn.InTurn.outside hout (fun line hmove => ?_) h
    subst hmove
    exact hm rfl

-- ========================================================== the numbers

/-- The number an answer to a line carries. -/
def Protocol.Reaction.number : Protocol.Reaction → Option UInt64
  | .skipped => none
  | .answered resp => some resp.id
  | .parked id _ | .dispatched id _ => some id

theorem Protocol.Request.number_reaction (req : Protocol.Request) :
    req.reaction.number = some req.id := by
  unfold reaction
  split
  · rfl
  · split <;> rfl

theorem number_of_taskOf {reaction : Protocol.Reaction} {id : UInt64}
    {req : Request} (h : taskOf reaction = some (id, req)) :
    reaction.number = some id := by
  unfold taskOf at h
  split at h
  · cases h
    rfl
  · cases h
    rfl
  · cases h
    rfl
  · cases h
    rfl
  · cases h

theorem DueTo.number {said : Sayings} {w : World} {tasks : List (Nat × Nat)}
    {n : Nat} {reaction : Protocol.Reaction} {resp : Protocol.Response}
    (h : DueTo said w tasks n reaction resp) :
    reaction.number = some resp.id := by
  cases h with
  | refused => rfl
  | plain => rfl
  | handled hasks => exact number_of_taskOf hasks

/-- The answer to a request carries the request's number. -/
theorem DueTo.id_eq {reader : LineReader} {said : Sayings} {w : World}
    {tasks : List (Nat × Nat)} {n : Nat} {line : String}
    {resp : Protocol.Response} {req : Protocol.Request}
    (h : DueTo said w tasks n (reader.reaction line) resp)
    (hreq : Protocol.decode Protocol.request reader.parse line = some req) :
    resp.id = req.id := by
  have hnumber := h.number
  unfold LineReader.reaction Protocol.handleLine at hnumber
  rw [hreq] at hnumber
  split at hnumber
  · cases hnumber
  · rw [Protocol.Request.number_reaction, Option.some.injEq] at hnumber
    exact hnumber.symm

/-- A client that writes in turn loses no line, and what it reads next is
the answer to the line it wrote last: the answers are those to its lines
one after the other, and each carries the number of its request. -/
theorem answers_in_turn {reader : LineReader} {boot : Boot} {ms : List Move}
    {c : Nat} (hturn : Along (Service.step reader) (inTurn c)
      (Service.init boot) ms)
    {conn : Conn} (hc : (Service.after reader boot ms).conns[c]? = some conn) :
    conn.strays = [] ∧ conn.arrived = conn.heard ++ conn.inbox
      ∧ ∀ (i : Nat) (p : Nat × Protocol.Response), conn.sent[i]? = some p →
        p.1 = i ∧ ∃ line, conn.arrived[i]? = some line
          ∧ DueTo (Service.Said reader boot ms c)
            (Service.after reader boot ms).world conn.tasks i
            (reader.reaction line) p.2
          ∧ ∀ req, Protocol.decode Protocol.request reader.parse line = some req →
            p.2.id = req.id := by
  have hin : conn.InTurn := Along.invariant
    (P := fun s => ∀ conn : Conn, s.conns[c]? = some conn → conn.InTurn)
    (fun s m hm h => inTurn_step s m hm h) hturn
    (fun _ hc => by cases hc) conn hc
  have hsound := (Service.serviced_after reader boot ms).sound c conn hc
  refine ⟨hin.strays, hin.arrived, fun i p hp => ?_⟩
  have hlt := (List.getElem?_eq_some_iff.1 hp).1
  have hpi : p.1 = i := by
    have hget : (conn.sent.map Prod.fst)[i]? = some p.1 := by
      rw [List.getElem?_map, hp]
      rfl
    rw [hin.numbers, List.getElem?_range hlt, Option.some.injEq] at hget
    exact hget.symm
  obtain ⟨line, hline, hdue⟩ := hsound.due p (List.mem_of_getElem? hp)
  rw [hpi] at hline hdue
  refine ⟨hpi, line, ?_, hdue, fun req hreq => hdue.id_eq hreq⟩
  rw [hin.arrived, List.getElem?_append_left
    (List.getElem?_eq_some_iff.1 hline).1, hline]

/-- The client that asks first has written in turn. -/
theorem answers_in_turn_woken :
    ∃ conn, (Service.after .polling .minutely askedFirst).conns[0]? = some conn
      ∧ conn.sent.length = 2 ∧ conn.strays = []
      ∧ ∀ (i : Nat) (p : Nat × Protocol.Response), conn.sent[i]? = some p →
        p.1 = i := by
  have hrun : (Service.after .polling .minutely askedFirst).conns[0]?.map
      (fun conn => conn.sent.length) = some 2 := by decide +kernel
  obtain ⟨conn, hc, hlen⟩ := Option.map_eq_some_iff.1 hrun
  have hturn : Along (Service.step .polling) (inTurn 0)
      (Service.init .minutely) askedFirst := by
    decide +kernel
  obtain ⟨hstrays, -, hpairs⟩ := answers_in_turn hturn hc
  exact ⟨conn, hc, hlen, hstrays, fun i p hp => (hpairs i p hp).1⟩

end Autofork
