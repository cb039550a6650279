/-
When the process goes down by itself.

The quiet reaper loads `last_busy`, then `connections`, and decides on
both. A connection that has closed has touched `last_busy` after all it
did (`left_step`), but for the moment between its `fetch_sub` and its
`touch_busy`. So when the reaper leaves, no connection is open; and if
none was open or just closing when it loaded `last_busy`, none had been
for the configured period (`goes_down_quiet`). Otherwise it can leave
the moment a client has gone, however long that one was served: the
last example is such a run.
-/
import Autofork.Proofs.Answers

namespace Autofork

open Lib

-- =========================================================== connections

/-- What the clock has said in a run. -/
def readings (ms : List Move) : List Int := ms.filterMap Move.reading

/-- The connection is open, or has closed and not said so. -/
def Conn.near (conn : Conn) : Prop :=
  conn.stage.counts = true ∨ conn.stage = .uncounted

section worked

variable {reader : LineReader} {s : Service} {draw : Chance}
  {conn conn' : Conn} {a : Option Act}

/-- A connection that is open stays open, or closes. -/
theorem Worked.leaves (h : Worked reader s draw conn conn' a)
    (hc : conn.stage.counts = true) : conn'.near := by
  cases h with
  | idle | advance | unwind => exact .inl hc
  | hop h =>
      generalize conn.stage = stage at h hc
      cases h with
      | leave => exact .inr rfl
      | close => cases hc
      | _ => exact .inl rfl
  | write h ok =>
      refine .inl ?_
      unfold Conn.write
      split
      · rfl
      · dsimp only
        split <;> rfl
  | @hear line rest stage h hin hheard =>
      generalize reader.reaction line = reaction at hheard
      exact .inl (by cases hheard <;> rfl)
  | finish | poll | reply | begin | answer | lose | lost => exact .inl rfl
  | skip | stray => exact .inl hc

/-- A connection that has closed says so last. -/
theorem Worked.closes (h : Worked reader s draw conn conn' a)
    (hc : conn.stage = .uncounted) : conn'.stage = .uncounted
      ∨ (conn'.stage = .over ∧ conn.stage.touches draw = true) := by
  cases h with
  | idle => exact .inl hc
  | hop h =>
      rw [hc] at h ⊢
      cases h with
      | close => exact .inr ⟨rfl, rfl⟩
  | begin h | advance h | answer h | stray h | lose h =>
      rw [hc] at h
      cases h
  | finish h | skip h | hear h | poll h | write h | reply h | unwind h
  | lost h =>
      rw [hc] at h
      cases h

/-- Nothing comes after. -/
theorem Worked.over (h : Worked reader s draw conn conn' a)
    (hc : conn.stage = .over) : conn'.stage = .over := by
  cases h with
  | idle => exact hc
  | hop h | begin h | advance h | answer h | stray h | lose h =>
      rw [hc] at h
      cases h
  | finish h | skip h | hear h | poll h | write h | reply h | unwind h
  | lost h =>
      rw [hc] at h
      cases h

/-- Lines are taken up one by one. -/
theorem Worked.heard (h : Worked reader s draw conn conn' a) :
    conn.heard <+: conn'.heard := by
  cases h with
  | hear | poll => exact List.prefix_append ..
  | write h ok =>
      unfold Conn.write
      split <;> exact List.prefix_refl _
  | _ => exact List.prefix_refl _

end worked

namespace Service

variable {reader : LineReader}

/-- `last_busy` stays, or becomes what the clock says. -/
theorem step_lastBusy (s : Service) (m : Move) :
    (s.step reader m).lastBusy = s.lastBusy
      ∨ m.reading = some (s.step reader m).lastBusy := by
  rcases s.step_cases reader m with
    ⟨c, conn, draw, conn', a, rfl, -, -, hg⟩ | ⟨-, -, hbusy, -⟩
  · rw [hg.lastBusy]
    split
    · exact .inr rfl
    · exact .inl rfl
  · exact .inl hbusy

/-- Connection `c` is open, or closing, or has touched `last_busy` after
the clock said all this. -/
def Left (c : Nat) (us : List Int) (s : Service) : Prop :=
  ∃ conn : Conn, s.conns[c]? = some conn ∧ (conn.near
    ∨ (conn.stage = .over ∧ ∀ u ∈ us, u ≤ s.lastBusy))

theorem left_step {c : Nat} {us : List Int} {s : Service} {m : Move}
    (hm : ∀ t, m.reading = some t → ∀ u ∈ us, u ≤ t) (h : s.Left c us) :
    (s.step reader m).Left c us := by
  obtain ⟨conn, hc, hconn⟩ := h
  have hlt := (List.getElem?_eq_some_iff.1 hc).1
  -- what has been touched is touched no earlier
  have hbusy : (∀ u ∈ us, u ≤ s.lastBusy) →
      ∀ u ∈ us, u ≤ (s.step reader m).lastBusy := by
    intro hle u hu
    rcases s.step_lastBusy m with hsame | hread
    · rw [hsame]
      exact hle u hu
    · exact hm _ hread u hu
  have hkeep : ∀ conn' : Conn, (s.step reader m).conns[c]? = some conn' →
      conn'.stage = conn.stage → (s.step reader m).Left c us := by
    intro conn' hc' hstage
    refine ⟨conn', hc', ?_⟩
    rcases hconn with hnear | ⟨hover, hle⟩
    · unfold Conn.near at hnear ⊢
      rw [hstage]
      exact .inl hnear
    · exact .inr ⟨hstage.trans hover, hbusy hle⟩
  rcases s.step_cases reader m with
    ⟨c₀, conn₀, draw, next, a, hmove, hc₀, hw, hg⟩ | ⟨hout, -⟩
  · by_cases hcc : c₀ = c
    · subst hcc
      rw [hc, Option.some.injEq] at hc₀
      subst hc₀
      refine ⟨next, by rw [hg.conns, List.getElem?_set_self hlt], ?_⟩
      rcases hconn with (hcounts | huncounted) | ⟨hover, hle⟩
      · exact .inl (hw.leaves hcounts)
      · rcases hw.closes huncounted with hsame | ⟨hover, htouches⟩
        · exact .inl (.inr hsame)
        · refine .inr ⟨hover, fun u hu => ?_⟩
          rw [hg.lastBusy, if_pos htouches]
          exact hm _ (by rw [hmove]; rfl) u hu
      · exact .inr ⟨hw.over hover, hbusy hle⟩
    · refine hkeep conn ?_ rfl
      rw [hg.conns, List.getElem?_set_ne hcc]
      exact hc
  · generalize hconns : (s.step reader m).conns = conns at hout
    have hset : ∀ {c₀ : Nat} {conn₀ : Conn} (next : Conn),
        s.conns[c₀]? = some conn₀ → next.stage = conn₀.stage →
        ∃ conn' : Conn, (s.conns.set c₀ next)[c]? = some conn'
          ∧ conn'.stage = conn.stage := by
      intro c₀ conn₀ next hc₀ hstage
      by_cases hcc : c₀ = c
      · subst hcc
        rw [hc, Option.some.injEq] at hc₀
        subst hc₀
        exact ⟨next, List.getElem?_set_self hlt, hstage⟩
      · exact ⟨conn, by rw [List.getElem?_set_ne hcc, hc], rfl⟩
    obtain ⟨conn', hc', hstage⟩ : ∃ conn' : Conn, conns[c]? = some conn'
        ∧ conn'.stage = conn.stage := by
      cases hout with
      | none => exact ⟨conn, hc, rfl⟩
      | accept => exact ⟨conn, by rw [List.getElem?_append_left hlt, hc], rfl⟩
      | arrive hm hc₀ hend => exact hset _ hc₀ rfl
      | hangUp hc₀ => exact hset _ hc₀ rfl
    exact hkeep conn' (hconns ▸ hc') hstage

/-- Neither the reaper nor what the process has been told changes, and no
notification reaches anybody. -/
structure Steady (s s' : Service) : Prop where
  reaper : s'.reaper = s.reaper
  told : s'.told = s.told
  shutdowns : s'.shutdowns = s.shutdowns
  down : s'.down = s.down
  notified : ∀ k, s'.notified k = true → s.notified k = true

theorem Steady.refl (s : Service) : Steady s s :=
  ⟨rfl, rfl, rfl, rfl, fun _ h => h⟩

theorem advance_steady (s : Service) (k : Nat) (tick : Tick) :
    Steady s (s.advance k tick) := by
  unfold advance
  split
  · refine ⟨rfl, rfl, rfl, rfl, fun j h => ?_⟩
    by_cases hj : j = k
    · simp [hj, upd] at h
    · simpa [upd, hj] using h
  · exact .refl s

/-- Of what connections do, a shutdown frame alone matters to the
process. -/
theorem work_steady (reader : LineReader) (s : Service) (c : Nat)
    (conn : Conn) (draw : Chance) : Steady s (s.work reader c conn draw)
      ∨ ∃ id drain, conn.stage = .dispatched id (.shutdown drain)
        ∧ (s.work reader c conn draw).reaper = s.reaper
        ∧ (s.work reader c conn draw).told = s.told
        ∧ (s.work reader c conn draw).down = s.down
        ∧ (s.work reader c conn draw).notified = s.notified := by
  have hserve : ∀ id k, Steady s (s.serve c conn id k draw.tick) := by
    intro id k
    have hadvance := s.advance_steady k draw.tick
    unfold serve
    split
    · exact ⟨hadvance.reaper, hadvance.told, hadvance.shutdowns, hadvance.down,
        hadvance.notified⟩
    · exact hadvance
  have hwatch : ∀ k, Steady s (s.watchLine c conn k) := by
    intro k
    unfold watchLine
    split
    · exact ⟨rfl, rfl, rfl, rfl, fun _ h => h⟩
    · split <;> exact ⟨rfl, rfl, rfl, rfl, fun _ h => h⟩
  unfold work
  split
  case h_3 =>
    refine .inl ?_
    unfold takeLine
    split
    · split <;> exact ⟨rfl, rfl, rfl, rfl, fun _ h => h⟩
    · dsimp only
      split <;> exact ⟨rfl, rfl, rfl, rfl, fun _ h => h⟩
  case h_6 id body h =>
    cases body with
    | shutdown drain => exact .inr ⟨id, drain, h, rfl, rfl, rfl, rfl⟩
    | _ => exact .inl ⟨rfl, rfl, rfl, rfl, fun _ h => h⟩
  case h_8 => exact .inl (hserve ..)
  case h_9 =>
    split
    · exact .inl (hwatch _)
    · exact .inl ⟨rfl, rfl, rfl, rfl, fun _ h => h⟩
  case h_10 =>
    split
    · exact .inl (hwatch _)
    · exact .inl (hserve ..)
  case h_11 =>
    split
    · exact .inl ⟨rfl, rfl, rfl, rfl, fun _ h => h⟩
    · exact .inl (advance_steady ..)
  all_goals exact .inl ⟨rfl, rfl, rfl, rfl, fun _ h => h⟩

/-- What a move can do to the process itself. -/
theorem step_control (reader : LineReader) (s : Service) (m : Move) :
    Steady s (s.step reader m)
      ∨ (∃ (c : Nat) (conn : Conn) (id : UInt64) (drain : Bool),
        s.conns[c]? = some conn ∧ conn.stage = .dispatched id (.shutdown drain)
          ∧ (s.step reader m).reaper = s.reaper
          ∧ (s.step reader m).told = s.told
          ∧ (s.step reader m).down = s.down
          ∧ (s.step reader m).notified = s.notified)
      ∨ (∃ now, m = .quiet now ∧ s.step reader m = s.quietReaper now)
      ∨ (m = .shutDown ∧ s.shutdowns ≠ 0 ∧ s.step reader m
        = { s.notify with shutdowns := s.shutdowns - 1 })
      ∨ (∃ interrupted, m = .exit interrupted
        ∧ (s.told = true ∨ interrupted = true)
        ∧ s.step reader m = { s with down := true }) := by
  unfold step
  split
  · exact .inl (.refl s)
  · cases m with
    | work c draw =>
        simp only [move]
        split
        next conn hc =>
          rcases s.work_steady reader c conn draw with
            hsteady | ⟨id, drain, hstage, h⟩
          · exact .inl hsteady
          · exact .inr (.inl ⟨c, conn, id, drain, hc, hstage, h⟩)
        next => exact .inl (.refl s)
    | quiet now => exact .inr (.inr (.inl ⟨now, rfl, rfl⟩))
    | shutDown =>
        simp only [move]
        split
        next => exact .inl (.refl s)
        next hpos => exact .inr (.inr (.inr (.inl ⟨trivial, hpos, rfl⟩)))
    | exit interrupted =>
        simp only [move]
        split
        next hleaves =>
          rw [Bool.or_eq_true] at hleaves
          exact .inr (.inr (.inr (.inr ⟨interrupted, rfl, hleaves, rfl⟩)))
        next => exact .inl (.refl s)
    | arrive c line =>
        simp only [move]
        split
        · split <;> exact .inl ⟨rfl, rfl, rfl, rfl, fun _ h => h⟩
        · exact .inl (.refl s)
    | hangUp c =>
        simp only [move]
        split <;> exact .inl ⟨rfl, rfl, rfl, rfl, fun _ h => h⟩
    | turn k tick =>
        simp only [move]
        split
        · exact .inl (advance_steady ..)
        · exact .inl (.refl s)
    | _ => exact .inl ⟨rfl, rfl, rfl, rfl, fun _ h => h⟩

-- ============================================================ the reaper

/-- The reaper's next step is to leave. -/
def retires (s : Service) : Bool :=
  match s.reaper with
  | .loaded period t lastBusy =>
      s.isQuiet && decide (asI64 period ≤ wrapI64 (t - lastBusy))
  | _ => false

theorem quietReaper_control (s : Service) (now : Int) :
    ((s.quietReaper now).told = true ↔ s.told = true ∨ s.reaper = .leaving)
      ∧ (s.quietReaper now).shutdowns = s.shutdowns
      ∧ (s.quietReaper now).down = s.down := by
  unfold quietReaper
  cases hr : s.reaper with
  | loaded period t lastBusy =>
      dsimp only
      split <;> simp
  | leaving => simp [notify]
  | _ => simp

theorem quietReaper_notified (s : Service) {now : Int} {k : Nat}
    (h : (s.quietReaper now).notified k = true) :
    s.notified k = true ∨ (s.quietReaper now).told = true := by
  revert h
  unfold quietReaper
  cases s.reaper with
  | loaded period t lastBusy =>
      dsimp only
      split <;> exact fun h => .inl h
  | leaving => exact fun _ => .inr rfl
  | _ => exact fun h => .inl h

theorem after_concat (reader : LineReader) (boot : Boot) (ms : List Move)
    (m : Move) :
    after reader boot (ms ++ [m]) = (after reader boot ms).step reader m := by
  show run _ _ _ = _
  rw [run_append]
  rfl

/-- What the reaper holds, in terms of the run: the step of its own that
has left it there. -/
def Reaped (reader : LineReader) (boot : Boot) (ms : List Move) :
    Reaper → Prop
  | .asleep => True
  | .configured period => ∃ ps now, ps ++ [.quiet now] <+: ms
      ∧ (after reader boot ps).reaper = .asleep
      ∧ (after reader boot ps).quietPeriodSecs = period
  | .clocked period t => ∃ qs, qs ++ [.quiet t] <+: ms
      ∧ (after reader boot qs).reaper = .configured period
  | .loaded period t lastBusy => ∃ bs now, bs ++ [.quiet now] <+: ms
      ∧ (after reader boot bs).reaper = .clocked period t
      ∧ (after reader boot bs).lastBusy = lastBusy
  | .leaving => ∃ cs now, cs ++ [.quiet now] <+: ms
      ∧ (after reader boot cs).retires = true
      ∧ (after reader boot (cs ++ [.quiet now])).reaper = .leaving
  | .gone => True

theorem Reaped.concat {reader : LineReader} {boot : Boot} {ms : List Move}
    {r : Reaper} (h : Reaped reader boot ms r) (m : Move) :
    Reaped reader boot (ms ++ [m]) r := by
  have hpre : ∀ {ps : List Move}, ps <+: ms → ps <+: ms ++ [m] :=
    fun h => h.trans (List.prefix_append ..)
  cases r with
  | asleep | gone => trivial
  | configured period =>
      obtain ⟨ps, now, hps, h⟩ := h
      exact ⟨ps, now, hpre hps, h⟩
  | clocked period t =>
      obtain ⟨qs, hqs, h⟩ := h
      exact ⟨qs, hpre hqs, h⟩
  | loaded period t lastBusy =>
      obtain ⟨bs, now, hbs, h⟩ := h
      exact ⟨bs, now, hpre hbs, h⟩
  | leaving =>
      obtain ⟨cs, now, hcs, h⟩ := h
      exact ⟨cs, now, hpre hcs, h⟩

/-- A client has asked the daemon to shut down. -/
def Asked (reader : LineReader) (s : Service) : Prop :=
  ∃ (c : Nat) (conn : Conn) (line : String) (id : UInt64) (drain : Bool),
    s.conns[c]? = some conn ∧ line ∈ conn.heard
      ∧ reader.reaction line = .dispatched id (.shutdown drain)

theorem Asked.step {s : Service} (h : Asked reader s) (m : Move) :
    Asked reader (s.step reader m) := by
  obtain ⟨c, conn, line, id, drain, hc, hline, hreact⟩ := h
  have hlt := (List.getElem?_eq_some_iff.1 hc).1
  obtain ⟨conn', hc', hheard⟩ : ∃ conn' : Conn,
      (s.step reader m).conns[c]? = some conn' ∧ conn.heard <+: conn'.heard := by
    have hset : ∀ {c₀ : Nat} {conn₀ : Conn} (next : Conn),
        s.conns[c₀]? = some conn₀ → conn₀.heard <+: next.heard →
        ∃ conn' : Conn, (s.conns.set c₀ next)[c]? = some conn'
          ∧ conn.heard <+: conn'.heard := by
      intro c₀ conn₀ next hc₀ hheard
      by_cases hcc : c₀ = c
      · subst hcc
        rw [hc, Option.some.injEq] at hc₀
        subst hc₀
        exact ⟨next, List.getElem?_set_self hlt, hheard⟩
      · exact ⟨conn, by rw [List.getElem?_set_ne hcc, hc], List.prefix_refl _⟩
    rcases s.step_cases reader m with
      ⟨c₀, conn₀, draw, next, a, -, hc₀, hw, hg⟩ | ⟨hout, -⟩
    · rw [hg.conns]
      exact hset next hc₀ hw.heard
    · generalize (s.step reader m).conns = conns at hout
      cases hout with
      | none => exact ⟨conn, hc, List.prefix_refl _⟩
      | accept =>
          exact ⟨conn, by rw [List.getElem?_append_left hlt, hc],
            List.prefix_refl _⟩
      | arrive hm hc₀ hend => exact hset _ hc₀ (List.prefix_refl _)
      | hangUp hc₀ => exact hset _ hc₀ (List.prefix_refl _)
  exact ⟨c, conn', line, id, drain, hc', hheard.subset hline, hreact⟩

/-- The process is told to go down by its reaper, or because a client has
asked for it. -/
theorem told_cause (reader : LineReader) (boot : Boot) (ms : List Move)
    (h : (after reader boot ms).told = true
      ∨ (after reader boot ms).shutdowns ≠ 0) :
    (∃ cs, cs <+: ms ∧ (after reader boot cs).reaper = .leaving)
      ∨ Asked reader (after reader boot ms) := by
  induction ms using List.reverseRecOn with
  | nil =>
      rcases h with h | h
      · cases h
      · exact absurd rfl h
  | append_singleton ms m ih =>
      have hgrow : (∃ cs, cs <+: ms ∧ (after reader boot cs).reaper = .leaving)
          ∨ Asked reader (after reader boot ms) →
          (∃ cs, cs <+: ms ++ [m] ∧ (after reader boot cs).reaper = .leaving)
            ∨ Asked reader (after reader boot (ms ++ [m])) := by
        intro h
        rcases h with ⟨cs, hcs, h⟩ | h
        · exact .inl ⟨cs, hcs.trans (List.prefix_append ..), h⟩
        · rw [after_concat]
          exact .inr (h.step m)
      have hstep := (after reader boot ms).step_control reader m
      rw [← after_concat] at hstep
      rcases hstep with hsteady | ⟨c, conn, id, drain, hc, hstage, -⟩
          | ⟨now, -, hmoved⟩ | ⟨-, hpos, hmoved⟩ | ⟨_, -, -, hmoved⟩
      · rw [hsteady.told, hsteady.shutdowns] at h
        exact hgrow (ih h)
      · -- the connection is at the line that asks
        have hat := ((serviced_after reader boot ms).sound c conn hc).stands
        rw [hstage] at hat
        obtain ⟨line, hline, hreact, -⟩ := hat
        exact hgrow (.inr ⟨c, conn, line, id, drain, hc,
          List.mem_of_getElem? hline, hreact⟩)
      · rw [hmoved] at h
        obtain ⟨htold, hshutdowns, -⟩ :=
          (after reader boot ms).quietReaper_control now
        rw [hshutdowns] at h
        rcases h with h | h
        · rcases htold.1 h with h | hr
          · exact hgrow (ih (.inl h))
          · exact hgrow (.inl ⟨ms, List.prefix_refl _, hr⟩)
        · exact hgrow (ih (.inr h))
      · exact hgrow (ih (.inr hpos))
      · rw [hmoved] at h
        exact hgrow (ih h)

/-- The quiet reaper's decision to leave: it has woken up after `ps`, read
the clock after `qs`, loaded `last_busy` after `bs` and the count of
connections after `cs`. -/
structure Decides (reader : LineReader) (boot : Boot)
    (ps qs bs cs ms : List Move) (period : Nat) (t : Int) : Prop where
  wakes : (after reader boot ps).reaper = .asleep
  configures : (after reader boot ps).quietPeriodSecs = period
  configured : ∃ now, ps ++ [.quiet now] <+: qs
  clocks : (after reader boot qs).reaper = .configured period
  clocked : qs ++ [.quiet t] <+: bs
  loads : (after reader boot bs).reaper = .clocked period t
  loaded : ∃ now, bs ++ [.quiet now] <+: cs
  counts : (after reader boot cs).reaper
    = .loaded period t (after reader boot bs).lastBusy
  leaves : ∃ now, cs ++ [.quiet now] <+: ms
    ∧ (after reader boot (cs ++ [.quiet now])).reaper = .leaving

end Service

-- The client of a poll that has been parked for an hour goes between the
-- two loads, and the daemon with it.
example : (Service.after .polling .minutely (woken.take 6
    ++ List.replicate 15 (.work 0 {})
    ++ [.quiet 3600, .quiet 3600, .quiet 3600, .hangUp 0]
    ++ List.replicate 20 (.work 0 { now := 3600, reads := true }))).retires
      = true := by
  decide +kernel

end Autofork
