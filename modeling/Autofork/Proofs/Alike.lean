/-
Two daemons, as one session sees them.

They are `Alike` for session `a` when they agree on its slice and on its
entries in the maps, up to the numbers each has handed out: tasks and
close generations are counted across sessions, so they need only be told
apart in the same way. What is done for another session leaves all of
that (`exec_frame`). Twin operations of `a` that read the same of the
files have twin results and leave the daemons alike (`exec_twins`).
-/
import Autofork.Proofs.Own
import Autofork.Proofs.Steps
import Mathlib.Logic.Relator

namespace Autofork

open Lib

-- ============================================================ the files

/-- What an operation reads of the files. -/
inductive Reading
  | nothing
  | entries (entries : List ForkEntry)
  | fork (fork : Option ForkDef)
  | config (cfg : Config)
  | delta (delta : Option Delta)
  /-- What a session is judged by. -/
  | settings (cfg : Option Config)
  deriving DecidableEq

/-- What an operation that concerns session `a` reads. -/
def Daemon.reading (a : String) (d : Daemon) : Op → Reading
  | .discover dir => .entries (d.disk.discover dir)
  | .readFork entry => .fork (d.disk.forkAt entry)
  | .cfgFor projectRoot => .config (d.disk.cfgFor (some projectRoot))
  | .readDelta path offset => .delta (d.disk.readDelta path offset)
  | .timedOut | .write (.prune _) => .settings (d.settings a)
  | _ => .nothing

-- ======================================================== what stays put

namespace Daemon

/-- Nothing of session `a` has changed, whose tasks are those in `N`. -/
structure Frame (a : String) (N : Nat → Prop) (d d₁ : Daemon) : Prop where
  slice : SameSlice a d.store d₁.store
  waits : d₁.waits a = d.waits a
  signalled : ∀ k, N k → d₁.signalled k = d.signalled k
  wakeIssuedAt : d₁.wakeIssuedAt a = d.wakeIssuedAt a
  parked : d₁.parked a = d.parked a
  pendingClose : d₁.pendingClose a = d.pendingClose a
  closeGen : d.closeGen ≤ d₁.closeGen
  timers : d₁.graceTimers.filter (fun x => x.1 == a)
    = d.graceTimers.filter fun x => x.1 == a
  graceSecs : d₁.wakeGraceSecs = d.wakeGraceSecs

variable {a : String} {N : Nat → Prop}

theorem Frame.refl (d : Daemon) : Frame a N d d :=
  ⟨.refl a _, rfl, fun _ _ => rfl, rfl, rfl, rfl, le_rfl, rfl, rfl⟩

/-- A change of the store, the files and the log. -/
theorem Frame.of_store {d d₁ : Daemon} (h : SameSlice a d.store d₁.store)
    (hd : d₁ = { d with store := d₁.store, disk := d₁.disk, log := d₁.log }) :
    Frame a N d d₁ := by
  rw [hd]
  exact ⟨h, rfl, fun _ _ => rfl, rfl, rfl, rfl, le_rfl, rfl, rfl⟩

/-- Cancelling another session's poll. -/
private theorem signal_other {d : Daemon} {b : String}
    (hwaits : ∀ k, d.waits b = some k → ¬N k) {k : Nat} (hk : N k) :
    (d.signal (d.waits b)).signalled k = d.signalled k := by
  rw [Bool.eq_iff_iff, signalled_signal]
  exact or_iff_left fun h => hwaits k h hk

end Daemon

open Daemon in
/-- What is done for another session. -/
theorem exec_frame {a b : String} (hne : b ≠ a) {N : Nat → Prop} {k : Nat}
    {op : Op} {tick : Tick} {d d₁ : Daemon} {r : op.Res}
    (hwaits : ∀ k, d.waits b = some k → ¬N k) (hminds : op.minds b = true)
    (h : exec k op tick d = some (d₁, r)) : Frame a N d d₁ := by
  have hkey : ∀ {x : String}, (x == b) = true → a ≠ x := by
    intro x hx
    rw [beq_iff_eq] at hx
    exact hx ▸ hne.symm
  rcases exec_cases h with ⟨x, rfl, rfl⟩ | ⟨hwrite, -⟩
  · exact .of_store (slice_run hne (by simpa [Op.minds] using hminds)) rfl
  · cases op with
    | write x => exact absurd rfl (hwrite x)
    | timedOut => cases hminds
    | snapshot sessionId =>
        simp only [exec] at h
        split at h <;> simp only [Option.some.injEq, Prod.mk.injEq] at h <;>
          rw [← h.1] <;> exact .of_store (.refl a _) rfl
    | select sleepSecs =>
        simp only [exec] at h
        split at h
        · split at h <;> simp at h
          rw [← h.1]
          exact .refl d
        · split at h <;> simp at h
          rw [← h.1]
          exact .refl d
        · simp only [Option.some.injEq, Prod.mk.injEq] at h
          rw [← h.1]
          exact .refl d
    | takePendingClose sessionId gen =>
        simp only [exec] at h
        split at h <;> simp only [Option.some.injEq, Prod.mk.injEq] at h <;>
          rw [← h.1]
        · exact { Frame.refl (a := a) (N := N) d with
            pendingClose := upd_other _ _ (hkey hminds) }
        · exact .refl d
    | clearPendingClose sessionId | insertPendingClose sessionId gen =>
        simp only [exec, Option.some.injEq, Prod.mk.injEq] at h
        rw [← h.1]
        exact { Frame.refl (a := a) (N := N) d with
          pendingClose := upd_other _ _ (hkey hminds) }
    | nextCloseGen =>
        simp only [exec, Option.some.injEq, Prod.mk.injEq] at h
        rw [← h.1]
        exact { Frame.refl (a := a) (N := N) d with closeGen := Nat.le_succ _ }
    | spawnGrace sessionId gen =>
        simp only [exec, Option.some.injEq, Prod.mk.injEq] at h
        rw [← h.1]
        refine { Frame.refl (a := a) (N := N) d with timers := ?_ }
        rw [List.filter_append]
        simp [(hkey hminds).symm]
    | register sessionId | cancelWait sessionId =>
        obtain rfl : sessionId = b := by simpa [Op.minds] using hminds
        simp only [exec, Option.some.injEq, Prod.mk.injEq] at h
        rw [← h.1]
        have hsignal := fun k hk => signal_other (N := N) (k := k) hwaits hk
        cases hw : d.waits sessionId <;> rw [hw] at hsignal <;>
          exact { Frame.refl (a := a) (N := N) d with
            waits := upd_other _ _ hne.symm
            signalled := hsignal }
    | park sessionId | unpark sessionId =>
        simp only [exec, Option.some.injEq, Prod.mk.injEq] at h
        rw [← h.1]
        exact { Frame.refl (a := a) (N := N) d with
          parked := upd_other _ _ (hkey hminds) }
    | noteWakeIssued sessionId =>
        simp only [exec, Option.some.injEq, Prod.mk.injEq] at h
        rw [← h.1]
        exact { Frame.refl (a := a) (N := N) d with
          wakeIssuedAt := upd_other _ _ (hkey hminds) }
    | _ =>
        simp only [exec, Option.some.injEq, Prod.mk.injEq] at h
        rw [← h.1]
        exact .of_store (.refl a _) rfl

-- ========================================================= side by side

/-- One more pair of numbers that neither side has used. -/
theorem biUnique_extend {R : Nat → Nat → Prop} (h : Relator.BiUnique R)
    {n n' : Nat} (hnew : ∀ m m', R m m' → m ≠ n ∧ m' ≠ n') :
    Relator.BiUnique fun m m' => R m m' ∨ (m = n ∧ m' = n') := by
  constructor
  · rintro m₁ m' m₂ (h₁ | ⟨rfl, rfl⟩) (h₂ | ⟨rfl, h₂⟩)
    · exact h.1 h₁ h₂
    · exact absurd h₂ (hnew _ _ h₁).2
    · exact absurd rfl (hnew _ _ h₂).2
    · rfl
  · rintro m m₁ m₂ (h₁ | ⟨rfl, rfl⟩) (h₂ | ⟨h₂, rfl⟩)
    · exact h.2 h₁ h₂
    · exact absurd h₂ (hnew _ _ h₁).1
    · exact absurd rfl (hnew _ _ h₂).1
    · rfl

theorem rel_imp {α β : Type} {R R' : α → β → Prop} (h : ∀ x y, R x y → R' x y)
    {o : Option α} {o' : Option β} (ho : Option.Rel R o o') :
    Option.Rel R' o o' := by
  cases ho with
  | none => exact .none
  | some hr => exact .some (h _ _ hr)

/-- The row a snapshot takes is the session's. -/
theorem exec_snapshot_row (k : Nat) (b : String) (tick : Tick) (d : Daemon) :
    (∃ log, exec k (.snapshot b) tick d
        = some ({ d with log }, d.store.getSession b))
      ∧ ∀ x, d.store.getSession b = some x → x.sessionId = b := by
  constructor
  · simp only [exec]
    split
    next session h => exact ⟨_, by rw [h]⟩
    next h => exact ⟨d.log, by rw [h]⟩
  · exact fun x hx => Store.sessionId_of_getSession hx

/-- An await ends the same way on both sides, as far as the poll's own
cancellation decides. -/
theorem exec_select {k k' : Nat} {d d' : Daemon}
    (h : d.signalled k = d'.signalled k') (sleepSecs : Option Nat)
    (tick : Tick) :
    (exec k (.select sleepSecs) tick d = none
        ∧ exec k' (.select sleepSecs) tick d' = none)
      ∨ ∃ r, exec k (.select sleepSecs) tick d = some (d, r)
        ∧ exec k' (.select sleepSecs) tick d' = some (d', r) := by
  simp only [exec]
  rw [← h]
  cases tick.branch with
  | timer =>
      cases sleepSecs with
      | none => exact .inl ⟨rfl, rfl⟩
      | some n => exact .inr ⟨.timer, rfl, rfl⟩
  | cancelled =>
      cases d.signalled k with
      | false => exact .inl ⟨rfl, rfl⟩
      | true => exact .inr ⟨.cancelled, rfl, rfl⟩
  | shutdown => exact .inr ⟨.shutdown, rfl, rfl⟩

namespace Daemon

/-- The daemons agree on session `a`, where `G` says which close
generations stand for one another and `P` which tasks. -/
structure Alike (a : String) (G : Gens) (P : Nat → Nat → Prop)
    (d d' : Daemon) : Prop where
  slice : SameSlice a d.store d'.store
  waits : Option.Rel P (d.waits a) (d'.waits a)
  signalled : ∀ k k', P k k' → d.signalled k = d'.signalled k'
  wakeIssuedAt : d.wakeIssuedAt a = d'.wakeIssuedAt a
  parked : d.parked a = d'.parked a
  pendingClose : Option.Rel G (d.pendingClose a) (d'.pendingClose a)
  timers : List.Forall₂ (fun x x' => G x.2 x'.2)
    (d.graceTimers.filter fun x => x.1 == a)
    (d'.graceTimers.filter fun x => x.1 == a)
  graceSecs : d.wakeGraceSecs = d'.wakeGraceSecs
  gens : Relator.BiUnique G
  below : ∀ g g', G g g' → g ≤ d.closeGen ∧ g' ≤ d'.closeGen

variable {a : String} {N : Nat → Prop} {G G' : Gens} {P : Nat → Nat → Prop}
  {d d₁ d' d₁' : Daemon}

/-- Alike daemons stay so while nothing happens to `a` on either. -/
theorem Alike.frame {N' : Nat → Prop} (h : Alike a G P d d')
    (hd : Frame a N d d₁) (hd' : Frame a N' d' d₁')
    (hP : ∀ k k', P k k' → N k ∧ N' k') : Alike a G P d₁ d₁' where
  slice := hd.slice.symm.trans (h.slice.trans hd'.slice)
  waits := hd.waits ▸ hd'.waits ▸ h.waits
  signalled k k' hk := by
    rw [hd.signalled k (hP k k' hk).1, hd'.signalled k' (hP k k' hk).2,
      h.signalled k k' hk]
  wakeIssuedAt := by rw [hd.wakeIssuedAt, hd'.wakeIssuedAt, h.wakeIssuedAt]
  parked := by rw [hd.parked, hd'.parked, h.parked]
  pendingClose := hd.pendingClose ▸ hd'.pendingClose ▸ h.pendingClose
  timers := hd.timers ▸ hd'.timers ▸ h.timers
  graceSecs := by rw [hd.graceSecs, hd'.graceSecs, h.graceSecs]
  gens := h.gens
  below g g' hg := ⟨(h.below g g' hg).1.trans hd.closeGen,
    (h.below g g' hg).2.trans hd'.closeGen⟩

/-- Alike daemons, once the store, the files and the log of each have
changed. -/
theorem Alike.of_store (h : Alike a G P d d')
    (hs : SameSlice a d₁.store d₁'.store)
    (hd : d₁ = { d with store := d₁.store, disk := d₁.disk, log := d₁.log })
    (hd' : d₁' = { d' with
      store := d₁'.store, disk := d₁'.disk, log := d₁'.log }) :
    Alike a G P d₁ d₁' := by
  rw [hd, hd']
  exact { h with slice := hs }

/-- Cancelling the poll of `a`. -/
theorem Alike.signal (h : Alike a G P d d') (hP : Relator.BiUnique P) :
    Alike a G P (d.signal (d.waits a)) (d'.signal (d'.waits a)) := by
  have hsignalled : ∀ k k', P k k' →
      (d.signal (d.waits a)).signalled k
        = (d'.signal (d'.waits a)).signalled k' := by
    intro k k' hk
    rw [Bool.eq_iff_iff, signalled_signal, signalled_signal, h.signalled k k' hk]
    refine or_congr_right ?_
    have hw := h.waits
    generalize d.waits a = w at hw ⊢
    generalize d'.waits a = w' at hw ⊢
    cases hw with
    | none => simp
    | some hm =>
        rw [Option.some.injEq, Option.some.injEq]
        constructor
        · rintro rfl
          exact hP.2 hm hk
        · rintro rfl
          exact hP.1 hm hk
  cases hw : d.waits a <;> cases hw' : d'.waits a <;>
    rw [hw, hw'] at hsignalled <;> exact { h with signalled := hsignalled }

end Daemon

open Daemon in
/-- Twin operations. -/
theorem exec_twins {a : String} {G : Gens} {P : Nat → Nat → Prop} {k k' : Nat}
    {op op' : Op} {S : Gens → op.Res → op'.Res → Prop} {d d' : Daemon}
    (h : Alike a G P d d') (hP : Relator.BiUnique P)
    (hk : P k k') (htwin : Twin a G op op' S)
    (hread : d.reading a op = d'.reading a op')
    (hcfg : ∀ root, (d.disk.cfgFor root).tagThrottles = []) (tick : Tick) :
    (exec k op tick d = none ∧ exec k' op' tick d' = none)
      ∨ ∃ d₁ r d₁' r' G', exec k op tick d = some (d₁, r)
        ∧ exec k' op' tick d' = some (d₁', r') ∧ G ≤ G' ∧ S G' r r'
        ∧ Alike a G' P d₁ d₁' := by
  cases htwin with
  | nextCloseGen =>
      refine .inr ⟨_, _, _, _,
        fun g g' => G g g' ∨ (g = d.closeGen + 1 ∧ g' = d'.closeGen + 1),
        rfl, rfl, fun _ _ => .inl, .inr ⟨rfl, rfl⟩, ?_⟩
      have hgens : ∀ g g', G g g' → g ≠ d.closeGen + 1 ∧ g' ≠ d'.closeGen + 1 := by
        intro g g' hg
        have := h.below g g' hg
        omega
      exact { h with
        pendingClose := rel_imp (fun _ _ => .inl) h.pendingClose
        timers := h.timers.imp fun _ _ => .inl
        gens := biUnique_extend h.gens hgens
        below := by
          rintro g g' (hg | ⟨rfl, rfl⟩)
          · exact ⟨(h.below g g' hg).1.trans (Nat.le_succ _),
              (h.below g g' hg).2.trans (Nat.le_succ _)⟩
          · exact ⟨le_rfl, le_rfl⟩ }
  | insertPendingClose hg =>
      refine .inr ⟨_, (), _, (), G, rfl, rfl, le_rfl, trivial, ?_⟩
      exact { h with pendingClose := by simpa using Option.Rel.some hg }
  | @takePendingClose g g' hg =>
      -- either both timers are due or neither is
      have hdue : d.pendingClose a = some g ↔ d'.pendingClose a = some g' := by
        have hpending := h.pendingClose
        generalize d.pendingClose a = p at hpending ⊢
        generalize d'.pendingClose a = p' at hpending ⊢
        cases hpending with
        | none => simp
        | some hp =>
            rw [Option.some.injEq, Option.some.injEq]
            constructor
            · rintro rfl
              exact h.gens.2 hp hg
            · rintro rfl
              exact h.gens.1 hp hg
      simp only [exec, ← hdue]
      split
      · refine .inr ⟨_, _, _, _, G, rfl, rfl, le_rfl, rfl, ?_⟩
        exact { h with pendingClose := by simp }
      · exact .inr ⟨_, _, _, _, G, rfl, rfl, le_rfl, rfl, h⟩
  | spawnGrace hg =>
      refine .inr ⟨_, (), _, (), G, rfl, rfl, le_rfl, trivial, ?_⟩
      refine { h with timers := ?_ }
      rw [List.filter_append, List.filter_append]
      exact List.rel_append h.timers (by simpa using hg)
  | releasable =>
      exact .inr ⟨_, _, _, _, G, rfl, rfl, le_rfl, h.slice.releasable, h⟩
  | release ha hl =>
      subst ha
      exact .inr ⟨_, (), _, (), G, rfl, rfl, le_rfl, trivial,
        h.of_store (h.slice.deleteReleased _ hl) rfl rfl⟩
  | prune t =>
      have hsettings : d.settings a = d'.settings a := by
        simpa [Daemon.reading] using hread
      exact .inr ⟨_, _, _, _, G, rfl, rfl, le_rfl, trivial,
        h.of_store (slice_prune h.slice hsettings h.parked k k' tick.now t) rfl rfl⟩
  | plain hminds hplain =>
      have hkeep : ∀ {r r' : op.Res} {d₁ d₁' : Daemon},
          exec k op tick d = some (d₁, r) → exec k' op tick d' = some (d₁', r') →
          r = r' → (within a True).valid () op r → Alike a G P d₁ d₁' →
          (exec k op tick d = none ∧ exec k' op tick d' = none)
            ∨ ∃ d₁ r d₁' r' G', exec k op tick d = some (d₁, r)
              ∧ exec k' op tick d' = some (d₁', r') ∧ G ≤ G'
              ∧ (r = r' ∧ (within a True).valid () op r)
              ∧ Alike a G' P d₁ d₁' :=
        fun hd hd' hr hvalid hd₁ =>
          .inr ⟨_, _, _, _, G, hd, hd', le_rfl, ⟨hr, hvalid⟩, hd₁⟩
      cases op with
      | now => exact hkeep rfl rfl rfl trivial (h.of_store h.slice rfl rfl)
      | discover dir =>
          exact hkeep rfl rfl (by simpa [Daemon.reading] using hread) trivial h
      | readFork entry =>
          exact hkeep rfl rfl (by simpa [Daemon.reading] using hread) trivial h
      | readDelta path offset =>
          exact hkeep rfl rfl (by simpa [Daemon.reading] using hread) trivial h
      | cfgFor projectRoot =>
          exact hkeep rfl rfl (by simpa [Daemon.reading] using hread)
            (fun _ => hcfg _) (h.of_store h.slice rfl rfl)
      | write x =>
          have habout : x.about = some a := by simpa [Op.minds] using hminds
          have hx := slice_congr habout h.slice k k' tick.now
          exact hkeep rfl rfl hx.2 trivial (h.of_store hx.1 rfl rfl)
      | getSession b =>
          obtain rfl : b = a := by simpa [Op.minds] using hminds
          exact hkeep rfl rfl h.slice.getSession trivial h
      | snapshot b =>
          obtain rfl : b = a := by simpa [Op.minds] using hminds
          obtain ⟨⟨log, hex⟩, hvalid⟩ := exec_snapshot_row k b tick d
          obtain ⟨⟨log', hex'⟩, -⟩ := exec_snapshot_row k' b tick d'
          exact hkeep hex hex' h.slice.getSession hvalid
            (h.of_store h.slice rfl rfl)
      | roster b =>
          obtain rfl : b = a := by simpa [Op.minds] using hminds
          exact hkeep rfl rfl h.slice.rosterOf trivial h
      | isLatched b forkName key =>
          obtain rfl : b = a := by simpa [Op.minds] using hminds
          exact hkeep rfl rfl (h.slice.isLatched forkName key) trivial h
      | clearPendingClose b =>
          obtain rfl : b = a := by simpa [Op.minds] using hminds
          exact hkeep rfl rfl rfl trivial { h with pendingClose := by simp }
      | register b =>
          obtain rfl : b = a := by simpa [Op.minds] using hminds
          refine hkeep rfl rfl rfl trivial ?_
          exact { h.signal hP with waits := by simpa using Option.Rel.some hk }
      | cancelWait b =>
          obtain rfl : b = a := by simpa [Op.minds] using hminds
          refine hkeep rfl rfl rfl trivial ?_
          exact { h.signal hP with waits := by simp }
      | park b =>
          obtain rfl : b = a := by simpa [Op.minds] using hminds
          exact hkeep rfl rfl rfl trivial { h with parked := by simp [h.parked] }
      | unpark b =>
          obtain rfl : b = a := by simpa [Op.minds] using hminds
          exact hkeep rfl rfl rfl trivial { h with parked := by simp [h.parked] }
      | recentlyWoke b t =>
          obtain rfl : b = a := by simpa [Op.minds] using hminds
          refine hkeep rfl rfl ?_ trivial h
          rw [h.wakeIssuedAt, h.graceSecs]
      | noteWakeIssued b =>
          obtain rfl : b = a := by simpa [Op.minds] using hminds
          exact hkeep rfl rfl rfl trivial { h with wakeIssuedAt := by simp }
      | select sleepSecs =>
          rcases exec_select (h.signalled k k' hk) sleepSecs tick with
            hnone | ⟨r, hd, hd'⟩
          · exact .inl hnone
          · exact hkeep hd hd' rfl trivial h
      | _ => cases hplain

end Autofork
