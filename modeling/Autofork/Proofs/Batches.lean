/-
The spawn registry and the batches it is told in.

What a transcript says about spawns is a sequence of items, and a delta
is a run of it with its spawns first, then its task ids, then its
notifications. A spawn's row after a delta is read off the items
(`settled`): the first spawn's name, the first task id, the first
terminal status with its time. In a causal sequence nothing an item
still awaits has been passed by, so the row after two runs is the row
after them as one (`settled_append`), and items seen before change
nothing (`settled_again`): the registry is that of the whole sequence,
however it was cut and repeated (`registry_of_items`).
-/
import Autofork.Proofs.Items

namespace Autofork

open Lib

-- ============================================================ the batches

/-- One delta: consecutive items, and when it was read. -/
structure Chunk where
  items : List Item
  readAt : Int
  newOffset : Nat
  promptTokens : Option Nat
  model : Option String

namespace Chunk

def delta (b : Chunk) : Delta where
  newOffset := b.newOffset
  promptTokens := b.promptTokens
  model := b.model
  spawns := b.items.filterMap Item.asSpawn
  taskIds := b.items.filterMap Item.asTaskId
  notifications := b.items.filterMap Item.asNotification

/-- A delta that reports items is the batch of them. -/
theorem delta_of_reports {d : Delta} {items : List Item}
    (h : Reports d items) (t : Int) :
    (Chunk.mk items t d.newOffset d.promptTokens d.model).delta = d := by
  obtain ⟨hspawns, htasks, hnotes⟩ := h
  rw [delta, ← hspawns, ← htasks, ← hnotes]

/-- The items with the time they are recorded at. -/
def timed (b : Chunk) : List (Item × Int) := b.items.map (·, b.readAt)

end Chunk

/-- The store after one delta after another. -/
def ingestAll (s : Store) (sessionId : String) (batches : List Chunk) : Store :=
  batches.foldl (fun s b => applyDelta s sessionId b.delta b.readAt) s

/-- The rows of a session's spawns, without their times. -/
def registry (s : Store) (sessionId : String) :
    List (String × Option String × Option String × String) :=
  (s.spawns.select (·.sessionId == sessionId)).map fun r =>
    (r.toolUseId, r.forkName, r.taskId, r.status)

-- ===================================================== a row of the items

section row

variable (a u : String)

/-- The row an item opens. -/
def spawnRow : Item × Int → Option SpawnRec
  | (.spawn toolUseId forkName, t) =>
      if toolUseId = u then some
        { sessionId := a, toolUseId, forkName
          taskId := none
          status := "spawned"
          spawnedAt := t
          terminalAt := none }
      else none
  | _ => none

/-- The task id an item gives the row. -/
def taskIdFor : Item × Int → Option String
  | (.taskId toolUseId id, _) => if toolUseId = u then some id else none
  | _ => none

/-- The end an item gives the row of that task id. -/
def endingOf (taskId : Option String) : Item × Int → Option (String × Int)
  | (.notification n, t) =>
      if n.toolUseId = some u ∨ (n.taskId.isSome ∧ taskId = n.taskId) then
        (n.status.filter isTerminalStatus).map (·, t)
      else none
  | _ => none

/-- A row's first end among the items. -/
def closeRow (items : List (Item × Int)) (r : SpawnRec) : SpawnRec :=
  if r.status = "spawned" then
    match items.findSome? (endingOf u r.taskId) with
    | some (status, t) => { r with status, terminalAt := some t }
    | none => r
  else r

/-- A row's first task id, and then its first end, among the items. -/
def finish (items : List (Item × Int)) (r : SpawnRec) : SpawnRec :=
  closeRow u items
    { r with taskId := r.taskId.or (items.findSome? (taskIdFor u)) }

/-- The row under a `tool_use` id once the items are recorded: what was
there, or the first spawn's. -/
def settled (items : List (Item × Int)) (old : Option SpawnRec) :
    Option SpawnRec :=
  (old.or (items.findSome? (spawnRow a u))).map (finish u items)

end row

-- ============================================================== one delta

variable {a u : String}

private theorem find?_recordSpawn (s : Store) (id : String)
    (name : Option String) (t : Int) :
    (s.recordSpawn a id name t).spawns.find? (a, u)
      = (s.spawns.find? (a, u)).or (spawnRow a u (.spawn id name, t)) := by
  rw [Store.recordSpawn, Table.find?_insertOrIgnore, Option.orElse_eq_orElse,
    Option.orElse_eq_or]
  by_cases hid : id = u
  · simp only [SpawnRec.key, spawnRow, hid, if_pos]
  · simp only [SpawnRec.key, spawnRow, hid, Prod.mk.injEq, and_false, if_neg,
      not_false_eq_true]

private theorem find?_setSpawnTaskId (s : Store) (id task : String) (t : Int) :
    (s.setSpawnTaskId a id task).spawns.find? (a, u)
      = (s.spawns.find? (a, u)).map fun r =>
          { r with taskId := r.taskId.or (taskIdFor u (.taskId id task, t)) } := by
  refine Eq.trans (@Table.find?_updateWhere _ _ SpawnRec.key _ s.spawns
    (fun r => r.sessionId == a && r.toolUseId == id)
    (fun r => { r with taskId := r.taskId <|> some task })
    (fun _ => rfl) (a, u)) ?_
  cases hfind : s.spawns.find? (a, u) with
  | none => rfl
  | some r =>
      have hkey : (r.sessionId, r.toolUseId) = (a, u) :=
        (s.spawns.find?_eq_some_iff.1 hfind).2
      obtain ⟨rfl, rfl⟩ := Prod.mk.inj hkey
      by_cases hid : id = r.toolUseId
      · simp [taskIdFor, hid]
      · simp [taskIdFor, hid, Ne.symm hid]

private theorem closeRow_key (items : List (Item × Int)) (r : SpawnRec) :
    (closeRow u items r).taskId = r.taskId ∧ (closeRow u items r).key = r.key := by
  unfold closeRow
  split
  · split <;> exact ⟨rfl, rfl⟩
  · exact ⟨rfl, rfl⟩

theorem taskId_finish (items : List (Item × Int)) (r : SpawnRec) :
    (finish u items r).taskId
      = r.taskId.or (items.findSome? (taskIdFor u)) :=
  (closeRow_key items _).1

private theorem closeRow_of_none {items : List (Item × Int)} {r : SpawnRec}
    (h : items.findSome? (endingOf u r.taskId) = none) :
    closeRow u items r = r := by
  rw [closeRow, h]
  exact ite_self r

/-- An end is an end. -/
private theorem closed_of_ending {items : List (Item × Int)}
    {taskId : Option String} {e : String × Int}
    (h : items.findSome? (endingOf u taskId) = some e) : e.1 ≠ "spawned" := by
  obtain ⟨x, -, hx⟩ := List.exists_of_findSome?_eq_some h
  obtain ⟨x, t⟩ := x
  cases x with
  | spawn | taskId => cases hx
  | notification n =>
      simp only [endingOf] at hx
      split at hx
      · obtain ⟨status, hstatus, rfl⟩ := Option.map_eq_some_iff.1 hx
        have hterminal := (Option.filter_eq_some_iff.1 hstatus).2
        rintro rfl
        cases hterminal
      · cases hx

/-- A row left open was given no end. -/
private theorem ending_of_open {items : List (Item × Int)} {r : SpawnRec}
    (h : (closeRow u items r).status = "spawned") :
    items.findSome? (endingOf u r.taskId) = none := by
  unfold closeRow at h
  split at h
  next =>
    cases hend : items.findSome? (endingOf u r.taskId) with
    | none => rfl
    | some e =>
        rw [hend] at h
        exact absurd h (closed_of_ending hend)
  next hclosed => exact absurd h hclosed

private theorem closeRow_append (xs ys : List (Item × Int)) (r : SpawnRec) :
    closeRow u (xs ++ ys) r = closeRow u ys (closeRow u xs r) := by
  by_cases hopen : r.status = "spawned"
  · have hxs : closeRow u xs r = match xs.findSome? (endingOf u r.taskId) with
        | some (status, t) => { r with status, terminalAt := some t }
        | none => r := if_pos hopen
    rw [closeRow, if_pos hopen, List.findSome?_append, hxs]
    cases hend : xs.findSome? (endingOf u r.taskId) with
    | none => rw [closeRow, if_pos hopen, Option.none_or]
    | some e =>
        have hclosed := closed_of_ending hend
        rw [Option.some_or, closeRow, if_neg hclosed]
  · rw [closeRow, if_neg hopen, closeRow, closeRow, if_neg hopen, if_neg hopen]

private theorem find?_ingestNotification (s : Store) (n : TaskNotification)
    (t : Int) :
    (ingestNotification a t s n).spawns.find? (a, u)
      = (s.spawns.find? (a, u)).map (closeRow u [(.notification n, t)]) := by
  -- the condition of the statement, for the row of `u`
  have hmatch : ∀ r, s.spawns.find? (a, u) = some r →
      (Store.matchesIds a n.toolUseId n.taskId r = true
        ↔ n.toolUseId = some u ∨ (n.taskId.isSome ∧ r.taskId = n.taskId)) := by
    intro r hfind
    have hkey : (r.sessionId, r.toolUseId) = (a, u) :=
      (s.spawns.find?_eq_some_iff.1 hfind).2
    obtain ⟨rfl, rfl⟩ := Prod.mk.inj hkey
    unfold Store.matchesIds
    cases n.toolUseId <;> cases n.taskId <;> simp [@eq_comm _ r.toolUseId]
  unfold ingestNotification
  cases hstatus : n.status.filter isTerminalStatus with
  | none =>
      have hsame : ∀ r, closeRow u [(.notification n, t)] r = r := by
        intro r
        simp [closeRow, endingOf, hstatus]
      rw [Option.map_congr fun r _ => hsame r, Option.map_id']
  | some status =>
      simp only [Store.markSpawnTerminal]
      split
      next hany =>
        refine Eq.trans (@Table.find?_updateWhere _ _ SpawnRec.key _ s.spawns
          (fun r => r.status == "spawned"
            && Store.matchesIds a n.toolUseId n.taskId r)
          (fun r => { r with status, terminalAt := some t })
          (fun _ => rfl) (a, u)) ?_
        apply Option.map_congr
        intro r hfind
        by_cases hids : Store.matchesIds a n.toolUseId n.taskId r = true
        · have hcond := (hmatch r hfind).1 hids
          by_cases hopen : r.status = "spawned"
          · simp [closeRow, endingOf, hstatus, hids, hcond, hopen]
          · simp [closeRow, hopen]
        · have hcond := mt (hmatch r hfind).2 hids
          simp only [closeRow, List.findSome?_cons, endingOf, if_neg hcond,
            List.findSome?_nil, ite_self, Bool.and_eq_true, hids, and_false,
            Bool.false_eq_true, if_false]
      next hany =>
        have hsame : ∀ r, s.spawns.find? (a, u) = some r →
            closeRow u [(.notification n, t)] r = r := by
          intro r hfind
          have hids : ¬Store.matchesIds a n.toolUseId n.taskId r = true := fun h =>
            hany (List.any_eq_true.2
              ⟨r, (s.spawns.find?_eq_some_iff.1 hfind).1, h⟩)
          have hcond := mt (hmatch r hfind).2 hids
          simp only [closeRow, List.findSome?_cons, endingOf, if_neg hcond,
            List.findSome?_nil, ite_self]
        rw [Option.map_congr hsame, Option.map_id']

private theorem find?_spawns (items : List Item) (t : Int) (s : Store) :
    ((items.filterMap Item.asSpawn).foldl
        (fun s p => s.recordSpawn a p.1 p.2 t) s).spawns.find? (a, u)
      = (s.spawns.find? (a, u)).or
          ((items.map (·, t)).findSome? (spawnRow a u)) := by
  induction items generalizing s with
  | nil => simp
  | cons x items ih =>
      rw [List.map_cons, List.findSome?_cons]
      cases x with
      | spawn id name =>
          have hhead : Item.asSpawn (.spawn id name) = some (id, name) := rfl
          rw [List.filterMap_cons_some hhead, List.foldl_cons, ih,
            find?_recordSpawn]
          cases s.spawns.find? (a, u) <;>
            cases spawnRow a u (.spawn id name, t) <;> rfl
      | taskId | notification => exact ih s

private theorem find?_taskIds (items : List Item) (t : Int) (s : Store) :
    ((items.filterMap Item.asTaskId).foldl
        (fun s p => s.setSpawnTaskId a p.1 p.2) s).spawns.find? (a, u)
      = (s.spawns.find? (a, u)).map fun r =>
          { r with
            taskId := r.taskId.or
              ((items.map (·, t)).findSome? (taskIdFor u)) } := by
  induction items generalizing s with
  | nil => simp
  | cons x items ih =>
      rw [List.map_cons, List.findSome?_cons]
      cases x with
      | taskId id task =>
          have hhead : Item.asTaskId (.taskId id task) = some (id, task) := rfl
          rw [List.filterMap_cons_some hhead, List.foldl_cons, ih,
            find?_setSpawnTaskId s id task t, Option.map_map]
          apply congrArg (fun f => Option.map f _)
          funext r
          cases h : r.taskId <;> cases taskIdFor u (.taskId id task, t) <;>
            simp [h]
      | spawn | notification => exact ih s

private theorem find?_notifications (items : List Item) (t : Int) (s : Store) :
    ((items.filterMap Item.asNotification).foldl
        (ingestNotification a t) s).spawns.find? (a, u)
      = (s.spawns.find? (a, u)).map (closeRow u (items.map (·, t))) := by
  induction items generalizing s with
  | nil =>
      have hsame : closeRow u [] = id := funext fun r => closeRow_of_none rfl
      rw [List.map_nil, hsame, Option.map_id]
      rfl
  | cons x items ih =>
      have hsplit : closeRow u ((x :: items).map (·, t))
          = closeRow u (items.map (·, t)) ∘ closeRow u [(x, t)] :=
        funext fun r => closeRow_append [(x, t)] _ r
      rw [hsplit, ← Option.map_map]
      cases x with
      | notification n =>
          have hhead : Item.asNotification (.notification n) = some n := rfl
          rw [List.filterMap_cons_some hhead, List.foldl_cons, ih,
            find?_ingestNotification]
      | spawn v name =>
          have hsame : closeRow u [(.spawn v name, t)] = id :=
            funext fun r => closeRow_of_none rfl
          rw [hsame, Option.map_id]
          exact ih s
      | taskId v task =>
          have hsame : closeRow u [(.taskId v task, t)] = id :=
            funext fun r => closeRow_of_none rfl
          rw [hsame, Option.map_id]
          exact ih s

/-- A delta does to a row what its items say, whatever their order in
it. -/
theorem find?_applyDelta (s : Store) (b : Chunk) :
    (applyDelta s a b.delta b.readAt).spawns.find? (a, u)
      = settled a u b.timed (s.spawns.find? (a, u)) := by
  have hnotes := @find?_notifications a u b.items b.readAt
    (b.delta.taskIds.foldl (fun s p => s.setSpawnTaskId a p.1 p.2)
      (b.delta.spawns.foldl (fun s p => s.recordSpawn a p.1 p.2 b.readAt) s))
  rw [Chunk.delta, find?_taskIds b.items b.readAt, find?_spawns,
    Option.map_map] at hnotes
  exact hnotes

-- ======================================================== causal sequences

variable {P Q : List (Item × Int)}

/-- An item before a spawn of the `tool_use` id it names: there is a
spawn before already. -/
private theorem Causal.spawn (h : Causal ((P ++ Q).map Prod.fst))
    {x : Item × Int} (hx : x ∈ P) (hnames : x.1.Names u) {name : Option String}
    {t : Int} (hspawn : (.spawn u name, t) ∈ Q) :
    P.findSome? (spawnRow a u) ≠ none := by
  obtain ⟨before, after, rfl⟩ := List.append_of_mem hx
  have hafter : Item.spawn u name ∈ (after ++ Q).map Prod.fst :=
    List.mem_map_of_mem (List.mem_append_right _ hspawn)
  obtain ⟨name', hbefore⟩ := (h (before.map Prod.fst) x.1
    ((after ++ Q).map Prod.fst) (by simp)).1 u name hafter hnames
  obtain ⟨⟨y, t'⟩, hy, rfl⟩ := List.mem_map.1 hbefore
  intro hnone
  have hrow := List.findSome?_eq_none_iff.1 hnone _
    (List.mem_append_left _ hy)
  simp [spawnRow] at hrow

/-- A notification before a tool result with the task id it names: the
result is there before already. -/
private theorem Causal.taskId (h : Causal ((P ++ Q).map Prod.fst))
    {x : Item × Int} (hx : x ∈ P) {i : String} (hnames : x.1.NamesTask i)
    {t : Int} (htask : (.taskId u i, t) ∈ Q) :
    ∃ y ∈ P, y.1.Names u ∧ taskIdFor u y = some i := by
  obtain ⟨before, after, rfl⟩ := List.append_of_mem hx
  have hafter : Item.taskId u i ∈ (after ++ Q).map Prod.fst :=
    List.mem_map_of_mem (List.mem_append_right _ htask)
  have hbefore := (h (before.map Prod.fst) x.1
    ((after ++ Q).map Prod.fst) (by simp)).2 u i hafter hnames
  obtain ⟨⟨y, t'⟩, hy, rfl⟩ := List.mem_map.1 hbefore
  exact ⟨_, List.mem_append_left _ hy, rfl, by simp [taskIdFor]⟩

private theorem taskIdFor_eq_some {x : Item × Int} {i : String}
    (h : taskIdFor u x = some i) : x.1 = .taskId u i := by
  obtain ⟨x, t⟩ := x
  cases x with
  | spawn | notification => cases h
  | taskId id task =>
      simp only [taskIdFor] at h
      split at h
      next hid => rw [hid, Option.some.inj h]
      next => cases h

theorem spawnRow_eq_some {x : Item × Int} {r : SpawnRec}
    (h : spawnRow a u x = some r) :
    (∃ name, x.1 = .spawn u name) ∧ r.taskId = none ∧ r.status = "spawned" := by
  obtain ⟨x, t⟩ := x
  cases x with
  | taskId | notification => cases h
  | spawn id name =>
      simp only [spawnRow] at h
      split at h
      next hid =>
        subst hid
        obtain rfl := Option.some.inj h
        exact ⟨⟨name, rfl⟩, rfl, rfl⟩
      next => cases h

/-- Whom a notification ends, by either of its ids. -/
private theorem names_of_endingOf {x : Item × Int} {taskId : Option String}
    (h : endingOf u taskId x ≠ none) :
    x.1.Names u ∨ ∃ i, taskId = some i ∧ x.1.NamesTask i := by
  obtain ⟨x, t⟩ := x
  cases x with
  | spawn | taskId => exact absurd rfl h
  | notification n =>
      simp only [endingOf] at h
      split at h
      next hids =>
        rcases hids with hid | ⟨hsome, htask⟩
        · exact .inl hid
        · obtain ⟨i, hi⟩ := Option.isSome_iff_exists.1 hsome
          exact .inr ⟨i, htask.trans hi, hi⟩
      next => exact absurd rfl h

private theorem findSome?_congr {α β : Type} {f g : α → Option β}
    {xs : List α} (h : ∀ x ∈ xs, f x = g x) :
    xs.findSome? f = xs.findSome? g := by
  induction xs with
  | nil => rfl
  | cons x xs ih =>
      rw [List.findSome?_cons, List.findSome?_cons, h x List.mem_cons_self,
        ih fun y hy => h y (List.mem_cons_of_mem _ hy)]

/-- A notification does not name a task id that is to come. -/
private theorem ending_before (h : Causal ((P ++ Q).map Prod.fst))
    (hP : P.findSome? (taskIdFor u) = none) :
    P.findSome? (endingOf u (Q.findSome? (taskIdFor u)))
      = P.findSome? (endingOf u none) := by
  apply findSome?_congr
  intro x hx
  by_cases hu : x.1.Names u
  · obtain ⟨x, t⟩ := x
    cases x with
    | spawn | taskId => rfl
    | notification n =>
        have hid : n.toolUseId = some u := hu
        rw [endingOf, endingOf, if_pos (.inl hid), if_pos (.inl hid)]
  · have hnone : ∀ taskId, (∀ i, taskId = some i → ¬x.1.NamesTask i) →
        endingOf u taskId x = none := by
      intro taskId htask
      by_contra hend
      rcases names_of_endingOf hend with hnames | ⟨i, hi, hnames⟩
      · exact hu hnames
      · exact htask i hi hnames
    have hlate : endingOf u (Q.findSome? (taskIdFor u)) x = none := by
      apply hnone
      intro i hi hnames
      obtain ⟨⟨y, t⟩, hy, hfor⟩ := List.exists_of_findSome?_eq_some hi
      obtain rfl : y = .taskId u i := taskIdFor_eq_some hfor
      obtain ⟨z, hz, -, hzfor⟩ := h.taskId hx hnames hy
      rw [List.findSome?_eq_none_iff.1 hP z hz] at hzfor
      cases hzfor
    have hearly : endingOf u none x = none := by
      apply hnone
      intro i hi
      cases hi
    rw [hlate, hearly]

/-- The end of a row whose task id comes later. -/
private theorem closeRow_taskId {r : SpawnRec} {taskId : Option String}
    (h : P.findSome? (endingOf u taskId) = P.findSome? (endingOf u r.taskId)) :
    closeRow u P { r with taskId } = { closeRow u P r with taskId } := by
  unfold closeRow
  rw [h]
  split
  · split <;> rfl
  · rfl

private theorem finish_append (h : Causal ((P ++ Q).map Prod.fst))
    (r : SpawnRec) :
    finish u (P ++ Q) r = finish u Q (finish u P r) := by
  let r₁ := { r with taskId := r.taskId.or (P.findSome? (taskIdFor u)) }
  let taskId := r₁.taskId.or (Q.findSome? (taskIdFor u))
  have hend : P.findSome? (endingOf u taskId)
      = P.findSome? (endingOf u r₁.taskId) := by
    show P.findSome? (endingOf u (r₁.taskId.or _)) = _
    cases htask : r₁.taskId with
    | some i => rw [Option.some_or]
    | none =>
        rw [Option.none_or]
        exact ending_before h (Option.or_eq_none_iff.1 htask).2
  have hwhole : finish u (P ++ Q) r
      = closeRow u (P ++ Q) { r₁ with taskId } := by
    rw [finish, List.findSome?_append, ← Option.or_assoc]
  have hlast : finish u Q (finish u P r)
      = closeRow u Q { closeRow u P r₁ with taskId } := by
    show closeRow u Q { closeRow u P r₁ with
      taskId := (closeRow u P r₁).taskId.or _ } = _
    rw [(closeRow_key P r₁).1]
  rw [hwhole, hlast, closeRow_append, closeRow_taskId hend]

/-- Recording two runs of a causal sequence records them as one. -/
theorem settled_append (h : Causal ((P ++ Q).map Prod.fst))
    (old : Option SpawnRec) :
    settled a u (P ++ Q) old = settled a u Q (settled a u P old) := by
  rw [settled, settled, settled, List.findSome?_append, ← Option.or_assoc]
  cases hold : old.or (P.findSome? (spawnRow a u)) with
  | some r =>
      simp only [Option.some_or, Option.map_some, finish_append h]
  | none =>
      rw [Option.none_or, Option.map_none, Option.none_or]
      apply Option.map_congr
      intro r hr
      obtain ⟨⟨y, t⟩, hy, hrow⟩ := List.exists_of_findSome?_eq_some hr
      obtain ⟨⟨name, hspawn⟩, htask, -⟩ := spawnRow_eq_some hrow
      obtain rfl : y = .spawn u name := hspawn
      -- the row opens in `Q`, so nothing in `P` is about it
      have hnames : ∀ x ∈ P, ¬x.1.Names u := fun x hx hnames =>
        h.spawn hx hnames hy (Option.or_eq_none_iff.1 hold).2
      have htasks : P.findSome? (taskIdFor u) = none := by
        refine List.findSome?_eq_none_iff.2 fun x hx => ?_
        by_contra hfor
        obtain ⟨i, hi⟩ := Option.ne_none_iff_exists'.1 hfor
        apply hnames x hx
        rw [taskIdFor_eq_some hi]
        rfl
      have hends : P.findSome? (endingOf u none) = none := by
        refine List.findSome?_eq_none_iff.2 fun x hx => ?_
        by_contra hend
        rcases names_of_endingOf hend with hu | ⟨i, hi, -⟩
        · exact hnames x hx hu
        · cases hi
      have hsame : finish u P r = r := by
        rw [finish, htasks, Option.or_none]
        exact closeRow_of_none (htask ▸ hends)
      rw [finish_append h, hsame]

private theorem finish_of_none {r : SpawnRec}
    (htask : r.taskId = none → Q.findSome? (taskIdFor u) = none)
    (hend : r.status = "spawned" →
      Q.findSome? (endingOf u r.taskId) = none) :
    finish u Q r = r := by
  have hsame : r.taskId.or (Q.findSome? (taskIdFor u)) = r.taskId := by
    cases hr : r.taskId with
    | none => rw [Option.none_or, htask hr]
    | some i => rw [Option.some_or]
  rw [finish, hsame]
  by_cases hopen : r.status = "spawned"
  · exact closeRow_of_none (hend hopen)
  · exact if_neg hopen

/-- Recording items again, at whatever time, changes nothing. -/
theorem settled_again (h : ∀ x ∈ Q, x.1 ∈ P.map Prod.fst)
    (old : Option SpawnRec) :
    settled a u Q (settled a u P old) = settled a u P old := by
  have hseen : ∀ {x t}, (x, t) ∈ Q → ∃ t', (x, t') ∈ P := by
    intro x t hx
    obtain ⟨⟨y, t'⟩, hy, rfl⟩ := List.mem_map.1 (h _ hx)
    exact ⟨t', hy⟩
  rw [settled, settled]
  cases hold : old.or (P.findSome? (spawnRow a u)) with
  | none =>
      have hspawn : Q.findSome? (spawnRow a u) = none := by
        by_contra hrow
        obtain ⟨r, hr⟩ := Option.ne_none_iff_exists'.1 hrow
        obtain ⟨⟨y, t⟩, hy, hyrow⟩ := List.exists_of_findSome?_eq_some hr
        obtain ⟨⟨name, hname⟩, -⟩ := spawnRow_eq_some hyrow
        obtain rfl : y = .spawn u name := hname
        obtain ⟨t', hP⟩ := hseen hy
        have hnone := List.findSome?_eq_none_iff.1
          (Option.or_eq_none_iff.1 hold).2 _ hP
        simp [spawnRow] at hnone
      rw [Option.map_none, Option.none_or, hspawn]
      rfl
  | some r =>
      rw [Option.map_some, Option.some_or, Option.map_some]
      refine congrArg some (finish_of_none ?_ ?_)
      · intro htask
        rw [finish, (closeRow_key _ _).1] at htask
        refine List.findSome?_eq_none_iff.2 fun x hx => ?_
        by_contra hfor
        obtain ⟨i, hi⟩ := Option.ne_none_iff_exists'.1 hfor
        obtain ⟨y, t⟩ := x
        obtain rfl : y = .taskId u i := taskIdFor_eq_some hi
        obtain ⟨t', hP⟩ := hseen hx
        have hnone := List.findSome?_eq_none_iff.1
          (Option.or_eq_none_iff.1 htask).2 _ hP
        simp [taskIdFor] at hnone
      · intro hopen
        refine List.findSome?_eq_none_iff.2 fun x hx => ?_
        obtain ⟨y, t⟩ := x
        obtain ⟨t', hP⟩ := hseen hx
        -- what left the row open the first time leaves it so again
        have hnone : P.findSome? (endingOf u (finish u P r).taskId) = none := by
          rw [finish, (closeRow_key _ _).1]
          exact ending_of_open hopen
        have hfirst := List.findSome?_eq_none_iff.1 hnone _ hP
        cases y with
        | spawn | taskId => rfl
        | notification n =>
            simp only [endingOf] at hfirst ⊢
            split
            next hids =>
              rw [if_pos hids, Option.map_eq_none_iff] at hfirst
              rw [hfirst]
              rfl
            next => rfl

-- ============================================================ many deltas

private theorem items_timed (batches : List Chunk) :
    (batches.flatMap Chunk.timed).map Prod.fst
      = batches.flatMap Chunk.items := by
  rw [List.map_flatMap]
  congr 1
  funext b
  rw [Chunk.timed, List.map_map]
  exact List.map_id _

/-- Deltas of consecutive items do to a row what the items say. -/
theorem find?_ingestAll (s : Store) (batches : List Chunk)
    (h : Causal (batches.flatMap Chunk.items)) :
    (ingestAll s a batches).spawns.find? (a, u)
      = settled a u (batches.flatMap Chunk.timed) (s.spawns.find? (a, u)) := by
  induction batches using List.reverseRecOn with
  | nil =>
      have hsame : finish u [] = id := funext fun r =>
        finish_of_none (fun _ => rfl) fun _ => rfl
      show _ = settled a u [] _
      rw [settled, List.findSome?_nil, Option.or_none, hsame, Option.map_id]
      rfl
  | append_singleton batches b ih =>
      have hitems := h
      rw [← items_timed] at hitems
      rw [List.flatMap_append] at h hitems ⊢
      rw [ingestAll, List.foldl_append]
      show (applyDelta (ingestAll s a batches) a b.delta b.readAt).spawns.find? _ = _
      rw [find?_applyDelta, ih h.of_append, settled_append hitems]
      simp

/-- Deltas of items seen before leave the rows alone. -/
private theorem find?_again (s : Store) {items : List (Item × Int)}
    {again : List Chunk}
    (h : ∀ b ∈ again, ∀ x ∈ b.items, x ∈ items.map Prod.fst)
    {old : Option SpawnRec}
    (hs : s.spawns.find? (a, u) = settled a u items old) :
    (ingestAll s a again).spawns.find? (a, u) = settled a u items old := by
  induction again generalizing s with
  | nil => exact hs
  | cons b again ih =>
      apply ih _ fun b' hb' => h b' (List.mem_cons_of_mem _ hb')
      rw [find?_applyDelta, hs]
      apply settled_again
      intro x hx
      obtain ⟨y, hy, rfl⟩ := List.mem_map.1 hx
      exact h b List.mem_cons_self y hy

/-- The rows a session has. -/
private theorem mem_registry {s : Store}
    {x : String × Option String × Option String × String} :
    x ∈ registry s a ↔ ∃ r, s.spawns.find? (a, x.1) = some r
      ∧ r.forkName = x.2.1 ∧ r.taskId = x.2.2.1 ∧ r.status = x.2.2.2 := by
  rw [registry, List.mem_map]
  constructor
  · rintro ⟨r, hr, rfl⟩
    obtain ⟨hr, hsession⟩ := (Table.mem_select _).1 hr
    refine ⟨r, (Table.find?_eq_some_iff _).2 ⟨hr, ?_⟩, rfl, rfl, rfl⟩
    rw [SpawnRec.key, eq_of_beq hsession]
  · rintro ⟨r, hr, hfork, htask, hstatus⟩
    obtain ⟨hr, hkey⟩ := (Table.find?_eq_some_iff _).1 hr
    obtain ⟨hsession, hid⟩ := Prod.mk.inj hkey
    refine ⟨r, (Table.mem_select _).2 ⟨hr, beq_iff_eq.2 hsession⟩, ?_⟩
    rw [hfork, htask, hstatus, hid]

/-- What the registry shows of a row, times left out. -/
private def shown (r : SpawnRec) : Option String × Option String × String :=
  (r.forkName, r.taskId, r.status)

section shown

variable {xs ys : List (Item × Int)}

/-- What is read off the items alone is read off them at any times. -/
private theorem findSome?_untimed {β : Type} {f : Item × Int → Option β}
    (hf : ∀ x t, f (x, t) = f (x, 0)) (h : xs.map Prod.fst = ys.map Prod.fst) :
    xs.findSome? f = ys.findSome? f := by
  have hitems : ∀ zs : List (Item × Int), zs.findSome? f
      = (zs.map Prod.fst).findSome? fun x => f (x, 0) := by
    intro zs
    rw [List.findSome?_map]
    exact findSome?_congr fun z _ => hf z.1 z.2
  rw [hitems, hitems, h]

private theorem shown_finish (h : xs.map Prod.fst = ys.map Prod.fst)
    {r r' : SpawnRec} (hr : shown r = shown r') :
    shown (finish u xs r) = shown (finish u ys r') := by
  simp only [shown, Prod.mk.injEq] at hr
  obtain ⟨hfork, htask, hstatus⟩ := hr
  have htasks : xs.findSome? (taskIdFor u) = ys.findSome? (taskIdFor u) :=
    findSome?_untimed (fun x t => by cases x <;> rfl) h
  have hends : ∀ taskId, (xs.findSome? (endingOf u taskId)).map Prod.fst
      = (ys.findSome? (endingOf u taskId)).map Prod.fst := by
    intro taskId
    rw [List.map_findSome?, List.map_findSome?]
    apply findSome?_untimed _ h
    intro x t
    cases x with
    | spawn | taskId => rfl
    | notification n =>
        simp only [Function.comp_apply, endingOf]
        split
        · rw [Option.map_map, Option.map_map]
          rfl
        · rfl
  have hclose : ∀ (zs : List (Item × Int)) (r : SpawnRec),
      shown (closeRow u zs r) = (r.forkName, r.taskId,
        if r.status = "spawned" then
          ((zs.findSome? (endingOf u r.taskId)).map Prod.fst).getD r.status
        else r.status) := by
    intro zs r
    unfold closeRow
    split
    · cases zs.findSome? (endingOf u r.taskId) <;> rfl
    · rfl
  rw [finish, finish, hclose, hclose, htasks]
  simp only [hfork, htask, hstatus, hends]

/-- The times of the items have no say in what is shown. -/
private theorem shown_settled (h : xs.map Prod.fst = ys.map Prod.fst)
    (old : Option SpawnRec) :
    (settled a u xs old).map shown = (settled a u ys old).map shown := by
  cases old with
  | some r =>
      simp only [settled, Option.some_or, Option.map_some]
      rw [shown_finish h rfl]
  | none =>
      have hrows : (xs.findSome? (spawnRow a u)).map shown
          = (ys.findSome? (spawnRow a u)).map shown := by
        rw [List.map_findSome?, List.map_findSome?]
        apply findSome?_untimed _ h
        intro x t
        cases x with
        | taskId | notification => rfl
        | spawn id name =>
            simp only [Function.comp_apply, spawnRow]
            split <;> rfl
      simp only [settled, Option.none_or]
      cases hx : xs.findSome? (spawnRow a u) with
      | none =>
          rw [hx] at hrows
          rw [Option.map_eq_none_iff.1 hrows.symm]
          rfl
      | some r =>
          rw [hx] at hrows
          obtain ⟨r', hy, hr⟩ := Option.map_eq_some_iff.1 hrows.symm
          rw [hy]
          simp only [Option.map_some]
          rw [shown_finish h hr.symm]

end shown

-- ======================================================== the registry

/-- The registry of a causal sequence of items: however the items are
cut into deltas, and however deltas of items seen before follow, it
shows the same rows, and each row has the first task id the items give
it, and the first end with its time. -/
theorem registry_of_items {items : List Item} (hcausal : Causal items)
    (s : Store) (a : String) {batches again : List Chunk}
    (hitems : batches.flatMap Chunk.items = items)
    (hagain : ∀ b ∈ again, ∀ x ∈ b.items, x ∈ items) :
    (∀ batches' again' : List Chunk,
        batches'.flatMap Chunk.items = items →
        (∀ b ∈ again', ∀ x ∈ b.items, x ∈ items) →
        ∀ x, x ∈ registry (ingestAll s a (batches ++ again)) a
          ↔ x ∈ registry (ingestAll s a (batches' ++ again')) a)
      ∧ ∀ u, (ingestAll s a (batches ++ again)).spawns.find? (a, u)
          = settled a u (batches.flatMap Chunk.timed)
              (s.spawns.find? (a, u)) := by
  have hrow : ∀ batches again : List Chunk,
      batches.flatMap Chunk.items = items →
      (∀ b ∈ again, ∀ x ∈ b.items, x ∈ items) →
      ∀ u, (ingestAll s a (batches ++ again)).spawns.find? (a, u)
        = settled a u (batches.flatMap Chunk.timed) (s.spawns.find? (a, u)) := by
    intro batches again hitems hagain u
    rw [ingestAll, List.foldl_append]
    apply find?_again
    · rwa [items_timed, hitems]
    · exact find?_ingestAll s batches (hitems ▸ hcausal)
  refine ⟨fun batches' again' hitems' hagain' x => ?_, hrow _ _ hitems hagain⟩
  have hsame : ((ingestAll s a (batches ++ again)).spawns.find? (a, x.1)).map shown
      = ((ingestAll s a (batches' ++ again')).spawns.find? (a, x.1)).map shown := by
    rw [hrow _ _ hitems hagain, hrow _ _ hitems' hagain']
    apply shown_settled
    rw [items_timed, items_timed, hitems, hitems']
  have hshown : ∀ s : Store, x ∈ registry s a
      ↔ (s.spawns.find? (a, x.1)).map shown = some x.2 := by
    intro s
    rw [mem_registry, Option.map_eq_some_iff]
    simp only [shown, Prod.ext_iff]
  rw [hshown, hshown, hsame]

/-- A fork is spawned, gets its task id, and ends. -/
private def lifetime : List Item :=
  [.spawn "toolu_1" (some "j"), .taskId "toolu_1" "a1",
    .notification { taskId := some "a1", status := some "completed" }]

private def oneByOne : List Chunk :=
  [⟨[.spawn "toolu_1" (some "j")], 1, 10, none, none⟩,
    ⟨[.taskId "toolu_1" "a1",
      .notification { taskId := some "a1", status := some "completed" }],
      2, 20, none, none⟩]

/-- Read in two deltas and once more from the start, or at once. -/
theorem registry_of_lifetime :
    (∀ x, x ∈ registry (ingestAll .openInMemory "s" (oneByOne
          ++ [⟨lifetime, 3, 20, none, none⟩])) "s"
        ↔ x ∈ registry (ingestAll .openInMemory "s" ([⟨lifetime, 9, 20, none, none⟩]
          ++ [])) "s")
      ∧ ∀ u, (ingestAll .openInMemory "s" (oneByOne
            ++ [⟨lifetime, 3, 20, none, none⟩])).spawns.find? ("s", u)
          = settled "s" u (oneByOne.flatMap Chunk.timed) none := by
  have hcausal : Causal lifetime := by
    apply Causal.of_pairwise
    simp [lifetime, Item.Names, Item.NamesTask]
  obtain ⟨hsame, hrows⟩ := @registry_of_items _ hcausal .openInMemory "s" oneByOne
    [⟨lifetime, 3, 20, none, none⟩] rfl (by simp)
  exact ⟨hsame _ _ rfl (by simp), hrows⟩

end Autofork
