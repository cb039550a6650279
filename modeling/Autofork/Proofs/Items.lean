/-
What a transcript says about spawns, item by item.

An entry holds spawns, or task ids and notifications, and a delta lists
them kind by kind (`Reports.scanEntry`). In a causal sequence no item
names an id that is still to be introduced.
-/
import Autofork.Transcript
import Autofork.Daemon

namespace Autofork

-- ============================================================== the items

/-- What a transcript entry says about spawns. -/
inductive Item
  | spawn (toolUseId : String) (forkName : Option String)
  /-- A tool result with a task id. -/
  | taskId (toolUseId taskId : String)
  | notification (n : TaskNotification)

namespace Item

/-- A tool result or notification names a `tool_use` id. -/
def Names (toolUseId : String) : Item → Prop
  | spawn .. => False
  | taskId id _ => id = toolUseId
  | notification n => n.toolUseId = some toolUseId

/-- A notification names a task id. -/
def NamesTask (id : String) : Item → Prop
  | notification n => n.taskId = some id
  | spawn .. | taskId .. => False

def asSpawn : Item → Option (String × Option String)
  | spawn toolUseId forkName => some (toolUseId, forkName)
  | _ => none

def asTaskId : Item → Option (String × String)
  | taskId toolUseId id => some (toolUseId, id)
  | _ => none

def asNotification : Item → Option TaskNotification
  | notification n => some n
  | _ => none

end Item

/-- No item names an id before what introduces the id: a spawn its
`tool_use` id, a tool result its task id. -/
def Causal (items : List Item) : Prop :=
  ∀ before x after, items = before ++ x :: after →
    (∀ u name, .spawn u name ∈ after → x.Names u →
      ∃ name', .spawn u name' ∈ before)
    ∧ ∀ u i, .taskId u i ∈ after → x.NamesTask i → .taskId u i ∈ before

theorem Causal.of_append {xs ys : List Item} (h : Causal (xs ++ ys)) :
    Causal xs := by
  intro before x after hsplit
  obtain ⟨hspawn, htask⟩ := h before x (after ++ ys) (by simp [hsplit])
  exact ⟨fun u name hmem => hspawn u name (List.mem_append_left _ hmem),
    fun u i hmem => htask u i (List.mem_append_left _ hmem)⟩

/-- A sequence in which every spawn and every task id comes before all
that names it. -/
theorem Causal.of_pairwise {items : List Item}
    (h : items.Pairwise fun x y =>
      (∀ u name, y = .spawn u name → ¬x.Names u)
        ∧ ∀ u i, y = .taskId u i → ¬x.NamesTask i) : Causal items := by
  rintro before x after rfl
  have hlater := (List.pairwise_cons.1 (List.pairwise_append.1 h).2.1).1
  constructor
  · intro u name hmem hnames
    exact absurd hnames ((hlater _ hmem).1 u name rfl)
  · intro u i hmem hnames
    exact absurd hnames ((hlater _ hmem).2 u i rfl)

-- ========================================================= from an entry

/-- The items of a block of a user entry. -/
def blockItems (block : Json) : List Item :=
  match block.str "type" with
  | some "tool_result" => match block.str "tool_use_id" with
      | some toolUseId => (resultTexts block).filterMap fun text =>
          (agentIdFromResult text).map (.taskId toolUseId)
      | none => []
  | some "text" => ((block.str "text").bind parseTaskNotification).toList.map
      .notification
  | _ => []

/-- The items of an entry, in the order they stand in it. -/
def itemsOf (value : Json) : List Item :=
  match value.str "type" with
  | some "assistant" => ((blocksOf value).filterMap spawnOf).map fun p =>
      .spawn p.1 p.2
  | some "user" => match (value.get "message").bind (Json.get "content") with
      | some (.string text) =>
          (parseTaskNotification text).toList.map .notification
      | some (.array blocks) => blocks.flatMap blockItems
      | _ => []
  | _ => []

/-- A delta reports items: its lists are theirs, kind by kind. -/
def Reports (delta : Delta) (items : List Item) : Prop :=
  delta.spawns = items.filterMap Item.asSpawn
    ∧ delta.taskIds = items.filterMap Item.asTaskId
    ∧ delta.notifications = items.filterMap Item.asNotification

namespace Reports

variable {delta : Delta} {items : List Item}

private theorem scanAssistant (h : Reports delta items) (value : Json) :
    Reports (scanAssistant value delta)
      (items ++ ((blocksOf value).filterMap spawnOf).map fun p =>
        .spawn p.1 p.2) := by
  obtain ⟨hspawns, htasks, hnotes⟩ := h
  refine ⟨?_, ?_, ?_⟩
  · show delta.spawns ++ _ = _
    rw [List.filterMap_append, hspawns, List.filterMap_map]
    exact congrArg _ (List.filterMap_some).symm
  · rw [List.filterMap_append, List.filterMap_map]
    exact htasks.trans (by simp [Function.comp_def, Item.asTaskId])
  · rw [List.filterMap_append, List.filterMap_map]
    exact hnotes.trans (by simp [Function.comp_def, Item.asNotification])

private theorem notification (h : Reports delta items)
    (n : Option TaskNotification) :
    Reports { delta with notifications := delta.notifications ++ n.toList }
      (items ++ n.toList.map .notification) := by
  obtain ⟨hspawns, htasks, hnotes⟩ := h
  cases n with
  | none => simpa using ⟨hspawns, htasks, hnotes⟩
  | some n =>
      refine ⟨?_, ?_, ?_⟩
      · exact hspawns.trans (by simp [List.filterMap_cons, Item.asSpawn])
      · exact htasks.trans (by simp [List.filterMap_cons, Item.asTaskId])
      · rw [List.filterMap_append, hnotes]
        rfl

private theorem taskIds (h : Reports delta items) (toolUseId : String)
    (texts : List String) :
    Reports
      { delta with
        taskIds := delta.taskIds ++ texts.filterMap fun text =>
          (agentIdFromResult text).map (toolUseId, ·) }
      (items ++ texts.filterMap fun text =>
        (agentIdFromResult text).map (.taskId toolUseId)) := by
  obtain ⟨hspawns, htasks, hnotes⟩ := h
  refine ⟨?_, ?_, ?_⟩
  · rw [List.filterMap_append, List.filterMap_filterMap]
    exact hspawns.trans (by simp [Item.asSpawn, Option.bind_map, Function.comp_def])
  · rw [List.filterMap_append, List.filterMap_filterMap, htasks]
    refine congrArg _ (List.filterMap_congr fun text _ => ?_)
    cases agentIdFromResult text <;> rfl
  · rw [List.filterMap_append, List.filterMap_filterMap]
    exact hnotes.trans (by simp [Item.asNotification, Option.bind_map, Function.comp_def])

private theorem scanUserBlock (h : Reports delta items) (block : Json) :
    Reports (scanUserBlock delta block) (items ++ blockItems block) := by
  unfold Autofork.scanUserBlock blockItems
  by_cases hresult : block.str "type" = some "tool_result"
  · simp only [hresult]
    cases block.str "tool_use_id" with
    | some toolUseId => exact h.taskIds _ _
    | none => rwa [List.append_nil]
  by_cases htext : block.str "type" = some "text"
  · simp only [htext]
    exact h.notification _
  -- no other block is read, by either definition
  repeat' split
  all_goals first | contradiction | rwa [List.append_nil]

private theorem scanUserBlocks (h : Reports delta items)
    (blocks : List Json) :
    Reports (blocks.foldl Autofork.scanUserBlock delta)
      (items ++ blocks.flatMap blockItems) := by
  induction blocks generalizing delta items with
  | nil => rwa [List.flatMap_nil, List.append_nil]
  | cons block blocks ih =>
      rw [List.foldl_cons, List.flatMap_cons, ← List.append_assoc]
      exact ih (h.scanUserBlock block)

/-- Scanning an entry reports its items. -/
theorem scanEntry (h : Reports delta items) (value : Json) :
    Reports (scanEntry value delta) (items ++ itemsOf value) := by
  unfold Autofork.scanEntry itemsOf
  by_cases hassistant : value.str "type" = some "assistant"
  · simp only [hassistant]
    exact h.scanAssistant value
  by_cases huser : value.str "type" = some "user"
  · simp only [huser, scanUser]
    cases (value.get "message").bind (Json.get "content") with
    | none => rwa [List.append_nil]
    | some content =>
        cases content with
        | string text => exact h.notification _
        | array blocks => exact h.scanUserBlocks blocks
        | null | bool | number | object => rwa [List.append_nil]
  repeat' split
  all_goals first | contradiction | rwa [List.append_nil]

end Reports

end Autofork
