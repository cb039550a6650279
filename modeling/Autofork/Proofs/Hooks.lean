/-
From a wake on record to the hook that exits with it.

A client takes the next line it reads for the answer to the line it has
written last. That is right as long as it has read an answer for every
line before (`Client.InStep`), and a hook gives a connection up, after
one last Shutdown, as soon as a call on it has failed. So whatever a
hook takes for an answer is due to its request (`exchanges_match`),
though it looks at no number.

With what the daemon is known to write, a Stop hook that exits with 2
prints a wake that is on record for its session, once, and no other hook
has had an answer of that poll (`woken_once`); and a Stop hook that has
read the answer of a poll whose wake is on record exits with it
(`wake_heeded`).
-/
import Autofork.Client
import Autofork.Proofs.Delivery
import Autofork.Proofs.Quiet
import Autofork.Proofs.Wire

namespace Autofork

open Lib

-- ====================================================== one connection

section worked

variable {reader : LineReader} {s : Service} {draw : Chance}
  {conn conn' : Conn} {a : Option Act}

/-- Answers are added one by one. -/
theorem Worked.sent (h : Worked reader s draw conn conn' a) :
    conn.sent <+: conn'.sent := by
  cases h with
  | write h ok =>
      unfold Conn.write
      split
      · exact List.prefix_append ..
      · exact List.prefix_refl _
  | _ => exact List.prefix_refl _

/-- Nothing arrives by what the daemon does. -/
theorem Worked.arrived (h : Worked reader s draw conn conn' a) :
    conn'.arrived = conn.arrived := by
  cases h with
  | write h ok =>
      unfold Conn.write
      split <;> rfl
  | _ => rfl

end worked

/-- What a connection has carried, it has carried. -/
structure Conn.Grows (conn conn' : Conn) : Prop where
  heard : conn.heard <+: conn'.heard
  sent : conn.sent <+: conn'.sent

theorem Conn.Grows.refl (conn : Conn) : conn.Grows conn :=
  ⟨List.prefix_refl _, List.prefix_refl _⟩

theorem Conn.Grows.trans {conn conn' conn'' : Conn} (h : conn.Grows conn')
    (h' : conn'.Grows conn'') : conn.Grows conn'' :=
  ⟨h.heard.trans h'.heard, h.sent.trans h'.sent⟩

/-- What a move can make of connection `c`. -/
inductive Conn.Moved (c : Nat) (m : Move) (conn : Conn) : Conn → Prop
  | goes {conn' : Conn} (h : conn.Grows conn')
      (harrived : conn'.arrived = conn.arrived)
      (hturn : conn.InTurn → conn'.InTurn) : Moved c m conn conn'
  | arrives {line : String} (hm : m = .arrive c line)
      (hend : conn.ended = false) : Moved c m conn { conn with
        arrived := conn.arrived ++ [line]
        inbox := conn.inbox ++ [line] }

theorem Conn.Moved.grows {c : Nat} {m : Move} {conn conn' : Conn}
    (h : conn.Moved c m conn') : conn.Grows conn' := by
  cases h with
  | goes h => exact h
  | arrives => exact ⟨List.prefix_refl _, List.prefix_refl _⟩

namespace Service

theorem step_conn (reader : LineReader) {s : Service} {c : Nat} {conn : Conn}
    (hc : s.conns[c]? = some conn) (m : Move) :
    ∃ conn' : Conn, (s.step reader m).conns[c]? = some conn'
      ∧ conn.Moved c m conn' := by
  have hlt := (List.getElem?_eq_some_iff.1 hc).1
  have hsame : ∃ conn' : Conn, s.conns[c]? = some conn'
      ∧ conn.Moved c m conn' :=
    ⟨conn, hc, .goes (.refl conn) rfl id⟩
  rcases s.step_cases reader m with
    ⟨c₀, conn₀, draw, next, a, -, hc₀, hw, hg⟩ | ⟨hout, -⟩
  · rw [hg.conns]
    by_cases hcc : c₀ = c
    · subst hcc
      rw [hc, Option.some.injEq] at hc₀
      subst hc₀
      exact ⟨next, List.getElem?_set_self hlt,
        .goes ⟨hw.heard, hw.sent⟩ hw.arrived hw.inTurn⟩
    · rw [List.getElem?_set_ne hcc]
      exact hsame
  · generalize (s.step reader m).conns = conns at hout
    cases hout with
    | none => exact hsame
    | accept =>
        rw [List.getElem?_append_left hlt]
        exact hsame
    | @arrive c₀ line conn₀ hm hc₀ hend =>
        by_cases hcc : c₀ = c
        · subst hcc
          rw [hc, Option.some.injEq] at hc₀
          subst hc₀
          exact ⟨_, List.getElem?_set_self hlt, .arrives hm hend⟩
        · rw [List.getElem?_set_ne hcc]
          exact hsame
    | @hangUp c₀ conn₀ hc₀ =>
        by_cases hcc : c₀ = c
        · subst hcc
          rw [hc, Option.some.injEq] at hc₀
          subst hc₀
          refine ⟨_, List.getElem?_set_self hlt, .goes ?_ rfl ?_⟩
          · exact ⟨List.prefix_refl _, List.prefix_refl _⟩
          · exact fun h => ⟨h.strays, h.arrived, h.inbox, h.busy, h.numbers⟩
        · rw [List.getElem?_set_ne hcc]
          exact hsame

/-- Over any moves, as long as nothing arrives on it. -/
theorem run_conn (reader : LineReader) {s : Service} {c : Nat} {conn : Conn}
    (hc : s.conns[c]? = some conn) (ms : List Move) :
    ∃ conn' : Conn, (run (step reader) s ms).conns[c]? = some conn'
      ∧ conn.Grows conn'
      ∧ ((∀ line, .arrive c line ∉ ms) → conn'.arrived = conn.arrived
        ∧ (conn.InTurn → conn'.InTurn)) := by
  induction ms generalizing s conn with
  | nil => exact ⟨conn, hc, .refl conn, fun _ => ⟨rfl, id⟩⟩
  | cons m ms ih =>
      obtain ⟨mid, hmid, hmoved⟩ := step_conn reader hc m
      obtain ⟨conn', hc', hgrows, hquiet⟩ := ih hmid
      refine ⟨conn', hc', hmoved.grows.trans hgrows, fun hno => ?_⟩
      obtain ⟨harrived, hturn⟩ := hquiet fun line hin =>
        hno line (List.mem_cons_of_mem _ hin)
      cases hmoved with
      | goes _ hsame hkeep => exact ⟨harrived.trans hsame, fun h => hturn (hkeep h)⟩
      | @arrives line hm => exact absurd (hm ▸ List.mem_cons_self) (hno line)

end Service

-- ===================================================== a client in step

/-- The client has read an answer to every line it has written, but the
last one perhaps. -/
def Client.InStep (wire : Wire) (client : Client) (s : Service) : Prop :=
  ∃ conn : Conn, s.conns[client.conn]? = some conn ∧ conn.InTurn
    ∧ conn.arrived <+: client.asked.map wire.line
    ∧ client.read ≤ conn.sent.length

namespace Client

variable {wire : Wire} {client : Client} {said : Nat → Sayings} {s : Service}

/-- Others do not put it out of step. -/
theorem InStep.run (h : client.InStep wire s) {ms : List Move}
    (hms : ∀ line, .arrive client.conn line ∉ ms) :
    client.InStep wire (run (Service.step wire.toLineReader) s ms) := by
  obtain ⟨conn, hc, hturn, harrived, hread⟩ := h
  obtain ⟨conn', hc', hgrows, hquiet⟩ :=
    Service.run_conn wire.toLineReader hc ms
  obtain ⟨hsame, hkeep⟩ := hquiet hms
  refine ⟨conn', hc', hkeep hturn, ?_, ?_⟩
  · rw [hsame]
    exact harrived
  · exact hread.trans hgrows.sent.length_le

/-- Of what has been written no more has been answered than has
arrived. -/
theorem InStep.sent_le {conn : Conn}
    (hserviced : s.Serviced wire.toLineReader said)
    (hc : s.conns[client.conn]? = some conn) (hturn : conn.InTurn) :
    conn.sent.length ≤ conn.heard.length
      ∧ conn.heard.length ≤ conn.arrived.length := by
  have hsound := hserviced.sound client.conn conn hc
  have hlen := hsound.accounted.length_eq
  simp only [List.length_append, List.length_map, List.length_range] at hlen
  have harr := congrArg List.length hturn.arrived
  rw [List.length_append] at harr
  omega

/-- A line is written in turn. -/
theorem InStep.write (hform : TextForm wire.render wire.parse)
    (hserviced : s.Serviced wire.toLineReader said) (h : client.InStep wire s)
    (hidle : client.read = client.asked.length) (req : Protocol.Request) :
    (client.wrote req).InStep wire
      (s.step wire.toLineReader (.arrive client.conn (wire.line req))) := by
  obtain ⟨conn, hc, hturn, harrived, hread⟩ := h
  obtain ⟨hsent, hheard⟩ := InStep.sent_le hserviced hc hturn
  have hlen := harrived.length_le
  rw [List.length_map] at hlen
  obtain ⟨conn', hc', hmoved⟩ := Service.step_conn wire.toLineReader hc
    (.arrive client.conn (wire.line req))
  refine ⟨conn', hc', ?_⟩
  show conn'.InTurn ∧ conn'.arrived <+: (client.asked ++ [req]).map wire.line
    ∧ client.read ≤ conn'.sent.length
  rw [List.map_append]
  cases hmoved with
  | goes hgrows hsame hkeep =>
      refine ⟨hkeep hturn, ?_, hread.trans hgrows.sent.length_le⟩
      rw [hsame]
      exact harrived.trans (List.prefix_append ..)
  | arrives hm hend =>
      cases hm
      have hall : conn.arrived = client.asked.map wire.line := by
        apply harrived.eq_of_length
        rw [List.length_map]
        omega
      refine ⟨hturn.receive ?_ (by omega), ?_, hread⟩
      · intro hblank
        have hnone := hform.parse_blank _ hblank
        rw [Wire.line, hform.parse_render] at hnone
        cases hnone
      · show conn.arrived ++ [wire.line req] <+: _
        rw [hall]
        exact List.prefix_refl _

/-- What it reads is the answer to the line it has written last, and all
there is to read. -/
theorem InStep.read (hserviced : s.Serviced wire.toLineReader said)
    (h : client.InStep wire s) {req : Protocol.Request}
    (hasked : client.asked[client.read]? = some req)
    (hlast : client.asked.length = client.read + 1)
    {resp : Protocol.Response} (hresp : client.waiting s = some resp)
    (more : Nat) :
    (∃ conn : Conn, s.conns[client.conn]? = some conn
        ∧ conn.heard[client.read]? = some (wire.line req)
        ∧ (client.read, resp) ∈ conn.sent)
      ∧ (client.drain s more).InStep wire s
      ∧ (client.drain s more).read = (client.drain s more).asked.length := by
  obtain ⟨conn, hc, hturn, harrived, hread⟩ := h
  obtain ⟨hsent, hheard⟩ := InStep.sent_le hserviced hc hturn
  have hlen := harrived.length_le
  rw [List.length_map] at hlen
  unfold waiting at hresp
  rw [hc, Option.bind_some, Option.map_eq_some_iff] at hresp
  obtain ⟨⟨n, resp'⟩, hget, rfl⟩ := hresp
  have hlt := (List.getElem?_eq_some_iff.1 hget).1
  have hn : n = client.read := by
    have hnumber : (conn.sent.map Prod.fst)[client.read]? = some n := by
      rw [List.getElem?_map, hget]
      rfl
    rw [hturn.numbers, List.getElem?_range hlt, Option.some.injEq] at hnumber
    exact hnumber.symm
  subst hn
  have hdrained : (client.drain s more).read = client.read + 1 := by
    unfold drain
    rw [hc]
    show min (client.read + 1 + more) conn.sent.length = client.read + 1
    omega
  refine ⟨⟨conn, hc, ?_, List.mem_of_getElem? hget⟩, ?_, ?_⟩
  · have hin : conn.arrived[client.read]? = some (wire.line req) := by
      obtain ⟨rest, hrest⟩ := harrived
      have hsame : (conn.arrived ++ rest)[client.read]?
          = conn.arrived[client.read]? := List.getElem?_append_left (by omega)
      rw [← hsame, hrest, List.getElem?_map, hasked]
      rfl
    rw [hturn.arrived, List.getElem?_append_left (by omega)] at hin
    exact hin
  · refine ⟨conn, hc, hturn, harrived, ?_⟩
    rw [hdrained]
    omega
  · rw [hdrained]
    exact hlast.symm

end Client

-- ============================================================ the hooks

/-- The daemon's end of an exchange of hook `i`. -/
structure Exchange.Sound (wire : Wire) (s : Service)
    (opened : List (Nat × Nat)) (i : Nat) (x : Exchange) : Prop where
  opened : (x.conn, i) ∈ opened
  proto : x.req.proto = .ofNat protoVersion
  carried : ∃ conn : Conn, s.conns[x.conn]? = some conn
    ∧ conn.heard[x.n]? = some (wire.line x.req) ∧ (x.n, x.resp) ∈ conn.sent

/-- The hook has had its poll answered with this wake. -/
def Hook.Woken (hook : Hook) (payload : String) : Prop :=
  hook.kind = .stopWait ∧ ∃ x ∈ hook.exchanges, ∃ input env,
    hook.given = some (input, env)
      ∧ x.req.body = .stopWait (hookEvent input env .stop)
      ∧ x.resp.body = .wake payload

/-- How hook `i` stands with the daemon. -/
def Hook.At (wire : Wire) (s : Service) (opened : List (Nat × Nat)) (i : Nat)
    (hook : Hook) : HookStage → Prop
  | .writing call client => (client.conn, i) ∈ opened
      ∧ (call ≠ .shutdown → client.InStep wire s
        ∧ client.read = client.asked.length)
  | .reading call client req => (client.conn, i) ∈ opened
      ∧ hook.says call = some req.body ∧ req.proto = .ofNat protoVersion
      ∧ (call ≠ .shutdown → client.InStep wire s
        ∧ client.asked[client.read]? = some req
        ∧ client.asked.length = client.read + 1)
  | .exited code stderr => code = 0
      ∨ ∃ payload, code = 2 ∧ stderr = some payload ∧ hook.Woken payload
  | _ => True

structure Hook.Sound (wire : Wire) (s : Service) (opened : List (Nat × Nat))
    (i : Nat) (hook : Hook) : Prop where
  exchanged : ∀ x ∈ hook.exchanges, x.Sound wire s opened i
  /-- A poll that has been answered was the last thing the hook did. -/
  settled : ∀ x ∈ hook.exchanges, ∀ ev, x.req.body = .stopWait ev →
    hook.kind = .stopWait ∧ hook.stage = hook.kind.verdict (some x.resp.body)
  stands : hook.At wire s opened i hook.stage

section hook

variable {wire : Wire} {s : Service} {opened opened' : List (Nat × Nat)}
  {i : Nat} {hook : Hook}

theorem Exchange.Sound.run {x : Exchange} (h : x.Sound wire s opened i)
    (ms : List Move) (hopened : opened ⊆ opened') :
    x.Sound wire (run (Service.step wire.toLineReader) s ms) opened' i := by
  obtain ⟨conn, hc, hheard, hsent⟩ := h.carried
  obtain ⟨conn', hc', hgrows, -⟩ :=
    Service.run_conn wire.toLineReader hc ms
  refine ⟨hopened h.opened, h.proto, conn', hc', ?_, hgrows.sent.subset hsent⟩
  obtain ⟨rest, hrest⟩ := hgrows.heard
  rw [← hrest, List.getElem?_append_left (List.getElem?_eq_some_iff.1 hheard).1]
  exact hheard

theorem Hook.Sound.owns (h : hook.Sound wire s opened i) {client : Client}
    (hclient : hook.stage.client = some client) :
    (client.conn, i) ∈ opened := by
  have hat := h.stands
  revert hat hclient
  cases hook.stage with
  | writing | reading =>
      intro hclient hat
      cases hclient
      exact hat.1
  | _ => exact fun hclient => by cases hclient

/-- A hook stands as it did whatever others do. -/
theorem Hook.Sound.run (h : hook.Sound wire s opened i) {ms : List Move}
    (hopened : opened ⊆ opened')
    (hms : ∀ client, hook.stage.client = some client →
      ∀ line, .arrive client.conn line ∉ ms) :
    hook.Sound wire (run (Service.step wire.toLineReader) s ms) opened' i := by
  refine ⟨fun x hx => (h.exchanged x hx).run ms hopened, h.settled, ?_⟩
  have hat := h.stands
  revert hat hms
  cases hook.stage with
  | writing call client =>
      intro hms hat
      refine ⟨hopened hat.1, fun hcall => ?_⟩
      obtain ⟨hstep, hidle⟩ := hat.2 hcall
      exact ⟨hstep.run (hms client rfl), hidle⟩
  | reading call client req =>
      intro hms hat
      obtain ⟨howns, hsaid, hproto, hstep⟩ := hat
      refine ⟨hopened howns, hsaid, hproto, fun hcall => ?_⟩
      obtain ⟨hstep, hasked, hlast⟩ := hstep hcall
      exact ⟨hstep.run (hms client rfl), hasked, hlast⟩
  | exited => exact fun _ hat => hat
  | _ => exact fun _ _ => trivial

theorem Hook.mem_heard {call : HookCall} {client : Client} {req : Protocol.Request}
    {resp : Protocol.Response} {x : Exchange}
    (hx : x ∈ (hook.heard call client req resp).exchanges) :
    x ∈ hook.exchanges
      ∨ (call ≠ .shutdown ∧ x = ⟨client.conn, client.read, req, resp⟩) := by
  unfold Hook.heard at hx
  split at hx
  next => exact .inl hx
  next hcall =>
    rcases List.mem_append.1 hx with hold | hnew
    · exact .inl hold
    · exact .inr ⟨hcall, List.mem_singleton.1 hnew⟩

/-- Only a Stop hook asks for a poll. -/
theorem Hook.kind_of_says (hook : Hook) {ev : Event}
    (h : hook.says .own = some (.stopWait ev)) : hook.kind = .stopWait := by
  obtain ⟨g, -, hbody⟩ := Option.map_eq_some_iff.1 h
  unfold HookKind.body at hbody
  cases hkind : hook.kind with
  | stopWait => rfl
  | _ => rw [hkind] at hbody; cases hbody

theorem Hook.heard_mem {client : Client} {req : Protocol.Request}
    {resp : Protocol.Response} :
    ⟨client.conn, client.read, req, resp⟩
      ∈ (hook.heard .own client req resp).exchanges :=
  List.mem_append_right _ List.mem_cons_self

@[simp] theorem Hook.kind_heard {call : HookCall} {client : Client}
    {req : Protocol.Request} {resp : Protocol.Response} :
    (hook.heard call client req resp).kind = hook.kind := by
  unfold Hook.heard
  split <;> rfl

@[simp] theorem Hook.given_heard {call : HookCall} {client : Client}
    {req : Protocol.Request} {resp : Protocol.Response} :
    (hook.heard call client req resp).given = hook.given := by
  unfold Hook.heard
  split <;> rfl

/-- While it is at something, no poll of it has been answered. -/
theorem Hook.Sound.unsettled (h : hook.Sound wire s opened i)
    (hlive : hook.stage.live = true) {x : Exchange} (hx : x ∈ hook.exchanges)
    {ev : Event} (hpoll : x.req.body = .stopWait ev) : False := by
  rw [(h.settled x hx ev hpoll).2] at hlive
  unfold HookKind.verdict at hlive
  split at hlive <;> cases hlive

end hook

-- ============================================================= the site

/-- What holds of a site. -/
structure Site.Sound (wire : Wire) (boot : Boot) (w : Site) : Prop where
  ran : ∃ ms, w.daemon = Service.after wire.toLineReader boot ms
  apart : (w.opened.map Prod.fst).Nodup
  bound : ∀ p ∈ w.opened, p.1 < w.daemon.conns.length
  hooks : ∀ i (hook : Hook), w.hooks[i]? = some hook →
    hook.Sound wire w.daemon w.opened i

namespace Site

variable {wire : Wire} {boot : Boot} {w : Site} {i : Nat} {hook hook' : Hook}

theorem Sound.serviced (h : w.Sound wire boot) :
    ∃ ms, w.daemon = Service.after wire.toLineReader boot ms
      ∧ w.daemon.Serviced wire.toLineReader
        (Service.Said wire.toLineReader boot ms) := by
  obtain ⟨ms, hran⟩ := h.ran
  refine ⟨ms, hran, ?_⟩
  rw [hran]
  exact Service.serviced_after wire.toLineReader boot ms

/-- A connection belongs to one hook. -/
theorem Sound.owner (h : w.Sound wire boot) {c i j : Nat}
    (hi : (c, i) ∈ w.opened) (hj : (c, j) ∈ w.opened) : i = j :=
  congrArg Prod.snd (List.inj_on_of_nodup_map h.apart hi hj rfl)

/-- Connections are only ever added. -/
theorem conns_run (reader : LineReader) (s : Service) (ms : List Move) :
    s.conns.length ≤ (run (Service.step reader) s ms).conns.length := by
  by_cases hempty : s.conns.length = 0
  · omega
  · obtain ⟨conn, hc⟩ : ∃ conn, s.conns[s.conns.length - 1]? = some conn :=
      ⟨_, List.getElem?_eq_getElem (by omega)⟩
    obtain ⟨conn', hc', -⟩ := Service.run_conn reader hc ms
    have hlt := (List.getElem?_eq_some_iff.1 hc').1
    omega

/-- Hook `i` makes the daemon move, and goes on. -/
theorem Sound.act (h : w.Sound wire boot) (hi : w.hooks[i]? = some hook)
    (ms : List Move) (hms : ∀ c line, .arrive c line ∈ ms → (c, i) ∈ w.opened)
    (hsound : hook'.Sound wire (w.moves wire ms).daemon w.opened i) :
    ((w.moves wire ms).put i hook').Sound wire boot where
  ran := by
    obtain ⟨as, hran⟩ := h.ran
    refine ⟨as ++ ms, ?_⟩
    show run _ w.daemon ms = _
    rw [hran]
    exact (run_append _ as ms).symm
  apart := h.apart
  bound p hp := (h.bound p hp).trans_le (conns_run _ _ _)
  hooks j other hj := by
    have hlt := (List.getElem?_eq_some_iff.1 hi).1
    have hget : (w.hooks.set i hook')[j]? = some other := hj
    by_cases hij : i = j
    · subst hij
      rw [List.getElem?_set_self hlt, Option.some.injEq] at hget
      subst hget
      exact hsound
    · rw [List.getElem?_set_ne hij] at hget
      have hother := h.hooks j other hget
      refine hother.run (List.Subset.refl _) fun client hclient line hin => ?_
      exact hij (h.owner (hms _ _ hin) (hother.owns hclient))

/-- A call of hook `i` returns. -/
theorem Sound.returned (h : w.Sound wire boot) (hi : w.hooks[i]? = some hook)
    (ms : List Move) (hms : ∀ c line, .arrive c line ∈ ms → (c, i) ∈ w.opened)
    {client : Client} {call : HookCall} {result : Option Protocol.ResponseBody}
    (howns : (client.conn, i) ∈ w.opened)
    (hexchanged : ∀ x ∈ hook'.exchanges,
      x.Sound wire (w.moves wire ms).daemon w.opened i)
    (hstep : call = .hello → result ≠ none →
      client.InStep wire (w.moves wire ms).daemon
        ∧ client.read = client.asked.length)
    (hsettled : ∀ x ∈ hook'.exchanges, ∀ ev, x.req.body = .stopWait ev →
      call = .own ∧ hook'.kind = .stopWait ∧ result = some x.resp.body)
    (hwoken : ∀ payload, hook'.kind = .stopWait → call = .own →
      result = some (.wake payload) → hook'.Woken payload) :
    ((w.moves wire ms).returned wire i hook' client call result).Sound wire
      boot := by
  have hdrop : ∀ (next : Hook) (stage : HookStage),
      next.exchanges = hook'.exchanges →
      (∀ x ∈ hook'.exchanges, ∀ ev, x.req.body = .stopWait ev →
        next.kind = .stopWait ∧ stage = next.kind.verdict (some x.resp.body)) →
      (∀ s : Service, { next with stage }.At wire s w.opened i stage) →
      ((w.moves wire ms).drop wire i next client stage).Sound wire boot := by
    intro next stage hsame hlast hat
    have hmoves : (w.moves wire ms).moves wire [.hangUp client.conn]
        = w.moves wire (ms ++ [.hangUp client.conn]) := by
      unfold moves
      rw [run_append]
    unfold drop
    rw [hmoves]
    refine h.act hi _ ?_ ⟨fun x hx => ?_, fun x hx => ?_, hat _⟩
    · intro c line hin
      rcases List.mem_append.1 hin with hin | hin
      · exact hms c line hin
      · simp at hin
    · have hx' := (hexchanged x (hsame ▸ hx)).run [.hangUp client.conn]
        (List.Subset.refl _)
      rw [← hmoves]
      exact hx'
    · exact hlast x (hsame ▸ hx)
  cases call with
  | hello =>
      refine h.act hi ms hms ⟨hexchanged, fun x hx ev hpoll => ?_, howns, ?_⟩
      · cases (hsettled x hx ev hpoll).1
      · intro hcall
        refine hstep rfl fun hnone => hcall ?_
        rw [hnone]
        rfl
  | shutdown =>
      refine hdrop _ .connecting rfl (fun x hx ev hpoll => ?_) fun _ => trivial
      cases (hsettled x hx ev hpoll).1
  | own =>
      refine hdrop _ _ rfl (fun x hx ev hpoll => ?_) fun _ => ?_
      · obtain ⟨-, hkind, hresult⟩ := hsettled x hx ev hpoll
        exact ⟨hkind, by rw [hresult]⟩
      · unfold HookKind.verdict
        split
        next payload hkind =>
          exact .inr ⟨payload, rfl, rfl, hwoken payload hkind rfl rfl⟩
        next => exact .inl rfl

theorem Sound.idle (h : w.Sound wire boot) (hi : w.hooks[i]? = some hook)
    (hlive : hook.stage.live = true) {stage : HookStage}
    (hat : { hook with stage }.At wire w.daemon w.opened i stage) :
    (w.put i { hook with stage }).Sound wire boot := by
  have hsound := h.hooks i hook hi
  exact h.act hi [] (fun _ _ hin => by cases hin)
    ⟨hsound.exchanged, fun x hx ev hpoll => (hsound.unsettled hlive hx hpoll).elim,
      hat⟩

/-- Hook `i` takes up a connection. -/
theorem Sound.connect (h : w.Sound wire boot) (hi : w.hooks[i]? = some hook)
    (hlive : hook.stage.live = true) (hup : w.daemon.down = false) :
    (w.connect wire i hook).Sound wire boot := by
  have hsound := h.hooks i hook hi
  have hopened : w.opened ⊆ w.opened ++ [(w.daemon.conns.length, i)] :=
    List.subset_append_left ..
  have hconns : (w.moves wire [.accept]).daemon.conns
      = w.daemon.conns ++ [({} : Conn)] := by
    show (w.daemon.step wire.toLineReader .accept).conns = _
    unfold Service.step
    rw [hup]
    rfl
  obtain ⟨ms, hran⟩ := h.ran
  refine ⟨⟨ms ++ [Move.accept], ?_⟩, ?_, ?_, ?_⟩
  · show run (Service.step wire.toLineReader) w.daemon [.accept] = _
    rw [hran]
    exact (run_append _ ms [Move.accept]).symm
  · show ((w.opened ++ [_]).map Prod.fst).Nodup
    rw [List.map_append, List.nodup_append]
    refine ⟨h.apart, List.nodup_singleton _, ?_⟩
    intro c hc d hd
    obtain ⟨p, hp, rfl⟩ := List.mem_map.1 hc
    rw [List.map_singleton, List.mem_singleton] at hd
    have hlt := h.bound p hp
    show p.1 ≠ d
    rw [hd]
    exact Nat.ne_of_lt hlt
  · intro p hp
    show p.1 < (w.moves wire [.accept]).daemon.conns.length
    rw [hconns, List.length_append, List.length_singleton]
    rcases List.mem_append.1 hp with hp | hp
    · have := h.bound p hp
      omega
    · rw [List.mem_singleton.1 hp]
      exact Nat.lt_succ_self _
  · intro j other hj
    have hlt := (List.getElem?_eq_some_iff.1 hi).1
    change (w.hooks.set i _)[j]? = some other at hj
    by_cases hij : i = j
    · subst hij
      rw [List.getElem?_set_self hlt, Option.some.injEq] at hj
      subst hj
      refine ⟨fun x hx => (hsound.exchanged x hx).run [.accept] hopened,
        fun x hx ev hpoll => (hsound.unsettled hlive hx hpoll).elim, ?_, ?_⟩
      · exact List.mem_append_right _ List.mem_cons_self
      · intro _
        refine ⟨⟨{}, ?_, ⟨rfl, rfl, .inl rfl, (fun hb => by cases hb), rfl⟩,
          List.prefix_refl _, Nat.le_refl _⟩, rfl⟩
        show (w.moves wire [.accept]).daemon.conns[w.daemon.conns.length]? = _
        rw [hconns, List.getElem?_append_right (Nat.le_refl _), Nat.sub_self]
        rfl
    · rw [List.getElem?_set_ne hij] at hj
      exact (h.hooks j other hj).run hopened fun client _ line hin => by simp at hin

theorem read_eq (hform : TextForm wire.render wire.parse)
    (resp : Protocol.Response) : wire.read resp = some resp :=
  Protocol.decode_render hform Protocol.response resp

/-- A call of hook `i` fails, with whatever of its line has arrived. -/
theorem Sound.fails (h : w.Sound wire boot) (hi : w.hooks[i]? = some hook)
    (hlive : hook.stage.live = true) (client : Client)
    (howns : (client.conn, i) ∈ w.opened) (call : HookCall)
    (stray : List String) :
    ((w.moves wire (stray.map (.arrive client.conn))).returned wire i hook client
      call none).Sound wire boot := by
  have hsound := h.hooks i hook hi
  refine h.returned hi _ ?_ howns ?_ ?_ ?_ ?_
  · intro c line hin
    obtain ⟨text, -, heq⟩ := List.mem_map.1 hin
    cases heq
    exact howns
  · exact fun x hx => (hsound.exchanged x hx).run _ (List.Subset.refl _)
  · exact fun _ hne => absurd rfl hne
  · exact fun x hx ev hpoll => (hsound.unsettled hlive hx hpoll).elim
  · exact fun payload _ _ hnone => by cases hnone

/-- Hook `i` writes the line of a call. -/
theorem Sound.writes (hform : TextForm wire.render wire.parse)
    (h : w.Sound wire boot) (hi : w.hooks[i]? = some hook) {call : HookCall}
    {client : Client} (hstage : hook.stage = .writing call client)
    {req : Protocol.Request} (hsaid : hook.says call = some req.body)
    (hproto : req.proto = .ofNat protoVersion) :
    ((w.moves wire [.arrive client.conn (wire.line req)]).put i { hook with
      stage := .reading call (client.wrote req) req }).Sound wire boot := by
  have hsound := h.hooks i hook hi
  have hlive : hook.stage.live = true := by rw [hstage]; rfl
  have hat := hsound.stands
  rw [hstage] at hat
  obtain ⟨howns, hidle⟩ := hat
  refine h.act hi _ ?_ ⟨fun x hx => (hsound.exchanged x hx).run _
    (List.Subset.refl _), fun x hx ev hpoll =>
      (hsound.unsettled hlive hx hpoll).elim, howns, hsaid, hproto, ?_⟩
  · intro c line hin
    rw [List.mem_singleton] at hin
    cases hin
    exact howns
  · intro hcall
    obtain ⟨hstep, hread⟩ := hidle hcall
    obtain ⟨_, -, hserviced⟩ := h.serviced
    refine ⟨hstep.write hform hserviced hread _, ?_, ?_⟩
    · show (client.asked ++ [_])[client.read]? = _
      rw [hread, List.getElem?_append_right (Nat.le_refl _), Nat.sub_self]
      rfl
    · show (client.asked ++ [_]).length = client.read + 1
      rw [List.length_append, List.length_singleton, hread]

/-- Hook `i` reads the answer to the line it has written last. -/
theorem Sound.reads (h : w.Sound wire boot) (hi : w.hooks[i]? = some hook)
    {call : HookCall} {client : Client} {req : Protocol.Request}
    (hstage : hook.stage = .reading call client req) {resp : Protocol.Response}
    (hresp : client.waiting w.daemon = some resp) (more : Nat) :
    (w.returned wire i (hook.heard call client req resp)
      (client.drain w.daemon more) call (some resp.body)).Sound wire boot := by
  have hsound := h.hooks i hook hi
  have hlive : hook.stage.live = true := by rw [hstage]; rfl
  have hat := hsound.stands
  rw [hstage] at hat
  obtain ⟨howns, hsaid, hproto, hstep⟩ := hat
  obtain ⟨_, -, hserviced⟩ := h.serviced
  have hread : call ≠ .shutdown → _ := fun hcall =>
    (hstep hcall).1.read hserviced (hstep hcall).2.1 (hstep hcall).2.2 hresp more
  refine h.returned hi [] (fun _ _ hin => by cases hin) howns ?_ ?_ ?_ ?_
  · intro x hx
    rcases Hook.mem_heard hx with hold | ⟨hcall, rfl⟩
    · exact hsound.exchanged x hold
    · exact ⟨howns, hproto, (hread hcall).1⟩
  · intro hcall _
    exact (hread (by rw [hcall]; exact fun hno => by cases hno)).2
  · intro x hx ev hpoll
    rcases Hook.mem_heard hx with hold | ⟨hcall, rfl⟩
    · exact (hsound.unsettled hlive hold hpoll).elim
    · change req.body = _ at hpoll
      rw [hpoll] at hsaid
      cases call with
      | own =>
          refine ⟨rfl, ?_, rfl⟩
          rw [Hook.kind_heard]
          exact hook.kind_of_says hsaid
      | shutdown => exact absurd rfl hcall
      | hello => cases hsaid
  · intro payload hkind hcall hwake
    subst hcall
    rw [Hook.kind_heard] at hkind
    obtain ⟨⟨input, env⟩, hgiven, hbody⟩ := Option.map_eq_some_iff.1 hsaid
    refine ⟨by rw [Hook.kind_heard]; exact hkind, _, Hook.heard_mem, input, env,
      by rw [Hook.given_heard]; exact hgiven, ?_, ?_⟩
    · show req.body = _
      rw [← hbody, hkind]
      rfl
    · exact Option.some.inj hwake

theorem Sound.go (hform : TextForm wire.render wire.parse)
    (h : w.Sound wire boot) (hi : w.hooks[i]? = some hook) (draw : Luck) :
    (w.go wire i hook draw).Sound wire boot := by
  have hat := (h.hooks i hook hi).stands
  unfold Site.go
  split
  next hstage =>
    have hlive : hook.stage.live = true := by rw [hstage]; rfl
    split
    · exact h.idle hi hlive (.inl rfl)
    · split
      · exact h.idle hi hlive trivial
      · split
        · exact h
        next hup => exact h.connect hi hlive (by simpa using hup)
  next call client hstage =>
    have hlive : hook.stage.live = true := by rw [hstage]; rfl
    rw [hstage] at hat
    split
    · exact h
    next body hsaid =>
      dsimp only
      split
      · exact h.writes hform hi hstage hsaid rfl
      · exact h.fails hi hlive (client.wrote _) hat.1 call draw.stray
  next call client req hstage =>
    have hlive : hook.stage.live = true := by rw [hstage]; rfl
    rw [hstage] at hat
    split
    · split
      · exact h
      next resp hresp =>
        dsimp only
        rw [read_eq hform]
        exact h.reads hi hstage hresp draw.more
    · exact h.fails hi hlive client hat.1 call []
  next => exact h

/-- A Stop hook exits with the wake it reads. -/
theorem go_wake (hform : TextForm wire.render wire.parse)
    (hi : w.hooks[i]? = some hook) (hkind : hook.kind = .stopWait)
    {client : Client} {req : Protocol.Request}
    (hstage : hook.stage = .reading .own client req) {resp : Protocol.Response}
    (hresp : client.waiting w.daemon = some resp) {payload : String}
    (hwake : resp.body = .wake payload) :
    ∃ hook' : Hook, (w.step wire (.go i {})).hooks[i]? = some hook'
      ∧ hook'.stage = .exited 2 (some payload)
      ∧ hook'.exchanges
        = hook.exchanges ++ [⟨client.conn, client.read, req, resp⟩] := by
  have hlt := (List.getElem?_eq_some_iff.1 hi).1
  have hstep : w.step wire (.go i {}) = w.returned wire i
      (hook.heard .own client req resp) (client.drain w.daemon 0) .own
      (some resp.body) := by
    unfold step
    simp only [hi]
    unfold go
    simp only [hstage, hresp, read_eq hform, if_true]
  rw [hstep]
  refine ⟨_, List.getElem?_set_self hlt, ?_, rfl⟩
  show HookKind.verdict (hook.heard .own client req resp).kind (some resp.body) = _
  rw [Hook.kind_heard, hkind, hwake]
  rfl

/-- The daemon moves, or somebody who has opened none of the hooks'
connections. -/
theorem Sound.others (h : w.Sound wire boot) {m : Move}
    (hm : ∀ c line, m = .arrive c line → c ∉ w.opened.map Prod.fst) :
    (w.moves wire [m]).Sound wire boot := by
  obtain ⟨ms, hran⟩ := h.ran
  refine ⟨⟨ms ++ [m], ?_⟩, h.apart, fun p hp =>
    (h.bound p hp).trans_le (conns_run _ _ _), fun j other hj => ?_⟩
  · show run (Service.step wire.toLineReader) w.daemon [m] = _
    rw [hran]
    exact (run_append _ ms [m]).symm
  · have hother := h.hooks j other hj
    refine hother.run (List.Subset.refl _) fun client hclient line hin => ?_
    exact hm _ _ (List.mem_singleton.1 hin).symm
      (List.mem_map_of_mem (hother.owns hclient))

theorem sound_step (hform : TextForm wire.render wire.parse)
    (h : w.Sound wire boot) (act : SiteAct) : (w.step wire act).Sound wire boot := by
  cases act with
  | daemon m =>
      unfold step
      dsimp only
      split
      next c line =>
        split
        · exact h
        next hnot =>
          refine h.others fun c' line' heq => ?_
          cases heq
          exact hnot
      next hno => exact h.others fun c line heq => absurd heq (hno c line)
  | run kind version given guarded fresh =>
      refine ⟨h.ran, h.apart, h.bound, fun j other hj => ?_⟩
      change (w.hooks ++ [_])[j]? = some other at hj
      by_cases hlt : j < w.hooks.length
      · rw [List.getElem?_append_left hlt] at hj
        exact h.hooks j other hj
      · rw [List.getElem?_append_right (Nat.le_of_not_lt hlt)] at hj
        rw [List.mem_singleton.1 (List.mem_of_getElem? hj)]
        exact ⟨fun x hx => (by cases hx), fun x hx => (by cases hx), trivial⟩
  | go i draw =>
      unfold step
      dsimp only
      split
      next hook hi => exact h.go hform hi draw
      next => exact h
  | kill i =>
      unfold step
      dsimp only
      split
      next hook hi =>
        split
        next hlive =>
          have hsound := h.hooks i hook hi
          split
          next client hclient =>
            refine h.act hi _ ?_ ⟨fun x hx => (hsound.exchanged x hx).run _
              (List.Subset.refl _), fun x hx ev hpoll =>
                (hsound.unsettled hlive hx hpoll).elim, trivial⟩
            intro c line hin
            simp at hin
          next => exact h.idle hi hlive trivial
        next => exact h
      next => exact h

theorem sound_after (hform : TextForm wire.render wire.parse) (boot : Boot)
    (acts : List SiteAct) : (after wire boot acts).Sound wire boot := by
  refine run_invariant (P := fun w : Site => w.Sound wire boot)
    (fun w act h => sound_step hform h act) ?_ acts
  refine ⟨⟨[], rfl⟩, List.nodup_nil, fun p hp => ?_, fun i hook hi => ?_⟩
  · cases hp
  · cases hi

end Site

/-- A line that has been answered is settled. -/
theorem Conn.Sound.sent_once {said : Sayings} {reader : LineReader} {w : World}
    {conn : Conn} (h : conn.Sound said reader w) {n : Nat} {resp : Protocol.Response}
    (hsent : (n, resp) ∈ conn.sent) :
    (∀ resp', (n, resp') ∈ conn.sent → resp' = resp) ∧ n ∉ conn.unsent
      ∧ n ∉ conn.pending := by
  have hnodup := h.accounted.nodup_iff.2 List.nodup_range
  rw [List.append_assoc, List.append_assoc] at hnodup
  obtain ⟨hfirst, -, happart⟩ := List.nodup_append.1 hnodup
  have hn : n ∈ conn.sent.map Prod.fst := List.mem_map_of_mem hsent
  refine ⟨fun resp' hsent' => ?_, fun hin => ?_, fun hin => ?_⟩
  · exact congrArg Prod.snd (List.inj_on_of_nodup_map hfirst hsent' hsent rfl)
  · exact happart n hn n (by simp [hin]) rfl
  · exact happart n hn n (by simp [hin]) rfl

/-- What the daemon makes of a line that a client writes. -/
theorem Wire.reaction_line {wire : Wire}
    (hform : TextForm wire.render wire.parse) (req : Protocol.Request) :
    wire.reaction (wire.line req) = req.reaction :=
  Protocol.handleLine_of_decode hform
    (Protocol.decode_render hform Protocol.request req)

theorem Protocol.Request.parked_of_stopWait {req : Protocol.Request} {ev : Event}
    (hproto : req.proto = .ofNat protoVersion) (hbody : req.body = .stopWait ev) :
    req.reaction = .parked req.id ev := by
  unfold reaction
  rw [if_neg fun h => h.1 hproto, hbody]

-- --------------------------------------------- a Stop hook, a minute on

/-- JSON, a line a document. -/
def Wire.documents : Wire where
  parse := JsonDoc.parse
  complaint := id
  render := JsonDoc.render

theorem Wire.documents_form :
    TextForm Wire.documents.render Wire.documents.parse :=
  JsonDoc.textForm

/-- A Stop hook finds the daemon as new as it is, and its poll is answered
a minute later. -/
def polledOut : List SiteAct :=
  [.run .stopWait packageVersion
      (some ({ sessionId := "s" }, { cwd := "/p", projectRoot := "/p" })) false
      true, .go 0 {}]
    ++ List.replicate 2 (.daemon (.work 0 {})) ++ [.go 0 {}]
    ++ List.replicate 4 (.daemon (.work 0 {})) ++ [.go 0 {}, .go 0 {}]
    ++ List.replicate 7 (.daemon (.work 0 {}))
    ++ List.replicate 30 (.daemon (.work 0 { now := 70 }))

/-- The hook reads the answer. -/
def minuteOn : List SiteAct := polledOut ++ [.go 0 {}]

theorem minuteOn_wakes :
    ∃ (hook : Hook) (payload : String) (x y : Exchange),
      (Site.after .documents .minutely minuteOn).hooks[0]? = some hook
        ∧ hook.stage = .exited 2 (some payload) ∧ hook.exchanges = [x, y] := by
  have hrun : (Site.after .documents .minutely polledOut).hooks[0]?.map
      (fun hook => (hook.kind, hook.exchanges.length, match hook.stage with
        | .reading .own client _ => (client.waiting
            (Site.after .documents .minutely polledOut).daemon).bind
              fun resp => resp.body.payload.map fun _ => ()
        | _ => none)) = some (.stopWait, 1, some ()) := by decide +kernel
  obtain ⟨hook, hi, hat⟩ := Option.map_eq_some_iff.1 hrun
  simp only [Prod.mk.injEq] at hat
  obtain ⟨hkind, hone, hat⟩ := hat
  obtain ⟨x, hx⟩ := List.length_eq_one_iff.1 hone
  split at hat
  next client req hstage =>
    obtain ⟨resp, hresp, hwake⟩ := Option.bind_eq_some_iff.1 hat
    obtain ⟨payload, hpayload, -⟩ := Option.map_eq_some_iff.1 hwake
    obtain ⟨hook', hi', hexit, hexchanges⟩ := Site.go_wake Wire.documents_form hi
      hkind hstage hresp (Protocol.ResponseBody.payload_eq_some hpayload)
    rw [hx] at hexchanges
    rw [minuteOn, Site.after, run_append, run_cons, run_nil]
    exact ⟨hook', payload, x, _, hi', hexit, hexchanges⟩
  next => cases hat

section results

variable {wire : Wire} {boot : Boot} {acts : List SiteAct}

/-- Whatever a hook takes for the answer to a request of its own is due to
that request, and carries its number, though nobody looks. -/
theorem exchanges_match (hform : TextForm wire.render wire.parse) {i : Nat}
    {hook : Hook} (hi : (Site.after wire boot acts).hooks[i]? = some hook)
    {x : Exchange} (hx : x ∈ hook.exchanges) :
    ∃ (ms : List Move) (conn : Conn), (Site.after wire boot acts).daemon
        = Service.after wire.toLineReader boot ms
      ∧ (Site.after wire boot acts).daemon.conns[x.conn]? = some conn
      ∧ conn.heard[x.n]? = some (wire.line x.req)
      ∧ DueTo (Service.Said wire.toLineReader boot ms x.conn)
        (Site.after wire boot acts).daemon.world conn.tasks x.n
        x.req.reaction x.resp
      ∧ x.resp.id = x.req.id := by
  have hsound := Site.sound_after hform boot acts
  obtain ⟨ms, hran, hserviced⟩ := hsound.serviced
  obtain ⟨conn, hc, hheard, hsent⟩ :=
    ((hsound.hooks i hook hi).exchanged x hx).carried
  obtain ⟨line, hline, hdue⟩ := (hserviced.sound x.conn conn hc).due _ hsent
  rw [hheard, Option.some.injEq] at hline
  subst hline
  refine ⟨ms, conn, hran, hc, hheard, ?_, hdue.id_eq ?_⟩
  · rw [← wire.reaction_line hform]
    exact hdue
  · exact Protocol.decode_render hform Protocol.request x.req

/-- The hook has asked for the version, and then for a poll. -/
theorem exchanges_match_minuteOn :
    ∃ (hook : Hook) (x y : Exchange),
      (Site.after .documents .minutely minuteOn).hooks[0]? = some hook
        ∧ hook.exchanges = [x, y] ∧ x.resp.id = x.req.id
        ∧ y.resp.id = y.req.id := by
  obtain ⟨hook, _, x, y, hi, -, hexchanges⟩ := minuteOn_wakes
  have hid : ∀ z ∈ hook.exchanges, z.resp.id = z.req.id := by
    intro z hz
    obtain ⟨_, _, -, -, -, -, hid⟩ := exchanges_match Wire.documents_form hi hz
    exact hid
  rw [hexchanges] at hid
  exact ⟨hook, x, y, hi, hexchanges, hid x (by simp), hid y (by simp)⟩

/-- The poll of a hook that does not exit with 0. -/
theorem Site.Sound.woken (hform : TextForm wire.render wire.parse) {w : Site}
    (h : w.Sound wire boot) {i : Nat} {hook : Hook}
    (hi : w.hooks[i]? = some hook) {code : Nat} {stderr : Option String}
    (hexit : hook.stage = .exited code stderr) (hcode : code ≠ 0) :
    hook.kind = .stopWait ∧ code = 2 ∧ ∃ payload, stderr = some payload
      ∧ contains payload wakeMarker = true
      ∧ ∃ x ∈ hook.exchanges, ∃ (input : HookInput) (env : HookEnv)
        (conn : Conn) (k : Nat) (o : Obs), hook.given = some (input, env)
          ∧ x.req.body = .stopWait (hookEvent input env .stop)
          ∧ w.daemon.conns[x.conn]? = some conn ∧ (x.n, k) ∈ conn.tasks
          ∧ o ∈ w.daemon.world.daemon.log ∧ o.waker = some k
          ∧ o.tells = some (input.sessionId, payload)
          ∧ AtMostOne (WokenBy k) w.daemon.world.daemon.log
          ∧ ∀ (j : Nat) (hook' : Hook) (x' : Exchange) (conn' : Conn),
            w.hooks[j]? = some hook' → x' ∈ hook'.exchanges →
            w.daemon.conns[x'.conn]? = some conn' → (x'.n, k) ∈ conn'.tasks →
            j = i := by
  have hsound := h.hooks i hook hi
  have hat := hsound.stands
  rw [hexit] at hat
  obtain ⟨payload, htwo, hsome, hkind, x, hx, input, env, hgiven, hreq, hwake⟩ :=
    hat.resolve_left hcode
  have hexchange := hsound.exchanged x hx
  obtain ⟨conn, hc, hheard, hsent⟩ := hexchange.carried
  obtain ⟨ms, hran⟩ := h.ran
  have hc' := hc
  rw [hran] at hc'
  obtain ⟨line, id, ev, k, o, hmarker, hline, hreact, -, htask, ho, hk, htells,
    hone, hapart⟩ := Service.wake_of_sent hc' hsent hwake
  rw [hheard, Option.some.injEq] at hline
  subst hline
  rw [wire.reaction_line hform,
    Protocol.Request.parked_of_stopWait hexchange.proto hreq,
    Protocol.Reaction.parked.injEq] at hreact
  obtain ⟨-, rfl⟩ := hreact
  rw [← hran] at ho hone hapart
  refine ⟨hkind, htwo, payload, hsome, hmarker, x, hx, input, env, conn, k, o,
    hgiven, hreq, hc, htask, ho, hk, htells, hone, ?_⟩
  intro j hook' x' conn' hj hx' hconn' htask'
  obtain ⟨hsame, -⟩ := hapart x'.conn conn' x'.n hconn' htask'
  have hother := ((h.hooks j hook' hj).exchanged x' hx').opened
  rw [hsame] at hother
  exact h.owner hother hexchange.opened

/-- A hook that does not exit with 0 is a Stop hook, and exits with 2. What
it prints is a wake that is on record for its session, once; no other
hook has had an answer of the poll that has put it there; and a prompt
that quotes it is not taken for genuine activity. -/
theorem woken_once (hform : TextForm wire.render wire.parse) {i : Nat}
    {hook : Hook} (hi : (Site.after wire boot acts).hooks[i]? = some hook)
    {code : Nat} {stderr : Option String}
    (hexit : hook.stage = .exited code stderr) (hcode : code ≠ 0) :
    hook.kind = .stopWait ∧ code = 2 ∧ ∃ (payload : String) (input : HookInput)
      (env : HookEnv) (k : Nat) (o : Obs), stderr = some payload
        ∧ hook.given = some (input, env)
        ∧ o ∈ (Site.after wire boot acts).daemon.world.daemon.log
        ∧ o.waker = some k ∧ o.tells = some (input.sessionId, payload)
        ∧ AtMostOne (WokenBy k)
          (Site.after wire boot acts).daemon.world.daemon.log
        ∧ (∀ (j : Nat) (hook' : Hook) (x : Exchange) (conn : Conn),
          (Site.after wire boot acts).hooks[j]? = some hook' →
          x ∈ hook'.exchanges →
          (Site.after wire boot acts).daemon.conns[x.conn]? = some conn →
          (x.n, k) ∈ conn.tasks → j = i)
        ∧ ∀ (prompt : String) (input' : HookInput) (env' : HookEnv),
          contains prompt payload = true → input'.prompt = some prompt →
          (userPromptSubmit input' env').waking = some false := by
  obtain ⟨hkind, htwo, payload, hprinted, hmarker, -, -, input, env, -, k, o,
    hgiven, -, -, -, ho, hk, htells, hone, hapart⟩ :=
    (Site.sound_after hform boot acts).woken hform hi hexit hcode
  refine ⟨hkind, htwo, payload, input, env, k, o, hprinted, hgiven, ho, hk, htells,
    hone, hapart, ?_⟩
  intro prompt input' env' hquotes hprompt
  rw [userPromptSubmit_of_marker hprompt (contains_trans hquotes hmarker)]

theorem woken_once_minuteOn :
    ∃ (hook : Hook) (payload : String) (k : Nat) (o : Obs),
      (Site.after .documents .minutely minuteOn).hooks[0]? = some hook
        ∧ hook.stage = .exited 2 (some payload)
        ∧ o ∈ (Site.after .documents .minutely minuteOn).daemon.world.daemon.log
        ∧ o.waker = some k := by
  obtain ⟨hook, payload, _, _, hi, hexit, -⟩ := minuteOn_wakes
  obtain ⟨-, -, _, _, _, k, o, -, -, ho, hk, -⟩ :=
    woken_once Wire.documents_form hi hexit (by decide)
  exact ⟨hook, payload, k, o, hi, hexit, ho, hk⟩

/-- A Stop hook that has read the answer of its poll, when the poll has a
wake on record, exits with 2 and prints that wake. -/
theorem wake_heeded (hform : TextForm wire.render wire.parse) {i : Nat}
    {hook : Hook} (hi : (Site.after wire boot acts).hooks[i]? = some hook)
    {x : Exchange} (hx : x ∈ hook.exchanges) {ev : Event}
    (hpoll : x.req.body = .stopWait ev) {conn : Conn}
    (hc : (Site.after wire boot acts).daemon.conns[x.conn]? = some conn)
    {k : Nat} (htask : (x.n, k) ∈ conn.tasks) {o : Obs}
    (ho : o ∈ (Site.after wire boot acts).daemon.world.daemon.log)
    (hk : o.waker = some k) :
    ∃ payload, o.tells = some (ev.sessionId, payload)
      ∧ hook.stage = .exited 2 (some payload) := by
  have hsite := Site.sound_after hform boot acts
  have hsound := hsite.hooks i hook hi
  have hexchange := hsound.exchanged x hx
  obtain ⟨conn', hc', hheard, hsent⟩ := hexchange.carried
  rw [hc, Option.some.injEq] at hc'
  subst hc'
  obtain ⟨ms, hran, hserviced⟩ := hsite.serviced
  have hconn := hserviced.sound x.conn conn hc
  obtain ⟨hsame, hunsent, hpending⟩ := hconn.sent_once hsent
  have ho' := ho
  rw [hran] at ho'
  obtain ⟨c, conn', n, line, id, ev', hc', hn, hline, hreact, hway⟩ :=
    Service.on_its_way ho' hk
  rw [← hran] at hc'
  obtain ⟨rfl, hp⟩ := hserviced.apart x.conn c conn conn' (x.n, k) (n, k)
    hc hc' htask hn rfl
  rw [hc, Option.some.injEq] at hc'
  subst hc'
  obtain rfl : x.n = n := congrArg Prod.fst hp
  rw [hheard, Option.some.injEq] at hline
  subst hline
  rw [wire.reaction_line hform,
    Protocol.Request.parked_of_stopWait hexchange.proto hpoll,
    Protocol.Reaction.parked.injEq] at hreact
  obtain ⟨rfl, rfl⟩ := hreact
  -- the line is settled, so it is not what the connection is at
  have hidle : conn.stage.busy = true → x.n ≠ conn.current := by
    intro hbusy hcur
    apply hpending
    unfold Conn.pending
    rw [if_pos hbusy, hcur]
    exact List.mem_cons_self
  rcases hway with ⟨payload, htells, hdelivers⟩ | ⟨hwaits, hcur, -⟩
  · refine ⟨payload, htells, ?_⟩
    have hresp : x.resp.body = .wake payload := by
      rcases hdelivers with hwritten | hlost | ⟨hcur, hwriting⟩
      · rw [← hsame _ hwritten]
        rfl
      · exact absurd hlost hunsent
      · exact absurd hcur (hidle (by rw [hwriting]; rfl))
    obtain ⟨hkind, hstage⟩ := hsound.settled x hx _ hpoll
    rw [hstage, hkind, hresp]
    rfl
  · exact absurd hcur (hidle hwaits.busy)

theorem wake_heeded_minuteOn :
    ∃ (hook : Hook) (payload : String),
      (Site.after .documents .minutely minuteOn).hooks[0]? = some hook
        ∧ hook.stage = .exited 2 (some payload) := by
  obtain ⟨hook, _, _, _, hi, hexit, -⟩ := minuteOn_wakes
  obtain ⟨-, -, _, -, -, x, hx, _, _, _, _, _, -, hpoll, hc, htask, ho, hk, -⟩ :=
    (Site.sound_after Wire.documents_form .minutely minuteOn).woken
      Wire.documents_form hi hexit (by decide)
  obtain ⟨payload, -, hstage⟩ :=
    wake_heeded Wire.documents_form hi hx hpoll hc htask ho hk
  exact ⟨hook, payload, hi, hstage⟩

end results

end Autofork
