import DurableQueue.Proofs.Lock.Alert
import DurableQueue.Trial.Locks

/-!
Changes of a coordination service.

Whatever calls, listeners and sessions do, one step of theirs changes the service in one of a few
ways: `ServiceChange` names them and `Coordination.after` carries them out. What holds after every
change is proved here once: the service stays sound (`Coordination.IsSound.after`), only creation
brings a path into the tree (`mem_nodes_after`), and a node goes only by removal or by the expiry of
the session that owns it (`hasNode_after`).
-/

namespace DurableQueue

open Acquisition Trial

/-- What one step does to the service and its clients. -/
inductive ServiceChange where
  | none
  /-- A lock node is created in a directory. -/
  | node (identity : Nat) (directory : String)
  /-- A watch is set. -/
  | watch (path : String)
  /-- The node of a path is deleted, if there is one. -/
  | removal (path : String)
  /-- A session undergoes a change. -/
  | session (change : SessionEvent) (session : Nat)
  /-- A session is opened, with a client. -/
  | opening
  /-- A client is added to the session of another. -/
  | cloning (client : Nat)

namespace Coordinator

/-- A session after a change of it. -/
def changed (c : Coordinator) (change : SessionEvent) (s : Session) : Session :=
  match change with
  | .disconnected => { s with isConnected := false }.record .disconnected
  | .reconnected => { s with isConnected := true }.record .reconnected
  | .expired => { s with identity := c.lastIdentity + 1, isConnected := true }.record .expired

theorem events_changed (c : Coordinator) (change : SessionEvent) (s : Session) :
    (c.changed change s).events = s.events ++ [change] := by
  cases change <;> rfl

theorem isConnected_changed {c : Coordinator} {change : SessionEvent} {s : Session}
    (h : (c.changed change s).isConnected = true) : change ≠ .disconnected := by
  rintro rfl
  cases h

theorem identity_changed {c : Coordinator} {change : SessionEvent} (h : change ≠ .expired)
    (s : Session) : (c.changed change s).identity = s.identity := by
  cases change with
  | disconnected => rfl
  | reconnected => rfl
  | expired => exact absurd rfl h

theorem sessions_changeOf (c : Coordinator) (change : SessionEvent) (session : Nat) :
    (LockTrial.changeOf change c session).sessions = c.sessions.modify session (c.changed change) := by
  cases change with
  | disconnected => rfl
  | reconnected => rfl
  | expired =>
    cases h : c.sessions[session]? with
    | none =>
      have hlen := List.getElem?_eq_none_iff.mp h
      rw [LockTrial.changeOf, expire_of_none h, List.modify_eq_self hlen]
    | some gone =>
      rw [LockTrial.changeOf, expire_of_some h]
      rfl

/-- A change of a session takes no node but those that it owned and loses by expiry. -/
theorem mem_nodes_changeOf {c : Coordinator} {change : SessionEvent} {session : Nat}
    {node : LockNode} :
    node ∈ (LockTrial.changeOf change c session).nodes ↔
      node ∈ c.nodes ∧ ¬ (change = .expired ∧
        ∃ s, c.sessions[session]? = some s ∧ node.owner = s.identity) := by
  cases change with
  | disconnected => simp [LockTrial.changeOf, disconnect, onSession]
  | reconnected => simp [LockTrial.changeOf, reconnect, onSession]
  | expired =>
    cases h : c.sessions[session]? with
    | none =>
      rw [LockTrial.changeOf, expire_of_none h]
      simp
    | some gone =>
      have hnodes : (c.expire session).nodes =
          (c.removeAll fun node => node.owner == gone.identity).nodes := by
        rw [expire_of_some h]
      rw [LockTrial.changeOf, hnodes, mem_nodes_removeAll]
      simp

theorem Later.changeOf (c : Coordinator) (change : SessionEvent) (session : Nat) :
    c.Later (LockTrial.changeOf change c session) := by
  cases change with
  | disconnected => exact onSession c session fun s => ⟨[.disconnected], rfl⟩
  | reconnected => exact onSession c session fun s => ⟨[.reconnected], rfl⟩
  | expired => exact expire c session

theorem IsConsistent.changeOf {c : Coordinator} (h : c.IsConsistent) (change : SessionEvent)
    (session : Nat) : (LockTrial.changeOf change c session).IsConsistent := by
  cases change with
  | disconnected => exact h.onSession session fun s => rfl
  | reconnected => exact h.onSession session fun s => rfl
  | expired => exact h.expire session

theorem IsSound.changeOf {c : Coordinator} (h : c.IsSound) (change : SessionEvent) (session : Nat) :
    (LockTrial.changeOf change c session).IsSound := by
  cases change with
  | disconnected => exact h.onSession session fun s => rfl
  | reconnected => exact h.onSession session fun s => rfl
  | expired => exact h.expire session

end Coordinator

namespace Coordination

/-- Service and clients after a change. -/
def after (c : Coordination) : ServiceChange → Coordination
  | .none => c
  | .node identity directory =>
    { c with coordinator := c.coordinator.withNode identity (directory ++ "/" ++ nodeStart) }
  | .watch path => { c with coordinator := c.coordinator.withWatch path }
  | .removal path => { c with coordinator := c.coordinator.removeAll fun node => node.path == path }
  | .session change session =>
    { c with coordinator := LockTrial.changeOf change c.coordinator session }
  | .opening => c.openSession.2
  | .cloning client => (c.clone client).2

/-- A service whose tree is sound, and clients of its sessions that meet no faults. -/
structure IsSound (c : Coordination) : Prop where
  service : c.coordinator.IsSound
  faultless : c.IsFaultless
  attached : ∀ cl ∈ c.clients, cl.session < c.coordinator.sessions.length

/-- Watches are set on nodes that are there, and clients are added to clients that are there. -/
def Allows (c : Coordination) : ServiceChange → Prop
  | .watch path => c.coordinator.hasNode path = true
  | .cloning client => client < c.clients.length
  | _ => True

section

variable {c : Coordination} {ch : ServiceChange} {client : Nat} {path : String}

theorem coordinator_later_after (c : Coordination) (ch : ServiceChange) :
    c.coordinator.Later (c.after ch).coordinator := by
  cases ch with
  | none => exact .refl _
  | node identity directory => exact .withNode _ _ _
  | watch path => exact .withWatch _ _
  | removal path => exact .removeAll _ _
  | session change session => exact .changeOf _ _ _
  | opening => exact .openSession _
  | cloning client => exact .refl _

theorem length_clients_after (c : Coordination) (ch : ServiceChange) :
    c.clients.length ≤ (c.after ch).clients.length := by
  cases ch <;> simp [after, openSession, clone]

theorem sessionOf_append (clients : List Client) (hc : client < c.clients.length) {c' : Coordination}
    (h : c'.clients = c.clients ++ clients) : c'.sessionOf client = c.sessionOf client := by
  unfold sessionOf
  rw [h, List.getElem?_append_left hc, List.getElem?_eq_getElem hc]

/-- A client keeps its session. -/
theorem sessionOf_after (hc : client < c.clients.length) (ch : ServiceChange) :
    (c.after ch).sessionOf client = c.sessionOf client := by
  cases ch with
  | opening => exact sessionOf_append [⟨_, []⟩] hc rfl
  | cloning client => exact sessionOf_append [⟨_, []⟩] hc rfl
  | _ => exact sessionOf_append [] hc (List.append_nil _).symm

theorem IsSound.sessionOf_lt (h : c.IsSound) (hc : client < c.clients.length) :
    c.sessionOf client < c.coordinator.sessions.length := by
  unfold sessionOf
  rw [List.getElem?_eq_getElem hc]
  exact h.attached _ (List.getElem_mem hc)

theorem IsSound.empty : Coordination.empty.IsSound where
  service := .empty
  faultless := by simp [IsFaultless, Coordination.empty]
  attached := by simp [Coordination.empty]

theorem length_sessions_after (c : Coordination) (ch : ServiceChange) :
    c.coordinator.sessions.length ≤ (c.after ch).coordinator.sessions.length := by
  cases ch with
  | session change session => simp [after, Coordinator.sessions_changeOf]
  | _ => simp [after, openSession, clone, Coordinator.openSession, Coordinator.withNode,
      Coordinator.withWatch, Coordinator.removeAll]

/-- A service stays sound under every change that is allowed. -/
theorem IsSound.after (h : c.IsSound) (ha : c.Allows ch) : (c.after ch).IsSound := by
  have hsame : ∀ cl ∈ c.clients, cl.session < (c.after ch).coordinator.sessions.length :=
    fun cl hcl => Nat.lt_of_lt_of_le (h.attached cl hcl) (length_sessions_after c ch)
  cases ch with
  | none => exact h
  | node identity directory => exact ⟨h.service.withNode identity directory, h.faultless, hsame⟩
  | watch path => exact ⟨h.service.withWatch ha, h.faultless, hsame⟩
  | removal path => exact ⟨h.service.removeAll _, h.faultless, hsame⟩
  | session change session => exact ⟨h.service.changeOf change session, h.faultless, hsame⟩
  | opening =>
    refine ⟨h.service.openSession, ?_, ?_⟩
    · intro cl hcl
      rcases List.mem_append.mp hcl with hcl | hcl
      · exact h.faultless cl hcl
      · rw [List.mem_singleton.mp hcl]
    · intro cl hcl
      rcases List.mem_append.mp hcl with hcl | hcl
      · exact hsame cl hcl
      · rw [List.mem_singleton.mp hcl]
        simp [Coordination.after, openSession, Coordinator.openSession]
  | cloning client =>
    refine ⟨h.service, ?_, ?_⟩
    · intro cl hcl
      rcases List.mem_append.mp hcl with hcl | hcl
      · exact h.faultless cl hcl
      · rw [List.mem_singleton.mp hcl]
    · intro cl hcl
      rcases List.mem_append.mp hcl with hcl | hcl
      · exact hsame cl hcl
      · rw [List.mem_singleton.mp hcl]
        exact h.sessionOf_lt ha

/-- Only creation brings a node. -/
theorem mem_nodes_after {node : LockNode} (h : node ∈ (c.after ch).coordinator.nodes) :
    node ∈ c.coordinator.nodes ∨ ∃ identity directory, ch = .node identity directory ∧
      node = ⟨nodePath directory (c.coordinator.nextNumber directory), identity⟩ := by
  cases ch with
  | node identity directory =>
    rcases Coordinator.mem_nodes_withNode h with rfl | h
    · refine .inr ⟨identity, directory, rfl, ?_⟩
      rw [parentOf_start]
      rfl
    · exact .inl h
  | removal path => exact .inl (Coordinator.mem_nodes_removeAll.mp h).1
  | session change session => exact .inl (Coordinator.mem_nodes_changeOf.mp h).1
  | _ => exact .inl h

/-- A path of a number that was given out does not come back. -/
theorem hasNode_of_after {directory : String} {n : Nat}
    (hn : n < c.coordinator.nextNumber directory)
    (h : (c.after ch).coordinator.hasNode (nodePath directory n) = true) :
    c.coordinator.hasNode (nodePath directory n) = true := by
  obtain ⟨node, hmem, hp⟩ := Coordinator.hasNode_iff.mp h
  rcases mem_nodes_after hmem with hmem | ⟨identity, d, -, rfl⟩
  · exact Coordinator.hasNode_iff.mpr ⟨node, hmem, hp⟩
  · obtain ⟨rfl, rfl⟩ := nodePath_injective hp
    exact absurd hn (Nat.lt_irrefl _)

/-- A node stays unless it is removed or its owner expires. -/
theorem hasNode_after (h : c.coordinator.hasNode path = true) (hremoval : ch ≠ .removal path)
    (howner : ∀ session s node, ch = .session .expired session →
      c.coordinator.sessions[session]? = some s → node ∈ c.coordinator.nodes → node.path = path →
      node.owner ≠ s.identity) :
    (c.after ch).coordinator.hasNode path = true := by
  cases ch with
  | node identity directory => exact Coordinator.hasNode_withNode h
  | removal other =>
    refine Coordinator.hasNode_removeAll h fun node hmem hp => ?_
    simp only [beq_eq_false_iff_ne, ne_eq]
    rintro rfl
    exact hremoval (by rw [hp])
  | session change session =>
    obtain ⟨node, hmem, hp⟩ := Coordinator.hasNode_iff.mp h
    refine Coordinator.hasNode_iff.mpr ⟨node, Coordinator.mem_nodes_changeOf.mpr ⟨hmem, ?_⟩, hp⟩
    rintro ⟨rfl, s, hs, ho⟩
    exact howner session s node rfl hs hmem hp ho
  | _ => exact h

/-- The session of a client is the same after a change, or the change was one of it. -/
theorem session?_after (hc : client < c.clients.length) {s : Session}
    (hs : c.session? client = some s) (ch : ServiceChange) :
    (c.after ch).session? client = some s ∨
      ∃ change, ch = .session change (c.sessionOf client) ∧
        (c.after ch).session? client = some (c.coordinator.changed change s) := by
  unfold session? at hs ⊢
  rw [sessionOf_after hc]
  cases ch with
  | session change session =>
    by_cases hk : session = c.sessionOf client
    · subst hk
      right
      refine ⟨change, rfl, ?_⟩
      rw [after, Coordinator.sessions_changeOf, List.getElem?_modify_eq, hs]
      rfl
    · left
      rw [after, Coordinator.sessions_changeOf, List.getElem?_modify_ne _ _ hk]
      exact hs
  | opening =>
    left
    have hlt := (List.getElem?_eq_some_iff.mp hs).1
    rw [after, openSession, Coordinator.openSession, List.getElem?_append_left hlt]
    exact hs
  | _ => exact .inl hs

/-- A node that stays belongs to the session that it belonged to. -/
theorem owner_after (hc : client < c.clients.length) {s : Session}
    (hs : c.session? client = some s) {x : LockNode} (howner : x.owner = s.identity)
    (hx : x ∈ (c.after ch).coordinator.nodes) :
    ∃ s', (c.after ch).session? client = some s' ∧ x.owner = s'.identity := by
  rcases session?_after hc hs ch with hsame | ⟨change, rfl, hchanged⟩
  · exact ⟨s, hsame, howner⟩
  · refine ⟨_, hchanged, ?_⟩
    by_cases he : change = .expired
    · exact absurd ⟨he, s, hs, howner⟩ (Coordinator.mem_nodes_changeOf.mp hx).2
    · rw [Coordinator.identity_changed he]
      exact howner

/-- A call of a client without faults runs under the identity of its session or is refused. -/
theorem call_cases {α : Type} (h : c.IsFaultless) (client : Nat) (method : ClientMethod) (absent : α)
    (op : Coordinator → Nat → Coordinator.Outcome α) {run : Coordinator → Nat → Coordinator.Outcome α}
    (hop : ∀ service session, op service session = service.connected session (run service)) :
    (∃ s, c.session? client = some s ∧ s.isConnected = true ∧
      c.call client method absent op = ((run c.coordinator s.identity).1,
        { c with coordinator := (run c.coordinator s.identity).2 })) ∨
    (¬ c.IsConnected client ∧ c.call client method absent op = (.error .connectionLoss, c)) := by
  rw [call_of_faultless h, hop]
  rcases Coordinator.connected_cases c.coordinator (c.sessionOf client) (run c.coordinator) with
    ⟨s, hs, hc, heq⟩ | ⟨hc, heq⟩
  · left
    refine ⟨s, hs, hc, ?_⟩
    rw [heq]
  · right
    refine ⟨hc, ?_⟩
    rw [heq]

theorem create_cases (h : c.IsFaultless) (client : Nat) (directory : String) :
    (∃ s, c.session? client = some s ∧ s.isConnected = true ∧
      c.create client (directory ++ "/" ++ nodeStart) =
        (.ok (nodePath directory (c.coordinator.nextNumber directory)),
          c.after (.node s.identity directory))) ∨
    (¬ c.IsConnected client ∧
      c.create client (directory ++ "/" ++ nodeStart) = (.error .connectionLoss, c)) := by
  have hcall := call_cases h client .create "" (fun service session =>
    service.create session (directory ++ "/" ++ nodeStart)) fun _ _ => rfl
  rcases hcall with ⟨s, hs, hc, heq⟩ | hcall
  · left
    refine ⟨s, hs, hc, heq.trans ?_⟩
    rw [parentOf_start]
    simp [after, nodePath, Coordinator.withNode]
  · exact .inr hcall

theorem children_cases (h : c.IsFaultless) (client : Nat) (parent : String) :
    (c.IsConnected client ∧ c.children client parent = (.ok (c.coordinator.childNames parent), c)) ∨
    (¬ c.IsConnected client ∧ c.children client parent = (.error .connectionLoss, c)) := by
  have hcall := call_cases h client .children [] (fun service session =>
    service.children session parent) fun _ _ => rfl
  rcases hcall with ⟨s, hs, hc, heq⟩ | hcall
  · exact .inl ⟨⟨s, hs, hc⟩, heq⟩
  · exact .inr hcall

theorem watch_cases (h : c.IsFaultless) (client : Nat) (path : String) :
    (c.coordinator.hasNode path = true ∧
      c.watch client path = (.ok (some c.coordinator.watches.length), c.after (.watch path))) ∨
    (c.coordinator.hasNode path = false ∧ c.watch client path = (.ok none, c)) ∨
    (¬ c.IsConnected client ∧ c.watch client path = (.error .connectionLoss, c)) := by
  have hcall := call_cases h client .watch none (fun service session =>
    service.watch session path) fun _ _ => rfl
  rcases hcall with ⟨s, hs, hc, heq⟩ | hcall
  · cases hnode : c.coordinator.hasNode path with
    | true =>
      rw [if_pos hnode] at heq
      exact .inl ⟨rfl, heq⟩
    | false =>
      rw [hnode] at heq
      exact .inr (.inl ⟨rfl, heq⟩)
  · exact .inr (.inr hcall)

/-- Deleting a node tells whether it was there, unless the session is not connected. -/
theorem delete_cases (h : c.IsFaultless) (client : Nat) (path : String) :
    (c.IsConnected client ∧ c.delete client path =
      (.ok (c.coordinator.hasNode path), c.after (.removal path))) ∨
    (¬ c.IsConnected client ∧ c.delete client path = (.error .connectionLoss, c)) := by
  have hcall := call_cases h client .delete false (fun service session =>
    service.delete session path) fun _ _ => rfl
  rcases hcall with ⟨s, hs, hc, heq⟩ | hcall
  · exact .inl ⟨⟨s, hs, hc⟩, heq⟩
  · exact .inr hcall

/-- What deleting a node does to the service: nothing while the session is not connected. -/
def deletion (c : Coordination) (client : Nat) (path : String) : ServiceChange :=
  match c.coordinator.identity (c.sessionOf client) with
  | .ok _ => .removal path
  | .error _ => .none

theorem deletion_cases (c : Coordination) (client : Nat) (path : String) :
    (c.IsConnected client ∧ c.deletion client path = .removal path) ∨
      (¬ c.IsConnected client ∧ c.deletion client path = .none) := by
  unfold deletion Coordinator.identity IsConnected session?
  cases hs : c.coordinator.sessions[c.sessionOf client]? with
  | none => exact .inr ⟨by simp, rfl⟩
  | some s =>
    cases hc : s.isConnected with
    | true => exact .inl ⟨⟨s, rfl, hc⟩, by simp [hc]⟩
    | false => exact .inr ⟨by simp [hc], by simp [hc]⟩

theorem deletion_eq (c : Coordination) (client : Nat) (path : String) :
    c.deletion client path = .none ∨ c.deletion client path = .removal path := by
  rcases c.deletion_cases client path with ⟨-, h⟩ | ⟨-, h⟩
  · exact .inr h
  · exact .inl h

theorem delete_eq_after (h : c.IsFaultless) (client : Nat) (path : String) :
    (c.delete client path).2 = c.after (c.deletion client path) := by
  rw [delete, call_of_faultless h]
  unfold deletion Coordinator.delete Coordinator.connected
  cases c.coordinator.identity (c.sessionOf client) <;> rfl

end

end Coordination

end DurableQueue
