import DurableQueue.Proofs.Dispatch.Delivered
import DurableQueue.Proofs.Json.Records
import DurableQueue.Trial.Handlers

/-!
What is posted is what every dispatch hands over.

A dispatch that begins has a claim in hand (`Scene.exists_split_of_begun`), and every claim is a copy of what
is stored (`Scene.IsKept.vouched`). What a post stores stays stored as the entry it was (`Scene.stored_run`),
so that with handlers registered as they were given (`Bus.Employs`) the event comes back from the payload.
-/

namespace DurableQueue

/-- What is encoded is decoded as it was. -/
def EventType.IsFaithful (t : EventType) : Prop :=
  ∀ event payload, t.encode event = .ok payload → t.decode payload.body = .ok event

/-- Events of a legible shape are decoded as they were encoded. -/
theorem EventType.isFaithful_of_legible {t : EventType} (h : Json.Legible t.shape) : t.IsFaithful := by
  intro event payload hencode
  unfold encode at hencode
  split at hencode
  · rename_i text hwritten
    cases hencode
    have hread := h event text hwritten [] 0
    rw [List.append_nil] at hread
    have hall : Json.readAll t.shape text.toUTF8.toList = .ok event := by
      rw [Json.readAll, Json.toList_toUTF8]
      rw [Json.Scanner.bind_apply hread]
      rfl
    rw [decode, hall]
  · cases hencode

/-- Events of free text are decoded as they were encoded, whatever characters are in them. -/
theorem Trial.isFaithful_markedEvents : Trial.markedEvents.IsFaithful := by
  refine EventType.isFaithful_of_legible (Json.legible_record _ _ (fun f hf => ?_) (by decide))
  rcases List.mem_pair.mp hf with rfl | rfl <;> exact Json.legible_text

theorem EventType.eventType_of_encode {t : EventType} {event : Datum} {payload : Payload}
    (h : t.encode event = .ok payload) : payload.eventType = t.name := by
  unfold encode at h
  split at h
  · cases h
    rfl
  · cases h

/-- A post that is answered has stored the encoded event under its number. -/
theorem Node.stored_post {n : Node} {h : Hub} {t : EventType} {event : Datum} {keys : SearchKeys}
    {id : EntryId}
    (hposted : (n.post h t event keys).1 = .ok id) :
    ∃ payload, t.encode event = .ok payload ∧ ∃ d ∈ (n.post h t event keys).2.store.stored,
      d.id = id ∧ d.payload = payload ∧ d.creatingOwner = n.id ∧ d.searchKeys = keys := by
  unfold post at hposted ⊢
  cases hencode : t.encode event with
  | error error =>
    rw [hencode] at hposted
    cases hposted
  | ok payload =>
    rw [hencode] at hposted
    simp only [Hub.append] at hposted ⊢
    rcases h.store.append_cases ⟨payload, n.id, keys⟩ h.time with
      ⟨error, hanswer⟩ | ⟨hanswer, hstored⟩
    · rcases happend : h.store.append ⟨payload, n.id, keys⟩ h.time with ⟨answer, s⟩
      rw [happend] at hanswer hposted
      cases hanswer
      cases hposted
    · rcases happend : h.store.append ⟨payload, n.id, keys⟩ h.time with ⟨answer, s⟩
      rw [happend] at hanswer hposted hstored
      cases hanswer
      cases hposted
      exact ⟨payload, rfl, _, hstored, rfl, rfl, rfl, rfl⟩

namespace Registry

variable {rs : List Handler} {r : Registry} {h : Handler} {e : Entry} {v : Invocation}

/-- What a dispatch comes to if the handler that was last registered for the event type of the entry can
decode its payload. -/
theorem invocation_eq_ok {event : Datum} (hsame : (ofList rs).SameHandlers r)
    (hlast : rs.reverse.find? (fun h => h.eventType.name == e.payload.eventType) = some h)
    (hdecode : h.eventType.decode e.payload.body = .ok event) :
    ∃ deliveries, r.invocation e = .ok ⟨⟨h, deliveries⟩, event, .of e⟩ := by
  have hfind : (r.find? e.payload.eventType).map RegisteredHandler.handler = some h := by
    rw [hsame.find?, find?_ofList, hlast]
    rfl
  obtain ⟨⟨h', deliveries⟩, hregistered, rfl⟩ := Option.map_eq_some_iff.mp hfind
  refine ⟨deliveries, ?_⟩
  unfold invocation
  rw [hregistered]
  simp only [hdecode]

/-- A handler that is called is one for the event type of the entry. -/
theorem name_of_invocation (hv : r.invocation e = .ok v) :
    v.handler.handler.eventType.name = e.payload.eventType :=
  name_of_find? (find?_of_invocation hv).1

end Registry

namespace Scene

variable {start : Timestamp} {actions later : List BusAction} {e : Entry}

theorem Made.append (h : Made start actions e) (later : List BusAction) :
    Made start (actions ++ later) e := by
  induction later using List.reverseRecOn with
  | nil => rwa [List.append_nil]
  | append_singleton later x ih =>
    rw [← List.append_assoc]
    exact ih.concat x

/-- In a run a dispatcher begins to dispatch a claim, which comes to this. -/
def Begins (start : Timestamp) (actions : List BusAction) (k : Nat) (e : Entry)
    (answer : Except DispatchOutcome Invocation) : Prop :=
  ∃ t, .begun t k e answer ∈ (startingAt start).dispatches t actions

/-- A dispatch begins at some action, with a claim in hand and with the handlers of its dispatcher. -/
theorem Begins.exists_split {k : Nat} {e : Entry} {answer : Except DispatchOutcome Invocation}
    (hbegins : Begins start actions k e answer) : ∃ earlier x rest, actions = earlier ++ x :: rest ∧
      (∃ n, ((startingAt start).run earlier).bus.nodes[k]? = some n ∧ answer = n.registry.invocation e) ∧
      ((startingAt start).run (earlier ++ [x])).bus.Holds e := by
  obtain ⟨t, hbegun⟩ := hbegins
  induction actions using List.reverseRecOn with
  | nil => cases hbegun
  | append_singleton actions x ih =>
    rw [dispatches_concat] at hbegun
    rcases List.mem_append.mp hbegun with hold | hnew
    · obtain ⟨earlier, y, rest, rfl, hfound⟩ := ih hold
      exact ⟨earlier, y, rest ++ [x], by simp, hfound⟩
    · obtain ⟨hnode, hholds⟩ := BusTask.begun_of_dispatches hnew
      refine ⟨actions, x, [], rfl, hnode, ?_⟩
      rwa [run_concat]

/-- What is dispatched is a claim that was made, and a copy of what is stored at the end. -/
theorem Begins.made {k : Nat} {e : Entry} {answer : Except DispatchOutcome Invocation}
    (hbegins : Begins start actions k e answer) : Made start actions e ∧
      ∃ d ∈ ((startingAt start).run actions).bus.hub.store.stored, e.IsCopyOf d := by
  obtain ⟨earlier, x, rest, rfl, -, hholds⟩ := hbegins.exists_split
  have hkept := isKept_run start (earlier ++ [x])
  have hclaimed := hkept.held e hholds
  obtain ⟨d, hd, hcopy⟩ := hkept.vouched e hclaimed
  obtain ⟨d', hd', hlater⟩ := stored_run (earlier ++ [x]) rest hd
  rw [List.append_cons]
  exact ⟨(hkept.made e hclaimed).append rest, d', hd', hcopy.trans hlater⟩

/-- What a post stores is stored after it. -/
theorem mem_stored_of_post {i : Nat} {n : Node} {type : EventType} {event : Datum} {keys : SearchKeys}
    {d : Entry} (hn : ((startingAt start).run actions).bus.nodes[i]? = some n)
    (hd : d ∈ (n.post ((startingAt start).run actions).bus.hub type event keys).2.store.stored) :
    d ∈ ((startingAt start).run (actions ++ [.post i type event keys])).bus.hub.store.stored := by
  have hact := (((startingAt start).run actions).act_cases (.post i type event keys)).resolve_left
    fun hgiven => hgiven.1 rfl
  rw [run_concat, hact.2, Bus.act, Bus.onNode?, hn]
  exact hd

/-- The handlers of a dispatcher are the ones with which it was added, also after more was added. -/
theorem sameHandlers_of_run {k : Nat} {r : Registry} {n : Node}
    (hr : ((actions ++ later).filterMap BusAction.registry?)[k]? = some r)
    (hn : ((startingAt start).run actions).bus.nodes[k]? = some n) : r.SameHandlers n.registry := by
  have hemploys := employs_run start actions
  have hlt := (List.getElem?_eq_some_iff.mp hn).1
  rw [← hemploys.length] at hlt
  rw [List.filterMap_append, List.getElem?_append_left hlt] at hr
  exact hemploys.same k r n hr hn

/-- A dispatch calls whom its dispatcher has for the claim. -/
theorem Begins.answer_eq {k : Nat} {e : Entry} {answer : Except DispatchOutcome Invocation} {r : Registry}
    (hbegins : Begins start actions k e answer) (hr : (actions.filterMap BusAction.registry?)[k]? = some r) :
    ∃ r', r.SameHandlers r' ∧ answer = r'.invocation e := by
  obtain ⟨earlier, x, rest, rfl, ⟨n, hn, rfl⟩, -⟩ := hbegins.exists_split
  exact ⟨n.registry, sameHandlers_of_run hr hn, rfl⟩

/-- What a run tells of the dispatches of an entry that was posted. -/
structure HandsOver (start : Timestamp) (actions : List BusAction) (id : EntryId) (poster : NodeId)
    (type : EventType) (event : Datum) (keys : SearchKeys) : Prop where
  /-- What is dispatched is the entry as it was stored when it was claimed. -/
  claimed : ∀ k e answer, Begins start actions k e answer → e.id = id → Made start actions e
  /-- A dispatcher that has a handler for the event calls the one that was registered last, with the event
  that was posted. -/
  called : ∀ k e answer, Begins start actions k e answer → e.id = id →
    ∀ (handlers : List Handler) (h : Handler),
      (actions.filterMap BusAction.registry?)[k]? = some (.ofList handlers) →
      handlers.reverse.find? (fun h => h.eventType.name == type.name) = some h → h.eventType = type →
      ∃ deliveries, answer = .ok ⟨⟨h, deliveries⟩, event, ⟨id, e.errorCount, poster, keys⟩⟩
  /-- No handler of another type is called with it. -/
  others : ∀ k e v, Begins start actions k e (.ok v) → e.id = id →
    v.handler.handler.eventType.name = type.name
  /-- A handler is called once in a dispatch: what it does is told once, before its task begins another
  dispatch. -/
  once : ∀ t, ∃ rest, Dispatching t ((startingAt start).dispatches t actions) rest

/-- What is posted is what every dispatch hands over, whatever happens to the entry before it. -/
theorem handed_over_as_posted (start : Timestamp) (before later : List BusAction) (i : Nat) (n : Node)
    (type : EventType) (event : Datum) (keys : SearchKeys) (id : EntryId) (hfaithful : type.IsFaithful)
    (hn : ((startingAt start).run before).bus.nodes[i]? = some n)
    (hposted : (n.post ((startingAt start).run before).bus.hub type event keys).1 = .ok id) :
    HandsOver start (before ++ .post i type event keys :: later) id n.id type event keys := by
  obtain ⟨payload, hencode, p, hp, rfl, rfl, howner, rfl⟩ := Node.stored_post hposted
  obtain ⟨d, hd, hkept⟩ := stored_run (before ++ [.post i type event p.searchKeys]) later
    (mem_stored_of_post hn hp)
  rw [← List.append_cons] at hd
  -- Of one number there is one entry, so that what is dispatched is a copy of what was posted.
  have hcopy : ∀ k e answer, Begins start (before ++ .post i type event p.searchKeys :: later) k e answer →
      e.id = p.id → p.IsCopyOf e := by
    intro k e answer hbegins hid
    obtain ⟨-, d', hd', hvouched⟩ := hbegins.made
    obtain rfl : d' = d := (isKept_run start _).wellFormed.eq_of_id_eq hd' hd
      ((hvouched.id.symm.trans hid).trans hkept.id)
    exact hkept.trans hvouched.symm
  refine ⟨fun k e answer hbegins _ => hbegins.made.1, ?_, ?_, fun t => ?_⟩
  · intro k e answer hbegins hid handlers h hr hlast htype
    have hposting := hcopy k e answer hbegins hid
    obtain ⟨r, hsame, rfl⟩ := hbegins.answer_eq hr
    have hname : e.payload.eventType = type.name := by
      rw [← hposting.payload, EventType.eventType_of_encode hencode]
    have hdecode : h.eventType.decode e.payload.body = .ok event := by
      rw [htype, ← hposting.payload]
      exact hfaithful event _ hencode
    have hcontext : DispatchContext.of e = ⟨p.id, e.errorCount, n.id, p.searchKeys⟩ := by
      rw [DispatchContext.of, hid, ← hposting.creatingOwner, howner, hposting.searchKeys]
    rw [← hname] at hlast
    exact hcontext ▸ Registry.invocation_eq_ok hsame hlast hdecode
  · intro k e v hbegins hid
    obtain ⟨earlier, x, rest, -, ⟨n', -, hv⟩, -⟩ := hbegins.exists_split
    rw [Registry.name_of_invocation hv.symm, ← (hcopy k e _ hbegins hid).payload,
      EventType.eventType_of_encode hencode]
  · obtain ⟨rest, hdispatching, -⟩ := dispatching_run start _ t
    exact ⟨rest, hdispatching⟩

/-- A dispatcher has a handler for marked events. -/
def greetingBefore : List BusAction := [.add ⟨"a"⟩ .standard (.ofList [Trial.recording]) .shared false]

/-- It claims what was posted and begins to dispatch it. -/
def greetingLater : List BusAction :=
  [.process 0, .task (.call 0) fun _ _ => none, .task (.call 0) fun _ _ => none]

def greeting : Datum := Trial.MarkedEvent.toDatum ⟨"greeting", "grüß \"dich\"\n"⟩

def greetingRun : List BusAction :=
  greetingBefore ++ .post 0 Trial.markedEvents greeting .none :: greetingLater

theorem handed_over_as_posted_greetingRun :
    Trial.markedEvents.IsFaithful ∧ ((startingAt .epoch).dispatches (.call 0) greetingRun).length = 1 ∧
      HandsOver .epoch greetingRun ⟨1⟩ ⟨"a"⟩ Trial.markedEvents greeting .none :=
  ⟨Trial.isFaithful_markedEvents, rfl, handed_over_as_posted .epoch greetingBefore greetingLater 0 _
    Trial.markedEvents greeting .none ⟨1⟩ Trial.isFaithful_markedEvents rfl rfl⟩

end Scene

end DurableQueue
