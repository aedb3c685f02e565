import DurableQueue.Proofs.Dispatch.Batch
import DurableQueue.Proofs.Store.WellFormed

/-!
What becomes of a claim whose handler keeps to itself.

A handler is local if what it does depends on the entry that it is given and on its own past attempts with it,
and if it leaves the store alone. With local handlers and without jitter a claim has one `Setting.resolution`,
whatever happens to other claims meanwhile.
-/

namespace DurableQueue

namespace RetryPolicy

variable {p : RetryPolicy}

/-- Whatever is drawn, the delay is the same. -/
def IsJitterFree (p : RetryPolicy) : Prop := ∀ draw count, p.delay draw count = some (p.backoff count)

/-- There is no next step for jitter to reach into if the delay does not grow. -/
theorem isJitterFree_of_fixed (h : p.strategy = .fixed) : p.IsJitterFree := fun draw count => by
  have hsame : p.backoff (countFailure count) = p.backoff count := by simp only [backoff, h, factor]
  have hle : p.backoff (countFailure count) ≤ p.backoff count := hsame ▸ Nat.le_refl _
  simp only [delay, hle, or_true, ↓reduceIte]

theorem IsJitterFree.decide_eq (h : p.IsJitterFree) (draw draw' : Draw) (count : UInt32) (now : Timestamp) :
    p.decide draw count now = p.decide draw' count now := by
  unfold decide
  rw [h draw, h draw']

theorem IsJitterFree.decide_ne_none (h : p.IsJitterFree) (draw : Draw) (count : UInt32) (now : Timestamp) :
    p.decide draw count now ≠ none := by
  unfold decide
  rw [h draw]
  split <;> exact nofun

end RetryPolicy

namespace DispatchOutcome

variable {policy : RetryPolicy} {outcome : DispatchOutcome} {e : Entry} {now : Timestamp}

theorem nextEntry_eq (h : policy.IsJitterFree) (draw draw' : Draw) :
    outcome.nextEntry policy draw e now = outcome.nextEntry policy draw' e now := by
  cases outcome with
  | handlerFailed detail => simp only [nextEntry, h.decide_eq draw draw']
  | _ => rfl

theorem nextEntry_ne_none_of_jitterFree (h : policy.IsJitterFree) (draw : Draw) :
    outcome.nextEntry policy draw e now ≠ none := by
  cases outcome with
  | handlerFailed detail =>
    simp only [nextEntry, ne_eq, Option.map_eq_none_iff]
    exact h.decide_ne_none draw _ now
  | _ => exact Option.some_ne_none _

end DispatchOutcome

/-- An operation that only reads. -/
def StoreOp.IsReading : StoreOp → Prop
  | .count _ | .find _ | .search _ _ => True
  | _ => False

theorem Hub.operate_of_isReading {h : Hub} {op : StoreOp} (hleft : h.store.failuresLeft = 0)
    (hop : op.IsReading) : (h.operate op).2 = h := by
  cases op with
  | count state => simp only [operate, Store.apply, Store.count, Store.guarded, hleft, Store.Outcome.map]
  | find id => simp only [operate, Store.apply, Store.find, Store.guarded, hleft, Store.Outcome.map]
  | search key1 key2 => simp only [operate, Store.apply, Store.search, Store.guarded, hleft, Store.Outcome.map]
  | _ => exact hop.elim

/-- An effect that concerns at most what the handler remembers of this entry. The store may be read. -/
def Effect.IsOwn (id : EntryId) : Effect → Prop
  | .remember d => d.entryId = id
  | .note _ | .sleep _ | .operate (.count _) | .operate (.find _) | .operate (.search _ _) => True
  | .operate _ => False

/-- A handler whose answer depends only on the event, the context and its own past attempts with the entry,
and that leaves the store alone. -/
structure Handler.IsLocal (h : Handler) : Prop where
  own : ∀ past event context, h.react past event context =
    h.react (past.filter fun d => d.entryId = context.entryId) event context
  effects : ∀ past event context, ∀ effect ∈ (h.react past event context).effects,
    effect.IsOwn context.entryId

def Registry.IsLocal (r : Registry) : Prop := ∀ h ∈ r.handlers, h.handler.IsLocal

namespace Registry

variable {r : Registry} {e : Entry} {d : Delivery} {type : String}

theorem IsLocal.remember (hr : r.IsLocal) (type : String) (d : Delivery) : (r.remember type d).IsLocal := by
  intro h hh
  obtain ⟨old, hold, rfl⟩ := List.mem_map.mp hh
  split
  · exact hr old hold
  · exact hr old hold

theorem find?_remember (r : Registry) (type : String) (d : Delivery) (name : String) :
    (r.remember type d).find? name = (r.find? name).map fun h =>
      if h.handler.eventType.name == type then { h with deliveries := h.deliveries ++ [d] } else h := by
  rw [find?, remember, List.find?_map, find?]
  congr 2
  funext h
  simp only [Function.comp_apply]
  split <;> rfl

/-- What a handler remembers of other entries does not matter. -/
theorem prepare_remember (hr : r.IsLocal) (hne : d.entryId ≠ e.id) :
    (r.remember type d).prepare e = r.prepare e := by
  unfold prepare
  rw [find?_remember]
  cases hfind : r.find? e.payload.eventType with
  | none => rfl
  | some h =>
    have hlocal := hr h (List.mem_of_find?_eq_some hfind)
    rw [Option.map_some]
    by_cases htype : (h.handler.eventType.name == type) = true
    · rw [if_pos htype]
      simp only
      cases h.handler.eventType.decode e.payload.body with
      | error reason => rfl
      | ok event =>
        have hne : d.entryId ≠ (DispatchContext.of e).entryId := hne
        have hfilter : (h.deliveries ++ [d]).filter (fun d => d.entryId = (DispatchContext.of e).entryId) =
            h.deliveries.filter fun d => d.entryId = (DispatchContext.of e).entryId := by
          rw [List.filter_append, List.filter_cons_of_neg (by simpa using hne), List.filter_nil,
            List.append_nil]
        simp only
        rw [hlocal.own, hfilter, ← hlocal.own]
    · rw [if_neg htype]

/-- The effects of a handler that answers. -/
theorem IsLocal.prepare (hr : r.IsLocal) {activity : Activity} (hprepare : r.prepare e = .ok activity) :
    ∀ effect ∈ activity.effects, effect.IsOwn e.id := by
  unfold Registry.prepare at hprepare
  split at hprepare
  · cases hprepare
  · rename_i h hfind
    split at hprepare
    · cases hprepare
    · cases hprepare
      exact (hr h (List.mem_of_find?_eq_some hfind)).effects _ _ _

end Registry

/-- What decides what becomes of claims. -/
structure Setting where
  registry : Registry
  policy : RetryPolicy
  /-- The time by which retries are scheduled. -/
  retryTime : Timestamp
  /-- The time of the store. -/
  storeTime : Timestamp

namespace Setting

variable {g : Setting} {e : Entry}

/-- How an attempt with a claim ends. -/
def outcome (g : Setting) (e : Entry) : DispatchOutcome :=
  match g.registry.prepare e with
  | .ok activity => activity.result.outcome e.payload.eventType
  | .error outcome => outcome

/-- The record that is to replace a claim. -/
def record? (g : Setting) (e : Entry) : Option Entry :=
  (g.outcome e).nextEntry g.policy some e g.retryTime

/-- The entry of a claim after the attempt. -/
def resolution (g : Setting) (e : Entry) : Entry :=
  match g.record? e with
  | some next => Store.resolved e next g.storeTime
  | none => e

/-- How the attempt is booked. -/
def verdict (g : Setting) (e : Entry) : Verdict :=
  match g.record? e with
  | some next => Attempt.verdict next (g.outcome e)
  | none => .uncounted

theorem id_resolution (g : Setting) (e : Entry) : (g.resolution e).id = e.id := by
  unfold resolution
  split <;> rfl

end Setting

namespace Store

variable {s : Store} {g : Setting} {l : List Entry} {e next : Entry}

/-- A store in which these claims are resolved. -/
def resolving (s : Store) (g : Setting) (l : List Entry) : Store :=
  { s with live := s.live.map fun e => if e ∈ l then g.resolution e else e }

theorem resolving_nil (s : Store) (g : Setting) : s.resolving g [] = s := by
  simp [resolving]

theorem resolving_congr {l' : List Entry} (h : ∀ e, e ∈ l ↔ e ∈ l') : s.resolving g l = s.resolving g l' := by
  simp only [resolving, h]

/-- An update of a claim that was not resolved yet. -/
theorem update_resolving (hs : s.IsWellFormed) (hleft : s.failuresLeft = 0) (he : e ∈ s.live)
    (hstate : e.state = .inProcessing) (hnew : e ∉ l) (hnext : g.record? e = some next) :
    (s.resolving g l).update e next g.storeTime = (.ok (), s.resolving g (e :: l)) := by
  have hid (d : Entry) : (if d ∈ l then g.resolution d else d).id = d.id := by
    split
    · exact g.id_resolution d
    · rfl
  have hfind : Store.liveEntry? (s.resolving g l) e.id = some e := by
    have hfirst : s.live.find? (fun d => d.id == e.id) = some e :=
      find?_of_nodup_map (f := Entry.id) hs.nodup_ids_live he
    rw [Store.liveEntry?, resolving, List.find?_map]
    simp only [Function.comp_def, hid, hfirst, Option.map_some, hnew, if_false]
  have hmove : e.state.canMoveTo next.state = true := by
    rw [hstate]
    exact DispatchOutcome.canMoveTo_nextEntry hnext
  have hsame : isSameClaim e e = true := by simp [isSameClaim, hstate]
  have hresolution : resolved e next g.storeTime = g.resolution e := by rw [Setting.resolution, hnext]
  rw [update_of_held (show (s.resolving g l).failuresLeft = 0 from hleft) hfind hsame hmove]
  refine congrArg (Prod.mk _) ?_
  simp only [replace, resolving, List.map_map, hresolution]
  refine congrArg (fun live => { s with live }) (List.map_congr_left fun d hd => ?_)
  simp only [Function.comp_apply, hid, g.id_resolution, List.mem_cons]
  by_cases hde : d.id = e.id
  · obtain rfl := hs.eq_of_id_eq (List.mem_append_left _ hd) (List.mem_append_left _ he) hde
    simp
  · have hne : d ≠ e := fun heq => hde (heq ▸ rfl)
    simp [hde, hne]

end Store

end DurableQueue
