import DurableQueue.Proofs.Dispatch.BusChange
import DurableQueue.Proofs.Dispatch.Foreground

/-!
Runs in which no attempt is cut off.

Two things cut an attempt off: workers are made to stop, and the record of an attempt cannot be built because
its delay cannot be drawn. So a run cuts nothing off if no shutdown makes workers stop and jitter is drawn for
all delays up to a longest one, beyond which no policy goes (`Bus.WaitsUpTo.cutsNothingOff`).
-/

namespace DurableQueue

/-- After its handler an attempt goes on to store its record, as long as jitter is drawn for the delays of the
policy. -/
theorem Attempt.step?_judged {draw : Draw} {n : Node}
    (hdraw : draw.AnswersUpTo n.config.retryPolicy.maxBackoff) (h : Hub) (e : Entry)
    (outcome : DispatchOutcome) :
    ∃ next, (judged e outcome).step? draw h n = some (.going (.storing e next outcome), h, n) := by
  have hbuilt : outcome.nextEntry n.config.retryPolicy draw e (n.time h) ≠ none :=
    DispatchOutcome.nextEntry_ne_none hdraw
  obtain ⟨next, hnext⟩ := Option.ne_none_iff_exists'.mp hbuilt
  exact ⟨next, by rw [step?, hnext]⟩

theorem Attempt.eq_judged_of_open {a : Attempt} {e : Entry} {outcome : DispatchOutcome}
    (h : a.open? = some (.judged e outcome)) : a = .judged e outcome := by
  cases a with
  | booking e v => cases h
  | _ => exact Option.some.inj h

theorem Worker.eq_busy_of_judged {w : Worker} {e : Entry} {outcome : DispatchOutcome}
    (h : w.attempt? = some (.judged e outcome)) : w = .busy (.judged e outcome) := by
  cases w with
  | busy a => rw [Attempt.eq_judged_of_open h]
  | _ => cases h

theorem Call.eq_process_of_judged {c : Call} {e : Entry} {outcome : DispatchOutcome}
    (h : c.attempt? = some (.judged e outcome)) :
    ∃ node count rest, c = .process node (.attempting count (.judged e outcome) rest) := by
  cases c with
  | process node stage =>
    cases stage with
    | attempting count a rest => exact ⟨node, count, rest, by rw [Attempt.eq_judged_of_open h]⟩
    | _ => cases h
  | _ => cases h

theorem Node.Begins.config_eq {h h' : Hub} {n n' : Node} (hbegins : n.Begins h h' n') :
    n'.config = n.config := by
  cases hbegins <;> rfl

namespace Bus

variable {b : Bus} {x : BusAction} {longest : Span} {draw : Nat → Draw} {e : Entry}
  {outcome : DispatchOutcome}

/-- No dispatcher waits longer after a failure. -/
def WaitsUpTo (longest : Span) (b : Bus) : Prop :=
  ∀ (k : Nat) (n : Node), b.nodes[k]? = some n → n.config.retryPolicy.maxBackoff ≤ longest

theorem waitsUpTo_startingAt (longest : Span) (start : Timestamp) : (startingAt start).WaitsUpTo longest :=
  fun k n hk => by simp [startingAt] at hk

/-- A dispatcher keeps its policy. -/
theorem WaitsUpTo.act (hb : b.WaitsUpTo longest) (hx : x.DrawsUpTo longest) :
    (b.act x).WaitsUpTo longest := by
  intro k n' hk'
  cases hk : b.nodes[k]? with
  | none =>
    obtain ⟨id, config, registry, clock, isAttached, rfl, rfl⟩ := (b.change_act x).new_node hk hk'
    exact hx
  | some n =>
    obtain ⟨n₁, hn₁, hat⟩ := (b.change_act x).at_node hk
    obtain rfl := Option.some.inj (hn₁.symm.trans hk')
    have hconfig : n₁.config = n.config := by
      cases hat with
      | step step => exact step.config_eq
      | begins asked begins => exact begins.config_eq
      | elsewhere elsewhere => rfl
    exact hconfig ▸ hb k n hk

/-- A worker whose handler has ended goes on to store its record. -/
theorem attempt?_worker_of_judged {node i : Nat} (hb : b.WaitsUpTo longest)
    (hdraw : (draw node).AnswersUpTo longest)
    (hjudged : (BusTask.worker node i).attempt? b = some (.judged e outcome)) :
    ∃ a, (BusTask.worker node i).attempt? (b.act (.task (.worker node i) draw)) = some a := by
  obtain ⟨n, hn, hattempt⟩ := Option.bind_eq_some_iff.mp hjudged
  obtain ⟨w, hw, hbusy⟩ := Option.bind_eq_some_iff.mp hattempt
  obtain rfl := Worker.eq_busy_of_judged hbusy
  obtain ⟨next, hstep⟩ := Attempt.step?_judged (hdraw.mono (hb node n hn)) b.hub e outcome
  have hworker : Worker.step? (draw node) b.hub n i =
      some (b.hub, n.withWorker i (.busy (.storing e next outcome))) := by
    simp [Worker.step?, hw, hstep]
  have hlt := (List.getElem?_eq_some_iff.mp hw).1
  refine ⟨.storing e next outcome, ?_⟩
  simp [act, step?, onNode?, hn, hworker, BusTask.attempt?, getElem?_set_of_some hn, Node.attempt?,
    Node.withWorker, hlt, Worker.attempt?, Attempt.open?]

/-- A batch whose handler has ended goes on to store its record. -/
theorem attempt?_call_of_judged {i : Nat} (hb : b.WaitsUpTo longest)
    (hdraw : ∀ k, (draw k).AnswersUpTo longest)
    (hjudged : (BusTask.call i).attempt? b = some (.judged e outcome)) :
    ∃ a, (BusTask.call i).attempt? (b.act (.task (.call i) draw)) = some a := by
  obtain ⟨c, hc, hattempt⟩ := Option.bind_eq_some_iff.mp hjudged
  obtain ⟨node, count, rest, rfl⟩ := Call.eq_process_of_judged hattempt
  cases hn : b.nodes[node]? with
  | none =>
    refine ⟨.judged e outcome, ?_⟩
    simp [act, step?, hc, stepCall?, hn, hjudged]
  | some n =>
    obtain ⟨next, hstep⟩ := Attempt.step?_judged ((hdraw node).mono (hb node n hn)) b.hub e outcome
    refine ⟨.storing e next outcome, ?_⟩
    simp [act, step?, hc, stepCall?, hn, ProcessStage.step?, hstep, BusTask.attempt?, getElem?_set_of_some hc,
      Call.attempt?, ProcessStage.attempt?, Attempt.open?]

/-- A step that makes no workers stop cuts nothing off. -/
theorem WaitsUpTo.not_cutsOff (hb : b.WaitsUpTo longest) (hx : x.DrawsUpTo longest)
    (haborts : b.aborts x = false) : ¬ b.CutsOff x := by
  intro hcut
  cases x with
  | task t draw =>
    rcases hcut with habort | ⟨⟨e, outcome, hjudged⟩, hnone⟩
    · exact absurd (haborts.symm.trans habort) Bool.false_ne_true
    · have hgoes : ∃ a, t.attempt? (b.act (.task t draw)) = some a := by
        cases t with
        | worker node i => exact attempt?_worker_of_judged hb (hx node) hjudged
        | call i => exact attempt?_call_of_judged hb hx hjudged
        | _ => cases hjudged
      obtain ⟨a, ha⟩ := hgoes
      exact nomatch hnone.symm.trans ha
  | _ => exact hcut

/-- While jitter is drawn for all delays, and no workers are made to stop, a run cuts nothing off. -/
theorem WaitsUpTo.cutsNothingOff (hb : b.WaitsUpTo longest) {actions : List BusAction}
    (hdraws : ∀ x ∈ actions, x.DrawsUpTo longest) (haborts : b.abortsNothing actions = true) :
    b.CutsNothingOff actions := by
  induction actions generalizing b with
  | nil => trivial
  | cons x rest ih =>
    obtain ⟨hx, hdraws⟩ := List.forall_mem_cons.mp hdraws
    simp only [abortsNothing, Bool.and_eq_true, Bool.not_eq_true'] at haborts
    exact ⟨hb.not_cutsOff hx haborts.1, ih (hb.act hx) hdraws haborts.2⟩

end Bus

end DurableQueue
