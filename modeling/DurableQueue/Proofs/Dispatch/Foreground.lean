import DurableQueue.Proofs.Dispatch.Ledger
import DurableQueue.Proofs.Retry.Backoff

/-!
Actions in the foreground are postings.

`Attempt.Step` is what a step of an attempt does to the store and to the tally of its dispatcher. From it
and the stages of a call it follows that every action in the foreground is a `Posting` that tells what the
action tells (`Bus.posting_act`).
-/

namespace DurableQueue

variable {u : Conduct}

theorem Store.Operated.apply {s : Store} {op : StoreOp} {now : Timestamp}
    (h : u.leavesUpdates → op.isUpdate = false) : s.Operated u (s.apply op now).2 :=
  .inr ⟨op, now, h, rfl⟩

/-- Jitter that adds nothing is always drawn. -/
theorem Draw.answersUpTo_some (longest : Span) : AnswersUpTo (fun s => some s) longest := fun _ _ => nofun

theorem Draw.AnswersUpTo.mono {draw : Draw} {short long : Span} (h : draw.AnswersUpTo long)
    (hle : short ≤ long) : draw.AnswersUpTo short :=
  fun s hs => h s (Nat.le_trans hs hle)

/-- As long as jitter is drawn for the delays of a policy, every outcome leads to a record. -/
theorem DispatchOutcome.nextEntry_ne_none {outcome : DispatchOutcome} {policy : RetryPolicy}
    {draw : Draw} {claim : Entry} {now : Timestamp} (h : draw.AnswersUpTo policy.maxBackoff) :
    outcome.nextEntry policy draw claim now ≠ none := by
  cases outcome with
  | handlerFailed detail =>
    have hdraw := h _ (policy.backoff_le (countFailure claim.errorCount))
    rw [nextEntry, RetryPolicy.decide, RetryPolicy.delay]
    intro hnone
    rw [Option.map_eq_none_iff] at hnone
    split at hnone
    · cases hnone
    · rw [Option.map_eq_none_iff] at hnone
      split at hnone
      · cases hnone
      · exact hdraw (Option.map_eq_none_iff.mp hnone)
  | _ =>
    intro hnone
    cases hnone

namespace Node

variable {n : Node}

theorem IsForeground.count (h : n.IsForeground u) (f : DispatchStats → DispatchStats) :
    (n.count f).IsForeground u :=
  ⟨h.workers, h.claimLoop, h.reaper, h.registry, h.backoff⟩

theorem IsForeground.cancel (h : n.IsForeground u) : n.cancel.IsForeground u :=
  ⟨h.workers, h.claimLoop, h.reaper, h.registry, h.backoff⟩

theorem IsForeground.unstarted {id : NodeId} {config : DispatchConfig} {registry : Registry}
    {clock : NodeClock} {isAttached : Bool}
    (h : (BusAction.add id config registry clock isAttached).Follows u) :
    (unstarted id config registry clock isAttached).IsForeground u where
  workers := rfl
  claimLoop := rfl
  reaper := rfl
  registry r hr deliveries event context effect heffect hleaves :=
    h.leavesUpdates hleaves r hr deliveries event context effect heffect
  backoff := h.drawsUpTo

end Node

namespace DispatchStats

theorem tally_book (s : DispatchStats) (v : Verdict) : (s.book v).tally = s.tally.book v := by
  cases v <;> rfl

theorem inFlight_book (s : DispatchStats) (v : Verdict) : (s.book v).inFlight = s.inFlight := by
  cases v <;> rfl

end DispatchStats

namespace Attempt

variable {h h' : Hub} {n n' : Node} {a : Attempt} {p : Progress} {draw : Draw}

/-- What a step of an attempt does to the store and to the tally of its dispatcher. -/
inductive Step (u : Conduct) (now : Timestamp) (s : Store) (d : DispatchStats) :
    Attempt → Progress → Store → DispatchStats → Prop where
  | went {a a' : Attempt} {s' : Store} (opened : a.open? = some a) (opened' : a'.open? = some a')
    (fair : a'.IsFair u) (entry : a'.entry = a.entry) (operated : s.Operated u s') :
    Step u now s d a (.going a') s' d
  | answered {e next : Entry} {outcome : DispatchOutcome} (hnext : next.IsAnswerTo e outcome) :
    Step u now s d (.storing e next outcome)
      (.going (.booking e (verdictOn next outcome (s.update e next now).1))) (s.update e next now).2 d
  | counted (e : Entry) (v : Verdict) :
    Step u now s d (.booking e v) .finished s { d.book v with inFlight := d.inFlight - 1 }
  | brokeDown {a : Attempt} (opened : a.open? = some a) (unknown : u.longest = none) :
    Step u now s d a .brokeDown s { d with inFlight := d.inFlight - 1 }

theorem Step.isFair {now : Timestamp} {s s' : Store} {d d' : DispatchStats} {a a' : Attempt}
    (h : Step u now s d a (.going a') s' d') : a'.IsFair u := by
  cases h with
  | went _ _ fair _ _ => exact fair
  | answered => trivial

theorem begin_foreground (hn : n.IsForeground u) (e : Entry) :
    (begin_ n e).1.open? = some (begin_ n e).1 ∧ (begin_ n e).1.entry = e ∧
      (begin_ n e).1.IsFair u ∧ (begin_ n e).2.IsForeground u ∧
      (begin_ n e).2.stats.tally = { n.stats.tally with inFlight := n.stats.inFlight + 1 } := by
  have hcount := hn.count fun s => { s with inFlight := s.inFlight + 1 }
  unfold begin_
  simp only
  split
  · rename_i activity hprepare
    exact ⟨rfl, rfl, Registry.Does.prepare hn.registry hprepare, hcount, rfl⟩
  · exact ⟨rfl, rfl, trivial, hcount, rfl⟩

theorem perform_foreground (hn : n.IsForeground u) (hunbroken : h.breakdowns = ⟨0, 0, 0⟩)
    {effect : Effect} (heffect : u.leavesUpdates → effect.LeavesUpdates) (e : Entry) :
    h.store.Operated u (perform h n e effect).1.store ∧
      (perform h n e effect).1.breakdowns = ⟨0, 0, 0⟩ ∧
      (perform h n e effect).2.IsForeground u := by
  cases effect with
  | note note => exact ⟨.inl rfl, hunbroken, hn⟩
  | sleep span => exact ⟨.inl rfl, hunbroken, hn⟩
  | remember d =>
    have hregistry := Registry.Does.remember hn.registry e.payload.eventType d
    exact ⟨.inl rfl, hunbroken, hn.workers, hn.claimLoop, hn.reaper, hregistry, hn.backoff⟩
  | operate op =>
    refine ⟨?_, (h.breakdowns_operate op).trans hunbroken, hn⟩
    rw [perform, h.store_operate]
    exact .apply heffect

theorem step_foreground (hn : n.IsForeground u) (hunbroken : h.breakdowns = ⟨0, 0, 0⟩)
    (ha : a.IsFair u) (hdraw : ∀ longest ∈ u.longest, draw.AnswersUpTo longest)
    (hstep : a.step? draw h n = some (p, h', n')) :
    Step u h.time h.store n.stats.tally a p h'.store n'.stats.tally ∧ n'.IsForeground u ∧
      h'.breakdowns = ⟨0, 0, 0⟩ := by
  cases a with
  | handling e effects result =>
    have heffects : ∀ effect ∈ effects, u.leavesUpdates → effect.LeavesUpdates := ha
    cases effects with
    | nil =>
      cases hstep
      exact ⟨.went rfl rfl trivial rfl (.inl rfl), hn, hunbroken⟩
    | cons effect rest =>
      obtain ⟨heffect, hrest⟩ := List.forall_mem_cons.mp heffects
      obtain ⟨hoperated, hunbroken', hn'⟩ := perform_foreground hn hunbroken heffect e
      cases effect with
      | sleep span =>
        cases hstep
        exact ⟨.went rfl rfl hrest rfl (.inl rfl), hn, hunbroken⟩
      | _ =>
        cases hstep
        exact ⟨.went rfl rfl hrest rfl hoperated, hn', hunbroken'⟩
  | sleeping e wakeAt effects result =>
    simp only [step?] at hstep
    split at hstep
    · cases hstep
      have hfair : (handling e effects result).IsFair u := ha
      exact ⟨.went rfl rfl hfair rfl (.inl rfl), hn, hunbroken⟩
    · cases hstep
  | judged e outcome =>
    simp only [step?] at hstep
    split at hstep
    · rename_i next hnext
      cases hstep
      exact ⟨.went rfl rfl ⟨_, _, _, hnext⟩ rfl (.inl rfl), hn, hunbroken⟩
    · rename_i hnone
      cases hstep
      refine ⟨.brokeDown rfl ?_, hn.count _, hunbroken⟩
      cases hlongest : u.longest with
      | none => rfl
      | some longest =>
        have hanswers := (hdraw longest hlongest).mono (hn.backoff longest hlongest)
        exact absurd hnone (DispatchOutcome.nextEntry_ne_none hanswers)
  | storing e next outcome =>
    simp only [step?, store, hunbroken] at hstep
    cases hstep
    exact ⟨.answered ha, hn, rfl⟩
  | booking e v =>
    cases hstep
    refine ⟨?_, (hn.count _).count _, hunbroken⟩
    have hcounted : Step u h.time h.store n.stats.tally (.booking e v) .finished h.store
        { n.stats.tally.book v with inFlight := n.stats.inFlight - 1 } := .counted e v
    rw [← DispatchStats.tally_book] at hcounted
    simp only [leave, Node.count]
    rw [DispatchStats.inFlight_book]
    exact hcounted

end Attempt

namespace Bus

variable {b b' : Bus} {i k : Nat} {c c' : Call} {n n' : Node} {h' : Hub}

/-- The tallies of dispatchers. -/
def talliesOf (ns : List Node) : List DispatchStats := ns.map fun n => n.stats.tally

theorem getElem?_talliesOf {ns : List Node} (hk : ns[k]? = some n) :
    (talliesOf ns)[k]? = some n.stats.tally := by
  rw [talliesOf, List.getElem?_map, hk, Option.map_some]

theorem talliesOf_set (ns : List Node) (k : Nat) (n' : Node) :
    talliesOf (ns.set k n') = (talliesOf ns).set k n'.stats.tally :=
  List.map_set

/-- A dispatcher that changes otherwise keeps its tally. -/
theorem talliesOf_set_of_eq {ns : List Node} (hk : ns[k]? = some n)
    (htally : n'.stats.tally = n.stats.tally) : talliesOf (ns.set k n') = talliesOf ns := by
  rw [talliesOf_set, htally, set_of_getElem? (getElem?_talliesOf hk)]

theorem talliesOf_modify (ns : List Node) (k : Nat) {f : Node → Node}
    (hf : ∀ n, (f n).stats.tally = n.stats.tally) : talliesOf (ns.modify k f) = talliesOf ns := by
  rw [List.modify_eq_set_getElem?]
  cases hk : ns[k]? with
  | none => rfl
  | some n => exact talliesOf_set_of_eq hk (hf n)

namespace IsForeground

theorem node (hb : b.IsForeground u) (hk : b.nodes[k]? = some n) : n.IsForeground u :=
  hb.nodes n (List.mem_of_getElem? hk)

theorem attempting (hb : b.IsForeground u) {count : Nat} {a : Attempt} {rest : List Entry}
    (hi : b.calls[i]? = some (.process k (.attempting count a rest))) : a.IsFair u :=
  hb.calls _ (List.mem_of_getElem? hi) a rfl

end IsForeground

/-- What becomes of a call that processes a batch. -/
def afterStage (k : Nat) : ProcessStage ⊕ CallResult → Call
  | .inl stage => .process k stage
  | .inr r => .over r

/-- What becomes of a call whose attempt took a step. -/
def afterAttempt (k count : Nat) (rest : List Entry) : Progress → Call
  | .going a => .process k (.attempting count a rest)
  | .finished => .process k (.between count rest)
  | .brokeDown => .over .panicked

/-- A step of an attempt is a posting. -/
theorem posting_attempt {ds : List DispatchStats} {cs : List Call} {s s' : Store} {now : Timestamp}
    {d d' : DispatchStats} {a : Attempt} {p : Progress} {count : Nat} {rest : List Entry}
    (hi : cs[i]? = some (.process k (.attempting count a rest))) (hk : ds[k]? = some d)
    (hgoes : Attempt.Step u now s d a p s' d') :
    Posting u ⟨ds, cs, s⟩
      ((Call.process k (.attempting count a rest)).tells i now s s' (afterAttempt k count rest p))
      ⟨ds.set k d', cs.set i (afterAttempt k count rest p), s'⟩ := by
  cases hgoes with
  | @went _ a' _ opened opened' _ entry operated =>
    have htells : (Call.process k (.attempting count a rest)).tells i now s s'
        (.process k (.attempting count a' rest)) = [] := by
      cases a with
      | booking e v => cases opened
      | storing e next outcome =>
        cases a' with
        | booking e v => cases opened'
        | _ => rfl
      | _ => rfl
    rw [afterAttempt, htells, set_of_getElem? hk]
    exact .went ds hi opened opened' entry operated
  | answered hnext =>
    rw [set_of_getElem? hk]
    exact .answered ds s now hi hnext
  | counted e v => exact .counted s hi hk
  | brokeDown opened unknown =>
    have htells : (Call.process k (.attempting count a rest)).tells i now s s (.over .panicked) =
        [.brokeDown i k (a.entry :: rest)] := by
      cases a <;> rfl
    rw [afterAttempt, htells]
    exact .brokeDown s hi hk opened unknown

/-- A bus after a step of a call. -/
def afterCall (b : Bus) (h : Hub) (k : Nat) (n : Node) (i : Nat) (c : Call) : Bus :=
  { b with hub := h, nodes := b.nodes.set k n, calls := b.calls.set i c }

theorem books_afterCall (b : Bus) (h : Hub) (k : Nat) (n : Node) (i : Nat) (c : Call) :
    (b.afterCall h k n i c).books =
      ⟨(talliesOf b.nodes).set k n.stats.tally, b.calls.set i c, h.store⟩ := by
  rw [books, afterCall, ← talliesOf, talliesOf_set]

theorem IsForeground.afterCall (hb : b.IsForeground u) (hn : n'.IsForeground u)
    (hunbroken : h'.breakdowns = ⟨0, 0, 0⟩) (hc : ∀ a, c.attempting? = some a → a.IsFair u)
    (k i : Nat) : (b.afterCall h' k n' i c).IsForeground u :=
  ⟨forall_mem_set hb.nodes hn k, forall_mem_set hb.calls hc i, hunbroken⟩

theorem isFair_of_none (hc : c.attempting? = none) : ∀ a, c.attempting? = some a → a.IsFair u := by
  intro a ha
  rw [hc] at ha
  cases ha

/-- A call without claims in hand that goes on. -/
theorem posting_quiet (hi : b.calls[i]? = some c) (hc : c.isQuiet = true) (hc' : c'.isQuiet = true)
    (hnode : c'.node? = none) (hk : b.nodes[k]? = some n) (htally : n'.stats.tally = n.stats.tally)
    (hstore : b.hub.store.Operated u h'.store) :
    Posting u b.books [] (b.afterCall h' k n' i c').books := by
  rw [books_afterCall, htally, set_of_getElem? (getElem?_talliesOf hk)]
  exact .quiet _ hi hc hc' hnode hstore

theorem posting_claiming (hb : b.IsForeground u) {draw : Draw} {next : ProcessStage ⊕ CallResult}
    (hi : b.calls[i]? = some (.process k .claiming)) (hk : b.nodes[k]? = some n)
    (hstep : ProcessStage.step? draw b.hub n .claiming = some (next, h', n')) :
    Posting u b.books
        ((Call.process k .claiming).tells i b.hub.time b.hub.store h'.store (afterStage k next))
        (b.afterCall h' k n' i (afterStage k next)).books ∧
      (b.afterCall h' k n' i (afterStage k next)).IsForeground u := by
  have hn := hb.node hk
  have hoperated : b.hub.store.Operated u
      (n.claims.claim b.hub.store n.config.maxEntriesClaimed b.hub.time).2 := by
    rw [ClaimManager.snd_claim]
    exact .apply fun _ => rfl
  simp only [ProcessStage.step?, hb.unbroken] at hstep
  rcases hclaim : n.claims.claim b.hub.store n.config.maxEntriesClaimed b.hub.time with ⟨e | es, s⟩
  · rw [hclaim] at hstep hoperated
    cases hstep
    exact ⟨posting_quiet hi rfl rfl rfl hk rfl hoperated,
      hb.afterCall hn rfl (isFair_of_none rfl) k i⟩
  · rw [hclaim] at hstep hoperated
    cases hstep
    refine ⟨?_, hb.afterCall (hn.count _) rfl (isFair_of_none rfl) k i⟩
    rw [books_afterCall]
    exact .claimed es hi (getElem?_talliesOf hk) hoperated

theorem posting_between (hb : b.IsForeground u) {draw : Draw} {next : ProcessStage ⊕ CallResult}
    {count : Nat} {es : List Entry} (hi : b.calls[i]? = some (.process k (.between count es)))
    (hk : b.nodes[k]? = some n)
    (hstep : ProcessStage.step? draw b.hub n (.between count es) = some (next, h', n')) :
    Posting u b.books
        ((Call.process k (.between count es)).tells i b.hub.time b.hub.store h'.store
          (afterStage k next))
        (b.afterCall h' k n' i (afterStage k next)).books ∧
      (b.afterCall h' k n' i (afterStage k next)).IsForeground u := by
  have hn := hb.node hk
  cases es with
  | nil =>
    cases hstep
    exact ⟨posting_quiet hi rfl rfl rfl hk rfl (.inl rfl),
      hb.afterCall hn hb.unbroken (isFair_of_none rfl) k i⟩
  | cons e rest =>
    obtain ⟨hopen, hentry, hfair, hforeground, htally⟩ := Attempt.begin_foreground hn e
    simp only [ProcessStage.step?] at hstep
    generalize Attempt.begin_ n e = begun at *
    obtain ⟨rfl, heq⟩ := Prod.mk.inj (Option.some.inj hstep)
    obtain ⟨rfl, rfl⟩ := Prod.mk.inj heq
    subst hentry
    have hcall : ∀ a, (Call.process k (.attempting count begun.1 rest)).attempting? = some a →
        a.IsFair u := fun a ha => Option.some.inj ha ▸ hfair
    refine ⟨?_, hb.afterCall hforeground hb.unbroken hcall k i⟩
    rw [books_afterCall, htally]
    exact .begun _ hi (getElem?_talliesOf hk) hopen

theorem posting_attempting (hb : b.IsForeground u) {draw : Draw}
    (hdraw : ∀ longest ∈ u.longest, draw.AnswersUpTo longest)
    {next : ProcessStage ⊕ CallResult} {count : Nat} {a : Attempt} {rest : List Entry}
    (hi : b.calls[i]? = some (.process k (.attempting count a rest))) (hk : b.nodes[k]? = some n)
    (hstep : ProcessStage.step? draw b.hub n (.attempting count a rest) = some (next, h', n')) :
    Posting u b.books
        ((Call.process k (.attempting count a rest)).tells i b.hub.time b.hub.store h'.store
          (afterStage k next))
        (b.afterCall h' k n' i (afterStage k next)).books ∧
      (b.afterCall h' k n' i (afterStage k next)).IsForeground u := by
  obtain ⟨⟨p, h₁, n₁⟩, hattempt, heq⟩ := Option.map_eq_some_iff.mp hstep
  obtain ⟨hgoes, hn', hunbroken⟩ :=
    Attempt.step_foreground (hb.node hk) hb.unbroken (hb.attempting hi) hdraw hattempt
  have hposting := posting_attempt hi (getElem?_talliesOf hk) hgoes
  have hcall : ∀ a', (afterAttempt k count rest p).attempting? = some a' → a'.IsFair u := by
    cases p with
    | going a' => exact fun _ ha => Option.some.inj ha ▸ hgoes.isFair
    | _ => exact isFair_of_none rfl
  obtain ⟨hnext, rfl, rfl⟩ : afterStage k next = afterAttempt k count rest p ∧ h₁ = h' ∧ n₁ = n' := by
    cases p <;> cases heq <;> exact ⟨rfl, rfl, rfl⟩
  rw [books_afterCall, hnext]
  exact ⟨hposting, hb.afterCall hn' hunbroken hcall k i⟩

theorem posting_process (hb : b.IsForeground u) {draw : Draw}
    (hdraw : ∀ longest ∈ u.longest, draw.AnswersUpTo longest)
    {next : ProcessStage ⊕ CallResult} {stage : ProcessStage}
    (hi : b.calls[i]? = some (.process k stage)) (hk : b.nodes[k]? = some n)
    (hstep : stage.step? draw b.hub n = some (next, h', n')) :
    Posting u b.books
        ((Call.process k stage).tells i b.hub.time b.hub.store h'.store (afterStage k next))
        (b.afterCall h' k n' i (afterStage k next)).books ∧
      (b.afterCall h' k n' i (afterStage k next)).IsForeground u := by
  cases stage with
  | claiming => exact posting_claiming hb hi hk hstep
  | between count es => exact posting_between hb hi hk hstep
  | attempting count a rest => exact posting_attempting hb hdraw hi hk hstep

/-- A shutdown finds no tasks, and hands back the claims. -/
theorem posting_shutdown (hb : b.IsForeground u) {stage : ShutdownStage}
    {next : ShutdownStage ⊕ CallResult} (hi : b.calls[i]? = some (.shutdown k stage))
    (hk : b.nodes[k]? = some n) (hstep : stage.step? b.hub n = some (next, h', n')) :
    next ≠ .inr .panicked ∧ b.hub.store.Operated u h'.store ∧
      h'.breakdowns = ⟨0, 0, 0⟩ ∧ n'.IsForeground u ∧ n'.stats.tally = n.stats.tally := by
  have hn := hb.node hk
  cases stage with
  | joining deadline =>
    have hover : n.isBackgroundOver = true := by
      simp [Node.isBackgroundOver, Node.isQueueClosed, hn.claimLoop, hn.reaper]
    simp only [ShutdownStage.step?, hover, ↓reduceIte] at hstep
    cases hstep
    exact ⟨nofun, .inl rfl, hb.unbroken, hn, rfl⟩
  | finishing deadline timedOut =>
    have hover : n.areWorkersOver = true := by simp [Node.areWorkersOver, hn.workers]
    simp only [ShutdownStage.step?, hover, ↓reduceIte] at hstep
    cases hstep
    exact ⟨nofun, .inl rfl, hb.unbroken, hn.count _, rfl⟩
  | releasing again timedOut =>
    have happly : (b.hub.store.release n.id b.hub.time).2 =
        (b.hub.store.apply (.release n.id) b.hub.time).2 := (Store.Outcome.snd_map _ _).symm
    have hoperated : b.hub.store.Operated u (b.hub.store.release n.id b.hub.time).2 := by
      rw [happly]
      exact .apply fun _ => rfl
    simp only [ShutdownStage.step?] at hstep
    rcases hrelease : b.hub.store.release n.id b.hub.time with ⟨e | es, s⟩
    · rw [hrelease] at hstep hoperated
      simp only at hstep
      split at hstep
      · cases hstep
        exact ⟨nofun, hoperated, hb.unbroken, hn, rfl⟩
      · cases hstep
        exact ⟨nofun, hoperated, hb.unbroken, hn, rfl⟩
    · rw [hrelease] at hstep hoperated
      cases hstep
      refine ⟨?_, hoperated, hb.unbroken, hn, rfl⟩
      rw [ShutdownStage.result]
      split
      · exact nofun
      · exact nofun

theorem getElem?_afterCall (hi : b.calls[i]? = some c) (h' : Hub) (k : Nat) (n' : Node) (c' : Call) :
    (b.afterCall h' k n' i c').calls[i]? = some c' :=
  getElem?_set_of_some hi c'

theorem posting_stepCall? (hb : b.IsForeground u) {draw : Draw}
    (hdraw : ∀ longest ∈ u.longest, draw.AnswersUpTo longest) (hi : b.calls[i]? = some c)
    (hstep : b.stepCall? draw i = some b') :
    ∃ c', b'.calls[i]? = some c' ∧
      Posting u b.books (c.tells i b.hub.time b.hub.store b'.hub.store c') b'.books ∧
      b'.IsForeground u := by
  simp only [stepCall?, hi, bind, Option.bind_some] at hstep
  cases c with
  | process k stage =>
    obtain ⟨n, hk, hstep⟩ := Option.bind_eq_some_iff.mp hstep
    obtain ⟨⟨next, h', n'⟩, hstage, heq⟩ := Option.bind_eq_some_iff.mp hstep
    have hposting := posting_process hb hdraw hi hk hstage
    have hafter : b.afterCall h' k n' i (afterStage k next) = b' := by
      cases next with
      | inl stage' => exact Option.some.inj heq
      | inr r => exact Option.some.inj heq
    rw [← hafter]
    exact ⟨_, getElem?_afterCall hi _ _ _ _, hposting⟩
  | shutdown k stage =>
    obtain ⟨n, hk, hstep⟩ := Option.bind_eq_some_iff.mp hstep
    obtain ⟨⟨next, h', n'⟩, hstage, heq⟩ := Option.bind_eq_some_iff.mp hstep
    obtain ⟨hnext, hoperated, hunbroken, hn', htally⟩ := posting_shutdown hb hi hk hstage
    cases next with
    | inl stage' =>
      have hafter : b.afterCall h' k n' i (.shutdown k stage') = b' := Option.some.inj heq
      rw [← hafter]
      exact ⟨_, getElem?_afterCall hi _ _ _ _, posting_quiet hi rfl rfl rfl hk htally hoperated,
        hb.afterCall hn' hunbroken (isFair_of_none rfl) k i⟩
    | inr r =>
      have hafter : b.afterCall h' k n' i (.over r) = b' := Option.some.inj heq
      have hquiet : (Call.over r).isQuiet = true :=
        bne_iff_ne.mpr fun hr => hnext (congrArg Sum.inr hr)
      rw [← hafter]
      exact ⟨_, getElem?_afterCall hi _ _ _ _, posting_quiet hi rfl hquiet rfl hk htally hoperated,
        hb.afterCall hn' hunbroken (isFair_of_none rfl) k i⟩
  | _ => cases hstep

/-- Dispatchers without tasks take no steps of their own. -/
theorem step?_of_not_call (hb : b.IsForeground u) {t : BusTask} (ht : ∀ i, t ≠ .call i)
    (draw : Nat → Draw) : (b.step? draw t).getD b = b := by
  cases t with
  | call i => exact absurd rfl (ht i)
  | worker k j =>
    simp only [step?, onNode?]
    cases hk : b.nodes[k]? with
    | none => rfl
    | some n => simp [Worker.step?, (hb.node hk).workers]
  | claimLoop k =>
    simp only [step?, onNode?]
    cases hk : b.nodes[k]? with
    | none => rfl
    | some n => simp [ClaimLoop.step?, (hb.node hk).claimLoop]
  | reaper k =>
    simp only [step?, onNode?]
    cases hk : b.nodes[k]? with
    | none => rfl
    | some n => simp [Reaper.step?, (hb.node hk).reaper]

theorem posting_task (hb : b.IsForeground u) (t : BusTask) {draw : Nat → Draw}
    (hdraw : ∀ longest ∈ u.longest, ∀ k, (draw k).AnswersUpTo longest) :
    Posting u b.books (b.told (.task t draw)) (b.act (.task t draw)).books ∧
      (b.act (.task t draw)).IsForeground u := by
  have hidle : Posting u b.books [] b.books := .operated _ _ (.inl rfl)
  cases t with
  | call i =>
    simp only [told, act]
    cases hi : b.calls[i]? with
    | none =>
      have hnone : b.step? draw (.call i) = none := by
        simp [step?, hi, stepCall?]
      rw [hnone]
      exact ⟨hidle, hb⟩
    | some c =>
      cases hstep : b.step? draw (.call i) with
      | none =>
        simp only [Option.getD_none, hi, Call.tells_self]
        exact ⟨hidle, hb⟩
      | some b' =>
        obtain ⟨j, hcall⟩ : ∃ j, b.stepCall? (draw j) i = some b' := by
          simp only [step?, hi] at hstep
          split at hstep
          · exact ⟨_, hstep⟩
          · exact ⟨_, hstep⟩
        obtain ⟨c', hi', hposting⟩ := posting_stepCall? hb (fun longest hl => hdraw longest hl j) hi hcall
        simp only [Option.getD_some, hi']
        exact hposting
  | worker k j =>
    rw [act, step?_of_not_call hb (fun _ h => by cases h)]
    exact ⟨hidle, hb⟩
  | claimLoop k =>
    rw [act, step?_of_not_call hb (fun _ h => by cases h)]
    exact ⟨hidle, hb⟩
  | reaper k =>
    rw [act, step?_of_not_call hb (fun _ h => by cases h)]
    exact ⟨hidle, hb⟩

/-- A dispatcher that changes something else. -/
theorem foreground_modify (hb : b.IsForeground u) (k : Nat) {f : Node → Node}
    (hf : ∀ n : Node, n.IsForeground u → (f n).IsForeground u)
    (htally : ∀ n : Node, (f n).stats.tally = n.stats.tally) :
    books { b with nodes := b.nodes.modify k f } = b.books ∧
      IsForeground u { b with nodes := b.nodes.modify k f } := by
  refine ⟨congrArg (fun ds => Books.mk ds b.calls b.hub.store) (talliesOf_modify b.nodes k htally), ?_⟩
  refine ⟨?_, hb.calls, hb.unbroken⟩
  rw [List.modify_eq_set_getElem?]
  cases hk : b.nodes[k]? with
  | none => exact hb.nodes
  | some n => exact forall_mem_set hb.nodes (hf n (hb.node hk)) k

theorem foreground_drop (hb : b.IsForeground u) (id : NodeId) :
    (b.drop id).books = b.books ∧ (b.drop id).IsForeground u := by
  unfold drop
  split
  · rename_i i _
    obtain ⟨hbooks, hforeground⟩ := foreground_modify hb i (fun _ hn => hn.cancel) fun _ => rfl
    exact ⟨hbooks, hforeground.nodes, hb.calls, hb.unbroken⟩
  · exact ⟨rfl, hb⟩

theorem posting_add (hb : b.IsForeground u) (hn : n.IsForeground u)
    (hnew : n.stats = .zero) :
    Posting u b.books [] (b.add n).books ∧ (b.add n).IsForeground u := by
  obtain ⟨hbooks, hdrop⟩ := foreground_drop hb n.id
  constructor
  · have hadd : (b.add n).books = ⟨b.books.tallies ++ [.zero], b.books.calls, b.books.store⟩ := by
      rw [← hbooks]
      simp only [books, add, List.map_append, List.map_cons, List.map_nil, hnew]
      rfl
    rw [hadd]
    exact .added _ _ _
  · refine ⟨List.forall_mem_append.mpr ⟨hdrop.nodes, ?_⟩, hdrop.calls, hdrop.unbroken⟩
    exact List.forall_mem_singleton.mpr hn

/-- A dispatcher is asked for something at once. -/
theorem posting_node (hb : b.IsForeground u) (hk : b.nodes[k]? = some n)
    (hn : n'.IsForeground u) (htally : n'.stats.tally = n.stats.tally)
    (hstore : b.hub.store.Operated u h'.store) (hunbroken : h'.breakdowns = ⟨0, 0, 0⟩) :
    Posting u b.books [] (books { b with hub := h', nodes := b.nodes.set k n' }) ∧
      IsForeground u { b with hub := h', nodes := b.nodes.set k n' } := by
  refine ⟨?_, forall_mem_set hb.nodes hn k, hb.calls, hunbroken⟩
  have htallies := talliesOf_set_of_eq hk htally
  rw [talliesOf] at htallies
  simp only [books]
  rw [htallies]
  exact .operated _ _ hstore

theorem operated_post (h : Hub) (n : Node) (type : EventType) (event : Datum) (keys : SearchKeys) :
    h.store.Operated u (n.post h type event keys).2.store ∧
      (n.post h type event keys).2.breakdowns = h.breakdowns := by
  unfold Node.post
  split
  · exact ⟨.inl rfl, rfl⟩
  · rename_i payload _
    have hstore := h.store_operate (.append ⟨payload, n.id, keys⟩)
    have hbreak := h.breakdowns_operate (.append ⟨payload, n.id, keys⟩)
    have hoperated : h.store.Operated u
        (h.operate (.append ⟨payload, n.id, keys⟩)).2.store := by
      rw [hstore]
      exact .apply fun _ => rfl
    simp only [Hub.operate] at hoperated hbreak
    rcases happend : h.append ⟨payload, n.id, keys⟩ with ⟨_ | e, h'⟩
    · rw [happend] at hoperated hbreak
      exact ⟨hoperated, hbreak⟩
    · rw [happend] at hoperated hbreak
      exact ⟨hoperated, hbreak⟩

theorem posting_reapOnce (hb : b.IsForeground u) (k : Nat) :
    Posting u b.books [] (b.reapOnce k).2.books ∧ (b.reapOnce k).2.IsForeground u := by
  have hidle : Posting u b.books [] b.books := .operated _ _ (.inl rfl)
  unfold reapOnce
  rw [hb.unbroken]
  cases hk : b.nodes[k]? with
  | none => exact ⟨hidle, hb⟩
  | some n =>
    have hoperated : b.hub.store.Operated u (n.claims.reap b.hub.store b.hub.time).2 := by
      rw [ClaimManager.snd_reap]
      exact .apply fun _ => rfl
    simp only
    rcases hreap : n.claims.reap b.hub.store b.hub.time with ⟨e | es, s⟩
    · rw [hreap] at hoperated
      exact ⟨.operated _ _ hoperated, hb.nodes, hb.calls, hb.unbroken⟩
    · rw [hreap] at hoperated
      exact posting_node hb hk ((hb.node hk).count _) rfl hoperated hb.unbroken

theorem posting_beginShutdown (hb : b.IsForeground u) (k : Nat) :
    Posting u b.books [] (b.beginShutdown k).books ∧
      (b.beginShutdown k).IsForeground u := by
  unfold beginShutdown
  split
  · rename_i n hk
    have hcancel := (hb.node hk).cancel
    have htallies : talliesOf (b.nodes.set k n.cancel) = talliesOf b.nodes := talliesOf_set_of_eq hk rfl
    rw [talliesOf, talliesOf] at htallies
    refine ⟨?_, forall_mem_set hb.nodes hcancel k, ?_, hb.unbroken⟩
    · simp only [books, ShutdownStage.begin_]
      rw [htallies]
      exact .asked _ _ _ rfl
    · exact List.forall_mem_append.mpr
        ⟨hb.calls, List.forall_mem_singleton.mpr (isFair_of_none rfl)⟩
  · exact ⟨.operated _ _ (.inl rfl), hb⟩

/-- Whatever happens in the foreground is a posting, and tells what the posting tells. -/
theorem posting_act (hb : b.IsForeground u) {x : BusAction} (hx : x.IsForeground)
    (hfollows : x.Follows u) :
    Posting u b.books (b.told x) (b.act x).books ∧ (b.act x).IsForeground u := by
  have hidle : Posting u b.books [] b.books := .operated _ _ (.inl rfl)
  cases x with
  | task t draw => exact posting_task hb t hfollows.drawsUpTo
  | add id config registry clock isAttached =>
    exact posting_add hb (.unstarted hfollows) rfl
  | post k type event keys =>
    simp only [act, onNode?]
    cases hk : b.nodes[k]? with
    | none => exact ⟨hidle, hb⟩
    | some n =>
      obtain ⟨hoperated, hbreak⟩ := operated_post b.hub n type event keys
      exact posting_node hb hk (hb.node hk) rfl hoperated (hbreak.trans hb.unbroken)
  | process k =>
    refine ⟨.asked _ _ _ rfl, hb.nodes, List.forall_mem_append.mpr ⟨hb.calls, ?_⟩, hb.unbroken⟩
    exact List.forall_mem_singleton.mpr (isFair_of_none rfl)
  | reapOnce k => exact posting_reapOnce hb k
  | shutdown k => exact posting_beginShutdown hb k
  | drop id =>
    obtain ⟨hbooks, hdrop⟩ := foreground_drop hb id
    rw [act, hbooks]
    exact ⟨hidle, hdrop⟩
  | operate op =>
    have hoperated : b.hub.store.Operated u (b.hub.operate op).2.store := by
      rw [b.hub.store_operate]
      exact .apply hfollows.leavesUpdates
    exact ⟨.operated _ _ hoperated, hb.nodes, hb.calls,
      (b.hub.breakdowns_operate op).trans hb.unbroken⟩
  | setTime start now => exact ⟨hidle, hb.nodes, hb.calls, hb.unbroken⟩
  | setClock k clock =>
    have hclock : ∀ n : Node, n.IsForeground u → ({ n with clock } : Node).IsForeground u :=
      fun n hn => ⟨hn.workers, hn.claimLoop, hn.reaper, hn.registry, hn.backoff⟩
    obtain ⟨hbooks, hforeground⟩ := foreground_modify hb k hclock fun _ => rfl
    rw [act, hbooks]
    exact ⟨hidle, hforeground⟩
  | start k => exact hx.elim
  | handle k e => exact hx.elim
  | resolve k e outcome => exact hx.elim
  | breakDown breakdowns => exact hx.elim

end Bus

end DurableQueue
