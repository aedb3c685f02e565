import DurableQueue.Proofs.Dispatch.Shutdown
import DurableQueue.Proofs.Dispatch.TaskTurn

/-!
What one action does to the calls of a bus.

`Call.Step` lists what a step makes of a call, and `Bus.CallChange` what an action makes of all calls:
a call takes a step, or one is added that has in hand at most the claim it was given.
-/

namespace DurableQueue

/-- The claims that a call has in hand, that of its attempt before the others. -/
def Call.held : Call → List Entry
  | .process _ (.between _ rest) => rest
  | .process _ (.attempting _ a rest) => a.entry :: rest
  | _ => []

/-- A call that is added has in hand at most the claim that the action gives it. If there is an attempt,
its handler was called elsewhere. -/
def Call.IsGiven (x : BusAction) : Call → Prop
  | .process _ .claiming | .shutdown _ _ => True
  | .process _ (.between _ rest) => ∀ e ∈ rest, x.claim? = some e
  | .process _ (.attempting _ (.judged e _) []) => x.claim? = some e
  | _ => False

/-- What a step makes of a call, where it leaves this store. -/
inductive Call.Step (b : Bus) (s : Store) : Call → Call → Prop where
  | claimed {k count : Nat} {es : List Entry} (claims : ∀ e ∈ es, e ∈ Scene.claimsIn s) :
    Step b s (.process k .claiming) (.process k (.between count es))
  | begun {k count : Nat} {n : Node} {e : Entry} {rest : List Entry} (node : b.nodes[k]? = some n) :
    Step b s (.process k (.between count (e :: rest)))
      (.process k (.attempting count (Attempt.begin_ n e).1 rest))
  | went {k count : Nat} {a a' : Attempt} {rest : List Entry} (goes : a.GoesTo a') :
    Step b s (.process k (.attempting count a rest)) (.process k (.attempting count a' rest))
  | finished {k count : Nat} {a : Attempt} {rest : List Entry} (booking : a.IsBooking) :
    Step b s (.process k (.attempting count a rest)) (.process k (.between count rest))
  | answered (c : Call) (r : CallResult) : Step b s c (.over r)
  | shuts {k : Nat} {stage stage' : ShutdownStage} : Step b s (.shutdown k stage) (.shutdown k stage')

namespace Store

/-- What a claim answers is what the store holds in processing. -/
theorem mem_claimsIn_of_claim {s s' : Store} (hs : s.IsWellFormed) {m : ClaimManager} {count : Nat}
    {now : Timestamp} {es : List Entry} (hclaim : m.claim s count now = (.ok es, s')) :
    ∀ e ∈ es, e ∈ Scene.claimsIn s' := by
  have hwell : s'.IsWellFormed := by
    have hstore : (s.apply (.claim count m.node m.ownerFilter) now).2 = s' := by
      rw [← ClaimManager.snd_claim, hclaim]
    exact hstore ▸ isWellFormed_of_effect hs (effect_apply _ _ _)
  intro e he
  obtain ⟨hstored, hstate⟩ := (ClaimManager.handsOut_of_claim hs hclaim).stored e he
  have hlive := hwell.mem_live_of_not_isTerminal hstored (by rw [hstate]; rfl)
  exact List.mem_filter.mpr ⟨hlive, beq_iff_eq.mpr hstate⟩

end Store

namespace Bus

variable {b b' : Bus} {x : BusAction}

theorem step_process {k : Nat} {n n' : Node} {h' : Hub} {draw : Draw} {stage : ProcessStage}
    {next : ProcessStage ⊕ CallResult} (hs : b.hub.store.IsWellFormed) (hk : b.nodes[k]? = some n)
    (hstage : stage.step? draw b.hub n = some (next, h', n')) :
    Call.Step b h'.store (.process k stage) (next.elim (.process k) .over) := by
  cases stage with
  | claiming =>
    simp only [ProcessStage.step?] at hstage
    split at hstage
    · cases hstage
      exact .answered _ _
    · rcases hclaim : n.claims.claim b.hub.store n.config.maxEntriesClaimed b.hub.time with ⟨_ | es, s⟩
      · rw [hclaim] at hstage
        cases hstage
        exact .answered _ _
      · rw [hclaim] at hstage
        cases hstage
        exact .claimed (Store.mem_claimsIn_of_claim hs hclaim)
  | between count rest =>
    cases rest with
    | nil =>
      cases hstage
      exact .answered _ _
    | cons e rest =>
      cases hstage
      exact .begun hk
  | attempting count a rest =>
    obtain ⟨⟨p, h₁, n₁⟩, hattempt, heq⟩ := Option.map_eq_some_iff.mp hstage
    obtain ⟨-, -, hbooking, hgoes⟩ := Attempt.serves_step? hattempt
    cases p with
    | going a' =>
      cases heq
      exact .went (hgoes a' rfl)
    | finished =>
      cases heq
      exact .finished (hbooking rfl)
    | brokeDown =>
      cases heq
      exact .answered _ _

theorem step_stepCall? {i : Nat} {draw : Draw} (hs : b.hub.store.IsWellFormed)
    (hstep : b.stepCall? draw i = some b') :
    ∃ c c', b.calls[i]? = some c ∧ Call.Step b b'.hub.store c c' ∧ b'.calls = b.calls.set i c' := by
  obtain ⟨c, hc, hstep⟩ := Option.bind_eq_some_iff.mp hstep
  cases c with
  | process k stage =>
    obtain ⟨n, hk, hstep⟩ := Option.bind_eq_some_iff.mp hstep
    obtain ⟨⟨next, h', n'⟩, hstage, heq⟩ := Option.bind_eq_some_iff.mp hstep
    have hcall := step_process hs hk hstage
    cases next with
    | inl stage' =>
      cases heq
      exact ⟨_, _, hc, hcall, rfl⟩
    | inr r =>
      cases heq
      exact ⟨_, _, hc, hcall, rfl⟩
  | shutdown k stage =>
    obtain ⟨n, hk, hstep⟩ := Option.bind_eq_some_iff.mp hstep
    obtain ⟨⟨next, h', n'⟩, hstage, heq⟩ := Option.bind_eq_some_iff.mp hstep
    cases next with
    | inl stage' =>
      cases heq
      exact ⟨_, _, hc, .shuts, rfl⟩
    | inr r =>
      cases heq
      exact ⟨_, _, hc, .answered _ r, rfl⟩
  | «over» r => cases hstep

/-- What an action makes of the calls. -/
inductive CallChange (b : Bus) (x : BusAction) (b' : Bus) : Prop where
  | rest (calls : b'.calls = b.calls)
  | asked {c : Call} (given : c.IsGiven x) (calls : b'.calls = b.calls ++ [c])
  | stepped {i : Nat} {draw : Nat → Draw} {c c' : Call} (task : x = .task (.call i) draw)
    (call : b.calls[i]? = some c) (step : c.Step b b'.hub.store c') (calls : b'.calls = b.calls.set i c')

theorem callChange_step? {draw : Nat → Draw} {t : BusTask} (hs : b.hub.store.IsWellFormed)
    (hstep : b.step? draw t = some b') : b.CallChange (.task t draw) b' := by
  cases t with
  | call i =>
    have hcall : ∃ d, b.stepCall? d i = some b' := by
      simp only [step?] at hstep
      split at hstep
      · exact ⟨_, hstep⟩
      · exact ⟨_, hstep⟩
    obtain ⟨d, hcall⟩ := hcall
    obtain ⟨c, c', hc, hgoes, hcalls⟩ := step_stepCall? hs hcall
    exact .stepped rfl hc hgoes hcalls
  | worker node i => exact .rest (calls_onNode? (f := fun h n => Worker.step? (draw node) h n i) hstep)
  | claimLoop node => exact .rest (calls_onNode? hstep)
  | reaper node => exact .rest (calls_onNode? hstep)

theorem callChange_act (hs : b.hub.store.IsWellFormed) (x : BusAction) : b.CallChange x (b.act x) := by
  cases x with
  | task t draw =>
    simp only [act]
    cases hstep : b.step? draw t with
    | none => exact .rest rfl
    | some b' => exact callChange_step? hs hstep
  | add id config registry clock isAttached => exact .rest (b.calls_drop _)
  | start i => exact .rest (b.calls_getD_onNode? i _)
  | post i type event keys => exact .rest (b.calls_getD_onNode? i _)
  | process i => exact .asked (c := .process i .claiming) trivial rfl
  | handle i e =>
    refine .asked (c := .process i (.between 0 [e])) (fun e' he => ?_) rfl
    rw [List.mem_singleton.mp he]
    rfl
  | resolve i e outcome => exact .asked (c := .process i (.attempting 0 (.judged e outcome) [])) rfl rfl
  | reapOnce i =>
    refine .rest ?_
    simp only [act, reapOnce]
    split
    · rfl
    · rfl
    · split <;> rfl
  | shutdown i =>
    simp only [act, beginShutdown]
    split
    · rename_i n hn
      exact .asked (c := .shutdown i (ShutdownStage.begin_ b.hub n).1) trivial rfl
    · exact .rest rfl
  | drop id => exact .rest (b.calls_drop id)
  | operate op => exact .rest rfl
  | breakDown breakdowns => exact .rest rfl
  | setTime start now => exact .rest rfl
  | setClock i clock => exact .rest rfl

end Bus

end DurableQueue
