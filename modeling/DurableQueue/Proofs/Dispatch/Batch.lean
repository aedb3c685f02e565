import DurableQueue.Proofs.Dispatch.BusTurn
import DurableQueue.Proofs.Dispatch.CallStep

/-!
A batch of claims that a dispatcher processes.

The claims of a batch may wait in the queue for the workers and in calls that process one after the other
(`Spread`). `Bus.work` is what is still to be done of it, wherever it is: claims that wait and attempts that
are in progress. Every step of a worker or of such a call is one of `Works`: an attempt begins, goes on or is
over, and nothing else changes.
-/

namespace DurableQueue

/-- Something that is to be done of a batch. -/
inductive Work where
  | waiting (e : Entry)
  | begun (a : Attempt)

def Work.entry : Work → Entry
  | waiting e => e
  | begun a => a.entry

def Worker.work : Worker → List Work
  | busy a => [.begun a]
  | _ => []

def Node.work (n : Node) : List Work := n.queue.map .waiting ++ n.workers.flatMap Worker.work

def ProcessStage.work : ProcessStage → List Work
  | claiming => []
  | between _ rest => rest.map .waiting
  | attempting _ a rest => .begun a :: rest.map .waiting

def Call.work : Call → List Work
  | process _ stage => stage.work
  | _ => []

/-- All that is still to be done by a dispatcher and by the calls. -/
def Bus.work (b : Bus) (n : Node) : List Work := n.work ++ b.calls.flatMap Call.work

/-- There is a worker for what waits in the queue. -/
def Node.IsStaffed (n : Node) : Prop :=
  n.queue = [] ∨ n.isCancelled = false ∧ ∃ w ∈ n.workers, w ≠ .stopped

/-- Two dispatchers that differ at most in where their tasks are. -/
structure Node.Alike (n n' : Node) : Prop where
  config : n'.config = n.config
  registry : n'.registry = n.registry
  clock : n'.clock = n.clock
  stats : n'.stats = n.stats
  staffed : n.IsStaffed → n'.IsStaffed

theorem Node.Alike.refl (n : Node) : n.Alike n := ⟨rfl, rfl, rfl, rfl, fun h => h⟩

/-- What a step makes of the work on a batch. `ready` says that whoever takes it finds something to do. -/
inductive Works (ready : Prop) (draw : Draw) (h : Hub) (n : Node) :
    List Work → Hub → Node → List Work → Prop where
  /-- Nothing is done; perhaps time passes. -/
  | rests {n' : Node} (ws : List Work) (start : Timestamp) (now : Nat) (unready : ¬ready)
    (still : ({ h with start, now } : Hub).time = h.time) (alike : n.Alike n') :
    Works ready draw h n ws { h with start, now } n' ws
  | begins {e : Entry} {n' : Node} (rest : List Work) (alike : (Attempt.begin_ n e).2.Alike n') :
    Works ready draw h n (.waiting e :: rest) h n' (.begun (Attempt.begin_ n e).1 :: rest)
  | goes {a a' : Attempt} {h' : Hub} {n₁ n' : Node} (rest : List Work)
    (step : a.step? draw h n = some (.going a', h', n₁)) (alike : n₁.Alike n') :
    Works ready draw h n (.begun a :: rest) h' n' (.begun a' :: rest)
  | ends {a : Attempt} {h' : Hub} {n₁ n' : Node} (rest : List Work)
    (step : a.step? draw h n = some (.finished, h', n₁)) (alike : n₁.Alike n') :
    Works ready draw h n (.begun a :: rest) h' n' rest
  /-- Whoever breaks down leaves what was still to be done. -/
  | breaks {a : Attempt} {h' : Hub} {n₁ n' : Node} (rest ws' : List Work)
    (step : a.step? draw h n = some (.brokeDown, h', n₁)) : Works ready draw h n (.begun a :: rest) h' n' ws'

/-- A step that does this up to the order of the work. -/
def WorksUpTo (ready : Prop) (draw : Draw) (h : Hub) (n : Node) (ws : List Work) (h' : Hub) (n' : Node)
    (ws' : List Work) : Prop :=
  ∃ vs vs', ws.Perm vs ∧ Works ready draw h n vs h' n' vs' ∧ vs'.Perm ws'

section

variable {ready : Prop} {draw : Draw} {h h' : Hub} {n n' : Node} {ws ws' vs vs' rest : List Work}

theorem Works.frame (hworks : Works ready draw h n ws h' n' ws') (rest : List Work) :
    Works ready draw h n (ws ++ rest) h' n' (ws' ++ rest) := by
  cases hworks with
  | rests ws start now unready still alike => exact .rests _ start now unready still alike
  | begins others alike => exact .begins _ alike
  | goes others step alike => exact .goes _ step alike
  | ends others step alike => exact .ends _ step alike
  | breaks others ws' step => exact .breaks _ _ step

/-- Work elsewhere does not matter. -/
theorem WorksUpTo.frame (hworks : WorksUpTo ready draw h n ws h' n' ws') (hvs : vs.Perm (ws ++ rest))
    (hvs' : (ws' ++ rest).Perm vs') : WorksUpTo ready draw h n vs h' n' vs' := by
  obtain ⟨us, us', hus, hstep, hus'⟩ := hworks
  exact ⟨_, _, hvs.trans (hus.append_right rest), hstep.frame rest, (hus'.append_right rest).trans hvs'⟩

theorem WorksUpTo.of_ready {ready' : Prop} (hready : ready' → ready)
    (hworks : WorksUpTo ready draw h n ws h' n' ws') : WorksUpTo ready' draw h n ws h' n' ws' := by
  obtain ⟨vs, vs', hvs, hstep, hvs'⟩ := hworks
  refine ⟨vs, vs', hvs, ?_, hvs'⟩
  cases hstep with
  | rests ws start now unready still alike =>
    exact .rests _ start now (fun h => unready (hready h)) still alike
  | begins rest alike => exact .begins rest alike
  | goes rest step alike => exact .goes rest step alike
  | ends others step alike => exact .ends _ step alike
  | breaks others _ step => exact .breaks others _ step

theorem WorksUpTo.rests (h : Hub) (hready : ¬ready) (hws : ws.Perm ws') (alike : n.Alike n') :
    WorksUpTo ready draw h n ws h n' ws' :=
  ⟨ws, ws, .refl ws, .rests ws h.start h.now hready rfl alike, hws⟩

theorem Attempt.begin_eq (hregistry : n'.registry = n.registry) (e : Entry) :
    begin_ n' e = ((begin_ n e).1, n'.count fun s => { s with inFlight := s.inFlight + 1 }) :=
  Prod.ext (fst_begin_ hregistry e) (snd_begin_ n' e)

/-- There is something to do for the worker of this number. -/
def Worker.IsReady (n : Node) (i : Nat) : Prop :=
  match n.workers[i]? with
  | some (busy _) => True
  | some idle => n.isCancelled = false ∧ n.queue ≠ []
  | _ => False

/-- A step of a worker. -/
theorem Worker.worksUpTo_step? {i : Nat} (hstep : step? draw h n i = some (h', n')) :
    WorksUpTo (IsReady n i) draw h n n.work h' n' n'.work := by
  have hset (n' : Node) {w : Worker} (hw : n.workers[i]? = some w) (w' : Worker) (hqueue : n'.queue = n.queue)
      (hworkers : n'.workers = n.workers.set i w') :
      ∃ rest, n.work.Perm (w.work ++ rest) ∧ (w'.work ++ rest).Perm n'.work := by
    refine ⟨n.queue.map .waiting ++ (n.workers.eraseIdx i).flatMap Worker.work, ?_, ?_⟩
    · have hperm := (perm_flatMap_of_getElem? Worker.work hw).append_left (n.queue.map .waiting)
      exact hperm.trans (List.perm_append_comm_assoc _ _ _)
    · have hperm := (perm_flatMap_set Worker.work hw w').append_left (n.queue.map .waiting)
      rw [Node.work, hqueue, hworkers]
      exact (List.perm_append_comm_assoc _ _ _).trans hperm.symm
  have hmem {w : Worker} (hw : n.workers[i]? = some w) (w' : Worker) : w' ∈ n.workers.set i w' := by
    obtain ⟨hlt, -⟩ := List.getElem?_eq_some_iff.mp hw
    exact List.mem_set hlt w'
  unfold step? at hstep
  split at hstep
  · rename_i hidle
    have hstops (hready : ¬IsReady n i) (hstaffed : n.IsStaffed → n.queue = []) :
        WorksUpTo (IsReady n i) draw h n n.work h (n.withWorker i stopped) (n.withWorker i stopped).work := by
      obtain ⟨rest, hbefore, hafter⟩ := hset (n.withWorker i stopped) hidle stopped rfl rfl
      exact .rests h hready (hbefore.trans hafter) ⟨rfl, rfl, rfl, rfl, fun hn => .inl (hstaffed hn)⟩
    split at hstep
    · rename_i hcancelled
      cases hstep
      refine hstops (fun hready => ?_) fun hstaffed => ?_
      · simp [IsReady, hidle, hcancelled] at hready
      · exact hstaffed.resolve_right fun hopen => Bool.noConfusion (hopen.1.symm.trans hcancelled)
    · rename_i hopen
      split at hstep
      · rename_i e queue hqueue
        rw [Attempt.begin_eq (show { n with queue }.registry = n.registry from rfl)] at hstep
        obtain ⟨rfl, rfl⟩ := Prod.mk.inj (Option.some.inj hstep)
        have hbefore : n.work.Perm (.waiting e :: (queue.map .waiting ++
            (n.workers.eraseIdx i).flatMap Worker.work)) := by
          rw [Node.work, hqueue]
          exact (perm_flatMap_of_getElem? Worker.work hidle).append_left _
        have hafter := (perm_flatMap_set Worker.work hidle (busy (Attempt.begin_ n e).1)).append_left
          (queue.map Work.waiting)
        refine ⟨_, _, hbefore, .begins _ ?_, (hafter.trans List.perm_middle).symm⟩
        rw [Attempt.snd_begin_]
        exact ⟨rfl, rfl, rfl, rfl, fun _ => .inr ⟨Bool.not_eq_true _ ▸ hopen, _, hmem hidle _, nofun⟩⟩
      · rename_i hqueue
        split at hstep
        · cases hstep
          refine hstops (fun hready => ?_) fun _ => hqueue
          simp [IsReady, hidle, hqueue] at hready
        · cases hstep
  · rename_i a hbusy
    obtain ⟨⟨p, h₁, n₁⟩, hattempt, heq⟩ := Option.map_eq_some_iff.mp hstep
    obtain ⟨-, ⟨registry, stats, rfl, -, -⟩, -, -⟩ := Attempt.serves_step? hattempt
    have halike (w' : Worker) (hw' : w' ≠ stopped) :
        { n with registry, stats }.Alike ({ n with registry, stats }.withWorker i w') :=
      ⟨rfl, rfl, rfl, rfl, fun hstaffed => hstaffed.imp_right fun hopen => ⟨hopen.1, w', hmem hbusy w', hw'⟩⟩
    cases p with
    | going a' =>
      cases heq
      obtain ⟨rest, hbefore, hafter⟩ :=
        hset ({ n with registry, stats }.withWorker i (busy a')) hbusy _ rfl rfl
      exact ⟨_, _, hbefore, .goes rest hattempt (halike _ nofun), hafter⟩
    | finished =>
      cases heq
      obtain ⟨rest, hbefore, hafter⟩ := hset ({ n with registry, stats }.withWorker i idle) hbusy _ rfl rfl
      exact ⟨_, _, hbefore, .ends rest hattempt (halike _ nofun), hafter⟩
    | brokeDown =>
      cases heq
      obtain ⟨rest, hbefore, -⟩ := hset n hbusy (busy a) rfl (set_of_getElem? hbusy).symm
      exact ⟨_, _, hbefore, .breaks rest _ hattempt, .refl _⟩
  · cases hstep
  · cases hstep

/-- Where a batch is once it was claimed. -/
def ProcessStage.IsUnderWay : ProcessStage → Prop
  | claiming => False
  | _ => True

/-- A step of a call that processes claims. -/
theorem ProcessStage.worksUpTo_step? {stage : ProcessStage} {next : ProcessStage ⊕ CallResult}
    (hstage : stage.IsUnderWay) (hstep : stage.step? draw h n = some (next, h', n')) :
    WorksUpTo (stage.work ≠ []) draw h n stage.work h' n' (next.elim work fun _ => []) ∧
      (∀ stage', next = .inl stage' → stage'.IsUnderWay) ∧ n'.queue = n.queue ∧ n'.workers = n.workers := by
  cases stage with
  | claiming => exact hstage.elim
  | between count rest =>
    cases rest with
    | nil =>
      cases hstep
      exact ⟨.rests h (fun hready => hready rfl) (.refl _) (.refl n), (fun _ heq => by cases heq), rfl, rfl⟩
    | cons e rest =>
      have hbegun : some (.inl (attempting count (Attempt.begin_ n e).1 rest), h, (Attempt.begin_ n e).2) =
          some (next, h', n') := hstep
      cases hbegun
      refine ⟨⟨_, _, .refl _, .begins (rest.map .waiting) (.refl _), .refl _⟩, fun stage' heq => ?_, ?_, ?_⟩
      · cases heq
        trivial
      · rw [Attempt.snd_begin_]
        rfl
      · rw [Attempt.snd_begin_]
        rfl
  | attempting count a rest =>
    obtain ⟨⟨p, h₁, n₁⟩, hattempt, heq⟩ := Option.map_eq_some_iff.mp hstep
    obtain ⟨-, ⟨registry, stats, rfl, -, -⟩, -, -⟩ := Attempt.serves_step? hattempt
    cases p with
    | going a' =>
      cases heq
      exact ⟨⟨_, _, .refl _, .goes _ hattempt (.refl _), .refl _⟩, fun stage' heq => by cases heq; trivial,
        rfl, rfl⟩
    | finished =>
      cases heq
      exact ⟨⟨_, _, .refl _, .ends _ hattempt (.refl _), .refl _⟩,
        fun stage' heq => by cases heq; trivial, rfl, rfl⟩
    | brokeDown =>
      cases heq
      exact ⟨⟨_, _, .refl _, .breaks _ _ hattempt, .refl _⟩, (fun _ heq => by cases heq), rfl, rfl⟩

end

/-- How a batch is given to a dispatcher: what waits in its queue for so many workers, and what calls process
one after the other. -/
structure Spread where
  queue : List Entry
  workers : Nat
  batches : List (List Entry)

def Spread.claims (p : Spread) : List Entry := p.queue ++ p.batches.flatten

namespace Bus

/-- The dispatcher of this number has just been given a batch, and nothing else is to be done. -/
def spread (b : Bus) (k : Nat) (p : Spread) : Bus :=
  { b with
    nodes := b.nodes.modify k fun n => { n with
      queue := p.queue, workers := List.replicate p.workers .idle }
    calls := p.batches.map fun rest => .process k (.between rest.length rest) }

end Bus

/-- A step of a worker of the dispatcher or of a call, or time passes for handlers while the clock of the
store stands still. -/
def BusAction.IsWork (k : Nat) (time : Timestamp) : BusAction → Prop
  | .task (.worker node _) _ => node = k
  | .task (.call _) _ => True
  | .setTime first now => ({ Hub.startingAt first with now } : Hub).time = time
  | _ => False

/-- A call is over or processes claims of the dispatcher of this number. -/
def Call.IsWork (k : Nat) : Call → Prop
  | process node stage => node = k ∧ stage.IsUnderWay
  | «over» _ => True
  | _ => False

namespace Bus

variable {b b' : Bus} {k : Nat} {n : Node} {x : BusAction}

/-- The dispatcher of this number processes a batch. -/
structure IsAtWork (b : Bus) (k : Nat) (n : Node) : Prop where
  node : b.nodes[k]? = some n
  calls : ∀ c ∈ b.calls, c.IsWork k

theorem isAtWork_spread (hk : b.nodes[k]? = some n) (p : Spread) :
    (b.spread k p).IsAtWork k { n with queue := p.queue, workers := List.replicate p.workers .idle } where
  node := by
    simp only [spread, List.getElem?_modify, hk, if_true]
    rfl
  calls c hc := by
    obtain ⟨rest, -, rfl⟩ := List.mem_map.mp hc
    exact ⟨rfl, trivial⟩

theorem work_spread (b : Bus) (k : Nat) (p : Spread) (n : Node) :
    (b.spread k p).work { n with queue := p.queue, workers := List.replicate p.workers .idle } =
      p.claims.map .waiting := by
  have hworkers : (List.replicate p.workers Worker.idle).flatMap Worker.work = [] := by
    rw [List.flatMap_eq_nil_iff]
    intro w hw
    rw [List.eq_of_mem_replicate hw]
    rfl
  have hcalls : (b.spread k p).calls.flatMap Call.work = p.batches.flatten.map .waiting := by
    rw [spread, List.flatMap_map, List.map_flatten]
    rfl
  rw [work, Node.work, hworkers, hcalls, List.append_nil, Spread.claims, List.map_append]

/-- There is something to do for the call of this number. -/
def IsCallReady (b : Bus) (i : Nat) : Prop := ∃ c ∈ b.calls[i]?, c.work ≠ []

/-- Work is done by this action. -/
def IsReady (b : Bus) (n : Node) : BusAction → Prop
  | .task (.worker node i) draw => b.step? draw (.worker node i) ≠ none ∧ Worker.IsReady n i
  | .task (.call i) draw => b.step? draw (.call i) ≠ none ∧ b.IsCallReady i
  | _ => False

/-- A dispatcher that took a step of the work on a batch. -/
theorem worksUpTo_set {ready : Prop} {draw : Draw} {h' : Hub} {n' : Node} (hb : b.IsAtWork k n)
    (hworks : WorksUpTo ready draw b.hub n n.work h' n' n'.work) :
    IsAtWork { b with hub := h', nodes := b.nodes.set k n' } k n' ∧
      WorksUpTo ready draw b.hub n (b.work n) h' n'
        (work { b with hub := h', nodes := b.nodes.set k n' } n') :=
  ⟨⟨getElem?_set_of_some hb.node n', hb.calls⟩, hworks.frame (.refl _) (.refl _)⟩

/-- A step of a call that processes claims. -/
theorem worksUpTo_stepCall? {draw : Draw} {i : Nat} (hb : b.IsAtWork k n)
    (hstep : b.stepCall? draw i = some b') :
    ∃ n', b'.IsAtWork k n' ∧ WorksUpTo (b.IsCallReady i) draw b.hub n (b.work n) b'.hub n' (b'.work n') := by
  obtain ⟨c, hc, hstep⟩ := Option.bind_eq_some_iff.mp hstep
  have hcall := hb.calls c (List.mem_of_getElem? hc)
  cases c with
  | process node stage =>
    obtain ⟨rfl, hstage⟩ := hcall
    obtain ⟨m, hm, hstep⟩ := Option.bind_eq_some_iff.mp hstep
    obtain rfl : n = m := Option.some.inj (hb.node.symm.trans hm)
    obtain ⟨⟨next, h', n'⟩, hrun, heq⟩ := Option.bind_eq_some_iff.mp hstep
    obtain ⟨hworks, hnext, hqueue, hworkers⟩ := ProcessStage.worksUpTo_step? hstage hrun
    cases heq
    have hready : b.IsCallReady i → stage.work ≠ [] := by
      rintro ⟨c, hc', hwork⟩
      cases Option.some.inj (hc.symm.trans hc')
      exact hwork
    have hafter (c' : Call) (hc' : c'.work = next.elim ProcessStage.work fun _ => []) :
        WorksUpTo (b.IsCallReady i) draw b.hub n (b.work n) h' n'
          (n'.work ++ (b.calls.set i c').flatMap Call.work) := by
      have hsame : n'.work = n.work := by rw [Node.work, Node.work, hqueue, hworkers]
      have hcalls := (perm_flatMap_of_getElem? Call.work hc).append_left n.work
      have hcalls' := (perm_flatMap_set Call.work hc c').append_left n.work
      rw [hsame]
      refine (hworks.of_ready hready).frame (hcalls.trans (List.perm_append_comm_assoc _ _ _)) ?_
      exact hc' ▸ (hcalls'.trans (List.perm_append_comm_assoc _ _ _)).symm
    cases next with
    | inl stage' =>
      have hcall' : (Call.process node stage').IsWork node := ⟨rfl, hnext stage' rfl⟩
      exact ⟨n', ⟨getElem?_set_of_some hb.node n', forall_mem_set hb.calls hcall' i⟩,
        hafter (.process node stage') rfl⟩
    | inr r =>
      have hcall' : (Call.over r).IsWork node := trivial
      exact ⟨n', ⟨getElem?_set_of_some hb.node n', forall_mem_set hb.calls hcall' i⟩, hafter (.over r) rfl⟩
  | shutdown node stage => exact hcall.elim
  | «over» r => cases hstep

/-- A step of the work on a batch. -/
theorem worksUpTo_act (hb : b.IsAtWork k n) (hx : x.IsWork k b.hub.time) :
    ∃ draw n', (b.act x).IsAtWork k n' ∧
      WorksUpTo (b.IsReady n x) draw b.hub n (b.work n) (b.act x).hub n' ((b.act x).work n') := by
  have hrests (hready : ¬b.IsReady n x) : ∃ draw n', b.IsAtWork k n' ∧
      WorksUpTo (b.IsReady n x) draw b.hub n (b.work n) b.hub n' (b.work n') :=
    ⟨fun _ => none, n, hb, .rests b.hub hready (.refl _) (.refl n)⟩
  cases x with
  | task t draw =>
    simp only [act]
    cases hstep : b.step? draw t with
    | none =>
      refine hrests fun hready => ?_
      cases t with
      | worker node i => exact hready.1 hstep
      | call i => exact hready.1 hstep
      | claimLoop node => exact hready
      | reaper node => exact hready
    | some b' =>
      cases t with
      | worker node i =>
        obtain rfl : node = k := hx
        obtain ⟨m, hm, hstep⟩ := Option.bind_eq_some_iff.mp hstep
        obtain rfl : n = m := Option.some.inj (hb.node.symm.trans hm)
        obtain ⟨⟨h', n'⟩, hrun, heq⟩ := Option.bind_eq_some_iff.mp hstep
        cases heq
        exact ⟨draw node, n', worksUpTo_set hb ((Worker.worksUpTo_step? hrun).of_ready And.right)⟩
      | call i =>
        have hcall : ∃ d, b.stepCall? d i = some b' := by
          simp only [step?] at hstep
          split at hstep
          · exact ⟨_, hstep⟩
          · exact ⟨_, hstep⟩
        obtain ⟨d, hcall⟩ := hcall
        obtain ⟨n', hb', hworks⟩ := worksUpTo_stepCall? hb hcall
        exact ⟨d, n', hb', hworks.of_ready And.right⟩
      | claimLoop node => exact hx.elim
      | reaper node => exact hx.elim
  | setTime first now =>
    exact ⟨fun _ => none, n, ⟨hb.node, hb.calls⟩, _, _, .refl _,
      .rests _ first now (fun h => by cases h) hx (.refl n), .refl _⟩
  | _ => exact hx.elim

end Bus

end DurableQueue
