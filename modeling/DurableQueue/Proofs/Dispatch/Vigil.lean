import DurableQueue.Proofs.Dispatch.LocalCommits

/-!
A claim loop that waits for commits, and everything that can come between.

A `Vigil` is a dispatcher that subscribed, with its hub. A `VigilAction` is a commit that is sent to
it, a step of its claim loop, the end of a wait from outside, or any other change of dispatcher and
hub; a wait can end from outside wherever it waits, and nowhere else (`WaitPhase`). `Vigil.log` tells
of a run what arrived and, for every wait, what it took and how it ended. `Vigil.Turn` lists what one
action can do.
-/

namespace DurableQueue

/-- Where a claim loop is in a wait for commits. -/
inductive WaitPhase where
  /-- It does not wait. -/
  | outside
  /-- It waits for a commit. The wait can be given up here. -/
  | awaiting
  /-- It took a commit and is about to take the others; `own` says whether the one was its node's. -/
  | draining (own : Bool)
deriving DecidableEq

def ClaimLoop.phase : ClaimLoop → WaitPhase
  | waiting _ => .awaiting
  | draining own _ => .draining own
  | _ => .outside

def Node.phase (n : Node) : WaitPhase :=
  match n.claimLoop with
  | some c => c.phase
  | none => .outside

/-- Something that happens to a dispatcher that subscribed. -/
inductive VigilAction where
  /-- A commit is sent to the subscription. -/
  | arrive (e : TransactionEvent)
  /-- The claim loop takes its next step. -/
  | turn
  /-- A wait is given up where it waits. -/
  | giveUp
  /-- A claim loop that does not wait begins to. -/
  | begin_ (deadline : Nat)
  /-- All that a wait does not look at becomes like this. -/
  | change (hub : Hub) (node : Node)

/-- What is told of a run. The waits are numbered. -/
inductive VigilEvent where
  | arrived (e : TransactionEvent)
  | begun (i : Nat)
  /-- A wait took one commit. -/
  | received (i : Nat) (e : TransactionEvent)
  /-- A wait took all commits that there were. -/
  | drained (i : Nat) (es : List TransactionEvent)
  /-- A wait ended because a commit of the node was seen. -/
  | returned (i : Nat)
  /-- A wait was given up. -/
  | cancelled (i : Nat)
deriving DecidableEq

namespace VigilEvent

/-- The wait that is concerned. -/
def wait? : VigilEvent → Option Nat
  | arrived _ => none
  | begun i | received i _ | drained i _ | returned i | cancelled i => some i

/-- The commits that arrive. -/
def brings : VigilEvent → List TransactionEvent
  | arrived e => [e]
  | _ => []

/-- The commits that are taken. -/
def takes : VigilEvent → List TransactionEvent
  | received _ e => [e]
  | drained _ es => es
  | _ => []

/-- The commits that arrived, in order. -/
def arrivals (log : List VigilEvent) : List TransactionEvent := log.flatMap brings

/-- The commits that were taken, in order. -/
def taken (log : List VigilEvent) : List TransactionEvent := log.flatMap takes

/-- The commits that one wait took, in order. -/
def takenBy (i : Nat) (log : List VigilEvent) : List TransactionEvent :=
  log.flatMap fun x => if x.wait? = some i then x.takes else []

/-- A wait took a commit of the node. -/
def TookOwn (id : NodeId) (i : Nat) (log : List VigilEvent) : Prop := ∃ e ∈ takenBy i log, e.owner = id

/-- A wait received a commit, since when commits arrived and nothing else. What it had taken before was of other
nodes. -/
def Receives (id : NodeId) (i : Nat) (e : TransactionEvent) (log : List VigilEvent) : Prop :=
  ∃ early during, log = early ++ .received i e :: during ∧ (∀ x ∈ during, ∃ c, x = .arrived c) ∧
    ¬ TookOwn id i early

variable {id : NodeId} {i : Nat} {e : TransactionEvent} {x : VigilEvent} {log more : List VigilEvent}

@[simp] theorem arrivals_append (log more : List VigilEvent) :
    arrivals (log ++ more) = arrivals log ++ arrivals more :=
  List.flatMap_append

@[simp] theorem arrivals_cons (x : VigilEvent) (more : List VigilEvent) :
    arrivals (x :: more) = x.brings ++ arrivals more :=
  List.flatMap_cons

@[simp] theorem arrivals_nil : arrivals [] = [] := rfl

@[simp] theorem taken_append (log more : List VigilEvent) : taken (log ++ more) = taken log ++ taken more :=
  List.flatMap_append

@[simp] theorem taken_cons (x : VigilEvent) (more : List VigilEvent) :
    taken (x :: more) = x.takes ++ taken more :=
  List.flatMap_cons

@[simp] theorem taken_nil : taken [] = [] := rfl

@[simp] theorem tookOwn_append : TookOwn id i (log ++ more) ↔ TookOwn id i log ∨ TookOwn id i more := by
  simp only [TookOwn, takenBy, List.flatMap_append, List.mem_append, or_and_right, exists_or]

@[simp] theorem not_tookOwn_nil : ¬ TookOwn id i [] := by
  rintro ⟨e, he, -⟩
  cases he

@[simp] theorem tookOwn_cons :
    TookOwn id i (x :: more) ↔ (x.wait? = some i ∧ ∃ e ∈ x.takes, e.owner = id) ∨ TookOwn id i more := by
  by_cases hi : x.wait? = some i
  · simp only [TookOwn, takenBy, List.flatMap_cons, hi, if_true, List.mem_append, or_and_right, exists_or,
      true_and]
  · simp only [TookOwn, takenBy, List.flatMap_cons, hi, if_false, List.nil_append, false_and, false_or]

/-- What arrives after a wait received a commit changes nothing of that. -/
theorem Receives.arrived (h : Receives id i e log) (c : TransactionEvent) :
    Receives id i e (log ++ [.arrived c]) := by
  obtain ⟨early, during, rfl, hduring, hearly⟩ := h
  refine ⟨early, during ++ [.arrived c], by simp, fun x hx => ?_, hearly⟩
  rcases List.mem_append.mp hx with hx | hx
  · exact hduring x hx
  · exact ⟨c, List.mem_singleton.mp hx⟩

/-- A return that is told after others that tell of none is told among the first. -/
theorem returned_split {before after : List VigilEvent} (hmore : ∀ x ∈ more, ∀ i, x ≠ .returned i)
    (hsplit : log ++ more = before ++ .returned i :: after) : ∃ rest, log = before ++ .returned i :: rest := by
  rcases List.append_eq_append_iff.mp hsplit with ⟨front, -, hafter⟩ | ⟨rest, hlog, hafter⟩
  · have hmem : .returned i ∈ more := by
      rw [hafter]
      exact List.mem_append_right _ List.mem_cons_self
    exact absurd rfl (hmore _ hmem i)
  · cases rest with
    | nil =>
      have hmem : .returned i ∈ more := by
        rw [← List.nil_append more, ← hafter]
        exact List.mem_cons_self
      exact absurd rfl (hmore _ hmem i)
    | cons x rest =>
      obtain ⟨rfl, -⟩ := List.cons.inj hafter
      exact ⟨rest, hlog⟩

/-- A return that is told last, or before that. -/
theorem returned_split_last {j : Nat} {before after : List VigilEvent}
    (hsplit : log ++ [.returned j] = before ++ .returned i :: after) :
    before = log ∧ i = j ∨ ∃ rest, log = before ++ .returned i :: rest := by
  rcases List.eq_nil_or_concat' after with rfl | ⟨rest, x, rfl⟩
  · obtain ⟨hlog, hlast⟩ := List.append_inj' hsplit rfl
    cases hlast
    exact .inl ⟨hlog.symm, rfl⟩
  · rw [← List.cons_append, ← List.append_assoc] at hsplit
    exact .inr ⟨rest, (List.append_inj' hsplit rfl).1⟩

end VigilEvent

open VigilEvent

/-- A dispatcher that subscribed. -/
structure Vigil where
  hub : Hub
  node : Node
  /-- How often the claim loop has begun to wait. -/
  waits : Nat

namespace Vigil

/-- A dispatcher whose claim loop is started on a subscription of its own. -/
def opened (h : Hub) (n : Node) : Vigil where
  hub := { h with notifier := h.notifier.subscribe.2 }
  node := { n with claimLoop := some .checking, subscription := some h.notifier.subscribe.1 }
  waits := 0

def phase (v : Vigil) : WaitPhase := v.node.phase

/-- Whether it still has its subscription. -/
def isListening (v : Vigil) : Bool := v.node.subscription.isSome

/-- The commits that are queued for it. -/
def unread (v : Vigil) : List TransactionEvent := v.node.unread v.hub

/-- What an action makes of hub and dispatcher. -/
def move (v : Vigil) : VigilAction → Hub × Node
  | .arrive e =>
    match v.node.subscription with
    | some id => ({ v.hub with notifier := v.hub.notifier.send id e }, v.node)
    | none => (v.hub, v.node)
  | .turn => (ClaimLoop.step? v.hub v.node).getD (v.hub, v.node)
  | .giveUp => (v.hub, if v.phase = .awaiting then v.node.withClaimLoop .checking else v.node)
  | .begin_ deadline =>
    (v.hub, if v.phase = .outside then v.node.withClaimLoop (.waiting deadline) else v.node)
  | .change hub node =>
    ({ hub with notifier := v.hub.notifier },
      { node with id := v.node.id, claimLoop := v.node.claimLoop, subscription := v.node.subscription })

def act (v : Vigil) (x : VigilAction) : Vigil where
  hub := (v.move x).1
  node := (v.move x).2
  waits := if v.phase = .outside ∧ (v.move x).2.phase = .awaiting then v.waits + 1 else v.waits

/-- What a claim loop tells that comes from one phase to another. -/
def passage (i : Nat) (unread : List TransactionEvent) : WaitPhase → WaitPhase → List VigilEvent
  | .outside, .awaiting => [.begun i]
  | .awaiting, .draining _ => unread.head?.toList.map (.received i)
  | .awaiting, .outside => [.cancelled i]
  | .draining _, .awaiting => [.drained i unread]
  | .draining _, .outside => [.drained i unread, .returned i]
  | _, _ => []

/-- What an action tells. -/
def tells (v : Vigil) : VigilAction → List VigilEvent
  | .arrive e => if v.isListening then [.arrived e] else []
  | x => passage (v.act x).waits v.unread v.phase (v.act x).phase

/-- A dispatcher after all of this happened. -/
def run (v : Vigil) (actions : List VigilAction) : Vigil := actions.foldl act v

/-- What a run tells. -/
def log (v : Vigil) : List VigilAction → List VigilEvent
  | [] => []
  | x :: rest => v.tells x ++ (v.act x).log rest

/-- What it listens to afterwards it did before, and this is unread then. -/
def Leaves (v v' : Vigil) (unread : List TransactionEvent) : Prop :=
  v'.isListening = true → v.isListening = true ∧ v'.unread = unread

/-- What one action does, and tells. -/
inductive Turn (v v' : Vigil) : List VigilEvent → Prop where
  | quiet (phase : v'.phase = v.phase) (waits : v'.waits = v.waits) (leaves : v.Leaves v' v.unread) :
    Turn v v' []
  | arrived (e : TransactionEvent) (phase : v'.phase = v.phase) (waits : v'.waits = v.waits)
    (leaves : v.Leaves v' (v.unread ++ [e])) : Turn v v' [.arrived e]
  | begun (phase : v.phase = .outside) (phase' : v'.phase = .awaiting) (waits : v'.waits = v.waits + 1)
    (leaves : v.Leaves v' v.unread) : Turn v v' [.begun v'.waits]
  | received {e : TransactionEvent} {rest : List TransactionEvent} (phase : v.phase = .awaiting)
    (unread : v.unread = e :: rest) (phase' : v'.phase = .draining (e.owner == v.node.id))
    (waits : v'.waits = v.waits) (leaves : v.Leaves v' rest) : Turn v v' [.received v'.waits e]
  /-- All commits that were taken are of other nodes. -/
  | drained (phase : v.phase = .draining false) (foreign : ∀ e ∈ v.unread, e.owner ≠ v.node.id)
    (phase' : v'.phase = .awaiting) (waits : v'.waits = v.waits) (leaves : v.Leaves v' []) :
    Turn v v' [.drained v'.waits v.unread]
  | returned {own : Bool} (phase : v.phase = .draining own)
    (heard : own = true ∨ ∃ e ∈ v.unread, e.owner = v.node.id) (phase' : v'.phase = .outside)
    (waits : v'.waits = v.waits) (leaves : v.Leaves v' []) :
    Turn v v' [.drained v'.waits v.unread, .returned v'.waits]
  | cancelled (phase : v.phase = .awaiting) (phase' : v'.phase = .outside) (waits : v'.waits = v.waits)
    (leaves : v.Leaves v' v.unread) : Turn v v' [.cancelled v'.waits]

/-- Its subscription is open, and it does not lose it while it takes commits. -/
structure IsSound (v : Vigil) : Prop where
  isOpen : ∀ id, v.node.subscription = some id → v.hub.notifier.isOpen id = true
  listens : ∀ own, v.phase = .draining own → v.isListening = true

/-- A turn of a dispatcher that stays the same one, and stays sound. -/
structure Advances (v v' : Vigil) (events : List VigilEvent) : Prop where
  id : v'.node.id = v.node.id
  isSound : v'.IsSound
  turn : v.Turn v' events

section Steps

variable {h h' : Hub} {n n' : Node}

/-- A step that takes no commit leaves the subscription alone, or gives it up with the claim loop. -/
structure Spares (h : Hub) (n : Node) (h' : Hub) (n' : Node) : Prop where
  id : n'.id = n.id
  subscription : n'.subscription = n.subscription ∧ h'.notifier = h.notifier ∨
    n'.subscription = none ∧ n'.phase = .outside

theorem spares_of_kept (hid : n'.id = n.id) (hkept : n'.subscription = n.subscription)
    (hnotifier : h'.notifier = h.notifier) : Spares h n h' n' :=
  ⟨hid, .inl ⟨hkept, hnotifier⟩⟩

theorem spares_stop (h : Hub) (n : Node) : Spares h n (ClaimLoop.stop h n).1 (ClaimLoop.stop h n).2 :=
  ⟨rfl, .inr ⟨rfl, rfl⟩⟩

theorem spares_check (h : Hub) (n : Node) :
    Spares h n (ClaimLoop.check h n).1 (ClaimLoop.check h n).2 ∧
      ((ClaimLoop.check h n).2.phase = .outside ∨ (ClaimLoop.check h n).2.phase = .awaiting) := by
  unfold ClaimLoop.check
  split
  · exact ⟨spares_stop h n, .inl rfl⟩
  · split
    · exact ⟨spares_of_kept rfl rfl rfl, .inr rfl⟩
    · exact ⟨spares_of_kept rfl rfl rfl, .inl rfl⟩

theorem spares_claim (h : Hub) (n : Node) :
    Spares h n (ClaimLoop.claim h n).1 (ClaimLoop.claim h n).2 ∧
      ((ClaimLoop.claim h n).2.phase = .outside ∨ (ClaimLoop.claim h n).2.phase = .awaiting) := by
  unfold ClaimLoop.claim
  split
  · exact ⟨⟨rfl, .inr ⟨rfl, rfl⟩⟩, .inl rfl⟩
  · simp only
    split
    · exact ⟨spares_of_kept rfl rfl rfl, .inl rfl⟩
    · exact ⟨spares_of_kept rfl rfl rfl, .inr rfl⟩

/-- A claim loop that does not wait takes no commit. -/
theorem spares_of_outside (hphase : n.phase = .outside) (hstep : ClaimLoop.step? h n = some (h', n')) :
    Spares h n h' n' ∧ (n'.phase = .outside ∨ n'.phase = .awaiting) := by
  unfold ClaimLoop.step? at hstep
  split at hstep
  · obtain ⟨rfl, rfl⟩ := Prod.mk.inj (Option.some.inj hstep)
    exact spares_check h n
  · obtain ⟨rfl, rfl⟩ := Prod.mk.inj (Option.some.inj hstep)
    exact spares_claim h n
  · split at hstep
    · cases hstep
    · cases hstep
      exact ⟨spares_of_kept rfl rfl rfl, .inl rfl⟩
  · rename_i full hloop
    cases full with
    | true =>
      cases hstep
      exact ⟨spares_of_kept rfl rfl rfl, .inl rfl⟩
    | false =>
      cases hstep
      exact ⟨spares_of_kept rfl rfl rfl, .inr rfl⟩
  · cases hstep
    exact ⟨spares_of_kept rfl rfl rfl, .inl rfl⟩
  · rename_i hloop
    rw [Node.phase, hloop] at hphase
    cases hphase
  · rename_i hloop
    rw [Node.phase, hloop] at hphase
    cases hphase
  · cases hstep
  · cases hstep

/-- A claim loop that waits takes one commit, or its wait is over. -/
theorem awake?_cases {deadline : Nat} (hstep : ClaimLoop.awake? h n deadline = some (h', n')) :
    (Spares h n h' n' ∧ n'.phase = .outside) ∨
      ∃ id e rest, n.subscription = some id ∧ h.notifier.queued id = e :: rest ∧
        h' = { h with notifier := (h.notifier.receive id).2 } ∧
        n' = n.withClaimLoop (.draining (e.owner == n.id) deadline) := by
  unfold ClaimLoop.awake? at hstep
  split at hstep
  · obtain ⟨rfl, rfl⟩ := Prod.mk.inj (Option.some.inj hstep)
    exact .inl ⟨spares_stop h n, rfl⟩
  · simp only at hstep
    split at hstep
    · rename_i e notifier hreceived
      cases hstep
      obtain ⟨id, hid, hreceived⟩ := Option.bind_eq_some_iff.mp hreceived
      cases hqueued : h.notifier.queued id with
      | nil => simp [Notifier.receive, hqueued] at hreceived
      | cons first rest =>
        simp only [Notifier.receive, hqueued, List.head?_cons, Option.some.injEq, Prod.mk.injEq] at hreceived
        obtain ⟨rfl, rfl⟩ := hreceived
        exact .inr ⟨id, first, rest, hid, hqueued, rfl, rfl⟩
    · split at hstep
      · cases hstep
        exact .inl ⟨spares_of_kept rfl rfl rfl, rfl⟩
      · cases hstep

theorem claimLoop_of_awaiting (hphase : n.phase = .awaiting) :
    ∃ deadline, n.claimLoop = some (.waiting deadline) := by
  unfold Node.phase at hphase
  split at hphase
  · rename_i c hloop
    cases c with
    | waiting deadline => exact ⟨deadline, hloop⟩
    | _ => cases hphase
  · cases hphase

theorem claimLoop_of_draining {own : Bool} (hphase : n.phase = .draining own) :
    ∃ deadline, n.claimLoop = some (.draining own deadline) := by
  unfold Node.phase at hphase
  split at hphase
  · rename_i c hloop
    cases c with
    | draining own deadline =>
      cases hphase
      exact ⟨deadline, hloop⟩
    | _ => cases hphase
  · cases hphase

end Steps

section Actions

variable {v v' : Vigil} {x : VigilAction} {id : SubscriptionId} {unread : List TransactionEvent}

theorem unread_eq (hid : v.node.subscription = some id) : v.unread = v.hub.notifier.queued id :=
  Node.unread_eq hid

theorem isListening_iff : v.isListening = true ↔ ∃ id, v.node.subscription = some id := Option.isSome_iff_exists

theorem leaves_of_kept (hkept : v'.node.subscription = v.node.subscription)
    (hunread : ∀ id, v.node.subscription = some id → v'.hub.notifier.queued id = unread) :
    v.Leaves v' unread := by
  intro hlistens
  obtain ⟨id, hid'⟩ := isListening_iff.mp hlistens
  have hid := hkept.symm.trans hid'
  exact ⟨isListening_iff.mpr ⟨id, hid⟩, (unread_eq hid').trans (hunread id hid)⟩

theorem leaves_of_spares (hspares : Spares v.hub v.node v'.hub v'.node) : v.Leaves v' v.unread := by
  rcases hspares.subscription with ⟨hkept, hnotifier⟩ | ⟨hended, -⟩
  · refine leaves_of_kept hkept fun id hid => ?_
    rw [hnotifier, unread_eq hid]
  · intro hlistens
    rw [isListening, hended] at hlistens
    cases hlistens

theorem IsSound.of_kept (h : v.IsSound) (hkept : v'.node.subscription = v.node.subscription)
    (hopen : ∀ id, v'.hub.notifier.isOpen id = v.hub.notifier.isOpen id)
    (hdraining : ∀ own, v'.phase = .draining own → v.isListening = true) : v'.IsSound where
  isOpen id hid := (hopen id).trans (h.isOpen id (hkept.symm.trans hid))
  listens own hphase := by
    rw [isListening, hkept]
    exact hdraining own hphase

theorem IsSound.of_spares (h : v.IsSound) (hspares : Spares v.hub v.node v'.hub v'.node)
    (hdraining : ∀ own, v'.phase = .draining own → v.phase = .draining own) : v'.IsSound := by
  rcases hspares.subscription with ⟨hkept, hnotifier⟩ | ⟨hended, houtside⟩
  · refine h.of_kept hkept (fun id => by rw [hnotifier]) fun own hphase => ?_
    exact h.listens own (hdraining own hphase)
  · refine ⟨fun id hid => ?_, fun own hphase => ?_⟩
    · cases hended.symm.trans hid
    · cases houtside.symm.trans hphase

/-- A subscription whose queue changes stays sound. -/
theorem IsSound.of_change (h : v.IsSound) (hid : v.node.subscription = some id)
    (hkept : v'.node.subscription = v.node.subscription) {f : Subscription → Subscription}
    (hnotifier : v'.hub.notifier = v.hub.notifier.changeSubscription id f)
    (hf : ∀ s, (f s).isOpen = s.isOpen) : v'.IsSound := by
  refine h.of_kept hkept (fun id' => ?_) fun own _ => isListening_iff.mpr ⟨id, hid⟩
  rw [hnotifier, Notifier.isOpen_changeSubscription hf]

theorem leaves_of_change (h : v.IsSound) (hid : v.node.subscription = some id)
    (hkept : v'.node.subscription = v.node.subscription) {f : Subscription → Subscription}
    (hnotifier : v'.hub.notifier = v.hub.notifier.changeSubscription id f) :
    v.Leaves v' (f ⟨v.unread, true⟩).queue := by
  refine leaves_of_kept hkept fun id' hid' => ?_
  obtain rfl := Option.some.inj (hid.symm.trans hid')
  rw [hnotifier, Notifier.queued_changeSubscription (h.isOpen id hid), unread_eq hid]

theorem waits_act_of_begins (hbefore : v.phase = .outside) (hafter : (v.act x).phase = .awaiting) :
    (v.act x).waits = v.waits + 1 :=
  if_pos ⟨hbefore, hafter⟩

theorem waits_act (h : v.phase = .outside → (v.act x).phase ≠ .awaiting) : (v.act x).waits = v.waits :=
  if_neg fun ⟨hbefore, hafter⟩ => h hbefore hafter

theorem waits_act_of_same (h : (v.act x).phase = v.phase) : (v.act x).waits = v.waits := by
  refine waits_act fun hbefore hafter => ?_
  cases (h.symm.trans hafter).symm.trans hbefore

theorem passage_self (i : Nat) (unread : List TransactionEvent) (p : WaitPhase) : passage i unread p p = [] := by
  cases p <;> rfl

/-- An action that takes no commit and sends none does nothing to a wait, begins one or gives one up. -/
theorem advances_of_spares (h : v.IsSound) {h' : Hub} {n' : Node} (hmove : v.move x = (h', n'))
    (hspares : Spares v.hub v.node h' n')
    (htells : v.tells x = passage (v.act x).waits v.unread v.phase (v.act x).phase)
    (hphase : n'.phase = v.phase ∨ v.phase = .outside ∧ n'.phase = .awaiting ∨
      v.phase = .awaiting ∧ n'.phase = .outside) : v.Advances (v.act x) (v.tells x) := by
  obtain ⟨rfl, rfl⟩ := Prod.mk.inj hmove
  change Spares v.hub v.node (v.act x).hub (v.act x).node at hspares
  change (v.act x).phase = v.phase ∨ v.phase = .outside ∧ (v.act x).phase = .awaiting ∨
    v.phase = .awaiting ∧ (v.act x).phase = .outside at hphase
  have hleaves := leaves_of_spares hspares
  rw [htells]
  rcases hphase with hsame | ⟨hbefore, hafter⟩ | ⟨hbefore, hafter⟩
  · rw [hsame, passage_self]
    refine ⟨hspares.id, h.of_spares hspares fun own hdraining => hsame ▸ hdraining, ?_⟩
    exact .quiet hsame (waits_act_of_same hsame) hleaves
  · rw [hbefore, hafter]
    refine ⟨hspares.id, h.of_spares hspares fun own hdraining => ?_, ?_⟩
    · cases hafter.symm.trans hdraining
    · exact .begun hbefore hafter (waits_act_of_begins hbefore hafter) hleaves
  · rw [hbefore, hafter]
    refine ⟨hspares.id, h.of_spares hspares fun own hdraining => ?_, ?_⟩
    · cases hafter.symm.trans hdraining
    · refine .cancelled hbefore hafter (waits_act fun houtside _ => ?_) hleaves
      cases hbefore.symm.trans houtside

theorem advances_arrive (h : v.IsSound) (e : TransactionEvent) :
    v.Advances (v.act (.arrive e)) (v.tells (.arrive e)) := by
  cases hid : v.node.subscription with
  | none =>
    have hmove : v.move (.arrive e) = (v.hub, v.node) := by simp [move, hid]
    have hphase : (v.act (.arrive e)).phase = v.phase := congrArg (fun p => p.2.phase) hmove
    refine advances_of_spares h hmove (spares_of_kept rfl rfl rfl) ?_ (.inl rfl)
    rw [hphase, passage_self]
    simp [tells, isListening, hid]
  | some id =>
    have hmove : v.move (.arrive e) = ({ v.hub with notifier := v.hub.notifier.send id e }, v.node) := by
      simp [move, hid]
    have hnotifier : (v.act (.arrive e)).hub.notifier = v.hub.notifier.send id e :=
      congrArg (fun p => p.1.notifier) hmove
    have hkept : (v.act (.arrive e)).node.subscription = v.node.subscription :=
      congrArg (fun p => p.2.subscription) hmove
    have hphase : (v.act (.arrive e)).phase = v.phase := congrArg (fun p => p.2.phase) hmove
    have htells : v.tells (.arrive e) = [.arrived e] := if_pos (isListening_iff.mpr ⟨id, hid⟩)
    rw [htells]
    refine ⟨congrArg (fun p => p.2.id) hmove, ?_, .arrived e hphase (waits_act_of_same hphase) ?_⟩
    · exact h.of_change hid hkept hnotifier (Notifier.isOpen_send_queue e)
    · exact leaves_of_change h hid hkept hnotifier

/-- A claim loop that waits receives the next commit. -/
theorem advances_receive (h : v.IsSound) {deadline : Nat} {e : TransactionEvent} {rest : List TransactionEvent}
    (hphase : v.phase = .awaiting) (hid : v.node.subscription = some id)
    (hqueued : v.hub.notifier.queued id = e :: rest)
    (hmove : v.move .turn = ({ v.hub with notifier := (v.hub.notifier.receive id).2 },
      v.node.withClaimLoop (.draining (e.owner == v.node.id) deadline))) :
    v.Advances (v.act .turn) (v.tells .turn) := by
  have hnotifier : (v.act .turn).hub.notifier = (v.hub.notifier.receive id).2 :=
    congrArg (fun p => p.1.notifier) hmove
  have hkept : (v.act .turn).node.subscription = v.node.subscription :=
    congrArg (fun p => p.2.subscription) hmove
  have hphase' : (v.act .turn).phase = .draining (e.owner == v.node.id) := congrArg (fun p => p.2.phase) hmove
  have hunread : v.unread = e :: rest := (unread_eq hid).trans hqueued
  have htells : v.tells .turn = [.received (v.act .turn).waits e] := by
    simp only [tells, hphase, hphase', hunread, passage, List.head?_cons, Option.toList_some, List.map_cons,
      List.map_nil]
  have hleaves : v.Leaves (v.act .turn) rest := by
    have hchange := leaves_of_change h hid hkept hnotifier
    rwa [hunread] at hchange
  rw [htells]
  refine ⟨congrArg (fun p => p.2.id) hmove, h.of_change hid hkept hnotifier fun _ => rfl, ?_⟩
  refine .received hphase hunread hphase' (waits_act fun houtside _ => ?_) hleaves
  cases hphase.symm.trans houtside

/-- A claim loop that took a commit takes the others, and its wait is over if one was of its node. -/
theorem advances_drain (h : v.IsSound) {own heard : Bool} {deadline : Nat} (hphase : v.phase = .draining own)
    (hid : v.node.subscription = some id)
    (hheard : heard = (own || v.unread.any fun e => e.owner == v.node.id))
    (hmove : v.move .turn = ({ v.hub with notifier := (v.hub.notifier.drain id).2 },
      v.node.withClaimLoop (if heard then .checking else .waiting deadline))) :
    v.Advances (v.act .turn) (v.tells .turn) := by
  have hnotifier : (v.act .turn).hub.notifier = (v.hub.notifier.drain id).2 :=
    congrArg (fun p => p.1.notifier) hmove
  have hkept : (v.act .turn).node.subscription = v.node.subscription :=
    congrArg (fun p => p.2.subscription) hmove
  have hphase' : (v.act .turn).phase = if heard then .outside else .awaiting := by
    have hafter := congrArg (fun p => p.2.phase) hmove
    cases heard <;> exact hafter
  have hwaits : (v.act .turn).waits = v.waits := by
    refine waits_act fun houtside _ => ?_
    cases hphase.symm.trans houtside
  have hleaves := leaves_of_change h hid hkept hnotifier
  refine ⟨congrArg (fun p => p.2.id) hmove, h.of_change hid hkept hnotifier fun _ => rfl, ?_⟩
  cases heard with
  | true =>
    have htells : v.tells .turn = [.drained (v.act .turn).waits v.unread, .returned (v.act .turn).waits] := by
      simp only [tells, hphase, hphase', passage, if_true]
    rw [htells]
    refine .returned hphase ?_ hphase' hwaits hleaves
    simpa using hheard.symm
  | false =>
    have htells : v.tells .turn = [.drained (v.act .turn).waits v.unread] := by
      simp only [tells, hphase, hphase', passage, Bool.false_eq_true, if_false]
    obtain ⟨rfl, hforeign⟩ := Bool.or_eq_false_iff.mp hheard.symm
    rw [htells]
    refine .drained hphase (fun e he => ?_) hphase' hwaits hleaves
    simpa using List.any_eq_false.mp hforeign e he

theorem move_of_draining (h : v.IsSound) {own : Bool} (hphase : v.phase = .draining own) :
    ∃ id deadline, v.node.subscription = some id ∧
      v.move .turn = ({ v.hub with notifier := (v.hub.notifier.drain id).2 }, v.node.withClaimLoop
        (if own || v.unread.any fun e => e.owner == v.node.id then .checking else .waiting deadline)) := by
  obtain ⟨deadline, hloop⟩ := claimLoop_of_draining hphase
  obtain ⟨id, hid⟩ := isListening_iff.mp (h.listens own hphase)
  refine ⟨id, deadline, hid, ?_⟩
  rw [unread_eq hid]
  simp only [move, ClaimLoop.step?, hloop, ClaimLoop.drain, hid]
  rfl

/-- A step of the claim loop. -/
theorem advances_turn (h : v.IsSound) : v.Advances (v.act .turn) (v.tells .turn) := by
  cases hstep : ClaimLoop.step? v.hub v.node with
  | none =>
    have hmove : v.move .turn = (v.hub, v.node) := by rw [move, hstep]; rfl
    exact advances_of_spares h hmove (spares_of_kept rfl rfl rfl) rfl (.inl rfl)
  | some p =>
    obtain ⟨h', n'⟩ := p
    have hmove : v.move .turn = (h', n') := by rw [move, hstep]; rfl
    cases hphase : v.phase with
    | outside =>
      obtain ⟨hspares, hphase'⟩ := spares_of_outside hphase hstep
      refine advances_of_spares h hmove hspares rfl ?_
      rcases hphase' with houtside | hawaiting
      · exact .inl (houtside.trans hphase.symm)
      · exact .inr (.inl ⟨hphase, hawaiting⟩)
    | awaiting =>
      obtain ⟨deadline, hloop⟩ := claimLoop_of_awaiting hphase
      simp only [ClaimLoop.step?, hloop] at hstep
      rcases awake?_cases hstep with ⟨hspares, houtside⟩ | ⟨id, e, rest, hid, hqueued, rfl, rfl⟩
      · exact advances_of_spares h hmove hspares rfl (.inr (.inr ⟨hphase, houtside⟩))
      · exact advances_receive h hphase hid hqueued hmove
    | draining own =>
      obtain ⟨id, deadline, hid, hmove⟩ := move_of_draining h hphase
      exact advances_drain h hphase hid rfl hmove

/-- Every action is a turn. -/
theorem advances_act (h : v.IsSound) (x : VigilAction) : v.Advances (v.act x) (v.tells x) := by
  cases x with
  | arrive e => exact advances_arrive h e
  | turn => exact advances_turn h
  | giveUp =>
    by_cases hphase : v.phase = .awaiting
    · have hmove : v.move .giveUp = (v.hub, v.node.withClaimLoop .checking) := by rw [move, if_pos hphase]
      exact advances_of_spares h hmove (spares_of_kept rfl rfl rfl) rfl (.inr (.inr ⟨hphase, rfl⟩))
    · have hmove : v.move .giveUp = (v.hub, v.node) := by rw [move, if_neg hphase]
      exact advances_of_spares h hmove (spares_of_kept rfl rfl rfl) rfl (.inl rfl)
  | begin_ deadline =>
    by_cases hphase : v.phase = .outside
    · have hmove : v.move (.begin_ deadline) = (v.hub, v.node.withClaimLoop (.waiting deadline)) := by
        rw [move, if_pos hphase]
      exact advances_of_spares h hmove (spares_of_kept rfl rfl rfl) rfl (.inr (.inl ⟨hphase, rfl⟩))
    · have hmove : v.move (.begin_ deadline) = (v.hub, v.node) := by rw [move, if_neg hphase]
      exact advances_of_spares h hmove (spares_of_kept rfl rfl rfl) rfl (.inl rfl)
  | change hub node => exact advances_of_spares h rfl (spares_of_kept rfl rfl rfl) rfl (.inl rfl)

theorem isSound_opened (h : Hub) (n : Node) : (opened h n).IsSound where
  isOpen id hid := by
    obtain rfl := Option.some.inj hid
    exact (Notifier.feeds_subscribe h.notifier).isOpen
  listens own hphase := by cases hphase

end Actions

theorem log_append (v : Vigil) (xs ys : List VigilAction) :
    v.log (xs ++ ys) = v.log xs ++ (v.run xs).log ys := by
  induction xs generalizing v with
  | nil => rfl
  | cons x xs ih =>
    rw [List.cons_append, log, log, ih, List.append_assoc]
    rfl

end Vigil

end DurableQueue
