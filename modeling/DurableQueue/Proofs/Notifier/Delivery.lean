import DurableQueue.Proofs.Notifier.Queues
import Mathlib.Data.List.Nodup

/-!
Delivery exactly once.

An announcement is told of up to where it is (`Firing.IsTold`): it has called the callbacks that were
registered before it began but for those still to be called, and a subscription has been sent its commit
or is still to be sent it, never both and never twice. A step of any other announcement, a registration
and whatever a subscriber does leave this as it is, so it holds all along a run, and
`IsFaithful.delivers` reads off it what announcements that are over have done.
-/

namespace DurableQueue

open BoardEvent

/-- How often an announcement sent to a subscription. -/
def BoardEvent.sends (i : Nat) (id : SubscriptionId) (log : List BoardEvent) : Nat :=
  ((deliveries id log).map Prod.fst).count i

namespace Firing

/-- Whether an announcement that is this far may have sent so often to a subscription, which may be
entitled to the commit. -/
def Agrees (id : SubscriptionId) (sends : Nat) (entitled : Prop) : Firing → Prop
  | calling .. => sends = 0
  | sending e rest =>
    e.outcome = .commit ∧ sends + rest.count id ≤ 1 ∧ (entitled → sends + rest.count id = 1)
  | finished e => if e.outcome = .commit then sends ≤ 1 ∧ (entitled → sends = 1) else sends = 0

/-- An announcement did what a run tells of it. -/
structure IsTold (n : Notifier) (log : List BoardEvent) (i : Nat) (f : Firing) : Prop where
  begun : ∀ e, .begun i e ∈ log ↔ e = f.event
  called : calls i log ++ f.uncalled = registrations f.event.outcome (before i log)
  /-- A subscription that was open when the announcement began, and is, is entitled to the commit. -/
  agrees : ∀ id, f.Agrees id (sends i id log) (n.isOpen id = true ∧ .opened id ∈ before i log)
  sent : ∀ id, ∀ d ∈ deliveries id log, d.1 = i → d.2 = f.event
  known : ∀ id ∈ f.unsent, id < n.subscriptions.length
  ended : .ended i ∈ log ↔ f.isOver = true

end Firing

/-- A reaction is not told of as a step of an announcement. -/
theorem Reaction.firing?_tells (r : Reaction) (n : Notifier) : ∀ x ∈ r.tells n, x.firing? = none := by
  intro x hx
  cases r with
  | onCommit c => exact List.mem_singleton.mp hx ▸ rfl
  | onRollback c => exact List.mem_singleton.mp hx ▸ rfl
  | subscribe => exact List.mem_singleton.mp hx ▸ rfl

namespace BoardEvent

variable {i : Nat} {log more : List BoardEvent} {id : SubscriptionId}

theorem sends_append : sends i id (log ++ more) = sends i id log + sends i id more := by
  rw [sends, deliveries_append, List.map_append, List.count_append]
  rfl

/-- What does not concern an announcement tells of no call. -/
theorem calls_of_other (h : ∀ x ∈ more, x.firing? ≠ some i) : calls i more = [] := by
  refine List.filterMap_eq_nil_iff.mpr fun x hx => ?_
  cases x with
  | called j c => exact if_neg fun hj => h _ hx (congrArg some hj)
  | _ => rfl

theorem delivered_by_other (h : ∀ x ∈ more, x.firing? ≠ some i) {d : Nat × TransactionEvent}
    (hd : d ∈ deliveries id more) : d.1 ≠ i :=
  fun hi => h _ (mem_deliveries_iff.mp hd) (congrArg some hi)

theorem sends_of_other (h : ∀ x ∈ more, x.firing? ≠ some i) : sends i id more = 0 := by
  refine List.count_eq_zero.mpr fun hmem => ?_
  obtain ⟨d, hd, hi⟩ := List.mem_map.mp hmem
  exact delivered_by_other h hd hi

theorem firing_of_singleton {x : BoardEvent} (hx : x.firing? = some i) :
    ∀ y ∈ [x], ∀ j, y.firing? = some j → j = i := by
  intro y hy j hj
  rw [List.mem_singleton.mp hy, hx] at hj
  exact (Option.some.inj hj).symm

theorem mem_of_mem_before {x : BoardEvent} (h : x ∈ before i log) : x ∈ log :=
  (List.takeWhile_prefix _).subset h

end BoardEvent

namespace Firing

variable {n n' : Notifier} {log more : List BoardEvent} {i : Nat} {f : Firing}

theorem Agrees.mono {id : SubscriptionId} {sends : Nat} {entitled entitled' : Prop}
    (h : f.Agrees id sends entitled) (hle : entitled' → entitled) : f.Agrees id sends entitled' := by
  cases f with
  | calling e reactions rest => exact h
  | sending e rest => exact ⟨h.1, h.2.1, fun hentitled => h.2.2 (hle hentitled)⟩
  | finished e =>
    rw [Agrees] at h ⊢
    split
    · rename_i hcommit
      rw [if_pos hcommit] at h
      exact ⟨h.1, fun hentitled => h.2 (hle hentitled)⟩
    · rename_i hcommit
      rwa [if_neg hcommit] at h

theorem Agrees.sends_le_one {id : SubscriptionId} {sends : Nat} {entitled : Prop}
    (h : f.Agrees id sends entitled) : sends ≤ 1 := by
  cases f with
  | calling e reactions rest => exact h.trans_le (Nat.zero_le 1)
  | sending e rest => exact (Nat.le_add_right _ _).trans h.2.1
  | finished e =>
    rw [Agrees] at h
    split at h
    · exact h.1
    · exact h.trans_le (Nat.zero_le 1)

theorem Agrees.commit {id : SubscriptionId} {sends : Nat} {entitled : Prop}
    (h : f.Agrees id sends entitled) (hsent : sends ≠ 0) : f.event.outcome = .commit := by
  cases f with
  | calling e reactions rest => exact absurd h hsent
  | sending e rest => exact h.1
  | finished e =>
    rw [Agrees] at h
    split at h
    · rename_i hcommit
      exact hcommit
    · exact absurd h hsent

namespace IsTold

/-- A step of the announcement, or of anything else, that is told of as `more`. -/
theorem advance (h : f.IsTold n log i) (hn : n.Keeps log) (hout : n.Outlasts n') {f' : Firing}
    (hbegun : ∀ e, .begun i e ∉ more) (hevent : f'.event = f.event)
    (hcalled : calls i more ++ f'.uncalled = f.uncalled)
    (hagrees : ∀ id, f'.Agrees id (sends i id log + sends i id more)
      (n.isOpen id = true ∧ .opened id ∈ before i log))
    (hsent : ∀ id, ∀ d ∈ deliveries id more, d.1 = i → d.2 = f.event)
    (hknown : ∀ id ∈ f'.unsent, id < n.subscriptions.length)
    (hended : .ended i ∈ log ++ more ↔ f'.isOver = true) : f'.IsTold n' (log ++ more) i where
  begun e := by
    rw [List.mem_append, or_iff_left (hbegun e), h.begun e, hevent]
  called := by
    rw [calls_append, List.append_assoc, hcalled, h.called, hevent, before_append ((h.begun _).mpr rfl)]
  agrees id := by
    rw [sends_append]
    refine (hagrees id).mono ?_
    rintro ⟨hopen, hopened⟩
    rw [before_append ((h.begun _).mpr rfl)] at hopened
    exact ⟨hout.closed id (hn.numbered _ (mem_of_mem_before hopened) id rfl) hopen, hopened⟩
  sent id d hd hi := by
    rw [deliveries_append] at hd
    rw [hevent]
    rcases List.mem_append.mp hd with hd | hd
    · exact h.sent id d hd hi
    · exact hsent id d hd hi
  known id hid := (hknown id hid).trans_le hout.known
  ended := hended

/-- A step that is not told of as one of this announcement. -/
theorem silent (h : f.IsTold n log i) (hn : n.Keeps log) (hout : n.Outlasts n') {f' : Firing}
    (hmore : ∀ x ∈ more, x.firing? ≠ some i) (hevent : f'.event = f.event)
    (huncalled : f'.uncalled = f.uncalled)
    (hagrees : ∀ id, f'.Agrees id (sends i id log) (n.isOpen id = true ∧ .opened id ∈ before i log))
    (hknown : ∀ id ∈ f'.unsent, id < n.subscriptions.length) (hover : f'.isOver = f.isOver) :
    f'.IsTold n' (log ++ more) i := by
  refine h.advance hn hout (fun e hx => hmore _ hx rfl) hevent ?_ (fun id => ?_) (fun id d hd hi => ?_)
    hknown ?_
  · rw [calls_of_other hmore, List.nil_append, huncalled]
  · rw [sends_of_other hmore, Nat.add_zero]
    exact hagrees id
  · exact absurd hi (delivered_by_other hmore hd)
  · rw [List.mem_append, h.ended, hover]
    exact or_iff_left fun hended => hmore _ hended rfl

theorem frame (h : f.IsTold n log i) (hn : n.Keeps log) (hout : n.Outlasts n')
    (hmore : ∀ x ∈ more, x.firing? ≠ some i) : f.IsTold n' (log ++ more) i :=
  h.silent hn hout hmore rfl rfl h.agrees h.known rfl

variable {e : TransactionEvent} {rest : List Callback}

theorem called_next {c : Callback} (h : (Firing.calling e [] (c :: rest)).IsTold n log i)
    (hn : n.Keeps log) : (Firing.calling e c.reactions rest).IsTold n (log ++ [.called i c]) i := by
  refine h.advance hn (.refl n) (by simp) rfl ?_ h.agrees (fun id d hd _ => by cases hd) h.known ?_
  · have hcalled : calls i [.called i c] = [c] := by simp [calls]
    rw [hcalled]
    rfl
  · rw [List.mem_append, h.ended]
    simp [Firing.isOver]

/-- Every subscriber is noted once, and so is whoever is open. -/
theorem noted (h : (Firing.calling e [] []).IsTold n log i) (hn : n.Keeps log)
    (hcommit : e.outcome = .commit) :
    (Firing.sending e n.subscribers).IsTold n (log ++ []) i := by
  refine h.silent hn (.refl n) (fun _ hx => by cases hx) rfl rfl (fun id => ?_) hn.known rfl
  have hnone : sends i id log = 0 := h.agrees id
  rw [hnone, Firing.Agrees, Nat.zero_add]
  exact ⟨hcommit, List.nodup_iff_count_le_one.mp hn.nodup id, fun hentitled =>
    List.count_eq_one_of_mem hn.nodup (hn.subscribed id hentitled.1)⟩

theorem sent_next {id : SubscriptionId} {rest : List SubscriptionId}
    (h : (Firing.sending e (id :: rest)).IsTold n log i) (hn : n.Keeps log) :
    (Firing.sending e rest).IsTold (n.send id e) (log ++ [.sent i e id]) i := by
  refine h.advance hn (.send n id e) (by simp) rfl rfl (fun id' => ?_) (fun id' d hd _ => ?_)
    (fun id' hid' => h.known id' (.tail _ hid')) ?_
  · have hsends : sends i id' [.sent i e id] + rest.count id' = (id :: rest).count id' := by
      rw [List.count_cons]
      by_cases hid : id = id'
      · simp [sends, deliveries, hid, Nat.add_comm]
      · simp [sends, deliveries, hid]
    have hbefore := h.agrees id'
    rw [Firing.Agrees] at hbefore ⊢
    rwa [Nat.add_assoc, hsends]
  · obtain ⟨-, rfl⟩ : id = id' ∧ d = (i, e) := by simpa [deliveries, eq_comm] using hd
    rfl
  · rw [List.mem_append, h.ended]
    simp [Firing.isOver]

theorem finished (h : f.IsTold n log i) (hn : n.Keeps log) (huncalled : f.uncalled = [])
    (hagrees : ∀ id, (Firing.finished f.event).Agrees id (sends i id log)
      (n.isOpen id = true ∧ .opened id ∈ before i log)) :
    (Firing.finished f.event).IsTold n (log ++ [.ended i]) i :=
  h.advance hn (.refl n) (by simp) rfl huncalled.symm hagrees (fun _ _ hd _ => by cases hd)
    (fun _ hid => by cases hid) (by simp [Firing.isOver])

end IsTold

end Firing

namespace Board

/-- A board is as a run tells. -/
structure IsFaithful (b : Board) (log : List BoardEvent) : Prop where
  keeps : b.notifier.Keeps log
  numbered : ∀ x ∈ log, ∀ i, x.firing? = some i → i < b.firings.length
  told : ∀ (i : Nat) (f : Firing), b.firings[i]? = some f → f.IsTold b.notifier log i
  /-- No subscription was sent a commit after one that began when the first was over. -/
  order : ∀ id, (deliveries id log).Pairwise fun d d' => .ended d'.1 ∉ before d.1 log

namespace IsFaithful

variable {n n' : Notifier} {fs fs' : List Firing} {log more : List BoardEvent} {i : Nat} {f f' : Firing}

theorem empty : IsFaithful .empty [] where
  keeps := .empty
  numbered _ hx := by cases hx
  told _ _ hi := by cases hi
  order _ := List.Pairwise.nil

theorem begun_of_mem_deliveries {b : Board} (h : IsFaithful b log) {id : SubscriptionId}
    {d : Nat × TransactionEvent} (hd : d ∈ deliveries id log) : .begun d.1 d.2 ∈ log := by
  have hlt := h.numbered _ (mem_deliveries_iff.mp hd) d.1 rfl
  have htold := h.told d.1 _ (List.getElem?_eq_getElem hlt)
  exact (htold.begun d.2).mpr (htold.sent id d hd rfl)

/-- What is sent is sent last, by an announcement that is not over. -/
theorem order_append (h : IsFaithful ⟨n, fs⟩ log) (id : SubscriptionId)
    (hmore : deliveries id more = [] ∨ ∃ d, deliveries id more = [d] ∧ .ended d.1 ∉ log) :
    (deliveries id (log ++ more)).Pairwise fun d d' => .ended d'.1 ∉ before d.1 (log ++ more) := by
  have hold : (deliveries id log).Pairwise fun d d' => .ended d'.1 ∉ before d.1 (log ++ more) := by
    refine List.Pairwise.imp_of_mem (fun {d d'} hd _ hnot => ?_) (h.order id)
    rwa [before_append (h.begun_of_mem_deliveries hd)]
  rw [deliveries_append]
  rcases hmore with hnone | ⟨d, hone, hgoing⟩
  · rwa [hnone, List.append_nil]
  · rw [hone]
    refine List.pairwise_append.mpr ⟨hold, List.pairwise_singleton _ _, fun x hx y hy hended => ?_⟩
    rw [List.mem_singleton] at hy
    rw [before_append (h.begun_of_mem_deliveries hx), hy] at hended
    exact hgoing (mem_of_mem_before hended)

/-- One announcement took a step. -/
theorem advance (h : IsFaithful ⟨n, fs⟩ log) (hkeeps : n'.Keeps (log ++ more)) (hout : n.Outlasts n')
    (hi : fs[i]? = some f) (honly : ∀ x ∈ more, ∀ j, x.firing? = some j → j = i)
    (htold : f'.IsTold n' (log ++ more) i)
    (hmore : ∀ id, deliveries id more = [] ∨ ∃ d, deliveries id more = [d] ∧ .ended d.1 ∉ log) :
    IsFaithful ⟨n', fs.set i f'⟩ (log ++ more) where
  keeps := hkeeps
  numbered x hx j hj := by
    rw [List.length_set]
    rcases List.mem_append.mp hx with hx | hx
    · exact h.numbered x hx j hj
    · exact honly x hx j hj ▸ (List.getElem?_eq_some_iff.mp hi).1
  told j g hj := by
    by_cases hij : i = j
    · subst hij
      rw [getElem?_set_of_some hi] at hj
      cases hj
      exact htold
    · rw [List.getElem?_set_ne hij] at hj
      exact (h.told j g hj).frame h.keeps hout fun x hx hx' => hij (honly x hx j hx').symm
  order id := h.order_append id (hmore id)

/-- No announcement took a step. -/
theorem frame (h : IsFaithful ⟨n, fs⟩ log) (hkeeps : n'.Keeps (log ++ more)) (hout : n.Outlasts n')
    (hnone : ∀ x ∈ more, x.firing? = none) : IsFaithful ⟨n', fs⟩ (log ++ more) where
  keeps := hkeeps
  numbered x hx j hj := by
    rcases List.mem_append.mp hx with hx | hx
    · exact h.numbered x hx j hj
    · rw [hnone x hx] at hj
      cases hj
  told j g hj := (h.told j g hj).frame h.keeps hout fun x hx hx' => by
    rw [hnone x hx] at hx'
    cases hx'
  order id := by
    refine h.order_append id (.inl (List.eq_nil_iff_forall_not_mem.mpr fun d hd => ?_))
    have hnone := hnone _ (mem_deliveries_iff.mp hd)
    cases hnone

theorem begun (h : IsFaithful ⟨n, fs⟩ log) (e : TransactionEvent) :
    IsFaithful ⟨n, fs ++ [.start n e]⟩ (log ++ [.begun fs.length e]) := by
  have hfresh : ∀ x ∈ log, x.firing? ≠ some fs.length := fun x hx hx' =>
    (h.numbered x hx _ hx').false
  have hkeeps : n.Keeps (log ++ [.begun fs.length e]) :=
    h.keeps.quiet (fun _ => rfl) (by simp [subscription?]) (fun _ => rfl) (fun _ => rfl)
  refine ⟨hkeeps, fun x hx j hj => ?_, fun j g hj => ?_, fun id => h.order_append id (.inl rfl)⟩
  · rw [List.length_append, List.length_singleton, Nat.lt_succ_iff]
    rcases List.mem_append.mp hx with hx | hx
    · exact (h.numbered x hx j hj).le
    · rw [List.mem_singleton] at hx
      rw [hx] at hj
      exact (Option.some.inj hj).ge
  · rcases Nat.lt_trichotomy j fs.length with hlt | heq | hgt
    · rw [List.getElem?_append_left hlt] at hj
      refine (h.told j g hj).frame h.keeps (.refl n) fun x hx hx' => ?_
      rw [List.mem_singleton] at hx
      rw [hx] at hx'
      exact hlt.ne (Option.some.inj hx').symm
    · subst heq
      have hg : Firing.start n e = g := by simpa using hj
      subst hg
      have hbefore := before_of_fresh hfresh e
      have hsends : ∀ id, sends fs.length id (log ++ [.begun fs.length e]) = 0 := by
        intro id
        rw [sends_append, sends_of_other hfresh]
        rfl
      refine ⟨fun e' => ?_, ?_, hsends, fun id d hd hi => ?_,
        fun _ hid => (by cases hid), ?_⟩
      · have hnot : .begun fs.length e' ∉ log := fun hbegun => hfresh _ hbegun rfl
        simp [hnot, Firing.start, Firing.event]
      · rw [calls_append, calls_of_other hfresh, hbefore]
        exact h.keeps.callbacks e.outcome
      · rw [deliveries_append] at hd
        have hd' : d ∈ deliveries id log := by simpa [deliveries] using hd
        exact absurd hi (delivered_by_other hfresh hd')
      · have hnot : .ended fs.length ∉ log := fun hended => hfresh _ hended rfl
        simp [hnot, Firing.start, Firing.isOver]
    · rw [List.getElem?_eq_none (by simpa using Nat.succ_le_of_lt hgt)] at hj
      cases hj

theorem ended (h : IsFaithful ⟨n, fs⟩ log) {e : TransactionEvent}
    (hi : fs[i]? = some (.calling e [] []) ∧ e.outcome = .rollback ∨ fs[i]? = some (.sending e [])) :
    IsFaithful ⟨n, fs.set i (.finished e)⟩ (log ++ [.ended i]) := by
  have hkeeps : n.Keeps (log ++ [.ended i]) :=
    h.keeps.quiet (fun _ => rfl) (by simp [subscription?]) (fun _ => rfl) (fun _ => rfl)
  have honly := firing_of_singleton (i := i) (x := .ended i) rfl
  rcases hi with ⟨hi, hrollback⟩ | hi
  · have htold := h.told i _ hi
    refine h.advance hkeeps (.refl n) hi honly (htold.finished h.keeps rfl fun id => ?_) fun _ => .inl rfl
    have hnone : sends i id log = 0 := htold.agrees id
    rw [Firing.Agrees, hnone]
    simp [Firing.event, hrollback]
  · have htold := h.told i _ hi
    refine h.advance hkeeps (.refl n) hi honly (htold.finished h.keeps rfl fun id => ?_) fun _ => .inl rfl
    obtain ⟨hcommit, hle, heq⟩ := htold.agrees id
    have hover : (Firing.sending e []).event.outcome = .commit := hcommit
    rw [Firing.Agrees, if_pos hover]
    exact ⟨hle, heq⟩

/-- A turn is told as it is. -/
theorem turn {b b' : Board} (hturn : Turn b more b') (h : IsFaithful b log) :
    IsFaithful b' (log ++ more) := by
  cases hturn with
  | idle =>
    rw [List.append_nil]
    exact h
  | begun n fs e => exact h.begun e
  | reacted n fs r => exact h.frame (h.keeps.react r) (.react n r) (r.firing?_tells n)
  | answered n hi =>
    rename_i fs i e r reactions rest
    have htold := h.told i _ hi
    have hnone := r.firing?_tells n
    have hother : ∀ x ∈ r.tells n, x.firing? ≠ some i := fun x hx hx' => by
      rw [hnone x hx] at hx'
      cases hx'
    refine h.advance (h.keeps.react r) (.react n r) hi (fun x hx j hj => ?_) ?_ fun id => .inl ?_
    · exact absurd hj (by simp [hnone x hx])
    · exact htold.silent h.keeps (.react n r) hother rfl rfl htold.agrees htold.known rfl
    · exact List.eq_nil_iff_forall_not_mem.mpr fun d hd =>
        absurd (hnone _ (mem_deliveries_iff.mp hd)) (by simp [firing?])
  | called n hi =>
    rename_i fs i e c rest
    have hkeeps : n.Keeps (log ++ [.called i c]) :=
      h.keeps.quiet (fun _ => rfl) (by simp [subscription?]) (fun _ => rfl) (fun _ => rfl)
    exact h.advance hkeeps (.refl n) hi (firing_of_singleton rfl) ((h.told i _ hi).called_next h.keeps)
      fun _ => .inl rfl
  | noted n hi hcommit =>
    refine h.advance ?_ (.refl n) hi (fun _ hx => by cases hx) ((h.told _ _ hi).noted h.keeps hcommit)
      fun _ => .inl rfl
    rw [List.append_nil]
    exact h.keeps
  | sent n hi =>
    rename_i fs i e id rest
    have htold := h.told i _ hi
    have hgoing : .ended i ∉ log := fun hended => by cases htold.ended.mp hended
    refine h.advance (h.keeps.send i e (htold.known id List.mem_cons_self)) (.send n id e) hi
      (firing_of_singleton rfl) (htold.sent_next h.keeps) fun id' => ?_
    by_cases hid : id = id'
    · exact .inr ⟨(i, e), by simp [deliveries, hid], hgoing⟩
    · exact .inl (by simp [deliveries, hid])
  | ended n hi => exact h.ended hi
  | received n fs id =>
    exact h.frame (h.keeps.receive id) (.changeSubscription n id fun _ => rfl) (by simp [firing?])
  | drained n fs id =>
    exact h.frame (h.keeps.drain id) (.changeSubscription n id fun _ => rfl) (by simp [firing?])
  | closed n fs id =>
    refine h.frame (h.keeps.unsubscribe id) (.unsubscribe n id) fun x hx => ?_
    split at hx
    · exact List.mem_singleton.mp hx ▸ rfl
    · cases hx

theorem run {b : Board} (h : IsFaithful b log) (actions : List NotifierAction) :
    IsFaithful (b.run actions) (log ++ b.log actions) := by
  induction actions generalizing b log with
  | nil =>
    rw [Board.log, List.append_nil]
    exact h
  | cons x rest ih =>
    rw [Board.log, ← List.append_assoc]
    exact ih (h.turn (turn_act b x))

end IsFaithful

/-- What a run announces is delivered, as the notifier that it ends with and its log have it. -/
structure Delivers (n : Notifier) (log : List BoardEvent) : Prop where
  /-- A live subscription has put out, or still has queued, what it was sent. -/
  output : ∀ id, Live id log → received id log ++ n.queued id = (deliveries id log).map Prod.snd
  /-- An announcement that began after a live subscription was opened, and is over, sent it its commit. -/
  complete : ∀ (id i : Nat) (e : TransactionEvent), Live id log → .begun i e ∈ log →
    e.outcome = .commit → .opened id ∈ before i log → .ended i ∈ log → (i, e) ∈ deliveries id log
  once : ∀ id, ((deliveries id log).map Prod.fst).Nodup
  commits : ∀ id, ∀ d ∈ deliveries id log, .begun d.1 d.2 ∈ log ∧ d.2.outcome = .commit
  /-- What is sent first did not begin after what is sent later was over. -/
  order : ∀ id, (deliveries id log).Pairwise fun d d' => .ended d'.1 ∉ before d.1 log
  /-- An announcement calls, each once and in order, the callbacks of its outcome that were registered
  before it began, and none else. -/
  called : ∀ (i : Nat) (e : TransactionEvent), .begun i e ∈ log →
    calls i log <+: registrations e.outcome (before i log) ∧
      (.ended i ∈ log → calls i log = registrations e.outcome (before i log))
  /-- A live subscription is never forgotten. -/
  kept : ∀ id, Live id log → id ∈ n.subscribers

variable {n : Notifier} {log : List BoardEvent} {b : Board}

/-- An announcement that began is at some point of its course. -/
theorem IsFaithful.told_of_begun (h : IsFaithful b log) {i : Nat} {e : TransactionEvent}
    (hbegun : .begun i e ∈ log) : ∃ f, b.firings[i]? = some f ∧ f.IsTold b.notifier log i :=
  have hlt := h.numbered _ hbegun i rfl
  ⟨_, List.getElem?_eq_getElem hlt, h.told i _ (List.getElem?_eq_getElem hlt)⟩

theorem IsFaithful.delivers (h : IsFaithful b log) : Delivers b.notifier log where
  output id hlive := h.keeps.output id ((h.keeps.live id).mpr hlive)
  complete id i e hlive hbegun hcommit hopened hended := by
    obtain ⟨f, -, htold⟩ := h.told_of_begun hbegun
    have he := (htold.begun e).mp hbegun
    have hagrees := htold.agrees id
    have hsent := htold.sent id
    have hover := htold.ended.mp hended
    cases f with
    | finished e' =>
      have he : e = e' := he
      subst he
      rw [Firing.Agrees, if_pos hcommit] at hagrees
      have hone : sends i id log = 1 := hagrees.2 ⟨(h.keeps.live id).mpr hlive, hopened⟩
      have hmem : i ∈ (deliveries id log).map Prod.fst :=
        List.count_pos_iff.mp (Nat.one_pos.trans_eq hone.symm)
      obtain ⟨d, hd, rfl⟩ := List.mem_map.mp hmem
      have hd' : d = (d.1, e) := Prod.ext rfl (hsent d hd rfl)
      exact hd' ▸ hd
    | calling e' reactions rest => cases hover
    | sending e' rest => cases hover
  once id := by
    refine List.nodup_iff_count_le_one.mpr fun i => ?_
    by_cases hmem : i ∈ (deliveries id log).map Prod.fst
    · obtain ⟨d, hd, rfl⟩ := List.mem_map.mp hmem
      obtain ⟨f, -, htold⟩ := h.told_of_begun (h.begun_of_mem_deliveries hd)
      exact (htold.agrees id).sends_le_one
    · rw [List.count_eq_zero.mpr hmem]
      exact Nat.zero_le 1
  commits id d hd := by
    have hbegun := h.begun_of_mem_deliveries hd
    obtain ⟨f, -, htold⟩ := h.told_of_begun hbegun
    have hsent : sends d.1 id log ≠ 0 := (List.count_pos_iff.mpr (List.mem_map_of_mem hd)).ne'
    exact ⟨hbegun, (htold.begun d.2).mp hbegun ▸ (htold.agrees id).commit hsent⟩
  order := h.order
  called i e hbegun := by
    obtain ⟨f, -, htold⟩ := h.told_of_begun hbegun
    have hcalled := htold.called
    rw [← (htold.begun e).mp hbegun] at hcalled
    refine ⟨⟨f.uncalled, hcalled⟩, fun hended => ?_⟩
    have hover := htold.ended.mp hended
    cases f with
    | finished e' => exact (List.append_nil _).symm.trans hcalled
    | calling e' reactions rest => cases hover
    | sending e' rest => cases hover
  kept id hlive := h.keeps.subscribed id ((h.keeps.live id).mpr hlive)

/-- An announcement that began is over after some steps of its own. -/
theorem IsFaithful.ends (h : IsFaithful b log) {i : Nat} {e : TransactionEvent}
    (hbegun : .begun i e ∈ log) :
    ∃ count : Nat, .ended i ∈ log ++ b.log (List.replicate count (.proceed i)) := by
  obtain ⟨f, hi, -⟩ := h.told_of_begun hbegun
  obtain ⟨called, n', count, hrun, -⟩ := proceedsTo_over b.notifier hi
  have hafter := h.run (List.replicate count (.proceed i))
  have hover : (b.run (List.replicate count (.proceed i))).firings[i]? = some (.finished f.event) :=
    hrun ▸ getElem?_set_of_some hi _
  exact ⟨count, (hafter.told i _ hover).ended.mpr rfl⟩

/-- Whatever announcements, registrations and subscribers do, and in whatever order, every commit reaches
every subscription that was open before, and every transaction its callbacks, exactly once; and no
announcement is kept from its end. -/
theorem delivered_exactly_once (actions : List NotifierAction) :
    Delivers (empty.run actions).notifier (empty.log actions) ∧
      ∀ (i : Nat) (e : TransactionEvent), .begun i e ∈ empty.log actions →
        ∃ count : Nat, .ended i ∈ empty.log (actions ++ List.replicate count (.proceed i)) := by
  have hfaithful := IsFaithful.empty.run actions
  rw [List.nil_append] at hfaithful
  refine ⟨hfaithful.delivers, fun i e hbegun => ?_⟩
  obtain ⟨count, hended⟩ := hfaithful.ends hbegun
  exact ⟨count, log_append _ _ _ ▸ hended⟩

end Board

end DurableQueue
