import DurableQueue.Dispatch.Hub
import DurableQueue.Proofs.Store.Purging
import DurableQueue.Proofs.Store.Reaping

/-!
Failures and what they leave behind.

An operation fails because a failure was injected, or because it is refused. Either way the tables
stay as they were and nothing is announced (`Hub.operate_of_error`). Injected failures hit the
operations that come next, one each (`Store.answer_eq_injected_iff`); without these operations and
the injections the others are answered just the same (`Store.run_spared`).
-/

namespace DurableQueue

variable {s : Store} {op : StoreOp} {now : Timestamp} {ops : List (StoreOp × Timestamp)}

/-- The commits that an operation announces when it is answered: that of the entry it appended. -/
def StoreOp.announces : StoreOp → Except StoreError StoreAnswer → List TransactionEvent
  | .append _, .ok (.entry e) => [.appended e]
  | _, _ => []

theorem ReapPolicy.isTransient_of_cutoff {policy : ReapPolicy} {e : StoreError}
    (h : policy.cutoff now = .error e) : e.isTransient = false := by
  unfold cutoff at h
  split at h
  · split at h
    · cases h
    · cases h
      rfl
  · cases h
    rfl

namespace Store

/-- The store without the failures that it was still going to have. -/
def healed (s : Store) : Store := { s with failuresLeft := 0 }

theorem healed_of_eq_zero (hleft : s.failuresLeft = 0) : s.healed = s := by
  rw [healed, ← hleft]

/-- While failures are left, an operation uses one up and does nothing else. -/
theorem apply_of_failing (hop : op.injects = false) {left : Nat} (hleft : s.failuresLeft = left + 1)
    (now : Timestamp) : s.apply op now = (.error .injected, { s with failuresLeft := left }) := by
  cases op with
  | failNext count => cases hop
  | _ =>
    simp only [apply, append, claim, update, reap, release, count, find, search, purge, guarded,
      hleft, Outcome.map]

/-- What an operation that no failure hits answers: it never says that trying again may help, and if
it is refused it leaves everything as it is. -/
structure RunsWell (s : Store) (o : Outcome StoreAnswer) : Prop where
  failuresLeft : o.2.failuresLeft = 0
  refused : ∀ e, o.1 = .error e → e.isTransient = false ∧ o.2 = s

theorem RunsWell.of_refused {e : StoreError} (hleft : s.failuresLeft = 0)
    (h : e.isTransient = false) : s.RunsWell (.error e, s) where
  failuresLeft := hleft
  refused _ heq := by
    cases heq
    exact ⟨h, rfl⟩

theorem RunsWell.of_ok {a : StoreAnswer} {s' : Store} (hleft : s'.failuresLeft = 0) :
    s.RunsWell (.ok a, s') where
  failuresLeft := hleft
  refused _ heq := by cases heq

theorem runsWell_guarded {α : Type} (hleft : s.failuresLeft = 0) (f : α → StoreAnswer)
    (run : Store → Outcome α) (h : s.RunsWell ((run s).map f)) :
    s.RunsWell ((s.guarded run).map f) := by
  have hguarded : s.guarded run = run s := by simp only [guarded, hleft]
  rwa [hguarded]

theorem runsWell_update (hleft : s.failuresLeft = 0) (claimed next : Entry) (now : Timestamp) :
    s.RunsWell (s.apply (.update claimed next) now) := by
  refine runsWell_guarded hleft _ _ ?_
  cases hfind : s.liveEntry? claimed.id with
  | none => exact .of_refused hleft rfl
  | some stored =>
    simp only
    cases isSameClaim stored claimed with
    | false => exact .of_refused hleft rfl
    | true =>
      cases stored.state.canMoveTo next.state with
      | false => exact .of_refused hleft rfl
      | true => exact .of_ok hleft

theorem runsWell_reap (hleft : s.failuresLeft = 0) (policy : ReapPolicy) (now : Timestamp) :
    s.RunsWell (s.apply (.reap policy) now) := by
  refine runsWell_guarded hleft _ _ ?_
  cases hcutoff : policy.cutoff now with
  | error e => exact .of_refused hleft (ReapPolicy.isTransient_of_cutoff hcutoff)
  | ok cutoff => exact .of_ok hleft

/-- Once no failure is left, every operation runs. -/
theorem runsWell_apply (hop : op.injects = false) (hleft : s.failuresLeft = 0) (now : Timestamp) :
    s.RunsWell (s.apply op now) := by
  cases op with
  | update claimed next => exact runsWell_update hleft claimed next now
  | reap policy => exact runsWell_reap hleft policy now
  | failNext count => cases hop
  | _ => exact runsWell_guarded hleft _ _ (.of_ok hleft)

/-- An operation uses up a failure, if one is left. -/
theorem failuresLeft_apply_of_not_injects (hop : op.injects = false) (now : Timestamp) :
    (s.apply op now).2.failuresLeft = s.failuresLeft - 1 := by
  cases hleft : s.failuresLeft with
  | zero => exact (runsWell_apply hop hleft now).failuresLeft
  | succ left => rw [apply_of_failing hop hleft now]; rfl

/-- An operation that fails changes nothing but the number of failures that are left. -/
theorem snd_apply_of_error {e : StoreError} (h : (s.apply op now).1 = .error e) :
    (s.apply op now).2 = { s with failuresLeft := s.failuresLeft - 1 } := by
  have hop : op.injects = false := by
    cases op with
    | failNext count => cases h
    | _ => rfl
  cases hleft : s.failuresLeft with
  | zero =>
    rw [((runsWell_apply hop hleft now).refused e h).2, Nat.zero_sub, ← hleft]
  | succ left => rw [apply_of_failing hop hleft now]; rfl

/-- Trying again may help exactly when a failure was injected. -/
theorem fst_apply_eq_transient_iff (hop : op.injects = false) {e : StoreError}
    (he : e.isTransient = true) :
    (s.apply op now).1 = .error e ↔ s.failuresLeft ≠ 0 ∧ e = .injected := by
  cases hleft : s.failuresLeft with
  | zero =>
    refine ⟨fun h => ?_, fun h => absurd rfl h.1⟩
    rw [((runsWell_apply hop hleft now).refused e h).1] at he
    cases he
  | succ left =>
    rw [apply_of_failing hop hleft now]
    refine ⟨fun h => ⟨Nat.succ_ne_zero left, ?_⟩, fun h => h.2 ▸ rfl⟩
    exact (Except.error.inj h).symm

end Store

namespace Hub

/-- Operating on a hub operates on its store, and announces what the operation has to announce. -/
theorem operate_eq (h : Hub) (op : StoreOp) :
    h.operate op =
      ((h.store.apply op h.time).1,
        { h with store := (h.store.apply op h.time).2
                 notifier := (op.announces (h.store.apply op h.time).1).foldl
                   (fun n e => (n.fire e).2) h.notifier }) := by
  cases op with
  | append new =>
    simp only [operate, append, Store.apply]
    rcases h.store.append new h.time with ⟨_ | _, s⟩ <;> rfl
  | _ => rfl

/-- An operation that fails leaves tables, notifier and journal alone. -/
theorem operate_of_error {h : Hub} {e : StoreError} (herror : (h.operate op).1 = .error e) :
    op.announces (h.operate op).1 = [] ∧
      (h.operate op).2 =
        { h with store := { h.store with failuresLeft := h.store.failuresLeft - 1 } } := by
  have hquiet : op.announces (h.operate op).1 = [] := by
    rw [herror]
    cases op <;> rfl
  refine ⟨hquiet, ?_⟩
  rw [operate_eq] at herror hquiet ⊢
  rw [hquiet, Store.snd_apply_of_error herror]
  rfl

end Hub

namespace Store

/-! Which operations of a run fail. -/

/-- The operation of a place is hit by an injected failure: it is one of the next `n` after the last
injection before it, and that was one of `n` failures. -/
def IsMadeToFail (ops : List (StoreOp × Timestamp)) (j : Nat) : Prop :=
  ∃ i n t, ops[i]? = some (.failNext n, t) ∧ i < j ∧ j ≤ i + n ∧
    ∀ k, i < k → k < j → ∀ o ∈ ops[k]?, o.1.injects = false

variable {i j k : Nat}

/-- Where nothing is injected each operation uses up a failure. -/
theorem failuresLeft_stateAt (hk : k ≤ ops.length) (hik : i ≤ k)
    (h : ∀ m, i ≤ m → m < k → ∀ o ∈ ops[m]?, o.1.injects = false) :
    (s.stateAt ops k).failuresLeft = (s.stateAt ops i).failuresLeft - (k - i) := by
  obtain ⟨d, rfl⟩ := Nat.exists_eq_add_of_le hik
  induction d with
  | zero => simp
  | succ d ih =>
    have hlt : i + d < ops.length := hk
    obtain ⟨⟨op, t⟩, hat⟩ : ∃ o, ops[i + d]? = some o := ⟨_, List.getElem?_eq_getElem hlt⟩
    have hop : op.injects = false := h _ (Nat.le_add_right i d) (Nat.lt_succ_self _) _ hat
    have hbefore := ih (Nat.le_of_lt hlt) (Nat.le_add_right i d) fun m him hm =>
      h m him (Nat.lt_succ_of_lt hm)
    rw [← Nat.add_assoc, stateAt_succ hat, failuresLeft_apply_of_not_injects hop, hbefore]
    omega

/-- The last injection before a place, if there is one. -/
theorem exists_last_injection (ops : List (StoreOp × Timestamp)) (j : Nat) :
    (∀ k < j, ∀ o ∈ ops[k]?, o.1.injects = false) ∨
      ∃ i n t, ops[i]? = some (.failNext n, t) ∧ i < j ∧
        ∀ k, i < k → k < j → ∀ o ∈ ops[k]?, o.1.injects = false := by
  induction j with
  | zero => exact .inl fun k hk => absurd hk (Nat.not_lt_zero k)
  | succ j ih =>
    by_cases hj : ∀ o ∈ ops[j]?, o.1.injects = false
    · rcases ih with hnone | ⟨i, n, t, hi, hij, hbetween⟩
      · refine .inl fun k hk => ?_
        rcases Nat.lt_succ_iff_lt_or_eq.mp hk with hk | rfl
        · exact hnone k hk
        · exact hj
      · refine .inr ⟨i, n, t, hi, Nat.lt_succ_of_lt hij, fun k hik hk => ?_⟩
        rcases Nat.lt_succ_iff_lt_or_eq.mp hk with hk | rfl
        · exact hbetween k hik hk
        · exact hj
    · push Not at hj
      obtain ⟨⟨op, t⟩, hat, hinjects⟩ := hj
      cases op with
      | failNext n => exact .inr ⟨j, n, t, hat, Nat.lt_succ_self j, fun k hik hk => by omega⟩
      | _ => exact absurd rfl hinjects

/-- Failures are left exactly for the operations that are made to fail. -/
theorem failuresLeft_stateAt_ne_zero_iff (hj : j ≤ ops.length) :
    (empty.stateAt ops j).failuresLeft ≠ 0 ↔ IsMadeToFail ops j := by
  constructor
  · intro hleft
    rcases exists_last_injection ops j with hnone | ⟨i, n, t, hi, hij, hbetween⟩
    · rw [failuresLeft_stateAt hj (Nat.zero_le j) fun m _ => hnone m] at hleft
      exact absurd (Nat.zero_sub _) hleft
    · rw [failuresLeft_stateAt hj hij hbetween, stateAt_succ hi] at hleft
      have hn : n - (j - (i + 1)) ≠ 0 := hleft
      exact ⟨i, n, t, hi, hij, by omega, hbetween⟩
  · rintro ⟨i, n, t, hi, hij, hjn, hbetween⟩
    rw [failuresLeft_stateAt hj hij hbetween, stateAt_succ hi]
    have hn : n - (j - (i + 1)) ≠ 0 := by omega
    exact hn

theorem getElem?_fst_run (hj : ops[j]? = some (op, now)) :
    (s.run ops).1[j]? = some ((s.stateAt ops j).apply op now).1 := by
  have hevent := getElem?_events_of_getElem? (s := s) hj
  exact (List.getElem?_zip_eq_some.mp hevent).2

/-- The operations that fail for a while are those that are made to fail, and they all fail alike. -/
theorem answer_eq_injected_iff (hj : ops[j]? = some (op, now)) (hop : op.injects = false)
    {e : StoreError} (he : e.isTransient = true) :
    (empty.run ops).1[j]? = some (.error e) ↔ IsMadeToFail ops j ∧ e = .injected := by
  have hlt := (List.getElem?_eq_some_iff.mp hj).1
  rw [getElem?_fst_run hj, Option.some_inj, fst_apply_eq_transient_iff hop he,
    failuresLeft_stateAt_ne_zero_iff (Nat.le_of_lt hlt)]

/-! The run without its failures. -/

/-- Whether an operation, with its answer, is left when injections and the failures they cause are
removed. -/
def isSpared (o : (StoreOp × Timestamp) × Except StoreError StoreAnswer) : Bool :=
  !o.1.1.injects && !decide (o.2 = .error .injected)

/-- The operations of a run that are left when injections and the failures they cause are removed,
each with its answer. -/
def spared (s : Store) (ops : List (StoreOp × Timestamp)) :
    List ((StoreOp × Timestamp) × Except StoreError StoreAnswer) :=
  (ops.zip (s.run ops).1).filter isSpared

theorem spared_cons (s : Store) (o : StoreOp × Timestamp) (ops : List (StoreOp × Timestamp)) :
    s.spared (o :: ops) =
      (if isSpared (o, (s.apply o.1 o.2).1) then [(o, (s.apply o.1 o.2).1)] else []) ++
        (s.apply o.1 o.2).2.spared ops := by
  have hzip : (o :: ops).zip (s.run (o :: ops)).1 =
      (o, (s.apply o.1 o.2).1) :: ops.zip ((s.apply o.1 o.2).2.run ops).1 := rfl
  rw [spared, hzip, List.filter_cons]
  split <;> rfl

/-- Without injections and failures the other operations are answered alike, and the tables are the
same. -/
theorem run_spared (s : Store) (ops : List (StoreOp × Timestamp)) :
    s.healed.run ((s.spared ops).map Prod.fst) =
      ((s.spared ops).map Prod.snd, (s.run ops).2.healed) := by
  induction ops generalizing s with
  | nil => rfl
  | cons o rest ih =>
    obtain ⟨op, now⟩ := o
    have hrun : (s.run ((op, now) :: rest)).2 = ((s.apply op now).2.run rest).2 := rfl
    have hih := ih (s.apply op now).2
    rw [spared_cons, hrun]
    cases hop : op.injects with
    | true =>
      -- an injection changes only what is healed
      have hhealed : (s.apply op now).2.healed = s.healed := by
        cases op <;> first | rfl | cases hop
      rw [hhealed] at hih
      simpa only [isSpared, hop, Bool.not_true, Bool.false_and, Bool.false_eq_true, ↓reduceIte,
        List.nil_append] using hih
    | false =>
      cases hleft : s.failuresLeft with
      | succ left =>
        rw [apply_of_failing hop hleft] at hih ⊢
        have hhit : isSpared ((op, now), .error .injected) = false := by simp [isSpared]
        simp only [hhit, Bool.false_eq_true, ↓reduceIte, List.nil_append]
        exact hih
      | zero =>
        have hwell := runsWell_apply hop hleft now
        have hkept : isSpared ((op, now), (s.apply op now).1) = true := by
          have hanswer : (s.apply op now).1 ≠ .error .injected := fun h => by
            have := (hwell.refused _ h).1
            cases this
          simp [isSpared, hop, hanswer]
        rw [healed_of_eq_zero hwell.failuresLeft] at hih
        rw [healed_of_eq_zero hleft]
        simp only [hkept, ↓reduceIte, List.singleton_append, List.map_cons, run, hih]

/-- A failure leaves no trace. Whatever is operated on, in whatever state: an operation announces
what it appended and nothing else, and one that fails announces nothing and leaves the hub as it
was, except that an injected failure is used up. In every run exactly the operations that come next
after an injection of `n` failures, `n` of them unless there is another injection before, find the
store unavailable. Without these and without the injections all other operations are answered the
same and the tables are the same in the end. -/
theorem failures_leave_no_trace :
    (∀ (h : Hub) (op : StoreOp),
      (h.operate op).2.notifier =
          (op.announces (h.operate op).1).foldl (fun n e => (n.fire e).2) h.notifier ∧
        ∀ e, (h.operate op).1 = .error e → op.announces (h.operate op).1 = [] ∧
          (h.operate op).2 =
            { h with store := { h.store with failuresLeft := h.store.failuresLeft - 1 } }) ∧
    ∀ ops : List (StoreOp × Timestamp),
      (∀ j op now, ops[j]? = some (op, now) → op.injects = false → ∀ detail,
        ((empty.run ops).1[j]? = some (.error (.unavailable detail)) ↔
          IsMadeToFail ops j ∧ detail = "injected failure")) ∧
      empty.run ((empty.spared ops).map Prod.fst) =
        ((empty.spared ops).map Prod.snd, { (empty.run ops).2 with failuresLeft := 0 }) := by
  refine ⟨fun h op => ⟨?_, fun e => Hub.operate_of_error⟩, fun ops => ⟨?_, run_spared empty ops⟩⟩
  · rw [Hub.operate_eq]
  · intro j op now hj hop detail
    rw [answer_eq_injected_iff hj hop rfl, StoreError.injected, StoreError.unavailable.injEq]

/-- After an injection of two failures a claim and an append fail; then the claim succeeds, an
update is refused, and so is a reap whose claims would have to be older than time. -/
def outageRun : List (StoreOp × Timestamp) :=
  [(.append ⟨⟨"order", []⟩, ⟨"node"⟩, .none⟩, .epoch), (.failNext 2, .epoch),
   (.claim 1 ⟨"node"⟩ none, .epoch),
   (.append ⟨⟨"order", []⟩, ⟨"node"⟩, .none⟩, .epoch), (.claim 1 ⟨"node"⟩ none, .epoch),
   (.update firstClaim { firstClaim with state := .inProcessing }, .epoch),
   (.reap ⟨.max, 3, false⟩, .epoch), (.find ⟨1⟩, .epoch)]

theorem failures_leave_no_trace_outageRun :
    (IsMadeToFail outageRun 3 ∧ (empty.run outageRun).1[3]? = some (.error .injected)) ∧
      (¬ IsMadeToFail outageRun 4 ∧
        (empty.run outageRun).1[4]? = some (.ok (.entries [firstClaim]))) ∧
      (empty.run outageRun).1[5]? = some (.error (.invalidMove ⟨1⟩ .inProcessing .inProcessing)) ∧
      (empty.spared outageRun).map Prod.fst =
        [0, 4, 5, 6, 7].filterMap (outageRun[·]?) ∧
      empty.run ((empty.spared outageRun).map Prod.fst) =
        ((empty.spared outageRun).map Prod.snd,
          { (empty.run outageRun).2 with failuresLeft := 0 }) := by
  obtain ⟨hfails, hspared⟩ := failures_leave_no_trace.2 outageRun
  have hclaim : (empty.run outageRun).1[4]? = some (.ok (.entries [firstClaim])) := rfl
  refine ⟨⟨?_, rfl⟩, ⟨fun hmade => ?_, hclaim⟩, rfl, rfl, hspared⟩
  · exact ((hfails 3 _ _ rfl rfl "injected failure").mp rfl).1
  · have hanswer := (hfails 4 _ _ rfl rfl "injected failure").mpr ⟨hmade, rfl⟩
    rw [hclaim] at hanswer
    cases hanswer

end Store

end DurableQueue
