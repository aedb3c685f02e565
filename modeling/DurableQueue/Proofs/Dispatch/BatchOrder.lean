import DurableQueue.Proofs.Dispatch.Foreground
import DurableQueue.Proofs.Dispatch.Resolution

/-!
The order in which a batch is processed does not matter.

While a batch is processed, the store is the one from before in which the claims are resolved that were stored
so far, and the counters are those from before with the attempts that are over (`InWork`). Both depend on
which claims these are, not on their order, so whoever is done with a batch leaves the same.
-/

namespace DurableQueue

/-- The attempt with a claim when it has begun. -/
def Setting.opening (g : Setting) (e : Entry) : Attempt :=
  match g.registry.prepare e with
  | .ok activity => .handling e activity.effects activity.result
  | .error outcome => .judged e outcome

namespace Attempt

/-- An attempt that ends as the setting decides. -/
def Fits (g : Setting) : Attempt → Prop
  | handling e effects result | sleeping e _ effects result =>
    (∀ effect ∈ effects, effect.IsOwn e.id) ∧ g.outcome e = result.outcome e.payload.eventType
  | judged e outcome => g.outcome e = outcome
  | storing e next outcome => g.record? e = some next ∧ g.outcome e = outcome
  | booking e verdict => g.verdict e = verdict

/-- How many steps an attempt takes at most. -/
def weight : Attempt → Nat
  | handling _ effects _ => 2 * effects.length + 4
  | sleeping _ _ effects _ => 2 * effects.length + 5
  | judged .. => 3
  | storing .. => 2
  | booking .. => 1

theorem fst_begin_of_prepare {g : Setting} {n : Node} {e : Entry}
    (hprepared : n.registry.prepare e = g.registry.prepare e) : (begin_ n e).1 = g.opening e := by
  unfold begin_ Setting.opening
  simp only [Node.count, hprepared]
  cases g.registry.prepare e <;> rfl

theorem fits_opening {g : Setting} {e : Entry}
    (hlocal : ∀ activity, g.registry.prepare e = .ok activity →
      ∀ effect ∈ activity.effects, effect.IsOwn e.id) :
    (g.opening e).Fits g := by
  unfold Setting.opening
  cases hanswer : g.registry.prepare e with
  | ok activity =>
    refine ⟨hlocal activity hanswer, ?_⟩
    rw [Setting.outcome, hanswer]
  | error outcome => rw [Fits, Setting.outcome, hanswer]

end Attempt

namespace Work

/-- The claim of an attempt that has stored its record. -/
def stored? : Work → Option Entry
  | begun (.booking e _) => some e
  | _ => none

def isBegun : Work → Bool
  | begun _ => true
  | waiting _ => false

/-- How many steps are to be done at most. -/
def weight (g : Setting) : Work → Nat
  | waiting e => (g.opening e).weight + 1
  | begun a => a.weight

def total (g : Setting) (ws : List Work) : Nat := (ws.map (weight g)).sum

theorem total_cons (g : Setting) (w : Work) (ws : List Work) :
    total g (w :: ws) = w.weight g + total g ws := by
  rw [total, List.map_cons, List.sum_cons, total]

theorem total_append (g : Setting) (ws ws' : List Work) : total g (ws ++ ws') = total g ws + total g ws' := by
  rw [total, List.map_append, List.sum_append, total, total]

theorem total_perm (g : Setting) {ws ws' : List Work} (h : ws.Perm ws') : total g ws = total g ws' :=
  (h.map _).sum_nat

theorem stored?_opening (g : Setting) (e : Entry) : stored? (.begun (g.opening e)) = none := by
  unfold Setting.opening
  cases g.registry.prepare e <;> rfl

end Work

/-- What is left to be done after a step of an attempt. -/
def Progress.work : Progress → List Work
  | going a => [.begun a]
  | finished | brokeDown => []

namespace Attempt

variable {draw : Draw} {h h' : Hub} {n n' : Node} {a : Attempt} {p : Progress}

/-- Every step of an attempt leaves less to do. -/
theorem weight_step? (hstep : a.step? draw h n = some (p, h', n')) (g : Setting) :
    Work.total g p.work < a.weight := by
  cases a with
  | handling e effects result =>
    cases effects with
    | nil =>
      cases hstep
      exact Nat.lt_succ_self 3
    | cons effect effects =>
      cases effect <;> cases hstep <;> simp only [Work.total, Progress.work, List.map_cons, List.map_nil,
        List.sum_cons, List.sum_nil, Work.weight, weight, List.length_cons] <;> omega
  | sleeping e wakeAt effects result =>
    simp only [step?] at hstep
    split at hstep
    · cases hstep
      exact Nat.lt_succ_self _
    · cases hstep
  | judged e outcome =>
    simp only [step?] at hstep
    split at hstep
    · cases hstep
      exact Nat.lt_succ_self 2
    · cases hstep
      exact Nat.succ_pos 2
  | storing e next outcome =>
    simp only [step?, store] at hstep
    split at hstep
    · cases hstep
      exact Nat.succ_pos 1
    · cases hstep
      exact Nat.lt_succ_self 1
  | booking e verdict =>
    cases hstep
    exact Nat.succ_pos 0

theorem isStaffed_step? (hstep : a.step? draw h n = some (p, h', n')) (hstaffed : n.IsStaffed) :
    n'.IsStaffed := by
  obtain ⟨-, ⟨registry, stats, rfl, -, -⟩, -, -⟩ := serves_step? hstep
  exact hstaffed

/-- The handler waits for a time that has not come. -/
def IsAsleep (h : Hub) (a : Attempt) : Prop := ∃ t ∈ a.wakeTime?, h.now < t

theorem isAsleep_of_step? (hstep : a.step? draw h n = none) : a.IsAsleep h := by
  cases a with
  | handling e effects result =>
    cases effects with
    | nil => cases hstep
    | cons effect effects => cases effect <;> cases hstep
  | sleeping e wakeAt effects result =>
    simp only [step?] at hstep
    split at hstep
    · cases hstep
    · rename_i hlate
      exact ⟨wakeAt, rfl, Nat.lt_of_not_le hlate⟩
  | judged e outcome =>
    simp only [step?] at hstep
    split at hstep <;> cases hstep
  | storing e next outcome => cases hstep
  | booking e verdict => cases hstep

end Attempt

namespace DispatchStats

theorem book_comm (s : DispatchStats) (v v' : Verdict) : (s.book v).book v' = (s.book v').book v := by
  cases v <;> cases v' <;> rfl

/-- The counters after attempts with these claims. -/
def bookAll (s : DispatchStats) (g : Setting) (l : List Entry) : DispatchStats :=
  l.foldl (fun s e => s.book (g.verdict e)) s

theorem inFlight_bookAll (s : DispatchStats) (g : Setting) (l : List Entry) :
    (s.bookAll g l).inFlight = s.inFlight := by
  induction l generalizing s with
  | nil => rfl
  | cons e l ih => exact (ih (s.book (g.verdict e))).trans (s.inFlight_book _)

theorem bookAll_perm (s : DispatchStats) (g : Setting) {l l' : List Entry} (h : l.Perm l') :
    s.bookAll g l = s.bookAll g l' :=
  h.foldl_eq' (fun _ _ _ _ s => s.book_comm _ _) s

theorem bookAll_concat (s : DispatchStats) (g : Setting) (l : List Entry) (e : Entry) :
    s.bookAll g (l ++ [e]) = (s.bookAll g l).book (g.verdict e) := by
  rw [bookAll, List.foldl_append]
  rfl

theorem withInFlight_book (s : DispatchStats) (v : Verdict) (k : Nat) :
    { s.book v with inFlight := k } = { s with inFlight := k }.book v := by
  cases v <;> rfl

end DispatchStats

/-- Distinct claims of a store, to be processed without jitter and without failures. -/
structure IsBatch (g : Setting) (s : Store) (es : List Entry) : Prop where
  wellFormed : s.IsWellFormed
  unfailing : s.failuresLeft = 0
  claims : ∀ e ∈ es, e ∈ Scene.claimsIn s
  distinct : es.Nodup
  jitterFree : g.policy.IsJitterFree

/-- A batch in processing: these claims are done, and this is what is still to be done. -/
structure InWork (g : Setting) (s : Store) (c : DispatchStats) (es done : List Entry) (h : Hub) (n : Node)
    (ws : List Work) : Prop where
  perm : (done ++ ws.map Work.entry).Perm es
  policy : n.config.retryPolicy = g.policy
  retryTime : n.time h = g.retryTime
  storeTime : h.time = g.storeTime
  unbroken : h.breakdowns.update = 0
  locals : n.registry.IsLocal
  /-- Nobody has remembered anything of claims that wait. -/
  prepared : ∀ e, .waiting e ∈ ws → n.registry.prepare e = g.registry.prepare e
  fits : ∀ a, .begun a ∈ ws → a.Fits g
  store : h.store = s.resolving g (done ++ ws.filterMap Work.stored?)
  stats : n.stats = { c.bookAll g done with inFlight := c.inFlight + ws.countP Work.isBegun }

namespace InWork

variable {g : Setting} {s : Store} {c : DispatchStats} {es done : List Entry} {h h' : Hub} {n n' : Node}
  {ws ws' rest : List Work} {draw : Draw} {a a' : Attempt} {e : Entry}

theorem congr (hwork : InWork g s c es done h n ws) (hws : ws.Perm ws') : InWork g s c es done h n ws' where
  perm := ((hws.map Work.entry).append_left done).symm.trans hwork.perm
  policy := hwork.policy
  retryTime := hwork.retryTime
  storeTime := hwork.storeTime
  unbroken := hwork.unbroken
  locals := hwork.locals
  prepared e he := hwork.prepared e (hws.mem_iff.mpr he)
  fits a ha := hwork.fits a (hws.mem_iff.mpr ha)
  store := by
    rw [hwork.store]
    have hperm := (hws.filterMap Work.stored?).append_left done
    exact Store.resolving_congr fun e => hperm.mem_iff
  stats := by rw [hwork.stats, hws.countP_eq]

theorem alike (hwork : InWork g s c es done h n ws) (halike : n.Alike n') : InWork g s c es done h n' ws where
  perm := hwork.perm
  policy := by rw [halike.config, hwork.policy]
  retryTime := by
    rw [← hwork.retryTime, Node.time, Node.time, halike.clock]
  storeTime := hwork.storeTime
  unbroken := hwork.unbroken
  locals := halike.registry ▸ hwork.locals
  prepared e he := by rw [halike.registry, hwork.prepared e he]
  fits := hwork.fits
  store := hwork.store
  stats := by rw [halike.stats, hwork.stats]

/-- Claims of one number are one claim. -/
theorem id_ne_of_mem (hbatch : IsBatch g s es) {w : Work} (hwork : InWork g s c es done h n (w :: rest))
    {v : Work}
    (hv : v ∈ rest) : v.entry.id ≠ w.entry.id := by
  have hall := hwork.perm.nodup_iff.mpr hbatch.distinct
  have hmem : ∀ e ∈ done ++ (w :: rest).map Work.entry, e ∈ s.stored := fun e he =>
    List.mem_append_left _ (List.mem_of_mem_filter (hbatch.claims e (hwork.perm.mem_iff.mp he)))
  intro hid
  have heq := hbatch.wellFormed.eq_of_id_eq
    (hmem _ (List.mem_append_right _ (List.mem_cons_of_mem _ (List.mem_map_of_mem hv))))
    (hmem _ (List.mem_append_right _ List.mem_cons_self)) hid
  have hrest := (List.nodup_cons.mp (List.nodup_append.mp hall).2.1).1
  exact hrest (heq ▸ List.mem_map_of_mem hv)

/-- An attempt that goes on, and leaves the store alone. -/
theorem goesOn (hbatch : IsBatch g s es) (hwork : InWork g s c es done h n (.begun a :: rest))
    (hentry : a'.entry = a.entry) (hfits : a'.Fits g)
    (hstored : Work.stored? (.begun a') = Work.stored? (.begun a)) (hstore : h'.store = h.store)
    (htime : h'.time = h.time) (hbreak : h'.breakdowns = h.breakdowns) (hconfig : n'.config = n.config)
    (hclock : n'.clock = n.clock) (hstats : n'.stats = n.stats) (hlocals : n'.registry.IsLocal)
    (hprepared : ∀ e, e.id ≠ a.entry.id → n'.registry.prepare e = n.registry.prepare e) :
    InWork g s c es done h' n' (.begun a' :: rest) where
  perm := by
    have hperm := hwork.perm
    rwa [List.map_cons, Work.entry, ← hentry] at hperm
  policy := by rw [hconfig, hwork.policy]
  retryTime := by rw [← hwork.retryTime, Node.time, Node.time, hclock, htime]
  storeTime := htime.trans hwork.storeTime
  unbroken := by rw [hbreak, hwork.unbroken]
  locals := hlocals
  prepared e he := by
    rcases List.mem_cons.mp he with heq | hrest
    · cases heq
    · rw [hprepared e (id_ne_of_mem hbatch hwork hrest), hwork.prepared e (List.mem_cons_of_mem _ hrest)]
  fits b hb := by
    rcases List.mem_cons.mp hb with heq | hrest
    · cases heq
      exact hfits
    · exact hwork.fits b (List.mem_cons_of_mem _ hrest)
  store := by rw [hstore, hwork.store, List.filterMap_cons, List.filterMap_cons, hstored]
  stats := by
    rw [hstats, hwork.stats, List.countP_cons, List.countP_cons]
    rfl

/-- An attempt that begins. -/
theorem begins (hwork : InWork g s c es done h n (.waiting e :: rest)) :
    InWork g s c es done h (Attempt.begin_ n e).2 (.begun (Attempt.begin_ n e).1 :: rest) := by
  have hprepared := hwork.prepared e List.mem_cons_self
  have hfits : (g.opening e).Fits g :=
    Attempt.fits_opening fun activity hactivity => hwork.locals.prepare (hprepared.trans hactivity)
  have hstored := Work.stored?_opening g e
  have hentry := Attempt.entry_begin_ n e
  rw [Attempt.fst_begin_of_prepare hprepared] at hentry ⊢
  rw [Attempt.snd_begin_]
  refine ⟨?_, hwork.policy, hwork.retryTime, hwork.storeTime, hwork.unbroken, hwork.locals,
    fun e' he' => ?_, fun b hb => ?_, ?_, ?_⟩
  · have hperm := hwork.perm
    rwa [List.map_cons, Work.entry, ← hentry] at hperm
  · rcases List.mem_cons.mp he' with heq | hrest
    · cases heq
    · exact hwork.prepared e' (List.mem_cons_of_mem _ hrest)
  · rcases List.mem_cons.mp hb with heq | hrest
    · cases heq
      exact hfits
    · exact hwork.fits b (List.mem_cons_of_mem _ hrest)
  · rw [hwork.store, List.filterMap_cons, List.filterMap_cons, hstored]
    rfl
  · rw [Node.count, hwork.stats, List.countP_cons, List.countP_cons]
    simp [Work.isBegun, Nat.add_assoc]

/-- What a handler does. -/
theorem performs (hbatch : IsBatch g s es) {effect : Effect} {effects : List Effect} {result : HandlerResult}
    (hwork : InWork g s c es done h n (.begun (.handling e (effect :: effects) result) :: rest)) :
    InWork g s c es done (Attempt.perform h n e effect).1 (Attempt.perform h n e effect).2
      (.begun (.handling e effects result) :: rest) := by
  obtain ⟨hown, houtcome⟩ := hwork.fits _ List.mem_cons_self
  obtain ⟨heffect, heffects⟩ := List.forall_mem_cons.mp hown
  have hfits : (Attempt.handling e effects result).Fits g := ⟨heffects, houtcome⟩
  have hleft : h.store.failuresLeft = 0 := by
    rw [hwork.store]
    exact hbatch.unfailing
  cases effect with
  | note note =>
    exact hwork.goesOn hbatch rfl hfits rfl rfl rfl rfl rfl rfl rfl hwork.locals fun _ _ => rfl
  | sleep span =>
    exact hwork.goesOn hbatch rfl hfits rfl rfl rfl rfl rfl rfl rfl hwork.locals fun _ _ => rfl
  | remember d =>
    refine hwork.goesOn hbatch rfl hfits rfl rfl rfl rfl rfl rfl rfl (hwork.locals.remember _ d)
      fun e' he' => ?_
    have hd : d.entryId = e.id := heffect
    exact Registry.prepare_remember hwork.locals (hd ▸ Ne.symm he')
  | operate op =>
    have hreads : (h.operate op).2 = h := by
      refine Hub.operate_of_isReading hleft ?_
      cases op with
      | count | find | search => trivial
      | _ => exact heffect.elim
    simp only [Attempt.perform, hreads]
    exact hwork.goesOn hbatch rfl hfits rfl rfl rfl rfl rfl rfl rfl hwork.locals fun _ _ => rfl

/-- The record of an attempt is stored. -/
theorem stores (hbatch : IsBatch g s es) {next : Entry} {outcome : DispatchOutcome}
    (hwork : InWork g s c es done h n (.begun (.storing e next outcome) :: rest)) :
    ∃ verdict s', Attempt.store h n e next outcome =
      (.going (.booking e verdict), { h with store := s' }, n) ∧
      InWork g s c es done { h with store := s' } n (.begun (.booking e verdict) :: rest) := by
  obtain ⟨hnext, rfl⟩ := hwork.fits _ List.mem_cons_self
  have hall := hwork.perm.nodup_iff.mpr hbatch.distinct
  have hclaim := List.mem_filter.mp (hbatch.claims e
    (hwork.perm.mem_iff.mp (List.mem_append_right _ List.mem_cons_self)))
  have hnew : e ∉ done ++ rest.filterMap Work.stored? := by
    intro he
    rcases List.mem_append.mp he with he | he
    · exact (List.nodup_append.mp hall).2.2 e he e List.mem_cons_self rfl
    · obtain ⟨w, hw, hstored⟩ := List.mem_filterMap.mp he
      have hentry : w.entry = e := by
        unfold Work.stored? at hstored
        split at hstored
        · exact Option.some.inj hstored
        · cases hstored
      have hrest := (List.nodup_cons.mp (List.nodup_append.mp hall).2.1).1
      have hin : w.entry ∈ rest.map Work.entry := List.mem_map_of_mem hw
      rw [hentry] at hin
      exact hrest hin
  have hupdate := Store.update_resolving hbatch.wellFormed hbatch.unfailing hclaim.1
    (beq_iff_eq.mp hclaim.2) hnew
    hnext
  have hbefore : h.store = s.resolving g (done ++ rest.filterMap Work.stored?) := hwork.store
  rw [← hbefore, ← hwork.storeTime] at hupdate
  refine ⟨Attempt.verdict next (g.outcome e),
    s.resolving g (e :: (done ++ rest.filterMap Work.stored?)), ?_, ?_⟩
  · simp only [Attempt.store, hwork.unbroken, hupdate]
  · refine ⟨hwork.perm, hwork.policy, hwork.retryTime, hwork.storeTime, hwork.unbroken, hwork.locals,
      fun e' he' => ?_, fun b hb => ?_, ?_, hwork.stats⟩
    · rcases List.mem_cons.mp he' with heq | hrest
      · cases heq
      · exact hwork.prepared e' (List.mem_cons_of_mem _ hrest)
    · rcases List.mem_cons.mp hb with heq | hrest
      · cases heq
        rw [Attempt.Fits, Setting.verdict, hnext]
      · exact hwork.fits b (List.mem_cons_of_mem _ hrest)
    · have hmoved : (done ++ e :: rest.filterMap Work.stored?).Perm
          (e :: (done ++ rest.filterMap Work.stored?)) := List.perm_middle
      exact Store.resolving_congr fun d => hmoved.mem_iff.symm

/-- An attempt is over. -/
theorem ends {verdict : Verdict} (hwork : InWork g s c es done h n (.begun (.booking e verdict) :: rest)) :
    InWork g s c es (done ++ [e]) h (Attempt.leave (n.count fun s => s.book verdict)) rest where
  perm := by
    rw [List.append_assoc]
    exact hwork.perm
  policy := hwork.policy
  retryTime := hwork.retryTime
  storeTime := hwork.storeTime
  unbroken := hwork.unbroken
  locals := hwork.locals
  prepared e he := hwork.prepared e (List.mem_cons_of_mem _ he)
  fits a ha := hwork.fits a (List.mem_cons_of_mem _ ha)
  store := by
    rw [hwork.store, List.append_assoc]
    rfl
  stats := by
    obtain rfl : g.verdict e = verdict := hwork.fits _ List.mem_cons_self
    have hcount : (n.stats.book (g.verdict e)).inFlight - 1 = c.inFlight + rest.countP Work.isBegun := by
      rw [DispatchStats.inFlight_book, hwork.stats, List.countP_cons]
      simp only [Work.isBegun, if_true]
      omega
    have hleft : (Attempt.leave (n.count fun s => s.book (g.verdict e))).stats =
        { n.stats.book (g.verdict e) with inFlight := (n.stats.book (g.verdict e)).inFlight - 1 } := rfl
    rw [hleft, hcount, hwork.stats, DispatchStats.withInFlight_book, DispatchStats.bookAll_concat,
      DispatchStats.withInFlight_book]

/-- An attempt goes on or is over, and never breaks down. -/
theorem attempts (hbatch : IsBatch g s es) {p : Progress}
    (hwork : InWork g s c es done h n (.begun a :: rest))
    (hattempt : a.step? draw h n = some (p, h', n')) :
    p ≠ .brokeDown ∧ ∃ done', InWork g s c es done' h' n' (p.work ++ rest) := by
  have hgoing (a' : Attempt) : Progress.going a' ≠ .brokeDown := fun hp => by cases hp
  have hfits := hwork.fits a List.mem_cons_self
  cases a with
  | handling e effects result =>
    obtain ⟨hown, houtcome⟩ := hfits
    cases effects with
    | nil =>
      cases hattempt
      exact ⟨hgoing _, done, hwork.goesOn hbatch rfl houtcome rfl rfl rfl rfl rfl rfl rfl hwork.locals
        fun _ _ => rfl⟩
    | cons effect effects =>
      have hperformed := hwork.performs hbatch
      cases effect with
      | sleep span =>
        cases hattempt
        have hfits : (Attempt.sleeping e (h.after span) effects result).Fits g :=
          ⟨(List.forall_mem_cons.mp hown).2, houtcome⟩
        exact ⟨hgoing _, done, hwork.goesOn hbatch rfl hfits rfl rfl rfl rfl rfl rfl rfl hwork.locals
          fun _ _ => rfl⟩
      | _ =>
        cases hattempt
        exact ⟨hgoing _, done, hperformed⟩
  | sleeping e wakeAt effects result =>
    simp only [Attempt.step?] at hattempt
    split at hattempt
    · cases hattempt
      exact ⟨hgoing _, done, hwork.goesOn hbatch rfl hfits rfl rfl rfl rfl rfl rfl rfl hwork.locals
        fun _ _ => rfl⟩
    · cases hattempt
  | judged e outcome =>
    have houtcome : g.outcome e = outcome := hfits
    simp only [Attempt.step?, hwork.policy, hwork.retryTime] at hattempt
    rw [DispatchOutcome.nextEntry_eq hbatch.jitterFree draw some] at hattempt
    split at hattempt
    · rename_i next hnext
      cases hattempt
      have hrecord : g.record? e = some next := by rw [Setting.record?, houtcome, hnext]
      have hfits : (Attempt.storing e next outcome).Fits g := ⟨hrecord, houtcome⟩
      exact ⟨hgoing _, done, hwork.goesOn hbatch rfl hfits rfl rfl rfl rfl rfl rfl rfl hwork.locals
        fun _ _ => rfl⟩
    · rename_i hnone
      exact absurd hnone (DispatchOutcome.nextEntry_ne_none_of_jitterFree hbatch.jitterFree some)
  | storing e next outcome =>
    obtain ⟨verdict, s', hstore, hstored⟩ := hwork.stores hbatch
    cases hstore.symm.trans (Option.some.inj hattempt)
    exact ⟨hgoing _, done, hstored⟩
  | booking e verdict =>
    cases hattempt
    exact ⟨fun hp => (by cases hp), done ++ [e], hwork.ends⟩

/-- A step of the work keeps to the batch, keeps a worker for what waits and leaves less to do. -/
theorem works {ready : Prop} (hbatch : IsBatch g s es) (hwork : InWork g s c es done h n ws)
    (hstep : Works ready draw h n ws h' n' ws') :
    (∃ done', InWork g s c es done' h' n' ws') ∧ (n.IsStaffed → n'.IsStaffed) ∧
      (ready → Work.total g ws' < Work.total g ws) := by
  cases hstep with
  | rests ws start now unready still halike =>
    have htime : n.time { h with start, now } = g.retryTime := by
      rw [← hwork.retryTime, Node.time, Node.time, still]
    refine ⟨⟨done, alike ?_ halike⟩, halike.staffed, fun hready => absurd hready unready⟩
    exact ⟨hwork.perm, hwork.policy, htime, still.trans hwork.storeTime, hwork.unbroken, hwork.locals,
      hwork.prepared, hwork.fits, hwork.store, hwork.stats⟩
  | @begins e _ rest halike =>
    have hopening := Attempt.fst_begin_of_prepare (hwork.prepared e List.mem_cons_self)
    refine ⟨⟨done, hwork.begins.alike halike⟩, fun hstaffed => halike.staffed ?_, fun _ => ?_⟩
    · rw [Attempt.snd_begin_]
      exact hstaffed
    · rw [hopening, Work.total_cons, Work.total_cons]
      exact Nat.add_lt_add_right (Nat.lt_succ_self _) _
  | @goes a a' _ _ _ rest hattempt halike =>
    obtain ⟨-, done', hwork'⟩ := hwork.attempts hbatch hattempt
    refine ⟨⟨done', hwork'.alike halike⟩, halike.staffed ∘ Attempt.isStaffed_step? hattempt, fun _ => ?_⟩
    have hweight := Attempt.weight_step? hattempt g
    rw [Work.total_cons g (.begun a), ← List.singleton_append, Work.total_append]
    exact Nat.add_lt_add_right hweight _
  | @ends a _ _ _ rest hattempt halike =>
    obtain ⟨-, done', hwork'⟩ := hwork.attempts hbatch hattempt
    refine ⟨⟨done', hwork'.alike halike⟩, halike.staffed ∘ Attempt.isStaffed_step? hattempt, fun _ => ?_⟩
    have hweight := Attempt.weight_step? hattempt g
    rw [Work.total_cons]
    exact Nat.lt_add_of_pos_left (Nat.zero_lt_of_lt hweight)
  | breaks rest ws' hattempt => exact absurd rfl (hwork.attempts hbatch hattempt).1

theorem worksUpTo {ready : Prop} (hbatch : IsBatch g s es) (hwork : InWork g s c es done h n ws)
    (hstep : WorksUpTo ready draw h n ws h' n' ws') :
    (∃ done', InWork g s c es done' h' n' ws') ∧ (n.IsStaffed → n'.IsStaffed) ∧
      (ready → Work.total g ws' < Work.total g ws) := by
  obtain ⟨vs, vs', hvs, hworks, hvs'⟩ := hstep
  obtain ⟨⟨done', hwork'⟩, hstaffed, hless⟩ := (hwork.congr hvs).works hbatch hworks
  rw [Work.total_perm g hvs, ← Work.total_perm g hvs']
  exact ⟨⟨done', hwork'.congr hvs'⟩, hstaffed, hless⟩

/-- When nothing is left to be done, the whole batch is resolved and booked. -/
theorem finished (hwork : InWork g s c es done h n []) :
    h.store = s.resolving g es ∧ n.stats = c.bookAll g es := by
  have hperm : done.Perm es := by
    have hperm := hwork.perm
    rwa [List.map_nil, List.append_nil] at hperm
  refine ⟨?_, ?_⟩
  · rw [hwork.store, List.filterMap_nil, List.append_nil]
    exact Store.resolving_congr fun e => hperm.mem_iff
  · rw [hwork.stats, List.countP_nil, Nat.add_zero, ← DispatchStats.inFlight_bookAll c g done,
      DispatchStats.bookAll_perm c g hperm]

end InWork

end DurableQueue
