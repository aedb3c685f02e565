import DurableQueue.Proofs.Lock.OneCall

/-!
Whatever happens to a locker, as one lock sees it.

`Locker.on?` says whether something that happens concerns a lock, and what it is where calls and watches are
counted among those of this lock alone. If it does, it leaves the same on both sides (`Locker.Shows.act`); if
not, it does not show (`Locker.Shows.act_elsewhere`).
-/

namespace DurableQueue

open Coordinator Trial

namespace LockCall

theorem isAtHome_of_lock? {c : LockCall} {lock : GlobalLock} (hhome : c.progress.IsAtHome c.request)
    (hlock : c.lock? = some lock) : lock.hold.IsAtHome c.request := by
  rwa [progress_of_lock? hlock] at hhome

theorem Alike.lock?_eq {Q W : Nat → Nat → Prop} {c c' : LockCall} (h : c.Alike Q W c') :
    c'.lock? = c.lock? := by
  rw [lock?, lock?, h.outcome?_eq]

end LockCall

namespace Locker

variable {p : LockName} {Q Q' : Nat → Nat → Prop} {l l' l₁ : Locker} {i i' : Nat} {c c' : LockCall}
  {x x' : LockAction} {lock : GlobalLock}

/-- The number of a call among those on a lock. -/
def number? (l : Locker) (p : LockName) (i : Nat) : Option Nat :=
  rank? (LockRequest.isOn p) (l.calls.map LockCall.request) i

/-- The number of a watch among those in the directory of a lock. -/
def watchNumber? (l : Locker) (p : LockName) (w : Nat) : Option Nat :=
  rank? (fun path => parentOf path == p.directory) l.coordination.coordinator.watchPaths w

theorem number?_eq_some_iff : l.number? p i = some i' ↔ LockCall.Numbered p l.calls i i' := rank?_eq_some_iff

theorem watchNumber?_eq_some_iff {w w' : Nat} :
    l.watchNumber? p w = some w' ↔ l.coordination.coordinator.Watched p.directory w w' := rank?_eq_some_iff

theorem isOn_of_number?_eq_none (hnumber : l.number? p i = none) (hi : l.calls[i]? = some c) :
    c.request.isOn p = false := by
  have hkind := rank?_eq_none_iff.mp hnumber
  rwa [List.getElem?_map, hi] at hkind

/-- What happens to a lock, where nothing but this lock is counted; none if it is about others. -/
def on? (p : LockName) (l : Locker) : LockAction → Option LockAction
  | .task (.call i) => (l.number? p i).map fun i => .task (.call i)
  | .task (.watch i w) => (l.number? p i).bind fun i => (l.watchNumber? p w).map fun w => .task (.watch i w)
  | .task (.events i) => (l.number? p i).map fun i => .task (.events i)
  | .task (.cleanup k) => if parentOf k.node = p.directory then some (.task (.cleanup k)) else none
  | .timeOut i => (l.number? p i).map .timeOut
  | .start r => if r.isOn p then some (.start r) else none
  | .abort i => (l.number? p i).map .abort
  | .detach i => (l.number? p i).map .detach
  | .part i way => (l.number? p i).map fun i => .part i way
  | .isFree client service key => if ⟨service, key⟩ = p then some (.isFree client service key) else none
  | .openSession => some .openSession
  | .clone client => some (.clone client)
  | .undergo client change => some (.undergo client change)
  | .pass millis => some (.pass millis)

/-- A contender hears something. -/
def hear? (l : Locker) (i : Nat) (hears : Acquisition → Option Acquisition) : Option Locker := do
  let a ← hears (← l.acquisition? i)
  return l.setProgress i (.shared a)

theorem exists_call_of_hear? {hears : Acquisition → Option Acquisition} (h : l.hear? i hears = some l₁) :
    ∃ c, l.calls[i]? = some c := by
  obtain ⟨a, ha, -⟩ := Option.bind_eq_some_iff.mp h
  obtain ⟨c, hi, -⟩ := Option.bind_eq_some_iff.mp ha
  exact ⟨c, hi⟩

theorem timeOut?_eq_hear? (hi : l.calls[i]? = some c) :
    l.timeOut? i = if c.isAborted then none else l.hear? i (Acquisition.timeOut? l.now) := by
  unfold timeOut? hear? acquisition?
  simp only [hi, bind, Option.bind]
  cases c.acquisition? with
  | none => exact (ite_self none).symm
  | some a =>
    simp only
    cases a.timeOut? l.now with
    | none => exact (ite_self none).symm
    | some a => rfl

/-- A call of which someone lets go changes, or the lock that it acquired is dropped. -/
def letGo (l : Locker) (i : Nat) (f : LockCall → LockCall) : Locker :=
  match (l.calls[i]?).bind LockCall.lock? with
  | some lock => (l.drop lock).refresh
  | none => { l with calls := l.calls.modify i f }.refresh

theorem abort_eq_letGo : l.abort i = l.letGo i fun c => { c with isAborted := true } := by
  unfold abort letGo
  rw [Option.bind_assoc]
  rfl

theorem detach_eq_letGo : l.detach i = l.letGo i fun c => { c with isDetached := true } := by
  unfold detach letGo
  rw [Option.bind_assoc]
  rfl

theorem isFree_snd (h : l.coordination.IsFaultless) (client : Nat) (service key : String) :
    (l.isFree client service key).2 = l := by
  unfold isFree
  cases lockDirectory service key with
  | error e => rfl
  | ok directory =>
    dsimp only
    split
    · rfl
    · rcases Coordination.children_cases h client directory with ⟨-, heq⟩ | ⟨-, heq⟩ <;> rw [heq]

namespace Shows

/-- A contender for the lock hears something on both sides. -/
theorem hear? (h : Shows p Q l l') (hnumber : LockCall.Numbered p l.calls i i')
    {f f' : Acquisition → Option Acquisition}
    (hf : ∀ a a', a.Alike (l.coordination.coordinator.Watched p.directory) a' →
      Option.Rel (Acquisition.Alike (l.coordination.coordinator.Watched p.directory)) (f a) (f' a'))
    (hkeeps : ∀ a b, a.IsAtHome → f a = some b → b.IsAtHome ∧ b.directory = a.directory) :
    Option.Rel (Shows p Q) (l.hear? i f) (l'.hear? i' f') := by
  obtain ⟨c, c', hi, hi', halike⟩ := h.exists_call hnumber
  have hhome := h.calls.home c (List.mem_of_getElem? hi)
  have hprogress := halike.progress
  unfold Locker.hear? acquisition? LockCall.acquisition?
  simp only [hi, hi', bind, Option.bind]
  generalize c.progress = g, c'.progress = g' at hprogress hhome
  cases hprogress with
  | @shared a a' ha =>
    have hheard := hf a a' ha
    have hkept := hkeeps a
    simp only
    generalize f a = o, f' a' = o' at hheard hkept
    cases hheard with
    | none => exact .none
    | @some b b' hb =>
      obtain ⟨hb', hdirectory⟩ := hkept b hhome.2 rfl
      exact .some (h.setProgress hnumber hi hi' halike (.shared hb) ⟨hdirectory.symm ▸ hhome.1, hb'⟩)
  | _ => exact .none

/-- A contender for another lock hears something. -/
theorem hear?_elsewhere (h : Shows p Q l l') (hi : l.calls[i]? = some c) (hoff : c.request.isOn p = false)
    {f : Acquisition → Option Acquisition}
    (hkeeps : ∀ a b, a.IsAtHome → f a = some b → b.IsAtHome ∧ b.directory = a.directory)
    (hstep : l.hear? i f = some l₁) : Shows p Q l₁ l' := by
  have hhome := h.calls.home c (List.mem_of_getElem? hi)
  obtain ⟨a, ha, hstep⟩ := Option.bind_eq_some_iff.mp hstep
  obtain ⟨b, hb, hstep⟩ := Option.bind_eq_some_iff.mp hstep
  cases hstep
  rw [acquisition?, hi] at ha
  rw [LockCall.progress_of_acquisition? ha] at hhome
  obtain ⟨hb', hdirectory⟩ := hkeeps a b hhome.2 hb
  exact h.setProgress_elsewhere hi hoff nofun ⟨hdirectory.symm ▸ hhome.1, hb'⟩

/-- A watch in another directory is none of a contender for the lock. -/
theorem watch_eq_none (h : Shows p Q l l') (hnumber : LockCall.Numbered p l.calls i i') {w : Nat}
    (hw : l.watchNumber? p w = none) : step? (.watch i w) l = none := by
  obtain ⟨c, c', hi, -, halike⟩ := h.exists_call hnumber
  change (l.hear? i fun a => a.hearWatch? w l.coordination) = none
  rw [Locker.hear?, acquisition?, hi]
  have hprogress := halike.progress
  unfold LockCall.acquisition?
  simp only [bind, Option.bind]
  generalize c.progress = g, c'.progress = g' at hprogress
  cases hprogress with
  | @shared a a' ha =>
    have hnone : a.hearWatch? w l.coordination = none := by
      refine if_neg fun hheard => ?_
      simp only [Bool.and_eq_true, List.contains_iff_mem] at hheard
      obtain ⟨w', hw'⟩ := ha.exists_of_mem hheard.1.2
      rw [watchNumber?_eq_some_iff.mpr hw'] at hw
      cases hw
    simp only [hnone]
  | _ => rfl

/-- A node in the directory of the lock is deleted. -/
theorem cleanup (h : Shows p Q l l') {k : LockCleanup} (hk : parentOf k.node = p.directory) :
    Option.Rel (Shows p Q) (step? (.cleanup k) l) (step? (.cleanup k) l') := by
  have hcontains : l'.cleanups.contains k = l.cleanups.contains k := by
    rw [h.cleanups, Bool.eq_iff_iff, List.contains_iff_mem, List.contains_iff_mem, List.mem_filter,
      beq_iff_eq]
    exact and_iff_left hk
  have hdelete : (l'.coordination.delete k.client k.node).2 =
      (l.coordination.delete k.client k.node).2.only p.directory := by
    rw [h.coordination, Coordination.delete_only h.tidy.faultless k.client hk]
  unfold step?
  simp only [hcontains, hdelete]
  split
  · have hleft := h.withCoordination ⟨_, Coordination.delete_eq_after h.tidy.faultless k.client k.node⟩
    exact .some { hleft with cleanups := by rw [h.cleanups, List.erase_filter] }
  · exact .none

/-- A node in another directory is deleted. -/
theorem cleanup_elsewhere (h : Shows p Q l l') {k : LockCleanup} (hk : parentOf k.node ≠ p.directory)
    (hstep : step? (.cleanup k) l = some l₁) : Shows p Q l₁ l' := by
  have hcleanups : (l.cleanups.erase k).filter (fun k => parentOf k.node == p.directory) =
      l.cleanups.filter fun k => parentOf k.node == p.directory := by
    rw [← List.erase_filter]
    exact List.erase_of_not_mem fun hmem => hk (beq_iff_eq.mp (List.mem_filter.mp hmem).2)
  unfold step? at hstep
  simp only at hstep
  split at hstep
  · cases hstep
    have hleft := h.withCoordination_elsewhere
      ⟨_, Coordination.delete_eq_after h.tidy.faultless k.client k.node⟩
      (Coordination.only_delete h.tidy.faultless k.client hk)
    exact { hleft with cleanups := h.cleanups.trans hcleanups.symm }
  · cases hstep

/-- A contender for the lock gives up. -/
theorem timeOut? (h : Shows p Q l l') (hnumber : LockCall.Numbered p l.calls i i') :
    Option.Rel (Shows p Q) (l.timeOut? i) (l'.timeOut? i') := by
  obtain ⟨c, c', hi, hi', halike⟩ := h.exists_call hnumber
  rw [timeOut?_eq_hear? hi, timeOut?_eq_hear? hi', halike.isAborted, h.now]
  cases c.isAborted with
  | true => exact .none
  | false => exact h.hear? hnumber (fun _ _ ha => ha.timeOut?) fun _ _ ha hstep => ha.timeOut? hstep

theorem timeOut?_elsewhere (h : Shows p Q l l') (hi : l.calls[i]? = some c) (hoff : c.request.isOn p = false)
    (hstep : l.timeOut? i = some l₁) : Shows p Q l₁ l' := by
  rw [timeOut?_eq_hear? hi] at hstep
  split at hstep
  · cases hstep
  · exact h.hear?_elsewhere hi hoff (fun _ _ ha hstep => ha.timeOut? hstep) hstep

/-- Whoever releases the lock is told the same on both sides. -/
theorem release (h : Shows p Q l l') {r : LockRequest} (hon : r.isOn p = true)
    (hlock : lock.hold.IsAtHome r) :
    (l'.release lock).1 = (l.release lock).1 ∧ Shows p Q (l.release lock).2 (l'.release lock).2 := by
  unfold Locker.release
  cases hhold : lock.hold with
  | inProcess path =>
    rw [hhold] at hlock
    obtain rfl := (LockRequest.IsFor.eq_directory_iff hlock p).mpr hon
    exact ⟨rfl, h.unlock.refresh⟩
  | shared client node =>
    rw [hhold] at hlock
    have hnode := (LockRequest.IsFor.eq_directory_iff hlock p).mpr hon
    have hleft := h.withCoordination ⟨_, Coordination.delete_eq_after h.tidy.faultless client node⟩
    dsimp only
    rw [h.coordination, Coordination.delete_only h.tidy.faultless client hnode]
    exact ⟨rfl, hleft.refresh⟩

theorem release_elsewhere (h : Shows p Q l l') {r : LockRequest} (hoff : r.isOn p = false)
    (hlock : lock.hold.IsAtHome r) : Shows p Q (l.release lock).2 l' := by
  unfold Locker.release
  cases hhold : lock.hold with
  | inProcess path =>
    rw [hhold] at hlock
    exact (h.unlock_elsewhere (hlock.ne_directory hoff)).refresh_elsewhere
  | shared client node =>
    rw [hhold] at hlock
    exact (h.withCoordination_elsewhere ⟨_, Coordination.delete_eq_after h.tidy.faultless client node⟩
      (Coordination.only_delete h.tidy.faultless client (hlock.ne_directory hoff))).refresh_elsewhere

/-- The lock is dropped where nothing can run in the background. -/
theorem dropOutside (h : Shows p Q l l') {r : LockRequest} (hon : r.isOn p = true)
    (hlock : lock.hold.IsAtHome r) :
    Shows p Q (l.dropOutside lock) (l'.dropOutside lock) := by
  unfold Locker.dropOutside
  cases hhold : lock.hold with
  | inProcess path =>
    rw [hhold] at hlock
    obtain rfl := (LockRequest.IsFor.eq_directory_iff hlock p).mpr hon
    exact h.unlock
  | shared client node => exact h

theorem dropOutside_elsewhere (h : Shows p Q l l') {r : LockRequest} (hoff : r.isOn p = false)
    (hlock : lock.hold.IsAtHome r) : Shows p Q (l.dropOutside lock) l' := by
  unfold Locker.dropOutside
  cases hhold : lock.hold with
  | inProcess path =>
    rw [hhold] at hlock
    exact h.unlock_elsewhere (hlock.ne_directory hoff)
  | shared client node => exact h

/-- Whoever has the lock parts with it. -/
theorem partWith (h : Shows p Q l l') {r : LockRequest} (hon : r.isOn p = true) (hlock : lock.hold.IsAtHome r)
    (way : LockParting) : Shows p Q (l.partWith lock way) (l'.partWith lock way) := by
  cases way with
  | released => exact (h.release hon hlock).2
  | dropped => exact (h.drop hon hlock).refresh
  | droppedOutside => exact (h.dropOutside hon hlock).refresh

theorem partWith_elsewhere (h : Shows p Q l l') {r : LockRequest} (hoff : r.isOn p = false)
    (hlock : lock.hold.IsAtHome r) (way : LockParting) : Shows p Q (l.partWith lock way) l' := by
  cases way with
  | released => exact h.release_elsewhere hoff hlock
  | dropped => exact (h.drop_elsewhere hoff hlock).refresh_elsewhere
  | droppedOutside => exact (h.dropOutside_elsewhere hoff hlock).refresh_elsewhere

theorem letGo (h : Shows p Q l l') (hnumber : LockCall.Numbered p l.calls i i') {f : LockCall → LockCall}
    (hf : ∀ W c c', c.Alike Q W c' → (f c).Alike Q W (f c')) (hrequest : ∀ c, (f c).request = c.request)
    (hprogress : ∀ c, (f c).progress = c.progress) : Shows p Q (l.letGo i f) (l'.letGo i' f) := by
  obtain ⟨c, c', hi, hi', halike⟩ := h.exists_call hnumber
  have hhome := h.calls.home c (List.mem_of_getElem? hi)
  have hon := LockCall.Shown.isOn_of_numbered hnumber hi
  unfold Locker.letGo
  rw [hi, hi', Option.bind_some, Option.bind_some, halike.lock?_eq]
  cases hlock : c.lock? with
  | some lock => exact (h.drop hon (LockCall.isAtHome_of_lock? hhome hlock)).refresh
  | none =>
    rw [modify_eq_set_of_getElem? hi, modify_eq_set_of_getElem? hi']
    exact (h.setCall hnumber hi hi' (hrequest c) (hf _ c c' halike) ((hprogress c).symm ▸ hhome)).refresh

theorem letGo_elsewhere (h : Shows p Q l l') (hnumber : l.number? p i = none) {f : LockCall → LockCall}
    (hrequest : ∀ c, (f c).request = c.request) (hprogress : ∀ c, (f c).progress = c.progress) :
    Shows p Q (l.letGo i f) l' := by
  unfold Locker.letGo
  cases hi : l.calls[i]? with
  | none =>
    rw [List.modify_eq_self (List.getElem?_eq_none_iff.mp hi)]
    exact h.refresh_elsewhere
  | some c =>
    have hhome := h.calls.home c (List.mem_of_getElem? hi)
    have hoff := isOn_of_number?_eq_none hnumber hi
    rw [Option.bind_some]
    cases hlock : c.lock? with
    | some lock => exact (h.drop_elsewhere hoff (LockCall.isAtHome_of_lock? hhome hlock)).refresh_elsewhere
    | none =>
      rw [modify_eq_set_of_getElem? hi]
      exact (h.setCall_elsewhere hi hoff (hrequest c)
        (fun w hw => h.isElsewhere hi hoff ((hprogress c).symm.trans hw))
        ((hprogress c).symm ▸ hhome)).refresh_elsewhere

/-- The lock is found free on both sides, or on neither. -/
theorem isFree_fst (h : Shows p Q l l') (client : Nat) :
    (l'.isFree client p.service p.key).1 = (l.isFree client p.service p.key).1 := by
  unfold Locker.isFree
  cases hdirectory : lockDirectory p.service p.key with
  | error e => rfl
  | ok directory =>
    obtain rfl := (directory_eq_iff hdirectory p).mpr rfl
    rw [h.backend]
    cases l.backend with
    | inProcess => exact congrArg (fun isHeld => Except.ok (!isHeld)) h.locals.isHeld_eq.symm
    | shared =>
      simp only
      rw [h.coordination, Coordination.children_only h.tidy.faultless]

theorem clients_eq (h : Shows p Q l l') : l'.coordination.clients = l.coordination.clients := by
  rw [h.coordination]
  rfl

theorem numbered_concat (r : LockRequest) (hnumber : LockCall.Numbered p l.calls i i') :
    LockCall.Numbered p (l.calls ++ [.ofRequest r]) i i' := by
  rw [LockCall.Numbered, List.map_append]
  exact hnumber.append _

theorem start (h : Shows p Q l l') {r : LockRequest} (hon : r.isOn p = true) :
    Shows p Q (l.start r).2 (l'.start r).2 :=
  refresh { h with calls := h.calls.concat hon, locals := h.locals.imp fun _ _ => numbered_concat r }

theorem start_elsewhere (h : Shows p Q l l') {r : LockRequest} (hoff : r.isOn p = false) :
    Shows p Q (l.start r).2 l' :=
  refresh_elsewhere { h with
    calls := h.calls.concat_elsewhere hoff
    locals := h.locals.imp fun _ _ => numbered_concat r }

/-- The service changes in a way that has to do with no lock in particular. -/
theorem change (h : Shows p Q l l') (ch : ServiceChange)
    (honly : (l.coordination.only p.directory).after ch = (l.coordination.after ch).only p.directory) :
    Shows p Q { l with coordination := l.coordination.after ch }.refresh
      { l' with coordination := l'.coordination.after ch }.refresh := by
  rw [h.coordination, honly]
  exact (h.withCoordination ⟨ch, rfl⟩).refresh

/-- What happens to the lock happens on both sides. -/
theorem act (h : Shows p Q l l') (hon : l.on? p x = some x') : ∃ Q', Shows p Q' (l.act x) (l'.act x') := by
  have hstep {o o' : Option Locker} (ho : ∃ Q', Option.Rel (Shows p Q') o o') :
      ∃ Q', Shows p Q' ((o.map Locker.refresh).getD l) ((o'.map Locker.refresh).getD l') := by
    obtain ⟨Q', ho⟩ := ho
    cases ho with
    | none => exact ⟨Q, h⟩
    | some hl => exact ⟨Q', hl.refresh⟩
  cases x with
  | task t =>
    cases t with
    | call i =>
      obtain ⟨i', hnumber, rfl⟩ := Option.map_eq_some_iff.mp hon
      exact hstep (h.stepCall? (number?_eq_some_iff.mp hnumber))
    | watch i w =>
      obtain ⟨i', hnumber, hon⟩ := Option.bind_eq_some_iff.mp hon
      obtain ⟨w', hw, rfl⟩ := Option.map_eq_some_iff.mp hon
      refine hstep ⟨Q, h.hear? (number?_eq_some_iff.mp hnumber) (fun a a' ha => ?_)
        fun a b ha hb => ha.hearWatch? hb⟩
      rw [h.coordination]
      exact ha.hearWatch? (watchNumber?_eq_some_iff.mp hw)
    | events i =>
      obtain ⟨i', hnumber, rfl⟩ := Option.map_eq_some_iff.mp hon
      refine hstep ⟨Q, h.hear? (number?_eq_some_iff.mp hnumber) (fun a a' ha => ?_)
        fun a b ha hb => ha.hearEvent? hb⟩
      rw [h.coordination]
      exact ha.hearEvent?
    | cleanup k =>
      obtain ⟨hk, hx⟩ := Option.ite_none_right_eq_some.mp hon
      cases hx
      exact hstep ⟨Q, h.cleanup hk⟩
  | timeOut i =>
    obtain ⟨i', hnumber, rfl⟩ := Option.map_eq_some_iff.mp hon
    exact hstep ⟨Q, h.timeOut? (number?_eq_some_iff.mp hnumber)⟩
  | start r =>
    obtain ⟨hr, hx⟩ := Option.ite_none_right_eq_some.mp hon
    cases hx
    refine ⟨Q, ?_⟩
    rw [Locker.act, Locker.act, h.clients_eq]
    split
    · exact h.start hr
    · exact h
  | abort i =>
    obtain ⟨i', hnumber, rfl⟩ := Option.map_eq_some_iff.mp hon
    refine ⟨Q, ?_⟩
    rw [Locker.act, Locker.act, abort_eq_letGo, abort_eq_letGo]
    exact h.letGo (number?_eq_some_iff.mp hnumber) (fun _ _ _ halike => { halike with isAborted := rfl })
      (fun _ => rfl) fun _ => rfl
  | detach i =>
    obtain ⟨i', hnumber, rfl⟩ := Option.map_eq_some_iff.mp hon
    refine ⟨Q, ?_⟩
    rw [Locker.act, Locker.act, detach_eq_letGo, detach_eq_letGo]
    exact h.letGo (number?_eq_some_iff.mp hnumber) (fun _ _ _ halike => { halike with isDetached := rfl })
      (fun _ => rfl) fun _ => rfl
  | part i way =>
    obtain ⟨i', hnumber, rfl⟩ := Option.map_eq_some_iff.mp hon
    refine ⟨Q, ?_⟩
    have hnumbered := number?_eq_some_iff.mp hnumber
    obtain ⟨c, c', hi, hi', halike⟩ := h.exists_call hnumbered
    rw [Locker.act, Locker.act, hi, hi', Option.bind_some, Option.bind_some, halike.lock?_eq]
    cases hlock : c.lock? with
    | none => exact h
    | some lock =>
      exact h.partWith (LockCall.Shown.isOn_of_numbered hnumbered hi)
        (LockCall.isAtHome_of_lock? (h.calls.home c (List.mem_of_getElem? hi)) hlock) way
  | isFree client service key =>
    obtain ⟨-, hx⟩ := Option.ite_none_right_eq_some.mp hon
    cases hx
    refine ⟨Q, ?_⟩
    have hfaultless : l'.coordination.IsFaultless := by
      rw [h.coordination]
      exact h.tidy.faultless
    rw [Locker.act, Locker.act, isFree_snd h.tidy.faultless, isFree_snd hfaultless]
    exact h
  | openSession =>
    cases hon
    exact ⟨Q, h.change .opening rfl⟩
  | clone client =>
    cases hon
    refine ⟨Q, ?_⟩
    rw [Locker.act, Locker.act, h.clients_eq]
    split
    · exact h.change (.cloning client) rfl
    · exact h
  | undergo client change =>
    cases hon
    refine ⟨Q, ?_⟩
    have hsession : l'.coordination.sessionOf client = l.coordination.sessionOf client := by
      rw [h.coordination]
      rfl
    have hleft := h.change (.session change (l.coordination.sessionOf client))
      (congrArg (fun coordinator => { l.coordination with coordinator })
        (Coordinator.only_changeOf _ change _).symm)
    rw [Locker.act, Locker.act, Coordination.onSession, Coordination.onSession, hsession]
    exact hleft
  | pass millis =>
    cases hon
    refine ⟨Q, refresh { h with now := ?_ }⟩
    exact congrArg (· + millis) h.now

/-- What happens to other locks does not show. -/
theorem act_elsewhere (h : Shows p Q l l') (hon : l.on? p x = none) : Shows p Q (l.act x) l' := by
  have hstep {o : Option Locker} (ho : ∀ l₁, o = some l₁ → Shows p Q l₁ l') :
      Shows p Q ((o.map Locker.refresh).getD l) l' := by
    cases o with
    | none => exact h
    | some l₁ => exact (ho l₁ rfl).refresh_elsewhere
  have hhear {i : Nat} (hnumber : l.number? p i = none) {f : Acquisition → Option Acquisition}
      (hkeeps : ∀ a b, a.IsAtHome → f a = some b → b.IsAtHome ∧ b.directory = a.directory) :
      Shows p Q (((l.hear? i f).map Locker.refresh).getD l) l' := by
    refine hstep fun l₁ hl => ?_
    obtain ⟨c, hi⟩ := exists_call_of_hear? hl
    exact h.hear?_elsewhere hi (isOn_of_number?_eq_none hnumber hi) hkeeps hl
  cases x with
  | task t =>
    cases t with
    | call i =>
      have hnumber := Option.map_eq_none_iff.mp hon
      refine hstep fun l₁ hl => ?_
      obtain ⟨c, hi, -⟩ := Option.bind_eq_some_iff.mp hl
      exact h.stepCall?_elsewhere hi (isOn_of_number?_eq_none hnumber hi) hl
    | watch i w =>
      cases hnumber : l.number? p i with
      | none => exact hhear hnumber fun a b ha hb => ha.hearWatch? hb
      | some i' =>
        rw [on?, hnumber] at hon
        refine hstep fun l₁ hl => ?_
        have hnone := h.watch_eq_none (number?_eq_some_iff.mp hnumber) (Option.map_eq_none_iff.mp hon)
        exact absurd (hnone.symm.trans hl) (Option.some_ne_none l₁).symm
    | events i => exact hhear (Option.map_eq_none_iff.mp hon) fun a b ha hb => ha.hearEvent? hb
    | cleanup k =>
      rw [on?, ite_eq_right_iff] at hon
      have hk : parentOf k.node ≠ p.directory := fun heq => Option.some_ne_none _ (hon heq)
      exact hstep fun l₁ => h.cleanup_elsewhere hk
  | timeOut i =>
    have hnumber := Option.map_eq_none_iff.mp hon
    refine hstep fun l₁ hl => ?_
    obtain ⟨c, hi, -⟩ := Option.bind_eq_some_iff.mp hl
    exact h.timeOut?_elsewhere hi (isOn_of_number?_eq_none hnumber hi) hl
  | start r =>
    rw [on?, ite_eq_right_iff] at hon
    have hoff : r.isOn p = false := Bool.eq_false_iff.mpr fun heq => Option.some_ne_none _ (hon heq)
    rw [Locker.act]
    split
    · exact h.start_elsewhere hoff
    · exact h
  | abort i =>
    rw [Locker.act, abort_eq_letGo]
    exact h.letGo_elsewhere (Option.map_eq_none_iff.mp hon) (fun _ => rfl) fun _ => rfl
  | detach i =>
    rw [Locker.act, detach_eq_letGo]
    exact h.letGo_elsewhere (Option.map_eq_none_iff.mp hon) (fun _ => rfl) fun _ => rfl
  | part i way =>
    have hnumber := Option.map_eq_none_iff.mp hon
    rw [Locker.act]
    cases hlock : (l.calls[i]?).bind LockCall.lock? with
    | none => exact h
    | some lock =>
      obtain ⟨c, hi, hlock⟩ := Option.bind_eq_some_iff.mp hlock
      exact h.partWith_elsewhere (isOn_of_number?_eq_none hnumber hi)
        (LockCall.isAtHome_of_lock? (h.calls.home c (List.mem_of_getElem? hi)) hlock) way
  | isFree client service key =>
    rw [Locker.act, isFree_snd h.tidy.faultless]
    exact h
  | openSession => cases hon
  | clone client => cases hon
  | undergo client change => cases hon
  | pass millis => cases hon

end Shows

end Locker

end DurableQueue
