import DurableQueue.Proofs.Lock.OneLock

/-!
Calls on one lock, and calls on others.

A step of a call on the lock is the same step of the call by itself (`Locker.Shows.stepCall?`), and a step of
a call on another lock does not show (`Locker.Shows.stepCall?_elsewhere`).
-/

namespace DurableQueue

open Coordinator

namespace LockCall

variable {Q W : Nat → Nat → Prop} {r : LockRequest} {w w' : LocalWait} {a a' : Acquisition}

theorem alike_ofWait (r : LockRequest) (h : w.Alike Q w') : (ofWait r w).Alike Q W (ofWait r w') := by
  obtain ⟨stage', hstage, rfl⟩ := h
  obtain ⟨path, deadline, stage⟩ := w
  cases hstage with
  | «over» isAcquired => cases isAcquired <;> exact .over _
  | trying => exact .inProcess ⟨_, .trying, rfl⟩
  | joining hqueue => exact .inProcess ⟨_, .joining hqueue, rfl⟩
  | checking hqueue wasKept => exact .inProcess ⟨_, .checking hqueue wasKept, rfl⟩
  | sleeping hqueue => exact .inProcess ⟨_, .sleeping hqueue, rfl⟩
  | leaving hqueue gaveUp => exact .inProcess ⟨_, .leaving hqueue gaveUp, rfl⟩
  | parting hqueue gaveUp => exact .inProcess ⟨_, .parting hqueue gaveUp, rfl⟩

theorem isAtHome_ofWait (h : r.IsFor w.path) : (ofWait r w).IsAtHome r := by
  unfold ofWait
  split
  · exact h
  · trivial
  · exact h

theorem alike_ofAcquisition (r : LockRequest) (h : a.Alike W a') :
    (ofAcquisition r a).Alike Q W (ofAcquisition r a') := by
  obtain ⟨ws, hws, rfl⟩ := h
  have hgoes : LockProgress.Alike Q W (.shared a) (.shared { a with watches := ws }) := .shared ⟨ws, hws, rfl⟩
  unfold ofAcquisition
  cases hstage : a.stage with
  | «over» result =>
    cases result with
    | ok node => cases node <;> exact .over _
    | error e => exact .over _
  | _ => simpa only [hstage] using hgoes

theorem isAtHome_ofAcquisition (hfor : r.IsFor a.directory) (h : a.IsAtHome) :
    (ofAcquisition r a).IsAtHome r := by
  unfold ofAcquisition
  split
  · rename_i node hstage
    have hnode : parentOf node = a.directory := h.stage node (by rw [hstage]; exact List.mem_singleton_self _)
    show r.IsFor (parentOf node)
    rwa [hnode]
  · trivial
  · trivial
  · exact ⟨hfor, h⟩

theorem ofAcquisition_ne_inProcess (r : LockRequest) (a : Acquisition) (w : LocalWait) :
    ofAcquisition r a ≠ .inProcess w := by
  unfold ofAcquisition
  split <;> exact nofun

theorem alike_begin_ (r : LockRequest) (backend : LockBackend) (now : Nat) (c : Coordination) (d : String) :
    (begin_ r backend now c).Alike Q W (begin_ r backend now (c.only d)) := by
  unfold begin_
  split
  · exact .over _
  · split
    · exact .over _
    · cases backend with
      | inProcess => exact .inProcess ⟨_, .trying, rfl⟩
      | shared => exact .shared ⟨[], .nil, rfl⟩

theorem isAtHome_begin_ (r : LockRequest) (backend : LockBackend) (now : Nat) (c : Coordination) :
    (begin_ r backend now c).IsAtHome r := by
  unfold begin_
  split
  · trivial
  · rename_i directory hdirectory
    split
    · trivial
    · cases backend with
      | inProcess => exact hdirectory
      | shared => exact ⟨hdirectory, Acquisition.isAtHome_begin_ _ _ _ _⟩

theorem isElsewhere_begin_ {backend : LockBackend} {now : Nat} {c : Coordination} {locals : LocalLocks}
    (h : begin_ r backend now c = .inProcess w) : w.IsElsewhere locals Q := by
  unfold begin_ at h
  split at h
  · cases h
  · split at h
    · cases h
    · cases backend with
      | inProcess =>
        cases h
        exact nofun
      | shared => cases h

theorem isElsewhere_ofWait {locals : LocalLocks} (hw : w.IsElsewhere locals Q)
    (h : ofWait r w = .inProcess w') :
    w'.IsElsewhere locals Q := by
  unfold ofWait at h
  split at h
  · cases h
  · cases h
  · cases h
    exact hw

end LockCall

namespace Locker

variable {p : LockName} {Q : Nat → Nat → Prop} {l l' l₁ : Locker} {i i' : Nat} {c c' : LockCall}
  {progress progress' : LockProgress}

namespace Shows

/-- A call on the lock moves on both sides. -/
theorem proceed (h : Shows p Q l l') (hnumber : LockCall.Numbered p l.calls i i') (hi : l.calls[i]? = some c)
    (hi' : l'.calls[i']? = some c') (halike : c.Alike Q (l.coordination.coordinator.Watched p.directory) c')
    (hprogress : progress.Alike Q (l.coordination.coordinator.Watched p.directory) progress')
    (hhome : progress.IsAtHome c.request) :
    Shows p Q (l.proceed i c progress) (l'.proceed i' c' progress') := by
  have hset := h.setProgress hnumber hi hi' halike hprogress hhome
  have hon := LockCall.Shown.isOn_of_numbered hnumber hi
  unfold Locker.proceed
  rw [halike.isDetached]
  cases c.isDetached with
  | false => exact hset
  | true =>
    cases hprogress with
    | «over» outcome =>
      cases outcome with
      | acquired lock => exact hset.drop hon hhome
      | _ => exact hset
    | _ => exact hset

theorem proceed_elsewhere (h : Shows p Q l l') (hi : l.calls[i]? = some c) (hoff : c.request.isOn p = false)
    (hwait : ∀ w, progress = .inProcess w → w.IsElsewhere l.locals Q) (hhome : progress.IsAtHome c.request) :
    Shows p Q (l.proceed i c progress) l' := by
  have hset := h.setProgress_elsewhere hi hoff hwait hhome
  rcases proceed_cases l i c progress with heq | ⟨lock, rfl, heq⟩
  · rwa [heq]
  · rw [heq]
    exact hset.drop_elsewhere hoff hhome

/-- A step of a call on the lock. -/
theorem stepCall? (h : Shows p Q l l') (hnumber : LockCall.Numbered p l.calls i i') :
    ∃ Q', Option.Rel (Shows p Q') (l.stepCall? i) (l'.stepCall? i') := by
  obtain ⟨c, c', hi, hi', halike⟩ := h.exists_call hnumber
  have hhome := h.calls.home c (List.mem_of_getElem? hi)
  have hon := LockCall.Shown.isOn_of_numbered hnumber hi
  have hprogress := halike.progress
  unfold Locker.stepCall?
  simp only [hi, hi', halike.isAborted, bind, Option.bind]
  generalize hg : c.progress = g, hg' : c'.progress = g' at hprogress
  rw [hg] at hhome
  have hgone (h : Shows p Q l l') : Shows p Q (l.setProgress i .gone) (l'.setProgress i' .gone) :=
    h.setProgress hnumber hi hi' halike .gone trivial
  cases hprogress with
  | «over» outcome => exact ⟨Q, by cases c.isAborted <;> exact .none⟩
  | gone => exact ⟨Q, by cases c.isAborted <;> exact .none⟩
  | fresh =>
    refine ⟨Q, ?_⟩
    cases c.isAborted with
    | true => exact .some (hgone h)
    | false =>
      simp only [halike.request, h.backend, h.now, h.coordination]
      exact .some (h.proceed hnumber hi hi' halike (LockCall.alike_begin_ _ _ _ _ _)
        (LockCall.isAtHome_begin_ _ _ _ _))
  | @inProcess w w' hw =>
    have hone := LockCall.isOneToOne_numbered p l.calls
    have hpath : w.path = p.directory := (LockRequest.IsFor.eq_directory_iff hhome p).mpr hon
    cases c.isAborted with
    | true =>
      have hlocals := hw.abandon hone hnumber h.locals
      have hleft := h.withLocals (.refl _ Q) (Nat.le_of_eq (w.length_abandon i l.locals).symm) hlocals
      exact ⟨Q, .some (hleft.setProgress hnumber hi hi' halike .gone trivial)⟩
    | false =>
      have hwait := h.locals
      rw [← hpath] at hwait
      obtain ⟨Q', hgrows, hstep⟩ := hw.step? hone hnumber hwait l.now
      refine ⟨Q', ?_⟩
      dsimp only
      nth_rewrite 2 [← h.now] at hstep
      have hkeeps (r : LocalWait × LocalLocks) (hr : w.step? i l.now l.locals = some r) :=
        LocalWait.keeps_step? hr
      generalize w.step? i l.now l.locals = o, w'.step? i' l'.now l'.locals = o' at hstep hkeeps
      cases hstep with
      | none => exact .none
      | @some r r' hr =>
        obtain ⟨hsame, hlength⟩ := hkeeps r rfl
        have hleft := h.withLocals hgrows hlength (hpath ▸ hr.locks)
        have halike' : c.Alike Q' (l.coordination.coordinator.Watched p.directory) c' :=
          { halike with progress := halike.progress.imp hgrows.kept fun _ _ hw => hw }
        rw [halike.request]
        exact .some (hleft.proceed hnumber hi hi' halike' (LockCall.alike_ofWait _ hr.wait)
          (LockCall.isAtHome_ofWait (hsame.symm ▸ hhome)))
  | @shared a a' ha =>
    refine ⟨Q, ?_⟩
    cases c.isAborted with
    | true => exact .some (hgone h)
    | false =>
      have hdirectory := (LockRequest.IsFor.eq_directory_iff hhome.1 p).mpr hon
      dsimp only
      have hstep : Option.Rel (Acquisition.StepsAlike p.directory) (a.step? l.now l.coordination)
          (a'.step? l'.now l'.coordination) := by
        rw [h.now, h.coordination]
        exact ha.step? h.tidy.faultless h.tidy.sorted hhome.2 hdirectory
      have hkeeps (r : Acquisition × Coordination) (hr : a.step? l.now l.coordination = some r) :=
        Acquisition.keeps_step? h.tidy.faultless hhome.2 hr
      generalize a.step? l.now l.coordination = o, a'.step? l'.now l'.coordination = o' at hstep hkeeps
      cases hstep with
      | none => exact .none
      | @some r r' hr =>
        obtain ⟨hcontender, hservice⟩ := hr
        have hkept := hkeeps r rfl
        have hleft := h.withCoordination hkept.after
        rw [← hservice] at hleft
        obtain ⟨ch, hch⟩ := hkept.after
        have hlater : l.coordination.coordinator.Later r.2.coordinator :=
          hch ▸ Coordination.coordinator_later_after l.coordination ch
        have halike' : c.Alike Q (r.2.coordinator.Watched p.directory) c' :=
          { halike with progress := halike.progress.imp (fun _ _ hn => hn) fun _ _ hw => hw.later hlater }
        have hfor : c.request.IsFor r.1.directory := hkept.directory.symm ▸ hhome.1
        rw [halike.request]
        exact .some (hleft.proceed hnumber hi hi' halike' (LockCall.alike_ofAcquisition _ hcontender)
          (LockCall.isAtHome_ofAcquisition hfor hkept.home))

theorem isElsewhere (h : Shows p Q l l') (hi : l.calls[i]? = some c) (hoff : c.request.isOn p = false)
    {w : LocalWait} (hw : c.progress = .inProcess w) : w.IsElsewhere l.locals Q :=
  fun n hn => h.calls.elsewhere c (List.mem_of_getElem? hi) hoff w n hw hn

/-- A step of a call on another lock. -/
theorem stepCall?_elsewhere (h : Shows p Q l l') (hi : l.calls[i]? = some c) (hoff : c.request.isOn p = false)
    (hstep : l.stepCall? i = some l₁) : Shows p Q l₁ l' := by
  have hhome := h.calls.home c (List.mem_of_getElem? hi)
  have hgone (h : Shows p Q l l') : Shows p Q (l.setProgress i .gone) l' :=
    h.setProgress_elsewhere hi hoff nofun trivial
  unfold Locker.stepCall? at hstep
  simp only [hi, bind, Option.bind] at hstep
  cases hg : c.progress with
  | «over» outcome => cases ha : c.isAborted <;> simp only [hg, ha] at hstep <;> cases hstep
  | gone => cases ha : c.isAborted <;> simp only [hg, ha] at hstep <;> cases hstep
  | fresh =>
    cases ha : c.isAborted with
    | true =>
      simp only [hg, ha] at hstep
      cases hstep
      exact hgone h
    | false =>
      simp only [hg, ha] at hstep
      cases hstep
      exact h.proceed_elsewhere hi hoff (fun w hw => LockCall.isElsewhere_begin_ hw)
        (LockCall.isAtHome_begin_ _ _ _ _)
  | inProcess w =>
    have hw := h.isElsewhere hi hoff hg
    rw [hg] at hhome
    cases ha : c.isAborted with
    | true =>
      simp only [hg, ha] at hstep
      cases hstep
      have hleft := h.withLocals_elsewhere (Nat.le_of_eq (w.length_abandon i l.locals).symm)
        (hw.abandon h.locals i)
      exact hleft.setProgress_elsewhere hi hoff nofun trivial
    | false =>
      simp only [hg, ha] at hstep
      cases hr : w.step? i l.now l.locals with
      | none =>
        rw [hr] at hstep
        cases hstep
      | some r =>
        rw [hr] at hstep
        cases hstep
        obtain ⟨hsame, hlength⟩ := LocalWait.keeps_step? hr
        obtain ⟨hlocals, hw'⟩ := hw.step? h.locals (LockRequest.IsFor.ne_directory hhome hoff) hr
        have hleft := h.withLocals_elsewhere hlength hlocals
        exact hleft.proceed_elsewhere hi hoff (fun w hw => LockCall.isElsewhere_ofWait hw' hw)
          (LockCall.isAtHome_ofWait (hsame.symm ▸ hhome))
  | shared a =>
    rw [hg] at hhome
    cases ha : c.isAborted with
    | true =>
      simp only [hg, ha] at hstep
      cases hstep
      exact hgone h
    | false =>
      simp only [hg, ha] at hstep
      cases hr : a.step? l.now l.coordination with
      | none =>
        rw [hr] at hstep
        cases hstep
      | some r =>
        rw [hr] at hstep
        cases hstep
        have hkept := Acquisition.keeps_step? h.tidy.faultless hhome.2 hr
        have honly := hkept.elsewhere p.directory (hhome.1.ne_directory hoff).symm
        have hleft := h.withCoordination_elsewhere hkept.after honly
        have hfor : c.request.IsFor r.1.directory := hkept.directory.symm ▸ hhome.1
        exact hleft.proceed_elsewhere hi hoff
          (fun w hw => absurd hw (LockCall.ofAcquisition_ne_inProcess _ _ w))
          (LockCall.isAtHome_ofAcquisition hfor hkept.home)

end Shows

end Locker

end DurableQueue
