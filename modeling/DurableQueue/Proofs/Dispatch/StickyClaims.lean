import DurableQueue.Dispatch.ClaimManager
import DurableQueue.Proofs.Store.Claiming

/-!
Claims of nodes that keep to their own entries.

A node in a sticky mode claims by its own entries alone: entries that others created may be missing or be
replaced by any others, and a claim leaves them as they are. Two such nodes do not get in each other's
way, whoever comes first. `ClaimManager.sticky_claims_apart` puts this together from what one pass over
the entries does.
-/

namespace DurableQueue

namespace Store

/-- The live entries that a node created. -/
def createdBy (s : Store) (node : NodeId) : List Entry := s.live.filter fun e => e.creatingOwner = node

/-- The live entries that others created. -/
def createdByOthers (s : Store) (node : NodeId) : List Entry :=
  s.live.filter fun e => e.creatingOwner ≠ node

variable {a b node claimer : NodeId} {now : Timestamp} {e : Entry}

/-- A restricted claim wants nothing of others. -/
theorem not_isWanted_of_ne (h : e.creatingOwner ≠ node) : isWanted (some node) now e = false := by
  simp [isWanted, h]

theorem creatingOwner_of_isWanted (h : isWanted (some node) now e = true) : e.creatingOwner = node :=
  (isWanted_iff.mp h).2 node rfl

/-- A restricted claim answers the same without the entries of others, and does the same to the rest. -/
theorem claimFirst_filter_own (claimer node : NodeId) (now : Timestamp) (count : Nat) (es : List Entry) :
    claimFirst claimer (some node) now count (es.filter fun e => e.creatingOwner = node) =
      ((claimFirst claimer (some node) now count es).1,
        (claimFirst claimer (some node) now count es).2.filter fun e => e.creatingOwner = node) := by
  induction es generalizing count with
  | nil => simp [claimFirst_nil]
  | cons e es ih =>
    by_cases hown : e.creatingOwner = node
    · rw [List.filter_cons_of_pos (by simpa using hown)]
      by_cases hw : isWanted (some node) now e = true
      · cases count with
        | zero => simp [claimFirst_zero, hown]
        | succ count =>
          have hkept : (e.claimedBy claimer now).creatingOwner = node := hown
          rw [claimFirst_cons_of_isWanted hw, claimFirst_cons_of_isWanted hw, ih count]
          simp [hkept]
      · have hw := Bool.eq_false_iff.mpr hw
        rw [claimFirst_cons_of_not_isWanted hw, claimFirst_cons_of_not_isWanted hw, ih count]
        simp [hown]
    · rw [List.filter_cons_of_neg (by simpa using hown),
        claimFirst_cons_of_not_isWanted (not_isWanted_of_ne hown), ih count]
      simp [hown]

/-- A restricted claim leaves the entries of others as they are. -/
theorem filter_others_claimFirst (claimer node : NodeId) (now : Timestamp) (count : Nat)
    (es : List Entry) :
    (claimFirst claimer (some node) now count es).2.filter (fun e => e.creatingOwner ≠ node) =
      es.filter fun e => e.creatingOwner ≠ node := by
  induction es generalizing count with
  | nil => simp [claimFirst_nil]
  | cons e es ih =>
    by_cases hw : isWanted (some node) now e = true
    · cases count with
      | zero => rw [claimFirst_zero]
      | succ count =>
        have hown := creatingOwner_of_isWanted hw
        have hkept : (e.claimedBy claimer now).creatingOwner = node := hown
        rw [claimFirst_cons_of_isWanted hw, List.filter_cons_of_neg (by simpa using hkept),
          List.filter_cons_of_neg (by simpa using hown), ih count]
    · have hw := Bool.eq_false_iff.mpr hw
      rw [claimFirst_cons_of_not_isWanted hw, List.filter_cons, List.filter_cons, ih count]

/-- What one node claims for itself is the same before and after a claim of another. -/
theorem claimFirst_of_claimFirst (hne : a ≠ b) (now : Timestamp) (m n : Nat) (es : List Entry) :
    (claimFirst b (some b) now n (claimFirst a (some a) now m es).2).1 =
      (claimFirst b (some b) now n es).1 := by
  induction es generalizing m n with
  | nil => simp [claimFirst_nil]
  | cons e es ih =>
    by_cases ha : isWanted (some a) now e = true
    · -- the entry is of the first node, so the second passes by it before and after
      have hb : isWanted (some b) now e = false := by
        refine not_isWanted_of_ne ?_
        rw [creatingOwner_of_isWanted ha]
        exact hne
      cases m with
      | zero => rw [claimFirst_zero]
      | succ m =>
        rw [claimFirst_cons_of_isWanted ha, claimFirst_cons_of_not_isWanted hb,
          claimFirst_cons_of_not_isWanted (isWanted_claimedBy _ _ _ _ _), ih m n]
    · rw [claimFirst_cons_of_not_isWanted (Bool.eq_false_iff.mpr ha)]
      by_cases hb : isWanted (some b) now e = true
      · cases n with
        | zero => simp [claimFirst_zero]
        | succ n => rw [claimFirst_cons_of_isWanted hb, claimFirst_cons_of_isWanted hb, ih m n]
      · have hb := Bool.eq_false_iff.mpr hb
        rw [claimFirst_cons_of_not_isWanted hb, claimFirst_cons_of_not_isWanted hb, ih m n]

/-- Of two nodes that claim for themselves it does not matter who comes first. -/
theorem claimFirst_comm (hne : a ≠ b) (now : Timestamp) (m n : Nat) (es : List Entry) :
    (claimFirst b (some b) now n (claimFirst a (some a) now m es).2).2 =
      (claimFirst a (some a) now m (claimFirst b (some b) now n es).2).2 := by
  induction es generalizing m n with
  | nil => simp [claimFirst_nil]
  | cons e es ih =>
    by_cases ha : isWanted (some a) now e = true
    · have hb : isWanted (some b) now e = false := by
        refine not_isWanted_of_ne ?_
        rw [creatingOwner_of_isWanted ha]
        exact hne
      cases m with
      | zero => simp [claimFirst_zero]
      | succ m =>
        rw [claimFirst_cons_of_isWanted ha, claimFirst_cons_of_not_isWanted hb,
          claimFirst_cons_of_not_isWanted (isWanted_claimedBy _ _ _ _ _), claimFirst_cons_of_isWanted ha,
          ih m n]
    · have ha := Bool.eq_false_iff.mpr ha
      rw [claimFirst_cons_of_not_isWanted ha]
      by_cases hb : isWanted (some b) now e = true
      · cases n with
        | zero => simp [claimFirst_zero, claimFirst_cons_of_not_isWanted ha]
        | succ n =>
          rw [claimFirst_cons_of_isWanted hb, claimFirst_cons_of_isWanted hb,
            claimFirst_cons_of_not_isWanted (isWanted_claimedBy _ _ _ _ _), ih m n]
      · have hb := Bool.eq_false_iff.mpr hb
        rw [claimFirst_cons_of_not_isWanted hb, claimFirst_cons_of_not_isWanted hb,
          claimFirst_cons_of_not_isWanted ha, ih m n]

end Store

namespace ClaimManager

/-- A node that claims only what it created. -/
def IsSticky (m : ClaimManager) : Prop := m.mode = .stickyPolling ∨ m.mode = .stickyEvents

variable {m other : ClaimManager} {s : Store}

theorem IsSticky.ownerFilter (h : m.IsSticky) : m.ownerFilter = some m.node := by
  rcases h with h | h <;> simp [ClaimManager.ownerFilter, h, QueueMode.isSticky]

theorem claim_of_injected {left : Nat} (hleft : s.failuresLeft = left + 1) (m : ClaimManager)
    (count : Nat) (now : Timestamp) :
    m.claim s count now = (.error (.ofStore .injected), { s with failuresLeft := left }) := by
  simp [claim, report, Store.claim, Store.guarded, hleft]

theorem IsSticky.claim_of_unfailing (h : m.IsSticky) (hleft : s.failuresLeft = 0) (count : Nat)
    (now : Timestamp) :
    m.claim s count now = (.ok (Store.claimFirst m.node (some m.node) now count s.live).1,
      { s with live := (Store.claimFirst m.node (some m.node) now count s.live).2 }) := by
  rw [claim, h.ownerFilter, Store.claim_of_unfailing hleft]
  rfl

/-- Claims that are apart from what others created, and from what others claim. -/
structure ClaimsApart (m : ClaimManager) (count : Nat) (now : Timestamp) : Prop where
  /-- In any store with the same own entries the claim answers the same, and it leaves them the same. -/
  own : ∀ s s' : Store, s'.createdBy m.node = s.createdBy m.node → s'.failuresLeft = s.failuresLeft →
    (m.claim s' count now).1 = (m.claim s count now).1 ∧
      (m.claim s' count now).2.createdBy m.node = (m.claim s count now).2.createdBy m.node
  others : ∀ s : Store, (m.claim s count now).2.createdByOthers m.node = s.createdByOthers m.node
  rest : ∀ s : Store,
    { (m.claim s count now).2 with live := s.live, failuresLeft := s.failuresLeft } = s
  /-- With another such node either order gives the same, unless just one of the two is made to fail. -/
  commutes : ∀ (other : ClaimManager) (s : Store) (count' : Nat), other.IsSticky → other.node ≠ m.node →
    s.failuresLeft ≠ 1 →
    (other.claim (m.claim s count now).2 count' now).1 = (other.claim s count' now).1 ∧
      (m.claim (other.claim s count' now).2 count now).1 = (m.claim s count now).1 ∧
      (other.claim (m.claim s count now).2 count' now).2 =
        (m.claim (other.claim s count' now).2 count now).2

theorem IsSticky.claim_own (h : m.IsSticky) (count : Nat) (now : Timestamp) {s s' : Store}
    (hown : s'.createdBy m.node = s.createdBy m.node) (hleft : s'.failuresLeft = s.failuresLeft) :
    (m.claim s' count now).1 = (m.claim s count now).1 ∧
      (m.claim s' count now).2.createdBy m.node = (m.claim s count now).2.createdBy m.node := by
  cases hs : s.failuresLeft with
  | zero =>
    -- both claims are what a claim makes of the own entries alone
    have hsame := Store.claimFirst_filter_own m.node m.node now count s'.live
    rw [show s'.live.filter _ = s.live.filter _ from hown, Store.claimFirst_filter_own] at hsame
    obtain ⟨hanswer, hafter⟩ := Prod.mk.inj hsame
    rw [h.claim_of_unfailing hs, h.claim_of_unfailing (hleft.trans hs)]
    exact ⟨congrArg Except.ok hanswer.symm, hafter.symm⟩
  | succ left =>
    rw [claim_of_injected hs, claim_of_injected (hleft.trans hs)]
    exact ⟨rfl, hown⟩

theorem IsSticky.claim_others (h : m.IsSticky) (s : Store) (count : Nat) (now : Timestamp) :
    (m.claim s count now).2.createdByOthers m.node = s.createdByOthers m.node := by
  cases hs : s.failuresLeft with
  | zero =>
    rw [h.claim_of_unfailing hs]
    exact Store.filter_others_claimFirst m.node m.node now count s.live
  | succ left =>
    rw [claim_of_injected hs]
    rfl

theorem IsSticky.claim_rest (h : m.IsSticky) (s : Store) (count : Nat) (now : Timestamp) :
    { (m.claim s count now).2 with live := s.live, failuresLeft := s.failuresLeft } = s := by
  cases hs : s.failuresLeft with
  | zero =>
    rw [h.claim_of_unfailing hs, ← hs]
  | succ left =>
    rw [claim_of_injected hs, ← hs]

theorem IsSticky.claim_comm (h : m.IsSticky) (ho : other.IsSticky) (hne : other.node ≠ m.node)
    (hleft : s.failuresLeft ≠ 1) (count count' : Nat) (now : Timestamp) :
    (other.claim (m.claim s count now).2 count' now).1 = (other.claim s count' now).1 ∧
      (other.claim (m.claim s count now).2 count' now).2 =
        (m.claim (other.claim s count' now).2 count now).2 := by
  match hs : s.failuresLeft with
  | 0 =>
    have hnext : ∀ live, ({ s with live } : Store).failuresLeft = 0 := fun _ => hs
    rw [h.claim_of_unfailing hs, ho.claim_of_unfailing hs, ho.claim_of_unfailing (hnext _),
      h.claim_of_unfailing (hnext _)]
    simp only [Store.claimFirst_of_claimFirst hne.symm, Store.claimFirst_comm hne.symm, and_self]
  | 1 => exact absurd hs hleft
  | left + 2 =>
    rw [claim_of_injected hs, claim_of_injected hs, claim_of_injected rfl, claim_of_injected rfl]
    exact ⟨rfl, rfl⟩

/-- In a sticky mode claims depend on the node's own entries only and change no others, and two such nodes
that claim at one time may do so in either order. -/
theorem sticky_claims_apart (m : ClaimManager) (h : m.IsSticky) (count : Nat) (now : Timestamp) :
    m.ClaimsApart count now where
  own _ _ hown hleft := h.claim_own count now hown hleft
  others s := h.claim_others s count now
  rest s := h.claim_rest s count now
  commutes _ _ count' ho hne hleft := by
    obtain ⟨hanswer, hafter⟩ := h.claim_comm ho hne hleft count count' now
    obtain ⟨hanswer', -⟩ := ho.claim_comm h hne.symm hleft count' count now
    exact ⟨hanswer, hanswer', hafter⟩

/-- A node that keeps to its own entries. -/
def stickyManager (node : NodeId) : ClaimManager := ⟨node, .stickyEvents, ⟨.ofSeconds 300, 5, false⟩⟩

/-- Among the entries of two nodes, one node claims what it would claim if it were alone, and the other one
may claim before or after it. -/
theorem sticky_claims_apart_mixedStore :
    let m := stickyManager ⟨"a"⟩
    let other := stickyManager ⟨"b"⟩
    let s := Store.mixedStore
    let alone : Store := { s with live := s.createdBy ⟨"a"⟩ }
    m.IsSticky ∧ other.IsSticky ∧ other.node ≠ m.node ∧ s.failuresLeft ≠ 1 ∧
      alone.createdBy m.node = s.createdBy m.node ∧ alone.live ≠ s.live ∧
      (m.claim alone 2 .epoch).1 = (m.claim s 2 .epoch).1 ∧
      (m.claim s 2 .epoch).1.map (·.map (·.id.number)) = .ok [1, 5] ∧
      (other.claim s 2 .epoch).1.map (·.map (·.id.number)) = .ok [3] ∧
      (other.claim (m.claim s 2 .epoch).2 2 .epoch).2 = (m.claim (other.claim s 2 .epoch).2 2 .epoch).2 := by
  intro m other s alone
  have hm : m.IsSticky := .inr rfl
  have ho : other.IsSticky := .inr rfl
  have hne : other.node ≠ m.node := by decide
  have hleft : s.failuresLeft ≠ 1 := by decide
  have hown : alone.createdBy m.node = s.createdBy m.node := by decide
  have hapart := sticky_claims_apart m hm 2 .epoch
  exact ⟨hm, ho, hne, hleft, hown, by decide, (hapart.own s alone hown rfl).1, rfl, rfl,
    (hapart.commutes other s 2 ho hne hleft).2.2⟩

/-- With just one failure to come the order can be told: whoever claims first fails. -/
theorem order_told_by_failure :
    let m := stickyManager ⟨"a"⟩
    let other := stickyManager ⟨"b"⟩
    let s := Store.mixedStore.failNext 1
    m.IsSticky ∧ other.IsSticky ∧ other.node ≠ m.node ∧
      (m.claim s 2 .epoch).1 = .error (.ofStore .injected) ∧
      (m.claim (other.claim s 2 .epoch).2 2 .epoch).1.map (·.map (·.id.number)) = .ok [1, 5] ∧
      (other.claim s 2 .epoch).1 = .error (.ofStore .injected) ∧
      (other.claim (m.claim s 2 .epoch).2 2 .epoch).1.map (·.map (·.id.number)) = .ok [3] := by
  intro m other s
  exact ⟨.inr rfl, .inr rfl, by decide, rfl, rfl, rfl, rfl⟩

end ClaimManager

end DurableQueue
