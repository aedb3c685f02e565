import DurableQueue.Proofs.Lock.Contender
import DurableQueue.Proofs.Lock.Directories
import DurableQueue.Proofs.Lock.Ranks

/-!
What a coordination service holds of one directory.

`Coordination.only` keeps the nodes, numbers and watches of a directory. Whatever is done there answers and
leaves the same if it is done to this part alone (`Coordination.create_only` and its companions), and what is
done in another directory does not change it (`Coordination.only_create` and its companions). Only watches
have other numbers in the part: `Coordinator.Watched` ties one to the other.
-/

namespace DurableQueue

open Acquisition Trial

namespace Coordinator

variable {c : Coordinator} {d path parent : String} {session w w' : Nat}

/-- Nodes, numbers and watches of one directory. -/
def only (c : Coordinator) (d : String) : Coordinator :=
  { c with
    nodes := c.nodes.filter fun n => parentOf n.path == d
    sequences := c.sequences.filter fun s => s.1 == d
    watches := c.watches.filter fun w => parentOf w.path == d }

def watchPaths (c : Coordinator) : List String := c.watches.map NodeWatch.path

/-- A watch in a directory and its number in the part of this directory. -/
def Watched (c : Coordinator) (d : String) (w w' : Nat) : Prop :=
  Ranked (fun path => parentOf path == d) c.watchPaths w w'

theorem isOneToOne_watched (c : Coordinator) (d : String) : IsOneToOne (c.Watched d) :=
  fun _ _ _ _ h h' => h.eq_iff h'

theorem watchPaths_prefix {c' : Coordinator} (h : c.Later c') : c.watchPaths <+: c'.watchPaths := by
  refine List.prefix_iff_getElem?.mpr fun i hi => ?_
  rw [watchPaths, List.length_map] at hi
  obtain ⟨x, hx, hpath, -⟩ := h.watches i _ (List.getElem?_eq_getElem hi)
  simp [watchPaths, hx, hpath]

theorem Watched.later {c' : Coordinator} (hw : c.Watched d w w') (h : c.Later c') : c'.Watched d w w' := by
  obtain ⟨paths, hpaths⟩ := watchPaths_prefix h
  rw [Watched, ← hpaths]
  exact hw.append paths

theorem Watched.withWatch (c : Coordinator) (hpath : parentOf path = d) :
    (c.withWatch path).Watched d c.watches.length (c.only d).watches.length := by
  have hlength : (c.only d).watches.length = c.watchPaths.countP fun path => parentOf path == d := by
    rw [only, watchPaths, List.countP_map, List.countP_eq_length_filter]
    rfl
  have hpaths : (c.withWatch path).watchPaths = c.watchPaths ++ [path] := List.map_append
  have hwatches : c.watches.length = c.watchPaths.length := (List.length_map NodeWatch.path).symm
  rw [Watched, hpaths, hlength, hwatches]
  exact Ranked.concat _ (beq_iff_eq.mpr hpath)

/-- A watch fires in the part when it fires. -/
theorem Watched.hasFired (hw : c.Watched d w w') : (c.only d).hasFired w' = c.hasFired w := by
  obtain ⟨path, hi, hpath⟩ := hw.exists_getElem?
  rw [watchPaths, List.getElem?_map] at hi
  obtain ⟨x, hx, rfl⟩ := Option.map_eq_some_iff.mp hi
  have hrank := hw.rank
  have hpaths := rankOf_map (P := fun path => parentOf path == d) NodeWatch.path c.watches (i := w)
    fun _ => rfl
  rw [watchPaths, ← hpaths] at hrank
  rw [Coordinator.hasFired, Coordinator.hasFired, hx, ← hrank, only, getElem?_filter_rankOf hx hpath]

theorem nextNumber_only (c : Coordinator) (d : String) : (c.only d).nextNumber d = c.nextNumber d := by
  have hlookup (l : List (String × Nat)) : (l.filter fun s => s.1 == d).lookup d = l.lookup d := by
    induction l with
    | nil => rfl
    | cons s rest ih =>
      obtain ⟨parent, number⟩ := s
      by_cases hs : parent = d
      · simp [hs]
      · have hne : (d == parent) = false := by simpa using Ne.symm hs
        simp [hs, hne, List.lookup_cons, ih]
  rw [nextNumber, nextNumber, only, hlookup]

theorem hasNode_only (hpath : parentOf path = d) : (c.only d).hasNode path = c.hasNode path := by
  rw [Bool.eq_iff_iff, hasNode_iff, hasNode_iff]
  constructor
  · rintro ⟨n, hn, rfl⟩
    exact ⟨n, List.mem_of_mem_filter hn, rfl⟩
  · rintro ⟨n, hn, rfl⟩
    exact ⟨n, List.mem_filter.mpr ⟨hn, beq_iff_eq.mpr hpath⟩, rfl⟩

theorem childNames_only (c : Coordinator) (d : String) : (c.only d).childNames d = c.childNames d := by
  rw [childNames, only, List.filterMap_filter]
  refine List.filterMap_congr fun n _ => ?_
  cases hchild : childName? d n.path with
  | none => exact ite_self none
  | some name => rw [if_pos (beq_iff_eq.mpr (parentOf_eq_of_childName? hchild))]

/-- Removing nodes of all directories removes those of this one. -/
theorem only_removeAll (c : Coordinator) (isGone : LockNode → Bool) :
    (c.removeAll isGone).only d = (c.only d).removeAll isGone := by
  have hnodes : (c.nodes.filter fun n => !isGone n).filter (fun n => parentOf n.path == d) =
      (c.nodes.filter fun n => parentOf n.path == d).filter fun n => !isGone n := by
    rw [List.filter_filter, List.filter_filter]
    exact List.filter_congr fun n _ => Bool.and_comm _ _
  have hgone {w : NodeWatch} (hw : parentOf w.path = d) :
      ((c.nodes.filter isGone).map LockNode.path).contains w.path =
        (((c.nodes.filter fun n => parentOf n.path == d).filter isGone).map
          LockNode.path).contains w.path := by
    rw [Bool.eq_iff_iff, List.contains_iff_mem, List.contains_iff_mem, List.mem_map, List.mem_map]
    refine exists_congr fun n => and_congr_left fun hpath => ?_
    rw [List.mem_filter, List.mem_filter, List.mem_filter, beq_iff_eq, hpath]
    simp [hw]
  simp only [removeAll, only, hnodes, List.filter_map, Function.comp_def, Coordinator.mk.injEq, true_and,
    and_true]
  refine List.map_congr_left fun w hw => ?_
  rw [hgone (beq_iff_eq.mp (List.mem_filter.mp hw).2)]

/-- Nothing is removed where no node is picked. -/
theorem removeAll_of_none {isGone : LockNode → Bool} (h : ∀ n ∈ c.nodes, isGone n = false) :
    c.removeAll isGone = c := by
  have hkept : (c.nodes.filter fun n => !isGone n) = c.nodes :=
    List.filter_eq_self.mpr fun n hn => by rw [h n hn]; rfl
  have hgone : c.nodes.filter isGone = [] :=
    List.filter_eq_nil_iff.mpr fun n hn => by rw [h n hn]; exact Bool.false_ne_true
  simp [removeAll, hkept, hgone]

theorem only_removeAll_elsewhere (c : Coordinator) (hpath : parentOf path ≠ d) :
    (c.removeAll fun n => n.path == path).only d = c.only d := by
  rw [only_removeAll]
  refine removeAll_of_none fun n hn => beq_eq_false_iff_ne.mpr ?_
  rintro rfl
  exact hpath (beq_iff_eq.mp (List.mem_filter.mp hn).2)

theorem filter_insert_elsewhere (new : LockNode) {P : String → Bool} (hnew : P new.path = false)
    (nodes : List LockNode) :
    (insert new nodes).filter (fun n => P n.path) = nodes.filter fun n => P n.path := by
  induction nodes with
  | nil => simp [insert, hnew]
  | cons n rest ih =>
    unfold insert
    split
    · rename_i heq
      simp [hnew, heq]
    · split
      · simp [List.filter_cons, hnew]
      · rw [List.filter_cons, List.filter_cons, ih]

/-- A node that sorts before all others comes first. -/
theorem insert_of_forall_lt {new : LockNode} {nodes : List LockNode} (h : ∀ n ∈ nodes, new.path < n.path) :
    insert new nodes = new :: nodes := by
  cases nodes with
  | nil => rfl
  | cons n rest =>
    have hlt := h n List.mem_cons_self
    have hne : n.path ≠ new.path := fun heq => String.lt_irrefl _ (heq ▸ hlt)
    rw [insert, if_neg hne, if_pos hlt]

/-- Among nodes that are sorted, those of a kind are put in place as they are among their own. -/
theorem filter_insert (new : LockNode) {P : String → Bool} (hnew : P new.path = true) {nodes : List LockNode}
    (hs : IsSorted nodes) :
    (insert new nodes).filter (fun n => P n.path) = insert new (nodes.filter fun n => P n.path) := by
  induction nodes with
  | nil => simp [insert, hnew]
  | cons n rest ih =>
    obtain ⟨hfirst, hrest⟩ := List.pairwise_cons.mp hs
    by_cases heq : n.path = new.path
    · have hn : P n.path = true := heq ▸ hnew
      simp only [insert, heq, if_true, List.filter_cons, hnew]
    · by_cases hlt : new.path < n.path
      · have hall : ∀ m ∈ (n :: rest).filter fun n => P n.path, new.path < m.path := by
          intro m hm
          rcases List.mem_cons.mp (List.mem_of_mem_filter hm) with rfl | hm
          · exact hlt
          · exact String.lt_trans hlt (hfirst m hm)
        rw [insert_of_forall_lt hall, insert, if_neg heq, if_pos hlt, List.filter_cons, hnew, if_pos rfl]
      · rw [insert, if_neg heq, if_neg hlt, List.filter_cons, List.filter_cons, ih hrest]
        split
        · rw [insert, if_neg heq, if_neg hlt]
        · rfl

theorem only_withNode_elsewhere (c : Coordinator) (identity : Nat) (hparent : parent ≠ d) :
    (c.withNode identity (parent ++ "/" ++ nodeStart)).only d = c.only d := by
  have hnodes := filter_insert_elsewhere ⟨nodePath parent (c.nextNumber parent), identity⟩
    (P := fun path => parentOf path == d) (by simpa using hparent) c.nodes
  have hsequences : ((parent, c.nextNumber parent + 1) :: c.sequences.filter fun s => s.1 != parent).filter
      (fun s => s.1 == d) = c.sequences.filter fun s => s.1 == d := by
    rw [List.filter_cons_of_neg (by simpa using hparent), List.filter_filter]
    refine List.filter_congr fun s _ => ?_
    by_cases hs : s.1 = d
    · simp [hs, Ne.symm hparent]
    · simp [hs]
  rw [nodePath] at hnodes
  simp only [withNode, only, parentOf_start, hnodes, hsequences]

theorem only_withNode (hs : IsSorted c.nodes) (identity : Nat) :
    (c.withNode identity (d ++ "/" ++ nodeStart)).only d =
      (c.only d).withNode identity (d ++ "/" ++ nodeStart) := by
  have hnodes := filter_insert ⟨nodePath d (c.nextNumber d), identity⟩
    (P := fun path => parentOf path == d) (by simp) hs
  have hsequences :
      ((d, c.nextNumber d + 1) :: c.sequences.filter fun s => s.1 != d).filter (fun s => s.1 == d) =
      (d, c.nextNumber d + 1) :: (c.sequences.filter fun s => s.1 == d).filter fun s => s.1 != d := by
    rw [List.filter_cons_of_pos (by simp), List.filter_filter, List.filter_filter]
    exact congrArg _ (List.filter_congr fun s _ => Bool.and_comm _ _)
  have hnumber := c.nextNumber_only d
  rw [nodePath] at hnodes
  simp only [withNode, parentOf_start, hnumber]
  simp only [only, hnodes, hsequences]

theorem only_withWatch_elsewhere (c : Coordinator) (hpath : parentOf path ≠ d) :
    (c.withWatch path).only d = c.only d := by
  have hnew : ([⟨path, false⟩] : List NodeWatch).filter (fun w => parentOf w.path == d) = [] := by
    simpa using hpath
  simp only [withWatch, only, List.filter_append, hnew, List.append_nil]

theorem only_withWatch (c : Coordinator) (hpath : parentOf path = d) :
    (c.withWatch path).only d = (c.only d).withWatch path := by
  have hnew : ([⟨path, false⟩] : List NodeWatch).filter (fun w => parentOf w.path == d) =
      [⟨path, false⟩] := by
    simpa using hpath
  simp only [withWatch, only, List.filter_append, hnew]

theorem only_changeOf (c : Coordinator) (change : SessionEvent) (session : Nat) :
    (LockTrial.changeOf change c session).only d = LockTrial.changeOf change (c.only d) session := by
  cases change with
  | disconnected => rfl
  | reconnected => rfl
  | expired =>
    cases hs : c.sessions[session]? with
    | none =>
      have hs' : (c.only d).sessions[session]? = none := hs
      simp only [LockTrial.changeOf, expire_of_none hs, expire_of_none hs']
    | some gone =>
      have hs' : (c.only d).sessions[session]? = some gone := hs
      have hremoved := c.only_removeAll (d := d) fun node => node.owner == gone.identity
      simp only [LockTrial.changeOf, expire_of_some hs, expire_of_some hs']
      rw [← hremoved]
      rfl

/-- An operation of a session that answers and leaves the same in the part of a directory. -/
theorem connected_only {α : Type} {op op' : Nat → Outcome α}
    (hop : ∀ i, op' i = ((op i).1, (op i).2.only d)) :
    (c.only d).connected session op' = ((c.connected session op).1, (c.connected session op).2.only d) := by
  have hidentity : (c.only d).identity session = c.identity session := rfl
  unfold connected
  rw [hidentity]
  cases c.identity session with
  | ok i => exact hop i
  | error e => rfl

end Coordinator

namespace Coordination

variable {c : Coordination} {d path parent : String} {client : Nat}

/-- The service as far as one directory goes, with all clients. -/
def only (c : Coordination) (d : String) : Coordination := { c with coordinator := c.coordinator.only d }

theorem IsFaultless.only (h : c.IsFaultless) (d : String) : (c.only d).IsFaultless := h

theorem call_only {α : Type} (h : c.IsFaultless) (client : Nat) (method : ClientMethod) (absent : α)
    {op : Coordinator → Nat → Coordinator.Outcome α} (hop : ∀ session, op (c.coordinator.only d) session =
      ((op c.coordinator session).1, (op c.coordinator session).2.only d)) :
    (c.only d).call client method absent op =
      ((c.call client method absent op).1, (c.call client method absent op).2.only d) := by
  rw [call_of_faultless h, call_of_faultless (h.only d)]
  have hsession : (c.only d).sessionOf client = c.sessionOf client := rfl
  rw [hsession]
  exact congrArg (fun r : Coordinator.Outcome α => (r.1, { c with coordinator := r.2 })) (hop _)

theorem create_only (h : c.IsFaultless) (hs : Coordinator.IsSorted c.coordinator.nodes) (client : Nat) :
    (c.only d).create client (d ++ "/" ++ nodeStart) =
      ((c.create client (d ++ "/" ++ nodeStart)).1, (c.create client (d ++ "/" ++ nodeStart)).2.only d) := by
  refine call_only h client _ _ fun session => Coordinator.connected_only fun identity => ?_
  change (Except.ok (d ++ "/" ++ nodeStart ++
        Text.padded ((c.coordinator.only d).nextNumber (Coordinator.parentOf (d ++ "/" ++ nodeStart))) 10),
      (c.coordinator.only d).withNode identity (d ++ "/" ++ nodeStart)) =
    (Except.ok (d ++ "/" ++ nodeStart ++
        Text.padded (c.coordinator.nextNumber (Coordinator.parentOf (d ++ "/" ++ nodeStart))) 10),
      (c.coordinator.withNode identity (d ++ "/" ++ nodeStart)).only d)
  rw [Coordinator.only_withNode hs, parentOf_start, Coordinator.nextNumber_only]

theorem children_only (h : c.IsFaultless) (client : Nat) :
    (c.only d).children client d = ((c.children client d).1, (c.children client d).2.only d) :=
  call_only h client _ _ fun session => Coordinator.connected_only fun _ => by
    rw [Coordinator.childNames_only]

theorem delete_only (h : c.IsFaultless) (client : Nat) (hpath : Coordinator.parentOf path = d) :
    (c.only d).delete client path = ((c.delete client path).1, (c.delete client path).2.only d) :=
  call_only h client _ _ fun session => Coordinator.connected_only fun _ => by
    rw [Coordinator.hasNode_only hpath, Coordinator.only_removeAll]

theorem watch_only (h : c.IsFaultless) (client : Nat) (hpath : Coordinator.parentOf path = d) :
    (c.watch client path = (.ok (some c.coordinator.watches.length), c.after (.watch path)) ∧
      (c.only d).watch client path =
        (.ok (some (c.only d).coordinator.watches.length), (c.after (.watch path)).only d)) ∨
    (c.watch client path = (.ok none, c) ∧ (c.only d).watch client path = (.ok none, c.only d)) ∨
    (c.watch client path = (.error .connectionLoss, c) ∧
      (c.only d).watch client path = (.error .connectionLoss, c.only d)) := by
  have hsame : (c.only d).coordinator.hasNode path = c.coordinator.hasNode path :=
    Coordinator.hasNode_only hpath
  have hcases := call_cases h client .watch none (fun service session => service.watch session path)
    fun _ _ => rfl
  have hcases' := call_cases (h.only d) client .watch none (fun service session => service.watch session path)
    fun _ _ => rfl
  -- The session of the client is the same in the part.
  rcases hcases with ⟨s, hs, hc, heq⟩ | ⟨hlost, heq⟩
  · rcases hcases' with ⟨s', -, -, heq'⟩ | ⟨hlost, -⟩
    · rw [hsame] at heq'
      cases hnode : c.coordinator.hasNode path with
      | true =>
        rw [hnode] at heq heq'
        have hleft := c.coordinator.only_withWatch hpath
        refine .inl ⟨heq, heq'.trans ?_⟩
        exact congrArg (fun coordinator => (_, { c with coordinator })) hleft.symm
      | false =>
        rw [hnode] at heq heq'
        exact .inr (.inl ⟨heq, heq'⟩)
    · exact absurd ⟨s, hs, hc⟩ hlost
  · rcases hcases' with ⟨s, hs, hc, -⟩ | ⟨-, heq'⟩
    · exact absurd ⟨s, hs, hc⟩ hlost
    · exact .inr (.inr ⟨heq, heq'⟩)

theorem only_create (h : c.IsFaultless) (client : Nat) (hparent : parent ≠ d) :
    (c.create client (parent ++ "/" ++ nodeStart)).2.only d = c.only d := by
  rcases create_cases h client parent with ⟨s, -, -, heq⟩ | ⟨-, heq⟩
  · rw [heq]
    exact congrArg (fun coordinator => { c with coordinator })
      (c.coordinator.only_withNode_elsewhere s.identity hparent)
  · rw [heq]

theorem only_watch (h : c.IsFaultless) (client : Nat) (hpath : Coordinator.parentOf path ≠ d) :
    (c.watch client path).2.only d = c.only d := by
  rcases watch_cases h client path with ⟨-, heq⟩ | ⟨-, heq⟩ | ⟨-, heq⟩
  · rw [heq]
    exact congrArg (fun coordinator => { c with coordinator }) (c.coordinator.only_withWatch_elsewhere hpath)
  · rw [heq]
  · rw [heq]

theorem only_delete (h : c.IsFaultless) (client : Nat) (hpath : Coordinator.parentOf path ≠ d) :
    (c.delete client path).2.only d = c.only d := by
  rcases delete_cases h client path with ⟨-, heq⟩ | ⟨-, heq⟩
  · rw [heq]
    exact congrArg (fun coordinator => { c with coordinator }) (c.coordinator.only_removeAll_elsewhere hpath)
  · rw [heq]

end Coordination

end DurableQueue
