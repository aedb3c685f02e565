import DurableQueue.Lock.Coordinator

/-!
What operations do to the tree of a coordinator.

Nodes stay in ascending order of their paths (`isSorted_insert`, `isSorted_removeAll`), and the
children of a parent are the paths that go on from it by one component
(`childName?_eq_some_iff`).
-/

namespace DurableQueue.Coordinator

theorem mem_insert_iff {new n : LockNode} {nodes : List LockNode}
    (h : n.path ≠ new.path) : n ∈ insert new nodes ↔ n ∈ nodes := by
  have hn : n ≠ new := fun e => h (congrArg LockNode.path e)
  induction nodes with
  | nil => simp [insert, hn]
  | cons m rest ih =>
    unfold insert
    split
    · rename_i e
      have hm : n ≠ m := fun e' => h (e' ▸ e)
      simp [hn, hm]
    · split
      · simp [hn]
      · simp [ih]

theorem mem_insert_self (new : LockNode) (nodes : List LockNode) : new ∈ insert new nodes := by
  induction nodes with
  | nil => simp [insert]
  | cons m rest ih =>
    unfold insert
    split
    · simp
    · split
      · simp
      · exact List.mem_cons_of_mem _ ih

/-- Nodes ascend by path. -/
def IsSorted (nodes : List LockNode) : Prop := nodes.Pairwise fun a b => a.path < b.path

theorem mem_of_mem_insert {new n : LockNode} {nodes : List LockNode} (h : n ∈ insert new nodes) :
    n = new ∨ n ∈ nodes := by
  induction nodes with
  | nil => simpa [insert] using h
  | cons m rest ih =>
    unfold insert at h
    split at h
    · rcases List.mem_cons.mp h with h | h
      · exact .inl h
      · exact .inr (List.mem_cons_of_mem _ h)
    · split at h
      · rcases List.mem_cons.mp h with h | h
        · exact .inl h
        · exact .inr h
      · rcases List.mem_cons.mp h with h | h
        · exact .inr (h ▸ List.mem_cons_self)
        · exact (ih h).imp id (List.mem_cons_of_mem _)

theorem isSorted_insert {nodes : List LockNode} (new : LockNode) (h : IsSorted nodes) :
    IsSorted (insert new nodes) := by
  induction nodes with
  | nil => simp [insert, IsSorted]
  | cons m rest ih =>
    obtain ⟨hm, hrest⟩ := List.pairwise_cons.mp h
    unfold insert
    split
    · rename_i e
      exact List.pairwise_cons.mpr ⟨fun n hn => e ▸ hm n hn, hrest⟩
    · rename_i hne
      split
      · rename_i hlt
        refine List.pairwise_cons.mpr ⟨fun n hn => ?_, h⟩
        rcases List.mem_cons.mp hn with rfl | hn
        · exact hlt
        · exact String.lt_trans hlt (hm n hn)
      · rename_i hlt
        refine List.pairwise_cons.mpr ⟨fun n hn => ?_, ih hrest⟩
        rcases mem_of_mem_insert hn with rfl | hn
        · exact String.not_le.mp fun hle => hne (String.le_antisymm (String.not_lt.mp hlt) hle)
        · exact hm n hn

theorem isSorted_removeAll (c : Coordinator) (isGone : LockNode → Bool) (h : IsSorted c.nodes) :
    IsSorted (c.removeAll isGone).nodes := h.filter _

theorem childName?_eq_some_iff {parent path name : String} :
    childName? parent path = some name ↔
      '/' ∉ name.toList ∧ path.toList = parent.toList ++ '/' :: name.toList := by
  unfold childName?
  simp only
  constructor
  · intro h
    split at h
    · rename_i hp
      obtain ⟨rest, hr⟩ := List.isPrefixOf_iff_prefix.mp hp
      rw [← hr, List.drop_left] at h
      split at h
      · cases h
      · rename_i hs
        cases h
        simp at hs
        simp [hs, ← hr]
    · cases h
  · rintro ⟨hs, hp⟩
    have hpre : (parent.toList ++ ['/']).isPrefixOf path.toList = true :=
      List.isPrefixOf_iff_prefix.mpr ⟨name.toList, by simp [hp]⟩
    have hdrop : path.toList.drop (parent.toList ++ ['/']).length = name.toList := by
      have e : parent.toList ++ '/' :: name.toList = parent.toList ++ ['/'] ++ name.toList := by simp
      rw [hp, e, List.drop_left]
    rw [if_pos hpre, hdrop]
    simp [hs]

end DurableQueue.Coordinator
