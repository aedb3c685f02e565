import DurableQueue.Lock.Acquisition
import DurableQueue.Lock.Coordinator.Lemmas
import DurableQueue.Proofs.Text.Padded

/-!
Paths of lock nodes.

`Acquisition.nodePath` is the path that a directory and a number give. Directory and number can be
read off it, its only parent is the directory, and in one directory paths sort like their numbers as
long as these have ten digits (`nodePath_lt`). So the first child of a directory in a sorted tree is
the node of the least number there: `least_of_first`.
-/

namespace DurableQueue

namespace Acquisition

/-- The name of the node of a number. -/
def nodeName (n : Nat) : String := nodeStart ++ Text.padded n 10

/-- The path of the node of a number in a directory. -/
def nodePath (directory : String) (n : Nat) : String :=
  directory ++ "/" ++ nodeStart ++ Text.padded n 10

theorem toList_nodeName (n : Nat) :
    (nodeName n).toList = nodeStart.toList ++ (Text.padded n 10).toList := by
  simp [nodeName]

theorem toList_nodePath (directory : String) (n : Nat) :
    (nodePath directory n).toList = directory.toList ++ '/' :: (nodeName n).toList := by
  simp [nodePath, nodeName]

theorem slash_not_mem_nodeName (n : Nat) : '/' ∉ (nodeName n).toList := by
  rw [toList_nodeName]
  intro h
  rcases List.mem_append.mp h with h | h
  · revert h
    decide
  · exact Text.not_mem_padded rfl h

theorem nodeName_injective {m n : Nat} (h : nodeName m = nodeName n) : m = n := by
  have h' := congrArg String.toList h
  rw [toList_nodeName, toList_nodeName] at h'
  exact Text.padded_injective (String.toList_injective (List.append_cancel_left h'))

theorem splitLast_nodePath (directory : String) (n : Nat) :
    Text.splitLast '/' (nodePath directory n).toList =
      some (directory.toList, (nodeName n).toList) := by
  rw [toList_nodePath]
  exact Text.splitLast_append '/' directory.toList (slash_not_mem_nodeName n)

/-- A path determines directory and number. -/
theorem nodePath_injective {d d' : String} {m n : Nat} (h : nodePath d m = nodePath d' n) :
    d = d' ∧ m = n := by
  have h' := splitLast_nodePath d m
  rw [h, splitLast_nodePath d' n] at h'
  obtain ⟨hd, hn⟩ := Prod.mk.inj (Option.some.inj h')
  exact ⟨(String.toList_injective hd).symm, nodeName_injective (String.toList_injective hn).symm⟩

@[simp] theorem nameOf_nodePath (directory : String) (n : Nat) :
    nameOf (nodePath directory n) = nodeName n := by
  simp [nameOf, splitLast_nodePath]

@[simp] theorem parentOf_start (directory : String) :
    Coordinator.parentOf (directory ++ "/" ++ nodeStart) = directory := by
  have hsplit : Text.splitLast '/' (directory ++ "/" ++ nodeStart).toList =
      some (directory.toList, nodeStart.toList) := by
    have hslash : '/' ∉ nodeStart.toList := by decide
    have h := Text.splitLast_append '/' directory.toList hslash
    simpa using h
  rw [Coordinator.parentOf, hsplit]
  simp

theorem childName?_nodePath {parent directory name : String} {n : Nat} :
    Coordinator.childName? parent (nodePath directory n) = some name ↔
      parent = directory ∧ name = nodeName n := by
  rw [Coordinator.childName?_eq_some_iff, toList_nodePath]
  constructor
  · rintro ⟨hs, hp⟩
    have hl := Text.splitLast_append '/' parent.toList hs
    rw [← hp, Text.splitLast_append '/' directory.toList (slash_not_mem_nodeName n)] at hl
    obtain ⟨h1, h2⟩ := Prod.mk.inj (Option.some.inj hl)
    exact ⟨(String.toList_injective h1).symm, (String.toList_injective h2).symm⟩
  · rintro ⟨rfl, rfl⟩
    exact ⟨slash_not_mem_nodeName n, rfl⟩

theorem nodePath_lt {directory : String} {m n : Nat} (hmn : m < n) (hn : n < 10 ^ 10) :
    nodePath directory m < nodePath directory n := by
  have h := Text.padded_lt_padded (by decide) hmn hn
  rw [String.lt_iff] at h ⊢
  rw [toList_nodePath, toList_nodePath, toList_nodeName, toList_nodeName]
  have hname : nodeStart.toList ++ (Text.padded m 10).toList <
      nodeStart.toList ++ (Text.padded n 10).toList := List.append_left_lt h
  exact List.append_left_lt (List.cons_lt_cons_iff.mpr (.inr ⟨rfl, hname⟩))

end Acquisition

namespace NodePosition

theorem mem_of_of_eq_behind {name predecessor : String} {names : List String}
    (h : of name names = behind predecessor) : name ∈ names ∧ predecessor ∈ names := by
  induction names with
  | nil => cases h
  | cons n rest ih =>
    unfold of at h
    split at h
    · cases h
    · cases hr : of name rest with
      | first =>
        rw [hr] at h
        cases h
        have hhead : rest.head? = some name := of_eq_first_iff.mp hr
        exact ⟨List.mem_cons_of_mem _ (List.mem_of_mem_head? hhead), List.mem_cons_self⟩
      | behind p =>
        rw [hr] at h
        cases h
        obtain ⟨h1, h2⟩ := ih hr
        exact ⟨List.mem_cons_of_mem _ h1, List.mem_cons_of_mem _ h2⟩
      | absent =>
        rw [hr] at h
        cases h

end NodePosition

namespace Coordinator

open Acquisition

theorem hasNode_iff {c : Coordinator} {path : String} :
    c.hasNode path = true ↔ ∃ n ∈ c.nodes, n.path = path := by
  simp [hasNode]

/-- A tree that holds nothing but lock nodes. -/
def HoldsLockNodes (c : Coordinator) : Prop :=
  ∀ node ∈ c.nodes, ∃ directory n, node.path = nodePath directory n

theorem mem_childNames_iff {c : Coordinator} (h : c.HoldsLockNodes) {directory name : String} :
    name ∈ c.childNames directory ↔
      ∃ n, name = nodeName n ∧ c.hasNode (nodePath directory n) = true := by
  simp only [childNames, List.mem_filterMap, hasNode_iff]
  constructor
  · rintro ⟨node, hmem, hc⟩
    obtain ⟨d, n, hp⟩ := h node hmem
    rw [hp] at hc
    obtain ⟨rfl, rfl⟩ := childName?_nodePath.mp hc
    exact ⟨n, rfl, node, hmem, hp⟩
  · rintro ⟨n, rfl, node, hmem, hp⟩
    exact ⟨node, hmem, by rw [hp]; exact childName?_nodePath.mpr ⟨rfl, rfl⟩⟩

theorem hasNode_of_mem_childNames {c : Coordinator} (h : c.HoldsLockNodes) {directory : String}
    {n : Nat} (hmem : nodeName n ∈ c.childNames directory) :
    c.hasNode (nodePath directory n) = true := by
  obtain ⟨m, hname, hnode⟩ := (mem_childNames_iff h).mp hmem
  rwa [nodeName_injective hname]

/-- In a sorted tree the first answer of a listing belongs to the least path that has one. -/
theorem least_of_head?_filterMap {nodes : List LockNode} (hs : IsSorted nodes)
    {f : LockNode → Option String} {name : String} (h : (nodes.filterMap f).head? = some name) :
    ∃ node ∈ nodes, f node = some name ∧
      ∀ other ∈ nodes, (f other).isSome = true → ¬ other.path < node.path := by
  induction nodes with
  | nil => simp at h
  | cons first rest ih =>
    obtain ⟨hfirst, hrest⟩ := List.pairwise_cons.mp hs
    cases hf : f first with
    | some x =>
      rw [List.filterMap_cons_some hf, List.head?_cons] at h
      cases h
      refine ⟨first, List.mem_cons_self, hf, fun other hmem _ => ?_⟩
      rcases List.mem_cons.mp hmem with rfl | hmem
      · exact String.lt_irrefl _
      · exact fun hlt => String.lt_irrefl _ (String.lt_trans hlt (hfirst other hmem))
    | none =>
      rw [List.filterMap_cons_none hf] at h
      obtain ⟨node, hmem, hname, hleast⟩ := ih hrest h
      refine ⟨node, List.mem_cons_of_mem _ hmem, hname, fun other hother hsome => ?_⟩
      rcases List.mem_cons.mp hother with rfl | hother
      · rw [hf] at hsome
        cases hsome
      · exact hleast other hother hsome

/-- Whether a number has a node in a directory and no smaller one has. -/
def IsLeast (c : Coordinator) (directory : String) (n : Nat) : Prop :=
  c.hasNode (nodePath directory n) = true ∧ ∀ m < n, c.hasNode (nodePath directory m) = false

/-- Who is listed first has the least number of its directory. -/
theorem least_of_first {c : Coordinator} (hs : IsSorted c.nodes) (h : c.HoldsLockNodes)
    {directory : String} {n : Nat} (hn : n < 10 ^ 10)
    (hfirst : NodePosition.of (nodeName n) (c.childNames directory) = .first) :
    c.IsLeast directory n := by
  have hhead := NodePosition.of_eq_first_iff.mp hfirst
  refine ⟨hasNode_of_mem_childNames h (List.mem_of_mem_head? hhead), fun m hm => ?_⟩
  refine Bool.eq_false_iff.mpr fun hnode => ?_
  obtain ⟨other, hother, hpath⟩ := hasNode_iff.mp hnode
  obtain ⟨node, hmem, hname, hleast⟩ := least_of_head?_filterMap hs hhead
  obtain ⟨d, k, hp⟩ := h node hmem
  rw [hp] at hname
  obtain ⟨rfl, hk⟩ := childName?_nodePath.mp hname
  have hsome : (childName? directory other.path).isSome = true := by
    rw [hpath, childName?_nodePath.mpr ⟨rfl, rfl⟩]
    rfl
  apply hleast other hother hsome
  rw [hpath, hp, ← nodeName_injective hk]
  exact nodePath_lt hm hn

end Coordinator

end DurableQueue
