import DurableQueue.Proofs.Lock.Directories
import DurableQueue.Proofs.Lock.Tree
import Mathlib.Data.List.Sort
import Mathlib.Data.String.Basic

/-!
What a listing of children holds.

The nodes of a service are the keys of a sorted table, and they can be any texts: paths below a child, paths of
parents whose names begin alike, paths that sort between two children. A listing of a parent still answers its
direct children, each once and in ascending order (`children_exact`). It depends on nothing else in the tree.
-/

namespace DurableQueue.Coordinator

variable {c : Coordinator} {parent name : String} {names names' : List String}

/-- A text that two others begin with does not decide which of them sorts first. -/
theorem lt_of_append_lt {start a b : List Char} (h : start ++ a < start ++ b) : a < b := by
  induction start with
  | nil => exact h
  | cons x start ih =>
    rw [List.cons_append, List.cons_append, List.cons_lt_cons_iff] at h
    rcases h with hlt | ⟨-, hrest⟩
    · exact absurd hlt (Char.lt_irrefl x)
    · exact ih hrest

/-- Children of one parent sort like their paths. -/
theorem lt_of_childName? {a b x y : String} (hx : childName? parent a = some x)
    (hy : childName? parent b = some y) (hlt : a < b) : x < y := by
  obtain ⟨-, ha⟩ := childName?_eq_some_iff.mp hx
  obtain ⟨-, hb⟩ := childName?_eq_some_iff.mp hy
  rw [String.lt_iff] at hlt ⊢
  rw [ha, hb] at hlt
  have hrest : ['/'] ++ x.toList < ['/'] ++ y.toList := lt_of_append_lt hlt
  exact lt_of_append_lt hrest

theorem mem_childNames : name ∈ c.childNames parent ↔
    '/' ∉ name.toList ∧ c.hasNode (parent ++ "/" ++ name) = true := by
  have hpath : ∀ path : String,
      path.toList = parent.toList ++ '/' :: name.toList ↔ path = parent ++ "/" ++ name := by
    intro path
    rw [← String.toList_inj]
    simp
  simp only [childNames, List.mem_filterMap, hasNode_iff, childName?_eq_some_iff, hpath]
  constructor
  · rintro ⟨node, hmem, hslash, hnode⟩
    exact ⟨hslash, node, hmem, hnode⟩
  · rintro ⟨hslash, node, hmem, hnode⟩
    exact ⟨node, hmem, hslash, hnode⟩

theorem pairwise_childNames (hs : IsSorted c.nodes) (parent : String) :
    (c.childNames parent).Pairwise (· < ·) := by
  refine List.Pairwise.filterMap _ ?_ hs
  intro a b hlt x hx y hy
  exact lt_of_childName? hx hy hlt

/-- The names of the direct children of a parent, ascending and without repeats. -/
structure IsListing (c : Coordinator) (parent : String) (names : List String) : Prop where
  ascending : names.Pairwise (· < ·)
  mem_iff : ∀ name, name ∈ names ↔ '/' ∉ name.toList ∧ c.hasNode (parent ++ "/" ++ name) = true

namespace IsListing

theorem childNames (hs : IsSorted c.nodes) (parent : String) : c.IsListing parent (c.childNames parent) :=
  ⟨pairwise_childNames hs parent, fun _ => mem_childNames⟩

/-- A listing says nothing that the direct children do not say. -/
theorem unique {c' : Coordinator} (h : c.IsListing parent names) (h' : c'.IsListing parent names')
    (hsame : ∀ name, '/' ∉ name.toList →
      c'.hasNode (parent ++ "/" ++ name) = c.hasNode (parent ++ "/" ++ name)) : names' = names := by
  refine h'.ascending.eq_of_mem_iff h.ascending fun name => ?_
  rw [h.mem_iff, h'.mem_iff]
  refine and_congr_right fun hslash => ?_
  rw [hsame name hslash]

end IsListing

theorem children_of_isConnected {session : Nat} (hup : c.IsConnected session) (parent : String) :
    c.children session parent = (.ok (c.childNames parent), c) := by
  rcases connected_cases c session fun _ => (.ok (c.childNames parent), c) with ⟨s, -, -, heq⟩ | ⟨hcut, -⟩
  · exact heq
  · exact absurd hup hcut

/-- Whatever the tree and the parent, a connected session is answered the direct children of the parent, in
ascending order and each once. They are found by a scan of the paths that begin with the parent and a slash, and
any other tree with the same direct children is listed alike. -/
theorem children_exact {session : Nat} (hs : IsSorted c.nodes) (hup : c.IsConnected session)
    (parent : String) :
    c.children session parent = (.ok (c.scan parent), c) ∧ c.IsListing parent (c.scan parent) ∧
      ∀ (c' : Coordinator) (session' : Nat), IsSorted c'.nodes → c'.IsConnected session' →
        (∀ name, '/' ∉ name.toList →
          c'.hasNode (parent ++ "/" ++ name) = c.hasNode (parent ++ "/" ++ name)) →
        c'.children session' parent = (.ok (c.scan parent), c') := by
  have hlisting := IsListing.childNames hs parent
  rw [scan_eq_childNames hs]
  refine ⟨children_of_isConnected hup parent, hlisting, ?_⟩
  intro c' session' hs' hup' hsame
  have hlisting' := IsListing.childNames hs' parent
  rw [children_of_isConnected hup', hlisting.unique hlisting' hsame]

/-- Two children of `/svc` among their own children and among paths of parents that begin alike. -/
def crowdedTree : Coordinator where
  nodes := [⟨"/svc", 1⟩, ⟨"/svc-2/k", 1⟩, ⟨"/svc/a", 1⟩, ⟨"/svc/a-b/x", 1⟩, ⟨"/svc/a/b", 1⟩, ⟨"/svc/a/b/c", 1⟩,
    ⟨"/svc/b", 1⟩, ⟨"/svc0/a", 1⟩, ⟨"svc/c", 1⟩]
  sequences := []
  watches := []
  sessions := [⟨1, true, []⟩]
  lastIdentity := 1

theorem children_exact_crowdedTree :
    IsSorted crowdedTree.nodes ∧ crowdedTree.IsConnected 0 ∧
      crowdedTree.children 0 "/svc" = (.ok ["a", "b"], crowdedTree) ∧
      crowdedTree.IsListing "/svc" ["a", "b"] := by
  have hs : IsSorted crowdedTree.nodes := by
    unfold IsSorted
    decide +kernel
  have hup : crowdedTree.IsConnected 0 := ⟨_, rfl, rfl⟩
  have hscan : crowdedTree.scan "/svc" = ["a", "b"] := by decide +kernel
  obtain ⟨hanswer, hlisting, -⟩ := children_exact hs hup "/svc"
  rw [hscan] at hanswer hlisting
  exact ⟨hs, hup, hanswer, hlisting⟩

end DurableQueue.Coordinator
