import DurableQueue.Proofs.Lock.NodePath

/-!
Directories of locks.

Services and keys are any texts without a slash, so one key may begin with another and directories sort into
each other. Still a directory belongs to one service and one key (`directory_eq_iff`), a node to one directory
(`parentOf_eq_of_childName?`), and whoever scans the sorted nodes from the first that begins with the
directory's path, as far as they begin with it, finds exactly its children (`scan_eq_childNames`).
-/

namespace DurableQueue

theorem isPathComponent_iff {s : String} : isPathComponent s = true ↔ s ≠ "" ∧ '/' ∉ s.toList := by
  simp [isPathComponent]

/-- What is accepted, and nothing else: components that are there and hold no slash. -/
theorem exists_lockDirectory_iff {service key : String} : (∃ d, lockDirectory service key = .ok d) ↔
    (service ≠ "" ∧ '/' ∉ service.toList) ∧ key ≠ "" ∧ '/' ∉ key.toList := by
  simp only [lockDirectory_eq_ok_iff, isPathComponent_iff]
  exact ⟨fun ⟨_, hs, hk, _⟩ => ⟨hs, hk⟩, fun ⟨hs, hk⟩ => ⟨_, hs, hk, rfl⟩⟩

/-- The service and the key of a lock. -/
structure LockName where
  service : String
  key : String
deriving DecidableEq

/-- The directory of a lock if its components can be part of a path. -/
def LockName.directory (p : LockName) : String := "/" ++ p.service ++ "/" ++ p.key

/-- A path that a lock's directory can have belongs to no other service or key, whatever these are. -/
theorem directory_eq_iff {service key d : String} (h : lockDirectory service key = .ok d) (p : LockName) :
    d = p.directory ↔ ⟨service, key⟩ = p := by
  obtain ⟨hservice, hkey, rfl⟩ := lockDirectory_eq_ok_iff.mp h
  have hs := (isPathComponent_iff.mp hservice).2
  have hk := (isPathComponent_iff.mp hkey).2
  constructor
  · intro heq
    have hlist : service.toList ++ '/' :: key.toList = p.service.toList ++ '/' :: p.key.toList := by
      have hlist := congrArg String.toList heq
      simpa [LockName.directory] using hlist
    -- There is one slash on the left, so neither the service nor the key on the right holds another.
    have hcount := congrArg (List.count '/') hlist
    simp only [List.count_append, List.count_cons_self, List.count_eq_zero.mpr hs,
      List.count_eq_zero.mpr hk] at hcount
    have hpk : '/' ∉ p.key.toList := List.count_eq_zero.mp (by omega)
    have hsplit := congrArg (Text.splitLast '/') hlist
    rw [Text.splitLast_append '/' _ hk, Text.splitLast_append '/' _ hpk] at hsplit
    obtain ⟨hs', hk'⟩ := Prod.mk.inj (Option.some.inj hsplit)
    rw [String.toList_injective hs', String.toList_injective hk']
  · rintro rfl
    rfl

namespace Coordinator

/-- A node has one parent. -/
theorem parentOf_eq_of_childName? {parent path name : String} (h : childName? parent path = some name) :
    parentOf path = parent := by
  obtain ⟨hname, hpath⟩ := childName?_eq_some_iff.mp h
  rw [parentOf, hpath, Text.splitLast_append '/' _ hname]
  simp

theorem parentOf_child {parent name : String} (h : '/' ∉ name.toList) :
    parentOf (parent ++ "/" ++ name) = parent :=
  parentOf_eq_of_childName? (childName?_eq_some_iff.mpr ⟨h, by simp⟩)

@[simp] theorem parentOf_nodePath (directory : String) (n : Nat) :
    parentOf (Acquisition.nodePath directory n) = directory :=
  parentOf_eq_of_childName? (Acquisition.childName?_nodePath.mpr ⟨rfl, rfl⟩)

/-- The names that are found when the nodes are scanned from the first that can be a child of a parent to the
last whose path begins as those of its children do. -/
def scan (c : Coordinator) (parent : String) : List String :=
  let start := parent ++ "/"
  let candidates := (c.nodes.dropWhile fun n => n.path < start).takeWhile fun n =>
    start.toList.isPrefixOf n.path.toList
  candidates.filterMap fun n => childName? parent n.path

/-- A text that begins with another does not sort before it. -/
theorem not_lt_of_isPrefix {start text : List Char} (h : start <+: text) : ¬text < start := by
  obtain ⟨rest, rfl⟩ := h
  induction start with
  | nil => exact List.not_lt_nil rest
  | cons c start ih =>
    rw [List.cons_append, List.cons_lt_cons_iff, not_or]
    exact ⟨Char.lt_irrefl c, fun hlt => ih hlt.2⟩

/-- What sorts between a text and one that begins with it begins with it too. -/
theorem isPrefix_of_between {start a b : List Char} (hb : start <+: b) (hstart : ¬a < start) (hab : a < b) :
    start <+: a := by
  induction start generalizing a b with
  | nil => exact List.nil_prefix
  | cons c start ih =>
    obtain ⟨rest, rfl⟩ := hb
    cases a with
    | nil => exact absurd (List.nil_lt_cons c start) hstart
    | cons x a =>
      rw [List.cons_append, List.cons_lt_cons_iff] at hab
      rw [List.cons_lt_cons_iff, not_or, not_and] at hstart
      rcases hab with hlt | ⟨rfl, hab⟩
      · exact absurd hlt hstart.1
      · exact List.cons_prefix_cons.mpr ⟨rfl, ih (List.prefix_append _ _) (hstart.2 rfl) hab⟩

theorem isPrefix_of_childName? {parent path name : String} (h : childName? parent path = some name) :
    (parent ++ "/").toList.isPrefixOf path.toList = true := by
  obtain ⟨-, hpath⟩ := childName?_eq_some_iff.mp h
  exact List.isPrefixOf_iff_prefix.mpr ⟨name.toList, by simp [hpath]⟩

/-- From the first candidate on, the children of a parent stand together. -/
theorem filterMap_takeWhile {nodes : List LockNode} (parent : String) (hs : IsSorted nodes)
    (hstart : ∀ n ∈ nodes, ¬n.path < parent ++ "/") :
    (nodes.takeWhile fun n => (parent ++ "/").toList.isPrefixOf n.path.toList).filterMap
        (fun n => childName? parent n.path) = nodes.filterMap fun n => childName? parent n.path := by
  induction nodes with
  | nil => rfl
  | cons n rest ih =>
    obtain ⟨hfirst, hrest⟩ := List.pairwise_cons.mp hs
    obtain ⟨hn, hstart⟩ := List.forall_mem_cons.mp hstart
    cases hstarts : (parent ++ "/").toList.isPrefixOf n.path.toList with
    | true =>
      simp only [List.takeWhile_cons, hstarts, if_true, List.filterMap_cons, ih hrest hstart]
    | false =>
      have hnone : ∀ m ∈ n :: rest, childName? parent m.path = none := by
        intro m hm
        cases hchild : childName? parent m.path with
        | none => rfl
        | some name =>
          have hm' := isPrefix_of_childName? hchild
          rcases List.mem_cons.mp hm with rfl | hm
          · rw [hstarts] at hm'
            cases hm'
          · have hbetween := isPrefix_of_between (List.isPrefixOf_iff_prefix.mp hm')
              (fun hlt => hn (String.lt_iff.mpr hlt)) (String.lt_iff.mp (hfirst m hm))
            rw [List.isPrefixOf_iff_prefix.mpr hbetween] at hstarts
            cases hstarts
      rw [List.filterMap_eq_nil_iff.mpr hnone]
      simp only [List.takeWhile_cons, hstarts, Bool.false_eq_true, if_false, List.filterMap_nil]

/-- A scan of sorted nodes finds the children of a parent and no others. -/
theorem scan_eq_childNames {c : Coordinator} (hs : IsSorted c.nodes) (parent : String) :
    c.scan parent = c.childNames parent := by
  suffices ∀ nodes : List LockNode, IsSorted nodes →
      (((nodes.dropWhile fun n => n.path < parent ++ "/").takeWhile fun n =>
        (parent ++ "/").toList.isPrefixOf n.path.toList).filterMap fun n => childName? parent n.path) =
      nodes.filterMap fun n => childName? parent n.path from this c.nodes hs
  intro nodes hnodes
  induction nodes with
  | nil => rfl
  | cons n rest ih =>
    obtain ⟨hfirst, hrest⟩ := List.pairwise_cons.mp hnodes
    by_cases hlt : n.path < parent ++ "/"
    · have hnone : childName? parent n.path = none := by
        cases hchild : childName? parent n.path with
        | none => rfl
        | some name =>
          have hstarts := List.isPrefixOf_iff_prefix.mp (isPrefix_of_childName? hchild)
          exact absurd (String.lt_iff.mp hlt) (not_lt_of_isPrefix hstarts)
      simp only [List.dropWhile_cons, hlt, decide_true, if_true, List.filterMap_cons, hnone, ih hrest]
    · have hstart : ∀ m ∈ n :: rest, ¬m.path < parent ++ "/" := by
        refine List.forall_mem_cons.mpr ⟨hlt, fun m hm hm' => ?_⟩
        exact hlt (String.lt_trans (hfirst m hm) hm')
      simp only [List.dropWhile_cons, hlt, decide_false, Bool.false_eq_true, if_false]
      exact filterMap_takeWhile parent hnodes hstart

end Coordinator

end DurableQueue
