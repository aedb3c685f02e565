import DurableQueue.Proofs.Lock.Children
import DurableQueue.Proofs.Lock.TreeHistory

/-!
The order in which sequential nodes are listed.

`Coordinator.survivors` are the nodes that creates from one start have left, in the order of the creates. As long
as the numbers under the parent have ten digits, a listing of the parent has them in this order
(`survivors_in_order`), whoever created them and whatever was deleted or expired in between. The next number has
eleven digits and sorts before numbers that were given out earlier, and a start without a slash makes nodes that
no listing holds: `creation_order_lost`.
-/

namespace DurableQueue

/-- What a create asks the path of the new node to begin with. -/
def CoordinatorOp.start? : CoordinatorOp → Option String
  | create _ start => some start
  | _ => none

namespace Coordinator

variable {c : Coordinator} {op : CoordinatorOp} {ops : List CoordinatorOp} {parent start stem path : String}
  {session : Nat}

/-- The path of the node that an operation creates from a start. -/
def createdPath? (c : Coordinator) (start : String) : CoordinatorOp → Option String
  | .create session start' => if start' = start then (c.create session start').1.toOption else none
  | _ => none

/-- The paths of the nodes that operations create from a start, in the order of the creates. -/
def created (c : Coordinator) (start : String) : List CoordinatorOp → List String
  | [] => []
  | op :: rest => (c.createdPath? start op).toList ++ created (c.perform op).2 start rest

/-- The nodes that were created from a start and are still there, in the order of their creation. -/
def survivors (ops : List CoordinatorOp) (start : String) : List String :=
  (empty.created start ops).filter (reached ops).hasNode

theorem createdPath?_eq_some_iff : c.createdPath? start op = some path ↔
    ∃ session, op = .create session start ∧ (c.perform op).1 = .ok (.created path) := by
  cases op with
  | create session start' =>
    simp only [createdPath?, perform, Outcome.map]
    constructor
    · intro h
      split at h
      · next heq =>
        refine ⟨session, by rw [heq], ?_⟩
        cases hanswer : (c.create session start').1 with
        | ok path' =>
          rw [hanswer] at h
          cases h
          rfl
        | error e =>
          rw [hanswer] at h
          cases h
      · cases h
    · rintro ⟨session', hop, hanswer⟩
      cases hop
      rw [if_pos rfl]
      cases hcreate : (c.create session start).1 with
      | ok path' =>
        rw [hcreate] at hanswer
        cases hanswer
        rfl
      | error e =>
        rw [hcreate] at hanswer
        cases hanswer
  | _ => simp [createdPath?]

theorem mem_created_iff : path ∈ c.created start ops ↔ ∃ earlier session later,
    ops = earlier ++ .create session start :: later ∧
      ((c.performAll earlier).perform (.create session start)).1 = .ok (.created path) := by
  induction ops generalizing c with
  | nil => simp [created]
  | cons op rest ih =>
    rw [created, List.mem_append, Option.mem_toList, createdPath?_eq_some_iff, ih]
    constructor
    · rintro (⟨session, rfl, hanswer⟩ | ⟨earlier, session, later, rfl, hanswer⟩)
      · exact ⟨[], session, rest, rfl, hanswer⟩
      · exact ⟨op :: earlier, session, later, rfl, hanswer⟩
    · rintro ⟨earlier, session, later, hops, hanswer⟩
      cases earlier with
      | nil =>
        obtain ⟨rfl, rfl⟩ := List.cons.inj hops
        exact .inl ⟨session, rfl, hanswer⟩
      | cons first earlier =>
        obtain ⟨rfl, rfl⟩ := List.cons.inj hops
        exact .inr ⟨earlier, session, later, rfl, hanswer⟩

theorem created_append (c : Coordinator) (start : String) (ops ops' : List CoordinatorOp) :
    c.created start (ops ++ ops') = c.created start ops ++ (c.performAll ops).created start ops' := by
  induction ops generalizing c with
  | nil => rfl
  | cons op ops ih =>
    rw [List.cons_append, created, created, ih, List.append_assoc, performAll_cons]

/-- What is created from a start has a number of its own under the parent. -/
theorem number_of_mem_created (h : path ∈ c.created start ops) :
    ∃ n, path = start ++ Text.padded n 10 ∧ c.nextNumber (parentOf start) ≤ n ∧
      n < (c.performAll ops).nextNumber (parentOf start) := by
  obtain ⟨earlier, session, later, rfl, hanswer⟩ := mem_created_iff.mp h
  obtain ⟨s, -, hpath, hafter⟩ := perform_create_of_eq hanswer
  refine ⟨_, hpath, (later_performAll c earlier).numbers _, ?_⟩
  have hnext := nextNumber_withNode (c.performAll earlier) s.identity start (parentOf start)
  rw [if_pos rfl] at hnext
  have hgrows := (later_performAll ((c.performAll earlier).withNode s.identity start) later).numbers
    (parentOf start)
  rw [performAll_append, performAll_cons, hafter]
  omega

theorem append_lt_append {a b : String} (start : String) (h : a < b) : start ++ a < start ++ b := by
  rw [String.lt_iff] at h ⊢
  rw [String.toList_append, String.toList_append]
  exact List.append_left_lt h

/-- Paths of numbers with ten digits ascend with the numbers. -/
theorem pairwise_created (h : (c.performAll ops).nextNumber (parentOf start) ≤ 10 ^ 10) :
    (c.created start ops).Pairwise (· < ·) := by
  induction ops generalizing c with
  | nil => exact List.Pairwise.nil
  | cons op rest ih =>
    rw [performAll_cons] at h
    have hrest := ih h
    rw [created]
    cases hfirst : c.createdPath? start op with
    | none => exact hrest
    | some path =>
      refine List.pairwise_cons.mpr ⟨fun other hother => ?_, hrest⟩
      obtain ⟨session, rfl, hanswer⟩ := createdPath?_eq_some_iff.mp hfirst
      obtain ⟨s, -, hpath, hafter⟩ := perform_create_of_eq hanswer
      obtain ⟨n, rfl, hlow, hhigh⟩ := number_of_mem_created hother
      rw [hafter, nextNumber_withNode, if_pos rfl] at hlow
      rw [hpath, nextPath]
      exact append_lt_append start (Text.padded_lt_padded (by decide) hlow (Nat.lt_of_lt_of_le hhigh h))

/-- A node that a parent lists was created under that parent. -/
theorem parentOf_of_child {name : String} {n : Nat} (hname : '/' ∉ name.toList)
    (h : start ++ Text.padded n 10 = parent ++ "/" ++ name) : parentOf start = parent := by
  have hdigits : '/' ∉ (Text.padded n 10).toList := Text.not_mem_padded rfl
  have hlist : start.toList ++ (Text.padded n 10).toList = parent.toList ++ '/' :: name.toList := by
    have hlist := congrArg String.toList h
    simpa using hlist
  rcases List.append_eq_append_iff.mp hlist with ⟨rest, -, hsplit⟩ | ⟨rest, hstart, hsplit⟩
  · -- the slash before the name would be among the digits
    exact absurd (hsplit ▸ by simp) hdigits
  · cases rest with
    | nil =>
      rw [List.nil_append] at hsplit
      exact absurd (hsplit ▸ List.mem_cons_self) hdigits
    | cons slash rest =>
      obtain ⟨rfl, hrest⟩ := List.cons.inj hsplit
      have hslash : '/' ∉ rest := fun hmem => hname (hrest ▸ List.mem_append_left _ hmem)
      have hchild : childName? parent start = some (String.ofList rest) := by
        refine childName?_eq_some_iff.mpr ⟨?_, ?_⟩
        · simpa using hslash
        · simpa using hstart
      exact parentOf_eq_of_childName? hchild

theorem mem_survivors_iff :
    path ∈ survivors ops start ↔ path ∈ empty.created start ops ∧ (reached ops).hasNode path = true :=
  List.mem_filter

/-- A node that was created from a start with a slash is the child of the start's parent. -/
theorem exists_name_of_mem_created (hstem : '/' ∉ stem.toList)
    (h : path ∈ c.created (parent ++ "/" ++ stem) ops) :
    ∃ name, '/' ∉ name.toList ∧ path = parent ++ "/" ++ name := by
  obtain ⟨n, rfl, -, -⟩ := number_of_mem_created h
  refine ⟨stem ++ Text.padded n 10, ?_, by rw [String.append_assoc]⟩
  rw [String.toList_append, List.mem_append, not_or]
  exact ⟨hstem, Text.not_mem_padded rfl⟩

/-- If no other start is used under a parent, its children were created from this one. -/
theorem mem_created_of_hasNode {name : String} (hname : '/' ∉ name.toList)
    (honly : ∀ op ∈ ops, op.isCreateUnder parent = true → op.start? = some start)
    (h : (reached ops).hasNode (parent ++ "/" ++ name) = true) :
    parent ++ "/" ++ name ∈ empty.created start ops := by
  obtain ⟨node, hnode, hpath⟩ := hasNode_iff.mp h
  obtain ⟨earlier, session, start', later, s, hops, hanswer, -, -⟩ := exists_created hnode
  obtain ⟨-, -, hnumber, -⟩ := perform_create_of_eq hanswer
  have hunder : parentOf start' = parent := parentOf_of_child hname (hnumber.symm.trans hpath)
  have hstart : (CoordinatorOp.create session start').start? = some start := by
    refine honly _ ?_ (by simp [CoordinatorOp.isCreateUnder, hunder])
    rw [hops]
    exact List.mem_append_right _ List.mem_cons_self
  obtain rfl : start' = start := Option.some.inj hstart
  rw [← hpath]
  exact mem_created_iff.mpr ⟨earlier, session, later, hops, hanswer⟩

/-- While at most `10 ^ 10` nodes were created under a parent, a connected session that lists it sees the nodes
that one start has left in the order of their creation, whichever sessions created them and whatever was deleted
or expired in between. They are all that it sees if no other start was used there, so the first is the oldest. -/
theorem survivors_in_order (ops : List CoordinatorOp) {parent stem : String} (hstem : '/' ∉ stem.toList)
    (hcount : empty.creations parent ops ≤ 10 ^ 10) {session : Nat}
    (hup : (reached ops).IsConnected session) :
    ∃ names, answerTo ops (.children session parent) = .ok (.names names) ∧
      (names.map fun name => parent ++ "/" ++ name).filter
          (fun path => path ∈ empty.created (parent ++ "/" ++ stem) ops) =
        survivors ops (parent ++ "/" ++ stem) ∧
      ((∀ op ∈ ops, op.isCreateUnder parent = true → op.start? = some (parent ++ "/" ++ stem)) →
        (names.map fun name => parent ++ "/" ++ name) = survivors ops (parent ++ "/" ++ stem)) := by
  have hs : IsSorted (reached ops).nodes := (isConsistent_reached ops).sorted
  have hlisting := IsListing.childNames hs parent
  have hpaths : (((reached ops).childNames parent).map fun name => parent ++ "/" ++ name).Pairwise
      (· < ·) := List.Pairwise.map _ (fun _ _ => append_lt_append _) hlisting.ascending
  have hcreated : (empty.created (parent ++ "/" ++ stem) ops).Pairwise (· < ·) := by
    refine pairwise_created ?_
    rw [parentOf_child hstem]
    exact (nextNumber_reached ops parent).trans_le hcount
  have hsurvivors : (survivors ops (parent ++ "/" ++ stem)).Pairwise (· < ·) := hcreated.filter _
  refine ⟨(reached ops).childNames parent, ?_, ?_, fun honly => ?_⟩
  · rw [answerTo, perform, children_of_isConnected hup]
    rfl
  · refine (hpaths.filter _).eq_of_mem_iff hsurvivors fun path => ?_
    rw [mem_survivors_iff, List.mem_filter, List.mem_map, decide_eq_true_eq]
    constructor
    · rintro ⟨⟨name, hname, rfl⟩, hmem⟩
      exact ⟨hmem, ((hlisting.mem_iff name).mp hname).2⟩
    · rintro ⟨hmem, hthere⟩
      obtain ⟨name, hslash, rfl⟩ := exists_name_of_mem_created hstem hmem
      exact ⟨⟨name, (hlisting.mem_iff name).mpr ⟨hslash, hthere⟩, rfl⟩, hmem⟩
  · refine hpaths.eq_of_mem_iff hsurvivors fun path => ?_
    rw [mem_survivors_iff, List.mem_map]
    constructor
    · rintro ⟨name, hname, rfl⟩
      obtain ⟨hslash, hthere⟩ := (hlisting.mem_iff name).mp hname
      exact ⟨mem_created_of_hasNode hslash honly hthere, hthere⟩
    · rintro ⟨hmem, hthere⟩
      obtain ⟨name, hslash, rfl⟩ := exists_name_of_mem_created hstem hmem
      exact ⟨name, (hlisting.mem_iff name).mpr ⟨hslash, hthere⟩, rfl⟩

/-- Two sessions create five nodes; one of the first session's is deleted, and then that session expires and
creates another. -/
def mixedRun : List CoordinatorOp :=
  [.openSession, .openSession, .create 0 "/svc/k/lock-", .create 1 "/svc/k/lock-", .create 0 "/svc/k/lock-",
    .create 1 "/svc/k/lock-", .delete 1 "/svc/k/lock-0000000001", .undergo 0 .expired, .create 0 "/svc/k/lock-"]

theorem survivors_in_order_mixedRun :
    '/' ∉ "lock-".toList ∧ empty.creations "/svc/k" mixedRun ≤ 10 ^ 10 ∧
      (reached mixedRun).IsConnected 1 ∧
      answerTo mixedRun (.children 1 "/svc/k") = .ok (.names ["lock-0000000003", "lock-0000000004"]) := by
  have hstem : '/' ∉ "lock-".toList := by decide
  have hcount : empty.creations "/svc/k" mixedRun ≤ 10 ^ 10 := by decide +kernel
  have hup : (reached mixedRun).IsConnected 1 := ⟨_, rfl, rfl⟩
  refine ⟨hstem, hcount, hup, ?_⟩
  obtain ⟨names, hanswer, -, honly⟩ := survivors_in_order mixedRun hstem hcount hup
  have hpaths := honly (by decide +kernel)
  have hsurvivors : survivors mixedRun ("/svc/k" ++ "/" ++ "lock-") =
      ["lock-0000000003", "lock-0000000004"].map fun name => "/svc/k" ++ "/" ++ name := by decide +kernel
  rw [hsurvivors] at hpaths
  have hnames : names = ["lock-0000000003", "lock-0000000004"] :=
    List.map_injective_iff.mpr (fun a b hab => String.append_right_inj _ |>.mp hab) hpaths
  rw [hanswer, hnames]

section Boundary

/-- A session that is connected and owns every node. -/
def OwnsAll (c : Coordinator) (session : Nat) : Prop :=
  ∃ s, c.sessions[session]? = some s ∧ s.isConnected = true ∧ ∀ node ∈ c.nodes, node.owner = s.identity

/-- A connected session creates the next node, and goes on owning every node if it did. -/
theorem OwnsAll.create (h : c.OwnsAll session) (start : String) :
    (c.perform (.create session start)).1 = .ok (.created (c.nextPath start)) ∧
      (c.perform (.create session start)).2.OwnsAll session ∧
      ∃ identity, (c.perform (.create session start)).2 = c.withNode identity start := by
  obtain ⟨s, hs, hup, hown⟩ := h
  have heffect := effect_perform c (.create session start)
  generalize (c.perform (.create session start)).1 = answer,
    (c.perform (.create session start)).2 = c' at heffect ⊢
  cases heffect with
  | refused asks cut =>
    cases asks
    exact absurd ⟨s, hs, hup⟩ cut
  | created start found up =>
    obtain rfl := Option.some.inj (hs.symm.trans found)
    refine ⟨rfl, ⟨s, hs, hup, fun node hnode => ?_⟩, s.identity, rfl⟩
    rcases mem_nodes_withNode hnode with rfl | hold
    · rfl
    · exact hown node hold

theorem OwnsAll.creates (h : c.OwnsAll session) (start : String) (count : Nat) :
    (c.performAll (List.replicate count (.create session start))).OwnsAll session ∧
      (c.performAll (List.replicate count (.create session start))).nextNumber (parentOf start) =
        c.nextNumber (parentOf start) + count := by
  induction count generalizing c with
  | zero => exact ⟨h, rfl⟩
  | succ count ih =>
    obtain ⟨-, hown, identity, hafter⟩ := h.create start
    obtain ⟨hall, hnumber⟩ := ih hown
    rw [List.replicate_succ, performAll_cons]
    refine ⟨hall, ?_⟩
    rw [hnumber, hafter, nextNumber_withNode, if_pos rfl]
    omega

/-- If a session that owns every node expires, the tree is empty. -/
theorem OwnsAll.expire (h : c.OwnsAll session) :
    (c.perform (.undergo session .expired)).2.nodes = [] ∧
      (c.perform (.undergo session .expired)).2.OwnsAll session := by
  obtain ⟨s, hs, -, hown⟩ := h
  have hnodes : (c.perform (.undergo session .expired)).2.nodes = [] := by
    refine List.eq_nil_iff_forall_not_mem.mpr fun node hnode => ?_
    obtain ⟨hold, hkept⟩ := mem_nodes_changeOf.mp hnode
    exact hkept ⟨rfl, s, hs, hown node hold⟩
  refine ⟨hnodes, c.changed .expired s, ?_, rfl, ?_⟩
  · rw [sessions_perform, List.getElem?_modify, hs]
    simp
  · rw [hnodes]
    nofun

/-- Two creates on an empty tree leave two nodes in it. -/
theorem OwnsAll.create_twice (h : c.OwnsAll session) (hnodes : c.nodes = []) {n : Nat}
    (hnumber : c.nextNumber (parentOf start) = n) :
    (∃ i j, (c.performAll [.create session start, .create session start]).nodes =
      insert ⟨start ++ Text.padded (n + 1) 10, i⟩ [⟨start ++ Text.padded n 10, j⟩]) ∧
    (c.performAll [.create session start, .create session start]).IsConnected session ∧
    c.created start [.create session start, .create session start] =
      [start ++ Text.padded n 10, start ++ Text.padded (n + 1) 10] := by
  obtain ⟨hfirst, hone, j, hafter⟩ := h.create start
  obtain ⟨hsecond, ⟨s, hs, hup, -⟩, i, hafter'⟩ := hone.create start
  have hnumber' : (c.withNode j start).nextNumber (parentOf start) = n + 1 := by
    rw [nextNumber_withNode, if_pos rfl, hnumber]
  have hpath : c.nextPath start = start ++ Text.padded n 10 := by rw [nextPath, hnumber]
  have hpath' : (c.withNode j start).nextPath start = start ++ Text.padded (n + 1) 10 := by
    rw [nextPath, hnumber']
  rw [hafter] at hsecond hs hafter'
  rw [performAll_cons, performAll_cons, hafter]
  refine ⟨⟨i, j, ?_⟩, ⟨s, hs, hup⟩, ?_⟩
  · rw [hafter', performAll, List.foldl_nil, withNode, hnumber', withNode, hnumber, hnodes]
    rfl
  · rw [created, created, hafter, createdPath?_eq_some_iff.mpr ⟨session, rfl, hfirst⟩,
      createdPath?_eq_some_iff.mpr ⟨session, rfl, hsecond⟩, hpath, hpath']
    rfl

/-- A session creates some nodes, expires and creates two more. -/
def wornRun (count : Nat) (start : String) : List CoordinatorOp :=
  .openSession :: (List.replicate count (.create 0 start) ++
    .undergo 0 .expired :: [.create 0 start, .create 0 start])

/-- After the expiry the next two nodes are the only ones. -/
theorem reached_wornRun (count : Nat) (start : String) :
    (∃ i j, (reached (wornRun count start)).nodes =
      insert ⟨start ++ Text.padded (count + 1) 10, i⟩ [⟨start ++ Text.padded count 10, j⟩]) ∧
    (reached (wornRun count start)).IsConnected 0 ∧
    ∃ gone, empty.created start (wornRun count start) =
      gone ++ [start ++ Text.padded count 10, start ++ Text.padded (count + 1) 10] ∧
      ∀ path ∈ gone, ∃ n < count, path = start ++ Text.padded n 10 := by
  have hopened : (empty.perform .openSession).2.OwnsAll 0 := ⟨_, rfl, rfl, nofun⟩
  have hzero : (empty.perform .openSession).2.nextNumber (parentOf start) = 0 := rfl
  obtain ⟨hworn, hnumber⟩ := hopened.creates start count
  rw [hzero, Nat.zero_add] at hnumber
  obtain ⟨hnodes, hcleared⟩ := hworn.expire
  have hkept : ((((empty.perform .openSession).2.performAll
      (List.replicate count (.create 0 start))).perform (.undergo 0 .expired)).2).nextNumber
        (parentOf start) = count := by
    rw [nextNumber_perform, hnumber]
    rfl
  obtain ⟨hleft, hup, hcreated⟩ := hcleared.create_twice hnodes hkept
  rw [reached, wornRun, performAll_cons, performAll_append, performAll_cons]
  refine ⟨hleft, hup, (empty.perform .openSession).2.created start (List.replicate count (.create 0 start)),
    ?_, fun path hpath => ?_⟩
  · rw [created, created_append, created, hcreated]
    rfl
  · obtain ⟨n, rfl, -, hn⟩ := number_of_mem_created hpath
    rw [hnumber] at hn
    exact ⟨n, hn, rfl⟩

/-- The two were created in the order of their numbers. -/
theorem survivors_wornRun (count : Nat) (start : String) : survivors (wornRun count start) start =
    [start ++ Text.padded count 10, start ++ Text.padded (count + 1) 10] := by
  obtain ⟨⟨i, j, hnodes⟩, -, gone, hcreated, hgone⟩ := reached_wornRun count start
  have hnone : gone.filter (reached (wornRun count start)).hasNode = [] := by
    refine List.filter_eq_nil_iff.mpr fun path hpath hnode => ?_
    obtain ⟨n, hn, rfl⟩ := hgone path hpath
    obtain ⟨node, hmem, heq⟩ := hasNode_iff.mp hnode
    rw [hnodes] at hmem
    have hnumber : n = count + 1 ∨ n = count := by
      rcases mem_of_mem_insert hmem with rfl | hmem
      · exact .inl (Text.padded_injective ((String.append_right_inj _).mp heq.symm))
      · obtain rfl := List.mem_singleton.mp hmem
        exact .inr (Text.padded_injective ((String.append_right_inj _).mp heq.symm))
    omega
  have hne : start ++ Text.padded count 10 ≠ start ++ Text.padded (count + 1) 10 := by
    intro heq
    have hsame := Text.padded_injective ((String.append_right_inj _).mp heq)
    omega
  have hlast : (reached (wornRun count start)).hasNode (start ++ Text.padded (count + 1) 10) = true := by
    rw [hasNode_iff, hnodes]
    exact ⟨_, mem_insert_self _ _, rfl⟩
  have hfirst : (reached (wornRun count start)).hasNode (start ++ Text.padded count 10) = true := by
    rw [hasNode_iff, hnodes]
    exact ⟨⟨_, j⟩, (mem_insert_iff hne).mpr List.mem_cons_self, rfl⟩
  rw [survivors, hcreated, List.filter_append, hnone, List.nil_append, List.filter_cons, if_pos hfirst,
    List.filter_cons, if_pos hlast, List.filter_nil]

/-- The order ends with ten digits: a session that created `10 ^ 10 - 1` nodes expires, two more nodes are
created, and the second of them is listed first. A start without a slash is not listed at all: its parent is the
empty text, and what is listed as a child of that begins with a slash. -/
theorem creation_order_lost :
    (answerTo (wornRun (10 ^ 10 - 1) "/svc/k/lock-") (.children 0 "/svc/k") =
        .ok (.names ["lock-10000000000", "lock-9999999999"]) ∧
      survivors (wornRun (10 ^ 10 - 1) "/svc/k/lock-") "/svc/k/lock-" =
        ["/svc/k/lock-9999999999", "/svc/k/lock-10000000000"]) ∧
    (parentOf "lock-" = "" ∧ survivors [.openSession, .create 0 "lock-"] "lock-" = ["lock-0000000000"] ∧
      answerTo [.openSession, .create 0 "lock-"] (.children 0 "") = .ok (.names [])) := by
  have hold : "/svc/k/lock-" ++ Text.padded (10 ^ 10 - 1) 10 = "/svc/k/lock-9999999999" := by decide +kernel
  have hnew : "/svc/k/lock-" ++ Text.padded (10 ^ 10 - 1 + 1) 10 = "/svc/k/lock-10000000000" := by
    decide +kernel
  have hsurvivors := survivors_wornRun (10 ^ 10 - 1) "/svc/k/lock-"
  obtain ⟨⟨i, j, hnodes⟩, hup, -⟩ := reached_wornRun (10 ^ 10 - 1) "/svc/k/lock-"
  rw [hold, hnew] at hsurvivors hnodes
  have hne : "/svc/k/lock-9999999999" ≠ "/svc/k/lock-10000000000" := by decide +kernel
  have hlt : "/svc/k/lock-10000000000" < "/svc/k/lock-9999999999" := by decide +kernel
  have hfirst : childName? "/svc/k" "/svc/k/lock-10000000000" = some "lock-10000000000" := by decide +kernel
  have hsecond : childName? "/svc/k" "/svc/k/lock-9999999999" = some "lock-9999999999" := by decide +kernel
  rw [insert, if_neg hne, if_pos hlt] at hnodes
  refine ⟨⟨?_, hsurvivors⟩, by decide +kernel, by decide +kernel, by decide +kernel⟩
  rw [answerTo, perform, children_of_isConnected hup, childNames, hnodes]
  simp only [List.filterMap_cons, hfirst, hsecond, List.filterMap_nil]
  rfl

end Boundary

end Coordinator

end DurableQueue
