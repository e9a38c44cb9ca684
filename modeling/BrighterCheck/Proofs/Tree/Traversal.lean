import BrighterCheck.Proofs.Tree.Arena
import BrighterCheck.Proofs.Tree.Walk
import Mathlib.Data.List.Perm.Basic

/-!
# Walks through the tree of a file

A walk works off a stack, and shows its visitor the events of the recursive traversal. In the tree
of a file every node below the start is entered once and left once; between the two lies the walk
through what is below the node, so that the nodes that are open at an event are the ancestors of its
node (`Opens`). A loop that knows nothing but the rows of the arena comes to an end with the same
events (`Arena.Walks`), since child links lead down the tree whatever the numbers are.
-/

namespace BrighterCheck

variable {ι σ : Type}

/-- The node that an event leaves, if it leaves one. -/
def Event.left? (e : Event ι) : Option (Located ι) :=
  match e.visit with
  | .enter => none
  | .exit => some e.place

namespace Tree

variable {above : List (Tree ι)}

lemma traversalAll_eq (ts : List (Tree ι)) :
    traversalAll above ts = ts.flatMap (traversal above) := by
  induction ts with
  | nil => rfl
  | cons t ts ih => rw [traversalAll, ih, List.flatMap_cons]

/-- A node is entered before, and left after everything below it. -/
lemma traversal_eq (t : Tree ι) :
    t.traversal above = ⟨.enter, ⟨t, above⟩⟩ ::
      (t.children.flatMap (traversal (t :: above)) ++ [⟨.exit, ⟨t, above⟩⟩]) := by
  obtain ⟨id, kind, range, children⟩ := t
  rw [traversal, traversalAll_eq]

/-- The nodes that are left are those that are listed in pre-order, in some other order. -/
lemma perm_left_traversal (t : Tree ι) :
    ((t.traversal above).filterMap Event.left?).Perm (locatedBelow above t) := by
  induction t using Tree.induction generalizing above with
  | node t ih =>
    have hchildren :
        (t.children.flatMap fun u => (traversal (t :: above) u).filterMap Event.left?).Perm
          (t.children.flatMap (locatedBelow (t :: above))) := by
      apply List.Perm.flatMap_left
      intro u hu
      exact ih u hu
    rw [traversal_eq, locatedBelow_eq, List.filterMap_cons_none rfl, List.filterMap_append,
      List.filterMap_flatMap]
    apply List.Perm.trans (List.perm_append_singleton _ _)
    exact hchildren.cons _

end Tree

/-- Walking through a node is entering it, walking through its children, and leaving it. -/
theorem Located.walk_eq (visitor : σ → Event ι → σ) (l : Located ι) (s : σ) :
    l.walk visitor s =
      visitor (l.children.foldl (fun s c => c.walk visitor s) (visitor s ⟨.enter, l⟩))
        ⟨.exit, l⟩ := by
  rw [walk_eq_foldl, Tree.traversal_eq, List.foldl_cons, List.foldl_append, List.foldl_flatMap,
    Located.children, List.foldl_map]
  simp only [walk_eq_foldl]
  rfl

/-! ### Open nodes -/

/--
The numbers of the nodes that are open after an event, the last one entered first. Only the last one
entered can be left.
-/
def Event.track (opened : List Nat) (e : Event Nat) : Option (List Nat) :=
  match e.visit, opened with
  | .enter, opened => some (e.node.id :: opened)
  | .exit, n :: opened => if n = e.node.id then some opened else none
  | .exit, [] => none

/-- The numbers of the ancestors of the node of an event, and of the node itself if it is left. -/
def Event.around (e : Event Nat) : List Nat :=
  match e.visit with
  | .enter => e.place.ancestors.map Tree.id
  | .exit => e.place.selfAndAncestors.map Tree.id

/-- Events that lead from some open nodes to others. At each of them the ancestors are open. -/
inductive Opens : List Nat → List (Event Nat) → List Nat → Prop where
  | nil {opened : List Nat} : Opens opened [] opened
  | enter {l : Located Nat} {opened : List Nat} {events : List (Event Nat)} :
      Opens (l.selfAndAncestors.map Tree.id) events opened →
      Opens (l.ancestors.map Tree.id) (⟨.enter, l⟩ :: events) opened
  | exit {l : Located Nat} {opened : List Nat} {events : List (Event Nat)} :
      Opens (l.ancestors.map Tree.id) events opened →
      Opens (l.selfAndAncestors.map Tree.id) (⟨.exit, l⟩ :: events) opened

namespace Opens

variable {opened opened' opened'' : List Nat} {events events' : List (Event Nat)}

lemma append (h : Opens opened events opened') (h' : Opens opened' events' opened'') :
    Opens opened (events ++ events') opened'' := by
  induction h with
  | nil => exact h'
  | enter _ ih => exact .enter (ih h')
  | exit _ ih => exact .exit (ih h')

/-- Events that leave the open nodes as they are do so one list after the other. -/
lemma flatMap {α : Type} {xs : List α} {events : α → List (Event Nat)}
    (h : ∀ x ∈ xs, Opens opened (events x) opened) : Opens opened (xs.flatMap events) opened := by
  induction xs with
  | nil => exact .nil
  | cons x xs ih =>
    rw [List.flatMap_cons]
    apply append (h x (.head _))
    apply ih
    intro y hy
    exact h y (.tail _ hy)

/-- The traversal of a tree closes all that it opens. -/
lemma traversal (t : NumberedTree) (above : List NumberedTree) :
    Opens (above.map Tree.id) (t.traversal above) (above.map Tree.id) := by
  induction t using Tree.induction generalizing above with
  | node t ih =>
    rw [Tree.traversal_eq]
    apply Opens.enter (l := ⟨t, above⟩)
    refine append ?_ (.exit (l := ⟨t, above⟩) .nil)
    apply flatMap
    intro u hu
    exact ih u hu (t :: above)

/-- A node can be left if it was entered last. -/
lemma track_exit (l : Located Nat) : Event.track (l.selfAndAncestors.map Tree.id) ⟨.exit, l⟩ =
    some (l.ancestors.map Tree.id) :=
  if_pos rfl

/-- The nodes that are left are the last ones entered. -/
lemma foldlM_track (h : Opens opened events opened') :
    events.foldlM Event.track opened = some opened' := by
  induction h with
  | nil => rfl
  | enter _ ih => exact ih
  | exit _ ih =>
    rw [List.foldlM_cons, track_exit]
    exact ih

/-- The events before one open the nodes around it. -/
lemma foldlM_track_before {before after : List (Event Nat)} {e : Event Nat}
    (h : Opens opened (before ++ e :: after) opened') :
    before.foldlM Event.track opened = some e.around := by
  induction before generalizing opened with
  | nil =>
    cases h with
    | enter => rfl
    | exit => rfl
  | cons b before ih =>
    cases h with
    | enter h => exact ih h
    | exit h =>
      rw [List.foldlM_cons, track_exit]
      exact ih h

end Opens

/-! ### The loop over the rows of an arena -/

/-- An event by number: a node that is entered or left, and its parent. -/
structure NumberedEvent where
  visit : Visit
  node : Nat
  parent : Option Nat
deriving DecidableEq

/-- The numbers of an event. -/
def Event.numbered (e : Event Nat) : NumberedEvent :=
  ⟨e.visit, e.node.id, e.parent.map Tree.id⟩

/--
The loop of a walk over the rows of an arena, which ends where nothing is pending. A node that is
entered puts its children, and behind them its own end, on top of the stack.
-/
inductive Arena.Walks (a : Arena) : List (Visit × Nat) → List NumberedEvent → Prop where
  | done : a.Walks [] []
  | enter {n : Nat} {r : Record} {stack : List (Visit × Nat)} {steps : List NumberedEvent} :
      a[n]? = some r → a.Walks (r.children.map (.enter, ·) ++ (.exit, n) :: stack) steps →
      a.Walks ((.enter, n) :: stack) (⟨.enter, n, r.parent⟩ :: steps)
  | exit {n : Nat} {r : Record} {stack : List (Visit × Nat)} {steps : List NumberedEvent} :
      a[n]? = some r → a.Walks stack steps →
      a.Walks ((.exit, n) :: stack) (⟨.exit, n, r.parent⟩ :: steps)

/-- The loop meets the same events whenever it is run. -/
lemma Arena.Walks.unique {a : Arena} {stack : List (Visit × Nat)}
    {steps steps' : List NumberedEvent} (h : a.Walks stack steps) (h' : a.Walks stack steps') :
    steps = steps' := by
  induction h generalizing steps' with
  | done =>
    cases h'
    rfl
  | enter hr _ ih =>
    cases h' with
    | enter hr' h' =>
      cases hr.symm.trans hr'
      rw [ih h']
  | exit hr _ ih =>
    cases h' with
    | exit hr' h' =>
      cases hr.symm.trans hr'
      rw [ih h']

/-- Every event of the loop tells the parent that the row of its node names. -/
lemma Arena.Walks.parent_eq {a : Arena} {stack : List (Visit × Nat)} {steps : List NumberedEvent}
    (h : a.Walks stack steps) : ∀ step ∈ steps, step.parent = a.parent? step.node := by
  have hparent {n : Nat} {r : Record} (hr : a[n]? = some r) : r.parent = a.parent? n := by
    rw [Arena.parent?, hr]
    rfl
  induction h with
  | done => exact List.forall_mem_nil _
  | enter hr _ ih => exact List.forall_mem_cons.2 ⟨hparent hr, ih⟩
  | exit hr _ ih => exact List.forall_mem_cons.2 ⟨hparent hr, ih⟩

namespace Tree

/-- Of the ancestors of a tree, the numbers of its events show the parent only. -/
lemma numbered_traversal_congr (t : NumberedTree) {above above' : List NumberedTree}
    (h : above.head? = above'.head?) :
    (t.traversal above).map Event.numbered = (t.traversal above').map Event.numbered := by
  induction t using Tree.induction generalizing above above' with
  | node t ih =>
    have hevent (visit : Visit) :
        Event.numbered ⟨visit, ⟨t, above⟩⟩ = Event.numbered ⟨visit, ⟨t, above'⟩⟩ := by
      show NumberedEvent.mk visit t.id (above.head?.map Tree.id) = _
      rw [h]
      rfl
    have hchildren : (t.children.flatMap (traversal (t :: above))).map Event.numbered =
        (t.children.flatMap (traversal (t :: above'))).map Event.numbered := by
      rw [List.map_flatMap, List.map_flatMap]
      apply List.flatMap_congr
      intro u hu
      exact ih u hu rfl
    rw [traversal_eq, traversal_eq, List.map_cons, List.map_cons, List.map_append, List.map_append,
      hchildren, hevent .enter, List.map_singleton, List.map_singleton, hevent .exit]

/-- The events of a walk are listed in the order in which they are met. -/
lemma walk_eq_traversal (parent : Option (Tree ι)) (t : Tree ι) :
    t.walk parent = t.traversal parent.toList := by
  rw [walk, Located.walk_eq_foldl, List.foldl_flip_cons_eq_append', List.append_nil,
    List.reverse_reverse]

end Tree

namespace ParsedFile

variable {source : String} {f : ParsedFile} {l : Located Nat}

lemma getElem?_arena_id (h : ofSource source = .ok f) (hl : l ∈ f.tree.located) :
    f.arena[l.node.id]? = some l.record :=
  (getElem?_arena h).2 ⟨l, hl, rfl, rfl⟩

/-- What is pending at a node is worked off before the rest of the stack. -/
lemma walks_traversal (h : ofSource source = .ok f) {t : NumberedTree} {above : List NumberedTree}
    (hl : ⟨t, above⟩ ∈ f.tree.located) {stack : List (Visit × Nat)} {steps : List NumberedEvent}
    (hrest : f.arena.Walks stack steps) :
    f.arena.Walks ((.enter, t.id) :: stack)
      ((t.traversal above).map Event.numbered ++ steps) := by
  induction t using Tree.induction generalizing above stack steps with
  | node t ih =>
    have hrow := getElem?_arena_id h hl
    have hchildren : ∀ us : List NumberedTree, us ⊆ t.children →
        f.arena.Walks (us.map (fun u => (.enter, u.id)) ++ (.exit, t.id) :: stack)
          ((us.flatMap (Tree.traversal (t :: above))).map Event.numbered ++
            Event.numbered ⟨.exit, ⟨t, above⟩⟩ :: steps) := by
      intro us hus
      induction us with
      | nil => exact .exit hrow hrest
      | cons u us ihus =>
        obtain ⟨hu, hus⟩ := List.cons_subset.1 hus
        have hwalk := ih u hu (Tree.child_mem_located hl hu) (ihus hus)
        rwa [← List.append_assoc, ← List.map_append, ← List.flatMap_cons] at hwalk
    have hall := hchildren t.children (List.Subset.refl _)
    rw [Tree.traversal_eq, List.map_cons, List.map_append, List.cons_append, List.append_assoc]
    apply Arena.Walks.enter hrow
    rw [Located.record, List.map_map]
    exact hall

/-- What is below a located node is located, and child links lead there. -/
lemma reaches_of_mem (h : ofSource source = .ok f) (hl : l ∈ f.tree.located) {k : Located Nat}
    (hk : k ∈ Tree.locatedBelow l.ancestors l.node) :
    k ∈ f.tree.located ∧ Relation.ReflTransGen f.arena.Links l.node.id k.node.id := by
  obtain ⟨t, above⟩ := l
  induction t using Tree.induction generalizing above with
  | node t ih =>
    cases Tree.mem_locatedBelow.1 hk with
    | inl hk =>
      rw [hk]
      exact ⟨hl, .refl⟩
    | inr hk =>
      obtain ⟨u, hu, hk⟩ := hk
      obtain ⟨hmem, hreach⟩ := ih u hu (t :: above) (Tree.child_mem_located hl hu) hk
      exact ⟨hmem, .head ((links_arena h).2 ⟨_, hl, rfl, u, hu, rfl⟩) hreach⟩

/-- Child links lead from a node to what is below it, and nowhere else. -/
lemma reaches_iff (h : ofSource source = .ok f) (hl : l ∈ f.tree.located) {n : Nat} :
    Relation.ReflTransGen f.arena.Links l.node.id n ↔
      n ∈ (Tree.locatedBelow l.ancestors l.node).map (·.node.id) := by
  rw [List.mem_map]
  constructor
  · intro hreach
    induction hreach with
    | refl => exact ⟨l, Tree.self_mem_locatedBelow, rfl⟩
    | tail _ hlink ih =>
      obtain ⟨k, hk, rfl⟩ := ih
      obtain ⟨p, hp, hid, u, hu, rfl⟩ := (links_arena h).1 hlink
      cases Tree.eq_of_mem_located (nodup_ids h) hp (reaches_of_mem h hl hk).1 hid
      exact ⟨_, Tree.child_mem_locatedBelow hk hu, rfl⟩
  · rintro ⟨k, hk, rfl⟩
    exact (reaches_of_mem h hl hk).2

/-- No node is listed twice below a located node. -/
lemma nodup_locatedBelow (h : ofSource source = .ok f) (hl : l ∈ f.tree.located) :
    ((Tree.locatedBelow l.ancestors l.node).map (·.node.id)).Nodup := by
  have hbelow := (nodup_ids h).sublist ((Tree.preorder_sublist hl).map Tree.id)
  rwa [← Tree.map_node_locatedBelow l.ancestors, List.map_map] at hbelow

/-- The events of a walk that starts at the node `l` of a file. -/
structure IsWalk (f : ParsedFile) (l : Located Nat) (events : List (Event Nat)) : Prop where
  /-- These events are shown to every visitor, from whatever state it starts. -/
  walk_eq {σ : Type} (visitor : σ → Event Nat → σ) (s : σ) :
    l.walk visitor s = events.foldl visitor s
  /-- Walking is entering the node, walking through its children in order, and leaving it. -/
  walk_rec {σ : Type} (visitor : σ → Event Nat → σ) (s : σ) : l.walk visitor s =
    visitor (l.children.foldl (fun s c => c.walk visitor s) (visitor s ⟨.enter, l⟩)) ⟨.exit, l⟩
  /-- The events of the children stand in between in the same order. -/
  events_eq : events = ⟨.enter, l⟩ ::
    (l.children.flatMap (fun c => c.node.traversal c.ancestors) ++ [⟨.exit, l⟩])
  /-- No node is entered twice. -/
  nodup_entered : ((events.filterMap Event.entered?).map (·.node.id)).Nodup
  /-- The nodes that child links lead to are entered. -/
  entered (n : Nat) : n ∈ (events.filterMap Event.entered?).map (·.node.id) ↔
    Relation.ReflTransGen f.arena.Links l.node.id n
  /-- Each node that is entered is left, and no other. -/
  left : (events.filterMap Event.left?).Perm (events.filterMap Event.entered?)
  /-- The parent that is told with an event is the one that its node names. -/
  parent : ∀ e ∈ events, e.parent.map Tree.id = f.arena.parent? e.node.id
  /-- At every event, the nodes entered and not yet left are the ancestors, the nearest one last. -/
  opened {before after : List (Event Nat)} {e : Event Nat} : events = before ++ e :: after →
    before.foldlM Event.track (l.ancestors.map Tree.id) = some e.around
  /-- In the end, all nodes that were entered are left. -/
  closed : events.foldlM Event.track (l.ancestors.map Tree.id) = some (l.ancestors.map Tree.id)
  /-- The loop over the rows of the arena comes to its end, with these events only. -/
  loop (steps : List NumberedEvent) :
    f.arena.Walks [(.enter, l.node.id)] steps ↔ steps = events.map Event.numbered
  /-- The events that are listed for a node and its parent are these. -/
  listed : (l.node.walk l.ancestors.head?).map Event.numbered = events.map Event.numbered

/-- The walk from any node of a file that was read is the recursive traversal. -/
theorem isWalk_traversal (h : ofSource source = .ok f) (hl : l ∈ f.tree.located) :
    f.IsWalk l (l.node.traversal l.ancestors) where
  walk_eq visitor s := l.walk_eq_foldl visitor s
  walk_rec visitor s := l.walk_eq visitor s
  events_eq := by
    rw [Tree.traversal_eq, Located.children, List.flatMap_map]
  nodup_entered := by
    rw [Tree.filterMap_entered_traversal]
    exact nodup_locatedBelow h hl
  entered n := by
    rw [Tree.filterMap_entered_traversal, reaches_iff h hl]
  left := by
    rw [Tree.filterMap_entered_traversal]
    exact Tree.perm_left_traversal _
  parent e he := (walks_traversal h hl .done).parent_eq e.numbered
    (List.mem_append_left _ (List.mem_map_of_mem he))
  opened he := by
    have hopens := Opens.traversal l.node l.ancestors
    rw [he] at hopens
    exact hopens.foldlM_track_before
  closed := (Opens.traversal l.node l.ancestors).foldlM_track
  loop steps := by
    have hwalk := walks_traversal h hl .done
    rw [List.append_nil] at hwalk
    constructor
    · intro hsteps
      exact hsteps.unique hwalk
    · intro hsteps
      rw [hsteps]
      exact hwalk
  listed := by
    rw [Tree.walk_eq_traversal]
    apply Tree.numbered_traversal_congr
    cases l.ancestors with
    | nil => rfl
    | cons p above => rfl

/-- An assignment to a member has a smaller number than the value below it. -/
theorem isWalk_traversal_of_member :
    ∃ f, ofSource "m.n = -1" = .ok f ∧ ∃ l ∈ f.tree.located,
      f.IsWalk l (l.node.traversal l.ancestors) ∧
      (l.node.traversal l.ancestors).map Event.numbered =
        [⟨.enter, 2, some 0⟩, ⟨.enter, 1, some 2⟩, ⟨.exit, 1, some 2⟩, ⟨.enter, 4, some 2⟩,
          ⟨.enter, 3, some 4⟩, ⟨.exit, 3, some 4⟩, ⟨.exit, 4, some 2⟩, ⟨.exit, 2, some 0⟩] := by
  have hevents : (ofSource "m.n = -1").toOption.any fun f => f.tree.located[1]?.any fun l =>
      (l.node.traversal l.ancestors).map Event.numbered =
        [⟨.enter, 2, some 0⟩, ⟨.enter, 1, some 2⟩, ⟨.exit, 1, some 2⟩, ⟨.enter, 4, some 2⟩,
          ⟨.enter, 3, some 4⟩, ⟨.exit, 3, some 4⟩, ⟨.exit, 4, some 2⟩, ⟨.exit, 2, some 0⟩] := by
    decide +kernel
  obtain ⟨f, hf, hevents⟩ := exists_of_any hevents
  obtain ⟨l, hl, hevents⟩ := (Option.any_eq_true _ _).1 hevents
  have hmem := List.mem_of_getElem? hl
  exact ⟨f, hf, l, hmem, isWalk_traversal hf hmem, of_decide_eq_true hevents⟩

end ParsedFile

end BrighterCheck
