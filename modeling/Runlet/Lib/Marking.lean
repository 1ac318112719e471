import Mathlib.Logic.Basic
import Mathlib.Data.List.Basic

/-!
Depth-first marking of a graph that is kept in a state. A node is settled or not,
settling one changes no edge, and the search settles a node before it looks at what
the node leads to, so a cycle ends where it comes back. A node that was settled
before is not looked into: what is reached only through it stays as it was.
-/

namespace Runlet.Marking

variable {State Node : Type*}

structure Graph (State Node : Type*) where
  settled : State → Node → Bool
  next : State → Node → List Node
  settle : State → Node → State
  /-- the number of nodes that are not settled -/
  remaining : State → Nat
  settled_settle : ∀ s n m, settled s n = false →
    (settled (settle s n) m = true ↔ settled s m = true ∨ m = n)
  next_settle : ∀ s n m, settled s n = false → next (settle s n) m = next s m
  remaining_settle : ∀ s n, settled s n = false → remaining (settle s n) < remaining s

variable (graph : Graph State Node)

/-- The calls still to be made are the nodes of the list, in order. -/
def search (s : State) (todo : List Node) : State :=
  match todo with
  | [] => s
  | n :: rest =>
      if _h : graph.settled s n = true then search s rest
      else search (graph.settle s n) (graph.next (graph.settle s n) n ++ rest)
termination_by (graph.remaining s, todo.length)
decreasing_by
  · apply Prod.Lex.right
    exact Nat.lt_succ_self _
  · apply Prod.Lex.left
    exact graph.remaining_settle s n (Bool.eq_false_iff.mpr _h)

/-- Reached from the list along nodes that are not settled. -/
inductive Reaches (s : State) (todo : List Node) : Node → Prop where
  | start (n : Node) (hmem : n ∈ todo) (hopen : graph.settled s n = false) : Reaches s todo n
  | step (n m : Node) (hn : Reaches s todo n) (hedge : m ∈ graph.next s n)
      (hopen : graph.settled s m = false) : Reaches s todo m

theorem open_of_reaches {s : State} {todo : List Node} {n : Node} (h : Reaches graph s todo n) :
    graph.settled s n = false := by
  cases h with
  | start _ _ hopen => exact hopen
  | step _ _ _ _ hopen => exact hopen

theorem search_nil (s : State) : search graph s [] = s := by
  unfold search
  rfl

theorem search_settled (s : State) (n : Node) (rest : List Node)
    (h : graph.settled s n = true) : search graph s (n :: rest) = search graph s rest := by
  rw [search]
  exact dif_pos h

theorem search_open (s : State) (n : Node) (rest : List Node)
    (h : graph.settled s n = false) :
    search graph s (n :: rest) =
      search graph (graph.settle s n) (graph.next (graph.settle s n) n ++ rest) := by
  rw [search]
  exact dif_neg (by rw [h]; exact Bool.false_ne_true)

/-- The search, one node at a time. -/
theorem search_induct (motive : State → List Node → Prop) (hnil : ∀ s, motive s [])
    (hsettled : ∀ s n rest, graph.settled s n = true → motive s rest → motive s (n :: rest))
    (hopen : ∀ s n rest, graph.settled s n = false →
      motive (graph.settle s n) (graph.next (graph.settle s n) n ++ rest) → motive s (n :: rest))
    (s : State) (todo : List Node) : motive s todo := by
  induction s, todo using search.induct graph with
  | case1 s => exact hnil s
  | case2 s n rest h ih => exact hsettled s n rest h ih
  | case3 s n rest h ih => exact hopen s n rest (Bool.eq_false_iff.mpr h) ih

theorem search_append (s : State) (todo later : List Node) :
    search graph s (todo ++ later) = search graph (search graph s todo) later := by
  induction s, todo using search_induct graph with
  | hnil s => rw [search_nil, List.nil_append]
  | hsettled s n rest h ih =>
      rw [search_settled graph s n rest h, List.cons_append,
        search_settled graph s n (rest ++ later) h, ih]
  | hopen s n rest h ih =>
      rw [search_open graph s n rest h, List.cons_append,
        search_open graph s n (rest ++ later) h, ← List.append_assoc, ih]

/-- What settling an open node preserves, the search preserves. -/
theorem search_preserves (inv : State → Prop)
    (hstep : ∀ s n, inv s → graph.settled s n = false → inv (graph.settle s n))
    (s : State) (todo : List Node) (hs : inv s) : inv (search graph s todo) := by
  induction s, todo using search_induct graph with
  | hnil s =>
      rw [search_nil]
      exact hs
  | hsettled s n rest h ih =>
      rw [search_settled graph s n rest h]
      exact ih hs
  | hopen s n rest h ih =>
      rw [search_open graph s n rest h]
      exact ih (hstep s n hs h)

theorem settle_open {s : State} {n m : Node} (hn : graph.settled s n = false)
    (hm : graph.settled s m = false) (hne : m ≠ n) :
    graph.settled (graph.settle s n) m = false := by
  apply Bool.eq_false_iff.mpr
  intro h
  rcases (graph.settled_settle s n m hn).mp h with hold | heq
  · exact absurd hold (by rw [hm]; exact Bool.false_ne_true)
  · exact hne heq

theorem open_of_settle {s : State} {n m : Node} (hn : graph.settled s n = false)
    (hm : graph.settled (graph.settle s n) m = false) : graph.settled s m = false := by
  apply Bool.eq_false_iff.mpr
  intro h
  have hsettled := (graph.settled_settle s n m hn).mpr (.inl h)
  exact absurd hsettled (by rw [hm]; exact Bool.false_ne_true)

/-- A settled node at the head leads nowhere. -/
theorem reaches_settled (s : State) (n m : Node) (rest : List Node)
    (h : graph.settled s n = true) : Reaches graph s (n :: rest) m ↔ Reaches graph s rest m := by
  constructor
  · intro hm
    induction hm with
    | start m hmem hopen =>
        rcases List.mem_cons.mp hmem with rfl | hrest
        · exact absurd h (by rw [hopen]; exact Bool.false_ne_true)
        · exact .start m hrest hopen
    | step a b _ hedge hopen ih => exact .step a b ih hedge hopen
  · intro hm
    induction hm with
    | start m hmem hopen => exact .start m (List.mem_cons_of_mem n hmem) hopen
    | step a b _ hedge hopen ih => exact .step a b ih hedge hopen

/-- An open node at the head is reached, and what it leads to joins the list. -/
theorem reaches_open (s : State) (n m : Node) (rest : List Node)
    (h : graph.settled s n = false) :
    Reaches graph s (n :: rest) m ↔ m = n ∨
      Reaches graph (graph.settle s n) (graph.next (graph.settle s n) n ++ rest) m := by
  rw [graph.next_settle s n n h]
  constructor
  · intro hm
    induction hm with
    | start m hmem hopen =>
        by_cases hne : m = n
        · exact .inl hne
        · have hrest := (List.mem_cons.mp hmem).resolve_left hne
          right
          exact .start m (List.mem_append_right _ hrest) (settle_open graph h hopen hne)
    | step a b _ hedge hopen ih =>
        by_cases hne : b = n
        · exact .inl hne
        · right
          have hopen' := settle_open graph h hopen hne
          rcases ih with rfl | ha
          · exact .start b (List.mem_append_left _ hedge) hopen'
          · exact .step a b ha (by rw [graph.next_settle s n a h]; exact hedge) hopen'
  · rintro (rfl | hm)
    · exact .start m List.mem_cons_self h
    · induction hm with
      | start m hmem hopen =>
          have hopen' := open_of_settle graph h hopen
          rcases List.mem_append.mp hmem with hedge | hrest
          · exact .step n m (.start n List.mem_cons_self h) hedge hopen'
          · exact .start m (List.mem_cons_of_mem n hrest) hopen'
      | step a b _ hedge hopen ih =>
          rw [graph.next_settle s n a h] at hedge
          exact .step a b ih hedge (open_of_settle graph h hopen)

/-- The search settles what it reaches through open nodes, and nothing else. -/
theorem search_settled_iff (s : State) (todo : List Node) (m : Node) :
    graph.settled (search graph s todo) m = true ↔
      graph.settled s m = true ∨ Reaches graph s todo m := by
  induction s, todo using search_induct graph with
  | hnil s =>
      rw [search_nil]
      refine ⟨Or.inl, ?_⟩
      rintro (h | h)
      · exact h
      · exfalso
        induction h with
        | start n hmem _ => cases hmem
        | step _ _ _ _ _ ih => exact ih
  | hsettled s n rest h ih =>
      rw [search_settled graph s n rest h, reaches_settled graph s n m rest h]
      exact ih
  | hopen s n rest h ih =>
      rw [search_open graph s n rest h, reaches_open graph s n m rest h, ih,
        graph.settled_settle s n m h, or_assoc]

end Runlet.Marking
