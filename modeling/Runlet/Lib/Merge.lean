import Mathlib.Algebra.Ring.Nat
import Mathlib.Data.List.AList

/-!
Named lists written into one map, a later list of the same name in place of an
earlier one and empty lists left out. All items arrive exactly when no two of
the lists that hold items share a name.
-/

namespace Runlet.Merge

variable {Key α : Type}

/-- A map from names to lists of items. -/
abbrev Table (Key α : Type) := AList fun _ : Key => List α

/-- All items of a table. -/
def items (table : Table Key α) : List α := table.entries.flatMap fun entry => entry.2

/-- All items that are to be written. -/
def given (entries : List (Key × List α)) : List α := entries.flatMap Prod.snd

/-- Every list of the table holds something. -/
def Occupied (table : Table Key α) : Prop := ∀ entry ∈ table.entries, entry.2 ≠ []

/-- The lists that hold items have names of their own. -/
def Distinct : List (Key × List α) → Prop
  | [] => True
  | (name, list) :: rest =>
      (list ≠ [] → ∀ entry ∈ rest, entry.2 ≠ [] → entry.1 ≠ name) ∧ Distinct rest

theorem distinct_of_nodup (entries : List (Key × List α)) (h : (entries.map Prod.fst).Nodup) :
    Distinct entries := by
  induction entries with
  | nil => trivial
  | cons entry rest ih =>
      obtain ⟨hname, hrest⟩ := List.nodup_cons.mp h
      refine ⟨?_, ih hrest⟩
      intro _ other hother _ heq
      exact hname (heq ▸ List.mem_map_of_mem hother)

theorem distinct_append (first second : List (Key × List α)) :
    Distinct (first ++ second) ↔ Distinct first ∧ Distinct second ∧
      ∀ left ∈ first, ∀ right ∈ second, left.2 ≠ [] → right.2 ≠ [] → right.1 ≠ left.1 := by
  induction first with
  | nil => simp [Distinct]
  | cons entry rest ih =>
      obtain ⟨name, list⟩ := entry
      simp only [List.cons_append, Distinct, ih, List.forall_mem_cons]
      constructor
      · rintro ⟨hname, hrest, hsecond, hcross⟩
        refine ⟨⟨?_, hrest⟩, hsecond, ?_, hcross⟩
        · intro hlist entry hentry
          exact hname hlist entry (List.mem_append_left _ hentry)
        · intro right hright hlist
          exact hname hlist right (List.mem_append_right _ hright)
      · rintro ⟨⟨hname, hrest⟩, hsecond, hright, hcross⟩
        refine ⟨?_, hrest, hsecond, hcross⟩
        intro hlist entry hentry
        rcases List.mem_append.mp hentry with hentry | hentry
        · exact hname hlist entry hentry
        · exact hright entry hentry hlist

variable [DecidableEq Key]

def put (table : Table Key α) (name : Key) (list : List α) : Table Key α :=
  if list.isEmpty then table else table.insert name list

def putAll (table : Table Key α) (entries : List (Key × List α)) : Table Key α :=
  entries.foldl (fun table entry => put table entry.1 entry.2) table

theorem put_nil (table : Table Key α) (name : Key) : put table name [] = table := rfl

theorem put_of_ne_nil (table : Table Key α) (name : Key) (list : List α) (h : list ≠ []) :
    put table name list = table.insert name list := by
  simp [put, h]

theorem mem_put (table : Table Key α) (name other : Key) (list : List α) :
    other ∈ put table name list ↔ (list ≠ [] ∧ other = name) ∨ other ∈ table := by
  by_cases hlist : list = []
  · simp [hlist, put_nil]
  · rw [put_of_ne_nil table name list hlist, AList.mem_insert]
    simp [hlist]

theorem lookup_put_ne (table : Table Key α) (name other : Key) (list : List α)
    (h : list ≠ [] → other ≠ name) : (put table name list).lookup other = table.lookup other := by
  by_cases hlist : list = []
  · rw [hlist, put_nil]
  · rw [put_of_ne_nil table name list hlist, AList.lookup_insert_ne (h hlist)]

theorem occupied_put (table : Table Key α) (name : Key) (list : List α)
    (htable : Occupied table) : Occupied (put table name list) := by
  by_cases hlist : list = []
  · rw [hlist, put_nil]
    exact htable
  · rw [put_of_ne_nil table name list hlist]
    intro entry hentry
    rw [AList.entries_insert] at hentry
    rcases List.mem_cons.mp hentry with rfl | hold
    · exact hlist
    · exact htable entry ((List.kerase_sublist name table.entries).subset hold)

theorem items_put_fresh (table : Table Key α) (name : Key) (list : List α)
    (hfresh : list ≠ [] → name ∉ table) : items (put table name list) = list ++ items table := by
  by_cases hlist : list = []
  · simp [hlist, put_nil]
  · rw [put_of_ne_nil table name list hlist, items,
      AList.entries_insert_of_notMem (hfresh hlist)]
    rfl

/-- A name that is taken loses the items it had. -/
theorem items_put_taken (table : Table Key α) (name : Key) (list : List α)
    (htable : Occupied table) (hlist : list ≠ []) (htaken : name ∈ table) :
    (items (put table name list)).length < (items table).length + list.length := by
  obtain ⟨old, before, after, -, hentries, herase⟩ :=
    List.exists_of_kerase (AList.mem_keys.mp htaken)
  have hold : old ≠ [] := htable ⟨name, old⟩ (by rw [hentries]; simp)
  have hpos : 0 < old.length := List.length_pos_iff.mpr hold
  rw [put_of_ne_nil table name list hlist]
  simp only [items, AList.entries_insert]
  rw [herase, hentries]
  simp only [List.flatMap_cons, List.flatMap_append, List.length_append]
  omega

/-- The names that hold items are distinct, and free in the table. -/
def Free (table : Table Key α) (entries : List (Key × List α)) : Prop :=
  Distinct entries ∧ ∀ entry ∈ entries, entry.2 ≠ [] → entry.1 ∉ table

theorem free_cons (table : Table Key α) (name : Key) (list : List α)
    (rest : List (Key × List α)) :
    Free table ((name, list) :: rest) ↔
      (list ≠ [] → name ∉ table) ∧ Free (put table name list) rest := by
  constructor
  · rintro ⟨⟨hother, hrest⟩, hfree⟩
    refine ⟨hfree (name, list) List.mem_cons_self, hrest, ?_⟩
    intro entry hentry hne hmem
    rcases (mem_put table name entry.1 list).mp hmem with ⟨hlist, heq⟩ | hmem
    · exact hother hlist entry hentry hne heq
    · exact hfree entry (List.mem_cons_of_mem _ hentry) hne hmem
  · rintro ⟨hname, hrest, hfree⟩
    refine ⟨⟨?_, hrest⟩, ?_⟩
    · intro hlist entry hentry hne heq
      exact hfree entry hentry hne ((mem_put table name entry.1 list).mpr (.inl ⟨hlist, heq⟩))
    · intro entry hentry hne
      rcases List.mem_cons.mp hentry with rfl | hentry
      · exact hname hne
      · intro hmem
        exact hfree entry hentry hne ((mem_put table name entry.1 list).mpr (.inr hmem))

/-- What arrives is at most what was there and what was given, and it is all of
it only when no name is taken twice. -/
theorem putAll_length (table : Table Key α) (entries : List (Key × List α))
    (htable : Occupied table) :
    (items (putAll table entries)).length ≤ (items table).length + (given entries).length ∧
    ((items (putAll table entries)).length = (items table).length + (given entries).length →
      Free table entries) := by
  induction entries generalizing table with
  | nil => simp [putAll, given, Free, Distinct]
  | cons entry rest ih =>
      obtain ⟨name, list⟩ := entry
      obtain ⟨hle, himp⟩ := ih (put table name list) (occupied_put table name list htable)
      have hput : putAll table ((name, list) :: rest) = putAll (put table name list) rest := rfl
      have hgiven : (given ((name, list) :: rest)).length =
          list.length + (given rest).length := by
        simp [given]
      rw [hput, hgiven, free_cons]
      by_cases hfresh : list ≠ [] → name ∉ table
      · have hitems := congrArg List.length (items_put_fresh table name list hfresh)
        rw [List.length_append] at hitems
        refine ⟨by omega, fun heq => ⟨hfresh, himp (by omega)⟩⟩
      · have hboth : list ≠ [] ∧ name ∈ table := by
          by_contra hnot
          exact hfresh fun hlist hmem => hnot ⟨hlist, hmem⟩
        have hless := items_put_taken table name list htable hboth.1 hboth.2
        refine ⟨by omega, fun heq => ?_⟩
        omega

theorem putAll_perm (table : Table Key α) (entries : List (Key × List α))
    (hfree : Free table entries) :
    (items (putAll table entries)).Perm (items table ++ given entries) := by
  induction entries generalizing table with
  | nil => simp [putAll, given]
  | cons entry rest ih =>
      obtain ⟨name, list⟩ := entry
      obtain ⟨hname, hrest⟩ := (free_cons table name list rest).mp hfree
      have hperm := ih (put table name list) hrest
      rw [items_put_fresh table name list hname] at hperm
      have hgiven : given ((name, list) :: rest) = list ++ given rest := rfl
      have hswap : ((list ++ items table) ++ given rest).Perm
          ((items table ++ list) ++ given rest) :=
        List.Perm.append_right _ List.perm_append_comm
      rw [hgiven, ← List.append_assoc]
      exact hperm.trans hswap

theorem putAll_lookup_ne (table : Table Key α) (entries : List (Key × List α)) (name : Key)
    (h : ∀ entry ∈ entries, entry.2 ≠ [] → name ≠ entry.1) :
    (putAll table entries).lookup name = table.lookup name := by
  induction entries generalizing table with
  | nil => rfl
  | cons entry rest ih =>
      have hrest := ih (put table entry.1 entry.2)
        (fun other hmem => h other (List.mem_cons_of_mem _ hmem))
      exact hrest.trans (lookup_put_ne table entry.1 name entry.2 (h entry List.mem_cons_self))

/-- Under distinct names every list is found under its own name. -/
theorem putAll_lookup (table : Table Key α) (entries : List (Key × List α))
    (hdistinct : Distinct entries) (name : Key) (list : List α) (hlist : list ≠ [])
    (hmem : (name, list) ∈ entries) : (putAll table entries).lookup name = some list := by
  induction entries generalizing table with
  | nil => cases hmem
  | cons entry rest ih =>
      obtain ⟨first, content⟩ := entry
      obtain ⟨hother, hrest⟩ := hdistinct
      rcases List.mem_cons.mp hmem with heq | hmem
      · cases heq
        change (putAll (put table name list) rest).lookup name = some list
        rw [putAll_lookup_ne _ rest name, put_of_ne_nil table name list hlist,
          AList.lookup_insert]
        intro entry hentry hne heq
        exact hother hlist entry hentry hne heq.symm
      · exact ih (put table first content) hrest hmem

end Runlet.Merge
