/-!
# Sorted sets

A set is the strictly rising list of its members, so two sets with the same members are equal.
-/

namespace ImageBatch

variable {α : Type} [Ord α]

/-- Every earlier member is below every later one. -/
def Rising (xs : List α) : Prop := xs.Pairwise (fun a b => compare a b = .lt)

/-- A finite set, kept as the rising list of its members. -/
structure SortedSet (α : Type) [Ord α] where
  toList : List α
  rising : Rising toList

namespace SortedSet

/-- Puts a member into a rising list at its place. -/
def place (a : α) : List α → List α
  | [] => [a]
  | b :: bs =>
    match compare a b with
    | .lt => a :: b :: bs
    | .eq => b :: bs
    | .gt => b :: place a bs

section Laws

variable [Std.TransOrd α] [Std.LawfulEqOrd α]

omit [Std.TransOrd α] in
theorem mem_place {a x : α} {xs : List α} : x ∈ place a xs ↔ x = a ∨ x ∈ xs := by
  induction xs with
  | nil => simp [place]
  | cons b bs ih =>
    unfold place
    split
    · simp
    · rename_i h
      have := Std.LawfulEqOrd.eq_of_compare h
      simp [this]
    · simp only [List.mem_cons, ih]
      exact ⟨fun h => by rcases h with h | h | h <;> simp [h],
        fun h => by rcases h with h | h | h <;> simp [h]⟩

theorem rising_place {a : α} {xs : List α} (h : Rising xs) : Rising (place a xs) := by
  induction xs with
  | nil => simp [place, Rising]
  | cons b bs ih =>
    have hb : ∀ x ∈ bs, compare b x = .lt := fun x hx => List.rel_of_pairwise_cons h hx
    unfold place
    split
    · rename_i hab
      refine List.Pairwise.cons ?_ h
      intro x hx
      rcases List.mem_cons.1 hx with rfl | hx
      · exact hab
      · exact Std.TransCmp.lt_trans hab (hb x hx)
    · exact h
    · rename_i hab
      refine List.Pairwise.cons ?_ (ih (List.Pairwise.of_cons h))
      intro x hx
      rcases mem_place.1 hx with rfl | hx
      · exact Std.OrientedCmp.gt_iff_lt.1 hab
      · exact hb x hx

end Laws

instance : Inhabited (SortedSet α) := ⟨⟨[], List.Pairwise.nil⟩⟩

instance : EmptyCollection (SortedSet α) := ⟨⟨[], List.Pairwise.nil⟩⟩

instance [DecidableEq α] : DecidableEq (SortedSet α) := fun s t =>
  if h : s.toList = t.toList then isTrue (by cases s; cases t; simp_all)
  else isFalse (fun e => h (by rw [e]))

/-- Sets are told apart by their member lists. -/
theorem eq_of_toList_eq {s t : SortedSet α} (h : s.toList = t.toList) : s = t := by
  cases s; cases t; simp_all

def isEmpty (s : SortedSet α) : Bool := s.toList.isEmpty

instance : Membership α (SortedSet α) := ⟨fun s a => a ∈ s.toList⟩

theorem mem_def {a : α} {s : SortedSet α} : a ∈ s ↔ a ∈ s.toList := Iff.rfl

instance [DecidableEq α] (a : α) (s : SortedSet α) : Decidable (a ∈ s) :=
  inferInstanceAs (Decidable (a ∈ s.toList))

section Laws

variable [Std.TransOrd α] [Std.LawfulEqOrd α]

def insert (s : SortedSet α) (a : α) : SortedSet α := ⟨place a s.toList, rising_place s.rising⟩

@[simp] theorem mem_insert {s : SortedSet α} {a x : α} : x ∈ s.insert a ↔ x = a ∨ x ∈ s :=
  mem_place

/-- The set with all the members of a list added. -/
def insertAll (s : SortedSet α) (xs : List α) : SortedSet α := xs.foldl insert s

def ofList (xs : List α) : SortedSet α := insertAll ∅ xs

def union (s t : SortedSet α) : SortedSet α := s.insertAll t.toList

@[simp] theorem mem_insertAll {s : SortedSet α} {xs : List α} {x : α} :
    x ∈ s.insertAll xs ↔ x ∈ s ∨ x ∈ xs := by
  induction xs generalizing s with
  | nil => simp [insertAll]
  | cons a xs ih =>
    show x ∈ (s.insert a).insertAll xs ↔ _
    rw [ih, mem_insert]
    simp only [List.mem_cons]
    exact ⟨fun h => by rcases h with (h | h) | h <;> simp [h],
      fun h => by rcases h with h | h | h <;> simp [h]⟩

@[simp] theorem mem_union {s t : SortedSet α} {x : α} : x ∈ s.union t ↔ x ∈ s ∨ x ∈ t :=
  mem_insertAll

@[simp] theorem mem_ofList {xs : List α} {x : α} : x ∈ ofList xs ↔ x ∈ xs := by
  rw [ofList, mem_insertAll]
  exact ⟨fun h => h.elim (fun h => absurd h List.not_mem_nil) id, Or.inr⟩

end Laws

end SortedSet

/-- Names of operators, bundles and the like, in the order of their characters. -/
abbrev NameSet := SortedSet String

end ImageBatch
