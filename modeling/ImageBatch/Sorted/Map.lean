import ImageBatch.Sorted.Set

/-!
# Sorted maps

A map is the list of its entries in strictly rising order of their keys, so two maps that answer
every look-up alike are equal.
-/

namespace ImageBatch

variable {κ α : Type} [Ord κ]

/-- A finite map, kept as its entries in the order of their keys. -/
structure SortedMap (κ : Type) [Ord κ] (α : Type) where
  toList : List (κ × α)
  rising : toList.Pairwise (fun a b => compare a.1 b.1 = .lt)

namespace SortedMap

/-- The value beside a key in a list of entries. -/
def find (k : κ) : List (κ × α) → Option α
  | [] => none
  | (k', a) :: es => if compare k k' = .eq then some a else find k es

/-- Puts an entry into a list of entries in order; the value is made from the old one. -/
def place (k : κ) (f : Option α → α) : List (κ × α) → List (κ × α)
  | [] => [(k, f none)]
  | (k', a) :: es =>
    match compare k k' with
    | .lt => (k, f none) :: (k', a) :: es
    | .eq => (k', f (some a)) :: es
    | .gt => (k', a) :: place k f es

instance : Inhabited (SortedMap κ α) := ⟨⟨[], List.Pairwise.nil⟩⟩

instance : EmptyCollection (SortedMap κ α) := ⟨⟨[], List.Pairwise.nil⟩⟩

instance [DecidableEq κ] [DecidableEq α] : DecidableEq (SortedMap κ α) := fun s t =>
  if h : s.toList = t.toList then isTrue (by cases s; cases t; simp_all)
  else isFalse (fun e => h (by rw [e]))

/-- Maps are told apart by their entries. -/
theorem eq_of_toList_eq {s t : SortedMap κ α} (h : s.toList = t.toList) : s = t := by
  cases s; cases t; simp_all

def get? (m : SortedMap κ α) (k : κ) : Option α := find k m.toList

def isEmpty (m : SortedMap κ α) : Bool := m.toList.isEmpty

def size (m : SortedMap κ α) : Nat := m.toList.length

@[simp] theorem get?_empty (k : κ) : (∅ : SortedMap κ α).get? k = none := rfl

/-- Changes every value and keeps the keys. -/
def map {β : Type} (f : α → β) (m : SortedMap κ α) : SortedMap κ β :=
  ⟨m.toList.map (fun e => (e.1, f e.2)), by
    rw [List.pairwise_map]
    exact m.rising⟩

theorem get?_map {β : Type} (f : α → β) (m : SortedMap κ α) (k : κ) :
    (m.map f).get? k = (m.get? k).map f := by
  show find k (m.toList.map fun e => (e.1, f e.2)) = (find k m.toList).map f
  induction m.toList with
  | nil => rfl
  | cons e es ih =>
    simp only [List.map_cons, find]
    split
    · rfl
    · exact ih

/-- Changes the value of a key that is there. -/
def modify (m : SortedMap κ α) (k : κ) (f : α → α) : SortedMap κ α :=
  ⟨m.toList.map (fun e => if compare k e.1 = .eq then (e.1, f e.2) else e), by
    rw [List.pairwise_map]
    refine m.rising.imp ?_
    intro a b h
    split <;> split <;> exact h⟩

theorem get?_modify [Std.LawfulEqOrd κ] (m : SortedMap κ α) (k k' : κ) (f : α → α) :
    (m.modify k f).get? k' = if compare k k' = .eq then (m.get? k').map f else m.get? k' := by
  show find k' (m.toList.map fun e => if compare k e.1 = .eq then (e.1, f e.2) else e) =
    if compare k k' = .eq then (find k' m.toList).map f else find k' m.toList
  induction m.toList with
  | nil => simp [find]
  | cons e es ih =>
    by_cases he : compare k' e.1 = .eq
    · have hk : k' = e.1 := Std.LawfulEqOrd.eq_of_compare he
      by_cases hc : compare k e.1 = .eq <;> simp [find, hk, hc]
    · by_cases hc : compare k e.1 = .eq <;> simp [find, he, hc, ih]

section Laws

variable [Std.TransOrd κ] [Std.LawfulEqOrd κ]

omit [Std.TransOrd κ] [Std.LawfulEqOrd κ] in
theorem mem_place {k : κ} {f : Option α → α} {e : κ × α} {es : List (κ × α)}
    (h : e ∈ place k f es) : e.1 = k ∨ ∃ e' ∈ es, e'.1 = e.1 := by
  induction es with
  | nil => simp [place] at h; simp [h]
  | cons x es ih =>
    obtain ⟨k', a⟩ := x
    unfold place at h
    split at h
    · rcases List.mem_cons.1 h with rfl | h
      · exact .inl rfl
      · exact .inr ⟨e, h, rfl⟩
    · rcases List.mem_cons.1 h with rfl | h
      · exact .inr ⟨(k', a), by simp, rfl⟩
      · exact .inr ⟨e, by simp [h], rfl⟩
    · rcases List.mem_cons.1 h with rfl | h
      · exact .inr ⟨(k', a), by simp, rfl⟩
      · rcases ih h with h | ⟨e', h, h'⟩
        · exact .inl h
        · exact .inr ⟨e', by simp [h], h'⟩

omit [Std.LawfulEqOrd κ] in
theorem rising_place {k : κ} {f : Option α → α} {es : List (κ × α)}
    (h : es.Pairwise (fun a b => compare a.1 b.1 = .lt)) :
    (place k f es).Pairwise (fun a b => compare a.1 b.1 = .lt) := by
  induction es with
  | nil => simp [place]
  | cons x es ih =>
    obtain ⟨k', a⟩ := x
    have hx : ∀ e ∈ es, compare k' e.1 = .lt := fun e he => List.rel_of_pairwise_cons h he
    unfold place
    split
    · rename_i hk
      refine List.Pairwise.cons ?_ h
      intro e he
      rcases List.mem_cons.1 he with rfl | he
      · exact hk
      · exact Std.TransCmp.lt_trans hk (hx e he)
    · exact List.Pairwise.cons hx (List.Pairwise.of_cons h)
    · rename_i hk
      refine List.Pairwise.cons ?_ (ih (List.Pairwise.of_cons h))
      intro e he
      rcases mem_place he with he | ⟨e', he', hee⟩
      · rw [he]; exact Std.OrientedCmp.gt_iff_lt.1 hk
      · rw [← hee]; exact hx e' he'

/-- Sets the value of a key, made from the old value if there is one. -/
def alter (m : SortedMap κ α) (k : κ) (f : Option α → α) : SortedMap κ α :=
  ⟨place k f m.toList, rising_place m.rising⟩

def insert (m : SortedMap κ α) (k : κ) (a : α) : SortedMap κ α := m.alter k (fun _ => a)

/-- The map of a list of entries; of two with one key the later stays. -/
def ofList (es : List (κ × α)) : SortedMap κ α := es.foldl (fun m e => m.insert e.1 e.2) ∅

theorem find_place (k : κ) (f : Option α → α) (es : List (κ × α))
    (h : es.Pairwise (fun a b => compare a.1 b.1 = .lt)) (k' : κ) :
    find k' (place k f es) = if compare k' k = .eq then some (f (find k es)) else find k' es := by
  induction es with
  | nil => simp [place, find]
  | cons x es ih =>
    obtain ⟨kx, a⟩ := x
    have hx : ∀ e ∈ es, compare kx e.1 = .lt := fun e he => List.rel_of_pairwise_cons h he
    unfold place
    split
    · rename_i hk
      have hfresh : find k ((kx, a) :: es) = none := by
        have : ∀ l : List (κ × α), (∀ e ∈ l, compare k e.1 = .lt) → find k l = none := by
          intro l
          induction l with
          | nil => intro _; rfl
          | cons y l ih =>
            intro hl
            have hy := hl y (by simp)
            simp only [find]
            rw [if_neg (by rw [hy]; decide)]
            exact ih (fun e he => hl e (by simp [he]))
        refine this _ ?_
        intro e he
        rcases List.mem_cons.1 he with rfl | he
        · exact hk
        · exact Std.TransCmp.lt_trans hk (hx e he)
      rw [hfresh]
      rfl
    · rename_i hk
      have := Std.LawfulEqOrd.eq_of_compare hk
      subst this
      simp [find]
      split <;> rfl
    · rename_i hk
      simp only [find]
      rw [if_neg (show ¬ compare k kx = .eq by rw [hk]; decide), ih (List.Pairwise.of_cons h)]
      by_cases hk' : compare k' k = .eq
      · have := Std.LawfulEqOrd.eq_of_compare hk'
        subst this
        simp [hk]
      · simp [hk']

@[simp] theorem get?_alter (m : SortedMap κ α) (k k' : κ) (f : Option α → α) :
    (m.alter k f).get? k' = if compare k' k = .eq then some (f (m.get? k)) else m.get? k' :=
  find_place k f m.toList m.rising k'

@[simp] theorem get?_insert (m : SortedMap κ α) (k k' : κ) (a : α) :
    (m.insert k a).get? k' = if compare k' k = .eq then some a else m.get? k' :=
  get?_alter m k k' _

end Laws

end SortedMap

end ImageBatch
