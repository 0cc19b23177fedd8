import ImageBatch.Proofs.TaskSet
import ImageBatch.Proofs.TaskSet.Expectations
import Mathlib.Data.Finset.Card
import Mathlib.Data.Finset.Image

/-!
# Tasks picked by name

A set is narrowed to the tasks that a list of names asks for. Narrowing is a projection: it looks at
the names as a set, it keeps order, repetitions and dependents, and narrowing twice keeps what both
lists ask for. From these laws it follows that the set for another attempt is safe with a comparison
of two numbers: as many tasks as are left to do, all of them left to do, are all that are left.
-/

namespace ImageBatch.TaskSet

variable {full s r : TaskSet} {a b names : List String}

/-! ## What narrowing gives -/

/-- The part of a set that a list of names asks for: the tasks with a listed origin, each as often
as in the full set and in its order. Every kind that is there is expected as often as it is there,
no other kind is expected, and the dependents are those of the full set. -/
structure IsNarrowing (full : TaskSet) (names : List String) (s : TaskSet) : Prop where
  order : s.tasks.Sublist full.tasks
  often : ∀ t, s.tasks.count t = if t.origin ∈ names then full.tasks.count t else 0
  expected : ∀ k : ImageKind,
    s.expected.get? k = if k.among s.tasks = 0 then none else some (k.among s.tasks)
  bundles : s.bundleDependents = full.bundleDependents
  operators : s.operatorDependents = full.operatorDependents

theorem isNarrowing_narrow (full : TaskSet) (names : List String) :
    full.IsNarrowing names (full.narrow names) where
  order := List.filter_sublist
  often t := by
    rw [tasks_narrow]
    by_cases ht : t.origin ∈ names
    · rw [if_pos ht]
      exact List.count_filter (decide_eq_true ht)
    · rw [if_neg ht, List.count_eq_zero, List.mem_filter]
      exact fun hin => ht (of_decide_eq_true hin.2)
  expected k := by
    rw [narrow, expected_fillExpected rfl, get?_observed]
    rfl
  bundles := rfl
  operators := rfl

theorem IsNarrowing.tasks_eq (h : full.IsNarrowing names s) :
    s.tasks = full.tasks.filter fun t => decide (t.origin ∈ names) := by
  have hlisted : ∀ t ∈ s.tasks, t.origin ∈ names := by
    intro t ht
    by_contra hout
    have hcount := h.often t
    rw [if_neg hout, List.count_eq_zero] at hcount
    exact hcount ht
  have hsub : s.tasks.Sublist (full.tasks.filter fun t => decide (t.origin ∈ names)) := by
    have hself : s.tasks.filter (fun t => decide (t.origin ∈ names)) = s.tasks :=
      List.filter_eq_self.mpr fun t ht => decide_eq_true (hlisted t ht)
    rw [← hself]
    exact h.order.filter _
  have hperm : s.tasks.Perm (full.tasks.filter fun t => decide (t.origin ∈ names)) := by
    rw [← tasks_narrow, List.perm_iff_count]
    intro t
    rw [h.often, (isNarrowing_narrow full names).often]
  exact hsub.eq_of_length hperm.length_eq

theorem eq_of_expected {s r : TaskSet} (htasks : s.tasks = r.tasks)
    (hexpected : ∀ k, s.expected.get? k = r.expected.get? k)
    (hbundles : s.bundleDependents = r.bundleDependents)
    (hoperators : s.operatorDependents = r.operatorDependents) : s = r := by
  obtain ⟨tasks, expected, bundles, operators⟩ := s
  obtain ⟨tasks', expected', bundles', operators'⟩ := r
  rw [mk.injEq]
  exact ⟨htasks, SortedMap.eq_of_get?_eq hexpected, hbundles, hoperators⟩

theorem isNarrowing_iff : full.IsNarrowing names s ↔ s = full.narrow names := by
  refine ⟨fun h => ?_, fun h => h ▸ isNarrowing_narrow full names⟩
  have hnarrow := isNarrowing_narrow full names
  have htasks : s.tasks = (full.narrow names).tasks := h.tasks_eq
  apply eq_of_expected htasks
  · intro k
    rw [h.expected, hnarrow.expected, htasks]
  · rw [h.bundles, hnarrow.bundles]
  · rw [h.operators, hnarrow.operators]

/-! ## Laws of narrowing -/

theorem IsNarrowing.congr (h : full.IsNarrowing a s) (hsame : ∀ n, n ∈ a ↔ n ∈ b) :
    full.IsNarrowing b s where
  order := h.order
  often t := by
    rw [h.often]
    exact if_congr (hsame t.origin) rfl rfl
  expected := h.expected
  bundles := h.bundles
  operators := h.operators

theorem IsNarrowing.trans (hs : full.IsNarrowing a s) (hr : s.IsNarrowing b r)
    (hcommon : ∀ n, n ∈ names ↔ n ∈ a ∧ n ∈ b) : full.IsNarrowing names r where
  order := hr.order.trans hs.order
  often t := by
    rw [hr.often, hs.often]
    by_cases ha : t.origin ∈ a <;> by_cases hb : t.origin ∈ b <;> simp [hcommon, ha, hb]
  expected := hr.expected
  bundles := hr.bundles.trans hs.bundles
  operators := hr.operators.trans hs.operators

theorem narrow_congr (hsame : ∀ n, n ∈ a ↔ n ∈ b) : full.narrow a = full.narrow b :=
  isNarrowing_iff.mp ((isNarrowing_narrow full a).congr hsame)

theorem narrow_narrow (hcommon : ∀ n, n ∈ names ↔ n ∈ a ∧ n ∈ b) :
    (full.narrow a).narrow b = full.narrow names :=
  isNarrowing_iff.mp
    ((isNarrowing_narrow full a).trans (isNarrowing_narrow (full.narrow a) b) hcommon)

theorem linkedBundles_congr (h : s.bundleDependents = full.bundleDependents) (t : Task) :
    s.linkedBundles t = full.linkedBundles t := by
  rw [linkedBundles, linkedBundles, h]

theorem linkedOperators_congr (h : s.operatorDependents = full.operatorDependents) (t : Task) :
    s.linkedOperators t = full.linkedOperators t := by
  rw [linkedOperators, linkedOperators, h]

/-- Narrowing is a projection to the tasks that some names ask for. It gives the one set that is
such a part, with everyone linked to a task as before. The names count as a set, narrowing twice is
narrowing to the common names, and so narrowing again changes nothing and the order of two lists
does not matter. -/
theorem narrow_projects (full : TaskSet) (a b : List String) :
    (∀ s, full.IsNarrowing a s ↔ s = full.narrow a) ∧
      (∀ t, (full.narrow a).linkedBundles t = full.linkedBundles t ∧
        (full.narrow a).linkedOperators t = full.linkedOperators t) ∧
      ((∀ n, n ∈ a ↔ n ∈ b) → full.narrow a = full.narrow b) ∧
      (∀ common : List String, (∀ n, n ∈ common ↔ n ∈ a ∧ n ∈ b) →
        (full.narrow a).narrow b = full.narrow common) ∧
      (full.narrow a).narrow a = full.narrow a ∧
      (full.narrow a).narrow b = (full.narrow b).narrow a := by
  have hnarrow := isNarrowing_narrow full a
  refine ⟨fun s => isNarrowing_iff, fun t => ?_, narrow_congr, fun common => narrow_narrow, ?_, ?_⟩
  · exact ⟨linkedBundles_congr hnarrow.bundles t, linkedOperators_congr hnarrow.operators t⟩
  · exact narrow_narrow fun n => (and_self_iff).symm
  · have hboth : ∀ n, n ∈ a.filter (fun n => decide (n ∈ b)) ↔ n ∈ a ∧ n ∈ b := by simp
    rw [narrow_narrow hboth, narrow_narrow fun n => (hboth n).trans and_comm]

def image (name : String) : Task := ⟨name, name, name, .additional, none, ∅, ∅⟩

/-- An image that is listed twice, a bundle that needs it, and expectations that fit neither. -/
def stale : TaskSet where
  tasks := [image "a", image "b", { image "c" with kind := .operatorBundle }, image "a"]
  expected := .ofList [(.additional, 7), (.helmImage, 1)]
  bundleDependents := .ofList [("a", .ofList ["c"])]
  operatorDependents := ∅

theorem narrow_projects_of_stale :
    stale.narrow ["a", "a"] = stale.narrow ["a"] ∧
      (stale.narrow ["a", "c"]).narrow ["b", "a"] = stale.narrow ["a"] ∧
      stale.IsNarrowing ["a"] ⟨[image "a", image "a"], .ofList [(.additional, 2)],
        .ofList [("a", .ofList ["c"])], ∅⟩ := by
  refine ⟨(narrow_projects stale ["a", "a"] ["a"]).2.2.1 (by simp), ?_, ?_⟩
  · exact (narrow_projects stale ["a", "c"] ["b", "a"]).2.2.2.1 ["a"] (by grind)
  · exact ((narrow_projects stale ["a"] []).1 _).mpr (by decide +kernel)

/-! ## The set for another attempt -/

/-- Of the listed origins, those that a task has are origins of tasks that are left. -/
def NamesOnly (full : TaskSet) (left : Finset Task) (origins : List String) : Prop :=
  ∀ n ∈ origins, (∃ t ∈ full.tasks, t.origin = n) → ∃ t ∈ left, t.origin = n

instance (full : TaskSet) (left : Finset Task) (origins : List String) :
    Decidable (full.NamesOnly left origins) :=
  inferInstanceAs
    (Decidable (∀ n ∈ origins, (∃ t ∈ full.tasks, t.origin = n) → ∃ t ∈ left, t.origin = n))

section Left

variable {left : Finset Task} {origins : List String}
  (hdistinct : (full.tasks.map Task.origin).Nodup) (hleft : ∀ t ∈ left, t ∈ full.tasks)
  (hnames : full.NamesOnly left origins)

include hdistinct

theorem nodup_narrow (names : List String) : (full.narrow names).tasks.Nodup :=
  (List.filter_sublist).nodup (hdistinct.of_map _)

include hleft hnames

theorem NamesOnly.mem_left {t : Task} (ht : t ∈ (full.narrow origins).tasks) : t ∈ left := by
  rw [tasks_narrow, List.mem_filter, decide_eq_true_eq] at ht
  obtain ⟨hfull, hlisted⟩ := ht
  obtain ⟨u, hu, horigin⟩ := hnames t.origin hlisted ⟨t, hfull, rfl⟩
  have hsame : u = t := List.inj_on_of_nodup_map hdistinct (hleft u hu) hfull horigin
  exact hsame ▸ hu

/-- As many tasks as are left, all of them left, are all that are left. -/
theorem NamesOnly.origin_mem (hcount : left.card ≤ (full.narrow origins).tasks.length) :
    ∀ t ∈ left, t.origin ∈ origins := by
  have hsub : (full.narrow origins).tasks.toFinset ⊆ left := by
    intro t ht
    exact hnames.mem_left hdistinct hleft (List.mem_toFinset.mp ht)
  have hcard : left.card ≤ (full.narrow origins).tasks.toFinset.card := by
    rw [List.toFinset_card_of_nodup (nodup_narrow hdistinct origins)]
    exact hcount
  intro t ht
  rw [← Finset.eq_of_subset_of_card_le hsub hcard, List.mem_toFinset, tasks_narrow] at ht
  exact of_decide_eq_true (List.mem_filter.mp ht).2

theorem NamesOnly.tasks_narrow_eq (hall : ∀ t ∈ left, t.origin ∈ origins) :
    (full.narrow origins).tasks = full.tasks.filter fun t => decide (t ∈ left) := by
  rw [tasks_narrow]
  apply List.filter_congr
  intro t ht
  rw [decide_eq_decide]
  refine ⟨fun hlisted => hnames.mem_left hdistinct hleft ?_, hall t⟩
  exact List.mem_filter.mpr ⟨ht, decide_eq_true hlisted⟩

/-- A list that names every task that is left, and no other one, gives just these tasks. -/
theorem NamesOnly.tasks_next_eq (hsome : left.Nonempty) (hall : ∀ t ∈ left, t.origin ∈ origins) :
    (full.next origins left.card).tasks = full.tasks.filter fun t => decide (t ∈ left) := by
  have htasks := hnames.tasks_narrow_eq hdistinct hleft hall
  have hcard : (full.narrow origins).tasks.length = left.card := by
    rw [← List.toFinset_card_of_nodup (nodup_narrow hdistinct origins), htasks]
    congr 1
    ext t
    simpa using hleft t
  have hpos : 1 ≤ left.card := hsome.card_pos
  obtain ⟨u, hu⟩ := hsome
  rw [next_of_le (List.ne_nil_of_mem (hall u hu)) (by omega), htasks]

end Left

theorem next_cases (full : TaskSet) (origins : List String) (count : Nat) :
    full.next origins count = full ∨ full.next origins count = full.narrow origins ∧
      max count 1 ≤ (full.narrow origins).tasks.length := by
  by_cases hfew : origins = [] ∨ (full.narrow origins).tasks.length < max count 1
  · exact .inl (next_eq_full hfew)
  · obtain ⟨hne, hmany⟩ := not_or.mp hfew
    have hle : max count 1 ≤ (full.narrow origins).tasks.length := Nat.not_lt.mp hmany
    exact .inr ⟨next_of_le hne hle, hle⟩

/-- The set for another attempt loses no task that is left to do. Where no two tasks share an origin
and the list blames only tasks that are left, comparing numbers is enough: every task that is left
is in the next set, which is the full set or has no other tasks, and it has no others if the list
names all that are left. For any list and any number the next set is the full set or what the list
asks for, so it keeps the order, and it has a task if the full set has one. -/
theorem next_keeps_left (full : TaskSet) :
    ((full.tasks.map Task.origin).Nodup → ∀ (left : Finset Task) (origins : List String),
      (∀ t ∈ left, t ∈ full.tasks) → full.NamesOnly left origins →
        (∀ t ∈ left, t ∈ (full.next origins left.card).tasks) ∧
          (full.next origins left.card = full ∨
            (full.next origins left.card).tasks = full.tasks.filter fun t => decide (t ∈ left)) ∧
          (left.Nonempty → (∀ t ∈ left, t.origin ∈ origins) →
            (full.next origins left.card).tasks =
              full.tasks.filter fun t => decide (t ∈ left))) ∧
      ∀ (origins : List String) (count : Nat),
        (full.next origins count).tasks.Sublist full.tasks ∧
          (full.tasks ≠ [] → (full.next origins count).tasks ≠ []) ∧
          (full.next origins count = full ∨ full.next origins count = full.narrow origins) := by
  constructor
  · intro hdistinct left origins hleft hnames
    have hexact : full.next origins left.card = full ∨
        (full.next origins left.card).tasks = full.tasks.filter fun t => decide (t ∈ left) := by
      rcases next_cases full origins left.card with hfull | ⟨hnarrow, hle⟩
      · exact .inl hfull
      · have hcount := Nat.le_trans (Nat.le_max_left _ _) hle
        rw [hnarrow]
        exact .inr (hnames.tasks_narrow_eq hdistinct hleft
          (hnames.origin_mem hdistinct hleft hcount))
    refine ⟨fun t ht => ?_, hexact, hnames.tasks_next_eq hdistinct hleft⟩
    rcases hexact with hfull | htasks
    · rw [hfull]
      exact hleft t ht
    · rw [htasks]
      exact List.mem_filter.mpr ⟨hleft t ht, decide_eq_true ht⟩
  · intro origins count
    rcases next_cases full origins count with hfull | ⟨hnarrow, hle⟩
    · rw [hfull]
      exact ⟨List.Sublist.refl _, id, .inl rfl⟩
    · rw [hnarrow]
      refine ⟨(isNarrowing_narrow full origins).order, fun _ => ?_, .inr rfl⟩
      exact List.ne_nil_of_length_pos (Nat.le_trans (Nat.le_max_right _ _) hle)

def images : TaskSet := .ofTasks [image "a", image "b", image "c"]

def twoLeft : Finset Task := {image "a", image "c"}

/-- A log that repeats itself and names an image of another set. -/
def stammer : List String := ["c", "gone", "c", "a"]

theorem next_keeps_left_of_stammer :
    images.NamesOnly twoLeft stammer ∧
      (images.next stammer twoLeft.card).tasks = [image "a", image "c"] := by
  have hnames : images.NamesOnly twoLeft stammer := by decide +kernel
  obtain ⟨-, -, hexact⟩ := (next_keeps_left images).1 (by decide +kernel) twoLeft stammer
    (by decide +kernel) hnames
  refine ⟨hnames, ?_⟩
  rw [hexact (by decide +kernel) (by decide +kernel)]
  decide +kernel

/-- Two tasks of one origin count as two, though one name stands for both: the third is lost. -/
example : image "b" ∉ ((ofTasks [image "a", image "a", image "b"]).next ["a"] 2).tasks := by
  decide +kernel

end ImageBatch.TaskSet
