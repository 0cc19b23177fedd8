import ImageBatch.TaskSet
import Mathlib.Data.List.Nodup

/-!
# Usable task sets

In a usable set every origin can be told apart in a log, and no two tasks share one. Sets for
further attempts take some tasks of the full set and keep their order.
-/

namespace ImageBatch.TaskSet

variable {s full : TaskSet}

/-! ## Origins -/

theorem of_firstOffender_eq_none {seen : List String} {ts : List Task}
    (h : firstOffender seen ts = none) :
    (∀ t ∈ ts, isUsableOrigin t.origin = true ∧ t.origin ∉ seen) ∧
      (ts.map Task.origin).Nodup := by
  induction ts generalizing seen with
  | nil => simp
  | cons t ts ih =>
      unfold firstOffender at h
      split at h
      · cases h
      · rename_i husable
        split at h
        · cases h
        · rename_i hfresh
          obtain ⟨hall, hnodup⟩ := ih h
          refine ⟨?_, ?_⟩
          · intro u hu
            rcases List.mem_cons.mp hu with rfl | hu
            · exact ⟨by simpa using husable, hfresh⟩
            · exact ⟨(hall u hu).1, fun hs => (hall u hu).2 (List.mem_cons_of_mem _ hs)⟩
          · refine List.nodup_cons.mpr ⟨?_, hnodup⟩
            intro hm
            obtain ⟨u, hu, he⟩ := List.mem_map.mp hm
            exact (hall u hu).2 (he ▸ List.mem_cons_self)

theorem isUsableOrigin_of_mem (h : s.fault? = none) {t : Task} (ht : t ∈ s.tasks) :
    isUsableOrigin t.origin = true :=
  ((of_firstOffender_eq_none h).1 t ht).1

theorem nodup_origins (h : s.fault? = none) : (s.tasks.map Task.origin).Nodup :=
  (of_firstOffender_eq_none h).2

theorem nodup_tasks (h : s.fault? = none) : s.tasks.Nodup := (nodup_origins h).of_map _

theorem eq_of_origin_eq (h : s.fault? = none) {t u : Task} (ht : t ∈ s.tasks) (hu : u ∈ s.tasks)
    (he : t.origin = u.origin) : t = u :=
  List.inj_on_of_nodup_map (nodup_origins h) ht hu he

/-! ## Parts of a set -/

/-- Some tasks of a set, in their order there. -/
def IsPartOf (s full : TaskSet) : Prop := ∃ keep : Task → Bool, s.tasks = full.tasks.filter keep

theorem isPartOf_self (s : TaskSet) : s.IsPartOf s := ⟨fun _ => true, by simp⟩

theorem IsPartOf.mem (h : s.IsPartOf full) {t : Task} (ht : t ∈ s.tasks) : t ∈ full.tasks := by
  obtain ⟨keep, hkeep⟩ := h
  rw [hkeep] at ht
  exact (List.mem_filter.mp ht).1

theorem IsPartOf.nodup (h : s.IsPartOf full) (hfull : full.fault? = none) : s.tasks.Nodup := by
  obtain ⟨keep, hkeep⟩ := h
  rw [hkeep]
  exact (nodup_tasks hfull).filter keep

/-- What holds only of tasks of a part picks the same tasks from the part as from the whole. -/
theorem IsPartOf.filter_eq (h : s.IsPartOf full) {p : Task → Bool}
    (hp : ∀ t ∈ full.tasks, p t = true → t ∈ s.tasks) :
    full.tasks.filter p = s.tasks.filter p := by
  obtain ⟨keep, hkeep⟩ := h
  rw [hkeep, List.filter_filter]
  apply List.filter_congr
  intro t ht
  cases hpt : p t with
  | false => rfl
  | true =>
      have hin := hp t ht hpt
      rw [hkeep] at hin
      rw [(List.mem_filter.mp hin).2]
      rfl

@[simp] theorem tasks_narrow (full : TaskSet) (origins : List String) :
    (full.narrow origins).tasks = full.tasks.filter (fun t => decide (t.origin ∈ origins)) := rfl

theorem isPartOf_next (full : TaskSet) (origins : List String) (unresolved : Nat) :
    (full.next origins unresolved).IsPartOf full := by
  simp only [next]
  split
  · exact isPartOf_self full
  · exact ⟨_, tasks_narrow full origins⟩

theorem mem_next {origins : List String} {unresolved : Nat} {t : Task} (ht : t ∈ full.tasks)
    (ho : t.origin ∈ origins) : t ∈ (full.next origins unresolved).tasks := by
  simp only [next]
  split
  · exact ht
  · rw [tasks_narrow]
    exact List.mem_filter.mpr ⟨ht, decide_eq_true ho⟩

theorem next_of_le {origins : List String} {unresolved : Nat} (hne : origins ≠ [])
    (hle : max unresolved 1 ≤ (full.narrow origins).tasks.length) :
    full.next origins unresolved = full.narrow origins := by
  unfold next
  refine if_neg ?_
  rintro (hempty | hlt)
  · exact hne (List.isEmpty_iff.mp hempty)
  · omega

theorem next_eq_full {origins : List String} {unresolved : Nat}
    (h : origins = [] ∨ (full.narrow origins).tasks.length < max unresolved 1) :
    full.next origins unresolved = full := by
  unfold next
  refine if_pos ?_
  rcases h with rfl | hlt
  · exact .inl rfl
  · exact .inr hlt

end ImageBatch.TaskSet
