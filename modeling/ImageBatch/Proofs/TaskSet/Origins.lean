import ImageBatch.Proofs.ErrorLog.ReadBack

/-!
# The first offender

A set can be used exactly if its origins can be told apart in a log: none is empty, none has white
space in it, and none is there twice. Otherwise the first task that offends is blamed, given those
before it. In a log of a set that can be used every line leads back to its task and to no other.
-/

namespace ImageBatch.TaskSet

variable {s : TaskSet} {ts : List Task} {seen earlier : List String} {origin : String}
  {e : OriginError} {i : Nat} {t : Task}

/-! ## What offends -/

/-- An origin that a log cannot show: it is empty, or it has white space in it. -/
def IsSpoilt (origin : String) : Prop := origin = "" ∨ ∃ c ∈ origin.toList, Text.isBlank c = true

/-- The origin cannot follow the earlier ones: it is spoilt, or it is one of them. -/
def Offends (earlier : List String) (origin : String) : Prop := IsSpoilt origin ∨ origin ∈ earlier

/-- The error that an origin is given which offends. -/
inductive Blames (origin : String) : OriginError → Prop
  | spoilt : IsSpoilt origin → Blames origin (.invalid origin)
  | repeated : ¬ IsSpoilt origin → Blames origin (.duplicate origin)

/-- The task at the least position whose origin offends, after some origins and those of the tasks
before it. -/
structure IsFirstOffender (earlier : List String) (ts : List Task) (i : Nat) (t : Task) : Prop where
  stands : ts[i]? = some t
  offends : Offends ((ts.take i).map Task.origin ++ earlier) t.origin
  least : ∀ j u, j < i → ts[j]? = some u →
    ¬ Offends ((ts.take j).map Task.origin ++ earlier) u.origin

theorem isUsableOrigin_iff : isUsableOrigin origin = true ↔ ¬ IsSpoilt origin := by
  simp [isUsableOrigin, IsSpoilt]

theorem isFirstOffender_zero :
    IsFirstOffender earlier (t :: ts) 0 t ↔ Offends earlier t.origin := by
  refine ⟨fun h => h.offends, fun h => ⟨rfl, h, ?_⟩⟩
  intro j u hj
  exact absurd hj (Nat.not_lt_zero j)

theorem offends_congr {other : List String} (h : ∀ o, o ∈ earlier ↔ o ∈ other) :
    Offends earlier origin ↔ Offends other origin :=
  or_congr_right (h origin)

/-- Behind a task that does not offend the search goes on, and that task counts as an earlier
one. -/
theorem isFirstOffender_succ {u : Task} : IsFirstOffender earlier (u :: ts) (i + 1) t ↔
    ¬ Offends earlier u.origin ∧ IsFirstOffender (u.origin :: earlier) ts i t := by
  have hnames : ∀ j o, Offends (((u :: ts).take (j + 1)).map Task.origin ++ earlier) o ↔
      Offends ((ts.take j).map Task.origin ++ u.origin :: earlier) o := by
    intro j o
    refine offends_congr fun name => ?_
    simp only [List.take_succ_cons, List.map_cons, List.cons_append, List.mem_cons, List.mem_append]
    tauto
  constructor
  · intro h
    refine ⟨h.least 0 u (Nat.succ_pos i) rfl, h.stands, (hnames i _).mp h.offends, ?_⟩
    intro j v hj hv hoffends
    exact h.least (j + 1) v (Nat.succ_lt_succ hj) hv ((hnames j _).mpr hoffends)
  · rintro ⟨hu, h⟩
    refine ⟨h.stands, (hnames i _).mpr h.offends, ?_⟩
    intro j v hj hv hoffends
    cases j with
    | zero =>
        cases hv
        exact hu hoffends
    | succ j => exact h.least j v (Nat.lt_of_succ_lt_succ hj) hv ((hnames j _).mp hoffends)

/-- A task that offends is blamed at once, and behind any other one the search goes on. -/
theorem firstOffender_cons : firstOffender seen (t :: ts) = some e ↔
    Offends seen t.origin ∧ Blames t.origin e ∨
      ¬ Offends seen t.origin ∧ firstOffender (t.origin :: seen) ts = some e := by
  by_cases hspoilt : IsSpoilt t.origin
  · have hunusable : (!isUsableOrigin t.origin) = true := by
      rw [Bool.not_eq_true', ← Bool.not_eq_true, isUsableOrigin_iff, not_not]
      exact hspoilt
    have hoffends : Offends seen t.origin := .inl hspoilt
    rw [firstOffender, if_pos hunusable, Option.some.injEq]
    simp only [hoffends, true_and, not_true_eq_false, false_and, or_false]
    refine ⟨fun he => he ▸ .spoilt hspoilt, fun hblames => ?_⟩
    cases hblames with
    | spoilt _ => rfl
    | repeated hclean => exact (hclean hspoilt).elim
  · have husable : ¬ (!isUsableOrigin t.origin) = true := by
      rw [isUsableOrigin_iff.mpr hspoilt]
      decide
    rw [firstOffender, if_neg husable]
    by_cases hseen : t.origin ∈ seen
    · have hoffends : Offends seen t.origin := .inr hseen
      rw [if_pos hseen, Option.some.injEq]
      simp only [hoffends, true_and, not_true_eq_false, false_and, or_false]
      refine ⟨fun he => he ▸ .repeated hspoilt, fun hblames => ?_⟩
      cases hblames with
      | spoilt h => exact (hspoilt h).elim
      | repeated _ => rfl
    · have hfree : ¬ Offends seen t.origin := by
        rintro (h | h)
        · exact hspoilt h
        · exact hseen h
      rw [if_neg hseen]
      simp only [hfree, false_and, not_false_eq_true, true_and, false_or]

/-- Going through the tasks with the origins seen so far finds the first offender. -/
theorem firstOffender_eq_some_iff : firstOffender seen ts = some e ↔
    ∃ i t, IsFirstOffender seen ts i t ∧ Blames t.origin e := by
  induction ts generalizing seen with
  | nil =>
      refine iff_of_false nofun ?_
      rintro ⟨i, t, h, -⟩
      cases h.stands
  | cons u ts ih =>
      rw [firstOffender_cons, ih]
      constructor
      · rintro (⟨hoffends, hblames⟩ | ⟨hfree, i, t, hfirst, hblames⟩)
        · exact ⟨0, u, isFirstOffender_zero.mpr hoffends, hblames⟩
        · exact ⟨i + 1, t, isFirstOffender_succ.mpr ⟨hfree, hfirst⟩, hblames⟩
      · rintro ⟨i, t, hfirst, hblames⟩
        cases i with
        | zero =>
            cases hfirst.stands
            exact .inl ⟨isFirstOffender_zero.mp hfirst, hblames⟩
        | succ i =>
            obtain ⟨hfree, hfirst⟩ := isFirstOffender_succ.mp hfirst
            exact .inr ⟨hfree, i, t, hfirst, hblames⟩

/-! ## Usable sets -/

/-- Where no origin is there twice, tasks with one origin stand at one position. -/
theorem position_eq {j : Nat} {u : Task} (hn : (ts.map Task.origin).Nodup) (ht : ts[i]? = some t)
    (hu : ts[j]? = some u) (ho : t.origin = u.origin) : i = j := by
  obtain ⟨hi, -⟩ := List.getElem?_eq_some_iff.mp ht
  have hlt : i < (ts.map Task.origin).length := by
    rw [List.length_map]
    exact hi
  refine (List.getElem?_inj hlt hn).mp ?_
  rw [List.getElem?_map, List.getElem?_map, ht, hu, Option.map_some, Option.map_some, ho]

/-- No origin of a set offends exactly if none is spoilt and none is there twice. -/
theorem fault?_eq_none_iff :
    s.fault? = none ↔ (∀ t ∈ s.tasks, ¬ IsSpoilt t.origin) ∧ (s.tasks.map Task.origin).Nodup := by
  constructor
  · intro h
    exact ⟨fun t ht => isUsableOrigin_iff.mp (isUsableOrigin_of_mem h ht), nodup_origins h⟩
  · rintro ⟨hclean, hnodup⟩
    rw [Option.eq_none_iff_forall_ne_some]
    intro e he
    obtain ⟨i, t, hfirst, -⟩ := firstOffender_eq_some_iff.mp he
    rcases hfirst.offends with hspoilt | hseen
    · exact hclean t (List.mem_of_getElem? hfirst.stands) hspoilt
    · rw [List.append_nil] at hseen
      obtain ⟨u, hu, ho⟩ := List.mem_map.mp hseen
      obtain ⟨j, hj⟩ := List.getElem?_of_mem hu
      rw [List.getElem?_take] at hj
      split at hj
      · rename_i hlt
        exact absurd (position_eq hnodup hj hfirst.stands ho) (Nat.ne_of_lt hlt)
      · cases hj

end ImageBatch.TaskSet

namespace ImageBatch.ErrorLog

/-- An entry on its own names the origin of its record and nothing else. -/
theorem origins_entry {r : Record} (h : IsLegible r.task.origin) :
    origins (entry r) = [r.task.origin] := by
  have hne : (entry r).toList ≠ [] := by
    rw [toList_entry]
    cases r.kind <;> exact List.cons_ne_nil _ _
  rw [origins, Text.lines_last hne (newline_not_mem_entry h), firsts_eq_eraseDups,
    List.filterMap_cons, lineOrigin?_entry h, Option.map_some, String.ofList_toList]
  rfl

end ImageBatch.ErrorLog

namespace ImageBatch.TaskSet

open ErrorLog (entry origins origins_entry isLegible_of_isUsableOrigin)

variable {s : TaskSet}

theorem origins_entry_of_mem (h : s.fault? = none) {r : Record} (hr : r.task ∈ s.tasks) :
    origins (entry r) = [r.task.origin] :=
  origins_entry (isLegible_of_isUsableOrigin (isUsableOrigin_of_mem h hr))

/-- Validation accepts the usable sets and blames the first offender of any other one. A set is
accepted exactly if no origin is empty, none has white space in it and none is there twice. An error
is that of the task at the least position whose origin is empty, has white space in it or is that of
an earlier task: it carries the origin, which is invalid in the first two cases and a duplicate in
the last. A line about a task of an accepted set gives back the origin of that task, and lines about
tasks at different positions never give the same origin. -/
theorem validates_exactly (s : TaskSet) :
    (s.fault? = none ↔
      (∀ t ∈ s.tasks, ¬ IsSpoilt t.origin) ∧ (s.tasks.map Task.origin).Nodup) ∧
    (∀ e, s.fault? = some e ↔
      ∃ i t, IsFirstOffender [] s.tasks i t ∧ Blames t.origin e) ∧
    (s.fault? = none →
      (∀ r : Record, r.task ∈ s.tasks → origins (entry r) = [r.task.origin]) ∧
      ∀ (i j : Nat) (r q : Record), s.tasks[i]? = some r.task → s.tasks[j]? = some q.task →
        i ≠ j → (origins (entry r)).Disjoint (origins (entry q))) := by
  refine ⟨fault?_eq_none_iff, fun e => firstOffender_eq_some_iff, fun h => ⟨?_, ?_⟩⟩
  · intro r hr
    exact origins_entry_of_mem h hr
  · intro i j r q hr hq hne
    rw [origins_entry_of_mem h (List.mem_of_getElem? hr),
      origins_entry_of_mem h (List.mem_of_getElem? hq), List.disjoint_singleton,
      List.mem_singleton]
    exact fun ho => hne (position_eq (nodup_origins h) hr hq ho.symm)

def copyOf (origin : String) : Task := ⟨origin, "s", "d", .additional, none, ∅, ∅⟩

/-- The second task has the origin of the first one, and the third one a wide blank in its own. -/
def badTwice : TaskSet := .ofTasks [copyOf "a", copyOf "a", copyOf "b\u3000c"]

/-- One origin is the front of the other one, and looks like the end of an entry. -/
def nested : TaskSet := .ofTasks [copyOf "a(category:auth):", copyOf "a"]

def failureOf (t : Task) : Record :=
  ⟨t, .failed, "error mirroring image a (category: auth):\n", .auth, ∅, ∅⟩

/-- The repeated origin is blamed and not the spoilt one behind it, and an entry whose message looks
like an entry about the other task gives back its own. -/
theorem validates_exactly_of_nested :
    badTwice.fault? = some (.duplicate "a") ∧ nested.fault? = none ∧
      origins (entry (failureOf (copyOf "a(category:auth):"))) = ["a(category:auth):"] ∧
      (origins (entry (failureOf (copyOf "a(category:auth):")))).Disjoint
        (origins (entry (failureOf (copyOf "a")))) := by
  have hclean : ∀ {origin : String}, isUsableOrigin origin = true → ¬ IsSpoilt origin :=
    isUsableOrigin_iff.mp
  have hfirst : IsFirstOffender [] badTwice.tasks 1 (copyOf "a") := by
    refine ⟨rfl, .inr List.mem_cons_self, ?_⟩
    intro j u hj hu
    cases Nat.lt_one_iff.mp hj
    cases hu
    rintro (hspoilt | hmem)
    · exact hclean (by decide) hspoilt
    · exact absurd hmem List.not_mem_nil
  have hblames : Blames (copyOf "a").origin (.duplicate "a") := .repeated (hclean (by decide))
  have hbad := ((validates_exactly badTwice).2.1 _).mpr ⟨1, _, hfirst, hblames⟩
  obtain ⟨haccepts, -, hlines⟩ := validates_exactly nested
  have hnested : nested.fault? = none := by
    refine haccepts.mpr ⟨?_, by decide⟩
    intro t ht
    rcases List.mem_cons.mp ht with rfl | ht
    · exact hclean (by decide)
    · cases List.mem_singleton.mp ht
      exact hclean (by decide)
  obtain ⟨hown, hother⟩ := hlines hnested
  exact ⟨hbad, hnested, hown _ List.mem_cons_self, hother 0 1 _ _ rfl rfl (by decide)⟩

end ImageBatch.TaskSet
