import ImageBatch.Proofs.Engine.Stream
import ImageBatch.Proofs.TaskSet.File

/-!
# Shortfalls

A set that was not told what to expect expects the tasks that it has. A success raises what has
arrived of a kind and a bypass lowers what is expected of it, so at every point of a run the two
differ by the tasks that are left unresolved and those that have no result yet, and at the end by
the unresolved ones alone.
-/

namespace ImageBatch

/-- The task was skipped without a reason. -/
def Result.isBypass (r : Result) : Bool := r.ending == .skipped none

/-- How many images of a kind are expected by now. -/
def Statistics.expectedOf (n : Statistics) (k : ImageKind) : Nat :=
  ((n.byKind.get? k).map KindTally.expected).getD 0

/-- The tasks whose results are of a sort. -/
def tasksOf (sort : Result → Bool) (rs : List Result) : List Task :=
  (rs.filter sort).map Result.task

namespace ImageKind

variable {k : ImageKind} {ts ts' : List Task}

theorem among_append : k.among (ts ++ ts') = k.among ts + k.among ts' := List.countP_append

theorem among_perm (h : ts.Perm ts') : k.among ts = k.among ts' := h.countP_eq _

theorem eq_nil_iff_among : ts = [] ↔ ∀ k : ImageKind, k.among ts = 0 := by
  refine ⟨fun h k => h ▸ rfl, fun h => List.eq_nil_iff_forall_not_mem.mpr fun t ht => ?_⟩
  exact List.countP_eq_zero.mp (h t.kind) t ht (beq_self_eq_true _)

theorem among_tasksOf_cons (sort : Result → Bool) (r : Result) (rs : List Result) :
    k.among (tasksOf sort (r :: rs)) =
      k.among (tasksOf sort rs) + if sort r && r.task.kind == k then 1 else 0 := by
  rw [tasksOf, tasksOf, List.filter_cons]
  by_cases hr : sort r = true
  · rw [if_pos hr, List.map_cons, among, List.countP_cons, hr, Bool.true_and]
    rfl
  · rw [if_neg hr, Bool.eq_false_of_not_eq_true hr]
    rfl

theorem among_results (k : ImageKind) (rs : List Result) :
    k.among (rs.map Result.task) = k.among (tasksOf Result.isSuccess rs) +
      k.among (tasksOf Result.isUnresolved rs) + k.among (tasksOf Result.isBypass rs) := by
  induction rs with
  | nil => rfl
  | cons r rs ih =>
      have hone : (if r.task.kind == k then 1 else 0) =
          (if r.isSuccess && r.task.kind == k then 1 else 0) +
          (if r.isUnresolved && r.task.kind == k then 1 else 0) +
          if r.isBypass && r.task.kind == k then 1 else 0 := by
        obtain ⟨task, ending, attempts⟩ := r
        rcases ending with _ | f | _ | reason <;>
          simp [Result.isSuccess, Result.isUnresolved, Ending.isUnresolved, Result.isBypass]
      rw [among_tasksOf_cons, among_tasksOf_cons, among_tasksOf_cons, List.map_cons, among,
        List.countP_cons, hone]
      rw [among] at ih
      omega

end ImageKind

/-! ## What a set expects -/

namespace TaskSet

variable {s : TaskSet}

/-- The task set in a text says nothing of what is expected. -/
def leavesOutExpected (asJson : Bool) (text : String) : Bool :=
  if asJson then
    ((Json.read? text).bind (Json.known? fieldNames)).any fun known =>
      (known.lookup "expected").isNone
  else
    (Yaml.document? text).any fun d => (Yaml.Read.known fieldNames d d.root).any fun known =>
      (known.lookup "expected").isNone

example : leavesOutExpected false
    "tasks:\n- origin: a\n  source: s\n  destination: d\n  type: additional\n" = true := by
  decide +kernel

theorem expected_of_ofJson? {j : Json} {known : Json.Known} (h : ofJson? j = some s)
    (hknown : j.known? fieldNames = some known) (hout : known.lookup "expected" = none) :
    s.expected = ∅ := by
  have hdefault : Json.withDefault known "expected" ∅ KindCounts.ofJson? = some ∅ := by
    rw [Json.withDefault, hout]
  simp only [ofJson?, hknown, hdefault, Option.bind_eq_bind, Option.bind_some,
    Option.bind_eq_some_iff] at h
  obtain ⟨tasks, -, bundles, -, operators, -, hset⟩ := h
  cases hset
  rfl

theorem expected_of_ofYaml {d : Yaml.Document} {n : Yaml.Node} {known : Yaml.Read.Known}
    (h : ofYaml d n = some s) (hknown : Yaml.Read.known fieldNames d n = some known)
    (hout : known.lookup "expected" = none) : s.expected = ∅ := by
  have hdefault : Yaml.Read.withDefault d known "expected" ∅ KindCounts.ofYaml = some ∅ := by
    rw [Yaml.Read.withDefault, hout]
  simp only [ofYaml, hknown, hdefault, Option.bind_eq_bind, Option.bind_some,
    Option.bind_eq_some_iff] at h
  obtain ⟨tasks, -, bundles, -, operators, -, hset⟩ := h
  cases hset
  rfl

theorem expected_of_leavesOutExpected {asJson : Bool} {text : String}
    (h : leavesOutExpected asJson text = true) (hs : ofText? asJson text = some s) :
    s.expected = ∅ := by
  cases asJson with
  | true =>
      obtain ⟨known, hread, hout⟩ := (Option.any_eq_true _ _).mp h
      obtain ⟨j, hj, hknown⟩ := Option.bind_eq_some_iff.mp hread
      have hset : ofJson? j = some s := by simpa [ofText?, hj] using hs
      exact expected_of_ofJson? hset hknown (Option.isNone_iff_eq_none.mp hout)
  | false =>
      obtain ⟨d, hd, hrest⟩ := (Option.any_eq_true _ _).mp h
      obtain ⟨known, hknown, hout⟩ := (Option.any_eq_true _ _).mp hrest
      have hset : ofYaml d d.root = some s := by simpa [ofText?, Yaml.Read.ofText?, hd] using hs
      exact expected_of_ofYaml hset hknown (Option.isNone_iff_eq_none.mp hout)

/-- The set expects what it observes: it is made from its tasks, or is a part of another set, or was
loaded from a file that says nothing of what is expected. -/
inductive ExpectsObserved : TaskSet → Prop
  | of_eq {s : TaskSet} (h : s.expected = s.observed) : ExpectsObserved s
  | made (tasks : List Task) : ExpectsObserved (ofTasks tasks)
  | narrowed (full : TaskSet) (origins : List String) : ExpectsObserved (full.narrow origins)
  | loaded {s : TaskSet} {path text : String} (h : ofFile path text = .ok s)
      (hout : leavesOutExpected (isJsonFile path) text = true) : ExpectsObserved s

theorem ExpectsObserved.expected_eq (h : s.ExpectsObserved) : s.expected = s.observed := by
  cases h with
  | of_eq h => exact h
  | made tasks => exact expected_fillExpected rfl
  | narrowed full origins => exact expected_fillExpected rfl
  | loaded h hout =>
      rw [ofFile] at h
      split at h
      · cases h
      · rename_i read hread
        split at h
        · cases h
        · cases h
          exact expected_fillExpected (expected_of_leavesOutExpected hout hread)

end TaskSet

/-! ## What a tally owes -/

namespace Statistics

variable {n : Statistics} {rs : List Result}

/-- Of each kind there are expected all tasks but the bypassed ones, and those that have not arrived
are unresolved or have no result yet. -/
structure Owes (n : Statistics) (rs : List Result) (rest : List Task) : Prop where
  expected : ∀ k : ImageKind, n.expectedOf k + k.among (tasksOf Result.isBypass rs) =
    k.among (rs.map Result.task ++ rest)
  missing : ∀ k : ImageKind,
    n.arrived k + k.among (tasksOf Result.isUnresolved rs) + k.among rest = n.expectedOf k

/-- What is short of each kind are its unresolved tasks, and nothing is short just when the run is
clean. -/
structure FallsShortBy (n : Statistics) (rs : List Result) : Prop where
  arrived_le : ∀ k, n.arrived k ≤ n.expectedOf k
  short : ∀ k, n.expectedOf k - n.arrived k = k.among (tasksOf Result.isUnresolved rs)
  clean : n.shortfalls = [] ↔ n.isClean = true

/-- Something falls short just when fewer images of some kind have arrived than are expected. -/
theorem shortfalls_eq_nil_iff : n.shortfalls = [] ↔ ∀ k, n.expectedOf k ≤ n.arrived k := by
  have hshort : ∀ e : ImageKind × KindTally,
      e ∈ n.byKind.toList → (¬e.2.isShort = true ↔ n.expectedOf e.1 ≤ n.arrived e.1) := by
    intro e he
    rw [expectedOf, arrived, SortedMap.mem_toList_iff.mp he]
    simp [KindTally.isShort]
  rw [shortfalls, List.map_eq_nil_iff, List.filter_eq_nil_iff]
  refine ⟨fun h k => ?_, fun h e he => (hshort e he).mpr (h e.1)⟩
  cases hk : n.byKind.get? k with
  | none => simp [expectedOf, hk]
  | some t =>
      have hin := SortedMap.mem_toList_iff.mpr hk
      exact (hshort _ hin).mp (h _ hin)

theorem Owes.fallsShortBy (h : n.Owes rs [])
    (hclean : n.isClean = true ↔ tasksOf Result.isUnresolved rs = []) : n.FallsShortBy rs := by
  have hmissing : ∀ k, n.arrived k + k.among (tasksOf Result.isUnresolved rs) = n.expectedOf k :=
    h.missing
  refine ⟨fun k => ?_, fun k => ?_, ?_⟩
  · have hk := hmissing k
    omega
  · have hk := hmissing k
    omega
  · rw [shortfalls_eq_nil_iff, hclean, ImageKind.eq_nil_iff_among]
    refine forall_congr' fun k => ?_
    have hk := hmissing k
    omega

end Statistics

namespace Tally

variable (s : TaskSet) (t : Tally) (r : Result) (rs : List Result)

theorem expectedOf_start (k : ImageKind) :
    (start s).statistics.expectedOf k = (s.expected.get? k).getD 0 := by
  simp only [Statistics.expectedOf, start, SortedMap.get?_map]
  cases s.expected.get? k <;> rfl

theorem expectedOf_add (k : ImageKind) : (t.add s r).statistics.expectedOf k =
    t.statistics.expectedOf k - if r.isBypass && r.task.kind == k then 1 else 0 := by
  obtain ⟨task, ending, attempts⟩ := r
  rcases ending with _ | f | _ | reason
  · by_cases hk : k = task.kind
    · cases hn : t.statistics.byKind.get? task.kind <;>
        simp [add, count, Statistics.expectedOf, Result.isBypass, hk, hn]
    · simp [add, count, Statistics.expectedOf, Result.isBypass, hk]
  · rfl
  · by_cases hk : task.kind = k
    · cases hn : t.statistics.byKind.get? k <;>
        simp [add, count, Statistics.expectedOf, Result.isBypass, SortedMap.get?_modify, hk, hn]
    · simp [add, count, Statistics.expectedOf, Result.isBypass, SortedMap.get?_modify, hk]
  · rfl

/-- Every bypass lowers what is expected of its kind, as long as anything is. -/
theorem expectedOf_addAll (k : ImageKind) : (t.addAll s rs).statistics.expectedOf k =
    t.statistics.expectedOf k - k.among (tasksOf Result.isBypass rs) := by
  induction rs generalizing t with
  | nil => rfl
  | cons r rs ih =>
      rw [addAll_cons, ih, expectedOf_add, ImageKind.among_tasksOf_cons, Nat.sub_sub,
        Nat.add_comm]

theorem arrived_start (k : ImageKind) : (addAll s (start s) rs).statistics.arrived k =
    k.among (tasksOf Result.isSuccess rs) := by
  rw [((balances_start s).addAll s rs).arrived, succeeded_addAll]
  rfl

variable {s rs} {rest : List Task}

/-- In whatever order the results come, and whatever is left to do. -/
theorem owes (hset : s.expected = s.observed) (h : (rs.map Result.task ++ rest).Perm s.tasks) :
    (addAll s (start s) rs).statistics.Owes rs rest := by
  have hexpected : ∀ k, (addAll s (start s) rs).statistics.expectedOf k =
      k.among (rs.map Result.task ++ rest) - k.among (tasksOf Result.isBypass rs) := by
    intro k
    rw [expectedOf_addAll, expectedOf_start, hset, TaskSet.getD_observed, ImageKind.among_perm h]
  refine ⟨fun k => ?_, fun k => ?_⟩
  all_goals
    have hsplit := k.among_results rs
    rw [hexpected, ImageKind.among_append]
  · omega
  · rw [arrived_start]
    omega

theorem isClean_start : (addAll s (start s) rs).statistics.isClean = true ↔
    tasksOf Result.isUnresolved rs = [] := by
  have hcount := unresolved_start s rs
  rw [List.countP_eq_length_filter] at hcount
  rw [tasksOf, List.map_eq_nil_iff, ← List.length_eq_zero_iff, ← hcount, Statistics.isClean,
    Bool.and_eq_true, beq_iff_eq, beq_iff_eq]
  omega

/-- Once every task has a result. -/
theorem fallsShortBy (hset : s.expected = s.observed) (h : (rs.map Result.task).Perm s.tasks) :
    (addAll s (start s) rs).statistics.FallsShortBy rs := by
  have hall : (rs.map Result.task ++ []).Perm s.tasks := by rwa [List.append_nil]
  exact (owes hset hall).fallsShortBy isClean_start

end Tally

/-! ## What a run owes -/

namespace Engine

variable {s : Settings} {set : TaskSet} {policy : SkipPolicy} {cancelled : Bool} {x : State}

/-- The tasks whose results have not been taken in. -/
def State.outstanding (x : State) : List Task :=
  x.inbox.results.map Result.task ++ x.dispatch.held ++ x.inFlight.map Prod.snd ++ x.pending

theorem Reachable.outstanding_perm (h : Reachable s set policy cancelled x) {taken : List Result}
    (htaken : x.sent.reverse = taken ++ x.inbox.results) :
    (taken.map Result.task ++ x.outstanding).Perm set.tasks := by
  have hsent : (x.sent.map Result.task).Perm
      (taken.map Result.task ++ x.inbox.results.map Result.task) := by
    rw [← List.map_append, ← htaken]
    exact (List.reverse_perm x.sent).symm.map _
  have haccount := h.account_perm
  rw [State.account, List.append_assoc, List.append_assoc] at haccount
  rw [State.outstanding, List.append_assoc, List.append_assoc, ← List.append_assoc]
  exact (hsent.symm.append_right _).trans haccount

/-- If a set expects what it observes, then at every point of a run there are expected of each kind
all its tasks but the bypassed ones, and what has not arrived of them is unresolved or outstanding.
So what falls short of each kind at the end are its unresolved tasks, and nothing falls short just
when the run is clean. In whatever order the results might have come, the same would be short. -/
theorem Reachable.shortfalls_are_unresolved (h : Reachable s set policy cancelled x)
    (hset : set.ExpectsObserved) :
    let n := x.aggregator.tally.statistics
    (∃ taken, x.sent.reverse = taken ++ x.inbox.results ∧ n.Owes taken x.outstanding) ∧
    (x.aggregator.phase = .finished →
      ∀ d, { n with elapsed := d }.FallsShortBy x.sent.reverse) ∧
    ∀ rs rest, (rs.map Result.task ++ rest).Perm set.tasks →
      let m := ((Tally.start set).addAll set rs).statistics
      m.Owes rs rest ∧ (rest = [] → m.FallsShortBy rs) := by
  have hexpected := hset.expected_eq
  refine ⟨?_, fun hf d => ?_, fun rs rest hperm => ⟨Tally.owes hexpected hperm, ?_⟩⟩
  · obtain ⟨taken, hsent, htally⟩ := h.hasStream.taken
    refine ⟨taken, hsent, ?_⟩
    rw [htally]
    exact Tally.owes hexpected (h.outstanding_perm hsent)
  · obtain ⟨hperm, -, -, -, htally⟩ := h.tally_of_finished hf
    have hshort : x.aggregator.tally.statistics.FallsShortBy x.sent.reverse := by
      rw [htally]
      exact Tally.fallsShortBy hexpected (((List.reverse_perm x.sent).map _).trans hperm)
    exact ⟨hshort.arrived_le, hshort.short, hshort.clean⟩
  · rintro rfl
    rw [List.append_nil] at hperm
    exact Tally.fallsShortBy hexpected hperm

/-- A release graph that stays behind on the way to a disk, an image, a bundle that needs it, and an
image that nobody needs. -/
def mixedKinds : TaskSet := .ofTasks [
  { plainImage "g" with kind := .releaseGraph },
  { plainImage "a" with bundles := .ofList ["b"] },
  { plainImage "b" with kind := .operatorBundle },
  plainImage "c"]

/-- The first image fails, so the bundle is given up, and the second image arrives. -/
def halfMirrored : List Label :=
  timing [(2, .aggregator), (5, .dispatcher), (6, .aggregator), (2, .dispatcher), (4, .aggregator),
    (5, .dispatcher), (6, .aggregator), (5, .dispatcher), (1, .begin 0),
    (1, .answer 0 (.failure ⟨.network, "timeout"⟩)), (1, .settle 0), (4, .dispatcher),
    (4, .aggregator), (4, .dispatcher), (6, .aggregator), (2, .dispatcher), (4, .aggregator),
    (5, .dispatcher), (6, .aggregator), (2, .dispatcher), (1, .begin 1), (1, .answer 1 .success),
    (1, .settle 1), (2, .dispatcher), (2, .aggregator)]

theorem shortfalls_are_unresolved_of_halfMirrored :
    ∃ x, Reachable frugal mixedKinds ⟨.toDisk, false⟩ false x ∧ mixedKinds.ExpectsObserved ∧
      x.aggregator.phase = .finished ∧
      x.aggregator.tally.statistics.shortfalls =
        ["0/1 operator bundles succeeded", "1/2 additional images succeeded"] ∧
      x.aggregator.tally.statistics.expectedOf .releaseGraph = 0 ∧
      x.aggregator.tally.statistics.FallsShortBy x.sent.reverse := by
  have hrun : (steps? frugal (State.start frugal mixedKinds ⟨.toDisk, false⟩ false)
      halfMirrored).map (fun x => (x.aggregator.phase, x.aggregator.tally.statistics.shortfalls,
        x.aggregator.tally.statistics.expectedOf .releaseGraph)) =
      some (.finished, ["0/1 operator bundles succeeded", "1/2 additional images succeeded"],
        0) := by
    decide +kernel
  obtain ⟨x, hx, hends⟩ := Option.map_eq_some_iff.mp hrun
  simp only [Prod.mk.injEq] at hends
  obtain ⟨hf, hshortfalls, hgraph⟩ := hends
  have hreach := Reachable.start.of_steps? hx
  have hset : mixedKinds.ExpectsObserved := .made _
  obtain ⟨-, hfinished, -⟩ := hreach.shortfalls_are_unresolved hset
  exact ⟨x, hreach, hset, hf, hshortfalls, hgraph, hfinished hf _⟩

end Engine

end ImageBatch
