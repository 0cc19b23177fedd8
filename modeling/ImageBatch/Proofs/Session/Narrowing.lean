import ImageBatch.Proofs.ErrorLog.ReadBack
import ImageBatch.Proofs.Session.Reports

/-!
# What a further attempt takes up

An attempt after one whose log can be read takes up just the tasks that were left, in their order in
the full set.
-/

namespace ImageBatch.Session

open Engine (plainImage frugal timing)

variable {ω σ η : Type} [Host (StateM σ) η] {p : Plan} {full current : TaskSet}
  {a b : Attempt σ} {before after : List (Attempt σ)} {r : Report}

/-! ## Steps of a course -/

theorem Course.head {as : List (Attempt σ)} (h : Course p full current (a :: as)) :
    a.set = current ∧ a.Ran p := by
  cases h with
  | last ha => exact ⟨rfl, ha⟩
  | next ha => exact ⟨rfl, ha⟩

theorem Course.suffix (h : Course p full current (before ++ a :: after)) :
    Course p full a.set (a :: after) := by
  induction before generalizing current with
  | nil =>
      rw [h.head.1]
      exact h
  | cons c before ih =>
      rw [List.cons_append] at h
      generalize hrest : before ++ a :: after = rest at h
      cases h with
      | last hc => simp at hrest
      | next hc hr hf h => exact ih (hrest ▸ h)

theorem Course.ran (h : Course p full current (before ++ a :: after)) : a.Ran p := h.suffix.head.2

theorem Course.step (h : Course p full current (before ++ a :: b :: after)) :
    a.Ran p ∧ ∃ r, a.ending = .ok r ∧ r.outcome.isHardFailure = true ∧
      b.set = full.next (a.recovered p r) (Attempt.unresolved r) := by
  have hsuffix := h.suffix
  generalize a.set = set at hsuffix
  cases hsuffix with
  | next ha hr hf hmore => exact ⟨ha, _, hr, hf, hmore.head.1⟩

theorem Course.isPartOf (h : Course p full current (before ++ a :: after))
    (hcurrent : current.IsPartOf full) : a.set.IsPartOf full := by
  rcases List.eq_nil_or_concat before with rfl | ⟨front, c, rfl⟩
  · rw [h.head.1]
    exact hcurrent
  · rw [List.concat_eq_append, List.append_assoc] at h
    obtain ⟨-, r, -, -, hset⟩ := h.step
    rw [hset]
    exact TaskSet.isPartOf_next _ _ _

/-! ## Reading the own log -/

/-- The log of the attempt was written, and what was written can be read. -/
def Attempt.ReadsBack (a : Attempt σ) (r : Report) : Prop :=
  ∃ path written, r.outcome.log? = some path ∧
    ((Host.readText path : StateM σ (Except FileError String)) a.host).1 =
      .ok (ErrorLog.content r.runId written r.statistics r.errors)

/-- The origins of a log that was written are those of its text, if it can be read. -/
theorem Attempt.recovered_of_log {path : String} (hlog : r.outcome.log? = some path) :
    a.recovered p r =
      match ((Host.readText path : StateM σ (Except FileError String)) a.host).1 with
      | .ok text => ErrorLog.origins text
      | .error _ => [] := by
  rcases htext : (Host.readText path : StateM σ (Except FileError String)) a.host with ⟨text, h⟩
  have hpath : (pure (some path) : StateM σ (Option String)) a.host = (some path, a.host) := rfl
  simp only [recovered, recover, hlog, bind_apply, hpath, ErrorLog.readOrigins, htext]
  cases text <;> rfl

theorem Attempt.Ran.narrow_eq (ha : a.Ran p) (hr : a.ending = .ok r)
    (hpart : a.set.IsPartOf full) (hvalid : full.fault? = none) {origins : List String}
    (horigins : ∀ o, o ∈ origins ↔ o ∈ r.errors.map (fun c => c.task.origin)) :
    (full.narrow origins).tasks = full.tasks.filter a.leaves := by
  have hmem := ha.sent_perm hr
  rw [TaskSet.tasks_narrow]
  apply List.filter_congr
  intro t ht
  have hrecords : r.errors.map (fun c => c.task.origin) =
      ((a.engine.sent.reverse.filter Result.isUnresolved).map Result.task).map Task.origin := by
    rw [← ha.map_task_errors hr, List.map_map]
    rfl
  rw [Bool.eq_iff_iff, decide_eq_true_eq, horigins, hrecords, List.mem_map]
  constructor
  · rintro ⟨u, hu, he⟩
    obtain ⟨res, hres, rfl⟩ := List.mem_map.mp hu
    simp only [List.mem_filter, List.mem_reverse] at hres
    have hin : res.task ∈ full.tasks :=
      hpart.mem (hmem.1.mem_iff.mp (List.mem_map_of_mem hres.1))
    have htask := TaskSet.eq_of_origin_eq hvalid hin ht he
    exact List.any_eq_true.mpr ⟨res, hres.1, by simp [htask, hres.2]⟩
  · intro hleft
    obtain ⟨res, hres, he⟩ := List.any_eq_true.mp hleft
    simp only [Bool.and_eq_true, decide_eq_true_eq] at he
    refine ⟨t, List.mem_map.mpr ⟨res, ?_, he.1⟩, rfl⟩
    simp [hres, he.2]

/-- A log that names what was left makes the next set: the tasks that were left. -/
theorem Attempt.Ran.next_eq (ha : a.Ran p) (hr : a.ending = .ok r)
    (hf : r.outcome.isHardFailure = true) (hp : p.policy.IsUsable)
    (hpart : a.set.IsPartOf full) (hvalid : full.fault? = none) {origins : List String}
    (horigins : ∀ o, o ∈ origins ↔ o ∈ r.errors.map (fun c => c.task.origin)) :
    (full.next origins (unresolved r)).tasks = full.tasks.filter a.leaves ∧
      full.tasks.filter a.leaves = a.set.tasks.filter a.leaves ∧
      full.tasks.filter a.leaves ≠ [] := by
  have hnarrow := ha.narrow_eq hr hpart hvalid horigins
  have hsame : full.tasks.filter a.leaves = a.set.tasks.filter a.leaves :=
    hpart.filter_eq fun t _ hleft => ha.mem_of_leaves hr hleft
  have hlen := ha.length_filter_leaves hr (hpart.nodup hvalid)
  have hpos := ha.unresolved_pos hr hp hf
  have hsome : full.tasks.filter a.leaves ≠ [] := by
    intro hnil
    rw [← hsame, hnil, List.length_nil] at hlen
    omega
  refine ⟨?_, hsame, hsome⟩
  have hne : origins ≠ [] := by
    rintro rfl
    rw [TaskSet.tasks_narrow] at hnarrow
    simp only [List.not_mem_nil, decide_false] at hnarrow
    rw [List.filter_false] at hnarrow
    exact hsome hnarrow.symm
  have hle : max (unresolved r) 1 ≤ (full.narrow origins).tasks.length := by
    rw [hnarrow, hsame, hlen]
    omega
  rw [TaskSet.next_of_le hne hle, hnarrow]

theorem Attempt.Ran.mem_origins (ha : a.Ran p) (hr : a.ending = .ok r)
    (hpart : a.set.IsPartOf full) (hvalid : full.fault? = none) (written : Instant) (o : String) :
    o ∈ ErrorLog.origins (ErrorLog.content r.runId written r.statistics r.errors) ↔
      o ∈ r.errors.map (fun c => c.task.origin) := by
  have hlegible : ∀ c ∈ r.errors, ErrorLog.IsLegible c.task.origin := by
    intro c hc
    have htask : c.task ∈ r.errors.map Record.task := List.mem_map_of_mem hc
    rw [ha.map_task_errors hr] at htask
    obtain ⟨res, hres, he⟩ := List.mem_map.mp htask
    simp only [List.mem_filter, List.mem_reverse] at hres
    rw [← he]
    exact ErrorLog.isLegible_of_isUsableOrigin (TaskSet.isUsableOrigin_of_mem hvalid
      (hpart.mem ((ha.sent_perm hr).1.mem_iff.mp (List.mem_map_of_mem hres.1))))
  obtain ⟨-, runId, attempt, elapsed, log, hid, hreport⟩ := ha.report r hr
  have hrun : '\n' ∉ r.runId.toList := by
    rw [hreport]
    exact hid
  exact ErrorLog.mem_origins_content hrun written r.statistics hlegible

/-- A further attempt after one whose log can be read takes up just the tasks that failed or were
skipped with a reason, in their order in the full set, and there is at least one. -/
theorem tasks_of_next_attempt {o : Outside ω σ} (ho : o.IsEngine p) (hn : NamesOnOneLine σ)
    (hvalid : full.fault? = none) (hp : p.policy.IsUsable) {s : RetrySettings} {e : ω} {h : σ}
    (hs : (o.session p s full e h).2 = before ++ a :: b :: after) (hr : a.ending = .ok r)
    (hback : a.ReadsBack r) :
    b.set.tasks = full.tasks.filter a.leaves ∧ b.set.tasks = a.set.tasks.filter a.leaves ∧
      b.set.tasks ≠ [] := by
  have hcourse := (o.course ho hn s full e h).1
  rw [hs] at hcourse
  obtain ⟨ha, r', hr', hf, hset⟩ := hcourse.step
  cases hr.symm.trans hr'
  have hpart : a.set.IsPartOf full := hcourse.isPartOf (TaskSet.isPartOf_self full)
  obtain ⟨path, written, hlog, htext⟩ := hback
  have hrecovered : a.recovered p r =
      ErrorLog.origins (ErrorLog.content r.runId written r.statistics r.errors) := by
    rw [Attempt.recovered_of_log hlog, htext]
  obtain ⟨htasks, hsame, hsome⟩ := ha.next_eq hr hf hp hpart hvalid
    (ha.mem_origins hr hpart hvalid written)
  rw [hset, hrecovered]
  exact ⟨htasks, htasks.trans hsame, htasks ▸ hsome⟩

/-- On a machine in memory the log of the attempt can be read, with the time that it is. -/
def Attempt.showsLog (a : Attempt Machine) : Bool :=
  match a.ending with
  | .error _ => false
  | .ok r =>
    match r.outcome.log? with
    | none => false
    | some path =>
      match ((Host.readText path : StateM Machine (Except FileError String)) a.host).1 with
      | .error _ => false
      | .ok text => text == ErrorLog.content r.runId a.host.clock r.statistics r.errors

theorem Attempt.readsBack_of_showsLog {a : Attempt Machine} (h : a.showsLog = true) :
    ∃ r, a.ending = .ok r ∧ a.ReadsBack r := by
  unfold showsLog at h
  split at h
  · cases h
  · rename_i r hr
    split at h
    · cases h
    · rename_i path hlog
      split at h
      · cases h
      · rename_i text htext
        rw [beq_iff_eq] at h
        exact ⟨r, hr, path, a.host.clock, hlog, h ▸ htext⟩

def paired : Plan := ⟨{ frugal with limit := 2 }, false, .standard, "errors"⟩

def threeImages : TaskSet := .ofTasks [plainImage "a", plainImage "b", plainImage "c"]

def refused : Engine.Answer := .failure ⟨.auth, "unauthorized"⟩

/-- The first two images are refused, the second one before the first. -/
def twoRefused : Nat → List Engine.Label
  | 1 => timing [(2, .aggregator), (5, .dispatcher), (6, .aggregator), (6, .dispatcher),
      (6, .aggregator), (5, .dispatcher), (1, .begin 1), (1, .answer 1 refused), (1, .settle 1),
      (4, .dispatcher), (4, .aggregator), (4, .dispatcher), (6, .aggregator), (2, .dispatcher),
      (1, .begin 0), (1, .answer 0 refused), (1, .settle 0), (2, .dispatcher), (4, .aggregator),
      (1, .begin 2), (1, .answer 2 .success), (1, .settle 2), (2, .dispatcher), (2, .aggregator)]
  | _ => []

/-- The images that were refused are taken up again, in their old order. -/
theorem tasks_of_next_attempt_of_twoRefused :
    ∃ a b, ((Outside.scripted paired twoRefused).session paired ⟨2, ⟨0⟩⟩ threeImages () .empty).2 =
        [a, b] ∧ b.set.tasks = threeImages.tasks.filter a.leaves ∧
      b.set.tasks.map Task.origin = ["a", "b"] := by
  have hrun : ((Outside.scripted paired twoRefused).session paired ⟨2, ⟨0⟩⟩ threeImages
      () .empty).2.map (fun a => (a.set.tasks.map Task.origin, a.showsLog)) =
      [(["a", "b", "c"], true), (["a", "b"], false)] := by
    decide +kernel
  have hlen := congrArg List.length hrun
  rw [List.length_map] at hlen
  obtain ⟨a, b, hs⟩ := List.length_eq_two.mp hlen
  simp only [hs, List.map_cons, List.map_nil, List.cons.injEq, Prod.mk.injEq] at hrun
  obtain ⟨⟨-, hlog⟩, ⟨horigins, -⟩, -⟩ := hrun
  obtain ⟨r, hr, hback⟩ := Attempt.readsBack_of_showsLog hlog
  have ho := Outside.isEngine_scripted paired twoRefused
  have hvalid : threeImages.fault? = none := by decide +kernel
  have hp : paired.policy.IsUsable := Policy.isUsable_standard
  have hsplit := hs.trans (List.nil_append [a, b]).symm
  refine ⟨a, b, hs, ?_, horigins⟩
  exact (tasks_of_next_attempt ho namesOnOneLine_machine hvalid hp hsplit hr hback).1

end ImageBatch.Session
