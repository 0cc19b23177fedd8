import ImageBatch.Proofs.Session.Narrowing
import Mathlib.Data.List.Induction

/-!
# Tasks that get lost

A session follows the log of its last attempt, and where that one has none, the newest log in the
folder. The own log never leaves out a task that is still to be done. The newest log may be that of
another session, and then it may.
-/

namespace ImageBatch.Session

open Engine (plainImage frugal timing)

variable {ω σ η : Type} [Host (StateM σ) η] {p : Plan} {full : TaskSet} {as : List (Attempt σ)}

/-- No attempt leaves out a task that no attempt before it has mirrored. -/
def KeepsTrack (full : TaskSet) (as : List (Attempt σ)) : Prop :=
  ∀ before a after, as = before ++ a :: after →
    ∀ t ∈ full.tasks, t ∉ a.set.tasks → ∃ b ∈ before, b.Mirrors t

/-- What can be read from the log of the attempt is what was written. -/
def Attempt.Keeps (a : Attempt σ) : Prop :=
  ∀ r path text, a.ending = .ok r → r.outcome.log? = some path →
    ((Host.readText path : StateM σ (Except FileError String)) a.host).1 = .ok text →
    ∃ written, text = ErrorLog.content r.runId written r.statistics r.errors

/-- The attempt has no log of its own, and the newest log in the folder names enough tasks to be
followed, but not one of those that are still to be done. -/
def Attempt.IsMisled (a : Attempt σ) (p : Plan) (full : TaskSet) (soFar : List (Attempt σ)) :
    Prop :=
  ∃ r, a.ending = .ok r ∧ r.outcome.log? = none ∧ a.recovered p r ≠ [] ∧
    max (Attempt.unresolved r) 1 ≤ (full.narrow (a.recovered p r)).tasks.length ∧
    ∃ t ∈ full.tasks, t.origin ∉ a.recovered p r ∧ ∀ b ∈ soFar, ¬ b.Mirrors t

/-- No attempt that another one follows is misled. -/
def NeverMisled (p : Plan) (full : TaskSet) (as : List (Attempt σ)) : Prop :=
  ∀ before a b after, as = before ++ a :: b :: after →
    ¬ a.IsMisled p full (before ++ [a])

/-- The set after an attempt whose log was written leaves out nothing that is still to be done. -/
theorem Attempt.Ran.mirrors_of_log {a : Attempt σ} {r : Report} (ha : a.Ran p)
    (hr : a.ending = .ok r) (hf : r.outcome.isHardFailure = true) (hp : p.policy.IsUsable)
    (hpart : a.set.IsPartOf full) (hvalid : full.fault? = none) (hkeeps : a.Keeps)
    {path : String} (hlog : r.outcome.log? = some path) {t : Task} (ht : t ∈ full.tasks)
    (hout : t ∉ (full.next (a.recovered p r) (unresolved r)).tasks) (hin : t ∈ a.set.tasks) :
    a.Mirrors t := by
  rcases htext : ((Host.readText path : StateM σ (Except FileError String)) a.host).1 with e | text
  · have hnone : a.recovered p r = [] := by
      rw [recovered_of_log hlog, htext]
    rw [TaskSet.next_eq_full (.inl hnone)] at hout
    exact (hout ht).elim
  · obtain ⟨written, rfl⟩ := hkeeps r path text hr hlog htext
    have hrecovered : a.recovered p r =
        ErrorLog.origins (ErrorLog.content r.runId written r.statistics r.errors) := by
      rw [recovered_of_log hlog, htext]
    obtain ⟨htasks, -, -⟩ := ha.next_eq hr hf hp hpart hvalid
      (ha.mem_origins hr hpart hvalid written)
    rw [hrecovered, htasks, List.mem_filter, not_and] at hout
    exact (ha.leaves_or_mirrors hr hin).resolve_left (hout ht)

theorem Course.keepsTrack {current : TaskSet} (h : Course p full current as)
    (hcurrent : current = full) (hp : p.policy.IsUsable) (hvalid : full.fault? = none)
    (hkeeps : ∀ a ∈ as, a.Keeps) (hmisled : NeverMisled p full as) : KeepsTrack full as := by
  -- From the last attempt back: a task that is not in its set was left out just before, or earlier.
  intro before
  induction before using List.reverseRecOn with
  | nil =>
      rintro a after rfl t ht hout
      rw [h.head.1, hcurrent] at hout
      exact (hout ht).elim
  | append_singleton before c ih =>
      intro a after has t ht hout
      rw [List.append_assoc, List.singleton_append] at has
      have hmore := h
      rw [has] at hmore
      obtain ⟨hc, r, hr, hf, hset⟩ := hmore.step
      have hpart : c.set.IsPartOf full := hmore.isPartOf (hcurrent ▸ TaskSet.isPartOf_self full)
      rw [hset] at hout
      have hearlier : t ∉ c.set.tasks → ∃ b ∈ before ++ [c], b.Mirrors t := by
        intro hin
        obtain ⟨b, hb, hm⟩ := ih c (a :: after) has t ht hin
        exact ⟨b, List.mem_append_left _ hb, hm⟩
      cases hlog : r.outcome.log? with
      | some path =>
          by_cases hin : t ∈ c.set.tasks
          · have hkeep := hkeeps c (has ▸ by simp)
            exact ⟨c, by simp,
              hc.mirrors_of_log hr hf hp hpart hvalid hkeep hlog ht hout hin⟩
          · exact hearlier hin
      | none =>
          by_contra hnone
          refine hmisled before c a after has ⟨r, hr, hlog, ?_, ?_, t, ht, ?_, ?_⟩
          · intro hempty
            exact hout (by rwa [TaskSet.next_eq_full (.inl hempty)])
          · by_contra hlt
            exact hout (by rwa [TaskSet.next_eq_full (.inr (by omega))])
          · intro horigin
            exact hout (TaskSet.mem_next ht horigin)
          · intro b hb hm
            exact hnone ⟨b, hb, hm⟩

theorem Course.neverMisled {current : TaskSet} (h : Course p full current as)
    (hkeeps : KeepsTrack full as) : NeverMisled p full as := by
  rintro before a b after has ⟨r, hr, -, hne, hle, t, ht, horigin, hnone⟩
  have hmore := h
  rw [has] at hmore
  obtain ⟨-, r', hr', -, hset⟩ := hmore.step
  cases hr.symm.trans hr'
  have hout : t ∉ b.set.tasks := by
    rw [hset, TaskSet.next_of_le hne hle, TaskSet.tasks_narrow, List.mem_filter]
    simp [horigin]
  obtain ⟨c, hc, hm⟩ := hkeeps (before ++ [a]) b after (by simp [has]) t ht hout
  exact hnone c hc hm

/-- A success after which every task of the last set was mirrored is a success for the full set, if
no task got lost. -/
theorem Course.all_mirrored {current : TaskSet} (h : Course p full current as)
    (hkeeps : KeepsTrack full as) {a : Attempt σ} {r : Report} (hlast : as.getLast? = some a)
    (hr : a.ending = .ok r) (hs : r.outcome = .success) :
    ∀ t ∈ full.tasks, ∃ b ∈ as, b.Mirrors t := by
  intro t ht
  obtain ⟨before, rfl⟩ := List.getLast?_eq_some_iff.mp hlast
  by_cases hin : t ∈ a.set.tasks
  · have ha : a.Ran p := h.ran
    rcases ha.leaves_or_mirrors hr hin with hleft | hm
    · have hpos := ha.unresolved_pos_of_leaves hr hleft
      have hnone := ha.unresolved_of_success hr hs
      omega
    · exact ⟨a, by simp, hm⟩
  · obtain ⟨b, hb, hm⟩ := hkeeps before a [] rfl t ht hin
    exact ⟨b, List.mem_append_left _ hb, hm⟩

/-- A session loses no task just when no foreign log misleads it: when each attempt that has no log
of its own, and is followed by another one, finds no logs, or a newest log that names too few tasks
or every task that is still to be done. A session that is never misled and ends in a success has
mirrored every task. -/
theorem keepsTrack_iff_neverMisled {o : Outside ω σ} (ho : o.IsEngine p) (hn : NamesOnOneLine σ)
    (hvalid : full.fault? = none) (hp : p.policy.IsUsable) {s : RetrySettings} {e : ω} {h : σ}
    (hkeeps : ∀ a ∈ (o.session p s full e h).2, a.Keeps) :
    (KeepsTrack full (o.session p s full e h).2 ↔ NeverMisled p full (o.session p s full e h).2) ∧
      (NeverMisled p full (o.session p s full e h).2 → ∀ rs r, (o.session p s full e h).1 = .ok rs →
        rs.getLast? = some r → r.outcome = .success →
          ∀ t ∈ full.tasks, ∃ a ∈ (o.session p s full e h).2, a.Mirrors t) := by
  obtain ⟨hcourse, hreports⟩ := o.course ho hn s full e h
  have htrack := hcourse.keepsTrack rfl hp hvalid hkeeps
  refine ⟨⟨hcourse.neverMisled, htrack⟩, ?_⟩
  intro hmisled rs r hrs hlast hs
  have hends := congrArg List.getLast? (hreports rs hrs)
  rw [List.getLast?_map, List.getLast?_map, hlast, Option.map_some, Option.map_eq_some_iff] at hends
  obtain ⟨a, ha, hr⟩ := hends
  exact hcourse.all_mirrored (htrack hmisled) ha hr hs

/-- On a machine in memory the attempt has no log, or one that can be read. -/
def Attempt.hasSoundLog (a : Attempt Machine) : Bool :=
  a.showsLog || match a.ending with
    | .ok r => r.outcome.log?.isNone
    | .error _ => true

theorem Attempt.keeps_of_hasSoundLog {a : Attempt Machine} (h : a.hasSoundLog = true) :
    a.Keeps := by
  intro r path text hr hlog htext
  rw [hasSoundLog, hr, Bool.or_eq_true] at h
  rcases h with h | h
  · obtain ⟨r', hr', path', written, hlog', htext'⟩ := readsBack_of_showsLog h
    cases hr.symm.trans hr'
    cases hlog.symm.trans hlog'
    exact ⟨written, Except.ok.inj (htext.symm.trans htext')⟩
  · simp [hlog] at h

def single : Plan := { paired with settings := frugal }

/-- The log of another session names the second and the third image. The first log of this session
cannot be written. -/
def staleLog : Machine :=
  { Machine.empty with
    nodes := [(["errors", "mirroring_errors_0.txt"], .file 0), (["errors"], .folder)]
    contents := [("error mirroring image b (category: network): reset\n" ++
      "error mirroring image c (category: network): reset\n").toUTF8]
    faults := [none, some .denied] }

/-- The first image of a set is refused, except in the third attempt, and the others are copied. -/
def firstRefused : Nat → List Engine.Label
  | 1 => timing [(2, .aggregator), (5, .dispatcher), (6, .aggregator), (5, .dispatcher),
      (1, .begin 0), (1, .answer 0 refused), (1, .settle 0), (4, .dispatcher), (4, .aggregator),
      (4, .dispatcher), (6, .aggregator), (5, .dispatcher), (1, .begin 1), (1, .answer 1 .success),
      (1, .settle 1), (4, .dispatcher), (4, .aggregator), (4, .dispatcher), (6, .aggregator),
      (2, .dispatcher), (1, .begin 2), (1, .answer 2 .success), (1, .settle 2), (2, .dispatcher),
      (2, .aggregator)]
  | 2 => timing [(2, .aggregator), (5, .dispatcher), (6, .aggregator), (5, .dispatcher),
      (1, .begin 0), (1, .answer 0 refused), (1, .settle 0), (4, .dispatcher), (4, .aggregator),
      (4, .dispatcher), (6, .aggregator), (2, .dispatcher), (1, .begin 1), (1, .answer 1 .success),
      (1, .settle 1), (2, .dispatcher), (2, .aggregator)]
  | _ => timing [(2, .aggregator), (5, .dispatcher), (6, .aggregator), (2, .dispatcher),
      (1, .begin 0), (1, .answer 0 .success), (1, .settle 0), (2, .dispatcher), (2, .aggregator)]

/-- The stale log misleads the session. It loses the first image, and still ends in a success. -/
theorem not_keepsTrack_of_staleLog :
    ∃ a b c, ((Outside.scripted single firstRefused).session single ⟨3, ⟨0⟩⟩ threeImages
        () staleLog).2 = [a, b, c] ∧ ¬ KeepsTrack threeImages [a, b, c] ∧
      ¬ NeverMisled single threeImages [a, b, c] ∧
      c.ending.toOption.map Report.outcome = some .success := by
  have hrun : ((Outside.scripted single firstRefused).session single ⟨3, ⟨0⟩⟩ threeImages
      () staleLog).2.map (fun a => (a.set.tasks.map Task.origin, a.hasSoundLog,
        decide (a.Mirrors (plainImage "a")),
        decide (a.ending.toOption.map Report.outcome = some .success))) =
      [(["a", "b", "c"], true, false, false), (["b", "c"], true, false, false),
        (["b"], true, false, true)] := by
    decide +kernel
  have hlen := congrArg List.length hrun
  rw [List.length_map] at hlen
  obtain ⟨a, b, c, hs⟩ := List.length_eq_three.mp hlen
  simp only [hs, List.map_cons, List.map_nil, List.cons.injEq, Prod.mk.injEq,
    decide_eq_false_iff_not, decide_eq_true_eq] at hrun
  obtain ⟨⟨-, ha, hnone, -⟩, ⟨horigins, hb, -⟩, ⟨-, hc, -, hend⟩, -⟩ := hrun
  have hnot : ¬ KeepsTrack threeImages [a, b, c] := by
    intro hkeeps
    have hmem : plainImage "a" ∈ threeImages.tasks := by decide +kernel
    have hout : plainImage "a" ∉ b.set.tasks := by
      intro hin
      have horigin := List.mem_map_of_mem (f := Task.origin) hin
      rw [horigins] at horigin
      revert horigin
      decide
    obtain ⟨x, hx, hm⟩ := hkeeps [a] b [c] rfl _ hmem hout
    exact hnone (List.mem_singleton.mp hx ▸ hm)
  have ho := Outside.isEngine_scripted single firstRefused
  have hvalid : threeImages.fault? = none := by decide +kernel
  have hp : single.policy.IsUsable := Policy.isUsable_standard
  have hkeeps : ∀ x ∈ [a, b, c], x.Keeps := by
    simp [Attempt.keeps_of_hasSoundLog, ha, hb, hc]
  rw [← hs] at hkeeps
  have hiff := (keepsTrack_iff_neverMisled ho namesOnOneLine_machine hvalid hp hkeeps).1
  rw [hs] at hiff
  exact ⟨a, b, c, hs, hnot, mt hiff.mpr hnot, hend⟩

end ImageBatch.Session
