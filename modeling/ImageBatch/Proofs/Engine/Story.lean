import ImageBatch.Proofs.Engine.Dependents

/-!
# The stories of tasks

What a run tells of one task is a story of its own: the task is skipped, or it is started and
retried until it succeeds or fails. A task goes from stage to stage, and each stage belongs to a
part of the story. A move of the run takes one task to its next stage, and tells at most one thing,
about just this task.
-/

namespace ImageBatch

/-! ## Stories -/

/-- The task that a happening is about. -/
def Happening.origin? : Happening → Option String
  | taskStarted o _ => some o
  | taskRetrying o _ _ _ => some o
  | taskSucceeded o _ => some o
  | taskFailed o _ _ => some o
  | taskSkipped o _ => some o
  | runStarted _ _ => none
  | runCompleted _ _ _ => none

/-- How the task ends that a happening is about, if it tells that. -/
def Happening.ending? : Happening → Option Ending
  | taskSucceeded _ _ => some .succeeded
  | taskFailed _ _ f => some (.failed f)
  | taskSkipped _ reason => some (.skipped reason)
  | _ => none

namespace Engine

/-- What is told of a task up to the start of its call number `k`. -/
inductive Calls (o : String) : Nat → List Happening → Prop where
  | first : Calls o 1 [.taskStarted o 1]
  | again {k hs} (h : Calls o k hs) (delay : Nat) (f : Failure) :
    Calls o (k + 1) (hs ++ [.taskRetrying o k delay f, .taskStarted o (k + 1)])

/-- All that is told of a task, and how the task ends. A worker that gives up has told that it would
try again, and one that broke off is not told of with its calls. -/
inductive Story (o : String) : List Happening → Ending → Prop where
  | skipped (reason : Option String) : Story o [.taskSkipped o reason] (.skipped reason)
  | succeeded {k hs} (h : Calls o k hs) : Story o (hs ++ [.taskSucceeded o k]) .succeeded
  | failed {k hs} (h : Calls o k hs) (f : Failure) :
    Story o (hs ++ [.taskFailed o k f]) (.failed f)
  | gaveUp {k hs} (h : Calls o k hs) (delay : Nat) (f : Failure) :
    Story o (hs ++ [.taskRetrying o k delay f, .taskFailed o k f]) (.failed f)
  | brokeOff {k hs} (h : Calls o k hs) (f : Failure) :
    Story o (hs ++ [.taskFailed o 0 f]) (.failed f)

theorem Calls.filterMap_ending? {o : String} {k : Nat} {hs : List Happening} (h : Calls o k hs) :
    hs.filterMap Happening.ending? = [] := by
  induction h with
  | first => rfl
  | again h delay f ih =>
      rw [List.filterMap_append, ih]
      rfl

theorem Story.filterMap_ending? {o : String} {hs : List Happening} {e : Ending}
    (h : Story o hs e) : hs.filterMap Happening.ending? = [e] := by
  cases h with
  | skipped reason => rfl
  | succeeded h | failed h | gaveUp h | brokeOff h =>
      rw [List.filterMap_append, h.filterMap_ending?]
      rfl

/-! ## Stages -/

/-- Where a task is: its turn has not come, a worker has it, or its result is known. -/
inductive Stage where
  | waiting
  | working (p : Phase)
  | told (e : Ending)

/-- The part of the story that has been told by a stage. -/
def Stage.Tells (o : String) (hs : List Happening) : Stage → Prop
  | .waiting => hs = []
  | .working .spawned => hs = []
  | .working (.calling k) => Calls o k hs
  | .working (.pausing k _ f) =>
    ∃ before delay, Calls o k before ∧ hs = before ++ [.taskRetrying o k delay f]
  | .working (.over (.done r)) => Story o hs r.ending
  | .working (.over (.aborted _)) => ∃ k, Calls o k hs
  | .told e => Story o hs e

/-- The stages that follow each other, and what is told in between. -/
inductive Stage.Leads (o : String) : Stage → Option Happening → Stage → Prop where
  | hire : Leads o .waiting none (.working .spawned)
  | begin : Leads o (.working .spawned) (some (.taskStarted o 1)) (.working (.calling 1))
  | succeed {k r} (hr : r.ending = .succeeded) :
    Leads o (.working (.calling k)) (some (.taskSucceeded o k)) (.working (.over (.done r)))
  | fail {k f r} (hr : r.ending = .failed f) :
    Leads o (.working (.calling k)) (some (.taskFailed o k f)) (.working (.over (.done r)))
  | pause {k delay wait f} : Leads o (.working (.calling k)) (some (.taskRetrying o k delay f))
      (.working (.pausing k wait f))
  | abort {k words} : Leads o (.working (.calling k)) none (.working (.over (.aborted words)))
  | wake {k wait f} : Leads o (.working (.pausing k wait f)) (some (.taskStarted o (k + 1)))
      (.working (.calling (k + 1)))
  | giveUp {k wait f r} (hr : r.ending = .failed f) :
    Leads o (.working (.pausing k wait f)) (some (.taskFailed o k f)) (.working (.over (.done r)))
  | forward {r} : Leads o (.working (.over (.done r))) none (.told r.ending)
  | recover {words f} : Leads o (.working (.over (.aborted words))) (some (.taskFailed o 0 f))
      (.told (.failed f))
  | skip {reason} : Leads o .waiting (some (.taskSkipped o reason)) (.told (.skipped reason))

namespace Stage.Leads

variable {o : String} {a b : Stage} {news : Option Happening}

theorem origin?_eq (h : Leads o a news b) : ∀ e ∈ news, e.origin? = some o := by
  cases h <;> simp [Happening.origin?]

theorem tells (h : Leads o a news b) {hs : List Happening} (ha : a.Tells o hs) :
    b.Tells o (hs ++ news.toList) := by
  cases h with
  | hire =>
      cases ha
      rfl
  | begin =>
      cases ha
      exact .first
  | succeed hr =>
      have hstory := Story.succeeded ha
      simpa [Stage.Tells, hr] using hstory
  | fail hr =>
      have hstory := Story.failed ha
      simpa [Stage.Tells, hr] using hstory _
  | pause => exact ⟨hs, _, ha, rfl⟩
  | abort => exact ⟨_, (List.append_nil hs).symm ▸ ha⟩
  | @wake k wait f =>
      obtain ⟨before, delay, hcalls, rfl⟩ := ha
      have hagain := hcalls.again delay f
      simpa [Stage.Tells] using hagain
  | @giveUp k wait f r hr =>
      obtain ⟨before, delay, hcalls, rfl⟩ := ha
      have hstory := Story.gaveUp hcalls delay f
      simpa [Stage.Tells, hr] using hstory
  | forward => exact (List.append_nil hs).symm ▸ ha
  | recover =>
      obtain ⟨k, hcalls⟩ := ha
      exact .brokeOff hcalls _
  | skip =>
      cases ha
      exact .skipped _

end Stage.Leads

variable {s : Settings} {set : TaskSet} {policy : SkipPolicy} {cancelled : Bool} {x y : State}
  {l : Label} {t u : Task} {a b : Stage} {news : Option Happening}

/-! ## Where the tasks are -/

/-- Everybody in flight, and what each is about to do. -/
def State.jobs (x : State) : List (Nat × Phase) :=
  x.workers.map (fun w => (w.id, w.phase)) ++ x.finished.map (fun f => (f.1, .over f.2))

/-- The stage of a task in a state. -/
inductive State.Stands (x : State) : Task → Stage → Prop where
  | waiting {t : Task} (ht : t ∈ x.ahead) : Stands x t .waiting
  | working {id : Nat} {p : Phase} {t : Task} (hp : (id, p) ∈ x.jobs) (ht : (id, t) ∈ x.inFlight) :
    Stands x t (.working p)
  | told {r : Result} (hr : r ∈ x.results) : Stands x r.task (.told r.ending)

theorem State.map_fst_jobs (x : State) :
    x.jobs.map Prod.fst = x.workers.map Worker.id ++ x.finished.map Prod.fst := by
  simp [jobs, Function.comp_def]

theorem State.jobs_subset (hworkers : y.workers = x.workers)
    (hfinished : y.finished ⊆ x.finished) : y.jobs ⊆ x.jobs := by
  rw [jobs, jobs, hworkers]
  exact List.append_subset.mpr ⟨List.subset_append_left _ _,
    List.subset_append_of_subset_right _ (List.map_subset _ hfinished)⟩

theorem State.mem_jobs_of_finished {id : Nat} {e : Exit} (hf : (id, e) ∈ x.finished) :
    (id, .over e) ∈ x.jobs :=
  List.mem_append_right _ (List.mem_map.mpr ⟨_, hf, rfl⟩)

theorem State.HasRoster.nodup_jobs (hx : x.HasRoster) : (x.jobs.map Prod.fst).Nodup := by
  rw [State.map_fst_jobs]
  exact hx.ids.nodup_iff.mpr hx.nodup

theorem State.HasRoster.mem_jobs_iff (hx : x.HasRoster) {id : Nat} :
    id ∈ x.jobs.map Prod.fst ↔ id ∈ x.inFlight.map Prod.fst := by
  rw [State.map_fst_jobs]
  exact hx.ids.mem_iff

theorem State.HasRoster.exists_task (hx : x.HasRoster) {id : Nat} {p : Phase}
    (hp : (id, p) ∈ x.jobs) : ∃ t, (id, t) ∈ x.inFlight := by
  have hid := hx.mem_jobs_iff.mp (List.mem_map_of_mem (f := Prod.fst) hp)
  obtain ⟨f, hf, rfl⟩ := List.mem_map.mp hid
  exact ⟨f.2, hf⟩

theorem Dispatch.held_eq (d : Dispatch) : d.held = d.outgoing.map Result.task ++ d.turn := by
  cases d <;> rfl

theorem State.account_perm_stages (x : State) : x.account.Perm
    (x.results.map Result.task ++ x.ahead ++ x.inFlight.map Prod.snd) := by
  rw [List.perm_iff_count]
  intro t
  simp only [account, results, ahead, Dispatch.held_eq, List.map_append, List.count_append]
  omega

/-- The tasks of a state are told apart by their origins. -/
structure State.TellsApart (x : State) : Prop where
  origins : (x.account.map Task.origin).Nodup
  roster : x.HasRoster

namespace State.TellsApart

theorem nodup (hx : x.TellsApart) :
    ((x.results.map Result.task ++ x.ahead ++ x.inFlight.map Prod.snd).map Task.origin).Nodup :=
  (x.account_perm_stages.map Task.origin).nodup_iff.mp hx.origins

theorem ne_of_ahead (hx : x.TellsApart) {r : Result} (hr : r ∈ x.results) (ht : t ∈ x.ahead) :
    r.task.origin ≠ t.origin := by
  have hn := hx.nodup
  rw [List.append_assoc, List.map_append] at hn
  refine (List.nodup_append.mp hn).2.2 _ (List.mem_map_of_mem (List.mem_map_of_mem hr)) _ ?_
  exact List.mem_map_of_mem (List.mem_append_left _ ht)

theorem ne_of_inFlight (hx : x.TellsApart) {id : Nat} (ht : (id, t) ∈ x.inFlight) :
    (∀ r ∈ x.results, r.task.origin ≠ t.origin) ∧ ∀ u ∈ x.ahead, u.origin ≠ t.origin := by
  have hn := hx.nodup
  rw [List.map_append] at hn
  have hapart : ∀ u ∈ x.results.map Result.task ++ x.ahead, u.origin ≠ t.origin := by
    intro u hu
    refine (List.nodup_append.mp hn).2.2 _ (List.mem_map_of_mem hu) _ ?_
    exact List.mem_map_of_mem (List.mem_map_of_mem (f := Prod.snd) ht)
  exact ⟨fun r hr => hapart _ (List.mem_append_left _ (List.mem_map_of_mem hr)),
    fun u hu => hapart u (List.mem_append_right _ hu)⟩

theorem inFlight_eq (hx : x.TellsApart) {f g : Nat × Task} (hf : f ∈ x.inFlight)
    (hg : g ∈ x.inFlight) (he : f.2.origin = g.2.origin) : f = g := by
  have hn := hx.nodup
  rw [List.map_append, List.map_map] at hn
  exact List.inj_on_of_nodup_map (List.nodup_append.mp hn).2.1 hf hg he

theorem result_eq (hx : x.TellsApart) {r r' : Result} (hr : r ∈ x.results) (hr' : r' ∈ x.results)
    (he : r.task.origin = r'.task.origin) : r = r' := by
  have hn := hx.nodup
  rw [List.append_assoc, List.map_append, List.map_map] at hn
  exact List.inj_on_of_nodup_map (List.nodup_append.mp hn).1 hr hr' he

theorem stage_eq (hx : x.TellsApart) (ha : x.Stands t a) (hb : x.Stands u b)
    (he : t.origin = u.origin) : a = b := by
  cases ha with
  | waiting ht =>
      cases hb with
      | waiting hu => rfl
      | working hp hu => exact ((hx.ne_of_inFlight hu).2 _ ht he).elim
      | told hr => exact (hx.ne_of_ahead hr ht he.symm).elim
  | working hp ht =>
      cases hb with
      | waiting hu => exact ((hx.ne_of_inFlight ht).2 _ hu he.symm).elim
      | working hq hu =>
          obtain ⟨rfl, -⟩ := Prod.mk.inj (hx.inFlight_eq ht hu he)
          cases List.inj_on_of_nodup_map hx.roster.nodup_jobs hp hq rfl
          rfl
      | told hr => exact ((hx.ne_of_inFlight ht).1 _ hr he.symm).elim
  | told hr =>
      cases hb with
      | waiting hu => exact (hx.ne_of_ahead hr hu he).elim
      | working hq hu => exact ((hx.ne_of_inFlight hu).1 _ hr he).elim
      | told hr' => rw [hx.result_eq hr hr' he]

end State.TellsApart

/-! ## What a move does to the tasks -/

/-- A task goes to its next stage, and the others stay where they are. -/
structure State.Advances (x y : State) (t : Task) (news : Option Happening) : Prop where
  stages : ∃ a b, x.Stands t a ∧ y.Stands t b ∧ Stage.Leads t.origin a news b
  others : ∀ {u c}, y.Stands u c → u.origin ≠ t.origin → x.Stands u c
  happenings : y.happenings = news.toList ++ x.happenings

/-- No task goes to another stage, and nothing is told. -/
structure State.Rests (x y : State) : Prop where
  stages : ∀ {u c}, y.Stands u c → x.Stands u c
  happenings : y.happenings = x.happenings

theorem State.Stands.of_subset (hahead : y.ahead ⊆ x.ahead) (hjobs : y.jobs ⊆ x.jobs)
    (hflight : y.inFlight ⊆ x.inFlight) (hresults : y.results ⊆ x.results) {c : Stage}
    (h : y.Stands u c) : x.Stands u c := by
  cases h with
  | waiting hu => exact .waiting (hahead hu)
  | working hp hu => exact .working (hjobs hp) (hflight hu)
  | told hr => exact .told (hresults hr)

theorem State.Rests.of_eq (hahead : y.ahead = x.ahead) (hjobs : y.jobs = x.jobs)
    (hflight : y.inFlight = x.inFlight) (hresults : y.results = x.results)
    (hh : y.happenings = x.happenings) : x.Rests y :=
  ⟨.of_subset (fun _ ht => hahead ▸ ht) (fun _ hj => hjobs ▸ hj) (fun _ hf => hflight ▸ hf)
    (fun _ hr => hresults ▸ hr), hh⟩

theorem State.Advances.announce {r : Result} (ha : x.Stands r.task a)
    (hlead : Stage.Leads r.task.origin a news (.told r.ending)) (hahead : y.ahead ⊆ x.ahead)
    (hjobs : y.jobs ⊆ x.jobs) (hflight : y.inFlight ⊆ x.inFlight)
    (hresults : y.results = r :: x.results) (hh : y.happenings = news.toList ++ x.happenings) :
    x.Advances y r.task news := by
  refine ⟨⟨a, _, ha, .told (hresults ▸ List.mem_cons_self), hlead⟩, ?_, hh⟩
  intro u c hu hne
  cases hu with
  | waiting hu => exact .waiting (hahead hu)
  | working hp hu => exact .working (hjobs hp) (hflight hu)
  | told hr =>
      rw [hresults] at hr
      rcases List.mem_cons.mp hr with rfl | hr
      · exact (hne rfl).elim
      · exact .told hr

theorem State.Advances.pass {reason : Option String} (ht : t ∈ x.ahead) (hahead : y.ahead ⊆ x.ahead)
    (hjobs : y.jobs = x.jobs) (hflight : y.inFlight = x.inFlight)
    (hresults : y.results = .skip t reason :: x.results)
    (hh : y.happenings = .taskSkipped t.origin reason :: x.happenings) :
    x.Advances y t (some (.taskSkipped t.origin reason)) :=
  .announce (r := .skip t reason) (.waiting ht) .skip hahead (fun _ hj => hjobs ▸ hj)
    (fun _ hf => hflight ▸ hf) hresults hh

theorem State.Advances.work (hr : x.HasRoster) {w : Worker} (hw : w ∈ x.workers) {p q : Phase}
    (hp : w.phase = p) (hlead : Stage.Leads w.task.origin (.working p) news (.working q))
    (hworkers : y.workers = x.workers.map (Worker.inPhase w.id q))
    (hfinished : y.finished = x.finished) (hflight : y.inFlight = x.inFlight)
    (hahead : y.ahead = x.ahead) (hresults : y.results = x.results)
    (hh : y.happenings = news.toList ++ x.happenings) : x.Advances y w.task news := by
  subst hp
  have hin := hr.working w hw
  have hjob : (w.id, w.phase) ∈ x.jobs :=
    List.mem_append_left _ (List.mem_map_of_mem (f := fun v => (v.id, v.phase)) hw)
  have hnew : (w.id, q) ∈ y.jobs := by
    refine List.mem_append_left _ (List.mem_map.mpr ⟨w.inPhase w.id q, ?_, ?_⟩)
    · rw [hworkers]
      exact List.mem_map_of_mem hw
    · simp [Worker.inPhase]
  refine ⟨⟨_, _, .working hjob hin, .working hnew (hflight ▸ hin), hlead⟩, ?_, hh⟩
  intro u c hu hne
  cases hu with
  | waiting hu => exact .waiting (hahead ▸ hu)
  | told hr' => exact .told (hresults ▸ hr')
  | @working id q' u hq hu =>
      rw [hflight] at hu
      rw [State.jobs, hworkers, hfinished, List.mem_append, List.map_map, List.mem_map] at hq
      rcases hq with ⟨v, hv, he⟩ | hq
      · by_cases hid : v.id = w.id
        · have hid' : id = w.id := by
            rw [← hid]
            simpa using (congrArg Prod.fst he).symm
          subst hid'
          cases List.inj_on_of_nodup_map hr.nodup hu hin rfl
          exact (hne rfl).elim
        · simp only [Function.comp_apply, Worker.inPhase_of_ne hid] at he
          refine .working (List.mem_append_left _ (List.mem_map.mpr ⟨v, hv, he⟩)) hu
      · exact .working (List.mem_append_right _ hq) hu

theorem State.Advances.hire (hr : x.HasRoster) (ht : t ∈ x.ahead)
    (hworkers : y.workers = x.workers ++ [⟨x.nextId, t, .spawned⟩])
    (hfinished : y.finished = x.finished) (hflight : y.inFlight = x.inFlight ++ [(x.nextId, t)])
    (hahead : y.ahead ⊆ x.ahead) (hresults : y.results = x.results)
    (hh : y.happenings = x.happenings) : x.Advances y t none := by
  have hjobs : ∀ j, j ∈ y.jobs ↔ j ∈ x.jobs ∨ j = (x.nextId, .spawned) := by
    intro j
    simp only [jobs, hworkers, hfinished, List.map_append, List.map_cons, List.map_nil,
      List.mem_append, List.mem_singleton]
    tauto
  have hentries : ∀ f, f ∈ y.inFlight ↔ f ∈ x.inFlight ∨ f = (x.nextId, t) := by
    intro f
    rw [hflight, List.mem_append, List.mem_singleton]
  refine ⟨⟨_, _, .waiting ht, .working ((hjobs _).mpr (.inr rfl)) ((hentries _).mpr (.inr rfl)),
    .hire⟩, ?_, hh⟩
  intro u c hu hne
  cases hu with
  | waiting hu => exact .waiting (hahead hu)
  | told hr' => exact .told (hresults ▸ hr')
  | working hq hu =>
      rcases (hentries _).mp hu with hu | hu
      · rcases (hjobs _).mp hq with hq | hq
        · exact .working hq hu
        · cases hq
          exact (Nat.lt_irrefl _ (hr.fresh _ hu)).elim
      · cases hu
        exact (hne rfl).elim

theorem Dispatches.advances (h : Dispatches x y) (hr : x.HasRoster) :
    x.Rests y ∨ ∃ t news, x.Advances y t news := by
  have hahead := h.ahead_suffix.subset
  cases h with
  | takeUp hd | runOut hd | goOn hd | noneOver hd | acquire hd | fallAsleep hd | wake hd | ask hd
  | discarded hd | finish hd =>
      refine .inl ⟨.of_subset hahead (List.Subset.refl _) (List.Subset.refl _) ?_, rfl⟩
      rw [State.results, State.results, hd]
      exact List.Subset.refl _
  | close hd =>
      exact .inl (.of_eq rfl rfl rfl rfl rfl)
  | deliver hd | deliverInVain hd =>
      refine .inl ⟨.of_subset hahead (List.Subset.refl _) (List.Subset.refl _) ?_, rfl⟩
      rw [State.results, State.results, hd, Resume.outgoing_target]
      exact List.Subset.refl _
  | giveUp hd | bypass hd | skip hd =>
      refine .inr ⟨_, _, .pass ?_ hahead rfl rfl ?_ rfl⟩
      · rw [State.ahead, hd]
        exact List.mem_cons_self
      · rw [State.results, State.results, hd]
        rfl
  | discard hd hp =>
      refine .inr ⟨_, _, .pass ?_ hahead rfl rfl ?_ rfl⟩
      · rw [State.ahead, hp]
        exact List.mem_append_right _ List.mem_cons_self
      · rw [State.results, State.results, hd]
        rfl
  | spawn hl =>
      refine .inr ⟨_, _, .hire hr ?_ rfl rfl rfl hahead ?_ rfl⟩
      · rw [State.ahead, hl.turn]
        exact List.mem_cons_self
      · rcases hl.dispatch_eq with hd | hd <;> rw [State.results, State.results, hd] <;> rfl
  | forget hd hf =>
      refine .inl ⟨.of_subset hahead ?_ (List.filter_subset_self _) ?_, rfl⟩
      · exact State.jobs_subset rfl (hf ▸ List.subset_cons_self _ _)
      · rw [State.results, State.results, hd.outgoing, Resume.outgoing_target]
        exact List.Subset.refl _
  | forward hd hf =>
      have hin := hr.settled _ (hf ▸ List.mem_cons_self) _ rfl
      have hjob := State.mem_jobs_of_finished (hf ▸ List.mem_cons_self)
      refine .inr ⟨_, _, .announce (.working hjob hin) .forward hahead ?_
        (List.filter_subset_self _) ?_ rfl⟩
      · exact State.jobs_subset rfl (hf ▸ List.subset_cons_self _ _)
      · rw [State.results, State.results, hd.outgoing]
        rfl
  | @recover k id words rest t hd hf ht =>
      have hin : (id, t) ∈ x.inFlight := mem_of_lookup_eq_some ht
      have hjob := State.mem_jobs_of_finished (hf ▸ List.mem_cons_self)
      refine .inr ⟨_, _, .announce (r := .failure t (abortFailure words) 0) (.working hjob hin)
        .recover hahead ?_ (List.filter_subset_self _) ?_ rfl⟩
      · exact State.jobs_subset rfl (hf ▸ List.subset_cons_self _ _)
      · rw [State.results, State.results, hd.outgoing]
        rfl

/-- The answer to a call ends the task, and that is told, or it is told that the task will be tried
again. -/
theorem leads_of_finish {c : Bool} {k : Nat} {a : Answer} {h : Happening} {e : Exit}
    (hr : react s c t k a = .finish h e) :
    Stage.Leads t.origin (.working (.calling k)) (some h) (.working (.over e)) := by
  cases a with
  | success =>
      cases hr
      exact .succeed rfl
  | panic words => cases hr
  | failure f =>
      simp only [react] at hr
      split at hr
      · cases hr
        exact .fail rfl
      · split at hr <;> cases hr

theorem leads_of_pause {c : Bool} {k : Nat} {a : Answer} {h : Happening} {wait : Span} {f : Failure}
    (hr : react s c t k a = .pause h wait f) :
    Stage.Leads t.origin (.working (.calling k)) (some h) (.working (.pausing k wait f)) := by
  cases a with
  | success | panic words => cases hr
  | failure f =>
      simp only [react] at hr
      split at hr
      · cases hr
      · split at hr <;> cases hr
        exact .pause

theorem Works.advances (h : Works s x l y) (hr : x.HasRoster) :
    x.Rests y ∨ ∃ t news, x.Advances y t news := by
  cases h with
  | begin hw hp => exact .inr ⟨_, _, .work hr hw hp .begin rfl rfl rfl rfl rfl rfl⟩
  | finish hw hp ha =>
      exact .inr ⟨_, _, .work hr hw hp (leads_of_finish ha) rfl rfl rfl rfl rfl rfl⟩
  | pause hw hp ha =>
      exact .inr ⟨_, _, .work hr hw hp (leads_of_pause ha) rfl rfl rfl rfl rfl rfl⟩
  | abort hw hp ha => exact .inr ⟨_, _, .work hr hw hp .abort rfl rfl rfl rfl rfl rfl⟩
  | wake hw hp => exact .inr ⟨_, _, .work hr hw hp .wake rfl rfl rfl rfl rfl rfl⟩
  | giveUp hw hp => exact .inr ⟨_, _, .work hr hw hp (.giveUp rfl) rfl rfl rfl rfl rfl rfl⟩
  | @settle w e hw hp =>
      refine .inl ⟨.of_subset ?_ ?_ ?_ ?_, rfl⟩
      · exact List.Subset.refl _
      · intro j hj
        simp only [State.jobs, List.map_append, List.mem_append, List.map_cons, List.map_nil,
          List.mem_singleton] at hj
        rcases hj with hj | hj | rfl
        · exact List.mem_append_left _ (List.map_subset _ (List.filter_subset_self _) hj)
        · exact List.mem_append_right _ hj
        · exact List.mem_append_left _ (List.mem_map.mpr ⟨w, hw, by rw [hp]⟩)
      · exact List.Subset.refl _
      · exact List.Subset.refl _

/-- A move takes at most one task to its next stage, and tells nothing but of this task. -/
theorem Moves.advances (h : Moves s x l y) (hr : x.HasRoster) :
    x.Rests y ∨ ∃ t news, x.Advances y t news := by
  cases h with
  | cancel hc => exact .inl (.of_eq rfl rfl rfl rfl rfl)
  | dispatcher h => exact h.advances hr
  | aggregator h => exact .inl (.of_eq rfl rfl rfl rfl rfl)
  | worker h => exact h.advances hr

/-! ## The stories of a run -/

/-- What has been told of a task. -/
def State.story (x : State) (o : String) : List Happening :=
  x.happenings.reverse.filter (fun h => h.origin? == some o)

/-- The story of each task is as far as its stage. -/
def State.Narrates (x : State) : Prop :=
  ∀ t c, x.Stands t c → c.Tells t.origin (x.story t.origin)

theorem State.Rests.narrates (h : x.Rests y) (hx : x.Narrates) : y.Narrates := by
  intro u c hu
  rw [story, h.happenings]
  exact hx u c (h.stages hu)

namespace State.Advances

theorem story_self (h : x.Advances y t news) :
    y.story t.origin = x.story t.origin ++ news.toList := by
  obtain ⟨a, b, -, -, hleads⟩ := h.stages
  rw [story, story, h.happenings, List.reverse_append, List.filter_append]
  cases news with
  | none => rfl
  | some e => simp [hleads.origin?_eq e rfl]

theorem story_other (h : x.Advances y t news) {o : String} (ho : o ≠ t.origin) :
    y.story o = x.story o := by
  obtain ⟨a, b, -, -, hleads⟩ := h.stages
  rw [story, story, h.happenings, List.reverse_append, List.filter_append]
  cases news with
  | none => exact List.append_nil _
  | some e => simp [hleads.origin?_eq e rfl, Ne.symm ho]

theorem narrates (h : x.Advances y t news) (hy : y.TellsApart) (hx : x.Narrates) :
    y.Narrates := by
  obtain ⟨a, b, ha, hb, hleads⟩ := h.stages
  intro u c hu
  by_cases he : u.origin = t.origin
  · cases hy.stage_eq hu hb he
    rw [he, h.story_self]
    exact hleads.tells (hx t a ha)
  · rw [h.story_other he]
    exact hx u c (h.others hu he)

end State.Advances

theorem State.narrates_start (s : Settings) (set : TaskSet) (policy : SkipPolicy)
    (cancelled : Bool) : (State.start s set policy cancelled).Narrates := by
  intro t c h
  cases h with
  | waiting ht => rfl
  | working hp ht => cases ht
  | told hr =>
      have hnone : (State.start s set policy cancelled).results = [] := by
        rcases State.dispatch_start s set policy cancelled with hd | hd <;>
          rw [State.results, hd] <;> rfl
      rw [hnone] at hr
      cases hr

theorem Reachable.tellsApart (h : Reachable s set policy cancelled x)
    (hn : (set.tasks.map Task.origin).Nodup) : x.TellsApart :=
  ⟨(h.account_perm.map Task.origin).nodup_iff.mpr hn, h.hasRoster⟩

theorem Reachable.narrates (h : Reachable s set policy cancelled x)
    (hn : (set.tasks.map Task.origin).Nodup) : x.Narrates := by
  induction h with
  | start => exact State.narrates_start s set policy cancelled
  | step hx hs ih =>
      rcases (moves_of_step? hs).advances hx.hasRoster with hrests | ⟨t, news, hadvances⟩
      · exact hrests.narrates ih
      · exact hadvances.narrates ((hx.step hs).tellsApart hn) ih

/-! ## What is told in all -/

theorem State.Stands.mem_account (h : x.Stands t a) : t ∈ x.account := by
  rw [x.account_perm_stages.mem_iff, List.mem_append, List.mem_append]
  cases h with
  | waiting ht => exact .inl (.inr ht)
  | working hp ht => exact .inr (List.mem_map_of_mem (f := Prod.snd) ht)
  | told hr => exact .inl (.inl (List.mem_map_of_mem hr))

theorem Reachable.exists_task (h : Reachable s set policy cancelled x) :
    ∀ e ∈ x.happenings, ∃ t ∈ set.tasks, e.origin? = some t.origin := by
  induction h with
  | start => simp [State.start]
  | step hx hs ih =>
      rcases (moves_of_step? hs).advances hx.hasRoster with hrests | ⟨t, news, hadvances⟩
      · exact hrests.happenings ▸ ih
      · obtain ⟨a, b, ha, -, hleads⟩ := hadvances.stages
        intro e he
        rw [hadvances.happenings] at he
        rcases List.mem_append.mp he with he | he
        · exact ⟨t, hx.account_perm.mem_iff.mp ha.mem_account,
            hleads.origin?_eq e (Option.mem_toList.mp he)⟩
        · exact ih e he

theorem perm_flatMap_filter (hs : List Happening) (os : List String) (hn : os.Nodup)
    (ho : ∀ e ∈ hs, ∃ o ∈ os, e.origin? = some o) :
    hs.Perm (os.flatMap (fun o => hs.filter (fun e => e.origin? == some o))) := by
  induction os generalizing hs with
  | nil =>
      cases hs with
      | nil => exact List.Perm.refl _
      | cons e hs =>
          obtain ⟨o, hin, -⟩ := ho e List.mem_cons_self
          cases hin
  | cons o os ih =>
      obtain ⟨hfresh, hn⟩ := List.nodup_cons.mp hn
      have hrest := ih (hs.filter (fun e => !(e.origin? == some o))) hn (by
        intro e he
        obtain ⟨hin, hne⟩ := List.mem_filter.mp he
        obtain ⟨o', ho', he'⟩ := ho e hin
        rcases List.mem_cons.mp ho' with rfl | ho'
        · simp [he'] at hne
        · exact ⟨o', ho', he'⟩)
      have hothers : os.flatMap (fun o' => (hs.filter (fun e => !(e.origin? == some o))).filter
          (fun e => e.origin? == some o')) =
          os.flatMap (fun o' => hs.filter (fun e => e.origin? == some o')) := by
        refine List.flatMap_congr fun o' ho' => ?_
        rw [List.filter_filter]
        refine List.filter_congr fun e he => ?_
        have hne : o' ≠ o := fun heq => hfresh (heq ▸ ho')
        by_cases heq : e.origin? = some o' <;> simp [heq, hne]
      rw [hothers] at hrest
      rw [List.flatMap_cons]
      exact (List.filter_append_perm _ hs).symm.trans (hrest.append_left _)

theorem Moves.finished (h : Moves s x l y) (hf : x.aggregator.phase = .finished) :
    y.aggregator.phase = .finished := by
  cases h with
  | cancel hc => exact hf
  | dispatcher h => cases h <;> exact hf
  | worker h => cases h <;> exact hf
  | aggregator h =>
      cases h with
      | take hp | listen hp | breakOff hp | hear hp | rest hp | wake hp | catchUp hp | answer hp =>
          cases hp.symm.trans hf

theorem Reachable.happenings_of_finished {ls : List Label} (h : Reachable s set policy cancelled x)
    (hf : x.aggregator.phase = .finished) (hs : steps? s x ls = some y) :
    y.happenings = x.happenings := by
  refine Reachable.steps_induction (P := fun x _ => x.aggregator.phase = .finished →
    y.happenings = x.happenings) (fun _ => rfl) ?_ h hs hf
  intro x z l ls hx hm ih hf
  rw [ih (hm.finished hf)]
  rcases hm.advances hx.hasRoster with hrests | ⟨t, news, hadvances⟩
  · exact hrests.happenings
  · obtain ⟨-, hheld, hflight, hpending, -⟩ := hx.tally_of_finished hf
    obtain ⟨a, b, ha, -, hleads⟩ := hadvances.stages
    cases ha with
    | waiting ht =>
        rw [Dispatch.held_eq, List.append_eq_nil_iff] at hheld
        rw [State.ahead, hheld.2, hpending] at ht
        cases ht
    | working hp ht =>
        rw [hflight] at ht
        cases ht
    | told hr => cases hleads

/-- Once every result is in, each result comes with the story of its task. -/
theorem Reachable.story_of_sent (h : Reachable s set policy cancelled x)
    (hn : (set.tasks.map Task.origin).Nodup) {r : Result} (hr : r ∈ x.sent) :
    Story r.task.origin (x.story r.task.origin) r.ending :=
  h.narrates hn _ _ (.told (List.mem_append_right _ hr))

theorem Reachable.endings_perm (h : Reachable s set policy cancelled x)
    (hn : (set.tasks.map Task.origin).Nodup) (hf : x.aggregator.phase = .finished) :
    (x.happenings.reverse.filterMap Happening.ending?).Perm (x.sent.map Result.ending) := by
  have hparts := perm_flatMap_filter x.happenings.reverse (set.tasks.map Task.origin) hn (by
    intro e he
    obtain ⟨t, ht, heq⟩ := h.exists_task e (List.mem_reverse.mp he)
    exact ⟨t.origin, List.mem_map_of_mem ht, heq⟩)
  obtain ⟨hsent, -⟩ := h.tally_of_finished hf
  have horigins := (hsent.map Task.origin).symm.flatMap_right x.story
  have hall := (hparts.trans horigins).filterMap Happening.ending?
  have heach : ((x.sent.map Result.task).map Task.origin).flatMap x.story =
      x.sent.flatMap (fun r => x.story r.task.origin) := by
    rw [List.map_map, List.flatMap_map]
    rfl
  rw [heach, List.filterMap_flatMap] at hall
  have hone : x.sent.flatMap (fun r => (x.story r.task.origin).filterMap Happening.ending?) =
      x.sent.flatMap (fun r => [r.ending]) :=
    List.flatMap_congr fun r hr => (h.story_of_sent hn hr).filterMap_ending?
  rw [hone, ← List.map_eq_flatMap] at hall
  exact hall

end Engine

end ImageBatch
