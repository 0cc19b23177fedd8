import ImageBatch.Proofs.Engine.Cancellation
import ImageBatch.Proofs.Engine.Progress
import ImageBatch.Proofs.Engine.Overtaking
import ImageBatch.Proofs.Engine.Story

/-!
# Where a cancelled run is cut

The dispatcher asks about the tasks in their order, and once it has seen that the run is cancelled
it asks no more. So the consultations of a run are about the first tasks of the set, and the tasks
behind them are just those that are called off.
-/

namespace ImageBatch

/-- The task was passed over because the run was cancelled. -/
def Result.isCalledOff (r : Result) : Bool := r.reason? == some Engine.cancelledReason

theorem SkipPolicy.reason_ne_cancelledReason (bundle dependency : String) :
    SkipPolicy.reason bundle dependency ≠ Engine.cancelledReason := by
  intro h
  have hhead := congrArg (fun s => s.toList.head?) h
  simp [reason, Engine.cancelledReason, String.toList_append] at hhead

theorem SkipPolicy.ne_cancelledReason_of_skip {p : SkipPolicy} {t : Task} {names : NameSet}
    {prior : List Record} {reason : String} (h : p.decide t names prior = .skip reason) :
    reason ≠ Engine.cancelledReason := by
  obtain ⟨-, hblocked⟩ := decide_eq_skip_iff.mp h
  obtain ⟨r, b, -, rfl⟩ := blocked?_eq_some_iff.mp hblocked
  exact reason_ne_cancelledReason b r.task.origin

theorem Result.isCalledOff_of_isSkip {r : Result} (h : r.isSkip = false) :
    r.isCalledOff = false := by
  obtain ⟨t, e, n⟩ := r
  cases e with
  | skipped reason => cases h
  | succeeded | failed f => rfl

namespace Engine

variable {s : Settings} {set : TaskSet} {policy : SkipPolicy} {cancelled : Bool} {x y : State}
  {l : Label} {t : Task} {cs ds : List Consultation}

/-! ## Consultations first, and then what is called off -/

/-- The results of the tasks that were called off, in the order in which they came. -/
def State.calledOff (x : State) : List Result := x.results.reverse.filter Result.isCalledOff

/-- The dispatcher asks about no more tasks. -/
def Dispatch.isPast (d : Dispatch) : Bool := d.discards || d.isLate

/-- The tasks are those about which the dispatcher has been answered, then those that are called
off, and then those ahead. -/
structure State.IsCut (set : TaskSet) (x : State) (cs : List Consultation) : Prop where
  order : ∃ past, cs = x.consultation ++ past ∧
    past.reverse.map Consultation.task ++ (x.calledOff.map Result.task ++ x.ahead) = set.tasks
  passed : ∀ r ∈ x.calledOff, r = passedOver r.task
  discarding : x.dispatch.discards = true → x.cancelled = true
  past : x.calledOff ≠ [] → x.cancelled = true ∧ x.dispatch.isPast = true

theorem State.calledOff_cons {r : Result} (h : y.results = r :: x.results) :
    y.calledOff = x.calledOff ++ [r].filter Result.isCalledOff := by
  rw [calledOff, h, List.reverse_cons, List.filter_append]
  rfl

theorem State.calledOff_of_not {r : Result} (h : y.results = r :: x.results)
    (hr : r.isCalledOff = false) : y.calledOff = x.calledOff := by
  rw [calledOff_cons h, List.filter_cons_of_neg (by simp [hr])]
  exact List.append_nil _

theorem State.calledOff_of_eq (h : y.results = x.results) : y.calledOff = x.calledOff := by
  rw [calledOff, h, calledOff]

theorem LooksForWorkers.isPast {d : Dispatch} {k : Resume} (h : LooksForWorkers d k) (r : Result)
    (b : Bool) : (Dispatch.delivering r b k).isPast = d.isPast := by
  cases h <;> rfl

theorem Resume.isPast_target (k : Resume) (r : Result) (b : Bool) :
    k.target.isPast = (Dispatch.delivering r b k).isPast := by
  cases k <;> rfl

namespace State.IsCut

/-- The dispatcher goes on without an answer and with the same tasks ahead. -/
theorem go_on (hx : x.IsCut set cs) (hcalled : y.calledOff = x.calledOff)
    (hahead : y.ahead = x.ahead) (hc : y.cancelled = x.cancelled)
    (hdiscards : y.dispatch.discards = true → x.dispatch.discards = true)
    (hpast : x.dispatch.isPast = true → y.dispatch.isPast = true)
    (hcs : ∀ past, cs = x.consultation ++ past → ds = y.consultation ++ past) :
    y.IsCut set ds := by
  refine ⟨?_, ?_, ?_, ?_⟩
  · obtain ⟨past, hpast, horder⟩ := hx.order
    rw [hcalled, hahead]
    exact ⟨past, hcs past hpast, horder⟩
  · rw [hcalled]
    exact hx.passed
  · intro h
    rw [hc]
    exact hx.discarding (hdiscards h)
  · intro h
    rw [hcalled] at h
    exact ⟨hc.trans (hx.past h).1, hpast (hx.past h).2⟩

theorem keep (hx : x.IsCut set cs) (hasks : ∀ t, x.dispatch ≠ .asking t)
    (hwaits : ∀ t, x.dispatch ≠ .waiting t) (hwaits' : ∀ t, y.dispatch ≠ .waiting t)
    (hcalled : y.calledOff = x.calledOff) (hahead : y.ahead = x.ahead)
    (hc : y.cancelled = x.cancelled)
    (hdiscards : y.dispatch.discards = true → x.dispatch.discards = true)
    (hpast : x.dispatch.isPast = true → y.dispatch.isPast = true) :
    y.IsCut set (x.writeDown y cs .dispatcher) := by
  rw [State.writeDown_of_not_asking hasks hwaits]
  refine hx.go_on hcalled hahead hc hdiscards hpast fun past hcs => ?_
  rw [x.consultation_eq_nil hwaits] at hcs
  rw [y.consultation_eq_nil hwaits']
  exact hcs

/-- The dispatcher takes back a worker, whose result is no such skip. -/
theorem takeBack (hx : x.IsCut set cs) {k : Resume} {r : Result} {freesSlot : Bool}
    (hlooks : LooksForWorkers x.dispatch k) (hd : y.dispatch = .delivering r freesSlot k)
    (hr : r.isCalledOff = false) (hsent : y.sent = x.sent) (hpending : y.pending = x.pending)
    (hc : y.cancelled = x.cancelled) : y.IsCut set (x.writeDown y cs .dispatcher) := by
  refine hx.keep hlooks.ne_asking hlooks.ne_waiting (by simp [hd]) ?_ ?_ hc ?_ ?_
  · refine State.calledOff_of_not (r := r) ?_ hr
    rw [State.results, State.results, hd, hlooks.outgoing, hsent]
    rfl
  · rw [State.ahead, State.ahead, hd, hlooks.turn, hpending]
    rfl
  · rw [hd, hlooks.discards_delivering]
    exact fun h => by cases h
  · rw [hd, hlooks.isPast]
    exact id

theorem callOff (hx : x.IsCut set cs) (hresults : y.results = passedOver t :: x.results)
    (hahead : x.ahead = t :: y.ahead) (hc : y.cancelled = true)
    (hasks : ∀ u, x.dispatch ≠ .asking u) (hwaits : ∀ u, x.dispatch ≠ .waiting u)
    (hd : y.dispatch.discards = true) : y.IsCut set (x.writeDown y cs .dispatcher) := by
  have hcalled : y.calledOff = x.calledOff ++ [passedOver t] := State.calledOff_cons hresults
  have hwaiting : ∀ u, y.dispatch ≠ .waiting u := by
    intro u hu
    rw [hu] at hd
    cases hd
  rw [State.writeDown_of_not_asking hasks hwaits]
  refine ⟨?_, ?_, fun _ => hc, fun _ => ⟨hc, ?_⟩⟩
  · obtain ⟨past, hcs, horder⟩ := hx.order
    rw [x.consultation_eq_nil hwaits] at hcs
    refine ⟨past, ?_, ?_⟩
    · rw [y.consultation_eq_nil hwaiting]
      exact hcs
    · rw [← horder, hcalled, hahead]
      simp [passedOver]
  · intro r hr
    rw [hcalled] at hr
    rcases List.mem_append.mp hr with hr | hr
    · exact hx.passed r hr
    · rw [List.mem_singleton.mp hr]
      rfl
  · rw [Dispatch.isPast, hd]
    rfl

theorem conclude (hx : x.IsCut set cs) (hd : x.dispatch = .waiting t)
    (hcalled : y.calledOff = x.calledOff) (hahead : y.ahead = x.pending)
    (hd' : ∀ u, y.dispatch ≠ .waiting u) (hdiscards : y.dispatch.discards = false) :
    y.IsCut set (x.writeDown y cs .dispatcher) := by
  have hnone : x.calledOff = [] := by
    by_contra hne
    have hpast := (hx.past hne).2
    rw [hd] at hpast
    cases hpast
  have hopen : x.consultation = [⟨t, x.sent, .awaited, none⟩] := by
    rw [State.consultation, hd]
  obtain ⟨past, hcs, horder⟩ := hx.order
  rw [hopen, List.singleton_append] at hcs
  refine ⟨⟨⟨t, x.sent, .ofReply x.reply, x.hired y⟩ :: past, ?_, ?_⟩, ?_, ?_, ?_⟩
  · simp [y.consultation_eq_nil hd', State.writeDown, hd, hcs]
  · rw [← horder, hcalled, hnone, hahead, State.ahead, hd]
    simp [Dispatch.turn]
  · rw [hcalled, hnone]
    exact List.forall_mem_nil _
  · rw [hdiscards]
    exact fun h => by cases h
  · rw [hcalled, hnone]
    exact fun h => (h rfl).elim

end State.IsCut

theorem Dispatches.isCut (h : Dispatches x y) (hx : x.IsCut set cs) (hr : x.HasRoster)
    (he : x.IsEarnest) (ht : x.Talks set policy)
    (hopen : x.dispatch.held ≠ [] → x.aggregator.hasEnded = false) :
    y.IsCut set (x.writeDown y cs .dispatcher) := by
  cases h with
  | takeUp hd hp =>
      refine hx.keep (by simp [hd]) (by simp [hd]) (by simp) (State.calledOff_of_eq ?_) ?_ rfl
        (fun h => by cases h) ?_
      · rw [State.results, State.results, hd]
        rfl
      · rw [State.ahead, State.ahead, hd, hp]
        rfl
      · simp [hd, Dispatch.isPast, Dispatch.discards, Dispatch.isLate]
  | runOut hd | goOn hd | noneOver hd | acquire hd | fallAsleep hd | wake hd | discarded hd
  | finish hd =>
      refine hx.keep (by simp [hd]) (by simp [hd]) (by simp) (State.calledOff_of_eq ?_) ?_ rfl
        (fun h => by cases h) ?_
      · rw [State.results, State.results, hd]
        rfl
      · rw [State.ahead, State.ahead, hd]
        rfl
      · simp [hd, Dispatch.isPast, Dispatch.discards, Dispatch.isLate]
  | close hd => exact hx.keep (by simp [hd]) (by simp [hd]) (by simp [hd]) rfl rfl rfl id id
  | @giveUp t hd hc =>
      refine hx.callOff (t := t) ?_ ?_ hc (by simp [hd]) (by simp [hd]) rfl
      · rw [State.results, State.results, hd]
        rfl
      · rw [State.ahead, State.ahead, hd]
        rfl
  | @discard t ts hd hp =>
      have hc := hx.discarding (by rw [hd]; rfl)
      refine hx.callOff (t := t) ?_ ?_ hc (by simp [hd]) (by simp [hd]) rfl
      · rw [State.results, State.results, hd]
        rfl
      · rw [State.ahead, State.ahead, hd, hp]
        rfl
  | forward hd hf =>
      have hskip := he.seen _ (hf ▸ List.mem_cons_self) _ rfl
      exact hx.takeBack hd rfl (Result.isCalledOff_of_isSkip hskip) rfl rfl rfl
  | recover hd => exact hx.takeBack hd rfl rfl rfl rfl rfl
  | forget hd hf hlookup => exact absurd hlookup (hr.lookup_ne_none hf)
  | @deliver r freesSlot k hd | @deliverInVain r freesSlot k hd =>
      refine hx.keep (by simp [hd]) (by simp [hd]) k.target_ne_waiting (State.calledOff_of_eq ?_) ?_
        rfl ?_ ?_
      · rw [State.results, State.results, hd, Resume.outgoing_target]
        rfl
      · rw [State.ahead, State.ahead, hd, Resume.turn_target]
        rfl
      · rw [hd, k.discards_target r freesSlot]
        exact id
      · rw [hd, k.isPast_target r freesSlot]
        exact id
  | ask hd =>
      refine hx.go_on (State.calledOff_of_eq ?_) ?_ rfl (fun h => by cases h) ?_ fun past hcs => ?_
      · rw [State.results, State.results, hd]
        rfl
      · rw [State.ahead, State.ahead, hd]
        rfl
      · simp [hd, Dispatch.isPast, Dispatch.discards, Dispatch.isLate]
      · simp [State.writeDown, hd, hcs, State.consultation]
  | @spawn t reply hl =>
      obtain ⟨hd, -⟩ := hl.reply_eq ht (hopen (by rw [hl.held]; simp))
      refine hx.conclude hd (State.calledOff_of_eq ?_) rfl (by simp) rfl
      rw [State.results, State.results, hd]
      rfl
  | @bypass t hd =>
      refine hx.conclude hd (State.calledOff_of_not (r := .skip t none) ?_ rfl) rfl (by simp) rfl
      rw [State.results, State.results, hd]
      rfl
  | @skip t reason hd hreply =>
      refine hx.conclude hd (State.calledOff_of_not (r := .skip t (some reason)) ?_ ?_) rfl
        (by simp) rfl
      · rw [State.results, State.results, hd]
        rfl
      · obtain ⟨hruling, -⟩ := ht.answer_eq hd hreply
        have hne := SkipPolicy.ne_cancelledReason_of_skip (Reply.decision.inj hruling).symm
        simpa [Result.isCalledOff, Result.skip, Result.reason?] using hne

theorem Chronicle.isCut (h : Chronicle s set policy cancelled x cs) : x.IsCut set cs := by
  induction h with
  | start =>
      have hstart := State.dispatch_start s set policy cancelled
      have hsilent : (State.start s set policy cancelled).consultation = [] :=
        State.consultation_eq_nil fun t ht => by simp [ht] at hstart
      have hnone : (State.start s set policy cancelled).calledOff = [] := by
        rcases hstart with hd | hd <;> rw [State.calledOff, State.results, hd] <;> rfl
      refine ⟨⟨[], by rw [hsilent]; rfl, ?_⟩, ?_, ?_, ?_⟩
      · rw [hnone]
        rcases hstart with hd | hd <;> rw [State.ahead, hd] <;> rfl
      · rw [hnone]
        exact List.forall_mem_nil _
      · rcases hstart with hd | hd <;> rw [hd] <;> exact fun h => by cases h
      · exact fun hne => (hne hnone).elim
  | @step x y cs l h hs ih =>
      have hx := h.reachable
      cases moves_of_step? hs with
      | cancel hc => exact ⟨ih.order, ih.passed, fun _ => rfl, fun hne => ⟨rfl, (ih.past hne).2⟩⟩
      | dispatcher hm => exact hm.isCut ih hx.hasRoster hx.isEarnest hx.talks hx.hasEnded_eq_false
      | aggregator hm => exact ⟨ih.order, ih.passed, ih.discarding, ih.past⟩
      | worker hm =>
          have hsame : x.writeDown y cs l = cs := by
            cases hm <;> rfl
          rw [hsame]
          cases hm <;> exact ⟨ih.order, ih.passed, ih.discarding, ih.past⟩

/-! ## The cut -/

/-- The run is cut at a position, as far as it has come: only tasks before the position have been
asked about, in their order, and handed to a worker, and those called off are the first ones from
there on. -/
structure State.CutAt (set : TaskSet) (x : State) (cs : List Consultation) (k : Nat) : Prop where
  le : k ≤ set.tasks.length
  asked : cs.reverse.map Consultation.task <+: set.tasks.take k
  calledOff : x.calledOff <+: (set.tasks.drop k).map passedOver
  others : ((x.results.filter (fun r => !r.isCalledOff)).map Result.task).Subperm (set.tasks.take k)
  handed : ∀ i ∈ x.calls, ∃ j < k, set.tasks[j]? = some i.task ∧
    ∃ c, cs.reverse[j]? = some c ∧ c.Hires i.worker i.task
  cancelled : k < set.tasks.length → x.cancelled = true

/-- The run is cut at a position, and every task has its result: those before the position have been
decided about, and the others are called off. -/
structure State.CutThrough (set : TaskSet) (policy : SkipPolicy) (x : State)
    (cs : List Consultation) (k : Nat) : Prop where
  asked : cs.reverse.map Consultation.task = set.tasks.take k
  answered : ∀ c ∈ cs, c.IsSound set policy
  calledOff : x.calledOff = (set.tasks.drop k).map passedOver
  others : ((x.results.filter (fun r => !r.isCalledOff)).map Result.task).Perm (set.tasks.take k)

theorem State.consultation_isPrefix (x : State) :
    x.consultation.reverse.map Consultation.task <+: x.ahead := by
  unfold consultation
  split
  · rename_i t hd
    rw [ahead, hd]
    exact List.prefix_append [t] x.pending
  · exact List.nil_prefix

namespace State.IsCut

theorem consultation_eq_nil (hx : x.IsCut set cs) (hne : x.calledOff ≠ []) :
    x.consultation = [] := by
  apply State.consultation_eq_nil
  intro t hd
  have hpast := (hx.past hne).2
  rw [hd] at hpast
  cases hpast

theorem asked (hx : x.IsCut set cs) : cs.reverse.map Consultation.task <+: set.tasks := by
  obtain ⟨past, hcs, horder⟩ := hx.order
  rw [hcs, List.reverse_append, List.map_append, ← horder, List.prefix_append_right_inj]
  by_cases hnone : x.calledOff = []
  · rw [hnone]
    exact x.consultation_isPrefix
  · rw [hx.consultation_eq_nil hnone]
    exact List.nil_prefix

theorem map_passedOver (hx : x.IsCut set cs) :
    (x.calledOff.map Result.task).map passedOver = x.calledOff := by
  rw [List.map_map]
  calc x.calledOff.map (passedOver ∘ Result.task)
      = x.calledOff.map id := List.map_congr_left fun r hr => (hx.passed r hr).symm
    _ = x.calledOff := List.map_id _

end State.IsCut

/-- A task that was answered about has a result of another kind, or is in flight. -/
theorem Reachable.answered_perm (h : Reachable s set policy cancelled x) {past : List Task}
    (horder : past ++ (x.calledOff.map Result.task ++ x.ahead) = set.tasks) :
    ((x.results.filter (fun r => !r.isCalledOff)).map Result.task ++ x.inFlight.map Prod.snd).Perm
      past := by
  have haccount := x.account_perm_stages.symm.trans h.account_perm
  have hparts := (List.filter_append_perm Result.isCalledOff x.results).map Result.task
  rw [← horder, List.perm_iff_count] at haccount
  rw [List.perm_iff_count] at hparts ⊢
  intro t
  have hall := haccount t
  have hsplit := hparts t
  simp only [State.calledOff, List.filter_reverse, List.map_reverse, List.map_append,
    List.count_append, List.count_reverse] at hall hsplit ⊢
  omega

theorem Chronicle.handed (h : Chronicle s set policy cancelled x cs) {i : Invocation}
    (hi : i ∈ x.calls) : ∃ j < cs.length, set.tasks[j]? = some i.task ∧
      ∃ c, cs.reverse[j]? = some c ∧ c.Hires i.worker i.task := by
  obtain ⟨c, hc, hires⟩ := h.fits.calls i hi
  obtain ⟨j, hj, rfl⟩ := List.mem_iff_getElem.mp (List.mem_reverse.mpr hc)
  have hlt : j < (cs.reverse.map Consultation.task).length := by rwa [List.length_map]
  have htask := List.prefix_iff_getElem?.mp h.isCut.asked j hlt
  rw [List.length_reverse] at hj
  refine ⟨j, hj, ?_, _, List.getElem?_eq_getElem _, hires⟩
  rw [htask, List.getElem_map, hires.2.1]

/-- The tasks before the cut and those behind it, as far as that can be seen: as long as nothing is
called off, every task is before it. -/
theorem State.IsCut.exists_split (hx : x.IsCut set cs) : ∃ past front back,
    past ++ (x.calledOff.map Result.task ++ x.ahead) = set.tasks ∧ front ++ back = set.tasks ∧
      past <+: front ∧ cs.reverse.map Consultation.task <+: front ∧
      x.calledOff <+: back.map passedOver ∧ (back ≠ [] → x.cancelled = true) ∧
      (x.ahead = [] → past = front ∧ cs.reverse.map Consultation.task = front ∧
        x.calledOff = back.map passedOver) := by
  obtain ⟨past, hcs, horder⟩ := hx.order
  by_cases hnone : x.calledOff = []
  · refine ⟨past.reverse.map Consultation.task, set.tasks, [], horder, List.append_nil _, ?_,
      hx.asked, ?_, fun hne => (hne rfl).elim, fun hahead => ⟨?_, ?_, hnone⟩⟩
    · rw [← horder]
      exact List.prefix_append _ _
    · rw [hnone]
      exact List.nil_prefix
    · rw [← horder, hnone, hahead]
      simp
    · have hsilent := x.consultation_isPrefix
      rw [hahead, List.prefix_nil] at hsilent
      rw [← horder, hnone, hahead, hcs, List.reverse_append, List.map_append, hsilent]
      rfl
  · have hsilent := hx.consultation_eq_nil hnone
    rw [hsilent, List.nil_append] at hcs
    subst hcs
    refine ⟨_, _, _, horder, horder, List.prefix_refl _, List.prefix_refl _, ?_,
      fun _ => (hx.past hnone).1, fun hahead => ⟨rfl, rfl, ?_⟩⟩
    · rw [List.map_append, hx.map_passedOver]
      exact List.prefix_append _ _
    · rw [List.map_append, hx.map_passedOver, hahead]
      simp

theorem Chronicle.exists_cutAt (h : Chronicle s set policy cancelled x cs) :
    ∃ k, x.CutAt set cs k ∧ (x.ahead = [] → x.inFlight = [] → x.CutThrough set policy cs k) := by
  obtain ⟨past, front, back, horder, hsplit, hpast, hasked, hcalled, hback, hthrough⟩ :=
    h.isCut.exists_split
  have hothers := h.reachable.answered_perm horder
  have hfront : set.tasks.take front.length = front := by rw [← hsplit, List.take_left]
  have hdrop : set.tasks.drop front.length = back := by rw [← hsplit, List.drop_left]
  have hlength : front.length + back.length = set.tasks.length := by
    rw [← hsplit, List.length_append]
  refine ⟨front.length, ⟨by omega, ?_, ?_, ?_, ?_, ?_⟩, fun hahead hflight => ?_⟩
  · rw [hfront]
    exact hasked
  · rw [hdrop]
    exact hcalled
  · rw [hfront]
    apply List.Subperm.trans _ hpast.sublist.subperm
    exact (List.sublist_append_left _ _).subperm.trans hothers.subperm
  · intro i hi
    obtain ⟨j, hj, hhanded⟩ := h.handed hi
    have hle := hasked.length_le
    rw [List.length_map, List.length_reverse] at hle
    exact ⟨j, Nat.lt_of_lt_of_le hj hle, hhanded⟩
  · intro hlt
    apply hback
    rintro rfl
    exact absurd hlength (by simpa using Nat.ne_of_lt hlt)
  · obtain ⟨rfl, hasked, hcalled⟩ := hthrough hahead
    refine ⟨hasked.trans hfront.symm, fun c hc => ?_, by rw [hdrop, hcalled], ?_⟩
    · refine (h.fits.isSound hc).resolve_left fun hwaits => ?_
      rw [State.ahead, hwaits.2] at hahead
      cases hahead
    · rw [hfront]
      simpa [hflight] using hothers

theorem map_fst_chronicle? (s : Settings) (x : State) (cs : List Consultation) (ls : List Label) :
    (chronicle? s x cs ls).map Prod.fst = steps? s x ls := by
  induction ls generalizing x cs with
  | nil => rfl
  | cons l ls ih =>
      rw [chronicle?, steps?, Option.map_bind]
      cases step? s x l with
      | none => rfl
      | some y => exact ih y (x.writeDown y cs l)

/-- A run that is not broken can be brought to the point at which every result is in. -/
theorem Chronicle.exists_finished (h : Chronicle s set policy cancelled x cs)
    (hslots : s.slots ≤ slotBound) (tool : Nat → Answer) :
    ∃ ls y ds, (∀ l ∈ ls, l.Follows tool) ∧ chronicle? s x cs ls = some (y, ds) ∧
      y.aggregator.phase = .finished := by
  obtain ⟨ls, y, hls, hy, hended⟩ := h.reachable.exists_end tool
  have hfst := map_fst_chronicle? s x cs ls
  rw [hy] at hfst
  obtain ⟨⟨z, ds⟩, hrun, rfl⟩ := Option.map_eq_some_iff.mp hfst
  refine ⟨ls, z, ds, hls, hrun, ?_⟩
  have hz := h.reachable.of_steps? hy
  rw [Aggregator.hasEnded, Bool.or_eq_true, beq_iff_eq, beq_iff_eq] at hended
  refine hended.resolve_right fun hphase => ?_
  have hbroken := hz.leavesOff.broken (hz.broken_of_incomplete hphase)
  exact absurd hbroken (Nat.not_lt.mpr hslots)

/-- When the dispatcher has ended or every result is in, no task is left. -/
theorem Reachable.nothing_left (h : Reachable s set policy cancelled x)
    (hend : x.dispatch = .ended ∨ x.aggregator.phase = .finished) :
    x.ahead = [] ∧ x.inFlight = [] := by
  rcases hend with he | hf
  · have hpending := h.windsDown.pending (by rw [he]; rfl)
    refine ⟨?_, h.inFlight_of_ended he⟩
    rw [State.ahead, he, hpending]
    rfl
  · obtain ⟨-, hheld, hflight, hpending, -⟩ := h.tally_of_finished hf
    rw [Dispatch.held_eq, List.append_eq_nil_iff] at hheld
    refine ⟨?_, hflight⟩
    rw [State.ahead, hheld.2, hpending]
    rfl

/-- A cancelled run is cut at one position, whatever the tool does, whenever it is cancelled and in
whatever order everybody moves. The tasks before the position are asked about in their order, none
of their results says that the task was called off, and only they are handed to a worker; the tasks
from there on are called off, one after the other. Unless the slots cannot be counted, every run can
be brought to the point at which all have their results. -/
theorem Chronicle.cut_at_one_position (h : Chronicle s set policy cancelled x cs) :
    (∃ k, x.CutAt set cs k ∧ (x.dispatch = .ended ∨ x.aggregator.phase = .finished →
      x.CutThrough set policy cs k)) ∧
    (s.slots ≤ slotBound → ∀ tool, ∃ ls y ds, (∀ l ∈ ls, l.Follows tool) ∧
      chronicle? s x cs ls = some (y, ds) ∧ y.aggregator.phase = .finished) := by
  refine ⟨?_, fun hslots tool => h.exists_finished hslots tool⟩
  obtain ⟨k, hcut, hthrough⟩ := h.exists_cutAt
  refine ⟨k, hcut, fun hend => ?_⟩
  obtain ⟨hahead, hflight⟩ := h.reachable.nothing_left hend
  exact hthrough hahead hflight

/-- The run is cancelled while the dispatcher waits for an answer about the second image, and cut
behind it. -/
theorem cut_at_one_position_of_busyMoment :
    ∃ x cs, Chronicle patient threeImages ⟨.mirrorToMirror, false⟩ false x cs ∧
      x.dispatch = .ended ∧ patient.slots ≤ slotBound ∧ x.CutAt threeImages cs 2 ∧
      x.CutThrough threeImages ⟨.mirrorToMirror, false⟩ cs 2 ∧
      x.calledOff = [passedOver (plainImage "c")] ∧
      x.calls.map Invocation.task = [plainImage "b", plainImage "a", plainImage "a"] := by
  have hrun : (chronicle? patient
      (State.start patient threeImages ⟨.mirrorToMirror, false⟩ false) []
      (upToCancel ++ afterCancel)).map (fun p => (p.1.dispatch, p.2.length, p.1.calledOff,
        p.1.calls.map Invocation.task)) =
      some (.ended, 2, [passedOver (plainImage "c")],
        [plainImage "b", plainImage "a", plainImage "a"]) := by
    decide +kernel
  obtain ⟨⟨x, cs⟩, hx, hends⟩ := Option.map_eq_some_iff.mp hrun
  simp only [Prod.mk.injEq] at hends
  obtain ⟨hended, hlength, hcalled, hcalls⟩ := hends
  have hchronicle := Chronicle.start.of_chronicle? hx
  have hslots : patient.slots ≤ slotBound := by decide
  obtain ⟨⟨k, hcut, hthrough⟩, -⟩ := hchronicle.cut_at_one_position
  have hthrough := hthrough (.inl hended)
  have hk : k = 2 := by
    have hasked := congrArg List.length hthrough.asked
    rw [List.length_map, List.length_reverse, List.length_take, show cs.length = 2 from hlength]
      at hasked
    have hle := hcut.le
    omega
  subst hk
  exact ⟨x, cs, hchronicle, hended, hslots, hcut, hthrough, hcalled, hcalls⟩

end Engine

end ImageBatch
