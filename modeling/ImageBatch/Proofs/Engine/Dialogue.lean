import ImageBatch.Proofs.Engine.Stream

/-!
# Questions and answers

The dispatcher asks about one task at a time and waits for the answer. The question or its answer is
always in one place, and the answer follows from all results that were sent before.
-/

namespace ImageBatch.Engine

variable {s : Settings} {set : TaskSet} {policy : SkipPolicy} {cancelled : Bool} {x y : State}
  {l : Label}

/-- The decision about a task from all results that were sent. -/
def State.ruling (set : TaskSet) (policy : SkipPolicy) (x : State) (t : Task) : Decision :=
  policy.decide t (set.linkedBundles t) ((Tally.start set).addAll set x.sent.reverse).errors

theorem State.ruling_eq (x : State) (t : Task) : x.ruling set policy t =
    policy.decide t (set.linkedBundles t) (x.sent.reverse.filterMap (Tally.record? set)) := by
  rw [ruling, Tally.errors_addAll]
  rfl

/-- Where the question of the dispatcher is: nowhere, on its way, with the aggregator, or
answered. -/
inductive State.Talks (set : TaskSet) (policy : SkipPolicy) (x : State) : Prop where
  | silent (hd : ∀ t, x.dispatch ≠ .waiting t) (hq : x.inbox.queries = [])
      (hp : ∀ q, x.aggregator.phase ≠ .answering q) (hr : x.reply = none)
  | asked {t} (hd : x.dispatch = .waiting t) (hq : x.inbox.queries = [.decide t])
      (hp : ∀ q, x.aggregator.phase ≠ .answering q) (hr : x.reply = none)
  | heard {t} (hd : x.dispatch = .waiting t) (hq : x.inbox.queries = [])
      (hp : x.aggregator.phase = .answering (.decide t)) (hr : x.reply = none)
  | answered {t} (hd : x.dispatch = .waiting t) (hq : x.inbox.queries = [])
      (hp : ∀ q, x.aggregator.phase ≠ .answering q)
      (hr : x.reply = some (.decision (x.ruling set policy t)))

namespace State.Talks

theorem of_eq (hx : x.Talks set policy) (hd : y.dispatch = x.dispatch)
    (hq : y.inbox.queries = x.inbox.queries) (hp : y.aggregator.phase = x.aggregator.phase)
    (hr : y.reply = x.reply) (hs : y.sent = x.sent) : y.Talks set policy := by
  cases hx with
  | silent hd' hq' hp' hr' =>
      exact .silent (by rwa [hd]) (hq.trans hq') (by rwa [hp]) (hr.trans hr')
  | asked hd' hq' hp' hr' =>
      exact .asked (hd.trans hd') (hq.trans hq') (by rwa [hp]) (hr.trans hr')
  | heard hd' hq' hp' hr' =>
      exact .heard (hd.trans hd') (hq.trans hq') (hp.trans hp') (hr.trans hr')
  | answered hd' hq' hp' hr' =>
      refine .answered (hd.trans hd') (hq.trans hq') (by rwa [hp]) (hr.trans ?_)
      rw [hr', ruling, ruling, hs]

theorem no_question (hx : x.Talks set policy) (hd : ∀ t, x.dispatch ≠ .waiting t) :
    x.inbox.queries = [] ∧ (∀ q, x.aggregator.phase ≠ .answering q) ∧ x.reply = none := by
  cases hx with
  | silent hd' hq hp hr => exact ⟨hq, hp, hr⟩
  | asked hd' | heard hd' | answered hd' => exact (hd _ hd').elim

theorem answer_eq (hx : x.Talks set policy) {t : Task} (hd : x.dispatch = .waiting t)
    {reply : Reply} (hr : x.reply = some reply) :
    reply = .decision (x.ruling set policy t) ∧ x.inbox.queries = [] ∧
      ∀ q, x.aggregator.phase ≠ .answering q := by
  cases hx with
  | silent hd' => exact (hd' t hd).elim
  | asked hd' hq hp hn | heard hd' hq hp hn =>
      rw [hn] at hr
      cases hr
  | answered hd' hq hp hs =>
      cases hd'.symm.trans hd
      exact ⟨Option.some.inj (hr.symm.trans hs), hq, hp⟩

/-- A dispatcher that does not wait stays without a question while it goes on to something else. -/
theorem go_on (hx : x.Talks set policy) (hd : ∀ t, x.dispatch ≠ .waiting t)
    (hd' : ∀ t, y.dispatch ≠ .waiting t) (hq : y.inbox.queries = x.inbox.queries)
    (hp : y.aggregator.phase = x.aggregator.phase) (hr : y.reply = x.reply) :
    y.Talks set policy := by
  obtain ⟨hq', hp', hr'⟩ := hx.no_question hd
  exact .silent hd' (hq.trans hq') (by rwa [hp]) (hr.trans hr')

end State.Talks

theorem Resume.target_ne_waiting (k : Resume) (t : Task) : k.target ≠ .waiting t := by
  cases k <;> simp [Resume.target]

theorem LooksForWorkers.ne_waiting {d : Dispatch} {k : Resume} (h : LooksForWorkers d k) (t : Task) :
    d ≠ .waiting t := by
  cases h <;> simp

/-- While the aggregator listens, the dispatcher works on a task only when it is told so. -/
theorem LearnsToProceed.reply_eq {t : Task} {reply : Option Reply} (h : LearnsToProceed x t reply)
    (hx : x.Talks set policy) (he : x.aggregator.hasEnded = false) :
    x.dispatch = .waiting t ∧ x.reply = some (.decision .proceed) ∧ reply = none := by
  cases h with
  | unasked hd he' | unanswered hd hr he' =>
      rw [he] at he'
      cases he'
  | told hd hr => exact ⟨hd, hr, rfl⟩
  | misled hd hr =>
      obtain ⟨hruling, -, -⟩ := hx.answer_eq hd hr
      cases hruling

theorem LearnsToProceed.talks {t : Task} {reply : Option Reply} (h : LearnsToProceed x t reply)
    (hx : x.Talks set policy) (he : x.aggregator.hasEnded = false) :
    x.dispatch = .waiting t ∧ x.ruling set policy t = .proceed ∧ reply = none ∧
      x.inbox.queries = [] ∧ ∀ q, x.aggregator.phase ≠ .answering q := by
  obtain ⟨hd, hr, hnone⟩ := h.reply_eq hx he
  obtain ⟨hruling, hq, hp⟩ := hx.answer_eq hd hr
  exact ⟨hd, (Reply.decision.inj hruling).symm, hnone, hq, hp⟩

theorem Dispatches.talks (h : Dispatches x y) (hx : x.Talks set policy)
    (he : x.dispatch.held ≠ [] → x.aggregator.hasEnded = false) : y.Talks set policy := by
  cases h with
  | takeUp hd | runOut hd | giveUp hd | goOn hd | noneOver hd | acquire hd | fallAsleep hd | wake hd
  | discard hd | discarded hd | finish hd =>
      exact hx.go_on (by simp [hd]) (by simp) rfl rfl rfl
  | deliver hd | deliverInVain hd =>
      exact hx.go_on (by simp [hd]) (Resume.target_ne_waiting _) rfl rfl rfl
  | forward hd | recover hd =>
      exact hx.go_on hd.ne_waiting (by simp) rfl rfl rfl
  | forget hd => exact hx.go_on hd.ne_waiting (Resume.target_ne_waiting _) rfl rfl rfl
  | ask hd he hr =>
      obtain ⟨hq, hp, hr'⟩ := hx.no_question (by simp [hd])
      exact .asked rfl (by rw [hq]; rfl) hp hr'
  | spawn hl =>
      obtain ⟨hd, -, hr, hq, hp⟩ := hl.talks hx (he (by rw [hl.held]; simp))
      exact .silent (by simp) hq hp hr
  | bypass hd hr | skip hd hr =>
      obtain ⟨-, hq, hp⟩ := hx.answer_eq hd hr
      exact .silent (by simp) hq hp rfl
  | close hd ho => exact hx.of_eq rfl rfl rfl rfl rfl

theorem State.HasStream.answer_eq (hx : x.HasStream set policy) {t : Task}
    (hi : x.inbox.results = [] ∨ x.aggregator.expected ≤ x.aggregator.tally.received)
    (hlt : x.sent.length < set.tasks.length) :
    x.aggregator.answer (.decide t) = .decision (x.ruling set policy t) := by
  have hrest : x.inbox.results = [] := by
    rcases hi with hi | hi
    · exact hi
    · have hle := hx.received_le
      rw [hx.expected_eq] at hi
      omega
  obtain ⟨taken, hsent, htally⟩ := hx.taken
  rw [Aggregator.answer, State.ruling, hsent, hrest, List.append_nil, htally, hx.set_eq,
    hx.policy_eq]

theorem State.Talks.step_aside (hx : x.Talks set policy) {a : Aggregator} {i : Inbox}
    (hp : ∀ q, x.aggregator.phase ≠ .answering q) (hp' : ∀ q, a.phase ≠ .answering q)
    (hq : i.queries = x.inbox.queries) :
    ({ x with aggregator := a, inbox := i, reply := x.reply } : State).Talks set policy := by
  cases hx with
  | silent hd hq' hp'' hr => exact .silent hd (hq.trans hq') hp' hr
  | asked hd hq' hp'' hr => exact .asked hd (hq.trans hq') hp' hr
  | heard hd hq' hp'' hr => exact (hp _ hp'').elim
  | answered hd hq' hp'' hr => exact .answered hd (hq.trans hq') hp' hr

theorem settledPhase_ne_answering (n m : Nat) (q : Query) :
    Aggregator.settledPhase n m ≠ .answering q := by
  unfold Aggregator.settledPhase
  split <;> simp

theorem State.Talks.step (hx : x.Talks set policy) (hs : x.HasStream set policy)
    (hlt : x.dispatch.held ≠ [] → x.sent.length < set.tasks.length) {a : Aggregator} {i : Inbox}
    {reply : Option Reply} (hm : x.aggregator.Steps x.inbox a i reply) :
    ({ x with aggregator := a, inbox := i, reply := reply <|> x.reply } : State).Talks
      set policy := by
  cases hm with
  | take hp hr =>
      exact hx.step_aside (by simp [hp]) (settledPhase_ne_answering _ _) rfl
  | listen hp | breakOff hp | rest hp | wake hp =>
      exact hx.step_aside (by simp [hp]) (by simp) rfl
  | hear hp hq =>
      cases hx with
      | asked hd hq' hp' hr =>
          cases hq.symm.trans hq'
          exact .heard hd rfl rfl hr
      | silent hd hq' | heard hd hq' | answered hd hq' => cases hq.symm.trans hq'
  | catchUp hp hr hlt' =>
      cases hx with
      | heard hd hq hp' hn =>
          cases hp.symm.trans hp'
          exact .heard hd hq hp hn
      | silent hd hq hp' | asked hd hq hp' | answered hd hq hp' => exact (hp' _ hp).elim
  | answer hp hi =>
      cases hx with
      | heard hd hq hp' hn =>
          cases hp.symm.trans hp'
          refine .answered hd hq (settledPhase_ne_answering _ _) ?_
          rw [hs.answer_eq hi (hlt (by rw [hd]; exact List.cons_ne_nil _ _))]
          rfl
      | silent hd hq hp' | asked hd hq hp' | answered hd hq hp' => exact (hp' _ hp).elim

theorem Reachable.sent_lt (h : Reachable s set policy cancelled x) (hh : x.dispatch.held ≠ []) :
    x.sent.length < set.tasks.length := by
  have hlen := h.account_perm.length_eq
  simp only [State.account, List.length_append, List.length_map] at hlen
  have hpos := List.length_pos_iff.mpr hh
  omega

/-- In every run the question of the dispatcher is in one place, and so is its answer. -/
theorem Reachable.talks (h : Reachable s set policy cancelled x) : x.Talks set policy := by
  refine Reachable.induction (P := State.Talks set policy) ?_ ?_ h
  · refine .silent ?_ rfl (settledPhase_ne_answering _ _) rfl
    intro t
    simp only [State.start]
    split <;> simp
  · intro x l y hx ih hm
    cases hm with
    | cancel hc => exact ih.of_eq rfl rfl rfl rfl rfl
    | dispatcher hm => exact hm.talks ih hx.hasEnded_eq_false
    | aggregator hm => exact ih.step hx.hasStream hx.sent_lt hm
    | worker hm => cases hm <;> exact ih.of_eq rfl rfl rfl rfl rfl

end ImageBatch.Engine
