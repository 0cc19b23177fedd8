import ImageBatch.Proofs.Engine.Dialogue

/-!
# Consultations

A chronicle writes down every question of the dispatcher in a run: which results were on the stream
when it asked, what it was told, and which worker got the task. The answers follow from just these
results, the aggregator alone gives them, and nothing but a worker that was asked for calls the
tool.
-/

namespace ImageBatch.Engine

/-! ## Keeping a chronicle -/

/-- How a question came out for the dispatcher. -/
inductive Hearing where
  | awaited
  | told (d : Decision)
  /-- Nobody answered, or the answer was about something else. -/
  | unheard
deriving DecidableEq

def Hearing.ofReply : Option Reply → Hearing
  | some (.decision d) => .told d
  | _ => .unheard

structure Consultation where
  task : Task
  /-- The results that were on the stream when the dispatcher asked, newest first. -/
  known : List Result
  hearing : Hearing
  /-- The worker that got the task then. -/
  worker : Option Nat
deriving DecidableEq

/-- The number of the worker that is new in a later state. -/
def State.hired (x y : State) : Option Nat := if x.nextId < y.nextId then some x.nextId else none

/-- Writes down a step from `x` to `y`. The newest consultation stands first. -/
def State.writeDown (x y : State) (cs : List Consultation) : Label → List Consultation
  | .dispatcher =>
    match x.dispatch, cs with
    | .asking t, cs =>
      if y.dispatch = .waiting t then ⟨t, x.sent, .awaited, none⟩ :: cs
      else ⟨t, x.sent, .unheard, x.hired y⟩ :: cs
    | .waiting _, c :: cs => { c with hearing := .ofReply x.reply, worker := x.hired y } :: cs
    | _, cs => cs
  | _ => cs

/-- A state that a run can come to, with the consultations up to then. -/
inductive Chronicle (s : Settings) (set : TaskSet) (policy : SkipPolicy) (cancelled : Bool) :
    State → List Consultation → Prop where
  | start : Chronicle s set policy cancelled (State.start s set policy cancelled) []
  | step {x y : State} {cs : List Consultation} {l : Label}
      (h : Chronicle s set policy cancelled x cs) (hs : step? s x l = some y) :
    Chronicle s set policy cancelled y (x.writeDown y cs l)

def chronicle? (s : Settings) (x : State) (cs : List Consultation) :
    List Label → Option (State × List Consultation)
  | [] => some (x, cs)
  | l :: ls => (step? s x l).bind (fun y => chronicle? s y (x.writeDown y cs l) ls)

variable {s : Settings} {set : TaskSet} {policy : SkipPolicy} {cancelled : Bool} {x y : State}
  {l : Label} {c : Consultation} {cs : List Consultation}

theorem Chronicle.of_chronicle? {ls : List Label} {p : State × List Consultation}
    (hx : Chronicle s set policy cancelled x cs) (h : chronicle? s x cs ls = some p) :
    Chronicle s set policy cancelled p.1 p.2 := by
  induction ls generalizing x cs with
  | nil =>
      cases h
      exact hx
  | cons l ls ih =>
      simp only [chronicle?, Option.bind_eq_some_iff] at h
      obtain ⟨z, hz, h⟩ := h
      exact ih (hx.step hz) h

theorem Chronicle.reachable (h : Chronicle s set policy cancelled x cs) :
    Reachable s set policy cancelled x := by
  induction h with
  | start => exact .start
  | step h hs ih => exact ih.step hs

theorem Reachable.exists_chronicle (h : Reachable s set policy cancelled x) :
    ∃ cs, Chronicle s set policy cancelled x cs := by
  induction h with
  | start => exact ⟨[], .start⟩
  | step hx hs ih =>
      obtain ⟨cs, hcs⟩ := ih
      exact ⟨_, hcs.step hs⟩

/-! ## What a chronicle tells -/

/-- The dispatcher was told what follows from the records of the results that were on the stream. -/
def Consultation.IsSound (set : TaskSet) (policy : SkipPolicy) (c : Consultation) : Prop :=
  c.hearing = .told (policy.decide c.task (set.linkedBundles c.task)
    (c.known.reverse.filterMap (Tally.record? set)))

/-- The task was to be worked on, and the worker got it. -/
def Consultation.Hires (c : Consultation) (id : Nat) (t : Task) : Prop :=
  c.worker = some id ∧ c.task = t ∧ c.hearing = .told .proceed

/-- The consultation that the dispatcher is in. -/
def State.consultation (x : State) : List Consultation :=
  match x.dispatch with
  | .waiting t => [⟨t, x.sent, .awaited, none⟩]
  | _ => []

/-- The result that the dispatcher is about to put on the stream. -/
def Dispatch.outgoing : Dispatch → List Result
  | .delivering r _ _ => [r]
  | _ => []

/-- The results of a run, on the stream or about to be put there. -/
def State.results (x : State) : List Result := x.dispatch.outgoing ++ x.sent

/-- A chronicle fits a state: past questions were answered soundly, and workers, calls and results
that are no skips go back to one of them. -/
structure State.Fits (set : TaskSet) (policy : SkipPolicy) (x : State) (cs : List Consultation) :
    Prop where
  sound : ∃ past, cs = x.consultation ++ past ∧ ∀ c ∈ past, c.IsSound set policy
  known : ∀ c ∈ cs, c.known <:+ x.sent
  inFlight : ∀ f ∈ x.inFlight, ∃ c ∈ cs, c.Hires f.1 f.2
  calls : ∀ i ∈ x.calls, ∃ c ∈ cs, c.Hires i.worker i.task
  results : ∀ r ∈ x.results, r.isSkip = true ∨ ∃ c ∈ cs, ∃ id, c.Hires id r.task

theorem State.writeDown_of_not_asking (hd : ∀ t, x.dispatch ≠ .asking t)
    (hd' : ∀ t, x.dispatch ≠ .waiting t) : x.writeDown y cs l = cs := by
  unfold writeDown
  split
  · split
    · rename_i t h
      exact (hd t h).elim
    · rename_i t c cs h
      exact (hd' t h).elim
    · rfl
  · rfl

theorem State.consultation_eq_nil (hd : ∀ t, x.dispatch ≠ .waiting t) : x.consultation = [] := by
  unfold consultation
  split
  · rename_i t h
    exact (hd t h).elim
  · rfl

namespace State.Fits

/-- Only the consultation that the dispatcher is in has no answer. -/
theorem isSound (hx : x.Fits set policy cs) (hc : c ∈ cs) :
    c.hearing = .awaited ∧ x.dispatch = .waiting c.task ∨ c.IsSound set policy := by
  obtain ⟨past, rfl, hpast⟩ := hx.sound
  rcases List.mem_append.mp hc with hc | hc
  · unfold State.consultation at hc
    split at hc
    · rename_i t hd
      cases List.mem_singleton.mp hc
      exact .inl ⟨rfl, hd⟩
    · cases hc
  · exact .inr (hpast c hc)

/-- A dispatcher that does not deal with a question keeps the chronicle. -/
theorem go_on (hx : x.Fits set policy cs) (hd : ∀ t, x.dispatch ≠ .waiting t)
    (hd' : ∀ t, y.dispatch ≠ .waiting t) (hsent : x.sent <:+ y.sent)
    (hflight : y.inFlight ⊆ x.inFlight) (hcalls : y.calls = x.calls)
    (hresults : ∀ r ∈ y.results, r ∈ x.results ∨ r.isSkip = true ∨ ∃ f ∈ x.inFlight, f.2 = r.task) :
    y.Fits set policy cs := by
  refine ⟨?_, ?_, ?_, ?_, ?_⟩
  · have hsound := hx.sound
    rw [x.consultation_eq_nil hd] at hsound
    rwa [y.consultation_eq_nil hd']
  · intro c hc
    exact (hx.known c hc).trans hsent
  · intro f hf
    exact hx.inFlight f (hflight hf)
  · rw [hcalls]
    exact hx.calls
  · intro r hr
    rcases hresults r hr with hr | hr | ⟨f, hf, he⟩
    · exact hx.results r hr
    · exact .inl hr
    · obtain ⟨c, hc, hires⟩ := hx.inFlight f hf
      exact .inr ⟨c, hc, f.1, he ▸ hires⟩

theorem ask (hx : x.Fits set policy cs) {t : Task} (hd : x.dispatch = .asking t) (i : Inbox) :
    ({ x with inbox := i, dispatch := .waiting t } : State).Fits set policy
      (⟨t, x.sent, .awaited, none⟩ :: cs) := by
  have hnone : x.consultation = [] := x.consultation_eq_nil (by simp [hd])
  have hresults : x.results = x.sent := by simp [State.results, hd, Dispatch.outgoing]
  refine ⟨?_, ?_, ?_, ?_, ?_⟩
  · obtain ⟨past, hcs, hpast⟩ := hx.sound
    rw [hnone, List.nil_append] at hcs
    exact ⟨past, by rw [hcs]; rfl, hpast⟩
  · intro c hc
    rcases List.mem_cons.mp hc with rfl | hc
    · exact List.suffix_refl _
    · exact hx.known c hc
  · intro f hf
    obtain ⟨c, hc, hires⟩ := hx.inFlight f hf
    exact ⟨c, List.mem_cons_of_mem _ hc, hires⟩
  · intro i hi
    obtain ⟨c, hc, hires⟩ := hx.calls i hi
    exact ⟨c, List.mem_cons_of_mem _ hc, hires⟩
  · intro r hr
    rcases hx.results r (hresults ▸ hr) with hskip | ⟨c, hc, hires⟩
    · exact .inl hskip
    · exact .inr ⟨c, List.mem_cons_of_mem _ hc, hires⟩

/-- The answer to a question closes the consultation. Nobody was hired by it before. -/
theorem conclude (hx : x.Fits set policy cs) {t : Task} (hd : x.dispatch = .waiting t)
    (hr : x.reply = some (.decision (x.ruling set policy t)))
    (hd' : ∀ t, y.dispatch ≠ .waiting t) (hsent : y.sent = x.sent)
    (hflight : ∀ f ∈ y.inFlight, f ∈ x.inFlight ∨
      x.hired y = some f.1 ∧ t = f.2 ∧ x.ruling set policy t = .proceed)
    (hcalls : y.calls = x.calls)
    (hresults : ∀ r ∈ y.results, r ∈ x.results ∨ r.isSkip = true) :
    y.Fits set policy (x.writeDown y cs .dispatcher) := by
  obtain ⟨past, hcs, hpast⟩ := hx.sound
  have hopen : x.consultation = [⟨t, x.sent, .awaited, none⟩] := by
    rw [State.consultation, hd]
  rw [hopen, List.singleton_append] at hcs
  have hdown : x.writeDown y cs .dispatcher =
      ⟨t, x.sent, .told (x.ruling set policy t), x.hired y⟩ :: past := by
    simp [writeDown, hd, hcs, hr, Hearing.ofReply]
  have hold : ∀ {id u}, (∃ c ∈ cs, c.Hires id u) →
      ∃ c ∈ x.writeDown y cs .dispatcher, c.Hires id u := by
    rintro id u ⟨c, hc, hires⟩
    rw [hcs] at hc
    rcases List.mem_cons.mp hc with rfl | hc
    · cases hires.1
    · rw [hdown]
      exact ⟨c, List.mem_cons_of_mem _ hc, hires⟩
  refine ⟨⟨x.writeDown y cs .dispatcher, ?_, ?_⟩, ?_, ?_, ?_, ?_⟩
  · rw [y.consultation_eq_nil hd', List.nil_append]
  · rw [hdown]
    intro c hc
    rcases List.mem_cons.mp hc with rfl | hc
    · exact congrArg Hearing.told (x.ruling_eq t)
    · exact hpast c hc
  · rw [hdown, hsent]
    intro c hc
    rcases List.mem_cons.mp hc with rfl | hc
    · exact List.suffix_refl _
    · exact hx.known c (hcs ▸ List.mem_cons_of_mem _ hc)
  · intro f hf
    rcases hflight f hf with hf | ⟨hid, htask, hruling⟩
    · exact hold (hx.inFlight f hf)
    · rw [hdown]
      exact ⟨_, List.mem_cons_self, hid, htask, congrArg Hearing.told hruling⟩
  · rw [hcalls]
    intro i hi
    exact hold (hx.calls i hi)
  · intro r hr
    rcases hresults r hr with hr | hskip
    · rcases hx.results r hr with hskip | ⟨c, hc, id, hires⟩
      · exact .inl hskip
      · obtain ⟨c, hc, hires⟩ := hold ⟨c, hc, hires⟩
        exact .inr ⟨c, hc, id, hires⟩
    · exact .inl hskip

theorem work (hx : x.Fits set policy cs) (hroster : x.HasRoster) (hm : Works s x l y) :
    y.Fits set policy cs := by
  have hhired : ∀ {w}, w ∈ x.workers → ∃ c ∈ cs, c.Hires w.id w.task := by
    intro w hw
    exact hx.inFlight _ (hroster.working w hw)
  cases hm with
  | begin hw hp | wake hw hp =>
      refine ⟨hx.sound, hx.known, hx.inFlight, ?_, hx.results⟩
      intro i hi
      rcases List.mem_cons.mp hi with rfl | hi
      · exact hhired hw
      · exact hx.calls i hi
  | finish hw | pause hw | abort hw | giveUp hw | settle hw =>
      exact ⟨hx.sound, hx.known, hx.inFlight, hx.calls, hx.results⟩

end State.Fits

@[simp] theorem Resume.outgoing_target (k : Resume) : k.target.outgoing = [] := by
  cases k <;> rfl

theorem LooksForWorkers.outgoing {d : Dispatch} {k : Resume} (h : LooksForWorkers d k) :
    d.outgoing = [] := by
  cases h <;> rfl

theorem LooksForWorkers.ne_asking {d : Dispatch} {k : Resume} (h : LooksForWorkers d k) (t : Task) :
    d ≠ .asking t := by
  cases h <;> simp

theorem Dispatches.fits (h : Dispatches x y) (hx : x.Fits set policy cs) (hr : x.HasRoster)
    (ht : x.Talks set policy) (he : x.dispatch.held ≠ [] → x.aggregator.hasEnded = false) :
    y.Fits set policy (x.writeDown y cs .dispatcher) := by
  cases h with
  | takeUp hd | runOut hd | goOn hd | noneOver hd | acquire hd | fallAsleep hd | wake hd
  | discarded hd | finish hd =>
      rw [State.writeDown_of_not_asking (by simp [hd]) (by simp [hd])]
      refine hx.go_on (by simp [hd]) (by simp) (List.suffix_refl _) (List.Subset.refl _) rfl ?_
      intro r hr
      exact .inl (by simpa [State.results, hd, Dispatch.outgoing] using hr)
  | close hd ho =>
      rw [State.writeDown_of_not_asking (by simp [hd]) (by simp [hd])]
      exact hx.go_on (by simp [hd]) (by simp [hd]) (List.suffix_refl _) (List.Subset.refl _) rfl
        fun r hr => .inl hr
  | giveUp hd | discard hd =>
      rw [State.writeDown_of_not_asking (by simp [hd]) (by simp [hd])]
      refine hx.go_on (by simp [hd]) (by simp) (List.suffix_refl _) (List.Subset.refl _) rfl ?_
      intro r hr
      rcases List.mem_cons.mp hr with rfl | hr
      · exact .inr (.inl rfl)
      · exact .inl (by simpa [State.results, hd, Dispatch.outgoing] using hr)
  | forward hd hf =>
      rw [State.writeDown_of_not_asking hd.ne_asking hd.ne_waiting]
      refine hx.go_on hd.ne_waiting (by simp) (List.suffix_refl _) (List.filter_subset_self _) rfl ?_
      intro r hr'
      rw [State.results, hd.outgoing, List.nil_append]
      rcases List.mem_cons.mp hr' with rfl | hr'
      · exact .inr (.inr ⟨_, hr.settled _ (hf ▸ List.mem_cons_self) _ rfl, rfl⟩)
      · exact .inl hr'
  | recover hd hf hlookup =>
      rw [State.writeDown_of_not_asking hd.ne_asking hd.ne_waiting]
      refine hx.go_on hd.ne_waiting (by simp) (List.suffix_refl _) (List.filter_subset_self _) rfl ?_
      intro r hr'
      rw [State.results, hd.outgoing, List.nil_append]
      rcases List.mem_cons.mp hr' with rfl | hr'
      · exact .inr (.inr ⟨_, mem_of_lookup_eq_some hlookup, rfl⟩)
      · exact .inl hr'
  | forget hd hf hlookup =>
      rw [State.writeDown_of_not_asking hd.ne_asking hd.ne_waiting]
      refine hx.go_on hd.ne_waiting (Resume.target_ne_waiting _) (List.suffix_refl _)
        (List.filter_subset_self _) rfl ?_
      intro r hr'
      rw [State.results, Resume.outgoing_target] at hr'
      rw [State.results, hd.outgoing, List.nil_append]
      exact .inl hr'
  | deliver hd | deliverInVain hd =>
      rw [State.writeDown_of_not_asking (by simp [hd]) (by simp [hd])]
      refine hx.go_on (by simp [hd]) (Resume.target_ne_waiting _) (List.suffix_cons _ _)
        (List.Subset.refl _) rfl ?_
      intro r hr'
      rw [State.results, Resume.outgoing_target] at hr'
      exact .inl (by simpa [State.results, hd, Dispatch.outgoing] using hr')
  | @ask t hd hopen hroom =>
      have hdown : ∀ i, x.writeDown { x with inbox := i, dispatch := .waiting t } cs .dispatcher =
          ⟨t, x.sent, .awaited, none⟩ :: cs := by
        intro i
        simp [State.writeDown, hd]
      rw [hdown]
      exact hx.ask hd _
  | @spawn t reply hl =>
      have hopen := he (by rw [hl.held]; simp)
      obtain ⟨hd, hreply, -⟩ := hl.reply_eq ht hopen
      obtain ⟨-, hruling, -⟩ := hl.talks ht hopen
      refine hx.conclude hd (hruling ▸ hreply) (by simp) rfl ?_ rfl ?_
      · intro f hf
        rcases List.mem_append.mp hf with hf | hf
        · exact .inl hf
        · cases List.mem_singleton.mp hf
          exact .inr ⟨by simp [State.hired], rfl, hruling⟩
      · intro r hr'
        exact .inl (by simpa [State.results, hd, Dispatch.outgoing] using hr')
  | bypass hd hreply | skip hd hreply =>
      obtain ⟨hruling, -⟩ := ht.answer_eq hd hreply
      refine hx.conclude hd (hruling ▸ hreply) (by simp) rfl (fun f hf => .inl hf) rfl ?_
      intro r hr'
      rcases List.mem_cons.mp hr' with rfl | hr'
      · exact .inr rfl
      · exact .inl (by simpa [State.results, hd, Dispatch.outgoing] using hr')

theorem Chronicle.fits (h : Chronicle s set policy cancelled x cs) : x.Fits set policy cs := by
  induction h with
  | start =>
      have hstart := State.dispatch_start s set policy cancelled
      have hsilent : (State.start s set policy cancelled).consultation = [] :=
        State.consultation_eq_nil fun t ht => by simp [ht] at hstart
      have hresults : (State.start s set policy cancelled).results = [] := by
        rcases hstart with hd | hd <;> rw [State.results, hd] <;> rfl
      refine ⟨⟨[], by rw [hsilent]; rfl, by simp⟩, by simp, ?_, ?_, ?_⟩
      · simp [State.start]
      · simp [State.start]
      · simp [hresults]
  | @step x y cs l h hs ih =>
      have hx := h.reachable
      cases moves_of_step? hs with
      | cancel hc => exact ⟨ih.sound, ih.known, ih.inFlight, ih.calls, ih.results⟩
      | dispatcher hm => exact hm.fits ih hx.hasRoster hx.talks hx.hasEnded_eq_false
      | aggregator hm => exact ⟨ih.sound, ih.known, ih.inFlight, ih.calls, ih.results⟩
      | worker hm =>
          have hsame : x.writeDown y cs l = cs := by
            cases hm <;> rfl
          rw [hsame]
          exact ih.work hx.hasRoster hm

/-! ## Questions are heard -/

theorem Reachable.asks (h : Reachable s set policy cancelled x) {t : Task}
    (hd : x.dispatch = .asking t) :
    ∃ y, step? s x .dispatcher = some y ∧ y.dispatch = .waiting t := by
  have hopen := h.hasEnded_eq_false (by rw [hd]; exact List.cons_ne_nil _ _)
  obtain ⟨hq, -, -⟩ := h.talks.no_question (by simp [hd])
  have hroom : x.inbox.queries.length < Inbox.room := by
    rw [hq]
    decide
  refine ⟨{ x with
    inbox := { x.inbox with queries := x.inbox.queries ++ [.decide t] }
    dispatch := .waiting t }, ?_, rfl⟩
  simp [step?, State.dispatchStep?, hd, hopen, hroom]

/-- While the dispatcher waits without an answer, its question is with the aggregator. -/
theorem State.Talks.pending (hx : x.Talks set policy) {t : Task} (hd : x.dispatch = .waiting t)
    (hr : x.reply = none) : x.inbox.queries ≠ [] ∨ x.aggregator.phase = .answering (.decide t) := by
  cases hx with
  | silent hd' => exact (hd' t hd).elim
  | asked hd' hq => exact .inl (by simp [hq])
  | heard hd' hq hp =>
      cases hd.symm.trans hd'
      exact .inr hp
  | answered hd' hq hp hr' => cases hr.symm.trans hr'

/-- The aggregator alone gets to the answer, whatever state it is in. -/
theorem Reachable.isAnswered (h : Reachable s set policy cancelled x) {t : Task}
    (hd : x.dispatch = .waiting t) : ∃ n y,
      steps? s x (List.replicate n .aggregator) = some y ∧ y.dispatch = .waiting t ∧
        y.reply = some (.decision (x.ruling set policy t)) := by
  -- While the question waits, the aggregator comes nearer to the answer with each step.
  induction hn : x.aggregator.distance x.inbox using Nat.strongRecOn generalizing x with
  | ind n ih =>
      cases hr : x.reply with
      | some reply =>
          obtain ⟨rfl, -⟩ := h.talks.answer_eq hd hr
          exact ⟨0, x, rfl, hd, hr⟩
      | none =>
          have hasked := h.talks.pending hd hr
          have hquery : ∀ p, (∀ q, p ≠ .answering q) → x.aggregator.phase = p →
              x.inbox.queries ≠ [] := by
            intro p hp he
            exact hasked.resolve_right fun h => hp _ (he.symm.trans h)
          obtain ⟨a, i, reply, ha⟩ := Aggregator.exists_step?
            (h.hasEnded_eq_false (by rw [hd]; exact List.cons_ne_nil _ _))
            (fun hp => Inbox.stirs_of_query (hquery .asleep (by simp) hp))
          obtain ⟨y, hs, hdispatch, hsent, hreply, hdistance⟩ : ∃ y, step? s x .aggregator = some y ∧
              y.dispatch = x.dispatch ∧ y.sent = x.sent ∧ y.reply = reply ∧
              y.aggregator.distance y.inbox = a.distance i := by
            refine ⟨{ x with aggregator := a, inbox := i, reply := reply <|> x.reply }, ?_, rfl, rfl,
              ?_, rfl⟩
            · simp [step?, State.aggregatorStep?, ha]
            · simp [hr]
          have hy := h.step hs
          have hwaits := hdispatch.trans hd
          have hruling : y.ruling set policy t = x.ruling set policy t := by
            rw [State.ruling, State.ruling, hsent]
          rcases (Aggregator.steps_of_step? ha).distance_lt (hquery .listening (by simp)) with
            hsome | hlt
          · obtain ⟨r, rfl⟩ := Option.isSome_iff_exists.mp hsome
            obtain ⟨rfl, -⟩ := hy.talks.answer_eq hwaits hreply
            rw [hruling] at hreply
            exact ⟨1, y, by rw [List.replicate_one, steps?, hs]; rfl, hwaits, hreply⟩
          · rw [← hdistance, hn] at hlt
            obtain ⟨m, z, hsteps, hz, hanswer⟩ := ih _ hlt hy hwaits rfl
            rw [hruling] at hanswer
            exact ⟨m + 1, z, by rw [List.replicate_succ, steps?, hs]; exact hsteps, hz, hanswer⟩

/-! ## The answers -/

/-- The dispatcher is never told anything but what follows from the records of the results that it
had put on the stream when it asked, in their order. A question can be asked at once and the
aggregator alone answers it, and every call of the tool is made by a worker that was hired because
the answer was to proceed. -/
theorem Chronicle.told_from_stream (h : Chronicle s set policy cancelled x cs) :
    (∀ c ∈ cs, c.hearing = .awaited ∧ x.dispatch = .waiting c.task ∨
      c.hearing = .told (policy.decide c.task (set.linkedBundles c.task)
        (c.known.reverse.filterMap (Tally.record? set)))) ∧
    (∀ t, x.dispatch = .asking t → ∃ y, step? s x .dispatcher = some y ∧ y.dispatch = .waiting t) ∧
    (∀ t, x.dispatch = .waiting t → ∃ n y, steps? s x (List.replicate n .aggregator) = some y ∧
      y.dispatch = .waiting t ∧ y.reply = some (.decision (policy.decide t (set.linkedBundles t)
        (x.sent.reverse.filterMap (Tally.record? set))))) ∧
    ∀ i ∈ x.calls, ∃ c ∈ cs, c.worker = some i.worker ∧ c.task = i.task ∧
      c.hearing = .told .proceed := by
  have hx := h.reachable
  refine ⟨fun c hc => h.fits.isSound hc, fun t hd => hx.asks hd, ?_, h.fits.calls⟩
  intro t hd
  obtain ⟨n, y, hsteps, hy, hanswer⟩ := hx.isAnswered hd
  rw [x.ruling_eq] at hanswer
  exact ⟨n, y, hsteps, hy, hanswer⟩

/-- The image fails while the aggregator has already looked for results in vain and waits for a
question. It is told of the failure before it answers the question about the bundle. -/
theorem told_from_stream_of_late_failure :
    ∃ x cs, Chronicle frugal bundleBehind ⟨.mirrorToMirror, false⟩ false x cs ∧
      cs.map (fun c => (c.task.origin, c.known.length, decide (c.hearing = .told .proceed))) =
        [("b", 1, false), ("a", 0, true)] ∧
      (∀ c ∈ cs, c.hearing = .awaited ∧ x.dispatch = .waiting c.task ∨
        c.hearing = .told (SkipPolicy.decide ⟨.mirrorToMirror, false⟩ c.task
          (bundleBehind.linkedBundles c.task)
          (c.known.reverse.filterMap (Tally.record? bundleBehind)))) ∧
      ∀ i ∈ x.calls, ∃ c ∈ cs, c.worker = some i.worker ∧ c.task = i.task ∧
        c.hearing = .told .proceed := by
  have hrun : ((chronicle? frugal (State.start frugal bundleBehind ⟨.mirrorToMirror, false⟩ false) []
      (timing [(5, .dispatcher), (3, .aggregator), (1, .dispatcher), (1, .aggregator), (1, .begin 0),
        (1, .answer 0 (.failure ⟨.auth, "denied"⟩)), (1, .settle 0), (8, .dispatcher),
        (3, .aggregator), (1, .dispatcher)])).map (fun p => p.2.map (fun c =>
          (c.task.origin, c.known.length, decide (c.hearing = .told .proceed))))) =
      some [("b", 1, false), ("a", 0, true)] := by
    decide +kernel
  obtain ⟨⟨x, cs⟩, hx, hcs⟩ := Option.map_eq_some_iff.mp hrun
  have hchronicle := Chronicle.start.of_chronicle? hx
  obtain ⟨htold, -, -, hcalls⟩ := hchronicle.told_from_stream
  exact ⟨x, cs, hchronicle, hcs, htold, hcalls⟩

end ImageBatch.Engine
