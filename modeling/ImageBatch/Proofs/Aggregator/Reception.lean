import ImageBatch.Proofs.Aggregator.Order
import ImageBatch.Run

/-!
# What an aggregator takes in

The aggregator among those who send results and those who ask. Everybody who may ask holds a handle,
and handles come and go; once nobody holds one and no question waits, the aggregator listens no
more. Whatever happens around it, it takes in the results that come first, one for each task, leaves
the others where they are, and returns. If the stream is closed before, it says how many there were.
-/

namespace ImageBatch.Aggregator

/-! ## The aggregator and the handles -/

/-- An answer that was given. -/
structure Given where
  query : Query
  reply : Reply
  /-- The results that had been taken in then. -/
  taken : List Result
  /-- The results that had come then. -/
  delivered : List Result

/-- The answer to a question that follows from some results. -/
def answerFrom (set : TaskSet) (policy : SkipPolicy) (rs : List Result) : Query → Reply
  | .decide t =>
    .decision (policy.decide t (set.linkedBundles t) (rs.filterMap (Tally.record? set)))
  | .records => .records (rs.filterMap (Tally.record? set))

/-- The answer follows from the results that had been taken in, and these were all that had come, or
one for each task. -/
structure Given.IsSound (set : TaskSet) (policy : SkipPolicy) (g : Given) : Prop where
  taken : g.taken = g.delivered.take set.tasks.length
  reply : g.reply = answerFrom set policy g.taken g.query

structure Reception extends Intake where
  /-- How many handles there are. -/
  askers : Nat
  /-- The aggregator looks for questions. -/
  listens : Bool
  /-- The answers, newest first. -/
  given : List Given

/-- What happens to the aggregator. -/
inductive Incident where
  | result (r : Result)
  | ask (q : Query)
  /-- No more results will come. -/
  | close
  /-- Another handle is made from one that there is. -/
  | share
  /-- A handle is dropped. -/
  | drop
  /-- The aggregator moves on. -/
  | step

def Incident.isStep : Incident → Bool
  | .step => true
  | _ => false

/-- What comes of an aggregator that has returned. -/
def returned? (a : Aggregator) : Option (Except Error Tally) :=
  match a.phase with
  | .finished => some (.ok a.tally)
  | .incomplete => some (.error (.incomplete a.expected a.tally.received))
  | _ => none

/-- How many steps at most there are between a phase and the end, apart from those that take in a
result. -/
def Phase.stepsLeft : Phase → Nat
  | .polling => 1
  | .answering _ => 2
  | .asleep => 2
  | .listening => 3
  | .finished => 0
  | .incomplete => 0

theorem stepsLeft_settledPhase_le (n m : Nat) : (settledPhase n m).stepsLeft ≤ 1 := by
  unfold settledPhase
  split <;> decide

theorem Phase.stepsLeft_le (p : Phase) : p.stepsLeft ≤ 3 := by
  cases p <;> simp [stepsLeft]

/-- A run whose aggregator did not get every result ends with the error that it returned. -/
theorem conclude_of_returned? {m : Type → Type} {η : Type} [Monad m] [Host m η] (p : Plan)
    (runId : String) (attempt : Nat) (elapsed : Span) {a : Aggregator} {e : Error}
    (h : a.returned? = some (.error e)) :
    Run.conclude p runId attempt elapsed a = (pure (.error e) : m Run.Ending) := by
  unfold returned? at h
  split at h
  · cases h
  · rename_i hp
    cases h
    rw [Run.conclude, if_neg (by simp [hp])]
  · cases h

namespace Reception

def start (set : TaskSet) (policy : SkipPolicy) : Reception :=
  ⟨.start set policy, 1, true, []⟩

/-- The results that have been taken in, oldest first. -/
def taken (x : Reception) : List Result := x.sent.reverse.take x.aggregator.tally.received

/-- Nobody can ask any more, and no question waits. -/
def isDeserted (x : Reception) : Bool := x.askers == 0 && x.inbox.queries.isEmpty

/-- Puts down an answer. -/
def put (x : Reception) : Option Reply → List Given
  | some reply =>
    match x.aggregator.phase with
    | .answering q => ⟨q, reply, x.taken, x.sent.reverse⟩ :: x.given
    | _ => x.given
  | none => x.given

def inPhase (x : Reception) (p : Phase) : Reception :=
  { x with aggregator := { x.aggregator with phase := p } }

/-- A step for which it does not matter who may ask. -/
def proceed? (x : Reception) : Option Reception :=
  (x.aggregator.step? x.inbox).map fun (a, i, reply) =>
    { x with aggregator := a, inbox := i, given := x.put reply }

/-- The next step of the aggregator, if there is one. That nobody can ask any more is noticed where
a question would be, and from then on only results are waited for. -/
def advance? (x : Reception) : Option Reception :=
  match x.aggregator.phase with
  | .listening =>
    if x.isDeserted then some { x.inPhase .polling with listens := false } else x.proceed?
  | .polling =>
    if !x.listens && x.inbox.results.isEmpty && x.inbox.resultsOpen then some (x.inPhase .asleep)
    else x.proceed?
  | .asleep => if x.listens && x.isDeserted then some (x.inPhase .polling) else x.proceed?
  | _ => x.proceed?

def step? (x : Reception) : Incident → Option Reception
  | .result r =>
    if x.inbox.resultsOpen && !x.aggregator.hasEnded then
      some { x with
        inbox := { x.inbox with results := x.inbox.results ++ [r] }, sent := r :: x.sent }
    else none
  | .ask q =>
    if 0 < x.askers && !x.aggregator.hasEnded then
      some { x with inbox := { x.inbox with queries := x.inbox.queries ++ [q] } }
    else none
  | .close => some { x with inbox := { x.inbox with resultsOpen := false } }
  | .share => if 0 < x.askers then some { x with askers := x.askers + 1 } else none
  | .drop => if 0 < x.askers then some { x with askers := x.askers - 1 } else none
  | .step => x.advance?

def steps? (x : Reception) : List Incident → Option Reception
  | [] => some x
  | e :: es => (x.step? e).bind (fun y => steps? y es)

variable {set : TaskSet} {policy : SkipPolicy} {x y : Reception} {e : Incident} {es : List Incident}

/-- The rules by which the aggregator moves on. -/
inductive Advances (x : Reception) : Reception → Prop where
  | leave (hp : x.aggregator.phase = .listening) (hd : x.isDeserted = true) :
    Advances x { x.inPhase .polling with listens := false }
  | rest (hp : x.aggregator.phase = .polling) (hl : x.listens = false) (hr : x.inbox.results = [])
      (ho : x.inbox.resultsOpen = true) : Advances x (x.inPhase .asleep)
  | look (hp : x.aggregator.phase = .asleep) : Advances x (x.inPhase .polling)
  | proceed {a i reply} (h : x.aggregator.step? x.inbox = some (a, i, reply)) :
    Advances x { x with aggregator := a, inbox := i, given := x.put reply }

theorem advances_of_proceed? (h : x.proceed? = some y) : x.Advances y := by
  obtain ⟨⟨a, i, reply⟩, ha, rfl⟩ := Option.map_eq_some_iff.mp h
  exact .proceed ha

theorem advances_of_advance? (h : x.advance? = some y) : x.Advances y := by
  unfold advance? at h
  split at h
  · rename_i hp
    split at h
    · rename_i hd
      cases h
      exact .leave hp hd
    · exact advances_of_proceed? h
  · rename_i hp
    split at h
    · rename_i hrest
      simp only [Bool.and_eq_true, Bool.not_eq_true', List.isEmpty_iff] at hrest
      obtain ⟨⟨hl, hr⟩, ho⟩ := hrest
      cases h
      exact .rest hp hl hr ho
    · exact advances_of_proceed? h
  · rename_i hp
    split at h
    · cases h
      exact .look hp
    · exact advances_of_proceed? h
  · exact advances_of_proceed? h

/-! ## What is taken in -/

/-- The aggregator knows just what it has taken in, every answer was sound, and nobody who may ask
is left without a hearing. -/
structure Keeps (set : TaskSet) (policy : SkipPolicy) (x : Reception) : Prop where
  intake : x.toIntake.Keeps set policy
  given : ∀ g ∈ x.given, g.IsSound set policy ∧ g.delivered <+: x.sent.reverse
  deaf : x.listens = false → x.askers = 0 ∧ x.inbox.queries = []

theorem start_keeps (set : TaskSet) (policy : SkipPolicy) : (start set policy).Keeps set policy :=
  ⟨Intake.start_keeps set policy, List.forall_mem_nil _, nofun⟩

namespace Keeps

theorem taken (hx : x.Keeps set policy) : x.sent.reverse = x.taken ++ x.inbox.results ∧
    x.aggregator.tally = (Tally.start set).addAll set x.taken ∧
    x.taken.length = x.aggregator.tally.received := by
  obtain ⟨taken, hsent, htally⟩ := hx.intake.stream.taken
  have hreceived : x.aggregator.tally.received = taken.length := by
    rw [htally, Tally.received_addAll, Tally.received_start, Nat.zero_add]
  have htaken : x.taken = taken := by rw [Reception.taken, hreceived, hsent, List.take_left]
  rw [htaken]
  exact ⟨hsent, htally, hreceived.symm⟩

theorem length_sent (hx : x.Keeps set policy) :
    x.sent.length = x.aggregator.tally.received + x.inbox.results.length := by
  obtain ⟨hsent, -, hreceived⟩ := hx.taken
  rw [← hreceived, ← List.length_append, ← hsent, List.length_reverse]

theorem answer_eq (hx : x.Keeps set policy) (q : Query) :
    x.aggregator.answer q = answerFrom set policy x.taken q := by
  have hstream := hx.intake.stream
  have herrors : x.aggregator.tally.errors = x.taken.filterMap (Tally.record? set) := by
    rw [hx.taken.2.1, Tally.errors_addAll]
    rfl
  cases q with
  | decide t => rw [answer, hstream.policy_eq, hstream.set_eq, herrors, answerFrom]
  | records => rw [answer, herrors, answerFrom]

theorem inPhase (hx : x.Keeps set policy) (hp : x.aggregator.phase ≠ .finished)
    (hq : ∀ q, x.aggregator.phase ≠ .answering q) {p : Phase} (hp' : p ≠ .finished)
    (hi : p ≠ .incomplete) : (x.inPhase p).Keeps set policy := by
  have hstream := hx.intake.stream
  refine ⟨⟨⟨hstream.set_eq, hstream.policy_eq, hstream.taken, ?_, ?_, ?_⟩, hx.intake.received_le⟩,
    hx.given, hx.deaf⟩
  · exact fun h => (hp' h).elim
  · exact fun _ _ => hstream.missing hp hq
  · exact fun h => (hi h).elim

theorem put (hx : x.Keeps set policy) {b : Aggregator} {i : Inbox} {reply : Option Reply}
    (h : x.aggregator.Steps x.inbox b i reply) :
    ∀ g ∈ x.put reply, g.IsSound set policy ∧ g.delivered <+: x.sent.reverse := by
  cases h with
  | take | listen | breakOff | hear | rest | wake | catchUp => exact hx.given
  | @answer q hp hi =>
      rw [Reception.put, hp]
      intro g hg
      rcases List.mem_cons.mp hg with rfl | hg
      · refine ⟨⟨?_, hx.answer_eq q⟩, List.prefix_refl _⟩
        obtain ⟨hsent, -, hreceived⟩ := hx.taken
        rcases hi with hnone | hall
        · have hle : x.sent.reverse.length ≤ set.tasks.length := by
            rw [hsent, hnone, List.append_nil, hreceived]
            exact hx.intake.received_le
          rw [List.take_of_length_le hle, hsent, hnone, List.append_nil]
        · rw [hx.intake.stream.expected_eq] at hall
          rw [Reception.taken, Nat.le_antisymm hx.intake.received_le hall]
      · exact hx.given g hg

theorem advances (hx : x.Keeps set policy) (h : x.Advances y) : y.Keeps set policy := by
  cases h with
  | leave hp hd =>
      have hpolling := hx.inPhase (p := .polling) (by simp [hp]) (by simp [hp]) (by simp) (by simp)
      have hnobody : x.askers = 0 ∧ x.inbox.queries = [] := by simpa [isDeserted] using hd
      exact ⟨hpolling.intake, hpolling.given, fun _ => hnobody⟩
  | rest hp => exact hx.inPhase (by simp [hp]) (by simp [hp]) (by simp) (by simp)
  | look hp => exact hx.inPhase (by simp [hp]) (by simp [hp]) (by simp) (by simp)
  | @proceed a i reply h =>
      have hs : x.toIntake.step? .step = some { x.toIntake with aggregator := a, inbox := i } := by
        rw [Intake.step?, h]
        rfl
      refine ⟨hx.intake.step hs, hx.put (steps_of_step? h), fun hl => ?_⟩
      obtain ⟨ha, hq⟩ := hx.deaf hl
      refine ⟨ha, ?_⟩
      cases steps_of_step? h with
      | hear hp hq' => exact absurd hq (by simp [hq'])
      | take | listen | breakOff | rest | wake | catchUp | answer => exact hq

theorem step (hx : x.Keeps set policy) (hs : x.step? e = some y) : y.Keeps set policy := by
  have hstream := hx.intake.stream
  cases e with
  | result r =>
      simp only [step?, Option.ite_none_right_eq_some, Bool.and_eq_true, Bool.not_eq_true',
        Option.some.injEq] at hs
      obtain ⟨⟨-, he⟩, rfl⟩ := hs
      refine ⟨⟨hstream.send he r, hx.intake.received_le⟩, fun g hg => ?_, hx.deaf⟩
      refine ⟨(hx.given g hg).1, (hx.given g hg).2.trans ?_⟩
      rw [List.reverse_cons]
      exact List.prefix_append _ _
  | ask q =>
      simp only [step?, Option.ite_none_right_eq_some, Bool.and_eq_true, decide_eq_true_eq,
        Option.some.injEq] at hs
      obtain ⟨⟨ha, -⟩, rfl⟩ := hs
      refine ⟨⟨⟨hstream.set_eq, hstream.policy_eq, hstream.taken, hstream.finished, hstream.missing,
        hstream.incomplete⟩, hx.intake.received_le⟩, hx.given, fun hl => ?_⟩
      exact absurd (hx.deaf hl).1 (Nat.ne_of_gt ha)
  | close =>
      cases hs
      exact ⟨⟨hstream.close, hx.intake.received_le⟩, hx.given, hx.deaf⟩
  | share =>
      simp only [step?, Option.ite_none_right_eq_some, Option.some.injEq] at hs
      obtain ⟨ha, rfl⟩ := hs
      exact ⟨hx.intake, hx.given, fun hl => absurd (hx.deaf hl).1 (Nat.ne_of_gt ha)⟩
  | drop =>
      simp only [step?, Option.ite_none_right_eq_some, Option.some.injEq] at hs
      obtain ⟨ha, rfl⟩ := hs
      exact ⟨hx.intake, hx.given, fun hl => absurd (hx.deaf hl).1 (Nat.ne_of_gt ha)⟩
  | step => exact hx.advances (advances_of_advance? hs)

theorem steps (hx : x.Keeps set policy) (hs : x.steps? es = some y) : y.Keeps set policy := by
  induction es generalizing x with
  | nil =>
      cases hs
      exact hx
  | cons e es ih =>
      obtain ⟨z, hz, hs⟩ := Option.bind_eq_some_iff.mp hs
      exact ih (hx.step hz) hs

end Keeps

/-! ## The aggregator returns -/

/-- Nothing that may still happen changes what the aggregator returns. -/
def IsDecided (set : TaskSet) (x : Reception) : Prop :=
  set.tasks.length ≤ x.sent.length ∨ x.inbox.resultsOpen = false

/-- How many results the aggregator still takes in at most, as far as they have come. -/
def room (x : Reception) : Nat :=
  min x.inbox.results.length (x.aggregator.expected - x.aggregator.tally.received)

/-- How many steps the aggregator takes at most before it returns, once that is decided. -/
def stepsLeft (x : Reception) : Nat := x.room + x.aggregator.phase.stepsLeft

theorem Keeps.exists_result (hx : x.Keeps set policy) (hle : set.tasks.length ≤ x.sent.length)
    (hp : x.aggregator.phase ≠ .finished) (hq : ∀ q, x.aggregator.phase ≠ .answering q) :
    x.inbox.results ≠ [] := by
  intro hnone
  have hlength := hx.length_sent
  have hmissing := hx.intake.stream.missing hp hq
  rw [hnone, List.length_nil] at hlength
  omega

/-- A step that takes in nothing leads to a phase that is nearer to the end. -/
theorem stepsLeft_lt_of_phase (hroom : y.room = x.room)
    (hp : y.aggregator.phase.stepsLeft < x.aggregator.phase.stepsLeft) :
    y.stepsLeft < x.stepsLeft := by
  rw [stepsLeft, stepsLeft, hroom]
  exact Nat.add_lt_add_left hp x.room

theorem Keeps.stepsLeft_lt (hx : x.Keeps set policy) (hd : x.IsDecided set) (h : x.Advances y) :
    y.stepsLeft < x.stepsLeft := by
  cases h with
  | leave hp | look hp =>
      refine stepsLeft_lt_of_phase rfl ?_
      simp [Reception.inPhase, hp, Phase.stepsLeft]
  | rest hp hl hr ho =>
      have hopen := hd.resolve_right (by simp [ho])
      exact absurd hr (hx.exists_result hopen (by simp [hp]) (by simp [hp]))
  | @proceed a i reply h =>
      cases steps_of_step? h with
      | @take r rs hp hr =>
          have hmissing := hx.intake.stream.missing (by simp [hp]) (by simp [hp])
          rw [← hx.intake.stream.expected_eq] at hmissing
          have hsettled := stepsLeft_settledPhase_le (x.aggregator.tally.received + 1)
            x.aggregator.expected
          simp only [Reception.stepsLeft, Reception.room, Aggregator.take, Tally.add, expected, hp,
            hr, Phase.stepsLeft, List.length_cons] at hmissing hsettled ⊢
          omega
      | listen hp hr ho =>
          have hopen := hd.resolve_right (by simp [ho])
          exact absurd hr (hx.exists_result hopen (by simp [hp]) (by simp [hp]))
      | breakOff hp | hear hp | rest hp | wake hp =>
          refine stepsLeft_lt_of_phase rfl ?_
          simp [hp, Phase.stepsLeft]
      | catchUp hp hr hlt =>
          simp only [Reception.stepsLeft, Reception.room, takeQuietly, Tally.add, expected, hp, hr,
            Phase.stepsLeft, List.length_cons] at hlt ⊢
          omega
      | answer hp hi =>
          refine stepsLeft_lt_of_phase rfl ?_
          have hsettled := stepsLeft_settledPhase_le x.aggregator.tally.received
            x.aggregator.expected
          rw [hp]
          exact Nat.lt_succ_of_le hsettled

theorem Keeps.stepsLeft_le (hx : x.Keeps set policy) (hd : x.IsDecided set)
    (hs : x.step? e = some y) (he : e.isStep = false) : y.stepsLeft ≤ x.stepsLeft := by
  cases e with
  | result r =>
      simp only [step?, Option.ite_none_right_eq_some, Bool.and_eq_true, Option.some.injEq] at hs
      obtain ⟨⟨ho, -⟩, rfl⟩ := hs
      have hlength := hx.length_sent
      have hexpected := hx.intake.stream.expected_eq
      have hall := hd.resolve_right (by simp [ho])
      simp only [Reception.stepsLeft, Reception.room, List.length_append, List.length_singleton]
      omega
  | ask q =>
      simp only [step?, Option.ite_none_right_eq_some, Option.some.injEq] at hs
      obtain ⟨-, rfl⟩ := hs
      exact Nat.le_refl _
  | close =>
      cases hs
      exact Nat.le_refl _
  | share | drop =>
      simp only [step?, Option.ite_none_right_eq_some, Option.some.injEq] at hs
      obtain ⟨-, rfl⟩ := hs
      exact Nat.le_refl _
  | step => cases he

theorem IsDecided.step (hd : x.IsDecided set) (hs : x.step? e = some y) : y.IsDecided set := by
  cases e with
  | result r =>
      simp only [step?, Option.ite_none_right_eq_some, Option.some.injEq] at hs
      obtain ⟨-, rfl⟩ := hs
      exact hd.imp_left Nat.le_succ_of_le
  | ask q | share | drop =>
      simp only [step?, Option.ite_none_right_eq_some, Option.some.injEq] at hs
      obtain ⟨-, rfl⟩ := hs
      exact hd
  | close =>
      cases hs
      exact .inr rfl
  | step =>
      cases advances_of_advance? hs with
      | leave | rest | look => exact hd
      | proceed h =>
          refine hd.imp_right fun ho => ?_
          exact (Engine.resultsOpen_of_steps (steps_of_step? h)).trans ho

/-- Whatever happens in between, the aggregator takes no more steps than are left. -/
theorem Keeps.countP_steps_le (hx : x.Keeps set policy) (hd : x.IsDecided set)
    (hs : x.steps? es = some y) : es.countP Incident.isStep + y.stepsLeft ≤ x.stepsLeft := by
  induction es generalizing x with
  | nil =>
      cases hs
      exact Nat.le_of_eq (Nat.zero_add _)
  | cons e es ih =>
      obtain ⟨z, hz, hs⟩ := Option.bind_eq_some_iff.mp hs
      have hrest := ih (hx.step hz) (hd.step hz) hs
      cases he : e.isStep with
      | true =>
          have hstep : z.stepsLeft < x.stepsLeft := by
            cases e with
            | step => exact hx.stepsLeft_lt hd (advances_of_advance? hz)
            | _ => cases he
          rw [List.countP_cons_of_pos he]
          omega
      | false =>
          have hle := hx.stepsLeft_le hd hz he
          rw [List.countP_cons_of_neg (by simp [he])]
          omega

/-- Once it is decided what the aggregator returns, it can move on until it has returned. -/
theorem Keeps.exists_advance (hx : x.Keeps set policy) (hd : x.IsDecided set)
    (he : x.aggregator.hasEnded = false) : ∃ y, x.advance? = some y := by
  have hstirs : x.aggregator.phase = .asleep → x.inbox.stirs := by
    rintro hp ⟨hr, ho, -⟩
    have hopen := hd.resolve_right (by simp [ho])
    exact hx.exists_result hopen (by simp [hp]) (by simp [hp]) hr
  have hproceed : ∃ y, x.proceed? = some y := by
    obtain ⟨a, i, reply, h⟩ := exists_step? he hstirs
    exact ⟨_, by rw [Reception.proceed?, h]; rfl⟩
  unfold advance?
  split
  · split
    · exact ⟨_, rfl⟩
    · exact hproceed
  · split
    · exact ⟨_, rfl⟩
    · exact hproceed
  · split
    · exact ⟨_, rfl⟩
    · exact hproceed
  · exact hproceed

theorem Keeps.stepsLeft_bound (hx : x.Keeps set policy) : x.stepsLeft ≤ set.tasks.length + 3 := by
  have hexpected := hx.intake.stream.expected_eq
  have hphase := x.aggregator.phase.stepsLeft_le
  rw [Reception.stepsLeft, Reception.room]
  omega

/-- What the aggregator returns: what the results that came first add up to, one for each task, and
then the others are still in the stream; or how many results there were before the stream was
closed. -/
theorem Keeps.returned (hx : x.Keeps set policy) {outcome : Except Error Tally}
    (h : x.aggregator.returned? = some outcome) :
    if set.tasks.length ≤ x.sent.length then
      outcome = .ok ((Tally.start set).addAll set (x.sent.reverse.take set.tasks.length)) ∧
        x.inbox.results = x.sent.reverse.drop set.tasks.length
    else x.inbox.resultsOpen = false ∧
      outcome = .error (.incomplete set.tasks.length x.sent.length) := by
  obtain ⟨hsent, htally, hreceived⟩ := hx.taken
  have hlength := hx.length_sent
  have hstream := hx.intake.stream
  unfold returned? at h
  split at h
  · rename_i hp
    cases h
    have hall : x.taken.length = set.tasks.length :=
      hreceived.trans (Nat.le_antisymm hx.intake.received_le (hstream.finished hp))
    rw [if_pos (by omega), htally, hsent, ← hall, List.take_left, List.drop_left]
    exact ⟨rfl, rfl⟩
  · rename_i hp
    cases h
    obtain ⟨hclosed, hnone⟩ := hstream.incomplete hp
    have hmissing := hstream.missing (by simp [hp]) (by simp [hp])
    rw [hnone, List.length_nil, Nat.add_zero] at hlength
    rw [if_neg (by omega), hstream.expected_eq, hlength]
    exact ⟨hclosed, rfl⟩
  · cases h

theorem hasEnded_of_returned? (a : Aggregator) : a.hasEnded = a.returned?.isSome := by
  unfold hasEnded returned?
  cases a.phase <;> rfl

/-- Whatever results come, whenever the stream is closed, whatever is asked and whoever drops its
handle: the aggregator takes in the results in the order in which they come and never more than one
for each task, and what it answers follows from those that it has taken in, which are all that have
come by then. If there are enough of them before the stream is closed it returns what the first ones
add up to and leaves the others; if not, it returns how many there were. Once that is decided, it
can move on until it has returned, and does so in so many steps whatever else happens. -/
theorem takes_exactly (h : (start set policy).steps? es = some x) :
    (x.sent.reverse = x.taken ++ x.inbox.results ∧ x.taken.length ≤ set.tasks.length ∧
      x.aggregator.tally = (Tally.start set).addAll set x.taken) ∧
    (∀ g ∈ x.given, g.delivered <+: x.sent.reverse ∧
      g.taken = g.delivered.take set.tasks.length ∧
      g.reply = answerFrom set policy g.taken g.query) ∧
    (∀ outcome, x.aggregator.returned? = some outcome →
      if set.tasks.length ≤ x.sent.length then
        outcome = .ok ((Tally.start set).addAll set (x.sent.reverse.take set.tasks.length)) ∧
          x.inbox.results = x.sent.reverse.drop set.tasks.length
      else x.inbox.resultsOpen = false ∧
        outcome = .error (.incomplete set.tasks.length x.sent.length)) ∧
    (set.tasks.length ≤ x.sent.length ∨ x.inbox.resultsOpen = false →
      (x.aggregator.returned? = none → ∃ y, x.step? .step = some y) ∧
      ∀ es y, x.steps? es = some y → es.countP Incident.isStep ≤ set.tasks.length + 3) := by
  have hx := (start_keeps set policy).steps h
  obtain ⟨hsent, htally, hreceived⟩ := hx.taken
  refine ⟨⟨hsent, hreceived ▸ hx.intake.received_le, htally⟩, ?_, fun o ho => hx.returned ho, ?_⟩
  · intro g hg
    obtain ⟨hsound, hbegin⟩ := hx.given g hg
    exact ⟨hbegin, hsound.taken, hsound.reply⟩
  · intro hd
    refine ⟨fun hnone => hx.exists_advance hd ?_, fun es y hs => ?_⟩
    · rw [hasEnded_of_returned?, hnone]
      rfl
    · have hsteps := hx.countP_steps_le hd hs
      have hbound := hx.stepsLeft_bound
      omega

/-- While a question waits the first result comes, then both handles are dropped, and four results
come for three tasks. -/
def surplus : List Incident :=
  [.step, .share, .ask .records,
    .result (.failure (Engine.plainImage "a") ⟨.network, "timeout"⟩ 3), .step, .step, .drop, .drop,
    .step, .step, .step, .step, .result (.success (Engine.plainImage "b") 1),
    .result (.success (Engine.plainImage "c") 1), .result (.success (Engine.plainImage "a") 1),
    .step, .step, .step]

/-- One result comes before the stream is closed. -/
def closedEarly : List Incident :=
  [.result (.success (Engine.plainImage "a") 1), .close, .step, .step]

theorem takes_exactly_of_surplus :
    (∃ x t, (start Engine.threeImages ⟨.mirrorToMirror, false⟩).steps? surplus = some x ∧
      x.aggregator.returned? = some (.ok t) ∧ x.listens = false ∧
      t = (Tally.start Engine.threeImages).addAll Engine.threeImages (x.sent.reverse.take 3) ∧
      x.inbox.results = [.success (Engine.plainImage "a") 1] ∧
      x.given.map (fun g => g.taken.length) = [1] ∧
      ∀ g ∈ x.given,
        g.reply = answerFrom Engine.threeImages ⟨.mirrorToMirror, false⟩ g.taken g.query) ∧
    ∃ x, (start Engine.threeImages ⟨.mirrorToMirror, false⟩).steps? closedEarly = some x ∧
      x.aggregator.returned? = some (.error (.incomplete 3 1)) := by
  refine ⟨?_, ?_⟩
  · have hrun : ((start Engine.threeImages ⟨.mirrorToMirror, false⟩).steps? surplus).map (fun x =>
        (x.aggregator.phase, x.listens, x.sent.length, x.inbox.results,
          x.given.map (fun g => g.taken.length))) =
        some (.finished, false, 4, [.success (Engine.plainImage "a") 1], [1]) := by
      decide +kernel
    obtain ⟨x, hx, hends⟩ := Option.map_eq_some_iff.mp hrun
    simp only [Prod.mk.injEq] at hends
    obtain ⟨hf, hl, hsent, hrest, hgiven⟩ := hends
    obtain ⟨-, hanswers, hreturned, -⟩ := takes_exactly hx
    have hok : x.aggregator.returned? = some (.ok x.aggregator.tally) := by rw [returned?, hf]
    have hfirst := hreturned _ hok
    rw [if_pos (by rw [hsent]; decide)] at hfirst
    exact ⟨x, _, hx, hok, hl, Except.ok.inj hfirst.1, hrest, hgiven,
      fun g hg => (hanswers g hg).2.2⟩
  · have hrun : ((start Engine.threeImages ⟨.mirrorToMirror, false⟩).steps? closedEarly).map
        (fun x => (x.aggregator.phase, x.sent.length)) = some (.incomplete, 1) := by
      decide +kernel
    obtain ⟨x, hx, hends⟩ := Option.map_eq_some_iff.mp hrun
    obtain ⟨hi, hsent⟩ := Prod.mk.inj hends
    obtain ⟨-, -, hreturned, -⟩ := takes_exactly hx
    obtain ⟨outcome, houtcome⟩ : ∃ outcome, x.aggregator.returned? = some outcome := by
      rw [returned?, hi]
      exact ⟨_, rfl⟩
    have hearly := hreturned outcome houtcome
    rw [if_neg (by rw [hsent]; decide), hsent] at hearly
    rw [hearly.2] at houtcome
    exact ⟨x, hx, houtcome⟩

end Reception

end ImageBatch.Aggregator
