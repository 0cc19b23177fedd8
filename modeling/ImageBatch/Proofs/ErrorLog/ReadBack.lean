import ImageBatch.ErrorLog.Entry
import ImageBatch.Proofs.TaskSet
import ImageBatch.Proofs.Text.Lines
import Mathlib.Data.List.Infix

/-!
# Reading a log back

A log that was written names the origins of its records again, whatever the messages say: a message
stays on its line, an origin ends where its category begins, and no heading looks like an entry. An
origin may hold blanks, as long as nothing in it looks like a category.
-/

namespace ImageBatch.ErrorLog

open Text

/-! ## Nothing in a line breaks it -/

theorem newline_not_mem_toDigits (n : Nat) : '\n' ∉ Nat.toDigits 10 n := by
  intro h
  have hdigit := Nat.isDigit_of_mem_toDigits (by decide) (by decide) h
  revert hdigit
  decide

theorem newline_not_mem_padded (width n : Nat) : '\n' ∉ (padded width n).toList := by
  simp [padded, newline_not_mem_toDigits]

theorem newline_not_mem_millisStamp (t : Instant) : '\n' ∉ t.millisStamp.toList := by
  have hyear : '\n' ∉ (yearText t.date.year).toList := by
    unfold yearText
    split
    · exact newline_not_mem_padded _ _
    · split <;> simp [newline_not_mem_padded]
  simp [Instant.millisStamp, Instant.stampHead, hyear, newline_not_mem_padded]

theorem newline_not_mem_fixed (places : Nat) (x : Binary64) :
    '\n' ∉ (x.fixed places).toList := by
  unfold Binary64.fixed
  split
  · simp
  · split <;> simp
  · rename_i s a
    cases s <;> by_cases hp : places = 0 <;>
      simp [hp, newline_not_mem_toDigits, digitsOf]

theorem newline_not_mem_heading {runId : String} (h : '\n' ∉ runId.toList) (written : Instant)
    (s : Statistics) : ∀ l ∈ heading runId written s, '\n' ∉ l.toList := by
  simp [heading, h, newline_not_mem_millisStamp, newline_not_mem_fixed, newline_not_mem_toDigits]

theorem onOneLine_clean (message : String) {c : Char} (h : c = '\r' ∨ c = '\n') :
    c ∉ (onOneLine message).toList := by
  rw [onOneLine, String.toList_map]
  intro hc
  obtain ⟨d, -, hd⟩ := List.mem_map.mp hc
  split at hd
  · rw [← hd] at h
    revert h
    decide
  · rename_i hclean
    rw [hd] at hclean
    exact hclean h

/-! ## Legible origins -/

/-- A category in brackets and a colon, as they stand behind an origin. -/
def IsMark (mark : List Char) : Prop :=
  ∃ label, label ≠ [] ∧ (∀ c ∈ label, isCategoryChar c = true) ∧
    mark = middle ++ (label ++ closing)

/-- Behind such an origin a category is not to be mistaken. -/
structure IsLegible (origin : String) : Prop where
  nonempty : origin ≠ ""
  onOneLine : '\n' ∉ origin.toList
  unmarked : ∀ mark, IsMark mark → ¬ mark <:+: origin.toList

theorem after?_eq_some {word cs rest : List Char} :
    after? word cs = some rest ↔ cs = word ++ rest := by
  unfold after?
  constructor
  · intro h
    split at h
    · rename_i hword
      obtain ⟨cs, rfl⟩ := List.isPrefixOf_iff_prefix.mp hword
      rw [List.drop_left, Option.some.injEq] at h
      rw [h]
    · cases h
  · rintro rfl
    rw [if_pos (List.isPrefixOf_iff_prefix.mpr (List.prefix_append word rest)), List.drop_left]

theorem startsWithCategory_iff {cs : List Char} :
    startsWithCategory cs = true ↔ ∃ mark, IsMark mark ∧ mark <+: cs := by
  constructor
  · intro h
    unfold startsWithCategory at h
    split at h
    · cases h
    · rename_i rest hrest
      rw [Bool.and_eq_true, Bool.not_eq_true', List.isEmpty_eq_false_iff] at h
      obtain ⟨z, hz⟩ := List.isPrefixOf_iff_prefix.mp h.2
      refine ⟨_, ⟨_, h.1, ?_, rfl⟩, z, ?_⟩
      · exact List.all_eq_true.mp List.all_takeWhile
      · rw [after?_eq_some.mp hrest, List.append_assoc, List.append_assoc, hz,
          List.takeWhile_append_dropWhile]
  · rintro ⟨-, ⟨label, hne, hlabel, rfl⟩, z, rfl⟩
    have hstop : isCategoryChar ')' = false := by decide
    have hclosing : closing ++ z = ')' :: ':' :: z := rfl
    have hrest : after? middle (middle ++ (label ++ closing) ++ z) =
        some (label ++ (closing ++ z)) :=
      after?_eq_some.mpr (by simp only [List.append_assoc])
    simp only [startsWithCategory, hrest]
    rw [List.takeWhile_append_of_pos hlabel, List.dropWhile_append_of_pos hlabel, hclosing,
      List.takeWhile_cons_of_neg (by simp [hstop]), List.dropWhile_cons_of_neg (by simp [hstop]),
      List.append_nil]
    simpa using ⟨hne, List.prefix_append closing z⟩

theorem unmarked_iff {cs : List Char} : (∀ mark, IsMark mark → ¬ mark <:+: cs) ↔
    ∀ t ∈ cs.tails, startsWithCategory t = false := by
  constructor
  · intro h t ht
    rw [List.mem_tails] at ht
    by_contra hstarts
    obtain ⟨mark, hmark, hfront⟩ := startsWithCategory_iff.mp (Bool.not_eq_false _ ▸ hstarts)
    exact h mark hmark (List.infix_iff_prefix_suffix.mpr ⟨t, hfront, ht⟩)
  · intro h mark hmark hwithin
    obtain ⟨t, hfront, ht⟩ := List.infix_iff_prefix_suffix.mp hwithin
    have hnot := h t ((List.mem_tails _ _).mpr ht)
    rw [startsWithCategory_iff.mpr ⟨mark, hmark, hfront⟩] at hnot
    cases hnot

theorem isLegible_iff {origin : String} : IsLegible origin ↔ origin ≠ "" ∧ '\n' ∉ origin.toList ∧
    ∀ t ∈ origin.toList.tails, startsWithCategory t = false :=
  ⟨fun h => ⟨h.nonempty, h.onOneLine, unmarked_iff.mp h.unmarked⟩,
    fun h => ⟨h.1, h.2.1, unmarked_iff.mpr h.2.2⟩⟩

instance (origin : String) : Decidable (IsLegible origin) := decidable_of_iff _ isLegible_iff.symm

theorem isLegible_of_isUsableOrigin {origin : String}
    (h : TaskSet.isUsableOrigin origin = true) : IsLegible origin := by
  simp only [TaskSet.isUsableOrigin, Bool.and_eq_true, Bool.not_eq_true', List.any_eq_false,
    String.isEmpty_eq_false_iff] at h
  obtain ⟨hne, hblank⟩ := h
  refine ⟨hne, fun hm => hblank '\n' hm (by decide), ?_⟩
  rintro mark ⟨label, -, -, rfl⟩ hwithin
  have hmem : ' ' ∈ middle ++ (label ++ closing) := List.mem_append_left _ (by decide)
  exact hblank ' ' (hwithin.subset hmem) (by decide)

/-! ## The origin of an entry -/

theorem IsMark.exists_bracket {mark : List Char} (h : IsMark mark) :
    ∃ rest, mark = ' ' :: '(' :: rest := by
  obtain ⟨label, -, -, rfl⟩ := h
  exact ⟨_, rfl⟩

/-- A mark that begins in front of another one does not run into it: they would share one blank, but
behind that blank the one has a letter and the other a bracket. -/
theorem IsMark.prefix_of_overlap {mark later o rest : List Char} (h : IsMark mark)
    (hlater : IsMark later) (ho : o ≠ []) (hp : mark <+: o ++ (later ++ rest)) : mark <+: o := by
  obtain ⟨z, hz⟩ := hp
  obtain ⟨later, rfl⟩ := hlater.exists_bracket
  rcases List.append_eq_append_iff.mp hz with ⟨k, ho', -⟩ | ⟨k, hmark, hk⟩
  · exact ⟨k, ho'.symm⟩
  · cases k with
    | nil => exact ⟨[], by rw [List.append_nil, hmark, List.append_nil]⟩
    | cons c k =>
        obtain ⟨label, hne, hlabel, rfl⟩ := h
        obtain ⟨a, o, rfl⟩ := List.exists_cons_of_ne_nil ho
        simp only [List.cons_append, List.cons.injEq] at hk
        obtain ⟨rfl, hk⟩ := hk
        have hmiddle : middle = ' ' :: ("(category:".toList ++ [' ']) := by decide
        have hsplit : "(category:".toList ++ ' ' :: (label ++ closing) = o ++ ' ' :: k := by
          rw [hmiddle, List.cons_append, List.cons_append, List.append_assoc] at hmark
          exact (List.cons.inj hmark).2
        have hend : ' ' ∉ label ++ closing := by
          rw [List.mem_append]
          rintro (hm | hm)
          · exact absurd (hlabel _ hm) (by decide)
          · exact absurd hm (by decide)
        obtain ⟨-, -, rfl⟩ := (List.append_cons_inj_of_notMem (by decide) hend).mp hsplit
        obtain ⟨d, label, rfl⟩ := List.exists_cons_of_ne_nil hne
        have hd := hlabel _ List.mem_cons_self
        rw [← (List.cons.inj hk).1] at hd
        exact absurd hd (by decide)

variable {mark : List Char}

theorem untilCategory?_append {o : List Char} (ho : ∀ mark, IsMark mark → ¬ mark <:+: o)
    (hmark : IsMark mark) (rest : List Char) : untilCategory? (o ++ (mark ++ rest)) = some o := by
  induction o with
  | nil =>
      have hstarts : startsWithCategory (mark ++ rest) = true :=
        startsWithCategory_iff.mpr ⟨mark, hmark, List.prefix_append mark rest⟩
      obtain ⟨m, rfl⟩ := hmark.exists_bracket
      exact if_pos hstarts
  | cons c o ih =>
      have hnot : ¬ startsWithCategory (c :: (o ++ (mark ++ rest))) = true := by
        intro hstarts
        obtain ⟨m, hm, hfront⟩ := startsWithCategory_iff.mp hstarts
        exact ho m hm (hm.prefix_of_overlap hmark (List.cons_ne_nil c o) hfront).isInfix
      have htail : ∀ mark, IsMark mark → ¬ mark <:+: o :=
        fun m hm hwithin => ho m hm (List.infix_cons hwithin)
      rw [List.cons_append, untilCategory?, if_neg hnot, ih htail]
      rfl

theorem originOf?_append {origin : String} (h : IsLegible origin) (hmark : IsMark mark)
    (rest : List Char) : originOf? (origin.toList ++ (mark ++ rest)) = some origin.toList := by
  have hunmarked := h.unmarked
  cases ho : origin.toList with
  | nil => exact (h.nonempty (String.toList_eq_nil_iff.mp ho)).elim
  | cons c o =>
      rw [ho] at hunmarked
      have htail : ∀ mark, IsMark mark → ¬ mark <:+: o :=
        fun m hm hwithin => hunmarked m hm (List.infix_cons hwithin)
      rw [List.cons_append, originOf?, untilCategory?_append htail hmark]
      rfl

theorem isMark_category (c : Category) : IsMark (middle ++ (c.label.toList ++ closing)) := by
  have hchars : c.label.toList.all isCategoryChar = true := by
    cases c <;> decide
  have hsome : c.label.toList ≠ [] := by
    cases c <;> decide
  exact ⟨_, hsome, List.all_eq_true.mp hchars, rfl⟩

theorem toList_entry (r : Record) : (entry r).toList =
    (verb r.kind).toList ++ (opening ++ (r.task.origin.toList ++
      ((middle ++ (r.category.label.toList ++ closing)) ++ ' ' :: (onOneLine r.message).toList))) := by
  have hclosing : "): ".toList = closing ++ [' '] := by decide
  simp only [entry, String.toList_append, hclosing, List.append_assoc, List.singleton_append]
  rfl

theorem lineOrigin?_entry {r : Record} (h : IsLegible r.task.origin) :
    lineOrigin? (entry r).toList = some r.task.origin.toList := by
  have horigin := originOf?_append h (isMark_category r.category)
    (' ' :: (onOneLine r.message).toList)
  have hafter : ∀ word cs, after? word (word ++ cs) = some cs := fun _ _ => after?_eq_some.mpr rfl
  rw [toList_entry]
  cases r.kind with
  | failed => simp only [lineOrigin?, verb, hafter, Option.bind_some, horigin]
  | skipped =>
      have herror : ∀ cs, after? "error".toList ("skipped".toList ++ cs) = none := by
        intro cs
        rfl
      simp only [lineOrigin?, verb, herror, hafter, Option.bind_some, horigin]

/-! ## The whole log -/

theorem newline_not_mem_entry {r : Record} (h : IsLegible r.task.origin) :
    '\n' ∉ (entry r).toList := by
  have horigin := h.onOneLine
  have hverb : '\n' ∉ (verb r.kind).toList := by
    cases r.kind <;> decide
  have hlabel : '\n' ∉ r.category.label.toList := by
    cases r.category <;> decide
  have hmessage := onOneLine_clean r.message (.inr rfl)
  have hopening : '\n' ∉ opening := by decide
  have hmiddle : '\n' ∉ middle := by decide
  have hclosing : '\n' ∉ closing := by decide
  rw [toList_entry]
  simp [horigin, hverb, hlabel, hmessage, hopening, hmiddle, hclosing]

theorem chomp_entry (r : Record) : chomp ((entry r).toList ++ ['\n']) = (entry r).toList := by
  apply chomp_append
  intro hlast
  rw [toList_entry, ← List.append_assoc, ← List.append_assoc, ← List.append_assoc,
    ← List.append_assoc, ← List.append_assoc, List.getLast?_append,
    List.getLast?_cons, Option.some_or] at hlast
  have hmem : '\r' ∈ ' ' :: (onOneLine r.message).toList :=
    List.mem_of_getLast? (List.getLast?_cons.trans hlast)
  rcases List.mem_cons.mp hmem with he | hm
  · cases he
  · exact onOneLine_clean r.message (.inl rfl) hm

/-- The origin that a line of the log names. -/
def namedBy (l : String) : Option String :=
  (lineOrigin? (chomp (l.toList ++ ['\n']))).map String.ofList

theorem namedBy_entry {r : Record} (h : IsLegible r.task.origin) :
    namedBy (entry r) = some r.task.origin := by
  rw [namedBy, chomp_entry, lineOrigin?_entry h, Option.map_some, String.ofList_toList]

theorem namedBy_heading {runId l : String} {written : Instant} {s : Statistics}
    (h : l ∈ heading runId written s) : namedBy l = none := by
  have hhash : ∃ cs, l.toList = '#' :: cs := by
    simp only [heading, List.mem_cons, List.not_mem_nil, or_false] at h
    rcases h with rfl | rfl | rfl | rfl
    · exact ⟨_, rfl⟩
    · exact ⟨_, by simp only [String.toList_append]; rfl⟩
    · exact ⟨_, by simp only [String.toList_append]; rfl⟩
    · exact ⟨_, by simp only [String.toList_append]; rfl⟩
  have hnone : ∀ cs, lineOrigin? ('#' :: cs) = none := fun cs => rfl
  obtain ⟨cs, hcs⟩ := hhash
  unfold namedBy
  rcases chomp_cases l.toList with he | ⟨k, hk, he⟩
  · rw [he, hcs, hnone, Option.map_none]
  · rw [he]
    rw [hcs] at hk
    cases k with
    | nil => cases hk
    | cons d k =>
        rw [← (List.cons.inj hk).1, hnone, Option.map_none]

theorem toList_content (runId : String) (written : Instant) (s : Statistics)
    (records : List Record) : (content runId written s records).toList =
      closedLines ((heading runId written s ++ records.map entry).map String.toList) := by
  simp [content, closedLines, String.toList_join, List.flatMap_map, List.map_append]

/-- The lines of a log name the origins of its records, in their order. -/
theorem lines_content {runId : String} (hrun : '\n' ∉ runId.toList) (written : Instant)
    (s : Statistics) {records : List Record} (h : ∀ r ∈ records, IsLegible r.task.origin) :
    (lines (content runId written s records).toList).filterMap
        (fun l => (lineOrigin? l).map String.ofList) =
      records.map (fun r => r.task.origin) := by
  have hclean : ∀ l ∈ (heading runId written s ++ records.map entry).map String.toList,
      '\n' ∉ l := by
    intro l hl
    obtain ⟨line, hline, rfl⟩ := List.mem_map.mp hl
    rcases List.mem_append.mp hline with hline | hline
    · exact newline_not_mem_heading hrun written s line hline
    · obtain ⟨r, hr, rfl⟩ := List.mem_map.mp hline
      exact newline_not_mem_entry (h r hr)
  have hheading : (heading runId written s).filterMap namedBy = [] :=
    List.filterMap_eq_nil_iff.mpr fun l hl => namedBy_heading hl
  have hentries : (records.map entry).filterMap namedBy =
      records.map (fun r => r.task.origin) := by
    clear hclean
    induction records with
    | nil => rfl
    | cons r rs ih =>
        rw [List.map_cons, List.filterMap_cons, namedBy_entry (h r List.mem_cons_self), List.map_cons]
        exact congrArg _ (ih fun c hc => h c (List.mem_cons_of_mem r hc))
  rw [toList_content, lines_closedLines hclean, List.map_map, List.filterMap_map]
  change (heading runId written s ++ records.map entry).filterMap namedBy = _
  rw [List.filterMap_append, hheading, hentries, List.nil_append]

/-! ## Names that are named twice -/

theorem firsts_eq_eraseDups {α : Type} [DecidableEq α] (xs : List α) :
    firsts xs = xs.eraseDups := by
  have hloop : ∀ seen : List α,
      (xs.foldl (fun seen x => if x ∈ seen then seen else x :: seen) seen).reverse =
        List.eraseDupsBy.loop (fun a b => a == b) xs seen := by
    induction xs with
    | nil => exact fun seen => rfl
    | cons x xs ih =>
        intro seen
        rw [List.foldl_cons, List.eraseDupsBy.loop, List.any_beq, ih]
        by_cases hx : x ∈ seen
        · rw [if_pos hx, List.contains_iff_mem.mpr hx]
        · rw [if_neg hx, Bool.eq_false_iff.mpr fun h => hx (List.contains_iff_mem.mp h)]
  exact hloop []

theorem mem_origins_content {runId : String} (hrun : '\n' ∉ runId.toList) (written : Instant)
    (s : Statistics) {records : List Record} (h : ∀ r ∈ records, IsLegible r.task.origin)
    {o : String} : o ∈ origins (content runId written s records) ↔
      o ∈ records.map (fun r => r.task.origin) := by
  rw [origins, lines_content hrun written s h, firsts_eq_eraseDups, List.mem_eraseDups]

/-- A log names the origins of its records, each once, in the order in which they come first, if
they are legible, and those of a usable set are. -/
theorem origins_content {runId : String} (hrun : '\n' ∉ runId.toList) (written : Instant)
    (s : Statistics) :
    (∀ records : List Record, (∀ r ∈ records, IsLegible r.task.origin) →
      origins (content runId written s records) =
        (records.map (fun r => r.task.origin)).eraseDups) ∧
    ∀ set : TaskSet, set.fault? = none → ∀ t ∈ set.tasks, IsLegible t.origin := by
  refine ⟨?_, ?_⟩
  · intro records h
    rw [origins, lines_content hrun written s h, firsts_eq_eraseDups]
  · intro set hset t ht
    exact isLegible_of_isUsableOrigin (TaskSet.isUsableOrigin_of_mem hset ht)

/-- Origins that hold most of what ends one, and messages that look like lines of a log. -/
def smudged : List Record :=
  let task (origin : String) : Task := ⟨origin, "s", "d", .additional, none, ∅, ∅⟩
  [⟨task "a (category: B): c (category:", .failed, "no\nerror mirroring image d (category: auth): e",
      .auth, ∅, ∅⟩,
    ⟨task "# run", .skipped, "\r\n# run", .other, ∅, ∅⟩,
    ⟨task "a (category: B): c (category:", .skipped, "", .network, ∅, ∅⟩]

theorem origins_content_of_smudged :
    '\n' ∉ "# 1".toList ∧ (∀ r ∈ smudged, IsLegible r.task.origin) ∧
      origins (content "# 1" ⟨0, 0⟩ .empty smudged) = ["a (category: B): c (category:", "# run"] := by
  have hrun : '\n' ∉ "# 1".toList := by decide
  have hlegible : ∀ r ∈ smudged, IsLegible r.task.origin := by decide +kernel
  have hfirst : (smudged.map (fun r => r.task.origin)).eraseDups =
      ["a (category: B): c (category:", "# run"] := by
    decide +kernel
  exact ⟨hrun, hlegible, ((origins_content hrun ⟨0, 0⟩ .empty).1 smudged hlegible).trans hfirst⟩

end ImageBatch.ErrorLog
