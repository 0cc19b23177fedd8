import ImageBatch.Proofs.ErrorLog.ReadBack

/-!
# What counts as an entry

A line names an origin exactly if it has the form of an entry. Where it has that form in several
ways, as a text that looks like a category may stand behind the category, the shortest origin is
meant. The lines of a text name their origins one by one, so a text behind a closed line only adds
to them.
-/

namespace ImageBatch.ErrorLog

open Text

variable {line text cs o : List Char} {ls : List (List Char)}

/-- The line has the form of an entry for an origin. -/
def Reports (line origin : List Char) : Prop :=
  ∃ verb ∈ ["error", "skipped"], ∃ category rest : List Char,
    origin ≠ [] ∧ category ≠ [] ∧ (∀ c ∈ category, 'a' ≤ c ∧ c ≤ 'z' ∨ c = '-') ∧
      line = verb.toList ++ " mirroring image ".toList ++ origin ++ " (category: ".toList ++
        category ++ "):".toList ++ rest

/-- The origin that a line names: the shortest of those for which it has the form of an entry. -/
structure Names (line origin : List Char) : Prop where
  reports : Reports line origin
  shortest : ∀ o, Reports line o → origin.length ≤ o.length

/-- The origins that lines name, in the order of the lines. -/
inductive Tells : List (List Char) → List String → Prop
  | nil : Tells [] []
  | entry {line : List Char} {ls : List (List Char)} {origin : String} {os : List String} :
      Names line origin.toList → Tells ls os → Tells (line :: ls) (origin :: os)
  | other {line : List Char} {ls : List (List Char)} {os : List String} :
      (∀ o, ¬ Reports line o) → Tells ls os → Tells (line :: ls) os

/-! ## One line -/

/-- The text stands behind the opening words of the line. -/
def Opens (line text : List Char) : Prop :=
  line = "error".toList ++ (opening ++ text) ∨ line = "skipped".toList ++ (opening ++ text)

theorem isCategoryChar_iff {c : Char} :
    isCategoryChar c = true ↔ 'a' ≤ c ∧ c ≤ 'z' ∨ c = '-' := by
  simp [isCategoryChar]

theorem entry_assoc (verb o category rest : List Char) :
    verb ++ " mirroring image ".toList ++ o ++ " (category: ".toList ++ category ++ "):".toList ++
        rest =
      verb ++ (opening ++ (o ++ (middle ++ (category ++ closing) ++ rest))) := by
  change verb ++ opening ++ o ++ middle ++ category ++ closing ++ rest = _
  simp only [List.append_assoc]

theorem reports_iff : Reports line o ↔
    o ≠ [] ∧ ∃ rest, Opens line (o ++ rest) ∧ startsWithCategory rest = true := by
  constructor
  · rintro ⟨verb, hverb, category, rest, ho, hne, hchars, hline⟩
    have hmark : IsMark (middle ++ (category ++ closing)) :=
      ⟨category, hne, fun c hc => isCategoryChar_iff.mpr (hchars c hc), rfl⟩
    rw [entry_assoc] at hline
    refine ⟨ho, middle ++ (category ++ closing) ++ rest, ?_,
      startsWithCategory_iff.mpr ⟨_, hmark, List.prefix_append _ rest⟩⟩
    simp only [List.mem_cons, List.not_mem_nil, or_false] at hverb
    rcases hverb with rfl | rfl
    · exact Or.inl hline
    · exact Or.inr hline
  · rintro ⟨ho, rest, hopens, hstarts⟩
    obtain ⟨-, ⟨category, hne, hchars, rfl⟩, tail, rfl⟩ := startsWithCategory_iff.mp hstarts
    have hchars' : ∀ c ∈ category, 'a' ≤ c ∧ c ≤ 'z' ∨ c = '-' := fun c hc =>
      isCategoryChar_iff.mp (hchars c hc)
    rcases hopens with hline | hline
    · rw [← entry_assoc] at hline
      exact ⟨"error", List.mem_cons_self, category, tail, ho, hne, hchars', hline⟩
    · rw [← entry_assoc] at hline
      exact ⟨"skipped", List.mem_cons_of_mem _ List.mem_cons_self, category, tail, ho, hne, hchars',
        hline⟩

theorem untilCategory?_eq_some_iff : untilCategory? cs = some o ↔
    (∃ rest, cs = o ++ rest ∧ startsWithCategory rest = true) ∧
      ∀ front rest, cs = front ++ rest → startsWithCategory rest = true →
        o.length ≤ front.length := by
  induction cs generalizing o with
  | nil =>
      have hnone : startsWithCategory [] = false := rfl
      simp [untilCategory?, hnone]
  | cons c cs ih =>
      by_cases hstarts : startsWithCategory (c :: cs) = true
      · rw [untilCategory?, if_pos hstarts, Option.some.injEq]
        constructor
        · rintro rfl
          exact ⟨⟨c :: cs, rfl, hstarts⟩, fun front rest _ _ => Nat.zero_le _⟩
        · rintro ⟨-, hleast⟩
          exact (List.length_eq_zero_iff.mp (Nat.le_zero.mp (hleast [] (c :: cs) rfl hstarts))).symm
      · rw [untilCategory?, if_neg hstarts, Option.map_eq_some_iff]
        constructor
        · rintro ⟨o, ho, rfl⟩
          obtain ⟨⟨rest, rfl, hrest⟩, hleast⟩ := ih.mp ho
          refine ⟨⟨rest, rfl, hrest⟩, ?_⟩
          intro front rest' hsplit hrest'
          cases front with
          | nil => exact (hstarts (hsplit ▸ hrest')).elim
          | cons d front =>
              exact Nat.succ_le_succ (hleast front rest' (List.cons.inj hsplit).2 hrest')
        · rintro ⟨⟨rest, hsplit, hrest⟩, hleast⟩
          cases o with
          | nil => exact (hstarts (hsplit ▸ hrest)).elim
          | cons d o =>
              obtain ⟨rfl, rfl⟩ := List.cons.inj hsplit
              refine ⟨o, ih.mpr ⟨⟨rest, rfl, hrest⟩, ?_⟩, rfl⟩
              intro front rest' hsplit' hrest'
              exact Nat.le_of_succ_le_succ
                (hleast (c :: front) rest' (congrArg (c :: ·) hsplit') hrest')

theorem originOf?_eq_some_iff : originOf? cs = some o ↔
    (o ≠ [] ∧ ∃ rest, cs = o ++ rest ∧ startsWithCategory rest = true) ∧
      ∀ front rest, front ≠ [] → cs = front ++ rest → startsWithCategory rest = true →
        o.length ≤ front.length := by
  cases cs with
  | nil =>
      have hnone : startsWithCategory [] = false := rfl
      simp [originOf?, hnone]
  | cons c cs =>
      rw [originOf?, Option.map_eq_some_iff]
      constructor
      · rintro ⟨o, ho, rfl⟩
        obtain ⟨⟨rest, rfl, hrest⟩, hleast⟩ := untilCategory?_eq_some_iff.mp ho
        refine ⟨⟨List.cons_ne_nil c o, rest, rfl, hrest⟩, ?_⟩
        intro front rest' hne hsplit hrest'
        obtain ⟨d, front, rfl⟩ := List.exists_cons_of_ne_nil hne
        exact Nat.succ_le_succ (hleast front rest' (List.cons.inj hsplit).2 hrest')
      · rintro ⟨⟨hne, rest, hsplit, hrest⟩, hleast⟩
        obtain ⟨d, o, rfl⟩ := List.exists_cons_of_ne_nil hne
        obtain ⟨rfl, rfl⟩ := List.cons.inj hsplit
        refine ⟨o, untilCategory?_eq_some_iff.mpr ⟨⟨rest, rfl, hrest⟩, ?_⟩, rfl⟩
        intro front rest' hsplit' hrest'
        exact Nat.le_of_succ_le_succ (hleast (c :: front) rest' (List.cons_ne_nil c front)
          (congrArg (c :: ·) hsplit') hrest')

theorem Opens.eq {text' : List Char} (h : Opens line text) (h' : Opens line text') :
    text = text' := by
  have hwords : ∀ a b : List Char, "error".toList ++ a ≠ "skipped".toList ++ b := by
    intro a b hab
    have hfirst : some 'e' = some 's' := congrArg List.head? hab
    exact absurd hfirst (by decide)
  rcases h with h | h <;> rcases h' with h' | h'
  · exact List.append_cancel_left (List.append_cancel_left (h.symm.trans h'))
  · exact (hwords _ _ (h.symm.trans h')).elim
  · exact (hwords _ _ (h'.symm.trans h)).elim
  · exact List.append_cancel_left (List.append_cancel_left (h.symm.trans h'))

theorem lineOrigin?_of_opens (h : Opens line text) : lineOrigin? line = originOf? text := by
  have hafter : ∀ word cs, after? word (word ++ cs) = some cs := fun _ _ => after?_eq_some.mpr rfl
  rcases h with rfl | rfl
  · simp only [lineOrigin?, hafter, Option.bind_some]
  · have herror : ∀ cs, after? "error".toList ("skipped".toList ++ cs) = none := fun cs => rfl
    simp only [lineOrigin?, herror, hafter, Option.bind_some]

theorem exists_opens_of_lineOrigin? (h : lineOrigin? line = some o) :
    ∃ text, Opens line text ∧ originOf? text = some o := by
  unfold lineOrigin? at h
  split at h
  · rename_i rest hrest
    obtain ⟨text, htext, ho⟩ := Option.bind_eq_some_iff.mp h
    exact ⟨text, .inl (after?_eq_some.mp htext ▸ after?_eq_some.mp hrest), ho⟩
  · rename_i rest _ hrest
    obtain ⟨text, htext, ho⟩ := Option.bind_eq_some_iff.mp h
    exact ⟨text, .inr (after?_eq_some.mp htext ▸ after?_eq_some.mp hrest), ho⟩
  · cases h

/-- The origin that is read off a line is the one that the line names. -/
theorem lineOrigin?_eq_some_iff : lineOrigin? line = some o ↔ Names line o := by
  constructor
  · intro h
    obtain ⟨text, hopens, ho⟩ := exists_opens_of_lineOrigin? h
    obtain ⟨⟨hne, rest, rfl, hrest⟩, hleast⟩ := originOf?_eq_some_iff.mp ho
    refine ⟨reports_iff.mpr ⟨hne, rest, hopens, hrest⟩, ?_⟩
    intro front hfront
    obtain ⟨hne', rest', hopens', hrest'⟩ := reports_iff.mp hfront
    exact hleast front rest' hne' (hopens.eq hopens') hrest'
  · rintro ⟨hreports, hshortest⟩
    obtain ⟨hne, rest, hopens, hrest⟩ := reports_iff.mp hreports
    rw [lineOrigin?_of_opens hopens, originOf?_eq_some_iff]
    refine ⟨⟨hne, rest, rfl, hrest⟩, ?_⟩
    intro front rest' hne' hsplit hrest'
    exact hshortest front (reports_iff.mpr ⟨hne', rest', hsplit ▸ hopens, hrest'⟩)

theorem Reports.exists_names (h : Reports line o) : ∃ origin, Names line origin := by
  induction hlen : o.length using Nat.strongRecOn generalizing o with
  | ind n ih =>
      by_cases hshortest : ∀ front, Reports line front → o.length ≤ front.length
      · exact ⟨o, h, hshortest⟩
      · simp only [not_forall, Nat.not_le] at hshortest
        obtain ⟨front, hfront, hlt⟩ := hshortest
        exact ih front.length (hlen ▸ hlt) hfront rfl

theorem lineOrigin?_eq_none_iff : lineOrigin? line = none ↔ ∀ o, ¬ Reports line o := by
  constructor
  · intro h o ho
    obtain ⟨origin, hnames⟩ := ho.exists_names
    cases h.symm.trans (lineOrigin?_eq_some_iff.mpr hnames)
  · intro h
    cases ho : lineOrigin? line with
    | none => rfl
    | some o => exact (h o (lineOrigin?_eq_some_iff.mp ho).reports).elim

/-! ## All lines -/

theorem tells_filterMap (ls : List (List Char)) :
    Tells ls (ls.filterMap fun l => (lineOrigin? l).map String.ofList) := by
  induction ls with
  | nil => exact .nil
  | cons line ls ih =>
      rw [List.filterMap_cons]
      cases ho : lineOrigin? line with
      | none => exact .other (lineOrigin?_eq_none_iff.mp ho) ih
      | some o =>
          have hnames : Names line (String.ofList o).toList := by
            rw [String.toList_ofList]
            exact lineOrigin?_eq_some_iff.mp ho
          exact .entry hnames ih

theorem eraseDups_filter {α : Type} [DecidableEq α] (p : α → Bool) (xs : List α) :
    (xs.filter p).eraseDups = xs.eraseDups.filter p := by
  induction hlen : xs.length using Nat.strongRecOn generalizing xs with
  | ind n ih =>
      cases xs with
      | nil => rfl
      | cons x xs =>
          have hshort : (xs.filter fun y => !y == x).length < n := by
            rw [← hlen, List.length_cons]
            exact Nat.lt_succ_of_le (List.length_filter_le _ xs)
          have hrest := ih _ hshort (xs.filter fun y => !y == x) rfl
          rw [List.eraseDups_cons]
          by_cases hx : p x = true
          · rw [List.filter_cons_of_pos hx, List.filter_cons_of_pos hx, List.eraseDups_cons,
              ← hrest, List.filter_filter, List.filter_filter]
            simp only [Bool.and_comm]
          · rw [List.filter_cons_of_neg hx, List.filter_cons_of_neg hx, ← hrest,
              List.filter_filter]
            congr 1
            refine List.filter_congr fun y _ => ?_
            by_cases hy : y = x
            · simp [hy, hx]
            · simp [hy]

theorem eraseDups_append {α : Type} [DecidableEq α] (xs ys : List α) :
    (xs ++ ys).eraseDups =
      xs.eraseDups ++ ys.eraseDups.filter (fun y => decide (y ∉ xs.eraseDups)) := by
  rw [List.eraseDups_append, List.removeAll, eraseDups_filter]
  simp [List.mem_eraseDups]

theorem origins_append {a b : String} (h : ∀ c, a.toList.getLast? = some c → c = '\n') :
    origins (a ++ b) = origins a ++ (origins b).filter (fun o => decide (o ∉ origins a)) := by
  simp only [origins, firsts_eq_eraseDups]
  rw [String.toList_append, lines_append h, List.filterMap_append, eraseDups_append]

/-- The origins of a text are those that its lines name, each where it came first. Behind a closed
line further text adds the origins that are new. -/
theorem origins_grammar (content : String) :
    (∃ ls named, FallsInto content.toList ls ∧ Tells ls named ∧
      origins content = named.eraseDups) ∧
    ∀ rest : String, (content = "" ∨ ∃ front, content = front ++ "\n") →
      origins (content ++ rest) =
        origins content ++ (origins rest).filter (fun o => decide (o ∉ origins content)) := by
  refine ⟨?_, ?_⟩
  · refine ⟨lines content.toList, _, fallsInto_iff.mpr rfl, tells_filterMap _, ?_⟩
    rw [origins, firsts_eq_eraseDups]
  · intro rest hclosed
    refine origins_append ?_
    intro c hc
    rcases hclosed with rfl | ⟨front, rfl⟩
    · cases hc
    · rw [String.toList_append, List.getLast?_append] at hc
      exact (Option.some.inj hc).symm

/-- An origin that begins with a category, as it must not be empty. -/
def crowded : String := "skipped mirroring image  (category: -): (category: a):\r"

/-- The same origin in a failure, and one that ends at the first category. -/
def crowdedAgain : String :=
  "error mirroring image  (category: -): (category: b):\n" ++
    "error mirroring image c (category: -): (category: d):"

theorem origins_grammar_of_crowded :
    (∃ front, crowded ++ "\n" = front ++ "\n") ∧
      origins (crowded ++ "\n" ++ crowdedAgain) = [" (category: -):", "c"] := by
  have hclosed : ∃ front, crowded ++ "\n" = front ++ "\n" := ⟨crowded, rfl⟩
  have hfirst : origins (crowded ++ "\n") = [" (category: -):"] := by decide +kernel
  have hsecond : origins crowdedAgain = [" (category: -):", "c"] := by decide +kernel
  have hnew : [" (category: -):", "c"].filter (fun o => decide (o ∉ [" (category: -):"])) =
      ["c"] := by decide
  refine ⟨hclosed, ((origins_grammar (crowded ++ "\n")).2 crowdedAgain (.inr hclosed)).trans ?_⟩
  rw [hfirst, hsecond, hnew, List.singleton_append]

end ImageBatch.ErrorLog
