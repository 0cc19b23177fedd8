import ImageBatch.Text.Lines

/-!
# Lines that were put together

A text of lines, each with a line feed behind it, falls into the same lines again. A line that ends
in a carriage return loses that one. What stands behind the last line feed of a text keeps it.
-/

namespace ImageBatch.Text

/-- Lines with a line feed behind each. -/
def closedLines (ls : List (List Char)) : List Char := ls.flatMap (· ++ ['\n'])

theorem pieces_append {l : List Char} (h : '\n' ∉ l) (rest : List Char) :
    pieces (l ++ '\n' :: rest) = (l ++ ['\n']) :: pieces rest := by
  induction l with
  | nil => simp [pieces]
  | cons c l ih =>
      obtain ⟨hc, hl⟩ := List.ne_and_not_mem_of_not_mem_cons h
      rw [List.cons_append, pieces, if_neg (Ne.symm hc), ih hl]
      rfl

theorem pieces_closedLines {ls : List (List Char)} (h : ∀ l ∈ ls, '\n' ∉ l) :
    pieces (closedLines ls) = ls.map (· ++ ['\n']) := by
  induction ls with
  | nil => rfl
  | cons l ls ih =>
      have hl : '\n' ∉ l := h l List.mem_cons_self
      have hls : ∀ k ∈ ls, '\n' ∉ k := fun k hk => h k (List.mem_cons_of_mem l hk)
      rw [closedLines, List.flatMap_cons, List.append_assoc, List.singleton_append,
        pieces_append hl, List.map_cons]
      exact congrArg _ (ih hls)

theorem chomp_append {l : List Char} (h : l.getLast? ≠ some '\r') : chomp (l ++ ['\n']) = l := by
  unfold chomp
  rw [List.reverse_append, List.reverse_singleton, List.singleton_append]
  split
  · rename_i rest hrev
    have hlast : l.reverse.head? = some '\r' := by
      rw [(List.cons.inj hrev).2]
      rfl
    rw [List.head?_reverse] at hlast
    exact (h hlast).elim
  · rename_i rest hne hrev
    rw [← (List.cons.inj hrev).2, List.reverse_reverse]
  · rename_i hnone
    exact (hnone _ rfl).elim

theorem chomp_return (l : List Char) : chomp (l ++ ['\r'] ++ ['\n']) = l := by
  simp [chomp]

theorem chomp_cases (l : List Char) :
    chomp (l ++ ['\n']) = l ∨ ∃ k, l = k ++ ['\r'] ∧ chomp (l ++ ['\n']) = k := by
  by_cases h : l.getLast? = some '\r'
  · obtain ⟨k, rfl⟩ := List.getLast?_eq_some_iff.mp h
    exact .inr ⟨k, rfl, chomp_return k⟩
  · exact .inl (chomp_append h)

theorem lines_closedLines {ls : List (List Char)} (h : ∀ l ∈ ls, '\n' ∉ l) :
    lines (closedLines ls) = ls.map (fun l => chomp (l ++ ['\n'])) := by
  rw [lines, pieces_closedLines h, List.map_map]
  rfl

/-! ## The lines of any text -/

variable {l cs ds : List Char} {ls : List (List Char)}

/-- The line without one carriage return at its end. -/
def withoutReturn (l : List Char) : List Char := if l.getLast? = some '\r' then l.dropLast else l

theorem chomp_newline (l : List Char) : chomp (l ++ ['\n']) = withoutReturn l := by
  unfold withoutReturn
  split
  · rename_i h
    obtain ⟨k, rfl⟩ := List.getLast?_eq_some_iff.mp h
    rw [chomp_return, List.dropLast_concat]
  · rename_i h
    exact chomp_append h

/-- A text falls into lines where it has line feeds. -/
inductive FallsInto : List Char → List (List Char) → Prop
  | nothing : FallsInto [] []
  | last {l : List Char} : l ≠ [] → '\n' ∉ l → FallsInto l [l]
  | line {l rest : List Char} {ls : List (List Char)} : '\n' ∉ l → FallsInto rest ls →
      FallsInto (l ++ '\n' :: rest) (withoutReturn l :: ls)

theorem lines_cons (h : '\n' ∉ l) (rest : List Char) :
    lines (l ++ '\n' :: rest) = withoutReturn l :: lines rest := by
  rw [lines, pieces_append h, List.map_cons, chomp_newline]
  rfl

theorem pieces_last (hne : l ≠ []) (h : '\n' ∉ l) : pieces l = [l] := by
  induction l with
  | nil => exact absurd rfl hne
  | cons c l ih =>
      obtain ⟨hc, hl⟩ := List.ne_and_not_mem_of_not_mem_cons h
      rw [pieces, if_neg (Ne.symm hc)]
      cases l with
      | nil => rfl
      | cons d l => rw [ih (List.cons_ne_nil d l) hl]

theorem lines_last (hne : l ≠ []) (h : '\n' ∉ l) : lines l = [l] := by
  have hkeep : chomp l = l := by
    unfold chomp
    split
    · rename_i rest hrev
      exact (h (List.mem_reverse.mp (hrev ▸ List.mem_cons_self))).elim
    · rename_i rest _ hrev
      exact (h (List.mem_reverse.mp (hrev ▸ List.mem_cons_self))).elim
    · rfl
  rw [lines, pieces_last hne h, List.map_singleton, hkeep]

theorem fallsInto_iff : FallsInto cs ls ↔ lines cs = ls := by
  constructor
  · intro h
    induction h with
    | nothing => rfl
    | last hne hl => exact lines_last hne hl
    | line hl _ ih => rw [lines_cons hl, ih]
  · rintro rfl
    -- The recursion is on the length, as each line takes a front of the text.
    induction hlen : cs.length using Nat.strongRecOn generalizing cs with
    | ind n ih =>
        by_cases hfeed : '\n' ∈ cs
        · obtain ⟨l, rest, rfl, hl⟩ := List.eq_append_cons_of_mem hfeed
          rw [lines_cons hl]
          refine .line hl (ih rest.length ?_ rfl)
          rw [← hlen, List.length_append, List.length_cons]
          omega
        · cases cs with
          | nil => exact .nothing
          | cons c cs =>
              rw [lines_last (List.cons_ne_nil c cs) hfeed]
              exact .last (List.cons_ne_nil c cs) hfeed

theorem lines_append (h : ∀ c, cs.getLast? = some c → c = '\n') (ds : List Char) :
    lines (cs ++ ds) = lines cs ++ lines ds := by
  have hfalls : FallsInto cs (lines cs) := fallsInto_iff.mpr rfl
  generalize lines cs = ls at hfalls ⊢
  induction hfalls with
  | nothing => rfl
  | @last l hne hl =>
      have hend : l.getLast hne = '\n' := h _ (List.getLast?_eq_some_getLast hne)
      exact (hl (hend ▸ List.getLast_mem hne)).elim
  | @line l rest ls hl _ ih =>
      have hrest : ∀ c, rest.getLast? = some c → c = '\n' := by
        intro c hc
        refine h c ?_
        rw [List.getLast?_append, List.getLast?_cons, hc]
        rfl
      rw [List.append_assoc, List.cons_append, lines_cons hl, ih hrest, List.cons_append]

end ImageBatch.Text
