import ImageBatch.Json.Reader
import ImageBatch.Json.Writer
import ImageBatch.Proofs.Text.Digits
import Mathlib.Data.List.TakeDrop

/-!
# JSON is read back

What was written on one line is read as the value that it was. The reader takes at most two steps
for each character, so the text itself says how many steps are enough.
-/

namespace ImageBatch.Json

open Text

variable {rest tail : List Char}

/-! ## Texts -/

/-- Text without a control character, checked character by character. -/
theorem visible_of_all {cs : List Char} (h : cs.all (fun c => 32 ≤ c.toNat) = true) :
    ∀ c ∈ cs, 32 ≤ c.toNat :=
  fun c hc => of_decide_eq_true (List.all_eq_true.mp h c hc)

theorem units_short {x e : Char} (hunit : x ≠ 'u') (hshort : short? x = some e)
    (rest : List Char) :
    units ('\\' :: x :: rest) = (units rest).map (fun r => (e.toNat :: r.1, r.2)) := by
  rw [units, hshort]
  · cases units rest <;> rfl
  · rintro _ _ _ _ _ rfl
    exact (hunit rfl).elim

theorem units_unit {a b c d : Char} {u : Nat} (h : unit? a b c d = some u) (rest : List Char) :
    units ('\\' :: 'u' :: a :: b :: c :: d :: rest) =
      (units rest).map (fun r => (u :: r.1, r.2)) := by
  rw [units, h]
  cases units rest <;> rfl

theorem units_plain {c : Char} (hcontrol : ¬ c.toNat < 32) (hquote : c ≠ '"') (hback : c ≠ '\\')
    (rest : List Char) :
    units (c :: rest) = (units rest).map (fun r => (c.toNat :: r.1, r.2)) := by
  rw [units, if_neg (not_or.mpr ⟨hcontrol, hback⟩)]
  · cases units rest <;> rfl
  · exact hquote
  · exact fun _ _ _ _ _ h => (hback h).elim
  · exact fun _ _ h => (hback h).elim

/-- A control character is written as the four digits that are read as its number. -/
theorem unit?_control : ∀ n < 32, ∃ x < 2, ∃ y < 16,
    List.replicate (4 - (hex n).length) '0' ++ hex n =
        ['0', '0', Nat.digitChar x, Nat.digitChar y] ∧
      unit? '0' '0' (Nat.digitChar x) (Nat.digitChar y) = some n := by
  decide

theorem units_escaped (c : Char) (rest : List Char) :
    units (escaped c ++ rest) = (units rest).map (fun r => (c.toNat :: r.1, r.2)) := by
  unfold escaped
  split
  iterate 7 exact units_short (by decide) rfl rest
  next hquote hback _ _ _ _ _ =>
    by_cases hcontrol : c.toNat < 32
    · obtain ⟨x, -, y, -, hhex, hunit⟩ := unit?_control c.toNat hcontrol
      rw [if_pos hcontrol, List.append_assoc ['\\', 'u'], hhex]
      exact units_unit hunit rest
    · rw [if_neg hcontrol]
      exact units_plain hcontrol hquote hback rest

theorem visible_control :
    ∀ n < 32, (escaped (Char.ofNat n)).all (fun c => 32 ≤ c.toNat) = true := by
  decide

theorem visible_escaped {c d : Char} (h : d ∈ escaped c) : 32 ≤ d.toNat := by
  by_cases hcontrol : c.toNat < 32
  · have hvisible := visible_control c.toNat hcontrol
    rw [Char.ofNat_toNat] at hvisible
    exact visible_of_all hvisible d h
  · unfold escaped at h
    split at h
    iterate 7 exact visible_of_all (by decide) d h
    rw [if_neg hcontrol] at h
    exact List.mem_singleton.mp h ▸ Nat.not_lt.mp hcontrol

theorem visible_quote {s : String} {c : Char} (h : c ∈ quote s) : 32 ≤ c.toNat := by
  rw [quote, List.cons_append, List.mem_cons, List.mem_append, List.mem_singleton] at h
  rcases h with rfl | h | rfl
  · decide
  · obtain ⟨d, -, hd⟩ := List.mem_flatMap.mp h
    exact visible_escaped hd
  · decide

theorem units_quoted (cs tail : List Char) :
    units (cs.flatMap escaped ++ '"' :: tail) = some (cs.map Char.toNat, tail) := by
  induction cs with
  | nil => rfl
  | cons c cs ih =>
      rw [List.flatMap_cons, List.append_assoc, units_escaped, ih]
      rfl

theorem isScalar_toNat (c : Char) : ¬ (0xD800 ≤ c.toNat ∧ c.toNat ≤ 0xDFFF) := by
  have hvalid : c.toNat.isValidChar := c.valid
  unfold Nat.isValidChar at hvalid
  omega

theorem joined?_map (cs : List Char) : joined? (cs.map Char.toNat) = some cs := by
  induction cs with
  | nil => rfl
  | cons c cs ih =>
      cases cs with
      | nil =>
          rw [List.map_cons, List.map_nil, joined?, if_neg (isScalar_toNat c), Char.ofNat_toNat]
      | cons d cs =>
          rw [List.map_cons, List.map_cons, joined?, if_neg (isScalar_toNat c), ← List.map_cons, ih,
            Char.ofNat_toNat]
          rfl

theorem string?_quoted (s : String) (tail : List Char) :
    string? (s.toList.flatMap escaped ++ '"' :: tail) = some (some s, tail) := by
  rw [string?, units_quoted, Option.map_some, joined?_map, Option.map_some, String.ofList_toList]

/-! ## Numbers -/

/-- What may stand behind a value: the end, or a mark that goes on with the next one. -/
def EndsValue (rest : List Char) : Prop := ∀ c ∈ rest.head?, c = ',' ∨ c = ']' ∨ c = '}'

theorem EndsValue.endsNumber (h : EndsValue rest) : EndsNumber rest := by
  intro c hc
  rcases h c hc with rfl | rfl | rfl <;> rfl

theorem digits_append {ds : List Char} (hds : ∀ c ∈ ds, c.isDigit = true) (hend : EndsNumber rest) :
    digits (ds ++ rest) = (ds, rest) := by
  rw [digits, List.span_eq_takeWhile_dropWhile, takeWhile_digits hds hend,
    dropWhile_digits hds hend]

/-- A number has no zero in front of its digits, unless that is the only one. -/
theorem head?_digitsOf (n : Nat) :
    (digitsOf n).length = 1 ∨ (digitsOf n).head? ≠ some '0' := by
  rcases hds : digitsOf n with _ | ⟨c, ds⟩
  · exact .inr (by simp)
  · by_cases hzero : c = '0'
    · subst hzero
      have hdigits : ∀ c ∈ ds, c.isDigit = true := fun c hc =>
        Nat.isDigit_of_mem_toDigits (by decide) (by decide)
          (show c ∈ digitsOf n from hds ▸ List.mem_cons_of_mem _ hc)
      have hvalue : n = digitsValue ds := by
        have h := digitsValue_toDigits n
        rw [← digitsOf, hds, digitsValue_cons] at h
        simpa using h.symm
      by_cases hshort : ds = []
      · exact .inl (by simp [hshort])
      · have hlen := (Nat.length_toDigits_le_iff (by decide) (List.length_pos_iff.mpr hshort)).mpr
          (hvalue ▸ digitsValue_lt hdigits : n < 10 ^ ds.length)
        rw [← digitsOf, hds, List.length_cons] at hlen
        omega
    · exact .inr (by simpa using hzero)

theorem unsigned?_digitsOf (negative : Bool) (n : Nat) (hend : EndsValue rest) :
    unsigned? negative (digitsOf n ++ rest) = some (⟨negative, ⟨n, 0⟩, true⟩, rest) := by
  have hds : ∀ c ∈ digitsOf n, c.isDigit = true := fun _ hc =>
    Nat.isDigit_of_mem_toDigits (by decide) (by decide) hc
  have hvalue : valueOf (digitsOf n) = n := digitsValue_toDigits n
  have hne : (digitsOf n).isEmpty = false := List.isEmpty_eq_false_iff.mpr Nat.toDigits_ne_nil
  have hguard : (!(digitsOf n).isEmpty &&
      ((digitsOf n).length == 1 || (digitsOf n).head? != some '0')) = true := by
    rcases head?_digitsOf n with h | h <;> simp [hne, h]
  rw [unsigned?, digits_append hds hend.endsNumber]
  refine Option.bind_eq_some_iff.mpr ⟨(), if_pos hguard, ?_⟩
  rcases rest with _ | ⟨c, rest⟩
  · simp [hvalue]
  · rcases hend c rfl with rfl | rfl | rfl <;> simp [hvalue]

/-! ## Values -/

/-- A value that is read as it was written, wherever it stands. Control characters are escaped. -/
structure ReadsBack (j : Json) : Prop where
  visible : ∀ depth, ∀ c ∈ layOut compact depth j, 32 ≤ c.toNat
  starts : ∀ depth, ∃ c cs, layOut compact depth j = c :: cs ∧ isGap c = false ∧ c ≠ ']'
  reads : ∀ depth fuel tail, EndsValue tail → 2 * (layOut compact depth j).length ≤ fuel →
    readValue fuel (layOut compact depth j ++ tail) = some (j, tail)

theorem readsBack_null : null.ReadsBack where
  visible _ := visible_of_all rfl
  starts _ := ⟨'n', _, rfl, by decide, by decide⟩
  reads depth fuel tail _ hfuel := by
    cases fuel with
    | zero => cases hfuel
    | succ fuel => rfl

theorem quote_append (s : String) (tail : List Char) :
    quote s ++ tail = '"' :: (s.toList.flatMap escaped ++ '"' :: tail) := by
  simp [quote]

theorem readsBack_text (s : String) : (text s).ReadsBack where
  visible _ _ hc := visible_quote hc
  starts _ := ⟨'"', _, rfl, by decide, by decide⟩
  reads depth fuel tail _ hfuel := by
    cases fuel with
    | zero => cases hfuel
    | succ fuel =>
        rw [layOut, quote_append, readValue, string?_quoted]
        rfl

theorem readsBack_ofOption (o : Option String) : (ofOption o).ReadsBack := by
  cases o with
  | none => exact readsBack_null
  | some s => exact readsBack_text s

theorem isGap_of_isDigit {c : Char} (hc : c.isDigit = true) : isGap c = false := by
  by_contra hgap
  simp only [Bool.not_eq_false, isGap, Bool.or_eq_true, beq_iff_eq] at hgap
  rcases hgap with ((rfl | rfl) | rfl) | rfl <;> cases hc

theorem readValue_digit {c : Char} (hc : c.isDigit = true) (fuel : Nat) (cs : List Char) :
    readValue (fuel + 1) (c :: cs) =
      (unsigned? false (c :: cs)).map (fun r => (number r.1, r.2)) := by
  have hnumeral : numeral? (c :: cs) = unsigned? false (c :: cs) := by
    rw [numeral?]
    intro _ h
    cases h
    cases hc
  rw [readValue, hnumeral]
  all_goals
    intro _ h
    cases h
    cases hc

theorem readsBack_ofNat (n : Nat) : (ofNat n).ReadsBack := by
  have hlayOut : ∀ depth, layOut compact depth (ofNat n) = digitsOf n := fun _ => rfl
  obtain ⟨c, cs, hcs⟩ : ∃ c cs, digitsOf n = c :: cs :=
    List.exists_cons_of_ne_nil Nat.toDigits_ne_nil
  have hds : ∀ c ∈ digitsOf n, c.isDigit = true := fun _ hc =>
    Nat.isDigit_of_mem_toDigits (by decide) (by decide) hc
  have hc : c.isDigit = true := hds c (hcs ▸ List.mem_cons_self)
  constructor
  · intro depth c hc
    exact (by decide : 32 ≤ 48).trans (isDigit_toNat (hds c hc)).1
  · intro depth
    refine ⟨c, cs, (hlayOut depth).trans hcs, isGap_of_isDigit hc, ?_⟩
    rintro rfl
    cases hc
  · intro depth fuel tail hend hfuel
    rw [hlayOut, hcs] at hfuel ⊢
    cases fuel with
    | zero => cases hfuel
    | succ fuel =>
        have hread := unsigned?_digitsOf false n hend
        rw [hcs, List.cons_append] at hread
        rw [List.cons_append, readValue_digit hc, hread]
        rfl

/-! ## Lists and objects -/

theorem ReadsBack.skipGaps {j : Json} (h : j.ReadsBack) (depth : Nat) (rest : List Char) :
    skipGaps (layOut compact depth j ++ rest) = layOut compact depth j ++ rest := by
  obtain ⟨c, cs, hcs, hgap, -⟩ := h.starts depth
  rw [hcs, List.cons_append, Json.skipGaps, List.dropWhile_cons_of_neg (by simp [hgap])]

theorem skipGaps_cons {c : Char} (h : isGap c = false) (cs : List Char) :
    skipGaps (c :: cs) = c :: cs := by
  rw [skipGaps, List.dropWhile_cons_of_neg (by simp [h])]

theorem skipGaps_quote (s : String) (rest : List Char) :
    skipGaps (quote s ++ rest) = quote s ++ rest :=
  skipGaps_cons rfl _

/-- Items are read one by one; what is behind each is a comma or the bracket. -/
theorem readItems_layOut {x : Json} {xs : List Json} (hx : x.ReadsBack)
    (hxs : ∀ y ∈ xs, y.ReadsBack) (depth fuel : Nat) (tail : List Char)
    (hfuel : 2 * (layOut compact depth x ++ layOutItems compact depth xs).length < fuel) :
    readItems fuel (layOut compact depth x ++ (layOutItems compact depth xs ++ ']' :: tail)) =
      some (x :: xs, tail) := by
  induction xs generalizing x fuel with
  | nil =>
      cases fuel with
      | zero => cases hfuel
      | succ fuel =>
          have hend : EndsValue (']' :: tail) := by
            intro c hc
            cases hc
            exact .inr (.inl rfl)
          rw [layOutItems, List.append_nil] at hfuel
          rw [layOutItems, List.nil_append, readItems, hx.reads depth fuel _ hend (by omega)]
          rfl
  | cons y ys ih =>
      obtain ⟨hy, hys⟩ := List.forall_mem_cons.mp hxs
      cases fuel with
      | zero => cases hfuel
      | succ fuel =>
          have hitems : layOutItems compact depth (y :: ys) =
              ',' :: (layOut compact depth y ++ layOutItems compact depth ys) := rfl
          have hend : ∀ rest, EndsValue (',' :: rest) := by
            intro rest c hc
            cases hc
            exact .inl rfl
          rw [hitems, List.length_append, List.length_cons] at hfuel
          have hrest := ih hy hys fuel (by omega)
          rw [hitems, List.cons_append, List.append_assoc, readItems,
            hx.reads depth fuel _ (hend _) (by omega)]
          simp only [Option.bind_eq_bind, Option.bind_some, skipGaps_cons (c := ',') rfl,
            hy.skipGaps, hrest]

theorem visible_layOutItems {depth : Nat} {xs : List Json} (h : ∀ x ∈ xs, x.ReadsBack) :
    ∀ c ∈ layOutItems compact depth xs, 32 ≤ c.toNat := by
  induction xs with
  | nil => exact nofun
  | cons x xs ih =>
      obtain ⟨hx, hxs⟩ := List.forall_mem_cons.mp h
      intro c hc
      rw [layOutItems] at hc
      rcases List.mem_append.mp hc with hc | hc
      · rcases List.mem_cons.mp hc with rfl | hc
        · decide
        · exact hx.visible depth c hc
      · exact ih hxs c hc

theorem readsBack_list {items : List Json} (h : ∀ x ∈ items, x.ReadsBack) :
    (list items).ReadsBack := by
  cases items with
  | nil =>
      refine ⟨fun _ => visible_of_all rfl, fun _ => ⟨'[', _, rfl, by decide, by decide⟩, ?_⟩
      intro depth fuel tail _ hfuel
      cases fuel with
      | zero => cases hfuel
      | succ fuel => rfl
  | cons x xs =>
      obtain ⟨hx, hxs⟩ := List.forall_mem_cons.mp h
      have hlayOut : ∀ depth, layOut compact depth (list (x :: xs)) =
          '[' :: (layOut compact (depth + 1) x ++
            (layOutItems compact (depth + 1) xs ++ [']'])) := by
        intro depth
        simp [layOut, compact]
      refine ⟨?_, fun depth => ⟨'[', _, hlayOut depth, by decide, by decide⟩, ?_⟩
      · intro depth c hc
        rw [hlayOut, List.mem_cons, List.mem_append, List.mem_append, List.mem_singleton] at hc
        rcases hc with rfl | hc | hc | rfl
        · decide
        · exact hx.visible _ c hc
        · exact visible_layOutItems hxs c hc
        · decide
      intro depth fuel tail _ hfuel
      rw [hlayOut] at hfuel ⊢
      simp only [List.length_cons, List.length_append, List.length_nil] at hfuel
      cases fuel with
      | zero => cases hfuel
      | succ fuel =>
          obtain ⟨c, cs, hcs, -, hbracket⟩ := hx.starts (depth + 1)
          have hitems := readItems_layOut hx hxs (depth + 1) fuel tail
            (by rw [List.length_append]; omega)
          simp only [List.cons_append, List.append_assoc, List.nil_append, readValue, hx.skipGaps]
          split
          · rename_i heq
            rw [hcs] at heq
            exact (hbracket (List.cons.inj heq).1).elim
          · rw [hitems]
            rfl

theorem layOutFields_cons (depth : Nat) (f : String × Json) (fs : List (String × Json)) :
    layOutFields compact depth ((f :: fs).map (fun f => (some f.1, f.2))) =
      ',' :: (quote f.1 ++ ':' :: (layOut compact depth f.2 ++
        layOutFields compact depth (fs.map (fun f => (some f.1, f.2))))) := by
  simp [layOutFields, compact]

theorem readFields_layOut (name : String) {x : Json} {fs : List (String × Json)}
    (hx : x.ReadsBack) (hfs : ∀ f ∈ fs, f.2.ReadsBack) (depth fuel : Nat) (tail : List Char)
    (hfuel : 2 * (quote name ++ ':' :: (layOut compact depth x ++
      layOutFields compact depth (fs.map (fun f => (some f.1, f.2))))).length < fuel) :
    readFields fuel (quote name ++ ':' :: (layOut compact depth x ++
        (layOutFields compact depth (fs.map (fun f => (some f.1, f.2))) ++ '}' :: tail))) =
      some ((some name, x) :: fs.map (fun f => (some f.1, f.2)), tail) := by
  induction fs generalizing name x fuel with
  | nil =>
      cases fuel with
      | zero => cases hfuel
      | succ fuel =>
          have hend : EndsValue ('}' :: tail) := by
            intro c hc
            cases hc
            exact .inr (.inr rfl)
          simp only [List.map_nil, layOutFields, List.append_nil, List.length_append,
            List.length_cons] at hfuel
          rw [List.map_nil, layOutFields, List.nil_append, quote_append, readFields, string?_quoted]
          simp only [Option.bind_eq_bind, Option.bind_some, skipGaps_cons (c := ':') rfl,
            hx.skipGaps, hx.reads depth fuel _ hend (by omega), skipGaps_cons (c := '}') rfl]
  | cons f fs ih =>
      obtain ⟨hf, hfs⟩ := List.forall_mem_cons.mp hfs
      cases fuel with
      | zero => cases hfuel
      | succ fuel =>
          have hend : ∀ rest, EndsValue (',' :: rest) := by
            intro rest c hc
            cases hc
            exact .inl rfl
          rw [layOutFields_cons] at hfuel ⊢
          simp only [List.length_append, List.length_cons] at hfuel
          have hrest := ih f.1 hf hfs fuel
            (by simp only [List.length_append, List.length_cons]; omega)
          rw [List.cons_append, List.append_assoc, quote_append, readFields, string?_quoted]
          simp only [Option.bind_eq_bind, Option.bind_some, skipGaps_cons (c := ':') rfl,
            hx.skipGaps]
          rw [hx.reads depth fuel _ (hend _) (by omega)]
          simp only [List.cons_append, List.append_assoc, Option.bind_some,
            skipGaps_cons (c := ',') rfl]
          rw [skipGaps_quote, hrest]
          rfl

theorem visible_layOutFields {depth : Nat} {fs : List (String × Json)}
    (h : ∀ f ∈ fs, f.2.ReadsBack) :
    ∀ c ∈ layOutFields compact depth (fs.map (fun f => (some f.1, f.2))), 32 ≤ c.toNat := by
  induction fs with
  | nil => exact nofun
  | cons f fs ih =>
      obtain ⟨hf, hfs⟩ := List.forall_mem_cons.mp h
      intro c hc
      rw [layOutFields_cons, List.mem_cons, List.mem_append, List.mem_cons, List.mem_append] at hc
      rcases hc with rfl | hc | rfl | hc | hc
      · decide
      · exact visible_quote hc
      · decide
      · exact hf.visible depth c hc
      · exact ih hfs c hc

theorem readsBack_record {fields : List (String × Json)} (h : ∀ f ∈ fields, f.2.ReadsBack) :
    (record fields).ReadsBack := by
  cases fields with
  | nil =>
      refine ⟨fun _ => visible_of_all rfl, fun _ => ⟨'{', _, rfl, by decide, by decide⟩, ?_⟩
      intro depth fuel tail _ hfuel
      cases fuel with
      | zero => cases hfuel
      | succ fuel => rfl
  | cons f fs =>
      obtain ⟨hf, hfs⟩ := List.forall_mem_cons.mp h
      have hlayOut : ∀ depth, layOut compact depth (record (f :: fs)) =
          '{' :: (quote f.1 ++ ':' :: (layOut compact (depth + 1) f.2 ++
            (layOutFields compact (depth + 1) (fs.map (fun f => (some f.1, f.2))) ++ ['}']))) := by
        intro depth
        simp [record, layOut, compact]
      refine ⟨?_, fun depth => ⟨'{', _, hlayOut depth, by decide, by decide⟩, ?_⟩
      · intro depth c hc
        rw [hlayOut, List.mem_cons, List.mem_append, List.mem_cons, List.mem_append,
          List.mem_append, List.mem_singleton] at hc
        rcases hc with rfl | hc | rfl | hc | hc | rfl
        · decide
        · exact visible_quote hc
        · decide
        · exact hf.visible _ c hc
        · exact visible_layOutFields hfs c hc
        · decide
      intro depth fuel tail _ hfuel
      rw [hlayOut] at hfuel ⊢
      simp only [List.length_cons, List.length_append, List.length_nil] at hfuel
      cases fuel with
      | zero => cases hfuel
      | succ fuel =>
          have hfields := readFields_layOut f.1 hf hfs (depth + 1) fuel tail
            (by simp only [List.length_append, List.length_cons]; omega)
          simp only [List.cons_append, List.append_assoc, List.nil_append, readValue,
            skipGaps_quote]
          split
          · rename_i heq
            rw [quote_append] at heq
            cases heq
          · rw [hfields]
            rfl

/-- A text that was written is read as the value that it was written for. -/
theorem read?_write {j : Json} (h : j.ReadsBack) : read? j.write = some j := by
  have hread := h.reads 0 (2 * (layOut compact 0 j).length + 2) [] nofun (by omega)
  have hgaps := h.skipGaps 0 []
  rw [List.append_nil] at hread hgaps
  rw [read?, write, String.toList_ofList]
  simp only [hgaps, hread]
  rfl

end ImageBatch.Json
