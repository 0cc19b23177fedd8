import ImageBatch.Proofs.Category
import ImageBatch.Proofs.Text.Digits
import ImageBatch.Tool.Launch

/-!
# The words that a failure is judged by

A tool that ends without success is known by its words. The category of the failure is read off as
many of them as are kept, and off the name of the command if there are none, so it may miss what
all the words say.
-/

namespace ImageBatch

namespace Text

theorem takeBytes_isPrefix (room : Nat) (cs : List Char) : takeBytes room cs <+: cs := by
  induction cs generalizing room with
  | nil => exact List.prefix_refl _
  | cons c cs ih =>
      rw [takeBytes]
      split
      · exact (List.prefix_cons_inj c).mpr (ih _)
      · exact List.nil_prefix

theorem takeBytes_of_le {room : Nat} {cs : List Char} (h : byteLength cs ≤ room) :
    takeBytes room cs = cs := by
  induction cs generalizing room with
  | nil => rfl
  | cons c cs ih =>
      have hsum : byteLength (c :: cs) = c.utf8Size + byteLength cs := rfl
      rw [takeBytes, if_pos (by omega), ih (by omega)]

/-- The bytes of an array in a list, whatever has been read before. -/
theorem toList_loop (bs : ByteArray) (i : Nat) (read : List UInt8) :
    ByteArray.toList.loop bs i read = read.reverse ++ bs.data.toList.drop i := by
  induction i, read using ByteArray.toList.loop.induct bs with
  | case1 i read hlt ih =>
      have hlen : i < bs.data.toList.length := by simpa using hlt
      have hget : bs.get! i = bs.data.toList[i] := by
        rw [Array.getElem_toList]
        exact getElem!_pos bs.data i (by simpa using hlt)
      rw [ByteArray.toList.loop, if_pos hlt, ih, List.drop_eq_getElem_cons hlen, hget]
      simp
  | case2 i read hge =>
      have hnil : bs.data.toList.drop i = [] := List.drop_eq_nil_of_le (by simpa using hge)
      rw [ByteArray.toList.loop, if_neg hge, hnil, List.append_nil]

theorem toList_bytes (bs : ByteArray) : bs.toList = bs.data.toList :=
  toList_loop bs 0 []

theorem lowerChar_of_lt {c : Char} (h : c.toNat < 65) : lowerChar c = [c] := by
  have hk : c.toNat ≠ 0x212A := by omega
  have hi : c.toNat ≠ 0x130 := by omega
  have hbefore : ¬ 'A'.val ≤ c.val := fun hle =>
    absurd (UInt32.le_iff_toNat_le.mp hle) (Nat.not_le.mpr h)
  have hsame : c.toLower = c := dif_neg fun hupper => hbefore hupper.1
  simp [lowerChar, hk, hi, hsame]

theorem isLower_of_lt {c : Char} (h : c.toNat < 97) : c.isLower = false := by
  refine Bool.eq_false_iff.mpr fun hlower => ?_
  have hle : 'a' ≤ c := of_decide_eq_true (Bool.and_eq_true_iff.mp hlower).1
  exact absurd (UInt32.le_iff_toNat_le.mp hle) (Nat.not_le.mpr h)

end Text

namespace Tool

open Category

/-! ## What is added to the words -/

theorem mem_statusText {status : Option Nat} {c : Char} (h : c ∈ (statusText status).toList) :
    c = '-' ∨ c.isDigit = true := by
  cases status with
  | none =>
      have hall : ∀ c ∈ ['-', '1'], c = '-' ∨ c.isDigit = true := by simp
      exact hall c h
  | some n =>
      have hdigits : c ∈ Nat.toDigits 10 n := by rwa [← Nat.toList_repr]
      exact .inr (Nat.isDigit_of_mem_toDigits (by decide) (by decide) hdigits)

theorem foreign_of_mem_statusText {status : Option Nat} :
    ∀ x ∈ Text.lowered (statusText status), x.isLower = false ∧ x ≠ ' ' := by
  intro x hx
  obtain ⟨c, hc, hx⟩ := List.mem_flatMap.mp hx
  rcases mem_statusText hc with rfl | hdigit
  · rw [List.mem_singleton.mp hx]
    decide
  · have hle := (Text.isDigit_toNat hdigit).2
    rw [Text.lowerChar_of_lt (by omega), List.mem_singleton] at hx
    rw [hx]
    refine ⟨Text.isLower_of_lt (by omega), ?_⟩
    rintro rfl
    exact absurd hdigit (by decide)

/-- A status that is told adds no claims to the name of the command. -/
theorem claims_exited (command : String) (status : Option Nat) (c : Category) :
    claims (Text.lowered (command ++ " exited with status " ++ statusText status)) c =
      claims (Text.lowered command) c := by
  have hnone : claims (Text.lowered " exited with status ") c = false := by
    cases c <;> decide
  rw [Text.lowered_append, claims_append_of_foreign foreign_of_mem_statusText,
    Text.lowered_append, claims_append, hnone, Bool.or_false]
  cases c <;> decide

theorem claims_shortened (cs : List Char) (c : Category) :
    claims (Text.lowered (String.ofList (shortened cs))) c =
      claims (Text.lowered (String.ofList (Text.takeBytes wordsBound cs))) c := by
  rw [shortened]
  split
  · have hnone : claims (Text.lowered "... [truncated]") c = false := by cases c <;> decide
    rw [String.ofList_append, String.ofList_toList, Text.lowered_append, claims_append, hnone,
      Bool.or_false]
    cases c <;> decide
  · next h => rw [Text.takeBytes_of_le (Nat.not_lt.mp h)]

/-! ## Judgement -/

/-- The text that a failure is judged by: the words that are kept, or the command's name if there
are none. -/
def heard (command : String) (e : Shell.Ended) : String :=
  if words e = [] then command else String.ofList (Text.takeBytes wordsBound (words e))

/-- The category that all the words together give. -/
def told (e : Shell.Ended) : Category := classify (String.ofList (words e))

theorem classify_complaint (command : String) (e : Shell.Ended) :
    classify (complaint command e) = classify (heard command e) := by
  refine classify_congr fun c => ?_
  rw [complaint, heard]
  by_cases hwords : words e = []
  · rw [if_pos hwords, hwords]
    exact claims_exited command e.status c
  · rw [if_neg hwords, if_neg (by simpa using hwords)]
    exact claims_shortened (words e) c

theorem heard_of_words {e : Shell.Ended} (h : words e ≠ []) (command : String) :
    Text.lowered (heard command e) <+: Text.lowered (String.ofList (words e)) := by
  rw [heard, if_neg h]
  exact Text.lowered_isPrefix (Text.takeBytes_isPrefix ..)

/-- A tool that ends without success gives a failure, whose category is that of the text it is
judged by. Where the tool says nothing, it is the category of no words only if the command's name
has no phrase in it; where the tool says something, it is the category of all the words only if
one of the phrases that give it is kept, and otherwise a later one. -/
theorem judged_by_heard (command : String) (time : Span) {e : Shell.Ended}
    (h : e.status ≠ some 0) :
    ∃ f, failure? command time (.ended e) = some f ∧
      f.category = classify (heard command e) ∧
      (words e = [] →
        (f.category = told e ↔ ∀ c, claims (Text.lowered command) c = false)) ∧
      (words e ≠ [] →
        (told e).rank ≤ f.category.rank ∧
        (f.category = told e ↔
          told e = .other ∨ claims (Text.lowered (heard command e)) (told e) = true)) ∧
      (words e ≠ [] → Text.byteLength (words e) ≤ wordsBound → f.category = told e) := by
  have hjudged : (Failure.ofMessage (complaint command e)).category =
      classify (heard command e) := classify_complaint command e
  refine ⟨.ofMessage (complaint command e), by rw [failure?, if_neg h], hjudged, ?_, ?_, ?_⟩
  · intro hsilent
    have hother : told e = .other := by rw [told, hsilent]; decide
    rw [hjudged, hother, heard, if_pos hsilent, classify_eq_other_iff]
  · intro hwords
    have hkept := (heard_of_words hwords command).isInfix
    rw [hjudged]
    exact ⟨rank_classify_le_of_within hkept, classify_eq_iff_of_within hkept⟩
  · intro hwords hfits
    rw [hjudged, heard, if_neg hwords, Text.takeBytes_of_le hfits, told]

/-- A tool that is refused, but shows more progress before it says so than is kept. -/
def refusedLate : Shell.Ended where
  status := some 1
  output := ByteArray.empty
  errors := ⟨(List.replicate 4000 46 ++ " unauthorized".toUTF8.data.toList).toArray⟩

/-- A tool that says nothing. -/
def silent : Shell.Ended := ⟨some 1, ByteArray.empty, ByteArray.empty⟩

theorem words_refusedLate :
    words refusedLate = List.replicate 4000 '.' ++ " unauthorized".toList := by
  rw [words, Text.toList_bytes]
  decide +kernel

theorem lowered_dots : Text.lowered (String.ofList (List.replicate 4000 '.')) =
    List.replicate 4000 '.' := by
  rw [Text.lowered_ofList]
  decide +kernel

theorem claims_dots (c : Category) : claims (List.replicate 4000 '.') c = false := by
  have hforeign : ∀ x ∈ List.replicate 4000 '.', x.isLower = false ∧ x ≠ ' ' := by
    intro x hx
    rw [(List.mem_replicate.mp hx).2]
    decide
  rw [← List.nil_append (List.replicate 4000 '.'), claims_append_of_foreign hforeign]
  cases c <;> rfl

theorem told_refusedLate : told refusedLate = .auth := by
  have hcongr : told refusedLate = classify " unauthorized" := by
    refine classify_congr fun c => ?_
    rw [words_refusedLate, String.ofList_append, String.ofList_toList, Text.lowered_append,
      lowered_dots, claims_append, claims_dots, Bool.false_or]
    cases c <;> decide
  rw [hcongr]
  decide

theorem heard_refusedLate :
    heard "skopeo" refusedLate = String.ofList (List.replicate 4000 '.') := by
  have hwords : words refusedLate ≠ [] := by
    rw [words_refusedLate]
    exact List.append_ne_nil_of_right_ne_nil _ (by decide)
  have hkept : Text.takeBytes wordsBound (words refusedLate) = List.replicate 4000 '.' := by
    rw [words_refusedLate]
    decide +kernel
  rw [heard, if_neg hwords, hkept]

/-- The refusal is missed behind the cut, and a silent tool is taken for a refused one by its
name. -/
theorem judged_by_heard_of_refusedLate :
    (refusedLate.status ≠ some 0 ∧ told refusedLate = .auth ∧
      ∃ f, failure? "skopeo" ⟨0⟩ (.ended refusedLate) = some f ∧ f.category = .other) ∧
    silent.status ≠ some 0 ∧ told silent = .other ∧
      ∃ f, failure? "login-tool" ⟨0⟩ (.ended silent) = some f ∧ f.category = .auth := by
  refine ⟨⟨by decide, told_refusedLate, ?_⟩, by decide, by decide +kernel, ?_⟩
  · obtain ⟨f, hf, hcat, -⟩ := judged_by_heard "skopeo" ⟨0⟩ (e := refusedLate) (by decide)
    refine ⟨f, hf, ?_⟩
    rw [hcat, heard_refusedLate, classify_eq_other_iff, lowered_dots]
    exact claims_dots
  · obtain ⟨f, hf, hcat, -⟩ := judged_by_heard "login-tool" ⟨0⟩ (e := silent) (by decide)
    refine ⟨f, hf, ?_⟩
    rw [hcat]
    decide +kernel

end Tool

end ImageBatch
