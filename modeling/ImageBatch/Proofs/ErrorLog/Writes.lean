import ImageBatch.ErrorLog.Folder
import ImageBatch.Proofs.ErrorLog.Names
import ImageBatch.Proofs.Machine.Soundness

/-!
# Which log is the last

Logs are written one after another into a folder, and each gets the next number of its millisecond.
As ten sorts before two, the listing is in the order of writing just as long as no millisecond has
more than ten logs.
-/

namespace ImageBatch.ErrorLog

/-! ## Names are names -/

variable {s t : Instant} {folder : String} {x y z : Machine} {p : TreePath}

theorem mem_padded {width n : Nat} {c : Char} (hc : c ∈ (padded width n).toList) :
    c.isDigit = true := by
  rw [Text.toList_padded] at hc
  exact Text.isDigit_of_mem_paddedDigits c hc

theorem mem_yearText {year : Int} {c : Char} (hc : c ∈ (yearText year).toList) :
    c.isDigit = true ∨ c ∈ ['+', '-', '_'] := by
  unfold yearText at hc
  split at hc
  · exact .inl (mem_padded hc)
  · rw [String.toList_append, List.mem_append] at hc
    rcases hc with hsign | hc
    · right
      split at hsign
      · rw [List.mem_singleton.mp hsign]
        decide
      · rw [List.mem_singleton.mp hsign]
        decide
    · exact .inl (mem_padded hc)

theorem mem_timeText {c : Char} (hc : c ∈ (timeText t).toList) :
    c.isDigit = true ∨ c ∈ ['+', '-', '_'] := by
  have hgap : ∀ c ∈ "_".toList, c ∈ ['+', '-', '_'] := by simp
  simp only [timeText, String.toList_append, List.mem_append] at hc
  rcases hc with (((((((hc | hc) | hc) | hc) | hc) | hc) | hc) | hc) | hc
  · exact mem_yearText hc
  · exact .inl (mem_padded hc)
  · exact .inl (mem_padded hc)
  · exact .inr (hgap c hc)
  · exact .inl (mem_padded hc)
  · exact .inl (mem_padded hc)
  · exact .inl (mem_padded hc)
  · exact .inr (hgap c hc)
  · exact .inl (mem_padded hc)

theorem mem_numberedName {n : Nat} {c : Char} (hc : c ∈ (numberedName t n).toList) :
    c.isDigit = true ∨ c ∈ ['+', '-', '_'] ∨ c ∈ nameStart.toList ∨ c ∈ nameEnd.toList := by
  rw [toList_numberedName, List.mem_append, List.mem_append, numberText, List.mem_append] at hc
  rcases hc with (hc | hc) | hc | hc
  · exact .inr (.inr (.inl hc))
  · exact (mem_timeText hc).imp_right .inl
  · split at hc
    · cases hc
    · rcases List.mem_cons.mp hc with rfl | hc
      · exact .inr (.inl (by decide))
      · exact .inl (isDigit_toDigits c hc)
  · exact .inr (.inr (.inr hc))

theorem isPlainName_numberedName (t : Instant) (n : Nat) : IsPlainName (numberedName t n) := by
  have hlen : 17 ≤ (numberedName t n).toList.length := by
    rw [toList_numberedName, List.length_append, List.length_append]
    have hstart : nameStart.toList.length = 17 := by decide
    omega
  have hne : ∀ word : String, word.toList.length < 17 → numberedName t n ≠ word := by
    rintro word hword rfl
    omega
  refine ⟨hne _ (by decide), ?_, ?_, hne _ (by decide), hne _ (by decide)⟩
  all_goals
    intro hc
    rcases mem_numberedName hc with hdigit | hc | hc | hc
    · revert hdigit
      decide
    · revert hc
      decide
    · revert hc
      decide
    · revert hc
      decide

theorem isName_numberedName (t : Instant) (n : Nat) : isName (numberedName t n) = true := by
  have hlist := toList_numberedName t n
  rw [isName, Bool.and_eq_true, String.startsWith_string_iff, endsWith_iff, hlist]
  refine ⟨?_, ?_⟩
  · rw [List.append_assoc]
    exact List.prefix_append _ _
  · rw [numberText, ← List.append_assoc]
    exact List.suffix_append _ _

/-! ## One write -/

/-- The path of the log that is number so many of the moment. -/
def numberedPath (folder : String) (t : Instant) (n : Nat) : String :=
  joinPath folder (numberedName t n)

/-- The folder of the logs and the names in it, newest first, on a machine where nothing fails. -/
structure Keeps (x : Machine) (folder : String) (p : TreePath) (names : List String) : Prop where
  leads : x.LeadsTo folder p
  faults : x.faults = []
  children : x.children p = names

section Write

variable {names : List String} {path runId : String} {s : Statistics} {records : List Record}

/-- Where the folder is there, a write makes a file under the first name that is free and fills it.
-/
theorem write_of_houses (h : x.Houses folder p) (hfaults : x.faults = []) :
    (write folder runId s records : StateM Machine (Except Error String)) x =
      match x.createFirst (fun n => joinPath folder (numberedName x.clock n)) with
      | .error (n, e) => (.error ⟨joinPath folder (numberedName x.clock n), e⟩, x)
      | .ok (y, n, id) =>
        (.ok (joinPath folder (numberedName x.clock n)),
          y.append id (content runId x.clock s records).toUTF8) := by
  have hnow : (Host.now : StateM Machine Instant) x = (x.clock, x) := rfl
  rw [write, Machine.bind_apply, Machine.makeFolders_apply hfaults, h.makeFolders]
  simp only [Machine.bind_apply, hnow, Machine.createFirst_apply hfaults]
  cases hcreate : x.createFirst (fun n => joinPath folder (numberedName x.clock n)) with
  | error e => rfl
  | ok made =>
      obtain ⟨y, n, id⟩ := made
      obtain ⟨q, hadd⟩ := Machine.exists_addFile_of_create (Machine.createFrom_eq_ok hcreate).2
      have hy : y = (x.addFile q).1 := congrArg Prod.fst hadd
      have hfaults' : y.faults = [] := hy ▸ hfaults
      simp only [Machine.bind_apply, Machine.write_apply hfaults']
      rfl

theorem write_of_findsFree (h : x.Houses folder p) (hfaults : x.faults = []) {n : Nat}
    {q : TreePath} (hfinds : x.FindsFree (numberedPath folder x.clock) n q)
    (hn : n ≤ (x.children p).length) (hnumber : n ≤ lastNumber) (runId : String) (s : Statistics)
    (records : List Record) :
    (write folder runId s records : StateM Machine (Except Error String)) x =
      (.ok (numberedPath folder x.clock n),
        x.plusFile q (content runId x.clock s records).toUTF8) := by
  have hnodes : (x.children p).length ≤ x.nodes.length := List.length_filterMap_le _ _
  have hfirst : x.createFirst (fun n => joinPath folder (numberedName x.clock n)) =
      .ok ((x.addFile q).1, n, x.contents.length) :=
    hfinds.createFrom (Nat.lt_min.mpr ⟨by omega, Nat.lt_succ_of_le hnumber⟩)
  rw [write_of_houses h hfaults, hfirst, ← Machine.append_addFile]
  rfl

/-- What a folder keeps after a file has been made in it and filled. -/
theorem Keeps.addFile (h : Keeps x folder p names) {name : String} (hfree : name ∉ names) (id : Nat)
    (bytes : ByteArray) :
    Keeps ((x.addFile (p ++ [name])).1.append id bytes) folder p (name :: names) := by
  have hnode : x.node? (p ++ [name]) = none :=
    Classical.not_not.mp (fun hsome => hfree (h.children ▸ Machine.mem_children.mpr hsome))
  have hextends := Machine.extends_addFile hnode
  refine ⟨h.leads.of_extends ⟨hextends.node, hextends.home⟩, h.faults, ?_⟩
  refine (Machine.children_cons x p p _ _).trans ?_
  rw [if_pos rfl, h.children]

/-- A log gets the first name of its millisecond that is not taken. -/
theorem Keeps.of_write (h : Keeps x folder p names)
    (hw : (write folder runId s records : StateM Machine _) x = (.ok path, z)) :
    ∃ n, path = joinPath folder (numberedName x.clock n) ∧
      (∀ m < n, numberedName x.clock m ∈ names) ∧ numberedName x.clock n ∉ names ∧
      Keeps z folder p (numberedName x.clock n :: names) := by
  have hplain := isPlainName_numberedName x.clock
  rw [write_of_houses h.leads.houses h.faults] at hw
  cases hcreate : x.createFirst (fun n => joinPath folder (numberedName x.clock n)) with
  | error e =>
      rw [hcreate] at hw
      cases hw
  | ok made =>
      obtain ⟨y, n, id⟩ := made
      rw [hcreate] at hw
      obtain ⟨hpath, rfl⟩ := Prod.mk.inj hw
      obtain ⟨htaken, hmade⟩ := Machine.createFrom_eq_ok hcreate
      obtain ⟨hfree, hadd⟩ := h.leads.houses.create_eq_ok (hplain n) hmade
      have hy : y = (x.addFile (p ++ [numberedName x.clock n])).1 := congrArg Prod.fst hadd
      rw [h.children] at hfree
      refine ⟨n, (Except.ok.inj hpath).symm, ?_, hfree, hy ▸ h.addFile hfree id _⟩
      intro m hm
      exact h.children ▸ h.leads.houses.mem_of_create_eq_exists (hplain m) (htaken m (Nat.zero_le m) hm)

end Write

/-! ## The names in a folder -/

/-- How many logs are of the millisecond. -/
def sharing (t : Instant) (moments : List Instant) : Nat := moments.countP t.sameMillisecond

/-- The names that logs get. Their moments stand with the last one in front, and so do the names. -/
def taken : List Instant → List String
  | [] => []
  | t :: earlier => numberedName t (sharing t earlier) :: taken earlier

variable {moments earlier : List Instant}

theorem sharing_congr (h : s.sameMillisecond t = true) (moments : List Instant) :
    sharing s moments = sharing t moments := by
  obtain ⟨hseconds, hmillis⟩ := Instant.sameMillisecond_iff.mp h
  have hsame : s.sameMillisecond = t.sameMillisecond := by
    funext u
    rw [Instant.sameMillisecond, Instant.sameMillisecond, hseconds, hmillis]
  rw [sharing, sharing, hsame]

theorem sharing_cons (s t : Instant) (earlier : List Instant) :
    sharing s (t :: earlier) =
      if s.sameMillisecond t = true then sharing t earlier + 1 else sharing s earlier := by
  split
  · rename_i h
    rw [← sharing_congr h, sharing, sharing, List.countP_cons_of_pos h]
  · rename_i h
    rw [sharing, sharing, List.countP_cons_of_neg h]

theorem sameMillisecond_of_timeText (hs : s.IsUsual) (ht : t.IsUsual)
    (h : timeText s = timeText t) : s.sameMillisecond t = true := by
  by_contra hne
  rw [Bool.not_eq_true] at hne
  rcases Instant.le_total s t with hle | hle
  · have hlt := timeText_lt hs ht hle hne
    rw [h] at hlt
    exact lt_irrefl _ hlt
  · rw [Instant.sameMillisecond_comm] at hne
    have hlt := timeText_lt ht hs hle hne
    rw [h] at hlt
    exact lt_irrefl _ hlt

theorem numberText_inj {m n : Nat} (h : numberText m = numberText n) : m = n := by
  unfold numberText at h
  have hgap : ∀ cs : List Char, '_' :: cs ++ nameEnd.toList ≠ [] ++ nameEnd.toList := by
    intro cs hcs
    cases List.append_cancel_right hcs
  by_cases hm : m = 0 <;> by_cases hn : n = 0
  · exact hm.trans hn.symm
  · rw [if_pos hm, if_neg hn] at h
    exact (hgap _ h.symm).elim
  · rw [if_neg hm, if_pos hn] at h
    exact (hgap _ h).elim
  · rw [if_neg hm, if_neg hn] at h
    have hdigits : Nat.toDigits 10 m = Nat.toDigits 10 n :=
      (List.cons.inj (List.append_cancel_right h)).2
    simpa [Text.digitsValue_toDigits] using congrArg Text.digitsValue hdigits

theorem number_of_numberedName {m n : Nat} (h : numberedName t m = numberedName t n) : m = n := by
  rw [← String.toList_inj, toList_numberedName, toList_numberedName,
    List.append_cancel_left_eq] at h
  exact numberText_inj h

/-- Names are different unless both the millisecond and the number are the same. -/
theorem numberedName_inj (hs : s.IsUsual) (ht : t.IsUsual) {m n : Nat} :
    numberedName s m = numberedName t n ↔ s.sameMillisecond t = true ∧ m = n := by
  constructor
  · intro h
    have hlen : (timeText s).toList.length = (timeText t).toList.length :=
      (length_timeText hs).trans (length_timeText ht).symm
    rw [← String.toList_inj, toList_numberedName, toList_numberedName, List.append_assoc,
      List.append_assoc, List.append_cancel_left_eq] at h
    obtain ⟨htime, hnumber⟩ := List.append_inj h hlen
    exact ⟨sameMillisecond_of_timeText hs ht (String.toList_inj.mp htime), numberText_inj hnumber⟩
  · rintro ⟨hsame, rfl⟩
    rw [numberedName, numberedName, timeText_of_sameMillisecond hsame]

theorem length_taken (moments : List Instant) : (taken moments).length = moments.length := by
  induction moments with
  | nil => rfl
  | cons t earlier ih => rw [taken, List.length_cons, List.length_cons, ih]

/-- Each name that is taken is of one of the moments, under a number that has been counted. -/
theorem exists_of_mem_taken {name : String} (h : name ∈ taken moments) :
    ∃ t ∈ moments, ∃ n < sharing t moments, name = numberedName t n := by
  induction moments with
  | nil => cases h
  | cons t earlier ih =>
      rcases List.mem_cons.mp h with rfl | h
      · refine ⟨t, List.mem_cons_self, sharing t earlier, ?_, rfl⟩
        rw [sharing_cons, if_pos (Instant.sameMillisecond_self t)]
        exact Nat.lt_succ_self _
      · obtain ⟨s, hs, n, hn, rfl⟩ := ih h
        refine ⟨s, List.mem_cons_of_mem t hs, n, ?_, rfl⟩
        rw [sharing_cons]
        split
        · rename_i hsame
          exact Nat.lt_succ_of_lt (sharing_congr hsame earlier ▸ hn)
        · exact hn

/-- The numbers of a millisecond are taken from zero on, without a gap. -/
theorem mem_taken (h : ∀ s ∈ moments, s.IsUsual) (ht : t.IsUsual) {n : Nat} :
    numberedName t n ∈ taken moments ↔ n < sharing t moments := by
  induction moments with
  | nil => simp [taken, sharing]
  | cons s earlier ih =>
      obtain ⟨hs, hearlier⟩ := List.forall_mem_cons.mp h
      rw [taken, List.mem_cons, numberedName_inj ht hs, ih hearlier, sharing_cons]
      split
      · rename_i hsame
        rw [sharing_congr hsame]
        simp only [hsame, true_and]
        omega
      · rename_i hne
        simp [hne]

theorem nodup_taken (h : ∀ s ∈ moments, s.IsUsual) : (taken moments).Nodup := by
  induction moments with
  | nil => exact List.nodup_nil
  | cons t earlier ih =>
      obtain ⟨ht, hearlier⟩ := List.forall_mem_cons.mp h
      refine List.nodup_cons.mpr ⟨?_, ih hearlier⟩
      rw [mem_taken hearlier ht]
      exact Nat.lt_irrefl _

/-- The last name sorts behind all the others just if its number sorts behind the smaller ones. -/
theorem taken_lt_iff (h : ∀ s ∈ earlier, s.IsUsual) (ht : t.IsUsual)
    (hclock : ∀ s ∈ earlier, s ≤ t) :
    (∀ name ∈ taken earlier, name < numberedName t (sharing t earlier)) ↔
      SortsLast (sharing t earlier) := by
  constructor
  · intro hlt
    by_contra hlast
    obtain ⟨m, hm, hnumber⟩ := exists_lt_of_not_sortsLast hlast
    have hbefore := hlt _ ((mem_taken h ht).mpr hm)
    have hbehind := (numberedName_lt_iff ht ht).mpr (.inr ⟨rfl, hnumber⟩)
    exact lt_asymm hbefore hbehind
  · intro hlast name hname
    obtain ⟨s, hs, n, hn, rfl⟩ := exists_of_mem_taken hname
    rw [numberedName_lt_iff (h s hs) ht]
    by_cases hsame : s.sameMillisecond t = true
    · rw [sharing_congr hsame] at hn
      exact .inr ⟨timeText_of_sameMillisecond hsame, numberText_lt_of_sortsLast hlast hn⟩
    · exact .inl (timeText_lt (h s hs) ht (hclock s hs) (Bool.not_eq_true _ ▸ hsame))

/-- The names sort in the order in which they were given just if no millisecond has eleven. -/
theorem pairwise_taken_iff (h : ∀ s ∈ moments, s.IsUsual)
    (hclock : moments.Pairwise (fun later s => s ≤ later)) :
    (taken moments).Pairwise (fun later name => name < later) ↔
      ∀ t, sharing t moments ≤ 10 := by
  induction moments with
  | nil => simp [taken, sharing]
  | cons s earlier ih =>
      obtain ⟨hs, hearlier⟩ := List.forall_mem_cons.mp h
      obtain ⟨hle, hclock⟩ := List.pairwise_cons.mp hclock
      rw [taken, List.pairwise_cons, taken_lt_iff hearlier hs hle, ih hearlier hclock]
      constructor
      · rintro ⟨hlast, hfew⟩ t
        have hten := hfew s
        rw [sharing_cons]
        split
        · have hne : sharing s earlier ≠ 10 := fun heq => not_sortsLast_ten (heq ▸ hlast)
          omega
        · exact hfew t
      · intro hfew
        have hself := hfew s
        rw [sharing_cons, if_pos (Instant.sameMillisecond_self s)] at hself
        refine ⟨sortsLast_of_lt hself, ?_⟩
        intro t
        have ht := hfew t
        rw [sharing_cons] at ht
        split at ht
        · rename_i hsame
          rw [sharing_congr hsame]
          omega
        · exact ht

end ImageBatch.ErrorLog
