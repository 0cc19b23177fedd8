import ImageBatch.Proofs.ErrorLog.Writes
import Mathlib.Data.List.Sort
import Mathlib.Order.Basic

/-!
# Lists of logs

Logs are written one after another into a folder that was empty. All of them are listed, each once,
but not always in the order of writing: the tenth number of a millisecond sorts behind the first.
The last log is the latest just if its number sorts behind all smaller ones.
-/

namespace ImageBatch.ErrorLog

/-- A log that is to be written, and what the clock shows then. -/
structure Writing where
  moment : Instant
  runId : String
  statistics : Statistics
  records : List Record

/-- Writes one log after another. -/
def writeAll (folder : String) : List Writing → StateM Machine (List (Except Error String))
  | [] => pure []
  | w :: rest => do
    modify (fun x => { x with clock := w.moment })
    let result ← write folder w.runId w.statistics w.records
    let results ← writeAll folder rest
    pure (result :: results)

variable {folder path runId : String} {x y z : Machine} {p : TreePath} {t : Instant}
  {earlier : List Instant} {ws : List Writing} {paths : List String}

theorem writeAll_cons (w : Writing) (rest : List Writing) (x : Machine) :
    writeAll folder (w :: rest) x =
      let one := (write folder w.runId w.statistics w.records : StateM Machine _)
        { x with clock := w.moment }
      let others := writeAll folder rest one.2
      (one.1 :: others.1, others.2) := rfl

/-! ## From write to write -/

namespace Keeps

theorem setClock {names : List String} (h : Keeps x folder p names) (t : Instant) :
    Keeps { x with clock := t } folder p names :=
  ⟨h.leads.of_extends ⟨fun _ _ hnode => hnode, rfl⟩, h.faults, h.children⟩

theorem after_write {s : Statistics} {records : List Record} (h : Keeps x folder p (taken earlier))
    (hearlier : ∀ s ∈ earlier, s.IsUsual) (hclock : x.clock.IsUsual)
    (hw : (write folder runId s records : StateM Machine _) x = (.ok path, z)) :
    path = joinPath folder (numberedName x.clock (sharing x.clock earlier)) ∧
      Keeps z folder p (taken (x.clock :: earlier)) := by
  obtain ⟨n, rfl, htaken, hfree, hkeeps⟩ := h.of_write hw
  have hn : n = sharing x.clock earlier := by
    apply Nat.le_antisymm
    · apply Nat.le_of_not_lt
      intro hlt
      exact Nat.lt_irrefl _ ((mem_taken hearlier hclock).mp (htaken _ hlt))
    · apply Nat.le_of_not_lt
      intro hlt
      exact hfree ((mem_taken hearlier hclock).mpr hlt)
  subst hn
  exact ⟨rfl, hkeeps⟩

/-- After any number of writes the folder has the names that they got, behind those of before. -/
theorem after_writeAll (h : Keeps x folder p (taken earlier)) (hearlier : ∀ s ∈ earlier, s.IsUsual)
    (husual : ∀ w ∈ ws, w.moment.IsUsual)
    (hw : writeAll folder ws x = (paths.map .ok, z)) :
    Keeps z folder p (taken ((ws.map Writing.moment).reverse ++ earlier)) ∧
      paths.reverse ++ (taken earlier).map (joinPath folder) =
        (taken ((ws.map Writing.moment).reverse ++ earlier)).map (joinPath folder) := by
  induction ws generalizing x earlier paths with
  | nil =>
      obtain ⟨hpaths, rfl⟩ := Prod.mk.inj hw
      have hnil : paths = [] := List.map_eq_nil_iff.mp hpaths.symm
      exact ⟨h, by simp [hnil]⟩
  | cons w rest ih =>
      obtain ⟨hmoment, hrest⟩ := List.forall_mem_cons.mp husual
      rw [writeAll_cons] at hw
      obtain ⟨hresults, hz⟩ := Prod.mk.inj hw
      cases paths with
      | nil => cases hresults
      | cons path paths =>
          obtain ⟨hfirst, hothers⟩ := List.cons.inj hresults
          obtain ⟨rfl, hnext⟩ :=
            (h.setClock w.moment).after_write hearlier hmoment (Prod.ext hfirst rfl)
          have hall : ∀ s ∈ w.moment :: earlier, s.IsUsual :=
            List.forall_mem_cons.mpr ⟨hmoment, hearlier⟩
          obtain ⟨hkeeps, hnames⟩ := ih hnext hall hrest (Prod.ext hothers hz)
          simp only [List.map_cons, List.reverse_cons, List.append_assoc, List.singleton_append]
          exact ⟨hkeeps, hnames⟩

end Keeps

/-! ## Writes that succeed -/

/-- A write succeeds unless a name that it tries is too long or the numbers are used up. -/
theorem Keeps.exists_write (h : Keeps x folder p (taken earlier))
    (hearlier : ∀ s ∈ earlier, s.IsUsual) (hclock : x.clock.IsUsual)
    (hfew : earlier.length ≤ lastNumber)
    (hroom : ∀ n ≤ earlier.length, Machine.HasRoom folder (numberedName x.clock n))
    (runId : String) (s : Statistics) (records : List Record) :
    ∃ path z, (write folder runId s records : StateM Machine _) x = (.ok path, z) := by
  have hcount : sharing x.clock earlier ≤ earlier.length := List.countP_le_length
  have hplain := isPlainName_numberedName x.clock
  have hfree : numberedName x.clock (sharing x.clock earlier) ∉ x.children p := by
    rw [h.children, mem_taken hearlier hclock]
    exact Nat.lt_irrefl _
  have hhouses := h.leads.houses
  obtain ⟨n, hn, hfinds⟩ := hhouses.exists_findsFree hplain (fun _ _ => number_of_numberedName)
    (hhouses.triesFreely hplain (fun n hn => hroom n (hn.trans hcount)) hfree)
  have hnumber : n ≤ lastNumber := by
    rw [h.children, length_taken] at hn
    exact hn.trans hfew
  exact ⟨_, _, write_of_findsFree hhouses h.faults hfinds hn hnumber runId s records⟩

theorem Keeps.exists_writeAll (h : Keeps x folder p (taken earlier))
    (hearlier : ∀ s ∈ earlier, s.IsUsual) (husual : ∀ w ∈ ws, w.moment.IsUsual)
    (hfew : earlier.length + ws.length ≤ lastNumber)
    (hroom : ∀ w ∈ ws, ∀ n < earlier.length + ws.length,
      Machine.HasRoom folder (numberedName w.moment n)) :
    ∃ (paths : List String) (z : Machine), writeAll folder ws x = (paths.map .ok, z) := by
  induction ws generalizing x earlier with
  | nil => exact ⟨[], x, rfl⟩
  | cons w rest ih =>
      obtain ⟨hmoment, hrest⟩ := List.forall_mem_cons.mp husual
      obtain ⟨hfirst, hothers⟩ := List.forall_mem_cons.mp hroom
      have hset := h.setClock w.moment
      rw [List.length_cons] at hfew
      obtain ⟨path, y, hw⟩ := hset.exists_write hearlier hmoment (by omega)
        (fun n hn => hfirst n (by rw [List.length_cons]; omega)) w.runId w.statistics w.records
      have hnext := (hset.after_write hearlier hmoment hw).2
      obtain ⟨paths, z, hz⟩ := ih hnext (List.forall_mem_cons.mpr ⟨hmoment, hearlier⟩) hrest
        (by rw [List.length_cons]; omega)
        (fun v hv n hn => hothers v hv n (by rw [List.length_cons] at *; omega))
      refine ⟨path :: paths, z, ?_⟩
      rw [writeAll_cons, hw]
      simp only [hz, List.map_cons]

/-! ## From the start -/

theorem exists_keeps (hfaults : x.faults = []) (hmade : x.makeFolders folder = .ok y)
    (hempty : y.list folder = .ok []) : ∃ p, Keeps y folder p (taken []) := by
  obtain ⟨p, hleads, hchildren⟩ := Machine.list_eq_ok hempty
  exact ⟨p, hleads, (Machine.grows_of_makeFolders hmade).same ▸ hfaults, hchildren⟩

theorem write_of_made (hfaults : x.faults = []) (hmade : x.makeFolders folder = .ok y)
    (hthere : y.makeFolders folder = .ok y) (runId : String) (s : Statistics)
    (records : List Record) :
    (write folder runId s records : StateM Machine (Except Error String)) x =
      (write folder runId s records : StateM Machine (Except Error String)) y := by
  have hfaults' : y.faults = [] := (Machine.grows_of_makeFolders hmade).same ▸ hfaults
  rw [write, Machine.bind_apply, Machine.bind_apply, Machine.makeFolders_apply hfaults, hmade,
    Machine.makeFolders_apply hfaults', hthere]

/-- It is the same whether the folder is made by the first write or stands before it. -/
theorem writeAll_of_made (hfaults : x.faults = []) (hmade : x.makeFolders folder = .ok y)
    (hthere : y.makeFolders folder = .ok y) (w : Writing) (rest : List Writing) :
    writeAll folder (w :: rest) x = writeAll folder (w :: rest) y := by
  have hfirst := write_of_made (x := { x with clock := w.moment }) hfaults
    (Machine.makeFolders_setClock hmade w.moment) (Machine.makeFolders_setClock hthere w.moment)
    w.runId w.statistics w.records
  rw [writeAll_cons, writeAll_cons, hfirst]

/-- Into an empty folder all logs can be written unless a name is too long or there are more logs than
numbers. -/
theorem exists_writeAll (hfaults : x.faults = []) (hmade : x.makeFolders folder = .ok y)
    (hempty : y.list folder = .ok []) (husual : ∀ w ∈ ws, w.moment.IsUsual)
    (hfew : ws.length ≤ lastNumber)
    (hroom : ∀ w ∈ ws, ∀ n < ws.length, Machine.HasRoom folder (numberedName w.moment n)) :
    ∃ (paths : List String) (z : Machine), writeAll folder ws x = (paths.map .ok, z) := by
  obtain ⟨p, hkeeps⟩ := exists_keeps hfaults hmade hempty
  cases ws with
  | nil => exact ⟨[], x, rfl⟩
  | cons w rest =>
      rw [writeAll_of_made hfaults hmade hkeeps.leads.makeFolders]
      exact hkeeps.exists_writeAll (fun s hs => nomatch hs) husual
        (by rwa [List.length_nil, Nat.zero_add])
        (fun v hv n hn => hroom v hv n (by rwa [List.length_nil, Nat.zero_add] at hn))

/-! ## What is listed -/

theorem Keeps.list_apply {names : List String} (h : Keeps x folder p names) :
    (list folder : StateM Machine (Except Error (List String))) x =
      (.ok ((logNames names).map (joinPath folder)), x) := by
  rw [list, Machine.bind_apply, Machine.isThere_apply, h.leads.kind]
  simp only [Option.isSome_some, if_true, Machine.bind_apply, Machine.list_apply h.faults,
    h.leads.list, h.children]
  rfl

theorem list_of_missing (h : x.kind? folder = none) :
    (list folder : StateM Machine (Except Error (List String))) x = (.ok [], x) := by
  rw [list, Machine.bind_apply, Machine.isThere_apply, h]
  rfl

/-- Nothing is listed where a folder can be made in which nothing is. -/
theorem list_of_made (hmade : x.makeFolders folder = .ok y) (h : Keeps y folder p []) :
    (list folder : StateM Machine (Except Error (List String))) x = (.ok [], x) := by
  cases hkind : x.kind? folder with
  | none => exact list_of_missing hkind
  | some kind =>
      have hsame : y = x := h.leads.eq_of_makeFolders hmade hkind
      rw [← hsame, h.list_apply, logNames, List.filter_nil, List.mergeSort_nil, List.map_nil]

theorem latest_apply (h : (list folder : StateM Machine _) x = (.ok paths, x)) :
    (latest folder : StateM Machine (Except Error (Option String))) x =
      (.ok paths.getLast?, x) := by
  rw [latest, Machine.bind_apply, h]
  rfl

theorem isName_of_mem_taken {name : String} (h : name ∈ taken earlier) : isName name = true := by
  obtain ⟨t, -, n, -, rfl⟩ := exists_of_mem_taken h
  exact isName_numberedName t n

theorem logNames_taken (earlier : List Instant) :
    logNames (taken earlier) = (taken earlier).mergeSort (fun a b => decide (a ≤ b)) := by
  rw [logNames, List.filter_eq_self.mpr (fun _ h => isName_of_mem_taken h)]

theorem logNames_perm (earlier : List Instant) :
    (logNames (taken earlier)).Perm (taken earlier) := by
  rw [logNames_taken]
  exact List.mergeSort_perm _ _

theorem logNames_sorted (earlier : List Instant) :
    (logNames (taken earlier)).Pairwise (fun a b => a ≤ b) := by
  rw [logNames_taken]
  exact List.pairwise_mergeSort' (fun a b : String => a ≤ b) _

theorem joinPath_inj {m n : String} (hm : m.startsWith "/" = false) (hn : n.startsWith "/" = false)
    (h : joinPath folder m = joinPath folder n) : m = n := by
  unfold joinPath at h
  rw [hm, hn] at h
  split at h
  · exact h
  · split at h
    · exact (String.append_right_inj _).mp h
    · exact (String.append_right_inj _).mp h

/-- The order of writing is the order of the names just if no millisecond has eleven logs. -/
theorem logNames_eq_reverse_iff (h : ∀ s ∈ earlier, s.IsUsual)
    (hclock : earlier.Pairwise (fun later s => s ≤ later)) :
    logNames (taken earlier) = (taken earlier).reverse ↔ ∀ t, sharing t earlier ≤ 10 := by
  rw [← pairwise_taken_iff h hclock, ← List.pairwise_reverse]
  have hnodup : (taken earlier).reverse.Nodup := List.nodup_reverse.mpr (nodup_taken h)
  constructor
  · intro hsame
    have hsorted := hsame ▸ logNames_sorted earlier
    exact (hsorted.and hnodup).imp (fun ⟨hle, hne⟩ => lt_of_le_of_ne hle hne)
  · intro hsorted
    have hperm := (logNames_perm earlier).trans (List.reverse_perm (taken earlier)).symm
    exact hperm.eq_of_pairwise' (logNames_sorted earlier) (hsorted.imp le_of_lt)

theorem getLast?_eq_some_iff {names : List String} (h : names.Pairwise (fun a b => a ≤ b))
    {a : String} (ha : a ∈ names) : names.getLast? = some a ↔ ∀ b ∈ names, b ≤ a := by
  obtain ⟨front, last, hsplit⟩ :=
    (List.eq_nil_or_concat names).resolve_left (List.ne_nil_of_mem ha)
  rw [List.concat_eq_append] at hsplit
  subst hsplit
  have hfront : ∀ b ∈ front ++ [last], b ≤ last := by
    intro b hb
    rcases List.mem_append.mp hb with hb | hb
    · exact (List.pairwise_append.mp h).2.2 b hb last (List.mem_singleton_self last)
    · exact le_of_eq (List.mem_singleton.mp hb)
  rw [List.getLast?_append, List.getLast?_singleton, Option.some_or, Option.some.injEq]
  constructor
  · rintro rfl
    exact hfront
  · intro hle
    exact le_antisymm (hle last (List.mem_append_right _ (List.mem_singleton_self last)))
      (hfront a ha)

theorem getLast?_logNames_iff (h : ∀ s ∈ earlier, s.IsUsual) (ht : t.IsUsual)
    (hclock : ∀ s ∈ earlier, s ≤ t) :
    (logNames (taken (t :: earlier))).getLast? = some (numberedName t (sharing t earlier)) ↔
      SortsLast (sharing t earlier) := by
  have hperm := logNames_perm (t :: earlier)
  have hnodup := nodup_taken (List.forall_mem_cons.mpr ⟨ht, h⟩)
  rw [getLast?_eq_some_iff (logNames_sorted _) (hperm.mem_iff.mpr List.mem_cons_self),
    ← taken_lt_iff h ht hclock]
  constructor
  · intro hle name hname
    refine lt_of_le_of_ne (hle name (hperm.mem_iff.mpr (List.mem_cons_of_mem _ hname))) ?_
    rintro rfl
    exact (List.nodup_cons.mp hnodup).1 hname
  · intro hlt name hname
    rcases List.mem_cons.mp (hperm.mem_iff.mp hname) with rfl | hname
    · exact le_refl _
    · exact le_of_lt (hlt name hname)

/-! ## Paths instead of names -/

theorem isPlainName_of_mem_taken {name : String} (hname : name ∈ taken earlier) :
    IsPlainName name := by
  obtain ⟨t, ht, n, -, rfl⟩ := exists_of_mem_taken hname
  exact isPlainName_numberedName t n

theorem map_joinPath_inj {ms ns : List String} (hm : ∀ m ∈ ms, IsPlainName m)
    (hn : ∀ n ∈ ns, IsPlainName n) :
    ms.map (joinPath folder) = ns.map (joinPath folder) ↔ ms = ns := by
  refine ⟨?_, fun h => h ▸ rfl⟩
  intro h
  induction ms generalizing ns with
  | nil => exact (List.map_eq_nil_iff.mp h.symm).symm
  | cons m ms ih =>
      cases ns with
      | nil => cases h
      | cons n ns =>
          obtain ⟨hm, hms⟩ := List.forall_mem_cons.mp hm
          obtain ⟨hn, hns⟩ := List.forall_mem_cons.mp hn
          obtain ⟨hhead, htail⟩ := List.cons.inj h
          rw [joinPath_inj hm.startsWith_slash hn.startsWith_slash hhead, ih hms hns htail]

theorem listed_eq_iff (h : ∀ s ∈ earlier, s.IsUsual)
    (hclock : earlier.Pairwise (fun later s => s ≤ later)) :
    (logNames (taken earlier)).map (joinPath folder) =
        (taken earlier).reverse.map (joinPath folder) ↔ ∀ t, sharing t earlier ≤ 10 := by
  rw [map_joinPath_inj, logNames_eq_reverse_iff h hclock]
  · exact fun m hm => isPlainName_of_mem_taken ((logNames_perm earlier).mem_iff.mp hm)
  · exact fun m hm => isPlainName_of_mem_taken (List.mem_reverse.mp hm)

theorem latest_eq_iff (h : ∀ s ∈ earlier, s.IsUsual) (ht : t.IsUsual)
    (hclock : ∀ s ∈ earlier, s ≤ t) :
    ((logNames (taken (t :: earlier))).map (joinPath folder)).getLast? =
        ((taken (t :: earlier)).reverse.map (joinPath folder)).getLast? ↔
      SortsLast (sharing t earlier) := by
  have hall : ∀ s ∈ t :: earlier, s.IsUsual := List.forall_mem_cons.mpr ⟨ht, h⟩
  have hperm := logNames_perm (t :: earlier)
  have hne : logNames (taken (t :: earlier)) ≠ [] :=
    List.ne_nil_of_mem (hperm.mem_iff.mpr List.mem_cons_self)
  have hlast := List.getLast?_eq_some_getLast hne
  have hplain := isPlainName_of_mem_taken (hperm.mem_iff.mp (List.getLast_mem hne))
  rw [← getLast?_logNames_iff h ht hclock, List.getLast?_map, List.getLast?_map,
    List.getLast?_reverse, taken, List.head?_cons, ← taken, hlast, Option.map_some, Option.map_some,
    Option.some.injEq, Option.some.injEq]
  exact ⟨joinPath_inj hplain.startsWith_slash (isPlainName_numberedName t _).startsWith_slash,
    fun hsame => hsame ▸ rfl⟩

/-! ## Runs of writes -/

/-- What is listed of logs that were written to these paths at these moments. -/
structure Lists (folder : String) (z : Machine) (moments : List Instant)
    (paths listed : List String) : Prop where
  list : (list folder : StateM Machine (Except Error (List String))) z = (.ok listed, z)
  latest : (latest folder : StateM Machine (Except Error (Option String))) z =
    (.ok listed.getLast?, z)
  perm : listed.Perm paths
  nodup : paths.Nodup
  /-- The list is in the order of writing just if no millisecond has more than ten logs. -/
  inOrder : listed = paths ↔ ∀ t, sharing t moments ≤ 10
  /-- The last write is the latest just if its number sorts behind all smaller ones. -/
  last : listed.getLast? = paths.getLast? ↔
    ∀ earlier t, moments = earlier ++ [t] → SortsLast (sharing t earlier)

theorem Lists.of_nil (h : (ErrorLog.list folder : StateM Machine _) x = (.ok [], x)) :
    Lists folder x [] [] [] where
  list := h
  latest := latest_apply h
  perm := .refl _
  nodup := List.nodup_nil
  inOrder := by simp [sharing]
  last := by simp

theorem Keeps.lists (h : Keeps z folder p (taken (t :: earlier)))
    (husual : ∀ s ∈ t :: earlier, s.IsUsual)
    (hclock : (t :: earlier).Pairwise (fun later s => s ≤ later)) :
    Lists folder z (t :: earlier).reverse ((taken (t :: earlier)).reverse.map (joinPath folder))
      ((logNames (taken (t :: earlier))).map (joinPath folder)) where
  list := h.list_apply
  latest := latest_apply h.list_apply
  perm := ((logNames_perm _).trans (List.reverse_perm _).symm).map _
  nodup := by
    refine List.Nodup.map_on ?_ (List.nodup_reverse.mpr (nodup_taken husual))
    intro m hm n hn
    exact joinPath_inj (isPlainName_of_mem_taken (List.mem_reverse.mp hm)).startsWith_slash
      (isPlainName_of_mem_taken (List.mem_reverse.mp hn)).startsWith_slash
  inOrder := by
    rw [listed_eq_iff husual hclock]
    simp only [sharing, List.countP_reverse]
  last := by
    obtain ⟨ht, hearlier⟩ := List.forall_mem_cons.mp husual
    rw [latest_eq_iff hearlier ht (List.pairwise_cons.mp hclock).1, List.reverse_cons]
    constructor
    · intro hlast before last hends
      obtain ⟨rfl, hone⟩ := List.append_inj' hends rfl
      rw [← List.singleton_inj.mp hone, sharing, List.countP_reverse]
      exact hlast
    · intro hlast
      have hself := hlast earlier.reverse t rfl
      rwa [sharing, List.countP_reverse] at hself

/-- Logs that are written into an empty folder by a clock that does not go back are all listed, but
not always in the order of writing. -/
theorem lists_of_writeAll (hfaults : x.faults = []) (hmade : x.makeFolders folder = .ok y)
    (hempty : y.list folder = .ok []) (husual : ∀ w ∈ ws, w.moment.IsUsual)
    (hclock : ws.Pairwise (fun v w => v.moment ≤ w.moment))
    (hw : writeAll folder ws x = (paths.map .ok, z)) :
    ∃ listed, Lists folder z (ws.map Writing.moment) paths listed := by
  obtain ⟨p, hkeeps⟩ := exists_keeps hfaults hmade hempty
  cases ws with
  | nil =>
      obtain ⟨hpaths, rfl⟩ := Prod.mk.inj hw
      rw [List.map_eq_nil_iff.mp hpaths.symm]
      exact ⟨[], .of_nil (list_of_made hmade hkeeps)⟩
  | cons w rest =>
      rw [writeAll_of_made hfaults hmade hkeeps.leads.makeFolders] at hw
      obtain ⟨hz, hnames⟩ := hkeeps.after_writeAll (fun s hs => nomatch hs) husual hw
      obtain ⟨t, earlier, hback⟩ := List.exists_cons_of_ne_nil
        (by simp : ((w :: rest).map Writing.moment).reverse ≠ [])
      rw [taken, List.map_nil, List.append_nil, List.append_nil, hback] at hnames
      rw [List.append_nil, hback] at hz
      have hmoments : (w :: rest).map Writing.moment = (t :: earlier).reverse := by
        rw [← hback, List.reverse_reverse]
      have hpaths : paths = (taken (t :: earlier)).reverse.map (joinPath folder) := by
        rw [List.map_reverse, ← hnames, List.reverse_reverse]
      rw [hmoments, hpaths]
      refine ⟨_, hz.lists ?_ ?_⟩
      · intro s hs
        rw [← List.mem_reverse, ← hmoments] at hs
        obtain ⟨v, hv, rfl⟩ := List.mem_map.mp hs
        exact husual v hv
      · rw [← hback, List.pairwise_reverse, List.pairwise_map]
        exact hclock

/-- Eleven logs of one millisecond. -/
def busyMillisecond : List Writing :=
  List.replicate 11 ⟨⟨1767225600, 0⟩, "run-1", Statistics.empty, []⟩

/-- The last of eleven logs is neither the latest nor at its place. -/
theorem lists_of_busyMillisecond : ∃ z paths listed,
    writeAll "logs" busyMillisecond Machine.empty = (paths.map .ok, z) ∧
      Lists "logs" z (busyMillisecond.map Writing.moment) paths listed ∧
      listed ≠ paths ∧ listed.getLast? ≠ paths.getLast? := by
  have husual : ∀ w ∈ busyMillisecond, w.moment.IsUsual := by
    intro w hw
    rw [List.eq_of_mem_replicate hw]
    exact ⟨by decide, by decide⟩
  have hclock : busyMillisecond.Pairwise (fun v w => v.moment ≤ w.moment) := by decide
  have hlogs : IsPlainName "logs" := by constructor <;> decide
  have hmade := Machine.makeFolders_empty hlogs (by decide)
  have hempty := Machine.list_withFolder hlogs (by decide)
  have hroom : ∀ w ∈ busyMillisecond, ∀ n < 11,
      Machine.HasRoom "logs" (numberedName w.moment n) := by
    intro w hw
    rw [List.eq_of_mem_replicate hw]
    have hpath : ∀ n < 11, (joinPath "logs" (numberedName ⟨1767225600, 0⟩ n)).utf8ByteSize ≤
        Machine.pathBound := by decide +kernel
    have hname : ∀ n < 11, (numberedName ⟨1767225600, 0⟩ n).utf8ByteSize ≤ Machine.nameBound := by
      decide +kernel
    exact fun n hn => ⟨hpath n hn, hname n hn⟩
  obtain ⟨paths, z, hw⟩ := exists_writeAll (x := Machine.empty) rfl hmade hempty husual
    (by decide) hroom
  obtain ⟨listed, hlists⟩ :=
    lists_of_writeAll (x := Machine.empty) rfl hmade hempty husual hclock hw
  refine ⟨z, paths, listed, hw, hlists, ?_, ?_⟩
  · rw [Ne, hlists.inOrder]
    intro h
    exact absurd (h ⟨1767225600, 0⟩) (by decide)
  · rw [Ne, hlists.last]
    intro h
    exact not_sortsLast_ten (h (List.replicate 10 ⟨1767225600, 0⟩) ⟨1767225600, 0⟩ rfl)

end ImageBatch.ErrorLog
