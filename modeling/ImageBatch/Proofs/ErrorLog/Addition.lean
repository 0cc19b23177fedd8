import ImageBatch.Proofs.ErrorLog.Listing
import ImageBatch.Proofs.Machine.Soundness

/-!
# One log more

A log is written under the first of its names that is free, whatever stands in the folder and
whatever the clock shows, as long as the numbers last. All that was there before is still there, and
the listing has one path more. Only where the path of the folder is empty nothing is ever listed,
although the logs are written at home.
-/

namespace ImageBatch.ErrorLog

variable {folder : String} {x y z : Machine} {p q : TreePath} {t : Instant} {n : Nat}
  {names : List String}

/-! ## The listing -/

theorem logNames_perm_filter (names : List String) :
    (logNames names).Perm (names.filter isName) := List.mergeSort_perm _ _

theorem startsWith_slash_of_isName {name : String} (h : isName name = true) :
    name.startsWith "/" = false := by
  rw [isName, Bool.and_eq_true, String.startsWith_string_iff] at h
  rw [String.startsWith_string_eq_false_iff]
  intro hslash
  obtain ⟨back, hname⟩ := h.1
  rw [← hname] at hslash
  exact absurd (List.cons_prefix_cons.mp hslash).1 (by decide)

/-- What is listed before a log is added and after: one path more, and it is a new one. -/
structure ListsMore (folder path : String) (x y z : Machine) (before after : List String) :
    Prop where
  /-- Where there is no folder nothing is listed. Only a path that goes up may lead to one that is
  there when the folders on the way have been made. -/
  first : x.kind? folder ≠ none ∨ ".." ∉ Machine.names folder →
    (list folder : StateM Machine (Except Error (List String))) x = (.ok before, x)
  made : (list folder : StateM Machine (Except Error (List String))) y = (.ok before, y)
  added : (list folder : StateM Machine (Except Error (List String))) z = (.ok after, z)
  perm : after.Perm (path :: before)
  new : path ∉ before

theorem listsMore_of_keeps (hx : x.IsSound) (hmade : x.makeFolders folder = .ok y)
    (hy : Keeps y folder p names) (hfree : numberedName t n ∉ names)
    (hz : Keeps z folder p (numberedName t n :: names)) :
    ListsMore folder (numberedPath folder t n) x y z ((logNames names).map (joinPath folder))
      ((logNames (numberedName t n :: names)).map (joinPath folder)) where
  first := by
    intro hpath
    cases hkind : x.kind? folder with
    | none =>
        have hup := hpath.resolve_left (fun hsome => hsome hkind)
        have hnil := hy.children ▸ hx.children_of_made hup hmade hy.leads hkind
        rw [hnil, list_of_missing hkind, logNames, List.filter_nil, List.mergeSort_nil,
          List.map_nil]
    | some k => exact hy.leads.eq_of_makeFolders hmade hkind ▸ hy.list_apply
  made := hy.list_apply
  added := hz.list_apply
  perm := by
    have hname := List.filter_cons_of_pos (l := names) (isName_numberedName t n)
    have hperm := (logNames_perm_filter (numberedName t n :: names)).trans
      (hname ▸ (logNames_perm_filter names).symm.cons _)
    exact hperm.map (joinPath folder)
  new := by
    intro hmem
    obtain ⟨name, hname, hsame⟩ := List.mem_map.mp hmem
    obtain ⟨hthere, hlog⟩ := List.mem_filter.mp ((logNames_perm_filter names).mem_iff.mp hname)
    have heq : name = numberedName t n := joinPath_inj (startsWith_slash_of_isName hlog)
      (isPlainName_numberedName t n).startsWith_slash hsame
    exact hfree (heq ▸ hthere)

/-! ## The new file -/

/-- A write of a log: `x` is the machine before, `y` has the folder of the logs as well, and `z` has
the log in it, under number `n` of the moment. -/
structure Adds (folder : String) (x y : Machine) (n : Nat) (bytes : ByteArray) (z : Machine) :
    Prop where
  taken : ∀ m < n, (y.kind? (numberedPath folder x.clock m)).isSome = true
  free : y.kind? (numberedPath folder x.clock n) = none
  /-- The search comes to its end, however many tries are allowed beyond those that it takes. -/
  search : ∀ tries > n, y.createFrom (numberedPath folder x.clock) tries 0 =
    y.createFirst (numberedPath folder x.clock)
  /-- One file is new, and nothing else is different. -/
  file : ∃ q, z.resolve (numberedPath folder x.clock n) = .ok q ∧ z = y.plusFile q bytes
  content : z.read (numberedPath folder x.clock n) = .ok bytes
  /-- Nothing that was there is gone. -/
  kept : ∀ path k, x.kind? path = some k → z.kind? path = some k
  unchanged : ∀ path old, x.read path = .ok old → z.read path = .ok old
  /-- Besides the log only folders are made, and none if the folder of the logs is there. -/
  folders : ∀ q id, y.node? q = some (.file id) → x.node? q = some (.file id)
  same : folder = "" ∨ x.kind? folder ≠ none → y = x
  sound : z.IsSound

theorem adds_of_findsFree (hx : x.IsSound) (hmade : x.makeFolders folder = .ok y)
    (hhouses : y.Houses folder p)
    (hfinds : y.FindsFree (numberedPath folder x.clock) n (p ++ [numberedName x.clock n]))
    (hn : n ≤ (y.children p).length) (hnumber : n ≤ lastNumber) (bytes : ByteArray) :
    Adds folder x y n bytes (y.plusFile (p ++ [numberedName x.clock n]) bytes) := by
  have hplain := isPlainName_numberedName x.clock
  have hgrows := Machine.grows_of_makeFolders hmade
  have hy := hx.makeFolders hmade
  have hfree := (hhouses.create_eq_ok (hplain n) hfinds.made).1
  have hnode : y.node? (p ++ [numberedName x.clock n]) = none :=
    Classical.not_not.mp (fun hsome => hfree (Machine.mem_children.mpr hsome))
  have hyz := Machine.extends_plusFile hnode bytes
  have hxz := hgrows.keeps.trans hyz
  have hresolve : (y.plusFile (p ++ [numberedName x.clock n]) bytes).resolve
      (numberedPath folder x.clock n) = .ok (p ++ [numberedName x.clock n]) :=
    (hhouses.of_extends hyz).resolve_of_hasRoom (hplain n)
      (hhouses.hasRoom_of_create (hplain n) (fun hlong => by cases hfinds.made.symm.trans hlong))
  have hthere : (y.plusFile (p ++ [numberedName x.clock n]) bytes).node?
      (p ++ [numberedName x.clock n]) = some (.file y.contents.length) := by
    rw [Machine.node?_plusFile, if_neg (by simp), if_pos rfl]
  have hcontents : x.contents <+: (y.plusFile (p ++ [numberedName x.clock n]) bytes).contents := by
    have hsame : y.contents = x.contents := by rw [hgrows.same]
    exact hsame ▸ List.prefix_append _ _
  have hnodes : (y.children p).length ≤ y.nodes.length := List.length_filterMap_le _ _
  exact
    { taken := by
        intro m hm
        have hcreate := hfinds.taken m hm
        have hroom := hhouses.hasRoom_of_create (hplain m)
          (fun hlong => by cases hcreate.symm.trans hlong)
        exact (hhouses.isSome_kind?_iff (hplain m) hroom).mpr
          (hhouses.mem_of_create_eq_exists (hplain m) hcreate)
      free := Machine.kind?_of_create_eq_ok hfinds.made
      search := fun tries htries =>
        (hfinds.createFrom htries).trans (hfinds.createFrom
          (Nat.lt_min.mpr ⟨by omega, Nat.lt_succ_of_le hnumber⟩)).symm
      file := ⟨_, hresolve, rfl⟩
      content := by
        rw [Machine.read_of_node hresolve hthere, Machine.plusFile, List.getD_append_right]
        · simp
        · exact Nat.le_refl _
      kept := fun _ _ => hxz.kind?
      unchanged := fun _ _ => hx.read_of_extends hxz hcontents
      folders := fun q id => Machine.file_of_grow (Machine.makeFolders_eq_ok.mp hmade).2.2
      same := by
        rintro (rfl | hkind)
        · exact Except.ok.inj (hmade.symm.trans (Machine.Houses.home hx.home).makeFolders)
        · obtain ⟨k, hk⟩ := Option.ne_none_iff_exists'.mp hkind
          have hpath : folder ≠ "" := by
            rintro rfl
            cases hk
          exact (hhouses.leadsTo hpath).eq_of_makeFolders hmade hk
      sound := hy.plusFile hhouses.node hnode bytes }

/-- The first name that is free is found if any is free whose number is not behind the last one. -/
theorem exists_findsFree (hhouses : y.Houses folder p)
    (htries : y.TriesFreely (numberedPath folder t))
    (hnumber : ∃ k ≤ lastNumber, y.kind? (numberedPath folder t k) = none) :
    ∃ n ≤ (y.children p).length, n ≤ lastNumber ∧
      y.FindsFree (numberedPath folder t) n (p ++ [numberedName t n]) := by
  have hplain := isPlainName_numberedName t
  obtain ⟨n, hn, hfinds⟩ := hhouses.exists_findsFree hplain (fun _ _ => number_of_numberedName)
    htries
  obtain ⟨k, hk, hnone⟩ := hnumber
  refine ⟨n, hn, Nat.le_trans (Nat.le_of_not_lt fun hlt => ?_) hk, hfinds⟩
  have hcreate := hfinds.taken k hlt
  have hroom := hhouses.hasRoom_of_create (hplain k)
    (fun hlong => by cases hcreate.symm.trans hlong)
  have hsome := (hhouses.isSome_kind?_iff (hplain k) hroom).mpr
    (hhouses.mem_of_create_eq_exists (hplain k) hcreate)
  exact absurd (hnone ▸ hsome) (by decide)

/-- A log is added under the first of its names that is free, if there is one before the numbers end,
and nothing else is touched. It is listed unless the path of the folder is empty. -/
theorem adds_of_write (hx : x.IsSound) (hfaults : x.faults = [])
    (hmade : x.makeFolders folder = .ok y)
    (htries : y.TriesFreely (numberedPath folder x.clock))
    (hnumber : ∃ k ≤ lastNumber, y.kind? (numberedPath folder x.clock k) = none)
    (runId : String) (s : Statistics) (records : List Record) :
    ∃ n ≤ lastNumber, ∃ z,
      (write folder runId s records : StateM Machine (Except Error String)) x =
          (.ok (numberedPath folder x.clock n), z) ∧
        Adds folder x y n (content runId x.clock s records).toUTF8 z ∧
        ((∃ before after, ListsMore folder (numberedPath folder x.clock n) x y z before after) ↔
          folder ≠ "") ∧
        (folder = "" →
          (list folder : StateM Machine (Except Error (List String))) z = (.ok [], z)) := by
  obtain ⟨p, hhouses⟩ := hx.houses_of_makeFolders hmade
  obtain ⟨n, hn, hlast, hfinds⟩ := exists_findsFree hhouses htries hnumber
  have hgrows := Machine.grows_of_makeFolders hmade
  have hclock : y.clock = x.clock := by rw [hgrows.same]
  have hfaults' : y.faults = [] := hgrows.same ▸ hfaults
  have hfree := (hhouses.create_eq_ok (isPlainName_numberedName x.clock n) hfinds.made).1
  have hwrite := write_of_findsFree hhouses hfaults' (hclock ▸ hfinds) hn hlast runId s records
  rw [hclock, ← write_of_made hfaults hmade hhouses.makeFolders] at hwrite
  have hnothing (w : Machine) : (list "" : StateM Machine (Except Error (List String))) w =
      (.ok [], w) := list_of_missing rfl
  refine ⟨n, hlast, _, hwrite, adds_of_findsFree hx hmade hhouses hfinds hn hlast _, ?_, ?_⟩
  · refine ⟨?_, fun hpath => ?_⟩
    · rintro ⟨before, after, hlists⟩ rfl
      have hadded := hlists.added.symm.trans (hnothing _)
      have hempty : after = [] := Except.ok.inj (congrArg Prod.fst hadded)
      exact absurd (hempty ▸ hlists.perm) (List.not_perm_cons_nil ∘ List.Perm.symm)
    · have hkeeps : Keeps y folder p (y.children p) := ⟨hhouses.leadsTo hpath, hfaults', rfl⟩
      have hz := hkeeps.addFile hfree y.contents.length (content runId x.clock s records).toUTF8
      rw [Machine.append_addFile] at hz
      exact ⟨_, _, listsMore_of_keeps hx hmade hkeeps hfree hz⟩
  · rintro rfl
    exact hnothing _

/-- The first name of the moment is that of a folder, and the second one that of a file. -/
def busyFolder : Machine :=
  let t : Instant := ⟨1767225600, 0⟩
  let logs : Machine := { Machine.empty with
    nodes := [(["logs"] ++ [numberedName t 0], .folder), ([] ++ ["logs"], .folder)], clock := t }
  logs.plusFile (["logs"] ++ [numberedName t 1]) "not to be lost".toUTF8

theorem leadsTo_busyFolder : busyFolder.LeadsTo "logs" ["logs"] := by
  have hlogs : IsPlainName "logs" := by constructor <;> decide
  have hroot : busyFolder.root "logs" = [] := ite_self _
  have hnode : busyFolder.node? ["logs"] = some .folder := by
    simp [busyFolder, Machine.node?, Machine.plusFile, List.lookup_cons]
  refine ⟨Machine.resolve_eq_ok.mpr ⟨by decide, by decide, by decide, ?_, ?_⟩, hnode⟩
  · rw [hroot, Machine.names_of_plain hlogs]
    exact Machine.walk_cons_eq_ok.mpr ⟨rfl, by decide, rfl⟩
  · simp [hnode]

theorem children_busyFolder : busyFolder.children ["logs"] =
    [numberedName busyFolder.clock 1, numberedName busyFolder.clock 0] := by
  simp [busyFolder, Machine.plusFile, Machine.children]

theorem isSound_busyFolder : busyFolder.IsSound := by
  have hne : (numberedName ⟨1767225600, 0⟩ 1 == numberedName ⟨1767225600, 0⟩ 0) = false :=
    beq_false_of_ne fun hsame => absurd (number_of_numberedName hsame) (by decide)
  refine (((Machine.isSound_empty _).plusFolder rfl rfl).plusFolder ?_ ?_).plusFile ?_ ?_ _
  all_goals simp [Machine.node?, List.lookup_cons, Machine.empty, hne]

theorem mem_children_busyFolder {n : Nat} :
    numberedName busyFolder.clock n ∈ busyFolder.children ["logs"] ↔ n < 2 := by
  rw [children_busyFolder, List.mem_pair]
  constructor
  · rintro (hsame | hsame) <;> simp [number_of_numberedName hsame]
  · intro hn
    obtain rfl | rfl : n = 0 ∨ n = 1 := by omega
    · simp
    · simp

theorem not_mem_children_home (n : Nat) : numberedName busyFolder.clock n ∉ busyFolder.children [] := by
  have hname : numberedName busyFolder.clock n ≠ "logs" := by
    intro hsame
    have hlog := isName_numberedName busyFolder.clock n
    rw [hsame] at hlog
    exact absurd hlog (by decide +kernel)
  simpa [busyFolder, Machine.plusFile, Machine.children, Machine.empty] using hname

/-- In the folder the third name of the moment is the first that is free. At home the first one is,
but the log is not listed. -/
theorem adds_of_write_busyFolder :
    (∃ z before after,
      (write "logs" "run-1" Statistics.empty [] : StateM Machine (Except Error String)) busyFolder =
          (.ok (numberedPath "logs" busyFolder.clock 2), z) ∧
        Adds "logs" busyFolder busyFolder 2
          (content "run-1" busyFolder.clock Statistics.empty []).toUTF8 z ∧
        ListsMore "logs" (numberedPath "logs" busyFolder.clock 2) busyFolder busyFolder z
          before after) ∧
    ∃ n z,
      (write "" "run-1" Statistics.empty [] : StateM Machine (Except Error String)) busyFolder =
          (.ok (numberedPath "" busyFolder.clock n), z) ∧
        Adds "" busyFolder busyFolder n
          (content "run-1" busyFolder.clock Statistics.empty []).toUTF8 z ∧
        (list "" : StateM Machine (Except Error (List String))) z = (.ok [], z) := by
  have hplain := isPlainName_numberedName busyFolder.clock
  have hlogs := leadsTo_busyFolder.houses
  have hhome : busyFolder.Houses "" [] := Machine.Houses.home isSound_busyFolder.home
  have hroom : ∀ folder ∈ ["", "logs"], ∀ n ≤ 2,
      Machine.HasRoom folder (numberedName busyFolder.clock n) := by
    have hpath : ∀ folder ∈ ["", "logs"], ∀ n ≤ 2,
        (joinPath folder (numberedName ⟨1767225600, 0⟩ n)).utf8ByteSize ≤ Machine.pathBound := by
      decide +kernel
    have hname : ∀ n ≤ 2,
        (numberedName ⟨1767225600, 0⟩ n).utf8ByteSize ≤ Machine.nameBound := by decide +kernel
    exact fun folder hfolder n hn => ⟨hpath folder hfolder n hn, hname n hn⟩
  have hroomLogs := hroom "logs" (by simp)
  have hroomHome := hroom "" (by simp)
  have hthere {n : Nat} (hn : n ≤ 2) :
      (busyFolder.kind? (numberedPath "logs" busyFolder.clock n)).isSome = true ↔ n < 2 :=
    (hlogs.isSome_kind?_iff (hplain n) (hroomLogs n hn)).trans mem_children_busyFolder
  have hthird : busyFolder.kind? (numberedPath "logs" busyFolder.clock 2) = none :=
    Option.not_isSome_iff_eq_none.mp (mt (hthere (Nat.le_refl 2)).mp (by decide))
  have hfirst : busyFolder.kind? (numberedPath "" busyFolder.clock 0) = none :=
    Option.not_isSome_iff_eq_none.mp (mt (hhome.isSome_kind?_iff (hplain 0)
      (hroomHome 0 (by decide))).mp (not_mem_children_home 0))
  refine ⟨?_, ?_⟩
  · obtain ⟨n, -, z, hwrite, hadds, hlists, -⟩ :=
      adds_of_write isSound_busyFolder rfl hlogs.makeFolders
        (hlogs.triesFreely hplain hroomLogs (mt mem_children_busyFolder.mp (by decide)))
        ⟨2, by decide, hthird⟩ "run-1" Statistics.empty []
    have hn : n = 2 := by
      rcases Nat.lt_trichotomy n 2 with hlt | heq | hgt
      · have hsome := (hthere (Nat.le_of_lt hlt)).mpr hlt
        exact absurd (hadds.free ▸ hsome) (by decide)
      · exact heq
      · exact absurd ((hthere (Nat.le_refl 2)).mp (hadds.taken 2 hgt)) (by decide)
    subst hn
    obtain ⟨before, after, hlists⟩ := hlists.mpr (by decide)
    exact ⟨z, before, after, hwrite, hadds, hlists⟩
  · obtain ⟨n, -, z, hwrite, hadds, -, hlist⟩ :=
      adds_of_write isSound_busyFolder rfl hhome.makeFolders
        (hhome.triesFreely hplain (fun n hn => hroomHome n (by omega)) (not_mem_children_home 0))
        ⟨0, by decide, hfirst⟩ "run-1" Statistics.empty []
    exact ⟨n, z, hwrite, hadds, hlist rfl⟩

end ImageBatch.ErrorLog
