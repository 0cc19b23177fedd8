import ImageBatch.Proofs.Event.Entries
import ImageBatch.Proofs.Machine.Requests

/-!
# The journal plays back

Events of many runs are recorded in any order, and each run reads its own ones, in order and nothing
else. Each run has a file of its own; whichever file is open, an event goes to the end of the file
of its run.
-/

namespace ImageBatch.Journal

/-- The file in the folder of a run. -/
def fileName : String := "events.jsonl"

theorem isPlainName_fileName : IsPlainName fileName := by
  constructor <;> decide

/-- The entries of one run. -/
def ofRun (run : String) (es : List LogEntry) : List LogEntry :=
  es.filter (fun e => e.event.runId = run)

variable {x y z : Machine} {j k : Journal Nat} {folder run : String} {p : TreePath}
  {es : List LogEntry} {e : LogEntry} {id : Nat} {files : String → Option Nat}

theorem textOf_append (es : List LogEntry) (e : LogEntry) :
    textOf (es ++ [e]) = textOf es ++ (e.line ++ "\n") := by
  rw [← String.toList_inj]
  simp [textOf, String.toList_join]

theorem ofRun_append_self (es : List LogEntry) (e : LogEntry) :
    ofRun e.event.runId (es ++ [e]) = ofRun e.event.runId es ++ [e] := by
  simp [ofRun]

theorem ofRun_append_of_ne (es : List LogEntry) (h : e.event.runId ≠ run) :
    ofRun run (es ++ [e]) = ofRun run es := by
  simp [ofRun, h]

/-! ## Files and their runs -/

/-- Each run that had events has a file of its own, and that file holds them. -/
structure Holds (x : Machine) (folder : String) (p : TreePath) (es : List LogEntry)
    (files : String → Option Nat) : Prop where
  leads : x.LeadsTo folder p
  folders : ∀ run id, files run = some id → x.node? (p ++ [run]) = some .folder
  resolves : ∀ run id, files run = some id →
    x.resolve (runFile folder run) = .ok (p ++ [run] ++ [fileName])
  node : ∀ run id, files run = some id → x.node? (p ++ [run] ++ [fileName]) = some (.file id)
  content : ∀ run id, files run = some id → x.contents[id]? = some (textOf (ofRun run es)).toUTF8
  distinct : ∀ run other id, files run = some id → files other = some id → run = other
  fresh : ∀ run, files run = none → ofRun run es = [] ∧ x.node? (p ++ [run]) = none ∧
    x.node? (p ++ [run] ++ [fileName]) = none

namespace Holds

theorem append (h : Holds x folder p es files) (hid : files e.event.runId = some id) :
    Holds (x.append id (e.line ++ "\n").toUTF8) folder p (es ++ [e]) files where
  leads := h.leads.of_extends (x.extends_append id _)
  folders := h.folders
  resolves run other hrun :=
    (x.extends_append id _).resolve (h.resolves run other hrun) (h.node run other hrun)
  node := h.node
  content run other hrun := by
    have hold := h.content e.event.runId id hid
    by_cases hsame : e.event.runId = run
    · subst hsame
      have hother : other = id := Option.some.inj (hrun.symm.trans hid)
      subst hother
      obtain ⟨hlt, -⟩ := List.getElem?_eq_some_iff.mp hold
      have hcontent : x.contents.getD other ByteArray.empty =
          (textOf (ofRun e.event.runId es)).toUTF8 := by
        rw [List.getD_eq_getElem?_getD, hold, Option.getD_some]
      rw [Machine.append, Machine.setContent, List.getElem?_set_self hlt, hcontent,
        ofRun_append_self, textOf_append]
      rfl
    · have hne : id ≠ other := by
        rintro rfl
        exact hsame (h.distinct _ _ _ hid hrun)
      rw [Machine.append, Machine.setContent, List.getElem?_set_ne hne,
        ofRun_append_of_ne es hsame, h.content run other hrun]
  distinct := h.distinct
  fresh run hrun := by
    have hne : e.event.runId ≠ run := by
      rintro rfl
      rw [hid] at hrun
      cases hrun
    rw [ofRun_append_of_ne es hne]
    exact h.fresh run hrun

/-- The folder of a run that has no file yet is made, and it is empty. -/
theorem made_of_fresh (h : Holds x folder p es files) (hnone : files run = none)
    (hy : x.MakesFolder (p ++ [run]) y) :
    y = { x with nodes := (p ++ [run], .folder) :: x.nodes } ∧
      y.node? (p ++ [run] ++ [fileName]) = none := by
  obtain ⟨-, hfolder, hfile⟩ := h.fresh run hnone
  rcases hy with ⟨hthere, -⟩ | ⟨-, rfl⟩
  · rw [hfolder] at hthere
    cases hthere
  · refine ⟨rfl, ?_⟩
    rw [Machine.node?_cons, if_neg (by simp), if_neg (by simp), hfile]

theorem file_lt (h : Holds x folder p es files) (hid : files run = some id) :
    id < x.contents.length :=
  (List.getElem?_eq_some_iff.mp (h.content run id hid)).1

theorem update_eq_some {n : Nat} {r : String}
    (h : Function.update files run (some n) r = some id) :
    r = run ∧ id = n ∨ r ≠ run ∧ files r = some id := by
  by_cases hsame : r = run
  · subst hsame
    rw [Function.update_self] at h
    exact .inl ⟨rfl, (Option.some.inj h).symm⟩
  · rw [Function.update_of_ne hsame] at h
    exact .inr ⟨hsame, h⟩

theorem distinct_update (h : Holds x folder p es files) {r s : String}
    (hr : Function.update files run (some x.contents.length) r = some id)
    (hs : Function.update files run (some x.contents.length) s = some id) : r = s := by
  rcases update_eq_some hr with ⟨hrun, hid⟩ | ⟨-, hrold⟩
  · rcases update_eq_some hs with ⟨hsrun, -⟩ | ⟨-, hsold⟩
    · exact hrun.trans hsrun.symm
    · exact absurd hid (Nat.ne_of_lt (h.file_lt hsold))
  · rcases update_eq_some hs with ⟨-, hid⟩ | ⟨-, hsold⟩
    · exact absurd hid (Nat.ne_of_lt (h.file_lt hrold))
    · exact h.distinct r s id hrold hsold

theorem node?_addFile (hmade : y = { x with nodes := (p ++ [run], .folder) :: x.nodes })
    (q : TreePath) : (y.addFile (p ++ [run] ++ [fileName])).1.node? q =
      if q = p ++ [run] ++ [fileName] then some (.file x.contents.length)
      else if q = p ++ [run] then some .folder
      else x.node? q := by
  refine (Machine.node?_cons y _ _ _).trans ?_
  rw [hmade, Machine.node?_cons]
  by_cases hroot : q = []
  · subst hroot
    rw [if_pos rfl, if_neg (by simp), if_neg (by simp)]
    rfl
  · rw [if_neg hroot, if_neg hroot]

/-- A run that has its first event gets a new file in a new folder. -/
theorem addFile (h : Holds x folder p es files) (hrun : IsPlainName run) (hnone : files run = none)
    (hy : x.MakesFolder (p ++ [run]) y) (hleads : y.LeadsTo (runFolder folder run) (p ++ [run]))
    (hresolve : y.resolve (runFile folder run) = .ok (p ++ [run] ++ [fileName])) :
    Holds (y.addFile (p ++ [run] ++ [fileName])).1 folder p es
      (Function.update files run (some x.contents.length)) := by
  obtain ⟨hempty, hfolder, -⟩ := h.fresh run hnone
  obtain ⟨hmade, hfree⟩ := h.made_of_fresh hnone hy
  have hnode := node?_addFile hmade
  have hyz := Machine.extends_addFile hfree
  have hxz := (hmade ▸ Machine.extends_cons hfolder : x.Extends y).trans hyz
  have hcontents : (y.addFile (p ++ [run] ++ [fileName])).1.contents =
      x.contents ++ [ByteArray.empty] := by
    rw [hmade]
    rfl
  constructor
  case leads => exact h.leads.of_extends hxz
  case folders =>
    intro r i hr
    rcases update_eq_some hr with ⟨rfl, -⟩ | ⟨-, hr⟩
    · rw [hnode, if_neg (by simp), if_pos rfl]
    · exact hxz.node _ _ (h.folders r i hr)
  case resolves =>
    intro r i hr
    rcases update_eq_some hr with ⟨rfl, -⟩ | ⟨-, hr⟩
    · exact (hleads.resolve_joinPath_eq (hleads.of_extends hyz) isPlainName_fileName).trans hresolve
    · exact hxz.resolve (h.resolves r i hr) (h.node r i hr)
  case node =>
    intro r i hr
    rcases update_eq_some hr with ⟨rfl, rfl⟩ | ⟨-, hr⟩
    · rw [hnode, if_pos rfl]
    · exact hxz.node _ _ (h.node r i hr)
  case content =>
    intro r i hr
    rw [hcontents]
    rcases update_eq_some hr with ⟨rfl, rfl⟩ | ⟨-, hr⟩
    · rw [hempty, List.getElem?_append_right (Nat.le_refl _), Nat.sub_self]
      rfl
    · rw [List.getElem?_append_left (h.file_lt hr), h.content r i hr]
  case distinct => exact fun r s i hr hs => h.distinct_update hr hs
  case fresh =>
    intro r hr
    have hne : r ≠ run := by
      rintro rfl
      rw [Function.update_self] at hr
      cases hr
    rw [Function.update_of_ne hne] at hr
    obtain ⟨hentries, hdir, hinner⟩ := h.fresh r hr
    refine ⟨hentries, ?_, ?_⟩
    · rw [hnode, if_neg (by simp), if_neg (by simpa using hne), hdir]
    · rw [hnode, if_neg (by simpa using hne), if_neg (by simp), hinner]

end Holds

/-! ## Recording -/

/-- The journal between two events: the file that is open is that of its run. -/
structure Keeps (x : Machine) (j : Journal Nat) (folder : String) (p : TreePath)
    (es : List LogEntry) : Prop where
  faults : x.faults = []
  inFolder : j.folder = folder
  holds : ∃ files, Holds x folder p es files ∧
    ∀ run id, j.current = some (run, id) → files run = some id

/-- To open the file of a run is to make its folder and then to open the file there. -/
theorem makeFolders_of_openFile (hfaults : x.faults = [])
    (hf : (fileFor.openFile j run : StateM Machine (Except FileError Nat)) x = (.ok id, z)) :
    ∃ y, x.makeFolders (runFolder j.folder run) = .ok y ∧ y.faults = [] ∧ y.clock = x.clock ∧
      y.openFile (runFile j.folder run) = .ok (z, id) := by
  rw [fileFor.openFile, Machine.bind_apply, Machine.makeFolders_apply hfaults] at hf
  cases hmake : x.makeFolders (runFolder j.folder run) with
  | error e =>
      simp only [hmake] at hf
      cases hf
  | ok y =>
      have hsame := (Machine.grows_of_makeFolders hmake).same
      have hfaultsy : y.faults = [] := hsame ▸ hfaults
      simp only [hmake, Machine.openAtEnd_apply hfaultsy] at hf
      cases hopen : y.openFile (runFile j.folder run) with
      | error e =>
          simp only [hopen] at hf
          cases hf
      | ok made =>
          simp only [hopen] at hf
          obtain ⟨hid, rfl⟩ := Prod.mk.inj hf
          rw [← Except.ok.inj hid]
          exact ⟨y, rfl, hfaultsy, by rw [hsame], hopen⟩

theorem openFile_ok (h : Holds x j.folder p es files) (hfaults : x.faults = [])
    (hrun : IsPlainName run)
    (hf : (fileFor.openFile j run : StateM Machine (Except FileError Nat)) x = (.ok id, z)) :
    ∃ files, Holds z j.folder p es files ∧ files run = some id ∧ z.faults = [] ∧
      z.clock = x.clock := by
  obtain ⟨y, hmake, hfaultsy, hclock, hopen⟩ := makeFolders_of_openFile hfaults hf
  obtain ⟨hmakes, hleads⟩ := Machine.makeFolders_joinPath h.leads.makeFolders h.leads hrun hmake
  obtain ⟨hresolve, hnode⟩ := hleads.openFile_eq_ok isPlainName_fileName hopen
  cases hfile : files run with
  | some old =>
      have hfolder := h.folders run old hfile
      have hthere := h.node run old hfile
      obtain rfl : y = x := by
        rcases hmakes with ⟨-, hyx⟩ | ⟨hmissing, -⟩
        · exact hyx
        · rw [hfolder] at hmissing
          cases hmissing
      rcases hnode with ⟨hnode, rfl⟩ | ⟨hmissing, -⟩
      · have hsame : id = old := by simpa using hnode.symm.trans hthere
        exact ⟨files, h, hsame ▸ hfile, hfaults, rfl⟩
      · rw [hthere] at hmissing
        cases hmissing
  | none =>
      obtain ⟨hmade, hfree⟩ := h.made_of_fresh hfile hmakes
      rcases hnode with ⟨hthere, -⟩ | ⟨-, hadd⟩
      · rw [hfree] at hthere
        cases hthere
      · obtain ⟨rfl, rfl⟩ := Prod.mk.inj hadd
        refine ⟨_, h.addFile hrun hfile hmakes hleads hresolve, ?_, hfaultsy, hclock⟩
        rw [Function.update_self, hmade]

namespace Keeps

theorem fileFor_ok (h : Keeps x j folder p es) (hrun : IsPlainName run)
    (hf : (fileFor j run : StateM Machine (Except FileError Nat)) x = (.ok id, z)) :
    ∃ files, Holds z folder p es files ∧ files run = some id ∧ z.faults = [] ∧
      z.clock = x.clock := by
  obtain ⟨files, hholds, hcurrent⟩ := h.holds
  have hfolder := h.inFolder
  subst hfolder
  cases hopen : j.current with
  | none =>
      simp only [fileFor, hopen] at hf
      exact openFile_ok hholds h.faults hrun hf
  | some current =>
      obtain ⟨other, file⟩ := current
      simp only [fileFor, hopen] at hf
      by_cases hsame : other = run
      · rw [if_pos hsame] at hf
        obtain ⟨hid, rfl⟩ := Prod.mk.inj hf
        refine ⟨files, hholds, ?_, h.faults, rfl⟩
        rw [← hsame, ← Except.ok.inj hid]
        exact hcurrent other file hopen
      · rw [if_neg hsame] at hf
        exact openFile_ok hholds h.faults hrun hf

theorem record (h : Keeps x j folder p es) (hrun : IsPlainName e.event.runId)
    (hclock : x.clock = e.written)
    (hr : (j.record e.event : StateM Machine (Except FileError Unit × Journal Nat)) x =
      ((.ok (), k), z)) : Keeps z k folder p (es ++ [e]) := by
  rw [Journal.record, Machine.bind_apply] at hr
  rcases hfile : (fileFor j e.event.runId : StateM Machine (Except FileError Nat)) x with
    ⟨error | id, y⟩
  · simp only [hfile] at hr
    cases hr
  · obtain ⟨files, hholds, hid, hfaults, hclocky⟩ := h.fileFor_ok hrun hfile
    have hnow : (Host.now : StateM Machine Instant) y = (y.clock, y) := rfl
    simp only [hfile, Machine.bind_apply, hnow, Machine.write_apply hfaults] at hr
    obtain ⟨hk, rfl⟩ := Prod.mk.inj hr
    have hjournal := (Prod.mk.inj hk).2
    have hwritten : y.clock = e.written := hclocky.trans hclock
    subst hjournal
    rw [hwritten]
    refine ⟨hfaults, h.inFolder, files, hholds.append hid, ?_⟩
    intro run id' hopen
    split at hopen
    · cases hopen
    · obtain ⟨rfl, rfl⟩ := Prod.mk.inj (Option.some.inj hopen)
      exact hid

end Keeps

/-- Records events one after another, each when the clock shows its time. -/
def recordAll (j : Journal Nat) :
    List LogEntry → StateM Machine (List (Except FileError Unit) × Journal Nat)
  | [] => pure ([], j)
  | e :: rest => do
    modify (fun x => { x with clock := e.written })
    let (result, j) ← j.record e.event
    let (results, j) ← recordAll j rest
    pure (result :: results, j)

theorem recordAll_cons (j : Journal Nat) (e : LogEntry) (rest : List LogEntry) (x : Machine) :
    recordAll j (e :: rest) x =
      let one := (j.record e.event : StateM Machine (Except FileError Unit × Journal Nat))
        { x with clock := e.written }
      let others := recordAll one.1.2 rest one.2
      ((one.1.1 :: others.1.1, others.1.2), others.2) := rfl

namespace Keeps

theorem setClock (h : Keeps x j folder p es) (t : Instant) :
    Keeps { x with clock := t } j folder p es := by
  obtain ⟨files, hholds, hcurrent⟩ := h.holds
  have hsame : x.Extends { x with clock := t } := ⟨fun _ _ hnode => hnode, rfl⟩
  refine ⟨h.faults, h.inFolder, files, ?_, hcurrent⟩
  exact ⟨hholds.leads.of_extends hsame, hholds.folders,
    fun run id hrun => hsame.resolve (hholds.resolves run id hrun) (hholds.node run id hrun),
    hholds.node, hholds.content, hholds.distinct, hholds.fresh⟩

theorem recordAll (h : Keeps x j folder p es) {more : List LogEntry}
    (hruns : ∀ e ∈ more, IsPlainName e.event.runId) {results : List (Except FileError Unit)}
    (hresults : ∀ r ∈ results, r = .ok ())
    (hr : Journal.recordAll j more x = ((results, k), z)) :
    Keeps z k folder p (es ++ more) := by
  induction more generalizing x j es results with
  | nil =>
      cases hr
      rwa [List.append_nil]
  | cons e rest ih =>
      obtain ⟨hrun, hruns⟩ := List.forall_mem_cons.mp hruns
      rw [recordAll_cons] at hr
      obtain ⟨hpair, hz⟩ := Prod.mk.inj hr
      obtain ⟨hlist, hk⟩ := Prod.mk.inj hpair
      rw [← hlist] at hresults
      obtain ⟨hok, hrest⟩ := List.forall_mem_cons.mp hresults
      have hone := (h.setClock e.written).record hrun rfl (Prod.ext (Prod.ext hok rfl) rfl)
      have hall := ih hone hruns hrest (Prod.ext (Prod.ext rfl hk) hz)
      rwa [List.append_assoc, List.singleton_append] at hall

end Keeps

/-! ## From the start -/

/-- Before the first event nothing is in the folder, and no run has a file. -/
theorem holds_nothing (htree : x.IsTree) (hempty : x.list folder = .ok []) :
    ∃ p, Holds x folder p [] (fun _ => none) := by
  obtain ⟨p, hleads, hchildren⟩ := Machine.list_eq_ok hempty
  have hfree : ∀ run, x.node? (p ++ [run]) = none := by
    intro run
    by_contra hthere
    have hmem := Machine.mem_children.mpr hthere
    rw [hchildren] at hmem
    cases hmem
  exact ⟨p, hleads, nofun, nofun, nofun, nofun, nofun,
    fun run _ => ⟨rfl, hfree run, htree.node?_eq_none (hfree run) fileName⟩⟩

theorem Holds.keeps_start (h : Holds x folder p [] (fun _ => none)) (hfaults : x.faults = []) :
    Keeps x (start folder) folder p [] := ⟨hfaults, rfl, fun _ => none, h, nofun⟩

/-- The first event is the same whether the journal's folder is made with it or stands before it. -/
theorem record_of_made (hfaults : x.faults = []) (hmade : x.makeFolders folder = .ok y)
    (hleads : y.LeadsTo folder p) (what : Event) (hrun : IsPlainName what.runId)
    (hok : ((start folder).record what : StateM Machine (Except FileError Unit × Journal Nat)) x
      |>.1.1 = .ok ()) :
    ((start folder).record what : StateM Machine (Except FileError Unit × Journal Nat)) x =
      ((start folder).record what : StateM Machine (Except FileError Unit × Journal Nat)) y := by
  have hfaultsy : y.faults = [] := (Machine.grows_of_makeFolders hmade).same ▸ hfaults
  have hopen : (fileFor (start folder) what.runId : StateM Machine (Except FileError Nat)) =
      fileFor.openFile (start folder) what.runId := rfl
  have hsame : x.makeFolders (runFolder (start folder : Journal Nat).folder what.runId) =
      y.makeFolders (runFolder (start folder : Journal Nat).folder what.runId) :=
    Machine.makeFolders_joinPath_eq hmade hleads hrun
  rw [record, hopen, Machine.bind_apply, fileFor.openFile, Machine.bind_apply,
    Machine.makeFolders_apply hfaults, hsame] at hok ⊢
  rw [Machine.bind_apply, Machine.bind_apply, Machine.makeFolders_apply hfaultsy]
  cases hmake : y.makeFolders (runFolder (start folder : Journal Nat).folder what.runId) with
  | error e =>
      simp only [hmake] at hok
      cases hok
  | ok z => rfl

theorem recordAll_of_made (hfaults : x.faults = []) (hmade : x.makeFolders folder = .ok y)
    (hleads : y.LeadsTo folder p) {rest : List LogEntry} (hrun : IsPlainName e.event.runId)
    {results : List (Except FileError Unit)} (hresults : ∀ r ∈ results, r = .ok ())
    (hr : recordAll (start folder) (e :: rest) x = ((results, k), z)) :
    recordAll (start folder) (e :: rest) y = ((results, k), z) := by
  rw [recordAll_cons] at hr
  obtain ⟨hpair, -⟩ := Prod.mk.inj hr
  have hlist := (Prod.mk.inj hpair).1
  rw [← hlist] at hresults
  have hleads' : ({ y with clock := e.written } : Machine).LeadsTo folder p :=
    hleads.of_extends ⟨fun _ _ hnode => hnode, rfl⟩
  have hone := record_of_made (x := { x with clock := e.written }) hfaults
    (Machine.makeFolders_setClock hmade e.written) hleads' e.event hrun
    (hresults _ List.mem_cons_self)
  rw [hone] at hr
  exact hr

/-! ## Playing back -/

theorem Holds.kind?_eq_none (h : Holds x folder p es files) (hrun : IsPlainName run)
    (hfile : files run = none) : x.kind? (runFile folder run) = none :=
  h.leads.kind?_of_missing hrun (h.fresh run hfile).2.1 isPlainName_fileName

theorem Holds.read_eq (h : Holds x folder p es files) (hfaults : x.faults = [])
    (hwritable : ∀ e ∈ es, e.IsWritable) (hrun : IsPlainName run) :
    (read folder run : StateM Machine (Except FileError (List LogEntry))) x =
      (.ok (ofRun run es), x) := by
  rw [read, Machine.bind_apply, Machine.isThere_apply]
  cases hfile : files run with
  | none =>
      rw [h.kind?_eq_none hrun hfile, (h.fresh run hfile).1]
      rfl
  | some id =>
      have hresolve := h.resolves run id hfile
      have hnode := h.node run id hfile
      have hbytes : x.contents.getD id ByteArray.empty = (textOf (ofRun run es)).toUTF8 := by
        rw [List.getD_eq_getElem?_getD, h.content run id hfile, Option.getD_some]
      have htext : Text.decode? (textOf (ofRun run es)).toUTF8 = some (textOf (ofRun run es)) :=
        dif_pos (textOf (ofRun run es)).isValidUTF8
      have hentries : entries (textOf (ofRun run es)) = ofRun run es :=
        entries_textOf fun e he => hwritable e (List.mem_of_mem_filter he)
      rw [Machine.kind?_of_node hresolve hnode]
      simp only [Option.isSome_some, if_true, Host.readText, Machine.bind_apply,
        Machine.pure_apply, Machine.read_apply hfaults, Machine.read_of_node hresolve hnode, hbytes,
        htext, hentries]

/-- A journal that recorded events of many runs, one after another and none in vain, plays back for
each run exactly the entries of that run, in the order of recording. -/
theorem read_of_recordAll (hfaults : x.faults = []) (hmade : x.makeFolders folder = .ok y)
    (htree : y.IsTree) (hempty : y.list folder = .ok [])
    (hruns : ∀ e ∈ es, IsPlainName e.event.runId) (hwritable : ∀ e ∈ es, e.IsWritable)
    {results : List (Except FileError Unit)} (hresults : ∀ r ∈ results, r = .ok ())
    (hr : recordAll (start folder) es x = ((results, j), z)) (hrun : IsPlainName run) :
    (read folder run : StateM Machine (Except FileError (List LogEntry))) z =
      (.ok (es.filter (fun e => e.event.runId = run)), z) := by
  have hgrows := Machine.grows_of_makeFolders hmade
  have hfaultsy : y.faults = [] := hgrows.same ▸ hfaults
  obtain ⟨p, hstart⟩ := holds_nothing htree hempty
  cases es with
  | nil =>
      cases hr
      have hmissing := hgrows.keeps.kind?_eq_none (hstart.kind?_eq_none hrun rfl)
      rw [read, Machine.bind_apply, Machine.isThere_apply, hmissing]
      rfl
  | cons e rest =>
      have hall := (hstart.keeps_start hfaultsy).recordAll hruns hresults
        (recordAll_of_made hfaults hmade hstart.leads (hruns e List.mem_cons_self) hresults hr)
      obtain ⟨files, hholds, -⟩ := hall.holds
      exact hholds.read_eq hall.faults hwritable hrun

/-- Two runs by turns. One of them is completed and goes on all the same. -/
def interleaved : List LogEntry :=
  [⟨⟨1767225600, 0⟩, "r1", .runStarted 2 1⟩,
    ⟨⟨1767225600, 500000000⟩, "r2", .taskSkipped "say \"a\"\nand b" none⟩,
    ⟨⟨1767225601, 0⟩, "r1", .taskFailed "ä" 3 ⟨.network, "\x07"⟩⟩,
    ⟨⟨1767225602, 0⟩, "r1", .runCompleted 1 1 0⟩,
    ⟨⟨1767225603, 0⟩, "r2", .taskSucceeded "c" 1⟩,
    ⟨⟨1767225604, 0⟩, "r1", .taskStarted "d" 1⟩]

theorem read_of_interleaved : ∃ j z,
    recordAll (start "runs") interleaved Machine.empty = ((List.replicate 6 (.ok ()), j), z) ∧
      (read "runs" "r2" : StateM Machine (Except FileError (List LogEntry))) z =
        (.ok [⟨⟨1767225600, 500000000⟩, "r2", .taskSkipped "say \"a\"\nand b" none⟩,
          ⟨⟨1767225603, 0⟩, "r2", .taskSucceeded "c" 1⟩], z) := by
  have hresults : (recordAll (start "runs") interleaved Machine.empty).1.1 =
      List.replicate 6 (.ok ()) := by decide +kernel
  rcases hr : recordAll (start "runs") interleaved Machine.empty with ⟨⟨results, j⟩, z⟩
  rw [hr] at hresults
  have hall : results = List.replicate 6 (.ok ()) := hresults
  subst hall
  have hfolder : IsPlainName "runs" := by constructor <;> decide
  have hfirst : IsPlainName "r1" := by constructor <;> decide
  have hsecond : IsPlainName "r2" := by constructor <;> decide
  have hruns : ∀ e ∈ interleaved, IsPlainName e.event.runId := by
    simp [interleaved, hfirst, hsecond]
  have hwritable : ∀ e ∈ interleaved, e.IsWritable := by
    intro e he
    constructor <;> (revert e; decide)
  exact ⟨j, z, rfl, read_of_recordAll rfl (Machine.makeFolders_empty hfolder (by decide))
    (Machine.isTree_withFolder "runs") (Machine.list_withFolder hfolder (by decide)) hruns hwritable
    (fun _ hmem => List.eq_of_mem_replicate hmem) hr hsecond⟩

end ImageBatch.Journal
