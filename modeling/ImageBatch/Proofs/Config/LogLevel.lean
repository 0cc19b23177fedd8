import ImageBatch.Config.File
import ImageBatch.Proofs.Machine.Requests

/-!
# The early level of logging

The level of logging is read ahead of the configuration, by a walk of its own through the known
places: it stops at the first file that is there, where the configuration comes from the first one
that is also usable. The two walks are compared on any host whose files stand still meanwhile.
-/

namespace ImageBatch.Config

variable {σ η : Type} [Host (StateM σ) η]

/-- Looks at files leave the host as it is, so a second look finds what the first one found. -/
structure IsStill (h : σ) : Prop where
  kind? : ∀ path, ((Host.kind? path : StateM σ (Option FileKind)) h).2 = h
  read : ∀ path, ((Host.read path : StateM σ (Except FileError ByteArray)) h).2 = h

def isThere (h : σ) (path : String) : Bool := ((Host.isThere path : StateM σ Bool) h).1

/-- The configuration that a file holds. A file that is missing, unreadable or malformed holds
none. -/
def held? (p : Places) (h : σ) (path : String) : Option Config :=
  ((loadFile p path : StateM σ (Except FileFault Config)) h).1.toOption

/-- The configuration of a file that is there and usable. -/
def usable? (p : Places) (h : σ) (path : String) : Option Config :=
  if isThere h path then held? p h path else none

variable {p : Places} {h : σ} {named : Option String} {path : String} {paths : List String}
  {c : Config}

theorem usable?_eq_some_iff :
    usable? p h path = some c ↔ isThere h path = true ∧ held? p h path = some c := by
  rw [usable?]
  split <;> simp_all

/-! ## Walks through files that stand still -/

/-- A machine whose requests are not made to fail shows its files as they are. -/
theorem isStill_of_faults {x : Machine} (h : x.faults = []) : IsStill x where
  kind? _ := rfl
  read path := by rw [Machine.read_apply h]

namespace IsStill

variable (hs : IsStill h)

include hs

theorem isThere_apply (path : String) :
    (Host.isThere path : StateM σ Bool) h = (isThere h path, h) :=
  Prod.ext rfl (hs.kind? path)

theorem snd_readText (path : String) :
    ((Host.readText path : StateM σ (Except FileError String)) h).2 = h := by
  rcases hread : (Host.read path : StateM σ (Except FileError ByteArray)) h with ⟨found, h'⟩
  obtain rfl : h' = h := by rw [← hs.read path, hread]
  simp only [Host.readText, bind, StateT.bind, hread]
  cases found with
  | error e => rfl
  | ok bytes =>
      dsimp only
      rcases Text.decode? bytes with _ | text <;> rfl

theorem loadFile_apply (p : Places) (path : String) :
    (loadFile p path : StateM σ (Except FileFault Config)) h =
      (((loadFile p path : StateM σ (Except FileFault Config)) h).1, h) := by
  refine Prod.ext rfl ?_
  rcases hread : (Host.readText path : StateM σ (Except FileError String)) h with ⟨found, h'⟩
  obtain rfl : h' = h := by rw [← hs.snd_readText path, hread]
  simp only [loadFile, bind, StateT.bind, hread]
  cases found with
  | error e => rfl
  | ok text =>
      dsimp only
      rcases Yaml.Read.ofText? (ofYaml p) text with _ | c <;> rfl

/-- What follows on a file that is loaded finds the host as it was. -/
theorem bind_loadFile {α : Type} (p : Places) (path : String)
    (k : Except FileFault Config → StateM σ α) :
    ((loadFile p path : StateM σ (Except FileFault Config)) >>= k) h =
      k ((loadFile p path : StateM σ (Except FileFault Config)) h).1 h := by
  simp only [bind, StateT.bind]
  rw [hs.loadFile_apply p path]

theorem bind_isThere {α : Type} (path : String) (k : Bool → StateM σ α) :
    ((Host.isThere path : StateM σ Bool) >>= k) h = k (isThere h path) h := by
  simp only [bind, StateT.bind]
  rw [hs.isThere_apply path]

theorem firstThere_apply (paths : List String) :
    (firstThere paths : StateM σ (Option String)) h = (paths.find? (isThere h), h) := by
  induction paths with
  | nil => rfl
  | cons path rest ih =>
      rw [firstThere, hs.bind_isThere, List.find?_cons]
      cases isThere h path with
      | false => exact ih
      | true => rfl

theorem firstUsable_apply (p : Places) (paths : List String) :
    (firstUsable p paths : StateM σ (Option Config)) h = (paths.findSome? (usable? p h), h) := by
  induction paths with
  | nil => rfl
  | cons path rest ih =>
      rw [firstUsable, hs.bind_isThere, List.findSome?_cons, usable?, held?]
      cases isThere h path with
      | false => exact ih
      | true =>
          rw [if_pos rfl, if_pos rfl, hs.bind_loadFile]
          cases ((loadFile p path : StateM σ (Except FileFault Config)) h).1 with
          | error e => exact ih
          | ok c => rfl

theorem load_named (p : Places) (path : String) :
    ((load p (some path) : StateM σ (Except LoadError Config)) h).1.toOption =
      held? p h path := by
  simp only [load, held?]
  rw [hs.bind_loadFile]
  cases ((loadFile p path : StateM σ (Except FileFault Config)) h).1 <;> rfl

theorem load_unnamed (p : Places) :
    ((load p none : StateM σ (Except LoadError Config)) h).1 =
      .ok (((candidates p).findSome? (usable? p h)).getD (standard p)) := by
  simp only [load, bind, StateT.bind, hs.firstUsable_apply]
  rfl

theorem loadLogLevel_named (p : Places) (path : String) :
    ((loadLogLevel p (some path) : StateM σ (Option String)) h).1 =
      (held? p h path).bind (·.logLevel) := by
  simp only [loadLogLevel, pure_bind, held?]
  rw [hs.bind_loadFile]
  cases ((loadFile p path : StateM σ (Except FileFault Config)) h).1 <;> rfl

theorem loadLogLevel_apply (p : Places) (named : Option String) :
    ((loadLogLevel p named : StateM σ (Option String)) h).1 =
      (named <|> (candidates p).find? (isThere h)).bind fun path =>
        (held? p h path).bind (·.logLevel) := by
  cases named with
  | some path => exact hs.loadLogLevel_named p path
  | none =>
      have hfirst := hs.firstThere_apply (candidates p)
      cases hfound : (candidates p).find? (isThere h) with
      | none =>
          simp only [loadLogLevel, bind, StateT.bind, hfirst, hfound]
          rfl
      | some path =>
          rw [hfound] at hfirst
          refine Eq.trans ?_ (hs.loadLogLevel_named p path)
          simp only [loadLogLevel, bind, StateT.bind, hfirst]
          rfl

end IsStill

/-! ## Where the two walks part -/

/-- The level that the configuration in use asks for is overlooked: the user names no file, and the
first candidate that is there holds no configuration, so that the one in use comes from a candidate
further back. -/
structure Overlooks (p : Places) (h : σ) (named : Option String) (c : Config) : Prop where
  unnamed : named = none
  asks : c.logLevel ≠ none
  stops : ∃ path, (candidates p).find? (isThere h) = some path ∧ held? p h path = none
  goesOn : (candidates p).findSome? (usable? p h) = some c

/-- Where the first file that is there is usable, both walks take it. -/
theorem findSome?_usable_of_held (hfirst : (paths.find? (isThere h)) = some path)
    (hheld : held? p h path = some c) : paths.findSome? (usable? p h) = some c := by
  obtain ⟨hthere, before, after, rfl, hbefore⟩ := List.find?_eq_some_iff_append.mp hfirst
  refine List.findSome?_eq_some_iff.mpr ⟨before, path, after, rfl,
    usable?_eq_some_iff.mpr ⟨hthere, hheld⟩, fun q hq => ?_⟩
  have hgone := hbefore q hq
  rw [usable?, if_neg (by simpa using hgone)]

theorem findSome?_usable_of_gone (hgone : paths.find? (isThere h) = none) :
    paths.findSome? (usable? p h) = none := by
  refine List.findSome?_eq_none_iff.mpr fun q hq => ?_
  rw [usable?, if_neg (List.find?_eq_none.mp hgone q hq)]

theorem Overlooks.loadLogLevel (hs : IsStill h) (ho : Overlooks p h named c) :
    ((loadLogLevel p named : StateM σ (Option String)) h).1 = none := by
  obtain ⟨path, hfirst, hheld⟩ := ho.stops
  rw [hs.loadLogLevel_apply, ho.unnamed, hfirst]
  simp [hheld]

theorem loadLogLevel_of_not_overlooks (hs : IsStill h)
    (hload : ((load p named : StateM σ (Except LoadError Config)) h).1 = .ok c)
    (hno : ¬ Overlooks p h named c) :
    ((loadLogLevel p named : StateM σ (Option String)) h).1 = c.logLevel := by
  rw [hs.loadLogLevel_apply]
  cases named with
  | some path =>
      have hheld : held? p h path = some c := by rw [← hs.load_named p path, hload]; rfl
      simp [hheld]
  | none =>
      rw [hs.load_unnamed] at hload
      have hc := Except.ok.inj hload
      cases hfirst : (candidates p).find? (isThere h) with
      | none =>
          rw [findSome?_usable_of_gone hfirst] at hc
          subst hc
          rfl
      | some path =>
          cases hheld : held? p h path with
          | some c' =>
              rw [findSome?_usable_of_held hfirst hheld] at hc
              simp [hheld, ← hc]
          | none =>
              change (held? p h path).bind (·.logLevel) = c.logLevel
              rw [hheld, Option.bind_none]
              cases hused : (candidates p).findSome? (usable? p h) with
              | none =>
                  rw [hused] at hc
                  subst hc
                  rfl
              | some c' =>
                  obtain rfl : c' = c := by rw [hused] at hc; exact hc
                  by_contra hasks
                  exact hno ⟨rfl, Ne.symm hasks, ⟨path, hfirst, hheld⟩, hused⟩

/-- The level that is read early is that of the configuration in use, unless it is overlooked; then
there is none. -/
theorem loadLogLevel_agrees_iff (hs : IsStill h)
    (hload : ((load p named : StateM σ (Except LoadError Config)) h).1 = .ok c) :
    (((loadLogLevel p named : StateM σ (Option String)) h).1 = c.logLevel ↔
      ¬ Overlooks p h named c) ∧
    (Overlooks p h named c → ((loadLogLevel p named : StateM σ (Option String)) h).1 = none) := by
  refine ⟨⟨fun hagree ho => ?_, loadLogLevel_of_not_overlooks hs hload⟩, (·.loadLogLevel hs)⟩
  exact ho.asks (hagree ▸ ho.loadLogLevel hs)

/-- The file in the working folder is malformed, and the one in the home asks for a level. -/
def halfConfigured : Machine :=
  { Machine.empty with
    nodes := [
      ([".mirrorbatch.yml"], .file 0),
      (["etc", "mirrorbatch", "mirrorbatch.yml"], .file 1),
      (["etc", "mirrorbatch"], .folder), (["etc"], .folder)]
    contents := ["batch: 3".toUTF8, "log-level: warn".toUTF8] }

theorem loadLogLevel_agrees_iff_of_halfConfigured :
    ∃ c, IsStill halfConfigured ∧
      ((load ⟨some "/etc", none⟩ none : StateM Machine _) halfConfigured).1 = .ok c ∧
      Overlooks ⟨some "/etc", none⟩ halfConfigured none c ∧ c.logLevel = some "warn" ∧
      ((loadLogLevel ⟨some "/etc", none⟩ none : StateM Machine _) halfConfigured).1 = none := by
  let p : Places := ⟨some "/etc", none⟩
  let c : Config := { standard p with logLevel := some "warn" }
  have hs : IsStill halfConfigured := isStill_of_faults rfl
  obtain ⟨hload, hstops, hgoesOn⟩ :
      ((load p none : StateM Machine (Except LoadError Config)) halfConfigured).1 = .ok c ∧
        ((candidates p).find? (isThere halfConfigured) = some ".mirrorbatch.yml" ∧
          held? p halfConfigured ".mirrorbatch.yml" = none) ∧
        (candidates p).findSome? (usable? p halfConfigured) = some c := by
    decide +kernel
  have ho : Overlooks p halfConfigured none c := ⟨rfl, by simp [c], ⟨_, hstops⟩, hgoesOn⟩
  exact ⟨c, hs, hload, ho, rfl, (loadLogLevel_agrees_iff hs hload).2 ho⟩

end ImageBatch.Config
