import ImageBatch.Sorted.Map
import ImageBatch.Text.Letters

/-!
# Tasks

A task copies one image from a source to a destination, or deletes it there. Its origin is the name
by which the user asked for it.
-/

namespace ImageBatch

inductive ImageKind where
  | releaseGraph
  | release
  | releaseContent
  | operatorBundle
  | operatorCatalog
  | operatorRelatedImage
  | additional
  | helmImage
deriving DecidableEq, Repr, Inhabited

namespace ImageKind

/-- Every kind, in the order of reports. -/
def all : List ImageKind :=
  [releaseGraph, release, releaseContent, operatorBundle, operatorCatalog, operatorRelatedImage,
    additional, helmImage]

/-- The place in the order of reports. -/
def rank : ImageKind → Nat
  | releaseGraph => 0
  | release => 1
  | releaseContent => 2
  | operatorBundle => 3
  | operatorCatalog => 4
  | operatorRelatedImage => 5
  | additional => 6
  | helmImage => 7

theorem rank_injective {a b : ImageKind} (h : a.rank = b.rank) : a = b := by
  cases a <;> cases b <;> first | rfl | simp [rank] at h

instance : Ord ImageKind := ⟨fun a b => compare a.rank b.rank⟩

instance : Std.TransOrd ImageKind where
  eq_swap {a b} :=
    (Std.OrientedCmp.eq_swap : compare a.rank b.rank = (compare b.rank a.rank).swap)
  isLE_trans {a b c} (h : (compare a.rank b.rank).isLE) (h' : (compare b.rank c.rank).isLE) :=
    (Std.TransCmp.isLE_trans h h' : (compare a.rank c.rank).isLE)

instance : Std.LawfulEqOrd ImageKind where
  eq_of_compare h := rank_injective (Std.LawfulEqOrd.eq_of_compare h)

theorem mem_all (k : ImageKind) : k ∈ all := by cases k <;> simp [all]

/-- The name in files. -/
def label : ImageKind → String
  | releaseGraph => "release-graph"
  | release => "release"
  | releaseContent => "release-content"
  | operatorBundle => "operator-bundle"
  | operatorCatalog => "operator-catalog"
  | operatorRelatedImage => "operator-related-image"
  | additional => "additional"
  | helmImage => "helm-image"

def ofLabel? (s : String) : Option ImageKind := all.find? (fun k => k.label == s)

/-- What several images of the kind are called. -/
def plural : ImageKind → String
  | releaseGraph => "release graph images"
  | release => "release images"
  | releaseContent => "release content images"
  | operatorBundle => "operator bundles"
  | operatorCatalog => "operator catalogs"
  | operatorRelatedImage => "operator images"
  | additional => "additional images"
  | helmImage => "helm images"

end ImageKind

/-- Where images go in a run. -/
inductive Mode where
  | toDisk
  | toMirror
  | mirrorToMirror
  | delete
deriving DecidableEq, Repr, Inhabited

namespace Mode

def all : List Mode := [toDisk, toMirror, mirrorToMirror, delete]

def label : Mode → String
  | toDisk => "to-disk"
  | toMirror => "to-mirror"
  | mirrorToMirror => "mirror-to-mirror"
  | delete => "delete"

def ofLabel? (s : String) : Option Mode := all.find? (fun m => m.label == s)

/-- Every name of the mode that a user may give. -/
def names : Mode → List String
  | toDisk => ["to-disk", "mirror-to-disk"]
  | toMirror => ["to-mirror", "disk-to-mirror"]
  | mirrorToMirror => ["mirror-to-mirror"]
  | delete => ["delete"]

/-- A name in any letter case. -/
def parse? (s : String) : Option Mode :=
  let name := Text.lowered s
  all.find? (fun m => m.names.any (fun n => n.toList == name))

/-- What is said of a name that no mode has. -/
def unknown (s : String) : String :=
  "Unknown mode: " ++ s ++ ". Use: to-disk, to-mirror, mirror-to-mirror, or delete"

end Mode

/-- One image to copy or delete. -/
structure Task where
  origin : String
  source : String
  destination : String
  kind : ImageKind
  /-- The tag of an image that was built anew. -/
  rebuiltTag : Option String
  /-- The operators that need this image. -/
  operators : NameSet
  /-- The bundles that need this image; a bundle may name itself. -/
  bundles : NameSet
deriving DecidableEq, Inhabited

end ImageBatch
