import StructuralModel.Model.Traversal

/-! Comments and localized documentation attached to elements. -/

namespace StructuralModel

structure CommentEntry where
  name? : Option String
  text : String
deriving Repr, DecidableEq

structure DocumentationEntry where
  locale? : Option String
  text : String
deriving Repr, DecidableEq

structure ElementMetadata where
  name? : Option String
  path : String
  kind : ElementKind
  comments : List CommentEntry
  documentation : List DocumentationEntry
deriving Repr, DecidableEq

/-- The target locales that an element is not documented in. -/
structure MissingLocales where
  path : String
  locales : List String
deriving Repr, DecidableEq

namespace Model

def partKinds : List ElementKind :=
  [.partDefinition, .partUsage]

def commentEntry? (m : Model) (note : ElementId) : Option CommentEntry :=
  let e := m.element note
  if e.kind = .comment then some ⟨e.name?, e.body?.getD ""⟩ else none

def documentationEntry? (m : Model) (note : ElementId) : Option DocumentationEntry :=
  let e := m.element note
  if e.kind = .documentation then some ⟨e.locale?, e.body?.getD ""⟩ else none

/-- What is attached to the element itself; nothing is inherited. -/
def metadataOf (m : Model) (id : ElementId) : ElementMetadata where
  name? := m.name? id
  path := m.path id
  kind := m.kind id
  comments := (m.annotations id).filterMap m.commentEntry?
  documentation := (m.annotations id).filterMap m.documentationEntry?

/-- The metadata of all elements of some kinds, by path; equal paths stay in traversal order. -/
def metadata (m : Model) (kinds : List ElementKind) : List ElementMetadata :=
  ((m.ofKinds kinds).map m.metadataOf).mergeSort fun a b =>
    (QualifiedName.compare a.path b.path).isLE

end Model

namespace ElementMetadata

def hasLocale (metadata : ElementMetadata) (locale : String) : Bool :=
  metadata.documentation.any fun entry => entry.locale? == some locale

def missing (metadata : ElementMetadata) (targets : List String) : List String :=
  targets.filter fun locale => !metadata.hasLocale locale

/-- The elements that lack a target locale. Documentation without a locale counts for none. -/
def missingLocales (metadata : List ElementMetadata) (targets : List String) : List MissingLocales :=
  metadata.filterMap fun element =>
    match element.missing targets with
    | [] => none
    | locales => some ⟨element.path, locales⟩

end ElementMetadata
end StructuralModel
