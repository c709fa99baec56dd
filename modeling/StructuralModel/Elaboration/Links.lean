import StructuralModel.Elaboration.Draft
import StructuralModel.Elaboration.LibraryTypes

/-! Edges from the names in declarations to the elements that they denote. Types and general
elements come first, since redefined features are found through them. A redefinition by an outer
feature comes before those inside it, which are found through the outer one. -/

namespace StructuralModel

/-- An edge for each name in turn, later ones in the model with the earlier edges. A name without
an edge is a problem. -/
def Model.linkAll {α : Type} (link : Model → α → Except DeclarationProblem Model) (m : Model) :
    List α → Model × List DeclarationProblem
  | [] => (m, [])
  | name :: rest =>
    match link m name with
    | .ok linked => linkAll link linked rest
    | .error problem =>
      let (linked, problems) := linkAll link m rest
      (linked, problem :: problems)

namespace Draft

/-- The type or general element that a name denotes, if it is one. Library types need no edge. -/
def linkGeneral (d : Draft) (m : Model) (general : PendingName Path) :
    Except DeclarationProblem Model :=
  match m.resolvePath? (m.owner? general.element) general.name.value.segments with
  | some target =>
    if (m.kind target).isType then .ok (m.addGeneral general.element target)
    else .error (.invalidGeneralType general.name (m.kind target) (d.spanOf target))
  | none =>
    if LibraryTypes.has general.name.value then .ok m
    else .error (.undefinedType general.name)

/-- Another feature with the name of a redefinition, wherever it is. -/
def namesake? (m : Model) (redefinition : PendingRedefinition) : Option ElementId :=
  m.traversal.find? fun id =>
    id != redefinition.element && m.isFeature id && m.name? id == some redefinition.name.value

/-- The nearest feature with the name that the owner inherits. -/
def linkRedefinition (d : Draft) (m : Model) (redefinition : PendingRedefinition) :
    Except DeclarationProblem Model :=
  let owner? := m.owner? redefinition.element
  match owner?.bind fun owner => m.inheritedFeature? owner redefinition.name.value with
  | some redefined =>
    let linked := m.setRedefines redefinition.element redefined
    .ok (if redefinition.takesKind then linked.setKind redefinition.element (m.kind redefined)
      else linked)
  | none =>
    match namesake? m redefinition with
    | some feature =>
      .error (.notInherited redefinition.name (owner?.map m.path) (d.spanOf feature))
    | none => .error (.undefinedRedefinition redefinition.name (owner?.map m.path))

def linkAbout (m : Model) (target : PendingName Path) : Except DeclarationProblem Model :=
  match m.resolvePath? (m.owner? target.element) target.name.value.segments with
  | some element => .ok (m.addAbout target.element element)
  | none => .error (.undefinedAnnotationTarget target.name)

def linked (d : Draft) : Model × List DeclarationProblem :=
  let (typed, typeProblems) := d.model.linkAll d.linkGeneral d.generals
  let (redefined, redefinitionProblems) := typed.linkAll d.linkRedefinition d.redefinitions
  let (complete, aboutProblems) := redefined.linkAll linkAbout d.abouts
  (complete, typeProblems ++ redefinitionProblems ++ aboutProblems)

end Draft
end StructuralModel
