import StructuralModel.Resolution

/-! The part usages that aggregates range over. -/

namespace StructuralModel

structure Instance where
  part : ElementId
  weight : Float

namespace Model

/-- The part usages below a scope that specialize a type, depth-first. A part is entered again only
where it does not stand on the path that leads to it; the weight is the product of the
multiplicities on the path. -/
def instancesBelow (m : Model) (type : ElementId) (path : List ElementId) (scope : ElementId)
    (weight : Float) : List Instance :=
  (m.visibleFeatures scope).attach.flatMap fun ⟨part, _⟩ =>
    if part ∈ path then []
    else if m.kind part ≠ .partUsage then []
    else
      let weight := weight * Float.ofNat (m.element part).multiplicity
      (if m.specializes part type then [⟨part, weight⟩] else []) ++
        m.instancesBelow type (part :: path) part weight
termination_by m.unmet path
decreasing_by
  exact unmet_lt (lt_of_mem_visibleFeatures ‹_›) ‹_› (by simp +contextual) (by simp)

theorem instancesBelow_eq (m : Model) (type : ElementId) (path : List ElementId) (scope : ElementId) (weight : Float) :
    m.instancesBelow type path scope weight = (m.visibleFeatures scope).flatMap fun part =>
      if part ∈ path then []
      else if m.kind part ≠ .partUsage then []
      else
        (if m.specializes part type then [⟨part, weight * Float.ofNat (m.element part).multiplicity⟩] else []) ++
          m.instancesBelow type (part :: path) part (weight * Float.ofNat (m.element part).multiplicity) := by
  rw [instancesBelow]
  simp

def instances (m : Model) (type scope : ElementId) : List Instance :=
  m.instancesBelow type [scope] scope 1

end Model
end StructuralModel
