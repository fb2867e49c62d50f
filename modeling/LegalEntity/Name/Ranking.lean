import LegalEntity.Entity
import LegalEntity.Name.Similarity

namespace LegalEntity.Name

variable {α : Type} [Scalar α]

def scored (name : String) (e : Entity) : Scored α := ⟨e, similarity name e.legalName⟩

/-- Above the cutoff, and above zero whatever the cutoff is. -/
def passes (cutoff : α) (s : Scored α) : Bool :=
  decide ((0.0 : α) < s.score) && decide (cutoff < s.score)

def ranking (name : String) (cutoff : α) (es : List Entity) : List (Scored α) :=
  ((es.map (scored name)).filter (passes cutoff)).mergeSort
    fun s t => Scalar.totalLE t.score s.score

def closest? (α : Type) [Scalar α] (name : String) : List Entity → Option Entity
  | [] => none
  | e :: es =>
    let better (best s : Scored α) := if best.score < s.score then s else best
    some ((es.map (scored name)).foldl better (scored name e)).entity

end LegalEntity.Name
