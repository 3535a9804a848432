import QueryAdmission.Validation.Nesting
import QueryAdmission.Validation.Overlap
import QueryAdmission.Validation.Variables

/-! Whether a document is a valid request to the study room. Only the verdict matters, so
the checks stand in the order that lets the cheap ones speak first; the later ones rely
on fragments that end. -/

namespace QueryAdmission

/-- Whether a document passes all checks. -/
def Document.isValid (document : Document) : Bool :=
  document.namesFit && document.literalsFit &&
    document.sites.all document.spreadFits &&
    document.nestsWithinLimit && document.spreadsCountable && document.fragmentsUsed &&
    document.usesCountable && document.operations.all document.variablesFit &&
    document.keysFit

end QueryAdmission
