import FilterQuery.Complexity.Analysis
import FilterQuery.Settings.Basic

namespace FilterQuery

namespace Admission

variable {α : Type} [OfNat α 0] [OfNat α 1] [Sub α] [Mul α] [LT α] [DecidableLT α]

-- Never negative, and zero for a load that is no number.
def limit (base weight factor : α) : α :=
  let left := base * (1 - clampBetween 0 1 factor * weight)
  if 0 < left then left else 0

def verdict (warnRatio limit score : α) : Verdict :=
  if limit < score then .reject else if warnRatio * limit < score then .warn else .accept

end Admission

namespace ComplexitySettings

def limitUnder (s : ComplexitySettings) (load : Load) : Float :=
  Admission.limit s.baseLimit s.loadWeight load.factor

def decide (s : ComplexitySettings) (analysis : Analysis) (load : Load) : Check :=
  let limit := s.limitUnder load
  ⟨Admission.verdict s.warnRatio limit analysis.score, analysis, limit, load⟩

end ComplexitySettings
end FilterQuery
