import Gunyah.Impl.Virq
import Gunyah.Framework.Run

/-!
# What a number of a virtual interrupt must be

A number that is handed out is from the base on and below `GIC_V3_SPI_MAX`, where
`gh_get_irq` expects it, and is not handed out already; one that is put back will
be handed out again, if numbers are asked for often enough (`StepRight`).
-/

namespace GH.Spec.Virq

open GH.Impl GH.Impl.Virq

/-- A number of a shared peripheral interrupt, from the base on. -/
structure InRange (baseVirq virq : Int) : Prop where
  base : baseVirq ≤ virq
  spi : virq < GIC_V3_SPI_MAX
  expected : (ghGetIrq (BitVec.ofInt 32 virq) 0).1 = false

/-- After some calls of `gh_get_virq` it returns the number. -/
def HandedOutAgain (baseVirq : Int) (s : Virqs) (virq : Int) : Prop :=
  ∃ n t, exec (Virqs.step baseVirq) s (List.replicate n (.get true)) = some t ∧
    (ghGetVirq t.ids baseVirq true).1 = virq

/-- What a call must do. -/
def StepRight (baseVirq : Int) (s : Virqs) : Op → Virqs → Prop
  | .get mem, _ =>
    0 ≤ (ghGetVirq s.ids baseVirq mem).1 →
      InRange baseVirq (ghGetVirq s.ids baseVirq mem).1 ∧ (ghGetVirq s.ids baseVirq mem).1 ∉ s.out
  | .put virq, t => virq ∈ s.out → virq ∉ t.out ∧ HandedOutAgain baseVirq t virq

/-- A number is asked for while one of them is free. -/
def HasFree (baseVirq : Int) (s : Virqs) : Op → Virqs → Prop
  | .get mem, _ => mem = true → ∃ virq, baseVirq ≤ virq ∧ virq < GIC_V3_SPI_MAX ∧ virq ∉ s.out
  | .put _, _ => True

end GH.Spec.Virq
