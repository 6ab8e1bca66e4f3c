namespace EquationMap

/-- What a pass over a tree gives: the reports made on the way, in order, and a result unless
the pass stops. -/
structure Outcome (ρ ε α : Type) where
  reports : List ρ
  result : Except ε α

namespace Outcome

protected def pure (value : α) : Outcome ρ ε α :=
  ⟨[], .ok value⟩

protected def bind (first : Outcome ρ ε α) (next : α → Outcome ρ ε β) : Outcome ρ ε β :=
  match first.result with
  | .ok value =>
      let second := next value
      ⟨first.reports ++ second.reports, second.result⟩
  | .error stop => ⟨first.reports, .error stop⟩

instance : Monad (Outcome ρ ε) where
  pure := Outcome.pure
  bind := Outcome.bind

def report (report : ρ) : Outcome ρ ε Unit :=
  ⟨[report], .ok ()⟩

def stop (reason : ε) : Outcome ρ ε α :=
  ⟨[], .error reason⟩

end Outcome

end EquationMap
