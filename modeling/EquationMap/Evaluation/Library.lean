import EquationMap.Evaluation.Scope

namespace EquationMap.Library

def greek : List (String × String) :=
  [("alpha", "α"), ("beta", "β"), ("gamma", "γ"), ("delta", "δ"), ("epsilon", "ε"),
   ("epsilon.alt", "ϵ"), ("zeta", "ζ"), ("eta", "η"), ("theta", "θ"), ("theta.alt", "ϑ"),
   ("iota", "ι"), ("kappa", "κ"), ("lambda", "λ"), ("mu", "μ"), ("nu", "ν"), ("xi", "ξ"),
   ("omicron", "ο"), ("pi", "π"), ("rho", "ρ"), ("sigma", "σ"), ("tau", "τ"), ("upsilon", "υ"),
   ("phi", "φ"), ("phi.alt", "ϕ"), ("chi", "χ"), ("psi", "ψ"), ("omega", "ω"), ("Alpha", "Α"),
   ("Beta", "Β"), ("Gamma", "Γ"), ("Delta", "Δ"), ("Theta", "Θ"), ("Lambda", "Λ"), ("Xi", "Ξ"),
   ("Pi", "Π"), ("Sigma", "Σ"), ("Upsilon", "Υ"), ("Phi", "Φ"), ("Psi", "Ψ"), ("Omega", "Ω")]

def symbols : List (String × String) :=
  [("infinity", "∞"), ("oo", "∞"), ("partial", "∂"), ("nabla", "∇"), ("dif", "d"),
   ("Dif", "D"), ("prime", "′"), ("degree", "°"), ("ell", "ℓ"), ("planck", "ℎ"), ("dots", "…"),
   ("dots.h", "…"), ("dots.c", "⋯"), ("dots.v", "⋮"), ("dots.down", "⋱"), ("times", "×"),
   ("div", "÷"), ("dot", "⋅"), ("dot.op", "⋅"), ("plus", "+"), ("minus", "−"),
   ("plus.minus", "±"), ("minus.plus", "∓"), ("ast", "∗"), ("circle.small", "∘"),
   ("compose", "∘"), ("eq", "="), ("eq.not", "≠"), ("lt", "<"), ("gt", ">"), ("lt.eq", "≤"),
   ("gt.eq", "≥"), ("approx", "≈"), ("equiv", "≡"), ("prop", "∝"), ("tilde.op", "∼"),
   ("in", "∈"), ("in.not", "∉"), ("subset", "⊂"), ("supset", "⊃"), ("subset.eq", "⊆"),
   ("supset.eq", "⊇"), ("union", "∪"), ("sect", "∩"), ("and", "∧"), ("or", "∨"), ("not", "¬"),
   ("forall", "∀"), ("exists", "∃"), ("emptyset", "∅"), ("arrow.r", "→"), ("arrow.l", "←"),
   ("arrow.l.r", "↔"), ("arrow.r.double", "⇒"), ("arrow.l.r.double", "⇔"),
   ("arrow.r.long", "⟶"), ("arrow.r.bar", "↦"), ("arrow.t", "↑"), ("arrow.b", "↓"),
   ("to", "→"), ("implies", "⇒"), ("iff", "⇔"), ("mapsto", "↦"), ("RR", "ℝ"), ("NN", "ℕ"),
   ("ZZ", "ℤ"), ("QQ", "ℚ"), ("CC", "ℂ"), ("angle.l", "⟨"), ("angle.r", "⟩"), ("bar.v", "|"),
   ("bar.v.double", "‖"), ("colon", ":"), ("comma", ","), ("star", "⋆"), ("qed", "∎")]

/-- Large operators; the flag puts their scripts above and below them when displayed. -/
def largeOperators : List (String × String × Bool) :=
  [("sum", "∑", true), ("product", "∏", true), ("coproduct", "∐", true),
   ("union.big", "⋃", true), ("sect.big", "⋂", true), ("integral", "∫", false),
   ("integral.double", "∬", false), ("integral.triple", "∭", false),
   ("integral.cont", "∮", false)]

def operators : List String :=
  ["arccos", "arcsin", "arctan", "arg", "cos", "cosh", "cot", "coth", "csc", "deg", "det",
   "dim", "exp", "gcd", "hom", "ker", "lcm", "lg", "ln", "log", "mod", "sec", "sin", "sinh",
   "tan", "tanh", "tr"]

def limitOperators : List (String × String) :=
  [("lim", "lim"), ("liminf", "lim inf"), ("limsup", "lim sup"), ("max", "max"),
   ("min", "min"), ("sup", "sup"), ("inf", "inf"), ("Pr", "Pr")]

/-- All names in order of definition. No name is defined twice. -/
def entries : Entries Value :=
  (greek ++ symbols).map (fun (name, text) => (name, .symbol text false)) ++
    largeOperators.map (fun (name, text, limits) => (name, .symbol text limits)) ++
    operators.map (fun name => (name, .content (.op name false .detached))) ++
    limitOperators.map (fun (name, text) => (name, .content (.op text true .detached))) ++
    Builtin.all.map fun function => (function.name, .func function)

end EquationMap.Library
