import EquationMap.Source.Span

namespace EquationMap

/-! Typeset content: what evaluation produces and layout places. Every element carries the
span of the syntax that it came from. -/

inductive Content where
  | bare (span : Span)
  | sequence (children : List Content) (span : Span)
  | text (text : String) (upright limits : Bool) (span : Span)
  | op (text : String) (limits : Bool) (span : Span)
  | frac (num denom : Content) (span : Span)
  | primes (count : Nat) (span : Span)
  | attach (base : Content) (top bottom primes : Option Content) (span : Span)
  | root (index : Option Content) (radicand : Content) (span : Span)
  | lr (opening : Option Content) (body : Content) (closing : Option Content) (span : Span)
  | alignPoint (span : Span)
  | linebreak (span : Span)
  | vec (children : List Content) (delims : String × String) (span : Span)
  | mat (rows : List (List Content)) (delims : String × String) (span : Span)
  | cases (children : List Content) (delim : String) (span : Span)
  | binom (upper lower : Content) (span : Span)
  | overline (body : Content) (span : Span)
  | underline (body : Content) (span : Span)
  | upright (body : Content) (span : Span)
  | equation (body : Content) (block : Bool) (span : Span)

namespace Content

def span : Content → Span
  | bare span | sequence _ span | text _ _ _ span | op _ _ span | frac _ _ span
  | primes _ span | attach _ _ _ _ span | root _ _ span | lr _ _ _ span
  | alignPoint span | linebreak span | vec _ _ span | mat _ _ span | cases _ _ span
  | binom _ _ span | overline _ span | underline _ span | upright _ span
  | equation _ _ span => span

def withSpan (span : Span) : Content → Content
  | bare _ => bare span
  | sequence children _ => sequence children span
  | text written isUpright limits _ => text written isUpright limits span
  | op written limits _ => op written limits span
  | frac num denom _ => frac num denom span
  | primes count _ => primes count span
  | attach base top bottom marks _ => attach base top bottom marks span
  | root index radicand _ => root index radicand span
  | lr opening body closing _ => lr opening body closing span
  | alignPoint _ => alignPoint span
  | linebreak _ => linebreak span
  | vec children delims _ => vec children delims span
  | mat rows delims _ => mat rows delims span
  | cases children delim _ => cases children delim span
  | binom upper lower _ => binom upper lower span
  | overline body _ => overline body span
  | underline body _ => underline body span
  | upright body _ => upright body span
  | equation body block _ => equation body block span

def spanned (content : Content) (span : Span) : Content :=
  content.withSpan (content.span.orElse span)

def plain (written : String) (span : Span) : Content :=
  text written false false span

/-- A sequence of children, or the only child if there is one and no span to give it. -/
def ofChildren (children : List Content) (span : Span) : Content :=
  match children, span with
  | [child], .detached => child
  | children, span => sequence children span

mutual

def same : Content → Content → Bool
  | bare s, bare s' => s = s'
  | sequence cs s, sequence cs' s' => sameList cs cs' && s = s'
  | text t u l s, text t' u' l' s' => t = t' && u = u' && l = l' && s = s'
  | op t l s, op t' l' s' => t = t' && l = l' && s = s'
  | frac n d s, frac n' d' s' => same n n' && same d d' && s = s'
  | primes n s, primes n' s' => n = n' && s = s'
  | attach b t l p s, attach b' t' l' p' s' =>
      same b b' && sameOption t t' && sameOption l l' && sameOption p p' && s = s'
  | root i r s, root i' r' s' => sameOption i i' && same r r' && s = s'
  | lr o b c s, lr o' b' c' s' =>
      sameOption o o' && same b b' && sameOption c c' && s = s'
  | alignPoint s, alignPoint s' => s = s'
  | linebreak s, linebreak s' => s = s'
  | vec cs d s, vec cs' d' s' => sameList cs cs' && d = d' && s = s'
  | mat rs d s, mat rs' d' s' => sameRows rs rs' && d = d' && s = s'
  | cases cs d s, cases cs' d' s' => sameList cs cs' && d = d' && s = s'
  | binom u l s, binom u' l' s' => same u u' && same l l' && s = s'
  | overline b s, overline b' s' => same b b' && s = s'
  | underline b s, underline b' s' => same b b' && s = s'
  | upright b s, upright b' s' => same b b' && s = s'
  | equation b k s, equation b' k' s' => same b b' && k = k' && s = s'
  | _, _ => false

def sameList : List Content → List Content → Bool
  | [], [] => true
  | c :: cs, c' :: cs' => same c c' && sameList cs cs'
  | _, _ => false

def sameRows : List (List Content) → List (List Content) → Bool
  | [], [] => true
  | r :: rs, r' :: rs' => sameList r r' && sameRows rs rs'
  | _, _ => false

def sameOption : Option Content → Option Content → Bool
  | none, none => true
  | some c, some c' => same c c'
  | _, _ => false

end

end Content

end EquationMap
