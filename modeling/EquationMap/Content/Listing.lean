import EquationMap.Content.Basic
import EquationMap.Listing

namespace EquationMap.Content

def kindName : Content → String
  | bare _ => "Content"
  | sequence _ _ => "SequenceElem"
  | text _ _ _ _ => "TextElem"
  | op _ _ _ => "OpElem"
  | frac _ _ _ => "FracElem"
  | primes _ _ => "PrimesElem"
  | attach _ _ _ _ _ => "AttachElem"
  | root _ _ _ => "RootElem"
  | lr _ _ _ _ => "LrElem"
  | alignPoint _ => "AlignPointElem"
  | linebreak _ => "LinebreakElem"
  | vec _ _ _ => "VecElem"
  | mat _ _ _ => "MatElem"
  | cases _ _ _ => "CasesElem"
  | binom _ _ _ => "BinomElem"
  | overline _ _ => "OverlineElem"
  | underline _ _ => "UnderlineElem"
  | upright _ _ => "UprightElem"
  | equation _ _ _ => "EquationElem"

def isOfKind (content : Content) (name : String) : Bool :=
  name = "Content" || name = content.kindName

def delimiters (delims : String × String) : Listing :=
  .tuple [.text delims.1, .text delims.2]

mutual

def listing : Content → Listing
  | bare span => .record "Content" [("span", .span span)]
  | sequence children span =>
      .record "SequenceElem" [("span", .span span), ("children", .tuple (listings children))]
  | text written isUpright limits span =>
      .record "TextElem" [("span", .span span), ("text", .text written),
        ("upright", .truth isUpright), ("limits", .truth limits)]
  | op written limits span =>
      .record "OpElem" [("span", .span span), ("text", .text written),
        ("limits", .truth limits)]
  | frac num denom span =>
      .record "FracElem" [("span", .span span), ("num", num.listing), ("denom", denom.listing)]
  | primes count span =>
      .record "PrimesElem" [("span", .span span), ("count", .integer count)]
  | attach base top bottom marks span =>
      .record "AttachElem" [("span", .span span), ("base", base.listing),
        ("top", listing? top), ("bottom", listing? bottom), ("primes", listing? marks)]
  | root index radicand span =>
      .record "RootElem" [("span", .span span), ("index", listing? index),
        ("radicand", radicand.listing)]
  | lr opening body closing span =>
      .record "LrElem" [("span", .span span), ("open", listing? opening),
        ("body", body.listing), ("close", listing? closing)]
  | alignPoint span => .record "AlignPointElem" [("span", .span span)]
  | linebreak span => .record "LinebreakElem" [("span", .span span)]
  | vec children delims span =>
      .record "VecElem" [("span", .span span), ("children", .tuple (listings children)),
        ("delim", delimiters delims)]
  | mat rows delims span =>
      .record "MatElem" [("span", .span span), ("rows", .tuple (rowListings rows)),
        ("delim", delimiters delims)]
  | cases children delim span =>
      .record "CasesElem" [("span", .span span), ("children", .tuple (listings children)),
        ("delim", .text delim)]
  | binom upper lower span =>
      .record "BinomElem" [("span", .span span), ("upper", upper.listing),
        ("lower", lower.listing)]
  | overline body span =>
      .record "OverlineElem" [("span", .span span), ("body", body.listing)]
  | underline body span =>
      .record "UnderlineElem" [("span", .span span), ("body", body.listing)]
  | upright body span =>
      .record "UprightElem" [("span", .span span), ("body", body.listing)]
  | equation body block span =>
      .record "EquationElem" [("span", .span span), ("body", body.listing),
        ("block", .truth block)]

def listings : List Content → List Listing
  | [] => []
  | child :: rest => child.listing :: listings rest

def rowListings : List (List Content) → List Listing
  | [] => []
  | row :: rest => .tuple (listings row) :: rowListings rest

def listing? : Option Content → Listing
  | none => .absent
  | some content => content.listing

end

end EquationMap.Content
