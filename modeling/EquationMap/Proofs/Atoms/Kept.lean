import EquationMap.Proofs.Atoms.Covered
import EquationMap.Proofs.Tree.Containment
import EquationMap.Proofs.Tree.Runs

namespace EquationMap

/-- The parts that stand for tokens, each with the tokens it stands for, and the tokens that
nothing stands for. -/
structure Pairing (all used : List Token) (parts : List TreePart) where
  pairs : List (List Token × TreePart)
  skipped : List Token
  stands : ∀ pair ∈ pairs, StandsFor all pair.1 pair.2
  free : ∀ token ∈ skipped, token.kind.isKept = false
  tokens : (pairs.flatMap Prod.fst ++ skipped).Perm used
  parts : (pairs.map Prod.snd).Perm parts

variable {all used tokens rest : List Token} {parts : List TreePart}

def Pairing.append {later : List Token} {others : List TreePart} (left : Pairing all used parts)
    (right : Pairing all later others) : Pairing all (used ++ later) (parts ++ others) where
  pairs := left.pairs ++ right.pairs
  skipped := left.skipped ++ right.skipped
  stands := by
    intro pair member
    rcases List.mem_append.mp member with first | second
    · exact left.stands pair first
    · exact right.stands pair second
  free := by
    intro token member
    rcases List.mem_append.mp member with first | second
    · exact left.free token first
    · exact right.free token second
  tokens := by
    refine .trans ?_ (left.tokens.append right.tokens)
    simp only [List.flatMap_append, List.append_assoc]
    refine List.Perm.append_left _ ?_
    rw [← List.append_assoc, ← List.append_assoc]
    exact List.perm_append_comm.append_right _
  parts := by
    rw [List.map_append]
    exact left.parts.append right.parts

theorem Covered.exists_pairing (covered : Covered all parts tokens rest) :
    ∃ used, tokens = used ++ rest ∧ Nonempty (Pairing all used parts) := by
  induction covered with
  | refl =>
      exact ⟨[], rfl, ⟨[], [], by simp, by simp, .refl _, .refl _⟩⟩
  | @stands run rest part stands =>
      refine ⟨run, rfl, ⟨[(run, part)], [], ?_, by simp, ?_, .refl _⟩⟩
      · simpa using stands
      · simp
  | @skip token rest kind =>
      exact ⟨[token], rfl, ⟨[], [token], by simp, by simpa using kind, .refl _, .refl _⟩⟩
  | trans left right left_ih right_ih =>
      obtain ⟨used, rfl, ⟨first⟩⟩ := left_ih
      obtain ⟨later, rfl, ⟨second⟩⟩ := right_ih
      exact ⟨used ++ later, (List.append_assoc _ _ _).symm, ⟨first.append second⟩⟩
  | perm covered perm ih =>
      obtain ⟨used, split, ⟨pairing⟩⟩ := ih
      exact ⟨used, split, ⟨{ pairing with parts := pairing.parts.trans perm }⟩⟩

theorem exists_filter_eq {lists : List (List Token × TreePart)}
    (nodup : (lists.flatMap Prod.fst).Nodup) {token : Token}
    (member : token ∈ lists.flatMap Prod.fst) :
    ∃ pair ∈ lists, token ∈ pair.1 ∧
      lists.filter (fun other => decide (token ∈ other.1)) = [pair] := by
  induction lists with
  | nil => cases member
  | cons first rest ih =>
      rw [List.flatMap_cons] at nodup member
      obtain ⟨-, others, apart⟩ := List.nodup_append.mp nodup
      rw [List.filter_cons]
      by_cases here : token ∈ first.1
      · refine ⟨first, List.mem_cons_self, here, ?_⟩
        rw [if_pos (decide_eq_true here)]
        have none : rest.filter (fun other => decide (token ∈ other.1)) = [] := by
          refine List.filter_eq_nil_iff.mpr fun other isOther holds => ?_
          have later := List.mem_flatMap.mpr ⟨other, isOther, of_decide_eq_true holds⟩
          exact apart token here token later rfl
        rw [none]
      · have later := (List.mem_append.mp member).resolve_left here
        obtain ⟨pair, isPair, holds, only⟩ := ih others later
        refine ⟨pair, List.mem_cons_of_mem _ isPair, holds, ?_⟩
        rw [if_neg (by simpa using here)]
        exact only

namespace Pairing

theorem filter_eq (pairing : Pairing all used parts) (nodup : used.Nodup) {token : Token}
    (member : token ∈ used) (kept : token.kind.isKept = true) {around : TreePart → Bool}
    (exact : ∀ {run part}, StandsFor all run part → run ⊆ used →
      (around part = true ↔ token ∈ run)) :
    ∃ run part, StandsFor all run part ∧ run ⊆ used ∧ token ∈ run ∧
      parts.filter around = [part] := by
  have distinct := (pairing.tokens.nodup_iff.mpr nodup)
  have paired : token ∈ pairing.pairs.flatMap Prod.fst := by
    rcases List.mem_append.mp (pairing.tokens.mem_iff.mpr member) with paired | skipped
    · exact paired
    · rw [pairing.free token skipped] at kept
      cases kept
  obtain ⟨pair, isPair, holds, only⟩ := exists_filter_eq (List.nodup_append.mp distinct).1 paired
  have used_of {pair} (isPair : pair ∈ pairing.pairs) : pair.1 ⊆ used := by
    intro other inRun
    refine pairing.tokens.subset (List.mem_append_left _ ?_)
    exact List.mem_flatMap.mpr ⟨pair, isPair, inRun⟩
  refine ⟨pair.1, pair.2, pairing.stands pair isPair, used_of isPair, holds, ?_⟩
  have same : (pairing.pairs.map Prod.snd).filter around = [pair.2] := by
    rw [List.filter_map, ← List.map_singleton, ← only]
    congr 1
    refine List.filter_congr fun other isOther => ?_
    have iff := exact (pairing.stands other isOther) (used_of isOther)
    rw [Bool.eq_iff_iff, decide_eq_true_iff]
    exact iff
  rw [← List.perm_singleton, ← same]
  exact (pairing.parts.filter around).symm

end Pairing

namespace Represents

variable {token : Token} {node : Node}

theorem isAtom (represents : Represents token node) : token.kind.isAtom = true := by
  cases node <;> simp only [Represents] at represents
  case text | named =>
    rcases represents.1 with kind | kind <;> rw [kind] <;> rfl
  all_goals
    rw [represents.1]
    rfl

theorem isPrimes (represents : Represents token node) :
    (TreePart.node node).isPrimes = false := by
  cases node with
  | primes => cases represents
  | _ => rfl

theorem occupies (represents : Represents token node) :
    (TreePart.node node).occupies token = true := by
  cases node <;> simp only [Represents] at represents <;>
    simp [TreePart.occupies, TreePart.isLeaf, TreePart.range, TreePart.place, Node.place,
      represents]

theorem meets (represents : Represents token node) {other : Token}
    (occupies : (TreePart.node node).occupies other = true) :
    token.range.start = other.range.start ∨ token.range.stop = other.range.stop := by
  cases node <;> simp only [Represents] at represents <;>
    simp [TreePart.occupies, TreePart.isLeaf, TreePart.range, TreePart.place, Node.place,
      represents] at occupies <;> simp [occupies]

end Represents

section

variable {text : List Char} {list : TokenList} (inOrder : list.InOrder text)
include inOrder

theorem TokenList.InOrder.nodup : list.tokens.Nodup := by
  have ordered := inOrder.ordered.sublist (List.sublist_append_left _ [list.last])
  refine ordered.imp_of_mem ?_
  rintro token _ member - before rfl
  have := inOrder.nonempty token member
  omega

namespace StandsFor

variable {run : List Token} {part : TreePart}
  (stands : StandsFor list.toList run part) (inText : run ⊆ list.tokens)
include stands inText

theorem occupies_iff {token : Token} (member : token ∈ list.tokens)
    (isAtom : token.kind.isAtom = true) : part.occupies token = true ↔ token ∈ run := by
  have same {other : Token} (isOther : other ∈ list.tokens)
      (meeting : other.range.start = token.range.start ∨ other.range.stop = token.range.stop) :
      token = other :=
    (eq_of_meeting inOrder.ordered (List.mem_append_left _ isOther)
      (List.mem_append_left _ member) (inOrder.nonempty _ isOther)
      (inOrder.nonempty _ member) meeting).symm
  cases stands with
  | @atom other node represents =>
      rw [List.mem_singleton]
      constructor
      · intro occupies
        exact same (inText List.mem_cons_self) (represents.meets occupies)
      · rintro rfl
        exact represents.occupies
  | @shown other kind =>
      rw [List.mem_singleton]
      constructor
      · intro occupies
        refine same (inText List.mem_cons_self) (.inl ?_)
        rw [show other.range = token.range from of_decide_eq_true occupies]
      · rintro rfl
        exact decide_eq_true rfl
  | run within kinds =>
      constructor
      · intro occupies
        cases occupies
      · intro inRun
        rw [kinds token inRun] at isAtom
        cases isAtom

theorem isPrimesAround_iff {token : Token} (member : token ∈ list.tokens)
    (kind : token.kind = .prime) : part.isPrimesAround token = true ↔ token ∈ run := by
  cases stands with
  | @atom other node represents =>
      rw [List.mem_singleton]
      constructor
      · intro around
        rw [TreePart.isPrimesAround, represents.isPrimes] at around
        cases around
      · rintro rfl
        have isAtom := represents.isAtom
        rw [kind] at isAtom
        cases isAtom
  | @shown other free =>
      rw [List.mem_singleton]
      constructor
      · intro around
        cases around
      · rintro rfl
        rw [kind] at free
        rcases free with free | free <;> cases free
  | @run primes run first last within kinds head final count range =>
      have around := mem_run_iff inOrder.ordered within head final
        (List.mem_append_left _ member) (inOrder.nonempty token member)
      rw [← range] at around
      exact around

end StandsFor

end

section

variable {text : String} {list : TokenList} {formula : Formula}

/-- What of the tree of a text stands for tokens is paired with the tokens of the text. -/
theorem Formula.exists_pairing (inOrder : list.InOrder text.toList)
    (read : Formula.ofTokens list = .ok formula) :
    Nonempty (Pairing list.toList list.tokens formula.node.marks) := by
  have isEnd : list.last.kind = .eof := by
    rw [inOrder.last]
  obtain ⟨written, -⟩ := Formula.written_of_ofTokens inOrder.inText isEnd read
  have covered : Covered _ _ _ _ := written.coveredBy inOrder.ordered List.suffix_rfl
  obtain ⟨used, split, pairing⟩ := covered.exists_pairing
  rw [List.append_inj_left' split rfl, Formula.node, Node.marks_math]
  exact pairing

/-- Whether a node is the one that a token has to become or, for a literal of code, a text
that shows it. -/
def Shows (token : Token) (node : Node) : Prop :=
  Represents token node ∨ token.kind.isLiteral = true ∧ ShowsText token node

theorem TreePart.isMark_of_occupies {token : Token} {part : TreePart}
    (occupies : part.occupies token = true) : part.isMark = true := by
  cases part with
  | arguments => cases occupies
  | node node => cases node <;> first | rfl | cases occupies

theorem TreePart.isMark_of_isPrimesAround {token : Token} {part : TreePart}
    (around : part.isPrimesAround token = true) : part.isMark = true := by
  rw [isMark, (Bool.and_eq_true_iff.mp around).1, Bool.or_true]

theorem Node.filter_marks {node : Node} {around : TreePart → Bool}
    (mark : ∀ part, around part = true → part.isMark = true) :
    node.marks.filter around = node.subtree.filter around := by
  rw [marks, List.filter_filter]
  refine List.filter_congr fun part member => ?_
  cases holds : around part with
  | false => rfl
  | true => rw [mark part holds]; rfl

theorem Node.mem_marks {node : Node} {part : TreePart} (member : part ∈ node.subtree)
    (mark : part.isMark = true) : part ∈ node.marks :=
  List.mem_filter.mpr ⟨member, mark⟩

theorem Pairing.exists_stands {used : List Token} {parts : List TreePart}
    (pairing : Pairing all used parts) {part : TreePart} (member : part ∈ parts) :
    ∃ run, StandsFor all run part ∧ run ⊆ used := by
  obtain ⟨pair, isPair, rfl⟩ := List.mem_map.mp (pairing.parts.mem_iff.mpr member)
  refine ⟨pair.1, pairing.stands pair isPair, fun token inRun => ?_⟩
  refine pairing.tokens.subset (List.mem_append_left _ ?_)
  exact List.mem_flatMap.mpr ⟨pair, isPair, inRun⟩

theorem TokenList.InOrder.mem_tokens (inOrder : list.InOrder text.toList) {token : Token}
    (member : token ∈ list.toList) (kind : token.kind ≠ .eof) : token ∈ list.tokens := by
  rcases List.mem_append.mp member with inText | isLast
  · exact inText
  · rw [List.mem_singleton.mp isLast, inOrder.last] at kind
    exact absurd rfl kind

namespace Pairing

variable {node : Node} (pairing : Pairing list.toList list.tokens node.marks)
  (inOrder : list.InOrder text.toList) {token : Token}
include pairing inOrder

/-- An atom stands in the tree once. Only a literal of code may be shown as text. -/
theorem exists_node (member : token ∈ list.toList) (isAtom : token.kind.isAtom = true) :
    ∃ inner, node.subtree.filter (TreePart.occupies token) = [.node inner] ∧
      Shows token inner := by
  have kept : token.kind.isKept = true := by
    rw [TokenKind.isKept, isAtom]
    rfl
  have here : token ∈ list.tokens := by
    refine inOrder.mem_tokens member fun same => ?_
    rw [same] at isAtom
    cases isAtom
  obtain ⟨run, part, stands, isRun, inRun, only⟩ :=
    pairing.filter_eq inOrder.nodup here kept fun stands isRun =>
      stands.occupies_iff inOrder isRun here isAtom
  rw [Node.filter_marks fun part => TreePart.isMark_of_occupies] at only
  cases stands with
  | @atom other node represents =>
      obtain rfl := List.mem_singleton.mp inRun
      exact ⟨_, only, .inl represents⟩
  | @shown other free =>
      obtain rfl := List.mem_singleton.mp inRun
      refine ⟨_, only, .inr ⟨free.resolve_left ?_, rfl, rfl⟩⟩
      rw [kept]
      exact Bool.noConfusion
  | run within kinds =>
      rw [kinds token inRun] at isAtom
      cases isAtom

theorem exists_run (member : token ∈ list.toList) (kind : token.kind = .prime) :
    ∃ run, node.subtree.filter (TreePart.isPrimesAround token) = [.node (.primes run)] := by
  have kept : token.kind.isKept = true := by
    rw [kind]
    rfl
  have here : token ∈ list.tokens := by
    refine inOrder.mem_tokens member fun same => ?_
    rw [same] at kind
    cases kind
  obtain ⟨run, part, stands, isRun, inRun, only⟩ :=
    pairing.filter_eq inOrder.nodup here kept fun stands isRun =>
      stands.isPrimesAround_iff inOrder isRun here kind
  rw [Node.filter_marks fun part => TreePart.isMark_of_isPrimesAround] at only
  cases stands with
  | @atom other node represents =>
      obtain rfl := List.mem_singleton.mp inRun
      have isAtom := represents.isAtom
      rw [kind] at isAtom
      cases isAtom
  | @shown other free =>
      obtain rfl := List.mem_singleton.mp inRun
      rw [kind] at free
      rcases free with free | free <;> cases free
  | @run primes => exact ⟨primes, only⟩

theorem count_run {run : Primes} (member : .node (.primes run) ∈ node.subtree) :
    0 < run.count ∧ run.count = list.toList.countP fun token =>
      token.kind = .prime && run.place.range.contains token.range := by
  obtain ⟨marks, stands, -⟩ := pairing.exists_stands (Node.mem_marks member rfl)
  cases stands with
  | atom represents => cases represents
  | run within kinds head final count range =>
      rw [count, range]
      refine ⟨List.length_pos_of_mem (List.mem_of_mem_head? head), ?_⟩
      refine (countP_run inOrder.ordered within head final kinds ?_).symm
      intro mark member kind
      refine inOrder.nonempty mark (inOrder.mem_tokens member ?_)
      rw [kind]
      exact TokenKind.noConfusion

omit inOrder in
theorem exists_token {inner : Node} (member : .node inner ∈ node.subtree)
    (mark : (TreePart.node inner).isLeaf || (TreePart.node inner).isNaming) :
    ∃ token ∈ list.toList, Represents token inner ∨ ShowsText token inner := by
  have isMark : (TreePart.node inner).isMark = true := by
    rw [TreePart.isMark, mark]
    rfl
  obtain ⟨run, stands, inText⟩ := pairing.exists_stands (Node.mem_marks member isMark)
  cases stands with
  | @atom token node represents =>
      exact ⟨token, List.mem_append_left _ (inText List.mem_cons_self), .inl represents⟩
  | @shown token free =>
      exact ⟨token, List.mem_append_left _ (inText List.mem_cons_self), .inr ⟨rfl, rfl⟩⟩
  | run => cases mark

end Pairing

/-- Every atom of a text is stood for once in its tree, and nothing else is in the tree. -/
theorem Formula.atomsKept (inOrder : list.InOrder text.toList)
    (read : Formula.ofTokens list = .ok formula) :
    AtomsKept Shows list.toList formula.node := by
  obtain ⟨pairing⟩ := Formula.exists_pairing inOrder read
  exact
    { once := fun token member isAtom => pairing.exists_node inOrder member isAtom
      marked := fun token member kind => pairing.exists_run inOrder member kind
      counted := fun run member => pairing.count_run inOrder member
      grounded := fun node member mark => pairing.exists_token member mark }

theorem AtomsKept.literalsRead {tokens : List Token} {tree : Node}
    (kept : AtomsKept Represents tokens tree) : LiteralsRead tokens tree := by
  intro token member literal part inside isText same
  have isAtom : token.kind.isAtom = true := by
    cases kind : token.kind <;> rw [kind] at literal <;> first | rfl | cases literal
  obtain ⟨node, only, represents⟩ := kept.once token member isAtom
  cases part with
  | arguments => cases isText
  | node other =>
      cases other with
      | text written place =>
          have occupies : (TreePart.node (.text written place)).occupies token = true :=
            decide_eq_true same
          have found := List.mem_filter.mpr ⟨inside, occupies⟩
          rw [only] at found
          cases List.mem_singleton.mp found
          rcases represents.1 with kind | kind <;> rw [kind] at literal <;> cases literal
      | _ => cases isText

theorem AtomsKept.represents {tokens : List Token} {tree : Node}
    (kept : AtomsKept Shows tokens tree) (read : LiteralsRead tokens tree) :
    AtomsKept Represents tokens tree := by
  refine ⟨?_, kept.marked, kept.counted, kept.grounded⟩
  intro token member isAtom
  obtain ⟨node, only, represents | ⟨literal, shown⟩⟩ := kept.once token member isAtom
  · exact ⟨node, only, represents⟩
  · exfalso
    have found : .node node ∈ tree.subtree.filter (TreePart.occupies token) := by
      rw [only]
      exact List.mem_cons_self
    have inside := (List.mem_filter.mp found).1
    cases node with
    | text written place => exact read token member literal _ inside rfl shown.2
    | _ => cases shown

end

/-- Every atom of a text stands in its tree once, as what it has to become, if and only if no
literal of code is shown as text. Otherwise that literal is the only thing amiss. -/
theorem atoms_kept_iff_literals_read (text : String) (tokens : TokenList) (formula : Formula)
    (tokenized : tokenize text = .ok tokens) (read : Formula.ofTokens tokens = .ok formula) :
    AtomsKept Shows tokens.toList formula.node ∧
      (AtomsKept Represents tokens.toList formula.node ↔
        LiteralsRead tokens.toList formula.node) := by
  have inOrder := TokenList.inOrder_of_tokenize tokenized
  have kept := Formula.atomsKept inOrder read
  exact ⟨kept, AtomsKept.literalsRead, kept.represents⟩

/-- Primes under scripts, a named argument before a row, and literals in the arguments and the
attached block of a call in code. -/
theorem atoms_kept_of_call :
    ∃ tokens formula, tokenize "f(x: a''_1, b; c)#g(2.5, k: true).h[\"s\" & \\, ]" = .ok tokens ∧
      Formula.ofTokens tokens = .ok formula ∧ tokens.toList.length = 31 ∧
      AtomsKept Represents tokens.toList formula.node := by
  have evaluated : ((tokenize "f(x: a''_1, b; c)#g(2.5, k: true).h[\"s\" & \\, ]").toOption.any
      fun tokens => tokens.toList.length = 31 && (Formula.ofTokens tokens).toOption.any
        fun formula => LiteralsRead tokens.toList formula.node) = true := by
    decide +kernel
  cases tokenized : tokenize "f(x: a''_1, b; c)#g(2.5, k: true).h[\"s\" & \\, ]" with
  | error errors =>
      rw [tokenized] at evaluated
      cases evaluated
  | ok tokens =>
      rw [tokenized] at evaluated
      obtain ⟨count, read_literals⟩ := Bool.and_eq_true_iff.mp evaluated
      cases read : Formula.ofTokens tokens with
      | error failure =>
          rw [read] at read_literals
          cases read_literals
      | ok formula =>
          rw [read] at read_literals
          have iff := (atoms_kept_iff_literals_read _ tokens formula tokenized read).2
          exact ⟨tokens, formula, rfl, read, of_decide_eq_true count,
            iff.mpr (of_decide_eq_true read_literals)⟩

/-- A block of mathematics in a group of code whose parenthesis holds the bracket that ends the
block. What follows the bracket is code to the lexer and mathematics to the grammar. -/
theorem atoms_not_kept_of_crossed_brackets :
    ∃ tokens formula, tokenize "#(a[(] 1 )])" = .ok tokens ∧
      Formula.ofTokens tokens = .ok formula ∧
      ¬AtomsKept Represents tokens.toList formula.node := by
  have evaluated : ((tokenize "#(a[(] 1 )])").toOption.any fun tokens =>
      (Formula.ofTokens tokens).toOption.any fun formula =>
        tokens.toList.any fun token => token.kind = .int &&
          (formula.node.subtree.filter (TreePart.occupies token)).any TreePart.isText) = true := by
    decide +kernel
  cases tokenized : tokenize "#(a[(] 1 )])" with
  | error errors =>
      rw [tokenized] at evaluated
      cases evaluated
  | ok tokens =>
      rw [tokenized] at evaluated
      cases read : Formula.ofTokens tokens with
      | error failure =>
          simp only [Except.toOption, Option.any, read] at evaluated
          cases evaluated
      | ok formula =>
          simp only [Except.toOption, Option.any, read] at evaluated
          refine ⟨tokens, formula, rfl, read, fun kept => ?_⟩
          obtain ⟨token, member, isShown⟩ := List.any_eq_true.mp evaluated
          obtain ⟨isInt, shown⟩ := Bool.and_eq_true_iff.mp isShown
          have kind : token.kind = .int := of_decide_eq_true isInt
          obtain ⟨node, only, represents⟩ := kept.once token member (by rw [kind]; rfl)
          rw [only] at shown
          cases node with
          | text written place =>
              rcases represents.1 with other | other <;> rw [kind] at other <;> cases other
          | _ => cases shown

end EquationMap
