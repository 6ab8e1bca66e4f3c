import EquationMap.Editor.Session
import EquationMap.Geometry.Unordered
import EquationMap.Main
import EquationMap.Workspace
import EquationMap.Proofs.Text.Boundary
import EquationMap.Proofs.Lexing.Coverage
import EquationMap.Proofs.Parsing.Soundness
import EquationMap.Proofs.Parsing.Blocks
import EquationMap.Proofs.Parsing.Limits
import EquationMap.Proofs.Parsing.Scripts
import EquationMap.Proofs.Parsing.Operators
import EquationMap.Proofs.Parsing.Bars
import EquationMap.Proofs.Tree.Containment
import EquationMap.Proofs.Tree.Numbers
import EquationMap.Proofs.Atoms.Kept
import EquationMap.Proofs.Spans.Fragments
import EquationMap.Proofs.Regions.Records
import EquationMap.Proofs.Answers.Answers
import EquationMap.Proofs.Answers.Refusals
import EquationMap.Proofs.Display.Functions
import EquationMap.Proofs.Display.Nodes
import EquationMap.Proofs.Display.Calls
import EquationMap.Proofs.Decimal.Division
import EquationMap.Proofs.Regions.Identifiers
import EquationMap.Proofs.Editor.Descriptions
import EquationMap.Proofs.Editor.History
import EquationMap.Proofs.Editor.Positions
import EquationMap.Proofs.Source.Excerpts
import EquationMap.Proofs.Layout.Contained
import EquationMap.Proofs.Svg.Marks
import EquationMap.Proofs.Spacing.Rendering
import EquationMap.Proofs.Literals.ReadBack
import EquationMap.Proofs.Layout.Operands
import EquationMap.Proofs.Tree.Preorder
import EquationMap.Proofs.Arguments.Parameters
import EquationMap.Proofs.Parsing.Progress
import EquationMap.Proofs.Answers.Siblings
import EquationMap.Proofs.Layout.Alignment
