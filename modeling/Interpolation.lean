import Interpolation.Main
import Interpolation.Proofs.Code.Printing
import Interpolation.Proofs.Template.Grammar
import Interpolation.Proofs.Template.Spelling
import Interpolation.Proofs.Token.Calls
import Interpolation.Proofs.Token.Modes
import Interpolation.Proofs.Token.Shape
import Interpolation.Proofs.Template.Lookahead
import Interpolation.Proofs.Template.Pieces
import Interpolation.Proofs.Token.Marks
import Interpolation.Proofs.Template.Delimiters
import Interpolation.Proofs.Template.Seams
import Interpolation.Proofs.Template.Concatenation
import Interpolation.Proofs.Code.Lossless
import Interpolation.Proofs.Template.Checking
import Interpolation.Proofs.Template.Edits
import Interpolation.Proofs.Template.Layout
import Interpolation.Proofs.Options
import Interpolation.Proofs.Token.FirstCharacter
import Interpolation.Proofs.Template.Depth
import Interpolation.Proofs.Template.Prefixes
import Interpolation.Proofs.Template.Locations
import Interpolation.Proofs.Code.WellFormed
import Interpolation.Proofs.Script.Strict
import Interpolation.Proofs.Code.Parentheses
import Interpolation.Proofs.Template.Meaning
import Interpolation.Proofs.Template.NormalForm
import Interpolation.Proofs.Template.PlainText
import Interpolation.Proofs.Code.Height
import Interpolation.Proofs.Token.Listing
import Interpolation.Proofs.Template.Progress
