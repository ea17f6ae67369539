import Stencil.Engine
import Stencil.Resource.Directory
import Stencil.Value.Display
import Stencil.Value.Json
import Stencil.Proofs.Expr.Grammar
import Stencil.Proofs.Expr.Reading
import Stencil.Proofs.Fields
import Stencil.Proofs.Markup.Opening
import Stencil.Proofs.Markup.Scanning
import Stencil.Proofs.Markup.Closing
import Stencil.Proofs.Markup.RoundTrip
import Stencil.Proofs.Render.Ahead
import Stencil.Proofs.Render.Twins
import Stencil.Proofs.Engine.History
import Stencil.Proofs.Engine.Results
import Stencil.Proofs.Render.Siblings
import Stencil.Proofs.Engine.Limits
import Stencil.Proofs.Expr.Height
import Stencil.Proofs.Expr.RoundTrip
import Stencil.Proofs.Render.Lookup
import Stencil.Proofs.Render.Outermost
import Stencil.Proofs.Render.Underway
import Stencil.Proofs.Engine.Session
import Stencil.Proofs.Render.Finishing
import Stencil.Proofs.Engine.Repetition
import Stencil.Proofs.Engine.Room
import Stencil.Proofs.Render.Cycle
import Stencil.Proofs.Markup.Depth
import Stencil.Proofs.Markup.SelfClosing
import Stencil.Proofs.Resource.Names
import Stencil.Proofs.Resource.Confinement
import Stencil.Proofs.Markup.Range
import Stencil.Proofs.Markup.Tiling
import Stencil.Proofs.Markup.Moving
import Stencil.Proofs.Markup.Locality
import Stencil.Proofs.Markup.Balance
import Stencil.Proofs.Markup.Enclosure
import Stencil.Proofs.Text.Pattern
import Stencil.Proofs.Text.WhiteSpace
import Stencil.Proofs.Markup.InlineSearch
import Stencil.Proofs.Markup.AttributeList
import Stencil.Proofs.Expr.Names
import Stencil.Proofs.Render.LoopVariable
import Stencil.Proofs.Markup.Appending
import Stencil.Proofs.Markup.Trimming
import Stencil.Proofs.Expr.Integers
import Stencil.Proofs.Scopes
import Stencil.Proofs.Resource.Supply
import Stencil.Proofs.Markup.Events
import Stencil.Proofs.Expr.Equality
import Stencil.Proofs.Expr.Cursor
import Stencil.Proofs.Markup.FirstConstruct
import Stencil.Proofs.Markup.Order
import Stencil.Proofs.Markup.KeptRange
