import ContentCard.Canvas
import ContentCard.Canvas.Bitmap
import ContentCard.Canvas.Mark
import ContentCard.Canvas.Operation
import ContentCard.Canvas.Shape
import ContentCard.Card
import ContentCard.Card.Document
import ContentCard.Card.Paint
import ContentCard.Card.Tap
import ContentCard.Color
import ContentCard.Color.Blend
import ContentCard.Color.Offsets
import ContentCard.Config
import ContentCard.Config.Reader
import ContentCard.EmbeddedSession
import ContentCard.Font
import ContentCard.Font.Binary
import ContentCard.Font.CharMap
import ContentCard.Font.Coverage
import ContentCard.Font.GlyphCache
import ContentCard.Font.GlyphTable
import ContentCard.Font.Outline
import ContentCard.Font.Path
import ContentCard.Geometry
import ContentCard.ImageCache
import ContentCard.ImageLoader
import ContentCard.ImageLoader.Operation
import ContentCard.ImageLoader.Run
import ContentCard.Json.Document
import ContentCard.Json.Draft
import ContentCard.Json.Reader
import ContentCard.Json.Record
import ContentCard.Json.Token
import ContentCard.Json.Value
import ContentCard.Layout.Engine
import ContentCard.Layout.Item
import ContentCard.Layout.Leaf
import ContentCard.Layout.Line
import ContentCard.Layout.Memo
import ContentCard.Layout.Overlay
import ContentCard.Layout.Sides
import ContentCard.Main
import ContentCard.Node
import ContentCard.Number.Binary
import ContentCard.Number.Decimal
import ContentCard.Number.Shortest
import ContentCard.Picture
import ContentCard.Picture.Fit
import ContentCard.Placement
import ContentCard.Png
import ContentCard.Png.Checksum
import ContentCard.Png.Deflate
import ContentCard.Preview
import ContentCard.Preview.Options
import ContentCard.Proofs.Canvas.Clips
import ContentCard.Proofs.Canvas.Inside
import ContentCard.Proofs.Canvas.Opacity
import ContentCard.Proofs.Canvas.Pixelwise
import ContentCard.Proofs.Canvas.Wash
import ContentCard.Proofs.Card.Correspondence
import ContentCard.Proofs.Card.FarGlyphs
import ContentCard.Proofs.Card.ImageInside
import ContentCard.Proofs.Card.OneLine
import ContentCard.Proofs.Card.PaintCrop
import ContentCard.Proofs.Card.PaintOrder
import ContentCard.Proofs.Card.PaintedLines
import ContentCard.Proofs.Card.TapReach
import ContentCard.Proofs.Card.TextInside
import ContentCard.Proofs.Color.Coverage
import ContentCard.Proofs.Color.Mixing
import ContentCard.Proofs.Color.Notation
import ContentCard.Proofs.Color.Offsets
import ContentCard.Proofs.EmbeddedSession.Callback
import ContentCard.Proofs.Font.GlyphHistory
import ContentCard.Proofs.Geometry.Intersection
import ContentCard.Proofs.Image.Capacity
import ContentCard.Proofs.Image.Fetches
import ContentCard.Proofs.Json.Members
import ContentCard.Proofs.Json.Number
import ContentCard.Proofs.Layout.Careful
import ContentCard.Proofs.Layout.Columns
import ContentCard.Proofs.Layout.Drift
import ContentCard.Proofs.Layout.Ends
import ContentCard.Proofs.Layout.EqUpToPaint
import ContentCard.Proofs.Layout.Filling
import ContentCard.Proofs.Layout.Growth
import ContentCard.Proofs.Layout.MainAxis
import ContentCard.Proofs.Layout.Records
import ContentCard.Proofs.Layout.Reweighed
import ContentCard.Proofs.Layout.Runs
import ContentCard.Proofs.Layout.Stages
import ContentCard.Proofs.Layout.Steps
import ContentCard.Proofs.Layout.Unpainted
import ContentCard.Proofs.Layout.Weights
import ContentCard.Proofs.Node.Children
import ContentCard.Proofs.Node.IllTyped
import ContentCard.Proofs.Node.LegacyKeys
import ContentCard.Proofs.Node.MapStyles
import ContentCard.Proofs.Number.Double
import ContentCard.Proofs.Number.Integers
import ContentCard.Proofs.Number.Narrowing
import ContentCard.Proofs.Number.Nearest
import ContentCard.Proofs.Number.Order
import ContentCard.Proofs.Number.Packing
import ContentCard.Proofs.Number.Quotient
import ContentCard.Proofs.Number.Rounding
import ContentCard.Proofs.Number.Scaling
import ContentCard.Proofs.Number.Shares
import ContentCard.Proofs.Number.Thresholds
import ContentCard.Proofs.Number.Value
import ContentCard.Proofs.Number.Whole
import ContentCard.Proofs.Picture.Fitting
import ContentCard.Proofs.Picture.Pixels
import ContentCard.Proofs.Session.History
import ContentCard.Proofs.Style.Accepted
import ContentCard.Proofs.Style.Entries
import ContentCard.Proofs.Style.FillPrecedence
import ContentCard.Proofs.Style.Integers
import ContentCard.Proofs.Style.Lengths
import ContentCard.Proofs.Style.Usable
import ContentCard.Proofs.Switchboard.History
import ContentCard.Proofs.Text.Blanks
import ContentCard.Proofs.Text.Greedy
import ContentCard.Proofs.Text.NaturalWidth
import ContentCard.Proofs.Text.Rewrap
import ContentCard.Proofs.Text.Trim
import ContentCard.Proofs.Text.Wrap
import ContentCard.Proofs.Tree.Descend
import ContentCard.Proofs.Visual.ButtonBox
import ContentCard.Proofs.Visual.Children
import ContentCard.Proofs.Visual.Positions
import ContentCard.Proofs.Web.Plain
import ContentCard.Session
import ContentCard.Session.Operation
import ContentCard.Style
import ContentCard.Style.Declarations
import ContentCard.Style.Keyword
import ContentCard.Switchboard
import ContentCard.Switchboard.Operation
import ContentCard.Template
import ContentCard.Text.Blank
import ContentCard.Text.Measure
import ContentCard.Text.Printable
import ContentCard.Text.Quoted
import ContentCard.Text.Wrap
import ContentCard.Visual
import ContentCard.Visual.Document
import ContentCard.Visual.Render
import ContentCard.Web.Address
import ContentCard.Web.Domain
import ContentCard.Web.Host
import ContentCard.Web.Percent
import ContentCard.Web.Punycode
