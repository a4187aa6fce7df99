import Scrawl.Text.Blank
import Scrawl.Text.Case
import Scrawl.Text.Digit
import Scrawl.Text.Quoted
import Scrawl.Text.Lines
import Scrawl.Text.Words
import Scrawl.Decimal.Numeral
import Scrawl.Decimal.Shortest
import Scrawl.Graph
import Scrawl.Description.Token
import Scrawl.Description.Fault
import Scrawl.Description.Lexer
import Scrawl.Description.Statement
import Scrawl.Description.Reader
import Scrawl.Svg.Number
import Scrawl.Layered.Arcs
import Scrawl.Layered.Acyclic
import Scrawl.Layered.Rank
import Scrawl.Layered.Chain
import Scrawl.Layered.Order
import Scrawl.Layered.Pack
import Scrawl.Layered.Route
import Scrawl.Layered.Frame
import Scrawl.Layered.Layout
import Scrawl.Graphviz.Dot
import Scrawl.Graphviz.Plain
import Scrawl.Layout
import Scrawl.Random.Twister
import Scrawl.Svg.Element
import Scrawl.Stroke.Path
import Scrawl.Stroke.Pen
import Scrawl.Scene.Markup
import Scrawl.File.Path
import Scrawl.Label.Surface
import Scrawl.Label.PlainFace
import Scrawl.Font.Size
import Scrawl.Font.Search
import Scrawl.Font.Load
import Scrawl.Config
import Scrawl.Pipeline
import Scrawl.Text.Utf8
import Scrawl.Text.Json
import Scrawl.File.Disk
import Scrawl.File.Swap
import Scrawl.Live.Session
import Scrawl.Cli.Arguments
import Scrawl.Cli.Run
import Scrawl.Main
import Scrawl.Proofs.Layered.CycleBreaking
import Scrawl.Proofs.Layered.Separation
import Scrawl.Proofs.Layered.Downstream
import Scrawl.Proofs.Description.Acceptance
import Scrawl.Proofs.Description.Content
import Scrawl.Proofs.Description.Prefixes
import Scrawl.Proofs.Description.Settings
import Scrawl.Proofs.Description.Insertion
import Scrawl.Proofs.Graphviz.Drawing
import Scrawl.Proofs.Graphviz.Source
import Scrawl.Proofs.Rendering
import Scrawl.Proofs.Live.Requests
import Scrawl.Proofs.Live.Accounts
import Scrawl.Proofs.Graphviz.Faults
import Scrawl.Proofs.Scene.Reading
import Scrawl.Proofs.Readability
import Scrawl.Proofs.File.Swap
import Scrawl.Proofs.Live.FileSurface
import Scrawl.Proofs.Layered.LongestPaths
import Scrawl.Proofs.Layered.Routing
import Scrawl.Proofs.Layered.Clearance
import Scrawl.Proofs.Layered.Bows
import Scrawl.Proofs.Scene.Outlines
import Scrawl.Proofs.Layered.Frames
import Scrawl.Proofs.Framing
import Scrawl.Proofs.Layered.Size
import Scrawl.Proofs.Layered.Mirrors
import Scrawl.Proofs.Layered.Reflections
import Scrawl.Proofs.Layered.Directions
import Scrawl.Proofs.Stroke.Draws
import Scrawl.Proofs.Stroke.Straying
import Scrawl.Proofs.Decimal.Zeros
import Scrawl.Proofs.Scene.Strokes
import Scrawl.Proofs.Stroke.Magnitudes
import Scrawl.Proofs.Stroke.Flat
import Scrawl.Proofs.Scene.Flat
import Scrawl.Proofs.Random.Seeding
import Scrawl.Proofs.Config
import Scrawl.Proofs.Cli.Inputs
import Scrawl.Proofs.Cli.Once
import Scrawl.Proofs.Cli.Formats
import Scrawl.Proofs.Text.Pieces
import Scrawl.Proofs.Layered.Crossings
import Scrawl.Proofs.Stroke.Smoothness
import Scrawl.Proofs.Label.Growth
import Scrawl.Proofs.Decimal.Nearest
import Scrawl.Proofs.Svg.Snapping
import Scrawl.Proofs.Svg.Numbers
import Scrawl.Proofs.Font.Cache
