import Hypermark.Command.Arguments
import Hypermark.Command.Files
import Hypermark.Command.Log
import Hypermark.Command.Run
import Hypermark.Convert
import Hypermark.Document.Attributes
import Hypermark.Document.Node
import Hypermark.Document.Place
import Hypermark.Document.Role
import Hypermark.Document.Serialize
import Hypermark.Fault
import Hypermark.Figure
import Hypermark.Inline.Fragment
import Hypermark.Inline.Render
import Hypermark.Link
import Hypermark.Main
import Hypermark.Markdown.Block
import Hypermark.Markdown.Code
import Hypermark.Markdown.Escape
import Hypermark.Markdown.Language
import Hypermark.Markdown.ListItem
import Hypermark.Markdown.Normal
import Hypermark.Markup.EntityTable
import Hypermark.Markup.Reference
import Hypermark.Markup.Tag
import Hypermark.Markup.Token
import Hypermark.Markup.Tree
import Hypermark.Notice
import Hypermark.Options.Record
import Hypermark.Options.Value
import Hypermark.Proofs.AdjacentCode
import Hypermark.Proofs.AllOrNothing
import Hypermark.Proofs.AttributeLookup
import Hypermark.Proofs.BareTree
import Hypermark.Proofs.BarsInCode
import Hypermark.Proofs.BlankRuns
import Hypermark.Proofs.BlockEnds
import Hypermark.Proofs.BlockNeighbours
import Hypermark.Proofs.BracketedDestinations
import Hypermark.Proofs.BufferInk
import Hypermark.Proofs.CanonicalBuffers
import Hypermark.Proofs.CellGuards
import Hypermark.Proofs.CellPlaces
import Hypermark.Proofs.CellScan
import Hypermark.Proofs.CodeBlocks
import Hypermark.Proofs.CodeSearch
import Hypermark.Proofs.CodeSpans
import Hypermark.Proofs.ConversionFaults
import Hypermark.Proofs.DanglingSeparators
import Hypermark.Proofs.DisplayLines
import Hypermark.Proofs.DocumentOrder
import Hypermark.Proofs.DroppedLink
import Hypermark.Proofs.ExposedBars
import Hypermark.Proofs.Exposure
import Hypermark.Proofs.FencedBlocks
import Hypermark.Proofs.FigureSides
import Hypermark.Proofs.Glyphs
import Hypermark.Proofs.HardBreaks
import Hypermark.Proofs.HiddenBlocks
import Hypermark.Proofs.HiddenSearch
import Hypermark.Proofs.IgnoredContent
import Hypermark.Proofs.ItemNumbers
import Hypermark.Proofs.LabelEscapes
import Hypermark.Proofs.LanguageDetection
import Hypermark.Proofs.LanguageLabels
import Hypermark.Proofs.LineBreaks
import Hypermark.Proofs.LineMarks
import Hypermark.Proofs.LinkGrammar
import Hypermark.Proofs.LinkReading
import Hypermark.Proofs.LinkSafety
import Hypermark.Proofs.ListDepth
import Hypermark.Proofs.ListSession
import Hypermark.Proofs.LiveBars
import Hypermark.Proofs.ModesAgree
import Hypermark.Proofs.MuteDeletion
import Hypermark.Proofs.NestedCode
import Hypermark.Proofs.NormalForm
import Hypermark.Proofs.Numbers
import Hypermark.Proofs.OpenLists
import Hypermark.Proofs.OpeningAngles
import Hypermark.Proofs.Outcome
import Hypermark.Proofs.Prose
import Hypermark.Proofs.Recursion
import Hypermark.Proofs.RowPlaces
import Hypermark.Proofs.RowsRead
import Hypermark.Proofs.RowspanGrid
import Hypermark.Proofs.SchemeList
import Hypermark.Proofs.SchemeVerdict
import Hypermark.Proofs.SpanFences
import Hypermark.Proofs.StoredFiles
import Hypermark.Proofs.Success
import Hypermark.Proofs.TableLines
import Hypermark.Proofs.TableModes
import Hypermark.Proofs.TableShape
import Hypermark.Proofs.TransparentContainers
import Hypermark.Proofs.Unseen
import Hypermark.Proofs.VisibleText
import Hypermark.Proofs.WordBoundaries
import Hypermark.Proofs.Words
import Hypermark.Render
import Hypermark.Table.Grid
import Hypermark.Table.Layout
import Hypermark.Table.Render
import Hypermark.Text.Blank
import Hypermark.Text.Case
import Hypermark.Text.CaseRanges
import Hypermark.Text.Integer
import Hypermark.Text.Letter
import Hypermark.Text.Lines
import Hypermark.Text.Order
import Hypermark.Text.PrintableRanges
import Hypermark.Text.Quoted
import Hypermark.Text.Runs
import Hypermark.Text.Utf8
import Hypermark.Traced
