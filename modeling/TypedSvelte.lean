import TypedSvelte.Position.Span
import TypedSvelte.Position.Translation
import TypedSvelte.Position.Ledger
import TypedSvelte.Position.SourceMap
import TypedSvelte.Position.LineIndex
import TypedSvelte.Markup.Token
import TypedSvelte.Markup.Document
import TypedSvelte.Markup.Error
import TypedSvelte.Markup.Scan
import TypedSvelte.Markup.Tag
import TypedSvelte.Markup.Header
import TypedSvelte.Markup.Nesting
import TypedSvelte.Markup.Closing
import TypedSvelte.Markup.Opening
import TypedSvelte.Markup.Parse
import TypedSvelte.Script.Outline
import TypedSvelte.Script.Phrase
import TypedSvelte.Script.Grammar.Binding
import TypedSvelte.Script.Grammar.TypeSyntax
import TypedSvelte.Script.Grammar.Callable
import TypedSvelte.Script.Grammar.Literal
import TypedSvelte.Script.Grammar.Operand
import TypedSvelte.Script.Grammar.Declared
import TypedSvelte.Script.Grammar.Exchange
import TypedSvelte.Script.Parse
import TypedSvelte.Script.DocComment
import TypedSvelte.Script.Exports
import TypedSvelte.Kit.FileKind
import TypedSvelte.Kit.Rule
import TypedSvelte.Kit.Augment
import TypedSvelte.Component.Slots
import TypedSvelte.Component.Template
import TypedSvelte.Component.Transpile
import TypedSvelte.Transform.File
import TypedSvelte.Workspace.Tree
import TypedSvelte.Workspace.Glob
import TypedSvelte.Command.Options
import TypedSvelte.Command.Report
import TypedSvelte.Kit.Config
import TypedSvelte.Command.Run
import TypedSvelte.Main
import TypedSvelte.Proofs.Position.LedgerOrder
import TypedSvelte.Proofs.Position.LedgerTranslation
import TypedSvelte.Proofs.Text.Bytes
import TypedSvelte.Proofs.Position.LedgerText
import TypedSvelte.Proofs.Position.Drafting
import TypedSvelte.Proofs.Markup.Passage
import TypedSvelte.Proofs.Markup.ScriptFrame
import TypedSvelte.Proofs.Position.MappingOrigin
import TypedSvelte.Proofs.Component.InstanceItems
import TypedSvelte.Proofs.Component.Replacements
import TypedSvelte.Proofs.Outcome
import TypedSvelte.Proofs.Component.Acceptance
import TypedSvelte.Proofs.Component.ExactAnswers
import TypedSvelte.Proofs.Markup.Marks
import TypedSvelte.Proofs.Position.Layout
import TypedSvelte.Proofs.Position.RoundTrip
import TypedSvelte.Proofs.Markup.MarkPlaces
import TypedSvelte.Proofs.Component.Quotations
import TypedSvelte.Proofs.Component.TemplatePlaces
import TypedSvelte.Proofs.Position.Remainder
import TypedSvelte.Proofs.Component.InstanceScript
import TypedSvelte.Proofs.Position.LedgerFilling
import TypedSvelte.Proofs.Position.LedgerRecords
import TypedSvelte.Proofs.Position.StoredRecords
import TypedSvelte.Proofs.Kit.Annotation
import TypedSvelte.Proofs.Kit.Augmentation
import TypedSvelte.Proofs.Kit.ResultPlace
import TypedSvelte.Proofs.Script.Accuracy
import TypedSvelte.Proofs.Script.Gaps
import TypedSvelte.Proofs.Markup.Placement
import TypedSvelte.Proofs.Markup.Readers
import TypedSvelte.Proofs.Markup.TiledDocuments
import TypedSvelte.Proofs.Markup.Safety
import TypedSvelte.Proofs.Markup.Reparsing
import TypedSvelte.Proofs.Markup.NestedDocuments
import TypedSvelte.Proofs.Markup.ComponentElements
import TypedSvelte.Proofs.Component.PropsMentions
import TypedSvelte.Proofs.Component.TemplateClosings
import TypedSvelte.Proofs.Markup.Operands
import TypedSvelte.Proofs.Component.SlotReading
import TypedSvelte.Proofs.Kit.RecordedOffsets
import TypedSvelte.Proofs.Component.SurvivingStatements
import TypedSvelte.Proofs.Markup.Relocation
import TypedSvelte.Proofs.Markup.Lookahead
import TypedSvelte.Proofs.Component.InertText
import TypedSvelte.Proofs.Command.Enumeration
import TypedSvelte.Proofs.Command.OutputPlaces
import TypedSvelte.Proofs.Command.SharedOutputs
import TypedSvelte.Proofs.Workspace.Growth
import TypedSvelte.Proofs.Kit.Recognition
import TypedSvelte.Proofs.Command.Reruns
import TypedSvelte.Proofs.Command.PrintedPlaces
import TypedSvelte.Proofs.Markup.ClosingBraces
import TypedSvelte.Proofs.Markup.ExpressionTexts
import TypedSvelte.Proofs.Markup.Phrases
import TypedSvelte.Proofs.Markup.HeaderWords
import TypedSvelte.Proofs.Markup.AttributeOrigins
import TypedSvelte.Proofs.Markup.AttributeValues
import TypedSvelte.Proofs.Component.AttributeExpressions
import TypedSvelte.Proofs.Component.ImplicitReferences
import TypedSvelte.Proofs.Component.SlotValues
import TypedSvelte.Proofs.Component.EmptyParentheses
import TypedSvelte.Proofs.Component.TemplateLayout
import TypedSvelte.Proofs.Component.TemplateScopes
import TypedSvelte.Proofs.Text.PutValues
import TypedSvelte.Proofs.Markup.NodePlaces
import TypedSvelte.Proofs.Component.SlotCollection
import TypedSvelte.Proofs.Script.ExportTables
import TypedSvelte.Proofs.Script.DeclaredNames
import TypedSvelte.Proofs.Script.InlineExports
import TypedSvelte.Proofs.Script.CursorPlaces
import TypedSvelte.Proofs.Script.ItemOrder
import TypedSvelte.Proofs.Component.ForwardDeclarations
import TypedSvelte.Proofs.Script.ComponentExports
import TypedSvelte.Proofs.Kit.ConfigSpelling
import TypedSvelte.Proofs.Markup.EachHeaders
import TypedSvelte.Proofs.Script.ItemGaps
import TypedSvelte.Proofs.Script.ItemReading
import TypedSvelte.Proofs.Script.MovedItems
import TypedSvelte.Proofs.Script.Passages
import TypedSvelte.Proofs.Script.SettledItems
import TypedSvelte.Proofs.Script.DocComments
import TypedSvelte.Proofs.Position.Lines
import TypedSvelte.Proofs.Markup.TokenPlaces
import TypedSvelte.Proofs.Kit.ItemsApart
import TypedSvelte.Proofs.Kit.ReadingBack
