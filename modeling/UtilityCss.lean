import UtilityCss.Text.Blank
import UtilityCss.Text.Cut
import UtilityCss.Text.DecimalDigit
import UtilityCss.Text.Unprintable
import UtilityCss.Text.Quoted
import UtilityCss.Decimal.Places
import UtilityCss.Decimal.Shortest
import UtilityCss.Table
import UtilityCss.Error
import UtilityCss.Declaration
import UtilityCss.Color
import UtilityCss.Color.Named
import UtilityCss.Pattern
import UtilityCss.Token
import UtilityCss.Selector
import UtilityCss.Rank
import UtilityCss.Variant
import UtilityCss.Variant.Table
import UtilityCss.Theme.Value
import UtilityCss.Theme.Screen
import UtilityCss.Theme.Config
import UtilityCss.Theme.Palette
import UtilityCss.Theme.Base
import UtilityCss.Theme.Derived
import UtilityCss.Theme
import UtilityCss.DefaultGroup
import UtilityCss.Rule
import UtilityCss.Catalog
import UtilityCss.Entry
import UtilityCss.Entry.Index
import UtilityCss.Utility
import UtilityCss.Utility.Parts
import UtilityCss.Vocabulary
import UtilityCss.Vocabulary.Memo
import UtilityCss.Expansion
import UtilityCss.Shortcuts
import UtilityCss.Directive
import UtilityCss.Directive.Apply
import UtilityCss.Cascade
import UtilityCss.Sheet
import UtilityCss.Sheet.Printer
import UtilityCss.Data
import UtilityCss.Toml.Reader
import UtilityCss.Settings
import UtilityCss.Settings.Written
import UtilityCss.Engine
import UtilityCss.Proofs.PrintedOrder
import UtilityCss.Proofs.Contents
import UtilityCss.Proofs.Composing
import UtilityCss.Proofs.BaseTheme
import UtilityCss.Proofs.Readings
import UtilityCss.Proofs.RuleList
import UtilityCss.Proofs.History
import UtilityCss.Proofs.OwnRules
import UtilityCss.Proofs.ArrivalOrder
import UtilityCss.Proofs.Layout
import UtilityCss.Proofs.ShortcutGraph
import UtilityCss.Proofs.ShortcutBuild
import UtilityCss.Proofs.Operations
import UtilityCss.Proofs.AppliedGroups
import UtilityCss.Proofs.VariantPrefix
import UtilityCss.Proofs.FileScan
import UtilityCss.Proofs.PatternOrder
import UtilityCss.Proofs.TokenShape
import UtilityCss.Proofs.WholeTokens
import UtilityCss.Proofs.NeededGroups
import UtilityCss.Proofs.Header
import UtilityCss.Proofs.ClassNames
import UtilityCss.Proofs.ListedBlocks
import UtilityCss.Proofs.Rescans
import UtilityCss.Proofs.FewerRules
import UtilityCss.Proofs.DisabledFamilies
import UtilityCss.Proofs.Levels
import UtilityCss.Proofs.SharedBlocks
import UtilityCss.Proofs.ContainerClass
import UtilityCss.Proofs.BlockContents
import UtilityCss.Proofs.Blocklist
import UtilityCss.Proofs.InlineStyles
import UtilityCss.Proofs.IndexContents
import UtilityCss.Proofs.ListingOrder
import UtilityCss.Proofs.ScreenNames
import UtilityCss.Proofs.ScreenContainers
import UtilityCss.Proofs.MemoAnswers
import UtilityCss.Proofs.ComposingFrame
import UtilityCss.Proofs.ThemeSources
import UtilityCss.Proofs.SelectorLists
import UtilityCss.Proofs.ColourFamilies
import UtilityCss.Proofs.NestedSelectors
import UtilityCss.Proofs.Segments
import UtilityCss.Proofs.RemainingDirectives
import UtilityCss.Proofs.CharBoundaries
import UtilityCss.Proofs.HexColours
import UtilityCss.Proofs.ColourTexts
import UtilityCss.Proofs.Modifiers
import UtilityCss.Proofs.ThemeFaults
import UtilityCss.Proofs.Chunks
import UtilityCss.Proofs.CleanParts
import UtilityCss.Proofs.LeftmostMatches
