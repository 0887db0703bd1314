import CodeFence.Engine.Scripted
import CodeFence.LogFilter
import CodeFence.Main
import CodeFence.Proofs.CacheEviction
import CodeFence.Proofs.CacheRetention
import CodeFence.Proofs.InlineTransparency
import CodeFence.Proofs.SettingsUpdate
import CodeFence.Proofs.SourceText
import CodeFence.Proofs.EngineCalls
import CodeFence.Proofs.EngineRecord
import CodeFence.Proofs.ThemeDirectories
import CodeFence.Proofs.JsonRoundTrip
import CodeFence.Proofs.ConfigRepair
import CodeFence.Proofs.ConfigRoundTrip
import CodeFence.Proofs.BlockMarkup
import CodeFence.Proofs.DocumentOrigin
import CodeFence.Proofs.TidyBlocks
import CodeFence.Proofs.WrapperText
import CodeFence.Proofs.PageRefresh
import CodeFence.Proofs.PageSessions
import CodeFence.Proofs.RefreshLaws
import CodeFence.Proofs.EntryLists
import CodeFence.Proofs.SettingsFields
import CodeFence.Proofs.SettingsText
import CodeFence.Proofs.SettingsRepair
import CodeFence.Proofs.SettingsHealing
import CodeFence.Proofs.SettingsReport
import CodeFence.Proofs.FileStores
import CodeFence.Proofs.SettingsFile
import CodeFence.Proofs.WrapperRoundTrip
import CodeFence.Proofs.CacheSettings
import CodeFence.Proofs.PathNames
import CodeFence.Proofs.SettingsBackup
import CodeFence.Proofs.MarkedLines
import CodeFence.Proofs.DirectiveOrder
import CodeFence.Proofs.SkippedDirectives
import CodeFence.Proofs.WrittenLabels
import CodeFence.Proofs.DressedBlocks
import CodeFence.Proofs.ThemeListing
import CodeFence.Proofs.MarkupTags
import CodeFence.Proofs.MarkdownInserts
import CodeFence.Proofs.WrittenMarkdown
import CodeFence.Proofs.MarkdownPages
import CodeFence.Proofs.CodeBlocks
import CodeFence.Proofs.PageRecords
import CodeFence.Proofs.PageLines
import CodeFence.Proofs.SeenTokens
import CodeFence.Proofs.LineFragments
import CodeFence.Proofs.WordCuts
import CodeFence.Proofs.LanguageNames
import CodeFence.Proofs.ReadConfigs
import CodeFence.Proofs.RepairLaws
import CodeFence.Proofs.StoredConfigs
import CodeFence.Proofs.InlineForms
import CodeFence.Proofs.NamedFiles
import CodeFence.Proofs.ThemeFiles
import CodeFence.Proofs.DottedNames
import CodeFence.Proofs.TokenPlaces
import CodeFence.Proofs.LinePieces
import CodeFence.Proofs.PaintedText
import CodeFence.Proofs.ColorText
import CodeFence.Proofs.LoadingAhead
import CodeFence.Proofs.PageImages
import CodeFence.Proofs.SwappedCode
import CodeFence.Proofs.ImageTexts
import CodeFence.Proofs.DraftGrowth
import CodeFence.Proofs.FenceLines
import CodeFence.Proofs.ResolvedLabels
import CodeFence.Proofs.FencedTitles
import CodeFence.Proofs.SortedTokens
import CodeFence.Proofs.WrittenColors
import CodeFence.Proofs.QuotedLabels
import CodeFence.Proofs.ListedNames
import CodeFence.Proofs.HashedUnits
