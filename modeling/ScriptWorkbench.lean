import ScriptWorkbench.Ast.Data
import ScriptWorkbench.Ast.Visit
import ScriptWorkbench.Editor.Session
import ScriptWorkbench.Main
import ScriptWorkbench.Report
import ScriptWorkbench.Serve
import ScriptWorkbench.Setup
import ScriptWorkbench.Studio.Find
import ScriptWorkbench.Studio.Margin
import ScriptWorkbench.Studio.Standard
import ScriptWorkbench.Proofs.Listing
import ScriptWorkbench.Proofs.Layout
import ScriptWorkbench.Proofs.Continuation
import ScriptWorkbench.Proofs.TokenPlaces
import ScriptWorkbench.Proofs.LeadingComments
import ScriptWorkbench.Proofs.PrintedTokens
import ScriptWorkbench.Proofs.Nesting
import ScriptWorkbench.Proofs.PackageMemory
import ScriptWorkbench.Proofs.LexicalFailures
import ScriptWorkbench.Proofs.ReferencePrograms
import ScriptWorkbench.Proofs.IndexedFunctions
import ScriptWorkbench.Proofs.DrawingWindow
import ScriptWorkbench.Proofs.ScriptWords
import ScriptWorkbench.Proofs.FalseAlarms
import ScriptWorkbench.Proofs.FoundRanges
import ScriptWorkbench.Proofs.QuotedTexts
import ScriptWorkbench.Proofs.StoreChanges
import ScriptWorkbench.Proofs.PackageLookup
import ScriptWorkbench.Proofs.ClosingSaves
import ScriptWorkbench.Proofs.Rebuilds
import ScriptWorkbench.Proofs.ProgramShape
import ScriptWorkbench.Proofs.Descriptions
import ScriptWorkbench.Proofs.CommandWords
import ScriptWorkbench.Proofs.SnippetExpansion
import ScriptWorkbench.Proofs.ThemeFaults
import ScriptWorkbench.Proofs.StrayQuotes
import ScriptWorkbench.Proofs.RepeatedSaves
import ScriptWorkbench.Proofs.CaretPlaces
import ScriptWorkbench.Proofs.ConsoleHistory
