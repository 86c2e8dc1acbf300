import DesignTokens.Diagnostic.Json
import DesignTokens.Main
import DesignTokens.Proofs.Export.Meaning
import DesignTokens.Proofs.Export.Success
import DesignTokens.Proofs.Reference.Landing
import DesignTokens.Proofs.Dictionary.Replace
import DesignTokens.Proofs.Reference.Isolation
import DesignTokens.Proofs.Reference.Lasting
import DesignTokens.Proofs.Export.Lasting
import DesignTokens.Proofs.Export.Fixpoint
import DesignTokens.Proofs.Export.OneShot
import DesignTokens.Proofs.Export.Alias
import DesignTokens.Proofs.Export.Namesakes
import DesignTokens.Proofs.Dictionary.Place
import DesignTokens.Proofs.Mixin.Walk
import DesignTokens.Proofs.Mixin.Places
import DesignTokens.Proofs.Dictionary.Between
import DesignTokens.Proofs.Mixin.Idempotence
import DesignTokens.Proofs.Mixin.Termination
import DesignTokens.Proofs.Binary64.ReadBack
import DesignTokens.Proofs.Export.AliasValue
import DesignTokens.Proofs.Export.Frame
import DesignTokens.Proofs.Export.Stall
import DesignTokens.Proofs.Export.Quoted
import DesignTokens.Proofs.Sources.Load
import DesignTokens.Proofs.Reference.Cycles
import DesignTokens.Proofs.Export.Attributes
import DesignTokens.Proofs.Reference.Missing
import DesignTokens.Proofs.Reference.Frame
import DesignTokens.Proofs.Reference.Stray
import DesignTokens.Proofs.Dictionary.RoundTrip
import DesignTokens.Proofs.Mixin.Reread
import DesignTokens.Proofs.Mixin.Override
import DesignTokens.Proofs.Mixin.Failing
import DesignTokens.Proofs.Dictionary.Inheritance
import DesignTokens.Proofs.Reference.Spelling
import DesignTokens.Proofs.Dictionary.Fields
import DesignTokens.Proofs.Sources.Absorption
import DesignTokens.Proofs.Sources.Selection
import DesignTokens.Proofs.Diagnostic.History
import DesignTokens.Proofs.Platform.Config
import DesignTokens.Proofs.Transform.Name
import DesignTokens.Proofs.Reference.Spans
import DesignTokens.Proofs.Command.Build
import DesignTokens.Proofs.Binary64.Numeral
import DesignTokens.Proofs.Dictionary.Listing
import DesignTokens.Proofs.Transform.LeadingNumber
