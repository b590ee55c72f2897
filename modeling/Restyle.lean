import Restyle.Bootstrap.Catalog
import Restyle.Convert
import Restyle.Reading.Extension
import Restyle.Proofs.Cutting
import Restyle.Proofs.Grammar
import Restyle.Proofs.Building
import Restyle.Proofs.Concatenation
import Restyle.Proofs.OwnKeys
import Restyle.Proofs.Coverage
import Restyle.Proofs.Dependence
import Restyle.Proofs.RuleOrder
import Restyle.Proofs.BuiltIn
import Restyle.Proofs.Unambiguity
import Restyle.Proofs.Learning
import Restyle.Proofs.Rendering
import Restyle.Proofs.Conservation
import Restyle.Proofs.Construction
import Restyle.Proofs.Contribution
import Restyle.Proofs.WritingBack
import Restyle.Proofs.CanonicalSplit
import Restyle.Proofs.AddedVariants
import Restyle.Proofs.Brackets
import Restyle.Proofs.Importance
import Restyle.Proofs.TextTiers
import Restyle.Proofs.Registration
import Restyle.Proofs.Strictness
import Restyle.Proofs.Faults
import Restyle.Proofs.Extending
import Restyle.Proofs.History
import Restyle.Proofs.Strategies
import Restyle.Proofs.Modifiers
import Restyle.Proofs.Refusals
import Restyle.Proofs.SharedKeys
import Restyle.Proofs.OverrideScope
import Restyle.Proofs.DefaultStep
import Restyle.Proofs.Foregrounds
import Restyle.Proofs.ExtensionColors
import Restyle.Proofs.Layout
import Restyle.Proofs.Drafts
import Restyle.Proofs.RuleStore
import Restyle.Proofs.GridClasses
import Restyle.Proofs.LongestStem
import Restyle.Proofs.UtilityStart
