import ItemLexicon.Main
import ItemLexicon.Selector.Snapshot
import ItemLexicon.Proofs.MetadataMatch
import ItemLexicon.Proofs.ItemMatch
import ItemLexicon.Proofs.DefinedItem
import ItemLexicon.Proofs.Duplicates
import ItemLexicon.Proofs.SoundBucket
import ItemLexicon.Proofs.SoundIndex
import ItemLexicon.Proofs.Registration
import ItemLexicon.Proofs.SoundRegistry
import ItemLexicon.Proofs.ReachableRegistry
import ItemLexicon.Proofs.Naming
import ItemLexicon.Proofs.PatternRewriting
import ItemLexicon.Proofs.PatternLanguage
import ItemLexicon.Proofs.Binding
import ItemLexicon.Proofs.Reregistration
import ItemLexicon.Proofs.LoadedRegistry
import ItemLexicon.Proofs.Reloading
import ItemLexicon.Proofs.BestMatch
import ItemLexicon.Proofs.Shadowing
import ItemLexicon.Proofs.Membership
import ItemLexicon.Proofs.Combinations
import ItemLexicon.Proofs.VariationProduct
import ItemLexicon.Proofs.ProperVariation
import ItemLexicon.Proofs.MetadataEncoding
import ItemLexicon.Proofs.Restoration
import ItemLexicon.Proofs.Coverage
import ItemLexicon.Proofs.PackedTree
import ItemLexicon.Proofs.WrittenData
import ItemLexicon.Proofs.Reporting
import ItemLexicon.Proofs.Supertypes
import ItemLexicon.Proofs.NameLookups
import ItemLexicon.Proofs.Sessions
import ItemLexicon.Proofs.Brackets
import ItemLexicon.Proofs.PrintedOutline
import ItemLexicon.Proofs.SmallLetters
import ItemLexicon.Proofs.RegisteredNames
import ItemLexicon.Proofs.FieldGrades
import ItemLexicon.Proofs.BareAlias
import ItemLexicon.Proofs.DataValues
import ItemLexicon.Proofs.AddedAlias
import ItemLexicon.Proofs.SharedMetadata
import ItemLexicon.Proofs.KeptForms
import ItemLexicon.Proofs.Intersection
import ItemLexicon.Proofs.Quantifiers
import ItemLexicon.Proofs.EnchantedNames
import ItemLexicon.Proofs.Placement
import ItemLexicon.Proofs.StrictBlocks
import ItemLexicon.Proofs.WrittenBlocks
import ItemLexicon.Proofs.UnpairedBraces
import ItemLexicon.Proofs.InsertionPoints
import ItemLexicon.Proofs.NestedBlocks
import ItemLexicon.Proofs.ItemLists
import ItemLexicon.Proofs.PrintedTags
import ItemLexicon.Proofs.PrintedVariation
import ItemLexicon.Proofs.MergedVariations
import ItemLexicon.Proofs.GatedSections
import ItemLexicon.Proofs.EntityData
import ItemLexicon.Proofs.BarredOptionals
import ItemLexicon.Proofs.VersionOrder
import ItemLexicon.Proofs.MaterialIds
import ItemLexicon.Proofs.SpacedNames
import ItemLexicon.Proofs.MarkedNames
import ItemLexicon.Proofs.LevelNumerals
import ItemLexicon.Proofs.RejoinedSegments
import ItemLexicon.Proofs.CheckedLoading
