import SchemaModels.Build.Node
import SchemaModels.Introspection.Plugin
import SchemaModels.Main
import SchemaModels.Proofs.Artifact.Portable
import SchemaModels.Proofs.Artifact.RoundTrip
import SchemaModels.Proofs.Build.Outcome
import SchemaModels.Proofs.Build.Source
import SchemaModels.Proofs.Introspection.Cause
import SchemaModels.Proofs.Introspection.Newlines
import SchemaModels.Proofs.Introspection.Schedule
import SchemaModels.Proofs.Project.Boundary
import SchemaModels.Proofs.Files.Paths
import SchemaModels.Proofs.Files.Places
import SchemaModels.Proofs.Files.Selection
import SchemaModels.Proofs.Files.Search
import SchemaModels.Proofs.Files.Expansion
import SchemaModels.Proofs.Introspection.Listing
import SchemaModels.Proofs.Introspection.Once
import SchemaModels.Proofs.Project.Rooted
import SchemaModels.Proofs.Artifact.Normal
import SchemaModels.Proofs.Build.DefaultSource
import SchemaModels.Proofs.Command.Start
import SchemaModels.Proofs.Command.Rebuilding
import SchemaModels.Proofs.Build.TypeShape
import SchemaModels.Proofs.Build.Meaning
import SchemaModels.Proofs.Introspection.Invariants
import SchemaModels.Proofs.Introspection.Reading
import SchemaModels.Proofs.Build.ProviderName
import SchemaModels.Proofs.Introspection.FailingFile
import SchemaModels.Proofs.Project.Starter
