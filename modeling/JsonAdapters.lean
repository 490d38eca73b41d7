import JsonAdapters.Emit.Expansion
import JsonAdapters.Package.Build
import JsonAdapters.Proofs.Adapter.Agreeing
import JsonAdapters.Proofs.Adapter.AlikeDocuments
import JsonAdapters.Proofs.Adapter.Discipline
import JsonAdapters.Proofs.Adapter.Floats
import JsonAdapters.Proofs.Adapter.Rereading
import JsonAdapters.Proofs.Adapter.Texts
import JsonAdapters.Proofs.Derive.Markers
import JsonAdapters.Proofs.Derive.NormalForm
import JsonAdapters.Proofs.Derive.TypeTexts
import JsonAdapters.Proofs.Derive.Validation
import JsonAdapters.Proofs.Emit.Tokens
import JsonAdapters.Proofs.Emit.Unambiguous
import JsonAdapters.Proofs.Package.Bindings
import JsonAdapters.Proofs.Package.Collecting
import JsonAdapters.Proofs.Package.Extending
import JsonAdapters.Proofs.Package.FileTokens
import JsonAdapters.Proofs.Package.Lookup
import JsonAdapters.Proofs.Package.PartNames
import JsonAdapters.Proofs.Package.Scoping
import JsonAdapters.Proofs.Package.Watching
import JsonAdapters.Proofs.Record.Ancestry
import JsonAdapters.Samples.Factories
