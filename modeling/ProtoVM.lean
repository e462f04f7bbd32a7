import ProtoVM.Bytecode.Listing
import ProtoVM.Layout.Handles
import ProtoVM.Machine.Run
import ProtoVM.Proofs.Bytecode.CheckedCode
import ProtoVM.Proofs.Bytecode.WellFormedUnits
import ProtoVM.Proofs.Layout.Growth
import ProtoVM.Proofs.Layout.SettledTrees
import ProtoVM.Proofs.Layout.HeldLayouts
import ProtoVM.Proofs.Machine.Activations
import ProtoVM.Proofs.Machine.Instructions
import ProtoVM.Proofs.Object.HeapOperations
import ProtoVM.Proofs.Object.OrderedStores
import ProtoVM.Proofs.Payload.RoundTrip
import ProtoVM.Proofs.Payload.Spellings
import ProtoVM.Proofs.Payload.Acceptance
import ProtoVM.Proofs.Machine.CheckedRuns
import ProtoVM.Proofs.Object.PropertyCaches
import ProtoVM.Proofs.Call.Requests
import ProtoVM.Proofs.Session.Soundness
import ProtoVM.Proofs.Session.Dictionaries
import ProtoVM.Proofs.Session.Operations
import ProtoVM.Proofs.Machine.Soundness
import ProtoVM.Proofs.Machine.CachedLookups
import ProtoVM.Proofs.Session.Agreement
import ProtoVM.Proofs.Machine.DirectReads
import ProtoVM.Proofs.Machine.CallDepths
import ProtoVM.Proofs.Session.Registrations
import ProtoVM.Proofs.Session.BoundIdentifiers
import ProtoVM.Proofs.Call.Confinement
import ProtoVM.Proofs.Object.HiddenObjects
import ProtoVM.Proofs.Session.Concealment
import ProtoVM.Proofs.Machine.PrivateScopes
import ProtoVM.Proofs.Machine.ScopeBindings
import ProtoVM.Proofs.Machine.BindingAttempts
import ProtoVM.Proofs.Object.TokenRuns
import ProtoVM.Proofs.Payload.ReaderLaws
import ProtoVM.Proofs.Payload.CutPayloads
import ProtoVM.Proofs.Machine.BoundArities
import ProtoVM.Proofs.Bytecode.BuiltUnits
import ProtoVM.Proofs.Machine.RaisedRuns
import ProtoVM.Proofs.Machine.EndingCalls
import ProtoVM.Proofs.Object.Inheritance
import ProtoVM.Proofs.Machine.ReachedHeaps
import ProtoVM.Proofs.Object.CacheHits
import ProtoVM.Proofs.Session.CachePlaces
import ProtoVM.Proofs.Machine.Alterations
import ProtoVM.Proofs.Machine.CacheHistories
import ProtoVM.Proofs.Machine.CalmUnits
import ProtoVM.Proofs.Number.ComparedValues
import ProtoVM.Proofs.Bytecode.ConstantPools
import ProtoVM.Proofs.Object.Rendering
import ProtoVM.Proofs.Bytecode.Listings
import ProtoVM.Proofs.Machine.TokenGroups
import ProtoVM.Proofs.Machine.ReachedCopies
import ProtoVM.Proofs.Session.Deliveries
import ProtoVM.Proofs.Session.SiteCaches
import ProtoVM.Proofs.Json.WrittenSettings
