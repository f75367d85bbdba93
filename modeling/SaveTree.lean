import SaveTree.Path.Wellknown
import SaveTree.Host.Machine
import SaveTree.Queue.Script
import SaveTree.Main
import SaveTree.Proofs.Key.Canonical
import SaveTree.Proofs.Program.Ensures
import SaveTree.Proofs.Store.Catalog
import SaveTree.Proofs.Store.Session
import SaveTree.Proofs.Store.Tree
import SaveTree.Proofs.Virtual.Invariant
import SaveTree.Proofs.Queue.History
import SaveTree.Proofs.Json.RoundTrip
import SaveTree.Proofs.Host.Location
import SaveTree.Proofs.Host.Walk
import SaveTree.Proofs.Store.Codec
import SaveTree.Proofs.Host.Machine
import SaveTree.Proofs.Host.Directories
import SaveTree.Proofs.Store.Site
import SaveTree.Proofs.Store.Transactions
import SaveTree.Proofs.Store.Lossless
import SaveTree.Proofs.Program.Attempt
import SaveTree.Proofs.Store.Memory
import SaveTree.Proofs.Virtual.Walk
import SaveTree.Proofs.Virtual.Atomicity
import SaveTree.Proofs.Host.Subtree
import SaveTree.Proofs.Key.Steps
import SaveTree.Proofs.Native.Paths
import SaveTree.Proofs.Native.Confinement
import SaveTree.Proofs.Native.Reach
import SaveTree.Proofs.Native.Mirror
import SaveTree.Proofs.Native.Operations
import SaveTree.Proofs.Native.Moving
import SaveTree.Proofs.Virtual.Listing
import SaveTree.Proofs.Native.Listing
import SaveTree.Proofs.Native.Simulation
import SaveTree.Proofs.Native.Frame
import SaveTree.Proofs.Native.Missing
import SaveTree.Proofs.Virtual.Enumeration
import SaveTree.Proofs.Store.Acceptance
import SaveTree.Proofs.Store.Equivalence
import SaveTree.Proofs.Cli.Session
import SaveTree.Proofs.Program.Interleaving
import SaveTree.Proofs.Virtual.Concurrency
import SaveTree.Proofs.Store.Linearization
import SaveTree.Proofs.Queue.Smooth
import SaveTree.Proofs.Store.Answering
import SaveTree.Proofs.Cli.Autosave
import SaveTree.Proofs.Path.Normal
import SaveTree.Proofs.Virtual.Relocation
import SaveTree.Proofs.Store.Looking
import SaveTree.Proofs.Virtual.Interruption
import SaveTree.Proofs.Text.Order
import SaveTree.Proofs.Virtual.ListedTree
import SaveTree.Proofs.Key.Admission
import SaveTree.Proofs.Queue.Schedule
import SaveTree.Proofs.Virtual.Files
import SaveTree.Proofs.Virtual.Directories
import SaveTree.Proofs.Virtual.Removal
import SaveTree.Proofs.Native.Failure
import SaveTree.Proofs.FileSystem.Rereading
import SaveTree.Proofs.Path.Joining
import SaveTree.Proofs.Path.Separators
import SaveTree.Proofs.Json.Arrangement
import SaveTree.Proofs.Settings.Layouts
import SaveTree.Proofs.Path.Recomposition
import SaveTree.Proofs.Virtual.Nesting
import SaveTree.Proofs.Settings.Backoff
import SaveTree.Proofs.Text.Dump
