import GrammarWorkspace.Update.Scenario
import GrammarWorkspace.Bus.Scenario
import GrammarWorkspace.Workspace.Session
import GrammarWorkspace.Main
import GrammarWorkspace.Proofs.Workspace.Origin
import GrammarWorkspace.Proofs.Workspace.Exactness
import GrammarWorkspace.Proofs.Workspace.View
import GrammarWorkspace.Proofs.Workspace.Transparency
import GrammarWorkspace.Proofs.Update.Exclusion
import GrammarWorkspace.Proofs.Grammar.Lexing
import GrammarWorkspace.Proofs.Grammar.Respelling
import GrammarWorkspace.Proofs.Grammar.Segments
import GrammarWorkspace.Proofs.Grammar.Shifting
import GrammarWorkspace.Proofs.Grammar.Revising
import GrammarWorkspace.Proofs.Grammar.Renaming
import GrammarWorkspace.Proofs.Grammar.Editing
import GrammarWorkspace.Proofs.Grammar.Freshness
import GrammarWorkspace.Proofs.Naming.Normal
import GrammarWorkspace.Proofs.Grammar.Bindings
import GrammarWorkspace.Proofs.Workspace.Renaming
import GrammarWorkspace.Proofs.Grammar.Generations
import GrammarWorkspace.Proofs.Grammar.Recovery
import GrammarWorkspace.Proofs.Grammar.Pointing
import GrammarWorkspace.Proofs.Workspace.Answering
import GrammarWorkspace.Proofs.Workspace.Perusal
import GrammarWorkspace.Proofs.Workspace.Registry
import GrammarWorkspace.Proofs.Workspace.Docility
import GrammarWorkspace.Proofs.Workspace.Sighting
import GrammarWorkspace.Proofs.Workspace.Tallying
import GrammarWorkspace.Proofs.Workspace.Watching
import GrammarWorkspace.Proofs.Workspace.Provenance
import GrammarWorkspace.Proofs.Grammar.Breadth
import GrammarWorkspace.Proofs.Grammar.Diagnosis
import GrammarWorkspace.Proofs.Grammar.Roots
import GrammarWorkspace.Proofs.Grammar.Spans
import GrammarWorkspace.Proofs.Grammar.Writing
import GrammarWorkspace.Proofs.Grammar.LineEnds
import GrammarWorkspace.Proofs.Naming.Returning
import GrammarWorkspace.Proofs.Workspace.Inquiring
import GrammarWorkspace.Proofs.Workspace.Displaying
import GrammarWorkspace.Proofs.Workspace.Refusal
import GrammarWorkspace.Proofs.Workspace.Announcing
import GrammarWorkspace.Proofs.Workspace.Retrying
import GrammarWorkspace.Proofs.Workspace.Canonical
import GrammarWorkspace.Proofs.Bus.History
import GrammarWorkspace.Proofs.Bus.Delivery
import GrammarWorkspace.Proofs.Bus.Disposal
import GrammarWorkspace.Proofs.Workspace.Depth
