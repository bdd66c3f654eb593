import ScriptReader.Program.Log
import ScriptReader.Proofs.Chain.Climb
import ScriptReader.Proofs.Chain.Nesting
import ScriptReader.Proofs.Chain.Program
import ScriptReader.Proofs.Grammar.Derivation
import ScriptReader.Proofs.Grammar.Extension
import ScriptReader.Proofs.Phrase.Exact
import ScriptReader.Proofs.Phrase.Greedy
import ScriptReader.Proofs.Phrase.Program
import ScriptReader.Proofs.Phrase.Rules
import ScriptReader.Proofs.Phrase.Separated
import ScriptReader.Proofs.Program.Blame
import ScriptReader.Proofs.Program.Block
import ScriptReader.Proofs.Program.Context
import ScriptReader.Proofs.Program.Effort
import ScriptReader.Proofs.Program.Follow
import ScriptReader.Proofs.Program.Interleaved
import ScriptReader.Proofs.Program.Limit
import ScriptReader.Proofs.Program.LineEnds
import ScriptReader.Proofs.Program.Prefix
import ScriptReader.Proofs.Program.Recording
import ScriptReader.Proofs.Program.Resume
import ScriptReader.Proofs.Token.Ascent
import ScriptReader.Proofs.Token.Flawed
import ScriptReader.Proofs.Token.Layout
import ScriptReader.Proofs.Token.LineEnds
import ScriptReader.Proofs.Token.Relocated
import ScriptReader.Proofs.Token.Tiling
import ScriptReader.Proofs.Token.Yielded
import ScriptReader.Proofs.Tree.Flatten
import ScriptReader.Proofs.Tree.Image
import ScriptReader.Proofs.Tree.Legible
import ScriptReader.Proofs.Tree.Nesting
import ScriptReader.Token.Call
import ScriptReader.Tree.Display
import ScriptReader.Tree.Preorder
