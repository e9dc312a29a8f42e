import ProgramHost.Main
import ProgramHost.Pipeline
import ProgramHost.Proofs.Pipeline.Contexts
import ProgramHost.Proofs.Pipeline.Sinks
import ProgramHost.Proofs.Program.Endings
import ProgramHost.Proofs.Memory.Bytes
import ProgramHost.Proofs.Program.AfterFault
import ProgramHost.Proofs.Value.Decode
import ProgramHost.Proofs.Pipeline.Warnings
import ProgramHost.Proofs.Memory.Growth
import ProgramHost.Proofs.Program.Growth
import ProgramHost.Proofs.Text.Segments
import ProgramHost.Proofs.Value.Text
import ProgramHost.Proofs.Memory.Blocks
import ProgramHost.Proofs.Value.Encode
import ProgramHost.Proofs.Program.Stores
import ProgramHost.Proofs.Program.Names
import ProgramHost.Proofs.Pipeline.Direct
import ProgramHost.Proofs.CommandLine.Options
import ProgramHost.Proofs.CommandLine.Reply
import ProgramHost.Proofs.Compile.Stages
import ProgramHost.Proofs.Pipeline.Overlap
import ProgramHost.Proofs.Pipeline.Polls
import ProgramHost.Proofs.Pipeline.Undisturbed
import ProgramHost.Proofs.Program.Stages
import ProgramHost.Proofs.Program.Region
import ProgramHost.Proofs.Value.Footprint
import ProgramHost.Proofs.Value.Number
import ProgramHost.Proofs.Value.Render
import ProgramHost.Proofs.Diagnostic.Document
import ProgramHost.Value.Addressed
import ProgramHost.Proofs.Value.Addressed
import ProgramHost.Proofs.Json.Compact
import ProgramHost.Proofs.Tree
import ProgramHost.Proofs.Compile.Document
import ProgramHost.Proofs.Diagnostic.Wording
