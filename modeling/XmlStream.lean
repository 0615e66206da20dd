import XmlStream.Name
import XmlStream.Base64
import XmlStream.Escape
import XmlStream.Hexadecimal
import XmlStream.Charset
import XmlStream.Charset.Japanese
import XmlStream.Charset.SingleByte
import XmlStream.Encoder
import XmlStream.Output.Buffer
import XmlStream.Error
import XmlStream.Settings
import XmlStream.Bindings
import XmlStream.Element
import XmlStream.LogEvent
import XmlStream.Writer.Basic
import XmlStream.Writer.Completion
import XmlStream.Call
import XmlStream.Wrap.FileTree
import XmlStream.Wrap.Options
import XmlStream.Main
import XmlStream.Proofs.Simulation.Runs
import XmlStream.Proofs.Output.Truncation
import XmlStream.Proofs.Simulation.Invariant
import XmlStream.Proofs.Grammar.Characters
import XmlStream.Proofs.Grammar.Fragments
import XmlStream.Proofs.Grammar.Names
import XmlStream.Proofs.Grammar.Surroundings
import XmlStream.Proofs.Reset.Restart
import XmlStream.Proofs.Reading.Transparency
import XmlStream.Proofs.Bindings.Latest
import XmlStream.Proofs.Bindings.Changes
import XmlStream.Proofs.Nesting.Runs
import XmlStream.Proofs.Reading.Captured
import XmlStream.Proofs.Reading.Watching
import XmlStream.Proofs.Completion.Explicit
import XmlStream.Proofs.Namespaces.Uniqueness
import XmlStream.Proofs.Namespaces.Qualified
import XmlStream.Proofs.Namespaces.Needed
import XmlStream.Proofs.Special.Runs
import XmlStream.Proofs.Wrap.Missing
import XmlStream.Proofs.Wrap.Lossless
import XmlStream.Proofs.Indentation.Insertions
import XmlStream.Proofs.Output.Finished
import XmlStream.Proofs.Payload.Runs
import XmlStream.Proofs.Restriction.Runs
import XmlStream.Proofs.Prefixes.Fresh
import XmlStream.Proofs.Charset.Resumption
