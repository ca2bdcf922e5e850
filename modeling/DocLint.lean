import DocLint.Command.Basic
import DocLint.Main
import DocLint.Proofs.Place
import DocLint.Proofs.Position
import DocLint.Proofs.CutLength
import DocLint.Proofs.ByteLength
import DocLint.Proofs.Lossless
import DocLint.Proofs.Search
import DocLint.Proofs.Recognition
import DocLint.Proofs.Pass
import DocLint.Proofs.Attachment
import DocLint.Proofs.Location
import DocLint.Proofs.Enclosure
import DocLint.Proofs.History
import DocLint.Proofs.Range
import DocLint.Proofs.Reword
import DocLint.Proofs.Thinning
import DocLint.Proofs.Nesting
import DocLint.Proofs.Trivia
import DocLint.Proofs.LineBreak
import DocLint.Proofs.LineBreakLexer
import DocLint.Proofs.LineEnding
import DocLint.Proofs.LastWriter
import DocLint.Proofs.SettingsOrder
import DocLint.Proofs.Selection
import DocLint.Proofs.StableSort
import DocLint.Proofs.Spelling
import DocLint.Proofs.Aggregation
import DocLint.Proofs.Closing
import DocLint.Proofs.Lexis
import DocLint.Proofs.Modes
import DocLint.Proofs.Names
import DocLint.Proofs.Walk
import DocLint.Proofs.CheckedOnce
import DocLint.Proofs.Relocation
import DocLint.Proofs.ProjectFile
import DocLint.Proofs.Subdirectory
import DocLint.Proofs.Separation
import DocLint.Proofs.OneStatement
import DocLint.Proofs.Template
import DocLint.Proofs.Discovery
import DocLint.Proofs.Balance
import DocLint.Proofs.Containment
import DocLint.Proofs.Parameters
import DocLint.Proofs.Signature
import DocLint.Proofs.Items
import DocLint.Proofs.Words
import DocLint.Proofs.Marks
import DocLint.Proofs.Rendering
import DocLint.Proofs.Gap
import DocLint.Proofs.Insertion
import DocLint.Proofs.PropertyType
import DocLint.Proofs.Coordinates
import DocLint.Proofs.TagLines
import DocLint.Proofs.NamePattern
import DocLint.Proofs.Cutoff
import DocLint.Proofs.Beginning
import DocLint.Proofs.Collection
