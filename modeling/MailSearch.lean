import MailSearch.Address.Basic
import MailSearch.Address.Email
import MailSearch.Address.Grammar
import MailSearch.Address.Lexical
import MailSearch.CommandLine.Arguments
import MailSearch.CommandLine.Execution
import MailSearch.CommandLine.Run
import MailSearch.Criterion
import MailSearch.Error
import MailSearch.FileTree
import MailSearch.Flag
import MailSearch.Header
import MailSearch.Log.Configuration
import MailSearch.Log.Interval
import MailSearch.Log.Record
import MailSearch.Maildir
import MailSearch.Main
import MailSearch.Message
import MailSearch.Needle
import MailSearch.Needle.Weight
import MailSearch.Parser
import MailSearch.Path
import MailSearch.Proofs.Address.Comments
import MailSearch.Proofs.Address.Content
import MailSearch.Proofs.Address.Counting
import MailSearch.Proofs.Address.Delimiters
import MailSearch.Proofs.Address.Depth
import MailSearch.Proofs.Address.EmptyElements
import MailSearch.Proofs.Address.Fillers
import MailSearch.Proofs.Address.Guard
import MailSearch.Proofs.Address.Joining
import MailSearch.Proofs.Address.LetterCase
import MailSearch.Proofs.Address.Lossless
import MailSearch.Proofs.Address.Mailboxes
import MailSearch.Proofs.Address.Nesting
import MailSearch.Proofs.Address.Productions
import MailSearch.Proofs.Address.Progress
import MailSearch.Proofs.Address.Quoting
import MailSearch.Proofs.Address.Specs
import MailSearch.Proofs.Address.Words
import MailSearch.Proofs.CommandLine.Answer
import MailSearch.Proofs.CommandLine.Explanation
import MailSearch.Proofs.CommandLine.Reading
import MailSearch.Proofs.CommandLine.Stages
import MailSearch.Proofs.Header.Entries
import MailSearch.Proofs.Header.Fields
import MailSearch.Proofs.Header.Lines
import MailSearch.Proofs.Header.Rendering
import MailSearch.Proofs.Message.Addresses
import MailSearch.Proofs.Message.Flags
import MailSearch.Proofs.Message.LineEnds
import MailSearch.Proofs.Message.Maildir
import MailSearch.Proofs.Message.Reading
import MailSearch.Proofs.Needle.Casing
import MailSearch.Proofs.Needle.Folding
import MailSearch.Proofs.Needle.Matching
import MailSearch.Proofs.Needle.Relaxing
import MailSearch.Proofs.Needle.Squeezing
import MailSearch.Proofs.Needle.Substring
import MailSearch.Proofs.Parser.Laws
import MailSearch.Proofs.Parser.Loops
import MailSearch.Proofs.Parser.Mapping
import MailSearch.Proofs.Parser.Repetition
import MailSearch.Proofs.Search.AddressCriteria
import MailSearch.Proofs.Search.Building
import MailSearch.Proofs.Search.Conjunction
import MailSearch.Proofs.Search.Feeding
import MailSearch.Proofs.Search.FlagCriteria
import MailSearch.Proofs.Search.FlagNames
import MailSearch.Proofs.Search.Hits
import MailSearch.Proofs.Search.LetterCase
import MailSearch.Proofs.Search.Meaning
import MailSearch.Proofs.Search.Outcome
import MailSearch.Proofs.Search.Sameness
import MailSearch.Proofs.Search.Shape
import MailSearch.Proofs.Search.Warnings
import MailSearch.Proofs.Text.Boundaries
import MailSearch.Proofs.Text.Trimming
import MailSearch.Proofs.Text.Utf8
import MailSearch.Proofs.UidSet.Canonical
import MailSearch.Proofs.UidSet.Grammar
import MailSearch.Proofs.UidSet.Insertion
import MailSearch.Proofs.UidSet.MaximalRuns
import MailSearch.Proofs.UidSet.Reading
import MailSearch.Proofs.UidSet.Runs
import MailSearch.Proofs.UidSet.Spans
import MailSearch.Proofs.UidSet.Writing
import MailSearch.Role
import MailSearch.Search
import MailSearch.SearchKey
import MailSearch.Settings
import MailSearch.Term
import MailSearch.Text.Ascii
import MailSearch.Text.Blank
import MailSearch.Text.CaseFold
import MailSearch.Text.Invisible
import MailSearch.Text.Quoted
import MailSearch.Text.Split
import MailSearch.Text.Utf8
import MailSearch.Toml.Document
import MailSearch.Toml.Number
import MailSearch.Toml.Settings
import MailSearch.Toml.Token
import MailSearch.Toml.Value
import MailSearch.Uid
import MailSearch.UidSet.Basic
import MailSearch.UidSet.Text
