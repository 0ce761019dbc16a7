import SqlTables.CommandLine.Directory
import SqlTables.Main
import SqlTables.Proofs.Migration
import SqlTables.Proofs.Source.Concatenation
import SqlTables.Proofs.Source.Statements
import SqlTables.Proofs.Source.Literals
import SqlTables.Proofs.Token.Head
import SqlTables.Proofs.Token.Agreement
import SqlTables.Proofs.Token.Peg
import SqlTables.Proofs.Token.Grammar
import SqlTables.Proofs.Text.Place
import SqlTables.Proofs.Text.Writing
import SqlTables.Proofs.Json.RoundTrip
import SqlTables.Proofs.Schema.Codec
import SqlTables.Proofs.Token.Lossless
import SqlTables.Proofs.Source.Uncommented
import SqlTables.Proofs.Source.Parts
import SqlTables.Proofs.Source.Ending
import SqlTables.Proofs.Token.Extension
import SqlTables.Proofs.RoundTrip.Lexeme
import SqlTables.Proofs.RoundTrip.Spelling
import SqlTables.Proofs.RoundTrip.Grouping
import SqlTables.Proofs.RoundTrip.Lists
import SqlTables.Proofs.RoundTrip.Attributes
import SqlTables.Proofs.RoundTrip.Plain
import SqlTables.Proofs.RoundTrip.Column
import SqlTables.Proofs.RoundTrip.Expression
import SqlTables.Proofs.RoundTrip.Clauses
import SqlTables.Proofs.RoundTrip.Settings
import SqlTables.Proofs.RoundTrip.Definition
import SqlTables.Proofs.RoundTrip.Listing
import SqlTables.Proofs.Schema.Settling
import SqlTables.Proofs.RoundTrip.Settling
import SqlTables.Proofs.RoundTrip.Tables
import SqlTables.Proofs.ModelFile
import SqlTables.Proofs.Places
import SqlTables.Proofs.Quoting
import SqlTables.Proofs.StandardQuoting
import SqlTables.Proofs.Script.Batch
import SqlTables.Proofs.Script.Terminator
import SqlTables.Proofs.EmptyMigration
import SqlTables.Proofs.Layout
import SqlTables.Proofs.UniqueKeys
import SqlTables.Proofs.Indexes.Names
import SqlTables.Proofs.Indexes.Inline
import SqlTables.Proofs.PrimaryKeyOrder
import SqlTables.Proofs.Token.Kinds
import SqlTables.Proofs.Notes
import SqlTables.Proofs.Members
import SqlTables.Proofs.Defaults.ReadBack
import SqlTables.Proofs.Schema.Acceptance
import SqlTables.Proofs.ColumnComments
import SqlTables.Proofs.Indexes.Unnamed
import SqlTables.Proofs.TypeText.Stability
import SqlTables.Proofs.Schema.Idempotence
import SqlTables.Proofs.KeyDeclaration
import SqlTables.Proofs.ColumnList
import SqlTables.Proofs.Items.Draft
import SqlTables.Proofs.Script.Opening
import SqlTables.Proofs.AttributeOrder
import SqlTables.Proofs.Source.Iterator
import SqlTables.Proofs.KeyPlacement
import SqlTables.Proofs.Source.Idempotence
import SqlTables.Proofs.Schema.TypeNames
import SqlTables.Proofs.Walk.Table
